import Mathlib
import DesignChart.Proofs.Axis.Monotone
import DesignChart.Proofs.Interpolant.Slopes

/-!
# Tables that rise or fall

A table whose entries rise as its samples increase is answered in rising order, and one whose entries
fall in falling order, however far apart two points are and whether or not they are in range. It is
the samples that are compared and not their places, so that the direction a table is listed in does
not matter. A value grid has to rise along both variables. Of a family only the inner variable is
compared: each of its curves is moved into a range of its own there.
-/

namespace DesignChart

/-- Of two values, that of the lesser sample stands in the relation `r` to that of the greater. -/
def Follows (r : ℚ → ℚ → Prop) (samples : Array ℚ) (value : Nat → ℚ) : Prop :=
  ∀ i (_ : i < samples.size), ∀ j (_ : j < samples.size), samples[i] < samples[j] →
    r (value i) (value j)

instance (r : ℚ → ℚ → Prop) [DecidableRel r] (samples : Array ℚ) (value : Nat → ℚ) :
    Decidable (Follows r samples value) :=
  inferInstanceAs (Decidable (∀ i (_ : i < samples.size), ∀ j (_ : j < samples.size), _ → _))

/-- What holds along the samples as supplied holds along the samples as kept. -/
theorem Axis.rel_of_supplied {axis : Axis ℚ} {samples : Array ℚ}
    (h : ofSamples samples = .ok axis) (data : Fin axis.samples.size → ℚ) {value : Nat → ℚ}
    (hvalue : ∀ k : Fin axis.samples.size, data (axis.place k) = value k) {r : ℚ → ℚ → Prop}
    (hrefl : ∀ v, r v v) (hs : Follows r samples value) {p q : Fin axis.samples.size}
    (hpq : p ≤ q) : r (data p) (data q) := by
  rcases hpq.eq_or_lt with rfl | hlt
  · exact hrefl _
  · have hn := size_of_ofSamples h
    have hp := (axis.place p).isLt
    have hq := (axis.place q).isLt
    have hsample := (increasing_of_ofSamples h).lt hlt
    rw [← axis.place_place p, ← axis.place_place q, ← sample_place h (axis.place p) (by omega),
      ← sample_place h (axis.place q) (by omega)] at hsample
    rw [← axis.place_place p, ← axis.place_place q, hvalue, hvalue]
    exact hs _ _ _ _ hsample

namespace Curve

variable {xs ys : Array ℚ} {xName yName : String} {curve : Curve ℚ}

/-- A curve rises or falls as its points do. -/
theorem monotone_clamped (h : ofSamples xs ys xName yName = .ok curve) :
    (Follows (· ≤ ·) xs (ys.getD · 0) → Monotone curve.clamped) ∧
      (Follows (· ≥ ·) xs (ys.getD · 0) → Antitone curve.clamped) := by
  have haxis := (ofSamples_eq_ok_iff.mp h).1
  have hinc := Axis.increasing_of_ofSamples haxis
  have hvalue := fun k => valueAt_place h k 0
  rw [clamped_eq]
  constructor
  · intro hs
    exact hinc.monotone_readClamped fun p q hpq =>
      Axis.rel_of_supplied haxis _ hvalue le_refl hs hpq
  · intro hs
    exact hinc.antitone_readClamped fun p q hpq =>
      Axis.rel_of_supplied (r := (· ≥ ·)) haxis _ hvalue le_refl hs hpq

end Curve

namespace ValueGrid

variable {grid : ValueGrid ℚ} (hx : grid.xAxis.Increasing) (hy : grid.yAxis.Increasing)
include hx hy

theorem clamped_le_clamped (hxs : ∀ j, Monotone fun i => grid.valueAt i j)
    (hys : ∀ i, Monotone fun j => grid.valueAt i j) {v v' w w' : ℚ} (hv : v ≤ v') (hw : w ≤ w') :
    grid.clamped v w ≤ grid.clamped v' w' :=
  -- first along `x` for each `y` sample, then along `y`
  calc
    grid.clamped v w ≤ grid.clamped v' w :=
      hy.readClamped_le_readClamped (fun j => hx.monotone_readClamped (hxs j) hv) w
    _ ≤ grid.clamped v' w' :=
      hy.monotone_readClamped
        (fun _ _ hjl => hx.readClamped_le_readClamped (fun i => hys i hjl) v') hw

theorem clamped_ge_clamped (hxs : ∀ j, Antitone fun i => grid.valueAt i j)
    (hys : ∀ i, Antitone fun j => grid.valueAt i j) {v v' w w' : ℚ} (hv : v ≤ v') (hw : w ≤ w') :
    grid.clamped v' w' ≤ grid.clamped v w :=
  calc
    grid.clamped v' w' ≤ grid.clamped v' w :=
      hy.antitone_readClamped
        (fun _ _ hjl => hx.readClamped_le_readClamped (fun i => hys i hjl) v') hw
    _ ≤ grid.clamped v w :=
      hy.readClamped_le_readClamped (fun j => hx.antitone_readClamped (hxs j) hv) w

omit hx hy

/-- What holds along the values supplied, for the samples of either variable, holds along the values
kept. -/
theorem follows_of_supplied {xs ys : Array ℚ} {written : Matrix ℚ} {o : Orientation}
    (h : ofSamples xs ys written o = .ok grid) {z : Nat → Nat → ℚ}
    (hz : ∀ i < xs.size, ∀ j < ys.size, Matrix.entry? (written.orient o) i j = some (z i j))
    {r : ℚ → ℚ → Prop} (hrefl : ∀ v, r v v) (hxs : ∀ j < ys.size, Follows r xs (z · j))
    (hys : ∀ i < xs.size, Follows r ys (z i)) :
    (∀ j {i k}, i ≤ k → r (grid.valueAt i j) (grid.valueAt k j)) ∧
      ∀ i {j l}, j ≤ l → r (grid.valueAt i j) (grid.valueAt i l) := by
  obtain ⟨hx, hy, -, -⟩ := ofSamples_eq_ok_iff.mp h
  have hm := Axis.size_of_ofSamples hx
  have hn := Axis.size_of_ofSamples hy
  constructor
  · intro j i k hik
    have hj := (grid.yAxis.place j).isLt
    refine Axis.rel_of_supplied hx (fun i => grid.valueAt i j) (fun i => ?_) hrefl
      (hxs (grid.yAxis.place j) (by omega)) hik
    rw [← valueAt_place h hz, Axis.place_place]
  · intro i j l hjl
    have hi := (grid.xAxis.place i).isLt
    refine Axis.rel_of_supplied hy (fun j => grid.valueAt i j) (fun j => ?_) hrefl
      (hys (grid.xAxis.place i) (by omega)) hjl
    rw [← valueAt_place h hz, Axis.place_place]

end ValueGrid

namespace CurveFamily

variable {family : CurveFamily ℚ}

theorem clamped_le_clamped (h : family.outer.Increasing) {v v' : ℚ}
    (hcurve : ∀ i, (family.curveAt i).clamped v ≤ (family.curveAt i).clamped v') (w : ℚ) :
    family.clamped w v ≤ family.clamped w v' := by
  rw [clamped_eq h, clamped_eq h]
  exact h.readClamped_le_readClamped hcurve w

/-- A family rises or falls along its inner variable as its curves do. -/
theorem monotone_clamped (h : family.outer.Increasing) (w : ℚ) :
    ((∀ i, Monotone (family.curveAt i).clamped) → Monotone (family.clamped w)) ∧
      ((∀ i, Antitone (family.curveAt i).clamped) → Antitone (family.clamped w)) :=
  ⟨fun hcurve _ _ hv => clamped_le_clamped h (fun i => hcurve i hv) w,
    fun hcurve _ _ hv => clamped_le_clamped h (fun i => hcurve i hv) w⟩

end CurveFamily

namespace Interpolant

/-- Reading at the nearest point in range, an interpolant of a table that rises answers in rising
order, and that of a table that falls in falling order: a curve along its variable, a grid of values
along both at once, and a family along its inner variable over each outer coordinate. -/
theorem build_monotone (x y : Readings ℚ) (axis : Option Nat) :
    (∀ f, build x y none ⟨axis, .clamp⟩ = .ok f →
      ∃ (xs ys : Array ℚ) (g : ℚ → ℚ), x = .vector xs ∧ y = .vector ys ∧ ys.size = xs.size ∧
        (∀ v, f.eval1 v = .ok (g v)) ∧
        (Follows (· ≤ ·) xs (ys.getD · 0) → Monotone g) ∧
        (Follows (· ≥ ·) xs (ys.getD · 0) → Antitone g)) ∧
    (∀ rows f, build x y (some (.grid rows)) ⟨axis, .clamp⟩ = .ok f →
      ∃ (xs ys : Array ℚ) (z : Nat → Nat → ℚ) (g : ℚ → ℚ → ℚ),
        x = .vector xs ∧ y = .vector ys ∧
        (∀ i < xs.size, ∀ j < ys.size, Rows.entry? axis rows i j = some (z i j)) ∧
        (∀ v w, f.eval2 v w = .ok (g v w)) ∧
        ((∀ j < ys.size, Follows (· ≤ ·) xs (z · j)) → (∀ i < xs.size, Follows (· ≤ ·) ys (z i)) →
          ∀ v v' w w', v ≤ v' → w ≤ w' → g v w ≤ g v' w') ∧
        ((∀ j < ys.size, Follows (· ≥ ·) xs (z · j)) → (∀ i < xs.size, Follows (· ≥ ·) ys (z i)) →
          ∀ v v' w w', v ≤ v' → w ≤ w' → g v' w' ≤ g v w)) ∧
    ∀ zs f, build x y (some (.vector zs)) ⟨axis, .clamp⟩ = .ok f →
      ∃ (c : Coordinate) (os : Array ℚ) (rows : Array (Array ℚ)) (g : ℚ → ℚ → ℚ),
        c.pick x y = .vector os ∧ c.other.pick x y = .grid rows ∧
        (∀ i < os.size, zs.size = (Rows.line axis rows i).size) ∧
        (∀ w v, f.evalAcross c w v = .ok (g w v)) ∧
        ((∀ i < os.size, Follows (· ≤ ·) (Rows.line axis rows i) (zs.getD · 0)) →
          ∀ w, Monotone (g w)) ∧
        ((∀ i < os.size, Follows (· ≥ ·) (Rows.line axis rows i) (zs.getD · 0)) →
          ∀ w, Antitone (g w)) := by
  refine ⟨fun f h => ?_, fun rows f h => ?_, fun zs f h => ?_⟩
  · obtain ⟨-, hb⟩ := build_eq_ok_iff.mp h
    obtain ⟨xs, ys, curve, hx, hy, hsize, hf, hs⟩ := exists_curve_of_build h
    exact ⟨xs, ys, curve.clamped, hx, hy, hsize, eval1_clamp hb hf, Curve.monotone_clamped hs⟩
  · obtain ⟨-, hb⟩ := build_eq_ok_iff.mp h
    obtain ⟨xs, ys, written, o, grid, hx, hy, hf, hs, z, hz⟩ := exists_grid_of_build h
    obtain ⟨hxs, hys, -, -⟩ := ValueGrid.ofSamples_eq_ok_iff.mp hs
    have hxaxis := Axis.increasing_of_ofSamples hxs
    have hyaxis := Axis.increasing_of_ofSamples hys
    have hentry := fun i hi j hj => (hz i hi j hj).2
    refine ⟨xs, ys, z, grid.clamped, hx, hy, fun i hi j hj => (hz i hi j hj).1, eval2_clamp hb hf,
      fun hzx hzy v v' w w' hv hw => ?_, fun hzx hzy v v' w w' hv hw => ?_⟩
    · obtain ⟨hrise, hrise'⟩ := ValueGrid.follows_of_supplied hs hentry le_refl hzx hzy
      exact ValueGrid.clamped_le_clamped hxaxis hyaxis (fun j _ _ => hrise j)
        (fun i _ _ => hrise' i) hv hw
    · obtain ⟨hfall, hfall'⟩ :=
        ValueGrid.follows_of_supplied (r := (· ≥ ·)) hs hentry le_refl hzx hzy
      exact ValueGrid.clamped_ge_clamped hxaxis hyaxis (fun j _ _ => hfall j)
        (fun i _ _ => hfall' i) hv hw
  · obtain ⟨-, hb⟩ := build_eq_ok_iff.mp h
    obtain ⟨c, os, rows, hos, hgrid, family, source, hf, hl⟩ := exists_lines_of_build h
    have houter := Axis.increasing_of_ofSamples hl.outer_eq
    have hcurve := fun i => Curve.monotone_clamped (hl.curveAt_eq i)
    have hline : ∀ i, (family.outer.place i).val < os.size := fun i => by
      rw [← hl.size_eq]
      exact (family.outer.place i).isLt
    refine ⟨c, os, rows, family.clamped, hos, hgrid, hl.size_line, fun w v => ?_,
      fun hs w => ?_, fun hs w => ?_⟩
    · rw [← hl.outerVariable_eq]
      exact evalAcross_clamp hb hf w v
    · exact (CurveFamily.monotone_clamped houter w).1 fun i => (hcurve i).1 (hs _ (hline i))
    · exact (CurveFamily.monotone_clamped houter w).2 fun i => (hcurve i).2 (hs _ (hline i))

/-- A rising curve and a rising grid with the samples of `x` in falling order, and a family whose
lines fall over different ranges. -/
theorem build_monotone_decreasing :
    (∃ f, build (.vector #[(1 : ℚ), 0]) (.vector #[2, 0]) none ⟨none, .clamp⟩ = .ok f ∧
      ∃ g, (∀ v, f.eval1 v = .ok (g v)) ∧ Monotone g) ∧
    (∃ f, build (.vector #[(1 : ℚ), 0]) (.vector #[0, 1]) (some (.grid #[#[2, 0], #[3, 0]]))
        ⟨some 1, .clamp⟩ = .ok f ∧
      ∃ g : ℚ → ℚ → ℚ, (∀ v w, f.eval2 v w = .ok (g v w)) ∧ g (-1) (1 / 2) ≤ g (1 / 2) 3) ∧
    ∃ f, build (.vector #[(1 : ℚ), 0]) (.grid #[#[1, 0], #[3, 1]]) (some (.vector #[0, 1]))
        ⟨none, .clamp⟩ = .ok f ∧
      ∃ g : ℚ → ℚ → ℚ, (∀ w v, f.eval2 w v = .ok (g w v)) ∧ ∀ w, Antitone (g w) := by
  refine ⟨?_, ?_, ?_⟩
  · obtain ⟨f, hf⟩ := (accepts_curve_iff #[(1 : ℚ), 0] #[2, 0] ⟨none, .clamp⟩).mpr
      ⟨Or.inl rfl, by decide +kernel, rfl⟩
    obtain ⟨xs, ys, g, hx, hy, -, heval, hrise, -⟩ := (build_monotone _ _ _).1 f hf
    obtain rfl := Readings.vector.inj hx
    obtain rfl := Readings.vector.inj hy
    exact ⟨f, hf, g, heval, hrise (by decide +kernel)⟩
  · obtain ⟨f, hf⟩ := (accepts_grid_iff #[(1 : ℚ), 0] #[0, 1] #[#[2, 0], #[3, 0]]
      ⟨some 1, .clamp⟩).mpr ⟨by decide +kernel, by decide +kernel, Or.inr (Or.inr rfl),
        ⟨by decide, by decide⟩, rfl⟩
    obtain ⟨xs, ys, z, g, hx, hy, hz, heval, hrise, -⟩ := (build_monotone _ _ _).2.1 _ f hf
    obtain rfl := Readings.vector.inj hx
    obtain rfl := Readings.vector.inj hy
    -- the values by sample, so that the two conditions can be evaluated
    let value : Nat → Nat → ℚ := fun i j => if i = 0 then (if j = 0 then 2 else 3) else 0
    have hentry : ∀ i < 2, ∀ j < 2,
        Rows.entry? (some 1) #[#[(2 : ℚ), 0], #[3, 0]] i j = some (value i j) := by
      decide +kernel
    have hvalue : ∀ i < 2, ∀ j < 2, z i j = value i j := fun i hi j hj =>
      Option.some.inj ((hz i hi j hj).symm.trans (hentry i hi j hj))
    have hsamples : (∀ j < 2, Follows (· ≤ ·) #[(1 : ℚ), 0] (value · j)) ∧
        ∀ i < 2, Follows (· ≤ ·) #[(0 : ℚ), 1] (value i) := by
      decide +kernel
    refine ⟨f, hf, g, heval, hrise (fun j hj i hi k hk => ?_) (fun i hi j hj l hl => ?_) _ _ _ _
      (by norm_num) (by norm_num)⟩
    · show _ → z i j ≤ z k j
      rw [hvalue i hi j hj, hvalue k hk j hj]
      exact hsamples.1 j hj i hi k hk
    · show _ → z i j ≤ z i l
      rw [hvalue i hi j hj, hvalue i hi l hl]
      exact hsamples.2 i hi j hj l hl
  · have hlines : ∀ i < 2, ValidSamples (Rows.line none #[#[(1 : ℚ), 0], #[3, 1]] i) := by
      decide +kernel
    obtain ⟨f, hf⟩ := (accepts_family_iff .x #[(1 : ℚ), 0] #[0, 1] #[#[1, 0], #[3, 1]]
      ⟨none, .clamp⟩).mpr ⟨by decide +kernel, ⟨Or.inl rfl, ⟨by decide, by decide⟩, rfl⟩, hlines⟩
    obtain ⟨c, os, rows, g, hos, hrows, -, heval, -, hfall⟩ := (build_monotone _ _ _).2.2 _ f hf
    cases c with
    | x =>
      obtain rfl := Readings.vector.inj hos
      obtain rfl := Readings.grid.inj hrows
      exact ⟨f, hf, g, heval, hfall (by decide +kernel)⟩
    | y => cases hos

end Interpolant

end DesignChart
