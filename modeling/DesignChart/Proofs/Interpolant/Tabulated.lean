import Mathlib
import DesignChart.Proofs.Axis.Weights
import DesignChart.Proofs.Interpolant.Families

/-!
# What is answered at the tabulated points

A blend gives the value at its end back, and multiplies the value at the other end by zero. Beside a
blank entry that product is NaN, so that a tabulated point is answered with its own value only if
the values it is read along with are numbers. Of two cells that meet in a sample the one that begins
there is read, and a family leaves out the curve that has no weight: what a point is read along with
is the next value towards greater samples, and towards lesser ones only at the end of a table.
-/

namespace DesignChart

open Axis (Adjacent)

/-- The value of sample `j` is read along with that of sample `i`: it is the next greater one, or the
next lesser one if `i` is the greatest. -/
structure Companion (samples : Array Exact) (i j : Nat) : Prop where
  lt_size : i < samples.size
  lt_size' : j < samples.size
  adjacent : i + 1 = j ∨ j + 1 = i
  beyond : samples[i] < samples[j] ∨ ∀ v ∈ samples, v ≤ samples[i]

namespace Axis

section Kept

variable {axis : Axis Exact} (h : axis.Increasing) (data : Fin axis.samples.size → Exact)
include h

/-- At the end of a cell the datum is read along with that at the other end. -/
theorem Increasing.read_low (cell : Cell axis) :
    cell.read data (axis.sample cell.low) = (data cell.low).beside [data cell.high] := by
  have hfraction : cell.fraction (axis.sample cell.low) = 0 := h.fraction_start_eq_zero cell
  rw [Cell.read, hfraction, Exact.blend_zero]

theorem Increasing.read_high (cell : Cell axis) :
    cell.read data (axis.sample cell.high) = (data cell.high).beside [data cell.low] := by
  have hfraction : cell.fraction (axis.sample cell.high) = 1 := h.fraction_stop_eq_one cell
  rw [Cell.read, hfraction, Exact.blend_one]

theorem Increasing.locate_read_low {p q : Fin axis.samples.size} (hpq : p.val + 1 = q.val) :
    (axis.locate (axis.sample p)).read data (axis.sample p) = (data p).beside [data q] := by
  have hindex := index_locate_sample h p
  rw [if_pos (by omega)] at hindex
  have hlow : (axis.locate (axis.sample p)).low = p := Fin.ext hindex
  have hhigh : (axis.locate (axis.sample p)).high = q := Fin.ext (by simp only [Cell.high]; omega)
  generalize axis.locate (axis.sample p) = cell at hlow hhigh ⊢
  subst hlow hhigh
  exact h.read_low data cell

theorem Increasing.locate_read_high {p q : Fin axis.samples.size} (hqp : q.val + 1 = p.val)
    (hlast : p.val + 1 = axis.samples.size) :
    (axis.locate (axis.sample p)).read data (axis.sample p) = (data p).beside [data q] := by
  have hindex := index_locate_sample h p
  rw [if_neg (by omega)] at hindex
  have hlow : (axis.locate (axis.sample p)).low = q := Fin.ext (by simp only [Cell.low]; omega)
  have hhigh : (axis.locate (axis.sample p)).high = p := Fin.ext (by simp only [Cell.high]; omega)
  generalize axis.locate (axis.sample p) = cell at hlow hhigh ⊢
  subst hlow hhigh
  exact h.read_high data cell

end Kept

theorem Adjacent.place {axis : Axis Exact} {p q : Fin axis.samples.size} (hpq : Adjacent p q) :
    Adjacent (axis.place p) (axis.place q) := by
  rcases hpq with hpq | hqp
  · exact adjacent_place hpq
  · exact (adjacent_place hqp).symm

section Supplied

variable {samples : Array Exact} {axis : Axis Exact} (h : ofSamples samples = .ok axis)
include h

/-- Data are read at a supplied sample along with those of its companion. -/
theorem read_supplied {p q : Fin axis.samples.size} (hpq : Companion samples p q)
    (data : Fin axis.samples.size → Exact) :
    (axis.locate (axis.sample (axis.place p))).read data (axis.sample (axis.place p)) =
      (data (axis.place p)).beside [data (axis.place q)] := by
  have haxis := increasing_of_ofSamples h
  have hadj : Adjacent (axis.place p) (axis.place q) := .place hpq.adjacent
  have hbeyond := hpq.beyond
  rw [sample_place h p hpq.lt_size, sample_place h q hpq.lt_size', haxis.sample_lt_iff] at hbeyond
  rcases hbeyond with hlt | hgreatest
  · refine haxis.locate_read_low data (hadj.resolve_right fun hqp => ?_)
    have hlt : (axis.place p).val < (axis.place q).val := hlt
    omega
  · -- the last sample is supplied somewhere, and is not above this one
    have hlast := axis.last_lt
    let last : Fin axis.samples.size := ⟨axis.samples.size - 1, hlast⟩
    have hn := size_of_ofSamples h
    have hk : (axis.place last).val < samples.size := hn ▸ (axis.place last).isLt
    have hle := hgreatest _ (Array.getElem_mem hk)
    rw [sample_place h (axis.place last) hk, place_place, haxis.sample_le_iff] at hle
    have hle : axis.samples.size - 1 ≤ (axis.place p).val := hle
    have hp := (axis.place p).isLt
    have hq := (axis.place q).isLt
    refine haxis.locate_read_high data (hadj.resolve_left fun hpq => ?_) ?_
    · omega
    · omega

theorem exists_companion (p : Fin axis.samples.size) :
    ∃ q : Fin axis.samples.size, Companion samples p q := by
  have haxis := increasing_of_ofSamples h
  have hn := size_of_ofSamples h
  have htwo := axis.two_le_size
  have hp := p.isLt
  have hadjacent : ∀ k, Adjacent (axis.place p) k → Adjacent p (axis.place k) := by
    intro k hk
    have hback := hk.place
    rwa [axis.place_place] at hback
  by_cases hnext : (axis.place p).val + 1 < axis.samples.size
  · let k : Fin axis.samples.size := ⟨(axis.place p).val + 1, hnext⟩
    refine ⟨axis.place k, by omega, by omega, hadjacent k (Or.inl rfl), Or.inl ?_⟩
    rw [sample_place h p (by omega), sample_place h (axis.place k) (by omega), place_place]
    exact haxis.lt (Fin.lt_def.mpr (Nat.lt_succ_self _))
  · let k : Fin axis.samples.size := ⟨(axis.place p).val - 1, by omega⟩
    have hk : k.val + 1 = (axis.place p).val := by
      change (axis.place p).val - 1 + 1 = _
      omega
    refine ⟨axis.place k, by omega, by omega, hadjacent k (Or.inr hk), Or.inr fun v hv => ?_⟩
    rw [sample_place h p (by omega)]
    obtain ⟨i, hi, rfl⟩ := Array.mem_iff_getElem.mp hv
    rw [sample_place h ⟨i, by omega⟩ hi]
    exact haxis.le _ _ (Fin.le_def.mpr (by omega))

end Supplied

end Axis

/-- At an outer sample a family answers what its curve there does. -/
theorem CurveFamily.evalWithin_at_sample {family : CurveFamily Exact}
    (h : family.outer.Increasing) {policy : RangePolicy Exact} (p : Fin family.outer.samples.size)
    {v answer : Exact}
    (hanswer : (family.curveAt p).evalWithin policy family.outerVariable.other v =
      .ok (.inside answer)) :
    family.evalWithin policy (family.outer.sample p) v = .ok (.inside answer) := by
  have hmem := h.sample_mem_range p
  have hcell := Axis.contains_locate h hmem
  have hone : (0 : Exact) < 1 := Exact.number_lt.mpr one_pos
  have hnot : ∀ a : Exact, ¬ a < a := fun a hlt => Scalar.lt_asymm hlt hlt
  rw [evalWithin_eq, RangePolicy.apply_of_mem policy _ hmem]
  change family.readWithin policy _ _ v = _
  generalize family.outer.locate (family.outer.sample p) = cell at hcell ⊢
  -- without a weight a share is `0`, which is a number
  have hkept : answer.beside [0] = answer := rfl
  rcases h.eq_low_or_eq_high hcell with rfl | rfl
  · have hfraction : cell.fraction (family.outer.sample cell.low) = 0 :=
      h.fraction_start_eq_zero cell
    have hshare := (endWithin_of_lt policy _ v _ hone).trans hanswer
    have hnone := endWithin_of_not_lt policy family.outerVariable.other v (family.curveAt cell.high)
      (hnot 0)
    rw [hfraction, readWithin_of_shares hshare hnone, Exact.blend_zero, hkept]
  · have hfraction : cell.fraction (family.outer.sample cell.high) = 1 :=
      h.fraction_stop_eq_one cell
    have hshare := (endWithin_of_lt policy _ v _ hone).trans hanswer
    have hnone := endWithin_of_not_lt policy family.outerVariable.other v (family.curveAt cell.low)
      (hnot 1)
    rw [hfraction, readWithin_of_shares hnone hshare, Exact.blend_one, hkept]

namespace Curve

variable {xs ys : Array Exact} {xName yName : String} {curve : Curve Exact}

/-- A supplied point is in range, and is answered with its value beside that of its companion. -/
theorem eval_supplied (h : ofSamples xs ys xName yName = .ok curve) {i : Nat} (hi : i < xs.size)
    (hi' : i < ys.size) :
    ∃ j, ∃ hj : j < ys.size, Companion xs i j ∧ xs[i] ∈ curve.range ∧
      curve.eval xs[i] = ys[i].beside [ys[j]] := by
  obtain ⟨haxis, hsize, -⟩ := ofSamples_eq_ok_iff.mp h
  have hn := Axis.size_of_ofSamples haxis
  let p : Fin curve.axis.samples.size := ⟨i, by omega⟩
  obtain ⟨q, hpq⟩ := Axis.exists_companion haxis p
  have hq : q.val < ys.size := by omega
  have hsample : xs[i] = curve.axis.sample (curve.axis.place p) := Axis.sample_place haxis p hi
  have hvalue : ys[i] = curve.valueAt (curve.axis.place p) := value_place h p hi'
  refine ⟨q, hq, hpq, ?_, ?_⟩
  · rw [hsample]
    exact (Axis.increasing_of_ofSamples haxis).sample_mem_range _
  · rw [hsample, eval_eq_read, Axis.read_supplied haxis hpq, ← hvalue, ← value_place h q hq]

end Curve

namespace ValueGrid

variable {xs ys : Array Exact} {written : Matrix Exact} {o : Orientation} {grid : ValueGrid Exact}

/-- A supplied pair of samples is in range, and is answered with its value beside those of the three
pairs that it is read along with. -/
theorem eval_supplied (h : ofSamples xs ys written o = .ok grid) {z : Nat → Nat → Exact}
    (hz : ∀ i < xs.size, ∀ j < ys.size, Matrix.entry? (written.orient o) i j = some (z i j))
    {i j : Nat} (hi : i < xs.size) (hj : j < ys.size) :
    ∃ i' j', Companion xs i i' ∧ Companion ys j j' ∧
      xs[i] ∈ grid.xAxis.range ∧ ys[j] ∈ grid.yAxis.range ∧
      grid.eval xs[i] ys[j] = (z i j).beside [z i' j, z i j', z i' j'] := by
  obtain ⟨hx, hy, -, -⟩ := ofSamples_eq_ok_iff.mp h
  have hm := Axis.size_of_ofSamples hx
  have hn := Axis.size_of_ofSamples hy
  let p : Fin grid.xAxis.samples.size := ⟨i, by omega⟩
  let q : Fin grid.yAxis.samples.size := ⟨j, by omega⟩
  obtain ⟨p', hpp'⟩ := Axis.exists_companion hx p
  obtain ⟨q', hqq'⟩ := Axis.exists_companion hy q
  have hsample : xs[i] = grid.xAxis.sample (grid.xAxis.place p) := Axis.sample_place hx p hi
  have hsample' : ys[j] = grid.yAxis.sample (grid.yAxis.place q) := Axis.sample_place hy q hj
  have hvalue : ∀ (k : Fin grid.xAxis.samples.size) (l : Fin grid.yAxis.samples.size),
      grid.valueAt (grid.xAxis.place k) (grid.yAxis.place l) = z k l := by
    intro k l
    have hplace := value_place h k l
    rw [hz k (by omega) l (by omega)] at hplace
    exact (Option.some.inj hplace).symm
  refine ⟨p', q', hpp', hqq', ?_, ?_, ?_⟩
  · rw [hsample]
    exact (Axis.increasing_of_ofSamples hx).sample_mem_range _
  · rw [hsample']
    exact (Axis.increasing_of_ofSamples hy).sample_mem_range _
  · rw [hsample, hsample', eval_eq_read, Axis.read_supplied hy hqq', Axis.read_supplied hx hpp',
      Axis.read_supplied hx hpp', hvalue, hvalue, hvalue, hvalue, Exact.beside_beside]

end ValueGrid

namespace Interpolant

/-- Under every policy a tabulated point is answered with its own value beside the values it is read
along with, and so with its own value exactly if these are numbers. -/
theorem build_answers_tabulated (x y : Readings Exact) (options : Options Exact)
    (f : Interpolant Exact) :
    (build x y none options = .ok f →
      ∃ xs ys, x = .vector xs ∧ y = .vector ys ∧ xs.size = ys.size ∧
        ∀ i (hx : i < xs.size) (hy : i < ys.size), ∃ j, ∃ hj : j < ys.size,
          Companion xs i j ∧ f.eval1 xs[i] = .ok (ys[i].beside [ys[j]])) ∧
    (∀ rows, build x y (some (.grid rows)) options = .ok f →
      ∃ xs ys, x = .vector xs ∧ y = .vector ys ∧ ∃ z : Nat → Nat → Exact,
        (∀ i < xs.size, ∀ j < ys.size, Rows.entry? options.axis rows i j = some (z i j)) ∧
        ∀ i j (hx : i < xs.size) (hy : j < ys.size), ∃ i' j',
          Companion xs i i' ∧ Companion ys j j' ∧
            f.eval2 xs[i] ys[j] = .ok ((z i j).beside [z i' j, z i j', z i' j'])) ∧
    ∀ c z rows, c.other.pick x y = .grid rows → build x y z options = .ok f →
      ∃ os zs, c.pick x y = .vector os ∧ z = some (.vector zs) ∧
        ∀ i (hi : i < os.size), (Rows.line options.axis rows i).size = zs.size ∧
          ∀ j (hj : j < (Rows.line options.axis rows i).size) (hz : j < zs.size),
            ∃ k, ∃ hk : k < zs.size, Companion (Rows.line options.axis rows i) j k ∧
              f.evalAcross c os[i] (Rows.line options.axis rows i)[j] =
                .ok (zs[j].beside [zs[k]]) := by
  refine ⟨fun h => ?_, fun rows h => ?_, fun c z rows hgrid h => ?_⟩
  · obtain ⟨hchart, -⟩ := build_eq_ok_iff.mp h
    obtain ⟨curve, hcurve, hf⟩ := Chart.ofReadings_curve_eq_ok_iff.mp hchart
    obtain ⟨-, xs, ys, hx, hy, hs⟩ := Chart.curveOf_eq_ok_iff.mp hcurve
    have hsize := (Curve.exists_ofSamples_iff.mp ⟨curve, hs⟩).2
    refine ⟨xs, ys, hx, hy, hsize.symm, fun i hi hi' => ?_⟩
    obtain ⟨j, hj, hcompanion, hmem, heval⟩ := Curve.eval_supplied hs hi hi'
    exact ⟨j, hj, hcompanion, by rw [eval1_of_mem hf.symm hmem, heval]⟩
  · obtain ⟨xs, ys, written, o, grid, hx, hy, hf, hs, z, hz⟩ := exists_grid_of_build h
    refine ⟨xs, ys, hx, hy, z, fun i hi j hj => (hz i hi j hj).1, fun i j hi hj => ?_⟩
    obtain ⟨i', j', hi', hj', hxmem, hymem, heval⟩ :=
      ValueGrid.eval_supplied hs (fun i hi j hj => (hz i hi j hj).2) hi hj
    exact ⟨i', j', hi', hj', by rw [eval2_of_mem hf hxmem hymem, heval]⟩
  · obtain ⟨hchart, -⟩ := build_eq_ok_iff.mp h
    obtain ⟨os, zs, hos, hzs, hfamily⟩ := Chart.exists_familyOf_of_ofReadings hgrid hchart
    obtain ⟨family, o, hf, rfl, houter, hcurve⟩ := Chart.exists_lines_of_familyOf hfamily
    have hn := Axis.size_of_ofSamples houter
    refine ⟨os, zs, hos, hzs, fun i hi => ?_⟩
    let p : Fin family.outer.samples.size := ⟨i, by omega⟩
    have hline := hcurve p
    have hsample : os[i] = family.outer.sample (family.outer.place p) :=
      Axis.sample_place houter p hi
    refine ⟨(Curve.exists_ofSamples_iff.mp ⟨_, hline⟩).2.symm, fun j hj hz => ?_⟩
    obtain ⟨k, hk, hcompanion, hmem, heval⟩ := Curve.eval_supplied hline hj hz
    refine ⟨k, hk, hcompanion, ?_⟩
    have hanswer := Curve.evalWithin_of_mem f.bounds family.outerVariable.other hmem
    rw [evalAcross_eq hf, hsample, CurveFamily.evalWithin_at_sample
      (Axis.increasing_of_ofSamples houter) _ hanswer]
    exact congrArg Except.ok heval

/-- A curve with a blank entry, and a family with a blank among its values: the point beside it is
answered with NaN. -/
theorem build_answers_tabulated_beside_a_blank :
    (∃ f, build (.vector #[(0 : Exact), 1]) (.vector #[.number 5, .nan]) none ⟨none, .raise⟩ =
        .ok f ∧ f.eval1 0 = .ok .nan) ∧
    ∃ f, build (.vector #[(0 : Exact), 1]) (.grid #[#[0, 1], #[0, 1]])
        (some (.vector #[.number 5, .nan])) ⟨none, .clamp⟩ = .ok f ∧ f.eval2 0 0 = .ok .nan := by
  let samples : Axis Exact := ⟨#[0, 1], false, by decide⟩
  let curve : Curve Exact := ⟨samples, #[.number 5, .nan], rfl⟩
  let family : CurveFamily Exact := ⟨.x, samples, #[curve, curve], rfl⟩
  have hnext : ∀ j, Companion #[0, 1] 0 j → j = 1 := fun j h => by
    have hadjacent := h.adjacent
    omega
  constructor
  · let f : Interpolant Exact := ⟨.curve curve, .raise⟩
    have hf : build (.vector #[(0 : Exact), 1]) (.vector #[.number 5, .nan]) none ⟨none, .raise⟩ =
      .ok f := rfl
    obtain ⟨xs, ys, hx, hy, -, h⟩ := (build_answers_tabulated _ _ _ f).1 hf
    obtain rfl := Readings.vector.inj hx
    obtain rfl := Readings.vector.inj hy
    obtain ⟨j, hj, hcompanion, heval⟩ := h 0 (by decide) (by decide)
    obtain rfl := hnext j hcompanion
    exact ⟨f, hf, heval⟩
  · let f : Interpolant Exact := ⟨.surface (.family family) ⟨.y, .asWritten⟩, .clamp⟩
    have hf : build (.vector #[(0 : Exact), 1]) (.grid #[#[0, 1], #[0, 1]])
      (some (.vector #[.number 5, .nan])) ⟨none, .clamp⟩ = .ok f := rfl
    obtain ⟨os, zs, hos, hzs, h⟩ := (build_answers_tabulated _ _ _ f).2.2 .x _ _ rfl hf
    obtain rfl := Readings.vector.inj hos
    obtain rfl := Readings.vector.inj (Option.some.inj hzs)
    obtain ⟨-, h⟩ := h 0 (by decide)
    obtain ⟨k, hk, hcompanion, heval⟩ := h 0 (by decide) (by decide)
    obtain rfl := hnext k hcompanion
    exact ⟨f, hf, heval⟩

end Interpolant

end DesignChart
