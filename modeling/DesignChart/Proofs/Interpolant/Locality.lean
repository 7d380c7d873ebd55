import Mathlib
import DesignChart.Proofs.Interpolant.Direction

/-!
# What an answer depends on

Strictly between two samples with none between them, an answer is made of what the table says at
these two, and of nothing else. Two tables that say the same there answer the same to the last bit,
whatever else each of them holds, however many samples it has and in whichever direction and way
round it lists them. No arithmetic law is used: the same operands reach the same operations.
-/

namespace DesignChart

variable {α : Type} [Scalar α]

/-- Two of the samples, with none strictly between them. -/
structure Neighbours (samples : Array α) (a b : α) : Prop where
  left_mem : a ∈ samples
  right_mem : b ∈ samples
  not_between : ∀ s ∈ samples, ¬ (a < s ∧ s < b)

namespace Axis

variable [LawfulScalar α] {samples : Array α} {axis : Axis α}

theorem Increasing.sample_inj (h : axis.Increasing) {i j : Fin axis.samples.size}
    (heq : axis.sample i = axis.sample j) : i = j := by
  rcases lt_trichotomy i j with hlt | hsame | hgt
  · have hsample := h.lt hlt
    rw [heq] at hsample
    exact absurd hsample (Scalar.lt_asymm hsample)
  · exact hsame
  · have hsample := h.lt hgt
    rw [heq] at hsample
    exact absurd hsample (Scalar.lt_asymm hsample)

theorem exists_sample_iff (h : ofSamples samples = .ok axis) {s : α} :
    (∃ i, axis.sample i = s) ↔ s ∈ samples := by
  have hmem : s ∈ axis.samples ↔ s ∈ samples := by
    obtain ⟨-, ⟨-, -, hkept⟩ | ⟨-, -, hkept⟩⟩ := ofSamples_eq_ok_iff.mp h
    · rw [hkept]
    · rw [hkept, Array.mem_reverse]
  rw [← hmem, Array.mem_iff_getElem]
  exact ⟨fun ⟨i, hi⟩ => ⟨i, i.isLt, hi⟩, fun ⟨i, hi, heq⟩ => ⟨⟨i, hi⟩, heq⟩⟩

/-- The sample supplied in place `k` is no other one. -/
theorem place_eq_of_sample (h : ofSamples samples = .ok axis) {k : Nat} {s : α}
    (hk : samples[k]? = some s) {i : Fin axis.samples.size} (hi : axis.sample i = s) :
    ∃ hlt : k < axis.samples.size, axis.place ⟨k, hlt⟩ = i := by
  obtain ⟨hlt, hsample⟩ := Array.getElem?_eq_some_iff.mp hk
  have hlt' : k < axis.samples.size := by
    rw [size_of_ofSamples h]
    exact hlt
  refine ⟨hlt', (increasing_of_ofSamples h).sample_inj ?_⟩
  rw [← sample_place h ⟨k, hlt'⟩ hlt, hi]
  exact hsample

/-- A number strictly between neighbours is located between them. -/
theorem locate_between (h : ofSamples samples = .ok axis) {a b v : α}
    (hab : Neighbours samples a b) (ha : a < v) (hb : v < b) :
    v ∈ axis.range ∧ axis.sample (axis.locate v).low = a ∧ axis.sample (axis.locate v).high = b := by
  have hinc := increasing_of_ofSamples h
  obtain ⟨i, rfl⟩ := (exists_sample_iff h).mpr hab.left_mem
  obtain ⟨j, rfl⟩ := (exists_sample_iff h).mpr hab.right_mem
  have hmem : v ∈ axis.range :=
    ⟨LawfulScalar.le_trans (hinc.sample_mem_range i).1 (Scalar.le_of_lt ha),
      LawfulScalar.le_trans (Scalar.le_of_lt hb) (hinc.sample_mem_range j).2⟩
  refine ⟨hmem, ?_⟩
  obtain ⟨hstart, hstop⟩ := contains_locate hinc hmem
  generalize axis.locate v = cell at hstart hstop
  -- the ends of the cell are not strictly inside, and the number is not beyond them
  have hnone : ∀ k, ¬ (i < k ∧ k < j) := fun k hk =>
    hab.not_between (axis.sample k) ((exists_sample_iff h).mp ⟨k, rfl⟩)
      ⟨hinc.lt hk.1, hinc.lt hk.2⟩
  have hlow : cell.low < j := hinc.sample_lt_iff.mp (Scalar.lt_of_le_of_lt hstart hb)
  have hhigh : i < cell.high := hinc.sample_lt_iff.mp (Scalar.lt_of_lt_of_le ha hstop)
  have hnext : cell.high.val = cell.low.val + 1 := rfl
  constructor
  · congr 1
    by_contra hne
    exact hnone cell.low ⟨by omega, hlow⟩
  · congr 1
    by_contra hne
    exact hnone cell.high ⟨hhigh, by omega⟩

end Axis

theorem mem_zip_iff {β γ : Type} {xs : Array β} {ys : Array γ} {s : β} {p : γ} :
    (s, p) ∈ xs.zip ys ↔ ∃ k : Nat, xs[k]? = some s ∧ ys[k]? = some p := by
  rw [← Array.mem_toList_iff, Array.toList_zip, List.mem_iff_getElem?]
  simp only [List.getElem?_zip_eq_some, Array.getElem?_toList]

namespace Curve

variable {xs ys : Array α} {xName yName : String} {curve other : Curve α}

/-- The points of a curve, in the order of its samples. -/
def points (curve : Curve α) : Array (α × α) := curve.axis.samples.zip curve.values

omit [Scalar α] in
theorem mem_points_iff {s p : α} :
    (s, p) ∈ curve.points ↔ ∃ i, curve.axis.sample i = s ∧ curve.valueAt i = p := by
  have hsize := curve.size_values
  unfold points
  rw [mem_zip_iff]
  constructor
  · rintro ⟨k, hs, hp⟩
    obtain ⟨hk, hs⟩ := Array.getElem?_eq_some_iff.mp hs
    obtain ⟨hk', hp⟩ := Array.getElem?_eq_some_iff.mp hp
    exact ⟨⟨k, hk⟩, hs, hp⟩
  · rintro ⟨i, rfl, rfl⟩
    have hi := i.isLt
    exact ⟨i, Array.getElem?_eq_getElem hi, Array.getElem?_eq_getElem (by omega)⟩

omit [Scalar α] in
theorem map_fst_points (curve : Curve α) :
    curve.points.toList.map Prod.fst = curve.axis.samples.toList := by
  unfold points
  rw [Array.toList_zip]
  exact List.map_fst_zip (by simp [curve.size_values])

omit [Scalar α] in
theorem map_snd_points (curve : Curve α) :
    curve.points.toList.map Prod.snd = curve.values.toList := by
  unfold points
  rw [Array.toList_zip]
  exact List.map_snd_zip (by simp [curve.size_values])

section Points

variable [LawfulScalar α]

/-- A curve keeps the points supplied. -/
theorem mem_points_of_ofSamples (h : ofSamples xs ys xName yName = .ok curve) (point : α × α) :
    point ∈ curve.points ↔ point ∈ xs.zip ys := by
  obtain ⟨haxis, hsize, -⟩ := ofSamples_eq_ok_iff.mp h
  have hn := Axis.size_of_ofSamples haxis
  obtain ⟨s, p⟩ := point
  rw [mem_points_iff, mem_zip_iff]
  constructor
  · rintro ⟨i, rfl, rfl⟩
    have hi := (curve.axis.place i).isLt
    refine ⟨curve.axis.place i, ?_, ?_⟩
    · rw [Array.getElem?_eq_getElem (by omega), Axis.sample_place haxis, Axis.place_place]
    · rw [Array.getElem?_eq_getElem (by omega), value_place h, Axis.place_place]
  · rintro ⟨k, hs, hp⟩
    obtain ⟨hk, rfl⟩ := Array.getElem?_eq_some_iff.mp hs
    obtain ⟨hk', rfl⟩ := Array.getElem?_eq_some_iff.mp hp
    let i : Fin curve.axis.samples.size := ⟨k, by omega⟩
    exact ⟨curve.axis.place i, (Axis.sample_place haxis i hk).symm, (value_place h i hk').symm⟩

omit [LawfulScalar α] in
theorem pairwise_points (h : curve.axis.Increasing) :
    curve.points.Pairwise fun p q => p.1 < q.1 := by
  unfold points
  rw [Array.pairwise_iff_getElem]
  intro i j hi hj hij
  simp only [Array.getElem_zip]
  exact Array.pairwise_iff_getElem.mp h.rises i j _ _ hij

/-- Curves with the same points differ in no more than the direction they were supplied in. -/
theorem exists_turn_eq (h : curve.axis.Increasing) (h' : other.axis.Increasing)
    (hpoints : ∀ point, point ∈ other.points ↔ point ∈ curve.points) :
    ∃ turn, other = curve.turn turn := by
  have : Std.Irrefl fun p q : α × α => p.1 < q.1 := ⟨fun _ hlt => Scalar.lt_asymm hlt hlt⟩
  have : Std.Antisymm fun p q : α × α => p.1 < q.1 :=
    ⟨fun _ _ hlt hgt => absurd hgt (Scalar.lt_asymm hlt)⟩
  have hsame : other.points.toList = curve.points.toList :=
    List.Pairwise.eq_of_mem_iff (pairwise_points h') (pairwise_points h) fun point => by
      rw [Array.mem_toList_iff, Array.mem_toList_iff]
      exact hpoints point
  have hsamples : other.axis.samples = curve.axis.samples := by
    rw [← Array.toList_inj, ← other.map_fst_points, ← curve.map_fst_points, hsame]
  have hvalues : other.values = curve.values := by
    rw [← Array.toList_inj, ← other.map_snd_points, ← curve.map_snd_points, hsame]
  obtain ⟨⟨samples, reversed, _⟩, values, _⟩ := curve
  obtain ⟨⟨samples', reversed', _⟩, values', _⟩ := other
  dsimp only at hsamples hvalues
  subst hsamples hvalues
  refine ⟨reversed ^^ reversed', ?_⟩
  unfold turn Axis.turn
  simp only [← Bool.xor_assoc, Bool.xor_self, Bool.false_xor]

end Points

end Curve

section Lawful

variable [LawfulScalar α]

/-- A curve is read strictly between neighbouring samples on what stands beside these two. -/
theorem Curve.eval_between_neighbours {xs ys : Array α} {xName yName : String} {curve : Curve α}
    (h : ofSamples xs ys xName yName = .ok curve) {a b p q v : α} (hab : Neighbours xs a b)
    (hp : (a, p) ∈ xs.zip ys) (hq : (b, q) ∈ xs.zip ys) (ha : a < v) (hb : v < b) :
    v ∈ curve.range ∧ curve.eval v = blend p q ((v - a) / (b - a)) := by
  have haxis := (ofSamples_eq_ok_iff.mp h).1
  have hinc := Axis.increasing_of_ofSamples haxis
  obtain ⟨hmem, hstart, hstop⟩ := Axis.locate_between haxis hab ha hb
  obtain ⟨i, hi, rfl⟩ := mem_points_iff.mp ((mem_points_of_ofSamples h _).mpr hp)
  obtain ⟨j, hj, rfl⟩ := mem_points_iff.mp ((mem_points_of_ofSamples h _).mpr hq)
  obtain rfl : (curve.axis.locate v).low = i := hinc.sample_inj (hstart.trans hi.symm)
  obtain rfl : (curve.axis.locate v).high = j := hinc.sample_inj (hstop.trans hj.symm)
  refine ⟨hmem, ?_⟩
  rw [eval_eq_read, ← hstart, ← hstop]
  rfl

/-- The value kept beside two samples is the one supplied wherever these stand. -/
theorem ValueGrid.valueAt_of_sample {xs ys : Array α} {written : Matrix α} {o : Orientation}
    {grid : ValueGrid α} (h : ofSamples xs ys written o = .ok grid) {z : Nat → Nat → α}
    (hz : ∀ i < xs.size, ∀ j < ys.size, Matrix.entry? (written.orient o) i j = some (z i j))
    {k l : Nat} {s t : α} (hk : xs[k]? = some s) (hl : ys[l]? = some t)
    {i : Fin grid.xAxis.samples.size} {j : Fin grid.yAxis.samples.size}
    (hi : grid.xAxis.sample i = s) (hj : grid.yAxis.sample j = t) : grid.valueAt i j = z k l := by
  obtain ⟨hx, hy, -, -⟩ := ofSamples_eq_ok_iff.mp h
  obtain ⟨_, rfl⟩ := Axis.place_eq_of_sample hx hk hi
  obtain ⟨_, rfl⟩ := Axis.place_eq_of_sample hy hl hj
  exact valueAt_place h hz _ _

/-- What a grid of values holds for `x` sample `s` and `y` sample `t`, `axis` being the dimension
along the first variable. -/
def Rows.Holds (axis : Option Nat) (rows : Array (Array α)) (xs ys : Array α) (s t value : α) :
    Prop :=
  ∃ i j : Nat, xs[i]? = some s ∧ ys[j]? = some t ∧ Rows.entry? axis rows i j = some value

/-- The points in the line of outer sample `s`. -/
def pointsAt (os : Array α) (line : Nat → Array α) (zs : Array α) (s : α) : Set (α × α) :=
  {point | ∃ i : Nat, os[i]? = some s ∧ point ∈ (line i).zip zs}

/-- Accepted samples have one line each. -/
theorem pointsAt_eq {os zs : Array α} (h : ValidSamples os) (line : Nat → Array α) {k : Nat} {s : α}
    (hk : os[k]? = some s) : pointsAt os line zs s = {point | point ∈ (line k).zip zs} := by
  obtain ⟨axis, haxis⟩ := Axis.exists_ofSamples_iff.mpr h
  ext point
  constructor
  · rintro ⟨i, hi, hmem⟩
    obtain ⟨j, hj⟩ := (Axis.exists_sample_iff haxis).mpr (Array.mem_of_getElem? hk)
    obtain ⟨hkn, hkj⟩ := Axis.place_eq_of_sample haxis hk hj
    obtain ⟨hin, hij⟩ := Axis.place_eq_of_sample haxis hi hj
    have hplace := congrArg axis.place (hij.trans hkj.symm)
    rw [Axis.place_place, Axis.place_place] at hplace
    obtain rfl : i = k := congrArg Fin.val hplace
    exact hmem
  · intro hmem
    exact ⟨k, hk, hmem⟩

namespace CurveFamily

variable {family other : CurveFamily α} {os zs : Array α} {line : Nat → Array α} {name : String}

/-- A family keeps with each outer sample the points in its line. -/
theorem mem_points_curveAt (houter : Axis.ofSamples os = .ok family.outer)
    (hcurve : ∀ i : Fin family.outer.samples.size,
      Curve.ofSamples (line i) zs name "z" = .ok (family.curveAt (family.outer.place i)))
    {s : α} {k : Fin family.outer.samples.size} (hk : family.outer.sample k = s)
    (point : α × α) : point ∈ (family.curveAt k).points ↔ point ∈ pointsAt os line zs s := by
  have hn := Axis.size_of_ofSamples houter
  constructor
  · intro hmem
    have hlt := (family.outer.place k).isLt
    have hline := hcurve (family.outer.place k)
    rw [Axis.place_place] at hline
    refine ⟨family.outer.place k, ?_, (Curve.mem_points_of_ofSamples hline point).mp hmem⟩
    rw [Array.getElem?_eq_getElem (by omega), Axis.sample_place houter, Axis.place_place, hk]
  · rintro ⟨i, hi, hmem⟩
    obtain ⟨hlt, rfl⟩ := Axis.place_eq_of_sample houter hi hk
    exact (Curve.mem_points_of_ofSamples (hcurve ⟨i, hlt⟩) point).mpr hmem

/-- Strictly between neighbouring outer samples a family is read along the curves at these two. -/
theorem evalWithin_between_neighbours (houter : Axis.ofSamples os = .ok family.outer) {a b w : α}
    (hab : Neighbours os a b) (haw : a < w) (hwb : w < b) (policy : RangePolicy α) (v : α) :
    ∃ cell : Axis.Cell family.outer,
      family.outer.sample cell.low = a ∧ family.outer.sample cell.high = b ∧
        family.evalWithin policy w v = family.readWithin policy cell ((w - a) / (b - a)) v := by
  obtain ⟨hmem, hlow, hhigh⟩ := Axis.locate_between houter hab haw hwb
  refine ⟨family.outer.locate w, hlow, hhigh, ?_⟩
  rw [evalWithin_eq, RangePolicy.apply_of_mem _ _ hmem, ← hlow, ← hhigh]
  rfl

/-- Curves with the same points answer alike. -/
theorem evalWithin_curveAt_eq (h : family.Increasing) (h' : other.Increasing)
    {k : Fin family.outer.samples.size} {k' : Fin other.outer.samples.size}
    (hpoints : ∀ point, point ∈ (other.curveAt k').points ↔ point ∈ (family.curveAt k).points)
    (policy : RangePolicy α) (inner : Coordinate) (v : α) :
    (other.curveAt k').evalWithin policy inner v =
      (family.curveAt k).evalWithin policy inner v := by
  obtain ⟨turn, hturn⟩ := Curve.exists_turn_eq (h.curve k) (h'.curve k') hpoints
  rw [hturn, Curve.evalWithin_turn]

end CurveFamily

namespace Interpolant

theorem eval1_between_neighbours {xs ys : Array α} {options : Options α} {f : Interpolant α}
    (h : build (.vector xs) (.vector ys) none options = .ok f) {a b p q v : α}
    (hab : Neighbours xs a b) (hp : (a, p) ∈ xs.zip ys) (hq : (b, q) ∈ xs.zip ys) (ha : a < v)
    (hb : v < b) : f.eval1 v = .ok (blend p q ((v - a) / (b - a))) := by
  obtain ⟨curve, hf, hs⟩ := exists_curve_of_vectors h
  obtain ⟨hmem, heval⟩ := Curve.eval_between_neighbours hs hab hp hq ha hb
  rw [eval1_of_mem hf hmem, heval]

theorem eval2_between_neighbours {xs ys : Array α} {rows : Array (Array α)} {options : Options α}
    {f : Interpolant α} (h : build (.vector xs) (.vector ys) (some (.grid rows)) options = .ok f)
    {a b c d v w : α} (hab : Neighbours xs a b) (hcd : Neighbours ys c d)
    (hav : a < v) (hvb : v < b) (hcw : c < w) (hwd : w < d) {z : α → α → α}
    (hz : ∀ s ∈ [a, b], ∀ t ∈ [c, d], Rows.Holds options.axis rows xs ys s t (z s t)) :
    f.eval2 v w = .ok (blend (blend (z a c) (z b c) ((v - a) / (b - a)))
      (blend (z a d) (z b d) ((v - a) / (b - a))) ((w - c) / (d - c))) := by
  obtain ⟨written, o, grid, hf, hs, value, hvalue⟩ := exists_grid_of_vectors h
  obtain ⟨hxs, hys, -, -⟩ := ValueGrid.ofSamples_eq_ok_iff.mp hs
  have hentry := fun i hi j hj => (hvalue i hi j hj).2
  obtain ⟨hvmem, hva, hvb⟩ := Axis.locate_between hxs hab hav hvb
  obtain ⟨hwmem, hwc, hwd⟩ := Axis.locate_between hys hcd hcw hwd
  have hkept : ∀ {i j s t}, grid.xAxis.sample i = s → grid.yAxis.sample j = t → s ∈ [a, b] →
      t ∈ [c, d] → grid.valueAt i j = z s t := by
    intro i j s t hi hj hs' ht'
    obtain ⟨k, l, hk, hl, hkl⟩ := hz s hs' t ht'
    rw [ValueGrid.valueAt_of_sample hs hentry hk hl hi hj]
    obtain ⟨hk, -⟩ := Array.getElem?_eq_some_iff.mp hk
    obtain ⟨hl, -⟩ := Array.getElem?_eq_some_iff.mp hl
    exact Option.some.inj ((hvalue k hk l hl).1.symm.trans hkl)
  have hac := hkept hva hwc (by simp) (by simp)
  have hbc := hkept hvb hwc (by simp) (by simp)
  have had := hkept hva hwd (by simp) (by simp)
  have hbd := hkept hvb hwd (by simp) (by simp)
  rw [eval2_of_mem hf hvmem hwmem, ← hac, ← hbc, ← had, ← hbd, ← hva, ← hvb, ← hwc, ← hwd]
  rfl

section Family

variable {c : Coordinate} {os zs os' zs' : Array α} {rows rows' : Array (Array α)}
  {options options' : Options α} {f f' : Interpolant α}

theorem evalAcross_between_neighbours
    (h : build (c.pick (.vector os) (.grid rows)) (c.pick (.grid rows) (.vector os))
      (some (.vector zs)) options = .ok f)
    (h' : build (c.pick (.vector os') (.grid rows')) (c.pick (.grid rows') (.vector os'))
      (some (.vector zs')) options' = .ok f')
    (hbounds : options.bounds = options'.bounds) {a b : α} (hab : Neighbours os a b)
    (hab' : Neighbours os' a b)
    (hpoints : ∀ s ∈ [a, b], pointsAt os (Rows.line options.axis rows) zs s =
      pointsAt os' (Rows.line options'.axis rows') zs' s)
    {w : α} (haw : a < w) (hwb : w < b) (v : α) : f.evalAcross c w v = f'.evalAcross c w v := by
  obtain ⟨hchart, hb⟩ := build_eq_ok_iff.mp h
  obtain ⟨hchart', hb'⟩ := build_eq_ok_iff.mp h'
  have hinc := Chart.increasing_of_ofReadings hchart
  have hinc' := Chart.increasing_of_ofReadings hchart'
  rw [Chart.ofReadings_pick] at hchart hchart'
  obtain ⟨family, _, hf, hc, houter, hcurve⟩ := Chart.exists_lines_of_familyOf hchart
  obtain ⟨other, _, hf', hc', houter', hcurve'⟩ := Chart.exists_lines_of_familyOf hchart'
  rw [hf] at hinc
  rw [hf'] at hinc'
  obtain ⟨cell, hlow, hhigh, hread⟩ :=
    CurveFamily.evalWithin_between_neighbours houter hab haw hwb f.bounds v
  obtain ⟨cell', hlow', hhigh', hread'⟩ :=
    CurveFamily.evalWithin_between_neighbours houter' hab' haw hwb f'.bounds v
  have hanswer := evalAcross_eq hf w v
  have hanswer' := evalAcross_eq hf' w v
  rw [hc, hread, hb] at hanswer
  rw [hc', hread', hb', ← hbounds] at hanswer'
  have hsame : ∀ {k k' s}, family.outer.sample k = s → other.outer.sample k' = s → s ∈ [a, b] →
      (other.curveAt k').evalWithin options.bounds family.outerVariable.other v =
        (family.curveAt k).evalWithin options.bounds family.outerVariable.other v := by
    intro k k' s hk hk' hs
    refine CurveFamily.evalWithin_curveAt_eq hinc hinc' (fun point => ?_) _ _ v
    rw [CurveFamily.mem_points_curveAt houter' hcurve' hk',
      CurveFamily.mem_points_curveAt houter hcurve hk, hpoints s hs]
  rw [hanswer, hanswer', CurveFamily.readWithin_congr (hc'.trans hc.symm)
    (hsame hlow hlow' (by simp)) (hsame hhigh hhigh' (by simp))]

end Family

/-- What is answered strictly between neighbouring samples is settled by what a table says at these.
Two curves that share the two points, two value grids that share the four values around, and two
families that share the two curves around answer alike there, in any arithmetic, under every policy
and whatever else they tabulate. -/
theorem build_local :
    (∀ (xs ys xs' ys' : Array α) (options options' : Options α) f f',
      build (.vector xs) (.vector ys) none options = .ok f →
      build (.vector xs') (.vector ys') none options' = .ok f' →
      ∀ a b p q, Neighbours xs a b → Neighbours xs' a b →
        (a, p) ∈ xs.zip ys → (b, q) ∈ xs.zip ys → (a, p) ∈ xs'.zip ys' → (b, q) ∈ xs'.zip ys' →
        ∀ v, a < v → v < b → ∃ answer, f.eval1 v = .ok answer ∧ f'.eval1 v = .ok answer) ∧
    (∀ (xs ys xs' ys' : Array α) (rows rows' : Array (Array α)) (options options' : Options α) f f',
      build (.vector xs) (.vector ys) (some (.grid rows)) options = .ok f →
      build (.vector xs') (.vector ys') (some (.grid rows')) options' = .ok f' →
      ∀ a b c d, Neighbours xs a b → Neighbours xs' a b → Neighbours ys c d → Neighbours ys' c d →
        (∀ s ∈ [a, b], ∀ t ∈ [c, d], ∃ z, Rows.Holds options.axis rows xs ys s t z ∧
          Rows.Holds options'.axis rows' xs' ys' s t z) →
        ∀ v w, a < v → v < b → c < w → w < d →
          ∃ answer, f.eval2 v w = .ok answer ∧ f'.eval2 v w = .ok answer) ∧
    ∀ (c : Coordinate) (os zs os' zs' : Array α) (rows rows' : Array (Array α))
      (options options' : Options α) f f',
      build (c.pick (.vector os) (.grid rows)) (c.pick (.grid rows) (.vector os))
        (some (.vector zs)) options = .ok f →
      build (c.pick (.vector os') (.grid rows')) (c.pick (.grid rows') (.vector os'))
        (some (.vector zs')) options' = .ok f' →
      options.bounds = options'.bounds →
      ∀ a b, Neighbours os a b → Neighbours os' a b →
        (∀ s ∈ [a, b], pointsAt os (Rows.line options.axis rows) zs s =
          pointsAt os' (Rows.line options'.axis rows') zs' s) →
        ∀ w v, a < w → w < b → f.evalAcross c w v = f'.evalAcross c w v := by
  refine ⟨fun xs ys xs' ys' _ _ f f' h h' a b p q hab hab' hp hq hp' hq' v ha hb => ?_,
    fun xs ys xs' ys' _ _ _ _ f f' h h' a b c d hab hab' hcd hcd' hz v w hav hvb hcw hwd => ?_,
    fun c os zs os' zs' _ _ _ _ f f' h h' hbounds a b hab hab' hpoints w v haw hwb => ?_⟩
  · exact ⟨_, eval1_between_neighbours h hab hp hq ha hb,
      eval1_between_neighbours h' hab' hp' hq' ha hb⟩
  · choose! z hz using hz
    exact ⟨_, eval2_between_neighbours h hab hcd hav hvb hcw hwd fun s hs t ht => (hz s hs t ht).1,
      eval2_between_neighbours h' hab' hcd' hav hvb hcw hwd fun s hs t ht => (hz s hs t ht).2⟩
  · exact evalAcross_between_neighbours h h' hbounds hab hab' hpoints haw hwb v

/-- Tables of doubles that share a cell or two curves, the second of each pair longer, turned round
and, where it is a grid, written column by column. -/
theorem build_local_elsewhere :
    (∃ f f', build (.vector #[(0 : Float), 2]) (.vector #[2, 5]) none ⟨none, .raise⟩ = .ok f ∧
      build (.vector #[3, 2, 0, -1]) (.vector #[7, 5, 2, 9]) none ⟨some 0, .clamp⟩ = .ok f' ∧
      ∃ answer, f.eval1 1 = .ok answer ∧ f'.eval1 1 = .ok answer) ∧
    (∃ f f', build (.vector #[(0 : Float), 2]) (.vector #[0, 2]) (some (.grid #[#[1, 2], #[3, 4]]))
        ⟨none, .raise⟩ = .ok f ∧
      build (.vector #[3, 2, 0]) (.vector #[0, 2]) (some (.grid #[#[9, 3, 1], #[8, 4, 2]]))
        ⟨some 1, .fill 0⟩ = .ok f' ∧
      ∃ answer, f.eval2 1 1 = .ok answer ∧ f'.eval2 1 1 = .ok answer) ∧
    ∃ f f', build (.vector #[(0 : Float), 2]) (.grid #[#[0, 1], #[2, 1]]) (some (.vector #[5, 6]))
        ⟨none, .raise⟩ = .ok f ∧
      build (.vector #[2, 0, -1]) (.grid #[#[1, 2], #[1, 0], #[7, 8]]) (some (.vector #[6, 5]))
        ⟨none, .raise⟩ = .ok f' ∧
      ∀ v, f.eval2 1 v = f'.eval2 1 v := by
  have hx : Neighbours #[(0 : Float), 2] 0 2 := ⟨by simp, by simp, by decide +kernel⟩
  have hone : (0 : Float) < 1 ∧ (1 : Float) < 2 := by decide +kernel
  refine ⟨?_, ?_, ?_⟩
  · obtain ⟨f, hf⟩ := (accepts_curve_iff #[(0 : Float), 2] #[2, 5] ⟨none, .raise⟩).mpr
      ⟨Or.inl rfl, by decide +kernel, by decide⟩
    obtain ⟨f', hf'⟩ := (accepts_curve_iff #[(3 : Float), 2, 0, -1] #[7, 5, 2, 9]
      ⟨some 0, .clamp⟩).mpr ⟨Or.inr rfl, by decide +kernel, by decide⟩
    have hx' : Neighbours #[(3 : Float), 2, 0, -1] 0 2 := ⟨by simp, by simp, by decide +kernel⟩
    have hp : ((0 : Float), (2 : Float)) ∈ #[(0 : Float), 2].zip #[2, 5] := by simp
    have hq : ((2 : Float), (5 : Float)) ∈ #[(0 : Float), 2].zip #[2, 5] := by simp
    have hp' : ((0 : Float), (2 : Float)) ∈ #[(3 : Float), 2, 0, -1].zip #[7, 5, 2, 9] := by simp
    have hq' : ((2 : Float), (5 : Float)) ∈ #[(3 : Float), 2, 0, -1].zip #[7, 5, 2, 9] := by simp
    exact ⟨f, f', hf, hf',
      build_local.1 _ _ _ _ _ _ f f' hf hf' 0 2 2 5 hx hx' hp hq hp' hq' 1 hone.1 hone.2⟩
  · obtain ⟨f, hf⟩ := (accepts_grid_iff #[(0 : Float), 2] #[0, 2] #[#[1, 2], #[3, 4]]
      ⟨none, .raise⟩).mpr ⟨by decide +kernel, by decide +kernel, Or.inl rfl,
        ⟨by decide, by decide⟩, by decide⟩
    obtain ⟨f', hf'⟩ := (accepts_grid_iff #[(3 : Float), 2, 0] #[0, 2] #[#[9, 3, 1], #[8, 4, 2]]
      ⟨some 1, .fill 0⟩).mpr ⟨by decide +kernel, by decide +kernel, Or.inr (Or.inr rfl),
        ⟨by decide, by decide⟩, by decide⟩
    have hx' : Neighbours #[(3 : Float), 2, 0] 0 2 := ⟨by simp, by simp, by decide +kernel⟩
    refine ⟨f, f', hf, hf', build_local.2.1 _ _ _ _ _ _ _ _ f f' hf hf' 0 2 0 2 hx hx' hx hx ?_
      1 1 hone.1 hone.2 hone.1 hone.2⟩
    simp only [List.forall_mem_cons, List.not_mem_nil, false_implies, implies_true, and_true]
    exact ⟨⟨⟨1, ⟨0, 0, rfl, rfl, rfl⟩, ⟨2, 0, rfl, rfl, rfl⟩⟩,
        ⟨2, ⟨0, 1, rfl, rfl, rfl⟩, ⟨2, 1, rfl, rfl, rfl⟩⟩⟩,
      ⟨3, ⟨1, 0, rfl, rfl, rfl⟩, ⟨1, 0, rfl, rfl, rfl⟩⟩,
      ⟨4, ⟨1, 1, rfl, rfl, rfl⟩, ⟨1, 1, rfl, rfl, rfl⟩⟩⟩
  · obtain ⟨f, hf⟩ := (accepts_family_iff .x #[(0 : Float), 2] #[5, 6] #[#[0, 1], #[2, 1]]
      ⟨none, .raise⟩).mpr ⟨by decide +kernel, ⟨Or.inl rfl, ⟨by decide, by decide⟩, by decide⟩,
        by decide +kernel⟩
    obtain ⟨f', hf'⟩ := (accepts_family_iff .x #[(2 : Float), 0, -1] #[6, 5]
      #[#[1, 2], #[1, 0], #[7, 8]] ⟨none, .raise⟩).mpr ⟨by decide +kernel,
        ⟨Or.inl rfl, ⟨by decide, by decide⟩, by decide⟩, by decide +kernel⟩
    have hx' : Neighbours #[(2 : Float), 0, -1] 0 2 := ⟨by simp, by simp, by decide +kernel⟩
    have hpoints : ∀ s ∈ [(0 : Float), 2],
        pointsAt #[0, 2] (Rows.line none #[#[0, 1], #[2, 1]]) #[5, 6] s =
          pointsAt #[2, 0, -1] (Rows.line none #[#[1, 2], #[1, 0], #[7, 8]]) #[6, 5] s := by
      have hos : ValidSamples #[(0 : Float), 2] := by decide +kernel
      have hos' : ValidSamples #[(2 : Float), 0, -1] := by decide +kernel
      simp only [List.forall_mem_cons, List.not_mem_nil, false_implies, implies_true, and_true]
      constructor
      · rw [pointsAt_eq hos _ (k := 0) (s := 0) rfl, pointsAt_eq hos' _ (k := 1) (s := 0) rfl]
        ext point
        simp [Rows.line, or_comm]
      · rw [pointsAt_eq hos _ (k := 1) (s := 2) rfl, pointsAt_eq hos' _ (k := 0) (s := 2) rfl]
        ext point
        simp [Rows.line, or_comm]
    exact ⟨f, f', hf, hf', fun v => build_local.2.2 .x _ _ _ _ _ _ _ _ f f' hf hf' rfl 0 2 hx hx'
      hpoints 1 v hone.1 hone.2⟩

end Interpolant

end Lawful

end DesignChart
