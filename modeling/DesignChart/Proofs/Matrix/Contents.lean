import Mathlib
import DesignChart.Proofs.Matrix.Rearranged
import DesignChart.Proofs.Raw.Construction
import DesignChart.Readings

/-!
# Matrices keep every entry

What is read off the rows of a page is given back by them, and rows that are no matrix are reported
by the first that is at fault. Transposing and the two reversals move entries about, without losing
or doubling one: as a sum over all places the entries are exchanged or counted from the other end.
A shape is turned round by each transposing and by nothing else.
-/

namespace DesignChart.Matrix

variable {α : Type}

/-- The entries, each as often as it occurs. -/
def contents (m : Matrix α) : Multiset α := ↑(m.toRows.toList.flatMap Array.toList)

/-- A step that moves the entries of a matrix about. -/
inductive Rearrangement
  | transpose
  | reverseRows
  | reverseColumns
deriving DecidableEq

/-- The matrix after one step. -/
def Rearrangement.apply : Rearrangement → Matrix α → Matrix α
  | transpose, m => m.transpose
  | reverseRows, m => m.reverseRows
  | reverseColumns, m => m.reverseColumns

/-- The matrix after steps one after the other. -/
def rearrange (m : Matrix α) (steps : List Rearrangement) : Matrix α :=
  steps.foldl (fun m step => step.apply m) m

/-- The first row that is not as long as row 0. -/
structure FirstRagged (rows : Array (Array α)) (i : Nat) (hi : i < rows.size) : Prop where
  ragged : rows[i].size ≠ rows[0].size
  earlier : ∀ j (hj : j < i), rows[j].size = rows[0].size

section Rows

theorem ofRows_eq_error_iff {rows : Array (Array α)} {fault : Fault α} :
    ofRows rows = .error fault ↔ rows.size = 0 ∧ fault = .noRows ∨
      ∃ i hi, FirstRagged rows i hi ∧ fault = .raggedRow rows[0].size i rows[i].size := by
  by_cases hpos : 0 < rows.size
  · have hfirst : ∀ {i : Fin rows.size},
        (List.finRange rows.size).find? (fun i => rows[i].size ≠ rows[0].size) = some i ↔
          FirstRagged rows i i.isLt := by
      intro i
      rw [List.find?_eq_some_iff_getElem]
      constructor
      · rintro ⟨hi, k, hk, hki, hbefore⟩
        rw [List.getElem_finRange] at hki
        subst hki
        refine ⟨by simpa using hi, fun j hj => ?_⟩
        simpa using hbefore j hj
      · rintro ⟨hragged, hbefore⟩
        refine ⟨by simpa using hragged, i, by simp, by simp, fun j hj => ?_⟩
        simpa using hbefore j hj
    unfold ofRows
    rw [dif_pos hpos]
    split
    next i hi =>
      constructor
      · intro h
        exact Or.inr ⟨i, i.isLt, hfirst.mp hi, (Except.error.inj h).symm⟩
      · rintro (⟨hzero, -⟩ | ⟨k, hk, hragged, rfl⟩)
        · omega
        · rw [(hfirst (i := ⟨k, hk⟩)).mpr hragged] at hi
          obtain rfl := Option.some.inj hi
          rfl
    next hnone =>
      constructor
      · intro h
        cases h
      · rintro (⟨hzero, -⟩ | ⟨k, hk, hragged, -⟩)
        · omega
        · rw [(hfirst (i := ⟨k, hk⟩)).mpr hragged] at hnone
          cases hnone
  · unfold ofRows
    rw [dif_neg hpos]
    constructor
    · intro h
      exact Or.inl ⟨by omega, (Except.error.inj h).symm⟩
    · rintro (⟨-, rfl⟩ | ⟨k, hk, -⟩)
      · rfl
      · omega

theorem toMatrix_toReadings {m : Matrix α} (h : 0 < m.rows) : m.toReadings.toMatrix = .ok m :=
  ofRows_toRows h

theorem row?_transpose (m : Matrix α) (i : Nat) : m.transpose.row? i = m.column? i := by
  unfold row? column?
  by_cases hi : i < m.columns
  · have hi' : i < m.transpose.rows := hi
    rw [dif_pos hi, Vector.getElem?_eq_getElem hi', Option.map_some]
    congr 1
    apply Array.ext
    · simp [transpose]
    · intro j hj hj'
      simp [transpose]
  · have hi' : m.transpose.rows ≤ i := Nat.le_of_not_lt hi
    rw [dif_neg hi, Vector.getElem?_eq_none hi', Option.map_none]

end Rows

theorem toRows_toList (m : Matrix α) :
    m.toRows.toList = (List.finRange m.rows).map fun i => (m.entries.get i).toArray := by
  apply List.ext_getElem
  · simp [toRows]
  · intro i hi hi'
    simp [toRows]
    rfl

/-- The entries of all rows, taken place by place. -/
theorem contents_eq_bind (m : Matrix α) :
    m.contents = (↑(List.finRange m.rows) : Multiset (Fin m.rows)).bind fun i =>
      (↑(List.finRange m.columns) : Multiset (Fin m.columns)).map fun j : Fin m.columns =>
        m.entry i j i.isLt j.isLt := by
  have hrow : ∀ i : Fin m.rows, (m.entries.get i).toArray.toList =
      (List.finRange m.columns).map fun j : Fin m.columns => m.entry i j i.isLt j.isLt := by
    intro i
    apply List.ext_getElem
    · simp
    · intro j hj hj'
      simp [entry]
      rfl
  unfold contents
  rw [toRows_toList, List.flatMap_map]
  simp only [Multiset.map_coe, Multiset.coe_bind, hrow]

theorem contents_transpose (m : Matrix α) : Matrix.contents m.transpose = m.contents := by
  have hentry : ∀ (i : Fin m.rows) (j : Fin m.columns),
      Matrix.entry m.transpose j i j.isLt i.isLt = m.entry i j i.isLt j.isLt := by
    intro i j
    simp [entry, transpose]
  rw [contents_eq_bind, contents_eq_bind m, Multiset.bind_map_comm]
  exact Multiset.bind_congr fun i _ => Multiset.map_congr rfl fun j _ => hentry i j

theorem contents_reverseRows (m : Matrix α) : Matrix.contents m.reverseRows = m.contents := by
  unfold contents
  rw [toRows_reverseRows, Array.toList_reverse, Multiset.coe_eq_coe]
  exact (List.reverse_perm _).flatMap_right _

theorem contents_reverseColumns (m : Matrix α) :
    Matrix.contents m.reverseColumns = m.contents := by
  unfold contents
  rw [toRows_reverseColumns, Array.toList_map, List.flatMap_map, Multiset.coe_eq_coe]
  refine List.Perm.flatMap_left _ fun row _ => ?_
  rw [Array.toList_reverse]
  exact List.reverse_perm _

/-- One step keeps the entries. -/
theorem Rearrangement.contents_apply (step : Rearrangement) (m : Matrix α) :
    (step.apply m).contents = m.contents := by
  cases step with
  | transpose => exact contents_transpose m
  | reverseRows => exact contents_reverseRows m
  | reverseColumns => exact contents_reverseColumns m

theorem contents_rearrange (m : Matrix α) (steps : List Rearrangement) :
    (m.rearrange steps).contents = m.contents := by
  induction steps generalizing m with
  | nil => rfl
  | cons step steps ih => exact (ih (step.apply m)).trans (step.contents_apply m)

theorem shape_rearrange (m : Matrix α) (steps : List Rearrangement) :
    (m.rearrange steps).shape = Prod.swap^[steps.count .transpose] m.shape := by
  induction steps generalizing m with
  | nil => rfl
  | cons step steps ih =>
    refine (ih (step.apply m)).trans ?_
    cases step with
    | transpose =>
      rw [List.count_cons_self, Function.iterate_succ_apply]
      rfl
    | reverseRows =>
      rw [List.count_cons_of_ne (by decide)]
      rfl
    | reverseColumns =>
      rw [List.count_cons_of_ne (by decide)]
      rfl

/-- Rows of one length are a matrix that gives the same rows back, also when they are first put one
after the other and then cut up again; any others are reported by the first row at fault. Of every
shape, a matrix is given back by transposing twice and by either reversal twice, the reversals can
be exchanged, and transposing makes one of the other. Along any sequence of these steps all entries
stay, and each transposing turns the shape round. -/
theorem rearranges_all_entries :
    (∀ rows : Array (Array α),
      ((∃ m, ofRows rows = .ok m) ↔ 0 < rows.size ∧ ∀ row ∈ rows, row.size = Rows.width rows) ∧
        (∀ fault, ofRows rows = .error fault ↔ rows.size = 0 ∧ fault = .noRows ∨
          ∃ i hi, FirstRagged rows i hi ∧ fault = .raggedRow rows[0].size i rows[i].size) ∧
        (∀ m, ofRows rows = .ok m → m.toRows = rows) ∧
        rawOfRows rows = Run.ended (ofRows rows)) ∧
      ∀ m : Matrix α,
        (0 < m.rows → m.toReadings.toMatrix = .ok m) ∧
          (m.transpose.transpose = m ∧ m.reverseRows.reverseRows = m ∧
            m.reverseColumns.reverseColumns = m) ∧
          m.reverseRows.reverseColumns = m.reverseColumns.reverseRows ∧
          m.reverseRows.transpose = m.transpose.reverseColumns ∧
          (∀ i, m.transpose.row? i = m.column? i) ∧
          (m.rawReverseRows = some m.reverseRows ∧ m.rawReverseColumns = some m.reverseColumns) ∧
          ∀ steps, (m.rearrange steps).contents = m.contents ∧
            (m.rearrange steps).shape = Prod.swap^[steps.count .transpose] m.shape := by
  refine ⟨fun rows => ⟨?_, fun fault => ofRows_eq_error_iff, fun m => toRows_of_ofRows,
    rawOfRows_eq rows⟩, fun m => ⟨toMatrix_toReadings, ?_, reverseColumns_reverseRows m,
      transpose_reverseRows m, row?_transpose m, ⟨rawReverseRows_eq m, rawReverseColumns_eq m⟩,
      fun steps => ⟨contents_rearrange m steps, shape_rearrange m steps⟩⟩⟩
  · rw [exists_ofRows_iff]
    exact ⟨fun h => ⟨h.size_pos, h.size_row⟩, fun h => ⟨h.1, h.2⟩⟩
  · exact ⟨transpose_transpose m, reverseRows_reverseRows m, reverseColumns_reverseColumns m⟩

end DesignChart.Matrix
