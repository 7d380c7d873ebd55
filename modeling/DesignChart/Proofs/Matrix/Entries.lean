import Mathlib
import DesignChart.Matrix

/-!
# Grids as written and the matrices read off them

A written grid is a list of rows. Its lines run along the first variable: they are its rows, or its
columns where dimension 1 is said to run along that variable. Rows of one length give a matrix, and
every rearrangement of a matrix is followed here entry by entry back to the rows as written.
-/

namespace DesignChart

namespace Rows

variable {α : Type}

/-- The number of columns, which is the length of the first row. -/
def width (rows : Array (Array α)) : Nat := (rows[0]?.map (·.size)).getD 0

/-- At least one row, and all of one length. -/
structure Rectangular (rows : Array (Array α)) : Prop where
  size_pos : 0 < rows.size
  size_row : ∀ row ∈ rows, row.size = width rows

/-- The numbers of lines and of entries in each, with `axis` running along the first variable. -/
def extent (axis : Option Nat) (rows : Array (Array α)) : Nat × Nat :=
  if axis = some 1 then (width rows, rows.size) else (rows.size, width rows)

/-- Entry `j` of line `i`. -/
def entry? (axis : Option Nat) (rows : Array (Array α)) (i j : Nat) : Option α :=
  if axis = some 1 then rows[j]?.bind (·[i]?) else rows[i]?.bind (·[j]?)

/-- Line `i`. -/
def line (axis : Option Nat) (rows : Array (Array α)) (i : Nat) : Array α :=
  if axis = some 1 then rows.filterMap (·[i]?) else rows[i]?.getD #[]

theorem getElem?_filterMap {β : Type} {f : β → Option α} {l : List β}
    (h : ∀ b ∈ l, (f b).isSome) (j : Nat) : (l.filterMap f)[j]? = l[j]?.bind f := by
  induction l generalizing j with
  | nil => rfl
  | cons b rest ih =>
    obtain ⟨a, ha⟩ := Option.isSome_iff_exists.mp (h b List.mem_cons_self)
    rw [List.filterMap_cons_some ha]
    cases j with
    | zero => simp [ha]
    | succ j => simpa using ih (fun c hc => h c (List.mem_cons_of_mem b hc)) j

/-- The entries of a line of a rectangular grid. -/
theorem getElem?_line {axis : Option Nat} {rows : Array (Array α)} (h : Rectangular rows)
    {i : Nat} (hi : i < (extent axis rows).1) (j : Nat) :
    (line axis rows i)[j]? = entry? axis rows i j := by
  unfold line entry?
  by_cases ha : axis = some 1
  · rw [if_pos ha, if_pos ha, ← Array.getElem?_toList, Array.toList_filterMap,
      getElem?_filterMap, Array.getElem?_toList]
    intro row hrow
    have hw := h.size_row row (Array.mem_toList_iff.mp hrow)
    rw [extent, if_pos ha] at hi
    simpa [hw] using hi
  · rw [if_neg ha, if_neg ha]
    rw [extent, if_neg ha] at hi
    simp [hi]

theorem size_line {axis : Option Nat} {rows : Array (Array α)} (h : Rectangular rows) {i : Nat}
    (hi : i < (extent axis rows).1) : (line axis rows i).size = (extent axis rows).2 := by
  unfold line
  unfold extent at *
  split
  next ha =>
    rw [if_pos ha] at hi
    show _ = rows.size
    rw [← Array.length_toList, Array.toList_filterMap, ← Array.length_toList,
      List.filterMap_length_eq_length]
    intro row hrow
    have hw := h.size_row row (Array.mem_toList_iff.mp hrow)
    simpa [hw] using hi
  next ha =>
    rw [if_neg ha] at hi
    have hw := h.size_row rows[i] (Array.getElem_mem hi)
    simpa [hi] using hw

end Rows

namespace Matrix

variable {α : Type}

theorem entry?_eq_some (m : Matrix α) {i j : Nat} (hi : i < m.rows) (hj : j < m.columns) :
    m.entry? i j = some (m.entry i j hi hj) := dif_pos ⟨hi, hj⟩

theorem entry?_eq_none (m : Matrix α) {i j : Nat} (h : ¬ (i < m.rows ∧ j < m.columns)) :
    m.entry? i j = none := dif_neg h

theorem entry?_transpose (m : Matrix α) (i j : Nat) : Matrix.entry? m.transpose i j = m.entry? j i := by
  by_cases h : i < m.columns ∧ j < m.rows
  · rw [entry?_eq_some m h.2 h.1, entry?_eq_some m.transpose h.1 h.2]
    simp [entry, transpose]
  · rw [entry?_eq_none m fun h' => h ⟨h'.2, h'.1⟩]
    exact entry?_eq_none m.transpose h

theorem entry?_reverseRows (m : Matrix α) {i : Nat} (hi : i < m.rows) (j : Nat) :
    Matrix.entry? m.reverseRows (m.rows - 1 - i) j = m.entry? i j := by
  have hr : m.rows - 1 - i < m.rows := by omega
  by_cases hj : j < m.columns
  · rw [entry?_eq_some m hi hj, entry?_eq_some m.reverseRows hr hj]
    simp only [entry, reverseRows, Vector.getElem_reverse]
    congr 3
    omega
  · rw [entry?_eq_none m fun h => hj h.2]
    exact entry?_eq_none m.reverseRows fun h => hj h.2

theorem entry?_reverseColumns (m : Matrix α) (i : Nat) {j : Nat} (hj : j < m.columns) :
    Matrix.entry? m.reverseColumns i (m.columns - 1 - j) = m.entry? i j := by
  have hr : m.columns - 1 - j < m.columns := by omega
  by_cases hi : i < m.rows
  · rw [entry?_eq_some m hi hj, entry?_eq_some m.reverseColumns hi hr]
    simp only [entry, reverseColumns, Vector.getElem_map, Vector.getElem_reverse]
    congr 2
    omega
  · rw [entry?_eq_none m fun h => hi h.1]
    exact entry?_eq_none m.reverseColumns fun h => hi h.1

theorem getElem?_row (m : Matrix α) (i : Fin m.rows) (j : Nat) :
    (m.row i)[j]? = m.entry? i j := by
  by_cases hj : j < m.columns
  · rw [entry?_eq_some m i.isLt hj]
    simp [row, entry, hj]
  · rw [entry?_eq_none m fun h => hj h.2]
    simp [row, hj]

theorem size_row (m : Matrix α) (i : Fin m.rows) : (m.row i).size = m.columns := by
  simp [row]

theorem width_eq {rows : Array (Array α)} (h : 0 < rows.size) : Rows.width rows = rows[0].size := by
  simp [Rows.width, h]

/-- Rows of one length are a matrix with the entries in their places. -/
theorem ofRows_spec {rows : Array (Array α)} {m : Matrix α} (h : ofRows rows = .ok m) :
    Rows.Rectangular rows ∧ m.rows = rows.size ∧ m.columns = Rows.width rows ∧
      ∀ i j, m.entry? i j = rows[i]?.bind (·[j]?) := by
  unfold ofRows at h
  split at h
  next hpos =>
    split at h
    next => cases h
    next hr =>
      obtain rfl := Except.ok.inj h
      have hsize : ∀ i (hi : i < rows.size), rows[i].size = rows[0].size := fun i hi => by
        simpa using List.find?_eq_none.mp hr ⟨i, hi⟩ (List.mem_finRange _)
      refine ⟨⟨hpos, ?_⟩, rfl, (width_eq hpos).symm, ?_⟩
      · intro row hrow
        obtain ⟨i, hi, rfl⟩ := Array.mem_iff_getElem.mp hrow
        rw [width_eq hpos, hsize i hi]
      · intro i j
        by_cases hi : i < rows.size
        · by_cases hj : j < rows[0].size
          · have hj' : j < rows[i].size := (hsize i hi).symm ▸ hj
            rw [entry?_eq_some _ hi hj]
            simp [entry, hi, hj']
          · have hj' : ¬ j < rows[i].size := (hsize i hi).symm ▸ hj
            rw [entry?_eq_none _ fun h => hj h.2]
            simp [hi, hj']
        · rw [entry?_eq_none _ fun h => hi h.1]
          simp [hi]
  next => cases h

theorem exists_ofRows_iff {rows : Array (Array α)} :
    (∃ m, ofRows rows = .ok m) ↔ Rows.Rectangular rows := by
  constructor
  · rintro ⟨m, h⟩
    exact (ofRows_spec h).1
  · rintro ⟨hpos, hrow⟩
    unfold ofRows
    rw [dif_pos hpos]
    split
    next i hr =>
      have hi := List.find?_some hr
      have hsize := hrow rows[i] (Array.getElem_mem i.isLt)
      rw [width_eq hpos] at hsize
      exact absurd hsize (by simpa using hi)
    next hr => exact ⟨_, rfl⟩

/-- Reading a grid by lines is reading its matrix by rows, once that is turned the same way. -/
theorem entry?_orient {rows : Array (Array α)} {m : Matrix α} (h : ofRows rows = .ok m)
    {axis : Option Nat} {o : Orientation} (ho : o = .transposed ↔ axis = some 1) (i j : Nat) :
    Matrix.entry? (m.orient o) i j = Rows.entry? axis rows i j := by
  have hm := (ofRows_spec h).2.2.2
  unfold Rows.entry?
  cases o with
  | asWritten =>
    rw [if_neg fun ha => Orientation.noConfusion (ho.mpr ha)]
    exact hm i j
  | transposed =>
    rw [if_pos (ho.mp rfl)]
    exact (entry?_transpose m i j).trans (hm j i)

theorem shape_orient {rows : Array (Array α)} {m : Matrix α} (h : ofRows rows = .ok m)
    {axis : Option Nat} {o : Orientation} (ho : o = .transposed ↔ axis = some 1) :
    (m.orient o).shape = Rows.extent axis rows := by
  obtain ⟨-, hr, hc, -⟩ := ofRows_spec h
  unfold Rows.extent
  cases o with
  | asWritten =>
    rw [if_neg fun ha => Orientation.noConfusion (ho.mpr ha), ← hr, ← hc]
    rfl
  | transposed =>
    rw [if_pos (ho.mp rfl), ← hr, ← hc]
    rfl

theorem row_orient {rows : Array (Array α)} {m : Matrix α} (h : ofRows rows = .ok m)
    {axis : Option Nat} {o : Orientation} (ho : o = .transposed ↔ axis = some 1)
    (i : Fin (m.orient o).rows) : (m.orient o).row i = Rows.line axis rows i := by
  have hi : i.val < (Rows.extent axis rows).1 := by
    rw [← shape_orient h ho]
    exact i.isLt
  apply Array.ext_getElem?
  intro j
  rw [getElem?_row, entry?_orient h ho, Rows.getElem?_line (ofRows_spec h).1 hi]

/-- The place of an index in a list of `n` entries that may be turned round. -/
def turned (n : Nat) (reversed : Bool) (i : Nat) : Nat := if reversed then n - 1 - i else i

theorem entry?_turn (m : Matrix α) (r c : Bool) {i j : Nat} (hi : i < m.rows)
    (hj : j < m.columns) :
    Matrix.entry? (m.turn r c) (turned m.rows r i) (turned m.columns c j) = m.entry? i j := by
  cases r with
  | false =>
    cases c with
    | false => rfl
    | true => exact entry?_reverseColumns m i hj
  | true =>
    cases c with
    | false => exact entry?_reverseRows m hi j
    | true =>
      have hc := entry?_reverseColumns m.reverseRows (m.rows - 1 - i) hj
      exact hc.trans (entry?_reverseRows m hi j)

end Matrix

end DesignChart
