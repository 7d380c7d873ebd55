import Mathlib
import DesignChart.Proofs.Axis.Direction
import DesignChart.Proofs.Matrix.Entries

/-!
# Rearranged matrices

Reading a matrix off its own rows gives it back. The two reversals undo themselves and can be
exchanged, and transposing undoes itself and exchanges one reversal for the other. A written grid
with its lines in another order is hence the matrix with its rows in that order, whichever way round
it is written.
-/

namespace DesignChart

namespace Rows

variable {α : Type}

/-- The rows in opposite order, or each of them from right to left, or both. -/
def flip (rows columns : Bool) (written : Array (Array α)) : Array (Array α) :=
  reverseIf rows (written.map (reverseIf columns))

/-- The grid with its lines in opposite order, or each line in opposite order, or both. The lines
run along the first variable, `axis` being its dimension. -/
def turn (axis : Option Nat) (lines along : Bool) (written : Array (Array α)) :
    Array (Array α) :=
  if axis = some 1 then flip along lines written else flip lines along written

/-- The columns of the grid as rows: what it is when it is written the other way round. -/
def columns (written : Array (Array α)) : Array (Array α) :=
  (Array.range (width written)).map (line (some 1) written)

theorem flip_flip (rows columns : Bool) (written : Array (Array α)) :
    flip rows columns (flip rows columns written) = written := by
  unfold flip
  rw [map_reverseIf, reverseIf_self, Array.map_map]
  simp [Function.comp_def]

theorem turn_turn (axis : Option Nat) (lines along : Bool) (written : Array (Array α)) :
    turn axis lines along (turn axis lines along written) = written := by
  unfold turn
  split
  · exact flip_flip along lines written
  · exact flip_flip lines along written

-- The lines are the columns here, so that each row changes.
example : turn (some 1) true false #[#[1, 2], #[3, 4]] = #[#[2, 1], #[4, 3]] := by cbv

end Rows

namespace Matrix

variable {α : Type}

theorem ext_entry? {m n : Matrix α} (hrows : m.rows = n.rows) (hcolumns : m.columns = n.columns)
    (hentry : ∀ i j, m.entry? i j = n.entry? i j) : m = n := by
  obtain ⟨rows, columns, entries⟩ := m
  obtain ⟨rows', columns', entries'⟩ := n
  obtain rfl : rows = rows' := hrows
  obtain rfl : columns = columns' := hcolumns
  congr 1
  ext i hi j hj
  have h := hentry i j
  rw [entry?_eq_some _ hi hj, entry?_eq_some _ hi hj] at h
  exact Option.some.inj h

theorem entry?_eq_toRows (m : Matrix α) (i j : Nat) : m.entry? i j = m.toRows[i]?.bind (·[j]?) := by
  by_cases hi : i < m.rows
  · by_cases hj : j < m.columns
    · rw [entry?_eq_some m hi hj]
      simp [toRows, entry, hi, hj]
    · rw [entry?_eq_none m fun h => hj h.2]
      simp [toRows, hi, hj]
  · rw [entry?_eq_none m fun h => hi h.1]
    simp [toRows, hi]

@[simp]
theorem size_toRows (m : Matrix α) : m.toRows.size = m.rows := by
  simp [toRows]

theorem width_toRows {m : Matrix α} (h : 0 < m.rows) : Rows.width m.toRows = m.columns := by
  simp [Rows.width, toRows, h]

theorem rectangular_toRows {m : Matrix α} (h : 0 < m.rows) : Rows.Rectangular m.toRows := by
  refine ⟨by rwa [size_toRows], fun row hrow => ?_⟩
  obtain ⟨entries, -, rfl⟩ := Array.mem_map.mp hrow
  rw [width_toRows h, Vector.size_toArray]

theorem ofRows_toRows {m : Matrix α} (h : 0 < m.rows) : ofRows m.toRows = .ok m := by
  obtain ⟨n, hn⟩ := exists_ofRows_iff.mpr (rectangular_toRows h)
  obtain ⟨-, hrows, hcolumns, hentry⟩ := ofRows_spec hn
  rw [size_toRows] at hrows
  rw [width_toRows h] at hcolumns
  have heq : n = m := ext_entry? hrows hcolumns fun i j => by rw [hentry, entry?_eq_toRows]
  rw [hn, heq]

theorem toRows_of_ofRows {rows : Array (Array α)} {m : Matrix α} (h : ofRows rows = .ok m) :
    m.toRows = rows := by
  unfold ofRows at h
  split at h
  next hpos =>
    split at h
    next => cases h
    next hr =>
      obtain rfl := Except.ok.inj h
      apply Array.ext
      · simp [toRows]
      · intro i hi hi'
        simp [toRows]
  next => cases h

theorem ofRows_eq_ok_iff {rows : Array (Array α)} {m : Matrix α} :
    ofRows rows = .ok m ↔ 0 < m.rows ∧ m.toRows = rows := by
  constructor
  · intro h
    obtain ⟨hrect, hrows, -⟩ := ofRows_spec h
    exact ⟨hrows ▸ hrect.size_pos, toRows_of_ofRows h⟩
  · rintro ⟨hpos, rfl⟩
    exact ofRows_toRows hpos

@[simp]
theorem toRows_reverseRows (m : Matrix α) : m.reverseRows.toRows = m.toRows.reverse := by
  simp [toRows, reverseRows]

@[simp]
theorem toRows_reverseColumns (m : Matrix α) :
    m.reverseColumns.toRows = m.toRows.map Array.reverse := by
  simp [toRows, reverseColumns, Function.comp_def]

@[simp]
theorem reverseRows_reverseRows (m : Matrix α) : m.reverseRows.reverseRows = m := by
  simp [reverseRows]

@[simp]
theorem reverseColumns_reverseColumns (m : Matrix α) : m.reverseColumns.reverseColumns = m := by
  simp [reverseColumns, Function.comp_def]

theorem reverseColumns_reverseRows (m : Matrix α) :
    m.reverseRows.reverseColumns = m.reverseColumns.reverseRows := by
  simp [reverseRows, reverseColumns]

@[simp]
theorem transpose_transpose (m : Matrix α) : m.transpose.transpose = m := by
  refine ext_entry? rfl rfl fun i j => ?_
  rw [entry?_transpose, entry?_transpose]

theorem transpose_reverseRows (m : Matrix α) :
    m.reverseRows.transpose = m.transpose.reverseColumns := by
  refine ext_entry? rfl rfl fun i j => ?_
  by_cases hj : j < m.rows
  · -- counted from the other end, a column of the transpose is a row
    obtain ⟨k, hk, rfl⟩ : ∃ k, k < m.rows ∧ j = m.rows - 1 - k :=
      ⟨m.rows - 1 - j, by omega, by omega⟩
    have hrow := entry?_reverseRows m hk i
    have hcolumn := entry?_reverseColumns m.transpose i hk
    rw [entry?_transpose, hrow]
    exact (entry?_transpose m i k).symm.trans hcolumn.symm
  · rw [entry?_transpose, entry?_eq_none m.reverseRows fun h => hj h.1,
      entry?_eq_none m.transpose.reverseColumns fun h => hj h.2]

theorem transpose_reverseColumns (m : Matrix α) :
    m.reverseColumns.transpose = m.transpose.reverseRows := by
  have h := transpose_reverseRows m.transpose
  rw [transpose_transpose] at h
  rw [← h, transpose_transpose]

theorem transpose_turn (m : Matrix α) (a b : Bool) :
    (m.turn a b).transpose = m.transpose.turn b a := by
  cases a <;> cases b <;>
    simp [turn, transpose_reverseRows, transpose_reverseColumns, reverseColumns_reverseRows]

theorem turn_turn (m : Matrix α) (a b c d : Bool) :
    (m.turn a b).turn c d = m.turn (a ^^ c) (b ^^ d) := by
  cases a <;> cases b <;> cases c <;> cases d <;> simp [turn, reverseColumns_reverseRows]

theorem toRows_turn (m : Matrix α) (a b : Bool) : (m.turn a b).toRows = Rows.flip a b m.toRows := by
  have hid : m.toRows.map (reverseIf false) = m.toRows := Array.map_id _
  have hreverse : m.toRows.map (reverseIf true) = m.toRows.map Array.reverse := rfl
  unfold Rows.flip turn
  cases b with
  | false =>
    rw [hid]
    cases a with
    | false => rfl
    | true => exact toRows_reverseRows m
  | true =>
    rw [hreverse]
    cases a with
    | false => exact toRows_reverseColumns m
    | true =>
      change m.reverseRows.reverseColumns.toRows = (m.toRows.map Array.reverse).reverse
      rw [reverseColumns_reverseRows, toRows_reverseRows, toRows_reverseColumns]

theorem ofRows_flip {rows : Array (Array α)} {m : Matrix α} (h : ofRows rows = .ok m)
    (a b : Bool) : ofRows (Rows.flip a b rows) = .ok (m.turn a b) := by
  obtain ⟨hpos, rfl⟩ := ofRows_eq_ok_iff.mp h
  rw [ofRows_eq_ok_iff, toRows_turn, rows_turn]
  exact ⟨hpos, rfl⟩

/-- Lines supplied in another order are rows in that order, once the matrix is turned. -/
theorem exists_ofRows_turn {rows : Array (Array α)} {m : Matrix α} (h : ofRows rows = .ok m)
    {axis : Option Nat} {o : Orientation} (ho : o = .transposed ↔ axis = some 1) (a b : Bool) :
    ∃ n, ofRows (Rows.turn axis a b rows) = .ok n ∧ n.orient o = (m.orient o).turn a b := by
  unfold Rows.turn
  cases o with
  | asWritten =>
    rw [if_neg fun ha => Orientation.noConfusion (ho.mpr ha)]
    exact ⟨m.turn a b, ofRows_flip h a b, rfl⟩
  | transposed =>
    rw [if_pos (ho.mp rfl)]
    exact ⟨m.turn b a, ofRows_flip h b a, transpose_turn m b a⟩

theorem getElem?_toRows (m : Matrix α) (i : Fin m.rows) : m.toRows[i.val]? = some (m.row i) := by
  simp [toRows, row]

/-- Transposing makes the columns of the written grid the rows. -/
theorem toRows_transpose {rows : Array (Array α)} {m : Matrix α} (h : ofRows rows = .ok m) :
    m.transpose.toRows = Rows.columns rows := by
  obtain ⟨-, -, hwidth, -⟩ := ofRows_spec h
  have hto : Orientation.transposed = .transposed ↔ some 1 = some 1 := by simp
  unfold Rows.columns
  rw [← hwidth]
  apply Array.ext_getElem?
  intro j
  by_cases hj : j < m.columns
  · have hrow := getElem?_toRows m.transpose ⟨j, hj⟩
    have hline := row_orient h hto ⟨j, hj⟩
    dsimp only [orient] at hrow hline
    rw [hrow, hline, Array.getElem?_map, Array.getElem?_range, if_pos hj]
    rfl
  · have hsize : m.transpose.toRows.size = m.columns := size_toRows m.transpose
    rw [Array.getElem?_eq_none (by omega), Array.getElem?_eq_none (by simpa using hj)]

/-- A row is found in its turned place. -/
theorem row_turn (m : Matrix α) (a b : Bool) {i : Fin m.rows} {j : Fin (m.turn a b).rows}
    (hj : j.val = turned m.rows a i) : (m.turn a b).row j = reverseIf b (m.row i) := by
  have hrow := getElem?_toRows (m.turn a b) j
  have hkept : (m.toRows.map (reverseIf b))[i.val]? = some (reverseIf b (m.row i)) := by
    rw [Array.getElem?_map, getElem?_toRows]
    rfl
  rw [toRows_turn, Rows.flip, hj] at hrow
  apply Option.some.inj
  rw [← hrow, ← hkept]
  cases a with
  | false => rfl
  | true =>
    have hsize : (m.toRows.map (reverseIf b)).size = m.rows := by simp
    change (m.toRows.map (reverseIf b)).reverse[m.rows - 1 - i.val]? = _
    rw [Array.getElem?_reverse (by omega), hsize]
    congr 1
    omega

end Matrix

end DesignChart
