import DesignChart.Error

/-!
Grids of numbers with rows of one length.

A grid read off a page is a list of rows that may be ragged or missing; a `Matrix` is what remains
once that is ruled out. Transposing and reversing rearrange the entries and keep each of them.
A matrix without rows still has a number of columns, which transposing turns into rows.

A matrix stands for a `DMatrix` of nalgebra, of which the following is taken for granted as it is
documented. `from_row_slice` takes entry `(i, j)` from place `i * columns + j` of its data, and
panics unless there are `rows * columns` of them, where `ofRowMajor?` has nothing. `from_fn f` has
the shape it is given and entry `f i j` at `(i, j)`, which is how the two reversals are made.
`transpose` has entry `(i, j)` at `(j, i)`. `row i` and `column j` list the entries of that row from
left to right and of that column from top to bottom, and panic where there is none, where `row?` and
`column?` have nothing. Matrices are equal if their shapes and all their entries are.
-/

namespace DesignChart

/-- A grid of `rows` rows with `columns` entries each. -/
structure Matrix (α : Type) where
  rows : Nat
  columns : Nat
  entries : Vector (Vector α columns) rows

namespace Matrix

variable {α : Type}

/-- The matrix with the given rows. There must be one, and the others must be as long. -/
def ofRows (rows : Array (Array α)) : Except (Fault α) (Matrix α) :=
  if h : 0 < rows.size then
    match hr : (List.finRange rows.size).find? (fun i => rows[i].size ≠ rows[0].size) with
    | some i => .error (.raggedRow rows[0].size i rows[i].size)
    | none =>
      .ok ⟨rows.size, rows[0].size, .ofFn fun i =>
        ⟨rows[i], by simpa using List.find?_eq_none.1 hr i (List.mem_finRange i)⟩⟩
  else
    .error .noRows

theorem index_lt {rows columns i j : Nat} (hi : i < rows) (hj : j < columns) :
    i * columns + j < rows * columns :=
  calc
    i * columns + j < i * columns + columns := Nat.add_lt_add_left hj _
    _ = (i + 1) * columns := (Nat.succ_mul i columns).symm
    _ ≤ rows * columns := Nat.mul_le_mul_right columns hi

/-- The matrix whose rows, one after the other, are `data`, if there are that many numbers. -/
def ofRowMajor? (rows columns : Nat) (data : Array α) : Option (Matrix α) :=
  if h : data.size = rows * columns then
    some ⟨rows, columns, .ofFn fun i => .ofFn fun j =>
      have := h ▸ index_lt i.isLt j.isLt
      data[i.val * columns + j.val]⟩
  else
    none

/-- The numbers of rows and of columns. -/
def shape (m : Matrix α) : Nat × Nat := (m.rows, m.columns)

/-- The entry in row `i` and column `j`. -/
def entry (m : Matrix α) (i j : Nat) (hi : i < m.rows) (hj : j < m.columns) : α := m.entries[i][j]

def entry? (m : Matrix α) (i j : Nat) : Option α :=
  if h : i < m.rows ∧ j < m.columns then some (m.entry i j h.1 h.2) else none

/-- The entries of row `i`. -/
def row (m : Matrix α) (i : Fin m.rows) : Array α := m.entries[i].toArray

def row? (m : Matrix α) (i : Nat) : Option (Array α) := m.entries[i]?.map (·.toArray)

def column? (m : Matrix α) (j : Nat) : Option (Array α) :=
  if h : j < m.columns then some (m.entries.map (·[j])).toArray else none

/-- All rows, from top to bottom. -/
def toRows (m : Matrix α) : Array (Array α) := m.entries.toArray.map (·.toArray)

/-- Rows become columns. -/
def transpose (m : Matrix α) : Matrix α where
  rows := m.columns
  columns := m.rows
  entries := .ofFn fun j => .ofFn fun i => m.entries[i][j]

/-- The rows from bottom to top. -/
def reverseRows (m : Matrix α) : Matrix α := { m with entries := m.entries.reverse }

/-- Each row from right to left. -/
def reverseColumns (m : Matrix α) : Matrix α := { m with entries := m.entries.map (·.reverse) }

/-- A grid with its first variable along the rows. -/
def orient (m : Matrix α) : Orientation → Matrix α
  | .asWritten => m
  | .transposed => m.transpose

/-- The matrix with the order of its rows, or of its columns, or of both, turned round. -/
def turn (m : Matrix α) (turnRows turnColumns : Bool) : Matrix α :=
  let m := if turnRows then m.reverseRows else m
  if turnColumns then m.reverseColumns else m

@[simp]
theorem rows_turn (m : Matrix α) (r c : Bool) : (m.turn r c).rows = m.rows := by
  cases r <;> cases c <;> rfl

@[simp]
theorem columns_turn (m : Matrix α) (r c : Bool) : (m.turn r c).columns = m.columns := by
  cases r <;> cases c <;> rfl

instance [BEq α] : BEq (Matrix α) where
  beq m n := m.columns == n.columns && m.toRows == n.toRows

end Matrix

end DesignChart
