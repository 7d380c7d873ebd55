import DesignChart.Matrix

/-!
Readings: the numbers of one argument as they are supplied.

They come as a flat sequence, or as the rows of a grid. Rows are kept as given; whether they make
a grid is found out by `toMatrix`.
-/

namespace DesignChart

/-- The numbers given for one argument. -/
inductive Readings (α : Type)
  | vector (values : Array α)
  | grid (rows : Array (Array α))
deriving BEq, DecidableEq

namespace Readings

variable {α β : Type}

/-- The number that `read` takes from a reading, which must stand for one. -/
def convert (read : β → Option α) (reading : β) : Except (Error α) α :=
  match read reading with
  | some v => .ok v
  | none => .error (.conversion "not representable as Real")

/-- A flat sequence of readings of any kind. -/
def vectorOf (read : β → Option α) (values : Array β) : Except (Error α) (Readings α) :=
  vector <$> values.mapM (convert read)

/-- Rows of readings of any kind. -/
def gridOf (read : β → Option α) (rows : Array (Array β)) : Except (Error α) (Readings α) :=
  grid <$> rows.mapM (·.mapM (convert read))

def isGrid : Readings α → Bool
  | vector _ => false
  | grid _ => true

/-- The number of dimensions. -/
def dimension : Readings α → Nat
  | vector _ => 1
  | grid _ => 2

/-- The length of a vector; the numbers of rows, and of columns of the first row, of a grid. -/
def shape : Readings α → List Nat
  | vector values => [values.size]
  | grid rows => [rows.size, (rows[0]?.map (·.size)).getD 0]

/-- The number of readings. -/
def size : Readings α → Nat
  | vector values => values.size
  | grid rows => rows.foldl (fun count row => count + row.size) 0

def toVector : Readings α → Except (Fault α) (Array α)
  | vector values => .ok values
  | grid rows => .error (.notVector (grid rows).shape)

def toMatrix : Readings α → Except (Fault α) (Matrix α)
  | vector values => .error (.notGrid values.size)
  | grid rows => Matrix.ofRows rows

end Readings

/-- The rows of a matrix, as readings. -/
def Matrix.toReadings {α : Type} (m : Matrix α) : Readings α := .grid m.toRows

end DesignChart
