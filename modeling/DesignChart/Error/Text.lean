import DesignChart.Decimal.Notation
import DesignChart.Error

/-!
The wording of errors.

Lists of whole numbers are written in brackets and pairs in parentheses; numbers of a table are
written plainly, except in a list of samples, where whole numbers keep a point.
-/

namespace DesignChart

/-- A list of texts between brackets. -/
def bracketed (items : List String) : String := "[" ++ ", ".intercalate items ++ "]"

/-- The shape of readings of any dimension. -/
def shapeText (shape : List Nat) : String := bracketed (shape.map toString)

/-- The shape of a grid. -/
def pairText (shape : Nat × Nat) : String := s!"({shape.1}, {shape.2})"

/-- A number in running text. -/
def plainText (v : Float) : String := Decimal.Notation.plain.floatText v

/-- The samples of an axis. -/
def samplesText (samples : Array Float) : String :=
  bracketed (samples.toList.map Decimal.Notation.pointedOrScientific.floatText)

/-- A pair of numbers along the rows and columns of a grid, for the grid as it is written. -/
def Orientation.written (orientation : Orientation) (shape : Nat × Nat) : Nat × Nat :=
  match orientation with
  | .asWritten => shape
  | .transposed => shape.swap

/-- What is wrong, and what was expected. -/
def Fault.message : Fault Float → String
  | .tooFewSamples count => s!"need at least 2 samples along an axis, got {count}"
  | .sampleNotFinite sample => "axis sample " ++ plainText sample ++ " is not finite"
  | .samplesNotMonotonic samples =>
    "axis samples must be strictly monotonic without duplicates, got " ++ samplesText samples
  | .valueCount expected got => s!"expected {expected} values to match the axis, got {got}"
  | .unpaired partner expected got =>
    s!"expected {expected} values to pair with `{partner}`, got {got}"
  | .noRows => "2-D array has no rows"
  | .raggedRow columns row got =>
    s!"ragged 2-D array: row 0 has {columns} columns but row {row} has {got}"
  | .gridShape (rows, columns) (gotRows, gotColumns) =>
    s!"expected a {rows}×{columns} grid, got {gotRows}×{gotColumns}"
  | .notVector shape => "expected a 1-D array, got shape " ++ shapeText shape
  | .notGrid count => "expected a 2-D array, got shape " ++ shapeText [count]
  | .gridForCurve shape =>
    "1-D interpolation (no `z`) takes 1-D `x` and `y`, got shape " ++ shapeText shape
  | .noSuchAxisOfCurve axis =>
    s!"axis {axis} does not exist for 1-D interpolation (only 0 is accepted)"
  | .noSuchAxisOfGrid axis argument =>
    s!"axis {axis} does not exist for a 2-D `{argument.name}` (expected 0 or 1)"
  | .gridMissing =>
    "a 2-D argument is required: with `z` given, exactly one of x, y, z must be 2-D"
  | .severalGrids arguments =>
    "exactly one of x, y, z may be 2-D, got " ++ ", ".intercalate (arguments.map Argument.name)
  | .gridMismatch shape rowArgument columnArgument (rows, columns) orientation =>
    "shape " ++ pairText shape ++
      s!" does not match `{rowArgument.name}` ({rows}) × `{columnArgument.name}` ({columns})" ++
      s!" with axis {orientation.axis}; expected " ++ pairText (orientation.written (rows, columns))
  | .inRow row fault => s!"row {row}: " ++ fault.message
  | .other text => text

/-- The text of an error. -/
def Error.message : Error Float → String
  | .shape argument fault => s!"shape error in `{argument}`: " ++ fault.message
  | .keyMismatch keys =>
    "mappings must have the same keys (symmetric difference: " ++
      bracketed (keys.map Key.text) ++ ")"
  | .outOfDomain coordinate value range =>
    coordinate ++ " = " ++ plainText value ++ " is outside the interpolation domain " ++
      bracketed [plainText range.lower, plainText range.upper]
  | .keyBuild key cause =>
    "failed to build interpolant for key " ++ key.text ++ ": " ++ cause.message
  | .unknownKey key => "unknown key " ++ key.text
  | .duplicateKey key => "duplicate key " ++ key.text
  | .arity expected got => s!"interpolant takes {expected} coordinate(s), got {got}"
  | .conversion text => "cannot convert table value: " ++ text

end DesignChart
