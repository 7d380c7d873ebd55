/-!
The parts a chart is given in.

A chart is tabulated by up to three arguments: `x` and `y`, and `z` where there are two
independent variables. One of them may be a grid, and a grid may be written either way round.
-/

namespace DesignChart

/-- The arguments a chart is built from. -/
inductive Argument
  | x
  | y
  | z
deriving DecidableEq, Repr

def Argument.name : Argument → String
  | .x => "x"
  | .y => "y"
  | .z => "z"

/-- The variables a chart is read at. -/
inductive Coordinate
  | x
  | y
deriving DecidableEq, Repr

namespace Coordinate

/-- The argument that tabulates a coordinate. -/
def argument : Coordinate → Argument
  | .x => .x
  | .y => .y

def name (c : Coordinate) : String := c.argument.name

/-- The other of the two coordinates. -/
def other : Coordinate → Coordinate
  | .x => .y
  | .y => .x

end Coordinate

/-- How a grid is written: with the first variable along its rows, or the other way round. -/
inductive Orientation
  | asWritten
  | transposed
deriving DecidableEq, Repr

namespace Orientation

/-- The dimension of the grid that runs along the first variable. -/
def axis : Orientation → Nat
  | .asWritten => 0
  | .transposed => 1

/-- A grid has only the dimensions 0 and 1. -/
def ofAxis? : Nat → Option Orientation
  | 0 => some .asWritten
  | 1 => some .transposed
  | _ => none

end Orientation

/-- Where the grid of a chart comes from: the argument it was given for, and how it is written. -/
structure GridSource where
  argument : Argument
  orientation : Orientation
deriving DecidableEq, Repr

end DesignChart
