import DesignChart.Argument
import DesignChart.Interval
import DesignChart.Key

/-!
What can go wrong, by cause.

A `Fault` says what is wrong with the data of one argument; an `Error` is what a caller gets, and
names the argument where there is one to blame. The wording is kept apart, in `Error.Text`.
-/

namespace DesignChart

/-- What is wrong with the numbers given for one argument. -/
inductive Fault (α : Type)
  /-- An axis needs two samples. -/
  | tooFewSamples (count : Nat)
  /-- A sample of an axis is infinite or no number. -/
  | sampleNotFinite (sample : α)
  /-- The samples of an axis neither increase nor decrease throughout. -/
  | samplesNotMonotonic (samples : Array α)
  /-- A curve has not one value for each sample of its axis. -/
  | valueCount (expected got : Nat)
  /-- Values do not pair off with the samples of the argument `partner`. -/
  | unpaired (partner : String) (expected got : Nat)
  /-- A grid without rows. -/
  | noRows
  /-- Row `row` has not as many entries as the first. -/
  | raggedRow (columns row got : Nat)
  /-- A value grid of the wrong shape for its axes. -/
  | gridShape (expected got : Nat × Nat)
  /-- A grid where a vector is due. -/
  | notVector (shape : List Nat)
  /-- A vector where a grid is due. -/
  | notGrid (count : Nat)
  /-- A grid given for one of the two vectors of a curve. -/
  | gridForCurve (shape : List Nat)
  /-- A curve has the dimension 0 only. -/
  | noSuchAxisOfCurve (axis : Nat)
  /-- The grid given for `argument` has the dimensions 0 and 1 only. -/
  | noSuchAxisOfGrid (axis : Nat) (argument : Argument)
  /-- None of three arguments is a grid. -/
  | gridMissing
  /-- More than one of three arguments is a grid. -/
  | severalGrids (arguments : List Argument)
  /-- A grid does not fit the arguments along its rows and columns. -/
  | gridMismatch (shape : Nat × Nat) (rowArgument columnArgument : Argument)
      (expected : Nat × Nat) (orientation : Orientation)
  /-- A fault of one row of a grid. -/
  | inRow (row : Nat) (fault : Fault α)
  /-- A fault found outside this library, in the words of who found it. -/
  | other (text : String)

/-- Why there is no chart, or no answer. -/
inductive Error (α : Type)
  /-- The numbers given for an argument admit no chart. -/
  | shape (argument : String) (fault : Fault α)
  /-- Keyed inputs disagree on their keys; these are the keys that some of them lack. -/
  | keyMismatch (keys : List Key)
  /-- A coordinate outside the range a chart covers. -/
  | outOfDomain (coordinate : String) (value : α) (range : Interval α)
  /-- The chart of one key could not be built. -/
  | keyBuild (key : Key) (cause : Error α)
  | unknownKey (key : Key)
  | duplicateKey (key : Key)
  /-- A chart read at the wrong number of coordinates. -/
  | arity (expected got : Nat)
  /-- A reading that stands for no number. -/
  | conversion (text : String)

namespace Error

variable {α β : Type}

/-- The error below all keys it was met under. -/
def rootCause : Error α → Error α
  | keyBuild _ cause => cause.rootCause
  | error => error

def isShape (error : Error α) : Bool :=
  match error.rootCause with
  | shape .. => true
  | _ => false

def isKeyMismatch (error : Error α) : Bool :=
  match error.rootCause with
  | keyMismatch _ => true
  | _ => false

def isOutOfDomain (error : Error α) : Bool :=
  match error.rootCause with
  | outOfDomain .. => true
  | _ => false

/-- Says of a fault in which row of a grid it was met. -/
def inRow (row : Nat) : Error α → Error α
  | shape argument fault => shape argument (.inRow row fault)
  | error => error

end Error

/-- Blames the argument called `argument` for a fault. -/
def blame {α β : Type} (argument : String) : Except (Fault α) β → Except (Error α) β :=
  Except.mapError (.shape argument)

end DesignChart
