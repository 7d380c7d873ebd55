import DesignChart.Json.Library
import DesignChart.Options

/-!
Settings stored as JSON.

Settings are a structure with the fields `axis` and `bounds`, of which those left out take their
defaults. The policy is an enumeration that is told by the member `policy`, with the number to fill
in as the member `value`. All else is up to the library that reads and writes them.
-/

namespace DesignChart

open Json (Coding Enumeration Library Record)

/-- A policy as it is declared. -/
def RangePolicy.declaration : Enumeration (RangePolicy Float) where
  tag := "policy"
  content := "value"
  variants := [
    .unit "raise" raise boundsError,
    .double "fill" fill fillValue?,
    .unit "clamp" clamp fun policy => !policy.boundsError && policy.fillValue?.isNone]

/-- How a library stores policies. -/
def RangePolicy.coding (library : Library) : Coding (RangePolicy Float) :=
  library.enumeration declaration

namespace Options

/-- Settings as they are declared. -/
def declaration (library : Library) : Record (Options Float) where
  fields := [
    .of "axis" (library.option library.natural) axis fun axis options => { options with axis },
    .of "bounds" (RangePolicy.coding library) bounds fun bounds options =>
      { options with bounds }]
  default := {}

/-- How a library stores settings. -/
def coding (library : Library) : Coding (Options Float) := library.record (declaration library)

/-- The settings that a text stands for. -/
def parse? (library : Library) (text : String) : Option (Options Float) :=
  (library.parse? text).bind (coding library).read?

/-- Settings as a text. -/
def render (library : Library) (options : Options Float) : String :=
  library.render ((coding library).write options)

end Options

end DesignChart
