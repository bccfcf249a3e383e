import Acceptance.Browser.Gateway

/-! # Browser commands

The commands for clicking and filling, each with its fallbacks, and the texts in them.
-/

namespace Acceptance

/-- The time limits of commands, in milliseconds. -/
structure Timeouts where
  navigate : Int := 10000
  action : Int := 5000
  read : Int := 10000
  screenshot : Int := 10000
  deriving DecidableEq

namespace Timeouts

def standard : Timeouts := {}

/-- The same limit for all commands. -/
def uniform (timeout : Int) : Timeouts :=
  { navigate := timeout, action := timeout, read := timeout, screenshot := timeout }

end Timeouts

/-- A command that may do what is wanted. -/
structure Attempt where
  args : List Text
  timeout : Int
  deriving DecidableEq

namespace Attempt

/-! ## Selectors -/

/-- A code point inside the quotes of a selector. -/
def escaped (c : CodePoint) : Text := if c = '\\' || c = '"' then ['\\', c] else [c]

/-- A text inside the quotes of a selector. -/
def selectorText (t : Text) : Text := t.flatMap escaped

/-- The inputs and text areas whose name holds the field. -/
def fieldSelector (field : Text) : Text :=
  "input[name*=\"" ++ selectorText field ++ "\"], textarea[name*=\"" ++ selectorText field ++ "\"]"

/-! ## Attempts -/

/-- Pressing a button by its name. -/
def press (name : Text) : List Text := ["find", "role", "button", "click", "--name", name]

/-- The ways to click an element: as a button, by its text, and by a text selector. -/
def clicks (timeouts : Timeouts) (target : Text) : List Attempt :=
  [{ args := press target, timeout := timeouts.action },
    { args := ["find", "text", target, "click"], timeout := timeouts.action },
    { args := ["click", "text=" ++ target], timeout := timeouts.action }]

/-- The ways to fill a field: by its placeholder, and by its name. -/
def fills (timeouts : Timeouts) (field value : Text) : List Attempt :=
  [{ args := ["find", "placeholder", field, "fill", value], timeout := timeouts.action },
    { args := ["fill", fieldSelector field, value], timeout := timeouts.action }]

end Attempt

end Acceptance
