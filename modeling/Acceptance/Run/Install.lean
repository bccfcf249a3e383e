import Acceptance.Browser.Gateway

/-! # Installing the browser

The browser program is installed once if it is missing.
-/

namespace Acceptance

namespace Install

/-- The time limit of an installation command. -/
def timeout : Int := 300000

/-- The commands that install the program and what it needs. -/
def commands (binary : Text) : List (List Text) :=
  [["npm", "install", "-g", "agent-browser"], [binary, "install"]]

/-- Runs commands until one fails. Says whether all succeeded. -/
def runAll : List (List Text) → Task Bool
  | [] => pure true
  | argv :: rest => do
    let result ← ChildProcess.run argv true timeout []
    if result.success then runAll rest else pure false

/-- Is the browser there, at last? -/
def ensure (g : Gateway) : Task Bool := do
  if ← g.isInstalled then pure true
  else if ← runAll (commands g.binary) then g.isInstalled
  else pure false

end Install

end Acceptance
