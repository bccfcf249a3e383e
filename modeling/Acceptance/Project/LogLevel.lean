import Acceptance.Project.Settings

/-! # Log levels

How much is logged: a number, given by a name in any case.
-/

namespace Acceptance

namespace LogLevel

/-- The names and their numbers. -/
def names : List (Text × Nat) :=
  [("CRITICAL", 50), ("FATAL", 50), ("ERROR", 40), ("WARN", 30), ("WARNING", 30), ("INFO", 20),
    ("DEBUG", 10), ("NOTSET", 0)]

/-- The level when none is set. -/
def standard : Text := "WARNING"

/-- The capital of a letter, as far as names need it: the dotless i and the long s have one, too. -/
def capital (c : CodePoint) : CodePoint :=
  if 0x61 ≤ c.val && c.val ≤ 0x7A then CodePoint.ofNatD (c.val - 32) c
  else if c.val = 0x131 then 'I'
  else if c.val = 0x17F then 'S'
  else c

/-- The number of a name. -/
def ofName (name : Text) : Except Fault Nat :=
  match names.find? fun n => n.1 = name.map capital with
  | some (_, level) => .ok level
  | none => .error (.invalid (.logLevel name))

/-- The level in the settings; settings that cannot be read count as none. -/
def configured : Task Text := do
  match ← Task.attempt (Settings.text ["logging", "level"] standard) with
  | .ok name => pure name
  | .error (.invalid _) => pure standard
  | .error fault => Task.fail fault

/-- The level: the given one, or that of the environment, or that of the settings. -/
def resolve (given : Option Text) : Task Nat := do
  let name ← match given.filter (!·.isEmpty) with
    | some name => pure name
    | none =>
      match ← Task.setVariable? "LRA_LOG_LEVEL" with
      | some name => pure name
      | none => configured
  Task.ofExcept (ofName name)

/-- How the log is set up. -/
structure Setup where
  level : Nat
  /-- How many outputs there are. -/
  handlers : Nat
  /-- Does the log of the whole program get the lines, too? -/
  propagate : Bool
  deriving DecidableEq

/-- Sets up the log: one output, and nothing passed on. -/
def configure (given : Option Text) : Task Setup := do
  let level ← resolve given
  pure { level, handlers := 1, propagate := false }

end LogLevel

end Acceptance
