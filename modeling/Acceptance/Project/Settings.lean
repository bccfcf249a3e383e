import Acceptance.Machine.Disk
import Acceptance.Text.Blank
import Acceptance.Toml.Reader

/-! # Settings

The settings file, read once and then kept, and values in it.
-/

namespace Acceptance

namespace Settings

/-! ## The file -/

/-- Where the settings file is. -/
def file : Task Path := do
  match ← Task.setVariable? "LRA_CONFIG_PATH" with
  | some t => Task.expandHome (Path.ofText t)
  | none =>
    let base ← match ← Task.setVariable? "XDG_CONFIG_HOME" with
      | some t => Task.expandHome (Path.ofText t)
      | none => do
        let home ← Task.expandHome (Path.ofText "~")
        pure (home.child ".config")
    pure ((base.child "lra").child "config.toml")

/-- What a settings file that cannot be read is reported as; its bytes and its numbers have faults
of their own. -/
def faultOf (p : Path) : Fault → Fault
  | .file .. => .invalid (.settings p.toText)
  | fault => fault

/-- The settings that a text holds. -/
def parse (p : Path) (t : Text) : Except Fault Entries :=
  match Toml.read t with
  | .ok entries => .ok entries
  | .error .malformed => .error (.invalid (.settings p.toText))
  | .error (.longInteger digits) => .error (.invalid (.longIntegerRead digits))
  | .error .nestedTooDeep => .error (.nestedTooDeep .settings)

/-- Reads the settings file; none is the same as an empty one. -/
def load : Task Entries := do
  let p ← file
  if ← Task.pathExists p then
    match ← Task.attempt (Task.readText p) with
    | .ok t => Task.ofExcept (parse p t)
    | .error fault => Task.fail (faultOf p fault)
  else pure []

/-- The settings, read when they are first asked for. -/
def get : Task Entries := do
  match ← Task.read (·.settings) with
  | some entries => pure entries
  | none =>
    let entries ← load
    Task.change fun m => { m with settings := some entries }
    pure entries

/-- Forgets the settings, so that they are read again. -/
def forget : Task Unit := Task.change fun m => { m with settings := none }

/-! ## Values -/

/-- The value that the keys lead to. -/
def find? : List Text → Value → Option Value
  | [], v => some v
  | key :: keys, v =>
    match v with
    | .object entries => (Entries.get? entries key).bind (find? keys)
    | _ => none

/-- The value that the keys lead to in the settings. -/
def value? (keys : List Text) : Task (Option Value) := do
  let entries ← get
  pure (find? keys (.object entries))

/-- A whole number that is not negative, or `standard`. -/
def int (keys : List Text) (standard : Int) : Task Int := do
  match ← value? keys with
  | some (.int n) => pure (if n < 0 then standard else n)
  | _ => pure standard

/-- A text that is not blank, or `standard`. -/
def text (keys : List Text) (standard : Text) : Task Text := do
  match ← value? keys with
  | some (.text t) => pure (if Text.isBlank t then standard else t)
  | _ => pure standard

/-- A value as text; an integer that is too long has none. -/
def shown (v : Value) : Except Fault Text :=
  if v.hasLongInt then .error (.invalid .longIntegerWritten) else .ok v.shown

/-- The entries of a table as texts. -/
def pairsOf : Entries → Except Fault (List (Text × Text))
  | [] => .ok []
  | (key, v) :: rest => do
    let value ← shown v
    let others ← pairsOf rest
    .ok ((match key with
      | .text t => t
      | key => key.quoted, value) :: others)

/-- A table of texts, empty if there is none. -/
def table (keys : List Text) : Task (List (Text × Text)) := do
  match ← value? keys with
  | some (.object entries) => Task.ofExcept (pairsOf entries)
  | _ => pure []

end Settings

end Acceptance
