import Acceptance.CommandLine.Arguments
import Acceptance.CommandLine.WholeNumber
import Acceptance.Feature.Entry

/-! # Commands

The commands and what may be said with each.
-/

namespace Acceptance

/-- A command with its arguments. -/
inductive Command where
  | version (json : Bool)
  | doctor
  | init (name : Option Text) (type : Text) (directory : Option Text)
  | status
  | add (description priority category : Text) (steps : List Text)
  | next
  | done (id : Text) (notes : Option Text)
  | commit (id message : Option Text)
  | list (filter : Text) (priority : Option Text)
  | export (output : Option Text)
  | test (id : Option Text) (all includePending : Bool) (baseUrl : Option Text)
    (headless : Option Bool)
  | verify (id : Text) (notes baseUrl : Option Text) (headless : Option Bool)
  | browser (args : List Text) (timeout : Option Int)
  | review (baseUrl : Option Text) (output : Text) (headless : Option Bool)
  deriving DecidableEq

namespace Command

open Arguments

/-! ## Names -/

/-- The names of the commands. -/
inductive Name where
  | version
  | doctor
  | init
  | status
  | add
  | next
  | done
  | commit
  | list
  | export
  | test
  | verify
  | browser
  | review
  deriving DecidableEq

def Name.all : List Name :=
  [.version, .doctor, .init, .status, .add, .next, .done, .commit, .list, .export, .test, .verify,
    .browser, .review]

def Name.text : Name → Text
  | .version => "version"
  | .doctor => "doctor"
  | .init => "init"
  | .status => "status"
  | .add => "add"
  | .next => "next"
  | .done => "done"
  | .commit => "commit"
  | .list => "list"
  | .export => "export"
  | .test => "test"
  | .verify => "verify"
  | .browser => "browser"
  | .review => "ui-review"

def Name.ofText? (t : Text) : Option Name := Name.all.find? (·.text = t)

/-! ## Options -/

def jsonFlag : Rule := { names := ["--json"], key := "json", takesValue := false }

def baseUrlOption : Rule := { names := ["--base-url", "-b"], key := "base-url" }

def notesOption : Rule := { names := ["--notes", "-n"], key := "notes" }

def headlessFlags : List Rule :=
  [{ names := ["--headless"], key := "headless", takesValue := false },
    { names := ["--headed"], key := "headed", takesValue := false }]

def headless? (p : Parsed) : Option Bool := p.choice? "headless" "headed"

/-- The options of a command. -/
def rules : Name → List Rule
  | .version => [jsonFlag]
  | .doctor => [jsonFlag]
  | .init =>
    [{ names := ["--type", "-t"], key := "type" }, { names := ["--dir", "-d"], key := "dir" },
      jsonFlag]
  | .status => [jsonFlag]
  | .add =>
    [{ names := ["--priority", "-p"], key := "priority" },
      { names := ["--category", "-c"], key := "category" },
      { names := ["--step", "-s"], key := "step" }, jsonFlag]
  | .next => [jsonFlag]
  | .done => [notesOption, jsonFlag]
  | .commit => [{ names := ["--message", "-m"], key := "message" }, jsonFlag]
  | .list =>
    [{ names := ["--filter", "-f"], key := "filter" },
      { names := ["--priority", "-p"], key := "priority" }, jsonFlag]
  | .export => [{ names := ["--output", "-o"], key := "output" }, jsonFlag]
  | .test =>
    [{ names := ["--all", "-a"], key := "all", takesValue := false },
      { names := ["--include-pending"], key := "include-pending", takesValue := false },
      baseUrlOption, jsonFlag] ++ headlessFlags
  | .verify => [notesOption, baseUrlOption, jsonFlag] ++ headlessFlags
  | .browser => [{ names := ["--timeout-ms"], key := "timeout-ms" }]
  | .review =>
    [baseUrlOption, { names := ["--output", "-o"], key := "output" }, jsonFlag] ++ headlessFlags

def grammar (name : Name) : Grammar :=
  { rules := rules name, keepsUnknown := name = .browser }

/-! ## Operands -/

/-- No operand. -/
def none? {α : Type} (operands : List Text) (a : α) : Option α :=
  if operands.isEmpty then some a else none

/-- One operand. -/
def one? {α : Type} (operands : List Text) (f : Text → α) : Option α :=
  match operands with
  | [t] => some (f t)
  | _ => none

/-- One operand or none. -/
def atMostOne? {α : Type} (operands : List Text) (f : Option Text → α) : Option α :=
  match operands with
  | [] => some (f none)
  | [t] => some (f (some t))
  | _ => none

/-- A whole number from 1 on, if an option gives one. -/
def positive? (given : Option Text) : Option (Option Int) :=
  match given with
  | none => some none
  | some t => (WholeNumber.read? t).map fun n => some (n : Int)

/-! ## Commands -/

/-- The command that the options and operands make. -/
def ofParsed? (name : Name) (p : Parsed) : Option Command :=
  let operands := p.operands
  match name with
  | .version => none? operands (.version (p.has "json"))
  | .doctor => none? operands .doctor
  | .init =>
    atMostOne? operands fun name => .init name ((p.value? "type").getD "web") (p.value? "dir")
  | .status => none? operands .status
  | .add =>
    one? operands fun description =>
      .add description ((p.value? "priority").getD Entry.standardPriority)
        ((p.value? "category").getD Entry.standardCategory) (p.values "step")
  | .next => none? operands .next
  | .done => one? operands fun id => .done id (p.value? "notes")
  | .commit => atMostOne? operands fun id => .commit id (p.value? "message")
  | .list => none? operands (.list ((p.value? "filter").getD "all") (p.value? "priority"))
  | .export => none? operands (.export (p.value? "output"))
  | .test =>
    atMostOne? operands fun id =>
      .test id (p.has "all") (p.has "include-pending") (p.value? "base-url") (headless? p)
  | .verify =>
    one? operands fun id => .verify id (p.value? "notes") (p.value? "base-url") (headless? p)
  | .browser =>
    if operands.isEmpty then none
    else (positive? (p.value? "timeout-ms")).map fun timeout => .browser operands timeout
  | .review =>
    none? operands
      (.review (p.value? "base-url") ((p.value? "output").getD "./ui-review") (headless? p))

/-- The command that the arguments after its name make; `none` if they do not fit. -/
def parse? (name : Name) (args : List Text) : Option Command :=
  ((grammar name).read args).bind (ofParsed? name)

end Command

end Acceptance
