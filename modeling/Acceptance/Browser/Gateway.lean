import Acceptance.Machine.ChildProcess

/-! # The way to the browser

A browser takes commands, one after the other. It is either at hand, or a program that is started
for each command.
-/

namespace Acceptance

/-- How the browser is reached. -/
inductive Gateway where
  /-- The browser is at hand; the name of its program is known. -/
  | direct (binary : Text)
  /-- A program, its time limit when a command sets none, and variables for it. -/
  | program (binary : Text) (timeout : Int) (environment : Environment)
  deriving DecidableEq

namespace Gateway

/-- The usual browser program. -/
def standardBinary : Text := "agent-browser"

/-- The program of that name, with the usual limit. -/
def ofBinary (binary : Text) : Gateway := .program binary ChildProcess.standardTimeout []

def binary : Gateway → Text
  | .direct binary => binary
  | .program binary _ _ => binary

def isInstalled (g : Gateway) : Task Bool := Task.isInstalled g.binary

/-- The time limit of a command: none given, or zero, leaves the usual one. -/
def limit (standard : Int) (timeout : Option Int) : Int :=
  match timeout with
  | some 0 => standard
  | some t => t
  | none => standard

/-- Gives a command to the browser, with more variables for a program. -/
def runWith (g : Gateway) (args : List Text) (silent : Bool) (timeout : Option Int)
    (more : Environment) : Task CommandResult :=
  match g with
  | .direct _ => do
    match ← Task.browse { args, silent, timeout } with
    | .result result => pure result
    | .broken message => Task.fail (.broken message)
  | .program binary standard environment =>
    let environment := more.foldl (fun vs v => Environment.set vs v.1 v.2) environment
    ChildProcess.run (binary :: args) silent (limit standard timeout) environment

/-- Gives a command to the browser. -/
def run (g : Gateway) (args : List Text) (silent : Bool) (timeout : Option Int) :
    Task CommandResult :=
  g.runWith args silent timeout []

end Gateway

end Acceptance
