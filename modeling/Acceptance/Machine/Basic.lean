import Acceptance.Machine.Files
import Acceptance.Value.Basic

/-! # The machine

What a run can see and change, the other programs that it calls, and tasks: computations that read
and change the machine, call programs, and may stop with a fault.

Other programs answer depending on all calls made so far, so a statement over every `Outside` holds
for programs with any memory of their own.
-/

namespace Acceptance

/-- Variables with their values. -/
abbrev Environment := List (Text × Text)

/-! ## Calls -/

/-- A child process that is started in the background. -/
structure Launch where
  argv : List Text
  /-- Are its errors kept apart from ours? -/
  silent : Bool
  /-- The variables that it sees and we do not, or with another value. -/
  environment : Environment
  deriving DecidableEq

/-- A command given to a browser. -/
structure BrowserCall where
  args : List Text
  silent : Bool
  timeout : Option Int
  deriving DecidableEq

/-- A call of another program; the times are milliseconds since the clock was started. -/
inductive Call where
  | launch (time : Nat) (launch : Launch)
  /-- A program that is waited for. -/
  | check (argv : List Text) (directory : Option Text)
  | browse (time : Nat) (call : BrowserCall)
  deriving DecidableEq

/-- The calls made so far, the oldest first. -/
abbrev History := List Call

/-! ## Answers -/

/-- The outcome of a command; the return code is missing if it did not start. -/
structure CommandResult where
  success : Bool
  output : Text := []
  error : Option Text := none
  code : Option Int := none
  deriving DecidableEq

/-- Why a child process did not start. -/
inductive LaunchProblem where
  | notFound
  | refused (error : SystemError)
  deriving DecidableEq

/-- What a child process does when it is left alone. -/
structure Child where
  /-- The milliseconds until it ends, if it ends by itself. -/
  duration : Option Nat
  code : Int
  output : List UInt8
  errors : List UInt8
  /-- Does its output stay open after its end? -/
  holdsOutput : Bool
  /-- Is it gone before it can be killed? -/
  escapesKill : Bool
  deriving DecidableEq

/-- The result of a program that was waited for. -/
structure Finished where
  code : Int
  output : List UInt8
  errors : List UInt8
  deriving DecidableEq

/-- What the browser does with a command: answer, or break off. -/
inductive BrowserReply where
  | result (result : CommandResult)
  | broken (message : Text)
  deriving DecidableEq

/-! ## Surroundings -/

/-- What other programs can change, too. -/
structure Surroundings where
  files : FileTree
  /-- The programs on the search path. -/
  installed : List Text

/-- An answer, and what the call leaves behind, seen from the current directory. -/
structure Reply (α : Type) where
  answer : α
  effect : Place → Surroundings → Surroundings

/-- How the other programs behave, given the calls before. -/
structure Outside where
  launch : History → Launch → Reply (Except LaunchProblem Child)
  check : History → List Text → Reply Finished
  browse : History → BrowserCall → Reply BrowserReply

/-! ## The machine -/

/-- Is the browser open? -/
inductive SessionState where
  | closed
  | opening
  | open
  deriving DecidableEq

def SessionState.name : SessionState → Text
  | .closed => "closed"
  | .opening => "opening"
  | .open => "open"

structure Machine extends Surroundings where
  /-- The current directory. -/
  directory : Place
  environment : Environment
  /-- The homes of the users. -/
  homes : List (Text × Text)
  /-- Where the programs on the search path are. -/
  toolDirectory : Text
  /-- The time of the system. -/
  time : Instant
  /-- Milliseconds since the clock was started. -/
  elapsed : Nat
  calls : History
  /-- What was passed on to the error output. -/
  echoed : Text
  /-- What was printed. -/
  printed : Text
  session : SessionState
  /-- The settings, once they have been read. -/
  settings : Option Entries
  /-- How many runs have been numbered. -/
  runs : Nat

/-! ## Tasks -/

/-- A computation on a machine. -/
def Task (α : Type) : Type := Outside → Machine → Except Fault α × Machine

namespace Task

def run {α : Type} (t : Task α) (outside : Outside) (m : Machine) : Except Fault α × Machine :=
  t outside m

protected def pure {α : Type} (a : α) : Task α := fun _ m => (.ok a, m)

protected def bind {α β : Type} (t : Task α) (f : α → Task β) : Task β := fun outside m =>
  match t outside m with
  | (.ok a, m) => f a outside m
  | (.error fault, m) => (.error fault, m)

instance : Monad Task where
  pure := Task.pure
  bind := Task.bind

/-- Stops with a fault. -/
def fail {α : Type} (fault : Fault) : Task α := fun _ m => (.error fault, m)

/-- Never stops: a fault becomes the result. The machine keeps what was changed before it. -/
def attempt {α : Type} (t : Task α) : Task (Except Fault α) := fun outside m =>
  let (result, m) := t outside m
  (.ok result, m)

/-- The outcome of a computation without effects. -/
def ofExcept {α : Type} : Except Fault α → Task α
  | .ok a => pure a
  | .error fault => fail fault

/-- What the machine says. -/
def read {α : Type} (f : Machine → α) : Task α := fun _ m => (.ok (f m), m)

/-- Changes the machine. -/
def change (f : Machine → Machine) : Task Unit := fun _ m => (.ok (), f m)

/-! ### Outcomes -/

section

variable {α β : Type} (outside : Outside) (m : Machine)

@[simp] theorem run_pure (a : α) : (pure a : Task α).run outside m = (.ok a, m) := rfl

@[simp] theorem run_fail (fault : Fault) :
    (fail fault : Task α).run outside m = (.error fault, m) := rfl

@[simp] theorem run_read (f : Machine → α) : (read f).run outside m = (.ok (f m), m) := rfl

@[simp] theorem run_change (f : Machine → Machine) : (change f).run outside m = (.ok (), f m) := rfl

@[simp] theorem run_attempt (t : Task α) :
    (attempt t).run outside m = (.ok (t.run outside m).1, (t.run outside m).2) := rfl

theorem run_bind (t : Task α) (f : α → Task β) :
    (t >>= f).run outside m =
      match t.run outside m with
      | (.ok a, m) => (f a).run outside m
      | (.error fault, m) => (.error fault, m) := rfl

end

end Task

end Acceptance
