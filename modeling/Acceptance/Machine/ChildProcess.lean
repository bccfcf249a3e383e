import Acceptance.Machine.Disk
import Acceptance.Text.Blank

/-! # Child processes

Running other programs. A command that fails, does not start or takes too long is a result and not a
fault. Waiting moves the clock on.
-/

namespace Acceptance

/-! ## Time -/

/-- From this many milliseconds on, a time is no double in seconds. -/
def longestDuration : Nat := 1000 * (twoTo 1024 - twoTo 970)

namespace Task

/-- Refuses a number of milliseconds that is no double in seconds. -/
def checkDuration (milliseconds : Int) : Task Unit :=
  if longestDuration ≤ milliseconds.natAbs then fail (.excess .duration) else pure ()

/-- Starts the clock anew. -/
def startClock : Task Unit := change fun m => { m with elapsed := 0 }

/-- Moves the clock on. -/
def passTime (milliseconds : Nat) : Task Unit :=
  change fun m => { m with elapsed := m.elapsed + milliseconds }

/-- Waits; a negative time is no time. -/
def pause (milliseconds : Int) : Task Unit := do
  checkDuration milliseconds
  passTime milliseconds.toNat

/-! ## Tools -/

/-- Where a program on the search path is found. -/
def findTool (name : Text) : Task (Option Text) :=
  read fun m => if m.installed.contains name then some (m.toolDirectory ++ "/" ++ name) else none

def isInstalled (name : Text) : Task Bool := read fun m => m.installed.contains name

/-- Where a program is found that must be there. -/
def requireTool (name : Text) : Task Text := do
  match ← findTool name with
  | some path => pure path
  | none => fail (.toolMissing name)

/-! ## Calls -/

/-- Writes a call down and lets its effect happen. -/
def record (call : Call) (effect : Place → Surroundings → Surroundings) : Task Unit :=
  change fun m =>
    { m with toSurroundings := effect m.directory m.toSurroundings, calls := m.calls ++ [call] }

/-- Starts a child process. -/
def launch (l : Launch) : Task (Except LaunchProblem Child) := fun outside m =>
  let reply := outside.launch m.calls l
  (do record (.launch m.elapsed l) reply.effect; pure reply.answer : Task _) outside m

/-- Runs a program and waits for it, without the clock. -/
def check (argv : List Text) (directory : Option Text) : Task Finished := fun outside m =>
  let reply := outside.check m.calls argv
  (do record (.check argv directory) reply.effect; pure reply.answer : Task _) outside m

/-- Gives a command to the browser. -/
def browse (call : BrowserCall) : Task BrowserReply := fun outside m =>
  let reply := outside.browse m.calls call
  (do record (.browse m.elapsed call) reply.effect; pure reply.answer : Task _) outside m

/-! ## Programs that are waited for -/

/-- Both outputs of a program that succeeded. -/
structure Output where
  output : Text
  errors : Text
  code : Int
  deriving DecidableEq

/-- The text of an output, its line ends as line feeds. -/
def outputText (bytes : List UInt8) : Task Text :=
  match Utf8.decode bytes with
  | .ok t => pure (Text.withLineFeeds t)
  | .error problem => fail (.invalid (.undecodable problem))

/-- Does an argument have a zero character in it? -/
def hasZero (argv : List Text) : Bool := argv.any fun arg => arg.any (·.val = 0)

/-- Runs a program that must succeed. -/
def runChecked (argv : List Text) (directory : Option Text) : Task Output := do
  if hasZero argv then fail (.invalid .zeroCharacter)
  else
    let finished ← check argv directory
    let output ← outputText finished.output
    let errors ← outputText finished.errors
    if finished.code = 0 then pure { output, errors, code := 0 }
    else fail (.processFailed argv finished.code output errors)

end Task

/-! ## Programs with a time limit -/

namespace ChildProcess

/-- The time limit when none is set. -/
def standardTimeout : Int := 30000

/-- How long the output is waited for after the end of a process. -/
def drainGrace : Nat := 1000

/-- The code of a process that was killed. -/
def killedCode : Int := -9

/-- Does the child end by itself within the limit? -/
def endsWithin (child : Child) (timeout : Int) : Bool :=
  match child.duration with
  | some duration => 0 < timeout && (duration : Int) ≤ timeout
  | none => false

/-- The variables of `extra` that are not set, or otherwise. -/
def newVariables (environment extra : Environment) : Environment :=
  extra.filter fun v => Environment.get? environment v.1 ≠ some v.2

/-- A command as one line. -/
def line (argv : List Text) : Text := Text.joinWith " " argv

/-- How long the child is watched. -/
def watchTime (child : Child) (timeout : Int) : Nat :=
  if endsWithin child timeout then child.duration.getD 0 else timeout.toNat

/-- The code of a child that is killed: its own if it is gone by then, be it that it ended in the
moment in which it was started. -/
def codeAfterKill (child : Child) : Int :=
  if child.escapesKill || child.duration = some 0 then child.code else killedCode

/-- The result of a command that took too long. -/
def timedOut (argv : List Text) (timeout : Int) (child : Child) (output : Text) : CommandResult :=
  { success := false
    output
    error := some ("Command timed out after " ++ Text.ofInt timeout ++ "ms: " ++ line argv)
    code := some (codeAfterKill child) }

/-- The result of a command that ended by itself. -/
def ended (argv : List Text) (child : Child) (output errors : Text) : CommandResult :=
  if child.code = 0 then { success := true, output, code := some 0 }
  else
    let said := Text.trim errors
    let message := "Command failed with code " ++ Text.ofInt child.code ++ ": " ++ line argv
    { success := false
      output
      error := some (if said.isEmpty then message else message ++ "\n" ++ said)
      code := some child.code }

/-- Watches a child that was started until it ends or its time is up. -/
def watch (argv : List Text) (silent : Bool) (timeout : Int) (child : Child) :
    Task CommandResult := do
  Task.checkDuration timeout
  Task.passTime (watchTime child timeout)
  if child.holdsOutput then Task.passTime drainGrace
  let output := Utf8.decodeLossy child.output
  let errors : Text := if silent then Utf8.decodeLossy child.errors else []
  if !silent then Task.echo output
  pure (if endsWithin child timeout then ended argv child output errors
    else timedOut argv timeout child output)

/-- Runs a command. Its errors are kept apart when it is `silent`; otherwise its output is passed
on, too. -/
def run (argv : List Text) (silent : Bool) (timeout : Int) (environment : Environment) :
    Task CommandResult := do
  match argv with
  | [] => Task.fail .wrongKind
  | tool :: _ =>
    if Task.hasZero argv then Task.fail (.invalid .zeroCharacter)
    else
      let environment ← Task.read fun m => newVariables m.environment environment
      match ← Task.launch { argv, silent, environment } with
      | .error .notFound =>
        pure { success := false, error := some ("Required tool not found on PATH: " ++ tool) }
      | .error (.refused error) =>
        let message := "Failed to start " ++ tool ++ ": " ++ error.message
        pure { success := false, error := some message }
      | .ok child => watch argv silent timeout child

end ChildProcess

end Acceptance
