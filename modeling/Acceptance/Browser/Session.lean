import Acceptance.Browser.Gateway

/-! # Browser sessions

A session is opened, used and closed again. Whatever happens in between, it is closed.
-/

namespace Acceptance

/-- How a session is opened; the times are in milliseconds. -/
structure Session where
  gateway : Gateway
  openTimeout : Int := 15000
  settle : Int := 2000

namespace Session

variable (s : Session)

/-- The time limit of closing. -/
def closeTimeout : Int := 10000

/-- Notes the state of the session. -/
def enter (state : SessionState) : Task Unit := Task.change fun m => { m with session := state }

/-- The state of the session. -/
def state : Task SessionState := Task.read (·.session)

/-- The command that opens an address; the window is shown unless it is `headless`. -/
def openArgs (url : Text) (headless : Bool) : List Text :=
  if headless then ["open", url] else ["open", url, "--headed"]

/-- Gives the command that opens an address. -/
def tryOpen (url : Text) (headless : Bool) : Task CommandResult :=
  s.gateway.run (openArgs url headless) false (some s.openTimeout)

/-- Gives the command that closes the session. -/
def tryClose : Task CommandResult := s.gateway.run ["close"] true (some closeTimeout)

/-- Opens an address. A session left over from an earlier run may be in the way, so after a failure
it is closed and the address is opened once more. -/
def openResult (url : Text) (headless : Bool) : Task CommandResult := do
  let first ← s.tryOpen url headless
  if first.success then pure first
  else
    let _ ← s.tryClose
    s.tryOpen url headless

/-- Opens the session and lets the page settle. -/
def «open» (url : Text) (headless : Bool) : Task CommandResult := do
  enter .opening
  let result ← s.openResult url headless
  if result.success then
    enter .open
    Task.pause s.settle
    pure result
  else
    enter .closed
    Task.fail (.openFailed url result.error)

/-- Closes the session, whatever the browser makes of it. -/
def close : Task Unit := do
  let _ ← Task.attempt s.tryClose
  enter .closed

/-- Opens the session, runs the body, and closes the session, also after a fault. -/
def opened {α : Type} (url : Text) (headless : Bool) (body : Task α) : Task α := do
  let result ← Task.attempt do
    let _ ← s.open url headless
    body
  s.close
  Task.ofExcept result

end Session

end Acceptance
