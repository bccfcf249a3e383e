import Acceptance.Browser.Command
import Acceptance.Browser.Evidence
import Acceptance.Feature.Basic
import Acceptance.Step.Target
import Acceptance.Step.Wait

/-! # Performing steps

What a step does in the browser. A step that does not succeed is an outcome and not a fault; the
browser itself may break off with one.
-/

namespace Acceptance

/-- Whose account a login step uses, and where it is entered. -/
structure Credentials where
  studentIdField : Text := "学号"
  studentId : Text := "2021001"
  passwordField : Text := "密码"
  password : Text := "123456"
  submitButton : Text := "登录"
  deriving DecidableEq

def Credentials.standard : Credentials := {}

/-- How a step went. -/
inductive Outcome where
  | passed
  | failed (error : Text)
  deriving DecidableEq

namespace Outcome

def isPassed : Outcome → Bool
  | .passed => true
  | .failed _ => false

def error? : Outcome → Option Text
  | .passed => none
  | .failed error => some error

end Outcome

/-- Carries out steps in a browser; the times are in milliseconds. -/
structure Performer where
  gateway : Gateway
  baseUrl : Text
  routes : Routes := Routes.standard
  credentials : Credentials := {}
  timeouts : Timeouts := {}
  fillSettle : Int := 300
  verifySettle : Int := 1500
  defaultWait : Int := Step.standardWait

namespace Performer

variable (p : Performer)

/-- What a command says went wrong. -/
def errorText : Option Text → Text
  | some error => error
  | none => "None"

/-- The outcome of a command; `start` and a colon come before what went wrong. -/
def outcomeOf (result : CommandResult) (start : Text) : Outcome :=
  if result.success then .passed else .failed (start ++ ": " ++ errorText result.error)

/-! ## Commands -/

/-- Gives a command to the browser, its errors kept apart. -/
def command (args : List Text) (timeout : Int) : Task CommandResult :=
  p.gateway.run args true (some timeout)

/-- The result when nothing is tried. -/
def nothingTried : CommandResult := { success := false, error := some "no strategy attempted" }

/-- Tries commands in order and stops at the first that succeeds; `last` is the result so far. -/
def firstSuccessAfter (last : CommandResult) : List Attempt → Task CommandResult
  | [] => pure last
  | attempt :: rest => do
    let result ← p.command attempt.args attempt.timeout
    if result.success then pure result else firstSuccessAfter result rest

/-- Tries commands in order and stops at the first that succeeds; the result is the last one. -/
def firstSuccess (attempts : List Attempt) : Task CommandResult :=
  p.firstSuccessAfter nothingTried attempts

/-! ## Navigating -/

/-- The address of a target: itself, if it is absolute, or below the base address. -/
def resolveUrl (target : Text) : Text :=
  if Step.isAbsoluteUrl target then target
  else Evidence.withoutSlashes p.baseUrl ++ "/" ++ Text.trimLeftWhere (· = '/') target

def openUrl (url : Text) : Task CommandResult := p.command ["open", url] p.timeouts.navigate

def navigate (step : Text) : Task Outcome := do
  let url := p.resolveUrl (Step.navigateTarget step p.routes)
  let result ← p.openUrl url
  pure (outcomeOf result ("Failed to open " ++ url))

/-! ## Clicking -/

def clickAttempts (target : Text) : List Attempt := Attempt.clicks p.timeouts target

def click (step : Text) : Task Outcome := do
  let target := Step.clickTarget step
  let result ← p.firstSuccess (p.clickAttempts target)
  pure (outcomeOf result ("Could not click " ++ Text.quoted target))

/-! ## Filling -/

def fillAttempts (field value : Text) : List Attempt := Attempt.fills p.timeouts field value

def fillField (field value : Text) : Task CommandResult :=
  p.firstSuccess (p.fillAttempts field value)

def couldNotFill (field : Text) : Text := "Could not fill " ++ Text.quoted field

def fill (step : Text) (data : Option Input) : Task Outcome := do
  let input := Step.input step data
  let result ← p.fillField input.field input.value
  pure (outcomeOf result (couldNotFill input.field))

/-- Fills both fields of the account, whatever comes of the first. -/
def fillCredentials : Task Outcome := do
  let c := p.credentials
  let first ← p.fillField c.studentIdField c.studentId
  Task.pause p.fillSettle
  let second ← p.fillField c.passwordField c.password
  pure (if first.success then outcomeOf second (couldNotFill c.passwordField)
    else outcomeOf first (couldNotFill c.studentIdField))

/-- Fills both fields of the account and presses the button, whatever comes of the fields. -/
def login : Task Outcome := do
  let c := p.credentials
  let _ ← p.fillField c.studentIdField c.studentId
  Task.pause p.fillSettle
  let _ ← p.fillField c.passwordField c.password
  Task.pause p.fillSettle
  let result ← p.command (Attempt.press c.submitButton) p.timeouts.action
  pure (outcomeOf result ("Could not click " ++ Text.quoted c.submitButton))

/-! ## Verifying -/

def readSnapshot : Task CommandResult := p.command ["snapshot", "-i", "--json"] p.timeouts.read

/-- Passes if the page can be read at all. -/
def genericCheck : Task Outcome := do
  let result ← p.readSnapshot
  pure (outcomeOf result "Page snapshot failed")

/-- Does the snapshot show the text? -/
def snapshotShows (target : Text) : Task Bool := do
  let result ← p.readSnapshot
  if result.success then
    let shown ← Task.ofExcept (Evidence.snapshotText result.output)
    pure (Text.has shown target)
  else pure false

/-- Does the text of the page hold the text? -/
def pageShows (target : Text) : Task Bool := do
  let result ← p.command ["get", "text", "body"] p.timeouts.read
  pure (result.success && Text.has result.output target)

/-- Is the browser at the route that the text names? Without a route the browser is not asked. -/
def addressShows (target : Text) : Task Bool := do
  match p.routes.resolve target with
  | none => pure false
  | some route =>
    let result ← p.command ["url"] p.timeouts.read
    if !result.success then pure false
    else
      match Evidence.isAtRoute result.output route with
      | .ok isAt => pure isAt
      | .error problem => Task.fail (.invalid (.address problem))

def notFound (target : Text) : Outcome :=
  .failed ("Expected " ++ Text.quoted target ++ " on page, not found")

/-- Looks for the text in the snapshot, then in the page, then at the address. -/
def verify (step : Text) : Task Outcome := do
  Task.pause p.verifySettle
  let target := Step.verifyTarget step
  if target.isEmpty then p.genericCheck
  else if ← p.snapshotShows target then pure .passed
  else if ← p.pageShows target then pure .passed
  else if ← p.addressShows target then pure .passed
  else pure (notFound target)

/-! ## Waiting -/

def wait (step : Text) : Task Outcome := do
  match Step.waitTime step p.defaultWait with
  | .ok milliseconds =>
    Task.pause milliseconds
    pure .passed
  | .error digits => Task.fail (.invalid (.longIntegerRead digits))

/-! ## Screenshots -/

/-- The command for a screenshot of what is in view, or of the full page. -/
def screenshotArgs (path : Text) (full : Bool) : List Text :=
  if full then ["screenshot", path, "--full"] else ["screenshot", path]

/-- Takes a screenshot. -/
def screenshot (path : Text) (full : Bool) : Task Bool := do
  let result ← p.command (screenshotArgs path full) p.timeouts.screenshot
  pure result.success

/-! ## Steps -/

/-- Carries out a step; `data` is the test data of its feature. -/
def perform (step : Text) (data : Option Input) : Task Outcome :=
  match Step.classify step with
  | .navigate => p.navigate step
  | .click => p.click step
  | .fill => if Step.isCredentials step then p.fillCredentials else p.fill step data
  | .verify => p.verify step
  | .login => p.login
  | .wait => p.wait step
  | .other => pure .passed

end Performer

end Acceptance
