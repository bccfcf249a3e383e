import Acceptance.Browser.Performer
import Acceptance.Browser.Session
import Acceptance.Project.Layout
import Acceptance.Project.Settings
import Acceptance.Text.LowerCase

/-! # Options of a run

How a run is set up: what the command line says, else the settings, else the environment, else the
usual values.
-/

namespace Acceptance

structure Options where
  baseUrl : Text := "http://localhost:3000"
  headless : Bool := false
  timeout : Option Int := none
  /-- Are features tested that have not been accepted yet? -/
  testAll : Bool := false
  screenshots : Option Path := none
  routes : Routes := Routes.standard
  credentials : Credentials := {}
  settle : Int := 2000
  fillSettle : Int := 300
  verifySettle : Int := 1500
  defaultWait : Int := Step.standardWait
  binary : Text := Gateway.standardBinary

namespace Options

variable (o : Options)

/-! ## What runs with them -/

/-- The time limits: one for all commands, if one is set; zero sets none. -/
def timeouts : Timeouts :=
  match o.timeout with
  | none | some 0 => Timeouts.standard
  | some timeout => Timeouts.uniform timeout

/-- The browser program. -/
def gateway : Gateway := Gateway.ofBinary o.binary

/-- The time limit of opening when none is set. -/
def standardOpenTimeout : Int := 15000

def session (g : Gateway) : Session :=
  { gateway := g
    openTimeout := match o.timeout with
      | none | some 0 => standardOpenTimeout
      | some timeout => timeout
    settle := o.settle }

def performer (g : Gateway) : Performer :=
  { gateway := g
    baseUrl := o.baseUrl
    routes := o.routes
    credentials := o.credentials
    timeouts := o.timeouts
    fillSettle := o.fillSettle
    verifySettle := o.verifySettle
    defaultWait := o.defaultWait }

/-! ## Where they come from -/

/-- What the command line says. -/
structure Given where
  baseUrl : Option Text := none
  headless : Option Bool := none
  testAll : Bool := false
  timeout : Option Int := none
  screenshots : Option Text := none

def standardBaseUrl : Text := "http://localhost:3000"

/-- The texts that switch something on. -/
def trueTexts : List Text := ["1", "true", "yes", "on"]

/-- Is the variable set to a text that switches something on? -/
def isOn (name : Text) : Task Bool := do
  match ← Task.environment? name with
  | some t => pure (trueTexts.contains (Text.lower (Text.trim t)))
  | none => pure false

def baseUrlOf (given : Option Text) : Task Text := do
  match given with
  | some url => pure url
  | none =>
    let standard := (← Task.setVariable? "LRA_BASE_URL").getD standardBaseUrl
    Settings.text ["e2e", "base_url"] standard

def headlessOf (given : Option Bool) : Task Bool := do
  match given with
  | some headless => pure headless
  | none =>
    match ← Settings.value? ["e2e", "headless"] with
    | some (.bool headless) => pure headless
    | _ => isOn "LRA_HEADLESS"

def timeoutOf (given : Option Int) : Task (Option Int) := do
  match given with
  | some timeout => pure (some timeout)
  | none =>
    let timeout ← Settings.int ["e2e", "timeout_ms"] 0
    pure (if timeout = 0 then none else some timeout)

/-- The routes of the settings in place of the usual ones, if there are any. -/
def routesOf : Task Routes := do
  let routes ← Settings.table ["e2e", "routes"]
  pure (if routes.isEmpty then Routes.standard else routes)

def credentialsOf : Task Credentials := do
  let standard := Credentials.standard
  let studentIdField ← Settings.text ["e2e", "login", "student_id_field"] standard.studentIdField
  let studentId ← Settings.text ["e2e", "login", "student_id"] standard.studentId
  let passwordField ← Settings.text ["e2e", "login", "password_field"] standard.passwordField
  let password ← Settings.text ["e2e", "login", "password"] standard.password
  let submitButton ← Settings.text ["e2e", "login", "submit_button"] standard.submitButton
  pure { studentIdField, studentId, passwordField, password, submitButton }

/-- The directory of screenshots, if one is set. -/
def screenshotsOf (given : Option Text) : Task (Option Path) := do
  let directory ← match given with
    | some (c :: rest) => pure (some (Value.text (c :: rest)))
    | _ => Settings.value? ["e2e", "screenshot_dir"]
  match directory with
  | some v =>
    if v.isTruthy then
      let t ← Task.ofExcept (Settings.shown v)
      let p ← Layout.screenshotsDirectory (some t)
      pure (some p)
    else pure none
  | none => pure none

/-- The options of a run. -/
def load (given : Given) : Task Options := do
  let baseUrl ← baseUrlOf given.baseUrl
  let headless ← headlessOf given.headless
  let timeout ← timeoutOf given.timeout
  let routes ← routesOf
  let credentials ← credentialsOf
  let screenshots ← screenshotsOf given.screenshots
  let settle ← Settings.int ["e2e", "settle_ms"] 2000
  let fillSettle ← Settings.int ["e2e", "fill_settle_ms"] 300
  let verifySettle ← Settings.int ["e2e", "verify_settle_ms"] 1500
  let defaultWait ← Settings.int ["e2e", "default_wait_ms"] Step.standardWait
  let binary ← Settings.text ["e2e", "binary"] Gateway.standardBinary
  pure
    { baseUrl, headless, timeout, testAll := given.testAll, screenshots, routes, credentials, settle
      fillSettle, verifySettle, defaultWait, binary }

end Options

end Acceptance
