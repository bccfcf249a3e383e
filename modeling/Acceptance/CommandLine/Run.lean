import Acceptance.CommandLine.Command
import Acceptance.Envelope
import Acceptance.Feature.Selection
import Acceptance.Project.Commit
import Acceptance.Project.Init
import Acceptance.Project.LogLevel
import Acceptance.Run.Feature
import Acceptance.Run.Id
import Acceptance.Run.Review

/-! # Running commands

Each command prints one envelope and answers with an exit code: 0 for a good answer, 1 for an error,
2 for arguments that do not fit. A fault that a command does not expect gets out.
-/

namespace Acceptance

namespace CommandLine

/-- The version of the program. -/
def version : Text := "0.1.0"

/-- The exit code for arguments that do not fit. -/
def usageCode : Nat := 2

/-! ## Answers -/

/-- Prints an envelope and an empty line, and answers with the exit code. -/
def emit (e : Envelope) : Task Nat :=
  match Json.write e.toValue with
  | .ok document => do
    Task.print (document ++ "\n")
    pure (if e.isOk then 0 else 1)
  | .error cause => Task.fail (Fault.ofUnwritable cause)

/-- The envelope of a fault that a command expects: a project or feature that is missing, or a value
that is not accepted. -/
def projectError? (command : Text) (fault : Fault) (details : List (Text × Value)) :
    Option Envelope :=
  match fault with
  | .projectMissing path =>
    some (.error command .notAProject fault.message (Value.record [("path", .text path)]))
  | .featureMissing id =>
    some (.error command .notFound fault.message
      (Value.record (("feature_id", .text id) :: details)))
  | .invalid _ => some (.error command .invalidArgument fault.message (Value.record details))
  | _ => none

/-- Runs a task whose result makes an envelope; `onFault` knows the faults that make one, too. -/
def answer {α : Type} (task : Task α) (onResult : α → Task Envelope)
    (onFault : Fault → Option Envelope) : Task Nat := do
  match ← Task.attempt task with
  | .ok a => do emit (← onResult a)
  | .error fault =>
    match onFault fault with
    | some e => emit e
    | none => Task.fail fault

/-- Prepares a run and then goes on with `next`; a fault of the preparation makes an envelope. -/
def prepared {α : Type} (task : Task α) (onFault : Fault → Option Envelope)
    (next : α → Task Nat) : Task Nat := do
  match ← Task.attempt task with
  | .ok a => next a
  | .error fault =>
    match onFault fault with
    | some e => emit e
    | none => Task.fail fault

/-- The progress that a tally tells of. -/
def progressOf (tally : Entries) : Value :=
  Value.record
    [("total", (tally.get? "total_features").getD (.int 0)),
      ("completed", (tally.get? "completed_features").getD (.int 0)),
      ("percentage", (tally.get? "completion_percentage").getD (.int 0))]

/-- The progress in the tally of a project file, which may be of any kind. -/
def progress (tally : Value) : Except Fault Value := (Entry.fields tally).map progressOf

/-! ## Environment -/

def runVersion (json : Bool) : Task Nat :=
  if json then emit (.ok "version" (Value.record [("version", .text version)]))
  else do
    Task.print ("lra " ++ version ++ "\n")
    pure 0

/-- One line of the examination. -/
def checkOf (name : Text) (ok : Bool) (details : List (Text × Value)) : Value :=
  Value.record [("name", .text name), ("ok", .bool ok), ("details", Value.record details)]

/-- Where a tool is. -/
def toolCheck (name tool : Text) : Task Value := do
  let path ← Task.findTool tool
  pure (checkOf ("tool." ++ name) path.isSome [("path", Value.ofText? path)])

/-- Examines the project, the settings and the tools. -/
def runDoctor : Task Nat := do
  let root ← Layout.projectDirectory
  let featuresFile := Layout.featuresFileOf root
  let isProject ← Task.pathExists featuresFile
  let override ← Task.environment? "LRA_PROJECT_DIR"
  let project := checkOf "project.path" isProject
    [("path", .text root.toText), ("features_file", .text featuresFile.toText),
      ("override", Value.ofText? override)]
  let file ← Settings.file
  let isThere ← Task.pathExists file
  let details : List (Text × Value) := [("path", .text file.toText), ("exists", .bool isThere)]
  let (binary, settings) ←
    match ← Task.attempt (Settings.text ["e2e", "binary"] Gateway.standardBinary) with
    | .ok binary => pure (binary, checkOf "config" true details)
    | .error (.invalid cause) =>
      let error : List (Text × Value) := [("error", .text cause.message)]
      pure (Gateway.standardBinary, checkOf "config" false (details ++ error))
    | .error fault => Task.fail fault
  let browser ← toolCheck "agent-browser" binary
  let npm ← toolCheck "npm" "npm"
  let git ← toolCheck "git" "git"
  emit (.ok "doctor"
    (Value.record [("checks", .list [project, settings, browser, npm, git])]))

/-! ## Projects -/

def initData (r : Init.Result) : Value :=
  Value.record
    [("root", .text r.root), ("project_id", .text r.id), ("project_name", .text r.name),
      ("project_type", .text r.type), ("files", Value.texts r.files),
      ("git_initialized", .bool r.gitInitialized)]

/-- The envelope of a fault in making a project. -/
def initError? (type : Text) (fault : Fault) : Option Envelope :=
  match fault with
  | .alreadyInitialized path =>
    some (.error "init" .alreadyInitialized fault.message (Value.record [("path", .text path)]))
  | .invalid _ =>
    some (.error "init" .invalidArgument fault.message (Value.record [("type", .text type)]))
  | _ => none

/-- The root that is given to a new project, if one is given. -/
def givenRoot : Option Text → Task (Option Path)
  | none | some [] => pure none
  | some t => do
    let p ← Task.expandHome (Path.ofText t)
    pure (some p)

def runInit (name : Option Text) (type : Text) (directory : Option Text) : Task Nat := do
  let root ← givenRoot directory
  answer (Init.run name type root) (fun r => pure (.ok "init" (initData r))) (initError? type)

/-- What the status of a project tells. -/
def statusOf (project : Project) : Except Fault Value := do
  let tally ← match Entries.getD project.data "metadata" with
    | v => if v.isTruthy then .ok v else (Tally.ofValues project.features).map Tally.toValue
  let fields ← Entry.fields tally
  let next ← Selection.next project.features
  .ok (Value.record
    [("project_name", Entries.getD project.data "project_name"), ("progress", progressOf fields),
      ("by_priority", (Entries.get? fields "by_priority").getD (.object [])),
      ("by_category", (Entries.get? fields "by_category").getD (.object [])),
      ("next_feature", match next with
        | some e => .object e
        | none => .null)])

def runStatus : Task Nat :=
  prepared Project.load (projectError? "status" · []) fun project => do
    emit (.ok "status" (← Task.ofExcept (statusOf project)))

def runAdd (description priority category : Text) (steps : List Text) : Task Nat :=
  answer (Project.addFeature description category priority (Value.texts steps))
    (fun feature => pure (.ok "add" (Value.record [("feature", feature)])))
    (projectError? "add" · [("priority", .text priority), ("category", .text category)])

def runNext : Task Nat :=
  prepared Project.load (projectError? "next" · []) fun project => do
    let next ← Task.ofExcept (Selection.next project.features)
    let feature : Value := match next with
      | some e => .object e
      | none => .null
    emit (.ok "next" (Value.record [("feature", feature), ("all_done", .bool next.isNone)]))

/-- The progress in a tally. -/
def tallyProgress (tally : Tally) : Value :=
  Value.record
    [("total", .int tally.total), ("completed", .int tally.completed),
      ("percentage", tally.percentage)]

def runDone (id : Text) (notes : Option Text) : Task Nat :=
  answer (Project.markDone id (Value.ofText? notes))
    (fun (feature, tally) =>
      pure (.ok "done" (Value.record [("feature", feature), ("progress", tallyProgress tally)])))
    (projectError? "done" · [])

/-- The envelope of a fault in committing. -/
def commitError? (fault : Fault) : Option Envelope :=
  match fault with
  | .notARepository path =>
    some (.error "commit" .notARepository fault.message (Value.record [("path", .text path)]))
  | .nothingToCommit => some (.error "commit" .nothingToCommit fault.message (.object []))
  | .toolMissing tool =>
    some (.error "commit" .toolMissing fault.message (Value.record [("tool", .text tool)]))
  | .processFailed _ code _ errors =>
    some (.error "commit" .backendFailed fault.message
      (Value.record [("returncode", .int code), ("stderr", .text (Text.takeEnd errors 2000))]))
  | fault => projectError? "commit" fault []

def runCommit (id message : Option Text) : Task Nat :=
  answer (Commit.run id message)
    (fun r => do
      let progress ← Task.ofExcept (progress r.metadata)
      pure (.ok "commit" (Value.record [("message", .text r.message), ("progress", progress)])))
    commitError?

/-- The features of a project by status and priority. -/
def selected (filter : Text) (priority : Option Text) : Task (List Value) := do
  let project ← Project.load
  Task.ofExcept (Selection.select project.features filter (Value.ofText? priority))

def runList (filter : Text) (priority : Option Text) : Task Nat :=
  answer (selected filter priority)
    (fun items =>
      let data := Value.record [("features", .list items), ("count", .int items.length)]
      let limits := Value.record [("filter", .text filter), ("priority", Value.ofText? priority)]
      pure { command := "list", answer := .ok data [] (.bool false) limits })
    (projectError? "list" · [("filter", .text filter)])

def exportedFile (output : Option Text) : Task (Path × Nat) := do
  let target ← Export.run output
  let size ← Task.fileSize target
  pure (target, size)

def runExport (output : Option Text) : Task Nat :=
  answer (exportedFile output)
    (fun (target, size) =>
      let path := target.toText
      pure (.okWith "export" (Value.record [("path", .text path)])
        [{ path, mime := "application/json", purpose := "export", size := some size }]))
    (projectError? "export" · [])

/-! ## Tests -/

/-- The record of a run. -/
def runRecord (runId command : Text) (now : Instant) (options : Options) (result : Value) : Value :=
  Value.record
    [("run_id", .text runId), ("command", .text command), ("finished_at", now.toText),
      ("base_url", .text options.baseUrl), ("headless", .bool options.headless),
      ("result", result)]

/-- Writes the record of a run, and answers with its path. -/
def writeRun (runId command : Text) (options : Options) (result : Value) : Task Text := do
  let directory ← Layout.runsDirectory
  Task.ensureDirectory directory
  let target := directory.child (runId ++ ".json")
  let now ← Layout.now
  Project.writeDocument target (runRecord runId command now options result)
  pure target.toText

/-- The screenshots of a feature's report. -/
def screenshotArtifacts (report : FeatureReport) : List Artifact :=
  report.screenshots.map fun path =>
    { path, mime := "image/png", purpose := "e2e.failure." ++ report.featureId }

/-- The files that a run made. -/
def runArtifacts (runPath : Text) (reports : List FeatureReport) : List Artifact :=
  { path := runPath, mime := "application/json", purpose := "e2e.run" } ::
    reports.flatMap screenshotArtifacts

/-- Where the record of a run is. -/
def pathEntry (runPath : Text) : List (Text × Value) := [("run_path", .text runPath)]

/-- The envelope of a feature's test; `extra` says more about it. -/
def featureEnvelope (command runId runPath : Text) (report : FeatureReport)
    (extra : List (Text × Value)) : Envelope :=
  let basic : List (Text × Value) := [("run_id", .text runId), ("result", report.toValue)]
  let data := basic ++ extra
  if report.passed then .okWith command (Value.record data) (runArtifacts runPath [report])
  else
    let message : Text := match report.error with
      | none | some [] => "Feature " ++ report.featureId ++ " did not pass"
      | some error => error
    .error command ((failureType? report.error).getD .stepFailed) message
      (Value.record (data ++ pathEntry runPath))

/-- The envelope of a batch. -/
def batchEnvelope (runId runPath : Text) (report : BatchReport) : Envelope :=
  let data : List (Text × Value) := ("run_id", .text runId) :: report.fields
  let details := Value.record (data ++ pathEntry runPath)
  match report.error with
  | some error =>
    .error "test" ((failureType? report.error).getD .stepFailed) error details
  | none =>
    if report.failed = 0 then
      .okWith "test" (Value.record data) (runArtifacts runPath report.results)
    else
      .error "test" .stepFailed
        (Text.ofNat report.failed ++ " of " ++ Text.ofNat report.total ++ " features failed")
        details

/-- The options of a run and a feature of the project. -/
def optionsAndFeature (given : Options.Given) (id : Text) : Task (Options × Feature) := do
  let options ← Options.load given
  let feature ← Project.feature id
  pure (options, feature)

/-- The options of a run and all features of the project. -/
def optionsAndFeatures (given : Options.Given) : Task (Options × List Feature) := do
  let options ← Options.load given
  let features ← Project.allFeatures
  pure (options, features)

def runTestOne (given : Options.Given) (id : Text) : Task Nat :=
  prepared (optionsAndFeature given id) (projectError? "test" · []) fun (options, feature) => do
    let runId ← RunId.next
    Task.startClock
    let report ← Run.feature options.gateway feature options
    let runPath ← writeRun runId "test" options report.toValue
    emit (featureEnvelope "test" runId runPath report [])

def runTestAll (given : Options.Given) : Task Nat :=
  prepared (optionsAndFeatures given) (projectError? "test" · []) fun (options, features) => do
    let runId ← RunId.next
    Task.startClock
    let report ← Run.batch options.gateway features options
    let runPath ← writeRun runId "test" options report.toValue
    emit (batchEnvelope runId runPath report)

/-- Refuses a test that does not say what to test. -/
def refuseTest (message : Text) : Task Nat :=
  emit (.error "test" .invalidArgument message (.object []))

def runTest (id : Option Text) (all : Bool) (given : Options.Given) : Task Nat :=
  match id.filter (!·.isEmpty), all with
  | some _, true => refuseTest "Use a feature id or --all, not both"
  | none, false => refuseTest "Pass a feature id, or --all for the batch"
  | some id, false => runTestOne given id
  | none, true => runTestAll given

/-- Marks a feature that passed as accepted. -/
def acceptIfPassed (report : FeatureReport) (id : Text) (notes : Option Text) :
    Task (List (Text × Value)) := do
  if report.passed then
    let (_, tally) ← Project.markDone id (Value.ofText? notes)
    pure [("marked_done", .bool true), ("progress", tallyProgress tally)]
  else pure [("marked_done", .bool false)]

def runVerify (id : Text) (notes : Option Text) (given : Options.Given) : Task Nat :=
  prepared (optionsAndFeature given id) (projectError? "verify" · []) fun (options, feature) => do
    let runId ← RunId.next
    Task.startClock
    let report ← Run.feature options.gateway feature options
    let runPath ← writeRun runId "verify" options report.toValue
    let extra ← acceptIfPassed report id notes
    emit (featureEnvelope "verify" runId runPath report extra)

/-! ## The browser -/

/-- The envelope of a fault in setting up the browser. -/
def browserError? (fault : Fault) : Option Envelope :=
  match fault with
  | .invalid _ => some (.error "browser" .invalidArgument fault.message (.object []))
  | _ => none

/-- The envelope of a browser command. -/
def browserEnvelope (args : List Text) (result : CommandResult) : Envelope :=
  let data := Value.record
    [("args", Value.texts args), ("output", .text result.output),
      ("returncode", Value.ofInt? result.code)]
  if result.success then .ok "browser" data
  else
    let message : Text := match result.error with
      | none | some [] => "agent-browser failed"
      | some error => error
    .error "browser" .backendFailed message data

def runBrowser (args : List Text) (timeout : Option Int) : Task Nat :=
  prepared (Options.load { timeout }) browserError? fun options => do
    let gateway := options.gateway
    if ← gateway.isInstalled then
      Task.startClock
      let result ← gateway.run args true timeout
      emit (browserEnvelope args result)
    else
      let fault := Fault.toolMissing gateway.binary
      emit (.error "browser" .toolMissing fault.message
        (Value.record [("tool", .text gateway.binary)]))

/-! ## Reviews -/

/-- The envelope of a fault in a review. -/
def reviewError? (fault : Fault) : Option Envelope :=
  match fault with
  | .dependencyMissing tool =>
    some (.error "ui-review" .dependencyMissing fault.message (Value.record [("tool", .text tool)]))
  | .openFailed url _ =>
    some (.error "ui-review" .openFailed fault.message (Value.record [("url", .text url)]))
  | .invalid _ => some (.error "ui-review" .invalidArgument fault.message (.object []))
  | _ => none

/-- The envelope of a review. -/
def reviewEnvelope (r : Review.Result) : Envelope :=
  let data := Value.record
    [("output_dir", .text r.directory), ("results_path", .text r.resultsPath),
      ("screenshots", .list (r.screenshots.map Review.Screenshot.toValue))]
  if r.screenshots.isEmpty then
    .error "ui-review" .stepFailed "No screenshots were captured" data
  else .okWith "ui-review" data r.artifacts

/-- Reviews the pages into a directory, given as a text. -/
def review (given : Options.Given) (output : Text) : Task Review.Result := do
  let options ← Options.load given
  let directory ← Task.expandHome (Path.ofText output)
  let directory ← Layout.fromProject directory
  Task.startClock
  Review.run options.gateway options directory

def runReview (given : Options.Given) (output : Text) : Task Nat :=
  answer (review given output) (fun r => pure (reviewEnvelope r)) reviewError?

/-! ## The command line -/

/-- Runs a command. -/
def runCommand : Command → Task Nat
  | .version json => runVersion json
  | .doctor => runDoctor
  | .init name type directory => runInit name type directory
  | .status => runStatus
  | .add description priority category steps => runAdd description priority category steps
  | .next => runNext
  | .done id notes => runDone id notes
  | .commit id message => runCommit id message
  | .list filter priority => runList filter priority
  | .export output => runExport output
  | .test id all includePending baseUrl headless =>
    runTest id all { baseUrl, headless, testAll := includePending }
  | .verify id notes baseUrl headless => runVerify id notes { baseUrl, headless }
  | .browser args timeout => runBrowser args timeout
  | .review baseUrl output headless => runReview { baseUrl, headless } output

/-- The options before the name of a command. -/
def globalGrammar : Arguments.Grammar :=
  { rules := [{ names := ["--log-level"], key := "log-level" }], interspersed := false }

/-- The envelope of a log level that is not known. -/
def logError? (command : Text) (given : Option Text) (fault : Fault) : Option Envelope :=
  match fault with
  | .invalid _ =>
    some (.error command .invalidArgument fault.message
      (Value.record [("log_level", Value.ofText? given)]))
  | _ => none

/-- Runs a command line: the log is set up before the arguments of the command are looked at. -/
def run (args : List Text) : Task Nat :=
  match globalGrammar.read args with
  | none => pure usageCode
  | some parsed =>
    match parsed.operands with
    | [] => pure usageCode
    | name :: rest =>
      match Command.Name.ofText? name with
      | none => pure usageCode
      | some command =>
        let level := parsed.value? "log-level"
        prepared (LogLevel.configure level) (logError? name level) fun _ =>
          match Command.parse? command rest with
          | some c => runCommand c
          | none => pure usageCode

end CommandLine

end Acceptance
