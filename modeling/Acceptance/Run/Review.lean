import Acceptance.Project.Store
import Acceptance.Run.Install
import Acceptance.Run.Options
import Acceptance.Envelope

/-! # Reviews of the user interface

A screenshot of every page, in one session, logged in before the first page that asks for it.
-/

namespace Acceptance

namespace Review

/-! ## Pages -/

/-- A page to be shown. -/
structure Page where
  name : Text
  path : Text
  label : Text
  requiresLogin : Bool := false
  deriving DecidableEq

/-- The pages when the settings name none. -/
def standardPages : List Page :=
  [{ name := "login", path := "/login", label := "登录页" },
    { name := "courses", path := "/courses", label := "课程列表页", requiresLogin := true },
    { name := "selected", path := "/selected", label := "已选课程页", requiresLogin := true },
    { name := "schedule", path := "/schedule", label := "课表页", requiresLogin := true },
    { name := "profile", path := "/profile", label := "个人中心页", requiresLogin := true }]

/-- An entry that is no page; an entry with an integer that is too long cannot even be shown. -/
def pageProblem (v : Value) : Fault :=
  if v.hasLongInt then .invalid .longIntegerWritten else .invalid (.page v)

/-- The page that an entry of the settings describes. -/
def pageOf (v : Value) : Except Fault Page :=
  match v with
  | .object e =>
    match Entries.get? e "name", Entries.get? e "path" with
    | some nameValue, some pathValue => do
      let name ← Settings.shown nameValue
      let path ← Settings.shown pathValue
      let label ← Settings.shown ((Entries.getD e "label").orElse nameValue)
      .ok { name, path, label, requiresLogin := (Entries.getD e "requires_auth").isTruthy }
    | _, _ => .error (pageProblem v)
  | v => .error (pageProblem v)

/-- The pages that the entries describe. -/
def pagesOf : List Value → Except Fault (List Page)
  | [] => .ok []
  | v :: rest => do
    let page ← pageOf v
    let others ← pagesOf rest
    .ok (page :: others)

/-- The pages of the settings, or the usual ones. -/
def configuredPages : Task (List Page) := do
  match ← Settings.value? ["ui_review", "pages"] with
  | some (.list (v :: rest)) => Task.ofExcept (pagesOf (v :: rest))
  | _ => pure standardPages

/-! ## Screenshots -/

/-- A screenshot that was taken. -/
structure Screenshot where
  name : Text
  label : Text
  path : Text
  deriving DecidableEq

def Screenshot.toValue (s : Screenshot) : Value :=
  Value.record [("name", .text s.name), ("label", .text s.label), ("path", .text s.path)]

/-- How long a page settles when the settings do not say. -/
def standardSettle : Int := 2000

/-- Opens the login page and logs in. -/
def logIn (p : Performer) (settle : Int) : Task Unit := do
  let _ ← p.openUrl (p.resolveUrl "/login")
  Task.pause settle
  let _ ← p.login
  Task.pause settle

/-- Where the screenshot of a page goes. -/
def target (directory : Path) (page : Page) : Path := directory.child (page.name ++ ".png")

/-- Opens a page and takes its screenshot. A file from an earlier review is removed first, so that
it does not pass for this one. -/
def showPage (p : Performer) (directory : Path) (settle : Int) (page : Page) :
    Task (Option Screenshot) := do
  let _ ← p.openUrl (p.resolveUrl page.path)
  Task.pause settle
  let target := target directory page
  Task.removeFile target
  if ← p.screenshot target.toText true then
    if ← Task.pathExists target then
      pure (some { name := page.name, label := page.label, path := target.toText })
    else pure none
  else pure none

/-- Shows pages one after the other. -/
def showAll (p : Performer) (directory : Path) (settle : Int) (loggedIn : Bool) :
    List Page → Task (List Screenshot)
  | [] => pure []
  | page :: rest => do
    let mustLogIn := page.requiresLogin && !loggedIn
    if mustLogIn then logIn p settle else pure ()
    let shot ← showPage p directory settle page
    let others ← showAll p directory settle (loggedIn || mustLogIn) rest
    pure (shot.toList ++ others)

/-- Takes screenshots of pages into a directory. -/
def capture (g : Gateway) (options : Options) (directory : Path) (pages : List Page)
    (settle : Int) : Task (List Screenshot) := do
  Task.ensureDirectory directory
  Session.enter .closed
  (options.session g).opened options.baseUrl options.headless
    (showAll (options.performer g) directory settle false pages)

/-! ## Reviews -/

/-- The file that lists the screenshots. -/
def resultsFile : Text := "ui-review-results.json"

structure Result where
  directory : Text
  screenshots : List Screenshot
  resultsPath : Text
  deriving DecidableEq

/-- The files that a review made. -/
def Result.artifacts (r : Result) : List Artifact :=
  (r.screenshots.map fun s =>
    { path := s.path, mime := "image/png", purpose := "ui_review." ++ s.name }) ++
    [{ path := r.resultsPath, mime := "application/json", purpose := "ui_review.results" }]

/-- The content of the file that lists the screenshots. -/
def summary (now : Instant) (options : Options) (screenshots : List Screenshot) : Value :=
  Value.record
    [("generated_at", now.toText), ("base_url", .text options.baseUrl),
      ("screenshots", .list (screenshots.map Screenshot.toValue))]

/-- Reviews the pages of the settings. -/
def run (g : Gateway) (options : Options) (directory : Path) : Task Result := do
  if ← Install.ensure g then
    let pages ← configuredPages
    let settle ← Settings.int ["ui_review", "page_settle_ms"] standardSettle
    let screenshots ← capture g options directory pages settle
    let resultsPath := directory.child resultsFile
    let now ← Layout.now
    Project.writeDocument resultsPath (summary now options screenshots)
    pure { directory := directory.toText, screenshots, resultsPath := resultsPath.toText }
  else Task.fail (.dependencyMissing g.binary)

end Review

end Acceptance
