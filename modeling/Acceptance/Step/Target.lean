import Acceptance.Step.Keywords

/-! # What a step is about

The page that a navigate step opens, the element that a click step names, and the text that a verify
step looks for.
-/

namespace Acceptance

/-! ## Routes -/

/-- Labels of pages and their paths, in the order of the table. -/
abbrev Routes := List (Text × Text)

namespace Routes

/-- The table with one more route; a label that is already there keeps its place. -/
def put : Routes → Text → Text → Routes
  | [], label, path => [(label, path)]
  | r :: rest, label, path =>
    if r.1 = label then (label, path) :: rest else r :: put rest label path

/-- The table of the pairs, a later pair replacing the path of an earlier one. -/
def ofPairs (pairs : List (Text × Text)) : Routes := pairs.foldl (fun rs p => rs.put p.1 p.2) []

def standard : Routes :=
  [("登录页", "/login"), ("登录页面", "/login"), ("课程列表页", "/courses"), ("课程列表", "/courses"),
    ("已选课程页", "/selected"), ("已选课程", "/selected"), ("课表页", "/schedule"),
    ("课表", "/schedule"), ("个人中心页", "/profile"), ("个人中心", "/profile"), ("首页", "/"),
    ("login page", "/login"), ("course list", "/courses"), ("selected courses", "/selected"),
    ("schedule", "/schedule"), ("profile", "/profile"), ("home page", "/")]

/-- The path of the longest label that the text starts with, whatever the case. -/
def resolve (routes : Routes) (t : Text) : Option Text :=
  let lowered := Text.lower t
  (Step.longest? (·.1.length) (fun r => Text.startsWith lowered (Text.lower r.1)) routes).map (·.2)

end Routes

namespace Step

/-! ## Addresses -/

/-- A character that a scheme may hold after its first letter. -/
def isSchemeChar (c : CodePoint) : Bool :=
  c.isAsciiLetter || c.isAsciiDigit || c = '+' || c = '.' || c = '-'

/-- Does the text start with a scheme, a colon and two slashes? -/
def isAbsoluteUrl (t : Text) : Bool :=
  match t with
  | [] => false
  | c :: rest => c.isAsciiLetter && Text.startsWith (rest.dropWhile isSchemeChar) "://"

/-! ## Targets -/

/-- The step without its navigate or click verb and without quotes. -/
def cleanTarget (step : Text) : Text :=
  withoutQuotes (withoutVerb step (navigateVerbs ++ clickVerbs))

/-- The address or path that a navigate step opens: the path of a known page, or else the text as it
is. -/
def navigateTarget (step : Text) (routes : Routes) : Text :=
  let target := cleanTarget step
  if isAbsoluteUrl target then target
  else
    match routes.resolve target with
    | some path => if path.isEmpty then target else path
    | none => target

/-- The name of the element that a click step names, without a word for its kind at the end. -/
def clickTarget (step : Text) : Text :=
  let target := cleanTarget step
  let lowered := Text.lower target
  match elementSuffixes.find? fun suffix =>
      Text.endsWith lowered suffix && suffix.length < target.length with
  | some suffix => Text.trim (Text.dropEnd target suffix.length)
  | none => target

/-- The text that a verify step looks for; empty when it names none. -/
def verifyTarget (step : Text) : Text :=
  withoutQuotes (withoutVerb (withoutVerb step verifyVerbs) verifyFillers)

end Step

end Acceptance
