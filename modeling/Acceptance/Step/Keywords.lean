import Acceptance.Text.Blank
import Acceptance.Text.LowerCase

/-! # The keywords of steps

A step is one line of plain language, Chinese or English. Its keywords say what kind of action it
asks for.
-/

namespace Acceptance

namespace Step

/-! ## Kinds -/

/-- What a step asks for. -/
inductive Kind where
  | navigate
  | click
  | fill
  | verify
  | login
  | wait
  /-- No keyword: nothing is done. -/
  | other
  deriving DecidableEq

def Kind.name : Kind → Text
  | .navigate => "navigate"
  | .click => "click"
  | .fill => "fill"
  | .verify => "verify"
  | .login => "login"
  | .wait => "wait"
  | .other => "default"

/-! ## The lists -/

def navigateVerbs : List Text := ["打开", "进入", "访问", "前往", "open", "visit", "go to", "navigate"]
def clickVerbs : List Text := ["点击", "单击", "click"]
def fillVerbs : List Text := ["输入", "填写", "填入", "input", "fill", "type"]
def verifyVerbs : List Text := ["验证", "检查", "确认", "verify", "check", "confirm"]
def loginVerbs : List Text := ["登录", "login", "log in", "sign in"]
def waitVerbs : List Text := ["等待", "wait"]

/-- The groups in the order in which they are tried: a step that names two actions is of the kind
that comes first here. -/
def groups : List (Kind × List Text) :=
  [(.navigate, navigateVerbs), (.click, clickVerbs), (.fill, fillVerbs), (.verify, verifyVerbs),
    (.login, loginVerbs), (.wait, waitVerbs)]

def studentIdTokens : List Text := ["学号", "student id", "student-id"]
def passwordTokens : List Text := ["密码", "password"]

/-- Words between a verify verb and what is looked for. -/
def verifyFillers : List Text :=
  ["页面显示", "页面包含", "页面上有", "显示", "包含", "出现", "存在", "page shows", "page contains",
    "shows", "contains"]

/-- Words for the kind of element that a click step may end with. -/
def elementSuffixes : List Text := ["按钮", "链接", "button", "link"]

/-- Quotes and brackets of all kinds. -/
def quoteMarks : Text := "\"'\x60“”‘’「」『』《》【】"

/-! ## Classification -/

/-- Does the text, in lower case, hold one of the words? -/
def mentions (t : Text) (words : List Text) : Bool :=
  let lowered := Text.lower t
  words.any (Text.has lowered)

/-- The kind of the first group that the step mentions. -/
def classify (step : Text) : Kind :=
  match groups.find? fun g => mentions step g.2 with
  | some (kind, _) => kind
  | none => .other

/-- Does a fill step ask for both student id and password? -/
def isCredentials (step : Text) : Bool :=
  mentions step studentIdTokens && mentions step passwordTokens

/-! ## Cutting -/

/-- The longest of the items that fit; of equally long ones the first. -/
def longest? {α : Type} (length : α → Nat) (fits : α → Bool) : List α → Option α
  | [] => none
  | a :: rest =>
    let later := longest? length fits rest
    if fits a then
      match later with
      | some b => if length a < length b then some b else some a
      | none => some a
    else later

/-- The text without quotes of any kind, trimmed. -/
def withoutQuotes (t : Text) : Text := Text.trim (t.filter fun c => !quoteMarks.contains c)

/-- The trimmed text without the longest of the verbs that its lower case starts with, trimmed
again. -/
def withoutVerb (t : Text) (verbs : List Text) : Text :=
  let t := Text.trim t
  match longest? List.length (Text.startsWith (Text.lower t)) verbs with
  | some verb => Text.trim (t.drop verb.length)
  | none => t

end Step

end Acceptance
