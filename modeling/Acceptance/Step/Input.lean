import Acceptance.Step.Keywords

/-! # What a fill step enters, and where

Three phrasings are known, each of which is looked for at its first place in the step. A field or a
value is a run without blanks; quotes around it are left out. A step that says neither takes the
data of its feature.
-/

namespace Acceptance

/-- A value and the field that it goes into. -/
structure Input where
  field : Text
  value : Text
  deriving DecidableEq

namespace Step

/-! ## Pieces -/

/-- A text without the blanks in front. -/
def afterBlanks (t : Text) : Text := t.dropWhile CodePoint.isBlank

/-- What follows at least one blank. -/
def afterSomeBlanks (t : Text) : Option Text :=
  match t with
  | [] => none
  | c :: _ => if c.isBlank then some (afterBlanks t) else none

/-- The run without blanks in front, if there is one, and what follows it. -/
def run? (t : Text) : Option (Text × Text) :=
  let (run, rest) := t.span (!·.isBlank)
  if run.isEmpty then none else some (run, rest)

/-- What follows the first of the words that stands in front. -/
def afterWord? (words : List Text) (t : Text) : Option Text :=
  (words.find? (Text.startsWith t)).map fun word => t.drop word.length

/-- The first result that a search finds at a place of the text. -/
def firstPlace {α : Type} (search : Text → Option α) : Text → Option α
  | [] => search []
  | c :: rest =>
    match search (c :: rest) with
    | some found => some found
    | none => firstPlace search rest

/-! ## In a field, enter a value -/

/-- The verbs that stand between a field and its value. -/
def entryVerbs : List Text := ["输入", "填写", "填入"]

/-- Words for the inside of a field. -/
def containers : List Text := ["中", "里", "框中", "框里"]

/-- The value after an entry verb. -/
def valueAfterVerb? (t : Text) : Option Text := do
  let rest ← afterWord? entryVerbs (afterBlanks t)
  let (value, _) ← run? (afterBlanks rest)
  some value

/-- The value after the field: a word for the inside may come before the verb. -/
def valueAfterField? (t : Text) : Option Text :=
  let t := afterBlanks t
  let inside := containers.findSome? fun word => (afterWord? [word] t).bind valueAfterVerb?
  inside.or (valueAfterVerb? t)

/-- The shortest field after which a value follows; `taken` is what it has so far, backwards. -/
def shortestField? (taken : Text) : Text → Option Input
  | [] => none
  | c :: rest =>
    if c.isBlank then none
    else
      match valueAfterField? rest with
      | some value => some { field := (c :: taken).reverse, value }
      | none => shortestField? (c :: taken) rest

/-- `在`, a field, a verb and a value. -/
def placedInput? (t : Text) : Option Input := do
  let rest ← afterWord? ["在"] t
  shortestField? [] (afterBlanks rest)

/-! ## Enter field and value -/

/-- A verb, a field, blanks and a value. -/
def listedInput? (t : Text) : Option Input := do
  let rest ← afterWord? entryVerbs t
  let (field, rest) ← run? (afterBlanks rest)
  let (value, _) ← run? (← afterSomeBlanks rest)
  some { field, value }

/-! ## Fill in a field with a value -/

/-- Does a letter stand for the small letter `letter`, in any case? The dotted and dotless i and the
long s count. -/
def matchesLetter (letter c : CodePoint) : Bool :=
  c = letter || c.lower = letter ||
    (letter = 'i' && (c.val = 0x130 || c.val = 0x131)) || (letter = 's' && c.val = 0x17F)

/-- What follows a word in any case. -/
def afterAnyCase? : Text → Text → Option Text
  | [], t => some t
  | _ :: _, [] => none
  | letter :: word, c :: rest => if matchesLetter letter c then afterAnyCase? word rest else none

/-- The value after the field, a word such as `with` between them or not. -/
def englishValue? (t : Text) : Option Text :=
  let connected (word : Text) : Option Text := do
    let rest ← afterAnyCase? word t
    (run? (← afterSomeBlanks rest)).map (·.1)
  (connected "with").or ((connected "as").or ((run? t).map (·.1)))

/-- Field and value after a keyword. -/
def englishFieldAndValue? (t : Text) : Option Input := do
  let (field, rest) ← run? (← afterSomeBlanks t)
  let value ← englishValue? (← afterSomeBlanks rest)
  some { field, value }

/-- A keyword, a field and a value. `fill in` is tried before `fill`. -/
def englishInput? (t : Text) : Option Input :=
  let after (word : Text) := (afterAnyCase? word t).bind englishFieldAndValue?
  let fillIn : Option Input := do
    let rest ← afterAnyCase? "fill" t
    let rest ← afterAnyCase? "in" (← afterSomeBlanks rest)
    englishFieldAndValue? rest
  (after "input").or (fillIn.or ((after "fill").or (after "type")))

/-! ## The input of a step -/

/-- Field and value without quotes, if something of both is left. -/
def cleaned? (input : Input) : Option Input :=
  let field := withoutQuotes input.field
  let value := withoutQuotes input.value
  if field.isEmpty || value.isEmpty then none else some { field, value }

/-- The input when neither step nor feature says one. -/
def fallbackInput : Input := { field := "input", value := "test" }

/-- The input of a fill step; `data` is the test data of its feature. -/
def input (step : Text) (data : Option Input) : Input :=
  let said := [placedInput?, listedInput?, englishInput?].findSome? fun search =>
    (firstPlace search step).bind cleaned?
  (said.or data).getD fallbackInput

end Step

end Acceptance
