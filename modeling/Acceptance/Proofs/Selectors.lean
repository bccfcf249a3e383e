import Acceptance.Browser.Performer

/-! # Selectors

The second way to fill a field is by its name, which stands in the strings of a selector. Whatever is
in the name, it does not end a string early or leave it open: a reader of selectors finds the name in
both strings, and between them what is in every selector. -/

namespace Acceptance

namespace Selector

/-! ## Reading -/

/-- A part of a selector. -/
inductive Piece where
  | plain (t : Text)
  /-- What a string says, without its quotes and marks. -/
  | string (t : Text)
  deriving DecidableEq

/-- The pieces with one more code point at the start of the first. -/
def Piece.grow (c : CodePoint) : List Piece → List Piece
  | .plain t :: more => .plain (c :: t) :: more
  | .string t :: more => .string (c :: t) :: more
  | [] => []

/-- Where a reader of a selector is. -/
inductive Position where
  | outside
  | inString
  /-- Behind a backslash in a string. -/
  | behindMark

/-- The pieces from here on. A quote begins or ends a string, and a backslash in a string makes the
next code point stand for itself. A string that is not closed is refused. -/
def piecesFrom : Position → Text → Option (List Piece)
  | .outside, [] => some [.plain []]
  | .inString, [] => none
  | .behindMark, [] => none
  | .outside, c :: rest =>
    if c = '"' then (piecesFrom .inString rest).map (.plain [] :: ·)
    else (piecesFrom .outside rest).map (Piece.grow c)
  | .inString, c :: rest =>
    if c = '"' then (piecesFrom .outside rest).map (.string [] :: ·)
    else if c = '\\' then piecesFrom .behindMark rest
    else (piecesFrom .inString rest).map (Piece.grow c)
  | .behindMark, c :: rest => (piecesFrom .inString rest).map (Piece.grow c)

/-- The pieces of a selector. -/
def pieces (t : Text) : Option (List Piece) := piecesFrom .outside t

/-! ## Strings -/

variable {t rest : Text}

theorem piecesFrom_escaped (c : CodePoint) (rest : Text) :
    piecesFrom .inString (Attempt.escaped c ++ rest) =
      (piecesFrom .inString rest).map (Piece.grow c) := by
  unfold Attempt.escaped
  split
  next =>
    -- The backslash is read, and the code point behind it stands for itself.
    show piecesFrom .inString (('\\' : CodePoint) :: c :: rest) = _
    rw [piecesFrom, if_neg (by decide), if_pos rfl, piecesFrom]
  next hplain =>
    obtain ⟨hmark, hquote⟩ : ¬ c = '\\' ∧ ¬ c = '"' := by simpa using hplain
    rw [List.singleton_append, piecesFrom, if_neg hquote, if_neg hmark]

/-- A text between quotes is read as the string that it is. -/
theorem piecesFrom_selectorText (t rest : Text) :
    piecesFrom .inString (Attempt.selectorText t ++ ('"' : CodePoint) :: rest) =
      (piecesFrom .outside rest).map (.string t :: ·) := by
  induction t with
  | nil => exact if_pos rfl
  | cons c t ih =>
    have hstart : Attempt.selectorText (c :: t) = Attempt.escaped c ++ Attempt.selectorText t :=
      List.flatMap_cons
    rw [hstart, List.append_assoc, piecesFrom_escaped, ih, Option.map_map]
    rfl

/-- What has no quote in it is a plain piece up to the next quote. -/
theorem piecesFrom_plain (h : ('"' : CodePoint) ∉ t) (rest : Text) :
    piecesFrom .outside (t ++ ('"' : CodePoint) :: rest) =
      (piecesFrom .inString rest).map (.plain t :: ·) := by
  induction t with
  | nil => exact if_pos rfl
  | cons c t ih =>
    rw [List.mem_cons, not_or] at h
    rw [List.cons_append, piecesFrom, if_neg (Ne.symm h.1), ih h.2, Option.map_map]
    rfl

theorem pieces_fieldSelector (field : Text) :
    pieces (Attempt.fieldSelector field) =
      some [.plain "input[name*=", .string field, .plain "], textarea[name*=", .string field,
        .plain "]"] := by
  have hselector : Attempt.fieldSelector field =
      Text.of "input[name*=" ++ ('"' : CodePoint) :: (Attempt.selectorText field ++
        ('"' : CodePoint) :: (Text.of "], textarea[name*=" ++ ('"' : CodePoint) ::
          (Attempt.selectorText field ++ ('"' : CodePoint) :: Text.of "]"))) := by
    unfold Attempt.fieldSelector
    simp [Text.of]
  rw [hselector, pieces, piecesFrom_plain (by decide), piecesFrom_selectorText,
    piecesFrom_plain (by decide), piecesFrom_selectorText]
  rfl

end Selector

namespace Performer

/-- The second way to fill a field is one selector for each field, and the value in an argument of
its own. The selector is read as inputs and text areas whose name holds the field, so different
fields have different selectors. -/
theorem fillAttempts_selector (p : Performer) : ∃ selector : Text → Text,
    (∀ field value, (p.fillAttempts field value)[1]? =
      some { args := ["fill", selector field, value], timeout := p.timeouts.action }) ∧
    (∀ field, Selector.pieces (selector field) =
      some [.plain "input[name*=", .string field, .plain "], textarea[name*=", .string field,
        .plain "]"]) ∧
    Function.Injective selector := by
  refine ⟨Attempt.fieldSelector, fun _ _ => rfl, Selector.pieces_fieldSelector,
    fun field other hsame => ?_⟩
  have hpieces := congrArg Selector.pieces hsame
  rw [Selector.pieces_fieldSelector, Selector.pieces_fieldSelector] at hpieces
  simpa using hpieces

/-- A quote and a backslash in the name of a field stay inside of the string. -/
example : Selector.pieces (Attempt.fieldSelector "a\"]\\") =
    some [.plain "input[name*=", .string "a\"]\\", .plain "], textarea[name*=",
      .string "a\"]\\", .plain "]"] := by decide

end Performer

end Acceptance
