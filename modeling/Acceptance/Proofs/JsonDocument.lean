import Mathlib.Data.List.Nodup
import Acceptance.Proofs.JsonNumber
import Acceptance.Proofs.JsonText
import Acceptance.Proofs.Utf8

/-! # JSON documents

What is written is read back, with the entries of every object in the order of their keys. -/

namespace Acceptance

theorem Key.exists_text {k : Key} (h : k.isText = true) : ∃ t, k = .text t := by
  cases k with
  | text t => exact ⟨t, rfl⟩
  | _ => exact absurd h Bool.false_ne_true

namespace Json

/-! ## Values that documents keep -/

/-- Keys that are told apart when they are read back: texts, and no two the same. -/
structure TextKeys (entries : Entries) : Prop where
  texts : ∀ e ∈ entries, e.1.isText = true
  encodes : ∀ e ∈ entries, Text.Encodes (keyName e.1)
  distinct : (entries.map (·.1)).Nodup

/-- A double that its text gives back: it is finite, or there is a word for it. -/
def IsSpelled (x : Binary64) : Prop :=
  x.isFinite = true ∨ x = Binary64.nan ∨ ∃ negative, x = Binary64.infinity negative

mutual

/-- A value that a file keeps: its texts can be encoded, its doubles are given back, its keys are
texts, and at most `depth` of its lists and objects lie in one another. -/
def Kept : Nat → Value → Prop
  | depth, .list items => 0 < depth ∧ KeptItems (depth - 1) items
  | depth, .object entries => 0 < depth ∧ TextKeys entries ∧ KeptUnder (depth - 1) entries
  | _, .real x => IsSpelled x
  | _, .text t => Text.Encodes t
  | _, _ => True

def KeptItems : Nat → List Value → Prop
  | _, [] => True
  | depth, v :: rest => Kept depth v ∧ KeptItems depth rest

def KeptUnder : Nat → List (Key × Value) → Prop
  | _, [] => True
  | depth, (_, v) :: rest => Kept depth v ∧ KeptUnder depth rest

end

mutual

/-- A value that is read from its document: its doubles are given back, and at most `depth` of its
lists and objects lie in one another. -/
def Legible : Nat → Value → Prop
  | depth, .list items => 0 < depth ∧ LegibleItems (depth - 1) items
  | depth, .object entries => 0 < depth ∧ LegibleUnder (depth - 1) entries
  | _, .real x => IsSpelled x
  | _, _ => True

def LegibleItems : Nat → List Value → Prop
  | _, [] => True
  | depth, v :: rest => Legible depth v ∧ LegibleItems depth rest

def LegibleUnder : Nat → List (Key × Value) → Prop
  | _, [] => True
  | depth, (_, v) :: rest => Legible depth v ∧ LegibleUnder depth rest

end

mutual

/-- The value that a document of the value says: its keys are texts, and of two entries with one
name the first gives the place and the last the value. -/
def reread : Value → Value
  | .list items => .list (rereadItems items)
  | .object entries => .object (entriesOf (rereadUnder entries))
  | v => v

def rereadItems : List Value → List Value
  | [] => []
  | v :: rest => reread v :: rereadItems rest

def rereadUnder : List (Key × Value) → List (Text × Value)
  | [] => []
  | (k, v) :: rest => (keyName k, reread v) :: rereadUnder rest

end

mutual

theorem legible_of_kept : ∀ (v : Value) {depth : Nat}, Kept depth v → Legible depth v
  | .null, _, _ | .bool _, _, _ | .int _, _, _ | .text _, _, _ | .moment _, _, _ => trivial
  | .real _, _, h => h
  | .list items, _, ⟨hdepth, hitems⟩ => ⟨hdepth, legibleItems_of_kept items hitems⟩
  | .object entries, _, ⟨hdepth, _, hunder⟩ => ⟨hdepth, legibleUnder_of_kept entries hunder⟩

theorem legibleItems_of_kept : ∀ (items : List Value) {depth : Nat}, KeptItems depth items →
    LegibleItems depth items
  | [], _, _ => trivial
  | v :: rest, _, ⟨hv, hrest⟩ => ⟨legible_of_kept v hv, legibleItems_of_kept rest hrest⟩

theorem legibleUnder_of_kept : ∀ (entries : List (Key × Value)) {depth : Nat},
    KeptUnder depth entries → LegibleUnder depth entries
  | [], _, _ => trivial
  | (_, v) :: rest, _, ⟨hv, hrest⟩ => ⟨legible_of_kept v hv, legibleUnder_of_kept rest hrest⟩

end

mutual

/-- How many values and separators are read for a value. -/
def cost : Value → Nat
  | .list items => costItems items + 1
  | .object entries => costUnder entries + 1
  | _ => 1

def costItems : List Value → Nat
  | [] => 0
  | v :: rest => cost v + 1 + costItems rest

def costUnder : List (Key × Value) → Nat
  | [] => 0
  | (_, v) :: rest => cost v + 1 + costUnder rest

end

/-! ## What a number starts with -/

theorem readWhole_head {t : Text} {p : Text × Text} (h : readWhole t = some p) :
    ∃ c rest, t = c :: rest ∧ c.isAsciiDigit = true := by
  cases t with
  | nil => exact absurd h (by simp [readWhole])
  | cons c rest =>
    refine ⟨c, rest, rfl, ?_⟩
    simp only [readWhole] at h
    split at h
    next hzero => rw [hzero]; rfl
    next =>
      split at h
      next hdigit => exact hdigit
      next => exact absurd h (by simp)

theorem readNumber_head {s : Text} {p : Value × Text} (h : readNumber s = .ok p) :
    (∃ c rest, s = c :: rest ∧ c.isAsciiDigit = true) ∨
      ∃ c rest, s = ('-' : CodePoint) :: c :: rest ∧ c.isAsciiDigit = true := by
  cases s with
  | nil => exact absurd h (by simp [readNumber, readWhole, fail])
  | cons c rest =>
    by_cases hminus : c = '-'
    · subst hminus
      right
      cases hwhole : readWhole rest with
      | none => exact absurd h (by simp [readNumber, hwhole, fail])
      | some q =>
        obtain ⟨d, more, hrest, hd⟩ := readWhole_head hwhole
        exact ⟨d, more, by rw [hrest], hd⟩
    · left
      cases hwhole : readWhole (c :: rest) with
      | none => exact absurd h (by simp [readNumber, hminus, hwhole, fail])
      | some q =>
        obtain ⟨d, more, hrest, hd⟩ := readWhole_head hwhole
        exact ⟨d, more, hrest, hd⟩

/-- No word starts like a number. -/
theorem readWord_digit {c : CodePoint} (h : c.isAsciiDigit = true) (rest : Text) :
    readWord (c :: rest) = none := by
  have hne : ∀ d : CodePoint, d.isAsciiDigit = false → d ≠ c := fun d hd => (digit_ne h hd).symm
  simp [readWord, words, Text.startsWith, Text.of, hne _ (show CodePoint.isAsciiDigit 'n' = false from rfl),
    hne _ (show CodePoint.isAsciiDigit 't' = false from rfl),
    hne _ (show CodePoint.isAsciiDigit 'f' = false from rfl),
    hne _ (show CodePoint.isAsciiDigit 'N' = false from rfl),
    hne _ (show CodePoint.isAsciiDigit 'I' = false from rfl),
    hne _ (show CodePoint.isAsciiDigit '-' = false from rfl)]

theorem readWord_minus {c : CodePoint} (h : c.isAsciiDigit = true) (rest : Text) :
    readWord (('-' : CodePoint) :: c :: rest) = none := by
  have hne : CodePoint.ofChar 'I' ≠ c := (digit_ne h rfl).symm
  have hminus : ∀ d : Char, d ≠ '-' → CodePoint.ofChar d ≠ CodePoint.ofChar '-' := by
    intro d hd heq
    apply hd
    have := congrArg CodePoint.val heq
    exact Char.ext (UInt32.toNat_inj.mp this)
  simp [readWord, words, Text.startsWith, Text.of, hne, hminus]

theorem readValue_number {s : Text} {p : Value × Text} (h : readNumber s = .ok p)
    (fuel depth : Nat) : readValue (fuel + 1) depth s = .ok p := by
  have hspecial : ∀ {c : CodePoint}, c.isAsciiDigit = true ∨ c = '-' →
      c ≠ '"' ∧ c ≠ '\x7b' ∧ c ≠ '[' := by
    rintro c (hc | rfl)
    · exact ⟨digit_ne hc rfl, digit_ne hc rfl, digit_ne hc rfl⟩
    · decide
  rcases readNumber_head h with ⟨c, rest, rfl, hc⟩ | ⟨c, rest, rfl, hc⟩
  · obtain ⟨hquote, hbrace, hbracket⟩ := hspecial (Or.inl hc)
    unfold readValue
    simp only [if_neg hquote, if_neg hbrace, if_neg hbracket, readWord_digit hc, h]
  · obtain ⟨hquote, hbrace, hbracket⟩ := hspecial (c := '-') (Or.inr rfl)
    unfold readValue
    simp only [if_neg hquote, if_neg hbrace, if_neg hbracket, readWord_minus hc, h]

/-! ## Blanks -/

theorem skipBlanks_newLine (level : Nat) (t : Text) :
    skipBlanks (newLine level ++ t) = skipBlanks t := by
  have hspaces : ∀ n, skipBlanks (List.replicate n (' ' : CodePoint) ++ t) = skipBlanks t := by
    intro n
    induction n with
    | zero => rfl
    | succ n ih =>
      rw [List.replicate_succ, List.cons_append, skipBlanks,
        List.dropWhile_cons_of_pos (by decide)]
      exact ih
  rw [newLine, List.cons_append, skipBlanks, List.dropWhile_cons_of_pos (by decide)]
  exact hspaces _

theorem skipBlanks_cons {c : CodePoint} (h : isBlank c = false) (rest : Text) :
    skipBlanks (c :: rest) = c :: rest := by
  rw [skipBlanks, List.dropWhile_cons_of_neg (by simp [h])]

theorem endsNumber_cons {c : CodePoint} (h : c.isAsciiDigit = false) (hpoint : c ≠ '.')
    (hsmall : c ≠ 'e') (hcapital : c ≠ 'E') (rest : Text) : EndsNumber (c :: rest) := by
  intro d hd
  rw [List.head?_cons, Option.some.injEq] at hd
  subst hd
  exact ⟨h, hpoint, hsmall, hcapital⟩

theorem endsNumber_newLine (level : Nat) (t : Text) : EndsNumber (newLine level ++ t) :=
  endsNumber_cons (by decide) (by decide) (by decide) (by decide) _

theorem endsNumber_comma (t : Text) : EndsNumber ("," ++ t) :=
  endsNumber_cons (by decide) (by decide) (by decide) (by decide) _

/-! ## Values -/

/-- How a value starts: in ASCII, with no blank, and not as a list ends. -/
def StartsValue (t : Text) : Prop :=
  ∃ c rest, t = c :: rest ∧ isBlank c = false ∧ c ≠ ']' ∧ c.val < 0x80

theorem startsValue_of_readNumber {s : Text} {p : Value × Text} (h : readNumber s = .ok p) :
    StartsValue s := by
  rcases readNumber_head h with ⟨c, rest, rfl, hc⟩ | ⟨c, rest, rfl, hc⟩
  · have hne : ∀ d : CodePoint, d.isAsciiDigit = false → c ≠ d := fun d hd => digit_ne hc hd
    have hascii : c.val < 0x80 := by
      simp only [CodePoint.isAsciiDigit, Bool.and_eq_true, decide_eq_true_eq] at hc
      omega
    refine ⟨c, rest, rfl, ?_, hne _ rfl, hascii⟩
    simp [isBlank, hne (' ' : CodePoint) rfl, hne ('\t' : CodePoint) rfl, hne ('\n' : CodePoint) rfl,
      hne ('\r' : CodePoint) rfl]
  · exact ⟨'-', c :: rest, rfl, by decide, by decide, by decide⟩

theorem realText_of_finite {x : Binary64} (h : x.isFinite = true) : realText x = x.toText := by
  have hnan : x.isNaN = false := by simp_all [Binary64.isFinite, Binary64.isNaN]
  have hinfinite : x.isInfinite = false := by simp_all [Binary64.isFinite, Binary64.isInfinite]
  simp [realText, hnan, hinfinite]

/-- A double is read back from its text. -/
theorem readValue_real {x : Binary64} (h : IsSpelled x) {after : Text} (hafter : EndsNumber after)
    (fuel depth : Nat) :
    readValue (fuel + 1) depth (realText x ++ after) = .ok (.real x, after) := by
  rcases h with hfinite | rfl | ⟨negative, rfl⟩
  · rw [realText_of_finite hfinite]
    exact readValue_number (readNumber_toText hfinite hafter) fuel depth
  · rfl
  · cases negative <;> rfl

theorem startsValue_realText {x : Binary64} (h : IsSpelled x) {after : Text}
    (hafter : EndsNumber after) : StartsValue (realText x ++ after) := by
  rcases h with hfinite | rfl | ⟨negative, rfl⟩
  · rw [realText_of_finite hfinite]
    exact startsValue_of_readNumber (readNumber_toText hfinite hafter)
  · exact ⟨'N', _, rfl, by decide, by decide, by decide⟩
  · cases negative
    · exact ⟨'I', _, rfl, by decide, by decide, by decide⟩
    · exact ⟨'-', _, rfl, by decide, by decide, by decide⟩

theorem startsValue_layout {depth : Nat} {v : Value} (hlegible : Legible depth v)
    (hwritable : unwritable? v = none) (level : Nat) {after : Text} (hafter : EndsNumber after) :
    StartsValue (layout level v after) := by
  cases v with
  | null => exact ⟨'n', _, rfl, by decide, by decide, by decide⟩
  | bool b =>
    cases b
    · exact ⟨'f', _, rfl, by decide, by decide, by decide⟩
    · exact ⟨'t', _, rfl, by decide, by decide, by decide⟩
  | int n =>
    have hshort : Value.isLongInt n = false := by simpa [unwritable?] using hwritable
    exact startsValue_of_readNumber (readNumber_ofInt hshort hafter)
  | real x => exact startsValue_realText hlegible hafter
  | text t => exact ⟨'"', _, rfl, by decide, by decide, by decide⟩
  | moment m => exact absurd hwritable (by simp [unwritable?])
  | list items =>
    unfold layout
    split <;> exact ⟨'[', _, rfl, by decide, by decide, by decide⟩
  | object entries =>
    unfold layout
    split <;> exact ⟨'\x7b', _, rfl, by decide, by decide, by decide⟩

/-! ## Reading what was written

By induction on the fuel: each reader hands on less than it was given. -/

def ReadsValues (fuel : Nat) : Prop :=
  ∀ (v : Value) (depth level : Nat) (after : Text), Legible depth v → unwritable? v = none →
    cost v ≤ fuel → EndsNumber after →
    readValue fuel depth (layout level v after) = .ok (reread v, after)

def ReadsItems (fuel : Nat) : Prop :=
  ∀ (items : List Value) (depth level outer : Nat) (after : Text), items ≠ [] →
    LegibleItems depth items → unwritableIn? items = none → costItems items ≤ fuel →
    readItems fuel depth (skipBlanks (layoutItems level items (newLine outer ++ ("]" ++ after)))) =
      .ok (rereadItems items, after)

def ReadsEntries (fuel : Nat) : Prop :=
  ∀ (entries : Entries) (depth level outer : Nat) (after : Text), entries ≠ [] →
    LegibleUnder depth entries → unwritableUnder? entries = none → costUnder entries ≤ fuel →
    readEntries fuel depth
        (skipBlanks (layoutEntries level entries (newLine outer ++ ("\x7d" ++ after)))) =
      .ok (rereadUnder entries, after)

theorem unwritableIn?_cons {v : Value} {rest : List Value}
    (h : unwritableIn? (v :: rest) = none) : unwritable? v = none ∧ unwritableIn? rest = none := by
  simpa [unwritableIn?] using h

theorem unwritableUnder?_cons {k : Key} {v : Value} {rest : Entries}
    (h : unwritableUnder? ((k, v) :: rest) = none) :
    unwritable? v = none ∧ unwritableUnder? rest = none := by
  simpa [unwritableUnder?] using h

/-! ### Objects -/

theorem readName_stringText (name t : Text) (hstart : StartsValue t) :
    readName (stringText name ++ (": " ++ t)) = .ok (name, t) := by
  obtain ⟨c, rest, rfl, hblank, -⟩ := hstart
  have hshape : stringText name ++ (": " ++ c :: rest) =
      ('"' : CodePoint) :: (name.flatMap escaped ++
        ('"' : CodePoint) :: ((':' : CodePoint) :: (' ' : CodePoint) :: c :: rest)) := by
    simp [stringText, Text.of]
  rw [hshape]
  have hblanks : skipBlanks ((' ' : CodePoint) :: c :: rest) = c :: rest := by
    rw [skipBlanks, List.dropWhile_cons_of_pos (by decide)]
    exact skipBlanks_cons hblank rest
  have hcolon : skipBlanks ((':' : CodePoint) :: (' ' : CodePoint) :: c :: rest) =
      (':' : CodePoint) :: (' ' : CodePoint) :: c :: rest := skipBlanks_cons (by decide) _
  simp only [readName, if_true, readString_stringText, bind, Except.bind, hcolon, hblanks]

/-! ### One value -/

theorem readValue_bracket (fuel depth : Nat) (rest : Text) :
    readValue (fuel + 1) (depth + 1) (('[' : CodePoint) :: rest) =
      if (skipBlanks rest).head? = some (']' : CodePoint) then
        .ok (.list [], (skipBlanks rest).drop 1)
      else (readItems fuel depth (skipBlanks rest)).map fun p => (.list p.1, p.2) := by
  conv => lhs; unfold readValue
  rfl

theorem readValue_brace (fuel depth : Nat) (rest : Text) :
    readValue (fuel + 1) (depth + 1) (('\x7b' : CodePoint) :: rest) =
      if (skipBlanks rest).head? = some ('\x7d' : CodePoint) then
        .ok (.object [], (skipBlanks rest).drop 1)
      else (readEntries fuel depth (skipBlanks rest)).map fun p =>
        (.object (entriesOf p.1), p.2) := by
  conv => lhs; unfold readValue
  rfl

theorem readValue_list {fuel : Nat} (hitems : ReadsItems fuel) {items : List Value}
    {depth level : Nat} {after : Text} (hlegible : Legible depth (.list items))
    (hwritable : unwritable? (.list items) = none) (hcost : cost (.list items) ≤ fuel + 1) :
    readValue (fuel + 1) depth (layout level (.list items) after) =
      .ok (reread (.list items), after) := by
  obtain ⟨hdepth, hlegibleItems⟩ := hlegible
  obtain ⟨d, rfl⟩ : ∃ d, depth = d + 1 := ⟨depth - 1, by omega⟩
  rw [unwritable?] at hwritable
  rw [cost] at hcost
  cases items with
  | nil =>
    show readValue (fuel + 1) (d + 1) (('[' : CodePoint) :: (']' : CodePoint) :: after) = _
    rw [readValue_bracket, skipBlanks_cons (by decide), List.head?_cons, if_pos rfl]
    rfl
  | cons v rest =>
    have hread := hitems (v :: rest) d (level + 1) level after (List.cons_ne_nil _ _) hlegibleItems
      hwritable (by omega)
    have hlayout : layout level (.list (v :: rest)) after = ('[' : CodePoint) ::
        layoutItems (level + 1) (v :: rest) (newLine level ++ ("]" ++ after)) := by
      rw [layout]
      rfl
    have hstart : (skipBlanks (layoutItems (level + 1) (v :: rest)
        (newLine level ++ ("]" ++ after)))).head? ≠ some (']' : CodePoint) := by
      rw [layoutItems, skipBlanks_newLine]
      have hends : EndsNumber (if rest.isEmpty then newLine level ++ ("]" ++ after)
          else "," ++ layoutItems (level + 1) rest (newLine level ++ ("]" ++ after))) := by
        split
        · exact endsNumber_newLine _ _
        · exact endsNumber_comma _
      obtain ⟨c, t, ht, hblank, hbracket, -⟩ := startsValue_layout hlegibleItems.1
        (unwritableIn?_cons hwritable).1 (level + 1) hends
      rw [ht, skipBlanks_cons hblank]
      simpa using hbracket
    rw [hlayout, readValue_bracket, if_neg hstart, hread]
    rfl

theorem readValue_object {fuel : Nat} (hentries : ReadsEntries fuel) {entries : Entries}
    {depth level : Nat} {after : Text} (hlegible : Legible depth (.object entries))
    (hwritable : unwritable? (.object entries) = none)
    (hcost : cost (.object entries) ≤ fuel + 1) :
    readValue (fuel + 1) depth (layout level (.object entries) after) =
      .ok (reread (.object entries), after) := by
  obtain ⟨hdepth, hlegibleUnder⟩ := hlegible
  obtain ⟨d, rfl⟩ : ∃ d, depth = d + 1 := ⟨depth - 1, by omega⟩
  have hwritableUnder : unwritableUnder? entries = none := by
    rw [unwritable?] at hwritable
    split at hwritable
    · exact absurd hwritable (by simp)
    · exact hwritable
  rw [cost] at hcost
  cases entries with
  | nil =>
    show readValue (fuel + 1) (d + 1) (('\x7b' : CodePoint) :: ('\x7d' : CodePoint) :: after) = _
    rw [readValue_brace, skipBlanks_cons (by decide), List.head?_cons, if_pos rfl]
    rfl
  | cons e rest =>
    have hread := hentries (e :: rest) d (level + 1) level after (List.cons_ne_nil _ _)
      hlegibleUnder hwritableUnder (by omega)
    have hlayout : layout level (.object (e :: rest)) after = ('\x7b' : CodePoint) ::
        layoutEntries (level + 1) (e :: rest) (newLine level ++ ("\x7d" ++ after)) := by
      rw [layout]
      rfl
    have hstart : (skipBlanks (layoutEntries (level + 1) (e :: rest)
        (newLine level ++ ("\x7d" ++ after)))).head? ≠ some ('\x7d' : CodePoint) := by
      obtain ⟨k, v⟩ := e
      rw [layoutEntries, skipBlanks_newLine]
      show (skipBlanks (('"' : CodePoint) :: _)).head? ≠ _
      have hquote : ('"' : CodePoint) ≠ '\x7d' := by decide
      rw [skipBlanks_cons (by decide), List.head?_cons, ne_eq, Option.some.injEq]
      exact hquote
    rw [hlayout, readValue_brace, if_neg hstart, hread]
    rfl

theorem readsValues_succ {fuel : Nat} (hitems : ReadsItems fuel) (hentries : ReadsEntries fuel) :
    ReadsValues (fuel + 1) := by
  intro v depth level after hlegible hwritable hcost hafter
  cases v with
  | null => rfl
  | bool b => cases b <;> rfl
  | int n =>
    have hshort : Value.isLongInt n = false := by simpa [unwritable?] using hwritable
    exact readValue_number (readNumber_ofInt hshort hafter) fuel depth
  | real x => exact readValue_real hlegible hafter fuel depth
  | text t =>
    have hlayout : layout level (.text t) after =
        ('"' : CodePoint) :: (t.flatMap escaped ++ ('"' : CodePoint) :: after) := by
      simp [layout, stringText, Text.of]
    rw [hlayout]
    unfold readValue
    simp only [if_true, readString_stringText]
    rfl
  | moment m => exact absurd hwritable (by simp [unwritable?])
  | list items => exact readValue_list hitems hlegible hwritable hcost
  | object entries => exact readValue_object hentries hlegible hwritable hcost

/-! ### Items and entries -/

theorem readsItems_succ {fuel : Nat} (hvalues : ReadsValues fuel) (hitems : ReadsItems fuel) :
    ReadsItems (fuel + 1) := by
  intro items depth level outer after hne hlegible hwritable hcost
  cases items with
  | nil => exact absurd rfl hne
  | cons v rest =>
    obtain ⟨hlegibleValue, hlegibleRest⟩ := hlegible
    obtain ⟨hwritableValue, hwritableRest⟩ := unwritableIn?_cons hwritable
    rw [costItems] at hcost
    cases rest with
    | nil =>
      have hlast : layoutItems level [v] (newLine outer ++ ("]" ++ after)) =
          newLine level ++ layout level v (newLine outer ++ ("]" ++ after)) := rfl
      have hread := hvalues v depth level _ hlegibleValue hwritableValue (by omega)
        (endsNumber_newLine outer ("]" ++ after))
      obtain ⟨c, t, ht, hblank, -⟩ := startsValue_layout hlegibleValue hwritableValue level
        (endsNumber_newLine outer ("]" ++ after))
      have hend : skipBlanks (newLine outer ++ ("]" ++ after)) = (']' : CodePoint) :: after := by
        rw [skipBlanks_newLine]
        exact skipBlanks_cons (by decide) _
      rw [hlast, skipBlanks_newLine, ht, skipBlanks_cons hblank, ← ht]
      unfold readItems
      simp only [hread, bind, Except.bind, hend, if_true]
      rfl
    | cons w rest =>
      have hmore : layoutItems level (v :: w :: rest) (newLine outer ++ ("]" ++ after)) =
          newLine level ++ layout level v
            ("," ++ layoutItems level (w :: rest) (newLine outer ++ ("]" ++ after))) := rfl
      have hread := hvalues v depth level _ hlegibleValue hwritableValue (by omega)
        (endsNumber_comma (layoutItems level (w :: rest) (newLine outer ++ ("]" ++ after))))
      have hrest := hitems (w :: rest) depth level outer after (List.cons_ne_nil _ _) hlegibleRest
        hwritableRest (by omega)
      obtain ⟨c, t, ht, hblank, -⟩ := startsValue_layout hlegibleValue hwritableValue level
        (endsNumber_comma (layoutItems level (w :: rest) (newLine outer ++ ("]" ++ after))))
      have hcomma : skipBlanks ("," ++ layoutItems level (w :: rest)
          (newLine outer ++ ("]" ++ after))) =
          (',' : CodePoint) :: layoutItems level (w :: rest) (newLine outer ++ ("]" ++ after)) :=
        skipBlanks_cons (by decide) _
      have hbracket : (',' : CodePoint) ≠ ']' := by decide
      rw [hmore, skipBlanks_newLine, ht, skipBlanks_cons hblank, ← ht]
      unfold readItems
      simp only [hread, bind, Except.bind, hcomma, if_neg hbracket, if_true, hrest]
      rfl

theorem readsEntries_succ {fuel : Nat} (hvalues : ReadsValues fuel)
    (hentries : ReadsEntries fuel) : ReadsEntries (fuel + 1) := by
  intro entries depth level outer after hne hlegible hwritable hcost
  cases entries with
  | nil => exact absurd rfl hne
  | cons e rest =>
    obtain ⟨k, v⟩ := e
    obtain ⟨hlegibleValue, hlegibleRest⟩ := hlegible
    obtain ⟨hwritableValue, hwritableRest⟩ := unwritableUnder?_cons hwritable
    rw [costUnder] at hcost
    have hquote : ∀ t : Text, skipBlanks (newLine level ++ (stringText (keyName k) ++ t)) =
        stringText (keyName k) ++ t := by
      intro t
      rw [skipBlanks_newLine]
      exact skipBlanks_cons (by decide) _
    cases rest with
    | nil =>
      have hlast : layoutEntries level [(k, v)] (newLine outer ++ ("\x7d" ++ after)) =
          newLine level ++ (stringText (keyName k) ++
            (": " ++ layout level v (newLine outer ++ ("\x7d" ++ after)))) := rfl
      have hread := hvalues v depth level _ hlegibleValue hwritableValue (by omega)
        (endsNumber_newLine outer ("\x7d" ++ after))
      have hstart := startsValue_layout hlegibleValue hwritableValue level
        (endsNumber_newLine outer ("\x7d" ++ after))
      have hend : skipBlanks (newLine outer ++ ("\x7d" ++ after)) = ('\x7d' : CodePoint) :: after := by
        rw [skipBlanks_newLine]
        exact skipBlanks_cons (by decide) _
      rw [hlast, hquote]
      unfold readEntries
      simp only [readName_stringText _ _ hstart, hread, bind, Except.bind, hend, if_true]
      rfl
    | cons f rest =>
      have hmore : layoutEntries level ((k, v) :: f :: rest) (newLine outer ++ ("\x7d" ++ after)) =
          newLine level ++ (stringText (keyName k) ++ (": " ++ layout level v
            ("," ++ layoutEntries level (f :: rest) (newLine outer ++ ("\x7d" ++ after))))) := rfl
      have hread := hvalues v depth level _ hlegibleValue hwritableValue (by omega)
        (endsNumber_comma (layoutEntries level (f :: rest) (newLine outer ++ ("\x7d" ++ after))))
      have hrest := hentries (f :: rest) depth level outer after (List.cons_ne_nil _ _) hlegibleRest
        hwritableRest (by omega)
      have hstart := startsValue_layout hlegibleValue hwritableValue level
        (endsNumber_comma (layoutEntries level (f :: rest) (newLine outer ++ ("\x7d" ++ after))))
      have hcomma : skipBlanks ("," ++ layoutEntries level (f :: rest)
          (newLine outer ++ ("\x7d" ++ after))) =
          (',' : CodePoint) :: layoutEntries level (f :: rest) (newLine outer ++ ("\x7d" ++ after)) :=
        skipBlanks_cons (by decide) _
      have hbrace : (',' : CodePoint) ≠ '\x7d' := by decide
      rw [hmore, hquote]
      unfold readEntries
      simp only [readName_stringText _ _ hstart, hread, bind, Except.bind, hcomma, if_neg hbrace,
        if_true, hrest]
      rfl

/-! ### Any value -/

theorem reads_all (fuel : Nat) : ReadsValues fuel ∧ ReadsItems fuel ∧ ReadsEntries fuel := by
  induction fuel with
  | zero =>
    refine ⟨?_, ?_, ?_⟩
    · intro v depth level after _ _ hcost _
      cases v <;> simp [cost] at hcost
    · intro items depth level outer after hne _ _ hcost
      cases items with
      | nil => exact absurd rfl hne
      | cons v rest => simp [costItems] at hcost
    · intro entries depth level outer after hne _ _ hcost
      cases entries with
      | nil => exact absurd rfl hne
      | cons e rest => simp [costUnder] at hcost
  | succ fuel ih =>
    obtain ⟨hvalues, hitems, hentries⟩ := ih
    exact ⟨readsValues_succ hitems hentries, readsItems_succ hvalues hitems,
      readsEntries_succ hvalues hentries⟩

/-! ## Documents -/

theorem length_newLine (level : Nat) : 0 < (newLine level).length := by
  rw [newLine, List.length_cons]
  omega

mutual

/-- A document is long enough for the readers' fuel. -/
theorem cost_le : ∀ (v : Value) (level : Nat) (after : Text),
    cost v + 2 * after.length ≤ 2 * (layout level v after).length + 1
  | .null, _, _ | .bool _, _, _ | .int _, _, _ | .real _, _, _ | .text _, _, _ | .moment _, _, _ => by
    simp only [cost, layout, List.length_append]
    omega
  | .list items, level, after => by
    have hitems := costItems_le items (level + 1) (newLine level ++ ("]" ++ after))
    simp only [List.length_append] at hitems
    simp only [cost, layout]
    split
    next hempty =>
      rw [List.isEmpty_iff.mp hempty] at hitems ⊢
      simp only [costItems, List.length_append]
      omega
    next =>
      simp only [List.length_append]
      omega
  | .object entries, level, after => by
    have hentries := costUnder_le entries (level + 1) (newLine level ++ ("\x7d" ++ after))
    simp only [List.length_append] at hentries
    simp only [cost, layout]
    split
    next hempty =>
      rw [List.isEmpty_iff.mp hempty] at hentries ⊢
      simp only [costUnder, List.length_append]
      omega
    next =>
      simp only [List.length_append]
      omega

theorem costItems_le : ∀ (items : List Value) (level : Nat) (after : Text),
    costItems items + 2 * after.length ≤ 2 * (layoutItems level items after).length
  | [], _, _ => by simp [costItems, layoutItems]
  | v :: rest, level, after => by
    have hrest := costItems_le rest level after
    have hfeed := length_newLine level
    rw [costItems, layoutItems, List.length_append]
    obtain ⟨tail, htail⟩ : ∃ tail : Text,
        tail = if rest.isEmpty then after else "," ++ layoutItems level rest after := ⟨_, rfl⟩
    have hlength : costItems rest + 2 * after.length ≤ 2 * tail.length := by
      rw [htail]
      split
      next hempty =>
        rw [List.isEmpty_iff.mp hempty, costItems]
        omega
      next =>
        rw [List.length_append]
        omega
    have hvalue := cost_le v level tail
    rw [← htail]
    omega

theorem costUnder_le : ∀ (entries : List (Key × Value)) (level : Nat) (after : Text),
    costUnder entries + 2 * after.length ≤ 2 * (layoutEntries level entries after).length
  | [], _, _ => by simp [costUnder, layoutEntries]
  | (k, v) :: rest, level, after => by
    have hrest := costUnder_le rest level after
    have hfeed := length_newLine level
    rw [costUnder, layoutEntries]
    simp only [List.length_append]
    obtain ⟨tail, htail⟩ : ∃ tail : Text,
        tail = if rest.isEmpty then after else "," ++ layoutEntries level rest after := ⟨_, rfl⟩
    have hlength : costUnder rest + 2 * after.length ≤ 2 * tail.length := by
      rw [htail]
      split
      next hempty =>
        rw [List.isEmpty_iff.mp hempty, costUnder]
        omega
      next =>
        rw [List.length_append]
        omega
    have hvalue := cost_le v level tail
    rw [← htail]
    omega

end

/-- A document says what its value is reread as. -/
theorem read_legible {v : Value} (hlegible : Legible mostNested v)
    (hwritable : unwritable? v = none) : read (layout 0 v "\n") = .ok (reread v) := by
  have hfeed : EndsNumber "\n" := endsNumber_newLine 0 []
  obtain ⟨c, rest, hlayout, hblank, -, hascii⟩ := startsValue_layout hlegible hwritable 0 hfeed
  have hcost := cost_le v 0 "\n"
  have hread := (reads_all (2 * (layout 0 v "\n").length + 2)).1 v mostNested 0 "\n" hlegible
    hwritable (by omega) hfeed
  have hmark : c ≠ ⟨0xFEFF, by decide⟩ := by
    rintro rfl
    exact absurd hascii (by decide)
  have hblanks : skipBlanks (layout 0 v "\n") = layout 0 v "\n" := by
    rw [hlayout, skipBlanks_cons hblank]
  unfold read readDocument
  rw [hblanks, hread, hlayout, List.head?_cons, if_neg (by simpa using hmark)]
  rfl

/-! ### Values that are given back -/

/-- The entries with the texts of their keys. -/
def named (entries : Entries) : List (Text × Value) := entries.map fun e => (keyName e.1, e.2)

theorem set_of_absent {entries : Entries} {key : Text} (h : ∀ e ∈ entries, e.1 ≠ .text key)
    (v : Value) : entries.set key v = entries ++ [(.text key, v)] := by
  induction entries with
  | nil => rfl
  | cons e rest ih =>
    rw [Entries.set, if_neg (h e List.mem_cons_self),
      ih fun f hf => h f (List.mem_cons_of_mem _ hf)]
    rfl

/-- No entry replaces one before it. -/
theorem entriesOf_named_of_distinct {entries : Entries} (htexts : ∀ e ∈ entries, e.1.isText = true)
    (hdistinct : (entries.map (·.1)).Nodup) : entriesOf (named entries) = entries := by
  have hfold : ∀ (entries before : Entries), (∀ e ∈ entries, e.1.isText = true) →
      ((before ++ entries).map (·.1)).Nodup →
      (named entries).foldl (fun entries p => entries.set p.1 p.2) before = before ++ entries := by
    intro entries
    induction entries with
    | nil => intro before _ _; simp [named]
    | cons e rest ih =>
      intro before htexts hdistinct
      obtain ⟨k, v⟩ := e
      obtain ⟨t, rfl⟩ : ∃ t, k = .text t := Key.exists_text (htexts _ List.mem_cons_self)
      have habsent : ∀ e ∈ before, e.1 ≠ .text t := by
        intro e he heq
        rw [List.map_append, List.nodup_append] at hdistinct
        exact hdistinct.2.2 _ (List.mem_map_of_mem he) _ (List.mem_map_of_mem List.mem_cons_self) heq
      have hrest := ih (before ++ [(.text t, v)])
        (fun e he => htexts e (List.mem_cons_of_mem _ he)) (by simpa using hdistinct)
      show (named rest).foldl _ (before.set t v) = _
      rw [set_of_absent habsent, hrest, List.append_assoc]
      rfl
  exact hfold entries [] htexts hdistinct

theorem entriesOf_named {entries : Entries} (h : TextKeys entries) :
    entriesOf (named entries) = entries :=
  entriesOf_named_of_distinct h.texts h.distinct

mutual

theorem reread_of_kept : ∀ (v : Value) {depth : Nat}, Kept depth v → reread v = v
  | .null, _, _ | .bool _, _, _ | .int _, _, _ | .real _, _, _ => rfl
  | .text _, _, _ | .moment _, _, _ => rfl
  | .list items, _, ⟨_, hitems⟩ => by rw [reread, rereadItems_of_kept items hitems]
  | .object entries, _, ⟨_, hkeys, hunder⟩ => by
    rw [reread, rereadUnder_of_kept entries hunder, entriesOf_named hkeys]

theorem rereadItems_of_kept : ∀ (items : List Value) {depth : Nat}, KeptItems depth items →
    rereadItems items = items
  | [], _, _ => rfl
  | v :: rest, _, ⟨hv, hrest⟩ => by
    rw [rereadItems, reread_of_kept v hv, rereadItems_of_kept rest hrest]

theorem rereadUnder_of_kept : ∀ (entries : List (Key × Value)) {depth : Nat},
    KeptUnder depth entries → rereadUnder entries = named entries
  | [], _, _ => rfl
  | (k, v) :: rest, _, ⟨hv, hrest⟩ => by
    rw [rereadUnder, reread_of_kept v hv, rereadUnder_of_kept rest hrest]
    rfl

end

/-- A document is read back. -/
theorem read_layout {v : Value} (hkept : Kept mostNested v) (hwritable : unwritable? v = none) :
    read (layout 0 v "\n") = .ok v := by
  rw [read_legible (legible_of_kept v hkept) hwritable, reread_of_kept v hkept]

/-! ## Documents that are nested too deep -/

theorem readValue_brackets {fuel depth : Nat} (hfuel : 2 * depth < fuel) (rest : Text) :
    readValue fuel depth (List.replicate (depth + 1) ('[' : CodePoint) ++ rest) =
      .error (.nestedTooDeep .list) := by
  obtain ⟨fuel, rfl⟩ : ∃ n, fuel = n + 1 := ⟨fuel - 1, by omega⟩
  induction depth generalizing fuel with
  | zero =>
    conv => lhs; unfold readValue
    rfl
  | succ depth ih =>
    -- Each bracket takes fuel for the list and for its first item.
    obtain ⟨fuel, rfl⟩ : ∃ n, fuel = n + 2 := ⟨fuel - 2, by omega⟩
    have hinside : skipBlanks (List.replicate (depth + 1) ('[' : CodePoint) ++ rest) =
        List.replicate (depth + 1) ('[' : CodePoint) ++ rest := skipBlanks_cons (by decide) _
    rw [List.replicate_succ, List.cons_append, readValue_bracket, hinside,
      if_neg (by simp [List.replicate_succ, CodePoint.ofChar])]
    unfold readItems
    rw [ih fuel (by omega)]
    rfl

/-- A document that opens too many lists is refused, whatever follows. -/
theorem read_brackets (rest : Text) :
    read (List.replicate (mostNested + 1) ('[' : CodePoint) ++ rest) =
      .error (.nestedTooDeep .list) := by
  let document : Text := List.replicate (mostNested + 1) ('[' : CodePoint) ++ rest
  have hfuel : 2 * mostNested < 2 * document.length + 2 := by
    simp only [document, List.length_append, List.length_replicate]
    omega
  have hblanks : skipBlanks document = document := skipBlanks_cons (by decide) _
  have hmark : ¬ document.head? = some ⟨0xFEFF, by decide⟩ := by
    simp [document, List.replicate_succ, CodePoint.ofChar]
  change read document = _
  unfold read readDocument
  rw [if_neg hmark, hblanks, readValue_brackets hfuel rest]
  rfl

end Json

end Acceptance
