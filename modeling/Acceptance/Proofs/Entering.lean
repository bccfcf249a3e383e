import Acceptance.Proofs.AnyCase
import Acceptance.Proofs.Navigating
import Acceptance.Proofs.Pieces

/-! # Entering

Three phrasings of a fill step, and what is read from them. Each phrasing has words of its own, and
none of the others is found in it, so the field and the value are those that the step was made of. -/

namespace Acceptance

namespace Step

variable {t rest run blanks word field value inside verb keyword connector : Text}

/-! ## Phrasings -/

/-- A word that is entered just as it is. -/
structure IsPlainWord (t : Text) : Prop where
  ne_nil : t ≠ []
  unbroken : ∀ c ∈ t, c.isBlank = false
  unquoted : ∀ c ∈ t, c ∉ quoteMarks

instance (t : Text) : Decidable (IsPlainWord t) :=
  decidable_of_iff (t ≠ [] ∧ (∀ c ∈ t, c.isBlank = false) ∧ ∀ c ∈ t, c ∉ quoteMarks)
    ⟨fun h => ⟨h.1, h.2.1, h.2.2⟩, fun h => ⟨h.ne_nil, h.unbroken, h.unquoted⟩⟩

/-- There is no verb of entering in the text. -/
def HasNoVerb (t : Text) : Prop := ∀ verb ∈ entryVerbs, ¬ verb <:+: t

instance (t : Text) : Decidable (HasNoVerb t) := inferInstanceAs (Decidable (∀ _ ∈ _, _))

/-- With these marks the words for the inside of a field begin and end. -/
def insideMarks : Text := "中里框"

structure AreBlanks (t : Text) : Prop where
  ne_nil : t ≠ []
  blank : ∀ c ∈ t, c.isBlank = true

/-- `in` in any case; the dotted and the dotless i are cases of an i, too. -/
def IsIn (t : Text) : Prop := ∃ i ∈ Text.of "iIİı", ∃ n ∈ Text.of "nN", t = [i, n]

instance (t : Text) : Decidable (IsIn t) := inferInstanceAs (Decidable (∃ _ ∈ _, _))

/-- The step says which value goes into which field. -/
inductive Says (field value : Text) : Text → Prop where
  /-- In a field, or inside it, enter a value. -/
  | placed {inside verb : Text} : HasNoVerb field → (∀ c ∈ field.getLast?, c ∉ insideMarks) →
    inside ∈ [] :: containers → verb ∈ entryVerbs →
    Says field value ("在" ++ field ++ inside ++ verb ++ value)
  /-- Enter field and value. -/
  | listed {verb first second : Text} : (∀ c ∈ field ++ value, c ≠ '在') → verb ∈ entryVerbs →
    AreBlanks first → AreBlanks second →
    Says field value (verb ++ first ++ field ++ second ++ value)
  /-- Fill a field with a value. A field `in` would be taken for the second word of `fill in`. -/
  | english {keyword connector : Text} : HasNoVerb field → HasNoVerb value →
    keyword.map CodePoint.asciiLower ∈ (["input", "fill", "fill in", "type"] : List Text) →
    (keyword.map CodePoint.asciiLower = "fill" → ¬ IsIn field) →
    connector ∈ (["", "with ", "as "] : List Text) →
    Says field value (keyword ++ " " ++ field ++ " " ++ connector ++ value)

/-! ## Pieces -/

theorem IsPlainWord.isTarget (h : IsPlainWord t) : IsTarget t where
  ne_nil := h.ne_nil
  trimmed := by
    obtain ⟨c, rest, rfl⟩ := List.exists_cons_of_ne_nil h.ne_nil
    exact Text.trim_eq_self_iff.mpr ⟨Text.trimLeftWhere_cons (h.unbroken c (by simp)) _,
      Text.trimRightWhere_of_forall h.unbroken⟩
  unquoted := h.unquoted

theorem IsPlainWord.head (h : IsPlainWord t) (rest : Text) :
    ∀ c ∈ (t ++ rest).head?, c.isBlank = false := Text.head_run h.ne_nil h.unbroken rest

theorem cleaned?_eq (hfield : IsPlainWord field) (hvalue : IsPlainWord value) :
    cleaned? ⟨field, value⟩ = some ⟨field, value⟩ := by
  have hsome : (field.isEmpty || value.isEmpty) = false := by
    simp [hfield.ne_nil, hvalue.ne_nil]
  unfold cleaned?
  simp only [withoutQuotes_eq hfield.isTarget, withoutQuotes_eq hvalue.isTarget, hsome,
    Bool.false_eq_true, if_false]

theorem run?_append (hne : run ≠ []) (hrun : ∀ c ∈ run, c.isBlank = false)
    (hend : ∀ c ∈ rest.head?, c.isBlank = true) : run? (run ++ rest) = some (run, rest) := by
  have hrun' : ∀ c ∈ run, (!c.isBlank) = true := by simpa using hrun
  have hend' : ∀ c ∈ rest.head?, (!c.isBlank) = false := by simpa using hend
  unfold run?
  rw [List.span_eq_takeWhile_dropWhile, Text.takeWhile_run hrun' hend',
    Text.dropWhile_run hrun' hend']
  simp [hne]

theorem IsPlainWord.run?_eq (h : IsPlainWord t) : run? t = some (t, []) := by
  have hend : ∀ c ∈ (Text.of "").head?, c.isBlank = true := by decide
  simpa [Text.of] using run?_append h.ne_nil h.unbroken hend

theorem afterBlanks_of_head (h : ∀ c ∈ t.head?, c.isBlank = false) : afterBlanks t = t :=
  Text.dropWhile_run (show ∀ c ∈ Text.of "", c.isBlank = true by decide) h

theorem AreBlanks.head (h : AreBlanks blanks) (rest : Text) :
    ∀ c ∈ (blanks ++ rest).head?, c.isBlank = true := Text.head_run h.ne_nil h.blank rest

theorem AreBlanks.afterSomeBlanks_append (h : AreBlanks blanks)
    (hrest : ∀ c ∈ rest.head?, c.isBlank = false) : afterSomeBlanks (blanks ++ rest) = some rest := by
  have hafter : afterBlanks (blanks ++ rest) = rest := Text.dropWhile_run h.blank hrest
  obtain ⟨c, more, rfl⟩ := List.exists_cons_of_ne_nil h.ne_nil
  rw [List.cons_append] at hafter ⊢
  simp only [afterSomeBlanks, h.blank c (by simp), if_true, hafter]

theorem areBlanks_space : AreBlanks (Text.of " ") := ⟨by decide, by decide⟩

theorem eq_append_of_afterWord? {words : List Text} (h : afterWord? words t = some rest) :
    ∃ word ∈ words, t = word ++ rest := by
  obtain ⟨word, hword, rfl⟩ := Option.map_eq_some_iff.mp h
  obtain ⟨more, rfl⟩ := Text.startsWith_iff.mp (List.find?_some hword)
  exact ⟨word, List.mem_of_find?_eq_some hword, by simp⟩

theorem afterWord?_eq_none {words : List Text} (h : ∀ word ∈ words, ¬ word <+: t) :
    afterWord? words t = none := by
  refine Option.map_eq_none_iff.mpr (List.find?_eq_none.mpr fun word hword hstarts => ?_)
  exact h word hword (Text.startsWith_iff.mp hstarts)

/-- If no word is the start of another, a text begins with at most one of them. -/
theorem afterWord?_append {words : List Text}
    (hfree : ∀ v ∈ words, ∀ w ∈ words, v <+: w → v = w) (hword : word ∈ words) (rest : Text) :
    afterWord? words (word ++ rest) = some rest := by
  cases hafter : afterWord? words (word ++ rest) with
  | none =>
    have hnone := List.find?_eq_none.mp (Option.map_eq_none_iff.mp hafter) word hword
    exact absurd (Text.startsWith_iff.mpr (List.prefix_append _ _)) hnone
  | some left =>
    obtain ⟨other, hother, heq⟩ := eq_append_of_afterWord? hafter
    have hsame : other = word := by
      rcases List.prefix_or_prefix_of_prefix (List.prefix_append word rest)
        (heq ▸ List.prefix_append other left) with hstart | hstart
      · exact (hfree word hword other hother hstart).symm
      · exact hfree other hother word hword hstart
    rw [hsame] at heq
    rw [List.append_cancel_left heq]

/-! ## Searching -/

section

variable {α : Type} {search : Text → Option α}

theorem firstPlace_of_some {a : α} (h : search t = some a) : firstPlace search t = some a := by
  cases t with
  | nil => exact h
  | cons c rest => rw [firstPlace, h]

theorem firstPlace_eq_none (h : ∀ s, s <:+ t → search s = none) : firstPlace search t = none := by
  induction t with
  | nil => exact h [] (List.suffix_refl _)
  | cons c rest ih =>
    rw [firstPlace, h _ (List.suffix_refl _)]
    exact ih fun s hs => h s (hs.trans (List.suffix_cons _ _))

end

/-! ## In a field, enter a value -/

/-- The verbs are two characters long, of which the second begins neither a verb nor a word for the
inside of a field. -/
theorem eq_pair_of_mem_entryVerbs (h : verb ∈ entryVerbs) :
    ∃ a b, verb = [a, b] ∧ a.isBlank = false ∧ b ∈ Text.of "入写" := by
  have hall : ∀ verb ∈ entryVerbs, ∃ a ∈ verb.head?, ∃ b ∈ verb[1]?, verb = [a, b] ∧
      a.isBlank = false ∧ b ∈ Text.of "入写" := by decide
  obtain ⟨a, -, b, -, hverb⟩ := hall verb h
  exact ⟨a, b, hverb⟩

theorem entryVerb_eq_of_start : ∀ v ∈ entryVerbs, ∀ w ∈ entryVerbs, v <+: w → v = w := by decide

theorem valueAfterVerb?_append (hverb : verb ∈ entryVerbs) (hvalue : IsPlainWord value) :
    valueAfterVerb? (verb ++ value) = some value := by
  have hstart : afterBlanks (verb ++ value) = verb ++ value := by
    obtain ⟨a, b, rfl, ha, -⟩ := eq_pair_of_mem_entryVerbs hverb
    exact afterBlanks_of_head (by simpa using ha)
  have hrest : afterBlanks value = value :=
    afterBlanks_of_head (by simpa using hvalue.head [])
  unfold valueAfterVerb?
  rw [hstart, afterWord?_append entryVerb_eq_of_start hverb]
  simp only [Option.bind_eq_bind, Option.bind_some, hrest, hvalue.run?_eq]

theorem valueAfterVerb?_eq_none (hhead : ∀ c ∈ t.head?, c.isBlank = false)
    (h : ∀ verb ∈ entryVerbs, ¬ verb <+: t) : valueAfterVerb? t = none := by
  unfold valueAfterVerb?
  rw [afterBlanks_of_head hhead, afterWord?_eq_none h]
  rfl

/-- A search for one word after the other finds the word that stands there. -/
theorem findSome?_afterWord? {α : Type} {words : List Text}
    (hfree : ∀ v ∈ words, ∀ w ∈ words, v <+: w → v = w) (hword : word ∈ words) (rest : Text)
    (read : Text → Option α) :
    words.findSome? (fun w => (afterWord? [w] (word ++ rest)).bind read) = read rest := by
  have honly : ∀ w ∈ words, ∀ found, (afterWord? [w] (word ++ rest)).bind read = some found →
      read rest = some found := by
    intro w hw found hfound
    obtain ⟨left, hleft, hfound⟩ := Option.bind_eq_some_iff.mp hfound
    obtain ⟨other, hother, heq⟩ := eq_append_of_afterWord? hleft
    rw [List.mem_singleton.mp hother] at heq
    have hsame : some rest = some left := by
      rw [← afterWord?_append hfree hword rest, heq, afterWord?_append hfree hw]
    rwa [Option.some.inj hsame]
  have hfound : (afterWord? [word] (word ++ rest)).bind read = read rest := by
    rw [afterWord?_append (by simp) (List.mem_singleton_self word)]
    rfl
  cases hread : words.findSome? fun w => (afterWord? [w] (word ++ rest)).bind read with
  | none => rw [← List.findSome?_eq_none_iff.mp hread word hword, hfound]
  | some found =>
    obtain ⟨w, hw, hw'⟩ := List.exists_of_findSome?_eq_some hread
    exact (honly w hw found hw').symm

/-- Neither a verb nor what stands in a field before it begins with a blank. -/
theorem head_inside (hinside : inside ∈ [] :: containers) (hverb : verb ∈ entryVerbs)
    (rest : Text) : ∀ c ∈ (inside ++ (verb ++ rest)).head?,
      c.isBlank = false ∧ c ∉ Text.of "入写" := by
  have hheads : ∀ inside ∈ [] :: containers, ∀ verb ∈ entryVerbs,
      ∃ c ∈ (inside ++ verb).head?, c.isBlank = false ∧ c ∉ Text.of "入写" := by decide
  obtain ⟨c, hc, hmarks⟩ := hheads inside hinside verb hverb
  obtain ⟨more, hmore⟩ := List.head?_eq_some_iff.mp hc
  rw [← List.append_assoc, hmore]
  simpa using hmarks

/-- No word for the inside of a field begins as a verb does. -/
theorem not_container_start (hword : word ∈ containers) (hverb : verb ∈ entryVerbs) (rest : Text) :
    ¬ word <+: verb ++ rest := by
  have hheads : ∀ word ∈ containers, ∀ verb ∈ entryVerbs, word.head? ≠ verb.head? ∧
      word ≠ [] ∧ verb ≠ [] := by decide
  obtain ⟨hne, hword', hverb'⟩ := hheads word hword verb hverb
  obtain ⟨c, word, rfl⟩ := List.exists_cons_of_ne_nil hword'
  obtain ⟨d, verb, rfl⟩ := List.exists_cons_of_ne_nil hverb'
  exact fun hstart => hne (congrArg some (List.cons_prefix_cons.mp hstart).1)

/-- Where the value follows, it is read, with a word for the inside or without. -/
theorem valueAfterField?_append (hinside : inside ∈ [] :: containers) (hverb : verb ∈ entryVerbs)
    (hvalue : IsPlainWord value) : valueAfterField? (inside ++ (verb ++ value)) = some value := by
  have hread := valueAfterVerb?_append hverb hvalue
  have hstart := afterBlanks_of_head fun c hc => (head_inside hinside hverb value c hc).1
  have hfree : ∀ v ∈ containers, ∀ w ∈ containers, v <+: w → v = w := by decide
  unfold valueAfterField?
  simp only [hstart]
  rcases List.mem_cons.mp hinside with rfl | hcontainer
  · have hnone : containers.findSome? (fun word =>
        (afterWord? [word] ([] ++ (verb ++ value))).bind valueAfterVerb?) = none := by
      refine List.findSome?_eq_none_iff.mpr fun word hword => ?_
      rw [afterWord?_eq_none (by simpa using not_container_start hword hverb value)]
      rfl
    rw [hnone]
    exact hread
  · rw [findSome?_afterWord? hfree hcontainer, hread]
    rfl

section

-- What is left of a field, and what follows the field.
variable {left after : Text}

/-- No verb begins inside the field, not even one that ends behind it. -/
theorem not_verb_start (hleft : left ≠ []) (hverb : HasNoVerb left)
    (hafter : ∀ c ∈ after.head?, c ∉ Text.of "入写") :
    ∀ verb ∈ entryVerbs, ¬ verb <+: left ++ after := by
  intro verb hmem hstart
  obtain ⟨a, b, rfl, -, hb⟩ := eq_pair_of_mem_entryVerbs hmem
  obtain ⟨c, left, rfl⟩ := List.exists_cons_of_ne_nil hleft
  obtain ⟨rfl, hsecond⟩ := List.cons_prefix_cons.mp hstart
  cases left with
  | nil =>
    obtain ⟨more, rfl⟩ := hsecond
    exact hafter b rfl hb
  | cons d left =>
    obtain ⟨rfl, -⟩ := List.cons_prefix_cons.mp hsecond
    exact hverb _ hmem (List.prefix_append [a, b] left).isInfix

theorem HasNoVerb.suffix (h : HasNoVerb t) (hrest : rest <:+ t) : HasNoVerb rest :=
  fun verb hverb hin => h verb hverb (hin.trans hrest.isInfix)

/-- A word for the inside of a field cannot reach the end of one that does not end like it. -/
theorem exists_of_container_start (hword : word ∈ containers) (hleft : left ≠ [])
    (hlast : ∀ c ∈ left.getLast?, c ∉ insideMarks) (hstart : word <+: left ++ after) :
    ∃ more, more ≠ [] ∧ left = word ++ more := by
  have hmarks : ∀ word ∈ containers, ∀ c ∈ word, c ∈ insideMarks := by decide
  have hlast' : left.getLast hleft ∉ insideMarks :=
    hlast _ (List.getLast?_eq_some_getLast hleft)
  rcases List.prefix_or_prefix_of_prefix hstart (List.prefix_append left after) with hin | hover
  · obtain ⟨more, rfl⟩ := hin
    refine ⟨more, ?_, rfl⟩
    rintro rfl
    simp only [List.append_nil] at hlast' hleft
    exact hlast' (hmarks word hword _ (List.getLast_mem hleft))
  · exact absurd (hmarks word hword _ (hover.subset (List.getLast_mem hleft))) hlast'

/-- As long as some of the field is left, no value follows. -/
theorem valueAfterField?_eq_none (hleft : left ≠ []) (hblank : ∀ c ∈ left, c.isBlank = false)
    (hverb : HasNoVerb left) (hlast : ∀ c ∈ left.getLast?, c ∉ insideMarks)
    (hafter : ∀ c ∈ after.head?, c ∉ Text.of "入写") : valueAfterField? (left ++ after) = none := by
  have hnone : ∀ word ∈ containers,
      (afterWord? [word] (left ++ after)).bind valueAfterVerb? = none := by
    intro word hword
    cases hrest : afterWord? [word] (left ++ after) with
    | none => rfl
    | some rest =>
      -- Some of the field is left behind the word, too.
      obtain ⟨other, hother, heq⟩ := eq_append_of_afterWord? hrest
      obtain rfl := List.mem_singleton.mp hother
      obtain ⟨more, hmore, rfl⟩ := exists_of_container_start hword hleft hlast ⟨rest, heq.symm⟩
      rw [List.append_assoc] at heq
      rw [Option.bind_some, ← List.append_cancel_left heq]
      have hmoreBlank : ∀ c ∈ more, c.isBlank = false := fun c hc => hblank c (by simp [hc])
      exact valueAfterVerb?_eq_none (Text.head_run hmore hmoreBlank after)
        (not_verb_start hmore (hverb.suffix (List.suffix_append _ _)) hafter)
  unfold valueAfterField?
  simp only [afterBlanks_of_head (Text.head_run hleft hblank after)]
  rw [List.findSome?_eq_none_iff.mpr hnone, Option.none_or]
  exact valueAfterVerb?_eq_none (Text.head_run hleft hblank after) (not_verb_start hleft hverb hafter)

/-- The field goes on up to where a value follows it. -/
theorem shortestField?_append (hleft : left ≠ []) (hblank : ∀ c ∈ left, c.isBlank = false)
    (hverb : HasNoVerb left) (hlast : ∀ c ∈ left.getLast?, c ∉ insideMarks)
    (hafter : ∀ c ∈ after.head?, c ∉ Text.of "入写")
    (hvalue : valueAfterField? after = some value) (taken : Text) :
    shortestField? taken (left ++ after) = some ⟨taken.reverse ++ left, value⟩ := by
  induction left generalizing taken with
  | nil => exact absurd rfl hleft
  | cons c left ih =>
    have hc : c.isBlank = false := hblank c (by simp)
    rw [List.cons_append, shortestField?, hc]
    cases left with
    | nil => simp [hvalue]
    | cons d left =>
      have hblank' : ∀ c ∈ d :: left, c.isBlank = false := (List.forall_mem_cons.mp hblank).2
      have hverb' := hverb.suffix (List.suffix_cons c (d :: left))
      have hlast' : ∀ e ∈ (d :: left).getLast?, e ∉ insideMarks := by
        simpa only [List.getLast?_cons_cons] using hlast
      rw [valueAfterField?_eq_none (by simp) hblank' hverb' hlast' hafter,
        ih (by simp) hblank' hverb' hlast']
      simp

end

theorem placedInput?_placed (hfield : IsPlainWord field) (hvalue : IsPlainWord value)
    (hnone : HasNoVerb field) (hlast : ∀ c ∈ field.getLast?, c ∉ insideMarks)
    (hinside : inside ∈ [] :: containers) (hverb : verb ∈ entryVerbs) :
    placedInput? ("在" ++ field ++ inside ++ verb ++ value) = some ⟨field, value⟩ := by
  have hstep : Text.of "在" ++ field ++ inside ++ verb ++ value =
      Text.of "在" ++ (field ++ (inside ++ (verb ++ value))) := by simp only [List.append_assoc]
  have hread := shortestField?_append hfield.ne_nil hfield.unbroken hnone hlast
    (fun c hc => (head_inside hinside hverb value c hc).2)
    (valueAfterField?_append hinside hverb hvalue) []
  rw [hstep]
  unfold placedInput?
  rw [afterWord?_append (by simp) (List.mem_singleton_self _)]
  simp only [Option.bind_eq_bind, Option.bind_some, afterBlanks_of_head (hfield.head _)]
  exact hread

/-! ## Enter field and value -/

theorem listedInput?_listed {first second : Text} (hfield : IsPlainWord field)
    (hvalue : IsPlainWord value) (hverb : verb ∈ entryVerbs) (hfirst : AreBlanks first)
    (hsecond : AreBlanks second) :
    listedInput? (verb ++ first ++ field ++ second ++ value) = some ⟨field, value⟩ := by
  have hstep : verb ++ first ++ field ++ second ++ value =
      verb ++ (first ++ (field ++ (second ++ value))) := by simp only [List.append_assoc]
  have hafter : afterBlanks (first ++ (field ++ (second ++ value))) = field ++ (second ++ value) :=
    Text.dropWhile_run hfirst.blank (hfield.head _)
  rw [hstep]
  unfold listedInput?
  rw [afterWord?_append entryVerb_eq_of_start hverb]
  simp only [Option.bind_eq_bind, Option.bind_some, hafter,
    run?_append hfield.ne_nil hfield.unbroken (hsecond.head value),
    hsecond.afterSomeBlanks_append (by simpa using hvalue.head []), hvalue.run?_eq]

/-- Fields that are placed stand behind the mark for it. -/
theorem placedInput?_eq_none (h : ∀ c ∈ t, c ≠ '在') : placedInput? t = none := by
  unfold placedInput?
  rw [afterWord?_eq_none]
  · rfl
  · intro word hword hstart
    obtain rfl := List.mem_singleton.mp hword
    exact h _ (hstart.subset (show CodePoint.ofChar '在' ∈ Text.of "在" by decide)) rfl

/-! ## Fill in a field with a value -/

theorem englishValue?_eq (hvalue : IsPlainWord value) : englishValue? value = some value := by
  have hnone : ∀ word, (do
      let rest ← afterAnyCase? word value
      (run? (← afterSomeBlanks rest)).map (·.1) : Option Text) = none := by
    intro word
    cases hrest : afterAnyCase? word value with
    | none => rfl
    | some rest =>
      -- There is no blank behind the word, because there is none in the value.
      have hblank : afterSomeBlanks rest = none := by
        cases rest with
        | nil => rfl
        | cons c more =>
          have hc := hvalue.unbroken c ((suffix_of_afterAnyCase? hrest).subset (by simp))
          simp [afterSomeBlanks, hc]
      simp [hblank]
  unfold englishValue?
  simp only [hnone, Option.none_or, hvalue.run?_eq, Option.map_some]

theorem englishValue?_connector (hconnector : connector ∈ (["", "with ", "as "] : List Text))
    (hvalue : IsPlainWord value) : englishValue? (connector ++ value) = some value := by
  have hafter : afterSomeBlanks (Text.of " " ++ value) = some value :=
    areBlanks_space.afterSomeBlanks_append (by simpa using hvalue.head [])
  simp only [List.mem_cons, List.not_mem_nil, or_false] at hconnector
  rcases hconnector with rfl | rfl | rfl
  · exact englishValue?_eq hvalue
  · have hword : afterAnyCase? (Text.of "with") (Text.of "with " ++ value) =
        some (Text.of " " ++ value) := afterAnyCase?_append "with" (Text.of " " ++ value)
    unfold englishValue?
    simp only [hword, Option.bind_eq_bind, Option.bind_some, hafter, hvalue.run?_eq,
      Option.map_some, Option.some_or]
  · have hwith : afterAnyCase? (Text.of "with") (Text.of "as " ++ value) = none :=
      afterAnyCase?_eq_none (show _ = Text.of "as " by decide) (by decide) (by decide) (by decide)
        (by decide) _ _
    have hword : afterAnyCase? (Text.of "as") (Text.of "as " ++ value) =
        some (Text.of " " ++ value) := afterAnyCase?_append "as" (Text.of " " ++ value)
    unfold englishValue?
    simp only [hwith, hword, Option.bind_eq_bind, Option.bind_none, Option.bind_some, hafter,
      hvalue.run?_eq, Option.map_some, Option.none_or, Option.some_or]

/-- The letters that are taken for an i and for an n. -/
theorem mem_of_matchesLetter {c : CodePoint} :
    (matchesLetter 'i' c = true → c ∈ Text.of "iIİı") ∧
      (matchesLetter 'n' c = true → c ∈ Text.of "nN") := by
  by_cases htwin : c.IsTwin
  · have htwins : ∀ twin ∈ Text.of "\u0130\u0131\u017f\u212a",
        (matchesLetter 'i' twin = true → twin ∈ Text.of "iIİı") ∧
          (matchesLetter 'n' twin = true → twin ∈ Text.of "nN") := by decide +kernel
    exact htwins c htwin.mem
  · refine ⟨fun h => ?_, fun h => ?_⟩
    · have hc := asciiLower_eq_of_matchesLetter (by decide) (by decide) h htwin
      rcases CodePoint.eq_or_capital 'I' hc (by decide) with rfl | rfl <;> decide
    · have hc := asciiLower_eq_of_matchesLetter (by decide) (by decide) h htwin
      rcases CodePoint.eq_or_capital 'N' hc (by decide) with rfl | rfl <;> decide

/-- A text that begins with `in` in any case. -/
theorem exists_of_afterAnyCase?_in (h : afterAnyCase? "in" t = some rest) :
    ∃ i n, i ∈ Text.of "iIİı" ∧ n ∈ Text.of "nN" ∧ t = i :: n :: rest := by
  match t with
  | [] => exact absurd h (by simp [afterAnyCase?, Text.of])
  | [c] =>
    have hnone : afterAnyCase? "in" [c] = none := by
      change (if matchesLetter 'i' c then none else none) = none
      exact ite_self _
    exact absurd (hnone.symm.trans h) (by simp)
  | c :: d :: more =>
    change (if matchesLetter 'i' c then if matchesLetter 'n' d then some more else none
      else none) = some rest at h
    split at h
    next hi =>
      split at h
      next hn =>
        obtain rfl := Option.some.inj h
        exact ⟨c, d, mem_of_matchesLetter.1 hi, mem_of_matchesLetter.2 hn, rfl⟩
      next => exact absurd h (by simp)
    next => exact absurd h (by simp)

/-- What stands behind a keyword. -/
def english (field connector value : Text) : Text := " " ++ (field ++ (" " ++ (connector ++ value)))

theorem afterSomeBlanks_english (hfield : IsPlainWord field) (connector value : Text) :
    afterSomeBlanks (english field connector value) =
      some (field ++ (" " ++ (connector ++ value))) :=
  areBlanks_space.afterSomeBlanks_append (hfield.head _)

/-- Behind `fill` there is no second word `in`, even if the field begins with it. -/
theorem fieldIn_eq_none (hfield : IsPlainWord field) (hin : ¬ IsIn field) (connector value : Text) :
    (afterAnyCase? "in" (field ++ (" " ++ (connector ++ value)))).bind englishFieldAndValue? =
      none := by
  cases hrest : afterAnyCase? "in" (field ++ (" " ++ (connector ++ value))) with
  | none => rfl
  | some rest =>
    obtain ⟨i, n, hi, hn, heq⟩ := exists_of_afterAnyCase?_in hrest
    match field, hfield with
    | [], hfield => exact absurd rfl hfield.ne_nil
    | [c], _ =>
      -- The blank behind the field is no letter.
      obtain ⟨rfl, hmore⟩ := List.cons_eq_cons.mp heq
      obtain ⟨rfl, -⟩ := List.cons_eq_cons.mp hmore
      exact absurd hn (by decide)
    | [c, d], _ =>
      obtain ⟨rfl, hmore⟩ := List.cons_eq_cons.mp heq
      obtain ⟨rfl, -⟩ := List.cons_eq_cons.mp hmore
      exact absurd ⟨c, hi, d, hn, rfl⟩ hin
    | c :: d :: e :: more, hfield =>
      obtain ⟨-, hmore⟩ := List.cons_eq_cons.mp heq
      obtain ⟨-, rfl⟩ := List.cons_eq_cons.mp hmore
      have hblank : afterSomeBlanks (e :: (more ++ (" " ++ (connector ++ value)))) = none := by
        simp [afterSomeBlanks, hfield.unbroken e (by simp)]
      unfold englishFieldAndValue?
      simp only [Option.bind_some]
      exact congrArg (Option.bind · _) hblank

/-- Two words with a space between them. -/
theorem exists_of_fillIn (h : keyword.map CodePoint.asciiLower = "fill in") :
    ∃ fill word, keyword = fill ++ " " ++ word ∧ fill.map CodePoint.asciiLower = "fill" ∧
      word.map CodePoint.asciiLower = "in" := by
  obtain ⟨fill, second, rfl, hfill, hsecond⟩ := List.map_eq_append_iff.mp
    (show keyword.map CodePoint.asciiLower = Text.of "fill" ++ Text.of " in" from h)
  obtain ⟨c, word, rfl, hc, hword⟩ := List.map_eq_cons_iff.mp
    (show second.map CodePoint.asciiLower = CodePoint.ofChar ' ' :: Text.of "in" from hsecond)
  rcases CodePoint.val_of_asciiLower_eq hc with rfl | ⟨hcapital, -, hval⟩
  · exact ⟨fill, word, by simp [Text.of], hfill, hword⟩
  · have hspace : (CodePoint.ofChar ' ').val = 0x20 := rfl
    omega

section

variable (hfield : IsPlainWord field) (hvalue : IsPlainWord value)
  (hconnector : connector ∈ (["", "with ", "as "] : List Text))
include hfield hvalue hconnector

theorem englishFieldAndValue?_english :
    englishFieldAndValue? (english field connector value) = some ⟨field, value⟩ := by
  have hhead : ∀ c ∈ (connector ++ value).head?, c.isBlank = false := by
    have hconnectors : ∀ connector ∈ (["", "with ", "as "] : List Text),
        ∀ c ∈ connector.head?, c.isBlank = false := by decide
    cases connector with
    | nil => simpa using hvalue.head []
    | cons c more => simpa using hconnectors _ hconnector c rfl
  have hend := areBlanks_space.head (connector ++ value)
  unfold englishFieldAndValue?
  simp only [afterSomeBlanks_english hfield, Option.bind_eq_bind, Option.bind_some,
    run?_append hfield.ne_nil hfield.unbroken hend, areBlanks_space.afterSomeBlanks_append hhead,
    englishValue?_connector hconnector hvalue]

theorem englishInput?_english {keyword : Text}
    (hkeyword : keyword.map CodePoint.asciiLower ∈
      (["input", "fill", "fill in", "type"] : List Text))
    (hin : keyword.map CodePoint.asciiLower = "fill" → ¬ IsIn field) :
    englishInput? (keyword ++ english field connector value) = some ⟨field, value⟩ := by
  have hread := englishFieldAndValue?_english hfield hvalue hconnector
  have hword : ∀ {word : Text}, keyword.map CodePoint.asciiLower = word →
      afterAnyCase? word (keyword ++ english field connector value) =
        some (english field connector value) := by
    rintro word rfl
    exact afterAnyCase?_append keyword _
  simp only [List.mem_cons, List.not_mem_nil, or_false] at hkeyword
  unfold englishInput?
  rcases hkeyword with hinput | hfill | hfillIn | htype
  · simp only [hword hinput, Option.bind_some, hread, Option.some_or]
  · have hinput : afterAnyCase? "input" (keyword ++ english field connector value) = none :=
      afterAnyCase?_eq_none hfill (by decide) (by decide) (by decide) (by decide) _ _
    have hnone := fieldIn_eq_none hfield (hin hfill) connector value
    simp only [hinput, hword hfill, Option.bind_eq_bind, Option.bind_none, Option.bind_some,
      afterSomeBlanks_english hfield, hnone, hread, Option.none_or, Option.some_or]
  · have hinput : afterAnyCase? "input" (keyword ++ english field connector value) = none :=
      afterAnyCase?_eq_none hfillIn (by decide) (by decide) (by decide) (by decide) _ _
    obtain ⟨fill, word, rfl, hfill, hin⟩ := exists_of_fillIn hfillIn
    have hstep : fill ++ Text.of " " ++ word ++ english field connector value =
        fill ++ (Text.of " " ++ (word ++ english field connector value)) := by
      simp only [List.append_assoc]
    have hfirst : afterAnyCase? "fill" (fill ++ (Text.of " " ++
        (word ++ english field connector value))) =
          some (Text.of " " ++ (word ++ english field connector value)) :=
      hfill ▸ afterAnyCase?_append fill _
    have hsecond : afterAnyCase? "in" (word ++ english field connector value) =
        some (english field connector value) := hin ▸ afterAnyCase?_append word _
    have hhead : ∀ c ∈ (word ++ english field connector value).head?, c.isBlank = false := by
      obtain ⟨c, more, rfl, hc, -⟩ := List.map_eq_cons_iff.mp
        (show word.map CodePoint.asciiLower = CodePoint.ofChar 'i' :: Text.of "n" from hin)
      rintro d hd
      obtain rfl := Option.some.inj hd
      rcases CodePoint.eq_or_capital 'I' hc (by decide) with rfl | rfl <;> decide
    simp only [hinput, Option.bind_none, Option.none_or]
    rw [hstep]
    simp only [hfirst, hsecond, areBlanks_space.afterSomeBlanks_append hhead, hread,
      Option.bind_eq_bind, Option.bind_some, Option.some_or]
  · have hinput : afterAnyCase? "input" (keyword ++ english field connector value) = none :=
      afterAnyCase?_eq_none htype (by decide) (by decide) (by decide) (by decide) _ _
    have hfill : afterAnyCase? "fill" (keyword ++ english field connector value) = none :=
      afterAnyCase?_eq_none htype (by decide) (by decide) (by decide) (by decide) _ _
    simp only [hinput, hfill, hword htype, Option.bind_eq_bind, Option.bind_none, Option.bind_some,
      hread, Option.none_or]

end

/-- No phrasing of the other kind is found in a step without a verb of entering. -/
theorem infix_of_valueAfterVerb? (h : valueAfterVerb? t = some value) :
    ∃ verb ∈ entryVerbs, verb <:+: t := by
  obtain ⟨rest, hrest, -⟩ := Option.bind_eq_some_iff.mp h
  obtain ⟨verb, hverb, heq⟩ := eq_append_of_afterWord? hrest
  refine ⟨verb, hverb, ?_⟩
  have hin : verb <:+: afterBlanks t := heq ▸ (List.prefix_append verb rest).isInfix
  exact hin.trans (List.dropWhile_suffix _).isInfix

theorem infix_of_valueAfterField? (h : valueAfterField? t = some value) :
    ∃ verb ∈ entryVerbs, verb <:+: t := by
  have hblanks : afterBlanks t <:+: t := (List.dropWhile_suffix _).isInfix
  unfold valueAfterField? at h
  rcases Option.or_eq_some_iff.mp h with hinside | ⟨-, hvalue⟩
  · obtain ⟨word, -, hinside⟩ := List.exists_of_findSome?_eq_some hinside
    obtain ⟨rest, hrest, hvalue⟩ := Option.bind_eq_some_iff.mp hinside
    obtain ⟨other, -, heq⟩ := eq_append_of_afterWord? hrest
    obtain ⟨verb, hverb, hin⟩ := infix_of_valueAfterVerb? hvalue
    have hrest' : rest <:+: afterBlanks t := heq ▸ (List.suffix_append other rest).isInfix
    exact ⟨verb, hverb, (hin.trans hrest').trans hblanks⟩
  · obtain ⟨verb, hverb, hin⟩ := infix_of_valueAfterVerb? hvalue
    exact ⟨verb, hverb, hin.trans hblanks⟩

theorem infix_of_shortestField? {taken : Text} {found : Input}
    (h : shortestField? taken t = some found) : ∃ verb ∈ entryVerbs, verb <:+: t := by
  induction t generalizing taken with
  | nil => exact absurd h (by simp [shortestField?])
  | cons c more ih =>
    have hmore : more <:+: c :: more := (List.suffix_cons _ _).isInfix
    rw [shortestField?] at h
    split at h
    · exact absurd h (by simp)
    split at h
    next value hvalue =>
      obtain ⟨verb, hverb, hin⟩ := infix_of_valueAfterField? hvalue
      exact ⟨verb, hverb, hin.trans hmore⟩
    next =>
      obtain ⟨verb, hverb, hin⟩ := ih h
      exact ⟨verb, hverb, hin.trans hmore⟩

/-- A field is placed or listed only with a verb of entering. -/
theorem HasNoVerb.placedInput?_eq_none (h : HasNoVerb t) : placedInput? t = none := by
  cases hfound : placedInput? t with
  | none => rfl
  | some found =>
    obtain ⟨rest, hrest, hfound⟩ := Option.bind_eq_some_iff.mp hfound
    obtain ⟨word, -, heq⟩ := eq_append_of_afterWord? hrest
    obtain ⟨verb, hverb, hin⟩ := infix_of_shortestField? hfound
    have hsuffix : afterBlanks rest <:+ t :=
      (List.dropWhile_suffix _).trans (heq ▸ List.suffix_append word rest)
    exact absurd (hin.trans hsuffix.isInfix) (h verb hverb)

theorem HasNoVerb.listedInput?_eq_none (h : HasNoVerb t) : listedInput? t = none := by
  unfold listedInput?
  rw [afterWord?_eq_none fun verb hverb hstart => h verb hverb hstart.isInfix]
  rfl

/-! ## What is read -/

/-- There is no blank in a verb, so it lies in one of the words of a text. -/
theorem hasNoVerb_spaced (hs : HasNoVerb t) (hrest : HasNoVerb rest) :
    HasNoVerb (t ++ (" " ++ rest)) := by
  have hblank : ∀ verb ∈ entryVerbs, CodePoint.ofChar ' ' ∉ verb := by decide
  intro verb hverb hin
  rcases (Text.infix_append_cons_iff (hblank verb hverb) t rest).mp hin with hin | hin
  · exact hs verb hverb hin
  · exact hrest verb hverb hin

theorem hasNoVerb_of_ascii (h : ∀ c ∈ t, c.val < 0x80) : HasNoVerb t := by
  have hlarge : ∀ verb ∈ entryVerbs, ∃ c ∈ verb, 0x80 ≤ c.val := by decide
  intro verb hverb hin
  obtain ⟨c, hc, hc'⟩ := hlarge verb hverb
  have := h c (hin.subset hc)
  omega

theorem hasNoVerb_english (hfield : HasNoVerb field) (hvalue : HasNoVerb value)
    (hkeyword : keyword.map CodePoint.asciiLower ∈
      (["input", "fill", "fill in", "type"] : List Text))
    (hconnector : connector ∈ (["", "with ", "as "] : List Text)) :
    HasNoVerb (keyword ++ english field connector value) := by
  have hspelled : HasNoVerb keyword := by
    have hwords : ∀ word ∈ (["input", "fill", "fill in", "type"] : List Text),
        ∀ c ∈ word, c.val < 0x80 := by decide
    exact hasNoVerb_of_ascii fun c hc =>
      CodePoint.lt_of_asciiLower_lt (hwords _ hkeyword _ (List.mem_map_of_mem hc))
  have hconnected : HasNoVerb (connector ++ value) := by
    simp only [List.mem_cons, List.not_mem_nil, or_false] at hconnector
    rcases hconnector with rfl | rfl | rfl
    · exact hvalue
    · exact hasNoVerb_spaced (hasNoVerb_of_ascii (t := Text.of "with") (by decide)) hvalue
    · exact hasNoVerb_spaced (hasNoVerb_of_ascii (t := Text.of "as") (by decide)) hvalue
  exact hasNoVerb_spaced hspelled (hasNoVerb_spaced hfield hconnected)

/-- A step that says a field and a value in one of the phrasings is read so, whatever the data of
its feature are. -/
theorem input_of_says {step : Text} (hfield : IsPlainWord field) (hvalue : IsPlainWord value)
    (h : Says field value step) (data : Option Input) : input step data = ⟨field, value⟩ := by
  have hcleaned := cleaned?_eq hfield hvalue
  have hsaid : [placedInput?, listedInput?, englishInput?].findSome? (fun search =>
      (firstPlace search step).bind cleaned?) = some ⟨field, value⟩ := by
    cases h with
    | placed hnone hlast hinside hverb =>
      have hfound := firstPlace_of_some
        (placedInput?_placed hfield hvalue hnone hlast hinside hverb)
      simp only [List.findSome?_cons, hfound, Option.bind_some, hcleaned]
    | @listed verb first second hmark hverb hfirst hsecond =>
      -- The mark of the first phrasing is not in the step.
      have hplaced : firstPlace placedInput? (verb ++ first ++ field ++ second ++ value) = none := by
        refine firstPlace_eq_none fun s hs => placedInput?_eq_none fun c hc => ?_
        have hverbs : ∀ verb ∈ entryVerbs, ∀ c ∈ verb, c ≠ '在' := by decide
        have hblanks : ∀ {c : CodePoint}, c.isBlank = true → c ≠ '在' := by
          rintro c hc rfl
          exact absurd hc (by decide)
        have hmem := hs.subset hc
        simp only [List.mem_append] at hmem
        rcases hmem with (((hmem | hmem) | hmem) | hmem) | hmem
        · exact hverbs verb hverb c hmem
        · exact hblanks (hfirst.blank c hmem)
        · exact hmark c (List.mem_append_left _ hmem)
        · exact hblanks (hsecond.blank c hmem)
        · exact hmark c (List.mem_append_right _ hmem)
      have hfound := firstPlace_of_some (listedInput?_listed hfield hvalue hverb hfirst hsecond)
      simp only [List.findSome?_cons, hplaced, hfound, Option.bind_none, Option.bind_some, hcleaned]
    | @english keyword connector hfieldNone hvalueNone hkeyword hin hconnector =>
      have hstep : keyword ++ Text.of " " ++ field ++ Text.of " " ++ connector ++ value =
          keyword ++ english field connector value := by simp only [english, List.append_assoc]
      have hnone := hasNoVerb_english hfieldNone hvalueNone hkeyword hconnector
      rw [hstep]
      have hplaced := firstPlace_eq_none fun s hs => (hnone.suffix hs).placedInput?_eq_none
      have hlisted := firstPlace_eq_none fun s hs => (hnone.suffix hs).listedInput?_eq_none
      have hfound := firstPlace_of_some
        (englishInput?_english hfield hvalue hconnector hkeyword hin)
      simp only [List.findSome?_cons, hplaced, hlisted, hfound, Option.bind_none, Option.bind_some,
        hcleaned]
  unfold input
  rw [hsaid]
  rfl

/-- A field that begins with a word for its inside, one that is a verb of another phrasing, and one
that is the second word of a keyword. -/
theorem input_of_says_username :
    input "在中文名框里填写输入" none = ⟨"中文名", "输入"⟩ ∧
      input "填入 输入　b" none = ⟨"输入", "b"⟩ ∧
      input "FILL In Inbox as with" none = ⟨"Inbox", "with"⟩ ∧
      input "Type in with 在" none = ⟨"in", "在"⟩ := by
  have hplain : ∀ word ∈ (["中文名", "输入", "b", "Inbox", "with", "in", "在"] : List Text),
      IsPlainWord word := by decide
  have hverbs : ∀ word ∈ (["中文名", "Inbox", "with", "in", "在"] : List Text), HasNoVerb word := by
    decide
  refine ⟨?_, ?_, ?_, ?_⟩
  · have hsays : Says "中文名" "输入" ("在" ++ "中文名" ++ "框里" ++ "填写" ++ "输入") :=
      .placed (hverbs _ (by decide)) (by decide) (by decide) (by decide)
    exact input_of_says (hplain _ (by decide)) (hplain _ (by decide)) hsays none
  · have hsays : Says "输入" "b" ("填入" ++ " " ++ "输入" ++ "　" ++ "b") :=
      .listed (by decide) (by decide) ⟨by decide, by decide⟩ ⟨by decide, by decide⟩
    exact input_of_says (hplain _ (by decide)) (hplain _ (by decide)) hsays none
  · have hsays : Says "Inbox" "with" ("FILL In" ++ " " ++ "Inbox" ++ " " ++ "as " ++ "with") :=
      .english (hverbs _ (by decide)) (hverbs _ (by decide)) (by decide) (by decide) (by decide)
    exact input_of_says (hplain _ (by decide)) (hplain _ (by decide)) hsays none
  · have hsays : Says "in" "在" ("Type" ++ " " ++ "in" ++ " " ++ "with " ++ "在") :=
      .english (hverbs _ (by decide)) (hverbs _ (by decide)) (by decide) (by decide) (by decide)
    exact input_of_says (hplain _ (by decide)) (hplain _ (by decide)) hsays none

end Step

end Acceptance
