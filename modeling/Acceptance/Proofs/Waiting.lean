import Mathlib.Data.List.TakeWhile
import Mathlib.Data.Nat.Digits.Defs
import Acceptance.Proofs.AnyCase
import Acceptance.Proofs.Pieces
import Acceptance.Step.Wait

/-! # Waiting

A step's first number is a number of seconds if a unit of seconds follows it, and of milliseconds
otherwise. A word that only begins like a unit is none: no shorter unit is found in it. -/

namespace Acceptance

namespace Step

variable {before digits after t word : Text}

/-! ## Numbers -/

/-- The number that digits of any script say, the first of them counting most. -/
def numberOf (digits : Text) : Nat := Nat.ofDigits 10 (digits.reverse.map fun c => c.digit?.getD 0)

theorem digitsValue_eq_numberOf (digits : Text) : Text.digitsValue digits = numberOf digits := by
  unfold numberOf
  induction digits using List.reverseRecOn with
  | nil => rfl
  | append_singleton digits c ih =>
    rw [List.reverse_append, List.reverse_singleton, List.singleton_append, List.map_cons,
      Nat.ofDigits_cons, ← ih]
    simp only [Text.digitsValue, List.foldl_append, List.foldl_cons, List.foldl_nil]
    omega

/-- Where the first number of a step stands. -/
structure IsFirstNumber (before digits after : Text) : Prop where
  before : ∀ c ∈ before, c.isDigit = false
  ne_nil : digits ≠ []
  digit : ∀ c ∈ digits, c.isDigit = true
  ends : ∀ c ∈ after.head?, c.isDigit = false

/-! ## Units -/

/-- The word stands in front in ASCII letters of either case, and is a word of its own. -/
def BeginsWith (t word : Text) : Prop :=
  (t.take word.length).map CodePoint.asciiLower = word ∧
    ∀ c ∈ (t.drop word.length).head?, c.isAsciiLetter = false

instance (t word : Text) : Decidable (BeginsWith t word) := inferInstanceAs (Decidable (_ ∧ _))

/-- The units of seconds in letters. -/
def secondWords : List Text := ["s", "sec", "secs", "second", "seconds"]

/-- A unit of seconds stands in front. -/
def SaysSeconds (t : Text) : Prop := "秒" <+: t ∨ ∃ word ∈ secondWords, BeginsWith t word

instance (t : Text) : Decidable (SaysSeconds t) := inferInstanceAs (Decidable (_ ∨ _))

theorem mem_latinUnits_iff : word ∈ latinUnits ↔ word = "ms" ∨ word ∈ secondWords := by
  simp only [latinUnits, secondWords, List.mem_cons, List.not_mem_nil, or_false]
  tauto

theorem continuesWord_eq {c : CodePoint} (h : ¬ c.IsTwin) : continuesWord c = c.isAsciiLetter := by
  simp only [CodePoint.IsTwin, List.mem_cons, List.not_mem_nil, or_false, not_or] at h
  simp [continuesWord, h]

/-- A unit is found if it is a word of its own. -/
theorem startsWithUnit_iff (hword : word ∈ latinUnits) (htwin : ∀ c ∈ t, ¬ c.IsTwin) :
    startsWithUnit t word = true ↔ BeginsWith t word := by
  have hsmall : ∀ word ∈ latinUnits, ∀ letter ∈ word,
      letter.val < 0x80 ∧ letter.asciiLower = letter := by decide
  unfold startsWithUnit
  cases hafter : afterAnyCase? word t with
  | none =>
    refine iff_of_false (by simp) fun hbegins => ?_
    have hsome := (afterAnyCase?_eq_some_iff (hsmall word hword) htwin).mpr
      ⟨t.take word.length, (List.take_append_drop _ t).symm, hbegins.1⟩
    exact absurd (hafter ▸ hsome) (by simp)
  | some rest =>
    obtain ⟨spelled, rfl, rfl⟩ := (afterAnyCase?_eq_some_iff (hsmall word hword) htwin).mp hafter
    have hletter : ∀ c ∈ rest.head?, continuesWord c = c.isAsciiLetter := fun c hc =>
      continuesWord_eq (htwin c (List.mem_append_right _ (List.mem_of_mem_head? hc)))
    cases rest with
    | nil => simp [BeginsWith]
    | cons c rest => simp [BeginsWith, hletter c rfl]

/-- A word in front is lower-cased to itself, letter by letter. -/
theorem lower_take (h : (t.take word.length).map CodePoint.asciiLower = word)
    (hword : word ∈ latinUnits) : Text.lower (t.take word.length) = word := by
  have hascii : ∀ word ∈ latinUnits, ∀ letter ∈ word, letter.val < 0x80 := by decide
  have hplain : ∀ c ∈ t.take word.length, c.IsPlain := by
    intro c hc
    have hlower : c.asciiLower ∈ word := h ▸ List.mem_map_of_mem hc
    exact CodePoint.isPlain_of_ascii (CodePoint.lt_of_asciiLower_lt (hascii word hword _ hlower))
  exact (Text.lower_eq_map hplain).trans h

/-- What begins with another letter says no seconds. -/
theorem not_saysSeconds {c : CodePoint} (h : c.asciiLower ≠ 's') (hmark : c ≠ '秒') (rest : Text) :
    ¬ SaysSeconds (c :: rest) := by
  have hfirst : ∀ word ∈ secondWords, word.head? = some ('s' : CodePoint) := by decide
  rintro (hstart | ⟨word, hword, hbegins, -⟩)
  · exact hmark (List.cons_prefix_cons.mp hstart).1.symm
  · obtain ⟨more, rfl⟩ := List.head?_eq_some_iff.mp (hfirst word hword)
    exact h (List.cons.inj hbegins).1

/-- The unit that is found is one of seconds if one of seconds stands in front. -/
theorem unit?_iff (htwin : ∀ c ∈ t, ¬ c.IsTwin) :
    (∃ unit, unit? t = some unit ∧ Text.lower unit ∈ secondUnits) ↔ SaysSeconds t := by
  unfold unit?
  split
  next hstart =>
    obtain ⟨rest, rfl⟩ := Text.startsWith_iff.mp hstart
    -- The mark for seconds is in this unit, too, but not in front.
    have hmilli : ¬ SaysSeconds ("毫秒" ++ rest) := not_saysSeconds (by decide) (by decide) _
    refine iff_of_false ?_ hmilli
    rintro ⟨unit, hunit, hsecond⟩
    rw [← Option.some.inj hunit] at hsecond
    exact absurd hsecond (by decide)
  next =>
  split
  next hstart =>
    exact iff_of_true ⟨_, rfl, by decide⟩ (.inl (Text.startsWith_iff.mp hstart))
  next hmark =>
  have hmark' : ¬ Text.of "秒" <+: t := fun hstart => hmark (Text.startsWith_iff.mpr hstart)
  cases hfind : latinUnits.find? (startsWithUnit t) with
  | none =>
    refine iff_of_false (by simp) ?_
    rintro (hstart | ⟨word, hword, hbegins⟩)
    · exact hmark' hstart
    · have hin := mem_latinUnits_iff.mpr (.inr hword)
      exact List.find?_eq_none.mp hfind word hin ((startsWithUnit_iff hin htwin).mpr hbegins)
  | some word =>
    have hin := List.mem_of_find?_eq_some hfind
    have hbegins := (startsWithUnit_iff hin htwin).mp (List.find?_some hfind)
    simp only [Option.map_some, Option.some.injEq, exists_eq_left', lower_take hbegins.1 hin]
    rcases mem_latinUnits_iff.mp hin with rfl | hsecond
    -- Milliseconds begin with another letter than all units of seconds.
    · obtain ⟨c, rest, rfl⟩ : ∃ c rest, t = c :: rest := by
        cases t with
        | nil => exact absurd hbegins.1 (by decide)
        | cons c rest => exact ⟨c, rest, rfl⟩
      have hc : c.asciiLower = 'm' := (List.cons.inj hbegins.1).1
      refine iff_of_false (by decide) (not_saysSeconds ?_ ?_ rest)
      · rw [hc]; decide
      · rintro rfl
        exact absurd hc (by decide)
    · have hknown : ∀ word ∈ secondWords, word ∈ secondUnits := by decide
      exact iff_of_true (hknown word hsecond) (.inr ⟨word, hsecond, hbegins⟩)

/-! ## What a step asks for -/

/-- A step with a digit has a first number. -/
theorem exists_isFirstNumber (h : ∃ c ∈ t, c.isDigit = true) :
    ∃ before digits after, t = before ++ digits ++ after ∧ IsFirstNumber before digits after := by
  obtain ⟨before, c, rest, rfl, hc, hbefore⟩ : ∃ before c rest, t = before ++ c :: rest ∧
      c.isDigit = true ∧ ∀ c ∈ before, c.isDigit = false := by
    obtain ⟨c, hfind⟩ := Option.isSome_iff_exists.mp (List.find?_isSome.mpr h)
    obtain ⟨hc, before, rest, rfl, hbefore⟩ := List.find?_eq_some_iff_append.mp hfind
    exact ⟨before, c, rest, rfl, hc, by simpa using hbefore⟩
  refine ⟨before, (c :: rest).takeWhile (·.isDigit), (c :: rest).dropWhile (·.isDigit), ?_, ?_⟩
  · rw [List.append_assoc, List.takeWhile_append_dropWhile]
  · exact
      { before := hbefore
        ne_nil := by simp [hc]
        digit := fun _ hd => List.mem_takeWhile_imp hd
        ends := by
          intro d hd
          have := List.head?_dropWhile_not (fun c : CodePoint => c.isDigit) (c :: rest)
          simp only [Option.mem_def.mp hd] at this
          simpa using this }

theorem waitTime_of_unsaid (h : ∀ c ∈ t, c.isDigit = false) (fallback : Int) :
    waitTime t fallback = .ok fallback := by
  have hrest : t.dropWhile (!·.isDigit) = [] := List.dropWhile_eq_nil_iff.mpr (by simpa using h)
  simp only [waitTime, hrest, List.takeWhile_nil, List.isEmpty_nil, if_true]

theorem waitTime_of_said (h : IsFirstNumber before digits after)
    (hshort : digits.length ≤ Value.mostDigits)
    (htwin : ∀ c ∈ Text.trimLeft after, ¬ c.IsTwin) (fallback : Int) :
    waitTime (before ++ digits ++ after) fallback =
      .ok (if SaysSeconds (Text.trimLeft after) then 1000 * numberOf digits
        else numberOf digits) := by
  have hbefore : ∀ c ∈ before, (!c.isDigit) = true := by simpa using h.before
  have hdigits : ∀ c ∈ (digits ++ after).head?, (!c.isDigit) = false :=
    Text.head_run h.ne_nil (by simpa using h.digit) after
  have hrest : (before ++ digits ++ after).dropWhile (!·.isDigit) = digits ++ after := by
    rw [List.append_assoc, Text.dropWhile_run hbefore hdigits]
  have hsome : digits.isEmpty = false := by simp [h.ne_nil]
  have hunit : (∃ unit, unit? (afterBlanks after) = some unit ∧ Text.lower unit ∈ secondUnits) ↔
      SaysSeconds (Text.trimLeft after) := unit?_iff htwin
  simp only [waitTime, hrest, Text.takeWhile_run h.digit h.ends, hsome, Bool.false_eq_true, if_false,
    if_neg (Nat.not_lt.mpr hshort), List.drop_left]
  rw [digitsValue_eq_numberOf, mul_comm]
  congr 1
  refine if_congr ?_ rfl rfl
  rw [← hunit]
  cases unit? (afterBlanks after) with
  | none => simp
  | some unit => simp

/-- A step that says no number waits as long as is set. Every other step has a first number, and
waits for so many seconds if a unit of seconds comes after it, and else for so many
milliseconds. -/
theorem waitTime_eq (step : Text) (fallback : Int) :
    ((∀ c ∈ step, c.isDigit = false) → waitTime step fallback = .ok fallback) ∧
      ((∃ c ∈ step, c.isDigit = true) → ∃ before digits after,
        step = before ++ digits ++ after ∧ IsFirstNumber before digits after) ∧
      ∀ before digits after, step = before ++ digits ++ after →
        IsFirstNumber before digits after → digits.length ≤ 4300 →
        (∀ c ∈ Text.trimLeft after, ¬ c.IsTwin) →
        waitTime step fallback = .ok (if SaysSeconds (Text.trimLeft after)
          then 1000 * numberOf digits else numberOf digits) := by
  refine ⟨fun h => waitTime_of_unsaid h fallback, exists_isFirstNumber, ?_⟩
  rintro before digits after rfl hnumber hshort htwin
  exact waitTime_of_said hnumber hshort htwin fallback

/-- A unit in capitals, digits that are not of ASCII, milliseconds, a word that only begins like a
unit, and a second number that does not count. -/
theorem waitTime_eq_seconds :
    waitTime "wait 3 SECS." 2000 = .ok 3000 ∧ waitTime "等待１２秒" 2000 = .ok 12000 ∧
      waitTime "500 ms" 2000 = .ok 500 ∧ waitTime "4 secondary, 5 s" 2000 = .ok 4 ∧
      waitTime "wait" 2000 = .ok 2000 := by
  have hseconds : IsFirstNumber "wait " "3" " SECS." := ⟨by decide, by decide, by decide, by decide⟩
  have hwide : IsFirstNumber "等待" "１２" "秒" := ⟨by decide, by decide, by decide, by decide⟩
  have hmilli : IsFirstNumber "" "500" " ms" := ⟨by decide, by decide, by decide, by decide⟩
  have hword : IsFirstNumber "" "4" " secondary, 5 s" :=
    ⟨by decide, by decide, by decide, by decide⟩
  exact ⟨(waitTime_eq _ _).2.2 _ _ _ (by decide) hseconds (by decide) (by decide),
    (waitTime_eq _ _).2.2 _ _ _ (by decide) hwide (by decide) (by decide),
    (waitTime_eq _ _).2.2 _ _ _ (by decide) hmilli (by decide) (by decide),
    (waitTime_eq _ _).2.2 _ _ _ (by decide) hword (by decide) (by decide),
    (waitTime_eq _ _).1 (by decide)⟩

end Step

end Acceptance
