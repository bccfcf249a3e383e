import Acceptance.Proofs.Navigating
import Acceptance.Proofs.Spelling

/-! # Cutting words off a step

A verb is cut off the start of a step, and a word for the kind of an element off the end of a
target. The words are looked for in lower case, where a text may be longer than it is written. What
is cut off is nevertheless the word as it is spelled there, no more and no less. -/

namespace Acceptance

namespace Step

variable {step word t : Text} {verbs : List Text}

/-! ## The words -/

/-- The groups of verbs of which one is cut off. -/
def cutGroups : List (List Text) := [navigateVerbs ++ clickVerbs, verifyVerbs, verifyFillers]

/-- The word is the longest of those that the text starts with: all others are shorter. -/
structure IsLongestStart (words : List Text) (t word : Text) : Prop where
  mem : word ∈ words
  starts : word <+: t
  longest : ∀ other ∈ words, other <+: t → other = word ∨ other.length < word.length

/-- The text ends with a word for the kind of an element, in any case, behind something else. -/
structure EndsWithKind (t rest spelled : Text) : Prop where
  eq_append : t = rest ++ spelled
  behind : rest ≠ []
  kind : Text.lower spelled ∈ elementSuffixes

theorem isTraceless_verb (hverbs : verbs ∈ cutGroups) (hword : word ∈ verbs) :
    Text.IsTraceless word ∧ ∀ c ∈ word.getLast?, c ≠ 'i' := by
  have hall : ∀ verbs ∈ cutGroups, ∀ word ∈ verbs,
      Text.IsTraceless word ∧ ∀ c ∈ word.getLast?, c ≠ 'i' := by decide +kernel
  exact hall verbs hverbs word hword

theorem isTraceless_suffix : ∀ word ∈ elementSuffixes, Text.IsTraceless word := by decide

/-- No word for the kind of an element is the end of another. -/
theorem suffix_eq_of_end : ∀ v ∈ elementSuffixes, ∀ w ∈ elementSuffixes, v <:+ w → v = w := by
  decide

/-! ## Verbs -/

theorem isLongestStart_of_longest?
    (h : longest? List.length (Text.startsWith t) verbs = some word) :
    IsLongestStart verbs t word := by
  have hstarts : word <+: t := Text.startsWith_iff.mp (longest?_eq_some h).1
  refine ⟨mem_of_longest? h, hstarts, fun other hother hstarts' => ?_⟩
  have hle := length_le_of_longest? h other hother (Text.startsWith_iff.mpr hstarts')
  rcases Nat.lt_or_eq_of_le hle with hshort | hlength
  · exact .inr hshort
  · -- Two starts of one text are the same if they are equally long.
    have hstart := List.prefix_of_prefix_length_le hstarts' hstarts hle
    exact .inl (hstart.eq_of_length hlength)

/-- Either the step starts with no verb in lower case, or it is cut by the length of the longest. -/
theorem withoutVerb_cases (step : Text) (verbs : List Text) :
    (∀ verb ∈ verbs, ¬ verb <+: Text.lower (Text.trim step)) ∧
        withoutVerb step verbs = Text.trim step ∨
      ∃ word, IsLongestStart verbs (Text.lower (Text.trim step)) word ∧
        withoutVerb step verbs = Text.trim ((Text.trim step).drop word.length) := by
  unfold withoutVerb
  dsimp only
  split
  next word hfound => exact .inr ⟨word, isLongestStart_of_longest? hfound, rfl⟩
  next hnone =>
    refine .inl ⟨fun verb hverb hstarts => ?_, rfl⟩
    have hnot := longest?_eq_none hnone verb hverb
    simp [Text.startsWith_iff.mpr hstarts] at hnot

theorem withoutVerb_of_start (hverbs : verbs ∈ cutGroups)
    (h : ∃ verb ∈ verbs, verb <+: Text.lower (Text.trim step)) :
    ∃ word spelled rest, IsLongestStart verbs (Text.lower (Text.trim step)) word ∧
      Text.trim step = spelled ++ rest ∧ spelled.length = word.length ∧
      Text.lower spelled = word ∧ withoutVerb step verbs = Text.trim rest := by
  rcases withoutVerb_cases step verbs with ⟨hnone, -⟩ | ⟨word, hlongest, hcut⟩
  · obtain ⟨verb, hverb, hstarts⟩ := h
    exact absurd hstarts (hnone verb hverb)
  · obtain ⟨htraceless, hlast⟩ := isTraceless_verb hverbs hlongest.mem
    obtain ⟨spelled, rest, hstep, hspells⟩ :=
      (Text.prefix_lower_iff htraceless hlast).mp hlongest.starts
    refine ⟨word, spelled, rest, hlongest, hstep, hspells.length_eq, hspells.lower_eq, ?_⟩
    rw [hcut, hstep, ← hspells.length_eq, List.drop_left]

/-! ## Words for kinds of elements -/

section

variable {rest spelled rest' spelled' : Text}

theorem EndsWithKind.suffix_lower (h : EndsWithKind t rest spelled) :
    Text.lower spelled <:+ Text.lower t := by
  have htraceless := isTraceless_suffix _ h.kind
  exact (Text.suffix_lower_iff htraceless).mpr
    ⟨rest, spelled, h.eq_append, (Text.spells_iff htraceless).mpr rfl⟩

theorem EndsWithKind.length_lower (h : EndsWithKind t rest spelled) :
    (Text.lower spelled).length = spelled.length :=
  ((Text.spells_iff (isTraceless_suffix _ h.kind)).mpr rfl).length_eq.symm

/-- A text ends with at most one such word. -/
theorem EndsWithKind.spelled_eq (h : EndsWithKind t rest spelled)
    (h' : EndsWithKind t rest' spelled') : spelled' = spelled := by
  have hlower : Text.lower spelled' = Text.lower spelled := by
    rcases List.suffix_or_suffix_of_suffix h'.suffix_lower h.suffix_lower with hend | hend
    · exact suffix_eq_of_end _ h'.kind _ h.kind hend
    · exact (suffix_eq_of_end _ h.kind _ h'.kind hend).symm
  have hlength : spelled'.length = spelled.length := by
    rw [← h'.length_lower, hlower, h.length_lower]
  have hsame : rest' ++ spelled' = rest ++ spelled := h'.eq_append.symm.trans h.eq_append
  exact (List.append_inj' hsame hlength).2

end

theorem clickTarget_cases (step : Text) :
    (∃ rest spelled, EndsWithKind (cleanTarget step) rest spelled ∧
        clickTarget step = Text.trim rest) ∨
      (∀ rest spelled, ¬ EndsWithKind (cleanTarget step) rest spelled) ∧
        clickTarget step = cleanTarget step := by
  unfold clickTarget
  generalize cleanTarget step = target
  dsimp only
  split
  next word hfound =>
    have hfits := List.find?_some hfound
    have hmem := List.mem_of_find?_eq_some hfound
    rw [Bool.and_eq_true, decide_eq_true_eq] at hfits
    obtain ⟨rest, spelled, rfl, hspells⟩ := (Text.suffix_lower_iff (isTraceless_suffix _ hmem)).mp
      (List.isSuffixOf_iff_suffix.mp hfits.1)
    have hlength := hspells.length_eq
    have hbehind : rest ≠ [] := by
      rintro rfl
      simp [hlength] at hfits
    refine .inl ⟨rest, spelled, ⟨rfl, hbehind, hspells.lower_eq ▸ hmem⟩, ?_⟩
    rw [Text.dropEnd, ← hlength, List.length_append, Nat.add_sub_cancel, List.take_left]
  next hnone =>
    refine .inr ⟨fun rest spelled hends => ?_, rfl⟩
    have hnot := List.find?_eq_none.mp hnone _ hends.kind
    have hlength : (Text.lower spelled).length < target.length := by
      have := List.length_pos_iff.mpr hends.behind
      rw [hends.length_lower, hends.eq_append, List.length_append]
      omega
    rw [Bool.and_eq_true, decide_eq_true_eq] at hnot
    exact hnot ⟨List.isSuffixOf_iff_suffix.mpr hends.suffix_lower, hlength⟩

/-! ## What is cut off -/

/-- A trimmed text that starts with no verb of the group, in lower case, is left as it is. Otherwise
the longest verb that it starts with is cut off as it is spelled there, and the rest is trimmed. Of
a target, the one word for the kind of an element that it ends with is cut off as it is spelled, and
nothing if there is no such word behind something else. -/
theorem cut_as_spelled (t : Text) :
    (∀ verbs ∈ cutGroups,
      ((∀ verb ∈ verbs, ¬ verb <+: Text.lower (Text.trim t)) →
        withoutVerb t verbs = Text.trim t) ∧
      ((∃ verb ∈ verbs, verb <+: Text.lower (Text.trim t)) →
        ∃ word spelled rest, IsLongestStart verbs (Text.lower (Text.trim t)) word ∧
          Text.trim t = spelled ++ rest ∧ spelled.length = word.length ∧
          Text.lower spelled = word ∧ withoutVerb t verbs = Text.trim rest)) ∧
    ((∃ rest spelled, EndsWithKind (cleanTarget t) rest spelled ∧
        (∀ rest' spelled', EndsWithKind (cleanTarget t) rest' spelled' → spelled' = spelled) ∧
        clickTarget t = Text.trim rest) ∨
      (∀ rest spelled, ¬ EndsWithKind (cleanTarget t) rest spelled) ∧
        clickTarget t = cleanTarget t) := by
  refine ⟨fun verbs hverbs => ⟨fun hnone => ?_, withoutVerb_of_start hverbs⟩, ?_⟩
  · rcases withoutVerb_cases t verbs with ⟨-, hkept⟩ | ⟨word, hlongest, -⟩
    · exact hkept
    · exact absurd hlongest.starts (hnone word hlongest.mem)
  · refine (clickTarget_cases t).imp_left ?_
    rintro ⟨rest, spelled, hends, hcut⟩
    exact ⟨rest, spelled, hends, fun _ _ => hends.spelled_eq, hcut⟩

/-- The sign of the kelvin is lower-cased to a k, and what is left becomes longer in lower case. -/
theorem cut_as_spelled_kelvin :
    let step : Text := " CLIC\u212a İİ Lin\u212a"
    navigateVerbs ++ clickVerbs ∈ cutGroups ∧
      (∃ verb ∈ navigateVerbs ++ clickVerbs, verb <+: Text.lower (Text.trim step)) ∧
      (∃ word spelled rest, IsLongestStart (navigateVerbs ++ clickVerbs)
          (Text.lower (Text.trim step)) word ∧ Text.trim step = spelled ++ rest ∧
        spelled.length = word.length ∧ Text.lower spelled = word ∧
        withoutVerb step (navigateVerbs ++ clickVerbs) = Text.trim rest) ∧
      withoutVerb step (navigateVerbs ++ clickVerbs) = "İİ Lin\u212a" ∧
      clickTarget step = "İİ" := by
  intro step
  have hgroup : navigateVerbs ++ clickVerbs ∈ cutGroups := by decide
  have hstarts : ∃ verb ∈ navigateVerbs ++ clickVerbs, verb <+: Text.lower (Text.trim step) := by
    decide +kernel
  exact ⟨hgroup, hstarts, ((cut_as_spelled step).1 _ hgroup).2 hstarts, by decide +kernel,
    by decide +kernel⟩

end Step

end Acceptance
