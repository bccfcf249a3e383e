import Mathlib.Data.List.Infix
import Acceptance.Proofs.LowerCase

/-! # How a word is spelled

Words are looked for in lower case, but they are cut off the text as it is written. Two letters
could make the difference: the dotted capital I becomes two letters, and what becomes of a capital
sigma depends on the letters around it. Both leave a trace in lower case, so a word without such
traces is found exactly where it is spelled, letter by letter. -/

namespace Acceptance

namespace CodePoint

variable {c : CodePoint}

/-- The code point is lower-cased into one, which does not depend on those around it. -/
def IsSteady (c : CodePoint) : Prop := c ≠ 'Σ' ∧ c ≠ dottedCapitalI

theorem IsSteady.lowerAt_eq (h : c.IsSteady) (before after : Text) :
    Text.lowerAt before c after = [c.lower] := by
  rw [Text.lowerAt, if_neg h.1, if_neg h.2]

end CodePoint

namespace Text

variable {t before word rest : Text} {c : CodePoint}

/-! ## Traces -/

/-- Both forms of the small sigma, and the dot of the dotted capital I. -/
def traces : Text := "σς\u0307"

/-- No letter of the word comes from a capital sigma or ends a dotted capital I. -/
def IsTraceless (word : Text) : Prop := ∀ c ∈ word, c ∉ traces

instance (word : Text) : Decidable (IsTraceless word) := inferInstanceAs (Decidable (∀ _ ∈ _, _))

theorem isTraceless_cons {letter : CodePoint} :
    IsTraceless (letter :: word) ↔ letter ∉ traces ∧ IsTraceless word := List.forall_mem_cons

/-- What a capital sigma and a dotted capital I become. -/
theorem lowerAt_of_not_isSteady (h : ¬ c.IsSteady) (before after : Text) :
    (∃ trace ∈ traces, lowerAt before c after = [trace]) ∨
      lowerAt before c after = [CodePoint.ofChar 'i', CodePoint.dotAbove] := by
  unfold lowerAt
  split
  · refine .inl ?_
    split
    · exact ⟨'ς', by decide, rfl⟩
    · exact ⟨'σ', by decide, rfl⟩
  next hsigma =>
    have hdotted : c = CodePoint.dottedCapitalI := by
      by_contra hne
      exact h ⟨hsigma, hne⟩
    exact .inr (if_pos hdotted)

theorem dotAbove_mem_traces : CodePoint.dotAbove ∈ traces := by decide

theorem getLast?_lowerAt_of_not_isSteady (h : ¬ c.IsSteady) (before after : Text) :
    ∃ trace ∈ traces, (lowerAt before c after).getLast? = some trace := by
  rcases lowerAt_of_not_isSteady h before after with ⟨trace, htrace, heq⟩ | heq
  · exact ⟨trace, htrace, by simp [heq]⟩
  · exact ⟨_, dotAbove_mem_traces, by simp [heq]⟩

theorem isSteady_of_isTraceless (h : IsTraceless (lowerAfter before t)) : ∀ c ∈ t, c.IsSteady := by
  induction t generalizing before with
  | nil => simp
  | cons c rest ih =>
    rw [IsTraceless, lowerAfter, List.forall_mem_append] at h
    rw [List.forall_mem_cons]
    refine ⟨?_, ih h.2⟩
    by_contra hnot
    obtain ⟨trace, htrace, hlast⟩ := getLast?_lowerAt_of_not_isSteady hnot before rest
    exact h.1 trace (List.mem_of_getLast? hlast) htrace

theorem lowerAfter_of_isSteady {spelled : Text} (h : ∀ c ∈ spelled, c.IsSteady)
    (before rest : Text) : lowerAfter before (spelled ++ rest) =
      spelled.map CodePoint.lower ++ lowerAfter (spelled.reverse ++ before) rest :=
  lowerAfter_append (fun c hc => (h c hc).lowerAt_eq) before rest

theorem lower_of_isSteady {spelled : Text} (h : ∀ c ∈ spelled, c.IsSteady) :
    lower spelled = spelled.map CodePoint.lower :=
  lower_eq_map fun c hc => (h c hc).lowerAt_eq

theorem lowerAfter_append_suffix (before rest spelled : Text) :
    lowerAfter (rest.reverse ++ before) spelled <:+ lowerAfter before (rest ++ spelled) := by
  induction rest generalizing before with
  | nil => exact List.suffix_refl _
  | cons c rest ih =>
    have hrest := ih (c :: before)
    rw [List.cons_append, lowerAfter]
    refine List.IsSuffix.trans ?_ (List.suffix_append _ _)
    simpa using hrest

/-! ## Words without a trace -/

/-- The letters that become the word: each of them is lower-cased alone. -/
structure Spells (spelled word : Text) : Prop where
  steady : ∀ c ∈ spelled, c.IsSteady
  letters : spelled.map CodePoint.lower = word

section

variable {spelled : Text}

theorem spells_nil : Spells [] [] := ⟨by simp, rfl⟩

theorem Spells.cons {letter : CodePoint} (h : Spells spelled word) (hc : c.IsSteady)
    (hletter : letter = c.lower) : Spells (c :: spelled) (letter :: word) where
  steady := List.forall_mem_cons.mpr ⟨hc, h.steady⟩
  letters := by rw [List.map_cons, h.letters, hletter]

theorem Spells.lower_eq (h : Spells spelled word) : lower spelled = word :=
  (lower_of_isSteady h.steady).trans h.letters

theorem Spells.length_eq (h : Spells spelled word) : spelled.length = word.length := by
  rw [← h.letters, List.length_map]

theorem spells_iff (hword : IsTraceless word) : Spells spelled word ↔ lower spelled = word := by
  refine ⟨Spells.lower_eq, fun h => ?_⟩
  have hlower : IsTraceless (lower spelled) := h ▸ hword
  have hsteady := isSteady_of_isTraceless hlower
  exact ⟨hsteady, (lower_of_isSteady hsteady).symm.trans h⟩

end

/-! ## At the start -/

/-- A word at the start: if it ended in an i, it could end within a dotted capital I. -/
theorem cons_prefix_lowerAt {letter : CodePoint} (hword : IsTraceless (letter :: word))
    (hlast : ∀ c ∈ (letter :: word).getLast?, c ≠ 'i') {after : Text}
    (h : letter :: word <+: lowerAt before c rest ++ after) :
    c.IsSteady ∧ letter = c.lower ∧ word <+: after := by
  obtain ⟨hletter, hword⟩ := isTraceless_cons.mp hword
  by_cases hsteady : c.IsSteady
  · rw [hsteady.lowerAt_eq, List.singleton_append, List.cons_prefix_cons] at h
    exact ⟨hsteady, h⟩
  rcases lowerAt_of_not_isSteady hsteady before rest with ⟨trace, htrace, heq⟩ | heq
  · rw [heq, List.singleton_append, List.cons_prefix_cons] at h
    exact absurd (h.1 ▸ htrace) hletter
  · -- The word goes on behind the i, where the dot stands.
    rw [heq, List.cons_append, List.cons_prefix_cons] at h
    cases word with
    | nil => exact absurd h.1 (hlast letter rfl)
    | cons next word =>
      rw [List.singleton_append, List.cons_prefix_cons] at h
      exact absurd (h.2.1 ▸ dotAbove_mem_traces) (isTraceless_cons.mp hword).1

theorem exists_spells_at_start (hword : IsTraceless word) (hlast : ∀ c ∈ word.getLast?, c ≠ 'i')
    (h : word <+: lowerAfter before t) :
    ∃ spelled rest, t = spelled ++ rest ∧ Spells spelled word := by
  -- Along the text, with what is left of the word.
  induction t generalizing before word with
  | nil => exact ⟨[], [], rfl, List.prefix_nil.mp h ▸ spells_nil⟩
  | cons c rest ih =>
    cases word with
    | nil => exact ⟨[], c :: rest, rfl, spells_nil⟩
    | cons letter word =>
      obtain ⟨hsteady, hletter, hmore⟩ := cons_prefix_lowerAt hword hlast h
      have hlast' : ∀ d ∈ word.getLast?, d ≠ 'i' := by
        cases word with
        | nil => simp
        | cons next word => simpa only [List.getLast?_cons_cons] using hlast
      obtain ⟨spelled, left, rfl, hspells⟩ := ih (isTraceless_cons.mp hword).2 hlast' hmore
      exact ⟨c :: spelled, left, rfl, hspells.cons hsteady hletter⟩

theorem prefix_lower_iff (hword : IsTraceless word) (hlast : ∀ c ∈ word.getLast?, c ≠ 'i') :
    word <+: lower t ↔ ∃ spelled rest, t = spelled ++ rest ∧ Spells spelled word := by
  refine ⟨exists_spells_at_start hword hlast, ?_⟩
  rintro ⟨spelled, rest, rfl, hspells⟩
  unfold lower
  rw [lowerAfter_of_isSteady hspells.steady, hspells.letters]
  exact List.prefix_append _ _

/-! ## At the end -/

/-- A word at the end reaches no further than to a letter that is not lower-cased alone. -/
theorem suffix_lowerAt (hword : IsTraceless word) {after : Text}
    (h : word <:+ lowerAt before c rest ++ after) :
    word <:+ after ∨ c.IsSteady ∧ word = c.lower :: after := by
  by_cases hsteady : c.IsSteady
  · rw [hsteady.lowerAt_eq, List.singleton_append, List.suffix_cons_iff] at h
    exact h.symm.imp_right fun heq => ⟨hsteady, heq⟩
  have hnot : ∀ trace ∈ traces, ∀ front, word ≠ front ++ trace :: after := by
    rintro trace htrace front rfl
    exact hword trace (by simp) htrace
  rcases lowerAt_of_not_isSteady hsteady before rest with ⟨trace, htrace, heq⟩ | heq
  · rw [heq, List.singleton_append, List.suffix_cons_iff] at h
    exact h.symm.imp_right fun hhere => absurd hhere (hnot trace htrace [])
  · rw [heq, List.cons_append, List.singleton_append, List.suffix_cons_iff,
      List.suffix_cons_iff] at h
    rcases h with hhere | hhere | hlater
    · exact absurd hhere (hnot _ dotAbove_mem_traces ['i'])
    · exact absurd hhere (hnot _ dotAbove_mem_traces [])
    · exact .inl hlater

theorem exists_spells_at_end (hword : IsTraceless word) (h : word <:+ lowerAfter before t) :
    ∃ rest spelled, t = rest ++ spelled ∧ Spells spelled word := by
  -- Along the text, up to where the word begins.
  induction t generalizing before with
  | nil => exact ⟨[], [], rfl, List.suffix_nil.mp h ▸ spells_nil⟩
  | cons c rest ih =>
    rcases suffix_lowerAt hword h with hlater | ⟨hc, rfl⟩
    · obtain ⟨front, spelled, rfl, hspells⟩ := ih hlater
      exact ⟨c :: front, spelled, rfl, hspells⟩
    · have hsteady := isSteady_of_isTraceless (isTraceless_cons.mp hword).2
      have hrest := lowerAfter_of_isSteady hsteady (c :: before) []
      simp only [List.append_nil, lowerAfter] at hrest
      exact ⟨[], c :: rest, rfl, Spells.cons ⟨hsteady, hrest.symm⟩ hc rfl⟩

theorem suffix_lower_iff (hword : IsTraceless word) :
    word <:+ lower t ↔ ∃ rest spelled, t = rest ++ spelled ∧ Spells spelled word := by
  refine ⟨exists_spells_at_end hword, ?_⟩
  rintro ⟨rest, spelled, rfl, hspells⟩
  have hend := lowerAfter_append_suffix [] rest spelled
  have hspelled := lowerAfter_of_isSteady hspells.steady (rest.reverse ++ []) []
  simp only [List.append_nil, lowerAfter, hspells.letters] at hspelled hend
  rwa [hspelled] at hend

end Text

end Acceptance
