import Acceptance.Text.Blank
import Acceptance.Text.LowerCase

/-! # Letters that are lower-cased alone

The small form of a letter may depend on the letters around it, and a letter may become two. Neither
is so for ASCII: the first letters of a text are lower-cased one by one, whatever follows them. -/

namespace Acceptance

namespace CodePoint

variable {c : CodePoint}

/-- The small letter of an ASCII capital, and every other code point as it is. -/
def asciiLower (c : CodePoint) : CodePoint :=
  if 0x41 ≤ c.val ∧ c.val ≤ 0x5A then ofNatD (c.val + 0x20) c else c

theorem asciiLower_of_large (h : 0x80 ≤ c.val) : c.asciiLower = c := if_neg (by omega)

theorem asciiLower_of_isBlank (h : c.isBlank = true) : c.asciiLower = c := by
  have hnot : ¬ (0x41 ≤ c.val ∧ c.val ≤ 0x5A) := by
    simp only [isBlank, isIn, blankRanges, List.any_cons, List.any_nil, Bool.or_false,
      Bool.or_eq_true, Bool.and_eq_true, decide_eq_true_eq] at h
    omega
  exact if_neg hnot

/-- All capitals but those of ASCII lie above it. -/
theorem find?_capitalRuns_tail (h : c.val < 0x80) {inRun : Nat × Nat × Nat × Int → Bool}
    (hfirst : ∀ run, inRun run = true → run.1 ≤ c.val) : capitalRuns.tail.find? inRun = none := by
  have hlarge : ∀ run ∈ capitalRuns.tail, 0x80 ≤ run.1 := by decide +kernel
  refine List.find?_eq_none.mpr fun run hrun hin => ?_
  have := hlarge run hrun
  have := hfirst run hin
  omega

theorem lower_of_ascii (h : c.val < 0x80) : c.lower = c.asciiLower := by
  have hruns : capitalRuns = (0x41, 0x5A, 1, 0x20) :: capitalRuns.tail := rfl
  unfold lower asciiLower
  rw [hruns, List.find?_cons, find?_capitalRuns_tail h ?_]
  · by_cases hcapital : 0x41 ≤ c.val ∧ c.val ≤ 0x5A
    · simp [hcapital, Nat.mod_one]
      rfl
    · have hnot : (decide (0x41 ≤ c.val) && decide (c.val ≤ 0x5A)) = false := by
        simpa using hcapital
      simp [hnot, hcapital]
  · rintro ⟨first, last, step, distance⟩ hin
    simp only [Bool.and_eq_true, decide_eq_true_eq] at hin
    exact hin.1.1

/-- Wherever it stands, the code point is lower-cased as ASCII is. -/
def IsPlain (c : CodePoint) : Prop :=
  ∀ before after, Text.lowerAt before c after = [c.asciiLower]

theorem isPlain_of_lower_eq (h : c.lower = c.asciiLower) (hsigma : c ≠ 'Σ')
    (hdotted : c ≠ dottedCapitalI) : c.IsPlain := by
  intro before after
  rw [Text.lowerAt, if_neg hsigma, if_neg hdotted, h]

theorem isPlain_of_ascii (h : c.val < 0x80) : c.IsPlain := by
  refine isPlain_of_lower_eq (lower_of_ascii h) ?_ ?_
  · rintro rfl
    exact absurd h (by decide)
  · rintro rfl
    exact absurd h (by decide)

end CodePoint

namespace Text

variable {s : Text}

/-- Where no letter depends on those around it, lower-casing goes letter by letter. -/
theorem lowerAfter_append {small : CodePoint → CodePoint}
    (h : ∀ c ∈ s, ∀ before after, lowerAt before c after = [small c]) (before rest : Text) :
    lowerAfter before (s ++ rest) = s.map small ++ lowerAfter (s.reverse ++ before) rest := by
  induction s generalizing before with
  | nil => rfl
  | cons c s ih =>
    rw [List.forall_mem_cons] at h
    rw [List.cons_append, lowerAfter, h.1, ih h.2]
    simp

theorem lower_eq_map {small : CodePoint → CodePoint}
    (h : ∀ c ∈ s, ∀ before after, lowerAt before c after = [small c]) : lower s = s.map small := by
  have hlower := lowerAfter_append h [] []
  rw [List.append_nil] at hlower
  exact hlower.trans (List.append_nil _)

/-- Letters at the start of a text are lower-cased alone. -/
theorem prefix_lower (h : ∀ c ∈ s, c.IsPlain) (rest : Text) :
    s.map CodePoint.asciiLower <+: lower (s ++ rest) :=
  ⟨_, (lowerAfter_append h [] rest).symm⟩

end Text

end Acceptance
