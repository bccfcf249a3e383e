import Acceptance.Proofs.LowerCase
import Acceptance.Step.Input

/-! # Words in any case

Where case does not count, an ASCII letter stands for its capital, too, and for nothing else but the
four code points beyond ASCII that have it as their other case: the dotted and the dotless i, the
long s and the sign of the kelvin. -/

namespace Acceptance

namespace CodePoint

variable {c : CodePoint}

/-- Beyond ASCII, but a case of an ASCII letter. -/
def IsTwin (c : CodePoint) : Prop := c.val ∈ [0x130, 0x131, 0x17F, 0x212A]

instance (c : CodePoint) : Decidable c.IsTwin := inferInstanceAs (Decidable (_ ∈ _))

theorem IsTwin.mem (h : c.IsTwin) : c ∈ Text.of "\u0130\u0131\u017f\u212a" := by
  obtain ⟨n, hn⟩ := c
  simp only [IsTwin, List.mem_cons, List.not_mem_nil, or_false] at h
  rcases h with rfl | rfl | rfl | rfl <;> decide +revert

theorem lt_of_asciiLower_lt (h : c.asciiLower.val < 0x80) : c.val < 0x80 := by
  rcases Nat.lt_or_ge c.val 0x80 with hascii | hlarge
  · exact hascii
  · rwa [asciiLower_of_large hlarge] at h

/-- A capital, or the letter itself. -/
theorem val_of_asciiLower_eq {letter : CodePoint} (h : c.asciiLower = letter) :
    c = letter ∨ 0x41 ≤ c.val ∧ c.val ≤ 0x5A ∧ letter.val = c.val + 0x20 := by
  unfold asciiLower ofNatD at h
  split at h
  next hcapital =>
    rw [dif_pos (by omega)] at h
    exact .inr ⟨hcapital.1, hcapital.2, congrArg CodePoint.val h.symm⟩
  next => exact .inl h

theorem eq_or_capital (capital : CodePoint) {letter : CodePoint} (h : c.asciiLower = letter)
    (hcapital : letter.val = capital.val + 0x20) : c = letter ∨ c = capital := by
  rcases val_of_asciiLower_eq h with hsame | ⟨-, -, hval⟩
  · exact .inl hsame
  · obtain ⟨n, hn⟩ := c
    obtain ⟨k, hk⟩ := capital
    dsimp only at hval hcapital
    obtain rfl : n = k := by omega
    exact .inr rfl

/-- Only the sign of the kelvin is lower-cased into ASCII. -/
theorem le_lower (hlarge : 0x80 ≤ c.val) (htwin : ¬ c.IsTwin) : 0x80 ≤ c.lower.val := by
  have hruns : ∀ run ∈ capitalRuns, run.2.1 < 0x80 ∨ 0x80 ≤ (run.1 : Int) + run.2.2.2 ∨
      run.1 = 0x212A ∧ run.2.1 = 0x212A := by decide +kernel
  unfold lower
  split
  next first last step distance hfind =>
    have hin := List.find?_some hfind
    simp only [Bool.and_eq_true, decide_eq_true_eq] at hin
    have hdistance : 0x80 ≤ (first : Int) + distance := by
      rcases hruns _ (List.mem_of_find?_eq_some hfind) with hascii | hfar | hkelvin
      · dsimp only at hascii
        omega
      · exact hfar
      · have hkelvin' : c.val = 0x212A := by
          dsimp only at hkelvin
          omega
        exact absurd (by simp [IsTwin, hkelvin']) htwin
    unfold ofNatD
    split
    · show 0x80 ≤ ((c.val : Int) + distance).toNat
      omega
    · exact hlarge
  next => exact hlarge

end CodePoint

namespace Step

variable {letter c : CodePoint} {word t rest spelled : Text}

/-! ## Letters -/

/-- A letter stands for itself and for its capital. -/
theorem matchesLetter_asciiLower (c : CodePoint) : matchesLetter c.asciiLower c = true := by
  unfold matchesLetter
  rcases Nat.lt_or_ge c.val 0x80 with hascii | hlarge
  · simp [CodePoint.lower_of_ascii hascii]
  · simp [CodePoint.asciiLower_of_large hlarge]

/-- Of all other code points, a small letter of ASCII stands at most for the four twins. -/
theorem asciiLower_eq_of_matchesLetter (hletter : letter.val < 0x80)
    (hsmall : letter.asciiLower = letter) (h : matchesLetter letter c = true) (htwin : ¬ c.IsTwin) :
    c.asciiLower = letter := by
  have hspecial : c.val ≠ 0x130 ∧ c.val ≠ 0x131 ∧ c.val ≠ 0x17F := by
    simp only [CodePoint.IsTwin, List.mem_cons, not_or] at htwin
    exact ⟨htwin.1, htwin.2.1, htwin.2.2.1⟩
  simp only [matchesLetter, hspecial, decide_false, Bool.or_false, Bool.and_false,
    Bool.or_eq_true, decide_eq_true_eq] at h
  rcases h with rfl | hlower
  · exact hsmall
  rcases Nat.lt_or_ge c.val 0x80 with hascii | hlarge
  · rw [← CodePoint.lower_of_ascii hascii, hlower]
  · have := CodePoint.le_lower hlarge htwin
    rw [hlower] at this
    omega

/-! ## Words -/

theorem afterAnyCase?_append (spelled rest : Text) :
    afterAnyCase? (spelled.map CodePoint.asciiLower) (spelled ++ rest) = some rest := by
  induction spelled with
  | nil => cases rest <;> rfl
  | cons c spelled ih =>
    rw [List.map_cons, List.cons_append, afterAnyCase?, matchesLetter_asciiLower, if_pos rfl, ih]

/-- What follows a word stands at the end of the text. -/
theorem suffix_of_afterAnyCase? (h : afterAnyCase? word t = some rest) : rest <:+ t := by
  induction word generalizing t with
  | nil => exact Option.some.inj h ▸ List.suffix_refl _
  | cons letter word ih =>
    cases t with
    | nil => exact absurd h (by simp [afterAnyCase?])
    | cons c more =>
      rw [afterAnyCase?] at h
      split at h
      · exact (ih h).trans (List.suffix_cons _ _)
      · exact absurd h (by simp)

/-- Without the twins, a word stands for its spellings in ASCII capitals and small letters. -/
theorem afterAnyCase?_eq_some_iff
    (hword : ∀ letter ∈ word, letter.val < 0x80 ∧ letter.asciiLower = letter)
    (htwin : ∀ c ∈ t, ¬ c.IsTwin) :
    afterAnyCase? word t = some rest ↔
      ∃ spelled, t = spelled ++ rest ∧ spelled.map CodePoint.asciiLower = word := by
  constructor
  · intro h
    induction word generalizing t with
    | nil => exact ⟨[], Option.some.inj h, rfl⟩
    | cons letter word ih =>
      cases t with
      | nil => exact absurd h (by simp [afterAnyCase?])
      | cons c more =>
        rw [List.forall_mem_cons] at hword htwin
        rw [afterAnyCase?] at h
        split at h
        next hletter =>
          obtain ⟨spelled, rfl, hspelled⟩ := ih hword.2 htwin.2 h
          have hc := asciiLower_eq_of_matchesLetter hword.1.1 hword.1.2 hletter htwin.1
          exact ⟨c :: spelled, rfl, by rw [List.map_cons, hc, hspelled]⟩
        next => exact absurd h (by simp)
  · rintro ⟨spelled, rfl, rfl⟩
    exact afterAnyCase?_append spelled rest

/-- A text that begins with another word of ASCII does not begin with this one. -/
theorem afterAnyCase?_eq_none {first : CodePoint} {other : Text}
    (hspelled : spelled.map CodePoint.asciiLower = first :: other) (hfirst : first.val < 0x80)
    (hletter : letter.val < 0x80) (hsmall : letter.asciiLower = letter) (hne : first ≠ letter)
    (word rest : Text) : afterAnyCase? (letter :: word) (spelled ++ rest) = none := by
  obtain ⟨c, more, rfl, rfl, -⟩ := List.map_eq_cons_iff.mp hspelled
  have hc := CodePoint.lt_of_asciiLower_lt hfirst
  have htwin : ¬ c.IsTwin := by
    simp only [CodePoint.IsTwin, List.mem_cons, List.not_mem_nil, or_false]
    omega
  rw [List.cons_append, afterAnyCase?, if_neg]
  exact fun h => hne (asciiLower_eq_of_matchesLetter hletter hsmall h htwin)

end Step

end Acceptance
