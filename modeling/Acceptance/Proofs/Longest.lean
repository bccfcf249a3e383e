import Acceptance.Step.Keywords

/-! # The longest that fits

Of the items of a list that fit, the longest is found, and of equally long ones the first. -/

namespace Acceptance

namespace Step

variable {α : Type} {length : α → Nat} {fits : α → Bool} {list front back : List α} {a b : α}

theorem longest?_eq_none (h : longest? length fits list = none) : ∀ a ∈ list, fits a = false := by
  induction list with
  | nil => simp
  | cons a rest ih =>
    unfold longest? at h
    dsimp only at h
    split at h
    · split at h
      · split at h <;> simp at h
      · simp at h
    next hfits =>
      rw [List.forall_mem_cons]
      exact ⟨by simpa using hfits, ih h⟩

theorem length_le_of_append_cons (hfront : ∀ b ∈ front, fits b = true → length b < length a)
    (hback : ∀ b ∈ back, fits b = true → length b ≤ length a) :
    ∀ b ∈ front ++ a :: back, fits b = true → length b ≤ length a := by
  intro b hb hfits
  rw [List.mem_append, List.mem_cons] at hb
  rcases hb with hb | rfl | hb
  · exact Nat.le_of_lt (hfront b hb hfits)
  · exact Nat.le_refl _
  · exact hback b hb hfits

/-- What is found fits. What fits, too, is shorter if it comes before, and not longer if it comes
after. -/
theorem longest?_eq_some (h : longest? length fits list = some a) :
    fits a = true ∧ ∃ front back, list = front ++ a :: back ∧
      (∀ b ∈ front, fits b = true → length b < length a) ∧
      ∀ b ∈ back, fits b = true → length b ≤ length a := by
  induction list generalizing a with
  | nil => simp [longest?] at h
  | cons c rest ih =>
    unfold longest? at h
    dsimp only at h
    split at h
    next hfits =>
      split at h
      next b hlater =>
        obtain ⟨hb, front, back, rfl, hfront, hback⟩ := ih hlater
        split at h
        next hlonger =>
          obtain rfl := Option.some.inj h
          refine ⟨hb, c :: front, back, rfl, ?_, hback⟩
          rw [List.forall_mem_cons]
          exact ⟨fun _ => hlonger, hfront⟩
        next hnot =>
          obtain rfl := Option.some.inj h
          refine ⟨hfits, [], _, rfl, by simp, fun d hd hd' => ?_⟩
          have := length_le_of_append_cons hfront hback d hd hd'
          omega
      next hlater =>
        obtain rfl := Option.some.inj h
        refine ⟨hfits, [], rest, rfl, by simp, fun d hd hd' => ?_⟩
        simp [longest?_eq_none hlater d hd] at hd'
    next hfits =>
      obtain ⟨ha, front, back, rfl, hfront, hback⟩ := ih h
      refine ⟨ha, c :: front, back, rfl, ?_, hback⟩
      rw [List.forall_mem_cons]
      exact ⟨fun hc => absurd hc hfits, hfront⟩

theorem mem_of_longest? (h : longest? length fits list = some a) : a ∈ list := by
  obtain ⟨-, front, back, rfl, -, -⟩ := longest?_eq_some h
  simp

theorem length_le_of_longest? (h : longest? length fits list = some a) :
    ∀ b ∈ list, fits b = true → length b ≤ length a := by
  obtain ⟨-, front, back, rfl, hfront, hback⟩ := longest?_eq_some h
  exact length_le_of_append_cons hfront hback

/-- If all others that fit are shorter, it is the longest. -/
theorem longest?_eq_of_forall_lt (ha : a ∈ list) (hfits : fits a = true)
    (hlt : ∀ b ∈ list, fits b = true → b = a ∨ length b < length a) :
    longest? length fits list = some a := by
  cases hfound : longest? length fits list with
  | none =>
    have := longest?_eq_none hfound a ha
    simp [hfits] at this
  | some b =>
    rcases hlt b (mem_of_longest? hfound) (longest?_eq_some hfound).1 with rfl | hshort
    · rfl
    · have := length_le_of_longest? hfound a ha hfits
      omega

/-- What fits is found if what fits before it is shorter, and what fits after it is not longer. -/
theorem longest?_append_cons (ha : fits a = true)
    (hfront : ∀ b ∈ front, fits b = true → length b < length a)
    (hback : ∀ b ∈ back, fits b = true → length b ≤ length a) :
    longest? length fits (front ++ a :: back) = some a := by
  induction front with
  | nil =>
    rw [List.nil_append, longest?, if_pos ha]
    cases hlater : longest? length fits back with
    | none => rfl
    | some b =>
      have hle := hback b (mem_of_longest? hlater) (longest?_eq_some hlater).1
      exact if_neg (by omega)
  | cons c front ih =>
    obtain ⟨hc, hfront⟩ := List.forall_mem_cons.mp hfront
    rw [List.cons_append, longest?, ih hfront]
    split
    next hfits => exact if_pos (hc hfits)
    next => rfl

end Step

end Acceptance
