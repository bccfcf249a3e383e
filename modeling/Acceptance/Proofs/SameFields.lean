import Acceptance.Proofs.Entry
import Acceptance.Proofs.Ordinary

/-! # Fields in another order

A document has the entries of objects in order, so what is read again has the same fields in another
order. Nothing that is asked of a feature depends on that. -/

namespace Acceptance

namespace Json

variable {depth : Nat} {e f g : Entries} {v w : Value} {key : Text}

/-! ## Values in order -/

theorem text?_ordered (v : Value) : (ordered v).text? = v.text? := by cases v <;> rfl

theorem isLabel_ordered (v : Value) : (ordered v).IsLabel ↔ v.IsLabel := by cases v <;> exact Iff.rfl

/-- Order is a matter of lists and objects alone. -/
theorem eq_of_ordered_eq (h : ordered v = ordered w) : v = w ∨
    (∃ items items', v = .list items ∧ w = .list items' ∧ items.isEmpty = items'.isEmpty) ∨
    ∃ e f, v = .object e ∧ w = .object f ∧ inOrder e = inOrder f := by
  cases v <;> cases w <;> simp only [ordered, reduceCtorEq] at h <;> first
    | exact Or.inl h
    | exact Or.inl rfl
    | skip
  case list.list items items' =>
    rw [Value.list.injEq, orderedItems_eq_map, orderedItems_eq_map] at h
    refine Or.inr (Or.inl ⟨items, items', rfl, rfl, ?_⟩)
    have hlength := congrArg List.length h
    rw [List.length_map, List.length_map] at hlength
    rw [Bool.eq_iff_iff, List.isEmpty_iff_length_eq_zero, List.isEmpty_iff_length_eq_zero, hlength]
  case object.object e f => exact Or.inr (Or.inr ⟨e, f, rfl, rfl, Value.object.inj h⟩)

theorem isEmpty_eq_of_inOrder_eq (he : ∀ x ∈ e, x.1.isText = true) (hf : ∀ x ∈ f, x.1.isText = true)
    (h : inOrder e = inOrder f) : e.isEmpty = f.isEmpty := by
  have hlength : e.length = f.length := by
    have hperm := (inOrder_perm he).length_eq.symm.trans
      ((congrArg List.length h).trans (inOrder_perm hf).length_eq)
    rwa [orderedEntries_eq_map, orderedEntries_eq_map, List.length_map, List.length_map] at hperm
  rw [Bool.eq_iff_iff, List.isEmpty_iff_length_eq_zero, List.isEmpty_iff_length_eq_zero, hlength]

theorem isTruthy_of_ordered_eq (hv : Kept (depth + 1) v) (hw : Kept (depth + 1) w)
    (h : ordered v = ordered w) : v.isTruthy = w.isTruthy := by
  rcases eq_of_ordered_eq h with rfl | ⟨items, items', rfl, rfl, hempty⟩ | ⟨e, f, rfl, rfl, hsame⟩
  · rfl
  · rw [Value.isTruthy, Value.isTruthy, hempty]
  · have hempty := isEmpty_eq_of_inOrder_eq (kept_object.mp hv).1.texts (kept_object.mp hw).1.texts
      hsame
    rw [Value.isTruthy, Value.isTruthy, hempty]

/-! ## Objects with the same fields -/

/-- The objects have the same fields, in whatever order. -/
def SameFields (e f : Entries) : Prop :=
  ∀ key : Text, (e.get? key).map ordered = (f.get? key).map ordered

theorem SameFields.rfl : SameFields e e := fun _ => Eq.refl _

theorem SameFields.symm (h : SameFields e f) : SameFields f e := fun key => (h key).symm

theorem SameFields.trans (h : SameFields e f) (k : SameFields f g) : SameFields e g :=
  fun key => (h key).trans (k key)

theorem sameFields_inOrder (h : Kept (depth + 1) (.object e)) : SameFields (inOrder e) e := by
  intro key
  rw [get?_inOrder (kept_object.mp h).1, Option.map_map]
  cases hget : e.get? key with
  | none => rfl
  | some v => exact congrArg some (ordered_ordered v (kept_get? h hget))

theorem SameFields.set (h : SameFields e f) (key : Text) (hvalue : ordered v = ordered w) :
    SameFields (e.set key v) (f.set key w) := by
  intro other
  by_cases hother : other = key
  · subst hother
    rw [Entries.get?_set_self, Entries.get?_set_self, Option.map_some, Option.map_some, hvalue]
  · rw [Entries.get?_set_of_ne hother, Entries.get?_set_of_ne hother, h other]

theorem SameFields.getD_get? (h : SameFields e f) (key : Text) (standard : Value) :
    ordered ((e.get? key).getD standard) = ordered ((f.get? key).getD standard) := by
  rw [← Option.getD_map ordered, h key, Option.getD_map ordered]

theorem SameFields.getD (h : SameFields e f) (key : Text) :
    ordered (e.getD key) = ordered (f.getD key) := h.getD_get? key .null

theorem Kept.getD (h : Kept (depth + 1) (.object e)) (key : Text) : Kept depth (e.getD key) := by
  unfold Entries.getD
  cases hget : e.get? key with
  | none => trivial
  | some v => exact kept_get? h hget

end Json

/-! ## Features -/

namespace Entry

open Json (SameFields Kept)

variable {depth : Nat} {e f u : Entries}

theorem text?_of_sameFields (h : SameFields e f) (key : Text) :
    (e.getD key).text? = (f.getD key).text? := by
  rw [← Json.text?_ordered, h.getD key, Json.text?_ordered]

theorem idText_of_sameFields (h : SameFields e f) : idText e = idText f :=
  congrArg (Option.getD · []) (text?_of_sameFields h "id")

theorem rankOfLabel_of_sameFields (h : SameFields e f) : rankOfLabel e = rankOfLabel f :=
  congrArg (fun t => rankOf (Option.getD t standardPriority)) (text?_of_sameFields h "priority")

theorem Ordinary.of_sameFields (h : Ordinary e) (hsame : SameFields e f) : Ordinary f where
  id := by
    obtain ⟨t, ht⟩ := h.id
    have hid := hsame "id"
    rw [ht] at hid
    obtain ⟨v, hv, hv'⟩ := Option.map_eq_some_iff.mp hid.symm
    cases v <;> simp only [Json.ordered, reduceCtorEq] at hv'
    exact ⟨_, hv⟩
  priority := by
    rw [← Json.isLabel_ordered, ← hsame.getD "priority", Json.isLabel_ordered]
    exact h.priority
  category := by
    rw [← Json.isLabel_ordered, ← hsame.getD "category", Json.isLabel_ordered]
    exact h.category

section

variable (he : Kept (depth + 2) (.object e)) (hf : Kept (depth + 2) (.object f))
  (h : SameFields e f)
include he hf h

theorem passes_of_sameFields : passes e = passes f :=
  Json.isTruthy_of_ordered_eq (he.getD "passes") (hf.getD "passes") (h.getD "passes")

theorem attempts_of_sameFields : attempts e = attempts f := by
  have hv := he.getD "attempts"
  have hw := hf.getD "attempts"
  unfold attempts
  rcases Json.eq_of_ordered_eq (h.getD "attempts") with
    hsame | ⟨items, items', hitems, hitems', hempty⟩ | ⟨a, b, ha, hb, hsame⟩
  · rw [hsame]
  · rw [hitems, hitems']
    dsimp only
    rw [hempty]
  · rw [ha] at hv
    rw [hb] at hw
    have hempty := Json.isEmpty_eq_of_inOrder_eq (Json.kept_object.mp hv).1.texts
      (Json.kept_object.mp hw).1.texts hsame
    rw [ha, hb]
    dsimp only
    rw [hempty]

/-- Features with the same fields have the same fields once they are accepted. -/
theorem complete_of_sameFields {notes : Value} {now : Instant} (hu : complete e notes now = .ok u) :
    ∃ w, complete f notes now = .ok w ∧ SameFields u w := by
  obtain ⟨n, hn, hu⟩ := Json.bind_eq_ok hu
  have hfn := (attempts_of_sameFields he hf h).symm.trans hn
  refine ⟨_, by unfold complete; rw [hfn]; rfl, ?_⟩
  rw [← Except.ok.inj hu]
  have hnotes : Json.ordered (notesAfter e notes) = Json.ordered (notesAfter f notes) := by
    unfold notesAfter
    split
    · rfl
    · exact h.getD_get? "notes" _
  exact ((((h.set _ rfl).set _ rfl).set _ rfl).set _ rfl).set _ hnotes

end

end Entry

end Acceptance
