import Acceptance.Proofs.NewProject

/-! # What commands put on record

The record of a project follows from the commands that succeeded: the additions give the features in
order, and the acceptances of a feature are counted. -/

namespace Acceptance

/-! ## Commands -/

namespace Command

/-- The feature that the command adds. -/
def given? : Command → Option Entry.Given
  | .add description priority category steps => some ⟨description, category, priority, steps⟩
  | _ => none

/-- Does the command accept the feature with the id when it succeeds? -/
def accepts (id : Text) : Command → Bool
  | .done other _ => id = other
  | .verify other _ _ _ => id = other
  | _ => false

end Command

/-- The features that the commands add, in order. -/
def additions (commands : List Command) : List Entry.Given := commands.filterMap Command.given?

/-- How many of the commands accept the feature with `k` features before it. -/
def marksOf (commands : List Command) (k : Nat) : Nat :=
  commands.countP (Command.accepts (Entry.idOf ((k : Int) + 1)))

/-- What is on record once the commands have succeeded, one after the other. -/
def registerOf (commands : List Command) : List Item :=
  (additions commands).mapIdx fun k given => ⟨given, marksOf commands k⟩

/-- Only features that were added are accepted. -/
def Numbered (commands : List Command) : Prop :=
  ∀ c ∈ commands, ∀ id, c.accepts id = true →
    ∃ k < (additions commands).length, id = Entry.idOf ((k : Int) + 1)

/-- The second record has the features of the first where they were, accepted as often or more. -/
def Grows (register register' : List Item) : Prop :=
  ∀ {k : Nat} {item : Item}, register[k]? = some item →
    ∃ item', register'[k]? = some item' ∧ item'.given = item.given ∧ item.marks ≤ item'.marks

variable {commands more : List Command} {c : Command} {register : List Item} {id : Text}

theorem additions_append (commands more : List Command) :
    additions (commands ++ more) = additions commands ++ additions more :=
  List.filterMap_append

theorem length_registerOf (commands : List Command) :
    (registerOf commands).length = (additions commands).length := List.length_mapIdx

theorem getElem?_registerOf (commands : List Command) (k : Nat) :
    (registerOf commands)[k]? = (additions commands)[k]?.map fun given =>
      ⟨given, marksOf commands k⟩ := List.getElem?_mapIdx

theorem grows_registerOf (commands more : List Command) :
    Grows (registerOf commands) (registerOf (commands ++ more)) := by
  intro k item hitem
  rw [getElem?_registerOf, Option.map_eq_some_iff] at hitem
  obtain ⟨given, hgiven, rfl⟩ := hitem
  have hk := (List.getElem?_eq_some_iff.mp hgiven).1
  have hmore : (registerOf (commands ++ more))[k]? =
      some ⟨given, marksOf (commands ++ more) k⟩ := by
    rw [getElem?_registerOf, additions_append, List.getElem?_append_left hk, hgiven, Option.map_some]
  refine ⟨_, hmore, rfl, ?_⟩
  unfold marksOf
  rw [List.countP_append]
  exact Nat.le_add_right _ _

/-! ## One more command -/

theorem numbered_nil : Numbered [] := by
  intro c hc
  exact absurd hc (by simp)

theorem Numbered.append (h : Numbered commands)
    (hc : ∀ id, c.accepts id = true →
      ∃ k < (additions commands).length, id = Entry.idOf ((k : Int) + 1)) :
    Numbered (commands ++ [c]) := by
  have hle : (additions commands).length ≤ (additions (commands ++ [c])).length := by
    rw [additions_append, List.length_append]
    omega
  intro d hd id hid
  obtain ⟨k, hk, hkid⟩ : ∃ k < (additions commands).length, id = Entry.idOf ((k : Int) + 1) := by
    rcases List.mem_append.mp hd with hd | hd
    · exact h d hd id hid
    · rw [List.mem_singleton.mp hd] at hid
      exact hc id hid
  exact ⟨k, by omega, hkid⟩

/-- A feature that was not added was not accepted. -/
theorem Numbered.marksOf_eq_zero (h : Numbered commands) {k : Nat}
    (hk : (additions commands).length ≤ k) : marksOf commands k = 0 := by
  unfold marksOf
  rw [List.countP_eq_zero]
  intro c hc hid
  obtain ⟨j, hj, heq⟩ := h c hc _ hid
  have := Entry.idOf_inj heq
  omega

/-- A command that adds and accepts nothing. -/
theorem registerOf_idle (hgiven : c.given? = none) (haccepts : ∀ id, c.accepts id = false) :
    registerOf (commands ++ [c]) = registerOf commands := by
  apply List.ext_getElem?
  intro k
  rw [getElem?_registerOf, getElem?_registerOf, additions_append]
  simp [additions, marksOf, hgiven, haccepts, List.countP_append]

theorem registerOf_add (h : Numbered commands) {g : Entry.Given} (hgiven : c.given? = some g)
    (haccepts : ∀ id, c.accepts id = false) :
    registerOf (commands ++ [c]) = registerOf commands ++ [⟨g, 0⟩] := by
  have hadditions : additions (commands ++ [c]) = additions commands ++ [g] := by
    rw [additions_append]
    simp [additions, hgiven]
  have hcount : ∀ k, marksOf (commands ++ [c]) k = marksOf commands k := by
    intro k
    simp [marksOf, List.countP_append, haccepts]
  apply List.ext_getElem?
  intro k
  rw [getElem?_registerOf, hadditions, hcount, List.getElem?_append, List.getElem?_append,
    length_registerOf]
  split
  next => exact (getElem?_registerOf commands k).symm
  next hk =>
    rw [List.getElem?_singleton, List.getElem?_singleton]
    split
    next =>
      rw [h.marksOf_eq_zero (by omega)]
      rfl
    next => rfl

theorem registerOf_accept {k : Nat} {item : Item} (hgiven : c.given? = none)
    (haccepts : ∀ other, c.accepts other = decide (other = Entry.idOf ((k : Int) + 1)))
    (hitem : (registerOf commands)[k]? = some item) :
    registerOf (commands ++ [c]) =
      (registerOf commands).set k { item with marks := item.marks + 1 } := by
  have hadditions : additions (commands ++ [c]) = additions commands := by
    rw [additions_append]
    simp [additions, hgiven]
  have hcount : ∀ j, marksOf (commands ++ [c]) j =
      marksOf commands j + if j = k then 1 else 0 := by
    intro j
    unfold marksOf
    rw [List.countP_append, List.countP_singleton, haccepts]
    by_cases hj : j = k
    · rw [hj]
      simp
    · have hne : Entry.idOf ((j : Int) + 1) ≠ Entry.idOf ((k : Int) + 1) :=
        fun heq => hj (Entry.idOf_inj heq)
      simp [hj, hne]
  have hk := (List.getElem?_eq_some_iff.mp hitem).1
  apply List.ext_getElem?
  intro j
  rw [getElem?_registerOf, hadditions, hcount]
  by_cases hj : j = k
  · subst hj
    rw [getElem?_registerOf, Option.map_eq_some_iff] at hitem
    obtain ⟨given, hgiven, rfl⟩ := hitem
    rw [List.getElem?_set_self hk, hgiven, if_pos rfl, Option.map_some]
  · rw [List.getElem?_set_ne (Ne.symm hj), getElem?_registerOf, if_neg hj, Nat.add_zero]

/-- What is on record after one more command follows from the commands, too. -/
theorem registerOf_append (h : Numbered commands) (hc : c.Changes (registerOf commands) register) :
    register = registerOf (commands ++ [c]) ∧ Numbered (commands ++ [c]) := by
  have hidle : c.given? = none → (∀ id, c.accepts id = false) → register = registerOf commands →
      register = registerOf (commands ++ [c]) ∧ Numbered (commands ++ [c]) := by
    intro hgiven haccepts hregister
    refine ⟨hregister.trans (registerOf_idle hgiven haccepts).symm, h.append ?_⟩
    simp [haccepts]
  have haccept : ∀ id, c.given? = none → (∀ other, c.accepts other = decide (other = id)) →
      CommandLine.Accepted (registerOf commands) id register →
      register = registerOf (commands ++ [c]) ∧ Numbered (commands ++ [c]) := by
    rintro id hgiven haccepts ⟨k, item, hitem, rfl, hregister⟩
    refine ⟨hregister.trans (registerOf_accept hgiven haccepts hitem).symm, h.append ?_⟩
    intro other hother
    rw [haccepts, decide_eq_true_eq] at hother
    have hk := (List.getElem?_eq_some_iff.mp hitem).1
    rw [length_registerOf] at hk
    exact ⟨k, hk, hother⟩
  cases c with
  | add description priority category steps =>
    refine ⟨hc.trans (registerOf_add h rfl fun id => rfl).symm, h.append ?_⟩
    intro id hid
    exact absurd hid (by simp [Command.accepts])
  | done id notes => exact haccept id rfl (fun other => rfl) hc
  | verify id notes baseUrl headless => exact haccept id rfl (fun other => rfl) hc
  | version json => exact hidle rfl (fun id => rfl) hc
  | doctor => exact hidle rfl (fun id => rfl) hc
  | init name type directory => exact hidle rfl (fun id => rfl) hc
  | status => exact hidle rfl (fun id => rfl) hc
  | next => exact hidle rfl (fun id => rfl) hc
  | commit id message => exact hidle rfl (fun id => rfl) hc
  | list filter priority => exact hidle rfl (fun id => rfl) hc
  | «export» output => exact hidle rfl (fun id => rfl) hc
  | test id all pending baseUrl headless => exact hidle rfl (fun id => rfl) hc
  | browser args timeout => exact hidle rfl (fun id => rfl) hc
  | review baseUrl output headless => exact hidle rfl (fun id => rfl) hc

end Acceptance
