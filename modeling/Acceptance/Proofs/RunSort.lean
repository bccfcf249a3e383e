import Acceptance.Order.RunSort

/-! # Sorting by runs keeps to the elements

What holds of every element of a list holds of every element once the list is sorted, whatever the
elements are compared by. -/

namespace Acceptance

namespace RunSort

variable {α : Type} {P : α → Prop} (before : α → α → Bool)

/-! ## Merging -/

namespace Merging

/-- The property holds of everything that is merged. -/
structure All (P : α → Prop) (m : Merging α) : Prop where
  done : ∀ x ∈ m.done, P x
  low : ∀ x ∈ m.low, P x
  high : ∀ x ∈ m.high, P x

/-- The property holds of what a step of merging comes to. -/
def Keeps (P : α → Prop) : Except (List α) (Merging α) → Prop
  | .error whole => ∀ x ∈ whole, P x
  | .ok m => m.All P

variable {side : Side} {m : Merging α}

theorem all_rest? {low high rest : List α} (h : rest? side low high = some rest)
    (hlow : ∀ x ∈ low, P x) (hhigh : ∀ x ∈ high, P x) : ∀ x ∈ rest, P x := by
  unfold rest? at h
  split at h <;> simp only [Option.some.injEq, reduceCtorEq] at h <;> subst h
  · exact hlow
  · exact hhigh
  · exact List.forall_mem_append.mpr ⟨hhigh, hlow⟩
  · exact List.forall_mem_append.mpr ⟨hlow, hhigh⟩

theorem keeps_settle (side : Side) (h : m.All P) : Keeps P (settle side m) := by
  unfold settle
  split
  next rest hrest =>
    refine List.forall_mem_append.mpr ⟨?_, all_rest? hrest h.low h.high⟩
    simpa using h.done
  next => exact h

theorem all_take {xs : List α} {count : Nat} (h : ∀ x ∈ xs, P x) : ∀ x ∈ xs.take count, P x :=
  fun x hx => h x (List.mem_of_mem_take hx)

theorem all_drop {xs : List α} {count : Nat} (h : ∀ x ∈ xs, P x) : ∀ x ∈ xs.drop count, P x :=
  fun x hx => h x (List.mem_of_mem_drop hx)

theorem keeps_takeLow (side : Side) (count : Nat) (h : m.All P) :
    Keeps P (m.takeLow side count) := by
  apply keeps_settle
  refine ⟨List.forall_mem_append.mpr ⟨?_, h.done⟩, all_drop h.low, h.high⟩
  simpa using all_take h.low

theorem keeps_takeHigh (side : Side) (count : Nat) (h : m.All P) :
    Keeps P (m.takeHigh side count) := by
  apply keeps_settle
  refine ⟨List.forall_mem_append.mpr ⟨?_, h.done⟩, h.low, all_drop h.high⟩
  simpa using all_take h.high

/-- One step after another. -/
theorem keeps_bind {β : Type} {Q : β → Prop} {step : Except (List α) (Merging α)}
    {next : Merging α → Except (List α) β} (h : Keeps P step)
    (hnext : ∀ m, m.All P → (∀ whole, next m = .error whole → ∀ x ∈ whole, P x) ∧
      ∀ b, next m = .ok b → Q b) :
    (∀ whole, step >>= next = .error whole → ∀ x ∈ whole, P x) ∧
      ∀ b, step >>= next = .ok b → Q b := by
  cases step with
  | error whole =>
    refine ⟨fun other hother => ?_, fun b hb => absurd hb (by simp [bind, Except.bind])⟩
    obtain rfl : whole = other := Except.error.inj hother
    exact h
  | ok m => exact hnext m h

theorem keeps_leap (side : Side) (h : m.All P) :
    (∀ whole, leap before side m = .error whole → ∀ x ∈ whole, P x) ∧
      ∀ r, leap before side m = .ok r → r.2.All P := by
  apply keeps_bind (keeps_takeLow side _ h)
  intro m₁ h₁
  apply keeps_bind (keeps_takeHigh side _ h₁)
  intro m₂ h₂
  apply keeps_bind (keeps_takeHigh side _ h₂)
  intro m₃ h₃
  apply keeps_bind (keeps_takeLow side _ h₃)
  intro m₄ h₄
  refine ⟨fun whole hwhole => absurd hwhole (by simp), fun r hr => ?_⟩
  rw [← Except.ok.inj hr]
  exact h₄

end Merging

theorem all_mergeOn (side : Side) (fuel : Nat) (pace : Pace) (patience : Nat) {m : Merging α}
    (h : m.All P) : ∀ x ∈ (mergeOn before side fuel pace patience m).1, P x := by
  induction fuel generalizing pace patience m with
  | zero =>
    have hdone : ∀ x ∈ m.done.reverse, P x := by simpa using h.done
    rw [mergeOn]
    exact List.forall_mem_append.mpr ⟨List.forall_mem_append.mpr ⟨hdone, h.low⟩, h.high⟩
  | succ fuel ih =>
    cases pace with
    | single lows highs =>
      have hstep : Merging.Keeps P
          (if m.takesHigh before side then m.takeHigh side 1 else m.takeLow side 1) := by
        split
        · exact Merging.keeps_takeHigh side 1 h
        · exact Merging.keeps_takeLow side 1 h
      rw [mergeOn]
      dsimp only
      split
      next whole hwhole => rwa [hwhole] at hstep
      next m₁ hm₁ =>
        rw [hm₁] at hstep
        exact ih _ _ hstep
    | leaps =>
      obtain ⟨hwhole, hnext⟩ := Merging.keeps_leap before side h
      rw [mergeOn]
      split
      next whole hleap => exact hwhole whole hleap
      next lead m₁ hleap =>
        have hm₁ := hnext _ hleap
        split
        · exact ih _ _ hm₁
        · exact ih _ _ hm₁

theorem all_mergeBetween (patience : Nat) {low high : List α} (hlow : ∀ x ∈ low, P x)
    (hhigh : ∀ x ∈ high, P x) : ∀ x ∈ (mergeBetween before patience low high).1, P x := by
  unfold mergeBetween
  dsimp only
  split
  · have hfirst := Merging.keeps_takeHigh (m := { done := [], low, high }) .front 1
      ⟨by simp, hlow, hhigh⟩
    split
    next whole hwhole => rwa [hwhole] at hfirst
    next m hm =>
      rw [hm] at hfirst
      exact all_mergeOn before .front _ _ _ hfirst
  · have hfirst := Merging.keeps_takeLow (m := { done := [], low := low.reverse, high := high.reverse })
      .back 1 ⟨by simp, by simpa using hlow, by simpa using hhigh⟩
    split
    next whole hwhole =>
      rw [hwhole] at hfirst
      exact fun x hx => hfirst x (List.mem_reverse.mp hx)
    next m hm =>
      rw [hm] at hfirst
      simpa using all_mergeOn before .back (low.length + high.length) (.single 0 0) patience hfirst

theorem all_merge (patience : Nat) {low high : List α} (hlow : ∀ x ∈ low, P x)
    (hhigh : ∀ x ∈ high, P x) : ∀ x ∈ (merge before patience low high).1, P x := by
  unfold merge
  split
  · exact hlow
  dsimp only
  split
  · exact List.forall_mem_append.mpr ⟨hlow, hhigh⟩
  split
  · exact List.forall_mem_append.mpr ⟨hlow, hhigh⟩
  · refine List.forall_mem_append.mpr ⟨List.forall_mem_append.mpr ⟨Merging.all_take hlow, ?_⟩,
      Merging.all_drop hhigh⟩
    exact all_mergeBetween before patience (Merging.all_drop hlow) (Merging.all_take hhigh)

/-! ## Runs -/

theorem all_runFrom (down : Bool) (last : α) {xs : List α} (h : ∀ x ∈ xs, P x) :
    (∀ x ∈ (runFrom before down last xs).1, P x) ∧ ∀ x ∈ (runFrom before down last xs).2, P x := by
  induction xs generalizing last with
  | nil => simp [runFrom]
  | cons x rest ih =>
    obtain ⟨hx, hrest⟩ := List.forall_mem_cons.mp h
    rw [runFrom]
    split
    · obtain ⟨hrun, hothers⟩ := ih x hrest
      exact ⟨List.forall_mem_cons.mpr ⟨hx, hrun⟩, hothers⟩
    · exact ⟨by simp, h⟩

theorem all_frontRun {xs : List α} (h : ∀ x ∈ xs, P x) :
    (∀ x ∈ (frontRun before xs).1, P x) ∧ ∀ x ∈ (frontRun before xs).2, P x := by
  unfold frontRun
  split
  · exact ⟨by simp, by simp⟩
  · exact ⟨h, by simp⟩
  next x y rest =>
    obtain ⟨hx, hrest⟩ := List.forall_mem_cons.mp h
    obtain ⟨hrun, hothers⟩ := all_runFrom before (before y x) x hrest
    refine ⟨?_, hothers⟩
    dsimp only
    split
    · exact fun z hz => List.forall_mem_cons.mpr ⟨hx, hrun⟩ z (List.mem_reverse.mp hz)
    · exact List.forall_mem_cons.mpr ⟨hx, hrun⟩

theorem all_insert {run : List α} {x : α} (hrun : ∀ y ∈ run, P y) (hx : P x) :
    ∀ y ∈ insert before run x, P y :=
  List.forall_mem_append.mpr ⟨Merging.all_take hrun,
    List.forall_mem_cons.mpr ⟨hx, Merging.all_drop hrun⟩⟩

theorem all_foldl_insert {run xs : List α} (hrun : ∀ y ∈ run, P y) (hxs : ∀ x ∈ xs, P x) :
    ∀ y ∈ xs.foldl (insert before) run, P y := by
  induction xs generalizing run with
  | nil => exact hrun
  | cons x rest ih =>
    obtain ⟨hx, hrest⟩ := List.forall_mem_cons.mp hxs
    exact ih (all_insert before hrun hx) hrest

/-! ## Runs that wait -/

/-- The property holds of all elements of the runs that wait. -/
def AllWaiting (P : α → Prop) (waiting : List (Pending α)) : Prop :=
  ∀ p ∈ waiting, ∀ x ∈ p.items, P x

theorem all_mergeDeeper (border : Nat) {last : Pending α} (patience : Nat)
    {waiting : List (Pending α)} (hlast : ∀ x ∈ last.items, P x) (h : AllWaiting P waiting) :
    (∀ x ∈ (mergeDeeper before border last patience waiting).1.items, P x) ∧
      AllWaiting P (mergeDeeper before border last patience waiting).2.1 := by
  induction waiting generalizing last patience with
  | nil => exact ⟨hlast, by simp [mergeDeeper, AllWaiting]⟩
  | cons p rest ih =>
    obtain ⟨hp, hrest⟩ := List.forall_mem_cons.mp h
    rw [mergeDeeper]
    split
    · exact ih _ (all_merge before patience hp hlast) hrest
    · exact ⟨hlast, h⟩

theorem all_push (count : Nat) {waiting : List (Pending α)} (patience : Nat) {items : List α}
    (h : AllWaiting P waiting) (hitems : ∀ x ∈ items, P x) :
    AllWaiting P (push before count waiting patience items).1 := by
  cases waiting with
  | nil => exact List.forall_mem_cons.mpr ⟨hitems, by simp⟩
  | cons last rest =>
    obtain ⟨hlast, hrest⟩ := List.forall_mem_cons.mp h
    obtain ⟨hdeeper, hwaiting⟩ := all_mergeDeeper before
      (depth (last.start + (last.start + last.items.length))
        (2 * (last.start + last.items.length) + items.length) count) patience hlast hrest
    exact List.forall_mem_cons.mpr ⟨hitems, List.forall_mem_cons.mpr ⟨hdeeper, hwaiting⟩⟩

theorem all_collect (count fuel : Nat) {waiting : List (Pending α)} (patience : Nat) {xs : List α}
    (h : AllWaiting P waiting) (hxs : ∀ x ∈ xs, P x) :
    AllWaiting P (collect before count fuel waiting patience xs).1 := by
  induction fuel generalizing waiting patience xs with
  | zero => exact h
  | succ fuel ih =>
    cases xs with
    | nil => exact h
    | cons x rest =>
      obtain ⟨hrun, hothers⟩ := all_frontRun before hxs
      rw [collect]
      apply ih
      · exact all_push before count patience h
          (all_foldl_insert before hrun (Merging.all_take hothers))
      · exact Merging.all_drop hothers

theorem all_mergeAll (fuel patience : Nat) {waiting : List (Pending α)} (h : AllWaiting P waiting) :
    ∀ x ∈ mergeAll before fuel patience waiting, P x := by
  fun_induction mergeAll before fuel patience waiting with
  | case1 fuel patience last p q rest hshort items patience' hmerge ih =>
    apply ih
    simp only [AllWaiting, List.forall_mem_cons] at h ⊢
    have hitems := all_merge before patience h.2.2.1 h.2.1
    rw [hmerge] at hitems
    exact ⟨h.1, hitems, h.2.2.2⟩
  | case2 fuel patience last p q rest hlong items patience' hmerge ih =>
    apply ih
    simp only [AllWaiting, List.forall_mem_cons] at h ⊢
    have hitems := all_merge before patience h.2.1 h.1
    rw [hmerge] at hitems
    exact ⟨hitems, h.2.2.1, h.2.2.2⟩
  | case3 fuel patience last p =>
    simp only [AllWaiting, List.forall_mem_cons] at h
    exact all_merge before patience h.2.1 h.1
  | case4 fuel patience waiting =>
    intro x hx
    obtain ⟨p, hp, hx⟩ := List.mem_flatMap.mp hx
    exact h p (List.mem_reverse.mp hp) x hx

/-! ## Sorting -/

/-- What holds of every element holds of every element once they are sorted. -/
theorem all_sort {xs : List α} (h : ∀ x ∈ xs, P x) : ∀ x ∈ sort before xs, P x :=
  all_mergeAll before _ _ (all_collect before _ _ _ (by simp [AllWaiting]) h)

end RunSort

end Acceptance
