import Mathlib.Order.Defs.Unbundled
import Acceptance.Machine.Basic

/-! # Tasks in a row

What a task of several parts does, from what its parts do: the result part by part, the machine it
leaves, and tasks that only ask.
-/

namespace Acceptance

/-! ## The setting -/

/-- What no task changes. -/
structure Setting where
  directory : Place
  environment : Environment
  homes : List (Text × Text)
  toolDirectory : Text
  time : Instant

def Machine.setting (m : Machine) : Setting :=
  { directory := m.directory
    environment := m.environment
    homes := m.homes
    toolDirectory := m.toolDirectory
    time := m.time }

namespace Task

variable {α β : Type}

/-! ## Results -/

section

variable {outside : Outside} {m m' : Machine}

theorem run_bind_ok {t : Task α} {a : α} (h : t.run outside m = (.ok a, m')) (f : α → Task β) :
    (t >>= f).run outside m = (f a).run outside m' := by
  rw [run_bind, h]

theorem run_bind_error {t : Task α} {fault : Fault} (h : t.run outside m = (.error fault, m'))
    (f : α → Task β) : (t >>= f).run outside m = (.error fault, m') := by
  rw [run_bind, h]

/-- A task of two parts that gives a result: the first part gave one, and the second from there. -/
theorem run_bind_eq_ok {t : Task α} {f : α → Task β} {b : β}
    (h : (t >>= f).run outside m = (.ok b, m')) :
    ∃ a m₁, t.run outside m = (.ok a, m₁) ∧ (f a).run outside m₁ = (.ok b, m') := by
  rw [run_bind] at h
  split at h
  · exact ⟨_, _, by assumption, h⟩
  · simp at h

/-- A result that is known says how the task ends. -/
theorem run_eq_ok_of_toOption {t : Task α} {a : α}
    (h : (t.run outside m).1.toOption = some a) : ∃ m', t.run outside m = (.ok a, m') := by
  rcases hrun : t.run outside m with ⟨fault | b, m'⟩
  · rw [hrun] at h
    exact absurd h (by simp [Except.toOption])
  · rw [hrun] at h
    obtain rfl : b = a := Option.some.inj h
    exact ⟨m', rfl⟩

theorem run_bind_pure (t : Task α) (f : α → β) :
    (t >>= fun a => pure (f a)).run outside m =
      ((t.run outside m).1.map f, (t.run outside m).2) := by
  rw [run_bind]
  rcases t.run outside m with ⟨_ | a, m₁⟩ <;> rfl

@[simp] theorem run_ofExcept (e : Except Fault α) : (ofExcept e).run outside m = (e, m) := by
  cases e <;> rfl

@[simp] theorem run_pure_bind (a : α) (f : α → Task β) :
    ((pure a : Task α) >>= f).run outside m = (f a).run outside m := rfl

@[simp] theorem run_fail_bind (fault : Fault) (f : α → Task β) :
    ((fail fault : Task α) >>= f).run outside m = (.error fault, m) := rfl

@[simp] theorem run_read_bind (g : Machine → α) (f : α → Task β) :
    (read g >>= f).run outside m = (f (g m)).run outside m := rfl

@[simp] theorem run_change_bind (g : Machine → Machine) (f : Unit → Task β) :
    (change g >>= f).run outside m = (f ()).run outside (g m) := rfl

@[simp] theorem run_attempt_bind (t : Task α) (f : Except Fault α → Task β) :
    (attempt t >>= f).run outside m = (f (t.run outside m).1).run outside (t.run outside m).2 := rfl

@[simp] theorem run_ofExcept_ok_bind (a : α) (f : α → Task β) :
    (ofExcept (.ok a) >>= f).run outside m = (f a).run outside m := rfl

@[simp] theorem run_ofExcept_error_bind (fault : Fault) (f : α → Task β) :
    (ofExcept (.error fault) >>= f).run outside m = (.error fault, m) := rfl

@[simp] theorem run_bind_assoc {γ : Type} (t : Task α) (f : α → Task β) (g : β → Task γ) :
    ((t >>= f) >>= g).run outside m = (t >>= fun a => f a >>= g).run outside m := by
  simp only [run_bind]
  rcases t.run outside m with ⟨_ | a, m₁⟩ <;> rfl

theorem bind_assoc {γ : Type} (t : Task α) (f : α → Task β) (g : β → Task γ) :
    t >>= f >>= g = t >>= fun a => f a >>= g :=
  funext fun _ => funext fun _ => run_bind_assoc t f g

end

/-- The task gives a result on every machine. -/
def Succeeds (outside : Outside) (t : Task α) : Prop := ∀ m, ∃ a, (t.run outside m).1 = .ok a

section

variable {outside : Outside}

theorem succeeds_pure (a : α) : (pure a : Task α).Succeeds outside := fun _ => ⟨a, rfl⟩

theorem succeeds_change (f : Machine → Machine) : (change f).Succeeds outside := fun _ => ⟨(), rfl⟩

theorem succeeds_bind {t : Task α} {f : α → Task β} (ht : t.Succeeds outside)
    (hf : ∀ a, (f a).Succeeds outside) : (t >>= f).Succeeds outside := by
  intro m
  obtain ⟨a, ha⟩ := ht m
  rw [run_bind_ok (Prod.ext ha rfl)]
  exact hf a _

end

/-! ## The machine that is left -/

/-- Whatever comes of the task, it leaves the machine as `R` says. -/
def Leaves (outside : Outside) (R : Machine → Machine → Prop) (t : Task α) : Prop :=
  ∀ m, R m (t.run outside m).2

section

variable {outside : Outside} {R S : Machine → Machine → Prop}

theorem Leaves.mono {t : Task α} (h : t.Leaves outside R) (hRS : ∀ m m', R m m' → S m m') :
    t.Leaves outside S := fun m => hRS _ _ (h m)

theorem Leaves.of_run {t : Task α} (h : t.Leaves outside R) {m m' : Machine}
    {result : Except Fault α} (hrun : t.run outside m = (result, m')) : R m m' := by
  have hm := h m
  rwa [hrun] at hm

theorem leaves_change {f : Machine → Machine} (h : ∀ m, R m (f m)) :
    (change f).Leaves outside R := h

theorem leaves_attempt {t : Task α} (h : t.Leaves outside R) : (attempt t).Leaves outside R := h

variable [IsPreorder Machine R]

theorem leaves_pure (a : α) : (pure a : Task α).Leaves outside R := refl_of R

theorem leaves_fail (fault : Fault) : (fail fault : Task α).Leaves outside R := refl_of R

theorem leaves_read (f : Machine → α) : (read f).Leaves outside R := refl_of R

theorem leaves_ofExcept (e : Except Fault α) : (ofExcept e).Leaves outside R := by
  intro m
  rw [run_ofExcept]
  exact refl_of R m

theorem leaves_bind {t : Task α} {f : α → Task β} (ht : t.Leaves outside R)
    (hf : ∀ a, (f a).Leaves outside R) : (t >>= f).Leaves outside R := by
  intro m
  rw [run_bind]
  have h := ht m
  rcases hr : t.run outside m with ⟨_ | a, m₁⟩
  · simpa [hr] using h
  · rw [hr] at h
    exact trans_of R h (hf a m₁)

end

/-! ## What the results are -/

/-- The results that the task gives are as `P` says. -/
def Gives (outside : Outside) (P : α → Prop) (t : Task α) : Prop :=
  ∀ m a, (t.run outside m).1 = .ok a → P a

section

variable {outside : Outside} {P : α → Prop} {Q : β → Prop}

theorem gives_pure {a : α} (h : P a) : (pure a : Task α).Gives outside P := by
  intro m b hb
  rw [← Except.ok.inj hb]
  exact h

theorem gives_bind {t : Task α} {f : α → Task β} (ht : t.Gives outside P)
    (hf : ∀ a, P a → (f a).Gives outside Q) : (t >>= f).Gives outside Q := by
  intro m b hb
  rw [run_bind] at hb
  rcases hr : t.run outside m with ⟨fault | a, m₁⟩
  · rw [hr] at hb
    exact absurd hb (by simp)
  · rw [hr] at hb
    exact hf a (ht m a (by rw [hr])) m₁ b hb

theorem gives_true (t : Task α) : t.Gives outside fun _ => True := fun _ _ _ => trivial

theorem leaves_bind_of_gives {R : Machine → Machine → Prop} [IsPreorder Machine R] {t : Task α}
    {f : α → Task β} (ht : t.Leaves outside R) (hgives : t.Gives outside P)
    (hf : ∀ a, P a → (f a).Leaves outside R) : (t >>= f).Leaves outside R := by
  intro m
  rw [run_bind]
  have h := ht m
  rcases hr : t.run outside m with ⟨_ | a, m₁⟩
  · simpa [hr] using h
  · rw [hr] at h
    exact trans_of R h (hf a (hgives m a (by rw [hr])) m₁)

end

/-! ## What comes of a task -/

/-- The result is as `P` says, or the fault as `E` says. -/
def Comes (P : α → Prop) (E : Fault → Prop) : Except Fault α → Prop
  | .ok a => P a
  | .error fault => E fault

/-- From a machine as `I` says, the result is as `P` says or the fault as `E` says, and the machine
that is left is as `I` says. -/
def Meets (outside : Outside) (I : Machine → Prop) (P : α → Prop) (E : Fault → Prop)
    (t : Task α) : Prop :=
  ∀ m, I m → Comes P E (t.run outside m).1 ∧ I (t.run outside m).2

section

variable {outside : Outside} {I : Machine → Prop} {P P' : α → Prop} {Q : β → Prop}
  {E E' : Fault → Prop}

theorem Comes.mono {e : Except Fault α} (h : Comes P E e) (hP : ∀ a, P a → P' a)
    (hE : ∀ fault, E fault → E' fault) : Comes P' E' e := by
  cases e with
  | ok a => exact hP a h
  | error fault => exact hE fault h

theorem Meets.mono {t : Task α} (h : t.Meets outside I P E) (hP : ∀ a, P a → P' a)
    (hE : ∀ fault, E fault → E' fault) : t.Meets outside I P' E' :=
  fun m hm => ⟨(h m hm).1.mono hP hE, (h m hm).2⟩

theorem Meets.ok {t : Task α} (h : t.Meets outside I P E) {m m' : Machine} {a : α} (hm : I m)
    (hrun : t.run outside m = (.ok a, m')) : P a ∧ I m' := by
  have hboth := h m hm
  rwa [hrun] at hboth

theorem Meets.answer {t : Task α} (h : t.Meets outside I P E) {m : Machine} {a : α} (hm : I m)
    (hrun : (t.run outside m).1 = .ok a) : P a := by
  have hcomes := (h m hm).1
  rw [hrun] at hcomes
  exact hcomes

theorem Meets.error {t : Task α} (h : t.Meets outside I P E) {m m' : Machine} {fault : Fault}
    (hm : I m) (hrun : t.run outside m = (.error fault, m')) : E fault ∧ I m' := by
  have hboth := h m hm
  rwa [hrun] at hboth

theorem meets_pure {a : α} (h : P a) : (pure a : Task α).Meets outside I P E :=
  fun _ hm => ⟨h, hm⟩

theorem meets_fail {fault : Fault} (h : E fault) : (fail fault : Task α).Meets outside I P E :=
  fun _ hm => ⟨h, hm⟩

theorem meets_ofExcept {e : Except Fault α} (h : Comes P E e) :
    (ofExcept e).Meets outside I P E := by
  intro m hm
  rw [run_ofExcept]
  exact ⟨h, hm⟩

theorem meets_read {f : Machine → α} (h : ∀ m, I m → P (f m)) :
    (read f).Meets outside I P E := fun m hm => ⟨h m hm, hm⟩

theorem meets_change {f : Machine → Machine} (h : ∀ m, I m → I (f m)) :
    (change f).Meets outside I (fun _ => True) E := fun m hm => ⟨trivial, h m hm⟩

theorem meets_bind {t : Task α} {f : α → Task β} (ht : t.Meets outside I P E)
    (hf : ∀ a, P a → (f a).Meets outside I Q E) : (t >>= f).Meets outside I Q E := by
  intro m hm
  rw [run_bind]
  rcases hrun : t.run outside m with ⟨fault | a, m'⟩
  · exact ht.error hm hrun
  · obtain ⟨ha, hm'⟩ := ht.ok hm hrun
    exact hf a ha m' hm'

theorem meets_attempt {t : Task α} (h : t.Meets outside I P E) :
    (attempt t).Meets outside I (Comes P E) E' := h

end

/-! ## Questions -/

/-- The task changes nothing, and its result depends on the setting alone. -/
def Asks (t : Task α) : Prop :=
  ∀ outside outside' m m', Machine.setting m = Machine.setting m' →
    t.run outside' m' = ((t.run outside m).1, m')

theorem Asks.run {t : Task α} (h : t.Asks) (outside : Outside) {m m' : Machine}
    (hm : m'.setting = m.setting) : t.run outside m' = ((t.run outside m).1, m') :=
  h outside outside m m' hm.symm

theorem Asks.answer_eq {t : Task α} (h : t.Asks) {outside : Outside} {m m' : Machine}
    (hm : m'.setting = m.setting) : (t.run outside m').1 = (t.run outside m).1 := by
  rw [h.run outside hm]

theorem Asks.run_self {t : Task α} (h : t.Asks) (outside : Outside) (m : Machine) :
    t.run outside m = ((t.run outside m).1, m) := h.run outside rfl

theorem Asks.leaves {t : Task α} (h : t.Asks) {outside : Outside} {R : Machine → Machine → Prop}
    [IsPreorder Machine R] : t.Leaves outside R := by
  intro m
  rw [h.run_self]
  exact refl_of R m

theorem Asks.meets {t : Task α} (h : t.Asks) {outside : Outside} {I : Machine → Prop} {P : α → Prop}
    {E : Fault → Prop} (hanswer : ∀ m, I m → Comes P E (t.run outside m).1) :
    t.Meets outside I P E := by
  intro m hm
  refine ⟨hanswer m hm, ?_⟩
  rwa [h.run_self outside m]

theorem Asks.meets_of_ok {t : Task α} (h : t.Asks) {outside : Outside} {I : Machine → Prop}
    {P : α → Prop} {E : Fault → Prop} {m : Machine} {a : α}
    (hI : ∀ m', I m' → m'.setting = m.setting) (hrun : (t.run outside m).1 = .ok a) (ha : P a) :
    t.Meets outside I P E := by
  refine h.meets fun m' hm' => ?_
  rw [h.answer_eq (hI m' hm'), hrun]
  exact ha

theorem asks_pure (a : α) : (pure a : Task α).Asks := fun _ _ _ _ _ => rfl

theorem asks_fail (fault : Fault) : (fail fault : Task α).Asks := fun _ _ _ _ _ => rfl

theorem asks_ofExcept (e : Except Fault α) : (ofExcept e).Asks := by
  intro _ _ _ _ _
  rw [run_ofExcept, run_ofExcept]

theorem asks_read {f : Machine → α} (h : ∀ m m', m.setting = m'.setting → f m = f m') :
    (read f).Asks := by
  intro _ _ m m' hm
  rw [run_read, run_read, h m m' hm]

theorem asks_bind {t : Task α} {f : α → Task β} (ht : t.Asks) (hf : ∀ a, (f a).Asks) :
    (t >>= f).Asks := by
  intro outside outside' m m' hm
  rw [run_bind, run_bind, ht outside outside' m m' hm, ht.run_self outside m]
  cases (t.run outside m).1 with
  | error fault => rfl
  | ok a => exact hf a outside outside' m m' hm

theorem asks_ite {c : Prop} [Decidable c] {t u : Task α} (ht : t.Asks) (hu : u.Asks) :
    (if c then t else u).Asks := by
  split
  · exact ht
  · exact hu

end Task

end Acceptance
