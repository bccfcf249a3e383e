import Acceptance.Proofs.Alone

/-! # Time limits

A task keeps to time limits if every program that it starts is run with a limit that is allowed for
its arguments. Then nothing that a program would do after its time can be told from what the task
does. -/

namespace Acceptance

variable {α β : Type} {allowed : List Text → Int → Prop} {outside other : Outside} {m : Machine}

/-! ## Keeping to limits -/

/-- Every program that the task starts on the machine is run with a limit that is allowed. -/
inductive Limited (allowed : List Text → Int → Prop) (outside : Outside) :
    {α : Type} → Task α → Machine → Prop where
  | alone {α : Type} {t : Task α} {m : Machine} : t.Alone → Limited allowed outside t m
  | run {argv : List Text} {silent : Bool} {timeout : Int} {environment : Environment}
    {m : Machine} : allowed argv timeout →
    Limited allowed outside (ChildProcess.run argv silent timeout environment) m
  | bind {α β : Type} {t : Task α} {f : α → Task β} {m : Machine} : Limited allowed outside t m →
    (∀ a m', t.run outside m = (.ok a, m') → Limited allowed outside (f a) m') →
    Limited allowed outside (t >>= f) m
  | attempt {α : Type} {t : Task α} {m : Machine} : Limited allowed outside t m →
    Limited allowed outside (Task.attempt t) m

/-- The task that comes next keeps to the limits on every machine. -/
theorem Limited.next {t : Task α} {f : α → Task β} (h : Limited allowed outside t m)
    (hf : ∀ a m', Limited allowed outside (f a) m') : Limited allowed outside (t >>= f) m :=
  .bind h fun a m' _ => hf a m'

theorem Limited.pure (a : α) : Limited allowed outside (Pure.pure a : Task α) m :=
  .alone (Task.alone_pure a)

/-! ## What is never seen -/

/-- The child is still running when its time is up. -/
def Child.Outlasts (child : Child) (timeout : Int) : Prop :=
  ChildProcess.endsWithin child timeout = false ∧ child.duration ≠ some 0

/-- The programs differ in no more than how long they would run after their time. -/
structure Outside.Alike (allowed : List Text → Int → Prop) (outside other : Outside) : Prop where
  check : other.check = outside.check
  browse : other.browse = outside.browse
  effect : ∀ history l, (other.launch history l).effect = (outside.launch history l).effect
  answer : ∀ history l,
    (other.launch history l).answer = (outside.launch history l).answer ∨
      ∃ child duration, (outside.launch history l).answer = .ok child ∧
        (other.launch history l).answer = .ok { child with duration } ∧
        ∀ timeout, allowed l.argv timeout →
          child.Outlasts timeout ∧ Child.Outlasts { child with duration } timeout

namespace ChildProcess

/-- A child is watched no longer than its time. -/
theorem watchTime_le (child : Child) (timeout : Int) : watchTime child timeout ≤ timeout.toNat := by
  unfold watchTime
  split
  next hends =>
    unfold endsWithin at hends
    split at hends
    next duration hduration =>
      rw [hduration]
      simp only [Bool.and_eq_true, decide_eq_true_eq] at hends
      simp only [Option.getD_some]
      omega
    next => simp at hends
  next => exact le_refl _

/-- Two children that outlast their time are watched alike. -/
theorem watch_of_outlasts {child : Child} {duration : Option Nat} {timeout : Int}
    (argv : List Text) (silent : Bool) (h : child.Outlasts timeout)
    (h' : Child.Outlasts { child with duration } timeout) :
    watch argv silent timeout { child with duration } = watch argv silent timeout child := by
  have hcode : codeAfterKill { child with duration } = codeAfterKill child := by
    unfold codeAfterKill
    rw [decide_eq_false h.2, decide_eq_false h'.2]
  unfold watch watchTime timedOut
  simp only [h.1, h'.1, hcode, Bool.false_eq_true, if_false]

theorem run_alike (halike : outside.Alike allowed other) {argv : List Text} {timeout : Int}
    (hallowed : allowed argv timeout) (silent : Bool) (environment : Environment) (m : Machine) :
    (run argv silent timeout environment).run other m =
      (run argv silent timeout environment).run outside m := by
  cases argv with
  | nil => rfl
  | cons tool args =>
    cases hzero : Task.hasZero (tool :: args) with
    | true => rw [run_of_hasZero hzero, run_of_hasZero hzero]
    | false =>
      simp only [run, hzero, Bool.false_eq_true, if_false, Task.run_read_bind,
        Task.run_launch_bind]
      rw [halike.effect]
      rcases halike.answer m.calls _ with hsame | ⟨child, duration, hchild, hother, houtlasts⟩
      · rw [hsame]
        split
        · rfl
        · rfl
        · exact alone_watch _ _ _ _ _ _ _
      · rw [hchild, hother]
        obtain ⟨h, h'⟩ := houtlasts timeout hallowed
        dsimp only
        rw [watch_of_outlasts _ _ h h']
        exact alone_watch _ _ _ _ _ _ _

end ChildProcess

/-- What keeps to limits does not see what a program would do after its time. -/
theorem Limited.blind {t : Task α} (h : Limited allowed outside t m)
    (halike : outside.Alike allowed other) : t.run other m = t.run outside m := by
  induction h with
  | alone h => exact h outside other _
  | run hallowed => exact ChildProcess.run_alike halike hallowed _ _ _
  | attempt _ ih => rw [Task.run_attempt, Task.run_attempt, ih]
  | @bind α β t f m _ _ ih ihnext =>
    rw [Task.run_bind, Task.run_bind, ih]
    rcases hrun : t.run outside m with ⟨fault | a, m'⟩
    · rfl
    · exact ihnext a m' hrun

end Acceptance
