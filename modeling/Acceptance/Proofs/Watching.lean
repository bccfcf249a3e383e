import Mathlib.Algebra.Ring.Nat
import Acceptance.Machine.Playbook
import Acceptance.Proofs.Limits

/-! # Watching

What the result of a command tells of the program that was started, or was not: whether it
succeeded, what it wrote, and how long it was waited for. A program is stopped only when its time is
up, and what it wrote until then is kept. -/

namespace Acceptance

/-! ## Programs that end in time -/

/-- The child ends by itself before its time is up. -/
def Child.EndsBefore (child : Child) (timeout : Int) : Prop :=
  ∃ duration, child.duration = some duration ∧ (duration : Int) < timeout

/-- The child does not end in the moment in which its time is up. -/
def Child.Decided (child : Child) (timeout : Int) : Prop :=
  ∀ duration, child.duration = some duration → (duration : Int) ≠ timeout

/-- The same programs, but each of them is gone before it can be killed, or none is. -/
def Outside.withEscapes (outside : Outside) (escapesKill : Bool) : Outside :=
  { outside with
    launch := fun history l =>
      { outside.launch history l with
        answer := (outside.launch history l).answer.map fun child => { child with escapesKill } } }

namespace ChildProcess

variable {outside : Outside} {m : Machine} {argv : List Text} {child : Child} {timeout : Int}
  {output errors : Text}

theorem endsWithin_iff (h : child.Decided timeout) :
    endsWithin child timeout = true ↔ child.EndsBefore timeout := by
  unfold endsWithin Child.EndsBefore
  cases hduration : child.duration with
  | none => simp
  | some duration =>
    have hne := h duration hduration
    simp only [Bool.and_eq_true, decide_eq_true_eq, Option.some.injEq, exists_eq_left']
    omega

/-- A child that ends by itself is watched no longer than it runs. -/
theorem watchTime_le_duration {duration : Nat} (h : child.duration = some duration)
    (timeout : Int) : watchTime child timeout ≤ duration := by
  unfold watchTime
  split
  next => rw [h, Option.getD_some]
  next hends =>
    unfold endsWithin at hends
    rw [h] at hends
    simp only [Bool.and_eq_true, decide_eq_true_eq, not_and] at hends
    omega

/-! ## Results -/

/-- What the result of a command tells, and when the command is over, given what came of starting
its program. -/
structure Reports (argv : List Text) (timeout : Int) (answer : Except LaunchProblem Child)
    (start finish : Nat) (r : CommandResult) : Prop where
  success_iff : r.success = true ↔
    ∃ child, answer = .ok child ∧ child.EndsBefore timeout ∧ child.code = 0
  error_iff : r.error = none ↔ r.success = true
  code_iff : r.code = none ↔ ∃ problem, answer = .error problem
  output : r.output = match answer with
    | .ok child => Utf8.decodeLossy child.output
    | .error _ => []
  /-- A child that ends in time is left alone until then, and its code is told. -/
  ended : ∀ child, answer = .ok child → child.EndsBefore timeout →
    r.code = some child.code ∧ ∀ duration, child.duration = some duration → start + duration ≤ finish
  /-- The code may be that of a child that was stopped, or its own if it was not found any more. -/
  timedOut : ∀ child, answer = .ok child → ¬ child.EndsBefore timeout →
    r.error = some ("Command timed out after " ++ Text.ofInt timeout ++ "ms: " ++ line argv) ∧
      r.code = some (codeAfterKill child)
  finish_le : ∀ child, answer = .ok child →
    finish ≤ start + (max timeout 0).toNat + 1000 ∧
      ∀ duration, child.duration = some duration → finish ≤ start + duration + 1000
  unstarted : ∀ problem, answer = .error problem → finish = start

/-- What was found out about a child that was watched. -/
def outcome (argv : List Text) (silent : Bool) (timeout : Int) (child : Child) : CommandResult :=
  let output := Utf8.decodeLossy child.output
  if endsWithin child timeout then
    ended argv child output (if silent then Utf8.decodeLossy child.errors else [])
  else timedOut argv timeout child output

theorem run_watch (argv : List Text) (silent : Bool) (child : Child)
    (htimeout : timeout.natAbs < longestDuration) (outside : Outside) (m : Machine) :
    ∃ last, (watch argv silent timeout child).run outside m =
        (.ok (outcome argv silent timeout child), last) ∧
      last.elapsed = m.elapsed + watchTime child timeout +
        (if child.holdsOutput then drainGrace else 0) := by
  have hcheck : Task.checkDuration timeout = pure () := if_neg (Nat.not_le.mpr htimeout)
  unfold watch
  rw [hcheck]
  cases child.holdsOutput <;> cases silent <;> exact ⟨_, rfl, rfl⟩

theorem ended_success (argv : List Text) (child : Child) (output errors : Text) :
    (ended argv child output errors).success = true ↔ child.code = 0 := by
  unfold ended
  split <;> simp [*]

theorem ended_error (argv : List Text) (child : Child) (output errors : Text) :
    (ended argv child output errors).error = none ↔ child.code = 0 := by
  unfold ended
  split <;> simp [*]

theorem ended_code (argv : List Text) (child : Child) (output errors : Text) :
    (ended argv child output errors).code = some child.code := by
  unfold ended
  split <;> simp [*]

theorem ended_output (argv : List Text) (child : Child) (output errors : Text) :
    (ended argv child output errors).output = output := by
  unfold ended
  split <;> rfl

theorem reports_outcome (argv : List Text) (silent : Bool) (h : child.Decided timeout)
    {start finish : Nat} (hfinish : finish = start + watchTime child timeout +
      (if child.holdsOutput then drainGrace else 0)) :
    Reports argv timeout (.ok child) start finish (outcome argv silent timeout child) := by
  have hends := endsWithin_iff h
  have hgrace : (if child.holdsOutput then drainGrace else 0) ≤ 1000 := by
    unfold drainGrace
    split <;> omega
  have hfinish_le : finish ≤ start + (max timeout 0).toNat + 1000 ∧
      ∀ duration, child.duration = some duration → finish ≤ start + duration + 1000 := by
    constructor
    · have := watchTime_le child timeout
      omega
    · intro duration hduration
      have := watchTime_le_duration hduration timeout
      omega
  unfold outcome
  by_cases hbefore : child.EndsBefore timeout
  · rw [hends.mpr hbefore, if_pos rfl]
    exact
      { success_iff := by rw [ended_success]; simp [hbefore]
        error_iff := by rw [ended_error, ended_success]
        code_iff := by simp [ended_code]
        output := ended_output ..
        ended := by
          rintro _ ⟨⟩ -
          refine ⟨ended_code .., fun duration hduration => ?_⟩
          have hwatch : watchTime child timeout = duration := by
            rw [watchTime, if_pos (hends.mpr hbefore), hduration, Option.getD_some]
          omega
        timedOut := by
          rintro _ ⟨⟩ hnot
          exact absurd hbefore hnot
        finish_le := by
          rintro _ ⟨⟩
          exact hfinish_le
        unstarted := by simp }
  · rw [if_neg (fun hin => hbefore (hends.mp hin))]
    exact
      { success_iff := by simp [timedOut, hbefore]
        error_iff := by simp [timedOut]
        code_iff := by simp [timedOut]
        output := rfl
        ended := by
          rintro _ ⟨⟩ hin
          exact absurd hin hbefore
        timedOut := by
          rintro _ ⟨⟩ -
          exact ⟨rfl, rfl⟩
        finish_le := by
          rintro _ ⟨⟩
          exact hfinish_le
        unstarted := by simp }

/-- A program that was not started is told by the error alone. -/
theorem reports_of_unstarted (argv : List Text) (timeout : Int) (problem : LaunchProblem)
    (start : Nat) (error : Text) :
    Reports argv timeout (.error problem) start start { success := false, error := some error } where
  success_iff := by simp
  error_iff := by simp
  code_iff := by simp
  output := rfl
  ended := by simp
  timedOut := by simp
  finish_le := by simp
  unstarted := by simp

/-! ## Runs -/

/-- The answer to a command that is started from a machine. -/
def answerTo (outside : Outside) (m : Machine) (argv : List Text) (silent : Bool)
    (environment : Environment) : Except LaunchProblem Child :=
  (outside.launch m.calls (launchOf m argv silent environment)).answer

/-- A child that ends in time is never stopped: it makes no difference what would come of that. -/
theorem watch_of_endsBefore (argv : List Text) (silent : Bool) (h : child.Decided timeout)
    (hbefore : child.EndsBefore timeout) (escapesKill : Bool) :
    watch argv silent timeout { child with escapesKill } = watch argv silent timeout child := by
  have hends : endsWithin { child with escapesKill } timeout = true :=
    (endsWithin_iff (show Child.Decided { child with escapesKill } timeout from h)).mpr hbefore
  -- Whether it can be killed is only asked of a child whose time is up.
  unfold watch watchTime ended
  simp only [hends, (endsWithin_iff h).mpr hbefore, if_true]

theorem run_withEscapes {silent : Bool} {environment : Environment}
    (hchild : answerTo outside m argv silent environment = .ok child) (h : child.Decided timeout)
    (hbefore : child.EndsBefore timeout) (escapesKill : Bool) :
    (run argv silent timeout environment).run (outside.withEscapes escapesKill) m =
      (run argv silent timeout environment).run outside m := by
  cases argv with
  | nil => rfl
  | cons tool args =>
    cases hzero : Task.hasZero (tool :: args) with
    | true => rw [run_of_hasZero hzero, run_of_hasZero hzero]
    | false =>
      unfold answerTo launchOf at hchild
      simp only [run, hzero, Bool.false_eq_true, if_false, Task.run_read_bind,
        Task.run_launch_bind, Outside.withEscapes, hchild, Except.map]
      rw [watch_of_endsBefore _ _ h hbefore]
      exact alone_watch _ _ _ _ _ _ _

/-- A child that writes something that is no UTF-8, keeps its output open and ends after 20 seconds;
a kill would not find it. -/
def slowChild : Child where
  duration := some 20000
  code := 0
  output := [0x68, 0x69, 0xFF]
  errors := []
  holdsOutput := true
  escapesKill := true

def slow : Outside :=
  { Playbook.outside [] [] 0 with
    launch := fun _ _ => { answer := .ok slowChild, effect := fun _ s => s } }

end ChildProcess

end Acceptance
