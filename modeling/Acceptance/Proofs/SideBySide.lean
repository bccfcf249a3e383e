import Acceptance.Proofs.Speaking

/-! # Two runs side by side

Two machines whose programs answer alike until a screenshot is taken. Whatever else is different, the
files, the time or the home, a task that speaks to the browser and takes no screenshot comes to the
same on both. -/

namespace Acceptance

/-! ## Screenshots -/

/-- The first word of a command that takes a screenshot. -/
def shotWord : Text := "screenshot"

def BrowserCall.IsShot (call : BrowserCall) : Prop := call.args.head? = some shotWord

def Launch.IsShot (l : Launch) : Prop := (l.argv.drop 1).head? = some shotWord

def Call.IsShot : Call → Prop
  | .launch _ l => l.IsShot
  | .check .. => False
  | .browse _ call => call.IsShot

/-! ## Alike until a screenshot -/

/-- The variables that the gateway sets for its program. -/
def Gateway.variables : Gateway → Environment
  | .direct _ => []
  | .program _ _ environment => environment

/-- After the calls of `start`, and before a screenshot is taken, the programs give the same answers.
What the calls do otherwise need not be the same. -/
structure Outside.AlikeUntilShot (start : History) (outside other : Outside) : Prop where
  launch : ∀ since l, (∀ c ∈ since, ¬ Call.IsShot c) → ¬ l.IsShot →
    (other.launch (start ++ since) l).answer = (outside.launch (start ++ since) l).answer
  browse : ∀ since call, (∀ c ∈ since, ¬ Call.IsShot c) → ¬ call.IsShot →
    (other.browse (start ++ since) call).answer = (outside.browse (start ++ since) call).answer

theorem Outside.AlikeUntilShot.rfl {start : History} {outside : Outside} :
    outside.AlikeUntilShot start outside where
  launch _ _ _ _ := Eq.refl _
  browse _ _ _ _ := Eq.refl _

/-- What programs can tell of the machines is the same, and since `start` no screenshot was taken. -/
structure Machine.AlikeUntilShot (g : Gateway) (start : History) (m m' : Machine) : Prop where
  calls : m'.calls = m.calls
  since : ∃ since, m.calls = start ++ since ∧ ∀ c ∈ since, ¬ Call.IsShot c
  elapsed : m'.elapsed = m.elapsed
  newVariables : ChildProcess.newVariables m'.environment g.variables =
    ChildProcess.newVariables m.environment g.variables

namespace Machine.AlikeUntilShot

variable {g : Gateway} {start : History} {m m' : Machine}

/-- A call that is no screenshot is written down on both. -/
theorem after (h : AlikeUntilShot g start m m') {call : Call} (hcall : ¬ call.IsShot)
    (effect effect' : Place → Surroundings → Surroundings) :
    AlikeUntilShot g start (m.after call effect) (m'.after call effect') where
  calls := congrArg (· ++ [call]) h.calls
  since := by
    obtain ⟨since, hcalls, hsince⟩ := h.since
    refine ⟨since ++ [call], ?_, ?_⟩
    · rw [after_calls, hcalls, List.append_assoc]
    · simpa [or_imp, forall_and] using ⟨hsince, hcall⟩
  elapsed := h.elapsed
  newVariables := h.newVariables

end Machine.AlikeUntilShot

/-! ## Tasks side by side -/

namespace Task

variable {α β : Type} {outside other : Outside} {R : Machine → Machine → Prop}

/-- On machines as `R` says the task gives the same result, and leaves machines as `R` says. -/
def SameIn (outside other : Outside) (R : Machine → Machine → Prop) (t : Task α) : Prop :=
  ∀ m m', R m m' → (t.run other m').1 = (t.run outside m).1 ∧
    R (t.run outside m).2 (t.run other m').2

theorem SameIn.of_run {t : Task α} (h : t.SameIn outside other R) {m m₁ m' : Machine}
    {result : Except Fault α} (hm : R m m') (hrun : t.run outside m = (result, m₁)) :
    ∃ m₁', t.run other m' = (result, m₁') ∧ R m₁ m₁' := by
  have hboth := h m m' hm
  rw [hrun] at hboth
  exact ⟨(t.run other m').2, Prod.ext hboth.1 rfl, hboth.2⟩

theorem sameIn_pure (a : α) : (pure a : Task α).SameIn outside other R := fun _ _ h => ⟨rfl, h⟩

theorem sameIn_fail (fault : Fault) : (fail fault : Task α).SameIn outside other R :=
  fun _ _ h => ⟨rfl, h⟩

theorem sameIn_read {f : Machine → α} (h : ∀ m m', R m m' → f m' = f m) :
    (read f).SameIn outside other R := fun m m' hm => ⟨congrArg Except.ok (h m m' hm), hm⟩

theorem sameIn_change {f : Machine → Machine} (h : ∀ m m', R m m' → R (f m) (f m')) :
    (change f).SameIn outside other R := fun m m' hm => ⟨rfl, h m m' hm⟩

theorem sameIn_attempt {t : Task α} (h : t.SameIn outside other R) :
    (attempt t).SameIn outside other R := fun m m' hm =>
  ⟨congrArg Except.ok (h m m' hm).1, (h m m' hm).2⟩

theorem sameIn_bind {t : Task α} {f : α → Task β} (ht : t.SameIn outside other R)
    (hf : ∀ a, (f a).SameIn outside other R) : (t >>= f).SameIn outside other R := by
  intro m m' hm
  rcases hrun : t.run outside m with ⟨fault | a, m₁⟩
  · obtain ⟨m₁', hrun', hleft⟩ := ht.of_run hm hrun
    rw [run_bind_error hrun, run_bind_error hrun']
    exact ⟨rfl, hleft⟩
  · obtain ⟨m₁', hrun', hleft⟩ := ht.of_run hm hrun
    rw [run_bind_ok hrun, run_bind_ok hrun']
    exact hf a m₁ m₁' hleft

end Task

section

variable {g : Gateway} {start : History} {outside other : Outside}

theorem Task.sameIn_checkDuration {R : Machine → Machine → Prop} (milliseconds : Int) :
    (Task.checkDuration milliseconds).SameIn outside other R := by
  unfold Task.checkDuration
  split
  · exact Task.sameIn_fail _
  · exact Task.sameIn_pure _

theorem Task.sameIn_passTime (milliseconds : Nat) :
    (Task.passTime milliseconds).SameIn outside other (Machine.AlikeUntilShot g start) :=
  Task.sameIn_change fun _ _ h => { h with elapsed := congrArg (· + milliseconds) h.elapsed }

theorem Task.sameIn_pause (milliseconds : Int) :
    (Task.pause milliseconds).SameIn outside other (Machine.AlikeUntilShot g start) :=
  Task.sameIn_bind (Task.sameIn_checkDuration _) fun _ => Task.sameIn_passTime _

theorem ChildProcess.sameIn_watch (argv : List Text) (silent : Bool) (timeout : Int)
    (child : Child) :
    (watch argv silent timeout child).SameIn outside other (Machine.AlikeUntilShot g start) := by
  have hecho : ∀ t : Text, (Task.echo t).SameIn outside other (Machine.AlikeUntilShot g start) :=
    fun t => Task.sameIn_change fun _ _ h => { h with }
  refine Task.sameIn_bind (Task.sameIn_checkDuration _) fun _ => ?_
  refine Task.sameIn_bind (Task.sameIn_passTime _) fun _ => ?_
  dsimp only
  split
  · refine Task.sameIn_bind (Task.sameIn_passTime _) fun _ => ?_
    split
    · exact Task.sameIn_bind (hecho _) fun _ => Task.sameIn_pure _
    · exact Task.sameIn_pure _
  · split
    · exact Task.sameIn_bind (hecho _) fun _ => Task.sameIn_pure _
    · exact Task.sameIn_pure _

variable (halike : outside.AlikeUntilShot start other)
include halike

theorem Task.sameIn_launch {l : Launch} (hl : ¬ l.IsShot) :
    (Task.launch l).SameIn outside other (Machine.AlikeUntilShot g start) := by
  intro m m' hm
  -- Both programs are asked after the same calls, none of them a screenshot.
  obtain ⟨since, hcalls, hsince⟩ := hm.since
  have hanswer : (other.launch m'.calls l).answer = (outside.launch m.calls l).answer := by
    rw [hm.calls, hcalls]
    exact halike.launch since l hsince hl
  have hcall : ¬ (Call.launch m.elapsed l).IsShot := hl
  refine ⟨congrArg Except.ok hanswer, ?_⟩
  change Machine.AlikeUntilShot g start (m.after (.launch m.elapsed l) _)
    (m'.after (.launch m'.elapsed l) _)
  rw [hm.elapsed]
  exact hm.after hcall _ _

theorem Task.sameIn_browse {call : BrowserCall} (hcall : ¬ call.IsShot) :
    (Task.browse call).SameIn outside other (Machine.AlikeUntilShot g start) := by
  intro m m' hm
  obtain ⟨since, hcalls, hsince⟩ := hm.since
  have hanswer : (other.browse m'.calls call).answer = (outside.browse m.calls call).answer := by
    rw [hm.calls, hcalls]
    exact halike.browse since call hsince hcall
  have hcall : ¬ (Call.browse m.elapsed call).IsShot := hcall
  refine ⟨congrArg Except.ok hanswer, ?_⟩
  change Machine.AlikeUntilShot g start (m.after (.browse m.elapsed call) _)
    (m'.after (.browse m'.elapsed call) _)
  rw [hm.elapsed]
  exact hm.after hcall _ _

/-- A command that takes no screenshot is answered alike. -/
theorem Gateway.sameIn_give {call : BrowserCall} (hcall : ¬ call.IsShot) :
    (g.give call).SameIn outside other (Machine.AlikeUntilShot g start) := by
  cases g with
  | direct binary =>
    refine Task.sameIn_bind (Task.sameIn_browse halike hcall) fun reply => ?_
    cases reply with
    | result r => exact Task.sameIn_pure r
    | broken message => exact Task.sameIn_fail _
  | program binary standard environment =>
    unfold give run runWith ChildProcess.run
    dsimp only
    split
    · exact Task.sameIn_fail _
    refine Task.sameIn_bind (Task.sameIn_read fun _ _ hm => hm.newVariables) fun visible => ?_
    have hl : ¬ Launch.IsShot { argv := binary :: call.args, silent := call.silent
                                environment := visible } := hcall
    refine Task.sameIn_bind (Task.sameIn_launch halike hl) fun answer => ?_
    split
    · exact Task.sameIn_pure _
    · exact Task.sameIn_pure _
    · exact ChildProcess.sameIn_watch _ _ _ _

/-- A task that speaks to the browser and takes no screenshot comes to the same. -/
theorem Speaks.sameIn {α : Type} {kind : BrowserCall → Prop} {t : Task α} (h : Speaks g kind t)
    (hkind : ∀ call, kind call → ¬ call.IsShot) :
    t.SameIn outside other (Machine.AlikeUntilShot g start) := by
  induction h with
  | pure a => exact Task.sameIn_pure a
  | fail fault => exact Task.sameIn_fail fault
  | pause milliseconds => exact Task.sameIn_pause milliseconds
  | enter state => exact Task.sameIn_change fun _ _ h => { h with }
  | give hcall => exact Gateway.sameIn_give halike (hkind _ hcall)
  | attempt _ ih => exact Task.sameIn_attempt ih
  | bind _ _ ih ihnext => exact Task.sameIn_bind ih ihnext

end

end Acceptance
