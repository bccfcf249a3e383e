import Acceptance.Proofs.Session

/-! # Tasks that speak to the browser

A task that does nothing but wait and give commands of a kind to the browser. What is true of giving
one such command follows for the whole task, by induction on how the task is put together. -/

namespace Acceptance

variable {g : Gateway} {kind : BrowserCall → Prop} {α β : Type}

/-- The task waits, notes the state of the session, gives commands of the kind, and does nothing
else. -/
inductive Speaks (g : Gateway) (kind : BrowserCall → Prop) : {α : Type} → Task α → Prop where
  | pure {α : Type} (a : α) : Speaks g kind (pure a)
  | fail {α : Type} (fault : Fault) : Speaks g kind (Task.fail fault : Task α)
  | pause (milliseconds : Int) : Speaks g kind (Task.pause milliseconds)
  | enter (state : SessionState) : Speaks g kind (Session.enter state)
  | give {call : BrowserCall} : kind call → Speaks g kind (g.give call)
  | attempt {α : Type} {t : Task α} : Speaks g kind t → Speaks g kind (Task.attempt t)
  | bind {α β : Type} {t : Task α} {f : α → Task β} : Speaks g kind t →
    (∀ a, Speaks g kind (f a)) → Speaks g kind (t >>= f)

namespace Speaks

theorem ofExcept (e : Except Fault α) : Speaks g kind (Task.ofExcept e) := by
  cases e with
  | ok a => exact .pure a
  | error fault => exact .fail fault

theorem mono {other : BrowserCall → Prop} {t : Task α} (h : Speaks g kind t)
    (hkind : ∀ call, kind call → other call) : Speaks g other t := by
  induction h with
  | pure a => exact .pure a
  | fail fault => exact .fail fault
  | pause milliseconds => exact .pause milliseconds
  | enter state => exact .enter state
  | give hcall => exact .give (hkind _ hcall)
  | attempt _ ih => exact .attempt ih
  | bind _ _ ih ihnext => exact .bind ih ihnext

/-- What such a task leaves behind. -/
theorem tells {t : Task α} (h : Speaks g kind t) (outside : Outside) :
    t.Leaves outside (Tells g outside kind) := by
  induction h with
  | pure a => exact Task.leaves_pure a
  | fail fault => exact Task.leaves_fail fault
  | pause milliseconds => exact (Task.quiet_pause milliseconds).mono fun _ _ h => .of_quiet h
  | enter state => exact Task.leaves_change fun _ => .of_quiet { Machine.Quiet.rfl with }
  | give hcall => exact tells_give _ hcall
  | attempt _ ih => exact Task.leaves_attempt ih
  | bind _ _ ih ihnext => exact Task.leaves_bind ih ihnext

end Speaks

/-! ## Sessions -/

namespace Session

variable {s : Session} {url : Text} {headless : Bool}

theorem speaks_open (hopen : kind (s.openCall url headless)) (hclose : kind closeCall) :
    Speaks s.gateway kind (s.open url headless) := by
  have hresult : Speaks s.gateway kind (s.openResult url headless) := by
    refine .bind (.give hopen) fun first => ?_
    split
    · exact .pure _
    · exact .bind (.give hclose) fun _ => .give hopen
  refine .bind (.enter _) fun _ => .bind hresult fun result => ?_
  split
  · exact .bind (.enter _) fun _ => .bind (.pause _) fun _ => .pure _
  · exact .bind (.enter _) fun _ => .fail _

theorem speaks_close (hclose : kind closeCall) : Speaks s.gateway kind s.close :=
  .bind (.attempt (.give hclose)) fun _ => .enter _

end Session

end Acceptance
