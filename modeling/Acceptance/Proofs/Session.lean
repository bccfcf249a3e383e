import Acceptance.Browser.Session
import Acceptance.Proofs.Talk

/-! # Sessions

The commands that open and close a session. A session that is used is closed last, whatever came
before.
-/

namespace Acceptance

namespace Session

variable {s : Session} {outside : Outside} {m m' : Machine} {url : Text} {headless : Bool}

/-! ## Opening -/

/-- The command that opens an address. -/
def openCall (s : Session) (url : Text) (headless : Bool) : BrowserCall :=
  { args := openArgs url headless, silent := false, timeout := some s.openTimeout }

/-- The command that closes the session. -/
def closeCall : BrowserCall := { args := ["close"], silent := true, timeout := some closeTimeout }

/-- The commands of opening an address, and what came of the last: one that succeeds or breaks off is
the only one; after a failure the session is closed, and unless this breaks off the address is
opened once more. -/
inductive Opening (s : Session) (url : Text) (headless : Bool) :
    List Exchange → Except Fault CommandResult → Prop where
  | succeeds {r} : r.success = true →
    Opening s url headless [⟨s.openCall url headless, .ok r⟩] (.ok r)
  | breaks (fault) :
    Opening s url headless [⟨s.openCall url headless, .error fault⟩] (.error fault)
  | stuck {r} (fault) : r.success = false →
    Opening s url headless [⟨s.openCall url headless, .ok r⟩, ⟨closeCall, .error fault⟩]
      (.error fault)
  | again {r} (closed answer) : r.success = false →
    Opening s url headless
      [⟨s.openCall url headless, .ok r⟩, ⟨closeCall, .ok closed⟩,
        ⟨s.openCall url headless, answer⟩] answer

/-- Is the session open after such an answer? The page must have settled, too. -/
def Opened (s : Session) (answer : Except Fault CommandResult) : Prop :=
  (∃ r, answer = .ok r ∧ r.success = true) ∧ s.settle.natAbs < longestDuration

theorem tryOpen_eq : s.tryOpen url headless = s.gateway.give (s.openCall url headless) := rfl

theorem tryClose_eq : s.tryClose = s.gateway.give closeCall := rfl

theorem openResult_spec (s : Session) (url : Text) (headless : Bool) (outside : Outside)
    (m : Machine) :
    ∃ es, Opening s url headless es ((s.openResult url headless).run outside m).1 ∧
      Talk s.gateway outside m es ((s.openResult url headless).run outside m).2 := by
  have hopen := Talk.single s.gateway outside m (s.openCall url headless)
  unfold openResult
  rw [tryOpen_eq, tryClose_eq, Task.run_bind]
  rcases hfirst : (s.gateway.give (s.openCall url headless)).run outside m with ⟨fault | r, m₁⟩
  · rw [hfirst] at hopen
    exact ⟨_, .breaks fault, hopen⟩
  rw [hfirst] at hopen
  cases hr : r.success with
  | true => simpa [hr] using ⟨_, .succeeds hr, hopen⟩
  | false =>
    have hclose := Talk.single s.gateway outside m₁ closeCall
    simp only [hr, Bool.false_eq_true, if_false, Task.run_bind]
    rcases hsecond : (s.gateway.give closeCall).run outside m₁ with ⟨fault | closed, m₂⟩
    · rw [hsecond] at hclose
      exact ⟨_, .stuck fault hr, hopen.append hclose⟩
    · rw [hsecond] at hclose
      have hagain := Talk.single s.gateway outside m₂ (s.openCall url headless)
      exact ⟨_, .again closed _ hr, (hopen.append hclose).append hagain⟩

theorem quiet_enter (m : Machine) (state : SessionState) : m.Quiet { m with session := state } :=
  { Machine.Quiet.rfl with }

/-- Opening a session gives a result if the last answer opened it, and otherwise a fault. -/
theorem open_spec (s : Session) (url : Text) (headless : Bool) (outside : Outside) (m : Machine) :
    ∃ es answer, Opening s url headless es answer ∧
      Talk s.gateway outside m es ((s.open url headless).run outside m).2 ∧
      (s.Opened answer ↔ ∃ r, ((s.open url headless).run outside m).1 = .ok r) := by
  obtain ⟨es, hopening, htalk⟩ :=
    openResult_spec s url headless outside { m with session := .opening }
  replace htalk := htalk.quiet_append (quiet_enter m .opening)
  refine ⟨es, _, hopening, ?_⟩
  unfold «open»
  simp only [enter, Task.run_change_bind]
  rw [Task.run_bind]
  rcases hresult : (s.openResult url headless).run outside { m with session := .opening }
    with ⟨fault | r, m₁⟩
  · rw [hresult] at htalk
    exact ⟨htalk, by simp [Opened]⟩
  rw [hresult] at htalk
  cases hr : r.success with
  | false =>
    have hclosed := quiet_enter m₁ .closed
    simp only [hr, Bool.false_eq_true, if_false, Task.run_change_bind, Task.run_fail]
    exact ⟨htalk.append_quiet hclosed, by simp [Opened, hr]⟩
  | true =>
    simp only [hr, if_true, Task.run_change_bind]
    have hentered := quiet_enter m₁ .open
    have hsettled : Task.Leaves outside Machine.Quiet (Task.pause s.settle) := Task.quiet_pause _
    replace hsettled := hsettled { m₁ with session := .open }
    rcases Nat.lt_or_ge s.settle.natAbs longestDuration with hsettle | hsettle
    · have hpause : (Task.pause s.settle).run outside { m₁ with session := .open } = _ :=
        Task.pause_of_lt hsettle _
      rw [hpause] at hsettled
      rw [Task.run_bind_ok hpause]
      exact ⟨htalk.append_quiet (trans_of Machine.Quiet hentered hsettled),
        by simp [Opened, hr, hsettle]⟩
    · rw [Task.run_bind_error (Task.pause_of_le hsettle _)]
      exact ⟨htalk.append_quiet hentered, by simp [Opened, Nat.not_lt.mpr hsettle]⟩

/-- A first command that succeeds opens the session, if the page settles. -/
theorem open_of_success {r : CommandResult} {m₁ : Machine}
    (h : (s.tryOpen url headless).run outside { m with session := .opening } = (.ok r, m₁))
    (hr : r.success = true) (hsettle : s.settle.natAbs < longestDuration) :
    (s.open url headless).run outside m =
      (.ok r, { m₁ with session := .open, elapsed := m₁.elapsed + s.settle.toNat }) := by
  have hresult : (s.openResult url headless).run outside { m with session := .opening } =
      (.ok r, m₁) := by
    unfold openResult
    rw [Task.run_bind_ok h, if_pos hr, Task.run_pure]
  unfold «open»
  simp only [enter, Task.run_change_bind]
  rw [Task.run_bind_ok hresult, if_pos hr, Task.run_change_bind,
    Task.run_bind_ok (Task.pause_of_lt hsettle _), Task.run_pure]

/-! ## Closing -/

/-- Closing is one command, gives no fault, and leaves the session closed. -/
theorem close_spec (s : Session) (outside : Outside) (m : Machine) :
    (s.close.run outside m).1 = .ok () ∧ (s.close.run outside m).2.session = .closed ∧
      Talk s.gateway outside m [⟨closeCall, (s.tryClose.run outside m).1⟩]
        (s.close.run outside m).2 := by
  refine ⟨rfl, rfl, ?_⟩
  exact (Talk.single s.gateway outside m closeCall).append_quiet (quiet_enter _ .closed)

/-! ## Using -/

variable {α : Type}

/-- A session that does not open: the body is left out and the fault is passed on. -/
theorem opened_of_error {fault : Fault} {m₁ : Machine} (body : Task α)
    (h : (s.open url headless).run outside m = (.error fault, m₁)) :
    (s.opened url headless body).run outside m = (.error fault, (s.close.run outside m₁).2) := by
  have hresult : (s.open url headless >>= fun _ => body).run outside m = (.error fault, m₁) :=
    Task.run_bind_error h _
  unfold opened
  rw [Task.run_attempt_bind, hresult, Task.run_bind_ok (a := ()) rfl, Task.run_ofExcept]
  rfl

/-- A session that opens: the result is that of the body, and the session is closed after it. -/
theorem opened_of_ok {r : CommandResult} {m₁ : Machine} (body : Task α)
    (h : (s.open url headless).run outside m = (.ok r, m₁)) :
    (s.opened url headless body).run outside m =
      ((body.run outside m₁).1, (s.close.run outside (body.run outside m₁).2).2) := by
  have hresult : (s.open url headless >>= fun _ => body).run outside m = body.run outside m₁ :=
    Task.run_bind_ok h _
  unfold opened
  rw [Task.run_attempt_bind, hresult, Task.run_bind_ok (a := ()) rfl, Task.run_ofExcept]
  rfl

end Session

end Acceptance
