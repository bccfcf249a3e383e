import Acceptance.Proofs.SessionLife

/-! # Opening once more

A session that is left over from an earlier run may keep a new one from opening. So after a failure
the session is closed and the same command is given once more, but not a third time. A browser that
breaks off while the left-over session is closed ends the opening; the second command is not given
then. -/

namespace Acceptance

namespace Session

variable {s : Session} {outside : Outside} {m last : Machine} {url : Text} {headless : Bool}
  {es : List Exchange} {answer : Except Fault CommandResult}

/-- What opening comes to after the last answer: a command that succeeded opens the session if the
time to settle can be waited for. -/
def concluded (s : Session) (url : Text) :
    Except Fault CommandResult → Except Fault CommandResult
  | .error fault => .error fault
  | .ok r =>
    if r.success then
      if s.settle.natAbs < longestDuration then .ok r else .error (.excess .duration)
    else .error (.openFailed url r.error)

/-- After the last answer no command follows. -/
theorem run_open (h : (s.openResult url headless).run outside { m with session := .opening } =
      (answer, last)) :
    ∃ after, (s.open url headless).run outside m = (concluded s url answer, after) ∧
      last.Quiet after := by
  unfold «open»
  simp only [enter, Task.run_change_bind]
  rcases answer with fault | r
  · exact ⟨last, Task.run_bind_error h _, .rfl⟩
  rw [Task.run_bind_ok h]
  cases hr : r.success with
  | false =>
    simp only [concluded, hr, Bool.false_eq_true, if_false, Task.run_change_bind, Task.run_fail]
    exact ⟨_, rfl, quiet_enter last .closed⟩
  | true =>
    simp only [concluded, hr, if_true, Task.run_change_bind]
    rcases Nat.lt_or_ge s.settle.natAbs longestDuration with hsettle | hsettle
    · rw [if_pos hsettle, Task.run_bind_ok (Task.pause_of_lt hsettle _)]
      exact ⟨_, rfl, { quiet_enter last .open with }⟩
    · rw [if_neg (Nat.not_lt.mpr hsettle), Task.run_bind_error (Task.pause_of_le hsettle _)]
      exact ⟨_, rfl, quiet_enter last .open⟩

/-- How opening an address goes: the first command with its answer, the commands after it, and what
comes of them. -/
structure Reopens (s : Session) (url : Text) (headless : Bool) (first : Exchange)
    (rest : List Exchange) (result : Except Fault CommandResult) : Prop where
  call : first.call = s.openCall url headless
  /-- Nothing follows a command that succeeded or broke off. -/
  alone : ¬ first.Failed → rest = []
  /-- After a failure the session is closed, and the same command is given exactly once more, unless
  the browser breaks off in between. -/
  again : first.Failed →
    (∃ closed second, rest = [⟨closeCall, .ok closed⟩, ⟨s.openCall url headless, second⟩]) ∨
      ∃ fault, rest = [⟨closeCall, .error fault⟩] ∧ result = .error fault
  opened : ∀ r, result = .ok r ↔ r.success = true ∧ s.settle.natAbs < longestDuration ∧
    ⟨s.openCall url headless, .ok r⟩ ∈ first :: rest
  refused : ∀ place error, result = .error (.openFailed place error) ↔ place = url ∧
    ∃ closed r, first.Failed ∧
      rest = [⟨closeCall, .ok closed⟩, ⟨s.openCall url headless, .ok r⟩] ∧
      r.success = false ∧ r.error = error

theorem concluded_eq_ok {r : CommandResult} :
    concluded s url answer = .ok r ↔
      r.success = true ∧ s.settle.natAbs < longestDuration ∧ answer = .ok r := by
  rcases answer with fault | r'
  · simp [concluded]
  dsimp only [concluded]
  cases hr : r'.success with
  | false =>
    simp only [Bool.false_eq_true, if_false, reduceCtorEq, Except.ok.injEq, false_iff]
    rintro ⟨hsuccess, -, rfl⟩
    simp [hr] at hsuccess
  | true =>
    by_cases hsettle : s.settle.natAbs < longestDuration
    · simp only [hsettle, if_true, Except.ok.injEq, true_and, iff_and_self]
      rintro rfl
      exact hr
    · simp [hsettle]

theorem concluded_eq_openFailed {place : Text} {error : Option Text}
    (h : ∀ fault, answer = .error fault → ¬ fault.IsOpenFailure) :
    concluded s url answer = .error (.openFailed place error) ↔
      place = url ∧ ∃ r, answer = .ok r ∧ r.success = false ∧ r.error = error := by
  rcases answer with fault | r
  · have hne : fault ≠ .openFailed place error := by
      rintro rfl
      exact h _ rfl trivial
    simp [concluded, hne]
  dsimp only [concluded]
  cases hr : r.success with
  | false =>
    simp only [Bool.false_eq_true, if_false, Except.error.injEq, Fault.openFailed.injEq,
      Except.ok.injEq, exists_eq_left', hr, true_and]
    exact and_congr_left' eq_comm
  | true =>
    have hne : (if s.settle.natAbs < longestDuration then Except.ok r
        else .error (Fault.excess .duration)) ≠ .error (.openFailed place error) := by
      split <;> simp
    simp [hr, hne]

theorem openCall_ne_closeCall : s.openCall url headless ≠ closeCall := by
  intro h
  have hargs : openArgs url headless = ["close"] := congrArg BrowserCall.args h
  cases headless <;> simp [openArgs] at hargs

/-- The answer with which opening ends is the one that opened the address, if any did. -/
theorem Opening.answer_eq_ok {r : CommandResult} (h : Opening s url headless es answer)
    (hr : r.success = true) :
    answer = .ok r ↔ ⟨s.openCall url headless, .ok r⟩ ∈ es := by
  have hne : s.openCall url headless ≠ closeCall := openCall_ne_closeCall
  have hfailed : ∀ {r' : CommandResult}, r'.success = false → r ≠ r' := by
    rintro _ hr' rfl
    simp [hr] at hr'
  cases h with
  | succeeds => simp [eq_comm]
  | breaks => simp
  | stuck _ hr' => simp [hne, hfailed hr']
  | again _ _ hr' => simp [hne, hfailed hr', eq_comm (a := answer)]

theorem Opening.reopens (h : Opening s url headless es answer)
    (hother : ∀ fault, answer = .error fault → ¬ fault.IsOpenFailure) :
    ∃ first rest, es = first :: rest ∧
      Reopens s url headless first rest (concluded s url answer) := by
  have hopened : ∀ r, concluded s url answer = .ok r ↔
      r.success = true ∧ s.settle.natAbs < longestDuration ∧
        ⟨s.openCall url headless, .ok r⟩ ∈ es := fun r =>
    concluded_eq_ok.trans (and_congr_right fun hr => and_congr_right fun _ => h.answer_eq_ok hr)
  have hrefused : ∀ place error, concluded s url answer = .error (.openFailed place error) ↔
      place = url ∧ ∃ r, answer = .ok r ∧ r.success = false ∧ r.error = error := fun _ _ =>
    concluded_eq_openFailed hother
  cases h with
  | succeeds hr =>
    exact ⟨_, _, rfl, {
      call := rfl
      alone := fun _ => rfl
      again := by simp [Exchange.Failed, hr]
      opened := hopened
      refused := by simp [hrefused, Exchange.Failed, hr] }⟩
  | breaks fault =>
    exact ⟨_, _, rfl, {
      call := rfl
      alone := fun _ => rfl
      again := by simp [Exchange.Failed]
      opened := hopened
      refused := by simp [hrefused, Exchange.Failed] }⟩
  | stuck fault hr =>
    exact ⟨_, _, rfl, {
      call := rfl
      alone := fun hnot => absurd ⟨_, rfl, hr⟩ hnot
      again := fun _ => .inr ⟨fault, rfl, rfl⟩
      opened := hopened
      refused := by simp [hrefused] }⟩
  | again closed _ hr =>
    exact ⟨_, _, rfl, {
      call := rfl
      alone := fun hnot => absurd ⟨_, rfl, hr⟩ hnot
      again := fun _ => .inl ⟨closed, answer, rfl⟩
      opened := hopened
      refused := by simp [hrefused, Exchange.Failed, hr] }⟩

/-- Whatever the browser does: an address is opened by one command. After a failure the session is
closed, and the same command is given exactly once more, unless the browser breaks off while
closing; that fault ends the opening. The session opens if one of the two commands succeeded and the
time to settle can be waited for. It is refused, with the second error, if both commands failed. -/
theorem open_reopens (s : Session) (url : Text) (headless : Bool) (outside : Outside)
    (m : Machine) :
    ∃ first rest last result after,
      (s.open url headless).run outside m = (result, after) ∧
      Dialogue s.gateway outside { m with session := .opening } (first :: rest) last ∧
      last.Quiet after ∧ Reopens s url headless first rest result := by
  obtain ⟨es, hopening, hsaid⟩ :=
    openResult_dialogue s url headless outside { m with session := .opening }
  rcases hresult : (s.openResult url headless).run outside { m with session := .opening }
    with ⟨answer, last⟩
  rw [hresult] at hopening hsaid
  obtain ⟨after, hopen, hquiet⟩ := run_open hresult
  have hother : ∀ fault, answer = .error fault → ¬ fault.IsOpenFailure := by
    rintro fault rfl
    exact opening_not_openFailure hopening hsaid
  obtain ⟨first, rest, rfl, hreopens⟩ := hopening.reopens hother
  exact ⟨first, rest, last, _, after, hopen, hsaid, hquiet, hreopens⟩

/-- A browser that an earlier session is in the way of: the first command that opens an address
fails, and closing breaks off. -/
def stale : Outside :=
  Playbook.outside []
    [{ start := ["open"], times := some 1
       answer := .result { success := false, error := some "busy", code := some 1 }
       installs := [], touches := none },
      { start := ["close"], times := none
        answer := .broken "gone"
        installs := [], touches := none }]
    0

/-- The first command fails, and it is not given a second time, although it would succeed then. -/
theorem not_reopened_stale :
    let s : Session := { gateway := .direct "agent-browser" }
    let m := Machine.bare ["agent-browser"]
    let first := (s.tryOpen "http://a.test" true).run stale m
    let closed := s.tryClose.run stale first.2
    (∃ r, first.1 = .ok r ∧ r.success = false) ∧
      closed.1 = .error (.broken "gone") ∧
      (∃ r, ((s.tryOpen "http://a.test" true).run stale closed.2).1 = .ok r ∧ r.success = true) ∧
      ((s.open "http://a.test" true).run stale m).1 = .error (.broken "gone") ∧
      ((s.open "http://a.test" true).run stale m).2.calls =
        [.browse 0 (s.openCall "http://a.test" true), .browse 0 closeCall] :=
  ⟨⟨_, rfl, rfl⟩, rfl, ⟨_, rfl, rfl⟩, rfl, rfl⟩

end Session

end Acceptance
