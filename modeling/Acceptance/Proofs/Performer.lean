import Acceptance.Browser.Performer
import Acceptance.Proofs.Speaking

/-! # What a step says to the browser

Whatever a step is, its commands are of a few kinds: they open an address, click an element, fill a
field or read the page. None of them closes the session, takes a screenshot or installs anything.
-/

namespace Acceptance

namespace Performer

/-! ## The commands of steps -/

/-- What the command of a step may start with. -/
def stepWords : List Text := ["open", "find", "click", "fill", "snapshot", "get", "url"]

/-- Is it a command of a step? -/
def IsStepCall (call : BrowserCall) : Prop := ∃ word ∈ stepWords, call.args.head? = some word

/-- Only commands of steps are given. -/
abbrev TellsSteps (g : Gateway) (outside : Outside) : Machine → Machine → Prop :=
  Tells g outside IsStepCall

/-- A command of a step with one of the time limits for commands. -/
structure StepCall (p : Performer) (call : BrowserCall) : Prop where
  word : IsStepCall call
  timeout : ∃ t ∈ [p.timeouts.navigate, p.timeouts.action, p.timeouts.read], call.timeout = some t

/-- The commands that read the page. -/
def readings : List (List Text) := [["snapshot", "-i", "--json"], ["get", "text", "body"], ["url"]]

variable {p : Performer} {mayClick : Text → Prop} {mayFill : Text → Text → Prop}
  {call : BrowserCall}

/-- A command of a step, where an element may be clicked if its name is as `mayClick` says, and a
field may be filled with a value if `mayFill` says so. -/
inductive Command (p : Performer) (mayClick : Text → Prop) (mayFill : Text → Text → Prop) :
    BrowserCall → Prop where
  | opens (url : Text) : Command p mayClick mayFill
    { args := ["open", url], silent := true, timeout := some p.timeouts.navigate }
  | clicks {name : Text} {a : Attempt} : mayClick name → a ∈ p.clickAttempts name →
    Command p mayClick mayFill { args := a.args, silent := true, timeout := some a.timeout }
  | fills {field value : Text} {a : Attempt} : mayFill field value →
    a ∈ p.fillAttempts field value →
    Command p mayClick mayFill { args := a.args, silent := true, timeout := some a.timeout }
  | reads {args : List Text} : args ∈ readings → Command p mayClick mayFill
    { args, silent := true, timeout := some p.timeouts.read }

theorem Command.stepCall (h : p.Command mayClick mayFill call) : p.StepCall call := by
  cases h with
  | opens url => exact ⟨by simp [IsStepCall, stepWords], by simp⟩
  | @clicks name a hname ha =>
    have hall : ∀ a ∈ p.clickAttempts name, (∃ word ∈ stepWords, a.args.head? = some word) ∧
        a.timeout = p.timeouts.action := by
      simp [clickAttempts, Attempt.clicks, Attempt.press, stepWords]
    exact ⟨(hall a ha).1, by simp [(hall a ha).2]⟩
  | @fills field value a hfield ha =>
    have hall : ∀ a ∈ p.fillAttempts field value,
        (∃ word ∈ stepWords, a.args.head? = some word) ∧ a.timeout = p.timeouts.action := by
      simp [fillAttempts, Attempt.fills, stepWords]
    exact ⟨(hall a ha).1, by simp [(hall a ha).2]⟩
  | @reads args hargs =>
    have hall : ∀ args ∈ readings, ∃ word ∈ stepWords, args.head? = some word := by decide
    exact ⟨hall args hargs, by simp⟩

/-- The task waits and gives commands of steps that may be given, and nothing else. -/
abbrev SpeaksOf {α : Type} (p : Performer) (mayClick : Text → Prop) (mayFill : Text → Text → Prop)
    (t : Task α) : Prop := Speaks p.gateway (p.Command mayClick mayFill) t

theorem speaksOf_command {args : List Text} {timeout : Int}
    (h : p.Command mayClick mayFill { args, silent := true, timeout := some timeout }) :
    p.SpeaksOf mayClick mayFill (p.command args timeout) := .give h

theorem speaksOf_openUrl (url : Text) : p.SpeaksOf mayClick mayFill (p.openUrl url) :=
  speaksOf_command (.opens url)

theorem speaksOf_reading {args : List Text} (h : args ∈ readings) :
    p.SpeaksOf mayClick mayFill (p.command args p.timeouts.read) := speaksOf_command (.reads h)

theorem speaksOf_firstSuccessAfter (last : CommandResult) {attempts : List Attempt}
    (h : ∀ a ∈ attempts, p.Command mayClick mayFill
      { args := a.args, silent := true, timeout := some a.timeout }) :
    p.SpeaksOf mayClick mayFill (p.firstSuccessAfter last attempts) := by
  induction attempts generalizing last with
  | nil => exact .pure _
  | cons attempt rest ih =>
    rw [List.forall_mem_cons] at h
    refine .bind (speaksOf_command h.1) fun result => ?_
    split
    · exact .pure _
    · exact ih result h.2

/-! ## Clicking and filling -/

theorem speaksOf_click {step : Text} (h : mayClick (Step.clickTarget step)) :
    p.SpeaksOf mayClick mayFill (p.click step) :=
  .bind (speaksOf_firstSuccessAfter _ fun _ ha => .clicks h ha) fun _ => .pure _

theorem speaksOf_fillField {field value : Text} (h : mayFill field value) :
    p.SpeaksOf mayClick mayFill (p.fillField field value) :=
  speaksOf_firstSuccessAfter _ fun _ ha => .fills h ha

/-- The fields of the account may be filled, and its button may be clicked. -/
structure MayLogIn (p : Performer) (mayClick : Text → Prop) (mayFill : Text → Text → Prop) :
    Prop where
  studentId : mayFill p.credentials.studentIdField p.credentials.studentId
  password : mayFill p.credentials.passwordField p.credentials.password
  submit : mayClick p.credentials.submitButton

theorem speaksOf_fillCredentials (h : p.MayLogIn mayClick mayFill) :
    p.SpeaksOf mayClick mayFill p.fillCredentials := by
  refine .bind (speaksOf_fillField h.studentId) fun _ => .bind (.pause _) fun _ => ?_
  exact .bind (speaksOf_fillField h.password) fun _ => .pure _

theorem speaksOf_login (h : p.MayLogIn mayClick mayFill) :
    p.SpeaksOf mayClick mayFill p.login := by
  have hpress : ⟨Attempt.press p.credentials.submitButton, p.timeouts.action⟩ ∈
      p.clickAttempts p.credentials.submitButton := by simp [clickAttempts, Attempt.clicks]
  refine .bind (speaksOf_fillField h.studentId) fun _ => .bind (.pause _) fun _ => ?_
  refine .bind (speaksOf_fillField h.password) fun _ => .bind (.pause _) fun _ => ?_
  exact .bind (speaksOf_command (.clicks h.submit hpress)) fun _ => .pure _

/-! ## Verifying -/

theorem speaksOf_readSnapshot : p.SpeaksOf mayClick mayFill p.readSnapshot :=
  speaksOf_reading (by decide)

theorem speaksOf_genericCheck : p.SpeaksOf mayClick mayFill p.genericCheck :=
  .bind speaksOf_readSnapshot fun _ => .pure _

theorem speaksOf_snapshotShows (target : Text) :
    p.SpeaksOf mayClick mayFill (p.snapshotShows target) := by
  refine .bind speaksOf_readSnapshot fun result => ?_
  split
  · exact .bind (.ofExcept _) fun _ => .pure _
  · exact .pure _

theorem speaksOf_pageShows (target : Text) : p.SpeaksOf mayClick mayFill (p.pageShows target) :=
  .bind (speaksOf_reading (by decide)) fun _ => .pure _

theorem speaksOf_addressShows (target : Text) :
    p.SpeaksOf mayClick mayFill (p.addressShows target) := by
  unfold addressShows
  split
  · exact .pure _
  · refine .bind (speaksOf_reading (by decide)) fun result => ?_
    split
    · exact .pure _
    · split
      · exact .pure _
      · exact .fail _

theorem speaksOf_verify (step : Text) : p.SpeaksOf mayClick mayFill (p.verify step) := by
  refine .bind (.pause _) fun _ => ?_
  dsimp only
  split
  · exact speaksOf_genericCheck
  refine .bind (speaksOf_snapshotShows _) fun shows => ?_
  split
  · exact .pure _
  refine .bind (speaksOf_pageShows _) fun shows => ?_
  split
  · exact .pure _
  refine .bind (speaksOf_addressShows _) fun shows => ?_
  split <;> exact .pure _

/-! ## Steps -/

theorem speaksOf_wait (step : Text) : p.SpeaksOf mayClick mayFill (p.wait step) := by
  unfold wait
  split
  · exact .bind (.pause _) fun _ => .pure _
  · exact .fail _

/-- A step gives commands of steps only, one case per kind of step. -/
theorem speaksOf_perform {step : Text} {data : Option Input}
    (hclick : Step.classify step = .click → mayClick (Step.clickTarget step))
    (hfill : mayFill (Step.input step data).field (Step.input step data).value)
    (haccount : Step.classify step = .login ∨ Step.isCredentials step = true →
      p.MayLogIn mayClick mayFill) :
    p.SpeaksOf mayClick mayFill (p.perform step data) := by
  unfold perform
  split
  next => exact .bind (speaksOf_openUrl _) fun _ => .pure _
  next hkind => exact speaksOf_click (hclick hkind)
  next =>
    split
    next hcredentials => exact speaksOf_fillCredentials (haccount (.inr hcredentials))
    next => exact .bind (speaksOf_fillField hfill) fun _ => .pure _
  next => exact speaksOf_verify step
  next hkind => exact speaksOf_login (haccount (.inl hkind))
  next => exact speaksOf_wait step
  next => exact .pure _

/-! ## Whatever may be clicked and filled -/

/-- The task waits and gives commands of steps, and nothing else. -/
abbrev SpeaksSteps {α : Type} (p : Performer) (t : Task α) : Prop := Speaks p.gateway p.StepCall t

theorem speaks_of_speaksOf {α : Type} {t : Task α}
    (h : p.SpeaksOf (fun _ => True) (fun _ _ => True) t) : p.SpeaksSteps t :=
  h.mono fun _ => Command.stepCall

theorem mayLogIn_true (p : Performer) : p.MayLogIn (fun _ => True) fun _ _ => True :=
  ⟨trivial, trivial, trivial⟩

theorem speaks_openUrl (url : Text) : p.SpeaksSteps (p.openUrl url) :=
  speaks_of_speaksOf (speaksOf_openUrl url)

theorem speaks_login : p.SpeaksSteps p.login :=
  speaks_of_speaksOf (speaksOf_login p.mayLogIn_true)

theorem speaks_genericCheck : p.SpeaksSteps p.genericCheck :=
  speaks_of_speaksOf speaksOf_genericCheck

theorem speaks_perform (step : Text) (data : Option Input) :
    p.SpeaksSteps (p.perform step data) :=
  speaks_of_speaksOf (speaksOf_perform (fun _ => trivial) trivial fun _ => p.mayLogIn_true)

end Performer

end Acceptance
