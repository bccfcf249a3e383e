import Acceptance.Proofs.Verifying

/-! # Attempts in order

A step that clicks or fills tries its commands one after the other, up to the first that succeeds. A
step that fills both fields of an account needs a success for each of them; one that logs in fills
both, too, but needs nothing but the last command. -/

namespace Acceptance

variable {g : Gateway} {outside : Outside} {m m₁ m' : Machine} {es : List Exchange}

/-! ## Commands and pauses -/

/-- What happens while a step is carried out. -/
inductive Deed where
  | gives (e : Exchange)
  | rests (milliseconds : Int)

/-- Commands are given and times are waited for, right after one another. -/
inductive Course (g : Gateway) (outside : Outside) : Machine → List Deed → Machine → Prop where
  | ends (m : Machine) : Course g outside m [] m
  | gives {m m₁ m' : Machine} {call answer rest} :
    (g.give call).run outside m = (answer, m₁) → Course g outside m₁ rest m' →
    Course g outside m (.gives ⟨call, answer⟩ :: rest) m'
  | rests {m m' : Machine} {milliseconds rest} :
    Course g outside { m with elapsed := m.elapsed + milliseconds.toNat } rest m' →
    Course g outside m (.rests milliseconds :: rest) m'

/-- What happens after a dialogue goes on from the machine that it left. -/
theorem Dialogue.course {rest : List Deed} (h : Dialogue g outside m es m₁)
    (hrest : Course g outside m₁ rest m') :
    Course g outside m (es.map .gives ++ rest) m' := by
  induction h with
  | silent => exact hrest
  | said hgive _ ih => exact .gives hgive (ih hrest)

/-! ## A browser that does not break off -/

/-- Whatever was before, the browser answers the command. -/
def Gateway.Answers (g : Gateway) (outside : Outside) (call : BrowserCall) : Prop :=
  ∀ m, ∃ r, ((g.give call).run outside m).1 = .ok r

theorem Dialogue.answered (h : Dialogue g outside m es m')
    (hanswers : ∀ e ∈ es, g.Answers outside e.call) : ∀ e ∈ es, ∃ r, e.answer = .ok r := by
  induction h with
  | silent => simp
  | said hgive _ ih =>
    rw [List.forall_mem_cons] at hanswers ⊢
    refine ⟨?_, ih hanswers.2⟩
    obtain ⟨r, hr⟩ := hanswers.1 _
    exact ⟨r, by rw [← hr, hgive]⟩

/-! ## Tries -/

namespace Attempt

def call (a : Attempt) : BrowserCall :=
  { args := a.args, silent := true, timeout := some a.timeout }

end Attempt

namespace Performer

variable {p : Performer} {attempts : List Attempt} {last r : CommandResult}
  {answer : Except Fault CommandResult} {step field value : Text}

/-- How attempts go when `last` is the result so far: the next is made only if this one failed. -/
inductive Tried : CommandResult → List Attempt → List Exchange → Except Fault CommandResult →
    Prop where
  | exhausted (last : CommandResult) : Tried last [] [] (.ok last)
  | succeeds {last r : CommandResult} {a rest} : r.success = true →
    Tried last (a :: rest) [⟨a.call, .ok r⟩] (.ok r)
  | breaks {last : CommandResult} {a rest} (fault) :
    Tried last (a :: rest) [⟨a.call, .error fault⟩] (.error fault)
  | goesOn {last r : CommandResult} {a rest} {es : List Exchange} {answer} : r.success = false →
    Tried r rest es answer → Tried last (a :: rest) (⟨a.call, .ok r⟩ :: es) answer

theorem tried_firstSuccessAfter (p : Performer) (outside : Outside) (last : CommandResult)
    (attempts : List Attempt) (m : Machine) :
    ∃ es, Tried last attempts es ((p.firstSuccessAfter last attempts).run outside m).1 ∧
      Dialogue p.gateway outside m es ((p.firstSuccessAfter last attempts).run outside m).2 := by
  -- Along the attempts, from whatever machine and result the failures so far have left.
  induction attempts generalizing last m with
  | nil => exact ⟨[], .exhausted last, .silent m⟩
  | cons a rest ih =>
    have hcommand : p.command a.args a.timeout = p.gateway.give a.call := rfl
    unfold firstSuccessAfter
    rw [hcommand, Task.run_bind]
    rcases hgive : (p.gateway.give a.call).run outside m with ⟨fault | r, m₁⟩
    · exact ⟨_, .breaks fault, .said hgive (.silent _)⟩
    dsimp only
    cases hr : r.success with
    | true => exact ⟨_, .succeeds hr, .said hgive (.silent _)⟩
    | false =>
      obtain ⟨es, htried, hsaid⟩ := ih r m₁
      exact ⟨_, .goesOn hr htried, .said hgive hsaid⟩

namespace Tried

theorem order (h : Tried last attempts es answer) :
    es.map (·.call) <+: attempts.map Attempt.call := by
  induction h with
  | exhausted => simp
  | succeeds => simp
  | breaks => simp
  | goesOn _ _ ih => simpa using ih

/-- All attempts but the last that was made have failed. -/
theorem shortest (h : Tried last attempts es answer) : ∀ e ∈ es.dropLast, e.Failed := by
  induction h with
  | exhausted => simp
  | succeeds => simp
  | breaks => simp
  | @goesOn last r a rest es answer hr _ ih =>
    cases es with
    | nil => simp
    | cons e es => simpa [Exchange.Failed, hr] using ih

/-- The result is the answer to the last attempt that was made. -/
theorem answer_eq (h : Tried last attempts es answer) :
    answer = (es.getLast?.map (·.answer)).getD (.ok last) := by
  induction h with
  | exhausted => rfl
  | succeeds => rfl
  | breaks => rfl
  | @goesOn last r a rest es answer _ _ ih =>
    rw [ih, List.getLast?_cons]
    cases es.getLast? <;> rfl

theorem error_iff (h : Tried last attempts es answer) (fault : Fault) :
    answer = .error fault ↔ ∃ e ∈ es, e.answer = .error fault := by
  induction h with
  | exhausted => simp
  | succeeds => simp
  | breaks => simp
  | goesOn _ _ ih => simp [ih]

theorem success_iff (h : Tried last attempts es (.ok r)) (hlast : last.success = false) :
    r.success = true ↔ ∃ e ∈ es, e.Succeeded := by
  generalize hanswer : Except.ok r = answer at h
  induction h with
  | exhausted last =>
    obtain rfl := Except.ok.inj hanswer
    simp [hlast]
  | succeeds hr =>
    obtain rfl := Except.ok.inj hanswer
    simp [Exchange.Succeeded, hr]
  | breaks => simp at hanswer
  | goesOn hr _ ih => simp [ih hr hanswer, Exchange.Succeeded, hr]

theorem complete (h : Tried last attempts es (.ok r)) :
    es.map (·.call) = attempts.map Attempt.call ∨ ∃ e ∈ es, e.Succeeded := by
  generalize hanswer : Except.ok r = answer at h
  induction h with
  | exhausted => exact .inl rfl
  | succeeds hr => exact .inr ⟨_, List.mem_singleton.mpr rfl, _, rfl, hr⟩
  | breaks => simp at hanswer
  | goesOn _ _ ih =>
    rcases ih hanswer with hall | ⟨e, he, hsucceeded⟩
    · exact .inl (by simp [hall])
    · exact .inr ⟨e, List.mem_cons_of_mem _ he, hsucceeded⟩

end Tried

/-- The attempts that were made, when the browser did not break off, and the result. -/
structure Chain (attempts : List Attempt) (es : List Exchange) (r : CommandResult) : Prop where
  /-- The attempts are made in order, each with its own arguments and time limit. -/
  order : es.map (·.call) <+: attempts.map Attempt.call
  /-- Another attempt is made only if all before it failed. -/
  shortest : ∀ e ∈ es.dropLast, e.Failed
  /-- Attempts are left out only after one that succeeded. -/
  complete : es.map (·.call) = attempts.map Attempt.call ∨ ∃ e ∈ es, e.Succeeded
  /-- The result is that of the last attempt that was made. -/
  result : (es.getLast?.map (·.answer)).getD (.ok nothingTried) = .ok r
  success : r.success = true ↔ ∃ e ∈ es, e.Succeeded

theorem Tried.chain (h : Tried nothingTried attempts es (.ok r)) : Chain attempts es r where
  order := h.order
  shortest := h.shortest
  complete := h.complete
  result := h.answer_eq.symm
  success := h.success_iff rfl

/-- Attempts that came to a result are a chain. -/
theorem chain_of_ok (h : (p.firstSuccess attempts).run outside m = (.ok r, m')) :
    ∃ es, Dialogue p.gateway outside m es m' ∧ Chain attempts es r := by
  obtain ⟨es, htried, hsaid⟩ := tried_firstSuccessAfter p outside nothingTried attempts m
  have hrun : (p.firstSuccessAfter nothingTried attempts).run outside m = (.ok r, m') := h
  rw [hrun] at htried hsaid
  exact ⟨es, hsaid, htried.chain⟩

/-- A browser that answers all attempts: they are a chain. -/
theorem chain_firstSuccess (hanswers : ∀ a ∈ attempts, p.gateway.Answers outside a.call)
    (m : Machine) :
    ∃ es r last, (p.firstSuccess attempts).run outside m = (.ok r, last) ∧
      Dialogue p.gateway outside m es last ∧ Chain attempts es r := by
  obtain ⟨es, htried, hsaid⟩ := tried_firstSuccessAfter p outside nothingTried attempts m
  have hanswered : ∀ e ∈ es, ∃ r, e.answer = .ok r := by
    refine hsaid.answered fun e he => ?_
    obtain ⟨a, ha, hcall⟩ := List.mem_map.mp (htried.order.mem (List.mem_map_of_mem he))
    rw [← hcall]
    exact hanswers a ha
  have hrun : (p.firstSuccess attempts).run outside m =
      (p.firstSuccessAfter nothingTried attempts).run outside m := rfl
  rcases hresult : (p.firstSuccessAfter nothingTried attempts).run outside m with ⟨fault | r, last⟩
  · rw [hresult] at htried
    obtain ⟨e, he, hfault⟩ := (htried.error_iff fault).mp rfl
    obtain ⟨r, hr⟩ := hanswered e he
    simp [hr] at hfault
  · rw [hresult] at htried hsaid
    exact ⟨es, r, last, hrun.trans hresult, hsaid, htried.chain⟩

/-! ## Steps made of attempts -/

theorem outcomeOf_eq_passed_iff {start : Text} :
    outcomeOf r start = .passed ↔ r.success = true := by
  cases hr : r.success <;> simp [outcomeOf, hr]

theorem outcomeOf_of_failed {start : Text} (hr : r.success = false) :
    outcomeOf r start = .failed (start ++ ": " ++ errorText r.error) := by
  simp [outcomeOf, hr]

/-- The task makes the attempts and passes if one of them succeeds. -/
def Makes (p : Performer) (outside : Outside) (t : Task Outcome) (attempts : List Attempt) : Prop :=
  ∀ m, ∃ es r outcome last, t.run outside m = (.ok outcome, last) ∧
    Dialogue p.gateway outside m es last ∧ Chain attempts es r ∧
    (outcome = .passed ↔ ∃ e ∈ es, e.Succeeded)

theorem makes_firstSuccess (start : Text)
    (hanswers : ∀ a ∈ attempts, p.gateway.Answers outside a.call) :
    p.Makes outside (do
      let result ← p.firstSuccess attempts
      pure (outcomeOf result start)) attempts := by
  intro m
  obtain ⟨es, r, last, hrun, hsaid, hchain⟩ := chain_firstSuccess hanswers m
  refine ⟨es, r, outcomeOf r start, last, Task.run_bind_ok hrun _, hsaid, hchain, ?_⟩
  rw [outcomeOf_eq_passed_iff, hchain.success]

/-- The ways to fill the first field of the account. -/
def studentIdAttempts (p : Performer) : List Attempt :=
  p.fillAttempts p.credentials.studentIdField p.credentials.studentId

/-- The ways to fill the second field of the account. -/
def passwordAttempts (p : Performer) : List Attempt :=
  p.fillAttempts p.credentials.passwordField p.credentials.password

/-- The command that presses the button of the account. -/
def submitCall (p : Performer) : BrowserCall :=
  { args := Attempt.press p.credentials.submitButton, silent := true
    timeout := some p.timeouts.action }

/-- Both fields of the account are filled, whatever comes of the first, with a pause in between. The
step passes if both were filled, and otherwise it names the first that was not. -/
def FillsBoth (p : Performer) (outside : Outside) (m : Machine) : Prop :=
  ∃ es fs first second outcome last,
    p.fillCredentials.run outside m = (.ok outcome, last) ∧
    Course p.gateway outside m (es.map .gives ++ .rests p.fillSettle :: fs.map .gives) last ∧
    Chain p.studentIdAttempts es first ∧ Chain p.passwordAttempts fs second ∧
    (outcome = .passed ↔ first.success = true ∧ second.success = true) ∧
    (first.success = false → outcome =
      .failed (couldNotFill p.credentials.studentIdField ++ ": " ++ errorText first.error)) ∧
    (first.success = true → second.success = false → outcome =
      .failed (couldNotFill p.credentials.passwordField ++ ": " ++ errorText second.error))

/-- Both fields are filled, with a pause after each, and then the button is pressed, whatever came
of the fields. The step passes if the button was pressed. -/
def LogsIn (p : Performer) (outside : Outside) (m : Machine) : Prop :=
  ∃ es fs first second r outcome last,
    p.login.run outside m = (.ok outcome, last) ∧
    Course p.gateway outside m
      (es.map .gives ++ .rests p.fillSettle :: (fs.map .gives ++
        [.rests p.fillSettle, .gives ⟨p.submitCall, .ok r⟩])) last ∧
    Chain p.studentIdAttempts es first ∧ Chain p.passwordAttempts fs second ∧
    (outcome = .passed ↔ r.success = true)

/-- Both fields are tried, with a pause in between, before the step goes on with the results. -/
def triesFields (p : Performer) (next : CommandResult → CommandResult → Task Outcome) :
    Task Outcome := do
  let first ← p.fillField p.credentials.studentIdField p.credentials.studentId
  Task.pause p.fillSettle
  let second ← p.fillField p.credentials.passwordField p.credentials.password
  next first second

theorem fillCredentials_eq : p.fillCredentials = p.triesFields fun first second =>
    pure (if first.success then outcomeOf second (couldNotFill p.credentials.passwordField)
      else outcomeOf first (couldNotFill p.credentials.studentIdField)) := rfl

theorem login_eq : p.login = p.triesFields fun _ _ => (do
    Task.pause p.fillSettle
    let result ← p.gateway.give p.submitCall
    pure (outcomeOf result ("Could not click " ++ Text.quoted p.credentials.submitButton))) := rfl

/-- Logging in that comes to an outcome: all that belongs to it has happened. -/
theorem logsIn_of_ok {outcome : Outcome} (h : p.login.run outside m = (.ok outcome, m')) :
    p.LogsIn outside m := by
  have hrun := h
  rw [login_eq] at h
  unfold triesFields at h
  obtain ⟨first, m₁, hfirst, h⟩ := Task.run_bind_eq_ok h
  obtain ⟨_, m₂, hrests, h⟩ := Task.run_bind_eq_ok h
  obtain ⟨second, m₃, hsecond, h⟩ := Task.run_bind_eq_ok h
  obtain ⟨_, m₄, hrests', h⟩ := Task.run_bind_eq_ok h
  obtain ⟨r, m₅, hpress, h⟩ := Task.run_bind_eq_ok h
  obtain ⟨houtcome, rfl⟩ := Prod.mk.inj h
  obtain ⟨es, hsaid, hchain⟩ := chain_of_ok hfirst
  obtain ⟨fs, hsaid', hchain'⟩ := chain_of_ok hsecond
  rw [Task.pause_eq_ok hrests] at hsaid'
  rw [Task.pause_eq_ok hrests'] at hpress
  refine ⟨es, fs, first, second, r, outcome, m₅, hrun, ?_, hchain, hchain', ?_⟩
  · exact hsaid.course (.rests (hsaid'.course (.rests (.gives hpress (.ends m₅)))))
  · rw [← Except.ok.inj houtcome]
    exact outcomeOf_eq_passed_iff

section

variable (hsettle : p.fillSettle.natAbs < longestDuration)
  (hanswers : ∀ a ∈ p.studentIdAttempts ++ p.passwordAttempts, p.gateway.Answers outside a.call)
include hsettle hanswers

theorem run_triesFields (m : Machine) :
    ∃ es fs first second m₁, Chain p.studentIdAttempts es first ∧
      Chain p.passwordAttempts fs second ∧
      (∀ next, (p.triesFields next).run outside m = (next first second).run outside m₁) ∧
      ∀ {rest last}, Course p.gateway outside m₁ rest last →
        Course p.gateway outside m
          (es.map .gives ++ .rests p.fillSettle :: (fs.map .gives ++ rest)) last := by
  rw [List.forall_mem_append] at hanswers
  obtain ⟨es, first, m₁, hfirst, hsaid, hchain⟩ := chain_firstSuccess hanswers.1 m
  obtain ⟨fs, second, m₂, hsecond, hsaid', hchain'⟩ :=
    chain_firstSuccess hanswers.2 { m₁ with elapsed := m₁.elapsed + p.fillSettle.toNat }
  refine ⟨es, fs, first, second, m₂, hchain, hchain', fun next => ?_,
    fun hrest => hsaid.course (.rests (hsaid'.course hrest))⟩
  unfold triesFields
  exact (Task.run_bind_ok hfirst _).trans
    ((Task.run_bind_ok (Task.pause_of_lt hsettle _) _).trans (Task.run_bind_ok hsecond _))

theorem fillsBoth_fillCredentials (m : Machine) : p.FillsBoth outside m := by
  obtain ⟨es, fs, first, second, last, hchain, hchain', hnext, hcourse⟩ :=
    run_triesFields hsettle hanswers m
  have hends := hcourse (.ends last)
  rw [List.append_nil] at hends
  have hrun := fillCredentials_eq ▸ hnext _
  refine ⟨es, fs, first, second, _, last, hrun, hends, hchain, hchain', ?_, ?_, ?_⟩
  · cases hsuccess : first.success <;> simp [outcomeOf_eq_passed_iff, hsuccess]
  · intro hfailed
    simp [hfailed, outcomeOf_of_failed]
  · intro hpassed hfailed
    simp [hpassed, outcomeOf_of_failed hfailed]

theorem logsIn_login (hsubmit : p.gateway.Answers outside p.submitCall) (m : Machine) :
    p.LogsIn outside m := by
  obtain ⟨es, fs, first, second, m₁, hchain, hchain', hnext, hcourse⟩ :=
    run_triesFields hsettle hanswers m
  rcases hpress : (p.gateway.give p.submitCall).run outside
    { m₁ with elapsed := m₁.elapsed + p.fillSettle.toNat } with ⟨answer, last⟩
  obtain ⟨r, hr⟩ := hsubmit { m₁ with elapsed := m₁.elapsed + p.fillSettle.toNat }
  rw [hpress] at hr
  obtain rfl : answer = .ok r := hr
  have hrun : p.login.run outside m =
      (.ok (outcomeOf r ("Could not click " ++ Text.quoted p.credentials.submitButton)), last) := by
    rw [login_eq, hnext]
    exact (Task.run_bind_ok (Task.pause_of_lt hsettle m₁) _).trans (Task.run_bind_ok hpress _)
  exact ⟨es, fs, first, second, r, _, last, hrun,
    hcourse (.rests (.gives hpress (.ends last))), hchain, hchain', outcomeOf_eq_passed_iff⟩

end

/-- With a browser that answers the commands of a step: attempts are made in order, up to the first
that succeeds, and the result is that of the last. A click passes if one of its attempts succeeds,
and so does filling a field. If the pause between the fields is not too long, filling both fields of
the account passes if both are filled, and logging in if the button is pressed. -/
theorem attempts_in_order (p : Performer) (outside : Outside) :
    (∀ attempts, (∀ a ∈ attempts, p.gateway.Answers outside a.call) →
      ∀ m, ∃ es r last, (p.firstSuccess attempts).run outside m = (.ok r, last) ∧
        Dialogue p.gateway outside m es last ∧ Chain attempts es r) ∧
    (∀ step, (∀ a ∈ p.clickAttempts (Step.clickTarget step), p.gateway.Answers outside a.call) →
      p.Makes outside (p.click step) (p.clickAttempts (Step.clickTarget step))) ∧
    (∀ step data,
      (∀ a ∈ p.fillAttempts (Step.input step data).field (Step.input step data).value,
        p.gateway.Answers outside a.call) →
      p.Makes outside (p.fill step data)
        (p.fillAttempts (Step.input step data).field (Step.input step data).value)) ∧
    (p.fillSettle.natAbs < longestDuration →
      (∀ a ∈ p.studentIdAttempts ++ p.passwordAttempts, p.gateway.Answers outside a.call) →
      ∀ m, p.FillsBoth outside m ∧ (p.gateway.Answers outside p.submitCall → p.LogsIn outside m)) :=
  ⟨fun _ hanswers m => chain_firstSuccess hanswers m,
    fun _ hanswers => makes_firstSuccess _ hanswers,
    fun _ _ hanswers => makes_firstSuccess _ hanswers,
    fun hsettle hanswers m => ⟨fillsBoth_fillCredentials hsettle hanswers m,
      fun hsubmit => logsIn_login hsettle hanswers hsubmit m⟩⟩

/-- A browser that finds every button and no field. -/
def fieldless : Outside :=
  { Playbook.outside [] [] 0 with
    browse := fun _ call =>
      { answer := .result { success := !call.args.contains "fill", error := some "no field" }
        effect := fun _ s => s } }

/-- Neither field is filled: that fails a step that fills both fields, but not one that logs in. -/
theorem attempts_in_order_fieldless :
    usual.fillSettle.natAbs < longestDuration ∧
      usual.FillsBoth fieldless (Machine.bare []) ∧ usual.LogsIn fieldless (Machine.bare []) ∧
      (usual.fillCredentials.run fieldless (Machine.bare [])).1.toOption =
        some (.failed "Could not fill '学号': no field") ∧
      (usual.login.run fieldless (Machine.bare [])).1.toOption = some .passed := by
  have hsettle : usual.fillSettle.natAbs < longestDuration := by decide +kernel
  obtain ⟨-, -, -, haccount⟩ := attempts_in_order usual fieldless
  obtain ⟨hfills, hlogs⟩ := haccount hsettle (fun _ _ _ => ⟨_, rfl⟩) (Machine.bare [])
  exact ⟨hsettle, hfills, hlogs fun _ => ⟨_, rfl⟩, by decide +kernel, by decide +kernel⟩

/-- A pause that is too long stops the step after the first field. -/
theorem run_triesFields_of_le (hsettle : longestDuration ≤ p.fillSettle.natAbs)
    (hfill : (p.fillField p.credentials.studentIdField p.credentials.studentId).run outside m =
      (.ok r, m₁)) (next : CommandResult → CommandResult → Task Outcome) :
    (p.triesFields next).run outside m = (.error (.excess .duration), m₁) := by
  unfold triesFields
  exact (Task.run_bind_ok hfill _).trans (Task.run_bind_error (Task.pause_of_le hsettle m₁) _)

/-- The browser does whatever it is told, but the pause after the first field is too long: neither
the second field is filled nor the button pressed. -/
theorem not_logged_in_endless :
    let p := { usual with fillSettle := 10 ^ 400 }
    let outside := telling fun _ => []
    (∀ call, p.gateway.Answers outside call) ∧
      ¬ p.FillsBoth outside (Machine.bare []) ∧ ¬ p.LogsIn outside (Machine.bare []) := by
  intro p outside
  have hsettle : longestDuration ≤ p.fillSettle.natAbs := by decide +kernel
  obtain ⟨r, hr⟩ : ∃ r, ((p.fillField p.credentials.studentIdField
      p.credentials.studentId).run outside (Machine.bare [])).1 = .ok r := ⟨_, rfl⟩
  have hstops := run_triesFields_of_le hsettle (Prod.ext hr rfl)
  refine ⟨fun _ _ => ⟨_, rfl⟩, ?_, ?_⟩
  · rintro ⟨_, _, _, _, _, _, hrun, -⟩
    simp [fillCredentials_eq, hstops] at hrun
  · rintro ⟨_, _, _, _, _, _, _, hrun, -⟩
    simp [login_eq, hstops] at hrun

end Performer

end Acceptance
