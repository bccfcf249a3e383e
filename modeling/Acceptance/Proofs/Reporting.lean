import Acceptance.Proofs.Install
import Acceptance.Proofs.ReportTexts

/-! # Reporting

A test never stops with a fault: what goes wrong on the way stands in its report. All of the report
can be encoded, and the test keeps what other programs keep. -/

namespace Acceptance

variable {outside : Outside} {I : Machine → Prop}

/-! ## What a test keeps -/

/-- What holds of the machine throughout a test: it is about the setting, the files and what was
printed, and other programs do not touch it. -/
structure Machine.Steady (outside : Outside) (I : Machine → Prop) : Prop where
  of_same : ∀ {m m' : Machine}, m'.setting = m.setting → m'.files = m.files →
    m'.printed = m.printed → I m → I m'
  after : ∀ {effect : Place → Surroundings → Surroundings}, Does outside effect →
    ∀ (m : Machine) (call : Call), I m → I (m.after call effect)

/-- The system has words for what it refuses. -/
def Outside.TellsErrors (outside : Outside) : Prop :=
  ∀ history l error, (outside.launch history l).answer = .error (.refused error) →
    Text.Encodes error.description

namespace Task

variable {α : Type} {P : α → Prop}

theorem Meets.of_succeeds {t : Task α} (h : t.Meets outside I P E) (hok : t.Succeeds outside) :
    t.Meets outside I P fun _ => False := by
  intro m hm
  obtain ⟨a, ha⟩ := hok m
  have hboth := h m hm
  rw [ha] at hboth ⊢
  exact hboth

theorem meets_checkDuration (milliseconds : Int) :
    (checkDuration milliseconds).Meets outside I (fun _ => True) Fault.Encodes := by
  unfold checkDuration
  split
  · exact meets_fail (Text.encodes_of _)
  · exact meets_pure trivial

end Task

namespace Run

theorem meets_steps {perform : Text → Task Outcome} {list : List Text}
    (hlist : ∀ step ∈ list, Text.Encodes step)
    (hperform : ∀ step ∈ list, (perform step).Meets outside I Outcome.Encodes Fault.Encodes)
    (number : Nat) :
    (steps perform number list).Meets outside I Progress.Encodes fun _ => False := by
  induction list generalizing number with
  | nil => exact Task.meets_pure ⟨by simp, by simp⟩
  | cons step rest ih =>
    obtain ⟨hstep, hrest⟩ := List.forall_mem_cons.mp hlist
    obtain ⟨hfirst, hothers⟩ := List.forall_mem_cons.mp hperform
    refine Task.meets_bind (Task.meets_attempt hfirst) fun result hresult => ?_
    have houtcome : (outcomeOf result).Encodes := by
      cases result with
      | ok outcome => exact hresult
      | error fault =>
        intro t ht
        obtain rfl := Option.some.inj ht
        exact hresult
    have hreport : StepReport.Encodes { step, outcome := outcomeOf result } := ⟨hstep, houtcome⟩
    dsimp only
    split
    next error herror =>
      have hmessage : Text.Encodes error := houtcome error (by rw [herror]; rfl)
      exact Task.meets_pure ⟨by simpa using hreport, by simp [stepError, hmessage]⟩
    next =>
      refine Task.meets_bind (ih hrest hothers _) fun later hlater => ?_
      exact Task.meets_pure ⟨List.forall_mem_cons.mpr ⟨hreport, hlater.reports⟩, hlater.error⟩

end Run

section

variable (hI : Machine.Steady outside I) (hout : outside.TellsErrors)

/-! ## Time and programs -/

include hI

namespace Task

variable {E : Fault → Prop}

theorem meets_passTime (milliseconds : Nat) :
    (passTime milliseconds).Meets outside I (fun _ => True) E :=
  meets_change fun m hm => hI.of_same (m := m) rfl rfl rfl hm

theorem meets_pause (milliseconds : Int) :
    (pause milliseconds).Meets outside I (fun _ => True) Fault.Encodes :=
  meets_bind (meets_checkDuration _) fun _ _ => meets_passTime hI _

theorem meets_startClock : startClock.Meets outside I (fun _ => True) E :=
  meets_change fun m hm => hI.of_same (m := m) rfl rfl rfl hm

theorem meets_echo (t : Text) : (echo t).Meets outside I (fun _ => True) E :=
  meets_change fun m hm => hI.of_same (m := m) rfl rfl rfl hm

end Task

theorem Session.meets_enter (state : SessionState) {E : Fault → Prop} : (enter state).Meets outside I (fun _ => True) E :=
  Task.meets_change fun m hm => hI.of_same (m := m) rfl rfl rfl hm

theorem Task.meets_launch (l : Launch) {E : Fault → Prop} :
    (launch l).Meets outside I
      (fun answer => ∃ history, answer = (outside.launch history l).answer) E :=
  fun m hm => ⟨⟨m.calls, rfl⟩, hI.after (.launch m.calls l) m _ hm⟩

namespace ChildProcess

variable {argv : List Text}

theorem meets_watch (hargv : ∀ arg ∈ argv, Text.Encodes arg) (silent : Bool) (timeout : Int)
    (child : Child) :
    (watch argv silent timeout child).Meets outside I CommandResult.Encodes Fault.Encodes := by
  have hresult : ∀ errors, Text.Encodes errors → CommandResult.Encodes
      (if endsWithin child timeout then ended argv child (Utf8.decodeLossy child.output) errors
        else timedOut argv timeout child (Utf8.decodeLossy child.output)) := by
    intro errors herrors
    split
    · exact encodes_ended hargv child (Utf8.encodes_decodeLossy _) herrors
    · exact encodes_timedOut hargv timeout child (Utf8.encodes_decodeLossy _)
  have herrors : Text.Encodes (if silent then Utf8.decodeLossy child.errors else []) := by
    split <;> simp
  refine Task.meets_bind (Task.meets_checkDuration _) fun _ _ => ?_
  refine Task.meets_bind (Task.meets_passTime hI _) fun _ _ => ?_
  dsimp only
  split
  · refine Task.meets_bind (Task.meets_passTime hI _) fun _ _ => ?_
    split
    · exact Task.meets_bind (Task.meets_echo hI _) fun _ _ => Task.meets_pure (hresult _ herrors)
    · exact Task.meets_pure (hresult _ herrors)
  · split
    · exact Task.meets_bind (Task.meets_echo hI _) fun _ _ => Task.meets_pure (hresult _ herrors)
    · exact Task.meets_pure (hresult _ herrors)

include hout

theorem meets_run (hargv : ∀ arg ∈ argv, Text.Encodes arg) (silent : Bool) (timeout : Int)
    (environment : Environment) :
    (run argv silent timeout environment).Meets outside I CommandResult.Encodes Fault.Encodes := by
  cases argv with
  | nil => exact Task.meets_fail (Text.encodes_of _)
  | cons tool args =>
    have htool := (List.forall_mem_cons.mp hargv).1
    unfold run
    dsimp only
    split
    · exact Task.meets_fail (Text.encodes_of _)
    refine Task.meets_bind (P := fun _ => True) (Task.meets_read fun _ _ => trivial) fun _ _ => ?_
    refine Task.meets_bind (Task.meets_launch hI _) fun answer hanswer => ?_
    split
    · exact Task.meets_pure ⟨Text.encodes_nil, by simp [htool]⟩
    next error =>
      obtain ⟨history, hrefused⟩ := hanswer
      have hdescription := hout history _ error hrefused.symm
      exact Task.meets_pure ⟨Text.encodes_nil, by simp [htool, SystemError.message, hdescription]⟩
    · exact meets_watch hI hargv silent timeout _

end ChildProcess

include hout

theorem Gateway.meets_run {g : Gateway} (hg : g.Encodes) {args : List Text}
    (hargs : ∀ arg ∈ args, Text.Encodes arg) (silent : Bool) (timeout : Option Int) :
    (g.run args silent timeout).Meets outside I CommandResult.Encodes Fault.Encodes := by
  cases g with
  | direct binary => exact hg.elim
  | program binary limit environment =>
    exact ChildProcess.meets_run hI hout (List.forall_mem_cons.mpr ⟨hg, hargs⟩) _ _ _

/-! ## Installing -/

namespace Install

theorem meets_runAll {list : List (List Text)}
    (hlist : ∀ argv ∈ list, argv ≠ [] ∧ (∀ arg ∈ argv, Text.Encodes arg) ∧ Task.hasZero argv = false) :
    (runAll list).Meets outside I (fun _ => True) fun _ => False := by
  induction list with
  | nil => exact Task.meets_pure trivial
  | cons argv rest ih =>
    obtain ⟨⟨hne, hencodes, hzero⟩, hrest⟩ := List.forall_mem_cons.mp hlist
    have hrun := (ChildProcess.meets_run hI hout hencodes true timeout []).of_succeeds
      (ChildProcess.succeeds_run outside hne hzero timeout_lt true [])
    refine Task.meets_bind hrun fun result _ => ?_
    split
    · exact ih hrest
    · exact Task.meets_pure trivial

/-- Installing gives no fault if no zero character is in the name of the program. -/
theorem meets_ensure {g : Gateway} (hg : Text.Encodes g.binary)
    (hzero : ∀ c ∈ g.binary, c.val ≠ 0) :
    (ensure g).Meets outside I (fun _ => True) fun _ => False := by
  have hcommands : ∀ argv ∈ commands g.binary, argv ≠ [] ∧ (∀ arg ∈ argv, Text.Encodes arg) ∧
      Task.hasZero argv = false := by
    have hbinary : g.binary.any (fun c => decide (c.val = 0)) = false := by simpa using hzero
    have hnpm : Task.hasZero ["npm", "install", "-g", "agent-browser"] = false := by decide
    have hinstall : Task.hasZero [g.binary, "install"] = false := by
      unfold Task.hasZero
      rw [List.any_cons, hbinary]
      rfl
    simp only [commands, List.forall_mem_cons]
    exact ⟨⟨by simp, by simp, hnpm⟩, ⟨by simp, by simp [hg], hinstall⟩, by simp⟩
  have hasks : ∀ name, (Task.isInstalled name).Meets outside I (fun _ => True) fun _ => False :=
    fun _ => Task.meets_read fun _ _ => trivial
  refine Task.meets_bind (hasks _) fun isThere _ => ?_
  split
  · exact Task.meets_pure trivial
  refine Task.meets_bind (meets_runAll hI hout hcommands) fun succeeded _ => ?_
  split
  · exact hasks _
  · exact Task.meets_pure trivial

end Install

/-! ## Steps -/

namespace Performer

variable {p : Performer} (hp : p.Encodes)
include hp

theorem meets_command {args : List Text} (hargs : ∀ arg ∈ args, Text.Encodes arg) (timeout : Int) :
    (p.command args timeout).Meets outside I CommandResult.Encodes Fault.Encodes :=
  Gateway.meets_run hI hout hp.gateway hargs _ _

theorem meets_firstSuccess {attempts : List Attempt}
    (hattempts : ∀ attempt ∈ attempts, ∀ arg ∈ attempt.args, Text.Encodes arg) :
    (p.firstSuccess attempts).Meets outside I CommandResult.Encodes Fault.Encodes := by
  have hall : ∀ last : CommandResult, last.Encodes →
      (p.firstSuccessAfter last attempts).Meets outside I CommandResult.Encodes Fault.Encodes := by
    induction attempts with
    | nil => exact fun last hlast => Task.meets_pure hlast
    | cons attempt rest ih =>
      obtain ⟨hattempt, hrest⟩ := List.forall_mem_cons.mp hattempts
      intro last _
      refine Task.meets_bind (meets_command hI hout hp hattempt _) fun result hresult => ?_
      split
      · exact Task.meets_pure hresult
      · exact ih hrest result hresult
  exact hall _ ⟨Text.encodes_nil, by simp [nothingTried]⟩

theorem meets_navigate {step : Text} (hstep : Text.Encodes step) :
    (p.navigate step).Meets outside I Outcome.Encodes Fault.Encodes := by
  have hurl := encodes_resolveUrl hp (Step.encodes_navigateTarget hstep hp.routes)
  refine Task.meets_bind (meets_command hI hout hp (by simp [hurl]) _) fun result hresult => ?_
  exact Task.meets_pure (encodes_outcomeOf hresult (by simp [hurl]))

theorem meets_click {step : Text} (hstep : Text.Encodes step) :
    (p.click step).Meets outside I Outcome.Encodes Fault.Encodes := by
  have htarget := Step.encodes_clickTarget hstep
  have hattempts : ∀ attempt ∈ p.clickAttempts (Step.clickTarget step),
      ∀ arg ∈ attempt.args, Text.Encodes arg := by
    simp [clickAttempts, Attempt.clicks, Attempt.press, htarget]
  refine Task.meets_bind (meets_firstSuccess hI hout hp hattempts) fun result hresult => ?_
  exact Task.meets_pure (encodes_outcomeOf hresult (by simp))

theorem meets_fillField {field value : Text} (hfield : Text.Encodes field)
    (hvalue : Text.Encodes value) :
    (p.fillField field value).Meets outside I CommandResult.Encodes Fault.Encodes := by
  have hselector := encodes_selectorText hfield
  refine meets_firstSuccess hI hout hp ?_
  simp [fillAttempts, Attempt.fills, Attempt.fieldSelector, hfield, hvalue, hselector]

theorem meets_fill {step : Text} (hstep : Text.Encodes step) {data : Option Input}
    (hdata : ∀ i ∈ data, i.Encodes) :
    (p.fill step data).Meets outside I Outcome.Encodes Fault.Encodes := by
  have hinput := Step.encodes_input hstep hdata
  refine Task.meets_bind (meets_fillField hI hout hp hinput.field hinput.value) fun _ hresult => ?_
  exact Task.meets_pure (encodes_outcomeOf hresult (by simp [couldNotFill]))

theorem meets_fillCredentials :
    p.fillCredentials.Meets outside I Outcome.Encodes Fault.Encodes := by
  have hc := hp.credentials
  refine Task.meets_bind (meets_fillField hI hout hp hc.studentIdField hc.studentId)
    fun first hfirst => ?_
  refine Task.meets_bind (Task.meets_pause hI _) fun _ _ => ?_
  refine Task.meets_bind (meets_fillField hI hout hp hc.passwordField hc.password)
    fun second hsecond => ?_
  refine Task.meets_pure ?_
  split
  · exact encodes_outcomeOf hsecond (by simp [couldNotFill])
  · exact encodes_outcomeOf hfirst (by simp [couldNotFill])

theorem meets_login : p.login.Meets outside I Outcome.Encodes Fault.Encodes := by
  have hc := hp.credentials
  refine Task.meets_bind (meets_fillField hI hout hp hc.studentIdField hc.studentId) fun _ _ => ?_
  refine Task.meets_bind (Task.meets_pause hI _) fun _ _ => ?_
  refine Task.meets_bind (meets_fillField hI hout hp hc.passwordField hc.password) fun _ _ => ?_
  refine Task.meets_bind (Task.meets_pause hI _) fun _ _ => ?_
  refine Task.meets_bind (meets_command hI hout hp (by simp [Attempt.press, hc.submitButton]) _)
    fun _ hresult => ?_
  exact Task.meets_pure (encodes_outcomeOf hresult (by simp))

theorem meets_readSnapshot :
    p.readSnapshot.Meets outside I CommandResult.Encodes Fault.Encodes :=
  meets_command hI hout hp (by simp) _

theorem meets_genericCheck : p.genericCheck.Meets outside I Outcome.Encodes Fault.Encodes :=
  Task.meets_bind (meets_readSnapshot hI hout hp) fun _ hresult =>
    Task.meets_pure (encodes_outcomeOf hresult (by simp))

theorem meets_snapshotShows (target : Text) :
    (p.snapshotShows target).Meets outside I (fun _ => True) Fault.Encodes := by
  refine Task.meets_bind (meets_readSnapshot hI hout hp) fun result _ => ?_
  split
  · refine Task.meets_bind (Task.meets_ofExcept (P := fun _ => True) ?_) fun _ _ =>
      Task.meets_pure trivial
    unfold Evidence.snapshotText
    split
    · trivial
    · split
      next cause _ => cases cause <;> simp [Task.Comes, Fault.Encodes, Fault.message, Nested.message,
        Json.tooDeep]
      next => trivial
  · exact Task.meets_pure trivial

theorem meets_pageShows (target : Text) :
    (p.pageShows target).Meets outside I (fun _ => True) Fault.Encodes :=
  Task.meets_bind (meets_command hI hout hp (by simp) _) fun _ _ => Task.meets_pure trivial

theorem meets_addressShows (target : Text) :
    (p.addressShows target).Meets outside I (fun _ => True) Fault.Encodes := by
  unfold addressShows
  split
  · exact Task.meets_pure trivial
  next route _ =>
    refine Task.meets_bind (meets_command hI hout hp (by simp) _) fun result hresult => ?_
    split
    · exact Task.meets_pure trivial
    split
    · exact Task.meets_pure trivial
    next problem hproblem =>
      have hpath : Url.path (Text.trim result.output) = .error problem := by
        unfold Evidence.isAtRoute at hproblem
        cases hpath : Url.path (Text.trim result.output) with
        | ok path =>
          rw [hpath] at hproblem
          exact absurd hproblem (by simp [bind, Except.bind])
        | error problem' =>
          rw [hpath] at hproblem
          exact congrArg Except.error (Except.error.inj hproblem)
      exact Task.meets_fail (Url.encodes_problem hresult.output.trim hpath)

theorem meets_verify {step : Text} :
    (p.verify step).Meets outside I Outcome.Encodes Fault.Encodes := by
  refine Task.meets_bind (Task.meets_pause hI _) fun _ _ => ?_
  dsimp only
  split
  · exact meets_genericCheck hI hout hp
  refine Task.meets_bind (meets_snapshotShows hI hout hp _) fun _ _ => ?_
  split
  · exact Task.meets_pure encodes_passed
  refine Task.meets_bind (meets_pageShows hI hout hp _) fun _ _ => ?_
  split
  · exact Task.meets_pure encodes_passed
  refine Task.meets_bind (meets_addressShows hI hout hp _) fun _ _ => ?_
  split
  · exact Task.meets_pure encodes_passed
  · exact Task.meets_pure (encodes_notFound _)

omit hout hp in
theorem meets_wait (step : Text) :
    (p.wait step).Meets outside I Outcome.Encodes Fault.Encodes := by
  unfold wait
  split
  · exact Task.meets_bind (Task.meets_pause hI _) fun _ _ => Task.meets_pure encodes_passed
  · exact Task.meets_fail (Value.encodes_tooManyDigitsToRead _)

theorem meets_perform {step : Text} (hstep : Text.Encodes step) {data : Option Input}
    (hdata : ∀ i ∈ data, i.Encodes) :
    (p.perform step data).Meets outside I Outcome.Encodes Fault.Encodes := by
  unfold perform
  split
  · exact meets_navigate hI hout hp hstep
  · exact meets_click hI hout hp hstep
  · split
    · exact meets_fillCredentials hI hout hp
    · exact meets_fill hI hout hp hstep hdata
  · exact meets_verify hI hout hp
  · exact meets_login hI hout hp
  · exact meets_wait hI step
  · exact Task.meets_pure encodes_passed

end Performer

/-! ## Sessions -/

theorem Session.meets_opened {α : Type} {P : α → Prop} {s : Session} (hs : s.gateway.Encodes)
    {url : Text} (hurl : Text.Encodes url) (headless : Bool) {body : Task α}
    (hbody : body.Meets outside I P Fault.Encodes) :
    (s.opened url headless body).Meets outside I P Fault.Encodes := by
  have hargs : ∀ arg ∈ openArgs url headless, Text.Encodes arg := by
    unfold openArgs
    split <;> simp [hurl]
  have htry : (s.tryOpen url headless).Meets outside I CommandResult.Encodes Fault.Encodes :=
    Gateway.meets_run hI hout hs hargs _ _
  have hclose : s.tryClose.Meets outside I CommandResult.Encodes Fault.Encodes :=
    Gateway.meets_run hI hout hs (by simp) _ _
  have hresult : (s.openResult url headless).Meets outside I CommandResult.Encodes
      Fault.Encodes := by
    refine Task.meets_bind htry fun first hfirst => ?_
    split
    · exact Task.meets_pure hfirst
    · exact Task.meets_bind hclose fun _ _ => htry
  have hopen : (s.open url headless).Meets outside I (fun _ => True) Fault.Encodes := by
    refine Task.meets_bind (meets_enter hI _) fun _ _ => ?_
    refine Task.meets_bind hresult fun result hresult => ?_
    split
    · refine Task.meets_bind (meets_enter hI _) fun _ _ => ?_
      exact Task.meets_bind (Task.meets_pause hI _) fun _ _ => Task.meets_pure trivial
    · refine Task.meets_bind (meets_enter hI _) fun _ _ => Task.meets_fail ?_
      have herror := hresult.error
      unfold Fault.Encodes Fault.message
      dsimp only
      split <;> simp_all [Fault.openFailedStart]
  have hclosed : s.close.Meets outside I (fun _ => True) Fault.Encodes :=
    Task.meets_bind (Task.meets_attempt hclose) fun _ _ => meets_enter hI _
  refine Task.meets_bind (Task.meets_attempt (Task.meets_bind hopen fun _ _ => hbody))
    fun result hresult => ?_
  exact Task.meets_bind hclosed fun _ _ => Task.meets_ofExcept hresult

/-! ## Features -/

namespace Run

variable {p : Performer} {f : Feature} {options : Options}

/-- The path of a failure's screenshot can be encoded, and making its directory keeps what holds. -/
def ShowsFailures (outside : Outside) (I : Machine → Prop) (f : Feature) (options : Options) : Prop :=
  (screenshotPath f options).Meets outside I (fun path => Text.Encodes path.toText ∧
    ∀ m, I m → I ((Task.ensureDirectory path.parent).run outside m).2) Fault.Encodes

theorem meets_captureFailure (hp : p.Encodes) (hshots : ShowsFailures outside I f options) :
    (captureFailure p f options).Meets outside I (fun shot => ∀ t ∈ shot, Text.Encodes t)
      Fault.Encodes := by
  refine Task.meets_bind hshots fun path hpath => ?_
  obtain ⟨hencodes, hensure⟩ := hpath
  have hdirectory : (Task.ensureDirectory path.parent).Meets outside I (fun _ => True)
      fun _ => True := by
    intro m hm
    refine ⟨?_, hensure m hm⟩
    cases ((Task.ensureDirectory path.parent).run outside m).1 <;> trivial
  have hshot : (screenshotInto p path).Meets outside I (fun _ => True) fun _ => True := by
    refine Task.meets_bind hdirectory fun _ _ => ?_
    refine Task.meets_bind ((Performer.meets_command hI hout hp ?_ _).mono
      (fun _ h => h) fun _ _ => trivial) fun _ _ => Task.meets_pure trivial
    simp [Performer.screenshotArgs, hencodes]
  refine Task.meets_bind (Task.meets_attempt hshot) fun result _ => ?_
  split
  · exact Task.meets_pure (by simpa using hencodes)
  · exact Task.meets_pure (by simp)

theorem meets_visit (hp : p.Encodes) (hf : f.Encodes) (hshots : ShowsFailures outside I f options) :
    (visit p f options).Meets outside I Visit.Encodes Fault.Encodes := by
  have hperform : ∀ step ∈ planned f,
      (performOf p f step).Meets outside I Outcome.Encodes Fault.Encodes := by
    intro step hstep
    unfold performOf
    split
    · exact Performer.meets_genericCheck hI hout hp
    · exact Performer.meets_perform hI hout hp (encodes_planned hf step hstep) hf.testData
  refine Task.meets_bind ((meets_steps (encodes_planned hf) hperform 1).mono
    (fun _ h => h) fun _ h => h.elim) fun progress hprogress => ?_
  split
  · exact Task.meets_pure ⟨hprogress, by simp [Task.Comes]⟩
  · refine Task.meets_bind (Task.meets_attempt (meets_captureFailure hI hout hp hshots))
      fun capture hcapture => ?_
    exact Task.meets_pure ⟨hprogress, hcapture⟩

variable (ho : options.Encodes) (hzero : ∀ c ∈ options.binary, c.val ≠ 0)
include ho hzero

/-- The test of a feature gives a report, and what it tells can be encoded. -/
theorem meets_feature (hf : f.Encodes) (hshots : ShowsFailures outside I f options) :
    (feature options.gateway f options).Meets outside I FeatureReport.Encodes fun _ => False := by
  refine Task.meets_bind (Install.meets_ensure hI hout ho.binary hzero) fun ready _ => ?_
  split
  · refine Task.meets_bind (Session.meets_enter hI _) fun _ _ => ?_
    have hvisit := meets_visit hI hout (encodes_performer ho) hf hshots
    refine Task.meets_bind (Task.meets_attempt
      (Session.meets_opened hI hout (encodes_performer ho).gateway ho.baseUrl
        options.headless hvisit)) fun result h => ?_
    cases result with
    | ok v => exact Task.meets_pure (encodes_visitReport hf h)
    | error fault => exact Task.meets_pure (encodes_closedReport hf h)
  · exact Task.meets_pure (encodes_missingReport hf)

/-- A batch gives a report of no more features than there are. -/
theorem meets_batch {all : List Feature}
    (hall : ∀ f ∈ all, f.Encodes ∧ ShowsFailures outside I f options) :
    (batch options.gateway all options).Meets outside I (fun report =>
      (∀ r ∈ report.results, r.Encodes) ∧ (∀ t ∈ report.error, Text.Encodes t) ∧
        report.total ≤ all.length ∧ report.passed ≤ all.length ∧ report.failed ≤ all.length)
      fun _ => False := by
  have hfeatures : ∀ list : List Feature, (∀ f ∈ list, f.Encodes ∧ ShowsFailures outside I f options) →
      (features options.gateway options list).Meets outside I
        (fun reports => (∀ r ∈ reports, r.Encodes) ∧ reports.length = list.length)
        fun _ => False := by
    intro list hlist
    induction list with
    | nil => exact Task.meets_pure ⟨by simp, rfl⟩
    | cons f rest ih =>
      obtain ⟨⟨hf, hshots⟩, hrest⟩ := List.forall_mem_cons.mp hlist
      refine Task.meets_bind (meets_feature hI hout ho hzero hf hshots) fun report hreport => ?_
      refine Task.meets_bind (ih hrest) fun others hothers => ?_
      exact Task.meets_pure ⟨List.forall_mem_cons.mpr ⟨hreport, hothers.1⟩, by simp [hothers.2]⟩
  refine Task.meets_bind (Install.meets_ensure hI hout ho.binary hzero) fun ready _ => ?_
  split
  · refine Task.meets_bind (hfeatures _ fun f hf => hall f (List.mem_of_mem_filter hf))
      fun results hresults => ?_
    have hlength : results.length ≤ all.length := by
      rw [hresults.2]
      exact List.length_filter_le _ _
    exact Task.meets_pure ⟨hresults.1, by simp [batchReport], hlength,
      List.countP_le_length.trans hlength, List.countP_le_length.trans hlength⟩
  · exact Task.meets_pure ⟨by simp, by simp [dependencyMissingError], le_refl _, Nat.zero_le _,
      le_refl _⟩

end Run

end

end Acceptance
