import Acceptance.Proofs.TestCommands

/-! # Causes of failures

The text of a report's error is made from what the browser says and from the steps, which may be any
text. The type that is read off it still tells why the test did not pass, because every text starts
with the words of its cause. -/

namespace Acceptance

/-- The type of error that an envelope names. -/
def Envelope.errorType? (e : Envelope) : Option ErrorType :=
  match e.answer with
  | .ok .. => none
  | .error type .. => some type

variable {outside : Outside} {m m' : Machine}

/-! ## The browser is missing -/

namespace Install

/-- The browser is missing, and the installation does not bring it. -/
def Fails (g : Gateway) (outside : Outside) (m : Machine) : Prop :=
  m.installed.contains g.binary = false ∧
    (((runAll (commands g.binary)).run outside m).1 = .ok false ∨
      ∃ m', (runAll (commands g.binary)).run outside m = (.ok true, m') ∧
        m'.installed.contains g.binary = false)

theorem ensure_eq_false {g : Gateway} :
    ((ensure g).run outside m).1 = .ok false ↔ Fails g outside m := by
  unfold Fails
  cases hinstalled : m.installed.contains g.binary with
  | true => simp [ensure_of_installed hinstalled]
  | false =>
    unfold ensure Gateway.isInstalled Task.isInstalled
    simp only [Task.run_read_bind, hinstalled, Bool.false_eq_true, if_false, true_and]
    rw [Task.run_bind]
    rcases (runAll (commands g.binary)).run outside m with ⟨fault | _ | _, m'⟩
    · simp
    · simp
    · simp [Task.run_read]

/-- If running commands comes to an end, the commands that were started are the first of the list,
in order. -/
theorem runAll_trace {list : List (List Text)} {succeeded : Bool}
    (h : (runAll list).run outside m = (.ok succeeded, m')) :
    ∃ ran trace, ran <+: list ∧ List.Forall₂ Machine.Launches ran trace ∧
      m'.calls = m.calls ++ trace := by
  induction list generalizing m with
  | nil =>
    obtain ⟨-, rfl⟩ := Prod.mk.inj h
    exact ⟨[], [], by simp, .nil, by simp⟩
  | cons argv rest ih =>
    unfold runAll at h
    obtain ⟨r, m₁, hrun, hrest⟩ := Task.run_bind_eq_ok h
    cases argv with
    | nil => simp [ChildProcess.run] at hrun
    | cons tool args =>
      cases hzero : Task.hasZero (tool :: args) with
      | true => simp [ChildProcess.run_of_hasZero hzero] at hrun
      | false =>
        obtain ⟨r', m₂, call, hrun', hcall, hcalls⟩ :=
          run_calls outside m (List.cons_ne_nil tool args) hzero
        obtain ⟨-, rfl⟩ := Prod.mk.inj (hrun.symm.trans hrun')
        split at hrest
        · obtain ⟨ran, trace, hprefix, htrace, hcalls'⟩ := ih hrest
          refine ⟨_ :: ran, call :: trace, by simpa using hprefix, .cons hcall htrace, ?_⟩
          rw [hcalls', hcalls, List.append_assoc]
          rfl
        · obtain ⟨-, rfl⟩ := Prod.mk.inj hrest
          exact ⟨[tool :: args], [call], by simp, .cons hcall .nil, hcalls⟩

theorem ensure_trace {g : Gateway} {ready : Bool}
    (h : (ensure g).run outside m = (.ok ready, m')) :
    ∃ ran trace, ran <+: commands g.binary ∧ List.Forall₂ Machine.Launches ran trace ∧
      m'.calls = m.calls ++ trace := by
  cases hinstalled : m.installed.contains g.binary with
  | true =>
    rw [ensure_of_installed hinstalled] at h
    obtain ⟨-, rfl⟩ := Prod.mk.inj h
    exact ⟨[], [], by simp, .nil, by simp⟩
  | false =>
    unfold ensure Gateway.isInstalled Task.isInstalled at h
    simp only [Task.run_read_bind, hinstalled, Bool.false_eq_true, if_false] at h
    obtain ⟨succeeded, m₁, hrun, hrest⟩ := Task.run_bind_eq_ok h
    have hm : m' = m₁ := by
      cases succeeded <;> exact (Prod.mk.inj hrest).2.symm
    exact hm ▸ runAll_trace hrun

end Install

namespace Run

variable {g : Gateway} {feature : Feature} {options : Options} {report : FeatureReport}
  {after : Machine}

/-! ## What the texts start with -/

theorem failureType?_missing : failureType? (some dependencyMissingError) = some .dependencyMissing :=
  by decide

theorem failureType?_openFailed (url : Text) (said : Option Text) :
    failureType? (some (Fault.openFailed url said).message) = some .openFailed := by
  have hletter : (Fault.openFailed url said).message.head? = Fault.openFailedStart.head? := rfl
  have hother : (Fault.openFailed url said).message ≠ dependencyMissingError := by
    intro heq
    rw [heq] at hletter
    exact absurd hletter (by decide)
  have hstart : Text.startsWith (Fault.openFailed url said).message Fault.openFailedStart = true :=
    List.isPrefixOf_iff_prefix.mpr ⟨_, (List.append_assoc ..).symm⟩
  unfold failureType?
  simp only
  rw [if_neg hother, if_pos hstart]

/-- An error that starts with another letter than the two known texts is that of a step. -/
theorem failureType?_stepFailed {error : Text} {letter : CodePoint}
    (hletter : error.head? = some letter) (hmissing : dependencyMissingError.head? ≠ some letter)
    (hopen : Fault.openFailedStart.head? ≠ some letter) :
    failureType? (some error) = some .stepFailed := by
  have hother : error ≠ dependencyMissingError := by
    rintro rfl
    exact hmissing hletter
  have hstart : ¬ Text.startsWith error Fault.openFailedStart = true := by
    intro h
    obtain ⟨rest, rfl⟩ := List.isPrefixOf_iff_prefix.mp h
    exact hopen hletter
  unfold failureType?
  simp only
  rw [if_neg hother, if_neg hstart]

theorem failureType?_stepError (number : Nat) (error : Text) :
    failureType? (some (stepError number error)) = some .stepFailed :=
  failureType?_stepFailed rfl (by decide) (by decide)

theorem failureType?_unexpected (fault : Fault) :
    failureType? (some (unexpected fault)) = some .stepFailed :=
  failureType?_stepFailed rfl (by decide) (by decide)

/-! ## How a test ends -/

/-- How the test of a feature ends: without a browser, without a session, or after a visit. -/
inductive Ending (g : Gateway) (feature : Feature) (options : Options) (outside : Outside)
    (m : Machine) : FeatureReport → Machine → Prop where
  | missing {after : Machine} : (Install.ensure g).run outside m = (.ok false, after) →
    Ending g feature options outside m (missingReport feature) after
  | unopened {ready unopened after : Machine} {fault} : (Install.ensure g).run outside m = (.ok true, ready) →
    ((options.session g).open options.baseUrl options.headless).run outside
      { ready with session := .closed } = (.error fault, unopened) →
    Ending g feature options outside m (closedReport feature fault) after
  | visited {ready opened left after : Machine} {r v} : (Install.ensure g).run outside m = (.ok true, ready) →
    ((options.session g).open options.baseUrl options.headless).run outside
      { ready with session := .closed } = (.ok r, opened) →
    (visit (options.performer g) feature options).run outside opened = (.ok v, left) →
    Ending g feature options outside m (visitReport feature v) after

theorem feature_ending (h : (Run.feature g feature options).run outside m = (.ok report, after)) :
    Ending g feature options outside m report after := by
  obtain ⟨ready, m₁, hensure, hrest⟩ := Task.run_bind_eq_ok h
  cases ready with
  | false =>
    obtain ⟨hreport, rfl⟩ := Prod.mk.inj hrest
    exact Except.ok.inj hreport ▸ .missing hensure
  | true =>
    rcases hopen : ((options.session g).open options.baseUrl options.headless).run outside
      { m₁ with session := .closed } with ⟨fault | r, m₂⟩
    · obtain ⟨hreport, -⟩ := Prod.mk.inj (hrest.symm.trans (visitFeature_of_fault hopen))
      exact Except.ok.inj hreport ▸ .unopened hensure hopen
    · obtain ⟨v, -, -, -, m₃, hvisit, -⟩ :=
        visit_talk (options.performer g) feature options outside m₂
      obtain ⟨hreport, -⟩ := Prod.mk.inj (hrest.symm.trans (visitFeature_of_visit hopen hvisit))
      exact Except.ok.inj hreport ▸ .visited hensure hopen hvisit

/-! ## What a visit reports -/

theorem gives_stepError (perform : Text → Task Outcome) (number : Nat) (list : List Text) :
    (steps perform number list).Gives outside fun p =>
      p.error = none ∨ ∃ k text, p.error = some (stepError k text) := by
  induction list generalizing number with
  | nil => exact Task.gives_pure (.inl rfl)
  | cons step rest ih =>
    refine Task.gives_bind (Task.gives_true _) fun result _ => ?_
    dsimp only
    split
    · exact Task.gives_pure (.inr ⟨_, _, rfl⟩)
    · exact Task.gives_bind (ih (number + 1)) fun later hlater => Task.gives_pure hlater

/-- A visit either passes, without an error, or its error is that of a step. -/
theorem visitReport_cause {p : Performer} {v : Visit} {left : Machine}
    (h : (visit p feature options).run outside m = (.ok v, left)) :
    ((visitReport feature v).passed = true ∧ (visitReport feature v).error = none) ∨
      ((visitReport feature v).passed = false ∧
        failureType? (visitReport feature v).error = some .stepFailed) := by
  obtain ⟨-, hcapture⟩ := gives_visit outside p feature options m v (congrArg Prod.fst h)
  obtain ⟨progress, m₁, hsteps, hrest⟩ := Task.run_bind_eq_ok h
  have hprogress : v.progress = progress := by
    cases herror : progress.error <;> rw [herror] at hrest <;>
      exact congrArg Visit.progress (Except.ok.inj (Prod.mk.inj hrest).1).symm
  rcases gives_stepError _ _ _ m progress (congrArg Prod.fst hsteps) with hnone | ⟨k, text, hsome⟩
  · rw [← hprogress] at hnone
    left
    simp [visitReport, hnone, hcapture hnone]
  · rw [← hprogress] at hsome
    right
    refine ⟨by simp [visitReport, hsome], ?_⟩
    unfold visitReport
    cases v.capture with
    | ok shot => simpa [hsome] using failureType?_stepError k text
    | error fault => exact failureType?_unexpected fault

/-! ## Causes -/

/-- The browser is there, but the session of the test does not open. -/
def Refuses (g : Gateway) (options : Options) (outside : Outside) (m : Machine) : Prop :=
  ∃ ready unopened url said, (Install.ensure g).run outside m = (.ok true, ready) ∧
    ((options.session g).open options.baseUrl options.headless).run outside
      { ready with session := .closed } = (.error (.openFailed url said), unopened)

theorem fails_iff {ready : Bool} (h : (Install.ensure g).run outside m = (.ok ready, m')) :
    Install.Fails g outside m ↔ ready = false := by
  rw [← Install.ensure_eq_false, h]
  simp

theorem not_refuses_of_missing (h : (Install.ensure g).run outside m = (.ok false, m')) :
    ¬ Refuses g options outside m := by
  rintro ⟨ready, unopened, url, said, hensure, -⟩
  rw [h] at hensure
  simp at hensure

theorem refuses_iff {ready unopened : Machine} {result : Except Fault CommandResult}
    (hensure : (Install.ensure g).run outside m = (.ok true, ready))
    (hopen : ((options.session g).open options.baseUrl options.headless).run outside
      { ready with session := .closed } = (result, unopened)) :
    Refuses g options outside m ↔ ∃ url said, result = .error (.openFailed url said) := by
  constructor
  · rintro ⟨ready', unopened', url, said, hensure', hopen'⟩
    rw [hensure] at hensure'
    obtain ⟨-, rfl⟩ := Prod.mk.inj hensure'
    rw [hopen] at hopen'
    exact ⟨url, said, (Prod.mk.inj hopen').1⟩
  · rintro ⟨url, said, rfl⟩
    exact ⟨ready, unopened, url, said, hensure, hopen⟩

/-- Of a session that did not open, the error tells whether the browser said so. -/
theorem closedReport_cause (feature : Feature) (fault : Fault) :
    ((∃ url said, fault = .openFailed url said) ∧
        failureType? (closedReport feature fault).error = some .openFailed) ∨
      ((¬ ∃ url said, fault = .openFailed url said) ∧
        failureType? (closedReport feature fault).error = some .stepFailed) := by
  cases fault with
  | openFailed url said => exact .inl ⟨⟨url, said, rfl⟩, failureType?_openFailed url said⟩
  | _ => exact .inr ⟨by simp, failureType?_unexpected _⟩

theorem failureType?_eq_none {error : Option Text} : failureType? error = none ↔ error = none := by
  cases error with
  | none => simp [failureType?]
  | some error =>
    unfold failureType?
    simp only
    split
    · simp
    · split <;> simp

/-- The envelope is made from the type of the report's error. -/
theorem errorType?_featureEnvelope (hpassed : failureType? report.error = none ↔ report.passed = true)
    (command runId runPath : Text) (extra : List (Text × Value)) :
    (CommandLine.featureEnvelope command runId runPath report extra).errorType? =
      failureType? report.error := by
  unfold CommandLine.featureEnvelope
  split
  next h => rw [hpassed.mpr h]; rfl
  next h =>
    obtain ⟨type, htype⟩ := Option.ne_none_iff_exists'.mp (mt hpassed.mp h)
    rw [htype]
    rfl

/-- What the error of a report tells, and what is done when there is no browser or no session. -/
structure Caused (g : Gateway) (options : Options) (outside : Outside) (m : Machine)
    (report : FeatureReport) (after : Machine) : Prop where
  error : report.error = none ↔ report.passed = true
  passed : failureType? report.error = none ↔ report.passed = true
  missing : failureType? report.error = some .dependencyMissing ↔ Install.Fails g outside m
  refused : failureType? report.error = some .openFailed ↔ Refuses g options outside m
  other : failureType? report.error = some .stepFailed ↔
    report.passed = false ∧ ¬ Install.Fails g outside m ∧ ¬ Refuses g options outside m
  /-- Without a browser the only calls are those of the installation. -/
  untested : Install.Fails g outside m → report.steps = [] ∧
    ∃ ran trace, ran <+: Install.commands g.binary ∧ List.Forall₂ Machine.Launches ran trace ∧
      after.calls = m.calls ++ trace
  unopened : Refuses g options outside m → report.steps = []
  envelope : ∀ command runId runPath extra,
    (CommandLine.featureEnvelope command runId runPath report extra).errorType? =
      failureType? report.error

theorem caused_missing (h : (Install.ensure g).run outside m = (.ok false, after)) :
    Caused g options outside m (missingReport feature) after := by
  have htype : failureType? (missingReport feature).error = some .dependencyMissing :=
    failureType?_missing
  have hpassed : (missingReport feature).passed = false := rfl
  have hfails : Install.Fails g outside m := (fails_iff h).mpr rfl
  have hrefuses : ¬ Refuses g options outside m := not_refuses_of_missing h
  exact {
    error := by simp [← failureType?_eq_none, htype, hpassed]
    passed := by simp [htype, hpassed]
    missing := by simp [htype, hfails]
    refused := by simp [htype, hrefuses]
    other := by simp [htype, hfails]
    untested := fun _ => ⟨rfl, Install.ensure_trace h⟩
    unopened := fun _ => rfl
    envelope := errorType?_featureEnvelope (by simp [htype, hpassed]) }

theorem caused_unopened {ready unopened : Machine} {fault : Fault}
    (hensure : (Install.ensure g).run outside m = (.ok true, ready))
    (hopen : ((options.session g).open options.baseUrl options.headless).run outside
      { ready with session := .closed } = (.error fault, unopened)) :
    Caused g options outside m (closedReport feature fault) after := by
  have hpassed : (closedReport feature fault).passed = false := rfl
  have hfails : ¬ Install.Fails g outside m := by simp [fails_iff hensure]
  have hrefuses := refuses_iff hensure hopen
  simp only [Except.error.injEq] at hrefuses
  rcases closedReport_cause feature fault with ⟨hfault, htype⟩ | ⟨hfault, htype⟩ <;>
  · rw [← hrefuses] at hfault
    exact {
      error := by simp [← failureType?_eq_none, htype, hpassed]
      passed := by simp [htype, hpassed]
      missing := by simp [htype, hfails]
      refused := by simp [htype, hfault]
      other := by simp [htype, hpassed, hfails, hfault]
      untested := fun h => absurd h hfails
      unopened := fun _ => rfl
      envelope := errorType?_featureEnvelope (by simp [htype, hpassed]) }

theorem caused_visited {ready opened left : Machine} {r : CommandResult} {v : Visit}
    (hensure : (Install.ensure g).run outside m = (.ok true, ready))
    (hopen : ((options.session g).open options.baseUrl options.headless).run outside
      { ready with session := .closed } = (.ok r, opened))
    (hvisit : (visit (options.performer g) feature options).run outside opened = (.ok v, left)) :
    Caused g options outside m (visitReport feature v) after := by
  have hfails : ¬ Install.Fails g outside m := by simp [fails_iff hensure]
  have hrefuses : ¬ Refuses g options outside m := by simp [refuses_iff hensure hopen]
  have hpassed : failureType? (visitReport feature v).error = none ↔
      (visitReport feature v).passed = true := by
    rcases visitReport_cause hvisit with ⟨hpassed, herror⟩ | ⟨hpassed, htype⟩
    · simp [hpassed, herror, failureType?]
    · simp [hpassed, htype]
  have htype : failureType? (visitReport feature v).error = none ∨
      failureType? (visitReport feature v).error = some .stepFailed := by
    rcases visitReport_cause hvisit with ⟨-, herror⟩ | ⟨-, htype⟩
    · exact .inl (failureType?_eq_none.mpr herror)
    · exact .inr htype
  exact {
    error := failureType?_eq_none.symm.trans hpassed
    passed := hpassed
    missing := by rcases htype with htype | htype <;> simp [htype, hfails]
    refused := by rcases htype with htype | htype <;> simp [htype, hrefuses]
    other := by
      rw [← Bool.not_eq_true, ← hpassed]
      rcases htype with htype | htype <;> simp [htype, hfails, hrefuses]
    untested := fun h => absurd h hfails
    unopened := fun h => absurd h hrefuses
    envelope := errorType?_featureEnvelope hpassed }

/-- Whatever the browser says and whatever the steps are: a test passes exactly if its report has no
error, and the type of the error tells the cause. A missing browser, a session that did not open, and
everything else are told apart, and the envelope names the same type. -/
theorem caused_feature (h : (Run.feature g feature options).run outside m = (.ok report, after)) :
    Caused g options outside m report after := by
  cases feature_ending h with
  | missing hensure => exact caused_missing hensure
  | unopened hensure hopen => exact caused_unopened hensure hopen
  | visited hensure hopen hvisit => exact caused_visited hensure hopen hvisit

/-- A browser that breaks off when it looks for an element, in the words of one that did not open. -/
def misleading : Outside :=
  Playbook.outside []
    [{ start := ["find"], times := none, answer := .broken "Failed to open browser", installs := []
       touches := none }]
    0

theorem caused_feature_misleading :
    ∃ report after, (Run.feature (.direct "agent-browser") lookAndClick {}).run misleading
      (Machine.bare ["agent-browser"]) = (.ok report, after) ∧
      report.error = some (Text.of "Step 2 failed: Failed to open browser") ∧
      ¬ Refuses (.direct "agent-browser") {} misleading (Machine.bare ["agent-browser"]) := by
  let options : Options := {}
  let s := options.session (.direct "agent-browser")
  let before : Machine := { Machine.bare ["agent-browser"] with session := .opening }
  let said := ((s.tryOpen options.baseUrl options.headless).run misleading before).2
  let opened : Machine := { said with session := .open, elapsed := said.elapsed + s.settle.toNat }
  have hsettle : s.settle.natAbs < longestDuration := by decide +kernel
  have hopen : (s.open options.baseUrl options.headless).run misleading
      { Machine.bare ["agent-browser"] with session := .closed } = (_, opened) :=
    Session.open_of_success rfl rfl hsettle
  have hpath : ((screenshotPath lookAndClick options).run misleading opened).1 = .ok _ := rfl
  have hstopped : (answers misleading (performOf (options.performer (.direct "agent-browser"))
      lookAndClick) opened (planned lookAndClick))[1]? =
      some (.error (.broken "Failed to open browser")) := rfl
  obtain ⟨step, shot, left, -, hvisit⟩ := visit_of_stopped hpath hstopped rfl fun j hj => by
    obtain rfl : j = 0 := by omega
    rfl
  have hrun := visitFeature_of_visit hopen hvisit
  rw [← feature_of_installed lookAndClick options misleading rfl] at hrun
  refine ⟨_, _, hrun, rfl, ?_⟩
  intro hrefuses
  have htype := (caused_feature hrun).refused.mpr hrefuses
  exact absurd ((failureType?_stepError 2 "Failed to open browser").symm.trans htype) (by decide)

end Run

end Acceptance
