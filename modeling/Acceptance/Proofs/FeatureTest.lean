import Acceptance.Machine.Playbook
import Acceptance.Proofs.Install
import Acceptance.Proofs.Visit

/-! # Testing a feature

What a test reports, from what its steps come to, and the commands that it gives to the browser.
-/

namespace Acceptance

namespace Run

open Performer (IsStepCall TellsSteps)

/-! ## The parts of a test -/

section

variable {g : Gateway} {feature : Feature} {options : Options} {outside : Outside}
  {m m₁ m' : Machine}

/-- If the browser is there, nothing is installed. -/
theorem feature_of_installed (feature : Feature) (options : Options) (outside : Outside)
    (h : m.installed.contains g.binary = true) :
    (Run.feature g feature options).run outside m =
      (visitFeature g feature options).run outside m := by
  unfold Run.feature
  rw [Task.run_bind_ok (Install.ensure_of_installed h)]
  rfl

theorem visitFeature_of_fault {fault : Fault}
    (hopen : ((options.session g).open options.baseUrl options.headless).run outside
      { m with session := .closed } = (.error fault, m₁)) :
    (visitFeature g feature options).run outside m =
      (.ok (closedReport feature fault), ((options.session g).close.run outside m₁).2) := by
  unfold visitFeature Session.enter
  simp only [Task.run_change_bind, Task.run_attempt_bind]
  rw [Session.opened_of_error _ hopen]
  rfl

theorem visitFeature_of_visit {r : CommandResult} {v : Visit}
    (hopen : ((options.session g).open options.baseUrl options.headless).run outside
      { m with session := .closed } = (.ok r, m₁))
    (hvisit : (visit (options.performer g) feature options).run outside m₁ = (.ok v, m')) :
    (visitFeature g feature options).run outside m =
      (.ok (visitReport feature v), ((options.session g).close.run outside m').2) := by
  unfold visitFeature Session.enter
  simp only [Task.run_change_bind, Task.run_attempt_bind]
  rw [Session.opened_of_ok _ hopen, hvisit]
  rfl

end

/-! ## What is reported -/

/-- The test of a feature, the browser being there, once its session opens and there is a path for a
screenshot. The steps are carried out from the machine that opening leaves. If all pass, all are
reported and the test is passed. Otherwise it stops at the first that does not pass, whose error is
that of the test. -/
theorem feature_report (g : Gateway) (feature : Feature) (options : Options) (outside : Outside)
    (m opened : Machine) (r : CommandResult) (path : Path)
    (hinstalled : m.installed.contains g.binary = true)
    (hopen : ((options.session g).open options.baseUrl options.headless).run outside
      { m with session := .closed } = (.ok r, opened))
    (hpath : ((screenshotPath feature options).run outside m).1 = .ok path) :
    let came := answers outside (performOf (options.performer g) feature) opened (planned feature)
    ∃ report after, (Run.feature g feature options).run outside m = (.ok report, after) ∧
      report.featureId = feature.id ∧
      report.steps.map (·.step) <+: planned feature ∧
      ((∀ answer ∈ came, answer = .ok .passed) →
        report.steps = (planned feature).map (⟨·, .passed⟩) ∧ report.passed = true ∧
          report.error = none ∧ report.screenshots = []) ∧
      ∀ k answer, came[k]? = some answer → answer ≠ .ok .passed →
        (∀ j < k, came[j]? = some (.ok .passed)) →
        ∃ step error, (planned feature)[k]? = some step ∧ outcomeOf answer = .failed error ∧
          report.steps =
            ((planned feature).take k).map (⟨·, .passed⟩) ++ [⟨step, .failed error⟩] ∧
          report.steps.length = k + 1 ∧ report.passed = false ∧
          report.error = some ("Step " ++ Text.ofNat (k + 1) ++ " failed: " ++ error) ∧
          report.screenshots.length ≤ 1 := by
  intro came
  obtain ⟨v, parts, shots, m₁, m', hvisit, -, hprefix, -⟩ :=
    visit_talk (options.performer g) feature options outside opened
  have hrun : (visitFeature g feature options).run outside m = _ :=
    visitFeature_of_visit hopen hvisit
  rw [← feature_of_installed feature options outside hinstalled] at hrun
  refine ⟨_, _, hrun, rfl, hprefix, fun hall => ?_, fun k answer hk hanswer hbefore => ?_⟩
  · obtain ⟨m'', hpassed⟩ := visit_of_all_passed options hall
    rw [hvisit, Prod.mk.injEq, Except.ok.injEq] at hpassed
    rw [hpassed.1]
    exact ⟨rfl, rfl, rfl, rfl⟩
  · obtain ⟨error, herror⟩ := outcomeOf_of_ne_passed hanswer
    have hsetting : opened.setting = m.setting := by
      obtain ⟨es, answer, -, htalk, -⟩ := (options.session g).open_spec options.baseUrl
        options.headless outside { m with session := .closed }
      rw [hopen] at htalk
      exact htalk.setting
    have hpath' : ((screenshotPath feature options).run outside opened).1 = .ok path := by
      rw [(asks_screenshotPath feature options).run outside hsetting, hpath]
    obtain ⟨step, shot, m'', hstep, hstopped⟩ := visit_of_stopped hpath' hk herror hbefore
    have hlength : k < (planned feature).length := (List.getElem?_eq_some_iff.mp hstep).1
    rw [hvisit, Prod.mk.injEq, Except.ok.injEq] at hstopped
    refine ⟨step, error, hstep, herror, ?_⟩
    rw [hstopped.1]
    refine ⟨rfl, ?_, rfl, ?_, ?_⟩
    · simp only [visitReport, List.length_append, List.length_map, List.length_take,
        List.length_singleton]
      omega
    · simp only [visitReport, stepError, Nat.add_comm]
    · cases shot <;> simp [visitReport]

/-- A browser that breaks off when it looks for an element. -/
def clumsy : Outside :=
  Playbook.outside []
    [{ start := ["find"], times := none, answer := .broken "gone", installs := [], touches := none }]
    0

/-- A feature of two steps. -/
def lookAndClick : Feature where
  id := "feat-001"
  description := "Save"
  steps := ["look around", "click Save"]
  passes := false
  testData := none
  priority := "medium"
  category := "functional"

theorem feature_report_second_breaks :
    ∃ report after, (Run.feature (.direct "agent-browser") lookAndClick {}).run clumsy
      (Machine.bare ["agent-browser"]) = (.ok report, after) ∧ report.steps.length = 2 ∧
      report.error = some (Text.of "Step 2 failed: gone") := by
  have hsettle : (2000 : Int).natAbs < longestDuration := by decide +kernel
  obtain ⟨report, after, hrun, -, -, -, hstopped⟩ :=
    feature_report (.direct "agent-browser") lookAndClick {} clumsy
      (Machine.bare ["agent-browser"]) _ _ _ rfl (Session.open_of_success rfl rfl hsettle) rfl
  obtain ⟨_, _, -, herror, -, hlength, -, hreport, -⟩ :=
    hstopped 1 (.error (.broken "gone")) rfl (by simp) fun j hj => by
      obtain rfl : j = 0 := by omega
      rfl
  refine ⟨report, after, hrun, hlength, ?_⟩
  rw [hreport, ← Outcome.failed.inj herror]
  rfl

/-! ## What the browser is told -/

/-- The commands of a feature's test. Either the session does not open, or steps are carried out and
at most one screenshot is taken, of a step that failed. In any case closing comes last. -/
inductive Tour (g : Gateway) (feature : Feature) (options : Options) (outside : Outside) :
    Machine → List Exchange → FeatureReport → Machine → Prop where
  | unopened {m m₁ m' opening answer closing report} :
    (options.session g).Opening options.baseUrl options.headless opening answer →
    ¬ (options.session g).Opened answer → Talk g outside m opening m₁ →
    Talk g outside m₁ [⟨Session.closeCall, closing⟩] m' →
    report.steps = [] → report.screenshots = [] →
    Tour g feature options outside m (opening ++ [⟨Session.closeCall, closing⟩]) report m'
  | opened {m m₁ m₂ m₃ m' opening answer parts shots closing report} :
    (options.session g).Opening options.baseUrl options.headless opening answer →
    (options.session g).Opened answer → Talk g outside m opening m₁ →
    Performed g outside (performOf (options.performer g) feature) m₁ report.steps parts m₂ →
    AtMostOneShot (options.performer g) shots →
    (shots ≠ [] → ∃ step error, report.steps.getLast? = some ⟨step, .failed error⟩) →
    Talk g outside m₂ shots m₃ → Talk g outside m₃ [⟨Session.closeCall, closing⟩] m' →
    Tour g feature options outside m
      (opening ++ (parts.flatten ++ shots) ++ [⟨Session.closeCall, closing⟩]) report m'

section

variable {g : Gateway} {feature : Feature} {options : Options} {outside : Outside}
  {m m' : Machine} {said : List Exchange} {report : FeatureReport}

theorem Performed.talk {perform : Text → Task Outcome} {reports : List StepReport}
    {parts : List (List Exchange)} (h : Performed g outside perform m reports parts m') :
    Talk g outside m parts.flatten m' := by
  induction h with
  | none => exact .refl
  | next _ htalk _ _ ih => exact htalk.append ih

theorem Performed.isStepCall {perform : Text → Task Outcome} {reports : List StepReport}
    {parts : List (List Exchange)} (h : Performed g outside perform m reports parts m') :
    ∀ e ∈ parts.flatten, IsStepCall e.call := by
  induction h with
  | none => simp
  | next _ _ hkind _ ih =>
    intro e he
    rcases List.mem_append.mp he with he | he
    · exact hkind e he
    · exact ih e he

theorem Tour.talk (h : Tour g feature options outside m said report m') :
    Talk g outside m said m' := by
  cases h with
  | unopened _ _ hopening hclosing => exact hopening.append hclosing
  | opened _ _ hopening hperformed _ _ hshots hclosing =>
    exact (hopening.append (hperformed.talk.append hshots)).append hclosing

/-- No command of a step, and none for a screenshot, closes the session. -/
theorem not_close_of_isStepCall {call : BrowserCall} (h : IsStepCall call) :
    call.args ≠ Session.closeCall.args := by
  intro hclose
  obtain ⟨word, hword, hhead⟩ := h
  rw [hclose, Session.closeCall, List.head?_cons, Option.some.injEq] at hhead
  exact absurd (hhead ▸ hword) (by decide)

theorem not_close_of_shot {p : Performer} {shots : List Exchange} (h : AtMostOneShot p shots) :
    ∀ e ∈ shots, e.call.args ≠ Session.closeCall.args := by
  rcases h with rfl | ⟨path, answer, rfl⟩
  · simp
  · simp [screenshotCall, Performer.screenshotArgs, Session.closeCall]

/-- Once opening is over, the session is closed by the last command and by no other. -/
theorem Tour.closes_last (h : Tour g feature options outside m said report m') :
    ∃ opening answer middle closing,
      (options.session g).Opening options.baseUrl options.headless opening answer ∧
      said = opening ++ middle ++ [⟨Session.closeCall, closing⟩] ∧
      (∀ e ∈ middle, e.call.args ≠ Session.closeCall.args) ∧
      (¬ (options.session g).Opened answer → middle = []) := by
  cases h with
  | unopened hopening =>
    exact ⟨_, _, [], _, hopening, by rw [List.append_nil], by simp, fun _ => rfl⟩
  | opened hopening hopened _ hperformed hshots =>
    refine ⟨_, _, _, _, hopening, rfl, ?_, fun h => absurd hopened h⟩
    intro e he
    rcases List.mem_append.mp he with he | he
    · exact not_close_of_isStepCall (hperformed.isStepCall e he)
    · exact not_close_of_shot hshots e he

theorem visitFeature_tour (g : Gateway) (feature : Feature) (options : Options)
    (outside : Outside) (m : Machine) :
    ∃ report said after, (visitFeature g feature options).run outside m = (.ok report, after) ∧
      Tour g feature options outside m said report after ∧ after.session = .closed := by
  obtain ⟨opening, answer, hopening, htalk, hopened⟩ := (options.session g).open_spec
    options.baseUrl options.headless outside { m with session := .closed }
  replace htalk := htalk.quiet_append (Session.quiet_enter m .closed)
  rcases hopen : ((options.session g).open options.baseUrl options.headless).run outside
    { m with session := .closed } with ⟨fault | r, m₁⟩
  · rw [hopen] at htalk hopened
    obtain ⟨-, hclosed, hclosing⟩ := (options.session g).close_spec outside m₁
    have htour : Tour g feature options outside m _ (closedReport feature fault) _ :=
      .unopened hopening (by simp [hopened]) htalk hclosing rfl rfl
    exact ⟨_, _, _, visitFeature_of_fault hopen, htour, hclosed⟩
  · rw [hopen] at htalk hopened
    obtain ⟨v, parts, shots, m₂, m₃, hvisit, hperformed, -, hshots, hlast, hshotsTalk⟩ :=
      visit_talk (options.performer g) feature options outside m₁
    obtain ⟨-, hclosed, hclosing⟩ := (options.session g).close_spec outside m₃
    have htour : Tour g feature options outside m _ (visitReport feature v) _ :=
      .opened hopening (hopened.mpr ⟨r, rfl⟩) htalk hperformed hshots hlast hshotsTalk hclosing
    exact ⟨_, _, _, visitFeature_of_visit hopen hvisit, htour, hclosed⟩

end

/-- The commands of one test, the browser being there, whatever becomes of them: opening, the steps
that are carried out, at most one screenshot, and closing, which comes last and leaves the session
closed. They are the only calls of other programs; those that get through are written down in
order. -/
theorem feature_tour (g : Gateway) (feature : Feature) (options : Options) (outside : Outside)
    (m : Machine) (hinstalled : m.installed.contains g.binary = true) :
    ∃ report said after, (Run.feature g feature options).run outside m = (.ok report, after) ∧
      Tour g feature options outside m said report after ∧
      (∃ opening answer middle closing,
        (options.session g).Opening options.baseUrl options.headless opening answer ∧
        said = opening ++ middle ++ [⟨Session.closeCall, closing⟩] ∧
        (∀ e ∈ middle, e.call.args ≠ Session.closeCall.args) ∧
        (¬ (options.session g).Opened answer → middle = [])) ∧
      after.session = .closed ∧
      ∃ trace, after.calls = m.calls ++ trace ∧
        List.Forall₂ (fun e c => g.Shows e.call c) (said.filter (g.reaches ·.call)) trace := by
  obtain ⟨report, said, after, hrun, htour, hclosed⟩ :=
    visitFeature_tour g feature options outside m
  rw [← feature_of_installed feature options outside hinstalled] at hrun
  exact ⟨report, said, after, hrun, htour, htour.closes_last, hclosed, htour.talk.calls⟩

theorem feature_tour_clumsy :
    ∃ report said after, (Run.feature (.direct "agent-browser") lookAndClick {}).run clumsy
      (Machine.bare ["agent-browser"]) = (.ok report, after) ∧
      Tour (.direct "agent-browser") lookAndClick {} clumsy (Machine.bare ["agent-browser"]) said
        report after ∧ after.session = .closed := by
  obtain ⟨report, said, after, hrun, htour, -, hclosed, -⟩ :=
    feature_tour (.direct "agent-browser") lookAndClick {} clumsy (Machine.bare ["agent-browser"])
      rfl
  exact ⟨report, said, after, hrun, htour, hclosed⟩

end Run

end Acceptance
