import Acceptance.Proofs.SideBySide
import Acceptance.Proofs.Sparing

/-! # The screenshot of a failure

When a step fails a screenshot is taken, if this can be done. What a report says of the steps is
settled by then: it is the same whatever comes of the screenshot. Only if there is no path for it does
the reason for that take the place of the error. -/

namespace Acceptance

variable {g : Gateway} {feature : Feature} {options : Options} {outside other : Outside}
  {start : History} {m m' : Machine}

/-! ## What is settled before -/

namespace Machine

def SameSetting (m m' : Machine) : Prop := m'.setting = m.setting

instance : IsPreorder Machine SameSetting where
  refl _ := rfl
  trans _ _ _ h k := Eq.trans k h

theorem admits_sameSetting (outside : Outside) : Admits outside SameSetting where
  quiet h := h.setting
  learns := by
    rintro m _ ⟨settings, rfl⟩
    rfl
  counts _ := rfl
  after _ _ _ := rfl

end Machine

namespace Run

theorem answers_sameIn {R : Machine → Machine → Prop} {perform : Text → Task Outcome}
    (hperform : ∀ step, (perform step).SameIn outside other R) (hm : R m m') (list : List Text) :
    answers other perform m' list = answers outside perform m list := by
  induction list generalizing m m' with
  | nil => rfl
  | cons step rest ih =>
    rcases hrun : (perform step).run outside m with ⟨answer, m₁⟩
    obtain ⟨m₁', hrun', hleft⟩ := (hperform step).of_run hm hrun
    simp only [answers, hrun, hrun', ih hleft]

theorem not_shot_of_stepCall {p : Performer} {call : BrowserCall} (h : p.StepCall call) :
    ¬ call.IsShot := by
  obtain ⟨word, hword, hhead⟩ := h.word
  intro hshot
  unfold BrowserCall.IsShot at hshot
  rw [hhead, Option.some.injEq] at hshot
  exact absurd (hshot ▸ hword) (by decide)

/-- Opening the session comes to the same on both machines. -/
theorem sameIn_open (halike : outside.AlikeUntilShot start other) :
    ((options.session g).open options.baseUrl options.headless).SameIn outside other
      (Machine.AlikeUntilShot g start) := by
  have hopen : ¬ ((options.session g).openCall options.baseUrl options.headless).IsShot := by
    unfold BrowserCall.IsShot Session.openCall Session.openArgs
    split <;> exact fun h => absurd (Option.some.inj h) (by decide)
  have hclose : ¬ Session.closeCall.IsShot := by
    unfold BrowserCall.IsShot
    decide
  have hspeaks : Speaks (options.session g).gateway (fun call => ¬ call.IsShot)
      ((options.session g).open options.baseUrl options.headless) :=
    Session.speaks_open hopen hclose
  exact hspeaks.sameIn halike fun _ h => h

/-! ## Failures -/

/-- The browser is there, and the session of the test opens. -/
structure Starts (g : Gateway) (options : Options) (outside : Outside) (m ready opened : Machine) :
    Prop where
  ensured : (Install.ensure g).run outside m = (.ok true, ready)
  opened : ∃ r, ((options.session g).open options.baseUrl options.headless).run outside
    { ready with session := .closed } = (.ok r, opened)

/-- The steps pass up to the one after `k` others, which does not: `error` is what went wrong. -/
structure FailsAfter (g : Gateway) (feature : Feature) (options : Options) (outside : Outside)
    (opened : Machine) (k : Nat) (error : Text) : Prop where
  passed : ∀ j < k, (answers outside (performOf (options.performer g) feature) opened
    (planned feature))[j]? = some (.ok .passed)
  failed : ∃ answer, (answers outside (performOf (options.performer g) feature) opened
    (planned feature))[k]? = some answer ∧ outcomeOf answer = .failed error

theorem Starts.setting {ready opened : Machine} (h : Starts g options outside m ready opened) :
    opened.setting = m.setting := by
  have hready := (Install.leaves_ensure (Machine.admits_sameSetting outside) g).of_run h.ensured
  obtain ⟨r, hopen⟩ := h.opened
  obtain ⟨es, answer, -, htalk, -⟩ := (options.session g).open_spec options.baseUrl
    options.headless outside { ready with session := .closed }
  rw [hopen] at htalk
  exact htalk.setting.trans hready

/-- The report of a test that starts and then fails after `k` steps. -/
theorem feature_of_failed {ready opened : Machine} {k : Nat} {error : Text}
    (hstarts : Starts g options outside m ready opened)
    (hfails : FailsAfter g feature options outside opened k error) :
    ∃ step capture after, (planned feature)[k]? = some step ∧
      (Run.feature g feature options).run outside m =
        (.ok (visitReport feature
          { progress :=
              { reports := ((planned feature).take k).map (⟨·, .passed⟩) ++
                  [⟨step, .failed error⟩]
                error := some (stepError (1 + k) error) }
            capture }), after) ∧
      Captured ((screenshotPath feature options).run outside m).1 capture := by
  obtain ⟨r, hopen⟩ := hstarts.opened
  obtain ⟨answer, hk, herror⟩ := hfails.failed
  obtain ⟨step, capture, left, hstep, hvisit, hcaptured⟩ :=
    visit_of_failed options hk herror hfails.passed
  rw [(asks_screenshotPath feature options).answer_eq hstarts.setting] at hcaptured
  have hfeature : (Run.feature g feature options).run outside m =
      (visitFeature g feature options).run outside ready := by
    unfold Run.feature
    rw [Task.run_bind_ok hstarts.ensured]
    rfl
  exact ⟨step, capture, _, hstep, hfeature.trans (visitFeature_of_visit hopen hvisit), hcaptured⟩

/-- On a machine that is alike the test starts and fails just so. -/
theorem FailsAfter.of_alike {ready opened ready' : Machine} {k : Nat} {error : Text}
    (hstarts : Starts g options outside m ready opened)
    (hfails : FailsAfter g feature options outside opened k error)
    (hready : (Install.ensure g).run other m' = (.ok true, ready'))
    (hmachines : Machine.AlikeUntilShot g ready.calls ready ready')
    (halike : outside.AlikeUntilShot ready.calls other) :
    ∃ opened', Starts g options other m' ready' opened' ∧
      FailsAfter g feature options other opened' k error := by
  obtain ⟨r, hopen⟩ := hstarts.opened
  have hclosed : Machine.AlikeUntilShot g ready.calls { ready with session := .closed }
      { ready' with session := .closed } := { hmachines with }
  obtain ⟨opened', hopen', hopened⟩ := (sameIn_open halike).of_run hclosed hopen
  have hanswers := answers_sameIn (fun step => (speaks_performOf (options.performer g) feature
    step).sameIn halike fun _ => not_shot_of_stepCall) hopened (planned feature)
  refine ⟨opened', ⟨hready, r, hopen'⟩, ⟨?_, ?_⟩⟩
  · rw [hanswers]
    exact hfails.passed
  · rw [hanswers]
    exact hfails.failed

/-! ## Reports of a failure -/

section

variable {progress : Progress} {capture : Except Fault (Option Text)}

/-- The report when no screenshot was taken. -/
def bareReport (feature : Feature) (progress : Progress) : FeatureReport :=
  visitReport feature { progress, capture := .ok none }

/-- With a path for it the screenshot changes nothing else in the report. -/
theorem visitReport_of_path {path : Path} (h : Captured (.ok path) capture) :
    ∃ screenshots, visitReport feature { progress, capture } =
      { bareReport feature progress with screenshots } := by
  obtain ⟨shot, rfl⟩ := h
  exact ⟨_, rfl⟩

/-- Where there is a screenshot there was a path for it. -/
theorem visitReport_of_screenshots
    (h : (visitReport feature { progress, capture }).screenshots ≠ []) :
    ∃ screenshots, visitReport feature { progress, capture } =
      { bareReport feature progress with screenshots } := by
  rcases capture with fault | shot
  · exact absurd rfl h
  · exact ⟨_, rfl⟩

end

/-- A test starts, and after `k` steps one fails. Then the report shows the steps up to this one, and
it is not passed; the error is that of the step if there is a path for the screenshot, whatever comes
of taking it, and otherwise it is the fault of the path. On any machine that is alike until the
screenshot, the steps are reported just so. If it has the screenshot, its error is that of the step;
then, if there is a path here, the two reports differ in nothing but the screenshots. -/
theorem failure_kept {ready opened : Machine} {k : Nat} {error : Text}
    (hstarts : Starts g options outside m ready opened)
    (hfails : FailsAfter g feature options outside opened k error) :
    ∃ report after step, (Run.feature g feature options).run outside m = (.ok report, after) ∧
      (planned feature)[k]? = some step ∧
      report.steps = ((planned feature).take k).map (⟨·, .passed⟩) ++ [⟨step, .failed error⟩] ∧
      report.passed = false ∧
      (∀ path, ((screenshotPath feature options).run outside m).1 = .ok path →
        report.error = some (stepError (k + 1) error)) ∧
      (∀ fault, ((screenshotPath feature options).run outside m).1 = .error fault →
        report.error = some (unexpected fault) ∧ report.screenshots = []) ∧
      ∀ other m' ready', (Install.ensure g).run other m' = (.ok true, ready') →
        Machine.AlikeUntilShot g ready.calls ready ready' →
        outside.AlikeUntilShot ready.calls other →
        ∃ report' after', (Run.feature g feature options).run other m' = (.ok report', after') ∧
          report'.steps = report.steps ∧ report'.passed = report.passed ∧
          (report'.screenshots ≠ [] → report'.error = some (stepError (k + 1) error) ∧
            ∀ path, ((screenshotPath feature options).run outside m).1 = .ok path →
              report = { report' with screenshots := report.screenshots }) := by
  obtain ⟨step, capture, after, hstep, hrun, hcaptured⟩ := feature_of_failed hstarts hfails
  refine ⟨_, after, step, hrun, hstep, rfl, rfl, ?_, ?_, ?_⟩
  · intro path hpath
    rw [hpath] at hcaptured
    obtain ⟨screenshots, hreport⟩ := visitReport_of_path hcaptured
    rw [hreport, Nat.add_comm]
    rfl
  · intro fault hfault
    rw [hfault] at hcaptured
    obtain rfl : capture = .error fault := hcaptured
    exact ⟨rfl, rfl⟩
  · intro other m' ready' hready hmachines halike
    -- There the test fails at the same step with the same error; only the screenshot can differ.
    obtain ⟨opened', hstarts', hfails'⟩ := hfails.of_alike hstarts hready hmachines halike
    obtain ⟨step', capture', after', hstep', hrun', -⟩ := feature_of_failed hstarts' hfails'
    obtain rfl : step = step' := Option.some.inj (hstep.symm.trans hstep')
    refine ⟨_, after', hrun', rfl, rfl, fun hshots => ?_⟩
    obtain ⟨screenshots', hreport'⟩ := visitReport_of_screenshots hshots
    rw [hreport', Nat.add_comm]
    refine ⟨rfl, fun path hpath => ?_⟩
    rw [hpath] at hcaptured
    obtain ⟨screenshots, hreport⟩ := visitReport_of_path hcaptured
    rw [hreport]

/-- A machine with a browser, on which a file stands where the screenshots would go. -/
def blocked : Machine :=
  { Machine.bare ["agent-browser"] with files := [([".agent"], .file [] false)] }

theorem failure_kept_blocked :
    ∃ report report' after after', (Run.feature (.direct "agent-browser") lookAndClick {}).run clumsy
        blocked = (.ok report, after) ∧
      (Run.feature (.direct "agent-browser") lookAndClick {}).run clumsy
        (Machine.bare ["agent-browser"]) = (.ok report', after') ∧
      report.error = some (Text.of "Step 2 failed: gone") ∧ report'.steps = report.steps := by
  let options : Options := {}
  let s := options.session (.direct "agent-browser")
  let before : Machine := { blocked with session := .opening }
  let said := ((s.tryOpen options.baseUrl options.headless).run clumsy before).2
  let opened : Machine := { said with session := .open, elapsed := said.elapsed + s.settle.toNat }
  have hsettle : s.settle.natAbs < longestDuration := by decide +kernel
  have hopen : (s.open options.baseUrl options.headless).run clumsy
      { blocked with session := .closed } = (_, opened) := Session.open_of_success rfl rfl hsettle
  have hfails : FailsAfter (.direct "agent-browser") lookAndClick options clumsy opened 1 "gone" :=
    { passed := fun j hj => by
        obtain rfl : j = 0 := by omega
        rfl
      failed := ⟨.error (.broken "gone"), rfl, rfl⟩ }
  have hstarts : Starts (.direct "agent-browser") options clumsy blocked blocked opened :=
    { ensured := rfl, opened := ⟨_, hopen⟩ }
  obtain ⟨report, after, step, hrun, -, -, -, hpath, -, hother⟩ := failure_kept hstarts hfails
  obtain ⟨report', after', hrun', hsteps, -⟩ := hother clumsy (Machine.bare ["agent-browser"]) _ rfl
    { calls := rfl
      since := ⟨[], rfl, by simp⟩
      elapsed := rfl
      newVariables := rfl } .rfl
  exact ⟨report, report', after, after', hrun, hrun', hpath _ rfl, hsteps⟩

/-- A machine with a browser, and with a time set that is none. -/
def timeless : Machine :=
  { Machine.bare ["agent-browser"] with environment := [("LRA_TEST_NOW_ISO", "nonsense")] }

/-- There is no path for the screenshot, and the error of the step is lost. -/
theorem error_lost_timeless :
    Machine.AlikeUntilShot (.direct "agent-browser") [] timeless
        (Machine.bare ["agent-browser"]) ∧
      ((Run.feature (.direct "agent-browser") lookAndClick {}).run clumsy
        (Machine.bare ["agent-browser"])).1.toOption.map (fun r => (r.error, r.screenshots.length)) =
        some (some (Text.of "Step 2 failed: gone"), 1) ∧
      ((Run.feature (.direct "agent-browser") lookAndClick {}).run clumsy
        timeless).1.toOption.map (·.error) =
        some (some (Text.of "Unexpected error: Invalid isoformat string: 'nonsense'")) :=
  ⟨{ calls := rfl
     since := ⟨[], rfl, by simp⟩
     elapsed := rfl
     newVariables := rfl }, by decide +kernel, by decide +kernel⟩

end Run

end Acceptance
