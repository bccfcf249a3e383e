import Acceptance.Proofs.Layout
import Acceptance.Proofs.Performer
import Acceptance.Proofs.Session
import Acceptance.Run.Feature

/-! # While a session is open

The steps of a feature are carried out up to the first that does not pass, and then at most one
screenshot is taken. None of this gives a fault.
-/

namespace Acceptance

namespace Run

open Performer (IsStepCall TellsSteps)

/-! ## Steps -/

/-- What the steps come to when they are carried out one after the other. -/
def answers (outside : Outside) (perform : Text → Task Outcome) :
    Machine → List Text → List (Except Fault Outcome)
  | _, [] => []
  | m, step :: rest =>
    let (answer, m) := (perform step).run outside m
    answer :: answers outside perform m rest

/-- Steps that were carried out one after the other: their reports, and what was said for each. -/
inductive Performed (g : Gateway) (outside : Outside) (perform : Text → Task Outcome) :
    Machine → List StepReport → List (List Exchange) → Machine → Prop where
  | none (m) : Performed g outside perform m [] [] m
  | next {m m₁ m' step answer said reports parts} :
    (perform step).run outside m = (answer, m₁) → Talk g outside m said m₁ →
    (∀ e ∈ said, IsStepCall e.call) → Performed g outside perform m₁ reports parts m' →
    Performed g outside perform m (⟨step, outcomeOf answer⟩ :: reports) (said :: parts) m'

variable {g : Gateway} {outside : Outside} {perform : Text → Task Outcome} {m m' : Machine}

theorem outcomeOf_eq_passed {answer : Except Fault Outcome} (h : outcomeOf answer = .passed) :
    answer = .ok .passed := by
  rcases answer with fault | outcome
  · simp [outcomeOf] at h
  · rw [show outcome = .passed from h]

theorem outcomeOf_of_ne_passed {answer : Except Fault Outcome} (h : answer ≠ .ok .passed) :
    ∃ error, outcomeOf answer = .failed error := by
  cases ho : outcomeOf answer with
  | passed => exact absurd (outcomeOf_eq_passed ho) h
  | failed error => exact ⟨error, rfl⟩

/-- If the first step passes, its report comes before those of the rest. -/
theorem steps_cons_passed {step : Text} {rest : List Text} {number : Nat} {m₁ m₂ : Machine}
    {later : Progress} (hstep : (perform step).run outside m = (.ok .passed, m₁))
    (hrest : (steps perform (number + 1) rest).run outside m₁ = (.ok later, m₂)) :
    (steps perform number (step :: rest)).run outside m =
      (.ok { later with reports := ⟨step, .passed⟩ :: later.reports }, m₂) := by
  unfold steps
  rw [Task.run_attempt_bind, hstep]
  exact Task.run_bind_ok hrest _

/-- If the first step does not pass, no other is carried out. -/
theorem steps_cons_failed {step : Text} (rest : List Text) (number : Nat) {m₁ : Machine}
    {answer : Except Fault Outcome} {error : Text}
    (hstep : (perform step).run outside m = (answer, m₁))
    (herror : outcomeOf answer = .failed error) :
    (steps perform number (step :: rest)).run outside m =
      (.ok { reports := [⟨step, .failed error⟩], error := some (stepError number error) }, m₁) := by
  unfold steps
  rw [Task.run_attempt_bind, hstep]
  simp [herror]

theorem steps_of_all_passed {list : List Text} (number : Nat)
    (h : ∀ answer ∈ answers outside perform m list, answer = .ok .passed) :
    ∃ m', (steps perform number list).run outside m =
      (.ok { reports := list.map (⟨·, .passed⟩), error := none }, m') := by
  induction list generalizing m number with
  | nil => exact ⟨m, rfl⟩
  | cons step rest ih =>
    rcases hstep : (perform step).run outside m with ⟨answer, m₁⟩
    simp only [answers, hstep, List.forall_mem_cons] at h
    obtain ⟨rfl, hrest⟩ := h
    obtain ⟨m', hm'⟩ := ih (number + 1) hrest
    exact ⟨m', steps_cons_passed hstep hm'⟩

theorem steps_of_stopped {list : List Text} {k : Nat} {answer : Except Fault Outcome}
    {error : Text} (number : Nat) (hk : (answers outside perform m list)[k]? = some answer)
    (herror : outcomeOf answer = .failed error)
    (hbefore : ∀ j < k, (answers outside perform m list)[j]? = some (.ok .passed)) :
    ∃ step m', list[k]? = some step ∧ (steps perform number list).run outside m =
      (.ok { reports := (list.take k).map (⟨·, .passed⟩) ++ [⟨step, .failed error⟩]
             error := some (stepError (number + k) error) }, m') := by
  induction list generalizing m number k with
  | nil => simp [answers] at hk
  | cons step rest ih =>
    rcases hstep : (perform step).run outside m with ⟨first, m₁⟩
    simp only [answers, hstep] at hk hbefore
    cases k with
    | zero =>
      obtain rfl : first = answer := by simpa using hk
      exact ⟨step, m₁, rfl, by simpa using steps_cons_failed rest number hstep herror⟩
    | succ k =>
      obtain rfl : first = .ok .passed := by simpa using hbefore 0 (by omega)
      obtain ⟨last, m', hlast, hm'⟩ := ih (m := m₁) (number + 1) (by simpa using hk)
        (fun j hj => by simpa using hbefore (j + 1) (by omega))
      refine ⟨last, m', by simpa using hlast, ?_⟩
      rw [steps_cons_passed hstep hm', show number + 1 + k = number + (k + 1) by omega]
      rfl

/-- Carrying out steps gives no fault. They are carried out in order, each with commands of steps
only, and if the run has an error its last step failed. -/
theorem steps_performed (htells : ∀ step, (perform step).Leaves outside (TellsSteps g outside))
    (number : Nat) (list : List Text) (m : Machine) :
    ∃ progress parts m', (steps perform number list).run outside m = (.ok progress, m') ∧
      Performed g outside perform m progress.reports parts m' ∧
      progress.reports.map (·.step) <+: list ∧
      (progress.error.isSome →
        ∃ step error, progress.reports.getLast? = some ⟨step, .failed error⟩) := by
  induction list generalizing m number with
  | nil => exact ⟨_, [], m, rfl, .none m, by simp, by simp⟩
  | cons step rest ih =>
    obtain ⟨said, htalk, hkind⟩ := htells step m
    rcases hstep : (perform step).run outside m with ⟨answer, m₁⟩
    rw [hstep] at htalk
    cases houtcome : outcomeOf answer with
    | failed error =>
      refine ⟨_, [said], m₁, steps_cons_failed rest number hstep houtcome, ?_, ?_, ?_⟩
      · exact houtcome ▸ .next hstep htalk hkind (.none m₁)
      · simp
      · simp
    | passed =>
      obtain rfl := outcomeOf_eq_passed houtcome
      obtain ⟨later, parts, m', hm', hperformed, hprefix, hlast⟩ := ih (number + 1) m₁
      refine ⟨_, said :: parts, m', steps_cons_passed hstep hm', ?_, ?_, ?_⟩
      · exact .next hstep htalk hkind hperformed
      · simpa using hprefix
      · intro herror
        obtain ⟨last, error, hlast⟩ := hlast herror
        exact ⟨last, error, by simp [List.getLast?_cons, hlast]⟩

/-- Whatever the feature, its steps give commands of steps only. -/
theorem speaks_performOf (p : Performer) (feature : Feature) (step : Text) :
    p.SpeaksSteps (performOf p feature step) := by
  unfold performOf
  split
  · exact Performer.speaks_genericCheck
  · exact Performer.speaks_perform _ _

theorem tells_performOf (p : Performer) (feature : Feature) (outside : Outside) (step : Text) :
    (performOf p feature step).Leaves outside (TellsSteps p.gateway outside) :=
  ((speaks_performOf p feature step).mono fun _ hcall => hcall.word).tells outside

theorem Performed.setting {reports : List StepReport} {parts : List (List Exchange)}
    (h : Performed g outside perform m reports parts m') : m'.setting = m.setting := by
  induction h with
  | none => rfl
  | next _ htalk _ _ ih => rw [ih, htalk.setting]

/-! ## Screenshots -/

theorem asks_screenshotPath (feature : Feature) (options : Options) :
    (screenshotPath feature options).Asks := by
  have hname : ∀ directory : Path, Task.Asks (do
      let stamp ← Layout.stamp
      pure (directory.child (feature.id ++ "-" ++ stamp ++ ".png"))) :=
    fun _ => Task.asks_bind Layout.asks_stamp fun _ => Task.asks_pure _
  unfold screenshotPath
  split
  · exact hname _
  · exact Task.asks_bind (Layout.asks_screenshotsDirectory _) hname

/-- The command that takes the screenshot of a failure. -/
def screenshotCall (p : Performer) (path : Path) : BrowserCall :=
  { args := Performer.screenshotArgs path.toText false
    silent := true
    timeout := some p.timeouts.screenshot }

/-- Nothing, or the command for one screenshot. -/
def AtMostOneShot (p : Performer) (shots : List Exchange) : Prop :=
  shots = [] ∨ ∃ path answer, shots = [⟨screenshotCall p path, answer⟩]

theorem screenshotInto_talk (p : Performer) (path : Path) (outside : Outside) (m : Machine) :
    ∃ shots, AtMostOneShot p shots ∧
      Talk p.gateway outside m shots ((screenshotInto p path).run outside m).2 := by
  have hquiet : m.Quiet ((Task.ensureDirectory path.parent).run outside m).2 :=
    Task.quiet_ensureDirectory path.parent m
  unfold screenshotInto
  rcases hensure : (Task.ensureDirectory path.parent).run outside m with ⟨fault | _, m₁⟩
  · rw [hensure] at hquiet
    rw [Task.run_bind_error hensure]
    exact ⟨[], .inl rfl, .silence hquiet⟩
  · rw [hensure] at hquiet
    rw [Task.run_bind_ok hensure]
    have hshot := Talk.single p.gateway outside m₁ (screenshotCall p path)
    refine ⟨_, .inr ⟨path, _, rfl⟩, hshot.quiet_append hquiet |>.append_quiet ?_⟩
    unfold Performer.screenshot
    rw [Task.run_bind]
    rw [show p.command (Performer.screenshotArgs path.toText false) p.timeouts.screenshot =
      p.gateway.give (screenshotCall p path) from rfl]
    split <;> rename_i h <;> rw [h] <;> exact .rfl

theorem captureFailure_talk (p : Performer) (feature : Feature) (options : Options)
    (outside : Outside) (m : Machine) :
    ∃ shots, AtMostOneShot p shots ∧
      Talk p.gateway outside m shots ((captureFailure p feature options).run outside m).2 := by
  have hpath := (asks_screenshotPath feature options).run_self outside m
  unfold captureFailure
  cases hp : ((screenshotPath feature options).run outside m).1 with
  | error fault =>
    rw [hp] at hpath
    rw [Task.run_bind_error hpath]
    exact ⟨[], .inl rfl, .refl⟩
  | ok path =>
    rw [hp] at hpath
    rw [Task.run_bind_ok hpath, Task.run_attempt_bind]
    obtain ⟨shots, hshots, htalk⟩ := screenshotInto_talk p path outside m
    refine ⟨shots, hshots, ?_⟩
    split <;> exact htalk

/-- If there is a path for the screenshot, taking it gives no fault. -/
theorem captureFailure_of_path (p : Performer) {feature : Feature} {options : Options}
    {path : Path} (h : ((screenshotPath feature options).run outside m).1 = .ok path) :
    ∃ shot, ((captureFailure p feature options).run outside m).1 = .ok shot := by
  have hpath := (asks_screenshotPath feature options).run_self outside m
  rw [h] at hpath
  unfold captureFailure
  rw [Task.run_bind_ok hpath, Task.run_attempt_bind]
  split
  · exact ⟨_, rfl⟩
  · exact ⟨_, rfl⟩

/-! ## While the session is open -/

/-- A visit gives no fault. It carries out steps, and then takes at most one screenshot, of a step
that failed. -/
theorem visit_talk (p : Performer) (feature : Feature) (options : Options) (outside : Outside)
    (m : Machine) :
    ∃ v parts shots m₁ m', (visit p feature options).run outside m = (.ok v, m') ∧
      Performed p.gateway outside (performOf p feature) m v.progress.reports parts m₁ ∧
      v.progress.reports.map (·.step) <+: planned feature ∧
      AtMostOneShot p shots ∧
      (shots ≠ [] → ∃ step error, v.progress.reports.getLast? = some ⟨step, .failed error⟩) ∧
      Talk p.gateway outside m₁ shots m' := by
  obtain ⟨progress, parts, m₁, hsteps, hperformed, hprefix, hlast⟩ :=
    steps_performed (tells_performOf p feature outside) 1 (planned feature) m
  unfold visit
  rw [Task.run_bind_ok hsteps]
  cases herror : progress.error with
  | none => exact ⟨_, parts, [], m₁, m₁, rfl, hperformed, hprefix, .inl rfl, by simp, .refl⟩
  | some error =>
    obtain ⟨shots, hshots, htalk⟩ := captureFailure_talk p feature options outside m₁
    exact ⟨_, parts, shots, m₁, _, rfl, hperformed, hprefix, hshots,
      fun _ => hlast (by simp [herror]), htalk⟩

theorem visit_of_all_passed {p : Performer} {feature : Feature} (options : Options)
    (h : ∀ answer ∈ answers outside (performOf p feature) m (planned feature),
      answer = .ok .passed) :
    ∃ m', (visit p feature options).run outside m =
      (.ok { progress := { reports := (planned feature).map (⟨·, .passed⟩), error := none }
             capture := .ok none }, m') := by
  obtain ⟨m', hsteps⟩ := steps_of_all_passed 1 h
  refine ⟨m', ?_⟩
  unfold visit
  rw [Task.run_bind_ok hsteps]
  rfl

/-- What comes of the screenshot of a failure: without a path for it there is the fault of the path,
and otherwise there is none. -/
def Captured (path : Except Fault Path) (capture : Except Fault (Option Text)) : Prop :=
  match path with
  | .ok _ => ∃ shot, capture = .ok shot
  | .error fault => capture = .error fault

theorem captured (p : Performer) (feature : Feature) (options : Options) (outside : Outside)
    (m : Machine) :
    Captured ((screenshotPath feature options).run outside m).1
      ((captureFailure p feature options).run outside m).1 := by
  unfold Captured
  cases hpath : ((screenshotPath feature options).run outside m).1 with
  | ok path => exact captureFailure_of_path p hpath
  | error fault =>
    have hrun := (asks_screenshotPath feature options).run_self outside m
    rw [hpath] at hrun
    unfold captureFailure
    rw [Task.run_bind_error hrun]

/-- A visit whose steps stop at one that does not pass. -/
theorem visit_of_failed {p : Performer} {feature : Feature} (options : Options) {k : Nat}
    {answer : Except Fault Outcome} {error : Text}
    (hk : (answers outside (performOf p feature) m (planned feature))[k]? = some answer)
    (herror : outcomeOf answer = .failed error)
    (hbefore : ∀ j < k,
      (answers outside (performOf p feature) m (planned feature))[j]? = some (.ok .passed)) :
    ∃ step capture m', (planned feature)[k]? = some step ∧
      (visit p feature options).run outside m =
        (.ok { progress :=
                 { reports := ((planned feature).take k).map (⟨·, .passed⟩) ++
                     [⟨step, .failed error⟩]
                   error := some (stepError (1 + k) error) }
               capture }, m') ∧
      Captured ((screenshotPath feature options).run outside m).1 capture := by
  obtain ⟨step, m₁, hstep, hsteps⟩ := steps_of_stopped 1 hk herror hbefore
  obtain ⟨progress, parts, m₂, hsteps', hperformed, -, -⟩ :=
    steps_performed (tells_performOf p feature outside) 1 (planned feature) m
  obtain ⟨-, rfl⟩ := Prod.mk.inj (hsteps.symm.trans hsteps')
  -- The steps left the setting alone, so the path is still the one that was asked for before.
  have hcaptured := captured p feature options outside m₁
  rw [(asks_screenshotPath feature options).answer_eq hperformed.setting] at hcaptured
  refine ⟨step, _, ((captureFailure p feature options).run outside m₁).2, hstep, ?_, hcaptured⟩
  unfold visit
  rw [Task.run_bind_ok hsteps]
  rfl

theorem visit_of_stopped {p : Performer} {feature : Feature} {options : Options} {path : Path}
    {k : Nat} {answer : Except Fault Outcome} {error : Text}
    (hpath : ((screenshotPath feature options).run outside m).1 = .ok path)
    (hk : (answers outside (performOf p feature) m (planned feature))[k]? = some answer)
    (herror : outcomeOf answer = .failed error)
    (hbefore : ∀ j < k,
      (answers outside (performOf p feature) m (planned feature))[j]? = some (.ok .passed)) :
    ∃ step shot m', (planned feature)[k]? = some step ∧
      (visit p feature options).run outside m =
        (.ok { progress :=
                 { reports := ((planned feature).take k).map (⟨·, .passed⟩) ++
                     [⟨step, .failed error⟩]
                   error := some (stepError (1 + k) error) }
               capture := .ok shot }, m') := by
  obtain ⟨step, capture, m', hstep, hvisit, hcaptured⟩ := visit_of_failed options hk herror hbefore
  rw [hpath] at hcaptured
  obtain ⟨shot, rfl⟩ := hcaptured
  exact ⟨step, shot, m', hstep, hvisit⟩

end Run

end Acceptance
