import Acceptance.Proofs.FeatureTest

/-! # Batches

A batch is its features tested one after the other, each from the machine that the one before it
leaves. Nothing ends it early, and the installation is not tried again.
-/

namespace Acceptance

/-- A program that is on the search path stays there, whatever other programs do. -/
def Outside.KeepsPrograms (outside : Outside) : Prop :=
  ∀ effect, Machine.Does outside effect → ∀ place s name,
    s.installed.contains name = true → (effect place s).installed.contains name = true

theorem Playbook.keepsPrograms (programRules : List (Rule (Except LaunchProblem Child)))
    (browserRules : List (Rule BrowserReply)) (start : Nat) :
    (outside programRules browserRules start).KeepsPrograms := by
  have heffect : ∀ {α : Type} (r : Rule α) argv place s name,
      s.installed.contains name = true →
        (r.effect argv place s).installed.contains name = true := by
    intro α r argv place s name h
    unfold Rule.effect
    dsimp only
    split <;> simp_all
  have hreply : ∀ {α : Type} rules (standard : α) before argv place s name,
      s.installed.contains name = true →
        ((reply rules standard before argv).effect place s).installed.contains name = true := by
    intro α rules standard before argv place s name h
    unfold reply
    split
    · exact heffect _ _ _ _ _ h
    · exact h
  intro effect hdoes place s name h
  cases hdoes <;> exact hreply _ _ _ _ _ _ _ h

namespace Run

/-! ## What a test never starts -/

/-- What the command of a test may start with. -/
def testWords : List Text := "close" :: "screenshot" :: Performer.stepWords

/-- Is it a command of a test? -/
def IsTestCall (call : BrowserCall) : Prop := ∃ word ∈ testWords, call.args.head? = some word

theorem isTestCall_of_isStepCall {call : BrowserCall} (h : Performer.IsStepCall call) :
    IsTestCall call := by
  obtain ⟨word, hword, hhead⟩ := h
  exact ⟨word, by simp [testWords, hword], hhead⟩

theorem isTestCall_openCall (s : Session) (url : Text) (headless : Bool) :
    IsTestCall (s.openCall url headless) := by
  refine ⟨"open", by simp [testWords, Performer.stepWords], ?_⟩
  cases headless <;> rfl

theorem isTestCall_closeCall : IsTestCall Session.closeCall := ⟨"close", by simp [testWords], rfl⟩

theorem isTestCall_screenshotCall (p : Performer) (path : Path) :
    IsTestCall (screenshotCall p path) := ⟨"screenshot", by simp [testWords], rfl⟩

theorem isTestCall_of_opening {s : Session} {url : Text} {headless : Bool} {es : List Exchange}
    {answer : Except Fault CommandResult} (h : s.Opening url headless es answer) :
    ∀ e ∈ es, IsTestCall e.call := by
  have hopen := isTestCall_openCall s url headless
  have hclose := isTestCall_closeCall
  cases h <;> simp [hopen, hclose]

section

variable {g : Gateway} {options : Options} {outside : Outside} {m m' : Machine}

theorem Tour.isTestCall {feature : Feature} {said : List Exchange} {report : FeatureReport}
    (h : Tour g feature options outside m said report m') : ∀ e ∈ said, IsTestCall e.call := by
  have hclose := isTestCall_closeCall
  intro e he
  cases h with
  | unopened hopening =>
    rcases List.mem_append.mp he with he | he
    · exact isTestCall_of_opening hopening e he
    · rw [List.mem_singleton.mp he]; exact hclose
  | opened hopening _ _ hperformed hshots =>
    rcases List.mem_append.mp he with he | he
    · rcases List.mem_append.mp he with he | he
      · exact isTestCall_of_opening hopening e he
      rcases List.mem_append.mp he with he | he
      · exact isTestCall_of_isStepCall (hperformed.isStepCall e he)
      · rcases hshots with rfl | ⟨path, answer, rfl⟩
        · simp at he
        · rw [List.mem_singleton.mp he]; exact isTestCall_screenshotCall _ path
    · rw [List.mem_singleton.mp he]; exact hclose

/-- The call of a test's command is none of the installation: those have another word there. -/
theorem not_installs_of_isTestCall {call : BrowserCall} (h : IsTestCall call) {c : Call}
    (hshows : g.Shows call c) : ∀ argv ∈ Install.commands g.binary, ¬ Machine.Launches argv c := by
  rintro argv hargv ⟨time, l, rfl, rfl⟩
  cases g with
  | direct binary =>
    obtain ⟨time, hcall⟩ := hshows
    simp at hcall
  | program binary timeout environment =>
    obtain ⟨time, l', hcall, hl⟩ := hshows
    obtain ⟨word, hword, hhead⟩ := h
    obtain ⟨-, rfl⟩ := Call.launch.inj hcall
    -- In both commands of the installation the second word is the same.
    have hsecond : l.argv.tail.head? = some (Text.of "install") := by
      simp only [Install.commands, List.mem_cons, List.not_mem_nil, or_false] at hargv
      rcases hargv with hargv | hargv <;> rw [hargv] <;> rfl
    rw [hl, List.tail_cons, hhead, Option.some.injEq] at hsecond
    exact absurd (hsecond ▸ hword) (by decide)

end

/-! ## One after the other -/

/-- Features that were tested one after the other, with the calls that each test left behind. -/
inductive Tested (g : Gateway) (options : Options) (outside : Outside) :
    Machine → List Feature → List FeatureReport → List History → Machine → Prop where
  | none (m) : Tested g options outside m [] [] [] m
  | next {m m₁ m' feature report trace rest reports traces} :
    (Run.feature g feature options).run outside m = (.ok report, m₁) →
    m₁.calls = m.calls ++ trace → Tested g options outside m₁ rest reports traces m' →
    Tested g options outside m (feature :: rest) (report :: reports) (trace :: traces) m'

variable {g : Gateway} {options : Options} {outside : Outside} {m m' : Machine}

theorem Tested.calls {list : List Feature} {reports : List FeatureReport} {traces : List History}
    (h : Tested g options outside m list reports traces m') :
    m'.calls = m.calls ++ traces.flatten := by
  induction h with
  | none => simp
  | next _ hcalls _ ih => rw [ih, hcalls, List.append_assoc, List.flatten_cons]

theorem Tested.length {list : List Feature} {reports : List FeatureReport} {traces : List History}
    (h : Tested g options outside m list reports traces m') :
    reports.length = list.length := by
  induction h with
  | none => rfl
  | next _ _ _ ih => rw [List.length_cons, ih, List.length_cons]

/-- One test gives no fault, leaves the browser installed, and installs nothing. -/
theorem feature_step (hkeeps : outside.KeepsPrograms)
    (hinstalled : m.installed.contains g.binary = true) (feature : Feature) (options : Options) :
    ∃ report m₁ trace, (Run.feature g feature options).run outside m = (.ok report, m₁) ∧
      m₁.calls = m.calls ++ trace ∧ m₁.installed.contains g.binary = true ∧
      ∀ c ∈ trace, ∀ argv ∈ Install.commands g.binary, ¬ Machine.Launches argv c := by
  obtain ⟨report, said, m₁, hrun, htour, -⟩ := visitFeature_tour g feature options outside m
  rw [← feature_of_installed feature options outside hinstalled] at hrun
  obtain ⟨trace, hcalls, htrace⟩ := htour.talk.calls
  refine ⟨report, m₁, trace, hrun, hcalls, ?_, ?_⟩
  · exact htour.talk.installed (fun effect hdoes place s => hkeeps effect hdoes place s _) hinstalled
  · exact Talk.forall_calls htrace fun e he c hshows =>
      not_installs_of_isTestCall (htour.isTestCall e he) hshows

theorem features_tested (hkeeps : outside.KeepsPrograms) (options : Options) (list : List Feature)
    (hinstalled : m.installed.contains g.binary = true) :
    ∃ reports traces m', (features g options list).run outside m = (.ok reports, m') ∧
      Tested g options outside m list reports traces m' ∧
      ∀ trace ∈ traces, ∀ c ∈ trace, ∀ argv ∈ Install.commands g.binary,
        ¬ Machine.Launches argv c := by
  induction list generalizing m with
  | nil => exact ⟨[], [], m, rfl, .none m, by simp⟩
  | cons feature rest ih =>
    obtain ⟨report, m₁, trace, hrun, hcalls, hinstalled₁, htrace⟩ :=
      feature_step hkeeps hinstalled feature options
    obtain ⟨reports, traces, m', hrest, htested, htraces⟩ := ih hinstalled₁
    refine ⟨report :: reports, trace :: traces, m', ?_, .next hrun hcalls htested, ?_⟩
    · unfold features
      rw [Task.run_bind_ok hrun, Task.run_bind_ok hrest]
      rfl
    · simp only [List.forall_mem_cons]
      exact ⟨htrace, htraces⟩

/-! ## Batches -/

end Run

end Acceptance
