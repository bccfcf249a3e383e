import Acceptance.Feature.Basic
import Acceptance.Proofs.Cutting
import Acceptance.Proofs.Performer
import Acceptance.Run.Options

/-! # Texts fit for commands

What is read from a step has no quotes in it and no blanks around it, in whatever order the step was
trimmed, stripped of quotes and cut. The inputs that are read from it are not empty, and the name of
an element is empty only if nothing but a verb and quotes was said. -/

namespace Acceptance

/-! ## Trimmed texts -/

namespace Text

variable {t : Text} {c : CodePoint}

theorem trim_prefix_trimLeft (t : Text) : trim t <+: trimLeft t := List.rdropWhile_prefix _ _

theorem mem_of_mem_trim (h : c ∈ trim t) : c ∈ t :=
  (List.dropWhile_suffix _).subset ((trim_prefix_trimLeft t).subset h)

theorem not_isBlank_of_head?_trim : ∀ c ∈ (trim t).head?, c.isBlank = false := by
  intro c hc
  obtain ⟨more, hmore⟩ := List.head?_eq_some_iff.mp hc
  obtain ⟨rest, hrest⟩ := trim_prefix_trimLeft t
  have hhead := List.head?_dropWhile_not CodePoint.isBlank t
  have hleft : t.dropWhile CodePoint.isBlank = c :: (more ++ rest) := by
    rw [← List.cons_append, ← hmore, hrest]
    rfl
  rwa [hleft] at hhead

theorem not_isBlank_of_getLast?_trim : ∀ c ∈ (trim t).getLast?, c.isBlank = false := by
  intro c hc
  obtain ⟨hne, rfl⟩ := List.mem_getLast?_eq_getLast hc
  have hstays : ¬ ((trim t).getLast hne).isBlank = true :=
    List.rdropWhile_last_not CodePoint.isBlank (trimLeft t) hne
  simpa using hstays

theorem trimLeft_of_head (hhead : ∀ c ∈ t.head?, c.isBlank = false) : trimLeft t = t := by
  cases t with
  | nil => rfl
  | cons c rest => exact trimLeftWhere_cons (hhead c rfl) rest

theorem trim_of_ends (hhead : ∀ c ∈ t.head?, c.isBlank = false)
    (hlast : ∀ c ∈ t.getLast?, c.isBlank = false) : trim t = t := by
  refine trim_eq_self_iff.mpr ⟨trimLeft_of_head hhead,
    List.rdropWhile_eq_self_iff.mpr fun hne => ?_⟩
  simp [hlast _ (List.getLast?_eq_some_getLast hne)]

/-- Not all of a text is trimmed away if it does not begin with a blank. -/
theorem trim_ne_nil (hne : t ≠ []) (hhead : ∀ c ∈ t.head?, c.isBlank = false) : trim t ≠ [] := by
  obtain ⟨c, rest, rfl⟩ := List.exists_cons_of_ne_nil hne
  intro hnil
  rw [trim, trimLeft_of_head hhead] at hnil
  have hblank := List.rdropWhile_eq_nil_iff.mp hnil c (by simp)
  simp [hhead c rfl] at hblank

end Text

namespace Step

variable {step t : Text} {data : Option Input} {i found : Input}

/-! ## Tidy texts -/

/-- There are no quotes of any kind in the text and no blanks around it. -/
structure IsTidy (t : Text) : Prop where
  unquoted : ∀ c ∈ t, c ∉ quoteMarks
  head : ∀ c ∈ t.head?, c.isBlank = false
  last : ∀ c ∈ t.getLast?, c.isBlank = false

theorem isTidy_trim (h : ∀ c ∈ t, c ∉ quoteMarks) : IsTidy (Text.trim t) where
  unquoted c hc := h c (Text.mem_of_mem_trim hc)
  head := Text.not_isBlank_of_head?_trim
  last := Text.not_isBlank_of_getLast?_trim

theorem isTidy_withoutQuotes (t : Text) : IsTidy (withoutQuotes t) :=
  isTidy_trim fun c hc => by simpa using (List.mem_filter.mp hc).2

theorem IsTidy.trim_eq (h : IsTidy t) : Text.trim t = t := Text.trim_of_ends h.head h.last

theorem IsTidy.withoutQuotes_eq (h : IsTidy t) : withoutQuotes t = t := by
  rcases eq_or_ne t [] with rfl | hne
  · rfl
  · exact Step.withoutQuotes_eq ⟨hne, h.trim_eq, h.unquoted⟩

theorem withoutQuotes_withoutQuotes (t : Text) :
    withoutQuotes (withoutQuotes t) = withoutQuotes t :=
  (isTidy_withoutQuotes t).withoutQuotes_eq

/-! ## Targets -/

theorem isTidy_cleanTarget (step : Text) : IsTidy (cleanTarget step) := isTidy_withoutQuotes _

theorem isTidy_verifyTarget (step : Text) : IsTidy (verifyTarget step) := isTidy_withoutQuotes _

theorem isTidy_clickTarget (step : Text) : IsTidy (clickTarget step) := by
  have hclean := isTidy_cleanTarget step
  rcases clickTarget_cases step with ⟨rest, spelled, hends, hcut⟩ | ⟨-, hkept⟩
  · rw [hcut]
    refine isTidy_trim fun c hc => hclean.unquoted c ?_
    rw [hends.eq_append]
    exact List.mem_append_left _ hc
  · rwa [hkept]

/-- Cutting off the word for the kind of an element leaves something of its name. -/
theorem clickTarget_eq_nil_iff (step : Text) : clickTarget step = [] ↔ cleanTarget step = [] := by
  rcases clickTarget_cases step with ⟨rest, spelled, hends, hcut⟩ | ⟨-, hkept⟩
  · have hhead : ∀ c ∈ rest.head?, c.isBlank = false := by
      intro c hc
      refine (isTidy_cleanTarget step).head c ?_
      rw [hends.eq_append, List.head?_append, Option.mem_def.mp hc]
      rfl
    have hname : clickTarget step ≠ [] := hcut ▸ Text.trim_ne_nil hends.behind hhead
    have hclean : cleanTarget step ≠ [] := by simp [hends.eq_append, hends.behind]
    exact iff_of_false hname hclean
  · rw [hkept]

end Step

/-! ## Inputs -/

/-- Field and value are tidy, and neither of them is empty. -/
structure Input.IsTidy (i : Input) : Prop where
  field : Step.IsTidy i.field
  value : Step.IsTidy i.value
  field_ne_nil : i.field ≠ []
  value_ne_nil : i.value ≠ []

namespace Step

variable {step : Text} {data : Option Input} {i found : Input}

theorem isTidy_of_cleaned? (h : cleaned? i = some found) : found.IsTidy := by
  unfold cleaned? at h
  dsimp only at h
  split at h
  · exact absurd h (by simp)
  next hsome =>
    obtain rfl := Option.some.inj h
    simp only [Bool.or_eq_true, List.isEmpty_iff, not_or] at hsome
    exact ⟨isTidy_withoutQuotes _, isTidy_withoutQuotes _, hsome.1, hsome.2⟩

theorem isTidy_fallbackInput : fallbackInput.IsTidy where
  field := ⟨by decide, by decide, by decide⟩
  value := ⟨by decide, by decide, by decide⟩
  field_ne_nil := by decide
  value_ne_nil := by decide

theorem isTidy_input (step : Text) (hdata : ∀ i ∈ data, i.IsTidy) : (input step data).IsTidy := by
  unfold input
  generalize hsaid : List.findSome? _ _ = said
  cases said with
  | some found =>
    obtain ⟨search, -, hfound⟩ := List.exists_of_findSome?_eq_some hsaid
    obtain ⟨i, -, hcleaned⟩ := Option.bind_eq_some_iff.mp hfound
    exact isTidy_of_cleaned? hcleaned
  | none =>
    cases data with
    | some i => exact hdata i rfl
    | none => exact isTidy_fallbackInput

end Step

/-! ## Commands -/

structure Credentials.IsComplete (c : Credentials) : Prop where
  studentIdField : c.studentIdField ≠ []
  studentId : c.studentId ≠ []
  passwordField : c.passwordField ≠ []
  password : c.password ≠ []
  submitButton : c.submitButton ≠ []

instance (c : Credentials) : Decidable c.IsComplete :=
  decidable_of_iff (c.studentIdField ≠ [] ∧ c.studentId ≠ [] ∧ c.passwordField ≠ [] ∧
    c.password ≠ [] ∧ c.submitButton ≠ [])
    ⟨fun h => ⟨h.1, h.2.1, h.2.2.1, h.2.2.2.1, h.2.2.2.2⟩,
      fun h => ⟨h.studentIdField, h.studentId, h.passwordField, h.password, h.submitButton⟩⟩

/-- A blank text in the settings counts for nothing. -/
theorem Settings.gives_text {outside : Outside} (keys : List Text) {standard : Text}
    (hstandard : standard ≠ []) : (text keys standard).Gives outside (· ≠ []) := by
  unfold text
  refine Task.gives_bind (Task.gives_true _) fun found _ => ?_
  split
  next t =>
    refine Task.gives_pure ?_
    split
    · exact hstandard
    next hblank =>
      rintro rfl
      exact hblank rfl
  next => exact Task.gives_pure hstandard

namespace Options

variable {outside : Outside}

theorem gives_credentialsOf : credentialsOf.Gives outside Credentials.IsComplete := by
  unfold credentialsOf
  refine Task.gives_bind (Settings.gives_text _ (by decide))
    fun studentIdField hstudentIdField => ?_
  refine Task.gives_bind (Settings.gives_text _ (by decide)) fun studentId hstudentId => ?_
  refine Task.gives_bind (Settings.gives_text _ (by decide)) fun passwordField hpasswordField => ?_
  refine Task.gives_bind (Settings.gives_text _ (by decide)) fun password hpassword => ?_
  refine Task.gives_bind (Settings.gives_text _ (by decide)) fun submitButton hsubmitButton => ?_
  exact Task.gives_pure
    ⟨hstudentIdField, hstudentId, hpasswordField, hpassword, hsubmitButton⟩

theorem gives_load (given : Given) :
    (load given).Gives outside fun options => options.credentials.IsComplete := by
  unfold load
  refine Task.gives_bind (Task.gives_true _) fun baseUrl _ => ?_
  refine Task.gives_bind (Task.gives_true _) fun headless _ => ?_
  refine Task.gives_bind (Task.gives_true _) fun timeout _ => ?_
  refine Task.gives_bind (Task.gives_true _) fun routes _ => ?_
  refine Task.gives_bind gives_credentialsOf fun credentials hcredentials => ?_
  refine Task.gives_bind (Task.gives_true _) fun screenshots _ => ?_
  refine Task.gives_bind (Task.gives_true _) fun settle _ => ?_
  refine Task.gives_bind (Task.gives_true _) fun fillSettle _ => ?_
  refine Task.gives_bind (Task.gives_true _) fun verifySettle _ => ?_
  refine Task.gives_bind (Task.gives_true _) fun defaultWait _ => ?_
  exact Task.gives_bind (Task.gives_true _) fun binary _ => Task.gives_pure hcredentials

end Options

namespace Performer

variable {p : Performer} {step : Text} {data : Option Input}

/-- A command of a step that is made from nothing empty: an element that is clicked has a name, and
so has a field that is filled, with something. -/
abbrev Named (p : Performer) : BrowserCall → Prop :=
  p.Command (· ≠ []) fun field value => field ≠ [] ∧ value ≠ []

theorem mayLogIn_of_isComplete (h : p.credentials.IsComplete) :
    p.MayLogIn (· ≠ []) fun field value => field ≠ [] ∧ value ≠ [] :=
  ⟨⟨h.studentIdField, h.studentId⟩, ⟨h.passwordField, h.password⟩, h.submitButton⟩

theorem tells_named (outside : Outside) (hinput : (Step.input step data).IsTidy)
    (hclick : Step.classify step = .click → Step.cleanTarget step ≠ [])
    (haccount : Step.classify step = .login ∨ Step.isCredentials step = true →
      p.credentials.IsComplete) :
    (p.perform step data).Leaves outside (Tells p.gateway outside p.Named) := by
  have hname : Step.classify step = .click → Step.clickTarget step ≠ [] := fun hkind =>
    mt (Step.clickTarget_eq_nil_iff step).mp (hclick hkind)
  have hspeaks := speaksOf_perform hname ⟨hinput.field_ne_nil, hinput.value_ne_nil⟩
    fun hkind => mayLogIn_of_isComplete (haccount hkind)
  exact hspeaks.tells outside

/-- What is read from a step has no quotes in it and no blanks around it, and taking quotes away
twice is taking them away once. The name of an element is empty only if the target is, and in a
feature without data neither field nor value is ever empty. So no command of a step is made from an
empty field or value, and none from an empty name unless a click step has no target. What a step
needs of the account is not empty either, in the options of a run. -/
theorem extracts_tidy (feature : Feature) (hdata : feature.testData = none) (step : Text) :
    (∀ t ∈ [Step.cleanTarget step, Step.clickTarget step, Step.verifyTarget step,
      (Step.input step feature.testData).field, (Step.input step feature.testData).value],
        Step.IsTidy t) ∧
    (∀ t, Step.withoutQuotes (Step.withoutQuotes t) = Step.withoutQuotes t) ∧
    (Step.clickTarget step = [] ↔ Step.cleanTarget step = []) ∧
    (Step.input step feature.testData).field ≠ [] ∧
    (Step.input step feature.testData).value ≠ [] ∧
    (∀ (p : Performer) (outside : Outside),
      (Step.classify step = .click → Step.cleanTarget step ≠ []) →
      (Step.classify step = .login ∨ Step.isCredentials step = true →
        p.credentials.IsComplete) →
      (p.perform step feature.testData).Leaves outside (Tells p.gateway outside p.Named)) ∧
    ∀ given outside,
      (Options.load given).Gives outside fun options => options.credentials.IsComplete := by
  have hinput : (Step.input step feature.testData).IsTidy :=
    Step.isTidy_input step (by simp [hdata])
  refine ⟨?_, Step.withoutQuotes_withoutQuotes, Step.clickTarget_eq_nil_iff step,
    hinput.field_ne_nil, hinput.value_ne_nil, fun p outside => tells_named outside hinput,
    fun given outside => Options.gives_load given⟩
  simp only [List.forall_mem_cons]
  exact ⟨Step.isTidy_cleanTarget step, Step.isTidy_clickTarget step,
    Step.isTidy_verifyTarget step, hinput.field, hinput.value, by simp⟩

def plainFeature : Feature :=
  { id := "f", description := "d", steps := [], passes := false, testData := none
    priority := "medium", category := "functional" }

/-- Blanks are left over between the quotes and before the word for the kind of the element, and a
field of quotes alone is passed over. -/
theorem extracts_tidy_quoted :
    let step : Text := "点击 「　OK 」按钮"
    plainFeature.testData = none ∧ Step.cleanTarget step ≠ [] ∧
      Step.IsTidy (Step.clickTarget step) ∧ Step.clickTarget step = "OK" ∧
      usual.credentials.IsComplete ∧
      (usual.perform step none).Leaves (telling fun _ => [])
        (Tells usual.gateway (telling fun _ => []) usual.Named) ∧
      (Step.input "输入 「」 a" plainFeature.testData).field ≠ [] := by
  intro step
  have hclean : Step.cleanTarget step ≠ [] := by decide +kernel
  have hcomplete : usual.credentials.IsComplete := by decide
  obtain ⟨htidy, -, -, -, -, hnamed, -⟩ := extracts_tidy plainFeature rfl step
  obtain ⟨-, -, -, hfield, -⟩ := extracts_tidy plainFeature rfl "输入 「」 a"
  exact ⟨rfl, hclean, htidy _ (by simp), by decide +kernel, hcomplete,
    hnamed usual _ (fun _ => hclean) fun _ => hcomplete, hfield⟩

end Performer

end Acceptance
