import Acceptance.Proofs.Invocation

/-! # New projects

A project that was made starts with an empty record, and what is made beside it leaves the project
file alone. -/

namespace Acceptance

variable {outside : Outside} {place : Place} {m m' : Machine}

/-! ## Where a project is made -/

namespace Init

/-- Where the root of a new project is. -/
def rootOf (directory : Option Text) : Task Path := do
  let given ← CommandLine.givenRoot directory
  let root ← rootOr given
  Task.resolvePath root

theorem asks_givenRoot (directory : Option Text) : (CommandLine.givenRoot directory).Asks := by
  unfold CommandLine.givenRoot
  split
  · exact Task.asks_pure _
  · exact Task.asks_pure _
  · exact Task.asks_bind (Task.asks_expandHome _) fun _ => Task.asks_pure _

theorem asks_rootOr (root : Option Path) : (rootOr root).Asks := by
  cases root with
  | none => exact Layout.asks_projectDirectory
  | some root => exact Task.asks_pure _

theorem asks_resolvePath (p : Path) : (Task.resolvePath p).Asks := by
  apply Task.asks_ite (Task.asks_fail _)
  apply Task.asks_read
  intro m m' h
  simp only [Machine.setting, Setting.mk.injEq] at h
  rw [h.1]

theorem asks_rootOf (directory : Option Text) : (rootOf directory).Asks := by
  refine Task.asks_bind (asks_givenRoot directory) fun given => ?_
  exact Task.asks_bind (asks_rootOr given) asks_resolvePath

end Init

/-- If the root of the new project is known on the machine, its project file is at the place. -/
def Machine.MakesProjectAt (m : Machine) (directory : Option Text) (place : Place) : Prop :=
  ∀ outside p, ((Init.rootOf directory).run outside m).1 = .ok p →
    Place.ofPath m.directory (Layout.featuresFileOf p) = place

theorem Machine.MakesProjectAt.of_setting {directory : Option Text}
    (h : m.MakesProjectAt directory place) (hsetting : m'.setting = m.setting) :
    m'.MakesProjectAt directory place := by
  intro outside p hp
  rw [(Init.asks_rootOf directory).run outside hsetting] at hp
  have hdirectory : m'.directory = m.directory := congrArg Setting.directory hsetting
  rw [hdirectory]
  exact h outside p hp

/-! ## What is made beside the project file -/

theorem FileTree.spares_makeExecutable {files files' : FileTree} {directory : Place} {path : Path}
    (hne : Place.ofPath directory path ≠ place)
    (h : files.makeExecutable directory path = .ok files') : Spares place files files' := by
  unfold makeExecutable at h
  cases hlocate : files.locate directory path with
  | error problem => simp [hlocate, bind, Except.bind] at h
  | ok other =>
    obtain rfl := locate_eq_ok hlocate
    simp only [hlocate, bind, Except.bind] at h
    split at h
    next content executable hnode =>
      rw [← Except.ok.inj h]
      exact spares_put hne (by rw [hnode]; simp)
    next =>
      rw [← Except.ok.inj h]
      exact refl_of (Spares place) files
    next => exact absurd h (by simp)

theorem Task.spares_makeExecutable {p : Path} (h : Place.ofPath m.directory p ≠ place) :
    m.Spares place ((makeExecutable p).run outside m).2 := by
  unfold makeExecutable
  rcases run_changeFiles outside m p (fun files directory => files.makeExecutable directory p)
    with ⟨fault, hfault⟩ | ⟨files, -, hfiles, hrun⟩
  · rw [hfault]
    exact refl_of (Machine.Spares place) m
  · rw [hrun]
    exact ⟨rfl, FileTree.spares_makeExecutable h hfiles⟩

theorem Layout.spares_ensureAll (list : List Path) :
    (ensureAll list).Leaves outside (Machine.Spares place) := by
  induction list with
  | nil => exact Task.leaves_pure _
  | cons p rest ih => exact Task.leaves_bind (Task.spares_ensureDirectory p) fun _ => ih

namespace Init

theorem spares_writeGuides (hplace : place.EndsAsProject) (root : Path) (name type : Text) :
    (writeGuides root name type).Leaves outside (Machine.Spares place) := by
  have hchild : ∀ {t : Text}, Place.IsName t → t ≠ Text.of "features.json" →
      ∀ (p : Path) (written : Text),
        (Task.writeText (p.child t) written).Leaves outside (Machine.Spares place) := by
    intro t ht hne p written m
    exact Task.spares_writeText (hplace.ne_child ht hne m.directory p)
  have hscript : Place.IsName "init.sh" := Place.isName_of_plain (by decide)
  refine Task.leaves_bind Layout.asks_now.leaves fun today => ?_
  refine Task.leaves_bind (hchild (Place.isName_of_plain (by decide)) (by decide)
    (Layout.agentDirectoryOf root) _) fun _ => ?_
  refine Task.leaves_bind (hchild hscript (by decide) root _) fun _ => ?_
  refine Task.leaves_bind (fun m => Task.spares_makeExecutable
    (hplace.ne_child hscript (by decide) m.directory root)) fun _ => ?_
  refine Task.leaves_bind (Task.spares_ensureDirectory _) fun _ => ?_
  refine Task.leaves_bind (hchild (Place.isName_of_plain (by decide)) (by decide)
    (root.child ".claude") _) fun _ => ?_
  exact hchild (Place.isName_of_plain (by decide)) (by decide) root _

theorem spares_runAll (houtside : outside.Spares place) (directory : Text)
    (list : List (List Text)) : (runAll directory list).Leaves outside (Machine.Spares place) := by
  induction list with
  | nil => exact Task.leaves_pure _
  | cons argv rest ih =>
    exact Task.leaves_bind (Task.leaves_runChecked (Machine.admits_spares houtside) _ _) fun _ => ih

theorem spares_startVersionControl (houtside : outside.Spares place) (root : Path) :
    (startVersionControl root).Leaves outside (Machine.Spares place) := by
  have htool : (Task.requireTool "git").Leaves outside (Machine.Spares place) := by
    refine Task.leaves_bind (Task.leaves_read _) fun path => ?_
    split
    · exact Task.leaves_pure _
    · exact Task.leaves_fail _
  refine Task.leaves_bind (Task.leaves_attempt (Task.leaves_bind htool fun _ =>
    spares_runAll houtside _ _)) fun result => ?_
  split
  · exact Task.leaves_pure _
  · exact Task.leaves_pure _
  · exact Task.leaves_pure _
  · exact Task.leaves_fail _

end Init

/-! ## The project file -/

theorem Init.encodes_type {type : Text} (h : type ∈ types) : Text.Encodes type := by
  unfold types at h
  simp only [List.mem_cons, List.not_mem_nil, or_false] at h
  rcases h with rfl | rfl | rfl | rfl <;> exact Text.encodes_of_all rfl

namespace Project

theorem encodes_idOf (name : Text) : Text.Encodes (idOf name) := by
  intro c hc
  unfold idOf at hc
  obtain ⟨d, -, rfl⟩ := List.mem_map.mp hc
  split
  next hid =>
    unfold isIdChar at hid
    simp only [Bool.or_eq_true, Bool.and_eq_true, decide_eq_true_eq] at hid
    unfold CodePoint.isSurrogate
    rcases hid with (⟨-, hle⟩ | hdigit) | rfl
    · simp
      omega
    · unfold CodePoint.isAsciiDigit at hdigit
      simp at hdigit ⊢
      omega
    · rfl
  next => rfl

theorem encodes_of_newData {name type : Text} {now : Instant} {document : Text}
    (hwrite : Json.write (newData name type now) = .ok document)
    (hdocument : Text.Encodes document) : Text.Encodes name := by
  refine Json.encodes_of_write hwrite hdocument ?_
  exact .under (e := ("project_name", .text name)) (by simp [Key.isText]) (by simp) .text

/-- What a new project file holds: the record is empty. -/
theorem stored_newData {name type : Text} {now : Instant} {document : Text}
    (htype : type ∈ Init.types) (hwrite : Json.write (newData name type now) = .ok document)
    (hdocument : Text.Encodes document) :
    ∃ data, newData name type now = .object data ∧ Stored [] [] data := by
  have hname := encodes_of_newData hwrite hdocument
  have htype := Init.encodes_type htype
  obtain ⟨tally, htally, hkept⟩ : ∃ tally, Tally.ofEntries [] = .ok tally ∧
      Json.Kept 3 tally.toValue := Tally.ofEntries_spec (by simp)
  obtain rfl : emptyTally = tally := Except.ok.inj htally
  refine ⟨_, rfl, ?_, Json.writable_of_write hwrite, rfl, Lists.nil, emptyTally, _, htally, rfl, rfl⟩
  refine Json.kept_record rfl fun f hf => ?_
  simp only [List.mem_cons, List.not_mem_nil, or_false] at hf
  rcases hf with rfl | rfl | rfl | rfl | rfl | rfl | rfl | rfl | rfl
  · exact Text.encodes_of_all rfl
  · exact encodes_idOf name
  · exact hname
  · exact htype
  · exact Instant.encodes_toText now
  · exact Instant.encodes_toText now
  · exact Json.kept_list.mpr (by simp)
  · exact hkept
  · exact Json.kept_list.mpr (by simp)

end Project

/-- The project file of a new project holds an empty record once it is written. -/
theorem Init.records_writeDocument {name type : Text} {now : Instant} {p : Path}
    (htype : type ∈ types) (hplace : Place.ofPath m.directory p = place)
    (hrun : (Project.writeDocument p (Project.newData name type now)).run outside m = (.ok (), m')) :
    m'.setting = m.setting ∧ m'.Records place [] := by
  cases hwrite : Json.write (Project.newData name type now) with
  | error cause =>
    unfold Project.writeDocument at hrun
    rw [hwrite] at hrun
    exact absurd (Prod.mk.inj hrun).1 (by simp)
  | ok document =>
    rcases Project.run_writeDocument outside m p hwrite with
      ⟨fault, hfault⟩ | ⟨hnode, executable, ⟨hencodes, hwritten⟩ | ⟨-, fault, hfault⟩⟩
    · rw [hfault] at hrun
      exact absurd (Prod.mk.inj hrun).1 (by simp)
    · rw [hwritten] at hrun
      obtain rfl := (Prod.mk.inj hrun).2
      obtain ⟨data, hdata, hstored⟩ := Project.stored_newData htype hwrite hencodes
      rw [hdata] at hwrite
      rw [hplace] at hnode ⊢
      exact ⟨rfl, [], data, document, executable, hstored, hwrite,
        Machine.get?_withFile hnode _ _⟩
    · rw [hfault] at hrun
      exact absurd (Prod.mk.inj hrun).1 (by simp)

namespace Init

/-- A project that was made has an empty record. -/
theorem records_run (houtside : outside.Spares place) {name : Option Text} {type : Text}
    {root : Option Path} {r : Result}
    (hat : ∀ p, ((rootOr root >>= Task.resolvePath).run outside m).1 = .ok p →
      Place.ofPath m.directory (Layout.featuresFileOf p) = place)
    (hrun : (run name type root).run outside m = (.ok r, m')) :
    m'.setting = m.setting ∧ m'.Records place [] ∧ place.EndsAsProject := by
  have hfile : Place.IsName "features.json" := Place.isName_of_plain (by decide)
  unfold run at hrun
  split at hrun
  next => exact absurd (Prod.mk.inj hrun).1 (by simp)
  next htypes =>
  have htype : type ∈ types := by simpa using htypes
  obtain ⟨p, m₁, hroot, hrun⟩ := Task.run_bind_eq_ok hrun
  obtain ⟨q, m₂, hresolve, hrun⟩ := Task.run_bind_eq_ok hrun
  have hplace : Place.ofPath m.directory (Layout.featuresFileOf q) = place := by
    refine hat q ?_
    rw [Task.run_bind_ok hroot, hresolve]
  have hends : place.EndsAsProject := Place.endsAsProject_child hfile m.directory _ hplace
  have h₁ : m.Spares place m₁ := (asks_rootOr root).leaves.of_run hroot
  have h₂ : m₁.Spares place m₂ := (asks_resolvePath p).leaves.of_run hresolve
  obtain ⟨isThere, m₃, hexists, hrun⟩ := Task.run_bind_eq_ok hrun
  have h₃ : m₂.Spares place m₃ := (Task.leaves_pathExists _).of_run hexists
  split at hrun
  next => exact absurd (Prod.mk.inj hrun).1 (by simp)
  next =>
  obtain ⟨u₄, m₄, hensure, hrun⟩ := Task.run_bind_eq_ok hrun
  have h₄ : m₃.Spares place m₄ := (Task.spares_ensureDirectory _).of_run hensure
  obtain ⟨agent, m₅, hagent, hrun⟩ := Task.run_bind_eq_ok hrun
  have h₅ : m₄.Spares place m₅ := (Task.leaves_bind (Layout.spares_ensureAll _) fun _ =>
    Task.leaves_pure _).of_run hagent
  obtain ⟨now, m₆, hnow, hrun⟩ := Task.run_bind_eq_ok hrun
  have h₆ : m₅.Spares place m₆ := Layout.asks_now.leaves.of_run hnow
  obtain ⟨u₇, m₇, hwritten, hrun⟩ := Task.run_bind_eq_ok hrun
  obtain ⟨u₈, m₈, hguides, hrun⟩ := Task.run_bind_eq_ok hrun
  have h₈ : m₇.Spares place m₈ := (spares_writeGuides hends _ _ _).of_run hguides
  obtain ⟨started, m₉, hversion, hrun⟩ := Task.run_bind_eq_ok hrun
  have h₉ : m₈.Spares place m₉ := (spares_startVersionControl houtside _).of_run hversion
  obtain rfl : m₉ = m' := (Prod.mk.inj hrun).2
  have hsetting : m₆.setting = m.setting := by
    rw [h₆.setting, h₅.setting, h₄.setting, h₃.setting, h₂.setting, h₁.setting]
  have hdirectory : m₆.directory = m.directory := congrArg Setting.directory hsetting
  rw [← hdirectory] at hplace
  obtain ⟨hsetting₇, hrecords⟩ := records_writeDocument htype hplace hwritten
  exact ⟨by rw [h₉.setting, h₈.setting, hsetting₇, hsetting],
    (hrecords.of_spares h₈).of_spares h₉, hends⟩

end Init

/-! ## The command -/

namespace CommandLine

theorem onlyErrors_initError (type : Text) : OnlyErrors (initError? type) := by
  intro fault e he
  cases fault <;> simp only [initError?, Option.some.injEq, reduceCtorEq] at he <;> rw [← he] <;>
    rfl

theorem records_runInit (houtside : outside.Spares place) {name directory : Option Text}
    {type : Text} (hat : m.MakesProjectAt directory place)
    (hrun : (runInit name type directory).run outside m = (.ok 0, m')) :
    m'.Records place [] ∧ place.EndsAsProject := by
  obtain ⟨root, m₁, hgiven, hrun⟩ := Task.run_bind_eq_ok hrun
  have hspares : m.Spares place m₁ := (Init.asks_givenRoot directory).leaves.of_run hgiven
  have hsetting := hspares.setting
  have hdirectory : m₁.directory = m.directory := congrArg Setting.directory hsetting
  have hroot : ∀ p, ((Init.rootOr root >>= Task.resolvePath).run outside m₁).1 = .ok p →
      Place.ofPath m₁.directory (Layout.featuresFileOf p) = place := by
    intro p hp
    rw [hdirectory]
    refine hat outside p ?_
    unfold Init.rootOf
    rw [Task.run_bind_ok hgiven]
    exact hp
  rcases hinit : (Init.run name type root).run outside m₁ with ⟨fault | r, m₂⟩
  · rw [run_answer_error _ hinit] at hrun
    exact absurd (congrArg Prod.fst hrun) (refuse_ne (onlyErrors_initError type) fault m₂)
  · obtain ⟨-, hrecords, hends⟩ := Init.records_run houtside hroot hinit
    rw [run_answer_ok _ _ hinit, Task.run_pure_bind] at hrun
    exact ⟨hrecords.of_spares ((spares_emit _).of_run hrun), hends⟩

/-- A command line that makes a project leaves an empty record. -/
theorem records_run_init (houtside : outside.Spares place) {args : List Text}
    {name directory : Option Text} {type : Text}
    (hcommand : command? args = some (.init name type directory))
    (hat : m.MakesProjectAt directory place) (hrun : (run args).run outside m = (.ok 0, m')) :
    m'.Records place [] ∧ place.EndsAsProject := by
  rcases run_eq args with ⟨hnone, -⟩ | ⟨c, shown, level, hc, heq⟩
  · rw [hnone] at hcommand
    exact absurd hcommand (by simp)
  obtain rfl : c = .init name type directory := Option.some.inj (hc.symm.trans hcommand)
  rw [heq] at hrun
  rcases hlog : (LogLevel.configure level).run outside m with ⟨fault | u, m₁⟩
  · rw [run_prepared_error _ hlog] at hrun
    exact absurd (congrArg Prod.fst hrun) (refuse_ne (onlyErrors_logError shown level) fault m₁)
  · have hspares : m.Spares place m₁ := (LogLevel.spares_configure level).of_run hlog
    rw [run_prepared_ok _ _ hlog] at hrun
    exact records_runInit houtside (hat.of_setting hspares.setting) hrun

end CommandLine

end Acceptance
