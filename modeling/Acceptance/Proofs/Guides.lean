import Acceptance.Proofs.Below
import Acceptance.Proofs.NewProject

/-! # Beside the project file

Notes, a script, a guide and a specification are made beside the file of a new project. Nothing can
go wrong there but that a directory is in the place of a file, or a file in the place of a
directory: the texts can be encoded if the name of the project can, and the paths are no longer
than that of the project file. -/

namespace Acceptance

variable {outside : Outside} {place q : Place} {m m' : Machine} {p root : Path} {t written : Text}

/-! ## Single files -/

namespace Task

/-- A text is in its file once it is written, unless a directory is there. -/
theorem run_writeText_child (outside : Outside) (hleads : m.files.LeadsTo m.directory p place)
    (ht : Place.IsName t) (hshort : FileTree.byteLength t ≤ FileTree.longestName)
    (husable : (p.child t).Usable) (hencodes : Text.Encodes written) :
    (m.files.get? (place ++ [t]) = some .directory ∧ (writeText (p.child t) written).run outside m =
      (.error (.file .isADirectory (p.child t).toText), m)) ∨
    m.files.get? (place ++ [t]) ≠ some .directory ∧ ∃ content executable,
      (writeText (p.child t) written).run outside m =
        (.ok (), m.withFile (place ++ [t]) content executable) := by
  have hlocate := hleads.locate ht hshort husable
  by_cases hnode : m.files.get? (place ++ [t]) = some .directory
  · left
    refine ⟨hnode, ?_⟩
    have hwrite : m.files.write m.directory (p.child t) [] = .error .isADirectory := by
      unfold FileTree.write
      rw [hlocate]
      dsimp only [bind, Except.bind]
      rw [hnode]
    unfold writeText changeFiles onFiles
    rw [run_bind_assoc, run_bind_assoc, run_checkPath_bind, husable.problem]
    dsimp only
    rw [run_bind_assoc, run_read_bind, hwrite]
    rfl
  · obtain ⟨executable, hrun, -⟩ := @run_writeText_of_located outside m (p.child t) written _ _
      husable.problem hlocate hnode (Utf8.encode_of_encodes hencodes)
    exact .inr ⟨hnode, _, executable, hrun⟩

/-- A file that was written is made executable. -/
theorem run_makeExecutable_child (outside : Outside)
    (hleads : m.files.LeadsTo m.directory p place) (ht : Place.IsName t)
    (hshort : FileTree.byteLength t ≤ FileTree.longestName) (husable : (p.child t).Usable)
    (hnode : m.files.get? (place ++ [t]) ≠ some .directory) (content : List UInt8)
    (executable : Bool) :
    (makeExecutable (p.child t)).run outside (m.withFile (place ++ [t]) content executable) =
      (.ok (), m.withFile (place ++ [t]) content true) := by
  have hroot := FileTree.ne_root_of_not_directory hnode
  have hleads' : (m.files.put (place ++ [t]) (.file content executable)).LeadsTo m.directory p
      place := hleads.mono fun _ => FileTree.directory_put hnode
  have hmake : (m.files.put (place ++ [t]) (.file content executable)).makeExecutable m.directory
      (p.child t) = .ok (m.files.put (place ++ [t]) (.file content true)) := by
    unfold FileTree.makeExecutable
    rw [hleads'.locate ht hshort husable]
    dsimp only [bind, Except.bind]
    rw [FileTree.get?_put_self _ _ hroot]
    dsimp only
    rw [FileTree.put_put]
  unfold makeExecutable changeFiles onFiles
  rw [run_bind_assoc, run_checkPath_bind, husable.problem]
  dsimp only
  rw [run_bind_assoc, run_read_bind]
  dsimp only [Machine.withFile]
  rw [hmake]
  rfl

/-- A directory is there once it is made, unless a file is there. -/
theorem run_ensureDirectory_child (outside : Outside) (hleads : m.files.LeadsTo m.directory p place)
    (ht : Place.IsName t) (hshort : FileTree.byteLength t ≤ FileTree.longestName)
    (husable : (p.child t).Usable) :
    (∃ content executable, m.files.get? (place ++ [t]) = some (.file content executable) ∧
      (ensureDirectory (p.child t)).run outside m =
        (.error (.file .alreadyThere (p.child t).toText), m)) ∨
    ∃ files, (ensureDirectory (p.child t)).run outside m = (.ok (), { m with files }) ∧
      m.files.Grown files ∧ files.LeadsTo m.directory (p.child t) (place ++ [t]) ∧
      ∀ q ≠ place ++ [t], files.get? q = m.files.get? q := by
  have hlocate := hleads.locate ht hshort husable
  by_cases hfile : ∃ content executable,
      m.files.get? (place ++ [t]) = some (.file content executable)
  · obtain ⟨content, executable, hfile⟩ := hfile
    exact .inl ⟨content, executable, hfile, run_ensureDirectory outside husable.problem
      (FileTree.ensure_of_file hlocate hfile)⟩
  · obtain ⟨files, hensure, hmade, hothers⟩ := FileTree.ensure_of_located hlocate
      fun content executable h => hfile ⟨content, executable, h⟩
    have hgrown := FileTree.grown_ensure m.files m.directory (p.child t)
    rw [hensure] at hgrown
    exact .inr ⟨files, run_ensureDirectory outside husable.problem hensure, hgrown,
      FileTree.leadsTo_of_locate
        (FileTree.locate_of_directories (fun _ => hgrown.get?) hlocate) hmade, hothers⟩

end Task

/-! ## Beside the project file -/

namespace Init

/-- The files that are made beside the project file, seen from the root. -/
def guides : List Place :=
  [[".agent", "progress.md"], ["init.sh"], [".claude", "CLAUDE.md"], ["app_spec.txt"]]

/-- Something is in the way of a file that is made beside the project file of this root. -/
inductive Obstructed (files : FileTree) (place : Place) : Prop where
  | directory {names : Place} (hnames : names ∈ guides)
      (h : files.get? (place ++ names) = some .directory)
  | file {content : List UInt8} {executable : Bool}
      (h : files.get? (place ++ [Text.of ".claude"]) = some (.file content executable))

/-- The root of a project and the directory of its own files are there, and the system takes the
path of the project file. -/
structure Prepared (m : Machine) (root : Path) (place : Place) : Prop where
  leads : m.files.LeadsTo m.directory root place
  agent : m.files.LeadsTo m.directory (Layout.agentDirectoryOf root) (place ++ [Text.of ".agent"])
  usable : (Layout.featuresFileOf root).Usable

theorem isName_agent : Place.IsName ".agent" := Place.isName_of_plain (by decide)

theorem isName_claude : Place.IsName ".claude" := Place.isName_of_plain (by decide)

theorem usable_guide {root : Path} (h : (Layout.featuresFileOf root).Usable) {names : List Text}
    (hne : names ≠ [])
    (hchars : ∀ c ∈ Text.joinWith "/" names,
      c.val ≠ 0 ∧ (Utf8.isEscape c || !c.isSurrogate) = true)
    (hshort : FileTree.byteLength (Text.joinWith "/" names) ≤ 20) : (root.below names).Usable := by
  have hfile : Layout.featuresFileOf root = root.below [".agent", "features.json"] := by
    rw [Layout.featuresFileOf, Layout.agentDirectoryOf, Path.child_eq_below isName_agent,
      Path.below_child (Place.isName_of_plain (by decide))]
    rfl
  rw [hfile] at h
  exact h.below (by simp) hne hchars hshort

theorem encodes_lines {ls : List Text} (h : ∀ l ∈ ls, Text.Encodes l) :
    Text.Encodes (Templates.lines ls) := by
  intro c hc
  obtain ⟨l, hl, hc⟩ := List.mem_flatMap.mp hc
  exact Text.encodes_append.mpr ⟨h l hl, Text.encodes_of "\n"⟩ c hc

theorem encodes_guide {name : Text} (hname : Text.Encodes name) :
    Text.Encodes (Templates.guide name) := by
  unfold Templates.guide Templates.guideStart Templates.guideRules
  rw [Text.encodes_append]
  constructor <;> refine encodes_lines ?_ <;> simp [hname]

theorem encodes_progress {name type date : Text} (hname : Text.Encodes name)
    (htype : Text.Encodes type) (hdate : Text.Encodes date) :
    Text.Encodes (Templates.progress name type date) := by
  refine encodes_lines ?_
  simp [hname, htype, hdate]

theorem encodes_specification {name : Text} (hname : Text.Encodes name) :
    Text.Encodes (Templates.specification name) := by
  refine encodes_lines ?_
  simp [hname]

theorem encodes_script (type : Text) : Text.Encodes (Templates.script type) := by
  unfold Templates.script
  split
  · exact encodes_lines (by simp)
  split
  · exact encodes_lines (by simp)
  · exact encodes_lines (by simp)

/-! ### One after the other -/

/-- There is a file. -/
def HasFile (files : FileTree) (q : Place) : Prop :=
  ∃ content executable, files.get? q = some (.file content executable)

/-- Nothing is in the way that was not, and the files that are made are still there, and so are all
directories. -/
structure Advances (place : Place) (files files' : FileTree) : Prop where
  obstructed : Obstructed files' place → Obstructed files place
  directories : ∀ q, files.get? q = some .directory → files'.get? q = some .directory
  present : ∀ names ∈ guides, HasFile files (place ++ names) → HasFile files' (place ++ names)

theorem Advances.trans {files files' files'' : FileTree} (h : Advances place files files')
    (k : Advances place files' files'') : Advances place files files'' where
  obstructed := h.obstructed ∘ k.obstructed
  directories q hq := k.directories q (h.directories q hq)
  present names hnames := k.present names hnames ∘ h.present names hnames

/-- To put one of the files in its place is an advance. -/
theorem advances_put {files : FileTree} {names : Place} (hnames : names ∈ guides)
    (h : files.get? (place ++ names) ≠ some .directory) (content : List UInt8) (executable : Bool) :
    Advances place files (files.put (place ++ names) (.file content executable)) := by
  have hself := FileTree.get?_put_self files (.file content executable)
    (FileTree.ne_root_of_not_directory h)
  have hothers : ∀ others ≠ names, (files.put (place ++ names) (.file content executable)).get?
      (place ++ others) = files.get? (place ++ others) := fun others hne =>
    FileTree.get?_put_of_ne _ _ (mt List.append_cancel_left hne)
  refine ⟨fun hin => ?_, fun _ => FileTree.directory_put h, fun others _ hfile => ?_⟩
  · cases hin with
    | @directory others hother hdirectory =>
      by_cases hsame : others = names
      · rw [hsame, hself] at hdirectory
        exact absurd hdirectory (by simp)
      · exact .directory hother (hothers others hsame ▸ hdirectory)
    | file hfile =>
      have hne : [Text.of ".claude"] ≠ names := by
        rintro rfl
        exact absurd hnames (by decide)
      exact .file (hothers _ hne ▸ hfile)
  · by_cases hsame : others = names
    · rw [hsame]
      exact ⟨content, executable, hself⟩
    · obtain ⟨old, x, hold⟩ := hfile
      exact ⟨old, x, (hothers others hsame).trans hold⟩

/-- Below a prepared root the task makes the files, or something is in the way. -/
def Builds (outside : Outside) (m : Machine) (root : Path) (place : Place) (made : List Place)
    (task : Task Unit) : Prop :=
  ∀ files, Prepared { m with files } root place →
    (Obstructed files place ∧ ∃ problem path files',
      task.run outside { m with files } =
        (.error (.file problem path), { m with files := files' })) ∨
    ∃ files', task.run outside { m with files } = (.ok (), { m with files := files' }) ∧
      Advances place files files' ∧ ∀ names ∈ made, HasFile files' (place ++ names)

theorem builds_bind {made others : List Place} {task next : Task Unit}
    (h : Builds outside m root place made task) (hmade : ∀ names ∈ made, names ∈ guides)
    (k : Builds outside m root place others next) :
    Builds outside m root place (made ++ others) (task >>= fun _ => next) := by
  intro files hprepared
  rcases h files hprepared with ⟨hin, problem, path, files', hrun⟩ | ⟨f, hrun, hadvances, hfiles⟩
  · exact .inl ⟨hin, problem, path, files', Task.run_bind_error hrun _⟩
  have hprepared' : Prepared { m with files := f } root place :=
    ⟨hprepared.leads.mono hadvances.directories, hprepared.agent.mono hadvances.directories,
      hprepared.usable⟩
  rcases k f hprepared' with ⟨hin, problem, path, files', hrun'⟩ | ⟨f', hrun', hadvances', hfiles'⟩
  · exact .inl ⟨hadvances.obstructed hin, problem, path, files',
      (Task.run_bind_ok hrun _).trans hrun'⟩
  · refine .inr ⟨f', (Task.run_bind_ok hrun _).trans hrun', hadvances.trans hadvances', ?_⟩
    refine List.forall_mem_append.mpr ⟨fun names hnames => ?_, hfiles'⟩
    exact hadvances'.present names (hmade names hnames) (hfiles names hnames)

section

variable {name type : Text}

theorem builds_writeText {names : Place} (hnames : names ∈ guides) (hq : q ++ [t] = place ++ names)
    (hleads : ∀ files, Prepared { m with files } root place → files.LeadsTo m.directory p q)
    (ht : Place.IsName t) (hshort : FileTree.byteLength t ≤ FileTree.longestName)
    (husable : (p.child t).Usable) (hencodes : Text.Encodes written) :
    Builds outside m root place [names] (Task.writeText (p.child t) written) := by
  intro files hprepared
  rcases Task.run_writeText_child (m := { m with files }) outside
      (hleads files hprepared) ht hshort husable hencodes with
    ⟨hdirectory, hrun⟩ | ⟨hnode, content, executable, hrun⟩
  · exact .inl ⟨.directory hnames (hq ▸ hdirectory), _, _, _, hrun⟩
  · rw [hq] at hnode hrun
    refine .inr ⟨_, hrun, advances_put hnames hnode content executable,
      List.forall_mem_singleton.mpr ⟨content, executable, ?_⟩⟩
    exact FileTree.get?_put_self _ _ (FileTree.ne_root_of_not_directory hnode)

theorem builds_script (husable : (root.child "init.sh").Usable) :
    Builds outside m root place [[Text.of "init.sh"]]
      (Task.writeText (root.child "init.sh") (Templates.script type) >>= fun _ =>
        Task.makeExecutable (root.child "init.sh")) := by
  have ht : Place.IsName "init.sh" := Place.isName_of_plain (by decide)
  have hnames : [Text.of "init.sh"] ∈ guides := by decide
  intro files hprepared
  rcases Task.run_writeText_child outside hprepared.leads ht (by decide) husable
      (encodes_script type) with ⟨hdirectory, hrun⟩ | ⟨hnode, content, executable, hrun⟩
  · exact .inl ⟨.directory hnames hdirectory, _, _, _, Task.run_bind_error hrun _⟩
  · have hmake := Task.run_makeExecutable_child outside hprepared.leads ht (by decide) husable hnode
      content executable
    refine .inr ⟨_, (Task.run_bind_ok hrun _).trans hmake, advances_put hnames hnode content true,
      List.forall_mem_singleton.mpr ⟨content, true, ?_⟩⟩
    exact FileTree.get?_put_self _ _ (FileTree.ne_root_of_not_directory hnode)

theorem builds_guide (hclaude : (root.child ".claude").Usable)
    (hguide : ((root.child ".claude").child "CLAUDE.md").Usable) (hname : Text.Encodes name) :
    Builds outside m root place [[Text.of ".claude", Text.of "CLAUDE.md"]]
      (Task.ensureDirectory (root.child ".claude") >>= fun _ =>
        Task.writeText ((root.child ".claude").child "CLAUDE.md") (Templates.guide name)) := by
  have ht : Place.IsName "CLAUDE.md" := Place.isName_of_plain (by decide)
  have hnames : [Text.of ".claude", Text.of "CLAUDE.md"] ∈ guides := by decide
  intro files hprepared
  rcases Task.run_ensureDirectory_child outside hprepared.leads isName_claude
      (by decide) hclaude with ⟨content, executable, hfile, hrun⟩ | ⟨f, hrun, hgrown, hleads, hsame⟩
  · exact .inl ⟨.file hfile, _, _, _, Task.run_bind_error hrun _⟩
  -- The directory of the guide is there, so nothing else than before is in the way.
  have hothers : ∀ names ∈ guides, f.get? (place ++ names) = files.get? (place ++ names) := by
    intro names hnames
    refine hsame _ (mt List.append_cancel_left ?_)
    rintro rfl
    exact absurd hnames (by decide)
  have hadvances : Advances place files f := by
    refine ⟨fun hin => ?_, fun _ => hgrown.get?, fun names hnames ⟨content, executable, hfile⟩ =>
      ⟨content, executable, hgrown.get? hfile⟩⟩
    cases hin with
    | directory hnames h => exact .directory hnames (hothers _ hnames ▸ h)
    | file h => exact absurd (hleads.2.symm.trans h) (by simp)
  rcases Task.run_writeText_child (m := { m with files := f }) outside hleads ht
      (by decide) hguide (encodes_guide hname) with
    ⟨hdirectory, hrun'⟩ | ⟨hnode, content, executable, hrun'⟩
  · rw [List.append_assoc] at hdirectory
    exact .inl ⟨hadvances.obstructed (.directory hnames hdirectory), _, _, _,
      (Task.run_bind_ok hrun _).trans hrun'⟩
  · rw [List.append_assoc] at hnode hrun'
    refine .inr ⟨_, (Task.run_bind_ok hrun _).trans hrun',
      hadvances.trans (advances_put hnames hnode content executable),
      List.forall_mem_singleton.mpr ⟨content, executable, ?_⟩⟩
    exact FileTree.get?_put_self _ _ (FileTree.ne_root_of_not_directory hnode)

/-- The files beside the project file are made one after the other, unless something is in the
way. -/
theorem builds_writeGuides (husable : (Layout.featuresFileOf root).Usable)
    (hname : Text.Encodes name) (htype : Text.Encodes type) {today : Instant}
    (hnow : (Layout.now.run outside m).1 = .ok today) :
    Builds outside m root place guides (writeGuides root name type) := by
  have hprogress : Place.IsName "progress.md" := Place.isName_of_plain (by decide)
  have hscript : Place.IsName "init.sh" := Place.isName_of_plain (by decide)
  have hguide : Place.IsName "CLAUDE.md" := Place.isName_of_plain (by decide)
  have hspecification : Place.IsName "app_spec.txt" := Place.isName_of_plain (by decide)
  have hinAgent : (Layout.agentDirectoryOf root).child "progress.md" =
      root.below [".agent", "progress.md"] := by
    rw [Layout.agentDirectoryOf, Path.child_eq_below isName_agent, Path.below_child hprogress]
    rfl
  have hinClaude : (root.child ".claude").child "CLAUDE.md" =
      root.below [".claude", "CLAUDE.md"] := by
    rw [Path.child_eq_below isName_claude, Path.below_child hguide]
    rfl
  have hnotes : Builds outside m root place [[Text.of ".agent", Text.of "progress.md"]]
      (Task.writeText (Layout.progressFileOf root)
        (Templates.progress name type today.date.toText)) :=
    builds_writeText (by decide) (List.append_assoc _ _ _) (fun _ h => h.agent) hprogress
      (by decide) (hinAgent ▸ usable_guide husable (by simp) (by decide) (by decide))
      (encodes_progress hname htype (Moment.encodes_date today.date))
  have hscripted : Builds outside m root place [[Text.of "init.sh"]]
      (Task.writeText (root.child "init.sh") (Templates.script type) >>= fun _ =>
        Task.makeExecutable (root.child "init.sh")) :=
    builds_script (Path.child_eq_below hscript ▸
      usable_guide husable (by simp) (by decide) (by decide))
  have hguided : Builds outside m root place [[Text.of ".claude", Text.of "CLAUDE.md"]]
      (Task.ensureDirectory (root.child ".claude") >>= fun _ =>
        Task.writeText ((root.child ".claude").child "CLAUDE.md") (Templates.guide name)) :=
    builds_guide (Path.child_eq_below isName_claude ▸
      usable_guide husable (by simp) (by decide) (by decide))
      (hinClaude ▸ usable_guide husable (by simp) (by decide) (by decide)) hname
  have hspecified : Builds outside m root place [[Text.of "app_spec.txt"]]
      (Task.writeText (root.child "app_spec.txt") (Templates.specification name)) :=
    builds_writeText (by decide) rfl (fun _ h => h.leads) hspecification (by decide)
      (Path.child_eq_below hspecification ▸
        usable_guide husable (by simp) (by decide) (by decide)) (encodes_specification hname)
  have hparent : ((root.child ".claude").child "CLAUDE.md").parent = root.child ".claude" := by
    rw [Place.child_eq hguide, Path.parent]
    simp
  have hall := builds_bind hnotes (by decide) (builds_bind hscripted (by decide)
    (builds_bind hguided (by decide) hspecified))
  simp only [Task.bind_assoc] at hall
  intro files hprepared
  have htoday : Layout.now.run outside { m with files } = (.ok today, { m with files }) := by
    rw [Layout.asks_now.run outside (show Machine.setting { m with files } = m.setting from rfl),
      hnow]
  unfold writeGuides
  dsimp only
  rw [Task.run_bind_ok htoday, hparent]
  exact hall files hprepared

end

end Init

end Acceptance
