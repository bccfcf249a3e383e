import Acceptance.Proofs.Checking
import Acceptance.Proofs.Guides
import Acceptance.Proofs.Usage

/-! # Making a project

A project is made in steps, and each step can fail: directories, the project file, the files beside
it, and version control, which is left out where it fails. What is there after a failure depends on
the step. Before the project file is written nothing but directories is new. Afterwards the project
file is there, and so the project cannot be made again. -/

namespace Acceptance

variable {outside : Outside} {place q : Place} {m m' : Machine} {p root : Path}
  {commands : List (List Text)}

/-! ## The project file -/

namespace Path

/-- The path is absolute, and there are no two points in it. -/
structure Settled (p : Path) : Prop where
  absolute : p.isAbsolute = true
  parts : Text.of ".." ∉ p.parts

theorem settled_resolve (directory : List Text) (p : Path) : (p.resolve directory).Settled := by
  refine ⟨rfl, ?_⟩
  have hfold : ∀ (parts before : List Text), Text.of ".." ∉ before →
      Text.of ".." ∉ parts.foldl (fun before part =>
        if part = Text.of ".." then before.drop 1 else part :: before) before := by
    intro parts
    induction parts with
    | nil => exact fun _ h => h
    | cons part rest ih =>
      intro before hbefore
      refine ih _ ?_
      dsimp only
      split
      · exact fun hup => hbefore (List.mem_of_mem_drop hup)
      next hpart => exact List.not_mem_cons_of_ne_of_not_mem (Ne.symm hpart) hbefore
  unfold resolve settle
  exact fun hup => hfold _ [] List.not_mem_nil (List.mem_reverse.mp hup)

theorem Settled.ofPath (h : p.Settled) (directory : Place) :
    Place.ofPath directory p = Place.follow [] p.parts := by
  rw [Place.ofPath, if_pos h.absolute]

end Path

namespace Init

/-- The project file, seen from the root. -/
def projectFile : Place := [".agent", "features.json"]

/-- Where something can be in the way of a new project, seen from the root. -/
def watched : List Place := projectFile :: [Text.of ".claude"] :: guides

/-- Only directories are new, and none of them is in the place of a file that init makes. -/
structure Clears (place : Place) (m m' : Machine) : Prop where
  rest : m' = { m with files := m'.files }
  grown : m.files.Grown m'.files
  same : ∀ names ∈ watched,
    m'.files.get? (place ++ names) = m.files.get? (place ++ names)

instance : IsPreorder Machine (Clears place) where
  refl _ := ⟨rfl, refl_of FileTree.Grown _, fun _ _ => rfl⟩
  trans m₁ m₂ m₃ h k :=
    { rest := by rw [k.rest, h.rest]
      grown := trans_of FileTree.Grown h.grown k.grown
      same := fun names hnames => (k.same names hnames).trans (h.same names hnames) }

/-- To make a directory that is none of these clears the way. -/
theorem clears_ensureDirectory (hroot : root.Settled) {names : List Text}
    (hplace : place = Place.follow [] root.parts) (hnames : ∀ t ∈ names, Place.IsName t)
    (hne : ∀ others ∈ watched, ¬ others <+: names) :
    (Task.ensureDirectory (root.below names)).Leaves outside (Clears place) := by
  intro m
  have hat : Place.ofPath m.directory root = place := (hroot.ofPath _).trans hplace.symm
  unfold Task.ensureDirectory
  rw [Task.run_checkPath_bind]
  split
  · exact refl_of (Clears place) m
  rw [Task.run_read_bind]
  have hsame : ∀ others ∈ watched,
      (m.files.ensure m.directory (root.below names)).1.get? (place ++ others) =
        m.files.get? (place ++ others) := by
    intro others hothers
    have hnil : others ≠ [] := by
      rintro rfl
      exact hne _ hothers (List.nil_prefix)
    rw [← hat]
    exact FileTree.get?_ensure_below hroot.absolute hroot.parts hnames hnil (hne _ hothers)
  have hgrown := FileTree.grown_ensure m.files m.directory (root.below names)
  generalize m.files.ensure m.directory (root.below names) = made at hsame hgrown ⊢
  rcases made with ⟨files, _ | ⟨problem, refused⟩⟩
  · exact ⟨rfl, hgrown, hsame⟩
  · exact ⟨rfl, hgrown, hsame⟩

/-- The directories of a new project. -/
def makeDirectories (root : Path) : Task Unit :=
  Layout.ensureAll
    (root :: Layout.agentDirectoryOf root ::
      Layout.agentParts.map (Layout.agentDirectoryOf root).child)

theorem clears_makeDirectories (hroot : root.Settled)
    (hplace : place = Place.follow [] root.parts) :
    (makeDirectories root).Leaves outside (Clears place) := by
  have hall : ∀ list : List Path, (∀ p ∈ list, ∃ names, p = root.below names ∧
      (∀ t ∈ names, Place.IsName t) ∧
      ∀ others ∈ watched, ¬ others <+: names) →
      (Layout.ensureAll list).Leaves outside (Clears place) := by
    intro list hlist
    induction list with
    | nil => exact Task.leaves_pure _
    | cons p rest ih =>
      obtain ⟨⟨names, rfl, hnames, hne⟩, hrest⟩ := List.forall_mem_cons.mp hlist
      exact Task.leaves_bind (clears_ensureDirectory hroot hplace hnames hne) fun _ => ih hrest
  have hagent : Layout.agentDirectoryOf root = root.below [".agent"] :=
    Path.child_eq_below isName_agent
  have hinside : ∀ t : Text, Place.isPlainName t = true →
      (∀ others ∈ watched,
        ¬ others <+: [Text.of ".agent", t]) →
      ∃ names, (Layout.agentDirectoryOf root).child t = root.below names ∧
        (∀ t ∈ names, Place.IsName t) ∧
        ∀ others ∈ watched, ¬ others <+: names := by
    intro t ht hne
    refine ⟨[Text.of ".agent", t], ?_, ?_, hne⟩
    · rw [hagent, Path.below_child (Place.isName_of_plain ht)]
      rfl
    · simpa using ⟨isName_agent, Place.isName_of_plain ht⟩
  refine hall _ (List.forall_mem_cons.mpr ⟨⟨[], by simp [Path.below], by simp, by decide⟩,
    List.forall_mem_cons.mpr ⟨⟨_, hagent, by simpa using isName_agent, by decide⟩, ?_⟩⟩)
  simp only [Layout.agentParts, List.map_cons, List.map_nil, List.forall_mem_cons]
  exact ⟨hinside "sessions" (by decide) (by decide), hinside "screenshots" (by decide) (by decide),
    hinside "runs" (by decide) (by decide), by simp⟩

/-- The files of a new project. -/
def makeFiles (root : Path) (name type : Text) : Task Unit := do
  makeDirectories root
  let now ← Layout.now
  Project.writeDocument (Layout.featuresFileOf root) (Project.newData name type now)
  writeGuides root name type

/-- What comes of making the files of a project. -/
inductive Makes (m : Machine) (place : Place) (name : Text) :
    Except Fault Unit → Machine → Prop where
  /-- Only directories are new. -/
  | cleared {fault : Fault} {m' : Machine} (h : Clears place m m') :
      Makes m place name (.error fault) m'
  /-- The name cannot be written, and the project file is empty. -/
  | emptied {fault : Fault} {files : FileTree} (hname : ¬ Text.Encodes name)
      (h : Machine.Emptied { m with files } (place ++ projectFile)) :
      Makes m place name (.error fault) { m with files }
  /-- Something is in the way of another file, and the project file is that of a new project. -/
  | obstructed {problem : FileProblem} {path : Text} {files : FileTree}
      (h : Obstructed m.files place)
      (hnew : Machine.Records { m with files } (place ++ projectFile) []) :
      Makes m place name (.error (.file problem path)) { m with files }
  | made {files : FileTree} (hnew : Machine.Records { m with files } (place ++ projectFile) [])
      (h : ∀ names ∈ guides, HasFile files (place ++ names)) :
      Makes m place name (.ok ()) { m with files }

end Init

/-- What is written is written where the path leads. -/
theorem Task.located_of_writeText {u : Unit} (h : (writeText p t).run outside m = (.ok u, m')) :
    pathProblem? p = none ∧ m.files.locate m.directory p = .ok (Place.ofPath m.directory p) ∧
      m.files.get? (Place.ofPath m.directory p) ≠ some .directory := by
  unfold writeText at h
  obtain ⟨u₁, m₁, hempty, -⟩ := run_bind_eq_ok h
  rcases run_changeFiles outside m p (fun files directory => files.write directory p [])
    with ⟨fault, hfault⟩ | ⟨files, hpath, hwrite, -⟩
  · rw [hfault] at hempty
    exact absurd (Prod.mk.inj hempty).1 (by simp)
  · obtain ⟨hlocate, hnode, -⟩ := FileTree.write_eq_ok hwrite
    exact ⟨hpath, hlocate, hnode⟩

namespace Init

/-- The root and the directory of its own files are there, if the project file could be written. -/
theorem prepared_of_writeDocument {value : Value} {document : Text}
    (hwrite : Json.write value = .ok document)
    (hrun : (Project.writeDocument (Layout.featuresFileOf root) value).run outside m =
      (.ok (), m')) : Prepared m root (Place.ofPath m.directory root) := by
  unfold Project.writeDocument at hrun
  rw [hwrite] at hrun
  obtain ⟨hpath, hlocate, -⟩ := Task.located_of_writeText hrun
  have husable : (Layout.featuresFileOf root).Usable := ⟨hpath, FileTree.short_of_locate hlocate⟩
  obtain ⟨agent, hagent, -⟩ := (FileTree.locate_child (Place.isName_of_plain (by decide))
    (by decide) husable.short).mp hlocate
  have hwalk := hagent.1
  rw [Layout.agentDirectoryOf, Place.child_eq isName_agent] at hwalk
  obtain ⟨place, hplace, hdirectory, rfl⟩ :=
    (FileTree.walk_concat isName_agent (by decide)).mp hwalk
  obtain rfl : place = Place.ofPath m.directory root := FileTree.walk_eq_ok hplace
  exact ⟨⟨hplace, hdirectory⟩, hagent, husable⟩

theorem Prepared.put {files : FileTree} (h : Prepared { m with files } root place)
    (hnode : files.get? q ≠ some .directory) (content : List UInt8) (executable : Bool) :
    Prepared { m with files := files.put q (.file content executable) } root place :=
  ⟨h.leads.mono fun _ => FileTree.directory_put hnode,
    h.agent.mono fun _ => FileTree.directory_put hnode, h.usable⟩

theorem Obstructed.of_same {files files' : FileTree} (h : Obstructed files' place)
    (hsame : ∀ names ∈ [Text.of ".claude"] :: guides,
      files'.get? (place ++ names) = files.get? (place ++ names)) : Obstructed files place := by
  cases h with
  | directory hnames h =>
    exact .directory hnames ((hsame _ (List.mem_cons_of_mem _ hnames)).symm.trans h)
  | file h => exact .file ((hsame _ List.mem_cons_self).symm.trans h)

/-- The data of a new project can be printed if its name can be encoded. -/
theorem printable_newData {name type : Text} (hname : Text.Encodes name) (htype : type ∈ types)
    (now : Instant) : Json.Printable (Project.newData name type now) := by
  have hempty : Json.Printable (.list []) := Json.printable_list.mpr (by simp)
  obtain ⟨tally, htally, -, hprintable⟩ := Tally.exists_tally
    (show ∀ e ∈ ([] : List Entries), Entry.Counted e by simp) Value.isLongInt_zero
  obtain rfl : Project.emptyTally = tally := Except.ok.inj htally
  refine Json.printable_record.mpr ?_
  simp only [List.forall_mem_cons, Text.encodes_of, true_and, Json.printable_text]
  exact ⟨Project.encodes_idOf name, hname, encodes_type htype, Instant.encodes_toText now,
    Instant.encodes_toText now, hempty, hprintable, hempty, by simp⟩

theorem endsAsProject_projectFile (place : Place) : (place ++ projectFile).EndsAsProject := by
  show (place ++ [Text.of ".agent", Text.of "features.json"]).getLast? = _
  simp

/-- Once the project file is written, it stays, whether the other files are made or not. -/
theorem makes_writeGuides {files : FileTree} (hprepared : Prepared { m with files } root place)
    (hnew : Machine.Records { m with files } (place ++ projectFile) [])
    (hwatched : ∀ names ∈ [Text.of ".claude"] :: guides,
      files.get? (place ++ names) = m.files.get? (place ++ names))
    {name type : Text} (hname : Text.Encodes name) (htype : type ∈ types) {today : Instant}
    (hnow : (Layout.now.run outside m).1 = .ok today) :
    Makes m place name ((writeGuides root name type).run outside { m with files }).1
      ((writeGuides root name type).run outside { m with files }).2 := by
  have hspares := @spares_writeGuides outside _ (endsAsProject_projectFile place) root name type
  rcases builds_writeGuides hprepared.usable hname (encodes_type htype) hnow files hprepared with
    ⟨hin, problem, path, files', hrun⟩ | ⟨files', hrun, -, hmade⟩
  · have hkept := hnew.of_spares (hspares.of_run hrun)
    rw [hrun]
    exact .obstructed (hin.of_same hwatched) hkept
  · have hkept := hnew.of_spares (hspares.of_run hrun)
    rw [hrun]
    exact .made hkept hmade

/-- What comes of making the files of a project. -/
theorem makes_makeFiles (outside : Outside) (m : Machine) (hroot : root.Settled)
    (hplace : place = Place.follow [] root.parts) {name type : Text} (htype : type ∈ types) :
    Makes m place name ((makeFiles root name type).run outside m).1
      ((makeFiles root name type).run outside m).2 := by
  unfold makeFiles
  rcases hdirectories : (makeDirectories root).run outside m with ⟨fault | u, m₁⟩
  all_goals have hclears := (clears_makeDirectories hroot hplace).of_run hdirectories
  · rw [Task.run_bind_error hdirectories]
    exact .cleared hclears
  rw [Task.run_bind_ok hdirectories]
  obtain ⟨files, rfl⟩ : ∃ files, m₁ = { m with files } := ⟨_, hclears.rest⟩
  rw [Task.run_bind, Layout.asks_now.run_self]
  rcases hnow : (Layout.now.run outside { m with files }).1 with fault | now
  · exact .cleared hclears
  dsimp only
  have hfile : Place.ofPath m.directory (Layout.featuresFileOf root) = place ++ projectFile := by
    rw [Layout.featuresFileOf, Layout.agentDirectoryOf,
      Place.ofPath_child (Place.isName_of_plain (by decide)), Place.ofPath_child isName_agent,
      hroot.ofPath, ← hplace, List.append_assoc]
    rfl
  rcases hwrite : Json.write (Project.newData name type now) with cause | document
  · unfold Project.writeDocument
    rw [hwrite, Task.run_fail_bind]
    exact .cleared hclears
  rcases Project.run_writeDocument outside { m with files } (Layout.featuresFileOf root) hwrite with
    ⟨fault, hfault⟩ | ⟨hnode, executable, ⟨hencodes, hwritten⟩ | ⟨hencodes, fault, hfault⟩⟩
  · rw [Task.run_bind_error hfault]
    exact .cleared hclears
  · have hname := Project.encodes_of_newData hwrite hencodes
    have htoday : (Layout.now.run outside m).1 = .ok now :=
      (Layout.asks_now.answer_eq (show m.setting = Machine.setting { m with files } from rfl)).trans
        hnow
    obtain ⟨-, hrecords⟩ := records_writeDocument (m := { m with files }) htype hfile hwritten
    have hprepared := prepared_of_writeDocument (m := { m with files }) hwrite hwritten
    rw [show Place.ofPath m.directory root = place from
      (hroot.ofPath _).trans hplace.symm] at hprepared
    rw [hfile] at hnode hwritten hrecords
    have hwatched : ∀ names ∈ [Text.of ".claude"] :: guides, (files.put (place ++ projectFile)
        (.file (document.flatMap Utf8.bytesOf) executable)).get? (place ++ names) =
          m.files.get? (place ++ names) := by
      intro names hnames
      rw [FileTree.get?_put_of_ne, hclears.same names (List.mem_cons_of_mem _ hnames)]
      refine mt List.append_cancel_left ?_
      rintro rfl
      exact absurd hnames (by decide)
    rw [Task.run_bind_ok hwritten]
    exact makes_writeGuides (hprepared.put hnode _ _) hrecords hwatched hname htype htoday
  · have hname : ¬ Text.Encodes name := fun hname => by
      obtain ⟨document', hwrite', hencodes'⟩ :=
        Json.printable_iff.mp (printable_newData hname htype now)
      obtain rfl := Except.ok.inj (hwrite.symm.trans hwrite')
      exact hencodes hencodes'
    rw [Task.run_bind_error hfault]
    exact .emptied hname ⟨executable, hfile ▸ Machine.get?_withFile hnode [] executable⟩

end Init

/-! ## Version control -/

namespace Init

/-- All of the commands are called and succeed, or one does not, and it is the last one called. -/
theorem runAll_cases (outside : Outside) (m : Machine) (directory : Text)
    (hzero : ∀ argv ∈ commands, Task.hasZero argv = false) :
    (∃ m', (runAll directory commands).run outside m = (.ok (), m') ∧
      m'.calls = m.calls ++ .ofChecks (some directory) commands ∧
      ∀ k < commands.length, (outside.answerTo m.calls (some directory) commands k).Succeeds) ∨
    ∃ k m' fault, k < commands.length ∧
      (runAll directory commands).run outside m = (.error fault, m') ∧
      m'.calls = m.calls ++ .ofChecks (some directory) (commands.take (k + 1)) ∧
      (∀ j < k, (outside.answerTo m.calls (some directory) commands j).Succeeds) ∧
      ¬ (outside.answerTo m.calls (some directory) commands k).Succeeds ∧
      (outside.answerTo m.calls (some directory) commands k).verdict (commands.getD k []) =
        .error fault := by
  induction commands generalizing m with
  | nil => exact .inl ⟨m, rfl, by simp [History.ofChecks], by simp⟩
  | cons argv rest ih =>
    obtain ⟨hargv, hrest⟩ := List.forall_mem_cons.mp hzero
    have hrun := Task.run_runChecked outside m hargv (some directory)
    rcases hverdict : (outside.check m.calls argv).answer.verdict argv with fault | o
    · have hfails : ¬ (outside.check m.calls argv).answer.Succeeds := fun hsucceeds => by
        obtain ⟨o, ho, -⟩ := Finished.verdict_of_succeeds argv hsucceeds
        simp [hverdict] at ho
      rw [hverdict] at hrun
      exact .inr ⟨0, _, fault, by simp, Task.run_bind_error hrun _, by simp [History.ofChecks],
        by simp, by simpa using hfails, by simpa using hverdict⟩
    · have hfirst := Finished.succeeds_of_verdict hverdict
      rw [hverdict] at hrun
      have hnext : ∀ {result m'}, (runAll directory rest).run outside (m.after
          (.check argv (some directory)) (outside.check m.calls argv).effect) = (result, m') →
          (runAll directory (argv :: rest)).run outside m = (result, m') :=
        fun h => (Task.run_bind_ok hrun _).trans h
      rcases ih (m.after _ _) hrest with ⟨m', hall, hcalls, hsucceed⟩ |
        ⟨k, m', fault, hk, hall, hcalls, hsucceed, hfails, hfault⟩
      · refine .inl ⟨m', hnext hall, by simpa [History.ofChecks] using hcalls, ?_⟩
        rintro (_ | k) hk
        · simpa using hfirst
        · simpa using hsucceed k (by simpa using hk)
      · refine .inr ⟨k + 1, m', fault, by simpa using hk, hnext hall,
          by simpa [History.ofChecks] using hcalls, ?_, by simpa using hfails,
          by simpa using hfault⟩
        rintro (_ | j) hj
        · simpa using hfirst
        · simpa using hsucceed j (by omega)

/-- The commands that put a project under version control are called one after the other as long as
they end with zero, if the tool is there. -/
structure VersionControl (outside : Outside) (m m' : Machine) (directory : Text) (started : Bool) :
    Prop where
  started : started = true ↔ Text.of "git" ∈ m.installed ∧
    ∀ k < 3, (outside.answerTo m.calls (some directory) gitCommands k).code = 0
  calls : ∃ n ≤ 3, m'.calls = m.calls ++ .ofChecks (some directory) (gitCommands.take n) ∧
    ∀ k < 3, k < n ↔ Text.of "git" ∈ m.installed ∧
      ∀ j < k, (outside.answerTo m.calls (some directory) gitCommands j).code = 0

/-- The output of a command that puts a project under version control is no text. -/
structure Garbled (outside : Outside) (m m' : Machine) (directory : Text) (k : Nat) : Prop where
  installed : Text.of "git" ∈ m.installed
  number : k < 3
  calls : m'.calls = m.calls ++ .ofChecks (some directory) (gitCommands.take (k + 1))
  before : ∀ j < k, (outside.answerTo m.calls (some directory) gitCommands j).code = 0
  answer : ¬ (outside.answerTo m.calls (some directory) gitCommands k).IsText

theorem run_startVersionControl (outside : Outside) (m : Machine) (root : Path) :
    (∃ started m', (startVersionControl root).run outside m = (.ok started, m') ∧
      VersionControl outside m m' root.toText started) ∨
    ∃ fault m' k, (startVersionControl root).run outside m = (.error fault, m') ∧
      Garbled outside m m' root.toText k := by
  have hzero : ∀ argv ∈ gitCommands, Task.hasZero argv = false := by decide
  unfold startVersionControl
  rw [Task.run_attempt_bind]
  by_cases hinstalled : Text.of "git" ∈ m.installed
  · obtain ⟨path, htool⟩ := Task.run_requireTool_of_mem outside hinstalled
    rw [Task.run_bind_ok htool]
    rcases runAll_cases outside m root.toText hzero with ⟨m', hrun, hcalls, hsucceed⟩ |
      ⟨k, m', fault, hk, hrun, hcalls, hsucceed, hfails, hfault⟩
    · rw [hrun]
      have hcodes : ∀ k < 3, (outside.answerTo m.calls (some root.toText) gitCommands k).code = 0 :=
        fun k hk => (hsucceed k hk).code
      exact .inl ⟨true, m', rfl, iff_of_true rfl ⟨hinstalled, hcodes⟩, 3, le_rfl, hcalls,
        fun k hk => ⟨fun _ => ⟨hinstalled, fun j hj => hcodes j (by omega)⟩, fun _ => hk⟩⟩
    · rw [hrun]
      have hcodes : ∀ j < k, (outside.answerTo m.calls (some root.toText) gitCommands j).code = 0 :=
        fun j hj => (hsucceed j hj).code
      by_cases htext : (outside.answerTo m.calls (some root.toText) gitCommands k).IsText
      · have hcode : (outside.answerTo m.calls (some root.toText) gitCommands k).code ≠ 0 :=
          fun hcode => hfails { htext with code := hcode }
        obtain ⟨output, errors, -, -, hverdict⟩ :=
          Finished.verdict_of_code (gitCommands.getD k []) htext hcode
        obtain rfl := Except.error.inj (hfault.symm.trans hverdict)
        refine .inl ⟨false, m', rfl, iff_of_false (by simp) fun h => hcode (h.2 k hk), k + 1,
          Nat.succ_le_of_lt hk, hcalls, fun i _ => ⟨fun hi => ⟨hinstalled, fun j hj =>
            hcodes j (by omega)⟩, fun h => ?_⟩⟩
        by_contra hle
        exact hcode (h.2 k (by omega))
      · obtain ⟨problem, hverdict⟩ :=
          Finished.verdict_of_not_isText (gitCommands.getD k []) htext
        obtain rfl := Except.error.inj (hfault.symm.trans hverdict)
        exact .inr ⟨_, m', k, rfl, hinstalled, hk, hcalls, hcodes, htext⟩
  · have htool := Task.run_requireTool_of_not_mem outside hinstalled
    rw [Task.run_bind_error htool]
    exact .inl ⟨false, m, rfl, by simp [hinstalled], 0, by simp, by simp [History.ofChecks],
      fun k _ => by simp [hinstalled]⟩

end Init

/-! ## The whole -/

/-- At the place is a file that loads as a project without features. -/
def Machine.HoldsNew (m : Machine) (file : Place) : Prop :=
  ∃ content executable data, m.files.get? file = some (.file content executable) ∧
    ∀ (outside : Outside) (m₁ : Machine) (p : Path), m₁.HasProject outside p content executable →
      Project.load.run outside m₁ = (.ok ⟨data, []⟩, m₁)

theorem Machine.Records.holdsNew {file : Place} (h : m.Records file []) : m.HoldsNew file := by
  obtain ⟨entries, data, document, executable, hstored, hwrite, hfile⟩ := h
  obtain rfl := List.length_eq_zero_iff.mp hstored.lists.length
  refine ⟨_, executable, Json.inOrder data, hfile, fun outside m₁ p hproject => ?_⟩
  have hmeans := Json.means_document (Json.kept_mono _ (by decide : 4 ≤ Json.mostNested)
    hstored.kept) hwrite
  have hcontent : Project.ofContent p (document.flatMap Utf8.bytesOf) =
      .ok ⟨Json.inOrder data, []⟩ :=
    Project.ofContent_eq_ok.mpr ⟨hmeans, hstored.inOrder.features⟩
  rw [Project.run_load_of_file hproject, hcontent]

namespace Init

/-- The name of a new project: the given one, unless it is empty, or that of its root. -/
def nameOf (name : Option Text) (root : Path) : Text :=
  match name with
  | none | some [] => root.name
  | some name => name

/-- The project was made: its file loads without features, the other files are there, and version
control was started as far as its commands went. -/
structure Started (outside : Outside) (m m' : Machine) (root : Path) (r : Result) : Prop where
  project : m'.HoldsNew (Place.ofPath m.directory root ++ projectFile)
  guides : ∀ names ∈ guides, HasFile m'.files (Place.ofPath m.directory root ++ names)
  versionControl : VersionControl outside m m' root.toText r.gitInitialized

/-- How a project is left that could not be made. -/
inductive Fails (outside : Outside) (m m' : Machine) (root : Path) (name : Text) : Prop where
  /-- The project file, if there is one, is as it was, and nothing was called. -/
  | kept (hcalls : m'.calls = m.calls)
      (h : m'.files.get? (Place.ofPath m.directory root ++ projectFile) =
        m.files.get? (Place.ofPath m.directory root ++ projectFile))
  /-- The name cannot be written, and the project file is empty. -/
  | emptied (hname : ¬ Text.Encodes name) (hcalls : m'.calls = m.calls)
      (h : m'.Emptied (Place.ofPath m.directory root ++ projectFile))
  /-- Something was in the way of another file, and the project file is that of a new project. -/
  | obstructed (h : Obstructed m.files (Place.ofPath m.directory root))
      (hcalls : m'.calls = m.calls)
      (hnew : m'.HoldsNew (Place.ofPath m.directory root ++ projectFile))
  /-- The output of a command is no text, and the project file is that of a new project. -/
  | garbled {k : Nat} (h : Garbled outside m m' root.toText k)
      (hnew : m'.HoldsNew (Place.ofPath m.directory root ++ projectFile))

/-- What is left to do once the root of a new project is known. -/
def makeAt (root : Path) (name type : Text) : Task Result := do
  makeFiles root name type
  let gitInitialized ← startVersionControl root
  pure { root := root.toText, id := Project.idOf name, name, type, files, gitInitialized }

/-- Nothing changes unless the type is known, the path of the root leads somewhere and there is no
project yet. -/
theorem run_cases (outside : Outside) (m : Machine) (name : Option Text) (type : Text)
    (given : Option Path) :
    (∃ fault, (run name type given).run outside m = (.error fault, m)) ∨
    ∃ root : Path, ((rootOr given >>= Task.resolvePath).run outside m).1 = .ok root ∧
      root.Settled ∧ type ∈ types ∧ (run name type given).run outside m =
        (makeAt root (nameOf name root) type).run outside m := by
  unfold run
  split
  next => exact .inl ⟨_, rfl⟩
  next htype =>
  rw [Task.run_bind, (asks_rootOr given).run_self, Task.run_bind outside m (rootOr given)
    Task.resolvePath, (asks_rootOr given).run_self]
  rcases ((rootOr given).run outside m).1 with fault | p
  · exact .inl ⟨fault, rfl⟩
  dsimp only
  rw [Task.run_bind, (asks_resolvePath p).run_self]
  rcases hresolve : ((Task.resolvePath p).run outside m).1 with fault | root
  · exact .inl ⟨fault, rfl⟩
  dsimp only
  have hsettled : root.Settled := by
    unfold Task.resolvePath at hresolve
    split at hresolve
    · exact absurd hresolve (by simp)
    · exact Except.ok.inj hresolve ▸ Path.settled_resolve _ _
  rcases hexists : (Task.pathExists (Layout.featuresFileOf root)).run outside m with
    ⟨fault | isThere, m₁⟩
  all_goals obtain rfl := Task.Leaves.of_run (R := Eq) (Task.leaves_pathExists _) hexists
  · exact .inl ⟨fault, Task.run_bind_error hexists _⟩
  rw [Task.run_bind_ok hexists]
  cases isThere with
  | true => exact .inl ⟨_, rfl⟩
  | false =>
    refine .inr ⟨root, rfl, hsettled, by simpa using htype, ?_⟩
    unfold makeAt makeFiles makeDirectories Layout.ensureAgentDirectory
    simp only [Task.bind_assoc, Layout.ensureAll]
    rfl

/-- Whatever is in the directory, and whatever the other programs do as long as they leave the new
files alone: a project that is made can be loaded and has no features. If it is not made, its file
is as it was, unless the name cannot be written, something is in the way of another file, or the
output of a command is no text. -/
theorem outcome_run {given : Option Path} {root : Path} (name : Option Text) (type : Text)
    (hroot : ∀ p, ((rootOr given >>= Task.resolvePath).run outside m).1 = .ok p → p = root)
    (hspares : ∀ names ∈ projectFile :: guides,
      outside.Spares (Place.ofPath m.directory root ++ names)) :
    (∃ r m', (run name type given).run outside m = (.ok r, m') ∧ Started outside m m' root r) ∨
    ∃ fault m', (run name type given).run outside m = (.error fault, m') ∧
      Fails outside m m' root (nameOf name root) := by
  rcases run_cases outside m name type given with ⟨fault, hrun⟩ | ⟨p, hp, hsettled, htype, hrun⟩
  · exact .inr ⟨fault, m, hrun, .kept rfl rfl⟩
  obtain rfl := hroot p hp
  rw [hrun]
  have hmakes : Makes m (Place.ofPath m.directory p) (nameOf name p) _ _ :=
    makes_makeFiles outside m hsettled (hsettled.ofPath _) htype
  unfold makeAt
  rcases hfiles : (makeFiles p (nameOf name p) type).run outside m with ⟨result, m₁⟩
  rw [hfiles] at hmakes
  cases hmakes with
  | cleared h =>
    have hrest : m₁ = { m with files := m₁.files } := h.rest
    have hcalls : m₁.calls = m.calls := by rw [hrest]
    exact .inr ⟨_, m₁, Task.run_bind_error hfiles _, .kept hcalls (h.same _ List.mem_cons_self)⟩
  | emptied hname h => exact .inr ⟨_, _, Task.run_bind_error hfiles _, .emptied hname rfl h⟩
  | obstructed h hnew =>
    exact .inr ⟨_, _, Task.run_bind_error hfiles _, .obstructed h rfl hnew.holdsNew⟩
  | @made files hnew hguides =>
    rw [Task.run_bind_ok hfiles]
    have hstays : ∀ {result m₂}, (startVersionControl p).run outside { m with files } =
        (result, m₂) → m₂.HoldsNew (Place.ofPath m.directory p ++ projectFile) :=
      fun h => (hnew.of_spares ((spares_startVersionControl
        (hspares _ List.mem_cons_self) p).of_run h)).holdsNew
    rcases run_startVersionControl outside { m with files } p with
      ⟨started, m₂, hversion, hcontrol⟩ | ⟨fault, m₂, k, hversion, hgarbled⟩
    · refine .inl ⟨_, m₂, Task.run_bind_ok hversion _, hstays hversion, fun names hnames => ?_,
        ⟨hcontrol.started, hcontrol.calls⟩⟩
      obtain ⟨content, executable, hfile⟩ := hguides names hnames
      have hkept := (spares_startVersionControl (hspares _ (List.mem_cons_of_mem _ hnames))
        p).of_run hversion
      exact ⟨content, executable, hkept.files.file hfile⟩
    · exact .inr ⟨fault, m₂, Task.run_bind_error hversion _, .garbled
        ⟨hgarbled.installed, hgarbled.number, hgarbled.calls, hgarbled.before, hgarbled.answer⟩
        (hstays hversion)⟩

end Init

namespace Shop

/-- The shop before its project is made, with version control. -/
def unmade : Machine := { machine [(["shop"], .directory)] with installed := ["git"] }

/-- Other programs that print a byte that is no text. -/
def garbling : Outside :=
  { idle with check _ _ := { answer := ⟨0, [255], []⟩, effect := fun _ s => s } }

/-- What comes of making the project, computed together because the guide is long. -/
theorem unmade_outcomes :
    ((Init.run none "web" none).run idle unmade).1.toOption.map (·.gitInitialized) = some true ∧
    ((Init.run none "web" none).run garbling unmade).1.toOption = none ∧
    ((Init.run none "web" none).run garbling unmade).2.files.get? projectFile ≠ none := by
  decide +kernel

theorem outcome_run_unmade : ∃ r m', (Init.run none "web" none).run idle unmade = (.ok r, m') ∧
    Init.Started idle unmade m' ⟨"/", ["shop"]⟩ r ∧ r.gitInitialized = true := by
  have hroot : ∀ p, ((Init.rootOr none >>= Task.resolvePath).run idle unmade).1 = .ok p →
      p = ⟨"/", ["shop"]⟩ := fun p hp => (Except.ok.inj hp).symm
  obtain ⟨hsuccess, -⟩ := unmade_outcomes
  rcases Init.outcome_run none "web" hroot fun _ _ => idle_spares _ with
    ⟨r, m', hrun, hstarted⟩ | ⟨fault, m', hrun, -⟩
  · rw [hrun] at hsuccess
    exact ⟨r, m', hrun, hstarted, Option.some.inj hsuccess⟩
  · rw [hrun] at hsuccess
    exact absurd hsuccess (by simp [Except.toOption])

/-- The output of a command is no text: the project cannot be made, and its file is there. -/
theorem project_left_garbling : unmade.files.get? projectFile = none ∧
    ∃ fault m', (Init.run none "web" none).run garbling unmade = (.error fault, m') ∧
      m'.files.get? projectFile ≠ none := by
  obtain ⟨-, hfails, hleft⟩ := unmade_outcomes
  refine ⟨by decide +kernel, ?_⟩
  rcases hrun : (Init.run none "web" none).run garbling unmade with ⟨fault | r, m'⟩
  · rw [hrun] at hleft
    exact ⟨fault, m', rfl, hleft⟩
  · rw [hrun] at hfails
    exact absurd hfails (by simp [Except.toOption])

end Shop

end Acceptance
