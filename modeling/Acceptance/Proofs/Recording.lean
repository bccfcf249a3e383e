import Acceptance.Proofs.Holding
import Acceptance.Proofs.TestCommands

/-! # Records of runs

The record of a run is written beside the project file, where there is room for it. Directories that
a test makes for its screenshots do not take that room, if no text that they are named after has the
id of the run in it. -/

namespace Acceptance

open Json (Printable)

variable {outside : Outside} {place q : Place} {m m' : Machine} {p : Path} {n : Nat} {t : Text}

/-! ## Paths -/

namespace Path

theorem mem_joinWith {sep : Text} {c : CodePoint} {pieces : List Text}
    (h : c ∈ Text.joinWith sep pieces) : c ∈ sep ∨ ∃ piece ∈ pieces, c ∈ piece := by
  induction pieces with
  | nil => exact absurd h (by simp [Text.joinWith])
  | cons piece rest ih =>
    cases rest with
    | nil => exact .inr ⟨piece, by simp, by simpa [Text.joinWith] using h⟩
    | cons next rest =>
      rw [Text.joinWith, List.mem_append, List.mem_append] at h
      · rcases h with (h | h) | h
        · exact .inr ⟨piece, by simp, h⟩
        · exact .inl h
        · rcases ih h with h | ⟨other, hother, h⟩
          · exact .inl h
          · exact .inr ⟨other, List.mem_cons_of_mem _ hother, h⟩
      · simp

theorem toText_of_ne (h : p.root ≠ [] ∨ p.parts ≠ []) :
    p.toText = p.root ++ Text.joinWith "/" p.parts := by
  unfold toText
  rw [if_neg]
  simp only [Bool.and_eq_true, List.isEmpty_iff, not_and_or]
  exact h

/-- The path without zero characters, and without lone surrogates. -/
structure Fit (p : Path) : Prop where
  encodes : p.Encodes
  root : ∀ c ∈ p.root, c.val ≠ 0
  parts : ∀ part ∈ p.parts, ∀ c ∈ part, c.val ≠ 0

theorem pathProblem?_eq_none : Task.pathProblem? p = none ↔
    ∀ c ∈ p.toText, c.val ≠ 0 ∧ (Utf8.isEscape c || !c.isSurrogate) = true := by
  unfold Task.pathProblem? Utf8.encodeName
  dsimp only
  rw [forall₂_and, ← List.dropWhile_eq_nil_iff]
  split
  next hany =>
    obtain ⟨c, hc, hzero⟩ := List.any_eq_true.mp hany
    exact iff_of_false (by simp) fun h => h.1 c hc (of_decide_eq_true hzero)
  next hany =>
    have hzero : ∀ c ∈ p.toText, c.val ≠ 0 := by simpa using hany
    cases p.toText.dropWhile fun c => Utf8.isEscape c || !c.isSurrogate with
    | nil => exact iff_of_true rfl ⟨hzero, rfl⟩
    | cons c bad => simp

theorem Fit.problem? (h : p.Fit) : Task.pathProblem? p = none := by
  refine pathProblem?_eq_none.mpr fun c hc => ⟨?_, ?_⟩
  · unfold toText at hc
    split at hc
    · rw [List.mem_singleton.mp hc]
      decide
    · rcases List.mem_append.mp hc with hc | hc
      · exact h.root c hc
      · rcases mem_joinWith hc with hc | ⟨part, hpart, hc⟩
        · rw [List.mem_singleton.mp hc]
          decide
        · exact h.parts part hpart c hc
  · simp [Path.encodes_toText.mpr h.encodes c hc]

theorem Fit.of_problem? (hencodes : p.Encodes) (h : Task.pathProblem? p = none) : p.Fit := by
  have hzero : ∀ c ∈ p.toText, c.val ≠ 0 := fun c hc => (pathProblem?_eq_none.mp h c hc).1
  refine ⟨hencodes, fun c hc => hzero c ?_, fun part hpart c hc => hzero c ?_⟩
  · rw [toText_of_ne (Or.inl (List.ne_nil_of_mem hc))]
    exact List.mem_append_left _ hc
  · rw [toText_of_ne (Or.inr (List.ne_nil_of_mem hpart))]
    exact List.mem_append_right _ ((Text.infix_joinWith hpart).subset hc)

theorem Fit.child (h : p.Fit) (ht : Place.IsName t) (hencodes : Text.Encodes t)
    (hzero : ∀ c ∈ t, c.val ≠ 0) : (p.child t).Fit := by
  rw [Place.child_eq ht]
  refine ⟨⟨h.encodes.root, ?_⟩, h.root, ?_⟩
  · exact List.forall_mem_append.mpr ⟨h.encodes.parts, List.forall_mem_singleton.mpr hencodes⟩
  · exact List.forall_mem_append.mpr ⟨h.parts, List.forall_mem_singleton.mpr hzero⟩

theorem Fit.of_child (h : (p.child t).Fit) (ht : Place.IsName t) : p.Fit := by
  rw [Place.child_eq ht] at h
  refine ⟨⟨h.encodes.root, ?_⟩, h.root, ?_⟩
  · exact (List.forall_mem_append.mp h.encodes.parts).1
  · exact (List.forall_mem_append.mp h.parts).1

theorem joinWith_append {sep : Text} {names others : List Text} (hnames : names ≠ []) (hothers : others ≠ []) :
    Text.joinWith sep (names ++ others) =
      Text.joinWith sep names ++ sep ++ Text.joinWith sep others := by
  induction names with
  | nil => exact absurd rfl hnames
  | cons name rest ih =>
    cases rest with
    | nil =>
      obtain ⟨other, more, rfl⟩ := List.exists_cons_of_ne_nil hothers
      rfl
    | cons next rest =>
      show name ++ sep ++ Text.joinWith sep (next :: rest ++ others) =
        name ++ sep ++ Text.joinWith sep (next :: rest) ++ sep ++ Text.joinWith sep others
      rw [ih (by simp)]
      simp only [List.append_assoc]

theorem joinWith_concat {sep : Text} {parts : List Text} (h : parts ≠ []) :
    Text.joinWith sep (parts ++ [t]) = Text.joinWith sep parts ++ sep ++ t :=
  joinWith_append h (List.cons_ne_nil t [])

/-- The text of what is in a directory goes on from that of the directory. -/
theorem toText_prefix_child (h : p.parts ≠ []) (ht : Place.IsName t) :
    p.toText <+: (p.child t).toText := by
  rw [Place.child_eq ht, toText_of_ne (Or.inr h), toText_of_ne (Or.inr (by simp)),
    joinWith_concat h, List.append_assoc]
  exact (List.prefix_append_right_inj _).mpr (List.prefix_append _ _)

theorem toText_child_inj {s : Text} (hs : Place.IsName s) (ht : Place.IsName t)
    (h : (p.child s).toText = (p.child t).toText) : s = t := by
  rw [Place.child_eq hs, Place.child_eq ht, toText_of_ne (Or.inr (by simp)),
    toText_of_ne (Or.inr (by simp))] at h
  have hjoin := List.append_cancel_left h
  by_cases hparts : p.parts = []
  · rw [hparts] at hjoin
    exact hjoin
  · rw [joinWith_concat hparts, joinWith_concat hparts] at hjoin
    exact List.append_cancel_left hjoin

end Path

namespace FileTree

variable {files : FileTree} {directory : Place}

theorem byteLength_mono {s t : Text} (h : s <+: t) : byteLength s ≤ byteLength t := by
  obtain ⟨rest, rfl⟩ := h
  unfold byteLength
  rw [List.flatMap_append, List.length_append]
  omega

theorem byteLength_of_ascii (h : ∀ c ∈ t, c.val < 0x80) : byteLength t = t.length := by
  have hone : ∀ c ∈ t, (Utf8.nameBytesOf c).length = 1 := by
    intro c hc
    have hval := h c hc
    have hescape : Utf8.isEscape c = false := by
      unfold Utf8.isEscape Utf8.firstSurrogate
      simp
      omega
    unfold Utf8.nameBytesOf Utf8.bytesOf
    rw [hescape, if_neg (by simp)]
    dsimp only
    rw [if_pos hval]
    rfl
  unfold byteLength
  rw [List.length_flatMap, List.map_congr_left hone]
  simp

/-! ## Finding -/

/-- The place of the directory that the path leads to. -/
def LeadsTo (files : FileTree) (directory : Place) (p : Path) (place : Place) : Prop :=
  files.walk (if p.isAbsolute then [] else directory) p.parts = .ok place ∧
    files.get? place = some .directory

theorem walk_concat {start : Place} {names : List Text} (ht : Place.IsName t)
    (hshort : byteLength t ≤ longestName) :
    files.walk start (names ++ [t]) = .ok q ↔
      ∃ place, files.walk start names = .ok place ∧ files.get? place = some .directory ∧
        q = place ++ [t] := by
  induction names generalizing start with
  | nil =>
    rw [List.nil_append, walk, walk]
    cases hnode : files.get? start with
    | none => simp [hnode]
    | some node =>
      cases node with
      | file content executable => simp [hnode]
      | directory =>
        dsimp only
        rw [if_neg ht.notUp, if_neg (by omega), ht.settled, walk]
        simp [hnode, eq_comm]
  | cons name names ih =>
    rw [List.cons_append, walk, walk]
    cases files.get? start with
    | none => simp
    | some node =>
      cases node with
      | file content executable => simp
      | directory =>
        dsimp only
        split
        · exact ih
        split
        · simp
        · exact ih

theorem locate_child (ht : Place.IsName t) (hshort : byteLength t ≤ longestName)
    (hlong : byteLength (p.child t).toText ≤ longestPath) :
    files.locate directory (p.child t) = .ok q ↔
      ∃ place, files.LeadsTo directory p place ∧ q = place ++ [t] := by
  unfold locate
  rw [if_neg (by omega), Place.child_eq ht]
  simp only [LeadsTo, and_assoc]
  exact walk_concat ht hshort

theorem leadsTo_of_locate (h : files.locate directory p = .ok place)
    (hnode : files.get? place = some .directory) : files.LeadsTo directory p place := by
  unfold locate at h
  split at h
  · exact absurd h (by simp)
  · exact ⟨h, hnode⟩

/-! ## Making directories -/

theorem get?_makeDirectory {files' : FileTree} (h : files.makeDirectory directory p = .ok files')
    (hq : Place.ofPath directory p ≠ q) : files'.get? q = files.get? q := by
  unfold makeDirectory at h
  cases hplace : files.locate directory p with
  | error problem => simp [hplace, bind, Except.bind] at h
  | ok place =>
    obtain rfl := locate_eq_ok hplace
    simp only [hplace, bind, Except.bind] at h
    split at h
    · exact absurd h (by simp)
    · rw [← Except.ok.inj h, get?_put_of_ne _ _ (Ne.symm hq)]

theorem get?_ensureOne (hq : Place.ofPath directory p ≠ q) :
    (files.ensureOne directory p).1.get? q = files.get? q := by
  unfold ensureOne
  split
  next files' hmake => exact get?_makeDirectory hmake hq
  next => split <;> rfl

/-- Making a directory touches no place that neither its path nor a part of it leads to. -/
theorem get?_ensureParts {root : Text} {parts : List Text}
    (hq : ∀ names, names <+: parts.reverse → Place.ofPath directory { root, parts := names } ≠ q) :
    (files.ensureParts directory root parts).1.get? q = files.get? q := by
  -- The parts stand in reverse: all above the last one is made before it.
  induction parts generalizing files with
  | nil => exact get?_ensureOne (hq _ (List.nil_prefix))
  | cons last above ih =>
    have habove := @ih files fun names hnames =>
      hq names (hnames.trans (by rw [List.reverse_cons]; exact List.prefix_append _ _))
    unfold ensureParts
    dsimp only
    split
    · split
      next made hmade =>
        rw [hmade] at habove
        rw [get?_ensureOne (hq _ (List.prefix_refl _)), habove]
      next => exact habove
    · exact get?_ensureOne (hq _ (List.prefix_refl _))

theorem get?_ensure
    (hq : ∀ names, names <+: p.parts → Place.ofPath directory { p with parts := names } ≠ q) :
    (files.ensure directory p).1.get? q = files.get? q :=
  get?_ensureParts (by rwa [List.reverse_reverse])

theorem ensure_eq_ensureOne (h : files.makeDirectory directory p ≠ .error .missing) :
    files.ensure directory p = files.ensureOne directory p := by
  unfold ensure
  cases hparts : p.parts.reverse with
  | nil =>
    have hnil : p.parts = [] := by simpa using hparts
    rw [ensureParts, ← hnil]
  | cons last above =>
    have hpath : ({ root := p.root, parts := (last :: above).reverse } : Path) = p := by
      rw [← hparts, List.reverse_reverse]
    unfold ensureParts
    rw [hpath]
    dsimp only
    split
    next hmissing => exact absurd hmissing h
    next => rfl

/-- A directory is there once it is made, if its path leads to a place where no file is. -/
theorem ensure_of_located (hlocate : files.locate directory p = .ok place)
    (hnode : ∀ content executable, files.get? place ≠ some (.file content executable)) :
    ∃ files', files.ensure directory p = (files', none) ∧
      files'.get? place = some .directory ∧ ∀ other ≠ place, files'.get? other = files.get? other := by
  cases hget : files.get? place with
  | none =>
    have hroot : place ≠ [] := by
      rintro rfl
      exact absurd hget (by simp)
    have hmake : files.makeDirectory directory p = .ok (files.put place .directory) := by
      unfold makeDirectory
      simp [hlocate, hget, bind, Except.bind]
    refine ⟨files.put place .directory, ?_, get?_put_self _ _ hroot,
      fun other hother => get?_put_of_ne _ _ hother⟩
    rw [ensure_eq_ensureOne (by rw [hmake]; simp), ensureOne, hmake]
  | some node =>
    cases node with
    | file content executable => exact absurd hget (hnode content executable)
    | directory =>
      have hmake : files.makeDirectory directory p = .error .alreadyThere := by
        unfold makeDirectory
        simp [hlocate, hget, bind, Except.bind]
      refine ⟨files, ?_, hget, fun _ _ => rfl⟩
      rw [ensure_eq_ensureOne (by rw [hmake]; simp), ensureOne, hmake]
      simp [isDirectory, hlocate, hget]

end FileTree

/-! ## Names -/

namespace RunId

/-- The text can be encoded, and the id of the run is not in it. -/
def Apart (n : Nat) (t : Text) : Prop := Text.Encodes t ∧ ¬ ofNat n <:+: t

theorem length_ofNat (n : Nat) : (ofNat n).length = 30 := by
  have hdigits : ∀ count n, (digits n count).length = count := by
    intro count
    induction count with
    | zero => exact fun _ => rfl
    | succ count ih => intro n; rw [digits, List.length_append, ih, List.length_singleton]
  rw [ofNat, List.length_append, hdigits]
  rfl

theorem apart_of_length_lt {t : Text} (hencodes : Text.Encodes t) (h : t.length < 30) :
    Apart n t := by
  refine ⟨hencodes, fun hinfix => ?_⟩
  have hlength := hinfix.length_le
  rw [length_ofNat] at hlength
  omega

theorem ofPaths_apart (n : Nat) : Text.OfPaths (Apart n) where
  hereditary _ _ h ht := ⟨Text.hereditary_encodes h ht.1, Text.hereditary_avoids _ h ht.2⟩
  encodes _ h := h.1
  agent := apart_of_length_lt (Text.encodes_of _) (by decide)
  screenshots := apart_of_length_lt (Text.encodes_of _) (by decide)

theorem Apart.ne_fileName (h : Apart n t) : t ≠ fileName n := by
  rintro rfl
  exact h.2 (List.prefix_append _ _).isInfix

theorem encodes_fileName (n : Nat) : Text.Encodes (fileName n) :=
  Text.encodes_append.mpr ⟨encodes_ofNat n, Text.encodes_of _⟩

theorem plain_fileName (n : Nat) : ∀ c ∈ fileName n, c.val < 0x80 ∧ c.val ≠ 0 :=
  List.forall_mem_append.mpr ⟨forall_mem_ofNat (by decide) (by decide), by decide⟩

end RunId

theorem Utf8.settledName_of_encodes (h : Text.Encodes t) : settledName t = t := by
  unfold settledName
  rw [if_neg]
  rw [List.any_eq_true]
  rintro ⟨c, hc, hescape⟩
  have hsurrogate := h c hc
  unfold isEscape firstSurrogate at hescape
  unfold CodePoint.isSurrogate at hsurrogate
  simp only [Bool.and_eq_true, Bool.and_eq_false_iff, decide_eq_true_eq,
    decide_eq_false_iff_not] at hescape hsurrogate
  omega

namespace Place

/-- The names that lead to a place are those of the directory and of the parts of the path. -/
theorem forall_mem_ofPath {Q : Text → Prop} {directory : Place}
    (hdirectory : ∀ name ∈ directory, Q name) (hparts : ∀ part ∈ p.parts, Q (Utf8.settledName part)) :
    ∀ name ∈ ofPath directory p, Q name := by
  have hfollow : ∀ (names : List Text) (start : Place), (∀ name ∈ start, Q name) →
      (∀ part ∈ names, Q (Utf8.settledName part)) → ∀ name ∈ follow start names, Q name := by
    intro names
    induction names with
    | nil => exact fun _ hstart _ => hstart
    | cons part rest ih =>
      intro start hstart hnames
      obtain ⟨hpart, hrest⟩ := List.forall_mem_cons.mp hnames
      rw [follow]
      refine ih _ ?_ hrest
      split
      · exact fun name hname => hstart name (List.mem_of_mem_dropLast hname)
      · exact List.forall_mem_append.mpr ⟨hstart, List.forall_mem_singleton.mpr hpart⟩
  refine hfollow p.parts _ ?_ hparts
  split
  · simp
  · exact hdirectory

/-- Where the records of runs are kept: beside the project file. -/
def runs (place : Place) : Place := place.dropLast ++ [Text.of "runs"]

/-- Where the record of a run goes. -/
def record (place : Place) (n : Nat) : Place := place.runs ++ [RunId.fileName n]

end Place

/-! ## Room for a record -/

namespace Machine

/-- No file is where the records of runs are kept, and no directory where that of the run goes. -/
structure HasRoom (place : Place) (n : Nat) (m : Machine) : Prop where
  runs : ∀ content executable, m.files.get? place.runs ≠ some (.file content executable)
  record : m.files.get? (place.record n) ≠ some .directory

/-- The path of the record is no longer than a path may be. -/
def NamesRecord (n : Nat) (m : Machine) : Prop :=
  ∀ outside root, (Layout.projectDirectory.run outside m).1 = .ok root →
    FileTree.byteLength (((Layout.agentDirectoryOf root).child "runs").child
      (RunId.fileName n)).toText ≤ FileTree.longestPath

theorem NamesRecord.of_setting (h : m.NamesRecord n) (hsetting : m'.setting = m.setting) :
    m'.NamesRecord n := by
  intro outside root hroot
  rw [Layout.asks_projectDirectory.answer_eq hsetting] at hroot
  exact h outside root hroot

/-- A directory whose path has no id of the run in it does not take its room. -/
theorem HasRoom.ensureDirectory (h : m.HasRoom place n) (hdirectory : ∀ name ∈ m.directory,
    RunId.Apart n name) (hp : p.All (RunId.Apart n)) (outside : Outside) :
    ((Task.ensureDirectory p).run outside m).2.HasRoom place n := by
  have hgrown : m.files.Grown ((Task.ensureDirectory p).run outside m).2.files :=
    (Task.quiet_ensureDirectory p m).files
  refine ⟨fun content executable hfile => h.runs _ _ (hgrown.file hfile), ?_⟩
  have hsame : ((Task.ensureDirectory p).run outside m).2.files.get? (place.record n) =
      m.files.get? (place.record n) := by
    unfold Task.ensureDirectory
    rw [Task.run_checkPath_bind]
    split
    · rfl
    rw [Task.run_read_bind]
    dsimp only
    rw [Task.run_change_bind]
    have hensure : (m.files.ensure m.directory p).1.get? (place.record n) =
        m.files.get? (place.record n) := by
      refine FileTree.get?_ensure fun names hnames heq => ?_
      have hall : ∀ name ∈ Place.ofPath m.directory { p with parts := names },
          RunId.Apart n name := by
        refine Place.forall_mem_ofPath hdirectory fun part hpart => ?_
        have hapart := hp.parts part (hnames.subset hpart)
        rwa [Utf8.settledName_of_encodes hapart.1]
      rw [heq] at hall
      exact (hall (RunId.fileName n) (by simp [Place.record])).ne_fileName rfl
    split <;> exact hensure
  rw [hsame]
  exact h.record

theorem record_ne (place : Place) (n : Nat) : place ≠ place.record n := by
  intro h
  have hlength := congrArg List.length h
  simp only [Place.record, Place.runs, List.length_append, List.length_dropLast,
    List.length_singleton] at hlength
  omega

/-- The directory of records: its path is fit, leads beside the project file, and is short enough
for the record of the run. -/
structure KeepsRecords (outside : Outside) (m : Machine) (place : Place) (n : Nat) (p : Path) :
    Prop where
  path : (Layout.runsDirectory.run outside m).1 = .ok p
  fit : p.Fit
  located : m.files.locate m.directory p = .ok place.runs
  short : FileTree.byteLength (p.child (RunId.fileName n)).toText ≤ FileTree.longestPath

theorem ReachesProject.exists_runs (h : m.ReachesProject place)
    (hsetting : m.setting.All Text.Encodes) (hnames : m.NamesRecord n) (outside : Outside) :
    ∃ p, KeepsRecords outside m place n p := by
  obtain ⟨p, hpath, hfit, hlocate⟩ := h outside
  have hfile : Place.IsName "features.json" := Place.isName_of_plain (by decide)
  have hruns : Place.IsName "runs" := Place.isName_of_plain (by decide)
  obtain ⟨root, hroot, rfl⟩ := Layout.root_of_featuresFile hpath
  have hencodes : (Layout.agentDirectoryOf root).Encodes := by
    have hall := (Layout.meets_projectDirectory (fun _ h => h) Text.hereditary_encodes).answer
      hsetting hroot
    have hchild := hall.child Text.hereditary_encodes (Text.encodes_of ".agent")
    exact ⟨hchild.root, hchild.parts⟩
  have hagent : (Layout.agentDirectoryOf root).Fit :=
    (Path.Fit.of_problem? ((Path.encodes_child hfile).mpr ⟨hencodes, Text.encodes_of _⟩)
      hfit).of_child hfile
  have hlong : FileTree.byteLength ((Layout.agentDirectoryOf root).child "features.json").toText ≤
      FileTree.longestPath := by
    unfold FileTree.locate at hlocate
    split at hlocate
    · exact absurd hlocate (by simp)
    next hlong => exact Nat.le_of_not_lt hlong
  obtain ⟨agent, hleads, rfl⟩ := (FileTree.locate_child hfile (by decide) hlong).mp hlocate
  have hshort := hnames outside root hroot
  refine ⟨(Layout.agentDirectoryOf root).child "runs", ?_, hagent.child hruns (Text.encodes_of _)
    (by decide), (FileTree.locate_child hruns (by decide) ?_).mpr ⟨agent, hleads, ?_⟩, hshort⟩
  · unfold Layout.runsDirectory Layout.agentDirectory
    rw [Task.run_bind_assoc, Task.run_bind, Layout.asks_projectDirectory.run_self, hroot]
    rfl
  · refine (FileTree.byteLength_mono (Path.toText_prefix_child ?_ (RunId.isName_fileName n))).trans
      hshort
    rw [Place.child_eq hruns]
    simp
  · simp [Place.runs]

/-- Nothing was printed, the project file and the way to it are as before, and there is room for the
record of the run. -/
structure Tended (place : Place) (n : Nat) (m m' : Machine) : Prop where
  undisturbed : m.Undisturbed place m'
  printed : m'.printed = m.printed
  room : m'.HasRoom place n

theorem Tended.withRecord (h : m.Tended place n m') (content : List UInt8) (executable : Bool) :
    m.Tended place n (m'.withFile (place.record n) content executable) where
  undisturbed := trans_of (Undisturbed place) h.undisturbed
    (undisturbed_withFile (record_ne place n) h.room.record content executable)
  printed := h.printed
  room := by
    refine ⟨fun content' executable' => ?_, ?_⟩
    · rw [withFile, FileTree.get?_put_of_ne _ _ (by simp [Place.record])]
      exact h.room.runs content' executable'
    · rw [withFile, FileTree.get?_put_self _ _ (by simp [Place.record])]
      simp

/-- The directory of records is made, and the record can be found in it. -/
theorem KeepsRecords.run_ensure (h : KeepsRecords outside m place n p) (hroom : m.HasRoom place n) :
    ∃ m', (Task.ensureDirectory p).run outside m = (.ok (), m') ∧ m.Tended place n m' ∧
      m'.files.locate m'.directory (p.child (RunId.fileName n)) = .ok (place.record n) := by
  obtain ⟨files, hensure, hmade, hothers⟩ := FileTree.ensure_of_located h.located hroom.runs
  have hgrown : m.files.Grown files := by
    have hgrown := FileTree.grown_ensure m.files m.directory p
    rwa [hensure] at hgrown
  have hshort : FileTree.byteLength (RunId.fileName n) ≤ FileTree.longestName := by
    rw [FileTree.byteLength_of_ascii fun c hc => (RunId.plain_fileName n c hc).1, RunId.fileName,
      List.length_append, RunId.length_ofNat]
    decide
  refine ⟨{ m with files }, Task.run_ensureDirectory outside h.fit.problem? hensure,
    ⟨undisturbed_of_grown rfl hgrown, rfl, ?_, ?_⟩, ?_⟩
  · exact fun content executable hfile => hroom.runs _ _ (hgrown.file hfile)
  · show files.get? (place.record n) ≠ _
    rw [hothers _ (by simp [Place.record])]
    exact hroom.record
  · refine (FileTree.locate_child (RunId.isName_fileName n) hshort h.short).mpr
      ⟨_, FileTree.leadsTo_of_locate ?_ hmade, rfl⟩
    exact FileTree.locate_of_directories (fun _ hnode => hgrown.get? hnode) h.located

end Machine

namespace CommandLine

variable {command : Text} {options : Options} {result : Value}

/-- The record of a run is written where there is room for it. -/
theorem run_writeRun (hreaches : m.ReachesProject place) (hsetting : m.setting.All Text.Encodes)
    (hroom : m.HasRoom place n) (hnames : m.NamesRecord n)
    (hclock : ∃ now, (Layout.now.run outside m).1 = .ok now)
    (hrecord : ∀ now, Printable (runRecord (RunId.ofNat n) command now options result)) :
    ∃ runPath m', (writeRun (RunId.ofNat n) command options result).run outside m =
      (.ok runPath, m') ∧ Text.Encodes runPath ∧ m.Tended place n m' := by
  obtain ⟨now, hnow⟩ := hclock
  obtain ⟨document, hwrite, hencodes⟩ := Json.printable_iff.mp (hrecord now)
  obtain ⟨p, hkeeps⟩ := hreaches.exists_runs hsetting hnames outside
  obtain ⟨m₁, hensure, htended, hlocate⟩ := hkeeps.run_ensure hroom
  have hfit : (p.child (RunId.fileName n)).Fit := hkeeps.fit.child (RunId.isName_fileName n)
    (RunId.encodes_fileName n) fun c hc => (RunId.plain_fileName n c hc).2
  have hsame : m₁.setting = m.setting := htended.undisturbed.setting
  obtain ⟨executable, hwritten, -⟩ := @Task.run_writeText_of_located outside _ _ _ _ _
    hfit.problem? hlocate htended.room.record (Utf8.encode_of_encodes hencodes)
  have hnow' : Layout.now.run outside m₁ = (.ok now, m₁) := by
    rw [Layout.asks_now.run outside hsame, hnow]
  have hdocument : (Project.writeDocument (p.child (RunId.fileName n))
      (runRecord (RunId.ofNat n) command now options result)).run outside m₁ = (.ok (),
      m₁.withFile (place.record n) (document.flatMap Utf8.bytesOf) executable) := by
    unfold Project.writeDocument
    rw [hwrite]
    exact hwritten
  refine ⟨(p.child (RunId.fileName n)).toText,
    m₁.withFile (place.record n) (document.flatMap Utf8.bytesOf) executable, ?_,
    Path.encodes_toText.mpr hfit.encodes, htended.withRecord _ _⟩
  unfold writeRun
  rw [Task.run_bind, Layout.asks_runsDirectory.run_self, hkeeps.path]
  dsimp only
  rw [Task.run_bind_ok hensure, Task.run_bind_ok hnow']
  exact Task.run_bind_ok hdocument _

end CommandLine

end Acceptance
