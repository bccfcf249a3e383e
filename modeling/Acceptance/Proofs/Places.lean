import Acceptance.Machine.Disk
import Acceptance.Proofs.Files
import Acceptance.Proofs.Task
import Acceptance.Proofs.Utf8

/-! # Where paths lead

A path leads to the same place whatever files there are, if it leads anywhere. So a file that is
written is known by its path, and every other file is spared. -/

namespace Acceptance

/-! ## Places -/

namespace Place

/-- Where the names lead from a place. -/
def follow : Place → List Text → Place
  | place, [] => place
  | place, name :: names =>
    follow (if name = Text.of ".." then place.dropLast else place ++ [Utf8.settledName name]) names

/-- Where a path leads, seen from a directory. -/
def ofPath (directory : Place) (p : Path) : Place :=
  follow (if p.isAbsolute then [] else directory) p.parts

theorem follow_append (place : Place) (names more : List Text) :
    follow place (names ++ more) = follow (follow place names) more := by
  induction names generalizing place with
  | nil => rfl
  | cons name names ih => rw [List.cons_append, follow, follow, ih]

/-- A name that stands for itself. -/
structure IsName (t : Text) : Prop where
  single : Path.ofText t = { root := "", parts := [t] }
  notUp : t ≠ Text.of ".."
  settled : Utf8.settledName t = t

theorem child_eq {t : Text} (h : IsName t) (p : Path) :
    p.child t = { p with parts := p.parts ++ [t] } := by
  unfold Path.child Path.join
  rw [h.single]
  rfl

theorem ofPath_child {t : Text} (h : IsName t) (directory : Place) (p : Path) :
    ofPath directory (p.child t) = ofPath directory p ++ [t] := by
  rw [child_eq h]
  unfold ofPath
  rw [follow_append, follow, if_neg h.notUp, h.settled]
  rfl

theorem splitOn_of_absent {t : Text} {c : CodePoint} (h : c ∉ t) : Text.splitOn c t = [t] := by
  induction t with
  | nil => rfl
  | cons d t ih =>
    rw [List.mem_cons, not_or] at h
    rw [Text.splitOn, if_neg (Ne.symm h.1), ih h.2]

/-- A text in ASCII without slashes, which is no row of points. -/
theorem isName_of_ascii {t : Text} (hascii : ∀ c ∈ t, c.val < 0x80) (hslash : ('/' : CodePoint) ∉ t)
    (hne : t ≠ []) (hpoint : t ≠ Text.of ".") (hpoints : t ≠ Text.of "..") : IsName t := by
  have hroot : Path.rootOf t = [] := by
    have hnone : t.takeWhile (· = ('/' : CodePoint)) = [] := by
      cases t with
      | nil => rfl
      | cons c rest =>
        have hc : c ≠ '/' := fun hc => hslash (by rw [hc]; exact List.mem_cons_self)
        rw [List.takeWhile_cons_of_neg (by simpa using hc)]
    unfold Path.rootOf
    rw [hnone]
    rfl
  have hparts : Path.partsOf t = [t] := by
    unfold Path.partsOf
    rw [splitOn_of_absent hslash]
    simp [hne, hpoint]
  refine ⟨?_, hpoints, ?_⟩
  · unfold Path.ofText
    rw [hroot, hparts]
    rfl
  · have hescape : t.any Utf8.isEscape = false := by
      rw [List.any_eq_false]
      intro c hc
      have hval := hascii c hc
      unfold Utf8.isEscape Utf8.firstSurrogate
      simp
      omega
    unfold Utf8.settledName
    rw [hescape]
    rfl

/-- The text is in ASCII without slashes, and no row of points. -/
def isPlainName (t : Text) : Bool :=
  t.all (fun c => c.val < 0x80 && c ≠ '/') && !t.isEmpty && t ≠ Text.of "." && t ≠ Text.of ".."

theorem isName_of_plain {t : Text} (h : isPlainName t = true) : IsName t := by
  simp only [isPlainName, Bool.and_eq_true, List.all_eq_true, Bool.not_eq_true',
    decide_eq_true_eq] at h
  obtain ⟨⟨⟨hall, hne⟩, hpoint⟩, hpoints⟩ := h
  refine isName_of_ascii (fun c hc => (hall c hc).1) (fun hslash => (hall _ hslash).2 rfl) ?_
    hpoint hpoints
  rintro rfl
  exact absurd hne (by decide)

/-- The place is that of a project file. -/
def EndsAsProject (place : Place) : Prop := place.getLast? = some (Text.of "features.json")

theorem endsAsProject_child {place : Place} (h : IsName "features.json") (directory : Place)
    (p : Path) (hplace : ofPath directory (p.child "features.json") = place) :
    place.EndsAsProject := by
  rw [← hplace, ofPath_child h]
  exact List.getLast?_concat

/-- A file with another name is another file. -/
theorem EndsAsProject.ne_child {place : Place} (h : place.EndsAsProject) {t : Text} (ht : IsName t)
    (hne : t ≠ Text.of "features.json") (directory : Place) (p : Path) :
    ofPath directory (p.child t) ≠ place := by
  intro heq
  have hchild := ofPath_child ht directory p
  have hlast : place.getLast? = some t := by
    rw [← heq]
    exact hchild ▸ List.getLast?_concat
  rw [EndsAsProject, hlast, Option.some.injEq] at h
  exact hne h

end Place

namespace Path

/-- The text of the path can be encoded. -/
structure Encodes (p : Path) : Prop where
  root : Text.Encodes p.root
  parts : ∀ part ∈ p.parts, Text.Encodes part

theorem encodes_joinWith {sep : Text} (hsep : Text.Encodes sep) (pieces : List Text) :
    Text.Encodes (Text.joinWith sep pieces) ↔ ∀ piece ∈ pieces, Text.Encodes piece := by
  induction pieces with
  | nil => simp [Text.joinWith, Text.Encodes]
  | cons piece rest ih =>
    cases rest with
    | nil => simp [Text.joinWith]
    | cons next rest =>
      rw [Text.joinWith, Text.encodes_append, Text.encodes_append, ih, List.forall_mem_cons]
      · simp [hsep]
      · simp

theorem encodes_toText {p : Path} : Text.Encodes p.toText ↔ p.Encodes := by
  have hslash : Text.Encodes "/" := by
    intro c hc
    rw [List.mem_singleton.mp hc]
    rfl
  unfold toText
  split
  next hempty =>
    obtain ⟨hroot, hparts⟩ : p.root = [] ∧ p.parts = [] := by simpa using hempty
    have hpoint : Text.Encodes "." := by
      intro c hc
      rw [List.mem_singleton.mp hc]
      rfl
    exact ⟨fun _ => ⟨by simp [hroot, Text.Encodes], by simp [hparts]⟩, fun _ => hpoint⟩
  next =>
    rw [Text.encodes_append, encodes_joinWith hslash]
    exact ⟨fun h => ⟨h.1, h.2⟩, fun h => ⟨h.root, h.parts⟩⟩

theorem encodes_child {t : Text} (h : Place.IsName t) {p : Path} :
    (p.child t).Encodes ↔ p.Encodes ∧ Text.Encodes t := by
  rw [Place.child_eq h]
  constructor
  · intro hchild
    have hparts := List.forall_mem_append.mp hchild.parts
    exact ⟨⟨hchild.root, hparts.1⟩, hparts.2 t (List.mem_singleton_self t)⟩
  · intro ⟨hp, ht⟩
    refine ⟨hp.root, List.forall_mem_append.mpr ⟨hp.parts, fun part hpart => ?_⟩⟩
    rwa [List.mem_singleton.mp hpart]

end Path

namespace FileTree

variable {files files' : FileTree} {place other directory : Place} {path : Path}

/-! ## Finding -/

theorem walk_eq_ok {names : List Text} (h : files.walk place names = .ok other) :
    other = Place.follow place names := by
  induction names generalizing place with
  | nil => exact (Except.ok.inj h).symm
  | cons name names ih =>
    unfold walk at h
    unfold Place.follow
    split at h
    · exact absurd h (by simp)
    · exact absurd h (by simp)
    · split at h
      next hup => rw [if_pos hup]; exact ih h
      next hup =>
        split at h
        · exact absurd h (by simp)
        · rw [if_neg hup]; exact ih h

theorem locate_eq_ok (h : files.locate directory path = .ok place) :
    place = Place.ofPath directory path := by
  unfold locate at h
  split at h
  · exact absurd h (by simp)
  · exact walk_eq_ok h

/-! ## Sparing a file -/

/-- The second tree has the file at a place that the first has there, and the directories above. -/
structure Spares (place : Place) (files files' : FileTree) : Prop where
  file : ∀ {content executable}, files.get? place = some (.file content executable) →
    files'.get? place = some (.file content executable)
  above : ∀ {q}, q <+: place → files.get? q = some .directory → files'.get? q = some .directory

instance : IsPreorder FileTree (Spares place) where
  refl _ := ⟨id, fun _ => id⟩
  trans _ _ _ h k := ⟨k.file ∘ h.file, fun hq => k.above hq ∘ h.above hq⟩

theorem Grown.spares (h : Grown files files') : Spares place files files' :=
  ⟨h.get?, fun _ => h.get?⟩

/-! ## Writing -/

/-- A file is written where its path leads, unless a directory is there. -/
theorem write_eq_ok {content : List UInt8} (h : files.write directory path content = .ok files') :
    files.locate directory path = .ok (Place.ofPath directory path) ∧
      files.get? (Place.ofPath directory path) ≠ some .directory ∧
      ∃ executable, files' = files.put (Place.ofPath directory path) (.file content executable) ∧
        ∀ {old x}, files.get? (Place.ofPath directory path) = some (.file old x) →
          executable = x := by
  unfold write at h
  cases hlocate : files.locate directory path with
  | error problem => simp [hlocate, bind, Except.bind] at h
  | ok place =>
    obtain rfl := locate_eq_ok hlocate
    simp only [hlocate, bind, Except.bind] at h
    refine ⟨rfl, ?_⟩
    split at h
    next old executable hnode =>
      rw [hnode]
      refine ⟨by simp, executable, (Except.ok.inj h).symm, fun hold => ?_⟩
      rw [Option.some.injEq, Node.file.injEq] at hold
      exact hold.2
    next => exact absurd h (by simp)
    next hnode =>
      rw [hnode]
      exact ⟨by simp, false, (Except.ok.inj h).symm, by simp⟩

/-- A file can be written where a path leads, unless a directory is there. -/
theorem write_of_located (hlocate : files.locate directory path = .ok place)
    (hnode : files.get? place ≠ some .directory) (content : List UInt8) :
    ∃ executable, files.write directory path content =
        .ok (files.put place (.file content executable)) ∧
      ∀ {old x}, files.get? place = some (.file old x) → executable = x := by
  unfold write
  rw [hlocate]
  cases hget : files.get? place with
  | none => exact ⟨false, by simp [bind, Except.bind, hget], by simp⟩
  | some node =>
    cases node with
    | directory => exact absurd hget hnode
    | file old executable =>
      refine ⟨executable, by simp [bind, Except.bind, hget], fun hold => ?_⟩
      exact (Node.file.inj (Option.some.inj hold)).2

theorem ne_root_of_not_directory (h : files.get? place ≠ some .directory) : place ≠ [] := by
  rintro rfl
  exact h (get?_root files)

/-- A file that is put where no directory is leaves the directories as they are. -/
theorem directory_put {content : List UInt8} {executable : Bool}
    (h : files.get? place ≠ some .directory) (hother : files.get? other = some .directory) :
    (files.put place (.file content executable)).get? other = some .directory := by
  have hne : other ≠ place := by
    rintro rfl
    exact h hother
  rw [get?_put_of_ne _ _ hne, hother]

theorem spares_put {content : List UInt8} {executable : Bool} (hne : place ≠ other)
    (h : files.get? place ≠ some .directory) :
    Spares other files (files.put place (.file content executable)) := by
  refine ⟨fun hfile => ?_, fun _ hq => directory_put h hq⟩
  rw [get?_put_of_ne _ _ (Ne.symm hne), hfile]

theorem spares_write {content : List UInt8} (hne : Place.ofPath directory path ≠ other)
    (h : files.write directory path content = .ok files') : Spares other files files' := by
  obtain ⟨-, hnode, executable, rfl, -⟩ := write_eq_ok h
  exact spares_put hne hnode

end FileTree

namespace Machine

/-- The machine with a file at a place. -/
def withFile (m : Machine) (place : Place) (content : List UInt8) (executable : Bool) : Machine :=
  { m with files := m.files.put place (.file content executable) }

@[simp] theorem withFile_setting (m : Machine) (place : Place) (content : List UInt8)
    (executable : Bool) : (m.withFile place content executable).setting = m.setting := rfl

/-- The second machine has the file at a place that the first has there, and the same setting. -/
structure Spares (place : Place) (m m' : Machine) : Prop where
  setting : m'.setting = m.setting
  files : m.files.Spares place m'.files

instance {place : Place} : IsPreorder Machine (Spares place) where
  refl _ := ⟨rfl, refl_of (FileTree.Spares place) _⟩
  trans _ _ _ h k := ⟨k.setting.trans h.setting, trans_of (FileTree.Spares place) h.files k.files⟩

end Machine

namespace Task

variable {outside : Outside} {m : Machine} {p : Path} {t : Text}

/-! ## Files on a machine -/

theorem run_checkPath_bind {α : Type} (p : Path) (f : Unit → Task α) :
    (checkPath p >>= f).run outside m =
      match pathProblem? p with
      | some fault => (.error fault, m)
      | none => (f ()).run outside m := by
  unfold checkPath
  cases pathProblem? p <;> rfl

theorem run_ensureDirectory (outside : Outside) {files : FileTree}
    {refusal : Option (FileProblem × Path)} (hpath : pathProblem? p = none)
    (hensure : m.files.ensure m.directory p = (files, refusal)) :
    (ensureDirectory p).run outside m =
      (refusal.elim (.ok ()) fun r => .error (.file r.1 r.2.toText), { m with files }) := by
  unfold ensureDirectory
  rw [run_checkPath_bind, hpath]
  dsimp only
  rw [run_read_bind, hensure]
  cases refusal <;> rfl

/-- A change of files that fails changes nothing. -/
theorem run_changeFiles (outside : Outside) (m : Machine) (p : Path)
    (f : FileTree → Place → Except FileProblem FileTree) :
    (∃ fault, (changeFiles p f).run outside m = (.error fault, m)) ∨
      ∃ files, pathProblem? p = none ∧ f m.files m.directory = .ok files ∧
        (changeFiles p f).run outside m = (.ok (), { m with files }) := by
  unfold changeFiles onFiles
  rw [run_bind_assoc, run_checkPath_bind]
  cases hproblem : pathProblem? p with
  | some fault => exact Or.inl ⟨fault, rfl⟩
  | none =>
    rw [run_bind_assoc, run_read_bind]
    cases hf : f m.files m.directory with
    | error problem => exact Or.inl ⟨_, rfl⟩
    | ok files => exact Or.inr ⟨files, rfl, rfl, rfl⟩

/-- What can be encoded is in the file where a path leads, once it is written. -/
theorem run_writeText_of_located {place : Place} {content : List UInt8}
    (hpath : pathProblem? p = none) (hlocate : m.files.locate m.directory p = .ok place)
    (hnode : m.files.get? place ≠ some .directory) (hencode : Utf8.encode t = .ok content) :
    ∃ executable, (writeText p t).run outside m = (.ok (), m.withFile place content executable) ∧
      ∀ {old x}, m.files.get? place = some (.file old x) → executable = x := by
  have hchange : ∀ (m' : Machine) (files : FileTree) (bytes : List UInt8),
      m'.files.write m'.directory p bytes = .ok files →
      (changeFiles p fun files directory => files.write directory p bytes).run outside m' =
        (.ok (), { m' with files }) := by
    intro m' files bytes hwrite
    unfold changeFiles onFiles
    rw [run_bind_assoc, run_checkPath_bind, hpath]
    dsimp only
    rw [run_bind_assoc, run_read_bind, hwrite]
    rfl
  obtain ⟨executable, hempty, hsame⟩ := FileTree.write_of_located hlocate hnode []
  have hroot := FileTree.ne_root_of_not_directory hnode
  -- The emptied file is found again: the directories on the way to it are still there.
  have hagain : (m.files.put place (.file [] executable)).write m.directory p content =
      .ok (m.files.put place (.file content executable)) := by
    have hkept : ∀ q, m.files.get? q = some .directory →
        (m.files.put place (.file [] executable)).get? q = some .directory :=
      fun _ h => FileTree.directory_put hnode h
    have hlocate' := FileTree.locate_of_directories hkept hlocate
    simp only [FileTree.write, hlocate', bind, Except.bind, FileTree.get?_put_self _ _ hroot,
      FileTree.put_put]
  refine ⟨executable, ?_, hsame⟩
  unfold writeText
  rw [run_bind_ok (hchange m _ [] hempty), hencode]
  exact hchange (m.withFile place [] executable) _ content hagain

/-- What can be encoded is refused, and nothing happens, or it is in the file where the path
leads. -/
theorem run_writeText {content : List UInt8} (hencode : Utf8.encode t = .ok content) :
    (∃ fault, (writeText p t).run outside m = (.error fault, m)) ∨
      m.files.get? (Place.ofPath m.directory p) ≠ some .directory ∧
      ∃ executable, (writeText p t).run outside m =
        (.ok (), m.withFile (Place.ofPath m.directory p) content executable) := by
  rcases run_changeFiles outside m p (fun files directory => files.write directory p [])
    with ⟨fault, hfault⟩ | ⟨files, hpath, hwrite, hrun⟩
  · unfold writeText
    exact Or.inl ⟨fault, run_bind_error hfault _⟩
  · obtain ⟨hlocate, hnode, -⟩ := FileTree.write_eq_ok hwrite
    obtain ⟨executable, hwritten, -⟩ := run_writeText_of_located hpath hlocate hnode hencode
    exact Or.inr ⟨hnode, executable, hwritten⟩

/-- What cannot be encoded is refused, and by then the file where the path leads may be empty. -/
theorem run_writeText_unencodable (hencode : ¬ Text.Encodes t) :
    (∃ fault, (writeText p t).run outside m = (.error fault, m)) ∨
      m.files.get? (Place.ofPath m.directory p) ≠ some .directory ∧
      ∃ fault executable, (writeText p t).run outside m =
        (.error fault, m.withFile (Place.ofPath m.directory p) [] executable) := by
  unfold writeText
  rcases run_changeFiles outside m p (fun files directory => files.write directory p [])
    with ⟨fault, hfault⟩ | ⟨files, -, hwrite, hrun⟩
  · exact Or.inl ⟨fault, run_bind_error hfault _⟩
  right
  rw [run_bind_ok hrun]
  obtain ⟨-, hnode, executable, rfl, -⟩ := FileTree.write_eq_ok hwrite
  refine ⟨hnode, ?_⟩
  cases hbytes : Utf8.encode t with
  | ok bytes => exact absurd (Utf8.encodes_of_encode hbytes) hencode
  | error problem => exact ⟨_, executable, rfl⟩

/-- Writing spares every file but the one where the path leads. -/
theorem spares_writeText {place : Place} (h : Place.ofPath m.directory p ≠ place) :
    m.Spares place ((writeText p t).run outside m).2 := by
  have hchange : ∀ (m' : Machine) (content : List UInt8), m'.directory = m.directory →
      m'.Spares place ((changeFiles p fun files directory =>
        files.write directory p content).run outside m').2 := by
    intro m' content hdirectory
    rcases run_changeFiles outside m' p (fun files directory => files.write directory p content)
      with ⟨fault, hfault⟩ | ⟨files, -, hwrite, hrun⟩
    · rw [hfault]
      exact refl_of (Machine.Spares place) m'
    · rw [hrun]
      rw [← hdirectory] at h
      exact ⟨rfl, FileTree.spares_write h hwrite⟩
  unfold writeText
  rw [run_bind]
  have hempty := hchange m [] rfl
  rcases hrun : (changeFiles p fun files directory => files.write directory p []).run outside m
    with ⟨fault | u, m₁⟩
  · rwa [hrun] at hempty
  · rw [hrun] at hempty
    dsimp only
    split
    · refine trans_of (Machine.Spares place) hempty (hchange m₁ _ ?_)
      exact congrArg Setting.directory hempty.setting
    · exact hempty

end Task

end Acceptance
