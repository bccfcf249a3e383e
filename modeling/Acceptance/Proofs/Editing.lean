import Acceptance.Proofs.TestCommands

/-! # Edits of the project file

A test takes a while, and other programs may edit the project file meanwhile. The test itself does
not: whatever happens to the file from its beginning to its end is the work of others. -/

namespace Acceptance

/-! ## Files that stay the same -/

namespace FileTree

variable {files files' : FileTree} {place other : Place}

/-- Both trees have the same file at the place, or neither has one. -/
def SameFile (place : Place) (files files' : FileTree) : Prop :=
  ∀ content executable, files'.get? place = some (.file content executable) ↔
    files.get? place = some (.file content executable)

instance : IsPreorder FileTree (SameFile place) where
  refl _ _ _ := Iff.rfl
  trans _ _ _ h k content executable := (k content executable).trans (h content executable)

theorem Grown.sameFile (h : Grown files files') : files.SameFile place files' :=
  fun _ _ => ⟨h.file, h.get?⟩

theorem sameFile_put (h : place ≠ other) (node : Node) :
    files.SameFile place (files.put other node) := by
  intro content executable
  rw [get?_put_of_ne _ _ h]

end FileTree

variable {outside : Outside} {place : Place} {m m' : Machine}

namespace Machine

/-- From the first machine to the second, no one but other programs did anything to the file at the
place. -/
inductive Edited (outside : Outside) (place : Place) (m : Machine) : Machine → Prop
  | start : Edited outside place m m
  | own {m₁ m₂ : Machine} (h : Edited outside place m m₁) (hsetting : m₂.setting = m₁.setting)
      (hfiles : m₁.files.SameFile place m₂.files) : Edited outside place m m₂
  | other {m₁ : Machine} {effect : Place → Surroundings → Surroundings}
      (h : Edited outside place m m₁) (hdoes : Does outside effect) (call : Call) :
      Edited outside place m (m₁.after call effect)

namespace Edited

theorem setting (h : m.Edited outside place m') : m'.setting = m.setting := by
  induction h with
  | start => rfl
  | own _ hsetting _ ih => exact hsetting.trans ih
  | other _ _ _ ih => exact ih

/-- If the others leave the file alone, it is the same in the end. -/
theorem sameFile (h : m.Edited outside place m')
    (houtside : ∀ effect, Does outside effect → ∀ directory s,
      FileTree.SameFile place s.files (effect directory s).files) :
    m.files.SameFile place m'.files := by
  induction h with
  | start => exact refl_of (FileTree.SameFile place) _
  | own _ _ hfiles ih => exact trans_of (FileTree.SameFile place) ih hfiles
  | @other m₁ effect _ hdoes _ ih =>
    exact trans_of (FileTree.SameFile place) ih (houtside effect hdoes _ m₁.toSurroundings)

instance : IsPreorder Machine (Edited outside place) where
  refl _ := .start
  trans _ _ _ h k := by
    induction k with
    | start => exact h
    | own _ hsetting hfiles ih => exact ih.own hsetting hfiles
    | other _ hdoes call ih => exact ih.other hdoes call

end Edited

theorem edited_of_files (hsetting : m'.setting = m.setting) (hfiles : m'.files = m.files) :
    m.Edited outside place m' :=
  .own .start hsetting (hfiles ▸ refl_of (FileTree.SameFile place) _)

theorem admits_edited : Admits outside (Edited outside place) where
  quiet h := .own .start h.setting h.files.sameFile
  learns := by
    rintro m _ ⟨settings, rfl⟩
    exact edited_of_files rfl rfl
  counts _ := edited_of_files rfl rfl
  after hdoes _ call := .other .start hdoes call

/-- The second machine has the same file at the place, and nothing more is printed. -/
structure Keeps (place : Place) (m m' : Machine) : Prop where
  setting : m'.setting = m.setting
  files : m.files.SameFile place m'.files
  printed : m'.printed = m.printed

instance : IsPreorder Machine (Keeps place) where
  refl _ := ⟨rfl, refl_of (FileTree.SameFile place) _, rfl⟩
  trans _ _ _ h k := ⟨k.setting.trans h.setting, trans_of (FileTree.SameFile place) h.files k.files,
    k.printed.trans h.printed⟩

theorem Keeps.edited (h : m.Keeps place m') : m.Edited outside place m' :=
  .own .start h.setting h.files

theorem keeps_withFile {other : Place} (h : place ≠ other) (content : List UInt8)
    (executable : Bool) : m.Keeps place (m.withFile other content executable) :=
  ⟨rfl, FileTree.sameFile_put h _, rfl⟩

end Machine

/-! ## Documents -/

namespace Project

variable {p : Path} {v : Value}

theorem writeDocument_eq_ok (h : (writeDocument p v).run outside m = (.ok (), m')) :
    m.files.get? (Place.ofPath m.directory p) ≠ some .directory ∧
      ∃ document executable, Json.write v = .ok document ∧
        m' = m.withFile (Place.ofPath m.directory p) (document.flatMap Utf8.bytesOf) executable := by
  cases hwrite : Json.write v with
  | error fault =>
    unfold writeDocument at h
    rw [hwrite] at h
    exact absurd (Prod.mk.inj h).1 (by simp)
  | ok document =>
    rcases run_writeDocument outside m p hwrite with
      ⟨fault, hrun⟩ | ⟨hnode, executable, ⟨-, hrun⟩ | ⟨-, fault, hrun⟩⟩ <;> rw [hrun] at h
    · exact absurd (Prod.mk.inj h).1 (by simp)
    · exact ⟨hnode, document, executable, rfl, (Prod.mk.inj h).2.symm⟩
    · exact absurd (Prod.mk.inj h).1 (by simp)

theorem keeps_writeDocument (h : Place.ofPath m.directory p ≠ place) (v : Value) :
    m.Keeps place ((writeDocument p v).run outside m).2 := by
  cases hwrite : Json.write v with
  | error fault =>
    unfold writeDocument
    rw [hwrite]
    exact refl_of (Machine.Keeps place) m
  | ok document =>
    rcases run_writeDocument outside m p hwrite with
      ⟨fault, hrun⟩ | ⟨-, executable, ⟨-, hrun⟩ | ⟨-, fault, hrun⟩⟩ <;> rw [hrun]
    · exact refl_of (Machine.Keeps place) m
    · exact Machine.keeps_withFile h.symm _ _
    · exact Machine.keeps_withFile h.symm _ _

end Project

/-! ## Tests -/

namespace CommandLine

theorem edited_printed (m : Machine) (t : Text) : m.Edited outside place (printed m t) :=
  Machine.edited_of_files rfl rfl

/-- A record is written without touching the project file. -/
theorem keeps_writeRun (hplace : place.EndsAsProject) (n : Nat) (command : Text)
    (options : Options) (result : Value) :
    (writeRun (RunId.ofNat n) command options result).Leaves outside (Machine.Keeps place) := by
  refine Task.leaves_bind Layout.asks_runsDirectory.leaves fun directory => ?_
  refine Task.leaves_bind ((Task.quiet_ensureDirectory directory).mono fun _ _ h =>
    ⟨h.setting, h.files.sameFile, h.printed⟩) fun _ => ?_
  refine Task.leaves_bind Layout.asks_now.leaves fun now => ?_
  refine Task.leaves_bind (fun m => ?_) fun _ => Task.leaves_pure _
  exact Project.keeps_writeDocument
    (hplace.ne_child (RunId.isName_fileName n) (RunId.fileName_ne n) m.directory directory) _

/-- A test leaves the project file to the others. -/
theorem edited_runTest (hplace : place.EndsAsProject) (id : Option Text) (all : Bool)
    (given : Options.Given) :
    (runTest id all given).Leaves outside (Machine.Edited outside place) :=
  leaves_runTest Machine.admits_edited edited_printed
    (fun n _ _ _ => (keeps_writeRun hplace n _ _ _).mono fun _ _ h => h.edited) id all given

end CommandLine

end Acceptance
