import Acceptance.Proofs.TestCommands

/-! # Exports and what only reads

An export writes the data of the project to any file. If that is the project file, it holds what is
on record as before. The commands that ask for something leave it alone. -/

namespace Acceptance

variable {outside : Outside} {place : Place} {m m' : Machine} {register : List Item}

namespace Machine

/-- The second machine has on record what the first has. -/
def KeepsRecord (place : Place) (register : List Item) (m m' : Machine) : Prop :=
  m.KeepsProjectAt place → m.Records place register →
    m'.setting = m.setting ∧ m'.Records place register

instance : IsPreorder Machine (KeepsRecord place register) where
  refl _ _ hrecords := ⟨rfl, hrecords⟩
  trans _ _ _ h k hat hrecords := by
    obtain ⟨hsetting, hrecords'⟩ := h hat hrecords
    obtain ⟨hsetting', hrecords''⟩ := k (hat.of_setting hsetting) hrecords'
    exact ⟨hsetting'.trans hsetting, hrecords''⟩

theorem Spares.keepsRecord (h : m.Spares place m') : m.KeepsRecord place register m' :=
  fun _ hrecords => ⟨h.setting, hrecords.of_spares h⟩

end Machine

/-- The data on record can be written into any file, that of the project included. -/
theorem Project.keepsRecord_writeDocument {entries : List Entries} {data : Entries}
    (h : Stored register entries data) (p : Path) :
    (writeDocument p (.object data)).Leaves outside (Machine.KeepsRecord place register) := by
  intro m
  by_cases hplace : Place.ofPath m.directory p = place
  · have hwrite := Json.write_of_writable h.writable
    have hkept := Json.kept_mono _ (by decide : 4 ≤ Json.mostNested) h.kept
    rcases run_writeDocument outside m p hwrite with
      ⟨fault, hrun⟩ | ⟨hnode, executable, ⟨-, hrun⟩ | ⟨hencodes, -⟩⟩
    · rw [hrun]
      exact refl_of (Machine.KeepsRecord place register) m
    · rw [hrun]
      rw [hplace] at hnode ⊢
      exact fun _ _ => ⟨rfl, entries, data, _, executable, h, hwrite,
        Machine.get?_withFile hnode _ _⟩
    · exact absurd (Json.plain_document hkept hwrite).encodes hencodes
  · exact (spares_writeDocument hplace _).keepsRecord

theorem Export.keepsRecord_run (output : Option Text) :
    (run output).Leaves outside (Machine.KeepsRecord place register) := by
  intro m hat hrecords
  unfold run
  rcases Project.load_record outside hrecords hat with
    ⟨⟨fault, hload⟩, -⟩ | ⟨project, entries, hload, -, hstored⟩
  · rw [Task.run_bind_error hload]
    exact ⟨rfl, hrecords⟩
  rw [Task.run_bind_ok hload]
  have hstandard : standardFile.Leaves outside (Machine.KeepsRecord place register) :=
    Task.leaves_bind Layout.asks_stamp.leaves fun _ => Task.leaves_pure _
  have hwrite : ∀ target, (do
      let target ← Layout.fromProject target
      Task.ensureDirectory target.parent
      Project.writeDocument target (.object project.data)
      pure target : Task Path).Leaves outside (Machine.KeepsRecord place register) := by
    intro target
    refine Task.leaves_bind (Layout.asks_fromProject target).leaves fun target => ?_
    refine Task.leaves_bind ((Task.spares_ensureDirectory _).mono fun _ _ h => h.keepsRecord)
      fun _ => ?_
    exact Task.leaves_bind (Project.keepsRecord_writeDocument hstored target) fun _ =>
      Task.leaves_pure _
  split
  · exact Task.leaves_bind hstandard hwrite m hat hrecords
  · exact Task.leaves_bind hstandard hwrite m hat hrecords
  · exact Task.leaves_bind (Task.leaves_pure _) hwrite m hat hrecords

namespace CommandLine

theorem settled_export (h : m.Records place register) (hat : m.KeepsProjectAt place)
    (output : Option Text) (texts : List Text) :
    Settled m place register texts (· = register) ((runExport output).run outside m) := by
  have hexported : (exportedFile output).Leaves outside (Machine.KeepsRecord place register) :=
    Task.leaves_bind (Export.keepsRecord_run output) fun target =>
      Task.leaves_bind (Task.leaves_fileSize target) fun _ => Task.leaves_pure _
  have hrun : (runExport output).Leaves outside (Machine.KeepsRecord place register) := by
    refine Task.leaves_bind (Task.leaves_attempt hexported) fun result => ?_
    rcases result with fault | ⟨target, size⟩
    · exact (spares_refuse (projectError? "export" · []) fault).mono fun _ _ h => h.keepsRecord
    · exact Task.leaves_bind (Task.leaves_pure _) fun e =>
        (spares_emit e).mono fun _ _ h => h.keepsRecord
  obtain ⟨hsetting, hrecords⟩ := hrun m hat h
  exact settled_of_records hsetting hrecords

/-! ## Commands that only read -/

theorem spares_runStatus : runStatus.Leaves outside (Machine.Spares place) :=
  leaves_prepared spares_printed _ Project.leaves_load fun _ =>
    Task.leaves_bind (Task.leaves_ofExcept _) fun _ => spares_emit _

theorem spares_runNext : runNext.Leaves outside (Machine.Spares place) :=
  leaves_prepared spares_printed _ Project.leaves_load fun _ =>
    Task.leaves_bind (Task.leaves_ofExcept _) fun _ => spares_emit _

theorem spares_runList (filter : Text) (priority : Option Text) :
    (runList filter priority).Leaves outside (Machine.Spares place) :=
  leaves_answer spares_printed _ (Task.leaves_bind Project.leaves_load fun _ => Task.leaves_ofExcept _) fun _ =>
    Task.leaves_pure _

theorem spares_runCommit (houtside : outside.Spares place) (id message : Option Text) :
    (runCommit id message).Leaves outside (Machine.Spares place) :=
  leaves_answer spares_printed _ (Commit.leaves_run (Machine.admits_spares houtside) id message) fun _ =>
    Task.leaves_bind (Task.leaves_ofExcept _) fun _ => Task.leaves_pure _

end CommandLine

end Acceptance
