import Acceptance.Proofs.Changes
import Acceptance.Proofs.Holding

/-! # Answers of project commands

The commands that look into the project file, or add to it, answer whatever the file holds. -/

namespace Acceptance

open Json (Encodable Printable)

variable {outside : Outside} {place : Place} {m m' : Machine} {p : Path} {data : Entries}
  {entries : List Entries}

/-! ## Parts that can be printed -/

theorem Json.Printable.getD {fields : Entries} (h : Printable (.object fields))
    (htexts : ∀ e ∈ fields, e.1.isText = true) (key : Text) {standard : Value}
    (hstandard : Printable standard) : Printable ((fields.get? key).getD standard) := by
  cases hget : fields.get? key with
  | none => exact hstandard
  | some v => exact h.get? htexts hget

/-- The keys are texts, and everything under them can be printed. -/
structure Json.PrintableFields (fields : Entries) : Prop where
  texts : ∀ e ∈ fields, e.1.isText = true
  printable : Printable (.object fields)

theorem Json.PrintableFields.getD {fields : Entries} (h : PrintableFields fields) (key : Text)
    {standard : Value} (hstandard : Printable standard) :
    Printable ((fields.get? key).getD standard) :=
  h.printable.getD h.texts key hstandard

theorem CommandLine.printable_progressOf {fields : Entries} (h : Json.PrintableFields fields) :
    Printable (progressOf fields) := by
  have hzero : Printable (.int 0) := Json.printable_int Value.isLongInt_zero
  refine Json.printable_record.mpr ?_
  simp only [List.forall_mem_cons, Text.encodes_of, true_and]
  exact ⟨h.getD _ hzero, h.getD _ hzero, h.getD _ hzero, by simp⟩

namespace Project

/-- What is known of a well-formed project that was loaded. -/
structure Sound (data : Entries) (entries : List Entries) : Prop where
  wellFormed : WellFormed data entries
  fit : Fit entries
  fields : Json.PrintableFields data
  kept : Json.Kept Json.mostNested (.object data)

theorem Loaded.sound (h : Loaded outside m place p data entries)
    (hwellFormed : WellFormed data entries) : Sound data entries where
  wellFormed := hwellFormed
  fit := h.fit (fun e he => (hwellFormed.entries e he).ordinary)
    (Value.isLongInt_mono (Nat.le_succ _) hwellFormed.count)
  fields := ⟨(Json.kept_object.mp h.kept).1.texts, h.printable⟩
  kept := h.kept

namespace Sound

variable (h : Sound data entries)
include h

theorem exists_tally : ∃ tally, Tally.ofValues (entries.map .object) = .ok tally ∧
    Printable tally.toValue := by
  have hcounted : ∀ e ∈ entries, Entry.Counted e := fun e he =>
    (h.fit.ordinary e he).counted (h.wellFormed.encodable_entry he)
  obtain ⟨tally, htally, -, hprintable⟩ := Tally.exists_tally hcounted h.fit.count
  exact ⟨tally, by rw [Tally.ofValues_objects, htally], hprintable⟩

/-- The metadata of the project, if it is an object. -/
theorem metadata_fields {fields : Entries} (hget : data.get? "metadata" = some (.object fields)) :
    Json.PrintableFields fields :=
  ⟨(Json.kept_object.mp (Json.kept_get? h.kept hget)).1.texts,
    h.fields.printable.get? h.fields.texts hget⟩

/-- The status tells of the metadata, or of a tally in its place. -/
theorem statusOf_eq : ∃ fields, Json.PrintableFields fields ∧
    CommandLine.statusOf ⟨data, entries.map .object⟩ = .ok (Value.record
      [("project_name", Entries.getD data "project_name"),
        ("progress", CommandLine.progressOf fields),
        ("by_priority", (Entries.get? fields "by_priority").getD (.object [])),
        ("by_category", (Entries.get? fields "by_category").getD (.object [])),
        ("next_feature", match (Selection.agenda entries).head? with
          | some e => .object e
          | none => .null)]) := by
  obtain ⟨tally, htally, hprintable⟩ := h.exists_tally
  have hnext := Selection.next_eq fun e he => (h.fit.ordinary e he).priority
  by_cases htruthy : (Entries.getD data "metadata").isTruthy = true
  · obtain ⟨fields, hfields⟩ : ∃ fields, data.get? "metadata" = some (.object fields) := by
      cases hget : data.get? "metadata" with
      | none =>
        unfold Entries.getD at htruthy
        rw [hget] at htruthy
        exact absurd htruthy (by decide)
      | some v =>
        obtain ⟨fields, rfl⟩ := h.wellFormed.metadata v hget
        exact ⟨fields, rfl⟩
    refine ⟨fields, h.metadata_fields hfields, ?_⟩
    unfold CommandLine.statusOf
    dsimp only
    rw [if_pos htruthy, Entry.getD_of_get? hfields, hnext]
    rfl
  · refine ⟨_, ⟨Json.texts_record _, hprintable⟩, ?_⟩
    unfold CommandLine.statusOf
    dsimp only
    rw [if_neg htruthy, htally, hnext]
    rfl

theorem printable_next : ∀ e ∈ (Selection.agenda entries).head?, Printable (.object e) := by
  intro e he
  exact h.fit.printable e (Selection.mem_agenda.mp (List.mem_of_head? he)).1

end Sound

end Project

/-! ## New entries -/

theorem Entry.Says.ordinary {id : Text} {g : Given} {marks : Nat} {e : Entries}
    (h : Says id g marks e) : Ordinary e where
  id := ⟨id, h.id⟩
  priority := by
    rw [getD_of_get? h.priority]
    trivial
  category := by
    rw [getD_of_get? h.category]
    trivial

theorem Project.Fit.append {e : Entries} (h : Fit entries) (he : Entry.Ordinary e)
    (hkept : Json.Kept 983 (.object e)) (hprintable : Printable (.object e))
    (hcount : Value.isLongInt (entries.length + 1) = false) : Fit (entries ++ [e]) where
  ordinary := List.forall_mem_append.mpr ⟨h.ordinary, List.forall_mem_singleton.mpr he⟩
  kept := List.forall_mem_append.mpr ⟨h.kept, List.forall_mem_singleton.mpr hkept⟩
  printable := List.forall_mem_append.mpr ⟨h.printable, List.forall_mem_singleton.mpr hprintable⟩
  count := by rwa [List.length_append]

theorem Entry.printable_newEntry {id : Text} {g : Given} (hid : Text.Encodes id)
    (hpriority : Text.Encodes g.priority) (htexts : ∀ t ∈ g.texts, Text.Encodes t) :
    Printable (.object (newEntry id g)) := by
  obtain ⟨hdescription, hcategory, hsteps⟩ :
      Text.Encodes g.description ∧ Text.Encodes g.category ∧ ∀ t ∈ g.steps, Text.Encodes t := by
    simpa [Given.texts] using htexts
  have hempty : Printable (.list []) := Json.printable_list.mpr (by simp)
  refine Json.printable_record.mpr ?_
  simp only [newFields, List.forall_mem_cons, Text.encodes_of, true_and, Json.printable_text]
  exact ⟨hid, hcategory, hpriority, hdescription, Json.printable_texts.mpr hsteps, hempty, hempty,
    Json.printable_bool _, Json.printable_int Value.isLongInt_zero, by simp⟩

/-! ## Selections -/

namespace Selection

/-- Entries are selected, or it is told that there is no such status. -/
theorem comes_select (entries : List Entries) {status : Text} (hstatus : Text.Encodes status)
    (priority : Value) :
    Task.Comes (fun items => ∃ p : Entries → Bool, items = (entries.filter p).map .object)
      Fault.Refuses (select (entries.map .object) status priority) := by
  rcases hname : Status.ofName status with fault | wanted
  · unfold select
    rw [hname]
    unfold Status.ofName at hname
    split at hname
    · exact absurd hname (by simp)
    split at hname
    · exact absurd hname (by simp)
    split at hname
    · exact absurd hname (by simp)
    · rw [← Except.error.inj hname]
      simpa [Task.Comes, bind, Except.bind, Fault.Refuses, Invalid.message] using hstatus
  · rw [select_objects hname]
    exact ⟨_, rfl⟩

end Selection

/-! ## Status and next feature -/

namespace CommandLine

variable (hfile : m.HasProjectFile place) (hsetting : m.setting.All Text.Encodes)
include hfile hsetting

/-- A command that goes on with the project answers, if it answers once the project is there. -/
theorem answered_of_project {command : Text} (hcommand : Text.Encodes command)
    {next : Project → Task Nat}
    (hnext : ∀ data entries, Project.Sound data entries →
      Answered m ((next ⟨data, entries.map .object⟩).run outside m)) :
    Answered m ((prepared Project.load (projectError? command · []) next).run outside m) := by
  rcases Project.load_cases hfile hsetting outside with ⟨fault, hrun, hfault⟩ | ⟨data, entries, h⟩
  · rw [run_prepared_error _ hrun]
    exact answered_refuse m (tells_projectError hcommand (by simp) hfault)
  · obtain ⟨p, hloaded⟩ := h.loaded outside
    rw [run_prepared_ok _ _ hloaded.run]
    exact hnext data entries (hloaded.sound h.wellFormed)

/-- Once the project is loaded, what is answered is up to what is done with it. -/
theorem answered_of_load {α : Type} {f : Project → Task α} {onResult : α → Task Envelope}
    {command : Text} (hcommand : Text.Encodes command) {details : List (Text × Value)}
    (hdetails : ∀ d ∈ details, Text.Encodes d.1 ∧ Printable d.2)
    (hnext : ∀ data entries, m.Holds place data entries →
      Answered m ((answer (f ⟨data, entries.map .object⟩) onResult
        (projectError? command · details)).run outside m)) :
    Answered m ((answer (Project.load >>= f) onResult
      (projectError? command · details)).run outside m) := by
  rcases Project.load_cases hfile hsetting outside with ⟨fault, hrun, hfault⟩ | ⟨data, entries, h⟩
  · rw [run_answer_error onResult (Task.run_bind_error hrun f)]
    exact answered_refuse m (tells_projectError hcommand hdetails hfault)
  · obtain ⟨p, hloaded⟩ := h.loaded outside
    have hsame : (answer (Project.load >>= f) onResult
        (projectError? command · details)).run outside m =
        (answer (f ⟨data, entries.map .object⟩) onResult
          (projectError? command · details)).run outside m := by
      unfold answer
      rw [Task.run_attempt_bind, Task.run_attempt_bind, Task.run_bind_ok hloaded.run]
    rw [hsame]
    exact hnext data entries h

theorem answered_status (outside : Outside) : Answered m (runStatus.run outside m) := by
  refine answered_of_project hfile hsetting (Text.encodes_of _) fun data entries h => ?_
  obtain ⟨fields, hfields, hstatus⟩ := h.statusOf_eq
  have hempty : Printable (.object []) := Json.printable_empty
  rw [hstatus, Task.run_ofExcept_ok_bind]
  refine answered_emit outside m (Envelope.printable_ok (Text.encodes_of _) ?_)
  refine Json.printable_record.mpr ?_
  simp only [List.forall_mem_cons, Text.encodes_of, true_and]
  refine ⟨h.fields.getD _ Json.printable_null, printable_progressOf hfields,
    hfields.getD _ hempty, hfields.getD _ hempty, ?_, by simp⟩
  split
  next e he => exact h.printable_next e he
  next => exact Json.printable_null

theorem answered_next (outside : Outside) : Answered m (runNext.run outside m) := by
  refine answered_of_project hfile hsetting (Text.encodes_of _) fun data entries h => ?_
  have hnext := Selection.next_eq fun e he => (h.fit.ordinary e he).priority
  dsimp only
  rw [hnext, Task.run_ofExcept_ok_bind]
  refine answered_emit outside m (Envelope.printable_ok (Text.encodes_of _) ?_)
  refine Json.printable_record.mpr ?_
  simp only [List.forall_mem_cons, Text.encodes_of, true_and]
  refine ⟨?_, Json.printable_bool _, by simp⟩
  split
  next e he => exact h.printable_next e he
  next => exact Json.printable_null

/-! ## Lists -/

theorem answered_list {filter : Text} {priority : Option Text} (hfilter : Text.Encodes filter)
    (hpriority : ∀ t ∈ priority, Text.Encodes t) (outside : Outside) :
    Answered m ((runList filter priority).run outside m) := by
  refine answered_of_load hfile hsetting (Text.encodes_of _)
    (List.forall_mem_singleton.mpr ⟨Text.encodes_of _, Json.printable_text.mpr hfilter⟩)
    fun data entries h => ?_
  obtain ⟨p, hloaded⟩ := h.loaded outside
  have hsound := hloaded.sound h.wellFormed
  have hselect := Selection.comes_select entries hfilter (Value.ofText? priority)
  dsimp only
  rcases hitems : Selection.select (entries.map .object) filter (Value.ofText? priority) with
    fault | items
  · rw [hitems] at hselect
    rw [run_answer_error _ (Task.run_ofExcept _)]
    exact answered_refuse m (tells_projectError (Text.encodes_of _)
      (List.forall_mem_singleton.mpr ⟨Text.encodes_of _, Json.printable_text.mpr hfilter⟩)
      hselect.expected)
  · rw [hitems] at hselect
    obtain ⟨p, rfl⟩ := hselect
    rw [run_answer_ok _ _ (Task.run_ofExcept _), Task.run_pure_bind]
    refine answered_emit outside m ?_
    have hlist : Printable (.list ((entries.filter p).map .object)) := by
      rw [Json.printable_list, List.forall_mem_map]
      exact fun e he => hsound.fit.printable e (List.mem_of_mem_filter he)
    have hcount : Printable (.int ((entries.filter p).map Value.object).length) := by
      refine Json.printable_int (Value.isLongInt_mono ?_ hsound.fit.count)
      rw [List.length_map]
      exact List.length_filter_le _ _
    refine Envelope.printable_limited (Text.encodes_of "list") ?_ (by simp) ?_
    · refine Json.printable_record.mpr ?_
      simp only [List.forall_mem_cons, Text.encodes_of, true_and]
      exact ⟨hlist, hcount, by simp⟩
    · refine Json.printable_record.mpr ?_
      simp only [List.forall_mem_cons, Text.encodes_of, true_and]
      exact ⟨Json.printable_text.mpr hfilter, Json.printable_ofText?.mpr hpriority, by simp⟩

/-! ## Adding and accepting -/

variable (hclock : ∀ outside, ∃ now, (Layout.now.run outside m).1 = .ok now)
include hclock

theorem answered_add {g : Entry.Given} (hpriority : Text.Encodes g.priority)
    (htexts : ∀ t ∈ g.texts, Text.Encodes t) (outside : Outside) :
    Answered m ((runAdd g.description g.priority g.category g.steps).run outside m) := by
  have hcategory : Text.Encodes g.category := htexts _ (by simp [Entry.Given.texts])
  have hdetails : ∀ d ∈ [(Text.of "priority", Value.text g.priority),
      (Text.of "category", Value.text g.category)], Text.Encodes d.1 ∧ Printable d.2 := by
    simp [Json.printable_text, hpriority, hcategory]
  refine answered_of_load hfile hsetting (Text.encodes_of _) hdetails fun data entries h => ?_
  obtain ⟨p, hloaded⟩ := h.loaded outside
  have hsound := hloaded.sound h.wellFormed
  dsimp only
  rw [Entry.create_eq, List.length_map]
  by_cases hknown : g.priority ∈ Entry.priorities
  · obtain ⟨now, hnow⟩ := hclock outside
    have hid : Text.Encodes (Entry.idOf (entries.length + 1)) := Entry.encodes_idOf _
    have hprintable := Entry.printable_newEntry hid hpriority htexts
    have hkept : Json.Kept 983 (.object (Entry.newEntry (Entry.idOf (entries.length + 1)) g)) :=
      Json.kept_mono _ (by decide) (Entry.kept_newEntry hid hknown htexts)
    have hsays := Entry.says_newEntry (Entry.idOf (entries.length + 1)) g
    generalize Entry.newEntry (Entry.idOf (entries.length + 1)) g = e at hprintable hkept hsays ⊢
    obtain ⟨tally, content, executable, -, hsave, -⟩ := hloaded.run_save
      (hsound.fit.append hsays.ordinary hkept hprintable h.wellFormed.count) hnow
    rw [List.map_append, List.map_singleton] at hsave
    have hadd : (do
        let feature ← Task.ofExcept (.ok (Value.object e))
        let _ ← Project.save ⟨data, entries.map .object ++ [feature]⟩
        pure feature : Task Value).run outside m =
        (.ok (.object e), m.withFile place content executable) := by
      rw [Task.run_ofExcept_ok_bind, Task.run_bind_ok hsave]
      rfl
    rw [if_pos hknown, run_answer_ok _ _ hadd, Task.run_pure_bind]
    exact (answered_emit outside _ (printable_added hprintable)).of_printed rfl
  · have hfault : (Fault.invalid (.priority g.priority)).Expected := by
      simpa [Fault.Expected, Invalid.message] using hpriority
    rw [if_neg hknown, run_answer_error _ (Task.run_ofExcept_error_bind _ _)]
    exact answered_refuse m (tells_projectError (Text.encodes_of _) hdetails hfault)

theorem answered_done {id : Text} {notes : Option Text} (hid : Text.Encodes id)
    (hnotes : ∀ t ∈ notes, Text.Encodes t) (outside : Outside) :
    Answered m ((runDone id notes).run outside m) := by
  refine answered_of_load hfile hsetting (Text.encodes_of _) (by simp) fun data entries h => ?_
  obtain ⟨p, hloaded⟩ := h.loaded outside
  rcases Project.locate_cases entries id with ⟨k, e, hlocate, -⟩ | hmissing
  · obtain ⟨u, tally, content, executable, hu, htally, hmark⟩ :=
      Project.run_markDone_of_holds h hclock hlocate hnotes outside
    unfold Project.markDone at hmark
    rw [Task.run_bind_ok hloaded.run] at hmark
    rw [run_answer_ok _ _ hmark, Task.run_pure_bind]
    exact (answered_emit outside _ (printable_accepted hu htally)).of_printed rfl
  · dsimp only
    rw [hmissing, run_answer_error _ (Task.run_ofExcept_error_bind _ _)]
    exact answered_refuse m (tells_projectError (Text.encodes_of _) (by simp) hid)

/-! ## Examining -/

section

omit hfile hsetting hclock

theorem printable_checkOf {name : Text} {ok : Bool} {details : List (Text × Value)}
    (hname : Text.Encodes name) (hdetails : ∀ d ∈ details, Text.Encodes d.1 ∧ Printable d.2) :
    Printable (checkOf name ok details) := by
  refine Json.printable_record.mpr ?_
  simp only [List.forall_mem_cons, Text.encodes_of, true_and, Json.printable_text]
  exact ⟨hname, Json.printable_bool ok, Json.printable_record.mpr hdetails, by simp⟩

variable {S : Entries → Prop} {E : Fault → Prop}

theorem meets_toolCheck {I : Machine → Prop} (hI : ∀ m, I m → m.setting.All Text.Encodes)
    {name tool : Text} (hname : Text.Encodes name) (htool : Text.Encodes tool) :
    (toolCheck name tool).Meets outside I Printable E := by
  refine Task.meets_bind (P := fun path => ∀ t ∈ path, Text.Encodes t)
    (Task.meets_read fun m hm => ?_) fun path hpath => Task.meets_pure ?_
  · have hdirectory : Text.Encodes m.toolDirectory := (hI m hm).toolDirectory
    split
    · simp [hdirectory, htool]
    · simp
  · refine printable_checkOf (by simp [hname]) (List.forall_mem_singleton.mpr ?_)
    exact ⟨Text.encodes_of _, Json.printable_ofText?.mpr hpath⟩

/-- The examination tells of all that it finds, also of settings that cannot be read. -/
theorem replies_doctor (hfile : m.HasProjectFile place) (hsetting : m.setting.All Text.Encodes)
    (hconfigured : m.Configured S) (hS : ∀ entries, S entries → Encodable (.object entries)) :
    Replies outside (m.LearnsOf S) m runDoctor := by
  have hI : ∀ m', m.LearnsOf S m' → m'.setting.All Text.Encodes := fun m' h => h.setting ▸ hsetting
  obtain ⟨root, isProject, hroot, hexists⟩ := hfile.exists_root outside
  obtain ⟨file, hpath, hlocate⟩ := hconfigured.file outside
  obtain ⟨isThere, hthere⟩ := Task.exists_pathExists outside hlocate
  have hrootAll : root.All Text.Encodes :=
    (Layout.meets_projectDirectory (fun _ h => h) Text.hereditary_encodes).answer hsetting hroot
  have hfeatures : Text.Encodes (Layout.featuresFileOf root).toText :=
    Path.all_encodes.mp ((hrootAll.child Text.hereditary_encodes (Text.encodes_of _)).child
      Text.hereditary_encodes (Text.encodes_of _))
  have htold := Settings.encodes_of_file hsetting hpath
  have hdetails : ∀ d ∈ [(Text.of "path", Value.text file.toText),
      (Text.of "exists", Value.bool isThere)], Text.Encodes d.1 ∧ Printable d.2 := by
    simp [Json.printable_text, Json.printable_bool, htold]
  refine replies_bind
    (Layout.asks_projectDirectory.meets_of_ok (P := (root = ·)) (fun _ h => h.setting) hroot rfl) ?_
  rintro _ rfl
  refine replies_bind (Task.meets_pathExists hexists) ?_
  rintro _ rfl
  refine replies_bind (Task.meets_environment? hI _) fun override hoverride => ?_
  refine replies_bind
    (Settings.asks_file.meets_of_ok (P := (file = ·)) (fun _ h => h.setting) hpath rfl) ?_
  rintro _ rfl
  refine replies_bind (Task.meets_pathExists (congrArg Prod.fst hthere)) ?_
  rintro _ rfl
  have hproject : Printable (checkOf "project.path" isProject
      [("path", .text root.toText), ("features_file", .text (Layout.featuresFileOf root).toText),
        ("override", Value.ofText? override)]) := by
    refine printable_checkOf (Text.encodes_of _) ?_
    simp only [List.forall_mem_cons, Text.encodes_of, true_and]
    exact ⟨Json.printable_text.mpr (Path.all_encodes.mp hrootAll),
      Json.printable_text.mpr hfeatures, Json.printable_ofText?.mpr hoverride, by simp⟩
  -- The tools are looked for in the same way whether the settings could be read or not.
  have htools : ∀ found : Text × Value, Text.Encodes found.1 ∧ Printable found.2 →
      Replies outside (m.LearnsOf S) m (do
        let browser ← toolCheck "agent-browser" found.1
        let npm ← toolCheck "npm" "npm"
        let git ← toolCheck "git" "git"
        emit (.ok "doctor" (Value.record [("checks", .list [checkOf "project.path" isProject
          [("path", .text root.toText),
            ("features_file", .text (Layout.featuresFileOf root).toText),
            ("override", Value.ofText? override)], found.2, browser, npm, git])]))) := by
    rintro ⟨binary, settings⟩ ⟨hbinary, hsettings⟩
    refine replies_bind (meets_toolCheck hI (Text.encodes_of _) hbinary) fun browser hbrowser => ?_
    refine replies_bind (meets_toolCheck hI (Text.encodes_of _) (Text.encodes_of _))
      fun npm hnpm => ?_
    refine replies_bind (meets_toolCheck hI (Text.encodes_of _) (Text.encodes_of _))
      fun git hgit => ?_
    refine replies_emit (fun _ h => h.printed) (Envelope.printable_ok (Text.encodes_of _) ?_)
    refine Json.printable_record.mpr (List.forall_mem_singleton.mpr ⟨Text.encodes_of _, ?_⟩)
    simp [Json.printable_list, hproject, hsettings, hbrowser, hnpm, hgit]
  refine replies_bind (Task.meets_attempt (Settings.meets_encodedText hconfigured hsetting hS _
    (Text.encodes_of _))) fun result hresult => ?_
  split
  next binary =>
    exact replies_bind
      (Task.meets_pure ⟨hresult, printable_checkOf (Text.encodes_of _) hdetails⟩) htools
  next cause =>
    refine replies_bind (Task.meets_pure ⟨Text.encodes_of _,
      printable_checkOf (Text.encodes_of _) (List.forall_mem_append.mpr ⟨hdetails, ?_⟩)⟩) htools
    exact List.forall_mem_singleton.mpr ⟨Text.encodes_of _, Json.printable_text.mpr hresult⟩
  next fault hother =>
    obtain ⟨cause, rfl, -⟩ := hresult.exists_cause
    exact absurd rfl (hother cause)

end

end CommandLine

end Acceptance
