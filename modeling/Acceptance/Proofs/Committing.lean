import Acceptance.Proofs.Recording
import Acceptance.Proofs.Replying
import Acceptance.Proofs.Reporting

/-! # Answers while other programs run

Other programs write nothing beside the project file but pictures. So the project is still there when
a commit looks into it again, and whatever the other programs answer, the commit does so, too. -/

namespace Acceptance

open Json (Encodable Printable)

variable {outside : Outside} {place q : Place} {m m' : Machine} {n : Nat} {data : Entries}
  {entries : List Entries}

/-! ## Other programs -/

/-- The place is that of a picture. -/
def Place.IsPicture (q : Place) : Prop := ∃ name, q.getLast? = some name ∧ Text.of ".png" <:+ name

/-- Other programs keep the directories on the way to the project file, and write nothing beside the
file but pictures. -/
structure Outside.SparesProject (outside : Outside) (m : Machine) (place : Place) : Prop where
  way : ∀ {effect}, Machine.Does outside effect → ∀ directory (s : Surroundings) {q}, m.OnWay q →
    s.files.get? q = some .directory → (effect directory s).files.get? q = some .directory
  beside : ∀ {effect}, Machine.Does outside effect → ∀ directory (s : Surroundings) {q : Place},
    place.dropLast <+: q → ¬ q.IsPicture → (effect directory s).files.get? q = s.files.get? q

/-- Programs that change nothing keep everything. -/
theorem Outside.sparesProject_of_still
    (h : ∀ {effect}, Machine.Does outside effect → ∀ directory s, effect directory s = s)
    (m : Machine) (place : Place) : outside.SparesProject m place where
  way hdoes directory s _ _ hq := by rwa [h hdoes]
  beside hdoes directory s _ _ _ := by rw [h hdoes]

theorem Place.not_isPicture {name : Text} (h : ¬ Text.of ".png" <:+ name) :
    ¬ (q ++ [name]).IsPicture := by
  rintro ⟨last, hlast, hpicture⟩
  rw [List.getLast?_concat] at hlast
  exact h (Option.some.inj hlast ▸ hpicture)

theorem RunId.not_picture (n : Nat) : ¬ Text.of ".png" <:+ fileName n := by
  intro h
  have hjson : Text.of ".json" <:+ fileName n := List.suffix_append _ _
  have hboth := List.suffix_of_suffix_length_le h hjson (by decide)
  exact absurd hboth (by decide)

namespace Machine

/-- Nothing was printed, and the project file and the way to it are as before. -/
structure Minded (place : Place) (m m' : Machine) : Prop where
  undisturbed : m.Undisturbed place m'
  printed : m'.printed = m.printed

theorem Tended.minded (h : m.Tended place n m') : m.Minded place m' := ⟨h.undisturbed, h.printed⟩

variable (hout : outside.SparesProject m place) (hplace : place.EndsAsProject)
include hout hplace

theorem steady_minded : Steady outside (m.Minded place) where
  of_same hsetting hfiles hprinted h :=
    { undisturbed := trans_of (Undisturbed place) h.undisturbed
        (undisturbed_of_grown hsetting (by rw [hfiles]; exact refl_of FileTree.Grown _))
      printed := hprinted.trans h.printed }
  after hdoes m₁ call h := by
    refine ⟨⟨h.undisturbed.setting, fun hfile => ?_, fun hq hnode => ?_⟩, h.printed⟩
    · obtain ⟨front, hfront⟩ := List.getLast?_eq_some_iff.mp hplace
      have hpicture : ¬ place.IsPicture := hfront ▸ Place.not_isPicture (by decide)
      rw [after_toSurroundings, hout.beside hdoes _ _ (List.dropLast_prefix place) hpicture]
      exact h.undisturbed.file hfile
    · exact hout.way hdoes _ _ hq (h.undisturbed.way hq hnode)

theorem steady_tended : Steady outside (m.Tended place n) where
  of_same hsetting hfiles hprinted h := by
    have hminded := (steady_minded hout hplace).of_same hsetting hfiles hprinted h.minded
    exact ⟨hminded.undisturbed, hminded.printed, ⟨hfiles ▸ h.room.runs, hfiles ▸ h.room.record⟩⟩
  after hdoes m₁ call h := by
    have hminded := (steady_minded hout hplace).after hdoes m₁ call h.minded
    have hruns : place.dropLast <+: place.runs := List.prefix_append _ _
    refine ⟨hminded.undisturbed, hminded.printed, ⟨fun content executable => ?_, ?_⟩⟩
    · have hpicture : ¬ place.runs.IsPicture := Place.not_isPicture (by decide)
      rw [after_toSurroundings, hout.beside hdoes _ _ hruns hpicture]
      exact h.room.runs content executable
    · have hrecord : place.dropLast <+: place.record n := hruns.trans (List.prefix_append _ _)
      have hpicture : ¬ (place.record n).IsPicture := Place.not_isPicture (RunId.not_picture n)
      rw [after_toSurroundings, hout.beside hdoes _ _ hrecord hpicture]
      exact h.room.record

end Machine

/-! ## Programs that are waited for -/

/-- The codes of programs that are waited for can be written. -/
def Outside.TellsCodes (outside : Outside) : Prop :=
  ∀ history argv, Value.isLongInt (outside.check history argv).answer.code = false

namespace Fault

/-- What a commit is refused for, and this can be told. -/
def Declines : Fault → Prop
  | .notARepository path => Text.Encodes path
  | .nothingToCommit => True
  | .toolMissing tool => Text.Encodes tool
  | .processFailed command code _ errors =>
    (∀ t ∈ command, Text.Encodes t) ∧ Value.isLongInt code = false ∧ Text.Encodes errors
  | fault => fault.Expected

variable {fault : Fault}

theorem Expected.declines (h : fault.Expected) : fault.Declines := by
  cases fault <;> first | exact h | exact h.elim

end Fault

theorem CommandLine.tells_commitError {fault : Fault} (h : fault.Declines) :
    Tells commitError? fault := by
  have hcommand : Text.Encodes "commit" := Text.encodes_of _
  cases fault with
  | notARepository path =>
    have hpath : Text.Encodes path := h
    refine ⟨_, rfl, Envelope.printable_error hcommand (by simp [Fault.message, hpath]) ?_⟩
    simp [Json.printable_record, Json.printable_text, hpath]
  | nothingToCommit =>
    exact ⟨_, rfl, Envelope.printable_error hcommand (Text.encodes_of _) Json.printable_empty⟩
  | toolMissing tool =>
    have htool : Text.Encodes tool := h
    refine ⟨_, rfl, Envelope.printable_error hcommand (by simp [Fault.message, htool]) ?_⟩
    simp [Json.printable_record, Json.printable_text, htool]
  | processFailed command code output errors =>
    obtain ⟨hargs, hcode, herrors⟩ := h
    have hline : Text.Encodes (Text.joinWith " " command) :=
      (Path.encodes_joinWith (Text.encodes_of " ") command).mpr hargs
    refine ⟨_, rfl, Envelope.printable_error hcommand (by simp [Fault.message, hline]) ?_⟩
    simp [Json.printable_record, Json.printable_text, Json.printable_int hcode, herrors.takeEnd]
  | projectMissing path =>
    exact @tells_projectError "commit" [] (.projectMissing path) hcommand (by simp) h
  | featureMissing id =>
    exact @tells_projectError "commit" [] (.featureMissing id) hcommand (by simp) h
  | invalid cause => exact @tells_projectError "commit" [] (.invalid cause) hcommand (by simp) h
  | _ => exact h.elim

section

variable {I : Machine → Prop} (hI : Machine.Steady outside I) (hcodes : outside.TellsCodes)
include hI hcodes

theorem Task.meets_runChecked {argv : List Text} (hargv : ∀ t ∈ argv, Text.Encodes t)
    (directory : Option Text) :
    (runChecked argv directory).Meets outside I (fun o => Text.Encodes o.output)
      Fault.Declines := by
  have houtput : ∀ bytes, (outputText bytes).Meets outside I Text.Encodes Fault.Declines := by
    intro bytes
    unfold outputText
    split
    next t hdecode => exact meets_pure (Utf8.encodes_of_decode hdecode).withLineFeeds
    next problem _ => exact meets_fail (Utf8.Undecodable.encodes_message problem)
  have hcheck : (check argv directory).Meets outside I
      (fun finished => Value.isLongInt finished.code = false) Fault.Declines :=
    fun m hm => ⟨hcodes m.calls argv, hI.after (.check m.calls argv) m _ hm⟩
  unfold runChecked
  split
  · exact meets_fail (Text.encodes_of _)
  refine meets_bind hcheck fun finished hcode => ?_
  refine meets_bind (houtput _) fun output hout => meets_bind (houtput _) fun errors herrors => ?_
  split
  · exact meets_pure hout
  · exact meets_fail ⟨hargv, hcode, herrors⟩

theorem Commit.meets_requireRepository {root : Text} (hroot : Text.Encodes root) :
    (requireRepository root).Meets outside I (fun _ => True) Fault.Declines := by
  refine Task.meets_bind (Task.meets_attempt (Task.meets_runChecked hI hcodes (by simp) _))
    fun result hresult => ?_
  split
  · exact Task.meets_pure trivial
  · exact Task.meets_fail hroot
  · exact Task.meets_fail hresult

end

/-! ## Commits -/

namespace Commit

/-- The description that is shown for an entry. -/
def describe (e : Entries) : Text := ((e.get? "description").getD "").shown

theorem descriptionOf_eq (id : Value) (entries : List Entries) :
    descriptionOf id (entries.map .object) =
      .ok ((entries.find? fun e => Entry.hasId e id).map describe) := by
  induction entries with
  | nil => rfl
  | cons e rest ih =>
    rw [List.map_cons, List.find?_cons]
    show (if Entry.hasId e id then _ else descriptionOf id (rest.map .object)) = _
    split
    next hid =>
      rw [hid]
      rfl
    next hid => rw [Bool.eq_false_iff.mpr hid, ih]

theorem comes_descriptionOf (id : Value) (h : ∀ e ∈ entries, Encodable (.object e)) :
    ∃ description, descriptionOf id (entries.map .object) = .ok description ∧
      ∀ t ∈ description, Text.Encodes t := by
  refine ⟨_, descriptionOf_eq id entries, fun t ht => ?_⟩
  obtain ⟨e, hfind, rfl⟩ := Option.map_eq_some_iff.mp ht
  refine Value.encodes_shown ?_
  cases hget : e.get? "description" with
  | none => exact Text.encodes_of _
  | some v => exact (h e (List.mem_of_find?_eq_some hfind)).get? hget

section

variable {I : Machine → Prop} {E : Fault → Prop} (hload : Project.load.Meets outside I
    (· = ⟨data, entries.map .object⟩) E) (hencodable : ∀ e ∈ entries, Encodable (.object e))
include hload hencodable

theorem meets_message {id given : Option Text} (hgiven : ∀ t ∈ given, Text.Encodes t) :
    (message id given).Meets outside I Text.Encodes E := by
  unfold message
  split
  · exact Task.meets_pure (hgiven _ rfl)
  next c rest _ =>
    refine Task.meets_bind hload ?_
    rintro _ rfl
    obtain ⟨description, hdescription, hall⟩ := comes_descriptionOf (.text (c :: rest)) hencodable
    dsimp only
    rw [hdescription]
    refine Task.meets_bind (P := fun found => ∀ t ∈ found, Text.Encodes t)
      (Task.meets_pure hall) fun found hfound => ?_
    split
    next t => exact Task.meets_pure (by simpa using hfound t rfl)
    next => exact Task.meets_pure (Text.encodes_of _)
  · exact Task.meets_pure (Text.encodes_of _)

end

theorem meets_load_minded (h : m.Holds place data entries) {E : Fault → Prop} :
    Project.load.Meets outside (m.Minded place) (· = ⟨data, entries.map .object⟩) E := by
  intro m' hm'
  obtain ⟨p, hloaded⟩ := (h.of_undisturbed hm'.undisturbed).loaded outside
  rw [hloaded.run]
  exact ⟨rfl, hm'⟩

/-- A commit says what was committed, or why nothing was. -/
theorem meets_run (hminds : outside.SparesProject m place) (hcodes : outside.TellsCodes)
    (hsetting : m.setting.All Text.Encodes) (h : m.Holds place data entries)
    {id given : Option Text} (hgiven : ∀ t ∈ given, Text.Encodes t) :
    (run id given).Meets outside (m.Minded place) (fun r => Text.Encodes r.message ∧
      r.metadata = (data.get? "metadata").getD (.object [])) Fault.Declines := by
  have hI := Machine.steady_minded hminds (h.reaches.endsAsProject outside)
  have hencodable := fun e he => h.wellFormed.encodable_entry (e := e) he
  have hchecked : ∀ argv : List Text, (∀ t ∈ argv, Text.Encodes t) → ∀ directory,
      (Task.runChecked argv directory).Meets outside (m.Minded place)
        (fun o => Text.Encodes o.output) Fault.Declines :=
    fun argv hargv => Task.meets_runChecked hI hcodes hargv
  obtain ⟨root, -, hroot, -⟩ := (Machine.HasProjectFile.wellFormed h).exists_root outside
  have hname : Text.Encodes root.toText := Path.all_encodes.mp
    ((Layout.meets_projectDirectory (fun _ h => h) Text.hereditary_encodes).answer hsetting hroot)
  refine Task.meets_bind (meets_load_minded h) ?_
  rintro _ rfl
  refine Task.meets_bind (Layout.asks_projectDirectory.meets_of_ok (P := (root = ·))
    (fun _ h => h.undisturbed.setting) hroot rfl) ?_
  rintro _ rfl
  have htool : (Task.requireTool "git").Meets outside (m.Minded place) (fun _ => True)
      Fault.Declines := by
    refine Task.meets_bind (P := fun _ => True) (Task.meets_read fun _ _ => trivial) fun path _ => ?_
    split
    · exact Task.meets_pure trivial
    · exact Task.meets_fail (Text.encodes_of _)
  refine Task.meets_bind htool fun _ _ => ?_
  refine Task.meets_bind (meets_requireRepository hI hcodes hname) fun _ _ => ?_
  refine Task.meets_bind (meets_message (meets_load_minded h) hencodable hgiven)
    fun message hmessage => ?_
  refine Task.meets_bind (hchecked _ (by simp) _) fun _ _ => ?_
  refine Task.meets_bind (hchecked _ (by simp) _) fun status _ => ?_
  split
  · exact Task.meets_fail trivial
  · refine Task.meets_bind (hchecked _ (by simp [hmessage]) _) fun _ _ => ?_
    exact Task.meets_pure ⟨hmessage, rfl⟩

end Commit

namespace CommandLine

/-- A commit answers, whatever other programs do that write nothing beside the project file. -/
theorem answered_commit (hfile : m.HasProjectFile place) (hsetting : m.setting.All Text.Encodes)
    (hminds : outside.SparesProject m place) (hcodes : outside.TellsCodes)
    (id : Option Text) {message : Option Text} (hmessage : ∀ t ∈ message, Text.Encodes t) :
    Answered m ((runCommit id message).run outside m) := by
  rcases Project.load_cases hfile hsetting outside with ⟨fault, hrun, hfault⟩ | ⟨data, entries, h⟩
  · have hcommit : (Commit.run id message).run outside m = (.error fault, m) :=
      Task.run_bind_error hrun _
    unfold runCommit
    rw [run_answer_error _ hcommit]
    exact answered_refuse m (tells_commitError hfault.declines)
  · have hreplies : Replies outside (m.Minded place) m (runCommit id message) := by
      refine replies_answer (fun _ h => h.printed)
        (Commit.meets_run hminds hcodes hsetting h hmessage)
        (fun _ hfault => tells_commitError hfault) ?_
      rintro ⟨message, metadata⟩ ⟨hmessage, rfl⟩
      obtain ⟨p, hloaded⟩ := h.loaded outside
      have hsound := hloaded.sound h.wellFormed
      obtain ⟨fields, hmetadata, hfields⟩ : ∃ fields,
          (data.get? "metadata").getD (.object []) = .object fields ∧ Json.PrintableFields fields := by
        cases hget : data.get? "metadata" with
        | none => exact ⟨[], rfl, by simp, Json.printable_empty⟩
        | some v =>
          obtain ⟨fields, rfl⟩ := h.wellFormed.metadata v hget
          exact ⟨fields, rfl, hsound.metadata_fields hget⟩
      dsimp only
      rw [hmetadata]
      refine Task.meets_bind (Task.meets_ofExcept (P := Printable)
        (printable_progressOf hfields)) fun progress hprogress => Task.meets_pure ?_
      refine Envelope.printable_ok (Text.encodes_of _) (Json.printable_record.mpr ?_)
      simp [Json.printable_text, hmessage, hprogress]
    exact hreplies m ⟨refl_of (Machine.Undisturbed place) m, rfl⟩

end CommandLine

end Acceptance
