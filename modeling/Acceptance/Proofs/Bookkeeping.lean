import Acceptance.Proofs.Loading
import Acceptance.Proofs.SameFields

/-! # Bookkeeping

A project of ordinary features is loaded, and a feature of it is accepted, without fail: as long as
the path leads to the project file, the time is known and what is given can be encoded. -/

namespace Acceptance

open Json (Encodable Kept Means Printable)

variable {outside : Outside} {place : Place} {m m' : Machine} {p : Path}

/-! ## Values -/

namespace Json

variable {entries : Entries} {key : Text} {v : Value}

theorem Printable.set (h : Printable (.object entries)) (hnamed : AreNamed entries)
    (hkey : Text.Encodes key) (hv : Printable v) : Printable (.object (entries.set key v)) := by
  have hnamed' := hnamed.set key v
  rw [printable_object hnamed.texts] at h
  rw [printable_object hnamed'.texts]
  clear hnamed hnamed'
  induction entries with
  | nil =>
    intro e he
    rw [Entries.set, List.mem_singleton] at he
    rw [he]
    exact ⟨hkey, hv⟩
  | cons f rest ih =>
    obtain ⟨hf, hrest⟩ := List.forall_mem_cons.mp h
    rw [Entries.set]
    split
    · exact List.forall_mem_cons.mpr ⟨⟨hf.1, hv⟩, hrest⟩
    · exact List.forall_mem_cons.mpr ⟨hf, ih hrest⟩

theorem Printable.orMissing (h : Printable (.object entries)) (hnamed : AreNamed entries)
    (key standard : Text) (hstandard : Text.Encodes standard) :
    Printable ((entries.get? key).getD (.text standard)) := by
  cases hget : entries.get? key with
  | none => exact printable_text.mpr hstandard
  | some v => exact h.get? hnamed.texts hget

end Json

/-! ## Accepted features -/

namespace Entry

variable {depth : Nat} {e u : Entries} {notes : Value} {now : Instant}

/-- Only the fields of an acceptance are new. -/
theorem get?_complete {key : Text} (hkey : key ∉ acceptanceKeys)
    (h : complete e notes now = .ok u) : u.get? key = e.get? key := by
  obtain ⟨n, -, rfl⟩ := complete_eq_ok h
  exact get?_acceptance hkey e now _ _

theorem getD_complete {key : Text} (hkey : key ∉ acceptanceKeys)
    (h : complete e notes now = .ok u) : u.getD key = e.getD key := by
  unfold Entries.getD
  rw [get?_complete hkey h]

theorem idText_complete (h : complete e notes now = .ok u) : idText u = idText e :=
  congrArg (fun v => (Value.text? v).getD []) (getD_complete (by decide) h)

theorem Ordinary.complete (he : Ordinary e) (h : complete e notes now = .ok u) : Ordinary u where
  id := by
    rw [get?_complete (by decide) h]
    exact he.id
  priority := by
    rw [getD_complete (by decide) h]
    exact he.priority
  category := by
    rw [getD_complete (by decide) h]
    exact he.category

theorem printable_complete (he : Printable (.object e)) (hnamed : Json.AreNamed e)
    (hup : CountsUp e) (hnotes : Printable notes) (h : complete e notes now = .ok u) :
    Printable (.object u) := by
  obtain ⟨n, hn, hlong⟩ := hup
  refine (complete_preserves (P := fun f => Printable (.object f) ∧ Json.AreNamed f)
    (Q := Printable) h (fun hkey hf hv => ⟨hf.1.set hf.2 hkey hv, hf.2.set _ _⟩)
    (Json.printable_bool true) Json.printable_text.mpr (fun n' hn' => ?_) hnotes
    (fun _ hget => he.get? hnamed.texts hget) ⟨he, hnamed⟩).1
  obtain rfl : n = n' := Except.ok.inj (hn.symm.trans hn')
  exact Json.printable_int hlong

theorem exists_complete (h : CountsUp e) (notes : Value) (now : Instant) :
    ∃ u, complete e notes now = .ok u := by
  obtain ⟨n, hn, -⟩ := h
  unfold complete
  rw [hn]
  exact ⟨_, rfl⟩

end Entry

/-! ## Saving without fail -/

namespace Machine

theorem ReachesProject.hasProject (h : m.ReachesProject place) (outside : Outside)
    {content : List UInt8} {executable : Bool}
    (hfile : m.files.get? place = some (.file content executable)) :
    ∃ p, m.HasProject outside p content executable ∧ Place.ofPath m.directory p = place := by
  obtain ⟨p, hpath, hfit, hlocate⟩ := h outside
  obtain rfl := FileTree.locate_eq_ok hlocate
  exact ⟨p, ⟨hpath, hfit, hlocate, hfile⟩, rfl⟩

end Machine

namespace Project

variable {project : Project} {tally : Tally} {now : Instant} {content : List UInt8}
  {executable : Bool}

theorem run_writeDocument_of_located (outside : Outside) {v : Value}
    (hfit : Task.pathProblem? p = none)
    (hlocate : m.files.locate m.directory p = .ok place)
    (hnode : m.files.get? place ≠ some .directory) (hv : Printable v) :
    ∃ document executable, Json.write v = .ok document ∧
      (writeDocument p v).run outside m =
        (.ok (), m.withFile place (document.flatMap Utf8.bytesOf) executable) := by
  obtain ⟨document, hwrite, hencodes⟩ := Json.printable_iff.mp hv
  obtain ⟨executable, hrun, -⟩ := Task.run_writeText_of_located hfit hlocate hnode
    (Utf8.encode_of_encodes hencodes)
  refine ⟨document, executable, hwrite, ?_⟩
  unfold writeDocument
  rw [hwrite]
  exact hrun

theorem run_save_of_file (project : Project) (h : m.HasProject outside p content executable)
    (hnow : (Layout.now.run outside m).1 = .ok now)
    (htally : Tally.ofValues project.features = .ok tally)
    (hdata : Printable (.object (project.dataAt now tally))) :
    ∃ document executable, Json.write (.object (project.dataAt now tally)) = .ok document ∧
      (save project).run outside m = (.ok tally, m.withFile (Place.ofPath m.directory p)
        (document.flatMap Utf8.bytesOf) executable) := by
  have hnode : m.files.get? (Place.ofPath m.directory p) ≠ some .directory := by
    rw [h.file]
    simp
  obtain ⟨document, executable, hwrite, hwritten⟩ :=
    run_writeDocument_of_located outside h.fit h.located hnode hdata
  refine ⟨document, executable, hwrite, ?_⟩
  unfold save
  rw [Task.run_bind, Layout.asks_now.run_self, hnow]
  dsimp only
  rw [htally, Task.run_ofExcept_ok_bind, Task.run_bind, Layout.asks_featuresFile.run_self, h.path]
  dsimp only
  rw [Task.run_bind_ok hwritten]
  rfl

end Project

/-! ## Features in a file -/

/-- The path leads to the project file, and the time is known. -/
structure Machine.Ready (m : Machine) (place : Place) : Prop where
  reaches : m.ReachesProject place
  clock : ∀ outside, ∃ now, (Layout.now.run outside m).1 = .ok now

/-- The project file at the place lists the features, and its texts can be encoded. -/
def Machine.Features (m : Machine) (place : Place) (entries : List Entries) : Prop :=
  ∃ (content : List UInt8) (executable : Bool) (data : Entries),
    m.files.get? place = some (.file content executable) ∧ Means content (.object data) ∧
      data.get? "features" = some (.list (entries.map .object)) ∧ Encodable (.object data)

variable {entries : List Entries}

theorem Machine.Features.of_files (h : m.Features place entries)
    (hfiles : m.files.Spares place m'.files) : m'.Features place entries := by
  obtain ⟨content, executable, data, hfile, hrest⟩ := h
  exact ⟨content, executable, data, hfiles.file hfile, hrest⟩

theorem Machine.Features.kept (h : m.Features place entries) :
    ∀ e ∈ entries, Kept 983 (.object e) := by
  obtain ⟨content, executable, data, -, hmeans, hlist, hencodable⟩ := h
  have hkept := Json.kept_of_asRead _ hmeans.asRead hencodable
  have hitems : Kept 984 (.list (entries.map .object)) := Json.kept_get? hkept hlist
  exact fun e he => Json.kept_list.mp hitems _ (List.mem_map_of_mem he)

namespace Project

/-- What is known of a project that was loaded. -/
structure Loaded (outside : Outside) (m : Machine) (place : Place) (p : Path) (data : Entries)
    (entries : List Entries) : Prop where
  place : Place.ofPath m.directory p = place
  file : ∃ content executable, m.HasProject outside p content executable
  run : load.run outside m = (.ok ⟨data, entries.map .object⟩, m)
  kept : Kept Json.mostNested (.object data)
  printable : Printable (.object data)
  features : data.get? "features" = some (.list (entries.map .object))

theorem exists_loaded_of_means (hreaches : m.ReachesProject place) {content : List UInt8}
    {executable : Bool} (hfile : m.files.get? place = some (.file content executable))
    {data : Entries} (hmeans : Means content (.object data))
    (hlist : data.get? "features" = some (.list (entries.map .object)))
    (hencodable : Encodable (.object data)) (outside : Outside) :
    ∃ p, Loaded outside m place p data entries := by
  obtain ⟨p, hproject, hplace⟩ := hreaches.hasProject outside hfile
  have hsendable := Json.sendable_of_asRead hmeans.asRead hencodable
  have hcontent : ofContent p content = .ok ⟨data, entries.map .object⟩ :=
    ofContent_eq_ok.mpr ⟨hmeans, hlist⟩
  refine ⟨p, hplace, ⟨content, executable, hproject⟩, ?_, hsendable.kept, hsendable.printable,
    hlist⟩
  rw [run_load_of_file hproject, hcontent]

theorem exists_loaded (hready : m.Ready place) (h : m.Features place entries)
    (outside : Outside) : ∃ p data, Loaded outside m place p data entries := by
  obtain ⟨content, executable, data, hfile, hmeans, hlist, hencodable⟩ := h
  obtain ⟨p, hloaded⟩ :=
    exists_loaded_of_means hready.reaches hfile hmeans hlist hencodable outside
  exact ⟨p, data, hloaded⟩

/-- Features that a project file can hold: they are ordinary, they can be written and read again, and
so can their number. -/
structure Fit (entries : List Entries) : Prop where
  ordinary : ∀ e ∈ entries, Entry.Ordinary e
  kept : ∀ e ∈ entries, Kept 983 (.object e)
  printable : ∀ e ∈ entries, Printable (.object e)
  count : Value.isLongInt entries.length = false

namespace Loaded

variable {p : Path} {data : Entries} (h : Loaded outside m place p data entries)
include h

theorem fit (hordinary : ∀ e ∈ entries, Entry.Ordinary e)
    (hcount : Value.isLongInt entries.length = false) : Fit entries where
  ordinary := hordinary
  kept e he := by
    have hlist : Kept 984 (.list (entries.map .object)) := Json.kept_get? h.kept h.features
    exact Json.kept_list.mp hlist _ (List.mem_map_of_mem he)
  printable e he := by
    have hlist := h.printable.get? (Json.kept_object.mp h.kept).1.texts h.features
    exact Json.printable_list.mp hlist _ (List.mem_map_of_mem he)
  count := hcount

/-- Fit features are saved in place of those that were loaded. -/
theorem run_save {others : List Entries} (hothers : Fit others) {now : Instant}
    (hnow : (Layout.now.run outside m).1 = .ok now) :
    ∃ tally content executable, Printable tally.toValue ∧
      (save ⟨data, others.map .object⟩).run outside m =
        (.ok tally, m.withFile place content executable) ∧
      (m.withFile place content executable).Features place (others.map Json.inOrder) := by
  obtain ⟨content, executable, hproject⟩ := h.file
  have hcounted : ∀ e ∈ others, Entry.Counted e := fun e he =>
    (hothers.ordinary e he).counted (Json.encodable_of_kept _ (hothers.kept e he))
  obtain ⟨tally, htally, hkeptTally, hprintableTally⟩ := Tally.exists_tally hcounted hothers.count
  have hkeptList : Kept 984 (.list (others.map .object)) := by
    rw [Json.kept_list, List.forall_mem_map]
    exact hothers.kept
  have hprintableList : Printable (.list (others.map .object)) := by
    rw [Json.printable_list, List.forall_mem_map]
    exact hothers.printable
  have hnamed := (Json.kept_object.mp h.kept).1.areNamed
  have hkept : Kept Json.mostNested
      (.object (dataAt ⟨data, others.map .object⟩ now tally)) := by
    refine Json.kept_set ?_ (Text.encodes_of_all rfl) (Json.kept_mono _ (by decide) hkeptTally)
    refine Json.kept_set ?_ (Text.encodes_of_all rfl) (Instant.encodes_toText now)
    exact Json.kept_set h.kept (Text.encodes_of_all rfl) hkeptList
  have hprintable : Printable (.object (dataAt ⟨data, others.map .object⟩ now tally)) := by
    refine Printable.set ?_ ((hnamed.set _ _).set _ _) (Text.encodes_of_all rfl) hprintableTally
    refine Printable.set ?_ (hnamed.set _ _) (Text.encodes_of_all rfl)
      (Json.printable_text.mpr (Instant.encodes_toText now))
    exact h.printable.set hnamed (Text.encodes_of_all rfl) hprintableList
  obtain ⟨document, executable', hwrite, hsave⟩ := run_save_of_file
    ⟨data, others.map .object⟩ hproject hnow
    (by rw [Tally.ofValues_objects, htally]) hprintable
  rw [h.place] at hsave
  refine ⟨tally, _, executable', hprintableTally, hsave, ?_⟩
  have hnode : m.files.get? place ≠ some .directory := by
    rw [← h.place, hproject.file]
    simp
  refine ⟨_, executable', _, Machine.get?_withFile hnode _ _, Json.means_document hkept hwrite, ?_,
    Json.encodable_ordered _ (Json.encodable_of_kept _ hkept)⟩
  show (Json.inOrder _).get? "features" = _
  rw [Json.get?_inOrder (Json.kept_object.mp hkept).1,
    (get?_dataAt ⟨data, others.map .object⟩ now tally).1, Option.map_some, Json.ordered,
    Json.orderedItems_eq_map, List.map_map, List.map_map]
  rfl

end Loaded

/-! ## Accepting without fail -/

theorem Fit.set {k : Nat} {e u : Entries} {notes : Value} {now : Instant} (h : Fit entries)
    (hk : entries[k]? = some e) (hup : Entry.CountsUp e) (hnotes : Kept 982 notes)
    (hprintable : Printable notes) (hu : Entry.complete e notes now = .ok u) :
    Fit (entries.set k u) := by
  have he := List.mem_of_getElem? hk
  have hnamed := (Json.kept_object.mp (h.kept e he)).1.areNamed
  have hall : ∀ {P : Entries → Prop}, (∀ e ∈ entries, P e) → P u → ∀ f ∈ entries.set k u, P f := by
    intro P hold hnew f hf
    rcases List.mem_or_eq_of_mem_set hf with hf | rfl
    · exact hold f hf
    · exact hnew
  refine ⟨hall h.ordinary ((h.ordinary e he).complete hu),
    hall h.kept (Entry.kept_complete (h.kept e he) hnotes hu),
    hall h.printable (Entry.printable_complete (h.printable e he) hnamed hup hprintable hu), ?_⟩
  rw [List.length_set]
  exact h.count

/-- A feature is found by its id and accepted, and the answer can be printed. -/
theorem run_markDone_of_ready (hready : m.Ready place) (hfeatures : m.Features place entries)
    (hordinary : ∀ e ∈ entries, Entry.Ordinary e) (hcount : Value.isLongInt entries.length = false)
    {id : Text} {k : Nat} {e : Entries} (hlocate : locate (.text id) (entries.map .object) = .ok (k, e))
    (hk : entries[k]? = some e) (hup : Entry.CountsUp e) {notes : Option Text}
    (hnotes : ∀ t ∈ notes, Text.Encodes t) (outside : Outside) :
    ∃ now u tally content executable,
      Entry.complete e (Value.ofText? notes) now = .ok u ∧
      Printable (.object u) ∧ Printable tally.toValue ∧
      (markDone (.text id) (Value.ofText? notes)).run outside m =
        (.ok (.object u, tally), m.withFile place content executable) ∧
      (m.withFile place content executable).Features place
        ((entries.set k u).map Json.inOrder) := by
  obtain ⟨p, data, hloaded⟩ := exists_loaded hready hfeatures outside
  have hfit := hloaded.fit hordinary hcount
  obtain ⟨now, hnow⟩ := hready.clock outside
  obtain ⟨u, hu⟩ := Entry.exists_complete hup (Value.ofText? notes) now
  have hnew := hfit.set hk hup (Json.kept_ofText? hnotes) (Json.printable_ofText?.mpr hnotes) hu
  have hmem : u ∈ entries.set k u := List.mem_set (List.getElem?_eq_some_iff.mp hk).1 u
  obtain ⟨tally, content, executable, htally, hsave, hsaved⟩ := hloaded.run_save hnew hnow
  refine ⟨now, u, tally, content, executable, hu, hnew.printable u hmem, htally, ?_, hsaved⟩
  rw [List.map_set] at hsave
  unfold markDone
  rw [Task.run_bind_ok hloaded.run]
  dsimp only
  rw [hlocate, Task.run_ofExcept_ok_bind, Task.run_bind, Layout.asks_now.run_self, hnow]
  dsimp only
  rw [hu, Task.run_ofExcept_ok_bind, Task.run_bind_ok hsave]
  rfl

end Project

end Acceptance
