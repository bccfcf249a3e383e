import Acceptance.Proofs.Bookkeeping
import Acceptance.Proofs.Changes
import Acceptance.Proofs.Written

/-! # Neighbours of a change

A feature is added behind the others, or the first with an id is accepted, and everything else in
the project file stays as it was, whatever it is: other features, even equal ones or those with the
same id, and what is not known here. That is so when the file is loaded again. -/

namespace Acceptance

open Json (AsRead Kept Printable)

variable {outside : Outside} {m m' : Machine} {entries : List Entries} {id : Text}

/-! ## Tallies that are read again -/

theorem Counts.legible_toValue (counts : Counts) (depth : Nat) :
    Json.Legible (depth + 2) counts.toValue := by
  refine Json.legible_object.mpr fun e he => ?_
  obtain ⟨c, -, rfl⟩ := List.mem_map.mp he
  refine Json.legible_record ?_
  simp [Json.Legible]

theorem Tally.legible_toValue {tally : Tally} (h : ofEntries entries = .ok tally) (depth : Nat) :
    Json.Legible (depth + 3) tally.toValue := by
  obtain ⟨⟨byPriority, byCategory⟩, -, hmade⟩ := Json.bind_eq_ok h
  rw [← Except.ok.inj hmade]
  refine Json.legible_record ?_
  simp only [List.forall_mem_cons]
  refine ⟨trivial, trivial, ?_, byPriority.legible_toValue depth, byCategory.legible_toValue depth,
    by simp⟩
  unfold percentage
  split
  · trivial
  next hne =>
    exact .inl (Binary64.isFinite_share (Nat.pos_of_ne_zero hne) List.countP_le_length)

/-! ## Entries -/

namespace Entry

variable {depth : Nat} {e u : Entries} {notes : Option Text} {now : Instant}

/-- Whatever gives the steps one by one, a new entry lists them. -/
theorem create_of_steps {g : Given} {steps : Value}
    (h : stepsOf steps = .ok (g.steps.map .text)) :
    create (.text id) (.text g.description) (.text g.category) (.text g.priority) steps =
      if g.priority ∈ priorities then .ok (.object (newEntry id g))
      else .error (.invalid (.priority g.priority)) := by
  rw [← create_eq]
  unfold create
  rw [h]
  rfl

theorem asRead_newEntry (id : Text) (g : Given) :
    AsRead (depth + 2) (.object (newEntry id g)) := by
  have hnames : Json.areNames ((newFields id g).map (·.1)) = true := rfl
  refine Json.asRead_object.mpr ⟨(Json.textKeys_record hnames).areNamed, fun e he => ?_⟩
  obtain ⟨f, hf, rfl⟩ := List.mem_map.mp he
  unfold newFields at hf
  simp only [List.mem_cons, List.not_mem_nil, or_false] at hf
  rcases hf with rfl | rfl | rfl | rfl | rfl | rfl | rfl | rfl | rfl | rfl | rfl
  · exact trivial
  · exact trivial
  · exact trivial
  · exact trivial
  · refine Json.asRead_list.mpr fun v hv => ?_
    obtain ⟨t, -, rfl⟩ := List.mem_map.mp hv
    exact trivial
  · exact Json.asRead_list.mpr (by simp)
  · exact Json.asRead_list.mpr (by simp)
  · exact trivial
  · exact trivial
  · exact Value.isLongInt_zero
  · exact trivial

/-- The entry that comes of accepting a feature: the fields of an acceptance are new, but for the
notes if none are given, and the others are as they were. -/
structure Becomes (e : Entries) (notes : Option Text) (now : Instant) (u : Entries) : Prop where
  passes : u.get? "passes" = some (.bool true)
  status : u.get? "status" = some (.text "completed")
  completedAt : u.get? "completed_at" = some (.text now.toText)
  attempts : ∃ n, Entry.attempts e = .ok n ∧ u.get? "attempts" = some (.int (n + 1))
  newNotes : ∀ t ∈ notes, t ≠ [] → u.get? "notes" = some (.text t)
  oldNotes : (∀ t ∈ notes, t = []) → u.get? "notes" = some ((e.get? "notes").getD "")
  others : ∀ key ∉ acceptanceKeys, u.get? key = e.get? key

theorem becomes_of_complete (h : complete e (Value.ofText? notes) now = .ok u) :
    Becomes e notes now u := by
  have hothers : ∀ key ∉ acceptanceKeys, u.get? key = e.get? key := fun _ hkey =>
    get?_complete hkey h
  obtain ⟨n, hn, rfl⟩ := complete_eq_ok h
  refine ⟨?_, ?_, ?_, ⟨n, hn, ?_⟩, fun t ht hne => ?_, fun hnone => ?_, hothers⟩
  · rw [Entries.get?_set_of_ne (by decide), Entries.get?_set_of_ne (by decide),
      Entries.get?_set_of_ne (by decide), Entries.get?_set_of_ne (by decide), Entries.get?_set_self]
  · rw [Entries.get?_set_of_ne (by decide), Entries.get?_set_of_ne (by decide),
      Entries.get?_set_of_ne (by decide), Entries.get?_set_self]
  · rw [Entries.get?_set_of_ne (by decide), Entries.get?_set_of_ne (by decide),
      Entries.get?_set_self]
  · rw [Entries.get?_set_of_ne (by decide), Entries.get?_set_self]
  · obtain rfl : notes = some t := ht
    rw [Entries.get?_set_self, notesAfter_of_ne e hne]
  · have hfalsy : (Value.ofText? notes).isTruthy = false := by
      cases notes with
      | none => rfl
      | some t =>
        rw [hnone t rfl]
        rfl
    rw [Entries.get?_set_self, notesAfter, if_neg (by simp [hfalsy])]

/-- An entry that was read is like one that was read, once its feature is accepted. -/
theorem asRead_complete (he : AsRead (depth + 1) (.object e))
    (h : complete e (Value.ofText? notes) now = .ok u) (hu : Printable (.object u)) :
    AsRead (depth + 1) (.object u) := by
  have hnamed : Json.AreNamed u :=
    complete_preserves (Q := fun _ => True) h (fun _ hf _ => hf.set _ _) trivial (fun _ => trivial)
      (fun _ _ => trivial) trivial (fun _ _ => trivial) (Json.asRead_object.mp he).1
  refine complete_preserves (P := fun f => AsRead (depth + 1) (.object f)) (Q := AsRead depth) h
    (fun _ hf hv => hf.set hv) trivial (fun _ => trivial) (fun n hn => ?_) ?_
    (fun _ hget => he.get? hget) he
  · -- The number was printed, so it is none that cannot be read.
    obtain ⟨n', hn', hattempts⟩ := (becomes_of_complete h).attempts
    obtain rfl : n = n' := Except.ok.inj (hn.symm.trans hn')
    have hprintable := hu.get? hnamed.texts hattempts
    simpa [AsRead, Json.Writable, Json.ordered, Json.unwritable?] using hprintable.writable
  · cases notes <;> trivial

end Entry

/-! ## The file that is written -/

theorem Machine.HasProject.withFile {p : Path} {content : List UInt8} {executable : Bool}
    (h : m.HasProject outside p content executable) (content' : List UInt8) (executable' : Bool) :
    (m.withFile (Place.ofPath m.directory p) content' executable').HasProject outside p content'
      executable' := by
  have hnode : m.files.get? (Place.ofPath m.directory p) ≠ some .directory := by
    rw [h.file]
    simp
  exact ⟨(Layout.asks_featuresFile.answer_eq (m.withFile_setting _ _ _)).trans h.path, h.fit,
    FileTree.locate_of_directories (fun _ hq => FileTree.directory_put hnode hq) h.located,
    Machine.get?_withFile hnode _ _⟩

namespace Project

/-- The keys of a project file that are new whenever it is written. -/
def savedKeys : List Text := ["features", "updated_at", "metadata"]

/-- The project file was written anew. It holds these entries, their tally, and beside the time what
it held before, and so it is loaded. -/
structure Rewritten (outside : Outside) (m : Machine) (data : Entries) (entries : List Entries)
    (tally : Tally) (m' : Machine) : Prop where
  counted : Tally.ofEntries entries = .ok tally
  kept : ∀ e ∈ entries, Kept 983 (.object e)
  written : ∃ now p document executable, (Layout.now.run outside m).1 = .ok now ∧
    (Layout.featuresFile.run outside m).1 = .ok p ∧
    Json.write (.object (dataAt ⟨data, entries.map .object⟩ now tally)) = .ok document ∧
    m' = m.withFile (Place.ofPath m.directory p) (document.flatMap Utf8.bytesOf) executable
  reloaded : ∃ data', load.run outside m' =
      (.ok ⟨data', (entries.map Json.inOrder).map .object⟩, m') ∧
    data'.get? "metadata" = some (Json.reread (Json.ordered tally.toValue)) ∧
    ∀ key ∉ savedKeys, data'.get? key = (data.get? key).map Json.ordered

variable {data : Entries} {tally : Tally} {now : Instant}

theorem get?_dataAt_of_not_saved {key : Text} (hkey : key ∉ savedKeys) (project : Project)
    (now : Instant) (tally : Tally) :
    (project.dataAt now tally).get? key = project.data.get? key := by
  unfold savedKeys at hkey
  simp only [List.mem_cons, List.not_mem_nil, or_false, not_or] at hkey
  obtain ⟨hfeatures, hupdated, hmetadata⟩ := hkey
  unfold dataAt
  rw [Entries.get?_set_of_ne hmetadata, Entries.get?_set_of_ne hupdated,
    Entries.get?_set_of_ne hfeatures]

theorem get?_dataAt_updated (project : Project) (now : Instant) (tally : Tally) :
    (project.dataAt now tally).get? "updated_at" = some (.text now.toText) := by
  unfold dataAt
  rw [Entries.get?_set_of_ne (by decide), Entries.get?_set_self]

/-- Beside the tally, everything that is written is such that it is read again as it is. -/
theorem kept_of_saved (hdata : AsRead Json.mostNested (.object data))
    (hentries : ∀ e ∈ entries, Printable (.object e) → AsRead 983 (.object e))
    (hprintable : Printable (.object (dataAt ⟨data, entries.map .object⟩ now tally)))
    {key : Text} {v : Value} (hkey : key ≠ "metadata")
    (hget : (dataAt ⟨data, entries.map .object⟩ now tally).get? key = some v) : Kept 984 v := by
  have hnamed : Json.AreNamed (dataAt ⟨data, entries.map .object⟩ now tally) :=
    areNamed_dataAt (Json.asRead_object.mp hdata).1 now tally
  have hv := hprintable.get? hnamed.texts hget
  by_cases hsaved : key ∈ savedKeys
  · simp only [savedKeys, List.mem_cons, List.not_mem_nil, or_false] at hsaved
    rcases hsaved with rfl | rfl | rfl
    · rw [(get?_dataAt _ _ _).1] at hget
      obtain rfl := Option.some.inj hget
      refine AsRead.kept (Json.asRead_list.mpr fun w hw => ?_) hv
      obtain ⟨e, he, rfl⟩ := List.mem_map.mp hw
      exact hentries e he (Json.printable_list.mp hv _ hw)
    · rw [get?_dataAt_updated] at hget
      obtain rfl := Option.some.inj hget
      exact Instant.encodes_toText now
    · exact absurd rfl hkey
  · rw [get?_dataAt_of_not_saved hsaved] at hget
    exact AsRead.kept (hdata.get? hget) hv

theorem written_dataAt (hdata : AsRead Json.mostNested (.object data))
    (hentries : ∀ e ∈ entries, Printable (.object e) → AsRead 983 (.object e))
    (htally : Tally.ofEntries entries = .ok tally) {document : Text}
    (hwrite : Json.write (.object (dataAt ⟨data, entries.map .object⟩ now tally)) = .ok document)
    (hencodes : Text.Encodes document) :
    Written (document.flatMap Utf8.bytesOf) (dataAt ⟨data, entries.map .object⟩ now tally) entries
      tally := by
  have hprintable := Json.printable_iff.mpr ⟨document, hwrite, hencodes⟩
  have hnamed : Json.AreNamed (dataAt ⟨data, entries.map .object⟩ now tally) :=
    areNamed_dataAt (Json.asRead_object.mp hdata).1 now tally
  obtain ⟨hlist, hmetadata⟩ := get?_dataAt ⟨data, entries.map .object⟩ now tally
  exact
    { keys := hnamed.textKeys fun e he =>
        ((Json.printable_object hnamed.texts).mp hprintable e he).1
      features := hlist
      counted := htally
      metadata := ⟨_, hmetadata, Tally.legible_toValue htally 981, rfl⟩
      kept := fun _ _ hkey hget => kept_of_saved hdata hentries hprintable hkey hget
      document := ⟨document, hwrite, hencodes, rfl⟩ }

/-- A project whose entries are as if they had been read is loaded again once it is saved. -/
theorem rewritten_of_save {p : Path} {content : List UInt8} {executable : Bool}
    (hproject : m.HasProject outside p content executable)
    (hdata : AsRead Json.mostNested (.object data))
    (hentries : ∀ e ∈ entries, Printable (.object e) → AsRead 983 (.object e))
    (h : (save ⟨data, entries.map .object⟩).run outside m = (.ok tally, m')) :
    Rewritten outside m data entries tally m' := by
  obtain ⟨now, q, document, executable', hnow, htally, hpath, hwrite, -, hencodes, rfl⟩ :=
    save_eq_ok h
  obtain rfl : p = q := Except.ok.inj (hproject.path.symm.trans hpath)
  rw [Tally.ofValues_objects] at htally
  have hwritten := written_dataAt hdata hentries htally hwrite hencodes
  obtain ⟨data', hmeans⟩ := hwritten.exists_loaded
  refine ⟨htally, hwritten.kept_entries,
    ⟨now, p, document, executable', hnow, hpath, hwrite, rfl⟩, data', ?_,
    hwritten.loaded_metadata hmeans, fun key hkey => ?_⟩
  · have hcontent : ofContent p (document.flatMap Utf8.bytesOf) =
        .ok ⟨data', (entries.map Json.inOrder).map .object⟩ :=
      ofContent_eq_ok.mpr ⟨hmeans, hwritten.loaded_features hmeans⟩
    rw [run_load_of_file (hproject.withFile _ _), hcontent]
  · have hmetadata : key ≠ "metadata" := by
      rintro rfl
      exact hkey (by decide)
    rw [hwritten.get?_loaded_of_ne hmeans hmetadata, get?_dataAt_of_not_saved hkey]

/-! ## Changes -/

variable {project : Project} {v : Value}

/-- What is known of a project that was loaded. -/
theorem asRead_of_load (hload : load.run outside m = (.ok project, m')) :
    AsRead Json.mostNested (.object project.data) ∧ ∀ v ∈ project.features, AsRead 983 v := by
  obtain ⟨-, p, content, executable, -, hcontent⟩ := load_eq_ok hload
  obtain ⟨hmeans, hlist⟩ := ofContent_eq_ok.mp hcontent
  have hfeatures : AsRead 984 (.list project.features) := AsRead.get? hmeans.asRead hlist
  exact ⟨hmeans.asRead, Json.asRead_list.mp hfeatures⟩

/-- What is known of the data of a project that was loaded with its entries. -/
theorem read_of_load (hload : load.run outside m = (.ok project, m))
    (hentries : project.features = entries.map .object) :
    (∃ p content executable, m.HasProject outside p content executable) ∧
      AsRead Json.mostNested (.object project.data) ∧ ∀ e ∈ entries, AsRead 983 (.object e) := by
  obtain ⟨-, p, content, executable, hproject, -⟩ := load_eq_ok hload
  obtain ⟨hdata, hfeatures⟩ := asRead_of_load hload
  exact ⟨⟨p, content, executable, hproject⟩, hdata, fun e he =>
    hfeatures _ (hentries ▸ List.mem_map_of_mem he)⟩

theorem addFeature_rewritten (hload : load.run outside m = (.ok project, m))
    (hentries : project.features = entries.map .object) {g : Entry.Given} {steps : Value}
    (hsteps : Entry.stepsOf steps = .ok (g.steps.map .text))
    (h : (addFeature (.text g.description) (.text g.category) (.text g.priority) steps).run
      outside m = (.ok v, m')) :
    v = .object (Entry.newEntry (Entry.idOf (entries.length + 1)) g) ∧
      ∃ tally, Rewritten outside m project.data
        (entries ++ [Entry.newEntry (Entry.idOf (entries.length + 1)) g]) tally m' := by
  obtain ⟨⟨p, content, executable, hproject⟩, hdata, hread⟩ := read_of_load hload hentries
  have hlength : project.features.length = entries.length := by rw [hentries, List.length_map]
  unfold addFeature at h
  rw [Task.run_bind_ok hload] at h
  dsimp only at h
  rw [hlength] at h
  obtain ⟨feature, m₁, hcreate, hwritten⟩ := Task.run_bind_eq_ok h
  rw [Entry.create_of_steps hsteps] at hcreate
  split at hcreate
  · obtain ⟨hfeature, rfl⟩ := Prod.mk.inj hcreate
    obtain rfl := Except.ok.inj hfeature
    obtain ⟨tally, m₂, hsave, hanswer⟩ := Task.run_bind_eq_ok hwritten
    obtain ⟨hv, rfl⟩ := Prod.mk.inj hanswer
    refine ⟨(Except.ok.inj hv).symm, tally, rewritten_of_save hproject hdata (fun e he _ => ?_) ?_⟩
    · rcases List.mem_append.mp he with hold | hnew
      · exact hread e hold
      · rw [List.mem_singleton.mp hnew]
        exact Entry.asRead_newEntry _ g
    · rw [hentries] at hsave
      rw [List.map_append]
      exact hsave
  · exact absurd (Prod.mk.inj hcreate).1 (by simp)

/-- The entry is the first with the id. -/
structure FirstWith (id : Text) (entries : List Entries) (k : Nat) (e : Entries) : Prop where
  there : entries[k]? = some e
  found : e.get? "id" = some (.text id)
  before : ∀ j f, j < k → entries[j]? = some f → f.get? "id" ≠ some (.text id)

theorem locate_iff {k : Nat} {e : Entries} :
    locate (.text id) (entries.map .object) = .ok (k, e) ↔ FirstWith id entries k e := by
  constructor
  · intro h
    obtain ⟨hk, hid, hbefore⟩ := locate_text h
    refine ⟨hk, Entry.hasId_text.mp hid, fun j f hj hf hsame => ?_⟩
    exact Bool.false_ne_true ((hbefore j f hj hf).symm.trans (Entry.hasId_text.mpr hsame))
  · rintro ⟨hk, hid, hbefore⟩
    refine locate_of_first hk (Entry.hasId_text.mpr hid) fun j f hj hf => ?_
    exact Bool.eq_false_iff.mpr fun hsame => hbefore j f hj hf (Entry.hasId_text.mp hsame)

theorem markDone_rewritten (hload : load.run outside m = (.ok project, m))
    (hentries : project.features = entries.map .object) {notes : Option Text} {tally : Tally}
    (h : (markDone (.text id) (Value.ofText? notes)).run outside m = (.ok (v, tally), m')) :
    ∃ k e u now, FirstWith id entries k e ∧ (Layout.now.run outside m).1 = .ok now ∧
      v = .object u ∧ Entry.Becomes e notes now u ∧
      Rewritten outside m project.data (entries.set k u) tally m' := by
  obtain ⟨⟨p, content, executable, hproject⟩, hdata, hread⟩ := read_of_load hload hentries
  unfold markDone at h
  rw [Task.run_bind_ok hload] at h
  obtain ⟨⟨k, e⟩, m₁, hlocate, h⟩ := Task.run_bind_eq_ok h
  rw [Task.run_ofExcept, hentries] at hlocate
  obtain ⟨hfound, rfl⟩ := Prod.mk.inj hlocate
  have hfirst := locate_iff.mp hfound
  rw [Task.run_bind, Layout.asks_now.run_self] at h
  rcases hnow : (Layout.now.run outside m).1 with fault | now
  · rw [hnow] at h
    exact absurd (Prod.mk.inj h).1 (by simp)
  rw [hnow] at h
  obtain ⟨u, m₂, hcomplete, h⟩ := Task.run_bind_eq_ok h
  rw [Task.run_ofExcept] at hcomplete
  obtain ⟨hu, rfl⟩ := Prod.mk.inj hcomplete
  obtain ⟨tally', m₃, hsave, hanswer⟩ := Task.run_bind_eq_ok h
  obtain ⟨hgiven, rfl⟩ := Prod.mk.inj hanswer
  obtain ⟨rfl, rfl⟩ := Prod.mk.inj (Except.ok.inj hgiven)
  refine ⟨k, e, u, now, hfirst, rfl, rfl, Entry.becomes_of_complete hu,
    rewritten_of_save hproject hdata (fun f hf hprintable => ?_) ?_⟩
  · rcases List.mem_or_eq_of_mem_set hf with hold | rfl
    · exact hread f hold
    · exact Entry.asRead_complete (hread e (List.mem_of_getElem? hfirst.there)) hu hprintable
  · rw [hentries, ← List.map_set] at hsave
    exact hsave

/-- Whatever the project file holds beside its features and in them, a change leaves it alone. A
feature that is added is the last, and the others are as they were. A feature that is accepted is
the first with the id; only what tells of the acceptance is new in it, and all others are as they
were, also those that are equal to it or have its id. The tally in the file is that of the new
list. -/
theorem neighbours_kept (hload : load.run outside m = (.ok project, m))
    (hentries : project.features = entries.map .object) :
    (∀ (g : Entry.Given) (steps v : Value) (m' : Machine),
      Entry.stepsOf steps = .ok (g.steps.map .text) →
      (addFeature (.text g.description) (.text g.category) (.text g.priority) steps).run outside m =
        (.ok v, m') →
      v = .object (Entry.newEntry (Entry.idOf (entries.length + 1)) g) ∧
        ∃ tally, Rewritten outside m project.data
          (entries ++ [Entry.newEntry (Entry.idOf (entries.length + 1)) g]) tally m') ∧
    ∀ (id : Text) (notes : Option Text) (v : Value) (tally : Tally) (m' : Machine),
      (markDone (.text id) (Value.ofText? notes)).run outside m = (.ok (v, tally), m') →
      ∃ k e u now, FirstWith id entries k e ∧ (Layout.now.run outside m).1 = .ok now ∧
        v = .object u ∧ Entry.Becomes e notes now u ∧
        Rewritten outside m project.data (entries.set k u) tally m' :=
  ⟨fun _ _ _ _ hsteps h => addFeature_rewritten hload hentries hsteps h,
    fun _ _ _ _ _ h => markDone_rewritten hload hentries h⟩

end Project

/-! ## A shop with twins -/

namespace Shop

theorem load_withFile {t : Text} {project : Project}
    (hmeans : Json.Means (t.flatMap Utf8.bytesOf) (.object project.data))
    (hlist : project.data.get? "features" = some (.list project.features)) :
    Project.load.run idle (withFile t) = (.ok project, withFile t) := by
  have hproject : (withFile t).HasProject idle projectPath (t.flatMap Utf8.bytesOf) false :=
    ⟨featuresFile_machine _ idle, rfl, rfl, rfl⟩
  rw [Project.run_load_of_file hproject, Project.ofContent_eq_ok.mpr ⟨hmeans, hlist⟩]

def twinsText : Text :=
  "\x7b\"test_data\": \x7b\"user\": 7\x7d, \"features\": [\x7b\"id\": \"a\", \"extra\": 1\x7d, " ++
    "\x7b\"id\": \"b\"\x7d, \x7b\"id\": \"b\"\x7d]\x7d"

/-- Features of which two are equal, and one has a field of its own. -/
def twins : List Entries :=
  [[("id", .text "a"), ("extra", .int 1)], [("id", .text "b")], [("id", .text "b")]]

def twinsData : Entries :=
  [("test_data", Value.record [("user", .int 7)]), ("features", .list (twins.map .object))]

/-- The first of the twins is accepted, and the other one stays as it was. -/
theorem neighbours_kept_twins : ∃ v tally m' project,
    (Project.markDone (.text "b") .null).run idle (withFile twinsText) = (.ok (v, tally), m') ∧
    Project.load.run idle m' = (.ok project, m') ∧
    project.features[0]? = some (.object [("extra", .int 1), ("id", .text "a")]) ∧
    project.features[2]? = some (.object [("id", .text "b")]) ∧
    project.data.get? "test_data" = some (Value.record [("user", .int 7)]) := by
  have hload : Project.load.run idle (withFile twinsText) =
      (.ok ⟨twinsData, twins.map .object⟩, withFile twinsText) :=
    load_withFile ⟨twinsText, by cbv, by cbv⟩ rfl
  obtain ⟨-, hmarked⟩ := Project.neighbours_kept hload rfl
  have hdone : ((Project.markDone (.text "b") .null).run idle
      (withFile twinsText)).1.toOption.isSome = true := by decide +kernel
  obtain ⟨⟨v, tally⟩, hanswer⟩ := Option.isSome_iff_exists.mp hdone
  obtain ⟨m', hrun⟩ := Task.run_eq_ok_of_toOption hanswer
  obtain ⟨k, e, u, now, hfirst, -, -, -, hwritten⟩ := hmarked "b" none v tally m' hrun
  obtain ⟨data', hreloaded, -, hothers⟩ := hwritten.reloaded
  have hlocate := Project.locate_iff.mpr hfirst
  obtain ⟨rfl, -⟩ : 1 = k ∧ _ = e := Prod.mk.inj (Except.ok.inj hlocate)
  exact ⟨v, tally, m', _, hrun, hreloaded, rfl, rfl, hothers "test_data" (by decide)⟩

end Shop

end Acceptance
