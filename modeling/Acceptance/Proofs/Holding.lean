import Acceptance.Proofs.Agenda
import Acceptance.Proofs.Bookkeeping
import Acceptance.Proofs.Configuring

/-! # What a project file holds

A project file is not there, or it holds no project, or its features are well formed. In each case a
command can go on: it is told that there is no project, or that the file holds none, or it gets one
of which everything can be told. -/

namespace Acceptance

open Json (Encodable Means Printable)

variable {outside : Outside} {place : Place} {m m' : Machine} {p : Path} {data : Entries}
  {entries : List Entries}

/-! ## Well-formed features -/

/-- An ordinary entry whose steps are a list or missing, and one more attempt can be counted. -/
structure Entry.WellFormed (e : Entries) : Prop where
  ordinary : Ordinary e
  steps : ∀ v, e.get? "steps" = some v → ∃ items, v = .list items
  countsUp : CountsUp e

/-- The features of a project are well formed, its metadata is an object or missing, and all its
texts can be encoded. -/
structure Project.WellFormed (data : Entries) (list : List Entries) : Prop where
  features : Entries.get? data "features" = some (.list (list.map .object))
  metadata : ∀ v, Entries.get? data "metadata" = some v → ∃ fields, v = .object fields
  entries : ∀ e ∈ list, Entry.WellFormed e
  encodable : Encodable (.object data)
  count : Value.isLongInt (list.length + 1) = false

/-! ## Files -/

theorem Task.run_pathExists {isThere : Bool}
    (h : ((pathExists p).run outside m).1 = .ok isThere) :
    (pathExists p).run outside m = (.ok isThere, m) := by
  have hsame : m = ((pathExists p).run outside m).2 :=
    @leaves_pathExists outside Eq _ p m
  exact Prod.ext h hsame.symm

theorem Task.meets_pathExists {S : Entries → Prop} {E : Fault → Prop} {isThere : Bool}
    (h : ((pathExists p).run outside m).1 = .ok isThere) :
    (pathExists p).Meets outside (m.LearnsOf S) (isThere = ·) E := by
  intro m' hm'
  rw [run_pathExists ((pathExists_congr p outside hm'.files hm'.directory).trans h)]
  exact ⟨rfl, hm'⟩

/-- The project file is in the project directory. -/
theorem Layout.root_of_featuresFile (h : (featuresFile.run outside m).1 = .ok p) :
    ∃ root, (projectDirectory.run outside m).1 = .ok root ∧ p = featuresFileOf root := by
  unfold featuresFile at h
  rw [Task.run_bind, asks_projectDirectory.run_self] at h
  rcases hroot : (projectDirectory.run outside m).1 with fault | root <;> rw [hroot] at h
  · exact absurd h (by simp)
  · exact ⟨root, rfl, (Except.ok.inj h).symm⟩

namespace Machine

theorem ReachesProject.endsAsProject (h : m.ReachesProject place) (outside : Outside) :
    place.EndsAsProject := by
  obtain ⟨p, hpath, -, hlocate⟩ := h outside
  obtain ⟨root, -, rfl⟩ := Layout.root_of_featuresFile hpath
  exact Place.endsAsProject_child (Place.isName_of_plain (by decide)) m.directory _
    (FileTree.locate_eq_ok hlocate).symm

/-- The path leads to a file with a well-formed project. -/
structure Holds (m : Machine) (place : Place) (data : Entries) (list : List Entries) : Prop where
  reaches : m.ReachesProject place
  file : ∃ content executable, m.files.get? place = some (.file content executable) ∧
    Means content (.object data)
  wellFormed : Project.WellFormed data list

/-- There is no project file, or it holds something else than an object with a list of features, or
a well-formed project. What it holds is not nested too deep. -/
inductive HasProjectFile (m : Machine) (place : Place) : Prop where
  | absent (h : ∀ outside, ∃ p, (Layout.featuresFile.run outside m).1 = .ok p ∧
      ((Task.pathExists p).run outside m).1 = .ok false)
  | other {content : List UInt8} {executable : Bool} (hreaches : m.ReachesProject place)
      (hfile : m.files.get? place = some (.file content executable))
      (hother : ∀ data features, Means content (.object data) →
        Entries.get? data "features" ≠ some (.list features))
      (hshallow : ∀ t container, Utf8.decode content = .ok t →
        Json.read (Text.withLineFeeds t) ≠ .error (.nestedTooDeep container))
  | wellFormed {data : Entries} {list : List Entries} (h : m.Holds place data list)

theorem HasProjectFile.of_same (h : m.HasProjectFile place) (hsetting : m'.setting = m.setting)
    (hfiles : m'.files = m.files) : m'.HasProjectFile place := by
  have hdirectory : m'.directory = m.directory := congrArg Setting.directory hsetting
  have hreaches : m.ReachesProject place → m'.ReachesProject place := by
    intro hreaches outside
    obtain ⟨p, hpath, hfit, hlocate⟩ := hreaches outside
    refine ⟨p, (Layout.asks_featuresFile.answer_eq hsetting).trans hpath, hfit, ?_⟩
    rw [hfiles, hdirectory, hlocate]
  cases h with
  | absent h =>
    refine .absent fun outside => ?_
    obtain ⟨p, hpath, hexists⟩ := h outside
    exact ⟨p, (Layout.asks_featuresFile.answer_eq hsetting).trans hpath,
      (Task.pathExists_congr p outside hfiles hdirectory).trans hexists⟩
  | other hreach hfile hother hshallow =>
    exact .other (hreaches hreach) (hfiles ▸ hfile) hother hshallow
  | wellFormed h =>
    obtain ⟨content, executable, hfile, hmeans⟩ := h.file
    exact .wellFormed
      ⟨hreaches h.reaches, ⟨content, executable, hfiles ▸ hfile, hmeans⟩, h.wellFormed⟩

/-- The root of the project is known, and it can be seen whether there is a project file. -/
theorem HasProjectFile.exists_root (h : m.HasProjectFile place) (outside : Outside) :
    ∃ root isThere, (Layout.projectDirectory.run outside m).1 = .ok root ∧
      ((Task.pathExists (Layout.featuresFileOf root)).run outside m).1 = .ok isThere := by
  have hreached : m.ReachesProject place → ∃ p isThere,
      (Layout.featuresFile.run outside m).1 = .ok p ∧
        ((Task.pathExists p).run outside m).1 = .ok isThere := by
    intro hreaches
    obtain ⟨p, hpath, -, hlocate⟩ := hreaches outside
    obtain ⟨isThere, hrun⟩ := Task.exists_pathExists (m := m) outside (p := p)
      (by rw [hlocate]; simp)
    exact ⟨p, isThere, hpath, by rw [hrun]⟩
  obtain ⟨p, isThere, hpath, hexists⟩ : ∃ p isThere,
      (Layout.featuresFile.run outside m).1 = .ok p ∧
        ((Task.pathExists p).run outside m).1 = .ok isThere := by
    cases h with
    | absent h =>
      obtain ⟨p, hpath, hexists⟩ := h outside
      exact ⟨p, false, hpath, hexists⟩
    | other hreaches => exact hreached hreaches
    | wellFormed h => exact hreached h.reaches
  obtain ⟨root, hroot, rfl⟩ := Layout.root_of_featuresFile hpath
  exact ⟨root, isThere, hroot, hexists⟩

/-- The path of the project file leads through the place. -/
def OnWay (m : Machine) (q : Place) : Prop :=
  ∃ outside p, (Layout.featuresFile.run outside m).1 = .ok p ∧ q ∈ FileTree.way m.directory p

/-- The project file and the way to it are as before. -/
structure Undisturbed (place : Place) (m m' : Machine) : Prop where
  setting : m'.setting = m.setting
  file : ∀ {content executable}, m.files.get? place = some (.file content executable) →
    m'.files.get? place = some (.file content executable)
  way : ∀ {q}, m.OnWay q → m.files.get? q = some .directory → m'.files.get? q = some .directory

theorem OnWay.of_setting {q : Place} (h : m'.OnWay q) (hsetting : m'.setting = m.setting) :
    m.OnWay q := by
  obtain ⟨outside, p, hp, hq⟩ := h
  refine ⟨outside, p, (Layout.asks_featuresFile.answer_eq hsetting).symm.trans hp, ?_⟩
  rwa [show m.directory = m'.directory from (congrArg Setting.directory hsetting).symm]

instance : IsPreorder Machine (Undisturbed place) where
  refl _ := ⟨rfl, id, fun _ => id⟩
  trans _ _ _ h k := ⟨k.setting.trans h.setting, k.file ∘ h.file,
    fun hq hnode => k.way (hq.of_setting h.setting.symm) (h.way hq hnode)⟩

theorem undisturbed_of_grown (hsetting : m'.setting = m.setting) (h : m.files.Grown m'.files) :
    m.Undisturbed place m' :=
  ⟨hsetting, h.get?, fun _ => h.get?⟩

theorem undisturbed_withFile {other : Place} (hne : place ≠ other)
    (hnode : m.files.get? other ≠ some .directory) (content : List UInt8) (executable : Bool) :
    m.Undisturbed place (m.withFile other content executable) where
  setting := rfl
  file h := by rw [withFile, FileTree.get?_put_of_ne _ _ hne, h]
  way _ h := FileTree.directory_put hnode h

theorem ReachesProject.of_undisturbed (h : m.ReachesProject place)
    (hkept : m.Undisturbed place m') : m'.ReachesProject place := by
  intro outside
  obtain ⟨p, hpath, hfit, hlocate⟩ := h outside
  refine ⟨p, (Layout.asks_featuresFile.answer_eq hkept.setting).trans hpath, hfit, ?_⟩
  rw [show m'.directory = m.directory from congrArg Setting.directory hkept.setting]
  exact FileTree.locate_of_way (fun q hq => hkept.way ⟨outside, p, hpath, hq⟩) hlocate

theorem Holds.of_undisturbed (h : m.Holds place data entries) (hkept : m.Undisturbed place m') :
    m'.Holds place data entries := by
  obtain ⟨content, executable, hfile, hmeans⟩ := h.file
  exact ⟨h.reaches.of_undisturbed hkept, ⟨content, executable, hkept.file hfile, hmeans⟩,
    h.wellFormed⟩

theorem Holds.features (h : m.Holds place data entries) : m.Features place entries := by
  obtain ⟨content, executable, hfile, hmeans⟩ := h.file
  exact ⟨content, executable, data, hfile, hmeans, h.wellFormed.features, h.wellFormed.encodable⟩

theorem Holds.loaded (h : m.Holds place data entries) (outside : Outside) :
    ∃ p, Project.Loaded outside m place p data entries := by
  obtain ⟨content, executable, hfile, hmeans⟩ := h.file
  exact Project.exists_loaded_of_means h.reaches hfile hmeans h.wellFormed.features
    h.wellFormed.encodable outside

end Machine

namespace Project

/-! ## Loading -/

theorem refuses_parse (hpath : Text.Encodes p.toText) {t : Text}
    (hshallow : ∀ container, Json.read t ≠ .error (.nestedTooDeep container)) {fault : Fault}
    (h : parse p t = .error fault) : fault.Refuses := by
  unfold parse at h
  split at h
  · exact absurd h (by simp)
  next error herror =>
    cases error with
    | nestedTooDeep container => exact absurd herror (hshallow container)
    | longInteger digits =>
      rw [← Except.error.inj h]
      exact Value.encodes_tooManyDigitsToRead digits
    | _ =>
      rw [← Except.error.inj h]
      simpa [Fault.Refuses, Invalid.message] using hpath

theorem refuses_ofContent (hpath : Text.Encodes p.toText) {content : List UInt8}
    (hother : ∀ data features, Means content (.object data) →
      Entries.get? data "features" ≠ some (.list features))
    (hshallow : ∀ t container, Utf8.decode content = .ok t →
      Json.read (Text.withLineFeeds t) ≠ .error (.nestedTooDeep container)) :
    ∃ fault, ofContent p content = .error fault ∧ fault.Refuses := by
  rcases hcontent : ofContent p content with fault | project
  · refine ⟨fault, rfl, ?_⟩
    unfold ofContent at hcontent
    split at hcontent
    next t hdecode =>
      rcases hparse : parse p (Text.withLineFeeds t) with cause | v
      · rw [hparse] at hcontent
        rw [← Except.error.inj hcontent]
        exact refuses_parse hpath (fun container => hshallow t container hdecode) hparse
      · rw [hparse] at hcontent
        have hstructure : ofValue p v = .error (.invalid (.projectStructure p.toText)) := by
          replace hcontent : ofValue p v = .error fault := hcontent
          unfold ofValue at hcontent ⊢
          split at hcontent
          · split at hcontent
            · exact absurd hcontent (by simp)
            · rfl
          · rfl
        replace hcontent : ofValue p v = .error fault := hcontent
        rw [← Except.error.inj (hstructure.symm.trans hcontent)]
        simpa [Fault.Refuses, Invalid.message] using hpath
    next problem _ =>
      rw [← Except.error.inj hcontent]
      exact Utf8.Undecodable.encodes_message problem
  · obtain ⟨hmeans, hfeatures⟩ := ofContent_eq_ok.mp hcontent
    exact absurd hfeatures (hother _ _ hmeans)

/-- The project is loaded, or it is told why there is none. -/
theorem load_cases (h : m.HasProjectFile place) (hsetting : m.setting.All Text.Encodes)
    (outside : Outside) :
    (∃ fault, load.run outside m = (.error fault, m) ∧ fault.Expected) ∨
      ∃ data entries, m.Holds place data entries := by
  have htold : ∀ {p}, (Layout.featuresFile.run outside m).1 = .ok p → Text.Encodes p.toText :=
    fun hp => Path.all_encodes.mp ((Layout.meets_featuresFile (fun _ h => h)
      Text.hereditary_encodes (Text.encodes_of _) (Text.encodes_of _)).answer hsetting hp)
  cases h with
  | absent h =>
    obtain ⟨p, hpath, hexists⟩ := h outside
    refine Or.inl ⟨.projectMissing p.toText, ?_, htold hpath⟩
    unfold load
    rw [Task.run_bind, Layout.asks_featuresFile.run_self, hpath]
    dsimp only
    rw [Task.run_bind_ok (Task.run_pathExists hexists)]
    rfl
  | other hreaches hfile hother hshallow =>
    obtain ⟨p, hproject, -⟩ := hreaches.hasProject outside hfile
    obtain ⟨fault, hcontent, hrefuses⟩ := refuses_ofContent (htold hproject.path) hother hshallow
    exact Or.inl ⟨fault, by rw [run_load_of_file hproject, hcontent], hrefuses.expected⟩
  | wellFormed h => exact Or.inr ⟨_, _, h⟩

/-! ## Looking features up -/

/-- An id is looked up: it is that of a feature, or it is told that there is none. -/
theorem locate_cases (entries : List Entries) (id : Text) :
    (∃ k e, locate (.text id) (entries.map .object) = .ok (k, e) ∧ entries[k]? = some e) ∨
      locate (.text id) (entries.map .object) = .error (.featureMissing id) := by
  induction entries with
  | nil => exact Or.inr rfl
  | cons f rest ih =>
    rw [List.map_cons, locate_cons]
    split
    · exact Or.inl ⟨0, f, rfl, rfl⟩
    · rcases ih with ⟨k, e, hlocate, hk⟩ | hmissing
      · exact Or.inl ⟨k + 1, e, by rw [hlocate]; rfl, hk⟩
      · exact Or.inr (by rw [hmissing]; rfl)

end Project

namespace Feature

variable {e : Entries}

theorem encodes_testDataOf (he : Encodable (.object e)) : ∀ i ∈ testDataOf e, i.Encodes := by
  intro i hi
  have hdata : Encodable ((e.getD "test_data").orElse (e.getD "testData")) := by
    unfold Value.orElse
    split
    · exact he.getD _
    · exact he.getD _
  unfold testDataOf at hi
  split at hi
  next data hobject =>
    rw [hobject] at hdata
    split at hi
    next field value hfield hvalue =>
      rw [← Option.some.inj hi]
      exact ⟨Value.encodes_shown (hdata.get? hfield), Value.encodes_shown (hdata.get? hvalue)⟩
    next => exact absurd hi (by simp)
  next => exact absurd hi (by simp)

/-- A well-formed entry is a feature whose texts can be told. -/
theorem exists_ofFields (h : Entry.WellFormed e) (he : Encodable (.object e)) :
    ∃ f, ofFields e = .ok f ∧ f.Encodes ∧ f.id = Entry.idText e := by
  have hsteps : ∃ items, Entry.stepsOf (e.getD "steps") = .ok items ∧
      ∀ v ∈ items, Encodable v := by
    cases hget : e.get? "steps" with
    | none =>
      refine ⟨[], ?_, by simp⟩
      unfold Entries.getD
      rw [hget]
      rfl
    | some v =>
      obtain ⟨items, rfl⟩ := h.steps v hget
      exact ⟨items, by rw [Entry.getD_of_get? hget]; rfl, Json.encodable_list.mp (he.get? hget)⟩
  obtain ⟨items, hitems, hencodable⟩ := hsteps
  have hid := h.ordinary.get?_id
  have hdescription : Encodable ((e.get? "description").getD "") := by
    cases hget : e.get? "description" with
    | none => exact Text.encodes_of _
    | some v => exact he.get? hget
  refine ⟨{
    id := Entry.idText e
    description := ((e.get? "description").getD "").shown
    steps := items.map Value.shown
    passes := Entry.passes e
    testData := testDataOf e
    priority := (Entry.priority e).shown
    category := (Entry.category e).shown }, ?_, ⟨?_, ?_, ?_, ?_⟩, rfl⟩
  · unfold ofFields stepsOf
    rw [hid, hitems]
    rfl
  · exact he.get? hid
  · exact Value.encodes_shown hdescription
  · exact List.forall_mem_map.mpr fun v hv => Value.encodes_shown (hencodable v hv)
  · exact encodes_testDataOf he

theorem exists_ofValues {list : List Entries} (h : ∀ e ∈ list, Entry.WellFormed e)
    (hencodable : ∀ e ∈ list, Encodable (.object e)) :
    ∃ features, ofValues (list.map .object) = .ok features ∧ features.length = list.length ∧
      ∀ f ∈ features, f.Encodes ∧ ∃ e ∈ list, f.id = Entry.idText e := by
  induction list with
  | nil => exact ⟨[], rfl, rfl, by simp⟩
  | cons e rest ih =>
    obtain ⟨he, hrest⟩ := List.forall_mem_cons.mp h
    obtain ⟨hfields, hothers⟩ := List.forall_mem_cons.mp hencodable
    obtain ⟨f, hf, hencodes, hid⟩ := exists_ofFields he hfields
    obtain ⟨features, hfeatures, hlength, hall⟩ := ih hrest hothers
    refine ⟨f :: features, ?_, by rw [List.length_cons, hlength, List.length_cons], ?_⟩
    · rw [List.map_cons, ofValues]
      show (ofFields e >>= fun first => ofValues (rest.map .object) >>= fun others =>
        .ok (first :: others)) = _
      rw [hf, hfeatures]
      rfl
    · refine List.forall_mem_cons.mpr ⟨⟨hencodes, e, List.mem_cons_self, hid⟩, ?_⟩
      intro g hg
      obtain ⟨hg, e', he', hid'⟩ := hall g hg
      exact ⟨hg, e', List.mem_cons_of_mem _ he', hid'⟩

end Feature

namespace Project

theorem WellFormed.encodable_entry (h : WellFormed data entries) {e : Entries} (he : e ∈ entries) :
    Encodable (.object e) :=
  Json.encodable_list.mp (h.encodable.get? h.features) _ (List.mem_map_of_mem he)

/-- A feature is found in the project, or it is told that there is none. -/
theorem feature_cases (h : m.Holds place data entries) (id : Text) (outside : Outside) :
    (∃ f k e, (feature (.text id)).run outside m = (.ok f, m) ∧ f.Encodes ∧
      locate (.text id) (entries.map .object) = .ok (k, e) ∧ e ∈ entries ∧
      f.id = Entry.idText e) ∨
      (feature (.text id)).run outside m = (.error (.featureMissing id), m) := by
  obtain ⟨p, hloaded⟩ := h.loaded outside
  unfold feature
  rw [Task.run_bind_ok hloaded.run]
  unfold find
  rcases locate_cases entries id with ⟨k, e, hlocate, hk⟩ | hmissing
  · have he := List.mem_of_getElem? hk
    obtain ⟨f, hf, hencodes, hid⟩ := Feature.exists_ofFields (h.wellFormed.entries e he)
      (h.wellFormed.encodable_entry he)
    refine Or.inl ⟨f, k, e, ?_, hencodes, hlocate, he, hid⟩
    rw [hlocate]
    show (Task.ofExcept (Feature.ofFields e)).run outside m = _
    rw [hf, Task.run_ofExcept]
  · refine Or.inr ?_
    rw [hmissing]
    rfl

/-- All features of the project are there. -/
theorem exists_allFeatures (h : m.Holds place data entries) (outside : Outside) :
    ∃ features, allFeatures.run outside m = (.ok features, m) ∧
      features.length = entries.length ∧
      ∀ f ∈ features, f.Encodes ∧ ∃ e ∈ entries, f.id = Entry.idText e := by
  obtain ⟨p, hloaded⟩ := h.loaded outside
  obtain ⟨features, hfeatures, hrest⟩ := Feature.exists_ofValues h.wellFormed.entries
    fun e he => h.wellFormed.encodable_entry he
  refine ⟨features, ?_, hrest⟩
  unfold allFeatures
  rw [Task.run_bind_ok hloaded.run]
  dsimp only
  rw [hfeatures, Task.run_ofExcept]

/-- A feature that was found is accepted, and the answer can be printed. -/
theorem run_markDone_of_holds (h : m.Holds place data entries)
    (hclock : ∀ outside, ∃ now, (Layout.now.run outside m).1 = .ok now) {id : Text} {k : Nat}
    {e : Entries} (hlocate : locate (.text id) (entries.map .object) = .ok (k, e))
    {notes : Option Text} (hnotes : ∀ t ∈ notes, Text.Encodes t) (outside : Outside) :
    ∃ u tally content executable, Printable (.object u) ∧ Printable tally.toValue ∧
      (markDone (.text id) (Value.ofText? notes)).run outside m =
        (.ok (.object u, tally), m.withFile place content executable) := by
  have hk := (locate_text hlocate).1
  obtain ⟨now, u, tally, content, executable, -, hu, htally, hrun, -⟩ :=
    run_markDone_of_ready ⟨h.reaches, hclock⟩ h.features
      (fun e he => (h.wellFormed.entries e he).ordinary)
      (Value.isLongInt_mono (Nat.le_succ _) h.wellFormed.count) hlocate hk
      (h.wellFormed.entries e (List.mem_of_getElem? hk)).countsUp hnotes outside
  exact ⟨u, tally, content, executable, hu, htally, hrun⟩

end Project

end Acceptance
