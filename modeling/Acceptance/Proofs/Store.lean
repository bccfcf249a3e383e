import Acceptance.Project.Store
import Acceptance.Proofs.Entry
import Acceptance.Proofs.Layout
import Acceptance.Proofs.Places

/-! # The project file

What a project file holds is read, and what is saved is there afterwards. A text that cannot be
encoded is the exception: the file that was to hold it is empty. -/

namespace Acceptance

variable {outside : Outside} {place : Place} {m m' : Machine}

/-! ## Where the project file is -/

namespace Machine

/-- If the path of the project file is known on the machine, it leads to the place. -/
def KeepsProjectAt (m : Machine) (place : Place) : Prop :=
  ∀ outside p, (Layout.featuresFile.run outside m).1 = .ok p →
    Place.ofPath m.directory p = place

/-- The path of the project file leads to the place. -/
def ReachesProject (m : Machine) (place : Place) : Prop :=
  ∀ outside, ∃ p, (Layout.featuresFile.run outside m).1 = .ok p ∧ Task.pathProblem? p = none ∧
    m.files.locate m.directory p = .ok place

theorem KeepsProjectAt.of_setting (h : m.KeepsProjectAt place) (hsetting : m'.setting = m.setting) :
    m'.KeepsProjectAt place := by
  intro outside p hp
  rw [Layout.asks_featuresFile.run outside hsetting] at hp
  have hdirectory : m'.directory = m.directory := congrArg Setting.directory hsetting
  rw [hdirectory]
  exact h outside p hp

end Machine

namespace Task

/-! ## Reading and writing documents -/

/-- A file is there, and its text is read. -/
theorem run_pathExists_of_file {p : Path} {content : List UInt8} {executable : Bool}
    (hproblem : pathProblem? p = none) (hlocate : m.files.locate m.directory p = .ok place)
    (hfile : m.files.get? place = some (.file content executable)) :
    (pathExists p).run outside m = (.ok true, m) := by
  unfold pathExists
  rw [hproblem]
  dsimp only
  rw [run_read_bind, hlocate]
  dsimp only
  rw [run_read, hfile]
  rfl

theorem run_readText_of_file (outside : Outside) {p : Path} {content : List UInt8} {executable : Bool}
    (hproblem : pathProblem? p = none) (hlocate : m.files.locate m.directory p = .ok place)
    (hfile : m.files.get? place = some (.file content executable)) :
    (readText p).run outside m = (((Utf8.decode content).map Text.withLineFeeds).mapError
      fun problem => .invalid (.undecodable problem), m) := by
  have hcontent : m.files.content m.directory p = .ok content := by
    unfold FileTree.content
    rw [hlocate]
    dsimp only [bind, Except.bind]
    rw [hfile]
  have hfiles : (onFiles p fun files directory => files.content directory p).run outside m =
      (.ok content, m) := by
    unfold onFiles
    rw [run_checkPath_bind, hproblem]
    dsimp only
    rw [run_read_bind, hcontent]
    rfl
  unfold readText
  rw [run_bind_ok hfiles]
  cases Utf8.decode content <;> rfl

end Task

namespace Project

/-- A document is refused, and nothing happens, or the file where the path leads is written: it holds
the document, or nothing if that cannot be encoded. -/
theorem run_writeDocument (outside : Outside) (m : Machine) (p : Path) {v : Value} {document : Text}
    (hwrite : Json.write v = .ok document) :
    (∃ fault, (writeDocument p v).run outside m = (.error fault, m)) ∨
      m.files.get? (Place.ofPath m.directory p) ≠ some .directory ∧
      ∃ executable,
        Text.Encodes document ∧ (writeDocument p v).run outside m =
          (.ok (), m.withFile (Place.ofPath m.directory p) (document.flatMap Utf8.bytesOf)
            executable) ∨
        ¬ Text.Encodes document ∧ ∃ fault, (writeDocument p v).run outside m =
          (.error fault, m.withFile (Place.ofPath m.directory p) [] executable) := by
  unfold writeDocument
  rw [hwrite]
  dsimp only
  by_cases hencodes : Text.Encodes document
  · rcases Task.run_writeText (Utf8.encode_of_encodes hencodes) with hfault | ⟨hnode, x, hrun⟩
    · exact Or.inl hfault
    · exact Or.inr ⟨hnode, x, Or.inl ⟨hencodes, hrun⟩⟩
  · rcases Task.run_writeText_unencodable hencodes with hfault | ⟨hnode, fault, x, hrun⟩
    · exact Or.inl hfault
    · exact Or.inr ⟨hnode, x, Or.inr ⟨hencodes, fault, hrun⟩⟩

/-- What is loaded is what the text of the project file says. It is loaded when the path leads
there. -/
theorem run_load {content : List UInt8} {executable : Bool} {t : Text}
    (hat : m.KeepsProjectAt place)
    (hfile : m.files.get? place = some (.file content executable))
    (hdecode : Utf8.decode content = .ok t) (hlines : Text.withLineFeeds t = t) :
    ((∃ fault, load.run outside m = (.error fault, m)) ∧ ¬ m.ReachesProject place) ∨
      ∃ p, load.run outside m = (parse p t >>= ofValue p, m) := by
  unfold load
  rw [Task.run_bind, Layout.asks_featuresFile.run_self]
  rcases hpath : (Layout.featuresFile.run outside m).1 with fault | p
  · refine Or.inl ⟨⟨fault, rfl⟩, fun hreaches => ?_⟩
    obtain ⟨p, hp, -⟩ := hreaches outside
    rw [hpath] at hp
    exact absurd hp (by simp)
  dsimp only
  have hreached : ∀ q, (Layout.featuresFile.run outside m).1 = .ok q → q = p := by
    intro q hq
    rw [hpath] at hq
    exact (Except.ok.inj hq).symm
  cases hproblem : Task.pathProblem? p with
  | some problem =>
    refine Or.inl ⟨⟨.projectMissing p.toText, ?_⟩, fun hreaches => ?_⟩
    · have hexists : (Task.pathExists p).run outside m = (.ok false, m) := by
        unfold Task.pathExists
        rw [hproblem]
        rfl
      rw [Task.run_bind_ok hexists]
      rfl
    · obtain ⟨q, hq, hnone, -⟩ := hreaches outside
      rw [hreached q hq, hproblem] at hnone
      exact absurd hnone (by simp)
  | none =>
    cases hlocate : m.files.locate m.directory p with
    | error problem =>
      refine Or.inl ⟨?_, fun hreaches => ?_⟩
      · have hexists : (Task.pathExists p).run outside m = (.ok false, m) ∨
            ∃ fault, (Task.pathExists p).run outside m = (.error fault, m) := by
          unfold Task.pathExists
          rw [hproblem]
          dsimp only
          rw [Task.run_read_bind, hlocate]
          cases problem with
          | missing => exact Or.inl rfl
          | notADirectory => exact Or.inl rfl
          | alreadyThere => exact Or.inr ⟨_, rfl⟩
          | isADirectory => exact Or.inr ⟨_, rfl⟩
          | nameTooLong => exact Or.inr ⟨_, rfl⟩
        rcases hexists with hfalse | ⟨fault, hfault⟩
        · exact ⟨_, by rw [Task.run_bind_ok hfalse]; rfl⟩
        · exact ⟨_, Task.run_bind_error hfault _⟩
      · obtain ⟨q, hq, -, hat'⟩ := hreaches outside
        rw [hreached q hq, hlocate] at hat'
        exact absurd hat' (by simp)
    | ok other =>
      obtain rfl : other = place := by
        rw [FileTree.locate_eq_ok hlocate]
        exact hat outside p hpath
      refine Or.inr ⟨p, ?_⟩
      have hread := Task.run_readText_of_file outside hproblem hlocate hfile
      rw [hdecode] at hread
      rw [Task.run_bind_ok (Task.run_pathExists_of_file hproblem hlocate hfile), if_pos rfl,
        Task.run_attempt_bind, hread]
      simp only [Except.map, Except.mapError, hlines]
      cases parse p t with
      | error fault => rfl
      | ok v => exact Task.run_ofExcept _

end Project

/-! ## What is on record -/

/-- A feature on record: what was given, and how often it was accepted. -/
structure Item where
  given : Entry.Given
  marks : Nat
  deriving DecidableEq

/-- The entries of the features on record, in order: the number of a feature gives its id. -/
structure Lists (register : List Item) (entries : List Entries) : Prop where
  length : entries.length = register.length
  kept : ∀ e ∈ entries, Json.Kept 2 (.object e)
  tells : ∀ {k : Nat} {item : Item} {e : Entries}, register[k]? = some item → entries[k]? = some e →
    Entry.Says (Entry.idOf ((k : Int) + 1)) item.given item.marks e

namespace Lists

variable {register : List Item} {entries : List Entries} {item : Item} {e : Entries} {k : Nat}

theorem nil : Lists [] [] where
  length := rfl
  kept := by simp
  tells := by simp

theorem exists_item (h : Lists register entries) (he : entries[k]? = some e) :
    ∃ item, register[k]? = some item := by
  have hk := (List.getElem?_eq_some_iff.mp he).1
  rw [h.length] at hk
  exact ⟨_, List.getElem?_eq_getElem hk⟩

theorem exists_entry (h : Lists register entries) (hitem : register[k]? = some item) :
    ∃ e, entries[k]? = some e := by
  have hk := (List.getElem?_eq_some_iff.mp hitem).1
  rw [← h.length] at hk
  exact ⟨_, List.getElem?_eq_getElem hk⟩

theorem append (h : Lists register entries) (hkept : Json.Kept 2 (.object e))
    (htells : Entry.Says (Entry.idOf ((entries.length : Int) + 1)) item.given item.marks e) :
    Lists (register ++ [item]) (entries ++ [e]) where
  length := by rw [List.length_append, List.length_append, h.length]; rfl
  kept f hf := by
    rcases List.mem_append.mp hf with hf | hf
    · exact h.kept f hf
    · rw [List.mem_singleton.mp hf]
      exact hkept
  tells {j given f} hgiven hf := by
    rw [List.getElem?_append] at hgiven hf
    rw [h.length] at hf htells
    split at hf
    next hlt =>
      rw [if_pos hlt] at hgiven
      exact h.tells hgiven hf
    next hge =>
      rw [if_neg hge] at hgiven
      rw [List.getElem?_singleton] at hgiven hf
      split at hf
      next hj =>
        rw [if_pos hj, Option.some.injEq] at hgiven
        rw [Option.some.injEq] at hf
        rw [← hgiven, ← hf, show j = register.length by omega]
        exact htells
      next => exact absurd hf (by simp)

theorem set (h : Lists register entries) (hkept : Json.Kept 2 (.object e))
    (htells : Entry.Says (Entry.idOf ((k : Int) + 1)) item.given item.marks e) :
    Lists (register.set k item) (entries.set k e) where
  length := by rw [List.length_set, List.length_set, h.length]
  kept f hf := by
    rcases List.mem_or_eq_of_mem_set hf with hf | rfl
    · exact h.kept f hf
    · exact hkept
  tells {j given f} hgiven hf := by
    rw [List.getElem?_set] at hgiven hf
    split at hf
    next hjk =>
      subst hjk
      rw [if_pos rfl] at hgiven
      split at hf
      next hk =>
        rw [if_pos (h.length ▸ hk), Option.some.injEq] at hgiven
        rw [Option.some.injEq] at hf
        rw [← hgiven, ← hf]
        exact htells
      next => exact absurd hf (by simp)
    next hjk =>
      rw [if_neg hjk] at hgiven
      exact h.tells hgiven hf

/-- The entries are on record with their fields in order, too. -/
theorem inOrder (h : Lists register entries) : Lists register (entries.map Json.inOrder) where
  length := by rw [List.length_map, h.length]
  kept f hf := by
    obtain ⟨e, he, rfl⟩ := List.mem_map.mp hf
    exact Json.kept_ordered (.object e) (h.kept e he)
  tells {j item f} hitem hf := by
    rw [List.getElem?_map, Option.map_eq_some_iff] at hf
    obtain ⟨e, he, rfl⟩ := hf
    have hkeys := (Json.kept_object.mp (h.kept e (List.mem_of_getElem? he))).1
    exact (h.tells hitem he).inOrder hkeys

end Lists

/-- The data of a project file: the features on record, and their tally. -/
structure Stored (register : List Item) (entries : List Entries) (data : Entries) : Prop where
  kept : Json.Kept 4 (.object data)
  writable : Json.Writable (.object data)
  features : data.get? "features" = some (.list (entries.map .object))
  lists : Lists register entries
  metadata : ∃ tally w, Tally.ofEntries entries = .ok tally ∧ data.get? "metadata" = some w ∧
    Json.ordered w = Json.ordered tally.toValue

namespace Stored

variable {register : List Item} {entries : List Entries} {data e : Entries}

theorem keys (h : Stored register entries data) : Json.TextKeys data :=
  (Json.kept_object.mp h.kept).1

theorem sendable_entry (h : Stored register entries data) (he : e ∈ entries) :
    Json.Sendable 2 (.object e) := by
  have hlist := Json.writable_get? h.keys h.writable h.features
  exact ⟨h.lists.kept e he, Json.writable_list.mp hlist _ (List.mem_map_of_mem he)⟩

theorem tally_inOrder (h : Lists register entries) :
    Tally.ofEntries (entries.map Json.inOrder) = Tally.ofEntries entries := by
  refine Tally.ofEntries_map fun e he => ?_
  obtain ⟨k, hk⟩ := List.mem_iff_getElem?.mp he
  obtain ⟨item, hitem⟩ := h.exists_item hk
  have hkeys := (Json.kept_object.mp (h.kept e he)).1
  exact ((h.tells hitem hk).inOrder hkeys).alike (h.tells hitem hk)

/-- The data is that of the record with its entries in order, too. -/
theorem inOrder (h : Stored register entries data) :
    Stored register (entries.map Json.inOrder) (Json.inOrder data) where
  kept := Json.kept_ordered (.object data) h.kept
  writable := (Json.writable_ordered h.kept).mpr h.writable
  features := by
    rw [Json.get?_inOrder h.keys, h.features, Option.map_some, Json.ordered,
      Json.orderedItems_eq_map, List.map_map, List.map_map]
    rfl
  lists := h.lists.inOrder
  metadata := by
    obtain ⟨tally, w, htally, hget, hw⟩ := h.metadata
    refine ⟨tally, Json.ordered w, ?_, ?_, ?_⟩
    · rw [tally_inOrder h.lists, htally]
    · rw [Json.get?_inOrder h.keys, hget, Option.map_some]
    · rw [Json.ordered_ordered w (Json.kept_get? h.kept hget), hw]

end Stored

namespace Machine

/-- The project file is at the place, and it holds what is on record. -/
def Records (m : Machine) (place : Place) (register : List Item) : Prop :=
  ∃ entries data document executable, Stored register entries data ∧
    Json.write (.object data) = .ok document ∧
    m.files.get? place = some (.file (document.flatMap Utf8.bytesOf) executable)

/-- The project file is there, and nothing is in it. -/
def Emptied (m : Machine) (place : Place) : Prop :=
  ∃ executable, m.files.get? place = some (.file [] executable)

variable {register : List Item}

theorem Records.of_files (h : m.Records place register) (hfiles : m.files.Spares place m'.files) :
    m'.Records place register := by
  obtain ⟨entries, data, document, executable, hstored, hwrite, hfile⟩ := h
  exact ⟨entries, data, document, executable, hstored, hwrite, hfiles.file hfile⟩

theorem Records.of_spares (h : m.Records place register) (hspares : m.Spares place m') :
    m'.Records place register := h.of_files hspares.files

theorem Emptied.of_files (h : m.Emptied place) (hfiles : m.files.Spares place m'.files) :
    m'.Emptied place := by
  obtain ⟨executable, hfile⟩ := h
  exact ⟨executable, hfiles.file hfile⟩

theorem Emptied.of_spares (h : m.Emptied place) (hspares : m.Spares place m') :
    m'.Emptied place := h.of_files hspares.files

theorem get?_withFile (hnode : m.files.get? place ≠ some .directory) (content : List UInt8)
    (executable : Bool) :
    (m.withFile place content executable).files.get? place = some (.file content executable) :=
  FileTree.get?_put_self _ _ (FileTree.ne_root_of_not_directory hnode)

end Machine

/-! ## Loading and saving -/

namespace Project

variable {register : List Item} {entries : List Entries} {project : Project}

/-- What is on record is loaded, whenever the path leads to the project file. -/
theorem load_record (outside : Outside) (h : m.Records place register) (hat : m.KeepsProjectAt place) :
    ((∃ fault, load.run outside m = (.error fault, m)) ∧ ¬ m.ReachesProject place) ∨
      ∃ project entries, load.run outside m = (.ok project, m) ∧
        project.features = entries.map .object ∧ Stored register entries project.data := by
  obtain ⟨entries, data, document, executable, hstored, hwrite, hfile⟩ := h
  have hdocument := Json.kept_mono _ (by decide : 4 ≤ Json.mostNested) hstored.kept
  obtain ⟨hdecode, hlines⟩ := Json.decode_document hdocument hwrite
  rcases run_load hat hfile hdecode hlines with hfault | ⟨p, hload⟩
  · exact Or.inl hfault
  right
  have hordered := hstored.inOrder
  have hparse : parse p document = .ok (.object (Json.inOrder data)) := by
    unfold parse
    rw [Json.read_write hdocument hwrite]
    rfl
  refine ⟨{ data := Json.inOrder data, features := (entries.map Json.inOrder).map .object },
    entries.map Json.inOrder, ?_, rfl, hordered⟩
  rw [hload, hparse]
  show (ofValue p (.object (Json.inOrder data)), m) = _
  unfold ofValue
  dsimp only
  rw [hordered.features]

/-- An empty project file is not loaded. -/
theorem load_emptied (outside : Outside) (h : m.Emptied place) (hat : m.KeepsProjectAt place) :
    ∃ fault, load.run outside m = (.error fault, m) := by
  obtain ⟨executable, hfile⟩ := h
  rcases run_load hat hfile (t := []) rfl rfl with ⟨hfault, -⟩ | ⟨p, hload⟩
  · exact hfault
  · exact ⟨_, hload⟩

/-- What comes of saving: it is refused, and nothing happens, or the project file holds the document
of the new data, or nothing if that cannot be encoded. -/
theorem run_save (outside : Outside) (m : Machine) (project : Project) :
    (∃ fault, (save project).run outside m = (.error fault, m)) ∨
      ∃ now tally p document executable, (Layout.now.run outside m).1 = .ok now ∧
        Tally.ofValues project.features = .ok tally ∧
        (Layout.featuresFile.run outside m).1 = .ok p ∧
        Json.write (.object (project.dataAt now tally)) = .ok document ∧
        m.files.get? (Place.ofPath m.directory p) ≠ some .directory ∧
        (Text.Encodes document ∧ (save project).run outside m = (.ok tally,
            m.withFile (Place.ofPath m.directory p) (document.flatMap Utf8.bytesOf) executable) ∨
          ¬ Text.Encodes document ∧ ∃ fault, (save project).run outside m =
            (.error fault, m.withFile (Place.ofPath m.directory p) [] executable)) := by
  unfold save
  rw [Task.run_bind, Layout.asks_now.run_self]
  rcases (Layout.now.run outside m).1 with fault | now
  · exact Or.inl ⟨fault, rfl⟩
  dsimp only
  rcases htally : Tally.ofValues project.features with fault | tally
  · exact Or.inl ⟨fault, rfl⟩
  rw [Task.run_ofExcept_ok_bind, Task.run_bind, Layout.asks_featuresFile.run_self]
  rcases hpath : (Layout.featuresFile.run outside m).1 with fault | p
  · exact Or.inl ⟨fault, rfl⟩
  dsimp only
  rcases hwrite : Json.write (.object (project.dataAt now tally)) with cause | document
  · have hrefused : (writeDocument p (.object (project.dataAt now tally))).run outside m =
        (.error (Fault.ofUnwritable cause), m) := by
      unfold writeDocument
      rw [hwrite]
      rfl
    exact Or.inl ⟨_, Task.run_bind_error hrefused _⟩
  rcases run_writeDocument outside m p hwrite with
    ⟨fault, hrun⟩ | ⟨hnode, executable, hrun⟩
  · exact Or.inl ⟨fault, Task.run_bind_error hrun _⟩
  right
  refine ⟨now, tally, p, document, executable, rfl, rfl, rfl, hwrite, hnode, ?_⟩
  rcases hrun with ⟨hencodes, hrun⟩ | ⟨hencodes, fault, hrun⟩
  · exact Or.inl ⟨hencodes, by rw [Task.run_bind_ok hrun]; rfl⟩
  · exact Or.inr ⟨hencodes, fault, Task.run_bind_error hrun _⟩

/-- What was written when saving succeeded. -/
theorem save_eq_ok {tally : Tally} (h : (save project).run outside m = (.ok tally, m')) :
    ∃ now p document executable, (Layout.now.run outside m).1 = .ok now ∧
      Tally.ofValues project.features = .ok tally ∧
      (Layout.featuresFile.run outside m).1 = .ok p ∧
      Json.write (.object (project.dataAt now tally)) = .ok document ∧
      m.files.get? (Place.ofPath m.directory p) ≠ some .directory ∧ Text.Encodes document ∧
      m' = m.withFile (Place.ofPath m.directory p) (document.flatMap Utf8.bytesOf) executable := by
  rcases run_save outside m project with ⟨cause, hrun⟩ | ⟨now, tally', p, document, executable, hnow,
      htally, hpath, hwrite, hnode, ⟨hencodes, hrun⟩ | ⟨-, cause, hrun⟩⟩ <;>
    rw [hrun] at h
  · exact absurd (Prod.mk.inj h).1 (by simp)
  · obtain rfl := Except.ok.inj (Prod.mk.inj h).1
    exact ⟨now, p, document, executable, hnow, htally, hpath, hwrite, hnode, hencodes,
      (Prod.mk.inj h).2.symm⟩
  · exact absurd (Prod.mk.inj h).1 (by simp)

theorem get?_dataAt (project : Project) (now : Instant) (tally : Tally) :
    (project.dataAt now tally).get? "features" = some (.list project.features) ∧
      (project.dataAt now tally).get? "metadata" = some tally.toValue := by
  unfold dataAt
  constructor
  · rw [Entries.get?_set_of_ne (by decide), Entries.get?_set_of_ne (by decide),
      Entries.get?_set_self]
  · rw [Entries.get?_set_self]

end Project

theorem Lists.counted {register : List Item} {entries : List Entries}
    (h : Lists register entries) : ∀ e ∈ entries, Entry.Counted e := by
  intro e he
  obtain ⟨k, hk⟩ := List.mem_iff_getElem?.mp he
  obtain ⟨item, hitem⟩ := h.exists_item hk
  exact (h.tells hitem hk).counted (h.kept e he)

/-- What comes of a change of the record that puts down some texts: nothing, a new record, or an
empty file if a text cannot be encoded. `P` says what the answer is and what is on record then. -/
inductive Recorded {α : Type} (m : Machine) (place : Place) (texts : List Text)
    (P : α → List Item → Prop) : Except Fault α × Machine → Prop where
  | refused (fault : Fault) : Recorded m place texts P (.error fault, m)
  | changed {a : α} {register : List Item} {m' : Machine} (hsetting : m'.setting = m.setting)
      (hrecords : m'.Records place register) (ha : P a register) :
      Recorded m place texts P (.ok a, m')
  | emptied (fault : Fault) {m' : Machine} (hsetting : m'.setting = m.setting)
      (hemptied : m'.Emptied place) (htext : ∃ t ∈ texts, ¬ Text.Encodes t) :
      Recorded m place texts P (.error fault, m')

theorem Recorded.map {α β : Type} {texts : List Text} {P : α → List Item → Prop}
    {Q : β → List Item → Prop} {t : Task α} (f : α → β)
    (h : Recorded m place texts P (t.run outside m))
    (hf : ∀ a register, P a register → Q (f a) register) :
    Recorded m place texts Q ((t >>= fun a => pure (f a)).run outside m) := by
  rw [Task.run_bind]
  generalize t.run outside m = result at h
  cases h with
  | refused fault => exact .refused fault
  | changed hsetting hrecords ha => exact .changed hsetting hrecords (hf _ _ ha)
  | emptied fault hsetting hemptied htext => exact .emptied fault hsetting hemptied htext

namespace Project

variable {register : List Item} {entries : List Entries} {project : Project} {texts : List Text}

/-- The tally is that of a project file with these entries. -/
def Saved (register : List Item) (entries : List Entries) (tally : Tally)
    (register' : List Item) : Prop :=
  register' = register ∧
    ∃ data, Stored register entries data ∧ data.get? "metadata" = some tally.toValue

theorem save_record (hat : m.KeepsProjectAt place)
    (hfeatures : project.features = entries.map .object) (hdata : Json.Kept 4 (.object project.data))
    (h : Lists register entries ∨
      ∃ t ∈ texts, ¬ Text.Encodes t ∧ ∃ e ∈ entries, Json.Mentions t (.object e)) :
    Recorded m place texts (Saved register entries) ((save project).run outside m) := by
  rcases run_save outside m project with
    ⟨fault, hrun⟩ | ⟨now, tally, p, document, executable, -, htally, hpath, hwrite, hnode, hrun⟩
  · rw [hrun]
    exact .refused fault
  rw [hat outside p hpath] at hnode hrun
  rw [hfeatures, Tally.ofValues_objects] at htally
  obtain ⟨hlist, hmetadata⟩ := get?_dataAt project now tally
  rw [hfeatures] at hlist
  rcases h with hlists | ⟨t, ht, hbad, e, he, hmentions⟩
  · -- All texts can be encoded, and so can the document.
    obtain ⟨tally', htally', hkeptTally⟩ := Tally.ofEntries_spec hlists.counted
    obtain rfl : tally' = tally := Except.ok.inj (htally'.symm.trans htally)
    have hkeptList : Json.Kept 3 (.list project.features) := by
      refine Json.kept_list.mpr fun v hv => ?_
      rw [hfeatures] at hv
      obtain ⟨e, he, rfl⟩ := List.mem_map.mp hv
      exact hlists.kept e he
    have hkept : Json.Kept 4 (.object (project.dataAt now tally')) :=
      Json.kept_set (Json.kept_set (Json.kept_set hdata (Text.encodes_of_all rfl) hkeptList)
        (Text.encodes_of_all rfl) (Instant.encodes_toText now)) (Text.encodes_of_all rfl) hkeptTally
    have hstored : Stored register entries (project.dataAt now tally') :=
      ⟨hkept, Json.writable_of_write hwrite, hlist, hlists, tally', _, htally, hmetadata, rfl⟩
    have hdocument := Json.kept_mono _ (by decide : 4 ≤ Json.mostNested) hkept
    rcases hrun with ⟨-, hrun⟩ | ⟨hencodes, -⟩
    · rw [hrun]
      exact .changed rfl ⟨entries, _, document, executable, hstored, hwrite,
        Machine.get?_withFile hnode _ _⟩ ⟨rfl, _, hstored, hmetadata⟩
    · exact absurd (Json.plain_document hdocument hwrite).encodes hencodes
  · -- The document mentions what cannot be encoded.
    rcases hrun with ⟨hencodes, -⟩ | ⟨-, fault, hrun⟩
    · have hkeys : Json.TextKeys (project.dataAt now tally) :=
        (((Json.kept_object.mp hdata).1.set (Text.encodes_of_all rfl) _).set
          (Text.encodes_of_all rfl) _).set (Text.encodes_of_all rfl) _
      have hmention : Json.Mentions t (.object (project.dataAt now tally)) :=
        .of_get? hkeys.texts hlist (.item (List.mem_map_of_mem he) hmentions)
      exact absurd (Json.encodes_of_write hwrite hencodes hmention) hbad
    · rw [hrun]
      exact .emptied fault rfl ⟨executable, Machine.get?_withFile hnode _ _⟩ ⟨t, ht, hbad⟩

/-! ## Adding a feature -/

/-- The answer is the new feature's entry, and the feature is the last on record. -/
def Added (register : List Item) (g : Entry.Given) (v : Value) (register' : List Item) : Prop :=
  register' = register ++ [⟨g, 0⟩] ∧ ∃ e, v = .object e ∧ Json.Sendable 2 v

theorem addFeature_record (outside : Outside) (h : m.Records place register) (hat : m.KeepsProjectAt place)
    (g : Entry.Given) :
    Recorded m place g.texts (Added register g)
      ((addFeature (.text g.description) (.text g.category) (.text g.priority)
        (Value.texts g.steps)).run outside m) := by
  unfold addFeature
  rcases load_record outside h hat with
    ⟨⟨fault, hload⟩, -⟩ | ⟨project, entries, hload, hfeatures, hstored⟩
  · rw [Task.run_bind_error hload]
    exact .refused fault
  rw [Task.run_bind_ok hload]
  have hlength : project.features.length = entries.length := by rw [hfeatures, List.length_map]
  dsimp only
  rw [Entry.create_eq, hlength]
  split
  next hpriority =>
    rw [Task.run_ofExcept_ok_bind]
    have hentries : project.features ++ [.object (Entry.newEntry (Entry.idOf (entries.length + 1)) g)]
        = (entries ++ [Entry.newEntry (Entry.idOf (entries.length + 1)) g]).map .object := by
      rw [hfeatures, List.map_append]
      rfl
    generalize hnew : Entry.newEntry (Entry.idOf (entries.length + 1)) g = e at hentries
    have htells := Entry.says_newEntry (Entry.idOf ((entries.length : Int) + 1)) g
    rw [hnew] at htells
    have hlists : Lists (register ++ [⟨g, 0⟩]) (entries ++ [e]) ∨ ∃ t ∈ g.texts,
        ¬ Text.Encodes t ∧ ∃ f ∈ entries ++ [e], Json.Mentions t (.object f) := by
      by_cases htexts : ∀ t ∈ g.texts, Text.Encodes t
      · have hkept := Entry.kept_newEntry (Entry.encodes_idOf entries.length) hpriority htexts
        rw [hnew] at hkept
        exact Or.inl (hstored.lists.append hkept htells)
      · right
        obtain ⟨t, ht, hbad⟩ : ∃ t ∈ g.texts, ¬ Text.Encodes t := by simpa using htexts
        have hmentions := Entry.mentions_newEntry (Entry.idOf (entries.length + 1)) ht
        rw [hnew] at hmentions
        exact ⟨t, ht, hbad, e, by simp, hmentions⟩
    have hsave : Recorded m place g.texts (Saved (register ++ [⟨g, 0⟩]) (entries ++ [e]))
        ((save { project with features := project.features ++ [.object e] }).run outside m) :=
      save_record hat hentries hstored.kept hlists
    refine hsave.map (fun _ => Value.object e) ?_
    rintro tally register' ⟨hregister, data, hdata, -⟩
    have he : e ∈ entries ++ [e] := by simp
    exact ⟨hregister, e, rfl, hdata.sendable_entry he⟩
  next => exact .refused _

/-! ## Accepting a feature -/

theorem locate_cons (id : Value) (f : Entries) (rest : List Value) :
    locate id (.object f :: rest) =
      if Entry.hasId f id then .ok (0, f)
      else (locate id rest).map fun found => (found.1 + 1, found.2) := by
  rw [locate]
  show (if Entry.hasId f id = true then Except.ok (0, f) else _) = _
  split
  · rfl
  · cases locate id rest <;> rfl

theorem locate_text {id : Text} {k : Nat} {e : Entries}
    (h : locate (.text id) (entries.map .object) = .ok (k, e)) :
    entries[k]? = some e ∧ Entry.hasId e (.text id) = true ∧
      ∀ j f, j < k → entries[j]? = some f → Entry.hasId f (.text id) = false := by
  induction entries generalizing k with
  | nil => exact absurd h (by simp [locate])
  | cons f rest ih =>
    rw [List.map_cons, locate_cons] at h
    split at h
    next hid =>
      obtain ⟨rfl, rfl⟩ := Prod.mk.inj (Except.ok.inj h)
      exact ⟨rfl, hid, fun j f hj => absurd hj (Nat.not_lt_zero j)⟩
    next hnot =>
      cases hrest : locate (.text id) (rest.map .object) with
      | error fault =>
        rw [hrest] at h
        exact absurd h (by simp [Except.map])
      | ok found =>
        rw [hrest] at h
        obtain ⟨rfl, rfl⟩ := Prod.mk.inj (Except.ok.inj h)
        obtain ⟨hk, hid, hbefore⟩ := ih hrest
        refine ⟨hk, hid, fun j g hj hg => ?_⟩
        cases j with
        | zero => rw [← Option.some.inj hg, Bool.eq_false_iff.mpr hnot]
        | succ j => exact hbefore j g (by omega) hg

theorem locate_of_first {id : Value} {k : Nat} {e : Entries} (hk : entries[k]? = some e)
    (hid : Entry.hasId e id = true)
    (hbefore : ∀ j f, j < k → entries[j]? = some f → Entry.hasId f id = false) :
    locate id (entries.map .object) = .ok (k, e) := by
  induction entries generalizing k with
  | nil => exact absurd hk (by simp)
  | cons f rest ih =>
    rw [List.map_cons, locate_cons]
    cases k with
    | zero =>
      obtain rfl : f = e := by simpa using hk
      rw [if_pos hid]
    | succ k =>
      have hf := hbefore 0 f (by omega) rfl
      have hrest := ih (k := k) (by simpa using hk) fun j g hj hg =>
        hbefore (j + 1) g (by omega) (by simpa using hg)
      rw [hf, hrest]
      rfl

/-- A feature on record is found by its id. -/
theorem locate_idOf (h : Lists register entries) {k : Nat} {e : Entries}
    (hk : entries[k]? = some e) :
    locate (.text (Entry.idOf ((k : Int) + 1))) (entries.map .object) = .ok (k, e) := by
  obtain ⟨item, hitem⟩ := h.exists_item hk
  refine locate_of_first hk ((h.tells hitem hk).hasId_iff.mpr rfl) fun j f hj hf => ?_
  obtain ⟨other, hother⟩ := h.exists_item hf
  rw [Bool.eq_false_iff, Ne, (h.tells hother hf).hasId_iff]
  intro hid
  have := Entry.idOf_inj hid
  omega

/-- The answer is the entry and the tally, and the feature was accepted once more. -/
def Marked (register : List Item) (id : Text) (answer : Value × Tally)
    (register' : List Item) : Prop :=
  ∃ (k : Nat) (item : Item), register[k]? = some item ∧ id = Entry.idOf ((k : Int) + 1) ∧
    register' = register.set k { item with marks := item.marks + 1 } ∧
    (∃ e, answer.1 = .object e) ∧ Json.Sendable 2 answer.1 ∧ Json.Sendable 3 answer.2.toValue

theorem markDone_record (outside : Outside) (h : m.Records place register) (hat : m.KeepsProjectAt place) (id : Text)
    (notes : Option Text) :
    Recorded m place notes.toList (Marked register id)
      ((markDone (.text id) (Value.ofText? notes)).run outside m) := by
  unfold markDone
  rcases load_record outside h hat with
    ⟨⟨fault, hload⟩, -⟩ | ⟨project, entries, hload, hfeatures, hstored⟩
  · rw [Task.run_bind_error hload]
    exact .refused fault
  rw [Task.run_bind_ok hload]
  dsimp only
  rw [hfeatures]
  rcases hlocate : locate (.text id) (entries.map .object) with fault | ⟨k, e⟩
  · exact .refused fault
  obtain ⟨hk, hid, -⟩ := locate_text hlocate
  obtain ⟨item, hitem⟩ := hstored.lists.exists_item hk
  have htells := hstored.lists.tells hitem hk
  rw [Task.run_ofExcept_ok_bind, Task.run_bind, Layout.asks_now.run_self]
  rcases (Layout.now.run outside m).1 with fault | now
  · exact .refused fault
  dsimp only
  rw [Entry.complete_eq htells, Task.run_ofExcept_ok_bind]
  have hentries : (entries.map Value.object).set k (.object (Entry.accepted e item.marks
      (Value.ofText? notes) now)) =
        (entries.set k (Entry.accepted e item.marks (Value.ofText? notes) now)).map .object := by
    rw [List.map_set]
  have hupdated := htells.accepted (Value.ofText? notes) now
  generalize hnew : Entry.accepted e item.marks (Value.ofText? notes) now = updated at hentries hupdated
  have hlists : Lists (register.set k { item with marks := item.marks + 1 })
      (entries.set k updated) ∨ ∃ t ∈ notes.toList, ¬ Text.Encodes t ∧
        ∃ f ∈ entries.set k updated, Json.Mentions t (.object f) := by
    have hkept := hstored.lists.kept e (List.mem_of_getElem? hk)
    by_cases htexts : ∀ t ∈ notes, Text.Encodes t
    · have hkeptUpdated := Entry.kept_complete hkept (Json.kept_ofText? htexts)
        (Entry.complete_eq htells (Value.ofText? notes) now)
      rw [hnew] at hkeptUpdated
      exact Or.inl (hstored.lists.set hkeptUpdated hupdated)
    · right
      obtain ⟨t, ht, hbad⟩ : ∃ t ∈ notes, ¬ Text.Encodes t := by simpa using htexts
      have hne : t ≠ [] := by
        rintro rfl
        exact hbad (by simp [Text.Encodes])
      obtain rfl : notes = some t := ht
      have hmentions := Entry.mentions_accepted (Json.kept_object.mp hkept).1 item.marks hne now
      rw [hnew] at hmentions
      exact ⟨t, by simp, hbad, updated,
        List.mem_set (List.getElem?_eq_some_iff.mp hk).1 updated, hmentions⟩
  have hsave : Recorded m place notes.toList
      (Saved (register.set k { item with marks := item.marks + 1 }) (entries.set k updated))
      ((save { project with features := (entries.map Value.object).set k (.object updated) }).run
        outside m) := save_record hat hentries hstored.kept hlists
  refine hsave.map (fun tally => (Value.object updated, tally)) ?_
  rintro tally register' ⟨hregister, data, hdata, hmetadata⟩
  have he : updated ∈ entries.set k updated :=
    List.mem_set (List.getElem?_eq_some_iff.mp hk).1 updated
  have hid' := htells.hasId_iff.mp hid
  have hsendable : Json.Sendable 4 (.object data) := ⟨hdata.kept, hdata.writable⟩
  exact ⟨k, item, hitem, hid'.symm, hregister, ⟨updated, rfl⟩, hdata.sendable_entry he,
    hsendable.get? _ hmetadata⟩

/-! ## Looking up a feature -/

/-- A feature on record is given out as it was given. -/
theorem run_feature {project : Project} (hload : load.run outside m = (.ok project, m))
    (hfeatures : project.features = entries.map .object) (hlists : Lists register entries)
    {k : Nat} {item : Item} (hitem : register[k]? = some item) :
    ∃ f, (feature (.text (Entry.idOf ((k : Int) + 1)))).run outside m = (.ok f, m) ∧
      f.id = Entry.idOf ((k : Int) + 1) ∧ f.description = item.given.description ∧
      f.steps = item.given.steps ∧ f.passes = decide (0 < item.marks) ∧
      f.priority = (if item.given.priority.isEmpty then Entry.standardPriority
        else item.given.priority) ∧
      f.category = (if item.given.category.isEmpty then Entry.standardCategory
        else item.given.category) := by
  obtain ⟨e, hk⟩ := hlists.exists_entry hitem
  obtain ⟨f, hf, htells⟩ := (hlists.tells hitem hk).feature
  refine ⟨f, ?_, htells⟩
  have hfind : project.find (.text (Entry.idOf ((k : Int) + 1))) = .ok e := by
    unfold find
    rw [hfeatures, locate_idOf hlists hk]
    rfl
  unfold feature
  rw [Task.run_bind_ok hload, hfind, Task.run_ofExcept_ok_bind, hf, Task.run_ofExcept]

/-- A feature that is given out is on record. -/
theorem feature_record (outside : Outside) (h : m.Records place register) (hat : m.KeepsProjectAt place) (id : Text) :
    (∃ fault, (feature (.text id)).run outside m = (.error fault, m)) ∨
      ∃ f, (feature (.text id)).run outside m = (.ok f, m) ∧ Text.Encodes f.id ∧
        Text.Encodes f.description ∧ ∀ t ∈ f.steps, Text.Encodes t := by
  rcases load_record outside h hat with
    ⟨⟨fault, hload⟩, -⟩ | ⟨project, entries, hload, hfeatures, hstored⟩
  · left
    unfold feature
    exact ⟨fault, Task.run_bind_error hload _⟩
  rcases hlocate : locate (.text id) (entries.map .object) with fault | ⟨k, e⟩
  · left
    unfold feature find
    rw [Task.run_bind_ok hload, hfeatures, hlocate]
    exact ⟨fault, rfl⟩
  right
  obtain ⟨hk, hid, -⟩ := locate_text hlocate
  obtain ⟨item, hitem⟩ := hstored.lists.exists_item hk
  have htells := hstored.lists.tells hitem hk
  obtain rfl := htells.hasId_iff.mp hid
  obtain ⟨f, hrun, hfid, hdescription, hsteps, -⟩ := run_feature hload hfeatures hstored.lists hitem
  obtain ⟨hencodes, hencodes', hencodes''⟩ :=
    htells.encodes (hstored.lists.kept e (List.mem_of_getElem? hk))
  exact ⟨f, hrun, by rwa [hfid], by rwa [hdescription], by rwa [hsteps]⟩

end Project

end Acceptance
