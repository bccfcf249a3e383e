import Mathlib.Data.List.Permutation
import Acceptance.Proofs.Usage

/-! # Changes that fail

A change of the project file that fails has left the file as it was. Lone surrogates are the
exception: the file is emptied before its text is encoded, so if one is given with the change, or
stands in the file before, a change that is refused loses all that was in the file. -/

namespace Acceptance

open Json (Encodable Means Printable)

variable {outside : Outside} {m m' : Machine} {fault : Fault}

/-! ## Texts that go into the file -/

namespace Entry

variable {e u : Entries} {id description category priority steps notes v : Value}

theorem encodable_stepsOf {items : List Value} (hsteps : Encodable steps)
    (h : stepsOf steps = .ok items) : ∀ v ∈ items, Encodable v := by
  unfold stepsOf at h
  split at h
  · rw [← Except.ok.inj h]
    exact Json.encodable_list.mp hsteps
  next t =>
    rw [← Except.ok.inj h, List.forall_mem_map]
    intro c hc d hd
    rw [List.mem_singleton.mp hd]
    exact hsteps c hc
  next fields =>
    rw [← Except.ok.inj h, List.forall_mem_map]
    intro f hf
    have hkey := (Json.encodable_object.mp hsteps f hf).1
    obtain ⟨k, w⟩ := f
    cases k <;> first | exact hkey | trivial
  · split at h
    · exact absurd h (by simp)
    · rw [← Except.ok.inj h]
      simp

theorem encodable_create (h : create id description category priority steps = .ok v)
    (hid : Encodable id) (hdescription : Encodable description) (hcategory : Encodable category)
    (hpriority : Encodable priority) (hsteps : Encodable steps) : Encodable v := by
  unfold create at h
  obtain ⟨-, -, h⟩ := Json.bind_eq_ok h
  obtain ⟨items, hitems, h⟩ := Json.bind_eq_ok h
  rw [← Except.ok.inj h]
  have hlist := Json.encodable_list.mpr (encodable_stepsOf hsteps hitems)
  refine Json.encodable_record ?_
  simp only [List.forall_mem_cons]
  exact ⟨⟨Text.encodes_of_all rfl, hid⟩, ⟨Text.encodes_of_all rfl, hcategory⟩,
    ⟨Text.encodes_of_all rfl, hpriority⟩, ⟨Text.encodes_of_all rfl, hdescription⟩,
    ⟨Text.encodes_of_all rfl, hlist⟩, ⟨Text.encodes_of_all rfl, trivial⟩,
    ⟨Text.encodes_of_all rfl, trivial⟩, ⟨Text.encodes_of_all rfl, Text.encodes_of_all rfl⟩,
    ⟨Text.encodes_of_all rfl, trivial⟩, ⟨Text.encodes_of_all rfl, trivial⟩,
    ⟨Text.encodes_of_all rfl, Text.encodes_of_all rfl⟩, by simp⟩

theorem encodable_complete {now : Instant} (h : complete e notes now = .ok u)
    (he : Encodable (.object e)) (hnotes : Encodable notes) : Encodable (.object u) :=
  complete_preserves (P := fun f => Encodable (.object f)) (Q := Encodable) h
    (fun hkey hf hv => hf.set hkey hv) trivial (fun ht => ht) (fun _ _ => trivial) hnotes
    (fun _ hget => he.get? hget) he

end Entry

namespace Tally

/-- The keys of the counts can be encoded. -/
def SoundKeys (counts : Counts) : Prop := ∀ c ∈ counts, Text.Encodes (Json.keyName c.1)

theorem soundKeys_add {counts : Counts} {key : Key} (h : SoundKeys counts)
    (hkey : Text.Encodes (Json.keyName key)) (passes : Bool) : SoundKeys (counts.add key passes) := by
  induction counts with
  | nil => exact List.forall_mem_cons.mpr ⟨hkey, by simp⟩
  | cons c rest ih =>
    obtain ⟨hc, hrest⟩ := List.forall_mem_cons.mp h
    rw [Counts.add]
    split
    · exact List.forall_mem_cons.mpr ⟨hc, hrest⟩
    · exact List.forall_mem_cons.mpr ⟨hc, ih hrest⟩

theorem encodes_keyOf {v : Value} {key : Key} (hv : Encodable v) (h : keyOf v = .ok key) :
    Text.Encodes (Json.keyName key) := by
  unfold keyOf at h
  split at h
  next k hk =>
    rw [← Except.ok.inj h]
    unfold Value.key? at hk
    split at hk <;> simp only [Option.some.injEq, reduceCtorEq] at hk <;> rw [← hk]
    · exact hv
    · exact (Json.plain_ofInt _).encodes
    · exact (Json.plain_realText _).encodes
    next b => cases b <;> exact Text.encodes_of_all rfl
  next => exact absurd h (by simp)

theorem soundKeys_addAll {entries : List Entries} {byPriority byCategory : Counts}
    {counts : Counts × Counts} (h : ∀ e ∈ entries, Encodable (.object e))
    (hpriority : SoundKeys byPriority) (hcategory : SoundKeys byCategory)
    (hadd : addAll byPriority byCategory entries = .ok counts) :
    SoundKeys counts.1 ∧ SoundKeys counts.2 := by
  have hstandard : ∀ (e : Entries) (key standard : Text), Encodable (.object e) →
      Text.Encodes standard → Encodable ((e.getD key).orElse (.text standard)) := by
    intro e key standard he hencodes
    unfold Value.orElse
    split
    · exact he.getD key
    · exact hencodes
  induction entries generalizing byPriority byCategory with
  | nil =>
    rw [← Except.ok.inj hadd]
    exact ⟨hpriority, hcategory⟩
  | cons e rest ih =>
    obtain ⟨he, hrest⟩ := List.forall_mem_cons.mp h
    rw [addAll] at hadd
    obtain ⟨priority, hp, hadd⟩ := Json.bind_eq_ok hadd
    obtain ⟨category, hc, hadd⟩ := Json.bind_eq_ok hadd
    refine ih hrest (soundKeys_add hpriority ?_ _) (soundKeys_add hcategory ?_ _) hadd
    · exact encodes_keyOf (hstandard e _ _ he (Text.encodes_of_all rfl)) hp
    · exact encodes_keyOf (hstandard e _ _ he (Text.encodes_of_all rfl)) hc

theorem encodable_counts {counts : Counts} (h : SoundKeys counts) : Encodable counts.toValue := by
  refine Json.encodable_object.mpr fun e he => ?_
  obtain ⟨c, hc, rfl⟩ := List.mem_map.mp he
  refine ⟨h c hc, Json.encodable_record ?_⟩
  simp only [List.forall_mem_cons]
  exact ⟨⟨Text.encodes_of_all rfl, trivial⟩, ⟨Text.encodes_of_all rfl, trivial⟩, by simp⟩

theorem allFields_eq_ok {values : List Value} {entries : List Entries}
    (h : Entry.allFields values = .ok entries) : values = entries.map .object := by
  induction values generalizing entries with
  | nil =>
    rw [← Except.ok.inj h]
    rfl
  | cons v rest ih =>
    rw [Entry.allFields] at h
    obtain ⟨e, he, h⟩ := Json.bind_eq_ok h
    obtain ⟨others, hothers, h⟩ := Json.bind_eq_ok h
    rw [← Except.ok.inj h, List.map_cons, ih hothers]
    cases v <;> simp only [Entry.fields, Except.ok.injEq, reduceCtorEq] at he
    rw [he]

theorem encodable_toValue {values : List Value} {tally : Tally} (h : ∀ v ∈ values, Encodable v)
    (htally : ofValues values = .ok tally) : Encodable tally.toValue := by
  obtain ⟨entries, hentries, hcounted⟩ := Json.bind_eq_ok htally
  obtain rfl := allFields_eq_ok hentries
  obtain ⟨⟨byPriority, byCategory⟩, hadd, hmade⟩ := Json.bind_eq_ok hcounted
  obtain ⟨hpriority, hcategory⟩ := soundKeys_addAll
    (fun e he => h _ (List.mem_map_of_mem he)) (by simp [SoundKeys]) (by simp [SoundKeys]) hadd
  rw [← Except.ok.inj hmade]
  refine Json.encodable_record ?_
  simp only [List.forall_mem_cons]
  refine ⟨⟨Text.encodes_of_all rfl, trivial⟩, ⟨Text.encodes_of_all rfl, trivial⟩,
    ⟨Text.encodes_of_all rfl, ?_⟩, ⟨Text.encodes_of_all rfl, encodable_counts hpriority⟩,
    ⟨Text.encodes_of_all rfl, encodable_counts hcategory⟩, by simp⟩
  unfold percentage
  split <;> trivial

end Tally

/-! ## Saving -/

namespace Project

variable {project : Project} {now : Instant} {tally : Tally}

theorem encodable_dataAt (project : Project) (hdata : Encodable (.object project.data))
    (hfeatures : ∀ v ∈ project.features, Encodable v)
    (htally : Tally.ofValues project.features = .ok tally) :
    Encodable (.object (project.dataAt now tally)) := by
  refine Encodable.set ?_ (Text.encodes_of_all rfl) (Tally.encodable_toValue hfeatures htally)
  refine Encodable.set ?_ (Text.encodes_of_all rfl) (Instant.encodes_toText now)
  exact hdata.set (Text.encodes_of_all rfl) (Json.encodable_list.mpr hfeatures)

/-- Saving that fails changes nothing, or a lone surrogate is in the way and the file is empty. -/
theorem save_error (h : (save project).run outside m = (.error fault, m')) :
    m' = m ∨ ∃ now tally p executable, Tally.ofValues project.features = .ok tally ∧
      (Layout.featuresFile.run outside m).1 = .ok p ∧
      ¬ Encodable (.object (project.dataAt now tally)) ∧
      m' = m.withFile (Place.ofPath m.directory p) [] executable := by
  rcases run_save outside m project with ⟨cause, hrun⟩ |
    ⟨now, tally, p, document, executable, -, htally, hpath, hwrite, -,
      ⟨-, hrun⟩ | ⟨hbad, cause, hrun⟩⟩
  · rw [hrun] at h
    exact Or.inl (Prod.mk.inj h).2.symm
  · rw [hrun] at h
    exact absurd (Prod.mk.inj h).1 (by simp)
  · rw [hrun] at h
    refine Or.inr ⟨now, tally, p, executable, htally, hpath, fun hencodable => hbad ?_,
      (Prod.mk.inj h).2.symm⟩
    obtain ⟨rfl, hwritable⟩ := Json.write_eq hwrite
    exact (Json.encodes_layout _ hwritable 0 _).mpr
      ⟨Json.encodable_ordered _ hencodable, Text.encodes_of_all rfl⟩

theorem areNamed_dataAt (h : Json.AreNamed project.data) (now : Instant) (tally : Tally) :
    Json.AreNamed (project.dataAt now tally) := ((h.set _ _).set _ _).set _ _

/-- What was saved can be printed. -/
theorem printable_saved (project : Project) (hdata : Json.AreNamed project.data)
    (h : (save project).run outside m = (.ok tally, m')) :
    (∀ v ∈ project.features, Printable v) ∧ Printable tally.toValue := by
  obtain ⟨now, p, document, executable, -, -, -, hwrite, -, hencodes, -⟩ := save_eq_ok h
  have hprintable : Printable (.object (project.dataAt now tally)) :=
    Json.printable_iff.mpr ⟨document, hwrite, hencodes⟩
  have htexts := (areNamed_dataAt hdata now tally).texts
  obtain ⟨hlist, hmetadata⟩ := get?_dataAt project now tally
  exact ⟨Json.printable_list.mp (hprintable.get? htexts hlist), hprintable.get? htexts hmetadata⟩

theorem locate_eq_ok {values : List Value} {wanted : Value} {k : Nat} {e : Entries}
    (h : locate wanted values = .ok (k, e)) : values[k]? = some (.object e) := by
  induction values generalizing k with
  | nil => exact absurd h (by simp [locate])
  | cons v rest ih =>
    rw [locate] at h
    obtain ⟨f, hf, h⟩ := Json.bind_eq_ok h
    split at h
    next =>
      obtain ⟨rfl, rfl⟩ := Prod.mk.inj (Except.ok.inj h)
      cases v <;> simp only [Entry.fields, Except.ok.injEq, reduceCtorEq] at hf
      rw [hf]
      rfl
    next =>
      obtain ⟨found, hfound, h⟩ := Json.bind_eq_ok h
      obtain ⟨rfl, rfl⟩ := Prod.mk.inj (Except.ok.inj h)
      exact ih hfound

end Project

/-! ## Changes -/

/-- A change of the project file. -/
inductive Change where
  | add (description category priority steps : Value)
  | accept (id notes : Value)

namespace Change

/-- The values given with the change that go into the file. -/
def given : Change → List Value
  | .add description category priority steps => [description, category, priority, steps]
  | .accept _ notes => [notes]

/-- Makes the change. -/
def task : Change → Task Unit
  | .add description category priority steps => do
    let _ ← Project.addFeature description category priority steps
    pure ()
  | .accept id notes => do
    let _ ← Project.markDone id notes
    pure ()

/-- The change that a command makes. -/
def ofCommand? : Command → Option Change
  | .add description priority category steps =>
    some (.add (.text description) (.text category) (.text priority) (Value.texts steps))
  | .done id notes => some (.accept (.text id) (Value.ofText? notes))
  | _ => none

/-- The project file is empty now, and a lone surrogate was given or stood in it. -/
def Empties (outside : Outside) (change : Change) (m m' : Machine) : Prop :=
  ∃ p content executable executable', m.HasProject outside p content executable ∧
    m'.files = m.files.put (Place.ofPath m.directory p) (.file [] executable') ∧
    ((∃ v ∈ change.given, ¬ Encodable v) ∨ ∃ v, Means content v ∧ ¬ Encodable v)

variable {change : Change} {project : Project}

theorem failed_save (hload : Project.load.run outside m = (.ok project, m)) {features : List Value}
    (hfeatures : (∀ v ∈ change.given, Encodable v) → (∀ v ∈ project.features, Encodable v) →
      ∀ v ∈ features, Encodable v)
    (h : (Project.save { project with features }).run outside m = (.error fault, m')) :
    m' = m ∨ change.Empties outside m m' := by
  obtain ⟨-, p, content, executable, hproject, hcontent⟩ := Project.load_eq_ok hload
  obtain ⟨hmeans, hlist⟩ := Project.ofContent_eq_ok.mp hcontent
  rcases Project.save_error h with hsame | ⟨now, tally, q, executable', htally, hq, hbad, rfl⟩
  · exact Or.inl hsame
  obtain rfl : p = q := Except.ok.inj (hproject.path.symm.trans hq)
  refine Or.inr ⟨p, content, executable, executable', hproject, rfl, ?_⟩
  -- Were all texts sound, the data could be encoded.
  by_contra hsound
  rw [not_or] at hsound
  have hgiven : ∀ v ∈ change.given, Encodable v := by
    intro v hv
    by_contra hv'
    exact hsound.1 ⟨v, hv, hv'⟩
  have hdata : Encodable (.object project.data) := by
    by_contra hdata
    exact hsound.2 ⟨_, hmeans, hdata⟩
  have hold : ∀ v ∈ project.features, Encodable v := Json.encodable_list.mp (hdata.get? hlist)
  exact hbad (Project.encodable_dataAt { project with features } hdata
    (hfeatures hgiven hold) htally)

/-- Saving that fails after loading, and whatever is answered if it does not fail. -/
theorem failed_bind_save {α : Type} (hload : Project.load.run outside m = (.ok project, m))
    {features : List Value} {f : Tally → α}
    (hfeatures : (∀ v ∈ change.given, Encodable v) → (∀ v ∈ project.features, Encodable v) →
      ∀ v ∈ features, Encodable v)
    (h : (Project.save { project with features } >>= fun tally => pure (f tally)).run outside m =
      (.error fault, m')) :
    m' = m ∨ change.Empties outside m m' := by
  rcases hsave : (Project.save { project with features }).run outside m with ⟨cause | tally, m₁⟩
  · rw [Task.run_bind_error hsave] at h
    rw [← (Prod.mk.inj h).2]
    exact failed_save hload hfeatures hsave
  · rw [Task.run_bind_ok hsave] at h
    exact absurd (Prod.mk.inj h).1 (by simp)

theorem failed_load {α : Type} {f : Project → Task α}
    (h : (Project.load >>= f).run outside m = (.error fault, m')) :
    m' = m ∨ ∃ project, Project.load.run outside m = (.ok project, m) ∧
      (f project).run outside m = (.error fault, m') := by
  rcases hload : Project.load.run outside m with ⟨cause | project, m₁⟩
  · rw [Task.run_bind_error hload] at h
    obtain rfl : m = m₁ := Task.Leaves.of_run (R := Eq) Project.leaves_load hload
    exact Or.inl (Prod.mk.inj h).2.symm
  · obtain ⟨rfl, -⟩ := Project.load_eq_ok hload
    rw [Task.run_bind_ok hload] at h
    exact Or.inr ⟨project, rfl, h⟩

theorem failed_add {description category priority steps : Value}
    (h : (Project.addFeature description category priority steps).run outside m =
      (.error fault, m')) :
    m' = m ∨ (add description category priority steps).Empties outside m m' := by
  rcases failed_load h with hsame | ⟨project, hload, h⟩
  · exact Or.inl hsame
  dsimp only at h
  rcases hcreate : Entry.create (.text (Entry.idOf (project.features.length + 1))) description
    category priority steps with cause | feature
  · rw [hcreate] at h
    exact Or.inl (Prod.mk.inj h).2.symm
  rw [hcreate, Task.run_ofExcept_ok_bind] at h
  refine failed_bind_save hload ?_ h
  intro hgiven hold
  simp only [given, List.forall_mem_cons] at hgiven
  obtain ⟨hdescription, hcategory, hpriority, hsteps, -⟩ := hgiven
  have hnew := Entry.encodable_create hcreate (Entry.encodes_idOf _) hdescription hcategory
    hpriority hsteps
  exact List.forall_mem_append.mpr ⟨hold, by simpa using hnew⟩

theorem failed_accept {id notes : Value}
    (h : (Project.markDone id notes).run outside m = (.error fault, m')) :
    m' = m ∨ (accept id notes).Empties outside m m' := by
  rcases failed_load h with hsame | ⟨project, hload, h⟩
  · exact Or.inl hsame
  rcases hlocate : Project.locate id project.features with cause | ⟨k, e⟩
  · rw [hlocate] at h
    exact Or.inl (Prod.mk.inj h).2.symm
  rw [hlocate, Task.run_ofExcept_ok_bind, Task.run_bind, Layout.asks_now.run_self] at h
  rcases hnow : (Layout.now.run outside m).1 with cause | now
  · rw [hnow] at h
    exact Or.inl (Prod.mk.inj h).2.symm
  rw [hnow] at h
  dsimp only at h
  rcases hcomplete : Entry.complete e notes now with cause | updated
  · rw [hcomplete] at h
    exact Or.inl (Prod.mk.inj h).2.symm
  rw [hcomplete, Task.run_ofExcept_ok_bind] at h
  refine failed_bind_save hload ?_ h
  intro hgiven hold v hv
  have he := hold _ (List.mem_of_getElem? (Project.locate_eq_ok hlocate))
  rcases List.mem_or_eq_of_mem_set hv with hv | rfl
  · exact hold v hv
  · exact Entry.encodable_complete hcomplete he (hgiven notes List.mem_cons_self)

theorem failed_task (h : change.task.run outside m = (.error fault, m')) :
    m' = m ∨ change.Empties outside m m' := by
  have hbind : ∀ {α : Type} {t : Task α},
      (t >>= fun _ => pure ()).run outside m = (.error fault, m') →
      t.run outside m = (.error fault, m') := by
    intro α t ht
    rcases hrun : t.run outside m with ⟨cause | a, m₁⟩
    · rw [Task.run_bind_error hrun] at ht
      obtain ⟨hcause, hmachine⟩ := Prod.mk.inj ht
      rw [Except.error.inj hcause, hmachine]
    · rw [Task.run_bind_ok hrun] at ht
      exact absurd (Prod.mk.inj ht).1 (by simp)
  cases change with
  | add description category priority steps => exact failed_add (hbind h)
  | accept id notes => exact failed_accept (hbind h)

/-! ## Changes that succeed -/

theorem added {description category priority steps v : Value}
    (h : (Project.addFeature description category priority steps).run outside m = (.ok v, m')) :
    Printable v := by
  obtain ⟨project, m₁, hload, hadd⟩ := Task.run_bind_eq_ok h
  obtain ⟨-, p, content, executable, -, hcontent⟩ := Project.load_eq_ok hload
  have hdata := (Json.asRead_object.mp (Project.ofContent_eq_ok.mp hcontent).1.asRead).1
  obtain ⟨feature, m₂, -, hwritten⟩ := Task.run_bind_eq_ok hadd
  obtain ⟨tally, m₃, hsave, hanswer⟩ := Task.run_bind_eq_ok hwritten
  obtain ⟨hfeatures, -⟩ := Project.printable_saved
    { project with features := project.features ++ [feature] } hdata hsave
  rw [← Except.ok.inj (Prod.mk.inj hanswer).1]
  exact hfeatures feature (by simp)

theorem accepted {id notes v : Value} {tally : Tally}
    (h : (Project.markDone id notes).run outside m = (.ok (v, tally), m')) :
    Printable v ∧ Printable tally.toValue := by
  obtain ⟨project, m₁, hload, hmark⟩ := Task.run_bind_eq_ok h
  obtain ⟨-, p, content, executable, -, hcontent⟩ := Project.load_eq_ok hload
  have hdata := (Json.asRead_object.mp (Project.ofContent_eq_ok.mp hcontent).1.asRead).1
  obtain ⟨⟨k, e⟩, m₂, hlocate, hfound⟩ := Task.run_bind_eq_ok hmark
  rw [Task.run_ofExcept] at hlocate
  have hk := Project.locate_eq_ok (Prod.mk.inj hlocate).1
  obtain ⟨now, m₃, -, hcompleted⟩ := Task.run_bind_eq_ok hfound
  obtain ⟨updated, m₄, -, hwritten⟩ := Task.run_bind_eq_ok hcompleted
  obtain ⟨tally', m₅, hsave, hanswer⟩ := Task.run_bind_eq_ok hwritten
  obtain ⟨rfl, rfl⟩ := Prod.mk.inj (Except.ok.inj (Prod.mk.inj hanswer).1)
  obtain ⟨hfeatures, htally⟩ := Project.printable_saved
    { project with features := project.features.set k (.object updated) } hdata hsave
  have hlength := (List.getElem?_eq_some_iff.mp hk).1
  exact ⟨hfeatures _ (List.mem_set hlength _), htally⟩

end Change

namespace CommandLine

open Change (Empties)

/-- Answering to a change: it succeeds, or the files are as the change left them. -/
theorem answered {α : Type} {task : Task α} {onResult : α → Task Envelope}
    {onFault : Fault → Option Envelope} {change : Change} {result : Except Fault Nat}
    (herror : ∀ {fault m'}, task.run outside m = (.error fault, m') →
      m' = m ∨ change.Empties outside m m')
    (hok : ∀ {a m'}, task.run outside m = (.ok a, m') →
      ∃ e, onResult a = pure e ∧ e.isOk = true ∧ Printable e.toValue)
    (hrun : (answer task onResult onFault).run outside m = (result, m')) :
    result = .ok 0 ∨ m'.files = m.files ∨ change.Empties outside m m' := by
  rcases htask : task.run outside m with ⟨fault | a, m₁⟩
  · rw [run_answer_error onResult htask] at hrun
    have hfiles : m'.files = m₁.files :=
      (leaves_refuse (R := fun m m' => m'.files = m.files) (fun _ _ => rfl) onFault fault).of_run hrun
    right
    rcases herror htask with rfl | ⟨p, content, executable, executable', hproject, hempty, hbad⟩
    · exact Or.inl hfiles
    · exact Or.inr ⟨p, content, executable, executable', hproject, hfiles.trans hempty, hbad⟩
  · obtain ⟨e, he, hisOk, hprintable⟩ := hok htask
    obtain ⟨document, -, hemit⟩ := run_emit_of_printable outside m₁ hprintable
    rw [run_answer_ok onResult onFault htask, he, Task.run_pure_bind, hemit, hisOk] at hrun
    exact Or.inl (Prod.mk.inj hrun).1.symm

theorem answered_change {c : Command} {change : Change} {result : Except Fault Nat}
    (hchange : Change.ofCommand? c = some change)
    (hrun : (runCommand c).run outside m = (result, m')) :
    result = .ok 0 ∨ m'.files = m.files ∨ change.Empties outside m m' := by
  cases c <;> simp only [Change.ofCommand?, Option.some.injEq, reduceCtorEq] at hchange <;>
    subst hchange
  case add description priority category steps =>
    refine answered Change.failed_add (fun htask => ?_) hrun
    exact ⟨_, rfl, rfl, printable_added (Change.added htask)⟩
  case done id notes =>
    refine answered Change.failed_accept (fun {answer m'} htask => ?_) hrun
    obtain ⟨v, tally⟩ := answer
    obtain ⟨hv, htally⟩ := Change.accepted htask
    exact ⟨_, rfl, rfl, printable_accepted hv htally⟩

end CommandLine

theorem Machine.HasProject.of_learns {p : Path} {content : List UInt8} {executable : Bool}
    (hlearns : m.Learns m') (h : m'.HasProject outside p content executable) :
    m.HasProject outside p content executable := by
  obtain ⟨settings, rfl⟩ := hlearns
  have hsetting : ({ m with settings } : Machine).setting = m.setting := rfl
  exact ⟨(Layout.asks_featuresFile.answer_eq hsetting).symm.trans h.path, h.fit, h.located, h.file⟩

/-- A change that fails leaves the project file as it was, whether a task stops or a command line
does not succeed. Else a lone surrogate was given or stood in the file, and the file is empty. -/
theorem Change.file_of_failure (outside : Outside) (m : Machine) (change : Change) :
    (∀ fault m', change.task.run outside m = (.error fault, m') →
      m' = m ∨ change.Empties outside m m') ∧
    ∀ args c result m', CommandLine.command? args = some c → Change.ofCommand? c = some change →
      (CommandLine.run args).run outside m = (result, m') → result ≠ .ok 0 →
        m'.files = m.files ∨ change.Empties outside m m' := by
  refine ⟨fun fault m' h => failed_task h, ?_⟩
  intro args c result m' hc hchange hrun hresult
  obtain ⟨m₁, hlearns, ⟨name, level, cause, hrefused⟩ | hcommand⟩ :=
    CommandLine.run_of_command outside m hc
  · have hfiles : m'.files = m₁.files := (CommandLine.leaves_refuse
      (R := fun m m' => m'.files = m.files) (fun _ _ => rfl) _ cause).of_run (hrefused.symm.trans hrun)
    obtain ⟨settings, rfl⟩ := hlearns
    exact Or.inl hfiles
  · have hfiles : m₁.files = m.files ∧ m₁.directory = m.directory := by
      obtain ⟨settings, rfl⟩ := hlearns
      exact ⟨rfl, rfl⟩
    rcases CommandLine.answered_change hchange (hcommand.symm.trans hrun) with
      hsuccess | hsame | ⟨p, content, executable, executable', hproject, hempty, hbad⟩
    · exact absurd hsuccess hresult
    · exact Or.inl (hsame.trans hfiles.1)
    · rw [hfiles.1, hfiles.2] at hempty
      exact Or.inr ⟨p, content, executable, executable', hproject.of_learns hlearns, hempty, hbad⟩

/-! ## A shop with other files -/

namespace Shop

/-- The shop with a project file that holds a text. -/
def withFile (t : Text) : Machine :=
  machine [(["shop"], .directory), (["shop", ".agent"], .directory),
    (projectFile, .file (t.flatMap Utf8.bytesOf) false)]

/-- A feature is accepted by its id, `a`. -/
def acceptance : Change := .accept (.text "a") .null

/-- The number of attempts of the feature is no number. -/
def stuckText : Text := "\x7b\"features\": [\x7b\"id\": \"a\", \"attempts\": \"x\"\x7d]\x7d"

/-- The notes of the feature are half a character. -/
def damagedText : Text :=
  "\x7b\"features\": [\x7b\"id\": \"a\", \"notes\": \"\\ud800\"\x7d]\x7d"

theorem command_done : CommandLine.command? ["done", "a"] = some (.done "a" none) := by
  decide +kernel

theorem means_stuck : Means (stuckText.flatMap Utf8.bytesOf) (Value.record
    [("features", .list [Value.record [("id", .text "a"), ("attempts", .text "x")]])]) :=
  ⟨stuckText, rfl, by cbv⟩

theorem not_empties_stuck (m' : Machine) : ¬ acceptance.Empties idle (withFile stuckText) m' := by
  rintro ⟨p, content, executable, executable', hproject, -, hbad⟩
  obtain rfl : projectPath = p := Except.ok.inj
    ((featuresFile_machine _ idle).symm.trans hproject.path)
  obtain ⟨rfl, -⟩ := Node.file.inj (Option.some.inj hproject.file)
  rcases hbad with ⟨v, hv, hbad⟩ | ⟨v, hmeans, hbad⟩
  · rw [List.mem_singleton.mp hv] at hbad
    exact hbad trivial
  · rw [hmeans.inj means_stuck] at hbad
    have hid : Text.Encodes "id" ∧ Text.Encodes "a" :=
      ⟨Text.encodes_of_all rfl, Text.encodes_of_all rfl⟩
    have hattempts : Text.Encodes "attempts" ∧ Text.Encodes "x" :=
      ⟨Text.encodes_of_all rfl, Text.encodes_of_all rfl⟩
    exact hbad ⟨⟨Text.encodes_of_all rfl, ⟨hid, hattempts, trivial⟩, trivial⟩, trivial⟩

theorem file_of_failure_stuck : ∃ fault m₁ m₂,
    acceptance.task.run idle (withFile stuckText) = (.error fault, m₁) ∧
    m₁ = withFile stuckText ∧
    (CommandLine.run ["done", "a"]).run idle (withFile stuckText) = (.ok 1, m₂) ∧
    m₂.files = (withFile stuckText).files := by
  have houtcomes : (acceptance.task.run idle (withFile stuckText)).1.toOption = none ∧
      ((CommandLine.run ["done", "a"]).run idle (withFile stuckText)).1.toOption = some 1 := by
    decide +kernel
  obtain ⟨htask, hline⟩ := Change.file_of_failure idle (withFile stuckText) acceptance
  rcases hfault : acceptance.task.run idle (withFile stuckText) with ⟨fault | u, m₁⟩
  · rcases hcode : (CommandLine.run ["done", "a"]).run idle (withFile stuckText) with
      ⟨fault' | code, m₂⟩
    · rw [hcode] at houtcomes
      exact absurd houtcomes.2 (by simp [Except.toOption])
    · rw [hcode] at houtcomes
      obtain rfl : code = 1 := Option.some.inj houtcomes.2
      refine ⟨fault, m₁, m₂, rfl, ?_, rfl, ?_⟩
      · exact (htask fault m₁ hfault).resolve_right (not_empties_stuck m₁)
      · exact (hline _ _ _ m₂ command_done rfl hcode (by simp)).resolve_right
          (not_empties_stuck m₂)
  · rw [hfault] at houtcomes
    exact absurd houtcomes.1 (by simp [Except.toOption])

/-- Half a character in the file, and a change that is refused loses all that was in it. -/
theorem file_lost_damaged :
    ((acceptance.task.run idle (withFile damagedText)).1.toOption = none ∧
      (acceptance.task.run idle (withFile damagedText)).2.files.get? projectFile =
        some (.file [] false)) ∧
    (((CommandLine.run ["done", "a"]).run idle (withFile damagedText)).1.toOption = some 1 ∧
      ((CommandLine.run ["done", "a"]).run idle (withFile damagedText)).2.files.get? projectFile =
        some (.file [] false)) ∧
    (withFile damagedText).files.get? projectFile ≠ some (.file [] false) := by
  decide +kernel

end Shop

end Acceptance
