import Acceptance.Proofs.Making
import Acceptance.Proofs.TallyKeys

/-! # The project file as it was written

A new project, a feature that is added and one that is accepted have one thing in common: what they
write is the document of some data, of which the file keeps everything but the keys of the tally.
So what is loaded afterwards is laid out as the file is, and written again it is the same file
exactly if the names of these keys are in order. -/

namespace Acceptance

open Json (AsRead HasFinite Kept Legible Means Printable KeepsLayout KeepsOrder inOrder ordered)

variable {outside : Outside} {m m' : Machine} {p : Path} {content : List UInt8} {executable : Bool}
  {entries : List Entries} {data loaded : Entries} {tally : Tally}

/-! ## Entries in order -/

/-- What counts for a value that can be a key does not depend on the order in it. -/
theorem Value.orElse_eq_of_ordered_eq {depth : Nat} {v w other : Value} (hv : Kept (depth + 1) v)
    (hw : Kept (depth + 1) w) (h : ordered v = ordered w)
    (hkey : (v.orElse other).key?.isSome = true) : w.orElse other = v.orElse other := by
  have htruthy := Json.isTruthy_of_ordered_eq hv hw h
  unfold orElse at hkey ⊢
  rw [← htruthy]
  split at hkey
  next htrue =>
    rw [if_pos htrue, if_pos htrue]
    rcases Json.eq_of_ordered_eq h with rfl | ⟨items, items', rfl, -, -⟩ | ⟨e, f, rfl, -, -⟩
    · rfl
    · exact absurd hkey (by simp [key?])
    · exact absurd hkey (by simp [key?])
  next hfalse => rw [if_neg hfalse, if_neg hfalse]

/-- An entry is counted as before once it is in order. -/
theorem Entry.alike_inOrder {depth : Nat} {e : Entries} (he : Kept (depth + 2) (.object e))
    (hkeyed : Keyed e) : Alike (inOrder e) e := by
  have hin : Kept (depth + 2) (.object (inOrder e)) := Json.kept_ordered _ he
  have hsame := (Json.sameFields_inOrder he).symm
  exact ⟨Value.orElse_eq_of_ordered_eq (he.getD _) (hin.getD _) (hsame.getD _) hkeyed.priority,
    Value.orElse_eq_of_ordered_eq (he.getD _) (hin.getD _) (hsame.getD _) hkeyed.category,
    (Entry.passes_of_sameFields he hin hsame).symm⟩

theorem Tally.ofEntries_inOrder {depth : Nat} (h : ofEntries entries = .ok tally)
    (hkept : ∀ e ∈ entries, Kept (depth + 2) (.object e)) :
    ofEntries (entries.map inOrder) = .ok tally := by
  rw [← ofValues_objects] at h
  obtain ⟨hkeyed, -⟩ := ofValues_eq_ok.mp h
  rw [ofEntries_map fun e he => Entry.alike_inOrder (hkept e he) (hkeyed e he),
    ← ofValues_objects, h]

/-! ## Documents of projects -/

namespace Project

namespace Written

theorem counted_loaded (h : Written content data entries tally) :
    Tally.ofEntries (entries.map inOrder) = .ok tally :=
  Tally.ofEntries_inOrder h.counted h.kept_entries

/-- The keys of the tally can be told apart by their names if what is loaded is finite. -/
theorem areTold (h : Written content data entries tally) (hmeans : Means content (.object loaded))
    (hfinite : HasFinite (.object loaded)) : tally.AreTold := by
  have hfeatures := h.loaded_features hmeans
  have hread : AsRead 984 (.list ((entries.map inOrder).map .object)) :=
    AsRead.get? hmeans.asRead hfeatures
  have htally := h.counted_loaded
  rw [← Tally.ofValues_objects] at htally
  obtain ⟨-, hcounted⟩ := Tally.ofValues_eq_ok.mp htally
  obtain ⟨w, hw, -, hsame⟩ := h.metadata
  obtain ⟨document, hwrite, -, -⟩ := h.document
  have hwritable : Json.Writable w := Json.writable_get? h.keys (Json.write_eq hwrite).2 hw
  rw [Json.Writable, hsame, hcounted] at hwritable
  rw [hcounted]
  have hreadEach : ∀ e ∈ entries.map inOrder, AsRead 983 (.object e) := fun e he =>
    Json.asRead_list.mp hread _ (List.mem_map_of_mem he)
  exact Tally.areTold_counted hreadEach (fun e he => Json.hasFinite_list.mp
    (hfinite.get? hfeatures) _ (List.mem_map_of_mem he)) hwritable

theorem keepsLayout (h : Written content data entries tally) (htold : tally.AreTold) :
    KeepsLayout (.object data) := by
  refine Json.keepsLayout_object h.keys (h.forall_value (fun w _ hw => ?_) fun v hv =>
    Json.keepsLayout_of_kept hv)
  have htally := Tally.keepsLayout_toValue htold
  unfold KeepsLayout at htally ⊢
  rwa [hw]

theorem keepsOrder (h : Written content data entries tally) (htold : tally.AreTold) :
    KeepsOrder (.object data) ↔ tally.IsInNameOrder := by
  rw [Json.keepsOrder_object h.keys, ← Tally.keepsOrder_toValue htold]
  constructor
  · intro hall
    obtain ⟨w, hw, -, hsame⟩ := h.metadata
    have horder := hall _ ((Json.get?_eq_some_iff h.keys.distinct).mp hw)
    unfold KeepsOrder at horder ⊢
    rwa [← hsame]
  · intro htally
    refine h.forall_value (fun w _ hw => ?_) fun v hv => Json.keepsOrder_of_kept hv
    unfold KeepsOrder at htally ⊢
    rwa [hw]

/-- What was loaded is written as the file that it was loaded from exactly if the names of the keys
of the tally are in order. -/
theorem rewrite_eq_iff (h : Written content data entries tally)
    (hmeans : Means content (.object loaded)) (hfinite : HasFinite (.object loaded))
    (hkept : Kept Json.mostNested (.object loaded)) {copy : Text}
    (hcopy : Json.write (.object loaded) = .ok copy) :
    copy.flatMap Utf8.bytesOf = content ↔ tally.IsInNameOrder := by
  have htold := h.areTold hmeans hfinite
  have hreread : Json.reread (ordered (.object data)) = .object loaded := h.means.inj hmeans
  have hread := hmeans
  obtain ⟨document, hwrite, hencodes, rfl⟩ := h.document
  obtain ⟨hlayout, hwritable⟩ := Json.write_eq hwrite
  obtain ⟨hcopied, hwritable'⟩ := Json.write_eq hcopy
  have hlaidOut : document = Json.layout 0 (.object loaded) "\n" := by
    rw [hlayout, ← h.keepsLayout htold, hreread]
  have hread : Json.read document = .ok (.object loaded) := by
    rw [hlayout, Json.read_legible (Json.legible_ordered _ h.legible) hwritable, hreread]
  have horder : KeepsOrder (.object data) ↔ ordered (.object loaded) = .object loaded := by
    rw [KeepsOrder, hreread]
  calc copy.flatMap Utf8.bytesOf = document.flatMap Utf8.bytesOf
    ↔ copy = document := Utf8.flatMap_bytesOf_inj (Json.plain_document hkept hcopy).encodes hencodes
    _ ↔ ordered (.object loaded) = .object loaded := by
      rw [hcopied]
      exact Json.layout_ordered_eq_iff hkept hwritable' hread hlaidOut
    _ ↔ tally.IsInNameOrder := horder.symm.trans (h.keepsOrder htold)

end Written

/-! ## Who writes the project file -/

theorem written_of_records {place : Place} {register : List Item} (h : m.Records place register)
    (hfile : m.files.get? place = some (.file content executable)) :
    ∃ data entries tally, Written content data entries tally := by
  obtain ⟨entries, data, document, executable', hstored, hwrite, hfile'⟩ := h
  obtain ⟨rfl, -⟩ := Node.file.inj (Option.some.inj (hfile.symm.trans hfile'))
  obtain ⟨tally, w, htally, hw, hsame⟩ := hstored.metadata
  have hkept : ∀ (key : Text) v, data.get? key = some v → Kept 984 v := fun key v hget =>
    Json.kept_mono v (by decide) (Json.kept_get? hstored.kept hget)
  exact ⟨data, entries, tally,
    { keys := hstored.keys
      features := hstored.features
      counted := htally
      metadata := ⟨w, hw, Json.legible_of_kept w (hkept _ w hw), hsame⟩
      kept := fun key v _ hget => hkept key v hget
      document := ⟨document, hwrite, (Json.plain_document hstored.kept hwrite).encodes, rfl⟩ }⟩

/-- A project whose features are as if they had been read is written when it is saved. -/
theorem written_of_save {project : Project}
    (hrun : (save project).run outside m = (.ok tally, m'))
    (hfile : m'.HasProject outside p content executable)
    (hdata : AsRead Json.mostNested (.object project.data))
    (hread : ∀ v ∈ project.features, Printable v → AsRead 983 v) :
    ∃ data entries, Written content data entries tally := by
  obtain ⟨data, features⟩ := project
  obtain ⟨now, q, document, executable', -, htally, hpath, hwrite, hnode, hencodes, rfl⟩ :=
    save_eq_ok hrun
  obtain ⟨entries, hentries, hcounted⟩ := Json.bind_eq_ok htally
  obtain rfl := Tally.allFields_eq_ok hentries
  -- The file is where it was written.
  have hpath' := hfile.path
  rw [Layout.asks_featuresFile.answer_eq (m.withFile_setting _ _ _), hpath] at hpath'
  obtain rfl := Except.ok.inj hpath'
  have hsame := (Machine.get?_withFile hnode _ _).symm.trans hfile.file
  obtain ⟨rfl, -⟩ := Node.file.inj (Option.some.inj hsame)
  exact ⟨_, entries, written_dataAt hdata (fun e he => hread _ (List.mem_map_of_mem he)) hcounted
    hwrite hencodes⟩

/-- What is in the project file was written when a project was made, or when a feature was added or
accepted, and nothing else has been written there since. -/
inductive WrittenLast (content : List UInt8) : Prop where
  /-- There was no project file before, and other programs leave it alone. -/
  | init {outside : Outside} {m m' : Machine} {given : Option Path} {name : Option Text}
      {type : Text} {root : Path} {result : Except Fault Init.Result} {executable : Bool}
      (hroot : ((Init.rootOr given >>= Task.resolvePath).run outside m).1 = .ok root)
      (hnew : m.files.get? (Place.ofPath m.directory root ++ Init.projectFile) = none)
      (hspares : outside.Spares (Place.ofPath m.directory root ++ Init.projectFile))
      (hrun : (Init.run name type given).run outside m = (result, m'))
      (hfile : m'.files.get? (Place.ofPath m.directory root ++ Init.projectFile) =
        some (.file content executable))
  | add {outside : Outside} {m m' : Machine} {g : Entry.Given} {v : Value} {p : Path}
      {executable : Bool}
      (hrun : (addFeature (.text g.description) (.text g.category) (.text g.priority)
        (Value.texts g.steps)).run outside m = (.ok v, m'))
      (hfile : m'.HasProject outside p content executable)
  /-- A feature was accepted, by hand or because its tests have passed. -/
  | accept {outside : Outside} {m m' : Machine} {id : Text} {notes : Option Text}
      {answer : Value × Tally} {p : Path} {executable : Bool}
      (hrun : (markDone (.text id) (Value.ofText? notes)).run outside m = (.ok answer, m'))
      (hfile : m'.HasProject outside p content executable)

theorem written_of_init {given : Option Path} {name : Option Text} {type : Text} {root : Path}
    {result : Except Fault Init.Result}
    (hroot : ((Init.rootOr given >>= Task.resolvePath).run outside m).1 = .ok root)
    (hnew : m.files.get? (Place.ofPath m.directory root ++ Init.projectFile) = none)
    (hspares : outside.Spares (Place.ofPath m.directory root ++ Init.projectFile))
    (hrun : (Init.run name type given).run outside m = (result, m'))
    (hfile : m'.files.get? (Place.ofPath m.directory root ++ Init.projectFile) =
      some (.file content executable)) :
    content = [] ∨ ∃ data entries tally, Written content data entries tally := by
  have hchanged : m'.files.get? (Place.ofPath m.directory root ++ Init.projectFile) ≠
      m.files.get? (Place.ofPath m.directory root ++ Init.projectFile) := by
    rw [hfile, hnew]
    simp
  rcases Init.run_cases outside m name type given with
    ⟨fault, hrefused⟩ | ⟨p, hp, hsettled, htype, hmake⟩
  · rw [hrefused] at hrun
    obtain ⟨-, rfl⟩ := Prod.mk.inj hrun
    exact absurd rfl hchanged
  obtain rfl : root = p := Except.ok.inj (hroot.symm.trans hp)
  rw [hmake] at hrun
  have hmakes : Init.Makes m (Place.ofPath m.directory root) (Init.nameOf name root) _ _ :=
    Init.makes_makeFiles outside m hsettled (hsettled.ofPath _) htype
  unfold Init.makeAt at hrun
  rcases hfiles : (Init.makeFiles root (Init.nameOf name root) type).run outside m with ⟨made, m₁⟩
  rw [hfiles] at hmakes
  cases hmakes with
  | cleared h =>
    rw [Task.run_bind_error hfiles] at hrun
    obtain ⟨-, rfl⟩ := Prod.mk.inj hrun
    exact absurd (h.same _ List.mem_cons_self) hchanged
  | emptied hname h =>
    rw [Task.run_bind_error hfiles] at hrun
    obtain ⟨-, rfl⟩ := Prod.mk.inj hrun
    obtain ⟨executable', hempty⟩ := h
    exact .inl (Node.file.inj (Option.some.inj (hfile.symm.trans hempty))).1
  | obstructed h hrecords =>
    rw [Task.run_bind_error hfiles] at hrun
    obtain ⟨-, rfl⟩ := Prod.mk.inj hrun
    exact .inr (written_of_records hrecords hfile)
  | made hrecords h =>
    rw [Task.run_bind_ok hfiles] at hrun
    have hrest := Task.leaves_bind (Init.spares_startVersionControl hspares root) fun started =>
      Task.leaves_pure (Init.Result.mk root.toText (Project.idOf (Init.nameOf name root))
        (Init.nameOf name root) type Init.files started)
    exact .inr (written_of_records (hrecords.of_spares (hrest.of_run hrun)) hfile)

theorem written_of_addFeature {g : Entry.Given} {v : Value}
    (hrun : (addFeature (.text g.description) (.text g.category) (.text g.priority)
      (Value.texts g.steps)).run outside m = (.ok v, m'))
    (hfile : m'.HasProject outside p content executable) :
    ∃ data entries tally, Written content data entries tally := by
  unfold addFeature at hrun
  obtain ⟨project, m₁, hload, hrun⟩ := Task.run_bind_eq_ok hrun
  obtain ⟨feature, m₂, hcreate, hrun⟩ := Task.run_bind_eq_ok hrun
  obtain ⟨tally, m₃, hsave, hanswer⟩ := Task.run_bind_eq_ok hrun
  obtain ⟨-, rfl⟩ := Prod.mk.inj hanswer
  obtain ⟨hdata, hread⟩ := asRead_of_load hload
  have hfeature : AsRead 983 feature := by
    rw [Entry.create_of_steps (show Entry.stepsOf (Value.texts g.steps) = _ from rfl)] at hcreate
    split at hcreate
    · rw [← Except.ok.inj (Prod.mk.inj hcreate).1]
      exact Entry.asRead_newEntry _ g
    · exact absurd (Prod.mk.inj hcreate).1 (by simp)
  obtain ⟨data, entries, hwritten⟩ := written_of_save hsave hfile hdata fun w hw _ => by
    rcases List.mem_append.mp hw with hold | hnew
    · exact hread w hold
    · rwa [List.mem_singleton.mp hnew]
  exact ⟨data, entries, tally, hwritten⟩

theorem written_of_markDone {id : Text} {notes : Option Text} {answer : Value × Tally}
    (hrun : (markDone (.text id) (Value.ofText? notes)).run outside m = (.ok answer, m'))
    (hfile : m'.HasProject outside p content executable) :
    ∃ data entries tally, Written content data entries tally := by
  unfold markDone at hrun
  obtain ⟨project, m₁, hload, hrun⟩ := Task.run_bind_eq_ok hrun
  obtain ⟨⟨k, e⟩, m₂, hlocate, hrun⟩ := Task.run_bind_eq_ok hrun
  obtain ⟨now, m₃, -, hrun⟩ := Task.run_bind_eq_ok hrun
  obtain ⟨u, m₄, hcomplete, hrun⟩ := Task.run_bind_eq_ok hrun
  obtain ⟨tally, m₅, hsave, hanswer⟩ := Task.run_bind_eq_ok hrun
  obtain ⟨-, rfl⟩ := Prod.mk.inj hanswer
  obtain ⟨hdata, hread⟩ := asRead_of_load hload
  rw [Task.run_ofExcept] at hlocate hcomplete
  have he := hread _ (List.mem_of_getElem? (locate_eq_ok (Prod.mk.inj hlocate).1))
  obtain ⟨data, entries, hwritten⟩ := written_of_save hsave hfile hdata fun w hw hprintable => by
    rcases List.mem_or_eq_of_mem_set hw with hold | rfl
    · exact hread w hold
    · exact Entry.asRead_complete he (Prod.mk.inj hcomplete).1 hprintable
  exact ⟨data, entries, tally, hwritten⟩

/-- Unless nothing is in it, the file is the document of some data. -/
theorem WrittenLast.written (h : WrittenLast content) :
    content = [] ∨ ∃ data entries tally, Written content data entries tally := by
  cases h with
  | init hroot hnew hspares hrun hfile => exact written_of_init hroot hnew hspares hrun hfile
  | add hrun hfile => exact .inr (written_of_addFeature hrun hfile)
  | accept hrun hfile => exact .inr (written_of_markDone hrun hfile)

end Project

end Acceptance
