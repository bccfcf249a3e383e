import Acceptance.Proofs.LastWritten

/-! # Copies of the project file

An export writes a copy of the project file: it means an equal value, and in place of the project
file it is loaded with equal features. The project file is left alone, unless it is what is written.
If it is as a new project or a change left it, the copy has the same bytes, except where the names of
numbers, under which features are counted, are in another order than the numbers. -/

namespace Acceptance

open Json (Agree Encodable HasFinite Kept Means Printable inOrder)

variable {outside : Outside} {m m' : Machine} {p target : Path} {content old : List UInt8}
  {executable : Bool} {project : Project} {output : Option Text}

/-! ## Where an export is written -/

/-- Something can be written where the path leads, once the directory above is there. -/
def Task.CanWrite (outside : Outside) (m : Machine) (p : Path) : Prop :=
  ∃ t m', (do
    ensureDirectory p.parent
    writeText p t : Task Unit).run outside m = (.ok (), m')

/-- What can be printed is written where something can be written, once the directory is there. -/
theorem Project.run_writeDocument_of_canWrite (h : Task.CanWrite outside m p) {v : Value}
    (hv : Printable v) : ∃ m₁ document executable, Json.write v = .ok document ∧
      (Task.ensureDirectory p.parent).run outside m = (.ok (), m₁) ∧
      m₁.files.get? (Place.ofPath m₁.directory p) ≠ some .directory ∧
      (writeDocument p v).run outside m₁ = (.ok (), m₁.withFile (Place.ofPath m₁.directory p)
        (document.flatMap Utf8.bytesOf) executable) := by
  obtain ⟨t, m', hrun⟩ := h
  obtain ⟨u, m₁, hensure, hwritten⟩ := Task.run_bind_eq_ok hrun
  obtain ⟨hfit, hlocate, hnode⟩ := Task.located_of_writeText hwritten
  obtain ⟨document, executable, hwrite, hdocument⟩ :=
    run_writeDocument_of_located outside hfit hlocate hnode hv
  exact ⟨m₁, document, executable, hwrite, hensure, hnode, hdocument⟩

namespace Export

/-- The file that is written. -/
def targetOf (output : Option Text) : Task Path := do
  let target ← match output with
    | none | some [] => standardFile
    | some t => pure (Path.ofText t)
  Layout.fromProject target

theorem asks_targetOf (output : Option Text) : (targetOf output).Asks := by
  have hstandard : standardFile.Asks :=
    Task.asks_bind Layout.asks_stamp fun _ => Task.asks_pure _
  unfold targetOf
  split
  · exact Task.asks_bind hstandard Layout.asks_fromProject
  · exact Task.asks_bind hstandard Layout.asks_fromProject
  · exact Layout.asks_fromProject _

theorem run_eq (output : Option Text) : run output = (do
    let project ← Project.load
    let target ← targetOf output
    Task.ensureDirectory target.parent
    Project.writeDocument target (.object project.data)
    pure target) := by
  rcases output with _ | _ | ⟨c, rest⟩
  · simp only [run, targetOf, Task.bind_assoc]
  · simp only [run, targetOf, Task.bind_assoc]
  · rfl

/-- An export that succeeds writes the data of the project. -/
theorem run_of_canWrite (hload : Project.load.run outside m = (.ok project, m))
    (htarget : ((targetOf output).run outside m).1 = .ok target)
    (hwritable : Task.CanWrite outside m target)
    (hprintable : Printable (.object project.data)) :
    ∃ m₁ document executable, Json.write (.object project.data) = .ok document ∧
      (Task.ensureDirectory target.parent).run outside m = (.ok (), m₁) ∧
      m₁.files.get? (Place.ofPath m.directory target) ≠ some .directory ∧
      (run output).run outside m = (.ok target, m₁.withFile (Place.ofPath m.directory target)
        (document.flatMap Utf8.bytesOf) executable) := by
  obtain ⟨m₁, document, executable, hwrite, hensure, hnode, hwritten⟩ :=
    Project.run_writeDocument_of_canWrite hwritable hprintable
  have hquiet := (Task.quiet_ensureDirectory target.parent).of_run hensure
  have hdirectory : m₁.directory = m.directory := congrArg Setting.directory hquiet.setting
  rw [hdirectory] at hnode hwritten
  refine ⟨m₁, document, executable, hwrite, hensure, hnode, ?_⟩
  rw [run_eq, Task.run_bind_ok hload, Task.run_bind, (asks_targetOf output).run_self, htarget]
  dsimp only
  rw [Task.run_bind_ok hensure, Task.run_bind_ok hwritten]
  rfl

end Export

/-! ## Copies -/

namespace Project

/-- The content means a value that is equal to the data of the project. Wherever it is the content
of the project file, a project with equal features is loaded. -/
structure Copied (project : Project) (content : List UInt8) : Prop where
  means : ∃ v, Means content v ∧ Agree (.object project.data) v
  loads : ∃ copy : Project, Agree (.list project.features) (.list copy.features) ∧
    ∀ (outside : Outside) (m : Machine) (p : Path) (executable : Bool),
      m.HasProject outside p content executable → load.run outside m = (.ok copy, m)

/-- The document of the data of a project is a copy. -/
theorem copied_document {document : Text} (hkept : Kept Json.mostNested (.object project.data))
    (hlist : project.data.get? "features" = some (.list project.features))
    (hwrite : Json.write (.object project.data) = .ok document) :
    Copied project (document.flatMap Utf8.bytesOf) := by
  have hmeans := Json.means_document hkept hwrite
  have hfeatures : Kept 984 (.list project.features) := Json.kept_get? hkept hlist
  refine ⟨⟨_, hmeans, Json.agree_ordered_of_kept _ hkept⟩,
    ⟨inOrder project.data, Json.orderedItems project.features⟩,
    Json.agree_ordered_of_kept (.list project.features) hfeatures, fun outside m p x hproject => ?_⟩
  have hcontent : ofContent p (document.flatMap Utf8.bytesOf) =
      .ok ⟨inOrder project.data, Json.orderedItems project.features⟩ := by
    refine ofContent_eq_ok.mpr ⟨hmeans, ?_⟩
    rw [Json.get?_inOrder (Json.kept_object.mp hkept).1, hlist]
    rfl
  rw [run_load_of_file hproject, hcontent]

/-- The copy of a file that was written last by a change, or with a new project. -/
theorem copy_eq_iff (h : WrittenLast old) (hmeans : Means old (.object project.data))
    (hlist : project.data.get? "features" = some (.list project.features))
    (hfinite : HasFinite (.object project.data))
    (hkept : Kept Json.mostNested (.object project.data)) {document : Text}
    (hwrite : Json.write (.object project.data) = .ok document) :
    ∃ entries tally, project.features = entries.map .object ∧
      Tally.ofEntries entries = .ok tally ∧
      (document.flatMap Utf8.bytesOf = old ↔ tally.IsInNameOrder) := by
  rcases h.written with hnil | ⟨data, entries, tally, hwritten⟩
  · exact absurd hnil hmeans.ne_nil
  have hentries := (hlist.symm.trans (hwritten.loaded_features hmeans))
  exact ⟨_, tally, Value.list.inj (Option.some.inj hentries), hwritten.counted_loaded,
    hwritten.rewrite_eq_iff hmeans hfinite hkept hwrite⟩

end Project

/-- An export to a file that can be written is a copy of the project, and the project file is as it
was unless it is this file. If the project file was written last by a change, or with a new project,
the copy has the same bytes exactly if the names of the keys under which features are counted are in
order, and that is so if these keys are texts. -/
theorem Export.run_copies (hload : Project.load.run outside m = (.ok project, m))
    (hencodable : Encodable (.object project.data)) (hfinite : HasFinite (.object project.data))
    (htarget : ((targetOf output).run outside m).1 = .ok target)
    (hwritable : Task.CanWrite outside m target) :
    ∃ m' content executable, (run output).run outside m = (.ok target, m') ∧
      m'.files.get? (Place.ofPath m.directory target) = some (.file content executable) ∧
      Project.Copied project content ∧
      ∀ p old x, m.HasProject outside p old x →
        (Place.ofPath m.directory p ≠ Place.ofPath m.directory target →
          m'.files.get? (Place.ofPath m.directory p) = some (.file old x)) ∧
        (Project.WrittenLast old → ∃ entries tally, project.features = entries.map .object ∧
          Tally.ofEntries entries = .ok tally ∧ (content = old ↔ tally.IsInNameOrder) ∧
          ((∀ e ∈ entries, Entry.Labelled e) → content = old)) := by
  obtain ⟨-, q, read, x, hproject, hcontent⟩ := Project.load_eq_ok hload
  obtain ⟨hmeans, hlist⟩ := Project.ofContent_eq_ok.mp hcontent
  have hsendable := Json.sendable_of_asRead hmeans.asRead hencodable
  obtain ⟨m₁, document, executable, hwrite, hensure, hnode, hrun⟩ :=
    run_of_canWrite hload htarget hwritable hsendable.printable
  have hquiet := (Task.quiet_ensureDirectory target.parent).of_run hensure
  refine ⟨_, _, executable, hrun, Machine.get?_withFile hnode _ _,
    Project.copied_document hsendable.kept hlist hwrite, fun p old y hp => ⟨fun hne => ?_,
    fun hlast => ?_⟩⟩
  · exact (FileTree.get?_put_of_ne _ _ hne).trans (hquiet.files.get? hp.file)
  · obtain rfl : p = q := Except.ok.inj (hp.path.symm.trans hproject.path)
    obtain ⟨rfl, -⟩ := Node.file.inj (Option.some.inj (hp.file.symm.trans hproject.file))
    obtain ⟨entries, tally, hentries, htally, hcopy⟩ :=
      Project.copy_eq_iff hlast hmeans hlist hfinite hsendable.kept hwrite
    refine ⟨entries, tally, hentries, htally, hcopy, fun hlabelled => hcopy.mpr ?_⟩
    rw [← Tally.ofValues_objects] at htally
    rw [(Tally.ofValues_eq_ok.mp htally).2]
    exact Tally.isInNameOrder_counted hlabelled

namespace Shop

variable {first second : Value} {name other : Text} {data : Entries}

/-- A project file of these fields. -/
def contentOf (fields : List (Text × Value)) : List UInt8 :=
  (Json.layout 0 (Value.record fields) "\n").flatMap Utf8.bytesOf

/-- The shop with a project file of these fields. -/
def holding (fields : List (Text × Value)) : Machine :=
  withFile (Json.layout 0 (Value.record fields) "\n")

/-- Two features with these priorities. -/
def twoFeatures (first second : Value) : List (Text × Value) :=
  [("features", .list [Value.record [("id", .text "a"), ("priority", first)],
    Value.record [("id", .text "b"), ("priority", second)]])]

/-- The time in the shop. -/
def hour : Text := "0001-01-01T00:00:00.000001+00:00"

/-- The features once the first is accepted. -/
def firstAccepted (first second : Value) : List Value :=
  [Value.record [("attempts", .int 1), ("completed_at", .text hour), ("id", .text "a"),
      ("notes", .text ""), ("passes", .bool true), ("priority", first),
      ("status", .text "completed")],
    Value.record [("id", .text "b"), ("priority", second)]]

/-- The project file once the first feature is accepted, with the names of the priorities. -/
def halfDone (first second : Value) (name other : Text) : List (Text × Value) :=
  [("features", .list (firstAccepted first second)),
    ("metadata", Value.record [
      ("by_category", Value.record [
        ("functional", Value.record [("completed", .int 1), ("total", .int 2)])]),
      ("by_priority", Value.record [
        (name, Value.record [("completed", .int 1), ("total", .int 1)]),
        (other, Value.record [("completed", .int 0), ("total", .int 1)])]),
      ("completed_features", .int 1), ("completion_percentage", .real (.ofRatio false 50 1)),
      ("total_features", .int 2)]),
    ("updated_at", .text hour)]

theorem kept_twoFeatures (hfirst : ∀ depth, Kept depth first)
    (hsecond : ∀ depth, Kept depth second) :
    Kept Json.mostNested (Value.record (twoFeatures first second)) :=
  ⟨by decide, Json.textKeys_record rfl,
    ⟨by decide, ⟨by decide, Json.textKeys_record rfl, Text.encodes_of_all rfl, hfirst _, trivial⟩,
      ⟨by decide, Json.textKeys_record rfl, Text.encodes_of_all rfl, hsecond _, trivial⟩, trivial⟩,
    trivial⟩

theorem kept_count (n k : Int) (depth : Nat) :
    Kept (depth + 1) (Value.record [("completed", .int n), ("total", .int k)]) :=
  ⟨by simp, Json.textKeys_record rfl, trivial, trivial, trivial⟩

theorem kept_halfDone (hfirst : ∀ depth, Kept depth first) (hsecond : ∀ depth, Kept depth second)
    (hnames : Json.areNames [name, other] = true) :
    Kept Json.mostNested (Value.record (halfDone first second name other)) := by
  have hhour : Text.Encodes hour := Text.encodes_of_all rfl
  have hhalf : Json.IsSpelled (.ofRatio false 50 1) := .inl (by decide +kernel)
  have hfeatures : Kept 984 (.list (firstAccepted first second)) :=
    ⟨by decide, ⟨by decide, Json.textKeys_record rfl, trivial, hhour, Text.encodes_of_all rfl,
        Text.encodes_of_all rfl, trivial, hfirst _, Text.encodes_of_all rfl, trivial⟩,
      ⟨by decide, Json.textKeys_record rfl, Text.encodes_of_all rfl, hsecond _, trivial⟩, trivial⟩
  exact ⟨by decide, Json.textKeys_record rfl, hfeatures,
    ⟨by decide, Json.textKeys_record rfl,
      ⟨by decide, Json.textKeys_record rfl, kept_count .., trivial⟩,
      ⟨by decide, Json.textKeys_record hnames, kept_count .., kept_count .., trivial⟩, trivial,
      hhalf, trivial, trivial⟩, hhour, trivial⟩

theorem hasFinite_halfDone (hfirst : HasFinite first) (hsecond : HasFinite second) :
    HasFinite (Value.record (halfDone first second name other)) := by
  have hhalf : (Binary64.ofRatio false 50 1).isFinite = true := by decide +kernel
  simp [halfDone, firstAccepted, Value.record, HasFinite, Json.HasFiniteItems, Json.HasFiniteUnder,
    hfirst, hsecond, hhalf]

/-- What is laid out is loaded. -/
theorem load_holding {fields : List (Text × Value)} {features : List Value}
    (hkept : Kept Json.mostNested (Value.record fields))
    (hwritable : Json.unwritable? (Value.record fields) = none)
    (hlist : Entries.get? (fields.map fun f => (.text f.1, f.2)) "features" =
      some (.list features)) :
    Project.load.run idle (holding fields) =
      (.ok ⟨fields.map fun f => (.text f.1, f.2), features⟩, holding fields) :=
  load_withFile (Json.means_layout hkept hwritable) hlist

/-- The first feature is accepted. -/
def marking (fields : List (Text × Value)) : Except Fault (Value × Tally) × Machine :=
  (Project.markDone (.text "a") (Value.ofText? none)).run idle (holding fields)

/-- If accepting the first feature leaves this file, it was written last. -/
theorem writtenLast_halfDone (hfirst : ∀ depth, Kept depth first)
    (hsecond : ∀ depth, Kept depth second)
    (hwritable : Json.unwritable? (Value.record (twoFeatures first second)) = none)
    (hmarked : (marking (twoFeatures first second)).1.toOption.isSome = true ∧
      (marking (twoFeatures first second)).2.files.get? projectFile =
        some (.file (contentOf (halfDone first second name other)) false)) :
    Project.WrittenLast (contentOf (halfDone first second name other)) := by
  obtain ⟨hanswers, hfile⟩ := hmarked
  obtain ⟨⟨v, tally⟩, hanswer⟩ := Option.isSome_iff_exists.mp hanswers
  obtain ⟨m', hrun⟩ := Task.run_eq_ok_of_toOption hanswer
  have hafter : (marking (twoFeatures first second)).2 = m' := congrArg Prod.snd hrun
  rw [hafter] at hfile
  have hload := load_holding (kept_twoFeatures hfirst hsecond) hwritable rfl
  obtain ⟨_, _, _, _, -, -, -, -, hrewritten⟩ :=
    Project.markDone_rewritten hload (rfl : _ = List.map Value.object [_, _]) hrun
  obtain ⟨_, p, document, x, -, hpath, -, rfl⟩ := hrewritten.written
  obtain rfl : projectPath = p := Except.ok.inj ((featuresFile_machine _ idle).symm.trans hpath)
  have hproject : (holding (twoFeatures first second)).HasProject idle projectPath
      (contentOf (twoFeatures first second)) false :=
    ⟨featuresFile_machine _ idle, rfl, rfl, rfl⟩
  have hnew := hproject.withFile (document.flatMap Utf8.bytesOf) x
  obtain ⟨hcontent, -⟩ := Node.file.inj (Option.some.inj (hfile.symm.trans hnew.file))
  rw [hcontent]
  exact .accept hrun hnew

/-- Where the project of the shop is copied to. -/
def copyPath : Path := ⟨"/", ["shop", "out.json"]⟩

/-- The priorities are texts. -/
def labelled : List (Text × Value) := halfDone (.text "high") (.text "low") "high" "low"

/-- The priorities are numbers. They are written in their order, but `10` is less than `9` as a
text. -/
def numbered : List (Text × Value) := halfDone (.int 9) (.int 10) "9" "10"

/-- The copy of a project whose priorities are texts has the same bytes. -/
theorem run_copies_labelled : ∃ m' content executable,
    (Export.run (some "out.json")).run idle (holding labelled) = (.ok copyPath, m') ∧
    m'.files.get? ["shop", "out.json"] = some (.file content executable) ∧
    m'.files.get? projectFile = some (.file content false) := by
  have hhigh : ∀ depth, Kept depth (.text "high") := fun _ => Text.encodes_of_all rfl
  have hlow : ∀ depth, Kept depth (.text "low") := fun _ => Text.encodes_of_all rfl
  have hkept : Kept Json.mostNested (Value.record labelled) := kept_halfDone hhigh hlow rfl
  have hload := load_holding hkept (by decide +kernel) rfl
  have hlast : Project.WrittenLast (contentOf labelled) :=
    writtenLast_halfDone hhigh hlow (by decide +kernel) (by decide +kernel)
  have htarget : ((Export.targetOf (some "out.json")).run idle (holding labelled)).1 =
      .ok copyPath := rfl
  obtain ⟨m', content, executable, hrun, hfile, -, hproject⟩ :=
    Export.run_copies hload (Json.encodable_of_kept _ hkept) (hasFinite_halfDone trivial trivial)
      htarget ⟨"", _, rfl⟩
  obtain ⟨hkeeps, hcopies⟩ := hproject projectPath _ false
    ⟨featuresFile_machine _ idle, rfl, rfl, rfl⟩
  obtain ⟨entries, tally, hentries, -, -, hsame⟩ := hcopies hlast
  have hlabelled : ∀ e ∈ entries, Entry.Labelled e := by
    intro e he
    have hmem : Value.object e ∈ entries.map Value.object := List.mem_map_of_mem he
    rw [← hentries] at hmem
    simp only [firstAccepted, List.mem_cons, List.not_mem_nil, or_false] at hmem
    rcases hmem with h | h <;> obtain rfl := Value.object.inj h <;> exact ⟨trivial, trivial⟩
  refine ⟨m', content, executable, hrun, hfile, ?_⟩
  rw [hsame hlabelled]
  exact hkeeps (by decide)

/-- The file was written last when a feature was accepted, and the copy has other bytes. -/
theorem copy_differs_numbered : ∃ project m' content,
    Project.WrittenLast (contentOf numbered) ∧
    (holding numbered).HasProject idle projectPath (contentOf numbered) false ∧
    Project.load.run idle (holding numbered) = (.ok project, holding numbered) ∧
    Encodable (.object project.data) ∧ HasFinite (.object project.data) ∧
    (Export.run (some "out.json")).run idle (holding numbered) = (.ok copyPath, m') ∧
    m'.files.get? ["shop", "out.json"] = some (.file content false) ∧
    content ≠ contentOf numbered := by
  have hnumber : ∀ (n : Int) depth, Kept depth (.int n) := fun _ _ => trivial
  have hkept : Kept Json.mostNested (Value.record numbered) :=
    kept_halfDone (hnumber 9) (hnumber 10) rfl
  have hload := load_holding hkept (by decide +kernel) rfl
  have hexported : ((Export.run (some "out.json")).run idle (holding numbered)).1.toOption =
        some copyPath ∧
      ((Export.run (some "out.json")).run idle (holding numbered)).2.files.get?
        ["shop", "out.json"] = some (.file ((Json.layout 0 (Json.ordered (Value.record numbered))
          "\n").flatMap Utf8.bytesOf) false) ∧
      (Json.layout 0 (Json.ordered (Value.record numbered)) "\n").flatMap Utf8.bytesOf ≠
        contentOf numbered := by
    decide +kernel
  obtain ⟨hanswer, hfile, hdiffers⟩ := hexported
  obtain ⟨m', hrun⟩ := Task.run_eq_ok_of_toOption hanswer
  rw [hrun] at hfile
  exact ⟨_, m', _, writtenLast_halfDone (hnumber 9) (hnumber 10) (by decide +kernel)
    (by decide +kernel), ⟨featuresFile_machine _ idle, rfl, rfl, rfl⟩, hload,
    Json.encodable_of_kept _ hkept, hasFinite_halfDone trivial trivial, hrun, hfile, hdiffers⟩

end Shop

end Acceptance
