import Acceptance.Proofs.Register

/-! # A project in use

Whatever command lines follow each other after a project was made, its file says what the commands
that succeeded put on record. A text that cannot be encoded is the exception: then the file is empty
from there on. -/

namespace Acceptance

variable {place : Place} {m m' : Machine} {register : List Item}

/-! ## Command lines -/

/-- A command line, with the other programs and the machine that it finds. -/
structure Invocation where
  outside : Outside
  machine : Machine
  args : List Text

namespace Invocation

/-- The answer, and the machine that is left. -/
def outcome (i : Invocation) : Except Fault Nat × Machine :=
  (CommandLine.run i.args).run i.outside i.machine

/-- The machine that is left. -/
def after (i : Invocation) : Machine := i.outcome.2

/-- Is the answer success? -/
def succeeds (i : Invocation) : Bool :=
  match i.outcome.1 with
  | .ok code => code = 0
  | .error _ => false

/-- The command that succeeds. -/
def accepted? (i : Invocation) : Option Command :=
  if i.succeeds then CommandLine.command? i.args else none

/-- The command line is for the project at the place. No other program writes the project file, and
its path can be told. -/
structure WorksOn (place : Place) (i : Invocation) : Prop where
  outside : i.outside.Spares place
  project : i.machine.KeepsProjectAt place
  name : i.machine.NamesProject
  daily : ∀ c ∈ CommandLine.command? i.args, c.isDaily = true

/-- The command line gives a text that cannot be encoded. -/
def GivesBadText (i : Invocation) : Prop := ∃ t ∈ CommandLine.textsOf i.args, ¬ Text.Encodes t

theorem succeeds_iff (i : Invocation) : i.succeeds = true ↔ i.outcome.1 = .ok 0 := by
  unfold succeeds
  cases i.outcome.1 <;> simp

end Invocation

/-- Command lines for the project, one after the other. Between two of them anything may happen, but
not to the project file. -/
inductive Usage (place : Place) (start : Machine) : List Invocation → Machine → Prop where
  | start : Usage place start [] start
  | next {done : List Invocation} {m : Machine} {i : Invocation} (h : Usage place start done m)
      (hfiles : m.files.Spares place i.machine.files) (hi : i.WorksOn place) :
      Usage place start (done ++ [i]) i.after

/-- The commands that succeeded. -/
def commandsOf (invocations : List Invocation) : List Command :=
  invocations.filterMap Invocation.accepted?

/-- One of the command lines found the record as it should be and left the file empty. -/
def Spoiled (place : Place) (invocations : List Invocation) : Prop :=
  ∃ before i later, invocations = before ++ i :: later ∧ i.GivesBadText ∧
    i.machine.Records place (registerOf (commandsOf before)) ∧ i.after.Emptied place

/-! ## One command line -/

theorem commandsOf_append (invocations more : List Invocation) :
    commandsOf (invocations ++ more) = commandsOf invocations ++ commandsOf more :=
  List.filterMap_append

theorem commandsOf_refused {i : Invocation} (h : i.outcome.1 ≠ .ok 0) : commandsOf [i] = [] := by
  have hfails : i.succeeds = false := by
    rw [Bool.eq_false_iff, Ne, Invocation.succeeds_iff]
    exact h
  simp [commandsOf, Invocation.accepted?, hfails]

theorem commandsOf_succeeded {i : Invocation} (h : i.outcome.1 = .ok 0) {c : Command}
    (hc : CommandLine.command? i.args = some c) : commandsOf [i] = [c] := by
  have hsucceeds := i.succeeds_iff.mpr h
  simp [commandsOf, Invocation.accepted?, hsucceeds, hc]

/-- A command line keeps up what the file says, or it gives a bad text and leaves the file empty. -/
theorem Invocation.records_or_emptied {i : Invocation} {commands : List Command}
    (hi : i.WorksOn place) (hplace : place.EndsAsProject) (hnumbered : Numbered commands)
    (h : i.machine.Records place (registerOf commands)) :
    (i.after.Records place (registerOf (commands ++ commandsOf [i])) ∧
      Numbered (commands ++ commandsOf [i])) ∨ i.after.Emptied place ∧ i.GivesBadText := by
  have hsettled := CommandLine.settled_run hi.outside hplace h hi.project hi.name hi.daily
  generalize houtcome : (CommandLine.run i.args).run i.outside i.machine = outcome at hsettled
  have houtcome : i.outcome = outcome := houtcome
  unfold after
  cases hsettled with
  | refused hresult hsetting hrecords =>
    rw [commandsOf_refused (by rw [houtcome]; exact hresult), List.append_nil, houtcome]
    exact Or.inl ⟨hrecords, hnumbered⟩
  | succeeded hsetting hrecords hchanged =>
    obtain ⟨c, hc, hchanges⟩ := hchanged
    obtain ⟨rfl, hnumbered'⟩ := registerOf_append hnumbered hchanges
    rw [commandsOf_succeeded (by rw [houtcome]) hc, houtcome]
    exact Or.inl ⟨hrecords, hnumbered'⟩
  | emptied result hsetting hemptied htext =>
    rw [houtcome]
    exact Or.inr ⟨hemptied, htext⟩

/-! ## All command lines -/

/-- The file says what the commands put on record, or one of them spoiled it and it is empty. -/
theorem Usage.records_or_emptied {start : Machine} {done : List Invocation}
    (h : Usage place start done m) (hplace : place.EndsAsProject)
    (hstart : start.Records place []) :
    (m.Records place (registerOf (commandsOf done)) ∧ Numbered (commandsOf done)) ∨
      m.Emptied place ∧ Spoiled place done := by
  induction h with
  | start => exact Or.inl ⟨hstart, numbered_nil⟩
  | @next done m i h hfiles hi ih =>
    rcases ih with ⟨hrecords, hnumbered⟩ | ⟨hemptied, hspoiled⟩
    · have hfound := hrecords.of_files hfiles
      rw [commandsOf_append]
      rcases Invocation.records_or_emptied hi hplace hnumbered hfound with
        hkept | ⟨hemptied, hbad⟩
      · exact Or.inl hkept
      · exact Or.inr ⟨hemptied, done, i, [], rfl, hbad, hfound, hemptied⟩
    · right
      have hspares : i.machine.Spares place i.after := CommandLine.spares_run_of_emptied hi.outside
        hplace (hemptied.of_files hfiles) hi.project hi.daily
      obtain ⟨before, j, later, rfl, hspoiled⟩ := hspoiled
      refine ⟨(hemptied.of_files hfiles).of_spares hspares, before, j, later ++ [i], ?_, hspoiled⟩
      rw [List.append_assoc, List.cons_append]

/-! ## The project that is loaded -/

namespace Project

/-- The project lists the features on record in order, each under its own id, with the tally of
just these features. -/
structure Shows (register : List Item) (entries : List Entries) (project : Project) : Prop where
  features : project.features = entries.map .object
  ids : entries.map Entry.id =
    (List.range register.length).map fun k : Nat => .text (Entry.idOf ((k : Int) + 1))
  distinct : (entries.map Entry.id).Nodup
  tells : ∀ {k : Nat} {item : Item} {e : Entries}, register[k]? = some item → entries[k]? = some e →
    Entry.Says (Entry.idOf ((k : Int) + 1)) item.given item.marks e
  /-- The fields of the tally may stand in another order. -/
  metadata : ∃ tally w, Tally.ofValues project.features = .ok tally ∧
    project.data.get? "metadata" = some w ∧ Json.ordered w = Json.ordered tally.toValue

theorem shows_of_stored {entries : List Entries} {project : Project}
    (hfeatures : project.features = entries.map .object)
    (h : Stored register entries project.data) : project.Shows register entries := by
  have hids : entries.map Entry.id =
      (List.range register.length).map fun k : Nat => .text (Entry.idOf ((k : Int) + 1)) := by
    apply List.ext_getElem?
    intro k
    rw [List.getElem?_map, List.getElem?_map]
    cases he : entries[k]? with
    | none =>
      have hk := List.getElem?_eq_none_iff.mp he
      rw [h.lists.length] at hk
      rw [List.getElem?_eq_none (by rw [List.length_range]; exact hk)]
      rfl
    | some e =>
      obtain ⟨item, hitem⟩ := h.lists.exists_item he
      have hk := (List.getElem?_eq_some_iff.mp hitem).1
      rw [List.getElem?_range hk, Option.map_some, Option.map_some]
      exact congrArg some (Entry.getD_of_get? (h.lists.tells hitem he).id)
  refine ⟨hfeatures, hids, ?_, h.lists.tells, ?_⟩
  · rw [hids]
    refine List.Nodup.map ?_ List.nodup_range
    intro j k hjk
    exact Entry.idOf_inj (Value.text.inj hjk)
  · obtain ⟨tally, w, htally, hget, hw⟩ := h.metadata
    refine ⟨tally, w, ?_, hget, hw⟩
    rw [hfeatures, Tally.ofValues_objects, htally]

end Project

/-! ## Spoiled files -/

/-- A file that was spoiled stays empty. -/
theorem Usage.emptied_of_spoiled {start : Machine} {done : List Invocation}
    (h : Usage place start done m) (hplace : place.EndsAsProject) (hspoiled : Spoiled place done) :
    m.Emptied place := by
  induction h with
  | start =>
    obtain ⟨before, i, later, hdone, -⟩ := hspoiled
    exact absurd hdone (by simp)
  | @next done m i h hfiles hi ih =>
    obtain ⟨before, j, later, hdone, hbad, hrecords, hemptied⟩ := hspoiled
    rcases List.eq_nil_or_concat later with rfl | ⟨rest, k, rfl⟩
    · obtain ⟨-, rfl⟩ : done = before ∧ i = j := by simpa using hdone
      exact hemptied
    · have hlast : done ++ [i] = (before ++ j :: rest) ++ [k] := by simpa using hdone
      obtain ⟨rfl, -⟩ := List.append_inj' hlast rfl
      have hempty := (ih ⟨before, j, rest, rfl, hbad, hrecords, hemptied⟩).of_files hfiles
      have hspares : i.machine.Spares place i.after :=
        CommandLine.spares_run_of_emptied hi.outside hplace hempty hi.project hi.daily
      exact hempty.of_spares hspares

theorem not_spoiled {done : List Invocation}
    (h : ∀ i ∈ done, ∀ t ∈ CommandLine.textsOf i.args, Text.Encodes t) : ¬ Spoiled place done := by
  rintro ⟨before, i, later, rfl, ⟨t, ht, hbad⟩, -⟩
  exact hbad (h i (by simp) t ht)

/-! ## What is loaded -/

namespace Machine

/-- Whenever the path leads to the project file, as it is on the machine, the project is loaded: it
shows what is on record, and every feature is given out as it was given. -/
def Loads (m : Machine) (place : Place) (register : List Item) : Prop :=
  ∀ outside m', m.files.Spares place m'.files → m'.KeepsProjectAt place →
    m'.ReachesProject place →
      ∃ project entries, Project.load.run outside m' = (.ok project, m') ∧
        project.Shows register entries ∧
        ∀ {k : Nat} {item : Item}, register[k]? = some item →
          ∃ f, (Project.feature (.text (Entry.idOf ((k : Int) + 1)))).run outside m' = (.ok f, m') ∧
            f.description = item.given.description ∧ f.steps = item.given.steps

/-- The project is never loaded. -/
def NeverLoads (m : Machine) (place : Place) : Prop :=
  ∀ outside m', m.files.Spares place m'.files → m'.KeepsProjectAt place →
    ∃ fault, Project.load.run outside m' = (.error fault, m')

theorem Records.loads (h : m.Records place register) : m.Loads place register := by
  intro outside m' hfiles hat hreaches
  rcases Project.load_record outside (h.of_files hfiles) hat with
    ⟨-, hunreached⟩ | ⟨project, entries, hload, hfeatures, hstored⟩
  · exact absurd hreaches hunreached
  refine ⟨project, entries, hload, Project.shows_of_stored hfeatures hstored, ?_⟩
  intro k item hitem
  obtain ⟨f, hrun, -, hdescription, hsteps, -⟩ :=
    Project.run_feature hload hfeatures hstored.lists hitem
  exact ⟨f, hrun, hdescription, hsteps⟩

theorem Emptied.neverLoads (h : m.Emptied place) : m.NeverLoads place := by
  intro outside m' hfiles hat
  exact Project.load_emptied outside (h.of_files hfiles) hat

end Machine

/-- Once a project was made, its file shows at any time what the commands that succeeded put on
record: the features that were added, under their numbers and as they were given, with as many
attempts as acceptances. The record only grows. All this holds unless a command line with a text
that cannot be encoded spoils the file, and then it is never loaded again. -/
theorem Usage.keeps_record {first : Invocation} {name directory : Option Text} {type : Text}
    (hcommand : CommandLine.command? first.args = some (.init name type directory))
    (houtside : first.outside.Spares place) (hat : first.machine.MakesProjectAt directory place)
    (hsucceeds : first.succeeds = true) {done : List Invocation}
    (h : Usage place first.after done m) :
    (¬ Spoiled place done → m.Loads place (registerOf (commandsOf done))) ∧
      (Spoiled place done → m.NeverLoads place) ∧
      ∀ before later, done = before ++ later →
        Grows (registerOf (commandsOf before)) (registerOf (commandsOf done)) := by
  have hrun : (CommandLine.run first.args).run first.outside first.machine =
      (.ok 0, first.after) := Prod.ext (first.succeeds_iff.mp hsucceeds) rfl
  obtain ⟨hrecords, hplace⟩ := CommandLine.records_run_init houtside hcommand hat hrun
  refine ⟨fun hspoiled => ?_, fun hspoiled => ?_, ?_⟩
  · rcases h.records_or_emptied hplace hrecords with ⟨hkept, -⟩ | ⟨-, hspoiled'⟩
    · exact hkept.loads
    · exact absurd hspoiled' hspoiled
  · exact (h.emptied_of_spoiled hplace hspoiled).neverLoads
  · rintro before later rfl
    rw [commandsOf_append]
    exact grows_registerOf _ _

/-! ## A shop -/

namespace Shop

/-- Other programs that do nothing. -/
def idle : Outside where
  launch _ _ := { answer := .ok Playbook.quietChild, effect := fun _ s => s }
  check _ _ := { answer := ⟨0, [], []⟩, effect := fun _ s => s }
  browse _ _ := { answer := .result { success := true, code := some 0 }, effect := fun _ s => s }

theorem idle_spares (place : Place) : idle.Spares place := by
  rintro effect (⟨history, l⟩ | ⟨history, argv⟩ | ⟨history, call⟩) directory s <;>
    exact refl_of (FileTree.Spares place) s.files

/-- A machine in a directory for a shop. -/
def machine (files : FileTree) : Machine :=
  { Machine.bare ["agent-browser"] with
    files, directory := ["shop"], environment := [("HOME", "/home")] }

/-- The project file of the shop. -/
def projectFile : Place := ["shop", ".agent", "features.json"]

/-- A command line in the directory of the shop. -/
def call (files : FileTree) (args : List Text) : Invocation := ⟨idle, machine files, args⟩

/-- The path of the project file of the shop. -/
def projectPath : Path := ⟨"/", ["shop", ".agent", "features.json"]⟩

variable {files : FileTree}

theorem featuresFile_machine (files : FileTree) (outside : Outside) :
    (Layout.featuresFile.run outside (machine files)).1 = .ok projectPath := rfl

theorem keepsProjectAt_machine (files : FileTree) : (machine files).KeepsProjectAt projectFile := by
  intro outside p hp
  rw [featuresFile_machine] at hp
  rw [← Except.ok.inj hp]
  rfl

theorem reachesProject_machine (h : files.locate ["shop"] projectPath = .ok projectFile) :
    (machine files).ReachesProject projectFile :=
  fun outside => ⟨projectPath, featuresFile_machine files outside, rfl, h⟩

theorem worksOn_call {args : List Text} (h : ∀ c ∈ CommandLine.command? args, c.isDaily = true) :
    (call files args).WorksOn projectFile := by
  refine ⟨idle_spares _, keepsProjectAt_machine files, ?_, h⟩
  intro outside p hp
  have hpath : p = projectPath := by
    have hfiles := featuresFile_machine files outside
    exact Except.ok.inj (hp.symm.trans hfiles)
  rw [hpath]
  exact Text.encodes_of_all rfl

/-- The shop's project is made. -/
def founding : Invocation := call [(["shop"], .directory)] ["init", "S"]

theorem makes_founding : founding.machine.MakesProjectAt none projectFile := by
  intro outside p hp
  have hroot : ((Init.rootOf none).run outside founding.machine).1 = .ok ⟨"/", ["shop"]⟩ := rfl
  rw [hroot] at hp
  rw [← Except.ok.inj hp]
  rfl

/-- A feature is added. -/
def adding : Invocation := call founding.after.files ["add", "Sign in"]

/-- The feature is accepted. -/
def accepting : Invocation := call adding.after.files ["done", "feat-001"]

/-- A command of the shop follows the ones before it. -/
theorem usage_call {start : Machine} {done : List Invocation} (h : Usage projectFile start done m)
    {args : List Text} {c : Command} (hc : CommandLine.command? args = some c)
    (hdaily : c.isDaily = true) :
    Usage projectFile start (done ++ [call m.files args]) (call m.files args).after := by
  refine h.next (refl_of (FileTree.Spares projectFile) _) (worksOn_call fun d hd => ?_)
  rw [hc, Option.mem_some_iff] at hd
  rw [← hd]
  exact hdaily

theorem usage_accepting :
    Usage projectFile founding.after [adding, accepting] accepting.after := by
  have hadd : CommandLine.command? ["add", "Sign in"] =
      some (.add "Sign in" "medium" "functional" []) := by decide +kernel
  have hdone : CommandLine.command? ["done", "feat-001"] = some (.done "feat-001" none) := by
    decide +kernel
  have hadding : Usage projectFile founding.after [adding] adding.after :=
    usage_call Usage.start hadd rfl
  exact usage_call hadding hdone rfl

/-- A feature is added whose description has a byte in it that belongs to no character. -/
def spoiling : Invocation := call adding.after.files ["add", [CodePoint.ofNatD 0xDCE9 'x']]

theorem usage_spoiling : Usage projectFile founding.after [adding, spoiling] spoiling.after := by
  have hadd : CommandLine.command? ["add", "Sign in"] =
      some (.add "Sign in" "medium" "functional" []) := by decide +kernel
  have hbad : CommandLine.command? ["add", [CodePoint.ofNatD 0xDCE9 'x']] =
      some (.add [CodePoint.ofNatD 0xDCE9 'x'] "medium" "functional" []) := by decide +kernel
  have hadding : Usage projectFile founding.after [adding] adding.after :=
    usage_call Usage.start hadd rfl
  exact usage_call hadding hbad rfl

/-- What comes of the command lines, computed together because each needs the ones before it. -/
theorem shop_outcomes : founding.succeeds = true ∧
    registerOf (commandsOf [adding, accepting]) =
      [⟨⟨"Sign in", "functional", "medium", []⟩, 1⟩] ∧
    accepting.after.files.locate ["shop"] projectPath = .ok projectFile ∧
    spoiling.after.files.locate ["shop"] projectPath = .ok projectFile ∧
    spoiling.after.files.get? projectFile = some (.file [] false) := by decide +kernel

theorem load_of_loads (h : m.Loads projectFile register)
    (hlocate : m.files.locate ["shop"] projectPath = .ok projectFile) :
    ∃ project entries, Project.load.run idle (machine m.files) = (.ok project, machine m.files) ∧
      project.Shows register entries := by
  obtain ⟨project, entries, hload, hshows, -⟩ := h idle (machine m.files)
    (refl_of (FileTree.Spares projectFile) _) (keepsProjectAt_machine _)
    (reachesProject_machine hlocate)
  exact ⟨project, entries, hload, hshows⟩

theorem not_load_of_emptied (h : m.files.get? projectFile = some (.file [] false)) :
    ∃ fault, Project.load.run idle (machine m.files) = (.error fault, machine m.files) := by
  have hemptied : (machine m.files).Emptied projectFile := ⟨false, h⟩
  exact Project.load_emptied idle hemptied (keepsProjectAt_machine _)

theorem keeps_record_accepting : ∃ project entries,
    Project.load.run idle (machine accepting.after.files) =
      (.ok project, machine accepting.after.files) ∧
    project.Shows [⟨⟨"Sign in", "functional", "medium", []⟩, 1⟩] entries := by
  obtain ⟨hsucceeds, hregister, hlocate, -⟩ := shop_outcomes
  have hinit : CommandLine.command? founding.args = some (.init (some "S") "web" none) := by
    decide +kernel
  have hspoiled : ¬ Spoiled projectFile [adding, accepting] := by
    have htexts : ∀ i ∈ [adding, accepting], ∀ t ∈ CommandLine.textsOf i.args,
        t.all (!·.isSurrogate) = true := by decide +kernel
    exact not_spoiled fun i hi t ht => Text.encodes_of_all (htexts i hi t ht)
  obtain ⟨hloads, -⟩ := Usage.keeps_record hinit (idle_spares _) makes_founding hsucceeds
    usage_accepting
  have hloads := hloads hspoiled
  rw [hregister] at hloads
  exact load_of_loads hloads hlocate

/-- One command line with a bad text, and the project is lost, the features before it included. -/
theorem project_lost_spoiling : founding.succeeds = true ∧
    Usage projectFile founding.after [adding, spoiling] spoiling.after ∧
    (machine spoiling.after.files).ReachesProject projectFile ∧
    ∃ fault, Project.load.run idle (machine spoiling.after.files) =
      (.error fault, machine spoiling.after.files) := by
  obtain ⟨hsucceeds, -, -, hlocate, hfile⟩ := shop_outcomes
  exact ⟨hsucceeds, usage_spoiling, reachesProject_machine hlocate, not_load_of_emptied hfile⟩

end Shop

end Acceptance
