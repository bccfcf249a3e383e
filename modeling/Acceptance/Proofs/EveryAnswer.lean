import Acceptance.Proofs.ArgumentTexts
import Acceptance.Proofs.TestReplies
import Acceptance.Proofs.WorkingOff

/-! # Every command answers

Whatever the settings file and the project file hold and other programs do, a command line whose
texts can be encoded gets one envelope and the exit code that goes with it. -/

namespace Acceptance

open Json (Encodable)

variable {outside : Outside} {place : Place} {m m' : Machine} {p : Path}

/-! ## Settings -/

/-- The path starts with a part that stands for a home. -/
def Path.StartsAtHome (p : Path) : Prop :=
  p.isAbsolute = false ∧ ∃ part ∈ p.parts.head?, part.head? = some ('~' : CodePoint)

theorem Task.run_expandHome_of_not_home (h : ¬ p.StartsAtHome) :
    (expandHome p).run outside m = (.ok p, m) := by
  unfold expandHome
  split
  · rfl
  next first rest hparts =>
    rw [if_pos]
    · rfl
    · by_contra hhome
      simp only [Bool.or_eq_true, decide_eq_true_eq, not_or, not_not, ne_eq,
        Bool.not_eq_true] at hhome
      exact h ⟨hhome.1, first, by simp [hparts], hhome.2⟩

namespace Machine

/-- The settings file has these settings. -/
def Configures (m : Machine) (entries : Entries) : Prop :=
  ∃ t, m.SettingsText t ∧ Toml.read t = .ok entries

theorem Configures.encodable {entries : Entries} (h : m.Configures entries) :
    Encodable (.object entries) := by
  obtain ⟨t, ⟨outside, p, -, htext⟩, hread⟩ := h
  have hmeets : (Task.readText p).Meets outside (· = m) Text.Encodes fun fault =>
      (∃ problem, fault = .file problem p.toText) ∨ fault.Refuses := Task.meets_readText p
  exact Toml.encodable_read (hmeets.answer rfl htext) hread

/-- The settings that may be in use: those of the settings file, or none. -/
def MaySet (m : Machine) (entries : Entries) : Prop := entries = [] ∨ m.Configures entries

/-- What a command line may meet with: the texts of the setting can be encoded, and the id of the
next run is new; there is a clock; the settings file can be looked for, and its settings are not
nested too deep, put the screenshots under no one's home and give the browser a name without zero
characters; and if there is a well-formed project, there is room for the record of a run. -/
structure Serves (m : Machine) (place : Place) : Prop where
  fresh : m.settings = none
  plain : m.setting.All (RunId.Apart (m.runs + 1))
  clock : ∀ outside, ∃ now, (Layout.now.run outside m).1 = .ok now
  settingsFile : ∀ outside, ∃ p, (Settings.file.run outside m).1 = .ok p ∧
    m.files.locate m.directory p ≠ .error .nameTooLong
  shallow : ∀ t, m.SettingsText t → Toml.read t ≠ .error .nestedTooDeep
  screenshots : ∀ entries v, m.Configures entries →
    Settings.find? ["e2e", "screenshot_dir"] (.object entries) = some v →
    ¬ (Path.ofText v.shown).StartsAtHome ∧ ¬ RunId.ofNat (m.runs + 1) <:+: v.shown
  binary : ∀ entries t, m.Configures entries →
    Settings.find? ["e2e", "binary"] (.object entries) = some (.text t) → ∀ c ∈ t, c.val ≠ 0
  project : m.HasProjectFile place
  record : ∀ data entries, m.Holds place data entries → m.TakesRecord place (m.runs + 1) entries

namespace Serves

variable (h : m.Serves place)
include h

theorem configured : m.Configured m.MaySet where
  file := h.settingsFile
  shallow := h.shallow
  none := Or.inl rfl
  read t _ ht hread := Or.inr ⟨t, ht, hread⟩
  known := by simp [h.fresh]

theorem encodes : m.setting.All Text.Encodes := h.plain.mono fun _ ht => ht.1

omit h in
theorem encodable {entries : Entries} (hset : m.MaySet entries) : Encodable (.object entries) := by
  rcases hset with rfl | hset
  · trivial
  · exact hset.encodable

omit h in
theorem configures_of_has {keys : List Text} {key : Text} {v : Value}
    (hhas : Settings.Has m.MaySet (key :: keys) v) :
    ∃ entries, m.Configures entries ∧ Settings.find? (key :: keys) (.object entries) = some v := by
  obtain ⟨entries, rfl | hset, hfind⟩ := hhas
  · exact absurd hfind (by simp [Settings.find?, Entries.get?])
  · exact ⟨entries, hset, hfind⟩

theorem usable : Settings.Usable m (RunId.Apart (m.runs + 1)) m.MaySet where
  encodable _ := encodable
  homes v hv outside := by
    obtain ⟨entries, hset, hfind⟩ := configures_of_has hv
    exact ⟨_, congrArg Prod.fst (Task.run_expandHome_of_not_home (h.screenshots _ v hset hfind).1)⟩
  screenshots v hv := by
    obtain ⟨entries, hset, hfind⟩ := configures_of_has hv
    exact ⟨Value.encodes_shown (hv.encodable fun _ => encodable),
      (h.screenshots _ v hset hfind).2⟩
  binary t ht := by
    obtain ⟨entries, hset, hfind⟩ := configures_of_has ht
    exact h.binary _ t hset hfind

end Serves

end Machine

/-! ## Commands -/

/-- The commands that look into the project or at the machine, and those that add to it, test and
commit. -/
def Command.reports : Command → Bool
  | .doctor | .status | .next => true
  | .add .. | .done .. | .commit .. | .list .. | .test .. | .verify .. => true
  | .version .. | .init .. | .export .. | .browser .. | .review .. => false

theorem Outside.SparesProject.of_setting (h : outside.SparesProject m place)
    (hsetting : m'.setting = m.setting) : outside.SparesProject m' place where
  way hdoes directory s _ hq := h.way hdoes directory s (hq.of_setting hsetting)
  beside := h.beside

namespace CommandLine

variable (hserves : m.Serves place) (hspares : outside.SparesProject m place)
  (herrors : outside.TellsErrors) (hcodes : outside.TellsCodes)
include hserves hspares herrors hcodes

theorem replies_runCommand {c : Command} (hc : c.reports = true)
    (htold : ∀ t ∈ c.told, Text.Encodes t) :
    Replies outside (m.LearnsOf m.MaySet) m (runCommand c) := by
  have hsetting := hserves.encodes
  have hfile : ∀ {m'}, m.LearnsOf m.MaySet m' → m'.HasProjectFile place := fun hm =>
    hserves.project.of_same hm.setting hm.files
  have hplain : ∀ {m'}, m.LearnsOf m.MaySet m' → m'.setting.All Text.Encodes := fun hm =>
    hm.setting ▸ hsetting
  have hclock : ∀ {m'}, m.LearnsOf m.MaySet m' →
      ∀ outside, ∃ now, (Layout.now.run outside m').1 = .ok now := fun hm outside => by
    obtain ⟨now, hnow⟩ := hserves.clock outside
    exact ⟨now, (Layout.asks_now.answer_eq hm.setting).trans hnow⟩
  cases c with
  | doctor =>
    exact replies_doctor hserves.project hsetting hserves.configured
      fun _ => Machine.Serves.encodable
  | status =>
    exact fun m' hm => (answered_status (hfile hm) (hplain hm) outside).of_printed hm.printed
  | next =>
    exact fun m' hm => (answered_next (hfile hm) (hplain hm) outside).of_printed hm.printed
  | add description priority category steps =>
    intro m' hm
    have hpriority : Text.Encodes priority := htold _ (by simp [Command.told])
    have htexts : ∀ t ∈ (⟨description, category, priority, steps⟩ : Entry.Given).texts,
        Text.Encodes t := fun t ht => htold t (by
      simp only [Entry.Given.texts, Command.told, List.mem_cons] at ht ⊢
      tauto)
    exact (answered_add (hfile hm) (hplain hm) (hclock hm) hpriority htexts outside).of_printed
      hm.printed
  | done id notes =>
    exact fun m' hm => (answered_done (hfile hm) (hplain hm) (hclock hm)
      (htold _ (by simp [Command.told])) (fun t ht => htold t (by simp_all [Command.told]))
      outside).of_printed hm.printed
  | commit id message =>
    exact fun m' hm => (answered_commit (hfile hm) (hplain hm) (hspares.of_setting hm.setting)
      hcodes id fun t ht => htold t (by simp_all [Command.told])).of_printed hm.printed
  | list filter priority =>
    exact fun m' hm => (answered_list (hfile hm) (hplain hm) (htold _ (by simp [Command.told]))
      (fun t ht => htold t (by simp_all [Command.told])) outside).of_printed hm.printed
  | test id all pending baseUrl headless =>
    exact replies_runTest hserves.project hserves.configured hserves.plain hserves.usable
      (fun t ht => htold t (by simp_all [Command.told])) rfl hserves.record hserves.clock hspares
      herrors (fun t ht => htold t (by simp_all [Command.told])) all
  | verify id notes baseUrl headless =>
    exact replies_verify hserves.project hserves.configured hserves.plain hserves.usable
      (fun t ht => htold t (by simp_all [Command.told])) rfl hserves.record hserves.clock hspares
      herrors (htold _ (by simp [Command.told])) (fun t ht => htold t (by simp_all [Command.told]))
  | _ => exact absurd hc (by simp [Command.reports])

omit hserves hspares herrors hcodes in
/-- A command line whose texts can be encoded tells its command no other texts. -/
theorem run_eq_of_encodes {args : List Text} {c : Command} (hargs : ∀ arg ∈ args, Text.Encodes arg)
    (hc : command? args = some c) :
    (∀ t ∈ c.told, Text.Encodes t) ∧ ∃ name level, Text.Encodes name ∧
      (∀ t ∈ level, Text.Encodes t) ∧
      run args = prepared (LogLevel.configure level) (logError? name level) fun _ =>
        runCommand c := by
  unfold run
  unfold command? at hc
  cases hread : globalGrammar.read args with
  | none => exact absurd hc (by simp [hread])
  | some parsed =>
    have hparsed : parsed.Encodes := Arguments.Grammar.encodes_read hargs hread
    have hoperands : ∀ t ∈ parsed.operands, Text.Encodes t := hparsed.operands
    simp only [hread, Option.bind_some] at hc ⊢
    rcases hwords : parsed.operands with _ | ⟨name, rest⟩ <;> rw [hwords] at hc hoperands
    · exact absurd hc (by simp)
    obtain ⟨hname, hrest⟩ := List.forall_mem_cons.mp hoperands
    obtain ⟨command, hcommand, hparse⟩ := Option.bind_eq_some_iff.mp hc
    refine ⟨Command.encodes_parse? hrest hparse, name, parsed.value? "log-level", hname,
      hparsed.value? _, ?_⟩
    simp only [hcommand, hparse]

end CommandLine

/-! ## A shop that answers -/

namespace Shop

open RunId (Apart)
open CommandLine (Answered)

/-- The path of the settings file for the home of the shop. -/
def settingsPath : Path := ⟨"/", ["home", ".config", "lra", "config.toml"]⟩

theorem file_withFile (t : Text) (outside : Outside) :
    (Settings.file.run outside (withFile t)).1 = .ok settingsPath := rfl

theorem locate_settingsPath (t : Text) : (withFile t).files.locate ["shop"] settingsPath =
    .error .missing := rfl

theorem not_settingsText_withFile (t s : Text) : ¬ (withFile t).SettingsText s := by
  rintro ⟨outside, p, hpath, hread⟩
  obtain rfl : settingsPath = p := Except.ok.inj ((file_withFile t outside).symm.trans hpath)
  have hmissing : ((Task.readText settingsPath).run outside (withFile t)).1.toOption = none := rfl
  rw [hread] at hmissing
  exact absurd hmissing (by simp [Except.toOption])

theorem apart_of_short {n : Nat} (t : Text) (hencodes : t.all (!·.isSurrogate) = true)
    (hshort : decide (t.length < 30) = true) : Apart n t :=
  RunId.apart_of_length_lt (Text.encodes_of_all hencodes) (of_decide_eq_true hshort)

theorem plain_withFile (t : Text) (n : Nat) : (withFile t).setting.All (Apart n) where
  directory := List.forall_mem_singleton.mpr (apart_of_short "shop" rfl rfl)
  environment := List.forall_mem_singleton.mpr (apart_of_short "/home" rfl rfl)
  homes := List.forall_mem_nil _
  toolDirectory := apart_of_short "/bin" rfl rfl

theorem takesRecord_errands : (withFile errandsText).TakesRecord projectFile 1 errands where
  room := ⟨fun _ _ h => absurd h nofun, by decide +kernel⟩
  names outside root hroot := by
    obtain rfl : (⟨"/", ["shop"]⟩ : Path) = root := Except.ok.inj hroot
    decide +kernel
  ids := by
    simp only [errands, List.forall_mem_cons]
    exact ⟨apart_of_short "a" rfl rfl, apart_of_short "b" rfl rfl, apart_of_short "c" rfl rfl,
      by simp⟩

theorem encodable_errands : Encodable (Value.record
    [("features", .list (errands.map .object))]) := by
  obtain ⟨_, _, data, hfile, hmeans, -, hencodable⟩ := features_errands
  obtain ⟨rfl, -⟩ := Node.file.inj (Option.some.inj hfile)
  rw [← hmeans.inj means_errands]
  exact hencodable

theorem wellFormed_errands :
    Project.WellFormed [("features", .list (errands.map .object))] errands where
  features := rfl
  metadata v hv := absurd hv nofun
  entries e he := by
    have hplain : ∀ e ∈ errands, e.get? "steps" = none ∧ Entry.attempts e = .ok 0 := by
      simp only [errands, List.forall_mem_cons]
      exact ⟨⟨rfl, rfl⟩, ⟨rfl, rfl⟩, ⟨rfl, rfl⟩, by simp⟩
    exact ⟨workable_errands.ordinary e he, by simp [(hplain e he).1], 0, (hplain e he).2,
      by decide +kernel⟩
  encodable := encodable_errands
  count := by decide +kernel

theorem holds_errands {data : Entries} {entries : List Entries}
    (h : (withFile errandsText).Holds projectFile data entries) : entries = errands := by
  obtain ⟨content, executable, hfile, hmeans⟩ := h.file
  obtain ⟨rfl, -⟩ := Node.file.inj (Option.some.inj hfile)
  have hdata : Value.object data = .object [("features", .list (errands.map .object))] :=
    hmeans.inj means_errands
  have hlist := h.wellFormed.features
  rw [Value.object.inj hdata] at hlist
  have hsame : errands.map Value.object = entries.map .object :=
    Value.list.inj (Option.some.inj hlist)
  exact (List.map_injective_iff.mpr (fun _ _ => Value.object.inj) hsame).symm

theorem serves_errands : (withFile errandsText).Serves projectFile where
  fresh := rfl
  plain := plain_withFile _ _
  clock _ := ⟨_, rfl⟩
  settingsFile outside := ⟨_, file_withFile _ outside, by
    rw [show (withFile errandsText).files.locate (withFile errandsText).directory settingsPath = _
      from locate_settingsPath errandsText]
    nofun⟩
  shallow s hs := absurd hs (not_settingsText_withFile _ s)
  screenshots _ _ := fun ⟨s, hs, _⟩ => absurd hs (not_settingsText_withFile _ s)
  binary _ _ := fun ⟨s, hs, _⟩ => absurd hs (not_settingsText_withFile _ s)
  project := .wellFormed
    ⟨reachesProject_machine rfl, ⟨_, false, rfl, means_errands⟩, wellFormed_errands⟩
  record _ _ h := holds_errands h ▸ takesRecord_errands

theorem sparesProject_idle (m : Machine) (place : Place) : idle.SparesProject m place := by
  refine Outside.sparesProject_of_still (fun h directory s => ?_) m place
  rcases h with ⟨history, l⟩ | ⟨history, argv⟩ | ⟨history, call⟩ <;> rfl

theorem tellsErrors_idle : idle.TellsErrors := nofun

theorem tellsCodes_idle : idle.TellsCodes :=
  fun _ _ => show Value.isLongInt 0 = false by decide +kernel

/-- Notes that end in half a character. -/
def brokenNotes : Text := [CodePoint.ofNatD 0xDCE9 'x']

end Shop

end Acceptance
