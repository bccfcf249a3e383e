import Acceptance.Proofs.Answering
import Acceptance.Proofs.PathTexts
import Acceptance.Proofs.ReportTexts
import Acceptance.Proofs.SettingsTexts

/-! # Settings in use

Whatever the bytes of the settings file are, the settings are read from them or it can be told why
not. Once they are read they are kept, so what holds of the settings of the file holds of all
settings that are used. -/

namespace Acceptance

open Json (Encodable)

variable {outside : Outside} {m m' : Machine} {p : Path}

/-! ## Looking for files -/

theorem FileTree.walk_error {files : FileTree} {place : Place} {names : List Text}
    {problem : FileProblem} (h : files.walk place names = .error problem) :
    problem = .missing ∨ problem = .notADirectory ∨ problem = .nameTooLong := by
  induction names generalizing place with
  | nil => exact absurd h (by simp [walk])
  | cons name rest ih =>
    unfold walk at h
    split at h
    · exact Or.inl (Except.error.inj h).symm
    · exact Or.inr (Or.inl (Except.error.inj h).symm)
    · split at h
      · exact ih h
      · split at h
        · exact Or.inr (Or.inr (Except.error.inj h).symm)
        · exact ih h

theorem FileTree.locate_error {files : FileTree} {directory : Place} {problem : FileProblem}
    (h : files.locate directory p = .error problem) :
    problem = .missing ∨ problem = .notADirectory ∨ problem = .nameTooLong := by
  unfold locate at h
  split at h
  · exact Or.inr (Or.inr (Except.error.inj h).symm)
  · exact walk_error h

namespace Task

/-- A path is looked for without fail, unless it is too long. -/
theorem exists_pathExists (outside : Outside)
    (h : m.files.locate m.directory p ≠ .error .nameTooLong) :
    ∃ isThere, (pathExists p).run outside m = (.ok isThere, m) := by
  unfold pathExists
  cases pathProblem? p with
  | some fault => exact ⟨false, rfl⟩
  | none =>
    dsimp only
    rw [run_read_bind]
    cases hlocate : m.files.locate m.directory p with
    | ok place => exact ⟨_, rfl⟩
    | error problem =>
      rcases FileTree.locate_error hlocate with rfl | rfl | rfl
      · exact ⟨false, rfl⟩
      · exact ⟨false, rfl⟩
      · exact absurd hlocate h

theorem pathExists_congr (p : Path) (outside : Outside) (hfiles : m'.files = m.files)
    (hdirectory : m'.directory = m.directory) :
    ((pathExists p).run outside m').1 = ((pathExists p).run outside m).1 := by
  unfold pathExists
  cases pathProblem? p with
  | some fault => rfl
  | none =>
    dsimp only
    rw [run_read_bind, run_read_bind, hfiles, hdirectory]
    cases m.files.locate m.directory p with
    | ok place => exact congrArg (fun files => Except.ok (files.get? place).isSome) hfiles
    | error problem => cases problem <;> rfl

theorem refuses_pathProblem {fault : Fault} (h : pathProblem? p = some fault) : fault.Refuses := by
  unfold pathProblem? at h
  dsimp only at h
  split at h
  · rw [← Option.some.inj h]
    exact Text.encodes_of _
  · split at h
    · exact absurd h (by simp)
    next problem _ =>
      rw [← Option.some.inj h]
      exact Utf8.Unencodable.encodes_message problem

/-- A file is read as a text that can be encoded, or it is told why it has none. -/
theorem meets_readText {I : Machine → Prop} (p : Path) : (readText p).Meets outside I Text.Encodes
    fun fault => (∃ problem, fault = .file problem p.toText) ∨ fault.Refuses := by
  have hcontent : (onFiles p fun files directory => files.content directory p).Meets outside I
      (fun _ => True) fun fault => (∃ problem, fault = .file problem p.toText) ∨ fault.Refuses := by
    refine meets_bind (P := fun _ => True) ?_ fun _ _ =>
      meets_bind (P := fun _ => True) (meets_read fun _ _ => trivial) fun result _ => ?_
    · unfold checkPath
      split
      next fault hproblem => exact meets_fail (Or.inr (refuses_pathProblem hproblem))
      next => exact meets_pure trivial
    · split
      · exact meets_pure trivial
      next problem => exact meets_fail (Or.inl ⟨problem, rfl⟩)
  refine meets_bind hcontent fun content _ => ?_
  split
  next t hdecode => exact meets_pure (Utf8.encodes_of_decode hdecode).withLineFeeds
  next problem _ => exact meets_fail (Or.inr (Utf8.Undecodable.encodes_message problem))

theorem readText_congr (p : Path) (outside : Outside) (hfiles : m'.files = m.files)
    (hdirectory : m'.directory = m.directory) :
    ((readText p).run outside m').1 = ((readText p).run outside m).1 := by
  unfold readText onFiles
  rw [run_bind_assoc, run_bind_assoc, run_checkPath_bind, run_checkPath_bind]
  cases pathProblem? p with
  | some fault => rfl
  | none =>
    dsimp only
    rw [run_bind_assoc, run_bind_assoc, run_read_bind, run_read_bind, hfiles, hdirectory]
    cases m.files.content m.directory p with
    | error problem => rfl
    | ok content =>
      dsimp only
      rw [run_pure_bind, run_pure_bind]
      cases Utf8.decode content <;> rfl

end Task

/-! ## What the settings file says -/

namespace Machine

/-- The settings file has this text. -/
def SettingsText (m : Machine) (t : Text) : Prop :=
  ∃ outside p, (Settings.file.run outside m).1 = .ok p ∧ ((Task.readText p).run outside m).1 = .ok t

/-- The settings file can be looked for. What it says is not nested too deep, and its settings are
as `S` says, as are those that were read before. -/
structure Configured (S : Entries → Prop) (m : Machine) : Prop where
  file : ∀ outside, ∃ p, (Settings.file.run outside m).1 = .ok p ∧
    m.files.locate m.directory p ≠ .error .nameTooLong
  shallow : ∀ t, m.SettingsText t → Toml.read t ≠ .error .nestedTooDeep
  none : S []
  read : ∀ t entries, m.SettingsText t → Toml.read t = .ok entries → S entries
  known : ∀ entries ∈ m.settings, S entries

/-- No more was done than that the settings were read, and they are as `S` says. -/
def LearnsOf (S : Entries → Prop) (m m' : Machine) : Prop :=
  m.Learns m' ∧ ∀ entries ∈ m'.settings, S entries

variable {S : Entries → Prop}

theorem Configured.refl (h : m.Configured S) : m.LearnsOf S m := ⟨refl_of Learns m, h.known⟩

theorem LearnsOf.setting (h : m.LearnsOf S m') : m'.setting = m.setting := by
  obtain ⟨⟨settings, rfl⟩, -⟩ := h
  rfl

theorem LearnsOf.files (h : m.LearnsOf S m') : m'.files = m.files := by
  obtain ⟨⟨settings, rfl⟩, -⟩ := h
  rfl

theorem LearnsOf.printed (h : m.LearnsOf S m') : m'.printed = m.printed := by
  obtain ⟨⟨settings, rfl⟩, -⟩ := h
  rfl

theorem LearnsOf.directory (h : m.LearnsOf S m') : m'.directory = m.directory := by
  obtain ⟨⟨settings, rfl⟩, -⟩ := h
  rfl

theorem LearnsOf.learn {entries : Entries} (h : m.LearnsOf S m') (hS : S entries) :
    m.LearnsOf S { m' with settings := some entries } := by
  obtain ⟨⟨settings, rfl⟩, -⟩ := h
  exact ⟨⟨some entries, rfl⟩, fun other hother => Option.some.inj hother ▸ hS⟩

end Machine

/-! ## Reading settings -/

variable {S : Entries → Prop} (hconfigured : m.Configured S)
  (hsetting : m.setting.All Text.Encodes)

namespace Settings

/-- The path of the settings file can be told. -/
theorem encodes_file {I : Machine → Prop} (hI : ∀ m, I m → m.setting.All Text.Encodes) :
    file.Meets outside I (Path.All Text.Encodes) (· = .homeUnknown) := by
  have hP := Text.hereditary_encodes
  have hbase : ∀ base : Path, base.All Text.Encodes →
      ((base.child "lra").child "config.toml").All Text.Encodes := fun base h =>
    (h.child hP (Text.encodes_of _)).child hP (Text.encodes_of _)
  have hexpand : ∀ t, Text.Encodes t → (Task.expandHome (Path.ofText t)).Meets outside I
      (Path.All Text.Encodes) (· = .homeUnknown) := fun t ht =>
    Task.meets_expandHome hI hP (Path.all_ofText hP ht)
  refine Task.meets_bind (Task.meets_setVariable? hI _) fun given hgiven => ?_
  split
  next t => exact hexpand t (hgiven t rfl)
  next =>
    refine Task.meets_bind (Task.meets_setVariable? hI _) fun shared hshared => ?_
    split
    next t =>
      exact Task.meets_bind (hexpand t (hshared t rfl)) fun base h => Task.meets_pure (hbase base h)
    next =>
      refine Task.meets_bind (hexpand "~" (Text.encodes_of _)) fun home hhome => ?_
      exact Task.meets_bind (Task.meets_pure (hhome.child hP (Text.encodes_of _)))
        fun base h => Task.meets_pure (hbase base h)

theorem encodes_of_file (hsetting : m.setting.All Text.Encodes)
    (h : (file.run outside m).1 = .ok p) : Text.Encodes p.toText :=
  Path.all_encodes.mp ((encodes_file fun _ h => h).answer hsetting h)

theorem comes_parse (hconfigured : m.Configured S) (hpath : Text.Encodes p.toText) {t : Text}
    (ht : m.SettingsText t) : Task.Comes S Fault.Refuses (parse p t) := by
  unfold parse
  split
  next entries hread => exact hconfigured.read t entries ht hread
  next => simpa [Task.Comes, Fault.Refuses, Invalid.message] using hpath
  next digits _ => exact Value.encodes_tooManyDigitsToRead digits
  next hdeep => exact absurd hdeep (hconfigured.shallow t ht)

theorem refuses_faultOf (hpath : Text.Encodes p.toText) {fault : Fault}
    (h : (∃ problem, fault = .file problem p.toText) ∨ fault.Refuses) :
    (faultOf p fault).Refuses := by
  rcases h with ⟨problem, rfl⟩ | h
  · simpa [faultOf, Fault.Refuses, Invalid.message] using hpath
  · obtain ⟨cause, rfl, -⟩ := h.exists_cause
    exact h

include hconfigured hsetting

/-- The settings are read, or it is told why they cannot be. -/
theorem meets_load : load.Meets outside (m.LearnsOf S) S Fault.Refuses := by
  obtain ⟨p, hfile, hlocate⟩ := hconfigured.file outside
  have htold := encodes_of_file hsetting hfile
  have hpath : file.Meets outside (m.LearnsOf S) (· = p) Fault.Refuses :=
    asks_file.meets_of_ok (fun _ h => h.setting) hfile rfl
  have hexists : (Task.pathExists p).Meets outside (m.LearnsOf S) (fun _ => True)
      Fault.Refuses := by
    intro m' hm'
    rw [← hm'.files, ← hm'.directory] at hlocate
    obtain ⟨isThere, hrun⟩ := Task.exists_pathExists outside hlocate
    rw [hrun]
    exact ⟨trivial, hm'⟩
  have hread : (Task.attempt (Task.readText p)).Meets outside (m.LearnsOf S)
      (Task.Comes (fun t => m.SettingsText t ∧ Text.Encodes t) fun fault =>
        (∃ problem, fault = .file problem p.toText) ∨ fault.Refuses) Fault.Refuses := by
    intro m' hm'
    have hmeets : (Task.readText p).Meets outside (m.LearnsOf S) Text.Encodes fun fault =>
        (∃ problem, fault = .file problem p.toText) ∨ fault.Refuses := Task.meets_readText p
    obtain ⟨hcomes, hafter⟩ := hmeets m' hm'
    have hsame := Task.readText_congr p outside hm'.files hm'.directory
    refine ⟨?_, hafter⟩
    rw [hsame] at hcomes
    rw [Task.run_attempt, hsame]
    rcases htext : ((Task.readText p).run outside m).1 with fault | t
    · rw [htext] at hcomes
      exact hcomes
    · rw [htext] at hcomes
      exact ⟨⟨outside, p, hfile, htext⟩, hcomes⟩
  refine Task.meets_bind hpath ?_
  rintro _ rfl
  refine Task.meets_bind hexists fun isThere _ => ?_
  split
  · refine Task.meets_bind hread fun result hresult => ?_
    split
    next t => exact Task.meets_ofExcept (comes_parse hconfigured htold hresult.1)
    next fault => exact Task.meets_fail (refuses_faultOf htold hresult)
  · exact Task.meets_pure hconfigured.none

/-- The settings that are used are as `S` says. -/
theorem meets_get : get.Meets outside (m.LearnsOf S) S Fault.Refuses := by
  refine Task.meets_bind (P := fun settings => ∀ entries ∈ settings, S entries)
    (Task.meets_read fun m' h => h.2) fun settings hknown => ?_
  cases settings with
  | some entries => exact Task.meets_pure (hknown entries rfl)
  | none =>
    refine Task.meets_bind (meets_load hconfigured hsetting) fun entries hS => ?_
    exact Task.meets_bind (P := fun _ => True) (Task.meets_change fun _ h => h.learn hS)
      fun _ _ => Task.meets_pure hS

/-! ## Values -/

/-- A value that some settings have under the keys. -/
def Has (S : Entries → Prop) (keys : List Text) (v : Value) : Prop :=
  ∃ entries, S entries ∧ find? keys (.object entries) = some v

theorem meets_value? (keys : List Text) :
    (value? keys).Meets outside (m.LearnsOf S) (fun found => ∀ v ∈ found, Has S keys v)
      Fault.Refuses :=
  Task.meets_bind (meets_get hconfigured hsetting) fun entries hS =>
    Task.meets_pure fun _ hv => ⟨entries, hS, hv⟩

theorem meets_int (keys : List Text) (standard : Int) :
    (int keys standard).Meets outside (m.LearnsOf S) (fun _ => True) Fault.Refuses := by
  refine Task.meets_bind (meets_value? hconfigured hsetting keys) fun found _ => ?_
  split <;> exact Task.meets_pure trivial

theorem meets_text (keys : List Text) (standard : Text) :
    (text keys standard).Meets outside (m.LearnsOf S)
      (fun t => t = standard ∨ Has S keys (.text t)) Fault.Refuses := by
  refine Task.meets_bind (meets_value? hconfigured hsetting keys) fun found hfound => ?_
  split
  next t =>
    refine Task.meets_pure ?_
    split
    · exact Or.inl rfl
    · exact Or.inr (hfound _ rfl)
  next => exact Task.meets_pure (Or.inl rfl)

variable (hS : ∀ entries, S entries → Encodable (.object entries))

omit hconfigured hsetting in
include hS in
theorem Has.encodable {keys : List Text} {v : Value} (h : Has S keys v) : Encodable v := by
  obtain ⟨entries, hentries, hfind⟩ := h
  replace hentries := hS entries hentries
  generalize Value.object entries = w at hentries hfind
  induction keys generalizing w with
  | nil => exact Option.some.inj hfind ▸ hentries
  | cons key rest ih =>
    unfold find? at hfind
    split at hfind
    next entries =>
      obtain ⟨u, hu, hfind⟩ := Option.bind_eq_some_iff.mp hfind
      exact ih u (hentries.get? hu) hfind
    next => exact absurd hfind (by simp)

include hS

theorem meets_encodedText (keys : List Text) {standard : Text} (hstandard : Text.Encodes standard) :
    (text keys standard).Meets outside (m.LearnsOf S) Text.Encodes Fault.Refuses := by
  refine (meets_text hconfigured hsetting keys standard).mono ?_ fun _ h => h
  rintro t (rfl | h)
  · exact hstandard
  · exact h.encodable hS

omit hconfigured hsetting hS in
theorem comes_shown {v : Value} {Q : Text → Prop} (h : Q v.shown) :
    Task.Comes Q Fault.Refuses (shown v) := by
  unfold shown
  split
  · show Text.Encodes Value.tooManyDigitsToWrite
    simp [Value.tooManyDigitsToWrite]
  · exact h

omit hconfigured hsetting hS in
theorem comes_pairsOf {entries : Entries} (h : Encodable (.object entries)) :
    Task.Comes (fun pairs => ∀ pair ∈ pairs, Text.Encodes pair.2) Fault.Refuses
      (pairsOf entries) := by
  induction entries with
  | nil => exact fun pair hpair => absurd hpair (by simp)
  | cons e rest ih =>
    obtain ⟨⟨-, hv⟩, hrest⟩ := h
    have hshown := comes_shown (Value.encodes_shown hv)
    have hothers := ih hrest
    unfold pairsOf
    rcases hfirst : shown e.2 with fault | value
    · rw [hfirst] at hshown
      exact hshown
    · rw [hfirst] at hshown
      rcases hlast : pairsOf rest with fault | others
      · rw [hlast] at hothers
        exact hothers
      · rw [hlast] at hothers
        exact List.forall_mem_cons.mpr ⟨hshown, hothers⟩

theorem meets_table (keys : List Text) :
    (table keys).Meets outside (m.LearnsOf S) (fun pairs => ∀ pair ∈ pairs, Text.Encodes pair.2)
      Fault.Refuses := by
  refine Task.meets_bind (meets_value? hconfigured hsetting keys) fun found hfound => ?_
  split
  next entries => exact Task.meets_ofExcept (comes_pairsOf ((hfound _ rfl).encodable hS))
  next => exact Task.meets_pure fun pair hpair => absurd hpair (by simp)

end Settings

/-! ## Log levels -/

namespace LogLevel

variable (hS : ∀ entries, S entries → Encodable (.object entries))
include hconfigured hsetting hS

theorem meets_configured :
    configured.Meets outside (m.LearnsOf S) Text.Encodes Fault.Refuses := by
  refine Task.meets_bind (Task.meets_attempt
    (Settings.meets_encodedText hconfigured hsetting hS _ (Text.encodes_of _)))
    fun result hresult => ?_
  split
  next name => exact Task.meets_pure hresult
  next => exact Task.meets_pure (Text.encodes_of _)
  next fault _ => exact Task.meets_fail hresult

/-- The log is set up, or it is told that the level is none. -/
theorem meets_configure {given : Option Text} (hgiven : ∀ t ∈ given, Text.Encodes t) :
    (configure given).Meets outside (m.LearnsOf S) (fun _ => True) Fault.Refuses := by
  have hname : ∀ name, Text.Encodes name →
      (Task.ofExcept (ofName name)).Meets outside (m.LearnsOf S) (fun _ => True)
        Fault.Refuses := by
    intro name hname
    refine Task.meets_ofExcept ?_
    unfold ofName
    split
    · trivial
    · simpa [Task.Comes, Fault.Refuses, Invalid.message] using hname
  refine Task.meets_bind (P := fun _ => True) ?_ fun level _ => Task.meets_pure trivial
  unfold resolve
  split
  next name hfound =>
    exact Task.meets_bind (Task.meets_pure (hgiven name (Option.filter_eq_some_iff.mp hfound).1))
      hname
  next =>
    have hI : ∀ m', m.LearnsOf S m' → m'.setting.All Text.Encodes := fun m' h => h.setting ▸ hsetting
    refine Task.meets_bind (Task.meets_setVariable? hI _) fun found hfound => ?_
    split
    next name => exact Task.meets_bind (Task.meets_pure (hfound name rfl)) hname
    next => exact Task.meets_bind (meets_configured hconfigured hsetting hS) hname

end LogLevel

/-! ## Options of runs -/

/-- What a test can be set up with: the directory of screenshots does not start at a home that is
not known, and the name of the browser has no zero character. -/
structure Settings.Usable (m : Machine) (P : Text → Prop) (S : Entries → Prop) : Prop where
  encodable : ∀ entries, S entries → Encodable (.object entries)
  homes : ∀ v, Has S ["e2e", "screenshot_dir"] v → ∀ outside, ∃ p,
    ((Task.expandHome (Path.ofText v.shown)).run outside m).1 = .ok p
  screenshots : ∀ v, Has S ["e2e", "screenshot_dir"] v → P v.shown
  binary : ∀ t, Has S ["e2e", "binary"] (.text t) → ∀ c ∈ t, c.val ≠ 0

/-- The options of a run can be told, the name of the browser has no zero character, and the way to
the screenshots is as `P` says. -/
structure Options.Sound (P : Text → Prop) (o : Options) : Prop where
  encodes : o.Encodes
  binary : ∀ c ∈ o.binary, c.val ≠ 0
  screenshots : ∀ directory ∈ o.screenshots, directory.All P

/-- The project directory is known. -/
def Machine.HasRoot (m : Machine) : Prop :=
  ∀ outside, ∃ root, (Layout.projectDirectory.run outside m).1 = .ok root

theorem Layout.exists_fromProject (hroot : m.HasRoot) (outside : Outside) (p : Path) :
    ∃ q, ((fromProject p).run outside m).1 = .ok q := by
  unfold fromProject
  split
  · exact ⟨p, rfl⟩
  · obtain ⟨root, hrun⟩ := hroot outside
    rw [Task.run_bind, asks_projectDirectory.run_self, hrun]
    exact ⟨root.join p, rfl⟩

theorem Layout.exists_screenshotsDirectory (hroot : m.HasRoot) (outside : Outside) {t : Text}
    (ht : ∃ p, ((Task.expandHome (Path.ofText t)).run outside m).1 = .ok p) :
    ∃ p, ((screenshotsDirectory (some t)).run outside m).1 = .ok p := by
  cases t with
  | nil =>
    obtain ⟨root, hrun⟩ := hroot outside
    unfold screenshotsDirectory agentDirectory
    rw [Task.run_bind_assoc, Task.run_bind, asks_projectDirectory.run_self, hrun]
    exact ⟨_, rfl⟩
  | cons c rest =>
    obtain ⟨p, hp⟩ := ht
    unfold screenshotsDirectory
    rw [Task.run_bind, (Task.asks_expandHome _).run_self, hp]
    exact exists_fromProject hroot outside p

namespace Options

variable {P : Text → Prop} (hP : Text.OfPaths P) (hplain : m.setting.All P) (hroot : m.HasRoot)
  (husable : Settings.Usable m P S)

include hP hplain hroot husable

theorem comes_screenshotsDirectory {v : Value} (hv : Settings.Has S ["e2e", "screenshot_dir"] v) :
    Task.Comes (Path.All P) Fault.Refuses
      ((Layout.screenshotsDirectory (some v.shown)).run outside m).1 := by
  obtain ⟨p, hp⟩ := Layout.exists_screenshotsDirectory hroot outside (husable.homes v hv outside)
  have hmeets : (Layout.screenshotsDirectory (some v.shown)).Meets outside
      (fun m => m.setting.All P) (Path.All P) (· = .homeUnknown) :=
    Layout.meets_screenshotsDirectory (fun _ h => h) hP
      fun t ht => Option.some.inj ht ▸ husable.screenshots v hv
  have hcomes := (hmeets m hplain).1
  rw [hp] at hcomes ⊢
  exact hcomes

include hconfigured

theorem meets_screenshotsOf :
    (screenshotsOf none).Meets outside (m.LearnsOf S)
      (fun shots => ∀ directory ∈ shots, directory.All P) Fault.Refuses := by
  refine Task.meets_bind (Settings.meets_value? hconfigured (hplain.mono hP.encodes) _)
    fun found hfound => ?_
  cases found with
  | none => exact Task.meets_pure (by simp)
  | some v =>
    dsimp only
    split
    · refine Task.meets_bind (P := (· = v.shown))
        (Task.meets_ofExcept (Settings.comes_shown rfl)) ?_
      rintro _ rfl
      refine Task.meets_bind (P := Path.All P) ((Layout.asks_screenshotsDirectory _).meets ?_)
        fun p hp => Task.meets_pure fun directory hdirectory => Option.some.inj hdirectory ▸ hp
      intro m' hm'
      rw [(Layout.asks_screenshotsDirectory _).answer_eq hm'.setting]
      exact comes_screenshotsDirectory hP hplain hroot husable (hfound v rfl)
    · exact Task.meets_pure (by simp)

omit hroot

theorem meets_baseUrlOf {given : Option Text} (hgiven : ∀ t ∈ given, Text.Encodes t) :
    (baseUrlOf given).Meets outside (m.LearnsOf S) Text.Encodes Fault.Refuses := by
  have hsetting := hplain.mono hP.encodes
  have hI : ∀ m', m.LearnsOf S m' → m'.setting.All Text.Encodes := fun m' h => h.setting ▸ hsetting
  unfold baseUrlOf
  split
  next url => exact Task.meets_pure (hgiven url rfl)
  next =>
    refine Task.meets_bind (Task.meets_setVariable? hI _) fun found hfound => ?_
    refine Settings.meets_encodedText hconfigured hsetting husable.encodable _ ?_
    cases found with
    | none => exact Text.encodes_of _
    | some t => exact hfound t rfl

omit husable in
theorem meets_headlessOf (given : Option Bool) :
    (headlessOf given).Meets outside (m.LearnsOf S) (fun _ => True) Fault.Refuses := by
  have hsetting := hplain.mono hP.encodes
  have hI : ∀ m', m.LearnsOf S m' → m'.setting.All Text.Encodes := fun m' h => h.setting ▸ hsetting
  unfold headlessOf
  split
  · exact Task.meets_pure trivial
  refine Task.meets_bind (Settings.meets_value? hconfigured hsetting _) fun found _ => ?_
  split
  · exact Task.meets_pure trivial
  · refine Task.meets_bind (Task.meets_environment? hI _) fun v _ => ?_
    split <;> exact Task.meets_pure trivial

omit husable in
theorem meets_timeoutOf (given : Option Int) :
    (timeoutOf given).Meets outside (m.LearnsOf S) (fun _ => True) Fault.Refuses := by
  unfold timeoutOf
  split
  · exact Task.meets_pure trivial
  · exact Task.meets_bind (Settings.meets_int hconfigured (hplain.mono hP.encodes) _ _)
      fun _ _ => Task.meets_pure trivial

theorem meets_routesOf :
    routesOf.Meets outside (m.LearnsOf S) Routes.Encodes Fault.Refuses := by
  refine Task.meets_bind
    (Settings.meets_table hconfigured (hplain.mono hP.encodes) husable.encodable _)
    fun routes hroutes => ?_
  refine Task.meets_pure ?_
  split
  · simp [Routes.Encodes, Routes.standard]
  · exact hroutes

theorem meets_credentialsOf :
    credentialsOf.Meets outside (m.LearnsOf S) Credentials.Encodes Fault.Refuses := by
  have htext : ∀ keys : List Text, ∀ standard : String,
      (Settings.text keys standard).Meets outside (m.LearnsOf S) Text.Encodes Fault.Refuses :=
    fun keys standard => Settings.meets_encodedText hconfigured (hplain.mono hP.encodes)
      husable.encodable keys (Text.encodes_of standard)
  refine Task.meets_bind (htext _ _) fun studentIdField hstudentIdField => ?_
  refine Task.meets_bind (htext _ _) fun studentId hstudentId => ?_
  refine Task.meets_bind (htext _ _) fun passwordField hpasswordField => ?_
  refine Task.meets_bind (htext _ _) fun password hpassword => ?_
  refine Task.meets_bind (htext _ _) fun submitButton hsubmitButton => ?_
  exact Task.meets_pure ⟨hstudentIdField, hstudentId, hpasswordField, hpassword, hsubmitButton⟩

include hroot

/-- The options of a run are sound, or it is told why there are none. -/
theorem meets_load {given : Given} (hgiven : ∀ t ∈ given.baseUrl, Text.Encodes t)
    (hshots : given.screenshots = none) :
    (load given).Meets outside (m.LearnsOf S) (Sound P) Fault.Refuses := by
  have hsetting := hplain.mono hP.encodes
  have hint : ∀ keys standard, (Settings.int keys standard).Meets outside (m.LearnsOf S)
      (fun _ => True) Fault.Refuses := Settings.meets_int hconfigured hsetting
  have hscreens : (screenshotsOf given.screenshots).Meets outside (m.LearnsOf S)
      (fun shots => ∀ directory ∈ shots, directory.All P) Fault.Refuses :=
    hshots ▸ meets_screenshotsOf hconfigured hP hplain hroot husable
  have hbinary : (Settings.text ["e2e", "binary"] Gateway.standardBinary).Meets outside
      (m.LearnsOf S) (fun t => Text.Encodes t ∧ ∀ c ∈ t, c.val ≠ 0) Fault.Refuses := by
    refine (Settings.meets_text hconfigured hsetting _ _).mono ?_ fun _ h => h
    rintro t (rfl | h)
    · exact ⟨Text.encodes_of _, by decide⟩
    · exact ⟨h.encodable husable.encodable, husable.binary t h⟩
  refine Task.meets_bind (meets_baseUrlOf hconfigured hP hplain husable hgiven)
    fun baseUrl hbaseUrl => ?_
  refine Task.meets_bind (meets_headlessOf hconfigured hP hplain _) fun headless _ => ?_
  refine Task.meets_bind (meets_timeoutOf hconfigured hP hplain _) fun timeout _ => ?_
  refine Task.meets_bind (meets_routesOf hconfigured hP hplain husable) fun routes hroutes => ?_
  refine Task.meets_bind (meets_credentialsOf hconfigured hP hplain husable)
    fun credentials hcredentials => ?_
  refine Task.meets_bind hscreens fun screenshots hscreenshots => ?_
  refine Task.meets_bind (hint _ _) fun settle _ => ?_
  refine Task.meets_bind (hint _ _) fun fillSettle _ => ?_
  refine Task.meets_bind (hint _ _) fun verifySettle _ => ?_
  refine Task.meets_bind (hint _ _) fun defaultWait _ => ?_
  refine Task.meets_bind hbinary fun binary hname => Task.meets_pure ?_
  refine ⟨⟨hbaseUrl, fun directory hdirectory => ?_, hroutes, hcredentials, hname.1⟩, hname.2,
    hscreenshots⟩
  have hall := (hscreenshots directory hdirectory).mono hP.encodes
  exact ⟨hall.root, hall.parts⟩

end Options

end Acceptance
