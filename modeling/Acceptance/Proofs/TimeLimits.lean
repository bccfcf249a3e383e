import Acceptance.Machine.Playbook
import Acceptance.Proofs.Invocation
import Acceptance.Proofs.Limits

/-! # The time limit of the settings

A limit for the browser in the settings is handed to every command of a test and of a review. Only
closing a session and installing the browser have limits of their own. A single command that is
passed on to the browser is run with the usual limit, whatever the settings say. -/

namespace Acceptance

variable {t : Int} {outside : Outside} {m : Machine}

/-- The limits with which programs are run when that of the browser is `t`: closing a session and
installing the browser have their own. -/
inductive BrowserLimit (t : Int) : List Text → Int → Prop where
  | command (argv) : BrowserLimit t argv t
  | close (binary) : BrowserLimit t [binary, "close"] Session.closeTimeout
  | install {binary argv} : argv ∈ Install.commands binary → BrowserLimit t argv Install.timeout

namespace Gateway

theorem limit_of_ne_zero (standard : Int) (ht : t ≠ 0) : limit standard (some t) = t := by
  unfold limit
  split
  next h => exact absurd (Option.some.inj h) ht
  next h => exact (Option.some.inj h).symm
  next h => exact absurd h (by simp)

/-- A command is run with the limit that it sets. -/
theorem limited_run (binary : Text) (args : List Text) (silent : Bool) (ht : t ≠ 0)
    {allowed : List Text → Int → Prop} (h : allowed (binary :: args) t) :
    Limited allowed outside ((ofBinary binary).run args silent (some t)) m := by
  unfold run runWith ofBinary
  dsimp only
  rw [limit_of_ne_zero _ ht]
  exact .run h

end Gateway

/-- A task that speaks to a program keeps to the limits that its commands keep to. -/
theorem Speaks.limited {α : Type} {binary : Text} {kind : BrowserCall → Prop} {task : Task α}
    {allowed : List Text → Int → Prop} (h : Speaks (Gateway.ofBinary binary) kind task)
    (hkind : ∀ call, kind call → ∃ timeout, call.timeout = some timeout ∧ timeout ≠ 0 ∧
      allowed (binary :: call.args) timeout) : Limited allowed outside task m := by
  induction h generalizing m with
  | pure a => exact .pure a
  | fail fault => exact .alone (Task.alone_fail fault)
  | pause milliseconds => exact .alone (Task.alone_pause milliseconds)
  | enter state => exact .alone (Task.alone_change _)
  | @give call hcall =>
    obtain ⟨timeout, htimeout, hne, hallowed⟩ := hkind call hcall
    unfold Gateway.give
    rw [htimeout]
    exact Gateway.limited_run binary call.args call.silent hne hallowed
  | attempt _ ih => exact .attempt ih
  | bind _ _ ih ihnext => exact .next ih fun a _ => ihnext a

namespace Install

theorem limited_runAll {binary : Text} {list : List (List Text)}
    (h : ∀ argv ∈ list, argv ∈ commands binary) :
    Limited (BrowserLimit t) outside (runAll list) m := by
  induction list generalizing m with
  | nil => exact .pure _
  | cons argv rest ih =>
    rw [List.forall_mem_cons] at h
    refine .next (.run (.install h.1)) fun result m' => ?_
    split
    · exact ih h.2
    · exact .pure _

theorem limited_ensure (g : Gateway) : Limited (BrowserLimit t) outside (ensure g) m := by
  refine .next (.alone (Task.alone_read _)) fun isThere m' => ?_
  split
  · exact .pure _
  refine .next (limited_runAll fun _ h => h) fun succeeded m' => ?_
  split
  · exact .alone (Task.alone_read _)
  · exact .pure _

end Install

/-! ## Steps -/

namespace Performer

/-- All commands have the limit `t`. -/
structure HasLimit (p : Performer) (t : Int) : Prop where
  gateway : ∃ binary, p.gateway = Gateway.ofBinary binary
  timeouts : p.timeouts = Timeouts.uniform t
  ne_zero : t ≠ 0

variable {p : Performer} (hp : p.HasLimit t)
include hp

/-- What gives commands of steps keeps to the limit. -/
theorem limited_of_speaks {α : Type} {task : Task α} (h : p.SpeaksSteps task) :
    Limited (BrowserLimit t) outside task m := by
  obtain ⟨binary, hgateway⟩ := hp.gateway
  have hspeaks : Speaks (Gateway.ofBinary binary) p.StepCall task := hgateway ▸ h
  refine hspeaks.limited fun call hcall => ?_
  obtain ⟨timeout, htimeout, hsome⟩ := hcall.timeout
  obtain rfl : timeout = t := by
    rw [hp.timeouts] at htimeout
    simpa [Timeouts.uniform] using htimeout
  exact ⟨timeout, hsome, hp.ne_zero, .command _⟩

theorem limited_screenshot (path : Text) (full : Bool) :
    Limited (BrowserLimit t) outside (p.screenshot path full) m := by
  obtain ⟨binary, hgateway⟩ := hp.gateway
  have htimeout : p.timeouts.screenshot = t := by rw [hp.timeouts]; rfl
  refine .next ?_ fun _ _ => .pure _
  unfold command
  rw [hgateway, htimeout]
  exact Gateway.limited_run binary _ true hp.ne_zero (.command _)

end Performer

/-! ## Sessions -/

namespace Session

/-- A session that opens with the limit `t` keeps to it. -/
theorem limited_opened {α : Type} {s : Session} {binary : Text}
    (hgateway : s.gateway = Gateway.ofBinary binary) (htimeout : s.openTimeout = t) (ht : t ≠ 0)
    (url : Text) (headless : Bool) {body : Task α}
    (hbody : ∀ m', Limited (BrowserLimit t) outside body m') :
    Limited (BrowserLimit t) outside (s.opened url headless body) m := by
  let kind : BrowserCall → Prop := fun call => call = s.openCall url headless ∨ call = closeCall
  have hkind : ∀ call, kind call → ∃ timeout, call.timeout = some timeout ∧ timeout ≠ 0 ∧
      BrowserLimit t (binary :: call.args) timeout := by
    rintro call (rfl | rfl)
    · exact ⟨t, congrArg some htimeout, ht, .command _⟩
    · exact ⟨closeTimeout, rfl, by decide, .close binary⟩
  have hopen : Speaks s.gateway kind (s.open url headless) := speaks_open (.inl rfl) (.inr rfl)
  have hclose : Speaks s.gateway kind s.close := speaks_close (.inr rfl)
  rw [hgateway] at hopen hclose
  refine .next (.attempt (.next (hopen.limited hkind) fun _ m' => hbody m')) fun result _ => ?_
  exact .next (hclose.limited hkind) fun _ _ => .alone (Task.alone_ofExcept _)

end Session

/-! ## Tests -/

namespace Options

variable {options : Options} (h : options.timeout = some t) (ht : t ≠ 0)
include h ht

theorem performer_hasLimit : (options.performer options.gateway).HasLimit t where
  gateway := ⟨options.binary, rfl⟩
  timeouts := by
    unfold performer timeouts
    rw [h]
    split
    next h' => exact absurd h' (by simp)
    next h' => exact absurd (Option.some.inj h') ht
    next h' => rw [Option.some.inj h']
  ne_zero := ht

theorem session_openTimeout : (options.session options.gateway).openTimeout = t := by
  unfold session
  rw [h]
  split
  next h' => exact absurd h' (by simp)
  next h' => exact absurd (Option.some.inj h') ht
  next h' => exact (Option.some.inj h').symm

theorem limited_opened {α : Type} {body : Task α}
    (hbody : ∀ m', Limited (BrowserLimit t) outside body m') :
    Limited (BrowserLimit t) outside
      ((options.session options.gateway).opened options.baseUrl options.headless body) m :=
  Session.limited_opened rfl (session_openTimeout h ht) ht _ _ hbody

end Options

namespace Run

theorem limited_steps {perform : Text → Task Outcome}
    (h : ∀ step m, Limited (BrowserLimit t) outside (perform step) m) (number : Nat)
    (list : List Text) : Limited (BrowserLimit t) outside (steps perform number list) m := by
  induction list generalizing number m with
  | nil => exact .pure _
  | cons step rest ih =>
    refine .next (.attempt (h step m)) fun result m' => ?_
    dsimp only
    split
    · exact .pure _
    · exact .next (ih (number + 1)) fun _ _ => .pure _

variable {options : Options} (h : options.timeout = some t) (ht : t ≠ 0)
include h ht

theorem limited_captureFailure (feature : Feature) :
    Limited (BrowserLimit t) outside
      (captureFailure (options.performer options.gateway) feature options) m := by
  refine .next (.alone (asks_screenshotPath feature options).alone) fun path _ => ?_
  refine .next (.attempt (.next (.alone (Task.alone_ensureDirectory _)) fun _ _ => ?_)) ?_
  · exact Performer.limited_screenshot (Options.performer_hasLimit h ht) _ _
  · intro result m'
    split <;> exact .pure _

theorem limited_visit (feature : Feature) :
    Limited (BrowserLimit t) outside
      (visit (options.performer options.gateway) feature options) m := by
  have hp := Options.performer_hasLimit h ht
  refine .next (limited_steps (fun step m => ?_) 1 _) fun progress _ => ?_
  · exact Performer.limited_of_speaks hp (speaks_performOf _ feature step)
  · split
    · exact .pure _
    · exact .next (.attempt (limited_captureFailure h ht feature)) fun _ _ => .pure _

theorem limited_feature (f : Feature) :
    Limited (BrowserLimit t) outside (feature options.gateway f options) m := by
  refine .next (Install.limited_ensure _) fun ready _ => ?_
  split
  · refine .next (.alone (Task.alone_change _)) fun _ _ => ?_
    refine .next (.attempt (Options.limited_opened h ht fun m' => limited_visit h ht f)) ?_
    intro result m'
    split <;> exact .pure _
  · exact .pure _

theorem limited_features (list : List Feature) :
    Limited (BrowserLimit t) outside (features options.gateway options list) m := by
  induction list generalizing m with
  | nil => exact .pure _
  | cons f rest ih =>
    exact .next (limited_feature h ht f) fun _ _ => .next ih fun _ _ => .pure _

theorem limited_batch (all : List Feature) :
    Limited (BrowserLimit t) outside (batch options.gateway all options) m := by
  refine .next (Install.limited_ensure _) fun ready _ => ?_
  split
  · exact .next (limited_features h ht _) fun _ _ => .pure _
  · exact .pure _

end Run

/-! ## Reviews -/

namespace Review

theorem alone_configuredPages : configuredPages.Alone := by
  refine Task.alone_bind (Settings.alone_value? _) fun pages => ?_
  split
  · exact Task.alone_ofExcept _
  · exact Task.alone_pure _

section

variable {p : Performer} (hp : p.HasLimit t)
include hp

theorem limited_logIn (settle : Int) : Limited (BrowserLimit t) outside (logIn p settle) m := by
  refine Performer.limited_of_speaks hp (.bind (Performer.speaks_openUrl _) fun _ => ?_)
  exact .bind (.pause _) fun _ => .bind Performer.speaks_login fun _ => .pause _

theorem limited_showPage (directory : Path) (settle : Int) (page : Page) :
    Limited (BrowserLimit t) outside (showPage p directory settle page) m := by
  refine .next (Performer.limited_of_speaks hp (Performer.speaks_openUrl _)) fun _ _ => ?_
  refine .next (.alone (Task.alone_pause _)) fun _ _ => ?_
  refine .next (.alone (Task.alone_removeFile _)) fun _ _ => ?_
  refine .next (Performer.limited_screenshot hp _ _) fun taken _ => ?_
  split
  · refine .next (.alone (Task.alone_pathExists _)) fun isThere _ => ?_
    split <;> exact .pure _
  · exact .pure _

theorem limited_showAll (directory : Path) (settle : Int) (loggedIn : Bool) (pages : List Page) :
    Limited (BrowserLimit t) outside (showAll p directory settle loggedIn pages) m := by
  induction pages generalizing loggedIn m with
  | nil => exact .pure _
  | cons page rest ih =>
    unfold showAll
    extract_lets mustLogIn shown
    have hshown : ∀ u m, Limited (BrowserLimit t) outside (shown u) m := fun _ _ =>
      .next (limited_showPage hp _ _ _) fun _ _ => .next (ih _) fun _ _ => .pure _
    split
    · exact .next (limited_logIn hp settle) hshown
    · exact hshown () m

end

theorem limited_run {options : Options} (h : options.timeout = some t) (ht : t ≠ 0)
    (directory : Path) :
    Limited (BrowserLimit t) outside (run options.gateway options directory) m := by
  refine .next (Install.limited_ensure _) fun ready _ => ?_
  split
  · refine .next (.alone alone_configuredPages) fun pages _ => ?_
    refine .next (.alone (Settings.alone_int _ _)) fun settle _ => ?_
    refine .next ?_ fun shots _ => .next (.alone Layout.asks_now.alone) fun now _ =>
      .next (.alone (Project.alone_writeDocument _ _)) fun _ _ => .pure _
    refine .next (.alone (Task.alone_ensureDirectory _)) fun _ _ => ?_
    refine .next (.alone (Task.alone_change _)) fun _ _ => ?_
    exact Options.limited_opened h ht fun m' =>
      limited_showAll (Options.performer_hasLimit h ht) _ _ _ _
  · exact .alone (Task.alone_fail _)

end Review

/-! ## Reading the settings file -/

namespace Task

variable {α β : Type}

/-- The task changes nothing, and does not depend on the settings that are known. -/
def Looks (task : Task α) : Prop := ∀ outside m settings,
  task.run outside { m with settings } = ((task.run outside m).1, { m with settings })

theorem Looks.run_self {task : Task α} (h : task.Looks) (outside : Outside) (m : Machine) :
    task.run outside m = ((task.run outside m).1, m) := h outside m m.settings

theorem looks_pure (a : α) : (pure a : Task α).Looks := fun _ _ _ => rfl

theorem looks_fail (fault : Fault) : (fail fault : Task α).Looks := fun _ _ _ => rfl

theorem looks_read {f : Machine → α} (h : ∀ m settings, f { m with settings } = f m) :
    (read f).Looks := by
  intro _ m settings
  rw [run_read, run_read, h]

theorem Asks.looks {task : Task α} (h : task.Asks) : task.Looks := fun outside _ _ =>
  h.run outside rfl

theorem looks_attempt {task : Task α} (h : task.Looks) : (attempt task).Looks := by
  intro outside m settings
  rw [run_attempt, run_attempt, h]

theorem looks_bind {task : Task α} {f : α → Task β} (h : task.Looks) (hf : ∀ a, (f a).Looks) :
    (task >>= f).Looks := by
  intro outside m settings
  rw [run_bind, run_bind, h outside m settings, h.run_self outside m]
  cases (task.run outside m).1 with
  | error fault => rfl
  | ok a => exact hf a outside m settings

theorem looks_pathExists (p : Path) : (pathExists p).Looks := by
  unfold pathExists
  split
  · exact looks_pure _
  refine looks_bind (looks_read fun _ _ => rfl) fun located => ?_
  split
  · exact looks_read fun _ _ => rfl
  · exact looks_pure _
  · exact looks_pure _
  · exact looks_fail _

theorem looks_readText (p : Path) : (readText p).Looks := by
  have hpath : (checkPath p).Looks := by
    unfold checkPath
    split
    · exact looks_fail _
    · exact looks_pure _
  refine looks_bind (looks_bind hpath fun _ => looks_bind (looks_read fun _ _ => rfl) ?_) ?_
  · rintro (problem | content)
    · exact looks_fail _
    · exact looks_pure _
  · intro content
    split
    · exact looks_pure _
    · exact looks_fail _

end Task

/-! ## The limit that is set -/

namespace Machine

/-- The settings, read from the file now or before, are as `S` says. -/
structure Sets (S : Entries → Prop) (m : Machine) : Prop where
  file : ∀ outside entries, (Settings.load.run outside m).1 = .ok entries → S entries
  known : ∀ entries ∈ m.settings, S entries

/-- What was said of the settings can still be said. -/
def KeepsSettings (S : Entries → Prop) (m m' : Machine) : Prop := m.Sets S → m'.Sets S

instance (S : Entries → Prop) : IsPreorder Machine (KeepsSettings S) where
  refl _ := id
  trans _ _ _ h k := k ∘ h

end Machine

namespace Settings

variable {S : Entries → Prop} {m' : Machine}

theorem looks_load : load.Looks := by
  refine Task.looks_bind asks_file.looks fun p => ?_
  refine Task.looks_bind (Task.looks_pathExists p) fun isThere => ?_
  split
  · refine Task.looks_bind (Task.looks_attempt (Task.looks_readText p)) fun result => ?_
    split
    · exact (Task.asks_ofExcept _).looks
    · exact Task.looks_fail _
  · exact Task.looks_pure _

/-- The settings that are used are as was said, and they are kept. -/
theorem get_of_sets {result : Except Fault Entries} (hm : m.Sets S)
    (hrun : get.run outside m = (result, m')) :
    m'.Sets S ∧ ∀ entries, result = .ok entries → S entries := by
  unfold get at hrun
  rw [Task.run_read_bind] at hrun
  cases hsettings : m.settings with
  | some known =>
    rw [hsettings] at hrun
    obtain ⟨rfl, rfl⟩ := Prod.mk.inj hrun
    refine ⟨hm, fun entries h => ?_⟩
    exact Except.ok.inj h ▸ hm.known known hsettings
  | none =>
    rw [hsettings] at hrun
    dsimp only at hrun
    have hload := looks_load.run_self outside m
    cases hanswer : (load.run outside m).1 with
    | error fault =>
      rw [hanswer] at hload
      rw [Task.run_bind_error hload] at hrun
      obtain ⟨rfl, rfl⟩ := Prod.mk.inj hrun
      exact ⟨hm, by simp⟩
    | ok entries =>
      have hS := hm.file outside entries hanswer
      rw [hanswer] at hload
      rw [Task.run_bind_ok hload] at hrun
      obtain ⟨rfl, rfl⟩ := Prod.mk.inj hrun
      refine ⟨⟨fun outside others h => ?_, fun others h => ?_⟩, fun others h => ?_⟩
      · rw [looks_load outside m] at h
        exact hm.file outside others h
      · exact Option.some.inj h ▸ hS
      · exact Except.ok.inj h ▸ hS

theorem keeps_value? (keys : List Text) :
    (value? keys).Leaves outside (Machine.KeepsSettings S) := by
  have hget : get.Leaves outside (Machine.KeepsSettings S) := fun m hm =>
    (get_of_sets hm (Prod.ext rfl rfl)).1
  exact Task.leaves_bind hget fun _ => Task.leaves_pure _

theorem keeps_text (keys : List Text) (standard : Text) :
    (text keys standard).Leaves outside (Machine.KeepsSettings S) := by
  refine Task.leaves_bind (keeps_value? keys) fun v => ?_
  split <;> exact Task.leaves_pure _

end Settings

theorem LogLevel.keeps_configure {S : Entries → Prop} (given : Option Text) :
    (configure given).Leaves outside (Machine.KeepsSettings S) := by
  have hconfigured : configured.Leaves outside (Machine.KeepsSettings S) := by
    refine Task.leaves_bind (Task.leaves_attempt (Settings.keeps_text _ _)) fun result => ?_
    split
    · exact Task.leaves_pure _
    · exact Task.leaves_pure _
    · exact Task.leaves_fail _
  have hresolve : (resolve given).Leaves outside (Machine.KeepsSettings S) := by
    unfold resolve
    split
    · exact Task.leaves_bind (Task.leaves_pure _) fun _ => Task.leaves_ofExcept _
    refine Task.leaves_bind (Task.asks_setVariable? _).leaves fun name => ?_
    split
    · exact Task.leaves_bind (Task.leaves_pure _) fun _ => Task.leaves_ofExcept _
    · exact Task.leaves_bind hconfigured fun _ => Task.leaves_ofExcept _
  exact Task.leaves_bind hresolve fun _ => Task.leaves_pure _

namespace Options

/-- The settings set the limit of the browser to `t`. -/
def SetsTimeout (t : Int) (entries : Entries) : Prop :=
  Settings.find? ["e2e", "timeout_ms"] (.object entries) = some (.int t)

theorem keeps_baseUrlOf {S : Entries → Prop} (given : Option Text) :
    (baseUrlOf given).Leaves outside (Machine.KeepsSettings S) := by
  unfold baseUrlOf
  split
  · exact Task.leaves_pure _
  exact Task.leaves_bind (Task.asks_setVariable? _).leaves fun _ => Settings.keeps_text _ _

theorem keeps_headlessOf {S : Entries → Prop} (given : Option Bool) :
    (headlessOf given).Leaves outside (Machine.KeepsSettings S) := by
  unfold headlessOf
  split
  · exact Task.leaves_pure _
  refine Task.leaves_bind (Settings.keeps_value? _) fun v => ?_
  split
  · exact Task.leaves_pure _
  · refine Task.leaves_bind (Task.asks_environment? _).leaves fun _ => ?_
    split <;> exact Task.leaves_pure _

variable {m' : Machine} (ht : 0 < t)
include ht

theorem timeoutOf_of_sets {timeout : Option Int} (hm : m.Sets (SetsTimeout t))
    (hrun : (timeoutOf none).run outside m = (.ok timeout, m')) : timeout = some t := by
  obtain ⟨n, m₁, hint, hrest⟩ := Task.run_bind_eq_ok hrun
  obtain ⟨v, m₂, hvalue, hn⟩ := Task.run_bind_eq_ok hint
  obtain ⟨entries, m₃, hget, hfind⟩ := Task.run_bind_eq_ok hvalue
  have hS := (Settings.get_of_sets hm hget).2 entries rfl
  have hv : v = some (.int t) := (Except.ok.inj (Prod.mk.inj hfind).1).symm.trans hS
  subst hv
  have hn' : (if t < 0 then 0 else t) = n := Except.ok.inj (Prod.mk.inj hn).1
  have hrest' : (if n = 0 then none else some n) = timeout := Except.ok.inj (Prod.mk.inj hrest).1
  rw [if_neg (by omega)] at hn'
  rw [← hrest', if_neg (by omega), hn']

/-- The options of a run have the limit that the settings set, unless it is given. -/
theorem timeout_of_sets {given : Given} {options : Options} (hgiven : given.timeout = none)
    (hm : m.Sets (SetsTimeout t)) (hrun : (load given).run outside m = (.ok options, m')) :
    options.timeout = some t := by
  obtain ⟨baseUrl, m₁, h₁, hrun⟩ := Task.run_bind_eq_ok hrun
  obtain ⟨headless, m₂, h₂, hrun⟩ := Task.run_bind_eq_ok hrun
  obtain ⟨timeout, m₃, h₃, hrun⟩ := Task.run_bind_eq_ok hrun
  have hm₁ := (keeps_baseUrlOf given.baseUrl).of_run h₁ hm
  have hm₂ := (keeps_headlessOf given.headless).of_run h₂ hm₁
  rw [hgiven] at h₃
  rw [← timeoutOf_of_sets ht hm₂ h₃]
  -- What comes after the limit in the options leaves it alone.
  obtain ⟨_, _, -, hrun⟩ := Task.run_bind_eq_ok hrun
  obtain ⟨_, _, -, hrun⟩ := Task.run_bind_eq_ok hrun
  obtain ⟨_, _, -, hrun⟩ := Task.run_bind_eq_ok hrun
  obtain ⟨_, _, -, hrun⟩ := Task.run_bind_eq_ok hrun
  obtain ⟨_, _, -, hrun⟩ := Task.run_bind_eq_ok hrun
  obtain ⟨_, _, -, hrun⟩ := Task.run_bind_eq_ok hrun
  obtain ⟨_, _, -, hrun⟩ := Task.run_bind_eq_ok hrun
  obtain ⟨_, _, -, hrun⟩ := Task.run_bind_eq_ok hrun
  rw [← Except.ok.inj (Prod.mk.inj hrun).1]

end Options

/-! ## Commands -/

namespace CommandLine

variable {α : Type} {allowed : List Text → Int → Prop}

theorem limited_prepared {task : Task α} {next : α → Task Nat} (onFault : Fault → Option Envelope)
    (h : Limited allowed outside task m)
    (hnext : ∀ a m', task.run outside m = (.ok a, m') → Limited allowed outside (next a) m') :
    Limited allowed outside (prepared task onFault next) m := by
  refine .bind (.attempt h) fun result m' hrun => ?_
  have htask : task.run outside m = (result, m') := by
    rw [Task.run_attempt] at hrun
    obtain ⟨hresult, hmachine⟩ := Prod.mk.inj hrun
    exact Prod.ext (Except.ok.inj hresult) hmachine
  cases result with
  | ok a => exact hnext a m' htask
  | error fault =>
    dsimp only
    split
    · exact .alone (alone_emit _)
    · exact .alone (Task.alone_fail _)

theorem alone_optionsAndFeature (given : Options.Given) (id : Text) :
    (optionsAndFeature given id).Alone :=
  Task.alone_bind (Options.alone_load _) fun _ =>
    Task.alone_bind (Project.alone_feature _) fun _ => Task.alone_pure _

theorem alone_next : RunId.next.Alone :=
  Task.alone_bind (Task.alone_change _) fun _ => Task.alone_read _

section

variable (ht : 0 < t) (hm : m.Sets (Options.SetsTimeout t)) {given : Options.Given}
  (hgiven : given.timeout = none)
include ht hm hgiven

theorem timeout_optionsAndFeature {id : Text} {options : Options} {feature : Feature}
    {m' : Machine} (hrun : (optionsAndFeature given id).run outside m = (.ok (options, feature), m')) :
    options.timeout = some t := by
  obtain ⟨options', m₁, hload, hrun⟩ := Task.run_bind_eq_ok hrun
  obtain ⟨feature', m₂, -, hrun⟩ := Task.run_bind_eq_ok hrun
  obtain ⟨rfl, -⟩ := Prod.mk.inj (Except.ok.inj (Prod.mk.inj hrun).1)
  exact Options.timeout_of_sets ht hgiven hm hload

theorem limited_runTestOne (id : Text) :
    Limited (BrowserLimit t) outside (runTestOne given id) m := by
  refine limited_prepared _ (.alone (alone_optionsAndFeature given id)) ?_
  rintro ⟨options, feature⟩ m' hrun
  have htimeout := timeout_optionsAndFeature ht hm hgiven hrun
  refine .next (.alone alone_next) fun runId _ => .next (.alone (Task.alone_change _)) fun _ _ => ?_
  refine .next (Run.limited_feature htimeout (by omega) _) fun report _ => ?_
  exact .next (.alone (alone_writeRun _ _ _ _)) fun _ _ => .alone (alone_emit _)

theorem limited_runTestAll : Limited (BrowserLimit t) outside (runTestAll given) m := by
  have halone : (optionsAndFeatures given).Alone :=
    Task.alone_bind (Options.alone_load _) fun _ =>
      Task.alone_bind Project.alone_allFeatures fun _ => Task.alone_pure _
  refine limited_prepared _ (.alone halone) ?_
  rintro ⟨options, features⟩ m' hrun
  obtain ⟨options', m₁, hload, hrun⟩ := Task.run_bind_eq_ok hrun
  obtain ⟨features', m₂, -, hrun⟩ := Task.run_bind_eq_ok hrun
  obtain ⟨rfl, rfl⟩ := Prod.mk.inj (Except.ok.inj (Prod.mk.inj hrun).1)
  have htimeout := Options.timeout_of_sets ht hgiven hm hload
  refine .next (.alone alone_next) fun runId _ => .next (.alone (Task.alone_change _)) fun _ _ => ?_
  refine .next (Run.limited_batch htimeout (by omega) _) fun report _ => ?_
  exact .next (.alone (alone_writeRun _ _ _ _)) fun _ _ => .alone (alone_emit _)

theorem limited_runTest (id : Option Text) (all : Bool) :
    Limited (BrowserLimit t) outside (runTest id all given) m := by
  unfold runTest
  split
  · exact .alone (alone_emit _)
  · exact .alone (alone_emit _)
  · exact limited_runTestOne ht hm hgiven _
  · exact limited_runTestAll ht hm hgiven

theorem limited_runVerify (id : Text) (notes : Option Text) :
    Limited (BrowserLimit t) outside (runVerify id notes given) m := by
  refine limited_prepared _ (.alone (alone_optionsAndFeature given id)) ?_
  rintro ⟨options, feature⟩ m' hrun
  have htimeout := timeout_optionsAndFeature ht hm hgiven hrun
  refine .next (.alone alone_next) fun runId _ => .next (.alone (Task.alone_change _)) fun _ _ => ?_
  refine .next (Run.limited_feature htimeout (by omega) _) fun report _ => ?_
  refine .next (.alone (alone_writeRun _ _ _ _)) fun runPath _ => ?_
  exact .next (.alone (alone_acceptIfPassed _ _ _)) fun _ _ => .alone (alone_emit _)

theorem limited_runReview (output : Text) :
    Limited (BrowserLimit t) outside (runReview given output) m := by
  have hreview : Limited (BrowserLimit t) outside (review given output) m := by
    refine .bind (.alone (Options.alone_load _)) fun options m' hload => ?_
    have htimeout := Options.timeout_of_sets ht hgiven hm hload
    refine .next (.alone (Task.asks_expandHome _).alone) fun directory _ => ?_
    refine .next (.alone (Layout.asks_fromProject _).alone) fun directory _ => ?_
    refine .next (.alone (Task.alone_change _)) fun _ _ => ?_
    exact Review.limited_run htimeout (by omega) _
  refine .next (.attempt hreview) fun result _ => ?_
  split
  · exact .next (.pure _) fun _ _ => .alone (alone_emit _)
  · split
    · exact .alone (alone_emit _)
    · exact .alone (Task.alone_fail _)

end

/-- A command that is passed on without a limit is run with the usual one. -/
theorem limited_runBrowser (args : List Text) :
    Limited (fun _ timeout => timeout = ChildProcess.standardTimeout) outside
      (runBrowser args none) m := by
  refine limited_prepared _ (.alone (Options.alone_load _)) fun options m' _ => ?_
  refine .next (.alone (Task.alone_read _)) fun isThere _ => ?_
  split
  · refine .next (.alone (Task.alone_change _)) fun _ _ => ?_
    have hrun : options.gateway.run args true none =
        ChildProcess.run (options.binary :: args) true ChildProcess.standardTimeout [] := rfl
    rw [hrun]
    exact .next (.run rfl) fun _ _ => .alone (alone_emit _)
  · exact .alone (alone_emit _)

/-! ## Command lines -/

/-- Does the command test features or review pages? -/
def drivesBrowser : Command → Bool
  | .test .. | .verify .. | .review .. => true
  | _ => false

theorem limited_runCommand (ht : 0 < t) (hm : m.Sets (Options.SetsTimeout t)) {c : Command}
    (hc : drivesBrowser c = true) : Limited (BrowserLimit t) outside (runCommand c) m := by
  cases c with
  | test id all includePending baseUrl headless => exact limited_runTest ht hm rfl id all
  | verify id notes baseUrl headless => exact limited_runVerify ht hm rfl id notes
  | review baseUrl output headless => exact limited_runReview ht hm rfl output
  | _ => simp [drivesBrowser] at hc

theorem limited_line {args : List Text} {c : Command} {allowed : List Text → Int → Prop}
    {S : Entries → Prop} (hc : command? args = some c) (hm : m.Sets S)
    (h : ∀ m', m'.Sets S → Limited allowed outside (runCommand c) m') :
    Limited allowed outside (run args) m := by
  rcases run_eq args with ⟨hnone, -⟩ | ⟨c', name, level, hc', hargs⟩
  · rw [hc] at hnone
    exact absurd hnone (by simp)
  obtain rfl : c = c' := Option.some.inj (hc.symm.trans hc')
  rw [hargs]
  refine limited_prepared _ (.alone (LogLevel.alone_configure level)) fun u m' hrun => ?_
  exact h m' ((LogLevel.keeps_configure level).of_run hrun hm)

/-- The settings set a limit for the browser. Then tests and reviews run every command with it, but
for closing a session and installing the browser: no child is watched longer, and nothing that one
would do later can be told. A command that is passed on to the browser is run with the usual limit
all the same. -/
theorem limits_of_settings (outside : Outside) (ht : 0 < t)
    (hm : m.Sets (Options.SetsTimeout t)) {args : List Text} {c : Command}
    (hc : command? args = some c) :
    (drivesBrowser c = true → Limited (BrowserLimit t) outside (run args) m ∧
      (∀ child, (ChildProcess.watchTime child t : Int) ≤ t) ∧
      ∀ other, outside.Alike (BrowserLimit t) other →
        (run args).run other m = (run args).run outside m) ∧
    ∀ operands, c = .browser operands none →
      Limited (fun _ timeout => timeout = ChildProcess.standardTimeout) outside (run args) m := by
  refine ⟨fun hdrives => ?_, ?_⟩
  · have hlimited : Limited (BrowserLimit t) outside (run args) m :=
      limited_line hc hm fun m' hm' => limited_runCommand ht hm' hdrives
    refine ⟨hlimited, fun child => ?_, fun other halike => hlimited.blind halike⟩
    have hwatch := ChildProcess.watchTime_le child t
    omega
  · rintro operands rfl
    exact limited_line hc hm fun m' _ => limited_runBrowser operands

end CommandLine

/-- A number that is found where it is not the usual one is in the settings. -/
theorem Settings.sets_of_int {keys : List Text} {standard n : Int} (outside : Outside)
    (hfresh : m.settings = none) (hne : n ≠ standard)
    (h : ((int keys standard).run outside m).1.toOption = some n) :
    m.Sets fun entries => find? keys (.object entries) = some (.int n) where
  file := by
    intro other entries hload
    rw [alone_load outside other] at hload
    rcases hrun : (int keys standard).run outside m with ⟨fault | found, m'⟩ <;> rw [hrun] at h
    · exact absurd h (by simp [Except.toOption])
    obtain rfl : found = n := by simpa [Except.toOption] using h
    obtain ⟨v, m₁, hvalue, hfound⟩ := Task.run_bind_eq_ok hrun
    obtain ⟨read, m₂, hget, hfind⟩ := Task.run_bind_eq_ok hvalue
    have hread : read = entries := by
      unfold get at hget
      rw [Task.run_read_bind, hfresh] at hget
      obtain ⟨first, m₃, hfirst, hget⟩ := Task.run_bind_eq_ok hget
      rw [hfirst] at hload
      rw [← Except.ok.inj hload]
      exact (Except.ok.inj (Prod.mk.inj hget).1).symm
    obtain rfl : find? keys (.object entries) = v := hread ▸ Except.ok.inj (Prod.mk.inj hfind).1
    split at hfound
    next k hk =>
      have hk' : (if k < 0 then standard else k) = found := Except.ok.inj (Prod.mk.inj hfound).1
      split at hk'
      · exact absurd hk'.symm hne
      · rw [hk, hk']
    next => exact absurd (Except.ok.inj (Prod.mk.inj hfound).1).symm hne
  known := by simp [hfresh]

/-! ## Five seconds -/

namespace Tuned

/-- A settings file with a limit of five seconds. -/
def settingsText : Text := "[e2e]\ntimeout_ms = 5000\n"

/-- A machine with that settings file and a browser. -/
def machine : Machine :=
  { Machine.bare ["agent-browser"] with
    environment := [("LRA_CONFIG_PATH", "/lra.toml")]
    files := [(["lra.toml"], .file (settingsText.flatMap Utf8.bytesOf) false)] }

def openLine : List Text := ["agent-browser", "open", "http://a.test"]

/-- A browser that takes some time to open a page. -/
def lasting (milliseconds : Nat) : Outside :=
  { Playbook.outside [] [] 0 with
    launch := fun _ l =>
      { answer := .ok (if l.argv = openLine then
          { Playbook.quietChild with duration := some milliseconds } else Playbook.quietChild)
        effect := fun _ s => s } }

theorem sets_machine : machine.Sets (Options.SetsTimeout 5000) :=
  Settings.sets_of_int (lasting 0) rfl (show (5000 : Int) ≠ 0 by decide) (by decide +kernel)

theorem limits_of_settings_verify :
    CommandLine.command? ["verify", "feat-001"] = some (.verify "feat-001" none none none) ∧
      Limited (BrowserLimit 5000) (lasting 20000) (CommandLine.run ["verify", "feat-001"]) machine := by
  have hc : CommandLine.command? ["verify", "feat-001"] =
      some (.verify "feat-001" none none none) := by decide +kernel
  exact ⟨hc, ((CommandLine.limits_of_settings (lasting 20000) (by decide) sets_machine hc).1 rfl).1⟩

/-- After five seconds there is no telling how long the browser would take to open the page. -/
theorem alike_lasting : (lasting 20000).Alike (BrowserLimit 5000) (lasting 25000) where
  check := rfl
  browse := rfl
  effect := fun _ _ => rfl
  answer := by
    intro history l
    by_cases hline : l.argv = openLine
    · refine .inr ⟨{ Playbook.quietChild with duration := some 20000 }, some 25000, ?_, ?_, ?_⟩
      · simp [lasting, hline]
      · simp [lasting, hline]
      · rintro timeout hallowed
        rw [hline] at hallowed
        cases hallowed with
        | command => exact ⟨⟨by decide, by decide⟩, ⟨by decide, by decide⟩⟩
        | install h => simp [Install.commands, openLine] at h
    · exact .inl (by simp [lasting, hline])

/-- A command that is passed on goes on for twenty seconds. -/
theorem passed_on_for_long :
    machine.Sets (Options.SetsTimeout 5000) ∧
      ((CommandLine.run ["browser", "open", "http://a.test"]).run (lasting 20000) machine).2.elapsed =
        20000 ∧
      ¬ Limited (BrowserLimit 5000) (lasting 20000)
        (CommandLine.run ["browser", "open", "http://a.test"]) machine := by
  have htwenty : ((CommandLine.run ["browser", "open", "http://a.test"]).run (lasting 20000)
      machine).2.elapsed = 20000 := by decide +kernel
  have hmore : ((CommandLine.run ["browser", "open", "http://a.test"]).run (lasting 25000)
      machine).2.elapsed = 25000 := by decide +kernel
  refine ⟨sets_machine, htwenty, fun hlimited => ?_⟩
  rw [hlimited.blind alike_lasting, htwenty] at hmore
  exact absurd hmore (by decide)

end Tuned

end Acceptance
