import Acceptance.Proofs.Addresses
import Acceptance.Proofs.FeatureTest
import Acceptance.Proofs.Performing
import Acceptance.Proofs.Sparing
import Acceptance.Run.Review

/-! # Taking the screenshots of a review

The pages are shown in order, each by one command that opens it and one that takes its screenshot.
The file of a page is gone right before its screenshot, so what is there afterwards was made by it.
-/

namespace Acceptance

variable {outside : Outside} {m m₁ m' : Machine} {path : Path}

/-! ## Looking for files and removing them -/

/-- Is there something at the path? -/
def Machine.hasPath (m : Machine) (path : Path) : Bool :=
  (Task.pathProblem? path).isNone &&
    match m.files.locate m.directory path with
    | .ok place => (m.files.get? place).isSome
    | .error _ => false

namespace Task

theorem pathExists_eq_ok {isThere : Bool}
    (h : (pathExists path).run outside m = (.ok isThere, m')) :
    m' = m ∧ isThere = m.hasPath path := by
  refine ⟨(Leaves.of_run (R := Eq) (leaves_pathExists path) h).symm, ?_⟩
  unfold pathExists at h
  unfold Machine.hasPath
  split at h
  next hproblem => simp [hproblem, ← Except.ok.inj (Prod.mk.inj h).1]
  next hproblem =>
  rw [run_read_bind] at h
  split at h
  next place hlocate =>
    simp only [run_read, Prod.mk.injEq, Except.ok.injEq] at h
    simp [hproblem, hlocate, ← h.1]
  next hlocate => simp [hlocate, ← Except.ok.inj (Prod.mk.inj h).1]
  next hlocate => simp [hlocate, ← Except.ok.inj (Prod.mk.inj h).1]
  next => simp at h

/-- What removing a file does: there was none, or it is gone. -/
theorem removeFile_eq_ok (h : (removeFile path).run outside m = (.ok (), m')) :
    m' = m ∧ m.hasPath path = false ∨
      ∃ place content executable, m.files.locate m.directory path = .ok place ∧
        m.files.get? place = some (.file content executable) ∧
        m' = { m with files := m.files.remove place } := by
  unfold removeFile at h
  obtain ⟨_, m₁, hfit, hremoved⟩ := run_bind_eq_ok h
  obtain rfl : m₁ = m := by
    unfold checkPath at hfit
    split at hfit
    · simp at hfit
    · exact (Prod.mk.inj hfit).2.symm
  rw [run_read_bind] at hremoved
  unfold FileTree.removeFile at hremoved
  cases hlocate : m₁.files.locate m₁.directory path with
  | error problem =>
    simp only [hlocate, bind, Except.bind] at hremoved
    cases problem <;> simp at hremoved
    exact .inl ⟨hremoved.symm, by simp [Machine.hasPath, hlocate]⟩
  | ok place =>
    simp only [hlocate, bind, Except.bind] at hremoved
    cases hnode : m₁.files.get? place with
    | none =>
      simp only [hnode, run_pure, Prod.mk.injEq, true_and] at hremoved
      exact .inl ⟨hremoved.symm, by simp [Machine.hasPath, hlocate, hnode]⟩
    | some node =>
      cases node with
      | directory => simp [hnode] at hremoved
      | file content executable =>
        simp only [hnode, run_change, Prod.mk.injEq, true_and] at hremoved
        exact .inr ⟨place, content, executable, rfl, hnode, hremoved.symm⟩

/-- Once the file at a path was removed, nothing is found there. -/
theorem hasPath_of_removeFile (h : (removeFile path).run outside m = (.ok (), m')) :
    m'.hasPath path = false := by
  rcases removeFile_eq_ok h with ⟨rfl, hnone⟩ | ⟨place, content, executable, hlocate, hfile, rfl⟩
  · exact hnone
  have hroot : place ≠ [] := by
    rintro rfl
    simp at hfile
  have hgone : (m.files.remove place).get? place = none :=
    FileTree.get?_remove_of_below m.files List.prefix_rfl hroot
  -- The way to the place may itself lead through what is gone; then nothing is found, either.
  have hleads : (m.files.remove place).locate m.directory path = .ok place ∨
      (m.files.remove place).locate m.directory path = .error .missing := by
    unfold FileTree.locate at hlocate ⊢
    split at hlocate
    · simp at hlocate
    next hlength =>
      rw [if_neg hlength, ← hlocate]
      exact FileTree.walk_remove _ _ _ _
  rcases hleads with h | h <;> simp [Machine.hasPath, h, hgone]

theorem removeFile_calls (h : (removeFile path).run outside m = (.ok (), m')) :
    m'.calls = m.calls := by
  rcases removeFile_eq_ok h with ⟨rfl, -⟩ | ⟨place, content, executable, -, -, rfl⟩ <;> rfl

end Task

/-! ## Commands of a kind -/

/-- Commands of a kind were given, and no other program was called. -/
def Commands (g : Gateway) (outside : Outside) (kind : BrowserCall → Prop) (m m' : Machine) :
    Prop :=
  ∃ es, Commanded g outside m es m' ∧ ∀ e ∈ es, kind e.call

section

variable {g : Gateway} {kind : BrowserCall → Prop}

instance : IsPreorder Machine (Commands g outside kind) where
  refl _ := ⟨[], .rest rfl, by simp⟩
  trans _ _ _ := by
    rintro ⟨es, hes, hkind⟩ ⟨fs, hfs, hkind'⟩
    refine ⟨es ++ fs, hes.append hfs, fun e he => ?_⟩
    rcases List.mem_append.mp he with he | he
    · exact hkind e he
    · exact hkind' e he

theorem Commands.of_calls (h : m'.calls = m.calls) : Commands g outside kind m m' :=
  ⟨[], .rest h, by simp⟩

theorem Tells.commands (h : Tells g outside kind m m') : Commands g outside kind m m' :=
  h.imp fun _ => And.imp_left Talk.commanded

theorem Speaks.commands {α : Type} {t : Task α} (h : Speaks g kind t) (outside : Outside) :
    t.Leaves outside (Commands g outside kind) :=
  (h.tells outside).mono fun _ _ => Tells.commands

theorem Task.commands_removeFile (path : Path) :
    (removeFile path).Leaves outside (Commands g outside kind) := by
  unfold removeFile checkPath
  refine leaves_bind ?_ fun _ => leaves_bind (leaves_read _) fun result => ?_
  · split
    · exact leaves_fail _
    · exact leaves_pure _
  · split
    · exact leaves_change fun _ => .of_calls rfl
    · exact leaves_pure _
    · exact leaves_fail _

end

/-! ## Logging in -/

/-- The commands of a deed. -/
def Deed.said : Deed → List Exchange
  | .gives e => [e]
  | .rests _ => []

theorem Deed.said_gives (es : List Exchange) : (es.map Deed.gives).flatMap Deed.said = es := by
  induction es with
  | nil => rfl
  | cons e es ih => exact congrArg (e :: ·) ih

theorem Course.talk {g : Gateway} {deeds : List Deed} (h : Course g outside m deeds m') :
    Talk g outside m (deeds.flatMap Deed.said) m' := by
  induction h with
  | ends => exact .refl
  | gives hgive _ ih => exact .said .rfl hgive ih
  | rests _ ih => exact ih.quiet_append (quiet_passed _ _)

namespace Review

open Performer (Chain)

variable {p : Performer} {directory : Path} {settle : Int} {page : Page} {pages : List Page}
  {loggedIn : Bool} {shots : List Screenshot}

/-- The commands of logging in: the page for it is opened, both fields are tried one after the other,
and the button is pressed. -/
inductive LogInSaid (p : Performer) : List Exchange → Prop where
  | said {opened pressed first second : CommandResult} {es fs : List Exchange} :
    Chain p.studentIdAttempts es first → Chain p.passwordAttempts fs second →
    LogInSaid p (⟨p.openCall (p.resolveUrl "/login"), .ok opened⟩ ::
      (es ++ (fs ++ [⟨p.submitCall, .ok pressed⟩])))

theorem openUrl_eq (p : Performer) (url : Text) : p.openUrl url = p.gateway.give (p.openCall url) :=
  rfl

/-- Opening an address and waiting for the page. -/
theorem talk_opened {url : Text} {opened : CommandResult} {m₂ : Machine}
    (hopen : (p.openUrl url).run outside m = (.ok opened, m₁))
    (hrests : (Task.pause settle).run outside m₁ = (.ok (), m₂)) :
    Talk p.gateway outside m [⟨p.openCall url, .ok opened⟩] m₂ := by
  rw [openUrl_eq] at hopen
  exact .said .rfl hopen (.silence ((Task.quiet_pause settle).of_run hrests))

theorem logIn_eq_ok (h : (logIn p settle).run outside m = (.ok (), m')) :
    ∃ said, LogInSaid p said ∧ Talk p.gateway outside m said m' := by
  unfold logIn at h
  obtain ⟨opened, m₁, hopen, h⟩ := Task.run_bind_eq_ok h
  obtain ⟨_, m₂, hrests, h⟩ := Task.run_bind_eq_ok h
  obtain ⟨outcome, m₃, hlogin, hrests'⟩ := Task.run_bind_eq_ok h
  obtain ⟨es, fs, first, second, pressed, outcome', last, hrun, hcourse, hchain, hchain', -⟩ :=
    Performer.logsIn_of_ok hlogin
  obtain rfl : last = m₃ := (Prod.mk.inj (hrun.symm.trans hlogin)).2
  have htalk : Talk p.gateway outside m₂ (es ++ (fs ++ [⟨p.submitCall, .ok pressed⟩])) last := by
    simpa [Deed.said_gives, Deed.said] using hcourse.talk
  have hsaid := (talk_opened hopen hrests).append htalk
  exact ⟨_, .said hchain hchain', hsaid.append_quiet ((Task.quiet_pause settle).of_run hrests')⟩

/-! ## Showing pages -/

/-- The command that takes the screenshot of a whole page. -/
def shotCall (p : Performer) (path : Path) : BrowserCall :=
  { args := Performer.screenshotArgs path.toText true
    silent := true
    timeout := some p.timeouts.screenshot }

/-- A page that was shown. -/
structure Showing where
  page : Page
  /-- The commands of logging in before it, if there are any. -/
  logIn : List Exchange
  /-- The answer to the command that opens the page. -/
  opened : CommandResult
  /-- The answer to the command that takes the screenshot. -/
  taken : CommandResult
  /-- The machine right before the screenshot. -/
  before : Machine
  /-- The machine right after the screenshot. -/
  after : Machine

namespace Showing

/-- The command that opens the page, with its answer. -/
def opening (p : Performer) (s : Showing) : Exchange :=
  ⟨p.openCall (p.resolveUrl s.page.path), .ok s.opened⟩

/-- The commands of showing the page. -/
def said (p : Performer) (directory : Path) (s : Showing) : List Exchange :=
  s.logIn ++ [s.opening p, ⟨shotCall p (target directory s.page), .ok s.taken⟩]

/-- The screenshot succeeded, and its file was there right after it. -/
def isReported (directory : Path) (s : Showing) : Bool :=
  s.taken.success && s.after.hasPath (target directory s.page)

def screenshot (directory : Path) (s : Showing) : Screenshot :=
  { name := s.page.name, label := s.page.label, path := (target directory s.page).toText }

end Showing

/-- What is reported of the pages that were shown. -/
def reported (directory : Path) (showings : List Showing) : List Screenshot :=
  (showings.filter (·.isReported directory)).map (·.screenshot directory)

/-- Pages are shown one after the other; `loggedIn` says whether someone logged in before the first
of them. -/
inductive Tour (p : Performer) (outside : Outside) (directory : Path) :
    Bool → Machine → List Showing → Machine → Prop where
  | ended {loggedIn : Bool} {m : Machine} : Tour p outside directory loggedIn m [] m
  | shows {loggedIn : Bool} {m m₁ m' : Machine} {s : Showing} {rest : List Showing} :
    (if s.page.requiresLogin = true ∧ loggedIn = false then LogInSaid p s.logIn
      else s.logIn = []) →
    Talk p.gateway outside m (s.logIn ++ [s.opening p]) m₁ →
    (Task.removeFile (target directory s.page)).run outside m₁ = (.ok (), s.before) →
    (p.gateway.give (shotCall p (target directory s.page))).run outside s.before =
      (.ok s.taken, s.after) →
    Tour p outside directory (loggedIn || s.page.requiresLogin) s.after rest m' →
    Tour p outside directory loggedIn m (s :: rest) m'

theorem showPage_eq_ok {shot : Option Screenshot}
    (h : (showPage p directory settle page).run outside m = (.ok shot, m')) :
    ∃ opened taken m₁ before,
      Talk p.gateway outside m [⟨p.openCall (p.resolveUrl page.path), .ok opened⟩] m₁ ∧
      (Task.removeFile (target directory page)).run outside m₁ = (.ok (), before) ∧
      (p.gateway.give (shotCall p (target directory page))).run outside before =
        (.ok taken, m') ∧
      ∀ logIn, let s : Showing := ⟨page, logIn, opened, taken, before, m'⟩
        shot.toList = reported directory [s] := by
  unfold showPage at h
  obtain ⟨opened, m₁, hopen, h⟩ := Task.run_bind_eq_ok h
  obtain ⟨_, m₂, hrests, h⟩ := Task.run_bind_eq_ok h
  obtain ⟨_, before, hremoved, h⟩ := Task.run_bind_eq_ok h
  obtain ⟨succeeded, after, hshot, h⟩ := Task.run_bind_eq_ok h
  unfold Performer.screenshot at hshot
  obtain ⟨taken, _, hgive, hsucceeded⟩ := Task.run_bind_eq_ok hshot
  obtain ⟨hsuccess, rfl⟩ := Prod.mk.inj hsucceeded
  obtain rfl := Except.ok.inj hsuccess
  cases htaken : taken.success with
  | false =>
    rw [htaken] at h
    obtain ⟨hshot, rfl⟩ := Prod.mk.inj h
    obtain rfl := Except.ok.inj hshot
    exact ⟨opened, taken, m₂, before, talk_opened hopen hrests, hremoved, hgive,
      fun _ => by simp [reported, Showing.isReported, htaken]⟩
  | true =>
    rw [htaken, if_pos rfl] at h
    obtain ⟨isThere, m₃, hexists, h⟩ := Task.run_bind_eq_ok h
    obtain ⟨rfl, rfl⟩ := Task.pathExists_eq_ok hexists
    refine ⟨opened, taken, m₂, before, talk_opened hopen hrests, hremoved, ?_, fun _ => ?_⟩
    · split at h <;> exact (Prod.mk.inj h).2 ▸ hgive
    · split at h
      next hthere =>
        obtain ⟨hshot, rfl⟩ := Prod.mk.inj h
        obtain rfl := Except.ok.inj hshot
        simp [reported, Showing.isReported, Showing.screenshot, htaken, hthere]
      next hthere =>
        obtain ⟨hshot, rfl⟩ := Prod.mk.inj h
        obtain rfl := Except.ok.inj hshot
        simp [reported, Showing.isReported, htaken, hthere]

/-- What happens before a page is shown: someone logs in, if the page is the first to ask for it. -/
theorem showAll_cons_eq_ok
    (h : (showAll p directory settle loggedIn (page :: pages)).run outside m = (.ok shots, m')) :
    ∃ said m₁ shot m₂ others,
      (if page.requiresLogin = true ∧ loggedIn = false then LogInSaid p said else said = []) ∧
      Talk p.gateway outside m said m₁ ∧
      (showPage p directory settle page).run outside m₁ = (.ok shot, m₂) ∧
      (showAll p directory settle (loggedIn || page.requiresLogin) pages).run outside m₂ =
        (.ok others, m') ∧ shots = shot.toList ++ others := by
  unfold showAll at h
  extract_lets mustLogIn shown at h
  have hlatch : (loggedIn || mustLogIn) = (loggedIn || page.requiresLogin) := by
    cases loggedIn <;> simp [mustLogIn]
  have hshown : ∀ m₁, (shown ()).run outside m₁ = (.ok shots, m') → ∃ shot m₂ others,
      (showPage p directory settle page).run outside m₁ = (.ok shot, m₂) ∧
      (showAll p directory settle (loggedIn || page.requiresLogin) pages).run outside m₂ =
        (.ok others, m') ∧ shots = shot.toList ++ others := by
    intro m₁ hrun
    obtain ⟨shot, m₂, hshow, hrun⟩ := Task.run_bind_eq_ok hrun
    obtain ⟨others, m₃, hrest, hrun⟩ := Task.run_bind_eq_ok hrun
    obtain ⟨hshots, rfl⟩ := Prod.mk.inj hrun
    exact ⟨shot, m₂, others, hshow, hlatch ▸ hrest, (Except.ok.inj hshots).symm⟩
  split at h
  next hmust =>
    obtain ⟨_, m₁, hlogIn, hrun⟩ := Task.run_bind_eq_ok h
    obtain ⟨said, hsaid, htalk⟩ := logIn_eq_ok hlogIn
    obtain ⟨shot, m₂, others, hrest⟩ := hshown m₁ hrun
    refine ⟨said, m₁, shot, m₂, others, ?_, htalk, hrest⟩
    rwa [if_pos (by simpa [mustLogIn] using hmust)]
  next hmust =>
    obtain ⟨shot, m₂, others, hrest⟩ := hshown m h
    refine ⟨[], m, shot, m₂, others, ?_, .refl, hrest⟩
    rw [if_neg (by simpa [mustLogIn] using hmust)]

theorem showAll_eq_ok
    (h : (showAll p directory settle loggedIn pages).run outside m = (.ok shots, m')) :
    ∃ showings, Tour p outside directory loggedIn m showings m' ∧
      showings.map (·.page) = pages ∧ shots = reported directory showings := by
  -- Along the pages, from whatever machine and login the pages before have left.
  induction pages generalizing loggedIn m shots with
  | nil =>
    obtain ⟨hshots, rfl⟩ := Prod.mk.inj h
    exact ⟨[], .ended, rfl, (Except.ok.inj hshots).symm⟩
  | cons page rest ih =>
    obtain ⟨said, m₁, shot, m₂, others, hsaid, htalk, hshow, hrest, rfl⟩ := showAll_cons_eq_ok h
    obtain ⟨opened, taken, m₄, before, hopen, hremoved, hshot, hreported⟩ := showPage_eq_ok hshow
    obtain ⟨showings, htour, hpages, rfl⟩ := ih hrest
    refine ⟨⟨page, said, opened, taken, before, m₂⟩ :: showings,
      .shows hsaid (htalk.append hopen) hremoved hshot htour, congrArg (page :: ·) hpages, ?_⟩
    rw [hreported said, reported, reported, reported, ← List.map_append, ← List.filter_append]
    rfl

/-! ## What follows for the commands -/

namespace Tour

variable {showings : List Showing}

theorem commanded (h : Tour p outside directory loggedIn m showings m') :
    Commanded p.gateway outside m (showings.flatMap (·.said p directory)) m' := by
  induction h with
  | ended => exact .rest rfl
  | shows _ htalk hremoved hshot _ ih =>
    have hshown := htalk.commanded.append (.said (Task.removeFile_calls hremoved) hshot ih)
    simpa [Showing.said, List.append_assoc] using hshown

theorem absent (h : Tour p outside directory loggedIn m showings m') :
    ∀ s ∈ showings, s.before.hasPath (target directory s.page) = false := by
  induction h with
  | ended => simp
  | shows _ _ hremoved _ _ ih =>
    exact List.forall_mem_cons.mpr ⟨Task.hasPath_of_removeFile hremoved, ih⟩

theorem shot (h : Tour p outside directory loggedIn m showings m') :
    ∀ s ∈ showings, (p.gateway.give (shotCall p (target directory s.page))).run outside s.before =
      (.ok s.taken, s.after) := by
  induction h with
  | ended => simp
  | shows _ _ _ hshot _ ih => exact List.forall_mem_cons.mpr ⟨hshot, ih⟩

/-- Nobody logs in a second time. -/
theorem logIn_of_loggedIn (h : Tour p outside directory true m showings m') :
    ∀ s ∈ showings, s.logIn = [] := by
  generalize hloggedIn : true = loggedIn at h
  induction h with
  | ended => simp
  | shows hlogIn _ _ _ _ ih =>
    subst hloggedIn
    exact List.forall_mem_cons.mpr ⟨by simpa using hlogIn, ih (by simp)⟩

end Tour

/-- No page asks for a login and there is none, or there is one, right before the first page that
asks for it. -/
def LogsInOnce (p : Performer) (showings : List Showing) : Prop :=
  (∀ s ∈ showings, s.page.requiresLogin = false ∧ s.logIn = []) ∨
    ∃ earlier first later, showings = earlier ++ first :: later ∧
      (∀ s ∈ earlier, s.page.requiresLogin = false ∧ s.logIn = []) ∧
      first.page.requiresLogin = true ∧ LogInSaid p first.logIn ∧ ∀ s ∈ later, s.logIn = []

theorem Tour.logsInOnce {showings : List Showing}
    (h : Tour p outside directory false m showings m') : LogsInOnce p showings := by
  generalize hloggedIn : false = loggedIn at h
  induction h with
  | ended => exact .inl (by simp)
  | @shows loggedIn m m₁ m' s rest hlogIn _ _ _ hrest ih =>
    subst hloggedIn
    cases hrequires : s.page.requiresLogin with
    | true =>
      rw [if_pos ⟨hrequires, rfl⟩] at hlogIn
      rw [hrequires, Bool.false_or] at hrest
      exact .inr ⟨[], s, rest, rfl, by simp, hrequires, hlogIn, hrest.logIn_of_loggedIn⟩
    | false =>
      rw [if_neg (by simp [hrequires])] at hlogIn
      rcases ih (by simp [hrequires]) with hnone | ⟨earlier, first, later, rfl, hearlier, hfirst⟩
      · exact .inl (List.forall_mem_cons.mpr ⟨⟨hrequires, hlogIn⟩, hnone⟩)
      · exact .inr ⟨s :: earlier, first, later, rfl,
          List.forall_mem_cons.mpr ⟨⟨hrequires, hlogIn⟩, hearlier⟩, hfirst⟩

/-- The command does not close the session. -/
def GoesOn (call : BrowserCall) : Prop := call.args ≠ Session.closeCall.args

theorem goesOn_of_isStepCall {call : BrowserCall} (h : Performer.IsStepCall call) : GoesOn call :=
  Run.not_close_of_isStepCall h

theorem goesOn_shotCall (path : Path) : GoesOn (shotCall p path) := by
  simp [GoesOn, shotCall, Performer.screenshotArgs, Session.closeCall]

theorem goesOn_fills {field value : Text} {es : List Exchange} {r : CommandResult}
    (h : Chain (p.fillAttempts field value) es r) : ∀ e ∈ es, GoesOn e.call := by
  intro e he
  refine goesOn_of_isStepCall ?_
  obtain ⟨a, ha, hcall⟩ := List.mem_map.mp (h.order.mem (List.mem_map_of_mem he))
  rw [← hcall]
  simp only [Performer.fillAttempts, Attempt.fills, List.mem_cons, List.not_mem_nil, or_false] at ha
  rcases ha with rfl | rfl
  · exact ⟨"find", by decide, rfl⟩
  · exact ⟨"fill", by decide, rfl⟩

theorem LogInSaid.goesOn {es : List Exchange} (h : LogInSaid p es) : ∀ e ∈ es, GoesOn e.call := by
  obtain ⟨hchain, hchain'⟩ := h
  simp only [List.forall_mem_cons, List.forall_mem_append]
  refine ⟨goesOn_of_isStepCall ⟨"open", by decide, rfl⟩, goesOn_fills hchain, goesOn_fills hchain',
    goesOn_of_isStepCall ⟨"find", by decide, rfl⟩, by simp⟩

theorem LogsInOnce.goesOn {showings : List Showing} (h : LogsInOnce p showings) :
    ∀ e ∈ showings.flatMap (·.said p directory), GoesOn e.call := by
  have hlogIn : ∀ s ∈ showings, ∀ e ∈ s.logIn, GoesOn e.call := by
    rcases h with hnone | ⟨earlier, first, later, rfl, hearlier, -, hfirst, hlater⟩
    · intro s hs
      simp [(hnone s hs).2]
    · simp only [List.forall_mem_append, List.forall_mem_cons]
      refine ⟨fun s hs => ?_, hfirst.goesOn, fun s hs => ?_⟩
      · simp [(hearlier s hs).2]
      · simp [hlater s hs]
  intro e he
  obtain ⟨s, hs, he⟩ := List.mem_flatMap.mp he
  simp only [Showing.said, List.mem_append, List.mem_cons, List.not_mem_nil, or_false] at he
  rcases he with he | rfl | rfl
  · exact hlogIn s hs e he
  · exact goesOn_of_isStepCall ⟨"open", by decide, rfl⟩
  · exact goesOn_shotCall _

/-- Showing pages gives commands, and none of them closes the session, also if it breaks off. -/
theorem commands_showAll (p : Performer) (directory : Path) (settle : Int) (loggedIn : Bool)
    (pages : List Page) (outside : Outside) :
    (showAll p directory settle loggedIn pages).Leaves outside
      (Commands p.gateway outside GoesOn) := by
  have hsteps : ∀ {α : Type} {t : Task α}, p.SpeaksSteps t →
      t.Leaves outside (Commands p.gateway outside GoesOn) := fun h =>
    (h.mono fun _ hcall => goesOn_of_isStepCall hcall.word).commands outside
  have hpage : ∀ page, (showPage p directory settle page).Leaves outside
      (Commands p.gateway outside GoesOn) := by
    intro page
    refine Task.leaves_bind (hsteps (Performer.speaks_openUrl _)) fun _ => ?_
    refine Task.leaves_bind (hsteps (.pause _)) fun _ => ?_
    refine Task.leaves_bind (Task.commands_removeFile _) fun _ => ?_
    have hshot : Speaks p.gateway GoesOn
        (p.screenshot (target directory page).toText true) :=
      .bind (.give (goesOn_shotCall (target directory page))) fun _ => .pure _
    refine Task.leaves_bind (hshot.commands outside) fun _ => ?_
    split
    · refine Task.leaves_bind (Task.leaves_pathExists _) fun _ => ?_
      split <;> exact Task.leaves_pure _
    · exact Task.leaves_pure _
  induction pages generalizing loggedIn with
  | nil => exact Task.leaves_pure _
  | cons page rest ih =>
    unfold showAll
    extract_lets mustLogIn shown
    have hshown : ∀ u, (shown u).Leaves outside (Commands p.gateway outside GoesOn) := fun _ =>
      Task.leaves_bind (hpage page) fun _ => Task.leaves_bind (ih _) fun _ => Task.leaves_pure _
    split
    · refine Task.leaves_bind (hsteps ?_) hshown
      exact .bind (Performer.speaks_openUrl _) fun _ => .bind (.pause _) fun _ =>
        .bind Performer.speaks_login fun _ => .pause _
    · exact hshown ()

/-! ## One session for all pages -/

/-- What the screenshots of pages go back to: how the pages were shown from the machine on that
opening the session left, what was said for them, and what is reported. -/
structure Captured (p : Performer) (outside : Outside) (directory : Path) (pages : List Page)
    (opened : Machine) (said : List Exchange) (shots : List Screenshot) (showings : List Showing)
    (done : Machine) : Prop where
  tour : Tour p outside directory false opened showings done
  /-- The pages were shown in order. -/
  inOrder : showings.map (·.page) = pages
  /-- There were no commands but those of showing them and of logging in. -/
  nothingElse : said = showings.flatMap (·.said p directory)
  logsInOnce : LogsInOnce p showings
  /-- Right before a screenshot is taken its file is not there. -/
  absent : ∀ s ∈ showings, s.before.hasPath (target directory s.page) = false
  shot : ∀ s ∈ showings, (p.gateway.give (shotCall p (target directory s.page))).run outside
    s.before = (.ok s.taken, s.after)
  /-- Those whose own command succeeded and left the file are reported, in order. -/
  reported : shots = reported directory showings

theorem Tour.captured {showings : List Showing}
    (h : Tour p outside directory false m showings m') :
    Captured p outside directory (showings.map (·.page)) m (showings.flatMap (·.said p directory))
      (Review.reported directory showings) showings m' :=
  { tour := h
    inOrder := rfl
    nothingElse := rfl
    logsInOnce := h.logsInOnce
    absent := h.absent
    shot := h.shot
    reported := rfl }

/-- The commands of showing pages, whatever becomes of it. -/
theorem commanded_showAll (p : Performer) (directory : Path) (settle : Int) (pages : List Page)
    (outside : Outside) (m : Machine) :
    ∃ middle result done,
      (showAll p directory settle false pages).run outside m = (result, done) ∧
      Commanded p.gateway outside m middle done ∧ (∀ e ∈ middle, GoesOn e.call) ∧
      ∀ shots, result = .ok shots →
        ∃ showings, Captured p outside directory pages m middle shots showings done := by
  rcases hrun : (showAll p directory settle false pages).run outside m with ⟨fault | shots, done⟩
  · obtain ⟨middle, hcommanded, hgoesOn⟩ :=
      (commands_showAll p directory settle false pages outside).of_run hrun
    exact ⟨middle, .error fault, done, rfl, hcommanded, hgoesOn, by simp⟩
  · obtain ⟨showings, htour, rfl, rfl⟩ := showAll_eq_ok hrun
    refine ⟨_, _, done, rfl, htour.commanded, htour.logsInOnce.goesOn, ?_⟩
    rintro shots ⟨⟩
    exact ⟨showings, htour.captured⟩

/-- How taking screenshots goes in one session, once the directory for them is there. -/
structure InSession (g : Gateway) (options : Options) (directory : Path) (pages : List Page)
    (outside : Outside) (start : Machine) (result : Except Fault (List Screenshot))
    (after : Machine) (opening : List Exchange) (answer : Except Fault CommandResult)
    (middle : List Exchange) (closing : Except Fault CommandResult) : Prop where
  opens : (options.session g).Opening options.baseUrl options.headless opening answer
  /-- Whatever becomes of it, the command that closes the session is the last. -/
  commanded :
    Commanded g outside start (opening ++ middle ++ [⟨Session.closeCall, closing⟩]) after
  closed : after.session = .closed
  goesOn : ∀ e ∈ middle, GoesOn e.call
  unopened : ¬ (options.session g).Opened answer → middle = [] ∧ ∃ fault, result = .error fault
  captured : ∀ shots, result = .ok shots → ∃ r opened showings done,
    ((options.session g).open options.baseUrl options.headless).run outside start =
      (.ok r, opened) ∧
    Captured (options.performer g) outside directory pages opened middle shots showings done ∧
    after = ((options.session g).close.run outside done).2

theorem inSession_opened (g : Gateway) (options : Options) (directory : Path) (pages : List Page)
    (settle : Int) (outside : Outside) (m : Machine) :
    ∃ result after opening answer middle closing,
      ((options.session g).opened options.baseUrl options.headless
        (showAll (options.performer g) directory settle false pages)).run outside m =
          (result, after) ∧
      InSession g options directory pages outside m result after opening answer middle closing := by
  obtain ⟨opening, answer, hopening, htalk, hopened⟩ :=
    (options.session g).open_spec options.baseUrl options.headless outside m
  rcases hopen : ((options.session g).open options.baseUrl options.headless).run outside m
    with ⟨fault | r, m₁⟩
  · rw [hopen] at htalk hopened
    obtain ⟨-, hclosed, hclosing⟩ := (options.session g).close_spec outside m₁
    refine ⟨_, _, opening, answer, [], _, Session.opened_of_error _ hopen, {
      opens := hopening
      commanded := (htalk.commanded.append (.rest rfl)).append hclosing.commanded
      closed := hclosed
      goesOn := by simp
      unopened := fun _ => ⟨rfl, fault, rfl⟩
      captured := by simp }⟩
  · rw [hopen] at htalk hopened
    obtain ⟨middle, result, done, hshown, hcommanded, hgoesOn, hcaptured⟩ :=
      commanded_showAll (options.performer g) directory settle pages outside m₁
    obtain ⟨-, hclosed, hclosing⟩ := (options.session g).close_spec outside done
    refine ⟨result, ((options.session g).close.run outside done).2, opening, answer, middle, _,
      (Session.opened_of_ok _ hopen).trans (by rw [hshown]), {
        opens := hopening
        commanded := (htalk.commanded.append hcommanded).append hclosing.commanded
        closed := hclosed
        goesOn := hgoesOn
        unopened := fun hunopened => absurd (hopened.mpr ⟨r, rfl⟩) hunopened
        captured := fun shots hshots => ?_ }⟩
    obtain ⟨showings, hcaptured⟩ := hcaptured shots hshots
    exact ⟨r, m₁, showings, done, hopen, hcaptured, rfl⟩

theorem capture_inSession (g : Gateway) (options : Options) (pages : List Page) (settle : Int)
    {ensured : Machine}
    (hensured : (Task.ensureDirectory directory).run outside m = (.ok (), ensured)) :
    ∃ result after opening answer middle closing,
      (capture g options directory pages settle).run outside m = (result, after) ∧
      InSession g options directory pages outside { ensured with session := .closed } result after
        opening answer middle closing := by
  unfold capture Session.enter
  rw [Task.run_bind_ok hensured, Task.run_change_bind]
  exact inSession_opened g options directory pages settle outside { ensured with session := .closed }

/-- Taking screenshots of pages, whatever becomes of it. If the directory for them cannot be made no
program is called. Otherwise a session is opened, and it is closed by the last command, also if it did
not open or if there is a fault. If there is none, the pages were shown in order, each by one command
that opens it and one that takes its screenshot, with at most one login, right before the first page
that asks for it; and a page is reported exactly if its own screenshot succeeded and left the file,
which was not there right before. -/
theorem capture_tour (g : Gateway) (options : Options) (directory : Path) (pages : List Page)
    (settle : Int) (outside : Outside) (m : Machine) :
    ∃ result after, (capture g options directory pages settle).run outside m = (result, after) ∧
      ((∃ fault, (Task.ensureDirectory directory).run outside m = (.error fault, after) ∧
          result = .error fault ∧ after.calls = m.calls) ∨
        ∃ ensured opening answer middle closing,
          (Task.ensureDirectory directory).run outside m = (.ok (), ensured) ∧
          InSession g options directory pages outside { ensured with session := .closed } result
            after opening answer middle closing ∧
          ∃ trace, after.calls = m.calls ++ trace ∧
            List.Forall₂ (fun (e : Exchange) c => g.Shows e.call c)
              (List.filter (g.reaches ·.call) (opening ++ middle ++ [⟨Session.closeCall, closing⟩]))
              trace) := by
  have hquiet : (Task.ensureDirectory directory).Leaves outside Machine.Quiet :=
    Task.quiet_ensureDirectory directory
  rcases hensured : (Task.ensureDirectory directory).run outside m with ⟨fault | _, ensured⟩
  · have hcalls := (hquiet.of_run hensured).calls
    exact ⟨_, _, Task.run_bind_error hensured _, .inl ⟨fault, rfl, rfl, hcalls⟩⟩
  · have hcalls : ({ ensured with session := .closed } : Machine).calls = m.calls :=
      (hquiet.of_run hensured).calls
    obtain ⟨result, after, opening, answer, middle, closing, hrun, hsession⟩ :=
      capture_inSession g options pages settle hensured
    exact ⟨result, after, hrun, .inr ⟨ensured, opening, answer, middle, closing, rfl, hsession,
      (hsession.commanded.rest_append hcalls).calls⟩⟩

/-- A browser whose first screenshot leaves a file, and no other. -/
def painter : Outside :=
  Playbook.outside []
    [{ start := ["screenshot"], times := some 1, answer := .result { success := true }
       installs := [], touches := some 1 }] 0

/-- A machine with the file of an earlier review. -/
def reviewed : Machine :=
  { Machine.bare [] with files := [(["shots"], .directory), (["shots", "courses.png"], .file [] false)] }

/-- The second page needs a login, and its screenshot does not leave a file: the file of the earlier
review does not pass for it. -/
theorem capture_tour_reviewed :
    let shots : List Screenshot := [⟨"login", "登录页", "/shots/login.png"⟩]
    ∃ after opened middle showings done,
      (capture (.direct "agent-browser") {} (Path.ofText "/shots") (standardPages.take 2) 0).run painter
        reviewed = (.ok shots, after) ∧
      Captured (Options.performer {} (.direct "agent-browser")) painter (Path.ofText "/shots")
        (standardPages.take 2) opened middle shots showings done := by
  intro shots
  obtain ⟨result, after, hrun, hgoes⟩ := capture_tour (.direct "agent-browser") {}
    (Path.ofText "/shots") (standardPages.take 2) 0 painter reviewed
  have hshots : ((capture (.direct "agent-browser") {} (Path.ofText "/shots")
      (standardPages.take 2) 0).run painter reviewed).1.toOption = some shots := by
    decide +kernel
  rw [hrun] at hshots
  obtain rfl : result = .ok shots := by
    cases result with
    | error fault => simp [Except.toOption] at hshots
    | ok taken => exact congrArg _ (Option.some.inj hshots)
  rcases hgoes with ⟨fault, -, hfault, -⟩ | ⟨_, _, _, middle, _, -, hsession, -⟩
  · simp at hfault
  · obtain ⟨_, opened, showings, done, -, hcaptured, -⟩ := hsession.captured shots rfl
    exact ⟨after, opened, middle, showings, done, hrun, hcaptured⟩

end Review

end Acceptance
