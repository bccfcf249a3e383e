import Acceptance.Proofs.Places
import Acceptance.Proofs.Recording
import Acceptance.Proofs.Reviewing

/-! # The files of screenshots

Which of the screenshots that are reported are there in the end. A file that was made stays until a
later page is shown whose own file leads to the same place; if the pages have different names, there
is none.
-/

namespace Acceptance

variable {outside : Outside} {m m' : Machine} {path other : Path}

/-! ## Nothing is deleted -/

namespace FileTree

variable {files files' : FileTree} {place : Place}

/-- Directories stay directories, and what is there stays there. -/
structure Keeps (files files' : FileTree) : Prop where
  directory : ∀ {place}, files.get? place = some .directory → files'.get? place = some .directory
  taken : ∀ {place}, (files.get? place).isSome = true → (files'.get? place).isSome = true

instance : IsPreorder FileTree Keeps where
  refl _ := ⟨id, id⟩
  trans _ _ _ h k := ⟨k.directory ∘ h.directory, k.taken ∘ h.taken⟩

theorem keeps_of_grown (h : Grown files files') : Keeps files files' where
  directory := h.get?
  taken hsome := by
    obtain ⟨node, hnode⟩ := Option.isSome_iff_exists.mp hsome
    simp [h.get? hnode]

theorem keeps_write {directory : Place} {content : List UInt8}
    (h : files.write directory path content = .ok files') : Keeps files files' := by
  obtain ⟨-, hnode, executable, rfl, -⟩ := write_eq_ok h
  refine ⟨fun hdirectory => directory_put hnode hdirectory, fun {place} hsome => ?_⟩
  by_cases hplace : place = Place.ofPath directory path
  · rw [hplace, get?_put_self _ _ (ne_root_of_not_directory hnode)]
    rfl
  · rwa [get?_put_of_ne _ _ hplace]

end FileTree

/-- Whatever other programs do, they delete nothing. -/
def Outside.KeepsFiles (outside : Outside) : Prop :=
  ∀ effect, Machine.Does outside effect →
    ∀ (directory : Place) (s : Surroundings), s.files.Keeps (effect directory s).files

namespace Playbook

theorem keeps_leave (files : FileTree) (directory : Place) (path : Path) :
    files.Keeps (leave files directory path) := by
  have hgrown := FileTree.keeps_of_grown (FileTree.grown_ensure files directory path.parent)
  unfold leave
  split
  next hensure => rwa [hensure] at hgrown
  next hensure =>
    rw [hensure] at hgrown
    split
    next hwrite => exact trans_of FileTree.Keeps hgrown (FileTree.keeps_write hwrite)
    next => exact hgrown

theorem keeps_effect {α : Type} (r : Rule α) (argv : List Text) (directory : Place)
    (s : Surroundings) : s.files.Keeps (r.effect argv directory s).files := by
  unfold Rule.effect
  dsimp only
  split
  · exact refl_of FileTree.Keeps _
  · exact keeps_leave _ _ _

theorem keeps_reply {α : Type} (rules : List (Rule α)) (standard : α)
    (before : List (List Text)) (argv : List Text) (directory : Place) (s : Surroundings) :
    s.files.Keeps ((reply rules standard before argv).effect directory s).files := by
  unfold reply
  split
  · exact keeps_effect _ _ _ _
  · exact refl_of FileTree.Keeps _

/-- Programs that follow a playbook delete nothing. -/
theorem keepsFiles_outside (programRules : List (Rule (Except LaunchProblem Child)))
    (browserRules : List (Rule BrowserReply)) (start : Nat) :
    (Playbook.outside programRules browserRules start).KeepsFiles := by
  rintro _ (⟨history, l⟩ | ⟨history, argv⟩ | ⟨history, call⟩) directory s
  · exact keeps_reply _ _ _ _ _ _
  · exact keeps_reply _ _ _ _ _ _
  · exact keeps_reply _ _ _ _ _ _

end Playbook

/-! ## What stays at a path -/

/-- Nothing that leads to the path, and not what it leads to, is at the place of the other path or
below it. -/
def Path.Apart (directory : Place) (path other : Path) : Prop :=
  ∀ place ∈ Place.ofPath directory path :: FileTree.way directory path,
    ¬ Place.ofPath directory other <+: place

namespace Machine

theorem hasPath_iff : m.hasPath path = true ↔
    Task.pathProblem? path = none ∧ ∃ place, m.files.locate m.directory path = .ok place ∧
      (m.files.get? place).isSome = true := by
  unfold hasPath
  cases m.files.locate m.directory path <;> simp

theorem hasPath_of_keeps (hfiles : m.files.Keeps m'.files) (hdirectory : m'.directory = m.directory)
    (h : m.hasPath path = true) : m'.hasPath path = true := by
  obtain ⟨hproblem, place, hlocate, hsome⟩ := hasPath_iff.mp h
  refine hasPath_iff.mpr ⟨hproblem, place, ?_, hfiles.taken hsome⟩
  rw [hdirectory]
  exact FileTree.locate_of_directories (fun _ => hfiles.directory) hlocate

/-- A file that is removed takes nothing with it that is apart from it. -/
theorem hasPath_of_removeFile_apart (h : (Task.removeFile other).run outside m = (.ok (), m'))
    (hapart : path.Apart m.directory other) (hpath : m.hasPath path = true) :
    m'.hasPath path = true := by
  rcases Task.removeFile_eq_ok h with ⟨rfl, -⟩ | ⟨gone, content, executable, hgone, -, rfl⟩
  · exact hpath
  obtain rfl := FileTree.locate_eq_ok hgone
  obtain ⟨hproblem, place, hlocate, hsome⟩ := hasPath_iff.mp hpath
  obtain rfl := FileTree.locate_eq_ok hlocate
  obtain ⟨hplace, hway⟩ := List.forall_mem_cons.mp hapart
  refine hasPath_iff.mpr ⟨hproblem, Place.ofPath m.directory path, ?_, ?_⟩
  · refine FileTree.locate_of_way (fun q hq hdirectory => ?_) hlocate
    rw [FileTree.get?_remove_of_not_below _ (hway q hq), hdirectory]
  · rwa [FileTree.get?_remove_of_not_below _ hplace]

end Machine

theorem Talk.keepsFiles {g : Gateway} {es : List Exchange} (hkeeps : outside.KeepsFiles)
    (h : Talk g outside m es m') : m.files.Keeps m'.files := by
  refine h.preserves (P := fun m' => m.files.Keeps m'.files) ?_ ?_ (refl_of FileTree.Keeps _)
  · exact fun hquiet hm => trans_of FileTree.Keeps hm (FileTree.keeps_of_grown hquiet.files)
  · exact fun call effect hdoes hm => trans_of FileTree.Keeps hm (hkeeps effect hdoes _ _)

theorem Talk.hasPath {g : Gateway} {es : List Exchange} (hkeeps : outside.KeepsFiles)
    (h : Talk g outside m es m') (hpath : m.hasPath path = true) : m'.hasPath path = true :=
  Machine.hasPath_of_keeps (h.keepsFiles hkeeps) (congrArg Setting.directory h.setting) hpath

namespace Review

variable {p : Performer} {directory : Path} {settle : Int} {pages : List Page} {loggedIn : Bool}
  {shots : List Screenshot} {showings : List Showing} {g : Gateway} {options : Options}

/-! ## While pages are shown -/

/-- Showing the page leaves what is at the path: its own file is apart from it, or is just that and
was made. -/
def Showing.Leaves (place : Place) (directory path : Path) (s : Showing) : Prop :=
  path.Apart place (target directory s.page) ∨
    target directory s.page = path ∧ s.isReported directory = true

theorem setting_of_removeFile (h : (Task.removeFile path).run outside m = (.ok (), m')) :
    m'.setting = m.setting := by
  rcases Task.removeFile_eq_ok h with ⟨rfl, -⟩ | ⟨_, _, _, -, -, rfl⟩ <;> rfl

theorem talk_shot {s : Showing} (hshot : (p.gateway.give (shotCall p path)).run outside s.before =
      (.ok s.taken, s.after)) :
    Talk p.gateway outside s.before [⟨shotCall p path, .ok s.taken⟩] s.after := .said .rfl hshot .refl

/-- Showing a page changes nothing that no task changes. -/
theorem setting_of_shows {s : Showing} {es : List Exchange} {m₁ : Machine}
    (htalk : Talk p.gateway outside m es m₁)
    (hremoved : (Task.removeFile path).run outside m₁ = (.ok (), s.before))
    (hshot : (p.gateway.give (shotCall p path)).run outside s.before = (.ok s.taken, s.after)) :
    s.after.setting = m.setting :=
  calc s.after.setting = s.before.setting := (talk_shot hshot).setting
    _ = m₁.setting := setting_of_removeFile hremoved
    _ = m.setting := htalk.setting

/-- What is at a path when pages are shown, or is made for one of them, is still there after them. -/
theorem Tour.hasPath (hkeeps : outside.KeepsFiles)
    (h : Tour p outside directory loggedIn m showings m') (hpath : m.hasPath path = true)
    (hleaves : ∀ s ∈ showings, s.Leaves m.directory directory path) : m'.hasPath path = true := by
  induction h with
  | ended => exact hpath
  | @shows loggedIn m m₁ m' s rest _ htalk hremoved hshot _ ih =>
    obtain ⟨hfirst, hrest⟩ := List.forall_mem_cons.mp hleaves
    have hopened : m₁.directory = m.directory := congrArg Setting.directory htalk.setting
    have hafter : s.after.directory = m.directory :=
      congrArg Setting.directory (setting_of_shows htalk hremoved hshot)
    refine ih ?_ (hafter ▸ hrest)
    rcases hfirst with hapart | ⟨rfl, hreported⟩
    · refine (talk_shot hshot).hasPath hkeeps ?_
      exact Machine.hasPath_of_removeFile_apart hremoved (hopened ▸ hapart)
        (htalk.hasPath hkeeps hpath)
    · exact (Bool.and_eq_true_iff.mp hreported).2

theorem Tour.setting (h : Tour p outside directory loggedIn m showings m') :
    m'.setting = m.setting := by
  induction h with
  | ended => rfl
  | shows _ htalk hremoved hshot _ ih =>
    rw [ih, setting_of_shows htalk hremoved hshot]

theorem Tour.of_append {earlier later : List Showing}
    (h : Tour p outside directory loggedIn m (earlier ++ later) m') :
    ∃ loggedIn' m₁, Tour p outside directory loggedIn m earlier m₁ ∧
      Tour p outside directory loggedIn' m₁ later m' := by
  induction earlier generalizing loggedIn m with
  | nil => exact ⟨loggedIn, m, .ended, h⟩
  | cons s earlier ih =>
    rw [List.cons_append] at h
    cases h with
    | shows hlogIn htalk hremoved hshot hrest =>
      obtain ⟨loggedIn', m₁, hearlier, hlater⟩ := ih hrest
      exact ⟨loggedIn', m₁, .shows hlogIn htalk hremoved hshot hearlier, hlater⟩

/-- The file of a page that is reported is there after the pages, if the later ones leave it. -/
theorem Tour.hasPath_reported (hkeeps : outside.KeepsFiles) {earlier later : List Showing}
    {s : Showing} (h : Tour p outside directory loggedIn m (earlier ++ s :: later) m')
    (hreported : s.isReported directory = true)
    (hleaves : ∀ t ∈ later, t.Leaves m.directory directory (target directory s.page)) :
    m'.hasPath (target directory s.page) = true := by
  obtain ⟨_, m₁, hearlier, hlater⟩ := h.of_append
  cases hlater with
  | shows _ htalk hremoved hshot hrest =>
    have hafter : s.after.directory = m.directory :=
      congrArg Setting.directory
        ((setting_of_shows htalk hremoved hshot).trans hearlier.setting)
    exact hrest.hasPath hkeeps (Bool.and_eq_true_iff.mp hreported).2 (hafter ▸ hleaves)

/-! ## Pages with names of their own -/

theorem wayFrom_concat (place : Place) (names : List Text) (name : Text) :
    FileTree.wayFrom place (names ++ [name]) =
      FileTree.wayFrom place names ++ [Place.follow place names] := by
  induction names generalizing place with
  | nil => rfl
  | cons first names ih =>
    rw [List.cons_append, FileTree.wayFrom, ih]
    rfl

/-- Names that never lead up. -/
theorem prefix_follow {place : Place} {names : List Text} (hup : Text.of ".." ∉ names) :
    place <+: Place.follow place names := by
  induction names generalizing place with
  | nil => exact List.prefix_rfl
  | cons name names ih =>
    rw [List.mem_cons, not_or] at hup
    rw [Place.follow, if_neg (Ne.symm hup.1)]
    exact (List.prefix_append _ _).trans (ih hup.2)

theorem prefix_of_mem_wayFrom {place q : Place} {names : List Text} (hup : Text.of ".." ∉ names)
    (h : q ∈ FileTree.wayFrom place names) : q <+: Place.follow place names := by
  induction names generalizing place with
  | nil => simp [FileTree.wayFrom] at h
  | cons name names ih =>
    rcases List.mem_cons.mp h with rfl | hq
    · exact prefix_follow hup
    · exact ih (fun hmem => hup (List.mem_cons_of_mem _ hmem)) hq

/-- Two names in one directory are apart. -/
theorem apart_child {place : Place} {s t : Text} (hup : Text.of ".." ∉ directory.parts)
    (hs : Place.IsName s) (ht : Place.IsName t) (hne : s ≠ t) :
    (directory.child s).Apart place (directory.child t) := by
  have hway : FileTree.way place (directory.child s) =
      FileTree.way place directory ++ [Place.ofPath place directory] := by
    rw [Place.child_eq hs]
    exact wayFrom_concat _ _ _
  unfold Path.Apart
  rw [hway, Place.ofPath_child hs, Place.ofPath_child ht]
  intro q hq hstarts
  have habove : q = Place.ofPath place directory ++ [s] ∨ q <+: Place.ofPath place directory := by
    rcases List.mem_cons.mp hq with rfl | hq
    · exact .inl rfl
    rcases List.mem_append.mp hq with hq | hq
    · exact .inr (prefix_of_mem_wayFrom hup hq)
    · exact .inr (List.mem_singleton.mp hq ▸ List.prefix_rfl)
  rcases habove with rfl | habove
  · obtain ⟨rest, hrest⟩ := hstarts
    rw [List.append_assoc] at hrest
    have hlast : [t] ++ rest = [s] := List.append_cancel_left hrest
    simp at hlast
    exact hne hlast.1.symm
  · have hlength := (hstarts.trans habove).length_le
    simp at hlength

/-- Pages with names of their own are reported under paths of their own, and leave each other's
files. -/
theorem reported_of_names (place : Place) (hup : Text.of ".." ∉ directory.parts)
    (hnames : ∀ s ∈ showings, Place.IsName (s.page.name ++ ".png"))
    (hdistinct : (showings.map (·.page.name)).Nodup) :
    ((reported directory showings).map (·.path)).Nodup ∧
      ∀ earlier s later, showings = earlier ++ s :: later → ∀ t ∈ later,
        t.Leaves place directory (target directory s.page) := by
  have hpairwise : showings.Pairwise fun s t => s.page.name ≠ t.page.name :=
    List.pairwise_map.mp hdistinct
  constructor
  · rw [reported, List.map_map]
    refine List.pairwise_map.mpr ((hpairwise.filter _).imp_of_mem fun hs ht hne heq => hne ?_)
    exact List.append_cancel_right (Path.toText_child_inj (hnames _ (List.mem_of_mem_filter hs))
      (hnames _ (List.mem_of_mem_filter ht)) heq)
  · rintro earlier s later rfl t ht
    have hne : s.page.name ≠ t.page.name :=
      List.rel_of_pairwise_cons (List.pairwise_append.mp hpairwise).2.1 ht
    refine .inl (apart_child hup (hnames s (by simp)) (hnames t (by simp [ht])) fun heq => ?_)
    exact hne (List.append_cancel_right heq)

/-! ## When the review is over -/

/-- Screenshots of pages, with a browser that deletes nothing: one is reported for each page whose own
screenshot succeeded and left its file. The file is there in the end unless a later page is shown
whose file is not apart from it, and is not the same, reported again. So if the pages have names of
their own, the paths that are reported are different and all files are there. -/
theorem capture_kept (hkeeps : outside.KeepsFiles)
    (h : (capture g options directory pages settle).run outside m = (.ok shots, m')) :
    ∃ showings : List Showing, showings.map (·.page) = pages ∧ shots = reported directory showings ∧
      (∀ earlier s later, showings = earlier ++ s :: later → s.isReported directory = true →
        (∀ t ∈ later, t.Leaves m.directory directory (target directory s.page)) →
        m'.hasPath (target directory s.page) = true) ∧
      (Text.of ".." ∉ directory.parts → (∀ page ∈ pages, Place.IsName (page.name ++ ".png")) →
        (pages.map (·.name)).Nodup → (shots.map (·.path)).Nodup ∧
          ∀ shot ∈ shots, ∃ page ∈ pages, shot.path = (target directory page).toText ∧
            m'.hasPath (target directory page) = true) := by
  have hcapture := h
  unfold capture at h
  obtain ⟨_, ensured, hensured, -⟩ := Task.run_bind_eq_ok h
  obtain ⟨result, after, _, _, _, _, hrun, hsession⟩ :=
    capture_inSession g options pages settle hensured
  obtain ⟨rfl, rfl⟩ := Prod.mk.inj (hrun.symm.trans hcapture)
  obtain ⟨r, opened, showings, done, hopen, hcaptured, rfl⟩ := hsession.captured shots rfl
  obtain ⟨-, -, hclosing⟩ := (options.session g).close_spec outside done
  have hdirectory : opened.directory = m.directory := by
    have hensuredSetting := ((Task.quiet_ensureDirectory directory).of_run hensured).setting
    obtain ⟨_, _, -, htalk, -⟩ := (options.session g).open_spec options.baseUrl options.headless
      outside { ensured with session := .closed }
    rw [hopen] at htalk
    exact congrArg Setting.directory (htalk.setting.trans hensuredSetting)
  have hthere : ∀ earlier s later, showings = earlier ++ s :: later →
      s.isReported directory = true →
      (∀ t ∈ later, t.Leaves m.directory directory (target directory s.page)) →
      ((options.session g).close.run outside done).2.hasPath (target directory s.page) = true := by
    rintro earlier s later rfl hreported hleaves
    exact hclosing.hasPath hkeeps
      (hcaptured.tour.hasPath_reported hkeeps hreported (hdirectory ▸ hleaves))
  refine ⟨showings, hcaptured.inOrder, hcaptured.reported, hthere, fun hup hnames hdistinct => ?_⟩
  obtain ⟨hnodup, hleaves⟩ := reported_of_names m.directory hup
    (fun s hs => hnames _ (hcaptured.inOrder ▸ List.mem_map_of_mem hs))
    (by rw [← hcaptured.inOrder, List.map_map] at hdistinct; exact hdistinct)
  refine ⟨hcaptured.reported ▸ hnodup, fun shot hshot => ?_⟩
  rw [hcaptured.reported] at hshot
  obtain ⟨s, hs, rfl⟩ := List.mem_map.mp hshot
  obtain ⟨hs, hreported⟩ := List.mem_filter.mp hs
  obtain ⟨earlier, later, hsplit⟩ := List.append_of_mem hs
  exact ⟨s.page, hcaptured.inOrder ▸ List.mem_map_of_mem hs, rfl,
    hthere earlier s later hsplit hreported (hleaves earlier s later hsplit)⟩

/-- The first of two pages with names of their own. -/
theorem capture_kept_standard :
    ∃ shots after, (capture (.direct "agent-browser") {} (Path.ofText "/shots")
        (standardPages.take 2) 0).run painter reviewed = (.ok shots, after) ∧
      painter.KeepsFiles ∧ shots.map (·.path) = [Text.of "/shots/login.png"] ∧
      after.hasPath (Path.ofText "/shots/login.png") = true := by
  have hkeeps : painter.KeepsFiles := Playbook.keepsFiles_outside _ _ _
  have hshots : ((capture (.direct "agent-browser") {} (Path.ofText "/shots")
      (standardPages.take 2) 0).run painter reviewed).1.toOption =
        some [⟨"login", "登录页", "/shots/login.png"⟩] := by decide +kernel
  obtain ⟨after, hrun⟩ := Task.run_eq_ok_of_toOption hshots
  obtain ⟨_, -, -, -, hnames⟩ := capture_kept hkeeps hrun
  have hplain : ∀ page ∈ standardPages.take 2, Place.IsName (page.name ++ ".png") := fun page hpage =>
    Place.isName_of_plain (by revert page; decide)
  obtain ⟨-, hthere⟩ := hnames (by decide) hplain (by decide)
  obtain ⟨page, hpage, hpath, hlogin⟩ := hthere _ (List.mem_singleton.mpr rfl)
  have htarget : ∀ page ∈ standardPages.take 2,
      Text.of "/shots/login.png" = (target (Path.ofText "/shots") page).toText →
      target (Path.ofText "/shots") page = Path.ofText "/shots/login.png" := by decide
  exact ⟨_, after, hrun, hkeeps, rfl, htarget page hpage hpath ▸ hlogin⟩

/-- A browser that makes a file for every screenshot. -/
def tireless : Outside :=
  Playbook.outside []
    [{ start := ["screenshot"], times := none, answer := .result { success := true }
       installs := [], touches := some 1 }] 0

/-- Two pages with one name, as the settings may have them. -/
def twins : List Value :=
  [Value.record [("name", "home"), ("path", "/")], Value.record [("name", "home"), ("path", "/b")]]

/-- A machine whose settings ask for these pages. -/
def twinned : Machine :=
  { Machine.bare [] with
    settings := some [(.text "ui_review", Value.record [("pages", .list twins)])] }

/-- Both pages are reported under one path, or the file of the first is removed for the second, whose
screenshot leaves none. -/
theorem not_kept_twins :
    ∃ pages : List Page, configuredPages.run tireless twinned = (.ok pages, twinned) ∧
      tireless.KeepsFiles ∧ painter.KeepsFiles ∧
      (((capture (.direct "agent-browser") {} (Path.ofText "/shots") pages 0).run tireless
        twinned).1.toOption.map fun shots => shots.map (·.path)) =
        some [Text.of "/shots/home.png", Text.of "/shots/home.png"] ∧
      (((capture (.direct "agent-browser") {} (Path.ofText "/shots") pages 0).run painter
        twinned).1.toOption.map fun shots => shots.map (·.path)) =
        some [Text.of "/shots/home.png"] ∧
      ((capture (.direct "agent-browser") {} (Path.ofText "/shots") pages 0).run painter
        twinned).2.hasPath (Path.ofText "/shots/home.png") = false := by
  refine ⟨[⟨"home", "/", "home", false⟩, ⟨"home", "/b", "home", false⟩], rfl,
    Playbook.keepsFiles_outside _ _ _, Playbook.keepsFiles_outside _ _ _, ?_, ?_, ?_⟩
  · decide +kernel
  · decide +kernel
  · decide +kernel

end Review

end Acceptance
