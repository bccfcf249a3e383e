import Acceptance.Proofs.Digits
import Acceptance.Proofs.Layout
import Acceptance.Proofs.Pieces
import Acceptance.Proofs.Sparing
import Acceptance.Proofs.Wording
import Acceptance.Run.Feature

/-! # Texts of paths

The parts of a path are pieces of texts: of what a variable says, of a home, of the names of the
current directory. What holds of all these texts and of every piece of a text holds of the parts. -/

namespace Acceptance

variable {P : Text → Prop} {s t : Text}

/-! ## Pieces -/

namespace Text

/-- What holds of a text holds of the pieces of it. -/
def Hereditary (P : Text → Prop) : Prop := ∀ ⦃s t : Text⦄, s <:+: t → P t → P s

theorem hereditary_encodes : Hereditary Encodes := fun _ _ h ht => ht.mono h.subset

/-- A text without a certain piece has no pieces with it. -/
theorem hereditary_avoids (piece : Text) : Hereditary fun t => ¬ piece <:+: t :=
  fun _ _ h ht hpiece => ht (hpiece.trans h)

/-- What can be asked of all texts that paths of screenshots are made of. -/
structure OfPaths (P : Text → Prop) : Prop where
  hereditary : Hereditary P
  encodes : ∀ t, P t → Encodes t
  agent : P ".agent"
  screenshots : P "screenshots"

variable {sep : CodePoint}

theorem exists_splitOn (sep : CodePoint) (t : Text) :
    ∃ piece pieces, splitOn sep t = piece :: pieces := by
  induction t with
  | nil => exact ⟨[], [], rfl⟩
  | cons c rest ih =>
    obtain ⟨piece, pieces, hrest⟩ := ih
    rw [splitOn, hrest]
    split
    · exact ⟨[], piece :: pieces, rfl⟩
    · exact ⟨c :: piece, pieces, rfl⟩

theorem joinWith_splitOn (sep : CodePoint) (t : Text) : joinWith [sep] (splitOn sep t) = t := by
  induction t with
  | nil => rfl
  | cons c rest ih =>
    obtain ⟨piece, pieces, hrest⟩ := exists_splitOn sep rest
    rw [hrest] at ih
    rw [splitOn, hrest]
    split
    next hc =>
      rw [joinWith, ih, hc]
      · rfl
      · simp
    next =>
      cases pieces with
      | nil => exact congrArg (c :: ·) ih
      | cons next more => exact congrArg (c :: ·) ih

theorem infix_of_mem_splitOn {piece : Text} (h : piece ∈ splitOn sep t) : piece <:+: t :=
  joinWith_splitOn sep t ▸ infix_joinWith h

/-- An ending without a separator belongs to the last piece. -/
theorem splitOn_append (h : sep ∉ t) (s : Text) : ∃ front last,
    splitOn sep s = front ++ [last] ∧ splitOn sep (s ++ t) = front ++ [last ++ t] := by
  induction s with
  | nil => exact ⟨[], [], rfl, Place.splitOn_of_absent h⟩
  | cons c rest ih =>
    obtain ⟨front, last, hrest, happend⟩ := ih
    rw [List.cons_append, splitOn, splitOn, hrest, happend]
    split
    · exact ⟨[] :: front, last, rfl, rfl⟩
    · cases front with
      | nil => exact ⟨[], c :: last, rfl, rfl⟩
      | cons piece pieces => exact ⟨(c :: piece) :: pieces, last, rfl, rfl⟩

end Text

/-! ## Parts of paths -/

/-- The root can be encoded, and the parts are as `P` says. -/
structure Path.All (P : Text → Prop) (p : Path) : Prop where
  root : Text.Encodes p.root
  parts : ∀ part ∈ p.parts, P part

namespace Path

variable {p q : Path}

theorem All.mono {Q : Text → Prop} (h : p.All P) (hPQ : ∀ t, P t → Q t) : p.All Q :=
  ⟨h.root, fun part hpart => hPQ part (h.parts part hpart)⟩

theorem all_encodes : p.All Text.Encodes ↔ Text.Encodes p.toText := by
  rw [encodes_toText]
  exact ⟨fun h => ⟨h.root, h.parts⟩, fun h => ⟨h.root, h.parts⟩⟩

theorem encodes_rootOf (t : Text) : Text.Encodes (rootOf t) := by
  unfold rootOf
  split <;> simp

theorem all_ofText (hP : Text.Hereditary P) (ht : P t) : (ofText t).All P where
  root := encodes_rootOf t
  parts _ hpart := hP (Text.infix_of_mem_splitOn (List.mem_of_mem_filter hpart)) ht

theorem All.join (hp : p.All P) (hq : q.All P) : (p.join q).All P := by
  unfold Path.join
  split
  · exact hq
  · exact ⟨hp.root, List.forall_mem_append.mpr ⟨hp.parts, hq.parts⟩⟩

/-- A name that ends without a slash is the last part, but for what of it is before a slash. -/
theorem parts_ofText_append {ending : Text} (hslash : ('/' : CodePoint) ∉ ending)
    (hlong : 2 ≤ ending.length) (s : Text) : ∃ front last, (∀ part ∈ front, part <:+: s) ∧
      (ofText (s ++ ending)).parts = front ++ [last] := by
  obtain ⟨front, last, hs, happend⟩ := Text.splitOn_append hslash s
  refine ⟨front.filter fun part => !part.isEmpty && part ≠ (Text.of "."), last ++ ending, ?_, ?_⟩
  · intro part hpart
    have hsplit : part ∈ Text.splitOn '/' s := by
      rw [hs]
      exact List.mem_append_left _ (List.mem_of_mem_filter hpart)
    exact Text.infix_of_mem_splitOn hsplit
  · have hlast : 2 ≤ (last ++ ending).length := by
      rw [List.length_append]
      omega
    have hkept : ∀ part ∈ [last ++ ending],
        (!part.isEmpty && decide (part ≠ Text.of ".")) = true := by
      simp only [List.forall_mem_singleton, Bool.and_eq_true, Bool.not_eq_true',
        List.isEmpty_eq_false_iff, decide_eq_true_eq]
      constructor <;> intro h <;> rw [h] at hlast <;> exact absurd hlast (by decide)
    show partsOf (s ++ ending) = _
    rw [partsOf, happend, List.filter_append, List.filter_eq_self.mpr hkept]

theorem All.parent_child {ending : Text} (hp : p.All P) (hP : Text.Hereditary P)
    (hslash : ('/' : CodePoint) ∉ ending) (hlong : 2 ≤ ending.length) (hs : P s) :
    (p.child (s ++ ending)).parent.All P := by
  obtain ⟨front, last, hfront, hparts⟩ := parts_ofText_append hslash hlong s
  have hall : ∀ part ∈ front, P part := fun part hpart => hP (hfront part hpart) hs
  unfold parent Path.child Path.join
  split
  · refine ⟨encodes_rootOf _, ?_⟩
    rw [hparts, List.dropLast_concat]
    exact hall
  · refine ⟨hp.root, ?_⟩
    dsimp only
    rw [hparts, ← List.append_assoc, List.dropLast_concat]
    exact List.forall_mem_append.mpr ⟨hp.parts, hall⟩

theorem All.child (hp : p.All P) (hP : Text.Hereditary P) (ht : P t) : (p.child t).All P :=
  hp.join (all_ofText hP ht)

end Path

/-! ## Stamps -/

namespace Instant

theorem slash_notMem_stamp (i : Instant) : ('/' : CodePoint) ∉ i.stamp := by
  have hnumber : ∀ n, ('/' : CodePoint) ∉ Text.ofNat n := fun n h =>
    absurd (Text.isAsciiDigit_of_mem_ofNat n _ h) (by decide)
  have hpadded : ∀ width n, ('/' : CodePoint) ∉ Text.padded width n := by
    intro width n h
    rcases List.mem_append.mp h with h | h
    · exact absurd (List.eq_of_mem_replicate h) (by decide)
    · exact hnumber n h
  have hletters : ('/' : CodePoint) ∉ Text.of "T" ∧ ('/' : CodePoint) ∉ Text.of "Z" := by decide
  unfold stamp
  simp only [List.mem_append, not_or]
  exact ⟨⟨⟨⟨⟨⟨⟨hnumber _, hpadded _ _⟩, hpadded _ _⟩, hletters.1⟩, hpadded _ _⟩, hpadded _ _⟩,
    hpadded _ _⟩, hletters.2⟩

theorem encodes_stamp (i : Instant) : Text.Encodes i.stamp := by simp [stamp]

end Instant

/-! ## The setting -/

/-- All texts of the setting are as `P` says. -/
structure Setting.All (P : Text → Prop) (setting : Setting) : Prop where
  directory : ∀ name ∈ setting.directory, P name
  environment : ∀ v ∈ setting.environment, P v.2
  homes : ∀ v ∈ setting.homes, P v.2
  toolDirectory : P setting.toolDirectory

theorem Setting.All.mono {Q : Text → Prop} {setting : Setting} (h : setting.All P)
    (hPQ : ∀ t, P t → Q t) : setting.All Q where
  directory name hname := hPQ name (h.directory name hname)
  environment v hv := hPQ v.2 (h.environment v hv)
  homes v hv := hPQ v.2 (h.homes v hv)
  toolDirectory := hPQ _ h.toolDirectory

theorem Environment.get?_all {environment : Environment} {name : Text}
    (h : ∀ entry ∈ environment, P entry.2) : ∀ t ∈ Environment.get? environment name, P t := by
  intro t ht
  obtain ⟨v, hv, rfl⟩ := Option.map_eq_some_iff.mp ht
  exact h v (List.mem_of_find?_eq_some hv)

section

variable {outside : Outside} {I : Machine → Prop} {E : Fault → Prop} {p : Path}
  (hI : ∀ m, I m → m.setting.All P)

namespace Task

include hI

theorem meets_environment? (name : Text) :
    (environment? name).Meets outside I (fun v => ∀ t ∈ v, P t) E :=
  meets_read fun m hm => Environment.get?_all (hI m hm).environment

theorem meets_setVariable? (name : Text) :
    (setVariable? name).Meets outside I (fun v => ∀ t ∈ v, P t) E :=
  meets_bind (meets_environment? hI name) fun _ hv => meets_pure fun t ht =>
    hv t (Option.filter_eq_some_iff.mp ht).1

theorem meets_currentDirectory : currentDirectory.Meets outside I (Path.All P) E :=
  meets_read fun m hm => ⟨Text.encodes_of _, (hI m hm).directory⟩

variable (hP : Text.Hereditary P)
include hP

/-- A home that is found is a piece of a text of the setting; otherwise the name stays as it is. -/
theorem meets_lookUpHome (part : Text) :
    (lookUpHome part).Meets outside I (fun home => home = part ∨ (Path.ofText home).All P) E := by
  have hhomes : ∀ user, (read fun m => Environment.get? m.homes user).Meets outside I
      (fun v => ∀ t ∈ v, P t) E :=
    fun _ => meets_read fun m hm => Environment.get?_all (hI m hm).homes
  unfold lookUpHome
  extract_lets user settle
  have hfound : ∀ home : Option Text, (∀ t ∈ home, P t) → (settle home).Meets outside I
      (fun home => home = part ∨ (Path.ofText home).All P) E := by
    intro home hhome
    cases home with
    | none => exact meets_pure (Or.inl rfl)
    | some home =>
      refine meets_pure (Or.inr ?_)
      split
      · exact ⟨Text.encodes_of _, by simp [show (Path.ofText "/").parts = [] from rfl]⟩
      · refine Path.all_ofText hP (hP ?_ (hhome home rfl))
        unfold Text.trimRightWhere
        have hsuffix := List.reverse_prefix.mpr
          (List.dropWhile_suffix (· = ('/' : CodePoint)) (l := home.reverse))
        rw [List.reverse_reverse] at hsuffix
        exact hsuffix.isInfix
  split
  · refine meets_bind (meets_environment? hI _) fun v hv => ?_
    split
    · exact meets_bind (meets_pure hv) hfound
    · exact meets_bind (hhomes _) hfound
  · exact meets_bind (hhomes _) hfound

theorem meets_expandHome (hp : p.All P) :
    (expandHome p).Meets outside I (Path.All P) (· = .homeUnknown) := by
  unfold expandHome
  split
  · exact meets_pure hp
  next first rest hparts =>
    split
    · exact meets_pure hp
    next hhome =>
      refine meets_bind (meets_lookUpHome hI hP first) fun home hfound => ?_
      split
      · exact meets_fail rfl
      next hstart =>
        simp only [Bool.or_eq_true, decide_eq_true_eq, not_or, not_not, ne_eq] at hhome
        rcases hfound with rfl | hall
        · exact absurd hhome.2 hstart
        · refine meets_pure ⟨hall.root, List.forall_mem_append.mpr ⟨hall.parts, ?_⟩⟩
          intro part hpart
          exact hp.parts part (hparts ▸ List.mem_cons_of_mem _ hpart)

end Task

namespace Layout

variable (hP : Text.Hereditary P)
include hI hP

theorem meets_projectDirectory :
    projectDirectory.Meets outside I (Path.All P) (· = .homeUnknown) := by
  refine Task.meets_bind (Task.meets_setVariable? hI _) fun v hv => ?_
  split
  next t => exact Task.meets_expandHome hI hP (Path.all_ofText hP (hv t rfl))
  next => exact Task.meets_currentDirectory hI

theorem meets_fromProject (hp : p.All P) :
    (fromProject p).Meets outside I (Path.All P) (· = .homeUnknown) := by
  unfold fromProject
  split
  · exact Task.meets_pure hp
  · exact Task.meets_bind (meets_projectDirectory hI hP) fun root hroot =>
      Task.meets_pure (hroot.join hp)

theorem meets_agentDirectory (hagent : P ".agent") :
    agentDirectory.Meets outside I (Path.All P) (· = .homeUnknown) :=
  Task.meets_bind (meets_projectDirectory hI hP) fun _ hroot =>
    Task.meets_pure (hroot.child hP hagent)

theorem meets_featuresFile (hagent : P ".agent") (hfile : P "features.json") :
    featuresFile.Meets outside I (Path.All P) (· = .homeUnknown) :=
  Task.meets_bind (meets_projectDirectory hI hP) fun _ hroot =>
    Task.meets_pure ((hroot.child hP hagent).child hP hfile)

omit hP in
theorem meets_screenshotsDirectory (hP : Text.OfPaths P) {given : Option Text}
    (hgiven : ∀ t ∈ given, P t) :
    (screenshotsDirectory given).Meets outside I (Path.All P) (· = .homeUnknown) := by
  have hagent := @meets_agentDirectory P outside I hI hP.hereditary hP.agent
  unfold screenshotsDirectory
  split
  · exact Task.meets_bind hagent fun _ h =>
      Task.meets_pure (h.child hP.hereditary hP.screenshots)
  · exact Task.meets_bind hagent fun _ h =>
      Task.meets_pure (h.child hP.hereditary hP.screenshots)
  · exact Task.meets_bind
      (Task.meets_expandHome hI hP.hereditary (Path.all_ofText hP.hereditary (hgiven _ rfl)))
      fun p hp => meets_fromProject hI hP.hereditary hp

omit hI hP in
theorem meets_now : now.Meets outside I (fun _ => True) fun fault => Text.Encodes fault.message := by
  refine Task.meets_bind (P := fun _ => True)
    ((Task.asks_setVariable? _).meets fun m _ => ?_) fun v _ => ?_
  · rw [show (Task.setVariable? "LRA_TEST_NOW_ISO").run outside m = (.ok _, m) from rfl]
    trivial
  · split
    · exact Task.meets_read fun _ _ => trivial
    · split
      · exact Task.meets_pure trivial
      next problem _ => exact Task.meets_fail (by cases problem <;> simp [Fault.ofTimestamp,
          Fault.message, Excess.message, Invalid.message])

end Layout

/-! ## Screenshots -/

/-- The path of a screenshot can be encoded, and the way to it is as `P` says. -/
theorem Run.meets_screenshotPath (hI : ∀ m, I m → m.setting.All P) (hP : Text.OfPaths P)
    {feature : Feature} (hid : P feature.id) {options : Options}
    (hoptions : ∀ directory ∈ options.screenshots, directory.All P) :
    (screenshotPath feature options).Meets outside I
      (fun path => Text.Encodes path.toText ∧ path.parent.All P)
      fun fault => Text.Encodes fault.message := by
  have hnamed : ∀ directory : Path, directory.All P → ((do
      let stamp ← Layout.stamp
      pure (directory.child (feature.id ++ "-" ++ stamp ++ ".png"))) : Task Path).Meets outside I
      (fun path => Text.Encodes path.toText ∧ path.parent.All P)
      fun fault => Text.Encodes fault.message := by
    intro directory hdirectory
    refine Task.meets_bind (P := fun stamp => ∃ now : Instant, stamp = now.stamp)
      (Task.meets_bind Layout.meets_now fun now _ => Task.meets_pure ⟨now, rfl⟩) ?_
    rintro _ ⟨now, rfl⟩
    refine Task.meets_pure ?_
    have hname : feature.id ++ "-" ++ now.stamp ++ ".png" =
        feature.id ++ (("-" : Text) ++ now.stamp ++ ".png") := by simp
    have hslash : ('/' : CodePoint) ∉ (("-" : Text) ++ now.stamp ++ ".png" : Text) := by
      simp only [List.mem_append, not_or]
      exact ⟨⟨by decide, now.slash_notMem_stamp⟩, by decide⟩
    have hlong : 2 ≤ (("-" : Text) ++ now.stamp ++ ".png" : Text).length := by
      simp only [List.length_append]
      have hpng : (Text.of ".png").length = 4 := rfl
      omega
    rw [hname]
    refine ⟨Path.all_encodes.mp ?_, hdirectory.parent_child hP.hereditary hslash hlong hid⟩
    exact (hdirectory.mono hP.encodes).child Text.hereditary_encodes
      (by simp [hP.encodes _ hid, now.encodes_stamp])
  unfold screenshotPath
  cases hgiven : options.screenshots with
  | some directory => exact hnamed directory (hoptions directory hgiven)
  | none =>
    refine Task.meets_bind ((Layout.meets_screenshotsDirectory hI hP (by simp)).mono
      (fun _ h => h) fun fault h => ?_) hnamed
    rw [h]
    exact Text.encodes_of _

end

end Acceptance
