import Acceptance.Proofs.Recording

/-! # Below a directory

What is made below a directory has a path that goes on from the path of the directory. The system
takes it if it takes one that is longer, it leads to a place below that of the directory, and making
other directories does not touch that place. -/

namespace Acceptance

variable {outside : Outside} {place q : Place} {m : Machine} {p : Path} {t : Text}
  {names others : List Text}

/-! ## Paths -/

namespace Path

/-- The path that leads on by these names. -/
def below (p : Path) (names : List Text) : Path := { p with parts := p.parts ++ names }

theorem child_eq_below (ht : Place.IsName t) : p.child t = p.below [t] := Place.child_eq ht p

theorem below_child (ht : Place.IsName t) : (p.below names).child t = p.below (names ++ [t]) := by
  rw [Place.child_eq ht, below, below, List.append_assoc]

/-- The system takes the path. -/
structure Usable (p : Path) : Prop where
  problem : Task.pathProblem? p = none
  short : FileTree.byteLength p.toText ≤ FileTree.longestPath

/-- All texts of paths below this one start alike. -/
theorem exists_toText_below (p : Path) :
    ∃ front, ∀ names ≠ [], (p.below names).toText = front ++ Text.joinWith "/" names := by
  by_cases hparts : p.parts = []
  · refine ⟨p.root, fun names hnames => ?_⟩
    rw [toText_of_ne (.inr (by simp [below, hnames])), below, hparts, List.nil_append]
  · refine ⟨p.root ++ (Text.joinWith "/" p.parts ++ "/"), fun names hnames => ?_⟩
    rw [toText_of_ne (.inr (by simp [below, hnames])), below, joinWith_append hparts hnames]
    simp only [List.append_assoc]

/-- The system takes a path below another one if it takes one that is not shorter. -/
theorem Usable.below (h : (p.below names).Usable) (hnames : names ≠ []) (hothers : others ≠ [])
    (hchars : ∀ c ∈ Text.joinWith "/" others,
      c.val ≠ 0 ∧ (Utf8.isEscape c || !c.isSurrogate) = true)
    (hshort : FileTree.byteLength (Text.joinWith "/" others) ≤
      FileTree.byteLength (Text.joinWith "/" names)) : (p.below others).Usable := by
  obtain ⟨front, hfront⟩ := exists_toText_below p
  obtain ⟨hproblem, hlong⟩ := h
  rw [pathProblem?_eq_none, hfront names hnames, List.forall_mem_append] at hproblem
  rw [hfront names hnames] at hlong
  refine ⟨?_, ?_⟩
  · rw [pathProblem?_eq_none, hfront others hothers]
    exact List.forall_mem_append.mpr ⟨hproblem.1, hchars⟩
  · rw [hfront others hothers]
    unfold FileTree.byteLength at hshort hlong ⊢
    rw [List.flatMap_append, List.length_append] at hlong ⊢
    omega

end Path

/-! ## Places -/

namespace Place

theorem follow_names (hnames : ∀ t ∈ names, IsName t) (place : Place) :
    follow place names = place ++ names := by
  induction names generalizing place with
  | nil => simp [follow]
  | cons t rest ih =>
    obtain ⟨ht, hrest⟩ := List.forall_mem_cons.mp hnames
    rw [follow, if_neg ht.notUp, ht.settled, ih hrest, List.append_assoc, List.singleton_append]

theorem ofPath_below (hnames : ∀ t ∈ names, IsName t) (directory : Place) (p : Path) :
    ofPath directory (p.below names) = ofPath directory p ++ names := by
  unfold ofPath
  rw [Path.below, follow_append, follow_names hnames]
  rfl

theorem length_follow (hnames : Text.of ".." ∉ names) (place : Place) :
    (follow place names).length = place.length + names.length := by
  induction names generalizing place with
  | nil => rfl
  | cons t rest ih =>
    obtain ⟨ht, hrest⟩ := List.ne_and_not_mem_of_not_mem_cons hnames
    rw [follow, if_neg ht.symm, ih hrest, List.length_append, List.length_singleton,
      List.length_cons]
    omega

end Place

namespace FileTree

variable {files files' : FileTree} {directory : Place}

theorem short_of_locate (h : files.locate directory p = .ok place) :
    byteLength p.toText ≤ longestPath := by
  unfold locate at h
  split at h
  · exact absurd h (by simp)
  · omega

theorem LeadsTo.locate (h : files.LeadsTo directory p place) (ht : Place.IsName t)
    (hshort : byteLength t ≤ longestName) (husable : (p.child t).Usable) :
    files.locate directory (p.child t) = .ok (place ++ [t]) :=
  (locate_child ht hshort husable.short).mpr ⟨place, h, rfl⟩

theorem LeadsTo.mono (h : files.LeadsTo directory p place)
    (hdirectories : ∀ q, files.get? q = some .directory → files'.get? q = some .directory) :
    files'.LeadsTo directory p place :=
  ⟨walk_of_way (fun q _ => hdirectories q) h.1, hdirectories place h.2⟩

/-! ## Making directories -/

/-- Making directories on a path without two points touches nothing below it. -/
theorem get?_ensure_below (hroot : p.isAbsolute = true) (hparts : Text.of ".." ∉ p.parts)
    (hnames : ∀ t ∈ names, Place.IsName t) (hothers : others ≠ []) (hne : ¬ others <+: names) :
    (files.ensure directory (p.below names)).1.get? (Place.ofPath directory p ++ others) =
      files.get? (Place.ofPath directory p ++ others) := by
  refine get?_ensure fun made hmade => ?_
  have hplace : Place.ofPath directory p = Place.follow [] p.parts := by
    unfold Place.ofPath
    rw [if_pos hroot]
  rcases List.prefix_or_prefix_of_prefix hmade (List.prefix_append p.parts names) with hin | hout
  · -- A directory above is too short a place.
    intro heq
    have hlength := congrArg List.length heq
    have hmade' : Text.of ".." ∉ made := fun hup => hparts (hin.subset hup)
    have hofPath : Place.ofPath directory { p.below names with parts := made } =
        Place.follow [] made := by
      unfold Place.ofPath
      rw [if_pos (show Path.isAbsolute { p.below names with parts := made } = true from hroot)]
    rw [hofPath, hplace, List.length_append, Place.length_follow hmade',
      Place.length_follow hparts] at hlength
    have hle := hin.length_le
    have hpos := List.length_pos_iff.mpr hothers
    omega
  · obtain ⟨more, rfl⟩ := hout
    have hmore : more <+: names := (List.prefix_append_right_inj p.parts).mp hmade
    have hplain : ∀ t ∈ more, Place.IsName t := fun t ht => hnames t (hmore.subset ht)
    have hofPath : Place.ofPath directory { p.below names with parts := p.parts ++ more } =
        Place.ofPath directory p ++ more := Place.ofPath_below hplain directory p
    rw [hofPath, Ne, List.append_cancel_left_eq]
    rintro rfl
    exact hne hmore

/-- Where a file is, no directory is made. -/
theorem ensure_of_file {content : List UInt8} {executable : Bool}
    (hlocate : files.locate directory p = .ok place)
    (hfile : files.get? place = some (.file content executable)) :
    files.ensure directory p = (files, some (.alreadyThere, p)) := by
  have hmake : files.makeDirectory directory p = .error .alreadyThere := by
    unfold makeDirectory
    simp [hlocate, hfile, bind, Except.bind]
  rw [ensure_eq_ensureOne (by rw [hmake]; simp), ensureOne, hmake]
  simp [isDirectory, hlocate, hfile]

end FileTree

end Acceptance
