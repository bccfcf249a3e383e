import Mathlib.Order.Defs.Unbundled
import Acceptance.Machine.Files

/-! # Changes of files

What is at each place of a tree after a change of it. -/

namespace Acceptance

namespace FileTree

variable {files files' : FileTree} {place other : Place} {node : Node}

/-! ## Places -/

@[simp] theorem get?_root (files : FileTree) : files.get? [] = some .directory := rfl

/-- What is at a place that is not the root. -/
theorem get?_of_ne_root (files : FileTree) (h : place ≠ []) :
    files.get? place = (files.find? fun e => e.1 = place).map (·.2) := by
  simp [get?, h]

theorem get?_put_self (files : FileTree) (node : Node) (h : place ≠ []) :
    (files.put place node).get? place = some node := by
  rw [get?_of_ne_root _ h]
  induction files with
  | nil => simp [put]
  | cons e rest ih =>
    unfold put
    split
    · simp
    · simp_all

theorem get?_put_of_ne (files : FileTree) (node : Node) (h : other ≠ place) :
    (files.put place node).get? other = files.get? other := by
  by_cases hroot : other = []
  · subst hroot; rfl
  rw [get?_of_ne_root _ hroot, get?_of_ne_root _ hroot]
  induction files with
  | nil => simp [put, h.symm]
  | cons e rest ih =>
    unfold put
    split
    next he => simp [he, h.symm]
    next =>
      rw [List.find?_cons, List.find?_cons]
      split
      · rfl
      · exact ih

theorem put_put (files : FileTree) (place : Place) (node node' : Node) :
    (files.put place node).put place node' = files.put place node' := by
  induction files with
  | nil => simp [put]
  | cons e rest ih =>
    by_cases he : e.1 = place
    · simp [put, he]
    · simp [put, he, ih]

/-! ## Removal -/

theorem get?_remove_of_below (files : FileTree) (h : place <+: other) (hroot : other ≠ []) :
    (files.remove place).get? other = none := by
  rw [get?_of_ne_root _ hroot, Option.map_eq_none_iff, List.find?_eq_none]
  intro e he hplace
  obtain ⟨-, hbelow⟩ := List.mem_filter.mp he
  rw [of_decide_eq_true hplace, List.isPrefixOf_iff_prefix.mpr h] at hbelow
  exact Bool.false_ne_true hbelow

theorem get?_remove_of_not_below (files : FileTree) (h : ¬ place <+: other) :
    (files.remove place).get? other = files.get? other := by
  by_cases hroot : other = []
  · rw [hroot, get?_root, get?_root]
  rw [get?_of_ne_root _ hroot, get?_of_ne_root _ hroot, remove, List.find?_filter]
  refine congrArg _ (congrArg (List.find? · files) (funext fun e => ?_))
  by_cases he : e.1 = other
  · simp [he, ← List.isPrefixOf_iff_prefix] at h ⊢
    exact h
  · simp [he]

/-- Once something is removed, names lead where they led before, or through something missing. -/
theorem walk_remove (files : FileTree) (gone place : Place) (names : List Text) :
    (files.remove gone).walk place names = files.walk place names ∨
      (files.remove gone).walk place names = .error .missing := by
  induction names generalizing place with
  | nil => exact .inl rfl
  | cons name names ih =>
    by_cases hbelow : gone <+: place ∧ place ≠ []
    · exact .inr (by rw [walk, get?_remove_of_below files hbelow.1 hbelow.2])
    · have hget : (files.remove gone).get? place = files.get? place := by
        by_cases hroot : place = []
        · rw [hroot, get?_root, get?_root]
        · exact get?_remove_of_not_below files fun h => hbelow ⟨h, hroot⟩
      rw [walk, walk, hget]
      split
      · exact .inl rfl
      · exact .inl rfl
      · split
        · exact ih _
        · split
          · exact .inl rfl
          · exact ih _

/-! ## Growth -/

/-- The second tree is the first with more directories. -/
def Grown (files files' : FileTree) : Prop :=
  ∀ place, files'.get? place = files.get? place ∨
    files.get? place = none ∧ files'.get? place = some .directory

instance : IsPreorder FileTree Grown where
  refl _ _ := Or.inl rfl
  trans a b c hab hbc place := by
    rcases hbc place with hc | ⟨hb, hc⟩
    · rw [hc]; exact hab place
    · rcases hab place with ha | ⟨ha, hb'⟩
      · exact Or.inr ⟨ha ▸ hb, hc⟩
      · rw [hb] at hb'; simp at hb'

/-- What was there is still there. -/
theorem Grown.get? (h : Grown files files') (hnode : files.get? place = some node) :
    files'.get? place = some node := by
  rcases h place with h | ⟨hnone, -⟩
  · rw [h, hnode]
  · rw [hnone] at hnode; simp at hnode

/-- What is there now, if it is a file, was there before. -/
theorem Grown.file {content : List UInt8} {executable : Bool} (h : Grown files files')
    (hfile : files'.get? place = some (.file content executable)) :
    files.get? place = some (.file content executable) := by
  rcases h place with h | ⟨-, hdirectory⟩
  · rw [← h, hfile]
  · rw [hdirectory] at hfile; simp at hfile

theorem grown_put (h : files.get? place = none) : Grown files (files.put place .directory) := by
  intro q
  by_cases hq : q = place
  · subst hq
    have hroot : q ≠ [] := by rintro rfl; simp at h
    exact Or.inr ⟨h, get?_put_self _ _ hroot⟩
  · exact Or.inl (get?_put_of_ne _ _ hq)

theorem grown_makeDirectory {directory : Place} {path : Path}
    (h : files.makeDirectory directory path = .ok files') : Grown files files' := by
  unfold makeDirectory at h
  cases hplace : files.locate directory path with
  | error problem => simp [hplace, bind, Except.bind] at h
  | ok place =>
    cases hnode : files.get? place with
    | some node => simp [hplace, hnode, bind, Except.bind] at h
    | none =>
      simp only [hplace, hnode, bind, Except.bind, Except.ok.injEq] at h
      exact h ▸ grown_put hnode

theorem grown_ensureOne (files : FileTree) (directory : Place) (path : Path) :
    Grown files (files.ensureOne directory path).1 := by
  unfold ensureOne
  split
  · exact grown_makeDirectory (by assumption)
  · split <;> exact refl_of Grown files

theorem grown_ensureParts (files : FileTree) (directory : Place) (root : Text)
    (parts : List Text) : Grown files (files.ensureParts directory root parts).1 := by
  induction parts with
  | nil => exact grown_ensureOne _ _ _
  | cons last above ih =>
    unfold ensureParts
    dsimp only
    split
    · split
      next habove =>
        rw [habove] at ih
        exact trans_of Grown ih (grown_ensureOne _ _ _)
      · exact ih
    · exact grown_ensureOne _ _ _

theorem grown_ensure (files : FileTree) (directory : Place) (path : Path) :
    Grown files (files.ensure directory path).1 :=
  grown_ensureParts _ _ _ _

/-! ## Paths -/

/-- The places that the names lead through from a place, which is the first of them. -/
def wayFrom : Place → List Text → List Place
  | _, [] => []
  | place, name :: names =>
    place :: wayFrom (if name = Text.of ".." then place.dropLast
      else place ++ [Utf8.settledName name]) names

/-- The places that a path leads through. -/
def way (directory : Place) (path : Path) : List Place :=
  wayFrom (if path.isAbsolute then [] else directory) path.parts

/-- Where the names led before, they lead in a tree that kept the directories on the way. -/
theorem walk_of_way {names : List Text}
    (h : ∀ q ∈ wayFrom place names, files.get? q = some .directory →
      files'.get? q = some .directory)
    (hwalk : files.walk place names = .ok other) : files'.walk place names = .ok other := by
  induction names generalizing place with
  | nil => simpa [walk] using hwalk
  | cons name names ih =>
    obtain ⟨hplace, hrest⟩ := List.forall_mem_cons.mp h
    unfold walk at hwalk ⊢
    cases hnode : files.get? place with
    | none => simp [hnode] at hwalk
    | some node =>
      cases node with
      | file content executable => simp [hnode] at hwalk
      | directory =>
        rw [hplace hnode]
        simp only [hnode] at hwalk ⊢
        split at hwalk
        next hname =>
          rw [if_pos hname] at hrest
          rw [if_pos hname]
          exact ih hrest hwalk
        next hname =>
          rw [if_neg hname] at hrest
          split at hwalk
          · simp at hwalk
          next hlength =>
            rw [if_neg hname, if_neg hlength]
            exact ih hrest hwalk

theorem locate_of_way {directory : Place} {path : Path}
    (h : ∀ q ∈ way directory path, files.get? q = some .directory →
      files'.get? q = some .directory)
    (hlocate : files.locate directory path = .ok place) :
    files'.locate directory path = .ok place := by
  unfold locate at hlocate ⊢
  split at hlocate
  · simp at hlocate
  next hlength => rw [if_neg hlength]; exact walk_of_way h hlocate

theorem locate_of_directories
    (h : ∀ place, files.get? place = some .directory → files'.get? place = some .directory)
    {directory : Place} {path : Path} (hlocate : files.locate directory path = .ok place) :
    files'.locate directory path = .ok place :=
  locate_of_way (fun q _ => h q) hlocate

end FileTree

end Acceptance
