import Acceptance.Proofs.JsonCanon
import Acceptance.Proofs.Rereading

/-! # Names of keys

A document has a name for every entry of an object, also for one whose key is a number. What is read
from it has these names as keys. So the document of what was read has the same entries, but it may
have them in another order: it is the same document exactly if the names were in order. -/

namespace Acceptance

namespace Json

variable {depth : Nat} {entries : Entries} {v w : Value} {level : Nat} {after : Text}

/-! ## Values that are laid out alike -/

def LaidOutAlike (v w : Value) : Prop := ∀ level after, layout level v after = layout level w after

theorem laidOutAlike_refl (v : Value) : LaidOutAlike v v := fun _ _ => rfl

theorem layoutEntries_renamed (h : ∀ e ∈ entries, LaidOutAlike (reread e.2) e.2) :
    layoutEntries level (renamed entries) after = layoutEntries level entries after := by
  induction entries with
  | nil => rfl
  | cons e rest ih =>
    obtain ⟨hvalue, hrest⟩ := List.forall_mem_cons.mp h
    have hcons : renamed (e :: rest) = (.text (keyName e.1), reread e.2) :: renamed rest := rfl
    have hempty : (renamed rest).isEmpty = rest.isEmpty := List.isEmpty_map
    rw [hcons, layoutEntries, layoutEntries, ih hrest, hvalue, hempty]
    rfl

theorem laidOutAlike_reread (hnames : (names entries).Nodup)
    (hvalues : ∀ e ∈ entries, LaidOutAlike (reread e.2) e.2) :
    LaidOutAlike (reread (.object entries)) (.object entries) := by
  intro level after
  have hempty : (renamed entries).isEmpty = entries.isEmpty := List.isEmpty_map
  rw [reread_of_nodup hnames, layout, layout, hempty, layoutEntries_renamed hvalues]

/-! ## Objects in order -/

/-- The names are in the order of texts. -/
def InNameOrder (entries : Entries) : Prop :=
  (names entries).Pairwise fun s t => Text.le s t = true

/-- Texts as keys are in order once the entries are. -/
theorem inNameOrder_inOrder (h : ∀ e ∈ entries, e.1.isText = true) :
    InNameOrder (inOrder entries) := by
  have hsorted : Sorted (inOrder entries) := sorted_sortEntries (texts_orderedEntries h)
  refine (sorted_iff_pairwise fun e he => ?_).mp hsorted
  obtain ⟨f, hf, rfl⟩ := (mem_inOrder h).mp he
  exact h f hf

/-- An object is in order exactly if its names are, and the values under them. -/
theorem ordered_eq_self_iff (h : AreNamed entries) :
    ordered (.object entries) = .object entries ↔
      InNameOrder entries ∧ ∀ e ∈ entries, ordered e.2 = e.2 := by
  have hobject : ordered (.object entries) = .object (inOrder entries) := rfl
  rw [hobject, Value.object.injEq]
  constructor
  · intro heq
    refine ⟨heq ▸ inNameOrder_inOrder h.texts, fun e he => ?_⟩
    have hordered : (e.1, ordered e.2) ∈ entries := heq ▸ (mem_inOrder h.texts).mpr ⟨e, he, rfl⟩
    exact congrArg Prod.snd (List.inj_on_of_nodup_map h.distinct hordered he rfl)
  · rintro ⟨hnames, hvalues⟩
    have hsame : orderedEntries entries = entries := by
      rw [orderedEntries_eq_map]
      conv => rhs; rw [← List.map_id entries]
      exact List.map_congr_left fun e he => Prod.ext rfl (hvalues e he)
    rw [inOrder, hsame, sortEntries_eq_foldr h.texts,
      foldr_insertEntry ((sorted_iff_pairwise h.texts).mpr hnames)]

/-! ## What is read from a document -/

/-- What is read from the document of the value is laid out as the document is. -/
def KeepsLayout (v : Value) : Prop := LaidOutAlike (reread (ordered v)) (ordered v)

/-- What is read from the document of the value is in order. -/
def KeepsOrder (v : Value) : Prop := ordered (reread (ordered v)) = reread (ordered v)

theorem keepsLayout_of_kept (h : Kept depth v) : KeepsLayout v := by
  unfold KeepsLayout
  rw [reread_of_kept _ (kept_ordered v h)]
  exact laidOutAlike_refl _

theorem keepsOrder_of_kept (h : Kept depth v) : KeepsOrder v := by
  unfold KeepsOrder
  rw [reread_of_kept _ (kept_ordered v h), ordered_ordered v h]

theorem keepsLayout_object (h : TextKeys entries) (hvalues : ∀ e ∈ entries, KeepsLayout e.2) :
    KeepsLayout (.object entries) := by
  refine laidOutAlike_reread h.inOrder.areNamed.nodup_names fun e he => ?_
  obtain ⟨f, hf, rfl⟩ := (mem_inOrder h.texts).mp he
  exact hvalues f hf

theorem keepsOrder_iff (h : (names (inOrder entries)).Nodup) :
    KeepsOrder (.object entries) ↔
      InNameOrder (inOrder entries) ∧ ∀ e ∈ inOrder entries, ordered (reread e.2) = reread e.2 := by
  have hreread : reread (ordered (.object entries)) = .object (renamed (inOrder entries)) :=
    reread_of_nodup h
  unfold KeepsOrder
  rw [hreread, ordered_eq_self_iff (areNamed_renamed h), InNameOrder, InNameOrder, names_renamed]
  unfold renamed
  rw [List.forall_mem_map]

/-- Keys that are texts stay in order, so only the values count. -/
theorem keepsOrder_object (h : TextKeys entries) :
    KeepsOrder (.object entries) ↔ ∀ e ∈ entries, KeepsOrder e.2 := by
  rw [keepsOrder_iff h.inOrder.areNamed.nodup_names, and_iff_right (inNameOrder_inOrder h.texts)]
  constructor
  · intro hall e he
    exact hall (e.1, ordered e.2) ((mem_inOrder h.texts).mpr ⟨e, he, rfl⟩)
  · intro hall e he
    obtain ⟨f, hf, rfl⟩ := (mem_inOrder h.texts).mp he
    exact hall f hf

/-- What is read from a document is written as this document again exactly if it is in order. -/
theorem layout_ordered_eq_iff {document : Text} (hkept : Kept mostNested v) (hwritable : Writable v)
    (hread : read document = .ok v) (hlayout : document = layout 0 v "\n") :
    layout 0 (ordered v) "\n" = document ↔ ordered v = v := by
  have hread' : read (layout 0 (ordered v) "\n") = .ok (ordered v) :=
    read_layout (kept_ordered v hkept) hwritable
  constructor
  · intro hsame
    rw [hsame, hread] at hread'
    exact (Except.ok.inj hread').symm
  · intro hsame
    rw [hsame, hlayout]

/-! ## Numbers as keys -/

/-- The name of a key that is no text is what is written for it as a value. -/
theorem layout_toValue {k : Key} (h : k.isText = false) : layout 0 k.toValue after =
    keyName k ++ after := by
  cases k with
  | text t => exact absurd h (by simp [Key.isText])
  | int n => rfl
  | real x => rfl
  | bool b => cases b <;> rfl

theorem toValue_inj {k l : Key} (h : k.toValue = l.toValue) : k = l := by
  cases k <;> cases l <;> simp_all [Key.toValue]

/-- Keys of one kind that were read as values are told apart by their names. -/
theorem keyName_inj_of_asRead {k l : Key} (hk : AsRead 0 k.toValue) (hl : AsRead 0 l.toValue)
    (hkind : k.isText = l.isText) (h : keyName k = keyName l) : k = l := by
  have hreads : ∀ {k : Key}, AsRead 0 k.toValue → k.isText = false →
      read (keyName k ++ "\n") = .ok k.toValue := by
    intro k hk hnumber
    have hkept : Kept mostNested k.toValue := by
      cases k with
      | text t => exact absurd hnumber (by simp [Key.isText])
      | real x => exact hk
      | int n => trivial
      | bool b => trivial
    have hscalar : ordered k.toValue = k.toValue := by cases k <;> rfl
    have hwritable : unwritable? (ordered k.toValue) = none := writable_of_asRead _ hk
    rw [hscalar] at hwritable
    rw [← layout_toValue hnumber]
    exact read_layout hkept hwritable
  cases htext : k.isText with
  | true => exact keyName_inj htext (hkind ▸ htext) h
  | false =>
    have hread := hreads hk htext
    rw [h, hreads hl (hkind ▸ htext)] at hread
    exact (toValue_inj (Except.ok.inj hread)).symm

mutual

/-- All numbers in the value are finite. -/
def HasFinite : Value → Prop
  | .list items => HasFiniteItems items
  | .object entries => HasFiniteUnder entries
  | .real x => x.isFinite = true
  | _ => True

def HasFiniteItems : List Value → Prop
  | [] => True
  | v :: rest => HasFinite v ∧ HasFiniteItems rest

def HasFiniteUnder : List (Key × Value) → Prop
  | [] => True
  | (_, v) :: rest => HasFinite v ∧ HasFiniteUnder rest

end

theorem hasFinite_list {items : List Value} :
    HasFinite (.list items) ↔ ∀ v ∈ items, HasFinite v := by
  show HasFiniteItems items ↔ _
  induction items with
  | nil => simp [HasFiniteItems]
  | cons v rest ih => rw [HasFiniteItems, ih, List.forall_mem_cons]

theorem hasFinite_object : HasFinite (.object entries) ↔ ∀ e ∈ entries, HasFinite e.2 := by
  show HasFiniteUnder entries ↔ _
  induction entries with
  | nil => simp [HasFiniteUnder]
  | cons e rest ih => rw [HasFiniteUnder, ih, List.forall_mem_cons]

theorem HasFinite.get? {key : Text} (h : HasFinite (.object entries))
    (hget : entries.get? key = some v) : HasFinite v := by
  obtain ⟨e, he, rfl⟩ := Option.map_eq_some_iff.mp hget
  exact hasFinite_object.mp h e (List.mem_of_find?_eq_some he)

/-- A finite number has a place among others. -/
theorem hasPlace_of_hasFinite {k : Key} (h : HasFinite k.toValue) : hasPlace k = true := by
  cases k with
  | text t => rfl
  | int n => rfl
  | bool b => rfl
  | real x =>
    have hexponent : (x.exponent == 2047) = false := by
      simpa [HasFinite, Key.toValue, Binary64.isFinite] using h
    simp [hasPlace, Key.position?, Binary64.isNaN, Binary64.isInfinite, hexponent]

end Json

end Acceptance
