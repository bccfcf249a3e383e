import Mathlib.Data.List.Perm.Basic
import Acceptance.Proofs.JsonDocument

/-! # The order of keys

Putting the entries of an object in the order of their keys changes nothing else. -/

namespace Acceptance

namespace Json

/-! ## Objects and lists, part by part -/

theorem keptItems_iff {depth : Nat} {items : List Value} :
    KeptItems depth items ↔ ∀ v ∈ items, Kept depth v := by
  induction items with
  | nil => simp [KeptItems]
  | cons v rest ih => rw [KeptItems, ih, List.forall_mem_cons]

theorem keptUnder_iff {depth : Nat} {entries : Entries} :
    KeptUnder depth entries ↔ ∀ e ∈ entries, Kept depth e.2 := by
  induction entries with
  | nil => simp [KeptUnder]
  | cons e rest ih => rw [KeptUnder, ih, List.forall_mem_cons]

theorem orderedItems_eq_map (items : List Value) : orderedItems items = items.map ordered := by
  induction items with
  | nil => rfl
  | cons v rest ih => rw [orderedItems, ih, List.map_cons]

theorem orderedEntries_eq_map (entries : Entries) :
    orderedEntries entries = entries.map fun e => (e.1, ordered e.2) := by
  induction entries with
  | nil => rfl
  | cons e rest ih => rw [orderedEntries, ih, List.map_cons]

theorem keys_orderedEntries (entries : Entries) :
    (orderedEntries entries).map (·.1) = entries.map (·.1) := by
  rw [orderedEntries_eq_map, List.map_map]
  rfl

/-! ## Sorting -/

theorem insertEntry_perm (e : Key × Value) (entries : Entries) :
    (insertEntry e entries).Perm (e :: entries) := by
  induction entries with
  | nil => exact List.Perm.refl _
  | cons f rest ih =>
    rw [insertEntry]
    split
    · exact (ih.cons f).trans (List.Perm.swap e f rest)
    · exact List.Perm.refl _

theorem foldr_insertEntry_perm (entries : Entries) :
    (entries.foldr insertEntry []).Perm entries := by
  induction entries with
  | nil => exact List.Perm.refl _
  | cons e rest ih =>
    rw [List.foldr_cons]
    exact (insertEntry_perm e _).trans (ih.cons e)

/-- Keys that all have a place are sorted. -/
theorem sortEntries_perm_of_hasPlace {entries : Entries} (h : ∀ e ∈ entries, hasPlace e.1 = true) :
    (sortEntries entries).Perm entries := by
  unfold sortEntries
  rw [if_pos (List.all_eq_true.mpr h)]
  exact foldr_insertEntry_perm entries

theorem sortEntries_eq_foldr {entries : Entries} (h : ∀ e ∈ entries, e.1.isText = true) :
    sortEntries entries = entries.foldr insertEntry [] := by
  have hplaces : entries.all (hasPlace ·.1) = true := by
    rw [List.all_eq_true]
    intro e he
    have htext := h e he
    obtain ⟨k, v⟩ := e
    cases k <;> simp_all [hasPlace, Key.position?, Key.isText]
  unfold sortEntries
  rw [if_pos hplaces]

theorem sortEntries_perm {entries : Entries} (h : ∀ e ∈ entries, e.1.isText = true) :
    (sortEntries entries).Perm entries := by
  rw [sortEntries_eq_foldr h]
  exact foldr_insertEntry_perm entries

theorem TextKeys.of_keys_perm {entries others : Entries} (h : TextKeys entries)
    (hperm : (others.map (·.1)).Perm (entries.map (·.1))) : TextKeys others := by
  have hmem : ∀ e ∈ others, e.1 ∈ entries.map (·.1) := fun e he =>
    hperm.mem_iff.mp (List.mem_map_of_mem he)
  refine ⟨?_, ?_, hperm.nodup_iff.mpr h.distinct⟩
  · intro e he
    obtain ⟨f, hf, hkey⟩ := List.mem_map.mp (hmem e he)
    rw [← hkey]
    exact h.texts f hf
  · intro e he
    obtain ⟨f, hf, hkey⟩ := List.mem_map.mp (hmem e he)
    rw [← hkey]
    exact h.encodes f hf

theorem TextKeys.ordered {entries : Entries} (h : TextKeys entries) :
    TextKeys (orderedEntries entries) :=
  h.of_keys_perm (by rw [keys_orderedEntries])

/-- The entries of an object as they are written. -/
def inOrder (entries : Entries) : Entries := sortEntries (orderedEntries entries)

theorem texts_orderedEntries {entries : Entries} (h : ∀ e ∈ entries, e.1.isText = true) :
    ∀ e ∈ orderedEntries entries, e.1.isText = true := by
  rw [orderedEntries_eq_map]
  intro e he
  obtain ⟨f, hf, rfl⟩ := List.mem_map.mp he
  exact h f hf

theorem inOrder_perm {entries : Entries} (h : ∀ e ∈ entries, e.1.isText = true) :
    (inOrder entries).Perm (orderedEntries entries) :=
  sortEntries_perm (texts_orderedEntries h)

/-- An entry as it is written was among those given, with its value in order. -/
theorem mem_inOrder {entries : Entries} (h : ∀ e ∈ entries, e.1.isText = true) {e : Key × Value} :
    e ∈ inOrder entries ↔ ∃ f ∈ entries, (f.1, ordered f.2) = e := by
  rw [(inOrder_perm h).mem_iff, orderedEntries_eq_map, List.mem_map]

theorem TextKeys.inOrder {entries : Entries} (h : TextKeys entries) :
    TextKeys (Json.inOrder entries) :=
  h.ordered.of_keys_perm ((inOrder_perm h.texts).map _)

mutual

theorem kept_ordered : ∀ (v : Value) {depth : Nat}, Kept depth v → Kept depth (ordered v)
  | .null, _, h | .bool _, _, h | .int _, _, h | .real _, _, h | .text _, _, h | .moment _, _, h => h
  | .list items, _, ⟨hdepth, hitems⟩ => ⟨hdepth, keptItems_ordered items hitems⟩
  | .object entries, depth, ⟨hdepth, hkeys, hunder⟩ => by
    refine ⟨hdepth, hkeys.inOrder, ?_⟩
    have hordered := keptUnder_iff.mp (keptUnder_ordered entries hunder)
    refine keptUnder_iff.mpr fun e he => hordered e ?_
    exact (inOrder_perm hkeys.texts).mem_iff.mp he

theorem keptItems_ordered : ∀ (items : List Value) {depth : Nat}, KeptItems depth items →
    KeptItems depth (orderedItems items)
  | [], _, h => h
  | v :: rest, _, ⟨hvalue, hrest⟩ => ⟨kept_ordered v hvalue, keptItems_ordered rest hrest⟩

theorem keptUnder_ordered : ∀ (entries : Entries) {depth : Nat}, KeptUnder depth entries →
    KeptUnder depth (orderedEntries entries)
  | [], _, h => h
  | (_, v) :: rest, _, ⟨hvalue, hrest⟩ => ⟨kept_ordered v hvalue, keptUnder_ordered rest hrest⟩

end

/-! ## Ordering once more -/

theorem le_total (s t : Text) : Text.le s t = true ∨ Text.le t s = true := by
  induction s generalizing t with
  | nil => exact Or.inl rfl
  | cons a s ih =>
    cases t with
    | nil => exact Or.inr rfl
    | cons b t =>
      simp only [Text.le, Bool.or_eq_true, Bool.and_eq_true, decide_eq_true_eq, beq_iff_eq]
      rcases Nat.lt_trichotomy a.val b.val with hlt | heq | hgt
      · exact Or.inl (Or.inl hlt)
      · rcases ih t with hle | hle
        · exact Or.inl (Or.inr ⟨heq, hle⟩)
        · exact Or.inr (Or.inr ⟨heq.symm, hle⟩)
      · exact Or.inr (Or.inl hgt)

theorem before_asymm {k l : Key} (hk : k.isText = true) (hl : l.isText = true)
    (h : k.before l = true) : l.before k = false := by
  obtain ⟨s, rfl⟩ := Key.exists_text hk
  obtain ⟨t, rfl⟩ := Key.exists_text hl
  simp only [Key.before, Bool.not_eq_true', Bool.not_eq_false'] at h ⊢
  rcases le_total _ _ with hle | hle
  · exact hle
  · rw [hle] at h
    exact absurd h (by simp)

theorem keyName_inj {k l : Key} (hk : k.isText = true) (hl : l.isText = true)
    (h : keyName k = keyName l) : k = l := by
  obtain ⟨s, rfl⟩ := Key.exists_text hk
  obtain ⟨t, rfl⟩ := Key.exists_text hl
  exact congrArg Key.text h

/-- No entry comes before the one in front of it. -/
def Sorted (entries : Entries) : Prop :=
  entries.IsChain fun e f => f.1.before e.1 = false

theorem sorted_insertEntry {e : Key × Value} {entries : Entries} (he : e.1.isText = true)
    (htexts : ∀ f ∈ entries, f.1.isText = true) (h : Sorted entries) :
    Sorted (insertEntry e entries) := by
  induction entries with
  | nil => exact List.isChain_singleton e
  | cons f rest ih =>
    rw [insertEntry]
    split
    next hbefore =>
      have hrest := ih (fun g hg => htexts g (List.mem_cons_of_mem f hg)) (List.IsChain.tail h)
      have hfront : e.1.before f.1 = false :=
        before_asymm (htexts f List.mem_cons_self) he hbefore
      cases rest with
      | nil => exact List.isChain_pair.mpr hfront
      | cons g rest =>
        -- What is in front of the rest now is the new entry or what was there.
        rw [insertEntry] at hrest ⊢
        split
        next hg =>
          rw [if_pos hg] at hrest
          exact List.isChain_cons_cons.mpr ⟨(List.isChain_cons_cons.mp h).1, hrest⟩
        next hg =>
          rw [if_neg hg] at hrest
          exact List.isChain_cons_cons.mpr ⟨hfront, hrest⟩
    next hbefore => exact List.isChain_cons_cons.mpr ⟨by simpa using hbefore, h⟩

theorem foldr_insertEntry {entries : Entries} (h : Sorted entries) :
    entries.foldr insertEntry [] = entries := by
  induction entries with
  | nil => rfl
  | cons e rest ih =>
    rw [List.foldr_cons, ih (List.IsChain.tail h)]
    cases rest with
    | nil => rfl
    | cons f rest =>
      rw [insertEntry, (List.isChain_cons_cons.mp h).1]
      rfl

theorem sorted_sortEntries {entries : Entries} (h : ∀ e ∈ entries, e.1.isText = true) :
    Sorted (sortEntries entries) := by
  rw [sortEntries_eq_foldr h]
  induction entries with
  | nil => exact List.isChain_nil
  | cons e rest ih =>
    have hrest : ∀ f ∈ rest, f.1.isText = true := fun f hf => h f (List.mem_cons_of_mem e hf)
    rw [List.foldr_cons]
    refine sorted_insertEntry (h e List.mem_cons_self) (fun f hf => hrest f ?_) (ih hrest)
    rw [← sortEntries_eq_foldr hrest] at hf
    exact (sortEntries_perm hrest).mem_iff.mp hf

theorem inOrder_inOrder {entries : Entries} (h : TextKeys entries)
    (hvalues : ∀ e ∈ entries, ordered (ordered e.2) = ordered e.2) :
    inOrder (inOrder entries) = inOrder entries := by
  have hsame : orderedEntries (inOrder entries) = inOrder entries := by
    rw [orderedEntries_eq_map]
    conv => rhs; rw [← List.map_id (inOrder entries)]
    refine List.map_congr_left fun e he => ?_
    obtain ⟨f, hf, rfl⟩ := (mem_inOrder h.texts).mp he
    rw [hvalues f hf]
    rfl
  have hsorted : Sorted (inOrder entries) := sorted_sortEntries h.ordered.texts
  show sortEntries (orderedEntries (inOrder entries)) = inOrder entries
  rw [hsame, sortEntries_eq_foldr h.inOrder.texts, foldr_insertEntry hsorted]

mutual

/-- What is in order stays as it is. -/
theorem ordered_ordered : ∀ (v : Value) {depth : Nat}, Kept depth v →
    ordered (ordered v) = ordered v
  | .null, _, _ | .bool _, _, _ | .int _, _, _ | .real _, _, _ | .text _, _, _
  | .moment _, _, _ => rfl
  | .list items, _, ⟨_, hitems⟩ => by
    have hordered : orderedItems (orderedItems items) = orderedItems items := by
      rw [orderedItems_eq_map, orderedItems_eq_map, List.map_map]
      exact List.map_congr_left (orderedItems_ordered items hitems)
    rw [ordered, ordered, hordered]
  | .object entries, _, ⟨_, hkeys, hunder⟩ =>
    congrArg Value.object (inOrder_inOrder hkeys (orderedEntries_ordered entries hunder))

theorem orderedItems_ordered : ∀ (items : List Value) {depth : Nat}, KeptItems depth items →
    ∀ v ∈ items, ordered (ordered v) = ordered v
  | [], _, _ => by simp
  | v :: rest, _, ⟨hvalue, hrest⟩ => List.forall_mem_cons.mpr
    ⟨ordered_ordered v hvalue, orderedItems_ordered rest hrest⟩

theorem orderedEntries_ordered : ∀ (entries : Entries) {depth : Nat}, KeptUnder depth entries →
    ∀ e ∈ entries, ordered (ordered e.2) = ordered e.2
  | [], _, _ => by simp
  | (_, v) :: rest, _, ⟨hvalue, hrest⟩ => List.forall_mem_cons.mpr
    ⟨ordered_ordered v hvalue, orderedEntries_ordered rest hrest⟩

end

/-! ## Entries by key -/

theorem get?_eq_some_iff {entries : Entries} (h : (entries.map (·.1)).Nodup) {key : Text}
    {v : Value} : entries.get? key = some v ↔ (.text key, v) ∈ entries := by
  induction entries with
  | nil => simp [Entries.get?]
  | cons e rest ih =>
    rw [List.map_cons, List.nodup_cons] at h
    obtain ⟨k, w⟩ := e
    by_cases hk : k = .text key
    · subst hk
      have habsent : (Key.text key, v) ∉ rest := fun hmem =>
        h.1 (List.mem_map.mpr ⟨_, hmem, rfl⟩)
      simp only [Entries.get?, List.find?_cons_of_pos, decide_true, Option.map_some,
        Option.some.injEq, List.mem_cons, Prod.mk.injEq, true_and, habsent, or_false]
      exact eq_comm
    · have hrest := ih h.2
      simp only [Entries.get?] at hrest ⊢
      rw [List.find?_cons_of_neg (by simpa using hk), hrest, List.mem_cons, Prod.mk.injEq]
      simp [Ne.symm hk]

theorem get?_map_value (f : Value → Value) (entries : Entries) (key : Text) :
    Entries.get? (entries.map fun e => (e.1, f e.2)) key = (entries.get? key).map f := by
  induction entries with
  | nil => rfl
  | cons e rest ih =>
    obtain ⟨k, v⟩ := e
    rw [List.map_cons]
    by_cases hk : k = .text key
    · simp [Entries.get?, hk]
    · simp only [Entries.get?] at ih ⊢
      rw [List.find?_cons_of_neg (by simpa using hk), List.find?_cons_of_neg (by simpa using hk), ih]

theorem get?_orderedEntries (entries : Entries) (key : Text) :
    Entries.get? (orderedEntries entries) key = (entries.get? key).map ordered := by
  rw [orderedEntries_eq_map, get?_map_value]

/-- What is under a key stays under it. -/
theorem get?_inOrder {entries : Entries} (h : TextKeys entries) (key : Text) :
    (inOrder entries).get? key = (entries.get? key).map ordered := by
  rw [← get?_orderedEntries]
  apply Option.ext
  intro v
  rw [get?_eq_some_iff h.inOrder.distinct, get?_eq_some_iff h.ordered.distinct]
  exact (inOrder_perm h.texts).mem_iff

end Json

end Acceptance
