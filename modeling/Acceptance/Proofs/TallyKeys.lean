import Acceptance.Proofs.Counting
import Acceptance.Proofs.KeyNames

/-! # Keys of tallies

Features are counted under whatever their priorities and categories are. In a project file these
keys are names. They tell the counts apart, and when the file is read and written again, the counts
are in the order of the names. -/

namespace Acceptance

open Json (AsRead HasFinite KeepsLayout KeepsOrder InNameOrder names hasPlace inOrder)

variable {entries : List Entries} {e : Entries}

theorem Key.same_self (k : Key) : k.same k = true := by
  have hnumber : ∀ p : Option Position, p.isSome = true → (p.isSome && p == p) = true := by
    intro p hp
    rw [hp, beq_self_eq_true, Bool.and_true]
  cases k with
  | text t => exact beq_self_eq_true t
  | int n => exact hnumber (Key.int n).position? rfl
  | real x => exact hnumber (Key.real x).position? rfl
  | bool b => exact hnumber (Key.bool b).position? rfl

/-! ## Keys that are counted -/

namespace Counts

variable {counts : Counts} {label : Entries → Key} {P : Key → Prop}

theorem map_fst_add (counts : Counts) (key : Key) (passes : Bool) :
    (counts.add key passes).map (·.1) =
      if counts.any (·.1.same key) then counts.map (·.1) else counts.map (·.1) ++ [key] := by
  induction counts with
  | nil => rfl
  | cons c rest ih =>
    rw [add]
    by_cases hsame : c.1.same key = true
    · simp [hsame]
    · rw [if_neg hsame, List.map_cons, ih, List.any_cons, Bool.eq_false_iff.mpr hsame,
        Bool.false_or]
      split <;> rfl

/-- Every key is that of an entry. -/
theorem forall_key_ofEntries (h : ∀ e ∈ entries, P (label e)) :
    ∀ k ∈ (ofEntries label entries).map (·.1), P k := by
  induction entries using List.reverseRecOn with
  | nil => simp
  | append_singleton entries e ih =>
    rw [List.forall_mem_append, List.forall_mem_singleton] at h
    rw [ofEntries_concat, map_fst_add]
    split
    · exact ih h.1
    · exact List.forall_mem_append.mpr ⟨ih h.1, List.forall_mem_singleton.mpr h.2⟩

/-- No two keys are the same. -/
theorem pairwise_ofEntries (label : Entries → Key) (entries : List Entries) :
    ((ofEntries label entries).map (·.1)).Pairwise fun k l => k.same l = false := by
  induction entries using List.reverseRecOn with
  | nil => exact List.Pairwise.nil
  | append_singleton entries e ih =>
    rw [ofEntries_concat, map_fst_add]
    split
    · exact ih
    next hnew =>
      refine List.pairwise_append.mpr ⟨ih, List.pairwise_singleton .., fun k hk l hl => ?_⟩
      obtain ⟨c, hc, rfl⟩ := List.mem_map.mp hk
      rw [List.mem_singleton.mp hl]
      rw [List.any_eq_true, not_exists] at hnew
      exact Bool.eq_false_iff.mpr fun hsame => hnew c ⟨hc, hsame⟩

theorem nodup_ofEntries (label : Entries → Key) (entries : List Entries) :
    ((ofEntries label entries).map (·.1)).Nodup := by
  refine (pairwise_ofEntries label entries).imp fun {k l} hdiffer heq => ?_
  rw [heq, Key.same_self] at hdiffer
  exact absurd hdiffer (by simp)

theorem map_fst_entries (counts : Counts) : counts.entries.map (·.1) = counts.map (·.1) := by
  unfold entries
  rw [List.map_map]
  rfl

/-! ## Counts in a file -/

/-- The keys can be told apart by their names: they are all texts or all of them numbers, which were
read and are finite. -/
structure AreTold (counts : Counts) : Prop where
  distinct : (counts.map (·.1)).Nodup
  read : ∀ k ∈ counts.map (·.1), AsRead 0 k.toValue
  finite : ∀ k ∈ counts.map (·.1), HasFinite k.toValue
  kind : ∀ k ∈ counts.map (·.1), ∀ l ∈ counts.map (·.1), k.isText = l.isText

/-- The names of the keys are in the order of texts where the counts are written. -/
def IsInNameOrder (counts : Counts) : Prop := InNameOrder (inOrder counts.entries)

theorem inOrder_entries_perm (h : ∀ k ∈ counts.map (·.1), HasFinite k.toValue) :
    (inOrder counts.entries).Perm (Json.orderedEntries counts.entries) := by
  refine Json.sortEntries_perm_of_hasPlace fun f hf => ?_
  have hkey : f.1 ∈ (Json.orderedEntries counts.entries).map (·.1) := List.mem_map_of_mem hf
  rw [Json.keys_orderedEntries, map_fst_entries] at hkey
  exact Json.hasPlace_of_hasFinite (h _ hkey)

theorem map_fst_inOrder (h : ∀ k ∈ counts.map (·.1), HasFinite k.toValue) :
    ((inOrder counts.entries).map (·.1)).Perm (counts.map (·.1)) := by
  have hperm := (inOrder_entries_perm h).map (·.1)
  rwa [Json.keys_orderedEntries, map_fst_entries] at hperm

/-- Every count is kept by a file. -/
theorem exists_kept_of_mem (h : counts.AreTold) {f : Key × Value}
    (hf : f ∈ inOrder counts.entries) : ∃ v, Json.Kept 1 v ∧ f.2 = Json.ordered v := by
  have hmem := (inOrder_entries_perm h.finite).mem_iff.mp hf
  rw [Json.orderedEntries_eq_map] at hmem
  obtain ⟨g, hg, rfl⟩ := List.mem_map.mp hmem
  obtain ⟨c, -, rfl⟩ := List.mem_map.mp hg
  refine ⟨_, Json.kept_record rfl fun field hfield => ?_, rfl⟩
  simp only [List.mem_cons, List.not_mem_nil, or_false] at hfield
  rcases hfield with rfl | rfl <;> trivial

theorem nodup_names_inOrder (h : counts.AreTold) : (names (inOrder counts.entries)).Nodup := by
  have hperm := map_fst_inOrder h.finite
  refine Json.nodup_names (hperm.nodup_iff.mpr h.distinct) fun f hf g hg hname => ?_
  have hf : f.1 ∈ counts.map (·.1) := hperm.mem_iff.mp (List.mem_map_of_mem hf)
  have hg : g.1 ∈ counts.map (·.1) := hperm.mem_iff.mp (List.mem_map_of_mem hg)
  exact Json.keyName_inj_of_asRead (h.read _ hf) (h.read _ hg) (h.kind _ hf _ hg) hname

theorem AreTold.keepsLayout_toValue (h : counts.AreTold) : KeepsLayout counts.toValue := by
  refine Json.laidOutAlike_reread (nodup_names_inOrder h) fun f hf => ?_
  obtain ⟨v, hv, heq⟩ := exists_kept_of_mem h hf
  rw [heq]
  exact Json.keepsLayout_of_kept hv

theorem AreTold.keepsOrder_toValue (h : counts.AreTold) :
    KeepsOrder counts.toValue ↔ counts.IsInNameOrder := by
  refine (Json.keepsOrder_iff (nodup_names_inOrder h)).trans (and_iff_left fun f hf => ?_)
  obtain ⟨v, hv, heq⟩ := exists_kept_of_mem h hf
  rw [heq]
  exact Json.keepsOrder_of_kept hv

theorem isInNameOrder_of_texts (h : ∀ k ∈ counts.map (·.1), k.isText = true) :
    counts.IsInNameOrder := by
  refine Json.inNameOrder_inOrder fun f hf => ?_
  exact h f.1 (map_fst_entries counts ▸ List.mem_map_of_mem hf)

/-- Counts that can be written are all under texts or all under numbers. -/
theorem kind_of_writable (hfinite : ∀ k ∈ counts.map (·.1), HasFinite k.toValue)
    (hwritable : Json.Writable counts.toValue) :
    ∀ k ∈ counts.map (·.1), ∀ l ∈ counts.map (·.1), k.isText = l.isText := by
  have hobject : Json.unwritable? (.object (inOrder counts.entries)) = none := hwritable
  have hmixed : Json.areMixed (inOrder counts.entries) = false := by
    cases hmixed : Json.areMixed (inOrder counts.entries) with
    | false => rfl
    | true => simp [Json.unwritable?, hmixed] at hobject
  have hnot : ∀ k ∈ counts.map (·.1), ∀ l ∈ counts.map (·.1),
      k.isText = true → l.isText = true := by
    intro k hk l hl htext
    by_contra hnumber
    have hperm := map_fst_inOrder hfinite
    obtain ⟨f, hf, rfl⟩ := List.mem_map.mp (hperm.mem_iff.mpr hk)
    obtain ⟨g, hg, rfl⟩ := List.mem_map.mp (hperm.mem_iff.mpr hl)
    have hboth : Json.areMixed (inOrder counts.entries) = true := by
      rw [Json.areMixed, Bool.and_eq_true]
      exact ⟨List.any_eq_true.mpr ⟨f, hf, htext⟩,
        List.any_eq_true.mpr ⟨g, hg, by simpa using hnumber⟩⟩
    rw [hboth] at hmixed
    exact absurd hmixed (by simp)
  exact fun k hk l hl => Bool.eq_iff_iff.mpr ⟨hnot k hk l hl, hnot l hl k hk⟩

theorem areTold_ofEntries (hread : ∀ e ∈ entries, AsRead 0 (label e).toValue)
    (hfinite : ∀ e ∈ entries, HasFinite (label e).toValue)
    (hwritable : Json.Writable (ofEntries label entries).toValue) :
    (ofEntries label entries).AreTold where
  distinct := nodup_ofEntries label entries
  read := forall_key_ofEntries hread
  finite := forall_key_ofEntries hfinite
  kind := kind_of_writable (forall_key_ofEntries hfinite) hwritable

end Counts

/-! ## Tallies in a file -/

namespace Entry

theorem toValue_of_key? {v : Value} {k : Key} (h : v.key? = some k) : k.toValue = v := by
  unfold Value.key? at h
  split at h <;> simp only [Option.some.injEq, reduceCtorEq] at h <;> rw [← h] <;> rfl

/-- What is known of texts and of the value of a field is known of the key that the field gives. -/
theorem label_of_field {Q : Value → Prop} {key standard : Text} (htext : ∀ t, Q (.text t))
    (hvalue : ∀ v, e.get? key = some v → Q v) :
    Q (((e.getD key).orElse (.text standard)).key?.getD (.text standard)).toValue := by
  cases hkey : ((e.getD key).orElse (.text standard)).key? with
  | none => exact htext standard
  | some k =>
    rw [Option.getD_some, toValue_of_key? hkey]
    unfold Value.orElse
    split
    next htruthy =>
      cases hget : e.get? key with
      | none => simp [Entries.getD, hget, Value.isTruthy] at htruthy
      | some v => simpa [Entries.getD, hget] using hvalue v hget
    next => exact htext standard

end Entry

namespace Tally

variable {tally : Tally} {depth : Nat}

/-- The keys of both tables can be told apart by their names. -/
structure AreTold (tally : Tally) : Prop where
  byPriority : tally.byPriority.AreTold
  byCategory : tally.byCategory.AreTold

/-- The names of the keys of both tables are in the order of texts where the tally is written. -/
structure IsInNameOrder (tally : Tally) : Prop where
  byPriority : tally.byPriority.IsInNameOrder
  byCategory : tally.byCategory.IsInNameOrder

/-- Something holds of everything in the object of a tally if it holds of the numbers and of the
counts. -/
theorem toValue_object (tally : Tally) : ∃ entries, tally.toValue = .object entries ∧
    Json.TextKeys entries ∧ ∀ Q : Value → Prop, (∀ e ∈ entries, Q e.2) ↔
      Q (.int tally.total) ∧ Q (.int tally.completed) ∧ Q tally.percentage ∧
        Q tally.byPriority.toValue ∧ Q tally.byCategory.toValue := by
  refine ⟨_, rfl, Json.textKeys_record rfl, fun Q => ?_⟩
  simp only [List.map_cons, List.map_nil, List.forall_mem_cons, List.not_mem_nil, false_imp_iff,
    implies_true, and_true]

/-- Entries that were read, and whose numbers are finite, are counted under keys that their names
tell apart, if the tally can be written. -/
theorem areTold_counted (hread : ∀ e ∈ entries, AsRead (depth + 1) (.object e))
    (hfinite : ∀ e ∈ entries, HasFinite (.object e))
    (hwritable : Json.Writable (counted entries).toValue) : (counted entries).AreTold := by
  have hscalar : ∀ k : Key, AsRead depth k.toValue → AsRead 0 k.toValue := by
    intro k h
    cases k <;> exact h
  obtain ⟨fields, hfields, hkeys, hall⟩ := toValue_object (counted entries)
  rw [hfields, Json.writable_object hkeys.texts, hall] at hwritable
  obtain ⟨-, -, -, hpriority, hcategory⟩ := hwritable
  refine ⟨Counts.areTold_ofEntries (fun e he => ?_) (fun e he => ?_) hpriority,
    Counts.areTold_ofEntries (fun e he => ?_) (fun e he => ?_) hcategory⟩
  · exact hscalar _ (Entry.label_of_field (fun _ => trivial) fun _ => (hread e he).get?)
  · exact Entry.label_of_field (fun _ => trivial) fun _ => (hfinite e he).get?
  · exact hscalar _ (Entry.label_of_field (fun _ => trivial) fun _ => (hread e he).get?)
  · exact Entry.label_of_field (fun _ => trivial) fun _ => (hfinite e he).get?

/-- A percentage is read as it was written. -/
theorem reread_percentage (tally : Tally) :
    Json.reread (Json.ordered tally.percentage) = tally.percentage ∧
      Json.ordered tally.percentage = tally.percentage := by
  unfold percentage
  split <;> exact ⟨rfl, rfl⟩

theorem keepsLayout_toValue (h : tally.AreTold) : KeepsLayout tally.toValue := by
  obtain ⟨fields, hfields, hkeys, hall⟩ := toValue_object tally
  obtain ⟨hreread, hordered⟩ := reread_percentage tally
  rw [hfields]
  have hpercentage : KeepsLayout tally.percentage := by
    rw [KeepsLayout, hreread, hordered]
    exact Json.laidOutAlike_refl _
  exact Json.keepsLayout_object hkeys ((hall _).mpr ⟨Json.laidOutAlike_refl _,
    Json.laidOutAlike_refl _, hpercentage, h.byPriority.keepsLayout_toValue,
    h.byCategory.keepsLayout_toValue⟩)

/-- What is read from a tally is in order exactly if the names of its keys are. -/
theorem keepsOrder_toValue (h : tally.AreTold) :
    KeepsOrder tally.toValue ↔ tally.IsInNameOrder := by
  obtain ⟨fields, hfields, hkeys, hall⟩ := toValue_object tally
  obtain ⟨hreread, hordered⟩ := reread_percentage tally
  have hpercentage : KeepsOrder tally.percentage := by rw [KeepsOrder, hreread, hordered]
  rw [hfields, Json.keepsOrder_object hkeys, hall, h.byPriority.keepsOrder_toValue,
    h.byCategory.keepsOrder_toValue]
  exact ⟨fun ⟨_, _, _, hpriority, hcategory⟩ => ⟨hpriority, hcategory⟩,
    fun hin => ⟨rfl, rfl, hpercentage, hin.byPriority, hin.byCategory⟩⟩

/-- Texts as priorities and categories are in order where the tally is written. -/
theorem isInNameOrder_counted (h : ∀ e ∈ entries, Entry.Labelled e) :
    (counted entries).IsInNameOrder := by
  refine ⟨Counts.isInNameOrder_of_texts (Counts.forall_key_ofEntries fun e he => ?_),
    Counts.isInNameOrder_of_texts (Counts.forall_key_ofEntries fun e he => ?_)⟩
  · obtain ⟨-, t, ht⟩ := Entry.priorityKey_of_label (h e he).priority
    rw [ht]
    rfl
  · obtain ⟨-, t, ht⟩ := Entry.categoryKey_of_label (h e he).category
    rw [ht]
    rfl

end Tally

end Acceptance
