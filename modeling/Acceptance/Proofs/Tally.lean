import Acceptance.Feature.Tally
import Acceptance.Proofs.JsonRecord
import Acceptance.Proofs.Rounding

/-! # Tallies

Features whose priorities and categories are texts can be counted, and a file keeps the tally. It
depends on the priorities, the categories and what is accepted, and on nothing else. -/

namespace Acceptance

/-! ## Entries that are counted -/

namespace Entry

variable {e f : Entries}

/-- The entry is counted under a priority and a category that a file keeps. -/
structure Counted (e : Entries) : Prop where
  priority : ∃ t, Text.Encodes t ∧ Entry.priority e = .text t
  category : ∃ t, Text.Encodes t ∧ Entry.category e = .text t

/-- The entries are counted alike. -/
structure Alike (e f : Entries) : Prop where
  priority : Entry.priority e = Entry.priority f
  category : Entry.category e = Entry.category f
  passes : Entry.passes e = Entry.passes f

theorem allFields_objects (entries : List Entries) :
    allFields (entries.map .object) = .ok entries := by
  induction entries with
  | nil => rfl
  | cons e rest ih =>
    rw [List.map_cons, allFields, ih]
    rfl

end Entry

/-! ## Counts -/

namespace Counts

/-- The entries of the object that the counts make. -/
def entries (counts : Counts) : Entries :=
  counts.map fun c =>
    (c.1, Value.record [("total", .int c.2.total), ("completed", .int c.2.completed)])

theorem keys_cons (c : Key × Count) (rest : Counts) :
    (entries (c :: rest)).map (·.1) = c.1 :: (entries rest).map (·.1) := rfl

theorem keys_add {counts : Counts} (h : Json.TextKeys counts.entries) (t : Text) (passes : Bool)
    (v : Value) :
    (counts.add (.text t) passes).entries.map (·.1) = (counts.entries.set t v).map (·.1) := by
  have htexts : ∀ c ∈ counts, c.1.isText = true := fun c hc =>
    h.texts _ (List.mem_map_of_mem hc)
  clear h
  induction counts with
  | nil => rfl
  | cons c rest ih =>
    obtain ⟨key, count⟩ := c
    obtain ⟨s, rfl⟩ : ∃ s, key = .text s := Key.exists_text (htexts _ List.mem_cons_self)
    have hcons : entries ((.text s, count) :: rest) =
      (.text s, Value.record [("total", .int count.total), ("completed", .int count.completed)]) ::
        entries rest := rfl
    rw [add, hcons, Entries.set]
    by_cases hst : s = t
    · subst hst
      rw [if_pos (by simp [Key.same]), if_pos rfl]
      rfl
    · rw [if_neg (by simpa [Key.same] using hst), if_neg (by simpa using hst), keys_cons,
        ih fun d hd => htexts d (List.mem_cons_of_mem _ hd)]
      rfl

theorem textKeys_add {counts : Counts} (h : Json.TextKeys counts.entries) {t : Text}
    (ht : Text.Encodes t) (passes : Bool) : Json.TextKeys (counts.add (.text t) passes).entries :=
  (h.set ht .null).of_keys_perm (by rw [keys_add h t passes .null])

theorem kept_toValue {counts : Counts} (h : Json.TextKeys counts.entries) :
    Json.Kept 2 counts.toValue := by
  refine Json.kept_object.mpr ⟨h, fun e he => ?_⟩
  obtain ⟨c, -, rfl⟩ := List.mem_map.mp he
  refine Json.kept_record rfl fun f hf => ?_
  simp only [List.mem_cons, List.not_mem_nil, or_false] at hf
  rcases hf with rfl | rfl <;> trivial

end Counts

/-! ## Percentages -/

namespace Binary64

theorem small_of_lt {n m : Nat} (h : n < m * 2 ^ 17) : n < m * 2 ^ 1022 :=
  h.trans_le (Nat.mul_le_mul_left m (Nat.pow_le_pow_right (by decide) (by decide)))

/-- A share of at most all, in percent and rounded, is a finite number. -/
theorem isFinite_share {num den : Nat} (hden : 0 < den) (hle : num ≤ den) :
    ((ofRatio false num den).timesNat 100).toHundredths.isFinite = true := by
  have hunit := unitsInOne_pos
  -- Each rounding at most doubles the number and adds a unit.
  obtain ⟨-, hshare⟩ := ofRatio_bounds false hden (small_of_lt (by omega : num < den * 2 ^ 17))
  generalize ofRatio false num den = share at hshare
  have hshare' : share.units ≤ 2 * unitsInOne + 1 := by
    apply Nat.le_of_mul_le_mul_right (c := den) _ hden
    calc share.units * den ≤ 2 * (num * unitsInOne) + den := hshare
      _ ≤ 2 * (den * unitsInOne) + den := by
        have := Nat.mul_le_mul_right unitsInOne hle
        omega
      _ = (2 * unitsInOne + 1) * den := by ring
  obtain ⟨-, hpercent⟩ := ofRatio_bounds share.negative hunit
    (small_of_lt (by omega : share.units * 100 < unitsInOne * 2 ^ 17))
  unfold timesNat
  generalize ofRatio share.negative (share.units * 100) unitsInOne = percent at hpercent
  have hpercent' : percent.units ≤ 200 * share.units + 1 := by
    apply Nat.le_of_mul_le_mul_right (c := unitsInOne) _ hunit
    calc percent.units * unitsInOne ≤ 2 * (share.units * 100 * unitsInOne) + unitsInOne := hpercent
      _ = (200 * share.units + 1) * unitsInOne := by ring
  have hround := roundHalfEven_le (percent.units * 100) unitsInOne
  have hquotient : percent.units * 100 / unitsInOne ≤ 60200 := by
    apply Nat.div_le_of_le_mul
    omega
  have hsmall : roundHalfEven (percent.units * 100) unitsInOne < 100 * 2 ^ 1022 :=
    small_of_lt (by omega)
  exact (ofRatio_bounds percent.negative (by decide) hsmall).1

end Binary64

/-! ## Tallies -/

namespace Tally

theorem keyOf_text (t : Text) : keyOf (.text t) = .ok (.text t) := rfl

theorem addAll_spec {entries : List Entries} (h : ∀ e ∈ entries, Entry.Counted e)
    {byPriority byCategory : Counts} (hpriority : Json.TextKeys byPriority.entries)
    (hcategory : Json.TextKeys byCategory.entries) :
    ∃ counts, addAll byPriority byCategory entries = .ok counts ∧
      Json.TextKeys counts.1.entries ∧ Json.TextKeys counts.2.entries := by
  induction entries generalizing byPriority byCategory with
  | nil => exact ⟨_, rfl, hpriority, hcategory⟩
  | cons e rest ih =>
    obtain ⟨⟨s, hs, hspriority⟩, t, ht, htcategory⟩ := h e List.mem_cons_self
    rw [addAll, hspriority, htcategory, keyOf_text, keyOf_text]
    exact ih (fun f hf => h f (List.mem_cons_of_mem e hf))
      (Counts.textKeys_add hpriority hs _) (Counts.textKeys_add hcategory ht _)

/-- Entries that can be counted have a tally, and a file keeps it. -/
theorem ofEntries_spec {entries : List Entries} (h : ∀ e ∈ entries, Entry.Counted e) :
    ∃ tally, ofEntries entries = .ok tally ∧ Json.Kept 3 tally.toValue := by
  have hempty : Json.TextKeys (Counts.entries []) := ⟨by simp [Counts.entries], by simp [Counts.entries], List.nodup_nil⟩
  obtain ⟨⟨byPriority, byCategory⟩, hadd, hpriority, hcategory⟩ := addAll_spec h hempty hempty
  refine ⟨{ total := entries.length, completed := entries.countP Entry.passes
            byPriority, byCategory }, ?_, ?_⟩
  · unfold ofEntries
    rw [hadd]
    rfl
  · refine Json.kept_record rfl fun f hf => ?_
    simp only [List.mem_cons, List.not_mem_nil, or_false] at hf
    rcases hf with rfl | rfl | rfl | rfl | rfl
    · trivial
    · trivial
    · unfold percentage
      split
      · trivial
      next hne =>
        exact Or.inl (Binary64.isFinite_share (Nat.pos_of_ne_zero hne) List.countP_le_length)
    · exact Counts.kept_toValue hpriority
    · exact Counts.kept_toValue hcategory

theorem addAll_map {f : Entries → Entries} {entries : List Entries}
    (h : ∀ e ∈ entries, Entry.Alike (f e) e) (byPriority byCategory : Counts) :
    addAll byPriority byCategory (entries.map f) = addAll byPriority byCategory entries := by
  induction entries generalizing byPriority byCategory with
  | nil => rfl
  | cons e rest ih =>
    obtain ⟨hpriority, hcategory, hpasses⟩ := h e List.mem_cons_self
    have hrest := ih fun g hg => h g (List.mem_cons_of_mem e hg)
    rw [List.map_cons, addAll, addAll, hpriority, hcategory, hpasses]
    simp only [hrest]

/-- Entries that are counted alike have one tally. -/
theorem ofEntries_map {f : Entries → Entries} {entries : List Entries}
    (h : ∀ e ∈ entries, Entry.Alike (f e) e) : ofEntries (entries.map f) = ofEntries entries := by
  have hpasses : (entries.map f).countP Entry.passes = entries.countP Entry.passes := by
    rw [List.countP_map]
    exact List.countP_congr fun e he => by rw [Function.comp, (h e he).passes]
  unfold ofEntries
  rw [addAll_map h, hpasses, List.length_map]

theorem ofValues_objects (entries : List Entries) :
    ofValues (entries.map .object) = ofEntries entries := by
  unfold ofValues
  rw [Entry.allFields_objects]
  rfl

end Tally

end Acceptance
