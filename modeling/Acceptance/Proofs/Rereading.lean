import Acceptance.Proofs.Loading

/-! # Documents that are read again

A document can be written of more than can be read: the names of its entries need not be texts. What
is read again has texts in their place, and the values under them. -/

namespace Acceptance

namespace Json

variable {depth : Nat} {items : List Value} {entries : Entries} {key : Text} {v : Value}

/-! ## What a document gives back -/

theorem legibleUnder_iff : LegibleUnder depth entries ↔ ∀ e ∈ entries, Legible depth e.2 := by
  induction entries with
  | nil => simp [LegibleUnder]
  | cons e rest ih => rw [LegibleUnder, ih, List.forall_mem_cons]

theorem legible_object :
    Legible (depth + 1) (.object entries) ↔ ∀ e ∈ entries, Legible depth e.2 := by
  rw [Legible, ← legibleUnder_iff]
  simp

theorem legible_record {fields : List (Text × Value)} (h : ∀ f ∈ fields, Legible depth f.2) :
    Legible (depth + 1) (Value.record fields) := by
  refine legible_object.mpr fun e he => ?_
  obtain ⟨f, hf, rfl⟩ := List.mem_map.mp he
  exact h f hf

mutual

theorem legible_ordered : ∀ (v : Value) {depth : Nat}, Legible depth v → Legible depth (ordered v)
  | .null, _, h | .bool _, _, h | .int _, _, h | .real _, _, h => h
  | .text _, _, h | .moment _, _, h => h
  | .list items, _, ⟨hdepth, hitems⟩ => ⟨hdepth, legibleItems_ordered items hitems⟩
  | .object entries, _, ⟨hdepth, hunder⟩ => ⟨hdepth, legibleUnder_iff.mpr
      (all_sortEntries (legibleUnder_iff.mp (legibleUnder_ordered entries hunder)))⟩

theorem legibleItems_ordered : ∀ (items : List Value) {depth : Nat}, LegibleItems depth items →
    LegibleItems depth (orderedItems items)
  | [], _, h => h
  | v :: rest, _, ⟨hv, hrest⟩ => ⟨legible_ordered v hv, legibleItems_ordered rest hrest⟩

theorem legibleUnder_ordered : ∀ (entries : Entries) {depth : Nat}, LegibleUnder depth entries →
    LegibleUnder depth (orderedEntries entries)
  | [], _, h => h
  | (_, v) :: rest, _, ⟨hv, hrest⟩ => ⟨legible_ordered v hv, legibleUnder_ordered rest hrest⟩

end

/-! ## Names of keys -/

/-- The names of the entries in a document. -/
def names (entries : Entries) : List Text := entries.map fun e => keyName e.1

/-- Different keys have different names, if that is so of each two. -/
theorem nodup_names (hdistinct : (entries.map (·.1)).Nodup)
    (hinj : ∀ e ∈ entries, ∀ f ∈ entries, keyName e.1 = keyName f.1 → e.1 = f.1) :
    (names entries).Nodup := by
  have hnames : names entries = (entries.map (·.1)).map keyName := by
    rw [List.map_map]
    rfl
  rw [hnames]
  refine List.Nodup.map_on (fun k hk l hl => ?_) hdistinct
  obtain ⟨e, he, rfl⟩ := List.mem_map.mp hk
  obtain ⟨f, hf, rfl⟩ := List.mem_map.mp hl
  exact hinj e he f hf

theorem AreNamed.nodup_names (h : AreNamed entries) : (names entries).Nodup :=
  Json.nodup_names h.distinct fun e he f hf => keyName_inj (h.texts e he) (h.texts f hf)

/-- The entries as they are read from a document, with their names as keys. -/
def renamed (entries : Entries) : Entries := entries.map fun e => (.text (keyName e.1), reread e.2)

theorem names_renamed (entries : Entries) : names (renamed entries) = names entries := by
  unfold names renamed
  rw [List.map_map]
  rfl

theorem areNamed_renamed (h : (names entries).Nodup) : AreNamed (renamed entries) := by
  have hkeys : (renamed entries).map (·.1) = (names entries).map Key.text := by
    unfold renamed names
    rw [List.map_map, List.map_map]
    rfl
  refine ⟨fun e he => ?_, hkeys ▸ h.map fun _ _ => Key.text.inj⟩
  obtain ⟨f, -, rfl⟩ := List.mem_map.mp he
  rfl

theorem reread_of_nodup (h : (names entries).Nodup) :
    reread (.object entries) = .object (renamed entries) := by
  have hunder : ∀ entries : Entries, rereadUnder entries = named (renamed entries) := by
    intro entries
    induction entries with
    | nil => rfl
    | cons e rest ih =>
      rw [rereadUnder, ih]
      rfl
  have hnamed := areNamed_renamed h
  rw [reread, hunder, entriesOf_named_of_distinct hnamed.texts hnamed.distinct]

/-- The entries of an object whose keys are texts stay as they are, and their values are reread. -/
theorem reread_object (h : TextKeys entries) :
    reread (.object entries) = .object (entries.map fun e => (e.1, reread e.2)) := by
  have hrenamed : renamed entries = entries.map fun e => (e.1, reread e.2) := by
    refine List.map_congr_left fun e he => ?_
    obtain ⟨t, ht⟩ := Key.exists_text (h.texts e he)
    rw [ht]
    rfl
  rw [reread_of_nodup h.areNamed.nodup_names, hrenamed]

/-! ## What was read and is written again -/

mutual

/-- The texts of a value that was read are sound if they are so once its entries are in order. -/
theorem encodable_of_ordered : ∀ (v : Value) {depth : Nat}, AsRead depth v →
    Encodable (ordered v) → Encodable v
  | .null, _, _, h | .bool _, _, _, h | .int _, _, _, h | .real _, _, _, h | .text _, _, _, h
  | .moment _, _, _, h => h
  | .list items, _, ⟨_, hitems⟩, h => encodableItems_of_ordered items hitems h
  | .object entries, _, ⟨_, hnamed, hunder⟩, h => by
    refine encodableUnder_of_ordered entries hunder (encodableUnder_iff.mpr fun e he => ?_)
    exact encodable_object.mp h e ((inOrder_perm hnamed.texts).mem_iff.mpr he)

theorem encodableItems_of_ordered : ∀ (items : List Value) {depth : Nat}, AsReadItems depth items →
    EncodableItems (orderedItems items) → EncodableItems items
  | [], _, _, h => h
  | v :: rest, _, ⟨hv, hrest⟩, ⟨h, h'⟩ =>
    ⟨encodable_of_ordered v hv h, encodableItems_of_ordered rest hrest h'⟩

theorem encodableUnder_of_ordered : ∀ (entries : Entries) {depth : Nat}, AsReadUnder depth entries →
    EncodableUnder (orderedEntries entries) → EncodableUnder entries
  | [], _, _, h => h
  | (_, v) :: rest, _, ⟨hv, hrest⟩, ⟨⟨hk, h⟩, h'⟩ =>
    ⟨⟨hk, encodable_of_ordered v hv h⟩, encodableUnder_of_ordered rest hrest h'⟩

end

/-- What was read and can be printed is kept by a file. -/
theorem AsRead.kept (h : AsRead depth v) (hprintable : Printable v) : Kept depth v :=
  kept_of_asRead v h (encodable_of_ordered v h hprintable.encodable)

theorem AsRead.set (h : AsRead (depth + 1) (.object entries)) (hv : AsRead depth v) :
    AsRead (depth + 1) (.object (entries.set key v)) := by
  obtain ⟨hnamed, hvalues⟩ := asRead_object.mp h
  refine asRead_object.mpr ⟨hnamed.set key v, fun e he => ?_⟩
  rcases Entries.value_set he with hnew | ⟨f, hf, hold⟩
  · rwa [hnew]
  · rw [← hold]
    exact hvalues f hf

theorem AsRead.get? (h : AsRead (depth + 1) (.object entries)) (hget : entries.get? key = some v) :
    AsRead depth v := by
  obtain ⟨e, he, rfl⟩ := Option.map_eq_some_iff.mp hget
  exact (asRead_object.mp h).2 e (List.mem_of_find?_eq_some he)

/-! ## Documents of objects -/

/-- The bytes of a document mean its value, as it is read again. -/
theorem means_written {document : Text} (hlegible : Legible mostNested v)
    (hwrite : write v = .ok document) (hencodes : Text.Encodes document) :
    Means (document.flatMap Utf8.bytesOf) (reread (ordered v)) := by
  have hprintable : Printable v := printable_iff.mpr ⟨document, hwrite, hencodes⟩
  obtain ⟨hdecode, hlines⟩ := decode_written hprintable.encodable hwrite
  obtain ⟨rfl, hwritable⟩ := write_eq hwrite
  exact ⟨_, hdecode, by rw [hlines, read_legible (legible_ordered v hlegible) hwritable]⟩

/-- What an object is read as has the same keys, and what is under each is read again. -/
theorem exists_reread_object (h : TextKeys entries) :
    ∃ data : Entries, reread (ordered (.object entries)) = .object data ∧
      ∀ key : Text, data.get? key = ((entries.get? key).map ordered).map reread := by
  rw [show ordered (.object entries) = .object (inOrder entries) from rfl, reread_object h.inOrder]
  exact ⟨_, rfl, fun key => by rw [get?_map_value, get?_inOrder h]⟩

end Json

end Acceptance
