import Acceptance.Proofs.JsonReading
import Acceptance.Proofs.RunSort

/-! # What can be printed

A document can be encoded if and only if all texts in its value can, the names of the entries
included. So a value is printed, or saved, as soon as it can be written and its texts are sound. -/

namespace Acceptance

namespace Json

/-! ## Sound texts -/

variable {depth : Nat} {items : List Value} {entries : Entries} {key t : Text} {v : Value}

theorem encodableItems_iff : EncodableItems items ↔ ∀ v ∈ items, Encodable v := by
  induction items with
  | nil => simp [EncodableItems]
  | cons v rest ih => rw [EncodableItems, ih, List.forall_mem_cons]

theorem encodableUnder_iff :
    EncodableUnder entries ↔ ∀ e ∈ entries, Text.Encodes (keyName e.1) ∧ Encodable e.2 := by
  induction entries with
  | nil => simp [EncodableUnder]
  | cons e rest ih => rw [EncodableUnder, ih, List.forall_mem_cons]

theorem encodable_list : Encodable (.list items) ↔ ∀ v ∈ items, Encodable v := by
  rw [Encodable, encodableItems_iff]

theorem encodable_object : Encodable (.object entries) ↔
    ∀ e ∈ entries, Text.Encodes (keyName e.1) ∧ Encodable e.2 := by
  rw [Encodable, encodableUnder_iff]

theorem Encodable.get? (h : Encodable (.object entries)) (hget : entries.get? key = some v) :
    Encodable v := by
  obtain ⟨e, he, rfl⟩ := Option.map_eq_some_iff.mp hget
  exact (encodable_object.mp h e (List.mem_of_find?_eq_some he)).2

theorem Encodable.getD (h : Encodable (.object entries)) (key : Text) :
    Encodable (entries.getD key) := by
  unfold Entries.getD
  cases hget : entries.get? key with
  | none => trivial
  | some v => exact h.get? hget

theorem Encodable.set (h : Encodable (.object entries)) (hkey : Text.Encodes key)
    (hvalue : Encodable v) : Encodable (.object (entries.set key v)) := by
  rw [encodable_object] at h ⊢
  induction entries with
  | nil =>
    intro e he
    rw [Entries.set, List.mem_singleton] at he
    rw [he]
    exact ⟨hkey, hvalue⟩
  | cons f rest ih =>
    obtain ⟨hf, hrest⟩ := List.forall_mem_cons.mp h
    rw [Entries.set]
    split
    · exact List.forall_mem_cons.mpr ⟨⟨hf.1, hvalue⟩, hrest⟩
    · exact List.forall_mem_cons.mpr ⟨hf, ih hrest⟩

theorem encodable_record {fields : List (Text × Value)}
    (h : ∀ f ∈ fields, Text.Encodes f.1 ∧ Encodable f.2) : Encodable (Value.record fields) := by
  refine encodable_object.mpr fun e he => ?_
  obtain ⟨f, hf, rfl⟩ := List.mem_map.mp he
  exact h f hf

/-! ## Documents and their texts -/

theorem encodes_stringText : Text.Encodes (stringText t) ↔ Text.Encodes t :=
  ⟨encodes_of_stringText, fun h => (plain_stringText h).encodes⟩

theorem encodes_newLine (level : Nat) : Text.Encodes (newLine level) := (plain_newLine level).encodes

/-- A mark of the layout between two parts. -/
theorem encodes_of {s : String} (h : (Text.of s).all (!·.isSurrogate) = true) (t : Text) :
    Text.Encodes (Text.of s ++ t) ↔ Text.Encodes t := by
  rw [Text.encodes_append]
  exact and_iff_right (Text.encodes_of_all h)

mutual

theorem encodes_layout : ∀ (v : Value), unwritable? v = none → ∀ (level : Nat) (after : Text),
    Text.Encodes (layout level v after) ↔ Encodable v ∧ Text.Encodes after
  | .null => by
    intro _ level after
    rw [layout, encodes_of (by decide), Encodable.eq_def, true_and]
  | .bool b => by
    intro _ level after
    rw [layout, Encodable.eq_def, true_and]
    cases b <;> exact encodes_of (by decide) after
  | .int n => by
    intro _ level after
    rw [layout, Text.encodes_append, Encodable.eq_def]
    exact and_congr_left fun _ => iff_of_true (plain_ofInt n).encodes trivial
  | .real x => by
    intro _ level after
    rw [layout, Text.encodes_append, Encodable.eq_def]
    exact and_congr_left fun _ => iff_of_true (plain_realText x).encodes trivial
  | .text t => by
    intro _ level after
    rw [layout, Text.encodes_append, encodes_stringText, Encodable]
  | .moment _ => by
    intro h
    exact absurd h (by simp [unwritable?])
  | .list items => by
    intro h level after
    rw [unwritable?] at h
    rw [layout, Encodable]
    split
    next hempty =>
      rw [List.isEmpty_iff.mp hempty, encodes_of (by decide), EncodableItems, true_and]
    next =>
      rw [encodes_of (by decide), encodes_layoutItems items h, Text.encodes_append,
        encodes_of (by decide)]
      exact and_congr_right fun _ => and_iff_right (encodes_newLine level)
  | .object entries => by
    intro h level after
    have hunder : unwritableUnder? entries = none := by
      rw [unwritable?] at h
      split at h
      · exact absurd h (by simp)
      · exact h
    rw [layout, Encodable]
    split
    next hempty =>
      rw [List.isEmpty_iff.mp hempty, encodes_of (by decide), EncodableUnder, true_and]
    next =>
      rw [encodes_of (by decide), encodes_layoutEntries entries hunder, Text.encodes_append,
        encodes_of (by decide)]
      exact and_congr_right fun _ => and_iff_right (encodes_newLine level)

theorem encodes_layoutItems : ∀ (items : List Value), unwritableIn? items = none →
    ∀ (level : Nat) (after : Text),
      Text.Encodes (layoutItems level items after) ↔ EncodableItems items ∧ Text.Encodes after
  | [], _, _, _ => by rw [layoutItems, EncodableItems, true_and]
  | v :: rest, h, level, after => by
    obtain ⟨hv, hrest⟩ := unwritableIn?_cons h
    rw [layoutItems, Text.encodes_append, encodes_layout v hv, EncodableItems, and_assoc,
      and_iff_right (encodes_newLine level)]
    refine and_congr_right fun _ => ?_
    split
    next hempty => rw [List.isEmpty_iff.mp hempty, EncodableItems, true_and]
    next => rw [encodes_of (by decide), encodes_layoutItems rest hrest]

theorem encodes_layoutEntries : ∀ (entries : List (Key × Value)), unwritableUnder? entries = none →
    ∀ (level : Nat) (after : Text),
      Text.Encodes (layoutEntries level entries after) ↔ EncodableUnder entries ∧ Text.Encodes after
  | [], _, _, _ => by rw [layoutEntries, EncodableUnder, true_and]
  | (k, v) :: rest, h, level, after => by
    obtain ⟨hv, hrest⟩ := unwritableUnder?_cons h
    rw [layoutEntries, Text.encodes_append, Text.encodes_append, encodes_of (by decide),
      encodes_layout v hv, encodes_stringText, EncodableUnder,
      and_iff_right (encodes_newLine level), and_assoc, and_assoc]
    refine and_congr_right fun _ => and_congr_right fun _ => ?_
    split
    next hempty => rw [List.isEmpty_iff.mp hempty, EncodableUnder, true_and]
    next => rw [encodes_of (by decide), encodes_layoutEntries rest hrest]

end

/-! ## Order -/

theorem all_sortEntries {P : Key × Value → Prop} (h : ∀ e ∈ entries, P e) :
    ∀ e ∈ sortEntries entries, P e := by
  unfold sortEntries
  split
  · have hperm : (entries.foldr insertEntry []).Perm entries := by
      clear * -
      induction entries with
      | nil => exact List.Perm.refl _
      | cons e rest ih => exact (insertEntry_perm e _).trans (ih.cons e)
    exact fun e he => h e (hperm.mem_iff.mp he)
  · exact RunSort.all_sort _ h

mutual

/-- Texts that are sound stay so when the entries are put in order. -/
theorem encodable_ordered : ∀ (v : Value), Encodable v → Encodable (ordered v)
  | .null, h | .bool _, h | .int _, h | .real _, h | .text _, h | .moment _, h => h
  | .list items, h => encodableItems_ordered items h
  | .object entries, h => encodable_object.mpr
    (all_sortEntries (encodableUnder_iff.mp (encodableUnder_ordered entries h)))

theorem encodableItems_ordered : ∀ (items : List Value), EncodableItems items →
    EncodableItems (orderedItems items)
  | [], h => h
  | v :: rest, ⟨hv, hrest⟩ => ⟨encodable_ordered v hv, encodableItems_ordered rest hrest⟩

theorem encodableUnder_ordered : ∀ (entries : Entries), EncodableUnder entries →
    EncodableUnder (orderedEntries entries)
  | [], h => h
  | (_, v) :: rest, ⟨⟨hk, hv⟩, hrest⟩ =>
    ⟨⟨hk, encodable_ordered v hv⟩, encodableUnder_ordered rest hrest⟩

end

/-! ## Values that can be printed -/

/-- The value has a document, and it can be encoded. -/
structure Printable (v : Value) : Prop where
  writable : Writable v
  encodable : Encodable (ordered v)

theorem printable_iff : Printable v ↔ ∃ document, write v = .ok document ∧ Text.Encodes document := by
  constructor
  · intro h
    refine ⟨_, write_of_writable h.writable, ?_⟩
    exact (encodes_layout _ h.writable 0 _).mpr ⟨h.encodable, Text.encodes_of_all rfl⟩
  · rintro ⟨document, hwrite, hencodes⟩
    obtain ⟨rfl, hwritable⟩ := write_eq hwrite
    exact ⟨hwritable, ((encodes_layout _ hwritable 0 _).mp hencodes).1⟩

theorem Sendable.printable (h : Sendable depth v) : Printable v := by
  have hwrite := write_of_writable h.writable
  exact printable_iff.mpr ⟨_, hwrite, (plain_document h.kept hwrite).encodes⟩

theorem printable_text : Printable (.text t) ↔ Text.Encodes t :=
  ⟨fun h => h.encodable, fun h => ⟨rfl, h⟩⟩

theorem printable_null : Printable .null := ⟨rfl, trivial⟩

theorem printable_bool (b : Bool) : Printable (.bool b) := ⟨rfl, trivial⟩

theorem printable_real (x : Binary64) : Printable (.real x) := ⟨rfl, trivial⟩

theorem printable_int {n : Int} (h : Value.isLongInt n = false) : Printable (.int n) := by
  refine ⟨?_, trivial⟩
  show unwritable? (.int n) = none
  rw [unwritable?, h]
  rfl

theorem printable_list : Printable (.list items) ↔ ∀ v ∈ items, Printable v := by
  have hencodable : Encodable (ordered (.list items)) ↔ ∀ v ∈ items, Encodable (ordered v) := by
    rw [ordered, encodable_list, orderedItems_eq_map, List.forall_mem_map]
  constructor
  · intro h v hv
    exact ⟨writable_list.mp h.writable v hv, hencodable.mp h.encodable v hv⟩
  · intro h
    exact ⟨writable_list.mpr fun v hv => (h v hv).writable,
      hencodable.mpr fun v hv => (h v hv).encodable⟩

theorem printable_object (htexts : ∀ e ∈ entries, e.1.isText = true) :
    Printable (.object entries) ↔ ∀ e ∈ entries, Text.Encodes (keyName e.1) ∧ Printable e.2 := by
  have hencodable : Encodable (ordered (.object entries)) ↔
      ∀ e ∈ entries, Text.Encodes (keyName e.1) ∧ Encodable (ordered e.2) := by
    show Encodable (.object (inOrder entries)) ↔ _
    rw [encodable_object]
    constructor
    · exact fun h e he => h _ ((mem_inOrder htexts).mpr ⟨e, he, rfl⟩)
    · intro h e he
      obtain ⟨f, hf, rfl⟩ := (mem_inOrder htexts).mp he
      exact h f hf
  constructor
  · intro h e he
    obtain ⟨hkey, hvalue⟩ := hencodable.mp h.encodable e he
    exact ⟨hkey, (writable_object htexts).mp h.writable e he, hvalue⟩
  · intro h
    exact ⟨(writable_object htexts).mpr fun e he => (h e he).2.writable,
      hencodable.mpr fun e he => ⟨(h e he).1, (h e he).2.encodable⟩⟩

theorem Printable.get? (h : Printable (.object entries)) (htexts : ∀ e ∈ entries, e.1.isText = true)
    (hget : entries.get? key = some v) : Printable v := by
  obtain ⟨e, he, rfl⟩ := Option.map_eq_some_iff.mp hget
  exact ((printable_object htexts).mp h e (List.mem_of_find?_eq_some he)).2

theorem texts_record (fields : List (Text × Value)) :
    ∀ e ∈ fields.map fun f => (Key.text f.1, f.2), e.1.isText = true := by
  intro e he
  obtain ⟨f, -, rfl⟩ := List.mem_map.mp he
  rfl

theorem printable_record {fields : List (Text × Value)} :
    Printable (Value.record fields) ↔ ∀ f ∈ fields, Text.Encodes f.1 ∧ Printable f.2 := by
  rw [Value.record, printable_object (texts_record fields), List.forall_mem_map]
  rfl

theorem printable_empty : Printable (.object []) := ⟨rfl, trivial⟩

theorem printable_texts {ts : List Text} :
    Printable (Value.texts ts) ↔ ∀ t ∈ ts, Text.Encodes t := by
  rw [Value.texts, printable_list, List.forall_mem_map]
  exact forall₂_congr fun _ _ => printable_text

theorem printable_ofText? {t : Option Text} :
    Printable (Value.ofText? t) ↔ ∀ t' ∈ t, Text.Encodes t' := by
  cases t with
  | none => simp [Value.ofText?, printable_null]
  | some t => simp [Value.ofText?, printable_text]

/-! ## Values that were read -/

theorem TextKeys.areNamed (h : TextKeys entries) : AreNamed entries := ⟨h.texts, h.distinct⟩

theorem AreNamed.textKeys (h : AreNamed entries) (hencodes : ∀ e ∈ entries, Text.Encodes (keyName e.1)) :
    TextKeys entries := ⟨h.texts, hencodes, h.distinct⟩

mutual

/-- What was read can be written. -/
theorem writable_of_asRead : ∀ (v : Value) {depth : Nat}, AsRead depth v → Writable v
  | .null, _, _ | .bool _, _, _ | .real _, _, _ | .text _, _, _ => rfl
  | .moment _, _, h => absurd h (by simp [AsRead])
  | .int n, _, h => by
    rw [AsRead] at h
    exact (printable_int h).writable
  | .list items, _, ⟨_, hitems⟩ => writable_list.mpr (writableItems_of_asRead items hitems)
  | .object entries, _, ⟨_, hnamed, hunder⟩ =>
    (writable_object hnamed.texts).mpr (writableUnder_of_asRead entries hunder)

theorem writableItems_of_asRead : ∀ (items : List Value) {depth : Nat}, AsReadItems depth items →
    ∀ v ∈ items, Writable v
  | [], _, _ => by simp
  | v :: rest, _, ⟨hv, hrest⟩ =>
    List.forall_mem_cons.mpr ⟨writable_of_asRead v hv, writableItems_of_asRead rest hrest⟩

theorem writableUnder_of_asRead : ∀ (entries : Entries) {depth : Nat}, AsReadUnder depth entries →
    ∀ e ∈ entries, Writable e.2
  | [], _, _ => by simp
  | (_, v) :: rest, _, ⟨hv, hrest⟩ =>
    List.forall_mem_cons.mpr ⟨writable_of_asRead v hv, writableUnder_of_asRead rest hrest⟩

end

mutual

/-- What was read is kept by a file, if its texts are sound. -/
theorem kept_of_asRead : ∀ (v : Value) {depth : Nat}, AsRead depth v → Encodable v → Kept depth v
  | .null, _, _, _ | .bool _, _, _, _ | .int _, _, _, _ => trivial
  | .real _, _, h, _ | .text _, _, _, h => h
  | .moment _, _, h, _ => absurd h (by simp [AsRead])
  | .list items, _, ⟨hdepth, hitems⟩, h => ⟨hdepth, keptItems_of_asRead items hitems h⟩
  | .object entries, _, ⟨hdepth, hnamed, hunder⟩, h =>
    ⟨hdepth, hnamed.textKeys fun e he => (encodableUnder_iff.mp h e he).1,
      keptUnder_of_asRead entries hunder h⟩

theorem keptItems_of_asRead : ∀ (items : List Value) {depth : Nat}, AsReadItems depth items →
    EncodableItems items → KeptItems depth items
  | [], _, _, _ => trivial
  | v :: rest, _, ⟨hv, hrest⟩, ⟨hv', hrest'⟩ =>
    ⟨kept_of_asRead v hv hv', keptItems_of_asRead rest hrest hrest'⟩

theorem keptUnder_of_asRead : ∀ (entries : Entries) {depth : Nat}, AsReadUnder depth entries →
    EncodableUnder entries → KeptUnder depth entries
  | [], _, _, _ => trivial
  | (_, v) :: rest, _, ⟨hv, hrest⟩, ⟨⟨_, hv'⟩, hrest'⟩ =>
    ⟨kept_of_asRead v hv hv', keptUnder_of_asRead rest hrest hrest'⟩

end

theorem sendable_of_asRead (h : AsRead depth v) (hencodable : Encodable v) : Sendable depth v :=
  ⟨kept_of_asRead v h hencodable, writable_of_asRead v h⟩

end Json

end Acceptance
