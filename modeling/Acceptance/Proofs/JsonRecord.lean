import Acceptance.Proofs.JsonBytes

/-! # Records

Objects that are put together and changed entry by entry: what is under a key, and that a file still
keeps the result. -/

namespace Acceptance

/-! ## Setting an entry -/

namespace Entries

variable {entries : Entries} {key other : Text} {v : Value}

theorem get?_cons_of_ne {k : Key} (h : k ≠ .text key) (v : Value) (rest : Entries) :
    Entries.get? ((k, v) :: rest) key = Entries.get? rest key := by
  unfold get?
  rw [List.find?_cons_of_neg (by simpa using h)]

@[simp] theorem get?_cons_self (key : Text) (v : Value) (rest : Entries) :
    Entries.get? ((.text key, v) :: rest) key = some v := by
  unfold get?
  rw [List.find?_cons_of_pos (by simp)]
  rfl

theorem get?_set_self (entries : Entries) (key : Text) (v : Value) :
    (entries.set key v).get? key = some v := by
  induction entries with
  | nil => exact get?_cons_self key v []
  | cons e rest ih =>
    obtain ⟨k, w⟩ := e
    rw [set]
    split
    next hk =>
      obtain rfl : k = .text key := hk
      exact get?_cons_self key v rest
    next hk => rw [get?_cons_of_ne hk, ih]

theorem get?_set_of_ne (h : other ≠ key) (entries : Entries) (v : Value) :
    (entries.set key v).get? other = entries.get? other := by
  have hkeys : Key.text key ≠ .text other := by simpa using h.symm
  induction entries with
  | nil => exact get?_cons_of_ne hkeys v []
  | cons e rest ih =>
    obtain ⟨k, w⟩ := e
    rw [set]
    split
    next hk =>
      obtain rfl : k = .text key := hk
      rw [get?_cons_of_ne hkeys, get?_cons_of_ne hkeys]
    next hk =>
      by_cases hother : k = .text other
      · subst hother
        rw [get?_cons_self, get?_cons_self]
      · rw [get?_cons_of_ne hother, get?_cons_of_ne hother, ih]

/-- An entry keeps its place, and a new one comes last. -/
theorem keys_set (entries : Entries) (key : Text) (v : Value) :
    (entries.set key v).map (·.1) = entries.map (·.1) ∨
      .text key ∉ entries.map (·.1) ∧
        (entries.set key v).map (·.1) = entries.map (·.1) ++ [.text key] := by
  induction entries with
  | nil => exact Or.inr ⟨by simp, rfl⟩
  | cons e rest ih =>
    rw [set]
    split
    · exact Or.inl rfl
    next hk =>
      rcases ih with hsame | ⟨habsent, hnew⟩
      · left
        rw [List.map_cons, List.map_cons, hsame]
      · right
        refine ⟨?_, ?_⟩
        · rw [List.map_cons, List.mem_cons, not_or]
          exact ⟨Ne.symm hk, habsent⟩
        · rw [List.map_cons, List.map_cons, hnew, List.cons_append]

theorem value_set {e : Key × Value} (h : e ∈ entries.set key v) :
    e.2 = v ∨ ∃ f ∈ entries, f.2 = e.2 := by
  induction entries with
  | nil =>
    rw [set, List.mem_singleton] at h
    exact Or.inl (by rw [h])
  | cons f rest ih =>
    rw [set] at h
    split at h
    · rcases List.mem_cons.mp h with rfl | hrest
      · exact Or.inl rfl
      · exact Or.inr ⟨e, List.mem_cons_of_mem f hrest, rfl⟩
    · rcases List.mem_cons.mp h with rfl | hrest
      · exact Or.inr ⟨e, List.mem_cons_self, rfl⟩
      · rcases ih hrest with hv | ⟨g, hg, hvalue⟩
        · exact Or.inl hv
        · exact Or.inr ⟨g, List.mem_cons_of_mem f hg, hvalue⟩

end Entries

namespace Json

variable {depth : Nat} {entries : Entries} {items : List Value} {key t : Text} {v : Value}

/-! ## Keys -/

theorem TextKeys.set (h : TextKeys entries) (hkey : Text.Encodes key) (v : Value) :
    TextKeys (entries.set key v) := by
  rcases Entries.keys_set entries key v with hsame | ⟨habsent, hnew⟩
  · exact h.of_keys_perm (by rw [hsame])
  · have hmem : ∀ e ∈ entries.set key v, e.1 ∈ entries.map (·.1) ∨ e.1 = .text key := by
      intro e he
      have hkeys := List.mem_map_of_mem (f := (·.1)) he
      rw [hnew, List.mem_append, List.mem_singleton] at hkeys
      exact hkeys
    refine ⟨?_, ?_, ?_⟩
    · intro e he
      rcases hmem e he with hold | hkey
      · obtain ⟨f, hf, hsame⟩ := List.mem_map.mp hold
        rw [← hsame]
        exact h.texts f hf
      · rw [hkey]
        rfl
    · intro e he
      rcases hmem e he with hold | hnewKey
      · obtain ⟨f, hf, hsame⟩ := List.mem_map.mp hold
        rw [← hsame]
        exact h.encodes f hf
      · rw [hnewKey]
        exact hkey
    · rw [hnew]
      exact List.nodup_append.mpr ⟨h.distinct, List.nodup_singleton _, by
        intro k hk l hl
        rw [List.mem_singleton] at hl
        rintro rfl
        exact habsent (hl ▸ hk)⟩

/-- Names that can be encoded and are told apart. -/
def areNames (names : List Text) : Bool :=
  names.all (fun name => name.all (!·.isSurrogate)) && decide names.Nodup

theorem textKeys_record {fields : List (Text × Value)} (h : areNames (fields.map (·.1)) = true) :
    TextKeys (fields.map fun f => (.text f.1, f.2)) := by
  unfold areNames at h
  rw [Bool.and_eq_true, decide_eq_true_eq] at h
  refine ⟨?_, ?_, ?_⟩
  · intro e he
    obtain ⟨f, -, rfl⟩ := List.mem_map.mp he
    rfl
  · intro e he
    obtain ⟨f, hf, rfl⟩ := List.mem_map.mp he
    intro c hc
    have hname := List.all_eq_true.mp h.1 f.1 (List.mem_map_of_mem hf)
    simpa using List.all_eq_true.mp hname c hc
  · have hkeys : (fields.map fun f => (Key.text f.1, f.2)).map (·.1) =
        (fields.map (·.1)).map Key.text := by
      rw [List.map_map, List.map_map]
      rfl
    rw [hkeys]
    exact h.2.map fun s t hst => by simpa using hst

/-! ## Values that files keep -/

theorem kept_list : Kept (depth + 1) (.list items) ↔ ∀ v ∈ items, Kept depth v := by
  rw [Kept, ← keptItems_iff]
  simp

theorem kept_object : Kept (depth + 1) (.object entries) ↔
    TextKeys entries ∧ ∀ e ∈ entries, Kept depth e.2 := by
  rw [Kept, ← keptUnder_iff]
  simp

mutual

theorem kept_mono : ∀ (v : Value) {depth deeper : Nat}, depth ≤ deeper → Kept depth v →
    Kept deeper v
  | .null, _, _, _, h | .bool _, _, _, _, h | .int _, _, _, _, h | .real _, _, _, _, h
  | .text _, _, _, _, h | .moment _, _, _, _, h => h
  | .list items, _, _, hle, ⟨hdepth, hitems⟩ =>
    ⟨Nat.lt_of_lt_of_le hdepth hle, keptItems_mono items (Nat.sub_le_sub_right hle 1) hitems⟩
  | .object entries, _, _, hle, ⟨hdepth, hkeys, hunder⟩ =>
    ⟨Nat.lt_of_lt_of_le hdepth hle, hkeys,
      keptUnder_mono entries (Nat.sub_le_sub_right hle 1) hunder⟩

theorem keptItems_mono : ∀ (items : List Value) {depth deeper : Nat}, depth ≤ deeper →
    KeptItems depth items → KeptItems deeper items
  | [], _, _, _, h => h
  | v :: rest, _, _, hle, ⟨hvalue, hrest⟩ =>
    ⟨kept_mono v hle hvalue, keptItems_mono rest hle hrest⟩

theorem keptUnder_mono : ∀ (entries : Entries) {depth deeper : Nat}, depth ≤ deeper →
    KeptUnder depth entries → KeptUnder deeper entries
  | [], _, _, _, h => h
  | (_, v) :: rest, _, _, hle, ⟨hvalue, hrest⟩ =>
    ⟨kept_mono v hle hvalue, keptUnder_mono rest hle hrest⟩

end

theorem kept_get? (h : Kept (depth + 1) (.object entries)) (hget : entries.get? key = some v) :
    Kept depth v := by
  obtain ⟨hkeys, hunder⟩ := kept_object.mp h
  exact hunder _ ((get?_eq_some_iff hkeys.distinct).mp hget)

theorem kept_set (h : Kept (depth + 1) (.object entries)) (hkey : Text.Encodes key)
    (hvalue : Kept depth v) : Kept (depth + 1) (.object (entries.set key v)) := by
  obtain ⟨hkeys, hunder⟩ := kept_object.mp h
  refine kept_object.mpr ⟨hkeys.set hkey v, fun e he => ?_⟩
  rcases Entries.value_set he with hv | ⟨f, hf, hsame⟩
  · rwa [hv]
  · rw [← hsame]
    exact hunder f hf

theorem kept_record {fields : List (Text × Value)} (h : areNames (fields.map (·.1)) = true)
    (hvalues : ∀ f ∈ fields, Kept depth f.2) : Kept (depth + 1) (Value.record fields) := by
  refine kept_object.mpr ⟨textKeys_record h, fun e he => ?_⟩
  obtain ⟨f, hf, rfl⟩ := List.mem_map.mp he
  exact hvalues f hf

theorem kept_texts {ts : List Text} (h : ∀ t ∈ ts, Text.Encodes t) :
    Kept (depth + 1) (Value.texts ts) := by
  refine kept_list.mpr fun v hv => ?_
  obtain ⟨t, ht, rfl⟩ := List.mem_map.mp hv
  exact h t ht

theorem kept_ofText? {t : Option Text} (h : ∀ t' ∈ t, Text.Encodes t') :
    Kept depth (Value.ofText? t) := by
  cases t with
  | none => trivial
  | some t => exact h t rfl

/-! ## Values that can be written -/

/-- Nothing is in the way of writing the value. -/
def Writable (v : Value) : Prop := unwritable? (ordered v) = none

theorem writable_of_write {document : Text} (h : write v = .ok document) : Writable v :=
  (write_eq h).2

theorem writable_ordered (h : Kept depth v) : Writable (ordered v) ↔ Writable v := by
  unfold Writable
  rw [ordered_ordered v h]

theorem write_of_writable (h : Writable v) : write v = .ok (layout 0 (ordered v) "
") := by
  unfold write
  dsimp only
  rw [show unwritable? (ordered v) = none from h]

theorem writable_list : Writable (.list items) ↔ ∀ v ∈ items, Writable v := by
  unfold Writable
  rw [ordered, unwritable?, orderedItems_eq_map]
  induction items with
  | nil => simp [unwritableIn?]
  | cons v rest ih =>
    rw [List.map_cons, unwritableIn?, Option.or_eq_none_iff, ih, List.forall_mem_cons]

theorem writableUnder_iff {entries : Entries} :
    unwritableUnder? entries = none ↔ ∀ e ∈ entries, unwritable? e.2 = none := by
  induction entries with
  | nil => simp [unwritableUnder?]
  | cons e rest ih =>
    rw [unwritableUnder?, Option.or_eq_none_iff, ih, List.forall_mem_cons]

theorem writable_object (htexts : ∀ e ∈ entries, e.1.isText = true) :
    Writable (.object entries) ↔ ∀ e ∈ entries, Writable e.2 := by
  have hmixed : areMixed (inOrder entries) = false := by
    have hnone : (inOrder entries).any (!·.1.isText) = false := by
      rw [List.any_eq_false]
      intro e he
      obtain ⟨f, hf, rfl⟩ := (mem_inOrder htexts).mp he
      simp [htexts f hf]
    unfold areMixed
    rw [hnone, Bool.and_false]
  have hwritable : Writable (.object entries) ↔ unwritableUnder? (inOrder entries) = none := by
    show unwritable? (.object (inOrder entries)) = none ↔ _
    rw [unwritable?, hmixed]
    rfl
  rw [hwritable, writableUnder_iff]
  constructor
  · intro hall e he
    exact hall (e.1, ordered e.2) ((mem_inOrder htexts).mpr ⟨e, he, rfl⟩)
  · intro hall e he
    obtain ⟨f, hf, rfl⟩ := (mem_inOrder htexts).mp he
    exact hall f hf

theorem writable_get? (hkeys : TextKeys entries) (h : Writable (.object entries))
    (hget : entries.get? key = some v) : Writable v :=
  (writable_object hkeys.texts).mp h _ ((get?_eq_some_iff hkeys.distinct).mp hget)

theorem writable_record {fields : List (Text × Value)} (h : areNames (fields.map (·.1)) = true)
    (hvalues : ∀ f ∈ fields, Writable f.2) : Writable (Value.record fields) := by
  refine (writable_object (textKeys_record h).texts).mpr fun e he => ?_
  obtain ⟨f, hf, rfl⟩ := List.mem_map.mp he
  exact hvalues f hf

theorem writable_texts (ts : List Text) : Writable (Value.texts ts) := by
  refine writable_list.mpr fun v hv => ?_
  obtain ⟨t, -, rfl⟩ := List.mem_map.mp hv
  rfl

/-- A value that a file keeps and that can be written. -/
structure Sendable (depth : Nat) (v : Value) : Prop where
  kept : Kept depth v
  writable : Writable v

theorem sendable_text {t : Text} (h : Text.Encodes t) : Sendable depth (.text t) := ⟨h, rfl⟩

theorem sendable_bool (b : Bool) : Sendable depth (.bool b) := ⟨trivial, rfl⟩

theorem sendable_null : Sendable depth .null := ⟨trivial, rfl⟩

theorem sendable_list {items : List Value} (h : ∀ v ∈ items, Sendable depth v) :
    Sendable (depth + 1) (.list items) :=
  ⟨kept_list.mpr fun v hv => (h v hv).kept, writable_list.mpr fun v hv => (h v hv).writable⟩

theorem sendable_texts {ts : List Text} (h : ∀ t ∈ ts, Text.Encodes t) :
    Sendable (depth + 1) (Value.texts ts) := ⟨kept_texts h, writable_texts ts⟩

theorem sendable_record {fields : List (Text × Value)} (hnames : areNames (fields.map (·.1)) = true)
    (h : ∀ f ∈ fields, Sendable depth f.2) : Sendable (depth + 1) (Value.record fields) :=
  ⟨kept_record hnames fun f hf => (h f hf).kept, writable_record hnames fun f hf => (h f hf).writable⟩

theorem Sendable.mono {v : Value} {deeper : Nat} (h : Sendable depth v) (hle : depth ≤ deeper) :
    Sendable deeper v := ⟨kept_mono v hle h.kept, h.writable⟩

theorem Sendable.get? (h : Sendable (depth + 1) (.object entries)) (key : Text)
    (hget : entries.get? key = some v) : Sendable depth v :=
  ⟨kept_get? h.kept hget, writable_get? (kept_object.mp h.kept).1 h.writable hget⟩

theorem sendable_empty : Sendable (depth + 1) (.object []) :=
  ⟨kept_object.mpr ⟨⟨by simp, by simp, List.nodup_nil⟩, by simp⟩, rfl⟩

/-! ## Texts in values -/

/-- The text stands somewhere in the value. -/
inductive Mentions (t : Text) : Value → Prop where
  | text : Mentions t (.text t)
  | item {v : Value} {items : List Value} (hv : v ∈ items) (h : Mentions t v) :
      Mentions t (.list items)
  | under {e : Key × Value} {entries : Entries} (htexts : ∀ f ∈ entries, f.1.isText = true)
      (he : e ∈ entries) (h : Mentions t e.2) : Mentions t (.object entries)

theorem Mentions.of_get? (htexts : ∀ f ∈ entries, f.1.isText = true)
    (hget : entries.get? key = some v) (h : Mentions t v) : Mentions t (.object entries) := by
  unfold Entries.get? at hget
  obtain ⟨e, he, rfl⟩ := Option.map_eq_some_iff.mp hget
  exact .under htexts (List.mem_of_find?_eq_some he) h

theorem Mentions.ordered (h : Mentions t v) : Mentions t (ordered v) := by
  induction h with
  | text => exact .text
  | item hv _ ih =>
    rw [Json.ordered, orderedItems_eq_map]
    exact .item (List.mem_map_of_mem hv) ih
  | @under e entries htexts he _ ih =>
    have hordered : ∀ f ∈ orderedEntries entries, f.1.isText = true := by
      rw [orderedEntries_eq_map]
      intro f hf
      obtain ⟨g, hg, rfl⟩ := List.mem_map.mp hf
      exact htexts g hg
    have hperm := sortEntries_perm hordered
    refine .under (e := (e.1, Json.ordered e.2)) (fun f hf => hordered f (hperm.mem_iff.mp hf)) ?_ ih
    refine hperm.mem_iff.mpr ?_
    rw [orderedEntries_eq_map]
    exact List.mem_map_of_mem he

theorem escaped_of_surrogate {c : CodePoint} (h : c.isSurrogate = true) : escaped c = [c] := by
  have hne : ∀ d : CodePoint, d.isSurrogate = false → c ≠ d := by
    rintro d hd rfl
    rw [h] at hd
    exact absurd hd (by simp)
  have hval : 0xD800 ≤ c.val := by
    simp only [CodePoint.isSurrogate, Bool.and_eq_true, decide_eq_true_eq] at h
    exact h.1
  have hsmall : ¬ c.val < 0x20 := by omega
  simp only [escaped, hne _ (show CodePoint.isSurrogate '"' = false from rfl),
    hne _ (show CodePoint.isSurrogate '\\' = false from rfl),
    hne _ (show CodePoint.isSurrogate '\n' = false from rfl),
    hne _ (show CodePoint.isSurrogate '\r' = false from rfl),
    hne _ (show CodePoint.isSurrogate '\t' = false from rfl), decide_false, Bool.or_self,
    Bool.false_eq_true, if_false, hsmall]
  rw [if_neg (by omega), if_neg (by omega)]

theorem encodes_of_stringText (h : Text.Encodes (stringText t)) : Text.Encodes t := by
  intro c hc
  cases hsurrogate : c.isSurrogate with
  | false => rfl
  | true =>
    have hmem : c ∈ t.flatMap escaped :=
      List.mem_flatMap.mpr ⟨c, hc, by rw [escaped_of_surrogate hsurrogate]; exact List.mem_singleton_self c⟩
    unfold stringText at h
    rw [Text.encodes_append, Text.encodes_append] at h
    rw [← hsurrogate]
    exact h.1.2 c hmem

mutual

/-- What follows a value stands behind its own text. -/
theorem layout_append : ∀ (v : Value) (level : Nat) (after : Text),
    layout level v after = layout level v [] ++ after
  | .null, _, _ | .bool _, _, _ | .int _, _, _ | .real _, _, _ | .text _, _, _
  | .moment _, _, _ => by simp [layout]
  | .list items, level, after => by
    rw [layout, layout]
    split
    · rw [List.append_nil]
    · rw [layoutItems_append items, layoutItems_append items (level + 1) (newLine level ++ _)]
      simp
  | .object entries, level, after => by
    rw [layout, layout]
    split
    · rw [List.append_nil]
    · rw [layoutEntries_append entries, layoutEntries_append entries (level + 1) (newLine level ++ _)]
      simp

theorem layoutItems_append : ∀ (items : List Value) (level : Nat) (after : Text),
    layoutItems level items after = layoutItems level items [] ++ after
  | [], _, _ => rfl
  | v :: rest, level, after => by
    rw [layoutItems, layoutItems, layout_append v]
    conv => rhs; rw [layout_append v]
    split
    · simp
    · rw [layoutItems_append rest level after]
      simp

theorem layoutEntries_append : ∀ (entries : Entries) (level : Nat) (after : Text),
    layoutEntries level entries after = layoutEntries level entries [] ++ after
  | [], _, _ => rfl
  | (_, v) :: rest, level, after => by
    rw [layoutEntries, layoutEntries, layout_append v]
    conv => rhs; rw [layout_append v]
    split
    · simp
    · rw [layoutEntries_append rest level after]
      simp

end

theorem encodes_of_layoutItems {level : Nat} (hv : v ∈ items)
    (h : Text.Encodes (layoutItems level items [])) : Text.Encodes (layout level v []) := by
  induction items with
  | nil => exact absurd hv (by simp)
  | cons w rest ih =>
    rw [layoutItems, layout_append, Text.encodes_append, Text.encodes_append] at h
    rcases List.mem_cons.mp hv with rfl | hrest
    · exact h.2.1
    · rw [if_neg (by simp [List.ne_nil_of_mem hrest]), Text.encodes_append] at h
      exact ih hrest h.2.2.2

theorem encodes_of_layoutEntries {level : Nat} {e : Key × Value} (he : e ∈ entries)
    (h : Text.Encodes (layoutEntries level entries [])) : Text.Encodes (layout level e.2 []) := by
  induction entries with
  | nil => exact absurd he (by simp)
  | cons f rest ih =>
    rw [layoutEntries, layout_append] at h
    simp only [Text.encodes_append] at h
    rcases List.mem_cons.mp he with rfl | hrest
    · exact h.2.2.2.1
    · rw [if_neg (by simp [List.ne_nil_of_mem hrest]), Text.encodes_append] at h
      exact ih hrest h.2.2.2.2.2

/-- A document that can be encoded mentions no text that cannot. -/
theorem Mentions.encodes (h : Mentions t v) (level : Nat) (hlayout : Text.Encodes (layout level v [])) :
    Text.Encodes t := by
  induction h generalizing level with
  | text =>
    rw [layout, List.append_nil] at hlayout
    exact encodes_of_stringText hlayout
  | item hv _ ih =>
    rw [layout, if_neg (by simp [List.ne_nil_of_mem hv]), layoutItems_append] at hlayout
    simp only [Text.encodes_append] at hlayout
    exact ih _ (encodes_of_layoutItems hv hlayout.2.1)
  | under _ he _ ih =>
    rw [layout, if_neg (by simp [List.ne_nil_of_mem he]), layoutEntries_append] at hlayout
    simp only [Text.encodes_append] at hlayout
    exact ih _ (encodes_of_layoutEntries he hlayout.2.1)

theorem encodes_of_write {document : Text} (hwrite : write v = .ok document)
    (hdocument : Text.Encodes document) (h : Mentions t v) : Text.Encodes t := by
  obtain ⟨rfl, -⟩ := write_eq hwrite
  rw [layout_append, Text.encodes_append] at hdocument
  exact h.ordered.encodes 0 hdocument.1

end Json

end Acceptance
