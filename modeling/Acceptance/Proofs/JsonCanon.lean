import Acceptance.Proofs.JsonRecord

/-! # One document for a value

Values that are equal as JSON are written as one and the same document, in whatever order the entries
of their objects are, and the document is read back as an equal value. -/

namespace Acceptance

namespace Text

theorem le_trans {s t u : Text} (h : le s t = true) (k : le t u = true) : le s u = true := by
  induction s generalizing t u with
  | nil => rfl
  | cons a s ih =>
    cases t with
    | nil => simp [le] at h
    | cons b t =>
      cases u with
      | nil => simp [le] at k
      | cons c u =>
        simp only [le, Bool.or_eq_true, Bool.and_eq_true, decide_eq_true_eq, beq_iff_eq] at h k ⊢
        rcases h with hab | ⟨hab, hst⟩ <;> rcases k with hbc | ⟨hbc, htu⟩
        · left; omega
        · left; omega
        · left; omega
        · exact .inr ⟨hab.trans hbc, ih hst htu⟩

theorem le_antisymm {s t : Text} (h : le s t = true) (k : le t s = true) : s = t := by
  induction s generalizing t with
  | nil =>
    cases t with
    | nil => rfl
    | cons b t => simp [le] at k
  | cons a s ih =>
    cases t with
    | nil => simp [le] at h
    | cons b t =>
      simp only [le, Bool.or_eq_true, Bool.and_eq_true, decide_eq_true_eq, beq_iff_eq] at h k
      rcases h with hab | ⟨hab, hst⟩ <;> rcases k with hba | ⟨hba, hts⟩
      · omega
      · omega
      · omega
      · have hsame : a = b := by
          cases a
          cases b
          simpa using hab
        rw [hsame, ih hst hts]

instance : Trans (fun s t : Text => le s t = true) (fun s t => le s t = true)
    (fun s t => le s t = true) := ⟨le_trans⟩

end Text

namespace Json

variable {depth : Nat} {v w : Value} {entries others : Entries}

/-! ## Values that are interchanged -/

mutual

/-- A JSON value without fractions: its integers are not too long to be read, its texts have no
lone surrogates, the keys of an object are different texts, and at most `depth` of its lists and
objects lie in one another. -/
def Portable : Nat → Value → Prop
  | depth, .list items => 0 < depth ∧ PortableItems (depth - 1) items
  | depth, .object entries => 0 < depth ∧ TextKeys entries ∧ PortableUnder (depth - 1) entries
  | _, .int n => Value.isLongInt n = false
  | _, .text t => Text.Encodes t
  | _, .real _ => False
  | _, .moment _ => False
  | _, _ => True

def PortableItems : Nat → List Value → Prop
  | _, [] => True
  | depth, v :: rest => Portable depth v ∧ PortableItems depth rest

def PortableUnder : Nat → List (Key × Value) → Prop
  | _, [] => True
  | depth, (_, v) :: rest => Portable depth v ∧ PortableUnder depth rest

end

mutual

/-- Equal values: lists are compared item by item, and objects as maps from keys to values. -/
def Agree : Value → Value → Prop
  | .list items, .list others => AgreeItems items others
  | .object entries, .object others =>
    (∀ k, k ∈ entries.map (·.1) ↔ k ∈ others.map (·.1)) ∧ AgreeUnder entries others
  | v, w => v = w

def AgreeItems : List Value → List Value → Prop
  | [], [] => True
  | v :: rest, w :: others => Agree v w ∧ AgreeItems rest others
  | _, _ => False

/-- What is under a key of the entries agrees with what is under the key among the others. -/
def AgreeUnder : List (Key × Value) → List (Key × Value) → Prop
  | [], _ => True
  | (k, v) :: rest, others => (∀ w, (k, w) ∈ others → Agree v w) ∧ AgreeUnder rest others

end

theorem agreeUnder_iff : AgreeUnder entries others ↔
    ∀ e ∈ entries, ∀ w, (e.1, w) ∈ others → Agree e.2 w := by
  induction entries with
  | nil => simp [AgreeUnder]
  | cons e rest ih => rw [AgreeUnder, ih, List.forall_mem_cons]

theorem portableUnder_iff : PortableUnder depth entries ↔ ∀ e ∈ entries, Portable depth e.2 := by
  induction entries with
  | nil => simp [PortableUnder]
  | cons e rest ih => rw [PortableUnder, ih, List.forall_mem_cons]

/-! ## Writing succeeds -/

mutual

theorem kept_of_portable : ∀ (v : Value) {depth : Nat}, Portable depth v → Kept depth v
  | .null, _, _ | .bool _, _, _ | .int _, _, _ => trivial
  | .real _, _, h | .moment _, _, h => h.elim
  | .text _, _, h => h
  | .list items, _, ⟨hdepth, hitems⟩ => ⟨hdepth, keptItems_of_portable items hitems⟩
  | .object entries, _, ⟨hdepth, hkeys, hunder⟩ =>
    ⟨hdepth, hkeys, keptUnder_of_portable entries hunder⟩

theorem keptItems_of_portable : ∀ (items : List Value) {depth : Nat}, PortableItems depth items →
    KeptItems depth items
  | [], _, _ => trivial
  | v :: rest, _, ⟨hvalue, hrest⟩ => ⟨kept_of_portable v hvalue, keptItems_of_portable rest hrest⟩

theorem keptUnder_of_portable : ∀ (entries : Entries) {depth : Nat}, PortableUnder depth entries →
    KeptUnder depth entries
  | [], _, _ => trivial
  | (_, v) :: rest, _, ⟨hvalue, hrest⟩ =>
    ⟨kept_of_portable v hvalue, keptUnder_of_portable rest hrest⟩

end

mutual

theorem writable_of_portable : ∀ (v : Value) {depth : Nat}, Portable depth v → Writable v
  | .null, _, _ | .bool _, _, _ | .text _, _, _ => rfl
  | .int n, _, h => by simp [Writable, ordered, unwritable?, show Value.isLongInt n = false from h]
  | .real _, _, h | .moment _, _, h => h.elim
  | .list items, _, ⟨_, hitems⟩ => writable_list.mpr (writableItems_of_portable items hitems)
  | .object entries, _, ⟨_, hkeys, hunder⟩ =>
    (writable_object hkeys.texts).mpr (writableUnder_of_portable entries hunder)

theorem writableItems_of_portable : ∀ (items : List Value) {depth : Nat},
    PortableItems depth items → ∀ v ∈ items, Writable v
  | [], _, _ => by simp
  | v :: rest, _, ⟨hvalue, hrest⟩ => List.forall_mem_cons.mpr
    ⟨writable_of_portable v hvalue, writableItems_of_portable rest hrest⟩

theorem writableUnder_of_portable : ∀ (entries : Entries) {depth : Nat},
    PortableUnder depth entries → ∀ e ∈ entries, Writable e.2
  | [], _, _ => by simp
  | (_, v) :: rest, _, ⟨hvalue, hrest⟩ => List.forall_mem_cons.mpr
    ⟨writable_of_portable v hvalue, writableUnder_of_portable rest hrest⟩

end

/-! ## What is in order agrees -/

mutual

/-- A value agrees with itself in order. -/
theorem agree_ordered_of_kept : ∀ (v : Value) {depth : Nat}, Kept depth v → Agree v (ordered v)
  | .null, _, _ | .bool _, _, _ | .int _, _, _ | .real _, _, _ | .text _, _, _
  | .moment _, _, _ => rfl
  | .list items, _, ⟨_, hitems⟩ => agreeItems_ordered items hitems
  | .object entries, _, ⟨_, hkeys, hunder⟩ => by
    have hperm := inOrder_perm hkeys.texts
    have hkeysPerm : ((inOrder entries).map (·.1)).Perm (entries.map (·.1)) := by
      have hmapped := hperm.map (·.1)
      rwa [keys_orderedEntries] at hmapped
    refine ⟨fun k => hkeysPerm.mem_iff.symm, agreeUnder_iff.mpr fun e he w hw => ?_⟩
    obtain ⟨f, hf, hfw⟩ := (mem_inOrder hkeys.texts).mp hw
    obtain ⟨hkey, rfl⟩ := Prod.mk.inj hfw
    obtain rfl := List.inj_on_of_nodup_map hkeys.distinct hf he hkey
    exact agreeUnder_ordered entries hunder f he

theorem agreeItems_ordered : ∀ (items : List Value) {depth : Nat}, KeptItems depth items →
    AgreeItems items (orderedItems items)
  | [], _, _ => trivial
  | v :: rest, _, ⟨hvalue, hrest⟩ =>
    ⟨agree_ordered_of_kept v hvalue, agreeItems_ordered rest hrest⟩

theorem agreeUnder_ordered : ∀ (entries : Entries) {depth : Nat}, KeptUnder depth entries →
    ∀ e ∈ entries, Agree e.2 (ordered e.2)
  | [], _, _ => by simp
  | (_, v) :: rest, _, ⟨hvalue, hrest⟩ => List.forall_mem_cons.mpr
    ⟨agree_ordered_of_kept v hvalue, agreeUnder_ordered rest hrest⟩

end

theorem agree_ordered (v : Value) {depth : Nat} (h : Portable depth v) : Agree v (ordered v) :=
  agree_ordered_of_kept v (kept_of_portable v h)

/-! ## Values that agree have one order -/

/-- Entries with texts as keys are in order exactly if no key is greater than one that comes
later. -/
theorem sorted_iff_pairwise (htexts : ∀ e ∈ entries, e.1.isText = true) :
    Sorted entries ↔
      (entries.map fun e => keyName e.1).Pairwise fun s t => Text.le s t = true := by
  have hbefore : ∀ e ∈ entries, ∀ f ∈ entries,
      f.1.before e.1 = false ↔ Text.le (keyName e.1) (keyName f.1) = true := by
    intro e he f hf
    obtain ⟨s, hs⟩ := Key.exists_text (htexts e he)
    obtain ⟨t, ht⟩ := Key.exists_text (htexts f hf)
    simp [hs, ht, Key.before, keyName]
  rw [← List.isChain_iff_pairwise, List.isChain_map]
  exact ⟨List.IsChain.imp_of_mem_imp fun e f he hf => (hbefore e he f hf).mp,
    List.IsChain.imp_of_mem_imp fun e f he hf => (hbefore e he f hf).mpr⟩

/-- There is one order of the same entries. -/
theorem sortEntries_eq_of_perm (h : TextKeys entries) (k : TextKeys others)
    (hperm : entries.Perm others) : sortEntries entries = sortEntries others := by
  have hfirst := sortEntries_perm h.texts
  have hsecond := sortEntries_perm k.texts
  have htexts : ∀ e ∈ sortEntries entries, e.1.isText = true := fun e he =>
    h.texts e (hfirst.mem_iff.mp he)
  have htexts' : ∀ e ∈ sortEntries others, e.1.isText = true := fun e he =>
    k.texts e (hsecond.mem_iff.mp he)
  have hle := List.pairwise_map.mp ((sorted_iff_pairwise htexts).mp (sorted_sortEntries h.texts))
  have hle' := List.pairwise_map.mp ((sorted_iff_pairwise htexts').mp (sorted_sortEntries k.texts))
  refine List.Perm.eq_of_pairwise ?_ hle hle' (hfirst.trans (hperm.trans hsecond.symm))
  intro e f he hf hef hfe
  have hkey := keyName_inj (htexts e he) (htexts' f hf) (Text.le_antisymm hef hfe)
  exact List.inj_on_of_nodup_map h.distinct (hfirst.mem_iff.mp he)
    (hperm.mem_iff.mpr (hsecond.mem_iff.mp hf)) hkey

/-- Entries under the same keys, whose values are the same in order, are the same in order. -/
theorem orderedEntries_perm (h : TextKeys entries) (k : TextKeys others)
    (hkeys : ∀ k, k ∈ entries.map (·.1) ↔ k ∈ others.map (·.1))
    (hvalues : ∀ e ∈ entries, ∀ w, (e.1, w) ∈ others → ordered e.2 = ordered w) :
    (orderedEntries entries).Perm (orderedEntries others) := by
  rw [List.perm_ext_iff_of_nodup (List.Nodup.of_map _ h.ordered.distinct)
    (List.Nodup.of_map _ k.ordered.distinct)]
  intro e
  rw [orderedEntries_eq_map, orderedEntries_eq_map, List.mem_map, List.mem_map]
  constructor
  · rintro ⟨f, hf, rfl⟩
    obtain ⟨g, hg, hkey⟩ := List.mem_map.mp ((hkeys f.1).mp (List.mem_map_of_mem hf))
    have hvalue := hvalues f hf g.2 (hkey ▸ hg)
    exact ⟨g, hg, Prod.ext hkey hvalue.symm⟩
  · rintro ⟨g, hg, rfl⟩
    obtain ⟨f, hf, hkey⟩ := List.mem_map.mp ((hkeys g.1).mpr (List.mem_map_of_mem hg))
    have hvalue := hvalues f hf g.2 (hkey ▸ hg)
    exact ⟨f, hf, Prod.ext hkey hvalue⟩

mutual

theorem ordered_eq_of_agree : ∀ (v w : Value) {depth deeper : Nat}, Portable depth v →
    Portable deeper w → Agree v w → ordered v = ordered w
  | .null, _ => by
    intro _ _ h
    exact congrArg ordered h
  | .bool b, _ => by
    intro _ _ h
    exact congrArg ordered h
  | .int n, _ => by
    intro _ _ h
    exact congrArg ordered h
  | .real x, _ => by
    intro _ _ h
    exact congrArg ordered h
  | .text t, _ => by
    intro _ _ h
    exact congrArg ordered h
  | .moment m, _ => by
    intro _ _ h
    exact congrArg ordered h
  | .list items, w => by
    intro hv hw h
    cases w with
    | list others =>
      exact congrArg Value.list (orderedItems_eq_of_agree items others hv.2 hw.2 h)
    | _ => exact absurd h (by simp [Agree])
  | .object entries, w => by
    intro hv hw h
    cases w with
    | object others =>
      obtain ⟨-, hkeys, hunder⟩ := hv
      obtain ⟨-, hkeys', hunder'⟩ := hw
      obtain ⟨hsame, hagree⟩ := h
      have hvalues := orderedUnder_eq_of_agree entries hunder (portableUnder_iff.mp hunder')
        (agreeUnder_iff.mp hagree)
      exact congrArg Value.object (sortEntries_eq_of_perm hkeys.ordered hkeys'.ordered
        (orderedEntries_perm hkeys hkeys' hsame hvalues))
    | _ => exact absurd h (by simp [Agree])

theorem orderedItems_eq_of_agree : ∀ (items others : List Value)
    {depth deeper : Nat}, PortableItems depth items → PortableItems deeper others →
    AgreeItems items others → orderedItems items = orderedItems others
  | [], others => by
    intro _ _ h
    cases others with
    | nil => rfl
    | cons w rest => exact absurd h (by simp [AgreeItems])
  | v :: rest, others => by
    intro hitems hothers h
    cases others with
    | nil => exact absurd h (by simp [AgreeItems])
    | cons w others =>
      rw [orderedItems, orderedItems, ordered_eq_of_agree v w hitems.1 hothers.1 h.1,
        orderedItems_eq_of_agree rest others hitems.2 hothers.2 h.2]

theorem orderedUnder_eq_of_agree : ∀ (entries : Entries) {others : Entries} {depth deeper : Nat},
    PortableUnder depth entries → (∀ e ∈ others, Portable deeper e.2) →
    (∀ e ∈ entries, ∀ w, (e.1, w) ∈ others → Agree e.2 w) →
    ∀ e ∈ entries, ∀ w, (e.1, w) ∈ others → ordered e.2 = ordered w
  | [] => by simp
  | (k, v) :: rest => by
    intro hunder hothers h
    rw [List.forall_mem_cons] at h ⊢
    refine ⟨fun w hw => ?_, orderedUnder_eq_of_agree rest hunder.2 hothers h.2⟩
    exact ordered_eq_of_agree v w hunder.1 (hothers _ hw) (h.1 w hw)

end

/-! ## Documents -/

/-- A value that can be interchanged has a document, which is read back as an equal value. Any equal
value has the same document, so what is read back has it, too. -/
theorem write_canonical (h : Portable mostNested v) :
    ∃ document, write v = .ok document ∧
      (∃ w, read document = .ok w ∧ Agree v w ∧ write w = .ok document) ∧
      ∀ w, Portable mostNested w → Agree v w → write w = .ok document := by
  have hkept := kept_of_portable v h
  have hwritable := writable_of_portable v h
  have hread : read (layout 0 (ordered v) "\n") = .ok (ordered v) :=
    read_layout (kept_ordered v hkept) hwritable
  have hordered : write (ordered v) = .ok (layout 0 (ordered v) "\n") := by
    rw [write_of_writable ((writable_ordered hkept).mpr hwritable), ordered_ordered v hkept]
  refine ⟨_, write_of_writable hwritable, ⟨_, hread, agree_ordered v h, hordered⟩, ?_⟩
  intro w hw hagree
  rw [write_of_writable (writable_of_portable w hw), ordered_eq_of_agree v w h hw hagree]

theorem write_canonical_swapped :
    ∃ document, write (Value.record [("name", .text "né\"e"), ("count", .int (-1))]) = .ok document ∧
      write (Value.record [("count", .int (-1)), ("name", .text "né\"e")]) = .ok document := by
  have hcount : Value.isLongInt (-1) = false := by decide +kernel
  have hname : Text.Encodes "né\"e" := Text.encodes_of_all (by decide)
  have hdiffer : Text.of "name" ≠ "count" := by decide
  have hfirst : Portable mostNested (Value.record [("name", .text "né\"e"), ("count", .int (-1))]) :=
    ⟨by decide, textKeys_record (by decide), hname, hcount, trivial⟩
  have hsecond : Portable mostNested (Value.record [("count", .int (-1)), ("name", .text "né\"e")]) :=
    ⟨by decide, textKeys_record (by decide), hcount, hname, trivial⟩
  obtain ⟨document, hdocument, -, hequal⟩ := write_canonical hfirst
  refine ⟨document, hdocument, hequal _ hsecond ⟨?_, agreeUnder_iff.mpr ?_⟩⟩
  · simp [or_comm]
  · simp +contextual [Agree, hdiffer, hdiffer.symm]

end Json

end Acceptance
