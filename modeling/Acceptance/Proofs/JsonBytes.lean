import Acceptance.Proofs.JsonOrder

/-! # Documents in files

A document of values that a file keeps can be encoded, and has one kind of line end only. So it is
read back from the bytes that it is written as. -/

namespace Acceptance

namespace Text

/-- Neither a surrogate nor a carriage return stands in the text. -/
def Plain (t : Text) : Prop := ∀ c ∈ t, c.isSurrogate = false ∧ c ≠ '\r'

theorem plain_append {s t : Text} : Plain (s ++ t) ↔ Plain s ∧ Plain t := by
  unfold Plain
  exact List.forall_mem_append

theorem plain_of_all {t : Text} (h : t.all (fun c => !c.isSurrogate && c ≠ '\r') = true) :
    Plain t := by
  intro c hc
  simpa using List.all_eq_true.mp h c hc

theorem Plain.encodes {t : Text} (h : Plain t) : Encodes t := fun c hc => (h c hc).1

end Text

namespace Json

/-! ## Strings -/

theorem plain_escaped {c : CodePoint} (h : c.isSurrogate = false) : Text.Plain (escaped c) := by
  have hcontrol : ∀ n : Fin 32, Text.Plain ("\\u" ++ Text.paddedHex 4 n) := by
    have hall : ∀ n : Fin 32, (("\\u" : Text) ++ Text.paddedHex 4 n).all
        (fun c => !c.isSurrogate && c ≠ '\r') = true := by decide
    exact fun n => Text.plain_of_all (hall n)
  unfold escaped
  split
  next hmarked =>
    have hreturn : c ≠ '\r' := by
      rintro rfl
      exact absurd hmarked (by decide)
    intro d hd
    simp only [List.mem_cons, List.not_mem_nil, or_false] at hd
    rcases hd with rfl | rfl
    · exact ⟨by decide, by decide⟩
    · exact ⟨h, hreturn⟩
  split
  · exact Text.plain_of_all (by decide)
  split
  · exact Text.plain_of_all (by decide)
  next hreturn =>
  split
  · exact Text.plain_of_all (by decide)
  split
  · exact Text.plain_of_all (by decide)
  split
  · exact Text.plain_of_all (by decide)
  split
  next hc => exact hcontrol ⟨c.val, hc⟩
  next =>
    intro d hd
    rw [List.mem_singleton.mp hd]
    exact ⟨h, hreturn⟩

theorem plain_stringText {t : Text} (h : Text.Encodes t) : Text.Plain (stringText t) := by
  have hquote : Text.Plain "\"" := Text.plain_of_all (by decide)
  unfold stringText
  refine Text.plain_append.mpr ⟨Text.plain_append.mpr ⟨hquote, ?_⟩, hquote⟩
  intro c hc
  obtain ⟨d, hd, hescaped⟩ := List.mem_flatMap.mp hc
  exact plain_escaped (h d hd) c hescaped

/-! ## Numbers -/

theorem plain_of_areDigits {t : Text} (h : AreDigits t) : Text.Plain t := by
  intro c hc
  have hdigit := h c hc
  refine ⟨?_, digit_ne hdigit (by decide)⟩
  simp only [CodePoint.isAsciiDigit, Bool.and_eq_true, decide_eq_true_eq] at hdigit
  simp only [CodePoint.isSurrogate, Bool.and_eq_false_iff, decide_eq_false_iff_not]
  omega

theorem plain_ofInt (n : Int) : Text.Plain (Text.ofInt n) := by
  have hnat : ∀ n, Text.Plain (Text.ofNat n) := fun n =>
    plain_of_areDigits (Text.isAsciiDigit_of_mem_ofNat n)
  cases n with
  | ofNat n => exact hnat n
  | negSucc n =>
    exact Text.plain_append.mpr ⟨Text.plain_of_all (t := ['-']) (by decide), hnat (n + 1)⟩

theorem plain_positional {digits : Text} (h : AreDigits digits) (point : Int) :
    Text.Plain (Binary64.positional digits point) := by
  unfold Binary64.positional
  dsimp only
  split
  · rw [Text.plain_append, Text.plain_append]
    exact ⟨⟨Text.plain_of_all (by decide), plain_of_areDigits (areDigits_zeros _)⟩,
      plain_of_areDigits h⟩
  split
  · rw [Text.plain_append, Text.plain_append]
    exact ⟨⟨plain_of_areDigits h, plain_of_areDigits (areDigits_zeros _)⟩,
      Text.plain_of_all (by decide)⟩
  · rw [Text.plain_append, Text.plain_append]
    exact ⟨⟨plain_of_areDigits (areDigits_take h _), Text.plain_of_all (by decide)⟩, plain_of_areDigits (areDigits_drop h _)⟩

theorem plain_scientific {digits : Text} (h : AreDigits digits) (point : Int) :
    Text.Plain (Binary64.scientific digits point) := by
  have hsign : ∀ power : Int, Text.Plain (if power < 0 then "-" else "+" : String) := by
    intro power
    split <;> exact Text.plain_of_all (by decide)
  have hfraction : Text.Plain (if digits.length ≤ 1 then [] else '.' :: digits.drop 1) := by
    split
    · exact Text.plain_of_all (by decide)
    · exact Text.plain_append.mpr ⟨Text.plain_of_all (t := ['.']) (by decide),
        plain_of_areDigits (areDigits_drop h 1)⟩
  unfold Binary64.scientific
  simp only [Text.plain_append]
  exact ⟨⟨⟨⟨plain_of_areDigits (areDigits_take h 1), hfraction⟩, Text.plain_of_all (by decide)⟩, hsign _⟩,
    plain_of_areDigits (padded_spec 2 _).1⟩

theorem plain_toText {x : Binary64} (hfinite : x.isFinite = true) : Text.Plain x.toText := by
  have hnan : x.isNaN = false := by simp_all [Binary64.isFinite, Binary64.isNaN]
  have hinfinite : x.isInfinite = false := by simp_all [Binary64.isFinite, Binary64.isInfinite]
  have hsign : Text.Plain (signText x.negative) := by
    unfold signText
    split <;> exact Text.plain_of_all (by decide)
  unfold Binary64.toText
  simp only [hnan, hinfinite, Bool.false_eq_true, if_false]
  split
  · exact Text.plain_append.mpr ⟨hsign, Text.plain_of_all (by decide)⟩
  next hzero =>
    have hdigits := (spells_shortest hfinite (by simpa using hzero)).areDigits
    generalize x.shortest = shortest at hdigits
    obtain ⟨digits, point⟩ := shortest
    refine Text.plain_append.mpr ⟨hsign, ?_⟩
    dsimp only
    split
    · exact plain_positional hdigits point
    · exact plain_scientific hdigits point

theorem plain_realText (x : Binary64) : Text.Plain (realText x) := by
  unfold realText
  split
  · exact Text.plain_of_all (by decide)
  next hnan =>
  split
  · split <;> exact Text.plain_of_all (by decide)
  next hinfinite =>
    refine plain_toText ?_
    simp_all [Binary64.isFinite, Binary64.isNaN, Binary64.isInfinite]

/-! ## Sound texts -/

mutual

/-- All texts in the value can be encoded. -/
def Encodable : Value → Prop
  | .list items => EncodableItems items
  | .object entries => EncodableUnder entries
  | .text t => Text.Encodes t
  | _ => True

def EncodableItems : List Value → Prop
  | [] => True
  | v :: rest => Encodable v ∧ EncodableItems rest

def EncodableUnder : List (Key × Value) → Prop
  | [] => True
  | (k, v) :: rest => (Text.Encodes (keyName k) ∧ Encodable v) ∧ EncodableUnder rest

end

mutual

/-- The texts of what a file keeps are sound. -/
theorem encodable_of_kept : ∀ (v : Value) {depth : Nat}, Kept depth v → Encodable v
  | .null, _, _ | .bool _, _, _ | .int _, _, _ | .real _, _, _ => trivial
  | .text _, _, h => h
  | .moment _, _, _ => trivial
  | .list items, _, ⟨_, hitems⟩ => encodableItems_of_kept items hitems
  | .object entries, _, ⟨_, hkeys, hunder⟩ =>
    encodableUnder_of_kept entries hkeys.encodes hunder

theorem encodableItems_of_kept : ∀ (items : List Value) {depth : Nat}, KeptItems depth items →
    EncodableItems items
  | [], _, _ => trivial
  | v :: rest, _, ⟨hv, hrest⟩ => ⟨encodable_of_kept v hv, encodableItems_of_kept rest hrest⟩

theorem encodableUnder_of_kept : ∀ (entries : Entries) {depth : Nat},
    (∀ e ∈ entries, Text.Encodes (keyName e.1)) → KeptUnder depth entries → EncodableUnder entries
  | [], _, _, _ => trivial
  | (k, v) :: rest, _, hkeys, ⟨hv, hrest⟩ =>
    ⟨⟨hkeys (k, v) List.mem_cons_self, encodable_of_kept v hv⟩,
      encodableUnder_of_kept rest (fun e he => hkeys e (List.mem_cons_of_mem _ he)) hrest⟩

end

/-! ## Values -/

theorem plain_newLine (level : Nat) : Text.Plain (newLine level) := by
  have hfeed : Text.Plain ['\n'] := Text.plain_of_all (by decide)
  refine Text.plain_append.mpr ⟨hfeed, ?_⟩
  intro c hc
  rw [List.eq_of_mem_replicate hc]
  exact ⟨by decide, by decide⟩

mutual

theorem plain_layout : ∀ (v : Value), Encodable v → unwritable? v = none →
    ∀ (level : Nat) {after : Text}, Text.Plain after → Text.Plain (layout level v after)
  | .null => by
    intro _ _ _ _ hafter
    exact Text.plain_append.mpr ⟨Text.plain_of_all (by decide), hafter⟩
  | .bool b => by
    intro _ _ _ _ hafter
    refine Text.plain_append.mpr ⟨?_, hafter⟩
    cases b <;> exact Text.plain_of_all (by decide)
  | .int n => by
    intro _ _ _ _ hafter
    exact Text.plain_append.mpr ⟨plain_ofInt n, hafter⟩
  | .real _ => by
    intro _ _ _ _ hafter
    exact Text.plain_append.mpr ⟨plain_realText _, hafter⟩
  | .text _ => by
    intro hencodes _ _ _ hafter
    exact Text.plain_append.mpr ⟨plain_stringText hencodes, hafter⟩
  | .moment _ => by
    intro _ hwritable
    exact absurd hwritable (by simp [unwritable?])
  | .list items => by
    intro hitems hwritable level after hafter
    have hend : Text.Plain (newLine level ++ ("]" ++ after)) :=
      Text.plain_append.mpr ⟨plain_newLine level,
        Text.plain_append.mpr ⟨Text.plain_of_all (by decide), hafter⟩⟩
    rw [layout]
    split
    · exact Text.plain_append.mpr ⟨Text.plain_of_all (by decide), hafter⟩
    · exact Text.plain_append.mpr ⟨Text.plain_of_all (by decide),
        plain_layoutItems items hitems hwritable (level + 1) hend⟩
  | .object entries => by
    intro hunder hwritable level after hafter
    have hend : Text.Plain (newLine level ++ ("\x7d" ++ after)) :=
      Text.plain_append.mpr ⟨plain_newLine level,
        Text.plain_append.mpr ⟨Text.plain_of_all (by decide), hafter⟩⟩
    have hwritableUnder : unwritableUnder? entries = none := by
      rw [unwritable?] at hwritable
      split at hwritable
      · exact absurd hwritable (by simp)
      · exact hwritable
    rw [layout]
    split
    · exact Text.plain_append.mpr ⟨Text.plain_of_all (by decide), hafter⟩
    · exact Text.plain_append.mpr ⟨Text.plain_of_all (by decide),
        plain_layoutEntries entries hunder hwritableUnder (level + 1) hend⟩

theorem plain_layoutItems : ∀ (items : List Value), EncodableItems items →
    unwritableIn? items = none → ∀ (level : Nat) {after : Text}, Text.Plain after →
      Text.Plain (layoutItems level items after)
  | [], _, _, _, _, hafter => hafter
  | v :: rest, ⟨hvalue, hrest⟩, hwritable, level, after, hafter => by
    obtain ⟨hwritableValue, hwritableRest⟩ := unwritableIn?_cons hwritable
    rw [layoutItems]
    refine Text.plain_append.mpr ⟨plain_newLine level, plain_layout v hvalue hwritableValue level ?_⟩
    split
    · exact hafter
    · exact Text.plain_append.mpr ⟨Text.plain_of_all (by decide),
        plain_layoutItems rest hrest hwritableRest level hafter⟩

theorem plain_layoutEntries : ∀ (entries : Entries), EncodableUnder entries →
    unwritableUnder? entries = none → ∀ (level : Nat) {after : Text}, Text.Plain after →
      Text.Plain (layoutEntries level entries after)
  | [], _, _, _, _, hafter => hafter
  | (k, v) :: rest, ⟨⟨hname, hvalue⟩, hrest⟩, hwritable, level, after, hafter => by
    obtain ⟨hwritableValue, hwritableRest⟩ := unwritableUnder?_cons hwritable
    rw [layoutEntries]
    refine Text.plain_append.mpr ⟨plain_newLine level, Text.plain_append.mpr
      ⟨plain_stringText hname, Text.plain_append.mpr
        ⟨Text.plain_of_all (by decide), plain_layout v hvalue hwritableValue level ?_⟩⟩⟩
    split
    · exact hafter
    · exact Text.plain_append.mpr ⟨Text.plain_of_all (by decide), plain_layoutEntries rest
        hrest hwritableRest level hafter⟩

end

/-! ## Documents -/

theorem write_eq {v : Value} {document : Text} (h : write v = .ok document) :
    document = layout 0 (ordered v) "\n" ∧ unwritable? (ordered v) = none := by
  unfold write at h
  dsimp only at h
  split at h
  next => exact absurd h (by simp)
  next hwritable => exact ⟨(Except.ok.inj h).symm, hwritable⟩

theorem plain_written {v : Value} {document : Text} (hencodable : Encodable (ordered v))
    (h : write v = .ok document) : Text.Plain document := by
  obtain ⟨rfl, hwritable⟩ := write_eq h
  exact plain_layout _ hencodable hwritable 0 (Text.plain_of_all (by decide))

theorem plain_document {depth : Nat} {v : Value} {document : Text} (hkept : Kept depth v)
    (h : write v = .ok document) : Text.Plain document :=
  plain_written (encodable_of_kept _ (kept_ordered v hkept)) h

/-- A document is read back as the value with its entries in order. -/
theorem read_write {v : Value} {document : Text} (hkept : Kept mostNested v)
    (h : write v = .ok document) : read document = .ok (ordered v) := by
  obtain ⟨rfl, hwritable⟩ := write_eq h
  exact read_layout (kept_ordered v hkept) hwritable

/-- A document is what its bytes are decoded as. -/
theorem decode_written {v : Value} {document : Text} (hencodable : Encodable (ordered v))
    (h : write v = .ok document) :
    Utf8.decode (document.flatMap Utf8.bytesOf) = .ok document ∧
      Text.withLineFeeds document = document :=
  ⟨Utf8.decode_flatMap (plain_written hencodable h).encodes,
    Text.withLineFeeds_of_absent fun c hc => (plain_written hencodable h c hc).2⟩

theorem decode_document {v : Value} {document : Text} (hkept : Kept mostNested v)
    (h : write v = .ok document) :
    Utf8.decode (document.flatMap Utf8.bytesOf) = .ok document ∧
      Text.withLineFeeds document = document :=
  decode_written (encodable_of_kept _ (kept_ordered v hkept)) h

end Json

end Acceptance
