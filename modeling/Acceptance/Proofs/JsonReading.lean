import Acceptance.Proofs.JsonRecord

/-! # What is read

A value that was read is such that a document can give it back: the keys of its objects are texts
and differ, and its numbers are no longer than a document writes them. Only its texts may hold what
cannot be encoded. -/

namespace Acceptance

namespace Json

/-! ## Values that are read -/

/-- Keys as they are read: texts, and no two the same. -/
structure AreNamed (entries : Entries) : Prop where
  texts : ∀ e ∈ entries, e.1.isText = true
  distinct : (entries.map (·.1)).Nodup

mutual

/-- A value as it is read, with at most `depth` lists and objects in one another. -/
def AsRead : Nat → Value → Prop
  | depth, .list items => 0 < depth ∧ AsReadItems (depth - 1) items
  | depth, .object entries => 0 < depth ∧ AreNamed entries ∧ AsReadUnder (depth - 1) entries
  | _, .int n => Value.isLongInt n = false
  | _, .real x => IsSpelled x
  | _, .moment _ => False
  | _, _ => True

def AsReadItems : Nat → List Value → Prop
  | _, [] => True
  | depth, v :: rest => AsRead depth v ∧ AsReadItems depth rest

def AsReadUnder : Nat → List (Key × Value) → Prop
  | _, [] => True
  | depth, (_, v) :: rest => AsRead depth v ∧ AsReadUnder depth rest

end

variable {depth : Nat} {items : List Value} {entries : Entries} {v : Value}

theorem asReadItems_iff : AsReadItems depth items ↔ ∀ v ∈ items, AsRead depth v := by
  induction items with
  | nil => simp [AsReadItems]
  | cons v rest ih => rw [AsReadItems, ih, List.forall_mem_cons]

theorem asReadUnder_iff : AsReadUnder depth entries ↔ ∀ e ∈ entries, AsRead depth e.2 := by
  induction entries with
  | nil => simp [AsReadUnder]
  | cons e rest ih => rw [AsReadUnder, ih, List.forall_mem_cons]

theorem asRead_list : AsRead (depth + 1) (.list items) ↔ ∀ v ∈ items, AsRead depth v := by
  rw [AsRead, ← asReadItems_iff]
  simp

theorem asRead_object : AsRead (depth + 1) (.object entries) ↔
    AreNamed entries ∧ ∀ e ∈ entries, AsRead depth e.2 := by
  rw [AsRead, ← asReadUnder_iff]
  simp

/-! ## Numbers -/

theorem decimalValue_lt {t : Text} (h : AreDigits t) : decimalValue t < 10 ^ t.length := by
  induction t with
  | nil => decide
  | cons c rest ih =>
    obtain ⟨hc, hrest⟩ := List.forall_mem_cons.mp h
    have hlt := ih hrest
    have hvalue := decimalValue_append [c] rest
    rw [List.singleton_append, decimalValue_singleton] at hvalue
    simp only [CodePoint.isAsciiDigit, Bool.and_eq_true, decide_eq_true_eq] at hc
    have hfront : (c.val - 0x30) * 10 ^ rest.length ≤ 9 * 10 ^ rest.length :=
      Nat.mul_le_mul_right _ (by omega)
    rw [hvalue, List.length_cons, Nat.pow_succ]
    omega

/-- A number of few enough digits is not too long. -/
theorem isLongInt_of_digits {t : Text} (h : AreDigits t) (hlength : t.length ≤ Value.mostDigits)
    {n : Int} (hn : n.natAbs = decimalValue t) : Value.isLongInt n = false := by
  have hbound : 10 ^ t.length ≤ 10 ^ Value.mostDigits := Nat.pow_le_pow_right (by decide) hlength
  rw [Value.isLongInt, hn, Binary64.tenTo_eq, decide_eq_false_iff_not, not_le]
  exact (decimalValue_lt h).trans_le hbound

theorem areDigits_readWhole {s whole left : Text} (h : readWhole s = some (whole, left)) :
    AreDigits whole := by
  unfold readWhole at h
  split at h
  · exact absurd h (by simp)
  next c rest =>
  split at h
  · obtain ⟨rfl, -⟩ := Prod.mk.inj (Option.some.inj h)
    intro d hd
    rw [List.mem_singleton.mp hd]
    simp_all
    rfl
  split at h
  · have hspan : spanDigits (c :: rest) = (whole, left) := Option.some.inj h
    unfold spanDigits at hspan
    rw [List.span_eq_takeWhile_dropWhile] at hspan
    rw [← (Prod.mk.inj hspan).1]
    intro d hd
    exact List.mem_takeWhile_imp hd
  · exact absurd h (by simp)

/-- A double that was rounded is finite or infinite. -/
theorem isSpelled_ofScaled (negative : Bool) (m scale : Nat) :
    IsSpelled (Binary64.ofScaled negative m scale) := by
  have hspelled : ∀ (exponent : Nat) (fraction : Fin fractions), IsSpelled
      (if exponent < 2047 then ⟨negative, Fin.ofNat 2048 exponent, fraction⟩
        else Binary64.infinity negative) := by
    intro exponent fraction
    split
    next hexponent =>
      have hval : (Fin.ofNat 2048 exponent).val = exponent := Nat.mod_eq_of_lt (by omega)
      have hne : Fin.ofNat 2048 exponent ≠ 2047 := by
        intro h
        rw [h] at hval
        exact absurd hval (by simp; omega)
      exact Or.inl (bne_iff_ne.mpr hne)
    next => exact Or.inr (Or.inr ⟨negative, rfl⟩)
  unfold Binary64.ofScaled
  split
  · exact Or.inl rfl
  · exact hspelled _ _

theorem isSpelled_ofRatio (negative : Bool) (num den : Nat) :
    IsSpelled (Binary64.ofRatio negative num den) := by
  unfold Binary64.ofRatio
  split
  · exact Or.inl rfl
  · exact isSpelled_ofScaled _ _ _

theorem isSpelled_ofDecimal (negative : Bool) (digits : Nat) (exponent : Int) :
    IsSpelled (Binary64.ofDecimal negative digits exponent) := by
  unfold Binary64.ofDecimal
  split
  · exact Or.inl rfl
  dsimp only
  split
  · exact Or.inr (Or.inr ⟨negative, rfl⟩)
  split
  · exact Or.inl rfl
  split
  · exact isSpelled_ofRatio _ _ _
  · exact isSpelled_ofRatio _ _ _

theorem asRead_readNumber {s left : Text} (h : readNumber s = .ok (v, left)) : AsRead depth v := by
  unfold readNumber at h
  dsimp only at h
  split at h
  · exact absurd h (by simp [fail])
  next whole rest hwhole =>
  split at h
  · split at h
    · exact absurd h (by simp)
    next hlength =>
      obtain ⟨rfl, -⟩ := Prod.mk.inj (Except.ok.inj h)
      have hsign : ∀ negative : Bool, (if negative then -(decimalValue whole : Int)
          else decimalValue whole).natAbs = decimalValue whole := by simp
      rw [AsRead]
      exact isLongInt_of_digits (areDigits_readWhole hwhole) (by omega) (hsign _)
  · obtain ⟨rfl, -⟩ := Prod.mk.inj (Except.ok.inj h)
    exact isSpelled_ofDecimal _ _ _

theorem asRead_readWord {s left : Text} (h : readWord s = some (v, left)) : AsRead depth v := by
  obtain ⟨w, hw, hv⟩ := Option.map_eq_some_iff.mp h
  obtain ⟨rfl, -⟩ := Prod.mk.inj hv
  have hmem := List.mem_of_find?_eq_some hw
  simp only [words, List.mem_cons, List.not_mem_nil, or_false] at hmem
  rcases hmem with rfl | rfl | rfl | rfl | rfl | rfl
  · trivial
  · trivial
  · trivial
  · exact Or.inr (Or.inl rfl)
  · exact Or.inr (Or.inr ⟨false, rfl⟩)
  · exact Or.inr (Or.inr ⟨true, rfl⟩)

/-! ## Objects -/

theorem AreNamed.set (h : AreNamed entries) (key : Text) (v : Value) :
    AreNamed (entries.set key v) := by
  rcases Entries.keys_set entries key v with hsame | ⟨habsent, hnew⟩
  · refine ⟨fun e he => ?_, by rw [hsame]; exact h.distinct⟩
    have hkey := List.mem_map_of_mem (f := (·.1)) he
    rw [hsame] at hkey
    obtain ⟨f, hf, hfe⟩ := List.mem_map.mp hkey
    rw [← hfe]
    exact h.texts f hf
  · refine ⟨fun e he => ?_, ?_⟩
    · have hkey := List.mem_map_of_mem (f := (·.1)) he
      rw [hnew, List.mem_append, List.mem_singleton] at hkey
      rcases hkey with hkey | hkey
      · obtain ⟨f, hf, hfe⟩ := List.mem_map.mp hkey
        rw [← hfe]
        exact h.texts f hf
      · rw [hkey]
        rfl
    · rw [hnew, List.nodup_append]
      refine ⟨h.distinct, List.nodup_singleton _, fun k hk l hl => ?_⟩
      rw [List.mem_singleton.mp hl]
      rintro rfl
      exact habsent hk

theorem areNamed_entriesOf (pairs : List (Text × Value)) : AreNamed (entriesOf pairs) := by
  have hfold : ∀ (pairs : List (Text × Value)) (entries : Entries), AreNamed entries →
      AreNamed (pairs.foldl (fun entries p => entries.set p.1 p.2) entries) := by
    intro pairs
    induction pairs with
    | nil => exact fun _ h => h
    | cons p rest ih => exact fun entries h => ih _ (h.set p.1 p.2)
  exact hfold pairs [] ⟨by simp, List.nodup_nil⟩

theorem value_entriesOf {pairs : List (Text × Value)} {P : Value → Prop}
    (h : ∀ p ∈ pairs, P p.2) : ∀ e ∈ entriesOf pairs, P e.2 := by
  have hfold : ∀ (pairs : List (Text × Value)) (entries : Entries), (∀ p ∈ pairs, P p.2) →
      (∀ e ∈ entries, P e.2) →
        ∀ e ∈ pairs.foldl (fun entries p => entries.set p.1 p.2) entries, P e.2 := by
    intro pairs
    induction pairs with
    | nil => exact fun _ _ h => h
    | cons p rest ih =>
      intro entries hpairs hentries
      obtain ⟨hp, hrest⟩ := List.forall_mem_cons.mp hpairs
      refine ih _ hrest fun e he => ?_
      rcases Entries.value_set he with hv | ⟨f, hf, hsame⟩
      · rwa [hv]
      · rw [← hsame]
        exact hentries f hf
  exact hfold pairs [] h (by simp)

/-! ## Any value

By induction on the fuel, one statement for each reader. -/

/-- The readers give values as they are read. -/
structure ReadsSoundly (fuel : Nat) : Prop where
  value : ∀ {depth s v left}, readValue fuel depth s = .ok (v, left) → AsRead depth v
  items : ∀ {depth s items left}, readItems fuel depth s = .ok (items, left) →
    ∀ v ∈ items, AsRead depth v
  entries : ∀ {depth s pairs left}, readEntries fuel depth s = .ok (pairs, left) →
    ∀ p ∈ pairs, AsRead depth p.2

theorem map_eq_ok {ε α β : Type} {e : Except ε α} {f : α → β} {b : β} (h : e.map f = .ok b) :
    ∃ a, e = .ok a ∧ f a = b := by
  cases e with
  | error _ => exact absurd h (by simp [Except.map])
  | ok a => exact ⟨a, rfl, Except.ok.inj h⟩

theorem bind_eq_ok {ε α β : Type} {e : Except ε α} {f : α → Except ε β} {b : β}
    (h : e >>= f = .ok b) : ∃ a, e = .ok a ∧ f a = .ok b := by
  cases e with
  | error _ => exact absurd h (by simp [bind, Except.bind])
  | ok a => exact ⟨a, rfl, h⟩

theorem asRead_readValue {fuel : Nat} (h : ReadsSoundly fuel) {s left : Text}
    (hread : readValue (fuel + 1) depth s = .ok (v, left)) : AsRead depth v := by
  unfold readValue at hread
  split at hread
  · exact absurd hread (by simp [fail])
  next c rest =>
  split at hread
  · obtain ⟨p, -, hp⟩ := map_eq_ok hread
    obtain ⟨rfl, -⟩ := Prod.mk.inj hp
    trivial
  split at hread
  · split at hread
    · exact absurd hread (by simp)
    next depth =>
    dsimp only at hread
    split at hread
    · obtain ⟨rfl, -⟩ := Prod.mk.inj (Except.ok.inj hread)
      exact asRead_object.mpr ⟨⟨by simp, List.nodup_nil⟩, by simp⟩
    · obtain ⟨p, hentries, hp⟩ := map_eq_ok hread
      obtain ⟨rfl, -⟩ := Prod.mk.inj hp
      exact asRead_object.mpr ⟨areNamed_entriesOf _, value_entriesOf (h.entries hentries)⟩
  split at hread
  · split at hread
    · exact absurd hread (by simp)
    next depth =>
    dsimp only at hread
    split at hread
    · obtain ⟨rfl, -⟩ := Prod.mk.inj (Except.ok.inj hread)
      exact asRead_list.mpr (by simp)
    · obtain ⟨p, hitems, hp⟩ := map_eq_ok hread
      obtain ⟨rfl, -⟩ := Prod.mk.inj hp
      exact asRead_list.mpr (h.items hitems)
  split at hread
  next found hfound =>
    rw [Except.ok.inj hread] at hfound
    exact asRead_readWord hfound
  next => exact asRead_readNumber hread

theorem asRead_readItems {fuel : Nat} (h : ReadsSoundly fuel) {s left : Text}
    (hread : readItems (fuel + 1) depth s = .ok (items, left)) : ∀ v ∈ items, AsRead depth v := by
  unfold readItems at hread
  obtain ⟨⟨v, rest⟩, hvalue, hread⟩ := bind_eq_ok hread
  have hv := h.value hvalue
  dsimp only at hread
  split at hread
  · exact absurd hread (by simp [fail])
  split at hread
  · obtain ⟨rfl, -⟩ := Prod.mk.inj (Except.ok.inj hread)
    simpa using hv
  split at hread
  · obtain ⟨⟨others, rest⟩, hothers, hread⟩ := bind_eq_ok hread
    obtain ⟨rfl, -⟩ := Prod.mk.inj (Except.ok.inj hread)
    exact List.forall_mem_cons.mpr ⟨hv, h.items hothers⟩
  · exact absurd hread (by simp [fail])

theorem asRead_readEntries {fuel : Nat} (h : ReadsSoundly fuel) {s left : Text}
    {pairs : List (Text × Value)} (hread : readEntries (fuel + 1) depth s = .ok (pairs, left)) :
    ∀ p ∈ pairs, AsRead depth p.2 := by
  unfold readEntries at hread
  obtain ⟨⟨name, rest⟩, -, hread⟩ := bind_eq_ok hread
  obtain ⟨⟨v, rest'⟩, hvalue, hread⟩ := bind_eq_ok hread
  have hv := h.value hvalue
  dsimp only at hread
  split at hread
  · exact absurd hread (by simp [fail])
  split at hread
  · obtain ⟨rfl, -⟩ := Prod.mk.inj (Except.ok.inj hread)
    simpa using hv
  split at hread
  · obtain ⟨⟨others, rest⟩, hothers, hread⟩ := bind_eq_ok hread
    obtain ⟨rfl, -⟩ := Prod.mk.inj (Except.ok.inj hread)
    exact List.forall_mem_cons.mpr ⟨hv, h.entries hothers⟩
  · exact absurd hread (by simp [fail])

theorem readsSoundly (fuel : Nat) : ReadsSoundly fuel := by
  induction fuel with
  | zero =>
    refine ⟨fun h => ?_, fun h => ?_, fun h => ?_⟩
    · exact absurd h (by simp [readValue, fail])
    · exact absurd h (by simp [readItems, fail])
    · exact absurd h (by simp [readEntries, fail])
  | succ fuel ih => exact ⟨asRead_readValue ih, asRead_readItems ih, asRead_readEntries ih⟩

/-- The value of a document is as values are read. -/
theorem asRead_read {t : Text} (h : read t = .ok v) : AsRead mostNested v := by
  have hdocument : readDocument t = .ok v := by
    unfold read at h
    cases hread : readDocument t with
    | error failure =>
      rw [hread] at h
      exact absurd h (by simp [Except.mapError])
    | ok w =>
      rw [hread] at h
      rw [Except.ok.inj h]
  unfold readDocument at hdocument
  split at hdocument
  · exact absurd hdocument (by simp)
  · obtain ⟨⟨w, left⟩, hvalue, hrest⟩ := bind_eq_ok hdocument
    dsimp only at hrest
    split at hrest
    · rw [← Except.ok.inj hrest]
      exact (readsSoundly _).value hvalue
    · exact absurd hrest (by simp)

end Json

end Acceptance
