import Mathlib.Data.List.TakeWhile
import Acceptance.Json.Writer
import Acceptance.Proofs.Digits
import Acceptance.Proofs.Shortest

/-! # Numbers in JSON

An integer that is not too long and a finite double are read back from the text that they are
written as. -/

namespace Acceptance

namespace Json

/-- The text does not go on with a part of a number. -/
def EndsNumber (after : Text) : Prop :=
  ∀ c, after.head? = some c →
    c.isAsciiDigit = false ∧ c ≠ '.' ∧ c ≠ 'e' ∧ c ≠ 'E'

/-- All characters are digits. -/
def AreDigits (t : Text) : Prop := ∀ c ∈ t, c.isAsciiDigit = true

/-- The digits are read as a whole number. -/
def IsWhole (whole : Text) : Prop :=
  AreDigits whole ∧ ∀ after, EndsDigits after → readWhole (whole ++ after) = some (whole, after)

def signText (negative : Bool) : Text := if negative then "-" else ""

theorem EndsNumber.endsDigits {after : Text} (h : EndsNumber after) : EndsDigits after :=
  fun c hc => (h c hc).1

theorem endsDigits_cons {c : CodePoint} (h : c.isAsciiDigit = false) (rest : Text) :
    EndsDigits (c :: rest) := by
  intro d hd
  rw [List.head?_cons, Option.some.injEq] at hd
  rwa [← hd]

/-! ## Parts of a number -/

theorem isWhole_zero : IsWhole ['0'] := by
  refine ⟨?_, fun after _ => ?_⟩
  · intro c hc
    rw [List.mem_singleton.mp hc]
    rfl
  · unfold readWhole
    exact if_pos rfl

theorem isWhole_of_head {whole : Text} (h : AreDigits whole) (hne : whole ≠ [])
    (hhead : whole.head? ≠ some ('0' : CodePoint)) : IsWhole whole := by
  refine ⟨h, fun after hafter => ?_⟩
  cases whole with
  | nil => exact absurd rfl hne
  | cons c rest =>
    have hzero : c ≠ '0' := fun hc => hhead (by rw [List.head?_cons, hc])
    have hdigit : c.isAsciiDigit = true := h c List.mem_cons_self
    have hspan := spanDigits_append h hafter
    rw [List.cons_append] at hspan ⊢
    unfold readWhole
    simp only [if_neg hzero, if_pos hdigit, hspan]

theorem isWhole_ofNat (n : Nat) : IsWhole (Text.ofNat n) := by
  rcases Nat.eq_zero_or_pos n with rfl | hn
  · exact isWhole_zero
  · exact isWhole_of_head (Text.isAsciiDigit_of_mem_ofNat n) (Text.ofNat_ne_nil n)
      (Text.head_ofNat hn)

theorem readDecimals_none {after : Text} (h : EndsNumber after) : readDecimals after = none := by
  cases after with
  | nil => rfl
  | cons c rest =>
    obtain ⟨-, hpoint, -, -⟩ := h c rfl
    unfold readDecimals
    exact if_neg hpoint

theorem readDecimals_digits {digits after : Text} (h : AreDigits digits) (hne : digits ≠ [])
    (hafter : EndsDigits after) :
    readDecimals (('.' : CodePoint) :: (digits ++ after)) = some (digits, after) := by
  have hempty : digits.isEmpty = false := by simpa using hne
  unfold readDecimals
  simp only [if_true, spanDigits_append h hafter, hempty]
  rfl

theorem readPower_none {after : Text} (h : EndsNumber after) : readPower after = none := by
  cases after with
  | nil => rfl
  | cons c rest =>
    obtain ⟨-, -, hsmall, hcapital⟩ := h c rfl
    unfold readPower
    simp [hsmall, hcapital]

/-- The sign that a power of ten is written with. -/
def powerSign (power : Int) : CodePoint := if power < 0 then '-' else '+'

theorem readPower_digits (power : Int) {digits after : Text} (h : AreDigits digits)
    (hne : digits ≠ []) (hvalue : decimalValue digits = power.natAbs) (hafter : EndsDigits after) :
    readPower (('e' : CodePoint) :: powerSign power :: (digits ++ after)) = some (power, after) := by
  have hempty : digits.isEmpty = false := by simpa using hne
  unfold readPower powerSign
  by_cases hnegative : power < 0
  · have hpower : -(power.natAbs : Int) = power := by omega
    simp only [decide_true, Bool.true_or, if_true, if_pos hnegative, spanDigits_append h hafter,
      hempty, hvalue, Bool.false_eq_true, if_false, hpower]
  · have hminus : ('+' : CodePoint) ≠ '-' := by decide
    have hpower : (power.natAbs : Int) = power := by omega
    simp only [decide_true, Bool.true_or, if_true, if_neg hnegative, if_neg hminus,
      spanDigits_append h hafter, hempty, hvalue, Bool.false_eq_true, if_false, hpower]

/-! ## Whole numbers -/

theorem readNumber_whole (negative : Bool) {t whole left : Text}
    (hsign : t.head? ≠ some ('-' : CodePoint)) (hwhole : readWhole t = some (whole, left))
    (hleft : EndsNumber left) (hlength : whole.length ≤ Value.mostDigits) :
    readNumber (signText negative ++ t) =
      .ok (.int (if negative then -decimalValue whole else decimalValue whole), left) := by
  have hshort : ¬ Value.mostDigits < whole.length := by omega
  cases negative with
  | true =>
    show readNumber (('-' : CodePoint) :: t) = _
    unfold readNumber
    simp [hwhole, readDecimals_none hleft, readPower_none hleft, hshort]
  | false =>
    show readNumber t = _
    cases t with
    | nil => simp [readWhole] at hwhole
    | cons c rest =>
      have hminus : c ≠ '-' := fun hc => hsign (by rw [List.head?_cons, hc])
      unfold readNumber
      simp [hminus, hwhole, readDecimals_none hleft, readPower_none hleft, hshort]

theorem digit_ne {c d : CodePoint} (h : c.isAsciiDigit = true) (hd : d.isAsciiDigit = false) :
    c ≠ d := by
  rintro rfl
  rw [h] at hd
  exact absurd hd (by decide)

theorem head_ne_of_areDigits {t : Text} (h : AreDigits t) {d : CodePoint}
    (hd : d.isAsciiDigit = false) (after : Text) (hne : t ≠ []) :
    (t ++ after).head? ≠ some d := by
  cases t with
  | nil => exact absurd rfl hne
  | cons c rest =>
    rw [List.cons_append, List.head?_cons, ne_eq, Option.some.injEq]
    exact digit_ne (h c List.mem_cons_self) hd

theorem length_ofNat_le {n : Nat} (h : n < tenTo Value.mostDigits) :
    (Text.ofNat n).length ≤ Value.mostDigits := by
  rwa [Text.length_ofNat, Nat.length_toDigits_le_iff (by decide) (by decide),
    ← Binary64.tenTo_eq]

/-- An integer that is not too long is read back. -/
theorem readNumber_ofInt {n : Int} (h : Value.isLongInt n = false) {after : Text}
    (hafter : EndsNumber after) : readNumber (Text.ofInt n ++ after) = .ok (.int n, after) := by
  have hlength : n.natAbs < tenTo Value.mostDigits := by
    unfold Value.isLongInt at h
    exact not_le.mp (of_decide_eq_false h)
  have hread : ∀ negative, readNumber (signText negative ++ (Text.ofNat n.natAbs ++ after)) =
      .ok (.int (if negative then -n.natAbs else n.natAbs), after) := by
    intro negative
    have hdigits := Text.isAsciiDigit_of_mem_ofNat n.natAbs
    have hnumber := readNumber_whole negative
      (head_ne_of_areDigits hdigits (by decide) after (Text.ofNat_ne_nil _))
      ((isWhole_ofNat n.natAbs).2 after hafter.endsDigits) hafter (length_ofNat_le hlength)
    rwa [decimalValue_ofNat] at hnumber
  cases n with
  | ofNat n => exact hread false
  | negSucc n => exact hread true

/-! ## Numbers with a fraction or a power -/

theorem readNumber_real (negative : Bool) {t whole left after : Text}
    {decimals : Option (Text × Text)} {power : Option (Int × Text)}
    (hsign : t.head? ≠ some ('-' : CodePoint)) (hwhole : readWhole t = some (whole, left))
    (hdecimals : readDecimals left = decimals)
    (hpower : readPower ((decimals.map (·.2)).getD left) = power)
    (hafter : (power.map (·.2)).getD ((decimals.map (·.2)).getD left) = after)
    (hreal : decimals.isSome ∨ power.isSome) :
    readNumber (signText negative ++ t) =
      .ok (.real (Binary64.ofDecimal negative
        (decimalValue (whole ++ (decimals.map (·.1)).getD []))
        ((power.map (·.1)).getD 0 - ((decimals.map (·.1)).getD []).length)), after) := by
  cases negative with
  | true =>
    show readNumber (('-' : CodePoint) :: t) = _
    unfold readNumber
    simp only [if_true, hwhole, hdecimals, hpower, hafter]
    cases decimals <;> cases power <;> simp_all
  | false =>
    show readNumber t = _
    cases t with
    | nil => simp [readWhole] at hwhole
    | cons c rest =>
      have hminus : c ≠ '-' := fun hc => hsign (by rw [List.head?_cons, hc])
      unfold readNumber
      simp only [if_neg hminus, hwhole, hdecimals, hpower, hafter]
      cases decimals <;> cases power <;> simp_all

/-- Digits with a point between them. -/
theorem readNumber_point (negative : Bool) {whole digits after : Text} (hwhole : IsWhole whole)
    (hne : whole ≠ []) (hdigits : AreDigits digits) (hne' : digits ≠ [])
    (hafter : EndsNumber after) :
    readNumber (signText negative ++ (whole ++ (('.' : CodePoint) :: (digits ++ after)))) =
      .ok (.real (Binary64.ofDecimal negative (decimalValue (whole ++ digits)) (-digits.length)),
        after) := by
  have hnumber := readNumber_real negative
    (head_ne_of_areDigits hwhole.1 (by decide) _ hne)
    (hwhole.2 (('.' : CodePoint) :: (digits ++ after)) (endsDigits_cons (by decide) _))
    (readDecimals_digits hdigits hne' hafter.endsDigits) (readPower_none hafter) rfl (Or.inl rfl)
  rw [hnumber]
  simp

/-- Digits after a point, which is left out with them. -/
def fractionText (digits : Text) : Text := if digits.isEmpty then [] else '.' :: digits

/-- Digits with a power of ten after them. -/
theorem readNumber_power (negative : Bool) (power : Int) {whole digits number after : Text}
    (hwhole : IsWhole whole) (hne : whole ≠ []) (hdigits : AreDigits digits)
    (hnumber : AreDigits number) (hne' : number ≠ [])
    (hvalue : decimalValue number = power.natAbs) (hafter : EndsNumber after) :
    readNumber (signText negative ++ (whole ++ (fractionText digits ++
        (('e' : CodePoint) :: powerSign power :: (number ++ after))))) =
      .ok (.real (Binary64.ofDecimal negative (decimalValue (whole ++ digits))
        (power - digits.length)), after) := by
  have hpower := readPower_digits power hnumber hne' hvalue hafter.endsDigits
  have hhead := head_ne_of_areDigits hwhole.1 (d := '-') (by decide)
  unfold fractionText
  cases digits with
  | nil =>
    have hnone : readDecimals (('e' : CodePoint) :: powerSign power :: (number ++ after)) = none := by
      unfold readDecimals
      exact if_neg (by decide)
    have hreal := readNumber_real negative (hhead _ hne)
      (hwhole.2 _ (endsDigits_cons (by decide) _)) hnone hpower rfl (Or.inr rfl)
    simpa using hreal
  | cons d digits =>
    have hdecimals := readDecimals_digits hdigits (List.cons_ne_nil d digits)
      (endsDigits_cons (c := 'e') (by decide) (powerSign power :: (number ++ after)))
    have hreal := readNumber_real negative (hhead _ hne)
      (hwhole.2 _ (endsDigits_cons (by decide) _)) hdecimals hpower rfl (Or.inl rfl)
    simpa using hreal

/-! ## The text of a double -/

theorem areDigits_append {s t : Text} (hs : AreDigits s) (ht : AreDigits t) :
    AreDigits (s ++ t) := by
  intro c hc
  rcases List.mem_append.mp hc with hc | hc
  · exact hs c hc
  · exact ht c hc

theorem areDigits_zeros (n : Nat) : AreDigits (List.replicate n ('0' : CodePoint)) := by
  intro c hc
  rw [List.eq_of_mem_replicate hc]
  rfl

/-- Digits that a number is written with: no zero in front, and the point after some of them. -/
structure Spells (x : Binary64) (digits : Text) (point : Int) : Prop where
  areDigits : AreDigits digits
  nonempty : digits ≠ []
  head : digits.head? ≠ some ('0' : CodePoint)
  value : Binary64.ofDecimal x.negative (decimalValue digits) (point - digits.length) = x

theorem exists_trimmed (c : CodePoint) (t : Text) :
    ∃ k, t = Text.trimRightWhere (· = c) t ++ List.replicate k c := by
  refine ⟨(t.reverse.takeWhile (· = c)).length, ?_⟩
  have hend : t.reverse.takeWhile (· = c) =
      List.replicate (t.reverse.takeWhile (· = c)).length c := by
    refine List.eq_replicate_of_mem fun d hd => ?_
    simpa using List.mem_takeWhile_imp hd
  have happend := List.takeWhile_append_dropWhile (p := (· = c)) (l := t.reverse)
  rw [← List.reverse_inj, List.reverse_append, List.reverse_replicate, ← hend,
    Text.trimRightWhere, List.reverse_reverse]
  exact happend.symm

/-- The digits of the shortest decimal, which lose their zeros at the end. -/
theorem spells_shortest {x : Binary64} (hfinite : x.isFinite = true) (hzero : x.isZero = false) :
    Spells x x.shortest.1 x.shortest.2 := by
  obtain ⟨⟨digits, exponent⟩, hfound, hreads⟩ := Binary64.shortestFrom_spec hfinite hzero
  have hdigits : 0 < digits := by
    rcases Nat.eq_zero_or_pos digits with rfl | hpos
    · unfold Binary64.ReadsBack at hreads
      rw [Binary64.ofDecimal_zero] at hreads
      rw [← hreads] at hzero
      exact absurd hzero (by simp [Binary64.isZero, Binary64.zero])
    · exact hpos
  have hshortest : x.shortest = (Text.trimRightWhere (· = '0') (Text.ofNat digits),
      exponent + (Text.ofNat digits).length) := by
    unfold Binary64.shortest
    rw [hfound]
  obtain ⟨k, hall⟩ := exists_trimmed '0' (Text.ofNat digits)
  rw [hshortest]
  generalize Text.trimRightWhere (· = '0') (Text.ofNat digits) = trimmed at *
  have hhead := Text.head_ofNat hdigits
  have hmem := Text.isAsciiDigit_of_mem_ofNat digits
  have hvalue := decimalValue_ofNat digits
  have hne := Text.ofNat_ne_nil digits
  rw [hall] at hhead hmem hvalue hne ⊢
  have hnonempty : trimmed ≠ [] := by
    rintro rfl
    cases k with
    | zero => exact hne rfl
    | succ k => exact hhead rfl
  refine ⟨fun c hc => hmem c (List.mem_append_left _ hc), hnonempty, ?_, ?_⟩
  · rwa [List.head?_append_of_ne_nil _ hnonempty] at hhead
  · rw [decimalValue_append, decimalValue_zeros, List.length_replicate, Nat.add_zero] at hvalue
    rw [List.length_append, List.length_replicate,
      ← Binary64.ofDecimal_mul_pow x.negative (decimalValue trimmed) k, hvalue]
    have hexponent : exponent + ((trimmed.length + k : Nat) : Int) - trimmed.length - k = exponent := by
      push_cast
      omega
    rw [hexponent]
    exact hreads

section

variable {x : Binary64} {digits : Text} {point : Int}

theorem areDigits_take (h : AreDigits digits) (n : Nat) : AreDigits (digits.take n) :=
  fun c hc => h c (List.mem_of_mem_take hc)

theorem areDigits_drop (h : AreDigits digits) (n : Nat) : AreDigits (digits.drop n) :=
  fun c hc => h c (List.mem_of_mem_drop hc)

theorem Spells.isWhole_take (h : Spells x digits point) {n : Nat} (hn : 0 < n) :
    IsWhole (digits.take n) ∧ digits.take n ≠ [] := by
  obtain ⟨n, rfl⟩ : ∃ k, n = k + 1 := ⟨n - 1, by omega⟩
  obtain ⟨hdigits, hne, hhead, -⟩ := h
  cases digits with
  | nil => exact absurd rfl hne
  | cons c rest =>
    rw [List.take_succ_cons]
    refine ⟨isWhole_of_head ?_ (List.cons_ne_nil _ _) hhead, List.cons_ne_nil _ _⟩
    rw [← List.take_succ_cons]
    exact areDigits_take hdigits _

theorem readNumber_positional (h : Spells x digits point) {after : Text}
    (hafter : EndsNumber after) :
    readNumber (signText x.negative ++ (Binary64.positional digits point ++ after)) =
      .ok (.real x, after) := by
  unfold Binary64.positional
  dsimp only
  split
  next hpoint =>
    have hread := readNumber_point x.negative isWhole_zero (List.cons_ne_nil _ _)
      (areDigits_append (areDigits_zeros (-point).toNat) h.areDigits) (by simp [h.nonempty]) hafter
    have hvalue : decimalValue ((['0'] : Text) ++ (List.replicate (-point).toNat ('0' : CodePoint) ++ digits)) =
        decimalValue digits := by
      rw [← List.append_assoc, decimalValue_append, ← List.replicate_one, ← List.replicate_add,
        decimalValue_zeros, Nat.zero_mul, Nat.zero_add]
    have hexponent : -(((List.replicate (-point).toNat ('0' : CodePoint) ++ digits).length : Nat) : Int) =
        point - digits.length := by
      rw [List.length_append, List.length_replicate]
      omega
    rw [hvalue, hexponent, h.value] at hread
    rw [← hread]
    simp only [List.append_assoc]
    rfl
  next hpoint =>
    split
    next hlength =>
      obtain ⟨k, hk⟩ : ∃ k : Nat, point.toNat = digits.length + k := ⟨point.toNat - digits.length, by omega⟩
      have hwhole : IsWhole (digits ++ List.replicate k ('0' : CodePoint)) := by
        refine isWhole_of_head (areDigits_append h.areDigits (areDigits_zeros k))
          (by simp [h.nonempty]) ?_
        rw [List.head?_append_of_ne_nil _ h.nonempty]
        exact h.head
      have hread := readNumber_point x.negative hwhole (by simp [h.nonempty]) (areDigits_zeros 1)
        (List.cons_ne_nil _ _) hafter
      have hvalue : decimalValue (digits ++ List.replicate k ('0' : CodePoint) ++
          List.replicate 1 ('0' : CodePoint)) = decimalValue digits * 10 ^ (k + 1) := by
        rw [List.append_assoc, ← List.replicate_add, decimalValue_append, decimalValue_zeros,
          List.length_replicate, Nat.add_zero]
      have hexponent : -((List.replicate 1 ('0' : CodePoint)).length : Int) =
          point - digits.length - ((k + 1 : Nat) : Int) := by
        rw [List.length_replicate]
        omega
      rw [hvalue, hexponent, Binary64.ofDecimal_mul_pow, h.value] at hread
      rw [← hread, show point.toNat - digits.length = k by omega]
      simp only [List.append_assoc]
      rfl
    next hlength =>
      obtain ⟨hwhole, hne⟩ := h.isWhole_take (show 0 < point.toNat by omega)
      have hread := readNumber_point x.negative hwhole hne
        (areDigits_drop h.areDigits point.toNat) (by simpa using hlength) hafter
      have hexponent : -((digits.drop point.toNat).length : Int) = point - digits.length := by
        rw [List.length_drop]
        omega
      rw [List.take_append_drop, hexponent, h.value] at hread
      rw [← hread]
      simp only [List.append_assoc]
      rfl

theorem padded_spec (width n : Nat) :
    AreDigits (Text.padded width n) ∧ Text.padded width n ≠ [] ∧
      decimalValue (Text.padded width n) = n := by
  unfold Text.padded
  refine ⟨areDigits_append (areDigits_zeros _) (Text.isAsciiDigit_of_mem_ofNat n), ?_, ?_⟩
  · simp [Text.ofNat_ne_nil]
  · rw [decimalValue_append, decimalValue_zeros, Nat.zero_mul, Nat.zero_add, decimalValue_ofNat]

theorem readNumber_scientific (h : Spells x digits point) {after : Text}
    (hafter : EndsNumber after) :
    readNumber (signText x.negative ++ (Binary64.scientific digits point ++ after)) =
      .ok (.real x, after) := by
  obtain ⟨hnumber, hne', hvalue⟩ := padded_spec 2 (point - 1).natAbs
  obtain ⟨hwhole, hne⟩ := h.isWhole_take Nat.one_pos
  have hread := readNumber_power x.negative (point - 1) hwhole hne (areDigits_drop h.areDigits 1)
    hnumber hne' hvalue hafter
  have hlength : 0 < digits.length := List.length_pos_iff.mpr h.nonempty
  have hexponent : point - 1 - ((digits.drop 1).length : Int) = point - digits.length := by
    rw [List.length_drop]
    omega
  rw [List.take_append_drop, hexponent, h.value] at hread
  rw [← hread]
  have hsign : Text.of (if point - 1 < 0 then "-" else "+") = [powerSign (point - 1)] := by
    unfold powerSign
    split <;> rfl
  unfold Binary64.scientific fractionText
  have hfraction : (digits.length ≤ 1) ↔ (digits.drop 1).isEmpty = true := by
    rw [List.isEmpty_iff, List.drop_eq_nil_iff]
  simp only [hfraction, hsign, List.append_assoc]
  split <;> rfl

end

/-- A finite double is read back. -/
theorem readNumber_toText {x : Binary64} (hfinite : x.isFinite = true) {after : Text}
    (hafter : EndsNumber after) : readNumber (x.toText ++ after) = .ok (.real x, after) := by
  have hnan : x.isNaN = false := by simp_all [Binary64.isFinite, Binary64.isNaN]
  have hinfinite : x.isInfinite = false := by simp_all [Binary64.isFinite, Binary64.isInfinite]
  unfold Binary64.toText
  simp only [hnan, hinfinite, Bool.false_eq_true, if_false]
  split
  next hzero =>
    have hread := readNumber_point x.negative isWhole_zero (List.cons_ne_nil _ _)
      (areDigits_zeros 1) (List.cons_ne_nil _ _) hafter
    have hx : Binary64.zero x.negative = x := by
      cases x
      simp_all [Binary64.isZero, Binary64.zero]
    have hvalue : decimalValue ((['0'] : Text) ++ List.replicate 1 ('0' : CodePoint)) = 0 := by decide
    rw [hvalue, Binary64.ofDecimal_zero, hx] at hread
    rw [← hread, List.append_assoc]
    rfl
  next hzero =>
    have hspells := spells_shortest hfinite (by simpa using hzero)
    generalize x.shortest = shortest at hspells
    obtain ⟨digits, point⟩ := shortest
    have hsign : (if x.negative = true then Text.of "-" else Text.of "") = signText x.negative := rfl
    rw [List.append_assoc, hsign]
    dsimp only
    split
    · exact readNumber_positional hspells hafter
    · exact readNumber_scientific hspells hafter

end Json

end Acceptance
