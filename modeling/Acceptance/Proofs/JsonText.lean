import Acceptance.Json.Writer
import Acceptance.Proofs.Digits

/-! # Strings in JSON

A text is read back from the string that it is written as, whatever is in it. -/

namespace Acceptance

namespace Json

/-! ## One code point -/

/-- What is read for a code point: one without an escape of its own is given by its number. -/
def unitOf (c : CodePoint) : Unit :=
  if c.val < 0x20 && !([8, 9, 10, 12, 13].contains c.val) then .numbered c else .plain c

/-- A digit of a number below sixteen. -/
def hexDigit (n : Nat) : CodePoint := CodePoint.ofChar n.digitChar

theorem paddedHex_control {n : Nat} (h : n < 32) :
    Text.paddedHex 4 n = (['0', '0', hexDigit (n / 16), hexDigit (n % 16)] : Text) ∧
      hexValue? '0' '0' (hexDigit (n / 16)) (hexDigit (n % 16)) = some n := by
  have hall : ∀ n : Fin 32,
      Text.paddedHex 4 n = (['0', '0', hexDigit (n / 16), hexDigit (n % 16)] : Text) ∧
        hexValue? '0' '0' (hexDigit (n / 16)) (hexDigit (n % 16)) = some n.val := by decide
  exact hall ⟨n, h⟩

theorem ofNatD_val (c fallback : CodePoint) : CodePoint.ofNatD c.val fallback = c := by
  unfold CodePoint.ofNatD
  rw [dif_pos c.isLt]

/-- A code point with a letter for its escape. -/
theorem readUnits_letter {e c : CodePoint} (hu : e ≠ 'u') (hescaped : escaped? e = some c)
    (opened rest : Text) :
    readUnits opened ('\\' :: e :: rest) =
      (readUnits opened rest).map fun p => (.plain c :: p.1, p.2) := by
  conv => lhs; unfold readUnits
  rw [if_neg (by decide), if_pos rfl]
  simp only [if_neg hu, hescaped]
  cases readUnits opened rest <;> rfl

/-- A code point that is given by its number. -/
theorem readUnits_numbered {c : CodePoint} (hc : c.val < 32) {rest : Text} (hrest : rest ≠ [])
    (opened : Text) :
    readUnits opened ("\\u" ++ Text.paddedHex 4 c.val ++ rest) =
      (readUnits opened rest).map fun p => (.numbered c :: p.1, p.2) := by
  obtain ⟨hhex, hvalue⟩ := paddedHex_control hc
  have hempty : rest.isEmpty = false := by simp [hrest]
  rw [hhex]
  show readUnits opened (('\\' : CodePoint) :: ('u' : CodePoint) :: ('0' : CodePoint) :: ('0' : CodePoint) ::
    hexDigit (c.val / 16) :: hexDigit (c.val % 16) :: rest) = _
  conv => lhs; unfold readUnits
  rw [if_neg (by decide), if_pos rfl]
  simp only [if_true, hvalue, hempty, ofNatD_val]
  cases readUnits opened rest <;> rfl

/-- Any other code point but the quote and the backslash stands for itself. -/
theorem readUnits_plain {c : CodePoint} (hquote : c ≠ '"') (hbackslash : c ≠ '\\')
    (hc : ¬ c.val < 0x20) (opened rest : Text) :
    readUnits opened (c :: rest) =
      (readUnits opened rest).map fun p => (.plain c :: p.1, p.2) := by
  conv => lhs; unfold readUnits
  rw [if_neg hquote, if_neg hbackslash, if_neg hc]
  cases readUnits opened rest <;> rfl

theorem readUnits_escaped (c : CodePoint) {rest : Text} (hrest : rest ≠ []) (opened : Text) :
    readUnits opened (escaped c ++ rest) =
      (readUnits opened rest).map fun p => (unitOf c :: p.1, p.2) := by
  -- A code point with an escape of its own is read as itself.
  have hletter : ∀ e, e ≠ (('u' : Char) : CodePoint) → escaped? e = some c →
      escaped c = (['\\', e] : Text) → unitOf c = .plain c →
      readUnits opened (escaped c ++ rest) =
        (readUnits opened rest).map fun p => (unitOf c :: p.1, p.2) := by
    intro e hu hescaped hwritten hunit
    rw [hwritten, hunit]
    exact readUnits_letter hu hescaped opened rest
  by_cases hquote : c = '"'
  · subst hquote; exact hletter '"' (by decide) (by decide) (by decide) (by decide)
  by_cases hbackslash : c = '\\'
  · subst hbackslash; exact hletter '\\' (by decide) (by decide) (by decide) (by decide)
  by_cases hfeed : c = '\n'
  · subst hfeed; exact hletter 'n' (by decide) (by decide) (by decide) (by decide)
  by_cases hreturn : c = '\r'
  · subst hreturn; exact hletter 'r' (by decide) (by decide) (by decide) (by decide)
  by_cases htab : c = '\t'
  · subst htab; exact hletter 't' (by decide) (by decide) (by decide) (by decide)
  by_cases hback : c = ⟨8, by decide⟩
  · subst hback; exact hletter 'b' (by decide) (by decide) (by decide) (by decide)
  by_cases hform : c = ⟨12, by decide⟩
  · subst hform; exact hletter 'f' (by decide) (by decide) (by decide) (by decide)
  have hval : ∀ d : CodePoint, c ≠ d → c.val ≠ d.val := by
    rintro ⟨n, hn⟩ hne rfl
    exact hne rfl
  have hwritten : escaped c = if c.val < 0x20 then "\\u" ++ Text.paddedHex 4 c.val else [c] := by
    unfold escaped
    simp [hquote, hbackslash, hfeed, hreturn, htab, hval _ hback, hval _ hform]
  have hunit : unitOf c = if c.val < 0x20 then .numbered c else .plain c := by
    have h8 := hval _ hback
    have h12 := hval _ hform
    have h9 : c.val ≠ 9 := hval _ htab
    have h10 : c.val ≠ 10 := hval _ hfeed
    have h13 : c.val ≠ 13 := hval _ hreturn
    unfold unitOf
    simp [h8, h9, h10, h12, h13]
  rw [hwritten, hunit]
  split
  next hc => exact readUnits_numbered hc hrest opened
  next hc => exact readUnits_plain hquote hbackslash hc opened rest

/-! ## A whole string -/

theorem readUnits_flatMap (t after opened : Text) :
    readUnits opened (t.flatMap escaped ++ ('"' : CodePoint) :: after) = .ok (t.map unitOf, after) := by
  induction t with
  | nil =>
    rw [List.flatMap_nil, List.nil_append]
    unfold readUnits
    exact if_pos rfl
  | cons c t ih =>
    rw [List.flatMap_cons, List.append_assoc, readUnits_escaped c (by simp), ih]
    rfl

theorem joinUnits_numbered {c : CodePoint} (h : c.val < 0xD800) (rest : List Unit) :
    joinUnits (.numbered c :: rest) = c :: joinUnits rest := by
  have hpair : ∀ low, pair? c low = none := by
    intro low
    unfold pair?
    rw [if_neg]
    simp only [Bool.and_eq_true, decide_eq_true_eq]
    omega
  rcases rest with _ | ⟨d | low, rest⟩
  · simp [joinUnits]
  · simp [joinUnits]
  · simp [joinUnits, hpair]

/-- No two units make a pair: a code point given by its number is no surrogate. -/
theorem joinUnits_unitOf (t : Text) : joinUnits (t.map unitOf) = t := by
  induction t with
  | nil => rw [List.map_nil, joinUnits]
  | cons c t ih =>
    have hunit : unitOf c = .numbered c ∧ c.val < 0x20 ∨ unitOf c = .plain c := by
      unfold unitOf
      split <;> simp_all
    rw [List.map_cons]
    rcases hunit with ⟨hunit, hc⟩ | hunit
    · rw [hunit, joinUnits_numbered (by omega), ih]
    · rw [hunit, joinUnits, ih]

theorem readString_stringText (t after opened : Text) :
    readString opened (t.flatMap escaped ++ ('"' : CodePoint) :: after) = .ok (t, after) := by
  unfold readString
  rw [readUnits_flatMap]
  show Except.ok (joinUnits (t.map unitOf), after) = _
  rw [joinUnits_unitOf]

end Json

end Acceptance
