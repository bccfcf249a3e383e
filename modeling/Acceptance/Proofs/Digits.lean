import Mathlib.Algebra.Ring.Nat
import Mathlib.Data.List.TakeDrop
import Acceptance.Json.Reader
import Acceptance.Proofs.Pieces

/-! # Decimal digits

A number is what its digits say, and digits are read up to the first character that is none. -/

namespace Acceptance

namespace Text

/-! ## Digits of a number -/

/-- The digit of a number below ten. -/
def digit (n : Nat) : CodePoint := CodePoint.ofChar n.digitChar

theorem digit_val {n : Nat} (h : n < 10) : (digit n).val = 0x30 + n := by
  have hall : ∀ n : Fin 10, (digit n).val = 0x30 + n := by decide
  exact hall ⟨n, h⟩

theorem isAsciiDigit_digit {n : Nat} (h : n < 10) : (digit n).isAsciiDigit = true := by
  simp only [CodePoint.isAsciiDigit, digit_val h, Bool.and_eq_true, decide_eq_true_eq]
  omega

theorem ofNat_of_lt {n : Nat} (h : n < 10) : ofNat n = [digit n] := by
  rw [ofNat, Nat.toDigits_of_lt_base h]
  rfl

theorem ofNat_of_le {n : Nat} (h : 10 ≤ n) : ofNat n = ofNat (n / 10) ++ [digit (n % 10)] := by
  rw [ofNat, Nat.toDigits_of_base_le (by omega) h, List.map_append]
  rfl

theorem ofNat_ne_nil (n : Nat) : ofNat n ≠ [] := by
  simp [ofNat, Nat.toDigits_ne_nil]

theorem length_ofNat (n : Nat) : (ofNat n).length = (Nat.toDigits 10 n).length := by
  rw [ofNat, List.length_map]

theorem isAsciiDigit_of_mem_ofNat (n : Nat) : ∀ c ∈ ofNat n, c.isAsciiDigit = true := by
  induction n using Nat.strongRecOn with
  | ind n ih =>
    rcases Nat.lt_or_ge n 10 with h | h
    · rw [ofNat_of_lt h]
      intro c hc
      rw [List.mem_singleton.mp hc]
      exact isAsciiDigit_digit h
    · rw [ofNat_of_le h]
      intro c hc
      rcases List.mem_append.mp hc with hc | hc
      · exact ih (n / 10) (by omega) c hc
      · rw [List.mem_singleton.mp hc]
        exact isAsciiDigit_digit (by omega)

/-- A number other than zero has no zero in front. -/
theorem head_ofNat {n : Nat} (h : 0 < n) : (ofNat n).head? ≠ some ('0' : CodePoint) := by
  induction n using Nat.strongRecOn with
  | ind n ih =>
    rcases Nat.lt_or_ge n 10 with hn | hn
    · rw [ofNat_of_lt hn, List.head?_cons, ne_eq, Option.some.injEq]
      intro hzero
      have hval : (digit n).val = 0x30 := by rw [hzero]; rfl
      rw [digit_val hn] at hval
      omega
    · have hfront := ih (n / 10) (by omega) (by omega)
      rw [ofNat_of_le hn]
      cases hdigits : ofNat (n / 10) with
      | nil => exact absurd hdigits (ofNat_ne_nil _)
      | cons c rest =>
        rw [hdigits] at hfront
        exact hfront

end Text

namespace Json

/-! ## Reading digits -/

theorem decimalValue_append (s t : Text) :
    decimalValue (s ++ t) = decimalValue s * 10 ^ t.length + decimalValue t := by
  have hfold : ∀ (t : Text) (n : Nat),
      t.foldl (fun n c => n * 10 + (c.val - 0x30)) n = n * 10 ^ t.length + decimalValue t := by
    intro t
    induction t with
    | nil => intro n; simp [decimalValue]
    | cons c rest ih =>
      intro n
      have hc : decimalValue (c :: rest) = (c.val - 0x30) * 10 ^ rest.length + decimalValue rest := by
        unfold decimalValue
        rw [List.foldl_cons, ih, Nat.zero_mul, Nat.zero_add]
        rfl
      rw [List.foldl_cons, ih, hc, List.length_cons, Nat.pow_succ, Nat.add_mul, Nat.mul_assoc,
        Nat.mul_comm 10, Nat.add_assoc]
  unfold decimalValue
  rw [List.foldl_append, hfold]
  rfl

@[simp] theorem decimalValue_nil : decimalValue [] = 0 := rfl

theorem decimalValue_singleton (c : CodePoint) : decimalValue [c] = c.val - 0x30 := by
  simp [decimalValue]

theorem decimalValue_ofNat (n : Nat) : decimalValue (Text.ofNat n) = n := by
  induction n using Nat.strongRecOn with
  | ind n ih =>
    rcases Nat.lt_or_ge n 10 with h | h
    · rw [Text.ofNat_of_lt h, decimalValue_singleton, Text.digit_val h]
      omega
    · rw [Text.ofNat_of_le h, decimalValue_append, ih (n / 10) (by omega), decimalValue_singleton,
        Text.digit_val (by omega), List.length_singleton]
      omega

theorem decimalValue_zeros (n : Nat) : decimalValue (List.replicate n ('0' : CodePoint)) = 0 := by
  induction n with
  | zero => rfl
  | succ n ih =>
    have hcons := decimalValue_append [('0' : CodePoint)] (List.replicate n ('0' : CodePoint))
    rw [List.singleton_append, ih] at hcons
    rw [List.replicate_succ, hcons]
    simp [decimalValue, CodePoint.ofChar]

/-- The text does not go on with a digit. -/
def EndsDigits (after : Text) : Prop := ∀ c, after.head? = some c → c.isAsciiDigit = false

theorem spanDigits_append {digits after : Text} (h : ∀ c ∈ digits, c.isAsciiDigit = true)
    (hafter : EndsDigits after) : spanDigits (digits ++ after) = (digits, after) := by
  unfold spanDigits
  rw [List.span_eq_takeWhile_dropWhile, Text.takeWhile_run h hafter, Text.dropWhile_run h hafter]

end Json

end Acceptance
