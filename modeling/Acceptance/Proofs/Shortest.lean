import Mathlib.Algebra.Order.Field.Power
import Acceptance.Number.Shortest
import Acceptance.Proofs.Rounding

/-! # Shortest decimals

A double other than zero has a decimal that is rounded to it, and seventeen digits are enough. -/

namespace Acceptance

namespace Binary64

/-! ## Powers of ten -/

theorem tenTo_eq (n : Nat) : tenTo n = 10 ^ n := Nat.pow_eq

theorem toDigits_bounds {n : Nat} (h : 0 < n) :
    10 ^ ((Nat.toDigits 10 n).length - 1) ≤ n ∧ n < 10 ^ (Nat.toDigits 10 n).length := by
  have hpos : 0 < (Nat.toDigits 10 n).length := Nat.length_toDigits_pos
  refine ⟨?_, (Nat.length_toDigits_le_iff (by decide) hpos).mp le_rfl⟩
  rcases Nat.eq_zero_or_pos ((Nat.toDigits 10 n).length - 1) with hone | hmore
  · rw [hone]
    exact h
  · by_contra hlt
    have hle := (Nat.length_toDigits_le_iff (by decide) hmore).mpr (not_le.mp hlt)
    omega

theorem length_toDigits_mul_ten {n : Nat} (h : 0 < n) :
    (Nat.toDigits 10 (n * 10)).length = (Nat.toDigits 10 n).length + 1 := by
  rw [Nat.toDigits_of_base_le (by decide) (by omega), List.length_append,
    Nat.mul_div_cancel _ (by decide)]
  rfl

/-! ## Decimals -/

/-- The size of a decimal: the power of ten that it lies below. -/
def sizeOf (digits : Nat) (exponent : Int) : Int := (Nat.toDigits 10 digits).length + exponent

theorem ofDecimal_zero (negative : Bool) (exponent : Int) :
    ofDecimal negative 0 exponent = zero negative := by
  unfold ofDecimal
  rw [if_pos rfl]

theorem ofDecimal_of_large (negative : Bool) {digits : Nat} (h : digits ≠ 0) {exponent : Int}
    (hlarge : 400 < sizeOf digits exponent) :
    ofDecimal negative digits exponent = infinity negative := by
  unfold ofDecimal
  rw [if_neg h]
  exact if_pos hlarge

theorem ofDecimal_of_small (negative : Bool) {digits : Nat} (h : digits ≠ 0) {exponent : Int}
    (hsmall : sizeOf digits exponent < -400) :
    ofDecimal negative digits exponent = zero negative := by
  unfold ofDecimal
  rw [if_neg h]
  have hlarge : ¬ 400 < sizeOf digits exponent := by omega
  exact (if_neg hlarge).trans (if_pos hsmall)

theorem ofDecimal_of_size (negative : Bool) {digits : Nat} (h : digits ≠ 0) {exponent : Int}
    (hlarge : sizeOf digits exponent ≤ 400) (hsmall : -400 ≤ sizeOf digits exponent) :
    ofDecimal negative digits exponent =
      ofRatio negative (digits * 10 ^ exponent.toNat) (10 ^ (-exponent).toNat) := by
  have hnotLarge : ¬ 400 < sizeOf digits exponent := by omega
  have hnotSmall : ¬ sizeOf digits exponent < -400 := by omega
  unfold ofDecimal
  rw [if_neg h]
  refine (if_neg hnotLarge).trans ((if_neg hnotSmall).trans ?_)
  simp only [tenTo_eq]
  split
  next hexponent =>
    rw [show (-exponent).toNat = 0 by omega]
    rfl
  next hexponent =>
    rw [show exponent.toNat = 0 by omega, Nat.pow_zero, Nat.mul_one]

theorem ofDecimal_mul_ten (negative : Bool) (digits : Nat) (exponent : Int) :
    ofDecimal negative (digits * 10) (exponent - 1) = ofDecimal negative digits exponent := by
  rcases Nat.eq_zero_or_pos digits with rfl | hdigits
  · rw [Nat.zero_mul, ofDecimal_zero, ofDecimal_zero]
  have hsize : sizeOf (digits * 10) (exponent - 1) = sizeOf digits exponent := by
    unfold sizeOf
    rw [length_toDigits_mul_ten hdigits]
    omega
  have hne : digits ≠ 0 := by omega
  have hne' : digits * 10 ≠ 0 := by omega
  rcases lt_or_ge 400 (sizeOf digits exponent) with hlarge | hnotLarge
  · rw [ofDecimal_of_large _ hne hlarge, ofDecimal_of_large _ hne' (by rwa [hsize])]
  rcases lt_or_ge (sizeOf digits exponent) (-400) with hsmall | hnotSmall
  · rw [ofDecimal_of_small _ hne hsmall, ofDecimal_of_small _ hne' (by rwa [hsize])]
  rw [ofDecimal_of_size _ hne hnotLarge hnotSmall,
    ofDecimal_of_size _ hne' (by rwa [hsize]) (by rwa [hsize])]
  apply ofRatio_congr _ (by positivity) (by positivity)
  rcases le_or_gt 1 exponent with hexponent | hexponent
  · rw [show (-exponent).toNat = 0 by omega, show (-(exponent - 1)).toNat = 0 by omega,
      show exponent.toNat = (exponent - 1).toNat + 1 by omega]
    ring
  · rw [show exponent.toNat = 0 by omega, show (exponent - 1).toNat = 0 by omega,
      show (-(exponent - 1)).toNat = (-exponent).toNat + 1 by omega]
    ring

/-- Zeros at the end of the digits make no difference. -/
theorem ofDecimal_mul_pow (negative : Bool) (digits k : Nat) (exponent : Int) :
    ofDecimal negative (digits * 10 ^ k) (exponent - k) = ofDecimal negative digits exponent := by
  induction k with
  | zero => simp
  | succ k ih =>
    rw [Nat.pow_succ, ← Nat.mul_assoc, show exponent - (k + 1 : Nat) = exponent - k - 1 by omega,
      ofDecimal_mul_ten, ih]

/-! ## The point -/

/-- The point lies behind the first digit that is not zero. -/
theorem decimalPoint_spec {num den : Nat} (hnum : 0 < num) (hden : 0 < den) :
    (10 : ℚ) ^ (decimalPoint num den - 1) ≤ (num : ℚ) / den ∧
      (num : ℚ) / den < (10 : ℚ) ^ decimalPoint num den := by
  have hposNum : (0 : ℚ) < num := by exact_mod_cast hnum
  have hposDen : (0 : ℚ) < den := by exact_mod_cast hden
  unfold decimalPoint
  split
  next hle =>
    obtain ⟨hlow, hhigh⟩ := toDigits_bounds (Nat.div_pos hle hden)
    have hlength : 0 < (Nat.toDigits 10 (num / den)).length := Nat.length_toDigits_pos
    generalize (Nat.toDigits 10 (num / den)).length = length at *
    rw [show ((length : Int) - 1) = ((length - 1 : Nat) : Int) by omega, zpow_natCast, zpow_natCast,
      le_div_iff₀ hposDen, div_lt_iff₀ hposDen]
    constructor
    · exact_mod_cast (Nat.le_div_iff_mul_le hden).mp hlow
    · exact_mod_cast (Nat.div_lt_iff_lt_mul hden).mp hhigh
  next hlt =>
    obtain ⟨hlow, hhigh⟩ := toDigits_bounds (Nat.div_pos (show num ≤ den - 1 by omega) hnum)
    have hlength : 0 < (Nat.toDigits 10 ((den - 1) / num)).length := Nat.length_toDigits_pos
    generalize (Nat.toDigits 10 ((den - 1) / num)).length = length at *
    rw [show (1 - (length : Int) - 1) = -(length : Int) by omega,
      show (1 - (length : Int)) = -((length - 1 : Nat) : Int) by omega, zpow_neg, zpow_neg,
      zpow_natCast, zpow_natCast, inv_le_iff_one_le_mul₀ (by positivity), ← one_div,
      lt_one_div (by positivity) (by positivity), one_div_div, lt_div_iff₀ hposNum,
      div_mul_eq_mul_div, le_div_iff₀ hposDen, one_mul]
    constructor
    · have hden_le : den ≤ num * 10 ^ length := by
        have := (Nat.div_lt_iff_lt_mul hnum).mp hhigh
        rw [Nat.mul_comm]
        omega
      exact_mod_cast hden_le
    · have hlt_den : 10 ^ (length - 1) * num < den := by
        have := (Nat.le_div_iff_mul_le hnum).mp hlow
        omega
      exact_mod_cast hlt_den

/-! ## Candidates -/

theorem floorAt_spec (exponent : Int) (num : Nat) {den : Nat} (hden : 0 < den) :
    ∃ n d : Nat, floorAt exponent num den = (n / d, n % d, d) ∧ 0 < d ∧
      (n : ℚ) / d = num / den / (10 : ℚ) ^ exponent := by
  have hpos : (den : ℚ) ≠ 0 := by exact_mod_cast hden.ne'
  unfold floorAt
  by_cases hexponent : 0 ≤ exponent
  · obtain ⟨k, rfl⟩ := Int.eq_ofNat_of_zero_le hexponent
    simp only [if_pos hexponent]
    refine ⟨num, den * tenTo k, rfl, Nat.mul_pos hden (tenTo_pos k), ?_⟩
    push_cast
    rw [zpow_natCast, div_div]
  · obtain ⟨k, rfl⟩ : ∃ k : Nat, exponent = -(k : Int) := ⟨(-exponent).toNat, by omega⟩
    simp only [if_neg hexponent]
    rw [show (-(-(k : Int))).toNat = k by omega]
    refine ⟨num * tenTo k, den, rfl, hden, ?_⟩
    push_cast
    rw [zpow_neg, zpow_natCast, div_inv_eq_mul, div_mul_eq_mul_div]

/-- The first candidate is the nearest. -/
theorem candidates_nearest (num count : Nat) {den : Nat} (hden : 0 < den) :
    ∃ (digits : Nat) (others : List (Nat × Int)),
      candidates num den count = (digits, decimalPoint num den - count) :: others ∧
        |(digits : ℚ) - num / den / (10 : ℚ) ^ (decimalPoint num den - count)| ≤ 1 / 2 := by
  obtain ⟨n, d, hfloor, hd, hvalue⟩ := floorAt_spec (decimalPoint num den - count) num hden
  have hposQ : (0 : ℚ) < d := by exact_mod_cast hd
  have hdiv : (d : ℚ) * (n / d : Nat) + (n % d : Nat) = n := by exact_mod_cast Nat.div_add_mod n d
  have hrest : n % d < d := Nat.mod_lt n hd
  have hquotient : (n : ℚ) / d = (n / d : Nat) + (n % d : Nat) / d := by
    rw [← hdiv, add_div, mul_div_cancel_left₀ _ hposQ.ne']
  unfold candidates
  rw [← hvalue, hquotient]
  simp only [hfloor]
  -- The quotient lies below the middle, or not.
  have hbelow : 2 * (n % d) ≤ d → |((n / d : Nat) : ℚ) - ((n / d : Nat) + (n % d : Nat) / d)| ≤ 1 / 2 := by
    intro hle
    have hcast : (2 * (n % d : Nat) : ℚ) ≤ d := by exact_mod_cast hle
    rw [sub_add_cancel_left, abs_neg, abs_of_nonneg (by positivity), div_le_iff₀ hposQ]
    linarith
  have habove : d ≤ 2 * (n % d) →
      |((n / d + 1 : Nat) : ℚ) - ((n / d : Nat) + (n % d : Nat) / d)| ≤ 1 / 2 := by
    intro hge
    have hcast : (d : ℚ) ≤ 2 * (n % d : Nat) := by exact_mod_cast hge
    have hcast' : ((n % d : Nat) : ℚ) ≤ d := by exact_mod_cast hrest.le
    have hlow : (1 : ℚ) / 2 ≤ (n % d : Nat) / d := by
      rw [le_div_iff₀ hposQ]
      linarith
    have hhigh : ((n % d : Nat) : ℚ) / d ≤ 1 := by
      rw [div_le_iff₀ hposQ]
      linarith
    rw [abs_le]
    push_cast
    constructor <;> linarith
  split
  next hup =>
    simp only [Bool.or_eq_true, Bool.and_eq_true, decide_eq_true_eq] at hup
    have hne : n % d ≠ 0 := by omega
    refine ⟨n / d + 1, [(n / d, decimalPoint num den - count)], ?_, habove (by omega)⟩
    simp [hne]
  next hdown =>
    simp only [Bool.or_eq_true, Bool.and_eq_true, decide_eq_true_eq, not_or] at hdown
    exact ⟨n / d, _, rfl, hbelow (by omega)⟩

/-! ## The search -/

/-- Does the decimal read back as the number? -/
def ReadsBack (x : Binary64) (decimal : Nat × Int) : Prop :=
  ofDecimal x.negative decimal.1 decimal.2 = x

theorem shortestFrom_sound {x : Binary64} {num den : Nat} (tries count : Nat)
    {decimal : Nat × Int} (h : shortestFrom x num den count tries = some decimal) :
    ReadsBack x decimal := by
  induction tries generalizing count with
  | zero => exact absurd h (by simp [shortestFrom])
  | succ tries ih =>
    unfold shortestFrom at h
    split at h
    next found hfound =>
      have hreads := List.find?_some hfound
      rw [Option.some.injEq] at h
      rw [← h]
      simpa [ReadsBack] using hreads
    next => exact ih _ h

theorem shortestFrom_complete {x : Binary64} {num den : Nat} (tries count more : Nat)
    {decimal : Nat × Int} (hmore : more < tries)
    (hcandidate : decimal ∈ candidates num den (count + more)) (hreads : ReadsBack x decimal) :
    ∃ found, shortestFrom x num den count tries = some found := by
  induction tries generalizing count more with
  | zero => omega
  | succ tries ih =>
    unfold shortestFrom
    split
    next found hfound => exact ⟨found, rfl⟩
    next hnone =>
      cases more with
      | zero =>
        have hnot : ¬ decide (ofDecimal x.negative decimal.1 decimal.2 = x) = true :=
          List.find?_eq_none.mp hnone decimal hcandidate
        exact absurd hreads (by simpa [ReadsBack] using hnot)
      | succ more =>
        apply ih (count + 1) more (by omega)
        rwa [show count + 1 + more = count + (more + 1) by omega]

/-! ## Seventeen digits -/

theorem unitsInOne_pos : 0 < unitsInOne := twoTo_pos 1074

theorem cast_unitsInOne : (unitsInOne : ℚ) = 2 ^ 1074 := by
  rw [unitsInOne, cast_twoTo]

theorem units_pos {x : Binary64} (hzero : x.isZero = false) : 0 < x.units := by
  have hsignificand : 0 < x.significand := by
    unfold significand
    split
    next hexponent =>
      by_contra hnot
      have hfraction : x.fraction = 0 := Fin.ext (by simpa using hnot)
      simp [isZero, Fin.ext_iff, hexponent, hfraction] at hzero
    next => rw [twoTo_eq]; positivity
  exact Nat.mul_pos hsignificand (twoTo_pos _)

theorem units_lt {x : Binary64} (hfinite : x.isFinite = true) {n : Nat} (hn : 1024 + 1074 ≤ n) :
    x.units < 2 ^ n := by
  have hexponent : x.exponent.val ≠ 2047 := by
    intro h
    simp [isFinite, Fin.ext_iff, h] at hfinite
  have hlt := x.exponent.isLt
  calc x.units = x.significand * 2 ^ x.scale := by rw [units, twoTo_eq]
    _ < 2 ^ 53 * 2 ^ x.scale := Nat.mul_lt_mul_of_pos_right (significand_lt x) (by positivity)
    _ = 2 ^ (53 + x.scale) := (Nat.pow_add 2 _ _).symm
    _ ≤ 2 ^ n := by
      apply Nat.pow_le_pow_right (by decide)
      unfold scale
      omega

theorem two_pow_lt_ten_pow (n : Nat) : (2 : ℚ) ^ (3 * (n + 1)) < 10 ^ (n + 1) := by
  rw [pow_mul]
  exact pow_lt_pow_left₀ (by norm_num) (by norm_num) (Nat.succ_ne_zero n)

theorem decimalPoint_le {x : Binary64} (hfinite : x.isFinite = true) (hzero : x.isZero = false)
    {n : Nat} (hn : 1024 ≤ 3 * (n + 1)) : decimalPoint x.units unitsInOne ≤ n + 1 := by
  have hone : (0 : ℚ) < unitsInOne := by exact_mod_cast unitsInOne_pos
  have hupper : (x.units : ℚ) / unitsInOne < 10 ^ (n + 1) := by
    rw [div_lt_iff₀ hone]
    calc (x.units : ℚ) < 2 ^ (3 * (n + 1) + 1074) := by exact_mod_cast units_lt hfinite (by omega)
      _ = 2 ^ (3 * (n + 1)) * unitsInOne := by rw [cast_unitsInOne, pow_add]
      _ < 10 ^ (n + 1) * unitsInOne := mul_lt_mul_of_pos_right (two_pow_lt_ten_pow n) hone
  rw [← zpow_natCast] at hupper
  have hlow := (decimalPoint_spec (units_pos hzero) unitsInOne_pos).1
  have hexponents := (zpow_lt_zpow_iff_right₀ (by norm_num)).mp (lt_of_le_of_lt hlow hupper)
  omega

theorem lt_decimalPoint {x : Binary64} (hzero : x.isZero = false) {n : Nat}
    (hn : 1074 ≤ 3 * (n + 1)) : -(n + 1 : Int) < decimalPoint x.units unitsInOne := by
  have hone : (0 : ℚ) < unitsInOne := by exact_mod_cast unitsInOne_pos
  have hlower : (10 ^ (n + 1))⁻¹ < (x.units : ℚ) / unitsInOne := by
    rw [lt_div_iff₀ hone]
    calc ((10 : ℚ) ^ (n + 1))⁻¹ * unitsInOne ≤ (10 ^ (n + 1))⁻¹ * 2 ^ (3 * (n + 1)) := by
          rw [cast_unitsInOne]
          exact mul_le_mul_of_nonneg_left (pow_le_pow_right₀ (by norm_num) hn) (by positivity)
      _ < (10 ^ (n + 1))⁻¹ * 10 ^ (n + 1) :=
        mul_lt_mul_of_pos_left (two_pow_lt_ten_pow n) (by positivity)
      _ = 1 := inv_mul_cancel₀ (by positivity)
      _ ≤ x.units := by exact_mod_cast units_pos hzero
  rw [← zpow_natCast, ← zpow_neg] at hlower
  have hhigh := (decimalPoint_spec (units_pos hzero) unitsInOne_pos).2
  have hexponents := (zpow_lt_zpow_iff_right₀ (by norm_num)).mp (lt_trans hlower hhigh)
  omega

/-- A decimal as a quotient. -/
theorem decimal_quotient (digits : Nat) (exponent : Int) :
    ((digits * 10 ^ exponent.toNat : Nat) : ℚ) / ((10 ^ (-exponent).toNat : Nat) : ℚ) =
      digits * (10 : ℚ) ^ exponent := by
  push_cast
  rcases le_or_gt 0 exponent with hexponent | hexponent
  · rw [show (-exponent).toNat = 0 by omega, pow_zero, div_one]
    conv_rhs => rw [show exponent = (exponent.toNat : Int) by omega, zpow_natCast]
  · rw [show exponent.toNat = 0 by omega, pow_zero, mul_one]
    conv_rhs => rw [show exponent = -((-exponent).toNat : Int) by omega, zpow_neg, zpow_natCast]
    rw [div_eq_mul_inv]

/-- The nearest decimal of seventeen digits reads back. -/
theorem seventeen_digits {x : Binary64} (hfinite : x.isFinite = true) (hzero : x.isZero = false) :
    ∃ decimal ∈ candidates x.units unitsInOne 17, ReadsBack x decimal := by
  obtain ⟨digits, others, hcandidates, hnear⟩ :=
    candidates_nearest x.units 17 unitsInOne_pos
  refine ⟨_, by rw [hcandidates]; exact List.mem_cons_self, ?_⟩
  obtain ⟨hlow, hhigh⟩ := decimalPoint_spec (units_pos hzero) unitsInOne_pos
  have hpointHigh := decimalPoint_le hfinite hzero (show 1024 ≤ 3 * (341 + 1) by decide)
  have hpointLow := lt_decimalPoint hzero (show 1074 ≤ 3 * (357 + 1) by decide)
  have hone : (0 : ℚ) < unitsInOne := by exact_mod_cast unitsInOne_pos
  have hunits : (0 : ℚ) < x.units := by exact_mod_cast units_pos hzero
  generalize decimalPoint x.units unitsInOne = point at *
  obtain ⟨exponent, hexponent⟩ : ∃ exponent : Int, exponent = point - 17 := ⟨_, rfl⟩
  rw [show point - (17 : Nat) = exponent by omega] at hnear ⊢
  have hten : (0 : ℚ) < 10 ^ exponent := by positivity
  rw [show point - 1 = 16 + exponent by omega, zpow_add₀ (by norm_num)] at hlow
  rw [show point = 17 + exponent by omega, zpow_add₀ (by norm_num)] at hhigh
  rw [le_div_iff₀ hone] at hlow
  have hscaled : (x.units : ℚ) / unitsInOne / 10 ^ exponent < 10 ^ 17 := by
    rw [div_lt_iff₀ hten]
    exact_mod_cast hhigh
  have hscaled' : (10 : ℚ) ^ 16 ≤ x.units / unitsInOne / 10 ^ exponent := by
    rw [le_div_iff₀ hten, le_div_iff₀ hone]
    exact_mod_cast hlow
  obtain ⟨hdigitsLow, hdigitsHigh⟩ := abs_le.mp hnear
  have hdigits : digits ≠ 0 := by
    rintro rfl
    rw [Nat.cast_zero] at hdigitsLow
    linarith
  have hlength : (Nat.toDigits 10 digits).length ≤ 18 := by
    rw [Nat.length_toDigits_le_iff (by decide) (by decide)]
    have hcast : (digits : ℚ) < 10 ^ 18 := by linarith
    exact_mod_cast hcast
  have hlength' : 0 < (Nat.toDigits 10 digits).length := Nat.length_toDigits_pos
  unfold ReadsBack
  rw [ofDecimal_of_size _ hdigits (by unfold sizeOf; omega) (by unfold sizeOf; omega)]
  apply ofRatio_of_near hfinite (by positivity)
  rw [mul_div_right_comm, decimal_quotient]
  generalize (unitsInOne : ℚ) = one at *
  have hdistance : (digits * (10 : ℚ) ^ exponent * one - x.units : ℚ) =
      (digits - x.units / one / 10 ^ exponent) * (10 ^ exponent * one) := by
    field_simp
  rw [hdistance, abs_mul, abs_of_pos (mul_pos hten hone)]
  calc |(digits : ℚ) - x.units / one / 10 ^ exponent| * (10 ^ exponent * one)
      ≤ 1 / 2 * (10 ^ exponent * one) :=
        mul_le_mul_of_nonneg_right hnear (mul_pos hten hone).le
    _ < x.units / 2 ^ 54 := by
      rw [lt_div_iff₀ (by positivity)]
      norm_num at hlow ⊢
      linarith

/-- The search for the shortest decimal succeeds, and what it finds reads back. -/
theorem shortestFrom_spec {x : Binary64} (hfinite : x.isFinite = true) (hzero : x.isZero = false) :
    ∃ decimal, shortestFrom x x.units unitsInOne 1 17 = some decimal ∧ ReadsBack x decimal := by
  obtain ⟨decimal, hcandidate, hreads⟩ := seventeen_digits hfinite hzero
  obtain ⟨found, hfound⟩ :=
    shortestFrom_complete 17 1 16 (by decide) hcandidate hreads
  exact ⟨found, hfound, shortestFrom_sound 17 1 hfound⟩

end Binary64

end Acceptance
