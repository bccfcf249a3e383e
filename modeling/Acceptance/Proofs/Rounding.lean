import Mathlib.Algebra.Order.Ring.Rat
import Mathlib.Tactic.FieldSimp
import Mathlib.Tactic.Linarith
import Mathlib.Tactic.Positivity
import Mathlib.Tactic.Ring
import Acceptance.Number.Binary64

/-! # Rounding

A quotient that lies near enough to a double is rounded to it. Distances are told in units of the
smallest double, as rational numbers. -/

namespace Acceptance

@[simp, norm_cast] theorem cast_twoTo (n : Nat) : ((twoTo n : Nat) : ℚ) = 2 ^ n := by
  rw [twoTo, Nat.pow_eq]
  push_cast
  rfl

@[simp, norm_cast] theorem cast_tenTo (n : Nat) : ((tenTo n : Nat) : ℚ) = 10 ^ n := by
  rw [tenTo, Nat.pow_eq]
  push_cast
  rfl

namespace Binary64

/-! ## Whole numbers -/

/-- A quotient less than a half away from a whole number is rounded to it. -/
theorem roundHalfEven_of_near {num den m : Nat} (hden : 0 < den)
    (habove : 2 * num < (2 * m + 1) * den) (hbelow : 2 * m * den < 2 * num + den) :
    roundHalfEven num den = m := by
  have hdiv : den * (num / den) + num % den = num := Nat.div_add_mod num den
  have hrest : num % den < den := Nat.mod_lt _ hden
  have hcases : m = num / den ∨ m = num / den + 1 := by
    have hle : num / den ≤ m := by
      by_contra hlt
      have := Nat.mul_le_mul_left den (show m + 1 ≤ num / den by omega)
      linarith [Nat.zero_le (num % den)]
    have hge : m ≤ num / den + 1 := by
      by_contra hlt
      have := Nat.mul_le_mul_left den (show num / den + 2 ≤ m by omega)
      linarith
    omega
  unfold roundHalfEven
  rcases hcases with hm | hm
  · have htwice : 2 * (num % den) < den := by
      rw [← hm] at hdiv
      linarith
    rw [if_pos htwice, hm]
  · have htwice : den < 2 * (num % den) := by
      rw [hm] at hbelow
      linarith
    rw [if_neg (by omega), if_pos htwice, hm]

/-- The same in quotients. -/
theorem roundHalfEven_of_abs_lt {num den m : Nat} (hden : 0 < den)
    (h : |(num : ℚ) / den - m| < 1 / 2) : roundHalfEven num den = m := by
  have hpos : (0 : ℚ) < den := by exact_mod_cast hden
  rw [abs_lt, lt_sub_iff_add_lt, sub_lt_iff_lt_add, lt_div_iff₀ hpos, div_lt_iff₀ hpos] at h
  apply roundHalfEven_of_near hden
  · have habove : (2 * num : ℚ) < (2 * m + 1) * den := by linarith [h.2]
    exact_mod_cast habove
  · have hbelow : (2 * m * den : ℚ) < 2 * num + den := by linarith [h.1]
    exact_mod_cast hbelow

theorem roundHalfEven_mul (num den : Nat) {c : Nat} (hc : 0 < c) :
    roundHalfEven (num * c) (den * c) = roundHalfEven num den := by
  have hlt : ∀ a b : Nat, a * c < b * c ↔ a < b := fun a b => Nat.mul_lt_mul_right hc
  unfold roundHalfEven
  rw [Nat.mul_div_mul_right _ _ hc, Nat.mul_mod_mul_right, ← Nat.mul_assoc]
  simp only [hlt]

/-! ## Scales -/

/-- The scale at which a quotient is rounded: the least with fewer than 54 bits before the point. -/
def scaleOf (num den : Nat) : Nat :=
  let low := ((num * unitsInOne).log2 - den.log2) - 53
  if num * unitsInOne < den * twoTo (low + 53) then low else low + 1

theorem ofRatio_eq (negative : Bool) {num : Nat} (h : num ≠ 0) (den : Nat) :
    ofRatio negative num den =
      ofScaled negative
        (roundHalfEven (num * unitsInOne) (den * twoTo (scaleOf num den))) (scaleOf num den) := by
  unfold ofRatio
  rw [if_neg h]
  rfl

theorem twoTo_eq (n : Nat) : twoTo n = 2 ^ n := Nat.pow_eq

theorem scaleOf_spec {num den : Nat} (hnum : num ≠ 0) (hden : 0 < den) :
    num * unitsInOne < den * 2 ^ (scaleOf num den + 53) ∧
      (scaleOf num den = 0 ∨ den * 2 ^ (scaleOf num den + 52) ≤ num * unitsInOne) := by
  have hunits : num * unitsInOne ≠ 0 := by
    have := twoTo_pos 1074
    exact Nat.mul_ne_zero hnum (by unfold unitsInOne; omega)
  unfold scaleOf
  generalize num * unitsInOne = a at hunits
  have hb : den ≠ 0 := by omega
  have ha_le : 2 ^ a.log2 ≤ a := Nat.log2_self_le hunits
  have ha_lt : a < 2 ^ (a.log2 + 1) := Nat.lt_log2_self
  have hb_le : 2 ^ den.log2 ≤ den := Nat.log2_self_le hb
  have hb_lt : den < 2 ^ (den.log2 + 1) := Nat.lt_log2_self
  -- The number of bits before the point is known up to one.
  have hupper : ∀ n, a.log2 - den.log2 + 1 ≤ n → a < den * 2 ^ n := by
    intro n hn
    calc a < 2 ^ (a.log2 + 1) := ha_lt
      _ ≤ 2 ^ (den.log2 + n) := Nat.pow_le_pow_right (by omega) (by omega)
      _ = 2 ^ den.log2 * 2 ^ n := Nat.pow_add 2 _ _
      _ ≤ den * 2 ^ n := Nat.mul_le_mul_right _ hb_le
  have hlower : ∀ n, n + 1 ≤ a.log2 - den.log2 → den * 2 ^ n ≤ a := by
    intro n hn
    calc den * 2 ^ n ≤ 2 ^ (den.log2 + 1) * 2 ^ n := Nat.mul_le_mul_right _ hb_lt.le
      _ = 2 ^ (den.log2 + 1 + n) := (Nat.pow_add 2 _ _).symm
      _ ≤ 2 ^ a.log2 := Nat.pow_le_pow_right (by omega) (by omega)
      _ ≤ a := ha_le
  simp only [twoTo_eq]
  split
  next hlt =>
    refine ⟨hlt, ?_⟩
    rcases Nat.eq_zero_or_pos (a.log2 - den.log2 - 53) with hzero | hpos
    · exact Or.inl hzero
    · exact Or.inr (hlower _ (by omega))
  next hge =>
    refine ⟨hupper _ (by omega), Or.inr ?_⟩
    rw [show a.log2 - den.log2 - 53 + 1 + 52 = a.log2 - den.log2 - 53 + 53 by omega]
    omega

/-- The scale is known by where the quotient lies. -/
theorem scaleOf_eq {num den s : Nat} (hnum : num ≠ 0) (hden : 0 < den)
    (hupper : num * unitsInOne < den * 2 ^ (s + 53))
    (hlower : s = 0 ∨ den * 2 ^ (s + 52) ≤ num * unitsInOne) : scaleOf num den = s := by
  obtain ⟨hupper', hlower'⟩ := scaleOf_spec hnum hden
  generalize scaleOf num den = t at *
  have hpow : ∀ {i j}, den * 2 ^ i < den * 2 ^ j → i < j := fun h =>
    (Nat.pow_lt_pow_iff_right (by omega)).mp (Nat.lt_of_mul_lt_mul_left h)
  have hts : t ≤ s := by
    rcases hlower' with h | h
    · omega
    · have := hpow (lt_of_le_of_lt h hupper)
      omega
  have hst : s ≤ t := by
    rcases hlower with h | h
    · omega
    · have := hpow (lt_of_le_of_lt h hupper')
      omega
  omega

/-- Only the quotient counts. -/
theorem ofRatio_mul (negative : Bool) (num : Nat) {den c : Nat} (hden : 0 < den) (hc : 0 < c) :
    ofRatio negative (num * c) (den * c) = ofRatio negative num den := by
  rcases Nat.eq_zero_or_pos num with rfl | hnum
  · rw [Nat.zero_mul]
    simp [ofRatio]
  have hnum' : num * c ≠ 0 := Nat.mul_ne_zero (by omega) (by omega)
  obtain ⟨hupper, hlower⟩ := scaleOf_spec (show num ≠ 0 by omega) hden
  have hunits : num * c * unitsInOne = num * unitsInOne * c := Nat.mul_right_comm ..
  have hpow : ∀ n, den * c * 2 ^ n = den * 2 ^ n * c := fun n => Nat.mul_right_comm ..
  have hscale : scaleOf (num * c) (den * c) = scaleOf num den := by
    apply scaleOf_eq hnum' (Nat.mul_pos hden hc)
    · rw [hunits, hpow]
      exact (Nat.mul_lt_mul_right hc).mpr hupper
    · rw [hunits, hpow]
      exact hlower.imp id (Nat.mul_le_mul_right c)
  rw [ofRatio_eq _ hnum', ofRatio_eq _ (by omega), hscale, hunits, twoTo_eq, hpow,
    roundHalfEven_mul _ _ hc]

theorem ofRatio_congr (negative : Bool) {num den num' den' : Nat} (hden : 0 < den)
    (hden' : 0 < den') (h : num * den' = num' * den) :
    ofRatio negative num den = ofRatio negative num' den' := by
  rw [← ofRatio_mul negative num hden hden', h, Nat.mul_comm den,
    ofRatio_mul negative num' hden' hden]

/-! ## Doubles from their parts -/

theorem significand_lt (x : Binary64) : x.significand < 2 ^ 53 := by
  have hfraction : x.fraction.val < 2 ^ 52 := x.fraction.isLt
  unfold significand
  rw [twoTo_eq]
  split <;> omega

theorem fraction_ofNat (x : Binary64) : Fin.ofNat fractions x.fraction.val = x.fraction := by
  rw [Fin.ofNat_val_eq_self]

theorem ofScaled_significand {x : Binary64} (hfinite : x.isFinite = true) :
    ofScaled x.negative x.significand x.scale = x := by
  have hfraction : x.fraction.val < 2 ^ 52 := x.fraction.isLt
  have hexponent : x.exponent.val ≠ 2047 := by
    intro h
    simp [isFinite, Fin.ext_iff, h] at hfinite
  have hlt := x.exponent.isLt
  unfold ofScaled significand scale
  simp only [twoTo_eq]
  by_cases hzero : x.exponent.val = 0
  · rw [if_pos hzero, if_pos hfraction, fraction_ofNat]
    have hsubnormal : x.exponent = 0 := Fin.ext hzero
    rw [← hsubnormal]
  · rw [if_neg hzero, if_neg (by omega)]
    have hcarried : ¬ 2 ^ 52 + x.fraction.val = 2 ^ 53 := by omega
    simp only [if_neg hcarried]
    rw [Nat.sub_add_cancel (by omega), if_pos (by omega), Nat.add_sub_cancel_left, fraction_ofNat,
      Fin.ofNat_val_eq_self]

/-- The significand after the largest is carried into the exponent. -/
theorem ofScaled_carried {x : Binary64} (hfinite : x.isFinite = true) (hscale : 0 < x.scale)
    (hleast : x.significand = 2 ^ 52) : ofScaled x.negative (2 ^ 53) (x.scale - 1) = x := by
  have hexponent : x.exponent.val ≠ 2047 := by
    intro h
    simp [isFinite, Fin.ext_iff, h] at hfinite
  have hlt := x.exponent.isLt
  unfold scale at hscale
  unfold significand at hleast
  rw [twoTo_eq, if_neg (by omega)] at hleast
  have hfraction : x.fraction = 0 := Fin.ext (by simpa using hleast)
  unfold ofScaled scale
  simp only [twoTo_eq]
  simp only [if_true]
  rw [if_neg (by decide), show x.exponent.val - 1 - 1 + 2 = x.exponent.val by omega,
    if_pos (by omega), Fin.ofNat_val_eq_self]
  cases x
  simp only [mk.injEq, true_and] at hfraction ⊢
  rw [hfraction]
  rfl

theorem two_pow_le_significand {x : Binary64} (h : x.scale ≠ 0) : 2 ^ 52 ≤ x.significand := by
  unfold scale at h
  unfold significand
  rw [twoTo_eq, if_neg (by omega)]
  omega

/-! ## The nearest double -/

theorem units_eq (x : Binary64) : (x.units : ℚ) = x.significand * 2 ^ x.scale := by
  rw [units]
  push_cast
  rfl

/-- A quotient in units, as a rational number. -/
theorem exists_quotient (num : Nat) {den : Nat} (hden : 0 < den) :
    ∃ q : ℚ, q = (num * unitsInOne : ℚ) / den ∧ (num * unitsInOne : ℚ) = q * den := by
  have hpos : (den : ℚ) ≠ 0 := by exact_mod_cast hden.ne'
  exact ⟨_, rfl, (div_mul_cancel₀ _ hpos).symm⟩

theorem roundHalfEven_of_units {num den k m : Nat} {q : ℚ} (hden : 0 < den)
    (hq : (num * unitsInOne : ℚ) = q * den) (hm : |q - m * 2 ^ k| < 2 ^ k / 2) :
    roundHalfEven (num * unitsInOne) (den * 2 ^ k) = m := by
  have hpos : (den : ℚ) ≠ 0 := by exact_mod_cast hden.ne'
  have hpow : (0 : ℚ) < 2 ^ k := by positivity
  apply roundHalfEven_of_abs_lt (by positivity)
  push_cast
  rw [hq, mul_comm q, mul_div_mul_left _ _ hpos, abs_lt, lt_sub_iff_add_lt, sub_lt_iff_lt_add,
    lt_div_iff₀ hpow, div_lt_iff₀ hpow]
  rw [abs_lt] at hm
  constructor <;> linarith

theorem scaleOf_of_units {num den s : Nat} {q : ℚ} (hnum : num ≠ 0) (hden : 0 < den)
    (hq : (num * unitsInOne : ℚ) = q * den) (hupper : q < 2 ^ (s + 53))
    (hlower : s = 0 ∨ 2 ^ (s + 52) ≤ q) : scaleOf num den = s := by
  have hpos : (0 : ℚ) < den := by exact_mod_cast hden
  apply scaleOf_eq hnum hden
  · have hcast : (num * unitsInOne : ℚ) < den * 2 ^ (s + 53) := by
      rw [hq, mul_comm (den : ℚ)]
      exact mul_lt_mul_of_pos_right hupper hpos
    exact_mod_cast hcast
  · refine hlower.imp id fun hle => ?_
    have hcast : (den * 2 ^ (s + 52) : ℚ) ≤ num * unitsInOne := by
      rw [hq, mul_comm]
      exact mul_le_mul_of_nonneg_right hle hpos.le
    exact_mod_cast hcast

/-- A quotient that does not lie below the least double of the scale. -/
theorem ofRatio_of_near_same {x : Binary64} (hfinite : x.isFinite = true) {num den : Nat} {q : ℚ}
    (hnum : num ≠ 0) (hden : 0 < den) (hq : (num * unitsInOne : ℚ) = q * den)
    (h : |q - x.significand * 2 ^ x.scale| < x.significand * 2 ^ x.scale / 2 ^ 54)
    (hscale : x.scale = 0 ∨ 2 ^ (x.scale + 52) ≤ q) : ofRatio x.negative num den = x := by
  have hsignificand : (x.significand : ℚ) + 1 ≤ 2 ^ 53 := by exact_mod_cast significand_lt x
  have hpow : (0 : ℚ) < 2 ^ x.scale := by positivity
  have hlargest := mul_le_mul_of_nonneg_right hsignificand hpow.le
  have hhalf : |q - x.significand * 2 ^ x.scale| < 2 ^ x.scale / 2 := by linarith
  have hupper : q < 2 ^ (x.scale + 53) := by
    rw [pow_add]
    linarith [(abs_lt.mp hhalf).2]
  rw [ofRatio_eq _ hnum, scaleOf_of_units hnum hden hq hupper hscale]
  simp only [twoTo_eq]
  rw [roundHalfEven_of_units hden hq hhalf, ofScaled_significand hfinite]

/-- A quotient that lies below the least double of the scale is rounded up to it. -/
theorem ofRatio_of_near_below {x : Binary64} (hfinite : x.isFinite = true) {num den : Nat} {q : ℚ}
    (hnum : num ≠ 0) (hden : 0 < den) (hq : (num * unitsInOne : ℚ) = q * den)
    (h : |q - x.significand * 2 ^ x.scale| < x.significand * 2 ^ x.scale / 2 ^ 54)
    (hscale : x.scale ≠ 0) (hlow : q < 2 ^ (x.scale + 52)) : ofRatio x.negative num den = x := by
  have hpow : (0 : ℚ) < 2 ^ x.scale := by positivity
  rw [pow_add] at hlow
  have hleast : x.significand = 2 ^ 52 := by
    have hge := two_pow_le_significand hscale
    by_contra hne
    have hgt : (2 : ℚ) ^ 52 + 1 ≤ x.significand := by
      exact_mod_cast lt_of_le_of_ne hge (Ne.symm hne)
    have hmore := mul_le_mul_of_nonneg_right hgt hpow.le
    have hlargest := mul_le_mul_of_nonneg_right
      (show (x.significand : ℚ) ≤ 2 ^ 53 by exact_mod_cast (significand_lt x).le) hpow.le
    linarith [(abs_lt.mp h).1]
  have hleastQ : (x.significand : ℚ) = 2 ^ 52 := by
    rw [hleast]
    push_cast
    rfl
  obtain ⟨k, hk⟩ : ∃ k, x.scale = k + 1 := ⟨x.scale - 1, by omega⟩
  rw [hleastQ, hk, pow_succ _ k] at h
  rw [hk, pow_succ _ k] at hlow
  have hhalf : |q - (2 ^ 53 : Nat) * 2 ^ k| < 2 ^ k / 2 := by
    push_cast
    rw [abs_lt] at h ⊢
    constructor <;> linarith
  have hupper : q < 2 ^ (k + 53) := by
    rw [pow_add]
    linarith
  have hlower : (2 : ℚ) ^ (k + 52) ≤ q := by
    rw [pow_add]
    linarith [(abs_lt.mp h).1]
  rw [ofRatio_eq _ hnum, scaleOf_of_units hnum hden hq hupper (Or.inr hlower)]
  simp only [twoTo_eq]
  rw [roundHalfEven_of_units hden hq hhalf, show k = x.scale - 1 by omega]
  exact ofScaled_carried hfinite (by omega) hleast

/-- A quotient is rounded to the double that it is nearer to than half the least distance of two
doubles there. -/
theorem ofRatio_of_near {x : Binary64} (hfinite : x.isFinite = true) {num den : Nat}
    (hden : 0 < den) (h : |(num * unitsInOne : ℚ) / den - x.units| < x.units / 2 ^ 54) :
    ofRatio x.negative num den = x := by
  obtain ⟨q, hquotient, hq⟩ := exists_quotient num hden
  rw [← hquotient, units_eq] at h
  have hnum : num ≠ 0 := by
    rintro rfl
    have hzero : q = 0 := by
      rw [hquotient, Nat.cast_zero, zero_mul, zero_div]
    have hnonneg : (0 : ℚ) ≤ x.significand * 2 ^ x.scale := by positivity
    rw [hzero, abs_lt] at h
    linarith
  by_cases hscale : x.scale = 0 ∨ 2 ^ (x.scale + 52) ≤ q
  · exact ofRatio_of_near_same hfinite hnum hden hq h hscale
  · rw [not_or, not_le] at hscale
    exact ofRatio_of_near_below hfinite hnum hden hq h hscale.1 hscale.2

/-! ## Bounds -/

theorem roundHalfEven_le (num den : Nat) : roundHalfEven num den ≤ num / den + 1 := by
  unfold roundHalfEven
  dsimp only
  split
  · omega
  · split
    · omega
    · omega

theorem ofScaled_bounds (negative : Bool) {m s : Nat} (hm : m ≤ 2 ^ 53) (hs : s + 2 < 2047) :
    (ofScaled negative m s).isFinite = true ∧ (ofScaled negative m s).units ≤ m * 2 ^ s := by
  have hpow : 0 < 2 ^ s := by positivity
  unfold ofScaled
  simp only [twoTo_eq]
  split
  next hsmall =>
    refine ⟨rfl, ?_⟩
    have hunits : (⟨negative, 0, Fin.ofNat fractions m⟩ : Binary64).units = m := by
      simpa [units, significand, scale, twoTo] using hsmall
    rw [hunits]
    exact Nat.le_mul_of_pos_right m hpow
  next hlarge =>
    by_cases hcarried : m = 2 ^ 53
    · simp only [if_pos hcarried]
      rw [if_pos hs]
      have hexponent : (Fin.ofNat 2048 (s + 2)).val = s + 2 := Nat.mod_eq_of_lt (by omega)
      refine ⟨?_, ?_⟩
      · simp only [isFinite, bne_iff_ne, ne_eq, Fin.ext_iff, hexponent]
        omega
      · simp only [units, significand, scale, hexponent, twoTo_eq]
        rw [if_neg (by omega), hcarried, show s + 2 - 1 = s + 1 by omega, pow_succ' 2 s]
        simp only [Fin.ofNat, Nat.zero_mod]
        omega
    · simp only [if_neg hcarried]
      rw [if_pos (by omega)]
      have hexponent : (Fin.ofNat 2048 (s + 1)).val = s + 1 := Nat.mod_eq_of_lt (by omega)
      have hfraction : (Fin.ofNat fractions (m - 2 ^ 52)).val = m - 2 ^ 52 := by
        apply Nat.mod_eq_of_lt
        have : fractions = 2 ^ 52 := rfl
        omega
      refine ⟨?_, ?_⟩
      · simp only [isFinite, bne_iff_ne, ne_eq, Fin.ext_iff, hexponent]
        omega
      · simp only [units, significand, scale, hexponent, hfraction, twoTo_eq]
        rw [if_neg (by omega), Nat.add_sub_cancel, Nat.add_sub_cancel' (by omega)]

/-- A quotient that is not too large is rounded to a finite double of at most about twice its
size. -/
theorem ofRatio_bounds (negative : Bool) {num den : Nat} (hden : 0 < den)
    (hsmall : num < den * 2 ^ 1022) :
    (ofRatio negative num den).isFinite = true ∧
      (ofRatio negative num den).units * den ≤ 2 * (num * unitsInOne) + den := by
  rcases Nat.eq_zero_or_pos num with rfl | hnum
  · refine ⟨rfl, ?_⟩
    have hzero : (ofRatio negative 0 den).units = 0 := rfl
    rw [hzero, Nat.zero_mul]
    exact Nat.zero_le _
  have hnum : num ≠ 0 := by omega
  obtain ⟨hupper, hlower⟩ := scaleOf_spec hnum hden
  rw [ofRatio_eq _ hnum, twoTo_eq]
  generalize scaleOf num den = s at *
  have hpow : 0 < den * 2 ^ s := by positivity
  have hs : s + 2 < 2047 := by
    rcases hlower with rfl | hlower
    · omega
    · have hlt : den * 2 ^ (s + 52) < den * 2 ^ (1022 + 1074) := by
        calc den * 2 ^ (s + 52) ≤ num * unitsInOne := hlower
          _ < den * 2 ^ 1022 * unitsInOne := Nat.mul_lt_mul_of_pos_right hsmall (twoTo_pos _)
          _ = den * 2 ^ (1022 + 1074) := by
            rw [unitsInOne, twoTo_eq, Nat.mul_assoc, ← Nat.pow_add]
      have hexponents : s + 52 < 1022 + 1074 :=
        (Nat.pow_lt_pow_iff_right Nat.one_lt_two).mp (Nat.lt_of_mul_lt_mul_left hlt)
      omega
  have hquotient : num * unitsInOne / (den * 2 ^ s) < 2 ^ 53 := by
    rw [Nat.div_lt_iff_lt_mul hpow]
    calc num * unitsInOne < den * 2 ^ (s + 53) := hupper
      _ = 2 ^ 53 * (den * 2 ^ s) := by ring
  have hround := roundHalfEven_le (num * unitsInOne) (den * 2 ^ s)
  generalize hm : roundHalfEven (num * unitsInOne) (den * 2 ^ s) = m at *
  obtain ⟨hfinite, hunits⟩ := ofScaled_bounds negative (show m ≤ 2 ^ 53 by omega) hs
  refine ⟨hfinite, ?_⟩
  have hle : (ofScaled negative m s).units * den ≤ m * (den * 2 ^ s) := by
    calc (ofScaled negative m s).units * den ≤ m * 2 ^ s * den := Nat.mul_le_mul_right den hunits
      _ = m * (den * 2 ^ s) := by ring
  refine le_trans hle ?_
  rcases hlower with rfl | hlower
  · have hdiv := Nat.div_mul_le_self (num * unitsInOne) (den * 2 ^ 0)
    have hmul := Nat.mul_le_mul_right (den * 2 ^ 0) hround
    rw [Nat.add_mul] at hmul
    omega
  · calc m * (den * 2 ^ s) ≤ 2 ^ 53 * (den * 2 ^ s) := Nat.mul_le_mul_right _ (by omega)
      _ = 2 * (den * 2 ^ (s + 52)) := by ring
      _ ≤ 2 * (num * unitsInOne) + den := by omega

end Binary64

end Acceptance
