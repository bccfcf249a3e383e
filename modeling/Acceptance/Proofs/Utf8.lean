import Mathlib.Data.List.TakeWhile
import Acceptance.Text.Utf8

/-! # Texts that can be encoded

A text without surrogates is read back from its bytes. -/

namespace Acceptance

namespace Text

/-- No surrogate stands in the text. -/
def Encodes (t : Text) : Prop := ∀ c ∈ t, c.isSurrogate = false

theorem encodes_append {s t : Text} : Encodes (s ++ t) ↔ Encodes s ∧ Encodes t := by
  unfold Encodes
  simp only [List.mem_append, or_imp, forall_and]

theorem encodes_of_all {t : Text} (h : t.all (!·.isSurrogate) = true) : Encodes t := by
  intro c hc
  simpa using List.all_eq_true.mp h c hc

end Text

namespace Utf8

/-! ## Encoding -/

theorem encode_of_encodes {t : Text} (h : Text.Encodes t) : encode t = .ok (t.flatMap bytesOf) := by
  have hbad : t.dropWhile (fun c => !c.isSurrogate) = [] := by
    rw [List.dropWhile_eq_nil_iff]
    intro c hc
    rw [h c hc]
    rfl
  unfold encode
  rw [hbad]

theorem encodes_of_encode {t : Text} {bytes : List UInt8} (h : encode t = .ok bytes) :
    Text.Encodes t := by
  unfold encode at h
  split at h
  next hbad =>
    intro c hc
    simpa using List.dropWhile_eq_nil_iff.mp hbad c hc
  next => exact absurd h (by simp)

/-! ## One code point -/

theorem toNat_toUInt8 {n : Nat} (h : n < 256) : n.toUInt8.toNat = n := by
  rw [Nat.toUInt8_eq, UInt8.toNat_ofNat']
  exact Nat.mod_eq_of_lt h

theorem codePoint_val (c : CodePoint) : codePoint c.val = c := by
  unfold codePoint CodePoint.ofNatD
  rw [dif_pos c.isLt]

theorem not_surrogate {c : CodePoint} (h : c.isSurrogate = false) :
    c.val < 0xD800 ∨ 0xE000 ≤ c.val := by
  simp only [CodePoint.isSurrogate, Bool.and_eq_false_iff, decide_eq_false_iff_not] at h
  omega

/-- The bytes of a code point are a head that is that code point. -/
theorem head_bytesOf {c : CodePoint} (h : c.isSurrogate = false) (rest : List UInt8) :
    ∃ lead tail, bytesOf c = lead :: tail ∧ head lead (tail ++ rest) = .found c (tail.length + 1) := by
  have hval := codePoint_val c
  have hlt := c.isLt
  have hrange := not_surrogate h
  generalize hn : c.val = n at hval hlt hrange
  unfold bytesOf
  simp only [hn]
  by_cases h1 : n < 0x80
  · rw [if_pos h1]
    refine ⟨_, _, rfl, ?_⟩
    have hlead := toNat_toUInt8 (show n < 256 by omega)
    unfold head
    rw [hlead, if_pos h1, hval]
    rfl
  rw [if_neg h1]
  have hpayload : ∀ m : Nat, m < 0x40 → (0x80 + m).toUInt8.toNat = 0x80 + m :=
    fun m hm => toNat_toUInt8 (by omega)
  by_cases h2 : n < 0x800
  · rw [if_pos h2]
    refine ⟨_, _, rfl, ?_⟩
    have hlead := toNat_toUInt8 (show 0xC0 + n / 0x40 < 256 by omega)
    have hsecond := hpayload (n % 0x40) (by omega)
    have hfollows : mayFollow (0xC0 + n / 0x40).toUInt8 (0x80 + n % 0x40).toUInt8 = true := by
      simp only [mayFollow, isContinuation, hlead, hsecond, Bool.and_eq_true, Bool.or_eq_true,
        decide_eq_true_eq, bne_iff_ne]
      omega
    have hvalue : (0xC0 + n / 0x40) % 0x20 * 0x40 + (0x80 + n % 0x40) % 0x40 = n := by omega
    simp only [head, hlead, List.cons_append, List.nil_append, hfollows, payload, hsecond, hvalue,
      hval]
    rw [if_neg (by omega), if_neg (by simp; omega), if_neg (by simp), if_pos (by omega)]
    rfl
  rw [if_neg h2]
  by_cases h3 : n < 0x10000
  · rw [if_pos h3]
    refine ⟨_, _, rfl, ?_⟩
    have hlead := toNat_toUInt8 (show 0xE0 + n / 0x1000 < 256 by omega)
    have hsecond := hpayload (n / 0x40 % 0x40) (by omega)
    have hthird := hpayload (n % 0x40) (by omega)
    have hfollows : mayFollow (0xE0 + n / 0x1000).toUInt8 (0x80 + n / 0x40 % 0x40).toUInt8 = true := by
      simp only [mayFollow, isContinuation, hlead, hsecond, Bool.and_eq_true, Bool.or_eq_true,
        decide_eq_true_eq, bne_iff_ne]
      omega
    have hcontinues : isContinuation (0x80 + n % 0x40).toUInt8 = true := by
      simp only [isContinuation, hthird, Bool.and_eq_true, decide_eq_true_eq]
      omega
    have hvalue : (0xE0 + n / 0x1000) % 0x10 * 0x1000 + (0x80 + n / 0x40 % 0x40) % 0x40 * 0x40 +
        (0x80 + n % 0x40) % 0x40 = n := by omega
    simp only [head, hlead, List.cons_append, List.nil_append, hfollows, hcontinues, payload,
      hsecond, hthird, hvalue, hval]
    rw [if_neg (by omega), if_neg (by simp; omega), if_neg (by simp), if_neg (by omega),
      if_neg (by simp), if_pos (by omega)]
    rfl
  · rw [if_neg h3]
    refine ⟨_, _, rfl, ?_⟩
    have hlead := toNat_toUInt8 (show 0xF0 + n / 0x40000 < 256 by omega)
    have hsecond := hpayload (n / 0x1000 % 0x40) (by omega)
    have hthird := hpayload (n / 0x40 % 0x40) (by omega)
    have hfourth := hpayload (n % 0x40) (by omega)
    have hfollows : mayFollow (0xF0 + n / 0x40000).toUInt8 (0x80 + n / 0x1000 % 0x40).toUInt8 =
        true := by
      simp only [mayFollow, isContinuation, hlead, hsecond, Bool.and_eq_true, Bool.or_eq_true,
        decide_eq_true_eq, bne_iff_ne]
      omega
    have hcontinues : ∀ m : Nat, m < 0x40 → isContinuation (0x80 + m).toUInt8 = true := by
      intro m hm
      simp only [isContinuation, hpayload m hm, Bool.and_eq_true, decide_eq_true_eq]
      omega
    have hvalue : (0xF0 + n / 0x40000) % 0x8 * 0x40000 + (0x80 + n / 0x1000 % 0x40) % 0x40 * 0x1000 +
        (0x80 + n / 0x40 % 0x40) % 0x40 * 0x40 + (0x80 + n % 0x40) % 0x40 = n := by omega
    simp only [head, hlead, List.cons_append, List.nil_append, hfollows,
      hcontinues _ (show n / 0x40 % 0x40 < 0x40 by omega),
      hcontinues _ (show n % 0x40 < 0x40 by omega), payload, hsecond, hthird, hfourth, hvalue, hval]
    rw [if_neg (by omega), if_neg (by simp; omega), if_neg (by simp), if_neg (by omega),
      if_neg (by simp), if_neg (by omega), if_neg (by simp)]
    rfl

/-! ## A whole text -/

theorem piecesFrom_covered (start : Nat) (bytes rest : List UInt8) :
    piecesFrom start bytes.length (bytes ++ rest) = piecesFrom (start + bytes.length) 0 rest := by
  induction bytes generalizing start with
  | nil => rfl
  | cons b bytes ih =>
    rw [List.length_cons, List.cons_append, piecesFrom, ih]
    rw [show start + 1 + bytes.length = start + (bytes.length + 1) by omega]

theorem piecesFrom_flatMap {t : Text} (h : Text.Encodes t) (start : Nat) :
    piecesFrom start 0 (t.flatMap bytesOf) = t.map .char := by
  induction t generalizing start with
  | nil => rfl
  | cons c t ih =>
    obtain ⟨lead, tail, hbytes, hhead⟩ := head_bytesOf (h c List.mem_cons_self) (t.flatMap bytesOf)
    rw [List.flatMap_cons, hbytes, List.cons_append, piecesFrom, hhead]
    simp only [Nat.add_sub_cancel]
    rw [piecesFrom_covered, ih fun d hd => h d (List.mem_cons_of_mem c hd)]
    rfl

theorem decode_flatMap {t : Text} (h : Text.Encodes t) : decode (t.flatMap bytesOf) = .ok t := by
  have hstrict : ∀ t : Text, strictText (t.map .char) = .ok t := by
    intro t
    induction t with
    | nil => rfl
    | cons c t ih =>
      rw [List.map_cons, strictText, ih]
      rfl
  rw [decode, piecesFrom_flatMap h, hstrict]

/-- Texts are told apart by their bytes. -/
theorem flatMap_bytesOf_inj {s t : Text} (hs : Text.Encodes s) (ht : Text.Encodes t) :
    s.flatMap bytesOf = t.flatMap bytesOf ↔ s = t := by
  refine ⟨fun h => ?_, fun h => h ▸ rfl⟩
  have hdecode := decode_flatMap hs
  rw [h, decode_flatMap ht] at hdecode
  exact (Except.ok.inj hdecode).symm

end Utf8

namespace Text

theorem withLineFeeds_of_absent {t : Text} (h : ∀ c ∈ t, c ≠ '\r') : withLineFeeds t = t := by
  induction t with
  | nil => rfl
  | cons c t ih =>
    have hrest := ih fun d hd => h d (List.mem_cons_of_mem c hd)
    unfold withLineFeeds at hrest ⊢
    rw [lineFeedsAfter, if_neg (h c List.mem_cons_self), hrest]
    simp

end Text

end Acceptance
