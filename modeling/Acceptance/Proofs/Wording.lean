import Acceptance.Fault
import Acceptance.Proofs.Entry
import Acceptance.Proofs.JsonPrinting
import Acceptance.Proofs.Places

/-! # Wording

What messages are made of can be encoded: pieces of texts, numbers, times, and values as they are
shown. A quoted text shows no surrogate, so it can be encoded whatever was quoted. -/

namespace Acceptance

open Json (Encodable)

/-! ## Code points -/

namespace CodePoint

theorem isSurrogate_ofChar (c : Char) : (ofChar c).isSurrogate = false := by
  have hrange : c.toNat < 0xD800 ∨ 0xDFFF < c.toNat := by
    rcases c.valid with h | h
    · exact Or.inl h
    · exact Or.inr h.1
  unfold ofChar isSurrogate
  simp only [Bool.and_eq_false_iff, decide_eq_false_iff_not]
  omega

/-- The ranges hold no surrogate. -/
def avoidSurrogates (ranges : List (Nat × Nat)) : Bool :=
  ranges.all fun r => r.2 < 0xD800 || 0xE000 ≤ r.1

theorem not_surrogate_of_isIn {c : CodePoint} {ranges : List (Nat × Nat)}
    (h : c.isIn ranges = true) (hranges : avoidSurrogates ranges = true) : c.isSurrogate = false := by
  obtain ⟨r, hr, hc⟩ := List.any_eq_true.mp h
  have hrange := List.all_eq_true.mp hranges r hr
  simp only [Bool.and_eq_true, Bool.or_eq_true, decide_eq_true_eq] at hc hrange
  unfold isSurrogate
  simp only [Bool.and_eq_false_iff, decide_eq_false_iff_not]
  omega

theorem not_surrogate_of_isPrintable {c : CodePoint} (h : c.isPrintable = true) :
    c.isSurrogate = false := by
  unfold isPrintable at h
  simp only [Bool.or_eq_true] at h
  rcases h with ((h | h) | h) | h
  · exact not_surrogate_of_isIn h (by decide +kernel)
  · exact not_surrogate_of_isIn h (by decide +kernel)
  · exact not_surrogate_of_isIn h (by decide +kernel)
  · exact not_surrogate_of_isIn h (by decide +kernel)

end CodePoint

/-! ## Texts -/

namespace Text

variable {s t : Text}

attribute [simp] encodes_append

@[simp] theorem encodes_nil : Encodes [] := by simp [Encodes]

@[simp] theorem encodes_cons {c : CodePoint} :
    Encodes (c :: t) ↔ c.isSurrogate = false ∧ Encodes t := by
  simp [Encodes]

@[simp] theorem encodes_map_ofChar (cs : List Char) : Encodes (cs.map CodePoint.ofChar) := by
  intro c hc
  obtain ⟨d, -, rfl⟩ := List.mem_map.mp hc
  exact CodePoint.isSurrogate_ofChar d

@[simp] theorem encodes_of (s : String) : Encodes (of s) := encodes_map_ofChar _

theorem Encodes.mono (h : Encodes t) (hs : s ⊆ t) : Encodes s := fun c hc => h c (hs hc)

theorem Encodes.take (h : Encodes t) (n : Nat) : Encodes (t.take n) :=
  h.mono (List.take_subset n t)

theorem Encodes.drop (h : Encodes t) (n : Nat) : Encodes (t.drop n) :=
  h.mono (List.drop_subset n t)

theorem Encodes.dropEnd (h : Encodes t) (n : Nat) : Encodes (t.dropEnd n) := h.take _

theorem Encodes.takeEnd (h : Encodes t) (n : Nat) : Encodes (t.takeEnd n) := h.drop _

theorem Encodes.filter (h : Encodes t) (p : CodePoint → Bool) : Encodes (t.filter p) :=
  h.mono (List.filter_subset_self t)

theorem Encodes.dropWhile (h : Encodes t) (p : CodePoint → Bool) : Encodes (t.dropWhile p) :=
  h.mono (List.dropWhile_suffix p).subset

theorem Encodes.takeWhile (h : Encodes t) (p : CodePoint → Bool) : Encodes (t.takeWhile p) :=
  h.mono (List.takeWhile_prefix p).subset

theorem Encodes.reverse (h : Encodes t) : Encodes t.reverse :=
  h.mono fun _ => List.mem_reverse.mp

theorem Encodes.trimLeftWhere (h : Encodes t) (p : CodePoint → Bool) :
    Encodes (t.trimLeftWhere p) := h.dropWhile p

theorem Encodes.trimRightWhere (h : Encodes t) (p : CodePoint → Bool) :
    Encodes (t.trimRightWhere p) := (h.reverse.dropWhile p).reverse

theorem Encodes.trim (h : Encodes t) : Encodes (trim t) :=
  (h.trimLeftWhere _).trimRightWhere _

theorem Encodes.cutAt (h : Encodes t) (sep : CodePoint) :
    Encodes (cutAt sep t).1 ∧ ∀ after ∈ (Text.cutAt sep t).2, Encodes after := by
  induction t with
  | nil => simp [Text.cutAt]
  | cons c rest ih =>
    obtain ⟨hc, hrest⟩ := encodes_cons.mp h
    rw [Text.cutAt]
    split
    · simpa using hrest
    · exact ⟨encodes_cons.mpr ⟨hc, (ih hrest).1⟩, (ih hrest).2⟩

/-! ## Numbers and quotes -/

@[simp] theorem encodes_ofNat (n : Nat) : Encodes (ofNat n) := encodes_map_ofChar _

@[simp] theorem encodes_ofInt (n : Int) : Encodes (ofInt n) := by
  cases n with
  | ofNat n => exact encodes_ofNat n
  | negSucc n => exact encodes_cons.mpr ⟨CodePoint.isSurrogate_ofChar '-', encodes_ofNat _⟩

@[simp] theorem encodes_paddedHex (width n : Nat) : Encodes (paddedHex width n) := by
  refine encodes_append.mpr ⟨fun c hc => ?_, encodes_map_ofChar _⟩
  rw [List.eq_of_mem_replicate hc]
  exact CodePoint.isSurrogate_ofChar '0'

theorem encodes_written {around c : CodePoint} (haround : around.isSurrogate = false) :
    Encodes (Quoted.written around c) := by
  unfold Quoted.written
  split
  next h =>
    refine encodes_cons.mpr ⟨CodePoint.isSurrogate_ofChar '\\', encodes_cons.mpr ⟨?_, encodes_nil⟩⟩
    simp only [Bool.or_eq_true, decide_eq_true_eq] at h
    rcases h with rfl | rfl
    · exact haround
    · exact CodePoint.isSurrogate_ofChar '\\'
  split
  · exact encodes_of _
  split
  · exact encodes_of _
  split
  · exact encodes_of _
  split
  next hprintable => simpa using CodePoint.not_surrogate_of_isPrintable hprintable
  · unfold Quoted.escape
    split
    · simp
    · split <;> simp

@[simp] theorem encodes_quoted (t : Text) : Encodes (quoted t) := by
  have hmark : (Quoted.mark t).isSurrogate = false := by
    unfold Quoted.mark
    split <;> exact CodePoint.isSurrogate_ofChar _
  have hinside : Encodes (t.flatMap (Quoted.written (Quoted.mark t))) := by
    intro c hc
    obtain ⟨d, -, hc⟩ := List.mem_flatMap.mp hc
    exact encodes_written hmark c hc
  unfold quoted
  simp [hmark, hinside]

attribute [simp] encodes_padded

end Text

/-! ## Doubles and times -/

@[simp] theorem Binary64.encodes_toText (x : Binary64) : Text.Encodes x.toText := by
  by_cases hfinite : x.isFinite = true
  · exact (Json.plain_toText hfinite).encodes
  · have hsign : Text.Encodes (if x.negative then "-" else "") := by split <;> simp
    have hspecial : x.isNaN = true ∨ x.isInfinite = true := by
      by_cases hfraction : x.fraction = 0 <;>
        simp_all [Binary64.isFinite, Binary64.isNaN, Binary64.isInfinite]
    unfold Binary64.toText
    dsimp only
    by_cases hnan : x.isNaN = true
    · simp [hnan]
    · simp [hnan, hspecial.resolve_left hnan, hsign]

namespace Moment

theorem encodes_row (numbers : List Nat) : Text.Encodes (row numbers) := by
  refine (Path.encodes_joinWith (Text.encodes_of ", ") _).mpr fun piece hpiece => ?_
  obtain ⟨n, -, rfl⟩ := List.mem_map.mp hpiece
  exact Text.encodes_ofNat n

theorem encodes_span (micros : Int) : Text.Encodes (Span.shown micros) := by
  have hparts : ∀ parts : List (Text × Int), (∀ p ∈ parts, Text.Encodes p.1) →
      Text.Encodes (Text.joinWith ", " ((parts.filter fun p => p.2 ≠ 0).map
        fun p => p.1 ++ "=" ++ Text.ofInt p.2)) := by
    intro parts hnames
    refine (Path.encodes_joinWith (Text.encodes_of ", ") _).mpr fun piece hpiece => ?_
    obtain ⟨p, hp, rfl⟩ := List.mem_map.mp hpiece
    simp [hnames p (List.mem_of_mem_filter hp)]
  unfold Span.shown
  refine Text.encodes_append.mpr ⟨Text.encodes_append.mpr ⟨Text.encodes_of _, ?_⟩, Text.encodes_of _⟩
  split
  · exact Text.encodes_of _
  · exact hparts _ (by simp)

theorem encodes_date (d : Date) : Text.Encodes d.toText := by simp [Date.toText]

theorem encodes_clock (t : ClockTime) : Text.Encodes t.toText := by
  unfold ClockTime.toText
  dsimp only
  split <;> simp

@[simp] theorem encodes_shown (m : Moment) : Text.Encodes m.shown := by
  unfold shown written
  cases m with
  | date d => exact encodes_date d
  | time t => exact encodes_clock t
  | dateTime d t offset =>
    cases offset with
    | none => simp [encodes_date, encodes_clock]
    | some minutes =>
      have hoffset : Text.Encodes (Span.offset minutes) := by
        unfold Span.offset
        split <;> simp
      simp [encodes_date, encodes_clock, hoffset]

@[simp] theorem encodes_quoted (m : Moment) : Text.Encodes m.quoted := by
  unfold quoted
  cases m with
  | date d => simp [encodes_row]
  | time t => simp [encodes_row]
  | dateTime d t offset =>
    cases offset with
    | none => simp [encodes_row]
    | some minutes =>
      dsimp only
      split <;> simp [encodes_row, encodes_span]

end Moment

/-! ## Values -/

@[simp] theorem Key.encodes_quoted (k : Key) : Text.Encodes k.quoted := by
  cases k with
  | bool b => cases b <;> simp [Key.quoted]
  | _ => simp [Key.quoted]

namespace Value

mutual

theorem encodes_quoted : ∀ v : Value, Text.Encodes v.quoted
  | .null => by simp [quoted]
  | .bool b => by cases b <;> simp [quoted]
  | .int n => by simp [quoted]
  | .real x => by simp [quoted]
  | .text t => by simp [quoted]
  | .moment m => by simp [quoted]
  | .list items => by
    simp [quoted, (Path.encodes_joinWith (Text.encodes_of ", ") _).mpr (encodes_quotedItems items)]
  | .object entries => by
    simp [quoted, (Path.encodes_joinWith (Text.encodes_of ", ") _).mpr (encodes_quotedEntries entries)]

theorem encodes_quotedItems : ∀ items : List Value, ∀ piece ∈ quotedItems items, Text.Encodes piece
  | [] => by simp [quotedItems]
  | v :: rest => List.forall_mem_cons.mpr ⟨encodes_quoted v, encodes_quotedItems rest⟩

theorem encodes_quotedEntries :
    ∀ entries : List (Key × Value), ∀ piece ∈ quotedEntries entries, Text.Encodes piece
  | [] => by simp [quotedEntries]
  | (k, v) :: rest =>
    List.forall_mem_cons.mpr ⟨by simp [encodes_quoted v], encodes_quotedEntries rest⟩

end

theorem encodes_shown {v : Value} (h : Encodable v) : Text.Encodes v.shown := by
  cases v with
  | text t => exact h
  | moment m => exact m.encodes_shown
  | _ => exact encodes_quoted _

end Value

/-! ## Decoded texts -/

namespace Utf8

theorem not_surrogate_codePoint {n : Nat} (h : n < 0xD800 ∨ 0xE000 ≤ n) :
    (codePoint n).isSurrogate = false := by
  have hval : (codePoint n).val = n ∨ codePoint n = replacement := by
    unfold codePoint CodePoint.ofNatD
    split
    · exact Or.inl rfl
    · exact Or.inr rfl
  rcases hval with hval | hval
  · unfold CodePoint.isSurrogate
    simp only [hval, Bool.and_eq_false_iff, decide_eq_false_iff_not]
    omega
  · rw [hval]
    rfl

/-- What stands at the head of some bytes is no surrogate. -/
theorem not_surrogate_of_head {lead : UInt8} {rest : List UInt8} {c : CodePoint} {length : Nat}
    (h : head lead rest = .found c length) : c.isSurrogate = false := by
  unfold head at h
  split at h
  next hone =>
    obtain ⟨rfl, -⟩ := Head.found.inj h
    exact not_surrogate_codePoint (by omega)
  next hone =>
  split at h
  · exact absurd h (by simp)
  next hlead =>
  simp only [Bool.or_eq_true, decide_eq_true_eq, not_or, Nat.not_lt] at hlead
  split at h
  · exact absurd h (by simp)
  next second more =>
  split at h
  · exact absurd h (by simp)
  next hfollows =>
  simp only [mayFollow, isContinuation, Bool.not_eq_true', Bool.not_eq_false, Bool.and_eq_true,
    Bool.or_eq_true, decide_eq_true_eq, bne_iff_ne] at hfollows
  split at h
  next htwo =>
    obtain ⟨rfl, -⟩ := Head.found.inj h
    exact not_surrogate_codePoint (by unfold payload; omega)
  next htwo =>
  split at h
  · exact absurd h (by simp)
  next third more =>
  split at h
  · exact absurd h (by simp)
  split at h
  next hthree =>
    obtain ⟨rfl, -⟩ := Head.found.inj h
    exact not_surrogate_codePoint (by unfold payload; omega)
  next hthree =>
  split at h
  · exact absurd h (by simp)
  split at h
  · exact absurd h (by simp)
  · obtain ⟨rfl, -⟩ := Head.found.inj h
    exact not_surrogate_codePoint (by unfold payload; omega)

theorem not_surrogate_of_piece {start covered : Nat} {bytes : List UInt8} {c : CodePoint}
    (h : .char c ∈ piecesFrom start covered bytes) : c.isSurrogate = false := by
  induction bytes generalizing start covered with
  | nil => simp [piecesFrom] at h
  | cons lead rest ih =>
    cases covered with
    | succ n => exact ih h
    | zero =>
      rw [piecesFrom] at h
      split at h
      next d length hhead =>
        rcases List.mem_cons.mp h with h | h
        · rw [Piece.char.inj h]
          exact not_surrogate_of_head hhead
        · exact ih h
      next =>
        rcases List.mem_cons.mp h with h | h
        · exact absurd h (by simp)
        · exact ih h

theorem encodes_of_decode {bytes : List UInt8} {t : Text} (h : decode bytes = .ok t) :
    Text.Encodes t := by
  have hstrict : ∀ (pieces : List Piece) (t : Text), strictText pieces = .ok t →
      ∀ c ∈ t, .char c ∈ pieces := by
    intro pieces
    induction pieces with
    | nil =>
      intro t h
      rw [← Except.ok.inj h]
      simp
    | cons piece rest ih =>
      intro t h
      cases piece with
      | malformed flaw start bytes => exact absurd h (by simp [strictText])
      | char d =>
        obtain ⟨u, hu, rfl⟩ := Json.map_eq_ok h
        intro c hc
        rcases List.mem_cons.mp hc with rfl | hc
        · exact List.mem_cons_self
        · exact List.mem_cons_of_mem _ (ih u hu c hc)
  exact fun c hc => not_surrogate_of_piece (hstrict _ t h c hc)

@[simp] theorem encodes_decodeLossy (bytes : List UInt8) : Text.Encodes (decodeLossy bytes) := by
  intro c hc
  obtain ⟨piece, hpiece, rfl⟩ := List.mem_map.mp hc
  cases piece with
  | char c => exact not_surrogate_of_piece hpiece
  | malformed flaw start bytes => exact (rfl : replacement.isSurrogate = false)

end Utf8

theorem Text.Encodes.withLineFeeds {t : Text} (h : Encodes t) : Encodes (withLineFeeds t) := by
  have hall : ∀ afterReturn, Encodes (lineFeedsAfter afterReturn t) := by
    induction t with
    | nil => exact fun _ => encodes_nil
    | cons c rest ih =>
      obtain ⟨hc, hrest⟩ := encodes_cons.mp h
      intro afterReturn
      rw [lineFeedsAfter]
      split
      · exact encodes_cons.mpr ⟨CodePoint.isSurrogate_ofChar '\n', ih hrest true⟩
      split
      · exact ih hrest false
      · exact encodes_cons.mpr ⟨hc, ih hrest false⟩
  exact hall false

/-! ## Messages -/

@[simp] theorem Value.encodes_tooManyDigitsToRead (digits : Nat) :
    Text.Encodes (tooManyDigitsToRead digits) := by simp [tooManyDigitsToRead]

@[simp] theorem Json.Error.encodes_message (error : Json.Error) : Text.Encodes error.message := by
  cases error with
  | malformed problem line column position => cases problem <;> simp [message, Problem.message]
  | longInteger digits => exact Value.encodes_tooManyDigitsToRead digits
  | nestedTooDeep container => cases container <;> simp [message, tooDeep, Container.name]

namespace Utf8

@[simp] theorem Undecodable.encodes_message (e : Undecodable) : Text.Encodes e.message := by
  have hflaw : Text.Encodes e.flaw.message := by cases e.flaw <;> simp [Flaw.message]
  unfold message
  split <;> simp [hflaw]

@[simp] theorem Unencodable.encodes_message (e : Unencodable) : Text.Encodes e.message := by
  unfold message
  split <;> simp

end Utf8

@[simp] theorem Timestamp.Problem.encodes_message (problem : Timestamp.Problem) :
    Text.Encodes problem.message := by
  cases problem <;> simp [message, Moment.encodes_span]

@[simp] theorem FileProblem.encodes_message (problem : FileProblem) :
    Text.Encodes problem.error.message := by
  cases problem <;> simp [error, SystemError.message, SystemError.missing, SystemError.alreadyThere,
    SystemError.notADirectory, SystemError.isADirectory, SystemError.nameTooLong]

namespace Url

variable {t address : Text} {problem : Problem}

theorem encodes_bracketsProblem (h : bracketsProblem? t = some problem) :
    Text.Encodes problem.message := by
  have hbracket : ∀ host, bracketProblem? host = some problem → Text.Encodes problem.message := by
    intro host h
    unfold bracketProblem? at h
    split at h
    · split at h
      · exact absurd h (by simp)
      · rw [← Option.some.inj h]
        simp [Problem.message]
    · split at h
      · rw [← Option.some.inj h]
        simp [Problem.message]
      split at h
      · rw [← Option.some.inj h]
        simp [Problem.message]
      split at h
      · exact absurd h (by simp)
      · rw [← Option.some.inj h]
        simp [Problem.message]
  unfold bracketsProblem? at h
  split at h
  · exact absurd h (by simp)
  · split at h
    next host hhost => exact hbracket host h
    next error herror =>
      unfold bracketedHost at herror
      obtain rfl := Option.some.inj h
      dsimp only at herror
      split at herror
      · exact absurd herror (by simp)
      · split at herror
        · exact absurd herror (by simp)
        · rw [← Except.error.inj herror]
          simp [Problem.message]
  · rw [← Option.some.inj h]
    simp [Problem.message]

theorem encodes_hostProblem (ht : Text.Encodes t) (h : hostProblem? t = some problem) :
    Text.Encodes problem.message := by
  unfold hostProblem? at h
  split at h
  next hbrackets =>
    obtain rfl := Option.some.inj h
    exact encodes_bracketsProblem hbrackets
  next =>
    split at h
    · rw [← Option.some.inj h]
      simp [Problem.message, ht]
    · exact absurd h (by simp)

/-- A host that is refused is told, and it is part of the address. -/
theorem encodes_problem (haddress : Text.Encodes address) (h : path address = .error problem) :
    Text.Encodes problem.message := by
  have hcleaned : Text.Encodes ((address.dropWhile (·.val ≤ 0x20)).filter (!isLeftOut ·)) :=
    (haddress.dropWhile _).filter _
  have hscheme : ∀ t : Text, Text.Encodes t → Text.Encodes (cutScheme t).2 := by
    intro t ht
    unfold cutScheme
    split
    next scheme rest hcut =>
      split
      · exact (ht.cutAt ':').2 rest (by rw [hcut]; rfl)
      · exact ht
    next => exact ht
  have hhost : ∀ t : Text, Text.Encodes t → Text.Encodes (cutHost t).1 := by
    intro t ht
    unfold cutHost
    split
    · rw [List.span_eq_takeWhile_dropWhile]
      exact (ht.drop 2).takeWhile _
    · exact Text.encodes_nil
  unfold path at h
  dsimp only at h
  split at h
  next problem' hproblem =>
    obtain rfl := Except.error.inj h
    exact encodes_hostProblem (hhost _ (hscheme _ hcleaned)) hproblem
  next => exact absurd h (by simp)

end Url

end Acceptance
