import Acceptance.Proofs.Wording
import Acceptance.Toml.Reader

/-! # Texts of a settings file

A settings file that was decoded holds no surrogate, and it cannot spell one. So all texts and names
in its settings can be encoded. -/

namespace Acceptance

namespace Toml

open Json (Encodable)
open Text (Encodes)

variable {α β : Type} {P : α → Prop} {Q : β → Prop} {s t left : Text}

/-! ## Readers -/

/-- What is read is as `P` says, and what is left can be encoded. -/
def Reads (P : α → Prop) (r : Except Failure (α × Text)) : Prop :=
  ∀ a left, r = .ok (a, left) → P a ∧ Encodes left

/-- What is found is as `P` says, and what is left can be encoded. -/
def Finds (P : α → Prop) (r : Option (α × Text)) : Prop :=
  ∀ a left, r = some (a, left) → P a ∧ Encodes left

theorem reads_ok {a : α} (ha : P a) (hleft : Encodes left) : Reads P (.ok (a, left)) := by
  intro b left' h
  obtain ⟨rfl, rfl⟩ := Prod.mk.inj (Except.ok.inj h)
  exact ⟨ha, hleft⟩

theorem reads_error (failure : Failure) : Reads P (.error failure) :=
  fun _ _ h => absurd h (by simp)

theorem reads_bind {r : Except Failure (α × Text)} {f : α × Text → Except Failure (β × Text)}
    (hr : Reads P r) (hf : ∀ a left, P a → Encodes left → Reads Q (f (a, left))) :
    Reads Q (r >>= f) := by
  intro b left' h
  obtain ⟨⟨a, left⟩, ha, h⟩ := Json.bind_eq_ok h
  obtain ⟨hP, hleft⟩ := hr a left ha
  exact hf a left hP hleft b left' h

theorem reads_map {r : Except Failure (α × Text)} {f : α × Text → β × Text} (hr : Reads P r)
    (hf : ∀ a left, P a → Encodes left → Q (f (a, left)).1 ∧ Encodes (f (a, left)).2) :
    Reads Q (r.map f) := by
  intro b left' h
  obtain ⟨⟨a, left⟩, ha, h⟩ := Json.map_eq_ok h
  obtain ⟨hP, hleft⟩ := hr a left ha
  have hboth := hf a left hP hleft
  rwa [h] at hboth

theorem reads_then {γ : Type} {r : Except Failure γ} {f : γ → Except Failure (β × Text)}
    (hf : ∀ c, r = .ok c → Reads Q (f c)) : Reads Q (r >>= f) := by
  intro b left' h
  obtain ⟨c, hc, h⟩ := Json.bind_eq_ok h
  exact hf c hc b left' h

theorem finds_none : Finds P none := fun _ _ h => absurd h (by simp)

theorem finds_some {a : α} (ha : P a) (hleft : Encodes left) : Finds P (some (a, left)) := by
  intro b left' h
  obtain ⟨rfl, rfl⟩ := Prod.mk.inj (Option.some.inj h)
  exact ⟨ha, hleft⟩

theorem finds_bind {r : Option (α × Text)} {f : α × Text → Option (β × Text)} (hr : Finds P r)
    (hf : ∀ a left, P a → Encodes left → Finds Q (f (a, left))) : Finds Q (r >>= f) := by
  intro b left' h
  obtain ⟨⟨a, left⟩, ha, h⟩ := Option.bind_eq_some_iff.mp h
  obtain ⟨hP, hleft⟩ := hr a left ha
  exact hf a left hP hleft b left' h

theorem finds_map {r : Option (α × Text)} {f : α × Text → β × Text} (hr : Finds P r)
    (hf : ∀ a left, P a → Encodes left → Q (f (a, left)).1 ∧ Encodes (f (a, left)).2) :
    Finds Q (r.map f) := by
  intro b left' h
  obtain ⟨⟨a, left⟩, ha, h⟩ := Option.map_eq_some_iff.mp h
  obtain ⟨hP, hleft⟩ := hr a left ha
  have hboth := hf a left hP hleft
  rwa [h] at hboth

theorem reads_ok_of_finds {found : α × Text} (h : Finds P (some found)) : Reads P (.ok found) :=
  fun a left heq => h a left (congrArg some (Except.ok.inj heq))

/-! ## Strings -/

theorem reads_literal (hs : Encodes s) : Reads Encodes (readLiteral s) := by
  induction s with
  | nil => exact reads_error _
  | cons c rest ih =>
    obtain ⟨hc, hrest⟩ := Text.encodes_cons.mp hs
    rw [readLiteral]
    split
    · exact reads_ok Text.encodes_nil hrest
    split
    · exact reads_error _
    · exact reads_map (ih hrest) fun t left ht hleft => ⟨Text.encodes_cons.mpr ⟨hc, ht⟩, hleft⟩

theorem reads_longLiteral (hs : Encodes s) : Reads Encodes (readLongLiteral s) := by
  induction s with
  | nil => exact reads_error _
  | cons c rest ih =>
    obtain ⟨hc, hrest⟩ := Text.encodes_cons.mp hs
    rw [readLongLiteral]
    split
    · exact reads_ok Text.encodes_nil (hrest.drop 2)
    split
    · exact reads_error _
    · exact reads_map (ih hrest) fun t left ht hleft => ⟨Text.encodes_cons.mpr ⟨hc, ht⟩, hleft⟩

theorem reads_numbered (count : Nat) (hs : Encodes s) : Reads Encodes (readNumbered count s) := by
  unfold readNumbered
  split
  · exact reads_error _
  split
  · exact reads_error _
  split
  · dsimp only
    split
    · exact reads_error _
    next hsurrogate =>
      exact reads_ok (Text.encodes_cons.mpr ⟨Bool.eq_false_iff.mpr hsurrogate, Text.encodes_nil⟩)
        (hs.drop count)
  · exact reads_error _

theorem reads_escape (long : Bool) (hs : Encodes s) : Reads Encodes (readEscape long s) := by
  have hone : ∀ {c : Char} {left : Text}, Encodes left →
      Reads Encodes (.ok ([(c : CodePoint)], left)) := fun hleft =>
    reads_ok (Text.encodes_cons.mpr ⟨CodePoint.isSurrogate_ofChar _, Text.encodes_nil⟩) hleft
  unfold readEscape
  cases s with
  | nil => exact reads_error _
  | cons c rest =>
    obtain ⟨hc, hrest⟩ := Text.encodes_cons.mp hs
    dsimp only
    split
    · unfold skipLineEnd
      have hskip := hs.dropWhile isBlank
      rw [← skipBlanks] at hskip
      split
      · exact reads_ok Text.encodes_nil Text.encodes_nil
      next d more hblanks =>
        rw [hblanks] at hskip
        split
        · exact reads_ok Text.encodes_nil ((Text.encodes_cons.mp hskip).2.dropWhile _)
        · exact reads_error _
    split
    · exact reads_numbered 4 hrest
    split
    · exact reads_numbered 8 hrest
    split
    · exact hone hrest
    split
    · exact hone hrest
    split
    · exact hone hrest
    split
    · exact hone hrest
    split
    · exact hone hrest
    split
    · exact reads_ok (Text.encodes_cons.mpr ⟨hc, Text.encodes_nil⟩) hrest
    · exact reads_error _

theorem reads_basic (long : Bool) (fuel : Nat) (hs : Encodes s) :
    Reads Encodes (readBasic long fuel s) := by
  induction fuel generalizing s with
  | zero => exact reads_error _
  | succ fuel ih =>
    cases s with
    | nil => exact reads_error _
    | cons c rest =>
      obtain ⟨hc, hrest⟩ := Text.encodes_cons.mp hs
      rw [readBasic]
      split
      · exact reads_ok Text.encodes_nil hrest
      split
      · exact reads_ok Text.encodes_nil (hrest.drop 2)
      split
      · refine reads_bind (reads_escape long hrest) fun head left hhead hleft => ?_
        refine reads_bind (ih hleft) fun tail left htail hleft => ?_
        exact reads_ok (Text.encodes_append.mpr ⟨hhead, htail⟩) hleft
      split
      · exact reads_error _
      · exact reads_map (ih hrest) fun t left ht hleft => ⟨Text.encodes_cons.mpr ⟨hc, ht⟩, hleft⟩

theorem reads_long (quote : CodePoint) (hs : Encodes s) : Reads Encodes (readLong quote s) := by
  have hinside : Encodes (if s.head? = some ('\n' : CodePoint) then s.drop 1 else s) := by
    split
    · exact hs.drop 1
    · exact hs
  have hclosed : ∀ t left, Encodes t → Encodes left →
      Reads Encodes (.ok (withMoreQuotes quote t left)) := by
    intro t left ht hleft
    exact reads_ok (Text.encodes_append.mpr ⟨ht, (hleft.take 2).takeWhile _⟩) (hleft.drop _)
  unfold readLong
  dsimp only
  split
  · exact reads_bind (reads_basic true _ hinside) hclosed
  · exact reads_bind (reads_longLiteral hinside) hclosed

theorem reads_string (hs : Encodes s) {r : Except Failure (Text × Text)}
    (h : readString s = some r) : Reads Encodes r := by
  unfold readString at h
  split at h
  · rw [← Option.some.inj h]
    exact reads_long _ (hs.drop 3)
  split at h
  · rw [← Option.some.inj h]
    exact reads_long _ (hs.drop 3)
  split at h
  · rw [← Option.some.inj h]
    exact reads_basic false _ (hs.drop 1)
  split at h
  · rw [← Option.some.inj h]
    exact reads_literal (hs.drop 1)
  · exact absurd h (by simp)

/-! ## Keys -/

/-- All parts of a key can be encoded. -/
def SoundKey (key : List Text) : Prop := ∀ part ∈ key, Encodes part

theorem reads_keyPart (hs : Encodes s) : Reads Encodes (readKeyPart s) := by
  unfold readKeyPart
  cases s with
  | nil => exact reads_error _
  | cons c rest =>
    have hrest := (Text.encodes_cons.mp hs).2
    dsimp only
    split
    · rw [List.span_eq_takeWhile_dropWhile]
      exact reads_ok (hs.takeWhile _) (hs.dropWhile _)
    split
    · exact reads_literal hrest
    split
    · exact reads_basic false _ hrest
    · exact reads_error _

theorem reads_keyParts (fuel : Nat) (hs : Encodes s) : Reads SoundKey (readKeyParts fuel s) := by
  induction fuel generalizing s with
  | zero => exact reads_error _
  | succ fuel ih =>
    rw [readKeyParts]
    refine reads_bind (reads_keyPart hs) fun part left hpart hleft => ?_
    have hskip := hleft.dropWhile isBlank
    rw [← skipBlanks] at hskip
    have hone : SoundKey [part] := by simpa [SoundKey] using hpart
    dsimp only
    split
    · exact reads_ok hone Text.encodes_nil
    next c rest hblanks =>
      rw [hblanks] at hskip
      split
      · refine reads_bind (ih ((Text.encodes_cons.mp hskip).2.dropWhile _))
          fun parts left hparts hleft => ?_
        exact reads_ok (List.forall_mem_cons.mpr ⟨hpart, hparts⟩) hleft
      · exact reads_ok hone hskip

theorem reads_key (hs : Encodes s) : Reads SoundKey (readKey s) := reads_keyParts _ hs

/-! ## Numbers and times -/

theorem encodes_moreDigits (isDigit : CodePoint → Bool) (hs : Encodes s) :
    Encodes (moreDigits isDigit s).2 := by
  fun_induction moreDigits isDigit s with
  | case1 => exact hs
  | case2 c rest hc digits left hmore ih =>
    rw [hmore] at ih
    exact ih (Text.encodes_cons.mp hs).2
  | case3 => exact hs
  | case4 d after hd digits left hmore hdigit ih =>
    rw [hmore] at ih
    exact ih (Text.encodes_cons.mp (Text.encodes_cons.mp hs).2).2
  | case5 => exact hs
  | case6 => exact hs

theorem finds_someDigits (isDigit : CodePoint → Bool) (hs : Encodes s) :
    Finds (fun _ => True) (someDigits isDigit s) := by
  unfold someDigits
  split
  · exact finds_none
  · split
    · exact finds_some trivial (encodes_moreDigits isDigit hs)
    · exact finds_none

theorem encodes_readSign (hs : Encodes s) : Encodes (readSign s).2 := by
  unfold readSign
  cases s with
  | nil => exact Text.encodes_nil
  | cons c rest =>
    dsimp only
    split
    · exact (Text.encodes_cons.mp hs).2
    · split
      · exact (Text.encodes_cons.mp hs).2
      · exact hs

theorem finds_based (hs : Encodes s) : Finds Encodable (readBased s) := by
  unfold readBased
  split
  next zero letter rest =>
    have hrest := (Text.encodes_cons.mp (Text.encodes_cons.mp hs).2).2
    split
    · split
      · exact finds_map (finds_someDigits _ hrest) fun digits left _ hleft => ⟨trivial, hleft⟩
      · exact finds_none
    · exact finds_none
  · exact finds_none

theorem finds_whole (hs : Encodes s) : Finds (fun _ => True) (readWhole s) := by
  unfold readWhole
  split
  · exact finds_none
  · split
    · exact finds_some trivial (Text.encodes_cons.mp hs).2
    · exact finds_someDigits _ hs

theorem finds_decimals (hs : Encodes s) : Finds (fun _ => True) (readDecimals s) := by
  unfold readDecimals
  split
  · exact finds_none
  · split
    · exact finds_someDigits _ (Text.encodes_cons.mp hs).2
    · exact finds_none

theorem finds_power (hs : Encodes s) : Finds (fun _ => True) (readPower s) := by
  unfold readPower
  split
  · exact finds_none
  · split
    · exact finds_map (finds_someDigits _ (encodes_readSign (Text.encodes_cons.mp hs).2))
        fun digits left _ hleft => ⟨trivial, hleft⟩
    · exact finds_none

/-- What is left after something that may be missing. -/
theorem encodes_left {r : Option (α × Text)} (hr : Finds P r) (hs : Encodes s) :
    Encodes ((r.map (·.2)).getD s) := by
  cases r with
  | none => exact hs
  | some found => exact (hr found.1 found.2 rfl).2

theorem reads_decimal (hs : Encodes s) {r : Except Failure (Value × Text)}
    (h : readDecimal s = some r) : Reads Encodable r := by
  unfold readDecimal at h
  obtain ⟨⟨whole, left⟩, hwhole, hr⟩ := Option.map_eq_some_iff.mp h
  have hleft := (finds_whole (encodes_readSign hs) whole left hwhole).2
  have hafter := encodes_left (finds_decimals hleft) hleft
  have hend := encodes_left (finds_power hafter) hafter
  dsimp only at hr
  rw [← hr]
  split
  · split
    · exact reads_error _
    · exact reads_ok trivial hend
  · exact reads_ok trivial hend

theorem finds_word (hs : Encodes s) : Finds Encodable (readWord s) := by
  intro v left h
  obtain ⟨w, hw, heq⟩ := Option.map_eq_some_iff.mp h
  obtain ⟨rfl, rfl⟩ := Prod.mk.inj heq
  have hall : ∀ w ∈ words, Json.Encodable w.2 := by simp [words, Json.Encodable]
  exact ⟨hall w (List.mem_of_find?_eq_some hw), hs.drop _⟩

theorem finds_field (count low high : Nat) (hs : Encodes s) :
    Finds (fun _ => True) (readField count low high s) := by
  unfold readField
  dsimp only
  split
  · exact finds_some trivial (hs.drop count)
  · exact finds_none

theorem encodes_readMark {mark : CodePoint} (hs : Encodes s) (h : readMark mark s = some left) :
    Encodes left := by
  unfold readMark at h
  split at h
  · exact absurd h (by simp)
  · split at h
    · rw [← Option.some.inj h]
      exact (Text.encodes_cons.mp hs).2
    · exact absurd h (by simp)

/-- A field behind a mark. -/
theorem finds_afterMark (mark : CodePoint) (count low high : Nat) (hs : Encodes s)
    {f : Nat × Text → Option (β × Text)}
    (hf : ∀ n left, Encodes left → Finds Q (f (n, left))) :
    Finds Q (readMark mark s >>= fun rest => readField count low high rest >>= f) := by
  intro b left h
  obtain ⟨rest, hmark, h⟩ := Option.bind_eq_some_iff.mp h
  exact finds_bind (finds_field count low high (encodes_readMark hs hmark))
    (fun n left _ hleft => hf n left hleft) b left h

theorem encodes_readMicros (hs : Encodes s) : Encodes (readMicros s).2 := by
  unfold readMicros
  split
  · exact hs
  next rest hmark =>
    have hrest := encodes_readMark hs hmark
    rw [List.span_eq_takeWhile_dropWhile]
    dsimp only
    split
    · exact hs
    · exact hrest.dropWhile _

theorem finds_clock (hs : Encodes s) : Finds (fun _ => True) (readClock s) := by
  refine finds_bind (finds_field _ _ _ hs) fun hour left _ hleft => ?_
  refine finds_afterMark _ _ _ _ hleft fun minute left hleft => ?_
  refine finds_afterMark _ _ _ _ hleft fun second left hleft => ?_
  exact finds_some trivial (encodes_readMicros hleft)

theorem finds_date (hs : Encodes s) : Finds (fun _ => True) (readDate s) := by
  refine finds_bind (finds_field _ _ _ hs) fun year left _ hleft => ?_
  refine finds_afterMark _ _ _ _ hleft fun month left hleft => ?_
  refine finds_afterMark _ _ _ _ hleft fun day left hleft => ?_
  exact finds_some trivial hleft

theorem finds_offset (hs : Encodes s) : Finds (fun _ => True) (readOffset s) := by
  unfold readOffset
  split
  · exact finds_none
  next c rest =>
    have hrest := (Text.encodes_cons.mp hs).2
    split
    · exact finds_some trivial hrest
    split
    · refine finds_bind (finds_field _ _ _ hrest) fun hour left _ hleft => ?_
      refine finds_afterMark _ _ _ _ hleft fun minute left hleft => ?_
      exact finds_some trivial hleft
    · exact finds_none

theorem encodes_readTimeAfterDate (hs : Encodes s) {time : ClockTime} {offset : Option Int}
    (h : readTimeAfterDate s = some (time, offset, left)) : Encodes left := by
  unfold readTimeAfterDate at h
  split at h
  · exact absurd h (by simp)
  · split at h
    · obtain ⟨⟨found, rest⟩, hclock, h⟩ := Option.bind_eq_some_iff.mp h
      have hrest := (finds_clock (Text.encodes_cons.mp hs).2 found rest hclock).2
      dsimp only at h
      split at h
      next minutes more hoffset =>
        simp only [Option.some.injEq, Prod.mk.injEq] at h
        rw [← h.2.2]
        exact (finds_offset hrest minutes more hoffset).2
      next =>
        simp only [Option.some.injEq, Prod.mk.injEq] at h
        rw [← h.2.2]
        exact hrest
    · exact absurd h (by simp)

theorem reads_moment (hs : Encodes s) {r : Except Failure (Value × Text)}
    (h : readMoment s = some r) : Reads Encodable r := by
  unfold readMoment at h
  split at h
  next date rest hdate =>
    have hrest := (finds_date hs date rest hdate).2
    split at h
    · rw [← Option.some.inj h]
      exact reads_error _
    split at h
    next time offset more htime =>
      rw [← Option.some.inj h]
      exact reads_ok trivial (encodes_readTimeAfterDate hrest htime)
    next =>
      rw [← Option.some.inj h]
      exact reads_ok trivial hrest
  next =>
    obtain ⟨⟨time, rest⟩, hclock, rfl⟩ := Option.map_eq_some_iff.mp h
    exact reads_ok trivial (finds_clock hs time rest hclock).2

/-! ## Tables -/

/-- All texts and names in the entries can be encoded. -/
def SoundEntries (entries : Entries) : Prop := Encodable (.object entries)

variable {entries : Entries} {key : List Text} {k : Text} {v : Value}

theorem SoundEntries.set (h : SoundEntries entries) (hk : Encodes k) (hv : Encodable v) :
    SoundEntries (entries.set k v) := Json.Encodable.set h hk hv

/-- A change of the table at a path keeps what is sound if it does so in the table itself. -/
theorem sound_changeAt (throughLists : Bool) {change : Entries → Option Entries}
    (hchange : ∀ entries entries', SoundEntries entries → change entries = some entries' →
      SoundEntries entries')
    (hkey : SoundKey key) (h : SoundEntries entries) {entries' : Entries}
    (hresult : changeAt throughLists change key entries = some entries') : SoundEntries entries' := by
  induction key generalizing entries entries' with
  | nil => exact hchange _ _ h hresult
  | cons k path ih =>
    obtain ⟨hk, hpath⟩ := List.forall_mem_cons.mp hkey
    have hempty : SoundEntries [] := trivial
    rw [changeAt] at hresult
    split at hresult
    next =>
      obtain ⟨inner, hinner, rfl⟩ := Option.map_eq_some_iff.mp hresult
      exact h.set hk (ih hpath hempty hinner)
    next inner hget =>
      obtain ⟨inner', hinner, rfl⟩ := Option.map_eq_some_iff.mp hresult
      exact h.set hk (ih hpath (Json.Encodable.get? h hget) hinner)
    next items hget =>
      have hitems := Json.encodable_list.mp (Json.Encodable.get? h hget)
      split at hresult
      next inner hlast =>
        obtain ⟨inner', hinner, rfl⟩ := Option.map_eq_some_iff.mp hresult
        have hsound := ih hpath (hitems _ (List.mem_of_getLast? hlast)) hinner
        refine h.set hk (Json.encodable_list.mpr fun v hv => ?_)
        rcases List.mem_append.mp hv with hv | hv
        · exact hitems v (List.mem_of_mem_dropLast hv)
        · rw [List.mem_singleton.mp hv]
          exact hsound
      next => exact absurd hresult (by simp)
    next => exact absurd hresult (by simp)

theorem sound_addNew (hk : Encodes k) (hv : Encodable v) {entries' : Entries}
    (h : SoundEntries entries) (hadd : addNew k v entries = some entries') :
    SoundEntries entries' := by
  unfold addNew at hadd
  split at hadd
  · exact absurd hadd (by simp)
  · rw [← Option.some.inj hadd]
    exact h.set hk hv

theorem sound_addTable (hk : Encodes k) {entries' : Entries} (h : SoundEntries entries)
    (hadd : addTable k entries = some entries') : SoundEntries entries' := by
  have htable : Encodable (.object []) := trivial
  unfold addTable at hadd
  split at hadd
  next =>
    rw [← Option.some.inj hadd]
    exact h.set hk (Json.encodable_list.mpr (by simpa using htable))
  next items hget =>
    rw [← Option.some.inj hadd]
    have hitems := Json.encodable_list.mp (Json.Encodable.get? h hget)
    refine h.set hk (Json.encodable_list.mpr (List.forall_mem_append.mpr ⟨hitems, ?_⟩))
    simpa using htable
  next => exact absurd hadd (by simp)

theorem sound_parentAndLast (h : SoundKey key) :
    SoundKey (parentAndLast key).1 ∧ Encodes (parentAndLast key).2 := by
  refine ⟨fun part hpart => h part (List.mem_of_mem_dropLast hpart), ?_⟩
  unfold parentAndLast
  rcases List.eq_nil_or_concat key with rfl | ⟨front, last, rfl⟩
  · exact Text.encodes_nil
  · simpa using h last (by simp)

namespace Document

variable {d d' : Document}

/-- All texts and names in the document can be encoded. -/
def Sound (d : Document) : Prop := SoundEntries d.entries

theorem Sound.openTable (h : d.Sound) (hkey : SoundKey key) (hopen : d.openTable key = .ok d') :
    d'.Sound := by
  unfold Document.openTable at hopen
  dsimp only at hopen
  split at hopen
  · exact absurd hopen (by simp)
  split at hopen
  next entries hentries =>
    rw [← Except.ok.inj hopen]
    refine sound_changeAt true (fun _ _ hentries heq => ?_) hkey h hentries
    rwa [← Option.some.inj heq]
  next => exact absurd hopen (by simp)

theorem Sound.openListItem (h : d.Sound) (hkey : SoundKey key)
    (hopen : d.openListItem key = .ok d') : d'.Sound := by
  obtain ⟨hparent, hlast⟩ := sound_parentAndLast hkey
  unfold Document.openListItem at hopen
  dsimp only at hopen
  split at hopen
  · exact absurd hopen (by simp)
  split at hopen
  next entries hentries =>
    rw [← Except.ok.inj hopen]
    exact sound_changeAt true (fun _ _ hentries => sound_addTable hlast hentries) hparent h hentries
  next => exact absurd hopen (by simp)

theorem Sound.assign (h : d.Sound) {header : List Text} (hheader : SoundKey header)
    (hkey : SoundKey key) (hv : Encodable v) (hassign : d.assign header key v = .ok d') :
    d'.Sound := by
  obtain ⟨hparent, hlast⟩ := sound_parentAndLast hkey
  have hmarks : ∀ (paths : List (List Text)) (d : Document),
      (paths.foldl (fun d path => d.mark path .pending) d).entries = d.entries := by
    intro paths
    induction paths with
    | nil => exact fun _ => rfl
    | cons path rest ih => exact fun d => ih _
  unfold Document.assign at hassign
  dsimp only at hassign
  split at hassign
  · exact absurd hassign (by simp)
  split at hassign
  next entries hentries =>
    have hsound := sound_changeAt true (fun _ _ hentries => sound_addNew hlast hv hentries)
      (List.forall_mem_append.mpr ⟨hheader, hparent⟩) h hentries
    rw [← Except.ok.inj hassign]
    unfold Sound
    split
    · exact (hmarks _ _).symm ▸ hsound
    · exact (hmarks _ _).symm ▸ hsound
  next => exact absurd hassign (by simp)

theorem Sound.assignInline (h : d.Sound) (hkey : SoundKey key) (hv : Encodable v)
    (hassign : d.assignInline key v = .ok d') : d'.Sound := by
  obtain ⟨hparent, hlast⟩ := sound_parentAndLast hkey
  unfold Document.assignInline at hassign
  dsimp only at hassign
  split at hassign
  · exact absurd hassign (by simp)
  split at hassign
  next entries hentries =>
    have hsound := sound_changeAt false (fun _ _ hentries => sound_addNew hlast hv hentries)
      hparent h hentries
    rw [← Except.ok.inj hassign]
    split <;> exact hsound
  next => exact absurd hassign (by simp)

end Document

/-! ## Gaps -/

theorem encodes_skipComment (hs : Encodes s) (h : skipComment s = .ok left) : Encodes left := by
  unfold skipComment at h
  split at h
  · rw [← Except.ok.inj h]
    exact Text.encodes_nil
  next c rest =>
    rw [List.span_eq_takeWhile_dropWhile] at h
    dsimp only at h
    split at h
    · split at h
      · exact absurd h (by simp)
      · rw [← Except.ok.inj h]
        exact (Text.encodes_cons.mp hs).2.dropWhile _
    · rw [← Except.ok.inj h]
      exact hs

theorem encodes_skipGaps {fuel : Nat} (hs : Encodes s) (h : skipGaps fuel s = .ok left) :
    Encodes left := by
  induction fuel generalizing s with
  | zero => exact Except.ok.inj h ▸ hs
  | succ fuel ih =>
    obtain ⟨next, hnext, h⟩ := Json.bind_eq_ok h
    split at h
    · exact Except.ok.inj h ▸ hs
    · exact ih (encodes_skipComment (hs.dropWhile _) hnext) h

theorem encodes_skipAllGaps (hs : Encodes s) (h : skipAllGaps s = .ok left) : Encodes left :=
  encodes_skipGaps hs h

/-- What is read behind a gap. -/
theorem reads_afterGaps (hs : Encodes s) {f : Text → Except Failure (β × Text)}
    (hf : ∀ left, Encodes left → Reads Q (f left)) : Reads Q (skipAllGaps s >>= f) :=
  reads_then fun next hnext => hf next (encodes_skipAllGaps hs hnext)

/-! ## Values

By induction on the fuel, one statement for each reader. -/

theorem reads_keyAndEquals (hs : Encodes s) : Reads SoundKey (readKeyAndEquals s) := by
  refine reads_bind (reads_key hs) fun key left hkey hleft => ?_
  cases left with
  | nil => exact reads_error _
  | cons c rest =>
    dsimp only
    split
    · exact reads_ok hkey ((Text.encodes_cons.mp hleft).2.dropWhile _)
    · exact reads_error _

/-- With this fuel, values, items and inline tables are read without a surrogate. -/
def ReadsSoundly (fuel : Nat) : Prop :=
  (∀ depth s, Encodes s → Reads Encodable (readValue fuel depth s)) ∧
  (∀ depth s, Encodes s → Reads (fun items => Encodable (.list items)) (readItems fuel depth s)) ∧
  ∀ depth table s, Document.Sound table → Encodes s →
    Reads Document.Sound (readInline fuel depth table s)

theorem reads_value {fuel : Nat} (ih : ReadsSoundly fuel) (depth : Nat) (hs : Encodes s) :
    Reads Encodable (readValue (fuel + 1) depth s) := by
  obtain ⟨-, ihitems, ihinline⟩ := ih
  rw [readValue.eq_def]
  dsimp only
  split
  next read hread =>
    exact reads_map (reads_string hs hread) fun t left ht hleft => ⟨ht, hleft⟩
  cases s with
  | nil => exact reads_error _
  | cons c rest =>
    obtain ⟨-, hrest⟩ := Text.encodes_cons.mp hs
    dsimp only
    split
    · split
      · exact reads_error _
      · refine reads_afterGaps hrest fun inside hinside => ?_
        refine reads_bind (ihitems _ _ hinside) fun items left hitems hleft => ?_
        exact reads_ok hitems hleft
    split
    · split
      · exact reads_error _
      have hskip := hrest.dropWhile isBlank
      rw [← skipBlanks] at hskip
      split
      · exact reads_error _
      next d more hblanks =>
        rw [hblanks] at hskip
        split
        · exact reads_ok trivial (Text.encodes_cons.mp hskip).2
        · have hempty : Document.Sound .empty := trivial
          refine reads_bind (ihinline _ _ _ hempty hskip) fun table left htable hleft => ?_
          exact reads_ok htable hleft
    split
    next read hread => exact reads_moment hs hread
    split
    next found hfound => exact reads_ok_of_finds (hfound ▸ finds_based hs)
    split
    next read hread => exact reads_decimal hs hread
    split
    next found hfound => exact reads_ok_of_finds (hfound ▸ finds_word hs)
    · exact reads_error _

theorem reads_items {fuel : Nat} (ih : ReadsSoundly fuel) (depth : Nat) (hs : Encodes s) :
    Reads (fun items => Encodable (.list items)) (readItems (fuel + 1) depth s) := by
  obtain ⟨ihvalue, ihitems, -⟩ := ih
  rw [readItems]
  split
  · exact reads_ok trivial (hs.drop 1)
  refine reads_bind (ihvalue _ _ hs) fun item left hitem hleft => ?_
  refine reads_afterGaps hleft fun next hnext => ?_
  cases next with
  | nil => exact reads_error _
  | cons c rest =>
    have hrest := (Text.encodes_cons.mp hnext).2
    dsimp only
    split
    · exact reads_ok (Json.encodable_list.mpr (by simpa using hitem)) hrest
    split
    · refine reads_afterGaps hrest fun inside hinside => ?_
      refine reads_bind (ihitems _ _ hinside) fun items left hitems hleft => ?_
      refine reads_ok (Json.encodable_list.mpr (List.forall_mem_cons.mpr ⟨hitem, ?_⟩)) hleft
      exact Json.encodable_list.mp hitems
    · exact reads_error _

theorem reads_inline {fuel : Nat} (ih : ReadsSoundly fuel) (depth : Nat) {table : Document}
    (htable : table.Sound) (hs : Encodes s) :
    Reads Document.Sound (readInline (fuel + 1) depth table s) := by
  obtain ⟨ihvalue, -, ihinline⟩ := ih
  rw [readInline]
  refine reads_bind (reads_keyAndEquals hs) fun key left hkey hleft => ?_
  refine reads_bind (ihvalue _ _ hleft) fun value left hvalue hleft => ?_
  refine reads_then fun table' hassign => ?_
  have htable' := htable.assignInline hkey hvalue hassign
  have hskip := hleft.dropWhile isBlank
  rw [← skipBlanks] at hskip
  split
  · exact reads_error _
  next c rest hblanks =>
    rw [hblanks] at hskip
    have hrest := (Text.encodes_cons.mp hskip).2
    split
    · exact reads_ok htable' hrest
    split
    · exact ihinline _ _ _ htable' (hrest.dropWhile _)
    · exact reads_error _

theorem reads_soundly (fuel : Nat) : ReadsSoundly fuel := by
  induction fuel with
  | zero =>
    refine ⟨fun depth s _ => ?_, fun depth s _ => ?_, fun depth table s _ _ => ?_⟩
    · rw [readValue]
      exact reads_error _
    · rw [readItems]
      exact reads_error _
    · rw [readInline]
      exact reads_error _
  | succ fuel ih =>
    exact ⟨fun depth _ hs => reads_value ih depth hs, fun depth _ hs => reads_items ih depth hs,
      fun depth _ _ htable hs => reads_inline ih depth htable hs⟩

/-! ## Statements -/

/-- The document so far and the header can be encoded. -/
structure Progress.Sound (p : Progress) : Prop where
  document : p.document.Sound
  header : SoundKey p.header

variable {p : Progress}

/-- A key, and what it does to the document. -/
theorem reads_afterKey (hs : Encodes s) {change : List Text → Except Failure Document}
    (hchange : ∀ key d, SoundKey key → change key = .ok d → d.Sound) (closing : Text) :
    Reads Progress.Sound (do
      let (key, left) ← readKey s
      let document ← change key
      if Text.startsWith left closing then
        .ok ({ document, header := key }, left.drop closing.length)
      else .error .malformed) := by
  refine reads_bind (reads_key hs) fun key left hkey hleft => ?_
  refine reads_then fun d hd => ?_
  split
  · exact reads_ok ⟨hchange key d hkey hd, hkey⟩ (hleft.drop _)
  · exact reads_error _

theorem reads_tableHeader (hp : p.Sound) (hs : Encodes s) :
    Reads Progress.Sound (readTableHeader p s) :=
  reads_afterKey (hs.dropWhile _) (fun _ _ hkey hopen => hp.document.openTable hkey hopen) "]"

theorem reads_listHeader (hp : p.Sound) (hs : Encodes s) :
    Reads Progress.Sound (readListHeader p s) :=
  reads_afterKey (hs.dropWhile _) (fun _ _ hkey hopen => hp.document.openListItem hkey hopen) "]]"

theorem reads_assignment (hp : p.Sound) (hs : Encodes s) :
    Reads Progress.Sound (readAssignment p s) := by
  refine reads_bind (reads_keyAndEquals hs) fun key left hkey hleft => ?_
  refine reads_bind ((reads_soundly _).1 _ _ hleft) fun value left hvalue hleft => ?_
  refine reads_then fun d hassign => ?_
  exact reads_ok ⟨hp.document.assign hp.header hkey hvalue hassign, hp.header⟩ hleft

theorem reads_statement (hp : p.Sound) (hs : Encodes s) :
    Reads Progress.Sound (readStatement p s) := by
  unfold readStatement
  cases s with
  | nil => exact reads_ok hp Text.encodes_nil
  | cons c rest =>
    have hrest := (Text.encodes_cons.mp hs).2
    dsimp only
    split
    · exact reads_assignment hp hs
    split
    · split
      · exact reads_listHeader hp (hrest.drop 1)
      · exact reads_tableHeader hp hrest
    split
    · exact reads_ok hp hs
    · exact reads_error _

theorem sound_readLines {fuel : Nat} {p' : Progress} (hp : p.Sound) (hs : Encodes s)
    (h : readLines fuel p s = .ok p') : p'.Sound := by
  induction fuel generalizing p s with
  | zero => exact absurd h (by simp [readLines])
  | succ fuel ih =>
    obtain ⟨⟨next, left⟩, hstatement, h⟩ := Json.bind_eq_ok h
    obtain ⟨hnext, hleft⟩ := reads_statement hp (hs.dropWhile _) next left hstatement
    obtain ⟨after, hafter, h⟩ := Json.bind_eq_ok h
    have hrest := encodes_skipComment (hleft.dropWhile _) hafter
    cases after with
    | nil => exact Except.ok.inj h ▸ hnext
    | cons c rest =>
      dsimp only at h
      split at h
      · exact ih hnext (Text.encodes_cons.mp hrest).2 h
      · exact absurd h (by simp)

theorem encodes_withLineFeeds (hs : Encodes s) : Encodes (withLineFeeds s) := by
  induction s with
  | nil => exact Text.encodes_nil
  | cons c rest ih =>
    obtain ⟨hc, hrest⟩ := Text.encodes_cons.mp hs
    rw [withLineFeeds]
    split
    · exact ih hrest
    · exact Text.encodes_cons.mpr ⟨hc, ih hrest⟩

/-- The settings of a file without a surrogate can be encoded. -/
theorem encodable_read {file : Text} (hfile : Encodes file) {entries : Entries}
    (h : read file = .ok entries) : Encodable (.object entries) := by
  obtain ⟨p, hp, h⟩ := Json.bind_eq_ok h
  have hempty : Progress.Sound { document := .empty, header := [] } :=
    ⟨trivial, fun part hpart => absurd hpart (by simp)⟩
  rw [← Except.ok.inj h]
  exact (sound_readLines hempty (encodes_withLineFeeds hfile) hp).document

end Toml

end Acceptance
