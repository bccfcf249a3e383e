import Acceptance.Text.Basic

/-! # UTF-8

Encoding refuses lone surrogates. Decoding cuts the bytes into pieces, each one code point or one
malformed stretch; the strict reader stops at the first malformed stretch, and the lossy one writes
the replacement character for each.
-/

namespace Acceptance

namespace Utf8

/-! ## Encoding -/

/-- The bytes of one code point. -/
def bytesOf (c : CodePoint) : List UInt8 :=
  let n := c.val
  if n < 0x80 then [n.toUInt8]
  else if n < 0x800 then [(0xC0 + n / 0x40).toUInt8, (0x80 + n % 0x40).toUInt8]
  else if n < 0x10000 then
    [(0xE0 + n / 0x1000).toUInt8, (0x80 + n / 0x40 % 0x40).toUInt8, (0x80 + n % 0x40).toUInt8]
  else
    [(0xF0 + n / 0x40000).toUInt8, (0x80 + n / 0x1000 % 0x40).toUInt8,
      (0x80 + n / 0x40 % 0x40).toUInt8, (0x80 + n % 0x40).toUInt8]

/-- Why a text has no bytes: the lone surrogates `run` stand at `start`. -/
structure Unencodable where
  start : Nat
  run : Text
  deriving DecidableEq

/-- The bytes of a text without lone surrogates. -/
def encode (t : Text) : Except Unencodable (List UInt8) :=
  match t.dropWhile fun c => !c.isSurrogate with
  | [] => .ok (t.flatMap bytesOf)
  | bad => .error
      { start := t.length - bad.length
        run := bad.takeWhile CodePoint.isSurrogate }

def Unencodable.message (e : Unencodable) : Text :=
  match e.run with
  | [c] =>
    "'utf-8' codec can't encode character '\\u" ++ Text.paddedHex 4 c.val ++ "' in position " ++
      Text.ofNat e.start ++ ": surrogates not allowed"
  | run =>
    "'utf-8' codec can't encode characters in position " ++ Text.ofNat e.start ++ "-" ++
      Text.ofNat (e.start + run.length - 1) ++ ": surrogates not allowed"

/-! ## Decoding -/

/-- Why a stretch of bytes is malformed. -/
inductive Flaw where
  | invalidStart
  | invalidContinuation
  | unexpectedEnd
  deriving DecidableEq

def Flaw.message : Flaw → Text
  | .invalidStart => "invalid start byte"
  | .invalidContinuation => "invalid continuation byte"
  | .unexpectedEnd => "unexpected end of data"

/-- What stands at the head of some bytes: a code point or a malformed stretch, and its length. -/
inductive Head where
  | found (c : CodePoint) (length : Nat)
  | malformed (flaw : Flaw) (length : Nat)
  deriving DecidableEq

/-- A byte that continues a sequence. -/
def isContinuation (b : UInt8) : Bool := 0x80 ≤ b.toNat && b.toNat ≤ 0xBF

/-- May `second` follow `lead`? The shortest form is asked for, and surrogates are left out. -/
def mayFollow (lead second : UInt8) : Bool :=
  isContinuation second &&
    (lead.toNat != 0xE0 || 0xA0 ≤ second.toNat) && (lead.toNat != 0xED || second.toNat ≤ 0x9F) &&
    (lead.toNat != 0xF0 || 0x90 ≤ second.toNat) && (lead.toNat != 0xF4 || second.toNat ≤ 0x8F)

/-- The payload of a continuation byte. -/
def payload (b : UInt8) : Nat := b.toNat % 0x40

/-- The replacement character. -/
def replacement : CodePoint := ⟨0xFFFD, by decide⟩

/-- The code point of number `n`. -/
def codePoint (n : Nat) : CodePoint := CodePoint.ofNatD n replacement

/-- The head of `lead :: rest`. -/
def head (lead : UInt8) (rest : List UInt8) : Head :=
  if lead.toNat < 0x80 then .found (codePoint lead.toNat) 1
  else if lead.toNat < 0xC2 || 0xF4 < lead.toNat then .malformed .invalidStart 1
  else
    match rest with
    | [] => .malformed .unexpectedEnd 1
    | second :: rest =>
      if !mayFollow lead second then .malformed .invalidContinuation 1
      else if lead.toNat < 0xE0 then
        .found (codePoint (lead.toNat % 0x20 * 0x40 + payload second)) 2
      else
        match rest with
        | [] => .malformed .unexpectedEnd 2
        | third :: rest =>
          if !isContinuation third then .malformed .invalidContinuation 2
          else if lead.toNat < 0xF0 then
            .found (codePoint
              (lead.toNat % 0x10 * 0x1000 + payload second * 0x40 + payload third)) 3
          else
            match rest with
            | [] => .malformed .unexpectedEnd 3
            | fourth :: _ =>
              if !isContinuation fourth then .malformed .invalidContinuation 3
              else
                .found (codePoint (lead.toNat % 0x8 * 0x40000 + payload second * 0x1000 +
                  payload third * 0x40 + payload fourth)) 4

/-- One piece of decoded bytes. -/
inductive Piece where
  | char (c : CodePoint)
  | malformed (flaw : Flaw) (start : Nat) (bytes : List UInt8)
  deriving DecidableEq

/-- Cuts the bytes that start at position `start` into pieces; the first `covered` of them belong to
the piece before. -/
def piecesFrom (start covered : Nat) : List UInt8 → List Piece
  | [] => []
  | lead :: rest =>
    match covered with
    | n + 1 => piecesFrom (start + 1) n rest
    | 0 =>
      match head lead rest with
      | .found c length => .char c :: piecesFrom (start + 1) (length - 1) rest
      | .malformed flaw length =>
        .malformed flaw start ((lead :: rest).take length) ::
          piecesFrom (start + 1) (length - 1) rest

/-- Why some bytes are no text. -/
structure Undecodable where
  flaw : Flaw
  start : Nat
  bytes : List UInt8
  deriving DecidableEq

def Undecodable.message (e : Undecodable) : Text :=
  match e.bytes with
  | [b] =>
    "'utf-8' codec can't decode byte 0x" ++ Text.paddedHex 2 b.toNat ++ " in position " ++
      Text.ofNat e.start ++ ": " ++ e.flaw.message
  | bytes =>
    "'utf-8' codec can't decode bytes in position " ++ Text.ofNat e.start ++ "-" ++
      Text.ofNat (e.start + bytes.length - 1) ++ ": " ++ e.flaw.message

/-- The text of pieces none of which is malformed. -/
def strictText : List Piece → Except Undecodable Text
  | [] => .ok []
  | .char c :: rest => (strictText rest).map (c :: ·)
  | .malformed flaw start bytes :: _ => .error ⟨flaw, start, bytes⟩

/-- The text that the bytes encode. -/
def decode (bytes : List UInt8) : Except Undecodable Text := strictText (piecesFrom 0 0 bytes)

/-- The code point that a piece stands for. -/
def Piece.lossy : Piece → CodePoint
  | .char c => c
  | .malformed .. => replacement

/-- The text that the bytes encode, with the replacement character for malformed stretches. -/
def decodeLossy (bytes : List UInt8) : Text := (piecesFrom 0 0 bytes).map Piece.lossy

end Utf8

/-! ## Names of files

A name is any row of bytes. A byte that is no part of a code point stands in its text as a surrogate
with the number of the byte.
-/

namespace Utf8

/-- The surrogate that stands for the byte 0. -/
def firstSurrogate : Nat := 0xDC00

/-- Does the code point stand for a byte? -/
def isEscape (c : CodePoint) : Bool :=
  firstSurrogate + 0x80 ≤ c.val && c.val ≤ firstSurrogate + 0xFF

/-- The bytes that a code point of a name stands for. -/
def nameBytesOf (c : CodePoint) : List UInt8 :=
  if isEscape c then [(c.val - firstSurrogate).toUInt8] else bytesOf c

/-- The bytes of a name, whose surrogates all stand for bytes. -/
def encodeName (t : Text) : Except Unencodable (List UInt8) :=
  match t.dropWhile fun c => isEscape c || !c.isSurrogate with
  | [] => .ok (t.flatMap nameBytesOf)
  | bad => .error
      { start := t.length - bad.length
        run := bad.takeWhile CodePoint.isSurrogate }

/-- The code points of a piece of a name. -/
def Piece.name : Piece → Text
  | .char c => [c]
  | .malformed _ _ bytes => bytes.map fun b => codePoint (firstSurrogate + b.toNat)

/-- The text of a name. -/
def decodeName (bytes : List UInt8) : Text := (piecesFrom 0 0 bytes).flatMap Piece.name

/-- The name as the system tells it: escaped bytes that make up a code point are that code point. -/
def settledName (t : Text) : Text :=
  if t.any isEscape then decodeName (t.flatMap nameBytesOf) else t

end Utf8

namespace Text

/-- Line ends as line feeds; a line feed that follows a carriage return is part of it. -/
def lineFeedsAfter (afterReturn : Bool) : Text → Text
  | [] => []
  | c :: rest =>
    if c = '\r' then '\n' :: lineFeedsAfter true rest
    else if c = '\n' && afterReturn then lineFeedsAfter false rest
    else c :: lineFeedsAfter false rest

/-- The text with every kind of line end written as a line feed. -/
def withLineFeeds (t : Text) : Text := lineFeedsAfter false t

end Text

end Acceptance
