import Acceptance.Toml.Document

/-! # Reading settings files

The statements of a settings file, one on a line: table headers and key/value pairs.
-/

namespace Acceptance

namespace Toml

/-! ## Comments -/

/-- What follows a comment, if one stands here. -/
def skipComment (s : Text) : Except Failure Text :=
  match s with
  | [] => .ok []
  | c :: rest =>
    if c = '#' then
      let (comment, left) := rest.span (· ≠ ('\n' : CodePoint))
      if comment.any isControl then .error .malformed else .ok left
    else .ok s

/-- Skips blanks, line ends and comments; `fuel` bounds the comments. -/
def skipGaps (fuel : Nat) (s : Text) : Except Failure Text :=
  match fuel with
  | 0 => .ok s
  | fuel + 1 => do
    let left ← skipComment (s.dropWhile isBlankOrFeed)
    if left.length = s.length then .ok s else skipGaps fuel left

def skipAllGaps (s : Text) : Except Failure Text := skipGaps (s.length + 1) s

/-! ## Values -/

/-- A key, an equals sign, and the blanks after it. -/
def readKeyAndEquals (s : Text) : Except Failure (List Text × Text) := do
  let (key, left) ← readKey s
  match left with
  | [] => .error .malformed
  | c :: rest => if c = '=' then .ok (key, skipBlanks rest) else .error .malformed

/-- How deep values may lie in one another. -/
def mostNested : Nat := 976

/-- What a list takes of the depth that is left. -/
def listDepth : Nat := 2

/-- What an inline table takes of the depth that is left. -/
def tableDepth : Nat := 3

mutual

/-- A value, `fuel` bounding how many values are read and `depth` how deep they may lie. -/
def readValue (fuel depth : Nat) (s : Text) : Except Failure (Value × Text) :=
  match fuel with
  | 0 => .error .malformed
  | fuel + 1 =>
    match readString s with
    | some read => read.map fun (t, left) => (.text t, left)
    | none =>
      match s with
      | [] => .error .malformed
      | c :: rest =>
        if c = '[' then
          if depth < listDepth then .error .nestedTooDeep
          else do
            let inside ← skipAllGaps rest
            let (items, left) ← readItems fuel (depth - listDepth) inside
            .ok (.list items, left)
        else if c = '{' then
          if depth < tableDepth then .error .nestedTooDeep
          else
            match skipBlanks rest with
            | [] => .error .malformed
            | d :: more =>
              if d = '}' then .ok (.object [], more)
              else do
                let (table, left) ← readInline fuel (depth - tableDepth) .empty (d :: more)
                .ok (.object table.entries, left)
        else
          match readMoment s with
          | some read => read
          | none =>
            match readBased s with
            | some found => .ok found
            | none =>
              match readDecimal s with
              | some read => read
              | none =>
                match readWord s with
                | some found => .ok found
                | none => .error .malformed

/-- The items of a list up to its closing bracket. -/
def readItems (fuel depth : Nat) (s : Text) : Except Failure (List Value × Text) :=
  match fuel with
  | 0 => .error .malformed
  | fuel + 1 =>
    if s.head? = some (']' : CodePoint) then .ok ([], s.drop 1)
    else do
      let (item, left) ← readValue fuel depth s
      match ← skipAllGaps left with
      | [] => .error .malformed
      | c :: rest =>
        if c = ']' then .ok ([item], rest)
        else if c = ',' then do
          let inside ← skipAllGaps rest
          let (items, left) ← readItems fuel depth inside
          .ok (item :: items, left)
        else .error .malformed

/-- The entries of an inline table up to its closing brace, added to those read before. -/
def readInline (fuel depth : Nat) (table : Document) (s : Text) :
    Except Failure (Document × Text) :=
  match fuel with
  | 0 => .error .malformed
  | fuel + 1 => do
    let (key, left) ← readKeyAndEquals s
    let (value, left) ← readValue fuel depth left
    let table ← table.assignInline key value
    match skipBlanks left with
    | [] => .error .malformed
    | c :: rest =>
      if c = '}' then .ok (table, rest)
      else if c = ',' then readInline fuel depth table (skipBlanks rest)
      else .error .malformed

end

/-! ## Statements -/

/-- The document so far and the header that its lines stand under. -/
structure Progress where
  document : Document
  header : List Text

/-- A table header after its opening bracket. -/
def readTableHeader (p : Progress) (s : Text) : Except Failure (Progress × Text) := do
  let (key, left) ← readKey (skipBlanks s)
  let document ← p.document.openTable key
  if Text.startsWith left "]" then .ok ({ document, header := key }, left.drop 1)
  else .error .malformed

/-- A header of a list of tables after its two opening brackets. -/
def readListHeader (p : Progress) (s : Text) : Except Failure (Progress × Text) := do
  let (key, left) ← readKey (skipBlanks s)
  let document ← p.document.openListItem key
  if Text.startsWith left "]]" then .ok ({ document, header := key }, left.drop 2)
  else .error .malformed

/-- A key/value line. -/
def readAssignment (p : Progress) (s : Text) : Except Failure (Progress × Text) := do
  let (key, left) ← readKeyAndEquals s
  let (value, left) ← readValue (2 * s.length + 2) mostNested left
  let document ← p.document.assign p.header key value
  .ok ({ p with document }, left)

/-- A statement, unless the line is empty or holds a comment only. -/
def readStatement (p : Progress) (s : Text) : Except Failure (Progress × Text) :=
  match s with
  | [] => .ok (p, [])
  | c :: rest =>
    if isBare c || c = '"' || c = '\'' then readAssignment p s
    else if c = '[' then
      if rest.head? = some ('[' : CodePoint) then readListHeader p (rest.drop 1)
      else readTableHeader p rest
    else if c = '#' || c = '\n' then .ok (p, s)
    else .error .malformed

/-- The lines of a file; `fuel` bounds how many there are. -/
def readLines (fuel : Nat) (p : Progress) (s : Text) : Except Failure Progress :=
  match fuel with
  | 0 => .error .malformed
  | fuel + 1 => do
    let (p, left) ← readStatement p (skipBlanks s)
    match ← skipComment (skipBlanks left) with
    | [] => .ok p
    | c :: rest => if c = '\n' then readLines fuel p rest else .error .malformed

/-- A carriage return before a line feed is part of the line end. -/
def withLineFeeds : Text → Text
  | [] => []
  | c :: rest =>
    if c = '\r' && rest.head? = some ('\n' : CodePoint) then withLineFeeds rest
    else c :: withLineFeeds rest

/-- The settings that a file holds. -/
def read (file : Text) : Except Failure Entries := do
  let file := withLineFeeds file
  let p ← readLines (file.length + 1) { document := .empty, header := [] } file
  .ok p.document.entries

end Toml

end Acceptance
