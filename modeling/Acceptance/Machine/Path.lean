import Acceptance.Text.Basic

/-! # Paths

A path as it is written, and its parts. Empty parts and single points are left out, two points stay.
-/

namespace Acceptance

structure Path where
  /-- Empty for a relative path, else one slash or two. -/
  root : Text
  parts : List Text
  deriving DecidableEq

namespace Path

/-- The root that a text starts with: exactly two slashes are a root of their own. -/
def rootOf (t : Text) : Text :=
  match (t.takeWhile (· = ('/' : CodePoint))).length with
  | 0 => ""
  | 2 => "//"
  | _ => "/"

/-- The parts of a text. -/
def partsOf (t : Text) : List Text :=
  (Text.splitOn '/' t).filter fun part => !part.isEmpty && part ≠ (Text.of ".")

/-- The path that a text writes. -/
def ofText (t : Text) : Path := { root := rootOf t, parts := partsOf t }

def toText (p : Path) : Text :=
  if p.root.isEmpty && p.parts.isEmpty then "." else p.root ++ Text.joinWith "/" p.parts

def isAbsolute (p : Path) : Bool := !p.root.isEmpty

/-- A path taken from this one: an absolute path stays as it is. -/
def join (p q : Path) : Path :=
  if q.isAbsolute then q else { p with parts := p.parts ++ q.parts }

/-- A path taken from this one, given as a text. -/
def child (p : Path) (t : Text) : Path := p.join (ofText t)

/-- The directory that holds the path. -/
def parent (p : Path) : Path := { p with parts := p.parts.dropLast }

/-- The last part, empty if there is none. -/
def name (p : Path) : Text := p.parts.getLastD []

/-- The parts without points: two points take the part before them away. -/
def settle (parts : List Text) : List Text :=
  (parts.foldl (fun before part =>
    if part = Text.of ".." then before.drop 1 else part :: before) []).reverse

/-- The absolute path, seen from a directory, without points. -/
def resolve (directory : List Text) (p : Path) : Path :=
  { root := "/", parts := settle (if p.isAbsolute then p.parts else directory ++ p.parts) }

end Path

end Acceptance
