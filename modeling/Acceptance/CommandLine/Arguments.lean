import Acceptance.Text.Basic

/-! # Arguments

Cutting a command line into options and operands. A long option may have its value behind an equals
sign, short ones may be written together, and everything after two dashes is an operand.
-/

namespace Acceptance

namespace Arguments

/-- An option. -/
structure Rule where
  /-- The names, with their dashes. -/
  names : List Text
  /-- Under which the option is known to the command. -/
  key : Text
  takesValue : Bool := true

/-- How a command line is read. -/
structure Grammar where
  rules : List Rule
  /-- May options stand behind operands? -/
  interspersed : Bool := true
  /-- Are unknown options operands? -/
  keepsUnknown : Bool := false

/-- What a command line says. -/
structure Parsed where
  /-- The options in the order in which they were given, with their values. -/
  options : List (Text × Option Text)
  operands : List Text
  deriving DecidableEq

namespace Parsed

def empty : Parsed := { options := [], operands := [] }

def withOption (p : Parsed) (key : Text) (value : Option Text) : Parsed :=
  { p with options := p.options ++ [(key, value)] }

def withOperands (p : Parsed) (more : List Text) : Parsed :=
  { p with operands := p.operands ++ more }

/-- Was the option given? -/
def has (p : Parsed) (key : Text) : Bool := p.options.any (·.1 = key)

/-- The values of an option. -/
def values (p : Parsed) (key : Text) : List Text :=
  (p.options.filter (·.1 = key)).filterMap (·.2)

/-- The last value of an option. -/
def value? (p : Parsed) (key : Text) : Option Text := (p.values key).getLast?

/-- The last of two options that was given. -/
def choice? (p : Parsed) (yes no : Text) : Option Bool :=
  ((p.options.filter fun o => o.1 = yes || o.1 = no).getLast?).map (·.1 = yes)

end Parsed

namespace Grammar

variable (g : Grammar)

/-- Is the name that of a short option: one dash and one character? -/
def isShort (name : Text) : Bool := name.length = 2 && !Text.startsWith name "--"

def rule? (name : Text) : Option Rule := g.rules.find? fun r => r.names.contains name

/-! ## One argument -/

/-- What an argument that starts with a dash asks for. -/
inductive Reading where
  /-- The options that were read. -/
  | complete (parsed : Parsed)
  /-- The options that were read, and one that takes the next argument as its value. -/
  | needsValue (parsed : Parsed) (key : Text)
  | refused
  deriving DecidableEq

/-- Short options written together; `unknown` holds those that are kept as an operand, backwards. -/
def readCluster (parsed : Parsed) (unknown : Text) : Text → Reading
  | [] =>
    if unknown.isEmpty then .complete parsed
    else .complete (parsed.withOperands ["-" ++ unknown.reverse])
  | c :: rest =>
    match g.rule? ['-', c] with
    | none => if g.keepsUnknown then readCluster parsed (c :: unknown) rest else .refused
    | some r =>
      let kept : List Text := if unknown.isEmpty then [] else ["-" ++ unknown.reverse]
      if !r.takesValue then readCluster (parsed.withOption r.key none) unknown rest
      else if rest.isEmpty then .needsValue (parsed.withOperands kept) r.key
      else .complete ((parsed.withOption r.key (some rest)).withOperands kept)

/-- A long option, its value behind an equals sign or not. -/
def readLong (parsed : Parsed) (r : Rule) (value : Option Text) : Reading :=
  match r.takesValue, value with
  | true, some v => .complete (parsed.withOption r.key (some v))
  | true, none => .needsValue parsed r.key
  | false, some _ => .refused
  | false, none => .complete (parsed.withOption r.key none)

/-- An argument that starts with a dash. -/
def readDashed (parsed : Parsed) (arg : Text) : Reading :=
  let (name, value) := Text.cutAt '=' arg
  let long := if isShort name then none else g.rule? name
  match long with
  | some r => readLong parsed r value
  | none =>
    if Text.startsWith arg "--" then
      if g.keepsUnknown then .complete (parsed.withOperands [arg]) else .refused
    else g.readCluster parsed [] (arg.drop 1)

/-! ## All arguments -/

/-- Reads arguments after what was `parsed` before; `none` if they do not fit. -/
def readFrom (parsed : Parsed) : List Text → Option Parsed
  | [] => some parsed
  | arg :: rest =>
    if arg = Text.of "--" then some (parsed.withOperands rest)
    else if arg.head? = some ('-' : CodePoint) && 1 < arg.length then
      match g.readDashed parsed arg, rest with
      | .refused, _ => none
      | .complete parsed, rest => readFrom parsed rest
      | .needsValue _ _, [] => none
      | .needsValue parsed key, value :: rest => readFrom (parsed.withOption key (some value)) rest
    else if g.interspersed then readFrom (parsed.withOperands [arg]) rest
    else some (parsed.withOperands (arg :: rest))

/-- Reads a command line. -/
def read (args : List Text) : Option Parsed := g.readFrom .empty args

end Grammar

end Arguments

end Acceptance
