import Acceptance.Text.Quoted

/-! # Paths of URLs

Which part of an address is the path: what stands between the host and the first of `;` (in the last
segment), `?` and `#`. An address whose host is malformed has none.
-/

namespace Acceptance

namespace Url

/-- Why an address is refused. -/
inductive Problem where
  /-- The brackets are not where a host begins and ends. -/
  | misplacedBracket
  | badFutureHost
  | bracketedIPv4
  | notAnIPAddress (host : Text)
  /-- The host has a character that stands for a delimiter. -/
  | disguisedDelimiter (host : Text)
  deriving DecidableEq

def Problem.message : Problem → Text
  | .misplacedBracket => "Invalid IPv6 URL"
  | .badFutureHost => "IPvFuture address is invalid"
  | .bracketedIPv4 => "An IPv4 address cannot be in brackets"
  | .notAnIPAddress host =>
    Text.quoted host ++ " does not appear to be an IPv4 or IPv6 address"
  | .disguisedDelimiter host =>
    "netloc '" ++ host ++ "' contains invalid characters under NFKC normalization"

/-! ## IP addresses -/

/-- The number that ASCII digits write. -/
def decimalValue (digits : Text) : Nat := digits.foldl (fun n c => n * 10 + (c.val - 0x30)) 0

/-- One to three digits, no zero in front, up to 255. -/
def isOctet (t : Text) : Bool :=
  !t.isEmpty && t.all CodePoint.isAsciiDigit && t.length ≤ 3 &&
    (t.length = 1 || t.head? ≠ some ('0' : CodePoint)) && decimalValue t ≤ 255

def isIPv4 (t : Text) : Bool :=
  let octets := Text.splitOn '.' t
  octets.length = 4 && octets.all isOctet

/-- One to four hexadecimal digits. -/
def isHextet (t : Text) : Bool :=
  !t.isEmpty && t.length ≤ 4 && t.all fun c => c.hexDigit?.isSome

/-- Eight groups, or fewer with one gap between two colons. -/
def areHextets (parts : List Text) : Bool :=
  let inner := (parts.drop 1).dropLast
  match inner.filter List.isEmpty with
  | [] => parts.length = 8 && parts.all isHextet
  | [_] =>
    let high := parts.takeWhile (!·.isEmpty)
    let low := parts.reverse.takeWhile (!·.isEmpty)
    -- A gap at the start or the end takes an empty part of its own.
    let gaps := 1 + (if high.isEmpty then 1 else 0) + (if low.isEmpty then 1 else 0)
    high.length + low.length + gaps = parts.length && high.length + low.length < 8 &&
      high.all isHextet && low.all isHextet
  | _ => false

/-- The groups of an address, two groups standing for a dotted one at the end. -/
def withoutDotted (parts : List Text) : Option (List Text) :=
  let last := parts.getLastD []
  if last.contains ('.' : CodePoint) then
    let group : Text := "0"
    if isIPv4 last then some (parts.dropLast ++ [group, group]) else none
  else some parts

/-- The address before a zone, if the zone is well formed. -/
def withoutZone (t : Text) : Option Text :=
  match Text.cutAt '%' t with
  | (address, none) => some address
  | (address, some zone) =>
    if zone.isEmpty || zone.contains ('%' : CodePoint) then none else some address

def isIPv6 (t : Text) : Bool :=
  match withoutZone t with
  | none => false
  | some address =>
    let parts := Text.splitOn ':' address
    if parts.length < 3 then false
    else
      match withoutDotted parts with
      | none => false
      | some parts => parts.length ≤ 9 && areHextets parts

/-- What stands in brackets after a `v`: hexadecimal digits, a point, and something more. -/
def isFutureHost (t : Text) : Bool :=
  let digits := (t.drop 1).takeWhile fun c => c.hexDigit?.isSome
  let rest := t.drop (1 + digits.length)
  !digits.isEmpty && rest.head? = some ('.' : CodePoint) && 1 < rest.length

/-- What is wrong with a host in brackets. -/
def bracketProblem? (host : Text) : Option Problem :=
  if Text.startsWith host "v" then if isFutureHost host then none else some .badFutureHost
  else if host.contains ('/' : CodePoint) then some (.notAnIPAddress host)
  else if isIPv4 host then some .bracketedIPv4
  else if isIPv6 host then none
  else some (.notAnIPAddress host)

/-! ## Hosts -/

/-- Code points whose compatibility form holds one of `/`, `?`, `#`, `@` and `:`. -/
def disguises : List Nat :=
  [8263, 8264, 8265, 8448, 8449, 8453, 8454, 10868, 65043, 65046, 65109, 65110, 65119, 65131, 65283,
    65295, 65306, 65311, 65312]

/-- What follows the last sign that ends the name of a user. -/
def withoutUser (t : Text) : Text :=
  (t.reverse.takeWhile (· ≠ ('@' : CodePoint))).reverse

/-- The host of an address with brackets: they stand around it, and nothing but a port follows. If
they belong to the user, the host ends where the port begins. -/
def bracketedHost (t : Text) : Except Problem Text :=
  let place := withoutUser t
  match Text.cutAt '[' place with
  | (_, none) => .ok (Text.cutAt ':' place).1
  | (before, some bracketed) =>
    let (host, after) := Text.cutAt ']' bracketed
    let port := after.getD []
    if before.isEmpty && (port.isEmpty || port.head? = some (':' : CodePoint)) then .ok host
    else .error .misplacedBracket

/-- What is wrong with the brackets. -/
def bracketsProblem? (t : Text) : Option Problem :=
  match t.contains ('[' : CodePoint), t.contains (']' : CodePoint) with
  | false, false => none
  | true, true =>
    match bracketedHost t with
    | .ok host => bracketProblem? host
    | .error problem => some problem
  | _, _ => some .misplacedBracket

/-- What is wrong with a host, its user and its port. -/
def hostProblem? (t : Text) : Option Problem :=
  match bracketsProblem? t with
  | some problem => some problem
  | none =>
    if t.any fun c => disguises.contains c.val then some (.disguisedDelimiter t) else none

/-! ## Parts -/

def isSchemeChar (c : CodePoint) : Bool :=
  c.isAsciiLetter || c.isAsciiDigit || c = '+' || c = '-' || c = '.'

/-- The scheme, in small letters, and what follows its colon; no scheme if none is written. -/
def cutScheme (t : Text) : Text × Text :=
  match Text.cutAt ':' t with
  | (scheme, some rest) =>
    if (scheme.head?.any CodePoint.isAsciiLetter) && scheme.all isSchemeChar then
      (scheme.map fun c =>
        if 0x41 ≤ c.val && c.val ≤ 0x5A then CodePoint.ofNatD (c.val + 32) c else c, rest)
    else ([], t)
  | (_, none) => ([], t)

/-- The schemes whose last segment may have parameters. -/
def schemesWithParameters : List Text :=
  ["", "ftp", "hdl", "prospero", "http", "imap", "https", "shttp", "rtsp", "rtspu", "sip", "sips",
    "mms", "sftp", "tel"]

def isHostEnd (c : CodePoint) : Bool := c = '/' || c = '?' || c = '#'

/-- The host after two slashes, if there is one, and what follows it. -/
def cutHost (t : Text) : Text × Text :=
  if Text.startsWith t "//" then (t.drop 2).span (!isHostEnd ·) else ([], t)

/-- The path without the parameters of its last segment. -/
def withoutParameters (path : Text) : Text :=
  let last := (path.reverse.takeWhile (· ≠ ('/' : CodePoint))).reverse
  path.take (path.length - last.length) ++ (Text.cutAt ';' last).1

/-- Tabs and line ends are left out wherever they stand. -/
def isLeftOut (c : CodePoint) : Bool := c = '\t' || c = '\r' || c = '\n'

/-- The path of an address. -/
def path (address : Text) : Except Problem Text :=
  let cleaned := (address.dropWhile (·.val ≤ 0x20)).filter (!isLeftOut ·)
  let (scheme, rest) := cutScheme cleaned
  let (host, rest) := cutHost rest
  match hostProblem? host with
  | some problem => .error problem
  | none =>
    let path := (Text.cutAt '?' (Text.cutAt '#' rest).1).1
    .ok (if schemesWithParameters.contains scheme then withoutParameters path else path)

end Url

end Acceptance
