/-
  EditorWire.DocumentUri.Authority — which authorities a URI can have.

  An authority is malformed if its brackets do not pair, if what stands in them
  is neither an IPv6 address nor an address of a future version, if a text stands
  in front of them or stands behind them without a colon, or if it holds a
  character whose compatibility form has one of the delimiters `/ ? # @ :` in it.
-/
import EditorWire.Number.Decimal

namespace EditorWire

/-! ## §1. IP addresses. -/

namespace IpAddress

/-- A number from 0 to 255 without leading zeros. -/
def isDecimalOctet (t : Text) : Bool :=
  t.all CodePoint.isDigit && 1 ≤ t.length && t.length ≤ 3
    && (t.length == 1 || t.head? != some 0x30) && Decimal.value t ≤ 255

/-- Four numbers with dots between them. -/
def isV4 (t : Text) : Bool :=
  let parts := Text.splitOn Ascii.dot t
  parts.length == 4 && parts.all isDecimalOctet

/-- One to four hexadecimal digits. -/
def isHexGroup (t : Text) : Bool :=
  t.all CodePoint.isHexDigit && 1 ≤ t.length && t.length ≤ 4

/-- The groups of an address with colons between them, a dotted last part counting as two. -/
def groups? (t : Text) : Option (List Text) :=
  let parts := Text.splitOn Ascii.colon t
  if parts.length < 3 then none
  else
    match parts.getLast? with
    | some last =>
        if last.contains Ascii.dot then
          if isV4 last then some (parts.dropLast ++ [[0x30], [0x30]]) else none
        else some parts
    | none => none

/-- Eight groups, or fewer with one run of zero groups left out between two colons. -/
def areV6Groups (groups : List Text) : Bool :=
  let inner := groups.dropLast.drop 1
  let empty := inner.filter (· == [])
  groups.length ≤ 9
    && (groups.filter (· != [])).all isHexGroup
    && match empty.length with
      | 0 => groups.length == 8 && groups.head? != some [] && groups.getLast? != some []
      | 1 =>
          let before := inner.takeWhile (· != [])
          let after := (inner.dropWhile (· != [])).drop 1
          let leading := groups.head? == some []
          let trailing := groups.getLast? == some []
          (!leading || before.isEmpty) && (!trailing || after.isEmpty)
            && (groups.filter (· != [])).length ≤ 7
      | _ => false

/-- An address, optionally with a zone after a percent sign. -/
def isV6 (t : Text) : Bool :=
  let (address, zone) := Text.cutAround Ascii.percent t
  let zoneIsFine := match zone with
    | none => true
    | some z => !z.isEmpty && !z.contains Ascii.percent
  zoneIsFine && match groups? address with
    | some groups => areV6Groups groups
    | none => false

/-- `v`, hexadecimal digits, a dot and something after it. -/
def isFuture (t : Text) : Bool :=
  match t with
  | 0x76 :: r =>
      !(r.takeWhile CodePoint.isHexDigit).isEmpty
        && match r.dropWhile CodePoint.isHexDigit with
          | Ascii.dot :: _ :: _ => true
          | _ => false
  | _ => false

/-- What may stand between brackets. -/
def isBracketed (t : Text) : Bool := if t.head? = some 0x76 then isFuture t else isV6 t

end IpAddress

/-! ## §2. Authorities. -/

namespace Authority

/-- The characters whose compatibility form holds a delimiter. -/
def disguisedDelimiters : List Nat :=
  [0x2047, 0x2048, 0x2049, 0x2100, 0x2101, 0x2105, 0x2106, 0x2A74, 0xFE13, 0xFE16, 0xFE55,
   0xFE56, 0xFE5F, 0xFE6B, 0xFF03, 0xFF0F, 0xFF1A, 0xFF1F, 0xFF20]

/-- The authority without what stands in front of its last `@`. -/
def serverPart (authority : Text) : Text :=
  (authority.reverse.takeWhile (· != Ascii.at_)).reverse

/-- The brackets are around the host, and the host is one that stands in brackets. -/
def hasBracketedHost (authority : Text) : Bool :=
  match Text.cutAround Ascii.openBracket (serverPart authority) with
  | (before, some bracketed) =>
      let (host, behind) := Text.cutAround Ascii.closeBracket bracketed
      let behind := behind.getD []
      before.isEmpty && (behind.isEmpty || behind.head? == some Ascii.colon)
        && IpAddress.isBracketed host
  | (host, none) => IpAddress.isBracketed (Text.cutAround Ascii.colon host).1

/-- No check on the authority fails. -/
def isWellFormed (authority : Text) : Bool :=
  let opens := authority.contains Ascii.openBracket
  let closes := authority.contains Ascii.closeBracket
  opens == closes && (!opens || hasBracketedHost authority)
    && !authority.any disguisedDelimiters.contains

/-- The authorities that name the machine at hand: none, and `localhost` in any case. -/
def isLocal (authority : Text) : Bool :=
  authority.isEmpty || Text.toLower authority == Text.ofString "localhost"

end Authority

end EditorWire
