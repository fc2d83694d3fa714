/-
  EditorWire.Text.Encoding — which encoding octets are in, and their text.

  The encoding of a JSON payload is not declared, so it is read off the first
  octets: a byte order mark names it, and without one the zero octets tell
  UTF-16 and UTF-32 apart from UTF-8, since a JSON text starts with an ASCII
  character.

      EF BB BF                       UTF-8, the mark dropped
      FF FE 00 00 / 00 00 FE FF      UTF-32
      FF FE / FE FF                  UTF-16
      00 x / x 00 …                  UTF-16 or UTF-32 by the zeros of the first four
      anything else                  UTF-8

  Surrogates are let through in all of them.
-/
import EditorWire.Number.Decimal
import EditorWire.Text.Utf32
import EditorWire.Text.Utf8

namespace EditorWire

/-- The encodings a payload may be in. -/
inductive Encoding where
  | utf8
  | utf16 (order : ByteOrder)
  | utf32 (order : ByteOrder)
  deriving Repr, DecidableEq

namespace Encoding

/-! ## §1. Names and encoders. -/

/-- The ending of a name that tells the byte order. -/
def orderName : ByteOrder → Text
  | .little => "-le"
  | .big => "-be"

/-- The name of the encoding in messages. -/
def name : Encoding → Text
  | .utf8 => "utf-8"
  | .utf16 order => "utf-16" ++ orderName order
  | .utf32 order => "utf-32" ++ orderName order

/-- The octets of a text. -/
def encode : Encoding → Text → Octets
  | .utf8 => Utf8.encode
  | .utf16 order => Utf16.encode order
  | .utf32 order => Utf32.encode order

/-! ## §2. Detection. -/

/-- The encoding of a payload, and how many octets of byte order mark it starts with. -/
def detect : Octets → Encoding × Nat
  | 0xFF :: 0xFE :: 0x00 :: 0x00 :: _ => (.utf32 .little, 4)
  | 0x00 :: 0x00 :: 0xFE :: 0xFF :: _ => (.utf32 .big, 4)
  | 0xFF :: 0xFE :: _ => (.utf16 .little, 2)
  | 0xFE :: 0xFF :: _ => (.utf16 .big, 2)
  | 0xEF :: 0xBB :: 0xBF :: _ => (.utf8, 3)
  | a :: b :: c :: d :: _ =>
      if a = 0 then (if b = 0 then .utf32 .big else .utf16 .big, 0)
      else if b = 0 then (if c = 0 ∧ d = 0 then .utf32 .little else .utf16 .little, 0)
      else (.utf8, 0)
  | [a, b] =>
      if a = 0 then (.utf16 .big, 0)
      else if b = 0 then (.utf16 .little, 0)
      else (.utf8, 0)
  | _ => (.utf8, 0)

/-! ## §3. Decoding with the place of a fault. -/

/-- Octets that are not a text of the encoding. -/
structure Fault where
  encoding : Encoding
  /-- What is wrong with them. -/
  reason : Text
  /-- Index of the first faulty octet. -/
  start : Nat
  /-- How many octets are faulty. -/
  width : Nat
  /-- The first faulty octet. -/
  first : Nat
  deriving Repr, DecidableEq

/-- What a fault is reported as: a single octet with its value, more than one by their range. -/
def Fault.message (fault : Fault) : Text :=
  let place : Text :=
    if fault.width == 1 then
      "byte 0x" ++ Hexadecimal.lower 2 fault.first ++ " in position " ++ Decimal.ofNat fault.start
    else
      "bytes in position " ++ Decimal.ofNat fault.start ++ "-"
        ++ Decimal.ofNat (fault.start + fault.width - 1)
  "'" ++ fault.encoding.name ++ "' codec can't decode " ++ place ++ ": " ++ fault.reason

/-- The reason a UTF-8 fault is reported with. -/
def utf8Reason : Utf8.Reason → Text
  | .invalidStart => "invalid start byte"
  | .invalidContinuation => "invalid continuation byte"
  | .unexpectedEnd => "unexpected end of data"

/-- The reason a UTF-32 fault is reported with. -/
def utf32Reason : Utf32.Reason → Text
  | .outOfRange => "code point not in range(0x110000)"
  | .truncated => "truncated data"

/-- The text of octets in a known encoding, `before` octets of a mark having been read. -/
def decode (encoding : Encoding) (before : Nat) (octets : Octets) : Except Fault Text :=
  let at_ (rest : Octets) : Nat := before + octets.length - rest.length
  match encoding with
  | .utf8 =>
      (Utf8.decode true octets).mapError fun fault =>
        ⟨encoding, utf8Reason fault.reason, octets.length - fault.rest.length, fault.width,
          fault.rest.headD 0⟩
  | .utf16 order =>
      (Utf16.decode order octets).mapError fun fault =>
        ⟨encoding, "truncated data", at_ fault.rest, fault.rest.length, fault.rest.headD 0⟩
  | .utf32 order =>
      (Utf32.decode order octets).mapError fun fault =>
        ⟨encoding, utf32Reason fault.reason, at_ fault.rest, min 4 fault.rest.length,
          fault.rest.headD 0⟩

/-- The text of a payload, its byte order mark dropped. -/
def decodeDetected (octets : Octets) : Except Fault Text :=
  let (encoding, mark) := detect octets
  decode encoding mark (octets.drop mark)

end Encoding

/-! ## §4. What the strict encoder reports. -/

namespace Utf8

/-- What the strict encoder reports of surrogates it has no form for. -/
def Unencodable.message (fault : Unencodable) : Text :=
  let place : Text :=
    if fault.width == 1 then
      "character '\\u" ++ Hexadecimal.lower 4 fault.first ++ "' in position "
        ++ Decimal.ofNat fault.start
    else
      "characters in position " ++ Decimal.ofNat fault.start ++ "-"
        ++ Decimal.ofNat (fault.start + fault.width - 1)
  "'utf-8' codec can't encode " ++ place ++ ": surrogates not allowed"

end Utf8

end EditorWire
