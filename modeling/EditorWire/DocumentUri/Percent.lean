/-
  EditorWire.DocumentUri.Percent — percent-coding of a path.

  A path is written as its UTF-8 octets: those of the unreserved characters and
  of the slash as they are, every other one as a percent sign and two upper-case
  hexadecimal digits.  Reading takes digits of either case and passes every
  other code point on as its own UTF-8 octets.
-/
import EditorWire.Number.Decimal
import EditorWire.Text.Utf8

namespace EditorWire.Percent

/-- The octets written as they are: `A-Z a-z 0-9 - . _ ~ /`. -/
def isSafe (b : Nat) : Bool :=
  CodePoint.isLetter b || CodePoint.isDigit b || b == Ascii.hyphen || b == Ascii.dot
    || b == 0x5F || b == 0x7E || b == Ascii.slash

/-- The written form of an octet. -/
def encodeOctet (b : Nat) : Text :=
  if isSafe b then [b] else Ascii.percent :: Hexadecimal.upperOctet b

/-- The written form of octets. -/
def encodeOctets (b : Octets) : Text := b.flatMap encodeOctet

/-- The written form of a path. -/
def encode (t : Text) : Text := encodeOctets (Utf8.encode t)

/-- The octets of a written path; none if a percent sign is not followed by two hexadecimal
digits. -/
def decode? : Text → Option Octets
  | [] => some []
  | c :: r =>
      if c = Ascii.percent then
        match r with
        | a :: b :: r' =>
            match CodePoint.hexValue? a, CodePoint.hexValue? b with
            | some high, some low => (decode? r').map ((high * 16 + low) :: ·)
            | _, _ => none
        | _ => none
      else (decode? r).map (Utf8.encodePoint c ++ ·)

theorem decode?_cons_of_ne {c : Nat} (h : c ≠ Ascii.percent) (r : Text) :
    decode? (c :: r) = (decode? r).map (Utf8.encodePoint c ++ ·) := by
  rw [decode?.eq_def]
  simp only [if_neg h]

/-- A written octet is read back, whatever follows. -/
theorem decode?_encodeOctet_append {b : Nat} (h : b < 256) (r : Text) :
    decode? (encodeOctet b ++ r) = (decode? r).map (b :: ·) := by
  unfold encodeOctet
  split
  · next hs =>
    have hlt : b < 0x80 := by
      simp only [isSafe, CodePoint.isLetter, CodePoint.isUpper, CodePoint.isLower,
        CodePoint.isDigit, Bool.or_eq_true, Bool.and_eq_true, decide_eq_true_eq,
        beq_iff_eq, Ascii.hyphen, Ascii.dot, Ascii.slash] at hs
      omega
    have hne : b ≠ Ascii.percent := by
      rintro rfl
      exact absurd hs (by decide)
    rw [List.singleton_append, decode?_cons_of_ne hne]
    simp [Utf8.encodePoint, hlt]
  · simp only [Hexadecimal.upperOctet, List.cons_append, List.nil_append, decode?, if_true]
    rw [CodePoint.hexValue?_upperHexDigit (by omega), CodePoint.hexValue?_upperHexDigit (by omega)]
    simp only [Nat.div_add_mod']

/-- Written octets are read back. -/
theorem decode?_encodeOctets {b : Octets} (h : ∀ x ∈ b, x < 256) :
    decode? (encodeOctets b) = some b := by
  induction b with
  | nil => rfl
  | cons x r ih =>
    have hx := h x (by simp)
    have hr := ih fun y hy => h y (by simp [hy])
    simp only [encodeOctets, List.flatMap_cons] at hr ⊢
    rw [decode?_encodeOctet_append hx, hr]
    rfl

end EditorWire.Percent
