/-
  EditorWire.DocumentUri.Path — paths of documents.

  A path has slashes between its segments and is rooted, in one of two ways:

      c:…     at a drive, whose letter is lower case
      /…      at a slash, and not at a slash and a drive

  `normalize` brings every path into that form and leaves it alone afterwards.
-/
import EditorWire.Text.CodePoint

namespace EditorWire

/-! ## §1. Styles of local paths. -/

/-- The separator convention of a local path. -/
inductive PathStyle where
  /-- Segments are separated by slashes. -/
  | posix
  /-- Segments are separated by backslashes and by slashes. -/
  | windows
  deriving Repr, DecidableEq

namespace PathStyle

/-- The name of a style. -/
def name : PathStyle → Text
  | .posix => "posix"
  | .windows => "windows"

/-- The style of a name. -/
def ofName? (t : Text) : Option PathStyle := [PathStyle.posix, .windows].find? (·.name == t)

/-- The style of the machine the program runs on. -/
def host : PathStyle := .posix

/-- The path with a slash for every separator of the style. -/
def toSlash (style : PathStyle) (t : Text) : Text :=
  match style with
  | .posix => t
  | .windows => t.map fun c => if c = Ascii.backslash then Ascii.slash else c

/-- The path with the separator of the style for every slash. -/
def fromSlash (style : PathStyle) (t : Text) : Text :=
  match style with
  | .posix => t
  | .windows => t.map fun c => if c = Ascii.slash then Ascii.backslash else c

end PathStyle

/-! ## §2. The normal form. -/

namespace Path

/-- The path starts with a letter and a colon. -/
def startsWithDrive : Text → Bool
  | c :: Ascii.colon :: _ => CodePoint.isLetter c
  | _ => false

/-- The path is rooted at a lower-case drive, or at a slash that no drive follows. -/
def IsNormal : Text → Prop
  | [] => False
  | c :: r =>
      (CodePoint.isLower c = true ∧ r.head? = some Ascii.colon)
        ∨ (c = Ascii.slash ∧ startsWithDrive r = false)

/-- The path without a slash in front of its drive. -/
def unroot : Text → Text
  | [] => []
  | c :: r => if c = Ascii.slash ∧ startsWithDrive r = true then r else c :: r

theorem unroot_cons (c : Nat) (r : Text) :
    unroot (c :: r) = if c = Ascii.slash ∧ startsWithDrive r = true then r else c :: r := rfl

/-- The path with its first letter in lower case. -/
def lowerHead : Text → Text
  | [] => []
  | c :: r => CodePoint.toLower c :: r

/-- The normal form of a path. -/
def normalize (p : Text) : Text :=
  let q := unroot p
  if startsWithDrive q then lowerHead q
  else if q.head? = some Ascii.slash then q
  else Ascii.slash :: q

theorem startsWithDrive_iff {p : Text} :
    startsWithDrive p = true ↔
      ∃ c r, p = c :: Ascii.colon :: r ∧ CodePoint.isLetter c = true := by
  match p with
  | [] => simp [startsWithDrive]
  | [c] => simp [startsWithDrive]
  | c :: d :: r =>
    by_cases h : d = Ascii.colon
    · subst h; simp [startsWithDrive]
    · have : startsWithDrive (c :: d :: r) = false := by
        unfold startsWithDrive; split
        · next heq => simp only [List.cons.injEq] at heq; exact absurd heq.2.1 h
        · rfl
      simp [this, h]

theorem isLower_toLower {c : Nat} (h : CodePoint.isLetter c = true) :
    CodePoint.isLower (CodePoint.toLower c) = true := by
  simp only [CodePoint.isLetter, CodePoint.isUpper, CodePoint.isLower, CodePoint.toLower,
    Bool.or_eq_true, Bool.and_eq_true, decide_eq_true_eq] at h ⊢
  split <;> omega

/-- What `normalize` gives is normal. -/
theorem isNormal_normalize (p : Text) : IsNormal (normalize p) := by
  unfold normalize
  simp only
  split
  · next h =>
    obtain ⟨c, r, hp, hc⟩ := startsWithDrive_iff.1 h
    rw [hp]
    exact .inl ⟨isLower_toLower hc, rfl⟩
  · next hd =>
    split
    · next hs =>
      match p with
      | [] => simp [unroot] at hs
      | c :: r =>
        by_cases hcr : c = Ascii.slash ∧ startsWithDrive r = true
        · simp [unroot, hcr] at hd
        · rw [unroot_cons, if_neg hcr] at hs ⊢
          simp only [List.head?_cons, Option.some.injEq] at hs
          subst hs
          exact .inr ⟨rfl, by simpa using hcr⟩
    · exact .inr ⟨rfl, by simpa using hd⟩

/-- A normal path is its own normal form. -/
theorem normalize_eq_self {p : Text} (h : IsNormal p) : normalize p = p := by
  match p with
  | [] => exact absurd h id
  | c :: r =>
    rcases h with ⟨hc, hr⟩ | ⟨rfl, hr⟩
    · match r with
      | [] => simp at hr
      | d :: r =>
        simp only [List.head?_cons, Option.some.injEq] at hr
        subst hr
        have hslash : c ≠ Ascii.slash := by rintro rfl; exact absurd hc (by decide)
        have hup : CodePoint.isUpper c = false := by
          simp only [CodePoint.isLower, CodePoint.isUpper, Bool.and_eq_true,
            decide_eq_true_eq, Bool.and_eq_false_iff, decide_eq_false_iff_not] at hc ⊢
          omega
        simp [normalize, unroot, hslash, startsWithDrive, CodePoint.isLetter, hc, lowerHead,
          CodePoint.toLower, hup]
    · have : startsWithDrive (Ascii.slash :: r) = false := by
        rw [Bool.eq_false_iff]
        intro hs
        obtain ⟨c, r', heq, hc⟩ := startsWithDrive_iff.1 hs
        simp only [List.cons.injEq] at heq
        rw [← heq.1] at hc
        exact absurd hc (by decide)
      simp [normalize, unroot, hr, this]

/-- The normal form of a text of scalar values is one. -/
theorem isScalar_normalize {p : Text} (h : Text.IsScalar p) : Text.IsScalar (normalize p) := by
  have hslash : IsScalar Ascii.slash := by decide
  have hunroot : Text.IsScalar (unroot p) := by
    match p with
    | [] => exact h
    | c :: r =>
      rw [unroot_cons]
      split
      · exact fun x hx => h x (List.mem_cons_of_mem c hx)
      · exact h
  unfold normalize
  simp only
  split
  · next hd =>
    obtain ⟨c, r, hp, hc⟩ := startsWithDrive_iff.1 hd
    rw [hp] at hunroot ⊢
    intro x hx
    simp only [lowerHead, List.mem_cons] at hx
    rcases hx with rfl | hx
    · have := isLower_toLower hc
      simp only [CodePoint.isLower, Bool.and_eq_true, decide_eq_true_eq] at this
      exact .inl (by omega)
    · exact hunroot x (by simp only [List.mem_cons]; exact .inr hx)
  · split
    · exact hunroot
    · intro x hx
      simp only [List.mem_cons] at hx
      rcases hx with rfl | hx
      · exact hslash
      · exact hunroot x hx

/-! ## §3. Parts of a path. -/

/-- The last segment of a path. -/
def lastSegment (p : Text) : Text := (p.reverse.takeWhile (· != Ascii.slash)).reverse

/-- The extension of the last segment: from its last dot on, dots at its beginning not counted. -/
def extension (p : Text) : Text :=
  let name := (lastSegment p).dropWhile (· == Ascii.dot)
  if name.contains Ascii.dot then
    Ascii.dot :: (name.reverse.takeWhile (· != Ascii.dot)).reverse
  else []

/-- The path without empty segments and segments of a single dot.  A root of exactly two slashes
is kept, and a path of nothing is a single dot. -/
def collapse (p : Text) : Text :=
  let slashes := (p.takeWhile (· == Ascii.slash)).length
  let root : Text := if slashes = 0 then [] else if slashes = 2 then "//" else "/"
  let segments := (Text.splitOn Ascii.slash p).filter fun s => s != [] && s != [Ascii.dot]
  if root == [] && segments.isEmpty then [Ascii.dot]
  else root ++ Text.joinWith [Ascii.slash] segments

end Path

end EditorWire
