import Mathlib.Algebra.Group.Int.Defs
import Mathlib.Algebra.GroupWithZero.Nat
import Mathlib.Data.List.Basic

/-!
# Text with byte offsets

A text is a list of characters.  Offsets count UTF-8 bytes, as the offsets of
a Rust `str` do, so slicing at an offset that is not on a character boundary
is a panic and not a value.  Searching, splitting and replacing are structural
over the characters, so they evaluate.
-/

namespace Fuse.Foundation

open List

abbrev Str := List Char

instance : Coe String Str := ⟨String.toList⟩

instance : LawfulBEq Str := inferInstanceAs (LawfulBEq (List Char))

inductive Panic where
  | notCharBoundary
  | indexOutOfBounds
  | unwrapOnNone
  | arithmeticOverflow
  | sliceOrder
  deriving DecidableEq, Repr

inductive Failure where
  | panic (reason : Panic)
  | error (message : Str)
  deriving DecidableEq, Repr

abbrev Fallible := Except Failure

theorem mapM_congr_mem {m : Type → Type} [Monad m] [LawfulMonad m] {α β : Type}
    {f g : α → m β}
    {as : List α} (h : ∀ a ∈ as, f a = g a) : as.mapM f = as.mapM g := by
  induction as with
  | nil => rfl
  | cons a as ih => simp_all

namespace Fallible

variable {α : Type}

def panic (reason : Panic) : Fallible α := .error (.panic reason)

def fail (message : Str) : Fallible α := .error (.error message)

def catchError : Fallible α → Fallible (Except Str α)
  | .ok a => .ok (.ok a)
  | .error (.error m) => .ok (.error m)
  | .error (.panic r) => .error (.panic r)

variable {x : Fallible α} {β : Type} {f : α → Fallible β} {as : List α}
  {bs : List β}

theorem of_catchError_ok {a : α} (h : catchError x = .ok (.ok a)) :
    x = .ok a := by
  cases x with
  | ok b =>
    cases h
    rfl
  | error e => cases e <;> cases h

def orElse (x : Fallible α) (fallback : α) : Fallible α :=
  match x with
  | .error (.error _) => .ok fallback
  | _ => x

def toOption : Fallible α → Fallible (Option α)
  | .ok a => .ok (some a)
  | .error (.error _) => .ok none
  | .error (.panic r) => .error (.panic r)

theorem bind_eq_ok {b : β} :
    (x >>= f) = .ok b ↔ ∃ a, x = .ok a ∧ f a = .ok b := by
  cases x <;> simp [bind, Except.bind]

theorem map_eq_ok {f : α → β} {b : β} :
    f <$> x = .ok b ↔ ∃ a, x = .ok a ∧ f a = b := by
  cases x <;> simp [Functor.map, Except.map]

theorem mapM_eq_ok_iff :
    as.mapM f = .ok bs ↔ List.Forall₂ (fun a b => f a = .ok b) as bs := by
  induction as generalizing bs with
  | nil => exact ⟨fun h => by cases h; exact .nil, fun h => by cases h; rfl⟩
  | cons a as ih =>
    rw [mapM_cons, bind_eq_ok]
    constructor
    · rintro ⟨b, hb, h⟩
      obtain ⟨rest, hrest, h⟩ := bind_eq_ok.mp h
      cases h
      exact .cons hb (ih.mp hrest)
    · rintro (_ | ⟨hb, hrest⟩)
      exact ⟨_, hb, bind_eq_ok.mpr ⟨_, ih.mpr hrest, rfl⟩⟩

theorem mem_of_mapM_ok (h : as.mapM f = .ok bs) :
    ∀ b ∈ bs, ∃ a ∈ as, f a = .ok b := by
  induction mapM_eq_ok_iff.mp h with
  | nil => simp
  | cons hb hrest ih =>
    simpa [hb] using fun b hmem => .inr (ih (mapM_eq_ok_iff.mpr hrest) b hmem)

theorem ok_of_mapM_ok (h : as.mapM f = .ok bs) :
    ∀ a ∈ as, ∃ b ∈ bs, f a = .ok b := by
  induction mapM_eq_ok_iff.mp h with
  | nil => simp
  | cons hb hrest ih =>
    simpa [hb] using fun a hmem => .inr (ih (mapM_eq_ok_iff.mpr hrest) a hmem)

theorem mapM_eq_ok_map {g : α → β} (h : ∀ a ∈ as, f a = .ok (g a)) :
    as.mapM f = .ok (as.map g) :=
  (mapM_congr_mem h).trans mapM_pure

theorem exists_mapM_ok (h : ∀ a ∈ as, ∃ b, f a = .ok b) :
    ∃ bs, as.mapM f = .ok bs := by
  induction as with
  | nil => exact ⟨[], rfl⟩
  | cons a as ih =>
    obtain ⟨b, hb⟩ := h a mem_cons_self
    obtain ⟨bs, hbs⟩ := ih fun x hx => h x (mem_cons_of_mem a hx)
    exact ⟨b :: bs, by rw [mapM_cons, hb, hbs]; rfl⟩

end Fallible

namespace Str

def byteLen (s : Str) : Nat := (s.map Char.utf8Size).sum

/-- The two halves of `s` around a byte offset, when it is a boundary. -/
def splitAtByte : Nat → Str → Option (Str × Str)
  | 0, s => some ([], s)
  | _ + 1, [] => none
  | n + 1, c :: s =>
    if c.utf8Size ≤ n + 1 then
      (splitAtByte (n + 1 - c.utf8Size) s).map fun (a, b) => (c :: a, b)
    else none

def sliceFrom (s : Str) (start : Nat) : Fallible Str :=
  match splitAtByte start s with
  | some (_, tail) => .ok tail
  | none => Fallible.panic .notCharBoundary

def sliceTo (s : Str) (stop : Nat) : Fallible Str :=
  match splitAtByte stop s with
  | some (head, _) => .ok head
  | none => Fallible.panic .notCharBoundary

def slice (s : Str) (start stop : Nat) : Fallible Str :=
  match splitAtByte stop s with
  | some (head, _) => sliceFrom head start
  | none => Fallible.panic .notCharBoundary

/-- Byte offset of the first occurrence of `pattern`. -/
def find (pattern : Str) : Str → Option Nat
  | [] => if pattern = [] then some 0 else none
  | c :: s =>
    if pattern.isPrefixOf (c :: s) then some 0
    else (find pattern s).map (· + c.utf8Size)

def findChar (p : Char → Bool) : Str → Option Nat
  | [] => none
  | c :: s => if p c then some 0 else (findChar p s).map (· + c.utf8Size)

/-- Byte offset of the last occurrence of a non-empty `pattern`. -/
def rfind (pattern : Str) : Str → Option Nat
  | [] => none
  | c :: s =>
    match rfind pattern s with
    | some i => some (i + c.utf8Size)
    | none => if pattern.isPrefixOf (c :: s) then some 0 else none

def contains (pattern s : Str) : Bool := (find pattern s).isSome

def startsWith (pattern s : Str) : Bool := pattern.isPrefixOf s

def endsWith (pattern s : Str) : Bool := pattern.isSuffixOf s

def eqIgnoreAsciiCase (s t : Str) : Bool :=
  s.map Char.toLower == t.map Char.toLower

def stripStart (pattern s : Str) : Option Str := s.dropPrefix? pattern

def charIndices (s : Str) : List (Nat × Char) := go 0 s
where
  go : Nat → Str → List (Nat × Char)
    | _, [] => []
    | offset, c :: s => (offset, c) :: go (offset + c.utf8Size) s

/--
Offsets at which `pattern` occurs when the search resumes `step` characters
after each hit.  With `step` the length of an ASCII pattern these are the hits
of a loop that sets its position to the end of the last match.
-/
def matchIndices (pattern : Str) (step : Nat) (s : Str) : List Nat := go 0 0 s
where
  go : Nat → Nat → Str → List Nat
    | _, _, [] => []
    | skip + 1, offset, c :: s => go skip (offset + c.utf8Size) s
    | 0, offset, c :: s =>
      if pattern.isPrefixOf (c :: s) then
        offset :: go (step - 1) (offset + c.utf8Size) s
      else go 0 (offset + c.utf8Size) s

def replace (pattern replacement s : Str) : Str := go 0 s
where
  go : Nat → Str → Str
    | _, [] => []
    | skip + 1, _ :: s => go skip s
    | 0, c :: s =>
      if pattern.isPrefixOf (c :: s) then
        replacement ++ go (pattern.length - 1) s
      else c :: go 0 s

theorem replace_singleton (c : Char) (r s : Str) :
    replace [c] r s = s.flatMap fun x => if x = c then r else [x] := by
  induction s with
  | nil => rfl
  | cons x s ih =>
    have hstep : replace [c] r (x :: s) =
        if ([c] : Str).isPrefixOf (x :: s) then r ++ replace [c] r s
        else x :: replace [c] r s := rfl
    have hstarts : ([c] : Str).isPrefixOf (x :: s) = decide (x = c) := by
      rw [Bool.eq_iff_iff, isPrefixOf_iff_prefix, decide_eq_true_iff,
        cons_prefix_cons]
      simp [eq_comm]
    rw [hstep, ih, flatMap_cons, hstarts]
    by_cases hx : x = c <;> simp [hx]

/-- The Unicode `White_Space` property. -/
def isWhitespace (c : Char) : Bool :=
  let n := c.toNat
  (9 ≤ n && n ≤ 13) || n == 32 || n == 0x85 || n == 0xA0 || n == 0x1680 ||
    (0x2000 ≤ n && n ≤ 0x200A) || n == 0x2028 || n == 0x2029 ||
    n == 0x202F || n == 0x205F || n == 0x3000

def isAsciiWhitespace (c : Char) : Bool :=
  c == ' ' || c == '\t' || c == '\n' || c == '\x0C' || c == '\r'

def trimStart (s : Str) : Str := s.dropWhile isWhitespace

def trimEnd (s : Str) : Str := (s.reverse.dropWhile isWhitespace).reverse

def trim (s : Str) : Str := trimEnd (trimStart s)

def trimMatches (p : Char → Bool) (s : Str) : Str :=
  ((s.dropWhile p).reverse.dropWhile p).reverse

def splitBy (p : Char → Bool) (s : Str) : List Str := s.splitOnP p

def splitWhitespace (s : Str) : List Str :=
  (s.splitOnP isWhitespace).filter (· ≠ [])

def splitOnce (pattern s : Str) : Option (Str × Str) :=
  match s with
  | [] => if pattern = [] then some ([], []) else none
  | c :: s =>
    match (c :: s).dropPrefix? pattern with
    | some tail => some ([], tail)
    | none => (splitOnce pattern s).map fun (a, b) => (c :: a, b)

def splitLast (pattern : Str) : Str → Option (Str × Str)
  | [] => none
  | c :: s =>
    match splitLast pattern s with
    | some (a, b) => some (c :: a, b)
    | none => ((c :: s).dropPrefix? pattern).map fun tail => ([], tail)

def lastPart (p : Char → Bool) (s : Str) : Str :=
  (s.reverse.takeWhile (!p ·)).reverse

def joinWith (separator : Str) (parts : List Str) : Str :=
  separator.intercalate parts

theorem joinWith_cons (separator part : Str) (parts : List Str) :
    joinWith separator (part :: parts) = part ++
    parts.flatMap (separator ++ ·) := by
  induction parts generalizing part with
  | nil =>
    rw [joinWith, intercalate_singleton]
    exact (append_nil _).symm
  | cons next parts ih =>
    rw [joinWith, intercalate_cons_cons]
    change part ++ separator ++ joinWith separator (next :: parts) = _
    rw [ih next, flatMap_cons, append_assoc, append_assoc]

def parseDigits (s : Str) : Option Nat :=
  if s ≠ [] ∧ s.all Char.isDigit then
    some (s.foldl (fun n c => 10 * n + (c.toNat - '0'.toNat)) 0)
  else none

/-- Parse an unsigned integer below `2 ^ width`, with an optional `+`. -/
def parseUnsigned (width : Nat) (s : Str) : Option Nat := do
  let digits := match s with
    | '+' :: rest => rest
    | _ => s
  let n ← parseDigits digits
  if n < 2 ^ width then some n else none

def parseI64 (s : Str) : Option Int64 := do
  let (negative, digits) := match s with
    | '+' :: rest => (false, rest)
    | '-' :: rest => (true, rest)
    | _ => (false, s)
  let n ← parseDigits digits
  let i : Int := if negative then -n else n
  if -2 ^ 63 ≤ i ∧ i < 2 ^ 63 then some (Int64.ofInt i) else none

def ofNat (n : Nat) : Str := Nat.toDigits 10 n

def ofInt (i : Int) : Str :=
  if i < 0 then '-' :: ofNat i.natAbs else ofNat i.natAbs

theorem parseDigits_ofNat (n : Nat) : parseDigits (ofNat n) = some n := by
  have hdigits : (ofNat n).all Char.isDigit = true := by
    rw [all_eq_true]
    exact fun c hc => Nat.isDigit_of_mem_toDigits (by decide) (by decide) hc
  rw [parseDigits, if_pos ⟨Nat.toDigits_ne_nil, hdigits⟩]
  exact congrArg some (Nat.ofDigitChars_toDigits (by decide) (by decide))

theorem ofNat_ne_cons {c : Char} (hc : c.isDigit = false) (n : Nat)
    (rest : Str) : ofNat n ≠ c :: rest := by
  intro heq
  have hmem : c ∈ ofNat n := heq ▸ mem_cons_self
  have hdigit := Nat.isDigit_of_mem_toDigits (by decide) (by decide) hmem
  rw [hc] at hdigit
  cases hdigit

theorem parseUnsigned_ofNat {width n : Nat} (h : n < 2 ^ width) :
    parseUnsigned width (ofNat n) = some n := by
  have hplain : (match ofNat n with
      | '+' :: rest => rest
      | _ => ofNat n) = ofNat n := by
    split
    · next rest heq => exact absurd heq (ofNat_ne_cons (by decide) n rest)
    · rfl
  simp only [parseUnsigned, hplain, parseDigits_ofNat, bind, Option.bind,
    if_pos h]

theorem parseI64_unsigned {s : Str} (hplus : ∀ rest, s ≠ '+' :: rest)
    (hminus : ∀ rest, s ≠ '-' :: rest) :
    parseI64 s = (parseDigits s).bind fun n =>
      if -2 ^ 63 ≤ (n : Int) ∧ (n : Int) < 2 ^ 63 then
        some (Int64.ofInt (n : Int))
      else none := by
  unfold parseI64
  split
  next negative digits heq =>
    split at heq
    · exact absurd rfl (hplus _)
    · exact absurd rfl (hminus _)
    · cases heq
      rfl

theorem parseI64_ofInt {i : Int} (h : -2 ^ 63 ≤ i ∧ i < 2 ^ 63) :
    parseI64 (ofInt i) = some (Int64.ofInt i) := by
  by_cases hneg : i < 0
  · have htext : ofInt i = '-' :: ofNat i.natAbs := if_pos hneg
    have hi : -(i.natAbs : Int) = i := by omega
    rw [htext]
    change (parseDigits (ofNat i.natAbs)).bind _ = _
    rw [parseDigits_ofNat]
    change (if -2 ^ 63 ≤ -(i.natAbs : Int) ∧ -(i.natAbs : Int) < 2 ^ 63 then
      some (Int64.ofInt (-(i.natAbs : Int))) else none) = _
    rw [hi, if_pos h]
  · have htext : ofInt i = ofNat i.natAbs := if_neg hneg
    have hi : (i.natAbs : Int) = i := by omega
    rw [htext, parseI64_unsigned (fun rest => ofNat_ne_cons (by decide) _ rest)
      (fun rest => ofNat_ne_cons (by decide) _ rest), parseDigits_ofNat,
      Option.bind_some, hi, if_pos h]

theorem ofNat_injective : Function.Injective ofNat := by
  intro m n h
  have := congrArg parseDigits h
  rwa [parseDigits_ofNat, parseDigits_ofNat, Option.some.injEq] at this

theorem ofInt_injective : Function.Injective ofInt := by
  intro i j h
  unfold ofInt at h
  split at h <;> split at h
  · have := ofNat_injective (List.cons.inj h).2
    omega
  · exact absurd h.symm (ofNat_ne_cons (by decide) _ _)
  · exact absurd h (ofNat_ne_cons (by decide) _ _)
  · have := ofNat_injective h
    omega

theorem forall_ascii {P : Char → Prop} (h : ∀ n, n < 128 → P (Char.ofNat n))
    (c : Char) (hc : c.toNat < 128) : P c := by
  have hnat := h c.toNat hc
  rwa [Char.ofNat_toNat] at hnat

theorem ascii_of_all {s : Str} (h : s.all (·.toNat < 128) = true) :
    ∀ c ∈ s, c.toNat < 128 := by
  intro c hc
  simpa using all_eq_true.mp h c hc

theorem isAlphanum_lt {c : Char} (h : c.isAlphanum = true) : c.toNat < 128 := by
  delta Char.isAlphanum Char.isAlpha Char.isUpper Char.isLower Char.isDigit at h
  simp only [Bool.or_eq_true, Bool.and_eq_true, decide_eq_true_eq,
    UInt32.le_iff_toNat_le, ge_iff_le] at h
  have hnat : c.toNat = c.val.toNat := rfl
  have hupper : 'Z'.val.toNat = 90 := rfl
  have hlower : 'z'.val.toNat = 122 := rfl
  have hdigit : '9'.val.toNat = 57 := rfl
  omega

end Str

/--
The case mapping and character classes of the Unicode tables.  Lower-casing
may change the byte length of a text; only its effect on ASCII is fixed here.
-/
class Unicode where
  toLowercase : Str → Str
  isAlphanumeric : Char → Bool
  isAlphabetic : Char → Bool
  toLowercase_ascii : ∀ s : Str, (∀ c ∈ s, c.toNat < 128) →
    toLowercase s = s.map Char.toLower
  isAlphanumeric_ascii : ∀ c : Char, c.toNat < 128 →
    isAlphanumeric c = c.isAlphanum
  isAlphabetic_ascii : ∀ c : Char, c.toNat < 128 → isAlphabetic c = c.isAlpha

export Unicode (toLowercase)

theorem Unicode.toLowercase_of_all [Unicode] {s : Str}
    (h : s.all (·.toNat < 128) = true) : toLowercase s = s.map Char.toLower :=
  Unicode.toLowercase_ascii s (Str.ascii_of_all h)

@[reducible] def unicodeLowering (lower : Str → Str)
    (h : ∀ s : Str, (∀ c ∈ s, c.toNat < 128) → lower s = s.map Char.toLower) :
    Unicode where
  toLowercase := lower
  isAlphanumeric := Char.isAlphanum
  isAlphabetic := Char.isAlpha
  toLowercase_ascii := h
  isAlphanumeric_ascii _ _ := rfl
  isAlphabetic_ascii _ _ := rfl

@[reducible] def asciiUnicode : Unicode :=
  unicodeLowering (·.map Char.toLower) fun _ _ => rfl

end Fuse.Foundation
