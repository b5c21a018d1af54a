import Fuse.Foundation.Panicking

/-!
# Digits

Numbers in a radix and bytes as two digits each.  Reading a byte text in pairs
slices it at byte offsets, so a character of more than one byte may panic.
-/

namespace Fuse.Foundation

open List

/-- `char::to_digit`. -/
def toDigit (radix : Nat) (c : Char) : Option Nat :=
  let value :=
    if '0' ≤ c ∧ c ≤ '9' then c.toNat - '0'.toNat
    else if 'a' ≤ c ∧ c ≤ 'z' then c.toNat - 'a'.toNat + 10
    else if 'A' ≤ c ∧ c ≤ 'Z' then c.toNat - 'A'.toNat + 10
    else radix
  if value < radix then some value else none

def isRadixDigit (radix : Nat) (c : Char) : Bool := (toDigit radix c).isSome

def digitsValue (radix : Nat) (digits : Str) : Nat :=
  digits.foldl (fun n c => radix * n + (toDigit radix c).getD 0) 0

theorem toDigit_digitChar {radix d : Nat} (hradix : radix < 17)
    (hd : d < radix) : toDigit radix d.digitChar = some d := by
  have hall : ∀ radix < 17, ∀ d < radix,
    toDigit radix d.digitChar = some d := by decide
  exact hall radix hradix d hd

section Numbers

variable {radix : Nat} (hone : 1 < radix) (hradix : radix < 17)

include hone hradix

theorem isRadixDigit_toDigits (n : Nat) :
    ∀ c ∈ Nat.toDigits radix n, isRadixDigit radix c = true := by
  have hdigit : ∀ d < radix, isRadixDigit radix d.digitChar = true := by
    intro d hd
    rw [isRadixDigit, toDigit_digitChar hradix hd]
    rfl
  induction n using Nat.strongRecOn with
  | _ n ih =>
    rw [Nat.toDigits_eq_if hone]
    split
    · next hlt => simpa using hdigit n hlt
    rename_i hle
    have hpos : 0 < n := by omega
    have hsmaller := Nat.div_lt_self hpos hone
    intro c hc
    rcases mem_append.mp hc with hc | hc
    · exact ih _ hsmaller c hc
    · rw [mem_singleton.mp hc]
      exact hdigit _ (Nat.mod_lt n (by omega))

theorem digitsValue_toDigits (n : Nat) :
    digitsValue radix (Nat.toDigits radix n) = n := by
  induction n using Nat.strongRecOn with
  | _ n ih =>
    rw [Nat.toDigits_eq_if hone]
    split
    · next hlt => simp [digitsValue, toDigit_digitChar hradix hlt]
    rename_i hle
    have hpos : 0 < n := by omega
    have hlast : n % radix < radix := Nat.mod_lt n (by omega)
    have hfront := ih _ (Nat.div_lt_self hpos hone)
    rw [digitsValue] at hfront ⊢
    rw [foldl_append, hfront, foldl_cons, foldl_nil,
      toDigit_digitChar hradix hlast]
    exact Nat.div_add_mod n radix

end Numbers

def hexEncode (bytes : List UInt8) : Str := bytes.flatMap fun b =>
    [Nat.digitChar (b.toNat / 16), Nat.digitChar (b.toNat % 16)]

/-- `u8::from_str_radix` in radix 16; a sign may stand before the digits. -/
def parseHexByte (s : Str) : Option UInt8 :=
  let digits := match s with
    | '+' :: rest => rest
    | _ => s
  if digits ≠ [] ∧ digits.all (isRadixDigit 16) ∧ digitsValue 16 digits < 256
  then some (UInt8.ofNat (digitsValue 16 digits))
  else none

def hexPairs : Str → Panicking Unit (List UInt8)
  | [] => pure []
  | [c] =>
    if c.utf8Size = 2 then ofPair [c] (pure [])
    else .panic .notCharBoundary
  | c :: d :: rest =>
    if c.utf8Size = 2 then ofPair [c] (hexPairs (d :: rest))
    else if c.utf8Size = 1 ∧ d.utf8Size = 1 then ofPair [c, d] (hexPairs rest)
    else .panic .notCharBoundary
where
  ofPair (pair : Str) (rest : Panicking Unit (List UInt8)) :
      Panicking Unit (List UInt8) :=
    match parseHexByte pair with
    | none => throw ()
    | some byte => (byte :: ·) <$> rest

def hexDecode (hex : Str) : Panicking Unit (List UInt8) :=
  if hex.byteLen % 2 = 0 then hexPairs hex else throw ()

theorem parseHexByte_encode (b : UInt8) :
    parseHexByte [Nat.digitChar (b.toNat / 16), Nat.digitChar (b.toNat % 16)] =
      some b := by
  have hall : ∀ n < 256, parseHexByte [Nat.digitChar (n / 16),
    Nat.digitChar (n % 16)] = some (UInt8.ofNat n) := by decide +kernel
  rw [hall b.toNat b.toNat_lt, UInt8.ofNat_toNat]

theorem utf8Size_digitChar {d : Nat} (h : d < 16) :
    (Nat.digitChar d).utf8Size = 1 := by
  have hall : ∀ d < 16, (Nat.digitChar d).utf8Size = 1 := by decide
  exact hall d h

theorem byteLen_hexEncode (bytes : List UInt8) :
    (hexEncode bytes).byteLen = 2 * bytes.length := by
  induction bytes with
  | nil => rfl
  | cons b bytes ih =>
    have hb := b.toNat_lt
    have hcons : (hexEncode (b :: bytes)).byteLen =
      (Nat.digitChar (b.toNat / 16)).utf8Size +
          ((Nat.digitChar (b.toNat % 16)).utf8Size +
            (hexEncode bytes).byteLen) := rfl
    rw [hcons, ih, utf8Size_digitChar (by omega), utf8Size_digitChar (by omega),
      length_cons]
    omega

private theorem hexPairs_hexEncode (bytes : List UInt8) :
    hexPairs (hexEncode bytes) = pure bytes := by
  induction bytes with
  | nil => rfl
  | cons b bytes ih =>
    have hb := b.toNat_lt
    have hfirst : (Nat.digitChar (b.toNat / 16)).utf8Size = 1 :=
      utf8Size_digitChar (by omega)
    have hsecond : (Nat.digitChar (b.toNat % 16)).utf8Size = 1 :=
      utf8Size_digitChar (by omega)
    change hexPairs (Nat.digitChar (b.toNat / 16) ::
      Nat.digitChar (b.toNat % 16) :: hexEncode bytes) = _
    rw [hexPairs, if_neg (by omega), if_pos ⟨hfirst, hsecond⟩, ih,
      hexPairs.ofPair, parseHexByte_encode]
    rfl

theorem hexDecode_hexEncode (bytes : List UInt8) :
    hexDecode (hexEncode bytes) = pure bytes := by
  rw [hexDecode, if_pos (by rw [byteLen_hexEncode]; omega), hexPairs_hexEncode]

end Fuse.Foundation
