import Fuse.Foundation.Descent
import Fuse.Foundation.Radix
import Mathlib.Data.List.TakeWhile

/-!
# Texts of IP addresses

The reader of the standard library (`IpAddr::from_str`) and the texts a URL is
written with: dotted decimals, and groups of hexadecimal digits of which one run
of zeros may be left out.  An address is read back from its text.
-/

namespace Fuse.Foundation

open Parse List

structure Ipv4Addr where
  a : UInt8
  b : UInt8
  c : UInt8
  d : UInt8
  deriving DecidableEq, Repr

structure Ipv6Addr where
  segments : List UInt16
  length_eq : segments.length = 8
  deriving DecidableEq, Repr

inductive IpAddr where
  | v4 (addr : Ipv4Addr)
  | v6 (addr : Ipv6Addr)
  deriving DecidableEq, Repr

section Ranges

variable (v4 : Ipv4Addr)

def Ipv4Addr.isLoopback : Bool := v4.a == 127

def Ipv4Addr.isPrivate : Bool :=
  v4.a == 10 || (v4.a == 172 && 16 ≤ v4.b && v4.b ≤ 31) ||
    (v4.a == 192 && v4.b == 168)

def Ipv4Addr.isLinkLocal : Bool := v4.a == 169 && v4.b == 254

def Ipv4Addr.isUnspecified : Bool := v4 == ⟨0, 0, 0, 0⟩

def Ipv4Addr.isBroadcast : Bool := v4 == ⟨255, 255, 255, 255⟩

variable (v6 : Ipv6Addr)

def Ipv6Addr.isLoopback : Bool := v6.segments == [0, 0, 0, 0, 0, 0, 0, 1]

def Ipv6Addr.isUnspecified : Bool := v6.segments == [0, 0, 0, 0, 0, 0, 0, 0]

/-- `fc00::/7`. -/
def Ipv6Addr.isUniqueLocal : Bool := v6.segments.headD 0 &&& 0xfe00 == 0xfc00

/-- `fe80::/10`. -/
def Ipv6Addr.isUnicastLinkLocal : Bool :=
  v6.segments.headD 0 &&& 0xffc0 == 0xfe80

/-- `::ffff:a.b.c.d`. -/
def Ipv6Addr.toIpv4Mapped : Option Ipv4Addr :=
  match v6.segments with
  | [0, 0, 0, 0, 0, 0xffff, ab, cd] =>
    some ⟨(ab >>> 8).toUInt8, ab.toUInt8, (cd >>> 8).toUInt8, cd.toUInt8⟩
  | _ => none

end Ranges

/-- A number below `bound`, with at most so many digits. -/
def readNumber (radix maxDigits : Nat) (zeroPrefix : Bool) (bound : Nat) :
    Parse Char Nat := fun s =>
  let digits := s.takeWhile (isRadixDigit radix)
  if digits = [] ∨ maxDigits < digits.length then none
  else if !zeroPrefix && digits.head? = some '0' && 1 < digits.length then none
  else if digitsValue radix digits < bound then
    some (digitsValue radix digits, s.dropWhile (isRadixDigit radix))
  else none

def readOctet : Parse Char UInt8 := UInt8.ofNat <$> readNumber 10 3 false 256

def readGroup : Parse Char UInt16 := UInt16.ofNat <$> readNumber 16 4 true 65536

def readIpv4 : Parse Char Ipv4Addr := do
  let a ← readOctet
  let b ← readOctet.after ['.']
  let c ← readOctet.after ['.']
  let d ← readOctet.after ['.']
  return ⟨a, b, c, d⟩

def Ipv4Addr.groups (v4 : Ipv4Addr) : List UInt16 :=
  [v4.a.toUInt16 * 256 + v4.b.toUInt16, v4.c.toUInt16 * 256 + v4.d.toUInt16]

def behindColon {α : Type} (first : Bool) (p : Parse Char α) : Parse Char α :=
  if first then p else p.after [':']

/-- As many groups as there are, up to a number; an IPv4 address may take the
place of the last two of them, and ends the groups. -/
def readGroups : Nat → Bool → Str → (List UInt16 × Bool) × Str
  | 0, _, s => (([], false), s)
  | left + 1, first, s =>
    match if 0 < left then (behindColon first readIpv4).run s else none with
    | some (v4, s) => ((v4.groups, true), s)
    | none =>
      match (behindColon first readGroup).run s with
      | none => (([], false), s)
      | some (group, s) =>
        let ((groups, v4), s) := readGroups left false s
        ((group :: groups, v4), s)

def Ipv6Addr.ofParts (head tail : List UInt16) : Option Ipv6Addr :=
  let segments :=
    head ++ replicate (8 - head.length - tail.length) 0 ++ tail
  if h : segments.length = 8 then some ⟨segments, h⟩ else none

def readIpv6 : Parse Char Ipv6Addr := fun s =>
  let ((head, v4), s) := readGroups 8 true s
  if head.length = 8 then (·, s) <$> Ipv6Addr.ofParts head []
  else if v4 then none
  else do
    let (_, s) ← (expect [':', ':']).run s
    let ((tail, _), s) := readGroups (8 - (head.length + 1)) true s
    return (← Ipv6Addr.ofParts head tail, s)

def parseIpAddr (s : Str) : Option IpAddr :=
  match readIpv4.run s with
  | some (addr, rest) => if rest.isEmpty then some (.v4 addr) else none
  | none =>
    match readIpv6.run s with
    | some (addr, rest) => if rest.isEmpty then some (.v6 addr) else none
    | none => none

def Ipv4Addr.text (v4 : Ipv4Addr) : Str :=
  Str.joinWith "." ([v4.a, v4.b, v4.c, v4.d].map fun n => Str.ofNat n.toNat)

def groupText (group : UInt16) : Str := Nat.toDigits 16 group.toNat

def zeroRun (segments : List UInt16) (i : Nat) : Nat :=
  ((segments.drop i).takeWhile (· == 0)).length

def longestZeroRun (segments : List UInt16) : Nat × Nat :=
  (range 8).foldl (fun best i =>
    if best.2 < zeroRun segments i then (i, zeroRun segments i) else best)
    (0, 0)

def Ipv6Addr.text (v6 : Ipv6Addr) : Str :=
  let (start, count) := longestZeroRun v6.segments
  if count < 2 then separated ':' groupText v6.segments
  else separated ':' groupText (v6.segments.take start) ++ [':', ':'] ++
    separated ':' groupText (v6.segments.drop (start + count))

def IpAddr.text : IpAddr → Str
  | .v4 addr => addr.text
  | .v6 addr => addr.text

section Numbers

variable {radix : Nat} (hone : 1 < radix) (hradix : radix < 17)

include hone hradix

theorem readNumber_reads {maxDigits bound n : Nat} {zeroPrefix : Bool}
    (hlength : (Nat.toDigits radix n).length ≤ maxDigits)
    (hzero : zeroPrefix = true ∨ (Nat.toDigits radix n).head? ≠ some '0' ∨
      (Nat.toDigits radix n).length ≤ 1) (hbound : n < bound) :
    Reads (fun c => !isRadixDigit radix c)
      (readNumber radix maxDigits zeroPrefix bound) (Nat.toDigits radix n)
      n := by
  intro rest hrest
  have hdigits := isRadixDigit_toDigits hone hradix n
  have hstop : rest.takeWhile (isRadixDigit radix) = [] ∧
      rest.dropWhile (isRadixDigit radix) = rest := by
    cases rest with
    | nil => exact ⟨rfl, rfl⟩
    | cons c rest =>
      have hc : isRadixDigit radix c = false := by simpa using hrest c rfl
      simp [hc]
  have htake : (Nat.toDigits radix n ++ rest).takeWhile (isRadixDigit radix) =
      Nat.toDigits radix n := by rw [takeWhile_append_of_pos hdigits, hstop.1,
        append_nil]
  have hdrop : (Nat.toDigits radix n ++ rest).dropWhile (isRadixDigit radix) =
      rest := by
    rw [dropWhile_append_of_pos hdigits, hstop.2]
  have hplain : (!zeroPrefix && (Nat.toDigits radix n).head? = some '0' &&
      1 < (Nat.toDigits radix n).length) = false := by
    rcases hzero with h | h | h
    · simp [h]
    · simp [h]
    · simp [Nat.not_lt.mpr h]
  have hvalue := digitsValue_toDigits hone hradix n
  change readNumber radix maxDigits zeroPrefix bound _ = _
  simp only [readNumber, htake, hdrop]
  rw [if_neg (not_or.mpr ⟨Nat.toDigits_ne_nil, Nat.not_lt.mpr hlength⟩), hplain,
    hvalue]
  simp [hbound]

end Numbers

theorem readOctet_reads (n : UInt8) :
    Reads (fun c => !isRadixDigit 10 c) readOctet (Str.ofNat n.toNat) n := by
  have hsmall : ∀ n < 256, (Nat.toDigits 10 n).head? ≠ some '0' ∨
      (Nat.toDigits 10 n).length ≤ 1 := by decide +kernel
  have hn : n.toNat < 256 := n.toNat_lt
  have hlength : (Nat.toDigits 10 n.toNat).length ≤ 3 :=
    (Nat.length_toDigits_le_iff (by decide) (by decide)).mpr (by omega)
  have hread : Reads _ (readNumber 10 3 false 256) _ _ :=
    readNumber_reads (by decide) (by decide) hlength
      (.inr (hsmall n.toNat hn)) hn
  have hoctet := hread.map UInt8.ofNat
  rwa [UInt8.ofNat_toNat] at hoctet

theorem readGroup_reads (group : UInt16) :
    Reads (fun c => !isRadixDigit 16 c) readGroup (groupText group) group := by
  have hn : group.toNat < 65536 := group.toNat_lt
  have hlength : (Nat.toDigits 16 group.toNat).length ≤ 4 :=
    (Nat.length_toDigits_le_iff (by decide) (by decide)).mpr (by omega)
  have hread : Reads _ (readNumber 16 4 true 65536) _ _ :=
    readNumber_reads (by decide) (by decide) hlength (.inl rfl) hn
  have hgroup := hread.map UInt16.ofNat
  rwa [UInt16.ofNat_toNat] at hgroup

theorem readIpv4_reads (v4 : Ipv4Addr) :
    Reads (fun c => !isRadixDigit 10 c) readIpv4 v4.text v4 := by
  intro rest hrest
  have hbehind : ∀ n : UInt8, ∀ s, Follows (fun c => !isRadixDigit 10 c) s →
      (readOctet.after ['.']).run ('.' :: (Str.ofNat n.toNat ++ s)) =
        some (n, s) :=
    fun n s hs => (readOctet_reads n).after ['.'] s hs
  have hdot : ∀ s : Str, Follows (fun c => !isRadixDigit 10 c) ('.' :: s) :=
    fun s => follows_cons rfl s
  have htext : v4.text ++ rest = Str.ofNat v4.a.toNat ++ '.' ::
      (Str.ofNat v4.b.toNat ++ '.' :: (Str.ofNat v4.c.toNat ++ '.' ::
        (Str.ofNat v4.d.toNat ++ rest))) := by
    rw [Ipv4Addr.text, map_cons, Str.joinWith_cons]
    simp
  rw [htext]
  simp only [readIpv4, StateT.run_bind, readOctet_reads v4.a _ (hdot _),
    hbehind v4.b _ (hdot _),
    hbehind v4.c _ (hdot _), hbehind v4.d _ hrest, Option.bind_eq_bind,
    Option.bind_some]
  rfl

theorem readNumber_rest {radix maxDigits bound : Nat} {zeroPrefix : Bool}
    {s rest : Str} {n : Nat}
    (h : (readNumber radix maxDigits zeroPrefix bound).run s =
      some (n, rest)) : rest = s.dropWhile (isRadixDigit radix) := by
  change readNumber radix maxDigits zeroPrefix bound s = _ at h
  unfold readNumber at h
  dsimp only at h
  split at h
  · cases h
  split at h
  · cases h
  split at h
  · cases h
    rfl
  · cases h

variable {s : Str} {left : Nat} {rest : Str} {groups : List UInt16}

theorem readIpv4_eq_none (h : '.' ∉ s) : readIpv4.run s = none := by
  cases hfirst : readOctet.run s with
  | none => simp [readIpv4, StateT.run_bind, hfirst]
  | some read =>
    obtain ⟨a, rest⟩ := read
    have hrest : rest = s.dropWhile (isRadixDigit 10) := by
      rw [readOctet, StateT.run_map] at hfirst
      obtain ⟨⟨n, rest'⟩, hread, heq⟩ := Option.map_eq_some_iff.mp hfirst
      cases heq
      exact readNumber_rest hread
    have hstop : (expect ['.']).run rest = none := by
      cases rest with
      | nil => rfl
      | cons c rest =>
        have hmem : c ∈ s := (dropWhile_suffix _).subset (hrest ▸ mem_cons_self)
        have hne : c ≠ '.' := fun heq => h (heq ▸ hmem)
        exact if_neg hne
    simp [readIpv4, StateT.run_bind, hfirst, Parse.after, hstop]

theorem behindColon_readIpv4 {first : Bool} (h : '.' ∉ s) :
    (behindColon first readIpv4).run s = none := by
  cases first with
  | true => exact readIpv4_eq_none h
  | false =>
    cases s with
    | nil => rfl
    | cons c s =>
      by_cases hc : c = ':'
      · subst hc
        exact readIpv4_eq_none fun hmem => h (mem_cons_of_mem _ hmem)
      · change (if c = ':' then _ else none).bind _ = none
        rw [if_neg hc]
        rfl

inductive GroupsEnd : Str → Prop
  | done : GroupsEnd []
  | colons (s : Str) : GroupsEnd (':' :: ':' :: s)

theorem GroupsEnd.follows (h : GroupsEnd s) :
    Follows (fun c => !isRadixDigit 16 c) s := by
  cases h with
  | done => exact follows_nil _
  | colons s => exact follows_cons (by decide) _

theorem GroupsEnd.readGroup (h : GroupsEnd s) (first : Bool) :
    (behindColon first readGroup).run s = none := by
  cases h with
  | done | colons s => cases first <;> rfl

theorem readGroups_end (h : GroupsEnd s) (hdot : '.' ∉ s) (left : Nat)
    (first : Bool) : readGroups left first s = (([], false), s) := by
  cases left with
  | zero => rfl
  | succ left =>
    rw [readGroups, behindColon_readIpv4 hdot, ite_self, h.readGroup first]

theorem readGroups_step {first : Bool} {group : UInt16} {s rest : Str}
    (hdot : '.' ∉ s)
    (h : (behindColon first readGroup).run s = some (group, rest)) :
    readGroups (left + 1) first s = ((group :: (readGroups left false rest).1.1,
        (readGroups left false rest).1.2), (readGroups left false rest).2) := by
  rw [readGroups, behindColon_readIpv4 hdot, ite_self, h]

def isGroupChar (c : Char) : Bool := c == ':' || isRadixDigit 16 c

theorem isGroupChar_groups (groups : List UInt16) :
    ∀ c ∈ groups.flatMap fun g => ':' :: groupText g, isGroupChar c = true := by
  intro c hmem
  obtain ⟨g, -, hg⟩ := mem_flatMap.mp hmem
  rcases mem_cons.mp hg with rfl | hg
  · rfl
  · simp [isGroupChar, isRadixDigit_toDigits (by decide) (by decide) _ _ hg]

theorem isGroupChar_separated (groups : List UInt16) :
    ∀ c ∈ separated ':' groupText groups, isGroupChar c = true := by
  cases groups with
  | nil => simp [separated]
  | cons g groups =>
    intro c hmem
    refine isGroupChar_groups (g :: groups) c ?_
    rw [flatMap_cons]
    exact mem_cons_of_mem _ hmem

theorem dot_notMem (h : ∀ c ∈ s, isGroupChar c = true) : '.' ∉ s :=
  fun hmem => absurd (h _ hmem) (by decide)

theorem follows_groups (groups : List UInt16) (hend : GroupsEnd rest) :
    Follows (fun c => !isRadixDigit 16 c)
    ((groups.flatMap fun g => ':' :: groupText g) ++ rest) := by
  cases groups with
  | nil => exact hend.follows
  | cons g groups => exact follows_cons (by decide) _

theorem readGroups_tail (hleft : groups.length ≤ left) (hend : GroupsEnd rest)
    (hdot : '.' ∉ rest) :
    readGroups left false ((groups.flatMap fun g => ':' :: groupText g) ++
      rest) = ((groups, false), rest) := by
  induction groups generalizing left with
  | nil => exact readGroups_end hend hdot left false
  | cons g groups ih =>
    obtain ⟨left, rfl⟩ : ∃ l, left = l + 1 :=
      ⟨left - 1, by simp at hleft; omega⟩
    have hread := (readGroup_reads g).after [':'] _ (follows_groups groups hend)
    have hall : '.' ∉ ((g :: groups).flatMap fun g => ':' :: groupText g) ++
        rest := by
      rw [mem_append]
      exact not_or.mpr ⟨dot_notMem (isGroupChar_groups _), hdot⟩
    rw [flatMap_cons, append_assoc] at hall ⊢
    have hcolon : (behindColon false readGroup).run _ = _ := hread
    rw [readGroups_step hall hcolon, ih (by simpa using hleft)]

theorem readGroups_separated (hleft : groups.length ≤ left)
    (hend : GroupsEnd rest) (hdot : '.' ∉ rest) :
    readGroups left true (separated ':' groupText groups ++ rest) =
      ((groups, false), rest) := by
  cases groups with
  | nil => exact readGroups_end hend hdot left true
  | cons g groups =>
    obtain ⟨left, rfl⟩ : ∃ l, left = l + 1 :=
      ⟨left - 1, by simp at hleft; omega⟩
    have hall : '.' ∉ separated ':' groupText (g :: groups) ++ rest := by
      rw [mem_append]
      exact not_or.mpr ⟨dot_notMem (isGroupChar_separated _), hdot⟩
    have hread : (behindColon true readGroup).run _ = _ :=
      readGroup_reads g _ (follows_groups groups hend)
    rw [separated, append_assoc] at hall ⊢
    rw [readGroups_step hall hread,
      readGroups_tail (by simpa using hleft) hend hdot]

theorem longestZeroRun_le (segments : List UInt16) :
    (longestZeroRun segments).2 ≤ zeroRun segments
    (longestZeroRun segments).1 := by
  unfold longestZeroRun
  refine foldlRecOn (motive := fun best : Nat × Nat =>
    best.2 ≤ zeroRun segments best.1)
    _ _ (Nat.zero_le _) fun best hbest i _ => ?_
  split
  · exact Nat.le_refl _
  · exact hbest

theorem segments_of_zeroRun {segments : List UInt16} {start count : Nat}
    (h : count ≤ zeroRun segments start) :
    segments = segments.take start ++ replicate count 0 ++
    segments.drop (start + count) := by
  have htake : (segments.drop start).take count = replicate count 0 := by
    have hsplit := takeWhile_append_dropWhile (p := (· == 0))
      (l := segments.drop start)
    rw [← hsplit, take_append_of_le_length h]
    refine eq_replicate_iff.mpr ⟨?_, fun g hg => ?_⟩
    · rw [length_take]
      exact Nat.min_eq_left h
    · have hzero := mem_takeWhile_imp (mem_of_mem_take hg)
      simpa using hzero
  rw [append_assoc, ← htake, ← drop_drop, take_append_drop, take_append_drop]

section Parts

variable {v6 : Ipv6Addr} {head tail : List UInt16} {count : Nat}
  (h : v6.segments = head ++ replicate count 0 ++ tail)

include h

theorem Ipv6Addr.parts_length : head.length + count + tail.length = 8 := by
  simpa [h, Nat.add_assoc] using v6.length_eq

theorem Ipv6Addr.ofParts_eq : Ipv6Addr.ofParts head tail = some v6 := by
  have hlength := parts_length h
  have hcount : 8 - head.length - tail.length = count := by omega
  obtain ⟨segments, hsegments⟩ := v6
  cases h
  rw [ofParts, hcount]
  exact dif_pos hsegments

theorem readIpv6_parts (hcount : 0 < count) :
    readIpv6.run (separated ':' groupText head ++
      ':' :: ':' :: separated ':' groupText tail) = some (v6, []) := by
  have hlength := Ipv6Addr.parts_length h
  have hdot : '.' ∉ ':' :: ':' :: separated ':' groupText tail := by
    simp [dot_notMem (isGroupChar_separated tail)]
  have hleft : readGroups 8 true _ = ((head, false), _) :=
    readGroups_separated (by omega) (.colons _) hdot
  have hright : readGroups (8 - (head.length + 1)) true
      (separated ':' groupText tail ++ []) = ((tail, false), []) :=
    readGroups_separated (by omega) .done not_mem_nil
  have hshort : head.length ≠ 8 := by omega
  rw [append_nil] at hright
  change readIpv6 _ = _
  simp only [readIpv6, hleft, if_neg hshort]
  change (Ipv6Addr.ofParts head _).bind _ = _
  rw [hright]
  dsimp only
  rw [Ipv6Addr.ofParts_eq h]
  rfl

end Parts

private theorem readIpv6_whole (v6 : Ipv6Addr) :
    readIpv6.run (separated ':' groupText v6.segments) = some (v6, []) := by
  have hread : readGroups 8 true (separated ':' groupText v6.segments ++ []) =
      ((v6.segments, false), []) :=
    readGroups_separated (Nat.le_of_eq v6.length_eq) .done not_mem_nil
  have hall : v6.segments = v6.segments ++ replicate 0 0 ++ [] := by simp
  have hparts : Ipv6Addr.ofParts v6.segments [] = some v6 :=
    Ipv6Addr.ofParts_eq hall
  rw [append_nil] at hread
  change readIpv6 _ = _
  simp only [readIpv6, hread, if_pos v6.length_eq, hparts]
  rfl

theorem readIpv6_text (v6 : Ipv6Addr) :
    readIpv6.run v6.text = some (v6, []) := by
  have hzeros := segments_of_zeroRun (longestZeroRun_le v6.segments)
  rw [Ipv6Addr.text]
  dsimp only
  split
  · exact readIpv6_whole v6
  · rw [append_assoc]
    exact readIpv6_parts hzeros (by omega)

theorem isGroupChar_text (v6 : Ipv6Addr) :
    ∀ c ∈ v6.text, isGroupChar c = true := by
  intro c hmem
  unfold Ipv6Addr.text at hmem
  dsimp only at hmem
  split at hmem
  · exact isGroupChar_separated _ c hmem
  simp only [mem_append, mem_cons, not_mem_nil, or_false] at hmem
  rcases hmem with (hmem | rfl | rfl) | hmem
  · exact isGroupChar_separated _ c hmem
  · rfl
  · rfl
  · exact isGroupChar_separated _ c hmem

theorem isGroupChar_ascii {c : Char} (h : isGroupChar c = true) :
    c.toNat < 128 := by
  have hbound : ∀ d : Char, d.toNat < 128 → c ≤ d → c.toNat < 128 := by
    intro d hd hcd
    exact Nat.lt_of_le_of_lt hcd hd
  rcases Bool.or_eq_true_iff.mp h with h | h
  · rw [beq_iff_eq.mp h]
    decide
  rw [isRadixDigit, toDigit] at h
  split at h
  · next hc => exact hbound '9' (by decide) hc.2
  split at h
  · next hc => exact hbound 'z' (by decide) hc.2
  · split at h
    · next hc => exact hbound 'Z' (by decide) hc.2
    · cases h

theorem parseIpAddr_text (ip : IpAddr) : parseIpAddr ip.text = some ip := by
  cases ip with
  | v4 addr =>
    have hread := readIpv4_reads addr [] (follows_nil _)
    rw [append_nil] at hread
    rw [IpAddr.text, parseIpAddr, hread]
    rfl
  | v6 addr =>
    rw [IpAddr.text, parseIpAddr, readIpv4_eq_none
      (dot_notMem (isGroupChar_text addr)), readIpv6_text]
    rfl

example : (⟨[0, 0, 0, 0, 0, 0xffff, 0x7f00, 1], rfl⟩ : Ipv6Addr).text =
    "::ffff:7f00:1" := by decide +kernel

example : parseIpAddr "::ffff:127.0.0.1" =
    some (.v6 ⟨[0, 0, 0, 0, 0, 0xffff, 0x7f00, 1], rfl⟩) := by decide +kernel

end Fuse.Foundation
