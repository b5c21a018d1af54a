import Fuse.Foundation.Text

/-!
# Character boundaries

An offset may be used to slice a text when some part of the text ends there.
The bytes of an ASCII character are found in a text only where the character
stands, so a scan over bytes that stops at ASCII stops at boundaries.
-/

namespace Fuse.Foundation

open List

theorem Fallible.exists_bind_eq_ok {α β : Type} {x : Fallible α}
    {f : α → Fallible β} :
    (∃ b, (x >>= f) = .ok b) ↔ ∃ a, x = .ok a ∧ ∃ b, f a = .ok b := by
  simp only [Fallible.bind_eq_ok]
  exact ⟨fun ⟨b, a, ha, hb⟩ => ⟨a, ha, b, hb⟩, fun ⟨a, ha, b, hb⟩ =>
    ⟨b, a, ha, hb⟩⟩

namespace Str

@[simp] theorem byteLen_nil : byteLen [] = 0 := rfl

@[simp] theorem byteLen_cons (c : Char) (s : Str) :
    byteLen (c :: s) = c.utf8Size + byteLen s := by
  simp [byteLen]

@[simp] theorem byteLen_append (s t : Str) :
    byteLen (s ++ t) = byteLen s + byteLen t := by
  simp [byteLen]

variable {s : Str} {c : Char}

theorem byteLen_eq_zero : byteLen s = 0 ↔ s = [] := by
  cases s with
  | nil => simp
  | cons c s =>
    have := c.utf8Size_pos
    simp only [byteLen_cons, reduceCtorEq, iff_false]
    omega

def IsBoundary (s : Str) (n : Nat) : Prop :=
  ∃ head tail, s = head ++ tail ∧ byteLen head = n

theorem splitAtByte_eq_some_iff {n : Nat} {s head tail : Str} :
    splitAtByte n s = some (head, tail) ↔ s = head ++ tail ∧
    byteLen head = n := by
  induction s generalizing n head with
  | nil =>
    cases n with
    | zero =>
      simp only [splitAtByte, Option.some.injEq, Prod.mk.injEq,
        byteLen_eq_zero, nil_eq, append_eq_nil_iff]
      tauto
    | succ n =>
      simp only [splitAtByte, reduceCtorEq, false_iff, not_and, nil_eq,
        append_eq_nil_iff]
      rintro ⟨rfl, -⟩ h
      cases h
  | cons c s ih =>
    have hpos := c.utf8Size_pos
    cases n with
    | zero =>
      simp only [splitAtByte, Option.some.injEq, Prod.mk.injEq, byteLen_eq_zero]
      constructor
      · rintro ⟨rfl, rfl⟩
        exact ⟨rfl, rfl⟩
      · rintro ⟨h, rfl⟩
        exact ⟨rfl, h⟩
    | succ n =>
      simp only [splitAtByte]
      rcases head with - | ⟨x, head⟩
      · simp
      split
      · rename_i hle
        simp only [Option.map_eq_some_iff, Prod.exists, Prod.mk.injEq,
          List.cons.injEq, cons_append, byteLen_cons]
        constructor
        · rintro ⟨a, b, hs, ⟨rfl, rfl⟩, rfl⟩
          obtain ⟨rfl, hlen⟩ := ih.mp hs
          exact ⟨⟨rfl, rfl⟩, by omega⟩
        · rintro ⟨⟨rfl, rfl⟩, hlen⟩
          exact ⟨head, tail, ih.mpr ⟨rfl, by omega⟩, ⟨rfl, rfl⟩, rfl⟩
      · rename_i hle
        simp only [reduceCtorEq, cons_append, List.cons.injEq, byteLen_cons,
          false_iff, not_and]
        rintro ⟨rfl, -⟩ hlen
        omega

theorem sliceTo_append (head tail : Str) :
    sliceTo (head ++ tail) (byteLen head) = .ok head := by
  have h := splitAtByte_eq_some_iff.mpr
    ⟨(rfl : head ++ tail = head ++ tail), rfl⟩
  rw [sliceTo, h]

theorem sliceFrom_append (head tail : Str) :
    sliceFrom (head ++ tail) (byteLen head) = .ok tail := by
  have h := splitAtByte_eq_some_iff.mpr
    ⟨(rfl : head ++ tail = head ++ tail), rfl⟩
  rw [sliceFrom, h]

theorem slice_append (before part after : Str) :
    slice (before ++ part ++ after) (byteLen before)
      (byteLen before + byteLen part) = .ok part := by
  have h := splitAtByte_eq_some_iff.mpr
    ⟨(rfl : before ++ part ++ after = (before ++ part) ++ after), rfl⟩
  rw [byteLen_append] at h
  rw [slice, h]
  exact sliceFrom_append before part

theorem isSome_splitAtByte {n : Nat} :
    (splitAtByte n s).isSome ↔ IsBoundary s n := by
  simp [Option.isSome_iff_exists, IsBoundary, splitAtByte_eq_some_iff]

theorem exists_sliceTo {n : Nat} :
    (∃ r, sliceTo s n = .ok r) ↔ IsBoundary s n := by
  rw [← isSome_splitAtByte, sliceTo]
  cases splitAtByte n s <;> simp [Fallible.panic]

theorem exists_sliceFrom {n : Nat} :
    (∃ r, sliceFrom s n = .ok r) ↔ IsBoundary s n := by
  rw [← isSome_splitAtByte, sliceFrom]
  cases splitAtByte n s <;> simp [Fallible.panic]

def bytes (s : Str) : List UInt8 := s.flatMap String.utf8EncodeChar

@[simp] theorem bytes_cons (c : Char) (s : Str) :
    bytes (c :: s) = String.utf8EncodeChar c ++ bytes s :=
  rfl

@[simp] theorem bytes_append (s t : Str) :
    bytes (s ++ t) = bytes s ++ bytes t := flatMap_append

@[simp] theorem length_bytes (s : Str) : (bytes s).length = byteLen s := by
  induction s with
  | nil => rfl
  | cons c s ih =>
    rw [bytes_cons, length_append, String.length_utf8EncodeChar, ih,
      byteLen_cons]

theorem utf8Size_ascii (h : c.toNat < 128) : c.utf8Size = 1 := by
  refine Char.utf8Size_eq_one_iff.mpr (UInt32.le_iff_toNat_le.mpr ?_)
  exact Nat.le_of_lt_succ h

theorem utf8EncodeChar_ascii (h : c.toNat < 128) :
    String.utf8EncodeChar c = [UInt8.ofNat c.toNat] :=
  if_pos (Nat.le_of_lt_succ h)

theorem utf8EncodeChar_high (h : 128 ≤ c.toNat) :
    ∀ b ∈ String.utf8EncodeChar c, 128 ≤ b.toNat := by
  have hnot : ¬ c.val.toNat ≤ 127 := by
    change ¬ c.toNat ≤ 127
    omega
  unfold String.utf8EncodeChar
  simp only [hnot, if_false]
  split_ifs <;> simp only [forall_mem_cons, UInt8.toNat_ofNat', not_mem_nil,
    false_implies, implies_true, and_true] <;> omega

theorem byteLen_ascii (h : ∀ c ∈ s, c.toNat < 128) : byteLen s = s.length := by
  induction s with
  | nil => rfl
  | cons c s ih =>
    obtain ⟨hc, hs⟩ := forall_mem_cons.mp h
    rw [byteLen_cons, utf8Size_ascii hc, ih hs, length_cons, Nat.add_comm]

/-- The text before each occurrence, for a text behind `before`. -/
def occurrences (pattern : Str) : Str → Str → List Str
  | _, [] => []
  | before, c :: s =>
    if pattern.isPrefixOf (c :: s) then
      before :: occurrences pattern (before ++ [c]) s
    else occurrences pattern (before ++ [c]) s

theorem matchIndices_go_eq {first : Char} {rest : Str} (h : first ∉ rest)
    (s before : Str) (skip : Nat) (hskip : first ∉ s.take skip) :
    matchIndices.go (first :: rest) (first :: rest).length skip
    (byteLen before) s =
      (occurrences (first :: rest) before s).map byteLen := by
  induction s generalizing skip before with
  | nil => simp [matchIndices.go, occurrences]
  | cons c s ih =>
    have hstep : byteLen before + c.utf8Size =
      byteLen (before ++ [c]) := by simp
    cases skip with
    | succ skip =>
      simp only [take_succ_cons, mem_cons, not_or] at hskip
      have hnot : ¬ (first :: rest).isPrefixOf (c :: s) = true := by
        rw [ isPrefixOf_iff_prefix, cons_prefix_cons]
        exact fun hstarts => hskip.1 hstarts.1
      rw [matchIndices.go, occurrences, if_neg hnot, hstep, ih _ skip hskip.2]
    | zero =>
      rw [matchIndices.go, occurrences, hstep]
      split
      · rename_i hstarts
        obtain ⟨-, htail⟩ :=
          cons_prefix_cons.mp ( isPrefixOf_iff_prefix.mp hstarts)
        have hrest := ih (before ++ [c]) rest.length
          (prefix_iff_eq_take.mp htail ▸ h)
        rw [map_cons, ← hrest]
        rfl
      · exact ih _ 0 (by simp)

/-- Where the first character of a pattern comes once in it, occurrences do not
overlap and all are found. -/
theorem matchIndices_eq {first : Char} {rest : Str} (h : first ∉ rest)
    (s : Str) :
    matchIndices (first :: rest) (first :: rest).length s =
      (occurrences (first :: rest) [] s).map byteLen :=
  matchIndices_go_eq h s [] 0 (by simp)

theorem trimStart_gap {gap w : Str} (hgap : ∀ c ∈ gap, isWhitespace c = true)
    (hw : ∀ c ∈ w.head?, isWhitespace c = false) :
    trimStart (gap ++ w) = w := by
  rw [trimStart, dropWhile_append_of_pos hgap]
  cases w with
  | nil => rfl
  | cons c w => exact dropWhile_cons_of_neg (by simp [hw c rfl])

theorem trimEnd_append {w : Str} (hw : ∀ c ∈ w.getLast?, isWhitespace c = false)
    (rest : Str) : trimEnd (w ++ rest) = w ++ trimEnd rest := by
  unfold trimEnd
  rw [reverse_append, dropWhile_append]
  split
  · rename_i hblank
    rw [isEmpty_iff.mp hblank, reverse_nil, append_nil]
    cases hw' : w.reverse with
    | nil => simp [reverse_eq_nil_iff.mp hw']
    | cons c w' =>
      have hlast : w.getLast? = some c := by
        rw [← head?_reverse, hw']
        rfl
      rw [dropWhile_cons_of_neg (by simp [hw c hlast]), ← hw', reverse_reverse]
  · rw [reverse_append, reverse_reverse]

theorem trimEnd_gap {gap : Str} (h : ∀ c ∈ gap, isWhitespace c = true) :
    trimEnd gap = [] := by
  have htrim : trimStart (gap.reverse ++ []) = [] :=
    trimStart_gap (fun c hc => h c (mem_reverse.mp hc)) nofun
  rw [append_nil] at htrim
  exact reverse_eq_nil_iff.mpr htrim

private theorem trimEnd_isPrefix (s : Str) : trimEnd s <+: s := by
  rw [trimEnd, ← reverse_suffix, reverse_reverse]
  exact dropWhile_suffix _

theorem head?_trimEnd (h : c ∈ (trimEnd s).head?) : c ∈ s.head? := by
  obtain ⟨rest, hrest⟩ := trimEnd_isPrefix s
  rw [← hrest, head?_append_of_ne_nil _ (by rintro hnil; simp [hnil] at h)]
  exact h

theorem trim_append (gap : Str) {w : Str}
    (hgap : ∀ c ∈ gap, isWhitespace c = true) (hw : w ≠ [])
    (hfirst : ∀ c ∈ w.head?, isWhitespace c = false)
    (hlast : ∀ c ∈ w.getLast?, isWhitespace c = false) (rest : Str) :
    trim (gap ++ (w ++ rest)) = w ++ trimEnd rest := by
  have hhead : ∀ c ∈ (w ++ rest).head?, isWhitespace c = false := by
    rwa [head?_append_of_ne_nil w hw]
  rw [trim, trimStart_gap hgap hhead, trimEnd_append hlast]

theorem lastPart_append {mark : Char} {part : Str} (h : mark ∉ part) (s : Str) :
    lastPart (· == mark) (s ++ mark :: part) = part := by
  have hpass : ∀ c ∈ part.reverse, (!(c == mark)) = true := by
    intro c hc
    have hne : c ≠ mark := fun heq => h (heq ▸ mem_reverse.mp hc)
    simpa using hne
  rw [lastPart, reverse_append, reverse_cons, append_assoc,
    takeWhile_append_of_pos hpass]
  simp

theorem splitOnce_char {mark : Char} {left : Str} (h : mark ∉ left)
    (right : Str) : splitOnce [mark] (left ++ mark :: right) =
      some (left, right) := by
  induction left with
  | nil => simp [splitOnce, List.dropPrefix?]
  | cons c left ih =>
    have hc : ¬ mark = c := fun heq => h (heq ▸ mem_cons_self)
    have hdrop : (c :: (left ++ mark :: right)).dropPrefix? [mark] = none := by
      simp [List.dropPrefix?, Ne.symm hc]
    rw [cons_append, splitOnce, hdrop, ih fun hmem =>
      h (mem_cons_of_mem c hmem)]
    rfl

end Str

end Fuse.Foundation
