import Fuse.Foundation.Boundaries
import Fuse.Server.Statements
import Mathlib.Data.List.TakeWhile

/-!
# Which texts the front of the handler survives

`parse_prepare`, `parse_execute` and `count_params` slice the text at fixed
byte offsets, at offsets found in a lower-cased copy and at offsets found in
its bytes.  A slice that is not on a character boundary is a panic.
-/

namespace Fuse.Server

open Foundation Fuse.Core Str List

/-! ## Counting placeholders in the bytes -/

def isAsciiDigit (b : UInt8) : Bool := 48 ≤ b.toNat && b.toNat ≤ 57

/-- The loop over the bytes of `count_params`, one round for each unit of
fuel. -/
def countParamsFrom (query : Str) : Nat → Nat → Nat → Fallible Nat
  | 0, _, maxParam => return maxParam
  | fuel + 1, i, maxParam =>
    match (bytes query)[i]? with
    | none => return maxParam
    | some b =>
      if b = UInt8.ofNat '$'.toNat then do
        let start := i + 1
        let stop := start +
          (((bytes query).drop start).takeWhile isAsciiDigit).length
        if start < stop then
          match parseUnsigned 64 (← slice query start stop) with
          | some n => countParamsFrom query fuel stop (max maxParam n)
          | none => countParamsFrom query fuel stop maxParam
        else countParamsFrom query fuel stop maxParam
      else countParamsFrom query fuel (i + 1) maxParam

def countParamsBytes (query : Str) : Fallible Nat :=
  countParamsFrom query (byteLen query + 1) 0 0

theorem isDigit_iff (c : Char) :
    c.isDigit = true ↔ 48 ≤ c.toNat ∧ c.toNat ≤ 57 := by
  rw [Char.isDigit, Bool.and_eq_true, decide_eq_true_iff, decide_eq_true_iff,
    ge_iff_le, UInt32.le_iff_toNat_le, UInt32.le_iff_toNat_le]
  rfl

theorem takeWhile_bytes (s : Str) :
    ((bytes s).takeWhile isAsciiDigit).length =
      byteLen (s.takeWhile Char.isDigit) := by
  induction s with
  | nil => rfl
  | cons c s ih =>
    by_cases hc : c.isDigit = true
    · obtain ⟨hlow, hhigh⟩ := (isDigit_iff c).mp hc
      have hascii : c.toNat < 128 := by omega
      have hbyte : isAsciiDigit (UInt8.ofNat c.toNat) = true := by
        rw [isAsciiDigit, UInt8.toNat_ofNat']
        simp
        omega
      rw [bytes_cons, utf8EncodeChar_ascii hascii, singleton_append,
        takeWhile_cons_of_pos hbyte,
        takeWhile_cons_of_pos hc, length_cons, ih, byteLen_cons,
        utf8Size_ascii hascii]
      omega
    · rw [takeWhile_cons_of_neg hc, byteLen_nil]
      have hfirst : ∃ b bs, bytes (c :: s) = b :: bs ∧
          isAsciiDigit b = false := by
        rw [isDigit_iff] at hc
        by_cases hascii : c.toNat < 128
        · rw [bytes_cons, utf8EncodeChar_ascii hascii]
          refine ⟨_, _, rfl, ?_⟩
          rw [isAsciiDigit, UInt8.toNat_ofNat']
          simp
          omega
        · have hhigh := utf8EncodeChar_high (Nat.le_of_not_lt hascii)
          cases henc : String.utf8EncodeChar c with
          | nil =>
            have hlen := String.length_utf8EncodeChar c
            have hpos := c.utf8Size_pos
            rw [henc, length_nil] at hlen
            omega
          | cons b bs =>
            have hb := hhigh b (henc ▸ mem_cons_self)
            refine ⟨b, bs ++ bytes s, by rw [bytes_cons, henc]; rfl, ?_⟩
            rw [isAsciiDigit]
            simp
            omega
      obtain ⟨b, bs, hcons, hb⟩ := hfirst
      rw [hcons, takeWhile_cons_of_neg (by simp [hb])]
      rfl

theorem countParamsFrom_skip {query : Str} {k i fuel maxParam : Nat}
    (h : ∀ j < k, ∃ b, (bytes query)[i + j]? = some b ∧
      b ≠ UInt8.ofNat '$'.toNat) :
    countParamsFrom query (fuel + k) i maxParam =
        countParamsFrom query fuel (i + k) maxParam := by
  induction k generalizing i with
  | zero => rfl
  | succ k ih =>
    obtain ⟨b, hb, hne⟩ := h 0 (Nat.succ_pos k)
    rw [Nat.add_zero] at hb
    have hstep : countParamsFrom query (fuel + k + 1) i maxParam =
        countParamsFrom query (fuel + k) (i + 1) maxParam := by
      rw [countParamsFrom, hb]
      exact if_neg hne
    rw [← Nat.add_assoc, hstep, ih fun j hj => ?_]
    · congr 1
      omega
    · obtain ⟨b', hb', hne'⟩ := h (j + 1) (Nat.succ_lt_succ hj)
      exact ⟨b', by rw [← hb']; congr 1; omega, hne'⟩

theorem encode_ne_sigil {c : Char} (hc : c ≠ '$') :
    ∀ b ∈ String.utf8EncodeChar c, b ≠ UInt8.ofNat '$'.toNat := by
  intro b hb heq
  have hbyte : b.toNat = 36 := by
    rw [heq]
    decide
  by_cases hascii : c.toNat < 128
  · rw [utf8EncodeChar_ascii hascii, mem_singleton] at hb
    rw [hb, UInt8.toNat_ofNat'] at hbyte
    refine hc (Char.toNat_inj.mp ?_)
    change c.toNat = 36
    omega
  · have hhigh := utf8EncodeChar_high (Nat.le_of_not_lt hascii) b hb
    omega

theorem countParams_skip {digits : Str} (h : '$' ∉ digits) (rest : Str) :
    countParams (digits ++ rest) = countParams rest := by
  induction digits with
  | nil => rfl
  | cons c digits ih =>
    rw [mem_cons, not_or] at h
    rw [cons_append, countParams, if_neg (Ne.symm h.1), ih h.2]
    exact Nat.zero_max _

theorem getElem?_bytes_append (before : Str) (c : Char) (rest : Str) {j : Nat}
    (hj : j < c.utf8Size) :
    (bytes (before ++ c :: rest))[byteLen before + j]? =
      (String.utf8EncodeChar c)[j]? := by
  rw [bytes_append, bytes_cons, getElem?_append_right (by simp),
    length_bytes, Nat.add_sub_cancel_left, getElem?_append_left]
  rwa [String.length_utf8EncodeChar]

theorem countParamsFrom_sigil (before s : Str) (fuel maxParam : Nat) :
    countParamsFrom (before ++ '$' :: s) (fuel + 1) (byteLen before) maxParam =
      countParamsFrom (before ++ '$' :: s) fuel
        (byteLen (before ++ '$' :: s.takeWhile Char.isDigit))
        (max maxParam
            ((parseUnsigned 64 (s.takeWhile Char.isDigit)).getD 0)) := by
  have hbyte : (bytes (before ++ '$' :: s))[byteLen before]? =
      some (UInt8.ofNat '$'.toNat) :=
    getElem?_bytes_append before '$' s (j := 0) (by decide)
  have hdrop : (bytes (before ++ '$' :: s)).drop (byteLen before + 1) =
      bytes s := by
    rw [bytes_append, drop_append, length_bytes, drop_eq_nil_of_le (by simp)]
    simp [utf8EncodeChar_ascii (c := '$') (by decide)]
  have hstop : byteLen (before ++ '$' :: s.takeWhile Char.isDigit) =
      byteLen before + 1 + byteLen (s.takeWhile Char.isDigit) := by
    have hsize : '$'.utf8Size = 1 := by decide
    rw [byteLen_append, byteLen_cons, hsize, Nat.add_assoc]
  have hslice : slice (before ++ '$' :: s) (byteLen before + 1)
      (byteLen before + 1 + byteLen (s.takeWhile Char.isDigit)) =
        .ok (s.takeWhile Char.isDigit) := by
    have h := slice_append (before ++ ['$']) (s.takeWhile Char.isDigit)
      (s.dropWhile Char.isDigit)
    have hsize : '$'.utf8Size = 1 := by decide
    rw [append_assoc, takeWhile_append_dropWhile, byteLen_append,
      byteLen_cons, byteLen_nil, hsize, append_assoc] at h
    exact h
  rw [countParamsFrom, hbyte]
  simp only [if_true, hdrop, takeWhile_bytes, hstop, hslice]
  by_cases hdigits : s.takeWhile Char.isDigit = []
  · rw [hdigits, byteLen_nil, Nat.add_zero]
    simp [parseUnsigned, parseDigits]
  have hpos : byteLen before + 1 < byteLen before + 1 +
      byteLen (s.takeWhile Char.isDigit) := by
    have := mt byteLen_eq_zero.mp hdigits
    omega
  rw [if_pos hpos]
  cases hparsed : parseUnsigned 64 (s.takeWhile Char.isDigit) with
  | none | some n => simp [hparsed, bind, Except.bind]

theorem countParamsFrom_eq (before rest : Str) {fuel maxParam : Nat}
    (hfuel : byteLen rest < fuel) :
    countParamsFrom (before ++ rest) fuel (byteLen before) maxParam =
      .ok (max maxParam (countParams rest)) := by
  induction hn : rest.length using Nat.strong_induction_on
    generalizing before rest fuel maxParam with
  | _ n ih =>
    subst hn
    rcases rest with - | ⟨c, s⟩
    · obtain ⟨fuel, rfl⟩ := Nat.exists_eq_succ_of_ne_zero (Nat.ne_of_gt hfuel)
      have hnone : (bytes (before ++ []))[byteLen before]? = none := by
        rw [append_nil, getElem?_eq_none_iff, length_bytes]
      rw [countParamsFrom, hnone]
      simp [countParams]
      rfl
    · rw [byteLen_cons] at hfuel
      by_cases hc : c = '$'
      · subst hc
        obtain ⟨fuel, rfl⟩ :=
          Nat.exists_eq_succ_of_ne_zero (Nat.ne_of_gt (Nat.zero_lt_of_lt hfuel))
        have hdigits : '$' ∉ s.takeWhile Char.isDigit := fun hmem => by
          cases mem_takeWhile_imp hmem
        have hs : s.takeWhile Char.isDigit ++ s.dropWhile Char.isDigit = s :=
          takeWhile_append_dropWhile
        have hrest : byteLen s = byteLen (s.takeWhile Char.isDigit) +
            byteLen (s.dropWhile Char.isDigit) := by rw [← byteLen_append, hs]
        have hsplit : before ++ '$' :: s =
          (before ++ '$' :: s.takeWhile Char.isDigit) ++
              s.dropWhile Char.isDigit := by rw [append_assoc, cons_append, hs]
        have hcount : countParams s = countParams
            (s.dropWhile Char.isDigit) := by
          have h := countParams_skip hdigits (s.dropWhile Char.isDigit)
          rwa [hs] at h
        have hsize : '$'.utf8Size = 1 := by decide
        have hshorter :=
          (dropWhile_sublist (l := s) (p := Char.isDigit)).length_le
        rw [countParamsFrom_sigil, hsplit, ih _ (by simp; omega) _ _
          (by omega) rfl, countParams, if_pos rfl, hcount, Nat.max_assoc]
      · obtain ⟨fuel, rfl⟩ := Nat.exists_eq_add_of_le'
          (Nat.le_trans (Nat.le_add_right c.utf8Size (byteLen s)) hfuel.le)
        rw [countParamsFrom_skip]
        · have hsplit : before ++ c :: s = (before ++ [c]) ++ s := by simp
          have hoffset : byteLen before + c.utf8Size =
            byteLen (before ++ [c]) := by simp
          rw [hsplit, hoffset, ih s.length (by simp) (before ++ [c]) s
            (by omega) rfl]
          rw [countParams, if_neg hc, Nat.zero_max]
        · intro j hj
          rw [getElem?_bytes_append before c s hj]
          have hj' : j < (String.utf8EncodeChar c).length := by
            rwa [String.length_utf8EncodeChar]
          exact ⟨_, getElem?_eq_getElem hj',
            encode_ne_sigil hc _ (getElem_mem hj')⟩

theorem countParamsBytes_eq (query : Str) :
    countParamsBytes query = .ok (countParams query) := by
  have h : countParamsFrom query (byteLen query + 1) 0 0 = _ :=
    countParamsFrom_eq [] query (Nat.lt_succ_self (byteLen query))
  rwa [Nat.zero_max] at h

/-! ## Slices of the parsers -/

theorem slice_quoted {q : Char} (hq : q.utf8Size = 1) {s : Str}
    (h : quotedBy q s = true) :
    (∃ r, slice s 1 (byteLen s - 1) = .ok r) ↔ s ≠ [q] := by
  rw [quotedBy, Bool.and_eq_true, beq_iff_eq, beq_iff_eq] at h
  obtain ⟨hhead, hlast⟩ := h
  obtain ⟨s, rfl⟩ := head?_eq_some_iff.mp hhead
  rcases eq_nil_or_concat s with rfl | ⟨middle, last, rfl⟩
  · refine iff_of_false ?_ (by simp)
    rintro ⟨r, hr⟩
    rw [byteLen_cons, hq] at hr
    cases hr
  · rw [concat_eq_append, ← cons_append, getLast?_concat, Option.some.injEq]
      at hlast
    subst hlast
    refine iff_of_true ⟨middle, ?_⟩ (by simp)
    have h := slice_append [last] middle [last]
    have hlen : byteLen (last :: middle.concat last) - 1 = 1 +
        byteLen middle := by
      rw [concat_eq_append, byteLen_cons, byteLen_append, byteLen_cons,
        byteLen_nil, hq]
      omega
    rw [hlen, concat_eq_append]
    rwa [byteLen_cons, byteLen_nil, hq] at h

theorem parseParamValue_ok_iff [FloatOps] (s : Str) :
    (∃ v, parseParamValue s = .ok v) ↔ s ≠ ['\''] ∧ s ≠ ['"'] := by
  unfold parseParamValue
  split
  · rename_i hquoted
    have hmap : (∃ v, ParamValue.string <$> slice s 1 (byteLen s - 1) =
        .ok v) ↔ ∃ r, slice s 1 (byteLen s - 1) = .ok r := by
      simp only [Fallible.map_eq_ok]
      exact ⟨fun ⟨v, r, hr, _⟩ => ⟨r, hr⟩, fun ⟨r, hr⟩ => ⟨_, r, hr, rfl⟩⟩
    rw [hmap]
    rcases (Bool.or_eq_true _ _).mp hquoted with hq | hq
    · have hother : s ≠ ['"'] := by
        rintro rfl
        revert hq
        decide
      rw [slice_quoted (by decide) hq, and_iff_left hother]
    · have hother : s ≠ ['\''] := by
        rintro rfl
        revert hq
        decide
      rw [slice_quoted (by decide) hq, and_iff_right hother]
  · rename_i hquoted
    refine iff_of_true ?_ ⟨?_, ?_⟩
    · split_ifs
      · exact ⟨_, rfl⟩
      · exact ⟨_, rfl⟩
      · exact ⟨_, rfl⟩
      · split
        · exact ⟨_, rfl⟩
        · split
          · exact ⟨_, rfl⟩
          · exact ⟨_, rfl⟩
    · rintro rfl
      exact hquoted (by decide)
    · rintro rfl
      exact hquoted (by decide)

theorem afterWord8_short (keyword : Str) {query : Str}
    (h : byteLen (trim query) < 8) : afterWord8 keyword query = .ok none :=
  if_pos h

theorem afterWord8_split (keyword : Str) {query head tail : Str}
    (h : trim query = head ++ tail) (h8 : byteLen head = 8) :
    afterWord8 keyword query = .ok (if eqIgnoreAsciiCase head keyword
      then some (trim tail)
        else none) := by
  have hlong : ¬ byteLen (head ++ tail) < 8 := by
    rw [byteLen_append]
    omega
  have hto := sliceTo_append head tail
  have hfrom := sliceFrom_append head tail
  rw [h8] at hto hfrom
  unfold afterWord8
  simp only [h, if_neg hlong, hto, hfrom, bind, Except.bind]
  split <;> rfl

theorem isBoundary_of_afterWord8 {keyword query : Str} {r : Option Str}
    (hlong : ¬ byteLen (trim query) < 8)
    (h : afterWord8 keyword query = .ok r) : IsBoundary (trim query) 8 := by
  unfold afterWord8 at h
  dsimp only at h
  rw [if_neg hlong] at h
  obtain ⟨head, hhead, -⟩ := Fallible.bind_eq_ok.mp h
  exact exists_sliceTo.mp ⟨head, hhead⟩

section Front

variable [Unicode]

/-- The lower-cased copy has the word, if at all, first where the text itself
can be cut, and cut again behind the word. -/
def CutsAround (word text : Str) : Prop :=
  ∀ pos, find word (toLowercase text) = some pos →
    IsBoundary text pos ∧ IsBoundary text (pos + byteLen word)

theorem splitAtAs_ok_iff (text : Str) :
    (∃ r, splitAtAs text = .ok r) ↔ CutsAround " as " text := by
  unfold splitAtAs CutsAround
  cases hfind : find " as " (toLowercase text) with
  | none => exact iff_of_true ⟨none, rfl⟩ fun pos h => (by cases h)
  | some pos =>
    have hword : byteLen " as " = 4 := by decide
    simp only [Option.some.injEq, forall_eq', hword]
    rw [← exists_sliceTo, ← exists_sliceFrom]
    simp only [Fallible.exists_bind_eq_ok]
    constructor
    · rintro ⟨name, hname, body, hbody, -⟩
      exact ⟨⟨name, hname⟩, body, hbody⟩
    · rintro ⟨⟨name, hname⟩, body, hbody⟩
      refine ⟨name, hname, body, hbody, ?_⟩
      split
      · exact ⟨none, rfl⟩
      · exact ⟨_, rfl⟩

/-- The texts after a lower-cased ` using `, none of them a quote alone. -/
def NoLoneQuote (rest : Str) : Prop :=
  ∀ pos head tail, find " using " (toLowercase rest) = some pos →
    rest = head ++ tail → byteLen head = pos + 7 →
      ∀ s ∈ splitBy (· == ',') (trim tail), trim s ≠ ['\''] ∧ trim s ≠ ['"']

structure FrontRest (head tail : Str) : Prop where
  prepare : eqIgnoreAsciiCase head "prepare " = true →
    CutsAround " as " (trim tail)
  execute : eqIgnoreAsciiCase head "execute " = true →
    CutsAround " using " (trim tail) ∧ NoLoneQuote (trim tail)

/-- The trimmed text is shorter than eight bytes, or its eighth byte ends a
character and the rest can be sliced. -/
def FrontSafe (query : Str) : Prop :=
  byteLen (trim query) < 8 ∨ ∃ head tail, trim query = head ++ tail ∧
    byteLen head = 8 ∧ FrontRest head tail

theorem parsePrepare_split {query head tail : Str}
    (h : trim query = head ++ tail) (h8 : byteLen head = 8) :
    (∃ r, parsePrepare query = .ok r) ↔
    (eqIgnoreAsciiCase head "prepare " = true →
        CutsAround " as " (trim tail)) := by
  rw [parsePrepare, afterWord8_split _ h h8]
  by_cases hword : eqIgnoreAsciiCase head "prepare " = true
  · rw [if_pos hword, imp_iff_right hword]
    exact splitAtAs_ok_iff (trim tail)
  · rw [if_neg hword]
    exact iff_of_true ⟨none, rfl⟩ fun h => (hword h).elim

theorem executeRest_ok_iff [FloatOps] (rest : Str) :
    (∃ r, executeRest rest = .ok r) ↔ CutsAround " using " rest ∧
    NoLoneQuote rest := by
  have hword : byteLen " using " = 7 := by decide
  have hreturn : ∀ p : Str × List ParamValue, ∃ r,
      (if p.1.isEmpty then return none else return some (p.1, p.2) :
        Fallible (Option (Str × List ParamValue))) = .ok r := by
    intro p
    split
    · exact ⟨none, rfl⟩
    · exact ⟨_, rfl⟩
  unfold executeRest CutsAround NoLoneQuote
  rw [hword]
  cases hfind : find " using " (toLowercase rest) with
  | none =>
    refine iff_of_true ?_ ⟨fun pos h => (by cases h), fun pos _ _ h =>
      (by cases h)⟩
    exact hreturn (trim (rest.reverse.dropWhile (· == ';')).reverse, [])
  | some pos =>
    simp only [Fallible.exists_bind_eq_ok, Option.some.injEq, forall_eq']
    constructor
    · rintro ⟨name, hname, texts, htexts, params, hparams, -⟩
      refine ⟨⟨exists_sliceTo.mp ⟨name, hname⟩,
        exists_sliceFrom.mp ⟨texts, htexts⟩⟩, ?_⟩
      rintro _ head tail rfl rfl hlen s hs
      rw [← hlen, sliceFrom_append] at htexts
      obtain rfl := Except.ok.inj htexts
      obtain ⟨v, -, hv⟩ := Fallible.ok_of_mapM_ok hparams s hs
      exact (parseParamValue_ok_iff (trim s)).mp ⟨v, hv⟩
    · rintro ⟨⟨hto, head, tail, rfl, hlen⟩, hquote⟩
      obtain ⟨name, hname⟩ := exists_sliceTo.mpr hto
      have hparams : ∀ s ∈ splitBy (· == ',') (trim tail), ∃ v,
          parseParamValue (trim s) = .ok v := fun s hs =>
        (parseParamValue_ok_iff (trim s)).mpr
          (hquote pos head tail rfl rfl hlen s hs)
      obtain ⟨params, hparams⟩ := Fallible.exists_mapM_ok hparams
      refine ⟨name, hname, tail, ?_, params, hparams, (trim name, params), rfl,
        hreturn _⟩
      rw [← hlen, sliceFrom_append]

private theorem parseExecute_split [FloatOps] {query head tail : Str}
    (h : trim query = head ++ tail) (h8 : byteLen head = 8) :
    (∃ r, parseExecute query = .ok r) ↔
    (eqIgnoreAsciiCase head "execute " = true →
        CutsAround " using " (trim tail) ∧ NoLoneQuote (trim tail)) := by
  rw [parseExecute, afterWord8_split _ h h8]
  by_cases hword : eqIgnoreAsciiCase head "execute " = true
  · rw [if_pos hword, imp_iff_right hword]
    exact executeRest_ok_iff (trim tail)
  · rw [if_neg hword]
    exact iff_of_true ⟨none, rfl⟩ fun h => (hword h).elim

/-- The front of the handler returns for exactly these texts. -/
theorem front_returns_iff [FloatOps] (query : Str) :
    ((∃ r, parsePrepare query = .ok r) ∧ (∃ r, parseExecute query = .ok r) ∧
      ∃ n, countParamsBytes query = .ok n) ↔ FrontSafe query := by
  have hcount : ∃ n, countParamsBytes query = .ok n :=
    ⟨_, countParamsBytes_eq query⟩
  rw [and_iff_left hcount]
  unfold FrontSafe
  by_cases hshort : byteLen (trim query) < 8
  · refine iff_of_true ⟨⟨none, ?_⟩, none, ?_⟩ (Or.inl hshort)
    · rw [parsePrepare, afterWord8_short _ hshort]
      rfl
    · rw [parseExecute, afterWord8_short _ hshort]
      rfl
  · rw [or_iff_right hshort]
    constructor
    · rintro ⟨⟨r, hr⟩, hexecute⟩
      obtain ⟨after, hafter, -⟩ := Fallible.bind_eq_ok.mp hr
      obtain ⟨head, tail, hsplit, h8⟩ := isBoundary_of_afterWord8 hshort hafter
      exact ⟨head, tail, hsplit, h8, (parsePrepare_split hsplit h8).mp ⟨r, hr⟩,
        (parseExecute_split hsplit h8).mp hexecute⟩
    · rintro ⟨head, tail, hsplit, h8, hprepare, hexecute⟩
      exact ⟨(parsePrepare_split hsplit h8).mpr hprepare,
        (parseExecute_split hsplit h8).mpr hexecute⟩

end Front

section Example

attribute [local instance] asciiUnicode integersOnly

/-- The eighth byte is in the middle of the last character. -/
theorem select_accent_panics :
    parsePrepare "SELECT é" = Fallible.panic .notCharBoundary ∧
      parseExecute "execute p using '" = Fallible.panic .notCharBoundary := by
      decide +kernel

end Example

end Fuse.Server
