import Fuse.Foundation.Boundaries
import Fuse.Server.Scan

/-!
# Sources and literals

`parse_sql_sources` looks for its keywords in the whole text and counts the
quotes before each of them.  A keyword inside a literal has an odd number of
quotes before it, also behind a doubled quote, so a text is read as if its
literals were empty.
-/

namespace Fuse.Server

open Foundation Fuse.Core List

section Scan

def tableToken (after : Str) : Str := (Str.trimStart after).takeWhile fun c =>
    !(Str.isWhitespace c || c == ',' || c == ')')

def refBetween (before after : Str) : Option TableRef :=
  if isWordStart before && before.count '\'' % 2 == 0 then
    Except.toOption (parseQualifiedName (tableToken after))
  else none

/-- The references of a text behind `before`. -/
def refsBehind (keyword : Str) : Str → Str → List TableRef
  | _, [] => []
  | before, c :: s =>
    (if keyword.isPrefixOf ((c :: s).map Char.toLower) then
      (refBetween before ((c :: s).drop keyword.length)).toList
    else []) ++ refsBehind keyword (before ++ [c]) s

def addRefs (refs found : List TableRef) : List TableRef :=
  found.foldl (fun refs r => addRef refs (some r)) refs

theorem toLower_ascii {c : Char} (h : c.toNat < 128) : c.toLower.toNat < 128 :=
  Str.forall_ascii (P := fun c => c.toLower.toNat < 128) (by decide) c h

theorem isWordStart_lower {before : Str} (h : ∀ c ∈ before, c.toNat < 128) :
    isWordStart (before.map Char.toLower) = isWordStart before := by
  have hchar : ∀ c : Char, c.toNat < 128 →
      (Str.isAsciiWhitespace c.toLower || c.toLower == '(' ||
        c.toLower == ',') = (Str.isAsciiWhitespace c || c == '(' || c == ',') :=
    Str.forall_ascii (by decide)
  unfold isWordStart
  rw [getLast?_map]
  cases hlast : before.getLast? with
  | none => rfl
  | some c => exact hchar c (h c (mem_of_getLast? hlast))

theorem toOption_parseQualifiedName (token : Str) :
    Fallible.toOption (parseQualifiedName token) =
      .ok (Except.toOption (parseQualifiedName token)) := by
  simp only [parseQualifiedName]
  split <;> rfl

theorem refAfter_eq {before s keyword : Str}
    (hascii : ∀ c ∈ before ++ s, c.toNat < 128)
    (hstarts : keyword.isPrefixOf (s.map Char.toLower) = true) :
    refAfter (before ++ s) ((before ++ s).map Char.toLower) keyword.length
        (Str.byteLen (before.map Char.toLower)) =
      .ok (refBetween before (s.drop keyword.length)) := by
  obtain ⟨hbefore, hs⟩ := forall_mem_append.mp hascii
  have hlength : keyword.length ≤ s.length := by
    have := ( isPrefixOf_iff_prefix.mp hstarts).length_le
    rwa [length_map] at this
  have hoffset : Str.byteLen (before.map Char.toLower) =
      Str.byteLen before := by
    rw [Str.byteLen_ascii hbefore, Str.byteLen_ascii, length_map]
    intro c hc
    obtain ⟨d, hd, rfl⟩ := mem_map.mp hc
    exact toLower_ascii (hbefore d hd)
  have hlower : Str.sliceTo ((before ++ s).map Char.toLower)
      (Str.byteLen (before.map Char.toLower)) =
          .ok (before.map Char.toLower) := by
    rw [map_append]
    exact Str.sliceTo_append _ _
  have htail : Str.sliceFrom (before ++ s)
    (Str.byteLen before + keyword.length) = .ok (s.drop keyword.length) := by
    have hkeyword : Str.byteLen (s.take keyword.length) = keyword.length := by
      rw [Str.byteLen_ascii fun c hc => hs c (mem_of_mem_take hc),
        length_take, Nat.min_eq_left hlength]
    have happend := Str.sliceFrom_append (before ++ s.take keyword.length)
      (s.drop keyword.length)
    rwa [append_assoc, take_append_drop, Str.byteLen_append, hkeyword]
      at happend
  unfold refAfter refBetween
  rw [hlower, hoffset, htail, Str.sliceTo_append]
  simp only [bind, Except.bind, isWordStart_lower hbefore, pure, Except.pure]
  cases isWordStart before with
  | false => simp
  | true =>
    cases heven : before.count '\'' % 2 == 0 with
    | true => exact toOption_parseQualifiedName (tableToken _)
    | false => rfl

theorem scanKeyword_behind (keyword before s : Str)
    (hascii : ∀ c ∈ before ++ s, c.toNat < 128)
    (refs : List TableRef) : ((Str.occurrences keyword (before.map Char.toLower)
        (s.map Char.toLower)).map Str.byteLen).foldlM (fun refs position => do
      return addRef refs (← refAfter (before ++ s)
        ((before ++ s).map Char.toLower) keyword.length position)) refs =
      .ok (addRefs refs (refsBehind keyword before s)) := by
  induction s generalizing before refs with
  | nil => rfl
  | cons c s ih =>
    have hsplit : before ++ c :: s = (before ++ [c]) ++ s := by simp
    have hmore : before.map Char.toLower ++ [c.toLower] =
        (before ++ [c]).map Char.toLower := by simp
    have hrest := ih (before ++ [c]) (by rwa [← hsplit])
    rw [← hsplit] at hrest
    rw [refsBehind, map_cons, Str.occurrences, hmore]
    split
    · rename_i hstarts
      rw [map_cons, foldlM_cons, refAfter_eq hascii hstarts]
      cases refBetween before ((c :: s).drop keyword.length) with
      | none => exact hrest refs
      | some r => exact hrest (addRef refs (some r))
    · exact hrest refs

end Scan

section Literals

def TokensOutside (keyword before s : Str) : Prop :=
  ∀ front back, s = front ++ back → keyword.isPrefixOf (back.map Char.toLower) =
    true → isWordStart (before ++ front) = true →
    (before ++ front).count '\'' % 2 = 0 →
    '\'' ∉ tableToken (back.drop keyword.length)

theorem tokensOutside_iff {keyword before s : Str} :
    TokensOutside keyword before s ↔ ∀ n ∈ List.range (s.length + 1),
      keyword.isPrefixOf ((s.drop n).map Char.toLower) = true →
      isWordStart (before ++ s.take n) = true →
      (before ++ s.take n).count '\'' % 2 = 0 →
        '\'' ∉ tableToken ((s.drop n).drop keyword.length) := by
  constructor
  · intro h n _
    exact h (s.take n) (s.drop n) (take_append_drop n s).symm
  · rintro h front back rfl
    have hmem : front.length ∈ List.range ((front ++ back).length + 1) := by
      rw [mem_range, length_append]
      omega
    have hfront := h front.length hmem
    rwa [drop_left, take_left] at hfront

instance (keyword before s : Str) :
    Decidable (TokensOutside keyword before s) :=
  decidable_of_iff _ tokensOutside_iff.symm

variable {c : Char} {keyword : Str}

theorem TokensOutside.tail {keyword before s : Str}
    (h : TokensOutside keyword before (c :: s)) :
    TokensOutside keyword (before ++ [c]) s := by
  intro front back hs hstarts hstart heven
  refine h (c :: front) back (by rw [hs, cons_append]) hstarts ?_ ?_
  · simpa using hstart
  · simpa using heven

structure SamePlace (inside : Bool) (before before' : Str) : Prop where
  parity : before.count '\'' % 2 = inside.toNat
  parity' : before'.count '\'' % 2 = inside.toNat
  last : inside = false → before.getLast? = before'.getLast?

theorem stripLiterals_code (h : c ≠ '\'') (s : Str) :
    stripLiterals false (c :: s) = c :: stripLiterals false s := by
  rw [stripLiterals]
  exact h

theorem stripLiterals_takeWhile {p : Char → Bool} {s : Str}
    (hquote : p '\'' = true)
    (h : '\'' ∉ s.takeWhile p) : (stripLiterals false s).takeWhile p =
      s.takeWhile p := by
  induction s with
  | nil => rfl
  | cons c s ih =>
    have hc : c ≠ '\'' := by
      rintro rfl
      simp [hquote] at h
    rw [stripLiterals_code hc]
    cases hp : p c with
    | true =>
      simp only [takeWhile_cons, hp, if_true, mem_cons, not_or] at h ⊢
      rw [ih h.2]
    | false => simp [hp]

theorem stripLiterals_dropWhile {p : Char → Bool} (hquote : p '\'' = false)
    (s : Str) :
    (stripLiterals false s).dropWhile p = stripLiterals false
    (s.dropWhile p) := by
  induction s with
  | nil => rfl
  | cons c s ih =>
    cases hp : p c with
    | true =>
      have hc : c ≠ '\'' := by
        rintro rfl
        simp [hquote] at hp
      rw [stripLiterals_code hc, dropWhile_cons_of_pos hp,
        dropWhile_cons_of_pos hp, ih]
    | false =>
      rw [dropWhile_cons_of_neg (by simp [hp])]
      by_cases hc : c = '\''
      · subst hc
        rw [stripLiterals, dropWhile_cons_of_neg (by simp [hp])]
      · rw [stripLiterals_code hc, dropWhile_cons_of_neg (by simp [hp])]

theorem isPrefixOf_stripLiterals (h : '\'' ∉ keyword) (s : Str) :
    keyword.isPrefixOf ((stripLiterals false s).map Char.toLower) =
      keyword.isPrefixOf (s.map Char.toLower) := by
  induction keyword generalizing s with
  | nil => simp
  | cons k keyword ih =>
    obtain ⟨hk, hrest⟩ := ne_and_not_mem_of_not_mem_cons h
    cases s with
    | nil => rfl
    | cons c s =>
      by_cases hc : c = '\''
      · subst hc
        have hquote : (k == '\'') = false := by simpa using Ne.symm hk
        simp [stripLiterals, List.isPrefixOf, hquote]
      · rw [stripLiterals_code hc]
        simp [List.isPrefixOf, ih hrest]

theorem drop_stripLiterals {keyword s : Str} (h : '\'' ∉ keyword)
    (hstarts : keyword.isPrefixOf (s.map Char.toLower) = true) :
    (stripLiterals false s).drop keyword.length =
      stripLiterals false (s.drop keyword.length) := by
  induction keyword generalizing s with
  | nil => rfl
  | cons k keyword ih =>
    obtain ⟨hk, hrest⟩ := ne_and_not_mem_of_not_mem_cons h
    cases s with
    | nil => rfl
    | cons c s =>
      simp only [map_cons, List.isPrefixOf, Bool.and_eq_true, beq_iff_eq]
        at hstarts
      have hc : c ≠ '\'' := by
        rintro rfl
        exact hk hstarts.1.symm
      rw [stripLiterals_code hc]
      exact ih hrest hstarts.2

theorem tableToken_stripLiterals {s : Str} (h : '\'' ∉ tableToken s) :
    tableToken (stripLiterals false s) = tableToken s := by
  unfold tableToken Str.trimStart at h ⊢
  rw [stripLiterals_dropWhile (by decide)]
  exact stripLiterals_takeWhile (by decide) h

theorem refsBehind_quote (hquote : '\'' ∉ keyword) (hne : keyword ≠ [])
    (before s : Str) : refsBehind keyword before ('\'' :: s) =
      refsBehind keyword (before ++ ['\'']) s := by
  have hnot : keyword.isPrefixOf (('\'' :: s).map Char.toLower) = false := by
    cases keyword with
    | nil => exact absurd rfl hne
    | cons k keyword =>
      have hk : k ≠ '\'' := (ne_of_not_mem_cons hquote).symm
      simp [List.isPrefixOf, hk]
  rw [refsBehind, hnot]
  rfl

theorem refsBehind_inside {keyword before : Str} {s : Str}
    (h : before.count '\'' % 2 = 1) :
    refsBehind keyword before (c :: s) = refsBehind keyword
    (before ++ [c]) s := by
  have hnone : ∀ after, refBetween before after = none := by
    intro after
    simp [refBetween, h]
  rw [refsBehind, hnone]
  split <;> rfl

namespace SamePlace

variable {before before' : Str}

theorem quote {inside : Bool} (h : SamePlace inside before before') :
    SamePlace (!inside) (before ++ ['\'']) (before' ++ ['\'']) where
  parity := by
    have := h.parity
    cases inside <;> simp at this ⊢ <;> omega
  parity' := by
    have := h.parity'
    cases inside <;> simp at this ⊢ <;> omega
  last := by simp

theorem code {c : Char} (hc : c ≠ '\'') (h : SamePlace false before before') :
    SamePlace false (before ++ [c]) (before' ++ [c]) where
  parity := by simpa [count_append, hc] using h.parity
  parity' := by simpa [count_append, hc] using h.parity'
  last := by simp

theorem content {c : Char} (hc : c ≠ '\'') (h : SamePlace true before before') :
    SamePlace true (before ++ [c]) before' where
  parity := by simpa [count_append, hc] using h.parity
  parity' := h.parity'
  last := by simp

theorem escape (h : SamePlace true before before') :
    SamePlace true (before ++ ['\''] ++ ['\'']) before' where
  parity := by
    have := h.parity
    simp at this ⊢
    omega
  parity' := h.parity'
  last := by simp

theorem refBetween_eq (h : SamePlace false before before') (after : Str) :
    refBetween before after = refBetween before' after := by
  have hstart : isWordStart before = isWordStart before' := by
    simp [isWordStart, h.last rfl]
  have hparity := h.parity.trans h.parity'.symm
  simp [refBetween, hstart, hparity]

end SamePlace

theorem refsBehind_strip (hquote : '\'' ∉ keyword) (hne : keyword ≠ [])
    (inside : Bool) (s before before' : Str)
    (hplace : SamePlace inside before before')
    (htokens : TokensOutside keyword before s) : refsBehind keyword before s =
      refsBehind keyword before' (stripLiterals inside s) := by
  fun_induction stripLiterals inside s generalizing before before' with
  | case1 inside => rfl
  | case2 rest ih =>
    rw [refsBehind_quote hquote hne, refsBehind_quote hquote hne]
    exact ih _ _ hplace.escape htokens.tail.tail
  | case3 rest hlone ih =>
    rw [refsBehind_quote hquote hne, refsBehind_quote hquote hne]
    exact ih _ _ hplace.quote htokens.tail
  | case4 rest ih =>
    rw [refsBehind_quote hquote hne, refsBehind_quote hquote hne]
    exact ih _ _ hplace.quote htokens.tail
  | case5 c rest hescape hclose ih =>
    rw [refsBehind_inside hplace.parity]
    exact ih _ _ (hplace.content hclose) htokens.tail
  | case6 c rest hc ih =>
    have hcode := stripLiterals_code hc rest
    have hstarts := isPrefixOf_stripLiterals hquote (c :: rest)
    rw [hcode] at hstarts
    rw [refsBehind, refsBehind, hstarts, ih _ _ (hplace.code hc) htokens.tail]
    congr 1
    split
    · rename_i hkeyword
      rw [← hcode, drop_stripLiterals hquote hkeyword, ← hplace.refBetween_eq]
      cases hstart : isWordStart before with
      | false => simp [refBetween, hstart]
      | true =>
        have htoken := htokens [] (c :: rest) rfl hkeyword
          (by simpa using hstart)
          (by simpa using hplace.parity)
        simp [refBetween, tableToken_stripLiterals htoken]
    · rfl

end Literals

section Sources

variable [Unicode]

/-- No literal starts in the token that follows `FROM` or `JOIN`. -/
def LiteralsOutside (query : Str) : Prop :=
  TokensOutside "from " [] query ∧ TokensOutside "join " [] query

instance (query : Str) : Decidable (LiteralsOutside query) :=
  inferInstanceAs (Decidable (_ ∧ _))

private theorem scanKeyword_eq {query rest : Str} {c : Char} (h : c ∉ rest)
    (hascii : ∀ d ∈ query, d.toNat < 128) (refs : List TableRef) :
    scanKeyword query (toLowercase query) (c :: rest) refs =
      .ok (addRefs refs (refsBehind (c :: rest) [] query)) := by
  rw [Unicode.toLowercase_ascii query hascii, scanKeyword,
    Str.matchIndices_eq h]
  exact scanKeyword_behind (c :: rest) [] query hascii refs

theorem parseSqlSources_ascii {query : Str}
    (hascii : ∀ c ∈ query, c.toNat < 128) :
    parseSqlSources query =
      let refs := addRefs (addRefs [] (refsBehind "from " [] query))
        (refsBehind "join " [] query)
      if refs.isEmpty then
        Fallible.fail
          ("SQL query must contain a FROM clause with a qualified " ++
            "datasource.table reference")
      else .ok refs := by
  have hfrom : ∀ refs, scanKeyword query (toLowercase query) "from " refs =
      .ok (addRefs refs (refsBehind "from " [] query)) :=
    scanKeyword_eq (by decide) hascii
  have hjoin : ∀ refs, scanKeyword query (toLowercase query) "join " refs =
      .ok (addRefs refs (refsBehind "join " [] query)) :=
    scanKeyword_eq (by decide) hascii
  simp only [parseSqlSources, hfrom, hjoin, bind, Except.bind]
  rfl

omit [Unicode] in
theorem mem_of_mem_stripLiterals {inside : Bool} {s : Str} {c : Char}
    (h : c ∈ stripLiterals inside s) : c ∈ s := by
  fun_induction stripLiterals inside s with
  | case1 inside => cases h
  | case2 rest ih => exact mem_cons_of_mem _ (mem_cons_of_mem _ (ih h))
  | case3 rest hlone ih | case4 rest ih | case6 d rest hd ih =>
    rcases mem_cons.mp h with rfl | h
    · exact mem_cons_self
    · exact mem_cons_of_mem _ (ih h)
  | case5 d rest hescape hclose ih => exact mem_cons_of_mem _ (ih h)

theorem parseSqlSources_strip {query : Str}
    (hascii : ∀ c ∈ query, c.toNat < 128) (houtside : LiteralsOutside query) :
    parseSqlSources query = parseSqlSources (stripStringLiterals query) := by
  have hstart : SamePlace false [] [] := ⟨rfl, rfl, fun _ => rfl⟩
  have hfrom := refsBehind_strip (by decide) (by decide) false query []
    [] hstart houtside.1
  have hjoin := refsBehind_strip (by decide) (by decide) false query []
    [] hstart houtside.2
  rw [parseSqlSources_ascii hascii, hfrom, hjoin, parseSqlSources_ascii]
  · rfl
  · exact fun c hc => hascii c (mem_of_mem_stripLiterals hc)

/-- Queries that differ in what their literals hold have the same sources. -/
theorem parseSqlSources_literals {query query' : Str}
    (hascii : ∀ c ∈ query, c.toNat < 128)
    (hascii' : ∀ c ∈ query', c.toNat < 128)
    (houtside : LiteralsOutside query) (houtside' : LiteralsOutside query')
    (hsame : stripStringLiterals query = stripStringLiterals query') :
    parseSqlSources query = parseSqlSources query' := by
  rw [parseSqlSources_strip hascii houtside, hsame,
    ← parseSqlSources_strip hascii' houtside']

end Sources

section Examples

attribute [local instance] asciiUnicode

def greetingQuery : Str := "SELECT 'hi' FROM a.t JOIN b.u ON x = 'it''s'"

def sourceInLiteral : Str :=
  "SELECT ' from c.v '' join d.w ' FROM a.t JOIN b.u ON x = ''"

theorem greeting_sources :
    parseSqlSources greetingQuery = parseSqlSources sourceInLiteral :=
  parseSqlSources_literals (Str.ascii_of_all rfl) (Str.ascii_of_all rfl)
    (by decide +kernel) (by decide +kernel) (by decide +kernel)

end Examples

end Fuse.Server
