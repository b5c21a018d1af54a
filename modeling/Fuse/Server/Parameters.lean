import Fuse.Foundation.Templates
import Fuse.Server.Statements
import Mathlib.Data.List.Chain
import Mathlib.Data.List.TakeWhile

/-!
# Binding parameters

`bind_params` and `bind_positional` put the values into a template by
replacing `$name` in the whole text, one name after the other.  Here this is
compared with what a database does for parameters: the placeholders outside
string literals get their values, all at once, and a string arrives as one
literal.
-/

namespace Fuse.Server

open Foundation Fuse.Core Template List

/-! ## String literals -/

def decodeBody : Str → Option Str
  | [] => none
  | c :: s =>
    if c = '\'' then
      match s with
      | [] => some []
      | d :: s => if d = '\'' then (decodeBody s).map ('\'' :: ·) else none
    else (decodeBody s).map (c :: ·)

def decodeLiteral : Str → Option Str
  | [] => none
  | c :: s => if c = '\'' then decodeBody s else none

/-- A text stands between two others as one literal with the content: not in
another literal, and not grown together with one beside it. -/
structure LiteralAt (before literal after content : Str) : Prop where
  outside : before.count '\'' % 2 = 0
  starts : before.getLast? ≠ some '\''
  content : decodeLiteral literal = some content
  ends : after.head? ≠ some '\''

def escaped (s : Str) : Str :=
  s.flatMap fun c => if c = '\'' then ['\'', '\''] else [c]

theorem escaped_quote (s : Str) :
    escaped ('\'' :: s) = '\'' :: '\'' :: escaped s :=
  rfl

theorem escaped_cons {c : Char} (hc : c ≠ '\'') (s : Str) :
    escaped (c :: s) = c :: escaped s := by
  rw [escaped, flatMap_cons, if_neg hc]
  rfl

theorem quote_eq (s : Str) :
    ParamValue.quote s = '\'' :: (escaped s ++ ['\'']) := by
  have hreplace : Str.replace "'" "''" s = escaped s :=
    Str.replace_singleton '\'' _ s
  rw [ParamValue.quote, hreplace]
  rfl

theorem decodeLiteral_quote (s : Str) :
    decodeLiteral (ParamValue.quote s) = some s := by
  rw [quote_eq, decodeLiteral, if_pos rfl]
  induction s with
  | nil => rfl
  | cons c s ih =>
    by_cases hc : c = '\''
    · subst hc
      exact congrArg (Option.map ('\'' :: ·)) ih
    have hstep : decodeBody (c :: (escaped s ++ ['\''])) =
        (decodeBody (escaped s ++ ['\''])).map (c :: ·) := by
      rw [decodeBody.eq_def]
      exact if_neg hc
    rw [escaped_cons hc, cons_append, hstep, ih]
    rfl

theorem count_escaped (s : Str) : (escaped s).count '\'' % 2 = 0 := by
  induction s with
  | nil => rfl
  | cons c s ih =>
    by_cases hc : c = '\''
    · subst hc
      rw [escaped_quote, count_cons_self, count_cons_self]
      omega
    · rw [escaped_cons hc, count_cons_of_ne hc]
      exact ih

theorem count_before_sigil_escaped {s u v : Str}
    (h : escaped s ++ ['\''] = u ++ '$' :: v) : u.count '\'' % 2 = 0 := by
  induction s generalizing u with
  | nil =>
    rcases u with - | ⟨x, u⟩
    · cases (List.cons.inj h).1
    · cases u <;> cases (List.cons.inj h).2
  | cons c s ih =>
    rcases u with - | ⟨x, u⟩
    · rfl
    by_cases hc : c = '\''
    · subst hc
      obtain ⟨hx, htail⟩ := List.cons.inj h
      rcases u with - | ⟨y, u⟩
      · cases (List.cons.inj htail).1
      obtain ⟨hy, htail⟩ := List.cons.inj htail
      have hcount := ih htail
      rw [← hx, ← hy, count_cons_self, count_cons_self]
      omega
    · rw [escaped_cons hc] at h
      obtain ⟨rfl, htail⟩ := List.cons.inj h
      rw [count_cons_of_ne hc]
      exact ih htail

/-- In a quoted text `$` comes after an odd number of quotes. -/
theorem count_before_sigil {s u v : Str}
    (h : ParamValue.quote s = u ++ '$' :: v) : u.count '\'' % 2 = 1 := by
  rw [quote_eq] at h
  rcases u with - | ⟨x, u⟩
  · cases (List.cons.inj h).1
  obtain ⟨hx, htail⟩ := List.cons.inj h
  have hcount := count_before_sigil_escaped htail
  rw [← hx, count_cons_self]
  omega

namespace ParamValue

def isNumberChar (c : Char) : Bool :=
  c.isDigit || c == '+' || c == '-' || c == '.' || c == 'e' || c == 'E'

def WellFormed : ParamValue → Prop
  | number text => text ≠ [] ∧ text.all isNumberChar = true
  | _ => True

instance : DecidablePred WellFormed
  | number _ => inferInstanceAs (Decidable (_ ∧ _))
  | string _ | bool _ | null | other _ => isTrue trivial

def quoted : ParamValue → Bool
  | string _ | other _ => true
  | _ => false

variable {v : ParamValue}

theorem toSql_quoted (h : v.quoted = true) : ∃ s, v.toSql = quote s := by
  cases v with
  | string s => exact ⟨s, rfl⟩
  | other text => exact ⟨text, rfl⟩
  | number text | bool b | null => cases h

theorem toSql_plain (hv : v.WellFormed) (h : v.quoted = false) :
    v.toSql ≠ [] ∧ ∀ c ∈ v.toSql, c ≠ '\'' ∧ c ≠ '$' := by
  cases v with
  | string s | other text => cases h
  | number text =>
    refine ⟨hv.1, fun c hc => ?_⟩
    have hchar := all_eq_true.mp hv.2 c hc
    constructor <;> (rintro rfl; revert hchar; decide)
  | bool b =>
    have hall : (ParamValue.bool b).toSql.all
        (fun c => c ≠ '\'' ∧ c ≠ '$') = true := by cases b <;> rfl
    refine ⟨by cases b <;> exact cons_ne_nil _ _, fun c hc => ?_⟩
    exact of_decide_eq_true (all_eq_true.mp hall c hc)
  | null =>
    have hall : ParamValue.null.toSql.all (fun c => c ≠ '\'' ∧ c ≠ '$') =
      true := rfl
    refine ⟨cons_ne_nil _ _, fun c hc => ?_⟩
    exact of_decide_eq_true (all_eq_true.mp hall c hc)

theorem toSql_head (hv : v.WellFormed) :
    ∃ c rest, v.toSql = c :: rest ∧ c ≠ '$' := by
  cases hq : v.quoted with
  | true =>
    obtain ⟨s, hs⟩ := toSql_quoted hq
    rw [hs, quote_eq]
    exact ⟨_, _, rfl, by decide⟩
  | false =>
    obtain ⟨hne, hchars⟩ := toSql_plain hv hq
    obtain ⟨c, rest, hcons⟩ := exists_cons_of_ne_nil hne
    exact ⟨c, rest, hcons, (hchars c (hcons ▸ mem_cons_self)).2⟩

theorem toSql_edges (hv : v.WellFormed) :
    (v.toSql.head? = some '\'' ↔ v.quoted = true) ∧
      (v.toSql.getLast? = some '\'' ↔ v.quoted = true) := by
  cases hq : v.quoted with
  | true =>
    obtain ⟨s, hs⟩ := toSql_quoted hq
    rw [hs, quote_eq]
    refine ⟨by simp, ?_⟩
    rw [← cons_append]
    exact iff_of_true getLast?_concat rfl
  | false =>
    obtain ⟨-, hchars⟩ := toSql_plain hv hq
    refine ⟨iff_of_false (fun h => ?_) (by simp),
      iff_of_false (fun h => ?_) (by simp)⟩
    · exact (hchars _ (mem_of_mem_head? h)).1 rfl
    · exact (hchars _ (mem_of_mem_getLast? h)).1 rfl

theorem count_toSql (hv : v.WellFormed) : v.toSql.count '\'' % 2 = 0 := by
  cases hq : v.quoted with
  | true =>
    obtain ⟨s, hs⟩ := toSql_quoted hq
    have hcount := count_escaped s
    rw [hs, quote_eq, count_cons_self, count_append, count_singleton_self]
    omega
  | false =>
    have hnone : '\'' ∉ v.toSql := fun h => ((toSql_plain hv hq).2 _ h).1 rfl
    rw [count_eq_zero_of_not_mem hnone]

end ParamValue

open ParamValue

section Placeholders

variable (isName : Char → Bool) (names : List Str)

/-- The placeholders of a text are the names after `$`, as long as they go,
outside string literals; other text is kept as it is. -/
def placeholdersFrom : Bool → Nat → Str → List Piece
  | _, _, [] => []
  | inside, skip + 1, _ :: s => placeholdersFrom inside skip s
  | inside, 0, c :: s =>
    if c = '\'' then .char c none :: placeholdersFrom (!inside) 0 s
    else if inside = false ∧ c = '$' ∧ s.takeWhile isName ∈ names then
      .slot (s.takeWhile isName) :: placeholdersFrom inside
        (s.takeWhile isName).length s
    else .char c none :: placeholdersFrom inside 0 s

def placeholders (template : Str) : List Piece :=
  placeholdersFrom isName names false 0 template

variable {isName names}

theorem takeWhile_append_drop (s : Str) :
    s.takeWhile isName ++ s.drop (s.takeWhile isName).length = s :=
  (prefix_iff_eq_append.mp ( takeWhile_prefix isName))

theorem sourced_placeholdersFrom (inside : Bool) (skip : Nat) (s : Str) :
    sourced (placeholdersFrom isName names inside skip s) =
      (s.drop skip).map (·, none) := by
  induction s generalizing inside skip with
  | nil => simp [placeholdersFrom, sourced]
  | cons c s ih =>
    cases skip with
    | succ skip => exact ih inside skip
    | zero =>
      unfold placeholdersFrom
      split
      · rw [sourced_cons, ih]
        rfl
      split
      · rename_i hslot
        have hslotText : (Piece.slot (s.takeWhile isName)).sourced =
            ('$' :: s.takeWhile isName).map (·, none) := rfl
        rw [sourced_cons, ih, hslot.2.1, hslotText, ← map_append,
          cons_append, takeWhile_append_drop]
        rfl
      · rw [sourced_cons, ih]
        rfl

theorem sourced_placeholders (template : Str) :
    sourced (placeholders isName names template) = template.map (·, none) :=
  sourced_placeholdersFrom false 0 template

variable {inside : Bool} {skip : Nat} {s : Str}

theorem mem_placeholdersFrom {p : Piece}
    (h : p ∈ placeholdersFrom isName names inside skip s) :
    (∃ c, p = .char c none) ∨ ∃ n, p = .slot n ∧ n ∈ names ∧ ∀ c ∈ n,
    isName c = true := by
  induction s generalizing inside skip with
  | nil => cases skip <;> cases h
  | cons c s ih =>
    cases skip with
    | succ skip => exact ih h
    | zero =>
      unfold placeholdersFrom at h
      split at h
      · rcases mem_cons.mp h with rfl | h
        · exact Or.inl ⟨c, rfl⟩
        · exact ih h
      split at h
      · rename_i hslot
        rcases mem_cons.mp h with rfl | h
        · exact Or.inr ⟨_, rfl, hslot.2.2, fun c hc => mem_takeWhile_imp hc⟩
        · exact ih h
      · rcases mem_cons.mp h with rfl | h
        · exact Or.inl ⟨c, rfl⟩
        · exact ih h

theorem fits_placeholders {left : List Str} (hsigil : isName '$' = false)
    (hleft : ∀ n ∈ names, n ∈ left) (template : Str) :
    Fits left (placeholders isName names template) := by
  intro p hp
  rcases mem_placeholdersFrom hp with ⟨c, rfl⟩ | ⟨n, rfl, hn, hname⟩
  · intro n hnone
    cases hnone
  · refine ⟨hleft n hn, fun hmem => ?_⟩
    rw [hname '$' hmem] at hsigil
    cases hsigil

theorem count_takeWhile (hquote : isName '\'' = false) (s : Str) :
    (s.takeWhile isName).count '\'' = 0 := by
  refine count_eq_zero_of_not_mem fun hmem => ?_
  rw [mem_takeWhile_imp hmem] at hquote
  cases hquote

theorem count_before_slot {before after : List Piece} {n : Str}
    (hquote : isName '\'' = false)
    (h : placeholdersFrom isName names inside skip s = before ++ .slot n ::
      after) :
    ((text before).count '\'' + inside.toNat) % 2 = 0 := by
  induction s generalizing inside skip before with
  | nil => cases skip <;> cases before <;> cases h
  | cons c s ih =>
    cases skip with
    | succ skip => exact ih h
    | zero =>
      unfold placeholdersFrom at h
      split at h
      · rename_i hc
        rcases before with - | ⟨p, before⟩
        · cases h
        obtain ⟨rfl, htail⟩ := List.cons.inj h
        have hcount := ih htail
        rw [text_char, hc, count_cons_self]
        cases inside <;> simp at hcount ⊢ <;> omega
      · rename_i hc
        split at h
        · rename_i hslot
          rcases before with - | ⟨p, before⟩
          · rw [hslot.1]
            rfl
          obtain ⟨rfl, htail⟩ := List.cons.inj h
          have hcount := ih htail
          rw [text_slot, count_cons_of_ne (by decide),
            count_append, count_takeWhile hquote, Nat.zero_add]
          exact hcount
        · rcases before with - | ⟨p, before⟩
          · cases h
          · obtain ⟨rfl, htail⟩ := List.cons.inj h
            have hcount := ih htail
            rwa [text_char, count_cons_of_ne hc]

theorem exists_sigil_cons {c : Char} {P : Str → Str → Prop} :
    (∃ u v, c :: s = u ++ '$' :: v ∧ P u v) ↔
      (c = '$' ∧ P [] s) ∨ ∃ u v, s = u ++ '$' :: v ∧ P (c :: u) v := by
  constructor
  · rintro ⟨u, v, heq, hP⟩
    rcases u with - | ⟨x, u⟩
    · obtain ⟨rfl, rfl⟩ := List.cons.inj heq
      exact Or.inl ⟨rfl, hP⟩
    · obtain ⟨rfl, htail⟩ := List.cons.inj heq
      exact Or.inr ⟨u, v, htail, hP⟩
  · rintro (⟨rfl, hP⟩ | ⟨u, v, rfl, hP⟩)
    · exact ⟨[], s, rfl, hP⟩
    · exact ⟨c :: u, v, rfl, hP⟩

theorem exists_sigil_drop (hsigil : isName '$' = false)
    (hquote : isName '\'' = false)
    {P : Nat → Str → Prop} : (∃ u v, s = u ++ '$' :: v ∧ P (u.count '\'') v) ↔
      ∃ u v, s.drop (s.takeWhile isName).length = u ++ '$' :: v ∧
      P (u.count '\'') v := by
  constructor
  · rintro ⟨u, v, rfl, hP⟩
    have hrun : (u ++ '$' :: v).takeWhile isName = u.takeWhile isName := by
      rw [takeWhile_append]
      split
      · rename_i hall
        rw [takeWhile_cons_of_neg (by simp [hsigil]), append_nil,
          ( takeWhile_prefix isName).eq_of_length hall]
      · rfl
    refine ⟨u.drop (u.takeWhile isName).length, v, ?_, ?_⟩
    · rw [hrun, drop_append_of_le_length ( takeWhile_prefix isName).length_le]
    · have hsplit : u.takeWhile isName ++ _ = u := takeWhile_append_drop u
      have hcount := congrArg (List.count '\'') hsplit
      rw [count_append, count_takeWhile hquote, Nat.zero_add] at hcount
      rwa [hcount]
  · rintro ⟨u, v, hdrop, hP⟩
    refine ⟨s.takeWhile isName ++ u, v, ?_, ?_⟩
    · rw [append_assoc, ← hdrop, takeWhile_append_drop]
    · rwa [count_append, count_takeWhile hquote, Nat.zero_add]

theorem slot_mem_placeholdersFrom (hsigil : isName '$' = false)
    (hquote : isName '\'' = false) {s n : Str} :
    .slot n ∈ placeholdersFrom isName names inside skip s ↔ ∃ u v,
    s.drop skip = u ++ '$' :: v ∧
        (u.count '\'' + inside.toNat) % 2 = 0 ∧ v.takeWhile isName = n ∧
        n ∈ names := by
  induction s generalizing inside skip with
  | nil => simp [placeholdersFrom]
  | cons c s ih =>
    cases skip with
    | succ skip => exact ih
    | zero =>
      unfold placeholdersFrom
      rw [drop_zero, exists_sigil_cons]
      split
      · rename_i hc
        rw [mem_cons, or_iff_right (by simp), ih, drop_zero,
          or_iff_right (by simp [hc])]
        refine exists_congr fun u => exists_congr fun v =>
          and_congr_right fun _ => and_congr_left fun _ => ?_
        rw [hc, count_cons_self]
        cases inside
        · simp
        · simp
          omega
      · rename_i hc
        split
        · rename_i hslot
          obtain ⟨rfl, rfl, hrun⟩ := hslot
          have hrest := exists_sigil_drop hsigil hquote (s := s)
            (P := fun k v => (k + false.toNat) % 2 = 0 ∧
              v.takeWhile isName = n ∧ n ∈ names)
          rw [mem_cons, ih, ← hrest]
          refine or_congr ?_ ?_
          · constructor
            · intro hn
              obtain rfl := Piece.slot.inj hn
              exact ⟨rfl, rfl, rfl, hrun⟩
            · rintro ⟨-, -, rfl, -⟩
              rfl
          · refine exists_congr fun u => exists_congr fun v => ?_
            rw [count_cons_of_ne hc]
        · rename_i hslot
          rw [mem_cons, or_iff_right (by simp), ih, drop_zero, or_iff_right]
          · refine exists_congr fun u => exists_congr fun v =>
              and_congr_right fun _ => and_congr_left fun _ => ?_
            rw [count_cons_of_ne hc]
          · rintro ⟨rfl, heven, rfl, hmem⟩
            refine hslot ⟨?_, rfl, hmem⟩
            cases inside
            · rfl
            · cases heven

end Placeholders

/-! ## Named parameters -/

def rendered (params : Params) : List (Str × Str) :=
  params.map fun p => (p.1, p.2.toSql)

def sortedParams (params : Params) : Params :=
  params.insertionSort fun a b => Str.byteLen b.1 ≤ Str.byteLen a.1

/-- The text of `bind_params`, with the parameter each character comes from. -/
def boundSources (query : Str) (params : Params) : List SourcedChar :=
  replaceAll (rendered (sortedParams params)) (query.map (·, none))

theorem map_boundSources (query : Str) (params : Params) :
    (boundSources query params).map Prod.fst = bindParams query params := by
  rw [boundSources, map_replaceAll, map_fst_pair, rendered, foldl_map]
  rfl

section Named

theorem lookup_rendered (params : Params) (n : Str) :
    (rendered params).lookup n = (params.lookup n).map toSql := by
  induction params with
  | nil => rfl
  | cons p params ih =>
    rw [rendered, map_cons, lookup_cons, lookup_cons]
    split
    · rfl
    · exact ih

theorem lookup_eq_some_iff_mem {β : Type} {l : List (Str × β)} {n : Str} {b : β}
    (hnodup : (l.map Prod.fst).Nodup) : l.lookup n = some b ↔ (n, b) ∈ l := by
  induction l with
  | nil => simp
  | cons p l ih =>
    obtain ⟨m, a⟩ := p
    obtain ⟨hm, hl⟩ := nodup_cons.mp hnodup
    rw [mem_cons]
    by_cases hn : n = m
    · subst hn
      have hnot : (n, b) ∉ l := fun hmem =>
        hm (mem_map.mpr ⟨(n, b), hmem, rfl⟩)
      rw [lookup_cons_self, Option.some.injEq, Prod.mk.injEq,
        or_iff_left hnot, and_iff_right rfl, eq_comm]
    · have hne : (n, b) ≠ (m, a) := fun h => hn (congrArg Prod.fst h)
      rw [lookup_cons, beq_eq_false_iff_ne.mpr hn, or_iff_right hne]
      exact ih hl

theorem lookup_eq_of_perm {ordered params : Params}
    (hkeys : (params.map Prod.fst).Nodup)
    (hperm : ordered.Perm params) (n : Str) :
    ordered.lookup n = params.lookup n := by
  have hordered : (ordered.map Prod.fst).Nodup :=
    (hperm.map Prod.fst).nodup_iff.mpr hkeys
  refine Option.ext fun v => ?_
  rw [lookup_eq_some_iff_mem hordered, lookup_eq_some_iff_mem hkeys,
    hperm.mem_iff]

variable (isName : Char → Bool) (query : Str) (params : Params)

def paramPieces : List Piece := placeholders isName (params.map Prod.fst) query

structure BindsLikeValues : Prop where
  allAtOnce : boundSources query params =
    sourced (bindAll (rendered params) (paramPieces isName query params))
  text : bindParams query params =
    Template.text (bindAll (rendered params) (paramPieces isName query params))
  literal : ∀ before n after s, paramPieces isName query params = before ++
    .slot n :: after → params.lookup n = some (.string s) →
        LiteralAt (Template.text (bindAll (rendered params) before))
        (string s).toSql
          (Template.text (bindAll (rendered params) after)) s

/-- When a name is replaced, those sorted before it being bound, `$name` stands
only where the template has that placeholder. -/
def BindsClean : Prop :=
  Clean (rendered (sortedParams params)) (paramPieces isName query params)

variable {isName query params}

def isStringSlot (params : Params) : Piece → Bool
  | .char _ _ => false
  | .slot n => match params.lookup n with
      | some (.string _) => true
      | _ => false

variable {p : Piece}

theorem isStringSlot_iff : isStringSlot params p = true ↔
      ∃ n s, p = .slot n ∧ params.lookup n = some (.string s) := by
  cases p with
  | char c origin => simp [isStringSlot]
  | slot n =>
    cases hv : params.lookup n with
    | none => simp [isStringSlot, hv]
    | some v => cases v <;> simp [isStringSlot, hv]

def quoteEdge (params : Params) : Piece → Bool
  | .char c _ => c == '\''
  | .slot n => ((params.lookup n).map quoted).getD false

variable (isName query params) in
/-- No placeholder of a string stands beside a quote or beside another
placeholder that is written as a literal. -/
def StandApart : Prop := (paramPieces isName query params).IsChain fun p q =>
    (isStringSlot params p && quoteEdge params q ||
      quoteEdge params p && isStringSlot params q) = false

instance : Decidable (BindsClean isName query params) := decidableClean _ _

instance : Decidable (StandApart isName query params) :=
  inferInstanceAs (Decidable (List.IsChain _ _))

variable (hkeys : (params.map Prod.fst).Nodup)
  (hvalues : ∀ p ∈ params, p.2.WellFormed)

include hkeys hvalues

theorem exists_value {n : Str} (h : n ∈ params.map Prod.fst) :
    ∃ v, params.lookup n = some v ∧ v.WellFormed ∧
      text (bindPiece (rendered params) (.slot n)) = v.toSql := by
  obtain ⟨⟨n', v⟩, hmem, rfl⟩ := mem_map.mp h
  have hlookup := (lookup_eq_some_iff_mem hkeys).mpr hmem
  refine ⟨v, hlookup, hvalues _ hmem, ?_⟩
  rw [bindPiece, lookup_rendered, hlookup]
  exact text_chars _ _

theorem text_bindPiece_edges (hp : p ∈ paramPieces isName query params) :
    text (bindPiece (rendered params) p) ≠ [] ∧
      ((text (bindPiece (rendered params) p)).head? = some '\'' ↔
        quoteEdge params p = true) ∧
      ((text (bindPiece (rendered params) p)).getLast? = some '\'' ↔
        quoteEdge params p = true) := by
  rcases mem_placeholdersFrom hp with ⟨c, rfl⟩ | ⟨n, rfl, hn, -⟩
  · simp [bindPiece, quoteEdge]
  obtain ⟨v, hv, hwf, htext⟩ := exists_value hkeys hvalues hn
  obtain ⟨c, rest, hcons, -⟩ := toSql_head hwf
  have hedge : quoteEdge params (.slot n) = v.quoted := by
    rw [quoteEdge, hv]
    rfl
  rw [htext, hedge]
  exact ⟨by rw [hcons]; exact cons_ne_nil c rest, toSql_edges hwf⟩

theorem replaceAll_iff (hsigil : isName '$' = false) {ordered : Params}
    (hperm : ordered.Perm params) :
    replaceAll (rendered ordered) (query.map (·, none)) =
        sourced (bindAll (rendered params) (paramPieces isName query params)) ↔
      Clean (rendered ordered) (paramPieces isName query params) := by
  have hnames : (rendered ordered).map Prod.fst = ordered.map Prod.fst := by
    rw [rendered, map_map]
    rfl
  have hlookup : ∀ n, (rendered params).lookup n =
      (rendered ordered).lookup n := fun n => by
    rw [lookup_rendered, lookup_rendered, lookup_eq_of_perm hkeys hperm]
  rw [bindAll_congr hlookup, ← sourced_placeholders]
  refine replaceAll_eq_iff ?_ ?_ ?_
  · rw [hnames]
    exact (hperm.map Prod.fst).nodup_iff.mpr hkeys
  · intro v hv
    obtain ⟨p, hp, rfl⟩ := mem_map.mp hv
    exact toSql_head (hvalues p (hperm.mem_iff.mp hp))
  · refine fits_placeholders hsigil (fun n hn => ?_) query
    rw [hnames]
    exact (hperm.map Prod.fst).mem_iff.mpr hn

theorem count_bindAll (hquote : isName '\'' = false) {ps : List Piece}
    (hps : ∀ p ∈ ps, p ∈ paramPieces isName query params) :
    (text (bindAll (rendered params) ps)).count '\'' % 2 =
      (text ps).count '\'' % 2 := by
  induction ps with
  | nil => rfl
  | cons p ps ih =>
    obtain ⟨hp, hps⟩ := forall_mem_cons.mp hps
    have hrest := ih hps
    rcases mem_placeholdersFrom hp with ⟨c, rfl⟩ | ⟨n, rfl, hn, hname⟩
    · have hbind : bindAll (rendered params) (.char c none :: ps) =
          .char c none :: bindAll (rendered params) ps := rfl
      rw [hbind, text_char, text_char, count_cons, count_cons]
      omega
    · obtain ⟨v, -, hwf, htext⟩ := exists_value hkeys hvalues hn
      have hnone : n.count '\'' = 0 := by
        refine count_eq_zero_of_not_mem fun hmem => ?_
        rw [hname _ hmem] at hquote
        cases hquote
      have hvalue := count_toSql hwf
      rw [bindAll_cons, text_append, htext, text_slot,
        count_cons_of_ne (by decide), count_append, count_append, hnone]
      omega

/-- Outside literals a bound text has a sigil only where the template has one
that is no placeholder. -/
theorem sigil_bindAll (hquote : isName '\'' = false) {u v : Str}
    (h : text (bindAll (rendered params) (paramPieces isName query params)) =
      u ++ '$' :: v)
    (heven : u.count '\'' % 2 = 0) :
    ∃ before after, paramPieces isName query params = before ++
    .char '$' none :: after ∧ (text before).count '\'' % 2 = 0 ∧
      v = text (bindAll (rendered params) after) := by
  obtain ⟨before, p, after, u', v', hsplit, rfl, hp, rfl⟩ :=
    text_bindAll_split h
  have hcount : (text (bindAll (rendered params) before)).count '\'' % 2 =
      (text before).count '\'' % 2 :=
    count_bindAll hkeys hvalues hquote fun q hq =>
      hsplit ▸ mem_append_left _ hq
  have hmem : p ∈ paramPieces isName query params := by simp [hsplit]
  rw [count_append] at heven
  rcases mem_placeholdersFrom hmem with ⟨c, rfl⟩ | ⟨n, rfl, hn, -⟩
  · have hchar : [c] = u' ++ '$' :: v' := hp
    rcases u' with - | ⟨x, u'⟩
    · obtain ⟨rfl, rfl⟩ := List.cons.inj hchar
      rw [count_nil, Nat.add_zero, hcount] at heven
      exact ⟨before, after, hsplit, heven, rfl⟩
    · cases u' <;> cases (List.cons.inj hchar).2
  · obtain ⟨w, -, hwf, htext⟩ := exists_value hkeys hvalues hn
    have houtside := count_before_slot hquote hsplit
    rw [htext] at hp
    cases hq : w.quoted with
    | true =>
      -- the sigil is in a literal of its own
      obtain ⟨s, hs⟩ := toSql_quoted hq
      have hodd := count_before_sigil (hs.symm.trans hp)
      simp at houtside
      omega
    | false =>
      have hsigil : '$' ∈ w.toSql := by simp [hp]
      exact (((toSql_plain hwf hq).2 _ hsigil).2 rfl).elim

theorem head_bindAll (hp : p ∈ paramPieces isName query params)
    (ps : List Piece) :
    (text (bindAll (rendered params) (p :: ps))).head? = some '\'' ↔
    quoteEdge params p = true := by
  obtain ⟨hne, hhead, -⟩ := text_bindPiece_edges hkeys hvalues hp
  rw [bindAll_cons, text_append, head?_append_of_ne_nil _ hne, hhead]

theorem last_bindAll (hp : p ∈ paramPieces isName query params)
    (ps : List Piece) :
    (text (bindAll (rendered params) (ps ++ [p]))).getLast? = some '\'' ↔
      quoteEdge params p = true := by
  obtain ⟨hne, -, hlast⟩ := text_bindPiece_edges hkeys hvalues hp
  have hbind : bindAll (rendered params) [p] = bindPiece (rendered params) p :=
    append_nil _
  rw [bindAll_append, text_append, hbind, getLast?_append_of_ne_nil _ hne,
    hlast]

theorem literal_iff (hquote : isName '\'' = false) :
    (∀ before n after s, paramPieces isName query params = before ++ .slot n ::
      after → params.lookup n = some (.string s) →
        LiteralAt (text (bindAll (rendered params) before))
            (string s).toSql (text (bindAll (rendered params) after)) s) ↔
      StandApart isName query params := by
  unfold StandApart
  rw [isChain_iff_forall_rel_of_append_cons_cons]
  constructor
  · intro hliteral p q before after hsplit
    have hp : p ∈ paramPieces isName query params := by simp [hsplit]
    have hq : q ∈ paramPieces isName query params := by simp [hsplit]
    rw [Bool.or_eq_false_iff, Bool.and_eq_false_imp, Bool.and_eq_false_imp]
    refine ⟨fun hstring => ?_, fun hedge => ?_⟩
    · obtain ⟨n, s, rfl, hn⟩ := isStringSlot_iff.mp hstring
      have hends := (hliteral before n (q :: after) s hsplit hn).ends
      rw [ne_eq, head_bindAll hkeys hvalues hq after] at hends
      exact Bool.eq_false_iff.mpr hends
    · refine Bool.eq_false_iff.mpr fun hstring => ?_
      obtain ⟨n, s, rfl, hn⟩ := isStringSlot_iff.mp hstring
      have hsplit' : paramPieces isName query params =
          (before ++ [p]) ++ .slot n :: after := by simp [hsplit]
      have hstarts := (hliteral (before ++ [p]) n after s hsplit' hn).starts
      exact hstarts ((last_bindAll hkeys hvalues hp before).mpr hedge)
  · intro hapart before n after s hsplit hn
    have hstring : isStringSlot params (.slot n) = true :=
      isStringSlot_iff.mpr ⟨n, s, rfl, hn⟩
    refine ⟨?_, ?_, decodeLiteral_quote s, ?_⟩
    · have hbefore : ∀ p ∈ before, p ∈ paramPieces isName query params :=
        fun p hp => hsplit ▸ mem_append_left _ hp
      rw [count_bindAll hkeys hvalues hquote hbefore]
      exact count_before_slot hquote hsplit
    · rcases eq_nil_or_concat before with rfl | ⟨before, p, rfl⟩
      · simp [bindAll]
      rw [concat_eq_append, append_assoc] at hsplit
      have hedge := Bool.or_eq_false_iff.mp (hapart hsplit)
      have hp : p ∈ paramPieces isName query params := by simp [hsplit]
      rw [ne_eq, concat_eq_append, last_bindAll hkeys hvalues hp]
      simpa [hstring] using hedge.2
    · rcases after with - | ⟨q, after⟩
      · simp [bindAll]
      have hedge := Bool.or_eq_false_iff.mp (hapart hsplit)
      have hq : q ∈ paramPieces isName query params := by simp [hsplit]
      rw [ne_eq, head_bindAll hkeys hvalues hq]
      simpa [hstring] using hedge.1

omit hkeys hvalues in
/-- The text is all at once exactly where the steps are; the literals stand for
themselves exactly where nothing they could grow together with is beside. -/
theorem bindParams_like_values_iff (isName : Char → Bool)
    (hsigil : isName '$' = false)
    (hquote : isName '\'' = false) (query : Str) (params : Params)
    (hkeys : (params.map Prod.fst).Nodup)
    (hvalues : ∀ p ∈ params, p.2.WellFormed) :
    BindsLikeValues isName query params ↔
      BindsClean isName query params ∧ StandApart isName query params := by
  have hsorted : (sortedParams params).Perm params :=
    perm_insertionSort _ params
  have hsources : boundSources query params = _ ↔ _ :=
    replaceAll_iff hkeys hvalues hsigil hsorted
  constructor
  · intro h
    exact ⟨hsources.mp h.allAtOnce,
      (literal_iff hkeys hvalues hquote).mp h.literal⟩
  · rintro ⟨hclean, hapart⟩
    have hsources := hsources.mpr hclean
    refine ⟨hsources, ?_, (literal_iff hkeys hvalues hquote).mpr hapart⟩
    rw [← map_boundSources, hsources]
    rfl

end Named

def isIdentChar (c : Char) : Bool := c.isAlphanum || c == '_'

theorem value_is_bound_again :
    bindParams "SELECT * FROM a.t WHERE n = $x" [("x", .string "$y"),
      ("y", .string "1")] = "SELECT * FROM a.t WHERE n = ''1''" ∧
      ¬ BindsLikeValues isIdentChar "SELECT * FROM a.t WHERE n = $x"
        [("x", .string "$y"), ("y", .string "1")] := by
  refine ⟨by decide +kernel, fun h => absurd h.allAtOnce ?_⟩
  decide +kernel

theorem bindParams_like_values_host :
    BindsLikeValues
    isIdentChar "SELECT * FROM a.t WHERE h = $host AND d = $hostname AND n < $n"
      [("host", .string "it's"), ("n", .number "3"),
          ("hostname", .string "$5")] :=
  (bindParams_like_values_iff isIdentChar (by decide) (by decide) _ _
    (by decide +kernel) (by decide +kernel)).mpr
    ⟨by decide +kernel, by decide +kernel⟩

/-! ## Positional parameters -/

/-- The parameters with their positions as names, in the order in which they
are bound. -/
def numbered (params : List ParamValue) : Params :=
  (params.zipIdx.map fun p => (Str.ofNat (p.2 + 1), p.1)).reverse

/-- The text of `bind_positional`, with the position each character comes
from. -/
def boundPositions (template : Str) (params : List ParamValue) :
    List SourcedChar :=
  replaceAll (rendered (numbered params)) (template.map (·, none))

theorem map_boundPositions (template : Str) (params : List ParamValue) :
    (boundPositions template params).map Prod.fst =
      bindPositional template params := by
  rw [boundPositions, map_replaceAll, map_fst_pair, rendered, numbered,
    foldl_map, foldl_reverse, foldr_map]
  rfl

theorem mem_numbered {params : List ParamValue} {n : Str} {v : ParamValue} :
    (n, v) ∈ numbered params ↔ ∃ i, n = Str.ofNat (i + 1) ∧
    params[i]? = some v := by
  rw [numbered, mem_reverse, mem_map]
  constructor
  · rintro ⟨⟨v', i⟩, hmem, heq⟩
    obtain ⟨rfl, rfl⟩ := Prod.mk.inj heq
    exact ⟨i, rfl, mem_zipIdx_iff_getElem?.mp hmem⟩
  · rintro ⟨i, rfl, hi⟩
    exact ⟨(v, i), mem_zipIdx_iff_getElem?.mpr hi, rfl⟩

theorem nodup_numbered (params : List ParamValue) :
    ((numbered params).map Prod.fst).Nodup := by
  rw [numbered, map_reverse, nodup_reverse, map_map]
  have hnames : params.zipIdx.map (Prod.fst ∘ fun p =>
    (Str.ofNat (p.2 + 1), p.1)) =
      (params.zipIdx.map Prod.snd).map fun i => Str.ofNat (i + 1) := by
    rw [map_map]
    rfl
  rw [hnames, zipIdx_map_snd]
  refine List.Nodup.map (fun i j hij => ?_) nodup_range'
  exact Nat.succ.inj (Str.ofNat_injective hij)

section Positional

variable (template : Str) (params : List ParamValue)

def positionPieces : List Piece :=
  paramPieces Char.isDigit template (numbered params)

structure BindsPositions : Prop where
  allAtOnce : boundPositions template params =
    sourced (bindAll (rendered (numbered params))
      (positionPieces template params))
  text : bindPositional template params = Template.text
    (bindAll (rendered (numbered params)) (positionPieces template params))
  noneLeft : ∀ i, 1 ≤ i → i ≤ params.length → .slot (Str.ofNat i) ∉
    placeholders Char.isDigit ((numbered params).map Prod.fst)
      (bindPositional template params)

/-- When a position is replaced, the higher ones being bound, `$i` stands only
where the template has that placeholder. -/
def PositionsClean : Prop :=
  Clean (rendered (numbered params)) (positionPieces template params)

/-- No `$` of the template that is outside literals and no placeholder comes to
stand before the digits of a position. -/
def NoneArises : Prop :=
  ∀ before after, positionPieces template params = before ++ .char '$' none ::
    after → (Template.text before).count '\'' % 2 = 0 →
      (Template.text (bindAll (rendered (numbered params)) after)).takeWhile
        Char.isDigit ∉ (numbered params).map Prod.fst

instance : Decidable (PositionsClean template params) := decidableClean _ _

variable {template params}

theorem mem_names_numbered {n : Str} :
    n ∈ (numbered params).map Prod.fst ↔ ∃ i, 1 ≤ i ∧ i ≤ params.length ∧
    n = Str.ofNat i := by
  constructor
  · intro h
    obtain ⟨⟨n', v⟩, hmem, rfl⟩ := List.mem_map.mp h
    obtain ⟨i, rfl, hi⟩ := mem_numbered.mp hmem
    obtain ⟨hlt, -⟩ := List.getElem?_eq_some_iff.mp hi
    exact ⟨i + 1, by omega, by omega, rfl⟩
  · rintro ⟨i, hpos, hle, rfl⟩
    obtain ⟨j, rfl⟩ := Nat.exists_eq_add_of_le' hpos
    exact List.mem_map.mpr ⟨(_, params[j]), mem_numbered.mpr
      ⟨j, rfl, List.getElem?_eq_getElem hle⟩, rfl⟩

theorem wellFormed_numbered (hvalues : ∀ v ∈ params, v.WellFormed) :
    ∀ p ∈ numbered params, p.2.WellFormed := by
  rintro ⟨n, v⟩ hp
  obtain ⟨i, -, hi⟩ := mem_numbered.mp hp
  exact hvalues v (mem_of_getElem? hi)

theorem isDigit_sigil : Char.isDigit '$' = false := by decide

private theorem isDigit_quote : Char.isDigit '\'' = false := by decide

theorem noneLeft_iff (hvalues : ∀ v ∈ params, v.WellFormed)
    (htext : bindPositional template params = text
      (bindAll (rendered (numbered params)) (positionPieces template params))) :
    (∀ i, 1 ≤ i → i ≤ params.length → .slot (Str.ofNat i) ∉
      placeholders Char.isDigit ((numbered params).map Prod.fst)
        (bindPositional template params)) ↔ NoneArises template params := by
  have hkeys := nodup_numbered params
  have hnumbered := wellFormed_numbered hvalues
  have hslot : ∀ n, .slot n ∈ placeholders Char.isDigit
      ((numbered params).map Prod.fst) (bindPositional template params) ↔ _ :=
    fun n => slot_mem_placeholdersFrom isDigit_sigil isDigit_quote
  constructor
  · intro hnone before after hsplit heven hrun
    obtain ⟨i, hpos, hle, hi⟩ := mem_names_numbered.mp hrun
    refine hnone i hpos hle ((hslot _).mpr
      ⟨text (bindAll (rendered (numbered params)) before), _, ?_, ?_, hi, ?_⟩)
    · rw [htext, hsplit, bindAll_append, text_append]
      rfl
    · have hbefore : ∀ p ∈ before, p ∈ paramPieces Char.isDigit template
          (numbered params) := fun p hp => by
        rw [← positionPieces, hsplit]
        exact mem_append_left _ hp
      rw [Bool.toNat_false, Nat.add_zero,
        count_bindAll hkeys hnumbered isDigit_quote hbefore]
      exact heven
    · exact hi ▸ hrun
  · intro hnone i hpos hle hmem
    obtain ⟨u, v, hsplit, heven, hrun, hname⟩ := (hslot _).mp hmem
    rw [drop_zero, htext] at hsplit
    rw [Bool.toNat_false, Nat.add_zero] at heven
    obtain ⟨before, after, hpieces, hbefore, rfl⟩ :=
      sigil_bindAll hkeys hnumbered isDigit_quote hsplit heven
    exact hnone before after hpieces hbefore (hrun ▸ hname)

/-- The positions are bound all at once exactly where the steps are, and none
is left exactly where none arises from what was put in. -/
theorem bindPositional_like_values_iff (template : Str)
    (params : List ParamValue) (hvalues : ∀ v ∈ params, v.WellFormed) :
    BindsPositions template params ↔
      PositionsClean template params ∧ NoneArises template params := by
  have hnumbered := wellFormed_numbered hvalues
  have hsources : boundPositions template params = _ ↔ _ :=
    replaceAll_iff (nodup_numbered params) hnumbered isDigit_sigil
      (List.Perm.refl _)
  constructor
  · intro h
    exact ⟨hsources.mp h.allAtOnce, (noneLeft_iff hvalues h.text).mp h.noneLeft⟩
  · rintro ⟨hclean, hnone⟩
    have hsources := hsources.mpr hclean
    have htext : bindPositional template params =
      text (bindAll (rendered (numbered params))
          (positionPieces template params)) := by
      rw [← map_boundPositions, hsources]
      rfl
    exact ⟨hsources, htext, (noneLeft_iff hvalues htext).mpr hnone⟩

end Positional

theorem position_is_bound_again :
    [string "x", .string "$1"].length = countParams "SELECT $1, $2" ∧
      bindPositional "SELECT $1, $2" [.string "x", .string "$1"] =
        "SELECT 'x', ''x''" ∧
      ¬ BindsPositions "SELECT $1, $2" [.string "x", .string "$1"] := by
  refine ⟨by decide +kernel, by decide +kernel, fun h => absurd h.allAtOnce ?_⟩
  decide +kernel

theorem bindPositional_like_values_two :
    BindsPositions "SELECT * FROM a.t WHERE h = $1 AND n < $2"
      [.string "it's $2", .number "3"] := by
  refine (bindPositional_like_values_iff _ _ (by decide +kernel)).mpr
    ⟨by decide +kernel, fun before after hsplit => ?_⟩
  have hnone : Piece.char '$'
    none ∉ positionPieces "SELECT * FROM a.t WHERE h = $1 AND n < $2"
        [.string "it's $2", .number "3"] := by decide +kernel
  rw [hsplit] at hnone
  exact (hnone (by simp)).elim

end Fuse.Server
