import Fuse.Foundation.Text
import Mathlib.Data.List.Infix

/-!
# Templates with placeholders

A template is text with slots `$name`.  Binding the values by one replacement
of the whole text for each name is compared with binding them all at once.
Characters carry the name of the value they come from, so that the two are
told apart even where the texts happen to agree.
-/

namespace Fuse.Foundation

open List

abbrev SourcedChar := Char × Option Str

inductive Piece where
  | char (c : Char) (origin : Option Str)
  | slot (name : Str)
  deriving DecidableEq, Repr

def Piece.sourced : Piece → List SourcedChar
  | char c origin => [(c, origin)]
  | slot name => ('$' :: name).map (·, none)

namespace Template

def sourced (pieces : List Piece) : List SourcedChar :=
  pieces.flatMap Piece.sourced

def text (pieces : List Piece) : Str := (sourced pieces).map Prod.fst

@[simp] theorem sourced_cons (p : Piece) (ps : List Piece) :
    sourced (p :: ps) = p.sourced ++ sourced ps :=
  rfl

@[simp] theorem sourced_append (ps qs : List Piece) :
    sourced (ps ++ qs) = sourced ps ++ sourced qs :=
  flatMap_append

@[simp] theorem text_append (ps qs : List Piece) :
    text (ps ++ qs) = text ps ++ text qs := by
  simp [text]

@[simp] theorem sourced_chars (value : Str) (origin : Option Str) :
    sourced (value.map (Piece.char · origin)) = value.map (·, origin) := by
  rw [sourced, flatMap_map, map_eq_flatMap]
  rfl

@[simp] theorem map_fst_pair (value : Str) (origin : Option Str) :
    (value.map (·, origin)).map Prod.fst = value := by
  rw [map_map]
  exact map_id value

@[simp] theorem text_nil : text [] = [] := rfl

@[simp] theorem text_char (c : Char) (origin : Option Str)
    (ps : List Piece) : text (.char c origin :: ps) = c :: text ps :=
  rfl

@[simp] theorem text_slot (name : Str) (ps : List Piece) :
    text (.slot name :: ps) = '$' :: (name ++ text ps) := by
  have hslot : (Piece.slot name).sourced = ('$' :: name).map (·, none) := rfl
  rw [text, sourced_cons, map_append, hslot, map_fst_pair]
  rfl

@[simp] theorem text_chars (value : Str) (origin : Option Str) :
    text (value.map (Piece.char · origin)) = value := by
  rw [text, sourced_chars, map_fst_pair]

def fillPiece (name value : Str) : Piece → List Piece
  | .slot n => if n = name then value.map (.char · (some name)) else [.slot n]
  | p => [p]

def fill (name value : Str) (pieces : List Piece) : List Piece :=
  pieces.flatMap (fillPiece name value)

@[simp] theorem fillPiece_self (name value : Str) :
    fillPiece name value (.slot name) = value.map (.char · (some name)) :=
  if_pos rfl

theorem fillPiece_of_ne {name value : Str} {p : Piece} (h : p ≠ .slot name) :
    fillPiece name value p = [p] := by
  cases p with
  | char c origin => rfl
  | slot n => exact if_neg fun hn => h (congrArg Piece.slot hn)

@[simp] theorem fill_cons (name value : Str) (p : Piece) (ps : List Piece) :
    fill name value (p :: ps) = fillPiece name value p ++ fill name value ps :=
  rfl

/-- The replacement of `$name` in a text, by characters of the value. -/
def replaceSourced (name value : Str) (s : List SourcedChar) :
    List SourcedChar := go 0 s
where
  go : Nat → List SourcedChar → List SourcedChar
    | _, [] => []
    | skip + 1, _ :: s => go skip s
    | 0, x :: s =>
      if ('$' :: name).isPrefixOf ((x :: s).map Prod.fst) then
        value.map (·, some name) ++ go name.length s
      else x :: go 0 s

theorem map_replaceSourced (name value : Str) (s : List SourcedChar) :
    (replaceSourced name value s).map Prod.fst =
      Str.replace ('$' :: name) value (s.map Prod.fst) := by
  have hgo : ∀ n, (replaceSourced.go name value n s).map Prod.fst =
      Str.replace.go ('$' :: name) value n (s.map Prod.fst) := by
    induction s with
    | nil =>
      intro n
      cases n <;> rfl
    | cons x s ih =>
      intro n
      cases n with
      | zero =>
        simp only [replaceSourced.go, map_cons, Str.replace.go]
        split
        · rw [map_append, map_fst_pair, ih]
          rfl
        · rw [map_cons, ih]
      | succ n => exact ih n
  exact hgo 0

section Replace

variable {name value : Str}

theorem go_skip (xs s : List SourcedChar) :
    replaceSourced.go name value xs.length (xs ++ s) =
      replaceSourced name value s := by
  induction xs with
  | nil => rfl
  | cons x xs ih => exact ih

variable {xs : List SourcedChar} {s : List SourcedChar}

theorem replaceSourced_hit {x : SourcedChar}
    (h : (x :: xs).map Prod.fst = '$' :: name) (s : List SourcedChar) :
    replaceSourced name value (x :: xs ++ s) =
      value.map (·, some name) ++ replaceSourced name value s := by
  have hlength : xs.length = name.length := by
    have := congrArg List.length h
    simpa using this
  have hstarts : ('$' :: name).isPrefixOf ((x :: xs ++ s).map Prod.fst) := by
    rw [map_append, h]
    exact isPrefixOf_iff_prefix.mpr (prefix_append _ _)
  have hskip : replaceSourced.go name value xs.length (xs ++ s) = _ :=
    go_skip xs s
  rw [hlength] at hskip
  exact (if_pos hstarts).trans (congrArg _ hskip)

theorem replaceSourced_miss {x : SourcedChar}
    (h : ¬ ('$' :: name) <+: (x :: s).map Prod.fst) :
    replaceSourced name value (x :: s) = x :: replaceSourced name value s :=
  if_neg (mt isPrefixOf_iff_prefix.mp h)

private theorem replaceSourced_plain (h : '$' ∉ xs.map Prod.fst)
    (s : List SourcedChar) :
    replaceSourced name value (xs ++ s) = xs ++
    replaceSourced name value s := by
  induction xs with
  | nil => rfl
  | cons x xs ih =>
    rw [map_cons, mem_cons, not_or] at h
    rw [cons_append, replaceSourced_miss, ih h.2, cons_append]
    rw [map_cons, cons_prefix_cons]
    exact fun hcons => h.1 hcons.1

theorem replaceSourced_piece {p : Piece} (hp : ∀ n, p = .slot n → '$' ∉ n)
    (h : p = .slot name ∨ ¬ ('$' :: name) <+: (p.sourced ++ s).map Prod.fst) :
    replaceSourced name value (p.sourced ++ s) =
      sourced (fillPiece name value p) ++ replaceSourced name value s := by
  cases p with
  | char c origin => exact replaceSourced_miss (h.resolve_left (by simp))
  | slot n =>
    by_cases hn : n = name
    · subst hn
      rw [fillPiece_self, sourced_chars]
      exact replaceSourced_hit (map_fst_pair ('$' :: n) none) s
    have hslot : Piece.slot n ≠ .slot name := by simpa using hn
    have hmiss : ¬ ('$' :: name) <+: (('$', none) :: (n.map (·, none) ++ s)).map
        Prod.fst :=
      h.resolve_left hslot
    have hplain : '$' ∉ (n.map (·, (none : Option Str))).map Prod.fst := by
      rw [map_fst_pair]
      exact hp n rfl
    rw [fillPiece_of_ne hslot]
    calc replaceSourced name value (('$', none) :: (n.map (·, none) ++ s))
      _ = ('$', none) :: replaceSourced name value (n.map (·, none) ++ s) :=
          replaceSourced_miss hmiss
      _ = ('$', none) :: (n.map (·, none) ++ replaceSourced name value s) := by
          rw [replaceSourced_plain hplain]
      _ = sourced [.slot n] ++ replaceSourced name value s := by
        simp [sourced, Piece.sourced]

end Replace

/-- `$name` stands nowhere but at the slots of the name. -/
def OnlyAtSlots (name : Str) (pieces : List Piece) : Prop :=
  ∀ tail ∈ pieces.tails, tail.head? ≠ some (.slot name) →
    ¬ ('$' :: name) <+: text tail

instance (name : Str) (pieces : List Piece) :
    Decidable (OnlyAtSlots name pieces) :=
  inferInstanceAs (Decidable (∀ tail ∈ pieces.tails, _))

theorem onlyAtSlots_nil (name : Str) :
    OnlyAtSlots name [] := by simp [OnlyAtSlots, text, sourced]

theorem onlyAtSlots_cons {name : Str} {p : Piece} {ps : List Piece} :
    OnlyAtSlots name (p :: ps) ↔
    (p = .slot name ∨ ¬ ('$' :: name) <+: text (p :: ps)) ∧
        OnlyAtSlots name ps := by
  unfold OnlyAtSlots
  rw [tails_cons, forall_mem_cons]
  refine and_congr_left fun _ => ?_
  rw [head?_cons, ne_eq, Option.some.injEq, or_iff_not_imp_left]

/-- The pieces of a template in which the values of some names are still to be
put: these have the slots, and no character comes from them. -/
def Fits (left : List Str) (pieces : List Piece) : Prop :=
  ∀ p ∈ pieces, match p with
    | .char _ origin => ∀ n, origin = some n → n ∉ left
    | .slot n => n ∈ left ∧ '$' ∉ n

/-- The two texts part where one has a character of a value already bound;
the other has something else there and will never have that character. -/
def Diverges (left : List Str) (found : List SourcedChar)
    (pieces : List Piece) : Prop :=
  ∃ before p after c name rest, pieces = before ++ p :: after ∧
    found = sourced before ++ (c, some name) :: rest ∧ c ≠ '$' ∧
    name ∉ left ∧ match p with
      | .char _ origin => origin ≠ some name
      | .slot n => n ∈ left

section Stage

variable {name value : Str} {left : List Str} {p : Piece} {ps : List Piece}
  {found : List SourcedChar}

theorem Fits.noSigil (h : Fits left (p :: ps)) :
    ∀ n, p = .slot n → '$' ∉ n := by
  rintro n rfl
  exact (h _ mem_cons_self).2

theorem Fits.tail (h : Fits left (p :: ps)) : Fits left ps :=
  fun q hq => h q (mem_cons_of_mem p hq)

theorem Fits.fill (hname : name ∉ left) (h : Fits (name :: left) ps) :
    Fits left (fill name value ps) := by
  intro q hq
  obtain ⟨p, hp, hq⟩ := mem_flatMap.mp hq
  have hfit := h p hp
  by_cases hslot : p = .slot name
  · subst hslot
    rw [fillPiece_self] at hq
    obtain ⟨c, -, rfl⟩ := mem_map.mp hq
    intro n hn
    obtain rfl := Option.some.inj hn
    exact hname
  · rw [fillPiece_of_ne hslot] at hq
    obtain rfl := mem_singleton.mp hq
    cases q with
    | char c origin =>
      exact fun n hn hleft => hfit n hn (mem_cons_of_mem name hleft)
    | slot n =>
      exact ⟨(mem_cons.mp hfit.1).resolve_left fun hn =>
        hslot (congrArg Piece.slot hn), hfit.2⟩

theorem Diverges.append (h : Diverges left found ps) (qs : List Piece) :
    Diverges left (sourced qs ++ found) (qs ++ ps) := by
  obtain ⟨before, p, after, c, n, rest, rfl, rfl, hc, hn, hp⟩ := h
  exact ⟨qs ++ before, p, after, c, n, rest, by simp, by simp, hc, hn, hp⟩

theorem Diverges.ne (h : Diverges [] found ps) : found ≠ sourced ps := by
  obtain ⟨before, p, after, c, n, rest, rfl, rfl, -, -, hp⟩ := h
  intro heq
  rw [sourced_append] at heq
  have htail := append_cancel_left heq
  cases p with
  | char c' origin =>
    obtain ⟨hhead, -⟩ := List.cons.inj htail
    exact hp (congrArg Prod.snd hhead).symm
  | slot n' => cases hp

theorem replaceSourced_eq (hfits : Fits (name :: left) ps)
    (honly : OnlyAtSlots name ps) :
    replaceSourced name value (sourced ps) = sourced (fill name value ps) := by
  induction ps with
  | nil => rfl
  | cons p ps ih =>
    obtain ⟨hp, hps⟩ := onlyAtSlots_cons.mp honly
    have hpiece : replaceSourced name value (p.sourced ++ sourced ps) = _ :=
      replaceSourced_piece hfits.noSigil hp
    rw [sourced_cons, hpiece, ih hfits.tail hps, fill_cons, sourced_append]

variable (hvalue : ∃ c rest, value = c :: rest ∧ c ≠ '$') (hname : name ∉ left)

include hvalue hname

private theorem diverges_of_hit (hfits : Fits (name :: left) (p :: ps))
    (hp : p ≠ .slot name)
    (hhit : ('$' :: name) <+: (p.sourced ++ found).map Prod.fst) :
    Diverges left (replaceSourced name value (p.sourced ++ found))
    (fill name value (p :: ps)) := by
  obtain ⟨c, rest, rfl, hc⟩ := hvalue
  obtain ⟨x, xs, hsourced⟩ : ∃ x xs, p.sourced ++ found = x :: xs := by
    cases p <;> exact ⟨_, _, rfl⟩
  have hreplaced : ∃ tail, replaceSourced name (c :: rest)
    (p.sourced ++ found) = (c, some name) :: tail := by
    rw [hsourced] at hhit ⊢
    exact ⟨_, if_pos ( isPrefixOf_iff_prefix.mpr hhit)⟩
  obtain ⟨tail, htail⟩ := hreplaced
  have hfit := hfits p mem_cons_self
  refine ⟨[], p, fill name (c :: rest) ps, c, name, tail, ?_, htail, hc,
    hname, ?_⟩
  · rw [fill_cons, fillPiece_of_ne hp]
    rfl
  · cases p with
    | char c' origin => exact fun horigin => hfit name horigin mem_cons_self
    | slot n =>
      exact (mem_cons.mp hfit.1).resolve_left fun hn =>
        hp (congrArg Piece.slot hn)

theorem replaceSourced_or_diverges (found : List SourcedChar)
    (hfits : Fits (name :: left) (p :: ps)) :
    Diverges left (replaceSourced name value (p.sourced ++ found))
    (fill name value (p :: ps)) ∨
      (p = .slot name ∨ ¬ ('$' :: name) <+: (p.sourced ++ found).map Prod.fst) ∧
        replaceSourced name value (p.sourced ++ found) =
          sourced (fillPiece name value p) ++
            replaceSourced name value found := by
  by_cases hp : p = .slot name
  · exact Or.inr ⟨Or.inl hp, replaceSourced_piece hfits.noSigil (Or.inl hp)⟩
  · by_cases hhit : ('$' :: name) <+: (p.sourced ++ found).map Prod.fst
    · exact Or.inl (diverges_of_hit hvalue hname hfits hp hhit)
    · exact Or.inr ⟨Or.inr hhit, replaceSourced_piece hfits.noSigil
        (Or.inr hhit)⟩

theorem diverges_of_not_onlyAtSlots (hfits : Fits (name :: left) ps)
    (honly : ¬ OnlyAtSlots name ps) :
    Diverges left (replaceSourced name value (sourced ps))
    (fill name value ps) := by
  induction ps with
  | nil => exact (honly (onlyAtSlots_nil name)).elim
  | cons p ps ih =>
    rcases replaceSourced_or_diverges hvalue hname (sourced ps) hfits with hdiv
      | ⟨hp, heq⟩
    · exact hdiv
    · rw [sourced_cons, heq]
      refine (ih hfits.tail fun hps => honly ?_).append _
      exact onlyAtSlots_cons.mpr ⟨hp, hps⟩

theorem Diverges.replaceSourced (hfits : Fits (name :: left) ps)
    (h : Diverges (name :: left) found ps) :
    Diverges left (Template.replaceSourced name value found)
    (Template.fill name value ps) := by
  obtain ⟨before, p, after, c, n, rest, rfl, rfl, hc, hn, hp⟩ := h
  rw [mem_cons, not_or] at hn
  induction before with
  | nil =>
    have hmiss : ¬ ('$' :: name) <+: ((c, some n) :: rest).map Prod.fst := by
      rw [map_cons, cons_prefix_cons]
      exact fun h => hc h.1.symm
    have hkept : Template.replaceSourced name value ((c, some n) :: rest) =
        (c, some n) :: Template.replaceSourced name value rest :=
      replaceSourced_miss hmiss
    rw [nil_append, fill_cons]
    change Diverges left (Template.replaceSourced name value
      ((c, some n) :: rest)) _
    rw [hkept]
    by_cases hslot : p = .slot name
    · obtain ⟨d, ds, rfl, -⟩ := hvalue
      subst hslot
      rw [fillPiece_self]
      refine ⟨[], .char d (some name), _, c, n, _, rfl, rfl, hc, hn.2, ?_⟩
      exact fun heq => hn.1 (Option.some.inj heq).symm
    · rw [fillPiece_of_ne hslot]
      refine ⟨[], p, _, c, n, _, rfl, rfl, hc, hn.2, ?_⟩
      cases p with
      | char c' origin => exact hp
      | slot m =>
        exact (mem_cons.mp hp).resolve_left fun hm =>
          hslot (congrArg Piece.slot hm)
  | cons q before ih =>
    rcases replaceSourced_or_diverges hvalue hname
      (sourced before ++ (c, some n) :: rest) hfits with hdiv | ⟨-, heq⟩
    · rwa [sourced_cons, append_assoc]
    · rw [sourced_cons, append_assoc, heq]
      exact (ih hfits.tail).append _

end Stage

def replaceAll (values : List (Str × Str)) (s : List SourcedChar) :
    List SourcedChar :=
  values.foldl (fun s v => replaceSourced v.1 v.2 s) s

def fillAll (values : List (Str × Str)) (pieces : List Piece) : List Piece :=
  values.foldl (fun ps v => fill v.1 v.2 ps) pieces

def bindPiece (values : List (Str × Str)) : Piece → List Piece
  | .slot n =>
    match values.lookup n with
    | some value => value.map (.char · (some n))
    | none => [.slot n]
  | p => [p]

def bindAll (values : List (Str × Str)) (pieces : List Piece) : List Piece :=
  pieces.flatMap (bindPiece values)

/-- When a name is replaced, the slots of the names before it being filled, it
stands at its own slots only. -/
def Clean : List (Str × Str) → List Piece → Prop
  | [], _ => True
  | (name, value) :: values, pieces =>
    OnlyAtSlots name pieces ∧ Clean values (fill name value pieces)

instance decidableClean : (values : List (Str × Str)) →
    (pieces : List Piece) → Decidable (Clean values pieces)
  | [], _ => isTrue trivial
  | (name, value) :: values, pieces =>
    have := decidableClean values (fill name value pieces)
    inferInstanceAs (Decidable (_ ∧ _))

theorem map_replaceAll (values : List (Str × Str)) (s : List SourcedChar) :
    (replaceAll values s).map Prod.fst = values.foldl
    (fun q v => Str.replace ('$' :: v.1) v.2 q) (s.map Prod.fst) := by
  induction values generalizing s with
  | nil => rfl
  | cons v values ih =>
    change (replaceAll values (replaceSourced v.1 v.2 s)).map Prod.fst = _
    rw [ih, map_replaceSourced]
    rfl

@[simp] theorem bindAll_cons (values : List (Str × Str)) (p : Piece)
    (ps : List Piece) :
    bindAll values (p :: ps) = bindPiece values p ++ bindAll values ps :=
  rfl

@[simp] theorem bindAll_append (values : List (Str × Str))
    (ps qs : List Piece) :
    bindAll values (ps ++ qs) = bindAll values ps ++ bindAll values qs :=
  flatMap_append

variable {values : List (Str × Str)} {pieces : List Piece}

theorem text_bindAll_split {ps : List Piece} {c : Char} {u v : Str}
    (h : text (bindAll values ps) = u ++ c :: v) :
    ∃ before p after u' v', ps = before ++ p :: after ∧
    u = text (bindAll values before) ++ u' ∧
      text (bindPiece values p) = u' ++ c :: v' ∧
      v = v' ++ text (bindAll values after) := by
  induction ps generalizing u with
  | nil => cases u <;> cases h
  | cons p ps ih =>
    rw [bindAll_cons, text_append] at h
    rcases append_eq_append_iff.mp h with
      ⟨u', rfl, hrest⟩ | ⟨v', hpiece, hrest⟩
    · obtain ⟨before, q, after, u'', v', rfl, rfl, hq, rfl⟩ := ih hrest
      exact ⟨p :: before, q, after, u'', v', rfl, by simp, hq, rfl⟩
    rcases v' with - | ⟨x, v'⟩
    · rw [append_nil] at hpiece
      obtain ⟨before, q, after, u'', v', rfl, hnil, hq, rfl⟩ :=
        ih (u := []) hrest.symm
      obtain ⟨hbefore, rfl⟩ := append_eq_nil_iff.mp hnil.symm
      refine ⟨p :: before, q, after, [], v', rfl, ?_, hq, rfl⟩
      rw [bindAll_cons, text_append, hpiece, hbefore]
      simp
    · obtain ⟨rfl, rfl⟩ := List.cons.inj hrest
      exact ⟨[], p, ps, u, v', rfl, rfl, hpiece, rfl⟩

theorem bindAll_congr {values values' : List (Str × Str)}
    (h : ∀ n, values.lookup n = values'.lookup n) (pieces : List Piece) :
    bindAll values pieces = bindAll values' pieces := by
  refine flatMap_congr fun p _ => ?_
  cases p with
  | char c origin => rfl
  | slot n => rw [bindPiece, bindPiece, h]

theorem bindPiece_nil (p : Piece) : bindPiece [] p = [p] := by cases p <;> rfl

theorem flatMap_bindPiece_chars (values : List (Str × Str)) (value : Str)
    (origin : Option Str) :
    (value.map (Piece.char · origin)).flatMap (bindPiece values) =
      value.map (.char · origin) := by
  rw [flatMap_map, map_eq_flatMap]
  rfl

theorem fillAll_eq_bindAll (values : List (Str × Str))
    (pieces : List Piece) : fillAll values pieces = bindAll values pieces := by
  induction values generalizing pieces with
  | nil =>
    change pieces = pieces.flatMap (bindPiece [])
    rw [funext bindPiece_nil, flatMap_singleton']
  | cons v values ih =>
    obtain ⟨name, value⟩ := v
    change fillAll values (fill name value pieces) = _
    rw [ih, bindAll, fill, flatMap_assoc]
    refine flatMap_congr fun p _ => ?_
    by_cases hslot : p = .slot name
    · subst hslot
      rw [fillPiece_self, flatMap_bindPiece_chars, bindPiece, lookup_cons_self]
    rw [fillPiece_of_ne hslot, flatMap_singleton]
    cases p with
    | char c origin => rfl
    | slot n =>
      have hn : (n == name) = false :=
        beq_eq_false_iff_ne.mpr fun hn => hslot (congrArg Piece.slot hn)
      rw [bindPiece, bindPiece, lookup_cons, hn]

theorem Diverges.replaceAll_ne {found : List SourcedChar}
    (hnodup : (values.map Prod.fst).Nodup)
    (hvalues : ∀ v ∈ values, ∃ c rest, v.2 = c :: rest ∧ c ≠ '$')
    (hfits : Fits (values.map Prod.fst) pieces)
    (h : Diverges (values.map Prod.fst) found pieces) :
    replaceAll values found ≠ sourced (fillAll values pieces) := by
  induction values generalizing found pieces with
  | nil => exact h.ne
  | cons v values ih =>
    obtain ⟨hname, hnodup⟩ := nodup_cons.mp hnodup
    obtain ⟨hvalue, hvalues⟩ := forall_mem_cons.mp hvalues
    exact ih hnodup hvalues (hfits.fill hname)
      (h.replaceSourced hvalue hname hfits)

theorem replaceAll_eq_iff (hnodup : (values.map Prod.fst).Nodup)
    (hvalues : ∀ v ∈ values, ∃ c rest, v.2 = c :: rest ∧ c ≠ '$')
    (hfits : Fits (values.map Prod.fst) pieces) :
    replaceAll values (sourced pieces) = sourced (bindAll values pieces) ↔
    Clean values pieces := by
  rw [← fillAll_eq_bindAll]
  induction values generalizing pieces with
  | nil => simp [replaceAll, fillAll, Clean]
  | cons v values ih =>
    obtain ⟨hname, hnodup⟩ := nodup_cons.mp hnodup
    obtain ⟨hvalue, hvalues⟩ := forall_mem_cons.mp hvalues
    by_cases honly : OnlyAtSlots v.1 pieces
    · have hstage : replaceSourced v.1 v.2 (sourced pieces) = _ :=
        replaceSourced_eq hfits honly
      change replaceAll values (replaceSourced v.1 v.2 (sourced pieces)) =
        sourced (fillAll values (fill v.1 v.2 pieces)) ↔ _ ∧ _
      rw [hstage]
      exact (ih hnodup hvalues (hfits.fill hname)).trans
        (and_iff_right honly).symm
    · have hne : replaceAll values _ ≠ sourced (fillAll values _) :=
        Diverges.replaceAll_ne hnodup hvalues (hfits.fill hname)
          (diverges_of_not_onlyAtSlots hvalue hname hfits honly)
      exact iff_of_false hne fun h => honly h.1

end Template

end Fuse.Foundation
