import Mathlib.Data.List.Basic

/-!
# Recursive descent

A parser takes a phrase from the front of a list of tokens.  `Reads` is what is
known of a phrase without the tokens behind it: the parser takes exactly the
phrase, if the next token is one that may follow it.
-/

namespace Fuse.Foundation

open List

abbrev Parse (τ : Type) := StateT (List τ) Option

namespace Parse

variable {τ α β γ ι : Type}

section Combinators

variable [DecidableEq τ]

def expect : List τ → Parse τ Unit
  | [] => pure ()
  | k :: ks => fun ts =>
    match ts with
    | t :: ts => if t = k then expect ks ts else none
    | [] => none

def after (keywords : List τ) (p : Parse τ α) : Parse τ α := do
  expect keywords
  p

def before (p : Parse τ α) (keywords : List τ) : Parse τ α := do
  let a ← p
  expect keywords
  return a

def clause (keywords : List τ) (p : Parse τ α) : Parse τ (Option α) := fun ts =>
    match expect keywords ts with
    | some (_, ts) => (some <$> p).run ts
    | none => some (none, ts)

/-- The members of a list behind the first, at most `fuel` of them. -/
def sepTail (sep : τ) (p : Parse τ α) : Nat → Parse τ (List α)
  | 0 => pure []
  | fuel + 1 => do
      match ← clause [sep] p with
      | some x => return x :: (← sepTail sep p fuel)
      | none => return []

def sepBy (sep : τ) (p : Parse τ α) : Parse τ (α × List α) := do
  let x ← p
  let xs ← sepTail sep p (← get).length
  return (x, xs)

def listOf (sep : τ) (p : Parse τ α) : Parse τ (List α) :=
  (fun r => r.1 :: r.2) <$> sepBy sep p

def infixLeft (sep : τ) (combine : α → α → α) (p : Parse τ α) : Parse τ α :=
  (fun r => r.2.foldl combine r.1) <$> sepBy sep p

end Combinators

def Follows (ok : τ → Bool) (rest : List τ) : Prop :=
  ∀ t ∈ rest.head?, ok t = true

theorem follows_nil (ok : τ → Bool) : Follows ok [] := nofun

theorem follows_cons {ok : τ → Bool} {t : τ} (h : ok t = true)
    (rest : List τ) : Follows ok (t :: rest) := by
  rintro u ⟨rfl⟩
  exact h

theorem Follows.append {ok : τ → Bool} {us rest : List τ} (hus : Follows ok us)
    (hrest : Follows ok rest) : Follows ok (us ++ rest) := by
  cases us with
  | nil => exact hrest
  | cons u us => exact hus

theorem Follows.mono {ok ok' : τ → Bool} {rest : List τ} (h : Follows ok rest)
    (hle : ∀ t, ok t = true → ok' t = true) : Follows ok' rest :=
  fun t ht => hle t (h t ht)

def Reads (ok : τ → Bool) (p : Parse τ α) (ts : List τ) (a : α) : Prop :=
  ∀ rest, Follows ok rest → p.run (ts ++ rest) = some (a, rest)

section Rules

variable {ok ok' : τ → Bool} {p : Parse τ α} {ts us : List τ} {a : α}

theorem Reads.mono (h : Reads ok p ts a)
    (hle : ∀ t, ok' t = true → ok t = true) : Reads ok' p ts a :=
  fun rest hrest => h rest (hrest.mono hle)

theorem Reads.run_end (h : Reads ok p ts a) : p.run ts = some (a, []) := by
  have hend := h [] (follows_nil _)
  rwa [append_nil] at hend

theorem reads_pure (ok : τ → Bool) (a : α) : Reads ok (pure a) [] a :=
  fun _ _ => rfl

theorem Reads.bind {f : α → Parse τ β} {b : β} (hp : Reads ok p ts a)
    (hf : Reads ok' (f a) us b)
    (hus : Follows ok us) (hle : ∀ t, ok' t = true → ok t = true) :
    Reads ok' (p >>= f) (ts ++ us) b := by
  intro rest hrest
  rw [append_assoc, StateT.run_bind, hp _ (hus.append (hrest.mono hle))]
  exact hf rest hrest

theorem Reads.map (h : Reads ok p ts a) (f : α → β) :
    Reads ok (f <$> p) ts (f a) := by
  intro rest hrest
  rw [StateT.run_map, h rest hrest]
  rfl

theorem Reads.pair {q : Parse τ β} {b : β} (f : α → β → γ)
    (hp : Reads ok p ts a) (hq : Reads ok' q us b) (hus : Follows ok us)
    (hle : ∀ t, ok' t = true → ok t = true) :
    Reads ok' (do let a ← p; let b ← q; return f a b) (ts ++ us) (f a b) := by
  refine hp.bind ?_ hus hle
  intro rest hrest
  rw [StateT.run_bind, hq rest hrest]
  rfl

end Rules

section Combinators

variable [DecidableEq τ] {ok : τ → Bool} {p : Parse τ α} {ts us : List τ}
  {a b : α}

theorem expect_reads (keywords : List τ) :
    Reads (fun _ => true) (expect keywords) keywords () := by
  intro rest hrest
  induction keywords with
  | nil => rfl
  | cons k ks ih =>
    change (if k = k then (expect ks).run (ks ++ rest) else none) = _
    rw [if_pos rfl, ih]

theorem expect_of_follows {k : τ} {ks rest : List τ} (hk : ok k = false)
    (h : Follows ok rest) : (expect (k :: ks)).run rest = none := by
  cases rest with
  | nil => rfl
  | cons t ts =>
    have hne : t ≠ k := by
      rintro rfl
      rw [h t rfl] at hk
      cases hk
    exact if_neg hne

theorem Reads.after (h : Reads ok p ts a) (keywords : List τ) :
    Reads ok (p.after keywords) (keywords ++ ts) a :=
  (expect_reads keywords).bind h (fun _ _ => rfl) fun _ _ => rfl

theorem Reads.before (h : Reads ok p ts a) {k : τ} (hk : ok k = true)
    (ks : List τ) :
    Reads (fun _ => true) (p.before (k :: ks)) (ts ++ k :: ks) a := by
  intro rest _
  have hphrase := h (k :: ks ++ rest) (follows_cons hk _)
  have hclose := expect_reads (k :: ks) rest fun _ _ => rfl
  rw [Parse.before, append_assoc, StateT.run_bind, hphrase]
  change ((expect (k :: ks)).run (k :: ks ++ rest)).bind _ = _
  rw [hclose]
  rfl

theorem Reads.clause (h : Reads ok p ts a) (keywords : List τ) :
    Reads ok (p.clause keywords) (keywords ++ ts) (some a) := by
  intro rest hrest
  have hstart := expect_reads keywords (ts ++ rest) fun _ _ => rfl
  rw [append_assoc]
  change (match (expect keywords).run (keywords ++ (ts ++ rest)) with
    | some (_, ts) => (some <$> p).run ts
    | none => some (none, _)) = _
  rw [hstart]
  exact h.map some rest hrest

theorem reads_noClause {k : τ} (hk : ok k = false) (ks : List τ)
    (p : Parse τ α) : Reads ok (p.clause (k :: ks)) [] none := by
  intro rest hrest
  change (match (expect (k :: ks)).run rest with
    | some (_, ts) => (some <$> p).run ts
    | none => some (none, rest)) = _
  rw [expect_of_follows hk hrest]

def separated (sep : τ) (tokens : ι → List τ) : List ι → List τ
  | [] => []
  | i :: is => tokens i ++ is.flatMap fun j => sep :: tokens j

omit [DecidableEq τ] in
theorem length_le_flatMap (sep : τ) (tokens : ι → List τ) (is : List ι) :
    is.length ≤ (is.flatMap fun j => sep :: tokens j).length := by
  induction is with
  | nil => exact Nat.le_refl _
  | cons i is ih =>
    rw [flatMap_cons, length_append, length_cons, length_cons]
    omega

omit [DecidableEq τ] in
theorem length_le_separated (sep : τ) (tokens : ι → List τ) {is : List ι}
    {i : ι} (hi : i ∈ is) :
    (tokens i).length ≤ (separated sep tokens is).length := by
  cases is with
  | nil => cases hi
  | cons j is =>
    rw [separated, length_append]
    rcases mem_cons.mp hi with rfl | hi
    · omega
    have hsublist : (sep :: tokens i).Sublist
        (is.flatMap fun j => sep :: tokens j) := by
      rw [flatMap_def]
      exact sublist_flatten_of_mem
        (mem_map_of_mem (f := fun j => sep :: tokens j) hi)
    have hlength := hsublist.length_le
    rw [length_cons] at hlength
    omega

variable {sep : τ} {tokens : ι → List τ} {value : ι → α}

theorem follows_members (hsep : ok sep = true) (tokens : ι → List τ)
    (is : List ι) {rest : List τ}
    (hrest : Follows (fun t => ok t && t ≠ sep) rest) :
    Follows ok ((is.flatMap fun j => sep :: tokens j) ++ rest) := by
  refine Follows.append ?_ (hrest.mono fun t ht =>
    (Bool.and_eq_true_iff.mp ht).1)
  cases is with
  | nil => exact follows_nil _
  | cons j js => exact follows_cons hsep _

private theorem sepTail_reads (hsep : ok sep = true) {is : List ι}
    (his : ∀ i ∈ is, Reads ok p (tokens i) (value i)) {fuel : Nat}
    (hfuel : is.length ≤ fuel) :
    Reads (fun t => ok t && t ≠ sep) (sepTail sep p fuel)
      (is.flatMap fun j => sep :: tokens j) (is.map value) := by
  intro rest hrest
  induction is generalizing fuel with
  | nil =>
    have hstop : Reads (fun t => ok t && t ≠ sep) (p.clause [sep]) [] none :=
      reads_noClause (by simp) [] p
    cases fuel with
    | zero => rfl
    | succ fuel =>
      rw [sepTail, flatMap_nil, StateT.run_bind, hstop rest hrest]
      rfl
  | cons i is ih =>
    obtain ⟨hi, his⟩ := forall_mem_cons.mp his
    cases fuel with
    | zero => cases hfuel
    | succ fuel =>
      have hmember :=
        hi.clause [sep] _ (follows_members hsep tokens is hrest)
      have htail := ih his (Nat.le_of_succ_le_succ hfuel)
      rw [sepTail, flatMap_cons, append_assoc, StateT.run_bind]
      change ((p.clause [sep]).run ([sep] ++ tokens i ++ _)).bind _ = _
      rw [hmember]
      change ((sepTail sep p fuel).run _).bind _ = _
      rw [htail]
      rfl

theorem sepBy_reads (hsep : ok sep = true) {i : ι} {is : List ι}
    (his : ∀ j ∈ i :: is, Reads ok p (tokens j) (value j)) :
    Reads (fun t => ok t && t ≠ sep) (sepBy sep p)
      (separated sep tokens (i :: is)) (value i, is.map value) := by
  obtain ⟨hi, his⟩ := forall_mem_cons.mp his
  intro rest hrest
  have hfuel : is.length ≤ ((is.flatMap fun j => sep :: tokens j) ++
      rest).length := by
    rw [length_append]
    exact Nat.le_trans (length_le_flatMap sep tokens is) (Nat.le_add_right _ _)
  have hmember := hi _ (follows_members hsep tokens is hrest)
  have htail := sepTail_reads hsep his hfuel rest hrest
  rw [sepBy, separated, append_assoc, StateT.run_bind, hmember]
  change ((sepTail sep p _).run _).bind _ = _
  rw [htail]
  rfl

theorem Reads.sepBy (hsep : ok sep = true) (h : Reads ok p ts a) :
    Reads (fun t => ok t && t ≠ sep) (sepBy sep p) ts (a, []) := by
  have hone : Reads (fun t => ok t && t ≠ sep) (Parse.sepBy sep p)
      (separated sep (fun _ : Unit => ts) [()]) (a, []) :=
    @sepBy_reads _ _ _ _ ok p sep _ (fun _ => a) hsep () [] fun _ _ => h
  rwa [separated, flatMap_nil, append_nil] at hone

theorem listOf_reads (hsep : ok sep = true) {is : List ι} (hne : is ≠ [])
    (his : ∀ j ∈ is, Reads ok p (tokens j) (value j)) :
    Reads (fun t => ok t && t ≠ sep) (listOf sep p) (separated sep tokens is)
    (is.map value) := by
  obtain ⟨i, is, rfl⟩ := exists_cons_of_ne_nil hne
  exact (sepBy_reads hsep his).map fun r => r.1 :: r.2

theorem Reads.listOf (hsep : ok sep = true) (h : Reads ok p ts a) :
    Reads (fun t => ok t && t ≠ sep) (listOf sep p) ts [a] :=
  (h.sepBy hsep).map fun r => r.1 :: r.2

theorem Reads.infixLeft {combine : α → α → α} (hsep : ok sep = true)
    (h : Reads ok p ts a) :
    Reads (fun t => ok t && t ≠ sep) (infixLeft sep combine p) ts a :=
  (h.sepBy hsep).map fun r => r.2.foldl combine r.1

theorem infixLeft_reads {combine : α → α → α} (hsep : ok sep = true)
    (hl : Reads ok p ts a) (hr : Reads ok p us b) :
    Reads (fun t => ok t && t ≠ sep) (Parse.infixLeft sep combine p)
      (ts ++ sep :: us) (combine a b) := by
  have htwo : Reads (fun t => ok t && t ≠ sep) (Parse.sepBy sep p)
      (separated sep Prod.fst [(ts, a), (us, b)]) (a, [b]) :=
    @sepBy_reads _ _ _ _ ok p sep _ Prod.snd hsep (ts, a) [(us, b)] (by
      intro j hj
      rcases mem_pair.mp hj with rfl | rfl
      · exact hl
      · exact hr)
  have hjoin : separated sep Prod.fst [(ts, a), (us, b)] = ts ++ sep :: us := by
    simp [separated]
  rw [hjoin] at htwo
  exact htwo.map fun r => r.2.foldl combine r.1

end Combinators

end Parse

end Fuse.Foundation
