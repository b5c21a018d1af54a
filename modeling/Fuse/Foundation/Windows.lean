import Mathlib.Algebra.GroupWithZero.Nat
import Mathlib.Data.List.NodupEquivFin
import Mathlib.Order.WellFounded

/-!
# Windows of concatenations

The window `skip, count` of a list is what is left when the first `skip`
elements are dropped and at most `count` taken.  A concatenation whose parts
are cut to `count` elements has the same window as the whole one exactly when
no part before the window's start is cut.
-/

namespace Fuse.Foundation.Windows

open List

variable {α : Type}

def window (skip count : Nat) (xs : List α) : List α :=
  (xs.drop skip).take count

def limited (limit : Option Nat) (xs : List α) : List α :=
  match limit with
  | some l => xs.take l
  | none => xs

theorem limited_map {β : Type} (f : α → β) (limit : Option Nat)
    (xs : List α) : limited limit (xs.map f) = (limited limit xs).map f := by
  cases limit with
  | none => rfl
  | some l => exact map_take.symm

theorem limited_eq_take (limit : Option Nat) (xs : List α) :
    limited limit xs = xs.take (limit.getD xs.length) := by
  cases limit with
  | none => exact take_length.symm
  | some l => rfl

theorem mem_of_mem_limited {limit : Option Nat} {xs : List α} {x : α}
    (h : x ∈ limited limit xs) : x ∈ xs := by
  rw [limited_eq_take] at h
  exact mem_of_mem_take h

/-- A window over a part of a bag is the bag exactly when nothing was left out
before and the window leaves out nothing. -/
theorem limited_drop_perm_iff {kept xs : List α} (h : kept.Subperm xs)
    (skip : Nat)
    (limit : Option Nat) : (limited limit (kept.drop skip)).Perm xs ↔
      kept.Perm xs ∧ (skip = 0 ∨ xs = []) ∧ ∀ n ∈ limit, xs.length ≤ n := by
  rw [limited_eq_take]
  constructor
  · intro hperm
    have hlength := hperm.length_eq
    rw [length_take, length_drop] at hlength
    have hle := h.length_le
    refine ⟨h.perm_of_length_le (by omega), ?_, ?_⟩
    · rw [← length_eq_zero_iff]
      omega
    · rintro n rfl
      rw [Option.getD_some] at hlength
      omega
  · rintro ⟨hkept, hskip, hlimit⟩
    have hlength := hkept.length_eq
    have hdrop : kept.drop skip = kept := by
      rcases hskip with rfl | rfl
      · exact drop_zero
      · rw [hkept.eq_nil, drop_nil]
    rw [hdrop, take_of_length_le]
    · exact hkept
    · cases limit with
      | none => exact le_refl _
      | some n => exact hlength ▸ hlimit n rfl

theorem window_eq_drop_take (skip count : Nat) (xs : List α) :
    window skip count xs = (xs.take (skip + count)).drop skip := by
  rw [window, drop_take, Nat.add_sub_cancel_left]

variable {skip count : Nat} {parts : List (List α)}

theorem window_eq_nil {xs : List α} (h : count = 0 ∨ xs.length ≤ skip) :
    window skip count xs = [] := by
  rcases h with rfl | h
  · exact take_zero
  · rw [window, drop_of_length_le h, take_nil]

/-- A window of a window that starts at the same place again loses rows unless
it starts at zero. -/
theorem window_window_eq_iff (skip count : Nat) (xs : List α) :
    window skip count (window skip count xs) = window skip count xs ↔
      count = 0 ∨ xs.length ≤ skip ∨ skip = 0 := by
  constructor
  · intro h
    have hlength := congrArg List.length h
    simp only [window, length_take, length_drop] at hlength
    omega
  · rintro (hcount | hskip | rfl)
    · rw [window_eq_nil (.inl hcount), window_eq_nil (.inl hcount)]
    · have hnil : window skip count xs = [] := window_eq_nil (.inr hskip)
      rw [hnil]
      exact window_eq_nil (.inr (Nat.zero_le _))
    · simp [window, take_take]

/-! ## A sublist that agrees on a window -/

private theorem le_of_getElem?_sublist {xs ys : List α} (h : xs.Sublist ys)
    (hnodup : ys.Nodup) {i j : Nat}
    {x : α} (hi : xs[i]? = some x) (hj : ys[j]? = some x) :
    i ≤ j ∧ (i = j → ∀ k ≤ i, xs[k]? = ys[k]?) := by
  obtain ⟨f, hf⟩ := List.sublist_iff_exists_orderEmbedding_getElem?_eq.mp h
  have hfi : f i = j := by
    have hfi : ys[f i]? = some x := hf i ▸ hi
    rw [List.nodup_iff_injective_get] at hnodup
    obtain ⟨hlt, hget⟩ := List.getElem?_eq_some_iff.mp hfi
    obtain ⟨hlt', hget'⟩ := List.getElem?_eq_some_iff.mp hj
    have hsame : (⟨f i, hlt⟩ : Fin ys.length) = ⟨j, hlt'⟩ :=
      hnodup (hget.trans hget'.symm)
    exact congrArg Fin.val hsame
  refine ⟨hfi ▸ StrictMono.le_apply f.strictMono, fun heq k hk => ?_⟩
  -- an order embedding that fixes a place fixes all before it
  have hfix : f k = k := by
    have hlow : k ≤ f k := StrictMono.le_apply f.strictMono
    have hgap : ∀ d, f k + d ≤ f (k + d) := by
      intro d
      induction d with
      | zero => exact le_refl _
      | succ d ih =>
        have hstep : f (k + d) < f (k + (d + 1)) := f.strictMono (by omega)
        omega
    have hi' := hgap (i - k)
    rw [Nat.add_sub_cancel' hk, hfi] at hi'
    omega
  rw [hf k, hfix]

theorem take_eq_of_window_eq {xs ys : List α} (h : xs.Sublist ys)
    (hnodup : ys.Nodup) (hcount : 0 < count) (hskip : skip < ys.length)
    (hsame : window skip count xs = window skip count ys) :
    xs.take (skip + count) = ys.take (skip + count) := by
  have hinside : ∀ i, skip ≤ i → i < skip + count → xs[i]? = ys[i]? := by
    intro i hlow hhigh
    have hat := congrArg (·[i - skip]?) hsame
    simp only [window, getElem?_take, getElem?_drop] at hat
    rwa [if_pos (by omega), if_pos (by omega), Nat.add_sub_cancel' hlow] at hat
  apply ext_getElem?
  intro i
  rw [getElem?_take, getElem?_take]
  split
  · rename_i hi
    by_cases hlow : skip ≤ i
    · exact hinside i hlow hi
    · have hstart := hinside skip (le_refl _) (by omega)
      have hfirst : ys[skip]? = some ys[skip] := getElem?_eq_getElem hskip
      exact (le_of_getElem?_sublist h hnodup (hstart.trans hfirst) hfirst).2 rfl
        i (by omega)
  · rfl

/-! ## Parts that are cut -/

def cut (count : Nat) (parts : List (List α)) : List α :=
  parts.flatMap (List.take count)

def uncut (count : Nat) (parts : List (List α)) : Nat :=
  ((parts.map List.length).takeWhile (· ≤ count)).sum

theorem cut_sublist (count : Nat) (parts : List (List α)) :
    (cut count parts).Sublist parts.flatten := by
  induction parts with
  | nil => exact List.Sublist.refl _
  | cons p ps ih => exact (take_sublist count p).append ih

theorem uncut_cons (count : Nat) (p : List α) (ps : List (List α)) :
    uncut count (p :: ps) =
      if p.length ≤ count then p.length + uncut count ps else 0 := by
  by_cases hp : p.length ≤ count <;> simp [uncut, hp]

/-- The first elements are the same up to `count` elements of the first part
that is cut. -/
theorem take_cut {count m : Nat} (h : m ≤ uncut count parts + count) :
    (cut count parts).take m = parts.flatten.take m := by
  induction parts generalizing m with
  | nil => rfl
  | cons p ps ih =>
    rw [uncut_cons] at h
    change (p.take count ++ cut count ps).take m = _
    rw [flatten_cons, take_append, take_append]
    split at h
    · next hp =>
        rw [take_of_length_le hp, ih (by omega)]
    rename_i hp
    have hlong : count ≤ p.length := by omega
    rw [take_take, length_take, Nat.min_eq_left hlong]
    simp only [Nat.zero_add] at h
    rw [Nat.min_eq_left h, Nat.sub_eq_zero_of_le h,
      Nat.sub_eq_zero_of_le (h.trans hlong), take_zero, take_zero]

theorem le_uncut_of_take_cut {count m : Nat} (hnodup : parts.flatten.Nodup)
    (h : (cut count parts).take m = parts.flatten.take m) :
    m ≤ uncut count parts + count ∨ parts.flatten.length =
      uncut count parts := by
  induction parts generalizing m with
  | nil => exact .inr rfl
  | cons p ps ih =>
    change (p.take count ++ cut count ps).take m = _ at h
    rw [flatten_cons] at h hnodup
    rw [uncut_cons, flatten_cons, length_append]
    obtain ⟨-, hrest, hdisjoint⟩ := nodup_append.mp hnodup
    split
    · rename_i hp
      rw [take_of_length_le hp, take_append, take_append] at h
      rcases ih hrest (append_cancel_left h) with hm | hlength
      · exact .inl (by omega)
      · exact .inr (by omega)
    · rename_i hp
      refine .inl ?_
      by_contra hm
      -- behind the cut stands an element of another part
      have hlong : count < p.length := by omega
      have hat := congrArg (·[count]?) h
      simp only [getElem?_take] at hat
      rw [if_pos (by omega), if_pos (by omega), getElem?_append_right (by simp),
        getElem?_append_left hlong, getElem?_eq_getElem hlong] at hat
      have hmem := (cut_sublist count ps).subset (mem_of_getElem? hat)
      exact hdisjoint _ (getElem_mem hlong) _ hmem rfl

def Kept (skip count : Nat) (parts : List (List α)) : Prop :=
  count = 0 ∨ parts.flatten.length ≤ skip ∨ skip ≤ uncut count parts

theorem window_cut (h : Kept skip count parts) :
    window skip count (cut count parts) = window skip count parts.flatten := by
  rcases h with hcount | hskip | huncut
  · rw [window_eq_nil (.inl hcount), window_eq_nil (.inl hcount)]
  · rw [window_eq_nil (.inr hskip),
      window_eq_nil (.inr ((cut_sublist count parts).length_le.trans hskip))]
  · rw [window_eq_drop_take, window_eq_drop_take, take_cut (by omega)]

theorem kept_of_window_cut (hnodup : parts.flatten.Nodup)
    (h : window skip count (cut count parts) =
      window skip count parts.flatten) : Kept skip count parts := by
  by_cases hcount : count = 0
  · exact .inl hcount
  by_cases hskip : parts.flatten.length ≤ skip
  · exact .inr (.inl hskip)
  have htake := take_eq_of_window_eq (cut_sublist count parts) hnodup
    (Nat.pos_of_ne_zero hcount) (by omega) h
  rcases le_uncut_of_take_cut hnodup htake with hle | hlength
  · exact .inr (.inr (by omega))
  · exact .inr (.inr (by omega))

end Fuse.Foundation.Windows
