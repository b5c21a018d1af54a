import Mathlib.Algebra.GroupWithZero.Nat
import Mathlib.Data.List.Basic
import Mathlib.Algebra.BigOperators.Group.List.Basic

/-!
# Pieces of a list and running totals

A list is read in pieces of bounded size.  `takeBelow` goes through pieces
with a running total: it keeps a piece while the total before it is below a
limit, and counts the first piece it leaves out as well.
-/

namespace Fuse.Foundation

open List

section Chunks

variable {α : Type}

def chunks (size : Nat) : Nat → List α → List (List α)
  | 0, _ => []
  | _ + 1, [] => []
  | fuel + 1, x :: xs =>
    (x :: xs).take size :: chunks size fuel ((x :: xs).drop size)

theorem flatten_chunks {size : Nat} (hsize : 0 < size) {fuel : Nat}
    {xs : List α}
    (hfuel : xs.length ≤ fuel) : (chunks size fuel xs).flatten = xs := by
  induction fuel generalizing xs with
  | zero => simp_all [chunks]
  | succ fuel ih =>
    cases xs with
    | nil => rfl
    | cons x xs =>
      have hrest : ((x :: xs).drop size).length ≤ fuel := by
        rw [length_drop, length_cons]
        rw [length_cons] at hfuel
        omega
      rw [chunks, flatten_cons, ih hrest, take_append_drop]

end Chunks

section Totals

variable {β : Type} (size : β → Nat)

def takeBelow (limit : Nat) : Nat → List β → List β × Nat
  | total, [] => ([], total)
  | total, b :: rest =>
    if total < limit then
      let (kept, last) := takeBelow limit (total + size b) rest
      (b :: kept, last)
    else ([], total + size b)

/-- The size of the first piece that starts `n` elements in or later. -/
def following (n : Nat) : List β → Nat
  | [] => 0
  | b :: rest => if n = 0 then size b else following (n - size b) rest

/-- The elements before the piece that holds the `n`-th. -/
def before (n : Nat) : List β → Nat
  | [] => 0
  | b :: rest => if n ≤ size b then 0 else size b + before (n - size b) rest

theorem following_map {γ : Type} (f : γ → β) (n : Nat) (pieces : List γ) :
    following size n (pieces.map f) = following (size ∘ f) n pieces := by
  induction pieces generalizing n with
  | nil => rfl
  | cons b rest ih =>
    rw [map_cons, following, following, ih]
    rfl

theorem before_map {γ : Type} (f : γ → β) (n : Nat) (pieces : List γ) :
    before size n (pieces.map f) = before (size ∘ f) n pieces := by
  induction pieces generalizing n with
  | nil => rfl
  | cons b rest ih =>
    rw [map_cons, before, before, ih]
    rfl

theorem before_le (n : Nat) (pieces : List β) : before size n pieces ≤ n := by
  induction pieces generalizing n with
  | nil => exact Nat.zero_le n
  | cons b rest ih =>
    rw [before]
    split
    · exact Nat.zero_le n
    · have := ih (n - size b)
      omega

theorem le_sum_of_following {n : Nat} {pieces : List β}
    (h : following size n pieces ≠ 0) :
    n ≤ (pieces.map size).sum := by
  induction pieces generalizing n with
  | nil => exact absurd rfl h
  | cons b rest ih =>
    rw [following] at h
    rw [map_cons, sum_cons]
    split at h
    · omega
    · have := ih h
      omega

theorem takeBelow_of_le {limit total : Nat} (h : limit ≤ total)
    (pieces : List β) :
    takeBelow size limit total pieces =
      ([], total + following size 0 pieces) := by
  cases pieces with
  | nil => rfl
  | cons b rest => simp [takeBelow, following, Nat.not_lt.mpr h]

/-- Below the limit `takeBelow` keeps everything, or the pieces up to the one
that reaches it. -/
theorem takeBelow_spec {limit total : Nat} (h : total < limit)
    (pieces : List β) :
    (takeBelow size limit total pieces =
      (pieces, total + (pieces.map size).sum) ∧
      total + (pieces.map size).sum < limit) ∨
    ∃ init last rest, pieces = init ++ last :: rest ∧
      total + (init.map size).sum < limit ∧
      limit ≤ total + (init.map size).sum + size last ∧
      before size (limit - total) pieces = (init.map size).sum ∧
      takeBelow size limit total pieces = (init ++ [last],
        total + (init.map size).sum + size last +
        following size (limit - total) pieces) := by
  induction pieces generalizing total with
  | nil => exact .inl ⟨rfl, h⟩
  | cons b rest ih =>
    rw [takeBelow, if_pos h]
    by_cases hb : total + size b < limit
    · have hsub : limit - total - size b = limit - (total + size b) := by omega
      have hnext : following size (limit - total) (b :: rest) =
          following size (limit - (total + size b)) rest := by
        rw [following, if_neg (by omega), hsub]
      rcases ih hb with ⟨htake, hsum⟩
        | ⟨init, last, rest, rfl, hbelow, hreached, hbefore, htake⟩
      · left
        rw [htake, map_cons, sum_cons]
        exact ⟨by simp only [Nat.add_assoc], by omega⟩
      · refine .inr ⟨b :: init, last, rest, rfl, ?_⟩
        rw [htake, hnext, before, if_neg (by omega), hsub, hbefore, map_cons,
          sum_cons]
        exact ⟨by omega, by omega, rfl,
          by simp only [cons_append, Nat.add_assoc]⟩
    · right
      have hnext : following size (limit - total) (b :: rest) =
          following size 0 rest := by
        rw [following, if_neg (by omega), Nat.sub_eq_zero_of_le (by omega)]
      refine ⟨[], b, rest, rfl, by simpa using h, by simpa using hb, ?_, ?_⟩
      · rw [before, if_pos (by omega)]
        rfl
      · rw [takeBelow_of_le size (by omega), hnext]
        rfl

end Totals

end Fuse.Foundation
