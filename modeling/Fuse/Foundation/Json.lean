import Fuse.Foundation.Text
import Mathlib.Data.List.Forall2

/-!
# JSON documents

Documents as a program meets them that indexes into them: a member that is
missing, or of a value that is no object, is `null`.
-/

namespace Fuse.Foundation

open List

inductive Json where
  | null
  | bool (b : Bool)
  | int (n : Int)
  | float (bits : BitVec 64)
  | str (s : Str)
  | array (items : List Json)
  | object (members : List (Str × Json))

namespace Json

def field (key : Str) : Json → Json
  | object members => ((members.find? (·.1 = key)).map (·.2)).getD null
  | _ => null

def asArray : Json → Option (List Json)
  | array items => some items
  | _ => none

def asStr : Json → Option Str
  | str s => some s
  | _ => none

def asInt : Json → Option Int
  | int n => some n
  | _ => none

def items (v : Json) : List Json := v.asArray.getD []

variable {α β : Type} {R : Json → α → Prop} {v : Json} {xs : List α}

def ListOf (R : Json → α → Prop) (v : Json) (xs : List α) : Prop :=
  ∃ docs, v = array docs ∧ List.Forall₂ R docs xs

theorem listOf_map {doc : α → Json} (h : ∀ x, R (doc x) x) (xs : List α) :
    ListOf R (array (xs.map doc)) xs := by
  refine ⟨_, rfl, ?_⟩
  induction xs with
  | nil => exact .nil
  | cons x xs ih => exact .cons (h x) ih

theorem ListOf.filterMap_items {read : Json → Option β} {f : α → β}
    (h : ListOf R v xs) (hread : ∀ d x, R d x → read d = some (f x)) :
    v.items.filterMap read = xs.map f := by
  obtain ⟨docs, rfl, hdocs⟩ := h
  change docs.filterMap read = _
  induction hdocs with
  | nil => rfl
  | cons hd _ ih =>
    rw [filterMap_cons, hread _ _ hd, ih, map_cons]

theorem ListOf.exists_getLast (h : ListOf R v xs) :
    ∃ docs, v.asArray = some docs ∧ Option.Rel R docs.getLast? xs.getLast? := by
  obtain ⟨docs, rfl, hdocs⟩ := h
  refine ⟨docs, rfl, ?_⟩
  have hrev := forall₂_reverse_iff.mpr hdocs
  rw [← head?_reverse, ← head?_reverse]
  generalize docs.reverse = ds at hrev ⊢
  generalize xs.reverse = ys at hrev ⊢
  cases hrev with
  | nil => exact .none
  | cons hd _ => exact .some hd

end Json

end Fuse.Foundation
