import Mathlib.Order.MinMax
import Mathlib.Data.List.TakeDrop

/-!
# Cuts of a growing list

A list grows at its end by elements with larger stamps than all before them.
A cut is a length at which everything later has a larger stamp; the lengths
the list once had are cuts.  `IsMark m n` says that the stamp `m` separates
the two sides of a cut.
-/

namespace Fuse.Foundation

open List

variable {α β : Type} [LinearOrder β] (stamp : α → β)

structure IsCut (as : List α) (n : Nat) : Prop where
  le : n ≤ as.length
  lt : ∀ a ∈ as.take n, ∀ b ∈ as.drop n, stamp a < stamp b

structure IsMark (as : List α) (m : β) (n : Nat) : Prop where
  below : ∀ a ∈ as.take n, stamp a ≤ m
  above : ∀ b ∈ as.drop n, m < stamp b

variable {stamp} {as bs : List α} {n k : Nat} {m : β}

theorem isCut_zero : IsCut stamp as 0 where
  le := Nat.zero_le _
  lt a ha := by
    rw [take_zero] at ha
    cases ha

theorem isCut_length : IsCut stamp as as.length where
  le := Nat.le_refl _
  lt a _ b hb := by
    rw [drop_length] at hb
    cases hb

theorem IsCut.append (h : IsCut stamp as n)
    (hnew : ∀ b ∈ bs, ∀ a ∈ as, stamp a < stamp b) :
    IsCut stamp (as ++ bs) n where
  le := by
    rw [length_append]
    exact Nat.le_add_right_of_le h.le
  lt a ha b hb := by
    rw [take_append_of_le_length h.le] at ha
    rw [drop_append_of_le_length h.le] at hb
    rcases mem_append.mp hb with hb | hb
    · exact h.lt a ha b hb
    · exact hnew b hb a (mem_of_mem_take ha)

theorem IsMark.append (h : IsMark stamp as m n) (hn : n ≤ as.length)
    (hnew : ∀ b ∈ bs, m < stamp b) : IsMark stamp (as ++ bs) m n where
  below a ha := by
    rw [take_append_of_le_length hn] at ha
    exact h.below a ha
  above b hb := by
    rw [drop_append_of_le_length hn] at hb
    rcases mem_append.mp hb with hb | hb
    · exact h.above b hb
    · exact hnew b hb

theorem IsCut.isMark (h : IsCut stamp as n)
    (hm : ((as.take n).map stamp).max? = some m) : IsMark stamp as m n := by
  obtain ⟨hmem, hle⟩ := max?_eq_some_iff.mp hm
  obtain ⟨top, htop, rfl⟩ := mem_map.mp hmem
  exact ⟨fun a ha => hle _ (mem_map_of_mem ha), h.lt top htop⟩

theorem IsMark.filter_take (h : IsMark stamp as m n) (k : Nat) {p : α → Bool}
    (hp : ∀ a, p a = true ↔ m < stamp a) :
    (as.take k).filter p = (as.take k).drop n := by
  have hbelow : ∀ a ∈ (as.take k).take n, ¬ p a = true := by
    intro a ha
    rw [take_take, Nat.min_comm, ← take_take] at ha
    rw [hp]
    exact not_lt_of_ge (h.below a (mem_of_mem_take ha))
  have habove : ∀ a ∈ (as.take k).drop n, p a = true := by
    intro a ha
    rw [drop_take] at ha
    exact (hp a).mpr (h.above a (mem_of_mem_take ha))
  conv_lhs => rw [← take_append_drop n (as.take k)]
  rw [filter_append, filter_eq_nil_iff.mpr hbelow, filter_eq_self.mpr habove,
    nil_append]

theorem IsMark.mono (h : IsMark stamp as m n) (hnk : n ≤ k)
    (hempty : (as.take k).drop n = []) : IsMark stamp as m k := by
  have htake : as.take k = as.take n := by
    rw [← take_append_drop n (as.take k), hempty, append_nil, take_take,
      Nat.min_eq_left hnk]
  refine ⟨fun a ha => h.below a (htake ▸ ha), fun b hb => h.above b ?_⟩
  exact (drop_sublist_drop_left as hnk).subset hb

theorem IsMark.length_eq (h : IsMark stamp as m n) (hn : n ≤ as.length)
    (hle : ∀ a ∈ as, stamp a ≤ m) : as.length = n := by
  have hdrop : as.drop n = [] := by
    refine eq_nil_iff_forall_not_mem.mpr fun b hb => ?_
    exact not_lt_of_ge (hle b (mem_of_mem_drop hb)) (h.above b hb)
  exact Nat.le_antisymm (drop_eq_nil_iff.mp hdrop) hn

end Fuse.Foundation
