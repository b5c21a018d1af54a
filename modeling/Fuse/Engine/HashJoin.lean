import Fuse.Engine.Join
import Fuse.Engine.SortOrder

/-!
# The rows of a hash join

The rows that the inner join of `join.rs` is to give are those of the
nested-loop join: every row of the probed side with every row of the other
side that has the same key text, without the key column of the probed side.
-/

namespace Fuse.Engine

open Foundation Fuse.Core List

variable {V : Type} [ArrowKernels V]

def sameKey (buildKey probeKey : Nat) (build probe : Row V) : Bool :=
  (keyText probeKey probe).isSome && keyText buildKey build =
    keyText probeKey probe

def nestedLoop (buildKey probeKey : Nat) (build probe : List (Row V)) :
    List (Row V) :=
  probe.flatMap fun p =>
    (build.filter (sameKey buildKey probeKey · p)).map
    (· ++ skipColumn probeKey p)

def pairRow (probeKey : Nat) (build probe : List (Row V))
    (widthB widthP : Nat) (pair : JoinPair) : Row V :=
  rowAt build widthB pair.1 ++ skipColumn probeKey (rowAt probe widthP pair.2)

omit [ArrowKernels V] in
theorem map_findIdxs {α β : Type} (p : α → Bool) (as : List α) (start : Nat)
    (f : Nat → β)
    (g : α → β) (hf : ∀ i (hi : i < as.length), f (start + i) = g as[i]) :
    (as.findIdxs p start).map f = (as.filter p).map g := by
  induction as generalizing start with
  | nil => rfl
  | cons a as ih =>
    have hhead : f start = g a := hf 0 (by simp)
    have htail := ih (start + 1) fun i hi => by
      have := hf (i + 1) (by simpa using hi)
      simpa [Nat.add_assoc, Nat.add_comm 1] using this
    rw [findIdxs_cons, filter_cons]
    split
    · rw [map_cons, map_cons, hhead, htail]
    · exact htail

omit [ArrowKernels V] in
theorem filter_eq_eraseIdx {schema : Schema} {key : Str} {i : Nat}
    (hi : schema.indexOf key = some i) (hlength : (schema.eraseIdx i).length =
      (schema.filter (·.name ≠ key)).length) :
    schema.filter (·.name ≠ key) = schema.eraseIdx i := by
  obtain ⟨hbound, hname, -⟩ := findIdx?_eq_some_iff_getElem.mp hi
  have hsplit : schema.filter (·.name ≠ key) =
      (schema.eraseIdx i).filter (·.name ≠ key) := by
    conv_lhs => rw [← take_append_drop i schema, drop_eq_getElem_cons hbound]
    rw [eraseIdx_eq_take_drop_succ, filter_append,
      filter_append, filter_cons_of_neg (by simpa using hname)]
  rw [hsplit] at hlength ⊢
  exact filter_sublist.eq_of_length hlength.symm

omit [ArrowKernels V] in
theorem keyIndex_ok {side key : Str} {schema : Schema} {i : Nat}
    (h : keyIndex side schema key = .ok i) : schema.indexOf key = some i := by
  unfold keyIndex at h
  split at h
  · rename_i hi
    cases h
    exact hi
  · cases h

omit [ArrowKernels V] in
theorem mergeSchemas_inner (build probe : Schema) (probeKey : Str) :
    mergeSchemas build probe probeKey .inner =
      build ++ (probe.filter (·.name ≠ probeKey)).map fun f =>
        { name := probeName build f.name, dataType := f.dataType,
          nullable := true } := by simp [mergeSchemas]

omit [ArrowKernels V] in
theorem rowFits_append {left right : Schema} {row row' : Row V}
    (h : rowFits left row = true) (h' : rowFits right row' = true) :
    rowFits (left ++ right) (row ++ row') = true := by
  simp only [rowFits, Bool.and_eq_true, beq_iff_eq] at h h' ⊢
  refine ⟨by simp [h.1, h'.1], ?_⟩
  rw [zip_append h.1.symm, all_append, h.2, h'.2]
  rfl

end Fuse.Engine
