import Fuse.Engine.Join

/-!
# The loops of the hash join

`hash_join` enters the build rows in a hash table, walks over the probe rows
and collects two lists of row numbers, and marks the build rows that found a
partner.  What the three loops leave behind is the list of pairs `joinPairs`.
-/

namespace Fuse.Engine

open Foundation Fuse.Core List

variable {V : Type} [ArrowKernels V]

abbrev HashTable := Str → Option (List Nat)

def HashTable.push (table : HashTable) (key : Str) (row : Nat) : HashTable :=
  Function.update table key (some ((table key).getD [] ++ [row]))

def enterRow (buildKey : Nat) (table : HashTable) (row : Row V × Nat) :
    HashTable :=
  match keyText buildKey row.1 with
  | none => table
  | some key => table.push key row.2

def buildTable (buildKey : Nat) (build : List (Row V)) : HashTable :=
  build.zipIdx.foldl (enterRow buildKey) fun _ => none

structure Probed where
  buildIndices : List (Option Nat)
  probeIndices : List (Option Nat)
  buildMatched : List Bool

namespace Probed

def push (s : Probed) (pair : JoinPair) : Probed :=
  { s with
    buildIndices := s.buildIndices ++ [pair.1]
    probeIndices := s.probeIndices ++ [pair.2] }

/-- A build row found as partner of the probe row `index`. -/
def pushMatch (index : Nat) (s : Probed) (b : Nat) : Probed :=
  { s.push (some b, some index) with buildMatched := s.buildMatched.set b true }

def pushUnmatched (joinType : JoinType) (index : Nat) (s : Probed) : Probed :=
  if joinType = .left || joinType = .anti || joinType = .full then
    s.push (none, some index)
  else s

end Probed

def probeStep (joinType : JoinType) (probeKey : Nat) (table : HashTable)
    (s : Probed) (row : Row V × Nat) : Probed :=
  match keyText probeKey row.1 with
  | none => s.pushUnmatched joinType row.2
  | some key =>
    match table key with
    | none => s.pushUnmatched joinType row.2
    | some buildRows =>
      match joinType with
      | .semi => { s with probeIndices := s.probeIndices ++ [some row.2] }
      | .anti => s
      | _ => buildRows.foldl (Probed.pushMatch row.2) s

def pushUnmarked (s : Probed) : Probed :=
  s.buildMatched.zipIdx.foldl (fun s flag =>
    if flag.1 then s else s.push (some flag.2, none)) s

def joinLoops (joinType : JoinType) (buildKey probeKey : Nat)
    (build probe : List (Row V)) : Probed :=
  let s := probe.zipIdx.foldl
    (probeStep joinType probeKey (buildTable buildKey build))
    { buildIndices := [], probeIndices := []
      buildMatched := List.replicate build.length false }
  if joinType = .full then pushUnmarked s else s

/-! ## The hash table -/

theorem enterRow_apply (buildKey : Nat) (table : HashTable) (row : Row V × Nat)
    (key : Str) :
    enterRow buildKey table row key = if keyText buildKey row.1 = some key then
        some ((table key).getD [] ++ [row.2]) else table key := by
  unfold enterRow
  cases keyText buildKey row.1 with
  | none => simp
  | some found => by_cases h : found = key <;> simp [HashTable.push, h, Ne.symm]

theorem foldl_enterRow (buildKey : Nat) (build : List (Row V)) (start : Nat)
    (table : HashTable)
    (key : Str) : (build.zipIdx start).foldl (enterRow buildKey) table key =
      let found := build.findIdxs (fun row =>
        keyText buildKey row = some key) start
      if found = [] then table key else some
          ((table key).getD [] ++ found) := by
  induction build generalizing start table with
  | nil => simp
  | cons row build ih =>
    rw [zipIdx_cons, foldl_cons, ih, enterRow_apply]
    by_cases hkey : keyText buildKey row = some key
      <;> simp [findIdxs_cons, hkey]

theorem buildTable_eq (buildKey : Nat) (build : List (Row V)) (key : Str) :
    buildTable buildKey build key =
      if matchingRows buildKey build key = [] then none
      else some (matchingRows buildKey build key) :=
  foldl_enterRow buildKey build 0 _ key

/-! ## The walk over the probe rows -/

def flagsOf (n : Nat) (pairs : List JoinPair) : List Bool :=
  (List.range n).map fun b => pairs.any (·.1 = some b)

/-- The lists and the marks are those of the pairs; a semi join keeps no
numbers of build rows. -/
structure Collected (joinType : JoinType) (n : Nat) (pairs : List JoinPair)
    (s : Probed) : Prop where
  build : joinType ≠ .semi → s.buildIndices = pairs.map (·.1)
  probe : s.probeIndices = pairs.map (·.2)
  marks : s.buildMatched = flagsOf n pairs

theorem flagsOf_set (n : Nat) (pairs : List JoinPair) (b : Nat)
    (index : Option Nat) :
    (flagsOf n pairs).set b true = flagsOf n (pairs ++ [(some b, index)]) := by
  apply ext_getElem
  · simp [flagsOf]
  · intro m h₁ h₂
    by_cases hm : b = m
    · simp [flagsOf, hm]
    · simp [flagsOf, getElem_set_ne hm, hm]

namespace Collected

variable {joinType : JoinType} {n : Nat} {pairs : List JoinPair} {s s' : Probed}

theorem snoc (h : Collected joinType n pairs s) (pair : JoinPair)
    (hbuild : joinType ≠ .semi → s'.buildIndices = s.buildIndices ++ [pair.1])
    (hprobe : s'.probeIndices = s.probeIndices ++ [pair.2])
    (hmarks : s'.buildMatched = pair.1.elim s.buildMatched
      (s.buildMatched.set · true)) :
    Collected joinType n (pairs ++ [pair]) s' where
  build ht := by simp [hbuild ht, h.build ht]
  probe := by simp [hprobe, h.probe]
  marks := by
    obtain ⟨_ | b, index⟩ := pair
    · simpa [flagsOf] using hmarks.trans h.marks
    · rw [hmarks, h.marks, ← flagsOf_set]
      rfl

theorem pushUnmatched (h : Collected joinType n pairs s) (index : Nat) :
    Collected joinType n (pairs ++ if joinType.keepsUnmatched
      then [(none, some index)] else [])
      (s.pushUnmatched joinType index) := by
  cases joinType with
  | left | anti | full => exact h.snoc (none, some index) (fun _ => rfl) rfl rfl
  | _ => simpa [Probed.pushUnmatched, JoinType.keepsUnmatched] using h

private theorem pushMatches (h : Collected joinType n pairs s) (index : Nat)
    (found : List Nat) :
    Collected joinType n (pairs ++ found.map fun b => (some b, some index))
      (found.foldl (Probed.pushMatch index) s) := by
  induction found generalizing pairs s with
  | nil => simpa using h
  | cons b found ih =>
    have hstep : Collected joinType n (pairs ++ [(some b, some index)])
        (s.pushMatch index b) :=
      h.snoc (some b, some index) (fun _ => rfl) rfl rfl
    simpa using ih hstep

theorem probeStep (h : Collected joinType n pairs s) (buildKey probeKey : Nat)
    (build : List (Row V)) (row : Row V) (index : Nat) :
    Collected joinType n
    (pairs ++ probeRow joinType buildKey probeKey build index row)
      (probeStep joinType probeKey (buildTable buildKey build) s
          (row, index)) := by
  unfold Engine.probeStep probeRow
  cases keyText probeKey row with
  | none => exact h.pushUnmatched index
  | some key =>
    simp only [buildTable_eq]
    cases hfound : matchingRows buildKey build key with
    | nil => exact h.pushUnmatched index
    | cons b found =>
      simp only [reduceCtorEq, if_false]
      cases joinType with
      | semi => exact h.snoc (none, some index) (absurd rfl) rfl rfl
      | anti => simpa using h
      | _ => exact h.pushMatches index (b :: found)

end Collected

theorem collected_foldl {joinType : JoinType} {n : Nat}
    (buildKey probeKey : Nat)
    (build probe : List (Row V)) (start : Nat) (pairs : List JoinPair)
    (s : Probed) (h : Collected joinType n pairs s) :
    Collected joinType n (pairs ++ ((probe.zipIdx start).map fun row =>
        probeRow joinType buildKey probeKey build row.2 row.1).flatten)
      ((probe.zipIdx start).foldl
          (probeStep joinType probeKey (buildTable buildKey build)) s) := by
  induction probe generalizing start pairs s with
  | nil => simpa using h
  | cons row probe ih =>
    have hrest :=
      ih (start + 1) _ _ (h.probeStep buildKey probeKey build row start)
    simpa using hrest

/-! ## The unmarked build rows -/

theorem foldl_unmarked (flags : List (Bool × Nat)) (s : Probed) :
    let s' := flags.foldl (fun s flag => if flag.1 then s
      else s.push (some flag.2, none)) s
    let added := (flags.filter (!·.1)).map fun flag =>
      ((some flag.2, none) : JoinPair)
    s'.buildIndices = s.buildIndices ++ added.map (·.1) ∧
      s'.probeIndices = s.probeIndices ++ added.map (·.2) := by
  induction flags generalizing s with
  | nil => simp
  | cons flag flags ih =>
    obtain ⟨_ | _, b⟩ := flag
    · simpa [Probed.push] using ih (s.push (some b, none))
    · simpa using ih s

private theorem zipIdx_flagsOf (n : Nat) (pairs : List JoinPair) :
    (flagsOf n pairs).zipIdx = (List.range n).map fun b =>
    (pairs.any (·.1 = some b), b) := by
  apply ext_getElem
  · simp [flagsOf]
  · intro m h₁ h₂
    simp [flagsOf]

theorem joinLoops_eq (joinType : JoinType) (buildKey probeKey : Nat)
    (build probe : List (Row V)) :
    let s := joinLoops joinType buildKey probeKey build probe
    let pairs := joinPairs joinType buildKey probeKey build probe
    s.probeIndices = pairs.map (·.2) ∧
      (joinType ≠ .semi → s.buildIndices = pairs.map (·.1)) := by
  have hstart : Collected joinType build.length []
      { buildIndices := [], probeIndices := []
        buildMatched := List.replicate build.length false } :=
    { build := fun _ => rfl
      probe := rfl
      marks := by simp [flagsOf, map_const'] }
  have hloop := collected_foldl buildKey probeKey build probe 0 [] _ hstart
  rw [nil_append] at hloop
  unfold joinLoops joinPairs
  by_cases hfull : joinType = .full
  · simp only [hfull, if_true, pushUnmarked] at hloop ⊢
    rw [hloop.marks, zipIdx_flagsOf, (foldl_unmarked _ _).1,
      (foldl_unmarked _ _).2, hloop.probe, hloop.build (by simp)]
    simp [unmatchedBuild, filter_map, Function.comp_def]
  · simp only [hfull, if_false]
    exact ⟨hloop.probe, hloop.build⟩

end Fuse.Engine
