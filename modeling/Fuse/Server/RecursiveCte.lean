import Fuse.Engine.UnionRows
import Fuse.Server.CteRegistry

/-!
# Rounds of a recursive definition

`execute_recursive_cte` registers the rows of each round under the name of the
definition.  Only the first registration has an effect, so that every round of
the recursive part reads the rows of the base, or of a connector that had the
name before, and finds what the first round found.
-/

namespace Fuse.Server

open Foundation Fuse.Core Engine List Traced

section Rounds

variable {V : Type}

def allRows (batches : List (RecordBatch V)) : List (Row V) :=
  batches.flatMap (·.rows)

theorem allRows_eq_nil {batches : List (RecordBatch V)} :
    allRows batches = [] ↔ (batches.all fun b => b.rows.isEmpty) = true := by
  simp [allRows]

theorem any_rows {batches : List (RecordBatch V)} :
    (batches.any fun b => !b.rows.isEmpty) = true ↔
    allRows batches ≠ [] := by simp [allRows]

theorem range_iterates (R : Nat → List (RecordBatch V)) (k : Nat) :
    ((List.range (k + 1)).flatMap fun i => allRows (R i)) =
      allRows (R 0) ++ (List.range k).flatMap fun i => allRows (R (i + 1)) := by
  rw [range_succ_eq_map, flatMap_cons, flatMap_map]

def found : Except Str (FederatedResult V) → List (RecordBatch V)
  | .ok fed => fed.batches
  | .error _ => []

def Registry.bound (registry : Registry V) (name : Str)
    (batches : List (RecordBatch V)) : Registry V :=
  registry.filter (·.1 ≠ name) ++ [(name, .memory batches)]

variable [ArrowKernels V] [Unicode] [FloatOps] [SqlParser] (env : Env V)

def runStep (sql format : Str) (refs : List TableRef) :
    Exec V (FederatedResult V) :=
  match refs with
  | [ref] => executeSingle env sql format ref none
  | _ => executeJoin env sql refs

/-- On these connectors a text of one or two sources gives the batches; an error
counts as none. -/
def Finds (sql format : Str) (registry : Registry V)
    (batches : List (RecordBatch V)) : Prop :=
  ∀ refs, parseSqlSources sql = .ok refs → refs.length ≤ 2 →
    ∀ s : ExecState V, s.registry = registry → ∃ result,
      (Exec.attempt (runStep env sql format refs) s).result = .ok result ∧
      found result = batches

/-- The iterates of a recursive definition up to the `k`-th, which is the first
without rows.  `round` is what the recursive part gives once the base is
registered, if its name is free. -/
structure Iterates (format name base step : Str) (s : ExecState V)
    (R : Nat → List (RecordBatch V)) (k : Nat)
    (round : List (RecordBatch V)) : Prop where
  base : ∀ ref, parseSqlSources base = .ok [ref] → ∃ fed,
    (executeSingle env base format ref none s).result = .ok fed ∧
      fed.batches = R 0
  next : ∀ i < k, Finds env step format (s.registry.bound name (R i))
    (R (i + 1))
  last : allRows (R k) = []
  rows : ∀ i < k, allRows (R i) ≠ []
  bounded : k ≤ 100
  round : Finds env step format (s.registry.register name (.memory (R 0))) round

/-- The definition gives the rows of the iterates, as often as they occur. -/
def GivesIterates (format name inner : Str) (s : ExecState V)
    (R : Nat → List (RecordBatch V)) (k : Nat) : Prop :=
  ∃ all, (executeRecursiveCte env name inner format s).result = .ok (some all) ∧
    (allRows all).Perm ((List.range k).flatMap fun i => allRows (R i))

/-- The base has one source.  If it has rows, one hundred times what a round
finds is what the later iterates have together; with more than two sources a
round finds nothing. -/
def RoundsSuffice (base step : Str) (R : Nat → List (RecordBatch V)) (k : Nat)
    (round : List (RecordBatch V)) : Prop :=
  (∃ ref, parseSqlSources base = .ok [ref]) ∧
    (k = 0 ∨ ∃ refs, parseSqlSources step = .ok refs ∧
      ((List.replicate 100 (if refs.length ≤ 2 then round else [])).flatMap
        allRows).Perm ((List.range (k - 1)).flatMap fun i =>
        allRows (R (i + 1))))

variable {env} {sql format name : Str} {refs : List TableRef} {s : ExecState V}

theorem runStep_registry :
    (Exec.attempt (runStep env sql format refs) s).state.registry =
      s.registry := by
  have hcalls : CallsOnly (· = s.registry) (fun _ => True)
      (runStep env sql format refs) fun _ => True := by
    unfold runStep
    split
    · exact (executeSingle_calls (I := (· = s.registry)) (G := fun _ => True)
        env trivial).weaken fun _ _ => trivial
    · exact (executeJoin_calls (I := (· = s.registry)) (G := fun _ => True)
        env fun _ _ => trivial).weaken fun _ _ => trivial
  exact (hcalls s rfl).2.1

omit [FloatOps] [SqlParser] in
theorem parseSqlSources_ne_nil (h : parseSqlSources sql = .ok refs) :
    refs ≠ [] := by
  obtain ⟨refs', -, h⟩ := Fallible.bind_eq_ok.mp h
  obtain ⟨refs'', -, h⟩ := Fallible.bind_eq_ok.mp h
  split at h
  · cases h
  · rename_i hne
    cases h
    simpa using hne

section Loop

variable {rounds : Nat} {all working round : List (RecordBatch V)}
  {registry : Registry V}

theorem recursiveRounds_wide (hrefs : parseSqlSources sql = .ok refs)
    (hmany : ¬ refs.length ≤ 2) :
    (recursiveRounds env name sql format rounds all working s).result =
      .ok (some all) := by
  cases rounds with
  | zero => rfl
  | succ rounds =>
    have hlength : ¬ (refs.length = 1 || refs.length = 2) = true := by
      simp
      omega
    unfold recursiveRounds
    split
    · rfl
    rw [Exec.register, modifyState_bind, Exec.liftFallible,
      lift_bind_ok (a := some refs) (by rw [hrefs]; rfl)]
    simp only [if_neg hlength]
    rfl

theorem recursiveRounds_succ (hrefs : parseSqlSources sql = .ok refs)
    (hfew : refs.length ≤ 2) (hworking : allRows working ≠ [])
    (htaken : Taken name s.registry) {result : Except Str (FederatedResult V)}
    (hresult : (Exec.attempt (runStep env sql format refs) s).result =
      .ok result) :
    (recursiveRounds env name sql format (rounds + 1) all working s).result =
      if allRows (found result) = [] then .ok (some all) else
        (recursiveRounds env name sql format rounds (all ++ found result)
          (found result)
          (Exec.attempt (runStep env sql format refs) s).state).result := by
  have hlength : (refs.length = 1 || refs.length = 2) = true := by
    have hpos := length_pos_iff.mpr (parseSqlSources_ne_nil hrefs)
    simp
    omega
  rw [recursiveRounds, if_neg (mt allRows_eq_nil.mpr hworking), Exec.register,
    modifyState_bind, register_of_taken htaken, Exec.liftFallible,
    lift_bind_ok (a := some refs) (by rw [hrefs]; rfl)]
  simp only [if_pos hlength]
  change ((Exec.attempt (runStep env sql format refs) >>= _) s).result = _
  rw [bind_ok hresult]
  cases result with
  | error e => exact (if_pos rfl).symm
  | ok fed =>
    by_cases hrows : allRows fed.batches = []
    · simp only [found, hrows, mt any_rows.mp (not_not.mpr hrows)]
      rfl
    · simp only [found, hrows, any_rows.mpr hrows]
      rfl

private theorem recursiveRounds_repeats (all : List (RecordBatch V))
    (hrefs : parseSqlSources sql = .ok refs) (hfew : refs.length ≤ 2)
    (hround : Finds env sql format registry round) (hrows : allRows round ≠ [])
    (htaken : Taken name registry) (hworking : allRows working ≠ [])
    (hs : s.registry = registry) :
    ∃ final, (recursiveRounds env name sql format rounds all working s).result =
        .ok (some final) ∧
      allRows final =
        allRows all ++ (List.replicate rounds round).flatMap allRows := by
  induction rounds generalizing all working s with
  | zero => exact ⟨all, rfl, by simp⟩
  | succ rounds ih =>
    obtain ⟨result, hresult, rfl⟩ := hround refs hrefs hfew s hs
    rw [recursiveRounds_succ hrefs hfew hworking (hs ▸ htaken) hresult,
      if_neg hrows]
    obtain ⟨final, hfinal, hall⟩ :=
      ih (all ++ found result) hrows (runStep_registry.trans hs)
    refine ⟨final, hfinal, ?_⟩
    rw [hall, replicate_succ, flatMap_cons, ← append_assoc]
    simp [allRows]

theorem recursiveRounds_rows (hrefs : parseSqlSources sql = .ok refs)
    (hround : Finds env sql format
      (s.registry.register name (.memory working)) round)
    (hworking : allRows working ≠ []) :
    ∃ final, (recursiveRounds env name sql format (rounds + 1) all working
        s).result = .ok (some final) ∧
      allRows final = allRows all ++ (List.replicate (rounds + 1)
        (if refs.length ≤ 2 then round else [])).flatMap allRows := by
  by_cases hfew : refs.length ≤ 2
  · rw [recursiveRounds_registered (mt allRows_eq_nil.mpr hworking),
      if_pos hfew]
    have htaken := taken_register s.registry name (.memory working)
    by_cases hrows : allRows round = []
    · obtain ⟨result, hresult, rfl⟩ := hround refs hrefs hfew
        { s with registry := s.registry.register name (.memory working) } rfl
      refine ⟨all, ?_, by simp [flatMap_replicate, hrows]⟩
      rw [recursiveRounds_succ hrefs hfew hworking htaken hresult, if_pos hrows]
    · exact recursiveRounds_repeats all hrefs hfew hround hrows htaken
        hworking rfl
  · refine ⟨all, recursiveRounds_wide hrefs hfew, ?_⟩
    simp [if_neg hfew, allRows, flatMap_replicate]

end Loop

variable {inner base step : Str} {R : Nat → List (RecordBatch V)} {k : Nat}
  {round : List (RecordBatch V)}

theorem executeRecursiveCte_one_source {all : List (RecordBatch V)}
    (hparts : splitRecursive inner = .ok (some (base, step)))
    (h : (executeRecursiveCte env name inner format s).result =
      .ok (some all)) :
    ∃ ref, parseSqlSources base = .ok [ref] := by
  rw [executeRecursiveCte, Exec.liftFallible, lift_bind_ok hparts] at h
  obtain ⟨refs, hrefs, h⟩ := bind_result_iff.mp h
  split at h
  · next ref => exact ⟨ref, toOption_parse hrefs⟩
  · cases h

theorem recursiveRounds_reads {rounds : Nat}
    {all final working : List (RecordBatch V)} (hworking : allRows working ≠ [])
    (h : (recursiveRounds env name sql format
      (rounds + 1) all working s).result = .ok
      (some final)) : ∃ refs, parseSqlSources sql = .ok refs := by
  rw [recursiveRounds, if_neg (mt allRows_eq_nil.mpr hworking), Exec.register,
    modifyState_bind] at h
  obtain ⟨refs, hrefs, h⟩ := bind_result_iff.mp h
  cases refs with
  | none => cases h
  | some refs => exact ⟨refs, toOption_parse hrefs⟩

/-- A recursive definition gives the bag union of its iterates exactly where one
hundred times the first round make up for the later ones. -/
theorem executeRecursiveCte_iff
    (hparts : splitRecursive inner = .ok (some (base, step)))
    (h : Iterates env format name base step s R k round) :
    GivesIterates env format name inner s R k ↔
    RoundsSuffice base step R k round := by
  unfold GivesIterates RoundsSuffice
  by_cases hone : ∃ ref, parseSqlSources base = .ok [ref]
  · obtain ⟨ref, href⟩ := hone
    obtain ⟨fed, hfed, hbase⟩ := h.base ref href
    rw [(executeRecursiveCte_base name hparts href hfed).1, hbase]
    generalize hs' : (executeSingle env base format ref none s).state = s'
    cases k with
    | zero =>
      have hresult : (recursiveRounds env name step format 100 (R 0) (R 0)
          s').result = .ok (some (R 0)) := by
        rw [recursiveRounds, if_pos (allRows_eq_nil.mp h.last)]
        rfl
      exact iff_of_true ⟨R 0, hresult, by simp [h.last]⟩ ⟨⟨ref, href⟩, .inl rfl⟩
    | succ k =>
      have hworking := h.rows 0 k.succ_pos
      have hregistry : s'.registry = s.registry :=
        hs' ▸ executeSingle_registry base ref none
      have hround := h.round
      rw [← hregistry] at hround
      constructor
      · rintro ⟨all, hall, hperm⟩
        obtain ⟨refs, hrefs⟩ := recursiveRounds_reads hworking hall
        obtain ⟨final, hfinal, hrows⟩ :=
          recursiveRounds_rows hrefs hround hworking
        cases hfinal.symm.trans hall
        rw [hrows, range_iterates, perm_append_left_iff] at hperm
        exact ⟨⟨ref, href⟩, .inr ⟨refs, hrefs, hperm⟩⟩
      · rintro ⟨-, hzero | ⟨refs, hrefs, hperm⟩⟩
        · cases hzero
        · obtain ⟨final, hfinal, hrows⟩ :=
            recursiveRounds_rows hrefs hround hworking
          refine ⟨final, hfinal, ?_⟩
          rw [hrows, range_iterates, perm_append_left_iff]
          exact hperm
  · constructor
    · rintro ⟨all, hall, -⟩
      exact absurd (executeRecursiveCte_one_source hparts hall) hone
    · exact fun hsuffice => absurd hsuffice.1 hone

end Rounds

section Example

attribute [local instance] asciiUnicode integersOnly textCells

def walkStep : Str := "SELECT next FROM walk.w JOIN b.e ON walk.next = b.node"

def walkDefinition : Str := "SELECT next FROM a.t UNION ALL " ++ walkStep

def walkEdges : RecordBatch Str :=
  columnsBatch ["node", "next"]
    [["1".toList, "2".toList].map some, ["5".toList, "6".toList].map some]
    (by simp)

def walkFrom (start : Str) : Env Str :=
  { Env.quiet Str with
    execute := fun _ ds _ =>
      .ok [if ds = "a" then oneCell "next" start else walkEdges] }

def walkIterates (start : Str) : Nat → List (RecordBatch Str)
  | 0 => [oneCell "next" start]
  | i + 1 => (Except.toOption (joinAnswers walkStep
      ⟨"walk", walkIterates start i⟩ ⟨"b", [walkEdges]⟩)).getD []

theorem walk_finds {start : Str} {registry : Registry Str} {i : Nat}
    (hwalk : registry.get "walk" = some (.memory (walkIterates start i)))
    (hedges : registry.get "b" = some .external)
    (hjoined : joinAnswers walkStep ⟨"walk", walkIterates start i⟩
      ⟨"b", [walkEdges]⟩ = .ok (walkIterates start (i + 1))) :
    letI := tableParser []
    Finds (walkFrom start) walkStep "sql" registry
        (walkIterates start (i + 1)) := by
  intro refs hrefs _ s hs
  have hparse : parseSqlSources walkStep = .ok [⟨"walk", "w"⟩, ⟨"b", "e"⟩] := by
    decide +kernel
  cases hparse.symm.trans hrefs
  refine ⟨.ok ⟨walkIterates start (i + 1), ["walk", "b"], []⟩, ?_, rfl⟩
  have hrun := executeJoin_result (walkFrom start) walkStep
    (a := ⟨"walk", "w"⟩) (b := ⟨"b", "e"⟩) s (hs ▸ hwalk) (hs ▸ hedges)
  change Fallible.catchError
    (executeJoin (walkFrom start) walkStep _ s).result = _
  rw [hrun]
  change Fallible.catchError
    ((joinAnswers walkStep ⟨"walk", walkIterates start i⟩
    ⟨"b", [walkEdges]⟩) >>= _) = _
  rw [hjoined]
  rfl

theorem walk_iterates (start : Str) {k : Nat}
    (hjoined : ∀ i < k + 1, joinAnswers walkStep ⟨"walk", walkIterates start i⟩
      ⟨"b", [walkEdges]⟩ =
        .ok (walkIterates start (i + 1)))
    (hrows : ∀ i < k + 1, allRows (walkIterates start i) ≠ [])
    (hlast : allRows (walkIterates start (k + 1)) = []) (hk : k + 1 ≤ 100) :
    letI := tableParser []
    Iterates (walkFrom start) "sql" "walk" "SELECT next FROM a.t" walkStep
      registeredAB (walkIterates start) (k + 1) (walkIterates start 1) := by
  let := tableParser []
  refine ⟨?_, fun i hi => walk_finds rfl rfl (hjoined i hi), hlast, hrows, hk,
    walk_finds rfl rfl (hjoined 0 k.succ_pos)⟩
  intro ref href
  have hparse : parseSqlSources "SELECT next FROM a.t" = .ok [⟨"a", "t"⟩] := by
    decide +kernel
  cases hparse.symm.trans href
  exact ⟨⟨[oneCell "next" start], ["a"], []⟩, rfl, rfl⟩

/-- Every round finds the first edge again. -/
theorem walk_repeats_first_round :
    letI := tableParser []
    splitRecursive walkDefinition = .ok
      (some ("SELECT next FROM a.t", walkStep)) ∧
      Iterates (walkFrom "1") "sql" "walk" "SELECT next FROM a.t" walkStep
        registeredAB (walkIterates "1") 2 (walkIterates "1" 1) ∧
      ¬ GivesIterates (walkFrom "1") "sql" "walk" walkDefinition registeredAB
        (walkIterates "1") 2 := by
  let := tableParser []
  refine ⟨by decide +kernel, walk_iterates "1" ?_ ?_ (by decide +kernel)
    (by decide), ?_⟩
  · decide +kernel
  · decide +kernel
  · rintro ⟨all, hall, hperm⟩
    have hcount : ((Except.toOption (executeRecursiveCte (walkFrom "1") "walk"
        walkDefinition "sql" registeredAB).result).join.map
          fun batches => (allRows batches).length) = some 101 := by
            decide +kernel
    rw [hall] at hcount
    have hlength := hperm.length_eq
    have hunion : ((List.range 2).flatMap fun i =>
        allRows (walkIterates "1" i)).length = 2 := by decide +kernel
    rw [hunion] at hlength
    cases hcount.symm.trans (congrArg some hlength)

theorem walk_without_edges :
    letI := tableParser []
    GivesIterates (walkFrom "9") "sql" "walk" walkDefinition registeredAB
        (walkIterates "9") 1 := by
  let := tableParser []
  have hiterates := walk_iterates "9" (k := 0) (by decide +kernel)
    (by decide +kernel) (by decide +kernel) (by decide)
  have hparts : splitRecursive walkDefinition =
    .ok (some ("SELECT next FROM a.t", walkStep)) := by decide +kernel
  refine (executeRecursiveCte_iff hparts hiterates).mpr
    ⟨⟨⟨"a", "t"⟩, by decide +kernel⟩,
    .inr ⟨[⟨"walk", "w"⟩, ⟨"b", "e"⟩], by decide +kernel, by decide +kernel⟩⟩

end Example

end Fuse.Server
