import Fuse.Foundation.Panicking
import Fuse.Foundation.Runs
import Fuse.Server.State
import Mathlib.Data.List.Induction

/-!
# Key rotation

The server holds its API keys twice (`auth.rs`): in the table the middleware
looks a key up in, and in the rotation manager, which replaces keys and keeps
the old ones for a while.  A rotation changes the manager only.
-/

namespace Fuse.Server

open Foundation List

/-! ## Tables of keys -/

structure ApiKeyEntry where
  key : Str
  identity : Str
  role : Role
  deriving DecidableEq, Repr

abbrev KeyTable := List ApiKeyEntry

namespace KeyTable

def get (table : KeyTable) (key : Str) : Option ApiKeyEntry :=
  table.find? (·.key == key)

def remove (table : KeyTable) (key : Str) : KeyTable :=
  table.filter (·.key != key)

def insert (table : KeyTable) (entry : ApiKeyEntry) : KeyTable :=
  remove table entry.key ++ [entry]

theorem get_remove (table : KeyTable) (key key' : Str) :
    (table.remove key).get key' =
      if key = key' then none else table.get key' := by
  rw [get, remove, find?_filter]
  split
  · rename_i heq
    subst heq
    rw [find?_eq_none]
    intro entry _
    simp
  · rename_i hne
    refine congrArg (List.find? · table) (funext fun entry => ?_)
    by_cases hkey : entry.key = key'
    · simp [hkey, Ne.symm hne]
    · simp [hkey]

theorem get_insert (table : KeyTable) (entry : ApiKeyEntry) (key : Str) :
    (table.insert entry).get key =
      if entry.key = key then some entry else table.get key := by
  have happend : (table.insert entry).get key =
      ((table.remove entry.key).get key).or (KeyTable.get [entry] key) :=
    find?_append
  rw [happend, get_remove]
  split
  · next heq => simp [get, heq]
  · next hne => simp [get, hne]

end KeyTable

/-! ## The middleware -/

abbrev HeaderValue := Option Str

structure AuthRequest where
  path : Str
  xApiKey : Option HeaderValue := none
  authorization : Option HeaderValue := none

def isPublicPath (path : Str) : Bool :=
  path ∈ (["/api/fuse/health", "/metrics", "/", "/playground"] : List Str)

def extractApiKey (req : AuthRequest) : Option Str :=
  match req.xApiKey with
  | some value => value
  | none =>
    match req.authorization with
    | some (some text) => (Str.stripStart "Bearer " text).map Str.trim
    | _ => none

inductive AuthOutcome where
  | admitted (identity : Option AuthIdentity)
  | unauthorized (message : Str)
  deriving DecidableEq, Repr

def ApiKeyEntry.authIdentity (entry : ApiKeyEntry) : AuthIdentity :=
  ⟨entry.identity, entry.role⟩

def authMiddleware (auth : Option KeyTable) (req : AuthRequest) : AuthOutcome :=
  match auth with
  | none => .admitted none
  | some keys =>
    if keys.isEmpty then .admitted none
    else if isPublicPath req.path then .admitted none
    else
      match extractApiKey req with
      | none => .unauthorized "missing API key — set x-api-key header"
      | some key =>
        match keys.get key with
        | some entry => .admitted (some entry.authIdentity)
        | none => .unauthorized "invalid API key"

/-! ## The rotation manager -/

structure GracePeriodKey where
  entry : ApiKeyEntry
  expiresAt : Nat
  deriving DecidableEq, Repr

structure RotationState where
  active : KeyTable
  grace : List GracePeriodKey := []
  poisoned : Bool := false
  deriving DecidableEq, Repr

structure RotationResult where
  identity : Str
  newKey : Str
  gracePeriodSecs : Nat
  oldKeyExpiresAtUnix : Nat
  deriving DecidableEq, Repr

/-- A call of `rotate`, with the clocks it reads. -/
structure RotationCall where
  identity : Str
  graceSecs : UInt64
  now : Nat
  unixNanos : UInt64
  deriving DecidableEq, Repr

def hexWord (n : UInt64) : Str :=
  let digits := Nat.toDigits 16 n.toNat
  List.replicate (16 - digits.length) '0' ++ digits

def generateApiKey (unixNanos : UInt64) : Str :=
  ("fuse-" : Str) ++ hexWord unixNanos ++
    hexWord (unixNanos * 6364136223846793005 + 1442695040888963407)

def instantLimit : Nat := 2 ^ 63 * 10 ^ 9

namespace RotationCall

variable (call : RotationCall)

def newKey : Str := generateApiKey call.unixNanos

def expiresAt : Nat := call.now + call.graceSecs.toNat * 10 ^ 9

def result : RotationResult where
  identity := call.identity
  newKey := call.newKey
  gracePeriodSecs := call.graceSecs.toNat
  oldKeyExpiresAtUnix := call.unixNanos.toNat / 10 ^ 9 + call.graceSecs.toNat

end RotationCall

/-- What the search through the values of a map may give: the order of the
values is arbitrary. -/
def Found (active : KeyTable) (identity : Str) : Option ApiKeyEntry → Prop
  | some old => active.get old.key = some old ∧ old.identity = identity
  | none => ∀ entry ∈ active, entry.identity ≠ identity

namespace RotationState

variable (s : RotationState)

def rotate (found : Option ApiKeyEntry) (call : RotationCall) :
    Except Panic (Option RotationResult) × RotationState :=
  if s.poisoned then (.ok none, s)
  else
    match found with
    | none => (.ok none, s)
    | some old =>
      if instantLimit ≤ call.expiresAt then
        (.error .arithmeticOverflow, { s with poisoned := true })
      else
        (.ok (some call.result),
          { s with
            grace := s.grace ++ [⟨old, call.expiresAt⟩]
            active := (s.active.remove old.key).insert
              ⟨call.newKey, old.identity, old.role⟩ })

def prune (now : Nat) : RotationState :=
  { s with grace := s.grace.filter (now < ·.expiresAt) }

def lookup (key : Str) : Option ApiKeyEntry :=
  (s.active.get key).or ((s.grace.find? (·.entry.key == key)).map (·.entry))

def validate (now : Nat) (key : Str) : Option ApiKeyEntry × RotationState :=
  if s.poisoned then (none, s) else ((s.prune now).lookup key, s.prune now)

end RotationState

/-! ## Runs -/

/-- A rotation that took place: the entry it retired, the key it issued and the
end of the old key's time. -/
structure RotationRecord where
  old : ApiKeyEntry
  newKey : Str
  expiresAt : Nat
  deriving DecidableEq, Repr

namespace RotationRecord

variable (r : RotationRecord)

def issued : ApiKeyEntry := ⟨r.newKey, r.old.identity, r.old.role⟩

def grace : GracePeriodKey := ⟨r.old, r.expiresAt⟩

def Overflows : Prop := instantLimit ≤ r.expiresAt

instance : Decidable r.Overflows := inferInstanceAs (Decidable (_ ≤ _))

end RotationRecord

structure RotationRun where
  log : List RotationRecord
  clock : Nat
  manager : RotationState

def RotationRun.rotate (run : RotationRun) (found : Option ApiKeyEntry)
    (call : RotationCall) : RotationRun where
  log := if run.manager.poisoned then run.log
    else run.log ++ (found.map fun old =>
      ⟨old, call.newKey, call.expiresAt⟩ : Option RotationRecord).toList
  clock := call.now
  manager := (run.manager.rotate found call).2

def RotationRun.validate (run : RotationRun) (now : Nat) (key : Str) :
    RotationRun where
  log := run.log
  clock := now
  manager := (run.manager.validate now key).2

/-- Rotations and look-ups in any order, while time goes on.  A request does
not touch the manager. -/
inductive Rotations (keys : KeyTable) : RotationRun → Prop
  | start : Rotations keys ⟨[], 0, { active := keys }⟩
  | rotate {run : RotationRun} (h : Rotations keys run) {call : RotationCall}
      (htime : run.clock ≤ call.now) {found : Option ApiKeyEntry}
      (hfound : Found run.manager.active call.identity found) :
      Rotations keys (run.rotate found call)
  | validate {run : RotationRun} (h : Rotations keys run) {now : Nat}
    (htime : run.clock ≤ now)
      (key : Str) : Rotations keys (run.validate now key)

def holder (keys : KeyTable) (log : List RotationRecord) (key : Str) :
    Option ApiKeyEntry :=
  log.foldl (fun entry r =>
    if r.newKey = key then some r.issued
    else if r.old.key = key then none else entry) (keys.get key)

theorem holder_append (keys : KeyTable) (log : List RotationRecord)
    (r : RotationRecord) (key : Str) : holder keys (log ++ [r]) key =
      if r.newKey = key then some r.issued
      else if r.old.key = key then none else holder keys log key := by
  rw [holder, foldl_append]
  rfl

structure Recorded (keys : KeyTable) (run : RotationRun) : Prop where
  poisoned : run.manager.poisoned = run.log.any (fun r => decide r.Overflows)
  active : run.manager.poisoned = false →
    ∀ key, run.manager.active.get key = holder keys run.log key
  grace : run.manager.poisoned = false → ∀ now, run.clock ≤ now →
    run.manager.grace.filter (now < ·.expiresAt) =
      (run.log.map (·.grace)).filter (now < ·.expiresAt)
  retired : ∀ before r after, run.log = before ++ r :: after →
    holder keys before r.old.key = some r.old

namespace Recorded

variable {keys : KeyTable} {run : RotationRun}

theorem later (h : Recorded keys run) {now : Nat} (htime : run.clock ≤ now) :
    Recorded keys { run with clock := now } where
  poisoned := h.poisoned
  active := h.active
  grace hlock t ht := h.grace hlock t (Nat.le_trans htime ht)
  retired := h.retired

theorem validate (h : Recorded keys run) {now : Nat} (htime : run.clock ≤ now)
    (key : Str) : Recorded keys (run.validate now key) := by
  cases hlock : run.manager.poisoned with
  | true =>
    have hsame : run.validate now key = { run with clock := now } := by
      simp [RotationRun.validate, RotationState.validate, hlock]
    rw [hsame]
    exact h.later htime
  | false =>
    have hpruned : run.validate now key =
        ⟨run.log, now, run.manager.prune now⟩ := by
      simp [RotationRun.validate, RotationState.validate, hlock]
    rw [hpruned]
    refine ⟨h.poisoned, h.active, fun _ t ht => ?_, h.retired⟩
    have hlater := h.grace hlock t (Nat.le_trans htime ht)
    rw [← hlater]
    change (run.manager.grace.filter _).filter _ = _
    rw [filter_filter]
    refine filter_congr fun g _ => ?_
    by_cases hg : t < g.expiresAt
    · simp [hg, Nat.lt_of_le_of_lt ht hg]
    · simp [hg]

private theorem retired_append (h : Recorded keys run) {r : RotationRecord}
    (hold : holder keys run.log r.old.key = some r.old) :
    ∀ before r' after, run.log ++ [r] = before ++ r' :: after →
      holder keys before r'.old.key = some r'.old := by
  intro before r' after heq
  obtain ⟨rfl, rfl, -⟩ | ⟨after, hlog, -⟩ := concat_eq_split.mp heq
  · exact hold
  · exact h.retired before r' after hlog

theorem rotate (h : Recorded keys run) {call : RotationCall}
    (htime : run.clock ≤ call.now) {found : Option ApiKeyEntry}
    (hfound : Found run.manager.active call.identity found) :
    Recorded keys (run.rotate found call) := by
  by_cases hidle : run.manager.poisoned = true ∨ found = none
  · have hsame : run.rotate found call = { run with clock := call.now } := by
      rcases hidle with hlock | rfl
      · simp [RotationRun.rotate, RotationState.rotate, hlock]
      · simp [RotationRun.rotate, RotationState.rotate]
    rw [hsame]
    exact h.later htime
  rw [not_or, Bool.not_eq_true] at hidle
  obtain ⟨hlock, hsome⟩ := hidle
  obtain ⟨old, rfl⟩ := Option.ne_none_iff_exists'.mp hsome
  have hold : holder keys run.log old.key = some old := by
    rw [← h.active hlock]
    exact hfound.1
  have hretired :=
    h.retired_append (r := ⟨old, call.newKey, call.expiresAt⟩) hold
  have hlog : (run.rotate (some old) call).log =
      run.log ++ [⟨old, call.newKey, call.expiresAt⟩] := by
    simp [RotationRun.rotate, hlock]
  by_cases hover : instantLimit ≤ call.expiresAt
  · have hmanager : (run.rotate (some old) call).manager =
        { run.manager with poisoned := true } := by
      simp [RotationRun.rotate, RotationState.rotate, hlock, hover]
    refine ⟨?_, fun hopen => ?_, fun hopen => ?_, hlog ▸ hretired⟩
    · rw [hlog, hmanager, any_append]
      simp [RotationRecord.Overflows, hover]
    · simp [hmanager] at hopen
    · simp [hmanager] at hopen
  · have hmanager : (run.rotate (some old) call).manager =
        { run.manager with
          grace := run.manager.grace ++ [⟨old, call.expiresAt⟩]
          active := (run.manager.active.remove old.key).insert
            ⟨call.newKey, old.identity, old.role⟩ } := by
      simp [RotationRun.rotate, RotationState.rotate, hlock, hover]
    refine ⟨?_, fun _ key => ?_, fun _ t ht => ?_, hlog ▸ hretired⟩
    · rw [hlog, hmanager, any_append, ← h.poisoned]
      simp [RotationRecord.Overflows, hover]
    · rw [hlog, hmanager, holder_append]
      change KeyTable.get (KeyTable.insert _ _) key = _
      rw [KeyTable.get_insert, KeyTable.get_remove, h.active hlock]
      rfl
    · rw [hlog, hmanager]
      change List.filter _ (_ ++ _) = _
      rw [filter_append, map_append, filter_append,
        h.grace hlock t (Nat.le_trans htime ht)]
      rfl

end Recorded

variable {keys : KeyTable} {log : List RotationRecord} {key : Str}

theorem recorded_of_rotations {run : RotationRun} (h : Rotations keys run) :
    Recorded keys run := by
  induction h with
  | start =>
    refine ⟨rfl, fun _ _ => rfl, fun _ _ _ => rfl, fun before r after h => ?_⟩
    cases before <;> cases h
  | rotate _ htime hfound ih => exact ih.rotate htime hfound
  | validate _ htime key ih => exact ih.validate htime key

/-! ## What the rotations say about a key -/

def Retired (log : List RotationRecord) (key : Str) : Prop :=
  ∃ r ∈ log, r.old.key = key

def InGrace (log : List RotationRecord) (now : Nat) (key : Str) : Prop :=
  ∃ r ∈ log, r.old.key = key ∧ now < r.expiresAt

def Current (log : List RotationRecord) (key : Str) : Prop :=
  ∃ before r after, log = before ++ r :: after ∧ r.newKey = key ∧ ∀ r' ∈ after,
    r'.old.key ≠ key

def Representable (log : List RotationRecord) : Prop := ∀ r ∈ log, ¬r.Overflows

instance (log : List RotationRecord) : Decidable (Representable log) :=
  inferInstanceAs (Decidable (∀ r ∈ log, ¬r.Overflows))

theorem holder_initial {entry : ApiKeyEntry}
    (hentry : keys.get key = some entry) (hissued : ∀ r ∈ log, r.newKey ≠ key) :
    (Retired log key ∧ holder keys log key = none) ∨
      (¬Retired log key ∧ holder keys log key = some entry) := by
  induction log using List.reverseRecOn with
  | nil => exact .inr ⟨by simp [Retired], hentry⟩
  | append_singleton log r ih =>
    have hnew : r.newKey ≠ key := hissued r (by simp)
    rw [holder_append, if_neg hnew]
    by_cases hold : r.old.key = key
    · exact .inl ⟨⟨r, by simp, hold⟩, if_pos hold⟩
    rw [if_neg hold]
    have hretired : Retired (log ++ [r]) key ↔ Retired log key := by
      simp [Retired, or_and_right, exists_or, hold]
    rw [hretired]
    exact ih fun r' hr' => hissued r' (by simp [hr'])

theorem current_append {r : RotationRecord} : Current (log ++ [r]) key ↔
      r.newKey = key ∨ (r.old.key ≠ key ∧ Current log key) := by
  rw [and_comm]
  exact since_concat

theorem holder_issued (hnone : keys.get key = none) :
    holder keys log key = none ↔ ¬Current log key := by
  induction log using List.reverseRecOn with
  | nil => simp [holder, hnone, Current]
  | append_singleton log r ih =>
    rw [holder_append, current_append]
    by_cases hnew : r.newKey = key
    · simp [hnew]
    · by_cases hold : r.old.key = key
      · simp [hnew, hold]
      · simp [hnew, hold, ih]

theorem holder_isSome (key : Str) : (holder keys log key).isSome = true ↔
    Current log key ∨ (keys.get key).isSome = true ∧ ¬Retired log key := by
  induction log using List.reverseRecOn with
  | nil => simp [holder, Current, Retired]
  | append_singleton log r ih =>
    have hretired : Retired (log ++ [r]) key ↔ Retired log key ∨
        r.old.key = key := by
      simp [Retired, or_and_right, exists_or]
    rw [holder_append, current_append, hretired]
    by_cases hnew : r.newKey = key
    · simp [hnew]
    · by_cases hold : r.old.key = key <;> simp [hnew, hold, ih]

section Agreement

variable {keys : KeyTable} {run : RotationRun} {now : Nat} {key : Str}

def graceEntry (log : List RotationRecord) (now : Nat) (key : Str) :
    Option ApiKeyEntry :=
  (((log.map (·.grace)).filter (now < ·.expiresAt)).find?
    (·.entry.key == key)).map (·.entry)

variable {log : List RotationRecord} {entry : ApiKeyEntry}

theorem graceEntry_none :
    graceEntry log now key = none ↔ ¬InGrace log now key := by
  simp only [graceEntry, Option.map_eq_none_iff, find?_eq_none,
    mem_filter, mem_map, InGrace, not_exists, not_and]
  constructor
  · intro h r hr hkey htime
    exact h r.grace ⟨⟨r, hr, rfl⟩, decide_eq_true htime⟩ (beq_iff_eq.mpr hkey)
  · rintro h g ⟨⟨r, hr, rfl⟩, htime⟩ hkey
    exact h r hr (beq_iff_eq.mp hkey) (of_decide_eq_true htime)

theorem graceEntry_some (h : graceEntry log now key = some entry) :
    ∃ r ∈ log, r.old.key = key ∧ r.old = entry := by
  obtain ⟨g, hg, rfl⟩ := Option.map_eq_some_iff.mp h
  have hkey := find?_some hg
  obtain ⟨r, hr, rfl⟩ := mem_map.mp (mem_filter.mp (mem_of_find?_eq_some hg)).1
  exact ⟨r, hr, beq_iff_eq.mp hkey, rfl⟩

theorem Recorded.validate_eq (h : Recorded keys run) (htime : run.clock ≤ now)
    (key : Str) : (run.manager.validate now key).1 =
      if Representable run.log then
        (holder keys run.log key).or (graceEntry run.log now key)
      else none := by
  have hlock : Representable run.log ↔ run.manager.poisoned = false := by
    rw [h.poisoned]
    simp [Representable]
  unfold RotationState.validate
  split
  · next hpoisoned =>
      rw [if_neg fun hrep => by simp [hlock.mp hrep] at hpoisoned]
  rename_i hopen
  have hfalse : run.manager.poisoned = false := by simpa using hopen
  rw [if_pos (hlock.mpr hfalse)]
  change (run.manager.active.get key).or _ = _
  rw [h.active hfalse, graceEntry, ← h.grace hfalse now htime]
  rfl

/-- A key is good if it was handed out and not retired since, if it is one of
the first keys and was never retired, or for the time a rotation left it. -/
theorem key_accepted_iff (h : Rotations keys run) (htime : run.clock ≤ now)
    (key : Str) :
    (run.manager.validate now key).1.isSome = true ↔ Representable run.log ∧
      ((Current run.log key ∨ (keys.get key).isSome = true ∧
        ¬Retired run.log key) ∨ InGrace run.log now key) := by
  have hgrace : (graceEntry run.log now key).isSome = true ↔
      InGrace run.log now key := by
    rw [Option.isSome_iff_ne_none, ne_eq, graceEntry_none, not_not]
  rw [(recorded_of_rotations h).validate_eq htime]
  by_cases hrep : Representable run.log
  · simp [hrep, holder_isSome, hgrace]
  · simp [hrep]

/-- When the two tables say the same about a key: one of the server's own keys
is not retired or still in its time, another key is not good any more. -/
def Consistent (keys : KeyTable) (log : List RotationRecord) (now : Nat)
    (key : Str) : Prop :=
  if (keys.get key).isSome then
    Representable log ∧ (Retired log key → InGrace log now key)
  else Representable log → ¬Current log key ∧ ¬InGrace log now key

def AuthOutcome.admittedAs : AuthOutcome → Option (Option AuthIdentity)
  | .admitted identity => some identity
  | .unauthorized _ => none

def AgreesWithManager (keys : KeyTable) (manager : RotationState) (now : Nat)
    (req : AuthRequest) : Prop :=
  (authMiddleware (some keys) req).admittedAs =
    ((extractApiKey req).bind fun key => (manager.validate now key).1).map
      fun entry => some entry.authIdentity

theorem consistent_of_initial (h : Recorded keys run) (htime : run.clock ≤ now)
    (hentry : keys.get key = some entry) (hfresh : ∀ r ∈ run.log,
      r.newKey ≠ key) :
    (run.manager.validate now key).1.map ApiKeyEntry.authIdentity =
      some entry.authIdentity ↔ Representable run.log ∧
      (Retired run.log key → InGrace run.log now key) := by
  rw [h.validate_eq htime]
  by_cases hrep : Representable run.log
  swap
  · simp [hrep]
  rw [if_pos hrep, and_iff_right hrep]
  rcases holder_initial hentry hfresh with ⟨hretired, hnone⟩ | ⟨hkept, hsome⟩
  swap
  · simp [hsome, hkept]
  rw [hnone, Option.none_or]
  cases hgrace : graceEntry run.log now key with
  | none => simp [hretired, graceEntry_none.mp hgrace]
  | some old =>
    have hingrace : InGrace run.log now key := by
      by_contra hover
      rw [graceEntry_none.mpr hover] at hgrace
      cases hgrace
    -- What was retired under the key is the entry the server began with.
    obtain ⟨r, hr, hkey, rfl⟩ := graceEntry_some hgrace
    obtain ⟨before, after, hlog⟩ := append_of_mem hr
    have hold := h.retired before r after hlog
    have hbefore : ∀ r' ∈ before, r'.newKey ≠ key :=
      fun r' hr' => hfresh r' (by rw [hlog]; simp [hr'])
    rw [hkey] at hold
    rcases holder_initial hentry hbefore with ⟨-, hnone⟩ | ⟨-, hsome⟩
    · rw [hnone] at hold
      cases hold
    · rw [hsome] at hold
      cases hold
      simp [hingrace]

theorem consistent_of_other (h : Recorded keys run) (htime : run.clock ≤ now)
    (hnone : keys.get key = none) :
    (run.manager.validate now key).1 = none ↔ (Representable run.log →
        ¬Current run.log key ∧ ¬InGrace run.log now key) := by
  rw [h.validate_eq htime]
  split
  · rename_i hrep
    rw [Option.or_eq_none_iff, holder_issued hnone, graceEntry_none]
    simp [hrep]
  · next hrep => simp [hrep]

/-- At every moment of every run the middleware and the manager treat a request
alike exactly if the server has keys and the rotations so far make no difference
to the key of the request. -/
theorem middleware_agrees_iff (h : Rotations keys run) (htime : run.clock ≤ now)
    (hfresh : ∀ r ∈ run.log, keys.get r.newKey = none) {req : AuthRequest}
    (hpath : isPublicPath req.path = false) :
    AgreesWithManager keys run.manager now req ↔ keys ≠ [] ∧
        ∀ key ∈ extractApiKey req, Consistent keys run.log now key := by
  have hrec := recorded_of_rotations h
  unfold AgreesWithManager
  cases hkeys : keys with
  | nil =>
    refine iff_of_false (fun heq => ?_) (fun hne => hne.1 rfl)
    have hpass : (authMiddleware (some []) req).admittedAs = some none := rfl
    rw [hpass] at heq
    obtain ⟨entry, -, hentry⟩ := Option.map_eq_some_iff.mp heq.symm
    cases hentry
  | cons first rest =>
    rw [← hkeys, and_iff_right (by rw [hkeys]; exact cons_ne_nil _ _)]
    have henabled : keys.isEmpty = false := by rw [hkeys]; rfl
    cases hkey : extractApiKey req with
    | none =>
      have hreject : (authMiddleware (some keys) req).admittedAs = none := by
        simp [authMiddleware, henabled, hpath, hkey, AuthOutcome.admittedAs]
      simp [hreject]
    | some key =>
      cases hget : keys.get key with
      | none =>
        have hreject : (authMiddleware (some keys) req).admittedAs = none := by
          simp [authMiddleware, henabled, hpath, hkey, hget,
            AuthOutcome.admittedAs]
        have hother := consistent_of_other hrec htime hget
        rw [hreject, Option.bind_some, eq_comm, Option.map_eq_none_iff, hother]
        simp [Consistent, hget]
      | some entry =>
        have hadmitted : (authMiddleware (some keys) req).admittedAs =
            some (some entry.authIdentity) := by
          simp [authMiddleware, henabled, hpath, hkey, hget,
            AuthOutcome.admittedAs]
        have hissued : ∀ r ∈ run.log, r.newKey ≠ key := by
          rintro r hr rfl
          rw [hfresh r hr] at hget
          cases hget
        have hinitial := consistent_of_initial hrec htime hget hissued
        have hsame : some (some entry.authIdentity) =
          (run.manager.validate now key).1.map
              (fun entry => some entry.authIdentity) ↔
            (run.manager.validate now key).1.map
              ApiKeyEntry.authIdentity = some entry.authIdentity := by
          cases (run.manager.validate now key).1 with
          | none => simp
          | some found => simp [eq_comm]
        rw [hadmitted, Option.bind_some, hsame, hinitial]
        simp [Consistent, hget]

end Agreement

def aliceEntry : ApiKeyEntry := ⟨"key-alice", "alice", .admin⟩

def askAs (key : Str) : AuthRequest where
  path := "/api/fuse/query"
  xApiKey := some (some key)

def rotateAlice : RotationCall := ⟨"alice", 10, 0, 1⟩

def aliceRotated : RotationRun :=
  RotationRun.rotate ⟨[], 0, { active := [aliceEntry] }⟩
    (some aliceEntry) rotateAlice

theorem rotations_aliceRotated : Rotations [aliceEntry] aliceRotated :=
  Rotations.start.rotate (Nat.zero_le _) ⟨rfl, rfl⟩

theorem old_key_accepted :
    (aliceRotated.manager.validate 20 "key-alice").1.isSome = true :=
  (key_accepted_iff rotations_aliceRotated (by decide) _).mpr
    ⟨by decide, .inr ⟨_, mem_singleton_self _, rfl, by decide⟩⟩

/-- Eleven seconds later the old key is still admitted, and the new one still
is not. -/
theorem rotation_without_effect : Rotations [aliceEntry] aliceRotated ∧
    authMiddleware (some [aliceEntry]) (askAs "key-alice") =
        .admitted (some aliceEntry.authIdentity) ∧
    (aliceRotated.manager.validate 11000000000 "key-alice").1 = none ∧
    authMiddleware (some [aliceEntry]) (askAs rotateAlice.newKey) =
        .unauthorized "invalid API key" ∧
    (aliceRotated.manager.validate 11000000000 rotateAlice.newKey).1.map
        ApiKeyEntry.authIdentity = some aliceEntry.authIdentity := by
  refine ⟨rotations_aliceRotated, ?_⟩
  decide +kernel

theorem old_key_in_grace_agrees :
    AgreesWithManager [aliceEntry] aliceRotated.manager 5000000000
    (askAs "key-alice") := by
  refine (middleware_agrees_iff rotations_aliceRotated (by decide)
    (by decide +kernel) (by decide)).mpr ⟨by decide, ?_⟩
  intro key hkey
  cases hkey
  have hgrace : InGrace aliceRotated.log 5000000000 "key-alice" :=
    ⟨_, mem_singleton_self _, rfl, by decide⟩
  exact ⟨by decide, fun _ => hgrace⟩

end Fuse.Server
