import Fuse.Server.ChangeCapture
import Fuse.Server.Handler

/-!
# Histories of calls

Two stores of the server behind locks: the tracker of changes (`cdc.rs`) and
the buffers of transactions (`transaction.rs`).  Of each it is said what a call
returns in terms of the calls before it.
-/

namespace Fuse.Server

open Foundation Fuse.Core Engine List

/-! ## The tracker of changes -/

inductive CdcCall where
  | registerView (name : Str) (sources : Finset (Str × Str))
  | unregisterView (name : Str)
  | recordChange (event : ChangeEvent)
  | takePending

namespace CdcTracker

def unregisterView (viewName : Str) (tracker : CdcTracker) : CdcTracker :=
  { tracker with
    dependencies := tracker.dependencies.erase viewName
    pendingRefresh := tracker.pendingRefresh.erase viewName }

def after : CdcCall → CdcTracker → CdcTracker
  | .registerView name sources, tracker => tracker.registerView name sources
  | .unregisterView name, tracker => tracker.unregisterView name
  | .recordChange event, tracker => (tracker.recordChange event).2
  | .takePending, tracker => tracker.takePending.2

end CdcTracker

def trackerAfter (maxEvents : Nat) (calls : List CdcCall) : CdcTracker :=
  runSteps CdcTracker.after { maxEvents } calls

def CdcCall.Concerns (name : Str) : CdcCall → Prop
  | .registerView name' _ => name' = name
  | .unregisterView name' => name' = name
  | _ => False

def CdcCall.Clears (name : Str) : CdcCall → Prop
  | .unregisterView name' => name' = name
  | .takePending => True
  | _ => False

def RegisteredAs (calls : List CdcCall) (name : Str)
    (sources : Finset (Str × Str)) : Prop :=
  Since (fun _ call => call = .registerView name sources)
    (¬ CdcCall.Concerns name ·) calls

def Depends (calls : List CdcCall) (name : Str) (event : ChangeEvent) : Prop :=
  ∃ sources, RegisteredAs calls name sources ∧
    (event.datasource, event.table) ∈ sources

def HitSince (calls : List CdcCall) (name : Str) : Prop :=
  Since (fun before call => ∃ event, call = .recordChange event ∧
    Depends before name event) (¬ CdcCall.Clears name ·) calls

def CdcCall.event? : CdcCall → Option ChangeEvent
  | .recordChange event => some event
  | _ => none

structure CdcExact (maxEvents : Nat) (calls : List CdcCall)
    (tracker : CdcTracker) : Prop where
  affected : ∀ event, (tracker.recordChange event).1.Nodup ∧
    ∀ name, name ∈ (tracker.recordChange event).1 ↔ Depends calls name event
  pending : ∀ name, name ∈ tracker.pendingRefresh ↔ HitSince calls name
  registered : ∀ name ∈ tracker.pendingRefresh, ∃ sources,
    RegisteredAs calls name sources
  taken : tracker.takePending.1 = tracker.pendingRefresh ∧
    tracker.takePending.2.pendingRefresh = ∅
  events : tracker.events = (calls.filterMap CdcCall.event?).drop
    ((calls.filterMap CdcCall.event?).length - maxEvents)

section Tracker

variable {maxEvents : Nat} {calls : List CdcCall}

theorem trackerAfter_concat (call : CdcCall) :
    trackerAfter maxEvents (calls ++ [call]) =
      (trackerAfter maxEvents calls).after call :=
  runSteps_append _ _ _

theorem lookup_trackerAfter (name : Str) (sources : Finset (Str × Str)) :
    (trackerAfter maxEvents calls).dependencies.lookup name = some sources ↔
      RegisteredAs calls name sources := by
  induction calls using List.reverseRecOn with
  | nil => exact iff_of_false (by simp [trackerAfter, runSteps]) not_since_nil
  | append_singleton calls call ih =>
    rw [RegisteredAs, since_concat, trackerAfter_concat, ← RegisteredAs, ← ih]
    cases call with
    | registerView name' sources' =>
      by_cases hname : name' = name
      · subst hname
        simp [CdcTracker.after, CdcTracker.registerView, CdcCall.Concerns]
      · simp [CdcTracker.after, CdcTracker.registerView, CdcCall.Concerns,
          hname, AList.lookup_insert_ne (Ne.symm hname)]
    | unregisterView name' =>
      by_cases hname : name' = name
      · subst hname
        simp [CdcTracker.after, CdcTracker.unregisterView, CdcCall.Concerns]
      · simp [CdcTracker.after, CdcTracker.unregisterView, CdcCall.Concerns,
          hname, AList.lookup_erase_ne (Ne.symm hname)]
    | recordChange event =>
      simp [CdcTracker.after, CdcTracker.recordChange, CdcCall.Concerns]
    | takePending =>
      simp [CdcTracker.after, CdcTracker.takePending, CdcCall.Concerns]

theorem mem_recordChange (event : ChangeEvent) (name : Str) :
    name ∈ ((trackerAfter maxEvents calls).recordChange event).1 ↔
    Depends calls name event := by
  refine CdcTracker.mem_affected.trans (exists_congr fun sources => ?_)
  rw [lookup_trackerAfter]

theorem pending_trackerAfter (name : Str) :
    name ∈ (trackerAfter maxEvents calls).pendingRefresh ↔
    HitSince calls name := by
  induction calls using List.reverseRecOn with
  | nil => exact iff_of_false (by simp [trackerAfter, runSteps]) not_since_nil
  | append_singleton calls call ih =>
    rw [HitSince, since_concat, trackerAfter_concat, ← HitSince, ← ih]
    cases call with
    | registerView name' sources =>
      simp [CdcTracker.after, CdcTracker.registerView, CdcCall.Clears]
    | unregisterView name' =>
      simp [CdcTracker.after, CdcTracker.unregisterView, CdcCall.Clears,
        and_comm, eq_comm]
    | recordChange event =>
      have hhit : name ∈ (trackerAfter maxEvents calls).affected
          (event.datasource, event.table) ↔ Depends calls name event :=
        mem_recordChange event name
      simp [CdcTracker.after, CdcTracker.recordChange, CdcCall.Clears, hhit,
        or_comm]
    | takePending =>
      simp [CdcTracker.after, CdcTracker.takePending, CdcCall.Clears]

theorem HitSince.registered {name : Str} (h : HitSince calls name) :
    ∃ sources, RegisteredAs calls name sources := by
  induction calls using List.reverseRecOn with
  | nil => exact absurd h not_since_nil
  | append_singleton calls call ih =>
    have hkept : (∃ sources, RegisteredAs calls name sources) →
        ¬ CdcCall.Clears name call →
          ∃ sources, RegisteredAs (calls ++ [call]) name sources := by
      rintro ⟨sources, hregistered⟩ hcall
      cases call with
      | registerView name' sources' =>
        by_cases hname : name' = name
        · exact ⟨sources', since_concat.mpr (.inl (hname ▸ rfl))⟩
        · exact ⟨sources, since_concat.mpr (.inr ⟨hregistered, hname⟩)⟩
      | unregisterView name' =>
        exact ⟨sources, since_concat.mpr (.inr ⟨hregistered, hcall⟩)⟩
      | recordChange event =>
        exact ⟨sources, since_concat.mpr (.inr ⟨hregistered, id⟩)⟩
      | takePending => exact absurd trivial hcall
    rcases since_concat.mp h with ⟨event, rfl, sources, hsources, -⟩
      | ⟨hhit, hcall⟩
    · exact hkept ⟨sources, hsources⟩ id
    · exact hkept (ih hhit) hcall

private theorem events_trackerAfter :
    (trackerAfter maxEvents calls).maxEvents = maxEvents ∧
      (trackerAfter maxEvents calls).events =
        (calls.filterMap CdcCall.event?).drop
          ((calls.filterMap CdcCall.event?).length - maxEvents) := by
  induction calls using List.reverseRecOn with
  | nil => simp [trackerAfter, runSteps]
  | append_singleton calls call ih =>
    obtain ⟨hmax, hevents⟩ := ih
    rw [trackerAfter_concat, filterMap_append]
    cases call with
    | recordChange event =>
      refine ⟨hmax, ?_⟩
      rw [show [CdcCall.recordChange event].filterMap CdcCall.event? = [event]
        from rfl]
      simp only [CdcTracker.after, CdcTracker.recordChange, hmax, hevents]
      rw [← drop_append_of_le_length (by omega), drop_drop]
      congr 1
      simp only [length_drop, length_append, length_singleton]
      omega
    | _ =>
      refine ⟨hmax, ?_⟩
      rw [filterMap_cons_none rfl, filterMap_nil, append_nil]
      exact hevents

/-- The tracker is exact, over every sequence of calls. -/
theorem cdcTracker_exact (maxEvents : Nat) (calls : List CdcCall) :
    CdcExact maxEvents calls (trackerAfter maxEvents calls) where
  affected event := by
    refine ⟨?_, fun name => mem_recordChange event name⟩
    exact List.NodupKeys.sublist filter_sublist
      (trackerAfter maxEvents calls).dependencies.nodupKeys
  pending := pending_trackerAfter
  registered name hname := ((pending_trackerAfter name).mp hname).registered
  taken := ⟨rfl, rfl⟩
  events := events_trackerAfter.2

end Tracker

/-! ## The buffers of transactions -/

abbrev TransactionStore (ω : Type) := List (Str × List ω)

namespace TransactionStore

variable {ω : Type}

def begin (id : Str) (store : TransactionStore ω) : Bool × TransactionStore ω :=
  if (store.lookup id).isSome || maxActiveTransactions ≤ store.length then
    (false, store)
  else (true, bindKey id [] store)

def addWrite (id : Str) (write : ω) (store : TransactionStore ω) :
    Bool × TransactionStore ω :=
  match store.lookup id with
  | some writes => (true, bindKey id (writes ++ [write]) store)
  | none => (false, store)

def remove (id : Str) (store : TransactionStore ω) : TransactionStore ω :=
  store.filter (·.1 ≠ id)

def take (id : Str) (store : TransactionStore ω) :
    Option (List ω) × TransactionStore ω :=
  (store.lookup id, store.remove id)

def rollback (id : Str) (store : TransactionStore ω) :
    Bool × TransactionStore ω :=
  ((store.lookup id).isSome, store.remove id)

end TransactionStore

inductive TransactionCall (ω : Type) where
  | begin (id : Str)
  | addWrite (id : Str) (write : ω)
  | take (id : Str)
  | rollback (id : Str)

section Transactions

variable {ω : Type}

def TransactionStore.after :
    TransactionCall ω → TransactionStore ω → TransactionStore ω
  | .begin id, store => (store.begin id).2
  | .addWrite id write, store => (store.addWrite id write).2
  | .take id, store => (store.take id).2
  | .rollback id, store => (store.rollback id).2

def storeAfter (calls : List (TransactionCall ω)) : TransactionStore ω :=
  runSteps TransactionStore.after [] calls

def TransactionCall.Ends (id : Str) : TransactionCall ω → Prop
  | .take id' => id' = id
  | .rollback id' => id' = id
  | _ => False

def acceptedWrites (id : Str) :
    TransactionStore ω → List (TransactionCall ω) → List ω
  | _, [] => []
  | store, call :: calls =>
    (match call with
      | .addWrite id' write =>
        if id' = id ∧ (store.addWrite id write).1 = true then [write] else []
      | _ => []) ++ acceptedWrites id (store.after call) calls

structure WritesConserved (calls : List (TransactionCall ω)) : Prop where
  taken : ∀ id before rest, calls = before ++ rest →
    (before = [] ∨ ∃ front call, before = front ++ [call] ∧ call.Ends id) →
    (∀ call ∈ rest, ¬ call.Ends id) →
    (((storeAfter calls).take id).1).getD [] =
      acceptedWrites id (storeAfter before) rest
  once : ∀ id write before rest, calls = before ++ .addWrite id write :: rest →
    ((storeAfter before).addWrite id write).1 = true →
    (∀ call ∈ rest, ¬ call.Ends id) →
    ((storeAfter calls).take id).1 = some
    (((storeAfter before).lookup id).getD [] ++ write ::
        acceptedWrites id (storeAfter (before ++ [.addWrite id write])) rest)
  ended : ∀ id before call, calls = before ++ [call] → call.Ends id →
    ((storeAfter calls).take id).1 = none
  begun : ∀ id, ((storeAfter calls).begin id).1 = true →
    ((((storeAfter calls).begin id).2).take id).1 = some []
  active : (storeAfter calls).length ≤ 100

variable {store : TransactionStore ω} {id : Str}

theorem storeAfter_append (before rest : List (TransactionCall ω)) :
    storeAfter (before ++ rest) = runSteps TransactionStore.after
    (storeAfter before) rest :=
  runSteps_append _ _ _

theorem lookup_remove (id id' : Str) (store : TransactionStore ω) :
    (store.remove id').lookup id = if id = id' then none
    else store.lookup id := by
  unfold TransactionStore.remove
  induction store with
  | nil => simp
  | cons entry store ih =>
    obtain ⟨key, writes⟩ := entry
    by_cases hkey : key = id'
    · rw [filter_cons_of_neg (by simpa using hkey), ih, lookup_cons, hkey]
      by_cases hid : id = id'
      · rw [if_pos hid, if_pos hid]
      · rw [beq_eq_false_iff_ne.mpr hid]
    · rw [filter_cons_of_pos (by simpa using hkey), lookup_cons,
        lookup_cons, ih]
      cases hid : id == key with
      | false => rfl
      | true => exact (if_neg (beq_iff_eq.mp hid ▸ hkey)).symm

theorem lookup_bindKey (id id' : Str) (writes : List ω)
    (store : TransactionStore ω) :
    (bindKey id' writes store).lookup id =
      if id = id' then some writes else store.lookup id := by
  change ((id', writes) :: store.remove id').lookup id = _
  rw [lookup_cons, lookup_remove]
  by_cases hid : id = id'
  · rw [if_pos hid, beq_iff_eq.mpr hid, if_pos hid]
  · rw [if_neg hid, if_neg hid, beq_eq_false_iff_ne.mpr hid]

theorem addWrite_fst (id : Str) (write : ω) (store : TransactionStore ω) :
    (store.addWrite id write).1 = (store.lookup id).isSome := by
  unfold TransactionStore.addWrite
  split <;> simp [*]

theorem lookup_addWrite (id id' : Str) (write : ω)
    (store : TransactionStore ω) :
    (store.addWrite id' write).2.lookup id =
      if id = id' then (store.lookup id).map (· ++ [write])
      else store.lookup id := by
  unfold TransactionStore.addWrite
  split
  · rename_i hlookup
    rw [lookup_bindKey]
    split
    · next hid => rw [hid, hlookup, Option.map_some]
    · rfl
  · rename_i hlookup
    split
    · next hid => rw [hid, hlookup, Option.map_none]
    · rfl

theorem lookup_after_ends {call : TransactionCall ω} (h : call.Ends id) :
    (store.after call).lookup id = none := by
  cases call with
  | take id' =>
    obtain rfl : id' = id := h
    simp [TransactionStore.after, TransactionStore.take, lookup_remove]
  | rollback id' =>
    obtain rfl : id' = id := h
    simp [TransactionStore.after, TransactionStore.rollback, lookup_remove]
  | _ => exact h.elim

private theorem lookup_after {call : TransactionCall ω} (h : ¬ call.Ends id) :
    ((store.lookup id).isSome = true →
      ((store.after call).lookup id).isSome = true) ∧
      ((store.after call).lookup id).getD [] =
        (store.lookup id).getD [] ++ acceptedWrites id store [call] := by
  cases call with
  | begin id' =>
    simp only [TransactionStore.after, TransactionStore.begin, acceptedWrites,
      append_nil]
    split
    · exact ⟨fun hactive => hactive, rfl⟩
    rename_i hnew
    rw [Bool.or_eq_true, not_or] at hnew
    rw [lookup_bindKey]
    split
    · rename_i hid
      rw [hid, Option.not_isSome_iff_eq_none.mp hnew.1]
      exact ⟨fun _ => rfl, rfl⟩
    · exact ⟨fun hactive => hactive, rfl⟩
  | addWrite id' write =>
    simp only [TransactionStore.after, acceptedWrites, append_nil, addWrite_fst,
      lookup_addWrite]
    by_cases hid : id = id'
    · subst hid
      cases store.lookup id <;> simp
    · rw [if_neg hid, if_neg fun hboth => hid hboth.1.symm, append_nil]
      exact ⟨fun hactive => hactive, rfl⟩
  | take id' =>
    rw [show store.after (.take id') = store.remove id' from rfl, lookup_remove,
      if_neg fun heq => h heq.symm]
    exact ⟨fun hactive => hactive, (append_nil _).symm⟩
  | rollback id' =>
    rw [show store.after (.rollback id') = store.remove id' from rfl,
      lookup_remove, if_neg fun heq => h heq.symm]
    exact ⟨fun hactive => hactive, (append_nil _).symm⟩

theorem lookup_run {rest : List (TransactionCall ω)}
    (h : ∀ call ∈ rest, ¬ call.Ends id)
    (store : TransactionStore ω) : ((store.lookup id).isSome = true →
        ((runSteps TransactionStore.after store rest).lookup id).isSome =
          true) ∧
      ((runSteps TransactionStore.after store rest).lookup id).getD [] =
        (store.lookup id).getD [] ++ acceptedWrites id store rest := by
  induction rest generalizing store with
  | nil => simp [runSteps, acceptedWrites]
  | cons call rest ih =>
    have hcall := h call mem_cons_self
    obtain ⟨hsome, hgrows⟩ : _ ∧ ((store.after call).lookup id).getD [] = _ :=
      lookup_after hcall
    obtain ⟨hsome', hgrows'⟩ :=
      ih (fun c hc => h c (mem_cons_of_mem call hc)) (store.after call)
    refine ⟨fun hactive => hsome' (hsome hactive), hgrows'.trans ?_⟩
    rw [hgrows, append_assoc]
    simp [acceptedWrites]

theorem length_after (h : store.length ≤ maxActiveTransactions)
    (call : TransactionCall ω) : (store.after call).length ≤
    maxActiveTransactions := by
  have hremoved : ∀ id, (store.remove id).length ≤ store.length := fun id =>
    length_filter_le _ _
  cases call with
  | begin id =>
    simp only [TransactionStore.after, TransactionStore.begin]
    split
    · exact h
    · rename_i hroom
      rw [Bool.or_eq_true, not_or, decide_eq_true_eq] at hroom
      exact Nat.lt_of_le_of_lt (hremoved id) (Nat.not_le.mp hroom.2)
  | addWrite id write =>
    simp only [TransactionStore.after, TransactionStore.addWrite]
    cases hlookup : store.lookup id with
    | none => exact h
    | some writes =>
      have hmem : ∃ entry ∈ store, ¬ (decide (entry.1 ≠ id) = true) := by
        obtain ⟨front, back, hstore, -⟩ := lookup_eq_some_iff.mp hlookup
        exact ⟨(id, writes), by simp [hstore], by simp⟩
      have := length_filter_lt_length_iff_exists.mpr hmem
      exact Nat.le_trans this h
  | take id | rollback id => exact (hremoved id).trans h

/-- Every accepted write goes to the next commit of its transaction and nowhere
else, over every sequence of calls. -/
theorem transactionStore_conserves (calls : List (TransactionCall ω)) :
    WritesConserved calls where
  taken id before rest hcalls hended hrest := by
    subst hcalls
    have hnone : (storeAfter before).lookup id = none := by
      rcases hended with rfl | ⟨front, call, rfl, hcall⟩
      · rfl
      · rw [storeAfter_append]
        exact lookup_after_ends hcall
    have hrun := (lookup_run hrest (storeAfter before)).2
    rw [hnone] at hrun
    rw [storeAfter_append]
    exact hrun
  once id write before rest hcalls haccepted hrest := by
    subst hcalls
    have hrun :=
      lookup_run hrest ((storeAfter before).after (.addWrite id write))
    have hstore : ((storeAfter before).after (.addWrite id write)).lookup id =
        some (((storeAfter before).lookup id).getD [] ++ [write]) := by
      rw [addWrite_fst, Option.isSome_iff_exists] at haccepted
      obtain ⟨writes, hwrites⟩ := haccepted
      rw [TransactionStore.after, lookup_addWrite, if_pos rfl, hwrites]
      rfl
    rw [hstore] at hrun
    obtain ⟨taken, htaken⟩ := Option.isSome_iff_exists.mp (hrun.1 rfl)
    rw [TransactionStore.take, storeAfter_append]
    refine htaken.trans (congrArg some ?_)
    have hgrows := hrun.2
    rw [htaken, Option.getD_some, Option.getD_some, append_assoc] at hgrows
    rw [storeAfter_append]
    exact hgrows
  ended id before call hcalls hcall := by
    subst hcalls
    rw [storeAfter_append]
    exact lookup_after_ends hcall
  begun id hbegun := by
    unfold TransactionStore.begin at hbegun ⊢
    split at hbegun
    · cases hbegun
    · rename_i hnew
      rw [if_neg hnew]
      simp [TransactionStore.take, lookup_bindKey]
  active := runSteps_inv (I := fun store : TransactionStore ω =>
    store.length ≤ maxActiveTransactions) (fun call _ _ h =>
    length_after h call)
    (Nat.zero_le _)

end Transactions

end Fuse.Server
