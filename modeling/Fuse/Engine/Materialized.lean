import Fuse.Core.Arrow
import Mathlib.Data.List.AList

/-!
# Materialized views

The views of `fuse-engine/src/materialized.rs` and their registry.  Instants
and durations are counted in units of the monotonic clock.  A view is shared
by reference: an entry of the registry carries the number of its cell, so that
a holder of a replaced view can be told from a holder of the current one.
-/

namespace Fuse.Engine

open Foundation Fuse.Core

theorem lookup_of_insert {κ α : Type} [DecidableEq κ] {l : AList fun _ : κ => α}
    {key other : κ} {x y : α} (h : (l.insert key x).lookup other = some y) :
    other = key ∧ y = x ∨ other ≠ key ∧ l.lookup other = some y := by
  by_cases hkey : other = key
  · subst hkey
    rw [AList.lookup_insert] at h
    exact .inl ⟨rfl, (Option.some.inj h).symm⟩
  · rw [AList.lookup_insert_ne hkey] at h
    exact .inr ⟨hkey, h⟩

theorem lookup_of_erase {κ α : Type} [DecidableEq κ] {l : AList fun _ : κ => α}
    {key other : κ} {y : α} (h : (l.erase key).lookup other = some y) :
    other ≠ key ∧ l.lookup other = some y := by
  by_cases hkey : other = key
  · rw [hkey, AList.lookup_erase] at h
    cases h
  · exact ⟨hkey, (AList.lookup_erase_ne hkey).symm.trans h⟩

inductive RefreshMode where
  | full
  | incremental (watermarkColumn : Str)
  deriving DecidableEq, Repr

structure MaterializedViewDef where
  name : Str
  query : Str
  refreshInterval : Nat
  refreshMode : RefreshMode := .full
  deriving DecidableEq, Repr

structure RefreshStats where
  fullRefreshes : Nat := 0
  incrementalRefreshes : Nat := 0
  totalRows : Nat := 0
  lastAppendedRows : Nat := 0
  deriving DecidableEq, Repr

structure MaterializedView (V : Type) where
  definition : MaterializedViewDef
  batches : List (RecordBatch V) := []
  lastRefresh : Option Nat := none
  error : Option Str := none
  watermark : Option Str := none
  stats : RefreshStats := {}

namespace MaterializedView

variable {V : Type}

def needsRefresh (now : Nat) (view : MaterializedView V) : Bool :=
  match view.lastRefresh with
  | none => true
  | some t => view.definition.refreshInterval < now - t

def countRows (batches : List (RecordBatch V)) : Nat :=
  (batches.map RecordBatch.numRows).sum

def setResults (now : Nat) (batches : List (RecordBatch V))
    (view : MaterializedView V) : MaterializedView V :=
  { view with
    batches
    lastRefresh := some now
    error := none
    stats := { view.stats with
      totalRows := countRows batches
      fullRefreshes := view.stats.fullRefreshes + 1
      lastAppendedRows := countRows batches } }

def appendResults (now : Nat) (newBatches : List (RecordBatch V))
    (newWatermark : Option Str) (view : MaterializedView V) :
    MaterializedView V :=
  { view with
    batches := view.batches ++ newBatches
    lastRefresh := some now
    error := none
    watermark := newWatermark.or view.watermark
    stats := { view.stats with
      totalRows := countRows (view.batches ++ newBatches)
      incrementalRefreshes := view.stats.incrementalRefreshes + 1
      lastAppendedRows := countRows newBatches } }

def setError (message : Str) (view : MaterializedView V) : MaterializedView V :=
  { view with error := some message }

def isIncremental (view : MaterializedView V) : Bool :=
  match view.definition.refreshMode with
  | .incremental _ => true
  | .full => false

def watermarkColumn (view : MaterializedView V) : Option Str :=
  match view.definition.refreshMode with
  | .incremental column => some column
  | .full => none

end MaterializedView

structure ViewEntry (V : Type) where
  cell : Nat
  view : MaterializedView V

abbrev MaterializedViewRegistry (V : Type) :=
  AList fun _ : Str => ViewEntry V

namespace MaterializedViewRegistry

variable {V : Type}

def register (cell : Nat) (definition : MaterializedViewDef)
    (views : MaterializedViewRegistry V) : MaterializedViewRegistry V :=
  views.insert definition.name ⟨cell, { definition }⟩

def remove (name : Str) (views : MaterializedViewRegistry V) :
    MaterializedViewRegistry V :=
  views.erase name

def get (name : Str) (views : MaterializedViewRegistry V) :
    Option (ViewEntry V) :=
  views.lookup name

def write (name : Str) (f : MaterializedView V → MaterializedView V)
    (views : MaterializedViewRegistry V) : MaterializedViewRegistry V :=
  match get name views with
  | some entry => views.insert name { entry with view := f entry.view }
  | none => views

/-- Write through a reference; one that is no longer registered is not seen
by any reader. -/
def writeCell (name : Str) (cell : Nat)
    (f : MaterializedView V → MaterializedView V)
    (views : MaterializedViewRegistry V) : MaterializedViewRegistry V :=
  match get name views with
  | some entry => if entry.cell = cell then write name f views else views
  | none => views

def getResults (name : Str) (views : MaterializedViewRegistry V) :
    Option (List (RecordBatch V)) := do
  let entry ← get name views
  if entry.view.batches.isEmpty && entry.view.lastRefresh.isNone then none
  else some entry.view.batches

def staleViews (now : Nat) (views : MaterializedViewRegistry V) : List Str :=
  (views.entries.filter fun e => e.2.view.needsRefresh now).map (·.1)

@[simp] theorem get_register (cell : Nat) (definition : MaterializedViewDef)
    (views : MaterializedViewRegistry V) (name : Str) :
    get name (register cell definition views) =
      if name = definition.name then some ⟨cell, { definition }⟩
      else get name views := by
  unfold get register
  split
  · next h => rw [h, AList.lookup_insert]
  · next h => rw [AList.lookup_insert_ne h]

@[simp] theorem get_remove (removed name : Str)
    (views : MaterializedViewRegistry V) :
    get name (remove removed views) =
      if name = removed then none else get name views := by
  unfold get remove
  split
  · next h => rw [h, AList.lookup_erase]
  · next h => rw [AList.lookup_erase_ne h]

@[simp] theorem get_write (written name : Str)
    (f : MaterializedView V → MaterializedView V)
    (views : MaterializedViewRegistry V) :
    get name (write written f views) = (get name views).map fun entry =>
        if name = written then { entry with view := f entry.view }
        else entry := by
  unfold write
  by_cases h : name = written
  · subst h
    cases hget : get name views with
    | none => simp [hget]
    | some entry =>
      simp only [if_true, Option.map_some]
      exact AList.lookup_insert _
  · cases hget : get written views with
    | none => simp [h]
    | some entry =>
      simp only [h, if_false]
      exact (AList.lookup_insert_ne h).trans Option.map_id'.symm

theorem get_writeCell (written name : Str) (cell : Nat)
    (f : MaterializedView V → MaterializedView V)
    (views : MaterializedViewRegistry V) :
    get name (writeCell written cell f views) = (get name views).map
    fun entry =>
        if name = written ∧ entry.cell = cell then
          { entry with view := f entry.view }
        else entry := by
  unfold writeCell
  by_cases h : name = written
  · subst h
    cases hget : get name views with
    | none => simp [hget]
    | some entry =>
      dsimp only
      split
      · next hcell => simp [hget, hcell]
      · next hcell => simp [hget, hcell]
  · cases hget : get written views with
    | none => simp [h]
    | some entry =>
      dsimp only
      split
      · simp [h]
      · simp [h]

end MaterializedViewRegistry

end Fuse.Engine
