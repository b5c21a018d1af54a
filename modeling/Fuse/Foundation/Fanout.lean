import Mathlib.Algebra.GroupWithZero.Nat
import Mathlib.Data.List.Basic
import Mathlib.Logic.Relation

/-!
# Fan-out under a semaphore

Tasks are spawned at once, run while they hold one of a number of permits, and
finish in any order; a collector awaits their handles in spawn order.  What is
collected does not depend on the schedule, and no schedule gets stuck while
there is a permit.
-/

namespace Fuse.Foundation.Fanout

open List

inductive Task (ρ : Type) where
  | waiting
  | running
  | done (result : ρ)

structure Pool (ρ : Type) where
  tasks : List (Task ρ)
  permits : Nat
  collected : List ρ

variable {ρ : Type}

def initial (n permits : Nat) : Pool ρ :=
  ⟨List.replicate n .waiting, permits, []⟩

/-- One scheduling step.  `outcome i r` says that task `i` may return `r`. -/
inductive Step (outcome : Nat → ρ → Prop) : Pool ρ → Pool ρ → Prop where
  | start (p : Pool ρ) (i : Nat) (hi : p.tasks[i]? = some .waiting)
    (hp : 0 < p.permits) :
      Step outcome p
      { p with tasks := p.tasks.set i .running, permits := p.permits - 1 }
  | finish (p : Pool ρ) (i : Nat) (r : ρ) (hi : p.tasks[i]? = some .running)
    (hr : outcome i r) :
      Step outcome p
      { p with tasks := p.tasks.set i (.done r), permits := p.permits + 1 }
  | await (p : Pool ρ) (r : ρ) (hr : p.tasks[p.collected.length]? =
    some (.done r)) :
      Step outcome p { p with collected := p.collected ++ [r] }

/-- Some schedule of `n` tasks under `permits` leads to the pool. -/
def Reachable (outcome : Nat → ρ → Prop) (n permits : Nat) : Pool ρ → Prop :=
  Relation.ReflTransGen (Step outcome) (initial n permits)

def Finished (p : Pool ρ) : Prop := p.collected.length = p.tasks.length

def isRunning : Task ρ → Bool
  | .running => true
  | _ => false

structure Inv (outcome : Nat → ρ → Prop) (n permits : Nat) (p : Pool ρ) :
    Prop where
  length : p.tasks.length = n
  bound : p.collected.length ≤ n
  done : ∀ i r, p.tasks[i]? = some (.done r) → outcome i r
  collected : ∀ i r, p.collected[i]? = some r → outcome i r
  held : p.permits + p.tasks.countP isRunning = permits

theorem inv_initial (outcome : Nat → ρ → Prop) (n permits : Nat) :
    Inv outcome n permits (initial n permits) where
  length := by simp [initial]
  bound := by simp [initial]
  done i r h := by
    simp only [initial, getElem?_replicate] at h
    split at h <;> simp at h
  collected i r h := by simp [initial] at h
  held := by simp [initial, countP_replicate, isRunning]

variable {tasks : List (Task ρ)} {n permits : Nat} {p : Pool ρ}

private theorem getElem?_set_done {i j : Nat} {t : Task ρ} {r : ρ}
    (h : (tasks.set i t)[j]? = some (.done r)) :
    (i = j ∧ t = .done r) ∨ tasks[j]? = some (.done r) := by
  rw [getElem?_set] at h
  split at h
  · rename_i hij
    split at h
    · exact .inl ⟨hij, by simpa using h⟩
    · cases h
  · exact .inr h

private theorem sum_set (f : Task ρ → Nat) {i : Nat} {old : Task ρ}
    (h : tasks[i]? = some old)
    (new : Task ρ) : ((tasks.set i new).map f).sum + f old = (tasks.map f).sum +
    f new := by
  induction tasks generalizing i with
  | nil => simp at h
  | cons t tasks ih =>
    cases i with
    | zero =>
      cases h
      simp only [set_cons_zero, map_cons, sum_cons]
      omega
    | succ i =>
      have := ih h
      simp only [set_cons_succ, map_cons, sum_cons]
      omega

private theorem countP_set {i : Nat} {old : Task ρ} (h : tasks[i]? = some old)
    (new : Task ρ) :
    (tasks.set i new).countP isRunning + (isRunning old).toNat =
      tasks.countP isRunning + (isRunning new).toNat := by
  have hsum : ∀ ts : List (Task ρ),
      ts.countP isRunning = (ts.map fun t => (isRunning t).toNat).sum := by
    intro ts
    induction ts with
    | nil => rfl
    | cons t ts ih => cases ht : isRunning t <;> simp [ht, ih, Nat.add_comm]
  rw [hsum, hsum]
  exact sum_set (fun t => (isRunning t).toNat) h new

variable {outcome : Nat → ρ → Prop}

theorem Inv.step {p q : Pool ρ} (hinv : Inv outcome n permits p)
    (hstep : Step outcome p q) : Inv outcome n permits q := by
  cases hstep with
  | start i hi hp =>
    refine ⟨by simp [hinv.length], hinv.bound, ?_, hinv.collected, ?_⟩
    · intro j r hj
      rcases getElem?_set_done hj with ⟨-, h⟩ | h
      · cases h
      · exact hinv.done j r h
    · have hcount := countP_set hi Task.running
      have hheld := hinv.held
      simp only [isRunning, Bool.toNat_true, Bool.toNat_false] at hcount
      simp only
      omega
  | finish i r hi hr =>
    refine ⟨by simp [hinv.length], hinv.bound, ?_, hinv.collected, ?_⟩
    · intro j s hj
      rcases getElem?_set_done hj with ⟨rfl, h⟩ | h
      · cases h
        exact hr
      · exact hinv.done j s h
    · have hcount := countP_set hi (Task.done r)
      have hheld := hinv.held
      simp only [isRunning, Bool.toNat_true, Bool.toNat_false] at hcount
      simp only
      omega
  | await r hr =>
    have hlt := (List.getElem?_eq_some_iff.mp hr).1
    refine ⟨hinv.length, ?_, hinv.done, ?_, hinv.held⟩
    · have := hinv.length
      simp only [List.length_append, List.length_singleton]
      omega
    · intro i s hs
      rw [List.getElem?_append] at hs
      split at hs
      · exact hinv.collected i s hs
      rename_i hge
      obtain ⟨hi, hs'⟩ := List.getElem?_eq_some_iff.mp hs
      simp only [List.length_singleton, Nat.lt_one_iff] at hi
      simp only [hi, List.getElem_singleton] at hs'
      obtain rfl : i = p.collected.length := by omega
      exact hinv.done _ s (hs' ▸ hr)

theorem reachable_inv (h : Reachable outcome n permits p) :
    Inv outcome n permits p := by
  induction h with
  | refl => exact inv_initial outcome n permits
  | tail _ hstep ih => exact ih.step hstep

/--
When the outcome of each task is determined, what a finished schedule has
collected is the list of outcomes in spawn order.
-/
theorem collected_eq {results : List ρ} {permits : Nat}
    (h : Reachable (fun i r => results[i]? = some r) results.length permits p)
    (hfinished : Finished p) : p.collected = results := by
  have hinv := reachable_inv h
  apply ext_getElem?
  intro i
  cases hi : p.collected[i]? with
  | some r => exact (hinv.collected i r hi).symm
  | none =>
    have hlen : p.collected.length = results.length :=
      hfinished.trans hinv.length
    rw [getElem?_eq_none_iff] at hi
    exact (getElem?_eq_none (by omega)).symm

/-! ## Every schedule can be finished -/

def Task.weight : Task ρ → Nat
  | .waiting => 2
  | .running => 1
  | .done _ => 0

def remaining (p : Pool ρ) : Nat :=
  (p.tasks.map Task.weight).sum + (p.tasks.length - p.collected.length)

theorem Step.remaining_lt
    {p q : Pool ρ} (h : Step outcome p q) : remaining q < remaining p := by
  cases h with
  | start i hi hp =>
    have := sum_set Task.weight hi Task.running
    simp only [remaining, length_set, Task.weight] at this ⊢
    omega
  | finish i r hi hr =>
    have := sum_set Task.weight hi (Task.done r)
    simp only [remaining, length_set, Task.weight] at this ⊢
    omega
  | await r hr =>
    have hlt := (List.getElem?_eq_some_iff.mp hr).1
    simp only [remaining, List.length_append, List.length_singleton]
    omega

theorem Inv.progress (hinv : Inv outcome n permits p) (hpermits : 0 < permits)
    (houtcome : ∀ i, i < n → ∃ r, outcome i r) (hopen : ¬ Finished p) :
    ∃ q, Step outcome p q := by
  have finishable : ∀ i : Nat,
      p.tasks[i]? = some .running → ∃ q, Step outcome p q := by
    intro i hi
    have hlt := (List.getElem?_eq_some_iff.mp hi).1
    obtain ⟨r, hr⟩ := houtcome i (hinv.length ▸ hlt)
    exact ⟨_, .finish p i r hi hr⟩
  have hlt : p.collected.length < p.tasks.length := by
    have := hinv.bound
    have := hinv.length
    simp only [Finished] at hopen
    omega
  have hget := getElem?_eq_getElem hlt
  cases ht : p.tasks.get ⟨p.collected.length, hlt⟩ with
  | waiting =>
    by_cases hp : 0 < p.permits
    · exact ⟨_, .start p _ (hget.trans (congrArg some ht)) hp⟩
    -- every permit is held, so some task is running
    have hrun : 0 < p.tasks.countP isRunning := by
      have := hinv.held
      omega
    obtain ⟨t, hmem, hrunning⟩ := countP_pos_iff.mp hrun
    obtain ⟨i, hi⟩ := mem_iff_getElem?.mp hmem
    cases t with
    | running => exact finishable i hi
    | waiting | done r => cases hrunning
  | running => exact finishable _ (hget.trans (congrArg some ht))
  | done r => exact ⟨_, .await p r (hget.trans (congrArg some ht))⟩

theorem exists_finished (hpermits : 0 < permits)
    (houtcome : ∀ i, i < n → ∃ r, outcome i r)
    (p : Pool ρ) (h : Reachable outcome n permits p) :
    ∃ q, Relation.ReflTransGen (Step outcome) p q ∧ Finished q := by
  by_cases hfinished : Finished p
  · exact ⟨p, .refl, hfinished⟩
  obtain ⟨q, hstep⟩ := (reachable_inv h).progress hpermits houtcome hfinished
  have hlt := hstep.remaining_lt
  obtain ⟨r, hqr, hr⟩ := exists_finished hpermits houtcome q (h.tail hstep)
  exact ⟨r, .head hstep hqr, hr⟩
termination_by remaining p

theorem Inv.stuck (hinv : Inv outcome n permits p) (hpermits : 0 < permits)
    (houtcome : ∀ i, i < n → ∃ r, outcome i r)
    (hstuck : ∀ q, ¬ Step outcome p q) : ∀ t ∈ p.tasks, ∃ r, t = .done r := by
  have hidle : ∀ t ∈ p.tasks, isRunning t = false := by
    intro t ht
    obtain ⟨i, hi⟩ := mem_iff_getElem?.mp ht
    cases t with
    | running =>
      have hlt := (List.getElem?_eq_some_iff.mp hi).1
      obtain ⟨r, hr⟩ := houtcome i (hinv.length ▸ hlt)
      exact absurd (.finish p i r hi hr) (hstuck _)
    | _ => rfl
  have hfree : p.permits = permits := by
    have hheld := hinv.held
    rwa [countP_eq_zero.mpr fun t ht => by simp [hidle t ht]] at hheld
  intro t ht
  obtain ⟨i, hi⟩ := mem_iff_getElem?.mp ht
  cases t with
  | waiting => exact absurd (.start p i hi (hfree ▸ hpermits)) (hstuck _)
  | running => cases hidle _ ht
  | done r => exact ⟨r, rfl⟩

theorem no_endless_schedule (run : Nat → Pool ρ) :
    ∃ i, ¬ Step outcome (run i) (run (i + 1)) := by
  by_contra hall
  push Not at hall
  have hdrop : ∀ i, remaining (run i) + i ≤ remaining (run 0) := by
    intro i
    induction i with
    | zero => exact Nat.le_refl _
    | succ i ih =>
      have := (hall i).remaining_lt
      omega
  have := hdrop (remaining (run 0) + 1)
  omega

end Fuse.Foundation.Fanout
