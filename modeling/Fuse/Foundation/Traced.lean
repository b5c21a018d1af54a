import Mathlib.Data.List.Basic

/-!
# Computations with state and a trace

A `Traced` computation reads and writes a state, emits events and may fail.
What it did before a failure stays done: state and trace are there in both
outcomes.  `SpecAt I E m P s` is a partial-correctness rule: started in `s`,
each event emitted is one of `E`, the invariant `I` holds afterwards and a
result satisfies `P`.  `Spec I E m P` says so for every state with `I`.
-/

namespace Fuse.Foundation

open List

structure Outcome (ε σ τ α : Type) where
  result : Except ε α
  state : σ
  trace : List τ

def Traced (ε σ τ α : Type) := σ → Outcome ε σ τ α

namespace Traced

variable {ε σ τ α β : Type}

instance : Monad (Traced ε σ τ) where
  pure a := fun s => ⟨.ok a, s, []⟩
  bind m f := fun s =>
    let first := m s
    match first.result with
    | .ok a =>
      let second := f a first.state
      ⟨second.result, second.state, first.trace ++ second.trace⟩
    | .error e => ⟨.error e, first.state, first.trace⟩

instance : LawfulMonad (Traced ε σ τ) := LawfulMonad.mk' _ (fun m => by
      funext s
      change (match (m s).result with
        | .ok a => (⟨.ok a, (m s).state, (m s).trace ++ []⟩ : Outcome ε σ τ _)
        | .error e => ⟨.error e, (m s).state, (m s).trace⟩) = m s
      rcases hm : m s with ⟨_ | _, _, _⟩ <;> simp)
    (fun _ _ => rfl)
    (fun m f g => by
      funext s
      simp only [bind]
      rcases (m s).result with e | a
      · rfl
      dsimp only
      rcases (f a (m s).state).result with e | b
      · rfl
      · simp [append_assoc])

def emit (event : τ) : Traced ε σ τ Unit := fun s => ⟨.ok (), s, [event]⟩

def getState : Traced ε σ τ σ := fun s => ⟨.ok s, s, []⟩

def modifyState (f : σ → σ) : Traced ε σ τ Unit := fun s => ⟨.ok (), f s, []⟩

def lift (x : Except ε α) : Traced ε σ τ α := fun s => ⟨x, s, []⟩

def zoom {ρ : Type} (get : σ → ρ) (set : ρ → σ → σ)
    (m : Traced ε ρ τ α) : Traced ε σ τ α := fun s =>
  let o := m (get s)
  ⟨o.result, set o.state s, o.trace⟩

variable {m : Traced ε σ τ α} {f : α → Traced ε σ τ β}

variable {s : σ} {a : α} {x : Except ε α}

theorem bind_ok (h : (m s).result = .ok a) :
    (m >>= f) s = ⟨(f a (m s).state).result, (f a (m s).state).state,
      (m s).trace ++ (f a (m s).state).trace⟩ := by simp [bind, h]

theorem bind_error {e : ε} (h : (m s).result = .error e) :
    (m >>= f) s = ⟨.error e, (m s).state, (m s).trace⟩ := by simp [bind, h]

theorem modifyState_bind (g : σ → σ) (f : Unit → Traced ε σ τ β) (s : σ) :
    (modifyState g >>= f) s = f () (g s) := rfl

theorem lift_bind_ok (h : x = .ok a) (f : α → Traced ε σ τ β) (s : σ) :
    (lift x >>= f) s = f a s := by
  rw [h]
  rfl

theorem lift_bind_error {e : ε} (h : x = .error e) (f : α → Traced ε σ τ β)
    (s : σ) : (lift x >>= f) s = ⟨.error e, s, []⟩ := by
  rw [h]
  rfl

theorem bind_congr_at {m m' : Traced ε σ τ α} (h : m s = m' s)
    (f : α → Traced ε σ τ β) : (m >>= f) s = (m' >>= f) s := by simp [bind, h]

theorem bind_result_iff {b : β} : ((m >>= f) s).result = .ok b ↔
      ∃ a, (m s).result = .ok a ∧ (f a (m s).state).result = .ok b := by
  cases hr : (m s).result with
  | ok a => simp [bind_ok hr]
  | error e => simp [bind_error hr]

theorem forM_cons_ok {f : α → Traced ε σ τ PUnit} {as : List α} {u : PUnit}
    (h : (f a s).result = .ok u) :
    ((a :: as).forM f s).state = (as.forM f (f a s).state).state := by
  change ((f a >>= fun _ => as.forM f) s).state = _
  rw [bind_ok h]

theorem forM_cons_error {f : α → Traced ε σ τ PUnit} {as : List α} {e : ε}
    (h : (f a s).result = .error e) :
    ((a :: as).forM f s).state = (f a s).state := by
  change ((f a >>= fun _ => as.forM f) s).state = _
  rw [bind_error h]

/-! ## The rule of invariants -/

def SpecAt (I : σ → Prop) (E : τ → Prop) (m : Traced ε σ τ α) (P : α → Prop)
    (s : σ) : Prop :=
  (∀ t ∈ (m s).trace, E t) ∧ I (m s).state ∧ ∀ a, (m s).result = .ok a → P a

def Spec (I : σ → Prop) (E : τ → Prop) (m : Traced ε σ τ α) (P : α → Prop) :
    Prop :=
  ∀ s, I s → SpecAt I E m P s

variable {I : σ → Prop} {E : τ → Prop} {P : α → Prop} {Q : β → Prop}

protected theorem SpecAt.bind (hm : SpecAt I E m P s)
    (hf : ∀ a, P a → Spec I E (f a) Q) : SpecAt I E (m >>= f) Q s := by
  obtain ⟨htrace, hstate, hpost⟩ := hm
  unfold SpecAt
  cases hr : (m s).result with
  | ok a =>
    obtain ⟨htrace', hstate', hpost'⟩ := hf a (hpost a hr) _ hstate
    rw [bind_ok hr]
    refine ⟨?_, hstate', hpost'⟩
    intro t ht
    rcases mem_append.mp ht with ht | ht
    · exact htrace t ht
    · exact htrace' t ht
  | error e =>
    rw [bind_error hr]
    exact ⟨htrace, hstate, fun _ h => by cases h⟩

protected theorem SpecAt.lift_bind (hs : I s)
    (h : ∀ a, x = .ok a → SpecAt I E (f a) Q s) :
    SpecAt I E (lift x >>= f) Q s := by
  cases x with
  | ok a => exact h a rfl
  | error e =>
    rw [SpecAt, lift_bind_error rfl]
    exact ⟨by simp, hs, by simp⟩

namespace Spec

protected theorem pure {a : α} (h : P a) :
    Spec I E (pure a : Traced ε σ τ α) P := by
  intro s hs
  refine ⟨by simp [Pure.pure], hs, ?_⟩
  intro b hb
  cases hb
  exact h

variable {f : α → Traced ε σ τ β}

protected theorem bind {m : Traced ε σ τ α} (hm : Spec I E m P)
    (hf : ∀ a, P a → Spec I E (f a) Q) : Spec I E (m >>= f) Q := by
  intro s hs
  exact (hm s hs).bind hf

protected theorem lift {x : Except ε α} (h : ∀ a, x = .ok a → P a) :
    Spec I E (lift x : Traced ε σ τ α) P := by
  intro s hs
  exact ⟨by simp [Traced.lift], hs, h⟩

protected theorem lift_bind {x : Except ε α}
    (h : ∀ a, x = .ok a → Spec I E (f a) Q) :
    Spec I E (Traced.lift x >>= f) Q :=
  fun s hs => SpecAt.lift_bind hs fun a ha => h a ha s hs

protected theorem emit {t : τ} (h : E t) :
    Spec I E (emit t : Traced ε σ τ Unit) fun _ => True := by
  intro s hs
  refine ⟨?_, hs, fun _ _ => trivial⟩
  simp [Traced.emit, h]

protected theorem getState : Spec I E (getState : Traced ε σ τ σ) I := by
  intro s hs
  refine ⟨by simp [Traced.getState], hs, ?_⟩
  intro a ha
  cases ha
  exact hs

protected theorem modifyState {f : σ → σ} (h : ∀ s, I s → I (f s)) :
    Spec I E (modifyState f : Traced ε σ τ Unit) fun _ => True := by
  intro s hs
  exact ⟨by simp [Traced.modifyState], h s hs, fun _ _ => trivial⟩

protected theorem weaken {m : Traced ε σ τ α} {Q : α → Prop} (hm : Spec I E m P)
    (h : ∀ a, P a → Q a) : Spec I E m Q := by
  intro s hs
  obtain ⟨htrace, hstate, hpost⟩ := hm s hs
  exact ⟨htrace, hstate, fun a ha => h a (hpost a ha)⟩

protected theorem mapM {as : List α} (h : ∀ a ∈ as, Spec I E (f a) Q) :
    Spec I E (as.mapM f) fun bs => ∀ b ∈ bs, Q b := by
  induction as with
  | nil =>
    rw [mapM_nil]
    exact Spec.pure (by simp)
  | cons a as ih =>
    rw [mapM_cons]
    refine (h a (by simp)).bind fun b hb => ?_
    refine (ih fun a' ha' => h a' (by simp [ha'])).bind fun bs hbs => ?_
    exact Spec.pure (by simpa [hb] using hbs)

protected theorem forM {f : α → Traced ε σ τ PUnit} {as : List α}
    (h : ∀ a ∈ as, Spec I E (f a) fun _ => True) :
    Spec I E (as.forM f) fun _ => True := by
  induction as with
  | nil => exact Spec.pure trivial
  | cons a as ih =>
    refine Spec.bind (h a (by simp)) fun _ _ => ?_
    exact ih fun a' ha' => h a' (by simp [ha'])

end Spec

end Traced

end Fuse.Foundation
