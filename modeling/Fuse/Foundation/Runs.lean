import Mathlib.Data.List.Basic

/-!
# Runs of a step function

A run feeds a list of inputs to a step function.  A property that every step
establishes, from an invariant that every step keeps, holds at every step of
every run.
-/

namespace Fuse.Foundation

open List

variable {σ ρ : Type} (step : ρ → σ → σ)

/-- `P` holds of every input of a run in the state that it meets. -/
def EveryStep (P : σ → ρ → Prop) : σ → List ρ → Prop
  | _, [] => True
  | s, r :: rs => P s r ∧ EveryStep P (step r s) rs

def runSteps (s : σ) (rs : List ρ) : σ := rs.foldl (fun s r => step r s) s

variable {step} {I : σ → Prop} {P Q : σ → ρ → Prop} {s : σ} {rs : List ρ}

theorem EveryStep.of_inv (hstep : ∀ s r, I s → P s r → Q s r ∧ I (step r s))
    (hs : I s) (h : EveryStep step P s rs) : EveryStep step Q s rs := by
  induction rs generalizing s with
  | nil => trivial
  | cons r rs ih =>
    obtain ⟨hr, hrs⟩ := h
    obtain ⟨hq, hnext⟩ := hstep s r hs hr
    exact ⟨hq, ih hnext hrs⟩

theorem EveryStep.of_forall {R : ρ → Prop} (h : ∀ r ∈ rs, R r) :
    EveryStep step (fun _ r => R r) s rs := by
  induction rs generalizing s with
  | nil => trivial
  | cons r rs ih =>
    exact ⟨h r mem_cons_self, ih fun r' hr' => h r' (mem_cons_of_mem r hr')⟩

theorem EveryStep.and_mem {R : ρ → Prop} (h : EveryStep step P s rs)
    (hall : ∀ r ∈ rs, R r) : EveryStep step (fun s r => P s r ∧ R r) s rs := by
  induction rs generalizing s with
  | nil => trivial
  | cons r rs ih =>
    exact ⟨⟨h.1, hall r mem_cons_self⟩, ih h.2 fun r' hr' =>
      hall r' (mem_cons_of_mem r hr')⟩

theorem EveryStep.inv_runSteps (hstep : ∀ s r, I s → P s r → I (step r s))
    (hs : I s) (h : EveryStep step P s rs) : I (runSteps step s rs) := by
  induction rs generalizing s with
  | nil => exact hs
  | cons r rs ih => exact ih (hstep s r hs h.1) h.2

theorem runSteps_append (s : σ) (rs rs' : List ρ) :
    runSteps step s (rs ++ rs') = runSteps step (runSteps step s rs) rs' :=
  foldl_append

theorem everyStep_concat {r : ρ} : EveryStep step P s (rs ++ [r]) ↔
    EveryStep step P s rs ∧ P (runSteps step s rs) r := by
  induction rs generalizing s with
  | nil => simp [EveryStep, runSteps]
  | cons first rs ih =>
    rw [cons_append, EveryStep, ih, EveryStep, and_assoc]
    rfl

theorem runSteps_inv (hstep : ∀ r ∈ rs, ∀ s, I s → I (step r s)) (hs : I s) :
    I (runSteps step s rs) := by
  induction rs generalizing s with
  | nil => exact hs
  | cons r rs ih =>
    exact ih (fun r' hr' => hstep r' (mem_cons_of_mem r hr'))
      (hstep r mem_cons_self s hs)

/-- Some input met `P`, and all inputs after it `Q`. -/
def Since (P : List ρ → ρ → Prop) (Q : ρ → Prop) (rs : List ρ) : Prop :=
  ∃ before r rest, rs = before ++ r :: rest ∧ P before r ∧ ∀ r' ∈ rest, Q r'

theorem not_since_nil {P : List ρ → ρ → Prop} {Q : ρ → Prop} :
    ¬ Since P Q [] := by
  rintro ⟨before, r, rest, h, -⟩
  simp at h

theorem concat_eq_split {before after : List ρ} {r r' : ρ} :
    rs ++ [r] = before ++ r' :: after ↔ (rs = before ∧ r = r' ∧ after = []) ∨
      ∃ rest, rs = before ++ r' :: rest ∧ after = rest ++ [r] := by
  rcases eq_nil_or_concat after with rfl | ⟨rest, last, rfl⟩
  · simp
  · have hsplit : before ++ r' :: rest.concat last = (before ++ r' :: rest) ++
      [last] := by simp
    rw [hsplit, append_singleton_inj]
    simp [@eq_comm _ last]

theorem since_concat {P : List ρ → ρ → Prop} {Q : ρ → Prop} {r : ρ} :
    Since P Q (rs ++ [r]) ↔ P rs r ∨ Since P Q rs ∧ Q r := by
  constructor
  · rintro ⟨before, r', rest, heq, hp, hq⟩
    obtain ⟨rfl, rfl, rfl⟩ | ⟨rest, rfl, rfl⟩ := concat_eq_split.mp heq
    · exact .inl hp
    · rw [forall_mem_append, forall_mem_singleton] at hq
      exact .inr ⟨⟨before, r', rest, rfl, hp, hq.1⟩, hq.2⟩
  · rintro (hp | ⟨⟨before, r', rest, rfl, hp, hq⟩, hr⟩)
    · exact ⟨rs, r, [], rfl, hp, nofun⟩
    · refine ⟨before, r', rest ++ [r], by simp, hp, ?_⟩
      rw [forall_mem_append, forall_mem_singleton]
      exact ⟨hq, hr⟩

theorem runSteps_turns {J : σ → Prop}
    (hstart : ∀ r ∈ rs, step r s = s ∨ J (step r s))
    (hJ : ∀ r ∈ rs, ∀ s, J s → J (step r s)) {r : ρ} (hr : r ∈ rs)
    (hturn : J (step r s)) :
    J (runSteps step s rs) := by
  induction rs with
  | nil => cases hr
  | cons first rs ih =>
    rw [forall_mem_cons] at hstart hJ
    change J (runSteps step (step first s) rs)
    rcases hstart.1 with hsame | hturned
    · rcases mem_cons.mp hr with rfl | hr
      · exact runSteps_inv hJ.2 hturn
      · exact hsame.symm ▸ ih hstart.2 hJ.2 hr
    · exact runSteps_inv hJ.2 hturned

section Map

variable {ρ' : Type} {f : ρ' → ρ}

theorem runSteps_map (s : σ) (rs : List ρ') :
    runSteps step s (rs.map f) = runSteps (fun r => step (f r)) s rs :=
  foldl_map

theorem everyStep_map (s : σ) (rs : List ρ') : EveryStep step P s (rs.map f) ↔
      EveryStep (fun r => step (f r)) (fun s r => P s (f r)) s rs := by
  induction rs generalizing s with
  | nil => exact Iff.rfl
  | cons r rs ih => exact and_congr_right fun _ => ih _

end Map

end Fuse.Foundation
