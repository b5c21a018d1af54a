import Fuse.Foundation.Text

/-!
# Results and panics

A function of type `Result<α, ε>` returns a value or an error, or it panics and
returns neither.  `Returns` says that it does not panic; it is decided step by
step.  The steps that may panic here are additions of machine words and slices.
-/

namespace Fuse.Foundation

open List

abbrev Panicking (ε : Type) := ExceptT ε (Except Panic)

namespace Panicking

variable {ε α β : Type}

def panic (reason : Panic) : Panicking ε α := ExceptT.mk (.error reason)

/-- A result is passed on with `?`. -/
def ofResult (r : Except ε α) : Panicking ε α := ExceptT.mk (.ok r)

def Returns (x : Panicking ε α) : Prop := ∃ r, x.run = .ok r

theorem returns_ofResult (r : Except ε α) : Returns (ofResult r) := ⟨r, rfl⟩

theorem returns_pure (a : α) : Returns (pure a : Panicking ε α) := ⟨.ok a, rfl⟩

theorem returns_throw (e : ε) : Returns (throw e : Panicking ε α) :=
  ⟨.error e, rfl⟩

theorem not_returns_panic (reason : Panic) :
    ¬Returns (panic reason : Panicking ε α) := by
  rintro ⟨r, h⟩
  cases h

theorem returns_bind_iff {x : Panicking ε α} {f : α → Panicking ε β} :
    Returns (x >>= f) ↔ Returns x ∧ ∀ a, x.run = .ok (.ok a) →
    Returns (f a) := by
  rcases hx : x.run with reason | (e | a)
  · have hbind : (x >>= f).run = .error reason := by
      rw [ExceptT.run_bind, hx]
      rfl
    simp [Returns, hbind, hx]
  · have hbind : (x >>= f).run = .ok (.error e) := by
      rw [ExceptT.run_bind, hx]
      rfl
    simp [Returns, hbind, hx]
  · have hbind : (x >>= f).run = (f a).run := by
      rw [ExceptT.run_bind, hx]
      rfl
    simp [Returns, hbind, hx]

theorem returns_ofResult_bind_iff {r : Except ε α} {f : α → Panicking ε β} :
    Returns (ofResult r >>= f) ↔ ∀ a, r = .ok a → Returns (f a) := by
  rw [returns_bind_iff]
  constructor
  · rintro ⟨-, h⟩ a rfl
    exact h a rfl
  · intro h
    refine ⟨returns_ofResult r, fun a ha => h a ?_⟩
    cases ha
    rfl

end Panicking

def asUsize (n : Int32) : Nat := (n.toInt % 2 ^ 64).toNat

/-- A sum of two words.  Builds differ in whether one that does not fit panics
or wraps around. -/
def addUsize {ε : Type} (overflowChecks : Bool) (m n : Nat) : Panicking ε Nat :=
  if m + n < 2 ^ 64 then pure (m + n)
  else if overflowChecks then .panic .arithmeticOverflow
  else pure ((m + n) % 2 ^ 64)

def indexRange {ε β : Type} (data : List β) (start stop : Nat) :
    Panicking ε (List β) :=
  if stop < start then .panic .sliceOrder
  else if data.length < stop then .panic .indexOutOfBounds
  else pure ((data.take stop).drop start)

def copyInto {β : Type} (data : List β) (start : Nat) (content : List β) :
    List β :=
  data.take start ++ content.take (data.length - start) ++
    data.drop (start + content.length)

@[simp] theorem length_copyInto {β : Type} (data : List β) (start : Nat)
    (content : List β) :
    (copyInto data start content).length = data.length := by
  simp only [copyInto, length_append, length_take, length_drop]
  omega

open Panicking

variable {ε β : Type}

theorem returns_addUsize_bind_iff {α : Type} {overflowChecks : Bool} {m n : Nat}
    {f : Nat → Panicking ε α} : Returns (addUsize overflowChecks m n >>= f) ↔
      if m + n < 2 ^ 64 then Returns (f (m + n))
      else overflowChecks = false ∧ Returns (f ((m + n) % 2 ^ 64)) := by
  unfold addUsize
  split
  · rw [pure_bind]
  · cases overflowChecks with
    | true => simp [returns_bind_iff, not_returns_panic]
    | false => simp

theorem returns_indexRange_iff {data : List β} {start stop : Nat} :
    Returns (indexRange data start stop : Panicking ε (List β)) ↔
      start ≤ stop ∧ stop ≤ data.length := by
  unfold indexRange
  split
  · rename_i h
    simp only [not_returns_panic, false_iff]
    omega
  split
  · rename_i h
    simp only [not_returns_panic, false_iff]
    omega
  · simp only [returns_pure, true_iff]
    omega

theorem returns_indexRange_bind_iff {α : Type} {data : List β}
    {start stop : Nat} {f : List β → Panicking ε α} :
    Returns (indexRange data start stop >>= f) ↔
    (start ≤ stop ∧ stop ≤ data.length) ∧
        Returns (f ((data.take stop).drop start)) := by
  rw [returns_bind_iff, returns_indexRange_iff]
  refine and_congr_right fun hbounds => ?_
  have hrange : (indexRange data start stop : Panicking ε (List β)) =
      pure ((data.take stop).drop start) := by
    rw [indexRange, if_neg (by omega), if_neg (by omega)]
  rw [hrange]
  constructor
  · exact fun h => h _ rfl
  · intro h target htarget
    cases htarget
    exact h

end Fuse.Foundation
