import Mathlib.Data.List.Basic

/-!
# Transducers

A machine that reads symbols one by one and emits outputs on the way, among
them some it only emits when it sees what follows.  A text is cut into pieces,
and what a piece emits is known without the rest: either the machine is back in
its start state after it (`Emits`), or the piece has to be followed by a symbol
that breaks it off (`EmitsBefore`).
-/

namespace Fuse.Foundation

open List

structure Transducer (σ ι ο : Type) where
  start : σ
  step : σ → ι → Option (List ο × σ)
  finish : σ → Option (List ο)

namespace Transducer

variable {σ ι ο : Type} (T : Transducer σ ι ο)

def feed : σ → List ι → Option (List ο × σ)
  | s, [] => some ([], s)
  | s, x :: xs => do
      let (out, s) ← T.step s x
      let (more, s) ← feed s xs
      return (out ++ more, s)

def run (xs : List ι) : Option (List ο) := do
  let (out, s) ← T.feed T.start xs
  let more ← T.finish s
  return out ++ more

variable {T}

theorem feed_cons {s s' s'' : σ} {x : ι} {xs : List ι} {out more : List ο}
    (hstep : T.step s x = some (out, s'))
    (hrest : T.feed s' xs = some (more, s'')) :
    T.feed s (x :: xs) = some (out ++ more, s'') := by
  simp only [feed, hstep, Option.bind_eq_bind, Option.bind_some, hrest]
  rfl

theorem feed_append {s s' s'' : σ} {xs ys : List ι} {out more : List ο}
    (hxs : T.feed s xs = some (out, s'))
    (hys : T.feed s' ys = some (more, s'')) :
    T.feed s (xs ++ ys) = some (out ++ more, s'') := by
  induction xs generalizing s out with
  | nil =>
    cases hxs
    exact hys
  | cons x xs ih =>
    simp only [feed, Option.bind_eq_bind, Option.bind_eq_some_iff] at hxs
    obtain ⟨⟨first, t⟩, hstep, ⟨later, t'⟩, hfeed, hout⟩ := hxs
    cases hout
    rw [append_assoc]
    exact feed_cons hstep (ih hfeed)

variable (T)

def Emits (xs : List ι) (out : List ο) : Prop :=
  T.feed T.start xs = some (out, T.start)

/-- What is still to be emitted in a state comes out at the end of the text
and before a symbol that breaks off. -/
structure Pending (isBreak : ι → Bool) (s : σ) (out : List ο) : Prop where
  atEnd : T.finish s = some out
  atBreak : ∀ x, isBreak x = true → T.step s x = (T.step T.start x).map fun r =>
    (out ++ r.1, r.2)

def EmitsBefore (isBreak : ι → Bool) (xs : List ι) (out : List ο) : Prop :=
  ∃ now s later, T.feed T.start xs = some (now, s) ∧ T.Pending isBreak s later ∧
    out = now ++ later

variable {T} {isBreak : ι → Bool} {xs ys : List ι} {us vs : List ο}

theorem Emits.appendBefore (hxs : T.Emits xs us)
    (hys : T.EmitsBefore isBreak ys vs) :
    T.EmitsBefore isBreak (xs ++ ys) (us ++ vs) := by
  obtain ⟨now, s, later, hfeed, hpending, rfl⟩ := hys
  exact ⟨us ++ now, s, later, feed_append hxs hfeed, hpending,
    (append_assoc ..).symm⟩

/-- A break is read in a pending state as it is at the start, after what was
pending. -/
theorem Pending.feed_break {s s' : σ} {x : ι} {later out : List ο}
    (h : T.Pending isBreak s later)
    (hx : isBreak x = true) (hfeed : T.feed T.start (x :: ys) =
      some (out, s')) :
    T.feed s (x :: ys) = some (later ++ out, s') := by
  simp only [feed, Option.bind_eq_bind, Option.bind_eq_some_iff] at hfeed
  obtain ⟨⟨first, t⟩, hstep, ⟨more, t'⟩, hrest, hout⟩ := hfeed
  cases hout
  have hbreak := h.atBreak x hx
  rw [hstep] at hbreak
  rw [← append_assoc]
  exact feed_cons hbreak hrest

theorem EmitsBefore.append {x : ι} (hxs : T.EmitsBefore isBreak xs us)
    (hx : isBreak x = true)
    (hys : T.Emits (x :: ys) vs) : T.Emits (xs ++ x :: ys) (us ++ vs) := by
  obtain ⟨now, s, later, hfeed, hpending, rfl⟩ := hxs
  rw [append_assoc]
  exact feed_append hfeed (hpending.feed_break hx hys)

theorem EmitsBefore.appendBefore {x : ι} (hxs : T.EmitsBefore isBreak xs us)
    (hx : isBreak x = true) (hys : T.EmitsBefore isBreak (x :: ys) vs) :
    T.EmitsBefore isBreak (xs ++ x :: ys) (us ++ vs) := by
  obtain ⟨now, s, later, hfeed, hpending, rfl⟩ := hxs
  obtain ⟨now', s', later', hfeed', hpending', rfl⟩ := hys
  refine ⟨now ++ (later ++ now'), s', later',
    feed_append hfeed (hpending.feed_break hx hfeed'), hpending', ?_⟩
  simp

theorem EmitsBefore.run (h : T.EmitsBefore isBreak xs us) :
    T.run xs = some us := by
  obtain ⟨now, s, later, hfeed, hpending, rfl⟩ := h
  simp only [Transducer.run, hfeed, Option.bind_eq_bind, Option.bind_some,
    hpending.atEnd]
  rfl

end Transducer

end Fuse.Foundation
