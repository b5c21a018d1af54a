import Mathlib.Data.List.Basic
import Mathlib.Logic.Relation

/-!
# A bounded channel

One task sends items into a queue of bounded length and then goes away; another
receives them until an item tells it to stop or the channel is closed.  The two
take their steps in any order.  Whatever the order, the receiver sees the items
up to the first that stops it; it sees that the sender is gone, and nothing of
how it went.
-/

namespace Fuse.Foundation

open List

structure Channel (α : Type) where
  toSend : List α
  senderOpen : Bool
  queue : List α
  received : List α
  listening : Bool

namespace Channel

variable {α : Type} (capacity : Nat) (stops : α → Bool)

def start (items : List α) : Channel α := ⟨items, true, [], [], true⟩

inductive Step : Channel α → Channel α → Prop
  | send {c : Channel α} {x : α} {rest : List α} (hsend : c.toSend = x :: rest)
      (hroom : c.queue.length < capacity) (hlisten : c.listening = true) :
      Step c { c with toSend := rest, queue := c.queue ++ [x] }
  | sendFails {c : Channel α} (hlisten : c.listening = false) :
    Step c { c with toSend := [] }
  | hangUp {c : Channel α} (hsend : c.toSend = []) :
    Step c { c with senderOpen := false }
  | receive {c : Channel α} {x : α} {rest : List α}
    (hqueue : c.queue = x :: rest)
      (hlisten : c.listening = true) :
      Step c { c with
        queue := rest, received := c.received ++ [x], listening := !stops x }
  | closed {c : Channel α} (hqueue : c.queue = [])
    (hopen : c.senderOpen = false)
      (hlisten : c.listening = true) : Step c { c with listening := false }

def Delivers (items received : List α) : Prop :=
  ∃ c, Relation.ReflTransGen (Step capacity stops) (start items) c ∧
    c.listening = false ∧ c.received = received

def upTo : List α → List α
  | [] => []
  | x :: rest => if stops x then [x] else x :: upTo rest

variable {capacity stops} {items : List α}

theorem upTo_append {front : List α} (hfront : ∀ x ∈ front, stops x = false)
    (rest : List α) : upTo stops (front ++ rest) = front ++
    upTo stops rest := by
  induction front with
  | nil => rfl
  | cons x front ih =>
    rw [cons_append, upTo, hfront x mem_cons_self, ih fun y hy =>
      hfront y (mem_cons_of_mem x hy)]
    rfl

structure Carries (stops : α → Bool) (items : List α) (c : Channel α) :
    Prop where
  ended : c.listening = false → c.received = upTo stops items
  order : c.listening = true → c.received ++ c.queue ++ c.toSend = items
  front : c.listening = true → ∀ x ∈ c.received, stops x = false
  sent : c.senderOpen = false → c.listening = true → c.toSend = []

theorem carries_start : Carries stops items (start items) where
  ended h := by cases h
  order _ := rfl
  front _ x hx := by cases hx
  sent h := by cases h

theorem Carries.step {c c' : Channel α} (h : Carries stops items c)
    (hstep : Step capacity stops c c') : Carries stops items c' := by
  cases hstep with
  | @send x rest hsend hroom hlisten =>
    refine ⟨h.ended, fun _ => ?_, h.front, fun hclosed _ => ?_⟩
    · rw [← h.order hlisten, hsend]
      simp
    · rw [h.sent hclosed hlisten] at hsend
      cases hsend
  | sendFails hlisten =>
    refine ⟨h.ended, fun hl => ?_, h.front, fun _ _ => rfl⟩
    rw [hlisten] at hl
    cases hl
  | hangUp hsend => exact ⟨h.ended, h.order, h.front, fun _ _ => hsend⟩
  | @receive x rest hqueue hlisten =>
    have horder := h.order hlisten
    have hfront := h.front hlisten
    rw [hqueue] at horder
    refine ⟨fun hstop => ?_, fun _ => ?_, fun hgo y hy => ?_,
      fun hclosed _ => h.sent hclosed hlisten⟩
    · have hx : stops x = true := by simpa using hstop
      rw [← horder, append_assoc, upTo_append hfront, cons_append, upTo,
        if_pos hx]
    · rw [← horder]
      simp
    · rcases mem_append.mp hy with hy | hy
      · exact hfront y hy
      · rw [mem_singleton.mp hy]
        simpa using hgo
  | closed hqueue hopen hlisten =>
    refine ⟨fun _ => ?_, (by cases ·), (by cases ·), fun _ => (by cases ·)⟩
    have horder := h.order hlisten
    rw [hqueue, h.sent hopen hlisten, append_nil, append_nil] at horder
    rw [← horder]
    have hall := upTo_append (h.front hlisten) []
    rw [append_nil] at hall
    rw [hall]
    exact (append_nil _).symm

theorem upTo_of_delivers {received : List α}
    (h : Delivers capacity stops items received) :
    received = upTo stops items := by
  obtain ⟨c, hreach, hended, rfl⟩ := h
  have hcarries : ∀ {c'}, Relation.ReflTransGen (Step capacity stops)
      (start items) c' → Carries stops items c' := by
    intro c' hreach'
    induction hreach' with
    | refl => exact carries_start
    | tail _ hstep ih => exact ih.step hstep
  exact (hcarries hreach).ended hended

theorem delivers_upTo (hcapacity : 0 < capacity) (items : List α) :
    Delivers capacity stops items (upTo stops items) := by
  have hrun : ∀ (items received : List α), ∃ c,
    Relation.ReflTransGen (Step capacity stops)
        ⟨items, true, [], received, true⟩ c ∧ c.listening = false ∧
        c.received = received ++ upTo stops items := by
    intro items
    induction items with
    | nil =>
      intro received
      exact ⟨_, (Relation.ReflTransGen.single (.hangUp rfl)).tail
        (.closed rfl rfl rfl), rfl, (append_nil _).symm⟩
    | cons x items ih =>
      intro received
      have hpass : Relation.ReflTransGen (Step capacity stops)
          ⟨x :: items, true, [], received, true⟩
              ⟨items, true, [], received ++ [x], !stops x⟩ :=
        (Relation.ReflTransGen.single (.send rfl hcapacity rfl)).tail
          (.receive rfl rfl)
      cases hx : stops x with
      | true =>
        refine ⟨_, hpass, by simp [hx], ?_⟩
        rw [upTo, if_pos hx]
      | false =>
        rw [hx] at hpass
        obtain ⟨c, hreach, hended, hreceived⟩ := ih (received ++ [x])
        refine ⟨c, hpass.trans hreach, hended, ?_⟩
        rw [hreceived, upTo, hx]
        simp
  obtain ⟨c, hreach, hended, hreceived⟩ := hrun items []
  exact ⟨c, hreach, hended, hreceived⟩

end Channel

end Fuse.Foundation
