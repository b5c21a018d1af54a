import Mathlib.Data.List.Basic

/-!
# Three-valued truth and polarity

Kleene's strong three-valued connectives, and entailment at a polarity: at
positive polarity truth must be kept, at negative polarity falsehood must be
kept.  Negation flips the polarity and the other connectives keep it, so a
rewriting of a formula is sound as soon as each of its places is.
-/

namespace Fuse.Foundation

inductive Truth where
  | ff
  | unknown
  | tt
  deriving DecidableEq, Repr

namespace Truth

def ofBool : Bool → Truth
  | true => .tt
  | false => .ff

def not : Truth → Truth
  | .ff => .tt
  | .unknown => .unknown
  | .tt => .ff

def and : Truth → Truth → Truth
  | .ff, _ => .ff
  | _, .ff => .ff
  | .tt, .tt => .tt
  | _, _ => .unknown

def or : Truth → Truth → Truth
  | .tt, _ => .tt
  | _, .tt => .tt
  | .ff, .ff => .ff
  | _, _ => .unknown

def any (ts : List Truth) : Truth := ts.foldr or .ff

@[simp] theorem not_eq_tt {t : Truth} :
    t.not = .tt ↔ t = .ff := by cases t <;> decide

@[simp] theorem not_eq_ff {t : Truth} :
    t.not = .ff ↔ t = .tt := by cases t <;> decide

variable {t u : Truth}

@[simp] theorem and_eq_tt :
    t.and u = .tt ↔ t = .tt ∧ u = .tt := by cases t <;> cases u <;> decide

@[simp] theorem and_eq_ff :
    t.and u = .ff ↔ t = .ff ∨ u = .ff := by cases t <;> cases u <;> decide

@[simp] theorem or_eq_tt :
    t.or u = .tt ↔ t = .tt ∨ u = .tt := by cases t <;> cases u <;> decide

@[simp] theorem or_eq_ff :
    t.or u = .ff ↔ t = .ff ∧ u = .ff := by cases t <;> cases u <;> decide

theorem any_eq_ff {ts : List Truth} : any ts = .ff ↔ ∀ t ∈ ts, t = .ff := by
  induction ts with
  | nil => simp [any]
  | cons t ts ih =>
    change t.or (any ts) = .ff ↔ _
    simp [ih]

theorem any_eq_tt {ts : List Truth} : any ts = .tt ↔ .tt ∈ ts := by
  induction ts with
  | nil => simp [any]
  | cons t ts ih =>
    change t.or (any ts) = .tt ↔ _
    rw [or_eq_tt, ih, List.mem_cons, eq_comm]

theorem ofBool_decide_tt {t : Truth} (h : t ≠ .unknown) :
    ofBool (decide (t = .tt)) = t := by
  cases t <;> first | rfl | exact absurd rfl h

theorem any_ofBool {α : Type} (f : α → Bool) (xs : List α) :
    any (xs.map fun x => ofBool (f x)) = ofBool (xs.any f) := by
  induction xs with
  | nil => rfl
  | cons x xs ih =>
    change (ofBool (f x)).or (any _) = _
    rw [ih, List.any_cons]
    cases f x <;> cases xs.any f <;> rfl

theorem ofBool_eq_tt {b : Bool} :
    ofBool b = .tt ↔ b = true := by cases b <;> decide

/-- `u` keeps what matters of `t` at a polarity. -/
def Entails : Bool → Truth → Truth → Prop
  | true, t, u => t = .tt → u = .tt
  | false, t, u => t = .ff → u = .ff

/-- And what matters of `u` at the other polarity is kept by `t`. -/
def Within (p : Bool) (t u : Truth) : Prop := Entails p t u ∧ Entails (!p) u t

namespace Within

variable {p : Bool} {t u t' u' : Truth}

protected theorem refl (p : Bool) (t : Truth) :
    Within p t t := by cases p <;> exact ⟨id, id⟩

protected theorem of_eq (p : Bool) (h : t = u) : Within p t u :=
  h ▸ Within.refl p t

protected theorem not (h : Within (!p) t u) : Within p t.not u.not := by
  cases p <;> simpa [Within, Entails] using h

protected theorem and (ht : Within p t t') (hu : Within p u u') :
    Within p (t.and u) (t'.and u') := by
  cases p <;> grind [Within, Entails, and_eq_tt, and_eq_ff]

protected theorem or (ht : Within p t t') (hu : Within p u u') :
    Within p (t.or u) (t'.or u') := by
  cases p <;> grind [Within, Entails, or_eq_tt, or_eq_ff]

theorem and_left (h : Within true t t') : Within true (t.and u) t' := by
  grind [Within, Entails, and_eq_tt, and_eq_ff]

theorem and_right (h : Within true u u') : Within true (t.and u) u' := by
  grind [Within, Entails, and_eq_tt, and_eq_ff]

theorem any_subset {ts us : List Truth} (h : us ⊆ ts) :
    Within false (any ts) (any us) := by
  simp only [Within, Entails, any_eq_ff, any_eq_tt, Bool.not_false]
  exact ⟨fun hall u hu => hall u (h hu), fun hu => h hu⟩

theorem eq_of_both (hpos : Within true t u) (hneg : Within false t u) :
    t = u := by
  cases t <;> cases u <;> simp_all [Within, Entails]

end Within

end Truth

end Fuse.Foundation
