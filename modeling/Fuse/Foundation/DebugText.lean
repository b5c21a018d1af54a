import Fuse.Foundation.Radix

/-!
# Debug texts

The texts that derived `Debug` instances write: words, quoted strings, and
groups in brackets.  Read from the left, a text ends where its value does; read
from the right, a colon outside all brackets and strings is not part of it.
-/

namespace Fuse.Foundation

open List

def isWordChar (c : Char) : Bool :=
  c.isAlphanum || c == '_' || c == '.' || c == '-' || c == '+'

def IsWord (s : Str) : Prop := s.all isWordChar = true

instance (s : Str) : Decidable (IsWord s) := inferInstanceAs (Decidable (_ = _))

def Stop (rest : Str) : Prop := ∀ c ∈ rest.head?, isWordChar c = false

theorem stop_nil : Stop [] := by simp [Stop]

theorem stop_cons {c : Char} (h : isWordChar c = false) (rest : Str) :
    Stop (c :: rest) := by
  simpa [Stop] using h

theorem stop_append {w : Str} (h : (w.head?.any fun c => !isWordChar c) = true)
    (rest : Str) : Stop (w ++ rest) := by
  cases w with
  | nil => cases h
  | cons c w => exact stop_cons (by simpa using h) _

theorem takeWhile_word {w rest : Str} (hw : IsWord w) (hrest : Stop rest) :
    (w ++ rest).takeWhile isWordChar = w := by
  have hnone : rest.takeWhile isWordChar = [] := by
    cases rest with
    | nil => rfl
    | cons c rest => simp [hrest c rfl]
  rw [takeWhile_append_of_pos (all_eq_true.mp hw), hnone, append_nil]

theorem word_cancel {w w' rest rest' : Str} (hw : IsWord w) (hw' : IsWord w')
    (hrest : Stop rest) (hrest' : Stop rest') (h : w ++ rest = w' ++ rest') :
    w = w' ∧ rest = rest' := by
  have hword := congrArg (takeWhile isWordChar) h
  rw [takeWhile_word hw hrest, takeWhile_word hw' hrest'] at hword
  subst hword
  exact ⟨rfl, append_cancel_left h⟩

def debugTuple (name body : Str) : Str := name ++ '(' :: (body ++ [')'])

theorem debugTuple_append (name body rest : Str) :
    debugTuple name body ++ rest = name ++ '(' :: (body ++ ')' :: rest) := by
  simp [debugTuple]

theorem stop_open (rest : Str) : Stop ('(' :: rest) := stop_cons (by decide) _

theorem stop_close (rest : Str) : Stop (')' :: rest) := stop_cons (by decide) _

theorem debugTuple_cancel {name body body' rest rest' : Str}
    (h : debugTuple name body ++ rest = debugTuple name body' ++ rest') :
    body ++ ')' :: rest = body' ++ ')' :: rest' := by
  rw [debugTuple_append, debugTuple_append] at h
  simpa using h

theorem word_ne_debugTuple {name name' body rest rest' : Str}
    (hname : IsWord name) (hname' : IsWord name') (hne : name ≠ name')
    (hrest : Stop rest) : name ++ rest ≠ debugTuple name' body ++ rest' := by
  intro h
  rw [debugTuple_append] at h
  exact hne (word_cancel hname hname' hrest (stop_open _) h).1

theorem takeWhile_debugTuple {name : Str} (hname : IsWord name)
    (body rest : Str) :
    (debugTuple name body ++ rest).takeWhile isWordChar = name := by
  rw [debugTuple_append]
  exact takeWhile_word hname (stop_open _)

theorem wordTuple_cancel {name w w' rest rest' : Str} (hw : IsWord w)
    (hw' : IsWord w')
    (h : debugTuple name w ++ rest = debugTuple name w' ++ rest') :
    w = w' ∧ rest = rest' := by
  obtain ⟨hword, hclose⟩ :=
    word_cancel hw hw' (stop_close _) (stop_close _) (debugTuple_cancel h)
  exact ⟨hword, (List.cons.inj hclose).2⟩

def boolText (b : Bool) : Str := if b then "true" else "false"

theorem isWord_boolText (b : Bool) :
    IsWord (boolText b) := by cases b <;> decide

theorem boolText_injective : Function.Injective boolText := by
  intro b b' h
  cases b <;> cases b' <;> first | rfl | cases h

theorem isWord_ofNat (n : Nat) : IsWord (Str.ofNat n) := by
  refine all_eq_true.mpr fun c hc => ?_
  have hdigit : c.isDigit = true :=
    Nat.isDigit_of_mem_toDigits (by decide) (by decide) hc
  simp [isWordChar, Char.isAlphanum, hdigit]

theorem isWord_ofInt (n : Int) : IsWord (Str.ofInt n) := by
  unfold Str.ofInt
  split
  · have hdigits := isWord_ofNat n.natAbs
    rw [IsWord, all_cons, hdigits]
    rfl
  · exact isWord_ofNat _

def debugStruct (name body : Str) : Str :=
  name ++ ' ' :: '{' :: (' ' :: (body ++ [' ']) ++ ['}'])

theorem debugStruct_append (name body rest : Str) :
    debugStruct name body ++ rest = name ++ ' ' :: '{' :: ' ' ::
    (body ++ ' ' :: '}' :: rest) := by
  simp [debugStruct]

theorem stop_blank (rest : Str) : Stop (' ' :: rest) := stop_cons (by decide) _

theorem takeWhile_debugStruct {name : Str} (hname : IsWord name)
    (body rest : Str) :
    (debugStruct name body ++ rest).takeWhile isWordChar = name := by
  rw [debugStruct_append]
  exact takeWhile_word hname (stop_blank _)

theorem debugStruct_cancel {name body body' rest rest' : Str}
    (h : debugStruct name body ++ rest = debugStruct name body' ++ rest') :
    body ++ ' ' :: '}' :: rest = body' ++ ' ' :: '}' :: rest' := by
  rw [debugStruct_append, debugStruct_append] at h
  simpa using h

class PlainChars where
  plain : Char → Bool

@[reducible] def asciiPlain : PlainChars where
  plain c := 32 ≤ c.toNat && c.toNat < 127

def escapeLetters : List (Char × Char) :=
  [('\x00', '0'), ('\t', 't'), ('\r', 'r'), ('\n', 'n'), ('\\', '\\'),
    ('"', '"')]

def unescape : Str → Option (Char × Str)
  | [] => none
  | c :: rest =>
    if c = '\\' then
      match rest with
      | [] => none
      | letter :: rest =>
        if letter = 'u' then
          let digits := rest.drop 1
          some
            (Char.ofNat (digitsValue 16 (digits.takeWhile (isRadixDigit 16))),
            (digits.dropWhile (isRadixDigit 16)).drop 1)
        else
          (escapeLetters.find? (·.2 == letter)).map fun e => (e.1, rest)
    else some (c, rest)

theorem escapeLetters_cases {c letter : Char}
    (h : escapeLetters.lookup c = some letter) :
    letter ≠ 'u' ∧ escapeLetters.find? (·.2 == letter) = some (c, letter) := by
  have hmem : (c, letter) ∈ escapeLetters := by
    obtain ⟨before, after, hsplit, -⟩ := lookup_eq_some_iff.mp h
    rw [hsplit]
    exact mem_append_right before mem_cons_self
  have hall : ∀ e ∈ escapeLetters, e.2 ≠ 'u' ∧
      escapeLetters.find? (·.2 == e.2) = some e := by decide
  exact hall _ hmem

section Strings

variable [PlainChars]

/-- `char::escape_debug` inside a string. -/
def escapeDebug (c : Char) : Str :=
  match escapeLetters.lookup c with
  | some letter => ['\\', letter]
  | none =>
    if PlainChars.plain c then [c]
    else '\\' :: 'u' :: '{' :: (Nat.toDigits 16 c.toNat ++ ['}'])

def quoted (s : Str) : Str := '"' :: (s.flatMap escapeDebug ++ ['"'])

theorem unescape_escapeDebug (c : Char) (rest : Str) :
    unescape (escapeDebug c ++ rest) = some (c, rest) := by
  unfold escapeDebug
  split
  · rename_i letter hletter
    obtain ⟨hu, hfind⟩ := escapeLetters_cases hletter
    simp [unescape, hu, hfind]
  rename_i hnone
  split
  · have hc : c ≠ '\\' := by
      rintro rfl
      exact absurd hnone (by decide)
    simp [unescape, hc]
  · have hdigits : ∀ d ∈ Nat.toDigits 16 c.toNat, isRadixDigit 16 d = true :=
        isRadixDigit_toDigits (by decide) (by decide) c.toNat
    have hvalue : digitsValue 16 (Nat.toDigits 16 c.toNat) = c.toNat :=
      digitsValue_toDigits (by decide) (by decide) c.toNat
    have hbrace : isRadixDigit 16 '}' = false := by decide
    simp [unescape, takeWhile_append_of_pos hdigits,
      dropWhile_append_of_pos hdigits, hbrace, hvalue, Char.ofNat_toNat]

theorem escapeDebug_ne_quote (c : Char) (rest rest' : Str) :
    escapeDebug c ++ rest ≠ '"' :: rest' := by
  intro h
  have hread := unescape_escapeDebug c rest
  rw [h] at hread
  have hc : c = '"' := by simpa [unescape]
    using (congrArg (Option.map Prod.fst) hread).symm
  subst hc
  have hhead : '\\' = '"' := (List.cons.inj h).1
  exact absurd hhead (by decide)

theorem quoted_cancel {s t rest rest' : Str}
    (h : quoted s ++ rest = quoted t ++ rest') : s = t ∧ rest = rest' := by
  have hbody : s.flatMap escapeDebug ++ '"' :: rest =
      t.flatMap escapeDebug ++ '"' :: rest' := by simpa [quoted] using h
  clear h
  induction s generalizing t with
  | nil =>
    cases t with
    | nil => exact ⟨rfl, (List.cons.inj hbody).2⟩
    | cons c t =>
      rw [flatMap_cons, append_assoc] at hbody
      exact absurd hbody.symm (escapeDebug_ne_quote c _ _)
  | cons c s ih =>
    rw [flatMap_cons, append_assoc] at hbody
    cases t with
    | nil => exact absurd hbody (escapeDebug_ne_quote c _ _)
    | cons d t =>
      rw [flatMap_cons, append_assoc] at hbody
      have hread := congrArg unescape hbody
      rw [unescape_escapeDebug, unescape_escapeDebug] at hread
      obtain ⟨rfl, hrest⟩ := Prod.mk.inj (Option.some.inj hread)
      obtain ⟨rfl, rfl⟩ := ih hrest
      exact ⟨rfl, rfl⟩

theorem quotedTuple_cancel {name s t rest rest' : Str}
    (h : debugTuple name (quoted s) ++ rest =
      debugTuple name (quoted t) ++ rest') : s = t ∧ rest = rest' := by
  obtain ⟨hword, hclose⟩ := quoted_cancel (debugTuple_cancel h)
  exact ⟨hword, (List.cons.inj hclose).2⟩

end Strings

/-- A text from which a value is known up to `norm`. -/
def Readable {α γ : Type} (norm : α → γ) (text : α → Str) : Prop :=
  ∀ a b rest rest', Stop rest → Stop rest' →
    text a ++ rest = text b ++ rest' → norm a = norm b ∧ rest = rest'

theorem readable_quoted [PlainChars] : Readable id quoted :=
  fun _ _ _ _ _ _ h => quoted_cancel h

theorem readable_word {α γ : Type} {norm : α → γ} {text : α → Str}
    (hword : ∀ a, IsWord (text a))
    (hnorm : ∀ a b, text a = text b → norm a = norm b) :
    Readable norm text := by
  intro a b rest rest' hrest hrest' h
  obtain ⟨heq, hr⟩ := word_cancel (hword a) (hword b) hrest hrest' h
  exact ⟨hnorm a b heq, hr⟩

theorem readable_ofNat : Readable id Str.ofNat :=
  readable_word isWord_ofNat fun _ _ h => Str.ofNat_injective h

section Lists

variable {α γ : Type} {norm : α → γ} {text : α → Str}

theorem Readable.norm_eq (h : Readable norm text) {a b : α}
    (heq : text a = text b) : norm a = norm b :=
  (h a b [] [] stop_nil stop_nil (by rw [heq])).1

def debugList (text : α → Str) (xs : List α) : Str :=
  '[' :: (Str.joinWith ", " (xs.map text) ++ [']'])

theorem debugList_cons (x : α) (xs : List α) (rest : Str) :
    debugList text (x :: xs) ++ rest = '[' :: (text x ++
      ((xs.flatMap fun x => ',' :: ' ' :: text x) ++ ']' :: rest)) := by
  rw [debugList, map_cons, Str.joinWith_cons, flatMap_map]
  simp

theorem stop_listTail (xs : List α) (rest : Str) :
    Stop ((xs.flatMap fun x => ',' :: ' ' :: text x) ++ ']' :: rest) := by
  cases xs with
  | nil | cons x xs => exact stop_cons (by decide) _

private theorem listTail_cancel (htext : Readable norm text) {xs ys : List α}
    {rest rest' : Str}
    (h : (xs.flatMap fun x => ',' :: ' ' :: text x) ++ ']' :: rest =
      (ys.flatMap fun x => ',' :: ' ' :: text x) ++ ']' :: rest') :
    xs.map norm = ys.map norm ∧ rest = rest' := by
  induction xs generalizing ys with
  | nil =>
    cases ys with
    | nil => exact ⟨rfl, (List.cons.inj h).2⟩
    | cons y ys => exact absurd (List.cons.inj h).1 (by decide)
  | cons x xs ih =>
    cases ys with
    | nil => exact absurd (List.cons.inj h).1 (by decide)
    | cons y ys =>
      have hitem : text x ++ ((xs.flatMap fun x => ',' :: ' ' :: text x) ++
        ']' :: rest) = text y ++
          ((ys.flatMap fun x => ',' :: ' ' :: text x) ++ ']' :: rest') := by
          simpa using h
      obtain ⟨hxy, htail⟩ :=
        htext x y _ _ (stop_listTail xs rest) (stop_listTail ys rest') hitem
      obtain ⟨hrest, rfl⟩ := ih htail
      exact ⟨by rw [map_cons, map_cons, hxy, hrest], rfl⟩

theorem readable_debugList (htext : Readable norm text)
    (hhead : ∀ a rest rest', text a ++ rest ≠ ']' :: rest') :
    Readable (List.map norm) (debugList text) := by
  intro xs ys rest rest' _ _ h
  cases xs with
  | nil =>
    cases ys with
    | nil => exact ⟨rfl, (List.cons.inj (List.cons.inj h).2).2⟩
    | cons y ys =>
      rw [debugList_cons] at h
      exact absurd (List.cons.inj h).2.symm (hhead y _ _)
  | cons x xs =>
    rw [debugList_cons] at h
    cases ys with
    | nil => exact absurd (List.cons.inj h).2 (hhead x _ _)
    | cons y ys =>
      rw [debugList_cons] at h
      obtain ⟨hxy, htail⟩ := htext x y _ _ (stop_listTail xs rest)
        (stop_listTail ys rest') (List.cons.inj h).2
      obtain ⟨hrest, rfl⟩ := listTail_cancel htext htail
      exact ⟨by rw [map_cons, map_cons, hxy, hrest], rfl⟩

def debugOption (text : α → Str) : Option α → Str
  | none => "None"
  | some a => debugTuple "Some" (text a)

theorem readable_debugOption (htext : Readable norm text) :
    Readable (Option.map norm) (debugOption text) := by
  intro a b rest rest' hrest hrest' h
  cases a with
  | none =>
    cases b with
    | none => exact ⟨rfl, append_cancel_left h⟩
    | some b =>
      change ("None" : Str) ++ rest = _ at h
      exact absurd h (word_ne_debugTuple (by decide) (by decide)
        (by decide) hrest)
  | some a =>
    cases b with
    | none =>
      change _ = ("None" : Str) ++ rest' at h
      exact absurd h.symm (word_ne_debugTuple (by decide) (by decide)
        (by decide) hrest')
    | some b =>
      obtain ⟨hab, hclose⟩ :=
        htext a b _ _ (stop_close _) (stop_close _) (debugTuple_cancel h)
      exact ⟨by rw [Option.map_some, Option.map_some, hab],
        (List.cons.inj hclose).2⟩

end Lists

/-- Where a reader from the right is with respect to strings: a quote inside one
is its beginning, unless a backslash stands before it. -/
inductive QuoteMode where
  | outside | inside | maybeOpened
  deriving DecidableEq, Repr

structure ScanState where
  depth : Nat
  mode : QuoteMode
  deriving DecidableEq, Repr

def scanOutside (depth : Nat) (c : Char) : Option ScanState :=
  if c = '"' then some ⟨depth, .inside⟩
  else if c = ')' ∨ c = ']' ∨ c = '}' then some ⟨depth + 1, .outside⟩
  else if c = '(' ∨ c = '[' ∨ c = '{' then some ⟨depth - 1, .outside⟩
  else if c = ':' ∧ depth = 0 then none
  else some ⟨depth, .outside⟩

def scanStep (s : ScanState) (c : Char) : Option ScanState :=
  match s.mode with
  | .inside => some ⟨s.depth, if c = '"' then .maybeOpened else .inside⟩
  | .maybeOpened =>
    if c = '\\' then some ⟨s.depth, .inside⟩ else scanOutside s.depth c
  | .outside => scanOutside s.depth c

def scanBack : Str → ScanState → Option ScanState
  | [], s => some s
  | c :: text, s => (scanBack text s).bind (scanStep · c)

theorem scanBack_append (a b : Str) (s : ScanState) :
    scanBack (a ++ b) s = (scanBack b s).bind (scanBack a) := by
  induction a with
  | nil => simp [scanBack]
  | cons c a ih =>
    rw [cons_append, scanBack, ih, Option.bind_assoc]
    rfl

inductive Calm (depth : Nat) : ScanState → Prop
  | outside : Calm depth ⟨depth, .outside⟩
  | maybeOpened : Calm depth ⟨depth, .maybeOpened⟩

def Neutral (text : Str) : Prop :=
  ∀ depth s, Calm (depth + 1) s → ∃ s', scanBack text s = some s' ∧
    Calm (depth + 1) s'

theorem Neutral.append {a b : Str} (ha : Neutral a) (hb : Neutral b) :
    Neutral (a ++ b) := by
  intro depth s hs
  obtain ⟨s', hscan, hs'⟩ := hb depth s hs
  rw [scanBack_append, hscan]
  exact ha depth s' hs'

theorem neutral_nil : Neutral [] := fun _ s hs => ⟨s, rfl, hs⟩

def isPlainChar (c : Char) : Bool :=
  c ∉ ['"', '\\', '(', ')', '[', ']', '{', '}']

theorem neutral_plain {text : Str} (h : text.all isPlainChar = true) :
    Neutral text := by
  induction text with
  | nil => exact neutral_nil
  | cons c text ih =>
    rw [all_cons, Bool.and_eq_true] at h
    intro depth s hs
    obtain ⟨s', hscan, hs'⟩ := ih h.2 depth s hs
    have hc : c ≠ '"' ∧ c ≠ '\\' ∧ c ≠ '(' ∧ c ≠ ')' ∧ c ≠ '[' ∧ c ≠ ']' ∧
        c ≠ '{' ∧ c ≠ '}' := by simpa [isPlainChar] using h.1
    refine ⟨⟨depth + 1, .outside⟩, ?_, .outside⟩
    rw [scanBack, hscan, Option.bind_some]
    cases hs' <;> simp [scanStep, scanOutside, hc]

def isBracketPair (l r : Char) : Bool :=
  (l, r) ∈ [('(', ')'), ('[', ']'), ('{', '}')]

variable {depth : Nat} {s : ScanState} {l r : Char} {body : Str}

theorem scanStep_close (hs : Calm depth s) (hpair : isBracketPair l r = true) :
    scanStep s r = some ⟨depth + 1, .outside⟩ := by
  have hr : r = ')' ∨ r = ']' ∨ r = '}' := by
    simp [isBracketPair] at hpair
    tauto
  rcases hr with rfl | rfl | rfl <;> cases hs <;> rfl

theorem scanStep_open (hs : Calm (depth + 1) s)
    (hpair : isBracketPair l r = true) :
    scanStep s l = some ⟨depth, .outside⟩ := by
  have hl : l = '(' ∨ l = '[' ∨ l = '{' := by
    simp [isBracketPair] at hpair
    tauto
  rcases hl with rfl | rfl | rfl <;> cases hs <;> rfl

theorem scanBack_group (h : Neutral body) (hpair : isBracketPair l r = true)
    (hs : Calm depth s) :
    scanBack (l :: (body ++ [r])) s = some ⟨depth, .outside⟩ := by
  obtain ⟨s', hscan, hs'⟩ := h depth ⟨depth + 1, .outside⟩ .outside
  have hlast : scanBack [r] s = some ⟨depth + 1, .outside⟩ :=
    scanStep_close hs hpair
  rw [scanBack, scanBack_append, hlast, Option.bind_some, hscan,
    Option.bind_some]
  exact scanStep_open hs' hpair

theorem Neutral.group (h : Neutral body) (hpair : isBracketPair l r = true) :
    Neutral (l :: (body ++ [r])) :=
  fun _ _ hs => ⟨_, scanBack_group h hpair hs, .outside⟩

private theorem scanBack_inside {text : Str} (h : '"' ∉ text) (depth : Nat) :
    scanBack text ⟨depth, .inside⟩ = some ⟨depth, .inside⟩ := by
  induction text with
  | nil => rfl
  | cons c text ih =>
    have hc : c ≠ '"' := fun heq => h (heq ▸ mem_cons_self)
    rw [scanBack, ih fun hmem => h (mem_cons_of_mem c hmem), Option.bind_some]
    simp [scanStep, hc]

theorem scanBack_escapeDebug [PlainChars] (c : Char) (depth : Nat) :
    scanBack (escapeDebug c) ⟨depth, .inside⟩ = some ⟨depth, .inside⟩ := by
  unfold escapeDebug
  split
  · rename_i letter _
    by_cases hquote : letter = '"'
    · rw [hquote]
      rfl
    · exact scanBack_inside (by simp [Ne.symm hquote]) depth
  · rename_i hnone
    have hc : c ≠ '"' := by
      rintro rfl
      exact absurd hnone (by decide)
    split
    · exact scanBack_inside (by simp [Ne.symm hc]) depth
    · refine scanBack_inside (fun hmem => ?_) depth
      have hdigit : '"' ∈ Nat.toDigits 16 c.toNat := by simpa using hmem
      exact absurd (isRadixDigit_toDigits (by decide) (by decide) _ _ hdigit)
        (by decide)

theorem neutral_quoted [PlainChars] (text : Str) : Neutral (quoted text) := by
  have hbody : ∀ depth, scanBack (text.flatMap escapeDebug) ⟨depth, .inside⟩ =
      some ⟨depth, .inside⟩ := by
    intro depth
    induction text with
    | nil => rfl
    | cons c text ih =>
      rw [flatMap_cons, scanBack_append, ih, Option.bind_some,
        scanBack_escapeDebug]
  intro depth s hs
  have hlast : scanBack ['"'] s = some ⟨depth + 1, .inside⟩ := by
    cases hs <;> rfl
  refine ⟨⟨depth + 1, .maybeOpened⟩, ?_, .maybeOpened⟩
  rw [quoted, scanBack, scanBack_append, hlast, Option.bind_some, hbody]
  rfl

def ColonFree (text : Str) : Prop :=
  scanBack text ⟨0, .outside⟩ = some ⟨0, .outside⟩

theorem not_colonFree (x text : Str) (h : ColonFree text) :
    ¬ColonFree (x ++ ':' :: text) := by
  intro hlong
  rw [ColonFree, scanBack_append, scanBack, h] at hlong
  cases hlong

theorem colonFree_cancel {p p' text text' : Str} (h : ColonFree text)
    (h' : ColonFree text')
    (heq : p ++ ':' :: text = p' ++ ':' :: text') : p = p' ∧ text = text' := by
  have hlonger : ∀ {p p' t t' : Str} (x : Str), ColonFree t → ColonFree t' →
    p' = p ++ x →
      ':' :: t = x ++ ':' :: t' → p = p' ∧ t = t' := by
    rintro p _ t t' (_ | ⟨c, x⟩) ht ht' rfl heq
    · exact ⟨(append_nil p).symm, (List.cons.inj heq).2⟩
    · rw [(List.cons.inj heq).2] at ht
      exact absurd ht (not_colonFree x t' ht')
  rcases append_eq_append_iff.mp heq with ⟨x, hp, htext⟩ | ⟨x, hp, htext⟩
  · exact hlonger x h h' hp htext
  · exact (hlonger x h' h hp htext).imp Eq.symm Eq.symm

theorem ne_of_isWordChar {c d : Char} (hc : isWordChar c = true)
    (hd : isWordChar d = false) : c ≠ d := by
  rintro rfl
  rw [hd] at hc
  cases hc

theorem isPlainChar_of_word {c : Char} (h : isWordChar c = true) :
    isPlainChar c = true := by
  have hne : (['"', '\\', '(', ')', '[', ']', '{', '}'].all
      fun d => !isWordChar d) = true := rfl
  refine decide_eq_true fun hmem => ?_
  have hc := all_eq_true.mp hne c hmem
  rw [h] at hc
  cases hc

theorem neutral_word {w : Str} (h : IsWord w) : Neutral w := by
  refine neutral_plain (all_eq_true.mpr fun c hc => ?_)
  exact isPlainChar_of_word (all_eq_true.mp h c hc)

theorem colonFree_word {w : Str} (h : IsWord w) : ColonFree w := by
  have hstep : ∀ c, isWordChar c = true →
      scanStep ⟨0, .outside⟩ c = some ⟨0, .outside⟩ := by
    intro c hc
    have hcolon : c ≠ ':' := ne_of_isWordChar hc (by decide)
    have hplain := isPlainChar_of_word hc
    simp only [isPlainChar, decide_eq_true_eq, mem_cons, not_or] at hplain
    simp [scanStep, scanOutside, hplain, hcolon]
  have hall := all_eq_true.mp h
  clear h
  induction w with
  | nil => rfl
  | cons c w ih =>
    have hrest := ih fun d hd => hall d (mem_cons_of_mem c hd)
    rw [ColonFree, scanBack, hrest, Option.bind_some]
    exact hstep c (hall c mem_cons_self)

theorem colonFree_tuple {name body : Str} (hname : IsWord name)
    (hbody : Neutral body) : ColonFree (debugTuple name body) := by
  rw [ColonFree, debugTuple, scanBack_append, scanBack_group hbody rfl .outside,
    Option.bind_some]
  exact colonFree_word hname

theorem neutral_tuple {name body : Str} (hname : IsWord name)
    (hbody : Neutral body) : Neutral (debugTuple name body) :=
  (neutral_word hname).append (hbody.group rfl)

theorem neutral_struct {name body : Str} (hname : IsWord name)
    (hbody : Neutral body) : Neutral (debugStruct name body) := by
  have hblank : Neutral [' '] := neutral_plain (by decide)
  have hinner : Neutral (' ' :: (body ++ [' '])) :=
    hblank.append (hbody.append hblank)
  exact (neutral_word hname).append (hblank.append (hinner.group rfl))

theorem colonFree_list (hbody : Neutral body) :
    ColonFree ('[' :: (body ++ [']'])) :=
  scanBack_group hbody rfl .outside

section Lists

variable {α : Type} {text : α → Str} (h : ∀ a, Neutral (text a))

include h

theorem neutral_items (xs : List α) :
    Neutral (Str.joinWith ", " (xs.map text)) := by
  have htail : ∀ xs : List α,
      Neutral ((xs.map text).flatMap ((", " : Str) ++ ·)) := by
    intro xs
    induction xs with
    | nil => exact neutral_nil
    | cons x xs ih =>
      exact ((neutral_plain (by decide)).append (h x)).append ih
  cases xs with
  | nil => exact neutral_nil
  | cons x xs =>
    rw [map_cons, Str.joinWith_cons]
    exact (h x).append (htail xs)

theorem neutral_debugList (xs : List α) : Neutral (debugList text xs) :=
  (neutral_items h xs).group rfl

theorem colonFree_debugList (xs : List α) : ColonFree (debugList text xs) :=
  colonFree_list (neutral_items h xs)

theorem neutral_debugOption (o : Option α) : Neutral (debugOption text o) := by
  have hnone : IsWord "None" := by decide
  cases o with
  | none => exact neutral_word hnone
  | some a => exact neutral_tuple (by decide) (h a)

theorem colonFree_debugOption (o : Option α) :
    ColonFree (debugOption text o) := by
  have hnone : IsWord "None" := by decide
  cases o with
  | none => exact colonFree_word hnone
  | some a => exact colonFree_tuple (by decide) (h a)

end Lists

end Fuse.Foundation
