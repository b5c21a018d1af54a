import Fuse.Foundation.Boundaries
import Fuse.Server.StatedJoin
import Mathlib.Data.List.TakeWhile

/-!
# The sides of a join

`execute_join` takes the key columns and the time window from the text of the
query and lets the side with more rows come first.  The columns of `ON` are
assigned by the order they are written in, a window is read from a copy of the
text without its literals, and the names of the output columns depend on the
numbers of rows.
-/

namespace Fuse.Server

open Foundation Fuse.Core Engine List Str ArrowKernels

section Keys

variable [Unicode]

/-! ## The columns of `ON` -/

/-- An equality of two columns behind the `ON` of a join, `b.y = a.x` if it is
turned. -/
structure OnEquality where
  front : Str
  on : Str
  gap : Str
  aliasA : Str
  columnA : Str
  aliasB : Str
  columnB : Str
  turned : Bool
  gapLeft : Str
  gapRight : Str
  rest : Str

namespace OnEquality

variable (q : OnEquality)

def operandA : Str := q.aliasA ++ '.' :: q.columnA

def operandB : Str := q.aliasB ++ '.' :: q.columnB

def equality (left right : Str) : Str :=
  q.gap ++ (left ++ (q.gapLeft ++ '=' :: (q.gapRight ++ (right ++ q.rest))))

def text : Str :=
  q.front ++ q.on ++ if q.turned then q.equality q.operandB q.operandA
    else q.equality q.operandA q.operandB

def PlainName (w : Str) : Prop :=
  w ≠ [] ∧ ∀ c ∈ w, isWhitespace c = false ∧ c ≠ '.' ∧ c ≠ '='

omit [Unicode] in
theorem plainName_of_all {w : Str} (h : w ≠ []) (hall : (w.all fun c =>
      decide (isWhitespace c = false ∧ c ≠ '.' ∧ c ≠ '=')) = true) :
          PlainName w :=
  ⟨h, fun c hc => of_decide_eq_true (all_eq_true.mp hall c hc)⟩

/-- The first ` on ` of the lower-case copy is the one before the equality, the
names need no quotes and the equality ends at a blank. -/
structure Read : Prop where
  found : find " on " (toLowercase q.text) = some (byteLen q.front)
  keyword : byteLen q.on = 4
  gaps : ∀ c ∈ q.gap ++ q.gapLeft ++ q.gapRight, isWhitespace c = true
  names : PlainName q.aliasA ∧ PlainName q.columnA ∧ PlainName q.aliasB ∧
    PlainName q.columnB
  blank : ∀ c ∈ q.rest.head?, isWhitespace c = true

variable {q}

def Solid (w : Str) : Prop := w ≠ [] ∧ ∀ c ∈ w, isWhitespace c = false ∧ c ≠ '='

omit [Unicode] in
theorem PlainName.operand {a c : Str} (ha : PlainName a) (hc : PlainName c) :
    Solid (a ++ '.' :: c) := by
  refine ⟨by simp, fun x hx => ?_⟩
  rcases mem_append.mp hx with hx | hx
  · exact ⟨(ha.2 x hx).1, (ha.2 x hx).2.2⟩
  · rcases mem_cons.mp hx with rfl | hx
    · decide
    · exact ⟨(hc.2 x hx).1, (hc.2 x hx).2.2⟩

omit [Unicode] in
theorem Solid.head {w : Str} (hw : Solid w) (rest : Str) :
    ∀ c ∈ (w ++ rest).head?, isWhitespace c = false := by
  intro c hc
  rw [head?_append_of_ne_nil w hw.1] at hc
  exact (hw.2 c (mem_of_mem_head? hc)).1

omit [Unicode] in
theorem Solid.last {w : Str} (hw : Solid w) (front : Str) :
    ∀ c ∈ (front ++ w).getLast?, isWhitespace c = false := by
  intro c hc
  rw [getLast?_append_of_ne_nil _ hw.1] at hc
  exact (hw.2 c (mem_of_getLast? hc)).1

omit [Unicode] in
theorem Solid.takeWhile {w rest : Str} (hw : Solid w)
    (hrest : ∀ c ∈ rest.head?, isWhitespace c = true) :
    (w ++ rest).takeWhile (!isWhitespace ·) = w := by
  rw [takeWhile_append_of_pos (fun c hc => by simp [(hw.2 c hc).1])]
  cases rest with
  | nil => simp
  | cons c rest => simp [hrest c rfl]

theorem parseOnKeys_text (h : q.Read) {a c a' c' : Str} (ha : PlainName a)
    (hc : PlainName c) (ha' : PlainName a') (hc' : PlainName c')
    (htext : q.text = q.front ++ q.on ++ q.equality (a ++ '.' :: c)
      (a' ++ '.' :: c')) :
    parseOnKeys q.text = .ok (some (c, c')) := by
  have hleft := ha.operand hc
  have hright := ha'.operand hc'
  have hgap : ∀ x, x ∈ q.gap ∨ x ∈ q.gapLeft ∨ x ∈ q.gapRight →
      isWhitespace x = true := fun x hx => h.gaps x (by simp; tauto)
  have hslice : sliceFrom q.text (byteLen q.front + 4) =
      .ok (q.equality (a ++ '.' :: c) (a' ++ '.' :: c')) := by
    rw [htext, ← h.keyword, ← byteLen_append, sliceFrom_append]
  have hclause : trim (q.equality (a ++ '.' :: c) (a' ++ '.' :: c')) =
      (a ++ '.' :: c ++ q.gapLeft) ++ '=' ::
        (q.gapRight ++ (a' ++ '.' :: c' ++ trimEnd q.rest)) := by
    have htrim := trim_append q.gap
      (w := a ++ '.' :: c ++ (q.gapLeft ++ '=' :: q.gapRight ++
        (a' ++ '.' :: c')))
      (fun x hx => hgap x (.inl hx)) (by simp) (hleft.head _)
      (by rw [← append_assoc]; exact hright.last _) q.rest
    simpa [equality] using htrim
  have hsplit : '=' ∉ a ++ '.' :: c ++ q.gapLeft := by
    intro hmem
    rcases mem_append.mp hmem with hmem | hmem
    · exact (hleft.2 _ hmem).2 rfl
    · exact absurd (hgap _ (.inr (.inl hmem))) (by decide)
  have hleftTrim : trim (a ++ '.' :: c ++ q.gapLeft) = a ++ '.' :: c := by
    have htrim := trim_append [] nofun hleft.1
      (by simpa using hleft.head []) (hleft.last []) q.gapLeft
    rw [trimEnd_gap fun x hx => hgap x (.inr (.inl hx)), append_nil] at htrim
    exact htrim
  have hrightTrim : (trim (q.gapRight ++ (a' ++ '.' :: c' ++
      trimEnd q.rest))).takeWhile (!isWhitespace ·) = a' ++ '.' :: c' := by
    rw [trim_append _ (fun x hx => hgap x (.inr (.inr hx))) hright.1
      (by simpa using hright.head []) (hright.last [])]
    exact hright.takeWhile fun x hx =>
      h.blank x (head?_trimEnd (head?_trimEnd hx))
  have hcolumn : ∀ {w : Str} (_ : PlainName w) (alias' : Str),
      trim (lastPart (· == '.') (alias' ++ '.' :: w)) = w ∧
        w.isEmpty = false := by
    intro w hw alias'
    have hsolid : Solid w :=
      ⟨hw.1, fun x hx => ⟨(hw.2 x hx).1, (hw.2 x hx).2.2⟩⟩
    have htrim := trim_append [] nofun hsolid.1 (by simpa using hsolid.head [])
      (hsolid.last []) []
    rw [lastPart_append fun hmem => (hw.2 _ hmem).2.1 rfl]
    exact ⟨by simpa [trimEnd] using htrim, by simpa using hw.1⟩
  rw [parseOnKeys, h.found]
  dsimp only
  rw [hslice]
  simp only [bind, Except.bind, hclause]
  have hequals : splitOnce "=".toList ((a ++ '.' :: c ++ q.gapLeft) ++ '=' ::
      (q.gapRight ++ (a' ++ '.' :: c' ++ trimEnd q.rest))) = some _ :=
    splitOnce_char hsplit _
  rw [hequals]
  simp only [hleftTrim, hrightTrim, (hcolumn hc a).1, (hcolumn hc' a').1,
    (hcolumn hc a).2, (hcolumn hc' a').2]
  rfl

theorem Read.parseOnKeys_ne_none (h : q.Read) :
    parseOnKeys q.text ≠ .ok none := by
  obtain ⟨haliasA, hcolumnA, haliasB, hcolumnB⟩ := h.names
  cases hturned : q.turned with
  | false =>
    rw [parseOnKeys_text h haliasA hcolumnA haliasB hcolumnB
      (by rw [text, hturned]; rfl)]
    nofun
  | true =>
    rw [parseOnKeys_text h haliasB hcolumnB haliasA hcolumnA
      (by rw [text, hturned]; rfl)]
    nofun

theorem Read.joinKeys_iff (h : q.Read) (schemaA schemaB : Schema) :
    joinKeys q.text schemaA schemaB = .ok (some (q.columnA, q.columnB)) ↔
      q.turned = false ∨ q.columnA = q.columnB := by
  obtain ⟨haliasA, hcolumnA, haliasB, hcolumnB⟩ := h.names
  cases hturned : q.turned with
  | false =>
    have hkeys := parseOnKeys_text h haliasA hcolumnA haliasB hcolumnB
      (by rw [text, hturned]; rfl)
    rw [joinKeys, hkeys]
    exact iff_of_true rfl (.inl rfl)
  | true =>
    have hkeys := parseOnKeys_text h haliasB hcolumnB haliasA hcolumnA
      (by rw [text, hturned]; rfl)
    rw [joinKeys, hkeys]
    constructor
    · intro heq
      have hpair : (q.columnB, q.columnA) = (q.columnA, q.columnB) :=
        Option.some.inj (Except.ok.inj heq)
      exact .inr (Prod.mk.inj hpair).2
    · rintro (hfalse | hsame)
      · cases hfalse
      · rw [hsame]
        rfl

/--
The columns of an equality that is read go to their tables exactly when they
are written in the order of the tables, or have one name.  Where no equality
is read, the columns of one name in the two schemas must be those of `ON`.
-/
theorem on_columns_assigned_iff (h : q.Read ∨ parseOnKeys q.text = .ok none)
    (schemaA schemaB : Schema) :
    joinKeys q.text schemaA schemaB = .ok (some (q.columnA, q.columnB)) ↔
      q.Read ∧ (q.turned = false ∨ q.columnA = q.columnB) ∨
        parseOnKeys q.text = .ok none ∧
          findJoinKey schemaA schemaB = some (q.columnA, q.columnB) := by
  rcases h with hread | hnone
  · rw [hread.joinKeys_iff]
    constructor
    · exact fun hkeys => .inl ⟨hread, hkeys⟩
    · rintro (⟨-, hkeys⟩ | ⟨hnone, -⟩)
      · exact hkeys
      · exact absurd hnone hread.parseOnKeys_ne_none
  · have hfallback : joinKeys q.text schemaA schemaB =
        .ok (findJoinKey schemaA schemaB) := by
      rw [joinKeys, hnone]
      rfl
    rw [hfallback, Except.ok.injEq]
    constructor
    · exact fun hkeys => .inr ⟨hnone, hkeys⟩
    · rintro (⟨hread, -⟩ | ⟨-, hkeys⟩)
      · exact absurd hnone hread.parseOnKeys_ne_none
      · exact hkeys

end OnEquality

end Keys

section Sizes

variable {V : Type} [ArrowKernels V] [Unicode] [FloatOps]

/-! ## The side with more rows -/

def readRow (schema : Schema) (row : Row V) (name : Str) : Option (Option V) :=
  (schema.indexOf name).map fun i => row[i]?.join

def readRows (batches : List (RecordBatch V)) :
    List (Str → Option (Option V)) :=
  batches.flatMap fun b => b.rows.map (readRow b.schema)

/-- The pairs of rows of two tables that match, with the columns of the first
in front. -/
def pairRows (query : Str) (eq : V → V → Bool) (schemaA schemaB : Schema)
    (keyB : Str) (a b : JoinTable V) : List (Str → Option (Option V)) :=
  ((matchedRows eq a.key b.key a.fetched b.fetched).filter
    (windowKeeps query (joinedSchema schemaA schemaB keyB))).map
      (readRow (joinedSchema schemaA schemaB keyB))

structure MoreRows (eq : V → V → Bool) (a b a' b' : JoinTable V)
    (extraA extraB : List (Row V)) : Prop where
  rowsA : a'.fetched.Perm (a.fetched ++ extraA)
  rowsB : b'.fetched.Perm (b.fetched ++ extraB)
  loneA : ∀ x ∈ extraA, ∀ y ∈ b'.fetched, matchOn eq a.key b.key x y = false
  loneB : ∀ y ∈ extraB, ∀ x ∈ a'.fetched, matchOn eq a.key b.key x y = false

variable {query : Str} {eq : V → V → Bool} {dsA dsB keyA keyB : Str}
  {schemaA schemaB : Schema} {batchesA batchesB batchesA' batchesB' : List
    (RecordBatch V)}
  {a b a' b' : JoinTable V} {extraA extraB : List (Row V)}

omit [ArrowKernels V] [Unicode] [FloatOps] in
theorem matchOn_comm (hcomm : ∀ v w, eq v w = eq w v) (i j : Nat)
    (x y : Row V) :
    matchOn eq i j x y = matchOn eq j i y x := by
  unfold matchOn
  cases x[i]?.join <;> cases y[j]?.join <;> simp [hcomm]

omit [ArrowKernels V] [Unicode] [FloatOps] in
theorem MoreRows.matched (h : MoreRows eq a b a' b' extraA extraB) :
    (matchedRows eq a.key b.key a'.fetched b'.fetched).Perm
      (matchedRows eq a.key b.key a.fetched b.fetched) := by
  have hloneB : extraB.flatMap (fun y =>
      (a'.fetched.filter (matchOn eq a.key b.key · y)).map
      (· ++ skipColumn b.key y)) = [] := by
    rw [flatMap_eq_nil_iff]
    intro y hy
    rw [map_eq_nil_iff, filter_eq_nil_iff]
    intro x hx
    simp [h.loneB y hy x hx]
  have hrows := h.rowsB.flatMap_right fun y =>
    (a'.fetched.filter (matchOn eq a.key b.key · y)).map
    (· ++ skipColumn b.key y)
  rw [flatMap_append, hloneB, append_nil] at hrows
  refine hrows.trans (List.Perm.flatMap_left _ fun y hy => List.Perm.map _ ?_)
  have hloneA : extraA.filter (matchOn eq a.key b.key · y) = [] := by
    rw [filter_eq_nil_iff]
    intro x hx
    have hy' : y ∈ b'.fetched := h.rowsB.mem_iff.mpr (mem_append_left _ hy)
    simp [h.loneA x hx y hy']
  have hfilter := h.rowsA.filter (matchOn eq a.key b.key · y)
  rwa [filter_append, hloneA, append_nil] at hfilter

omit [ArrowKernels V] [Unicode] [FloatOps] in
theorem MoreRows.symm (hcomm : ∀ v w, eq v w = eq w v)
    (h : MoreRows eq a b a' b' extraA extraB) :
    MoreRows eq b a b' a' extraB extraA where
  rowsA := h.rowsB
  rowsB := h.rowsA
  loneA y hy x hx := by rw [matchOn_comm hcomm, h.loneB y hy x hx]
  loneB x hx y hy := by rw [matchOn_comm hcomm, h.loneA x hx y hy]

omit [ArrowKernels V] [Unicode] [FloatOps] in
theorem readRows_uniform {schema : Schema} {batches : List (RecordBatch V)}
    (h : ∀ b ∈ batches, b.schema = schema) :
    readRows batches = (batches.flatMap (·.rows)).map (readRow schema) := by
  rw [readRows, map_flatMap]
  exact flatMap_congr fun b hb => by rw [h b hb]

private theorem joinAnswers_read
    (hkeys : ∀ v w, eq v w = decide (display v = display w))
    (hon : joinKeys query schemaA schemaB = .ok (some (keyA, keyB)))
    (hA : AnswersTable dsA keyA schemaA batchesA a)
    (hB : AnswersTable dsB keyB schemaB batchesB b) :
    ∃ joined, joinAnswers query ⟨dsA, batchesA⟩ ⟨dsB, batchesB⟩ = .ok joined ∧
      readRows joined = if b.fetched.length ≤ a.fetched.length
        then pairRows query eq schemaA schemaB keyB a b
        else pairRows query eq schemaB schemaA keyA b a := by
  obtain ⟨joined, hjoined, hschema, hrows⟩ := joinAnswers_rows hkeys hA hB hon
  refine ⟨joined, hjoined, ?_⟩
  rw [readRows_uniform hschema, hrows, orderedSchema, joinOrder]
  split <;> rfl

end Sizes

section Window

variable {V : Type} [ArrowKernels V]

/-! ## The time window -/

inductive TimeUnit where
  | second | minute | hour | day
  deriving DecidableEq, Repr

def TimeUnit.text : TimeUnit → Str
  | .second => "second"
  | .minute => "minute"
  | .hour => "hour"
  | .day => "day"

def TimeUnit.secs : TimeUnit → Nat
  | .second => 1
  | .minute => 60
  | .hour => 3600
  | .day => 86400

/-- A query with `a.x BETWEEN b.y - INTERVAL 'n unit' AND b.y + INTERVAL
'n unit'` in the `ON` clause its front ends in. -/
structure WindowQuery where
  front : Str
  timeA : Str
  timeB : Str
  number : Nat
  unit : TimeUnit
  plural : Str
  rest : Str

namespace WindowQuery

variable (q : WindowQuery)

def interval : Str :=
  "INTERVAL '" ++ ofNat q.number ++ " " ++ q.unit.text ++ q.plural ++ "'"

def text : Str :=
  q.front ++ q.timeA ++ " BETWEEN " ++ q.timeB ++ " - " ++ q.interval ++
    " AND " ++ q.timeB ++ " + " ++ q.interval ++ q.rest

def secs : Nat := q.number * q.unit.secs

/-- What is outside of literals behind the ` between ` of the `ON` clause. -/
def boundsText [Unicode] : Option Str := do
  let (_, onClause) ← splitOnce " on " (toLowercase
    (stripStringLiterals q.text))
  let (_, bounds) ← splitOnce " between " onClause
  return bounds

def NoDigits [Unicode] : Prop := (q.boundsText.getD []).any Char.isDigit = false

def holds (i j : Nat) (x y : Row V) : Bool :=
  match x[i]?.join.bind (parseI64 <| display ·),
    y[j]?.join.bind (parseI64 <| display ·) with
  | some s, some t => (s.toInt - t.toInt).natAbs ≤ q.secs
  | _, _ => false

theorem parseTimeWindow_eq_none [Unicode] (h : q.NoDigits) :
    parseTimeWindow q.text = none := by
  rw [Option.eq_none_iff_forall_ne_some]
  intro window hwindow
  obtain ⟨⟨before, onClause⟩, hon, hwindow⟩ :=
    Option.bind_eq_some_iff.mp hwindow
  obtain ⟨⟨left, bounds⟩, hbetween, hwindow⟩ :=
    Option.bind_eq_some_iff.mp hwindow
  have hbounds : q.boundsText = some bounds :=
    Option.bind_eq_some_iff.mpr
      ⟨_, hon, Option.bind_eq_some_iff.mpr ⟨_, hbetween, rfl⟩⟩
  have hdrop : bounds.dropWhile (!Char.isDigit ·) = [] := by
    rw [NoDigits, hbounds, Option.getD_some, any_eq_false] at h
    exact dropWhile_eq_nil_iff.mpr fun c hc => by simp [h c hc]
  have hnone : extractIntervalSecs bounds = none := by
    rw [extractIntervalSecs, hdrop]
    rfl
  simp [hnone] at hwindow

end WindowQuery

def matchedPairs (eq : V → V → Bool) (a b : JoinTable V) :
    List (Row V × Row V) :=
  b.fetched.flatMap fun y =>
    (a.fetched.filter (matchOn eq a.key b.key · y)).map (·, y)

def rowsMeeting (eq : V → V → Bool) (keep : Row V → Row V → Bool)
    (a b : JoinTable V) : List (Row V) :=
  if b.fetched.length ≤ a.fetched.length then
    ((matchedPairs eq a b).filter fun p => keep p.1 p.2).map fun p =>
    p.1 ++ skipColumn b.key p.2
  else ((matchedPairs eq b a).filter fun p => keep p.2 p.1).map fun p =>
    p.1 ++ skipColumn a.key p.2

variable {eq : V → V → Bool} {dsA dsB keyA keyB : Str}
  {schemaA schemaB : Schema}
  {batchesA batchesB : List (RecordBatch V)} {a b : JoinTable V}

omit [ArrowKernels V] in
theorem matchedRows_perm_iff (keep : Row V × Row V → Bool) :
    (matchedRows eq a.key b.key a.fetched b.fetched).Perm
        (((matchedPairs eq a b).filter keep).map fun p =>
          p.1 ++ skipColumn b.key p.2) ↔
      ∀ x ∈ a.fetched, ∀ y ∈ b.fetched, matchOn eq a.key b.key x y = true →
          keep (x, y) = true := by
  have hpairs : matchedRows eq a.key b.key a.fetched b.fetched =
      (matchedPairs eq a b).map fun p => p.1 ++ skipColumn b.key p.2 := by
    simp [matchedRows, matchedPairs, map_flatMap, Function.comp_def]
  have hall : (∀ p ∈ matchedPairs eq a b, keep p = true) ↔
      ∀ x ∈ a.fetched, ∀ y ∈ b.fetched, matchOn eq a.key b.key x y = true →
        keep (x, y) = true := by
    simp only [matchedPairs, mem_flatMap, mem_map, mem_filter]
    constructor
    · intro h x hx y hy hmatch
      exact h (x, y) ⟨y, hy, x, ⟨hx, hmatch⟩, rfl⟩
    · rintro h _ ⟨y, hy, x, ⟨hx, hmatch⟩, rfl⟩
      exact h x hx y hy hmatch
  rw [hpairs, ← hall, ← length_filter_eq_length_iff]
  constructor
  · intro hperm
    simpa using hperm.length_eq.symm
  · intro hlength
    rw [filter_eq_self.mpr (length_filter_eq_length_iff.mp hlength)]

end Window

section Example

attribute [local instance] asciiUnicode integersOnly textCells

/-- `ON u.pid = t.id`, with the table of `t` first in `FROM`. -/
def parentEquality (turned : Bool) : OnEquality where
  front := "SELECT * FROM a.t JOIN b.u"
  on := " ON "
  gap := ""
  aliasA := "t"
  columnA := "id"
  aliasB := "u"
  columnB := "pid"
  turned
  gapLeft := " "
  gapRight := " "
  rest := ""

theorem turned_keys_exchanged :
    (parentEquality true).text = "SELECT * FROM a.t JOIN b.u ON u.pid = t.id" ∧
      joinKeys (parentEquality true).text [] [] =
        .ok (some ("pid".toList, "id".toList)) := by
  decide +kernel

theorem parentEquality_read : (parentEquality false).Read := by
  refine ⟨?_, ?_, ?_, ?_, ?_⟩
  · decide +kernel
  · decide
  · exact all_eq_true.mp (by decide)
  · refine ⟨?_, ?_, ?_, ?_⟩ <;> exact OnEquality.plainName_of_all (by decide)
      (by decide)
  · intro c hc
    cases hc

theorem written_keys_assigned :
    joinKeys (parentEquality false).text [] [] =
      .ok (some ("id".toList, "pid".toList)) :=
  (OnEquality.on_columns_assigned_iff (.inl parentEquality_read) [] []).mpr
    (.inl ⟨parentEquality_read, .inl rfl⟩)

def idBatch (column : Str) (rows : List (Str × Str)) : RecordBatch Str where
  schema := idColumns column
  rows := rows.map fun row => [some row.1, some row.2]
  fits := by
    intro row hrow
    obtain ⟨pair, -, rfl⟩ := mem_map.mp hrow
    rfl

def idTable (ds : Str) (rows : List (Str × Str)) : JoinTable Str where
  fetched := rows.map fun row => [some row.1, some row.2, some ds]
  rest := []
  key := 0
  width := 3
  outer := false

theorem idBatch_answered (ds column : Str) (h : column ≠ "id")
    (rows : List (Str × Str)) :
    AnswersTable ds "id" (idColumns column) [idBatch column rows]
    (idTable ds rows) where
  uniform b hb := by
    rw [mem_singleton.mp hb]
    rfl
  index := rfl
  unique := by
    rw [idColumns, filter_cons_of_neg (by decide),
      filter_cons_of_pos (by simpa using h), filter_nil]
    rfl
  untagged := by decide
  fetched := by simp [idTable, idBatch, tagRow, ofText]
  width := rfl

/-- The `_datasource` cells of a person joined with cities. -/
def datasourceCells (cities : List (Str × Str)) :
    Option (List (Option (Option Str))) :=
  (Except.toOption (joinAnswers peopleWithCity
    ⟨"a", [idBatch "name" [("1", "ann")]]⟩ ⟨"b", [idBatch "city" cities]⟩)).map
      fun joined => (readRows joined).map (· "_datasource")

/-- Five seconds between `ts` and `at`. -/
def fiveSeconds : WindowQuery where
  front := "SELECT * FROM a.t JOIN b.u ON t.id = u.id AND "
  timeA := "t.ts"
  timeB := "u.at"
  number := 5
  unit := .second
  plural := "s"
  rest := ""

end Example

end Fuse.Server
