import Fuse.Foundation.Paging
import Fuse.Server.ColumnSecurity

/-!
# Following `next_cursor`

A cursor is the number of rows before the next page, the `OFFSET` of the query
included; the next request adds the `OFFSET` to it again.  The size of a page
takes the place of the `LIMIT`.  The pages are the rows of the unpaged answer
exactly when neither makes a difference.
-/

namespace Fuse.Server

open Foundation Windows Fuse.Core Engine List

section Policies

variable {V : Type} [ArrowKernels V]

/-! ## The column policies on batches of one schema -/

def visibleFields (engine : PolicyEngine) (user : UserContext)
    (fed : FederatedResult V) (refs : List TableRef) (schema : Schema) :
    List (Nat × Field × FieldPolicy) :=
  keptFields (engine.evaluate (fed.datasources.headD [])
    ((refs.head?.map (·.table)).getD []) user) schema

/-- What the policies make of a row; nothing is shown if they leave no column
or mask one that is not text. -/
def visibleRow (rbac : Option PolicyEngine) (user : UserContext)
    (fed : FederatedResult V)
    (refs : List TableRef) (schema : Schema) : Option (Row V → Row V) :=
  match rbac with
  | none => some id
  | some engine =>
    let kept := visibleFields engine user fed refs schema
    if kept ≠ [] ∧ filteredTypes kept schema =
      Schema.types (kept.map fun (_, f, _) => f) then
      some (filterRow kept)
    else none

def visibleRows (shows : Option (Row V → Row V)) (rows : List (Row V)) :
    List (Row V) :=
  match shows with
  | some f => rows.map f
  | none => []

def filterBatch (kept : List (Nat × Field × FieldPolicy))
    (batch : RecordBatch V) : Fallible (RecordBatch V) :=
  if kept.any fun (i, _, _) => batch.schema.length ≤ i then
    Fallible.panic .indexOutOfBounds
  else
    RecordBatch.tryNew (kept.map fun (_, f, _) => f)
      (filteredTypes kept batch.schema) (batch.rows.map (filterRow kept))

theorem filterBatches_cons (engine : PolicyEngine) (first : RecordBatch V)
    (rest : List (RecordBatch V)) (ds index : Str) (user : UserContext) :
    filterBatches engine (first :: rest) ds index user =
    (first :: rest).mapM (filterBatch
        (keptFields (engine.evaluate ds index user) first.schema)) := rfl

variable {verdict : Str → FieldPolicy}

theorem filterBatch_eq (b : RecordBatch V) :
    filterBatch (keptFields verdict b.schema) b =
      RecordBatch.tryNew ((keptFields verdict b.schema).map fun (_, f, _) => f)
        (filteredTypes (keptFields verdict b.schema) b.schema)
        (b.rows.map (filterRow (keptFields verdict b.schema))) := by
  refine if_neg ?_
  rw [Bool.not_eq_true, any_eq_false]
  rintro ⟨i, f, policy⟩ hmem
  have hfield := (mem_keptFields.mp hmem).1
  simpa using (List.getElem?_eq_some_iff.mp hfield).1

theorem filterBatch_ok (b : RecordBatch V)
    (h : keptFields verdict b.schema ≠ [] ∧
      filteredTypes (keptFields verdict b.schema) b.schema =
        Schema.types ((keptFields verdict b.schema).map fun (_, f, _) => f)) :
    ∃ b', filterBatch (keptFields verdict b.schema) b = .ok b' ∧
      b'.rows = b.rows.map (filterRow (keptFields verdict b.schema)) := by
  rw [filterBatch_eq, h.2]
  refine ⟨_, RecordBatch.tryNew_ok ⟨_, _, ?_⟩ (by simpa using h.1), rfl⟩
  intro row hrow
  obtain ⟨before, hbefore, rfl⟩ := mem_map.mp hrow
  exact rowFits_filterRow (b.fits before hbefore)

theorem filterBatch_error (b : RecordBatch V)
    (h : ¬ (keptFields verdict b.schema ≠ [] ∧
      filteredTypes (keptFields verdict b.schema)
      b.schema = Schema.types ((keptFields verdict b.schema).map
        fun (_, f, _) => f))) :
    ∃ e, filterBatch (keptFields verdict b.schema) b = .error (.error e) := by
  rw [filterBatch_eq]
  unfold RecordBatch.tryNew
  split
  · exact ⟨_, rfl⟩
  split
  · exact ⟨_, rfl⟩
  split
  · exact ⟨_, rfl⟩
  · next hschema _ htypes =>
      exact absurd ⟨by simpa using hschema, not_not.mp htypes⟩ h

variable {batches : List (RecordBatch V)}

omit [ArrowKernels V] in
private theorem mapM_rows {step : RecordBatch V → Fallible (RecordBatch V)}
    {f : Row V → Row V}
    (h : ∀ b ∈ batches, ∃ b', step b = .ok b' ∧ b'.rows = b.rows.map f) :
    ∃ shown, batches.mapM step = .ok shown ∧
      shown.flatMap (·.rows) = (batches.flatMap (·.rows)).map f := by
  induction batches with
  | nil => exact ⟨[], rfl, rfl⟩
  | cons b batches ih =>
    obtain ⟨b', hb', hrows⟩ := h b mem_cons_self
    obtain ⟨shown, hshown, hrest⟩ := ih fun c hc => h c (mem_cons_of_mem b hc)
    refine ⟨b' :: shown, ?_, ?_⟩
    · rw [mapM_cons, hb', hshown]
      rfl
    · rw [flatMap_cons, flatMap_cons, map_append, hrest, hrows]

theorem applyColumnRbac_same (rbac : Option PolicyEngine) (user : UserContext)
    (fed : FederatedResult V) (refs : List TableRef) {schema : Schema}
    (hsame : ∀ b ∈ batches, b.schema = schema) :
    ∃ shown, applyColumnRbac rbac user fed refs batches = .ok shown ∧
    shown.flatMap (·.rows) = visibleRows (visibleRow rbac user fed refs schema)
        (batches.flatMap (·.rows)) := by
  cases rbac with
  | none => exact ⟨batches, rfl, (map_id _).symm⟩
  | some engine =>
    cases batches with
    | nil =>
      refine ⟨[], rfl, ?_⟩
      unfold visibleRows
      split <;> rfl
    | cons first rest =>
      have hfirst := hsame first mem_cons_self
      unfold applyColumnRbac visibleRow
      dsimp only
      rw [filterBatches_cons, hfirst]
      change ∃ shown, Fallible.orElse (List.mapM (filterBatch
        (visibleFields engine user fed refs schema)) _) _ = .ok shown ∧ _
      split
      · rename_i hshows
        have hall : ∀ b ∈ first :: rest, ∃ b',
            filterBatch (visibleFields engine user fed refs schema) b = .ok b' ∧
              b'.rows = b.rows.map
              (filterRow (visibleFields engine user fed refs schema)) := by
          intro b hb
          have hb := hsame b hb
          subst hb
          exact filterBatch_ok b hshows
        obtain ⟨shown, hshown, hrows⟩ := mapM_rows hall
        exact ⟨shown, by rw [hshown]; rfl, hrows⟩
      · rename_i hhides
        obtain ⟨e, he⟩ : ∃ e, filterBatch
          (visibleFields engine user fed refs schema) first = .error
            (.error e) := by
          subst hfirst
          exact filterBatch_error first hhides
        refine ⟨[], ?_, rfl⟩
        rw [mapM_cons, he]
        rfl

end Policies

/-! ## Cursors -/

theorem decodeCursor_encodeCursor {n : Nat} (h : n < 2 ^ 64) :
    decodeCursor (encodeCursor n) = some n := by
  have hstrip : Str.stripStart "fuse_c_" (encodeCursor n) =
      some (Str.ofNat n) :=
    dropPrefix?_eq_some_iff.mpr ⟨"fuse_c_".toList, rfl, by simp⟩
  rw [decodeCursor, hstrip, Option.bind_some, Str.parseUnsigned_ofNat h]

section Pages

variable {V : Type}

def Page.rows (page : Page V) : List (Row V) := page.batches.flatMap (·.rows)

/-- The pages a client gets by following `next_cursor` until there is none. -/
inductive Follows (ask : PageRequest → Fallible (Page V)) (size : Nat) :
    Option Str → List (Page V) → Prop
  | last {cursor : Option Str} {page : Page V}
    (hpage : ask { cursor, pageSize := some size } =
      .ok page) (hend : page.nextCursor = none) : Follows ask size cursor [page]
  | next {cursor : Option Str} {page : Page V} {c : Str} {pages : List (Page V)}
      (hpage : ask { cursor, pageSize := some size } = .ok page)
        (hnext : page.nextCursor = some c)
      (hrest : Follows ask size (some c) pages) :
        Follows ask size cursor (page :: pages)

def Enumerates (ask : PageRequest → Fallible (Page V)) (size : Nat) : Prop :=
  ∃ pages whole, Follows ask size none pages ∧ ask {} = .ok whole ∧
    pages.flatMap Page.rows = whole.rows

variable {size : Nat} {cursor : Option Str}

theorem Follows.unique {ask : PageRequest → Fallible (Page V)}
    {a b : List (Page V)}
    (ha : Follows ask size cursor a) (hb : Follows ask size cursor b) :
    a = b := by
  induction ha generalizing b with
  | last hpage hend =>
    cases hb with
    | last hpage' _ => cases hpage.symm.trans hpage'; rfl
    | next hpage' hnext _ =>
      cases hpage.symm.trans hpage'
      rw [hend] at hnext
      cases hnext
  | next hpage hnext _ ih =>
    cases hb with
    | last hpage' hend =>
      cases hpage.symm.trans hpage'
      rw [hend] at hnext
      cases hnext
    | next hpage' hnext' hrest' =>
      cases hpage.symm.trans hpage'
      cases hnext.symm.trans hnext'
      rw [ih hrest']

variable [ArrowKernels V]

structure Paged (V : Type) where
  rbac : Option PolicyEngine
  user : UserContext
  clauses : PlanClauses
  fed : FederatedResult V
  refs : List TableRef
  shaped : List (RecordBatch V)
  schema : Schema

def Paged.ask (q : Paged V) (page : PageRequest) : Fallible (Page V) :=
  finishPage q.rbac q.user q.clauses page q.fed q.refs q.shaped

def Paged.rows (q : Paged V) : List (Row V) := q.shaped.flatMap (·.rows)

def Paged.shows (q : Paged V) : Option (Row V → Row V) :=
  visibleRow q.rbac q.user q.fed q.refs q.schema

structure Paged.Sound (q : Paged V) : Prop where
  columns : q.schema ≠ []
  same : ∀ b ∈ q.shaped, b.schema = q.schema
  offset : q.clauses.offset < 2 ^ 64
  rows : q.clauses.offset < q.rows.length →
    q.clauses.offset + q.rows.length ≤ 2 ^ 64

variable {q : Paged V}

theorem Paged.ask_eq (h : q.Sound) (page : PageRequest) :
    ∃ answer, q.ask page = .ok answer ∧
    answer.rows = visibleRows q.shows (limited
        (effectivePageSize q.clauses page)
        (q.rows.drop (effectiveOffset q.clauses page))) ∧
      answer.nextCursor = if (effectivePageSize q.clauses page).isSome &&
            effectiveOffset q.clauses page + answer.rows.length <
              q.rows.length then
          some (encodeCursor (effectiveOffset q.clauses page +
            answer.rows.length))
        else none := by
  obtain ⟨window, hwindow, hsame, hrows⟩ := takeWindow_same h.columns h.same
    (effectiveOffset q.clauses page) (effectivePageSize q.clauses page)
  obtain ⟨shown, hshown, hvisible⟩ :=
    applyColumnRbac_same q.rbac q.user q.fed q.refs hsame
  have htotal : ∀ batches : List (RecordBatch V),
      totalRows batches = (batches.flatMap (·.rows)).length := by
    intro batches
    rw [length_flatMap]
    rfl
  have hanswer : q.ask page = .ok ⟨shown,
      if (effectivePageSize q.clauses page).isSome &&
          effectiveOffset q.clauses page +
            (shown.flatMap (·.rows)).length < q.rows.length then
        some (encodeCursor (effectiveOffset q.clauses page +
          (shown.flatMap (·.rows)).length))
      else none⟩ := by
    unfold Paged.ask finishPage
    simp only [bind, Except.bind, hwindow, hshown, htotal]
    rfl
  exact ⟨_, hanswer, hvisible.trans (congrArg _ hrows), rfl⟩

theorem Paged.ask_page (h : q.Sound) {s : Nat}
    (hs : effectiveOffset q.clauses { cursor, pageSize := some size } = s) :
    ∃ answer, q.ask { cursor, pageSize := some size } = .ok answer ∧
      answer.rows = visibleRows q.shows (window s size q.rows) ∧
      answer.nextCursor = if s + answer.rows.length < q.rows.length then
          some (encodeCursor (s + answer.rows.length))
        else none := by
  obtain ⟨answer, hanswer, hrows, hnext⟩ :=
    Paged.ask_eq h { cursor, pageSize := some size }
  rw [hs] at hrows hnext
  refine ⟨answer, hanswer, hrows, ?_⟩
  rw [hnext]
  simp [effectivePageSize]

/-! ## Policies that show something -/

theorem Paged.follows (h : q.Sound) {f : Row V → Row V}
    (hshows : q.shows = some f)
    (hsize : 0 < size) {fuel s : Nat} (hfuel : q.rows.length < s + fuel)
    (hbase : q.clauses.offset ≤ s)
    (hs : effectiveOffset q.clauses { cursor, pageSize := some size } = s) :
    ∃ pages, Follows q.ask size cursor pages ∧ pages.flatMap Page.rows =
        (Paging.visited q.clauses.offset size q.rows fuel s).map f := by
  induction fuel generalizing s cursor with
  | zero =>
    obtain ⟨answer, hanswer, hrows, hnext⟩ := Paged.ask_page h hs
    have hempty : window s size q.rows = [] := window_eq_nil (.inr (by omega))
    rw [hshows, hempty] at hrows
    refine ⟨[answer], .last hanswer ?_, ?_⟩
    · rw [hnext, if_neg (by omega)]
    · rw [flatMap_singleton, hrows]
      rfl
  | succ fuel ih =>
    obtain ⟨answer, hanswer, hrows, hnext⟩ := Paged.ask_page h hs
    rw [hshows] at hrows
    have hlength : answer.rows.length = min size (q.rows.length - s) := by
      rw [hrows, visibleRows, length_map, window, length_take, length_drop]
    rw [Paging.visited, map_append]
    by_cases hmore : s + size < q.rows.length
    · have hfits := h.rows (by omega)
      rw [if_pos hmore]
      have hcursor : answer.nextCursor = some (encodeCursor (s + size)) := by
        rw [hnext, if_pos (by omega), hlength]
        congr 3
        omega
      have hstart : effectiveOffset q.clauses
          { cursor := some (encodeCursor (s + size)),
            pageSize := some size } = q.clauses.offset + s + size := by
        unfold effectiveOffset
        rw [Option.bind_some, decodeCursor_encodeCursor (by omega),
          Option.getD_some, ← Nat.add_assoc, Nat.mod_eq_of_lt (by omega)]
      obtain ⟨pages, hpages, hpagesRows⟩ := ih (by omega) (by omega) hstart
      refine ⟨answer :: pages, .next hanswer hcursor hpages, ?_⟩
      rw [flatMap_cons, hpagesRows, hrows]
      rfl
    · rw [if_neg hmore]
      refine ⟨[answer], .last hanswer ?_, ?_⟩
      · rw [hnext, if_neg (by omega)]
      · rw [flatMap_singleton, hrows, map_nil, append_nil]
        rfl

omit [ArrowKernels V] in
theorem Paged.first_offset (h : q.Sound) (pageSize : Option Nat) :
    effectiveOffset q.clauses { cursor := none, pageSize } = q.clauses.offset :=
  Nat.mod_eq_of_lt h.offset

/-! ## Policies that show nothing -/

theorem Paged.follows_hidden (h : q.Sound) (hshows : q.shows = none)
    (hpos : 0 < q.clauses.offset)
    {fuel s : Nat} (hfuel : q.rows.length < s + fuel)
    (hbase : q.clauses.offset ≤ s)
    (hs : effectiveOffset q.clauses { cursor, pageSize := some size } = s) :
    ∃ pages, Follows q.ask size cursor pages ∧
    pages.flatMap Page.rows = [] := by
  induction fuel generalizing s cursor with
  | zero =>
    obtain ⟨answer, hanswer, hrows, hnext⟩ := Paged.ask_page h hs
    rw [hshows, visibleRows] at hrows
    refine ⟨[answer], .last hanswer ?_, by simpa using hrows⟩
    rw [hnext, if_neg (by omega)]
  | succ fuel ih =>
    obtain ⟨answer, hanswer, hrows, hnext⟩ := Paged.ask_page h hs
    rw [hshows, visibleRows] at hrows
    rw [hrows, length_nil, Nat.add_zero] at hnext
    by_cases hmore : s < q.rows.length
    · have hfits := h.rows (by omega)
      rw [if_pos hmore] at hnext
      have hstart : effectiveOffset q.clauses
          { cursor := some (encodeCursor s), pageSize := some size } =
            q.clauses.offset + s := by
        unfold effectiveOffset
        rw [Option.bind_some, decodeCursor_encodeCursor (by omega),
          Option.getD_some, Nat.mod_eq_of_lt (by omega)]
      obtain ⟨pages, hpages, hempty⟩ := ih (by omega) (by omega) hstart
      exact ⟨answer :: pages, .next hanswer hnext hpages,
        by rw [flatMap_cons, hrows, hempty]; rfl⟩
    · rw [if_neg hmore] at hnext
      exact ⟨[answer], .last hanswer hnext, by simpa using hrows⟩

theorem Paged.not_follows (h : q.Sound) (hshows : q.shows = none)
    (hzero : q.clauses.offset = 0) (hrows : 0 < q.rows.length)
    (hcursor : (cursor.bind decodeCursor).getD 0 = 0)
    {pages : List (Page V)} : ¬ Follows q.ask size cursor pages := by
  intro hfollows
  have hs : ∀ {cursor : Option Str}, (cursor.bind decodeCursor).getD 0 = 0 →
      effectiveOffset q.clauses { cursor, pageSize := some size } = 0 := by
    intro cursor hcursor
    simp [effectiveOffset, hzero, hcursor]
  induction hfollows with
  | last hpage hend =>
    obtain ⟨answer, hanswer, hempty, hnext⟩ := Paged.ask_page h (hs hcursor)
    cases hpage.symm.trans hanswer
    rw [hshows, visibleRows] at hempty
    rw [hempty, length_nil, Nat.add_zero, if_pos hrows, hend] at hnext
    cases hnext
  | next hpage hnext _ ih =>
    obtain ⟨answer, hanswer, hempty, hnext'⟩ := Paged.ask_page h (hs hcursor)
    cases hpage.symm.trans hanswer
    rw [hshows, visibleRows] at hempty
    rw [hempty, length_nil, Nat.add_zero, if_pos hrows, hnext] at hnext'
    cases hnext'
    apply ih
    rw [Option.bind_some, decodeCursor_encodeCursor (by decide),
      Option.getD_some]

/-! ## When the pages are the answer -/

/-- `OFFSET` is zero or one page is enough, and `LIMIT` cuts nothing off; or
the second page is behind the end and `LIMIT` is the size of a page.  If the
policies show nothing, there is an `OFFSET` or no row. -/
def Paged.Complete (q : Paged V) (size : Nat) : Prop :=
  if q.shows.isSome then
    Paging.Covers q.clauses.limit q.clauses.offset size q.rows.length
  else 0 < q.clauses.offset ∨ q.rows = []

theorem Paged.enumerates_shown (h : q.Sound) {f : Row V → Row V}
    (hshows : q.shows = some f) (hsize : 0 < size) : Enumerates q.ask size ↔
      (Paging.visited q.clauses.offset size q.rows
        (q.rows.length + 1) q.clauses.offset).map f =
          (limited q.clauses.limit (q.rows.drop q.clauses.offset)).map f := by
  have hfuel : q.rows.length < q.clauses.offset +
    (q.rows.length + 1) := by omega
  obtain ⟨pages, hpages, hrows⟩ := Paged.follows h hshows hsize hfuel
    (le_refl _) (Paged.first_offset h (some size))
  obtain ⟨whole, hwhole, hwholeRows, -⟩ := Paged.ask_eq h {}
  rw [Paged.first_offset h, hshows] at hwholeRows
  constructor
  · rintro ⟨pages', whole', hpages', hwhole', heq⟩
    cases hpages.unique hpages'
    cases hwhole.symm.trans hwhole'
    rw [← hrows, heq, hwholeRows]
    rfl
  · intro heq
    refine ⟨pages, whole, hpages, hwhole, ?_⟩
    rw [hrows, heq, hwholeRows]
    rfl

theorem Paged.enumerates_hidden (h : q.Sound) (hshows : q.shows = none)
    (size : Nat) :
    Enumerates q.ask size ↔ 0 < q.clauses.offset ∨ q.rows = [] := by
  constructor
  · rintro ⟨pages, -, hpages, -⟩
    by_contra hnot
    rw [not_or, Nat.not_lt, Nat.le_zero] at hnot
    exact Paged.not_follows h hshows hnot.1 (length_pos_iff.mpr hnot.2)
      rfl hpages
  · intro hcase
    obtain ⟨whole, hwhole, hwholeRows, -⟩ := Paged.ask_eq h {}
    rw [hshows] at hwholeRows
    obtain ⟨pages, hpages, hrows⟩ : ∃ pages,
        Follows q.ask size none pages ∧ pages.flatMap Page.rows = [] := by
      rcases hcase with hpos | hnil
      · have hfuel : q.rows.length < q.clauses.offset +
          (q.rows.length + 1) := by omega
        exact Paged.follows_hidden h hshows hpos hfuel (le_refl _)
          (Paged.first_offset h (some size))
      obtain ⟨answer, hanswer, hempty, hnext⟩ :=
        Paged.ask_page h (Paged.first_offset h (some size))
      rw [hshows, visibleRows] at hempty
      refine ⟨[answer], .last hanswer ?_, by simpa using hempty⟩
      rw [hnext, hnil, if_neg (by simp)]
    exact ⟨pages, whole, hpages, hwhole, hrows.trans hwholeRows.symm⟩

/--
Following the cursors of a query from its first page on enumerates the unpaged
answer if its clauses and its length allow it; and only if, when all rows that
are shown differ.
-/
theorem cursor_enumerates_iff {q : Paged V} (h : q.Sound) {size : Nat}
    (hsize : 0 < size) :
    (q.Complete size → Enumerates q.ask size) ∧
      ((visibleRows q.shows q.rows).Nodup → Enumerates q.ask size →
        q.Complete size) := by
  unfold Paged.Complete
  cases hshows : q.shows with
  | none =>
    have hiff := Paged.enumerates_hidden h hshows size
    exact ⟨hiff.mpr, fun _ => hiff.mp⟩
  | some f =>
    have hiff := Paged.enumerates_shown h hshows hsize
    refine ⟨fun hcovers => hiff.mpr ?_, fun hnodup henumerates => ?_⟩
    · rw [Paging.visited_eq_of_covers hsize q.rows (Nat.lt_succ_self _) hcovers]
    · have heq := hiff.mp henumerates
      rw [← Paging.visited_map, ← Windows.limited_map, map_drop] at heq
      have hlength : (visibleRows (some f) q.rows).length = q.rows.length :=
        length_map _
      have hcovers := (Paging.visited_eq_iff hsize hnodup
        (hlength ▸ Nat.lt_succ_self _) q.clauses.limit).mp heq
      rwa [hlength] at hcovers

end Pages

section Example

attribute [local instance] textCells

def threeRowResult (limit : Option Nat) (offset : Nat) : Paged Str where
  rbac := none
  user := ⟨[], []⟩
  clauses := { orderBy := [], limit, isDistinct := false, offset }
  fed := ⟨[], ["a"], []⟩
  refs := [⟨"a", "t"⟩]
  shaped := ["1", "2", "3"].map fun n : String => oneCell "n" n.toList
  schema := (oneCell "n" "").schema

theorem threeRowResult_sound (limit : Option Nat) {offset : Nat}
    (h : offset < 3) : (threeRowResult limit offset).Sound where
  columns := cons_ne_nil _ _
  same := by
    intro b hb
    obtain ⟨n, -, rfl⟩ := mem_map.mp hb
    rfl
  offset := by
    change offset < _
    omega
  rows _ := by
    change offset + 3 ≤ _
    omega

/-- With `OFFSET 1` the second page starts behind the third row, and with
`LIMIT 1` the pages go on behind the first. -/
theorem cursor_skips_and_overruns : ¬ Enumerates (threeRowResult none 1).ask 1 ∧
      ¬ Enumerates (threeRowResult (some 1) 0).ask 1 := by
  constructor
  · rw [Paged.enumerates_shown (threeRowResult_sound none (by decide))
      rfl (by decide)]
    decide
  · rw [Paged.enumerates_shown (threeRowResult_sound (some 1) (by decide))
      rfl (by decide)]
    decide

theorem cursor_enumerates_three_rows :
    Enumerates (threeRowResult none 0).ask 2 :=
  (cursor_enumerates_iff (threeRowResult_sound none (by decide)) (by decide)).1
      (.inl ⟨.inl rfl, by
      intro l hl
      cases hl⟩)

end Example

end Fuse.Server
