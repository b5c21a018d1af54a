import Fuse.Foundation.Cuts
import Fuse.Server.Handler
import Fuse.Server.RefreshScheduler

/-!
# Incremental refreshes

A view over a source that only grows, by rows with larger and larger
watermarks.  The scheduler appends the rows above the watermark of the view; a
`REFRESH` statement replaces all rows and leaves the watermark as it is.  The
runs are watched: what the source holds, how many of its rows a refresh in
flight has read and how many the refreshes that are complete.
-/

namespace Fuse.Server

open Foundation Fuse.Core Engine List

section Watched

variable {V : Type} [ArrowKernels V]

/-! ## The view and its source -/

structure WatermarkedView where
  name : Str
  query : Str
  column : Str
  refreshInterval : Nat
  schema : Schema
  index : Nat
  indexed : schema.indexOf column = some index
  text : schema[index]?.map (·.dataType) = some .utf8

def WatermarkedView.definition (W : WatermarkedView) : MaterializedViewDef where
  name := W.name
  query := W.query
  refreshInterval := W.refreshInterval
  refreshMode := .incremental W.column

def WatermarkedView.mark (W : WatermarkedView) (row : Row V) : Str :=
  (row[W.index]?.join.map ArrowKernels.display).getD []

def WatermarkedView.Marked (W : WatermarkedView) (row : Row V) : Prop :=
  row[W.index]?.join.isSome = true

/-- The batches the source gives for a text: all rows for the query of the
view, and those above a watermark for the query with that condition. -/
structure WatermarkedView.Answers (W : WatermarkedView)
    (source : List (Row V)) (text : Str) (batches : List (RecordBatch V)) :
    Prop where
  schema : ∀ b ∈ batches, b.schema = W.schema
  all : text = W.query → (batches.flatMap (·.rows)).Perm source
  since : ∀ m, text = sinceQuery W.query W.column m →
    (batches.flatMap (·.rows)).Perm (source.filter fun row =>
      decide (m < W.mark row))

variable {W : WatermarkedView}

theorem length_sinceQuery_gt (query column m : Str) :
    query.length < (sinceQuery query column m).length := by
  have hspace : 0 < (" WHERE " : Str).length := by decide
  simp only [sinceQuery, length_append]
  omega

variable {source : List (Row V)} {batches : List (RecordBatch V)}
  {result : Except Str (List (RecordBatch V))} {snap : RefreshSnapshot}

theorem WatermarkedView.answers_all
    (hschema : ∀ b ∈ batches, b.schema = W.schema)
    (hrows : (batches.flatMap (·.rows)).Perm source) :
    W.Answers source W.query batches where
  schema := hschema
  all _ := hrows
  since m hm := absurd (congrArg List.length hm)
    (length_sinceQuery_gt W.query W.column m).ne

theorem WatermarkedView.answers_since {m : Str}
    (hschema : ∀ b ∈ batches, b.schema = W.schema)
    (hrows : (batches.flatMap (·.rows)).Perm
      (source.filter fun row => decide (m < W.mark row))) :
    W.Answers source (sinceQuery W.query W.column m) batches where
  schema := hschema
  all hall := absurd (congrArg List.length hall)
    (length_sinceQuery_gt W.query W.column m).ne'
  since m' hm' := by
    obtain rfl : m = m' := by simpa [sinceQuery] using hm'
    exact hrows

theorem textColumn_eq {b : RecordBatch V} (h : b.schema = W.schema) :
    textColumn W.column b = some (b.rows.map fun row => row[W.index]?.join.map
        ArrowKernels.display) := by
  obtain ⟨field, hfield, htype⟩ := Option.map_eq_some_iff.mp W.text
  simp only [textColumn, h, W.indexed, hfield, htype, bind, Option.bind,
    if_true]
  rfl

theorem extractMaxWatermark_eq (h : ∀ b ∈ batches, b.schema = W.schema)
    (hmarked : ∀ row ∈ batches.flatMap (·.rows), W.Marked row) :
    extractMaxWatermark batches W.column =
      ((batches.flatMap (·.rows)).map W.mark).max? := by
  have hcolumns : batches.mapM _ = some _ :=
    (mapM_congr_mem fun b hb => textColumn_eq (h b hb)).trans mapM_pure
  have hmark : ∀ row ∈ batches.flatMap (·.rows),
      row[W.index]?.join.map ArrowKernels.display = some (W.mark row) := by
    intro row hrow
    obtain ⟨v, hv⟩ := Option.isSome_iff_exists.mp (hmarked row hrow)
    rw [WatermarkedView.mark, hv]
    rfl
  have hmarks : ((batches.map fun b => b.rows.map fun row =>
      row[W.index]?.join.map ArrowKernels.display).flatten.filterMap id) =
      (batches.flatMap (·.rows)).map W.mark := by
    rw [← flatMap_def, ← map_flatMap, filterMap_map, ← filterMap_eq_map]
    exact filterMap_congr hmark
  simp only [extractMaxWatermark, hcolumns, bind, Option.bind]
  rw [hmarks]

/-! ## Watched runs -/

structure Watched (V : Type) where
  views : ViewsState V
  source : List (Row V)
  jobRead : Nat := 0
  statementRead : Nat → Nat := fun _ => 0
  seen : Nat := 0

inductive WatchedEvent (V : Type) where
  | append (rows : List (Row V))
  | view (e : ViewEvent V)

namespace Watched

def seenAfter (name : Str) (w : Watched V) : ViewEvent V → Nat
  | .apply =>
    match w.views.job with
    | some ⟨snap, some (.ok _)⟩ =>
      if snap.name = name then max w.seen w.jobRead else w.seen
    | _ => w.seen
  | .statementApply id =>
    match w.views.statements.lookup id with
    | some ⟨viewed, _, _, some (.ok _)⟩ =>
      if viewed = name then max w.seen (w.statementRead id) else w.seen
    | _ => w.seen
  | _ => w.seen

def step (name : Str) : WatchedEvent V → Watched V → Watched V
  | .append rows, w => { w with source := w.source ++ rows }
  | .view e, w =>
    { w with
      views := w.views.step e
      jobRead := match e, w.views.job with
        | .execute _, some ⟨_, none⟩ => w.source.length
        | _, _ => w.jobRead
      statementRead := match e with
        | .statementExecute id _ =>
          if ((w.views.statements.lookup id).bind (·.result)).isNone then
            Function.update w.statementRead id w.source.length
          else w.statementRead
        | _ => w.statementRead
      seen := w.seenAfter name e }

theorem step_apply (name : Str) (w : Watched V) :
    w.step name (.view .apply) =
      { w with views := w.views.applyJob, seen := w.seenAfter name .apply } :=
  rfl

theorem step_statementExecute (name : Str) (w : Watched V) (id : Nat)
    (result : Except Str (List (RecordBatch V))) :
    w.step name (.view (.statementExecute id result)) =
      { w with
        views := w.views.executeStatement id result
        statementRead :=
          if ((w.views.statements.lookup id).bind (·.result)).isNone then
            Function.update w.statementRead id w.source.length
          else w.statementRead } :=
  rfl

theorem step_statementApply (name : Str) (w : Watched V) (id : Nat) :
    w.step name (.view (.statementApply id)) =
      { w with
        views := w.views.finishStatement id
        seen := w.seenAfter name (.statementApply id) } :=
  rfl

def Complete (name : Str) (w : Watched V) : Prop :=
  ∃ entry, w.views.views.get name = some entry ∧
    (entry.view.batches.flatMap (·.rows)).Perm (w.source.take w.seen)

def JobHasRead (name : Str) (w : Watched V) : Prop :=
  ∃ job result, w.views.job = some job ∧ job.snapshot.name = name ∧
    job.result = some result

def StatementHasRead (name : Str) (w : Watched V) (id : Nat) : Prop :=
  ∃ st result, w.views.statements.lookup id = some st ∧ st.name = name ∧
    st.result = some result

end Watched

open Watched

variable (W)

/-- The source grows by rows with larger watermarks and answers for the rows
it has, or fails; the view is neither replaced nor removed. -/
def SourceStep (w : Watched V) : WatchedEvent V → Prop
  | .append rows =>
    ∀ row ∈ rows, W.Marked row ∧ ∀ old ∈ w.source, W.mark old < W.mark row
  | .view (.execute (.ok batches)) =>
    ∀ job, w.views.job = some job → job.snapshot.name = W.name →
      W.Answers w.source job.snapshot.effectiveQuery batches
  | .view (.statementExecute id (.ok batches)) =>
    ∀ st, w.views.statements.lookup id = some st →
      st.name = W.name → W.Answers w.source st.query batches
  | .view (.register _) | .view (.remove _) => False
  | .view _ => True

/-- A refresh reads while no other one has a result to apply, and a statement
only if the source has no row above the watermark of the view. -/
def ReadsAlone (w : Watched V) : WatchedEvent V → Prop
  | .view (.execute _) => ∀ job, w.views.job = some job →
      job.snapshot.name = W.name → ∀ id, ¬ w.StatementHasRead W.name id
  | .view (.statementExecute id _) =>
    ∀ st, w.views.statements.lookup id = some st →
      st.name = W.name → ¬ w.JobHasRead W.name ∧
      (∀ id, ¬ w.StatementHasRead W.name id) ∧ ∀ entry m,
      w.views.views.get W.name = some entry → entry.view.watermark = some m →
      ∀ row ∈ w.source, W.mark row ≤ m
  | _ => True

/-! ## What every step keeps -/

structure ReadSynced (source : List (Row V)) (seen read : Nat) (text : Str)
    (result : Except Str (List (RecordBatch V))) : Prop where
  cut : IsCut W.mark source read
  later : seen ≤ read
  answers : ∀ batches, result = .ok batches →
    W.Answers (source.take read) text batches

structure JobSynced (source : List (Row V)) (seen read : Nat)
    (view : MaterializedView V) (job : RefreshJob V) : Prop where
  snapshot : job.snapshot = .ofView W.name view
  synced : ∀ result, job.result = some result →
    ReadSynced W source seen read job.snapshot.effectiveQuery result

structure StatementSynced (source : List (Row V)) (seen read number : Nat)
    (watermark : Option Str) (st : StatementRefresh V) : Prop where
  cell : st.cell = number
  query : st.query = W.query
  synced : ∀ result, st.result = some result →
    ReadSynced W source seen read W.query result
  same : ∀ result, st.result = some result → watermark.isSome = true →
    read = seen

structure Synced (w : Watched V) (entry : ViewEntry V) : Prop where
  registered : w.views.views.get W.name = some entry
  definition : entry.view.definition = W.definition
  marked : ∀ row ∈ w.source, W.Marked row
  cut : IsCut W.mark w.source w.seen
  rows : (entry.view.batches.flatMap (·.rows)).Perm (w.source.take w.seen)
  mark : ∀ m, entry.view.watermark = some m →
    IsMark W.mark w.source m w.seen ∧ ∃ row ∈ w.source, W.mark row = m
  job : ∀ job, w.views.job = some job → job.snapshot.name = W.name →
    JobSynced W w.source w.seen w.jobRead entry.view job
  statement : ∀ id st, w.views.statements.lookup id = some st →
    st.name = W.name →
      StatementSynced W w.source w.seen
      (w.statementRead id) entry.cell entry.view.watermark st
  alone : ∀ id, w.StatementHasRead W.name id → ¬ w.JobHasRead W.name ∧
    ∀ other, w.StatementHasRead W.name other → other = id

variable {W} {w : Watched V} {entry : ViewEntry V}

variable {rows : List (Row V)} {id cell : Nat} {name query : Str}
  {views : MaterializedViewRegistry V}

theorem ReadSynced.append {seen read : Nat} {text : Str}
    (h : ReadSynced W source seen read text result)
    (hnew : ∀ row ∈ rows, ∀ old ∈ source, W.mark old < W.mark row) :
    ReadSynced W (source ++ rows) seen read text result where
  cut := h.cut.append hnew
  later := h.later
  answers batches hok := by
    have hanswers := h.answers batches hok
    rwa [← take_append_of_le_length h.cut.le] at hanswers

theorem Synced.append (hs : Synced W w entry)
    (h : SourceStep W w (.append rows)) :
    Synced W { w with source := w.source ++ rows } entry where
  registered := hs.registered
  definition := hs.definition
  marked row hrow := by
    rcases mem_append.mp hrow with hrow | hrow
    · exact hs.marked row hrow
    · exact (h row hrow).1
  cut := hs.cut.append fun row hrow => (h row hrow).2
  rows := by
    rw [take_append_of_le_length hs.cut.le]
    exact hs.rows
  mark m hm := by
    obtain ⟨hmark, row, hrow, rfl⟩ := hs.mark m hm
    exact ⟨hmark.append hs.cut.le fun new hnew => (h new hnew).2 row hrow,
      row, mem_append_left rows hrow, rfl⟩
  job job hjob hname := by
    obtain ⟨hsnapshot, hread⟩ := hs.job job hjob hname
    exact ⟨hsnapshot, fun result hresult =>
      (hread result hresult).append fun row hrow => (h row hrow).2⟩
  statement id st hst hname := by
    obtain ⟨hcell, hquery, hread, hsame⟩ := hs.statement id st hst hname
    exact ⟨hcell, hquery, fun result hresult =>
      (hread result hresult).append fun row hrow => (h row hrow).2, hsame⟩
  alone := hs.alone

theorem Synced.alone_mono {w' : Watched V} (hs : Synced W w entry)
    (hjob : w'.JobHasRead W.name → w.JobHasRead W.name)
    (hread : ∀ id, w'.StatementHasRead W.name id → w.StatementHasRead W.name id)
    (id : Nat) (hid : w'.StatementHasRead W.name id) :
    ¬ w'.JobHasRead W.name ∧ ∀ other, w'.StatementHasRead W.name other →
    other = id := by
  obtain ⟨halone, hunique⟩ := hs.alone id (hread id hid)
  exact ⟨fun h => halone (hjob h), fun other h => hunique other (hread other h)⟩

/-! ## The steps of the scheduler -/

theorem Synced.poll {stale : List Str} (hs : Synced W w entry) :
    Synced W (w.step W.name (.view (.poll stale))) entry := by
  unfold step ViewsState.step
  dsimp only [seenAfter]
  split
  · exact { hs with }
  · exact hs

theorem Synced.snapshot (hs : Synced W w entry) :
    Synced W (w.step W.name (.view .snapshot)) entry := by
  unfold step ViewsState.step ViewsState.takeSnapshot
  dsimp only [seenAfter]
  split
  · rename_i name queue _ _
    have hunread : ∀ job, ((w.views.views.get name).map fun entry =>
        ({ snapshot := .ofView name entry.view } : RefreshJob V)) =
          some job → job.result = none := by
      intro job hjob
      obtain ⟨found, -, rfl⟩ := Option.map_eq_some_iff.mp hjob
      rfl
    refine { hs with job := ?_, alone := hs.alone_mono ?_ fun _ h => h }
    · intro job hjob hname
      refine ⟨?_, fun result hresult => ?_⟩
      · obtain ⟨found, hfound, rfl⟩ := Option.map_eq_some_iff.mp hjob
        change name = W.name at hname
        subst hname
        rw [hs.registered] at hfound
        cases hfound
        rfl
      · rw [hunread job hjob] at hresult
        cases hresult
    · rintro ⟨job, result, hjob, -, hresult⟩
      rw [hunread job hjob] at hresult
      cases hresult
  · exact hs

theorem Synced.execute (hs : Synced W w entry)
    (hsource : SourceStep W w (.view (.execute result)))
    (halone : ReadsAlone W w (.view (.execute result))) :
    Synced W (w.step W.name (.view (.execute result))) entry := by
  unfold step ViewsState.step ViewsState.executeJob
  dsimp only [seenAfter]
  cases hjob : w.views.job with
  | none => exact { hs with }
  | some job =>
    obtain ⟨snap, found⟩ := job
    cases found with
    | some old => exact { hs with }
    | none =>
      refine { hs with job := ?_, alone := ?_ }
      · intro job heq hname
        cases heq
        refine ⟨(hs.job _ hjob hname).snapshot, fun read hread => ?_⟩
        cases hread
        refine ⟨isCut_length, hs.cut.le, fun batches hok => ?_⟩
        subst hok
        rw [take_length]
        exact hsource ⟨snap, none⟩ hjob hname
      · intro id hid
        refine ⟨?_, (hs.alone id hid).2⟩
        rintro ⟨job, read, heq, hname, -⟩
        cases heq
        exact halone _ hjob hname id hid

theorem isMark_of_rows {source rows : List (Row V)} {read : Nat} {m : Str}
    (hcut : IsCut W.mark source read) (hrows : rows.Perm (source.take read))
    (hm : (rows.map W.mark).max? = some m) :
    IsMark W.mark source m read ∧ ∃ row ∈ source, W.mark row = m := by
  obtain ⟨hmem, hle⟩ := max?_eq_some_iff.mp hm
  have hmap := hrows.map W.mark
  have hmax : ((source.take read).map W.mark).max? = some m :=
    max?_eq_some_iff.mpr ⟨hmap.mem_iff.mp hmem, fun b hb =>
      hle b (hmap.mem_iff.mpr hb)⟩
  obtain ⟨row, hrow, hrowMark⟩ := mem_map.mp (hmap.mem_iff.mp hmem)
  exact ⟨hcut.isMark hmax, row, mem_of_mem_take hrow, hrowMark⟩

section Applied

variable (W) in
structure HoldsRead (source : List (Row V)) (seen : Nat)
    (view : MaterializedView V) : Prop where
  rows : (view.batches.flatMap (·.rows)).Perm (source.take seen)
  mark : ∀ m, view.watermark = some m → IsMark W.mark source m seen ∧
    ∃ row ∈ source, W.mark row = m

variable {source : List (Row V)} {seen read : Nat} {view : MaterializedView V}
  {batches : List (RecordBatch V)} (now : Nat)

omit [ArrowKernels V] in
theorem incremental_of_definition
    (hdefinition : view.definition = W.definition) :
    view.isIncremental = true ∧ view.watermarkColumn = some W.column := by
  rw [MaterializedView.isIncremental, MaterializedView.watermarkColumn,
    hdefinition]
  exact ⟨rfl, rfl⟩

variable (hdefinition : view.definition = W.definition)
  (hmarked : ∀ row ∈ source, W.Marked row)
  (h : ReadSynced W source seen read
    (RefreshSnapshot.ofView W.name view).effectiveQuery (.ok batches))

include hdefinition hmarked h

theorem applyRefresh_first (hnone : view.watermark = none) :
    HoldsRead W source read (applyRefresh now (.ofView W.name view)
      (.ok batches) view) := by
  obtain ⟨hincremental, hcolumn⟩ := incremental_of_definition hdefinition
  have hquery : (RefreshSnapshot.ofView W.name view).effectiveQuery =
      W.query := by
    simp only [RefreshSnapshot.effectiveQuery, RefreshSnapshot.ofView,
      hincremental, hcolumn, hnone, if_true, hdefinition]
    rfl
  have hrows := (h.answers batches rfl).all hquery
  have hbatchMarked : ∀ row ∈ batches.flatMap (·.rows), W.Marked row :=
    fun row hrow => hmarked row (mem_of_mem_take (hrows.mem_iff.mp hrow))
  have happlied : applyRefresh now (.ofView W.name view) (.ok batches) view =
      { view.setResults now batches with
        watermark := extractMaxWatermark batches W.column } := by
    simp [applyRefresh, RefreshSnapshot.ofView, hincremental, hcolumn, hnone]
  rw [happlied]
  refine ⟨hrows, fun m hm => ?_⟩
  rw [extractMaxWatermark_eq (h.answers batches rfl).schema hbatchMarked] at hm
  exact isMark_of_rows h.cut hrows hm

theorem applyRefresh_since {m₀ : Str} (hsome : view.watermark = some m₀)
    (hview : HoldsRead W source seen view) :
    HoldsRead W source read (applyRefresh now (.ofView W.name view)
      (.ok batches) view) := by
  have hmark := hview.mark m₀ hsome
  obtain ⟨hincremental, hcolumn⟩ := incremental_of_definition hdefinition
  have hquery : (RefreshSnapshot.ofView W.name view).effectiveQuery =
      sinceQuery W.query W.column m₀ := by
    simp only [RefreshSnapshot.effectiveQuery, RefreshSnapshot.ofView,
      hincremental, hcolumn, hsome, if_true, hdefinition]
    rfl
  have hnew : (batches.flatMap (·.rows)).Perm
      ((source.take read).drop seen) := by
    have hanswer := (h.answers batches rfl).since m₀ hquery
    rwa [hmark.1.filter_take read fun row => decide_eq_true_iff] at hanswer
  have hbatchMarked : ∀ row ∈ batches.flatMap (·.rows), W.Marked row :=
    fun row hrow => hmarked row
      (mem_of_mem_take (mem_of_mem_drop (hnew.mem_iff.mp hrow)))
  have hsplit : source.take seen ++ (source.take read).drop seen =
      source.take read := by
    conv_rhs => rw [← take_append_drop seen (source.take read)]
    rw [take_take, Nat.min_eq_left h.later]
  have happlied : applyRefresh now (.ofView W.name view) (.ok batches) view =
      view.appendResults now batches
      (extractMaxWatermark batches W.column) := by
    simp [applyRefresh, RefreshSnapshot.ofView, hincremental, hcolumn, hsome]
  have hall : ((view.batches ++ batches).flatMap (·.rows)).Perm
      (source.take read) := by
    rw [flatMap_append, ← hsplit]
    exact hview.rows.append hnew
  rw [happlied]
  refine ⟨hall, fun m hm => ?_⟩
  change (extractMaxWatermark batches W.column).or view.watermark = some m at hm
  rw [extractMaxWatermark_eq (h.answers batches rfl).schema hbatchMarked, hsome]
    at hm
  cases hmax : ((batches.flatMap (·.rows)).map W.mark).max? with
  | none =>
    rw [hmax] at hm
    cases hm
    have hempty : (source.take read).drop seen = [] := by
      rw [max?_eq_none_iff, map_eq_nil_iff] at hmax
      exact (hmax ▸ hnew).symm.eq_nil
    exact ⟨hmark.1.mono h.later hempty, hmark.2⟩
  | some top =>
    rw [hmax] at hm
    cases hm
    obtain ⟨hmem, hle⟩ := max?_eq_some_iff.mp hmax
    have htop : m₀ < m := by
      obtain ⟨row, hrow, rfl⟩ := mem_map.mp hmem
      have hdrop := hnew.mem_iff.mp hrow
      rw [drop_take] at hdrop
      exact hmark.1.above row (mem_of_mem_take hdrop)
    refine isMark_of_rows h.cut hall (max?_eq_some_iff.mpr ⟨?_, ?_⟩)
    · rw [flatMap_append, map_append]
      exact mem_append_right _ hmem
    · intro b hb
      rw [flatMap_append, map_append] at hb
      rcases mem_append.mp hb with hb | hb
      · obtain ⟨row, hrow, rfl⟩ := mem_map.mp hb
        exact (hmark.1.below row (hview.rows.mem_iff.mp hrow)).trans htop.le
      · exact hle b hb

theorem applyRefresh_holdsRead (hview : HoldsRead W source seen view) :
    HoldsRead W source read (applyRefresh now (.ofView W.name view)
      (.ok batches) view) := by
  cases hwatermark : view.watermark with
  | none => exact applyRefresh_first now hdefinition hmarked h hwatermark
  | some m₀ =>
    exact applyRefresh_since now hdefinition hmarked h hwatermark hview

end Applied

theorem Synced.applyOther (hs : Synced W w entry)
    (hjob : w.views.job = some ⟨snap, some result⟩)
    (hname : snap.name ≠ W.name) :
    Synced W (w.step W.name (.view .apply)) entry := by
  have hseen : w.seenAfter W.name .apply = w.seen := by
    cases result <;> simp [seenAfter, hjob, hname]
  rw [step_apply, hseen, ViewsState.applyJob_eq hjob]
  refine { hs with
    registered := ?_
    job := fun _ hnone => by cases hnone
    alone := hs.alone_mono ?_ fun _ h => h }
  · simp [MaterializedViewRegistry.get_write, hs.registered, hname.symm]
  · rintro ⟨job, read, hnone, -⟩
    cases hnone

theorem Synced.unread_statement (hs : Synced W w entry)
    (hjob : w.views.job = some ⟨snap, some result⟩) (hname : snap.name = W.name)
    (id : Nat) : ¬ w.StatementHasRead W.name id :=
  fun hid => (hs.alone id hid).1 ⟨_, result, hjob, hname, rfl⟩

theorem Synced.applyFailed {message : Str} (hs : Synced W w entry)
    (hjob : w.views.job = some ⟨snap, some (.error message)⟩)
    (hname : snap.name = W.name) : Synced W (w.step W.name (.view .apply))
      { entry with view := entry.view.setError message } := by
  have hseen : w.seenAfter W.name .apply = w.seen := by simp [seenAfter, hjob]
  rw [step_apply, hseen, ViewsState.applyJob_eq hjob]
  refine { hs with
    registered := ?_
    job := fun _ hnone => by cases hnone
    alone := fun id hid => (hs.unread_statement hjob hname id hid).elim }
  simp only [MaterializedViewRegistry.get_write, hs.registered, Option.map_some,
    hname, if_true]
  rfl

theorem Synced.applyRead (hs : Synced W w entry)
    (hjob : w.views.job = some ⟨snap, some (.ok batches)⟩)
    (hname : snap.name = W.name) : Synced W (w.step W.name (.view .apply))
      { entry with
        view := applyRefresh w.views.clock snap (.ok batches) entry.view } := by
  obtain ⟨hsnapshot, hsynced⟩ := hs.job _ hjob hname
  change snap = _ at hsnapshot
  have hread := hsynced _ rfl
  have hseen : w.seenAfter W.name .apply = w.jobRead := by
    simp only [seenAfter, hjob, hname, if_true]
    exact Nat.max_eq_right hread.later
  rw [step_apply, hseen, ViewsState.applyJob_eq hjob]
  subst hsnapshot
  obtain ⟨hrows, hmark⟩ := applyRefresh_holdsRead w.views.clock
    hs.definition hs.marked hread ⟨hs.rows, hs.mark⟩
  have hunread := hs.unread_statement hjob hname
  refine ⟨?_, ?_, hs.marked, hread.cut, hrows, hmark, fun _ hnone =>
    (by cases hnone),
    fun id st hst hstName => ?_, fun id hid => (hunread id hid).elim⟩
  · simp [MaterializedViewRegistry.get_write, hs.registered,
      RefreshSnapshot.ofView]
  · rw [applyRefresh_definition]
    exact hs.definition
  · obtain ⟨hcell, hquery, -, -⟩ := hs.statement id st hst hstName
    exact ⟨hcell, hquery,
      fun result hresult =>
        (hunread id ⟨st, result, hst, hstName, hresult⟩).elim,
      fun result hresult =>
        (hunread id ⟨st, result, hst, hstName, hresult⟩).elim⟩

theorem Synced.apply (hs : Synced W w entry) :
    ∃ entry', Synced W (w.step W.name (.view .apply)) entry' := by
  by_cases hread : ∃ snap result, w.views.job = some ⟨snap, some result⟩
  · obtain ⟨snap, result, hjob⟩ := hread
    by_cases hname : snap.name = W.name
    · cases result with
      | error message => exact ⟨_, hs.applyFailed hjob hname⟩
      | ok batches => exact ⟨_, hs.applyRead hjob hname⟩
    · exact ⟨entry, hs.applyOther hjob hname⟩
  · have hstate : w.step W.name (.view .apply) = w := by
      rcases hjob : w.views.job with _ | ⟨snap, _ | result⟩
      · simp [step_apply, ViewsState.applyJob, seenAfter, hjob]
      · simp [step_apply, ViewsState.applyJob, seenAfter, hjob]
      · exact (hread ⟨snap, result, hjob⟩).elim
    rw [hstate]
    exact ⟨entry, hs⟩

/-! ## The steps of a statement -/

theorem Synced.statementBegin {id : Nat} {name : Str} (hs : Synced W w entry) :
    Synced W (w.step W.name (.view (.statementBegin id name))) entry := by
  unfold step ViewsState.step ViewsState.beginStatement
  dsimp only [seenAfter]
  split
  · rename_i found hfree hfound
    refine { hs with statement := ?_, alone := hs.alone_mono (fun h => h) ?_ }
    · intro other st hst hname
      rcases lookup_of_insert hst with ⟨rfl, rfl⟩ | ⟨-, hst⟩
      · change name = W.name at hname
        subst hname
        rw [hs.registered] at hfound
        cases hfound
        refine ⟨rfl, ?_, fun _ hnone => (by cases hnone), fun _ hnone =>
          (by cases hnone)⟩
        change entry.view.definition.query = W.query
        rw [hs.definition]
        rfl
      · exact hs.statement other st hst hname
    · rintro other ⟨st, result, hst, hname, hresult⟩
      rcases lookup_of_insert hst with ⟨-, rfl⟩ | ⟨-, hst⟩
      · cases hresult
      · exact ⟨st, result, hst, hname, hresult⟩
  · exact hs

/-- A statement that reads: it has the rows the source has, and these are the
rows of the view where the view has a watermark. -/
theorem Synced.statementRead (hs : Synced W w entry)
    (hst : w.views.statements.lookup id = some ⟨name, cell, query, none⟩)
    (hsource : SourceStep W w (.view (.statementExecute id result)))
    (halone : ReadsAlone W w (.view (.statementExecute id result))) :
    Synced W (w.step W.name (.view (.statementExecute id result))) entry := by
  have hviews : w.views.executeStatement id result =
      { w.views with
        statements := w.views.statements.insert id
          { name, cell, query, result := some result } } := by
    simp [ViewsState.executeStatement, hst]
  rw [step_statementExecute, hviews, hst]
  refine { hs with statement := ?_, alone := ?_ }
  · intro other st hother hname
    rcases lookup_of_insert hother with ⟨rfl, rfl⟩ | ⟨hid, hother⟩
    · obtain ⟨hcell, hquery, -, -⟩ := hs.statement _ _ hst hname
      refine ⟨hcell, hquery, fun read hread => ?_, fun read hread hmark => ?_⟩
      · cases hread
        simp only [Option.bind_some, Option.isNone_none, if_true,
          Function.update_self]
        refine ⟨isCut_length, hs.cut.le, fun batches hok => ?_⟩
        subst hok
        rw [take_length, ← hquery]
        exact hsource _ hst hname
      · simp only [Option.bind_some, Option.isNone_none, if_true,
          Function.update_self]
        obtain ⟨m, hm⟩ := Option.isSome_iff_exists.mp hmark
        exact (hs.mark m hm).1.length_eq hs.cut.le
          ((halone _ hst hname).2.2 entry m hs.registered hm)
    · simp only [Option.bind_some, Option.isNone_none, if_true,
        Function.update_of_ne hid]
      exact hs.statement other st hother hname
  · have hothers : ∀ other, Watched.StatementHasRead W.name
        { w with views := { w.views with
          statements := w.views.statements.insert id
            { name, cell, query, result := some result } } } other →
        other = id ∧ name = W.name ∨ w.StatementHasRead W.name other := by
      rintro other ⟨st, read, hother, hname, hread⟩
      rcases lookup_of_insert hother with ⟨rfl, rfl⟩ | ⟨-, hother⟩
      · exact Or.inl ⟨rfl, hname⟩
      · exact Or.inr ⟨st, read, hother, hname, hread⟩
    by_cases hname : name = W.name
    · -- no other result is waiting, so the one that reads now is the only one
      obtain ⟨hjob, hunread, -⟩ := halone _ hst hname
      have hself : ∀ other', Watched.StatementHasRead W.name _ other' →
          other' = id := fun other' h' =>
        (hothers other' h').elim (·.1) fun h => (hunread other' h).elim
      intro other hother
      rw [hself other hother]
      exact ⟨hjob, hself⟩
    · exact hs.alone_mono (fun h => h) fun other h =>
        (hothers other h).elim (fun h => (hname h.2).elim) fun h => h

theorem Synced.statementExecute {id : Nat} (hs : Synced W w entry)
    (hsource : SourceStep W w (.view (.statementExecute id result)))
    (halone : ReadsAlone W w (.view (.statementExecute id result))) :
    Synced W (w.step W.name (.view (.statementExecute id result))) entry := by
  cases hst : w.views.statements.lookup id with
  | none =>
    have hviews : w.views.executeStatement id result = w.views := by
      simp [ViewsState.executeStatement, hst]
    rw [step_statementExecute, hviews]
    refine { hs with statement := fun other st hother hname => ?_ }
    have hid : other ≠ id := by
      rintro rfl
      cases hst.symm.trans hother
    rw [hst]
    simp only [Option.bind_none, Option.isNone_none, if_true,
      Function.update_of_ne hid]
    exact hs.statement other st hother hname
  | some st =>
    obtain ⟨name, cell, query, found⟩ := st
    cases found with
    | none => exact hs.statementRead hst hsource halone
    | some old =>
      have hviews : w.views.executeStatement id result = w.views := by
        simp [ViewsState.executeStatement, hst]
      rw [step_statementExecute, hviews, hst]
      exact hs

def Watched.settle (w : Watched V) (id : Nat)
    (views : MaterializedViewRegistry V) (seen : Nat) : Watched V :=
  { w with
    views := { w.views with
      statements := w.views.statements.erase id, views }
    seen }

omit [ArrowKernels V] in
theorem statementHasRead_settle {id other seen : Nat}
    (h : (w.settle id views seen).StatementHasRead W.name other) :
    other ≠ id ∧ w.StatementHasRead W.name other := by
  obtain ⟨st, result, hst, hname, hresult⟩ := h
  obtain ⟨hid, hold⟩ := lookup_of_erase hst
  exact ⟨hid, st, result, hold, hname, hresult⟩

theorem Synced.finishOther (hs : Synced W w entry)
    (hst : w.views.statements.lookup id = some ⟨name, cell, query, some result⟩)
    (hname : name ≠ W.name) :
    Synced W (w.step W.name (.view (.statementApply id))) entry := by
  have hseen : w.seenAfter W.name (.statementApply id) = w.seen := by
    cases result <;> simp [seenAfter, hst, hname]
  rw [step_statementApply, hseen, ViewsState.finishStatement_eq hst]
  refine { hs with
    registered := ?_
    statement := fun other st hother =>
      hs.statement other st (lookup_of_erase hother).2
    alone := hs.alone_mono (fun h => h) fun _ h =>
      (statementHasRead_settle h).2 }
  simp [MaterializedViewRegistry.get_writeCell, hs.registered, hname.symm]

theorem Synced.finishFailed {name query message : Str} (hs : Synced W w entry)
    (hst : w.views.statements.lookup id =
      some ⟨name, cell, query, some (.error message)⟩) (hname : name = W.name) :
    Synced W (w.step W.name (.view (.statementApply id)))
      { entry with view := entry.view.setError message } := by
  have hseen : w.seenAfter W.name (.statementApply id) = w.seen := by
    simp [seenAfter, hst]
  have hcell := (hs.statement _ _ hst hname).cell
  rw [step_statementApply, hseen, ViewsState.finishStatement_eq hst]
  refine { hs with
    registered := ?_
    job := fun job hjob hjobName => { hs.job job hjob hjobName with }
    statement := fun other st hother =>
      hs.statement other st (lookup_of_erase hother).2
    alone := hs.alone_mono (fun h => h) fun _ h =>
      (statementHasRead_settle h).2 }
  simp only [MaterializedViewRegistry.get_writeCell, hs.registered,
    Option.map_some, hname, hcell.symm, and_self, if_true]
  rfl

theorem Synced.finishRead (hs : Synced W w entry)
    (hst : w.views.statements.lookup id =
      some ⟨name, cell, query, some (.ok batches)⟩) (hname : name = W.name) :
    Synced W (w.step W.name (.view (.statementApply id)))
      { entry with view := entry.view.setResults w.views.clock batches } := by
  obtain ⟨hcell, -, hsynced, hsame⟩ := hs.statement _ _ hst hname
  have hread := hsynced _ rfl
  have hseen : w.seenAfter W.name (.statementApply id) =
      w.statementRead id := by
    simp only [seenAfter, hst, hname, if_true]
    exact Nat.max_eq_right hread.later
  obtain ⟨hjob, hunique⟩ := hs.alone id ⟨_, _, hst, hname, rfl⟩
  have hunread : ∀ other st result, (w.views.statements.erase id).lookup other =
    some st →
      st.name = W.name → st.result ≠ some result := by
    intro other st result hother hstName hresult
    obtain ⟨hid, hold⟩ := lookup_of_erase hother
    exact hid (hunique other ⟨st, result, hold, hstName, hresult⟩)
  rw [step_statementApply, hseen, ViewsState.finishStatement_eq hst]
  refine ⟨?_, hs.definition, hs.marked, hread.cut,
      (hread.answers batches rfl).all rfl, fun m hm =>
    ?_, fun job hjob' hjobName => ?_, fun other st hother hstName => ?_,
    fun other hother => ?_⟩
  · simp only [MaterializedViewRegistry.get_writeCell, hs.registered,
      Option.map_some, hname, ← hcell, and_self, if_true]
    rfl
  · have hmark := hs.mark m hm
    rwa [← hsame _ rfl (Option.isSome_iff_exists.mpr ⟨m, hm⟩)] at hmark
  · refine ⟨(hs.job job hjob' hjobName).snapshot, fun result hresult => ?_⟩
    exact (hjob ⟨job, result, hjob', hjobName, hresult⟩).elim
  · obtain ⟨hotherCell, hotherQuery, -, -⟩ :=
      hs.statement other st (lookup_of_erase hother).2 hstName
    exact ⟨hotherCell, hotherQuery,
      fun result hresult =>
        (hunread other st result hother hstName hresult).elim,
      fun result hresult =>
        (hunread other st result hother hstName hresult).elim⟩
  · obtain ⟨hid, hold⟩ := statementHasRead_settle hother
    exact (hid (hunique other hold)).elim

theorem Synced.statementApply {id : Nat} (hs : Synced W w entry) :
    ∃ entry', Synced W (w.step W.name (.view (.statementApply id))) entry' := by
  by_cases hread : ∃ name cell query result,
      w.views.statements.lookup id = some ⟨name, cell, query, some result⟩
  · obtain ⟨name, cell, query, result, hst⟩ := hread
    by_cases hname : name = W.name
    · cases result with
      | error message => exact ⟨_, hs.finishFailed hst hname⟩
      | ok batches => exact ⟨_, hs.finishRead hst hname⟩
    · exact ⟨entry, hs.finishOther hst hname⟩
  · have hstate : w.step W.name (.view (.statementApply id)) = w := by
      rcases hst : w.views.statements.lookup id with
        _ | ⟨name, cell, query, _ | result⟩
      · simp [step_statementApply, ViewsState.finishStatement, seenAfter, hst]
      · simp [step_statementApply, ViewsState.finishStatement, seenAfter, hst]
      · exact (hread ⟨name, cell, query, result, hst⟩).elim
    rw [hstate]
    exact ⟨entry, hs⟩

/-! ## Runs -/

theorem Synced.step {e : WatchedEvent V} (hs : Synced W w entry)
    (hsource : SourceStep W w e) (halone : ReadsAlone W w e) : ∃ entry',
    Synced W (w.step W.name e) entry' := by
  cases e with
  | append rows => exact ⟨entry, hs.append hsource⟩
  | view e =>
    cases e with
    | tick d => exact ⟨entry, { hs with }⟩
    | register definition | remove name => exact hsource.elim
    | poll stale => exact ⟨entry, hs.poll⟩
    | snapshot => exact ⟨entry, hs.snapshot⟩
    | execute result => exact ⟨entry, hs.execute hsource halone⟩
    | apply => exact hs.apply
    | statementBegin id name => exact ⟨entry, hs.statementBegin⟩
    | statementExecute id result =>
      exact ⟨entry, hs.statementExecute hsource halone⟩
    | statementApply id => exact hs.statementApply

variable (W) in
def Watched.registered (source : List (Row V)) : Watched V where
  views := ViewsState.step (.register W.definition) {}
  source

theorem synced_registered (hmarked : ∀ row ∈ source, W.Marked row) :
    Synced W (registered W source) ⟨0, { definition := W.definition }⟩ where
  registered := by simp [registered, ViewsState.step,
    WatermarkedView.definition]
  definition := rfl
  marked := hmarked
  cut := isCut_zero
  rows := List.Perm.nil
  mark _ hm := by cases hm
  job _ hjob := by cases hjob
  statement _ _ hst := by cases hst
  alone _ hread := by
    obtain ⟨_, _, hst, -⟩ := hread
    cases hst

/-- Nothing is lost or duplicated in runs where the refreshes of the view read
alone, and statements only what the view already has. -/
theorem incremental_refresh_complete (W : WatermarkedView)
    (source : List (Row V))
    (events : List (WatchedEvent V)) (hmarked : ∀ row ∈ source, W.Marked row)
    (h : EveryStep (step W.name) (fun w e => SourceStep W w e ∧
      ReadsAlone W w e)
      (registered W source) events) :
    (runSteps (step W.name) (registered W source) events).Complete W.name := by
  have hinv := EveryStep.inv_runSteps (I := fun w => ∃ entry, Synced W w entry)
    (fun w e hw he => hw.elim fun entry hs => hs.step he.1 he.2)
    ⟨_, synced_registered hmarked⟩ h
  obtain ⟨entry, hs⟩ := hinv
  exact ⟨entry, hs.registered, hs.rows⟩

end Watched

section Example

attribute [local instance] textCells

def logView : WatermarkedView where
  name := "v"
  query := "SELECT * FROM s.log"
  column := "at"
  refreshInterval := 0
  schema := [{ name := "at", dataType := .utf8, nullable := true }]
  index := 0
  indexed := by decide
  text := rfl

def logRows (stamps : List String) : List (Row Str) :=
  stamps.map fun stamp => [some stamp.toList]

def logBatch (stamps : List String) : RecordBatch Str where
  schema := logView.schema
  rows := logRows stamps
  fits := by simp [logRows, rowFits, logView]

def schedulerLoad (stamps : List String) : List (WatchedEvent Str) :=
  [.view (.tick 1), .view (.poll ["v".toList]), .view .snapshot,
    .view (.execute (.ok [logBatch stamps])), .view .apply]

def statementLoad (stamps : List String) : List (WatchedEvent Str) :=
  [.view (.statementBegin 0 "v"),
    .view (.statementExecute 0 (.ok [logBatch stamps])),
    .view (.statementApply 0)]

/-- The first row is loaded, the second is read by the scheduler and then by a
statement. -/
def statementLast : List (WatchedEvent Str) :=
  schedulerLoad ["1"] ++ [.append (logRows ["2"])] ++ schedulerLoad ["2"] ++
    statementLoad ["1", "2"]

def statementFirst : List (WatchedEvent Str) :=
  schedulerLoad ["1"] ++ [.append (logRows ["2"])] ++
    statementLoad ["1", "2"] ++ schedulerLoad ["2"]

theorem logView_schema (stamps : List String) :
    ∀ b ∈ [logBatch stamps], b.schema = logView.schema := by
  intro b hb
  rw [mem_singleton.mp hb]
  rfl

theorem log_answers_all (stamps : List String) :
    logView.Answers (logRows stamps) logView.query [logBatch stamps] :=
  WatermarkedView.answers_all (logView_schema stamps) (by simp [logBatch])

theorem log_answers_since : logView.Answers (logRows ["1", "2"])
      (sinceQuery logView.query logView.column "1") [logBatch ["2"]] :=
  WatermarkedView.answers_since (logView_schema ["2"]) (by decide +kernel)

theorem log_appended : ∀ row ∈ logRows ["2"], logView.Marked row ∧
    ∀ old ∈ logRows ["1"], logView.mark old < logView.mark row := by
  simp only [logRows, map_cons, map_nil, forall_mem_singleton]
  exact ⟨rfl, by decide +kernel⟩

/-- A `REFRESH` statement reads the new row, and the scheduler again. -/
theorem statement_refresh_duplicates_row :
    EveryStep (Watched.step logView.name) (SourceStep logView)
        (Watched.registered logView (logRows ["1"])) statementFirst ∧
      ¬ (runSteps (Watched.step logView.name)
        (Watched.registered logView (logRows ["1"]))
        statementFirst).Complete logView.name := by
  refine ⟨⟨trivial, trivial, trivial, ?_, trivial, log_appended, trivial, ?_,
    trivial, trivial, trivial, trivial, ?_, trivial, trivial⟩, ?_⟩
  · intro job hjob _
    cases hjob
    exact log_answers_all ["1"]
  · intro st hst _
    cases hst
    exact log_answers_all ["1", "2"]
  · intro job hjob _
    cases hjob
    exact log_answers_since
  · rintro ⟨entry, hentry, hrows⟩
    have hthree : ((runSteps (Watched.step logView.name)
        (Watched.registered logView (logRows ["1"]))
        statementFirst).views.views.get logView.name).map
          (fun entry => (entry.view.batches.flatMap (·.rows)).length) =
            some 3 := by decide +kernel
    rw [hentry] at hthree
    have htwo : ((runSteps (Watched.step logView.name)
        (Watched.registered logView (logRows ["1"])) statementFirst).source.take
        (runSteps (Watched.step logView.name)
          (Watched.registered logView (logRows ["1"]))
          statementFirst).seen).length = 2 := by decide +kernel
    have hlength := hrows.length_eq
    rw [htwo] at hlength
    cases hlength.symm.trans (Option.some.inj hthree)

theorem incremental_refresh_complete_statement_last :
    (runSteps (Watched.step logView.name)
      (Watched.registered logView (logRows ["1"]))
      statementLast).Complete logView.name := by
  refine incremental_refresh_complete logView (logRows ["1"]) statementLast ?_
    ⟨⟨trivial, trivial⟩,
    ⟨trivial, trivial⟩, ⟨trivial, trivial⟩, ⟨?_, ?_⟩, ⟨trivial, trivial⟩,
    ⟨log_appended, trivial⟩,
    ⟨trivial, trivial⟩, ⟨trivial, trivial⟩, ⟨trivial, trivial⟩, ⟨?_, ?_⟩,
    ⟨trivial, trivial⟩,
    ⟨trivial, trivial⟩, ⟨?_, ?_⟩, ⟨trivial, trivial⟩, trivial⟩
  · simp [logRows, WatermarkedView.Marked, logView]
  · intro job hjob _
    cases hjob
    exact log_answers_all ["1"]
  · rintro job - - id ⟨st, result, hst, -⟩
    cases hst
  · intro job hjob _
    cases hjob
    exact log_answers_since
  · rintro job - - id ⟨st, result, hst, -⟩
    cases hst
  · intro st hst _
    cases hst
    exact log_answers_all ["1", "2"]
  · intro st hst _
    refine ⟨?_, ?_, ?_⟩
    · rintro ⟨job, result, hjob, -⟩
      cases hjob
    · rintro id ⟨st, result, hst, -, hresult⟩
      change ((∅ : AList fun _ : Nat => StatementRefresh Str).insert 0 _).lookup
        id = some st at hst
      rcases lookup_of_insert hst with ⟨-, rfl⟩ | ⟨-, hst⟩
      · cases hresult
      · cases hst
    · intro entry m hentry hm
      cases hentry
      cases hm
      decide +kernel

end Example

end Fuse.Server
