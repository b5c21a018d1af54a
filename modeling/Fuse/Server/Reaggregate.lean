import Fuse.Server.Distinct
import Mathlib.Algebra.Order.Ring.Int

/-!
# Adding up partial aggregates

A grouped query over several sources is answered by each source with one row
for each of its groups, and `reaggregate_batches` adds up the rows of one key,
whatever the aggregates are.  The result has one row for each key with the sum
of the partial values; for `COUNT` and `SUM` that is the value over all rows.
-/

namespace Fuse.Server

open Foundation Fuse.Core Engine Grouping List

section Groups

variable {V : Type} [ArrowKernels V]

/-! ## The groups of the second aggregation -/

def keyTexts (columns : List Nat) (row : Row V) : List Str :=
  columns.map fun i => cellText row[i]?.join

structure GroupsOf (columns : List Nat) (rows : List (Row V))
    (groups : List (Group V)) : Prop where
  distinct : (groups.map (·.key)).Nodup
  keys : ∀ k, k ∈ groups.map (·.key) ↔ k ∈ rows.map (keyTexts columns)
  rows : ∀ g ∈ groups, g.rows = groupOf (keyTexts columns) g.key rows

variable {groups : List (Group V)}

omit [ArrowKernels V] in
theorem addToGroup_new {key : List Str} (h : key ∉ groups.map (·.key))
    (row : Row V) : addToGroup key row groups = groups ++ [⟨key, [row]⟩] := by
  induction groups with
  | nil => rfl
  | cons g groups ih =>
    simp only [map_cons, mem_cons, not_or] at h
    rw [addToGroup, if_neg (Ne.symm h.1), ih h.2]
    rfl

omit [ArrowKernels V] in
theorem addToGroup_known {key : List Str}
    (hdistinct : (groups.map (·.key)).Nodup)
    (h : key ∈ groups.map (·.key)) (row : Row V) :
    addToGroup key row groups = groups.map fun g =>
      if g.key = key then { g with rows := g.rows ++ [row] } else g := by
  induction groups with
  | nil => cases h
  | cons g groups ih =>
    rw [map_cons, nodup_cons] at hdistinct
    rw [addToGroup, map_cons]
    by_cases hg : g.key = key
    · -- the key stands in no other group
      rw [if_pos hg, if_pos hg]
      congr 1
      refine ((map_congr_left fun g' hg' => ?_).trans (map_id _)).symm
      have : g'.key ≠ key := fun heq =>
        hdistinct.1 (hg ▸ heq ▸ mem_map_of_mem hg')
      simp [this]
    · rw [if_neg hg, if_neg hg, ih hdistinct.2]
      rcases mem_cons.mp h with heq | h
      · exact absurd heq.symm hg
      · exact h

theorem groupOf_append_singleton (columns : List Nat) (k : List Str)
    (rows : List (Row V)) (row : Row V) :
    groupOf (keyTexts columns) k (rows ++ [row]) =
      groupOf (keyTexts columns) k rows ++
        if keyTexts columns row = k then [row] else [] := by
  by_cases h : keyTexts columns row = k <;> simp [groupOf, h]

theorem GroupsOf.add {columns : List Nat} {rows : List (Row V)}
    (h : GroupsOf columns rows groups) (row : Row V) :
    GroupsOf columns (rows ++ [row])
    (addToGroup (keyTexts columns row) row groups) := by
  by_cases hknown : keyTexts columns row ∈ groups.map (·.key)
  · rw [addToGroup_known h.distinct hknown]
    have hkeys : (groups.map fun g => if g.key = keyTexts columns row then
        { g with rows := g.rows ++ [row] } else g).map (·.key) =
        groups.map (·.key) := by
      rw [map_map]
      refine map_congr_left fun g _ => ?_
      by_cases hg : g.key = keyTexts columns row <;> simp [hg]
    refine ⟨by rw [hkeys]; exact h.distinct, ?_, ?_⟩
    · intro k
      rw [hkeys, h.keys, map_append, mem_append, map_singleton, mem_singleton]
      refine ⟨.inl, ?_⟩
      rintro (hk | rfl)
      · exact hk
      · exact (h.keys _).mp hknown
    · intro g' hg'
      obtain ⟨g, hg, rfl⟩ := mem_map.mp hg'
      rw [groupOf_append_singleton]
      by_cases hkey : g.key = keyTexts columns row
      · simp [hkey, h.rows g hg]
      · simp [hkey, Ne.symm hkey, h.rows g hg]
  · rw [addToGroup_new hknown]
    refine ⟨?_, ?_, ?_⟩
    · rw [map_append, map_singleton]
      exact nodup_append_comm.mp (nodup_cons.mpr ⟨hknown, h.distinct⟩)
    · intro k
      simp [h.keys]
    · intro g hg
      rw [groupOf_append_singleton]
      rcases mem_append.mp hg with hg | hg
      · have hne : keyTexts columns row ≠ g.key :=
          fun heq => hknown (heq ▸ mem_map_of_mem hg)
        simp [hne, h.rows g hg]
      · obtain rfl := mem_singleton.mp hg
        rw [if_pos rfl, groupOf_of_not_mem fun hk => hknown ((h.keys _).mpr hk)]
        rfl

theorem groupRows_groups (columns : List Nat) (rows : List (Row V)) :
    GroupsOf columns rows (groupRows columns rows) := by
  induction rows using List.reverseRecOn with
  | nil => exact ⟨nodup_nil, by simp [groupRows], by simp [groupRows]⟩
  | append_singleton rows row ih =>
    rw [groupRows, foldl_append]
    exact ih.add row

omit [ArrowKernels V] in
theorem orderGroups_perm (env : Env V) (h : (groups.map (·.key)).Nodup) :
    (orderGroups env groups).Perm groups := by
  have hfind : ∀ g ∈ groups, groups.find? (·.key = g.key) = some g := by
    intro g hg
    have := groupOf_of_nodup h hg
    rw [← head?_filter]
    exact congrArg List.head? this
  have hself : ((groups.map (·.key)).filterMap fun key =>
      groups.find? (·.key = key)) = groups := by
    rw [filterMap_map]
    refine (filterMap_congr fun g hg => ?_).trans filterMap_some
    exact hfind g hg
  have hperm := (env.keyOrder_perm (groups.map (·.key))).filterMap fun key =>
    groups.find? (·.key = key)
  rwa [hself] at hperm

variable [FloatOps]

def reaggregateSchema (schema : Schema) (groupColumns : List Nat) : Schema :=
  groupColumns.map (renamedField schema .utf8) ++
    (aggregateColumns schema groupColumns).map
      (renamedField schema .float64)

omit [ArrowKernels V] [FloatOps] in
theorem readColumns_lt (schema : Schema) (groupCols : List Str) :
    ∀ i ∈ groupCols.filterMap schema.indexOf ++
      aggregateColumns schema (groupCols.filterMap schema.indexOf),
      i < schema.length := by
  intro i hi
  rcases mem_append.mp hi with hi | hi
  · obtain ⟨name, -, hindex⟩ := mem_filterMap.mp hi
    exact (findIdx?_eq_some_iff_getElem.mp hindex).1
  · exact mem_range.mp (mem_of_mem_filter hi)

theorem reaggregateBatches_rows (env : Env V) {schema : Schema}
    {batches : List (RecordBatch V)}
    (hne : batches ≠ []) (hschema : ∀ b ∈ batches, b.schema = schema)
    {groupCols : List Str}
    (hcolumns : groupCols.filterMap schema.indexOf ≠ []) :
    ∃ out, reaggregateBatches env batches groupCols = .ok [out] ∧ out.schema =
        reaggregateSchema schema (groupCols.filterMap schema.indexOf) ∧
      ∃ groups, GroupsOf (groupCols.filterMap schema.indexOf)
        (batches.flatMap (·.rows)) groups ∧
        out.rows.Perm (groups.map (groupRow (groupCols.filterMap schema.indexOf)
            (aggregateColumns schema
              (groupCols.filterMap schema.indexOf)))) := by
  obtain ⟨first, rest, rfl⟩ := exists_cons_of_ne_nil hne
  have hfirst : first.schema = schema := hschema first (by simp)
  have hrange := readColumns_lt schema groupCols
  generalize hgroup : groupCols.filterMap schema.indexOf = columns at *
  have hgroups := groupRows_groups columns ((first :: rest).flatMap (·.rows))
  have hperm := orderGroups_perm env hgroups.distinct
  have hwidth : ((first :: rest).any fun b => !b.rows.isEmpty &&
      (columns ++ aggregateColumns schema columns).any fun i =>
        decide (b.schema.length ≤ i)) = false := by
    simp only [any_eq_false, Bool.and_eq_true, any_eq_true, decide_eq_true_eq]
    rintro b hb ⟨-, i, hi, hle⟩
    rw [hschema b hb] at hle
    exact absurd (hrange i hi) (Nat.not_lt.mpr hle)
  have hfits : ∀ row ∈ (orderGroups env (groupRows columns
      ((first :: rest).flatMap (·.rows)))).map
    (groupRow columns (aggregateColumns schema columns)),
      rowFits (reaggregateSchema schema columns) row = true := by
    intro row hrow
    obtain ⟨g, hg, rfl⟩ := mem_map.mp hrow
    refine rowFits_nullable ?_ ?_
    · intro f hf
      rcases mem_append.mp hf with hf | hf <;>
        · obtain ⟨i, -, rfl⟩ := mem_map.mp hf
          rfl
    · have hkey : g.key.length = columns.length := by
        obtain ⟨row, -, heq⟩ := mem_map.mp ((hgroups.keys g.key).mp
          (mem_map_of_mem (hperm.mem_iff.mp hg)))
        rw [← heq]
        simp [keyTexts]
      simp [groupRow, reaggregateSchema, hkey]
  refine ⟨⟨reaggregateSchema schema columns, _, hfits⟩, ?_, rfl, _, hgroups,
    hperm.map _⟩
  have hnew := RecordBatch.tryNew_ok ⟨reaggregateSchema schema columns, _,
    hfits⟩
    (show reaggregateSchema schema columns ≠ [] by
      simp [reaggregateSchema, hcolumns])
  simp only [reaggregateBatches, hfirst, hgroup, hcolumns, if_false, hwidth,
    Bool.false_eq_true]
  change Fallible.orElse (List.singleton <$> RecordBatch.tryNew
    (reaggregateSchema schema columns)
    (reaggregateSchema schema columns).types _) _ = _
  rw [hnew]
  rfl

end Groups

section Numbers

/-! ## Numbers in cells -/

/--
Cells that hold texts and numbers, and the numbers that doubles hold exactly.
A source returns a number as some cell whose text reads as its double.
-/
structure Numbers (N V : Type) [AddCommMonoid N] [ArrowKernels V]
    [FloatOps] where
  text : Str → V
  float : F64 → V
  cell : N → V
  double : N → F64
  Exact : N → Prop
  ofText : ∀ cells s, ArrowKernels.ofText cells s = text s
  ofF64 : ∀ cells x, ArrowKernels.ofF64 cells x = float x
  display_text : ∀ s, ArrowKernels.display (text s) = s
  parse_cell : ∀ n, Exact n → FloatOps.parse (ArrowKernels.display (cell n)) =
    some (double n)
  exact_zero : Exact 0
  double_zero : double 0 = F64.zero
  double_add : ∀ a b, Exact a → Exact b → Exact (a + b) →
    FloatOps.add (double a) (double b) = double (a + b)

variable {N V : Type} [AddCommMonoid N] [ArrowKernels V] [FloatOps]

def Numbers.ExactSums (X : Numbers N V) (ns : List N) : Prop :=
  (∀ n ∈ ns, X.Exact n) ∧ ∀ m, X.Exact (ns.take m).sum

theorem Numbers.foldl_add (X : Numbers N V) {ns : List N} (h : X.ExactSums ns) :
    (ns.map X.double).foldl FloatOps.add F64.zero = X.double ns.sum := by
  induction ns using List.reverseRecOn with
  | nil => exact X.double_zero.symm
  | append_singleton ns n ih =>
    obtain ⟨hall, htotals⟩ := h
    have hfront : X.ExactSums ns := by
      refine ⟨fun x hx => hall x (by simp [hx]), fun m => ?_⟩
      have := htotals (min m ns.length)
      rwa [take_append_of_le_length (Nat.min_le_right _ _), ← take_take,
        take_length] at this
    have hsum := htotals ns.length
    rw [take_left] at hsum
    have hwhole := htotals (ns.length + 1)
    rw [take_of_length_le (by simp), sum_append, sum_singleton] at hwhole
    rw [map_append, foldl_append, ih hfront, sum_append, sum_singleton]
    exact X.double_add _ _ hsum (hall n (by simp)) hwhole

theorem Numbers.sumCells_eq (X : Numbers N V) {ns : List N}
    (h : X.ExactSums ns) :
    sumCells (ns.map X.cell) = X.float (X.double ns.sum) := by
  have hparsed : ((ns.map X.cell).filterMap fun v =>
      FloatOps.parse (ArrowKernels.display v)) = ns.map X.double := by
    rw [filterMap_map, ← filterMap_eq_map]
    exact filterMap_congr fun n hn => X.parse_cell n (h.1 n hn)
  rw [sumCells, hparsed, X.foldl_add h, X.ofF64]

end Numbers

section Layout

/-! ## The rows of a grouped query -/

structure Record where
  text : Str → Str
  number : Str → ℤ

def Record.key (groupCols : List Str) (r : Record) : List Str :=
  groupCols.map r.text

inductive Item (A : Type) where
  | key (column : Str)
  | measure (label : Str) (aggregate : A)
  | tag
  deriving DecidableEq

variable {A : Type}

def Item.name : Item A → Str
  | .key column => column
  | .measure label _ => label
  | .tag => datasourceField.name

def Item.aggregate : Item A → Option (Str × A)
  | .measure label a => some (label, a)
  | _ => none

structure Layout (schema : Schema) (items : List (Item A))
    (groupCols : List Str) : Prop where
  names : schema.names = items.map Item.name
  distinct : (items.map Item.name).Nodup
  keys : ∀ g, .key g ∈ items ↔ g ∈ groupCols
  measures : ∀ label a, .measure label a ∈ items → label ≠ datasourceField.name

theorem measures_of_aggregates {items : List (Item A)}
    (h : ∀ m ∈ items.filterMap Item.aggregate, m.1 ≠ datasourceField.name)
    (label : Str) (a : A)
    (hmem : .measure label a ∈ items) : label ≠ datasourceField.name :=
  h (label, a) (mem_filterMap.mpr ⟨_, hmem, rfl⟩)

namespace Layout

variable {schema : Schema} {items : List (Item A)} {groupCols : List Str}
  (layout : Layout schema items groupCols)

include layout

theorem length : schema.length = items.length := by
  have := congrArg List.length layout.names
  simpa [Schema.names] using this

theorem nameAt {i : Nat} {item : Item A} (h : items[i]? = some item) :
    schema[i]?.map (·.name) = some item.name := by
  have := congrArg (·[i]?) layout.names
  simpa [Schema.names, h] using this

theorem eq_of_name {i j : Nat} {x y : Item A} (hi : items[i]? = some x)
    (hj : items[j]? = some y) (hname : x.name = y.name) : i = j := by
  obtain ⟨hi, rfl⟩ := List.getElem?_eq_some_iff.mp hi
  obtain ⟨hj, rfl⟩ := List.getElem?_eq_some_iff.mp hj
  have hi' : i < (items.map Item.name).length := by rwa [List.length_map]
  have hj' : j < (items.map Item.name).length := by rwa [List.length_map]
  have heq : (items.map Item.name)[i] = (items.map Item.name)[j] := by simpa
    using hname
  exact layout.distinct.getElem_inj_iff.mp heq

theorem indexOf_key {g : Str} (h : g ∈ groupCols) :
    ∃ i, schema.indexOf g = some i ∧ items[i]? = some (.key g) := by
  obtain ⟨j, hj⟩ := getElem?_of_mem ((layout.keys g).mpr h)
  obtain ⟨field, hfield, hname⟩ := Option.map_eq_some_iff.mp (layout.nameAt hj)
  cases hindex : schema.indexOf g with
  | none =>
    have := findIdx?_eq_none_iff.mp hindex field (mem_of_getElem? hfield)
    simp [hname, Item.name] at this
  | some i =>
    obtain ⟨hlt, hg, -⟩ := findIdx?_eq_some_iff_getElem.mp hindex
    rw [decide_eq_true_eq] at hg
    have hi : i < items.length := layout.length ▸ hlt
    have hitem : items[i]? = some items[i] := getElem?_eq_getElem hi
    have hsame : items[i].name = Item.name (.key g : Item A) := by
      have := layout.nameAt hitem
      rw [getElem?_eq_getElem hlt, Option.map_some, hg] at this
      exact (Option.some.inj this).symm
    cases layout.eq_of_name hitem hj hsame
    exact ⟨_, rfl, hj⟩

theorem filterMap_indexOf :
    ∃ position : Str → Nat, groupCols.filterMap schema.indexOf =
      groupCols.map position ∧
      ∀ g ∈ groupCols, items[position g]? = some (.key g) := by
  refine ⟨fun g => (schema.indexOf g).getD 0, ?_, ?_⟩
  · rw [← filterMap_eq_map]
    refine filterMap_congr fun g hg => ?_
    obtain ⟨i, hi, -⟩ := layout.indexOf_key hg
    simp [hi]
  · intro g hg
    obtain ⟨i, hi, hitem⟩ := layout.indexOf_key hg
    simpa only [hi, Option.getD_some] using hitem

theorem aggregateColumns_eq :
    aggregateColumns schema (groupCols.filterMap schema.indexOf) =
      (List.range items.length).filter fun i =>
        (items[i]?.bind Item.aggregate).isSome := by
  obtain ⟨position, hcolumns, hposition⟩ := layout.filterMap_indexOf
  rw [aggregateColumns, layout.length, hcolumns]
  refine filter_congr fun i hi => ?_
  obtain ⟨item, hitem⟩ : ∃ item, items[i]? = some item :=
    ⟨_, getElem?_eq_getElem (mem_range.mp hi)⟩
  obtain ⟨field, hfield, hname⟩ :=
    Option.map_eq_some_iff.mp (layout.nameAt hitem)
  rw [hitem, hfield, Option.all_some, hname]
  cases item with
  | key g =>
    have hg : g ∈ groupCols := (layout.keys g).mp (mem_of_getElem? hitem)
    have hmem : i ∈ groupCols.map position := mem_map.mpr
      ⟨g, hg, layout.eq_of_name (hposition g hg) hitem rfl⟩
    simp only [hmem, not_true_eq_false, decide_false, Bool.false_and]
    rfl
  | measure label a =>
    have hnot : i ∉ groupCols.map position := by
      intro hmem
      obtain ⟨g, hg, rfl⟩ := mem_map.mp hmem
      rw [hposition g hg] at hitem
      cases hitem
    have hlabel := layout.measures label a (mem_of_getElem? hitem)
    simp only [hnot, not_false_eq_true, decide_true, Bool.true_and]
    exact decide_eq_true hlabel
  | tag => simp [Item.name, Item.aggregate]

theorem map_aggregateColumns {β : Type} {f : Nat → β} {h : Str × A → β}
    (hf : ∀ i label a, items[i]? = some (.measure label a) →
      f i = h (label, a)) :
    (aggregateColumns schema (groupCols.filterMap schema.indexOf)).map f =
      (items.filterMap Item.aggregate).map h := by
  have hitems : items.filterMap Item.aggregate =
      (List.range items.length).filterMap fun i =>
        items[i]?.bind Item.aggregate := by
    conv_lhs => rw [← filterMap_range_getElem? items]
    rw [filterMap_filterMap]
  rw [layout.aggregateColumns_eq, hitems]
  induction List.range items.length with
  | nil => rfl
  | cons i is ih =>
    rw [filter_cons, filterMap_cons]
    cases hitem : items[i]?.bind Item.aggregate with
    | none => simpa using ih
    | some a =>
      obtain ⟨item, hi, ha⟩ := Option.bind_eq_some_iff.mp hitem
      cases item with
      | measure label a' =>
        cases ha
        simpa [hf i label a' hi] using ih
      | key g | tag => cases ha

end Layout

end Layout

section Answers

variable {A N V : Type} [AddCommMonoid N] [ArrowKernels V] [FloatOps]

/-! ## What the sources answer, and what is made of it -/

structure Grouped (A N : Type) where
  groupCols : List Str
  items : List (Item A)
  value : A → List Record → N

variable (X : Numbers N V) (q : Grouped A N)

def Grouped.answerRow (part : List Record) (tag : Option V) (r : Record) :
    Row V := q.items.map fun
    | .key g => some (X.text (r.text g))
    | .measure _ a =>
      some
        (X.cell (q.value a (groupOf (Record.key q.groupCols) (r.key q.groupCols)
        part)))
    | .tag => tag

def Grouped.AnsweredBy (part : List Record) (rows : List (Row V)) : Prop :=
  ∃ tag reps, Represents (Record.key q.groupCols) reps part ∧
    rows = reps.map (q.answerRow X part tag)

def Grouped.resultRow (number : A → N) (k : List Str) : Row V :=
  k.map (fun text => some (X.text text)) ++
      (q.items.filterMap Item.aggregate).map fun (_, a) =>
      some (X.float (X.double (number a)))

def Grouped.resultNames : List Str :=
  q.groupCols ++ (q.items.filterMap Item.aggregate).map (·.1)

variable {X q} {schema : Schema} (layout : Layout schema q.items q.groupCols)

include layout

theorem keyTexts_answerRow (part : List Record) (tag : Option V) (r : Record) :
    keyTexts (q.groupCols.filterMap schema.indexOf)
      (q.answerRow X part tag r) = r.key q.groupCols := by
  obtain ⟨position, hcolumns, hposition⟩ := layout.filterMap_indexOf
  rw [hcolumns, keyTexts, map_map]
  refine map_congr_left fun g hg => ?_
  simp [Grouped.answerRow, hposition g hg, cellText, X.display_text]

theorem map_keyTexts_answerRow (part : List Record) (tag : Option V)
    (reps : List Record) :
    (reps.map (q.answerRow X part tag)).map
    (keyTexts (q.groupCols.filterMap schema.indexOf)) =
      reps.map (Record.key q.groupCols) := by
  rw [map_map]
  exact map_congr_left fun r _ => keyTexts_answerRow layout part tag r

variable {parts : List (List Record)} {answers : List (List (Row V))}

theorem cells_of_answers (h : List.Forall₂ (q.AnsweredBy X) parts answers)
    (k : List Str) {i : Nat}
    {label : Str} {a : A} (hi : q.items[i]? = some (.measure label a)) :
    (groupOf (keyTexts (q.groupCols.filterMap schema.indexOf)) k
        answers.flatten).filterMap (fun row => row[i]?.join) =
      (partials (Record.key q.groupCols) (q.value a) k parts).map X.cell := by
  induction h with
  | nil => rfl
  | @cons part rows parts answers hpart hrest ih =>
    obtain ⟨tag, reps, hreps, rfl⟩ := hpart
    have hgroup : groupOf (keyTexts (q.groupCols.filterMap schema.indexOf)) k
        (reps.map (q.answerRow X part tag)) =
          (groupOf (Record.key q.groupCols) k reps).map
          (q.answerRow X part tag) := by
      rw [groupOf, filter_map]
      congr 1
      refine filter_congr fun r _ => ?_
      simp [keyTexts_answerRow layout]
    rw [flatten_cons, groupOf, filter_append, ← groupOf, ← groupOf,
      filterMap_append, ih, hgroup]
    by_cases hk : k ∈ part.map (Record.key q.groupCols)
    · obtain ⟨r, hr, heq⟩ := hreps.groupOf_eq hk
      rw [partials_cons_of_mem hk, heq]
      simp [Grouped.answerRow, hi, hr]
    have hnone : groupOf (Record.key q.groupCols) k reps = [] :=
      groupOf_of_not_mem fun hmem => hk ((hreps.keys k).mp hmem)
    rw [partials_cons_of_not_mem hk, hnone]
    rfl

theorem keys_of_answers (h : List.Forall₂ (q.AnsweredBy X) parts answers)
    (k : List Str) : k ∈ answers.flatten.map
    (keyTexts (q.groupCols.filterMap schema.indexOf)) ↔
      k ∈ parts.flatten.map (Record.key q.groupCols) := by
  induction h with
  | nil => exact Iff.rfl
  | @cons part rows parts answers hpart hrest ih =>
    obtain ⟨tag, reps, hreps, rfl⟩ := hpart
    rw [flatten_cons, map_append, mem_append, map_keyTexts_answerRow layout,
      hreps.keys, ih, flatten_cons, map_append, mem_append]

omit [AddCommMonoid N] [FloatOps] in
theorem names_reaggregateSchema :
    (reaggregateSchema schema (q.groupCols.filterMap schema.indexOf)).names =
      q.resultNames := by
  have hname : ∀ (i : Nat) (item : Item A) (dataType : DataType),
    q.items[i]? = some item →
        (renamedField schema dataType i).name = item.name := by
    intro i item dataType hitem
    simp [renamedField, layout.nameAt hitem]
  rw [reaggregateSchema, Schema.names, map_append, map_map, map_map,
    Grouped.resultNames]
  congr 1
  · obtain ⟨position, heq, hposition⟩ := layout.filterMap_indexOf
    rw [heq, map_map]
    refine (map_congr_left fun g hg => ?_).trans (map_id _)
    exact hname _ _ _ (hposition g hg)
  · exact layout.map_aggregateColumns fun i label a hi => hname _ _ _ hi

theorem groupRow_eq (hanswers : List.Forall₂ (q.AnsweredBy X) parts answers)
    (hexact : ∀ k, ∀ m ∈ q.items.filterMap Item.aggregate, X.ExactSums
      (partials (Record.key q.groupCols) (q.value m.2) k parts))
    {groups : List (Group V)}
    (hgroups : GroupsOf (q.groupCols.filterMap schema.indexOf)
      answers.flatten groups) {g : Group V} (hg : g ∈ groups) :
    groupRow (q.groupCols.filterMap schema.indexOf)
        (aggregateColumns schema (q.groupCols.filterMap schema.indexOf)) g =
      q.resultRow X (fun a => (partials (Record.key q.groupCols)
        (q.value a) g.key parts).sum) g.key := by
  have hlength : g.key.length =
      (q.groupCols.filterMap schema.indexOf).length := by
    obtain ⟨row, -, heq⟩ :=
      mem_map.mp ((hgroups.keys g.key).mp (mem_map_of_mem hg))
    rw [← heq]
    simp [keyTexts]
  unfold groupRow Grouped.resultRow
  congr 1
  · calc ((q.groupCols.filterMap schema.indexOf).zip g.key).map
          (fun p => some (ArrowKernels.ofText (g.cells p.1) p.2))
        _ = (((q.groupCols.filterMap schema.indexOf).zip g.key).map
              Prod.snd).map fun text =>
            some (X.text text) := by simp [X.ofText, Function.comp_def]
        _ = g.key.map fun text => some (X.text text) := by
          rw [map_snd_zip hlength.le]
  · refine layout.map_aggregateColumns fun i label a hi => ?_
    have ha : (label, a) ∈ q.items.filterMap Item.aggregate :=
      mem_filterMap.mpr ⟨_, mem_of_getElem? hi, rfl⟩
    rw [Group.cells, hgroups.rows g hg, cells_of_answers layout hanswers _ hi,
      X.sumCells_eq (hexact g.key _ ha)]

/--
The second aggregation has one row for each key of all records, and in it for
each aggregate the sum of its values in the sources that have the key.
-/
theorem reaggregate_adds_partials (env : Env V) (hgroup : q.groupCols ≠ [])
    {answers : List (List (RecordBatch V))}
    (hschema : ∀ b ∈ answers.flatten, b.schema = schema)
    (hanswers : List.Forall₂ (q.AnsweredBy X) parts
      (answers.map fun batches => batches.flatMap (·.rows)))
    (hexact : ∀ k, ∀ m ∈ q.items.filterMap Item.aggregate,
      X.ExactSums (partials (Record.key q.groupCols) (q.value m.2) k parts)) :
    ∃ out, reaggregateBatches env answers.flatten q.groupCols = .ok out ∧
      (∀ b ∈ out, b.schema.names = q.resultNames) ∧
      (out.flatMap (·.rows)).Perm
      ((parts.flatten.map (Record.key q.groupCols)).dedup.map fun k =>
          q.resultRow X (fun a => (partials (Record.key q.groupCols)
            (q.value a) k parts).sum) k) := by
  have hrows := flatMap_flatten (fun b : RecordBatch V => b.rows) answers
  have hkeys := keys_of_answers layout hanswers
  rw [← hrows] at hkeys
  by_cases hne : answers.flatten = []
  · -- no batch: no source has a record
    have hnone : parts.flatten.map (Record.key q.groupCols) = [] :=
      eq_nil_iff_forall_not_mem.mpr fun k hk => by
        simpa [hne] using (hkeys k).mpr hk
    refine ⟨[], by rw [hne]; rfl, by simp, ?_⟩
    rw [hnone]
    exact .nil
  · have hcolumns : q.groupCols.filterMap schema.indexOf ≠ [] := by
      obtain ⟨position, heq, -⟩ := layout.filterMap_indexOf
      rw [heq]
      simpa using hgroup
    obtain ⟨out, hout, hnames, groups, hgroups, hperm⟩ :=
      reaggregateBatches_rows env hne hschema hcolumns
    refine ⟨[out], hout, ?_, ?_⟩
    · intro b hb
      rw [mem_singleton.mp hb, hnames, names_reaggregateSchema layout]
    have hnodup : (groups.map (·.key)).Perm
        (parts.flatten.map (Record.key q.groupCols)).dedup :=
      (perm_ext_iff_of_nodup hgroups.distinct (nodup_dedup _)).mpr fun k => by
          rw [hgroups.keys, hkeys, mem_dedup]
    rw [hrows] at hgroups
    rw [flatMap_singleton]
    refine hperm.trans ?_
    rw [map_congr_left fun g hg =>
      groupRow_eq layout hanswers hexact hgroups hg]
    simpa only [map_map, Function.comp_def] using hnodup.map fun k =>
        q.resultRow X (fun a =>
      (partials (Record.key q.groupCols) (q.value a) k parts).sum) k

end Answers

section Additive

/-! ## Aggregates that add up -/

inductive Aggregate where
  | count
  | sum (column : Str)
  deriving DecidableEq

def Aggregate.value : Aggregate → List Record → ℤ
  | .count, records => records.length
  | .sum column, records => (records.map (·.number column)).sum

theorem Aggregate.value_nil (a : Aggregate) :
    a.value [] = 0 := by cases a <;> rfl

theorem Aggregate.value_append (a : Aggregate) (xs ys : List Record) :
    a.value (xs ++ ys) = a.value xs + a.value ys := by
  cases a <;> simp [Aggregate.value]

def countsAndSums (groupCols : List Str) (items : List (Item Aggregate)) :
    Grouped Aggregate ℤ where
  groupCols
  items
  value := Aggregate.value

variable {V : Type} [ArrowKernels V] [FloatOps]

private theorem exactSums_of_bound (X : Numbers ℤ V) {bound : ℤ}
    (hX : ∀ n : ℤ, |n| < bound → X.Exact n)
    {key : Record → List Str} {k : List Str} {a : Aggregate}
    {parts : List (List Record)}
    (hparts : ∀ part ∈ parts, |a.value (groupOf key k part)| < bound)
    (htotals : ∀ m, |a.value (groupOf key k (parts.take m).flatten)| < bound) :
    X.ExactSums (partials key a.value k parts) := by
  refine ⟨fun n hn => hX n ?_, fun m => hX _ ?_⟩
  · obtain ⟨part, hpart, hvalue⟩ := mem_filterMap.mp hn
    split at hvalue
    · cases hvalue
      exact hparts part hpart
    · cases hvalue
  · -- a running total of the partial values is one of the first sources
    obtain ⟨j, hj⟩ := exists_take_filterMap _ parts m
    rw [partials, hj]
    change |(partials key a.value k (parts.take j)).sum| < bound
    rw [sum_partials a.value_nil a.value_append]
    exact htotals j

/--
`COUNT` and `SUM` over several sources: if each source answers with one row
for each of its groups, the second aggregation has one row for each key of all
records, with the aggregates of all records of that key.
-/
theorem reaggregate_count_sum (X : Numbers ℤ V)
    (hX : ∀ n : ℤ, |n| < 2 ^ 53 → X.Exact n) (env : Env V)
    {groupCols : List Str} (hgroup : groupCols ≠ [])
    {items : List (Item Aggregate)} {schema : Schema}
    (layout : Layout schema items groupCols) {parts : List (List Record)}
    {answers : List (List (RecordBatch V))}
    (hschema : ∀ b ∈ answers.flatten, b.schema = schema)
    (hanswers : List.Forall₂ ((countsAndSums groupCols items).AnsweredBy X)
      parts (answers.map fun batches => batches.flatMap (·.rows)))
    (hparts : ∀ k, ∀ m ∈ items.filterMap Item.aggregate, ∀ part ∈ parts,
      |m.2.value (groupOf (Record.key groupCols) k part)| < 2 ^ 53)
    (htotals : ∀ k, ∀ m ∈ items.filterMap Item.aggregate, ∀ n,
      |m.2.value (groupOf (Record.key groupCols) k (parts.take n).flatten)| <
      2 ^ 53) :
    ∃ out, reaggregateBatches env answers.flatten groupCols = .ok out ∧
      (∀ b ∈ out, b.schema.names =
        (countsAndSums groupCols items).resultNames) ∧
      (out.flatMap (·.rows)).Perm
          ((parts.flatten.map (Record.key groupCols)).dedup.map fun k =>
          (countsAndSums groupCols items).resultRow X (fun a =>
            a.value (groupOf (Record.key groupCols) k parts.flatten)) k) := by
  obtain ⟨out, hout, hnames, hrows⟩ := reaggregate_adds_partials (q :=
    countsAndSums groupCols items) layout env hgroup hschema hanswers
    fun k m hm =>
        exactSums_of_bound X hX (hparts k m hm) (htotals k m hm)
  refine ⟨out, hout, hnames, ?_⟩
  simpa only [countsAndSums, sum_partials (Aggregate.value_nil _)
    (Aggregate.value_append _)] using hrows

end Additive

section Example

@[reducible] def wholeDoubles : FloatOps where
  parse s := (Str.parseI64 s).map Int64.toBitVec
  add x y := BitVec.add x y
  sub x y := BitVec.sub x y
  lt x y := BitVec.slt x y
  le x y := BitVec.sle x y
  ofInt64 n := n.toBitVec
  jsonText x := some (Str.ofInt (BitVec.toInt x))

@[reducible] def numberCells : ArrowKernels Str :=
  { textCells with ofF64 := fun _ x => Str.ofInt (BitVec.toInt x) }

attribute [local instance] wholeDoubles numberCells

def exactIntegers : Numbers ℤ Str where
  text := id
  float x := Str.ofInt (BitVec.toInt x)
  cell := Str.ofInt
  double n := (Int64.ofInt n).toBitVec
  Exact n := |n| < 2 ^ 53
  ofText _ _ := rfl
  ofF64 _ _ := rfl
  display_text _ := rfl
  parse_cell n hn := by
    have hbound := abs_lt.mp hn
    change (Str.parseI64 (Str.ofInt n)).map Int64.toBitVec = _
    rw [Str.parseI64_ofInt (by omega)]
    rfl
  exact_zero := by decide
  double_zero := rfl
  double_add a b _ _ _ := by
    rw [Int64.ofInt_add]
    rfl

def order (customer : Str) (amount : ℤ) : Record where
  text _ := customer
  number _ := amount

def customerItems : List (Item Aggregate) :=
  [.key "customer", .measure "n" .count, .measure "total" (.sum "amount"), .tag]

def customerSchema : Schema :=
  [⟨"customer", .utf8, false⟩, ⟨"n", .int64, false⟩, ⟨"total", .int64, true⟩,
    datasourceField]

theorem customerLayout : Layout customerSchema customerItems ["customer"] where
  names := rfl
  distinct := by decide
  keys := by simp [customerItems]
  measures := measures_of_aggregates (by decide)

def customerBatch (n total : ℤ) (source : Str) : RecordBatch Str where
  schema := customerSchema
  rows :=
    [[some "ann", some (Str.ofInt n), some (Str.ofInt total), some source]]
  fits row hrow := by
    rw [mem_singleton.mp hrow]
    rfl

def twoOrders : List (List Record) := [[order "ann" 5], [order "ann" 7]]

theorem twoOrders_bound (k : List Str) (a : Aggregate) {records : List Record}
    (h : records ∈ [[], [order "ann" 5], [order "ann" 7],
      [order "ann" 5, order "ann" 7]]) :
    |a.value (groupOf (Record.key ["customer"]) k records)| < 2 ^ 53 := by
  have hvalue : ∀ records ∈ [[], [order "ann" 5], [order "ann" 7],
      [order "ann" 5, order "ann" 7]], |a.value records| < 2 ^ 53 := by
    cases a <;> simp only [Aggregate.value, order, mem_cons, not_mem_nil,
      or_false, forall_eq_or_imp, forall_eq, map_nil, map_cons] <;> decide
  have hkey : ∀ records ∈ [[], [order "ann" 5], [order "ann" 7],
      [order "ann" 5, order "ann" 7]], ∀ r ∈ records,
        Record.key ["customer"] r = ["ann".toList] := by
        simp [order, Record.key]
  by_cases hk : ["ann".toList] = k
  · rw [groupOf, filter_eq_self.mpr fun r hr => by
      rw [hkey records h r hr, decide_eq_true hk]]
    exact hvalue records h
  rw [groupOf, filter_eq_nil_iff.mpr fun r hr => by
    rw [hkey records h r hr, decide_eq_true_eq]
    exact hk, a.value_nil]
  decide

theorem take_twoOrders (n : Nat) :
    (twoOrders.take n).flatten ∈ [[], [order "ann" 5], [order "ann" 7],
      [order "ann" 5, order "ann" 7]] := by
  match n with
  | 0 => simp
  | 1 => simp [twoOrders]
  | n + 2 => simp [twoOrders]

theorem reaggregate_count_sum_customer :
    ∃ out, reaggregateBatches (Env.quiet Str)
        [customerBatch 1 5 "a", customerBatch 1 7 "b"] ["customer"] = .ok out ∧
      (out.flatMap (·.rows)).Perm
          [[some "ann".toList, some "2".toList, some "12".toList]] := by
  have hanswers : List.Forall₂
    ((countsAndSums ["customer"] customerItems).AnsweredBy exactIntegers)
      twoOrders [(customerBatch 1 5 "a").rows, (customerBatch 1 7 "b").rows] :=
    .cons ⟨some "a", [order "ann" 5], ⟨by decide, by simp⟩, rfl⟩
      (.cons ⟨some "b", [order "ann" 7], ⟨by decide, by simp⟩, rfl⟩ .nil)
  have hschema : ∀ b ∈ [[customerBatch 1 5 "a"],
      [customerBatch 1 7 "b"]].flatten,
    b.schema = customerSchema := by simp [customerBatch]
  obtain ⟨out, hout, -, hrows⟩ :=
    reaggregate_count_sum exactIntegers (fun _ h => h) (Env.quiet Str)
    (by simp) customerLayout hschema hanswers (fun k m _ part hpart => by
      refine twoOrders_bound k m.2 ?_
      rcases mem_pair.mp hpart with rfl | rfl <;> simp)
    (fun k m _ n => twoOrders_bound k m.2 (take_twoOrders n))
  exact ⟨out, hout, hrows⟩

/-- Without group columns the rows of the sources are not added up. -/
theorem reaggregate_keeps_ungrouped_rows :
    ∃ (schema : Schema) (items : List (Item Aggregate))
    (batches : List (RecordBatch Str)), Layout schema items [] ∧
      List.Forall₂ ((countsAndSums [] items).AnsweredBy exactIntegers)
        twoOrders (batches.map (·.rows)) ∧
      ∃ out, reaggregateBatches (Env.quiet Str) batches [] = .ok out ∧
        (out.flatMap (·.rows)).length = 2 ∧
        (twoOrders.flatten.map (Record.key [])).dedup.length = 1 := by
  let count : RecordBatch Str :=
    ⟨[⟨"n", .int64, false⟩], [[some "1"]], by decide⟩
  refine ⟨count.schema, [.measure "n" .count], [count, count], ?_, ?_,
    [count, count], rfl, rfl, by decide⟩
  · refine ⟨rfl, by decide, by simp, ?_⟩
    intro label a h
    cases mem_singleton.mp h
    decide
  · exact .cons ⟨none, [order "ann" 5], ⟨by decide, by simp⟩, rfl⟩
      (.cons ⟨none, [order "ann" 7], ⟨by decide, by simp⟩, rfl⟩ .nil)

end Example

end Fuse.Server
