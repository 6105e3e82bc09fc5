import PgPool.Parallel.Pushdown

/-!
# The outer query gives the answer

When the rewritten query, on whatever rows the nodes have, gives the answer to the query on all rows.
-/

namespace PgPool.Pushdown

open Partition Aggregates Numeric

variable {C V : Type}

/-! ## What is to hold -/

/-- The columns of the inner query, from the statement. -/
def SelectStmt.innerColumns (q : SelectStmt C V) : List (Leaf C V) :=
  q.targetCalls.map .call ++ q.groupColumns.map .column ++ q.havingCalls.map .call

/-- The columns that the target list refers to, those inside aggregates included. -/
def SelectStmt.targetColumns (q : SelectStmt C V) : List (ColumnRef C) :=
  (q.targetLeaves.flatMap Leaf.visited).filterMap Leaf.column?

/-- `pool_g$n` is the group column that the reference denotes. -/
def NamesColumn (q : SelectStmt C V) (part : Part) (c : ColumnRef C) : Prop :=
  match rewriteColumnRef q part c with
  | .group (some n) => ∃ g, (analyze q).columns[n]? = some (.column g) ∧ g.denotes = c.denotes
  | .group none => False
  | _ => True

section Exact

variable [LinearOrder V] [Numeric V]

/-- One aggregate of the same values. -/
def FuncCall.Same (f h : FuncCall C V) : Prop :=
  f.funcname = h.funcname ∧ f.distinct = h.distinct ∧ f.argument = h.argument

/-- `pool_g$n` is the very aggregate or group column. -/
def Names (q : SelectStmt C V) (part : Part) : Leaf C V → Prop
  | .call f =>
    match rewriteFuncCall q part f with
    | .call _ _ n => ∃ h, (analyze q).columns[n]? = some (.call h) ∧ f.Same h
    | _ => ∀ c ∈ f.columns, NamesColumn q part c
  | .column c => NamesColumn q part c

/-- Every `pool_g$n` that is printed names what it stands for, and the answer is the one to the query on all
rows, however they are distributed over one node or more. -/
structure Exact (q : SelectStmt C V) : Prop where
  target : ∀ l ∈ q.targetLeaves, Names q .targetList l
  group : ∀ c ∈ q.groupColumns, NamesColumn q .groupClause c
  having : ∀ l ∈ q.havingLeaves, Names q .havingClause l
  sort : ∀ l ∈ q.sortLeaves, Names q .sortClause l
  answer : ∀ node nodes, ∃ rows, q.rewritten (node :: nodes) = some rows ∧
    rows.Perm (q.answer (node :: nodes).flatten)

/-- The value depends on the rows of a group as a whole only. -/
def Settled {β : Type} (q : SelectStmt C V) (e : Expr (Leaf C V) V β) : Prop :=
  ∀ calls outs r r', q.key r = q.key r' →
    e.eval (Leaf.valueAt calls (some r) outs) = e.eval (Leaf.valueAt calls (some r') outs)

/-- What holds of every statement that the parser builds and the server accepts: an address is the address of
one node, output columns are referred to in the `GROUP BY` and `ORDER BY` clauses only, and an expression has
one value for a group. -/
structure Accepted (q : SelectStmt C V) : Prop where
  calls : ∀ f ∈ q.targetCalls ++ q.havingCalls, ∀ h ∈ q.targetCalls ++ q.havingCalls, f.node = h.node → f = h
  columns : ∀ c ∈ q.groupColumns, ∀ g ∈ q.groupColumns, c.node = g.node → c = g
  inputs : ∀ c, .column c ∈ q.targetLeaves ++ q.havingLeaves → c.denotes.isInput = true
  target : ∀ e ∈ q.targetList, Settled q e
  having : Settled q q.havingClause
  sort : ∀ e, Item.expr e ∈ q.sortClause → Settled q e

/-- The column of the `GROUP BY` clause that a column of the target list is mapped to: the last that is found at
the same place of the target list. -/
def SelectStmt.mapped (q : SelectStmt C V) (c : ColumnRef C) : Option (ColumnRef C) :=
  q.groupColumns.reverse.find? fun g =>
    q.targetColumns.findIdx? (sameName g) = q.targetColumns.findIdx? (sameName c)

/-- What is found for a name, or at a place, is what was looked for. -/
structure Kept (q : SelectStmt C V) : Prop where
  /-- a column of the target list outside aggregates is mapped to the `GROUP BY` column that it is -/
  targetColumns : ∀ c, .column c ∈ q.targetLeaves → ∃ g, q.mapped c = some g ∧ g.denotes = c.denotes
  /-- the `GROUP BY` clause names no output column -/
  groupColumns : ∀ c ∈ q.groupColumns, c.denotes.isInput = true
  /-- the aggregate of the `HAVING` clause that comes `n`th is the `n`th column of the inner query -/
  havingCalls : ∀ f ∈ q.havingCalls, ∀ n, (q.havingCalls.findIdx? fun h => f.node = h.node) = some n →
    ∃ h, q.innerColumns[n]? = some (.call h) ∧ f.Same h
  havingColumns : ∀ c, .column c ∈ q.havingLeaves →
    ∃ g, q.groupColumns.find? (sameName c) = some g ∧ g.denotes = c.denotes
  /-- aggregates that are written alike are the same -/
  sortCalls : ∀ f, .call f ∈ q.sortLeaves → ∀ h,
    (q.targetCalls.find? fun t => outFuncCall f = outFuncCall t) = some h → f.Same h
  /-- an output column has neither the name of a `GROUP BY` column nor that of a table's -/
  sortColumns : ∀ c, .column c ∈ q.sortLeaves →
    (∃ g, q.groupColumns.find? (sameName c) = some g ∧ g.denotes = c.denotes) ∨
      (q.groupColumns.find? (sameName c) = none ∧ getPoolColumn q c = false ∧ c.denotes.isInput = false)

/-- What is aggregated can be had from what the nodes have of it. -/
structure Decomposes (q : SelectStmt C V) : Prop where
  /-- `DISTINCT` is in `min` and `max` only -/
  splits : ∀ f ∈ q.targetCalls ++ q.havingCalls, f.distinct = true → f.funcname = .min ∨ f.funcname = .max
  /-- a `GROUP BY` clause has a column in it -/
  grouped : q.groupClause = [] ∨ q.groupColumns ≠ []
  /-- an aggregate of the `ORDER BY` clause is one of the target list too, written alike -/
  written : ∀ f, .call f ∈ q.sortLeaves → ∃ h ∈ q.targetCalls, outFuncCall f = outFuncCall h

end Exact

/-! ## The analysis -/

theorem foldl_targetList (ls : List (Leaf C V)) (agg : Aggexpr C V) :
    ls.foldl (appendAggregate .targetList) agg =
      { agg with
        tfunc := agg.tfunc ++ ls.filterMap Leaf.call?
        usec := agg.usec ++ ls.filterMap Leaf.column?
        umapc := agg.umapc ++ (ls.filterMap Leaf.column?).map fun _ => none } := by
  induction ls generalizing agg with
  | nil => simp
  | cons l ls ih =>
    rw [List.foldl_cons, ih]
    cases l with
    | call f => simp [appendAggregate, List.filterMap_cons, Leaf.call?, Leaf.column?]
    | column c => simp [appendAggregate, List.filterMap_cons, Leaf.call?, Leaf.column?]

theorem foldl_havingClause (ls : List (Leaf C V)) (agg : Aggexpr C V) :
    ls.foldl (appendAggregate .havingClause) agg =
      { agg with hfunc := agg.hfunc ++ ls.filterMap Leaf.call? } := by
  induction ls generalizing agg with
  | nil => simp
  | cons l ls ih =>
    rw [List.foldl_cons, ih]
    cases l with
    | call f => simp [appendAggregate, Leaf.call?]
    | column c => simp [appendAggregate, List.filterMap_cons, Leaf.call?]

/-- The columns inside a call are no calls. -/
theorem filterMap_call_visited (ls : List (Leaf C V)) :
    (ls.flatMap Leaf.visited).filterMap Leaf.call? = ls.filterMap Leaf.call? := by
  induction ls with
  | nil => rfl
  | cons l ls ih =>
    rw [List.flatMap_cons, List.filterMap_append, ih]
    cases l with
    | call f =>
      have hnone : (f.columns.map Leaf.column).filterMap (Leaf.call? (V := V)) = [] := by
        rw [List.filterMap_map]
        exact List.filterMap_eq_nil_iff.mpr fun _ _ => rfl
      simp [Leaf.visited, Leaf.call?, hnone]
    | column c => rfl

/-- The map from the columns of the target list to those of the `GROUP BY` clause, at every place: the last
column that is found there. -/
structure Mapped (agg : Aggexpr C V) : Prop where
  length : agg.umapc.length = agg.usec.length
  last : ∀ i, i < agg.usec.length → ∃ o : Option Nat, agg.umapc[i]? = some o ∧ (∀ j ∈ o, j < agg.col.length) ∧
    o.bind (agg.col[·]?) = agg.col.reverse.find? fun g => agg.usec.findIdx? (sameName g) = some i

theorem mapped_group {agg : Aggexpr C V} (h : Mapped agg) (g : ColumnRef C) :
    Mapped (appendAggregate .groupClause agg (.column g)) := by
  constructor
  · simp only [appendAggregate, seekColumnName]
    split
    · rw [List.length_set, h.length]
    · exact h.length
  · intro i hi
    obtain ⟨o, ho, hlt, hlast⟩ := h.last i hi
    show ∃ o : Option Nat, (seekColumnName agg g)[i]? = some o ∧ (∀ j ∈ o, j < (agg.col ++ [g]).length) ∧
      o.bind ((agg.col ++ [g])[·]?) =
        (agg.col ++ [g]).reverse.find? fun g => agg.usec.findIdx? (sameName g) = some i
    rw [List.reverse_append, List.reverse_singleton, List.singleton_append, List.find?_cons]
    by_cases hfound : agg.usec.findIdx? (sameName g) = some i
    · refine ⟨some agg.col.length, ?_, fun j hj => ?_, ?_⟩
      · rw [seekColumnName, hfound, List.getElem?_set_self (by rw [h.length]; exact hi)]
      · cases hj
        simp
      · rw [decide_eq_true hfound]
        simp
    · -- what was there before stays
      refine ⟨o, ?_, fun j hj => ?_, ?_⟩
      · rw [seekColumnName, ← ho]
        split
        · rename_i k hk
          have hki : k ≠ i := fun hki => hfound (hki ▸ hk)
          exact List.getElem?_set_ne hki
        · rfl
      · rw [List.length_append]
        exact Nat.lt_add_right _ (hlt j hj)
      · rw [decide_eq_false hfound, ← hlast]
        cases o with
        | none => rfl
        | some j => exact List.getElem?_append_left (hlt j rfl)

theorem foldl_groupClause {agg : Aggexpr C V} (h : Mapped agg) (cs : List (ColumnRef C)) :
    ∃ umapc, (cs.map Leaf.column).foldl (appendAggregate .groupClause) agg =
        { agg with umapc := umapc, col := agg.col ++ cs } ∧
      Mapped ((cs.map Leaf.column).foldl (appendAggregate .groupClause) agg) := by
  induction cs generalizing agg with
  | nil => exact ⟨agg.umapc, by simp, h⟩
  | cons c cs ih =>
    obtain ⟨umapc, hfold, hmapped⟩ := ih (mapped_group h c)
    rw [List.map_cons, List.foldl_cons]
    refine ⟨umapc, ?_, hmapped⟩
    rw [hfold]
    simp [appendAggregate]

/-- **What the analysis of a statement is.** -/
theorem analyze_eq (q : SelectStmt C V) :
    ∃ umapc, analyze q = ⟨q.targetCalls, q.groupColumns, q.havingCalls, q.targetColumns, umapc⟩ ∧
      Mapped (analyze q) := by
  have htarget : analyzeTarget q =
      ⟨q.targetCalls, [], [], q.targetColumns, q.targetColumns.map fun _ => none⟩ := by
    rw [analyzeTarget, foldl_targetList, filterMap_call_visited]
    rfl
  have hmapped : Mapped (analyzeTarget q) := by
    rw [htarget]
    refine ⟨by simp, fun i hi => ⟨none, ?_, by simp, rfl⟩⟩
    have hi' : i < q.targetColumns.length := hi
    simp [hi']
  obtain ⟨umapc, hgroup, hmapped'⟩ := foldl_groupClause hmapped q.groupColumns
  rw [htarget] at hgroup
  have hanalyze : analyze q = ⟨q.targetCalls, q.groupColumns, q.havingCalls, q.targetColumns, umapc⟩ := by
    rw [analyze, analyzeGroup, foldl_havingClause, filterMap_call_visited, htarget, hgroup]
    rfl
  refine ⟨umapc, hanalyze, ?_⟩
  rw [htarget, hgroup] at hmapped'
  rw [hanalyze]
  exact ⟨hmapped'.length, hmapped'.last⟩

@[simp] theorem analyze_tfunc (q : SelectStmt C V) : (analyze q).tfunc = q.targetCalls := by
  obtain ⟨_, h, -⟩ := analyze_eq q
  rw [h]

@[simp] theorem analyze_col (q : SelectStmt C V) : (analyze q).col = q.groupColumns := by
  obtain ⟨_, h, -⟩ := analyze_eq q
  rw [h]

@[simp] theorem analyze_hfunc (q : SelectStmt C V) : (analyze q).hfunc = q.havingCalls := by
  obtain ⟨_, h, -⟩ := analyze_eq q
  rw [h]

@[simp] theorem analyze_usec (q : SelectStmt C V) : (analyze q).usec = q.targetColumns := by
  obtain ⟨_, h, -⟩ := analyze_eq q
  rw [h]

@[simp] theorem analyze_columns (q : SelectStmt C V) : (analyze q).columns = q.innerColumns := by
  rw [Aggexpr.columns, analyze_tfunc, analyze_col, analyze_hfunc]
  rfl

/-! ## What is printed -/

theorem exists_findIdx {α : Type} {l : List α} {p : α → Bool} {x : α} (hx : x ∈ l) (hp : p x = true) :
    ∃ i y, l.findIdx? p = some i ∧ l[i]? = some y ∧ p y = true := by
  cases h : l.findIdx? p with
  | none => exact absurd hp (by simp [List.findIdx?_eq_none_iff.mp h x hx])
  | some i =>
    obtain ⟨hi, hpi, -⟩ := List.findIdx?_eq_some_iff_getElem.mp h
    exact ⟨i, l[i], rfl, List.getElem?_eq_getElem hi, hpi⟩

theorem find_eq_some {α : Type} {l : List α} {p : α → Bool} {x : α} :
    l.find? p = some x ↔ ∃ i, l.findIdx? p = some i ∧ l[i]? = some x := by
  rw [List.find?_eq_bind_findIdx?_getElem?, Option.bind_eq_some_iff]

theorem innerColumns_call {q : SelectStmt C V} {i : Nat} {f : FuncCall C V} (h : q.targetCalls[i]? = some f) :
    q.innerColumns[i]? = some (.call f) := by
  have hi := (List.getElem?_eq_some_iff.mp h).1
  rw [SelectStmt.innerColumns, List.append_assoc, List.getElem?_append_left (by simpa using hi),
    List.getElem?_map, h]
  rfl

theorem innerColumns_column {q : SelectStmt C V} {j : Nat} {g : ColumnRef C} (h : q.groupColumns[j]? = some g) :
    q.innerColumns[q.targetCalls.length + j]? = some (.column g) := by
  have hj := (List.getElem?_eq_some_iff.mp h).1
  rw [SelectStmt.innerColumns, List.append_assoc, List.getElem?_append_right (by simp),
    List.getElem?_append_left (by simpa using hj), List.getElem?_map]
  simp [h]

theorem sameName_self (c : ColumnRef C) : sameName c c = true := by
  unfold sameName
  split <;> simp_all

theorem mem_targetColumns {q : SelectStmt C V} {c : ColumnRef C} (h : .column c ∈ q.targetLeaves) :
    c ∈ q.targetColumns :=
  List.mem_filterMap.mpr ⟨.column c, List.mem_flatMap.mpr ⟨_, h, List.mem_singleton.mpr rfl⟩, rfl⟩

/-- The number that a column of the target list becomes. -/
theorem change_target {q : SelectStmt C V} {c : ColumnRef C} (hc : c ∈ q.targetColumns) :
    ∃ o : Option Nat, columnChangebyAggregate .targetList (analyze q) c =
        some (o.map (q.targetCalls.length + ·)) ∧
      (∀ j ∈ o, j < q.groupColumns.length) ∧ o.bind (q.groupColumns[·]?) = q.mapped c := by
  obtain ⟨i, u, hfind, hu, -⟩ := exists_findIdx hc (sameName_self c)
  obtain ⟨-, -, hmapped⟩ := analyze_eq q
  have hi : i < (analyze q).usec.length := by
    rw [analyze_usec]
    exact (List.getElem?_eq_some_iff.mp hu).1
  obtain ⟨o, ho, hlt, hlast⟩ := hmapped.last i hi
  rw [analyze_col] at hlt
  rw [analyze_col, analyze_usec] at hlast
  refine ⟨o, ?_, hlt, ?_⟩
  · rw [columnChangebyAggregate, analyze_usec, analyze_tfunc, hfind, Option.map_some, ho]
    rfl
  · rw [hlast, SelectStmt.mapped, hfind]

/-- The number that a column becomes in the clauses that are searched by name. -/
theorem change_by_name {q : SelectStmt C V} {part : Part} (hpart : part = .havingClause ∨ part = .sortClause)
    (c : ColumnRef C) : columnChangebyAggregate part (analyze q) c =
      (q.groupColumns.findIdx? (sameName c)).map fun j => some (q.targetCalls.length + j) := by
  rcases hpart with rfl | rfl <;> rw [columnChangebyAggregate, analyze_col, analyze_tfunc]

/-- The reference becomes the column of the inner query for the same column. -/
def Renamed (q : SelectStmt C V) (part : Part) (c : ColumnRef C) : Prop :=
  ∃ n g, rewriteColumnRef q part c = .group (some n) ∧ q.innerColumns[n]? = some (.column g) ∧
    g ∈ q.groupColumns ∧ g.denotes = c.denotes

theorem namesColumn_of_renamed {q : SelectStmt C V} {part : Part} {c : ColumnRef C} (h : Renamed q part c) :
    NamesColumn q part c := by
  obtain ⟨n, g, hrewrite, hcolumn, -, hdenotes⟩ := h
  rw [NamesColumn, hrewrite, analyze_columns]
  exact ⟨g, hcolumn, hdenotes⟩

theorem renamed_of_change {q : SelectStmt C V} {part : Part} {c g : ColumnRef C} {j : Nat}
    (h : columnChangebyAggregate part (analyze q) c = some (some (q.targetCalls.length + j)))
    (hg : q.groupColumns[j]? = some g) (hdenotes : g.denotes = c.denotes) : Renamed q part c :=
  ⟨_, g, by rw [rewriteColumnRef, h], innerColumns_column hg, List.mem_of_getElem? hg, hdenotes⟩

/-- What a number stands for, where it names the group column. -/
theorem denotes_of_namesColumn {q : SelectStmt C V} {part : Part} {c g : ColumnRef C} {j : Nat}
    (h : NamesColumn q part c)
    (hchange : columnChangebyAggregate part (analyze q) c = some (some (q.targetCalls.length + j)))
    (hg : q.groupColumns[j]? = some g) : g.denotes = c.denotes := by
  rw [NamesColumn, rewriteColumnRef, hchange] at h
  obtain ⟨g', hg', hdenotes⟩ := h
  rw [analyze_columns, innerColumns_column hg] at hg'
  cases hg'
  exact hdenotes

/-- A name that is found in the `GROUP BY` clause. -/
theorem renamed_of_find {q : SelectStmt C V} {part : Part} (hpart : part = .havingClause ∨ part = .sortClause)
    {c g : ColumnRef C} (h : q.groupColumns.find? (sameName c) = some g) (hdenotes : g.denotes = c.denotes) :
    Renamed q part c := by
  obtain ⟨j, hj, hg⟩ := find_eq_some.mp h
  exact renamed_of_change (by rw [change_by_name hpart, hj]; rfl) hg hdenotes

theorem denotes_of_find {q : SelectStmt C V} {part : Part} (hpart : part = .havingClause ∨ part = .sortClause)
    {c g : ColumnRef C} (h : q.groupColumns.find? (sameName c) = some g) (hnames : NamesColumn q part c) :
    g.denotes = c.denotes := by
  obtain ⟨j, hj, hg⟩ := find_eq_some.mp h
  exact denotes_of_namesColumn hnames (by rw [change_by_name hpart, hj]; rfl) hg

/-- A name that is not found there. -/
theorem rewriteColumnRef_of_find {q : SelectStmt C V} {part : Part}
    (hpart : part = .havingClause ∨ part = .sortClause) {c : ColumnRef C}
    (h : q.groupColumns.find? (sameName c) = none) :
    rewriteColumnRef q part c = if getPoolColumn q c then .pool c else .raw c := by
  have hnone : q.groupColumns.findIdx? (sameName c) = none := by
    rw [List.findIdx?_eq_none_iff]
    intro g hg
    simpa using List.find?_eq_none.mp h g hg
  rw [rewriteColumnRef, change_by_name hpart, hnone]
  rfl

theorem eq_input {d : Denotes C} (h : d.isInput = true) : ∃ x, d = .input x := by
  cases d with
  | input x => exact ⟨x, rfl⟩
  | output i => cases h

theorem eq_output {d : Denotes C} (h : d.isInput = false) : ∃ i, d = .output i := by
  cases d with
  | input x => cases h
  | output i => exact ⟨i, rfl⟩

theorem Expr.eval_congr {L β : Type} {e : Expr L V β} {f f' : L → Option V} (h : ∀ l ∈ e.leaves, f l = f' l) :
    e.eval f = e.eval f' :=
  congrArg e.value (List.map_congr_left h)

theorem Item.eval_congr {L : Type} {item : Item L V} {f f' : L → Option V} {outs outs' : Nat → Option V}
    (h : ∀ l ∈ item.leaves, f l = f' l) (houts : outs = outs') : item.eval f outs = item.eval f' outs' := by
  subst houts
  cases item with
  | expr e => exact Expr.eval_congr h
  | position i => rfl

section Printed

variable {q : SelectStmt C V}

theorem mem_targetLeaves {e : Expr (Leaf C V) V (Option V)} (he : e ∈ q.targetList) {l : Leaf C V}
    (hl : l ∈ e.leaves) : l ∈ q.targetLeaves :=
  List.mem_flatMap.mpr ⟨e, he, hl⟩

theorem mem_targetCalls {f : FuncCall C V} (h : .call f ∈ q.targetLeaves) : f ∈ q.targetCalls :=
  List.mem_filterMap.mpr ⟨.call f, h, rfl⟩

theorem mem_havingCalls {f : FuncCall C V} (h : .call f ∈ q.havingLeaves) : f ∈ q.havingCalls :=
  List.mem_filterMap.mpr ⟨.call f, h, rfl⟩

theorem known_of_renamed {part : Part} {c : ColumnRef C} (h : Renamed q part c) :
    (rewriteColumnRef q part c).known (analyze q).columns = true := by
  obtain ⟨n, g, hrewrite, hcolumn, -, -⟩ := h
  rw [hrewrite, OuterColumn.known, analyze_columns, decide_eq_true_iff]
  exact (List.getElem?_eq_some_iff.mp hcolumn).1

/-- A name that is not found in the `GROUP BY` clause, in a query that runs. -/
theorem raw_of_find {part : Part} (hpart : part = .havingClause ∨ part = .sortClause) {c : ColumnRef C}
    (h : q.groupColumns.find? (sameName c) = none)
    (hknown : (rewriteColumnRef q part c).known (analyze q).columns = true) :
    getPoolColumn q c = false ∧ c.denotes.isInput = false := by
  rw [rewriteColumnRef_of_find hpart h] at hknown
  cases hpool : getPoolColumn q c with
  | true =>
    rw [hpool] at hknown
    cases hknown
  | false =>
    refine ⟨rfl, ?_⟩
    rw [hpool, if_neg Bool.false_ne_true, OuterColumn.known] at hknown
    cases hdenotes : c.denotes with
    | input x =>
      rw [hdenotes] at hknown
      cases hknown
    | output i => rfl

theorem renamed_group (ha : Accepted q) {c : ColumnRef C} (hc : c ∈ q.groupColumns) :
    Renamed q .groupClause c := by
  obtain ⟨j, g, hfind, hg, hnode⟩ := exists_findIdx (p := fun g => c.node = g.node) hc (by simp)
  have heq : c = g := ha.columns c hc g (List.mem_of_getElem? hg) (of_decide_eq_true hnode)
  refine renamed_of_change ?_ hg (congrArg ColumnRef.denotes heq.symm)
  rw [columnChangebyAggregate, analyze_col, analyze_tfunc, hfind]
  rfl

theorem renamed_target {c g : ColumnRef C} (hc : .column c ∈ q.targetLeaves) (h : q.mapped c = some g)
    (hdenotes : g.denotes = c.denotes) : Renamed q .targetList c := by
  obtain ⟨o, hchange, -, hlast⟩ := change_target (mem_targetColumns hc)
  rw [h] at hlast
  obtain ⟨j, rfl, hg⟩ := Option.bind_eq_some_iff.mp hlast
  exact renamed_of_change hchange hg hdenotes

variable [Numeric V]

/-- The call becomes an aggregate of the column of the inner query for the same call. -/
def Regrouped (q : SelectStmt C V) (part : Part) (f : FuncCall C V) : Prop :=
  ∃ n h, rewriteFuncCall q part f = .call f.funcname f.distinct n ∧ q.innerColumns[n]? = some (.call h) ∧
    f.Same h

theorem names_of_regrouped {part : Part} {f : FuncCall C V} (h : Regrouped q part f) :
    Names q part (.call f) := by
  obtain ⟨n, g, hrewrite, hcolumn, hsame⟩ := h
  rw [Names, hrewrite, analyze_columns]
  exact ⟨g, hcolumn, hsame⟩

theorem regrouped_target (ha : Accepted q) {f : FuncCall C V} (hf : f ∈ q.targetCalls) :
    Regrouped q .targetList f := by
  obtain ⟨n, g, hfind, hg, hnode⟩ := exists_findIdx (p := fun t => f.node = t.node) hf (by simp)
  have heq : f = g := ha.calls f (List.mem_append_left _ hf) g
    (List.mem_append_left _ (List.mem_of_getElem? hg)) (of_decide_eq_true hnode)
  refine ⟨n, g, ?_, innerColumns_call hg, heq ▸ ⟨rfl, rfl, rfl⟩⟩
  rw [rewriteFuncCall, funcChangebyAggregate, analyze_tfunc, hfind]

theorem regrouped_having (hk : Kept q) {f : FuncCall C V} (hf : f ∈ q.havingCalls) :
    Regrouped q .havingClause f := by
  obtain ⟨n, -, hfind, -, -⟩ := exists_findIdx (p := fun t => f.node = t.node) hf (by simp)
  obtain ⟨h, hcolumn, hsame⟩ := hk.havingCalls f hf n hfind
  refine ⟨n, h, ?_, hcolumn, hsame⟩
  rw [rewriteFuncCall, funcChangebyAggregate, analyze_hfunc, hfind]

theorem regrouped_sort (hk : Kept q) (hd : Decomposes q) {f : FuncCall C V} (hf : .call f ∈ q.sortLeaves) :
    Regrouped q .sortClause f := by
  obtain ⟨t, ht, htext⟩ := hd.written f hf
  obtain ⟨n, h, hfind, hcall, -⟩ :=
    exists_findIdx (p := fun t => outFuncCall f = outFuncCall t) ht (by simpa using htext)
  refine ⟨n, h, ?_, innerColumns_call hcall, hk.sortCalls f hf h (find_eq_some.mpr ⟨n, hfind, hcall⟩)⟩
  rw [rewriteFuncCall, funcChangebyAggregate, analyze_tfunc, hfind]

/-- What holds of the leaves of a clause: the calls are regrouped, the columns renamed, or output columns. -/
structure Clause (q : SelectStmt C V) (part : Part) (l : Leaf C V) : Prop where
  call : ∀ f, l = .call f → Regrouped q part f ∧ (f.distinct = true → f.funcname = .min ∨ f.funcname = .max)
  column : ∀ c, l = .column c → Renamed q part c ∨
    ((∃ i, c.denotes = .output i) ∧ rewriteColumnRef q part c = .raw c)

theorem clause_target (ha : Accepted q) (hk : Kept q) (hd : Decomposes q) {l : Leaf C V}
    (hl : l ∈ q.targetLeaves) : Clause q .targetList l where
  call f hf := by
    subst hf
    exact ⟨regrouped_target ha (mem_targetCalls hl), hd.splits f (List.mem_append_left _ (mem_targetCalls hl))⟩
  column c hc := by
    subst hc
    obtain ⟨g, hmapped, hdenotes⟩ := hk.targetColumns c hl
    exact .inl (renamed_target hl hmapped hdenotes)

theorem clause_having (hk : Kept q) (hd : Decomposes q) {l : Leaf C V} (hl : l ∈ q.havingLeaves) :
    Clause q .havingClause l where
  call f hf := by
    subst hf
    exact ⟨regrouped_having hk (mem_havingCalls hl), hd.splits f (List.mem_append_right _ (mem_havingCalls hl))⟩
  column c hc := by
    subst hc
    obtain ⟨g, hfind, hdenotes⟩ := hk.havingColumns c hl
    exact .inl (renamed_of_find (.inl rfl) hfind hdenotes)

theorem clause_sort (hk : Kept q) (hd : Decomposes q) {l : Leaf C V} (hl : l ∈ q.sortLeaves) :
    Clause q .sortClause l where
  call f hf := by
    subst hf
    refine ⟨regrouped_sort hk hd hl, fun hdistinct => ?_⟩
    obtain ⟨t, ht, htext⟩ := hd.written f hl
    obtain ⟨n, h, hfind, hcall, -⟩ :=
      exists_findIdx (p := fun t => outFuncCall f = outFuncCall t) ht (by simpa using htext)
    obtain ⟨hname, hdistinct', -⟩ := hk.sortCalls f hl h (find_eq_some.mpr ⟨n, hfind, hcall⟩)
    rw [hname]
    exact hd.splits h (List.mem_append_left _ (List.mem_of_getElem? hcall)) (hdistinct' ▸ hdistinct)
  column c hc := by
    subst hc
    rcases hk.sortColumns c hl with ⟨g, hfind, hdenotes⟩ | ⟨hfind, hpool, houtput⟩
    · exact .inl (renamed_of_find (.inr rfl) hfind hdenotes)
    · refine .inr ⟨eq_output houtput, ?_⟩
      rw [rewriteColumnRef_of_find (.inr rfl) hfind, hpool]
      rfl

theorem names_of_clause {part : Part} {l : Leaf C V} (h : Clause q part l) : Names q part l := by
  cases l with
  | call f => exact names_of_regrouped (h.call f rfl).1
  | column c =>
    rcases h.column c rfl with hrenamed | ⟨-, hraw⟩
    · exact namesColumn_of_renamed hrenamed
    · rw [Names, NamesColumn, hraw]
      trivial

theorem known_of_clause {part : Part} {l : Leaf C V} (h : Clause q part l) :
    (rewriteLeaf q part l).known (analyze q).columns = true := by
  cases l with
  | call f =>
    obtain ⟨⟨n, h, hrewrite, hcolumn, hname, -, -⟩, -⟩ := h.call f rfl
    rw [rewriteLeaf, hrewrite, OuterLeaf.known, analyze_columns, hcolumn]
    by_cases havg : f.funcname = .avg <;> simp [← hname, havg]
  | column c =>
    rcases h.column c rfl with hrenamed | ⟨⟨i, hi⟩, hraw⟩
    · exact known_of_renamed hrenamed
    · rw [rewriteLeaf, hraw, OuterLeaf.known, OuterColumn.known, hi]

theorem runs_of_kept (ha : Accepted q) (hk : Kept q) (hd : Decomposes q) : q.runs = true := by
  simp only [SelectStmt.runs, Bool.and_eq_true, List.all_eq_true]
  exact ⟨⟨⟨⟨hk.groupColumns, fun c hc => known_of_renamed (renamed_group ha hc)⟩,
    fun l hl => known_of_clause (clause_target ha hk hd hl)⟩,
    fun l hl => known_of_clause (clause_having hk hd hl)⟩,
    fun l hl => known_of_clause (clause_sort hk hd hl)⟩

/-- Two rows that an expression cannot tell apart: they have one key, or there is no `GROUP BY` clause. -/
def OneKey (q : SelectStmt C V) (row row' : Option (Row C V)) : Prop :=
  q.groupClause = [] ∨ ∃ r r', row = some r ∧ row' = some r' ∧ q.key r = q.key r'

theorem eval_oneKey {β : Type} {e : Expr (Leaf C V) V β} (hs : Settled q e) {part : Part}
    (hc : ∀ l ∈ e.leaves, Clause q part l) {row row' : Option (Row C V)} (h : OneKey q row row')
    (calls : FuncCall C V → Option V) (outs : Nat → Option V) :
    e.eval (Leaf.valueAt calls row outs) = e.eval (Leaf.valueAt calls row' outs) := by
  rcases h with hgroup | ⟨r, r', rfl, rfl, hkey⟩
  · refine Expr.eval_congr fun l hl => ?_
    cases l with
    | call f => rfl
    | column c =>
      rcases (hc _ hl).column c rfl with ⟨-, g, -, -, hg, -⟩ | ⟨⟨i, hi⟩, -⟩
      · rw [SelectStmt.groupColumns, hgroup] at hg
        cases hg
      · rw [Leaf.valueAt, Leaf.valueAt, hi]
        rfl
  · exact hs calls outs r r' hkey

end Printed

/-! ## The values -/

section Values

variable [LinearOrder V] [Numeric V]

theorem FuncName.aggregate_perm (f : FuncName) {distinct : Bool}
    (hd : distinct = true → f = .min ∨ f = .max) {xs ys : List (Option V)} (h : xs.Perm ys) :
    f.aggregate distinct xs = f.aggregate distinct ys := by
  have hxs : (if distinct then xs.dedup else xs).Perm (if distinct then ys.dedup else ys) := by
    split
    · exact h.dedup
    · exact h
  cases f with
  | count => exact count_perm hxs
  | sum => exact sum_perm hxs
  | min => exact extreme_perm chooses_min hxs
  | max => exact extreme_perm chooses_max hxs
  | avg => exact avg_perm hxs

theorem FuncCall.value_perm {f : FuncCall C V} (hd : f.distinct = true → f.funcname = .min ∨ f.funcname = .max)
    {g g' : List (Row C V)} (h : g.Perm g') : f.value g = f.value g' :=
  f.funcname.aggregate_perm hd (h.map _)

omit [Numeric V] in
/-- The least and the greatest value are the same with `DISTINCT`. -/
theorem FuncName.aggregate_extreme {choose : List V → Option V} {before : V → V → Prop}
    (hc : Chooses choose before) (distinct : Bool) (xs : List (Option V)) :
    extreme choose (if distinct then xs.dedup else xs) = extreme choose xs := by
  split
  · exact extreme_dedup hc xs
  · rfl

omit [Numeric V] in
/-- The least and the greatest value of what the parts have. -/
theorem extreme_parts {choose : List V → Option V} {before : V → V → Prop} (hc : Chooses choose before)
    (distinct : Bool) (argument : Row C V → Option V) (P : List (List (Row C V))) :
    extreme choose (if distinct then (P.map fun g =>
        extreme choose (if distinct then (g.map argument).dedup else g.map argument)).dedup
      else P.map fun g => extreme choose (if distinct then (g.map argument).dedup else g.map argument)) =
      extreme choose (if distinct then (P.flatten.map argument).dedup else P.flatten.map argument) := by
  have hcells : (P.map fun g => extreme choose (if distinct then (g.map argument).dedup else g.map argument)) =
      (P.map (List.map argument)).map (extreme choose) := by
    rw [List.map_map]
    exact List.map_congr_left fun g _ => FuncName.aggregate_extreme hc distinct _
  rw [FuncName.aggregate_extreme hc, FuncName.aggregate_extreme hc, hcells, extreme_map_extreme hc,
    List.map_flatten]

/-- **The aggregate of what the parts of a group have is the aggregate of the group.** -/
theorem outerCall_parts {f : FuncCall C V} (hd : f.distinct = true → f.funcname = .min ∨ f.funcname = .max)
    {P : List (List (Row C V))} (hP : P ≠ []) :
    outerCall f.funcname f.distinct (P.map fun g => (innerCell g (.call f)).value)
      (P.map fun g => (innerCell g (.call f)).count) = f.value P.flatten := by
  have hparts : (P.map (List.map f.argument)).flatten = P.flatten.map f.argument := List.map_flatten.symm
  have hne : P.map (List.map f.argument) ≠ [] := by simpa using hP
  obtain ⟨node, funcname, distinct, args⟩ := f
  cases funcname with
  | count =>
    have hplain : distinct = false := by simpa using hd
    subst hplain
    have h := sum_map_count hne
    rw [List.map_map, hparts] at h
    exact h
  | sum =>
    have hplain : distinct = false := by simpa using hd
    subst hplain
    have h := sum_map_sum (P.map (List.map (FuncCall.argument ⟨node, .sum, false, args⟩)))
    rw [List.map_map, hparts] at h
    exact h
  | avg =>
    have hplain : distinct = false := by simpa using hd
    subst hplain
    have h := divide_sum_sum (P.map (List.map (FuncCall.argument ⟨node, .avg, false, args⟩)))
    rw [List.map_map, List.map_map, hparts] at h
    exact h
  | min => exact extreme_parts chooses_min distinct _ P
  | max => exact extreme_parts chooses_max distinct _ P

theorem innerRow_getElem? {q : SelectStmt C V} {n : Nat} {l : Leaf C V} (h : q.innerColumns[n]? = some l)
    (g : List (Row C V)) : (innerRow (analyze q) g)[n]? = some (innerCell g l) := by
  rw [innerRow, analyze_columns, List.getElem?_map, h]
  rfl

theorem innerCell_same {f h : FuncCall C V} (hs : f.Same h) (g : List (Row C V)) :
    innerCell g (.call h) = innerCell g (.call f) := by
  obtain ⟨hname, hdistinct, hargument⟩ := hs
  simp only [innerCell, FuncCall.value, hname, hdistinct, hargument]

/-- An aggregate of the outer query. -/
theorem value_of_regrouped {q : SelectStmt C V} {part : Part} {f : FuncCall C V} (h : Regrouped q part f)
    (hd : f.distinct = true → f.funcname = .min ∨ f.funcname = .max) {P : List (List (Row C V))} (hP : P ≠ [])
    (outs : Nat → Option V) :
    (rewriteFuncCall q part f).value (P.map (innerRow (analyze q))) outs = f.value P.flatten := by
  obtain ⟨n, h, hrewrite, hcolumn, hsame⟩ := h
  rw [hrewrite, OuterLeaf.value, List.map_map, List.map_map, ← outerCall_parts hd hP]
  have hvalues : cellValue n ∘ innerRow (analyze q) = fun g => (innerCell g (.call f)).value := by
    funext g
    rw [Function.comp_apply, cellValue, innerRow_getElem? hcolumn, innerCell_same hsame]
    rfl
  have hcounts : cellCount n ∘ innerRow (analyze q) = fun g => (innerCell g (.call f)).count := by
    funext g
    rw [Function.comp_apply, cellCount, innerRow_getElem? hcolumn, innerCell_same hsame]
    rfl
  rw [hvalues, hcounts]

/-- A column of the outer query, in the row for a group. -/
theorem value_of_renamed {q : SelectStmt C V} (hk : Kept q) {part : Part} {c : ColumnRef C}
    (h : Renamed q part c) (g : List (Row C V)) (outs outs' : Nat → Option V) :
    (rewriteColumnRef q part c).value (some (innerRow (analyze q) g)) outs = c.denotes.value g.head? outs' := by
  obtain ⟨n, u, hrewrite, hcolumn, hu, hdenotes⟩ := h
  obtain ⟨x, hx⟩ := eq_input (hk.groupColumns u hu)
  rw [hrewrite, OuterColumn.value, Option.bind_some, cellValue, innerRow_getElem? hcolumn, ← hdenotes]
  simp only [Option.bind_some, innerCell, hx, Denotes.value]

/-! ## The groups -/

section Groups

variable {q : SelectStmt C V}

/-- The value of a leaf of the outer query, where the rows for a group come from the parts of it. -/
theorem value_of_clause (hk : Kept q) {part : Part} {l : Leaf C V} (h : Clause q part l)
    {p : List (Row C V)} {P : List (List (Row C V))} {g : List (Row C V)} (hg : (p :: P).flatten.Perm g)
    (outs : Nat → Option V) :
    (rewriteLeaf q part l).value ((p :: P).map (innerRow (analyze q))) outs =
      l.valueAt (FuncCall.value g) p.head? outs := by
  cases l with
  | call f =>
    obtain ⟨hregrouped, hd⟩ := h.call f rfl
    exact (value_of_regrouped hregrouped hd (List.cons_ne_nil p P) outs).trans (FuncCall.value_perm hd hg)
  | column c =>
    rcases h.column c rfl with hrenamed | ⟨⟨i, hi⟩, hraw⟩
    · exact value_of_renamed hk hrenamed p outs outs
    · rw [rewriteLeaf, hraw, Leaf.valueAt, OuterLeaf.value, OuterColumn.value, hi]
      rfl

/-- **The row of the outer query for a group is the one of the query.** -/
theorem outerResult_eq (ha : Accepted q) (hk : Kept q) (hd : Decomposes q) {p : List (Row C V)}
    {P : List (List (Row C V))} {g : List (Row C V)} (hg : (p :: P).flatten.Perm g) (hkey : OneKey q p.head? g.head?) :
    q.outerResult ((p :: P).map (innerRow (analyze q))) = q.result g := by
  have htarget : ∀ e ∈ q.targetList, (e.eval fun leaf =>
      (rewriteLeaf q .targetList leaf).value ((p :: P).map (innerRow (analyze q))) noOutput) =
        e.eval (Leaf.value g noOutput) := fun e he => by
    have hclause : ∀ l ∈ e.leaves, Clause q .targetList l := fun l hl =>
      clause_target ha hk hd (mem_targetLeaves he hl)
    exact (Expr.eval_congr fun l hl => value_of_clause hk (hclause l hl) hg noOutput).trans
      (eval_oneKey (ha.target e he) hclause hkey _ _)
  have hhaving : (q.havingClause.eval fun leaf =>
      (rewriteLeaf q .havingClause leaf).value ((p :: P).map (innerRow (analyze q))) noOutput) =
        q.havingClause.eval (Leaf.value g noOutput) := by
    have hclause : ∀ l ∈ q.havingClause.leaves, Clause q .havingClause l := fun l hl => clause_having hk hd hl
    exact (Expr.eval_congr fun l hl => value_of_clause hk (hclause l hl) hg noOutput).trans
      (eval_oneKey ha.having hclause hkey _ _)
  have houtput : q.outerOutput ((p :: P).map (innerRow (analyze q))) = q.output g := by
    funext i
    rw [SelectStmt.outerOutput, SelectStmt.output]
    refine Option.bind_congr fun e he => ?_
    exact htarget e (List.mem_of_getElem? he)
  have hsort : ∀ item ∈ q.sortClause, (item.eval (fun leaf =>
      (rewriteLeaf q .sortClause leaf).value ((p :: P).map (innerRow (analyze q))) (q.output g)) (q.output g)) =
        item.eval (Leaf.value g (q.output g)) (q.output g) := fun item hitem => by
    cases item with
    | position i => rfl
    | expr e =>
      have hclause : ∀ l ∈ e.leaves, Clause q .sortClause l := fun l hl =>
        clause_sort hk hd (List.mem_flatMap.mpr ⟨_, hitem, hl⟩)
      exact (Expr.eval_congr fun l hl => value_of_clause hk (hclause l hl) hg _).trans
        (eval_oneKey (ha.sort e hitem) hclause hkey _ _)
  rw [SelectStmt.outerResult, SelectStmt.result, hhaving, houtput, List.map_congr_left htarget,
    List.map_congr_left hsort]

/-- A group of the inner query has one value in each of its columns. -/
theorem value_head_of_mem (hk : Kept q) {rows p : List (Row C V)} (hmem : p ∈ innerGroups (analyze q) rows)
    (hcol : q.groupColumns ≠ []) {r : Row C V} (hr : r ∈ p) {g : ColumnRef C} (hg : g ∈ q.groupColumns)
    (outs outs' : Nat → Option V) : g.denotes.value p.head? outs = g.denotes.value (some r) outs' := by
  obtain ⟨x, hx⟩ := eq_input (hk.groupColumns g hg)
  have hgrouped : (!(analyze q).col.isEmpty) = true := by simpa using hcol
  rw [innerGroups, hgrouped] at hmem
  cases p with
  | nil => cases hr
  | cons r' p =>
    have hkey := key_eq_of_mem_groups hmem List.mem_cons_self hr
    rw [innerKey, innerKey, analyze_col, List.map_inj_left] at hkey
    have hvalue := hkey g hg
    rw [hx] at hvalue ⊢
    exact hvalue

/-- The outer query groups the row for a part like the rows of it. -/
theorem outerKey_innerRow (ha : Accepted q) (hk : Kept q) {rows p : List (Row C V)}
    (hmem : p ∈ innerGroups (analyze q) rows) (hcol : q.groupColumns ≠ []) {r : Row C V} (hr : r ∈ p) :
    q.outerKey (innerRow (analyze q) p) = q.key r := by
  have hvalue : ∀ {part : Part} {c : ColumnRef C} (outs outs' : Nat → Option V), Renamed q part c →
      (rewriteColumnRef q part c).value (some (innerRow (analyze q) p)) outs = c.denotes.value (some r) outs' := by
    intro part c outs outs' h
    rw [value_of_renamed hk h p outs outs]
    obtain ⟨-, g, -, -, hg, hdenotes⟩ := h
    rw [← hdenotes]
    exact value_head_of_mem hk hmem hcol hr hg _ _
  have houtput : q.outerRowOutput (innerRow (analyze q) p) = q.rowOutput r := by
    funext i
    rw [SelectStmt.outerRowOutput, SelectStmt.rowOutput]
    refine Option.bind_congr fun e he => Expr.eval_congr fun l hl => ?_
    have hleaf := mem_targetLeaves (List.mem_of_getElem? he) hl
    cases l with
    | call f =>
      obtain ⟨n, h, hrewrite, -⟩ := regrouped_target ha (mem_targetCalls hleaf)
      rw [rewriteLeaf, hrewrite]
      rfl
    | column c =>
      obtain ⟨g, hmapped, hdenotes⟩ := hk.targetColumns c hleaf
      exact hvalue _ _ (renamed_target hleaf hmapped hdenotes)
  rw [SelectStmt.outerKey, SelectStmt.key, houtput]
  refine List.map_congr_left fun item hitem => Item.eval_congr (fun c hc => ?_) rfl
  exact hvalue _ _ (renamed_group ha (List.mem_flatMap.mpr ⟨item, hitem, hc⟩))

omit [Numeric V] in
/-- The inner queries lose no row. -/
theorem flatten_innerGroups_perm (agg : Aggexpr C V) (nodes : List (List (Row C V))) :
    (nodes.flatMap (innerGroups agg)).flatten.Perm nodes.flatten := by
  induction nodes with
  | nil => rfl
  | cons node nodes ih =>
    rw [List.flatMap_cons, List.flatten_append, List.flatten_cons]
    exact (flatten_groups_perm _ _ node).append ih

theorem merged_eq (nodes : List (List (Row C V))) :
    q.merged nodes = (groups q.grouped (q.outerKey ∘ innerRow (analyze q))
      (nodes.flatMap (innerGroups (analyze q)))).filterMap fun P =>
        q.outerResult (P.map (innerRow (analyze q))) := by
  have hinner : nodes.flatMap (inner (analyze q)) =
      (nodes.flatMap (innerGroups (analyze q))).map (innerRow (analyze q)) := by
    rw [List.map_flatMap]
    rfl
  rw [SelectStmt.merged, hinner, groups_map, List.filterMap_map]
  rfl

/-- **The outer query, over the answers of the nodes, gives the answer.** -/
theorem merged_perm (ha : Accepted q) (hk : Kept q) (hd : Decomposes q) (node : List (Row C V))
    (nodes : List (List (Row C V))) : (q.merged (node :: nodes)).Perm (q.answer (node :: nodes).flatten) := by
  have hrows := flatten_innerGroups_perm (analyze q) (node :: nodes)
  rw [merged_eq, SelectStmt.answer]
  by_cases hgroup : q.groupClause = []
  · -- one group, to which every node gives one row
    have hgrouped : q.grouped = false := by rw [SelectStmt.grouped, hgroup]; rfl
    have hcol : (!(analyze q).col.isEmpty) = false := by
      rw [analyze_col, SelectStmt.groupColumns, hgroup]
      rfl
    have hparts : (node :: nodes).flatMap (innerGroups (analyze q)) = node :: nodes := by
      have hone : innerGroups (analyze q) = fun rows => [rows] := by
        funext rows
        rw [innerGroups, hcol]
        rfl
      rw [hone, List.flatMap_singleton']
    rw [hgrouped, groups_false, groups_false, hparts, List.filterMap_cons, List.filterMap_cons,
      outerResult_eq ha hk hd (List.Perm.refl _) (.inl hgroup)]
    exact List.Perm.refl _
  · have hgrouped : q.grouped = true := by simpa [SelectStmt.grouped] using hgroup
    have hcol := hd.grouped.resolve_left hgroup
    have hnode : ∀ p ∈ (node :: nodes).flatMap (innerGroups (analyze q)),
        ∃ rows, p ∈ innerGroups (analyze q) rows := fun p hp => by
      obtain ⟨rows, -, h⟩ := List.mem_flatMap.mp hp
      exact ⟨rows, h⟩
    have hne : ∀ p ∈ (node :: nodes).flatMap (innerGroups (analyze q)), p ≠ [] := fun p hmem => by
      obtain ⟨rows, h⟩ := hnode p hmem
      have hinner : (!(analyze q).col.isEmpty) = true := by simpa using hcol
      rw [innerGroups, hinner] at h
      exact ne_nil_of_mem_groups h
    have hkey : ∀ p ∈ (node :: nodes).flatMap (innerGroups (analyze q)), ∀ r ∈ p,
        (q.outerKey ∘ innerRow (analyze q)) p = q.key r := fun p hmem r hr => by
      obtain ⟨rows, h⟩ := hnode p hmem
      exact outerKey_innerRow ha hk h hcol hr
    rw [hgrouped]
    refine groups_parts hrows hne hkey fun P g hP hg hperm => ?_
    cases P with
    | nil => exact absurd rfl (ne_nil_of_mem_groups hP)
    | cons p P =>
      have hpart := mem_of_mem_groups hP List.mem_cons_self
      obtain ⟨r, p', rfl⟩ := List.exists_cons_of_ne_nil (hne p hpart)
      obtain ⟨r', g', rfl⟩ := List.exists_cons_of_ne_nil (ne_nil_of_mem_groups hg)
      have hr : r ∈ r' :: g' := hperm.mem_iff.mp (by simp)
      exact outerResult_eq ha hk hd hperm
        (.inr ⟨r, r', rfl, rfl, key_eq_of_mem_groups hg hr List.mem_cons_self⟩)

/-! ## When it is right -/

theorem exact_of_kept (ha : Accepted q) (hk : Kept q) (hd : Decomposes q) : Exact q where
  target l hl := names_of_clause (clause_target ha hk hd hl)
  group c hc := namesColumn_of_renamed (renamed_group ha hc)
  having l hl := names_of_clause (clause_having hk hd hl)
  sort l hl := names_of_clause (clause_sort hk hd hl)
  answer node nodes := by
    refine ⟨q.merged (node :: nodes), ?_, merged_perm ha hk hd node nodes⟩
    rw [SelectStmt.rewritten, runs_of_kept ha hk hd]
    rfl

theorem kept_of_exact (ha : Accepted q) (he : Exact q) : Kept q := by
  obtain ⟨rows, hrewritten, -⟩ := he.answer [] []
  have hruns : q.runs = true := by
    by_contra h
    rw [SelectStmt.rewritten, if_neg h] at hrewritten
    cases hrewritten
  simp only [SelectStmt.runs, Bool.and_eq_true, List.all_eq_true] at hruns
  obtain ⟨⟨⟨⟨hgroup, -⟩, -⟩, hhaving⟩, hsort⟩ := hruns
  constructor
  · intro c hc
    have hnames : NamesColumn q .targetList c := he.target _ hc
    obtain ⟨o, hchange, hlt, hlast⟩ := change_target (mem_targetColumns hc)
    cases o with
    | none =>
      rw [NamesColumn, rewriteColumnRef, hchange] at hnames
      exact hnames.elim
    | some j =>
      have hg := List.getElem?_eq_getElem (hlt j rfl)
      exact ⟨_, hlast.symm.trans hg, denotes_of_namesColumn hnames hchange hg⟩
  · exact hgroup
  · intro f hf n hfind
    have hleaf : .call f ∈ q.havingLeaves := by
      obtain ⟨l, hl, hcall⟩ := List.mem_filterMap.mp hf
      cases l with
      | call f' => cases hcall; exact hl
      | column c => cases hcall
    have hnames := he.having _ hleaf
    rw [Names, rewriteFuncCall, funcChangebyAggregate, analyze_hfunc, hfind, analyze_columns] at hnames
    exact hnames
  · intro c hc
    have hnames : NamesColumn q .havingClause c := he.having _ hc
    cases hfind : q.groupColumns.find? (sameName c) with
    | some g => exact ⟨g, rfl, denotes_of_find (.inl rfl) hfind hnames⟩
    | none =>
      have houtput := (raw_of_find (.inl rfl) hfind (hhaving _ hc)).2
      rw [ha.inputs c (List.mem_append_right _ hc)] at houtput
      cases houtput
  · intro f hf h hfind
    have hnames := he.sort _ hf
    obtain ⟨n, hn, hcall⟩ := find_eq_some.mp hfind
    rw [Names, rewriteFuncCall, funcChangebyAggregate, analyze_tfunc, hn, analyze_columns] at hnames
    obtain ⟨h', hcolumn, hsame⟩ := hnames
    rw [innerColumns_call hcall] at hcolumn
    cases hcolumn
    exact hsame
  · intro c hc
    have hnames : NamesColumn q .sortClause c := he.sort _ hc
    cases hfind : q.groupColumns.find? (sameName c) with
    | some g => exact .inl ⟨g, rfl, denotes_of_find (.inr rfl) hfind hnames⟩
    | none => exact .inr ⟨rfl, raw_of_find (.inr rfl) hfind (hsort _ hc)⟩

end Groups

end Values

/-! ## A query with a condition on an aggregate -/

/-- An expression that is one leaf. -/
def Expr.only {L : Type} (l : L) : Expr L ℚ (Option ℚ) := ⟨[l], fun values => values.head?.join⟩

def inputRef (node : Nat) (column : String) : ColumnRef String := ⟨node, none, column, .input column⟩

/-- An aggregate of `y`. -/
def ofY (node : Nat) (funcname : FuncName) : FuncCall String ℚ :=
  ⟨node, funcname, false, some ⟨"y", .only (inputRef (node + 1) "y")⟩⟩

/-- `SELECT x, avg(y) FROM t GROUP BY x HAVING f(y) > 1 ORDER BY x`. -/
def averages (f : FuncName) : SelectStmt String ℚ where
  targetList := [.only (.column (inputRef 0 "x")), .only (.call (ofY 1 .avg))]
  groupClause := [.expr (.only (inputRef 3 "x"))]
  havingClause := ⟨[.call (ofY 4 f)], fun values => values.head?.join.any (1 < ·)⟩
  sortClause := [.expr (.only (.column (inputRef 6 "x")))]
  virtual := [("t", "x"), ("t", "y")]

theorem accepted_averages (f : FuncName) : Accepted (averages f) where
  calls := by
    intro f hf h hh
    simp only [averages, SelectStmt.targetCalls, SelectStmt.targetLeaves, SelectStmt.havingCalls,
      SelectStmt.havingLeaves, Expr.only, List.flatMap_cons, List.flatMap_nil, List.filterMap_cons, Leaf.call?,
      List.filterMap_nil, List.cons_append, List.nil_append, List.mem_cons, List.not_mem_nil, or_false] at hf hh
    rcases hf with rfl | rfl <;> rcases hh with rfl | rfl <;> simp [ofY]
  columns := by
    intro c hc g hg
    simp only [averages, SelectStmt.groupColumns, Item.leaves, Expr.only, List.flatMap_cons, List.flatMap_nil,
      List.append_nil, List.mem_singleton] at hc hg
    rw [hc, hg]
    exact fun _ => rfl
  inputs := by
    intro c hc
    simp only [averages, SelectStmt.targetLeaves, SelectStmt.havingLeaves, Expr.only, List.flatMap_cons,
      List.flatMap_nil, List.cons_append, List.nil_append, List.mem_cons, Leaf.column.injEq, reduceCtorEq,
      List.not_mem_nil, or_false] at hc
    rw [hc]
    rfl
  target := by
    intro e he calls outs r r' hkey
    have hx : r "x" = r' "x" := (List.cons.inj hkey).1
    rcases List.mem_cons.mp he with rfl | he
    · exact hx
    · rw [List.mem_singleton.mp he]
      rfl
  having := fun _ _ _ _ _ => rfl
  sort := by
    intro e he calls outs r r' hkey
    cases List.mem_singleton.mp he
    exact (List.cons.inj hkey).1

end PgPool.Pushdown
