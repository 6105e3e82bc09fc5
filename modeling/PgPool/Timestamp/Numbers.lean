import PgPool.Lib.Supply
import PgPool.Timestamp.Pass

/-!
# The numbers of the parameters that are added

The walk looks for the highest number as it goes, and the parameters that it adds are numbered from there.
A parameter where the walk does not get is not counted.
-/

namespace PgPool

namespace Timestamp

open PgPool.Timestamp.Tree

variable {ctx ctx₁ ctx₂ : Ctx} {ms ms' old old' mid new new' : List Nat} {head : Head}
  {kids : List Tree} {visits : Nat → Bool} (master : Master)

/-! ## A pass -/

/-- A pass in parameter mode: parameters have been met, and others been added. -/
structure Adds (ctx ctx' : Ctx) (met old new : List Nat) : Prop where
  on : ctx'.rewriteToParams = true
  highest : ctx'.numParams = met.foldl max ctx.numParams
  supplied : Supplied ctx.added ctx'.added old new
  rewrite : ctx'.rewrite = true → ctx.rewrite = true ∨ ctx.added < ctx'.added

namespace Adds

theorem refl (hon : ctx.rewriteToParams = true) : Adds ctx ctx [] old old where
  on := hon
  highest := rfl
  supplied := .refl
  rewrite := Or.inl

theorem rewrite_trans (hfirst : Adds ctx ctx₁ ms old new) (hsecond : Adds ctx₁ ctx₂ ms' old' new')
    (h : ctx₂.rewrite = true) : ctx.rewrite = true ∨ ctx.added < ctx₂.added := by
  have hle₁ := hfirst.supplied.le
  have hle₂ := hsecond.supplied.le
  cases hsecond.rewrite h with
  | inl hrewrite =>
    cases hfirst.rewrite hrewrite with
    | inl hbefore => exact Or.inl hbefore
    | inr hless => exact Or.inr (by omega)
  | inr hless => exact Or.inr (by omega)

theorem append (hfirst : Adds ctx ctx₁ ms old new) (hsecond : Adds ctx₁ ctx₂ ms' old' new') :
    Adds ctx ctx₂ (ms ++ ms') (old ++ old') (new ++ new') where
  on := hsecond.on
  highest := by rw [List.foldl_append, ← hfirst.highest, hsecond.highest]
  supplied := hfirst.supplied.append hsecond.supplied
  rewrite := hfirst.rewrite_trans hsecond

theorem andThen (hfirst : Adds ctx ctx₁ ms old mid) (hsecond : Adds ctx₁ ctx₂ ms' mid new) :
    Adds ctx ctx₂ (ms ++ ms') old new where
  on := hsecond.on
  highest := by rw [List.foldl_append, ← hfirst.highest, hsecond.highest]
  supplied := hfirst.supplied.andThen hsecond.supplied
  rewrite := hfirst.rewrite_trans hsecond

theorem count (hon : ctx.rewriteToParams = true) (head : Head) :
    Adds ctx (ctx.count head) head.param?.toList [] [] := by
  cases head with
  | paramRef number =>
    simp only [Ctx.count]
    split
    · next hless => exact ⟨hon, (max_eq_right (Nat.le_of_lt hless)).symm, .refl, Or.inl⟩
    · next hge => exact ⟨hon, (max_eq_left (Nat.le_of_not_lt hge)).symm, .refl, Or.inl⟩
  | _ => exact refl hon

theorem found (hon : ctx.rewriteToParams = true) : Adds ctx ctx.found [] [] [ctx.added] := by
  have hfound : ctx.found = { ctx with added := ctx.added + 1, rewrite := true } := by
    simp [Ctx.found, Ctx.makeTsExpr, hon, Ctx.setRewrite]
  rw [hfound]
  exact ⟨hon, rfl, .one, fun _ => Or.inr (Nat.lt_succ_self _)⟩

end Adds

theorem makeTsExpr_on (hon : ctx.rewriteToParams = true) :
    ctx.makeTsExpr.1 = .node (.tsParam ctx.added) [] := by
  simp [Ctx.makeTsExpr, hon]

theorem tsParamsList_append (ts us : List Tree) :
    tsParamsList (ts ++ us) = tsParamsList ts ++ tsParamsList us := by
  induction ts with
  | nil => rfl
  | cons t ts ih => simp [tsParamsList, ih]

theorem paramsList_append (ts us : List Tree) :
    paramsList (ts ++ us) = paramsList ts ++ paramsList us := by
  induction ts with
  | nil => rfl
  | cons t ts ih => simp [paramsList, ih]

/-! ## The walk -/

theorem met_const (val : Value) : (Tree.const val).met = [] := by
  rfl

/-- Both sub-nodes of a cast are walked. -/
theorem met_typeCast (arg type : Tree) :
    (Tree.node .typeCast [arg, type]).met = arg.met ++ type.met := by
  simp [Tree.met, metList, walks, site_eq_now, Head.param?, Head.visits]

theorem tsParams_typeCast (arg type : Tree) :
    (Tree.node .typeCast [arg, type]).tsParams = arg.tsParams ++ type.tsParams := by
  simp [Tree.tsParams, tsParamsList, Head.tsParam?]

/-- A walk of `t` as a pass. -/
def WalkAdds (t : Tree) : Prop :=
  ∀ ctx : Ctx, ctx.rewriteToParams = true → t.tsParams = [] →
    Adds ctx (walker t ctx).2 t.met [] (walker t ctx).1.tsParams

theorem adds_walkList (visits : Nat → Bool) (ih : ∀ t ∈ kids, WalkAdds t) (hon : ctx.rewriteToParams = true)
    (hfresh : tsParamsList kids = []) :
    Adds ctx (walkList visits kids ctx).2 (metList visits kids) []
      (tsParamsList (walkList visits kids ctx).1) := by
  induction kids generalizing visits ctx with
  | nil => exact .refl hon
  | cons t ts ihts =>
    obtain ⟨ht, hts⟩ := List.append_eq_nil_iff.1 hfresh
    have hrest := fun u hu => ih u (List.mem_cons_of_mem t hu)
    cases hvisit : visits 0 with
    | true =>
      have hfirst := ih t List.mem_cons_self ctx hon ht
      rw [walkList_cons_visited hvisit]
      simpa [metList, hvisit, tsParamsList] using hfirst.append (ihts _ hrest hfirst.on hts)
    | false =>
      rw [walkList_cons_skipped hvisit]
      simpa [metList, hvisit, tsParamsList, ht] using ihts _ hrest hon hts

theorem tsParam?_of_fresh (hfresh : (Tree.node head kids).tsParams = []) :
    head.tsParam?.toList = [] ∧ tsParamsList kids = [] :=
  List.append_eq_nil_iff.1 hfresh

theorem walkAdds (t : Tree) : WalkAdds t := by
  induction t using walker_induction with
  | plain head kids hsite ih =>
    intro ctx hon hfresh
    obtain ⟨hhead, hkids⟩ := tsParam?_of_fresh hfresh
    have hnow := not_nowCall_of_plain hsite
    have hcount := Adds.count hon head
    rw [walker_plain hsite]
    simpa [Tree.met, walks_eq_visits hnow, Tree.tsParams, hhead] using
      hcount.append (adds_walkList _ ih hcount.on hkids)
  | now kids ih =>
    intro ctx hon hfresh
    obtain ⟨-, hkids⟩ := tsParam?_of_fresh hfresh
    have hfound := Adds.found hon
    have htail : tsParamsList kids.tail = [] := by
      cases kids with
      | nil => rfl
      | cons t ts => exact (List.append_eq_nil_iff.1 hkids).2
    have hrest := adds_walkList (fun i => i != 0)
      (fun t ht => ih t (List.mem_of_mem_tail ht)) hfound.on htail
    have hmet : (Tree.node (.funcCall ["pg_catalog", "now"]) kids).met =
        metList (fun i => i != 0) kids.tail := by
      cases kids with
      | nil => rfl
      | cons t ts => simp [Tree.met, metList, walks, site_eq_now, Head.param?, Head.visits]
    rw [walker_now, hmet]
    simpa [makeTsExpr_on hon, nowArgs, listOf, Tree.cast, systemType, Tree.tsParams, tsParamsList,
      Head.tsParam?] using hfound.append hrest
  | nowText text type hsite ihtext ihtype =>
    intro ctx hon hfresh
    simp only [tsParams_typeCast, List.append_eq_nil_iff] at hfresh
    have hfound := Adds.found hon
    have htext := ihtext _ hfound.on hfresh.1.2
    have htype := ihtype _ htext.on hfresh.2
    rw [walker_nowText hsite]
    simpa [makeTsExpr_on hon, met_typeCast, met_const, tsParams_typeCast, Tree.tsParams,
      Head.tsParam?, tsParamsList] using (hfound.append htext).append htype
  | nowConst type hsite ih =>
    intro ctx hon hfresh
    simp only [tsParams_typeCast, List.append_eq_nil_iff] at hfresh
    have hfound := Adds.found hon
    rw [walker_nowConst hsite]
    simpa [makeTsExpr_on hon, met_typeCast, met_const, tsParams_typeCast, Tree.tsParams,
      Head.tsParam?, tsParamsList] using hfound.append (ih _ hfound.on hfresh.2)

/-! ## The parts of a statement -/

def itemsMet (ts : List Tree) : List Nat := metList (fun _ => true) ts

def ResTarget.met (res : ResTarget) : List Nat := itemsMet res.indirection ++ res.val.met

def InsertSource.met (source : InsertSource) : List Nat :=
  itemsMet source.front ++ (source.valuesLists.flatMap itemsMet ++ itemsMet source.back)

/-- The root is not met. -/
def metBelow (t : Tree) : List Nat := metList t.head.visits t.kids

/-- The numbers of the parameters that `rewrite_timestamp` meets. -/
def Dml.met : Dml → List Nat
  | .insert stmt => stmt.selectStmt.elim [] InsertSource.met
  | .update stmt => stmt.targetList.flatMap ResTarget.met ++ (metBelow stmt.whereClause ++
      itemsMet stmt.fromClause)
  | .delete stmt => itemsMet stmt.usingClause ++ metBelow stmt.whereClause

theorem adds_walkItems {ts : List Tree} (hon : ctx.rewriteToParams = true)
    (hfresh : tsParamsList ts = []) :
    Adds ctx (walkItems ts ctx).2 (itemsMet ts) [] (tsParamsList (walkItems ts ctx).1) :=
  adds_walkList _ (fun t _ => walkAdds t) hon hfresh

theorem adds_walkBelow {t : Tree} (hon : ctx.rewriteToParams = true) (hfresh : t.tsParams = []) :
    Adds ctx (walkBelow t ctx).2 (metBelow t) [] (walkBelow t ctx).1.tsParams := by
  obtain ⟨head, kids⟩ := t
  obtain ⟨hhead, hkids⟩ := tsParam?_of_fresh hfresh
  have hlist := adds_walkList head.visits (fun t _ => walkAdds t) hon hkids
  simpa [walkBelow, metBelow, Tree.head, Tree.kids, Tree.tsParams, hhead] using hlist

theorem adds_walkTargets {targets : List ResTarget} (hon : ctx.rewriteToParams = true)
    (hfresh : tsParamsList (targets.flatMap ResTarget.trees) = []) :
    Adds ctx (walkTargets targets ctx).2 (targets.flatMap ResTarget.met) []
      (tsParamsList ((walkTargets targets ctx).1.flatMap ResTarget.trees)) := by
  induction targets generalizing ctx with
  | nil => exact .refl hon
  | cons res rest ih =>
    simp only [List.flatMap_cons, ResTarget.trees, tsParamsList_append, tsParamsList,
      List.append_eq_nil_iff] at hfresh
    obtain ⟨⟨hindirection, hval, -⟩, hrest⟩ := hfresh
    have hfirst := adds_walkItems hon hindirection
    have hsecond := walkAdds res.val _ hfirst.on hval
    have hthird := ih hsecond.on hrest
    simpa [walkTargets, ResTarget.trees, ResTarget.met, tsParamsList_append, tsParamsList] using
      hfirst.append (hsecond.append hthird)

theorem adds_walkRows {rows : List (List Tree)} (hon : ctx.rewriteToParams = true)
    (hfresh : tsParamsList rows.flatten = []) :
    Adds ctx (walkRows rows ctx).2 (rows.flatMap itemsMet) []
      (tsParamsList (walkRows rows ctx).1.flatten) := by
  induction rows generalizing ctx with
  | nil => exact .refl hon
  | cons row rest ih =>
    simp only [List.flatten_cons, tsParamsList_append, List.append_eq_nil_iff] at hfresh
    have hfirst := adds_walkItems hon hfresh.1
    simpa [walkRows, tsParamsList_append] using hfirst.append (ih hfirst.on hfresh.2)

theorem adds_walkSource {source : InsertSource} (hon : ctx.rewriteToParams = true)
    (hfresh : tsParamsList source.trees = []) :
    Adds ctx (walkSource source ctx).2 source.met [] (tsParamsList (walkSource source ctx).1.trees) := by
  simp only [InsertSource.trees, tsParamsList_append, List.append_eq_nil_iff] at hfresh
  have hfront := adds_walkItems hon hfresh.1.1
  have hrows := adds_walkRows hfront.on hfresh.1.2
  have hback := adds_walkItems hrows.on hfresh.2
  simpa [walkSource, InsertSource.trees, InsertSource.met, tsParamsList_append] using
    hfront.append (hrows.append hback)

/-! ## Defaults -/

theorem tsParams_of_isDefault {t : Tree} (h : t.isDefault = true) : t.tsParams = [] := by
  unfold isDefault at h
  split at h
  · rfl
  · cases h

theorem makeDefault_on (hon : ctx.rewriteToParams = true) (attr : TSAttr) :
    makeDefault master attr ctx = (.node (.tsParam ctx.added) [], { ctx with added := ctx.added + 1 }) := by
  simp [makeDefault, Ctx.makeTsExpr, hon]

theorem adds_makeDefault (hon : ctx.rewriteToParams = true) (attr : TSAttr) :
    Adds ctx (makeDefault master attr ctx).2 [] [] (tsParamsList [(makeDefault master attr ctx).1]) := by
  rw [makeDefault_on master hon]
  exact ⟨hon, rfl, .one, Or.inl⟩

theorem adds_setRewrite_makeDefault (hon : ctx.rewriteToParams = true) (attr : TSAttr) :
    Adds ctx (makeDefault master attr ctx).2.setRewrite [] []
      (tsParamsList [(makeDefault master attr ctx).1]) := by
  rw [makeDefault_on master hon]
  exact ⟨hon, rfl, .one, fun _ => Or.inr (Nat.lt_succ_self _)⟩

/-- The loops over rows and columns meet no parameters. -/
theorem pass_adds : Pass master fun ctx ctx' old new =>
    ctx.rewriteToParams = true → Adds ctx ctx' [] (tsParamsList old) (tsParamsList new) where
  refl _ _ hon := .refl hon
  append hfirst hsecond hon := by
    have hadds := hfirst hon
    simpa [tsParamsList_append] using hadds.append (hsecond hadds.on)
  default _ hon := .refl hon
  made _ attr hon := adds_makeDefault master hon attr
  filled _ attr hon := adds_setRewrite_makeDefault master hon attr
  replaced ctx attr val hdefault hon := by
    have hval : tsParamsList [val] = [] := by simp [tsParamsList, tsParams_of_isDefault hdefault]
    rw [hval]
    exact adds_setRewrite_makeDefault master hon attr

/-- Something is added for a column that is appended. -/
theorem added_lt_appendDefaults {attrs : List TSAttr} (hon : ctx.rewriteToParams = true)
    (h : attrs ≠ []) : ctx.added < (appendDefaults master attrs ctx).2.added := by
  cases attrs with
  | nil => exact absurd rfl h
  | cons attr attrs =>
    have hfirst := adds_makeDefault master hon attr
    have hrest := ((pass_adds master).appendDefaults attrs hfirst.on).supplied.le
    have hmade : (makeDefault master attr ctx).2.added = ctx.added + 1 := by
      rw [makeDefault_on master hon]
    simp only [appendDefaults]
    omega

theorem added_lt_rewriteListedRows {attrs appended : List TSAttr} {names : List String}
    {rows rows' : List (List Tree)} (hon : ctx.rewriteToParams = true)
    (h : rewriteListedRows master attrs appended names rows ctx = some (rows', ctx₁))
    (happended : appended ≠ []) (hrows : rows ≠ []) : ctx.added < ctx₁.added := by
  unfold rewriteListedRows at h
  split at h
  · exact absurd rfl hrows
  · split at h
    · cases h
    · next hrow =>
      cases h
      have hfirst := (pass_adds master).rewriteListed hrow hon
      exact Nat.lt_of_le_of_lt hfirst.supplied.le
        (added_lt_appendDefaults master hfirst.on happended)
  · cases h

theorem tsParamsList_appendedTargets (attrs : List TSAttr) :
    tsParamsList ((attrs.map appendedTarget).flatMap ResTarget.trees) = [] := by
  induction attrs with
  | nil => rfl
  | cons attr attrs ih => simpa [ResTarget.trees, appendedTarget, tsParamsList, Tree.null,
      Tree.tsParams, Head.tsParam?] using ih

/-! ## The statements -/

/-- A source without new parameters within its INSERT. -/
theorem tsParams_insert {stmt : InsertStmt} (h : tsParamsList stmt.trees = []) :
    tsParamsList (stmt.cols.flatMap ResTarget.trees) = [] ∧
      tsParamsList (stmt.selectStmt.elim [] InsertSource.trees) = [] ∧
      tsParamsList stmt.returningList = [] := by
  simpa [InsertStmt.trees, tsParamsList_append] using h

/-- After the walk of the source only its rows change. -/
theorem adds_rows {source : InsertSource} {rows : List (List Tree)}
    (hfirst : Adds ctx ctx₁ ms [] (tsParamsList source.trees))
    (hrows : Adds ctx₁ ctx₂ [] (tsParamsList source.valuesLists.flatten) (tsParamsList rows.flatten)) :
    Adds ctx ctx₂ ms [] (tsParamsList { source with valuesLists := rows }.trees) := by
  have hfront : Adds ctx₁ ctx₁ [] (tsParamsList source.front) (tsParamsList source.front) :=
    .refl hfirst.on
  have hback : Adds ctx₂ ctx₂ [] (tsParamsList source.back) (tsParamsList source.back) :=
    .refl hrows.on
  have hsecond : Adds ctx₁ ctx₂ [] (tsParamsList source.trees)
      (tsParamsList { source with valuesLists := rows }.trees) := by
    simpa [InsertSource.trees, tsParamsList_append] using (hfront.append hrows).append hback
  have hboth := hfirst.andThen hsecond
  rwa [List.append_nil] at hboth

theorem Adds.of_setRewrite (h : Adds ctx.setRewrite ctx₁ ms old new) (hless : ctx.added < ctx₁.added) :
    Adds ctx ctx₁ ms old new where
  on := h.on
  highest := h.highest
  supplied := h.supplied
  rewrite _ := Or.inr hless

/-- An INSERT with another source and other columns. -/
theorem tsParams_replace {stmt : InsertStmt} (hfresh : tsParamsList stmt.trees = [])
    (source : InsertSource) (appended : List TSAttr) :
    tsParamsList (stmt.replace source appended).trees = tsParamsList source.trees := by
  obtain ⟨hcols, -, hreturning⟩ := tsParams_insert hfresh
  simp [InsertStmt.replace, InsertStmt.trees, tsParamsList_append, hcols, hreturning,
    tsParamsList_appendedTargets]

theorem adds_insert {stmt stmt' : InsertStmt} (hon : ctx.rewriteToParams = true)
    (hfresh : tsParamsList stmt.trees = []) {rewrite : Bool}
    (h : rewriteTimestampInsert master stmt ctx = some (stmt', ctx₁, rewrite))
    (hrewrite : rewrite = true) :
    Adds ctx ctx₁ (Dml.insert stmt).met [] (tsParamsList stmt'.trees) ∧ ctx₁.rewrite = true := by
  obtain ⟨hctx, hcases⟩ := insert_cases h hrewrite
  refine ⟨?_, hctx⟩
  obtain ⟨attrs, hselect, -, rfl, hvalues⟩ | ⟨source, hselect, hsource⟩ := hcases
  · rw [hvalues hctx, tsParams_replace hfresh]
    simpa [Dml.met, hselect, InsertSource.trees, tsParamsList] using
      (pass_adds master).fillColumns attrs hon
  · have hfrom := (tsParams_insert hfresh).2.1
    rw [hselect] at hfrom
    have hwalk := adds_walkSource hon hfrom
    have hmet : (Dml.insert stmt).met = source.met := by simp [Dml.met, hselect]
    rw [hmet]
    obtain ⟨-, rfl, rfl⟩ | ⟨attrs, rows, -, -, hrows, rfl⟩ | ⟨attrs, rows, -, -, hvalues, hrows, rfl⟩ :=
      hsource
    · rw [tsParams_replace hfresh]
      exact hwalk
    · rw [tsParams_replace hfresh]
      exact adds_rows hwalk ((pass_adds master).rewriteRows hrows hwalk.on)
    · rw [tsParams_replace hfresh]
      refine adds_rows hwalk ?_
      split at hrows
      · exact (pass_adds master).rewriteListedRows hrows hwalk.on
      · next happended =>
        have hset : (walkSource source ctx).2.setRewrite.rewriteToParams = true := hwalk.on
        have hless := added_lt_rewriteListedRows master hset hrows (by simpa using happended) hvalues
        exact ((pass_adds master).rewriteListedRows hrows hset).of_setRewrite hless

theorem adds_update {stmt stmt' : UpdateStmt} (hon : ctx.rewriteToParams = true)
    (hfresh : tsParamsList stmt.trees = []) {rewrite : Bool}
    (h : rewriteTimestampUpdate master stmt ctx = (stmt', ctx₁, rewrite)) (hrewrite : rewrite = true) :
    Adds ctx ctx₁ (Dml.update stmt).met [] (tsParamsList stmt'.trees) ∧ ctx₁.rewrite = true := by
  have hparts : tsParamsList (stmt.targetList.flatMap ResTarget.trees) = [] ∧
      stmt.whereClause.tsParams = [] ∧ tsParamsList stmt.fromClause = [] ∧
      tsParamsList stmt.returningList = [] := by
    simpa [UpdateStmt.trees, tsParamsList_append, tsParamsList] using hfresh
  obtain ⟨htargets, hwhere, hfrom, hreturning⟩ := hparts
  have hfirst := adds_walkTargets hon htargets
  have hsecond := adds_walkBelow hfirst.on hwhere
  have hthird := adds_walkItems hsecond.on hfrom
  have hwalk := hfirst.append (hsecond.append hthird)
  unfold rewriteTimestampUpdate at h
  simp only at h
  split at h
  · cases h
    cases hrewrite
  · next targets ctx₂ hsets =>
    cases h
    refine ⟨?_, hrewrite⟩
    have hset := (pass_adds master).rewriteSets hsets hthird.on
    have hboth := hwalk.andThen (hset.append (.refl hset.on))
    simpa [Dml.met, UpdateStmt.trees, tsParamsList_append, tsParamsList, hreturning] using hboth

theorem adds_delete {stmt stmt' : DeleteStmt} (hon : ctx.rewriteToParams = true)
    (hfresh : tsParamsList stmt.trees = []) {rewrite : Bool}
    (h : rewriteTimestampDelete stmt ctx = (stmt', ctx₁, rewrite)) (hrewrite : rewrite = true) :
    Adds ctx ctx₁ (Dml.delete stmt).met [] (tsParamsList stmt'.trees) ∧ ctx₁.rewrite = true := by
  have hparts : tsParamsList stmt.usingClause = [] ∧ stmt.whereClause.tsParams = [] ∧
      tsParamsList stmt.returningList = [] := by
    simpa [DeleteStmt.trees, tsParamsList_append, tsParamsList] using hfresh
  obtain ⟨husing, hwhere, hreturning⟩ := hparts
  have hfirst := adds_walkItems hon husing
  have hsecond := adds_walkBelow hfirst.on hwhere
  simp only [rewriteTimestampDelete, Prod.mk.injEq] at h
  obtain ⟨rfl, rfl, hctx⟩ := h
  refine ⟨?_, hctx.trans hrewrite⟩
  simpa [Dml.met, DeleteStmt.trees, tsParamsList_append, tsParamsList, hreturning] using
    hfirst.append hsecond

theorem adds_rewriteDml {query query' : Dml} (hon : ctx.rewriteToParams = true)
    (hfresh : tsParamsList query.trees = [])
    (h : rewriteDml master ctx query = some (query', ctx₁, true)) :
    Adds ctx ctx₁ query.met [] (tsParamsList query'.trees) ∧ ctx₁.rewrite = true := by
  obtain ⟨stmt, stmt', rfl, rfl, hinsert⟩ | ⟨stmt, stmt', rfl, rfl, hupdate⟩ |
    ⟨stmt, stmt', rfl, rfl, hdelete⟩ := rewriteDml_cases h
  · exact adds_insert master hon hfresh hinsert rfl
  · exact adds_update master hon hfresh hupdate rfl
  · exact adds_delete hon hfresh hdelete rfl

/-! ## The numbers -/

/-- A statement as it is parsed: nothing has been added to it yet. -/
structure Parsed where
  stmt : Stmt
  fresh : tsParamsList stmt.trees = []

def Stmt.params (stmt : Stmt) : List Nat := paramsList stmt.trees

/-- `argtypes` of a PREPARE. -/
def Stmt.argtypes? : Stmt → Option (List Tree)
  | .prepare _ argtypes _ => some argtypes
  | _ => none

/-- An INSERT, UPDATE or DELETE whose calls become parameters. -/
def Stmt.Parametric (rewriteToParams : Bool) : Stmt → Prop
  | .dml _ => rewriteToParams = true
  | .prepare _ _ _ => True
  | _ => False

/-- The highest number that `rewrite_timestamp` meets. -/
def Stmt.highest : Stmt → Nat
  | .dml query | .prepare _ _ query => query.met.foldl max 0
  | _ => 0

/-- The numbers of the parameters that have been added. -/
def Rewritten.added (r : Rewritten) : List Nat := (tsParamsList r.stmt.trees).map r.number

/-- The parameters added are numbered apart from each other and from those of the statement `orig`, and
their number and their types are told. -/
structure Rewritten.Numbered (orig : Stmt) (r : Rewritten) : Prop where
  apart : r.added.Nodup
  above : ∀ n ∈ r.added, ∀ p ∈ orig.params, p < n
  counted : r.numTsparams = some r.added.length
  typed : ∀ types, orig.argtypes? = some types → ∃ types', r.stmt.argtypes? = some types' ∧
    ∀ i, types'[i]? = if i + 1 ∈ r.added then some (systemType "timestamptz") else types[i]?

/-- There is a message, no parameter is higher than all that are met, and each that is met has its type. -/
structure Counted (message : Option Nat) (stmt : Stmt) : Prop where
  message : message.isSome = true
  params : ∀ p ∈ stmt.params, p ≤ stmt.highest
  argtypes : ∀ types, stmt.argtypes? = some types → types.length = stmt.highest

theorem tsParamsList_replicate (n : Nat) (name : String) :
    tsParamsList (List.replicate n (systemType name)) = [] := by
  induction n with
  | zero => rfl
  | succ n ih => simpa [List.replicate_succ, tsParamsList, systemType, listOf, Tree.tsParams,
      Head.tsParam?] using ih

/-- The outcome of a rewriting in parameter mode: `n` parameters are added. -/
structure Outcome (message : Option Nat) (orig : Stmt) (r : Rewritten) (n : Nat) : Prop where
  pos : 0 < n
  perm : (tsParamsList r.stmt.trees).Perm (List.range n)
  message : message = none ∧ r.numTsparams = none ∨
    message.isSome = true ∧ r.numTsparams = some n ∧ r.number = (fun k => orig.highest + 1 + k) ∧
      ∀ types, orig.argtypes? = some types →
        r.stmt.argtypes? = some (types ++ List.replicate n (systemType "timestamptz"))

/-- A PREPARE gets the types of `n` parameters. -/
def Stmt.addTypes (n : Nat) : Stmt → Stmt
  | .prepare name types query =>
      .prepare name (types ++ List.replicate n (systemType "timestamptz")) query
  | stmt => stmt

theorem tsParams_addTypes (n : Nat) (stmt : Stmt) :
    tsParamsList (stmt.addTypes n).trees = tsParamsList stmt.trees := by
  cases stmt <;> simp [Stmt.addTypes, Stmt.trees, tsParamsList_append, tsParamsList_replicate]

theorem finish_some {m : Nat} {stmt : Stmt} (hon : ctx.rewriteToParams = true) :
    finish master (some m) ctx stmt =
      some ⟨stmt.addTypes ctx.added, fun k => ctx.numParams + 1 + k, some ctx.added⟩ := by
  simp only [finish, hon]
  rfl

theorem finish_none (stmt : Stmt) : finish master none ctx stmt =
    master.currentTimestamp.map fun _ => ⟨stmt, fun _ => 0, none⟩ := by
  cases hclock : master.currentTimestamp <;> cases hmode : ctx.rewriteToParams <;>
    simp [finish, hclock, hmode]

theorem outcome_of_finish {message : Option Nat} {orig stmt : Stmt} {r : Rewritten}
    (hadds : Adds (.init true) ctx ms [] (tsParamsList stmt.trees)) (hrewrite : ctx.rewrite = true)
    (hhighest : orig.highest = ms.foldl max 0) (htypes : stmt.argtypes? = orig.argtypes?)
    (h : finish master message ctx stmt = some r) : Outcome message orig r ctx.added := by
  have hpos : 0 < ctx.added := (hadds.rewrite hrewrite).resolve_left nofun
  cases message with
  | none =>
    rw [finish_none, Option.map_eq_some_iff] at h
    obtain ⟨_, -, rfl⟩ := h
    exact ⟨hpos, hadds.supplied.perm_range, Or.inl ⟨rfl, rfl⟩⟩
  | some m =>
    rw [finish_some master hadds.on] at h
    cases h
    refine ⟨hpos, ?_, Or.inr ⟨rfl, rfl, ?_, ?_⟩⟩
    · rw [tsParams_addTypes]
      exact hadds.supplied.perm_range
    · rw [hadds.highest, hhighest]
      rfl
    · intro types horig
      cases stmt with
      | prepare name types' query =>
        rw [horig] at htypes
        cases htypes
        rfl
      | _ =>
        rw [horig] at htypes
        cases htypes

theorem outcome_of_parametric {toParams : Bool} {message : Option Nat} {stmt : Parsed} {r : Rewritten}
    (hmode : stmt.stmt.Parametric toParams)
    (h : rewriteTimestamp master toParams message stmt.stmt = some (some r)) :
    ∃ n, Outcome message stmt.stmt r n := by
  obtain ⟨stmt, hfresh⟩ := stmt
  cases stmt with
  | dml query =>
    cases (show toParams = true from hmode)
    obtain ⟨query', ctx, rewrite, hrewrite, hout⟩ := rewriteTimestamp_dml h
    obtain ⟨rfl, hfinish⟩ := Option.ite_none_right_eq_some.mp hout.symm
    obtain ⟨hadds, hctx⟩ := adds_rewriteDml master rfl hfresh hrewrite
    refine ⟨_, outcome_of_finish master hadds hctx ?_ ?_ hfinish⟩ <;> rfl
  | prepare name argtypes query =>
    obtain ⟨query', ctx, rewrite, hrewrite, hout⟩ := rewriteTimestamp_prepare h
    obtain ⟨rfl, hfinish⟩ := Option.ite_none_right_eq_some.mp hout.symm
    have hparts : tsParamsList argtypes = [] ∧ tsParamsList query.trees = [] := by
      simpa [Stmt.trees, tsParamsList_append] using hfresh
    obtain ⟨hadds, hctx⟩ := adds_rewriteDml master rfl hparts.2 hrewrite
    have hall : Adds (.init true) ctx query.met []
        (tsParamsList (Stmt.prepare name argtypes query').trees) := by
      simpa [Stmt.trees, tsParamsList_append, hparts.1] using hadds
    refine ⟨_, outcome_of_finish master hall hctx ?_ ?_ hfinish⟩ <;> rfl
  | _ => cases hmode

/-- The numbers that have been given. -/
theorem Outcome.added_perm {message : Option Nat} {orig : Stmt} {r : Rewritten} {n : Nat}
    (h : Outcome message orig r n) (hnumber : r.number = fun k => orig.highest + 1 + k) :
    r.added.Perm (List.range' (orig.highest + 1) n) := by
  have hmap := h.perm.map r.number
  rwa [hnumber, List.range_eq_range', List.map_add_range', Nat.add_zero, ← hnumber] at hmap

/-- `n` types behind `k` others are at the places after the `k`-th. -/
theorem getElem?_addTypes {types : List Tree} {t : Tree} (n i : Nat) :
    (types ++ List.replicate n t)[i]? =
      if types.length < i + 1 ∧ i + 1 ≤ types.length + n then some t else types[i]? := by
  rw [List.getElem?_append, List.getElem?_replicate]
  split
  · next hless => rw [if_neg (by omega)]
  · next hge =>
    have hnone : types[i]? = none := List.getElem?_eq_none (by omega)
    rw [hnone]
    congr 1
    exact propext (by omega)

/-- They are nowhere else. -/
theorem length_eq_of_typed {types : List Tree} {t : Tree} {n k : Nat} (hpos : 0 < n)
    (h : ∀ i, (types ++ List.replicate n t)[i]? =
      if k < i + 1 ∧ i + 1 ≤ k + n then some t else types[i]?) : types.length = k := by
  have hend (i : Nat) (hi : types.length ≤ i) : types[i]? = none := List.getElem?_eq_none hi
  -- the first of them, and the last
  have hfirst := h types.length
  have hlast := h (types.length + n - 1)
  rw [getElem?_addTypes, if_pos (by omega)] at hfirst hlast
  have hge : k < types.length + 1 := by
    by_contra hless
    rw [if_neg (by omega), hend _ (Nat.le_refl _)] at hfirst
    cases hfirst
  have hle : types.length + n - 1 + 1 ≤ k + n := by
    by_contra hless
    rw [if_neg (by omega), hend _ (by omega)] at hlast
    cases hlast
  omega

/-- `l = r`. -/
def equals (l r : Tree) : Tree := .node (.other .aExpr) [l, r]

/-- `PREPARE p(int4, int4) AS UPDATE t SET a = CURRENT_TIMESTAMP, b = $2 WHERE $1 = $2`. -/
def countedPrepare : Parsed where
  stmt := .prepare "p" [.systemType "int4", .systemType "int4"] (.update
    { relname := "t"
      targetList := [⟨"a", [], .currentTimestamp⟩, ⟨"b", [], .param 2⟩]
      whereClause := equals (.param 1) (.param 2)
      fromClause := []
      returningList := [] })
  fresh := rfl

/-- `UPDATE t SET a = CURRENT_TIMESTAMP RETURNING $1`. -/
def returnedParam : Parsed where
  stmt := .dml (.update
    { relname := "t"
      targetList := [⟨"a", [], .currentTimestamp⟩]
      whereClause := .null
      fromClause := []
      returningList := [⟨.other .resTarget, [.param 1]⟩] })
  fresh := rfl

end Timestamp

end PgPool
