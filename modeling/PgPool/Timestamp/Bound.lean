import PgPool.Timestamp.Defaults

/-!
# The values that are bound

A Bind message or an EXECUTE gets the time for each of the parameters that have been added.  What is stored
for the default of a time column is compared with what is stored when it has been replaced by a constant.
-/

namespace PgPool

namespace Timestamp

open PgPool.Timestamp.Tree

variable {ctx ctx₁ : Ctx} {head : Head} {kids : List Tree} {visits : Nat → Bool} {master : Master}

/-! ## No numbers are brought in -/

theorem paramsList_walkList (ih : ∀ t ∈ kids, ∀ ctx, (walker t ctx).1.params ⊆ t.params) :
    paramsList (walkList visits kids ctx).1 ⊆ paramsList kids := by
  induction kids generalizing visits ctx with
  | nil => exact List.Subset.refl _
  | cons t ts ihts =>
    have hrest := fun u hu => ih u (List.mem_cons_of_mem t hu)
    cases hvisit : visits 0 with
    | true =>
      rw [walkList_cons_visited hvisit]
      exact List.append_subset.2 ⟨List.subset_append_of_subset_left _ (ih t List.mem_cons_self ctx),
        List.subset_append_of_subset_right _ (ihts hrest)⟩
    | false =>
      rw [walkList_cons_skipped hvisit]
      exact List.append_subset.2 ⟨List.subset_append_left _ _,
        List.subset_append_of_subset_right _ (ihts hrest)⟩

theorem params_makeTsExpr : ctx.makeTsExpr.1.params = [] := by
  unfold Ctx.makeTsExpr
  split <;> rfl

theorem params_typeCast (arg type : Tree) :
    (Tree.node .typeCast [arg, type]).params = arg.params ++ type.params := by
  simp [Tree.params, paramsList, Head.param?]

theorem params_walker (t : Tree) : ∀ ctx, (walker t ctx).1.params ⊆ t.params := by
  induction t using walker_induction with
  | plain head kids hsite ih =>
    intro ctx
    rw [walker_plain hsite]
    exact List.append_subset.2 ⟨List.subset_append_left _ _,
      List.subset_append_of_subset_right _ (paramsList_walkList ih)⟩
  | now kids ih =>
    intro ctx
    rw [walker_now]
    have hrest : paramsList (walkList (fun i => i != 0) kids.tail ctx.found).1 ⊆ paramsList kids.tail :=
      paramsList_walkList fun t ht => ih t (List.mem_of_mem_tail ht)
    have htail : paramsList kids.tail ⊆ paramsList kids := by
      cases kids with
      | nil => exact List.Subset.refl _
      | cons t ts => exact List.subset_append_right _ _
    simpa [Tree.params, paramsList, nowArgs, listOf, Tree.cast, systemType, Head.param?,
      params_makeTsExpr] using List.Subset.trans hrest htail
  | nowText text type hsite ihtext ihtype =>
    intro ctx
    rw [walker_nowText hsite]
    simp only [params_typeCast, params_makeTsExpr, List.nil_append]
    refine List.append_subset.2 ⟨?_, List.subset_append_of_subset_right _ (ihtype _)⟩
    exact List.subset_append_of_subset_left _ (List.subset_append_of_subset_right _ (ihtext _))
  | nowConst type hsite ih =>
    intro ctx
    rw [walker_nowConst hsite]
    simp only [params_typeCast, params_makeTsExpr, List.nil_append]
    exact List.subset_append_of_subset_right _ (ih _)

theorem paramsList_walkItems (ts : List Tree) : paramsList (walkItems ts ctx).1 ⊆ paramsList ts :=
  paramsList_walkList fun t _ => params_walker t

theorem params_walkBelow (t : Tree) : (walkBelow t ctx).1.params ⊆ t.params := by
  obtain ⟨head, kids⟩ := t
  exact List.append_subset.2 ⟨List.subset_append_left _ _,
    List.subset_append_of_subset_right _ (paramsList_walkList fun t _ => params_walker t)⟩

theorem params_makeDefault (attr : TSAttr) : (makeDefault master attr ctx).1.params = [] := by
  unfold makeDefault
  split
  · exact params_makeTsExpr
  · show (makeStringConstFromQuery master attr.adsrc).params = []
    unfold makeStringConstFromQuery
    split <;> rfl

theorem append_subset_append {as as' bs bs' : List Nat} (h : as' ⊆ as) (h' : bs' ⊆ bs) :
    as' ++ bs' ⊆ as ++ bs :=
  List.append_subset.2 ⟨List.subset_append_of_subset_left _ h, List.subset_append_of_subset_right _ h'⟩

theorem pass_params : Pass master fun _ _ old new => paramsList new ⊆ paramsList old where
  refl _ _ := List.Subset.refl _
  append hfirst hsecond := by
    rw [paramsList_append, paramsList_append]
    exact append_subset_append hfirst hsecond
  default _ := List.Subset.refl _
  made ctx attr := by simp [paramsList, params_makeDefault]
  filled ctx attr := by simp [paramsList, params_makeDefault]
  replaced ctx attr val _ := by simp [paramsList, params_makeDefault]

theorem params_walkTargets (targets : List ResTarget) :
    paramsList ((walkTargets targets ctx).1.flatMap ResTarget.trees) ⊆
      paramsList (targets.flatMap ResTarget.trees) := by
  induction targets generalizing ctx with
  | nil => exact List.Subset.refl _
  | cons res rest ih =>
    simp only [walkTargets, List.flatMap_cons, ResTarget.trees, paramsList_append, paramsList,
      List.append_nil]
    exact append_subset_append
      (append_subset_append (paramsList_walkItems res.indirection) (params_walker res.val _)) ih

theorem params_walkRows (rows : List (List Tree)) :
    paramsList (walkRows rows ctx).1.flatten ⊆ paramsList rows.flatten := by
  induction rows generalizing ctx with
  | nil => exact List.Subset.refl _
  | cons row rows ih =>
    simp only [walkRows, List.flatten_cons, paramsList_append]
    exact append_subset_append (paramsList_walkItems row) ih

theorem params_walkSource (source : InsertSource) :
    paramsList (walkSource source ctx).1.trees ⊆ paramsList source.trees := by
  simp only [walkSource, InsertSource.trees, paramsList_append]
  exact append_subset_append
    (append_subset_append (paramsList_walkItems source.front) (params_walkRows source.valuesLists))
    (paramsList_walkItems source.back)

theorem params_rows {source : InsertSource} {rows : List (List Tree)}
    (h : paramsList rows.flatten ⊆ paramsList source.valuesLists.flatten) :
    paramsList { source with valuesLists := rows }.trees ⊆ paramsList source.trees := by
  simp only [InsertSource.trees, paramsList_append]
  exact append_subset_append (append_subset_append (List.Subset.refl _) h) (List.Subset.refl _)

theorem params_replace {stmt : InsertStmt} {source : InsertSource} {appended : List TSAttr}
    (h : paramsList source.trees ⊆ paramsList (stmt.selectStmt.elim [] InsertSource.trees)) :
    paramsList (stmt.replace source appended).trees ⊆ paramsList stmt.trees := by
  have happended : paramsList ((appended.map appendedTarget).flatMap ResTarget.trees) = [] := by
    induction appended with
    | nil => rfl
    | cons attr appended ih => simpa [ResTarget.trees, appendedTarget, paramsList, Tree.null,
        Tree.params, Head.param?] using ih
  simp only [InsertStmt.replace, InsertStmt.trees, List.flatMap_append, paramsList_append, happended,
    List.append_nil, Option.elim_some]
  exact append_subset_append (List.Subset.refl _) (append_subset_append h (List.Subset.refl _))

theorem params_insert {stmt stmt' : InsertStmt} (hrewrite : ctx₁.rewrite = true)
    (h : InsertLoops master stmt ctx stmt' ctx₁) : paramsList stmt'.trees ⊆ paramsList stmt.trees := by
  obtain ⟨attrs, hselect, -, rfl, hvalues⟩ | ⟨source, hselect, hsource⟩ := h
  · rw [hvalues hrewrite]
    refine params_replace ?_
    have hfill : paramsList (fillColumns master attrs ctx).1 ⊆ paramsList [] :=
      pass_params.fillColumns attrs
    simpa [InsertSource.trees, hselect] using hfill
  · have hwalk : paramsList (walkSource source ctx).1.trees ⊆
        paramsList (stmt.selectStmt.elim [] InsertSource.trees) := by
      simpa [hselect] using params_walkSource source
    obtain ⟨-, -, rfl⟩ | ⟨attrs, rows, -, -, hrows, rfl⟩ | ⟨attrs, rows, -, -, -, hrows, rfl⟩ := hsource
    · exact params_replace hwalk
    · exact params_replace (List.Subset.trans (params_rows (pass_params.rewriteRows hrows)) hwalk)
    · exact params_replace (List.Subset.trans (params_rows (pass_params.rewriteListedRows hrows)) hwalk)

theorem params_rewriteDml {query query' : Dml}
    (h : rewriteDml master ctx query = some (query', ctx₁, true)) :
    paramsList query'.trees ⊆ paramsList query.trees := by
  obtain ⟨stmt, stmt', rfl, rfl, hinsert⟩ | ⟨stmt, stmt', rfl, rfl, hupdate⟩ |
    ⟨stmt, stmt', rfl, rfl, hdelete⟩ := rewriteDml_cases h
  · obtain ⟨hctx, hloops⟩ := insert_cases hinsert rfl
    exact params_insert hctx hloops
  · simp only [rewriteTimestampUpdate] at hupdate
    split at hupdate
    · cases hupdate
    · next targets _ hsets =>
      simp only [Prod.mk.injEq] at hupdate
      obtain ⟨rfl, -⟩ := hupdate
      have htargets := List.Subset.trans (pass_params.rewriteSets hsets)
        (params_walkTargets stmt.targetList)
      simp only [Dml.trees, UpdateStmt.trees, paramsList_append, paramsList, List.append_nil]
      exact append_subset_append htargets (append_subset_append (params_walkBelow stmt.whereClause)
        (append_subset_append (paramsList_walkItems stmt.fromClause) (List.Subset.refl _)))
  · simp only [rewriteTimestampDelete, Prod.mk.injEq] at hdelete
    obtain ⟨rfl, -⟩ := hdelete
    simp only [Dml.trees, DeleteStmt.trees, paramsList_append, paramsList, List.append_nil]
    exact append_subset_append (paramsList_walkItems stmt.usingClause)
      (append_subset_append (params_walkBelow stmt.whereClause) (List.Subset.refl _))

/-! ## What is met is there -/

mutual

theorem met_subset : ∀ t : Tree, t.met ⊆ t.params
  | .node _ kids => append_subset_append (List.Subset.refl _) (metList_subset _ kids)

theorem metList_subset (visits : Nat → Bool) : ∀ ts : List Tree, metList visits ts ⊆ paramsList ts
  | [] => List.Subset.refl _
  | t :: ts => by
    refine append_subset_append ?_ (metList_subset _ ts)
    split
    · exact met_subset t
    · exact List.nil_subset _

end

theorem metBelow_subset (t : Tree) : metBelow t ⊆ t.params := by
  obtain ⟨head, kids⟩ := t
  exact List.subset_append_of_subset_right _ (metList_subset _ kids)

theorem paramsList_flatMap {α : Type} (f : α → List Tree) (xs : List α) :
    paramsList (xs.flatMap f) = xs.flatMap fun x => paramsList (f x) := by
  induction xs with
  | nil => rfl
  | cons x xs ih => simp [paramsList_append, ih]

theorem flatMap_subset_flatMap {α : Type} {f g : α → List Nat} (xs : List α) (h : ∀ x, f x ⊆ g x) :
    xs.flatMap f ⊆ xs.flatMap g := by
  induction xs with
  | nil => exact List.Subset.refl _
  | cons x xs ih => exact append_subset_append (h x) ih

theorem dml_met_subset (query : Dml) : query.met ⊆ paramsList query.trees := by
  cases query with
  | insert stmt =>
    simp only [Dml.met, Dml.trees, InsertStmt.trees, paramsList_append]
    refine List.subset_append_of_subset_right _ (List.subset_append_of_subset_left _ ?_)
    cases stmt.selectStmt with
    | none => exact List.Subset.refl _
    | some source =>
      have hrows : paramsList source.valuesLists.flatten = source.valuesLists.flatMap paramsList := by
        rw [← List.flatMap_id', paramsList_flatMap]
      simp only [Option.elim_some, InsertSource.met, InsertSource.trees, paramsList_append, hrows,
        List.append_assoc]
      exact append_subset_append (metList_subset _ _)
        (append_subset_append (flatMap_subset_flatMap _ (metList_subset _)) (metList_subset _ _))
  | update stmt =>
    have htarget : ∀ res : ResTarget, res.met ⊆ paramsList res.trees := by
      intro res
      simp only [ResTarget.trees, paramsList_append, paramsList, List.append_nil]
      exact append_subset_append (metList_subset _ _) (met_subset _)
    simp only [Dml.met, Dml.trees, UpdateStmt.trees, paramsList_append, paramsList_flatMap, paramsList,
      List.append_nil]
    exact append_subset_append (flatMap_subset_flatMap _ htarget)
      (append_subset_append (metBelow_subset _) (List.subset_append_of_subset_left _ (metList_subset _ _)))
  | delete stmt =>
    simp only [Dml.met, Dml.trees, DeleteStmt.trees, paramsList_append, paramsList, List.append_nil]
    exact append_subset_append (metList_subset _ _)
      (List.subset_append_of_subset_left _ (metBelow_subset _))

/-! ## The values -/

/-- The nodes: what `now()` is, what a query answers, and what values of a column come from. -/
structure Database (Instant Val : Type) where
  /-- The text of `now()`. -/
  clock : Instant → String
  select : List UInt8 → Instant → Option String
  /-- A constant in the place of a column. -/
  input : TSAttr → String → Val
  /-- The value that a parameter in the place of a column is bound to. -/
  bound : TSAttr → String → Val
  /-- The default of a column, with `now()` that instant. -/
  value : TSAttr → Instant → Val

variable {Instant Val : Type} (db : Database Instant Val)

/-- The master, for a table. -/
def Database.asMaster (attrs : List TSAttr) (now : Instant) : Master where
  relcache _ := some attrs
  select query := db.select query now
  currentTimestamp := some (db.clock now)

/-- What is stored in a column; an expression of the client's is not followed. -/
def Database.stored (now : Instant) (bound : Nat → Option String) (attr : TSAttr) :
    Option Tree → Option Val
  | none => some (db.value attr now)
  | some (.node .setToDefault []) => some (db.value attr now)
  | some (.node (.aConst (.string str)) []) => some (db.input attr str)
  | some (.node (.tsParam k) []) => (bound k).map (db.bound attr)
  | some _ => none

/-- Each time column that was left to its default gets the value of the default. -/
def Database.StoresDefaults (now : Instant) (bound : Nat → Option String) (old : List (TSAttr × Bool))
    (new : List (TSAttr × Option Tree)) : Prop :=
  List.Forall₂ (fun o n => o.1.useTimestamp = true → o.2 = true →
    db.stored now bound o.1 n.2 = some (db.value o.1 now)) old new

/-- The INSERT or UPDATE that is sent. -/
def sentQuery (query : Dml) : Option Rewritten → Dml
  | some ⟨.dml query', _, _⟩ | some ⟨.prepare _ _ query', _, _⟩ => query'
  | _ => query

def highestOf (numbers : List Nat) : Nat := numbers.foldl max 0

/-- The values of a Bind message or an EXECUTE, to which the time has been added. -/
def Rewritten.values (r : Rewritten) (client : List String) (time : String) : List String :=
  client ++ List.replicate (r.numTsparams.getD 0) time

/-- What the `k`-th parameter added is bound to by a Bind message.  There have to be as many values as the
highest number in the statement. -/
def Rewritten.bound (r : Rewritten) (client : List String) (time : String) (k : Nat) : Option String :=
  if (r.values client time).length = highestOf (r.stmt.params ++ r.added) then
    (r.values client time)[r.number k - 1]?
  else none

/-- What it is bound to by an EXECUTE.  There have to be as many values as types. -/
def Rewritten.executed (r : Rewritten) (client : List String) (time : String) (k : Nat) :
    Option String :=
  if some (r.values client time).length = r.stmt.argtypes?.map List.length then
    (r.values client time)[r.number k - 1]?
  else none

/-! ## Simple and prepared statements -/

/-- A `PREPARE` at one time that gives the types of its parameters, and an `EXECUTE` at another. -/
def Database.Executes (table : OnTable) (name : String) (types : List Tree) (prepared now : Instant) :
    Prop :=
  ∃ params,
    rewriteTimestamp (db.asMaster table.attrs prepared) false (some 0) (.prepare name types table.query) =
      some params ∧
    ∀ client : List String, client.length = types.length →
      db.StoresDefaults now (fun k => params.bind fun r => r.executed client (db.clock now) k)
        (wanted (table.query.assigned table.attrs))
        ((sentQuery table.query params).assigned table.attrs)

/-- The statement as a simple query, and as a statement prepared at one time whose parameters are bound at
another, store the defaults of that time. -/
def Database.Agrees (table : OnTable) (prepared now : Instant) : Prop :=
  ∃ simple params,
    rewriteTimestamp (db.asMaster table.attrs now) false none (.dml table.query) = some simple ∧
    rewriteTimestamp (db.asMaster table.attrs prepared) true (some 0) (.dml table.query) = some params ∧
    db.StoresDefaults now (fun _ => none) (wanted (table.query.assigned table.attrs))
      ((sentQuery table.query simple).assigned table.attrs) ∧
    (∀ client : List String, client.length = highestOf (paramsList table.query.trees) →
      db.StoresDefaults now (fun k => params.bind fun r => r.bound client (db.clock now) k)
        (wanted (table.query.assigned table.attrs))
        ((sentQuery table.query params).assigned table.attrs)) ∧
    ∀ name types, types.length = highestOf (paramsList table.query.trees) →
      db.Executes table name types prepared now

/-- The columns whose defaults are replaced. -/
def OnTable.Replaced (table : OnTable) (attr : TSAttr) : Prop :=
  (attr, true) ∈ wanted (table.query.assigned table.attrs) ∧ attr.useTimestamp = true

/-- The default is the time and no more, what the master makes of its text is read as its value, and the
numbers of all parameters are known. -/
structure Database.PlainDefaults (table : OnTable) (now : Instant) : Prop where
  freedOnce : table.query.freedOnce = true
  counted : ∀ attr, table.Replaced attr →
    ∀ p ∈ paramsList table.query.trees, p ≤ highestOf table.query.met
  asked : ∀ attr, table.Replaced attr →
    (db.select (selectQuery attr.adsrc) now).map (db.input attr) = some (db.value attr now)
  time : ∀ attr, table.Replaced attr → db.bound attr (db.clock now) = db.value attr now

theorem foldl_max_le_iff {start bound : Nat} {numbers : List Nat} :
    numbers.foldl max start ≤ bound ↔ start ≤ bound ∧ ∀ n ∈ numbers, n ≤ bound := by
  induction numbers generalizing start with
  | nil => simp
  | cons n numbers ih => simp [ih, Nat.max_le, and_assoc]

theorem highestOf_le_iff {bound : Nat} {numbers : List Nat} :
    highestOf numbers ≤ bound ↔ ∀ n ∈ numbers, n ≤ bound :=
  foldl_max_le_iff.trans (by simp)

theorem le_highestOf {n : Nat} {numbers : List Nat} (h : n ∈ numbers) : n ≤ highestOf numbers :=
  highestOf_le_iff.1 (Nat.le_refl _) n h

/-- Two relations that hold along the same lists. -/
theorem exists_of_forall₂ {α β : Type} {R S : α → β → Prop} {as : List α} {bs : List β} {a : α}
    (hR : List.Forall₂ R as bs) (hS : List.Forall₂ S as bs) (hmem : a ∈ as) : ∃ b, R a b ∧ S a b := by
  induction hR with
  | nil => cases hmem
  | cons hfirst _ ih =>
    cases hS with
    | cons hsecond hrest =>
      obtain rfl | htail := List.mem_cons.1 hmem
      · exact ⟨_, hfirst, hsecond⟩
      · exact ih hrest htail

/-- A statement that is left as it is stores the defaults. -/
theorem storesDefaults_refl (now : Instant) (bound : Nat → Option String)
    (given : List (TSAttr × Option Tree)) : db.StoresDefaults now bound (wanted given) given := by
  unfold Database.StoresDefaults wanted
  rw [List.forall₂_map_left_iff, List.forall₂_same]
  intro col _ _ hleft
  cases hval : col.2 with
  | none => rfl
  | some val =>
    rw [hval] at hleft
    change val.isDefault = true at hleft
    unfold isDefault at hleft
    split at hleft
    · rfl
    · cases hleft

theorem stored_makeStringConst (now : Instant) (bound : Nat → Option String) (attrs : List TSAttr)
    (attr : TSAttr) :
    db.stored now bound attr (some (makeStringConstFromQuery (db.asMaster attrs now) attr.adsrc)) =
      (db.select (selectQuery attr.adsrc) now).map (db.input attr) := by
  have hselect : (db.asMaster attrs now).select (selectQuery attr.adsrc) =
      db.select (selectQuery attr.adsrc) now := rfl
  unfold makeStringConstFromQuery
  rw [hselect]
  cases db.select (selectQuery attr.adsrc) now <;> rfl

/-! ### The simple query -/

/-- What becomes of the statement in the end, and the columns that it then gives. -/
structure Filled (table : OnTable) (toParams : Bool) (when : Instant) (out : Option Rewritten)
    (final : Ctx) (new : List (TSAttr × Option Tree)) : Prop where
  fills : List.Forall₂ (Fills (db.asMaster table.attrs when) final)
    (wanted (table.query.assigned table.attrs)) new
  mode : final.rewrite = true → final.rewriteToParams = toParams
  sent : final.rewrite = true → (sentQuery table.query out).assigned table.attrs = new
  unsent : final.rewrite = false → out = none

theorem filled_simple {table : OnTable} {now : Instant} {out : Option Rewritten}
    (h : rewriteTimestamp (db.asMaster table.attrs now) false none (.dml table.query) = some out) :
    ∃ final new, Filled db table false now out final new := by
  obtain ⟨query', final, rewrite, hrewrite, hout⟩ := rewriteTimestamp_dml h
  obtain ⟨rfl, new, hfills, hnew⟩ := fills_rewriteDml _ (fun _ => rfl) table.apart table.fits hrewrite
  refine ⟨final, new, hfills, ?_, ?_, ?_⟩
  · intro htrue
    rw [htrue] at hrewrite
    exact (known_rewriteDml _ hrewrite).2
  · intro htrue
    rw [htrue, if_pos rfl, finish_none] at hout
    cases hout
    exact hnew htrue
  · intro hfalse
    rw [hfalse] at hout
    exact hout

theorem storesDefaults_simple {table : OnTable} {now : Instant} {out : Option Rewritten} {final : Ctx}
    {new : List (TSAttr × Option Tree)} (h : Filled db table false now out final new) :
    db.StoresDefaults now (fun _ => none) (wanted (table.query.assigned table.attrs))
        ((sentQuery table.query out).assigned table.attrs) ↔
      ∀ attr, table.Replaced attr →
        (db.select (selectQuery attr.adsrc) now).map (db.input attr) = some (db.value attr now) := by
  constructor
  · intro hstores attr hreplaced
    have hrewrite := rewrite_of_fills _ h.fills hreplaced.1 hreplaced.2
    rw [h.sent hrewrite] at hstores
    obtain ⟨col, hfill, hstored⟩ := exists_of_forall₂ h.fills hstores hreplaced.1
    obtain ⟨val, hval, hmade⟩ := hfill.2 hreplaced.2 rfl
    have hconst := hmade.const (h.mode hrewrite)
    have hvalue := hstored hreplaced.2 rfl
    rwa [hval, hconst, stored_makeStringConst] at hvalue
  · intro hasked
    cases hrewrite : final.rewrite with
    | false =>
      rw [h.unsent hrewrite]
      exact storesDefaults_refl db now _ _
    | true =>
      rw [h.sent hrewrite]
      refine forall₂_imp_mem h.fills ?_
      intro old hmem col hfill htime hleft
      obtain ⟨val, hval, hmade⟩ := hfill.2 htime hleft
      rw [hval, hmade.const (h.mode hrewrite), stored_makeStringConst]
      exact hasked old.1 ⟨hleft ▸ hmem, htime⟩

/-! ### The prepared statement -/

/-- A statement with `n` parameters added, which are numbered from the highest that is met. -/
structure Numbering (query query' : Dml) (n : Nat) : Prop where
  pos : 0 < n
  perm : (tsParamsList query'.trees).Perm (List.range n)
  params : paramsList query'.trees ⊆ paramsList query.trees

theorem numbering_of_rewriteDml {query query' : Dml} {final : Ctx}
    (hfresh : tsParamsList query.trees = [])
    (h : rewriteDml master (.init true) query = some (query', final, true)) :
    Numbering query query' final.added ∧ final.rewriteToParams = true ∧
      final.numParams = highestOf query.met := by
  obtain ⟨hadds, hctx⟩ := adds_rewriteDml master rfl hfresh h
  exact ⟨⟨(hadds.rewrite hctx).resolve_left nofun, hadds.supplied.perm_range, params_rewriteDml h⟩,
    hadds.on, hadds.highest⟩

/-- The statement that a Parse message is given. -/
def parsedAs (query query' : Dml) (n : Nat) : Rewritten :=
  ⟨.dml query', fun k => highestOf query.met + 1 + k, some n⟩

section

variable {query query' : Dml} {n : Nat} {client : List String}

theorem mem_added (h : Numbering query query' n) {i : Nat} :
    i ∈ (parsedAs query query' n).added ↔ highestOf query.met < i ∧ i ≤ highestOf query.met + n := by
  have hmem : i ∈ (parsedAs query query' n).added ↔
      ∃ k ∈ tsParamsList query'.trees, highestOf query.met + 1 + k = i := List.mem_map
  rw [hmem]
  constructor
  · intro hex
    obtain ⟨k, hk, rfl⟩ := hex
    have hlt := List.mem_range.1 (h.perm.mem_iff.1 hk)
    omega
  · intro hi
    exact ⟨i - highestOf query.met - 1, h.perm.mem_iff.2 (List.mem_range.2 (by omega)), by omega⟩

theorem length_values (time : String) :
    ((parsedAs query query' n).values client time).length = client.length + n := by
  simp [Rewritten.values, parsedAs]

/-- The server takes the values just when every parameter has been counted. -/
theorem takes_values_iff (h : Numbering query query' n)
    (hclient : client.length = highestOf (paramsList query.trees)) :
    client.length + n = highestOf (paramsList query'.trees ++ (parsedAs query query' n).added) ↔
      ∀ p ∈ paramsList query.trees, p ≤ highestOf query.met := by
  have hmet : highestOf query.met ≤ client.length := by
    rw [hclient, highestOf_le_iff]
    exact fun p hp => le_highestOf (dml_met_subset query hp)
  have hpos := h.pos
  rw [← highestOf_le_iff, ← hclient]
  constructor
  · intro htakes
    -- otherwise no number is as high as there are values
    by_contra hless
    have hall : highestOf (paramsList query'.trees ++ (parsedAs query query' n).added) ≤
        client.length + n - 1 := by
      rw [highestOf_le_iff]
      intro p hp
      obtain hparam | hadded := List.mem_append.1 hp
      · have hle := le_highestOf (h.params hparam)
        omega
      · have hle := (mem_added h).1 hadded
        omega
    omega
  · intro hcounted
    refine Nat.le_antisymm (le_highestOf ?_) (highestOf_le_iff.2 ?_)
    · exact List.mem_append_right _ ((mem_added h).2 (by omega))
    · intro p hp
      obtain hparam | hadded := List.mem_append.1 hp
      · have hle := le_highestOf (h.params hparam)
        omega
      · have hle := (mem_added h).1 hadded
        omega

/-- The place of an added parameter among the values. -/
theorem getElem?_values (query' : Dml) {k : Nat} (hk : k < n) (hclient : client.length = highestOf query.met)
    (time : String) :
    ((parsedAs query query' n).values client time)[(parsedAs query query' n).number k - 1]? =
      some time := by
  have hplace : (parsedAs query query' n).number k - 1 = client.length + k := by
    show highestOf query.met + 1 + k - 1 = _
    omega
  have hvalues : (parsedAs query query' n).values client time = client ++ List.replicate n time := rfl
  rw [hplace, hvalues, List.getElem?_append_right (by omega), List.getElem?_replicate]
  simp [hk]

/-- The time is bound to it, or there is an error. -/
theorem bound_parsedAs (h : Numbering query query' n) {k : Nat} (hk : k < n)
    (hclient : client.length = highestOf (paramsList query.trees)) (time : String) :
    (∀ p ∈ paramsList query.trees, p ≤ highestOf query.met) ∧
        (parsedAs query query' n).bound client time k = some time ∨
      ¬ (∀ p ∈ paramsList query.trees, p ≤ highestOf query.met) ∧
        (parsedAs query query' n).bound client time k = none := by
  have htakes := takes_values_iff h hclient
  have hbound : (parsedAs query query' n).bound client time k =
      if client.length + n = highestOf (paramsList query'.trees ++ (parsedAs query query' n).added) then
        ((parsedAs query query' n).values client time)[(parsedAs query query' n).number k - 1]?
      else none := by
    have hlen : ((parsedAs query query' n).values client time).length = client.length + n :=
      length_values time
    rw [← hlen]
    rfl
  rw [hbound]
  by_cases hcounted : ∀ p ∈ paramsList query.trees, p ≤ highestOf query.met
  · refine Or.inl ⟨hcounted, ?_⟩
    rw [if_pos (htakes.2 hcounted)]
    refine getElem?_values query' hk ?_ time
    rw [hclient]
    exact Nat.le_antisymm (highestOf_le_iff.2 hcounted)
      (highestOf_le_iff.2 fun p hp => le_highestOf (dml_met_subset query hp))
  · exact Or.inr ⟨hcounted, if_neg (mt htakes.1 hcounted)⟩

end

theorem filled_params {table : OnTable} {when : Instant} {out : Option Rewritten}
    (h : rewriteTimestamp (db.asMaster table.attrs when) true (some 0) (.dml table.query) = some out) :
    ∃ final new, Filled db table true when out final new ∧
      (final.rewrite = true → ∃ query', out = some (parsedAs table.query query' final.added) ∧
        Numbering table.query query' final.added) := by
  obtain ⟨query', final, rewrite, hrewrite, hreturned⟩ := rewriteTimestamp_dml h
  obtain ⟨rfl, new, hfills, hnew⟩ := fills_rewriteDml _ (fun _ => rfl) table.apart table.fits hrewrite
  have hout : final.rewrite = true → out = some (parsedAs table.query query' final.added) ∧
      Numbering table.query query' final.added ∧ final.rewriteToParams = true := by
    intro htrue
    rw [htrue] at hrewrite
    obtain ⟨hnumbering, hon, hnum⟩ := numbering_of_rewriteDml table.fresh hrewrite
    rw [htrue, if_pos rfl, finish_some _ hon, hnum] at hreturned
    exact ⟨hreturned, hnumbering, hon⟩
  refine ⟨final, new, ⟨hfills, fun htrue => (hout htrue).2.2, ?_, ?_⟩, ?_⟩
  · intro htrue
    rw [(hout htrue).1]
    exact hnew htrue
  · intro hfalse
    rw [hfalse] at hreturned
    exact hreturned
  · intro htrue
    exact ⟨query', (hout htrue).1, (hout htrue).2.1⟩

theorem storesDefaults_params {table : OnTable} {when now : Instant} {out : Option Rewritten}
    (h : rewriteTimestamp (db.asMaster table.attrs when) true (some 0) (.dml table.query) = some out) :
    (∀ client : List String, client.length = highestOf (paramsList table.query.trees) →
        db.StoresDefaults now (fun k => out.bind fun r => r.bound client (db.clock now) k)
          (wanted (table.query.assigned table.attrs))
          ((sentQuery table.query out).assigned table.attrs)) ↔
      ∀ attr, table.Replaced attr →
        (∀ p ∈ paramsList table.query.trees, p ≤ highestOf table.query.met) ∧
          db.bound attr (db.clock now) = db.value attr now := by
  obtain ⟨final, new, hfilled, hout⟩ := filled_params db h
  constructor
  · intro hstores attr hreplaced
    have hrewrite := rewrite_of_fills _ hfilled.fills hreplaced.1 hreplaced.2
    obtain ⟨query', hquery, hnumbering⟩ := hout hrewrite
    have hclient : (List.replicate (highestOf (paramsList table.query.trees)) "").length =
        highestOf (paramsList table.query.trees) := List.length_replicate
    have hstored := hstores _ hclient
    rw [hfilled.sent hrewrite] at hstored
    obtain ⟨col, hfill, hvalue⟩ := exists_of_forall₂ hfilled.fills hstored hreplaced.1
    obtain ⟨val, hval, hmade⟩ := hfill.2 hreplaced.2 rfl
    obtain ⟨k, hk, rfl⟩ := hmade.param (hfilled.mode hrewrite)
    have hsame := hvalue hreplaced.2 rfl
    rw [hval, hquery] at hsame
    change ((parsedAs table.query query' final.added).bound _ (db.clock now) k).map (db.bound attr) =
      some (db.value attr now) at hsame
    obtain ⟨hcounted, hbound⟩ | ⟨-, hbound⟩ := bound_parsedAs hnumbering hk hclient (db.clock now)
    · rw [hbound] at hsame
      exact ⟨hcounted, Option.some.inj hsame⟩
    · rw [hbound] at hsame
      cases hsame
  · intro hplain client hclient
    cases hrewrite : final.rewrite with
    | false =>
      rw [hfilled.unsent hrewrite]
      exact storesDefaults_refl db now _ _
    | true =>
      obtain ⟨query', hquery, hnumbering⟩ := hout hrewrite
      rw [hfilled.sent hrewrite]
      refine forall₂_imp_mem hfilled.fills ?_
      intro old hmem col hfill htime hleft
      obtain ⟨val, hval, hmade⟩ := hfill.2 htime hleft
      obtain ⟨k, hk, rfl⟩ := hmade.param (hfilled.mode hrewrite)
      obtain ⟨hcounted, hvalue⟩ := hplain old.1 ⟨hleft ▸ hmem, htime⟩
      rw [hval, hquery]
      show ((parsedAs table.query query' final.added).bound client (db.clock now) k).map
        (db.bound old.1) = some (db.value old.1 now)
      obtain ⟨-, hbound⟩ | ⟨hnot, -⟩ := bound_parsedAs hnumbering hk hclient (db.clock now)
      · rw [hbound, ← hvalue]
        rfl
      · exact absurd hcounted hnot

/-- An EXECUTE of a PREPARE with a type for each parameter. -/
theorem executed_prepared {query : Dml} (query' : Dml) {n k : Nat} {client : List String} (name : String)
    {types : List Tree} (hk : k < n) (hclient : client.length = types.length)
    (htypes : types.length = highestOf query.met) (time : String) :
    Rewritten.executed
      ⟨.prepare name (types ++ List.replicate n (systemType "timestamptz")) query',
        fun k => highestOf query.met + 1 + k, some n⟩ client time k = some time := by
  have hlen : (client ++ List.replicate n time).length =
      (types ++ List.replicate n (systemType "timestamptz")).length := by
    simp [hclient]
  have hvalues := getElem?_values query' hk (hclient.trans htypes) time
  simp only [Rewritten.executed, Stmt.argtypes?, Option.map_some, Rewritten.values, Option.getD_some,
    hlen, if_true]
  exact hvalues

theorem executes_of_plain {table : OnTable} {prepared now : Instant} (h : db.PlainDefaults table now)
    {name : String} {types : List Tree} (htypes : types.length = highestOf (paramsList table.query.trees)) :
    db.Executes table name types prepared now := by
  have hdefined : (rewriteDml (db.asMaster table.attrs prepared) (.init true) table.query).isSome =
      true := by
    rw [isSome_rewriteDml _ (fun _ => rfl) table.fits]
    exact h.freedOnce
  obtain ⟨⟨query', final, rewrite⟩, hrewrite⟩ := Option.isSome_iff_exists.1 hdefined
  obtain ⟨rfl, new, hfills, hnew⟩ := fills_rewriteDml _ (fun _ => rfl) table.apart table.fits hrewrite
  unfold Database.Executes
  simp only [rewriteTimestamp, hrewrite]
  refine ⟨_, rfl, ?_⟩
  intro client hclient
  cases htrue : final.rewrite with
  | false => exact storesDefaults_refl db now _ _
  | true =>
    rw [htrue] at hrewrite
    obtain ⟨-, hon, hnum⟩ := numbering_of_rewriteDml table.fresh hrewrite
    rw [if_pos rfl, finish_some _ hon, hnum]
    change db.StoresDefaults now _ _ (query'.assigned table.attrs)
    rw [hnew htrue]
    refine forall₂_imp_mem hfills ?_
    intro old hmem col hfill htime hleft
    obtain ⟨val, hval, hmade⟩ := hfill.2 htime hleft
    obtain ⟨k, hk, rfl⟩ := hmade.param hon
    have hreplaced : table.Replaced old.1 := ⟨hleft ▸ hmem, htime⟩
    have hhighest : highestOf (paramsList table.query.trees) = highestOf table.query.met :=
      Nat.le_antisymm (highestOf_le_iff.2 (h.counted _ hreplaced))
        (highestOf_le_iff.2 fun p hp => le_highestOf (dml_met_subset table.query hp))
    rw [hval]
    have hexecuted := executed_prepared query' name hk hclient
      (htypes.trans hhighest) (db.clock now)
    show (Rewritten.executed _ client (db.clock now) k).map (db.bound old.1) = _
    rw [← h.time _ hreplaced]
    exact congrArg (Option.map (db.bound old.1)) hexecuted

/-- Where `rewrite_timestamp` is defined it gives something back. -/
theorem isSome_rewriteTimestamp (table : OnTable) (toParams : Bool) (message : Option Nat)
    (when : Instant) :
    (rewriteTimestamp (db.asMaster table.attrs when) toParams message (.dml table.query)).isSome =
      table.query.freedOnce := by
  have hsome : (rewriteDml (db.asMaster table.attrs when) (.init toParams) table.query).isSome =
      table.query.freedOnce := isSome_rewriteDml _ (fun _ => rfl) table.fits
  rw [← hsome]
  simp only [rewriteTimestamp]
  cases rewriteDml (db.asMaster table.attrs when) (.init toParams) table.query <;> rfl

/-- `INSERT INTO t DEFAULT VALUES`, where the one column of `t` is for the day after. -/
def insertDayAfter : OnTable where
  attrs := [⟨"due", "(now() + '1 day'::interval)", true⟩]
  apart := by decide
  query := .insert ⟨"t", [], none, []⟩
  fresh := rfl
  fits := rfl

/-- Nodes on the first of January. -/
def newYear : Database Unit String where
  clock _ := "2009-01-01 23:59:59.123456+09"
  select _ _ := some "2009-01-02 23:59:59.123456+09"
  input _ str := str
  bound _ str := str
  value _ _ := "2009-01-02 23:59:59.123456+09"

end Timestamp

end PgPool
