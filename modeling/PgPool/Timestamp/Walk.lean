import PgPool.Timestamp.Rewrite

/-!
# The walker, case by case

What the walker makes of a node, for each of the things that it may find there.
-/

namespace PgPool

namespace Timestamp

open PgPool.Timestamp.Tree

variable {head : Head} {kids : List Tree} {visits : Nat → Bool} {ctx : Ctx}

/-! ## What is found -/

theorem site_eq_now : site head kids = .now ↔ head = .funcCall ["pg_catalog", "now"] := by
  unfold site
  split
  · split <;> simp_all
  · split
    · split <;> (try split) <;> simp
    · simp
  · next hcall _ =>
    constructor
    · nofun
    · intro h
      exact absurd h (hcall _)

theorem isStringConst_iff {str : String} {t : Tree} :
    t.isStringConst str = true ↔ t = .const (.string str) := by
  unfold Tree.isStringConst
  split
  · simp [const]
  · next hconst =>
    constructor
    · nofun
    · intro h
      exact absurd h (hconst _)

/-- `'now'::text::T`. -/
theorem site_eq_nowText (h : site head kids = .nowText) :
    ∃ text type, head = .typeCast ∧
      kids = [.node .typeCast [.const (.string "now"), text], type] ∧
      text.isSystemType "text" = true ∧ type.isClockType = true := by
  unfold site at h
  split at h
  · split at h <;> cases h
  · next arg type =>
    split at h
    · next htype =>
      split at h
      · split at h
        · next hnow =>
          unfold isNowText at hnow
          split at hnow
          · next a text _ =>
            rw [Bool.and_eq_true] at hnow
            cases isStringConst_iff.1 hnow.2
            exact ⟨text, type, rfl, rfl, hnow.1, htype⟩
          · cases hnow
        · cases h
      · split at h <;> cases h
    · cases h
  · cases h

/-- `'now'::T`. -/
theorem site_eq_nowConst (h : site head kids = .nowConst) :
    ∃ type, head = .typeCast ∧ kids = [.const (.string "now"), type] ∧ type.isClockType = true := by
  unfold site at h
  split at h
  · split at h <;> cases h
  · next arg type =>
    split at h
    · next htype =>
      split at h
      · split at h <;> cases h
      · split at h
        · next hconst =>
          cases isStringConst_iff.1 hconst
          exact ⟨type, rfl, rfl, htype⟩
        · cases h
    · cases h
  · cases h

theorem not_isClockType_of_text {t : Tree} (h : t.isSystemType "text" = true) :
    t.isClockType = false := by
  simp only [isSystemType, beq_iff_eq] at h
  simp [isClockType, isSystemType, h]

/-! ## What becomes of it -/

theorem walkList_nil : walkList visits [] ctx = ([], ctx) := by
  simp [walkList]

theorem walkList_cons_visited {t : Tree} {ts : List Tree} (h : visits 0 = true) :
    walkList visits (t :: ts) ctx =
      let rest := walkList (fun i => visits (i + 1)) ts (walker t ctx).2
      ((walker t ctx).1 :: rest.1, rest.2) := by
  simp [walkList, h]

theorem walkList_cons_skipped {t : Tree} {ts : List Tree} (h : visits 0 = false) :
    walkList visits (t :: ts) ctx =
      let rest := walkList (fun i => visits (i + 1)) ts ctx
      (t :: rest.1, rest.2) := by
  simp [walkList, h]

theorem walkItems_nil : walkItems [] ctx = ([], ctx) := walkList_nil

theorem walkItems_cons {t : Tree} {ts : List Tree} :
    walkItems (t :: ts) ctx =
      let rest := walkItems ts (walker t ctx).2
      ((walker t ctx).1 :: rest.1, rest.2) :=
  walkList_cons_visited rfl

theorem walks_eq_visits (h : head ≠ .funcCall ["pg_catalog", "now"]) :
    walks head kids = head.visits := by
  funext i
  simp [walks, site_eq_now, h]

theorem not_nowCall_of_plain (h : site head kids = .plain) :
    head ≠ .funcCall ["pg_catalog", "now"] := by
  intro heq
  rw [site_eq_now.2 heq] at h
  cases h

/-- A node at which there is nothing to rewrite. -/
theorem walker_plain (h : site head kids = .plain) :
    walker (.node head kids) ctx =
      let rest := walkList head.visits kids (ctx.count head)
      (.node head rest.1, rest.2) := by
  simp [walker, enter, h, rebuild, walks_eq_visits (not_nowCall_of_plain h)]

/-- A constant is left as it is. -/
theorem walker_const (val : Value) : walker (.const val) ctx = (.const val, ctx) := by
  rfl

/-- The context once something has been found. -/
def Ctx.found (ctx : Ctx) : Ctx := ctx.makeTsExpr.2.setRewrite

theorem enter_of_site (h : site head kids ≠ .plain) :
    enter head kids ctx = (ctx.makeTsExpr.1, ctx.found) := by
  simp [enter, h, Ctx.found]

/-- `now(...)` becomes `timestamptz(ts::text)`. -/
theorem walker_now :
    walker (.node (.funcCall ["pg_catalog", "now"]) kids) ctx =
      let rest := walkList (fun i => i != 0) kids.tail ctx.found
      (.node (.funcCall ["pg_catalog", "timestamptz"]) (nowArgs ctx.makeTsExpr.1 :: rest.1), rest.2) := by
  have hsite : site (.funcCall ["pg_catalog", "now"]) kids = .now := site_eq_now.2 rfl
  have hwalks : walks (.funcCall ["pg_catalog", "now"]) kids = fun i => i != 0 && i != 1 := by
    funext i
    cases i <;> simp [walks, hsite, Head.visits]
  rw [walker, enter_of_site (by simp [hsite]), hwalks, hsite]
  cases kids with
  | nil => simp [walkList_nil, rebuild]
  | cons arg rest =>
    have hrest : (fun i : Nat => i + 1 != 0 && i + 1 != 1) = fun i => i != 0 := by
      funext i
      simp
    have hwalk : walkList (fun i => i != 0 && i != 1) (arg :: rest) ctx.found =
        (arg :: (walkList (fun i => i != 0) rest ctx.found).1,
          (walkList (fun i => i != 0) rest ctx.found).2) := by
      rw [walkList_cons_skipped rfl, hrest]
    simp only [hwalk, rebuild, List.drop_succ_cons, List.drop_zero, List.tail_cons]

theorem walkList_typeCast : walkList (Head.visits .typeCast) kids ctx = walkItems kids ctx := rfl

/-- `'now'::T` becomes `ts::T`. -/
theorem walker_nowConst {type : Tree} (h : site .typeCast [.const (.string "now"), type] = .nowConst) :
    walker (.node .typeCast [.const (.string "now"), type]) ctx =
      let rest := walker type ctx.found
      (.node .typeCast [ctx.makeTsExpr.1, rest.1], rest.2) := by
  rw [walker, enter_of_site (by simp [h]), walks_eq_visits (by simp), h]
  simp only [walkList_typeCast, walkItems_cons, walkItems_nil, walker_const, rebuild, setArg]

theorem site_typeCast_text {arg text : Tree} (h : text.isSystemType "text" = true) :
    site .typeCast [arg, text] = .plain := by
  simp [site, not_isClockType_of_text h]

/-- `'now'::text::T` becomes `ts::text::T`. -/
theorem walker_nowText {text type : Tree}
    (h : site .typeCast [.node .typeCast [.const (.string "now"), text], type] = .nowText) :
    walker (.node .typeCast [.node .typeCast [.const (.string "now"), text], type]) ctx =
      let inner := walker text ctx.found
      let rest := walker type inner.2
      (.node .typeCast [.node .typeCast [ctx.makeTsExpr.1, inner.1], rest.1], rest.2) := by
  obtain ⟨_, _, -, hkids, htext, -⟩ := site_eq_nowText h
  cases hkids
  rw [walker, enter_of_site (by simp [h]), walks_eq_visits (by simp), h]
  simp only [walkList_typeCast, walkItems_cons, walkItems_nil,
    walker_plain (site_typeCast_text htext), walker_const, Ctx.count, rebuild, setArg]

/-! ## Induction -/

theorem sizeOf_kid {t : Tree} (h : t ∈ kids) : sizeOf t < sizeOf (Tree.node head kids) := by
  have hlt := List.sizeOf_lt_of_mem h
  simp only [Tree.node.sizeOf_spec]
  omega

/-- Induction along the walk: `text` is not a sub-node of the root, but of its first sub-node. -/
@[elab_as_elim]
theorem walker_induction {P : Tree → Prop}
    (plain : ∀ head kids, site head kids = .plain → (∀ t ∈ kids, P t) → P (.node head kids))
    (now : ∀ kids, (∀ t ∈ kids, P t) → P (.node (.funcCall ["pg_catalog", "now"]) kids))
    (nowText : ∀ text type,
      site .typeCast [.node .typeCast [.const (.string "now"), text], type] = .nowText →
      P text → P type → P (.node .typeCast [.node .typeCast [.const (.string "now"), text], type]))
    (nowConst : ∀ type, site .typeCast [.const (.string "now"), type] = .nowConst →
      P type → P (.node .typeCast [.const (.string "now"), type])) (t : Tree) : P t := by
  induction t using (measure (sizeOf : Tree → Nat)).wf.induction with
  | _ t ih =>
    obtain ⟨head, kids⟩ := t
    have hkids : ∀ t ∈ kids, P t := fun t ht => ih t (sizeOf_kid ht)
    cases hsite : site head kids with
    | plain => exact plain head kids hsite hkids
    | now =>
      cases site_eq_now.1 hsite
      exact now kids hkids
    | nowText =>
      obtain ⟨text, type, rfl, rfl, -⟩ := site_eq_nowText hsite
      refine nowText text type hsite (ih text ?_) (hkids type (by simp))
      refine Nat.lt_trans (sizeOf_kid ?_) (sizeOf_kid List.mem_cons_self)
      simp
    | nowConst =>
      obtain ⟨type, rfl, rfl, -⟩ := site_eq_nowConst hsite
      exact nowConst type hsite (hkids type (by simp))

/-! ## The trees of a statement -/

def ResTarget.trees (res : ResTarget) : List Tree := res.indirection ++ [res.val]

def InsertSource.trees (source : InsertSource) : List Tree :=
  source.front ++ source.valuesLists.flatten ++ source.back

def InsertStmt.trees (stmt : InsertStmt) : List Tree :=
  stmt.cols.flatMap ResTarget.trees ++ (stmt.selectStmt.elim [] InsertSource.trees ++ stmt.returningList)

def UpdateStmt.trees (stmt : UpdateStmt) : List Tree :=
  stmt.targetList.flatMap ResTarget.trees ++ ([stmt.whereClause] ++ (stmt.fromClause ++ stmt.returningList))

def DeleteStmt.trees (stmt : DeleteStmt) : List Tree :=
  stmt.usingClause ++ ([stmt.whereClause] ++ stmt.returningList)

def Dml.trees : Dml → List Tree
  | .insert stmt => stmt.trees
  | .update stmt => stmt.trees
  | .delete stmt => stmt.trees

/-- Every clause of a statement; with a `PREPARE` the types of the arguments, which may have expressions
for modifiers. -/
def Stmt.trees : Stmt → List Tree
  | .dml query => query.trees
  | .prepare _ argtypes query => argtypes ++ query.trees
  | .execute _ params => params
  | .other => []

end Timestamp

end PgPool
