import PgPool.Timestamp.Walk

/-!
# Defaults, pass by pass

The loops over rows and columns only ever put a default in.  A relation between what stands before and
after that allows for this holds of each of the loops.
-/

namespace PgPool

namespace Timestamp

open PgPool.Timestamp.Tree

variable {ctx ctx₁ ctx₂ : Ctx} {master : Master}

/-- A relation between the contexts and the trees before and after. -/
abbrev Relation := Ctx → Ctx → List Tree → List Tree → Prop

/-- It holds where nothing is done, where a default is put in, and of one loop after another. -/
structure Pass (master : Master) (R : Relation) : Prop where
  refl : ∀ (ctx : Ctx) (ts : List Tree), R ctx ctx ts ts
  append : ∀ {ctx ctx₁ ctx₂ : Ctx} {old old' new new' : List Tree},
    R ctx ctx₁ old new → R ctx₁ ctx₂ old' new' → R ctx ctx₂ (old ++ old') (new ++ new')
  /-- DEFAULT for a column that is no time. -/
  default : ∀ ctx : Ctx, R ctx ctx [] [.default]
  made : ∀ (ctx : Ctx) (attr : TSAttr),
    R ctx (makeDefault master attr ctx).2 [] [(makeDefault master attr ctx).1]
  filled : ∀ (ctx : Ctx) (attr : TSAttr),
    R ctx (makeDefault master attr ctx).2.setRewrite [] [(makeDefault master attr ctx).1]
  replaced : ∀ (ctx : Ctx) (attr : TSAttr) (val : Tree), val.isDefault = true →
    R ctx (makeDefault master attr ctx).2.setRewrite [val] [(makeDefault master attr ctx).1]

namespace Pass

variable {R : Relation} (hpass : Pass master R)

include hpass

theorem fillColumns (attrs : List TSAttr) :
    R ctx (Timestamp.fillColumns master attrs ctx).2 []
      (Timestamp.fillColumns master attrs ctx).1 := by
  induction attrs generalizing ctx with
  | nil => exact hpass.refl ctx []
  | cons attr attrs ih =>
    cases htime : attr.useTimestamp with
    | true => simpa [Timestamp.fillColumns, htime] using hpass.append (hpass.filled ctx attr) ih
    | false => simpa [Timestamp.fillColumns, htime] using hpass.append (hpass.default ctx) ih

theorem replaceDefault (attr : TSAttr) (val : Tree) :
    R ctx (Timestamp.replaceDefault master attr val ctx).2 [val]
      [(Timestamp.replaceDefault master attr val ctx).1] := by
  unfold Timestamp.replaceDefault
  split
  · next hdefault =>
    rw [Bool.and_eq_true] at hdefault
    exact hpass.replaced ctx attr val hdefault.2
  · exact hpass.refl ctx [val]

theorem rewriteRow {attrs : List TSAttr} {vals vals' : List Tree}
    (h : Timestamp.rewriteRow master attrs vals ctx = some (vals', ctx₁)) : R ctx ctx₁ vals vals' := by
  induction vals generalizing attrs ctx vals' with
  | nil =>
    rw [Timestamp.rewriteRow] at h
    have hfill : R ctx (Timestamp.fillColumns master attrs ctx).2 []
        (Timestamp.fillColumns master attrs ctx).1 := hpass.fillColumns attrs
    rwa [Option.some.inj h] at hfill
  | cons val vals ih =>
    obtain ⟨attr, attrs, new, rfl, rfl, hrest⟩ := rewriteRow_cons h
    exact hpass.append (hpass.replaceDefault attr val) (ih hrest)

theorem rewriteRows {attrs : List TSAttr} {rows rows' : List (List Tree)}
    (h : Timestamp.rewriteRows master attrs rows ctx = some (rows', ctx₁)) :
    R ctx ctx₁ rows.flatten rows'.flatten := by
  induction rows generalizing ctx rows' with
  | nil =>
    cases h
    exact hpass.refl _ []
  | cons row rows ih =>
    obtain ⟨row', new, middle, rfl, hrow, hrest⟩ := rewriteRows_cons h
    exact hpass.append (hpass.rewriteRow hrow) (ih hrest)

theorem rewriteListed {attrs : List TSAttr} {names : List String} {vals vals' : List Tree}
    (h : Timestamp.rewriteListed master attrs names vals ctx = some (vals', ctx₁)) :
    R ctx ctx₁ vals vals' := by
  induction vals generalizing names ctx vals' with
  | nil =>
    cases names with
    | nil =>
      cases h
      exact hpass.refl _ []
    | cons _ _ =>
      cases h
      exact hpass.refl _ []
  | cons val vals ih =>
    cases names with
    | nil =>
      cases h
      exact hpass.refl _ _
    | cons name names =>
      obtain ⟨attr, new, -, rfl, hrest⟩ := rewriteListed_cons h
      exact hpass.append (hpass.replaceDefault attr val) (ih hrest)

theorem appendDefaults (attrs : List TSAttr) :
    R ctx (Timestamp.appendDefaults master attrs ctx).2 []
      (Timestamp.appendDefaults master attrs ctx).1 := by
  induction attrs generalizing ctx with
  | nil => exact hpass.refl ctx []
  | cons attr attrs ih => exact hpass.append (hpass.made ctx attr) ih

theorem rewriteListedRows {attrs appended : List TSAttr} {names : List String}
    {rows rows' : List (List Tree)}
    (h : Timestamp.rewriteListedRows master attrs appended names rows ctx = some (rows', ctx₁)) :
    R ctx ctx₁ rows.flatten rows'.flatten := by
  unfold Timestamp.rewriteListedRows at h
  split at h
  · cases h
    exact hpass.refl _ []
  · split at h
    · cases h
    · next hrow =>
      cases h
      simpa using hpass.append (hpass.rewriteListed hrow) (hpass.appendDefaults appended)
  · cases h

/-- Of a target only the value changes. -/
theorem rewriteSets {relcache : Option (List TSAttr)} {targets targets' : List ResTarget}
    (h : Timestamp.rewriteSets master relcache targets ctx = some (targets', ctx₁)) :
    R ctx ctx₁ (targets.flatMap ResTarget.trees) (targets'.flatMap ResTarget.trees) := by
  induction targets generalizing ctx targets' with
  | nil =>
    cases h
    exact hpass.refl _ []
  | cons res rest ih =>
    have hcons : ∀ {ctx₂ val rest'}, R ctx ctx₂ [res.val] [val] →
        Timestamp.rewriteSets master relcache rest ctx₂ = some (rest', ctx₁) →
        R ctx ctx₁ ((res :: rest).flatMap ResTarget.trees)
          (({ res with val := val } :: rest').flatMap ResTarget.trees) := by
      intro ctx₂ val rest' hval hrest
      exact hpass.append (hpass.append (hpass.refl ctx res.indirection) hval) (ih hrest)
    simp only [Timestamp.rewriteSets] at h
    split at h
    · split at h
      · cases h
      · next attrs =>
        split at h
        · cases h
        · next rest' ctx₂ hrest =>
          cases h
          refine hcons ?_ hrest
          split
          · exact hpass.refl ctx [res.val]
          · next attr _ => exact hpass.replaceDefault attr res.val
    · split at h
      · cases h
      · next rest' ctx₂ hrest =>
        cases h
        exact hcons (hpass.refl ctx [res.val]) hrest


end Pass

/-! ## What happens to an INSERT -/

/-- The statement once its source and its columns are these. -/
def InsertStmt.replace (stmt : InsertStmt) (source : InsertSource) (appended : List TSAttr) : InsertStmt :=
  { stmt with cols := stmt.cols ++ appended.map appendedTarget, selectStmt := some source }

/-- The loops over the columns of the table: DEFAULT VALUES, a query, rows without a column list, or rows
with one.  For DEFAULT VALUES without time columns the values are not used. -/
def InsertLoops (master : Master) (stmt : InsertStmt) (ctx : Ctx) (stmt' : InsertStmt) (ctx' : Ctx) :
    Prop :=
  (∃ attrs, stmt.selectStmt = none ∧ master.relcache stmt.relname = some attrs ∧
      ctx' = (fillColumns master attrs ctx).2 ∧
      (ctx'.rewrite = true → stmt' = stmt.replace ⟨[], [(fillColumns master attrs ctx).1], []⟩ [])) ∨
    ∃ source, stmt.selectStmt = some source ∧
      ((walkSource source ctx).1.valuesLists = [] ∧ ctx' = (walkSource source ctx).2 ∧
          stmt' = stmt.replace (walkSource source ctx).1 [] ∨
        (∃ attrs rows, master.relcache stmt.relname = some attrs ∧ stmt.cols = [] ∧
          rewriteRows master attrs (walkSource source ctx).1.valuesLists
            (walkSource source ctx).2 = some (rows, ctx') ∧
          stmt' = stmt.replace { (walkSource source ctx).1 with valuesLists := rows } []) ∨
        ∃ attrs rows, master.relcache stmt.relname = some attrs ∧ stmt.cols ≠ [] ∧
          (walkSource source ctx).1.valuesLists ≠ [] ∧
          rewriteListedRows master attrs (appendColumns attrs stmt.cols)
            ((stmt.cols ++ (appendColumns attrs stmt.cols).map appendedTarget).map ResTarget.name)
            (walkSource source ctx).1.valuesLists
            (if (appendColumns attrs stmt.cols).isEmpty then (walkSource source ctx).2
              else (walkSource source ctx).2.setRewrite) = some (rows, ctx') ∧
          stmt' = stmt.replace { (walkSource source ctx).1 with valuesLists := rows }
            (appendColumns attrs stmt.cols))

/-- Nothing is returned where the columns of the table are not known; elsewhere the loops say whether. -/
theorem insert_outcome {stmt stmt' : InsertStmt} {rewrite : Bool}
    (h : rewriteTimestampInsert master stmt ctx = some (stmt', ctx₁, rewrite)) :
    rewrite = false ∧ master.relcache stmt.relname = none ∨
      rewrite = ctx₁.rewrite ∧ InsertLoops master stmt ctx stmt' ctx₁ := by
  have hreplace (source : InsertSource) :
      { stmt with selectStmt := some source } = stmt.replace source [] := by
    simp [InsertStmt.replace]
  unfold rewriteTimestampInsert at h
  cases hselect : stmt.selectStmt with
  | none =>
    simp only [hselect] at h
    split at h
    · next hattrs =>
      cases h
      exact Or.inl ⟨rfl, hattrs⟩
    · next attrs hattrs =>
      split at h
      · next hctx =>
        cases h
        exact Or.inr ⟨hctx.symm, Or.inl ⟨attrs, hselect, hattrs, rfl, fun _ => hreplace _⟩⟩
      · next hctx =>
        cases h
        have hfalse : (fillColumns master attrs ctx).2.rewrite = false := by simpa using hctx
        exact Or.inr ⟨hfalse.symm, Or.inl ⟨attrs, hselect, hattrs, rfl, fun htrue => absurd htrue hctx⟩⟩
  | some source =>
    simp only [hselect] at h
    split at h
    · next hvalues =>
      cases h
      exact Or.inr ⟨rfl, Or.inr ⟨source, hselect, Or.inl ⟨by simpa using hvalues, rfl, hreplace _⟩⟩⟩
    · next hvalues =>
      split at h
      · next hattrs =>
        cases h
        exact Or.inl ⟨rfl, hattrs⟩
      · next attrs hattrs =>
        split at h
        · next hcols =>
          split at h
          · cases h
          · next rows _ hrows =>
            cases h
            exact Or.inr ⟨rfl, Or.inr ⟨source, hselect, Or.inr (Or.inl
              ⟨attrs, rows, hattrs, by simpa using hcols, hrows, hreplace _⟩)⟩⟩
        · next hcols =>
          split at h
          · cases h
          · next rows _ hrows =>
            cases h
            exact Or.inr ⟨rfl, Or.inr ⟨source, hselect, Or.inr (Or.inr
              ⟨attrs, rows, hattrs, by simpa using hcols, by simpa using hvalues, hrows, rfl⟩)⟩⟩

/-- An INSERT that has been rewritten. -/
theorem insert_cases {stmt stmt' : InsertStmt} {rewrite : Bool}
    (h : rewriteTimestampInsert master stmt ctx = some (stmt', ctx₁, rewrite))
    (hrewrite : rewrite = true) :
    ctx₁.rewrite = true ∧ InsertLoops master stmt ctx stmt' ctx₁ := by
  obtain ⟨hfalse, -⟩ | ⟨hctx, hloops⟩ := insert_outcome h
  · rw [hrewrite] at hfalse
    cases hfalse
  · exact ⟨hctx ▸ hrewrite, hloops⟩

end Timestamp

end PgPool
