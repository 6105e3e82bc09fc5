import Mathlib.Data.List.Forall2
import PgPool.Timestamp.Clocks
import PgPool.Timestamp.Numbers

/-!
# The values that time columns get for their defaults

A default becomes the text of what the master makes of it, or a parameter that is bound to the time.  The
two are the same for a default that is just the time.
-/

namespace PgPool

namespace Timestamp

open PgPool.Timestamp.Tree

/-! ## What is stored -/

/-- A column that is left out, or given as DEFAULT. -/
def leftToDefault : Option Tree → Bool
  | none => true
  | some val => val.isDefault

/-- What a row gives for each column, by position. -/
def assign : List TSAttr → List Tree → List (TSAttr × Option Tree)
  | [], _ => []
  | attr :: attrs, [] => (attr, none) :: assign attrs []
  | attr :: attrs, val :: vals => (attr, some val) :: assign attrs vals

/-- What it gives by a column list. -/
def assignListed (attrs : List TSAttr) (names : List String) (row : List Tree) :
    List (TSAttr × Option Tree) :=
  attrs.map fun attr => (attr, (names.zip row).lookup attr.attrname)

def assignRow (attrs : List TSAttr) (cols : List ResTarget) (row : List Tree) :
    List (TSAttr × Option Tree) :=
  if cols.isEmpty then assign attrs row else assignListed attrs (cols.map ResTarget.name) row

/-- What a SET gives for a column of the table. -/
def assignTarget (attrs : List TSAttr) (res : ResTarget) : Option (TSAttr × Option Tree) :=
  (attrs.find? fun attr => attr.attrname == res.name).map fun attr => (attr, some res.val)

/-- What a statement gives for the columns of its table.  `DEFAULT VALUES` is one row that gives nothing;
what a query gives is not looked at. -/
def Dml.assigned (attrs : List TSAttr) : Dml → List (TSAttr × Option Tree)
  | .insert stmt => (stmt.selectStmt.elim [[]] InsertSource.valuesLists).flatMap
      (assignRow attrs stmt.cols)
  | .update stmt => stmt.targetList.filterMap (assignTarget attrs)
  | .delete _ => []

/-- The statement has its rows for this table. -/
def Dml.FitsTable (attrs : List TSAttr) : Dml → Prop
  | .insert stmt =>
      match stmt.selectStmt with
      | none => stmt.cols = []
      | some source =>
          if stmt.cols = [] then ∀ row ∈ source.valuesLists, row.length ≤ attrs.length
          else (∀ col ∈ stmt.cols, col.name ∈ attrs.map TSAttr.attrname) ∧
            ∀ row ∈ source.valuesLists, row.length = stmt.cols.length
  | _ => True

/-- A table, with the names of its columns apart, and an INSERT or UPDATE on it. -/
structure OnTable where
  attrs : List TSAttr
  apart : (attrs.map TSAttr.attrname).Nodup
  query : Dml
  fresh : tsParamsList query.trees = []
  fits : query.FitsTable attrs

/-! ## What is put in -/

variable {ctx ctx₁ ctx₂ final : Ctx} {attrs : List TSAttr} {attr : TSAttr} (master : Master)

/-- The mode stays, the parameters become no fewer, and that there is something to rewrite is not
forgotten. -/
structure Grows (ctx ctx' : Ctx) : Prop where
  mode : ctx'.rewriteToParams = ctx.rewriteToParams
  added : ctx.added ≤ ctx'.added
  rewrite : ctx.rewrite = true → ctx'.rewrite = true

theorem Grows.refl (ctx : Ctx) : Grows ctx ctx := ⟨rfl, Nat.le_refl _, id⟩

theorem Grows.trans (hfirst : Grows ctx ctx₁) (hsecond : Grows ctx₁ ctx₂) : Grows ctx ctx₂ where
  mode := hsecond.mode.trans hfirst.mode
  added := hfirst.added.trans hsecond.added
  rewrite h := hsecond.rewrite (hfirst.rewrite h)

theorem grows_makeDefault (ctx : Ctx) (attr : TSAttr) : Grows ctx (makeDefault master attr ctx).2 := by
  cases hmode : ctx.rewriteToParams with
  | true =>
    rw [makeDefault_on master hmode]
    exact ⟨rfl, Nat.le_succ _, id⟩
  | false =>
    have hsame : (makeDefault master attr ctx).2 = ctx := by simp [makeDefault, hmode]
    rw [hsame]
    exact .refl ctx

theorem grows_setRewrite (ctx : Ctx) : Grows ctx ctx.setRewrite := ⟨rfl, Nat.le_refl _, fun _ => rfl⟩

theorem pass_grows : Pass master fun ctx ctx' _ _ => Grows ctx ctx' where
  refl ctx _ := .refl ctx
  append hfirst hsecond := hfirst.trans hsecond
  default ctx := .refl ctx
  made ctx attr := grows_makeDefault master ctx attr
  filled ctx attr := (grows_makeDefault master ctx attr).trans (grows_setRewrite _)
  replaced ctx attr _ _ := (grows_makeDefault master ctx attr).trans (grows_setRewrite _)

/-- What stands for the default of a time column in the end: one of the parameters added, or a constant. -/
structure Made (final : Ctx) (attr : TSAttr) (val : Tree) : Prop where
  rewrite : final.rewrite = true
  param : final.rewriteToParams = true → ∃ k, k < final.added ∧ val = .node (.tsParam k) []
  const : final.rewriteToParams = false → val = makeStringConstFromQuery master attr.adsrc

/-- What stands for a column: of a time column that gets its default a value as `isOwn` has it, and else
what is given. -/
def Placed (isOwn : TSAttr → Tree → Prop) (attr : TSAttr) (given : Option Tree) (val : Tree) : Prop :=
  if attr.useTimestamp && leftToDefault given then isOwn attr val else val = given.getD .default

/-- The pairs that a row becomes, where all columns have a value. -/
def RowPlaced (isOwn : TSAttr → Tree → Prop) (attrs : List TSAttr) (row row' : List Tree) : Prop :=
  List.Forall₂ (fun (given : TSAttr × Option Tree) val => Placed isOwn given.1 given.2 val)
    (assign attrs row) row'

/-- The columns, and which of them are left to their defaults. -/
def wanted (assigned : List (TSAttr × Option Tree)) : List (TSAttr × Bool) :=
  assigned.map fun given => (given.1, leftToDefault given.2)

/-- A time column that was left to its default no longer is. -/
def Fills (final : Ctx) (old : TSAttr × Bool) (new : TSAttr × Option Tree) : Prop :=
  new.1 = old.1 ∧ (old.1.useTimestamp = true → old.2 = true →
    ∃ val, new.2 = some val ∧ Made master final old.1 val)

theorem wanted_append (given given' : List (TSAttr × Option Tree)) :
    wanted (given ++ given') = wanted given ++ wanted given' := by
  simp [wanted]

theorem made_makeDefault (hlast : Grows (makeDefault master attr ctx).2 final)
    (hrewrite : final.rewrite = true) : Made master final attr (makeDefault master attr ctx).1 := by
  have hmode := hlast.mode.trans (grows_makeDefault master ctx attr).mode
  refine ⟨hrewrite, ?_, ?_⟩
  · intro hon
    rw [hmode] at hon
    have hadded := hlast.added
    rw [makeDefault_on master hon] at hadded ⊢
    exact ⟨ctx.added, hadded, rfl⟩
  · intro hoff
    rw [hmode] at hoff
    simp [makeDefault, hoff]

theorem made_setRewrite (hlast : Grows (makeDefault master attr ctx).2.setRewrite final) :
    Made master final attr (makeDefault master attr ctx).1 :=
  made_makeDefault master ((grows_setRewrite _).trans hlast) (hlast.rewrite rfl)

/-- A value that is given. -/
theorem made_replaceDefault {val : Tree} (htime : attr.useTimestamp = true)
    (hdefault : val.isDefault = true) (hlast : Grows (replaceDefault master attr val ctx).2 final) :
    Made master final attr (replaceDefault master attr val ctx).1 := by
  simp only [replaceDefault, htime, hdefault, Bool.and_self, if_true] at hlast ⊢
  exact made_setRewrite master hlast

theorem Placed.own {P : TSAttr → Tree → Prop} {given : Option Tree} {val : Tree}
    (h : Placed P attr given val) (htime : attr.useTimestamp = true)
    (hdefault : leftToDefault given = true) : P attr val := by
  unfold Placed at h
  rwa [if_pos (by rw [htime, hdefault]; rfl)] at h

section

variable {master}

theorem placed_replaceDefault {val : Tree} (hlast : Grows (replaceDefault master attr val ctx).2 final) :
    Placed (Made master final) attr (some val) (replaceDefault master attr val ctx).1 := by
  unfold Placed
  split
  · next hdefault =>
    rw [Bool.and_eq_true] at hdefault
    exact made_replaceDefault master hdefault.1 hdefault.2 hlast
  · next hgiven =>
    unfold replaceDefault
    exact congrArg Prod.fst (if_neg hgiven)

theorem placed_fillColumns (hlast : Grows (fillColumns master attrs ctx).2 final) :
    RowPlaced (Made master final) attrs [] (fillColumns master attrs ctx).1 := by
  unfold RowPlaced
  induction attrs generalizing ctx with
  | nil => exact .nil
  | cons attr attrs ih =>
    cases htime : attr.useTimestamp with
    | true =>
      have hrest : Grows (makeDefault master attr ctx).2.setRewrite
          (fillColumns master attrs (makeDefault master attr ctx).2.setRewrite).2 :=
        (pass_grows master).fillColumns attrs
      simp only [fillColumns, htime, if_true] at hlast ⊢
      refine .cons ?_ (ih hlast)
      unfold Placed
      rw [htime]
      exact made_setRewrite master (hrest.trans hlast)
    | false =>
      simp only [fillColumns, htime, Bool.false_eq_true, if_false] at hlast ⊢
      refine .cons ?_ (ih hlast)
      unfold Placed
      rw [htime]
      rfl

theorem placed_rewriteRow {vals vals' : List Tree}
    (h : rewriteRow master attrs vals ctx = some (vals', ctx₁)) (hlast : Grows ctx₁ final) :
    RowPlaced (Made master final) attrs vals vals' := by
  induction vals generalizing attrs ctx vals' with
  | nil =>
    rw [rewriteRow, Option.some.injEq] at h
    have hfill : RowPlaced (Made master final) attrs [] (fillColumns master attrs ctx).1 :=
      placed_fillColumns (by rwa [h])
    rwa [h] at hfill
  | cons val vals ih =>
    obtain ⟨attr, attrs, new, rfl, rfl, hrest⟩ := rewriteRow_cons h
    have hgrows : Grows (replaceDefault master attr val ctx).2 ctx₁ :=
      (pass_grows master).rewriteRow hrest
    exact .cons (placed_replaceDefault (hgrows.trans hlast)) (ih hrest)

theorem placed_rewriteRows {rows rows' : List (List Tree)}
    (h : rewriteRows master attrs rows ctx = some (rows', ctx₁)) (hlast : Grows ctx₁ final) :
    List.Forall₂ (RowPlaced (Made master final) attrs) rows rows' := by
  induction rows generalizing ctx rows' with
  | nil =>
    cases h
    exact .nil
  | cons row rows ih =>
    obtain ⟨row', new, middle, rfl, hrow, hrest⟩ := rewriteRows_cons h
    have hgrows : Grows middle ctx₁ := (pass_grows master).rewriteRows hrest
    exact .cons (placed_rewriteRow hrow (hgrows.trans hlast)) (ih hrest)

theorem fills_of_placed {given : Option Tree} {val : Tree}
    (h : Placed (Made master final) attr given val) :
    Fills master final (attr, leftToDefault given) (attr, some val) :=
  ⟨rfl, fun htime hdefault => ⟨val, rfl, h.own htime hdefault⟩⟩

theorem RowPlaced.fills {row row' : List Tree} (h : RowPlaced (Made master final) attrs row row') :
    List.Forall₂ (Fills master final) (wanted (assign attrs row)) (assign attrs row') := by
  induction attrs generalizing row row' with
  | nil => exact .nil
  | cons attr attrs ih =>
    cases row with
    | nil =>
      cases h with
      | cons hplaced hrest => exact .cons (fills_of_placed hplaced) (ih hrest)
    | cons val row =>
      cases h with
      | cons hplaced hrest => exact .cons (fills_of_placed hplaced) (ih hrest)

theorem fills_of_rowPlaced {rows rows' : List (List Tree)}
    (h : List.Forall₂ (RowPlaced (Made master final) attrs) rows rows') :
    List.Forall₂ (Fills master final) (wanted (rows.flatMap (assign attrs)))
      (rows'.flatMap (assign attrs)) := by
  induction h with
  | nil => exact .nil
  | cons hrow _ ih =>
    rw [List.flatMap_cons, wanted_append]
    exact List.rel_append hrow.fills ih

end

/-! ### With a column list -/

theorem length_rewriteListed {names : List String} {vals vals' : List Tree}
    (h : rewriteListed master attrs names vals ctx = some (vals', ctx₁)) :
    vals'.length = vals.length := by
  induction vals generalizing names ctx vals' with
  | nil => cases names <;> (cases h; rfl)
  | cons val vals ih =>
    cases names with
    | nil =>
      cases h
      rfl
    | cons name names =>
      obtain ⟨attr, new, -, rfl, hrest⟩ := rewriteListed_cons h
      simp [ih hrest]

theorem find?_attr (hapart : (attrs.map TSAttr.attrname).Nodup) (hmem : attr ∈ attrs) :
    (attrs.find? fun a => a.attrname == attr.attrname) = some attr := by
  induction attrs with
  | nil => cases hmem
  | cons a attrs ih =>
    rw [List.map_cons, List.nodup_cons] at hapart
    by_cases heq : a = attr
    · simp [heq]
    · have hmem : attr ∈ attrs := (List.mem_cons.1 hmem).resolve_left (Ne.symm heq)
      have hne : a.attrname ≠ attr.attrname := by
        intro hname
        exact hapart.1 (hname ▸ List.mem_map_of_mem hmem)
      simp [hne, ih hapart.2 hmem]

/-- What a listed column is given. -/
theorem lookup_rewriteListed (hapart : (attrs.map TSAttr.attrname).Nodup) (hmem : attr ∈ attrs)
    {names : List String} {vals vals' : List Tree} {val : Tree}
    (h : rewriteListed master attrs names vals ctx = some (vals', ctx₁)) (hlast : Grows ctx₁ final)
    (hval : (names.zip vals).lookup attr.attrname = some val) :
    ∃ val', (names.zip vals').lookup attr.attrname = some val' ∧
      (attr.useTimestamp = true → val.isDefault = true → Made master final attr val') := by
  induction vals generalizing names ctx vals' with
  | nil => simp at hval
  | cons v vals ih =>
    cases names with
    | nil => simp at hval
    | cons name names =>
      obtain ⟨a, new, hfind, rfl, hrest⟩ := rewriteListed_cons h
      have hgrows : Grows (replaceDefault master a v ctx).2 ctx₁ :=
        (pass_grows master).rewriteListed hrest
      by_cases hname : attr.attrname = name
      · subst hname
        rw [find?_attr hapart hmem] at hfind
        cases hfind
        simp only [List.zip_cons_cons, List.lookup_cons, beq_self_eq_true, Option.some.injEq] at hval
        subst hval
        refine ⟨(replaceDefault master attr v ctx).1, by simp, ?_⟩
        intro htime hdefault
        exact made_replaceDefault master htime hdefault (hgrows.trans hlast)
      · have hne : (attr.attrname == name) = false := by simpa using hname
        simp only [List.zip_cons_cons, List.lookup_cons, hne] at hval ⊢
        exact ih hrest hval

/-- What a column gets that has been appended. -/
theorem lookup_appendDefaults {appended : List TSAttr}
    (hapart : (appended.map TSAttr.attrname).Nodup) (hmem : attr ∈ appended)
    (hlast : Grows (appendDefaults master appended ctx).2 final) (hrewrite : final.rewrite = true) :
    ∃ val, ((appended.map TSAttr.attrname).zip (appendDefaults master appended ctx).1).lookup
        attr.attrname = some val ∧ Made master final attr val := by
  induction appended generalizing ctx with
  | nil => cases hmem
  | cons a appended ih =>
    have hgrows : Grows (makeDefault master a ctx).2
        (appendDefaults master appended (makeDefault master a ctx).2).2 :=
      (pass_grows master).appendDefaults appended
    simp only [appendDefaults] at hlast ⊢
    rw [List.map_cons, List.nodup_cons] at hapart
    by_cases heq : a = attr
    · subst heq
      exact ⟨_, by simp, made_makeDefault master (hgrows.trans hlast) hrewrite⟩
    · have hmem : attr ∈ appended := (List.mem_cons.1 hmem).resolve_left (Ne.symm heq)
      have hne : (attr.attrname == a.attrname) = false := by
        rw [beq_eq_false_iff_ne]
        intro hname
        exact hapart.1 (hname ▸ List.mem_map_of_mem hmem)
      simp only [List.map_cons, List.zip_cons_cons, List.lookup_cons, hne]
      exact ih hapart.2 hmem hlast

theorem zip_append_left {α β : Type} {as : List α} {bs : List β} (more : List α)
    (hlen : as.length = bs.length) : (as ++ more).zip bs = as.zip bs := by
  induction as generalizing bs with
  | nil => cases bs <;> simp_all
  | cons a as ih =>
    cases bs with
    | nil => cases hlen
    | cons b bs => simp [ih (Nat.succ_injective hlen)]

theorem lookup_zip_eq_none {β : Type} {names : List String} {bs : List β} {name : String}
    (hlen : names.length = bs.length) : (names.zip bs).lookup name = none ↔ name ∉ names := by
  induction names generalizing bs with
  | nil => simp
  | cons first names ih =>
    cases bs with
    | nil => cases hlen
    | cons b bs =>
      by_cases heq : name = first
      · simp [heq]
      · have hne : (name == first) = false := by simpa using heq
        simp [List.lookup_cons, hne, heq, ih (Nat.succ_injective hlen)]

/-- A row with a column list, to which the time columns that are not listed have been appended. -/
theorem fills_listedRow {cols : List ResTarget} {row row' : List Tree}
    (hapart : (attrs.map TSAttr.attrname).Nodup) (hlen : row.length = cols.length)
    (h : rewriteListed master attrs
      ((cols ++ (appendColumns attrs cols).map appendedTarget).map ResTarget.name) row ctx =
        some (row', ctx₁))
    (hrewrite : appendColumns attrs cols ≠ [] → ctx.rewrite = true)
    (hlast : Grows (appendDefaults master (appendColumns attrs cols) ctx₁).2 final) :
    List.Forall₂ (Fills master final) (wanted (assignListed attrs (cols.map ResTarget.name) row))
      (assignListed attrs ((cols ++ (appendColumns attrs cols).map appendedTarget).map ResTarget.name)
        (row' ++ (appendDefaults master (appendColumns attrs cols) ctx₁).1)) := by
  have hnames : (cols ++ (appendColumns attrs cols).map appendedTarget).map ResTarget.name =
      cols.map ResTarget.name ++ (appendColumns attrs cols).map TSAttr.attrname := by
    simp [Function.comp_def, appendedTarget]
  have hgrows : Grows ctx ctx₁ := (pass_grows master).rewriteListed h
  have hmore : Grows ctx₁ (appendDefaults master (appendColumns attrs cols) ctx₁).2 :=
    (pass_grows master).appendDefaults _
  have hrow' : (cols.map ResTarget.name).length = row'.length := by
    rw [length_rewriteListed master h, List.length_map, hlen]
  have hrow : (cols.map ResTarget.name).length = row.length := by simp [hlen]
  rw [hnames] at h ⊢
  unfold assignListed wanted
  rw [List.map_map, List.forall₂_map_left_iff, List.forall₂_map_right_iff, List.forall₂_same]
  intro attr hmem
  refine ⟨rfl, ?_⟩
  intro htime hdefault
  rw [List.zip_append hrow', List.lookup_append]
  cases hlookup : ((cols.map ResTarget.name).zip row).lookup attr.attrname with
  | some val =>
    simp only [Function.comp_apply, hlookup] at hdefault
    rw [← zip_append_left _ hrow] at hlookup
    obtain ⟨val', hval', hmade⟩ :=
      lookup_rewriteListed master hapart hmem h (hmore.trans hlast) hlookup
    rw [zip_append_left _ hrow'] at hval'
    exact ⟨val', by simp [hval'], hmade htime hdefault⟩
  | none =>
    have hunlisted : attr.attrname ∉ cols.map ResTarget.name := (lookup_zip_eq_none hrow).1 hlookup
    have happended : attr ∈ appendColumns attrs cols := by
      simp only [List.mem_map, not_exists, not_and] at hunlisted
      refine List.mem_filter.2 ⟨hmem, ?_⟩
      simpa using ⟨htime, fun col hcol heq => hunlisted col hcol (Eq.symm heq)⟩
    have hsub : (appendColumns attrs cols).Sublist attrs := List.filter_sublist
    have hfinal := hlast.rewrite (hmore.rewrite (hgrows.rewrite
      (hrewrite (List.ne_nil_of_mem happended))))
    obtain ⟨val, hval, hmade⟩ :=
      lookup_appendDefaults master (hapart.sublist (hsub.map TSAttr.attrname)) happended hlast hfinal
    exact ⟨val, by simp [(lookup_zip_eq_none hrow').2 hunlisted, hval], hmade⟩

/-! ### In an UPDATE -/

theorem fills_rewriteSets {targets targets' : List ResTarget}
    (h : rewriteSets master (some attrs) targets ctx = some (targets', ctx₁))
    (hlast : Grows ctx₁ final) :
    List.Forall₂ (Fills master final) (wanted (targets.filterMap (assignTarget attrs)))
      (targets'.filterMap (assignTarget attrs)) := by
  induction targets generalizing ctx targets' with
  | nil =>
    cases h
    exact .nil
  | cons res rest ih =>
    simp only [rewriteSets] at h
    split at h
    · next hdefault =>
      split at h
      · cases h
      · next rest' _ hrest =>
        cases h
        have hgrows : Grows _ ctx₁ := (pass_grows master).rewriteSets hrest
        cases hfind : attrs.find? fun attr => attr.attrname == res.name with
        | none =>
          simp only [List.filterMap_cons, assignTarget, hfind, Option.map_none]
          exact ih hrest
        | some attr =>
          simp only [List.filterMap_cons, assignTarget, hfind, Option.map_some]
          rw [hfind] at hgrows
          refine .cons ⟨rfl, fun htime _ => ⟨_, rfl, ?_⟩⟩ (ih hrest)
          exact made_replaceDefault master htime hdefault (hgrows.trans hlast)
    · next hgiven =>
      split at h
      · cases h
      · next rest' _ hrest =>
        cases h
        cases hfind : attrs.find? fun attr => attr.attrname == res.name with
        | none =>
          simp only [List.filterMap_cons, assignTarget, hfind, Option.map_none]
          exact ih hrest
        | some attr =>
          simp only [List.filterMap_cons, assignTarget, hfind, Option.map_some]
          exact .cons ⟨rfl, fun _ htrue => absurd htrue hgiven⟩ (ih hrest)

/-! ## What is left to its default -/

theorem forall₂_imp_mem {α β : Type} {R S : α → β → Prop} {as : List α} {bs : List β}
    (hR : List.Forall₂ R as bs) (h : ∀ a ∈ as, ∀ b, R a b → S a b) : List.Forall₂ S as bs := by
  induction hR with
  | nil => exact .nil
  | cons hfirst _ ih =>
    exact .cons (h _ List.mem_cons_self _ hfirst)
      (ih fun a ha => h a (List.mem_cons_of_mem _ ha))

/-- The walk leaves each DEFAULT where it is. -/
theorem sameLook_walkItems (row : List Tree) :
    List.Forall₂ SameLook row (walkItems row ctx).1 := by
  induction row generalizing ctx with
  | nil => exact .nil
  | cons val row ih =>
    rw [walkItems_cons]
    exact .cons (sameLook_walker val ctx) ih

theorem wanted_assign {row row' : List Tree} (h : List.Forall₂ SameLook row row') :
    wanted (assign attrs row') = wanted (assign attrs row) := by
  induction h generalizing attrs with
  | nil => rfl
  | cons hlook _ ih =>
    cases attrs with
    | nil => rfl
    | cons attr attrs =>
      have hrest := @ih attrs
      simp only [wanted, assign, List.map_cons, leftToDefault, hlook.default] at hrest ⊢
      rw [hrest]

theorem wanted_assignListed {names : List String} {row row' : List Tree}
    (h : List.Forall₂ SameLook row row') :
    wanted (assignListed attrs names row') = wanted (assignListed attrs names row) := by
  have hlookup : ∀ name, leftToDefault ((names.zip row').lookup name) =
      leftToDefault ((names.zip row).lookup name) := by
    intro name
    induction h generalizing names with
    | nil => rfl
    | cons hlook _ ih =>
      cases names with
      | nil => rfl
      | cons first names =>
        simp only [List.zip_cons_cons, List.lookup_cons]
        split
        · exact hlook.default
        · exact ih
  simp [wanted, assignListed, hlookup]

theorem wanted_walkRows (cols : List ResTarget) (rows : List (List Tree)) :
    wanted ((walkRows rows ctx).1.flatMap (assignRow attrs cols)) =
      wanted (rows.flatMap (assignRow attrs cols)) := by
  induction rows generalizing ctx with
  | nil => rfl
  | cons row rows ih =>
    have hrow : wanted (assignRow attrs cols (walkItems row ctx).1) =
        wanted (assignRow attrs cols row) := by
      unfold assignRow
      split
      · exact wanted_assign (sameLook_walkItems row)
      · exact wanted_assignListed (sameLook_walkItems row)
    simp only [walkRows, List.flatMap_cons, wanted_append, hrow, ih]

theorem wanted_walkTargets (targets : List ResTarget) :
    wanted ((walkTargets targets ctx).1.filterMap (assignTarget attrs)) =
      wanted (targets.filterMap (assignTarget attrs)) := by
  induction targets generalizing ctx with
  | nil => rfl
  | cons res rest ih =>
    have hlook := (sameLook_walker res.val (walkItems res.indirection ctx).2).default
    simp only [walkTargets, List.filterMap_cons, assignTarget] at ih ⊢
    cases attrs.find? fun attr => attr.attrname == res.name with
    | none => exact ih
    | some attr =>
      simp only [wanted, Option.map_some, List.map_cons, leftToDefault, hlook] at ih ⊢
      rw [ih]

/-! ## The statement -/

/-- Of a statement that has been rewritten no time column is left to its default. -/
def FillsAll (attrs : List TSAttr) (query query' : Dml) (final : Ctx) : Prop :=
  ∃ new, List.Forall₂ (Fills master final) (wanted (query.assigned attrs)) new ∧
    (final.rewrite = true → query'.assigned attrs = new)

/-- An INSERT with these rows in place of its own. -/
theorem assigned_replace (stmt : InsertStmt) (source : InsertSource) (appended : List TSAttr) :
    (Dml.insert (stmt.replace source appended)).assigned attrs =
      source.valuesLists.flatMap (assignRow attrs (stmt.cols ++ appended.map appendedTarget)) := rfl

theorem wanted_source {stmt : InsertStmt} {source : InsertSource} (ctx : Ctx)
    (h : stmt.selectStmt = some source) :
    wanted ((Dml.insert stmt).assigned attrs) =
      wanted ((walkSource source ctx).1.valuesLists.flatMap (assignRow attrs stmt.cols)) := by
  simp only [Dml.assigned, h, Option.elim_some]
  exact (wanted_walkRows stmt.cols source.valuesLists).symm

theorem assignRow_nil : assignRow attrs [] = assign attrs := rfl

theorem assignRow_cons {cols : List ResTarget} (h : cols ≠ []) (row : List Tree) :
    assignRow attrs cols row = assignListed attrs (cols.map ResTarget.name) row := by
  simp [assignRow, h]

/-- The walk keeps the lengths of the rows. -/
theorem length_walkRows {rows : List (List Tree)} (P : Nat → Prop) (h : ∀ row ∈ rows, P row.length) :
    ∀ row ∈ (walkRows rows ctx).1, P row.length := by
  induction rows generalizing ctx with
  | nil => nofun
  | cons row rows ih =>
    intro row' hrow'
    simp only [walkRows, List.mem_cons] at hrow'
    obtain rfl | hrest := hrow'
    · rw [← (sameLook_walkItems row).length_eq]
      exact h row List.mem_cons_self
    · exact ih (fun row hrow => h row (List.mem_cons_of_mem _ hrow)) row' hrest

theorem fills_insert {stmt stmt' : InsertStmt} (hattrs : master.relcache stmt.relname = some attrs)
    (hapart : (attrs.map TSAttr.attrname).Nodup) (hfits : (Dml.insert stmt).FitsTable attrs)
    (h : InsertLoops master stmt ctx stmt' ctx₁) :
    FillsAll master attrs (.insert stmt) (.insert stmt') ctx₁ := by
  unfold FillsAll
  obtain ⟨attrs', hselect, hattrs', rfl, hvalues⟩ | ⟨source, hselect, hsource⟩ := h
  · rw [hattrs] at hattrs'
    cases hattrs'
    have hcols : stmt.cols = [] := by simpa [Dml.FitsTable, hselect] using hfits
    refine ⟨assign attrs (fillColumns master attrs ctx).1, ?_, ?_⟩
    · have hgiven : (Dml.insert stmt).assigned attrs = assign attrs [] := by
        simp [Dml.assigned, hselect, hcols, assignRow_nil]
      rw [hgiven]
      exact (placed_fillColumns (.refl _)).fills
    · intro hrewrite
      rw [hvalues hrewrite, assigned_replace, hcols]
      simp [assignRow_nil]
  · rw [wanted_source ctx hselect]
    obtain ⟨hempty, rfl, rfl⟩ | ⟨attrs', rows, hattrs', hcols, hrows, rfl⟩ |
      ⟨attrs', rows, hattrs', hcols, hvalues, hrows, rfl⟩ := hsource
    · refine ⟨[], ?_, ?_⟩
      · rw [hempty]
        exact .nil
      · intro _
        rw [assigned_replace, hempty]
        rfl
    · rw [hattrs] at hattrs'
      cases hattrs'
      refine ⟨rows.flatMap (assign attrs), ?_, ?_⟩
      · rw [hcols, assignRow_nil]
        exact fills_of_rowPlaced (placed_rewriteRows hrows (.refl _))
      · intro _
        rw [assigned_replace, hcols]
        rfl
    · rw [hattrs] at hattrs'
      cases hattrs'
      refine ⟨_, ?_, fun _ => rfl⟩
      have hlen : ∀ row ∈ source.valuesLists, row.length = stmt.cols.length := by
        simp only [Dml.FitsTable, hselect, hcols, if_false] at hfits
        exact hfits.2
      have hwalked : ∀ row ∈ (walkSource source ctx).1.valuesLists, row.length = stmt.cols.length :=
        length_walkRows (fun n => n = stmt.cols.length) hlen
      rw [assigned_replace]
      unfold rewriteListedRows at hrows
      split at hrows
      · next hempty => exact absurd hempty hvalues
      · next row hone =>
        split at hrows
        · cases hrows
        · next row' ctx' hlisted =>
          cases hrows
          have hcols' : stmt.cols ++ (appendColumns attrs stmt.cols).map appendedTarget ≠ [] := by
            simp [hcols]
          simp only [hone, List.flatMap_cons, List.flatMap_nil, List.append_nil, assignRow_cons hcols,
            assignRow_cons hcols']
          refine fills_listedRow master hapart (hwalked row (by simp [hone])) hlisted ?_ (.refl _)
          intro happended
          simp [happended, Ctx.setRewrite]
      · cases hrows

theorem fills_update {stmt stmt' : UpdateStmt} {rewrite : Bool}
    (hattrs : master.relcache stmt.relname = some attrs)
    (h : rewriteTimestampUpdate master stmt ctx = (stmt', ctx₁, rewrite)) :
    rewrite = ctx₁.rewrite ∧ FillsAll master attrs (.update stmt) (.update stmt') ctx₁ := by
  unfold rewriteTimestampUpdate at h
  simp only [hattrs] at h
  split at h
  · next hnone =>
    exact absurd hnone (rewriteSets_ne_none master (Or.inl rfl))
  · next targets _ hsets =>
    cases h
    refine ⟨rfl, _, ?_, fun _ => rfl⟩
    have hwalk : wanted ((Dml.update stmt).assigned attrs) =
        wanted ((walkTargets stmt.targetList ctx).1.filterMap (assignTarget attrs)) :=
      (wanted_walkTargets stmt.targetList).symm
    rw [hwalk]
    exact fills_rewriteSets master hsets (.refl _)

theorem fills_rewriteDml {query query' : Dml} {rewrite : Bool}
    (hattrs : ∀ relname, master.relcache relname = some attrs)
    (hapart : (attrs.map TSAttr.attrname).Nodup) (hfits : query.FitsTable attrs)
    (h : rewriteDml master ctx query = some (query', ctx₁, rewrite)) :
    rewrite = ctx₁.rewrite ∧ FillsAll master attrs query query' ctx₁ := by
  obtain ⟨stmt, stmt', rfl, rfl, hinsert⟩ | ⟨stmt, stmt', rfl, rfl, hupdate⟩ |
    ⟨stmt, stmt', rfl, rfl, hdelete⟩ := rewriteDml_cases h
  · obtain ⟨-, hnone⟩ | ⟨hctx, hloops⟩ := insert_outcome hinsert
    · rw [hattrs] at hnone
      cases hnone
    · exact ⟨hctx, fills_insert master (hattrs _) hapart hfits hloops⟩
  · exact fills_update master (hattrs _) hupdate
  · simp only [rewriteTimestampDelete, Prod.mk.injEq] at hdelete
    obtain ⟨rfl, rfl, rfl⟩ := hdelete
    exact ⟨rfl, [], .nil, fun _ => rfl⟩

/-- Where a time column is left to its default something is rewritten. -/
theorem rewrite_of_fills {old : List (TSAttr × Bool)} {new : List (TSAttr × Option Tree)}
    (h : List.Forall₂ (Fills master final) old new) (hmem : (attr, true) ∈ old)
    (htime : attr.useTimestamp = true) : final.rewrite = true := by
  induction h with
  | nil => cases hmem
  | cons hfirst _ ih =>
    obtain heq | hrest := List.mem_cons.1 hmem
    · rw [← heq] at hfirst
      obtain ⟨_, -, hmade⟩ := hfirst.2 htime rfl
      exact hmade.rewrite
    · exact ih hrest

/-! ## What C leaves undefined -/

/-- Not several rows with a column list, for which `append_columns_list` is freed more than once. -/
def Dml.freedOnce : Dml → Bool
  | .insert stmt => stmt.cols.isEmpty ||
      stmt.selectStmt.elim true fun source => decide (source.valuesLists.length ≤ 1)
  | _ => true

theorem isSome_rewriteRow {vals : List Tree} (h : vals.length ≤ attrs.length) :
    (rewriteRow master attrs vals ctx).isSome = true := by
  induction vals generalizing attrs ctx with
  | nil =>
    rw [rewriteRow]
    rfl
  | cons val vals ih =>
    cases attrs with
    | nil => cases h
    | cons attr attrs =>
      have hrest : (rewriteRow master attrs vals (replaceDefault master attr val ctx).2).isSome = true :=
        ih (Nat.le_of_succ_le_succ h)
      obtain ⟨out, hout⟩ := Option.isSome_iff_exists.1 hrest
      simp [rewriteRow, hout]

theorem isSome_rewriteRows {rows : List (List Tree)} (h : ∀ row ∈ rows, row.length ≤ attrs.length) :
    (rewriteRows master attrs rows ctx).isSome = true := by
  induction rows generalizing ctx with
  | nil => rfl
  | cons row rows ih =>
    have hrow : (rewriteRow master attrs row ctx).isSome = true :=
      isSome_rewriteRow master (h row List.mem_cons_self)
    obtain ⟨⟨row', ctx'⟩, hrow⟩ := Option.isSome_iff_exists.1 hrow
    have hrest : (rewriteRows master attrs rows ctx').isSome = true :=
      ih fun r hr => h r (List.mem_cons_of_mem row hr)
    obtain ⟨out, hout⟩ := Option.isSome_iff_exists.1 hrest
    simp [rewriteRows, hrow, hout]

/-- Only columns that have a value are looked up. -/
theorem isSome_rewriteListed_take {names : List String} {vals : List Tree}
    (h : ∀ name ∈ names.take vals.length, name ∈ attrs.map TSAttr.attrname) :
    (rewriteListed master attrs names vals ctx).isSome = true := by
  induction names generalizing vals ctx with
  | nil => cases vals <;> rfl
  | cons name names ih =>
    cases vals with
    | nil => rfl
    | cons val vals =>
      rw [List.length_cons, List.take_succ_cons, List.forall_mem_cons] at h
      obtain ⟨attr, hmem, hname⟩ := List.mem_map.1 h.1
      have hfind : (attrs.find? fun a => a.attrname == name).isSome = true := by
        rw [List.find?_isSome]
        exact ⟨attr, hmem, by simpa using hname⟩
      obtain ⟨found, hfound⟩ := Option.isSome_iff_exists.1 hfind
      have hrest : (rewriteListed master attrs names vals
          (replaceDefault master found val ctx).2).isSome = true := ih h.2
      obtain ⟨out, hout⟩ := Option.isSome_iff_exists.1 hrest
      simp [rewriteListed, hfound, hout]

theorem isSome_rewriteListed {names : List String} {vals : List Tree}
    (h : ∀ name ∈ names, name ∈ attrs.map TSAttr.attrname) :
    (rewriteListed master attrs names vals ctx).isSome = true :=
  isSome_rewriteListed_take master fun name hname => h name (List.mem_of_mem_take hname)

theorem isSome_rewriteListedRows {cols : List ResTarget} {rows : List (List Tree)}
    (hcols : ∀ col ∈ cols, col.name ∈ attrs.map TSAttr.attrname) :
    (rewriteListedRows master attrs (appendColumns attrs cols)
      ((cols ++ (appendColumns attrs cols).map appendedTarget).map ResTarget.name) rows ctx).isSome =
        decide (rows.length ≤ 1) := by
  have hnames : ∀ name ∈ (cols ++ (appendColumns attrs cols).map appendedTarget).map ResTarget.name,
      name ∈ attrs.map TSAttr.attrname := by
    intro name hname
    simp only [List.map_append, List.mem_append, List.map_map, List.mem_map, Function.comp_apply] at hname
    obtain ⟨col, hcol, rfl⟩ | ⟨attr, hattr, rfl⟩ := hname
    · exact hcols col hcol
    · exact List.mem_map_of_mem (List.mem_of_mem_filter hattr)
  cases rows with
  | nil => rfl
  | cons row rows =>
    cases rows with
    | nil =>
      have hrow : (rewriteListed master attrs
          ((cols ++ (appendColumns attrs cols).map appendedTarget).map ResTarget.name) row ctx).isSome =
            true := isSome_rewriteListed master hnames
      obtain ⟨⟨row', ctx'⟩, hrow⟩ := Option.isSome_iff_exists.1 hrow
      simp only [rewriteListedRows, hrow]
      rfl
    | cons _ _ => simp [rewriteListedRows]

theorem length_valuesLists_walkSource (source : InsertSource) :
    (walkSource source ctx).1.valuesLists.length = source.valuesLists.length := by
  have hrows : ∀ (rows : List (List Tree)) (ctx : Ctx), (walkRows rows ctx).1.length = rows.length := by
    intro rows
    induction rows with
    | nil => exact fun _ => rfl
    | cons row rows ih => exact fun ctx => congrArg Nat.succ (ih _)
  exact hrows _ _

theorem isSome_insert {stmt : InsertStmt} (hattrs : master.relcache stmt.relname = some attrs)
    (hfits : (Dml.insert stmt).FitsTable attrs) :
    (rewriteTimestampInsert master stmt ctx).isSome = (Dml.insert stmt).freedOnce := by
  unfold rewriteTimestampInsert
  cases hselect : stmt.selectStmt with
  | none =>
    simp only [hattrs, Dml.freedOnce, hselect, Option.elim_none, Bool.or_true]
    split <;> rfl
  | some source =>
    have hlen : (walkSource source ctx).1.valuesLists.length = source.valuesLists.length :=
      length_valuesLists_walkSource source
    simp only [hattrs, Dml.freedOnce, hselect, Option.elim_some]
    split
    · next hempty =>
      have hzero : source.valuesLists.length = 0 := by
        rw [← hlen]
        simpa using hempty
      simp [hzero]
    · split
      · next hcols =>
        have hrows : (rewriteRows master attrs (walkSource source ctx).1.valuesLists
            (walkSource source ctx).2).isSome = true := by
          refine isSome_rewriteRows master (length_walkRows (fun n => n ≤ attrs.length) ?_)
          simp only [Dml.FitsTable, hselect, List.isEmpty_iff.1 hcols, if_true] at hfits
          exact hfits
        obtain ⟨out, hout⟩ := Option.isSome_iff_exists.1 hrows
        simp [hout, hcols]
      · next hcols =>
        have hne : stmt.cols ≠ [] := by simpa using hcols
        have hnames : ∀ col ∈ stmt.cols, col.name ∈ attrs.map TSAttr.attrname := by
          simp only [Dml.FitsTable, hselect, hne, if_false] at hfits
          exact hfits.1
        split
        · next hrows =>
          have hnone := congrArg Option.isSome hrows
          rw [isSome_rewriteListedRows master hnames, hlen] at hnone
          simp [hnone, hcols]
        · next hrows =>
          have hsome := congrArg Option.isSome hrows
          rw [isSome_rewriteListedRows master hnames, hlen] at hsome
          simp [hsome]

/-- On a statement for its table `rewrite_timestamp` is undefined only where it frees twice. -/
theorem isSome_rewriteDml {query : Dml} (hattrs : ∀ relname, master.relcache relname = some attrs)
    (hfits : query.FitsTable attrs) : (rewriteDml master ctx query).isSome = query.freedOnce := by
  cases query with
  | insert stmt =>
    rw [← isSome_insert master (hattrs stmt.relname) hfits]
    simp only [rewriteDml]
    cases rewriteTimestampInsert master stmt ctx <;> rfl
  | update stmt => rfl
  | delete stmt => rfl

end Timestamp

end PgPool
