import PgPool.Timestamp.Pass

/-!
# The calls of the clock that are left

The walk rewrites `pg_catalog.now()` and the casts of 'now' wherever it gets, and nothing else: a `now()` as
the grammar builds it has a name of one part.
-/

namespace PgPool

namespace Timestamp

open PgPool.Timestamp.Tree

variable {head : Head} {kids : List Tree} {ctx ctx₁ ctx₂ : Ctx} (master : Master)

/-! ## What a walk does not change -/

/-- Two nodes that are the same to the tests of the node above them. -/
structure SameLook (t u : Tree) : Prop where
  clockType : u.isClockType = t.isClockType
  textCast : u.isTextCast = t.isTextCast
  nowText : u.isNowText = t.isNowText
  now : u.isStringConst "now" = t.isStringConst "now"
  default : u.isDefault = t.isDefault

theorem SameLook.refl (t : Tree) : SameLook t t := ⟨rfl, rfl, rfl, rfl, rfl⟩

/-- The type keeps its name. -/
theorem isSystemType_walker (name : String) (t : Tree) :
    (walker t ctx).1.isSystemType name = t.isSystemType name := by
  induction t using walker_induction with
  | plain head kids hsite =>
    rw [walker_plain hsite]
    rfl
  | now kids =>
    rw [walker_now]
    rfl
  | nowText text type hsite =>
    rw [walker_nowText hsite]
    rfl
  | nowConst type hsite =>
    rw [walker_nowConst hsite]
    rfl

theorem sameLook_walker (t : Tree) : ∀ ctx : Ctx, SameLook t (walker t ctx).1 := by
  induction t using walker_induction with
  | plain head kids hsite ih =>
    intro ctx
    rw [walker_plain hsite]
    cases head with
    | typeCast =>
      cases kids with
      | nil => exact .refl _
      | cons arg rest =>
        cases rest with
        | nil => exact ⟨rfl, rfl, rfl, rfl, rfl⟩
        | cons type rest =>
          cases rest with
          | nil =>
            have harg := (ih arg List.mem_cons_self ctx).now
            exact ⟨rfl, isSystemType_walker "text" type,
              congrArg₂ (· && ·) (isSystemType_walker "text" type) harg, rfl, rfl⟩
          | cons _ _ => exact ⟨rfl, rfl, rfl, rfl, rfl⟩
    | aConst val => cases kids <;> exact ⟨rfl, rfl, rfl, rfl, rfl⟩
    | setToDefault => cases kids <;> exact ⟨rfl, rfl, rfl, rfl, rfl⟩
    | _ => exact ⟨rfl, rfl, rfl, rfl, rfl⟩
  | now kids =>
    intro ctx
    rw [walker_now]
    exact ⟨rfl, rfl, rfl, rfl, rfl⟩
  | nowText text type hsite =>
    intro ctx
    rw [walker_nowText hsite]
    refine ⟨rfl, isSystemType_walker "text" type, ?_, rfl, rfl⟩
    exact congrArg₂ (· && ·) (isSystemType_walker "text" type) rfl
  | nowConst type hsite =>
    intro ctx
    obtain ⟨_, -, hkids, htype⟩ := site_eq_nowConst hsite
    cases hkids
    rw [walker_nowConst hsite]
    have htext : type.isSystemType "text" = false := by
      cases htext : type.isSystemType "text" with
      | false => rfl
      | true =>
        rw [not_isClockType_of_text htext] at htype
        cases htype
    refine ⟨rfl, isSystemType_walker "text" type, ?_, rfl, rfl⟩
    simp [isNowText, isSystemType_walker, htext]

/-- The sub-nodes of a cast look the same after a walk, whichever are visited. -/
theorem site_walkList (visits : Nat → Bool) :
    site head (walkList visits kids ctx).1 = site head kids := by
  have hlook : ∀ (t : Tree) (visit : Bool) (ctx : Ctx),
      SameLook t (if visit then walker t ctx else (t, ctx)).1 := by
    intro t visit ctx
    cases visit with
    | true => exact sameLook_walker t ctx
    | false => exact .refl t
  cases head with
  | typeCast =>
    cases kids with
    | nil => rfl
    | cons arg rest =>
      cases rest with
      | nil => rfl
      | cons type rest =>
        cases rest with
        | nil =>
          have harg := hlook arg (visits 0) ctx
          have htype := hlook type (visits 1) (if visits 0 then walker arg ctx else (arg, ctx)).2
          simp only [walkList, site, harg.textCast, harg.nowText, harg.now, htype.clockType]
        | cons _ _ => rfl
  | _ => rfl

theorem isClock_walkList (visits : Nat → Bool) :
    isClock head (walkList visits kids ctx).1 = isClock head kids := by
  simp only [isClock, site_walkList]

/-! ## What is left -/

/-- What a walk of `t` leaves, and whether it has found something. -/
structure WalkLeaves (t : Tree) : Prop where
  clock : ∀ ctx : Ctx, (walker t ctx).1.hasClock = t.leaves
  rewrite : ∀ ctx : Ctx, (walker t ctx).2.rewrite = (ctx.rewrite || t.finds)
  mode : ∀ ctx : Ctx, (walker t ctx).2.rewriteToParams = ctx.rewriteToParams

theorem anyClock_walkList (visits : Nat → Bool) (ih : ∀ t ∈ kids, WalkLeaves t) :
    anyClock (walkList visits kids ctx).1 = leavesList (fun _ => false) visits kids := by
  induction kids generalizing visits ctx with
  | nil => rfl
  | cons t ts ihts =>
    have hrest := fun u hu => ih u (List.mem_cons_of_mem t hu)
    cases hvisit : visits 0 with
    | true =>
      rw [walkList_cons_visited hvisit]
      simp [anyClock, leavesList, hvisit, (ih t List.mem_cons_self).clock, ihts _ hrest]
    | false =>
      rw [walkList_cons_skipped hvisit]
      simp [anyClock, leavesList, hvisit, ihts _ hrest]

theorem rewrite_walkList (visits : Nat → Bool) (ih : ∀ t ∈ kids, WalkLeaves t) :
    (walkList visits kids ctx).2.rewrite = (ctx.rewrite || findsList visits kids) := by
  induction kids generalizing visits ctx with
  | nil => simp [walkList_nil, findsList]
  | cons t ts ihts =>
    have hrest := fun u hu => ih u (List.mem_cons_of_mem t hu)
    cases hvisit : visits 0 with
    | true =>
      rw [walkList_cons_visited hvisit]
      simp [findsList, hvisit, (ih t List.mem_cons_self).rewrite, ihts _ hrest, Bool.or_assoc]
    | false =>
      rw [walkList_cons_skipped hvisit]
      simp [findsList, hvisit, ihts _ hrest]

theorem mode_walkList (visits : Nat → Bool) (ih : ∀ t ∈ kids, WalkLeaves t) :
    (walkList visits kids ctx).2.rewriteToParams = ctx.rewriteToParams := by
  induction kids generalizing visits ctx with
  | nil => rfl
  | cons t ts ihts =>
    have hrest := fun u hu => ih u (List.mem_cons_of_mem t hu)
    cases hvisit : visits 0 with
    | true =>
      rw [walkList_cons_visited hvisit]
      exact (ihts _ hrest).trans ((ih t List.mem_cons_self).mode ctx)
    | false =>
      rw [walkList_cons_skipped hvisit]
      exact ihts _ hrest

theorem mode_count : (ctx.count head).rewriteToParams = ctx.rewriteToParams := by
  cases head with
  | paramRef number =>
    simp only [Ctx.count]
    split <;> rfl
  | _ => rfl

theorem mode_found : ctx.found.rewriteToParams = ctx.rewriteToParams := by
  unfold Ctx.found Ctx.makeTsExpr
  split <;> rfl

theorem rewrite_count : (ctx.count head).rewrite = ctx.rewrite := by
  cases head with
  | paramRef number =>
    simp only [Ctx.count]
    split <;> rfl
  | _ => rfl

theorem rewrite_found : ctx.found.rewrite = true := rfl

theorem hasClock_makeTsExpr : ctx.makeTsExpr.1.hasClock = false := by
  unfold Ctx.makeTsExpr
  split <;> rfl

theorem makeTsExpr_ne_const (val : Value) : ctx.makeTsExpr.1 ≠ .const val := by
  unfold Ctx.makeTsExpr
  split <;> nofun

theorem hasClock_typeCast {arg type : Tree} (h : site .typeCast [arg, type] ≠ .nowText) :
    (Tree.node .typeCast [arg, type]).hasClock = (arg.hasClock || type.hasClock) := by
  have hnow : site .typeCast [arg, type] ≠ .now := by simp [site_eq_now]
  simp [Tree.hasClock, anyClock, isClock, h, hnow]

theorem leaves_typeCast (arg type : Tree) :
    (Tree.node .typeCast [arg, type]).leaves = (arg.leaves || type.leaves) := by
  have hnow : (site .typeCast [arg, type] == .now) = false := by simp [site_eq_now]
  simp [Tree.leaves, leavesList, hnow, walks_eq_visits, Head.visits]

theorem hasClock_nowArgs {ts : Tree} (h : ts.hasClock = false) : (nowArgs ts).hasClock = false := by
  have hcast : (Tree.cast ts (.systemType "text")).hasClock = (ts.hasClock || false) :=
    hasClock_typeCast
      (by simp [site_typeCast_text (show isSystemType "text" (.systemType "text") = true from rfl)])
  simp [nowArgs, listOf, Tree.hasClock, anyClock, isClock, site, hcast, h]

/-- Only a call of `now` loses its first argument. -/
theorem dropped_of_plain (h : site head kids = .plain) :
    (fun i : Nat => site head kids == .now && i == 0) = fun _ => false := by
  funext i
  rw [h]
  rfl

theorem walkLeaves (t : Tree) : WalkLeaves t := by
  induction t using walker_induction with
  | plain head kids hsite ih =>
    have hnow := not_nowCall_of_plain hsite
    have hdropped := dropped_of_plain hsite
    have hclock : isClock head kids = (head == .funcCall ["now"]) := by
      rw [isClock, hsite]
      show (_ || false || false) = _
      simp only [Bool.or_false]
    constructor
    · intro ctx
      rw [walker_plain hsite, Tree.leaves, hdropped, walks_eq_visits hnow, Tree.hasClock,
        isClock_walkList, anyClock_walkList _ ih, hclock]
    · intro ctx
      rw [walker_plain hsite]
      simp [Tree.finds, rewrite_walkList _ ih, hsite, rewrite_count, walks_eq_visits hnow]
    · intro ctx
      rw [walker_plain hsite]
      exact (mode_walkList _ ih).trans mode_count
  | now kids ih =>
    have hsite : site (.funcCall ["pg_catalog", "now"]) kids = .now := site_eq_now.2 rfl
    have hrest := fun t ht => ih t (List.mem_of_mem_tail ht)
    constructor
    · intro ctx
      have hleaves : (Tree.node (.funcCall ["pg_catalog", "now"]) kids).leaves =
          leavesList (fun _ => false) (fun i => i != 0) kids.tail := by
        cases kids with
        | nil => rfl
        | cons arg rest => simp [Tree.leaves, leavesList, walks, hsite, Head.visits]
      rw [walker_now, hleaves]
      simp [Tree.hasClock, anyClock, isClock, site, hasClock_nowArgs hasClock_makeTsExpr,
        anyClock_walkList _ hrest]
    · intro ctx
      rw [walker_now]
      simp [Tree.finds, hsite, rewrite_walkList _ hrest, rewrite_found]
    · intro ctx
      rw [walker_now]
      exact (mode_walkList _ hrest).trans mode_found
  | nowText text type hsite ihtext ihtype =>
    constructor
    · intro ctx
      obtain ⟨_, _, -, hkids, htext, -⟩ := site_eq_nowText hsite
      cases hkids
      have hinner : ∀ ctx₁ ctx₂ : Ctx,
          site .typeCast [ctx₁.makeTsExpr.1, (walker text ctx₂).1] ≠ .nowText := by
        intro ctx₁ ctx₂
        rw [site_typeCast_text ((isSystemType_walker "text" text).trans htext)]
        simp
      have houter : ∀ u v : Tree, site .typeCast [.node .typeCast [ctx.makeTsExpr.1, u], v] ≠ .nowText := by
        intro u v hnow
        obtain ⟨_, _, -, hkids, -⟩ := site_eq_nowText hnow
        injection hkids with harg
        injection harg with _ harg
        injection harg with harg
        exact makeTsExpr_ne_const _ harg
      rw [walker_nowText hsite, hasClock_typeCast (houter _ _), hasClock_typeCast (hinner _ _),
        leaves_typeCast, leaves_typeCast, ihtext.clock, ihtype.clock, hasClock_makeTsExpr]
      rfl
    · intro ctx
      rw [walker_nowText hsite]
      simp [Tree.finds, hsite, ihtext.rewrite, ihtype.rewrite, rewrite_found]
    · intro ctx
      rw [walker_nowText hsite]
      exact (ihtype.mode _).trans ((ihtext.mode _).trans mode_found)
  | nowConst type hsite ih =>
    constructor
    · intro ctx
      have houter : ∀ v : Tree, site .typeCast [ctx.makeTsExpr.1, v] ≠ .nowText := by
        intro v hnow
        obtain ⟨_, _, -, hkids, -⟩ := site_eq_nowText hnow
        injection hkids with harg
        unfold Ctx.makeTsExpr at harg
        split at harg <;> cases harg
      rw [walker_nowConst hsite, hasClock_typeCast (houter _), leaves_typeCast, ih.clock,
        hasClock_makeTsExpr]
      rfl
    · intro ctx
      rw [walker_nowConst hsite]
      simp [Tree.finds, hsite, ih.rewrite, rewrite_found]
    · intro ctx
      rw [walker_nowConst hsite]
      exact (ih.mode _).trans mode_found

mutual

/-- What is left was there. -/
theorem hasClock_of_leaves : ∀ t : Tree, t.leaves = true → t.hasClock = true
  | .node head kids => by
    intro h
    simp only [Tree.leaves, Bool.or_eq_true] at h
    simp only [Tree.hasClock, Bool.or_eq_true]
    obtain hhead | hkids := h
    · exact Or.inl (by simp [isClock, hhead])
    · exact Or.inr (anyClock_of_leavesList _ _ kids hkids)

theorem anyClock_of_leavesList (dropped visits : Nat → Bool) :
    ∀ ts : List Tree, leavesList dropped visits ts = true → anyClock ts = true
  | [] => nofun
  | t :: ts => by
    intro h
    simp only [leavesList, Bool.or_eq_true, Bool.and_eq_true] at h
    simp only [anyClock, Bool.or_eq_true]
    obtain ⟨-, hfirst⟩ | hrest := h
    · refine Or.inl ?_
      split at hfirst
      · exact hasClock_of_leaves t hfirst
      · exact hfirst
    · exact Or.inr (anyClock_of_leavesList _ _ ts hrest)

end

mutual

/-- A call of the clock is left or found. -/
theorem leaves_or_finds : ∀ t : Tree, t.hasClock = true → t.leaves = true ∨ t.finds = true
  | .node head kids => by
    intro h
    simp only [Tree.leaves, Tree.finds, Bool.or_eq_true, bne_iff_ne]
    by_cases hsite : site head kids = .plain
    · have hnow := not_nowCall_of_plain hsite
      have hdropped := dropped_of_plain hsite
      simp only [Tree.hasClock, isClock, Bool.or_eq_true, beq_iff_eq, hsite, or_false,
        reduceCtorEq] at h
      rw [hdropped, walks_eq_visits hnow]
      obtain hhead | hkids := h
      · exact Or.inl (Or.inl (by simpa using hhead))
      · obtain hleaves | hfinds := leavesList_or_findsList head.visits kids hkids
        · exact Or.inl (Or.inr hleaves)
        · exact Or.inr (Or.inr hfinds)
    · exact Or.inr (Or.inl hsite)

theorem leavesList_or_findsList (visits : Nat → Bool) :
    ∀ ts : List Tree, anyClock ts = true →
      leavesList (fun _ => false) visits ts = true ∨ findsList visits ts = true
  | [] => nofun
  | t :: ts => by
    intro h
    simp only [anyClock, Bool.or_eq_true] at h
    simp only [leavesList, findsList, Bool.or_eq_true, Bool.and_eq_true, Bool.not_false, true_and]
    obtain hfirst | hrest := h
    · cases hvisit : visits 0 with
      | true =>
        obtain hleaves | hfinds := leaves_or_finds t hfirst
        · exact Or.inl (Or.inl hleaves)
        · exact Or.inr (Or.inl ⟨rfl, hfinds⟩)
      | false => exact Or.inl (Or.inl hfirst)
    · obtain hleaves | hfinds := leavesList_or_findsList (fun i => visits (i + 1)) ts hrest
      · exact Or.inl (Or.inr hleaves)
      · exact Or.inr (Or.inr hfinds)

end

/-! ## The parts of a statement -/

/-- The root of a list that is walked is the list. -/
def itemsLeave (ts : List Tree) : Bool := leavesList (fun _ => false) (fun _ => true) ts
def itemsFind (ts : List Tree) : Bool := findsList (fun _ => true) ts

/-- The root is left as it is. -/
def belowLeaves (t : Tree) : Bool :=
  isClock t.head t.kids || leavesList (fun _ => false) t.head.visits t.kids
def belowFinds (t : Tree) : Bool := findsList t.head.visits t.kids

def ResTarget.leaves (res : ResTarget) : Bool := itemsLeave res.indirection || res.val.leaves
def ResTarget.finds (res : ResTarget) : Bool := itemsFind res.indirection || res.val.finds

def InsertSource.leaves (source : InsertSource) : Bool :=
  itemsLeave source.front || (source.valuesLists.any itemsLeave || itemsLeave source.back)
def InsertSource.finds (source : InsertSource) : Bool :=
  itemsFind source.front || (source.valuesLists.any itemsFind || itemsFind source.back)

/-- A call of the clock is left: one that is not found, or one in a clause that is not walked. -/
def Dml.leaves : Dml → Bool
  | .insert stmt => anyClock (stmt.cols.flatMap ResTarget.trees) ||
      (stmt.selectStmt.elim false InsertSource.leaves || anyClock stmt.returningList)
  | .update stmt => stmt.targetList.any ResTarget.leaves || (belowLeaves stmt.whereClause ||
      (itemsLeave stmt.fromClause || anyClock stmt.returningList))
  | .delete stmt => itemsLeave stmt.usingClause || (belowLeaves stmt.whereClause ||
      anyClock stmt.returningList)

def Dml.finds : Dml → Bool
  | .insert stmt => stmt.selectStmt.elim false InsertSource.finds
  | .update stmt => stmt.targetList.any ResTarget.finds || (belowFinds stmt.whereClause ||
      itemsFind stmt.fromClause)
  | .delete stmt => itemsFind stmt.usingClause || belowFinds stmt.whereClause

theorem anyClock_append (ts us : List Tree) : anyClock (ts ++ us) = (anyClock ts || anyClock us) := by
  induction ts with
  | nil => rfl
  | cons t ts ih => simp [anyClock, ih, Bool.or_assoc]

theorem anyClock_walkItems (ts : List Tree) : anyClock (walkItems ts ctx).1 = itemsLeave ts :=
  anyClock_walkList _ fun t _ => walkLeaves t

theorem rewrite_walkItems (ts : List Tree) :
    (walkItems ts ctx).2.rewrite = (ctx.rewrite || itemsFind ts) :=
  rewrite_walkList _ fun t _ => walkLeaves t

theorem mode_walkItems (ts : List Tree) :
    (walkItems ts ctx).2.rewriteToParams = ctx.rewriteToParams :=
  mode_walkList _ fun t _ => walkLeaves t

theorem mode_walkBelow (t : Tree) : (walkBelow t ctx).2.rewriteToParams = ctx.rewriteToParams :=
  mode_walkList _ fun t _ => walkLeaves t

theorem hasClock_walkBelow (t : Tree) : (walkBelow t ctx).1.hasClock = belowLeaves t := by
  obtain ⟨head, kids⟩ := t
  simp only [walkBelow, Tree.hasClock, isClock_walkList, anyClock_walkList _ fun t _ => walkLeaves t]
  rfl

theorem rewrite_walkBelow (t : Tree) :
    (walkBelow t ctx).2.rewrite = (ctx.rewrite || belowFinds t) :=
  rewrite_walkList _ fun t _ => walkLeaves t

theorem anyClock_walkTargets (targets : List ResTarget) :
    anyClock ((walkTargets targets ctx).1.flatMap ResTarget.trees) = targets.any ResTarget.leaves := by
  induction targets generalizing ctx with
  | nil => rfl
  | cons res rest ih =>
    simp [walkTargets, ResTarget.trees, ResTarget.leaves, anyClock_append, anyClock,
      anyClock_walkItems, (walkLeaves res.val).clock, ih, Bool.or_assoc]

theorem rewrite_walkTargets (targets : List ResTarget) :
    (walkTargets targets ctx).2.rewrite = (ctx.rewrite || targets.any ResTarget.finds) := by
  induction targets generalizing ctx with
  | nil => simp [walkTargets]
  | cons res rest ih =>
    simp [walkTargets, ResTarget.finds, rewrite_walkItems, (walkLeaves res.val).rewrite, ih,
      Bool.or_assoc]

theorem mode_walkTargets (targets : List ResTarget) :
    (walkTargets targets ctx).2.rewriteToParams = ctx.rewriteToParams := by
  induction targets generalizing ctx with
  | nil => rfl
  | cons res rest ih => exact ih.trans (((walkLeaves res.val).mode _).trans (mode_walkItems _))

theorem mode_walkRows (rows : List (List Tree)) :
    (walkRows rows ctx).2.rewriteToParams = ctx.rewriteToParams := by
  induction rows generalizing ctx with
  | nil => rfl
  | cons row rest ih => exact ih.trans (mode_walkItems row)

theorem mode_walkSource (source : InsertSource) :
    (walkSource source ctx).2.rewriteToParams = ctx.rewriteToParams :=
  (mode_walkItems source.back).trans ((mode_walkRows _).trans (mode_walkItems source.front))

theorem anyClock_walkRows (rows : List (List Tree)) :
    anyClock (walkRows rows ctx).1.flatten = rows.any itemsLeave := by
  induction rows generalizing ctx with
  | nil => rfl
  | cons row rest ih => simp [walkRows, anyClock_append, anyClock_walkItems, ih]

theorem rewrite_walkRows (rows : List (List Tree)) :
    (walkRows rows ctx).2.rewrite = (ctx.rewrite || rows.any itemsFind) := by
  induction rows generalizing ctx with
  | nil => simp [walkRows]
  | cons row rest ih => simp [walkRows, rewrite_walkItems, ih, Bool.or_assoc]

theorem anyClock_walkSource (source : InsertSource) :
    anyClock (walkSource source ctx).1.trees = source.leaves := by
  simp [walkSource, InsertSource.trees, InsertSource.leaves, anyClock_append, anyClock_walkItems,
    anyClock_walkRows]

theorem rewrite_walkSource (source : InsertSource) :
    (walkSource source ctx).2.rewrite = (ctx.rewrite || source.finds) := by
  simp [walkSource, InsertSource.finds, rewrite_walkItems, rewrite_walkRows, Bool.or_assoc]

/-! ## Defaults -/

/-- A pass that puts no call of the clock in, and does not forget that there is something to rewrite. -/
structure Keeps (ctx ctx' : Ctx) (old new : List Tree) : Prop where
  clock : anyClock new = anyClock old
  rewrite : ctx.rewrite = true → ctx'.rewrite = true
  mode : ctx'.rewriteToParams = ctx.rewriteToParams

theorem Keeps.refl (ts : List Tree) : Keeps ctx ctx ts ts := ⟨rfl, id, rfl⟩

theorem Keeps.append {old old' new new' : List Tree} (hfirst : Keeps ctx ctx₁ old new)
    (hsecond : Keeps ctx₁ ctx₂ old' new') : Keeps ctx ctx₂ (old ++ old') (new ++ new') where
  clock := by rw [anyClock_append, anyClock_append, hfirst.clock, hsecond.clock]
  rewrite h := hsecond.rewrite (hfirst.rewrite h)
  mode := hsecond.mode.trans hfirst.mode

theorem hasClock_of_isDefault {t : Tree} (h : t.isDefault = true) : t.hasClock = false := by
  unfold isDefault at h
  split at h
  · rfl
  · cases h

theorem hasClock_makeDefault (attr : TSAttr) : (makeDefault master attr ctx).1.hasClock = false := by
  unfold makeDefault
  split
  · exact hasClock_makeTsExpr
  · show (makeStringConstFromQuery master attr.adsrc).hasClock = false
    unfold makeStringConstFromQuery
    split <;> rfl

theorem rewrite_makeDefault (attr : TSAttr) :
    (makeDefault master attr ctx).2.rewrite = ctx.rewrite := by
  unfold makeDefault
  split
  · unfold Ctx.makeTsExpr
    split <;> rfl
  · rfl

theorem mode_makeDefault (attr : TSAttr) :
    (makeDefault master attr ctx).2.rewriteToParams = ctx.rewriteToParams := by
  unfold makeDefault
  split
  · unfold Ctx.makeTsExpr
    split <;> rfl
  · rfl

/-- The loops over rows and columns. -/
theorem pass_keeps : Pass master Keeps where
  refl _ ts := .refl ts
  append := .append
  default _ := ⟨rfl, id, rfl⟩
  made ctx attr :=
    ⟨by simp [anyClock, hasClock_makeDefault], by simp [rewrite_makeDefault], mode_makeDefault master attr⟩
  filled ctx attr :=
    ⟨by simp [anyClock, hasClock_makeDefault], fun _ => rfl, mode_makeDefault master attr⟩
  replaced ctx attr val hdefault :=
    ⟨by simp [anyClock, hasClock_makeDefault, hasClock_of_isDefault hdefault], fun _ => rfl,
      mode_makeDefault master attr⟩

/-! ## The statements -/

theorem anyClock_appendedTargets (attrs : List TSAttr) :
    anyClock ((attrs.map appendedTarget).flatMap ResTarget.trees) = false := by
  induction attrs with
  | nil => rfl
  | cons attr attrs ih => simpa [ResTarget.trees, appendedTarget, anyClock, Tree.null, Tree.hasClock,
      isClock, site] using ih

theorem anyClock_replace (stmt : InsertStmt) (source : InsertSource) (appended : List TSAttr) :
    anyClock (stmt.replace source appended).trees =
      (anyClock (stmt.cols.flatMap ResTarget.trees) ||
        (anyClock source.trees || anyClock stmt.returningList)) := by
  simp [InsertStmt.replace, InsertStmt.trees, anyClock_append, anyClock_appendedTargets]

/-- With other rows there are as many calls of the clock. -/
theorem anyClock_rows {source : InsertSource} {rows : List (List Tree)}
    (h : Keeps ctx ctx₁ source.valuesLists.flatten rows.flatten) :
    anyClock { source with valuesLists := rows }.trees = anyClock source.trees := by
  simp [InsertSource.trees, anyClock_append, h.clock]

theorem anyClock_insert {stmt stmt' : InsertStmt} {rewrite : Bool}
    (h : rewriteTimestampInsert master stmt ctx = some (stmt', ctx₁, rewrite))
    (hrewrite : rewrite = true) : anyClock stmt'.trees = (Dml.insert stmt).leaves := by
  obtain ⟨hctx, ⟨attrs, hselect, -, -, hvalues⟩ | ⟨source, hselect, hsource⟩⟩ := insert_cases h hrewrite
  · rw [hvalues hctx]
    have hfill := (show Keeps ctx _ [] _ from (pass_keeps master).fillColumns attrs).clock
    simp [anyClock_replace, Dml.leaves, hselect, InsertSource.trees, hfill, anyClock]
  · have hleaves : (Dml.insert stmt).leaves = (anyClock (stmt.cols.flatMap ResTarget.trees) ||
        (source.leaves || anyClock stmt.returningList)) := by
      simp [Dml.leaves, hselect]
    rw [hleaves, ← show anyClock (walkSource source ctx).1.trees = _ from anyClock_walkSource source]
    obtain ⟨-, -, rfl⟩ | ⟨attrs, rows, -, -, hrows, rfl⟩ | ⟨attrs, rows, -, -, -, hrows, rfl⟩ := hsource
    · rw [anyClock_replace]
    · rw [anyClock_replace, anyClock_rows ((pass_keeps master).rewriteRows hrows)]
    · rw [anyClock_replace, anyClock_rows ((pass_keeps master).rewriteListedRows hrows)]

/-- The columns of the table are known where they have to be. -/
def Dml.known : Dml → Bool
  | .insert stmt => stmt.selectStmt.elim true fun source =>
      source.valuesLists.isEmpty || (master.relcache stmt.relname).isSome
  | .update stmt => !stmt.targetList.any (fun res => res.val.isDefault) ||
      (master.relcache stmt.relname).isSome
  | .delete _ => true

theorem valuesLists_walkSource (source : InsertSource) :
    (walkSource source ctx).1.valuesLists.isEmpty = source.valuesLists.isEmpty := by
  cases hvalues : source.valuesLists <;> simp [walkSource, walkRows, hvalues]

theorem rewrite_insert {stmt stmt' : InsertStmt} {rewrite : Bool}
    (h : rewriteTimestampInsert master stmt ctx = some (stmt', ctx₁, rewrite))
    (hfinds : (Dml.insert stmt).finds = true) (hknown : (Dml.insert stmt).known master = true) :
    rewrite = true := by
  unfold rewriteTimestampInsert at h
  cases hselect : stmt.selectStmt with
  | none => simp [Dml.finds, hselect] at hfinds
  | some source =>
    have hwalk : (walkSource source ctx).2.rewrite = true := by
      have hsource : source.finds = true := by simpa [Dml.finds, hselect] using hfinds
      simp [rewrite_walkSource, hsource]
    simp only [hselect] at h
    split at h
    · cases h
      exact hwalk
    · next hvalues =>
      split at h
      · next hnone =>
        rw [valuesLists_walkSource] at hvalues
        simp [Dml.known, hselect, hnone, hvalues] at hknown
      · next attrs _ =>
        split at h
        · split at h
          · cases h
          · next rows _ hrows =>
            cases h
            exact ((pass_keeps master).rewriteRows hrows).rewrite hwalk
        · split at h
          · cases h
          · next rows _ hrows =>
            cases h
            refine ((pass_keeps master).rewriteListedRows hrows).rewrite ?_
            split
            · exact hwalk
            · rfl

/-- An UPDATE with its clauses walked. -/
theorem anyClock_update {stmt stmt' : UpdateStmt} {rewrite : Bool}
    (h : rewriteTimestampUpdate master stmt ctx = (stmt', ctx₁, rewrite)) (hrewrite : rewrite = true) :
    anyClock stmt'.trees = (Dml.update stmt).leaves := by
  unfold rewriteTimestampUpdate at h
  simp only at h
  split at h
  · cases h
    cases hrewrite
  · next targets _ hsets =>
    cases h
    have hset := ((pass_keeps master).rewriteSets hsets).clock
    rw [anyClock_walkTargets] at hset
    simp [UpdateStmt.trees, Dml.leaves, anyClock_append, anyClock, hset, hasClock_walkBelow,
      anyClock_walkItems]

theorem default_walkTargets (targets : List ResTarget) :
    ((walkTargets targets ctx).1.any fun res => res.val.isDefault) =
      targets.any fun res => res.val.isDefault := by
  induction targets generalizing ctx with
  | nil => rfl
  | cons res rest ih => simp [walkTargets, ih, (sameLook_walker res.val _).default]

/-- The columns have to be known only for a DEFAULT. -/
theorem rewriteSets_ne_none {relcache : Option (List TSAttr)} {targets : List ResTarget}
    (h : relcache.isSome = true ∨ (targets.any fun res => res.val.isDefault) = false) :
    rewriteSets master relcache targets ctx ≠ none := by
  induction targets generalizing ctx with
  | nil => nofun
  | cons res rest ih =>
    have hrest : relcache.isSome = true ∨ (rest.any fun res => res.val.isDefault) = false := by
      refine h.imp_right ?_
      intro hall
      simp only [List.any_cons, Bool.or_eq_false_iff] at hall
      exact hall.2
    intro hnone
    simp only [rewriteSets] at hnone
    split at hnone
    · next hdefault =>
      split at hnone
      · simp [hdefault] at h
      · split at hnone
        · exact ih hrest ‹_›
        · cases hnone
    · split at hnone
      · exact ih hrest ‹_›
      · cases hnone

theorem rewrite_update {stmt stmt' : UpdateStmt} {rewrite : Bool}
    (h : rewriteTimestampUpdate master stmt ctx = (stmt', ctx₁, rewrite))
    (hfinds : (Dml.update stmt).finds = true) (hknown : (Dml.update stmt).known master = true) :
    rewrite = true := by
  unfold rewriteTimestampUpdate at h
  simp only at h
  split at h
  · next hnone =>
    refine absurd hnone (rewriteSets_ne_none master ?_)
    rw [default_walkTargets]
    simp only [Dml.known, Bool.or_eq_true, Bool.not_eq_true'] at hknown
    exact hknown.symm
  · next targets _ hsets =>
    cases h
    refine ((pass_keeps master).rewriteSets hsets).rewrite ?_
    rw [rewrite_walkItems, rewrite_walkBelow, rewrite_walkTargets]
    simpa [Dml.finds, Bool.or_assoc] using Or.inr hfinds

/-- Something has been rewritten only where the columns are known. -/
theorem known_insert {stmt stmt' : InsertStmt} {rewrite : Bool}
    (h : rewriteTimestampInsert master stmt ctx = some (stmt', ctx₁, rewrite))
    (hrewrite : rewrite = true) :
    (Dml.insert stmt).known master = true ∧ ctx₁.rewriteToParams = ctx.rewriteToParams := by
  obtain ⟨-, ⟨attrs, hselect, -, rfl, -⟩ | ⟨source, hselect, hsource⟩⟩ := insert_cases h hrewrite
  · have hfill := (show Keeps ctx _ [] _ from (pass_keeps master).fillColumns attrs).mode
    exact ⟨by simp [Dml.known, hselect], hfill⟩
  · have hwalk : (walkSource source ctx).2.rewriteToParams = ctx.rewriteToParams := mode_walkSource source
    constructor
    · unfold rewriteTimestampInsert at h
      simp only [hselect, valuesLists_walkSource] at h
      split at h
      · next hvalues => simp [Dml.known, hselect, hvalues]
      · split at h
        · cases h
          cases hrewrite
        · next hattrs => simp [Dml.known, hselect, hattrs]
    · obtain ⟨-, rfl, -⟩ | ⟨attrs, rows, -, -, hrows, -⟩ | ⟨attrs, rows, -, -, -, hrows, -⟩ := hsource
      · exact hwalk
      · exact ((pass_keeps master).rewriteRows hrows).mode.trans hwalk
      · have hrows := ((pass_keeps master).rewriteListedRows hrows).mode
        split at hrows <;> exact hrows.trans hwalk

theorem known_of_rewriteSets {relcache : Option (List TSAttr)} {targets : List ResTarget}
    (h : rewriteSets master relcache targets ctx ≠ none) :
    (targets.any fun res => res.val.isDefault) = false ∨ relcache.isSome = true := by
  cases relcache with
  | some attrs => exact Or.inr rfl
  | none =>
    refine Or.inl ?_
    induction targets generalizing ctx with
    | nil => rfl
    | cons res rest ih =>
      cases hdefault : res.val.isDefault with
      | true => simp [rewriteSets, hdefault] at h
      | false =>
        have hrest : rewriteSets master none rest ctx ≠ none := by
          intro hnone
          simp [rewriteSets, hdefault, hnone] at h
        simp [hdefault, ih hrest]

theorem known_update {stmt stmt' : UpdateStmt} {rewrite : Bool}
    (h : rewriteTimestampUpdate master stmt ctx = (stmt', ctx₁, rewrite)) (hrewrite : rewrite = true) :
    (Dml.update stmt).known master = true ∧ ctx₁.rewriteToParams = ctx.rewriteToParams := by
  unfold rewriteTimestampUpdate at h
  simp only at h
  split at h
  · cases h
    cases hrewrite
  · next targets _ hsets =>
    cases h
    constructor
    · have hknown := known_of_rewriteSets master (ne_of_eq_of_ne hsets nofun)
      rw [default_walkTargets] at hknown
      simpa [Dml.known] using hknown
    · refine ((pass_keeps master).rewriteSets hsets).mode.trans ?_
      rw [mode_walkItems, mode_walkBelow, mode_walkTargets]

theorem known_rewriteDml {query query' : Dml}
    (h : rewriteDml master ctx query = some (query', ctx₁, true)) :
    query.known master = true ∧ ctx₁.rewriteToParams = ctx.rewriteToParams := by
  obtain ⟨stmt, stmt', rfl, rfl, hinsert⟩ | ⟨stmt, stmt', rfl, rfl, hupdate⟩ |
    ⟨stmt, stmt', rfl, rfl, hdelete⟩ := rewriteDml_cases h
  · exact known_insert master hinsert rfl
  · exact known_update master hupdate rfl
  · simp only [rewriteTimestampDelete, Prod.mk.injEq] at hdelete
    obtain ⟨-, rfl, -⟩ := hdelete
    exact ⟨rfl, (mode_walkBelow _).trans (mode_walkItems _)⟩

theorem anyClock_rewriteDml {query query' : Dml}
    (h : rewriteDml master ctx query = some (query', ctx₁, true)) :
    anyClock query'.trees = query.leaves := by
  obtain ⟨stmt, stmt', rfl, rfl, hinsert⟩ | ⟨stmt, stmt', rfl, rfl, hupdate⟩ |
    ⟨stmt, stmt', rfl, rfl, hdelete⟩ := rewriteDml_cases h
  · exact anyClock_insert master hinsert rfl
  · exact anyClock_update master hupdate rfl
  · simp only [rewriteTimestampDelete, Prod.mk.injEq] at hdelete
    obtain ⟨rfl, -⟩ := hdelete
    simp [Dml.trees, DeleteStmt.trees, Dml.leaves, anyClock_append, anyClock, hasClock_walkBelow,
      anyClock_walkItems]

theorem rewrite_rewriteDml {query query' : Dml} {rewrite : Bool}
    (h : rewriteDml master ctx query = some (query', ctx₁, rewrite)) (hfinds : query.finds = true)
    (hknown : query.known master = true) : rewrite = true := by
  obtain ⟨stmt, stmt', rfl, rfl, hinsert⟩ | ⟨stmt, stmt', rfl, rfl, hupdate⟩ |
    ⟨stmt, stmt', rfl, rfl, hdelete⟩ := rewriteDml_cases h
  · exact rewrite_insert master hinsert hfinds hknown
  · exact rewrite_update master hupdate hfinds hknown
  · simp only [rewriteTimestampDelete, Prod.mk.injEq] at hdelete
    obtain ⟨-, -, rfl⟩ := hdelete
    rw [rewrite_walkBelow, rewrite_walkItems]
    simpa [Dml.finds, Bool.or_assoc] using Or.inr hfinds

/-! ### Left or found -/

theorem anyClock_flatMap {α : Type} (f : α → List Tree) (xs : List α) :
    anyClock (xs.flatMap f) = xs.any fun x => anyClock (f x) := by
  induction xs with
  | nil => rfl
  | cons x xs ih => simp [anyClock_append, ih]

theorem anyClock_flatten (rows : List (List Tree)) : anyClock rows.flatten = rows.any anyClock := by
  rw [← List.flatMap_id', anyClock_flatMap]

/-- A part of a statement: calls of the clock are left or found, and what is left was there. -/
structure Splits (clock leaves finds : Bool) : Prop where
  split : clock = true → leaves = true ∨ finds = true
  left : leaves = true → clock = true

theorem Splits.or {clock clock' leaves leaves' finds finds' : Bool} (h : Splits clock leaves finds)
    (h' : Splits clock' leaves' finds') :
    Splits (clock || clock') (leaves || leaves') (finds || finds') where
  split hclock := by
    simp only [Bool.or_eq_true] at hclock ⊢
    obtain hclock | hclock := hclock
    · exact (h.split hclock).imp Or.inl Or.inl
    · exact (h'.split hclock).imp Or.inr Or.inr
  left hleaves := by
    simp only [Bool.or_eq_true] at hleaves ⊢
    exact hleaves.imp h.left h'.left

/-- A clause that is not walked. -/
theorem Splits.unwalked (clock : Bool) : Splits clock clock false := ⟨Or.inl, id⟩

theorem Splits.any {α : Type} {clock leaves finds : α → Bool} {xs : List α}
    (h : ∀ x, Splits (clock x) (leaves x) (finds x)) :
    Splits (xs.any clock) (xs.any leaves) (xs.any finds) := by
  induction xs with
  | nil => exact .unwalked false
  | cons x xs ih => exact (h x).or ih

theorem splits_tree (t : Tree) : Splits t.hasClock t.leaves t.finds :=
  ⟨leaves_or_finds t, hasClock_of_leaves t⟩

theorem splits_items (ts : List Tree) : Splits (anyClock ts) (itemsLeave ts) (itemsFind ts) :=
  ⟨leavesList_or_findsList _ ts, anyClock_of_leavesList _ _ ts⟩

theorem splits_below (t : Tree) : Splits t.hasClock (belowLeaves t) (belowFinds t) := by
  obtain ⟨head, kids⟩ := t
  have hkids : Splits (anyClock kids) (leavesList (fun _ => false) head.visits kids)
      (findsList head.visits kids) :=
    ⟨leavesList_or_findsList _ kids, anyClock_of_leavesList _ _ kids⟩
  exact (Splits.unwalked (isClock head kids)).or hkids

theorem splits_target (res : ResTarget) : Splits (anyClock res.trees) res.leaves res.finds := by
  have hval : anyClock res.trees = (anyClock res.indirection || res.val.hasClock) := by
    simp [ResTarget.trees, anyClock_append, anyClock]
  rw [hval]
  exact (splits_items res.indirection).or (splits_tree res.val)

theorem splits_source (source : InsertSource) :
    Splits (anyClock source.trees) source.leaves source.finds := by
  rw [InsertSource.trees, List.append_assoc, anyClock_append, anyClock_append, anyClock_flatten]
  exact (splits_items _).or ((Splits.any splits_items).or (splits_items _))

theorem splits_dml (query : Dml) : Splits (anyClock query.trees) query.leaves query.finds := by
  cases query with
  | insert stmt =>
    have hcols := Splits.unwalked (anyClock (stmt.cols.flatMap ResTarget.trees))
    have hreturning := Splits.unwalked (anyClock stmt.returningList)
    simp only [Dml.trees, InsertStmt.trees, Dml.leaves, Dml.finds, anyClock_append]
    cases stmt.selectStmt with
    | none => simpa [anyClock] using hcols.or ((Splits.unwalked false).or hreturning)
    | some source => simpa using hcols.or ((splits_source source).or hreturning)
  | update stmt =>
    have hreturning := Splits.unwalked (anyClock stmt.returningList)
    simp only [Dml.trees, UpdateStmt.trees, Dml.leaves, Dml.finds, anyClock_append, anyClock_flatMap]
    simpa [anyClock] using (Splits.any splits_target).or ((splits_below stmt.whereClause).or
      ((splits_items stmt.fromClause).or hreturning))
  | delete stmt =>
    have hreturning := Splits.unwalked (anyClock stmt.returningList)
    simp only [Dml.trees, DeleteStmt.trees, Dml.leaves, Dml.finds, anyClock_append]
    simpa [anyClock] using (splits_items stmt.usingClause).or
      ((splits_below stmt.whereClause).or hreturning)

/-! ## What is sent -/

def Stmt.hasClock (stmt : Stmt) : Bool := anyClock stmt.trees

/-- A call of the clock is left. -/
def Stmt.leaves : Stmt → Bool
  | .dml query => query.leaves
  | .prepare _ argtypes query => anyClock argtypes || query.leaves
  | .execute _ params => itemsLeave params
  | .other => false

/-- The master answers what it is asked: the columns of the table, and the time unless the calls become
parameters. -/
def Stmt.answered (rewriteToParams : Bool) (message : Option Nat) : Stmt → Bool
  | .dml query => query.known master &&
      (rewriteToParams && message.isSome || master.currentTimestamp.isSome)
  | .prepare _ _ query => query.known master && (message.isSome || master.currentTimestamp.isSome)
  | .execute _ _ => rewriteToParams && message.isSome || master.currentTimestamp.isSome
  | .other => true

/-- What goes to the nodes: the text that is returned, or the statement as it is. -/
def sent (stmt : Stmt) (returned : Option Rewritten) : Stmt :=
  returned.elim stmt Rewritten.stmt

def Stmt.finds : Stmt → Bool
  | .dml query | .prepare _ _ query => query.finds
  | .execute _ params => itemsFind params
  | .other => false

theorem splits_stmt (stmt : Stmt) : Splits stmt.hasClock stmt.leaves stmt.finds := by
  cases stmt with
  | dml query => exact splits_dml query
  | prepare name argtypes query =>
    rw [Stmt.hasClock, Stmt.trees, anyClock_append]
    simpa [Stmt.finds, Stmt.leaves] using (Splits.unwalked (anyClock argtypes)).or (splits_dml query)
  | execute name params => exact splits_items params
  | other => exact .unwalked false

theorem anyClock_replicate {t : Tree} (n : Nat) (h : t.hasClock = false) :
    anyClock (List.replicate n t) = false := by
  induction n with
  | zero => rfl
  | succ n ih => simp [List.replicate_succ, anyClock, h, ih]

theorem hasClock_systemType (name : String) : (Tree.systemType name).hasClock = false := by
  simp [systemType, listOf, Tree.hasClock, anyClock, isClock, site]

theorem hasClock_finish {message : Option Nat} {stmt : Stmt} {r : Rewritten}
    (h : finish master message ctx stmt = some r) : r.stmt.hasClock = stmt.hasClock := by
  unfold finish at h
  split at h
  · cases h
    cases stmt with
    | prepare name argtypes query =>
      simp [Stmt.hasClock, Stmt.trees, anyClock_append,
        anyClock_replicate _ (hasClock_systemType "timestamptz")]
    | _ => rfl
  · split at h
    · cases h
    · cases h
      rfl

theorem isSome_finish (message : Option Nat) (stmt : Stmt) :
    (finish master message ctx stmt).isSome =
      (ctx.rewriteToParams && message.isSome || master.currentTimestamp.isSome) := by
  cases hmode : ctx.rewriteToParams <;> cases message <;>
    cases hclock : master.currentTimestamp <;> simp [finish, hmode, hclock]

/-- A statement in which something is found is rewritten if the master answers, and no statement is
rewritten if it does not. -/
theorem returned_iff {toParams : Bool} {message : Option Nat} {stmt : Stmt} {out : Option Rewritten}
    (h : rewriteTimestamp master toParams message stmt = some out) :
    (stmt.finds = true → stmt.answered master toParams message = true → out.isSome = true) ∧
      (out.isSome = true → stmt.answered master toParams message = true) := by
  have hdml : ∀ {mode query query' rewrite ctx stmt'},
      rewriteDml master (.init mode) query = some (query', ctx, rewrite) →
      out = (if rewrite then finish master message ctx stmt' else none) →
      (query.finds = true → (query.known master &&
          (mode && message.isSome || master.currentTimestamp.isSome)) = true → out.isSome = true) ∧
        (out.isSome = true → (query.known master &&
          (mode && message.isSome || master.currentTimestamp.isSome)) = true) := by
    intro mode query query' rewrite ctx stmt' hrewrite hout
    have hmode : rewrite = true → query.known master = true ∧ ctx.rewriteToParams = mode := by
      intro htrue
      rw [htrue] at hrewrite
      exact known_rewriteDml master hrewrite
    subst hout
    constructor
    · intro hfinds hanswered
      rw [Bool.and_eq_true] at hanswered
      have htrue := rewrite_rewriteDml master hrewrite hfinds hanswered.1
      rw [if_pos htrue, isSome_finish, (hmode htrue).2]
      exact hanswered.2
    · intro hreturned
      split at hreturned
      · next htrue =>
        rw [isSome_finish, (hmode htrue).2] at hreturned
        rw [(hmode htrue).1, hreturned]
        rfl
      · cases hreturned
  cases stmt with
  | dml query =>
    obtain ⟨query', ctx, rewrite, hrewrite, hout⟩ := rewriteTimestamp_dml h
    exact hdml hrewrite hout
  | prepare name argtypes query =>
    obtain ⟨query', ctx, rewrite, hrewrite, hout⟩ := rewriteTimestamp_prepare h
    simpa [Stmt.answered, Stmt.finds] using hdml hrewrite hout
  | execute name params =>
    simp only [rewriteTimestamp, Option.some.injEq] at h
    subst h
    constructor
    · intro hfinds hanswered
      have hrewrite : (walkItems params (.init toParams)).2.rewrite = true := by
        rw [rewrite_walkItems]
        exact hfinds
      rw [hrewrite, Bool.true_or, if_pos rfl, isSome_finish, mode_walkItems]
      exact hanswered
    · intro hreturned
      split at hreturned
      · rwa [isSome_finish, mode_walkItems] at hreturned
      · cases hreturned
  | other =>
    cases h
    exact ⟨fun h => absurd h Bool.false_ne_true, fun h => absurd h Bool.false_ne_true⟩

/-- The text that is returned has the calls of the clock that are left. -/
theorem hasClock_returned {toParams : Bool} {message : Option Nat} {stmt : Stmt} {r : Rewritten}
    (h : rewriteTimestamp master toParams message stmt = some (some r)) :
    r.stmt.hasClock = stmt.leaves := by
  cases stmt with
  | dml query =>
    obtain ⟨query', ctx, rewrite, hrewrite, hout⟩ := rewriteTimestamp_dml h
    obtain ⟨rfl, hfinish⟩ := Option.ite_none_right_eq_some.mp hout.symm
    rw [hasClock_finish master hfinish]
    exact anyClock_rewriteDml master hrewrite
  | prepare name argtypes query =>
    obtain ⟨query', ctx, rewrite, hrewrite, hout⟩ := rewriteTimestamp_prepare h
    obtain ⟨rfl, hfinish⟩ := Option.ite_none_right_eq_some.mp hout.symm
    rw [hasClock_finish master hfinish]
    simp [Stmt.hasClock, Stmt.trees, Stmt.leaves, anyClock_append,
      anyClock_rewriteDml master hrewrite]
  | execute name params =>
    simp only [rewriteTimestamp] at h
    split at h
    · rw [hasClock_finish master (Option.some.inj h)]
      simp [Stmt.hasClock, Stmt.trees, Stmt.leaves, anyClock_append, anyClock_walkItems,
        anyClock_replicate _ (show (Tree.node .tsConst []).hasClock = false from rfl)]
    · cases h
  | other => cases h

/-- No call of the clock is sent just when there is none, or none is left and the master answers. -/
theorem noClock_sent_iff {toParams : Bool} {message : Option Nat} {stmt : Stmt} {out : Option Rewritten}
    (h : rewriteTimestamp master toParams message stmt = some out) :
    (sent stmt out).hasClock = false ↔
      stmt.hasClock = false ∨ stmt.leaves = false ∧ stmt.answered master toParams message = true := by
  have hsplits := splits_stmt stmt
  cases out with
  | some r =>
    show r.stmt.hasClock = false ↔ _
    rw [hasClock_returned master h]
    constructor
    · intro hleaves
      exact Or.inr ⟨hleaves, (returned_iff master h).2 rfl⟩
    · intro hcond
      obtain hnone | ⟨hleaves, -⟩ := hcond
      · cases hleaves : stmt.leaves with
        | false => rfl
        | true =>
          rw [hsplits.left hleaves] at hnone
          cases hnone
      · exact hleaves
  | none =>
    show stmt.hasClock = false ↔ _
    constructor
    · exact Or.inl
    · intro hcond
      obtain hnone | ⟨hleaves, hanswered⟩ := hcond
      · exact hnone
      · cases hclock : stmt.hasClock with
        | false => rfl
        | true =>
          have hfinds := (hsplits.split hclock).resolve_left (by simp [hleaves])
          have hreturned := (returned_iff master h).1 hfinds hanswered
          cases hreturned

/-- `DELETE FROM t WHERE CURRENT_TIMESTAMP = $1`. -/
def deleteByClock : Stmt :=
  .dml (.delete
    { relname := "t"
      usingClause := []
      whereClause := .node (.other .aExpr) [.currentTimestamp, .param 1]
      returningList := [] })

/-- `INSERT INTO t VALUES (1, now())`. -/
def insertNow : Stmt :=
  .dml (.insert
    { relname := "t"
      cols := []
      selectStmt := some
        { front := []
          valuesLists := [[.const (.integer 1), .nowCall]]
          back := [] }
      returningList := [] })

theorem noClock_sent_deleteByClock : ∃ out,
    rewriteTimestamp plainMaster false none deleteByClock = some out ∧
      (sent deleteByClock out).hasClock = false := by
  have hrewrite : rewriteTimestamp plainMaster false none deleteByClock = some (some _) := rfl
  exact ⟨_, hrewrite, (noClock_sent_iff plainMaster hrewrite).2 (Or.inr ⟨by decide, by decide⟩)⟩

/-- Every node calls `now()` for itself. -/
theorem hasClock_sent_insertNow :
    ¬ ∀ (master : Master) (toParams : Bool) (message : Option Nat) (stmt : Stmt) (out : Option Rewritten),
        rewriteTimestamp master toParams message stmt = some out →
        (sent stmt out).hasClock = false := by
  intro hclaim
  exact absurd (hclaim plainMaster false none insertNow none rfl) (by decide)

end Timestamp

end PgPool
