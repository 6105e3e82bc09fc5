import PgPool.Timestamp.Defaults

/-!
# What a walk leaves untouched

A walk changes a tree exactly if it finds something, and elsewhere it does not change the lengths of rows
or which values are DEFAULT.
-/

namespace PgPool

namespace Timestamp

open PgPool.Timestamp.Tree

variable {head : Head} {kids : List Tree} {ctx : Ctx}

/-- The walk gives back the tree exactly if it finds nothing. -/
def KeepsUnfound (t : Tree) : Prop := ∀ ctx : Ctx, (walker t ctx).1 = t ↔ t.finds = false

theorem walkList_eq_iff (visits : Nat → Bool) (ih : ∀ t ∈ kids, KeepsUnfound t) :
    (walkList visits kids ctx).1 = kids ↔ findsList visits kids = false := by
  induction kids generalizing visits ctx with
  | nil => simp [walkList_nil, findsList]
  | cons t ts ihts =>
    have hrest := fun u hu => ih u (List.mem_cons_of_mem t hu)
    cases hvisit : visits 0 with
    | true =>
      rw [walkList_cons_visited hvisit]
      simp [findsList, hvisit, ih t List.mem_cons_self _, ihts _ hrest]
    | false =>
      rw [walkList_cons_skipped hvisit]
      simp [findsList, hvisit, ihts _ hrest]

theorem finds_of_site (h : site head kids ≠ .plain) : (Tree.node head kids).finds = true := by
  simp [Tree.finds, h]

theorem keepsUnfound (t : Tree) : KeepsUnfound t := by
  induction t using walker_induction with
  | plain head kids hsite ih =>
    intro ctx
    rw [walker_plain hsite, Tree.finds, hsite, walks_eq_visits (not_nowCall_of_plain hsite)]
    simpa using walkList_eq_iff head.visits ih
  | now kids ih =>
    intro ctx
    have hfinds : (Tree.node (.funcCall ["pg_catalog", "now"]) kids).finds = true :=
      finds_of_site (by rw [site_eq_now.2 rfl]; nofun)
    rw [walker_now, hfinds]
    simp
  | nowText text type hsite htext htype =>
    intro ctx
    have hne : ctx.makeTsExpr.1 ≠ .const (.string "now") := makeTsExpr_ne_const _
    rw [walker_nowText hsite, finds_of_site (by rw [hsite]; nofun)]
    simp [hne]
  | nowConst type hsite htype =>
    intro ctx
    have hne : ctx.makeTsExpr.1 ≠ .const (.string "now") := makeTsExpr_ne_const _
    rw [walker_nowConst hsite, finds_of_site (by rw [hsite]; nofun)]
    simp [hne]

theorem walkItems_eq_iff (ts : List Tree) : (walkItems ts ctx).1 = ts ↔ itemsFind ts = false :=
  walkList_eq_iff _ fun t _ => keepsUnfound t

theorem walkRows_eq_iff (rows : List (List Tree)) :
    (walkRows rows ctx).1 = rows ↔ rows.any itemsFind = false := by
  induction rows generalizing ctx with
  | nil => simp [walkRows]
  | cons row rows ih => simp [walkRows, walkItems_eq_iff, ih]

theorem walkSource_eq_iff (source : InsertSource) :
    (walkSource source ctx).1 = source ↔ source.finds = false := by
  obtain ⟨front, valuesLists, back⟩ := source
  simp [walkSource, InsertSource.finds, walkItems_eq_iff, walkRows_eq_iff]

/-- The walk of some rows. -/
theorem sameLook_walkRows (rows : List (List Tree)) :
    List.Forall₂ (List.Forall₂ SameLook) rows (walkRows rows ctx).1 := by
  induction rows generalizing ctx with
  | nil => exact .nil
  | cons row rows ih => exact .cons (sameLook_walkItems row) ih

end Timestamp

end PgPool
