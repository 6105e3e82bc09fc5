import Mathlib.Data.List.Basic
import Mathlib.Logic.Function.Basic

/-!
# Restricting a table before the joins

A tree of inner and outer joins over named tables.  A row has a tuple of each table that is joined, and none of
a table for which there was no match.
-/

namespace OuterJoin

variable {N τ : Type}

/-- A row: the tuple it has of each table. -/
abbrev Row (N τ : Type) := N → Option τ

inductive Kind where
  | inner
  | left
  | right
  | full
  deriving DecidableEq, Repr

/-- Rows of the left side, or the right, that have no match are kept. -/
def Kind.keepsLeft : Kind → Bool
  | .left | .full => true
  | .inner | .right => false

def Kind.keepsRight : Kind → Bool
  | .right | .full => true
  | .inner | .left => false

inductive From (N τ : Type) where
  | table (n : N)
  | join (kind : Kind) (on : Row N τ → Bool) (l r : From N τ)

def From.tables : From N τ → List N
  | .table n => [n]
  | .join _ _ l r => l.tables ++ r.tables

/-- The row of two rows of different tables. -/
def Row.with (a b : Row N τ) : Row N τ := fun n => (a n).or (b n)

/-- The rows for one row of the left side. -/
def matched (kind : Kind) (on : Row N τ → Bool) (right : List (Row N τ)) (a : Row N τ) : List (Row N τ) :=
  if kind.keepsLeft && (right.filter fun b => on (a.with b)).isEmpty then [a]
  else (right.filter fun b => on (a.with b)).map a.with

/-- The rows of the right side without a match. -/
def unmatched (kind : Kind) (on : Row N τ → Bool) (left right : List (Row N τ)) : List (Row N τ) :=
  if kind.keepsRight then right.filter fun b => !left.any fun a => on (a.with b) else []

/-- A condition on the tuple of one table, which may be missing. -/
def onTable (n : N) (keep : Option τ → Bool) (a : Row N τ) : Bool := keep (a n)

theorem flatMap_filter {α β : Type} {l : List α} {f : α → List β} {p : α → Bool} {p' : β → Bool}
    (h : ∀ a ∈ l, ∀ b ∈ f a, p' b = p a) : (l.flatMap f).filter p' = (l.filter p).flatMap f := by
  induction l with
  | nil => rfl
  | cons a l ih =>
    rw [List.flatMap_cons, List.filter_append, ih fun b hb => h b (List.mem_cons_of_mem a hb), List.filter_cons]
    have ha := h a List.mem_cons_self
    split
    · rename_i hp
      rw [List.flatMap_cons, List.filter_eq_self.mpr fun b hb => (ha b hb).trans hp]
    · rename_i hp
      have hnone : (f a).filter p' = [] := List.filter_eq_nil_iff.mpr fun b hb => by
        rw [ha b hb]
        exact hp
      rw [hnone, List.nil_append]

section Restriction

variable {n : N} {keep : Option τ → Bool}

theorem with_left {a b : Row N τ} (hb : b n = none) : onTable n keep (a.with b) = onTable n keep a := by
  rw [onTable, onTable, Row.with, hb, Option.or_none]

theorem with_right {a b : Row N τ} (ha : a n = none) : onTable n keep (a.with b) = onTable n keep b := by
  rw [onTable, onTable, Row.with, ha, Option.none_or]

/-- The table is on the left side. -/
theorem filter_join_left {kind : Kind} {on : Row N τ → Bool} {left left' right : List (Row N τ)}
    (h : left'.filter (onTable n keep) = left.filter (onTable n keep)) (hright : ∀ b ∈ right, b n = none)
    (hnull : kind.keepsRight = true → keep none = false) :
    (left'.flatMap (matched kind on right) ++ unmatched kind on left' right).filter (onTable n keep) =
      (left.flatMap (matched kind on right) ++ unmatched kind on left right).filter (onTable n keep) := by
  have hmatched : ∀ a, ∀ b ∈ matched kind on right a, onTable n keep b = onTable n keep a := by
    intro a b hb
    unfold matched at hb
    split at hb
    · rw [List.mem_singleton.mp hb]
    · obtain ⟨c, hc, rfl⟩ := List.mem_map.mp hb
      exact with_left (hright c (List.mem_of_mem_filter hc))
  have hunmatched : ∀ l, (unmatched kind on l right).filter (onTable n keep) = [] := by
    intro l
    unfold unmatched
    split
    · rename_i hkeeps
      refine List.filter_eq_nil_iff.mpr fun b hb => ?_
      rw [onTable, hright b (List.mem_of_mem_filter hb), hnull hkeeps]
      exact Bool.false_ne_true
    · rfl
  rw [List.filter_append, List.filter_append, hunmatched, hunmatched,
    flatMap_filter fun a _ => hmatched a, flatMap_filter fun a _ => hmatched a, h]

/-- The table is on the right side. -/
theorem filter_join_right {kind : Kind} {on : Row N τ → Bool} {left right right' : List (Row N τ)}
    (h : right'.filter (onTable n keep) = right.filter (onTable n keep)) (hleft : ∀ a ∈ left, a n = none)
    (hnull : kind.keepsLeft = true → keep none = false) :
    (left.flatMap (matched kind on right') ++ unmatched kind on left right').filter (onTable n keep) =
      (left.flatMap (matched kind on right) ++ unmatched kind on left right).filter (onTable n keep) := by
  -- a row without a match does not meet the condition
  have hmatched : ∀ rs, ∀ a ∈ left, (matched kind on rs a).filter (onTable n keep) =
      ((rs.filter (onTable n keep)).filter fun b => on (a.with b)).map a.with := by
    intro rs a ha
    have hmap : ((rs.filter fun b => on (a.with b)).map a.with).filter (onTable n keep) =
        ((rs.filter (onTable n keep)).filter fun b => on (a.with b)).map a.with := by
      have hcomp : onTable n keep ∘ a.with = onTable n keep := funext fun b => with_right (hleft a ha)
      rw [List.filter_map, hcomp, List.filter_filter, List.filter_filter]
      exact congrArg (List.map a.with) (List.filter_congr fun b _ => Bool.and_comm _ _)
    unfold matched
    split
    · rename_i hempty
      obtain ⟨hkeeps, hnil⟩ := Bool.and_eq_true_iff.mp hempty
      rw [← hmap, List.isEmpty_iff.mp hnil, List.filter_singleton, onTable, hleft a ha, hnull hkeeps]
      rfl
    · exact hmap
  have hunmatched : ∀ rs, (unmatched kind on left rs).filter (onTable n keep) =
      if kind.keepsRight then (rs.filter (onTable n keep)).filter fun b => !left.any fun a => on (a.with b)
      else [] := by
    intro rs
    unfold unmatched
    split
    · rw [List.filter_filter, List.filter_filter]
      exact List.filter_congr fun b _ => Bool.and_comm _ _
    · rfl
  have hflat : ∀ rs, (left.flatMap (matched kind on rs)).filter (onTable n keep) =
      left.flatMap fun a => ((rs.filter (onTable n keep)).filter fun b => on (a.with b)).map a.with := by
    intro rs
    rw [List.filter_flatMap]
    exact List.flatMap_congr (hmatched rs)
  rw [List.filter_append, List.filter_append, hunmatched, hunmatched, hflat, hflat, h]

variable [DecidableEq N]

/-- A table that can be without a match. -/
def From.nullable (n : N) : From N τ → Bool
  | .table _ => false
  | .join kind _ l r =>
    (l.tables.contains n && (kind.keepsRight || l.nullable n)) ||
      (r.tables.contains n && (kind.keepsLeft || r.nullable n))

/-- The row of one table. -/
def single (n : N) (t : τ) : Row N τ := fun m => if m = n then some t else none

def From.rows (db : N → List τ) : From N τ → List (Row N τ)
  | .table n => (db n).map (single n)
  | .join kind on l r =>
    (l.rows db).flatMap (matched kind on (r.rows db)) ++ unmatched kind on (l.rows db) (r.rows db)

/-- The tuples of one table that meet a condition, the other tables as they are. -/
def restrict (db : N → List τ) (n : N) (keep : τ → Bool) : N → List τ :=
  Function.update db n ((db n).filter keep)

/-- A row has no tuple of a table that it is not from. -/
theorem eq_none_of_mem_rows {db : N → List τ} {f : From N τ} {a : Row N τ} (h : a ∈ f.rows db) {n : N}
    (hn : n ∉ f.tables) : a n = none := by
  induction f generalizing a with
  | table m =>
    obtain ⟨t, -, rfl⟩ := List.mem_map.mp h
    exact if_neg fun hnm => hn (List.mem_singleton.mpr hnm)
  | join kind on l r ihl ihr =>
    rw [From.tables, List.mem_append, not_or] at hn
    have hwith : ∀ {a b : Row N τ}, a n = none → b n = none → (a.with b) n = none := fun ha hb => by
      rw [Row.with, ha, hb]
      rfl
    rcases List.mem_append.mp h with h | h
    · obtain ⟨b, hb, hmatched⟩ := List.mem_flatMap.mp h
      have hbn := ihl hb hn.1
      unfold matched at hmatched
      split at hmatched
      · rw [List.mem_singleton.mp hmatched]
        exact hbn
      · obtain ⟨c, hc, rfl⟩ := List.mem_map.mp hmatched
        exact hwith hbn (ihr (List.mem_of_mem_filter hc) hn.2)
    · unfold unmatched at h
      split at h
      · exact ihr (List.mem_of_mem_filter h) hn.2
      · cases h

/-- A table that is not joined does not matter. -/
theorem rows_restrict_of_not_mem (db : N → List τ) {f : From N τ} {n : N} (hn : n ∉ f.tables)
    (keep : τ → Bool) : f.rows (restrict db n keep) = f.rows db := by
  induction f with
  | table m =>
    have hm : m ≠ n := fun h => hn (List.mem_singleton.mpr h.symm)
    rw [From.rows, From.rows, restrict, Function.update_of_ne hm]
  | join kind on l r ihl ihr =>
    rw [From.tables, List.mem_append, not_or] at hn
    rw [From.rows, From.rows, ihl hn.1, ihr hn.2]

/-- **A table may be restricted before the joins by what is asked of the rows after them**: where it can be
without a match, nothing is asked that a missing tuple meets. -/
theorem filter_rows_restrict (db : N → List τ) {f : From N τ} (hnodup : f.tables.Nodup)
    (hnull : f.nullable n = true → keep none = false) :
    (f.rows (restrict db n fun t => keep (some t))).filter (onTable n keep) =
      (f.rows db).filter (onTable n keep) := by
  induction f with
  | table m =>
    by_cases hm : m = n
    · subst hm
      have hkeep : onTable m keep ∘ single m = fun t => keep (some t) := funext fun t => by
        rw [Function.comp_apply, onTable, single, if_pos rfl]
      rw [From.rows, From.rows, restrict, Function.update_self, List.filter_map, List.filter_map, hkeep,
        List.filter_filter]
      simp
    · rw [rows_restrict_of_not_mem db fun h => hm (List.mem_singleton.mp h).symm]
  | join kind on l r ihl ihr =>
    rw [From.tables, List.nodup_append] at hnodup
    obtain ⟨hl, hr, hdisjoint⟩ := hnodup
    by_cases hnl : n ∈ l.tables
    · have hnr : n ∉ r.tables := fun h => hdisjoint n hnl n h rfl
      rw [From.rows, From.rows, rows_restrict_of_not_mem db hnr]
      refine filter_join_left (ihl hl fun h => hnull ?_) (fun b hb => eq_none_of_mem_rows hb hnr)
        fun h => hnull ?_
      · simp [From.nullable, hnl, h]
      · simp [From.nullable, hnl, h]
    · by_cases hnr : n ∈ r.tables
      · rw [From.rows, From.rows, rows_restrict_of_not_mem db hnl]
        refine filter_join_right (ihr hr fun h => hnull ?_) (fun a ha => eq_none_of_mem_rows ha hnl)
          fun h => hnull ?_
        · simp [From.nullable, hnr, h]
        · simp [From.nullable, hnr, h]
      · rw [rows_restrict_of_not_mem db]
        rw [From.tables, List.mem_append, not_or]
        exact ⟨hnl, hnr⟩

/-- What is asked after the joins, where it asks no less. -/
theorem filter_where_restrict (db : N → List τ) {f : From N τ} (hnodup : f.tables.Nodup)
    (hnull : f.nullable n = true → keep none = false) {cond : Row N τ → Bool}
    (hcond : ∀ a, cond a = true → onTable n keep a = true) :
    (f.rows (restrict db n fun t => keep (some t))).filter cond = (f.rows db).filter cond := by
  have hfilter : ∀ rows : List (Row N τ), rows.filter cond = (rows.filter (onTable n keep)).filter cond := by
    intro rows
    rw [List.filter_filter]
    refine List.filter_congr fun a _ => ?_
    cases h : cond a with
    | true => rw [hcond a h]; rfl
    | false => rfl
  rw [hfilter, hfilter (f.rows db), filter_rows_restrict db hnodup hnull]

end Restriction

end OuterJoin
