import Mathlib.Data.List.Dedup
import Mathlib.Data.List.Perm.Basic

/-!
# Grouping rows that come in parts

Rows are grouped by a key.  Where the rows were split into parts and all rows of a part have one key, grouping
the parts gives the groups of the rows.
-/

namespace Partition

variable {ρ σ κ γ : Type} [DecidableEq κ]

/-- The groups of the rows: one for each key, or all rows in one where there is no grouping. -/
def groups (grouped : Bool) (key : ρ → κ) (rows : List ρ) : List (List ρ) :=
  if grouped then (rows.map key).dedup.map fun k => rows.filter (key · = k) else [rows]

theorem groups_false (key : ρ → κ) (rows : List ρ) : groups false key rows = [rows] := rfl

theorem groups_true (key : ρ → κ) (rows : List ρ) :
    groups true key rows = (rows.map key).dedup.map fun k => rows.filter (key · = k) := rfl

theorem groups_map (grouped : Bool) (f : σ → ρ) (key : ρ → κ) (rows : List σ) :
    groups grouped key (rows.map f) = (groups grouped (key ∘ f) rows).map (List.map f) := by
  cases grouped with
  | false => rfl
  | true =>
    rw [groups_true, groups_true, List.map_map, List.map_map]
    refine List.map_congr_left fun k _ => ?_
    rw [Function.comp_apply, List.filter_map]
    rfl

/-- A group of a grouping has a row. -/
theorem ne_nil_of_mem_groups {key : ρ → κ} {rows g : List ρ} (h : g ∈ groups true key rows) : g ≠ [] := by
  rw [groups_true, List.mem_map] at h
  obtain ⟨k, hk, rfl⟩ := h
  obtain ⟨r, hr, rfl⟩ := List.mem_map.mp (List.mem_dedup.mp hk)
  exact List.ne_nil_of_mem (List.mem_filter.mpr ⟨hr, by simp⟩)

theorem mem_of_mem_groups {grouped : Bool} {key : ρ → κ} {rows g : List ρ} (h : g ∈ groups grouped key rows)
    {r : ρ} (hr : r ∈ g) : r ∈ rows := by
  cases grouped with
  | false => rwa [List.mem_singleton.mp h] at hr
  | true =>
    rw [groups_true, List.mem_map] at h
    obtain ⟨k, -, rfl⟩ := h
    exact List.mem_of_mem_filter hr

/-- The rows of a group have one key. -/
theorem key_eq_of_mem_groups {key : ρ → κ} {rows g : List ρ} (h : g ∈ groups true key rows) {r r' : ρ}
    (hr : r ∈ g) (hr' : r' ∈ g) : key r = key r' := by
  rw [groups_true, List.mem_map] at h
  obtain ⟨k, -, rfl⟩ := h
  have hkey := of_decide_eq_true (List.mem_filter.mp hr).2
  have hkey' := of_decide_eq_true (List.mem_filter.mp hr').2
  exact hkey.trans hkey'.symm

/-- The rows with one of the keys, key by key. -/
theorem flatMap_filter_perm (key : ρ → κ) (rows : List ρ) {keys : List κ} (h : keys.Nodup) :
    (keys.flatMap fun k => rows.filter (key · = k)).Perm (rows.filter (key · ∈ keys)) := by
  induction keys with
  | nil => simp
  | cons k keys ih =>
    obtain ⟨hk, hkeys⟩ := List.nodup_cons.mp h
    rw [List.flatMap_cons]
    have hsplit := List.filter_append_perm (fun r => decide (key r = k)) (rows.filter (key · ∈ k :: keys))
    refine List.Perm.trans ?_ hsplit
    rw [List.filter_filter, List.filter_filter]
    have hfirst : rows.filter (fun r => decide (key r = k) && decide (key r ∈ k :: keys)) =
        rows.filter (key · = k) := by
      refine List.filter_congr fun r _ => ?_
      by_cases hr : key r = k <;> simp [hr]
    have hrest : rows.filter (fun r => !decide (key r = k) && decide (key r ∈ k :: keys)) =
        rows.filter (key · ∈ keys) := by
      refine List.filter_congr fun r _ => ?_
      by_cases hr : key r = k
      · simp [hr, hk]
      · simp [hr]
    rw [hfirst, hrest]
    exact (ih hkeys).append_left _

/-- Grouping loses no row. -/
theorem flatten_groups_perm (grouped : Bool) (key : ρ → κ) (rows : List ρ) :
    (groups grouped key rows).flatten.Perm rows := by
  cases grouped with
  | false => rw [groups_false, List.flatten_singleton]
  | true =>
    rw [groups_true, ← List.flatMap_def]
    have hall : rows.filter (key · ∈ (rows.map key).dedup) = rows := by
      refine List.filter_eq_self.mpr fun r hr => ?_
      simpa using ⟨r, hr, rfl⟩
    exact (flatMap_filter_perm key rows (List.nodup_dedup _)).trans (List.Perm.of_eq hall)

/-- The rows of the parts with a key are the rows with the key. -/
theorem flatten_filter {key : ρ → κ} {partKey : List ρ → κ} {parts : List (List ρ)}
    (hkey : ∀ p ∈ parts, ∀ r ∈ p, partKey p = key r) (k : κ) :
    (parts.filter (partKey · = k)).flatten = parts.flatten.filter (key · = k) := by
  induction parts with
  | nil => rfl
  | cons p parts ih =>
    have hrest := ih fun q hq => hkey q (List.mem_cons_of_mem p hq)
    rw [List.flatten_cons, List.filter_append, ← hrest, List.filter_cons]
    have hp : ∀ r ∈ p, decide (key r = k) = decide (partKey p = k) := fun r hr => by
      rw [hkey p List.mem_cons_self r hr]
    rw [List.filter_congr hp]
    by_cases hk : partKey p = k <;> simp [hk]

/-- **Grouping the parts gives the groups of the rows.** -/
theorem groups_parts {key : ρ → κ} {partKey : List ρ → κ} {parts : List (List ρ)} {rows : List ρ}
    (hrows : parts.flatten.Perm rows) (hne : ∀ p ∈ parts, p ≠ [])
    (hkey : ∀ p ∈ parts, ∀ r ∈ p, partKey p = key r) {f : List (List ρ) → Option γ} {f' : List ρ → Option γ}
    (hf : ∀ P g : List _, P ∈ groups true partKey parts → g ∈ groups true key rows → P.flatten.Perm g →
      f P = f' g) :
    ((groups true partKey parts).filterMap f).Perm ((groups true key rows).filterMap f') := by
  have hmem : ∀ k, k ∈ parts.map partKey ↔ k ∈ rows.map key := by
    intro k
    constructor
    · intro h
      obtain ⟨p, hp, rfl⟩ := List.mem_map.mp h
      obtain ⟨r, hr⟩ := List.exists_mem_of_ne_nil p (hne p hp)
      exact List.mem_map.mpr ⟨r, hrows.mem_iff.mp (List.mem_flatten.mpr ⟨p, hp, hr⟩), (hkey p hp r hr).symm⟩
    · intro h
      obtain ⟨r, hr, rfl⟩ := List.mem_map.mp h
      obtain ⟨p, hp, hrp⟩ := List.mem_flatten.mp (hrows.mem_iff.mpr hr)
      exact List.mem_map.mpr ⟨p, hp, hkey p hp r hrp⟩
  have hkeys : (parts.map partKey).dedup.Perm (rows.map key).dedup := by
    rw [List.perm_ext_iff_of_nodup (List.nodup_dedup _) (List.nodup_dedup _)]
    intro k
    rw [List.mem_dedup, List.mem_dedup, hmem k]
  rw [groups_true, groups_true, List.filterMap_map, List.filterMap_map]
  refine List.Perm.trans (List.Perm.of_eq (List.filterMap_congr fun k hk => ?_)) (hkeys.filterMap _)
  refine hf _ _ (List.mem_map_of_mem hk) (List.mem_map_of_mem (hkeys.mem_iff.mp hk)) ?_
  rw [flatten_filter hkey k]
  exact hrows.filter _

end Partition
