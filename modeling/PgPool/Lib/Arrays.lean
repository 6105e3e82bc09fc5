import Mathlib.Data.List.Basic
import Mathlib.Logic.Function.Basic

/-!
# Arrays that are filled

Some arrays, each with the room it was declared with, to which a loop writes one entry after the other.  A
write behind the end of an array fails.
-/

namespace Arrays

variable {ι α β : Type} [DecidableEq ι] {room : ι → Nat} {a b : ι → List α}

/-- The next entry of an array. -/
def write (room : ι → Nat) (a : ι → List α) (w : ι × α) : Option (ι → List α) :=
  if (a w.1).length < room w.1 then some (Function.update a w.1 (a w.1 ++ [w.2])) else none

/-- The entries for an array. -/
def sent (ws : List (ι × α)) (i : ι) : List α := ws.filterMap fun w => if w.1 = i then some w.2 else none

@[simp] theorem sent_nil (i : ι) : sent ([] : List (ι × α)) i = [] := rfl

theorem sent_cons (w : ι × α) (ws : List (ι × α)) (i : ι) :
    sent (w :: ws) i = if w.1 = i then w.2 :: sent ws i else sent ws i := by
  unfold sent
  rw [List.filterMap_cons]
  split <;> rename_i h <;> split at h <;> simp_all

theorem sent_flatMap (l : List β) (f : β → List (ι × α)) (i : ι) :
    sent (l.flatMap f) i = l.flatMap fun x => sent (f x) i := List.filterMap_flatMap

/-- All that is written is there, if there is room. -/
theorem foldlM_write (ws : List (ι × α)) (h : ∀ i, (a i).length ≤ room i) :
    ws.foldlM (write room) a = some b ↔
      (∀ i, (a i ++ sent ws i).length ≤ room i) ∧ b = fun i => a i ++ sent ws i := by
  induction ws generalizing a with
  | nil =>
    simp only [List.foldlM_nil, sent_nil, List.append_nil]
    exact ⟨fun hb => ⟨h, (Option.some.inj hb).symm⟩, fun hb => congrArg some hb.2.symm⟩
  | cons w ws ih =>
    rw [List.foldlM_cons]
    have hnext : ∀ i, Function.update a w.1 (a w.1 ++ [w.2]) i ++ sent ws i = a i ++ sent (w :: ws) i := by
      intro i
      rw [sent_cons]
      by_cases hi : w.1 = i
      · subst hi
        rw [Function.update_self, if_pos rfl, List.append_assoc]
        rfl
      · rw [Function.update_of_ne (Ne.symm hi), if_neg hi]
    by_cases hroom : (a w.1).length < room w.1
    · have hfits : ∀ i, (Function.update a w.1 (a w.1 ++ [w.2]) i).length ≤ room i := by
        intro i
        by_cases hi : w.1 = i
        · subst hi
          rw [Function.update_self, List.length_append]
          exact hroom
        · rw [Function.update_of_ne (Ne.symm hi)]
          exact h i
      have hstep := ih hfits
      simp only [hnext] at hstep
      rw [write, if_pos hroom]
      exact hstep
    · rw [write, if_neg hroom]
      refine ⟨nofun, fun hb => absurd (hb.1 w.1) ?_⟩
      rw [sent_cons, if_pos rfl, List.length_append, List.length_cons]
      omega

/-- Arrays that are filled from the start. -/
theorem foldlM_write_nil (ws : List (ι × α)) :
    (ws.foldlM (write room) fun _ => []) = some b ↔ (∀ i, (sent ws i).length ≤ room i) ∧ b = sent ws := by
  rw [foldlM_write ws fun _ => Nat.zero_le _]
  exact Iff.rfl

/-- A loop in a loop. -/
theorem foldlM_flatMap {σ : Type} (f : σ → α → Option σ) (g : β → List α) (l : List β) (s : σ) :
    (l.flatMap g).foldlM f s = l.foldlM (fun s x => (g x).foldlM f s) s := by
  induction l generalizing s with
  | nil => rfl
  | cons x l ih =>
    rw [List.flatMap_cons, List.foldlM_append, List.foldlM_cons]
    exact congrArg _ (funext ih)

/-- What the entries are the numbers of. -/
theorem mapM_getElem? {l : List α} {ps : List (α × Nat)} (h : ∀ p ∈ ps, p ∈ l.zipIdx) :
    (ps.map Prod.snd).mapM (fun i => l[i]?) = some (ps.map Prod.fst) := by
  induction ps with
  | nil => rfl
  | cons p ps ih =>
    have hp : l[p.2]? = some p.1 := List.mem_zipIdx_iff_getElem?.mp (h p List.mem_cons_self)
    rw [List.map_cons, List.mapM_cons, hp, ih fun q hq => h q (List.mem_cons_of_mem _ hq)]
    rfl

theorem length_of_mapM {is : List Nat} {l xs : List α} (h : is.mapM (fun i => l[i]?) = some xs) :
    is.length = xs.length := by
  induction is generalizing xs with
  | nil =>
    cases h
    rfl
  | cons i is ih =>
    rw [List.mapM_cons] at h
    obtain ⟨x, -, h⟩ := Option.bind_eq_some_iff.mp h
    obtain ⟨ys, hys, h⟩ := Option.bind_eq_some_iff.mp h
    cases h
    exact congrArg (· + 1) (ih hys)

theorem map_zipIdx (l : List α) (f : α → β) : (l.zipIdx.map fun p => f p.1) = l.map f := by
  have hmap := congrArg (List.map f) (List.zipIdx_map_fst 0 l)
  rwa [List.map_map] at hmap

/-- Each element some times over. -/
theorem mapM_replicate (l : List α) (n : α → Nat) :
    (l.zipIdx.flatMap fun p => List.replicate (n p.1) p.2).mapM (fun i => l[i]?) =
      some (l.flatMap fun x => List.replicate (n x) x) := by
  have hsnd : (l.zipIdx.flatMap fun p => List.replicate (n p.1) p.2) =
      (l.zipIdx.flatMap fun p => List.replicate (n p.1) p).map Prod.snd := by
    rw [List.map_flatMap]
    simp only [List.map_replicate]
  have hfst : (l.zipIdx.flatMap fun p => List.replicate (n p.1) p).map Prod.fst =
      l.flatMap fun x => List.replicate (n x) x := by
    rw [List.map_flatMap]
    simp only [List.map_replicate]
    rw [← List.flatMap_map Prod.fst fun x => List.replicate (n x) x, List.zipIdx_map_fst]
  rw [hsnd, mapM_getElem?, hfst]
  intro p hp
  obtain ⟨q, hq, hpq⟩ := List.mem_flatMap.mp hp
  exact List.eq_of_mem_replicate hpq ▸ hq

theorem length_replicate (l : List α) (n : α → Nat) :
    (l.zipIdx.flatMap fun p => List.replicate (n p.1) p.2).length =
      (l.flatMap fun x => List.replicate (n x) x).length := by
  rw [List.length_flatMap, List.length_flatMap]
  simp only [List.length_replicate]
  exact congrArg List.sum (map_zipIdx l n)

/-- Some of the elements. -/
theorem mapM_filter (l : List α) (q : α → Bool) :
    ((l.zipIdx.filter fun p => q p.1).map Prod.snd).mapM (fun i => l[i]?) = some (l.filter q) := by
  have hfst : (l.zipIdx.filter fun p => q p.1).map Prod.fst = l.filter q := by
    have hmap := (List.filter_map (f := Prod.fst) (p := q) (l := l.zipIdx)).symm
    rw [List.zipIdx_map_fst] at hmap
    exact hmap
  rw [mapM_getElem? fun p hp => (List.mem_filter.mp hp).1, hfst]

end Arrays
