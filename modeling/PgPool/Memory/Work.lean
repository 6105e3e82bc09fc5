import PgPool.Memory.Formed

/-!
# Work in one pool

The parser, the printer of parse trees and the functions on strings and lists take their memory from
the pool that `pool_memory` points to, and give back only what they have taken from it: the buffers
of the scanner, the data of a string that grows, the cells of a list.  Such a piece of work is a
list of operations on the chunks it holds.
-/

namespace PgPool

open Region

/-- `palloc`, `pfree` and `repalloc` on the `k`-th chunk that is held; a chunk that the work leaves
behind in the pool is forgotten. -/
inductive WorkOp where
  | alloc (size : Nat)
  | free (k : Nat)
  | realloc (k size : Nat)
  | forget (k : Nat)
  deriving DecidableEq, Repr

namespace Memory

section

variable {ρ : Type}

/-- No chunk but those of the list is taken back, and no pool comes or goes. -/
structure Frees (m : Memory ρ) (l : List Chunk) (m' : Memory ρ) : Prop where
  formed : Formed m'
  justified : Justified m'.log
  pools : ∀ r, Exists r m'.log ↔ Exists r m.log
  live : ∀ r a, Live r a m.log → a ∉ l → Live r a m'.log

/-- What work does that starts with some chunks and ends with others. -/
structure Works (r : ρ) (held : List Chunk) (m : Memory ρ) (held' : List Chunk) (m' : Memory ρ) :
    Prop where
  frees : Frees m held m'
  nodup : held'.Nodup
  live : ∀ a ∈ held', Live r a m'.log
  fresh : ∀ a ∈ held', a ∈ held ∨ ∀ s, ¬ Live s a m.log

variable {m m' m'' : Memory ρ} {r : ρ} {l l' held held' held'' : List Chunk}

theorem Frees.mono (h : Frees m l m') (hsub : ∀ a ∈ l, a ∈ l') : Frees m l' m' :=
  ⟨h.formed, h.justified, h.pools, fun r a ha hl => h.live r a ha fun hm => hl (hsub a hm)⟩

theorem Frees.refl (h : Formed m) (hj : Justified m.log) : Frees m l m :=
  ⟨h, hj, fun _ => Iff.rfl, fun _ _ ha _ => ha⟩

theorem Frees.trans (h : Frees m l m') (h' : Frees m' l' m'') : Frees m (l ++ l') m'' where
  formed := h'.formed
  justified := h'.justified
  pools r := (h'.pools r).trans (h.pools r)
  live r a ha hl :=
    h'.live r a (h.live r a ha fun hm => hl (List.mem_append_left _ hm))
      fun hm => hl (List.mem_append_right _ hm)

theorem Works.trans (h : Works r held m held' m') (h' : Works r held' m' held'' m'') :
    Works r held m held'' m'' := by
  have hkept : ∀ s a, Live s a m.log → a ∉ held → Live s a m'.log ∧ a ∉ held' := by
    intro s a ha hne
    refine ⟨h.frees.live s a ha hne, fun hm => ?_⟩
    rcases h.fresh a hm with hold | hnew
    · exact hne hold
    · exact hnew s ha
  refine ⟨⟨h'.frees.formed, h'.frees.justified, fun s => (h'.frees.pools s).trans (h.frees.pools s),
    fun s a ha hne => ?_⟩, h'.nodup, h'.live, fun a ha => ?_⟩
  · obtain ⟨hl, hnot⟩ := hkept s a ha hne
    exact h'.frees.live s a hl hnot
  · rcases h'.fresh a ha with hold | hnew
    · exact h.fresh a hold
    · by_cases hm : a ∈ held
      · exact Or.inl hm
      · exact Or.inr fun s hs => hnew s (hkept s a hs hm).1

/-- Nothing is done. -/
theorem Works.refl (h : Formed m) (hj : Justified m.log) (hnd : held.Nodup)
    (hl : ∀ a ∈ held, Live r a m.log) : Works r held m held m :=
  ⟨.refl h hj, hnd, hl, fun _ ha => Or.inl ha⟩

end

variable {ρ : Type} [DecidableEq ρ]

/-- One operation, on the chunks that are held. -/
def workOp (r : ρ) (op : WorkOp) (held : List Chunk) (m : Memory ρ) : List Chunk × Memory ρ :=
  match op with
  | .alloc size =>
      let (chunk, m) := m.poolMemoryAlloc r size
      (chunk :: held, m)
  | .free k =>
      match held[k]? with
      | none => (held, m)
      | some chunk => (held.erase chunk, m.poolMemoryFree r chunk)
  | .realloc k size =>
      match held[k]? with
      | none => (held, m)
      | some chunk =>
          let (p, m) := m.poolMemoryRealloc r chunk size
          (p :: held.erase chunk, m)
  | .forget k => (held.eraseIdx k, m)

/-- A piece of work. -/
def work (r : ρ) : List WorkOp → List Chunk → Memory ρ → List Chunk × Memory ρ
  | [], held, m => (held, m)
  | op :: ops, held, m =>
      let (held, m) := m.workOp r op held
      work r ops held m

/-- Give back some chunks. -/
def freeAll (r : ρ) (chunks : List Chunk) (m : Memory ρ) : Memory ρ :=
  chunks.foldl (fun m chunk => m.poolMemoryFree r chunk) m

variable {m : Memory ρ} {r : ρ} {l held : List Chunk} {chunk : Chunk}

theorem Frees.alloc (h : Formed m) (hj : Justified m.log) (r : ρ) (size : Nat) :
    Frees m [] (m.poolMemoryAlloc r size).2 := by
  refine ⟨(h.poolMemoryAlloc r size).1, ?_, fun s => ?_, fun s a ha _ => ?_⟩
  · rw [log_poolMemoryAlloc]
    exact hj
  · rw [log_poolMemoryAlloc]
    exact Iff.rfl
  · rw [log_poolMemoryAlloc]
    exact Or.inr ha

theorem live_poolMemoryAlloc (hr : Exists r m.log) (size : Nat) :
    Live r (m.poolMemoryAlloc r size).1 (m.poolMemoryAlloc r size).2.log := by
  rw [log_poolMemoryAlloc]
  exact Or.inl ⟨rfl, rfl, hr⟩

theorem Frees.free (h : Formed m) (hj : Justified m.log) (hl : Live r chunk m.log) :
    Frees m [chunk] (m.poolMemoryFree r chunk) where
  formed := h.poolMemoryFree hl
  justified := ⟨hl.returned, hj⟩
  pools _ := Iff.rfl
  live _ _ ha hne := ⟨fun he => hne (he ▸ List.mem_singleton_self chunk), ha⟩

/-- All chunks of a list are freed in their pool. -/
theorem Frees.all (h : Formed m) (hj : Justified m.log) (hnd : l.Nodup)
    (hl : ∀ a ∈ l, Live r a m.log) : Frees m l (m.freeAll r l) := by
  induction l generalizing m with
  | nil => exact .refl h hj
  | cons chunk rest ih =>
    obtain ⟨hnot, hrest⟩ := List.nodup_cons.1 hnd
    have hfree := Frees.free h hj (hl chunk List.mem_cons_self)
    refine hfree.trans (ih hfree.formed hfree.justified hrest fun a ha => ?_)
    refine hfree.live r a (hl a (List.mem_cons_of_mem _ ha)) fun he => ?_
    rw [List.mem_singleton] at he
    exact hnot (he ▸ ha)

/-- A step lemma for the operations of a piece of work. -/
theorem works_workOp (op : WorkOp) (h : Formed m) (hj : Justified m.log) (hr : Exists r m.log)
    (hnd : held.Nodup) (hl : ∀ a ∈ held, Live r a m.log) :
    Works r held m (m.workOp r op held).1 (m.workOp r op held).2 := by
  cases op with
  | alloc size =>
    have hfrees := Frees.alloc h hj r size
    have hfresh := (h.poolMemoryAlloc r size).2
    refine ⟨hfrees.mono (nofun), List.nodup_cons.2 ⟨fun hm => hfresh r (hl _ hm), hnd⟩,
      fun a ha => ?_, fun a ha => ?_⟩
    · rcases List.mem_cons.1 ha with rfl | ha
      · exact live_poolMemoryAlloc hr size
      · exact hfrees.live r a (hl a ha) (nofun)
    · rcases List.mem_cons.1 ha with rfl | ha
      · exact Or.inr hfresh
      · exact Or.inl ha
  | free k =>
    unfold workOp
    simp only
    split
    · exact .refl h hj hnd hl
    · rename_i c hk
      have hc := List.mem_of_getElem? hk
      have hfrees := Frees.free h hj (hl c hc)
      refine ⟨hfrees.mono fun a ha => (List.mem_singleton.1 ha) ▸ hc, hnd.erase c, fun a ha => ?_,
        fun a ha => Or.inl (List.mem_of_mem_erase ha)⟩
      refine hfrees.live r a (hl a (List.mem_of_mem_erase ha)) fun he => ?_
      exact (hnd.mem_erase_iff.1 ha).1 (List.mem_singleton.1 he)
  | realloc k size =>
    unfold workOp
    simp only
    split
    · exact .refl h hj hnd hl
    · rename_i c hk
      have hc := List.mem_of_getElem? hk
      obtain ⟨hformed, hres⟩ := h.poolMemoryRealloc (hl c hc) size
      generalize hp : m.poolMemoryRealloc r c size = res at hformed hres
      obtain ⟨p, m'⟩ := res
      simp only at hformed hres ⊢
      cases hres with
      | kept =>
        refine ⟨⟨hformed, ⟨(hl c hc).returned, hj⟩, fun _ => Iff.rfl, fun _ _ ha _ => ha⟩,
          List.nodup_cons.2 ⟨hnd.not_mem_erase, hnd.erase c⟩, fun a ha => ?_, fun a ha => ?_⟩
        · rcases List.mem_cons.1 ha with rfl | ha
          · exact hl a hc
          · exact hl a (List.mem_of_mem_erase ha)
        · rcases List.mem_cons.1 ha with rfl | ha
          · exact Or.inl hc
          · exact Or.inl (List.mem_of_mem_erase ha)
      | moved fresh log =>
        have hne : c ≠ p := fun he => fresh r (he ▸ hl c hc)
        refine ⟨⟨hformed, ?_, fun s => ?_, fun s a ha hnot => ?_⟩,
          List.nodup_cons.2 ⟨fun hm => fresh r (hl p (List.mem_of_mem_erase hm)), hnd.erase c⟩,
          fun a ha => ?_, fun a ha => ?_⟩
        · rw [log]
          exact ⟨Or.inr (hl c hc).returned, (hl c hc).returned, hj⟩
        · rw [log]
          exact Iff.rfl
        · rw [log]
          exact ⟨fun he => hnot (he ▸ hc), Or.inr ha⟩
        · rw [log]
          rcases List.mem_cons.1 ha with rfl | ha
          · exact ⟨hne, Or.inl ⟨rfl, rfl, hr⟩⟩
          · exact ⟨(hnd.mem_erase_iff.1 ha).1.symm, Or.inr (hl a (List.mem_of_mem_erase ha))⟩
        · rcases List.mem_cons.1 ha with rfl | ha
          · exact Or.inr fresh
          · exact Or.inl (List.mem_of_mem_erase ha)
  | forget k =>
    have hsub : ∀ a ∈ held.eraseIdx k, a ∈ held := fun a ha => List.mem_of_mem_eraseIdx ha
    exact ⟨.refl h hj, hnd.sublist (List.eraseIdx_sublist held k), fun a ha => hl a (hsub a ha),
      fun a ha => Or.inl (hsub a ha)⟩

/-- A piece of work takes back only what it holds. -/
theorem works_work (ops : List WorkOp) (h : Formed m) (hj : Justified m.log) (hr : Exists r m.log)
    (hnd : held.Nodup) (hl : ∀ a ∈ held, Live r a m.log) :
    Works r held m (work r ops held m).1 (work r ops held m).2 := by
  induction ops generalizing held m with
  | nil => exact .refl h hj hnd hl
  | cons op ops ih =>
    have hop := works_workOp op h hj hr hnd hl
    exact hop.trans (ih hop.frees.formed hop.frees.justified ((hop.frees.pools r).2 hr) hop.nodup
      hop.live)

end Memory

end PgPool
