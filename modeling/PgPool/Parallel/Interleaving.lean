import PgPool.Parallel.Replies

/-!
# The order in which replies are read

A node is read in the wait of `select` in which its reply has become readable, unless an earlier one
has left a mark that it shares.  The nodes of one wait are read in the order of their numbers.
-/

namespace PgPool.Parallel

/-- The replies to one query, and when they become readable.  What follows a reply on a connection is
whatever the node says next. -/
structure Interleaving where
  b : Backends
  reply : Nat → Reply
  after : Nat → List Message
  /-- The reply of a node can be read when `select` has returned so many times. -/
  turn : Nat → Nat
  waits : Nat
  turn_lt : ∀ i, i < b.numBackends → b.valid i = true → turn i < waits
  fd_lt : ∀ i, i < b.numBackends → b.valid i = true → b.fd i < fdSetsize
  fd_inj : ∀ i j, i < b.numBackends → j < b.numBackends → b.valid i = true → b.valid j = true →
    b.fd i = b.fd j → i = j

namespace Interleaving

variable {s : Interleaving} {i j k : Nat}

def nodes (s : Interleaving) : List Nat := (List.range s.b.numBackends).filter s.b.valid

theorem mem_nodes : i ∈ s.nodes ↔ i < s.b.numBackends ∧ s.b.valid i = true := by
  rw [nodes, List.mem_filter, List.mem_range]

/-- The descriptors that can be read in the wait `k`. -/
def readable (s : Interleaving) (k fd : Nat) : Bool :=
  s.nodes.any fun i => s.b.fd i == fd && decide (s.turn i ≤ k)

def start (s : Interleaving) : Exec :=
  ⟨fun i => (s.reply i).messages ++ s.after i, [], 0, 0, 0, zeroFd⟩

/-- The run of `pool_parallel_exec` on the interleaving. -/
def outcome (s : Interleaving) : Outcome :=
  poolParallelExec s.b true (fun i => (s.reply i).messages ++ s.after i)
    ((List.range' 0 s.waits).map s.readable)

/-- A node whose mark is set before its reply is readable. -/
def Masked (s : Interleaving) (j : Nat) : Prop :=
  ∃ i ∈ s.nodes, s.turn i < s.turn j ∧ s.b.fd i % 64 = s.b.fd j % 64

instance (s : Interleaving) (j : Nat) : Decidable (s.Masked j) := by
  unfold Masked
  infer_instance

/-- The nodes that are read in the wait `k`. -/
def group (s : Interleaving) (k : Nat) : List Nat :=
  s.nodes.filter fun j => s.turn j == k && !decide (s.Masked j)

/-- The nodes that are read, in order. -/
def served (s : Interleaving) : List Nat := (List.range' 0 s.waits).flatMap s.group

/-- The valid nodes in the order in which their replies become readable. -/
def order (s : Interleaving) : List Nat :=
  (List.range' 0 s.waits).flatMap fun k => s.nodes.filter fun j => s.turn j == k

/-! ## Marks -/

/-- The marks when the waits before `k` are over. -/
def Marked (s : Interleaving) (k : Nat) (donemask : Donemask) : Prop :=
  ∀ j ∈ s.nodes, issetFd (s.b.fd j) donemask = true ↔
    ∃ i ∈ s.nodes, s.turn i < k ∧ s.b.fd i % 64 = s.b.fd j % 64

theorem donemask_getBody {b : Backends} {send : Bool} {ms : List Message} {e e' : Exec}
    (h : getBody b send i ms e = .next e') : e'.donemask = setFd (b.fd i) e.donemask := by
  induction ms generalizing e with
  | nil => cases h
  | cons m rest ih =>
    have hforward : ∀ (send : Bool) (e : Exec),
        (e.parallelForwardToFrontend m send).donemask = e.donemask := by
      intro send e
      unfold Exec.parallelForwardToFrontend
      split <;> rfl
    rw [getBody] at h
    simp only at h
    split at h
    · cases h
    split at h
    · cases h
      split
      · exact congrArg (setFd _) (hforward ..)
      · exact congrArg (setFd _) (hforward ..)
    split at h
    · cases h
      exact congrArg (setFd _) (hforward ..)
    split at h
    · cases h
    rw [ih h, hforward]
    split <;> rfl

theorem donemask_getHeader {b : Backends} {send : Bool} {e e' : Exec}
    (h : getHeader b send i e = .next e') : e'.donemask = setFd (b.fd i) e.donemask := by
  have hforward : ∀ (m : Message) (send : Bool) (e : Exec),
      (e.parallelForwardToFrontend m send).donemask = e.donemask := by
    intro m send e
    unfold Exec.parallelForwardToFrontend
    split <;> rfl
  unfold getHeader at h
  split at h
  · cases h
  simp only at h
  split at h
  · split at h
    · cases h
    · cases h
      exact congrArg (setFd _) (hforward ..)
  · rw [donemask_getBody h, hforward]
    rfl

theorem issetFd_inTurn {b : Backends} {send : Bool} {nodes : List Nat} {e e' : Exec} {fd : Nat}
    (h : inTurn b send nodes e = .next e') (hnodes : ∀ i ∈ nodes, b.fd i < fdSetsize)
    (hfd : fd < fdSetsize) : issetFd fd e'.donemask = true ↔
      issetFd fd e.donemask = true ∨ ∃ i ∈ nodes, b.fd i % 64 = fd % 64 := by
  induction nodes generalizing e with
  | nil =>
    cases h
    simp
  | cons i nodes ih =>
    obtain ⟨hi, hnodes⟩ := List.forall_mem_cons.mp hnodes
    rw [inTurn] at h
    cases hread : getHeader b send i e with
    | next e₁ =>
      rw [hread] at h
      rw [ih h hnodes, donemask_getHeader hread, issetFd_setFd hi hfd, Bool.or_eq_true, beq_iff_eq,
        List.exists_mem_cons_iff, or_assoc]
    | returned status e₁ =>
      rw [hread] at h
      cases h
    | waiting e₁ =>
      rw [hread] at h
      cases h

/-! ## Waits -/

theorem answers_eq_inTurn {b : Backends} {send : Bool} {mask is : List Nat} {e : Exec} :
    answers b send mask is e =
      inTurn b send (is.filter fun i => b.valid i && mask.contains (b.fd i)) e := by
  induction is generalizing e with
  | nil => rfl
  | cons i is ih =>
    rw [answers]
    cases hread : b.valid i && mask.contains (b.fd i) with
    | false =>
      rw [List.filter_cons, hread, if_neg Bool.false_ne_true, ← Bool.not_and, hread,
        if_pos Bool.not_false]
      exact ih
    | true =>
      rw [List.filter_cons, hread, if_pos rfl, ← Bool.not_and, hread, Bool.not_true,
        if_neg Bool.false_ne_true, inTurn]
      cases getHeader b send i e with
      | next e => exact ih
      | returned status e => rfl
      | waiting e => rfl

theorem mem_readmask {donemask : Donemask} (hj : j ∈ s.nodes) :
    s.b.fd j ∈ (readmask s.b donemask).filter (s.readable k) ↔
      issetFd (s.b.fd j) donemask = false ∧ s.turn j ≤ k := by
  obtain ⟨hlt, hvalid⟩ := mem_nodes.mp hj
  rw [List.mem_filter, readmask, List.mem_map, readable, List.any_eq_true]
  constructor
  · intro ⟨⟨i, hi, hfd⟩, i', hi', hready⟩
    rw [Bool.and_eq_true, beq_iff_eq, decide_eq_true_eq] at hready
    obtain ⟨hlt', hvalid'⟩ := mem_nodes.mp hi'
    rw [List.mem_filter, Bool.and_eq_true, Bool.not_eq_true'] at hi
    rw [← s.fd_inj i' j hlt' hlt hvalid' hvalid hready.1, hready.1, ← hfd]
    exact ⟨hi.2.2, hready.2⟩
  · intro ⟨hfree, hturn⟩
    refine ⟨⟨j, ?_, rfl⟩, j, hj, ?_⟩
    · rw [List.mem_filter, List.mem_range, hvalid, hfree]
      exact ⟨hlt, rfl⟩
    · rw [Bool.and_eq_true, beq_iff_eq, decide_eq_true_eq]
      exact ⟨rfl, hturn⟩

/-- What one wait reads. -/
theorem answers_eq {e : Exec} (hmarked : s.Marked k e.donemask) :
    answers s.b true ((readmask s.b e.donemask).filter (s.readable k)) (List.range s.b.numBackends) e =
      inTurn s.b true (s.group k) e := by
  rw [answers_eq_inTurn, group, nodes, List.filter_filter]
  congr 1
  refine List.filter_congr fun j hj => ?_
  cases hvalid : s.b.valid j with
  | false => rw [Bool.false_and, Bool.and_false]
  | true =>
    have hj : j ∈ s.nodes := mem_nodes.mpr ⟨List.mem_range.mp hj, hvalid⟩
    rw [Bool.true_and, Bool.and_true, Bool.eq_iff_iff, List.contains_iff_mem, mem_readmask hj,
      Bool.and_eq_true, beq_iff_eq, Bool.not_eq_true', decide_eq_false_iff_not, Masked,
      Bool.eq_false_iff, ne_eq, hmarked j hj]
    constructor
    · intro ⟨hfree, hle⟩
      have hturn : s.turn j = k := by
        by_contra hne
        exact hfree ⟨j, hj, by omega, rfl⟩
      exact ⟨hturn, hturn.symm ▸ hfree⟩
    · intro ⟨hturn, hfree⟩
      exact ⟨hturn ▸ hfree, Nat.le_of_eq hturn⟩

theorem Marked.next {e e' : Exec} (hmarked : s.Marked k e.donemask)
    (h : inTurn s.b true (s.group k) e = .next e') : s.Marked (k + 1) e'.donemask := by
  intro j hj
  obtain ⟨hlt, hvalid⟩ := mem_nodes.mp hj
  have hgroup : ∀ i ∈ s.group k, i ∈ s.nodes ∧ s.turn i = k := by
    intro i hi
    rw [group, List.mem_filter, Bool.and_eq_true, beq_iff_eq] at hi
    exact ⟨hi.1, hi.2.1⟩
  have hfds : ∀ i ∈ s.group k, s.b.fd i < fdSetsize := by
    intro i hi
    obtain ⟨hlt, hvalid⟩ := mem_nodes.mp (hgroup i hi).1
    exact s.fd_lt i hlt hvalid
  rw [issetFd_inTurn h hfds (s.fd_lt j hlt hvalid), hmarked j hj]
  constructor
  · rintro (⟨i, hi, hturn, hsame⟩ | ⟨i, hi, hsame⟩)
    · exact ⟨i, hi, by omega, hsame⟩
    · obtain ⟨hmem, hturn⟩ := hgroup i hi
      exact ⟨i, hmem, by omega, hsame⟩
  · intro ⟨i, hi, hturn, hsame⟩
    by_cases hmasked : s.Masked i
    · obtain ⟨i', hi', hbefore, hshared⟩ := hmasked
      exact .inl ⟨i', hi', by omega, hshared.trans hsame⟩
    · by_cases hnow : s.turn i = k
      · refine .inr ⟨i, ?_, hsame⟩
        rw [group, List.mem_filter, Bool.and_eq_true, beq_iff_eq, Bool.not_eq_true',
          decide_eq_false_iff_not]
        exact ⟨hi, hnow, hmasked⟩
      · exact .inl ⟨i, hi, by omega, hsame⟩

theorem receive_eq {e : Exec} (n : Nat) (hmarked : s.Marked k e.donemask) :
    receive s.b true ((List.range' k n).map s.readable) e =
      match inTurn s.b true ((List.range' k n).flatMap s.group) e with
      | .next e => .waiting e
      | o => o := by
  induction n generalizing k e with
  | zero => rfl
  | succ n ih =>
    rw [List.range'_succ, List.map_cons, List.flatMap_cons, receive, answers_eq hmarked, inTurn_append]
    cases hread : inTurn s.b true (s.group k) e with
    | next e' => exact ih (hmarked.next hread)
    | returned status e' => rfl
    | waiting e' => rfl

theorem outcome_eq : s.outcome =
    match inTurn s.b true s.served s.start with
    | .next e => .waiting e
    | o => o := by
  refine receive_eq s.waits fun j _ => ?_
  simp [issetFd_zeroFd]

/-! ## Who is read -/

theorem mem_order : j ∈ s.order ↔ j ∈ s.nodes := by
  rw [order, List.mem_flatMap]
  constructor
  · intro ⟨k, _, hj⟩
    exact (List.mem_filter.mp hj).1
  · intro hj
    obtain ⟨hlt, hvalid⟩ := mem_nodes.mp hj
    have hturn := s.turn_lt j hlt hvalid
    refine ⟨s.turn j, ?_, List.mem_filter.mpr ⟨hj, beq_self_eq_true _⟩⟩
    rw [List.mem_range'_1]
    omega

theorem nodup_nodes : s.nodes.Nodup := List.nodup_range.filter _

theorem nodup_order : s.order.Nodup := by
  refine List.nodup_flatMap.mpr ⟨fun k _ => nodup_nodes.filter _, ?_⟩
  have hne : (List.range' 0 s.waits).Pairwise (· ≠ ·) := List.nodup_range'
  refine hne.imp fun {k k'} hne => ?_
  intro j hj hj'
  rw [List.mem_filter, beq_iff_eq] at hj hj'
  exact hne (hj.2.symm.trans hj'.2)

theorem order_perm (s : Interleaving) : s.order.Perm s.nodes :=
  (List.perm_ext_iff_of_nodup nodup_order nodup_nodes).mpr fun _ => mem_order

theorem served_eq : s.served = s.order.filter fun j => !decide (s.Masked j) := by
  rw [served, order, List.filter_flatMap]
  refine List.flatMap_congr fun k _ => ?_
  rw [group, List.filter_filter]
  exact List.filter_congr fun j _ => Bool.and_comm ..

theorem nodup_served : s.served.Nodup := by
  rw [served_eq]
  exact nodup_order.filter _

theorem length_nodes_le : s.nodes.length ≤ s.b.numBackends := by
  have hle := List.length_filter_le s.b.valid (List.range s.b.numBackends)
  rwa [List.length_range] at hle

theorem length_served_le : s.served.length ≤ s.b.numBackends := by
  rw [served_eq]
  refine Nat.le_trans (List.length_filter_le ..) ?_
  rw [s.order_perm.length_eq]
  exact length_nodes_le

/-- All the configured nodes are read if they are all valid and none is masked. -/
theorem length_served_eq_iff : s.served.length = s.b.numBackends ↔
    (∀ i < s.b.numBackends, s.b.valid i = true) ∧ ∀ j ∈ s.nodes, ¬ s.Masked j := by
  have hnodes : s.nodes.length = s.b.numBackends ↔ ∀ i < s.b.numBackends, s.b.valid i = true := by
    have hfull := @List.length_filter_eq_length_iff _ s.b.valid (List.range s.b.numBackends)
    rw [List.length_range] at hfull
    rw [nodes, hfull]
    simp only [List.mem_range]
  have hserved : s.served.length = s.nodes.length ↔ ∀ j ∈ s.nodes, ¬ s.Masked j := by
    rw [served_eq, ← s.order_perm.length_eq, List.length_filter_eq_length_iff]
    simp only [Bool.not_eq_true', decide_eq_false_iff_not, mem_order]
  have hle : s.served.length ≤ s.nodes.length := by
    rw [served_eq, ← s.order_perm.length_eq]
    exact List.length_filter_le ..
  rw [← hnodes, ← hserved]
  have hbound := s.length_nodes_le
  constructor
  · intro heq
    exact ⟨by omega, by omega⟩
  · intro ⟨hall, heq⟩
    omega

end Interleaving

end PgPool.Parallel
