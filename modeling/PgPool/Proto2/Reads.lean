import PgPool.Proto2.Handlers

/-!
# What a computation reads from each node

`Reads nodes b x a o v`: when each node has `a` to say next, `x` takes exactly that off every stream,
writes `o` to the frontend and returns `v`.  The flag `b` tells that `pool_read2` has a buffer for the
master.  The rules follow the handlers: sequence, and loops over nodes.
-/

namespace PgPool.Proto2

variable {β γ : Type} {nodes : Nodes} {b : Bool}

def Reads (nodes : Nodes) (b : Bool) (x : Act β) (a : Nat → List UInt8) (o : List UInt8) (v : β) :
    Prop :=
  ∀ (s : Relay) (t : Nat → List UInt8), (∀ i ∈ nodes.valid, s.backends i = a i ++ t i) →
    (b = true → s.buf2 nodes.master = true) →
    ∃ s', x s = some (v, s') ∧ s'.out = s.out ++ o ∧ (∀ i ∈ nodes.valid, s'.backends i = t i) ∧
      (b = true → s'.buf2 nodes.master = true)

/-- Bytes of one node. -/
def only (i : Nat) (w : List UInt8) (j : Nat) : List UInt8 := if j = i then w else []

@[simp] theorem only_self (i : Nat) (w : List UInt8) : only i w i = w := if_pos rfl

theorem only_of_ne {i j : Nat} (w : List UInt8) (h : j ≠ i) : only i w j = [] := if_neg h

theorem Reads.congr {x : Act β} {a a' : Nat → List UInt8} {o o' : List UInt8} {v v' : β}
    (h : Reads nodes b x a o v) (ha : ∀ i ∈ nodes.valid, a' i = a i) (ho : o' = o) (hv : v' = v) :
    Reads nodes b x a' o' v' := by
  intro s t hs hb
  subst ho hv
  exact h s t (fun i hi => by rw [hs i hi, ha i hi]) hb

theorem Reads.pure (v : β) : Reads nodes b (pure v) (fun _ => []) [] v := by
  intro s t hs hb
  exact ⟨s, rfl, (List.append_nil _).symm, hs, hb⟩

theorem Reads.bind {x : Act β} {f : β → Act γ} {a c : Nat → List UInt8} {o p : List UInt8} {v : β}
    {w : γ} (hx : Reads nodes b x a o v) (hf : Reads nodes b (f v) c p w) :
    Reads nodes b (x >>= f) (fun i => a i ++ c i) (o ++ p) w := by
  intro s t hs hb
  obtain ⟨s', hx', hout, hback, hb'⟩ := hx s (fun i => c i ++ t i)
    (fun i hi => by rw [hs i hi, List.append_assoc]) hb
  obtain ⟨s'', hf', hout', hback', hb''⟩ := hf s' t hback hb'
  refine ⟨s'', ?_, by rw [hout', hout, List.append_assoc], hback', hb''⟩
  show (x s).bind (fun q => f q.1 q.2) = _
  rw [hx']
  exact hf'

theorem reads_poolWrite (o : List UInt8) : Reads nodes b (poolWrite o) (fun _ => []) o () := by
  intro s t hs hb
  exact ⟨_, rfl, rfl, hs, hb⟩

theorem reads_poolRead {i n : Nat} {w : List UInt8} (hi : i ∈ nodes.valid) (hw : w.length = n) :
    Reads nodes b (poolRead i n) (only i w) [] w := by
  intro s t hs hb
  have hback := hs i hi
  rw [only_self] at hback
  have hlen : n ≤ (s.backends i).length := by
    rw [hback, List.length_append]
    omega
  refine ⟨{ s with backends := fun j => if j = i then t i else s.backends j }, ?_,
    (List.append_nil _).symm, ?_, hb⟩
  · unfold poolRead
    rw [if_neg (Nat.not_lt.mpr hlen), hback, List.take_left' hw, List.drop_left' hw]
  · intro j hj
    show (if j = i then t i else s.backends j) = t j
    by_cases hji : j = i
    · rw [if_pos hji, hji]
    · rw [if_neg hji, hs j hj, only_of_ne w hji]
      rfl

theorem reads_poolRead2 {i n : Nat} {w : List UInt8} (hi : i ∈ nodes.valid) (hw : w.length = n)
    (hbuf : 0 < n ∨ (b = true ∧ i = nodes.master)) :
    Reads nodes b (poolRead2 i n) (only i w) [] w := by
  intro s t hs hb
  have hready : ¬ (n = 0 ∧ s.buf2 i = false) := by
    intro h
    obtain hn | ⟨hbt, him⟩ := hbuf
    · omega
    · rw [him, hb hbt] at h
      cases h.2
  obtain ⟨s', hread, hrest⟩ := reads_poolRead hi hw
    { s with buf2 := fun j => if j = i then true else s.buf2 j } t hs (fun hbt => by
      show (if nodes.master = i then true else s.buf2 nodes.master) = true
      rw [hb hbt]
      split <;> rfl)
  refine ⟨s', ?_, hrest⟩
  unfold poolRead2
  rw [if_neg hready]
  exact hread

theorem takeWhile_string {w t : List UInt8} (hw : 0 ∉ w) :
    ((w ++ [0] ++ t).takeWhile (· ≠ 0)).length = w.length := by
  rw [List.append_assoc, List.takeWhile_append_of_pos (fun x hx => by
    rw [decide_eq_true_iff]
    exact ne_of_mem_of_not_mem hx hw)]
  simp

theorem reads_poolReadString {i : Nat} {w : List UInt8} (hi : i ∈ nodes.valid) (hw : 0 ∉ w) :
    Reads nodes b (poolReadString i) (only i (w ++ [0])) [] (w ++ [0]) := by
  intro s t hs hb
  obtain ⟨s', hread, hrest⟩ := @reads_poolRead nodes b i (w.length + 1) (w ++ [0]) hi (by simp) s t hs hb
  refine ⟨s', ?_, hrest⟩
  unfold poolReadString
  rw [hs i hi, only_self, takeWhile_string hw]
  exact hread

/-- A loop over nodes, each of which is read once. -/
theorem reads_each {act : Nat → β → Act β} {w : Nat → List UInt8} {v : Nat → β → β} {is : List Nat}
    (hnodup : is.Nodup) (hact : ∀ j ∈ is, ∀ last, Reads nodes b (act j last) (only j (w j)) [] (v j last))
    (last : β) :
    Reads nodes b (each act is last) (fun i => if i ∈ is then w i else []) []
      (is.foldl (fun last j => v j last) last) := by
  induction is generalizing last with
  | nil => exact (Reads.pure last).congr (fun _ _ => if_neg List.not_mem_nil) rfl rfl
  | cons i is ih =>
    obtain ⟨hi, hnodup⟩ := List.nodup_cons.mp hnodup
    have htail := ih hnodup (fun j hj => hact j (List.mem_cons_of_mem _ hj)) (v i last)
    refine ((hact i List.mem_cons_self last).bind htail).congr ?_ rfl rfl
    intro j _
    show (if j ∈ i :: is then w j else []) = only i (w i) j ++ if j ∈ is then w j else []
    by_cases hji : j = i
    · rw [hji, only_self, if_pos List.mem_cons_self, if_neg hi, List.append_nil]
    · rw [only_of_ne _ hji, List.nil_append]
      simp [hji]

/-- The value read last. -/
theorem foldl_last {v : Nat → β} (is : List Nat) (last : β) :
    is.foldl (fun _ j => v j) last = (is.getLast?.map v).getD last := by
  induction is generalizing last with
  | nil => rfl
  | cons i is ih =>
    rw [List.foldl_cons, ih]
    cases is with
    | nil => rfl
    | cons j js => simp [List.getLast?_cons]

theorem mem_others {i : Nat} : i ∈ nodes.others ↔ i ∈ nodes.valid ∧ i ≠ nodes.master := by
  simp [Nodes.others]

theorem nodup_others : nodes.others.Nodup := nodes.nodup.filter _

/-- The master, and then the others. -/
theorem master_then_others {w : Nat → List UInt8} {i : Nat} (hi : i ∈ nodes.valid) :
    w i = only nodes.master (w nodes.master) i ++ if i ∈ nodes.others then w i else [] := by
  by_cases him : i = nodes.master
  · have hno : i ∉ nodes.others := fun h => (mem_others.mp h).2 him
    rw [if_neg hno, List.append_nil, him, only_self]
  · rw [only_of_ne _ him, if_pos (mem_others.mpr ⟨hi, him⟩), List.nil_append]

/-- What the master has sent is read and kept, as much is read from the others, and it is written. -/
theorem reads_forward {x : Act β} {f : β → Act γ} {w : Nat → List UInt8} {o : List UInt8} {v : β} {u : γ}
    (hmaster : Reads nodes b x (only nodes.master (w nodes.master)) [] v)
    (hothers : Reads nodes b (f v) (fun i => if i ∈ nodes.others then w i else []) o u) :
    Reads nodes b (x >>= f) w o u :=
  (hmaster.bind hothers).congr (fun _ hi => master_then_others hi) rfl rfl

theorem reads_forwardFixed {w : Nat → List UInt8} {n : Nat} (hw : ∀ i ∈ nodes.valid, (w i).length = n) :
    Reads nodes b (forwardFixed nodes n) w (w nodes.master) () := by
  refine reads_forward (reads_poolRead nodes.master_mem (hw _ nodes.master_mem)) ?_
  have hothers := @reads_each _ nodes b (fun j _ => poolRead j n) w (fun j _ => w j) nodes.others
    nodup_others (fun j hj _ => reads_poolRead (mem_others.mp hj).1 (hw j (mem_others.mp hj).1))
    (w nodes.master)
  exact (hothers.bind (reads_poolWrite (w nodes.master))).congr
    (fun _ _ => (List.append_nil _).symm) rfl rfl

end PgPool.Proto2
