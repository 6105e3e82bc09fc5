import PgPool.Lib.Before
import PgPool.Serial.Discipline

/-!
# The order of conflicting writes

A node lets a conflicting write wait until the transaction is over, and by the time that a child commits
anywhere, its write has been executed everywhere.  So two nodes that have both committed conflicting
writes have executed them in the same order, as long as no write is committed as soon as it is executed.
-/

namespace PgPool.Serial

open PgPool.Serial.System

/-- What is known of the order in which nodes have executed writes. -/
structure Ordered (env : Cluster) (fate : NodeId → WriteId → Fate) (order : NodeId → List WriteId) :
    Prop where
  executed : ∀ i w, w ∈ order i ↔
    fate i w = .pending ∨ fate i w = .committed ∨ fate i w = .aborted
  nodup : ∀ i, (order i).Nodup
  committed : ∀ i w, fate i w = .committed → SettledAll env fate w
  /-- A write is known everywhere when a conflicting one is executed. -/
  known : ∀ i a b, (order i).Before a b → env.conflicts a b →
    SettledAll env fate a ∨ fate i a = .aborted
  agree : ∀ i ∈ env.nodes, ∀ j ∈ env.nodes, ∀ a b, env.conflicts a b → (order i).Before a b →
    fate i a ≠ .aborted → fate j a ≠ .aborted → fate j a ≠ .rejected → fate j b ≠ .aborted →
      b ∈ order j → (order j).Before a b

section

variable {env : Cluster} {fate fate' : NodeId → WriteId → Fate} {order : NodeId → List WriteId}
  {k : NodeId} {w : WriteId}

theorem ordered_init : Ordered env System.init.fate System.init.order where
  executed := by simp [System.init]
  nodup _ := List.nodup_nil
  committed := by simp [System.init]
  known _ _ _ h := (List.not_before_nil h).elim
  agree _ _ _ _ _ _ _ h := (List.not_before_nil h).elim

/-- Transactions end, and writes are given up. -/
theorem Ordered.mono (h : Ordered env fate order)
    (later : ∀ i w, fate' i w = fate i w ∨
      fate i w = .pending ∧
        (fate' i w = .aborted ∨ fate' i w = .committed ∧ SettledAll env fate w) ∨
      fate i w = .unknown ∧ fate' i w = .rejected) : Ordered env fate' order := by
  have all : ∀ w, SettledAll env fate w → SettledAll env fate' w := by
    intro w hw i hi
    have := hw i hi
    have := later i w
    grind
  constructor
  · intro i w
    rw [h.executed i w]
    have := later i w
    grind
  · exact h.nodup
  · intro i w hw
    rcases later i w with heq | ⟨-, haborted | ⟨-, hall⟩⟩ | ⟨-, hrejected⟩
    · exact all w (h.committed i w (heq ▸ hw))
    · simp [hw] at haborted
    · exact all w hall
    · simp [hw] at hrejected
  · intro i a b hbefore hab
    refine (h.known i a b hbefore hab).imp (all a) fun haborted => ?_
    have := later i a
    grind
  · intro i hi j hj a b hab hbefore hia hja hja' hjb hb
    refine h.agree i hi j hj a b hab hbefore ?_ ?_ ?_ ?_ hb
    · have := later i a
      grind
    · have := later j a
      grind
    · have := later j a
      grind
    · have := later j b
      grind

theorem Ordered.mem_of_known (h : Ordered env fate order) {j : NodeId} {a : WriteId}
    (hknown : fate j a ≠ .unknown) (hrejected : fate j a ≠ .rejected) : a ∈ order j := by
  rw [h.executed]
  cases hfate : fate j a with
  | unknown => exact absurd hfate hknown
  | rejected => exact absurd hfate hrejected
  | pending => exact .inl rfl
  | committed => exact .inr (.inl rfl)
  | aborted => exact .inr (.inr rfl)

/-- Elsewhere a write that a node does not know yet comes behind the conflicting ones. -/
theorem Ordered.before_unknown (h : Ordered env fate order) (hk : k ∈ env.nodes)
    (hw : fate k w = .unknown) {j : NodeId} {a : WriteId} (haw : env.conflicts a w) (hne : a ≠ w)
    (ha : a ∈ order j) (hwj : w ∈ order j) (hfate : fate j w ≠ .aborted) : (order j).Before a w := by
  refine (List.before_total ha hwj hne).resolve_right fun hbefore => ?_
  obtain hall | haborted := h.known j w a hbefore ((env.symm w a).trans haw)
  · exact hall k hk hw
  · exact hfate haborted

/-- A write is executed when the conflicting ones are out of the way. -/
theorem Ordered.execute (h : Ordered env fate order) (hw : fate k w = .unknown)
    (free : ∀ a ∈ order k, env.conflicts a w → SettledAll env fate a ∨ fate k a = .aborted) :
    Ordered env (Function.update fate k (Function.update (fate k) w .pending))
      (Function.update order k (order k ++ [w])) := by
  set fate' := Function.update fate k (Function.update (fate k) w .pending) with hfate'
  set order' := Function.update order k (order k ++ [w]) with horder'
  have here : fate' k w = .pending := by simp [hfate']
  have there : ∀ j v, ¬(j = k ∧ v = w) → fate' j v = fate j v := by
    intro j v hjv
    by_cases hj : j = k
    · subst hj
      simp [hfate', show v ≠ w from fun hv => hjv ⟨rfl, hv⟩]
    · simp [hfate', hj]
  have grown : order' k = order k ++ [w] := by simp [horder']
  have same : ∀ j, j ≠ k → order' j = order j := fun j hj => by simp [horder', hj]
  have new : w ∉ order k := by simp [h.executed, hw]
  have old : ∀ a ∈ order k, fate' k a = fate k a := by
    intro a ha
    exact there k a fun hka => new (hka.2 ▸ ha)
  have all : ∀ v, SettledAll env fate v → SettledAll env fate' v := by
    intro v hv j hj
    by_cases hjv : j = k ∧ v = w
    · rw [hjv.1, hjv.2, here]
      decide
    · rw [there j v hjv]
      exact hv j hj
  constructor
  · intro j v
    by_cases hj : j = k
    · subst hj
      by_cases hv : v = w
      · simp [grown, hv, here]
      · simp [grown, hv, there j v (by simp [hv]), h.executed]
    · rw [same j hj, there j v (by simp [hj]), h.executed]
  · intro j
    by_cases hj : j = k
    · subst hj
      rw [grown, ← List.concat_eq_append]
      exact (h.nodup j).concat new
    · rw [same j hj]
      exact h.nodup j
  · intro j v hv
    by_cases hjv : j = k ∧ v = w
    · rw [hjv.1, hjv.2, here] at hv
      simp at hv
    · exact all v (h.committed j v (by rwa [there j v hjv] at hv))
  · intro j a b hbefore hab
    by_cases hj : j = k
    · subst hj
      rw [grown, List.before_concat] at hbefore
      rcases hbefore with hbefore | ⟨ha, rfl⟩
      · rw [old a hbefore.left_mem]
        exact (h.known j a b hbefore hab).imp (all a) id
      · rw [old a ha]
        exact (free a ha hab).imp (all a) id
    · rw [same j hj] at hbefore
      rw [there j a (by simp [hj])]
      exact (h.known j a b hbefore hab).imp (all a) id
  · intro i hi j hj a b hab hbefore hia hja hja' hjb hb
    by_cases hik : i = k
    · by_cases hjk : j = k
      · rwa [hjk, ← hik]
      · subst hik
        rw [same j hjk] at hb ⊢
        rw [there j a (by simp [hjk])] at hja hja'
        rw [there j b (by simp [hjk])] at hjb
        rw [grown, List.before_concat] at hbefore
        rcases hbefore with hbefore | ⟨ha, rfl⟩
        · rw [old a hbefore.left_mem] at hia
          exact h.agree i hi j hj a b hab hbefore hia hja hja' hjb hb
        · rw [old a ha] at hia
          -- the other node has executed the write, and the new one cannot have come first there
          have hknown := (free a ha hab).resolve_right hia j hj
          have hne : a ≠ b := fun hab' => new (hab' ▸ ha)
          exact h.before_unknown hi hw hab hne (h.mem_of_known hknown hja') hb hjb
    · rw [same i hik] at hbefore
      rw [there i a (by simp [hik])] at hia
      by_cases hjk : j = k
      · subst hjk
        have hall := (h.known i a b hbefore hab).resolve_right hia
        have hne : a ≠ w := by
          rintro rfl
          exact hall j hj hw
        rw [there j a (by simp [hne])] at hja hja'
        rw [grown, List.before_concat]
        rw [grown, List.mem_append, List.mem_singleton] at hb
        rcases hb with hb | rfl
        · rw [old b hb] at hjb
          exact .inl (h.agree i hi j hj a b hab hbefore hia hja hja' hjb hb)
        · exact .inr ⟨h.mem_of_known (hall j hj) hja', rfl⟩
      · rw [same j hjk] at hb ⊢
        rw [there j a (by simp [hjk])] at hja hja'
        rw [there j b (by simp [hjk])] at hjb
        exact h.agree i hi j hj a b hab hbefore hia hja hja' hjb hb

end

/-! ## Steps -/

/-- Writes of the simple protocol and the commands of `insert_lock` are sent inside of a transaction
block. -/
def Enclosed (s : System) : Event → Prop
  | .run c =>
      match (s.child c).pending with
      | .send i m :: _ => m.needsBlock → (s.server c i).inBlock
      | _ => True
  | _ => True

/-- What only says something of a message that is sent next is decided by that message. -/
def decideSent {P : NodeId → Msg → Prop} [∀ i m, Decidable (P i m)] :
    (ops : List Op) → Decidable (match ops with | .send i m :: _ => P i m | _ => True)
  | .send i m :: _ => inferInstanceAs (Decidable (P i m))
  | [] | .poll _ :: _ | .settle _ :: _ | .startInternal _ :: _ | .endInternal _ :: _
  | .mark .. :: _ | .assume .. :: _ | .status _ :: _ | .allowClose _ :: _ => .isTrue trivial

instance (s : System) : (e : Event) → Decidable (Enclosed s e)
  | .run c => decideSent (P := fun i m => m.needsBlock → (s.server c i).inBlock) (s.child c).pending
  | .request .. | .process .. | .abort .. | .close .. => .isTrue trivial

/-- They are still inside of it when the node gets to them. -/
def Blocked (s : System) : Prop :=
  ∀ c i m, s.queue c i = [m] → m.needsBlock → (s.server c i).inBlock

section

variable {env : Cluster} {s t : System} {c : ChildId} {i : NodeId} {m : Msg} {w : WriteId}

theorem Blocked.step (hd : Discipline env s) (h : Blocked s) {e : Event} (enclosed : Enclosed s e)
    (ht : s.step env e = some t) : Blocked t := by
  cases e with
  | request c r =>
    obtain ⟨-, hqueue, hserver⟩ := request_nodes ht
    intro d j m hq
    rw [hqueue] at hq
    rw [hserver]
    exact h d j m hq
  | run c =>
    obtain ⟨-, hserver, hqueue⟩ := run_connections ht
    intro d j m hq hm
    rw [hserver]
    rcases hqueue with hqueue | ⟨i, m', rest, hp, hqueue⟩
    · exact h d j m (by rwa [hqueue] at hq) hm
    · rw [hqueue, setQueue_queue] at hq
      split at hq
      · next hdj =>
        obtain ⟨rfl, rfl⟩ := hdj
        rw [hd.empty_of_send hp] at hq
        cases hq
        simp only [Enclosed, hp] at enclosed
        exact enclosed hm
      · exact h d j m hq hm
  | process c i o =>
    obtain ⟨m', rest, hq', -, hqueue, hserver, -⟩ := process_cases ht
    intro d j m hq hm
    rw [hqueue, setQueue_queue] at hq
    split at hq
    · simp [(hd.waiting hq').1] at hq
    · next hdj =>
      rw [hserver d j hdj]
      exact h d j m hq hm
  | abort c i =>
    cases ht
    obtain ⟨-, hqueue, hserver⟩ := abort_cases s c i
    intro d j m hq hm
    rw [hqueue] at hq
    rw [(hserver d j).1]
    exact h d j m hq hm
  | close c =>
    cases ht
    intro d j m hq hm
    by_cases hdc : d = c
    · subst hdc
      simp [System.close] at hq
    · simp only [System.close, Function.update_of_ne hdc] at hq ⊢
      exact h d j m hq hm

theorem Ordered.finish (h : Ordered env s.fate s.order) {fate : Fate}
    (hfate : fate = .committed ∨ fate = .aborted)
    (hall : fate = .committed → ∀ w, s.owner w = c → s.fate i w = .pending →
      SettledAll env s.fate w) : Ordered env (s.finish c i fate).fate (s.finish c i fate).order := by
  refine h.mono fun j w => ?_
  by_cases hj : j = i
  · subst hj
    simp only [System.finish, setFate_fate, if_true]
    grind
  · simp [System.finish, hj]

theorem Ordered.fail (h : Ordered env s.fate s.order) (c : ChildId) (i : NodeId) (m : Msg) :
    Ordered env (s.fail c i m).fate (s.fail c i m).order := by
  obtain ⟨server, heq | heq, -⟩ := fail_cases s c i m
  · rw [heq]
    exact h
  · rw [heq]
    exact h.finish (s := s) (.inr rfl) (by simp)

theorem Ordered.reject (h : Ordered env s.fate s.order) (hw : s.fate i w = .unknown) :
    Ordered env (s.reject i w).fate (s.reject i w).order := by
  refine h.mono fun j v => ?_
  simp only [System.reject, setFate_fate]
  by_cases hj : j = i
  · subst hj
    by_cases hv : v = w
    · simp [hv, hw]
    · simp [hv]
  · simp [hj]

/-- What a message commits is known on all nodes. -/
theorem Ordered.succeed (h : Ordered env s.fate s.order)
    (hcommits : m.commits → ∀ w, s.owner w = c → s.fate i w = .pending → SettledAll env s.fate w)
    (hblock : m.needsBlock → (s.server c i).inBlock) (ht : s.succeed c i m = some t) :
    Ordered env t.fate t.order := by
  obtain ⟨server, rfl | ⟨f, hf, rfl⟩, -⟩ := succeed_cases ht
  · exact h
  · refine h.finish (s := s) (hf.symm.imp And.left id) fun hcommitted => ?_
    rcases hf with rfl | ⟨-, hm | ⟨hm, hout⟩⟩
    · simp at hcommitted
    · exact hcommits hm
    · simp [hblock hm] at hout

/-- A write that does not have to wait meets only writes that are known everywhere. -/
theorem settled_of_lockFree (hd : Discipline env s) (h : Ordered env s.fate s.order)
    (hq : s.queue c i = [m]) (hm : m.write? = some w) (hfree : s.lockFree env c i w) :
    ∀ a ∈ s.order i, env.conflicts a w → SettledAll env s.fate a ∨ s.fate i a = .aborted := by
  obtain ⟨⟨hwriting, hu⟩, -⟩ := (hd.waiting hq).2.write w hm
  intro a ha hab
  have hknown := (h.executed i a).mp ha
  have hlt : a < s.next := by
    by_contra hge
    simp [hd.fresh i a (Nat.not_lt.mp hge)] at hknown
  have hne : a ≠ w := by
    rintro rfl
    simp [hu] at hknown
  simp only [System.lockFree, List.all_eq_true] at hfree
  have := hfree a ha
  by_cases howner : s.owner a = c
  · refine .inl (hd.settled a hlt fun hcur => hne ?_)
    rw [howner, hwriting] at hcur
    exact (Option.some.inj hcur).symm
  · have hpending : s.fate i a ≠ .pending := by simpa [howner, hab] using this
    rcases hknown with hp | hcommitted | haborted
    · exact (hpending hp).elim
    · exact .inl (h.committed i a hcommitted)
    · exact .inr haborted

theorem Ordered.process (hd : Discipline env s) (hblocked : Blocked s)
    (h : Ordered env s.fate s.order) {o : Outcome} (ht : s.process env c i o = some t) : Ordered env t.fate t.order := by
  unfold System.process at ht
  split at ht
  · simp at ht
  next m rest hq =>
  obtain ⟨rfl, hm⟩ := hd.waiting hq
  extract_lets u at ht
  split at ht
  · next w hw =>
    unfold System.writes at ht
    extract_lets server v at ht
    split at ht
    · simp at ht
    next hgo =>
    have hfree : s.lockFree env c i w := by
      simp only [Bool.or_eq_true, Bool.not_eq_true', not_or, Bool.not_eq_false] at hgo
      exact hgo.2
    have executed : Ordered env v.fate v.order :=
      h.execute (hm.write w hw).1.2 (settled_of_lockFree hd h hq hw hfree)
    split at ht
    · next hopen =>
      -- the node is in a transaction block
      simp only [Bool.and_eq_true, Bool.not_eq_true'] at hopen
      have : server.inBlock = true := hblocked c i m hq hopen.1
      simp [this] at hopen
    · rw [← Option.some.inj ht]
      exact executed
  · next w hw =>
    rw [← Option.some.inj ht]
    exact Ordered.fail (s := u.reject i w) (Ordered.reject (s := u) h (hm.write w hw).1.2) c i m
  · next w hw =>
    rw [← Option.some.inj ht]
    exact Ordered.reject (s := u) h (hm.write w hw).1.2
  · exact Ordered.succeed (s := u) h hm.commits (hblocked c i m hq) ht
  · rw [← Option.some.inj ht]
    exact Ordered.fail (s := u) h c i m
  · rw [← Option.some.inj ht]
    exact h

theorem Ordered.abort (h : Ordered env s.fate s.order) (c : ChildId) (i : NodeId) :
    Ordered env (s.abort c i).fate (s.abort c i).order := by
  unfold System.abort
  extract_lets server t
  have aborted : Ordered env t.fate t.order := h.finish (.inr rfl) (by simp)
  split
  · exact aborted
  · exact aborted

theorem Ordered.close (h : Ordered env s.fate s.order) (c : ChildId) :
    Ordered env (s.close c).fate (s.close c).order := by
  refine h.mono fun i w => ?_
  simp only [System.close]
  grind

theorem Ordered.step (hd : Discipline env s) (hblocked : Blocked s) (h : Ordered env s.fate s.order)
    {e : Event} (ht : s.step env e = some t) : Ordered env t.fate t.order := by
  cases e with
  | request c r =>
    obtain ⟨⟨hfate, horder⟩, -⟩ := request_nodes ht
    rwa [hfate, horder]
  | run c =>
    obtain ⟨⟨hfate, horder⟩, -⟩ := run_connections ht
    rwa [hfate, horder]
  | process c i o => exact h.process hd hblocked ht
  | abort c i =>
    cases ht
    exact h.abort c i
  | close c =>
    cases ht
    exact h.close c

end

/-! ## Runs -/

/-- Every node executes a write once, and nodes that have committed two conflicting writes have executed
them in the same order. -/
structure SerialisedAlike (env : Cluster) (s : System) : Prop where
  once : ∀ i, (s.order i).Nodup
  same : ∀ a b, env.conflicts a b → ∀ i ∈ env.nodes, ∀ j ∈ env.nodes,
    (∀ k ∈ [i, j], s.fate k a = .committed ∧ s.fate k b = .committed) →
      ((s.order i).Before a b ↔ (s.order j).Before a b)

theorem Ordered.serialisedAlike {env : Cluster} {s : System} (h : Ordered env s.fate s.order) :
    SerialisedAlike env s where
  once := h.nodup
  same a b hab i hi j hj hcommitted := by
    obtain ⟨hia, hib⟩ := hcommitted i (by simp)
    obtain ⟨hja, hjb⟩ := hcommitted j (by simp)
    constructor
    · intro hbefore
      exact h.agree i hi j hj a b hab hbefore (by simp [hia]) (by simp [hja]) (by simp [hja])
        (by simp [hjb]) (by simp [h.executed, hjb])
    · intro hbefore
      exact h.agree j hj i hi a b hab hbefore (by simp [hja]) (by simp [hia]) (by simp [hia])
        (by simp [hib]) (by simp [h.executed, hib])

/-- As long as the writes of the simple protocol are sent inside of a transaction block, nodes commit
conflicting writes in the same order. -/
theorem serialisedAlike_of_enclosed (env : Cluster) (s : System)
    (run : Transition.Run (System.step env) Enclosed System.init s) : SerialisedAlike env s := by
  have : Discipline env s ∧ Blocked s ∧ Ordered env s.fate s.order := by
    refine run.invariant (I := fun s => Discipline env s ∧ Blocked s ∧ Ordered env s.fate s.order) ?_
      ⟨discipline_init, fun _ _ _ h => by simp [System.init] at h, ordered_init⟩
    rintro s e t ⟨hd, hblocked, h⟩ enclosed ht
    exact ⟨hd.step ht, hblocked.step hd enclosed ht, h.step hd hblocked ht⟩
  exact this.2.2.serialisedAlike

theorem nodup_twoChildren : ([0, 1] : List NodeId).Nodup := by decide

/-- Two children, two nodes, and every write conflicts with every other. -/
def twoChildren : Cluster where
  master := 0
  others := [1]
  nodup := nodup_twoChildren
  numInitChildren := 2
  conflicts _ _ := true
  symm _ _ := rfl

/-- A child goes on until a node answers. -/
def answered (c : ChildId) (n : Nat) (i : NodeId) : List Event :=
  List.replicate n (.run c) ++ [.process c i .ok]

/-- A write in an internal transaction. -/
def internalWrite (c : ChildId) (w : WriteId) : List Event :=
  .request c (.query (.write w) false) ::
    (answered c 3 0 ++ answered c 5 1 ++ answered c 4 0 ++ answered c 2 1 ++ answered c 5 1 ++
      answered c 4 0)

theorem serialisedAlike_internalWrite :
    ∃ s, Transition.runAll (System.step twoChildren) (internalWrite 0 0 ++ List.replicate 4 (.run 0) ++
      internalWrite 1 1) System.init = some s ∧ SerialisedAlike twoChildren s := by
  have hsome : (Transition.runAll (System.step twoChildren) (internalWrite 0 0 ++
      List.replicate 4 (.run 0) ++ internalWrite 1 1) System.init).isSome = true := by decide +kernel
  obtain ⟨s, hs⟩ := Option.isSome_iff_exists.mp hsome
  exact ⟨s, hs, serialisedAlike_of_enclosed twoChildren s (.of_runAll hs (by decide +kernel))⟩

/-- The client of a child parses an INSERT and disconnects. -/
def abandonedInsert (c : ChildId) : List Event :=
  .request c (.parse true false) ::
    (answered c 3 0 ++ answered c 1 1 ++ answered c 5 0 ++ answered c 5 1 ++ answered c 7 0 ++
      answered c 1 1 ++ [.run c]) ++
  .request c .reset ::
    (answered c 4 0 ++ answered c 1 1 ++ answered c 7 0 ++ answered c 1 1 ++
      List.replicate 5 (.run c))

/-- The next client's write is not in a transaction, and on the second node another one overtakes
it. -/
def overtaken : List Event :=
  abandonedInsert 0 ++ .request 0 (.query (.write 0) false) :: (answered 0 4 0 ++
    List.replicate 2 (.run 0)) ++ internalWrite 1 1 ++ [.process 0 1 .ok]

theorem overtaken_not_serialisedAlike :
    ∃ s, Transition.runAll (System.step twoChildren) overtaken System.init = some s ∧
      Transition.Run (System.step twoChildren) Transition.Any System.init s ∧
      ¬ SerialisedAlike twoChildren s := by
  have hend : (Transition.runAll (System.step twoChildren) overtaken System.init).any (fun s =>
      decide ((∀ i ∈ twoChildren.nodes, ∀ w < 2, s.fate i w = .committed) ∧
        (s.order 0).Before 0 1 ∧ ¬(s.order 1).Before 0 1)) = true := by
    decide +kernel
  obtain ⟨s, hs, hdone⟩ := (Option.any_eq_true _ _).mp hend
  obtain ⟨hcommitted, hfirst, hsecond⟩ := of_decide_eq_true hdone
  refine ⟨s, hs, .of_runAll hs (Transition.holds_any _ _), fun h => hsecond ?_⟩
  have same := h.same 0 1 rfl 0 (by decide) 1 (by decide)
    fun k hk => ⟨hcommitted k hk 0 (by decide), hcommitted k hk 1 (by decide)⟩
  exact same.mp hfirst

end PgPool.Serial
