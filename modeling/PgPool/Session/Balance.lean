import PgPool.Config
import Mathlib.Algebra.Order.Ring.Rat
import Mathlib.Algebra.BigOperators.Group.List.Basic
import Mathlib.Tactic.Linarith
import Mathlib.Tactic.Ring

/-!
# Load balancing

How the weights of the configuration are normalised, how a node is drawn by its weight, and what becomes of
the drawn node in a session.  `double` is taken for the rational numbers.
-/

namespace PgPool.Balance

/-! ## Weights -/

/-- What `pool_get_config` has read of a slot.  A negative weight is refused. -/
structure Slot where
  backendPort : Nat
  unnormalizedWeight : ℚ
  nonneg : 0 ≤ unnormalizedWeight

/-- `RAND_MAX`. -/
def randMax : ℚ := 2 ^ 31 - 1

/-- A port of 0 indicates that the server is out of use. -/
def Slot.inUse (s : Slot) : Bool := s.backendPort != 0

def totalUnnormalized (slots : List Slot) : ℚ := ((slots.filter Slot.inUse).map Slot.unnormalizedWeight).sum

/-- A division that has a result. -/
def divide (a b : ℚ) : Option ℚ := if b = 0 then none else some (a / b)

/-- `backend_weight` of one slot; `clear_host_entry` sets it to 0. -/
def Slot.backendWeight (total : ℚ) (s : Slot) : Option ℚ :=
  if s.inUse then divide (randMax * s.unnormalizedWeight) total else some 0

/-- Normalize load balancing weights.  `none`: a division by zero. -/
def backendWeights (slots : List Slot) : Option (List ℚ) :=
  slots.mapM (Slot.backendWeight (totalUnnormalized slots))

/-- `NUM_BACKENDS`: behind the last slot in use. -/
def numBackends (slots : List Slot) : Nat :=
  slots.length - (slots.reverse.takeWhile fun s => !s.inUse).length

/-! ## The draw -/

/-- What `select_load_balancing_node` reads: `VALID_BACKEND`, the weights and `MASTER_NODE_ID`. -/
structure Nodes where
  numBackends : Nat
  valid : Nat → Bool
  weight : Nat → ℚ
  master : Nat

namespace Nodes

variable (ns : Nodes)

/-- `total_weight` in front of a node. -/
def before : Nat → ℚ
  | 0 => 0
  | i + 1 => before i + if ns.valid i then ns.weight i else 0

/-- The first loop. -/
def totalWeight : ℚ := ns.before ns.numBackends

/-- The second loop, with `left` nodes left, from node `i` on. -/
def selectLoop (r : ℚ) : Nat → Nat → ℚ → Nat → Nat
  | 0, _, _, selected => selected
  | left + 1, i, total, selected =>
    if ns.valid i ∧ 0 < ns.weight i then
      if total ≤ r then selectLoop r left (i + 1) (total + ns.weight i) i else selected
    else selectLoop r left (i + 1) total selected

/-- `select_load_balancing_node` for a draw `r`. -/
def select (r : ℚ) : Nat := ns.selectLoop r ns.numBackends 0 0 ns.master

/-- `select_load_balancing_node`; `x` is `random() / RAND_MAX`. -/
def selectLoadBalancingNode (x : ℚ) : Nat := ns.select (x * ns.totalWeight)

/-- A node that can be drawn. -/
def Eligible (i : Nat) : Prop := i < ns.numBackends ∧ ns.valid i = true ∧ 0 < ns.weight i

/-- The draws that belong to a node: as many as its weight, and the end of them all for the last. -/
def Interval (i : Nat) (r : ℚ) : Prop :=
  ns.before i ≤ r ∧ (r < ns.before i + ns.weight i ∨ r = ns.totalWeight ∧ ns.before i + ns.weight i = r)

/-- Each draw selects the node whose interval it is in. -/
def Shares : Prop :=
  0 < ns.totalWeight → ∀ r, 0 ≤ r → r ≤ ns.totalWeight →
    ns.Eligible (ns.select r) ∧ ∀ i, ns.Eligible i → (ns.select r = i ↔ ns.Interval i r)

variable {ns} {r : ℚ}

theorem before_mono (hw : ∀ i, 0 ≤ ns.weight i) {i j : Nat} (h : i ≤ j) : ns.before i ≤ ns.before j := by
  induction j, h using Nat.le_induction with
  | base => exact le_refl _
  | succ j _ ih =>
    rw [before]
    split
    · have hpos := hw j
      linarith
    · linarith

theorem before_succ {i : Nat} (h : ns.valid i = true) : ns.before (i + 1) = ns.before i + ns.weight i := by
  rw [before, if_pos h]

/-- The loop draws the last eligible node in front of which there is no more weight than `r`. -/
theorem selectLoop_cases {left i : Nat} {selected : Nat} (hw : ∀ i, 0 ≤ ns.weight i)
    (hend : i + left = ns.numBackends) :
    (ns.selectLoop r left i (ns.before i) selected = selected ∧
      ∀ j, i ≤ j → ns.Eligible j → r < ns.before j) ∨
      ∃ k, ns.selectLoop r left i (ns.before i) selected = k ∧ ns.Eligible k ∧ ns.before k ≤ r ∧
        ∀ j, k < j → ns.Eligible j → r < ns.before j := by
  induction left generalizing i selected with
  | zero => exact .inl ⟨rfl, fun j hj hel => absurd hel.1 (by omega)⟩
  | succ left ih =>
    unfold selectLoop
    by_cases hnode : ns.valid i ∧ 0 < ns.weight i
    · rw [if_pos hnode]
      have hel : ns.Eligible i := ⟨by omega, hnode⟩
      by_cases hr : ns.before i ≤ r
      · rw [if_pos hr, ← before_succ hnode.1]
        obtain ⟨heq, hnext⟩ | hfound := @ih (i + 1) i (by omega)
        · exact .inr ⟨i, heq, hel, hr, fun j hj => hnext j hj⟩
        · exact .inr hfound
      · rw [if_neg hr]
        refine .inl ⟨rfl, fun j hj _ => lt_of_lt_of_le (not_le.mp hr) (before_mono hw hj)⟩
    · rw [if_neg hnode]
      have hsame : ns.before (i + 1) = ns.before i := by
        rw [before]
        split
        · next hvalid =>
          have hzero : ns.weight i = 0 := le_antisymm (not_lt.mp fun h => hnode ⟨hvalid, h⟩) (hw i)
          rw [hzero, add_zero]
        · rw [add_zero]
      rw [← hsame]
      obtain ⟨heq, hnext⟩ | hfound := @ih (i + 1) selected (by omega)
      · refine .inl ⟨heq, fun j hj hel => ?_⟩
        rcases Nat.eq_or_lt_of_le hj with rfl | hj
        · exact absurd hel.2 hnode
        · exact hnext j hj hel
      · exact .inr hfound

/-- Where weight is added, there is an eligible node, and none of the weight in front of it. -/
theorem exists_eligible (hw : ∀ i, 0 ≤ ns.weight i) {a b : Nat} (hab : a ≤ b) (hb : b ≤ ns.numBackends)
    (h : ns.before a < ns.before b) : ∃ j, a ≤ j ∧ ns.Eligible j ∧ ns.before j = ns.before a := by
  induction b, hab using Nat.le_induction with
  | base => exact absurd h (lt_irrefl _)
  | succ b hab ih =>
    rcases lt_or_eq_of_le (before_mono hw hab) with hlt | heq
    · exact ih (by omega) hlt
    · rw [before, ← heq] at h
      split at h
      · next hvalid => exact ⟨b, hab, ⟨by omega, hvalid, by linarith⟩, heq.symm⟩
      · linarith

/-- The weight up to an eligible node, itself included. -/
theorem Eligible.before_le {i j : Nat} (h : ns.Eligible i) (hw : ∀ i, 0 ≤ ns.weight i) (hij : i < j) :
    ns.before i + ns.weight i ≤ ns.before j := by
  rw [← before_succ h.2.1]
  exact before_mono hw hij

theorem Interval.not_lt {i k : Nat} (hi : ns.Eligible i) (hk : ns.Eligible k) (hw : ∀ i, 0 ≤ ns.weight i)
    (hri : ns.Interval i r) (hrk : ns.Interval k r) : ¬ i < k := by
  intro hlt
  have hik := hi.before_le hw hlt
  have hend := hk.before_le hw hk.1
  have hpos := hk.2.2
  have hk' := hrk.1
  unfold Nodes.Interval Nodes.totalWeight at hri
  rcases hri.2 with hr | ⟨hr, hr'⟩ <;> linarith

/-- Every draw selects the eligible node that it belongs to. -/
theorem shares (hw : ∀ i, 0 ≤ ns.weight i) : ns.Shares := by
  intro hpos r h0 hr
  have hfound : ns.Eligible (ns.select r) ∧ ns.Interval (ns.select r) r := by
    obtain ⟨-, hnone⟩ | ⟨k, heq, hel, hk, hnext⟩ :=
      @selectLoop_cases ns r _ 0 ns.master hw (Nat.zero_add ns.numBackends)
    · obtain ⟨j, -, hel, hbefore⟩ := exists_eligible hw (Nat.zero_le _) (le_refl _) hpos
      have hlt := hnone j (Nat.zero_le j) hel
      rw [hbefore, before] at hlt
      linarith
    · have hselect : ns.select r = k := heq
      rw [hselect]
      refine ⟨hel, hk, ?_⟩
      by_cases hlt : r < ns.before k + ns.weight k
      · exact .inl hlt
      · -- nothing is left behind this node
        have hend : ns.before (k + 1) = ns.totalWeight := by
          refine le_antisymm (before_mono hw hel.1) (not_lt.mp fun hmore => ?_)
          obtain ⟨j, hj, helj, hbefore⟩ := exists_eligible hw hel.1 (le_refl _) hmore
          have hrj := hnext j hj helj
          rw [hbefore, before_succ hel.2.1] at hrj
          exact hlt hrj
        rw [before_succ hel.2.1] at hend
        exact .inr ⟨by linarith, by linarith⟩
  refine ⟨hfound.1, fun i hi => ⟨fun heq => heq ▸ hfound.2, fun hri => ?_⟩⟩
  rcases Nat.lt_trichotomy (ns.select r) i with hlt | heq | hlt
  · exact absurd hlt (Interval.not_lt hfound.1 hi hw hfound.2 hri)
  · exact heq
  · exact absurd hlt (Interval.not_lt hi hfound.1 hw hri hfound.2)

end Nodes

/-! ## Normalised weights -/

/-- The slots keep the ratios that are configured. -/
def KeepsRatios (slots : List Slot) (weights : List ℚ) : Prop :=
  ∀ (i j : Nat) (s t : Slot) (v w : ℚ), slots[i]? = some s → slots[j]? = some t → s.inUse = true →
    t.inUse = true → weights[i]? = some v → weights[j]? = some w →
      v * t.unnormalizedWeight = w * s.unnormalizedWeight

/-- Some slot in use has a weight, or none is in use. -/
def Weighted (slots : List Slot) : Prop :=
  (∃ s ∈ slots, s.inUse = true ∧ 0 < s.unnormalizedWeight) ∨ ∀ s ∈ slots, s.inUse = false

/-- The weight of a slot, where there is something to divide by. -/
def Slot.normalized (total : ℚ) (s : Slot) : ℚ :=
  if s.inUse then randMax * s.unnormalizedWeight / total else 0

theorem totalUnnormalized_cons (s : Slot) (slots : List Slot) :
    totalUnnormalized (s :: slots) =
      (if s.inUse then s.unnormalizedWeight else 0) + totalUnnormalized slots := by
  unfold totalUnnormalized
  by_cases hs : s.inUse = true <;> simp [hs]

theorem totalUnnormalized_nonneg (slots : List Slot) : 0 ≤ totalUnnormalized slots := by
  induction slots with
  | nil => exact le_refl _
  | cons s slots ih =>
    rw [totalUnnormalized_cons]
    have hs := s.nonneg
    split <;> linarith

theorem totalUnnormalized_eq_zero_iff (slots : List Slot) :
    totalUnnormalized slots = 0 ↔ ∀ s ∈ slots, s.inUse = true → s.unnormalizedWeight = 0 := by
  induction slots with
  | nil => simp [totalUnnormalized]
  | cons s slots ih =>
    have hs := s.nonneg
    have hrest := totalUnnormalized_nonneg slots
    rw [totalUnnormalized_cons, List.forall_mem_cons, ← ih]
    by_cases huse : s.inUse = true
    · rw [if_pos huse]
      exact ⟨fun h => ⟨fun _ => by linarith, by linarith⟩, fun h => by rw [h.1 huse, h.2, add_zero]⟩
    · rw [if_neg huse, zero_add]
      exact ⟨fun h => ⟨fun h' => absurd h' huse, h⟩, fun h => h.2⟩

theorem weighted_iff (slots : List Slot) :
    Weighted slots ↔ totalUnnormalized slots ≠ 0 ∨ ∀ s ∈ slots, s.inUse = false := by
  unfold Weighted
  rw [Ne, totalUnnormalized_eq_zero_iff]
  refine or_congr_left ?_
  constructor
  · rintro ⟨s, hs, huse, hpos⟩ hall
    rw [hall s hs huse] at hpos
    exact lt_irrefl _ hpos
  · intro h
    push Not at h
    obtain ⟨s, hs, huse, hne⟩ := h
    exact ⟨s, hs, huse, lt_of_le_of_ne s.nonneg hne.symm⟩

theorem mapM_backendWeight {total : ℚ} {slots : List Slot} (h : total ≠ 0 ∨ ∀ s ∈ slots, s.inUse = false) :
    slots.mapM (Slot.backendWeight total) = some (slots.map (Slot.normalized total)) := by
  induction slots with
  | nil => rfl
  | cons s slots ih =>
    have hhead : s.backendWeight total = some (s.normalized total) := by
      unfold Slot.backendWeight Slot.normalized divide
      by_cases huse : s.inUse = true
      · have hne : total ≠ 0 := h.resolve_right fun hall => by simp [hall s List.mem_cons_self] at huse
        rw [if_pos huse, if_pos huse, if_neg hne]
      · rw [if_neg huse, if_neg huse]
    rw [List.mapM_cons, hhead, ih (h.imp_right fun hall t ht => hall t (List.mem_cons_of_mem _ ht))]
    rfl

theorem mapM_backendWeight_zero {slots : List Slot} (h : ∃ s ∈ slots, s.inUse = true) :
    slots.mapM (Slot.backendWeight 0) = none := by
  induction slots with
  | nil => simp at h
  | cons s slots ih =>
    rw [List.mapM_cons]
    by_cases huse : s.inUse = true
    · have hhead : s.backendWeight 0 = none := by simp [Slot.backendWeight, divide, huse]
      rw [hhead]
      rfl
    · have hrest : ∃ t ∈ slots, t.inUse = true := by simpa [huse] using h
      rw [ih hrest]
      cases s.backendWeight 0 <;> rfl

/-- There is no division by zero exactly if some slot has a weight. -/
theorem backendWeights_cases (slots : List Slot) :
    (Weighted slots ∧
        backendWeights slots = some (slots.map (Slot.normalized (totalUnnormalized slots)))) ∨
      ¬ Weighted slots ∧ backendWeights slots = none := by
  by_cases hw : Weighted slots
  · exact .inl ⟨hw, mapM_backendWeight ((weighted_iff slots).mp hw)⟩
  · refine .inr ⟨hw, ?_⟩
    rw [weighted_iff, not_or, not_not] at hw
    obtain ⟨hzero, huse⟩ := hw
    push Not at huse
    obtain ⟨s, hs, hne⟩ := huse
    unfold backendWeights
    rw [hzero]
    exact mapM_backendWeight_zero ⟨s, hs, by simpa using hne⟩

theorem keepsRatios_normalized (slots : List Slot) :
    KeepsRatios slots (slots.map (Slot.normalized (totalUnnormalized slots))) := by
  intro i j s t v w hs ht hsuse htuse hv hw
  rw [List.getElem?_map, hs, Option.map_some, Option.some.injEq] at hv
  rw [List.getElem?_map, ht, Option.map_some, Option.some.injEq] at hw
  rw [← hv, ← hw, Slot.normalized, Slot.normalized, if_pos hsuse, if_pos htuse]
  ring

/-- What `select_load_balancing_node` reads of this configuration. -/
def nodesOf (slots : List Slot) (valid : Nat → Bool) (master : Nat) : Nodes where
  numBackends := numBackends slots
  valid := valid
  weight i := ((backendWeights slots).bind (·[i]?)).getD 0
  master := master

theorem weight_nonneg (slots : List Slot) (valid : Nat → Bool) (master i : Nat) :
    0 ≤ (nodesOf slots valid master).weight i := by
  unfold nodesOf
  dsimp only
  obtain ⟨-, heq⟩ | ⟨-, heq⟩ := backendWeights_cases slots
  · rw [heq, Option.bind_some, List.getElem?_map]
    cases slots[i]? with
    | none => exact le_refl _
    | some s =>
      simp only [Option.map_some, Option.getD_some, Slot.normalized]
      split
      · have hmax : (0 : ℚ) ≤ randMax := by norm_num [randMax]
        exact div_nonneg (mul_nonneg hmax s.nonneg) (totalUnnormalized_nonneg slots)
      · exact le_refl _
  · rw [heq]
    exact le_refl _

/-! ## A session -/

/-- `BACKEND_INFO(i).backend_status`, and the two places that keep the node that has been drawn. -/
structure Balancing where
  backendStatus : Nat → BackendStatus
  /-- `backend->info->load_balancing_node`. -/
  infoNode : Nat
  /-- `session_context->load_balance_node_id`. -/
  sessionNode : Nat

/-- What happens in a session: the parent changes the status of a node; `pool_process_query` comes to its
select, with what a draw would read and the draw; `pool_where_to_send` looks for a node. -/
inductive BalanceEvent where
  | setStatus (i : Nat) (status : BackendStatus)
  | selectRetry (valid : Nat → Bool) (master : Nat) (x : ℚ)
  | whereToSend

namespace Balancing

/-- `pool_init_session_context`, in load balance mode. -/
def start (slots : List Slot) (valid : Nat → Bool) (master : Nat) (x : ℚ)
    (backendStatus : Nat → BackendStatus) : Balancing :=
  let node := (nodesOf slots valid master).selectLoadBalancingNode x
  ⟨backendStatus, node, node⟩

def step (slots : List Slot) (b : Balancing) : BalanceEvent → Balancing
  | .setStatus i status => { b with backendStatus := Function.update b.backendStatus i status }
  | .selectRetry valid master x =>
      if b.backendStatus b.infoNode = .down then
        { b with infoNode := (nodesOf slots valid master).selectLoadBalancingNode x }
      else b
  | .whereToSend => b

/-- The node that `pool_where_to_send` reads is never down. -/
def UsesUp (slots : List Slot) : Balancing → List BalanceEvent → Prop
  | _, [] => True
  | b, e :: events =>
      (e = .whereToSend → b.backendStatus b.sessionNode ≠ .down) ∧ UsesUp slots (b.step slots e) events

end Balancing

/-- A node is not down whenever `pool_where_to_send` is called. -/
def UpWhenCalled (node : Nat) : (Nat → BackendStatus) → List BalanceEvent → Prop
  | _, [] => True
  | backendStatus, .setStatus i status :: events =>
      UpWhenCalled node (Function.update backendStatus i status) events
  | backendStatus, .selectRetry _ _ _ :: events => UpWhenCalled node backendStatus events
  | backendStatus, .whereToSend :: events =>
      backendStatus node ≠ .down ∧ UpWhenCalled node backendStatus events

theorem usesUp_iff (slots : List Slot) (b : Balancing) (events : List BalanceEvent) :
    b.UsesUp slots events ↔ UpWhenCalled b.sessionNode b.backendStatus events := by
  induction events generalizing b with
  | nil => rfl
  | cons e events ih =>
    unfold Balancing.UsesUp
    rw [ih]
    cases e with
    | setStatus i status => exact and_iff_right nofun
    | whereToSend => exact and_congr_left fun _ => forall_prop_of_true rfl
    | selectRetry valid master x =>
      -- the other place is written
      have hsame : (b.step slots (.selectRetry valid master x)).sessionNode = b.sessionNode ∧
          (b.step slots (.selectRetry valid master x)).backendStatus = b.backendStatus := by
        unfold Balancing.step
        dsimp only
        split <;> exact ⟨rfl, rfl⟩
      rw [hsame.1, hsame.2]
      exact and_iff_right nofun

/-- The weights are normalised, every draw selects by them, and the node that is used is up. -/
structure Balanced (slots : List Slot) (start : Balancing) (events : List BalanceEvent) : Prop where
  normalized : ∃ weights, backendWeights slots = some weights ∧ KeepsRatios slots weights
  shares : ∀ valid master, (nodesOf slots valid master).Shares
  up : start.UsesUp slots events

/-- **Load balancing**: it is right if some slot has a weight, and the node that a session starts with
is not down whenever it is used. -/
theorem balanced_iff (slots : List Slot) (valid : Nat → Bool) (master : Nat) (x : ℚ)
    (backendStatus : Nat → BackendStatus) (events : List BalanceEvent) :
    Balanced slots (.start slots valid master x backendStatus) events ↔
      Weighted slots ∧
        UpWhenCalled ((nodesOf slots valid master).selectLoadBalancingNode x) backendStatus events := by
  constructor
  · rintro ⟨⟨weights, hsome, -⟩, -, hup⟩
    refine ⟨?_, (usesUp_iff slots _ events).mp hup⟩
    obtain ⟨hw, -⟩ | ⟨-, hnone⟩ := backendWeights_cases slots
    · exact hw
    · rw [hnone] at hsome
      cases hsome
  · rintro ⟨hw, hup⟩
    refine ⟨?_, fun valid master => Nodes.shares (weight_nonneg slots valid master),
      (usesUp_iff slots _ events).mpr hup⟩
    obtain ⟨-, heq⟩ | ⟨hnot, -⟩ := backendWeights_cases slots
    · exact ⟨_, heq, keepsRatios_normalized slots⟩
    · exact absurd hw hnot

/-- A server without a weight. -/
def noWeight : Slot := ⟨5432, 0, le_refl 0⟩

/-- A server without and one with a weight. -/
def twoServers : List Slot := [noWeight, ⟨5433, 1, zero_le_one⟩]

/-- If all weights are 0 they are divided by zero.  And where the node that has been drawn goes down,
the draw in the loop of `pool_process_query` does not keep `pool_where_to_send` from it. -/
theorem not_balanced :
    ¬ Balanced [noWeight] (.start [noWeight] (fun _ => true) 0 0 fun _ => .up) [] ∧
      ¬ Balanced twoServers (.start twoServers (fun _ => true) 0 0 fun _ => .up)
        [.setStatus 1 .down, .selectRetry (fun i => i = 0) 0 0, .whereToSend] := by
  constructor
  · rintro ⟨⟨weights, hsome, -⟩, -, -⟩
    have hnone : backendWeights [noWeight] = none := by decide +kernel
    rw [hnone] at hsome
    cases hsome
  · intro h
    have hup := (usesUp_iff _ _ _).mp h.up
    have hnode : (nodesOf twoServers (fun _ => true) 0).selectLoadBalancingNode 0 = 1 := by decide +kernel
    have hstart : (Balancing.start twoServers (fun _ => true) 0 0 fun _ => .up).sessionNode = 1 := hnode
    rw [hstart] at hup
    exact hup.1 rfl

end PgPool.Balance
