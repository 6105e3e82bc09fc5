import PgPool.Lib.Transition
import PgPool.Cache.Entries

/-!
# Cancel keys

The table of pids and keys in the shared memory, with a record for each child, pool entry and node, and
the pairs that clients are sent.  A cancel request is looked up in the table.  Each step has the view of
the child that takes it: which nodes are valid, and which is the master.
-/

namespace PgPool.Cancel

/-- A pid and a key; a cleared record has zeros. -/
structure CancelKey where
  pid : UInt32
  key : UInt32
  deriving DecidableEq, Repr

def zero : CancelKey := ⟨0, 0⟩

/-- `num_init_children`, `max_pool` and `NUM_BACKENDS`. -/
structure Setup where
  children : Nat
  maxPool : Nat
  numBackends : Nat

/-- `VALID_BACKEND` and `MASTER_NODE_ID`. -/
structure View (cfg : Setup) where
  valid : Nat → Bool
  master : Nat
  master_lt : master < cfg.numBackends

/-- What a slot of an entry has of a connection; it is idle if `closetime` is set. -/
structure Slot where
  key : CancelKey
  idle : Bool

/-- A `POOL_CONNECTION_POOL`.  Besides its slots, whether it has a session, and the pairs that the clients
of this session have been sent. -/
structure PoolEntry where
  slots : Nat → Option Slot
  opened : Bool
  sent : List CancelKey

def PoolEntry.cleared : PoolEntry := ⟨fun _ => none, false, []⟩

/-- The pool entries of the children, and `con_info`. -/
structure State where
  entries : Nat → Nat → PoolEntry
  table : Nat → Nat → Nat → CancelKey

def State.init : State := ⟨fun _ _ => .cleared, fun _ _ _ => zero⟩

variable (cfg : Setup)

/-- What happens to the pools. -/
inductive Event where
  /-- `new_connection` in an entry without a connection to the master, and `pool_do_auth`. -/
  | start (i j : Nat) (view : View cfg) (backend : Nat → CancelKey)
  /-- `pool_get_cp` and `pool_do_reauth` -/
  | reuse (i j : Nat) (view : View cfg)
  /-- `pool_connection_pool_timer`: the client is gone. -/
  | finish (i j : Nat) (view : View cfg)
  /-- `pool_discard_cp`, `pool_backend_timer`, and the eviction of `pool_create_cp`. -/
  | discard (i j : Nat) (view : View cfg)
  /-- The path of `pool_get_cp` for broken sockets. -/
  | broken (i j : Nat)
  | closeIdleConnection (i : Nat) (view : View cfg)
  /-- `pool_init_cp` of a new child. -/
  | initCp (i : Nat)
  /-- The child ends. -/
  | exit (i : Nat)

namespace State

variable {cfg} (s : State)

/-- Overwrite an entry and its records. -/
def set (i j : Nat) (p : PoolEntry) (records : Nat → CancelKey) : State where
  entries i' j' := if i' = i ∧ j' = j then p else s.entries i' j'
  table i' j' k := if i' = i ∧ j' = j then records k else s.table i' j' k

/-- `CONNECTION_SLOT` of a node for which the loops do not `continue`. -/
def connected (view : View cfg) (p : PoolEntry) : Bool :=
  (List.range cfg.numBackends).all fun k => !view.valid k || (p.slots k).isSome

/-- The pair that is left in `pid` and `key` after the loop over the valid nodes. -/
def lastKey (view : View cfg) (backend : Nat → CancelKey) : Option CancelKey :=
  ((List.range cfg.numBackends).filter view.valid).getLast?.map backend

/-- Slots of the valid nodes are new. -/
def startSlots (view : View cfg) (backend : Nat → CancelKey) (p : PoolEntry) (k : Nat) : Option Slot :=
  if k < cfg.numBackends ∧ view.valid k then some ⟨backend k, false⟩ else p.slots k

def startSession (i j : Nat) (view : View cfg) (backend : Nat → CancelKey) : Option State :=
  let p := s.entries i j
  if (p.slots view.master).isSome then none
  else
    (lastKey view backend).map fun key =>
      s.set i j ⟨startSlots view backend p, true, [key]⟩
        fun k => if k < cfg.numBackends ∧ view.valid k then backend k else s.table i j k

/-- Overwrite the close time of the master. -/
def setIdle (view : View cfg) (idle : Bool) (p : PoolEntry) : PoolEntry :=
  { p with
    slots := fun k => if k = view.master then (p.slots k).map ({ · with idle := idle }) else p.slots k }

/-- The pair of the master goes to the client. -/
def reuseSession (i j : Nat) (view : View cfg) : Option State :=
  let p := s.entries i j
  (p.slots view.master).map fun slot =>
    s.set i j { setIdle view false p with sent := slot.key :: p.sent } (s.table i j)

def finishSession (i j : Nat) (view : View cfg) : Option State :=
  let p := s.entries i j
  if (p.slots view.master).isSome then some (s.set i j (setIdle view true p) (s.table i j)) else none

def discardEntry (i j : Nat) (view : View cfg) : Option State :=
  if connected view (s.entries i j) then some (s.set i j .cleared fun _ => zero) else none

/-- `memset(p, 0, sizeof(POOL_CONNECTION_POOL_SLOT))`, and that of the records. -/
def breakEntry (i j : Nat) : State :=
  s.set i j
    ⟨fun k => if Cache.Entry.spared k then (s.entries i j).slots k else none, false, []⟩ fun _ => zero

/-- The entry is closed by `close_idle_connection`. -/
def closing (view : View cfg) (p : PoolEntry) : Bool := (p.slots view.master).any (·.idle)

/-- `close_idle_connection`: of the records of an entry the first is cleared. -/
def closeIdle (i : Nat) (view : View cfg) : Option State :=
  if (List.range cfg.maxPool).all fun j => !closing view (s.entries i j) || connected view (s.entries i j)
  then
    some {
      entries := fun i' j => if i' = i ∧ j < cfg.maxPool ∧ closing view (s.entries i j) then .cleared
        else s.entries i' j
      table := fun i' j k => if (i' = i ∧ j < cfg.maxPool ∧ closing view (s.entries i j)) ∧ k = 0 then zero
        else s.table i' j k }
  else none

def initChild (i : Nat) : State where
  entries i' j := if i' = i then .cleared else s.entries i' j
  table i' j k := if i' = i then zero else s.table i' j k

def exitChild (i : Nat) : State where
  entries i' j := if i' = i then .cleared else s.entries i' j
  table := s.table

end State

variable {cfg}

def State.step (s : State) : Event cfg → Option State
  | .start i j view backend =>
      if i < cfg.children ∧ j < cfg.maxPool then s.startSession i j view backend else none
  | .reuse i j view => if i < cfg.children ∧ j < cfg.maxPool then s.reuseSession i j view else none
  | .finish i j view => if i < cfg.children ∧ j < cfg.maxPool then s.finishSession i j view else none
  | .discard i j view => if i < cfg.children ∧ j < cfg.maxPool then s.discardEntry i j view else none
  | .broken i j => if i < cfg.children ∧ j < cfg.maxPool then some (s.breakEntry i j) else none
  | .closeIdleConnection i view => s.closeIdle i view
  | .initCp i => some (s.initChild i)
  | .exit i => some (s.exitChild i)

/-! ## A cancel request -/

variable (cfg) in
/-- The first entry with the pair in one of its records. -/
def findEntry (s : State) (r : CancelKey) : Option (Nat × Nat) :=
  (List.range cfg.children).findSome? fun i => (List.range cfg.maxPool).findSome? fun j =>
    if (List.range cfg.numBackends).any fun k => s.table i j k == r then some (i, j) else none

/-- The loop over the nodes; it ends at a node to which there is no connection. -/
def forward (view : View cfg) (connects : Nat → Bool) (records : Nat → CancelKey) :
    List Nat → List (Nat × CancelKey)
  | [] => []
  | k :: nodes =>
    if !view.valid k then forward view connects records nodes
    else if !connects k then []
    else (k, records k) :: forward view connects records nodes

/-- The nodes to which `cancel_request` sends a packet, each with the pair in it. -/
def cancelRequest (s : State) (view : View cfg) (connects : Nat → Bool) (r : CancelKey) :
    List (Nat × CancelKey) :=
  match findEntry cfg s r with
  | none => []
  | some (i, j) => forward view connects (s.table i j) (List.range cfg.numBackends)

/-- The up nodes of an entry, with their own pairs. -/
def upNodes (view : View cfg) (p : PoolEntry) : List (Nat × CancelKey) :=
  (List.range cfg.numBackends).filterMap fun k =>
    if view.valid k then (p.slots k).map fun slot => (k, slot.key) else none

variable (cfg) in
/-- The pair has been sent to a client of the entry's session. -/
def SentBy (s : State) (r : CancelKey) (i j : Nat) : Prop :=
  i < cfg.children ∧ j < cfg.maxPool ∧ (s.entries i j).opened = true ∧ r ∈ (s.entries i j).sent

/-- The request is forwarded as it has to be. -/
structure Mapped (s : State) (view : View cfg) (r : CancelKey) (forwarded : List (Nat × CancelKey)) :
    Prop where
  sent : ∀ i j, SentBy cfg s r i j → forwarded = upNodes view (s.entries i j)
  unsent : (∀ i j, ¬SentBy cfg s r i j) → forwarded = []

/-! ## The condition -/

/-- The steps that keep the table right. -/
def Careful (s : State) : Event cfg → Prop
  -- the entry is empty, and the backends give pairs that no other session has
  | .start i j view backend => (s.entries i j).opened = false ∧
      ∀ k < cfg.numBackends, view.valid k = true → backend k ≠ zero ∧
        ∀ i' < cfg.children, ∀ j' < cfg.maxPool, ∀ k' < cfg.numBackends,
          ∀ slot ∈ (s.entries i' j').slots k', slot.key ≠ backend k
  -- no slot outlives the `memset`
  | .broken i j => ∀ k < cfg.numBackends, Cache.Entry.spared k = true → (s.entries i j).slots k = none
  -- only the first node has a connection
  | .closeIdleConnection i view => ∀ j < cfg.maxPool, State.closing view (s.entries i j) = true →
      ∀ k < cfg.numBackends, k ≠ 0 → (s.entries i j).slots k = none
  -- the child has no connection
  | .exit i => ∀ j < cfg.maxPool, (s.entries i j).opened = false
  | .reuse _ _ _ | .finish _ _ _ | .discard _ _ _ | .initCp _ => True

/-- The request is none for a node whose pair no client has got, nor for an unused slot; and the nodes that
are up are connected to the session, and can be reached. -/
structure Answerable (s : State) (view : View cfg) (connects : Nat → Bool) (r : CancelKey) : Prop where
  nonzero : r ≠ zero
  known : ∀ i < cfg.children, ∀ j < cfg.maxPool, ∀ k < cfg.numBackends,
    ∀ slot ∈ (s.entries i j).slots k, slot.key = r → r ∈ (s.entries i j).sent
  joined : ∀ i j, SentBy cfg s r i j → ∀ k < cfg.numBackends, view.valid k = true →
    ((s.entries i j).slots k).isSome = true ∧ connects k = true

/-! ## What is kept -/

/-- The pair of a node's connection. -/
def PoolEntry.key (p : PoolEntry) (k : Nat) : Option CancelKey := (p.slots k).map Slot.key

variable (cfg) in
/-- The records are the pairs of the connections, no two sessions have the same pair, and what has been
sent to a client belongs to its session. -/
structure Kept (s : State) : Prop where
  records : ∀ i < cfg.children, ∀ j < cfg.maxPool, ∀ k < cfg.numBackends,
    s.table i j k = ((s.entries i j).key k).getD zero
  empty : ∀ i < cfg.children, ∀ j < cfg.maxPool, ∀ k < cfg.numBackends,
    (s.entries i j).opened = false → (s.entries i j).key k = none
  nonzero : ∀ i < cfg.children, ∀ j < cfg.maxPool, ∀ k < cfg.numBackends,
    (s.entries i j).key k ≠ some zero
  distinct : ∀ i < cfg.children, ∀ j < cfg.maxPool, ∀ k < cfg.numBackends,
    ∀ i' < cfg.children, ∀ j' < cfg.maxPool, ∀ k' < cfg.numBackends, ∀ r,
      (s.entries i j).key k = some r → (s.entries i' j').key k' = some r → i = i' ∧ j = j'
  sent : ∀ i < cfg.children, ∀ j < cfg.maxPool, ∀ r ∈ (s.entries i j).sent,
    ∃ k < cfg.numBackends, (s.entries i j).key k = some r

section

variable {s s' : State} {view : View cfg} {i j k : Nat} {r : CancelKey}

theorem kept_init : Kept cfg .init where
  records _ _ _ _ _ _ := rfl
  empty _ _ _ _ _ _ _ := rfl
  nonzero _ _ _ _ _ _ := nofun
  distinct _ _ _ _ _ _ _ _ _ _ _ _ _ := nofun
  sent _ _ _ _ _ := nofun

variable (cfg) in
/-- An entry has nothing any more. -/
structure Gone (s : State) (i j : Nat) : Prop where
  key : ∀ k < cfg.numBackends, (s.entries i j).key k = none
  sent : (s.entries i j).sent = []
  table : ∀ k < cfg.numBackends, s.table i j k = zero

variable (cfg) in
/-- An entry has what it had, and a client may have been sent a pair of it. -/
structure Same (s s' : State) (i j : Nat) : Prop where
  key : ∀ k < cfg.numBackends, (s'.entries i j).key k = (s.entries i j).key k
  opened : (s'.entries i j).opened = (s.entries i j).opened
  sent : ∀ r ∈ (s'.entries i j).sent,
    r ∈ (s.entries i j).sent ∨ ∃ k < cfg.numBackends, (s.entries i j).key k = some r
  table : ∀ k < cfg.numBackends, s'.table i j k = s.table i j k

theorem same_of_eq (hentry : s'.entries i j = s.entries i j) (htable : s'.table i j = s.table i j) :
    Same cfg s s' i j where
  key k _ := by rw [hentry]
  opened := by rw [hentry]
  sent r hr := .inl (hentry ▸ hr)
  table k _ := by rw [htable]

/-- A step that only takes away. -/
theorem Kept.thin (h : Kept cfg s)
    (hstep : ∀ i < cfg.children, ∀ j < cfg.maxPool, Same cfg s s' i j ∨ Gone cfg s' i j) :
    Kept cfg s' := by
  have hkey : ∀ i < cfg.children, ∀ j < cfg.maxPool, ∀ k < cfg.numBackends, ∀ r,
      (s'.entries i j).key k = some r → (s.entries i j).key k = some r := by
    intro i hi j hj k hk r hr
    obtain hsame | hgone := hstep i hi j hj
    · rw [← hsame.key k hk]
      exact hr
    · rw [hgone.key k hk] at hr
      cases hr
  refine ⟨?_, ?_, ?_, ?_, ?_⟩
  · intro i hi j hj k hk
    obtain hsame | hgone := hstep i hi j hj
    · rw [hsame.table k hk, hsame.key k hk, h.records i hi j hj k hk]
    · rw [hgone.table k hk, hgone.key k hk]
      rfl
  · intro i hi j hj k hk hopened
    obtain hsame | hgone := hstep i hi j hj
    · rw [hsame.key k hk]
      exact h.empty i hi j hj k hk (hsame.opened ▸ hopened)
    · exact hgone.key k hk
  · exact fun i hi j hj k hk hzero => h.nonzero i hi j hj k hk (hkey i hi j hj k hk zero hzero)
  · intro i hi j hj k hk i' hi' j' hj' k' hk' r hr hr'
    exact h.distinct i hi j hj k hk i' hi' j' hj' k' hk' r (hkey i hi j hj k hk r hr)
      (hkey i' hi' j' hj' k' hk' r hr')
  · intro i hi j hj r hr
    obtain hsame | hgone := hstep i hi j hj
    · obtain hold | ⟨k, hk, hkey'⟩ := hsame.sent r hr
      · obtain ⟨k, hk, hkey'⟩ := h.sent i hi j hj r hold
        exact ⟨k, hk, (hsame.key k hk).trans hkey'⟩
      · exact ⟨k, hk, (hsame.key k hk).trans hkey'⟩
    · rw [hgone.sent] at hr
      cases hr

theorem key_cleared (k : Nat) : PoolEntry.cleared.key k = none := rfl

/-! ### Overwriting an entry -/

theorem set_entries_self (p : PoolEntry) (records : Nat → CancelKey) :
    (s.set i j p records).entries i j = p := if_pos ⟨rfl, rfl⟩

theorem set_table_self (p : PoolEntry) (records : Nat → CancelKey) :
    (s.set i j p records).table i j = records := funext fun _ => if_pos ⟨rfl, rfl⟩

theorem same_set_other {i' j' : Nat} (hne : ¬(i' = i ∧ j' = j)) (p : PoolEntry)
    (records : Nat → CancelKey) : Same cfg s (s.set i j p records) i' j' :=
  same_of_eq (if_neg hne) (funext fun _ => if_neg hne)

theorem Kept.set (h : Kept cfg s) {p : PoolEntry} {records : Nat → CancelKey}
    (hentry : Same cfg s (s.set i j p records) i j ∨ Gone cfg (s.set i j p records) i j) :
    Kept cfg (s.set i j p records) := by
  refine h.thin fun i' _ j' _ => ?_
  by_cases heq : i' = i ∧ j' = j
  · obtain ⟨rfl, rfl⟩ := heq
    exact hentry
  · exact .inl (same_set_other heq p records)

theorem gone_set {p : PoolEntry} (hkey : ∀ k < cfg.numBackends, p.key k = none) (hsent : p.sent = []) :
    Gone cfg (s.set i j p fun _ => zero) i j where
  key k hk := by
    rw [set_entries_self]
    exact hkey k hk
  sent := by rw [set_entries_self, hsent]
  table k _ := by rw [set_table_self]

/-! ### Steps -/

theorem key_setIdle (idle : Bool) (p : PoolEntry) (k : Nat) :
    (State.setIdle view idle p).key k = p.key k := by
  unfold State.setIdle PoolEntry.key
  dsimp only
  split
  · cases p.slots k <;> rfl
  · rfl

theorem kept_reuse (h : Kept cfg s) (hstep : s.reuseSession i j view = some s') : Kept cfg s' := by
  obtain ⟨slot, hslot, rfl⟩ := Option.map_eq_some_iff.mp hstep
  have hkey : (s.entries i j).key view.master = some slot.key := by rw [PoolEntry.key, hslot]; rfl
  refine h.set (.inl ⟨fun k _ => ?_, ?_, fun r hr => ?_, fun k _ => ?_⟩)
  · rw [set_entries_self]
    exact key_setIdle false (s.entries i j) k
  · rw [set_entries_self]
    rfl
  · rw [set_entries_self] at hr
    obtain rfl | hold := List.mem_cons.mp hr
    · exact .inr ⟨view.master, view.master_lt, hkey⟩
    · exact .inl hold
  · rw [set_table_self]

theorem kept_finish (h : Kept cfg s) (hstep : s.finishSession i j view = some s') : Kept cfg s' := by
  unfold State.finishSession at hstep
  dsimp only at hstep
  split at hstep
  · cases hstep
    refine h.set (.inl ⟨fun k _ => ?_, ?_, fun r hr => .inl ?_, fun k _ => ?_⟩)
    · rw [set_entries_self]
      exact key_setIdle true (s.entries i j) k
    · rw [set_entries_self]
      rfl
    · rw [set_entries_self] at hr
      exact hr
    · rw [set_table_self]
  · cases hstep

theorem kept_discard (h : Kept cfg s) (hstep : s.discardEntry i j view = some s') : Kept cfg s' := by
  unfold State.discardEntry at hstep
  split at hstep
  · cases hstep
    exact h.set (.inr (gone_set (fun k _ => key_cleared k) rfl))
  · cases hstep

theorem kept_broken (h : Kept cfg s) (hcareful : @Careful cfg s (.broken i j)) :
    Kept cfg (s.breakEntry i j) := by
  refine h.set (.inr (gone_set (fun k hk => ?_) rfl))
  unfold PoolEntry.key
  dsimp only
  split
  · next hspared => rw [hcareful k hk hspared]; rfl
  · rfl

theorem kept_closeIdle (h : Kept cfg s) (hcareful : Careful s (.closeIdleConnection i view))
    (hstep : s.closeIdle i view = some s') : Kept cfg s' := by
  unfold State.closeIdle at hstep
  split at hstep
  · cases hstep
    refine h.thin fun i' hi' j' hj' => ?_
    by_cases hclosing : i' = i ∧ j' < cfg.maxPool ∧ State.closing view (s.entries i j') = true
    · obtain ⟨rfl, -, hclosed⟩ := hclosing
      refine .inr ⟨fun k _ => ?_, ?_, fun k hk => ?_⟩
      · dsimp only
        rw [if_pos ⟨rfl, hj', hclosed⟩]
        exact key_cleared k
      · dsimp only
        rw [if_pos ⟨rfl, hj', hclosed⟩]
        rfl
      · dsimp only
        by_cases hk0 : k = 0
        · rw [if_pos ⟨⟨rfl, hj', hclosed⟩, hk0⟩]
        · rw [if_neg fun hboth => hk0 hboth.2, h.records i' hi' j' hj' k hk, PoolEntry.key,
            hcareful j' hj' hclosed k hk hk0]
          rfl
    · refine .inl (same_of_eq (if_neg hclosing) (funext fun k => if_neg fun hboth => hclosing hboth.1))
  · cases hstep

theorem kept_initChild (h : Kept cfg s) : Kept cfg (s.initChild i) := by
  refine h.thin fun i' _ j' _ => ?_
  by_cases heq : i' = i
  · refine .inr ⟨fun k _ => ?_, ?_, fun k _ => if_pos heq⟩
    · dsimp only [State.initChild]
      rw [if_pos heq]
      exact key_cleared k
    · dsimp only [State.initChild]
      rw [if_pos heq]
      rfl
  · exact .inl (same_of_eq (if_neg heq) (funext fun _ => if_neg heq))

theorem kept_exitChild (h : Kept cfg s) (hcareful : @Careful cfg s (.exit i)) :
    Kept cfg (s.exitChild i) := by
  refine h.thin fun i' hi' j' hj' => ?_
  by_cases heq : i' = i
  · subst heq
    have hempty := fun k hk => h.empty i' hi' j' hj' k hk (hcareful j' hj')
    refine .inr ⟨fun k _ => ?_, ?_, fun k hk => ?_⟩
    · dsimp only [State.exitChild]
      rw [if_pos rfl]
      exact key_cleared k
    · dsimp only [State.exitChild]
      rw [if_pos rfl]
      rfl
    · change s.table i' j' k = zero
      rw [h.records i' hi' j' hj' k hk, hempty k hk]
      rfl
  · exact .inl (same_of_eq (if_neg heq) rfl)

theorem lastKey_mem {backend : Nat → CancelKey} (h : State.lastKey view backend = some r) :
    ∃ k < cfg.numBackends, view.valid k = true ∧ backend k = r := by
  obtain ⟨k, hk, heq⟩ := Option.map_eq_some_iff.mp h
  obtain ⟨hrange, hvalid⟩ := List.mem_filter.mp (List.mem_of_getLast? hk)
  exact ⟨k, List.mem_range.mp hrange, hvalid, heq⟩

/-- A new session brings pairs of its own. -/
theorem kept_start (h : Kept cfg s) (hi : i < cfg.children) (hj : j < cfg.maxPool)
    {backend : Nat → CancelKey} (hcareful : Careful s (.start i j view backend))
    (hstep : s.startSession i j view backend = some s') : Kept cfg s' := by
  unfold State.startSession at hstep
  dsimp only at hstep
  split at hstep
  · cases hstep
  obtain ⟨last, hlast, rfl⟩ := Option.map_eq_some_iff.mp hstep
  obtain ⟨hclosed, hfresh⟩ := hcareful
  have hnew (k : Nat) (hk : k < cfg.numBackends) :
      PoolEntry.key ⟨State.startSlots view backend (s.entries i j), true, [last]⟩ k =
        if view.valid k then some (backend k) else none := by
    have hold := h.empty i hi j hj k hk hclosed
    unfold PoolEntry.key at hold ⊢
    dsimp only [State.startSlots]
    by_cases hvalid : view.valid k = true
    · rw [if_pos ⟨hk, hvalid⟩, if_pos hvalid]
      rfl
    · rw [if_neg fun hboth => hvalid hboth.2, if_neg hvalid]
      exact hold
  have hother {i' j' : Nat} (hne : ¬(i' = i ∧ j' = j)) (p : PoolEntry) (f : Nat → CancelKey) :
      (s.set i j p f).entries i' j' = s.entries i' j' := if_neg hne
  have hforeign {i' j' : Nat} (hi' : i' < cfg.children) (hj' : j' < cfg.maxPool) {k k' : Nat}
      (hk : k < cfg.numBackends) (hk' : k' < cfg.numBackends) {r : CancelKey}
      (hr : (s.entries i' j').key k' = some r) (hvalid : view.valid k = true) : backend k ≠ r := by
    obtain ⟨slot, hslot, rfl⟩ := Option.map_eq_some_iff.mp hr
    exact Ne.symm ((hfresh k hk hvalid).2 i' hi' j' hj' k' hk' slot hslot)
  refine ⟨?_, ?_, ?_, ?_, ?_⟩
  · intro i' hi' j' hj' k hk
    by_cases heq : i' = i ∧ j' = j
    · obtain ⟨rfl, rfl⟩ := heq
      rw [set_table_self, set_entries_self, hnew k hk]
      by_cases hvalid : view.valid k = true
      · rw [if_pos ⟨hk, hvalid⟩, if_pos hvalid]
        rfl
      · rw [if_neg fun hboth => hvalid hboth.2, if_neg hvalid, h.records i' hi' j' hj' k hk,
          h.empty i' hi' j' hj' k hk hclosed]
    · rw [hother heq]
      exact (if_neg heq).trans (h.records i' hi' j' hj' k hk)
  · intro i' hi' j' hj' k hk hopened
    by_cases heq : i' = i ∧ j' = j
    · obtain ⟨rfl, rfl⟩ := heq
      rw [set_entries_self] at hopened
      cases hopened
    · rw [hother heq] at hopened ⊢
      exact h.empty i' hi' j' hj' k hk hopened
  · intro i' hi' j' hj' k hk hzero
    by_cases heq : i' = i ∧ j' = j
    · obtain ⟨rfl, rfl⟩ := heq
      rw [set_entries_self, hnew k hk] at hzero
      split at hzero
      · next hvalid => exact (hfresh k hk hvalid).1 (Option.some.inj hzero)
      · cases hzero
    · rw [hother heq] at hzero
      exact h.nonzero i' hi' j' hj' k hk hzero
  · intro i' hi' j' hj' k hk i'' hi'' j'' hj'' k' hk' r hr hr'
    by_cases heq : i' = i ∧ j' = j
    · by_cases heq' : i'' = i ∧ j'' = j
      · exact ⟨heq.1.trans heq'.1.symm, heq.2.trans heq'.2.symm⟩
      · obtain ⟨rfl, rfl⟩ := heq
        rw [set_entries_self, hnew k hk] at hr
        rw [hother heq'] at hr'
        split at hr
        · next hvalid => exact absurd (Option.some.inj hr) (hforeign hi'' hj'' hk hk' hr' hvalid)
        · cases hr
    · rw [hother heq] at hr
      by_cases heq' : i'' = i ∧ j'' = j
      · obtain ⟨rfl, rfl⟩ := heq'
        rw [set_entries_self, hnew k' hk'] at hr'
        split at hr'
        · next hvalid => exact absurd (Option.some.inj hr') (hforeign hi' hj' hk' hk hr hvalid)
        · cases hr'
      · rw [hother heq'] at hr'
        exact h.distinct i' hi' j' hj' k hk i'' hi'' j'' hj'' k' hk' r hr hr'
  · intro i' hi' j' hj' r hr
    by_cases heq : i' = i ∧ j' = j
    · obtain ⟨rfl, rfl⟩ := heq
      rw [set_entries_self] at hr ⊢
      obtain rfl := List.mem_singleton.mp hr
      obtain ⟨k, hk, hvalid, hkey⟩ := lastKey_mem hlast
      exact ⟨k, hk, by rw [hnew k hk, if_pos hvalid, hkey]⟩
    · rw [hother heq] at hr ⊢
      exact h.sent i' hi' j' hj' r hr

theorem kept_step {e : Event cfg} (h : Kept cfg s) (hcareful : Careful s e)
    (hstep : s.step e = some s') : Kept cfg s' := by
  cases e with
  | start i j view backend =>
    obtain ⟨⟨hi, hj⟩, hstart⟩ := Option.ite_none_right_eq_some.mp hstep
    exact kept_start h hi hj hcareful hstart
  | reuse i j view => exact kept_reuse h (Option.ite_none_right_eq_some.mp hstep).2
  | finish i j view => exact kept_finish h (Option.ite_none_right_eq_some.mp hstep).2
  | discard i j view => exact kept_discard h (Option.ite_none_right_eq_some.mp hstep).2
  | broken i j =>
    obtain ⟨-, heq⟩ := Option.ite_none_right_eq_some.mp hstep
    cases heq
    exact kept_broken h hcareful
  | closeIdleConnection i view => exact kept_closeIdle h hcareful hstep
  | initCp i =>
    cases hstep
    exact kept_initChild h
  | exit i =>
    cases hstep
    exact kept_exitChild h hcareful

/-! ## Looking up a request -/

theorem findEntry_eq_none (h : findEntry cfg s r = none) (hi : i < cfg.children) (hj : j < cfg.maxPool)
    (hk : k < cfg.numBackends) : s.table i j k ≠ r := by
  intro heq
  have hentry := List.findSome?_eq_none_iff.mp h i (List.mem_range.mpr hi)
  have hslot := List.findSome?_eq_none_iff.mp hentry j (List.mem_range.mpr hj)
  have hany : ((List.range cfg.numBackends).any fun k => s.table i j k == r) = true :=
    List.any_eq_true.mpr ⟨k, List.mem_range.mpr hk, beq_iff_eq.mpr heq⟩
  rw [if_pos hany] at hslot
  cases hslot

theorem findEntry_eq_some (h : findEntry cfg s r = some (i, j)) :
    i < cfg.children ∧ j < cfg.maxPool ∧ ∃ k < cfg.numBackends, s.table i j k = r := by
  obtain ⟨i', hi', hentry⟩ := List.exists_of_findSome?_eq_some h
  obtain ⟨j', hj', hslot⟩ := List.exists_of_findSome?_eq_some hentry
  obtain ⟨hany, heq⟩ := Option.ite_none_right_eq_some.mp hslot
  cases heq
  obtain ⟨k, hk, hkey⟩ := List.any_eq_true.mp hany
  exact ⟨List.mem_range.mp hi', List.mem_range.mp hj', k, List.mem_range.mp hk, beq_iff_eq.mp hkey⟩

theorem forward_eq {connects : Nat → Bool} {records : Nat → CancelKey} {p : PoolEntry} {nodes : List Nat}
    (h : ∀ k ∈ nodes, view.valid k = true → p.key k = some (records k) ∧ connects k = true) :
    forward view connects records nodes =
      nodes.filterMap fun k => if view.valid k then (p.slots k).map fun slot => (k, slot.key) else none := by
  induction nodes with
  | nil => rfl
  | cons k nodes ih =>
    obtain ⟨hk, hnodes⟩ := List.forall_mem_cons.mp h
    rw [forward, List.filterMap_cons]
    cases hvalid : view.valid k with
    | false => exact ih hnodes
    | true =>
      obtain ⟨hkey, hconnects⟩ := hk hvalid
      obtain ⟨slot, hslot, heq⟩ := Option.map_eq_some_iff.mp hkey
      rw [hslot, hconnects, ih hnodes, ← heq]
      rfl

theorem key_of_table (h : Kept cfg s) (hi : i < cfg.children) (hj : j < cfg.maxPool)
    (hk : k < cfg.numBackends) (htable : s.table i j k = r) (hr : r ≠ zero) :
    (s.entries i j).key k = some r := by
  rw [h.records i hi j hj k hk] at htable
  cases hkey : (s.entries i j).key k with
  | none =>
    rw [hkey] at htable
    exact absurd htable.symm hr
  | some r' =>
    rw [hkey] at htable
    exact congrArg some htable

theorem mapped_of_kept (h : Kept cfg s) {connects : Nat → Bool} (ha : Answerable s view connects r) :
    Mapped s view r (cancelRequest s view connects r) := by
  constructor
  · intro i j hsent
    obtain ⟨hi, hj, hopened, hmem⟩ := hsent
    obtain ⟨k, hk, hkey⟩ := h.sent i hi j hj r hmem
    have htable : s.table i j k = r := by
      rw [h.records i hi j hj k hk, hkey]
      rfl
    cases hfound : findEntry cfg s r with
    | none => exact absurd htable (findEntry_eq_none hfound hi hj hk)
    | some entry =>
      obtain ⟨i', j'⟩ := entry
      obtain ⟨hi', hj', k', hk', htable'⟩ := findEntry_eq_some hfound
      have hkey' := key_of_table h hi' hj' hk' htable' ha.nonzero
      obtain ⟨rfl, rfl⟩ := h.distinct i' hi' j' hj' k' hk' i hi j hj k hk r hkey' hkey
      rw [cancelRequest, hfound]
      refine forward_eq fun n hn hvalid => ?_
      have hlt := List.mem_range.mp hn
      obtain ⟨hjoined, hconnects⟩ := ha.joined i' j' ⟨hi, hj, hopened, hmem⟩ n hlt hvalid
      obtain ⟨slot, hslot⟩ := Option.isSome_iff_exists.mp hjoined
      have hkeyn : (s.entries i' j').key n = some slot.key := by rw [PoolEntry.key, hslot]; rfl
      refine ⟨?_, hconnects⟩
      rw [h.records i' hi j' hj n hlt, hkeyn]
      rfl
  · intro hunsent
    cases hfound : findEntry cfg s r with
    | none => rw [cancelRequest, hfound]
    | some entry =>
      obtain ⟨i, j⟩ := entry
      obtain ⟨hi, hj, k, hk, htable⟩ := findEntry_eq_some hfound
      have hkey := key_of_table h hi hj hk htable ha.nonzero
      obtain ⟨slot, hslot, heq⟩ := Option.map_eq_some_iff.mp hkey
      have hmem := ha.known i hi j hj k hk slot hslot heq
      have hopened : (s.entries i j).opened = true := by
        cases hclosed : (s.entries i j).opened with
        | true => rfl
        | false =>
          rw [h.empty i hi j hj k hk hclosed] at hkey
          cases hkey
      exact absurd ⟨hi, hj, hopened, hmem⟩ (hunsent i j)

end

/-- Where all steps have been careful, a cancel request of a known pair goes to the nodes of its session,
and another one nowhere. -/
theorem cancelRequest_mapped {cfg : Setup} {s : State}
    (h : Transition.Run (@State.step cfg) Careful .init s) (view : View cfg) (connects : Nat → Bool)
    (r : CancelKey) (ha : Answerable s view connects r) :
    Mapped s view r (cancelRequest s view connects r) :=
  mapped_of_kept (h.invariant (fun _ _ _ hkept hcareful hstep => kept_step hkept hcareful hstep) kept_init)
    ha

/-! ## Two nodes -/

def twoNodes : Setup := ⟨1, 1, 2⟩

def bothUp : View twoNodes := ⟨fun _ => true, 0, by decide⟩

def ownKey (k : Nat) : CancelKey := ⟨k.toUInt32 + 1, 7⟩

def used : List (Event twoNodes) := [.start 0 0 bothUp ownKey, .finish 0 0 bothUp, .reuse 0 0 bothUp]

/-- After a reuse both pairs are good. -/
theorem cancelRequest_mapped_used : ∃ s, Transition.runAll State.step used .init = some s ∧
    Mapped s bothUp ⟨2, 7⟩ (cancelRequest s bothUp (fun _ => true) ⟨2, 7⟩) := by
  have hcareful : Transition.Holds State.step Careful used .init := by
    refine ⟨⟨rfl, fun k hk _ => ⟨?_, fun i' _ j' _ k' _ slot hslot => ?_⟩⟩, trivial, trivial, trivial⟩
    · revert k
      decide
    · cases hslot
  refine ⟨_, rfl, cancelRequest_mapped (.of_runAll rfl hcareful) bothUp _ _
    ⟨by decide, fun i hi j hj k _ slot _ _ => ?_, ?_⟩⟩
  · obtain rfl := Nat.lt_one_iff.mp hi
    obtain rfl := Nat.lt_one_iff.mp hj
    decide
  · rintro i j ⟨hi, hj, -⟩
    obtain rfl := Nat.lt_one_iff.mp hi
    obtain rfl := Nat.lt_one_iff.mp hj
    decide

def idleClosed : List (Event twoNodes) :=
  [.start 0 0 bothUp ownKey, .finish 0 0 bothUp, .closeIdleConnection 0 bothUp]

/-- The pair that the client had got from the second node is still in the table after the session has
been closed, and the first node is sent zeros. -/
theorem not_mapped_idleClosed : ∃ s, Transition.runAll State.step idleClosed .init = some s ∧
    (∀ i j, ¬SentBy twoNodes s ⟨2, 7⟩ i j) ∧
    cancelRequest s bothUp (fun _ => true) ⟨2, 7⟩ = [(0, zero), (1, ⟨2, 7⟩)] ∧
    ¬Mapped s bothUp ⟨2, 7⟩ (cancelRequest s bothUp (fun _ => true) ⟨2, 7⟩) := by
  have hclosed : ∀ s, Transition.runAll State.step idleClosed .init = some s →
      ∀ i j, ¬SentBy twoNodes s ⟨2, 7⟩ i j := by
    rintro s ⟨⟩ i j ⟨hi, hj, hopened, -⟩
    obtain rfl := Nat.lt_one_iff.mp hi
    obtain rfl := Nat.lt_one_iff.mp hj
    cases hopened
  refine ⟨_, rfl, hclosed _ rfl, rfl, fun hmapped => ?_⟩
  cases hmapped.unsent (hclosed _ rfl)

end PgPool.Cancel
