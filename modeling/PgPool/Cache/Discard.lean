import PgPool.Cache.Entries
import PgPool.Lib.Fold
import Mathlib.Tactic.Common

/-!
# Discarded entries

An entry that is discarded is gone if it has slots at the nodes that are valid then, and only
there.  The path of `pool_get_cp` for broken sockets clears no more than the first slots.
-/

namespace PgPool.Cache

/-! ## Closing -/

namespace Entry

variable {env : Env} {p : Entry} {packet : Bool → Nat → Bool} {nodes : List Nat} {freed : Bool}
  {h h' : Heap}

theorem closeNodes_isSome_iff :
    (p.closeNodes packet nodes freed h).isSome ↔ ∀ n ∈ nodes, (p.slots n).isSome := by
  induction nodes generalizing freed h with
  | nil => exact iff_of_true rfl nofun
  | cons n nodes ih =>
    rw [closeNodes, closeNode, List.forall_mem_cons]
    cases p.slots n with
    | none => simp
    | some s => simpa using ih

/-- The connections of the nodes have been closed. -/
theorem mem_closed_closeNodes (hclose : p.closeNodes packet nodes freed h = some h') (c : Nat) :
    c ∈ h'.closed ↔ c ∈ h.closed ∨ ∃ n ∈ nodes, p.con n = some c := by
  induction nodes generalizing freed h with
  | nil =>
    cases hclose
    simp
  | cons n nodes ih =>
    rw [closeNodes, closeNode] at hclose
    cases hslot : p.slots n with
    | none =>
      rw [hslot] at hclose
      cases hclose
    | some s =>
      rw [hslot] at hclose
      rw [ih hclose]
      simp only [List.mem_cons, exists_eq_or_imp, con, hslot, Option.map_some, Option.some.injEq]
      have hcomm : c = s.con ↔ s.con = c := eq_comm
      rw [hcomm]
      tauto

/-- The entry has a slot at each valid node. -/
def Full (env : Env) (p : Entry) : Prop := ∀ n ∈ env.validNodes, (p.slots n).isSome

end Entry

/-- The entry has been closed at the valid nodes, and nothing else. -/
structure Closes (env : Env) (s : ConnectionPool) (i : Nat) (t : ConnectionPool) : Prop where
  others : ∀ j, j ≠ i → t.entries j = s.entries j
  slots : ∀ n, (t.entries i).slots n = none
  closed : ∀ c, c ∈ t.heap.closed ↔
    c ∈ s.heap.closed ∨ ∃ n ∈ env.validNodes, (s.entries i).con n = some c

namespace ConnectionPool

variable {env : Env} {s t : ConnectionPool} {packet : Bool → Nat → Bool} {i : Nat}

@[simp] theorem entries_setEntry_self (p : Entry) (h : Heap) : (s.setEntry i p h).entries i = p :=
  if_pos rfl

theorem entries_setEntry_ne {j : Nat} (p : Entry) (h : Heap) (hne : j ≠ i) :
    (s.setEntry i p h).entries j = s.entries j := if_neg hne

@[simp] theorem heap_setEntry (p : Entry) (h : Heap) : (s.setEntry i p h).heap = h := rfl

theorem close_isSome_iff : (s.close env packet i).isSome ↔ (s.entries i).Full env := by
  rw [close, Option.isSome_map, Entry.closeNodes_isSome_iff]
  rfl

theorem closes_of_close (h : s.close env packet i = some t) : Closes env s i t := by
  obtain ⟨heap, hheap, rfl⟩ := Option.map_eq_some_iff.mp h
  refine ⟨fun j hj => entries_setEntry_ne _ _ hj, fun n => ?_, Entry.mem_closed_closeNodes hheap⟩
  rw [entries_setEntry_self]
  rfl

/-! ## Loops over the pool -/

/-- Of the entries `D` every one has been closed at the valid nodes, and nothing else. -/
structure ClosesAll (env : Env) (s : ConnectionPool) (D : Nat → Prop) (t : ConnectionPool) : Prop where
  others : ∀ i, ¬ D i → t.entries i = s.entries i
  slots : ∀ i, D i → ∀ n, (t.entries i).slots n = none
  closed : ∀ c, c ∈ t.heap.closed ↔
    c ∈ s.heap.closed ∨ ∃ i, D i ∧ ∃ n ∈ env.validNodes, (s.entries i).con n = some c

theorem ClosesAll.refl {D : Nat → Prop} (hD : ∀ i, ¬ D i) : ClosesAll env s D s :=
  ⟨fun _ _ => rfl, fun i hi => absurd hi (hD i), fun c => by simp [hD]⟩

theorem ClosesAll.congr {D E : Nat → Prop} (h : ClosesAll env s D t) (hE : ∀ i, E i ↔ D i) :
    ClosesAll env s E t := by
  obtain rfl : E = D := funext fun i => propext (hE i)
  exact h

/-- One more entry is closed. -/
theorem ClosesAll.insert {u : ConnectionPool} {D : Nat → Prop} (h : ClosesAll env s D t)
    (hi : ¬ D i) (next : Closes env t i u) : ClosesAll env s (fun j => D j ∨ j = i) u := by
  refine ⟨fun j hj => ?_, fun j hj n => ?_, fun c => ?_⟩
  · obtain ⟨hD, hne⟩ := not_or.mp hj
    rw [next.others j hne, h.others j hD]
  · by_cases hne : j = i
    · rw [hne]
      exact next.slots n
    · rw [next.others j hne]
      exact h.slots j (hj.resolve_right hne) n
  · rw [next.closed c, h.closed c, h.others i hi]
    simp only [or_and_right, exists_or, exists_eq_left, or_assoc]

/-- A loop that closes the entries of which a test holds. -/
theorem foldlM_closes {σ : Type} (pool : σ → ConnectionPool) (turn : σ → Nat → Option σ) {test : Nat → Bool}
    (skip : ∀ st i, (pool st).entries i = s.entries i → test i = false →
      ∃ st', turn st i = some st' ∧ pool st' = pool st)
    (closes : ∀ st i, (pool st).entries i = s.entries i → test i = true →
      ((turn st i).isSome ↔ (s.entries i).Full env) ∧
        ∀ st', turn st i = some st' → Closes env (pool st) i (pool st'))
    {indices : List Nat} (hnd : indices.Nodup) (st : σ) (hst : pool st = s) :
    ((indices.foldlM turn st).isSome ↔ ∀ i ∈ indices, test i = true → (s.entries i).Full env) ∧
      ∀ st', indices.foldlM turn st = some st' →
        ClosesAll env s (fun i => i ∈ indices ∧ test i = true) (pool st') := by
  have init : ClosesAll env s (fun i => i ∈ [] ∧ test i = true) (pool st) := by
    rw [hst]
    exact .refl fun i hi => nomatch hi.1
  -- the entry of a turn is as it was before the loop
  have here : ∀ {done : List Nat} {i : Nat} {u : σ}, done ++ [i] <+: indices →
      ClosesAll env s (fun j => j ∈ done ∧ test j = true) (pool u) → (pool u).entries i = s.entries i :=
    fun hpre hu => hu.others _ fun hi => Fold.not_mem_done hnd hpre hi.1
  have step : ∀ done i u v, done ++ [i] <+: indices →
      ClosesAll env s (fun j => j ∈ done ∧ test j = true) (pool u) → turn u i = some v →
      ClosesAll env s (fun j => j ∈ done ++ [i] ∧ test j = true) (pool v) := by
    intro done i u v hpre hu hv
    cases htest : test i with
    | false =>
      obtain ⟨w, hw, hpool⟩ := skip u i (here hpre hu) htest
      obtain rfl : v = w := Option.some.inj (hv.symm.trans hw)
      rw [hpool]
      refine hu.congr fun j => ?_
      rw [List.mem_append, List.mem_singleton, or_and_right]
      refine or_iff_left ?_
      rintro ⟨rfl, hj⟩
      rw [htest] at hj
      cases hj
    | true =>
      have hv := (closes u i (here hpre hu) htest).2 v hv
      refine (hu.insert (fun hi => Fold.not_mem_done hnd hpre hi.1) hv).congr fun j => ?_
      rw [List.mem_append, List.mem_singleton, or_and_right]
      refine or_congr_right (and_iff_left_of_imp ?_)
      rintro rfl
      exact htest
  refine ⟨Fold.isSome_iff init step fun done i u hpre hu => ?_, fun st' => Fold.invariant init step⟩
  cases htest : test i with
  | false =>
    obtain ⟨v, hv, -⟩ := skip u i (here hpre hu) htest
    rw [hv]
    exact iff_of_true rfl nofun
  | true =>
    rw [(closes u i (here hpre hu) htest).1]
    exact ⟨fun h _ => h, fun h => h rfl⟩

end ConnectionPool

/-! ## Discarding -/

/-- What discards entries of the pool: `pool_discard_cp`, `pool_get_cp` where it checks sockets,
`pool_create_cp`, `pool_backend_timer` and `close_idle_connection`. -/
inductive Discarding where
  | discard (user database : List UInt8) (protoMajor : Nat)
  | get (user database : List UInt8) (protoMajor : Nat) (broken : Nat → Bool)
  | evict
  | timer (now : Nat)
  | idle

namespace Discarding

variable (env : Env) (s : ConnectionPool)

/-- The pool after it, before `new_connection` in `pool_create_cp`. -/
def run : Discarding → Option ConnectionPool
  | .discard user database protoMajor => s.poolDiscardCp env user database protoMajor
  | .get user database protoMajor broken =>
      (s.poolGetCp env user database protoMajor true broken).map Prod.snd
  | .evict => if (s.freeEntry env).isSome then some s else s.evict env
  | .timer now => (s.poolBackendTimer env now).map Prod.fst
  | .idle => s.closeIdleConnection env

/-- The entries that are discarded. -/
def Discards : Discarding → Nat → Prop
  | .discard user database protoMajor, i => s.findEntry env user database protoMajor = some i
  | .get user database protoMajor broken, i =>
      s.findEntry env user database protoMajor = some i ∧ (s.entries i).sockBroken env broken = true
  | .evict, i => s.freeEntry env = none ∧ i = s.oldest env
  | .timer now, i => i < env.maxPool ∧ s.expired env now i = true
  | .idle, i => i < env.maxPool ∧ (s.entries i).idle env = true

/-- The slots that are not cleared. -/
def spared : Discarding → Nat → Bool
  | .get _ _ _ _ => Entry.spared
  | .discard _ _ _ | .evict | .timer _ | .idle => fun _ => false

/-- What the loops over the nodes follow pointers to. -/
def Reads (e : Discarding) : Prop :=
  match e with
  | .get _ _ _ _ => True
  | .evict => (s.freeEntry env = none → ∀ i, i < env.maxPool → ((s.entries i).sp env).isSome) ∧
      ∀ i, e.Discards env s i → (s.entries i).Full env
  | .discard _ _ _ | .timer _ | .idle => ∀ i, e.Discards env s i → (s.entries i).Full env

end Discarding

/-- Entries have been closed, and cleared but for some slots. -/
structure Swept (env : Env) (spared : Nat → Bool) (s t : ConnectionPool) (Discards : Nat → Prop) :
    Prop where
  slots : ∀ i, Discards i → ∀ n, (t.entries i).con n = none ↔ spared n = false ∨ (s.entries i).con n = none
  closed : ∀ c, c ∈ t.heap.closed ↔
    c ∈ s.heap.closed ∨ ∃ i, Discards i ∧ ∃ n ∈ env.validNodes, (s.entries i).con n = some c

variable {env : Env} {s t : ConnectionPool} {i : Nat}

theorem Entry.con_eq_none {p : Entry} {n : Nat} : p.con n = none ↔ p.slots n = none :=
  Option.map_eq_none_iff

theorem Entry.full_iff {p : Entry} : p.Full env ↔ ∀ n ∈ env.validNodes, (p.con n).isSome := by
  unfold Entry.Full Entry.con
  simp only [Option.isSome_map]

theorem Entry.con_setClosetime (p : Entry) (time n : Nat) : (p.setClosetime env time).con n = p.con n := by
  unfold Entry.con Entry.setClosetime
  simp only
  split
  · rw [Option.map_map]
    rfl
  · rfl

namespace ConnectionPool

theorem con_take (n : Nat) : ((s.take env i).entries i).con n = (s.entries i).con n := by
  rw [take, entries_setEntry_self]
  exact Entry.con_setClosetime (s.entries i) 0 n

theorem full_take : ((s.take env i).entries i).Full env ↔ (s.entries i).Full env := by
  simp only [Entry.full_iff, con_take]

theorem sockBroken_take (broken : Nat → Bool) :
    ((s.take env i).entries i).sockBroken env broken = (s.entries i).sockBroken env broken := by
  simp only [Entry.sockBroken, con_take]

/-- Nothing is discarded. -/
theorem swept_refl {spared : Nat → Bool} {D : Nat → Prop} (hD : ∀ i, ¬ D i) : Swept env spared s s D :=
  ⟨fun i hi => absurd hi (hD i), fun c => by simp [hD]⟩

end ConnectionPool

/-- One entry has been closed, which has been marked before. -/
theorem Closes.swept {u : ConnectionPool} {i : Nat} (h : Closes env u i t)
    (hcon : ∀ n, (u.entries i).con n = (s.entries i).con n) (hheap : u.heap = s.heap) {D : Nat → Prop}
    (hD : ∀ j, D j ↔ j = i) : Swept env (fun _ => false) s t D := by
  refine ⟨fun j hj n => ?_, fun c => ?_⟩
  · rw [(hD j).mp hj, Entry.con_eq_none]
    exact iff_of_true (h.slots n) (Or.inl rfl)
  · rw [h.closed c, hheap]
    simp only [hD, exists_eq_left, hcon]

theorem Entry.con_partlyCleared (p : Entry) (n : Nat) :
    p.partlyCleared.con n = none ↔ spared n = false ∨ p.con n = none := by
  unfold con partlyCleared
  simp only
  split
  · rename_i h
    simp [h]
  · rename_i h
    simp [h]

/-- The path for broken sockets follows no null pointer. -/
theorem ConnectionPool.discardBroken_eq (env : Env) (u : ConnectionPool) (i : Nat) :
    ∃ t, u.discardBroken env i = some t ∧ (∀ j, j ≠ i → t.entries j = u.entries j) ∧
      t.entries i = (u.entries i).partlyCleared ∧
      ∀ c, c ∈ t.heap.closed ↔ c ∈ u.heap.closed ∨ ∃ n ∈ env.validNodes, (u.entries i).con n = some c := by
  have hsome : ((u.entries i).closeNodes Entry.once
      (env.validNodes.filter fun n => ((u.entries i).slots n).isSome) false u.heap).isSome :=
    Entry.closeNodes_isSome_iff.mpr fun n hn => (List.mem_filter.mp hn).2
  obtain ⟨heap, hheap⟩ := Option.isSome_iff_exists.mp hsome
  refine ⟨u.setEntry i (u.entries i).partlyCleared heap, ?_, fun j hj => entries_setEntry_ne _ _ hj,
    entries_setEntry_self _ _, fun c => ?_⟩
  · rw [discardBroken, hheap]
    rfl
  · rw [heap_setEntry, Entry.mem_closed_closeNodes hheap]
    refine or_congr_right (exists_congr fun n => ?_)
    rw [List.mem_filter, and_assoc]
    refine and_congr_right fun _ => and_iff_right_of_imp fun hcon => ?_
    rw [← Option.isSome_map (f := Slot.con)]
    exact Option.isSome_iff_exists.mpr ⟨c, hcon⟩

open ConnectionPool

namespace Discarding

/-- What an operation does: it follows no null pointer, and sweeps. -/
def Spec (env : Env) (s : ConnectionPool) (e : Discarding) : Prop :=
  ((e.run env s).isSome ↔ e.Reads env s) ∧
    ∀ t, e.run env s = some t → Swept env e.spared s t (e.Discards env s)

theorem spec_discard (user database : List UInt8) (protoMajor : Nat) :
    Spec env s (.discard user database protoMajor) := by
  suffices h : ((s.poolDiscardCp env user database protoMajor).isSome ↔
      ∀ i, s.findEntry env user database protoMajor = some i → (s.entries i).Full env) ∧
      ∀ t, s.poolDiscardCp env user database protoMajor = some t →
        Swept env (fun _ => false) s t fun i => s.findEntry env user database protoMajor = some i from h
  unfold poolDiscardCp
  rcases poolGetCp_cases env s user database protoMajor false fun _ => false with
    ⟨hfind, hget⟩ | ⟨i, hfind, ⟨-, hget⟩ | ⟨hbroken, -⟩⟩
  · rw [hfind, hget]
    refine ⟨iff_of_true rfl nofun, fun t ht => ?_⟩
    cases ht
    exact swept_refl nofun
  · rw [hfind, hget, Option.bind_some, close_isSome_iff]
    refine ⟨by simpa using full_take, fun t ht => ?_⟩
    exact (closes_of_close ht).swept con_take rfl fun j => by rw [Option.some.injEq, eq_comm]
  · cases hbroken

theorem spec_get (user database : List UInt8) (protoMajor : Nat) (broken : Nat → Bool) :
    Spec env s (.get user database protoMajor broken) := by
  suffices h : (((s.poolGetCp env user database protoMajor true broken).map Prod.snd).isSome ↔ True) ∧
      ∀ t, (s.poolGetCp env user database protoMajor true broken).map Prod.snd = some t →
        Swept env Entry.spared s t fun i => s.findEntry env user database protoMajor = some i ∧
          (s.entries i).sockBroken env broken = true from h
  rcases poolGetCp_cases env s user database protoMajor true broken with
    ⟨hfind, hget⟩ | ⟨i, hfind, ⟨hbroken, hget⟩ | ⟨hbroken, hget⟩⟩
  · rw [hfind, hget]
    refine ⟨iff_of_true rfl trivial, fun t ht => ?_⟩
    cases ht
    exact swept_refl nofun
  · rw [Bool.true_and, sockBroken_take] at hbroken
    rw [hfind, hget]
    refine ⟨iff_of_true rfl trivial, fun t ht => ?_⟩
    cases ht
    refine ⟨?_, fun c => ?_⟩
    · rintro j ⟨hj, hbr⟩
      cases hj
      rw [hbroken] at hbr
      cases hbr
    · refine (iff_of_eq rfl).trans (or_iff_left ?_).symm
      rintro ⟨j, ⟨hj, hbr⟩, -⟩
      cases hj
      rw [hbroken] at hbr
      cases hbr
  · rw [Bool.true_and, sockBroken_take] at hbroken
    obtain ⟨u, hu, -, hentry, hclosed⟩ := (s.take env i).discardBroken_eq env i
    have hD : ∀ j, some i = some j ∧ (s.entries j).sockBroken env broken = true ↔ j = i := by
      intro j
      rw [Option.some.injEq]
      refine ⟨fun h => h.1.symm, ?_⟩
      rintro rfl
      exact ⟨rfl, hbroken⟩
    rw [hfind, hget, hu]
    refine ⟨iff_of_true rfl trivial, fun t ht => ?_⟩
    cases ht
    refine ⟨fun j hj n => ?_, fun c => ?_⟩
    · rw [(hD j).mp hj, hentry, Entry.con_partlyCleared, con_take]
    · rw [hclosed c]
      simp only [hD, exists_eq_left, con_take]
      rfl

theorem spec_evict : Spec env s .evict := by
  suffices h : ((if (s.freeEntry env).isSome then some s else s.evict env).isSome ↔
      (s.freeEntry env = none → ∀ i, i < env.maxPool → ((s.entries i).sp env).isSome) ∧
        ∀ i, s.freeEntry env = none ∧ i = s.oldest env → (s.entries i).Full env) ∧
      ∀ t, (if (s.freeEntry env).isSome then some s else s.evict env) = some t →
        Swept env (fun _ => false) s t fun i => s.freeEntry env = none ∧ i = s.oldest env from h
  cases hfree : s.freeEntry env with
  | some i =>
    refine ⟨iff_of_true rfl ⟨nofun, nofun⟩, fun t ht => ?_⟩
    cases ht
    exact swept_refl nofun
  | none =>
    simp only [Option.isSome_none, Bool.false_eq_true, if_false, true_and, forall_eq, forall_const]
    unfold ConnectionPool.evict
    by_cases hall : (List.range env.maxPool).all (fun i => ((s.entries i).sp env).isSome) = true
    · have hsp : ∀ i, i < env.maxPool → ((s.entries i).sp env).isSome := by simpa using hall
      rw [if_pos hall, close_isSome_iff]
      refine ⟨(and_iff_right hsp).symm, fun t ht => ?_⟩
      exact (closes_of_close ht).swept (s := s) (fun _ => rfl) rfl fun _ => Iff.rfl
    · rw [if_neg hall]
      exact ⟨iff_of_false nofun fun h => hall (by simpa using h.1), nofun⟩

/-- The loops over the pool. -/
theorem spec_loop {σ : Type} (pool : σ → ConnectionPool) (turn : σ → Nat → Option σ) {test : Nat → Bool}
    (skip : ∀ st i, (pool st).entries i = s.entries i → test i = false →
      ∃ st', turn st i = some st' ∧ pool st' = pool st)
    (closes : ∀ st i, (pool st).entries i = s.entries i → test i = true →
      ((turn st i).isSome ↔ (s.entries i).Full env) ∧
        ∀ st', turn st i = some st' → Closes env (pool st) i (pool st')) {st : σ} (hst : pool st = s) :
    ((((List.range env.maxPool).foldlM turn st).map pool).isSome ↔
        ∀ i, i < env.maxPool ∧ test i = true → (s.entries i).Full env) ∧
      ∀ t, ((List.range env.maxPool).foldlM turn st).map pool = some t →
        Swept env (fun _ => false) s t fun i => i < env.maxPool ∧ test i = true := by
  obtain ⟨hsome, hresult⟩ :=
    foldlM_closes pool turn skip closes (List.nodup_range (n := env.maxPool)) st hst
  simp only [List.mem_range] at hsome hresult
  refine ⟨?_, fun t ht => ?_⟩
  · rw [Option.isSome_map, hsome]
    simp only [and_imp]
  · obtain ⟨st', hst', rfl⟩ := Option.map_eq_some_iff.mp ht
    obtain ⟨-, hclear, hclosed⟩ := hresult st' hst'
    refine ⟨fun i hi n => ?_, hclosed⟩
    rw [Entry.con_eq_none]
    exact iff_of_true (hclear i hi n) (Or.inl rfl)

theorem expired_congr {u : ConnectionPool} {now : Nat} (h : u.entries i = s.entries i) :
    u.expired env now i = s.expired env now i := by
  unfold expired
  rw [h]

theorem timerTurn_skip {now : Nat} {st : ConnectionPool × Nat} (hsame : st.1.entries i = s.entries i)
    (h : s.expired env now i = false) : ∃ st', timerTurn env now st i = some st' ∧ st'.1 = st.1 := by
  rw [← expired_congr hsame] at h
  unfold timerTurn
  simp only [h]
  split
  · exact ⟨_, rfl, rfl⟩
  · exact ⟨_, rfl, rfl⟩

theorem timerTurn_expired {now nearest : Nat} (h : s.expired env now i = true) :
    timerTurn env now (s, nearest) i = (s.close env Entry.once i).map (·, nearest) := by
  have hidle : (s.entries i).idle env = true := (Bool.and_eq_true_iff.mp h).1
  unfold timerTurn
  simp only [h, hidle]
  rfl

theorem timerTurn_closes {now : Nat} {st : ConnectionPool × Nat} (hsame : st.1.entries i = s.entries i)
    (h : s.expired env now i = true) :
    ((timerTurn env now st i).isSome ↔ (s.entries i).Full env) ∧
      ∀ st', timerTurn env now st i = some st' → Closes env st.1 i st'.1 := by
  rw [← expired_congr hsame] at h
  obtain ⟨u, nearest⟩ := st
  rw [timerTurn_expired h, Option.isSome_map, close_isSome_iff, ← hsame]
  refine ⟨Iff.rfl, fun st' hst' => ?_⟩
  obtain ⟨t, ht, rfl⟩ := Option.map_eq_some_iff.mp hst'
  exact closes_of_close ht

theorem spec_timer (now : Nat) : Spec env s (.timer now) := by
  suffices h : (((s.poolBackendTimer env now).map Prod.fst).isSome ↔
      ∀ i, i < env.maxPool ∧ s.expired env now i = true → (s.entries i).Full env) ∧
      ∀ t, (s.poolBackendTimer env now).map Prod.fst = some t →
        Swept env (fun _ => false) s t fun i => i < env.maxPool ∧ s.expired env now i = true from h
  unfold poolBackendTimer
  rw [Option.map_map]
  exact spec_loop Prod.fst (timerTurn env now) (fun _ _ => timerTurn_skip) (fun _ _ => timerTurn_closes) rfl

theorem spec_idle : Spec env s .idle := by
  suffices h : (((s.closeIdleConnection env).map id).isSome ↔
      ∀ i, i < env.maxPool ∧ (s.entries i).idle env = true → (s.entries i).Full env) ∧
      ∀ t, (s.closeIdleConnection env).map id = some t →
        Swept env (fun _ => false) s t fun i => i < env.maxPool ∧ (s.entries i).idle env = true by
    rw [Option.map_id_fun] at h
    exact h
  unfold closeIdleConnection
  refine spec_loop id _ ?_ ?_ rfl
  · intro u i hsame htest
    rw [← hsame, id_eq] at htest
    exact ⟨u, if_neg (by simp [htest]), rfl⟩
  · intro u i hsame htest
    rw [← hsame, id_eq] at htest
    rw [if_pos htest, Option.isSome_map, close_isSome_iff, ← hsame]
    refine ⟨Iff.rfl, fun st' hst' => ?_⟩
    obtain ⟨t, ht, rfl⟩ := Option.map_eq_some_iff.mp hst'
    obtain ⟨hothers, hslots, hclosed⟩ := closes_of_close ht
    refine ⟨fun j hj => (entries_setEntry_ne _ _ hj).trans (hothers j hj), fun n => ?_, hclosed⟩
    rw [id_eq, entries_setEntry_self]
    exact hslots n

theorem spec (env : Env) (s : ConnectionPool) (e : Discarding) : Spec env s e := by
  cases e with
  | discard user database protoMajor => exact spec_discard user database protoMajor
  | get user database protoMajor broken => exact spec_get user database protoMajor broken
  | evict => exact spec_evict
  | timer now => exact spec_timer now
  | idle => exact spec_idle

end Discarding

/-! ## What is gone -/

/-- Every slot has a connection of its own, which is open. -/
structure Intact (s : ConnectionPool) : Prop where
  opened : ∀ i n c, (s.entries i).con n = some c → c ∉ s.heap.closed
  distinct : ∀ i j n m c, (s.entries i).con n = some c → (s.entries j).con m = some c → i = j ∧ n = m

/-- What is left of an entry that has been discarded: no slot with a connection that is closed, no
connection that is open, and the entry is free for `pool_create_cp`. -/
structure Gone (s t : ConnectionPool) (i : Nat) : Prop where
  slots : ∀ n c, (t.entries i).con n = some c → c ∉ t.heap.closed
  closed : ∀ n c, (s.entries i).con n = some c → c ∈ t.heap.closed
  free : ∀ env : Env, (t.entries i).masterConnection env = none

/-- The condition: the slots of an entry are those of the valid nodes, and are cleared. -/
def Discarding.Covers (env : Env) (s : ConnectionPool) (e : Discarding) : Prop :=
  e.Reads env s ∧
    ∀ i, e.Discards env s i → ∀ n, ((s.entries i).con n).isSome → n ∈ env.validNodes ∧ e.spared n = false

/-- Entries are gone when every slot has been closed and cleared. -/
theorem Swept.gone_iff {spared : Nat → Bool} {D : Nat → Prop} (h : Swept env spared s t D)
    (intact : Intact s) :
    (∀ i, D i → Gone s t i) ↔
      ∀ i, D i → ∀ n, ((s.entries i).con n).isSome → n ∈ env.validNodes ∧ spared n = false := by
  refine forall_congr' fun i => forall_congr' fun hi => ⟨fun hgone n hn => ?_, fun hcovers => ?_⟩
  · obtain ⟨c, hc⟩ := Option.isSome_iff_exists.mp hn
    refine ⟨?_, ?_⟩
    · -- only a turn for this very node can have closed the connection
      rcases (h.closed c).mp (hgone.closed n c hc) with hold | ⟨j, -, m, hm, hcm⟩
      · exact absurd hold (intact.opened i n c hc)
      · obtain ⟨-, rfl⟩ := intact.distinct i j n m c hc hcm
        exact hm
    · have hnone : (t.entries i).con n = none :=
        Entry.con_eq_none.mpr (hgone.free { env with masterNodeId := n })
      refine ((h.slots i hi n).mp hnone).resolve_right fun hs => ?_
      rw [hs] at hc
      cases hc
  · have hnone : ∀ n, (t.entries i).con n = none := by
      intro n
      refine (h.slots i hi n).mpr ?_
      by_cases hn : ((s.entries i).con n).isSome
      · exact Or.inl (hcovers n hn).2
      · exact Or.inr (Option.not_isSome_iff_eq_none.mp hn)
    refine ⟨fun n c hc => ?_, fun n c hc => ?_, fun env => Entry.con_eq_none.mp (hnone env.masterNodeId)⟩
    · rw [hnone n] at hc
      cases hc
    · exact (h.closed c).mpr
        (Or.inr ⟨i, hi, n, (hcovers n (Option.isSome_iff_exists.mpr ⟨c, hc⟩)).1, hc⟩)

/-- Discarded entries are gone if and only if their slots are those of the valid nodes; on the path
for broken sockets, those among the first slots. -/
theorem Discarding.gone_iff_covers (env : Env) {s : ConnectionPool} (intact : Intact s) (e : Discarding) :
    (∃ t, e.run env s = some t ∧ ∀ i, e.Discards env s i → Gone s t i) ↔ e.Covers env s := by
  obtain ⟨hreads, hswept⟩ := e.spec env s
  refine ⟨?_, fun hcovers => ?_⟩
  · rintro ⟨t, ht, hgone⟩
    refine ⟨hreads.mp (by rw [ht]; rfl), ((hswept t ht).gone_iff intact).mp hgone⟩
  · obtain ⟨t, ht⟩ := Option.isSome_iff_exists.mp (hreads.mpr hcovers.1)
    exact ⟨t, ht, ((hswept t ht).gone_iff intact).mpr hcovers.2⟩

/-- A pool with an entry that has a slot for each of four nodes. -/
def fourSlots : ConnectionPool where
  entries i := {
    slots := fun n =>
      if i = 0 ∧ n < 4 then some ⟨some (1, ⟨[], 3, 0, some [97], some [97], none⟩), 10 + n, 0⟩ else none
    counter := fun _ => 0 }
  heap := ⟨[], []⟩
  poolIndex := 0

theorem con_fourSlots {i n c : Nat} (h : (fourSlots.entries i).con n = some c) :
    i = 0 ∧ n < 4 ∧ c = 10 + n := by
  unfold Entry.con fourSlots at h
  simp only at h
  split at h
  · rename_i hin
    exact ⟨hin.1, hin.2, by simpa using h.symm⟩
  · cases h

theorem intact_fourSlots : Intact fourSlots where
  opened i n c _ hc := by cases hc
  distinct i j n m c hn hm := by
    obtain ⟨hi, -, hcn⟩ := con_fourSlots hn
    obtain ⟨hj, -, hcm⟩ := con_fourSlots hm
    omega

theorem gone_iff_covers_discard :
    (∃ t, (Discarding.discard [97] [97] 3).run ⟨1, 60, 4, fun _ => true, 0⟩ fourSlots = some t ∧
      ∀ i, (Discarding.discard [97] [97] 3).Discards ⟨1, 60, 4, fun _ => true, 0⟩ fourSlots i →
        Gone fourSlots t i) ↔
      (Discarding.discard [97] [97] 3).Covers ⟨1, 60, 4, fun _ => true, 0⟩ fourSlots :=
  Discarding.gone_iff_covers _ intact_fourSlots _

/-- A broken socket: the slot of node 3 stays, and its connection is closed. -/
theorem not_gone_broken :
    ∃ t, (Discarding.get [97] [97] 3 fun _ => true).run ⟨1, 60, 4, fun _ => true, 0⟩ fourSlots = some t ∧
      (Discarding.get [97] [97] 3 fun _ => true).Discards ⟨1, 60, 4, fun _ => true, 0⟩ fourSlots 0 ∧
      ¬ Gone fourSlots t 0 := by
  refine ⟨_, rfl, ⟨by decide, by decide⟩, fun h => h.slots 3 13 ?_ ?_⟩
  · decide
  · decide

end PgPool.Cache
