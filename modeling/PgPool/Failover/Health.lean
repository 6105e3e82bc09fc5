import PgPool.Failover.Mailbox

/-!
# The health check

`health_check()` connects to the nodes one after the other and stops at the first one that fails.  The
main loop of the parent counts what it finds, and degenerates a node at once or, in parallel mode, after
some retries.
-/

namespace PgPool.HealthCheck

/-! ## The source -/

/-- `dbname` of `health_check()`: "postgres" or "template1". -/
inductive HealthDb where
  | postgres | template1
  deriving DecidableEq, Repr

/-- What comes of a connection to a node: it is not made, the startup packet is not written, nothing is
read, or a kind is read, and "X" can be written then or not. -/
inductive Probe where
  | notConnected | notWritten | notRead | eof
  | answered (kind : UInt8) (terminated : Bool)
  deriving DecidableEq, Repr

/-- What the parent finds when it makes a round of its main loop: the shared memory, the outcome of the
connections, whether the SystemDB answers, and whether a signal other than the alarm has interrupted a
system call last. -/
structure Round where
  inRecovery : Bool
  status : Int → BackendStatus
  probe : HealthDb → Nat → Probe
  sysdbStatus : BackendStatus
  sysdbAnswers : Bool
  interrupted : Bool

/-- The static variables of `health_check()`, the counters of the main loop, and what has happened so
far: the nodes that were found to fail, those that were degenerated, how often the SystemDB was found to
fail and how often it was set down. -/
structure Loop where
  isFirst : Bool
  dbname : HealthDb
  retrycnt : Nat
  sysRetrycnt : Nat
  reports : List Nat
  downs : List Nat
  sysReports : Nat
  sysDowns : Nat

def Loop.init : Loop := ⟨true, .postgres, 0, 0, [], [], 0, 0⟩

/-- How the loop over the nodes ends. -/
inductive Scan where
  | passed
  | failed (i : Nat)
  | retry
  deriving DecidableEq, Repr

/-- The loop over the nodes, with `is_first`. -/
def scan (r : Round) (db : HealthDb) : List Nat → Bool → Scan × Bool
  | [], isFirst => (.passed, isFirst)
  | i :: nodes, isFirst =>
    if r.status i = .unused ∨ r.status i = .down then scan r db nodes isFirst
    else
      match r.probe db i with
      | .notConnected | .notWritten | .notRead | .eof => (.failed i, isFirst)
      | .answered kind terminated =>
        -- no Terminate message is sent to a node that raised an error
        if kind ≠ 69 ∧ terminated = false then
          (if db = .postgres then .retry else .failed i, false)
        else scan r db nodes false

/-- `health_check()`: what it returns, and its static variables. -/
def healthCheck (numBackends : Nat) (r : Round) (isFirst : Bool) (dbname : HealthDb) :
    Nat × Bool × HealthDb :=
  if r.inRecovery then (0, isFirst, dbname)
  else
    let dbname := if isFirst then .postgres else dbname
    match scan r dbname (List.range numBackends) isFirst with
    | (.passed, isFirst) => (0, isFirst, dbname)
    | (.failed i, isFirst) => (i + 1, isFirst, dbname)
    | (.retry, isFirst) =>
      match scan r .template1 (List.range numBackends) isFirst with
      | (.failed i, isFirst) => (i + 1, isFirst, .template1)
      | (_, isFirst) => (0, isFirst, .template1)

/-- `system_db_health_check()` fails. -/
def sysdbFails (r : Round) : Bool := r.sysdbStatus.isUp && !r.sysdbAnswers

/-- The settings that the main loop adds. -/
structure HealthConfig extends FailoverConfig where
  enableQueryCache : Bool
  healthCheckPeriod : Nat

/-- `health_check_period/NUM_BACKENDS`; a division by zero ends the parent. -/
def retrySleep (cfg : HealthConfig) : Option Nat :=
  if cfg.numBackends = 0 then none else some (cfg.healthCheckPeriod / cfg.numBackends)

/-- The part of the round about the SystemDB, with the time to sleep. -/
def sysdbRound (cfg : HealthConfig) (sts : Nat) (sysFails : Bool) (s : Loop) : Option (Loop × Nat) :=
  if sysFails then
    let s := { s with sysReports := s.sysReports + 1 }
    if s.sysRetrycnt + 1 > cfg.numBackends then
      some ({ s with sysRetrycnt := 0, sysDowns := s.sysDowns + 1 }, cfg.healthCheckPeriod)
    -- goes to sleep only when the SystemDB alone was down
    else if sts = 0 then
      (retrySleep cfg).map fun time => ({ s with sysRetrycnt := s.sysRetrycnt + 1 }, time)
    else some ({ s with sysRetrycnt := s.sysRetrycnt + 1 }, cfg.healthCheckPeriod)
  else some (s, cfg.healthCheckPeriod)

/-- One round of the main loop with `health_check_period > 0`: the state after it, and how long the parent
sleeps. -/
def round (cfg : HealthConfig) (s : Loop) (r : Round) : Option (Loop × Nat) :=
  let (sts, isFirst, dbname) := healthCheck cfg.numBackends r s.isFirst s.dbname
  let s := { s with isFirst, dbname }
  let sysFails := (cfg.parallelMode || cfg.enableQueryCache) && sysdbFails r
  if (0 < sts ∨ sysFails = true) ∧ r.interrupted = false then
    if 0 < sts then
      -- `sts--`, and the SystemDB is looked at with what is left of it
      let node := sts - 1
      let s := { s with reports := s.reports ++ [node] }
      if cfg.parallelMode = false then
        if cfg.disallowToFailover node then sysdbRound cfg node sysFails s
        else sysdbRound cfg node sysFails { s with downs := s.downs ++ [node] }
      else if s.retrycnt + 1 > cfg.numBackends then
        sysdbRound cfg node sysFails { s with downs := s.downs ++ [node], retrycnt := 0 }
      else (retrySleep cfg).map fun time => ({ s with retrycnt := s.retrycnt + 1 }, time)
    else sysdbRound cfg sts sysFails s
  else some (s, cfg.healthCheckPeriod)

def step (cfg : HealthConfig) (s : Loop) (r : Round) : Option Loop := (round cfg s r).map Prod.fst

/-! ## One check -/

/-- A node that has answered, and has taken the Terminate message unless it raised an error. -/
def Probe.healthy : Probe → Bool
  | .answered kind terminated => kind == 69 || terminated
  | _ => false

/-- The node is connected to. -/
def Round.Used (r : Round) (i : Nat) : Prop := (r.status i).isUp = true

theorem Round.used_iff {r : Round} {i : Nat} :
    r.Used i ↔ ¬(r.status i = .unused ∨ r.status i = .down) := by
  unfold Round.Used
  cases r.status i <;> simp [BackendStatus.isUp]

/-- The first node of those that are used and not healthy. -/
structure FirstFailing (r : Round) (db : HealthDb) (nodes : List Nat) (i : Nat) : Prop where
  used : r.Used i
  fails : (r.probe db i).healthy = false
  first : ∃ before after, nodes = before ++ i :: after ∧
    ∀ j ∈ before, r.Used j → (r.probe db j).healthy = true

theorem FirstFailing.cons {r : Round} {db : HealthDb} {nodes : List Nat} {i j : Nat}
    (hj : r.Used j → (r.probe db j).healthy = true) (h : FirstFailing r db nodes i) :
    FirstFailing r db (j :: nodes) i := by
  obtain ⟨before, after, rfl, hbefore⟩ := h.first
  exact ⟨h.used, h.fails, j :: before, after, rfl, List.forall_mem_cons.mpr ⟨hj, hbefore⟩⟩

/-- What the end of the loop says about the nodes. -/
def Scan.Says (r : Round) (db : HealthDb) (nodes : List Nat) : Scan → Prop
  | .passed => ∀ i ∈ nodes, r.Used i → (r.probe db i).healthy = true
  | .failed i => FirstFailing r db nodes i
  | .retry => db = .postgres

theorem scan_says (r : Round) (db : HealthDb) (nodes : List Nat) (isFirst : Bool) :
    (scan r db nodes isFirst).1.Says r db nodes := by
  induction nodes generalizing isFirst with
  | nil => exact fun _ h => absurd h List.not_mem_nil
  | cons i nodes ih =>
    have hcons : ∀ isFirst, (r.Used i → (r.probe db i).healthy = true) →
        (scan r db nodes isFirst).1.Says r db (i :: nodes) := by
      intro isFirst hi
      have htail := ih isFirst
      generalize (scan r db nodes isFirst).1 = result at htail
      cases result with
      | passed => exact List.forall_mem_cons.mpr ⟨hi, htail⟩
      | failed j => exact htail.cons hi
      | retry => exact htail
    unfold scan
    by_cases hskip : r.status i = .unused ∨ r.status i = .down
    · rw [if_pos hskip]
      exact hcons isFirst fun hused => absurd hskip (Round.used_iff.mp hused)
    · rw [if_neg hskip]
      have hused : r.Used i := Round.used_iff.mpr hskip
      have hfailed : (r.probe db i).healthy = false → FirstFailing r db (i :: nodes) i :=
        fun hfails => ⟨hused, hfails, [], nodes, rfl, fun _ h => absurd h List.not_mem_nil⟩
      cases hprobe : r.probe db i with
      | notConnected | notWritten | notRead | eof => exact hfailed (by rw [hprobe]; rfl)
      | answered kind terminated =>
        dsimp only
        split
        · rename_i hnot
          split
          · assumption
          · refine hfailed ?_
            rw [hprobe]
            simp [Probe.healthy, hnot.1, hnot.2]
        · rename_i hok
          refine hcons false fun _ => ?_
          rw [hprobe]
          simp only [not_and, Bool.not_eq_false] at hok
          simp only [Probe.healthy, Bool.or_eq_true, beq_iff_eq]
          exact or_iff_not_imp_left.mpr hok

/-- What `health_check()` returns: the first node that fails, or 0 if none does, for the database that it
tried last. -/
structure Checked (numBackends : Nat) (r : Round) (result : Nat × Bool × HealthDb) : Prop where
  zero : result.1 = 0 → r.inRecovery = true ∨
    ∀ i, i < numBackends → r.Used i → (r.probe result.2.2 i).healthy = true
  succ : ∀ i, result.1 = i + 1 → r.inRecovery = false ∧ i < numBackends ∧ r.Used i ∧
    (r.probe result.2.2 i).healthy = false ∧ ∀ j, j < i → r.Used j → (r.probe result.2.2 j).healthy = true

theorem FirstFailing.range {r : Round} {db : HealthDb} {n i : Nat} (h : FirstFailing r db (List.range n) i) :
    i < n ∧ ∀ j, j < i → r.Used j → (r.probe db j).healthy = true := by
  obtain ⟨before, after, heq, hbefore⟩ := h.first
  have hlength := congrArg List.length heq
  rw [List.length_range, List.length_append, List.length_cons] at hlength
  have hi : (List.range n)[before.length]? = some i := by
    rw [heq, List.getElem?_append_right (Nat.le_refl _), Nat.sub_self]
    rfl
  rw [List.getElem?_range (by omega), Option.some.injEq] at hi
  refine ⟨by omega, fun j hj => hbefore j ?_⟩
  have hget : (List.range n)[j]? = before[j]? := by
    rw [heq, List.getElem?_append_left (by omega)]
  rw [List.getElem?_range (by omega)] at hget
  exact List.mem_of_getElem? hget.symm

theorem checked_healthCheck (numBackends : Nat) (r : Round) (isFirst : Bool) (dbname : HealthDb) :
    Checked numBackends r (healthCheck numBackends r isFirst dbname) := by
  have hpassed : ∀ {db isFirst}, (∀ i ∈ List.range numBackends, r.Used i → (r.probe db i).healthy = true) →
      Checked numBackends r (0, isFirst, db) := fun h =>
    ⟨fun _ => .inr fun i hi => h i (List.mem_range.mpr hi), fun i hi => absurd hi.symm (Nat.succ_ne_zero i)⟩
  have hfailed : ∀ {db isFirst i}, r.inRecovery = false → FirstFailing r db (List.range numBackends) i →
      Checked numBackends r (i + 1, isFirst, db) := fun hrecovery h =>
    ⟨fun hi => absurd hi (Nat.succ_ne_zero _), fun j hj => by
      cases hj
      exact ⟨hrecovery, h.range.1, h.used, h.fails, h.range.2⟩⟩
  unfold healthCheck
  cases hrecovery : r.inRecovery with
  | true => exact ⟨fun _ => .inl hrecovery, fun i hi => absurd hi.symm (Nat.succ_ne_zero i)⟩
  | false =>
    simp only [Bool.false_eq_true, if_false]
    have hsays := scan_says r (if isFirst then .postgres else dbname) (List.range numBackends) isFirst
    generalize scan r (if isFirst then .postgres else dbname) (List.range numBackends) isFirst = result
      at hsays
    obtain ⟨result, isFirst'⟩ := result
    cases result with
    | passed => exact hpassed hsays
    | failed i => exact hfailed hrecovery hsays
    | retry =>
      have hagain := scan_says r .template1 (List.range numBackends) isFirst'
      dsimp only
      generalize scan r .template1 (List.range numBackends) isFirst' = result at hagain
      obtain ⟨result, isFirst''⟩ := result
      cases result with
      | passed => exact hpassed hagain
      | failed i => exact hfailed hrecovery hagain
      | retry => cases hagain

/-! ## Counting -/

section

variable {cfg : HealthConfig} {s t : Loop} {r : Round} {i : Nat}

/-- Outside of parallel mode a node that fails is degenerated at once, unless that is not allowed.  In
parallel mode every failure counts, whichever node it is of and whatever comes between them; each time the
count is more than `NUM_BACKENDS`, the node that has failed last is degenerated. -/
structure NodesCounted (cfg : HealthConfig) (s : Loop) : Prop where
  named : ∀ i ∈ s.reports, i < cfg.numBackends
  plain : cfg.parallelMode = false →
    s.downs = s.reports.filter fun i : Nat => !cfg.disallowToFailover i
  parallel : cfg.parallelMode = true → s.retrycnt ≤ cfg.numBackends ∧
    s.reports.length = s.downs.length * (cfg.numBackends + 1) + s.retrycnt ∧
    ∀ k, k < s.downs.length → s.downs[k]? = s.reports[k * (cfg.numBackends + 1) + cfg.numBackends]?

/-- The same for the SystemDB. -/
structure SysCounted (cfg : HealthConfig) (s : Loop) : Prop where
  retries : s.sysRetrycnt ≤ cfg.numBackends
  count : s.sysReports = s.sysDowns * (cfg.numBackends + 1) + s.sysRetrycnt

theorem sysCounted_sysdbRound (h : SysCounted cfg s) (sts : Nat) (sysFails : Bool) :
    ∃ t time, sysdbRound cfg sts sysFails s = some (t, time) ∧ SysCounted cfg t ∧
      t.retrycnt = s.retrycnt ∧ t.reports = s.reports ∧ t.downs = s.downs := by
  have hretries := h.retries
  have hcount := h.count
  unfold sysdbRound
  cases sysFails with
  | false => exact ⟨s, _, rfl, h, rfl, rfl, rfl⟩
  | true =>
    simp only [if_true]
    by_cases hover : s.sysRetrycnt + 1 > cfg.numBackends
    · rw [if_pos hover]
      refine ⟨_, _, rfl, ⟨Nat.zero_le _, ?_⟩, rfl, rfl, rfl⟩
      change s.sysReports + 1 = (s.sysDowns + 1) * (cfg.numBackends + 1) + 0
      rw [Nat.succ_mul]
      omega
    · have hcounted : SysCounted cfg { s with
          sysReports := s.sysReports + 1, sysRetrycnt := s.sysRetrycnt + 1 } :=
        ⟨Nat.le_of_not_lt hover, congrArg (· + 1) hcount⟩
      have hsleep : retrySleep cfg = some (cfg.healthCheckPeriod / cfg.numBackends) :=
        if_neg (by omega)
      rw [if_neg hover]
      by_cases hsts : sts = 0
      · rw [if_pos hsts, hsleep]
        exact ⟨_, _, rfl, hcounted, rfl, rfl, rfl⟩
      · rw [if_neg hsts]
        exact ⟨_, _, rfl, hcounted, rfl, rfl, rfl⟩

theorem NodesCounted.congr (h : NodesCounted cfg s) (hretrycnt : t.retrycnt = s.retrycnt)
    (hreports : t.reports = s.reports) (hdowns : t.downs = s.downs) : NodesCounted cfg t := by
  refine ⟨?_, ?_, ?_⟩
  · rw [hreports]
    exact h.named
  · rw [hreports, hdowns]
    exact h.plain
  · rw [hretrycnt, hreports, hdowns]
    exact h.parallel

theorem NodesCounted.named_append (h : NodesCounted cfg s) (hi : i < cfg.numBackends) :
    ∀ j ∈ s.reports ++ [i], j < cfg.numBackends :=
  List.forall_mem_append.mpr ⟨h.named, List.forall_mem_singleton.mpr hi⟩

/-- A failure outside of parallel mode. -/
theorem NodesCounted.report (h : NodesCounted cfg s) (hi : i < cfg.numBackends)
    (hplain : cfg.parallelMode = false) :
    NodesCounted cfg { s with
      reports := s.reports ++ [i]
      downs := if cfg.disallowToFailover i then s.downs else s.downs ++ [i] } := by
  refine ⟨h.named_append hi, fun _ => ?_, fun hparallel => ?_⟩
  · change (if cfg.disallowToFailover i then s.downs else s.downs ++ [i]) = _
    rw [List.filter_append, ← h.plain hplain]
    cases hallowed : cfg.disallowToFailover i with
    | true => simp [hallowed]
    | false => simp [hallowed]
  · rw [hplain] at hparallel
    cases hparallel

theorem place_lt {k d n : Nat} (m : Nat) (hk : k < d) : k * (n + 1) + n < d * (n + 1) + m := by
  have hle := Nat.mul_le_mul_right (n + 1) (Nat.succ_le_of_lt hk)
  rw [Nat.succ_mul] at hle
  omega

/-- A failure in parallel mode that is counted only. -/
theorem NodesCounted.retry (h : NodesCounted cfg s) (hi : i < cfg.numBackends)
    (hparallel : cfg.parallelMode = true) (hfew : s.retrycnt + 1 ≤ cfg.numBackends) :
    NodesCounted cfg { s with reports := s.reports ++ [i], retrycnt := s.retrycnt + 1 } := by
  obtain ⟨-, hcount, hdowns⟩ := h.parallel hparallel
  refine ⟨h.named_append hi, fun hplain => ?_, fun _ => ⟨hfew, ?_, fun k hk => ?_⟩⟩
  · rw [hparallel] at hplain
    cases hplain
  · change (s.reports ++ [i]).length = s.downs.length * (cfg.numBackends + 1) + (s.retrycnt + 1)
    rw [List.length_append, List.length_singleton]
    omega
  · have hlt : k * (cfg.numBackends + 1) + cfg.numBackends < s.reports.length :=
      hcount ▸ place_lt s.retrycnt hk
    change s.downs[k]? = (s.reports ++ [i])[_]?
    rw [List.getElem?_append_left hlt]
    exact hdowns k hk

/-- A failure in parallel mode that the retries end with. -/
theorem NodesCounted.degenerate (h : NodesCounted cfg s) (hi : i < cfg.numBackends)
    (hparallel : cfg.parallelMode = true) (hover : s.retrycnt + 1 > cfg.numBackends) :
    NodesCounted cfg { s with
      reports := s.reports ++ [i], downs := s.downs ++ [i], retrycnt := 0 } := by
  obtain ⟨hretries, hcount, hdowns⟩ := h.parallel hparallel
  have hretrycnt : s.retrycnt = cfg.numBackends := by omega
  refine ⟨h.named_append hi, fun hplain => ?_, fun _ => ⟨Nat.zero_le _, ?_, fun k hk => ?_⟩⟩
  · rw [hparallel] at hplain
    cases hplain
  · change (s.reports ++ [i]).length = (s.downs ++ [i]).length * (cfg.numBackends + 1) + 0
    rw [List.length_append, List.length_append, List.length_singleton, Nat.succ_mul]
    omega
  · change (s.downs ++ [i])[k]? = (s.reports ++ [i])[_]?
    change k < (s.downs ++ [i]).length at hk
    rw [List.length_append, List.length_singleton] at hk
    obtain hold | rfl := Nat.lt_succ_iff_lt_or_eq.mp hk
    · have hlt : k * (cfg.numBackends + 1) + cfg.numBackends < s.reports.length :=
        hcount ▸ place_lt s.retrycnt hold
      rw [List.getElem?_append_left hold, List.getElem?_append_left hlt]
      exact hdowns k hold
    · rw [hretrycnt] at hcount
      rw [← hcount, List.getElem?_concat_length, List.getElem?_concat_length]

structure Counted (cfg : HealthConfig) (s : Loop) : Prop where
  nodes : NodesCounted cfg s
  sys : SysCounted cfg s

theorem Counted.sysdbRound (h : Counted cfg s) (sts : Nat) (sysFails : Bool) :
    ∃ t, (sysdbRound cfg sts sysFails s).map Prod.fst = some t ∧ Counted cfg t := by
  obtain ⟨t, time, heq, hsys, hretrycnt, hreports, hdowns⟩ := sysCounted_sysdbRound h.sys sts sysFails
  rw [heq]
  exact ⟨t, rfl, h.nodes.congr hretrycnt hreports hdowns, hsys⟩

/-- A round is made to its end, and keeps the counts. -/
theorem Counted.step (h : Counted cfg s) (r : Round) : ∃ t, step cfg s r = some t ∧ Counted cfg t := by
  have hchecked := checked_healthCheck cfg.numBackends r s.isFirst s.dbname
  unfold HealthCheck.step round
  generalize healthCheck cfg.numBackends r s.isFirst s.dbname = result at hchecked
  obtain ⟨sts, isFirst, dbname⟩ := result
  dsimp only at hchecked ⊢
  have hstatics : Counted cfg { s with isFirst, dbname } := ⟨h.nodes.congr rfl rfl rfl, h.sys.retries, h.sys.count⟩
  split
  · split
    · rename_i hsts
      obtain ⟨node, rfl⟩ := Nat.exists_eq_succ_of_ne_zero (Nat.ne_of_gt hsts)
      have hnode := (hchecked.succ node rfl).2.1
      rw [Nat.succ_sub_one]
      cases hmode : cfg.parallelMode with
      | false =>
        have hreport := hstatics.nodes.report hnode hmode
        simp only [if_true]
        split
        · rename_i hdisallowed
          rw [if_pos hdisallowed] at hreport
          exact Counted.sysdbRound ⟨hreport, h.sys.retries, h.sys.count⟩ _ _
        · rename_i hallowed
          rw [if_neg hallowed] at hreport
          exact Counted.sysdbRound ⟨hreport, h.sys.retries, h.sys.count⟩ _ _
      | true =>
        simp only [Bool.true_eq_false, if_false]
        split
        · rename_i hover
          exact Counted.sysdbRound
            ⟨hstatics.nodes.degenerate hnode hmode hover, h.sys.retries, h.sys.count⟩ _ _
        · rename_i hfew
          rw [retrySleep, if_neg (by omega)]
          exact ⟨_, rfl, hstatics.nodes.retry hnode hmode (Nat.le_of_not_lt hfew), h.sys.retries, h.sys.count⟩
    · exact hstatics.sysdbRound _ _
  · exact ⟨_, rfl, hstatics⟩

theorem counted_init (cfg : HealthConfig) : Counted cfg .init where
  nodes := ⟨fun _ h => absurd h List.not_mem_nil, fun _ => rfl, fun _ =>
    ⟨Nat.zero_le _, (Nat.zero_mul _).symm, fun k h => absurd h (Nat.not_lt_zero k)⟩⟩
  sys := ⟨Nat.zero_le _, (Nat.zero_mul _).symm⟩

/-- **What the health check degenerates.**  Whatever the rounds find, the main loop goes on, and its counts
tell which nodes have been degenerated and how often the SystemDB has been set down. -/
theorem counted_rounds (cfg : HealthConfig) (rounds : List Round) :
    ∃ s, Transition.runAll (HealthCheck.step cfg) rounds .init = some s ∧ Counted cfg s := by
  induction rounds using List.reverseRecOn with
  | nil => exact ⟨.init, rfl, counted_init cfg⟩
  | append_singleton rounds r ih =>
    obtain ⟨s, hs, hcounted⟩ := ih
    obtain ⟨t, ht, hnext⟩ := hcounted.step r
    refine ⟨t, ?_, hnext⟩
    rw [Transition.runAll_append hs, Transition.runAll, ht]
    rfl

/-! ## The requests of the parent -/

theorem downs_sysdbRound {sts : Nat} {sysFails : Bool}
    (h : (sysdbRound cfg sts sysFails s).map Prod.fst = some t) : t.downs = s.downs := by
  obtain ⟨⟨u, time⟩, hround, rfl⟩ := Option.map_eq_some_iff.mp h
  unfold sysdbRound at hround
  dsimp only at hround
  split at hround
  · split at hround
    · cases hround
      rfl
    · split at hround
      · obtain ⟨time', -, heq⟩ := Option.map_eq_some_iff.mp hround
        cases heq
        rfl
      · cases hround
        rfl
  · cases hround
    rfl

/-- Only the node that the check has found is degenerated. -/
theorem downs_step (h : HealthCheck.step cfg s r = some t) : t.downs = s.downs ∨
    ∃ i, (healthCheck cfg.numBackends r s.isFirst s.dbname).1 = i + 1 ∧ t.downs = s.downs ++ [i] ∧
      (cfg.parallelMode = true ∨ cfg.disallowToFailover i = false) := by
  unfold HealthCheck.step round at h
  generalize healthCheck cfg.numBackends r s.isFirst s.dbname = result at h ⊢
  obtain ⟨sts, isFirst, dbname⟩ := result
  dsimp only at h ⊢
  split at h
  · split at h
    · rename_i hsts
      obtain ⟨i, rfl⟩ := Nat.exists_eq_succ_of_ne_zero (Nat.ne_of_gt hsts)
      rw [Nat.succ_sub_one] at h
      split at h
      · split at h
        · have hsame := downs_sysdbRound h
          exact .inl hsame
        · rename_i hallowed
          exact .inr ⟨i, rfl, downs_sysdbRound h, .inr (Bool.not_eq_true _ ▸ hallowed)⟩
      · rename_i hmode
        split at h
        · exact .inr ⟨i, rfl, downs_sysdbRound h, .inl (Bool.not_eq_false _ ▸ hmode)⟩
        · obtain ⟨u, hu, rfl⟩ := Option.map_eq_some_iff.mp h
          obtain ⟨time, -, rfl⟩ := Option.map_eq_some_iff.mp hu
          exact .inl rfl
    · have hsame := downs_sysdbRound h
      exact .inl hsame
  · cases h
    exact .inl rfl

/-- All nodes are healthy except one, and so is the SystemDB. -/
def onlyFailing (status : Int → BackendStatus) (node : Nat) : Round where
  inRecovery := false
  status := status
  probe := fun _ i => if i = node then .eof else .answered 82 true
  sysdbStatus := .up
  sysdbAnswers := true
  interrupted := false

theorem healthCheck_onlyFailing {numBackends node : Nat} {status : Int → BackendStatus}
    (hnode : node < numBackends) (hup : (status node).isUp = true) (isFirst : Bool) (dbname : HealthDb) :
    (healthCheck numBackends (onlyFailing status node) isFirst dbname).1 = node + 1 := by
  have hchecked := checked_healthCheck numBackends (onlyFailing status node) isFirst dbname
  generalize healthCheck numBackends (onlyFailing status node) isFirst dbname = result at hchecked ⊢
  have hfails : ∀ db, ((onlyFailing status node).probe db node).healthy = false := fun db => by
    change (if node = node then Probe.eof else _).healthy = false
    rw [if_pos rfl]
    rfl
  cases hsts : result.1 with
  | zero =>
    obtain hrecovery | hhealthy := hchecked.zero hsts
    · cases hrecovery
    · have := hhealthy node hnode hup
      rw [hfails] at this
      cases this
  | succ i =>
    obtain ⟨-, -, -, hi, -⟩ := hchecked.succ i hsts
    by_cases heq : i = node
    · rw [heq]
    · change (if i = node then Probe.eof else _).healthy = false at hi
      rw [if_neg heq] at hi
      cases hi

/-- A round that degenerates the node it finds: the last retry in parallel mode. -/
theorem downs_of_fails {node : Nat} (hsts : (healthCheck cfg.numBackends r s.isFirst s.dbname).1 = node + 1)
    (hinterrupted : r.interrupted = false) (hsys : sysdbFails r = false)
    (hretrycnt : s.retrycnt = cfg.numBackends)
    (hallowed : cfg.parallelMode = true ∨ cfg.disallowToFailover node = false) :
    ∃ t, HealthCheck.step cfg s r = some t ∧ t.downs = s.downs ++ [node] := by
  unfold HealthCheck.step round
  generalize healthCheck cfg.numBackends r s.isFirst s.dbname = result at hsts ⊢
  obtain ⟨sts, isFirst, dbname⟩ := result
  cases hsts
  cases hmode : cfg.parallelMode with
  | false =>
    have hok : cfg.disallowToFailover node = false := hallowed.resolve_left (by simp [hmode])
    simp [hinterrupted, hsys, sysdbRound, hok]
  | true => simp [hinterrupted, hsys, sysdbRound, hretrycnt]

/-- **The health check and the mailbox.**  What the parent is told of a failed check is what some round of
the main loop degenerates: a node in use, and outside of parallel mode one that may be degenerated. -/
theorem healthCheckFinds_iff (cfg : HealthConfig) (p : ParentState) (node : Nat) :
    p.healthCheckFinds cfg.toFailoverConfig node = true ↔
      ∃ s r t, r.status = p.status ∧ HealthCheck.step cfg s r = some t ∧ t.downs = s.downs ++ [node] := by
  have hfinds : p.healthCheckFinds cfg.toFailoverConfig node = true ↔ node < cfg.numBackends ∧
      (p.status node).isUp = true ∧ (cfg.parallelMode = true ∨ cfg.disallowToFailover node = false) := by
    simp [ParentState.healthCheckFinds, FailoverConfig.IsNode, and_assoc]
  rw [hfinds]
  constructor
  · rintro ⟨hnode, hup, hallowed⟩
    have hsts := healthCheck_onlyFailing hnode hup false .postgres
    obtain ⟨t, hstep, hdowns⟩ := downs_of_fails
      (s := { Loop.init with isFirst := false, retrycnt := cfg.numBackends }) hsts rfl rfl rfl hallowed
    exact ⟨_, _, t, rfl, hstep, hdowns⟩
  · rintro ⟨s, r, t, hstatus, hstep, hdowns⟩
    obtain hsame | ⟨i, hsts, happend, hallowed⟩ := downs_step hstep
    · rw [hsame] at hdowns
      simp at hdowns
    · have hi : i = node := by
        rw [happend] at hdowns
        simpa using hdowns
      subst hi
      obtain ⟨-, hnode, hused, -, -⟩ := (checked_healthCheck cfg.numBackends r s.isFirst s.dbname).succ i hsts
      rw [Round.Used, hstatus] at hused
      exact ⟨hnode, hused, hallowed⟩

end

end PgPool.HealthCheck
