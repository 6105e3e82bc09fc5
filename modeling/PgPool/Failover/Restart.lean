import PgPool.Failover.Mailbox

/-!
# Stop and start

When it stops, the parent writes the statuses of the backends to a file, and when it is started again it
reads them back.  A history of pgpool is a sequence of lives, each from a start to an exit or a crash, with
the file between them.
-/

namespace PgPool

abbrev StatusBytes := List UInt8

/-- A member of `BACKEND_STATUS` is an `int` with one of the numbers 0 to 3. -/
def BackendStatus.bytes : BackendStatus → StatusBytes
  | .unused => [0, 0, 0, 0]
  | .connectWait => [1, 0, 0, 0]
  | .up => [2, 0, 0, 0]
  | .down => [3, 0, 0, 0]

namespace StatusFile

/-- `sizeof(backend_rec)`. -/
def recordSize : Nat := 4 * maxNumBackends

/-- `backend_rec.status[i]`. -/
def entry (rec : StatusBytes) (i : Nat) : StatusBytes := (rec.drop (4 * i)).take 4

variable (cfg : FailoverConfig)

/-- `backend_rec`, as `write_status_file()` fills it. -/
def record (status : Int → BackendStatus) : StatusBytes :=
  (List.range maxNumBackends).flatMap fun i =>
    if i < cfg.numBackends then (status i).bytes else [0, 0, 0, 0]

/-- `write_status_file()`: the file that is left.  It cannot be opened, or so many bytes get out. -/
def writeStatusFile (out : Option Nat) (status : Int → BackendStatus) (file : Option StatusBytes) :
    Option StatusBytes :=
  match out with
  | none => file
  | some n => some ((record cfg status).take n)

/-- A node that the record has down. -/
def saysDown (rec : StatusBytes) (i : Nat) : Bool := entry rec i == BackendStatus.down.bytes

/-- `someone_wakeup`. -/
def someoneWakeup (rec : StatusBytes) : Bool := (List.range cfg.numBackends).any fun i => !saysDown rec i

/-- `read_status_file()`, with the file that is left and the statuses. -/
def readStatusFile (discardStatus unlinked : Bool) (file : Option StatusBytes)
    (status : Int → BackendStatus) : Int × Option StatusBytes × (Int → BackendStatus) :=
  match file with
  | none => (-1, none, status)
  | some rec =>
    if discardStatus then (0, if unlinked then none else some rec, status)
    else if rec.length < recordSize then (-1, some rec, status)
    else
      (0, some rec, fun i =>
        if cfg.IsNode i then
          if saysDown rec i.toNat && someoneWakeup cfg rec then .down else .connectWait
        else status i)

end StatusFile

/-! ## Lives -/

/-- What the parent is started with: the option `-D`, the statuses that the configuration file gives, in
which no slot below the number of backends is left out, and what `find_primary_node()` returns. -/
structure Boot (cfg : FailoverConfig) where
  discardStatus : Bool
  unlinked : Bool
  configured : Int → BackendStatus
  primary : Int
  configured_node : ∀ i, cfg.IsNode i → configured i = .connectWait
  primary_node : primary = -1 ∨ cfg.IsNode primary

/-- `main()` up to its loop: the statuses, and `Req_info`, which is zero before. -/
def startUp (cfg : FailoverConfig) (b : Boot cfg) (file : Option StatusBytes) : ParentState :=
  let s : ParentState :=
    { status := (StatusFile.readStatusFile cfg b.discardStatus b.unlinked file b.configured).2.2
      reqInfo := ⟨.nodeUp, fun _ => -1, 0, 0⟩
      signalPending := false
      failoverRequest := false
      phase := .waiting
      accepted := []
      owed := []
      used := [] }
  { s with reqInfo := ⟨.nodeUp, fun _ => -1, s.getNextMasterNode cfg, b.primary⟩ }

/-- The status file, and the parent while it lives. -/
structure World where
  file : Option StatusBytes
  parent : Option ParentState

/-- A start, a step of the life, an exit through `myexit()` with what comes of the file, or a crash. -/
inductive WorldEvent (cfg : FailoverConfig) where
  | start (b : Boot cfg)
  | parent (e : ParentEvent cfg)
  | exit (out : Option Nat)
  | crash

namespace World

def step (cfg : FailoverConfig) (w : World) : WorldEvent cfg → Option World
  | .start b =>
    match w.parent with
    | none =>
      some ⟨(StatusFile.readStatusFile cfg b.discardStatus b.unlinked w.file b.configured).2.1,
        some (startUp cfg b w.file)⟩
    | some _ => none
  | .parent e => w.parent.bind fun s => (ParentState.step cfg s e).map fun t => ⟨w.file, some t⟩
  | .exit out => w.parent.map fun s => ⟨StatusFile.writeStatusFile cfg out s.status w.file, none⟩
  | .crash => w.parent.map fun _ => ⟨w.file, none⟩

end World

/-! ## The file -/

/-- A piece of a list that is put together of pieces of one length. -/
theorem piece_flatMap {α β : Type} {k : Nat} {f : α → List β} (hf : ∀ a, (f a).length = k) :
    ∀ (l : List α) {i : Nat} (hi : i < l.length), ((l.flatMap f).drop (k * i)).take k = f (l.get ⟨i, hi⟩) := by
  intro l
  induction l with
  | nil => exact fun hi => absurd hi (Nat.not_lt_zero _)
  | cons a l ih =>
    intro i hi
    cases i with
    | zero => simp [hf]
    | succ i =>
      have hlen : k * (i + 1) = (f a).length + k * i := by
        rw [hf, Nat.mul_succ, Nat.add_comm]
      rw [List.flatMap_cons, hlen, ← List.drop_drop, List.drop_left]
      exact ih (Nat.lt_of_succ_lt_succ hi)

theorem length_flatMap_pieces {α β : Type} {k : Nat} {f : α → List β} (hf : ∀ a, (f a).length = k)
    (l : List α) : (l.flatMap f).length = k * l.length := by
  induction l with
  | nil => rfl
  | cons a l ih => rw [List.flatMap_cons, List.length_append, hf, ih, List.length_cons, Nat.mul_succ,
      Nat.add_comm]

namespace StatusFile

variable {cfg : FailoverConfig} {status : Int → BackendStatus}

theorem length_piece (i : Nat) :
    (if i < cfg.numBackends then (status i).bytes else [0, 0, 0, 0]).length = 4 := by
  split
  · cases status i <;> rfl
  · rfl

theorem length_record : (record cfg status).length = recordSize := by
  rw [record, length_flatMap_pieces length_piece, List.length_range, recordSize]

/-- The file says of a node what the status was. -/
theorem saysDown_record {i : Nat} (hi : i < cfg.numBackends) :
    saysDown (record cfg status) i = decide (status i = .down) := by
  have hroom : i < (List.range maxNumBackends).length := by
    rw [List.length_range]
    exact Nat.lt_of_lt_of_le hi cfg.numBackends_le
  rw [saysDown, entry, record, piece_flatMap length_piece _ hroom]
  simp only [List.get_eq_getElem, List.getElem_range, if_pos hi]
  cases status i <;> rfl

theorem someoneWakeup_record :
    someoneWakeup cfg (record cfg status) = true ↔ ∃ i, cfg.IsNode i ∧ status i ≠ .down := by
  simp only [someoneWakeup, List.any_eq_true, List.mem_range]
  constructor
  · rintro ⟨i, hi, hup⟩
    refine ⟨i, ⟨Int.natCast_nonneg i, Int.ofNat_lt.2 hi⟩, ?_⟩
    rw [saysDown_record hi] at hup
    simpa using hup
  · rintro ⟨i, ⟨hpos, hlt⟩, hup⟩
    obtain ⟨k, rfl⟩ := Int.eq_ofNat_of_zero_le hpos
    refine ⟨k, Int.ofNat_lt.1 hlt, ?_⟩
    rw [saysDown_record (Int.ofNat_lt.1 hlt)]
    simpa using hup

/-- What is read of any file: a node is down or waits, and what is no node is left alone. -/
theorem readStatusFile_cases (discardStatus unlinked : Bool) (file : Option StatusBytes)
    (status : Int → BackendStatus) {i : Int} :
    let read := (readStatusFile cfg discardStatus unlinked file status).2.2 i
    read = status i ∨ cfg.IsNode i ∧ (read = .connectWait ∨ read = .down) := by
  unfold readStatusFile
  cases file with
  | none => exact Or.inl rfl
  | some rec =>
    dsimp only
    split
    · exact Or.inl rfl
    · split
      · exact Or.inl rfl
      · dsimp only
        split
        · rename_i hnode
          split
          · exact Or.inr ⟨hnode, Or.inr rfl⟩
          · exact Or.inr ⟨hnode, Or.inl rfl⟩
        · exact Or.inl rfl

end StatusFile

/-! ## Every life starts well -/

variable {cfg : FailoverConfig}

/-- `get_next_master_node()` does not ask for the master. -/
theorem getNextMasterNode_congr {s t : ParentState} (hstatus : t.status = s.status) :
    t.getNextMasterNode cfg = s.getNextMasterNode cfg := by
  unfold ParentState.getNextMasterNode ParentState.valid FailoverConfig.validBackend
  rw [hstatus]
  cases cfg.rawMode with
  | true => rfl
  | false => rfl

/-- Whatever the file holds, the parent starts as it should. -/
theorem started_startUp (b : Boot cfg) (file : Option StatusBytes) :
    (startUp cfg b file).Started cfg where
  kind := rfl
  nodeId _ := rfl
  masterNodeId := by
    unfold startUp
    exact getNextMasterNode_congr rfl
  primaryNodeId := b.primary_node
  status i hi := by
    obtain hsame | ⟨-, hread⟩ := @StatusFile.readStatusFile_cases cfg b.discardStatus b.unlinked
      file b.configured i
    · exact Or.inl (hsame.trans (b.configured_node i hi))
    · exact hread
  signalPending := rfl
  failoverRequest := rfl
  phase := rfl
  accepted := rfl
  owed := rfl
  used := rfl

open Transition

/-- What holds in every run from a good start holds in every life. -/
theorem life_of_run {file : Option StatusBytes} {w : World} {s : ParentState}
    (hrun : Run (World.step cfg) Any ⟨file, none⟩ w) (hlife : w.parent = some s) :
    ∃ start, start.Started cfg ∧ Run (ParentState.step cfg) Any start s := by
  revert s
  refine hrun.invariant (I := fun w => ∀ {s}, w.parent = some s →
    ∃ start, start.Started cfg ∧ Run (ParentState.step cfg) Any start s) ?_ (fun h => by cases h)
  intro w e w' ih _ hstep s hs
  cases e with
  | start b =>
    simp only [World.step] at hstep
    split at hstep
    · cases hstep
      cases hs
      exact ⟨_, started_startUp b w.file, .refl⟩
    · cases hstep
  | parent e =>
    simp only [World.step, Option.bind_eq_some_iff, Option.map_eq_some_iff] at hstep
    obtain ⟨t, ht, u, hu, rfl⟩ := hstep
    cases hs
    obtain ⟨start, hstart, hlife⟩ := ih ht
    exact ⟨start, hstart, hlife.step e trivial hu⟩
  | exit out =>
    simp only [World.step, Option.map_eq_some_iff] at hstep
    obtain ⟨t, -, rfl⟩ := hstep
    cases hs
  | crash =>
    simp only [World.step, Option.map_eq_some_iff] at hstep
    obtain ⟨t, -, rfl⟩ := hstep
    cases hs

/-! ## Detached nodes stay detached -/

/-- A child connects to the node, or the parent may attach it. -/
def ParentState.Attaches (s : ParentState) (i : Int) : ParentEvent cfg → Prop
  | .newConnection j => j = i
  | .testFailback => s.reqInfo.kind = .nodeUp ∧ s.reqInfo.nodeId 0 = i
  | _ => False

theorem ParentState.down_setDown {status : Int → BackendStatus} {i : Int} (h : status i = .down)
    (nodes : List Int) : setDown status nodes i = .down := by
  unfold setDown
  split
  · rfl
  · exact h

/-- Nothing else changes the status of a node that is down. -/
theorem ParentState.stillDown_of_step {s t : ParentState} {e : ParentEvent cfg} {i : Int}
    (hstep : step cfg s e = some t) (hattach : ¬ s.Attaches i e) (hdown : s.status i = .down) :
    t.status i = .down := by
  cases stepped_of_step hstep with
  | degenerateBackendSet view nodeIdSet _ _ => rwa [status_degenerateBackendSet]
  | promoteBackend view nodeId _ => rwa [status_promoteBackend]
  | failbackSignal view nodeId => rwa [status_failbackSignal]
  | startRecovery view nodeId => rwa [status_startRecovery]
  | newConnection j _ =>
    simp only [Attaches] at hattach
    simpa only [Function.update_of_ne (Ne.symm hattach)] using hdown
  | lock _ => rwa [status_lock]
  | testFailback phase =>
    simp only [Attaches, not_and] at hattach
    unfold testFailback
    dsimp only
    split
    · rename_i hkind
      split
      · exact hdown
      · split
        · exact hdown
        · simpa only [chooseMaster, Function.update_of_ne (Ne.symm (hattach hkind))] using hdown
    · exact hdown
  | dispatch phase =>
    unfold dispatch
    dsimp only
    split
    · split
      · exact hdown
      · split
        · exact hdown
        · exact hdown
    · split
      · exact down_setDown hdown _
      · exact down_setDown hdown _
  | choosePrimary phase => exact hdown
  | followPrimary found below phase _ => exact down_setDown hdown _
  | saveNodeIds phase => exact hdown
  | clearRequest phase =>
    rename_i caller
    cases caller with
    | checkRequest => exact hdown
    | healthCheck => exact hdown
  | failbackKind | failbackNodeId | closeIdle | signal | failoverHandler | wakeUp | checkRequest
  | healthCheckFailed | healthCheckNodeId | checkRequestAgain => exact hdown

/-- The file makes the node down at the next start. -/
def StatusFile.Restores (cfg : FailoverConfig) (i : Int) (file : Option StatusBytes) : Prop :=
  ∃ rec ∈ file, recordSize ≤ rec.length ∧ saysDown rec i.toNat = true ∧ someoneWakeup cfg rec = true

namespace World

/-- The node is down, or will be at the next start. -/
def Detached (cfg : FailoverConfig) (i : Int) (w : World) : Prop :=
  match w.parent with
  | some s => s.status i = .down
  | none => StatusFile.Restores cfg i w.file

/-- The step does not attach the node, the statuses are neither discarded nor lost, and a node is up when
they are saved. -/
def Keeps (cfg : FailoverConfig) (i : Int) (w : World) : WorldEvent cfg → Prop
  | .start b => b.discardStatus = false
  | .parent e => ∀ s ∈ w.parent, ¬ s.Attaches i e
  | .exit out => (∃ n ∈ out, StatusFile.recordSize ≤ n) ∧
      ∀ s ∈ w.parent, ∃ j, cfg.IsNode j ∧ s.status j ≠ .down
  | .crash => StatusFile.Restores cfg i w.file

theorem detached_step {i : Int} (hi : cfg.IsNode i) {w w' : World} {e : WorldEvent cfg}
    (hdet : w.Detached cfg i) (hkeeps : w.Keeps cfg i e) (hstep : step cfg w e = some w') :
    w'.Detached cfg i := by
  cases e with
  | start b =>
    simp only [step] at hstep
    split at hstep
    · rename_i hoff
      cases hstep
      simp only [Detached, hoff] at hdet
      obtain ⟨rec, hfile, hsize, hdown, hwakeup⟩ := hdet
      have hfile : w.file = some rec := hfile
      have hkeeps : b.discardStatus = false := hkeeps
      have hfull : ¬ rec.length < StatusFile.recordSize := Nat.not_lt.2 hsize
      simp [Detached, startUp, StatusFile.readStatusFile, hfile, hkeeps, hfull, hi, hdown, hwakeup]
    · cases hstep
  | parent e =>
    simp only [step, Option.bind_eq_some_iff, Option.map_eq_some_iff] at hstep
    obtain ⟨s, hs, t, ht, rfl⟩ := hstep
    simp only [Detached, hs] at hdet ⊢
    exact ParentState.stillDown_of_step ht (hkeeps s hs) hdet
  | exit out =>
    simp only [step, Option.map_eq_some_iff] at hstep
    obtain ⟨s, hs, rfl⟩ := hstep
    simp only [Detached, hs] at hdet ⊢
    obtain ⟨⟨n, hout, hn⟩, hup⟩ := hkeeps
    have hout : out = some n := hout
    obtain ⟨k, rfl⟩ := Int.eq_ofNat_of_zero_le hi.1
    have hwhole : (StatusFile.record cfg s.status).take n = StatusFile.record cfg s.status :=
      List.take_of_length_le (by rwa [StatusFile.length_record])
    refine ⟨StatusFile.record cfg s.status, ?_, StatusFile.length_record.ge, ?_,
      StatusFile.someoneWakeup_record.2 (hup s hs)⟩
    · simp [StatusFile.writeStatusFile, hout, hwhole]
    · rw [Int.toNat_natCast, StatusFile.saysDown_record (Int.ofNat_lt.1 hi.2)]
      simpa using hdet
  | crash =>
    simp only [step, Option.map_eq_some_iff] at hstep
    obtain ⟨s, -, rfl⟩ := hstep
    exact hkeeps

/-- **Main result.** A node that is down stays down, over any number of stops and starts. -/
theorem detached_of_run {i : Int} (hi : cfg.IsNode i) {w w' : World}
    (hrun : Run (step cfg) (fun w e => w.Keeps cfg i e) w w') (hdet : w.Detached cfg i) :
    w'.Detached cfg i :=
  hrun.invariant (fun _ _ _ hdet hkeeps hstep => detached_step hi hdet hkeeps hstep) hdet

open ParentState in
/-- The replicas, of which node 1 is down. -/
def detachedReplica : ParentState :=
  { replicasStart with status := Function.update replicasUp.status 1 .down }

open ParentState in
def replicasBoot : Boot replicas where
  discardStatus := false
  unlinked := true
  configured := replicasUp.status
  primary := -1
  configured_node _ hi := if_pos hi
  primary_node := Or.inl rfl

theorem keeps_exit : Keeps ParentState.replicas 1 ⟨none, some detachedReplica⟩
    (.exit (some StatusFile.recordSize)) := by
  refine ⟨⟨_, rfl, Nat.le_refl _⟩, fun s hs => ⟨0, by decide, ?_⟩⟩
  cases hs
  decide

theorem detached_restart :
    ∃ w', Run (step ParentState.replicas) (fun w e => w.Keeps ParentState.replicas 1 e)
        ⟨none, some detachedReplica⟩ w' ∧ w'.parent.isSome = true ∧
      w'.Detached ParentState.replicas 1 := by
  have hfirst : Run (step ParentState.replicas) (fun w e => w.Keeps ParentState.replicas 1 e)
      ⟨none, some detachedReplica⟩ ⟨none, some detachedReplica⟩ := Run.refl
  have hrun := (hfirst.step _ keeps_exit rfl).step (.start replicasBoot) rfl rfl
  exact ⟨_, hrun, rfl, detached_of_run (by decide) hrun rfl⟩

end World

/-- A file that is too short. -/
theorem life_short_file :
    ∃ s start : ParentState, start.Started ParentState.replicas ∧
      Run (ParentState.step ParentState.replicas) Any start s := by
  obtain ⟨start, hstart, hlife⟩ := @life_of_run ParentState.replicas (some [3, 0]) _ _
    (Run.refl.step (.start World.replicasBoot) trivial rfl) rfl
  exact ⟨_, start, hstart, hlife⟩

end PgPool
