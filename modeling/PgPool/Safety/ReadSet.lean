import PgPool.Child

/-!
# The nodes that are read are the nodes that were sent to

`read_kind_from_backend` reads from the nodes of the map as `pool_send_and_wait` has left it.  For
the calls that the code makes the two sets agree as long as the virtual master is up and is not
skipped by a COMMIT or ROLLBACK.
-/

namespace PgPool

open Transition

namespace Session

variable {env : Setup} {ans : Answers} {qc : QcId} {s : Session} {calls : List SendCall} {i : NodeId}

/-- What the caller of `pool_send_and_wait` and `read_kind_from_backend` relies on: replies are read
from the nodes that got a message, these are up, and the virtual master is one of them. -/
structure ReadsWhatItSent (env : Setup) (qc : QcId) (s t : Session) : Prop where
  exact : ∀ i, i ∈ t.readKindNodes env ↔ SentBetween qc s t i
  up : ∀ i ∈ t.readKindNodes env, env.isMyUp i = true
  master : t.masterNodeId env ∈ t.readKindNodes env

/-- The virtual master is a node of the map that is up and not one that a COMMIT or ROLLBACK skips. -/
structure MasterServes (env : Setup) (qc : QcId) (s : Session) : Prop where
  master : s.masterNodeId env ∈ s.validNodes env
  masterUp : env.isMyUp (s.masterNodeId env) = true
  masterOpen : s.commitSkips env qc (s.masterNodeId env) = false

/-- Besides, the calls for a query leave no node of its map out. -/
structure Covered (env : Setup) (qc : QcId) (calls : List SendCall) (s : Session) : Prop
    extends MasterServes env qc s where
  addressed : ∀ i ∈ s.validNodes env, Addresses calls i

/-- **The nodes read are the nodes sent to** exactly if the calls cover the map and the virtual
master is up and not skipped. -/
theorem readsWhatItSent_iff_covered (hqc : s.queryContext = some qc) (hp : s.inProgress = true) :
    ReadsWhatItSent env qc s (sendCalls env qc calls s) ↔ Covered env qc calls s := by
  constructor
  · intro ⟨exact, up, master⟩
    have hsent := (sentBetween_sendCalls hqc hp).1 ((exact _).1 master)
    rw [masterNodeId_sendCalls] at hsent master
    refine ⟨⟨hsent.1, up _ master, hsent.2.2⟩, ?_⟩
    intro i hi
    by_cases ha : Addresses calls i
    · exact ha
    -- a valid node that no call is for would stay in the map and be read
    · have hread : i ∈ (sendCalls env qc calls s).readKindNodes env :=
        (mem_readKindNodes_sendCalls hqc hp).2 ⟨hi, Or.inr fun h => ha h.1⟩
      exact ((sentBetween_sendCalls hqc hp).1 ((exact i).1 hread)).2.1
  · intro ⟨⟨master, masterUp, masterOpen⟩, addressed⟩
    have hopen : ∀ i, i ∈ s.validNodes env → env.rawMode = true →
        i = s.masterNodeId env := fun i hi hraw =>
      (eq_realMaster_of_raw hraw hi).trans (eq_realMaster_of_raw hraw master).symm
    refine ⟨fun i => ?_, fun i hi => ?_, ?_⟩
    · rw [mem_readKindNodes_sendCalls hqc hp, sentBetween_sendCalls hqc hp]
      constructor
      · rintro ⟨hi, hraw | hkeep⟩
        · rw [hopen i hi hraw]
          exact ⟨master, addressed _ master, masterOpen⟩
        · refine ⟨hi, addressed i hi, ?_⟩
          rw [← Bool.not_eq_true]
          exact fun hskip => hkeep ⟨addressed i hi, hskip⟩
      · rintro ⟨hi, -, hskip⟩
        refine ⟨hi, Or.inr ?_⟩
        rw [hskip]
        rintro ⟨-, h⟩
        cases h
    · have hi := ((mem_readKindNodes_sendCalls hqc hp).1 hi).1
      cases hraw : env.rawMode with
      | true => rw [hopen i hi hraw]; exact masterUp
      | false => exact isMyUp_of_valid hraw hi
    · rw [masterNodeId_sendCalls, mem_readKindNodes_sendCalls hqc hp]
      refine ⟨master, Or.inr ?_⟩
      rw [masterOpen]
      rintro ⟨-, h⟩
      cases h

/-- An INSERT that has been routed to two replicas. -/
def insertRouted : Session :=
  poolWhereToSend .replicaPair Answers.quiet.lookups 0 "INSERT" functionCallQuery
    ((Child.after .replicaPair [.connect 1 none .v3]).session.initQueryContext.2.startQuery
      .replicaPair 0 "INSERT" functionCallQuery)

/-- Both replicas get it and both are read. -/
theorem insertRouted_readsWhatItSent :
    ReadsWhatItSent .replicaPair 0 insertRouted
      (sendCalls .replicaPair 0 (masterFirst (.query "INSERT") 0) insertRouted) :=
  (readsWhatItSent_iff_covered (by decide +kernel) (by decide +kernel)).2
    ⟨⟨by decide +kernel, by decide +kernel, by decide +kernel⟩, by decide +kernel⟩

/-- A client starts a transaction on the load balance node, by a text that begins with a SELECT, and
goes. -/
def transactionLeft : List Event :=
  [.connect 1 none .v3, .frontend (.query "SELECT 1; BEGIN") .quiet,
   .backend .readyForQuery (.smooth fun i => if i = 1 then .T else .I), .disconnect true true]

/-- The ABORT of the reset goes to the load balance node only, and the virtual master, which is idle,
is not read. -/
theorem transactionLeft_not_readsWhatItSent :
    Child.step .replicaPair (Child.after .replicaPair transactionLeft) (.reset .quiet) =
        some (Child.after .replicaPair (transactionLeft ++ [.reset .quiet])) ∧
      (Child.after .replicaPair (transactionLeft ++ [.reset .quiet])).session.queryContext = some 1 ∧
      ¬ ReadsWhatItSent .replicaPair 1 (Child.after .replicaPair transactionLeft).session
        (Child.after .replicaPair (transactionLeft ++ [.reset .quiet])).session := by
  refine ⟨Child.step_after _ _ (by decide +kernel) (by decide +kernel), by decide +kernel, ?_⟩
  intro h
  exact absurd h.master (by decide +kernel)

/-! ## The calls that the code makes -/

theorem addresses_masterFirst (msg : BackendMsg) (master : NodeId) (i : NodeId) :
    Addresses (masterFirst msg master) i := by
  by_cases hi : i = master
  · exact ⟨⟨msg, 1, master⟩, by simp [masterFirst], by simp [addressed, hi]⟩
  · exact ⟨⟨msg, -1, master⟩, by simp [masterFirst], by simp [addressed, hi]⟩

theorem addresses_masterLast (msg : BackendMsg) (master : NodeId) (i : NodeId) :
    Addresses (masterLast msg master) i := by
  obtain ⟨c, hc, ha⟩ := addresses_masterFirst msg master i
  exact ⟨c, by simpa [masterFirst, masterLast, or_comm] using hc, ha⟩

/-- Both messages for the master and for the others, which may differ. -/
theorem addresses_pair (msg msg' : BackendMsg) (master : NodeId) (i : NodeId) :
    Addresses [⟨msg, 1, master⟩, ⟨msg', -1, master⟩] i := by
  by_cases hi : i = master
  · exact ⟨⟨msg, 1, master⟩, by simp, by simp [addressed, hi]⟩
  · exact ⟨⟨msg', -1, master⟩, by simp, by simp [addressed, hi]⟩

/-- In raw mode a call for the real master is enough. -/
theorem addresses_raw (hraw : env.rawMode = true) (msg : BackendMsg)
    (master : s.masterNodeId env ∈ s.validNodes env) (hi : i ∈ s.validNodes env) :
    Addresses [⟨msg, 1, s.masterNodeId env⟩] i := by
  have heq : i = s.masterNodeId env :=
    (eq_realMaster_of_raw hraw hi).trans (eq_realMaster_of_raw hraw master).symm
  exact ⟨_, List.mem_singleton_self _, by simp [addressed, heq]⟩

/-- The calls for a simple query cover its map. -/
theorem covered_queryCalls (h : MasterServes env qc s) (node : Node) (string : String) :
    Covered env qc (queryCalls env node string (s.masterNodeId env)) s := by
  refine ⟨h, fun i hi => ?_⟩
  unfold queryCalls
  split
  · rename_i hraw
    exact addresses_raw hraw _ h.master hi
  · split
    · exact addresses_masterLast _ _ _
    · split
      · exact ⟨_, List.mem_singleton_self _, by simp [addressed]⟩
      · exact addresses_masterFirst _ _ _

/-- The calls for a Parse cover its map. -/
theorem covered_parseCalls (h : MasterServes env qc s) (msg : BackendMsg) :
    Covered env qc (parseCalls env ans msg (s.masterNodeId env)) s := by
  refine ⟨h, fun i hi => ?_⟩
  unfold parseCalls
  split
  · rename_i hraw
    exact addresses_raw hraw _ h.master hi
  · split
    · exact addresses_pair _ _ _ _
    · exact addresses_masterFirst _ _ _

/-- The calls for an Execute cover its map. -/
theorem covered_executeCalls (h : MasterServes env qc s) (node : Node) (portal : String) :
    Covered env qc (executeCalls env ans node portal (s.masterNodeId env)) s := by
  refine ⟨h, fun i _ => ?_⟩
  unfold executeCalls
  split
  · split
    · exact addresses_masterLast _ _ _
    · split
      · exact addresses_pair _ _ _ _
      · exact addresses_masterFirst _ _ _
  · exact addresses_masterFirst _ _ _

end Session

end PgPool
