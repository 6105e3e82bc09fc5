import Mathlib.Data.Nat.Digits.Defs
import PgPool.Relay.Respond

/-!
# Different numbers of rows

In replication mode an INSERT, UPDATE or DELETE goes to all nodes, and `CommandComplete` compares the
numbers of rows that they report.  When they differ, `ReadyForQuery` sends a query that fails.
-/

namespace PgPool

/-! ## Command tags -/

/-- A number in decimal notation. -/
def decimal (n : Nat) : List UInt8 := (Nat.digits 10 n).reverse.map fun d => UInt8.ofNat (48 + d)

/-- The commands whose rows are counted; an INSERT reports an object id first. -/
inductive CountedCommand where
  | update | delete
  | insert (oid : Nat)
  deriving DecidableEq, Repr

/-- The contents of CommandComplete. -/
def CountedCommand.tag (rows : Nat) : CountedCommand → List UInt8
  | update => [85, 80, 68, 65, 84, 69, 32] ++ decimal rows ++ [0]
  | delete => [68, 69, 76, 69, 84, 69, 32] ++ decimal rows ++ [0]
  | insert oid => [73, 78, 83, 69, 82, 84, 32] ++ decimal oid ++ [32] ++ decimal rows ++ [0]

/-- The number as `atoi` returns it. -/
def asInt (n : Nat) : Int := (min (n : Int) (2 ^ 63 - 1)).bmod (2 ^ 32)

theorem decimal_range {n : Nat} {b : UInt8} (h : b ∈ decimal n) : 48 ≤ b ∧ b ≤ 57 := by
  unfold decimal at h
  obtain ⟨d, hd, rfl⟩ := List.mem_map.1 h
  have hlt : d < 10 := Nat.digits_lt_base (by decide) (List.mem_reverse.1 hd)
  rw [UInt8.le_iff_toNat_le, UInt8.le_iff_toNat_le, UInt8.toNat_ofNat']
  have h48 : (48 : UInt8).toNat = 48 := rfl
  have h57 : (57 : UInt8).toNat = 57 := rfl
  omega

theorem decimal_ne {n : Nat} {b c : UInt8} (h : b ∈ decimal n) (hc : c < 48 ∨ 57 < c) : b ≠ c := by
  intro hbc
  obtain ⟨hlow, hhigh⟩ := decimal_range h
  rw [hbc] at hlow hhigh
  rw [UInt8.le_iff_toNat_le] at hlow hhigh
  rw [UInt8.lt_iff_toNat_lt, UInt8.lt_iff_toNat_lt] at hc
  omega

/-- The digits of a number, read from the left. -/
theorem foldl_decimal (n : Nat) :
    (decimal n).foldl (fun n b => n * 10 + (b.toNat - 48 : Int)) 0 = n := by
  have hlt : ∀ d ∈ Nat.digits 10 n, d < 10 := fun d hd => Nat.digits_lt_base (by decide) hd
  have hvalue : ((Nat.ofDigits 10 (Nat.digits 10 n) : Nat) : Int) = n := by
    rw [Nat.ofDigits_digits]
  unfold decimal
  rw [← hvalue, List.foldl_map, List.foldl_reverse, Nat.ofDigits_eq_foldr]
  generalize Nat.digits 10 n = digits at hlt
  induction digits with
  | nil => rfl
  | cons d digits ih =>
    have hd : d < 10 := hlt d (List.mem_cons_self ..)
    have hbyte : (UInt8.ofNat (48 + d)).toNat = 48 + d := by
      rw [UInt8.toNat_ofNat']
      omega
    rw [List.foldr_cons, List.foldr_cons, ih fun x hx => hlt x (List.mem_cons_of_mem _ hx), hbyte]
    push_cast
    omega

theorem takeWhile_of_all {p : UInt8 → Bool} {l : List UInt8} (h : ∀ b ∈ l, p b = true) :
    l.takeWhile p = l := List.takeWhile_eq_self_iff.2 h

/-- A number without a sign. -/
theorem atoi_decimal (n : Nat) : atoi (decimal n) = asInt n := by
  have hdigit : ∀ b ∈ decimal n, (48 ≤ b && b ≤ 57) = true := by
    intro b hb
    obtain ⟨hlow, hhigh⟩ := decimal_range hb
    simp [hlow, hhigh]
  have hspace : (decimal n).dropWhile (fun b => b == 32 || (9 ≤ b && b ≤ 13)) = decimal n := by
    cases hlist : decimal n with
    | nil => rfl
    | cons b s =>
      have hb : b ∈ decimal n := hlist ▸ List.mem_cons_self ..
      obtain ⟨hlow, -⟩ := decimal_range hb
      have h32 : b ≠ 32 := decimal_ne hb (by decide)
      have h13 : ¬ b ≤ 13 := by
        rw [UInt8.le_iff_toNat_le] at hlow ⊢
        have h48 : (48 : UInt8).toNat = 48 := rfl
        have h13 : (13 : UInt8).toNat = 13 := rfl
        omega
      simp [h32, h13]
  have hvalue : signedNumber (decimal n) = n := by
    unfold signedNumber
    split
    · rename_i hlist
      have hmem : (45 : UInt8) ∈ decimal n := hlist ▸ List.mem_cons_self ..
      exact absurd rfl (decimal_ne hmem (by decide))
    · rename_i hlist
      have hmem : (43 : UInt8) ∈ decimal n := hlist ▸ List.mem_cons_self ..
      exact absurd rfl (decimal_ne hmem (by decide))
    · unfold leadingNumber
      rw [takeWhile_of_all hdigit, foldl_decimal]
  unfold atoi asInt
  simp only [hspace, hvalue]
  congr 1
  omega

theorem strstr_self {needle s : List UInt8} (hne : needle ≠ []) :
    strstr needle (needle ++ s) = some (needle ++ s) := by
  cases needle with
  | nil => exact absurd rfl hne
  | cons b needle =>
    rw [List.cons_append, strstr, if_pos]
    rw [← List.cons_append, List.isPrefixOf_iff_prefix]
    exact List.prefix_append _ _

/-- The first character does not occur. -/
theorem strstr_none {b : UInt8} {needle s : List UInt8} (h : b ∉ s) : strstr (b :: needle) s = none := by
  induction s with
  | nil => rfl
  | cons c s ih =>
    rw [List.mem_cons, not_or] at h
    have hnot : (b :: needle).isPrefixOf (c :: s) = false := by
      rw [List.isPrefixOf_cons_cons, beq_eq_false_iff_ne.2 h.1, Bool.false_and]
    rw [strstr, hnot, if_neg Bool.false_ne_true]
    exact ih h.2

theorem cString_append_zero {s : List UInt8} (h : ∀ b ∈ s, b ≠ 0) : cString (s ++ [0]) = s := by
  unfold cString
  rw [List.takeWhile_append_of_pos fun b hb => bne_iff_ne.2 (h b hb)]
  exact List.append_nil _

/-- `extract_ntuples` finds the number of rows in each tag. -/
theorem extractNtuples_tag (command : CountedCommand) (rows : Nat) :
    extractNtuples (command.tag rows) = asInt rows := by
  have hzero : ∀ n, ∀ b ∈ decimal n, b ≠ 0 := fun n b hb => decimal_ne hb (by decide)
  have hword : ∀ word : List UInt8, word.all (· != 0) = true → ∀ b ∈ word, b ≠ 0 := by
    intro word hall b hb
    simpa using List.all_eq_true.1 hall b hb
  cases command with
  | update =>
    have htag : cString (CountedCommand.update.tag rows) =
        [85, 80, 68, 65, 84, 69] ++ (32 :: decimal rows) := by
      unfold CountedCommand.tag
      rw [cString_append_zero]
      · rfl
      · intro b hb
        rcases List.mem_append.1 hb with hb | hb
        · exact hword _ (by decide) b hb
        · exact hzero rows b hb
    unfold extractNtuples
    simp only [htag]
    rw [strstr_self (by decide)]
    exact atoi_decimal rows
  | delete =>
    have htag : cString (CountedCommand.delete.tag rows) =
        [68, 69, 76, 69, 84, 69] ++ (32 :: decimal rows) := by
      unfold CountedCommand.tag
      rw [cString_append_zero]
      · rfl
      · intro b hb
        rcases List.mem_append.1 hb with hb | hb
        · exact hword _ (by decide) b hb
        · exact hzero rows b hb
    have hnot : (85 : UInt8) ∉ [68, 69, 76, 69, 84, 69] ++ (32 :: decimal rows) := by
      intro hmem
      have hdec : (85 : UInt8) ∈ decimal rows := by simpa using hmem
      exact decimal_ne hdec (by decide) rfl
    unfold extractNtuples
    simp only [htag]
    rw [strstr_none hnot, Option.none_or, strstr_self (by decide)]
    exact atoi_decimal rows
  | insert oid =>
    have htag : cString ((CountedCommand.insert oid).tag rows) =
        [73, 78, 83, 69, 82, 84] ++ (32 :: decimal oid ++ 32 :: decimal rows) := by
      unfold CountedCommand.tag
      rw [cString_append_zero]
      · simp
      · intro b hb
        simp only [List.mem_append, List.mem_singleton] at hb
        rcases hb with ((hb | hb) | hb) | hb
        · exact hword _ (by decide) b hb
        · exact hzero oid b hb
        · rw [hb]
          decide
        · exact hzero rows b hb
    have hnot : ∀ c : UInt8, c = 85 ∨ c = 68 →
        c ∉ [73, 78, 83, 69, 82, 84] ++ (32 :: decimal oid ++ 32 :: decimal rows) := by
      intro c hc hmem
      have hdec : c ∈ decimal oid ∨ c ∈ decimal rows := by
        rcases hc with rfl | rfl <;> simpa using hmem
      have hrange : c < 48 ∨ 57 < c := by
        rcases hc with rfl | rfl <;> decide
      rcases hdec with h | h
      · exact decimal_ne h hrange rfl
      · exact decimal_ne h hrange rfl
    have hskip : (decimal oid ++ 32 :: decimal rows).dropWhile (· != 32) = 32 :: decimal rows := by
      rw [List.dropWhile_append_of_pos fun b hb => bne_iff_ne.2 (decimal_ne hb (by decide))]
      simp
    have hspace : atoi (32 :: decimal rows) = atoi (decimal rows) := by
      unfold atoi
      simp
    unfold extractNtuples
    simp only [htag]
    rw [strstr_none (hnot 85 (.inl rfl)), strstr_none (hnot 68 (.inr rfl)), Option.none_or,
      strstr_self (by decide)]
    change atoi ((decimal oid ++ 32 :: decimal rows).dropWhile (· != 32)) = _
    rw [hskip, hspace, atoi_decimal]

/-! ## What a node makes of a statement -/

/-- A query in the simple protocol. -/
def queryBytes (query : List UInt8) : List UInt8 := 81 :: (htonl (query.length + 4) ++ query)

/-- A node's transaction, as far as one statement is concerned. -/
structure Share where
  inBlock : Bool
  failed : Bool
  durable : Bool
  deriving DecidableEq, Repr

namespace Share

/-- The statement has completed; outside of a transaction block it is committed with that. -/
def completed (inBlock : Bool) : Share := ⟨inBlock, false, !inBlock⟩

/-- The status that ReadyForQuery reports. -/
def status (s : Share) : UInt8 := if s.inBlock then if s.failed then 69 else 84 else 73

def abort (s : Share) : Share := if s.inBlock then { s with failed := true } else s

/-- A COMMIT in a failed transaction rolls it back. -/
def commit (s : Share) : Share :=
  if s.inBlock then ⟨false, false, s.durable || !s.failed⟩ else s

/-- A query of pgpool's own arrives. -/
def receive (s : Share) (bytes : List UInt8) : Share :=
  if bytes = queryBytes Relay.errorQuery then s.abort
  else if bytes = queryBytes Relay.commitQuery then s.commit
  else s

def receiveAll (s : Share) (queries : List (List UInt8)) : Share := queries.foldl receive s

/-- What is committed stays so. -/
theorem durable_receive {s : Share} {bytes : List UInt8} (h : s.durable = true) :
    (s.receive bytes).durable = true := by
  unfold receive abort commit
  split
  · split <;> exact h
  · split
    · split
      · simp [h]
      · exact h
    · exact h

theorem durable_receiveAll {s : Share} {queries : List (List UInt8)} (h : s.durable = true) :
    (s.receiveAll queries).durable = true := by
  induction queries generalizing s with
  | nil => exact h
  | cons bytes queries ih => exact ih (durable_receive h)

/-- The failing query first, and then perhaps COMMIT. -/
theorem durable_abort {queries : List (List UInt8)}
    (h : queries = [queryBytes Relay.errorQuery] ∨
      queries = [queryBytes Relay.errorQuery, queryBytes Relay.commitQuery]) :
    ((completed true).receiveAll queries).durable = false := by
  have hne : queryBytes Relay.commitQuery ≠ queryBytes Relay.errorQuery := by decide +kernel
  have habort : (completed true).receive (queryBytes Relay.errorQuery) = ⟨true, true, false⟩ := by
    unfold receive
    rw [if_pos rfl]
    rfl
  rcases h with rfl | rfl
  · simp only [receiveAll, List.foldl_cons, List.foldl_nil, habort]
  · simp only [receiveAll, List.foldl_cons, List.foldl_nil, habort]
    unfold receive
    rw [if_neg hne, if_pos rfl]
    rfl

end Share

/-- The requests to one node among those to several. -/
theorem requests_flatMap {i : NodeId} {l : List NodeId} {f : NodeId → List RelayAction} (hl : l.Nodup)
    (h : ∀ j, j ≠ i → requests i (f j) = []) :
    requests i (l.flatMap f) = if i ∈ l then requests i (f i) else [] := by
  induction l with
  | nil => rfl
  | cons j l ih =>
    obtain ⟨hj, hl⟩ := List.nodup_cons.1 hl
    rw [List.flatMap_cons, requests_append, ih hl]
    by_cases hji : j = i
    · subst hji
      rw [if_neg hj, if_pos (List.mem_cons_self ..), List.append_nil]
    · have hmem : i ∈ j :: l ↔ i ∈ l := by
        rw [List.mem_cons]
        exact or_iff_right (Ne.symm hji)
      simp only [h j hji, List.nil_append, hmem]

theorem requests_send {i j : NodeId} (query : List UInt8) :
    requests i (Relay.sendSimplequeryMessage j query) =
      if j = i then [queryBytes query] else [] := by
  by_cases hji : j = i
  · subst hji
    simp [requests, Relay.sendSimplequeryMessage, queryBytes]
  · simp [requests, Relay.sendSimplequeryMessage, hji]

theorem requests_polls {i : NodeId} (n : Nat) :
    requests i (List.replicate n (.toFrontend Relay.dummyParameter)) = [] := by
  induction n with
  | zero => rfl
  | succ n ih => exact ih

theorem requests_commitActions {i j : NodeId} (q : QueryScene) :
    requests i (Exchange.commitActions q j) =
      if j = i then [queryBytes Relay.commitQuery] else [] := by
  rw [Exchange.commitActions, requests_append, requests_send, requests_polls, List.append_nil]

/-- After a mismatch a node gets the failing query, and COMMIT if its internal transaction ends. -/
theorem requests_readyActions {p : ReadyReply} {q : QueryScene} {s : NodeId → Slot} {i : NodeId}
    (hi : i ∈ q.nodes.valid) (hstandbys : q.standbys = []) :
    requests i (p.actions q true s) = [queryBytes Relay.errorQuery] ∨
      requests i (p.actions q true s) =
        [queryBytes Relay.errorQuery, queryBytes Relay.commitQuery] := by
  obtain ⟨hnodup, hmem⟩ := Exchange.valid_reversed (q := q)
  have herror : requests i (q.nodes.valid.flatMap fun i =>
      Relay.sendSimplequeryMessage i Relay.errorQuery) = [queryBytes Relay.errorQuery] := by
    rw [requests_flatMap q.nodes.nodup_valid, if_pos hi, requests_send, if_pos rfl]
    intro j hj
    rw [requests_send, if_neg hj]
  have hclose : requests i ((q.nodes.others ++ [q.nodes.master]).flatMap fun i =>
      if ReadyReply.Closes q s i then Exchange.commitActions q i else []) =
      if ReadyReply.Closes q s i then [queryBytes Relay.commitQuery] else [] := by
    rw [requests_flatMap hnodup, if_pos ((hmem i).2 hi)]
    · split
      · rw [requests_commitActions, if_pos rfl]
      · rfl
    · intro j hj
      split
      · rw [requests_commitActions, if_neg hj]
      · rfl
  have htell : ∀ bytes, requests i [RelayAction.toFrontend bytes] = [] := fun _ => rfl
  have hnone : requests i [] = [] := rfl
  unfold ReadyReply.actions
  rw [if_pos rfl, hstandbys, List.flatMap_nil, requests_append, requests_append, requests_append,
    herror, hclose, htell, hnone, List.append_nil, List.append_nil]
  split
  · exact .inr rfl
  · exact .inl rfl

/-! ## A statement that changes rows -/

/-- A statement, and what the nodes send for it. -/
structure RowChange where
  command : CountedCommand
  scene : QueryScene
  readyScene : QueryScene
  /-- The rows that a node has changed. -/
  rows : NodeId → Nat
  /-- The node is in a transaction block when the statement has completed. -/
  inBlock : NodeId → Bool
  params : NodeId → List WireMessage
  message : NodeId → WireMessage
  readyParams : NodeId → List WireMessage
  reply : ReadyReply

namespace RowChange

open Relay Exchange

variable (d : RowChange)

/-- CommandComplete. -/
def complete : NodeReply := ⟨d.scene, d.params, d.message, d.reply⟩

/-- ReadyForQuery. -/
def ready : NodeReply :=
  ⟨d.readyScene, d.readyParams, fun i => ⟨90, [d.reply.status i], by simp⟩, d.reply⟩

/-- The nodes have changed different numbers of rows, and send what PostgreSQL sends; pgpool is in
replication mode, without failover, and has done nothing yet for the statement's replies. -/
structure Arises (up : List NodeId) (x : Exchange) (rest : NodeId → List UInt8) : Prop where
  differ : ∃ i ∈ d.scene.nodes.others, d.rows i ≠ d.rows d.scene.nodes.master
  connected : ∀ i ∈ d.scene.nodes.valid, i ∈ up
  nodes : d.readyScene.nodes = d.scene.nodes
  failover : d.readyScene.failover = false
  standbys : d.scene.standbys = [] ∧ d.readyScene.standbys = []
  errorNodes : d.scene.errorNodes = [] ∧ d.readyScene.errorNodes = []
  begins : d.scene.beginsTransaction = false
  tag : ∀ i ∈ d.scene.nodes.valid, (d.message i).kind = 67 ∧
    (d.message i).contents = d.command.tag (d.rows i)
  params : ∀ i ∈ d.scene.nodes.valid, ∀ m ∈ d.params i ++ d.readyParams i, m.kind = 83
  status : ∀ i ∈ d.scene.nodes.valid, d.reply.status i = (Share.completed (d.inBlock i)).status
  before : ∀ i, ∀ m ∈ d.reply.before i, m.kind ≠ 69
  error : ∀ i, (d.reply.error i).kind = 69
  behind : SameKinds d.scene.nodes d.reply.behind
  other : ∀ m ∈ d.reply.behind d.scene.nodes.master, m.kind < 128 ∧ m.kind ≠ 90
  commit : ∀ i, ∀ m ∈ d.reply.commit i, Skipped m
  standby : ∀ i, ∀ m ∈ d.reply.standby i, Skipped m
  actions : x.relay.actions = []
  ahead : x.relay.Ahead up fun i =>
    sentAll [d.complete, d.ready] x.slots x.mismatchNtuples i ++ rest i

/-- No node commits what the statement has done; the client gets an error in place of the command tag,
and ReadyForQuery; nothing of the nodes' replies is left, and the mismatch is forgotten. -/
structure CommitsNowhere (up : List NodeId) (rest : NodeId → List UInt8)
    (result : PoolStatus × Exchange) : Prop where
  goes : result.1 = .continue
  nowhere : ∀ i ∈ d.scene.nodes.valid, ((Share.completed (d.inBlock i)).receiveAll
    (requests i result.2.relay.actions)).durable = false
  told : ∃ status, told result.2.relay.actions =
    [.errorMessage, .toFrontend (readyMessage status)]
  ahead : result.2.relay.Ahead up rest
  mismatch : result.2.mismatchNtuples = false

variable {d} {fresh : Nat → UInt8} {up : List NodeId} {x : Exchange} {rest : NodeId → List UInt8}

theorem Arises.legal_complete (h : d.Arises up x rest) : d.complete.Legal x.mismatchNtuples up := by
  have hmaster := (h.tag d.scene.nodes.master (master_mem _)).1
  have hkind : d.complete.kind = 67 := hmaster
  refine ⟨h.connected, ?_, ?_, ?_, ?_, ?_, ?_, ?_, ?_⟩
  · change d.scene.standbys.Nodup ∧ ∀ i ∈ d.scene.standbys, i ∈ up
    rw [h.standbys.1]
    exact ⟨List.nodup_nil, fun _ hi => absurd hi List.not_mem_nil⟩
  · change d.scene.errorNodes.Nodup ∧ ∀ i ∈ d.scene.errorNodes, i ∈ up
    rw [h.errorNodes.1]
    exact ⟨List.nodup_nil, fun _ hi => absurd hi List.not_mem_nil⟩
  · intro i hi m hm
    exact h.params i hi m (List.mem_append_left _ hm)
  · intro i hi
    rw [hkind]
    exact (h.tag i hi).1
  · rw [hkind]
    decide
  · rw [hkind]
    nofun
  · rw [hkind]
    nofun
  · rw [hkind]
    nofun

/-- The nodes agree as soon as all of them are in a transaction block. -/
theorem Arises.legal_ready (h : d.Arises up x rest) (hblock : ∀ i ∈ d.scene.nodes.valid, d.inBlock i)
    (mismatch : Bool) : d.ready.Legal mismatch up := by
  have hstatus : ∀ i ∈ d.scene.nodes.valid, d.reply.status i = 84 := by
    intro i hi
    rw [h.status i hi, hblock i hi]
    rfl
  have hvalid : d.readyScene.nodes.valid = d.scene.nodes.valid := by rw [h.nodes]
  have hmaster : d.readyScene.nodes.master ∈ d.scene.nodes.valid := by
    rw [h.nodes]
    exact master_mem _
  refine ⟨?_, ?_, ?_, ?_, fun _ _ => rfl, by change (90 : UInt8) ≠ 83 ∧ (90 : UInt8) ≠ 0; decide, ?_,
    fun hkind => absurd hkind nofun, fun hkind => absurd hkind nofun⟩
  · intro i hi
    exact h.connected i (hvalid ▸ hi)
  · change d.readyScene.standbys.Nodup ∧ ∀ i ∈ d.readyScene.standbys, i ∈ up
    rw [h.standbys.2]
    exact ⟨List.nodup_nil, fun _ hi => absurd hi List.not_mem_nil⟩
  · change d.readyScene.errorNodes.Nodup ∧ ∀ i ∈ d.readyScene.errorNodes, i ∈ up
    rw [h.errorNodes.2]
    exact ⟨List.nodup_nil, fun _ hi => absurd hi List.not_mem_nil⟩
  · intro i hi m hm
    exact h.params i (hvalid ▸ hi) m (List.mem_append_right _ hm)
  · intro _
    refine ⟨⟨?_, ?_, h.before, h.error, ?_, ?_, h.commit, h.standby⟩, fun _ _ => rfl⟩
    · intro _ i hi
      change d.reply.status i = d.reply.status d.readyScene.nodes.master
      rw [hstatus i (hvalid ▸ hi), hstatus _ hmaster]
    · change d.reply.status d.readyScene.nodes.master < 128
      rw [hstatus _ hmaster]
      decide
    · change SameKinds d.readyScene.nodes d.reply.behind
      rw [h.nodes]
      exact h.behind
    · change ∀ m ∈ d.reply.behind d.readyScene.nodes.master, _
      rw [h.nodes]
      exact h.other

variable (fresh) in
/-- Both messages, with all nodes in a transaction block. -/
theorem Arises.run (h : d.Arises up x rest) (hblock : ∀ i ∈ d.scene.nodes.valid, d.inBlock i) :
    ∃ y status, x.processReplies fresh [d.complete, d.ready] = (.continue, y) ∧
      told y.relay.actions = d.complete.relayed x.slots x.mismatchNtuples ++
        [.toFrontend (readyMessage status)] ∧
      (∀ i, requests i y.relay.actions =
        requests i (d.reply.actions d.readyScene (d.complete.mismatchAfter x.mismatchNtuples) x.slots)) ∧
      y.relay.Ahead up rest ∧ y.mismatchNtuples = false := by
  have hkind : d.complete.kind = 67 := (h.tag d.scene.nodes.master (master_mem _)).1
  have hready : d.complete.kind ≠ 90 := by
    rw [hkind]
    decide
  have hslots : d.complete.slotsAfter x.slots x.mismatchNtuples = x.slots := by
    have hbegins : ¬ (d.complete.kind = 67 ∧ d.complete.scene.beginsTransaction = true) := by
      intro hc
      have hfalse := h.begins.symm.trans hc.2
      cases hfalse
    rw [NodeReply.slotsAfter, if_neg hready, if_neg hbegins]
  have hfirst := responds_processBackendResponse fresh h.legal_complete (by
    intro i hi
    have hat := h.ahead i hi
    simp only [sentAll, List.append_assoc] at hat
    exact hat)
  generalize hy : x.processBackendResponse fresh d.complete.scene = first at hfirst
  obtain ⟨status, y⟩ := first
  have hgo : status = .continue := by
    by_contra hne
    rcases hfirst.ends hne with hend | hend | hend
    · exact absurd (hkind.symm.trans hend.1) (by decide)
    · exact absurd (hkind.symm.trans hend) (by decide)
    · exact absurd (hkind.symm.trans hend.1) (by decide)
  subst hgo
  obtain ⟨hahead, hyslots, hymismatch⟩ := hfirst.goes rfl
  simp only at hahead hyslots hymismatch
  rw [hslots] at hyslots
  rw [hslots, ← hyslots, ← hymismatch] at hahead
  simp only [List.nil_append] at hahead
  have hsecond := responds_processBackendResponse fresh (h.legal_ready hblock y.mismatchNtuples) hahead
  generalize hz : y.processBackendResponse fresh d.ready.scene = second at hsecond
  obtain ⟨status, z⟩ := second
  have hfailover : (y.mismatchNtuples && d.ready.scene.failover) = false := by
    rw [show d.ready.scene.failover = false from h.failover, Bool.and_false]
  have hgo : status = .continue := by
    by_contra hne
    rcases hsecond.ends hne with hend | hend | hend
    · cases hend.1
    · cases hend
    · rw [hend.2.1, hend.2.2] at hfailover
      cases hfailover
  subst hgo
  obtain ⟨hrest, -, hzmismatch⟩ := hsecond.goes rfl
  have hkind' : d.ready.kind = 90 := rfl
  refine ⟨z, (d.reply.slotAfter d.readyScene y.mismatchNtuples y.slots d.readyScene.stateNode).tstate,
    ?_, ?_, fun i => ?_, hrest, ?_⟩
  · simp only [processReplies, hy, hz]
  · rw [hsecond.told, hfirst.told, h.actions, told_nil, List.nil_append]
    have hlast : d.ready.relayed y.slots y.mismatchNtuples = [.toFrontend (readyMessage
        (d.reply.slotAfter d.readyScene y.mismatchNtuples y.slots d.readyScene.stateNode).tstate)] := by
      rw [NodeReply.relayed, if_pos hkind', hfailover, if_neg Bool.false_ne_true]
      rfl
    rw [hlast]
  · rw [hsecond.asked i (.inl hkind'), if_pos ⟨hkind', hfailover⟩, hfirst.asked i (.inr hkind), h.actions]
    simp only [hready, false_and, if_false, List.append_nil]
    rw [hymismatch, hyslots]
    rfl
  · exact hzmismatch.trans (by rw [NodeReply.mismatchAfter, if_pos hkind', hfailover])

/-- What `CommandComplete` compares are numbers cut to an `int`. -/
theorem Arises.differs_iff (h : d.Arises up x rest) : d.complete.Differs ↔
    ∃ i ∈ d.scene.nodes.others, asInt (d.rows i) ≠ asInt (d.rows d.scene.nodes.master) := by
  have hrows : ∀ i ∈ d.scene.nodes.valid, extractNtuples (d.message i).contents = asInt (d.rows i) := by
    intro i hi
    rw [(h.tag i hi).2, extractNtuples_tag]
  have hmaster := hrows _ (master_mem d.scene.nodes)
  constructor
  · intro hdiffers
    obtain ⟨i, hi, hne⟩ := hdiffers
    refine ⟨i, hi, fun heq => hne ?_⟩
    change extractNtuples (d.message i).contents = extractNtuples (d.message d.scene.nodes.master).contents
    rw [hrows i (List.mem_cons_of_mem _ hi), hmaster, heq]
  · intro hdiffers
    obtain ⟨i, hi, hne⟩ := hdiffers
    refine ⟨i, hi, fun heq => hne ?_⟩
    rw [← hrows i (List.mem_cons_of_mem _ hi), ← hmaster]
    exact heq

/-- An UPDATE of one row on the master, and of two rows on the other node. -/
def updateOf (inBlock : Bool) : RowChange where
  command := .update
  scene := sceneOf bothNodes
  readyScene := sceneOf bothNodes
  rows := fun i => i + 1
  inBlock := fun _ => inBlock
  params := fun _ => []
  message := fun i =>
    if i = 0 then ⟨67, [85, 80, 68, 65, 84, 69, 32, 49, 0], by decide⟩
    else ⟨67, [85, 80, 68, 65, 84, 69, 32, 50, 0], by decide⟩
  readyParams := fun _ => []
  reply := { idle with
    status := fun _ => (Share.completed inBlock).status
    aborted := fun _ => 69 }

/-- The child as the nodes' replies arrive; the transaction, if there is one, is an internal one. -/
def updating (inBlock : Bool) : Exchange :=
  receiving (fun _ => ⟨(Share.completed inBlock).status, inBlock⟩) fun i =>
    sentAll [(updateOf inBlock).complete, (updateOf inBlock).ready]
      (fun _ => ⟨(Share.completed inBlock).status, inBlock⟩) false i ++ []

theorem updateOf_arises (inBlock : Bool) :
    (updateOf inBlock).Arises [0, 1] (updating inBlock) fun _ => [] := by
  have hother : (1 : NodeId) ∈ bothNodes.others := List.mem_cons_self ..
  have hrows : (1 : Nat) + 1 ≠ 0 + 1 := by decide
  refine ⟨⟨1, hother, hrows⟩, fun _ h => h, rfl, rfl, ⟨rfl, rfl⟩, ⟨rfl, rfl⟩, rfl, ?_,
    fun _ _ _ h => absurd h List.not_mem_nil, fun _ _ => rfl, fun _ _ h => absurd h List.not_mem_nil,
    fun _ => rfl, fun _ _ => rfl, fun _ h => absurd h List.not_mem_nil,
    fun _ _ h => absurd h List.not_mem_nil, fun _ _ h => absurd h List.not_mem_nil, rfl,
    receiving_ahead _⟩
  intro i hi
  have hcases : i = 0 ∨ i = 1 := by simpa [updateOf, sceneOf, bothNodes, QueryNodes.valid] using hi
  have htags : decimal 1 = [49] ∧ decimal 2 = [50] := by decide
  rcases hcases with rfl | rfl
  · refine ⟨rfl, ?_⟩
    change _ = [85, 80, 68, 65, 84, 69, 32] ++ decimal 1 ++ [0]
    rw [htags.1]
    rfl
  · refine ⟨rfl, ?_⟩
    change _ = [85, 80, 68, 65, 84, 69, 32] ++ decimal 2 ++ [0]
    rw [htags.2]
    rfl

end RowChange

end PgPool
