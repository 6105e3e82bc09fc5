import PgPool.Lib.Transition
import PgPool.Session.Context
import PgPool.Timestamp.Bind

/-!
# Ids of large objects

In replication mode a call of `lo_creat` is made one of `lo_create`, with an id that pgpool asks the master for
after it has locked a table there.
-/

namespace PgPool.LargeObject

open PgPool.Words PgPool.Bind

/-! ## Function calls -/

/-- What a FunctionCall message says. -/
structure CallFields where
  oid : Nat
  formats : List UInt16
  args : List (Option (List UInt8))
  result : UInt16
  deriving DecidableEq

/-- Numbers that fit into their words, and no format code, one or one for each argument. -/
structure CallFields.WellFormed (c : CallFields) : Prop where
  oid : c.oid < 2 ^ 32
  formats : c.formats.length ≤ 1 ∨ c.formats.length = c.args.length
  args : c.args.length < 2 ^ 16
  values : ∀ value, some value ∈ c.args → value.length < 2 ^ 31

/-- A message that can arrive. -/
structure CallMessage where
  fields : CallFields
  wellFormed : fields.WellFormed

/-- The bytes of a message behind its length word. -/
def encodeCall (c : CallFields) : List UInt8 :=
  htonl c.oid ++ (htons c.formats.length ++ (c.formats.flatMap codeBytes ++
    (htons c.args.length ++ (c.args.flatMap paramBytes ++ codeBytes c.result))))

/-- How the receiver reads a message. -/
def decodeCall (input : List UInt8) : Option CallFields := do
  let (word, input) ← Reader.take 4 input
  let (formats, input) ← readCounted readCode input
  let (args, input) ← readCounted readParam input
  let (result, input) ← readCode input
  if input = [] ∧ (formats.length ≤ 1 ∨ formats.length = args.length) then
    some ⟨ntohl word, formats, args, result⟩
  else none

/-- Messages are read as they have been written. -/
theorem decodeCall_encodeCall {c : CallFields} (h : c.WellFormed) : decodeCall (encodeCall c) = some c := by
  have hcodes : ∀ code ∈ c.formats, Reader.Inverts readCode codeBytes code :=
    fun code _ => inverts_readCode code
  have hargs : ∀ arg ∈ c.args, Reader.Inverts readParam paramBytes arg := by
    intro arg harg
    exact inverts_readParam fun value hvalue => h.values value (hvalue ▸ harg)
  have hformats : c.formats.length < 2 ^ 16 := by
    have := h.formats
    have := h.args
    omega
  have hlast := inverts_readCode c.result []
  rw [List.append_nil] at hlast
  unfold decodeCall encodeCall
  rw [Reader.take_append (length_htonl c.oid)]
  simp only [Option.bind_eq_bind, Option.bind_some]
  rw [readCounted_append hcodes hformats]
  simp only [Option.bind_some]
  rw [readCounted_append hargs h.args]
  simp only [Option.bind_some, hlast, ntohl_htonl h.oid]
  exact if_pos ⟨trivial, h.formats⟩

/-! ## The packet -/

/-- The packet that `pool_rewrite_lo_creat` makes. -/
def loCreatePacket (loCreateOid lobjid resultFormatCode : Nat) : List UInt8 :=
  htonl loCreateOid ++ htons 1 ++ htons 1 ++ htons 1 ++ htonl 4 ++ htonl lobjid ++ htons resultFormatCode

/-- It is a call of `lo_create` with the id. -/
theorem decodeCall_loCreatePacket {loCreateOid lobjid : Nat} {result : UInt16} (hoid : loCreateOid < 2 ^ 32) :
    decodeCall (loCreatePacket loCreateOid lobjid result.toNat) =
      some ⟨loCreateOid, [1], [some (htonl lobjid)], result⟩ := by
  have hwell : CallFields.WellFormed ⟨loCreateOid, [1], [some (htonl lobjid)], result⟩ := by
    refine ⟨hoid, Or.inl (Nat.le_refl 1), show 1 < 2 ^ 16 by decide, fun value hvalue => ?_⟩
    have hone : value = htonl lobjid := by simpa using hvalue
    rw [hone, length_htonl]
    decide
  have hencode : loCreatePacket loCreateOid lobjid result.toNat =
      encodeCall ⟨loCreateOid, [1], [some (htonl lobjid)], result⟩ := by
    simp [loCreatePacket, encodeCall, codeBytes, paramBytes, length_htonl]
  rw [hencode, decodeCall_encodeCall hwell]

/-! ## Sessions -/

/-- What the rewriting depends on: the configuration, and the oids that have been looked up. -/
structure LobjConfig where
  lobjLockTable : String
  replication : Bool
  loCreatOid : Nat
  loCreateOid : Nat
  loCreateOid_lt : loCreateOid < 2 ^ 32

/-- Where a session is in `pool_rewrite_lo_creat`, and in the call behind it. -/
inductive Phase where
  | ready
  | locking (c : CallMessage) (resultFormatCode : Nat)
  | fetching (c : CallMessage) (resultFormatCode : Nat)
  | creating (lobjid : Nat)

/-- LOCK TABLE has been answered. -/
def Phase.Behind : Phase → Prop
  | .ready | .locking _ _ => False
  | .fetching _ _ | .creating _ => True

/-- A session: the transaction state on the master, and the objects that the open transaction has created. -/
structure LoSession where
  tstate : TState
  phase : Phase
  own : List Nat

/-- The sessions and the master: who holds the lock on the table, and which objects are committed.  `handed` are
the ids that calls have been rewritten to, and `sent` what has been forwarded for each call. -/
structure LoSystem where
  session : Nat → LoSession
  holder : Option Nat
  committed : List Nat
  handed : List Nat
  sent : List (CallMessage × List UInt8)

inductive LoEvent where
  | begin (i : Nat)
  | commit (i : Nat)
  | rollback (i : Nat)
  /-- A FunctionCall message arrives. -/
  | call (i : Nat) (c : CallMessage)
  /-- The master answers LOCK TABLE. -/
  | lock (i : Nat)
  /-- The lock is not granted, because of a deadlock or a timeout. -/
  | lockFails (i : Nat)
  /-- The master answers the query for the largest id. -/
  | fetch (i : Nat)
  /-- The nodes execute `lo_create`. -/
  | create (i : Nat)
  /-- An object is created, or removed, by other means. -/
  | appear (id : Nat)
  | remove (id : Nat)

namespace LoSystem

variable (cfg : LobjConfig) (s : LoSystem)

/-- No session has done anything yet. -/
def start (committed : List Nat) : LoSystem := ⟨fun _ => ⟨.I, .ready, []⟩, none, committed, [], []⟩

def setSession (i : Nat) (t : LoSession) : LoSystem := { s with session := Function.update s.session i t }

/-- Something is forwarded for a call. -/
def forward (c : CallMessage) (packet : List UInt8) : LoSystem := { s with sent := (c, packet) :: s.sent }

/-- The checks in front of the lock: the result format of a call that is to be rewritten. -/
def asks (packet : List UInt8) : Option Nat :=
  if cfg.lobjLockTable = "" ∨ cfg.replication = false then none
  else if ntohl (packet.take 4) ≠ cfg.loCreatOid then none
  else
    let resultFormatCode := ntohs (packet.drop (packet.length - 2))
    if resultFormatCode = 0 ∨ resultFormatCode = 1 then some resultFormatCode else none

/-- What `pg_largeobject` looks like to a session. -/
def visible (i : Nat) : List Nat := s.committed ++ (s.session i).own

/-- `coalesce(max(loid), 0) + 1` -/
def nextId (i : Nat) : Nat := (s.visible i).foldr max 0 + 1

/-- The lock on the table goes with the transaction. -/
def release (i : Nat) : Option Nat := if s.holder = some i then none else s.holder

/-- LOCK TABLE is an error outside of a transaction, which leaves the state I, and the failure is not seen. -/
def lock (i : Nat) (c : CallMessage) (code : Nat) : Option LoSystem :=
  let t := s.session i
  match t.tstate with
  | .I => some (s.setSession i { t with phase := .fetching c code })
  | .T =>
      if s.holder = none ∨ s.holder = some i then
        some { s.setSession i { t with phase := .fetching c code } with holder := some i }
      else none
  | .E => some ((s.setSession i { t with phase := .ready }).forward c (encodeCall c.fields))

/-- The query for the id, which is a signed integer. -/
def fetch (i : Nat) (c : CallMessage) (code : Nat) : LoSystem :=
  let t := s.session i
  let lobjid := s.nextId i
  if lobjid < 2 ^ 31 then
    { (s.setSession i { t with phase := .creating lobjid }).forward c
        (loCreatePacket cfg.loCreateOid lobjid code) with handed := lobjid :: s.handed }
  else
    let tstate := if t.tstate = .T ∧ lobjid = 2 ^ 31 then .E else t.tstate
    (s.setSession i { t with phase := .ready, tstate := tstate }).forward c (encodeCall c.fields)

/-- `lo_create` on the nodes, which is an error for an id that is there. -/
def create (i : Nat) (lobjid : Nat) : LoSystem :=
  let t := s.session i
  if lobjid ∈ s.visible i then
    s.setSession i { t with phase := .ready, tstate := if t.tstate = .T then .E else t.tstate }
  else if t.tstate = .I then
    { s.setSession i { t with phase := .ready } with committed := lobjid :: s.committed }
  else s.setSession i { t with phase := .ready, own := lobjid :: t.own }

/-- One step.  `none`: it cannot be taken now. -/
def step : LoEvent → Option LoSystem
  | .begin i =>
      match s.session i with
      | ⟨.I, .ready, own⟩ => some (s.setSession i ⟨.T, .ready, own⟩)
      | _ => none
  | .commit i =>
      match s.session i with
      | ⟨.T, .ready, own⟩ =>
          some { s.setSession i ⟨.I, .ready, []⟩ with holder := s.release i, committed := own ++ s.committed }
      | _ => none
  | .rollback i =>
      match s.session i with
      | ⟨.I, _, _⟩ => none
      | ⟨_, .ready, _⟩ => some { s.setSession i ⟨.I, .ready, []⟩ with holder := s.release i }
      | _ => none
  | .call i c =>
      match s.session i with
      | ⟨tstate, .ready, own⟩ =>
          match asks cfg (encodeCall c.fields) with
          | some code => some (s.setSession i ⟨tstate, .locking c code, own⟩)
          | none => some (s.forward c (encodeCall c.fields))
      | _ => none
  | .lock i =>
      match (s.session i).phase with
      | .locking c code => s.lock i c code
      | _ => none
  | .lockFails i =>
      match s.session i with
      | ⟨.T, .locking c _, own⟩ => some ((s.setSession i ⟨.E, .ready, own⟩).forward c (encodeCall c.fields))
      | _ => none
  | .fetch i =>
      match (s.session i).phase with
      | .fetching c code => some (s.fetch cfg i c code)
      | _ => none
  | .create i =>
      match (s.session i).phase with
      | .creating lobjid => some (s.create i lobjid)
      | _ => none
  | .appear id => some { s with committed := id :: s.committed }
  | .remove id => some { s with committed := s.committed.filter (· ≠ id) }

/-- The condition on a step: LOCK TABLE is sent in a transaction, and no object with an id that has been given to
a call goes away again. -/
def Careful (s : LoSystem) : LoEvent → Prop
  | .lock i => (s.session i).tstate ≠ .I
  | .rollback i => ∀ id ∈ (s.session i).own, id ∉ s.handed
  | .remove id => id ∉ s.handed
  | _ => True

instance (s : LoSystem) : ∀ e : LoEvent, Decidable (s.Careful e)
  | .lock i => inferInstanceAs (Decidable ((s.session i).tstate ≠ .I))
  | .rollback i => inferInstanceAs (Decidable (∀ id ∈ (s.session i).own, id ∉ s.handed))
  | .remove id => inferInstanceAs (Decidable (id ∉ s.handed))
  | .begin _ | .commit _ | .call _ _ | .lockFails _ | .fetch _ | .create _ | .appear _ =>
      inferInstanceAs (Decidable True)

/-! ## Ids -/

/-- The id has been given to a call of the session, whose object is not committed yet. -/
def Holds (t : LoSession) (id : Nat) : Prop := id ∈ t.own ∨ t.phase = .creating id

/-- The session is behind LOCK TABLE, or has created an object. -/
def Busy (t : LoSession) : Prop := t.own ≠ [] ∨ t.phase.Behind

/-- What holds between two steps: a session that is behind LOCK TABLE holds the lock, and every id that has been
given to a call is that of an object, or will be. -/
structure Safe (s : LoSystem) : Prop where
  nodup : s.handed.Nodup
  there : ∀ id ∈ s.handed, id ∈ s.committed ∨ ∃ i, s.holder = some i ∧ Holds (s.session i) id
  alone : ∀ i, Busy (s.session i) → s.holder = some i
  block : ∀ i, (s.session i).phase.Behind → (s.session i).tstate = .T

variable {cfg : LobjConfig} {s s' : LoSystem} {i : Nat} {t : LoSession}

theorem safe_start (committed : List Nat) : Safe (start committed) where
  nodup := List.nodup_nil
  there := nofun
  alone _ h := h.elim (fun hown => absurd rfl hown) False.elim
  block _ h := h.elim

/-- A step of one session. -/
theorem Safe.of_session (h : Safe s) (session : s'.session = Function.update s.session i t)
    (nodup : s'.handed.Nodup) (others : ∀ j, j ≠ i → s.holder = some j → s'.holder = some j)
    (alone : Busy t → s'.holder = some i)
    (block : t.phase.Behind → t.tstate = .T)
    (there : ∀ id ∈ s'.handed, id ∈ s'.committed ∨ (s'.holder = some i ∧ Holds t id) ∨
      ∃ j, j ≠ i ∧ s.holder = some j ∧ Holds (s.session j) id) : Safe s' := by
  have hself : s'.session i = t := by
    rw [session, Function.update_self]
  have hother : ∀ j, j ≠ i → s'.session j = s.session j := fun j hj => by
    rw [session, Function.update_of_ne hj]
  refine ⟨nodup, fun id hid => ?_, fun j hj => ?_, fun j hj => ?_⟩
  · rcases there id hid with hc | ⟨hholder, hholds⟩ | ⟨j, hj, hholder, hholds⟩
    · exact Or.inl hc
    · exact Or.inr ⟨i, hholder, hself.symm ▸ hholds⟩
    · exact Or.inr ⟨j, others j hj hholder, (hother j hj).symm ▸ hholds⟩
  · by_cases hij : j = i
    · subst hij
      exact alone (hself ▸ hj)
    · exact others j hij (h.alone j (hother j hij ▸ hj))
  · by_cases hij : j = i
    · subst hij
      rw [hself] at hj ⊢
      exact block hj
    · rw [hother j hij] at hj ⊢
      exact h.block j hj

/-- An id that has been given is that of an object, or the session holds it, or another. -/
theorem Safe.there_or (h : Safe s) (i : Nat) {id : Nat} (hid : id ∈ s.handed) :
    id ∈ s.committed ∨ (s.holder = some i ∧ Holds (s.session i) id) ∨
      ∃ j, j ≠ i ∧ s.holder = some j ∧ Holds (s.session j) id := by
  rcases h.there id hid with hc | ⟨j, hholder, hholds⟩
  · exact Or.inl hc
  · by_cases hj : j = i
    · subst hj
      exact Or.inr (Or.inl ⟨hholder, hholds⟩)
    · exact Or.inr (Or.inr ⟨j, hj, hholder, hholds⟩)

/-- A step of a session that leaves the lock and the objects, and what the session holds, as they are. -/
theorem Safe.of_kept (h : Safe s) (session : s'.session = Function.update s.session i t)
    (holder : s'.holder = s.holder) (committed : s'.committed = s.committed) (handed : s'.handed = s.handed)
    (alone : Busy t → Busy (s.session i))
    (block : t.phase.Behind → t.tstate = .T)
    (holds : ∀ id ∈ s.handed, Holds (s.session i) id → id ∈ s.committed ∨ Holds t id) : Safe s' := by
  refine h.of_session session (handed ▸ h.nodup) (fun j _ hj => holder.trans hj)
    (fun hb => holder.trans (h.alone i (alone hb))) block fun id hid => ?_
  rw [handed] at hid
  rw [holder, committed]
  rcases h.there_or i hid with hc | ⟨hholder, hholds⟩ | hother
  · exact Or.inl hc
  · exact (holds id hid hholds).imp_right fun ht => Or.inl ⟨hholder, ht⟩
  · exact Or.inr (Or.inr hother)

theorem Safe.forward (h : Safe s) (c : CallMessage) (packet : List UInt8) : Safe (s.forward c packet) :=
  ⟨h.nodup, h.there, h.alone, h.block⟩

/-- The next id is larger than those that the session sees. -/
theorem lt_nextId {id : Nat} (h : id ∈ s.visible i) : id < s.nextId i := by
  refine Nat.lt_succ_of_le ?_
  generalize s.visible i = ids at h ⊢
  induction ids with
  | nil => cases h
  | cons x xs ih =>
    rcases List.mem_cons.mp h with rfl | hmem
    · exact Nat.le_max_left _ _
    · exact Nat.le_trans (ih hmem) (Nat.le_max_right _ _)

/-- The session that is behind LOCK TABLE sees all ids that have been given, and gets another. -/
theorem Safe.nextId_not_mem (h : Safe s) {c : CallMessage} {code : Nat}
    (hphase : (s.session i).phase = .fetching c code) : s.nextId i ∉ s.handed := by
  intro hmem
  have hbusy : Busy (s.session i) := Or.inr (hphase ▸ trivial)
  have hholder := h.alone i hbusy
  rcases h.there _ hmem with hc | ⟨j, hj, hholds⟩
  · exact Nat.lt_irrefl _ (lt_nextId (List.mem_append_left _ hc))
  · rw [hholder] at hj
    cases hj
    rcases hholds with hown | hcreating
    · exact Nat.lt_irrefl _ (lt_nextId (List.mem_append_right _ hown))
    · rw [hphase] at hcreating
      cases hcreating

/-- The lock of another session is not released. -/
theorem release_eq {j : Nat} (hj : j ≠ i) (h : s.holder = some j) : s.release i = some j := by
  unfold release
  rw [h, if_neg fun heq => hj (Option.some.inj heq)]

/-- The end of a transaction that takes no object away with an id that has been given. -/
theorem Safe.of_end (h : Safe s) (session : s'.session = Function.update s.session i ⟨.I, .ready, []⟩)
    (holder : s'.holder = s.release i) (handed : s'.handed = s.handed)
    (committed : ∀ id ∈ s.committed, id ∈ s'.committed)
    (own : ∀ id ∈ s.handed, Holds (s.session i) id → id ∈ s'.committed) : Safe s' := by
  refine h.of_session session (handed ▸ h.nodup) (fun j hj hh => holder.trans (release_eq hj hh))
    (fun hb => hb.elim (fun hown => absurd rfl hown) False.elim) False.elim fun id hid => ?_
  rw [handed] at hid
  rcases h.there_or i hid with hc | ⟨-, hholds⟩ | hother
  · exact Or.inl (committed id hc)
  · exact Or.inl (own id hid hholds)
  · exact Or.inr (Or.inr hother)

/-- LOCK TABLE in a transaction. -/
theorem Safe.lock (h : Safe s) {c : CallMessage} {code : Nat} (hphase : (s.session i).phase = .locking c code)
    (careful : (s.session i).tstate ≠ .I) (next : s.lock i c code = some s') : Safe s' := by
  have hholds : ∀ id, Holds (s.session i) id → id ∈ (s.session i).own := fun id hid =>
    hid.resolve_right fun hc => by rw [hphase] at hc; cases hc
  unfold LoSystem.lock at next
  simp only at next
  split at next
  · rename_i hidle
    exact absurd hidle careful
  · rename_i hblock
    split at next
    · rename_i hfree
      cases next
      refine h.of_session rfl h.nodup (fun j hj hh => ?_) (fun _ => rfl) (fun _ => hblock) fun id hid => ?_
      · rcases hfree with hnone | hself
        · rw [hnone] at hh
          cases hh
        · rw [hself] at hh
          exact absurd (Option.some.inj hh).symm hj
      · rcases h.there_or i hid with hc | ⟨-, hown⟩ | hother
        · exact Or.inl hc
        · exact Or.inr (Or.inl ⟨rfl, Or.inl (hholds id hown)⟩)
        · exact Or.inr (Or.inr hother)
    · cases next
  · cases next
    have hkept : Safe (s.setSession i { s.session i with phase := .ready }) :=
      h.of_kept rfl rfl rfl rfl (fun hb => hb.imp_right False.elim) False.elim
        fun id _ hid => Or.inr (Or.inl (hholds id hid))
    exact hkept.forward c _

/-- The query for the id. -/
theorem Safe.fetch (h : Safe s) {c : CallMessage} {code : Nat} (hphase : (s.session i).phase = .fetching c code) :
    Safe (s.fetch cfg i c code) := by
  have hholds : ∀ id, Holds (s.session i) id → id ∈ (s.session i).own := fun id hid =>
    hid.resolve_right fun hc => by rw [hphase] at hc; cases hc
  have hbehind : (s.session i).phase.Behind := hphase ▸ trivial
  unfold LoSystem.fetch
  simp only
  split
  · refine h.of_session rfl (List.nodup_cons.mpr ⟨h.nextId_not_mem hphase, h.nodup⟩) (fun j _ hj => hj)
      (fun _ => h.alone i (Or.inr hbehind)) (fun _ => h.block i hbehind) fun id hid => ?_
    rcases List.mem_cons.mp hid with rfl | hid
    · exact Or.inr (Or.inl ⟨h.alone i (Or.inr hbehind), Or.inr rfl⟩)
    · rcases h.there_or i hid with hc | ⟨hholder, hown⟩ | hother
      · exact Or.inl hc
      · exact Or.inr (Or.inl ⟨hholder, Or.inl (hholds id hown)⟩)
      · exact Or.inr (Or.inr hother)
  · have hkept : Safe (s.setSession i { s.session i with
        phase := .ready
        tstate := if (s.session i).tstate = .T ∧ s.nextId i = 2 ^ 31 then .E else (s.session i).tstate }) :=
      h.of_kept rfl rfl rfl rfl (fun hb => hb.imp_right False.elim) False.elim
        fun id _ hid => Or.inr (Or.inl (hholds id hid))
    exact hkept.forward c _

/-- `lo_create`. -/
theorem Safe.create (h : Safe s) {lobjid : Nat} (hphase : (s.session i).phase = .creating lobjid) :
    Safe (s.create i lobjid) := by
  have hbehind : (s.session i).phase.Behind := hphase ▸ trivial
  have hblock := h.block i hbehind
  have hholds : ∀ id, Holds (s.session i) id → id ∈ (s.session i).own ∨ id = lobjid := fun id hid =>
    hid.imp_right fun hc => by rw [hphase] at hc; cases hc; rfl
  unfold LoSystem.create
  simp only
  split
  · rename_i hvisible
    refine h.of_kept rfl rfl rfl rfl (fun hb => hb.imp_right False.elim) False.elim fun id _ hid => ?_
    rcases hholds id hid with hown | rfl
    · exact Or.inr (Or.inl hown)
    · exact (List.mem_append.mp hvisible).imp_right Or.inl
  · rw [if_neg (by rw [hblock]; nofun)]
    refine h.of_kept rfl rfl rfl rfl (fun _ => Or.inr hbehind) False.elim fun id _ hid => ?_
    rcases hholds id hid with hown | rfl
    · exact Or.inr (Or.inl (List.mem_cons_of_mem _ hown))
    · exact Or.inr (Or.inl List.mem_cons_self)

/-- What a step preserves. -/
theorem Safe.step (h : Safe s) {e : LoEvent} (careful : s.Careful e) (next : s.step cfg e = some s') :
    Safe s' := by
  cases e with
  | begin i =>
    simp only [LoSystem.step] at next
    split at next
    · rename_i own hsession
      cases next
      refine h.of_kept rfl rfl rfl rfl (fun hb => ?_) False.elim fun id _ hid => ?_
      · rw [hsession]
        exact hb
      · rw [hsession] at hid
        exact Or.inr hid
    · cases next
  | commit i =>
    simp only [LoSystem.step] at next
    split at next
    · rename_i own hsession
      cases next
      refine h.of_end rfl rfl rfl (fun id hid => List.mem_append_right _ hid) fun id _ hid => ?_
      rw [hsession] at hid
      exact List.mem_append_left _ (hid.resolve_right (by simp))
    · cases next
  | rollback i =>
    simp only [LoSystem.step] at next
    split at next
    · cases next
    · rename_i tstate own _ hsession
      cases next
      refine h.of_end rfl rfl rfl (fun _ hid => hid) fun id hid hown => ?_
      rw [hsession] at hown
      have hlost : ∀ id ∈ (s.session i).own, id ∉ s.handed := careful
      rw [hsession] at hlost
      exact absurd hid (hlost id (hown.resolve_right (by simp)))
    · cases next
  | call i c =>
    simp only [LoSystem.step] at next
    split at next
    · rename_i tstate own hsession
      split at next
      · cases next
        refine h.of_kept rfl rfl rfl rfl (fun hb => ?_) False.elim fun id _ hid => ?_
        · rw [hsession]
          exact hb
        · rw [hsession] at hid
          exact Or.inr (Or.inl (hid.resolve_right (by simp)))
      · cases next
        exact h.forward c _
    · cases next
  | lock i =>
    simp only [LoSystem.step] at next
    split at next
    · rename_i c code hphase
      exact h.lock hphase careful next
    · cases next
  | lockFails i =>
    simp only [LoSystem.step] at next
    split at next
    · rename_i c code own hsession
      cases next
      have hkept : Safe (s.setSession i ⟨.E, .ready, own⟩) := by
        refine h.of_kept rfl rfl rfl rfl (fun hb => ?_) False.elim fun id _ hid => ?_
        · rw [hsession]
          exact hb
        · rw [hsession] at hid
          exact Or.inr (Or.inl (hid.resolve_right (by simp)))
      exact hkept.forward c _
    · cases next
  | fetch i =>
    simp only [LoSystem.step] at next
    split at next
    · rename_i c code hphase
      cases next
      exact h.fetch hphase
    · cases next
  | create i =>
    simp only [LoSystem.step] at next
    split at next
    · rename_i lobjid hphase
      cases next
      exact h.create hphase
    · cases next
  | appear id =>
    cases next
    exact ⟨h.nodup, fun x hx => (h.there x hx).imp_left (List.mem_cons_of_mem _), h.alone, h.block⟩
  | remove id =>
    cases next
    refine ⟨h.nodup, fun x hx => (h.there x hx).imp_left fun hc => ?_, h.alone, h.block⟩
    have hne : x ≠ id := by
      rintro rfl
      exact careful hx
    exact List.mem_filter.mpr ⟨hc, by simpa using hne⟩

/-! ## What is forwarded -/

/-- A call is forwarded as it is, or it is one of `lo_creat` and has become one of `lo_create` with an id that has
been given, and with its result format. -/
def Answered (cfg : LobjConfig) (handed : List Nat) (c : CallMessage) (packet : List UInt8) : Prop :=
  packet = encodeCall c.fields ∨
    c.fields.oid = cfg.loCreatOid ∧ ∃ id ∈ handed,
      decodeCall packet = some ⟨cfg.loCreateOid, [1], [some (htonl id)], c.fields.result⟩

/-- The call that a session is at is one of `lo_creat`, with this result format. -/
def Asked (cfg : LobjConfig) : Phase → Prop
  | .locking c code | .fetching c code => asks cfg (encodeCall c.fields) = some code
  | .ready | .creating _ => True

/-- What holds of the calls between two steps. -/
structure Forwards (cfg : LobjConfig) (s : LoSystem) : Prop where
  asked : ∀ i, Asked cfg (s.session i).phase
  sent : ∀ p ∈ s.sent, Answered cfg s.handed p.1 p.2

/-- The words at the ends of a call. -/
theorem asks_encodeCall {c : CallMessage} {code : Nat} (h : asks cfg (encodeCall c.fields) = some code) :
    c.fields.oid = cfg.loCreatOid ∧ code = c.fields.result.toNat := by
  have hoid : (encodeCall c.fields).take 4 = htonl c.fields.oid :=
    List.take_left' (length_htonl c.fields.oid)
  have hresult : (encodeCall c.fields).drop ((encodeCall c.fields).length - 2) = codeBytes c.fields.result := by
    have hsplit : encodeCall c.fields = (htonl c.fields.oid ++ (htons c.fields.formats.length ++
        (c.fields.formats.flatMap codeBytes ++ (htons c.fields.args.length ++
          c.fields.args.flatMap paramBytes)))) ++ codeBytes c.fields.result := by
      simp [encodeCall]
    rw [hsplit]
    generalize htonl c.fields.oid ++ _ = front
    refine List.drop_left' ?_
    rw [List.length_append]
    exact (Nat.add_sub_cancel front.length 2).symm
  unfold asks at h
  rw [hoid, hresult, ntohl_htonl c.wellFormed.oid, codeBytes, ntohs_htons c.fields.result.toNat_lt] at h
  simp only at h
  split at h
  · cases h
  · split at h
    · cases h
    · rename_i _ hsame
      split at h
      · exact ⟨Decidable.of_not_not hsame, (Option.some.inj h).symm⟩
      · cases h

/-- A session goes on, and nothing is forwarded. -/
theorem Forwards.of_session (h : Forwards cfg s) (session : s'.session = Function.update s.session i t)
    (sent : s'.sent = s.sent) (handed : s'.handed = s.handed) (asked : Asked cfg t.phase) : Forwards cfg s' := by
  refine ⟨fun j => ?_, fun p hp => handed ▸ h.sent p (sent ▸ hp)⟩
  rw [session]
  by_cases hj : j = i
  · rw [hj, Function.update_self]
    exact asked
  · rw [Function.update_of_ne hj]
    exact h.asked j

theorem Forwards.forward (h : Forwards cfg s) {c : CallMessage} {packet : List UInt8}
    (answered : Answered cfg s.handed c packet) : Forwards cfg (s.forward c packet) := by
  refine ⟨h.asked, fun p hp => ?_⟩
  rcases List.mem_cons.mp hp with rfl | hp
  · exact answered
  · exact h.sent p hp

/-- Another id is given. -/
theorem Forwards.handed (h : Forwards cfg s) (id : Nat) : Forwards cfg { s with handed := id :: s.handed } := by
  refine ⟨h.asked, fun p hp => (h.sent p hp).imp_right ?_⟩
  rintro ⟨hoid, id', hid, hdecode⟩
  exact ⟨hoid, id', List.mem_cons_of_mem _ hid, hdecode⟩

/-- The query for the id, and the packet with it. -/
theorem Forwards.fetch (h : Forwards cfg s) {c : CallMessage} {code : Nat}
    (hphase : (s.session i).phase = .fetching c code) : Forwards cfg (s.fetch cfg i c code) := by
  have hasked := h.asked i
  rw [hphase] at hasked
  obtain ⟨hoid, hcode⟩ := asks_encodeCall hasked
  unfold LoSystem.fetch
  simp only
  split
  · have hnext : Forwards cfg (s.setSession i { s.session i with phase := .creating (s.nextId i) }) :=
      h.of_session rfl rfl rfl trivial
    refine Forwards.forward (hnext.handed (s.nextId i)) (Or.inr ⟨hoid, s.nextId i, List.mem_cons_self, ?_⟩)
    rw [hcode]
    exact decodeCall_loCreatePacket cfg.loCreateOid_lt
  · have hkept : Forwards cfg (s.setSession i { s.session i with
        phase := .ready
        tstate := if (s.session i).tstate = .T ∧ s.nextId i = 2 ^ 31 then .E else (s.session i).tstate }) :=
      h.of_session rfl rfl rfl trivial
    exact hkept.forward (Or.inl rfl)

/-- What a step preserves. -/
theorem Forwards.step (h : Forwards cfg s) {e : LoEvent} (next : s.step cfg e = some s') : Forwards cfg s' := by
  cases e with
  | begin i | commit i =>
    simp only [LoSystem.step] at next
    split at next
    · cases next
      exact h.of_session rfl rfl rfl trivial
    · cases next
  | rollback i =>
    simp only [LoSystem.step] at next
    split at next
    · cases next
    · cases next
      exact h.of_session rfl rfl rfl trivial
    · cases next
  | call i c =>
    simp only [LoSystem.step] at next
    split at next
    · split at next
      · rename_i hasks
        cases next
        exact h.of_session rfl rfl rfl hasks
      · cases next
        exact h.forward (Or.inl rfl)
    · cases next
  | lock i =>
    simp only [LoSystem.step] at next
    split at next
    · rename_i c code hphase
      have hasked := h.asked i
      rw [hphase] at hasked
      unfold LoSystem.lock at next
      simp only at next
      split at next
      · cases next
        exact h.of_session rfl rfl rfl hasked
      · split at next
        · cases next
          exact h.of_session rfl rfl rfl hasked
        · cases next
      · cases next
        have hkept : Forwards cfg (s.setSession i { s.session i with phase := .ready }) :=
          h.of_session rfl rfl rfl trivial
        exact hkept.forward (Or.inl rfl)
    · cases next
  | lockFails i =>
    simp only [LoSystem.step] at next
    split at next
    · rename_i c code own hsession
      cases next
      have hkept : Forwards cfg (s.setSession i ⟨.E, .ready, own⟩) := h.of_session rfl rfl rfl trivial
      exact hkept.forward (Or.inl rfl)
    · cases next
  | fetch i =>
    simp only [LoSystem.step] at next
    split at next
    · rename_i c code hphase
      cases next
      exact h.fetch hphase
    · cases next
  | create i =>
    simp only [LoSystem.step] at next
    split at next
    · cases next
      unfold LoSystem.create
      simp only
      split
      · exact h.of_session rfl rfl rfl trivial
      · split
        · exact h.of_session rfl rfl rfl trivial
        · exact h.of_session rfl rfl rfl trivial
    · cases next
  | appear id | remove id =>
    cases next
    exact ⟨h.asked, h.sent⟩

end LoSystem

open LoSystem

/-- A call of `lo_creat`. -/
def creatCall : CallMessage :=
  ⟨⟨957, [], [some [0, 0, 0, 1]], 0⟩, ⟨by decide, by decide, by decide, by simp⟩⟩

def exampleConfig : LobjConfig := ⟨"lobj_lock", true, 957, 715, by decide⟩

/-- Two sessions with a transaction each. -/
def twoCalls : List LoEvent :=
  [.begin 0, .call 0 creatCall, .begin 1, .call 1 creatCall, .lock 0, .fetch 0, .create 0, .commit 0, .lock 1,
    .fetch 1]

end PgPool.LargeObject
