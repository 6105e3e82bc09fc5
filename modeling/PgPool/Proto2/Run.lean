import PgPool.Proto2.Exact

/-!
# Sessions of protocol V2

Message after message is relayed exactly as long as none meets a defect of its handler, and function
calls are relayed exactly if they have at most one argument.
-/

namespace PgPool.Proto2

variable {nodes : Nodes} {b : Bool} {fmt : Format} {numFields : Nat}

namespace Message

/-- The parts of a notification and of a row description. -/
def pid : Message → UInt32
  | notificationResponse pid _ => pid
  | _ => 0

def condition : Message → List UInt8
  | notificationResponse _ condition => condition
  | _ => []

def fields : Message → List Field
  | rowDescription fields => fields
  | _ => []

theorem Tolerates.kind {m m' : Message} (h : m.Tolerates m') : m'.kind = m.kind := by
  cases m <;> cases m' <;> first | rfl | exact h.elim

variable {m : Message}

theorem Tolerates.asciiRow {map : List UInt8} {vals : List (List UInt8)}
    (h : (asciiRow map vals).Tolerates m) : m = .asciiRow m.map m.values := by
  cases m <;> first | rfl | exact h.elim

theorem Tolerates.binaryRow {map : List UInt8} {vals : List (List UInt8)}
    (h : (binaryRow map vals).Tolerates m) : m = .binaryRow m.map m.values := by
  cases m <;> first | rfl | exact h.elim

theorem Tolerates.completedResponse {t : List UInt8} (h : (completedResponse t).Tolerates m) :
    m = .completedResponse m.text ∧ (m.text.length = t.length ∨ t.take 6 = insertTag) := by
  cases m <;> first | exact ⟨rfl, h⟩ | exact h.elim

theorem Tolerates.cursorResponse {t : List UInt8} (h : (cursorResponse t).Tolerates m) :
    m = .cursorResponse m.text ∧ m.text.length = t.length := by
  cases m <;> first | exact ⟨rfl, h⟩ | exact h.elim

theorem Tolerates.emptyQueryResponse (h : emptyQueryResponse.Tolerates m) :
    m = .emptyQueryResponse := by
  cases m <;> first | rfl | exact h.elim

theorem Tolerates.errorResponse {t : List UInt8} (h : (errorResponse t).Tolerates m) :
    m = .errorResponse m.text := by
  cases m <;> first | rfl | exact h.elim

theorem Tolerates.noticeResponse {t : List UInt8} (h : (noticeResponse t).Tolerates m) :
    m = .noticeResponse m.text := by
  cases m <;> first | rfl | exact h.elim

theorem Tolerates.notificationResponse {p : UInt32} {c : List UInt8}
    (h : (notificationResponse p c).Tolerates m) : m = .notificationResponse m.pid m.condition := by
  cases m <;> first | rfl | exact h.elim

theorem Tolerates.rowDescription {fs : List Field} (h : (rowDescription fs).Tolerates m) :
    m = .rowDescription m.fields ∧
      fs.map (fun f => f.name.length) = m.fields.map (fun f => f.name.length) := by
  cases m <;> first | exact ⟨rfl, h⟩ | exact h.elim

end Message

theorem lastRead_mem : nodes.lastRead ∈ nodes.valid := by
  unfold Nodes.lastRead
  cases hlast : nodes.others.getLast? with
  | none => exact nodes.master_mem
  | some i => exact (mem_others.mp (List.mem_of_getLast? hlast)).1

/-- `INSERT` has no null byte. -/
theorem take_insertTag {t : List UInt8} (h : t.take 6 = insertTag) :
    ((t ++ [0]).take 6 == insertTag) = true := by
  have hlen : 6 ≤ t.length := by
    have hl := congrArg List.length h
    rw [List.length_take] at hl
    simp only [insertTag, List.length_cons, List.length_nil] at hl
    omega
  rw [List.take_append_of_le_length hlen, h, beq_self_eq_true]

/-! ## One message -/

/-- What the nodes send next, with the number of fields announced. -/
structure Sent (nodes : Nodes) (numFields : Nat) (m : Nat → Message) : Prop where
  wellFormed : ∀ i ∈ nodes.valid, (m i).WellFormed numFields
  tolerates : ∀ i ∈ nodes.valid, (m nodes.master).Tolerates (m i)

/-- A binary row, in either of the cases in which it is relayed. -/
theorem reads_binaryRow {map : Nat → List UInt8} {vals : Nat → List (List UInt8)}
    (hmap : ∀ i ∈ nodes.valid, (map i).length = mapLen numFields)
    (hcount : ∀ i ∈ nodes.valid, (vals i).length = nonNull (map i) numFields 0)
    (hvals : ∀ i ∈ nodes.valid, ∀ v ∈ vals i, v.length + 4 < 2 ^ 31)
    (hcase : (∀ i ∈ nodes.valid, vals i = []) ∨ (fmt.binaryExtra = 4 ∧ nodes.numBackends = 1 ∧
      binaryCount (map nodes.master) numFields 0 0 = (vals nodes.master).length)) :
    Reads nodes b (binaryRow nodes numFields)
      (fun i => map i ++ (vals i).flatMap (sized fmt.binaryExtra))
      (0x42 :: (map nodes.master ++ (vals nodes.master).flatMap (sized fmt.binaryExtra))) () := by
  refine Reads.congr (Reads.bind (reads_poolWrite [0x42])
    (c := fun i => map i ++ (vals i).flatMap (sized fmt.binaryExtra))
    (p := map nodes.master ++ (vals nodes.master).flatMap (sized fmt.binaryExtra)) ?_)
    (fun _ _ => rfl) rfl rfl
  by_cases hnone : mapLen numFields ≤ 0
  · rw [if_pos hnone]
    exact reads_noFields hnone hmap hcount
  · rw [if_neg hnone]
    have hloop : ∀ {a : Nat → List UInt8} {o : List UInt8},
        Reads nodes b (binaryFields nodes (map nodes.lastRead) numFields 0 0) a o () →
        Reads nodes b (binaryRowBody nodes numFields) (fun i => map i ++ a i)
          (map nodes.master ++ o) () := by
      intro a o hf
      refine Reads.congr (Reads.bind (reads_poolRead nodes.master_mem (hmap _ nodes.master_mem))
        (Reads.bind (reads_poolWrite (map nodes.master)) (reads_maps hmap hf))) ?_ rfl rfl
      intro i hi
      have hsplit := @master_then_others nodes map i hi
      simp only [List.nil_append]
      rw [← List.append_assoc, ← hsplit]
    obtain hnil | ⟨hextra, hone, hfound⟩ := hcase
    · refine Reads.congr (hloop (a := fun _ => []) (o := []) ?_) ?_ ?_ rfl
      · have hempty : nonNull (map nodes.lastRead) numFields 0 = 0 := by
          rw [← hcount _ lastRead_mem, hnil _ lastRead_mem]
          rfl
        rw [binaryFields_nil (n := numFields)
          (fun j hj => not_isSet_of_nonNull hempty (Nat.zero_le j) (by omega)) (by omega) rfl]
        exact Reads.pure ()
      · intro i hi
        simp [hnil i hi]
      · simp [hnil _ nodes.master_mem]
    · have hall : ∀ i ∈ nodes.valid, i = nodes.master := by
        intro i hi
        have h := nodes.lt i hi
        have h' := nodes.lt _ nodes.master_mem
        omega
      rw [hextra]
      refine Reads.congr (hloop (reads_binaryFields hone ?_
        (hvals _ nodes.master_mem))) ?_ rfl rfl
      · rw [hall _ lastRead_mem]
        exact hfound
      · intro i hi
        rw [hall i hi, only_self]

/-- A handler for messages of one form. -/
theorem reads_handler {m c : Nat → Message} {first : Message} {x : Act Unit}
    (hm : m nodes.master = first) (hform : ∀ i ∈ nodes.valid, m i = c i)
    (hx : Reads nodes b x (fun i => (c i).body fmt) ((c nodes.master).bytes fmt) ()) :
    Reads nodes b (do x; pure numFields) (fun i => (m i).body fmt) (first.bytes fmt) numFields := by
  refine Reads.congr (Reads.bind hx (Reads.pure numFields)) ?_ ?_ rfl
  · intro i hi
    rw [hform i hi]
    exact (List.append_nil _).symm
  · rw [← hm, hform _ nodes.master_mem]
    exact (List.append_nil _).symm

theorem reads_dispatch {m : Nat → Message} (h : Sent nodes numFields m)
    (hc : Careful nodes fmt b numFields m) :
    Reads nodes b (dispatch nodes numFields [(m nodes.master).kind]) (fun i => (m i).body fmt)
      ((m nodes.master).bytes fmt) ((m nodes.master).nextFields numFields) := by
  obtain ⟨hwf, htol⟩ := h
  unfold Careful at hc
  cases hm : m nodes.master with
  | asciiRow map vals =>
    simp only [hm] at hc htol ⊢
    have hform := fun i hi => (htol i hi).asciiRow
    have hwf' : ∀ i ∈ nodes.valid, (Message.asciiRow (m i).map (m i).values).WellFormed numFields :=
      fun i hi => hform i hi ▸ hwf i hi
    refine reads_handler hm hform (@reads_asciiRow nodes b numFields (fun i => (m i).map)
      (fun i => (m i).values) (fun i hi => (hwf' i hi).1) (fun i hi => ?_) (fun i hi => (hwf' i hi).2.2))
    rw [hc i hi, (hwf' _ lastRead_mem).2.1]
  | binaryRow map vals =>
    simp only [hm] at hc htol ⊢
    have hform := fun i hi => (htol i hi).binaryRow
    have hwf' : ∀ i ∈ nodes.valid, (Message.binaryRow (m i).map (m i).values).WellFormed numFields :=
      fun i hi => hform i hi ▸ hwf i hi
    refine reads_handler hm hform (@reads_binaryRow nodes b fmt numFields (fun i => (m i).map)
      (fun i => (m i).values) (fun i hi => (hwf' i hi).1) (fun i hi => (hwf' i hi).2.1)
      (fun i hi => (hwf' i hi).2.2) ?_)
    simp only [hm]
    exact hc
  | completedResponse t =>
    simp only [hm] at htol ⊢
    have hform := fun i hi => (htol i hi).completedResponse
    have hwf' : ∀ i ∈ nodes.valid, (Message.completedResponse (m i).text).WellFormed numFields :=
      fun i hi => (hform i hi).1 ▸ hwf i hi
    refine reads_handler hm (fun i hi => (hform i hi).1)
      (@reads_sameLength nodes b _ _ (fun i => (m i).text) hwf' (fun i hi => ?_))
    simp only [hm]
    obtain hlen | hinsert := (hform i hi).2
    · exact .inl hlen
    · exact .inr (take_insertTag hinsert)
  | cursorResponse t =>
    simp only [hm] at htol ⊢
    have hform := fun i hi => (htol i hi).cursorResponse
    have hwf' : ∀ i ∈ nodes.valid, (Message.cursorResponse (m i).text).WellFormed numFields :=
      fun i hi => (hform i hi).1 ▸ hwf i hi
    refine reads_handler hm (fun i hi => (hform i hi).1)
      (@reads_sameLength nodes b _ _ (fun i => (m i).text) hwf' (fun i hi => ?_))
    simp only [hm]
    exact .inl (hform i hi).2
  | emptyQueryResponse =>
    simp only [hm] at htol ⊢
    exact reads_handler hm (fun i hi => (htol i hi).emptyQueryResponse) reads_emptyQueryResponse
  | errorResponse t =>
    simp only [hm] at hc htol ⊢
    have hform := fun i hi => (htol i hi).errorResponse
    have hwf' : ∀ i ∈ nodes.valid, (Message.errorResponse (m i).text).WellFormed numFields :=
      fun i hi => hform i hi ▸ hwf i hi
    refine reads_handler hm hform (@reads_lastString nodes b _ (fun i => (m i).text) hwf' ?_)
    simp only [hm]
    exact hc
  | noticeResponse t =>
    simp only [hm] at hc htol ⊢
    have hform := fun i hi => (htol i hi).noticeResponse
    have hwf' : ∀ i ∈ nodes.valid, (Message.noticeResponse (m i).text).WellFormed numFields :=
      fun i hi => hform i hi ▸ hwf i hi
    refine reads_handler hm hform (@reads_lastString nodes b _ (fun i => (m i).text) hwf' ?_)
    simp only [hm]
    exact hc
  | notificationResponse p c =>
    simp only [hm] at htol ⊢
    have hform := fun i hi => (htol i hi).notificationResponse
    have hwf' : ∀ i ∈ nodes.valid,
        (Message.notificationResponse (m i).pid (m i).condition).WellFormed numFields :=
      fun i hi => hform i hi ▸ hwf i hi
    exact reads_handler hm hform (@reads_notificationResponse nodes b (fun i => (m i).pid)
      (fun i => (m i).condition) hwf')
  | functionResult value =>
    simp only [hm] at hc ⊢
    obtain ⟨hone, hempty, hbuf⟩ := hc
    have hsmall := hwf _ nodes.master_mem
    rw [hm] at hsmall
    refine Reads.congr (Reads.bind
      (@reads_functionResultResponse nodes b fmt value hone hempty hbuf hsmall)
      (Reads.pure numFields)) ?_ (List.append_nil _).symm rfl
    intro i hi
    rw [hone] at hi
    rw [List.mem_singleton.mp hi, hm, List.append_nil]
  | rowDescription fs =>
    simp only [hm] at htol ⊢
    have hform := fun i hi => (htol i hi).rowDescription
    have hwf' : ∀ i ∈ nodes.valid, (Message.rowDescription (m i).fields).WellFormed numFields :=
      fun i hi => (hform i hi).1 ▸ hwf i hi
    refine Reads.congr (@reads_rowDescription nodes b (fun i => (m i).fields)
      (fun i hi => (hwf' i hi).1) (fun i hi => (hwf' i hi).2) (fun i hi => ?_)) ?_ ?_ ?_
    · simp only [hm]
      exact (hform i hi).2.symm
    · intro i hi
      rw [(hform i hi).1]
      rfl
    · simp only [hm]
      rfl
    · simp only [hm]
      rfl

theorem reads_processBackendResponse {m : Nat → Message} (h : Sent nodes numFields m)
    (hc : Careful nodes fmt b numFields m) :
    Reads nodes b (processBackendResponse nodes numFields) (fun i => (m i).bytes fmt)
      ((m nodes.master).bytes fmt) ((m nodes.master).nextFields numFields) := by
  refine Reads.congr (reads_alike (n := 1) (w := [(m nodes.master).kind]) rfl (reads_dispatch h hc)) ?_
    rfl rfl
  intro i hi
  show (m i).kind :: _ = _
  rw [(h.tolerates i hi).kind]
  rfl

/-! ## A sequence of messages -/

/-- The nodes send messages one after the other, each well formed with the number of fields announced
before. -/
def SentAll (nodes : Nodes) : Nat → List (Nat → Message) → Prop
  | _, [] => True
  | numFields, m :: ms =>
      Sent nodes numFields m ∧ SentAll nodes ((m nodes.master).nextFields numFields) ms

/-- No message meets a defect when its turn has come. -/
def CarefulAll (nodes : Nodes) (fmt : Format) : Nat → Relay → List (Nat → Message) → Prop
  | _, _, [] => True
  | numFields, s, m :: ms =>
      Careful nodes fmt (s.buf2 nodes.master) numFields m ∧
        ∀ v s', processBackendResponse nodes numFields s = some (v, s') → CarefulAll nodes fmt v s' ms

/-- The frontend has received exactly the messages of the master, and every node's stream is advanced
by exactly that node's own. -/
def Relayed (nodes : Nodes) (fmt : Format) (numFields : Nat) (ms : List (Nat → Message)) (s : Relay)
    (t : Nat → List UInt8) : Prop :=
  ∃ v s', processAll nodes ms.length numFields s = some (v, s') ∧
    s'.out = s.out ++ ms.flatMap (fun m => (m nodes.master).bytes fmt) ∧
    ∀ i ∈ nodes.valid, s'.backends i = t i

/-- The streams begin with the messages. -/
def Ahead (nodes : Nodes) (fmt : Format) (ms : List (Nat → Message)) (s : Relay) (t : Nat → List UInt8) :
    Prop :=
  ∀ i ∈ nodes.valid, s.backends i = ms.flatMap (fun m => (m i).bytes fmt) ++ t i

theorem relayed_of_carefulAll {ms : List (Nat → Message)} {s : Relay} {t : Nat → List UInt8}
    (hsent : SentAll nodes numFields ms) (hahead : Ahead nodes fmt ms s t)
    (hc : CarefulAll nodes fmt numFields s ms) : Relayed nodes fmt numFields ms s t := by
  induction ms generalizing numFields s with
  | nil => exact ⟨numFields, s, rfl, (List.append_nil _).symm, hahead⟩
  | cons m ms ih =>
    obtain ⟨s', hrun, hout, hback, _⟩ := reads_processBackendResponse hsent.1 hc.1 s
      (fun i => ms.flatMap (fun m => (m i).bytes fmt) ++ t i)
      (fun i hi => by rw [hahead i hi, List.flatMap_cons, List.append_assoc]) id
    obtain ⟨v, s'', hrun', hout', hback'⟩ := ih hsent.2 hback (hc.2 _ _ hrun)
    refine ⟨v, s'', ?_, ?_, hback'⟩
    · show (processBackendResponse nodes numFields s).bind
        (fun q => processAll nodes ms.length q.1 q.2) = _
      rw [hrun]
      exact hrun'
    · rw [hout', hout, List.flatMap_cons, List.append_assoc]

/-! ## Function calls -/

/-- The connection to the frontend: what it has to say and whether `pool_read2` has a buffer for it; and
what each node has been sent. -/
structure Front where
  input : List UInt8
  buf2 : Bool
  sent : Nat → List UInt8

namespace Front

variable (fr : Front)

/-- `pool_read` from the frontend. -/
def read (n : Nat) : Option (List UInt8 × Front) :=
  if fr.input.length < n then none
  else some (fr.input.take n, { fr with input := fr.input.drop n })

/-- `pool_read2` from the frontend. -/
def read2 (n : Nat) : Option (List UInt8 × Front) :=
  if n = 0 ∧ fr.buf2 = false then none else { fr with buf2 := true }.read n

/-- `pool_write` to every valid node. -/
def sendAll (nodes : Nodes) (bytes : List UInt8) : Front :=
  { fr with sent := fun i => if i ∈ nodes.valid then fr.sent i ++ bytes else fr.sent i }

end Front

/-- The loop of `FunctionCall` over the arguments.  The loops over the nodes use the same variable `i`,
and leave `NUM_BACKENDS` in it.  Every argument takes four bytes at least, so that `fuel` is no bound if
it is the length of the input. -/
def argLoop (nodes : Nodes) (argn : Nat) : Nat → Nat → Front → Option Front
  | 0, _, _ => none
  | fuel + 1, i, fr =>
    if i < argn then
      match fr.read 4 with
      | none => none
      | some (len, fr) =>
        if 2 ^ 31 ≤ ntohl len then none
        else
          match (fr.sendAll nodes len).read2 (ntohl len) with
          | none => none
          | some (arg, fr) => argLoop nodes argn fuel (nodes.numBackends + 1) (fr.sendAll nodes arg)
    else some fr

/-- `FunctionCall`, after its kind has been read. -/
def functionCall (nodes : Nodes) (fr : Front) : Option Front :=
  match (fr.sendAll nodes [0x46]).read 2 with
  | none => none
  | some (dummy, fr) =>
    match (fr.sendAll nodes dummy).read 4 with
    | none => none
    | some (oid, fr) =>
      match (fr.sendAll nodes oid).read 4 with
      | none => none
      | some (argn, fr) =>
        let fr := fr.sendAll nodes argn
        argLoop nodes (if ntohl argn < 2 ^ 31 then ntohl argn else 0) (fr.input.length + 1) 0 fr

/-- A function call, with the two bytes of its unused string. -/
structure Call where
  dummy : List UInt8
  oid : UInt32
  args : List (List UInt8)
  dummy_length : dummy.length = 2
  args_length : args.length < 2 ^ 31
  arg_length : ∀ v ∈ args, v.length < 2 ^ 31

/-- What follows the kind. -/
def Call.body (c : Call) : List UInt8 :=
  c.dummy ++ (htonl c.oid.toNat ++ (htonl c.args.length ++ c.args.flatMap (sized 0)))

/-- The call goes to every valid node as it is, and nothing else is taken from the frontend. -/
def Call.Relayed (nodes : Nodes) (c : Call) (buf2 : Bool) (rest : List UInt8) : Prop :=
  ∃ fr, functionCall nodes ⟨c.body ++ rest, buf2, fun _ => []⟩ = some fr ∧ fr.input = rest ∧
    ∀ i ∈ nodes.valid, fr.sent i = 0x46 :: c.body

section

variable {fr : Front} {w t : List UInt8}

theorem Front.read_append {n : Nat} (h : fr.input = w ++ t) (hw : w.length = n) :
    fr.read n = some (w, { fr with input := t }) := by
  unfold Front.read
  rw [h, if_neg (by rw [List.length_append]; omega), List.take_left' hw, List.drop_left' hw]

/-- Beyond the number of the nodes the loop has no end but that of the input. -/
theorem argLoop_none {argn fuel : Nat} (h : nodes.numBackends + 1 < argn) :
    argLoop nodes argn fuel (nodes.numBackends + 1) fr = none := by
  induction fuel generalizing fr with
  | zero => rfl
  | succ fuel ih =>
    unfold argLoop
    rw [if_pos h]
    split
    · rfl
    · split
      · rfl
      · split
        · rfl
        · exact ih

/-- The first argument. -/
theorem argLoop_zero {argn fuel : Nat} {v : List UInt8} (hargn : 0 < argn) (hv : v.length < 2 ^ 31)
    (hinput : fr.input = sized 0 v ++ t) :
    (v = [] ∧ fr.buf2 = false ∧ argLoop nodes argn (fuel + 1) 0 fr = none) ∨
      (¬ (v = [] ∧ fr.buf2 = false) ∧ ∃ fr', argLoop nodes argn (fuel + 1) 0 fr =
        argLoop nodes argn fuel (nodes.numBackends + 1) fr' ∧ fr'.input = t ∧
        ∀ i ∈ nodes.valid, fr'.sent i = fr.sent i ++ sized 0 v) := by
  have hlen := ntohl_htonl (show v.length + 0 < 2 ^ 32 by omega)
  have hword := Front.read_append (n := 4) (t := v ++ t) (hinput.trans (List.append_assoc _ _ _))
    (length_htonl (v.length + 0))
  obtain ⟨g, hg⟩ : ∃ g, g = ({ fr with input := v ++ t } : Front).sendAll nodes
    (htonl (v.length + 0)) := ⟨_, rfl⟩
  have hstep : argLoop nodes argn (fuel + 1) 0 fr =
      match g.read2 (v.length + 0) with
      | none => none
      | some (arg, fr) => argLoop nodes argn fuel (nodes.numBackends + 1) (fr.sendAll nodes arg) := by
    rw [argLoop, if_pos hargn, hword]
    simp only [hlen]
    rw [if_neg (by omega), hg]
  have hbuf : g.buf2 = fr.buf2 := by
    rw [hg]
    rfl
  by_cases hnull : v = [] ∧ fr.buf2 = false
  · obtain ⟨hv, hno⟩ := hnull
    refine .inl ⟨hv, hno, ?_⟩
    have hread : g.read2 (v.length + 0) = none := if_pos ⟨by rw [hv]; rfl, hbuf.trans hno⟩
    rw [hstep, hread]
  · refine .inr ⟨hnull, ?_⟩
    have hinput' : g.input = v ++ t := by
      rw [hg]
      rfl
    have hread : g.read2 (v.length + 0) = some (v, { g with input := t, buf2 := true }) := by
      unfold Front.read2
      rw [if_neg (fun h => hnull ⟨List.eq_nil_of_length_eq_zero h.1, hbuf ▸ h.2⟩)]
      exact @Front.read_append { g with buf2 := true } _ _ _ hinput' rfl
    rw [hstep, hread]
    refine ⟨_, rfl, rfl, ?_⟩
    intro i hi
    rw [hg]
    simp only [Front.sendAll, if_pos hi, sized, List.append_assoc]

end

/-- The arguments that are relayed: at most one, which is not the first thing of no length that
`pool_read2` is asked for. -/
def Call.Simple (c : Call) (buf2 : Bool) : Prop := c.args.length ≤ 1 ∧ (c.args = [[]] → buf2 = true)

theorem functionCall_eq (c : Call) (buf2 : Bool) (rest : List UInt8) :
    ∃ fr, functionCall nodes ⟨c.body ++ rest, buf2, fun _ => []⟩ =
        argLoop nodes c.args.length ((c.args.flatMap (sized 0) ++ rest).length + 1) 0 fr ∧
      fr.input = c.args.flatMap (sized 0) ++ rest ∧ fr.buf2 = buf2 ∧
      ∀ i ∈ nodes.valid, fr.sent i =
        0x46 :: (c.dummy ++ (htonl c.oid.toNat ++ htonl c.args.length)) := by
  have hargn := ntohl_htonl (show c.args.length < 2 ^ 32 by
    have := c.args_length
    omega)
  unfold functionCall
  rw [Front.read_append (w := c.dummy) (t := htonl c.oid.toNat ++ (htonl c.args.length ++
    (c.args.flatMap (sized 0) ++ rest))) (by simp [Front.sendAll, Call.body]) c.dummy_length]
  simp only
  rw [Front.read_append (w := htonl c.oid.toNat) (t := htonl c.args.length ++
    (c.args.flatMap (sized 0) ++ rest)) rfl (length_htonl _)]
  simp only
  rw [Front.read_append (w := htonl c.args.length) (t := c.args.flatMap (sized 0) ++ rest) rfl
    (length_htonl _)]
  simp only [hargn, if_pos c.args_length]
  refine ⟨_, rfl, rfl, rfl, ?_⟩
  intro i hi
  simp [Front.sendAll, hi]

theorem call_relayed_iff (c : Call) (buf2 : Bool) (rest : List UInt8) :
    c.Relayed nodes buf2 rest ↔ c.Simple buf2 := by
  obtain ⟨fr, hcall, hinput, hbuf, hsent⟩ := @functionCall_eq nodes c buf2 rest
  unfold Call.Relayed Call.Simple
  rw [hcall]
  have hsmall := c.arg_length
  have hbody : 0x46 :: c.body = 0x46 :: (c.dummy ++ (htonl c.oid.toNat ++ htonl c.args.length)) ++
      c.args.flatMap (sized 0) := by
    simp [Call.body]
  cases hargs : c.args with
  | nil =>
    rw [hargs] at hinput
    refine ⟨fun _ => ⟨by simp, by simp⟩, fun _ => ⟨fr, rfl, hinput, ?_⟩⟩
    intro i hi
    rw [hsent i hi, hbody, hargs]
    simp
  | cons v vs =>
    rw [hargs, List.flatMap_cons, List.append_assoc] at hinput
    rw [hargs] at hsmall
    obtain ⟨hv, hbuf', hnone⟩ | ⟨hready, fr', hstep, hinput', hsent'⟩ :=
      @argLoop_zero nodes fr _ (v :: vs).length ((v :: vs).flatMap (sized 0) ++ rest).length v
        (by simp) (hsmall v List.mem_cons_self) hinput
    · rw [hnone]
      constructor
      · rintro ⟨_, h, _⟩
        cases h
      · rintro ⟨hle, himp⟩
        have hvs : vs = [] := List.eq_nil_of_length_eq_zero (by simpa using hle)
        rw [hv, hvs] at himp
        rw [hbuf, himp rfl] at hbuf'
        cases hbuf'
    · rw [hstep]
      by_cases hvs : vs = []
      · subst hvs
        have hpos : 0 < ([v].flatMap (sized 0) ++ rest).length := by
          simp only [List.flatMap_cons, sized, List.length_append, length_htonl]
          omega
        have hend : argLoop nodes [v].length ([v].flatMap (sized 0) ++ rest).length
            (nodes.numBackends + 1) fr' = some fr' := by
          obtain ⟨n, hn⟩ := Nat.exists_eq_succ_of_ne_zero (Nat.ne_of_gt hpos)
          rw [hn]
          unfold argLoop
          exact if_neg (by simp)
        rw [hend]
        refine ⟨fun _ => ⟨by simp, ?_⟩, fun _ => ⟨fr', rfl, hinput', ?_⟩⟩
        · intro hv
          cases hv
          cases hbt : buf2 with
          | true => rfl
          | false => exact absurd ⟨rfl, hbuf.trans hbt⟩ hready
        · intro i hi
          rw [hsent' i hi, hsent i hi, hbody, hargs]
          simp
      · have hlen : 1 < (v :: vs).length := by
          rw [List.length_cons]
          have := List.length_pos_iff.mpr hvs
          omega
        constructor
        · rintro ⟨fr'', hend, hrest, _⟩
          exfalso
          by_cases hmore : nodes.numBackends + 1 < (v :: vs).length
          · rw [argLoop_none hmore] at hend
            cases hend
          · generalize ((v :: vs).flatMap (sized 0) ++ rest).length = fuel at hend
            cases fuel with
            | zero => cases hend
            | succ fuel =>
              unfold argLoop at hend
              rw [if_neg hmore] at hend
              cases hend
              rw [hinput'] at hrest
              have hl := congrArg List.length hrest
              obtain ⟨u, us, rfl⟩ := List.exists_cons_of_ne_nil hvs
              simp [sized] at hl
              omega
        · rintro ⟨hle, _⟩
          omega

/-! ## Sessions -/

/-- Two nodes. -/
def twoNodes : Nodes where
  numBackends := 2
  valid := [0, 1]
  master := 0
  nodup := by decide
  master_mem := by decide
  lt := by decide

/-- One message. -/
def session (fmt : Format) (m : Nat → Message) : Relay where
  backends i := (m i).bytes fmt
  buf2 _ := false
  out := []

/-- A row of two fields, of which the master has the second and the other node the first. -/
def row : Nat → Message
  | 0 => .asciiRow [0x40] [[0x61]]
  | _ => .asciiRow [0x80] [[0x62, 0x63]]

/-- An error whose text is not the same on both nodes. -/
def twoErrors : Nat → Message
  | 0 => .errorResponse [0x61]
  | _ => .errorResponse [0x62]

end PgPool.Proto2
