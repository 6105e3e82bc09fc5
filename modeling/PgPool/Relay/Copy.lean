import Mathlib.Data.List.TakeWhile
import PgPool.Relay.Forward

/-!
# COPY

`CopyInResponse`, `CopyOutResponse` and `CopyDataRows` of `pool_proto_modules.c`, for data that is not
distributed by a rule.  One function has a loop for each direction and each protocol.
-/

namespace PgPool

namespace Relay

section

variable (fresh : Nat → UInt8) (nodes : QueryNodes)

/-- `SimpleForwardToBackend` of a message with contents or without. -/
def simpleForwardToBackend (kind : UInt8) (contents : List UInt8) : List RelayAction :=
  nodes.valid.flatMap fun i =>
    [.toBackend i (kind :: (htonl (contents.length + 4) ++ contents)), .flush i]

/-- A round of the copy-in loop of protocol V3: a message of any kind is read and forwarded.  What
`SimpleForwardToBackend` returns is ignored, so that a message with a bad length is dropped. -/
def forwardCopyMessage (r : Relay) : Option (UInt8 × Relay) :=
  match r.frontend.poolRead fresh 1 with
  | some ([kind], s) =>
      match s.poolRead fresh 4 with
      | none => none
      | some (word, s) =>
          match contentsSize word with
          | none => some (kind, { r with frontend := s })
          | some 0 => some (kind, { r with frontend := s }.act (simpleForwardToBackend nodes kind []))
          | some (len + 1) =>
              match s.poolRead2 (len + 1) with
              | none => none
              | some (contents, s) =>
                  some (kind,
                    { r with frontend := s }.act (simpleForwardToBackend nodes kind contents))
  | _ => none

/-- Copy in, protocol V3.  Every round takes some bytes of the stream. -/
def copyInLoop3 : Nat → Relay → PoolStatus × Relay
  | 0, r => (.stop, r)
  | fuel + 1, r =>
      match r.forwardCopyMessage fresh nodes with
      | none => (.stop, r)
      | some (kind, r) => if kind = 100 then copyInLoop3 fuel r else (.continue, r)

/-- The line that ends the data in protocol V2. -/
def endOfCopy : List UInt8 := [92, 46, 10]

/-- Copy in, protocol V2: what `pool_read_string` takes for a line goes to every node. -/
def copyInLoop2 : Nat → Relay → PoolStatus × Relay
  | 0, r => (.stop, r)
  | fuel + 1, r =>
      match r.frontend.poolReadString fresh true with
      | none => (.stop, r)
      | some (string, s) =>
          let r := { r with frontend := s }.act (nodes.valid.flatMap fun i => [.toBackend i string])
          if string = endOfCopy then (.continue, r) else copyInLoop2 fuel r

/-- Copy out, protocol V3. -/
def copyOutLoop3 : Nat → Relay → PoolStatus × Relay
  | 0, r => (.stop, r)
  | fuel + 1, r =>
      match r.poolReadKind fresh nodes with
      | none => (.stop, r)
      | some (kind, r) =>
          let r := (r.simpleForwardToFrontend fresh nodes kind).2
          if kind = 100 then copyOutLoop3 fuel r else (.continue, r)

/-- A line from each of some nodes; the last one is kept. -/
def readLines : List UInt8 → List NodeId → Relay → Option (List UInt8 × Relay)
  | string, [], r => some (string, r)
  | _, i :: rest, r =>
      match (r.backends i).poolReadString fresh true with
      | none => none
      | some (string, s) => readLines string rest (r.setBackend i s)

/-- Copy out, protocol V2. -/
def copyOutLoop2 : Nat → Relay → PoolStatus × Relay
  | 0, r => (.stop, r)
  | fuel + 1, r =>
      match readLines fresh [] nodes.valid r with
      | none => (.stop, r)
      | some (string, r) =>
          let r := r.act [.toFrontend string]
          if string = endOfCopy then (.continue, r) else copyOutLoop2 fuel r

/-- The end of `CopyDataRows` for copy in. -/
def synchronizeAll : List RelayAction := nodes.valid.flatMap fun i => [.flush i, .wait i]

/-- `CopyDataRows`. -/
def copyDataRows (major : Proto) (copyin : Bool) (r : Relay) : PoolStatus × Relay :=
  if copyin then
    let fuel := r.frontend.ahead.length + 1
    let result := match major with
      | .v3 => copyInLoop3 fresh nodes fuel r
      | .v2 => copyInLoop2 fresh nodes fuel r
    match result with
    | (.continue, r) => (.continue, r.act (synchronizeAll nodes))
    | result => result
  else
    let fuel := (r.backends nodes.master).ahead.length + 1
    match major with
    | .v3 => copyOutLoop3 fresh nodes fuel r
    | .v2 => copyOutLoop2 fresh nodes fuel r

/-- `CopyInResponse` and `CopyOutResponse`, for the kinds `G` and `H`. -/
def copyResponse (major : Proto) (kind : UInt8) (copyin : Bool) (r : Relay) : PoolStatus × Relay :=
  match major with
  | .v2 => copyDataRows fresh nodes .v2 copyin (r.act [.toFrontend [kind]])
  | .v3 =>
      match r.simpleForwardToFrontend fresh nodes kind with
      | (.continue, r) => copyDataRows fresh nodes .v3 copyin r
      | (_, r) => (.stop, r)

def copyInResponse (major : Proto) (r : Relay) : PoolStatus × Relay :=
  copyResponse fresh nodes major 71 true r

def copyOutResponse (major : Proto) (r : Relay) : PoolStatus × Relay :=
  copyResponse fresh nodes major 72 false r

end

/-! ## What is written -/

/-- The bytes that the actions write to a node. -/
def bytesTo (i : NodeId) : List RelayAction → List UInt8
  | [] => []
  | .toBackend j bytes :: rest => if j = i then bytes ++ bytesTo i rest else bytesTo i rest
  | _ :: rest => bytesTo i rest

/-- The bytes that the actions write to the client. -/
def bytesToFrontend : List RelayAction → List UInt8
  | [] => []
  | .toFrontend bytes :: rest => bytes ++ bytesToFrontend rest
  | _ :: rest => bytesToFrontend rest

/-- The nodes that are waited for. -/
def waits : List RelayAction → List NodeId
  | [] => []
  | .wait i :: rest => i :: waits rest
  | _ :: rest => waits rest

section

variable {i : NodeId} {a b : List RelayAction} {nodes : QueryNodes} {l : List NodeId}
  {bytes bytes' : List UInt8}

@[simp] theorem bytesTo_append : bytesTo i (a ++ b) = bytesTo i a ++ bytesTo i b := by
  induction a with
  | nil => rfl
  | cons x a ih =>
    cases x with
    | toBackend j bytes =>
      simp only [List.cons_append, bytesTo, ih]
      split <;> simp
    | _ => exact ih

@[simp] theorem bytesToFrontend_append :
    bytesToFrontend (a ++ b) = bytesToFrontend a ++ bytesToFrontend b := by
  induction a with
  | nil => rfl
  | cons x a ih =>
    cases x with
    | toFrontend bytes => simp [bytesToFrontend, ih]
    | _ => exact ih

@[simp] theorem waits_append : waits (a ++ b) = waits a ++ waits b := by
  induction a with
  | nil => rfl
  | cons x a ih =>
    cases x with
    | wait j => simp [waits, ih]
    | _ => exact ih

/-- Bytes have gone to every node of some, and to no other one, and nobody was waited for. -/
structure Writes (l : List NodeId) (bytes : List UInt8) (a : List RelayAction) : Prop where
  node : ∀ i ∈ l, bytesTo i a = bytes
  other : ∀ i, i ∉ l → bytesTo i a = []
  waits : waits a = []

theorem Writes.append (h : Writes l bytes a) (h' : Writes l bytes' b) :
    Writes l (bytes ++ bytes') (a ++ b) := by
  refine ⟨fun i hi => ?_, fun i hi => ?_, ?_⟩
  · rw [bytesTo_append, h.node i hi, h'.node i hi]
  · rw [bytesTo_append, h.other i hi, h'.other i hi]
    rfl
  · rw [waits_append, h.waits, h'.waits]
    rfl

/-- One write for each node. -/
theorem writes_each {f : NodeId → List RelayAction} (hl : l.Nodup)
    (hself : ∀ i, bytesTo i (f i) = bytes) (hother : ∀ i j, j ≠ i → bytesTo j (f i) = [])
    (hwaits : ∀ i, Relay.waits (f i) = []) : Writes l bytes (l.flatMap f) := by
  induction l with
  | nil => exact ⟨by simp, fun _ _ => rfl, rfl⟩
  | cons k l ih =>
    obtain ⟨hk, hl⟩ := List.nodup_cons.1 hl
    obtain ⟨hnode, hnone, hwait⟩ := ih hl
    rw [List.flatMap_cons]
    refine ⟨fun i hi => ?_, fun i hi => ?_, ?_⟩
    · rw [bytesTo_append]
      rcases List.mem_cons.1 hi with rfl | hi
      · rw [hself, hnone i hk, List.append_nil]
      · have hne : i ≠ k := fun h => hk (h ▸ hi)
        rw [hother k i hne, hnode i hi, List.nil_append]
    · rw [List.mem_cons, not_or] at hi
      rw [bytesTo_append, hother k i hi.1, hnone i hi.2]
      rfl
    · rw [waits_append, hwaits, hwait]
      rfl

theorem writes_simpleForwardToBackend (m : WireMessage) :
    Writes nodes.valid m.bytes (simpleForwardToBackend nodes m.kind m.contents) := by
  refine writes_each nodes.nodup ?_ ?_ fun _ => rfl
  · intro i
    simp [bytesTo, WireMessage.bytes, WireMessage.body, WireMessage.word]
  · intro i j hne
    simp [bytesTo, Ne.symm hne]

theorem writes_line (string : List UInt8) :
    Writes nodes.valid string (nodes.valid.flatMap fun i => [.toBackend i string]) := by
  refine writes_each nodes.nodup ?_ ?_ fun _ => rfl
  · intro i
    simp [bytesTo]
  · intro i j hne
    simp [bytesTo, Ne.symm hne]

variable (nodes) in
theorem synchronizeAll_spec :
    (∀ i, bytesTo i (synchronizeAll nodes) = []) ∧ waits (synchronizeAll nodes) = nodes.valid := by
  unfold synchronizeAll
  induction nodes.valid with
  | nil => exact ⟨fun _ => rfl, rfl⟩
  | cons k l ih =>
    rw [List.flatMap_cons]
    refine ⟨fun i => ?_, ?_⟩
    · rw [bytesTo_append, ih.1]
      rfl
    · rw [waits_append, ih.2]
      rfl

end

/-! ## Copy in -/

section

variable {fresh : Nat → UInt8} {nodes : QueryNodes} {r t u : Relay} {m : WireMessage}
  {bytes bytes' rest : List UInt8} {fuel : Nat}

/-- The frontend's stream has moved on, and these bytes have gone to every node. -/
structure Passes (nodes : QueryNodes) (r : Relay) (bytes rest : List UInt8) (t : Relay) : Prop where
  frontend : t.frontend.Holds rest
  backends : t.backends = r.backends
  actions : ∃ a, t.actions = r.actions ++ a ∧ Writes nodes.valid bytes a

theorem Passes.trans {rest' : List UInt8} (h : Passes nodes r bytes rest t)
    (h' : Passes nodes t bytes' rest' u) : Passes nodes r (bytes ++ bytes') rest' u := by
  obtain ⟨a, ha, hw⟩ := h.actions
  obtain ⟨b, hb, hw'⟩ := h'.actions
  refine ⟨h'.frontend, h'.backends.trans h.backends, a ++ b, ?_, hw.append hw'⟩
  rw [hb, ha, List.append_assoc]

variable (fresh nodes) in
/-- One message of protocol V3. -/
theorem forwardCopyMessage_spec (h : r.frontend.Holds (m.bytes ++ rest)) :
    ∃ t, r.forwardCopyMessage fresh nodes = some (m.kind, t) ∧ Passes nodes r m.bytes rest t := by
  have hkind : r.frontend.Holds ([m.kind] ++ (m.word ++ (m.contents ++ rest))) := by
    have hsame : [m.kind] ++ (m.word ++ (m.contents ++ rest)) = m.bytes ++ rest := by
      simp [WireMessage.bytes, WireMessage.body]
    rw [hsame]
    exact h
  obtain ⟨s, hs, hword, -⟩ := hkind.poolRead fresh rfl
  obtain ⟨s', hs', hcontents, -⟩ := hword.poolRead fresh m.length_word
  rw [show ([m.kind] : List UInt8).length = 1 from rfl] at hs
  have hwrites : Writes nodes.valid _ _ := writes_simpleForwardToBackend m
  unfold forwardCopyMessage
  simp only [hs, hs', m.contentsSize_word]
  cases hlen : m.contents.length with
  | zero =>
    have hnil : m.contents = [] := List.length_eq_zero_iff.1 hlen
    rw [hnil] at hcontents hwrites
    exact ⟨_, rfl, hcontents, rfl, _, rfl, hwrites⟩
  | succ len =>
    obtain ⟨s'', hs'', hrest, -⟩ := hcontents.poolRead2 hlen
    simp only [hs'']
    exact ⟨_, rfl, hrest, rfl, _, rfl, hwrites⟩

variable (fresh nodes) in
/-- The messages of the data are passed on, and the first one of another kind ends the loop. -/
theorem copyInLoop3_spec {messages : List WireMessage} {last : WireMessage}
    (hdata : ∀ m ∈ messages, m.kind = 100) (hlast : last.kind ≠ 100)
    (h : r.frontend.Holds (wire messages ++ (last.bytes ++ rest))) (hfuel : messages.length < fuel) :
    ∃ t, copyInLoop3 fresh nodes fuel r = (.continue, t) ∧
      Passes nodes r (wire messages ++ last.bytes) rest t := by
  induction messages generalizing r fuel with
  | nil =>
    obtain ⟨t, ht, hpasses⟩ := forwardCopyMessage_spec fresh nodes h
    cases fuel with
    | zero => cases hfuel
    | succ fuel =>
      refine ⟨t, ?_, hpasses⟩
      simp only [copyInLoop3, ht, if_neg hlast]
  | cons m messages ih =>
    rw [wire_cons, List.append_assoc] at h
    obtain ⟨t, ht, hpasses⟩ := forwardCopyMessage_spec fresh nodes h
    cases fuel with
    | zero => cases hfuel
    | succ fuel =>
      obtain ⟨u, hu, hpasses'⟩ := ih (fun x hx => hdata x (List.mem_cons_of_mem _ hx))
        hpasses.frontend (Nat.lt_of_succ_lt_succ hfuel)
      refine ⟨u, ?_, ?_⟩
      · simp only [copyInLoop3, ht, if_pos (hdata m (List.mem_cons_self ..)), hu]
      · rw [wire_cons, List.append_assoc]
        exact hpasses.trans hpasses'

/-! Lines of protocol V2.  A null character ends what the reader takes for a line too. -/

/-- The line before its newline ends like the line that ends the data, from its last null character
on. -/
def endsLikeData (line : List UInt8) : Bool := line.reverse.takeWhile (· != 0) == [46, 92]

theorem endsLikeData_append {a b : List UInt8} : endsLikeData (a ++ 0 :: b) = endsLikeData b := by
  have htake : ∀ c : List UInt8,
      (c ++ 0 :: a.reverse).takeWhile (· != 0) = c.takeWhile (· != 0) := by
    intro c
    induction c with
    | nil => simp
    | cons x c ih =>
      rw [List.cons_append, List.takeWhile_cons, List.takeWhile_cons, ih]
  unfold endsLikeData
  rw [List.reverse_append, List.reverse_cons, List.append_assoc, List.singleton_append, htake]

theorem endsLikeData_of_plain {line : List UInt8} (h : ∀ b ∈ line, b ≠ 0) :
    endsLikeData line = true ↔ line ++ [10] = endOfCopy := by
  have hall : line.reverse.takeWhile (· != 0) = line.reverse := by
    refine List.takeWhile_eq_self_iff.2 fun b hb => ?_
    simpa using h b (List.mem_reverse.1 hb)
  unfold endsLikeData endOfCopy
  rw [hall, beq_iff_eq]
  constructor
  · intro hrev
    have := congrArg List.reverse hrev
    rw [List.reverse_reverse] at this
    rw [this]
    rfl
  · intro hline
    have hsame : line ++ [10] = [92, 46] ++ [10] := hline
    rw [List.append_cancel_right hsame]
    rfl

variable (fresh nodes) in
/-- A line is passed on, in one part or more. -/
theorem copyInLoop2_line {line : List UInt8} (hline : ∀ b ∈ line, b ≠ 10)
    (h : r.frontend.Holds ((line ++ [10]) ++ rest)) (hfuel : line.length + rest.length < fuel) :
    ∃ t fuel', Passes nodes r (line ++ [10]) rest t ∧ rest.length ≤ fuel' ∧
      copyInLoop2 fresh nodes fuel r =
        if endsLikeData line then (.continue, t) else copyInLoop2 fresh nodes fuel' t := by
  induction hn : line.length using Nat.strongRecOn generalizing line r fuel with
  | ind n ih =>
    cases fuel with
    | zero => cases hfuel
    | succ fuel =>
      by_cases hzero : (0 : UInt8) ∈ line
      · -- the part up to the first null character does not end the data
        obtain ⟨a, b, rfl, ha⟩ := List.eq_append_cons_of_mem hzero
        have hterm : Terminated (terminates true) (a ++ [0]) := by
          refine ⟨a, 0, rfl, rfl, fun x hx => ?_⟩
          have h0 : x ≠ 0 := fun h0 => ha (h0 ▸ hx)
          have h10 := hline x (List.mem_append_left _ hx)
          simp [terminates, h0, h10]
        have hhead : r.frontend.Holds ((a ++ [0]) ++ ((b ++ [10]) ++ rest)) := by
          have hsame : (a ++ [0]) ++ ((b ++ [10]) ++ rest) = (a ++ 0 :: b ++ [10]) ++ rest := by
            simp
          rw [hsame]
          exact h
        obtain ⟨s, hs, hrest⟩ := hhead.poolReadString fresh hterm
        have hpart : Passes nodes r (a ++ [0]) ((b ++ [10]) ++ rest)
            ({ r with frontend := s }.act (nodes.valid.flatMap fun i => [.toBackend i (a ++ [0])])) :=
          ⟨hrest, rfl, _, rfl, writes_line _⟩
        have hlen : (a ++ 0 :: b).length = a.length + b.length + 1 := by simp; omega
        obtain ⟨t, fuel', hpasses, hfuel', hloop⟩ := ih b.length (by omega)
          (fun x hx => hline x (List.mem_append_right _ (List.mem_cons_of_mem _ hx))) hpart.frontend
          (show b.length + rest.length < fuel by omega) rfl
        refine ⟨t, fuel', ?_, hfuel', ?_⟩
        · have hsame : (a ++ [0]) ++ (b ++ [10]) = a ++ 0 :: b ++ [10] := by simp
          rw [← hsame]
          exact hpart.trans hpasses
        · have hnot : a ++ [0] ≠ endOfCopy := by
            intro hend
            have := congrArg List.getLast? hend
            simp [endOfCopy] at this
          simp only [copyInLoop2, hs, if_neg hnot, endsLikeData_append]
          exact hloop
      · have hplain : ∀ b ∈ line, b ≠ 0 := fun b hb h0 => hzero (h0 ▸ hb)
        have hterm : Terminated (terminates true) (line ++ [10]) := by
          refine ⟨line, 10, rfl, rfl, fun b hb => ?_⟩
          have h0 := hplain b hb
          have h10 := hline b hb
          simp [terminates, h0, h10]
        obtain ⟨s, hs, hrest⟩ := h.poolReadString fresh hterm
        refine ⟨{ r with frontend := s }.act
          (nodes.valid.flatMap fun i => [.toBackend i (line ++ [10])]), fuel, ?_, ?_, ?_⟩
        · exact ⟨hrest, rfl, _, rfl, writes_line _⟩
        · omega
        · simp only [copyInLoop2, hs]
          have hiff := endsLikeData_of_plain hplain
          by_cases hend : line ++ [10] = endOfCopy
          · rw [if_pos hend, if_pos (hiff.2 hend)]
          · rw [if_neg hend, if_neg (fun h => hend (hiff.1 h))]

/-- Lines, each with its newline. -/
def text (lines : List (List UInt8)) : List UInt8 := lines.flatMap (· ++ [10])

@[simp] theorem text_cons (line : List UInt8) (lines : List (List UInt8)) :
    text (line :: lines) = (line ++ [10]) ++ text lines := List.flatMap_cons

variable (fresh nodes) in
/-- The lines before one that ends like the data are passed on, and so is that one, which ends the
loop. -/
theorem copyInLoop2_spec {lines : List (List UInt8)} {last : List UInt8}
    (hlines : ∀ line ∈ lines, (∀ b ∈ line, b ≠ 10) ∧ endsLikeData line = false)
    (hlast : (∀ b ∈ last, b ≠ 10) ∧ endsLikeData last = true)
    (h : r.frontend.Holds (text lines ++ ((last ++ [10]) ++ rest)))
    (hfuel : (text lines).length + last.length + rest.length < fuel) :
    ∃ t, copyInLoop2 fresh nodes fuel r = (.continue, t) ∧
      Passes nodes r (text lines ++ (last ++ [10])) rest t := by
  induction lines generalizing r fuel with
  | nil =>
    have hlen : last.length + rest.length < fuel := by
      simpa [text] using hfuel
    obtain ⟨t, fuel', hpasses, -, hloop⟩ := copyInLoop2_line fresh nodes hlast.1 h hlen
    rw [hlast.2] at hloop
    exact ⟨t, hloop, hpasses⟩
  | cons line lines ih =>
    obtain ⟨hline, hopen⟩ := hlines line (List.mem_cons_self ..)
    rw [text_cons, List.append_assoc] at h
    have hlen : line.length + (text lines ++ ((last ++ [10]) ++ rest)).length < fuel := by
      simp only [text_cons, List.length_append, List.length_singleton] at hfuel ⊢
      omega
    obtain ⟨t, fuel', hpasses, hfuel', hloop⟩ := copyInLoop2_line fresh nodes hline h hlen
    rw [hopen] at hloop
    have hlen' : (text lines).length + last.length + rest.length < fuel' := by
      simp only [List.length_append, List.length_singleton] at hfuel'
      omega
    obtain ⟨u, hu, hpasses'⟩ := ih (fun x hx => hlines x (List.mem_cons_of_mem _ hx))
      hpasses.frontend hlen'
    refine ⟨u, hloop.trans hu, ?_⟩
    rw [text_cons, List.append_assoc]
    exact hpasses.trans hpasses'

/-- **Copy in**: every node has got these bytes, once and in order, then each was waited for, and the
frontend's stream stands right behind them. -/
structure CopiedIn (nodes : QueryNodes) (r : Relay) (bytes rest : List UInt8)
    (result : PoolStatus × Relay) : Prop where
  status : result.1 = .continue
  frontend : result.2.frontend.Holds rest
  actions : ∃ before after, result.2.actions = r.actions ++ (before ++ after) ∧
    Writes nodes.valid bytes before ∧ (∀ i, bytesTo i after = []) ∧ waits after = nodes.valid

theorem CopiedIn.of_passes (h : Passes nodes r bytes rest t) :
    CopiedIn nodes r bytes rest (.continue, t.act (synchronizeAll nodes)) := by
  obtain ⟨a, ha, hw⟩ := h.actions
  obtain ⟨hnone, hwaits⟩ := synchronizeAll_spec nodes
  refine ⟨rfl, h.frontend, a, synchronizeAll nodes, ?_, hw, hnone, hwaits⟩
  change t.actions ++ _ = _
  rw [ha, List.append_assoc]

/-- A loop that stops too early leaves bytes on the frontend's stream. -/
theorem not_copiedIn {more : List UInt8} (h : Passes nodes r bytes' (more ++ rest) t)
    (hmore : more ≠ []) :
    ¬ CopiedIn nodes r bytes rest (.continue, t.act (synchronizeAll nodes)) := by
  intro hcopied
  have hsame : more ++ rest = rest := h.frontend.ahead.symm.trans hcopied.frontend.ahead
  exact hmore (List.append_left_eq_self.1 hsame)

/-- The first element of a list that fails a test. -/
theorem exists_first {α : Type} {p : α → Prop} [DecidablePred p] {l : List α}
    (h : ¬ ∀ x ∈ l, p x) :
    ∃ x front back, l = front ++ x :: back ∧ ¬ p x ∧ ∀ y ∈ front, p y := by
  cases hfind : l.find? fun x => !decide (p x) with
  | none =>
    refine absurd (fun x hx => ?_) h
    simpa using List.find?_eq_none.1 hfind x hx
  | some x =>
    obtain ⟨hx, front, back, hl, hfront⟩ := List.find?_eq_some_iff_append.1 hfind
    exact ⟨x, front, back, hl, by simpa using hx, fun y hy => by simpa using hfront y hy⟩

/-- Protocol V3: the data is passed on exactly if no other message stands in it. -/
theorem copiedIn3_iff {messages : List WireMessage} {last : WireMessage} (hlast : last.kind ≠ 100)
    (h : r.frontend.Holds (wire messages ++ (last.bytes ++ rest))) :
    CopiedIn nodes r (wire messages ++ last.bytes) rest (copyDataRows fresh nodes .v3 true r) ↔
      ∀ m ∈ messages, m.kind = 100 := by
  have hfuel : ∀ {front : List WireMessage}, front.length ≤ messages.length →
      front.length < r.frontend.ahead.length + 1 := by
    intro front hle
    have := length_le_wire messages
    rw [h.ahead, List.length_append]
    omega
  unfold copyDataRows
  simp only [if_true]
  constructor
  · intro hcopied
    by_contra hother
    obtain ⟨m, front, back, rfl, hm, hfront⟩ := exists_first hother
    have hholds : r.frontend.Holds (wire front ++ (m.bytes ++ ((wire back ++ last.bytes) ++ rest))) := by
      simpa using h
    obtain ⟨t, ht, hpasses⟩ := copyInLoop3_spec fresh nodes hfront hm hholds
      (hfuel (by simp))
    rw [ht] at hcopied
    refine not_copiedIn hpasses ?_ hcopied
    simp [WireMessage.bytes]
  · intro hdata
    obtain ⟨t, ht, hpasses⟩ := copyInLoop3_spec fresh nodes hdata hlast h
      (hfuel (Nat.le_refl _))
    rw [ht]
    exact .of_passes hpasses

/-- Protocol V2: the data is passed on exactly if no line of it ends like the last one behind a null
character. -/
theorem copiedIn2_iff {lines : List (List UInt8)} (hlines : ∀ line ∈ lines, ∀ b ∈ line, b ≠ 10)
    (h : r.frontend.Holds (text lines ++ (endOfCopy ++ rest))) :
    CopiedIn nodes r (text lines ++ endOfCopy) rest (copyDataRows fresh nodes .v2 true r) ↔
      ∀ line ∈ lines, endsLikeData line = false := by
  have hall : (text lines).length + 3 + rest.length < r.frontend.ahead.length + 1 := by
    rw [h.ahead, List.length_append, List.length_append, endOfCopy, List.length_cons,
      List.length_cons, List.length_singleton]
    omega
  unfold copyDataRows
  simp only [if_true]
  constructor
  · intro hcopied
    by_contra hother
    obtain ⟨line, front, back, rfl, hline, hfront⟩ := exists_first hother
    have hholds : r.frontend.Holds
        (text front ++ ((line ++ [10]) ++ ((text back ++ endOfCopy) ++ rest))) := by
      simpa [text] using h
    have hfuel : (text front).length + line.length + ((text back ++ endOfCopy) ++ rest).length <
        r.frontend.ahead.length + 1 := by
      rw [hholds.ahead]
      simp only [List.length_append, List.length_singleton]
      omega
    obtain ⟨t, ht, hpasses⟩ := copyInLoop2_spec fresh nodes
      (fun x hx => ⟨hlines x (by simp [hx]), hfront x hx⟩)
      ⟨hlines line (by simp), by simpa using hline⟩ hholds hfuel
    rw [ht] at hcopied
    refine not_copiedIn hpasses ?_ hcopied
    simp [endOfCopy]
  · intro hdata
    have hlast : (∀ b ∈ ([92, 46] : List UInt8), b ≠ 10) ∧ endsLikeData [92, 46] = true :=
      ⟨by simp, by decide⟩
    have hfuel : (text lines).length + ([92, 46] : List UInt8).length + rest.length <
        r.frontend.ahead.length + 1 := by
      rw [List.length_cons, List.length_singleton]
      omega
    obtain ⟨t, ht, hpasses⟩ := copyInLoop2_spec fresh nodes
      (fun x hx => ⟨hlines x hx, hdata x hx⟩) hlast h hfuel
    rw [ht]
    exact .of_passes hpasses

end

/-! ## Copy out -/

section

variable {fresh : Nat → UInt8} {nodes : QueryNodes} {r t u : Relay} {rest : NodeId → List UInt8}
  {fuel : Nat}

/-- Messages as they are written to the client. -/
def forwarded (messages : List WireMessage) : List RelayAction :=
  messages.map fun m => .toFrontend m.bytes

theorem bytesToFrontend_forwarded (messages : List WireMessage) :
    bytesToFrontend (forwarded messages) = wire messages := by
  induction messages with
  | nil => rfl
  | cons m messages ih =>
    change m.bytes ++ bytesToFrontend (forwarded messages) = _
    rw [ih, wire_cons]

/-- The nodes send messages of the same kinds. -/
def SameKinds (nodes : QueryNodes) (messages : NodeId → List WireMessage) : Prop :=
  ∀ i ∈ nodes.valid, (messages i).map WireMessage.kind =
    (messages nodes.master).map WireMessage.kind

/-- The first messages of nodes that send the same kinds. -/
theorem SameKinds.cons {messages : NodeId → List WireMessage} {m : WireMessage}
    {back : List WireMessage} (h : SameKinds nodes messages)
    (hmaster : messages nodes.master = m :: back) :
    ∃ (first : NodeId → WireMessage) (tail : NodeId → List WireMessage),
      (∀ i ∈ nodes.valid, messages i = first i :: tail i ∧ (first i).kind = m.kind) ∧
        first nodes.master = m ∧ tail nodes.master = back ∧ SameKinds nodes tail := by
  have hcons : ∀ i ∈ nodes.valid, messages i = (messages i).head?.getD m :: (messages i).tail ∧
      ((messages i).head?.getD m).kind = m.kind ∧
        (messages i).tail.map WireMessage.kind = back.map WireMessage.kind := by
    intro i hi
    have hkinds := h i hi
    rw [hmaster] at hkinds
    cases hlist : messages i with
    | nil =>
      rw [hlist] at hkinds
      cases hkinds
    | cons x xs =>
      rw [hlist, List.map_cons, List.map_cons] at hkinds
      obtain ⟨hx, hxs⟩ := List.cons.inj hkinds
      exact ⟨rfl, hx, hxs⟩
  refine ⟨fun i => (messages i).head?.getD m, fun i => (messages i).tail, ?_, ?_, ?_, ?_⟩
  · intro i hi
    exact ⟨(hcons i hi).1, (hcons i hi).2.1⟩
  · simp only [hmaster, List.head?_cons, Option.getD_some]
  · simp only [hmaster, List.tail_cons]
  · intro i hi
    simp only [hmaster, List.tail_cons]
    exact (hcons i hi).2.2

variable (fresh nodes) in
/-- Replies, one after the other, that are just forwarded. -/
def processOthers : Nat → Relay → PoolStatus × Relay
  | 0, r => (.continue, r)
  | n + 1, r =>
      match r.processOther fresh nodes with
      | (.continue, r) => processOthers n r
      | result => result

variable (fresh nodes) in
/-- A reply of one kind. -/
theorem processOther_of_at {m : NodeId → WireMessage} {kind : UInt8}
    (hkind : ∀ i ∈ nodes.valid, (m i).kind = kind) (hstatus : kind ≠ 83) (herror : kind ≠ 69)
    (h : ∀ i ∈ nodes.valid, r.At i ((m i).bytes ++ rest i)) :
    ∃ t, r.processOther fresh nodes = (.continue, t) ∧ (∀ i ∈ nodes.valid, t.At i (rest i)) ∧
      SameBut nodes.valid (r.act (forwarded [m nodes.master])) t := by
  have hread : ∀ i ∈ nodes.valid, r.At i (wire [] ++ kind :: ((m i).body ++ rest i)) := by
    intro i hi
    have hbytes := h i hi
    rw [WireMessage.bytes, hkind i hi, List.cons_append] at hbytes
    exact hbytes
  obtain ⟨t, ht, hat, hsame⟩ := readKindFromBackend_of_at fresh nodes
    (fun _ => []) (fun _ _ _ hp => absurd hp List.not_mem_nil) hstatus hread
  obtain ⟨u, hu, hat', hsame'⟩ := simpleForwardToFrontend_of_at fresh nodes kind hat
  have hnot : (kind == 69) = false := by simpa using herror
  refine ⟨u, ?_, hat', ?_⟩
  · unfold processOther
    rw [ht]
    simp only [hu, hnot, Bool.false_and, Bool.false_eq_true, if_false]
  · have hfirst : (m nodes.master).bytes = kind :: (m nodes.master).body := by
      rw [WireMessage.bytes, hkind nodes.master (List.mem_cons_self ..)]
    have hthrough := hsame.next hsame'
    rw [← hfirst] at hthrough
    exact hthrough

theorem processOthers_spec {messages : NodeId → List WireMessage} {ms : List WireMessage}
    (hms : messages nodes.master = ms) (hkinds : SameKinds nodes messages)
    (hother : ∀ m ∈ ms, m.kind ≠ 83 ∧ m.kind ≠ 69)
    (h : ∀ i ∈ nodes.valid, r.At i (wire (messages i) ++ rest i)) :
    ∃ t, processOthers fresh nodes ms.length r = (.continue, t) ∧
      (∀ i ∈ nodes.valid, t.At i (rest i)) ∧ SameBut nodes.valid (r.act (forwarded ms)) t := by
  induction ms generalizing r messages with
  | nil =>
    refine ⟨r, rfl, fun i hi => ?_, rfl, (List.append_nil _).symm, fun _ _ => rfl⟩
    have hnil : messages i = [] := by
      have := hkinds i hi
      rw [hms] at this
      exact List.map_eq_nil_iff.1 this
    simpa [hnil] using h i hi
  | cons m back ih =>
    obtain ⟨first, tail, hcons, hfirst, htail, hsame⟩ := hkinds.cons hms
    obtain ⟨hstatus, herror⟩ := hother m (List.mem_cons_self ..)
    have hhead : ∀ i ∈ nodes.valid, r.At i ((first i).bytes ++ (wire (tail i) ++ rest i)) := by
      intro i hi
      have hi' := h i hi
      rw [(hcons i hi).1, wire_cons, List.append_assoc] at hi'
      exact hi'
    obtain ⟨t, ht, hat, hmoved⟩ := processOther_of_at fresh nodes (fun i hi => (hcons i hi).2) hstatus
      herror hhead
    obtain ⟨u, hu, hat', hmoved'⟩ := ih htail hsame
      (fun x hx => hother x (List.mem_cons_of_mem _ hx)) hat
    refine ⟨u, ?_, hat', ?_⟩
    · simp only [List.length_cons, processOthers, ht, hu]
    · have hthrough := hmoved.next hmoved'
      rw [hfirst] at hthrough
      exact hthrough

/-- The loop of protocol V3 for a message of every node. -/
theorem copyOutLoop3_spec {messages : NodeId → List WireMessage} {front : List WireMessage}
    {last : WireMessage} (hms : messages nodes.master = front ++ [last])
    (hkinds : SameKinds nodes messages) (hdata : ∀ m ∈ front, m.kind = 100) (hlast : last.kind ≠ 100)
    (h : ∀ i ∈ nodes.valid, r.At i (wire (messages i) ++ rest i)) (hfuel : front.length < fuel) :
    ∃ t, copyOutLoop3 fresh nodes fuel r = (.continue, t) ∧
      (∀ i ∈ nodes.valid, t.At i (rest i)) ∧
      SameBut nodes.valid (r.act (forwarded (front ++ [last]))) t := by
  induction front generalizing r messages fuel with
  | nil =>
    obtain ⟨first, tail, hcons, hfirst, htail, hsame⟩ := hkinds.cons hms
    have hhead : ∀ i ∈ nodes.valid, r.At i (last.kind :: ((first i).body ++ rest i)) := by
      intro i hi
      have hnil : tail i = [] := by
        have := hsame i hi
        rw [htail] at this
        exact List.map_eq_nil_iff.1 this
      have hi' := h i hi
      rw [(hcons i hi).1, hnil, wire_cons, WireMessage.bytes, (hcons i hi).2] at hi'
      simpa using hi'
    obtain ⟨t, ht, hat, hmoved⟩ := poolReadKind_of_at fresh nodes hhead
    obtain ⟨u, hu, hat', hmoved'⟩ := simpleForwardToFrontend_of_at fresh nodes last.kind hat
    cases fuel with
    | zero => cases hfuel
    | succ fuel =>
      refine ⟨u, ?_, hat', ?_⟩
      · simp only [copyOutLoop3, ht, hu, if_neg hlast]
      · have hthrough := hmoved.act.comp hmoved'
        rw [hfirst] at hthrough
        exact hthrough
  | cons m front ih =>
    obtain ⟨first, tail, hcons, hfirst, htail, hsame⟩ := hkinds.cons hms
    have hm : m.kind = 100 := hdata m (List.mem_cons_self ..)
    have hhead : ∀ i ∈ nodes.valid, r.At i (m.kind :: ((first i).body ++ (wire (tail i) ++ rest i))) := by
      intro i hi
      have hi' := h i hi
      rw [(hcons i hi).1, wire_cons, WireMessage.bytes, (hcons i hi).2] at hi'
      simpa using hi'
    obtain ⟨t, ht, hat, hmoved⟩ := poolReadKind_of_at fresh nodes hhead
    obtain ⟨u, hu, hat', hmoved'⟩ := simpleForwardToFrontend_of_at fresh nodes m.kind hat
    cases fuel with
    | zero => cases hfuel
    | succ fuel =>
      obtain ⟨v, hv, hat'', hmoved''⟩ := ih htail hsame
        (fun x hx => hdata x (List.mem_cons_of_mem _ hx)) hat' (Nat.lt_of_succ_lt_succ hfuel)
      refine ⟨v, ?_, hat'', ?_⟩
      · simp only [copyOutLoop3, ht, hu, if_pos hm, hv]
      · have hthrough := (hmoved.act.comp hmoved').next hmoved''
        rw [hfirst] at hthrough
        exact hthrough

variable (fresh) in
/-- A line of each node. -/
theorem readLines_spec {line : NodeId → List UInt8} (string : List UInt8) {l : List NodeId}
    (hl : l.Nodup) (hline : ∀ i ∈ l, ∀ b ∈ line i, b ≠ 0 ∧ b ≠ 10)
    (h : ∀ i ∈ l, (r.backends i).Holds ((line i ++ [10]) ++ rest i)) :
    ∃ t, readLines fresh string l r =
        some ((l.getLast?.map fun i => line i ++ [10]).getD string, t) ∧
      (∀ i ∈ l, (t.backends i).Holds (rest i)) ∧ SameBut l r t := by
  induction l generalizing r string with
  | nil => exact ⟨r, rfl, by simp, rfl, rfl, fun _ _ => rfl⟩
  | cons i l ih =>
    obtain ⟨hi, hl⟩ := List.nodup_cons.1 hl
    have hterm : Terminated (terminates true) (line i ++ [10]) := by
      refine ⟨line i, 10, rfl, rfl, fun b hb => ?_⟩
      obtain ⟨h0, h10⟩ := hline i (List.mem_cons_self ..) b hb
      simp [terminates, h0, h10]
    obtain ⟨s, hs, hrest⟩ := (h i (List.mem_cons_self ..)).poolReadString fresh hterm
    have hsame : SameBut [i] r (r.setBackend i s) := sameBut_setBackend s
    have hnext : ∀ j ∈ l, ((r.setBackend i s).backends j).Holds ((line j ++ [10]) ++ rest j) := by
      intro j hj
      rw [hsame.backends_others hi j hj]
      exact h j (List.mem_cons_of_mem _ hj)
    obtain ⟨t, ht, hall, hsame'⟩ := ih (line i ++ [10]) hl (fun j hj => hline j (List.mem_cons_of_mem _ hj)) hnext
    refine ⟨t, ?_, ?_, hsame.trans hsame'⟩
    · simp only [readLines, hs, ht]
      cases l with
      | nil => rfl
      | cons k l => simp [List.getLast?_cons]
    · intro j hj
      rcases List.mem_cons.1 hj with rfl | hj
      · rw [hsame'.backends j hi]
        have hself : (r.setBackend j s).backends j = s := if_pos rfl
        rw [hself]
        exact hrest
      · exact hall j hj

/-- A row of text as a server sends it. -/
def IsRow (line : List UInt8) : Prop := (∀ b ∈ line, b ≠ 0 ∧ b ≠ 10) ∧ line ≠ [92, 46]

/-- The loop of protocol V2 for as many rows of every node. -/
theorem copyOutLoop2_spec {n : Nat} {lines : NodeId → List (List UInt8)}
    (hlen : ∀ i ∈ nodes.valid, (lines i).length = n)
    (hrow : ∀ i ∈ nodes.valid, ∀ line ∈ lines i, IsRow line)
    (h : ∀ i ∈ nodes.valid, (r.backends i).Holds (text (lines i) ++ (endOfCopy ++ rest i)))
    (hfuel : n < fuel) :
    ∃ t a, copyOutLoop2 fresh nodes fuel r = (.continue, t) ∧
      (∀ i ∈ nodes.valid, (t.backends i).Holds (rest i)) ∧ t.actions = r.actions ++ a ∧
      bytesToFrontend a = text (lines nodes.last) ++ endOfCopy ∧ (∀ i, bytesTo i a = []) ∧
      waits a = [] := by
  have hgetLast : nodes.valid.getLast? = some nodes.last := List.getLast?_eq_some_getLast _
  induction n generalizing r lines fuel with
  | zero =>
    have hnil : ∀ i ∈ nodes.valid, lines i = [] := fun i hi => List.length_eq_zero_iff.1 (hlen i hi)
    have hend : ∀ i ∈ nodes.valid, (r.backends i).Holds (([92, 46] ++ [10]) ++ rest i) := by
      intro i hi
      have := h i hi
      rwa [hnil i hi] at this
    have hplain : ∀ i ∈ nodes.valid, ∀ b ∈ ([92, 46] : List UInt8), b ≠ 0 ∧ b ≠ 10 := by
      intro i _
      simp
    obtain ⟨t, ht, hall, hsame⟩ := readLines_spec fresh [] nodes.nodup hplain hend
    cases fuel with
    | zero => cases hfuel
    | succ fuel =>
      change readLines fresh [] nodes.valid r = some ((nodes.valid.getLast?.map _).getD [], t) at ht
      rw [hgetLast] at ht
      refine ⟨t.act [.toFrontend endOfCopy], [.toFrontend endOfCopy], ?_, hall, ?_, ?_,
        fun _ => rfl, rfl⟩
      · simp only [copyOutLoop2, ht]
        rfl
      · change t.actions ++ _ = _
        rw [hsame.actions]
      · rw [hnil nodes.last QueryNodes.last_mem]
        rfl
  | succ n ih =>
    have hcons : ∀ i ∈ nodes.valid, lines i = (lines i).headD [] :: (lines i).tail := by
      intro i hi
      cases hl : lines i with
      | nil =>
        have := hlen i hi
        rw [hl] at this
        cases this
      | cons x xs => rfl
    have hmem : ∀ i ∈ nodes.valid, (lines i).headD [] ∈ lines i := by
      intro i hi
      have : (lines i).headD [] ∈ (lines i).headD [] :: (lines i).tail := List.mem_cons_self ..
      rwa [← hcons i hi] at this
    have hhead : ∀ i ∈ nodes.valid, (r.backends i).Holds (((lines i).headD [] ++ [10]) ++
        (text (lines i).tail ++ (endOfCopy ++ rest i))) := by
      intro i hi
      have hi' := h i hi
      rw [hcons i hi, text_cons, List.append_assoc] at hi'
      exact hi'
    obtain ⟨t, ht, hall, hsame⟩ := readLines_spec fresh [] nodes.nodup
      (fun i hi => (hrow i hi _ (hmem i hi)).1) hhead
    change readLines fresh [] nodes.valid r = some ((nodes.valid.getLast?.map _).getD [], t) at ht
    rw [hgetLast] at ht
    cases fuel with
    | zero => cases hfuel
    | succ fuel =>
      have htail : ∀ i ∈ nodes.valid, ((lines i).tail).length = n := by
        intro i hi
        rw [List.length_tail, hlen i hi]
        rfl
      have hrow' : ∀ i ∈ nodes.valid, ∀ line ∈ (lines i).tail, IsRow line :=
        fun i hi line hl => hrow i hi line (List.mem_of_mem_tail hl)
      have hnext : ∀ i ∈ nodes.valid, ((t.act [.toFrontend ((lines nodes.last).headD [] ++ [10])]).backends i).Holds
          (text (lines i).tail ++ (endOfCopy ++ rest i)) := hall
      obtain ⟨u, a, hu, hall', hact, hbytes, hnone, hwait⟩ := ih htail hrow' hnext
        (Nat.lt_of_succ_lt_succ hfuel)
      refine ⟨u, .toFrontend ((lines nodes.last).headD [] ++ [10]) :: a, ?_, hall', ?_, ?_, ?_, hwait⟩
      · have hnot : (lines nodes.last).headD [] ++ [10] ≠ endOfCopy := by
          intro hend
          have hsame : (lines nodes.last).headD [] ++ [10] = [92, 46] ++ [10] := hend
          exact (hrow _ QueryNodes.last_mem _ (hmem _ QueryNodes.last_mem)).2 (List.append_cancel_right hsame)
        simp only [copyOutLoop2, ht, Option.map_some, Option.getD_some, if_neg hnot]
        exact hu
      · rw [hact]
        change (t.actions ++ _) ++ _ = _
        rw [hsame.actions, List.append_assoc]
        rfl
      · change _ ++ bytesToFrontend a = _
        rw [hbytes, hcons nodes.last QueryNodes.last_mem, text_cons]
        simp
      · exact hnone

/-- **Copy out**: the client has got one node's bytes, once and in order, nothing has been written to
a node, and every node's stream stands right behind its data. -/
structure CopiedOut (nodes : QueryNodes) (r : Relay) (bytes rest : NodeId → List UInt8)
    (result : PoolStatus × Relay) : Prop where
  status : result.1 = .continue
  backends : ∀ i ∈ nodes.valid, (result.2.backends i).Holds (rest i)
  actions : ∃ a, result.2.actions = r.actions ++ a ∧
    (∃ j ∈ nodes.valid, bytesToFrontend a = bytes j) ∧ (∀ i, bytesTo i a = []) ∧ waits a = []

theorem forwarded_spec (messages : List WireMessage) :
    (∀ i, bytesTo i (forwarded messages) = []) ∧ waits (forwarded messages) = [] := by
  induction messages with
  | nil => exact ⟨fun _ => rfl, rfl⟩
  | cons m messages ih => exact ⟨fun i => ih.1 i, ih.2⟩

theorem CopiedOut.of_sameBut {messages : NodeId → List WireMessage}
    (hat : ∀ i ∈ nodes.valid, t.At i (rest i))
    (hmoved : SameBut nodes.valid (r.act (forwarded (messages nodes.master))) t) :
    CopiedOut nodes r (fun i => wire (messages i)) rest (.continue, t) := by
  obtain ⟨hnone, hwaits⟩ := forwarded_spec (messages nodes.master)
  exact ⟨rfl, fun i hi => (hat i hi).holds, _, hmoved.actions,
    ⟨nodes.master, List.mem_cons_self .., bytesToFrontend_forwarded _⟩, hnone, hwaits⟩

variable (fresh nodes) in
/-- `CopyOutResponse` after its kind has been read, as `ProcessBackendResponse` calls it in protocol
V2 only. -/
def readCopyOutResponse (major : Proto) (r : Relay) : PoolStatus × Relay :=
  match r.readKindFromBackend fresh nodes with
  | (.continue, some _, r) => copyOutResponse fresh nodes major r
  | (status, _, r) => (status, r)

theorem readCopyOutResponse3_spec {messages : NodeId → List WireMessage} {header last : WireMessage}
    {front : List WireMessage} (hms : messages nodes.master = header :: (front ++ [last]))
    (hkinds : SameKinds nodes messages) (hheader : header.kind = 72)
    (hdata : ∀ m ∈ front, m.kind = 100) (hlast : last.kind ≠ 100)
    (h : ∀ i ∈ nodes.valid, r.At i (wire (messages i) ++ rest i)) :
    CopiedOut nodes r (fun i => wire (messages i)) rest (readCopyOutResponse fresh nodes .v3 r) := by
  obtain ⟨first, tail, hcons, hfirst, htail, hsame⟩ := hkinds.cons hms
  have hread : ∀ i ∈ nodes.valid,
      r.At i (wire [] ++ 72 :: ((first i).body ++ (wire (tail i) ++ rest i))) := by
    intro i hi
    have hi' := h i hi
    rw [(hcons i hi).1, wire_cons, WireMessage.bytes, (hcons i hi).2, hheader] at hi'
    simpa using hi'
  obtain ⟨t, ht, hat, hmoved⟩ := readKindFromBackend_of_at fresh nodes (fun _ => [])
    (fun _ _ _ hp => absurd hp List.not_mem_nil) (by decide) hread
  obtain ⟨u, hu, hat', hmoved'⟩ := simpleForwardToFrontend_of_at fresh nodes 72 hat
  have hfuel : front.length < (u.backends nodes.master).ahead.length + 1 := by
    have hwire := length_le_wire (tail nodes.master)
    rw [(hat' nodes.master (List.mem_cons_self ..)).holds.ahead, List.length_append]
    rw [htail, List.length_append] at hwire
    rw [htail]
    omega
  obtain ⟨v, hv, hat'', hmoved''⟩ := copyOutLoop3_spec htail hsame hdata hlast hat' hfuel
  have hcall : readCopyOutResponse fresh nodes .v3 r = (.continue, v) := by
    have hnot : ((72 : UInt8) == 69) = false := rfl
    unfold readCopyOutResponse copyOutResponse copyResponse
    simp only [ht, hu, hnot, Bool.false_and, Bool.false_eq_true, if_false]
    exact hv
  rw [hcall]
  refine .of_sameBut hat'' ?_
  have hthrough := (hmoved.next hmoved').next hmoved''
  have hbytes : (72 : UInt8) :: header.body = header.bytes := by
    rw [WireMessage.bytes, hheader]
  rw [hfirst, hbytes] at hthrough
  rw [hms]
  exact hthrough

end

end Relay

/-! ## Both directions and protocols -/

open Relay

/-- What is copied: by the client, up to the message or the line that ends the data, or by each
node.  In protocol V3 the nodes' messages start with CopyOutResponse. -/
inductive Copy where
  | fromStdin3 (messages : List WireMessage) (last : WireMessage)
  | fromStdin2 (lines : List (List UInt8))
  | toStdout3 (messages : NodeId → List WireMessage)
  | toStdout2 (lines : NodeId → List (List UInt8))

namespace Copy

variable (fresh : Nat → UInt8) (nodes : QueryNodes) (r : Relay) (rest : List UInt8)
  (restOf : NodeId → List UInt8)

/-- What the protocols allow: CopyData, Flush and Sync up to CopyDone or CopyFail; lines that are not
the last one; the same messages, or as many rows, of every node. -/
def Legal : Copy → Prop
  | fromStdin3 messages last =>
      (∀ m ∈ messages, m.kind = 100 ∨ m.kind = 72 ∨ m.kind = 83) ∧ (last.kind = 99 ∨ last.kind = 102)
  | fromStdin2 lines => ∀ line ∈ lines, (∀ b ∈ line, b ≠ 10) ∧ line ≠ [92, 46]
  | toStdout3 messages =>
      SameKinds nodes messages ∧ ∃ header front last, messages nodes.master = header :: (front ++ [last]) ∧
        header.kind = 72 ∧ (∀ m ∈ front, m.kind = 100) ∧ last.kind = 99
  | toStdout2 lines =>
      ∀ i ∈ nodes.valid, (lines i).length = (lines nodes.master).length ∧ ∀ line ∈ lines i, IsRow line

/-- The messages or lines are there.  In protocol V2 the kind of CopyOutResponse has been read. -/
def Arrives : Copy → Prop
  | fromStdin3 messages last => r.frontend.Holds (wire messages ++ (last.bytes ++ rest))
  | fromStdin2 lines => r.frontend.Holds (text lines ++ (endOfCopy ++ rest))
  | toStdout3 messages => ∀ i ∈ nodes.valid, r.At i (wire (messages i) ++ restOf i)
  | toStdout2 lines =>
      ∀ i ∈ nodes.valid, (r.backends i).Holds (text (lines i) ++ (endOfCopy ++ restOf i))

/-- The data is relayed, to the client in protocol V3 by `ProcessBackendResponse` message for message;
`CopyOutResponse` would do so too. -/
def Relayed : Copy → Prop
  | fromStdin3 messages last =>
      CopiedIn nodes r (wire messages ++ last.bytes) rest (copyDataRows fresh nodes .v3 true r)
  | fromStdin2 lines =>
      CopiedIn nodes r (text lines ++ endOfCopy) rest (copyDataRows fresh nodes .v2 true r)
  | toStdout3 messages =>
      CopiedOut nodes r (fun i => wire (messages i)) restOf
        (processOthers fresh nodes (messages nodes.master).length r) ∧
      CopiedOut nodes r (fun i => wire (messages i)) restOf (readCopyOutResponse fresh nodes .v3 r)
  | toStdout2 lines =>
      CopiedOut nodes r (fun i => 72 :: (text (lines i) ++ endOfCopy)) restOf
        (copyOutResponse fresh nodes .v2 r)

/-- Nothing but data stands in the data: in protocol V3 no Flush or Sync, in protocol V2 no null
character behind which a line looks like the last one. -/
def Plain : Copy → Prop
  | fromStdin3 messages _ => ∀ m ∈ messages, m.kind = 100
  | fromStdin2 lines => ∀ line ∈ lines, endsLikeData line = false
  | toStdout3 _ | toStdout2 _ => True

variable {fresh nodes r rest restOf} {copy : Copy}

/-- **COPY is relayed** exactly if nothing else stands in what the client sends. -/
theorem relayed_iff (hlegal : copy.Legal nodes) (harrives : copy.Arrives nodes r rest restOf) :
    copy.Relayed fresh nodes r rest restOf ↔ copy.Plain := by
  cases copy with
  | fromStdin3 messages last =>
    have hlast : last.kind ≠ 100 := by
      obtain h | h := hlegal.2
      · rw [h]
        decide
      · rw [h]
        decide
    exact copiedIn3_iff hlast harrives
  | fromStdin2 lines => exact copiedIn2_iff (fun line hl => (hlegal line hl).1) harrives
  | toStdout3 messages =>
    refine ⟨fun _ => trivial, fun _ => ?_⟩
    obtain ⟨hkinds, header, front, last, hms, hheader, hdata, hlast⟩ := hlegal
    have hother : ∀ m ∈ messages nodes.master, m.kind ≠ 83 ∧ m.kind ≠ 69 := by
      rw [hms]
      intro m hm
      rcases List.mem_cons.1 hm with rfl | hm
      · rw [hheader]
        decide
      · rcases List.mem_append.1 hm with hm | hm
        · rw [hdata m hm]
          decide
        · rw [List.mem_singleton.1 hm, hlast]
          decide
    obtain ⟨t, ht, hat, hmoved⟩ := processOthers_spec rfl hkinds hother harrives
    have hout : CopiedOut nodes r (fun i => wire (messages i)) restOf (.continue, t) :=
      .of_sameBut hat hmoved
    rw [← ht] at hout
    have hdone : last.kind ≠ 100 := by
      rw [hlast]
      decide
    exact ⟨hout, readCopyOutResponse3_spec hms hkinds hheader hdata hdone harrives⟩
  | toStdout2 lines =>
    refine ⟨fun _ => trivial, fun _ => ?_⟩
    have hmaster : nodes.master ∈ nodes.valid := List.mem_cons_self ..
    have hfuel : (lines nodes.master).length < (r.backends nodes.master).ahead.length + 1 := by
      have hle : (lines nodes.master).length ≤ (text (lines nodes.master)).length := by
        generalize lines nodes.master = l
        induction l with
        | nil => exact Nat.zero_le _
        | cons line l ih =>
          rw [text_cons, List.length_append, List.length_append, List.length_cons,
            List.length_singleton]
          omega
      rw [(harrives nodes.master hmaster).ahead, List.length_append]
      omega
    obtain ⟨t, a, ht, hall, hact, hbytes, hnone, hwait⟩ :=
      copyOutLoop2_spec (r := r.act [.toFrontend [72]]) (fun i hi => (hlegal i hi).1)
        (fun i hi => (hlegal i hi).2) harrives hfuel
    change CopiedOut nodes r _ restOf (copyOutLoop2 fresh nodes _ (r.act [.toFrontend [72]]))
    have hout : CopiedOut nodes r (fun i => 72 :: (text (lines i) ++ endOfCopy)) restOf
        (.continue, t) := by
      refine ⟨rfl, hall, .toFrontend [72] :: a, ?_, ⟨nodes.last, QueryNodes.last_mem, ?_⟩, hnone, hwait⟩
      · rw [hact]
        exact List.append_assoc _ _ _
      · change [72] ++ bytesToFrontend a = _
        rw [hbytes]
        rfl
    rwa [← ht] at hout

theorem fits_nil : ([] : List UInt8).length + 4 < 2 ^ 31 := by decide

/-- Some rows, the second one empty, and messages without contents. -/
def row : WireMessage := ⟨100, [49, 10], by decide⟩
def emptyRow : WireMessage := ⟨100, [], fits_nil⟩
def flush : WireMessage := ⟨72, [], fits_nil⟩
def copyDone : WireMessage := ⟨99, [], fits_nil⟩

theorem nodup_twoNodes : ([0, 1] : List NodeId).Nodup := by decide

def twoNodes : QueryNodes := ⟨0, [1], nodup_twoNodes⟩

/-- A client that sends some bytes, four at a time, followed by a Sync. -/
def client (bytes : List UInt8) : Relay where
  frontend := ⟨.opened fun _ => 0, ⟨bytes ++ [83, 0, 0, 0, 4], List.replicate 99 3⟩⟩
  backends := fun _ => ⟨.opened fun _ => 0, ⟨[], []⟩⟩
  actions := []

/-- Rows only. -/
theorem rows_relayed :
    (fromStdin3 [row, emptyRow, row] copyDone).Relayed (fun _ => 0) twoNodes
      (client (wire [row, emptyRow, row] ++ copyDone.bytes)) [83, 0, 0, 0, 4] fun _ => [] := by
  have hlegal : (fromStdin3 [row, emptyRow, row] copyDone).Legal twoNodes := by
    unfold Legal
    decide
  have harrives : (fromStdin3 [row, emptyRow, row] copyDone).Arrives twoNodes
      (client (wire [row, emptyRow, row] ++ copyDone.bytes)) [83, 0, 0, 0, 4] fun _ => [] := by
    refine ⟨by decide +kernel, ?_⟩
    unfold Socket.Delivers
    decide +kernel
  refine (relayed_iff hlegal harrives).2 ?_
  unfold Plain
  decide

/-- A Flush among the rows. -/
theorem flushed_not_relayed :
    (fromStdin3 [row, flush, row] copyDone).Legal twoNodes ∧
      (fromStdin3 [row, flush, row] copyDone).Arrives twoNodes
        (client (wire [row, flush, row] ++ copyDone.bytes)) [83, 0, 0, 0, 4] (fun _ => []) ∧
      ¬ (fromStdin3 [row, flush, row] copyDone).Relayed (fun _ => 0) twoNodes
        (client (wire [row, flush, row] ++ copyDone.bytes)) [83, 0, 0, 0, 4] fun _ => [] := by
  have harrives : (client (wire [row, flush, row] ++ copyDone.bytes)).frontend.Holds
      (wire [row, flush, row] ++ (copyDone.bytes ++ [83, 0, 0, 0, 4])) := by
    refine ⟨by decide +kernel, ?_⟩
    unfold Socket.Delivers
    decide +kernel
  refine ⟨?_, harrives, fun hrelayed => ?_⟩
  · unfold Legal
    decide
  · have hdata := (copiedIn3_iff (by decide) harrives).1 hrelayed
    exact absurd hdata (by decide)

end Copy

end PgPool
