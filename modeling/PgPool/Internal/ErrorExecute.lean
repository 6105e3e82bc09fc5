import PgPool.Lib.Stride
import PgPool.Relay.Respond
import PgPool.Stream.Backend

/-!
# Provoking an error in the extended protocol

`do_error_execute_command`: a portal that does not exist is executed on a node to abort its transaction.
The messages in front of the error are gathered in a buffer and put back on the connection.
-/

namespace PgPool.Internal

/-! ## The source -/

section

variable (fresh fresh' : Nat → UInt8) (major : Proto)

/-- The loop; `none`: the session ends.  The write position moves by the size of a length word where the
contents are copied.  The memory that `pool_unread` gets is `fresh'`. -/
def executeErrorLoop : Nat → Buffer → Nat → Nat → Stream → Option Stream
  | 0, _, _, _, _ => none
  | fuel + 1, buf, p, readlen, s =>
    match s.readKind fresh with
    | none => none
    | some (kind, s) =>
      match s.readBody fresh major with
      | none => none
      | some (word, string, s) =>
        if kind = 69 then
          if readlen = 0 then some s else some (s.poolUnread fresh' (buf.read 0 readlen))
        else
          let buf := (buf.write p [kind]).write (p + 1) word
          let p := p + 1 + word.length
          let readlen := readlen + 1 + word.length + string.length
          if 8192 ≤ readlen then none
          else executeErrorLoop fuel (buf.write p string) (p + 4) readlen s

/-- `do_error_execute_command` after the Execute message has been sent.  The buffer of 8192 bytes is not
initialised, and has what is on the stack. -/
def doErrorExecuteCommand (stack : Nat → UInt8) (s : Stream) : Option Stream :=
  executeErrorLoop fresh fresh' major (s.ahead.length + 1) ⟨8192, stack⟩ 0 0 s

/-- The connection after some messages have been read. -/
def afterMessages : Nat → Stream → Option Stream
  | 0, s => some s
  | n + 1, s =>
    match s.readKind fresh with
    | none => none
    | some (_, s) =>
      match s.readBody fresh major with
      | none => none
      | some (_, _, s) => afterMessages n s

end

/-! ## The relay -/

theorem htonl_ntohl {word : List UInt8} (h : word.length = 4) : htonl (ntohl word) = word := by
  obtain ⟨a, b, c, d, rfl⟩ : ∃ a b c d, word = [a, b, c, d] := by
    match word, h with
    | [a, b, c, d], _ => exact ⟨a, b, c, d, rfl⟩
  have hbytes : ∀ (x : UInt8) (n : Nat), n % 256 = x.toNat → UInt8.ofNat n = x := by
    intro x n hn
    exact UInt8.toNat_inj.mp ((UInt8.toNat_ofNat' ..).trans hn)
  have := a.toNat_lt
  have := b.toNat_lt
  have := c.toNat_lt
  have := d.toNat_lt
  simp only [ntohl, htonl, List.foldl_cons, List.foldl_nil]
  rw [hbytes a _ (by omega), hbytes b _ (by omega), hbytes c _ (by omega), hbytes d _ (by omega)]

theorem relay_readKind (fresh : Nat → UInt8) (i : NodeId) (r : Relay) :
    r.readKind fresh i = ((r.backends i).readKind fresh).map fun q => (q.1, r.setBackend i q.2) := by
  unfold Relay.readKind Stream.readKind
  cases (r.backends i).poolRead fresh 1 with
  | none => rfl
  | some read =>
    match read with
    | ([], _) => rfl
    | ([_], _) => rfl
    | (_ :: _ :: _, _) => rfl

theorem relay_readContents (fresh : Nat → UInt8) (i : NodeId) (r : Relay) :
    r.readContents fresh i =
      ((r.backends i).readBody fresh .v3).map fun q => (q.2.1, r.setBackend i q.2.2) := by
  unfold Relay.readContents Stream.readBody
  cases (r.backends i).poolRead fresh 4 with
  | none => rfl
  | some q =>
    obtain ⟨word, s⟩ := q
    simp only
    cases contentsSize word with
    | none => rfl
    | some len =>
      simp only
      cases s.poolRead2 len with
      | none => rfl
      | some q =>
        obtain ⟨contents, t⟩ := q
        by_cases hbuf : t.cp.bufsz2 = 0
        · simp only [if_pos hbuf, Option.map_none]
        · simp only [if_neg hbuf, Option.map_some]

/-- The length word is that of the contents. -/
theorem word_of_readBody {fresh : Nat → UInt8} {s t : Stream} {word contents : List UInt8}
    (h : s.readBody fresh .v3 = some (word, contents, t)) : word = htonl (contents.length + 4) := by
  unfold Stream.readBody at h
  simp only at h
  split at h
  · cases h
  · rename_i word' s' hword
    split at h
    · cases h
    · rename_i len hlen
      split at h
      · cases h
      · rename_i contents' s'' hcontents
        split at h
        · cases h
        · simp only [Option.some.injEq, Prod.mk.injEq] at h
          obtain ⟨rfl, rfl, -⟩ := h
          obtain ⟨-, hfour⟩ := Stream.poolRead_spec hword
          obtain ⟨-, hsize⟩ := Stream.poolRead2_spec hcontents
          unfold contentsSize at hlen
          split at hlen
          · rename_i hbound
            have heq : ntohl word' = contents'.length + 4 := by
              have := Option.some.inj hlen
              omega
            rw [← heq, htonl_ntohl hfour]
          · cases hlen

/-- The loop is the one of a relay, in protocol V3. -/
theorem relay_executeErrorLoop (fresh : Nat → UInt8) (i : NodeId) (fuel : Nat) (buf : Buffer)
    (p readlen : Nat) (r : Relay) :
    match executeErrorLoop fresh fresh .v3 fuel buf p readlen (r.backends i) with
    | some s => ∃ t, Relay.executeErrorLoop fresh i fuel buf p readlen r = (.continue, t) ∧
        t.backends i = s
    | none => (Relay.executeErrorLoop fresh i fuel buf p readlen r).1 = .stop := by
  induction fuel generalizing buf p readlen r with
  | zero => rfl
  | succ fuel ih =>
    unfold executeErrorLoop Relay.executeErrorLoop
    rw [relay_readKind]
    cases hkind : (r.backends i).readKind fresh with
    | none => rfl
    | some q =>
      obtain ⟨kind, s⟩ := q
      have hself : (r.setBackend i s).backends i = s := if_pos rfl
      simp only [Option.map_some]
      rw [relay_readContents, hself]
      cases hbody : s.readBody fresh .v3 with
      | none => rfl
      | some q =>
        obtain ⟨word, contents, t⟩ := q
        have hword := word_of_readBody hbody
        have hfour : word.length = 4 := by
          rw [hword]
          rfl
        have hself' : ((r.setBackend i s).setBackend i t).backends i = t := if_pos rfl
        simp only [Option.map_some]
        by_cases herror : kind = 69
        · simp only [if_pos herror, hself']
          by_cases hnone : readlen = 0
          · simp only [if_pos hnone]
            exact ⟨_, rfl, hself'⟩
          · simp only [if_neg hnone]
            exact ⟨_, rfl, if_pos rfl⟩
        · simp only [if_neg herror]
          have hlen : readlen + 1 + word.length + contents.length = readlen + 5 + contents.length := by
            omega
          have hp : p + 1 + word.length = p + 5 := by omega
          rw [hlen]
          by_cases hfull : 8192 ≤ readlen + 5 + contents.length
          · simp only [if_pos hfull]
          · simp only [if_neg hfull, hp, ← hword]
            have hnext := ih (((buf.write p [kind]).write (p + 1) word).write (p + 5) contents) (p + 9)
              (readlen + 5 + contents.length) ((r.setBackend i s).setBackend i t)
            rw [hself'] at hnext
            exact hnext

/-! ## What is claimed -/

/-- The error is taken, and the other messages are there again, whatever memory the call gets. -/
def Swallows (fresh : Nat → UInt8) (major : Proto) (s : Stream) (before : List (BackendMessage major))
    (rest : List UInt8) : Prop :=
  ∀ fresh' stack, ∃ t, doErrorExecuteCommand fresh fresh' major stack s = some t ∧
    t.ahead = before.flatMap BackendMessage.bytes ++ rest

/-! ## The condition -/

/-- The messages in front of the error are shorter than the buffer, all of them but the last have four
bytes of contents, and putting them back cuts off no pending bytes. -/
structure Swallowable (fresh : Nat → UInt8) (major : Proto) (s : Stream)
    (before : List (BackendMessage major)) : Prop where
  fits : (before.flatMap BackendMessage.bytes).length < 8192
  contents : ∀ m ∈ before.dropLast, m.contents.length = 4
  keeps : before ≠ [] → ∀ t, afterMessages fresh major (before.length + 1) s = some t →
    t.cp.KeepsPending (before.flatMap BackendMessage.bytes).length

/-! ## The loop -/

variable {fresh fresh' : Nat → UInt8} {major : Proto} {s t : Stream}
  {before : List (BackendMessage major)} {error : BackendMessage major} {rest : List UInt8}

/-- By how much the write position moves. -/
def stride (major : Proto) : Nat := if major = .v3 then 9 else 5

theorem length_head (m : BackendMessage major) : 1 + m.word.length + 4 = stride major := by
  rw [m.length_word]
  unfold stride
  split <;> rfl

/-- A message is written in pieces. -/
theorem write_message (m : BackendMessage major) (buf : Buffer) (p : Nat) :
    ((buf.write p [m.kind]).write (p + 1) m.word).write (p + 1 + m.word.length) m.contents =
      buf.write p m.bytes := by
  have hkind : [m.kind].length = 1 := rfl
  have hhead : (m.kind :: m.word).length = 1 + m.word.length := by
    rw [List.length_cons]
    omega
  have hfirst : (buf.write p [m.kind]).write (p + 1) m.word = buf.write p (m.kind :: m.word) := by
    rw [← hkind, Buffer.write_append]
    rfl
  rw [hfirst, Nat.add_assoc, ← hhead, Buffer.write_append]
  rfl

variable (fresh) in
/-- The loop reads up to the error, and writes what is in front of it at the stride of the protocol. -/
theorem executeErrorLoop_eq (hkinds : ∀ m ∈ before, m.kind ≠ 69) (herror : error.kind = 69)
    (h : s.Sends major (before.flatMap BackendMessage.bytes ++ (error.bytes ++ rest))) :
    ∃ t, afterMessages fresh major (before.length + 1) s = some t ∧ t.Sends major rest ∧
      ∀ (fresh' : Nat → UInt8) (fuel : Nat) (buf : Buffer) (p readlen : Nat), before.length < fuel →
        readlen < 8192 →
        executeErrorLoop fresh fresh' major fuel buf p readlen s =
          if 8192 ≤ readlen + (before.flatMap BackendMessage.bytes).length then none
          else if readlen + (before.flatMap BackendMessage.bytes).length = 0 then some t
          else some (t.poolUnread fresh'
            ((buf.writeEvery (stride major) (before.map BackendMessage.bytes) p).read 0
              (readlen + (before.flatMap BackendMessage.bytes).length))) := by
  induction before generalizing s with
  | nil =>
    obtain ⟨a, ha, hsends⟩ := h.readKind fresh
    obtain ⟨t, ht, hrest⟩ := hsends.readBody fresh
    refine ⟨t, ?_, hrest, ?_⟩
    · simp only [List.length_nil, afterMessages, ha, ht]
    · intro fresh' fuel buf p readlen hfuel hlen
      obtain ⟨fuel, rfl⟩ := Nat.exists_eq_add_of_lt hfuel
      have hfew : ¬ 8192 ≤ readlen := by omega
      simp only [List.flatMap_nil, List.length_nil, Nat.zero_add, Nat.add_zero, executeErrorLoop, ha, ht,
        herror, if_true, if_neg hfew]
      rfl
  | cons m before ih =>
    rw [List.flatMap_cons, List.append_assoc] at h
    obtain ⟨a, ha, hsends⟩ := h.readKind fresh
    obtain ⟨b, hb, hrest⟩ := hsends.readBody fresh
    obtain ⟨t, ht, hend, hloop⟩ := ih (fun m hm => hkinds m (List.mem_cons_of_mem _ hm)) hrest
    refine ⟨t, ?_, hend, ?_⟩
    · simp only [List.length_cons, afterMessages, ha, hb]
      exact ht
    · intro fresh' fuel buf p readlen hfuel hlen
      obtain ⟨fuel, rfl⟩ := Nat.exists_eq_add_of_lt hfuel
      have hother := hkinds m List.mem_cons_self
      have hbytes := m.length_bytes
      have htotal : readlen + ((m :: before).flatMap BackendMessage.bytes).length =
          readlen + 1 + m.word.length + m.contents.length +
            (before.flatMap BackendMessage.bytes).length := by
        rw [List.flatMap_cons, List.length_append]
        omega
      rw [htotal]
      simp only [executeErrorLoop, ha, hb, if_neg hother]
      by_cases hfull : 8192 ≤ readlen + 1 + m.word.length + m.contents.length
      · rw [if_pos hfull, if_pos (by omega)]
      · have hmore : before.length < (m :: before).length + fuel := by
          rw [List.length_cons]
          omega
        have hnext : p + 1 + m.word.length + 4 = p + stride major := by
          rw [← length_head m]
          omega
        rw [if_neg hfull, write_message, hnext, hloop fresh' _ _ _ _ hmore (by omega)]
        rfl

/-! ## Putting back -/

theorem pending_poolUnread_eq (fresh' : Nat → UInt8) (cp : PoolConnection) (data : List UInt8) :
    ∃ more, (cp.poolUnread fresh' data).pending = data ++ more ∧ more.length = cp.len := by
  unfold PoolConnection.poolUnread
  split
  · exact ⟨_, PoolConnection.read_front, Buffer.length_read⟩
  · exact ⟨_, PoolConnection.read_front, Buffer.length_read⟩

/-- What is put back is there again whatever is in the new memory just if it is right, and no pending
bytes are cut off. -/
theorem ahead_poolUnread_iff {front : List UInt8} {data : (Nat → UInt8) → List UInt8}
    (hlen : ∀ stack, (data stack).length = front.length) :
    (∀ fresh' stack, (t.poolUnread fresh' (data stack)).ahead = front ++ t.ahead) ↔
      (∀ stack, data stack = front) ∧ t.cp.KeepsPending front.length := by
  constructor
  · intro h
    have hboth : ∀ fresh' stack, data stack = front ∧
        (t.cp.poolUnread fresh' (data stack)).pending = front ++ t.cp.pending := by
      intro fresh' stack
      have hsame : (t.cp.poolUnread fresh' (data stack)).pending ++ t.sock.bytes =
          front ++ (t.cp.pending ++ t.sock.bytes) := h fresh' stack
      rw [← List.append_assoc] at hsame
      have hpending := List.append_cancel_right hsame
      obtain ⟨more, hmore, -⟩ := pending_poolUnread_eq fresh' t.cp (data stack)
      have hcopy := hpending
      rw [hmore] at hcopy
      exact ⟨(List.append_inj hcopy (hlen stack)).1, hpending⟩
    refine ⟨fun stack => (hboth (fun _ => 0) stack).1, ?_⟩
    by_contra hcut
    obtain ⟨hdata, -⟩ := hboth (fun _ => 0) fun _ => 0
    obtain ⟨fresh', hlost⟩ := PoolConnection.pending_poolUnread_ne hcut
    refine hlost ?_
    have hright := (hboth fresh' fun _ => 0).2
    rwa [hdata] at hright
  · intro ⟨hdata, hkeeps⟩ fresh' stack
    rw [hdata stack]
    exact Stream.ahead_poolUnread hkeeps

theorem length_le_flatMap (messages : List (BackendMessage major)) :
    messages.length ≤ (messages.flatMap BackendMessage.bytes).length := by
  induction messages with
  | nil => exact Nat.le_refl _
  | cons m messages ih =>
    have := m.length_bytes
    rw [List.flatMap_cons, List.length_append, List.length_cons]
    omega

theorem lengths_stride_iff (messages : List (BackendMessage major)) :
    (∀ piece ∈ (messages.map BackendMessage.bytes).dropLast, piece.length = stride major) ↔
      ∀ m ∈ messages.dropLast, m.contents.length = 4 := by
  rw [← List.map_dropLast]
  simp only [List.forall_mem_map]
  refine forall₂_congr fun m _ => ?_
  have := m.length_bytes
  have := length_head m
  omega

variable (fresh) in
/-- The call, from the connection as it is once the error has been read. -/
theorem doErrorExecuteCommand_eq (hkinds : ∀ m ∈ before, m.kind ≠ 69) (herror : error.kind = 69)
    (h : s.Sends major (before.flatMap BackendMessage.bytes ++ (error.bytes ++ rest))) :
    ∃ t, afterMessages fresh major (before.length + 1) s = some t ∧ t.ahead = rest ∧
      ∀ fresh' stack, doErrorExecuteCommand fresh fresh' major stack s =
        if 8192 ≤ (before.flatMap BackendMessage.bytes).length then none
        else if (before.flatMap BackendMessage.bytes).length = 0 then some t
        else some (t.poolUnread fresh' (((⟨8192, stack⟩ : Buffer).writeEvery (stride major)
          (before.map BackendMessage.bytes) 0).read 0 (before.flatMap BackendMessage.bytes).length)) := by
  obtain ⟨t, hafter, hrest, hloop⟩ := executeErrorLoop_eq fresh hkinds herror h
  refine ⟨t, hafter, hrest.holds.ahead, fun fresh' stack => ?_⟩
  have hfuel : before.length < s.ahead.length + 1 := by
    have := length_le_flatMap before
    rw [h.holds.ahead, List.length_append]
    omega
  have hresult := hloop fresh' _ ⟨8192, stack⟩ 0 0 hfuel (by decide)
  rwa [Nat.zero_add] at hresult

/-- `do_error_execute_command` puts back exactly the other messages that it has read, precisely if they
are shorter than its buffer, all but the last of them have four bytes of contents, and putting them back
cuts off no pending bytes. -/
theorem swallows_iff (hkinds : ∀ m ∈ before, m.kind ≠ 69) (herror : error.kind = 69)
    (h : s.Sends major (before.flatMap BackendMessage.bytes ++ (error.bytes ++ rest))) :
    Swallows fresh major s before rest ↔ Swallowable fresh major s before := by
  obtain ⟨t, hafter, hahead, hcall⟩ := doErrorExecuteCommand_eq fresh hkinds herror h
  by_cases hnone : before = []
  · -- there is nothing but the error
    subst hnone
    refine iff_of_true (fun fresh' stack => ⟨t, hcall fresh' stack, hahead⟩)
      ⟨Nat.zero_lt_succ _, by simp, fun hne => absurd rfl hne⟩
  · have hne : (before.flatMap BackendMessage.bytes).length ≠ 0 := by
      have := length_le_flatMap before
      have := List.length_pos_iff.mpr hnone
      omega
    by_cases hfull : 8192 ≤ (before.flatMap BackendMessage.bytes).length
    · refine iff_of_false ?_ (fun hfits => Nat.not_lt.mpr hfull hfits.fits)
      intro hswallows
      obtain ⟨u, hu, -⟩ := hswallows (fun _ => 0) fun _ => 0
      rw [hcall, if_pos hfull] at hu
      cases hu
    · have hputs : Swallows fresh major s before rest ↔
          ∀ fresh' stack, (t.poolUnread fresh' (((⟨8192, stack⟩ : Buffer).writeEvery (stride major)
            (before.map BackendMessage.bytes) 0).read 0
              (before.flatMap BackendMessage.bytes).length)).ahead =
            before.flatMap BackendMessage.bytes ++ t.ahead := by
        refine forall₂_congr fun fresh' stack => ?_
        rw [hcall, if_neg hfull, if_neg hne, hahead]
        simp
      have hpieces : ∀ piece ∈ before.map BackendMessage.bytes, piece ≠ [] := by
        intro piece hp
        obtain ⟨m, -, rfl⟩ := List.mem_map.mp hp
        exact List.cons_ne_nil _ _
      have hflat : before.flatMap BackendMessage.bytes = (before.map BackendMessage.bytes).flatten :=
        List.flatMap_def
      rw [hputs, ahead_poolUnread_iff fun stack => Buffer.length_read, hflat,
        Buffer.read_writeEvery_iff hpieces, lengths_stride_iff, ← hflat]
      constructor
      · intro ⟨hcontents, hkeeps⟩
        refine ⟨Nat.lt_of_not_le hfull, hcontents, fun _ u hu => ?_⟩
        obtain rfl := Option.some.inj (hafter.symm.trans hu)
        exact hkeeps
      · intro hswallowable
        exact ⟨hswallowable.contents, hswallowable.keeps hnone t hafter⟩

def closeComplete : BackendMessage .v3 := ⟨51, [], by decide⟩

def readyForQuery : BackendMessage .v3 := ⟨90, [73], by decide⟩

def errorResponse : BackendMessage .v3 := ⟨69, [0], by decide⟩

/-- A connection of protocol V3 on which some messages and the error arrive. -/
def arriving (before : List (BackendMessage .v3)) : Stream where
  cp := { PoolConnection.opened fun _ => 0 with bufsz2 := readBufSz }
  sock :=
    { bytes := before.flatMap BackendMessage.bytes ++ (errorResponse.bytes ++ [])
      splits := List.replicate
        (before.flatMap BackendMessage.bytes ++ (errorResponse.bytes ++ [])).length 0 }

theorem sends_arriving (before : List (BackendMessage .v3)) :
    (arriving before).Sends .v3 (before.flatMap BackendMessage.bytes ++ (errorResponse.bytes ++ [])) where
  holds := ⟨rfl, Nat.le_of_eq List.length_replicate.symm⟩
  buffer _ := Nat.zero_lt_succ _

/-- A single message is put back. -/
theorem swallows_readyForQuery :
    Swallows (fun _ => 0) .v3 (arriving [readyForQuery]) [readyForQuery] [] := by
  have hkeeps : (afterMessages (fun _ => 0) .v3 2 (arriving [readyForQuery])).all
      (fun t => decide (t.cp.KeepsPending 6)) = true := by
    decide +kernel
  refine (swallows_iff (by decide) (rfl : errorResponse.kind = 69) (sends_arriving _)).mpr
    ⟨by decide, by decide, fun _ t ht => ?_⟩
  change afterMessages (fun _ => 0) .v3 2 _ = some t at ht
  rw [ht] at hkeeps
  exact of_decide_eq_true hkeeps

/-- The length of the first of two messages is not that by which the position moves. -/
theorem not_swallows_closeComplete :
    ¬ ∀ (fresh : Nat → UInt8) (major : Proto) (s : Stream) (before : List (BackendMessage major))
        (error : BackendMessage major) (rest : List UInt8), (∀ m ∈ before, m.kind ≠ 69) →
      error.kind = 69 →
      s.Sends major (before.flatMap BackendMessage.bytes ++ (error.bytes ++ rest)) →
      Swallows fresh major s before rest := by
  intro h
  obtain ⟨t, ht, hahead⟩ := h (fun _ => 0) .v3 _ [closeComplete, readyForQuery] errorResponse []
    (by decide) rfl (sends_arriving _) (fun _ => 0) fun _ => 0
  have hwrong : (doErrorExecuteCommand (fun _ => 0) (fun _ => 0) .v3 (fun _ => 0)
      (arriving [closeComplete, readyForQuery])).any (fun t => t.ahead ==
        [closeComplete, readyForQuery].flatMap BackendMessage.bytes ++ []) = false := by
    decide +kernel
  rw [ht, Option.any_some, hahead] at hwrong
  simp at hwrong

end PgPool.Internal
