import PgPool.Lib.Buffer

/-!
# Writing to a connection

The writers of `pool_stream.c`.  Bytes are collected in `wbuf[0 .. wbufpo)`, and go to the socket when the
buffer is full or flushed.  How the kernel splits a flush into writes belongs to the state.
-/

namespace PgPool

/-- `WRITEBUFSZ`. -/
def writeBufSz : Nat := 8192

/-- What `write` returns: the number of bytes written, less one; that it has to be tried again, by
`EAGAIN` or `EINTR`; or an error. -/
inductive WriteResult where
  | wrote (k : Nat)
  | again
  | failed
  deriving DecidableEq, Repr

/-- The part of `POOL_CONNECTION` that the writers use. -/
structure WriteBuffer where
  wbuf : Buffer
  wbufpo : Nat
  noForward : Bool
  isbackend : Bool
  size : wbuf.size = writeBufSz
  inside : wbufpo ≤ writeBufSz

/-- A connection, what its socket has taken, and what its socket will answer. -/
structure Output where
  cp : WriteBuffer
  sent : List UInt8
  results : List WriteResult

/-- A call that returns 0 or -1, or by which the child exits. -/
inductive WriteStatus where
  | done
  | error
  | childExit
  deriving DecidableEq, Repr

namespace WriteBuffer

variable (cp : WriteBuffer)

/-- `pool_open`. -/
def opened (wbuf : Nat → UInt8) (isbackend : Bool) : WriteBuffer where
  wbuf := ⟨writeBufSz, wbuf⟩
  wbufpo := 0
  noForward := false
  isbackend := isbackend
  size := rfl
  inside := Nat.zero_le _

/-- The bytes that are waiting. -/
def buffered : List UInt8 := cp.wbuf.read 0 cp.wbufpo

def clear : WriteBuffer := { cp with wbufpo := 0, inside := Nat.zero_le _ }

/-- As many bytes as the buffer has room for. -/
def remainder (data : List UInt8) : Nat := min (writeBufSz - cp.wbufpo) data.length

/-- `memcpy` of these. -/
def fill (data : List UInt8) : WriteBuffer :=
  { cp with
    wbuf := cp.wbuf.write cp.wbufpo (data.take (cp.remainder data))
    wbufpo := cp.wbufpo + cp.remainder data
    size := cp.size
    inside := by
      have := cp.inside
      unfold remainder
      omega }

end WriteBuffer

/-! ## The writers -/

/-- The loop of `pool_flush_it`: `wlen` bytes from `offset` on are still to be written. -/
def flushLoop (wbuf : Buffer) :
    List WriteResult → Nat → Nat → List UInt8 → Option (WriteStatus × List UInt8 × List WriteResult)
  | [], _, _, _ => none
  | .again :: results, offset, wlen, sent => flushLoop wbuf results offset wlen sent
  | .failed :: results, _, _, sent => some (.error, sent, results)
  | .wrote k :: results, offset, wlen, sent =>
      let sts := min (k + 1) wlen
      let sent := sent ++ wbuf.read offset sts
      if wlen - sts = 0 then some (.done, sent, results)
      else flushLoop wbuf results (offset + sts) (wlen - sts) sent

namespace Output

variable (s : Output)

/-- `pool_flush_it`. -/
def poolFlushIt : Option (WriteStatus × Output) :=
  if s.cp.wbufpo = 0 then some (.done, s)
  else
    match flushLoop s.cp.wbuf s.results 0 s.cp.wbufpo s.sent with
    | none => none
    | some (status, sent, results) => some (status, ⟨s.cp.clear, sent, results⟩)

/-- The loop of `pool_write`, with one round for each byte at most. -/
def poolWriteLoop : Nat → List UInt8 → Output → Option (WriteStatus × Output)
  | _, [], s => some (.done, s)
  | 0, _ :: _, _ => none
  | fuel + 1, b :: data, s =>
      match if writeBufSz ≤ s.cp.wbufpo then s.poolFlushIt else some (.done, s) with
      | some (.done, s) =>
          poolWriteLoop fuel ((b :: data).drop (s.cp.remainder (b :: data)))
            { s with cp := s.cp.fill (b :: data) }
      | stopped => stopped

/-- `pool_write`. -/
def poolWrite (buf : Buffer) (len : Int) : Option (WriteStatus × Output) :=
  if len < 0 then some (.error, s)
  else if s.cp.noForward then some (.done, s)
  else poolWriteLoop len.toNat (buf.read 0 len.toNat) s

/-- `pool_flush`: an error of the frontend is ignored. -/
def poolFlush (failOver : Bool) : Option (WriteStatus × Output) :=
  match s.poolFlushIt with
  | some (.error, s) =>
      some (if s.cp.isbackend then if failOver then .childExit else .error else .done, s)
  | result => result

/-- `pool_write_and_flush`. -/
def poolWriteAndFlush (failOver : Bool) (buf : Buffer) (len : Int) : Option (WriteStatus × Output) :=
  match s.poolWrite buf len with
  | some (.done, s) => s.poolFlush failOver
  | result => result

end Output

/-- The calls on a connection.  `no_forward` is set by `pool_process_query`. -/
inductive WriteCall where
  | write (buf : Buffer) (len : Int)
  | flushIt
  | flush
  | writeAndFlush (buf : Buffer) (len : Int)
  | setNoForward (noForward : Bool)

namespace WriteCall

/-- `fail_over_on_backend_error` is `failOver`. -/
def call (failOver : Bool) (s : Output) : WriteCall → Option (WriteStatus × Output)
  | .write buf len => s.poolWrite buf len
  | .flushIt => s.poolFlushIt
  | .flush => s.poolFlush failOver
  | .writeAndFlush buf len => s.poolWriteAndFlush failOver buf len
  | .setNoForward noForward => some (.done, { s with cp := { s.cp with noForward } })

/-- One call after the other, whatever they return. -/
def run (failOver : Bool) (s : Output) : List WriteCall → Option Output
  | [] => some s
  | c :: calls =>
    match c.call failOver s with
    | none => none
    | some (_, s) => run failOver s calls

/-- The call flushes the buffer. -/
def Flushes : WriteCall → Prop
  | .flushIt | .flush | .writeAndFlush _ _ => True
  | _ => False

/-- The buffer that the call is given. -/
def data : WriteCall → List UInt8
  | .write buf len | .writeAndFlush buf len => buf.read 0 len.toNat
  | _ => []

/-- `no_forward` after the call. -/
def noForwardAfter (noForward : Bool) : WriteCall → Bool
  | .setNoForward noForward => noForward
  | _ => noForward

/-- The bytes to be forwarded. -/
def forwarded (noForward : Bool) : List WriteCall → List UInt8
  | [] => []
  | c :: calls =>
      (if noForward then [] else c.data) ++ forwarded (c.noForwardAfter noForward) calls

end WriteCall

/-- A connection that has just been opened. -/
def Output.opened (wbuf : Nat → UInt8) (isbackend : Bool) (results : List WriteResult) : Output :=
  ⟨.opened wbuf isbackend, [], results⟩

/-- How many writes will succeed. -/
def successes (results : List WriteResult) : Nat := results.countP fun r => r matches .wrote _

/-! ## One flush -/

/-- A flush writes everything, or more writes have to succeed. -/
theorem flushLoop_cases {wbuf : Buffer} {results : List WriteResult} {offset wlen : Nat}
    {sent : List UInt8} (hclean : .failed ∉ results) (hpos : 0 < wlen) :
    (flushLoop wbuf results offset wlen sent = none ∧ successes results < wlen) ∨
      ∃ results', flushLoop wbuf results offset wlen sent =
          some (.done, sent ++ wbuf.read offset wlen, results') ∧
        .failed ∉ results' ∧ successes results ≤ successes results' + wlen := by
  induction results generalizing offset wlen sent with
  | nil => exact .inl ⟨rfl, hpos⟩
  | cons r results ih =>
    have hrest : .failed ∉ results := fun hmem => hclean (List.mem_cons_of_mem _ hmem)
    cases r with
    | failed => exact absurd List.mem_cons_self hclean
    | again =>
      have hcount : successes (.again :: results) = successes results := by simp [successes]
      rw [hcount]
      exact ih hrest hpos
    | wrote k =>
      have hcount : successes (.wrote k :: results) = successes results + 1 := by simp [successes]
      rw [hcount, flushLoop]
      by_cases hall : wlen - min (k + 1) wlen = 0
      · have hmin : min (k + 1) wlen = wlen := by omega
        simp only [hmin, Nat.sub_self, if_true]
        exact .inr ⟨results, rfl, hrest, by omega⟩
      · simp only [if_neg hall]
        obtain ⟨hnone, hlt⟩ | ⟨results', hsome, hclean', hle⟩ := ih hrest (Nat.pos_of_ne_zero hall)
        · exact .inl ⟨hnone, by omega⟩
        · refine .inr ⟨results', ?_, hclean', by omega⟩
          have hsplit : min (k + 1) wlen + (wlen - min (k + 1) wlen) = wlen := by omega
          rw [hsome, List.append_assoc, ← Buffer.read_add, hsplit]

namespace Output

/-- What has been sent and what waits to be. -/
def total (s : Output) : List UInt8 := s.sent ++ s.cp.buffered

/-- What calls do in all: some bytes are taken, and every write that succeeds sends one at least. -/
structure Takes (s : Output) (data : List UInt8) (t : Output) : Prop where
  total : t.total = s.total ++ data
  clean : .failed ∉ t.results
  noForward : t.cp.noForward = s.cp.noForward
  budget : successes s.results + s.sent.length ≤ successes t.results + t.sent.length

/-- There are not enough writes that succeed for so many bytes. -/
def Starves (s : Output) (n : Nat) : Prop := successes s.results + s.sent.length < n

variable {s t u : Output} {data data' : List UInt8}

theorem Takes.refl (h : .failed ∉ s.results) : Takes s [] s :=
  ⟨(List.append_nil _).symm, h, rfl, Nat.le_refl _⟩

theorem Takes.trans (h : Takes s data t) (h' : Takes t data' u) : Takes s (data ++ data') u where
  total := by rw [h'.total, h.total, List.append_assoc]
  clean := h'.clean
  noForward := h'.noForward.trans h.noForward
  budget := Nat.le_trans h.budget h'.budget

/-- What is missing later is missing now. -/
theorem Takes.starves {n : Nat} (h : Takes s data t) (hstarves : t.Starves n) : s.Starves n :=
  Nat.lt_of_le_of_lt h.budget hstarves

theorem Takes.length (h : Takes s data t) : t.total.length = s.total.length + data.length := by
  rw [h.total, List.length_append]

theorem Starves.mono {m n : Nat} (h : s.Starves m) (hle : m ≤ n) : s.Starves n := Nat.lt_of_lt_of_le h hle

theorem buffered_fill (cp : WriteBuffer) (data : List UInt8) :
    (cp.fill data).buffered = cp.buffered ++ data.take (cp.remainder data) := by
  have hlen : (data.take (cp.remainder data)).length = cp.remainder data := by
    rw [List.length_take]
    exact Nat.min_eq_left (Nat.min_le_right _ _)
  have hnew : (cp.wbuf.write cp.wbufpo (data.take (cp.remainder data))).read cp.wbufpo
      (data.take (cp.remainder data)).length = data.take (cp.remainder data) := Buffer.read_write
  rw [hlen] at hnew
  unfold WriteBuffer.buffered WriteBuffer.fill
  rw [Buffer.read_add, Buffer.read_write_before (by omega), Nat.zero_add, hnew]

theorem takes_fill (h : .failed ∉ s.results) (data : List UInt8) :
    Takes s (data.take (s.cp.remainder data)) { s with cp := s.cp.fill data } where
  total := by
    unfold total
    rw [buffered_fill, List.append_assoc]
  clean := h
  noForward := rfl
  budget := Nat.le_refl _

theorem poolFlushIt_cases (h : .failed ∉ s.results) :
    (s.poolFlushIt = none ∧ s.Starves s.total.length) ∨
      ∃ t, s.poolFlushIt = some (.done, t) ∧ Takes s [] t ∧ t.cp.wbufpo = 0 := by
  unfold poolFlushIt
  by_cases hempty : s.cp.wbufpo = 0
  · rw [if_pos hempty]
    exact .inr ⟨s, rfl, .refl h, hempty⟩
  · rw [if_neg hempty]
    obtain ⟨hnone, hlt⟩ | ⟨results, hsome, hclean, hle⟩ :=
      @flushLoop_cases s.cp.wbuf _ 0 _ s.sent h (Nat.pos_of_ne_zero hempty)
    · refine .inl ⟨by rw [hnone], ?_⟩
      unfold Starves total WriteBuffer.buffered
      rw [List.length_append, Buffer.length_read]
      omega
    · refine .inr ⟨⟨s.cp.clear, s.sent ++ s.cp.buffered, results⟩, by rw [hsome]; rfl, ?_, rfl⟩
      refine ⟨rfl, hclean, rfl, ?_⟩
      change successes s.results + s.sent.length ≤ successes results + (s.sent ++ s.cp.buffered).length
      unfold WriteBuffer.buffered
      rw [List.length_append, Buffer.length_read]
      omega

theorem poolWriteLoop_cases {fuel : Nat} (h : .failed ∉ s.results) (hfuel : data.length ≤ fuel) :
    (poolWriteLoop fuel data s = none ∧ s.Starves (s.total.length + data.length)) ∨
      ∃ t, poolWriteLoop fuel data s = some (.done, t) ∧ Takes s data t := by
  induction fuel generalizing data s with
  | zero =>
    obtain rfl : data = [] := List.eq_nil_of_length_eq_zero (Nat.le_zero.mp hfuel)
    exact .inr ⟨s, rfl, .refl h⟩
  | succ fuel ih =>
    cases data with
    | nil => exact .inr ⟨s, rfl, .refl h⟩
    | cons b data =>
      unfold poolWriteLoop
      -- the rest of the round and the rounds after it, with room in the buffer
      have round : ∀ {u : Output}, Takes s [] u → u.cp.wbufpo < writeBufSz →
          (poolWriteLoop fuel ((b :: data).drop (u.cp.remainder (b :: data)))
              { u with cp := u.cp.fill (b :: data) } = none ∧
            s.Starves (s.total.length + (b :: data).length)) ∨
          ∃ t, poolWriteLoop fuel ((b :: data).drop (u.cp.remainder (b :: data)))
              { u with cp := u.cp.fill (b :: data) } = some (.done, t) ∧ Takes s (b :: data) t := by
        intro u hu hroom
        have hfill := takes_fill hu.clean (b :: data)
        have hpos : 0 < u.cp.remainder (b :: data) := by
          unfold WriteBuffer.remainder
          simp only [List.length_cons]
          omega
        have hdrop : ((b :: data).drop (u.cp.remainder (b :: data))).length ≤ fuel := by
          simp only [List.length_drop, List.length_cons] at hfuel ⊢
          omega
        have htakes : Takes s ((b :: data).take (u.cp.remainder (b :: data)))
            { u with cp := u.cp.fill (b :: data) } := hu.trans hfill
        obtain ⟨hnone, hstarves⟩ | ⟨t, hsome, ht⟩ := ih hfill.clean hdrop
        · refine .inl ⟨hnone, (htakes.starves hstarves).mono ?_⟩
          have hsplit : ((b :: data).take (u.cp.remainder (b :: data))).length +
              ((b :: data).drop (u.cp.remainder (b :: data))).length = (b :: data).length := by
            rw [← List.length_append, List.take_append_drop]
          rw [htakes.length]
          omega
        · refine .inr ⟨t, hsome, ?_⟩
          have hall := htakes.trans ht
          rwa [List.take_append_drop] at hall
      by_cases hfull : writeBufSz ≤ s.cp.wbufpo
      · rw [if_pos hfull]
        obtain ⟨hnone, hstarves⟩ | ⟨u, hsome, hu, hzero⟩ := poolFlushIt_cases h
        · rw [hnone]
          exact .inl ⟨rfl, hstarves.mono (Nat.le_add_right _ _)⟩
        · rw [hsome]
          exact round hu (by rw [hzero]; decide)
      · rw [if_neg hfull]
        exact round (.refl h) (Nat.lt_of_not_le hfull)

end Output

namespace WriteCall

open Output

variable {s t : Output} {failOver : Bool} {calls : List WriteCall}

theorem poolWrite_cases (h : .failed ∉ s.results) (buf : Buffer) {len : Int} (hlen : 0 ≤ len) :
    (s.poolWrite buf len = none ∧ s.cp.noForward = false ∧
        s.Starves (s.total.length + (buf.read 0 len.toNat).length)) ∨
      ∃ t, s.poolWrite buf len = some (.done, t) ∧
        Takes s (if s.cp.noForward then [] else buf.read 0 len.toNat) t := by
  unfold poolWrite
  rw [if_neg (Int.not_lt.mpr hlen)]
  cases hforward : s.cp.noForward with
  | true =>
    simp only [if_true]
    exact .inr ⟨s, rfl, .refl h⟩
  | false =>
    simp only [Bool.false_eq_true, if_false]
    obtain ⟨hnone, hstarves⟩ | hsome := poolWriteLoop_cases h (Nat.le_of_eq Buffer.length_read)
    · exact .inl ⟨hnone, trivial, hstarves⟩
    · exact .inr hsome

theorem poolFlush_eq (h : .failed ∉ s.results) : s.poolFlush failOver = s.poolFlushIt := by
  unfold poolFlush
  obtain ⟨hnone, -⟩ | ⟨t, hsome, -⟩ := poolFlushIt_cases h
  · rw [hnone]
  · rw [hsome]

/-- What a call does that returns. -/
structure Returns (s : Output) (c : WriteCall) (status : WriteStatus) (t : Output) : Prop where
  total : t.total = s.total ++ if s.cp.noForward then [] else c.data
  clean : .failed ∉ t.results
  noForward : t.cp.noForward = c.noForwardAfter s.cp.noForward
  budget : successes s.results + s.sent.length ≤ successes t.results + t.sent.length
  flushed : c.Flushes → status = .done → t.cp.wbufpo = 0

/-- A call returns, unless writes are missing that succeed. -/
def Serves (failOver : Bool) (s : Output) (c : WriteCall) : Prop :=
  (c.call failOver s = none ∧
      s.Starves (s.total.length + (if s.cp.noForward then [] else c.data).length)) ∨
    ∃ status t, c.call failOver s = some (status, t) ∧ Returns s c status t

theorem serves_flush (h : .failed ∉ s.results) {c : WriteCall} (hcall : c.call failOver s = s.poolFlushIt)
    (hdata : c.data = []) (hafter : ∀ b, c.noForwardAfter b = b) : Serves failOver s c := by
  unfold Serves
  rw [hcall, hdata]
  obtain ⟨hnone, hstarves⟩ | ⟨t, hsome, ht, hzero⟩ := poolFlushIt_cases h
  · exact .inl ⟨hnone, hstarves.mono (Nat.le_add_right _ _)⟩
  · refine .inr ⟨_, t, hsome, ?_, ht.clean, ?_, ht.budget, fun _ _ => hzero⟩
    · rw [hdata, ite_self]
      exact ht.total
    · rw [hafter]
      exact ht.noForward

/-- A size that is no size. -/
theorem serves_negative (h : .failed ∉ s.results) {c : WriteCall}
    (hcall : c.call failOver s = some (.error, s))
    (hdata : c.data = []) (hafter : ∀ b, c.noForwardAfter b = b) : Serves failOver s c := by
  refine .inr ⟨_, s, hcall, ?_, h, (hafter _).symm, Nat.le_refl _, fun _ => nofun⟩
  rw [hdata, ite_self, List.append_nil]

theorem data_negative {buf : Buffer} {len : Int} (hlen : len < 0) : buf.read 0 len.toNat = [] := by
  rw [Int.toNat_of_nonpos (Int.le_of_lt hlen)]
  rfl

theorem serves_call (h : .failed ∉ s.results) (c : WriteCall) : Serves failOver s c := by
  cases c with
  | flushIt => exact serves_flush h rfl rfl fun _ => rfl
  | flush => exact serves_flush h (poolFlush_eq h) rfl fun _ => rfl
  | setNoForward b =>
    refine .inr ⟨_, _, rfl, ?_, h, rfl, Nat.le_refl _, nofun⟩
    change s.total = s.total ++ if s.cp.noForward then [] else []
    rw [ite_self, List.append_nil]
  | write buf len =>
    by_cases hlen : len < 0
    · exact serves_negative h (if_pos hlen) (data_negative hlen) fun _ => rfl
    · unfold Serves
      change (s.poolWrite buf len = none ∧ _) ∨ ∃ status t, s.poolWrite buf len = _ ∧ _
      obtain ⟨hnone, hforward, hstarves⟩ | ⟨t, hsome, ht⟩ := poolWrite_cases h buf (Int.not_lt.mp hlen)
      · rw [hforward]
        exact .inl ⟨hnone, hstarves⟩
      · exact .inr ⟨_, t, hsome, ht.total, ht.clean, ht.noForward, ht.budget, nofun⟩
  | writeAndFlush buf len =>
    have hcall : ∀ {result}, s.poolWrite buf len = result →
        (WriteCall.writeAndFlush buf len).call failOver s =
          match result with
          | some (.done, s) => s.poolFlush failOver
          | result => result := by
      rintro _ rfl
      rfl
    by_cases hlen : len < 0
    · exact serves_negative h (hcall (if_pos hlen)) (data_negative hlen) fun _ => rfl
    · unfold Serves
      obtain ⟨hnone, hforward, hstarves⟩ | ⟨t, hsome, ht⟩ := poolWrite_cases h buf (Int.not_lt.mp hlen)
      · rw [hcall hnone, hforward]
        exact .inl ⟨rfl, hstarves⟩
      · have hflush : (WriteCall.writeAndFlush buf len).call failOver s = t.poolFlushIt :=
          (hcall hsome).trans (poolFlush_eq ht.clean)
        rw [hflush]
        obtain ⟨hnone, hstarves⟩ | ⟨u, hdone, hu, hzero⟩ := poolFlushIt_cases ht.clean
        · refine .inl ⟨hnone, ?_⟩
          rw [ht.length] at hstarves
          exact ht.starves hstarves
        · have hall := ht.trans hu
          rw [List.append_nil] at hall
          exact .inr ⟨_, u, hdone, hall.total, hall.clean, hall.noForward, hall.budget,
            fun _ _ => hzero⟩

/-! ## Runs -/

/-- A run comes to its end, unless writes are missing that succeed. -/
theorem run_cases (h : .failed ∉ s.results) (calls : List WriteCall) :
    (run failOver s calls = none ∧
        s.Starves (s.total.length + (forwarded s.cp.noForward calls).length)) ∨
      ∃ t, run failOver s calls = some t ∧ t.total = s.total ++ forwarded s.cp.noForward calls ∧
        .failed ∉ t.results := by
  induction calls generalizing s with
  | nil => exact .inr ⟨s, rfl, (List.append_nil _).symm, h⟩
  | cons c calls ih =>
    unfold run forwarded
    obtain ⟨hnone, hstarves⟩ | ⟨status, t, hsome, ht⟩ := serves_call h c
    · rw [hnone, List.length_append]
      exact .inl ⟨rfl, hstarves.mono (by omega)⟩
    · rw [hsome, ← ht.noForward]
      obtain ⟨hnone, hstarves⟩ | ⟨u, hrun, htotal, hclean⟩ := ih ht.clean
      · refine .inl ⟨hnone, Nat.lt_of_le_of_lt ht.budget ?_⟩
        rw [ht.total, List.length_append] at hstarves
        rw [List.length_append, ← Nat.add_assoc]
        exact hstarves
      · refine .inr ⟨u, hrun, ?_, hclean⟩
        rw [htotal, ht.total, List.append_assoc]

theorem run_concat {c : WriteCall} {status : WriteStatus} {u : Output} (h : run failOver s calls = some t)
    (hcall : c.call failOver t = some (status, u)) : run failOver s (calls ++ [c]) = some u := by
  induction calls generalizing s with
  | nil =>
    cases h
    simp [run, hcall]
  | cons c' calls ih =>
    rw [List.cons_append]
    unfold run at h ⊢
    split at h
    · cases h
    · exact ih h

variable {wbuf : Nat → UInt8} {isbackend : Bool} {results : List WriteResult}

/-- **Buffered writes**: the buffers reach the socket one after the other, but for what `no_forward` keeps
back, and a flush leaves nothing behind. -/
theorem run_forwards (hclean : .failed ∉ results) (calls : List WriteCall) :
    ((forwarded false calls).length ≤ successes results →
      ∃ t, run failOver (.opened wbuf isbackend results) calls = some t) ∧
    ∀ t, run failOver (.opened wbuf isbackend results) calls = some t →
      t.sent ++ t.cp.buffered = forwarded false calls ∧
      ∀ c status u, c.call failOver t = some (status, u) → c.Flushes → status = .done →
        u.cp.buffered = [] ∧ u.sent = forwarded false (calls ++ [c]) := by
  have hrun := @run_cases (.opened wbuf isbackend results) failOver hclean
  have hstart : (Output.opened wbuf isbackend results).total = [] := rfl
  have htotal : ∀ {calls t}, run failOver (.opened wbuf isbackend results) calls = some t →
      t.total = forwarded false calls ∧ .failed ∉ t.results := by
    intro calls t h
    obtain ⟨hnone, -⟩ | ⟨t', hsome, htotal, hclean'⟩ := hrun calls
    · rw [hnone] at h
      cases h
    · rw [hsome] at h
      cases h
      exact ⟨htotal, hclean'⟩
  refine ⟨fun henough => ?_, fun t ht => ⟨(htotal ht).1, fun c status u hcall hflushes hdone => ?_⟩⟩
  · obtain ⟨-, hstarves⟩ | ⟨t, hsome, -⟩ := hrun calls
    · have hlt : successes results < (forwarded false calls).length := by
        rw [hstart] at hstarves
        simpa [Starves, Output.opened, WriteBuffer.opened] using hstarves
      omega
    · exact ⟨t, hsome⟩
  · have hempty : u.cp.buffered = [] := by
      obtain ⟨hnone, -⟩ | ⟨status', u', hsome, hreturns⟩ := serves_call (htotal ht).2 c
      · rw [hnone] at hcall
        cases hcall
      · rw [hsome] at hcall
        cases hcall
        unfold WriteBuffer.buffered
        rw [hreturns.flushed hflushes hdone, Buffer.read_zero]
    have hall := (htotal (run_concat ht hcall)).1
    unfold Output.total at hall
    rw [hempty, List.append_nil] at hall
    exact ⟨hempty, hall⟩

/-- A byte that is repeated. -/
def letters (b : UInt8) : Buffer := ⟨1, fun _ => b⟩

/-- A flush of two bytes, of which each takes a write of its own, after one that would block. -/
theorem run_forwards_twoWrites :
    .failed ∉ [WriteResult.again, .wrote 0, .again, .wrote 5] ∧
    ∃ t, run false (.opened (fun _ => 0) true [.again, .wrote 0, .again, .wrote 5])
        [.write (letters 65) 1, .writeAndFlush (letters 66) 1] = some t ∧
      t.sent ++ t.cp.buffered = [65, 66] := by
  have hclean : .failed ∉ [WriteResult.again, .wrote 0, .again, .wrote 5] := by decide
  obtain ⟨hends, hright⟩ := @run_forwards false (fun _ => 0) true _ hclean
    [.write (letters 65) 1, .writeAndFlush (letters 66) 1]
  obtain ⟨t, ht⟩ := hends (by decide)
  exact ⟨hclean, t, ht, (hright t ht).1⟩

/-- With `no_forward` a buffer that is written does not reach the socket. -/
theorem not_concatenated_noForward :
    ∃ t, run false (.opened (fun _ => 0) false [.wrote 0])
        [.setNoForward true, .writeAndFlush (letters 65) 1] = some t ∧
      t.sent ++ t.cp.buffered ≠
        [WriteCall.setNoForward true, .writeAndFlush (letters 65) 1].flatMap WriteCall.data := by
  refine ⟨_, rfl, ?_⟩
  decide

end WriteCall

end PgPool
