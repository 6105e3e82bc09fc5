import PgPool.Lib.Transition
import PgPool.Stream.Connection

/-!
# What is read is what arrives

A connection as a tape: the readers take bytes from its front, and `pool_unread` puts bytes back
there.  The readers always follow the tape.  `pool_unread` does so as long as enlarging the buffer
does not cut off pending bytes, which it may: the enlarged size is not recorded, so that a later call
can ask for a smaller block than there is.
-/

namespace PgPool

open Transition

/-! ## The pending buffer -/

namespace PoolConnection

variable {fresh : Nat → UInt8} {data : List UInt8} {n : Nat} {cp : PoolConnection}

theorem length_pending : cp.pending.length = cp.len := Buffer.length_read

theorem pending_of_empty (h : cp.len = 0) : cp.pending = [] := by
  unfold pending
  rw [h]
  exact Buffer.read_zero

theorem read_offset : cp.hp.read cp.offset cp.len = cp.pending := by
  unfold offset pending
  split
  · rename_i h
    rw [h]
    rfl
  · rfl

theorem offset_le : cp.offset ≤ cp.po := by
  unfold offset
  split <;> omega

/-- Saved bytes come behind the pending ones. -/
theorem pending_savePendingData : (cp.savePendingData fresh data).pending = cp.pending ++ data := by
  have hin := cp.inside
  have hoff := cp.offset_le
  have hgrown := lt_enlarged (cp.offset + cp.len + data.length)
  unfold savePendingData
  simp only
  split
  · change ((cp.hp.realloc _ _).write _ _).read cp.offset (cp.len + data.length) = _
    rw [Buffer.read_add, Buffer.read_write, Buffer.read_write_before (Nat.le_refl _),
      Buffer.read_realloc (by omega) (by omega), read_offset]
  · change (cp.hp.write _ _).read cp.offset (cp.len + data.length) = _
    rw [Buffer.read_add, Buffer.read_write, Buffer.read_write_before (Nat.le_refl _), read_offset]

theorem consume_fst : (cp.consumePendingData n).1 = cp.pending.take n := by
  change cp.hp.read cp.po (min n cp.len) = _
  rcases Nat.le_total n cp.len with h | h
  · rw [Nat.min_eq_left h]
    exact (Buffer.take_read h).symm
  · rw [Nat.min_eq_right h]
    exact (List.take_of_length_le (Nat.le_trans (Nat.le_of_eq length_pending) h)).symm

theorem length_consume : (cp.consumePendingData n).1.length = min n cp.len := Buffer.length_read

theorem len_consume : (cp.consumePendingData n).2.len = cp.len - min n cp.len := rfl

theorem consume_snd : (cp.consumePendingData n).2.pending = cp.pending.drop n := by
  rcases Nat.lt_or_ge n cp.len with h | h
  · have hmin : min n cp.len = n := Nat.min_eq_left (Nat.le_of_lt h)
    have hpo : (cp.consumePendingData n).2.po = cp.po + n := by
      change (if cp.len - min n cp.len = 0 then 0 else cp.po + min n cp.len) = _
      rw [hmin, if_neg (by omega)]
    unfold pending
    rw [Buffer.drop_read (Nat.le_of_lt h), hpo, len_consume, hmin]
    rfl
  · have hempty : (cp.consumePendingData n).2.len = 0 := by
      rw [len_consume]
      omega
    rw [pending_of_empty hempty]
    exact (List.drop_of_length_le (Nat.le_trans (Nat.le_of_eq length_pending) h)).symm

/-- Enlarging the buffer for `n` more bytes keeps the pending ones. -/
def KeepsPending (n : Nat) (cp : PoolConnection) : Prop :=
  cp.bufsz < cp.len + n → cp.len = 0 ∨ cp.po + cp.len ≤ enlarged (cp.len + n)

instance (n : Nat) (cp : PoolConnection) : Decidable (cp.KeepsPending n) :=
  inferInstanceAs (Decidable (_ → _ ∨ _))

theorem read_front {b : Buffer} :
    ((b.write data.length (b.read cp.po cp.len)).write 0 data).read 0 (cp.len + data.length) =
      data ++ b.read cp.po cp.len := by
  have hrest : ((b.write data.length (b.read cp.po cp.len)).write 0 data).read data.length cp.len =
      b.read cp.po cp.len := by
    rw [Buffer.read_write_behind (by omega)]
    have hself : (b.write data.length (b.read cp.po cp.len)).read data.length
        (b.read cp.po cp.len).length = b.read cp.po cp.len := Buffer.read_write
    rwa [Buffer.length_read] at hself
  rw [Nat.add_comm, Buffer.read_add, Buffer.read_write, Nat.zero_add, hrest]

/-- Bytes that are pushed back come before the pending ones. -/
theorem pending_poolUnread (h : cp.KeepsPending data.length) :
    (cp.poolUnread fresh data).pending = data ++ cp.pending := by
  have hin := cp.inside
  unfold poolUnread
  split
  · rename_i hsmall
    have hkeep : (cp.hp.realloc fresh (enlarged (cp.len + data.length))).read cp.po cp.len =
        cp.pending := by
      rcases h hsmall with hempty | hfits
      · unfold pending
        rw [hempty]
        rfl
      · exact Buffer.read_realloc hin hfits
    refine read_front.trans ?_
    rw [hkeep]
  · exact read_front

/-- Otherwise some pending bytes are lost. -/
theorem pending_poolUnread_ne (h : ¬ cp.KeepsPending data.length) :
    ∃ fresh, (cp.poolUnread fresh data).pending ≠ data ++ cp.pending := by
  have hin := cp.inside
  obtain ⟨hsmall, hlost⟩ := Classical.not_imp.1 h
  obtain ⟨hne, hcut⟩ := not_or.1 hlost
  obtain ⟨fresh, hfresh⟩ := Buffer.read_realloc_ne (b := cp.hp) (Nat.lt_of_not_le hcut) (Nat.pos_of_ne_zero hne)
  refine ⟨fresh, fun heq => hfresh ?_⟩
  unfold poolUnread at heq
  rw [dif_pos hsmall] at heq
  have hread := read_front.symm.trans heq
  exact List.append_cancel_left hread

end PoolConnection

/-! ## The readers -/

theorem readlen_le (k size : Nat) (bytes : List UInt8) : readlen k size bytes ≤ bytes.length := by
  unfold readlen
  omega

theorem readlen_le_size (k size : Nat) (bytes : List UInt8) : readlen k size bytes ≤ size := by
  unfold readlen
  omega

/-- The bytes of the socket, read in one go and the rest later. -/
theorem take_append_drop_of_le {m n : Nat} (h : m ≤ n) (bytes : List UInt8) :
    bytes.take m ++ ((bytes.take n).drop m ++ bytes.drop n) = bytes := by
  have htake : bytes.take m = (bytes.take n).take m := by
    rw [List.take_take, Nat.min_eq_left h]
  rw [htake, ← List.append_assoc, List.take_append_drop, List.take_append_drop]

/-- What one read takes, in front of what the reads after it take. -/
theorem taken_append {n len : Nat} {bytes more ahead : List UInt8} (hle : n ≤ bytes.length)
    (hsize : n ≤ len) (hbytes : bytes.drop n = more ++ ahead) (hlen : more.length = len - n) :
    bytes = (bytes.take n ++ more) ++ ahead ∧ (bytes.take n ++ more).length = len := by
  constructor
  · rw [List.append_assoc, ← hbytes, List.take_append_drop]
  · rw [List.length_append, List.length_take, hlen]
    omega

section

variable {fresh : Nat → UInt8} {cp : PoolConnection} {splits : List Nat} {bytes data : List UInt8}
  {len : Nat} {t : Stream}

theorem poolReadLoop_spec (h : poolReadLoop fresh cp splits bytes len = some (data, t))
    (hempty : len ≠ 0 → cp.len = 0) :
    cp.pending ++ bytes = data ++ t.ahead ∧ data.length = len := by
  induction splits generalizing bytes len data with
  | nil =>
    cases len with
    | zero =>
      cases h
      exact ⟨rfl, rfl⟩
    | succ len => cases h
  | cons k splits ih =>
    cases len with
    | zero =>
      cases h
      exact ⟨rfl, rfl⟩
    | succ len =>
      have hpend := PoolConnection.pending_of_empty (hempty (Nat.succ_ne_zero len))
      have hle := readlen_le k readBufSz bytes
      simp only [poolReadLoop] at h
      generalize readlen k readBufSz bytes = n at h hle
      split at h
      · cases h
      · split at h
        · rename_i hover
          cases h
          constructor
          · unfold Stream.ahead
            rw [PoolConnection.pending_savePendingData, hpend, List.nil_append, List.nil_append]
            exact (take_append_drop_of_le (Nat.le_of_lt hover) bytes).symm
          · rw [List.length_take]
            omega
        · rename_i hover
          cases hrest : poolReadLoop fresh cp splits (bytes.drop n) (len + 1 - n) with
          | none => simp [hrest] at h
          | some p =>
            obtain ⟨more, u⟩ := p
            simp only [hrest] at h
            cases h
            obtain ⟨hbytes, hlen⟩ := ih hrest fun _ => hempty (Nat.succ_ne_zero len)
            rw [hpend, List.nil_append] at hbytes ⊢
            exact taken_append hle (Nat.le_of_not_lt hover) hbytes hlen

theorem poolRead2Loop_spec (h : poolRead2Loop cp splits bytes len = some (data, t))
    (hempty : len ≠ 0 → cp.len = 0) :
    cp.pending ++ bytes = data ++ t.ahead ∧ data.length = len := by
  induction splits generalizing bytes len data with
  | nil =>
    cases len with
    | zero =>
      cases h
      exact ⟨rfl, rfl⟩
    | succ len => cases h
  | cons k splits ih =>
    cases len with
    | zero =>
      cases h
      exact ⟨rfl, rfl⟩
    | succ len =>
      have hpend := PoolConnection.pending_of_empty (hempty (Nat.succ_ne_zero len))
      have hle := readlen_le k (len + 1) bytes
      have hsize := readlen_le_size k (len + 1) bytes
      simp only [poolRead2Loop] at h
      generalize readlen k (len + 1) bytes = n at h hle hsize
      split at h
      · cases h
      · cases hrest : poolRead2Loop cp splits (bytes.drop n) (len + 1 - n) with
        | none => simp [hrest] at h
        | some p =>
          obtain ⟨more, u⟩ := p
          simp only [hrest] at h
          cases h
          obtain ⟨hbytes, hlen⟩ := ih hrest fun _ => hempty (Nat.succ_ne_zero len)
          rw [hpend, List.nil_append] at hbytes ⊢
          exact taken_append hle hsize hbytes hlen

/-! ## Strings -/

/-- The bytes end with a terminator, and have no other. -/
def Terminated (stop : UInt8 → Bool) (data : List UInt8) : Prop :=
  ∃ front b, data = front ++ [b] ∧ stop b = true ∧ ∀ x ∈ front, stop x = false

variable {stop : UInt8 → Bool} {l : List UInt8}

theorem mystrlen_le (stop : UInt8 → Bool) (l : List UInt8) : (mystrlen stop l).1 ≤ l.length := by
  induction l with
  | nil => exact Nat.le_refl _
  | cons b rest ih =>
    unfold mystrlen
    split
    · exact Nat.succ_le_succ (Nat.zero_le _)
    · exact Nat.succ_le_succ ih

/-- With a terminator, the length is that of the string. -/
theorem mystrlen_found (h : (mystrlen stop l).2 = true) :
    Terminated stop (l.take (mystrlen stop l).1) := by
  induction l with
  | nil => cases h
  | cons b rest ih =>
    by_cases hb : stop b = true
    · refine ⟨[], b, ?_, hb, by simp⟩
      simp [mystrlen, hb]
    · have hrest : (mystrlen stop rest).2 = true := by simpa [mystrlen, hb] using h
      obtain ⟨front, c, htake, hc, hfront⟩ := ih hrest
      refine ⟨b :: front, c, ?_, hc, ?_⟩
      · simp [mystrlen, hb, htake]
      · intro x hx
        rcases List.mem_cons.1 hx with rfl | hx
        · simpa using hb
        · exact hfront x hx

/-- Without one, all bytes belong to the string. -/
theorem mystrlen_open (h : (mystrlen stop l).2 = false) :
    (mystrlen stop l).1 = l.length ∧ ∀ x ∈ l, stop x = false := by
  induction l with
  | nil => exact ⟨rfl, by simp⟩
  | cons b rest ih =>
    by_cases hb : stop b = true
    · simp [mystrlen, hb] at h
    · have hrest : (mystrlen stop rest).2 = false := by simpa [mystrlen, hb] using h
      obtain ⟨hlen, hall⟩ := ih hrest
      refine ⟨by simp [mystrlen, hb, hlen], ?_⟩
      intro x hx
      rcases List.mem_cons.1 hx with rfl | hx
      · simpa using hb
      · exact hall x hx

theorem Terminated.append (h : Terminated stop data) (hl : ∀ x ∈ l, stop x = false) :
    Terminated stop (l ++ data) := by
  obtain ⟨front, b, rfl, hb, hfront⟩ := h
  refine ⟨l ++ front, b, by rw [List.append_assoc], hb, ?_⟩
  intro x hx
  exact (List.mem_append.1 hx).elim (hl x) (hfront x)

theorem stringLoop_spec {sbufsz readp readsize : Nat}
    (h : stringLoop fresh cp stop splits bytes sbufsz readp readsize = some (data, t))
    (hempty : cp.len = 0) : bytes = data ++ t.ahead ∧ Terminated stop data := by
  induction splits generalizing bytes sbufsz readp readsize data with
  | nil => cases h
  | cons k splits ih =>
    have hpend : ∀ n, ({ cp with sbufsz := n } : PoolConnection).pending = [] := fun _ =>
      PoolConnection.pending_of_empty hempty
    have hle := readlen_le k readsize bytes
    have hlen := mystrlen_le stop (bytes.take (readlen k readsize bytes))
    have hfound : (mystrlen stop (bytes.take (readlen k readsize bytes))).2 = true → _ :=
      mystrlen_found
    have hopen : (mystrlen stop (bytes.take (readlen k readsize bytes))).2 = false → _ :=
      mystrlen_open
    simp only [stringLoop] at h
    generalize readlen k readsize bytes = n at h hle hlen hfound hopen
    have htake : (bytes.take n).length = n := by
      rw [List.length_take]
      omega
    rw [htake] at hlen
    generalize mystrlen stop (bytes.take n) = p at h hlen hfound hopen
    obtain ⟨strlength, flag⟩ := p
    simp only at h hlen hfound hopen
    split at h
    · cases h
    · split at h
      · rename_i hover
        cases h
        constructor
        · unfold Stream.ahead
          rw [PoolConnection.pending_savePendingData, hpend, List.nil_append]
          exact (take_append_drop_of_le hlen bytes).symm
        · cases flag with
          | true =>
            have := hfound rfl
            rwa [List.take_take, Nat.min_eq_left hlen] at this
          | false =>
            have := (hopen rfl).1
            omega
      · rename_i hover
        split at h
        · rename_i hflag
          cases h
          constructor
          · unfold Stream.ahead
            rw [hpend, List.nil_append, List.take_append_drop]
          · have := hfound hflag
            rwa [show strlength = n by omega, List.take_take, Nat.min_self] at this
        · rename_i hflag
          split at h
          · cases h
          · rename_i more u hrest
            cases h
            obtain ⟨hbytes, hterm⟩ := ih hrest
            refine ⟨?_, hterm.append (hopen (by simpa using hflag)).2⟩
            rw [List.append_assoc, ← hbytes, List.take_append_drop]

end

namespace Stream

variable {fresh : Nat → UInt8} {s t : Stream} {data : List UInt8} {len : Nat}

/-- The request that is left after the pending bytes have been consumed. -/
theorem rest_of_consume {cp : PoolConnection} :
    len - (cp.consumePendingData len).1.length ≠ 0 → (cp.consumePendingData len).2.len = 0 := by
  rw [PoolConnection.length_consume, PoolConnection.len_consume]
  omega

theorem length_of_consume {cp : PoolConnection} {more : List UInt8}
    (h : more.length = len - (cp.consumePendingData len).1.length) :
    ((cp.consumePendingData len).1 ++ more).length = len := by
  rw [List.length_append, h, PoolConnection.length_consume]
  omega

/-- The pending bytes that are consumed, and those that are not. -/
theorem consume_append (cp : PoolConnection) (len : Nat) :
    (cp.consumePendingData len).1 ++ (cp.consumePendingData len).2.pending = cp.pending := by
  rw [PoolConnection.consume_fst, PoolConnection.consume_snd, List.take_append_drop]

/-- `pool_read` hands out the next bytes. -/
theorem poolRead_spec (h : s.poolRead fresh len = some (data, t)) :
    s.ahead = data ++ t.ahead ∧ data.length = len := by
  unfold poolRead at h
  simp only at h
  split at h
  · cases h
  · rename_i more u hloop
    cases h
    obtain ⟨hbytes, hlen⟩ := poolReadLoop_spec hloop rest_of_consume
    refine ⟨?_, length_of_consume hlen⟩
    unfold ahead at hbytes ⊢
    rw [← consume_append s.cp len, List.append_assoc, hbytes, List.append_assoc]

/-- `pool_read2` hands out the next bytes. -/
theorem poolRead2_spec (h : s.poolRead2 len = some (data, t)) :
    s.ahead = data ++ t.ahead ∧ data.length = len := by
  unfold poolRead2 at h
  simp only at h
  split at h
  · cases h
  · rename_i more u hloop
    cases h
    obtain ⟨hbytes, hlen⟩ := poolRead2Loop_spec hloop rest_of_consume
    refine ⟨?_, length_of_consume hlen⟩
    have hpending : (if s.cp.bufsz2 < s.cp.len + len then
        { s.cp with bufsz2 := enlarged (s.cp.len + len + 1) } else s.cp).pending = s.cp.pending := by
      split <;> rfl
    unfold ahead at hbytes ⊢
    rw [← hpending, ← consume_append _ len, List.append_assoc, hbytes, List.append_assoc]

/-- `pool_read_string` hands out the next bytes, up to the first terminator. -/
theorem poolReadString_spec {line : Bool} (h : s.poolReadString fresh line = some (data, t)) :
    s.ahead = data ++ t.ahead ∧ Terminated (terminates line) data := by
  unfold poolReadString at h
  simp only at h
  split at h
  · rename_i hempty
    obtain ⟨hbytes, hterm⟩ := stringLoop_spec h hempty
    refine ⟨?_, hterm⟩
    unfold ahead at hbytes ⊢
    rw [PoolConnection.pending_of_empty hempty, List.nil_append, hbytes]
  · have hle := mystrlen_le (terminates line) s.cp.pending
    have hfound : (mystrlen (terminates line) s.cp.pending).2 = true → _ := mystrlen_found
    have hopen : (mystrlen (terminates line) s.cp.pending).2 = false → _ := mystrlen_open
    generalize mystrlen (terminates line) s.cp.pending = p at h hle hfound hopen
    obtain ⟨strlength, flag⟩ := p
    simp only at h hle hfound hopen
    split at h
    · rename_i hflag
      cases h
      refine ⟨?_, ?_⟩
      · unfold ahead
        rw [← consume_append s.cp strlength, List.append_assoc]
        rfl
      · rw [PoolConnection.consume_fst]
        exact hfound hflag
    · rename_i hflag
      obtain ⟨hlen, hall⟩ := hopen (by simpa using hflag)
      split at h
      · cases h
      · rename_i more u hloop
        cases h
        have hempty : (s.cp.consumePendingData strlength).2.len = 0 := by
          rw [PoolConnection.len_consume, hlen, PoolConnection.length_pending]
          omega
        have hall' : (s.cp.consumePendingData strlength).1 = s.cp.pending := by
          rw [PoolConnection.consume_fst, hlen, List.take_length]
        obtain ⟨hbytes, hterm⟩ := stringLoop_spec hloop hempty
        rw [hall']
        refine ⟨?_, hterm.append hall⟩
        unfold ahead at hbytes ⊢
        rw [hbytes, List.append_assoc]

/-- `pool_unread` puts the bytes in front, unless it cuts off pending ones. -/
theorem ahead_poolUnread (h : s.cp.KeepsPending data.length) :
    (s.poolUnread fresh data).ahead = data ++ s.ahead := by
  unfold ahead
  rw [← List.append_assoc, ← PoolConnection.pending_poolUnread h]
  rfl

end Stream

/-! ## Sequences of calls -/

/-- A call on a connection.  What is in fresh memory is up to the system. -/
inductive StreamCall where
  | read (fresh : Nat → UInt8) (len : Nat)
  | read2 (len : Nat)
  | readString (fresh : Nat → UInt8) (line : Bool)
  | unread (fresh : Nat → UInt8) (data : List UInt8)

/-- What a call has done: some bytes are handed out or pushed back. -/
inductive StreamOutcome where
  | handed (data : List UInt8)
  | pushed (data : List UInt8)

/-- A stream and what the calls on it have done, the last one at the end. -/
structure UsedStream where
  stream : Stream
  log : List StreamOutcome

namespace UsedStream

/-- A connection that has just been opened, with the bytes that will arrive. -/
def opened (hp : Nat → UInt8) (sock : Socket) : UsedStream := ⟨⟨.opened hp, sock⟩, []⟩

variable (s : UsedStream)

def note (outcome : StreamOutcome) (stream : Stream) : UsedStream := ⟨stream, s.log ++ [outcome]⟩

/-- A call that succeeds. -/
def step : StreamCall → Option UsedStream
  | .read fresh len => (s.stream.poolRead fresh len).map fun p => s.note (.handed p.1) p.2
  | .read2 len => (s.stream.poolRead2 len).map fun p => s.note (.handed p.1) p.2
  | .readString fresh line =>
      (s.stream.poolReadString fresh line).map fun p => s.note (.handed p.1) p.2
  | .unread fresh data => some (s.note (.pushed data) (s.stream.poolUnread fresh data))

/-- `pool_unread` keeps the pending bytes. -/
def Keeps : StreamCall → Prop
  | .unread _ data => s.stream.cp.KeepsPending data.length
  | _ => True

end UsedStream

/-- A stream with its unread blocks put back where they were pushed: what has been done is a way to
use up the stream, and `rest` is what is left. -/
inductive Replays (bytes : List UInt8) : List StreamOutcome → List UInt8 → Prop
  | start : Replays bytes [] bytes
  | handed {log : List StreamOutcome} {data rest : List UInt8} (before : Replays bytes log (data ++ rest)) :
      Replays bytes (log ++ [.handed data]) rest
  | pushed {log : List StreamOutcome} {data rest : List UInt8} (before : Replays bytes log rest) :
      Replays bytes (log ++ [.pushed data]) (data ++ rest)

namespace UsedStream

variable {hp : Nat → UInt8} {sock : Socket} {bytes : List UInt8} {s t : UsedStream} {c : StreamCall}

/-- A call keeps to the stream. -/
theorem replays_step (h : Replays bytes s.log s.stream.ahead) (hc : s.Keeps c)
    (hs : s.step c = some t) : Replays bytes t.log t.stream.ahead := by
  cases c with
  | read fresh len =>
    obtain ⟨p, hp, rfl⟩ := Option.map_eq_some_iff.1 hs
    rw [(Stream.poolRead_spec hp).1] at h
    exact .handed h
  | read2 len =>
    obtain ⟨p, hp, rfl⟩ := Option.map_eq_some_iff.1 hs
    rw [(Stream.poolRead2_spec hp).1] at h
    exact .handed h
  | readString fresh line =>
    obtain ⟨p, hp, rfl⟩ := Option.map_eq_some_iff.1 hs
    rw [(Stream.poolReadString_spec hp).1] at h
    exact .handed h
  | unread fresh data =>
    cases hs
    change Replays bytes (s.log ++ [.pushed data]) (s.stream.poolUnread fresh data).ahead
    rw [Stream.ahead_poolUnread hc]
    exact .pushed h

/-- **Stream fidelity.** In every sequence of calls of which no `pool_unread` cuts off pending bytes,
the bytes that are handed out are those of the stream, with the unread blocks put back, and the
pending bytes are inside the buffer. -/
theorem replays_of_run (h : Run step Keeps (opened hp sock) s) :
    Replays sock.bytes s.log s.stream.ahead ∧
      s.stream.cp.po + s.stream.cp.len ≤ s.stream.cp.hp.size := by
  refine ⟨?_, s.stream.cp.inside⟩
  refine h.invariant (I := fun s => Replays sock.bytes s.log s.stream.ahead) ?_ ?_
  · intro s c t hi hc hs
    exact replays_step hi hc hs
  · exact .start

instance : Decidable (s.Keeps c) :=
  match c with
  | .unread _ data => inferInstanceAs (Decidable (s.stream.cp.KeepsPending data.length))
  | .read _ _ | .read2 _ | .readString _ _ => isTrue trivial

/-- A string is read, pushed back and read again. -/
def readTwice : List StreamCall :=
  [.readString (fun _ => 0) false, .unread (fun _ => 0) [65, 0], .read (fun _ => 0) 2]

def readTwiceStart : UsedStream := opened (fun _ => 0) ⟨[65, 0, 66], [0, 1]⟩

theorem replays_of_readTwice : ∃ s, runAll step readTwice readTwiceStart = some s ∧
    Replays [65, 0, 66] s.log s.stream.ahead := by
  have hsome : (runAll step readTwice readTwiceStart).isSome = true := by decide +kernel
  obtain ⟨s, hs⟩ := Option.isSome_iff_exists.1 hsome
  exact ⟨s, hs, (replays_of_run (.of_runAll hs (by decide +kernel))).1⟩

end UsedStream

/-- A stream of one byte only goes on like that. -/
theorem Replays.all {b : UInt8} {log : List StreamOutcome} {bytes rest : List UInt8}
    (h : Replays bytes log rest) (hbytes : ∀ x ∈ bytes, x = b)
    (hlog : ∀ o ∈ log, ∀ data, o = .pushed data → ∀ x ∈ data, x = b) : ∀ x ∈ rest, x = b := by
  induction h with
  | start => exact hbytes
  | handed _ ih =>
    intro x hx
    exact ih (fun o ho => hlog o (List.mem_append_left _ ho)) x (List.mem_append_right _ hx)
  | @pushed log data rest _ ih =>
    intro x hx
    rcases List.mem_append.1 hx with hx | hx
    · exact hlog _ (List.mem_append_right _ (List.mem_singleton_self _)) data rfl x hx
    · exact ih (fun o ho => hlog o (List.mem_append_left _ ho)) x hx

namespace UsedStream

/-- Three reads of the socket bring a message, which is pushed back; a part of it is read, and one
more byte is looked at. -/
def peeked : List StreamCall :=
  [.read (fun _ => 0) 3072, .unread (fun _ => 0) (List.replicate 3072 1), .read (fun _ => 0) 2040,
   .read (fun _ => 0) 1, .unread (fun _ => 0) [1]]

def peekedStart : UsedStream := opened (fun _ => 0) ⟨List.replicate 3072 1, [1023, 1023, 1023]⟩

/-- The look at one byte cuts off the end of the message. -/
theorem peeked_not_replays : ∃ s, runAll step peeked peekedStart = some s ∧
    ¬ Replays (List.replicate 3072 1) s.log s.stream.ahead := by
  have hsome : (runAll step peeked peekedStart).isSome = true := by decide +kernel
  obtain ⟨s, hs⟩ := Option.isSome_iff_exists.1 hsome
  refine ⟨s, hs, fun h => ?_⟩
  have hget : (runAll step peeked peekedStart).getD peekedStart = s := by
    rw [hs]
    rfl
  have hzero : s.stream.ahead.contains 0 = true := by
    rw [← hget]
    decide +kernel
  have hlog : ∀ o ∈ s.log, ∀ data, o = .pushed data → ∀ x ∈ data, x = 1 := by
    intro o ho data hd
    have hlist : (s.log.all fun o =>
        match o with
        | .handed _ => true
        | .pushed data => data.all (· == 1)) = true := by
      rw [← hget]
      decide +kernel
    have hall := List.all_eq_true.1 hlist o ho
    rw [hd] at hall
    simpa using hall
  have hone := h.all (fun x hx => List.eq_of_mem_replicate hx) hlog 0 (by simpa using hzero)
  exact absurd hone (by decide)

end UsedStream

end PgPool
