import PgPool.Stream.Peek

/-!
# Messages on a stream

When all the bytes of a call arrive, it succeeds, however they are split into reads.  Messages of
protocol V3 are read in three parts: the kind, a length word, and contents of that length.
-/

namespace PgPool

/-! ## Calls that succeed -/

/-- The kernel goes on handing out what has arrived: a read is left for every byte. -/
def Socket.Delivers (sock : Socket) : Prop := sock.bytes.length ≤ sock.splits.length

section

variable {fresh : Nat → UInt8} {cp : PoolConnection} {splits : List Nat} {bytes data rest : List UInt8}
  {len k size : Nat} {stop : UInt8 → Bool}

theorem readlen_pos (hsize : 0 < size) (hbytes : 0 < bytes.length) : 0 < readlen k size bytes := by
  unfold readlen
  omega

theorem delivers_drop (h : bytes.length ≤ splits.length + 1) (hpos : 0 < len) :
    (bytes.drop len).length ≤ splits.length := by
  rw [List.length_drop]
  omega

theorem poolReadLoop_of_le (h : bytes.length ≤ splits.length) (hlen : len ≤ bytes.length) :
    ∃ data t, poolReadLoop fresh cp splits bytes len = some (data, t) ∧ t.sock.Delivers ∧
      t.cp.bufsz2 = cp.bufsz2 := by
  induction splits generalizing bytes len with
  | nil =>
    have hzero : len = 0 := by
      simp only [List.length_nil] at h
      omega
    subst hzero
    exact ⟨[], _, rfl, h, rfl⟩
  | cons k splits ih =>
    cases len with
    | zero => exact ⟨[], _, rfl, h, rfl⟩
    | succ len =>
      have hpos : 0 < readlen k readBufSz bytes := readlen_pos (by decide) (by omega)
      have hle := readlen_le k readBufSz bytes
      have hdrop := delivers_drop h hpos
      simp only [poolReadLoop]
      generalize readlen k readBufSz bytes = n at hpos hle hdrop
      rw [if_neg (Nat.ne_of_gt hpos)]
      split
      · refine ⟨_, _, rfl, hdrop, ?_⟩
        unfold PoolConnection.savePendingData
        simp only
        split <;> rfl
      · have hrest : len + 1 - n ≤ (bytes.drop n).length := by
          rw [List.length_drop]
          omega
        obtain ⟨data, t, hloop, ht, hbuf⟩ := ih hdrop hrest
        rw [hloop]
        exact ⟨_, t, rfl, ht, hbuf⟩

theorem poolRead2Loop_of_le (h : bytes.length ≤ splits.length) (hlen : len ≤ bytes.length) :
    ∃ data t, poolRead2Loop cp splits bytes len = some (data, t) ∧ t.sock.Delivers ∧
      t.cp.bufsz2 = cp.bufsz2 := by
  induction splits generalizing bytes len with
  | nil =>
    have hzero : len = 0 := by
      simp only [List.length_nil] at h
      omega
    subst hzero
    exact ⟨[], _, rfl, h, rfl⟩
  | cons k splits ih =>
    cases len with
    | zero => exact ⟨[], _, rfl, h, rfl⟩
    | succ len =>
      have hpos : 0 < readlen k (len + 1) bytes := readlen_pos (Nat.succ_pos len) (by omega)
      have hsize := readlen_le_size k (len + 1) bytes
      have hdrop := delivers_drop h hpos
      simp only [poolRead2Loop]
      generalize readlen k (len + 1) bytes = n at hpos hsize hdrop
      rw [if_neg (Nat.ne_of_gt hpos)]
      have hrest : len + 1 - n ≤ (bytes.drop n).length := by
        rw [List.length_drop]
        omega
      obtain ⟨data, t, hloop, ht, hbuf⟩ := ih hdrop hrest
      rw [hloop]
      exact ⟨_, t, rfl, ht, hbuf⟩

theorem stringLoop_of_mem {sbufsz readp readsize : Nat} (h : bytes.length ≤ splits.length)
    (hsize : 0 < readsize) (hstop : ∃ x ∈ bytes, stop x = true) :
    ∃ data t, stringLoop fresh cp stop splits bytes sbufsz readp readsize = some (data, t) ∧
      t.sock.Delivers := by
  induction splits generalizing bytes sbufsz readp readsize with
  | nil =>
    obtain ⟨x, hx, -⟩ := hstop
    rw [List.length_eq_zero_iff.1 (Nat.le_zero.1 h)] at hx
    cases hx
  | cons k splits ih =>
    have hne : 0 < bytes.length := by
      obtain ⟨x, hx, -⟩ := hstop
      exact List.length_pos_of_mem hx
    have hpos : 0 < readlen k readsize bytes := readlen_pos hsize hne
    have hdrop := delivers_drop h hpos
    have hopen : (mystrlen stop (bytes.take (readlen k readsize bytes))).2 = false → _ :=
      mystrlen_open
    simp only [stringLoop]
    generalize readlen k readsize bytes = n at hpos hdrop hopen
    rw [if_neg (Nat.ne_of_gt hpos)]
    generalize mystrlen stop (bytes.take n) = p at hopen
    obtain ⟨strlength, flag⟩ := p
    simp only at hopen ⊢
    split
    · exact ⟨_, _, rfl, hdrop⟩
    · cases flag with
      | true => exact ⟨_, _, rfl, hdrop⟩
      | false =>
        -- the terminator is behind what has been read
        have hmore : ∃ x ∈ bytes.drop n, stop x = true := by
          obtain ⟨x, hx, hxs⟩ := hstop
          rw [← List.take_append_drop n bytes] at hx
          rcases List.mem_append.1 hx with hx | hx
          · rw [(hopen rfl).2 x hx] at hxs
            cases hxs
          · exact ⟨x, hx, hxs⟩
        have hbuf : 0 < readBufSz := by decide
        obtain ⟨data, t, hloop, ht⟩ := ih hdrop hbuf hmore
        simp only [Bool.false_eq_true, if_false]
        rw [hloop]
        exact ⟨_, t, rfl, ht⟩

/-- Bytes up to the first terminator are determined by the stream. -/
theorem Terminated.unique {data' rest' : List UInt8} (h : Terminated stop data)
    (h' : Terminated stop data') (hsame : data ++ rest = data' ++ rest') : data = data' := by
  obtain ⟨front, b, rfl, hb, hfront⟩ := h
  obtain ⟨front', b', rfl, hb', hfront'⟩ := h'
  induction front generalizing front' with
  | nil =>
    cases front' with
    | nil =>
      rw [List.cons.inj hsame |>.1]
    | cons x front' =>
      have hx := (List.cons.inj hsame).1
      rw [hx, hfront' x (List.mem_cons_self ..)] at hb
      cases hb
  | cons y front ih =>
    cases front' with
    | nil =>
      have hy := (List.cons.inj hsame).1
      rw [← hy, hfront y (List.mem_cons_self ..)] at hb'
      cases hb'
    | cons x front' =>
      obtain ⟨hyx, htail⟩ := List.cons.inj hsame
      have hrest := ih (fun z hz => hfront z (List.mem_cons_of_mem _ hz)) front' htail
        fun z hz => hfront' z (List.mem_cons_of_mem _ hz)
      rw [hyx, List.cons_append, List.cons_append, hrest]

end

namespace Stream

variable {fresh : Nat → UInt8} {s t : Stream} {data rest : List UInt8} {len : Nat}

/-- What comes next on the stream, all of which arrives. -/
structure Holds (s : Stream) (bytes : List UInt8) : Prop where
  ahead : s.ahead = bytes
  delivers : s.sock.Delivers

theorem length_ahead : s.ahead.length = s.cp.len + s.sock.bytes.length := by
  unfold Stream.ahead
  rw [List.length_append, PoolConnection.length_pending]

variable (fresh) in
/-- `pool_read` of bytes that are there. -/
theorem Holds.poolRead (h : s.Holds (data ++ rest)) (hlen : data.length = len) :
    ∃ t, s.poolRead fresh len = some (data, t) ∧ t.Holds rest ∧ t.cp.bufsz2 = s.cp.bufsz2 := by
  have hall : s.cp.len + s.sock.bytes.length = data.length + rest.length := by
    rw [← length_ahead, h.ahead, List.length_append]
  have hwant : len - (s.cp.consumePendingData len).1.length ≤ s.sock.bytes.length := by
    rw [PoolConnection.length_consume]
    omega
  have hsome : ∃ more t, poolReadLoop fresh (s.cp.consumePendingData len).2 s.sock.splits s.sock.bytes
      (len - (s.cp.consumePendingData len).1.length) = some (more, t) ∧ t.sock.Delivers ∧
        t.cp.bufsz2 = (s.cp.consumePendingData len).2.bufsz2 := poolReadLoop_of_le h.delivers hwant
  obtain ⟨more, t, hloop, ht, hbuf⟩ := hsome
  have hread : s.poolRead fresh len = some ((s.cp.consumePendingData len).1 ++ more, t) := by
    unfold Stream.poolRead
    simp only [hloop]
  obtain ⟨hahead, hdata⟩ := poolRead_spec hread
  rw [h.ahead] at hahead
  obtain ⟨hsame, hrest⟩ := List.append_inj hahead (by omega)
  exact ⟨t, hsame ▸ hread, ⟨hrest.symm, ht⟩, hbuf⟩

/-- `pool_read2` of bytes that are there. -/
theorem Holds.poolRead2 (h : s.Holds (data ++ rest)) (hlen : data.length = len) :
    ∃ t, s.poolRead2 len = some (data, t) ∧ t.Holds rest ∧ (0 < s.cp.bufsz2 → 0 < t.cp.bufsz2) := by
  have hall : s.cp.len + s.sock.bytes.length = data.length + rest.length := by
    rw [← length_ahead, h.ahead, List.length_append]
  generalize hcp : (if s.cp.bufsz2 < s.cp.len + len then
    { s.cp with bufsz2 := enlarged (s.cp.len + len + 1) } else s.cp) = cp
  have hcplen : cp.len = s.cp.len := by
    rw [← hcp]
    split <;> rfl
  have hcpbuf : 0 < s.cp.bufsz2 → 0 < cp.bufsz2 := by
    intro hpos
    rw [← hcp]
    split
    · exact Nat.lt_of_le_of_lt (Nat.zero_le _) (lt_enlarged _)
    · exact hpos
  have hwant : len - (cp.consumePendingData len).1.length ≤ s.sock.bytes.length := by
    rw [PoolConnection.length_consume, hcplen]
    omega
  have hsome : ∃ more t, poolRead2Loop (cp.consumePendingData len).2 s.sock.splits s.sock.bytes
      (len - (cp.consumePendingData len).1.length) = some (more, t) ∧ t.sock.Delivers ∧
        t.cp.bufsz2 = (cp.consumePendingData len).2.bufsz2 := poolRead2Loop_of_le h.delivers hwant
  obtain ⟨more, t, hloop, ht, hbuf⟩ := hsome
  have hread : s.poolRead2 len = some ((cp.consumePendingData len).1 ++ more, t) := by
    unfold Stream.poolRead2
    simp only [hcp, hloop]
  obtain ⟨hahead, hdata⟩ := poolRead2_spec hread
  rw [h.ahead] at hahead
  obtain ⟨hsame, hrest⟩ := List.append_inj hahead (by omega)
  refine ⟨t, hsame ▸ hread, ⟨hrest.symm, ht⟩, fun hpos => ?_⟩
  rw [hbuf]
  exact hcpbuf hpos

variable (fresh) in
/-- `pool_read_string` of a string that is there. -/
theorem Holds.poolReadString {line : Bool} (h : s.Holds (data ++ rest))
    (hdata : Terminated (terminates line) data) :
    ∃ t, s.poolReadString fresh line = some (data, t) ∧ t.Holds rest := by
  have hmem : ∃ x ∈ s.ahead, terminates line x = true := by
    obtain ⟨front, b, hfront, hb, -⟩ := hdata
    refine ⟨b, ?_, hb⟩
    rw [h.ahead, hfront]
    simp
  have hbuf : 0 < readBufSz := by decide
  have hsome : ∃ data t, s.poolReadString fresh line = some (data, t) ∧ t.sock.Delivers := by
    unfold Stream.poolReadString
    simp only
    split
    · rename_i hempty
      have hahead : s.ahead = s.sock.bytes := by
        unfold Stream.ahead
        rw [PoolConnection.pending_of_empty hempty, List.nil_append]
      rw [hahead] at hmem
      refine stringLoop_of_mem h.delivers ?_ hmem
      split <;> omega
    · have hopen : (mystrlen (terminates line) s.cp.pending).2 = false → _ := mystrlen_open
      generalize mystrlen (terminates line) s.cp.pending = p at hopen
      obtain ⟨strlength, flag⟩ := p
      simp only at hopen ⊢
      cases flag with
      | true => exact ⟨_, _, rfl, h.delivers⟩
      | false =>
        have hmore : ∃ x ∈ s.sock.bytes, terminates line x = true := by
          obtain ⟨x, hx, hxs⟩ := hmem
          rcases List.mem_append.1 hx with hx | hx
          · rw [(hopen rfl).2 x hx] at hxs
            cases hxs
          · exact ⟨x, hx, hxs⟩
        -- the buffer has room for more
        have hsize : ∀ sbufsz, 0 <
            (if sbufsz < strlength + 1 then enlarged (strlength + 1) else sbufsz) - strlength := by
          intro sbufsz
          have := lt_enlarged (strlength + 1)
          split <;> omega
        generalize (if s.cp.sbufsz = 0 then readBufSz else s.cp.sbufsz) = sbufsz
        generalize hsb : (if sbufsz < strlength + 1 then enlarged (strlength + 1) else sbufsz) = sb
        have hpos : 0 < sb - strlength := hsb ▸ hsize sbufsz
        have hloop : ∃ more t, stringLoop fresh (s.cp.consumePendingData strlength).2 (terminates line)
            s.sock.splits s.sock.bytes sb strlength (sb - strlength) = some (more, t) ∧
              t.sock.Delivers := stringLoop_of_mem h.delivers hpos hmore
        obtain ⟨more, t, hloop, ht⟩ := hloop
        simp only [Bool.false_eq_true, if_false, hloop]
        exact ⟨_, t, rfl, ht⟩
  obtain ⟨data', t, hread, ht⟩ := hsome
  obtain ⟨hahead, hterm⟩ := poolReadString_spec hread
  rw [h.ahead] at hahead
  have hsame := hdata.unique hterm hahead
  subst hsame
  exact ⟨t, hread, (List.append_cancel_left hahead).symm, ht⟩

end Stream

/-! ## Messages of protocol V3 -/

/-- `htonl`. -/
def htonl (n : Nat) : List UInt8 :=
  [UInt8.ofNat (n / 2 ^ 24), UInt8.ofNat (n / 2 ^ 16), UInt8.ofNat (n / 2 ^ 8), UInt8.ofNat n]

@[simp] theorem length_htonl (n : Nat) : (htonl n).length = 4 := rfl

theorem ntohl_htonl {n : Nat} (h : n < 2 ^ 32) : ntohl (htonl n) = n := by
  simp only [ntohl, htonl, List.foldl_cons, List.foldl_nil, UInt8.toNat_ofNat']
  omega

/-- A message: its kind and its contents, whose size fits into the length word. -/
structure WireMessage where
  kind : UInt8
  contents : List UInt8
  fits : contents.length + 4 < 2 ^ 31

namespace WireMessage

variable (m : WireMessage)

/-- The length word. -/
def word : List UInt8 := htonl (m.contents.length + 4)

/-- The bytes after the kind. -/
def body : List UInt8 := m.word ++ m.contents

/-- The bytes of the message. -/
def bytes : List UInt8 := m.kind :: m.body

@[simp] theorem length_word : m.word.length = 4 := rfl

theorem contentsSize_word : contentsSize m.word = some m.contents.length := by
  have hfits := m.fits
  unfold contentsSize word
  rw [ntohl_htonl (by omega), if_pos (by omega)]
  simp

end WireMessage

/-- The bytes of some messages. -/
def wire (messages : List WireMessage) : List UInt8 := messages.flatMap WireMessage.bytes

@[simp] theorem wire_nil : wire [] = [] := rfl

@[simp] theorem wire_cons (m : WireMessage) (messages : List WireMessage) :
    wire (m :: messages) = m.bytes ++ wire messages := List.flatMap_cons

@[simp] theorem wire_append (messages messages' : List WireMessage) :
    wire (messages ++ messages') = wire messages ++ wire messages' := List.flatMap_append

theorem length_le_wire (messages : List WireMessage) : messages.length ≤ (wire messages).length := by
  induction messages with
  | nil => exact Nat.le_refl _
  | cons m messages ih =>
    rw [wire_cons, List.length_append, List.length_cons, WireMessage.bytes, List.length_cons]
    omega

end PgPool
