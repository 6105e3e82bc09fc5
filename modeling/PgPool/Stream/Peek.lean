import Mathlib.Algebra.Ring.Int.Defs
import Mathlib.Algebra.Ring.Nat
import PgPool.Session.Context
import PgPool.Stream.Fidelity

/-!
# Looking at an error message

`detect_error` and `pool_extract_error_message` read a message from a backend into a buffer of 8192
bytes and push it back.  A message that does not fit is not pushed back.
-/

namespace PgPool

/-- The size of the unread buffers. -/
def peekBufSz : Nat := 8192

/-- `ntohl` of the four bytes of a length word. -/
def ntohl (bytes : List UInt8) : Nat := bytes.foldl (fun n b => n * 256 + b.toNat) 0

/-- The size of the contents after a length word.  `malloc` refuses what is negative as an `int`. -/
def contentsSize (word : List UInt8) : Option Nat :=
  if 4 ≤ ntohl word ∧ ntohl word < 2 ^ 31 + 4 then some (ntohl word - 4) else none

/-- The string up to a null character. -/
def cString (bytes : List UInt8) : List UInt8 := bytes.takeWhile (· != 0)

/-- The field of an error message whose type is `code`; `start` tells whether a field begins here. -/
def findField (code : UInt8) : Bool → List UInt8 → Option (List UInt8)
  | _, [] => none
  | true, b :: rest =>
      if b = 0 then none
      else if b = code then some (cString rest)
      else findField code false rest
  | false, b :: rest => findField code (b == 0) rest

/-- What `detect_error` returns: `SPECIFIED_ERROR`, 0 or `POOL_END`. -/
inductive DetectResult where
  | specifiedError | noError | poolEnd
  deriving DecidableEq, Repr

/-- What `pool_extract_error_message` returns: 0, 1 with a message, or -1.  The message buffer is
static and keeps what it had where a packet of protocol V3 has no message field. -/
inductive ExtractResult where
  | notMessage
  | extracted (message : Option (List UInt8))
  | failed
  deriving DecidableEq, Repr

/-- A message after its kind: the length word, which only protocol V3 has, and the contents. -/
structure Packet where
  word : List UInt8
  str : List UInt8

/-- The bytes of a packet. -/
def Packet.bytes (p : Packet) : List UInt8 := p.word ++ p.str

namespace Stream

section

variable (fresh fresh' : Nat → UInt8) (major : Proto) (s : Stream)

/-- The part of both functions that reads the actual message.  No packet is returned where `malloc`
fails. -/
def readPacket : Option (Option Packet × Stream) :=
  match major with
  | .v3 =>
      match s.poolRead fresh 4 with
      | none => none
      | some (word, s) =>
          match contentsSize word with
          | none => some (none, s)
          | some len =>
              match s.poolRead fresh len with
              | none => none
              | some (str, s) => some (some ⟨word, str⟩, s)
  | .v2 =>
      match s.poolReadString fresh false with
      | none => none
      | some (str, s) => some (some ⟨[], str⟩, s)

/-- The message is put back unless it is the error that was looked for, and not to be kept. -/
def putBack (unread : Bool) (result : DetectResult) (data : List UInt8) : DetectResult × Stream :=
  if unread || result == .noError then (result, s.poolUnread fresh' data) else (result, s)

/-- `detect_error`; the message is put back into memory as `fresh'` has it.  In protocol V2 no error
code is looked at. -/
def detectError (errorCode : List UInt8) (cls : UInt8) (unread : Bool) :
    Option (DetectResult × Stream) :=
  match s.poolRead fresh 1 with
  | none => none
  | some (kind, s) =>
      if kind = [cls] then
        match s.readPacket fresh major with
        | none => none
        | some (none, s) => some (.poolEnd, s)
        | some (some p, s) =>
            if peekBufSz ≤ 1 + p.bytes.length then some (.poolEnd, s)
            else
              let result :=
                if major = .v3 ∧ findField 67 true p.str = some errorCode then
                  DetectResult.specifiedError
                else .noError
              some (s.putBack fresh' unread result (kind ++ p.bytes))
      else some (s.putBack fresh' unread .noError kind)

/-- `pool_extract_error_message` after the kind, if that is read at all. -/
def extractPacket (kind : List UInt8) (unread : Bool) : Option (ExtractResult × Stream) :=
  match s.readPacket fresh major with
  | none => none
  | some (none, s) => some (.failed, s)
  | some (some p, s) =>
      -- in protocol V2 the string is cut to the size of the message buffer
      let str := if major = .v2 then p.str.take (peekBufSz - 1) else p.str
      if peekBufSz ≤ kind.length + p.word.length + str.length then some (.failed, s)
      else
        let message :=
          match major with
          | .v3 => (findField 77 true p.str).map fun m => m.take (peekBufSz - 1)
          | .v2 => some (cString str)
        let s := if unread then s.poolUnread fresh' (kind ++ p.word ++ str) else s
        some (.extracted message, s)

/-- `pool_extract_error_message`. -/
def poolExtractErrorMessage (readKind : Bool) (unread : Bool) : Option (ExtractResult × Stream) :=
  if readKind then
    match s.poolRead fresh 1 with
    | none => none
    | some (kind, s) =>
        if kind ≠ [69] ∧ kind ≠ [78] then some (.notMessage, s.poolUnread fresh' kind)
        else s.extractPacket fresh fresh' major kind unread
  else s.extractPacket fresh fresh' major [] unread

/-! ## The message that is looked at -/

/-- The bytes that a look takes from the stream, where all of them arrive and the length word is one
of a message: the kind alone if it is not one that `reads` goes on with. -/
def message (reads : UInt8 → Bool) : Option (List UInt8 × Stream) :=
  match s.poolRead fresh 1 with
  | none => none
  | some (kind, s) =>
      if kind.any reads then
        match s.readPacket fresh major with
        | some (some p, s) => some (kind ++ p.bytes, s)
        | _ => none
      else some (kind, s)

/-- The same, where the kind has been read before. -/
def restOfMessage : Option (List UInt8 × Stream) :=
  match s.readPacket fresh major with
  | some (some p, s) => some (p.bytes, s)
  | _ => none

end

variable {fresh fresh' : Nat → UInt8} {major : Proto} {s t u : Stream} {data : List UInt8}
  {p : Packet}

theorem readPacket_spec (h : s.readPacket fresh major = some (some p, t)) :
    s.ahead = p.bytes ++ t.ahead ∧ p.str.length ≤ p.bytes.length ∧
      (major = .v2 → p.word = [] ∧ p.str ≠ []) ∧ p.bytes ≠ [] := by
  unfold readPacket at h
  cases major with
  | v3 =>
    simp only at h
    split at h
    · cases h
    · rename_i word a ha
      obtain ⟨hword, hlen⟩ := poolRead_spec ha
      generalize contentsSize word = size at h
      cases size with
      | none => cases h
      | some len =>
        simp only at h
        split at h
        · cases h
        · rename_i str b hb
          cases h
          obtain ⟨hstr, -⟩ := poolRead_spec hb
          refine ⟨?_, ?_, by simp, ?_⟩
          · unfold Packet.bytes
            rw [hword, hstr, List.append_assoc]
          · simp [Packet.bytes]
          · intro hnil
            have hword' : word = [] := (List.append_eq_nil_iff.1 hnil).1
            rw [hword'] at hlen
            cases hlen
  | v2 =>
    simp only at h
    split at h
    · cases h
    · rename_i str a ha
      cases h
      obtain ⟨hstr, front, b, hfront, -, -⟩ := poolReadString_spec ha
      have hne : str ≠ [] := by
        rw [hfront]
        simp
      exact ⟨hstr, Nat.le_refl _, fun _ => ⟨rfl, hne⟩, hne⟩

/-- The bytes that follow are those that would have followed without the call, whatever is in the
fresh memory. -/
def Invisible (look : (Nat → UInt8) → Option Stream) (s : Stream) : Prop :=
  ∀ fresh' t, look fresh' = some t → t.ahead = s.ahead

variable {look : (Nat → UInt8) → Option Stream} {kind : List UInt8} {a : Stream}

/-- A look that reads some bytes and puts them back if there is room for them. -/
theorem invisible_iff (hread : s.ahead = data ++ u.ahead)
    (hroom : data.length < peekBufSz → ∀ fresh', look fresh' = some (u.poolUnread fresh' data))
    (hfull : peekBufSz ≤ data.length → ∃ fresh' t, look fresh' = some t ∧
      t.ahead.length < s.ahead.length) :
    Invisible look s ↔ data.length < peekBufSz ∧ u.cp.KeepsPending data.length := by
  constructor
  · intro h
    have hlt : data.length < peekBufSz := by
      by_contra hge
      obtain ⟨fresh', t, ht, hlen⟩ := hfull (Nat.le_of_not_lt hge)
      rw [h fresh' t ht] at hlen
      exact Nat.lt_irrefl _ hlen
    refine ⟨hlt, ?_⟩
    by_contra hcut
    obtain ⟨fresh', hlost⟩ := PoolConnection.pending_poolUnread_ne hcut
    have hsame := h fresh' _ (hroom hlt fresh')
    rw [hread] at hsame
    apply hlost
    change (u.cp.poolUnread fresh' data).pending ++ u.sock.bytes =
      data ++ (u.cp.pending ++ u.sock.bytes) at hsame
    rw [← List.append_assoc] at hsame
    exact List.append_cancel_right hsame
  · intro h fresh' t ht
    obtain ⟨hlt, hkeep⟩ := h
    obtain rfl := Option.some.inj (ht.symm.trans (hroom hlt fresh'))
    rw [ahead_poolUnread hkeep, hread]

/-- Bytes that are not put back are missing. -/
theorem length_lt_of_read (hread : s.ahead = data ++ u.ahead) (hne : data ≠ []) :
    u.ahead.length < s.ahead.length := by
  have hpos := List.length_pos_iff.2 hne
  rw [hread, List.length_append]
  omega

theorem length_ahead_poolUnread :
    (s.poolUnread fresh data).ahead.length = data.length + s.ahead.length := by
  have hlen : (s.cp.poolUnread fresh data).len = s.cp.len + data.length := by
    unfold PoolConnection.poolUnread
    split <;> rfl
  unfold ahead
  rw [List.length_append, List.length_append, PoolConnection.length_pending]
  change (s.cp.poolUnread fresh data).len + s.sock.bytes.length = _
  rw [hlen, PoolConnection.length_pending]
  omega

theorem one_lt_peekBufSz : 1 < peekBufSz := by decide

/-! ## The two functions -/

/-- A look at the next message. -/
inductive Peek where
  | detectError (errorCode : List UInt8) (cls : UInt8)
  | extractErrorMessage (readKind : Bool)

/-- The call, which puts the message back. -/
def Peek.call (fresh : Nat → UInt8) (major : Proto) (s : Stream) (fresh' : Nat → UInt8) :
    Peek → Option Stream
  | .detectError errorCode cls => (s.detectError fresh fresh' major errorCode cls true).map Prod.snd
  | .extractErrorMessage readKind =>
      (s.poolExtractErrorMessage fresh fresh' major readKind true).map Prod.snd

/-- The bytes that the call takes from the stream, where they all arrive and the length word is that
of a message, and the stream behind them. -/
def Peek.message (fresh : Nat → UInt8) (major : Proto) (s : Stream) :
    Peek → Option (List UInt8 × Stream)
  | .detectError _ cls => s.message fresh major fun k => k == cls
  | .extractErrorMessage true => s.message fresh major fun k => k == 69 || k == 78
  | .extractErrorMessage false => s.restOfMessage fresh major

/-- A message whose kind alone is read. -/
theorem invisible_kind {k : UInt8} (hkind : s.ahead = [k] ++ a.ahead)
    (hcall : ∀ fresh', look fresh' = some (a.poolUnread fresh' [k])) :
    Invisible look s ↔ [k].length < peekBufSz ∧ a.cp.KeepsPending [k].length :=
  invisible_iff hkind (fun _ => hcall) fun hge => absurd hge (Nat.not_le_of_lt one_lt_peekBufSz)

/-- `detect_error` after a kind of the class it looks for. -/
theorem invisible_detectPacket {k : UInt8} {errorCode : List UInt8}
    (hk : s.poolRead fresh 1 = some ([k], a)) (hp : a.readPacket fresh major = some (some p, u)) :
    Invisible (fun fresh' => (Peek.detectError errorCode k).call fresh major s fresh') s ↔
      ([k] ++ p.bytes).length < peekBufSz ∧ u.cp.KeepsPending ([k] ++ p.bytes).length := by
  obtain ⟨hpacket, -, -, -⟩ := readPacket_spec hp
  have hread : s.ahead = ([k] ++ p.bytes) ++ u.ahead := by
    rw [(poolRead_spec hk).1, hpacket, List.append_assoc]
  have hlen : ([k] ++ p.bytes).length = 1 + p.bytes.length := List.length_append
  refine invisible_iff hread ?_ ?_
  · intro hlt fresh'
    have hroom : ¬ peekBufSz ≤ 1 + p.bytes.length := by omega
    simp only [Peek.call, Stream.detectError, hk, hp, if_true, if_neg hroom]
    rfl
  · intro hge
    have hroom : peekBufSz ≤ 1 + p.bytes.length := by omega
    refine ⟨fun _ => 0, u, ?_, length_lt_of_read hread (by simp)⟩
    simp only [Peek.call, Stream.detectError, hk, hp, if_true, if_pos hroom]
    rfl

/-- `pool_extract_error_message` after a kind of one byte or none. -/
theorem invisible_extractPacket (hkind : kind.length ≤ 1) (hread : s.ahead = kind ++ a.ahead)
    (hp : a.readPacket fresh major = some (some p, u))
    (hcall : ∀ fresh', look fresh' =
      (a.extractPacket fresh fresh' major kind true).map Prod.snd) :
    Invisible look s ↔ (kind ++ p.bytes).length < peekBufSz ∧
      u.cp.KeepsPending (kind ++ p.bytes).length := by
  obtain ⟨hpacket, -, hv2, hbytes⟩ := readPacket_spec hp
  have hall : s.ahead = (kind ++ p.bytes) ++ u.ahead := by
    rw [hread, hpacket, List.append_assoc]
  have hlen : (kind ++ p.bytes).length = kind.length + p.word.length + p.str.length := by
    unfold Packet.bytes
    rw [List.length_append, List.length_append, Nat.add_assoc]
  have hne : kind ++ p.bytes ≠ [] := fun h => hbytes (List.append_eq_nil_iff.1 h).2
  refine invisible_iff hall ?_ ?_
  · intro hlt fresh'
    have hstr : (if major = .v2 then p.str.take (peekBufSz - 1) else p.str) = p.str := by
      split
      · exact List.take_of_length_le (by omega)
      · rfl
    have hroom : ¬ peekBufSz ≤ kind.length + p.word.length + p.str.length := by omega
    rw [hcall]
    simp only [extractPacket, hp, hstr, if_neg hroom, if_true, List.append_assoc]
    rfl
  · intro hge
    cases major with
    | v3 =>
      have hroom : peekBufSz ≤ kind.length + p.word.length + p.str.length := by omega
      refine ⟨fun _ => 0, u, ?_, length_lt_of_read hall hne⟩
      rw [hcall]
      simp [extractPacket, hp, hroom]
    | v2 =>
      have hword := (hv2 rfl).1
      rw [hlen, hword, List.length_nil] at hge
      have htake : (p.str.take (peekBufSz - 1)).length = peekBufSz - 1 := by
        rw [List.length_take]
        omega
      by_cases hk : kind = []
      · -- the string is cut, and so is what is put back
        have hroom : ¬ peekBufSz ≤ peekBufSz - 1 := by decide
        refine ⟨fun _ => 0, u.poolUnread (fun _ => 0) (p.str.take (peekBufSz - 1)), ?_, ?_⟩
        · rw [hcall]
          simp only [extractPacket, hp, hk, hword, htake, if_true, List.length_nil, Nat.zero_add,
            if_neg hroom, List.nil_append]
          rfl
        · rw [hk, List.length_nil] at hge
          have := one_lt_peekBufSz
          rw [length_ahead_poolUnread, htake, hall, List.length_append, hlen, hk, hword,
            List.length_nil]
          omega
      · have hone : kind.length = 1 := by
          have := List.length_pos_iff.2 hk
          omega
        have hroom : peekBufSz ≤ 1 + (peekBufSz - 1) := by decide
        refine ⟨fun _ => 0, u, ?_, length_lt_of_read hall hne⟩
        rw [hcall]
        simp only [extractPacket, hp, hword, htake, hone, if_true, List.length_nil, Nat.add_zero,
          if_pos hroom]
        rfl

/-- **Peeking** goes unnoticed exactly if the message that is read fits into the buffer, and putting it
back cuts off no pending bytes. -/
theorem peek_invisible_iff {peek : Peek} (hmessage : peek.message fresh major s = some (data, u)) :
    Invisible (fun fresh' => peek.call fresh major s fresh') s ↔
      data.length < peekBufSz ∧ u.cp.KeepsPending data.length := by
  -- a kind is read first, unless that has been done before
  have hfirst : ∀ (reads : UInt8 → Bool), s.message fresh major reads = some (data, u) →
      ∃ k b, s.poolRead fresh 1 = some ([k], b) ∧ s.ahead = [k] ++ b.ahead ∧
        ((reads k = true ∧ ∃ p, b.readPacket fresh major = some (some p, u) ∧ data = [k] ++ p.bytes) ∨
          (reads k = false ∧ data = [k] ∧ u = b)) := by
    intro reads h
    unfold Stream.message at h
    cases hk : s.poolRead fresh 1 with
    | none => simp [hk] at h
    | some q =>
      obtain ⟨kind, b⟩ := q
      obtain ⟨hkind, hone⟩ := poolRead_spec hk
      obtain ⟨k, rfl⟩ := List.length_eq_one_iff.1 hone
      simp only [hk, List.any_cons, List.any_nil, Bool.or_false] at h
      refine ⟨k, b, rfl, hkind, ?_⟩
      cases hreads : reads k with
      | true =>
        rw [hreads, if_pos rfl] at h
        split at h
        · rename_i p c hp
          cases h
          exact Or.inl ⟨rfl, p, hp, rfl⟩
        · cases h
      | false =>
        rw [hreads] at h
        cases h
        exact Or.inr ⟨rfl, rfl, rfl⟩
  cases peek with
  | detectError errorCode cls =>
    obtain ⟨k, b, hk, hkind, ⟨hreads, p, hp, rfl⟩ | ⟨hreads, rfl, rfl⟩⟩ := hfirst _ hmessage
    · obtain rfl : k = cls := by simpa using hreads
      exact invisible_detectPacket hk hp
    · refine invisible_kind hkind fun fresh' => ?_
      have hother : ([k] : List UInt8) ≠ [cls] := by simpa using hreads
      simp only [Peek.call, Stream.detectError, hk, if_neg hother]
      rfl
  | extractErrorMessage readKind =>
    cases readKind with
    | true =>
      obtain ⟨k, b, hk, hkind, ⟨hreads, p, hp, rfl⟩ | ⟨hreads, rfl, rfl⟩⟩ := hfirst _ hmessage
      · have hread : ¬ (([k] : List UInt8) ≠ [69] ∧ ([k] : List UInt8) ≠ [78]) := by
          intro ⟨h, h'⟩
          simp_all
        refine invisible_extractPacket (Nat.le_refl _) hkind hp fun fresh' => ?_
        simp only [Peek.call, poolExtractErrorMessage, hk, if_true, if_neg hread]
      · have hother : ([k] : List UInt8) ≠ [69] ∧ ([k] : List UInt8) ≠ [78] := by simpa using hreads
        refine invisible_kind hkind fun fresh' => ?_
        simp only [Peek.call, poolExtractErrorMessage, hk, if_true, if_pos hother]
        rfl
    | false =>
      unfold Peek.message restOfMessage at hmessage
      simp only at hmessage
      split at hmessage
      · rename_i p b hp
        cases hmessage
        have hnil : ([] : List UInt8).length ≤ 1 := Nat.zero_le 1
        exact invisible_extractPacket hnil (List.nil_append s.ahead).symm hp fun _ => rfl
      · cases hmessage

/-- A connection on which an error message arrives: its code is that of a deadlock, and its text has
some bytes. -/
def errorArrives (textSize : Nat) (word splits : List Nat) : Stream where
  cp := .opened fun _ => 0
  sock := {
    bytes := 69 :: word.map UInt8.ofNat ++ [67, 52, 48, 80, 48, 49, 0, 77] ++
      List.replicate textSize 65 ++ [0, 0]
    splits := splits }

/-- A short message is pushed back. -/
theorem shortError_invisible :
    Invisible (fun fresh' => (Peek.detectError [52, 48, 80, 48, 49] 69).call (fun _ => 0) .v3
      (errorArrives 2 [0, 0, 0, 16] [99]) fresh') (errorArrives 2 [0, 0, 0, 16] [99]) := by
  have hsome : ((Peek.detectError [52, 48, 80, 48, 49] 69).message (fun _ => 0) .v3
      (errorArrives 2 [0, 0, 0, 16] [99])).any
        (fun p => decide (p.1.length < peekBufSz ∧ p.2.cp.KeepsPending p.1.length)) = true := by
    decide +kernel
  obtain ⟨p, hp, hfits⟩ := (Option.any_eq_true _ _).1 hsome
  exact (peek_invisible_iff hp).2 (of_decide_eq_true hfits)

/-- A message of 8192 bytes is lost. -/
theorem longError_not_invisible :
    (errorArrives 8177 [0, 0, 31, 255] (List.replicate 8 1023)).ahead.length = 8192 ∧
      ¬ Invisible (fun fresh' => (Peek.detectError [52, 48, 80, 48, 49] 69).call (fun _ => 0) .v3
        (errorArrives 8177 [0, 0, 31, 255] (List.replicate 8 1023)) fresh')
        (errorArrives 8177 [0, 0, 31, 255] (List.replicate 8 1023)) := by
  have hlen : (errorArrives 8177 [0, 0, 31, 255] (List.replicate 8 1023)).ahead.length = 8192 := by
    decide +kernel
  refine ⟨hlen, fun h => ?_⟩
  have hlost : ((Peek.detectError [52, 48, 80, 48, 49] 69).call (fun _ => 0) .v3
      (errorArrives 8177 [0, 0, 31, 255] (List.replicate 8 1023)) fun _ => 0).any
        (fun t => t.ahead.length == 0) = true := by
    decide +kernel
  obtain ⟨t, ht, hzero⟩ := (Option.any_eq_true _ _).1 hlost
  have hsame := congrArg List.length (h _ t ht)
  rw [hlen, beq_iff_eq.1 hzero] at hsame
  cases hsame

end Stream

end PgPool
