import PgPool.Auth.Child

/-!
# What authentication depends on

The result of the calls for one client is a function of what the client and the backends send in it:
whatever the static variables hold before, the call for the master replaces.
-/

namespace PgPool.Auth

/-! ## The packet of a client -/

/-- The packet that a client has sent, its size word and its password, unless it is too long. -/
def Login.packet (l : Login) : Option (List UInt8 × List UInt8) :=
  match readKind l with
  | none => none
  | some rest =>
    let len := passwordLen (rest.take 4)
    if rest.length < 4 ∨ maxPasswordSize < len ∨ (rest.drop 4).length < len then none
    else some (rest.take 4, (rest.drop 4).take len)

/-- The bytes of the salt that come with each kind of request. -/
def saltLen : Nat → Nat
  | 4 => 2
  | 5 => 4
  | _ => 0

/-- The password that the file vouches for: the packet of the client is its digest under the fresh
salt. -/
def Login.vouched (cfg : Config) (l : Login) : Option (List UInt8) :=
  match (l.username cfg).bind cfg.poolGetPasswd, l.packet with
  | some passwd, some (_, body) =>
    if body ≠ [] ∧ cString body = cString (encrypted cfg passwd l.salt) then some passwd else none
  | _, _ => none

/-- The credentials that a client presents to a node. -/
def Login.credential (cfg : Config) (l : Login) (asked i : Nat) : Option (List UInt8) :=
  match asked with
  | 5 =>
    if 1 < cfg.numBackends then
      (l.vouched cfg).map fun passwd => md5Packet l (encrypted cfg passwd ((l.rest i).take 4))
    else
      match l.packet with
      | none => none
      | some (_, body) => if body = [] then none else some (md5Packet l body)
  | _ => l.packet.map fun (word, body) => l.packetKind ++ word ++ body

/-- The nodes for which the client is told that it is authenticated. -/
def told (cfg : Config) (l : Login) (asked i : Nat) : Bool :=
  i = l.master ∨ asked = 4 ∨ (asked = 5 ∧ cfg.numBackends ≤ 1)

/-- What a node answers to the credentials of a client, or -1 where it does not come to that. -/
def Login.answered (cfg : Config) (l : Login) (asked i : Nat) : Int :=
  match l.credential cfg asked i with
  | none => -1
  | some packet =>
    if (l.rest i).length < saltLen asked then -1
    else if l.exchange i (saltLen asked) packet = 0 then
      if told cfg l asked i = true ∧ l.sends i = false then -1 else 0
    else l.exchange i (saltLen asked) packet

/-- What the calls for a node return; `do_md5` returns -1 for every failure. -/
def Login.outcome (cfg : Config) (l : Login) (asked i : Nat) : Int :=
  if asked = 5 then max (l.answered cfg asked i) (-1) else l.answered cfg asked i

/-- The connection of a node that has accepted the credentials. -/
def Login.saved (cfg : Config) (l : Login) (asked i : Nat) (conn : Conn) : Conn :=
  if asked = 5 ∧ 1 < cfg.numBackends then { conn with authKind := 5 }
  else
    match l.packet with
    | none => conn
    | some (_, body) => { conn with
        authKind := asked
        pwdSize := body.length
        password := overwrite conn.password body
        salt := overwrite conn.salt ((l.rest i).take (saltLen asked)) }

variable {cfg : Config} {l : Login} {asked i : Nat}

/-! ## Reading it -/

/-- The packet has come in full: its size word, its password, and what follows. -/
theorem readKind_of_packet {w b : List UInt8} (h : l.packet = some (w, b)) :
    ∃ rest, readKind l = some rest ∧ 4 ≤ rest.length ∧ rest.take 4 = w ∧
      passwordLen w = b.length ∧ b.length ≤ maxPasswordSize ∧ b.length ≤ (rest.drop 4).length ∧
      (rest.drop 4).take b.length = b := by
  unfold Login.packet at h
  split at h
  · cases h
  · rename_i rest hkind
    simp only [ite_eq_iff, reduceCtorEq, and_false, false_or, not_or, Nat.not_lt, Option.some.injEq,
      Prod.mk.injEq] at h
    obtain ⟨⟨hfour, hmax, hall⟩, rfl, rfl⟩ := h
    have hlen : ((rest.drop 4).take (passwordLen (rest.take 4))).length
        = passwordLen (rest.take 4) := by
      rw [List.length_take]
      omega
    rw [hlen]
    exact ⟨rest, hkind, hfour, rfl, rfl, hmax, hall, rfl⟩

/-- There is no packet because nothing comes, its size is cut off, it is too long, or it is cut off. -/
theorem readKind_of_packet_none (h : l.packet = none) :
    readKind l = none ∨ ∃ rest, readKind l = some rest ∧ (rest.length < 4 ∨
      maxPasswordSize < passwordLen (rest.take 4) ∨
      (rest.drop 4).length < passwordLen (rest.take 4)) := by
  unfold Login.packet at h
  split at h
  · left
    assumption
  · rename_i rest hkind
    simp only [ite_eq_left_iff, reduceCtorEq, imp_false, not_not] at h
    exact .inr ⟨rest, hkind, h⟩

/-- The static variables hold a packet. -/
def Holds (st : Static) (w b : List UInt8) : Prop :=
  st.size = w ∧ passwordLen w = b.length ∧ st.password.take b.length = b

theorem overwrite_take {buf data : List UInt8} : (overwrite buf data).take data.length = data := by
  simp [overwrite]

theorem size_readSize (st : Static) {rest : List UInt8} (h : 4 ≤ rest.length) :
    (st.readSize rest).size = rest.take 4 := by
  have hlen : (rest.take 4).length = 4 := by
    rw [List.length_take]
    omega
  show (rest.take 4) ++ st.size.drop (rest.take 4).length = rest.take 4
  rw [hlen, List.drop_eq_nil_of_le (Nat.le_of_eq st.size_length), List.append_nil]

theorem readPassword_none (h : l.packet = none) (st : Static) : (readPassword l st).1 = false := by
  unfold readPassword
  obtain hkind | ⟨rest, hkind, hlen⟩ := readKind_of_packet_none h
  · rw [hkind]
  · rw [hkind]
    by_cases hshort : rest.length < 4
    · simp only [if_pos hshort]
    · simp only [if_neg hshort, size_readSize st (Nat.not_lt.mp hshort)]
      split
      · rfl
      · simp only [decide_eq_false_iff_not, Nat.not_le]
        omega

theorem readPassword_some {w b : List UInt8} (h : l.packet = some (w, b)) (st : Static) :
    ∃ st', readPassword l st = (true, st') ∧ Holds st' w b := by
  obtain ⟨rest, hkind, hfour, rfl, hlen, hmax, hall, hbody⟩ := readKind_of_packet h
  unfold readPassword
  rw [hkind]
  simp only [if_neg (Nat.not_lt.mpr hfour), size_readSize st hfour, hlen, gt_iff_lt,
    if_neg (Nat.not_lt.mpr hmax), hbody, decide_eq_true hall]
  exact ⟨_, rfl, rfl, hlen, overwrite_take⟩

theorem toInt_of_lt {n : Nat} (h : n < 2 ^ 31) : toInt n = n := if_pos h

theorem passwordLen_lt (w : List UInt8) : passwordLen w < 2 ^ 32 := Nat.mod_lt _ (by omega)

/-- A size that is accepted is what it is as an unsigned number. -/
theorem toInt_accepted {n : Nat} (hn : n < 2 ^ 32) (hmax : ¬ (maxPasswordSize : Int) < toInt n)
    (hpos : ¬ toInt n ≤ 0) : toInt n = n ∧ 0 < n ∧ n ≤ maxPasswordSize := by
  by_cases hlt : n < 2 ^ 31
  · have hint : toInt n = n := if_pos hlt
    rw [hint] at hmax hpos ⊢
    refine ⟨rfl, ?_, ?_⟩
    · omega
    · exact Int.ofNat_le.mp (Int.not_lt.mp hmax)
  · have hint : toInt n = n - 2 ^ 32 := if_neg hlt
    rw [hint] at hpos
    omega

theorem readPasswordPacket_none (h : l.packet = none ∨ ∃ w, l.packet = some (w, []))
    (st : Md5Static) :
    ∃ st', readPasswordPacket l st = (false, st') ∧ st'.overrun = st.overrun := by
  have hshort : readKind l = none ∨ ∃ rest, readKind l = some rest ∧ (rest.length < 4 ∨
      maxPasswordSize < passwordLen (rest.take 4) ∨ passwordLen (rest.take 4) = 0 ∨
      (rest.drop 4).length < passwordLen (rest.take 4)) := by
    obtain h | ⟨w, h⟩ := h
    · obtain hkind | ⟨rest, hkind, hlen⟩ := readKind_of_packet_none h
      · exact .inl hkind
      · obtain hfour | hmax | hall := hlen
        · exact .inr ⟨rest, hkind, .inl hfour⟩
        · exact .inr ⟨rest, hkind, .inr (.inl hmax)⟩
        · exact .inr ⟨rest, hkind, .inr (.inr (.inr hall))⟩
    · obtain ⟨rest, hkind, _, rfl, hlen, _⟩ := readKind_of_packet h
      exact .inr ⟨rest, hkind, .inr (.inr (.inl hlen))⟩
  unfold readPasswordPacket
  obtain hkind | ⟨rest, hkind, hlen⟩ := hshort
  · rw [hkind]
    exact ⟨st, rfl, rfl⟩
  · rw [hkind]
    by_cases hfour : rest.length < 4
    · simp only [if_pos hfour]
      exact ⟨st, rfl, rfl⟩
    simp only [if_neg hfour]
    have hlt := passwordLen_lt (rest.take 4)
    generalize passwordLen (rest.take 4) = n at *
    by_cases hmax : (maxPasswordSize : Int) < toInt n
    · simp only [if_pos hmax]
      exact ⟨_, rfl, rfl⟩
    simp only [if_neg hmax]
    by_cases hpos : toInt n ≤ 0
    · simp only [if_pos hpos]
      exact ⟨_, rfl, rfl⟩
    simp only [if_neg hpos]
    obtain ⟨hint, hzero, hle⟩ := toInt_accepted hlt hmax hpos
    have hcut : ((rest.drop 4).take n).length < n := by
      rw [List.length_take]
      obtain hlen | hlen | hlen | hlen := hlen
      · exact absurd hlen hfour
      · exact absurd hlen (Nat.not_lt.mpr hle)
      · exact absurd hlen (Nat.ne_of_gt hzero)
      · exact Nat.lt_of_le_of_lt (Nat.min_le_right _ _) hlen
    rw [hint, Int.toNat_natCast, if_pos hcut]
    exact ⟨_, rfl, rfl⟩

theorem readPasswordPacket_some {w b : List UInt8} (h : l.packet = some (w, b)) (hb : b ≠ [])
    (st : Md5Static) :
    readPasswordPacket l st = (true, {
      size := b.length
      password := overwrite st.password (b ++ [0])
      overrun := st.overrun || b.length == maxPasswordSize }) := by
  obtain ⟨rest, hkind, hfour, rfl, hlen, hmax, _, hbody⟩ := readKind_of_packet h
  have hpos := List.length_pos_iff.mpr hb
  have hint : toInt b.length = b.length := toInt_of_lt (by simp only [maxPasswordSize] at hmax; omega)
  have hbeq : ((b.length : Int) == (maxPasswordSize : Int)) = (b.length == maxPasswordSize) := by
    rw [Bool.eq_iff_iff, beq_iff_eq, beq_iff_eq, Int.ofNat_inj]
  unfold readPasswordPacket
  rw [hkind]
  simp only [if_neg (Nat.not_lt.mpr hfour), hlen, hint, Int.toNat_natCast, hbody]
  rw [if_neg (by omega), if_neg (by omega), if_neg (by omega), hbeq]

theorem cString_append_zero (b t : List UInt8) : cString (b ++ 0 :: t) = cString b := by
  unfold cString
  induction b with
  | nil => rfl
  | cons x b ih =>
    rw [List.cons_append, List.takeWhile_cons, List.takeWhile_cons, ih]

theorem cString_overwrite (buf b : List UInt8) : cString (overwrite buf (b ++ [0])) = cString b := by
  rw [overwrite, List.append_assoc]
  exact cString_append_zero b _

/-! ## The calls for a node -/

/-- What a call for a node does: its result does not depend on the static variables, if the call for
the master went before.  `I` holds of the static variables all along, `R` once the packet is read. -/
def Settles (cfg : Config) (l : Login) (asked : Nat) {τ : Type} (I R : τ → Prop)
    (act : Nat → Conn → τ → Int × Conn × τ) : Prop :=
  ∀ i conn st, I st → i = l.master ∨ R st →
    ∃ st', act i conn st = (l.outcome cfg asked i,
        if l.outcome cfg asked i = 0 then l.saved cfg asked i conn else conn, st') ∧
      I st' ∧ (0 ≤ l.outcome cfg asked i → R st')

/-- The static variables hold the packet of a client. -/
def Read (l : Login) (st : Static) : Prop := ∃ w b, l.packet = some (w, b) ∧ Holds st w b

theorem sendPassword_eq {s : Scheme} {conn : Conn} {st : Static} {w b : List UInt8}
    (hkind : s.kind = 3 ∧ s.everyNode = false ∨ s.kind = 4 ∧ s.everyNode = true)
    (hsalt : s.saltLen = saltLen s.kind) (hp : l.packet = some (w, b)) (hst : Holds st w b)
    (hrest : s.saltLen ≤ (l.rest i).length) :
    sendPassword s l i conn st = (l.outcome cfg s.kind i,
      if l.outcome cfg s.kind i = 0 then l.saved cfg s.kind i conn else conn) := by
  obtain ⟨rfl, hlen, hbody⟩ := hst
  have hfive : s.kind ≠ 5 := by omega
  have hcred : l.credential cfg s.kind i = some (l.packetKind ++ st.size ++ b) := by
    simp only [Login.credential, hp, Option.map_some]
  have htold : told cfg l s.kind i = true ↔ i = l.master ∨ s.everyNode = true := by
    unfold told
    rw [decide_eq_true_iff]
    obtain ⟨hk, he⟩ | ⟨hk, he⟩ := hkind <;> simp [hk, he]
  unfold sendPassword Login.outcome Login.answered Login.saved
  simp only [hcred, hp, hlen, hbody, ← hsalt, if_neg (Nat.not_lt.mpr hrest),
    hfive, false_and, if_false, ← htold]
  generalize l.exchange i s.saltLen (l.packetKind ++ st.size ++ b) = kind
  by_cases hex : kind = 0
  · by_cases hfail : told cfg l s.kind i = true ∧ l.sends i = false
    · simp [hex, hfail]
    · simp [hex, hfail]
  · simp [hex]

theorem outcome_of_packet_none (h : l.packet = none) : l.outcome cfg asked i = -1 := by
  have hcred : l.credential cfg asked i = none := by
    unfold Login.credential Login.vouched
    split
    · split
      · rw [h]
        cases (l.username cfg).bind cfg.poolGetPasswd <;> rfl
      · rw [h]
    · rw [h]
      rfl
  unfold Login.outcome Login.answered
  rw [hcred]
  split <;> rfl

theorem outcome_of_short (h : (l.rest i).length < saltLen asked) : l.outcome cfg asked i = -1 := by
  unfold Login.outcome Login.answered
  cases l.credential cfg asked i with
  | none => split <;> rfl
  | some packet =>
    simp only [if_pos h]
    split <;> rfl

/-- `do_clear_text_password` and `do_crypt`. -/
theorem settles_doPassword {s : Scheme}
    (hkind : s.kind = 3 ∧ s.everyNode = false ∨ s.kind = 4 ∧ s.everyNode = true)
    (hsalt : s.saltLen = saltLen s.kind) :
    Settles cfg l s.kind (fun _ => True) (Read l) (fun i => doPassword s l i false) := by
  intro i conn st _ hi
  show ∃ st', doPassword s l i false conn st = _ ∧ _
  unfold doPassword
  by_cases hshort : (l.rest i).length < s.saltLen
  · rw [if_pos ⟨rfl, hshort⟩, outcome_of_short (hsalt ▸ hshort)]
    exact ⟨st, rfl, trivial, by omega⟩
  have hrest := Nat.not_lt.mp hshort
  rw [if_neg (by simp [hshort])]
  by_cases hmaster : i = l.master
  · rw [if_pos hmaster]
    cases hp : l.packet with
    | none =>
      have hread := readPassword_none hp st
      refine ⟨(readPassword l st).2, ?_, trivial, ?_⟩
      · simp [hread, outcome_of_packet_none hp]
      · rw [outcome_of_packet_none hp]
        omega
    | some wb =>
      obtain ⟨st', hread, hst'⟩ := readPassword_some hp st
      refine ⟨st', ?_, trivial, fun _ => ⟨_, _, hp, hst'⟩⟩
      have hsend : sendPassword s l i conn st' = (l.outcome cfg s.kind i, _) :=
        sendPassword_eq hkind hsalt hp hst' hrest
      simp only [hread, Bool.true_eq_false, if_false, Bool.false_eq_true, hsend]
  · rw [if_neg hmaster]
    obtain ⟨w, b, hp, hst⟩ := hi.resolve_left hmaster
    refine ⟨st, ?_, trivial, fun _ => ⟨w, b, hp, hst⟩⟩
    have hsend : sendPassword s l i conn st = (l.outcome cfg s.kind i, _) :=
      sendPassword_eq hkind hsalt hp hst hrest
    simp only [Bool.true_eq_false, if_false, Bool.false_eq_true, hsend]

theorem settles_doClearTextPassword :
    Settles cfg l 3 (fun _ => True) (Read l) (fun i => doClearTextPassword l i false) :=
  settles_doPassword (s := clearScheme) (.inl ⟨rfl, rfl⟩) rfl

theorem settles_doCrypt :
    Settles cfg l 4 (fun _ => True) (Read l) (fun i => doCrypt l i false) :=
  settles_doPassword (s := cryptScheme) (.inr ⟨rfl, rfl⟩) rfl

/-- The packet does not fill the buffer. -/
def Fits (l : Login) : Prop := ∀ w b, l.packet = some (w, b) → b.length ≠ maxPasswordSize

/-- Nothing has been written behind the buffer. -/
def Within (st : Md5Static) : Prop := st.overrun = false

/-- The static variables of `do_md5` hold the packet of a client. -/
def Md5Read (l : Login) (st : Md5Static) : Prop :=
  ∃ w b, l.packet = some (w, b) ∧ b ≠ [] ∧ st.size = b.length ∧ cString st.password = cString b ∧
    st.password.take b.length = b

/-- `read_password_packet` fails and changes nothing that matters, or stores the packet. -/
theorem readPasswordPacket_cases (st : Md5Static) (hin : Within st) (hfits : Fits l) :
    (∃ st', readPasswordPacket l st = (false, st') ∧ Within st' ∧
      ∀ w b, l.packet = some (w, b) → b = []) ∨
    ∃ st', readPasswordPacket l st = (true, st') ∧ Within st' ∧ Md5Read l st' := by
  by_cases hp : l.packet = none ∨ ∃ w, l.packet = some (w, [])
  · obtain ⟨st', hread, hover⟩ := readPasswordPacket_none hp st
    refine .inl ⟨st', hread, hover.trans hin, ?_⟩
    intro w b hb
    obtain hp | ⟨w', hp⟩ := hp
    · rw [hp] at hb
      cases hb
    · rw [hp] at hb
      cases hb
      rfl
  · cases hpacket : l.packet with
    | none => exact absurd (.inl hpacket) hp
    | some wb =>
      obtain ⟨w, b⟩ := wb
      have hb : b ≠ [] := by
        intro hb
        subst hb
        exact hp (.inr ⟨w, hpacket⟩)
      refine .inr ⟨_, readPasswordPacket_some hpacket hb st, ?_, w, b, hpacket, hb, rfl,
        cString_overwrite _ _, ?_⟩
      · show (st.overrun || b.length == maxPasswordSize) = false
        rw [hin, Bool.false_or, beq_eq_false_iff_ne]
        exact hfits w b hpacket
      · show (overwrite st.password (b ++ [0])).take b.length = b
        simp [overwrite]

theorem md5Packet_congr {p q : List UInt8} (h : cString p = cString q) :
    md5Packet l p = md5Packet l q := by
  unfold md5Packet
  rw [h]

theorem max_zero_neg_one : max (0 : Int) (-1) = 0 := rfl

/-- `do_md5` with one node. -/
theorem settles_doMd5Single (hone : ¬ 1 < cfg.numBackends)
    (hfits : 4 ≤ (l.rest l.master).length → Fits l) :
    Settles cfg l 5 Within (Md5Read l) (fun i => doMd5 cfg l i false) := by
  intro i conn st hin hi
  show ∃ st', doMd5 cfg l i false conn st = _ ∧ _
  unfold doMd5 doMd5Single
  rw [if_neg hone]
  by_cases hshort : (l.rest i).length < 4
  · rw [if_pos ⟨rfl, hshort⟩, outcome_of_short hshort]
    exact ⟨st, rfl, hin, by omega⟩
  rw [if_neg (by simp [hshort])]
  have hsend : ∀ st', Within st' → Md5Read l st' →
      ∃ st'', (if l.exchange i 4 (md5Packet l st'.password) = 0 then
          if l.sends i = false then (-1, conn, st')
          else (0, { conn with
            authKind := 5
            pwdSize := st'.size
            password := overwrite conn.password (st'.password.take st'.size.toNat)
            salt := overwrite conn.salt ((l.rest i).take 4) }, st')
        else (max (l.exchange i 4 (md5Packet l st'.password)) (-1), conn, st')) =
        (l.outcome cfg 5 i,
          if l.outcome cfg 5 i = 0 then l.saved cfg 5 i conn else conn, st'') ∧
        Within st'' ∧ (0 ≤ l.outcome cfg 5 i → Md5Read l st'') := by
    intro st' hin' hread
    refine ⟨st', ?_, hin', fun _ => hread⟩
    obtain ⟨w, b, hp, hb, hsize, hstr, htake⟩ := hread
    have hcred : l.credential cfg 5 i = some (md5Packet l b) := by
      simp only [Login.credential, if_neg hone, hp, if_neg hb]
    have htold : told cfg l 5 i = true := decide_eq_true (.inr (.inr ⟨rfl, Nat.not_lt.mp hone⟩))
    rw [md5Packet_congr hstr, hsize, Int.toNat_natCast, htake]
    unfold Login.outcome Login.answered Login.saved
    simp only [hcred, hp, htold, saltLen, if_neg hshort, hone, and_false, if_false, true_and, if_true]
    generalize l.exchange i 4 (md5Packet l b) = kind
    by_cases hex : kind = 0
    · by_cases hfail : l.sends i = false
      · simp [hex, hfail]
      · simp [hex, hfail, max_zero_neg_one]
    · simp only [if_neg hex]
      rw [if_neg (by omega)]
  by_cases hmaster : i = l.master
  · rw [if_pos hmaster]
    obtain ⟨st', hread, hin', hnone⟩ | ⟨st', hread, hin', hst'⟩ :=
      readPasswordPacket_cases st hin (hfits (hmaster ▸ Nat.not_lt.mp hshort))
    · have hcred : l.credential cfg 5 i = none := by
        simp only [Login.credential, if_neg hone]
        split
        · rfl
        · rename_i w b hp
          rw [if_pos (hnone w b hp)]
      refine ⟨st', ?_, hin', ?_⟩
      · simp [hread, Login.outcome, Login.answered, hcred]
      · simp [Login.outcome, Login.answered, hcred]
    · simp only [hread, Bool.true_eq_false, if_false, Bool.false_eq_true]
      exact hsend st' hin' hst'
  · rw [if_neg hmaster]
    simp only [Bool.true_eq_false, if_false, Bool.false_eq_true]
    exact hsend st hin (hi.resolve_left hmaster)

theorem passwd_of_vouched {passwd : List UInt8} (h : l.vouched cfg = some passwd) :
    (l.username cfg).bind cfg.poolGetPasswd = some passwd ∧ ∃ w b, l.packet = some (w, b) ∧ b ≠ [] ∧
      cString b = cString (encrypted cfg passwd l.salt) := by
  unfold Login.vouched at h
  split at h
  · rename_i passwd' w b hpasswd hp
    split at h
    · rename_i hsame
      cases h
      exact ⟨hpasswd, w, b, hp, hsame⟩
    · cases h
  · cases h

theorem vouched_eq_none (h : ∀ w b, l.packet = some (w, b) → b = []) : l.vouched cfg = none := by
  cases hv : l.vouched cfg with
  | none => rfl
  | some passwd =>
    obtain ⟨_, w, b, hp, hb, _⟩ := passwd_of_vouched hv
    exact absurd (h w b hp) hb

/-- `do_md5` with several nodes. -/
theorem settles_doMd5Several (hsev : 1 < cfg.numBackends)
    (hfits : ((l.username cfg).bind cfg.poolGetPasswd).isSome = true → Fits l) :
    Settles cfg l 5 Within (fun _ => (l.vouched cfg).isSome = true)
      (fun i => doMd5 cfg l i false) := by
  intro i conn st hin hi
  show ∃ st', doMd5 cfg l i false conn st = _ ∧ _
  unfold doMd5 doMd5Several
  rw [if_pos hsev]
  have hcred : l.credential cfg 5 i = (l.vouched cfg).map fun passwd =>
      md5Packet l (encrypted cfg passwd ((l.rest i).take 4)) := by
    simp only [Login.credential, if_pos hsev]
  have hnone : l.vouched cfg = none → l.outcome cfg 5 i = -1 := by
    intro h
    simp [Login.outcome, Login.answered, hcred, h]
  cases hpasswd : (l.username cfg).bind cfg.poolGetPasswd with
  | none =>
    have hv : l.vouched cfg = none := by
      unfold Login.vouched
      rw [hpasswd]
    rw [hnone hv]
    exact ⟨st, rfl, hin, by omega⟩
  | some passwd =>
    have hsend : ∀ st', Within st' → l.vouched cfg = some passwd →
        ∃ st'', (if (l.rest i).length < 4 then (-1, conn, st')
          else if l.exchange i 4 (md5Packet l (encrypted cfg passwd ((l.rest i).take 4))) = 0 then
            if i = l.master ∧ l.sends i = false then (-1, conn, st')
            else (0, { conn with authKind := 5 }, st')
          else (max (l.exchange i 4 (md5Packet l (encrypted cfg passwd ((l.rest i).take 4)))) (-1),
            conn, st')) =
          (l.outcome cfg 5 i,
            if l.outcome cfg 5 i = 0 then l.saved cfg 5 i conn else conn, st'') ∧
          Within st'' ∧ (0 ≤ l.outcome cfg 5 i → (l.vouched cfg).isSome = true) := by
      intro st' hin' hv
      refine ⟨st', ?_, hin', fun _ => by rw [hv]; rfl⟩
      by_cases hshort : (l.rest i).length < 4
      · rw [if_pos hshort, outcome_of_short hshort]
        rfl
      have htold : told cfg l 5 i = true ↔ i = l.master := by
        unfold told
        rw [decide_eq_true_iff]
        simp [Nat.not_le.mpr hsev]
      rw [hv, Option.map_some] at hcred
      unfold Login.outcome Login.answered Login.saved
      simp only [hcred, htold, saltLen, if_neg hshort, hsev, and_self, if_true]
      generalize l.exchange i 4 (md5Packet l (encrypted cfg passwd ((l.rest i).take 4))) = kind
      by_cases hex : kind = 0
      · by_cases hfail : i = l.master ∧ l.sends i = false
        · obtain ⟨rfl, hsends⟩ := hfail
          simp [hex, hsends]
        · simp [hex, hfail, max_zero_neg_one]
      · simp only [if_neg hex]
        rw [if_neg (by omega)]
    by_cases hmaster : i = l.master
    · simp only [if_pos hmaster]
      obtain ⟨st', hread, hin', hempty⟩ | ⟨st', hread, hin', w, b, hp, hb, _, hstr, _⟩ :=
        readPasswordPacket_cases st hin (hfits (by rw [hpasswd]; rfl))
      · rw [hnone (vouched_eq_none hempty)]
        exact ⟨st', by simp [hread], hin', by omega⟩
      · by_cases hsame : cString b = cString (encrypted cfg passwd l.salt)
        · have hv : l.vouched cfg = some passwd := by
            unfold Login.vouched
            rw [hpasswd, hp]
            exact if_pos ⟨hb, hsame⟩
          simp only [hread, hstr, hsame, beq_self_eq_true, Bool.and_self, Bool.true_eq_false,
            if_false, Bool.false_eq_true]
          exact hsend st' hin' hv
        · have hv : l.vouched cfg = none := by
            unfold Login.vouched
            rw [hpasswd, hp]
            exact if_neg (fun h => hsame h.2)
          rw [hnone hv]
          exact ⟨st', by simp [hread, hstr, hsame], hin', by omega⟩
    · simp only [if_neg hmaster]
      have hv : l.vouched cfg = some passwd := by
        obtain ⟨passwd', hv⟩ := Option.isSome_iff_exists.mp (hi.resolve_left hmaster)
        have hsame := (passwd_of_vouched hv).1
        rw [hpasswd] at hsame
        rw [hv, hsame]
      simp only [Bool.true_eq_false, if_false, Bool.false_eq_true]
      exact hsend st hin hv

end PgPool.Auth
