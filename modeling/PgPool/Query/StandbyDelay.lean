import PgPool.Lib.Radix
import PgPool.Query.WhereToSend

/-!
# Standby delays

`check_replication_time_lag` of `pool_worker_child.c` asks every node for its position in the log and
stores how far each one is behind the primary, which `pool_where_to_send` compares with
`delay_threshold`.
-/

namespace PgPool.StandbyDelay

/-! ## Positions in the log -/

/-- A position as the servers report it: there are 255 segments of 16 MB to a log id. -/
structure Lsn where
  xlogid : Nat
  xrecoff : Nat
  xlogid_lt : xlogid < 2 ^ 32
  xrecoff_lt : xrecoff < 0xFF000000

namespace Lsn

/-- How many bytes are in front of a position. -/
def bytes (l : Lsn) : Nat := l.xlogid * 0xFF000000 + l.xrecoff

/-- The order of positions. -/
def Before (l l' : Lsn) : Prop := l.xlogid < l'.xlogid ∨ l.xlogid = l'.xlogid ∧ l.xrecoff < l'.xrecoff

end Lsn

/-- A digit of `%X`. -/
def hexChar (d : Nat) : UInt8 := if d < 10 then UInt8.ofNat (48 + d) else UInt8.ofNat (55 + d)

/-- The value of a hexadecimal digit. -/
def hexDigit (c : UInt8) : Option Nat :=
  if 48 ≤ c ∧ c ≤ 57 then some (c.toNat - 48)
  else if 65 ≤ c ∧ c ≤ 70 then some (c.toNat - 55)
  else if 97 ≤ c ∧ c ≤ 102 then some (c.toNat - 87)
  else none

def hexText (n : Nat) : List UInt8 := Radix.text hexChar 16 n

/-- `%X/%X`. -/
def Lsn.text (l : Lsn) : List UInt8 := hexText l.xlogid ++ 47 :: hexText l.xrecoff

def isSpace (c : UInt8) : Bool := c == 32 || (9 ≤ c && c ≤ 13)

/-- The sign of a number, and what follows it. -/
def sign : List UInt8 → Bool × List UInt8
  | 45 :: rest => (true, rest)
  | 43 :: rest => (false, rest)
  | text => (false, text)

/-- `0x` in front of a digit is passed over. -/
def afterPrefix : List UInt8 → List UInt8
  | 48 :: x :: c :: rest =>
    if (x = 120 ∨ x = 88) ∧ (hexDigit c).isSome then c :: rest else 48 :: x :: c :: rest
  | text => text

/-- `%X` of `sscanf`: the number as `strtoul` has it, which is then stored in an `unsigned int`. -/
def scanHex (text : List UInt8) : Option (Nat × List UInt8) :=
  let (negative, text) := sign (text.dropWhile isSpace)
  match Radix.leading hexDigit (afterPrefix text) with
  | ([], _) => none
  | (ds, rest) =>
    let n := min (Radix.value 16 ds) (2 ^ 64 - 1)
    some ((if negative then 2 ^ 64 - n else n) % 2 ^ 32, rest)

/-- `WALSEGMENTSIZE`. -/
def walSegmentSize : Nat := 16 * 1024 * 1024

/-- `text_to_lsn`, as an `unsigned long long int`. -/
def textToLsn (text : List UInt8) : Nat :=
  match scanHex text with
  | some (xlogid, 47 :: rest) =>
    match scanHex rest with
    | some (xrecoff, _) => (xlogid * (0xffffffff - walSegmentSize) + xrecoff) % 2 ^ 64
    -- wrong log location format
    | none => 0
  | _ => 0

/-! ## The check -/

inductive WalQuery where
  | currentXlogLocation
  | lastXlogReplayLocation
  deriving DecidableEq

/-- What a node answers. -/
inductive Answer where
  /-- There is no connection, the query fails, or its result has no rows or no data. -/
  | failed
  | null
  | text (data : List UInt8)

section

variable (env : Setup) (answer : NodeId → WalQuery → Answer)

/-- The query for a node. -/
def walQuery (i : NodeId) : WalQuery :=
  if env.primary = i then .currentXlogLocation else .lastXlogReplayLocation

/-- The first loop; `none`: the function returns.  The worker has no session, so that `VALID_BACKEND` is
the status of the node. -/
def readLsns : List NodeId → (NodeId → Nat) → Option (NodeId → Nat)
  | [], lsn => some lsn
  | i :: nodes, lsn =>
    if !env.isMyUp i then readLsns nodes lsn
    else
      match answer i (walQuery env i) with
      | .failed => none
      | .null => readLsns nodes (Function.update lsn i 0)
      | .text data => readLsns nodes (Function.update lsn i (textToLsn data))

/-- The difference of two `unsigned long long int`. -/
def lag (lsn : NodeId → Nat) (i : NodeId) : Nat := (2 ^ 64 + lsn env.primary - lsn i) % 2 ^ 64

/-- The second loop. -/
def storeDelays (lsn : NodeId → Nat) : List NodeId → (NodeId → Nat) → NodeId → Nat
  | [], delay => delay
  | i :: nodes, delay =>
    if !env.isMyUp i then storeDelays lsn nodes delay
    else if env.primary = i then storeDelays lsn nodes (Function.update delay i 0)
    else storeDelays lsn nodes (Function.update delay i (lag env lsn i))

/-- `check_replication_time_lag`: `standby_delay` of the nodes.  `stack` is what `lsn` holds before it
is filled. -/
def checkReplicationTimeLag (stack delay : NodeId → Nat) : NodeId → Nat :=
  if env.numBackends ≤ 1 then delay
  else if (env.nodes.filter env.isMyUp).length ≤ 1 then delay
  else
    match readLsns env answer env.nodes stack with
    | none => delay
    | some lsn => storeDelays env lsn env.nodes delay

end

/-! ## What is claimed -/

/-- What the servers report. -/
inductive Reply where
  | failed
  | null
  | lsn (l : Lsn)

def Reply.answer : Reply → Answer
  | .failed => .failed
  | .null => .null
  | .lsn l => .text l.text

/-- The answers of the nodes. -/
def answers (reply : NodeId → WalQuery → Reply) (i : NodeId) (q : WalQuery) : Answer := (reply i q).answer

section

variable (env : Setup) (reply : NodeId → WalQuery → Reply)

/-- The reply to the query for a node. -/
def asked (i : NodeId) : Reply := reply i (walQuery env i)

/-- A pass that compares: there are two nodes that are up, and each of these has replied. -/
def Completes : Prop :=
  2 ≤ (env.nodes.filter env.isMyUp).length ∧ ∀ i ∈ env.nodes, env.isMyUp i → asked env reply i ≠ .failed

/-- A standby whose position has been read. -/
structure Standby (i : NodeId) (l : Lsn) : Prop where
  node : i < env.numBackends
  up : env.isMyUp i = true
  standby : env.primary ≠ i
  read : asked env reply i = .lsn l

/-- The position of the primary has been read. -/
structure PrimaryRead (l : Lsn) : Prop where
  primary : env.primaryNodeId = some env.primary
  up : env.isMyUp env.primary = true
  read : asked env reply env.primary = .lsn l

/-- The delay makes `pool_where_to_send` choose another node than the standby for a statement. -/
def Excluded (lk : Lookups) (i : NodeId) : Prop :=
  ∃ node, loadBalanceTarget env lk i node ≠
    loadBalanceTarget env { lk with standbyDelay := fun _ => 0 } i node

/-- What a pass stores for a standby is how far it is behind the position that has been read from the
primary, and the standby is excluded only if that is more than the threshold. -/
def LagsRight : Prop :=
  ∀ (stack delay : NodeId → Nat), Completes env reply → ∀ i l, Standby env reply i l →
    ∃ p, PrimaryRead env reply p ∧
      checkReplicationTimeLag env (answers reply) stack delay i = p.bytes - l.bytes ∧
      ∀ lk : Lookups,
        lk.standbyDelay = checkReplicationTimeLag env (answers reply) stack delay →
          Excluded env lk i → env.delayThreshold < p.bytes - l.bytes

/-- The first position is the last one of its log id that has the same text_to_lsn as the start of the
next one, which is the second position. -/
def Collide (l l' : Lsn) : Prop :=
  l.xrecoff = 0xFEFFFFFF ∧ l'.xlogid = l.xlogid + 1 ∧ l'.xrecoff = 0

/-- A primary has been read, and each standby is in the log id of the primary and not ahead of it, or at
the start of the next log id when the primary is at the end of its own. -/
def Comparable : Prop :=
  Completes env reply → ∀ i l, Standby env reply i l →
    ∃ p, PrimaryRead env reply p ∧ (l.xlogid = p.xlogid ∧ l.xrecoff ≤ p.xrecoff ∨ Collide p l)

end

/-! ## Reading positions -/

theorem hexDigit_hexChar : ∀ d < 16, hexDigit (hexChar d) = some d := by decide

theorem isSpace_hexChar : ∀ d < 16, isSpace (hexChar d) = false := by decide

theorem hexChar_ne : ∀ d < 16, hexChar d ≠ 43 ∧ hexChar d ≠ 45 ∧ hexChar d ≠ 88 ∧ hexChar d ≠ 120 := by
  decide

theorem sign_hexChar {d : Nat} (hd : d < 16) (rest : List UInt8) :
    sign (hexChar d :: rest) = (false, hexChar d :: rest) := by
  obtain ⟨hplus, hminus, -, -⟩ := hexChar_ne d hd
  unfold sign
  split
  · next heq => exact absurd (List.cons.inj heq).1 hminus
  · next heq => exact absurd (List.cons.inj heq).1 hplus
  · rfl

/-- There is no `0x` where no `x` comes second. -/
theorem afterPrefix_of_second {c : UInt8} {rest : List UInt8}
    (h : ∀ x ∈ rest.head?, x ≠ 88 ∧ x ≠ 120) : afterPrefix (c :: rest) = c :: rest := by
  unfold afterPrefix
  split
  · next x c' rest' heq =>
    obtain ⟨-, rfl⟩ := List.cons.inj heq
    obtain ⟨h88, h120⟩ := h x rfl
    exact (if_neg fun hx => hx.1.elim h120 h88).trans heq.symm
  · rfl

/-- A number that `%X` has written is read, whatever follows it but a digit or an `x`. -/
theorem scanHex_hexText {n : Nat} (hn : n < 2 ^ 32) {rest : List UInt8}
    (hrest : ∀ c ∈ rest.head?, hexDigit c = none ∧ c ≠ 88 ∧ c ≠ 120) :
    scanHex (hexText n ++ rest) = some (n, rest) := by
  have hdigits : ∀ d ∈ Radix.digits 16 n, d < 16 := Radix.lt_of_mem_digits (by omega)
  have hread : Radix.leading hexDigit (Radix.text hexChar 16 n ++ rest) = _ :=
    Radix.leading_text (by omega) hexDigit_hexChar n fun c hc => (hrest c hc).1
  have hvalue := Radix.value_digits 16 n
  unfold scanHex
  unfold hexText Radix.text at *
  generalize hds : Radix.digits 16 n = ds at *
  cases ds with
  | nil => exact absurd hds (Radix.digits_ne_nil 16 n)
  | cons d ds =>
    obtain ⟨hd, htail⟩ := List.forall_mem_cons.mp hdigits
    have hsecond : ∀ x ∈ (ds.map hexChar ++ rest).head?, x ≠ 88 ∧ x ≠ 120 := by
      intro x hx
      cases ds with
      | nil => exact (hrest x hx).2
      | cons d' ds =>
        obtain rfl := Option.some.inj hx
        exact (hexChar_ne d' (htail d' List.mem_cons_self)).2.2
    rw [List.map_cons, List.cons_append] at hread ⊢
    rw [List.dropWhile_cons_of_neg (by rw [isSpace_hexChar d hd]; exact Bool.false_ne_true),
      sign_hexChar hd]
    simp only [afterPrefix_of_second hsecond, hread, hvalue, Bool.false_eq_true, if_false]
    rw [Nat.min_eq_left (by omega), Nat.mod_eq_of_lt hn]

/-- What `text_to_lsn` makes of a position. -/
theorem textToLsn_text (l : Lsn) : textToLsn l.text = l.xlogid * 0xFEFFFFFF + l.xrecoff := by
  have hx := l.xlogid_lt
  have hy := l.xrecoff_lt
  have hslash : hexDigit 47 = none := by decide
  have hfirst : scanHex (hexText l.xlogid ++ 47 :: hexText l.xrecoff) = _ :=
    scanHex_hexText hx fun c hc => by
      obtain rfl := Option.some.inj hc
      exact ⟨hslash, by decide, by decide⟩
  have hsecond : scanHex (hexText l.xrecoff ++ []) = _ :=
    scanHex_hexText (by omega) fun c hc => by cases hc
  rw [List.append_nil] at hsecond
  have hsize : 0xffffffff - walSegmentSize = 0xFEFFFFFF := by decide
  unfold textToLsn Lsn.text
  simp only [hfirst, hsecond, hsize]
  exact Nat.mod_eq_of_lt (by omega)

/-- `text_to_lsn` is exact in the first log id only: the factor is one less than the size of a log id. -/
theorem textToLsn_eq_iff (l : Lsn) : textToLsn l.text = l.bytes ↔ l.xlogid = 0 := by
  rw [textToLsn_text, Lsn.bytes]
  omega

/-- The order of positions is kept, except that two of them collide. -/
theorem textToLsn_lt_iff (l l' : Lsn) :
    (l.Before l' → textToLsn l.text < textToLsn l'.text) ↔ ¬ Collide l l' := by
  have hy := l.xrecoff_lt
  have hy' := l'.xrecoff_lt
  rw [textToLsn_text, textToLsn_text]
  unfold Lsn.Before Collide
  constructor
  · intro h ⟨hoff, hid, hstart⟩
    have := h (.inl (by omega))
    omega
  · intro h hbefore
    by_contra hle
    obtain hid | ⟨hid, hoff⟩ := hbefore
    · exact h ⟨by omega, by omega, by omega⟩
    · rw [hid] at hle
      omega

/-! ## A pass -/

section

variable {env : Setup} {reply : NodeId → WalQuery → Reply}

/-- The number that is kept for a reply. -/
def Reply.value : Reply → Nat
  | .failed | .null => 0
  | .lsn l => textToLsn l.text

theorem readLsns_eq {nodes : List NodeId} {lsn : NodeId → Nat}
    (h : ∀ i ∈ nodes, env.isMyUp i → asked env reply i ≠ .failed) :
    readLsns env (answers reply) nodes lsn =
      some fun j => if j ∈ nodes ∧ env.isMyUp j = true then (asked env reply j).value else lsn j := by
  induction nodes generalizing lsn with
  | nil => simp [readLsns]
  | cons i nodes ih =>
    have htail (lsn : NodeId → Nat) := @ih lsn fun j hj => h j (List.mem_cons_of_mem _ hj)
    cases hup : env.isMyUp i with
    | false =>
      rw [readLsns, hup, Bool.not_false, if_pos rfl, htail]
      congr 1
      funext j
      by_cases hj : j = i
      · subst hj
        simp [hup]
      · simp [hj]
    | true =>
      have hread : readLsns env (answers reply) (i :: nodes) lsn =
          readLsns env (answers reply) nodes (Function.update lsn i (asked env reply i).value) := by
        have hne := h i List.mem_cons_self hup
        rw [readLsns, hup, Bool.not_true, if_neg Bool.false_ne_true]
        unfold answers asked at *
        cases hreply : reply i (walQuery env i) with
        | failed => exact absurd hreply hne
        | null => rfl
        | lsn l => rfl
      rw [hread, htail]
      congr 1
      funext j
      by_cases hj : j = i
      · subst hj
        simp [hup]
      · simp [hj]

theorem storeDelays_eq {lsn : NodeId → Nat} (nodes : List NodeId) (delay : NodeId → Nat) :
    storeDelays env lsn nodes delay = fun j =>
      if j ∈ nodes ∧ env.isMyUp j = true then if env.primary = j then 0 else lag env lsn j
      else delay j := by
  induction nodes generalizing delay with
  | nil => simp [storeDelays]
  | cons i nodes ih =>
    rw [storeDelays, ih, ih, ih]
    funext j
    by_cases hj : j = i
    · subst hj
      cases hup : env.isMyUp j
      · simp [hup]
      · by_cases hprimary : env.primary = j <;> simp [hup, hprimary]
    · cases hup : env.isMyUp i
      · simp [hj]
      · by_cases hprimary : env.primary = i <;> simp [hj, hprimary]

/-- What a pass that compares stores for a standby. -/
theorem check_of_standby {i : NodeId} {l : Lsn} (hall : Completes env reply) (h : Standby env reply i l)
    (stack delay : NodeId → Nat) :
    checkReplicationTimeLag env (answers reply) stack delay i =
      (2 ^ 64 + (if env.isMyUp env.primary then (asked env reply env.primary).value
        else stack env.primary) - textToLsn l.text) % 2 ^ 64 := by
  have hlen : (env.nodes.filter env.isMyUp).length ≤ env.numBackends := by
    refine Nat.le_trans (List.length_filter_le _ _) ?_
    rw [Shared.nodes, List.length_range]
  have hmany := hall.1
  have hmem : env.primary ∈ env.nodes := env.mem_nodes.mpr env.primary_lt
  unfold checkReplicationTimeLag
  rw [if_neg (by omega), if_neg (by omega), readLsns_eq hall.2]
  simp only [storeDelays_eq, lag, hmem, env.mem_nodes.mpr h.node, h.up, h.read, and_self, true_and,
    if_true, if_neg h.standby]
  rfl

/-- The delay alone does not make `pool_where_to_send` leave a standby that is not too far behind. -/
theorem lt_of_excluded {lk : Lookups} {i : NodeId} (h : Excluded env lk i) :
    env.delayThreshold < lk.standbyDelay i := by
  obtain ⟨node, hne⟩ := h
  by_contra hle
  have hlate : ¬ (env.masterSlaveSubMode = "stream" ∧ env.delayThreshold ≠ 0 ∧
      env.delayThreshold < lk.standbyDelay i) := fun htest => hle htest.2.2
  have hzero : ¬ (env.masterSlaveSubMode = "stream" ∧ env.delayThreshold ≠ 0 ∧
      env.delayThreshold < 0) := fun htest => Nat.not_lt_zero _ htest.2.2
  refine hne ?_
  simp only [loadBalanceTarget, if_neg hlate, if_neg hzero]

theorem before_of_lt {x x' y y' k : Nat} (h : x < x') (hy : y ≤ k) : x * k + y ≤ x' * k + y' := by
  have hmul : (x + 1) * k ≤ x' * k := Nat.mul_le_mul_right k h
  rw [Nat.succ_mul] at hmul
  omega

theorem sub_mod_eq_zero_iff {a b : Nat} (h : a ≤ b) (hb : b < 2 ^ 64) :
    (2 ^ 64 + a - b) % 2 ^ 64 = 0 ↔ b = a := by
  omega

/-- The difference of the numbers that are kept is that of the positions. -/
theorem sub_textToLsn_iff (p l : Lsn) :
    (2 ^ 64 + textToLsn p.text - textToLsn l.text) % 2 ^ 64 = p.bytes - l.bytes ↔
      l.xlogid = p.xlogid ∧ l.xrecoff ≤ p.xrecoff ∨ Collide p l := by
  have hx := l.xlogid_lt
  have hy := l.xrecoff_lt
  have hx' := p.xlogid_lt
  have hy' := p.xrecoff_lt
  rw [textToLsn_text, textToLsn_text]
  unfold Lsn.bytes Collide
  obtain hlt | heq | hgt := Nat.lt_trichotomy l.xlogid p.xlogid
  · omega
  · rw [heq]
    omega
  · -- a standby in a later log id: there is no lag, and none is stored only if the numbers are the same
    have hbytes : p.xlogid * 0xFF000000 + p.xrecoff ≤ l.xlogid * 0xFF000000 + l.xrecoff :=
      before_of_lt hgt (Nat.le_of_lt hy')
    have hle : p.xlogid * 0xFEFFFFFF + p.xrecoff ≤ l.xlogid * 0xFEFFFFFF + l.xrecoff :=
      before_of_lt hgt (by omega)
    have hlt : l.xlogid * 0xFEFFFFFF + l.xrecoff < 2 ^ 64 := by omega
    rw [Nat.sub_eq_zero_of_le hbytes, sub_mod_eq_zero_iff hle hlt]
    constructor
    · intro heq
      exact .inr ⟨by omega, by omega, by omega⟩
    · rintro (⟨hid, -⟩ | ⟨hend, hid, hstart⟩)
      · exact absurd hid (Nat.ne_of_gt hgt)
      · rw [hend, hid, hstart]
        omega

theorem comparable_of_lagsRight (h : LagsRight env reply) : Comparable env reply := by
  intro hall i l hstandby
  obtain ⟨p, hprimary, hstored, -⟩ := h (fun _ => 0) (fun _ => 0) hall i l hstandby
  refine ⟨p, hprimary, (sub_textToLsn_iff p l).mp ?_⟩
  have hcheck := check_of_standby hall hstandby (fun _ => 0) (fun _ => 0)
  rw [hprimary.up, hprimary.read] at hcheck
  exact hcheck.symm.trans hstored

theorem lagsRight_of_comparable (h : Comparable env reply) : LagsRight env reply := by
  intro stack delay hall i l hstandby
  obtain ⟨p, hprimary, hcmp⟩ := h hall i l hstandby
  have hstored : checkReplicationTimeLag env (answers reply) stack delay i = p.bytes - l.bytes := by
    rw [check_of_standby hall hstandby, hprimary.up, hprimary.read]
    exact (sub_textToLsn_iff p l).mpr hcmp
  refine ⟨p, hprimary, hstored, fun lk hlk hexcluded => ?_⟩
  have hlt := lt_of_excluded hexcluded
  rw [hlk] at hlt
  exact hstored ▸ hlt

end

/-- A primary and a standby that are up. -/
def primaryAndStandby : Setup := { Setup.standbyPair with
  primaryNodeId := some 0
  delayThreshold := 10000000
  primaryNodeId_lt := by
    intro i h
    obtain rfl := Option.some.inj h
    decide }

/-- The standby has gone on after the primary has been read. -/
def standbyAhead : NodeId → WalQuery → Reply
  | 0, _ => .lsn ⟨0, 0x3000000, by decide, by decide⟩
  | _, _ => .lsn ⟨0, 0x3000090, by decide, by decide⟩

end PgPool.StandbyDelay
