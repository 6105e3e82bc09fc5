import PgPool.Lib.Radix
import PgPool.Lib.Reader
import PgPool.Pcp.Request
import PgPool.Stream.Words

/-!
# Reports over pcp

What `pcp_do_child` writes for the node information, the processes, the pools and the system database,
and what the client library reads of it.  A number goes through a buffer of its own; where its text does
not fit, `snprintf` cuts it.
-/

namespace PgPool.Pcp.Codec

abbrev Bytes := List UInt8

/-- A C string. -/
abbrev CString := {s : Bytes // 0 ∉ s}

def ascii (text : String) : Bytes := text.toList.map fun c => UInt8.ofNat c.toNat

/-! ## Numbers -/

def digitChar (d : Nat) : UInt8 := 48 + UInt8.ofNat d

def digitVal (c : UInt8) : Option Nat := if 48 ≤ c ∧ c ≤ 57 then some (c.toNat - 48) else none

/-- "%d" and "%ld" -/
def decimal (n : Int) : Bytes :=
  if n < 0 then 45 :: Radix.text digitChar 10 n.natAbs else Radix.text digitChar 10 n.natAbs

def isSpace (c : UInt8) : Bool := c == 32 || (9 ≤ c && c ≤ 13)

def strtol (text : Bytes) : Int :=
  match text.dropWhile isSpace with
  | [] => 0
  | c :: rest =>
    if c = 45 then -(Radix.value 10 (Radix.leading digitVal rest).1 : Int)
    else if c = 43 then Radix.value 10 (Radix.leading digitVal rest).1
    else Radix.value 10 (Radix.leading digitVal (c :: rest)).1

/-- A `long` holds no more. -/
def clamp (n : Int) : Int := max (-2 ^ 63) (min (2 ^ 63 - 1) n)

def atoi (text : CString) : Int32 := Int32.ofInt (clamp (strtol text.1))
def atol (text : CString) : Int64 := Int64.ofInt (clamp (strtol text.1))

theorem digitChar_ne {d : Nat} (h : d < 10) :
    digitVal (digitChar d) = some d ∧ digitChar d ≠ 0 ∧ digitChar d ≠ 45 ∧ digitChar d ≠ 43 ∧
      isSpace (digitChar d) = false := by
  revert d
  decide

theorem decimal_noNul (n : Int) : 0 ∉ decimal n := by
  have hdigits : 0 ∉ Radix.text digitChar 10 n.natAbs := by
    intro h
    obtain ⟨d, hd, heq⟩ := List.mem_map.mp h
    exact (digitChar_ne (Radix.lt_of_mem_digits (by decide) d hd)).2.1 heq
  unfold decimal
  split
  · simpa using hdigits
  · exact hdigits

/-- A text that is cut to a length. -/
def CString.take (k : Nat) (s : CString) : CString := ⟨s.1.take k, fun h => s.2 (List.mem_of_mem_take h)⟩

/-- `snprintf` with "%d" or "%ld". -/
def snprintf (size : Nat) (n : Int) : CString := CString.take (size - 1) ⟨decimal n, decimal_noNul n⟩

/-! ## Packets -/

def htonl (n : Nat) : Bytes :=
  [UInt8.ofNat (n / 2 ^ 24), UInt8.ofNat (n / 2 ^ 16), UInt8.ofNat (n / 2 ^ 8), UInt8.ofNat n]

/-- A field is written with its terminator. -/
def writeField (s : CString) : Bytes := s.1 ++ [0]

/-- The sum of `strlen(..) + 1` of the fields, and `sizeof(int)`. -/
def wsize (fields : List CString) : Nat := (fields.map fun s => s.1.length + 1).sum + 4

def packet (tos : UInt8) (fields : List CString) : Bytes :=
  tos :: (htonl (wsize fields) ++ fields.flatMap writeField)

def lengthWord : Bytes → Option Int
  | _ :: a :: b :: c :: d :: _ => some (ntohl a b c d)
  | _ => none

/-- The string at some place of the buffer, and the place after it: `memchr(index, '\0', rsize) + 1`. -/
def field (mem : Bytes) : Option (CString × Bytes) :=
  if 0 ∈ mem then
    some (⟨mem.takeWhile (· != 0), fun h => by simpa using List.mem_takeWhile_imp h⟩,
      (mem.dropWhile (· != 0)).tail)
  else none

/-- A packet as the client reads it: the type, the buffer, and what is left of the stream. -/
def readReply : Bytes → Option (UInt8 × Bytes × Bytes)
  | tos :: a :: b :: c :: d :: rest =>
    let rsize := ntohl a b c d
    if rsize < 4 then none
    else (Reader.take (rsize - 4).toNat rest).map fun (buf, rest) => (tos, buf, rest)
  | _ => none

/-- The loop of the client over the packets, until one is the last. -/
def replies {σ : Type} (handle : σ → UInt8 → Bytes → Option (σ × Bool)) :
    Nat → σ → Bytes → Option (σ × Bytes)
  | 0, _, _ => none
  | fuel + 1, s, stream =>
    match readReply stream with
    | none => none
    | some (tos, buf, rest) =>
      match handle s tos buf with
      | none => none
      | some (s, true) => some (s, rest)
      | some (s, false) => replies handle fuel s rest

/-- The client gets the values that were written, each length word is the size of its packet, and the
stream is read to its end. -/
structure Agrees {α : Type} (packets : List Bytes) (decode : Bytes → Option (α × Bytes)) (a : α) :
    Prop where
  sized : ∀ p ∈ packets, lengthWord p = some ((p.length : Int) - 1)
  decoded : decode packets.flatten = some (a, [])

def commandComplete : CString := ⟨ascii "CommandComplete", by decide⟩

/-! ## Node information -/

/-- What is sent of a `BackendInfo`; a weight is a `double`. -/
structure NodeInfo (W : Type) where
  hostname : CString
  port : Int32
  status : Int32
  weight : W

/-- The library functions on a `double`: "%f" and `atof`. -/
structure DoubleText (W : Type) where
  printF : W → CString
  atof : CString → W

/-- `MAX_DB_HOST_NAMELEN` -/
def maxDbHostNamelen : Nat := 128

variable {W : Type}

def nodeInfoFields (fmt : DoubleText W) (bi : NodeInfo W) : List CString :=
  [commandComplete, bi.hostname, snprintf 6 bi.port.toInt, snprintf 2 bi.status.toInt,
    (fmt.printF bi.weight).take 19]

def nodeInfo (fmt : DoubleText W) (bi : NodeInfo W) : List Bytes := [packet 105 (nodeInfoFields fmt bi)]

def pcpNodeInfo (fmt : DoubleText W) (stream : Bytes) : Option (NodeInfo W × Bytes) := do
  let (tos, buf, rest) ← readReply stream
  let (code, index) ← field buf
  if tos = 105 ∧ code = commandComplete then
    let (hostname, index) ← field index
    let (port, index) ← field index
    let (status, index) ← field index
    let (weight, _) ← field index
    -- `strcpy` into an array
    if hostname.1.length < maxDbHostNamelen then
      some (⟨hostname, atoi port, atoi status, fmt.atof weight⟩, rest)
    else none
  else none

/-! ## Processes -/

def processCountFields (pids : List Int32) : List CString :=
  commandComplete :: snprintf 16 pids.length :: pids.map fun pid => snprintf 6 pid.toInt

/-- The message is put together in a buffer of `6 * process_count` bytes. -/
def processCount (pids : List Int32) : List Bytes :=
  if 6 * pids.length < 2 ^ 31 then [packet 110 (processCountFields pids)] else []

def pcpProcessCount (stream : Bytes) : Option (List Int32 × Bytes) := do
  let (tos, buf, rest) ← readReply stream
  let (code, index) ← field buf
  if tos = 110 ∧ code = commandComplete then
    let (count, index) ← field index
    -- `malloc` of a negative size fails
    if (atoi count).toInt < 0 then none
    else
      let (pids, _) ← Reader.many field (atoi count).toInt.toNat index
      some (pids.map atoi, rest)
  else none

/-! ## Pools -/

/-- What is sent of a line of the report. -/
structure ProcessInfo where
  pid : Int32
  database : CString
  username : CString
  startTime : Int64
  createTime : Int64
  major : Int32
  minor : Int32
  counter : Int32
  backendId : Int32
  backendPid : Int32
  connected : Int32

/-- A `POOL_REPORT_POOLS`, with its arrays of `POOLCONFIG_MAXIDENTLEN + 1`. -/
abbrev PoolReport := {p : ProcessInfo // p.database.1.length ≤ 63 ∧ p.username.1.length ≤ 63}

def arraySizeCode : CString := ⟨ascii "ArraySize", by decide⟩
def processInfoCode : CString := ⟨ascii "ProcessInfo", by decide⟩

def processInfoFields (p : ProcessInfo) : List CString :=
  [processInfoCode, snprintf 16 p.pid.toInt, p.database, p.username, snprintf 20 p.startTime.toInt,
    snprintf 20 p.createTime.toInt, snprintf 5 p.major.toInt, snprintf 5 p.minor.toInt,
    snprintf 16 p.counter.toInt, snprintf 16 p.backendId.toInt, snprintf 16 p.backendPid.toInt,
    snprintf 2 p.connected.toInt]

/-- The lines for a process, or all of them. -/
def sentPools (procId : Int32) (pools : List PoolReport) : List PoolReport :=
  pools.filter fun p => procId = 0 || p.1.pid = procId

/-- `size` is `max_pool * NUM_BACKENDS`, the lines of one process. -/
def processInfo (procId size : Int32) (pools : List PoolReport) : List Bytes :=
  let conInfoSize := if procId = 0 then (pools.length : Int) else size.toInt
  packet 112 [arraySizeCode, snprintf 16 conInfoSize] ::
    (sentPools procId pools).map (fun p => packet 112 (processInfoFields p.1)) ++
    [packet 112 [commandComplete]]

/-- The arrays of the client, and what has been put into them. -/
structure ProcessReply where
  arraySize : Option Int32
  infos : List ProcessInfo

/-- `SM_DATABASE` and `SM_USER` -/
def smDatabase : Nat := 64
def smUser : Nat := 32

def readProcessInfo (index : Bytes) : Option ProcessInfo := do
  let (pid, index) ← field index
  let (database, index) ← field index
  let (username, index) ← field index
  let (startTime, index) ← field index
  let (createTime, index) ← field index
  let (major, index) ← field index
  let (minor, index) ← field index
  let (counter, index) ← field index
  let (backendId, index) ← field index
  let (backendPid, index) ← field index
  let (connected, _) ← field index
  -- `strcpy` into arrays
  if database.1.length < smDatabase ∧ username.1.length < smUser then
    some ⟨atoi pid, database, username, atol startTime, atol createTime, atoi major, atoi minor,
      atoi counter, atoi backendId, atoi backendPid, atoi connected⟩
  else none

/-- One packet of `pcp_process_info`. -/
def handleProcessInfo (s : ProcessReply) (tos : UInt8) (buf : Bytes) : Option (ProcessReply × Bool) :=
  if tos = 101 then none
  else if tos = 112 then
    match field buf with
    | none => none
    | some (code, index) =>
      if code = arraySizeCode then
        match field index with
        | none => none
        | some (size, _) =>
          -- the arrays are allocated, and what had been put into others is lost
          if (atoi size).toInt < 0 ∨ s.infos ≠ [] then none else some (⟨some (atoi size), []⟩, false)
      else if code = processInfoCode then
        match s.arraySize, readProcessInfo index with
        | some size, some info =>
          if (s.infos.length : Int) < size.toInt then some (⟨size, s.infos ++ [info]⟩, false) else none
        | _, _ => none
      else if code = commandComplete then some (s, true)
      else some (s, false)
  else some (s, false)

def pcpProcessInfo (stream : Bytes) : Option (ProcessReply × Bytes) :=
  replies handleProcessInfo stream.length ⟨none, []⟩ stream

/-! ## The system database -/

/-- What is sent of a distribution rule. -/
structure DistDefInfo where
  dbname : CString
  schemaName : CString
  tableName : CString
  distKeyColName : CString
  colList : List CString
  typeList : List CString
  distDefFunc : CString

/-- What is sent of a `SystemDBInfo`. -/
structure SystemDBInfo where
  hostname : CString
  port : Int32
  user : CString
  password : CString
  schemaName : CString
  databaseName : CString
  status : Int32
  distDefSlot : List DistDefInfo

/-- `col_num` is the length of both lists, `dist_def_num` that of the rules; both are of type `int`. -/
structure SystemDBInfo.Sound (si : SystemDBInfo) : Prop where
  slots : si.distDefSlot.length < 2 ^ 31
  columns : ∀ ddi ∈ si.distDefSlot, ddi.colList.length < 2 ^ 31
  types : ∀ ddi ∈ si.distDefSlot, ddi.typeList.length = ddi.colList.length

abbrev SystemDB := {si : SystemDBInfo // si.Sound}

def systemDBInfoCode : CString := ⟨ascii "SystemDBInfo", by decide⟩
def distDefInfoCode : CString := ⟨ascii "DistDefInfo", by decide⟩

def systemDBFields (si : SystemDBInfo) : List CString :=
  [systemDBInfoCode, si.hostname, snprintf 6 si.port.toInt, si.user, si.password, si.schemaName,
    si.databaseName, snprintf 16 si.distDefSlot.length, snprintf 2 si.status.toInt]

def distDefFields (ddi : DistDefInfo) : List CString :=
  [distDefInfoCode, ddi.dbname, ddi.schemaName, ddi.tableName, ddi.distKeyColName,
    snprintf 16 ddi.colList.length] ++ ddi.colList ++ ddi.typeList ++ [ddi.distDefFunc]

def systemDBInfo (si : SystemDBInfo) : List Bytes :=
  packet 115 (systemDBFields si) :: si.distDefSlot.map (fun ddi => packet 115 (distDefFields ddi)) ++
    [packet 115 [commandComplete]]

/-- What the client has got so far, with `dist_def_num`. -/
abbrev SystemDBReply := Option (Int32 × SystemDBInfo)

def readSystemDBInfo (index : Bytes) : Option (Int32 × SystemDBInfo) := do
  let (hostname, index) ← field index
  let (port, index) ← field index
  let (user, index) ← field index
  let (password, index) ← field index
  let (schemaName, index) ← field index
  let (databaseName, index) ← field index
  let (distDefNum, index) ← field index
  let (status, _) ← field index
  some (atoi distDefNum,
    ⟨hostname, atoi port, user, password, schemaName, databaseName, atoi status, []⟩)

def readDistDefInfo (index : Bytes) : Option DistDefInfo := do
  let (dbname, index) ← field index
  let (schemaName, index) ← field index
  let (tableName, index) ← field index
  let (distKeyColName, index) ← field index
  let (colNum, index) ← field index
  -- `malloc` of a negative size fails
  if (atoi colNum).toInt < 0 then none
  else
    let (colList, index) ← Reader.many field (atoi colNum).toInt.toNat index
    let (typeList, index) ← Reader.many field (atoi colNum).toInt.toNat index
    let (distDefFunc, _) ← field index
    some ⟨dbname, schemaName, tableName, distKeyColName, colList, typeList, distDefFunc⟩

/-- One packet of `pcp_systemdb_info`. -/
def handleSystemDBInfo (s : SystemDBReply) (tos : UInt8) (buf : Bytes) :
    Option (SystemDBReply × Bool) :=
  if tos = 101 then none
  else if tos = 115 then
    match field buf with
    | none => none
    | some (code, index) =>
      if code = systemDBInfoCode then
        match readSystemDBInfo index with
        | none => none
        | some info => some (some info, false)
      else if code = distDefInfoCode then
        match s, readDistDefInfo index with
        | some (distDefNum, si), some ddi =>
          if (si.distDefSlot.length : Int) < distDefNum.toInt then
            some (some (distDefNum, { si with distDefSlot := si.distDefSlot ++ [ddi] }), false)
          else none
        | _, _ => none
      else if code = commandComplete then some (s, true)
      else some (s, false)
  else some (s, false)

def pcpSystemDBInfo (stream : Bytes) : Option (SystemDBReply × Bytes) :=
  replies handleSystemDBInfo stream.length none stream

/-! ## Numbers are read back -/

section

variable {k size : Nat}

theorem value_append_le (base : Nat) (hbase : 0 < base) (front back : List Nat) :
    Radix.value base front ≤ Radix.value base (front ++ back) := by
  have hfold (n : Nat) : n ≤ back.foldl (fun n d => base * n + d) n := by
    induction back generalizing n with
    | nil => exact Nat.le_refl _
    | cons d back ih =>
      have hstep : n ≤ base * n := Nat.le_mul_of_pos_left n hbase
      exact Nat.le_trans (Nat.le_trans hstep (Nat.le_add_right _ _)) (ih _)
  unfold Radix.value
  rw [List.foldl_append]
  exact hfold _

theorem value_lt (base : Nat) {ds : List Nat} (h : ∀ d ∈ ds, d < base) (n : Nat) :
    ds.foldl (fun n d => base * n + d) n < base ^ ds.length * (n + 1) := by
  induction ds generalizing n with
  | nil => simp
  | cons d ds ih =>
    obtain ⟨hd, hds⟩ := List.forall_mem_cons.mp h
    calc ds.foldl (fun n d => base * n + d) (base * n + d)
        < base ^ ds.length * (base * n + d + 1) := ih hds _
      _ ≤ base ^ ds.length * (base * (n + 1)) := by
        refine Nat.mul_le_mul_left _ ?_
        rw [Nat.mul_succ]
        omega
      _ = base ^ (d :: ds).length * (n + 1) := by rw [List.length_cons, Nat.pow_succ, Nat.mul_assoc]

theorem value_take_le (n : Nat) : Radix.value 10 ((Radix.digits 10 n).take k) ≤ n := by
  have hle := value_append_le 10 (by decide) ((Radix.digits 10 n).take k) ((Radix.digits 10 n).drop k)
  rwa [List.take_append_drop, Radix.value_digits] at hle

/-- Digits that are cut off are missed. -/
theorem value_take_lt {n : Nat} (hk : k < (Radix.digits 10 n).length) (h : 0 < k ∨ 0 < n) :
    Radix.value 10 ((Radix.digits 10 n).take k) < n := by
  rcases Nat.eq_zero_or_pos k with rfl | hpos
  · exact h.resolve_left (Nat.lt_irrefl 0)
  · have hn : 10 ^ k ≤ n := by
      by_contra hlt
      exact absurd (Radix.length_digits_le (by decide) hpos (Nat.lt_of_not_le hlt)) (Nat.not_le.mpr hk)
    have hdigits : ∀ d ∈ (Radix.digits 10 n).take k, d < 10 :=
      fun d hd => Radix.lt_of_mem_digits (by decide) d (List.mem_of_mem_take hd)
    have hlt := value_lt 10 hdigits 0
    rw [List.length_take, Nat.min_eq_left (Nat.le_of_lt hk)] at hlt
    exact Nat.lt_of_lt_of_le hlt (by omega)

theorem leading_take (n : Nat) :
    Radix.leading digitVal ((Radix.text digitChar 10 n).take k) = ((Radix.digits 10 n).take k, []) := by
  have h : Radix.leading digitVal (((Radix.digits 10 n).take k).map digitChar ++ []) = _ :=
    Radix.leading_append
      (fun d hd => (digitChar_ne (Radix.lt_of_mem_digits (by decide) d (List.mem_of_mem_take hd))).1) nofun
  rwa [List.append_nil, List.map_take] at h

theorem strtol_digits (hk : 0 < k) (n : Nat) :
    strtol ((Radix.text digitChar 10 n).take k) = Radix.value 10 ((Radix.digits 10 n).take k) := by
  obtain ⟨d, ds, hds⟩ := List.exists_cons_of_ne_nil (Radix.digits_ne_nil 10 n)
  obtain ⟨k, rfl⟩ : ∃ j, k = j + 1 := Nat.exists_eq_succ_of_ne_zero (by omega)
  have hd : d < 10 := by
    have hmem : d ∈ Radix.digits 10 n := by simp [hds]
    exact Radix.lt_of_mem_digits (by decide) d hmem
  obtain ⟨-, -, hminus, hplus, hspace⟩ := digitChar_ne hd
  have htext : (Radix.text digitChar 10 n).take (k + 1) = digitChar d :: (ds.map digitChar).take k := by
    rw [Radix.text, hds]
    rfl
  have hleading := leading_take (k := k + 1) n
  rw [htext] at hleading ⊢
  rw [strtol, List.dropWhile_cons_of_neg (by rw [hspace]; exact Bool.false_ne_true)]
  simp only [if_neg hminus, if_neg hplus, hleading]

/-- The number that is read of a text that has been cut. -/
theorem strtol_take (hk : 0 < k) (n : Int) :
    (min n 0 ≤ strtol ((decimal n).take k) ∧ strtol ((decimal n).take k) ≤ max n 0) ∧
      (strtol ((decimal n).take k) = n ↔ (decimal n).length ≤ k) := by
  unfold decimal
  split
  · next hneg =>
    obtain ⟨k, rfl⟩ : ∃ j, k = j + 1 := Nat.exists_eq_succ_of_ne_zero (by omega)
    have hvalue : strtol ((45 :: Radix.text digitChar 10 n.natAbs).take (k + 1)) =
        -(Radix.value 10 ((Radix.digits 10 n.natAbs).take k) : Int) := by
      rw [List.take_succ_cons, strtol, List.dropWhile_cons_of_neg (by decide)]
      simp only [if_true, leading_take]
    have hle := value_take_le (k := k) n.natAbs
    rw [hvalue, List.length_cons, Radix.text, List.length_map]
    refine ⟨by omega, ?_⟩
    by_cases hlong : k < (Radix.digits 10 n.natAbs).length
    · have hlt := value_take_lt hlong (.inr (by omega))
      omega
    · rw [List.take_of_length_le (by omega), Radix.value_digits]
      omega
  · next hpos =>
    have hle := value_take_le (k := k) n.natAbs
    rw [strtol_digits hk, Radix.text, List.length_map]
    refine ⟨by omega, ?_⟩
    by_cases hlong : k < (Radix.digits 10 n.natAbs).length
    · have hlt := value_take_lt hlong (.inl hk)
      omega
    · rw [List.take_of_length_le (by omega), Radix.value_digits]
      omega

/-- The numbers whose text has at most `k` characters. -/
def Within (k : Nat) (n : Int) : Prop := -(10 ^ (k - 1) : Nat) < n ∧ n < (10 ^ k : Nat)

theorem length_decimal_le (hk : 0 < k) (n : Int) : (decimal n).length ≤ k ↔ Within k n := by
  obtain ⟨k, rfl⟩ : ∃ j, k = j + 1 := Nat.exists_eq_succ_of_ne_zero (by omega)
  have hdigits (j : Nat) (hj : 0 < j) (m : Nat) : (Radix.digits 10 m).length ≤ j ↔ m < 10 ^ j := by
    constructor
    · intro h
      by_contra hlt
      exact absurd (Radix.lt_length_digits (by decide) (Nat.le_of_not_lt hlt)) (Nat.not_lt.mpr h)
    · exact Radix.length_digits_le (by decide) hj
  have hpow : 10 ^ k ≤ 10 ^ (k + 1) := Nat.pow_le_pow_right (by decide) (Nat.le_succ k)
  have hone : 0 < 10 ^ k := Nat.pow_pos (by decide)
  unfold decimal Within
  rw [Nat.add_sub_cancel]
  split
  · next hneg =>
    rw [List.length_cons, Radix.text, List.length_map]
    rcases Nat.eq_zero_or_pos k with rfl | hpos
    · have hne := List.length_pos_of_ne_nil (Radix.digits_ne_nil 10 n.natAbs)
      exact iff_of_false (by omega) (by omega)
    · rw [Nat.add_le_add_iff_right, hdigits k hpos]
      omega
  · next hpos =>
    rw [Radix.text, List.length_map, hdigits (k + 1) hk]
    omega

theorem atoi_snprintf (size : Nat) (hsize : 1 < size) (n : Int32) :
    atoi (snprintf size n.toInt) = n ↔ Within (size - 1) n.toInt := by
  obtain ⟨hle, heq⟩ := strtol_take (k := size - 1) (by omega) n.toInt
  have hlow := Int32.le_toInt n
  have hhigh := Int32.toInt_lt n
  rw [← length_decimal_le (by omega), ← heq]
  change Int32.ofInt (clamp (strtol ((decimal n.toInt).take (size - 1)))) = n ↔ _
  have hclamp : clamp (strtol ((decimal n.toInt).take (size - 1))) =
      strtol ((decimal n.toInt).take (size - 1)) := by
    unfold clamp
    omega
  rw [hclamp]
  constructor
  · intro h
    have hofInt := congrArg Int32.toInt h
    rwa [Int32.toInt_ofInt_of_le (by omega) (by omega)] at hofInt
  · intro h
    rw [h, Int32.ofInt_toInt]

theorem atol_snprintf (size : Nat) (hsize : 1 < size) (n : Int64) :
    atol (snprintf size n.toInt) = n ↔ Within (size - 1) n.toInt := by
  obtain ⟨hle, heq⟩ := strtol_take (k := size - 1) (by omega) n.toInt
  have hlow := Int64.le_toInt n
  have hhigh := Int64.toInt_lt n
  rw [← length_decimal_le (by omega), ← heq]
  change Int64.ofInt (clamp (strtol ((decimal n.toInt).take (size - 1)))) = n ↔ _
  have hclamp : clamp (strtol ((decimal n.toInt).take (size - 1))) =
      strtol ((decimal n.toInt).take (size - 1)) := by
    unfold clamp
    omega
  rw [hclamp]
  constructor
  · intro h
    have hofInt := congrArg Int64.toInt h
    rwa [Int64.toInt_ofInt_of_le (by omega) (by omega)] at hofInt
  · intro h
    rw [h, Int64.ofInt_toInt]

/-- Every `int` fits into 16 bytes. -/
theorem atoi_snprintf_16 (n : Int32) : atoi (snprintf 16 n.toInt) = n := by
  have hlow := Int32.le_toInt n
  have hhigh := Int32.toInt_lt n
  exact (atoi_snprintf 16 (by decide) n).mpr ⟨by norm_num; omega, by norm_num; omega⟩

theorem atoi_snprintf_length {n : Nat} (h : n < 2 ^ 31) : (atoi (snprintf 16 n)).toInt = n := by
  have hof : (Int32.ofInt n).toInt = n := Int32.toInt_ofInt_of_le (by omega) (by omega)
  have hread := atoi_snprintf_16 (Int32.ofInt n)
  rw [hof] at hread
  rw [hread, hof]

theorem length_snprintf (n : Int) : (snprintf size n).1.length ≤ size - 1 := List.length_take_le ..

end

/-! ## Packets are read back -/

section

variable {fields : List CString} {tos : UInt8} {buf rest stream : Bytes}

theorem field_append (s : CString) (rest : Bytes) : field (writeField s ++ rest) = some (s, rest) := by
  have hne : ∀ c ∈ s.1, (c != 0) = true := by
    intro c hc
    have h : c ≠ 0 := fun heq => s.2 (heq ▸ hc)
    simpa using h
  have htext : writeField s ++ rest = s.1 ++ 0 :: rest := by simp [writeField]
  have hdrop : (s.1 ++ 0 :: rest).dropWhile (· != 0) = 0 :: rest := by
    rw [List.dropWhile_append_of_pos hne]
    rfl
  have htake : (s.1 ++ 0 :: rest).takeWhile (· != 0) = s.1 := by
    rw [List.takeWhile_append_of_pos hne]
    simp
  rw [htext]
  unfold field
  rw [if_pos (by simp)]
  simp only [htake, hdrop, List.tail_cons]

theorem field_writeField (s : CString) : field (writeField s) = some (s, []) := by
  have h := field_append s []
  rwa [List.append_nil] at h

/-- Reading the first of some fields. -/
theorem field_bind {β : Type} (s : CString) (fields : List CString) (f : CString × Bytes → Option β) :
    (field ((s :: fields).flatMap writeField) >>= f) = f (s, fields.flatMap writeField) := by
  rw [List.flatMap_cons, field_append]
  rfl

theorem many_field (ss : List CString) (rest : Bytes) :
    Reader.many field ss.length (ss.flatMap writeField ++ rest) = some (ss, rest) :=
  Reader.many_append (fun s _ => field_append s) rest

theorem length_fields : (fields.flatMap writeField).length + 4 = wsize fields := by
  induction fields with
  | nil => rfl
  | cons s fields ih =>
    simp only [wsize, writeField, List.flatMap_cons, List.length_append, List.length_cons,
      List.length_nil, List.map_cons, List.sum_cons] at ih ⊢
    omega

theorem length_packet : (packet tos fields).length = wsize fields + 1 := by
  rw [← length_fields, packet, List.length_cons, List.length_append]
  simp only [htonl, List.length_cons, List.length_nil]
  omega

theorem ntohl_htonl (n : Nat) : ntohl (UInt8.ofNat (n / 2 ^ 24)) (UInt8.ofNat (n / 2 ^ 16))
    (UInt8.ofNat (n / 2 ^ 8)) (UInt8.ofNat n) = Words.int32 n := by
  have hmod : ((n / 2 ^ 24 % 2 ^ 8 * 256 + n / 2 ^ 16 % 2 ^ 8) * 256 + n / 2 ^ 8 % 2 ^ 8) * 256 +
      n % 2 ^ 8 = n % 2 ^ 32 := by omega
  unfold ntohl
  simp only [UInt8.toNat_ofNat']
  rw [hmod, BitVec.toInt_ofNat', Words.int32, Int.natCast_mod]
  exact Int.emod_bmod _ (2 ^ 32)

theorem lengthWord_packet : lengthWord (packet tos fields) = some (Words.int32 (wsize fields)) :=
  congrArg some (ntohl_htonl (wsize fields))

theorem sized_packet : lengthWord (packet tos fields) = some (((packet tos fields).length : Int) - 1) ↔
    wsize fields < 2 ^ 31 := by
  rw [lengthWord_packet, length_packet, Option.some_inj, Nat.cast_succ, Int.add_sub_cancel]
  exact Words.int32_natCast_iff

theorem readReply_packet (h : wsize fields < 2 ^ 31) (rest : Bytes) :
    readReply (packet tos fields ++ rest) = some (tos, fields.flatMap writeField, rest) := by
  have hlength := @length_fields fields
  have htake : Reader.take ((wsize fields : Int) - 4).toNat (fields.flatMap writeField ++ rest) =
      some (fields.flatMap writeField, rest) := Reader.take_append (by omega) rest
  have hread : readReply (packet tos fields ++ rest) =
      if Words.int32 (wsize fields) < 4 then none
      else (Reader.take (Words.int32 (wsize fields) - 4).toNat (fields.flatMap writeField ++ rest)).map
        fun (buf, rest) => (tos, buf, rest) := by
    rw [← ntohl_htonl]
    rfl
  rw [hread, Words.int32_natCast_iff.mpr h, if_neg (by omega), htake]
  rfl

variable {σ : Type} {handle : σ → UInt8 → Bytes → Option (σ × Bool)} {s s' : σ} {fuel : Nat}

theorem replies_packet (h : wsize fields < 2 ^ 31)
    (hhandle : handle s tos (fields.flatMap writeField) = some (s', false)) :
    replies handle (fuel + 1) s (packet tos fields ++ rest) = replies handle fuel s' rest := by
  rw [replies, readReply_packet h]
  simp only [hhandle]

theorem replies_last (h : wsize fields < 2 ^ 31)
    (hhandle : handle s tos (fields.flatMap writeField) = some (s', true)) :
    replies handle (fuel + 1) s (packet tos fields ++ rest) = some (s', rest) := by
  rw [replies, readReply_packet h]
  simp only [hhandle]

/-- As many packets as there are values, each of which takes the state on. -/
theorem replies_packets {α : Type} {fieldsOf : α → List CString} (next : σ → α → σ) {as : List α}
    (hsize : ∀ a ∈ as, wsize (fieldsOf a) < 2 ^ 31)
    (hhandle : ∀ front a back, as = front ++ a :: back →
      handle (front.foldl next s) tos ((fieldsOf a).flatMap writeField) =
        some (next (front.foldl next s) a, false)) :
    replies handle (fuel + as.length) s ((as.map fun a => packet tos (fieldsOf a)).flatten ++ rest) =
      replies handle fuel (as.foldl next s) rest := by
  induction as generalizing s with
  | nil => rfl
  | cons a as ih =>
    obtain ⟨ha, has⟩ := List.forall_mem_cons.mp hsize
    have hfirst : handle s tos ((fieldsOf a).flatMap writeField) = some (next s a, false) :=
      hhandle [] a as rfl
    rw [List.map_cons, List.flatten_cons, List.append_assoc, List.length_cons, ← Nat.add_assoc,
      replies_packet ha hfirst, List.foldl_cons]
    refine ih has fun front b back heq => ?_
    exact hhandle (a :: front) b back (by rw [heq]; rfl)

end

/-! ## Agreement -/

section

variable {W : Type}

theorem map_eq_self {α : Type} {f : α → α} {as : List α} : as.map f = as ↔ ∀ a ∈ as, f a = a := by
  induction as with
  | nil => simp
  | cons a as ih => simp [ih]

theorem sum_length_le {fields : List CString} {n : Nat} (h : ∀ s ∈ fields, s.1.length ≤ n) :
    (fields.map fun s => s.1.length + 1).sum ≤ (n + 1) * fields.length := by
  induction fields with
  | nil => exact Nat.le_refl _
  | cons s fields ih =>
    obtain ⟨hs, hfields⟩ := List.forall_mem_cons.mp h
    have hrest := ih hfields
    rw [List.map_cons, List.sum_cons, List.length_cons, Nat.mul_succ]
    omega

/-- A packet of a few short strings. -/
theorem wsize_lt {fields : List CString} (hlength : ∀ s ∈ fields, s.1.length ≤ 200)
    (hfew : fields.length ≤ 20) : wsize fields < 2 ^ 31 := by
  have hsum := sum_length_le hlength
  have hmul : (200 + 1) * fields.length ≤ 201 * 20 := Nat.mul_le_mul_left _ hfew
  unfold wsize
  omega

theorem agrees_singleton {α : Type} {tos : UInt8} {fields : List CString}
    {decode : Bytes → Option (α × Bytes)} {a : α} : Agrees [packet tos fields] decode a ↔
      wsize fields < 2 ^ 31 ∧ decode (packet tos fields ++ []) = some (a, []) := by
  constructor
  · intro h
    refine ⟨sized_packet.mp (h.sized _ List.mem_cons_self), ?_⟩
    have hdecoded := h.decoded
    rwa [List.flatten_cons, List.flatten_nil] at hdecoded
  · intro ⟨hsize, hdecoded⟩
    refine ⟨List.forall_mem_singleton.mpr (sized_packet.mpr hsize), ?_⟩
    rwa [List.flatten_cons, List.flatten_nil]

/-! ### Node information -/

theorem nodeInfo_agrees (fmt : DoubleText W)
    (bi : {bi : NodeInfo W // bi.hostname.1.length < maxDbHostNamelen}) :
    Agrees (nodeInfo fmt bi.1) (pcpNodeInfo fmt) bi.1 ↔
      Within 5 bi.1.port.toInt ∧ Within 1 bi.1.status.toInt ∧
        fmt.atof ((fmt.printF bi.1.weight).take 19) = bi.1.weight := by
  obtain ⟨⟨hostname, port, status, weight⟩, hhost⟩ := bi
  have hhost' : hostname.1.length < 128 := hhost
  have hweight : ((fmt.printF weight).take 19).1.length ≤ 19 := List.length_take_le ..
  have hport : (snprintf 6 port.toInt).1.length ≤ 5 := length_snprintf _
  have hstatus : (snprintf 2 status.toInt).1.length ≤ 1 := length_snprintf _
  have hsize : wsize (nodeInfoFields fmt ⟨hostname, port, status, weight⟩) < 2 ^ 31 := by
    refine wsize_lt ?_ (by simp [nodeInfoFields])
    have hcode : commandComplete.1.length = 15 := rfl
    simp only [nodeInfoFields, List.mem_cons, List.not_mem_nil, or_false, forall_eq_or_imp, forall_eq]
    omega
  have hdecode : pcpNodeInfo fmt (packet 105 (nodeInfoFields fmt ⟨hostname, port, status, weight⟩) ++ []) =
      some (⟨hostname, atoi (snprintf 6 port.toInt), atoi (snprintf 2 status.toInt),
        fmt.atof ((fmt.printF weight).take 19)⟩, []) := by
    unfold pcpNodeInfo
    rw [readReply_packet hsize]
    simp [nodeInfoFields, field_append, field_writeField, hhost]
  have hportRead : atoi (snprintf 6 port.toInt) = port ↔ Within 5 port.toInt :=
    atoi_snprintf 6 (by decide) port
  have hstatusRead : atoi (snprintf 2 status.toInt) = status ↔ Within 1 status.toInt :=
    atoi_snprintf 2 (by decide) status
  rw [nodeInfo, agrees_singleton, and_iff_right hsize, hdecode, ← hportRead, ← hstatusRead]
  simp

/-! ### Processes -/

theorem processCount_agrees (pids : List Int32) : Agrees (processCount pids) pcpProcessCount pids ↔
    (∀ pid ∈ pids, Within 5 pid.toInt) ∧ 6 * pids.length < 2 ^ 31 ∧
      wsize (processCountFields pids) < 2 ^ 31 := by
  unfold processCount
  split
  · next hbuffer =>
    rw [agrees_singleton, and_comm, and_iff_right hbuffer]
    refine and_congr_left fun hsize => ?_
    have hcount := atoi_snprintf_length (n := pids.length) (by omega)
    have hmany := many_field (pids.map fun pid => snprintf 6 pid.toInt) []
    rw [List.length_map, List.append_nil] at hmany
    have hdecode : pcpProcessCount (packet 110 (processCountFields pids) ++ []) =
        some (pids.map fun pid => atoi (snprintf 6 pid.toInt), []) := by
      unfold pcpProcessCount
      rw [readReply_packet hsize]
      simp only [processCountFields, List.flatMap_cons, Option.bind_eq_bind, Option.bind_some, field_append,
        true_and, if_true, hcount]
      rw [if_neg (by omega), Int.toNat_natCast, hmany]
      simp
    rw [hdecode, Option.some_inj, Prod.mk.injEq, and_iff_left rfl, map_eq_self]
    exact forall₂_congr fun pid _ => atoi_snprintf 6 (by decide) pid
  · next hbuffer =>
    refine iff_of_false (fun h => ?_) fun h => hbuffer h.2.1
    cases h.decoded

/-! ### The system database -/

theorem readSystemDBInfo_fields (si : SystemDBInfo) :
    readSystemDBInfo ((systemDBFields si).tail.flatMap writeField) =
      some (atoi (snprintf 16 si.distDefSlot.length), { si with
        port := atoi (snprintf 6 si.port.toInt)
        status := atoi (snprintf 2 si.status.toInt)
        distDefSlot := [] }) := by
  unfold readSystemDBInfo systemDBFields
  rw [List.tail_cons]
  iterate 8 refine (field_bind _ _ _).trans ?_
  rfl

theorem readDistDefInfo_fields {ddi : DistDefInfo} (hcolumns : ddi.colList.length < 2 ^ 31)
    (htypes : ddi.typeList.length = ddi.colList.length) :
    readDistDefInfo ((distDefFields ddi).tail.flatMap writeField) = some ddi := by
  have hcount := atoi_snprintf_length hcolumns
  have hcolList := many_field ddi.colList (ddi.typeList.flatMap writeField ++ writeField ddi.distDefFunc)
  have htypeList := many_field ddi.typeList (writeField ddi.distDefFunc)
  rw [htypes] at htypeList
  unfold readDistDefInfo distDefFields
  simp only [List.cons_append, List.tail_cons, List.flatMap_cons, List.flatMap_append, List.flatMap_nil,
    List.append_nil, List.nil_append, List.append_assoc, Option.bind_eq_bind, Option.bind_some,
    field_append, hcount]
  rw [if_neg (by omega), Int.toNat_natCast, hcolList]
  simp only [Option.bind_some, htypeList, field_writeField]

theorem handle_systemDBInfo (si : SystemDBInfo) (s : SystemDBReply) :
    handleSystemDBInfo s 115 ((systemDBFields si).flatMap writeField) =
      some (some (atoi (snprintf 16 si.distDefSlot.length), { si with
        port := atoi (snprintf 6 si.port.toInt)
        status := atoi (snprintf 2 si.status.toInt)
        distDefSlot := [] }), false) := by
  have hfields : (systemDBFields si).flatMap writeField =
      writeField systemDBInfoCode ++ (systemDBFields si).tail.flatMap writeField := rfl
  rw [hfields, handleSystemDBInfo, if_neg (by decide), if_pos rfl, field_append]
  simp only [if_true, readSystemDBInfo_fields]

theorem handle_distDefInfo {ddi : DistDefInfo} (hcolumns : ddi.colList.length < 2 ^ 31)
    (htypes : ddi.typeList.length = ddi.colList.length) {distDefNum : Int32} {si : SystemDBInfo}
    (hroom : (si.distDefSlot.length : Int) < distDefNum.toInt) :
    handleSystemDBInfo (some (distDefNum, si)) 115 ((distDefFields ddi).flatMap writeField) =
      some (some (distDefNum, { si with distDefSlot := si.distDefSlot ++ [ddi] }), false) := by
  have hfields : (distDefFields ddi).flatMap writeField =
      writeField distDefInfoCode ++ (distDefFields ddi).tail.flatMap writeField := rfl
  have hcode : distDefInfoCode ≠ systemDBInfoCode := by decide
  rw [hfields, handleSystemDBInfo, if_neg (by decide), if_pos rfl, field_append]
  simp only [if_neg hcode, if_true, readDistDefInfo_fields hcolumns htypes, if_pos hroom]

theorem handle_systemDB_complete (s : SystemDBReply) :
    handleSystemDBInfo s 115 ([commandComplete].flatMap writeField) = some (s, true) := by
  have hfields : [commandComplete].flatMap writeField = writeField commandComplete ++ [] := rfl
  have hcode : commandComplete ≠ systemDBInfoCode := by decide
  have hcode' : commandComplete ≠ distDefInfoCode := by decide
  rw [hfields, handleSystemDBInfo, if_neg (by decide), if_pos rfl, field_append]
  simp only [if_neg hcode, if_neg hcode', if_true]

/-- What a rule adds to what has been got. -/
def SystemDBReply.add (s : SystemDBReply) (ddi : DistDefInfo) : SystemDBReply :=
  s.map fun (n, si) => (n, { si with distDefSlot := si.distDefSlot ++ [ddi] })

theorem foldl_add (ddis : List DistDefInfo) (n : Int32) (si : SystemDBInfo) :
    ddis.foldl SystemDBReply.add (some (n, si)) =
      some (n, { si with distDefSlot := si.distDefSlot ++ ddis }) := by
  induction ddis generalizing si with
  | nil => simp
  | cons ddi ddis ih =>
    rw [List.foldl_cons, SystemDBReply.add, Option.map_some, ih]
    simp

theorem wsize_complete : wsize [commandComplete] < 2 ^ 31 := by decide

theorem pcpSystemDBInfo_stream (si : SystemDB) (hsize : wsize (systemDBFields si.1) < 2 ^ 31)
    (hrules : ∀ ddi ∈ si.1.distDefSlot, wsize (distDefFields ddi) < 2 ^ 31) :
    pcpSystemDBInfo (systemDBInfo si.1).flatten =
      some (some (Int32.ofInt si.1.distDefSlot.length, { si.1 with
        port := atoi (snprintf 6 si.1.port.toInt)
        status := atoi (snprintf 2 si.1.status.toInt) }), []) := by
  obtain ⟨si, hsound⟩ := si
  have hslots := hsound.slots
  have hcount := atoi_snprintf_length hslots
  have hnum : atoi (snprintf 16 si.distDefSlot.length) = Int32.ofInt si.distDefSlot.length := by
    have hof := Int32.ofInt_toInt (atoi (snprintf 16 si.distDefSlot.length))
    rw [hcount] at hof
    exact hof.symm
  have hstream : (systemDBInfo si).flatten = packet 115 (systemDBFields si) ++
      ((si.distDefSlot.map fun ddi => packet 115 (distDefFields ddi)).flatten ++
        (packet 115 [commandComplete] ++ [])) := by
    simp [systemDBInfo]
  obtain ⟨fuel, hfuel⟩ : ∃ fuel, (systemDBInfo si).flatten.length =
      fuel + 1 + si.distDefSlot.length + 1 := by
    have hlong (ddis : List DistDefInfo) : ddis.length ≤
        (ddis.map fun ddi => packet 115 (distDefFields ddi)).flatten.length := by
      induction ddis with
      | nil => exact Nat.le_refl _
      | cons ddi ddis ih =>
        rw [List.map_cons, List.flatten_cons, List.length_append, length_packet, List.length_cons]
        omega
    have hrest := hlong si.distDefSlot
    refine ⟨(systemDBInfo si).flatten.length - (si.distDefSlot.length + 2), ?_⟩
    rw [hstream, List.length_append, List.length_append, List.length_append, length_packet, length_packet]
    omega
  rw [pcpSystemDBInfo, hfuel, hstream, replies_packet hsize (handle_systemDBInfo si none),
    replies_packets SystemDBReply.add hrules, foldl_add,
    replies_last wsize_complete (handle_systemDB_complete _), hnum]
  · simp
  · intro front ddi back hsplit
    have hmem : ddi ∈ si.distDefSlot := by
      rw [hsplit]
      exact List.mem_append_right _ List.mem_cons_self
    have hroom : (front.length : Int) < (atoi (snprintf 16 si.distDefSlot.length)).toInt := by
      rw [hcount, hsplit, List.length_append, List.length_cons]
      omega
    rw [foldl_add]
    exact handle_distDefInfo (hsound.columns ddi hmem) (hsound.types ddi hmem) hroom

theorem systemDBInfo_agrees (si : SystemDB) :
    Agrees (systemDBInfo si.1) pcpSystemDBInfo (some (Int32.ofInt si.1.distDefSlot.length, si.1)) ↔
      Within 5 si.1.port.toInt ∧ Within 1 si.1.status.toInt ∧ wsize (systemDBFields si.1) < 2 ^ 31 ∧
        ∀ ddi ∈ si.1.distDefSlot, wsize (distDefFields ddi) < 2 ^ 31 := by
  have hsized : (∀ p ∈ systemDBInfo si.1, lengthWord p = some ((p.length : Int) - 1)) ↔
      wsize (systemDBFields si.1) < 2 ^ 31 ∧
        ∀ ddi ∈ si.1.distDefSlot, wsize (distDefFields ddi) < 2 ^ 31 := by
    have hlast : lengthWord (packet 115 [commandComplete]) =
        some (((packet 115 [commandComplete]).length : Int) - 1) := sized_packet.mpr wsize_complete
    rw [systemDBInfo, List.cons_append, List.forall_mem_cons, List.forall_mem_append,
      List.forall_mem_map, List.forall_mem_singleton, and_iff_left hlast, sized_packet]
    exact and_congr_right fun _ => forall₂_congr fun _ _ => sized_packet
  have hvalue (hsize : wsize (systemDBFields si.1) < 2 ^ 31)
      (hrules : ∀ ddi ∈ si.1.distDefSlot, wsize (distDefFields ddi) < 2 ^ 31) :
      pcpSystemDBInfo (systemDBInfo si.1).flatten =
        some (some (Int32.ofInt si.1.distDefSlot.length, si.1), []) ↔
        Within 5 si.1.port.toInt ∧ Within 1 si.1.status.toInt := by
    have hport : atoi (snprintf 6 si.1.port.toInt) = si.1.port ↔ Within 5 si.1.port.toInt :=
      atoi_snprintf 6 (by decide) _
    have hstatus : atoi (snprintf 2 si.1.status.toInt) = si.1.status ↔ Within 1 si.1.status.toInt :=
      atoi_snprintf 2 (by decide) _
    rw [pcpSystemDBInfo_stream si hsize hrules, ← hport, ← hstatus]
    obtain ⟨⟨hostname, port, user, password, schemaName, databaseName, status, slots⟩, hsound⟩ := si
    simp
  constructor
  · intro h
    obtain ⟨hsize, hrules⟩ := hsized.mp h.sized
    obtain ⟨hport, hstatus⟩ := (hvalue hsize hrules).mp h.decoded
    exact ⟨hport, hstatus, hsize, hrules⟩
  · intro ⟨hport, hstatus, hsize, hrules⟩
    exact ⟨hsized.mpr ⟨hsize, hrules⟩, (hvalue hsize hrules).mpr ⟨hport, hstatus⟩⟩

/-! ### Pools -/

/-- What is read of a line of the report. -/
def ProcessInfo.received (p : ProcessInfo) : ProcessInfo :=
  { p with
    startTime := atol (snprintf 20 p.startTime.toInt)
    createTime := atol (snprintf 20 p.createTime.toInt)
    major := atoi (snprintf 5 p.major.toInt)
    minor := atoi (snprintf 5 p.minor.toInt)
    connected := atoi (snprintf 2 p.connected.toInt) }

/-- The numbers of a line fit into their buffers. -/
structure ProcessInfo.Printable (p : ProcessInfo) : Prop where
  startTime : Within 19 p.startTime.toInt
  createTime : Within 19 p.createTime.toInt
  major : Within 4 p.major.toInt
  minor : Within 4 p.minor.toInt
  connected : Within 1 p.connected.toInt

section

variable {p : ProcessInfo} {n : Int32} {infos : List ProcessInfo} {fuel : Nat}

theorem received_eq_self : p.received = p ↔ p.Printable := by
  have hstart := atol_snprintf (20) (by decide) p.startTime
  have hcreate := atol_snprintf (20) (by decide) p.createTime
  have hmajor := atoi_snprintf (5) (by decide) p.major
  have hminor := atoi_snprintf (5) (by decide) p.minor
  have hconnected := atoi_snprintf (2) (by decide) p.connected
  constructor
  · intro h
    obtain ⟨pid, database, username, startTime, createTime, major, minor, counter, backendId, backendPid,
      connected⟩ := p
    simp only [ProcessInfo.received, ProcessInfo.mk.injEq, true_and] at h
    obtain ⟨hs, hc, hma, hmi, hco⟩ := h
    exact ⟨hstart.mp hs, hcreate.mp hc, hmajor.mp hma, hminor.mp hmi, hconnected.mp hco⟩
  · intro h
    unfold ProcessInfo.received
    rw [hstart.mpr h.startTime, hcreate.mpr h.createTime, hmajor.mpr h.major, hminor.mpr h.minor,
      hconnected.mpr h.connected]

theorem readProcessInfo_fields (hdatabase : p.database.1.length < smDatabase) :
    readProcessInfo ((processInfoFields p).tail.flatMap writeField) =
      if p.username.1.length < smUser then some p.received else none := by
  unfold readProcessInfo processInfoFields
  rw [List.tail_cons]
  iterate 11 refine (field_bind _ _ _).trans ?_
  simp only [hdatabase, true_and, atoi_snprintf_16]
  rfl

theorem handle_arraySize (size : Int) (hsize : 0 ≤ (atoi (snprintf 16 size)).toInt) :
    handleProcessInfo ⟨none, []⟩ 112 ([arraySizeCode, snprintf 16 size].flatMap writeField) =
      some (⟨some (atoi (snprintf 16 size)), []⟩, false) := by
  have hfields : [arraySizeCode, snprintf 16 size].flatMap writeField =
      writeField arraySizeCode ++ writeField (snprintf 16 size) := by simp
  rw [hfields, handleProcessInfo, if_neg (by decide), if_pos rfl, field_append]
  simp only [if_true, field_writeField]
  rw [if_neg (by simpa using hsize)]

theorem handle_processInfo (n : Int32) (infos : List ProcessInfo)
    (hdatabase : p.database.1.length < smDatabase) :
    handleProcessInfo ⟨some n, infos⟩ 112 ((processInfoFields p).flatMap writeField) =
      if p.username.1.length < smUser ∧ (infos.length : Int) < n.toInt then
        some (⟨some n, infos ++ [p.received]⟩, false)
      else none := by
  have hfields : (processInfoFields p).flatMap writeField =
      writeField processInfoCode ++ (processInfoFields p).tail.flatMap writeField := rfl
  have hcode : processInfoCode ≠ arraySizeCode := by decide
  rw [hfields, handleProcessInfo, if_neg (by decide), if_pos rfl, field_append]
  simp only [if_neg hcode, if_true, readProcessInfo_fields hdatabase]
  by_cases huser : p.username.1.length < smUser
  · simp only [huser, if_true, true_and]
  · simp only [huser, if_false, false_and]

theorem handle_processInfo_complete (s : ProcessReply) :
    handleProcessInfo s 112 ([commandComplete].flatMap writeField) = some (s, true) := by
  have hfields : [commandComplete].flatMap writeField = writeField commandComplete ++ [] := rfl
  have hcode : commandComplete ≠ arraySizeCode := by decide
  have hcode' : commandComplete ≠ processInfoCode := by decide
  rw [hfields, handleProcessInfo, if_neg (by decide), if_pos rfl, field_append]
  simp only [if_neg hcode, if_neg hcode', if_true]

theorem wsize_processInfo (p : PoolReport) : wsize (processInfoFields p.1) < 2 ^ 31 := by
  obtain ⟨p, hdatabase, huser⟩ := p
  refine wsize_lt ?_ (by simp [processInfoFields])
  have hcode : processInfoCode.1.length = 11 := rfl
  have hlong (size : Nat) (n : Int) (h : size ≤ 200) : (snprintf size n).1.length ≤ 200 :=
    Nat.le_trans (length_snprintf n) (by omega)
  simp only [processInfoFields, List.mem_cons, List.not_mem_nil, or_false, forall_eq_or_imp, forall_eq]
  exact ⟨by omega, hlong _ _ (by decide), by omega, by omega, hlong _ _ (by decide),
    hlong _ _ (by decide), hlong _ _ (by decide), hlong _ _ (by decide), hlong _ _ (by decide),
    hlong _ _ (by decide), hlong _ _ (by decide), hlong _ _ (by decide)⟩

/-- The lines are read as long as there is room for them, in the arrays and in each entry. -/
theorem replies_processInfo (pools : List PoolReport) :
    replies handleProcessInfo (fuel + 1 + pools.length) ⟨some n, infos⟩
        ((pools.map fun p => packet 112 (processInfoFields p.1)).flatten ++
          (packet 112 [commandComplete] ++ [])) =
      if (∀ p ∈ pools, p.1.username.1.length < smUser) ∧
          (pools = [] ∨ (infos.length + pools.length : Int) ≤ n.toInt) then
        some (⟨some n, infos ++ pools.map (·.1.received)⟩, [])
      else none := by
  induction pools generalizing infos with
  | nil =>
    rw [if_pos ⟨nofun, .inl rfl⟩]
    simp only [List.map_nil, List.flatten_nil, List.nil_append, List.length_nil, Nat.add_zero]
    rw [replies_last wsize_complete (handle_processInfo_complete _), List.append_nil]
  | cons p pools ih =>
    have hhandle := handle_processInfo n infos (Nat.lt_succ_of_le p.2.1)
    have hfuel : fuel + 1 + (p :: pools).length = fuel + 1 + pools.length + 1 := rfl
    rw [List.map_cons, List.flatten_cons, List.append_assoc, hfuel]
    by_cases hroom : p.1.username.1.length < smUser ∧ (infos.length : Int) < n.toInt
    · rw [if_pos hroom] at hhandle
      rw [replies_packet (wsize_processInfo p) hhandle, ih]
      have hcond : ((∀ q ∈ p :: pools, q.1.username.1.length < smUser) ∧
          (p :: pools = [] ∨ (infos.length + (p :: pools).length : Int) ≤ n.toInt)) ↔
          (∀ q ∈ pools, q.1.username.1.length < smUser) ∧
          (pools = [] ∨ ((infos ++ [p.1.received]).length + pools.length : Int) ≤ n.toInt) := by
        rw [List.forall_mem_cons, and_iff_right hroom.1]
        refine and_congr_right fun _ => ?_
        rcases pools with _ | ⟨q, pools⟩
        · simp
          omega
        · simp only [List.length_append, List.length_cons, List.length_nil, reduceCtorEq, false_or]
          omega
      simp only [hcond, List.map_cons, List.append_assoc, List.cons_append, List.nil_append]
    · rw [if_neg hroom] at hhandle
      rw [replies, readReply_packet (wsize_processInfo p)]
      simp only [hhandle]
      rw [if_neg]
      intro ⟨husers, hlength⟩
      have hle := hlength.resolve_left (List.cons_ne_nil _ _)
      rw [List.length_cons] at hle
      exact hroom ⟨husers p List.mem_cons_self, by omega⟩

/-- `ArraySize` as it is written. -/
def conInfoSize (procId size : Int32) (pools : List PoolReport) : Int32 :=
  if procId = 0 then Int32.ofInt pools.length else size

theorem pcpProcessInfo_stream (procId size : Int32)
    (pools : {pools : List PoolReport // pools.length < 2 ^ 31}) :
    pcpProcessInfo (processInfo procId size pools.1).flatten =
      if 0 ≤ (conInfoSize procId size pools.1).toInt ∧
          (∀ p ∈ sentPools procId pools.1, p.1.username.1.length < smUser) ∧
          (sentPools procId pools.1 = [] ∨
            ((sentPools procId pools.1).length : Int) ≤ (conInfoSize procId size pools.1).toInt) then
        some (⟨some (conInfoSize procId size pools.1),
          (sentPools procId pools.1).map (·.1.received)⟩, [])
      else none := by
  obtain ⟨pools, hlength⟩ := pools
  have hwritten : (if procId = 0 then (pools.length : Int) else size.toInt) =
      (conInfoSize procId size pools).toInt := by
    unfold conInfoSize
    split
    · exact (Int32.toInt_ofInt_of_le (by omega) (by omega)).symm
    · rfl
  have hstream : (processInfo procId size pools).flatten =
      packet 112 [arraySizeCode, snprintf 16 (conInfoSize procId size pools).toInt] ++
        (((sentPools procId pools).map fun p => packet 112 (processInfoFields p.1)).flatten ++
          (packet 112 [commandComplete] ++ [])) := by
    simp [processInfo, hwritten]
  have hfuel : ∃ fuel, (processInfo procId size pools).flatten.length =
      fuel + 1 + (sentPools procId pools).length + 1 := by
    have hlong (ps : List PoolReport) : ps.length ≤
        (ps.map fun p => packet 112 (processInfoFields p.1)).flatten.length := by
      induction ps with
      | nil => exact Nat.le_refl _
      | cons p ps ih =>
        rw [List.map_cons, List.flatten_cons, List.length_append, length_packet, List.length_cons]
        omega
    have hrest := hlong (sentPools procId pools)
    refine ⟨(processInfo procId size pools).flatten.length - ((sentPools procId pools).length + 2), ?_⟩
    rw [hstream, List.length_append, List.length_append, List.length_append, length_packet, length_packet]
    omega
  obtain ⟨fuel, hfuel⟩ := hfuel
  have hsize : wsize [arraySizeCode, snprintf 16 (conInfoSize procId size pools).toInt] < 2 ^ 31 := by
    refine wsize_lt ?_ (by simp)
    have hcode : arraySizeCode.1.length = 9 := rfl
    have hnumber : (snprintf 16 (conInfoSize procId size pools).toInt).1.length ≤ 15 := length_snprintf _
    simp only [List.mem_cons, List.not_mem_nil, or_false, forall_eq_or_imp, forall_eq]
    omega
  rw [pcpProcessInfo, hfuel, hstream]
  by_cases hpos : 0 ≤ (conInfoSize procId size pools).toInt
  · have hhandle := handle_arraySize (conInfoSize procId size pools).toInt
      (by rw [atoi_snprintf_16]; exact hpos)
    rw [atoi_snprintf_16] at hhandle
    rw [replies_packet hsize hhandle, replies_processInfo]
    simp only [List.length_nil, Nat.cast_zero, Int.zero_add, List.nil_append, hpos, true_and]
  · have hfields : [arraySizeCode, snprintf 16 (conInfoSize procId size pools).toInt].flatMap writeField =
        writeField arraySizeCode ++ writeField (snprintf 16 (conInfoSize procId size pools).toInt) := by
      simp
    have hhandle : handleProcessInfo ⟨none, []⟩ 112
        ([arraySizeCode, snprintf 16 (conInfoSize procId size pools).toInt].flatMap writeField) = none := by
      rw [hfields, handleProcessInfo, if_neg (by decide), if_pos rfl, field_append]
      simp only [if_true, field_writeField, atoi_snprintf_16]
      rw [if_pos (.inl (by omega))]
    rw [replies, readReply_packet hsize]
    simp only [hhandle]
    rw [if_neg fun h => hpos h.1]

theorem processInfo_agrees (procId size : Int32)
    (pools : {pools : List PoolReport // pools.length < 2 ^ 31}) :
    (∃ n : Int32, n.toInt = (sentPools procId pools.1).length ∧
      Agrees (processInfo procId size pools.1) pcpProcessInfo
        ⟨some n, (sentPools procId pools.1).map (·.1)⟩) ↔
      (procId = 0 ∨ size.toInt = (sentPools procId pools.1).length) ∧
        ∀ p ∈ sentPools procId pools.1, p.1.Printable ∧ p.1.username.1.length < smUser := by
  have hsized : ∀ p ∈ processInfo procId size pools.1, lengthWord p = some ((p.length : Int) - 1) := by
    have hlast : lengthWord (packet 112 [commandComplete]) =
        some (((packet 112 [commandComplete]).length : Int) - 1) := sized_packet.mpr wsize_complete
    have hcode : arraySizeCode.1.length = 9 := rfl
    rw [processInfo, List.cons_append, List.forall_mem_cons, List.forall_mem_append,
      List.forall_mem_map, List.forall_mem_singleton, and_iff_left hlast]
    refine ⟨sized_packet.mpr (wsize_lt ?_ (by simp)), fun p _ => sized_packet.mpr (wsize_processInfo p)⟩
    simp only [List.mem_cons, List.not_mem_nil, or_false, forall_eq_or_imp, forall_eq]
    exact ⟨by omega, Nat.le_trans (length_snprintf _) (by decide)⟩
  have hall : (∀ p ∈ sentPools procId pools.1, p.1.received = p.1) ↔
      (sentPools procId pools.1).map (·.1.received) = (sentPools procId pools.1).map (·.1) :=
    List.map_inj_left.symm
  have hcount : (conInfoSize procId size pools.1).toInt = (sentPools procId pools.1).length ↔
      procId = 0 ∨ size.toInt = (sentPools procId pools.1).length := by
    have hlength := pools.2
    unfold conInfoSize
    split
    · next hzero =>
      have hsent : sentPools procId pools.1 = pools.1 := by simp [sentPools, hzero]
      refine iff_of_true ?_ (.inl hzero)
      rw [hsent]
      exact Int32.toInt_ofInt_of_le (by omega) (by omega)
    · next hzero => rw [or_iff_right hzero]
  rw [← hcount, forall₂_and, ← and_assoc]
  constructor
  · intro ⟨n, hn, hagrees⟩
    have hdecoded := hagrees.decoded
    rw [pcpProcessInfo_stream] at hdecoded
    split at hdecoded
    · next hcond =>
      simp only [Option.some.injEq, Prod.mk.injEq, and_true, ProcessReply.mk.injEq] at hdecoded
      obtain ⟨rfl, hinfos⟩ := hdecoded
      exact ⟨⟨hn, fun p hp => received_eq_self.mp (hall.mpr hinfos p hp)⟩, hcond.2.1⟩
    · cases hdecoded
  · intro ⟨⟨hn, hprintable⟩, husers⟩
    refine ⟨conInfoSize procId size pools.1, hn, hsized, ?_⟩
    rw [pcpProcessInfo_stream, if_pos ⟨by omega, husers, .inr (by omega)⟩,
      hall.mp fun p hp => received_eq_self.mpr (hprintable p hp)]

end

/-! ### All reports -/

/-- Whatever the server holds: the client gets it, packet by packet, if and only if it fits into the
buffers of the server and into the arrays of the client. -/
theorem codec_agrees_iff {W : Type} (fmt : DoubleText W)
    (bi : {bi : NodeInfo W // bi.hostname.1.length < maxDbHostNamelen}) (pids : List Int32)
    (procId size : Int32) (pools : {pools : List PoolReport // pools.length < 2 ^ 31}) (si : SystemDB) :
    (Agrees (nodeInfo fmt bi.1) (pcpNodeInfo fmt) bi.1 ∧ Agrees (processCount pids) pcpProcessCount pids ∧
      (∃ n : Int32, n.toInt = (sentPools procId pools.1).length ∧
        Agrees (processInfo procId size pools.1) pcpProcessInfo
          ⟨some n, (sentPools procId pools.1).map (·.1)⟩) ∧
      Agrees (systemDBInfo si.1) pcpSystemDBInfo
        (some (Int32.ofInt si.1.distDefSlot.length, si.1))) ↔
      (Within 5 bi.1.port.toInt ∧ Within 1 bi.1.status.toInt ∧
        fmt.atof ((fmt.printF bi.1.weight).take 19) = bi.1.weight) ∧
      ((∀ pid ∈ pids, Within 5 pid.toInt) ∧ 6 * pids.length < 2 ^ 31 ∧
        wsize (processCountFields pids) < 2 ^ 31) ∧
      ((procId = 0 ∨ size.toInt = (sentPools procId pools.1).length) ∧
        ∀ p ∈ sentPools procId pools.1, p.1.Printable ∧ p.1.username.1.length < smUser) ∧
      Within 5 si.1.port.toInt ∧ Within 1 si.1.status.toInt ∧ wsize (systemDBFields si.1) < 2 ^ 31 ∧
        ∀ ddi ∈ si.1.distDefSlot, wsize (distDefFields ddi) < 2 ^ 31 :=
  and_congr (nodeInfo_agrees fmt bi) (and_congr (processCount_agrees pids)
    (and_congr (processInfo_agrees procId size pools) (systemDBInfo_agrees si)))

/-- The process 123456 is reported as 12345. -/
theorem not_agrees_longPid : pcpProcessCount (processCount [123456]).flatten = some ([12345], []) ∧
    ¬Agrees (processCount [123456]) pcpProcessCount [123456] := by
  have hdecode : pcpProcessCount (processCount [123456]).flatten = some ([12345], []) := by decide
  refine ⟨hdecode, fun h => ?_⟩
  have hdecoded := h.decoded
  rw [hdecode] at hdecoded
  exact absurd hdecoded (by decide)

end

end PgPool.Pcp.Codec
