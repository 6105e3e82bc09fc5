import PgPool.Internal.Decoded
import PgPool.Pcp.Codec

/-!
# Reports in answer to SHOW

`SHOW pool_status` and the like are answered by pgpool itself, by a table in the protocol of the client.
A pgpool that has another one behind it gets the values of such a table by `do_query`.
-/

namespace PgPool.Internal

open Words
open Pcp.Codec (CString ascii snprintf)

/-! ## The source -/

/-- A table: the names of its columns, and the texts of its rows.  `nullmap` has the bits of sixteen
columns. -/
structure Report where
  fieldNames : List CString
  rows : List (List CString)
  nonempty : fieldNames ≠ []
  few : fieldNames.length ≤ 16
  named : ∀ name ∈ fieldNames, name.1.length ≤ 64
  width : ∀ row ∈ rows, row.length = fieldNames.length
  values : ∀ row ∈ rows, ∀ value ∈ row, value.1.length ≤ 512

/-- A column: it is of no table and no type, and has a size of -1. -/
def descriptionField (major : Proto) (name : CString) (colnum : Nat) : List UInt8 :=
  name.1 ++ 0 ::
    match major with
    | .v3 => htonl 0 ++ (htons colnum ++ (htonl 0 ++ (htons (2 ^ 16 - 1) ++ (htonl 0 ++ htons 0))))
    | .v2 => htonl 0 ++ (htons (2 ^ 16 - 1) ++ htonl 0)

def descriptionFields (major : Proto) (fieldNames : List CString) : List UInt8 :=
  fieldNames.zipIdx.flatMap fun p => descriptionField major p.1 p.2

def cursorname : CString := ⟨ascii "blank", by decide⟩

/-- `send_row_description` -/
def sendRowDescription (major : Proto) (fieldNames : List CString) : List UInt8 :=
  match major with
  | .v3 => 84 :: (htonl (6 + (fieldNames.map fun name => name.1.length + 1 + 18).sum) ++
      (htons fieldNames.length ++ descriptionFields .v3 fieldNames))
  | .v2 => 80 :: (cursorname.1 ++ 0 :: 84 ::
      (htons fieldNames.length ++ descriptionFields .v2 fieldNames))

/-- A row.  The length of a value counts itself in protocol V2. -/
def sendRow (major : Proto) (numFields : Nat) (values : List CString) : List UInt8 :=
  match major with
  | .v3 => 68 :: (htonl (6 + (values.map fun value => 4 + value.1.length).sum) ++
      (htons numFields ++ values.flatMap fun value => htonl value.1.length ++ value.1))
  | .v2 => 68 :: (([0xFF, 0xFF] : List UInt8).take ((numFields + 7) / 8) ++
      values.flatMap fun value => htonl (value.1.length + 4) ++ value.1)

/-- `snprintf` into `msg[16]` -/
def selectMsg (numRows : Nat) : CString :=
  CString.take 15 ⟨ascii "SELECT " ++ Pcp.Codec.decimal numRows, fun h => (List.mem_append.mp h).elim
    (by decide) (Pcp.Codec.decimal_noNul _)⟩

/-- `send_complete_and_ready` -/
def sendCompleteAndReady (major : Proto) (numRows : Nat) : List UInt8 :=
  match major with
  | .v3 => 67 :: (htonl (4 + ((selectMsg numRows).1.length + 1)) ++
      ((selectMsg numRows).1 ++ 0 :: 90 :: (htonl 5 ++ [73])))
  | .v2 => 67 :: ((selectMsg numRows).1 ++ [0, 90])

/-- What is written to the client. -/
def Report.bytes (major : Proto) (r : Report) : List UInt8 :=
  sendRowDescription major r.fieldNames ++
    (r.rows.flatMap (sendRow major r.fieldNames.length) ++ sendCompleteAndReady major r.rows.length)

/-! ## Reports -/

/-- A string in an array of `n + 1` bytes. -/
abbrev Text (n : Nat) := {s : CString // s.1.length ≤ n}

/-- `POOL_REPORT_CONFIG` -/
structure ReportConfig where
  name : Text 64
  value : Text 512
  desc : Text 64

/-- `POOL_REPORT_NODES` -/
structure ReportNodes where
  nodeId : Text 2
  hostname : Text 63
  port : Text 63
  status : Text 2
  lbWeight : Text 20

/-- `POOL_REPORT_PROCESSES` -/
structure ReportProcesses where
  poolPid : Text 16
  startTime : Text 128
  database : Text 63
  username : Text 63
  createTime : Text 128
  poolCounter : Text 16

/-- `POOL_REPORT_POOLS` -/
structure ReportPools where
  poolPid : Int32
  startTime : Int64
  poolId : Int32
  backendId : Int32
  database : Text 63
  username : Text 63
  createTime : Int64
  poolMajorversion : Int32
  poolMinorversion : Int32
  poolCounter : Int32
  poolBackendpid : Int32
  poolConnected : Int32

/-- `POOL_REPORT_VERSION` -/
structure ReportVersion where
  version : Text 512

theorem length_snprintf_le {size : Nat} (k : Int) (h : size ≤ 513) :
    (snprintf size k).1.length ≤ 512 := by
  change ((Pcp.Codec.decimal k).take (size - 1)).length ≤ 512
  rw [List.length_take]
  omega

theorem Text.le {n : Nat} (t : Text n) (h : n ≤ 512) : t.1.1.length ≤ 512 := Nat.le_trans t.2 h

/-- `config_reporting` -/
def configReporting (status : List ReportConfig) : Report where
  fieldNames := [⟨ascii "item", by decide⟩, ⟨ascii "value", by decide⟩, ⟨ascii "description", by decide⟩]
  rows := status.map fun s => [s.name.1, s.value.1, s.desc.1]
  nonempty := List.cons_ne_nil _ _
  few := by decide
  named := by decide
  width := by simp
  values := by simp [Text.le, -Subtype.forall]

/-- `nodes_reporting` -/
def nodesReporting (nodes : List ReportNodes) : Report where
  fieldNames := [⟨ascii "node_id", by decide⟩, ⟨ascii "hostname", by decide⟩, ⟨ascii "port", by decide⟩,
    ⟨ascii "status", by decide⟩, ⟨ascii "lb_weight", by decide⟩]
  rows := nodes.map fun n => [n.nodeId.1, n.hostname.1, n.port.1, n.status.1, n.lbWeight.1]
  nonempty := List.cons_ne_nil _ _
  few := by decide
  named := by decide
  width := by simp
  values := by simp [Text.le, -Subtype.forall]

/-- `processes_reporting` -/
def processesReporting (processes : List ReportProcesses) : Report where
  fieldNames := [⟨ascii "pool_pid", by decide⟩, ⟨ascii "start_time", by decide⟩,
    ⟨ascii "database", by decide⟩, ⟨ascii "username", by decide⟩, ⟨ascii "create_time", by decide⟩,
    ⟨ascii "pool_counter", by decide⟩]
  rows := processes.map fun p =>
    [p.poolPid.1, p.startTime.1, p.database.1, p.username.1, p.createTime.1, p.poolCounter.1]
  nonempty := List.cons_ne_nil _ _
  few := by decide
  named := by decide
  width := by simp
  values := by simp [Text.le, -Subtype.forall]

/-- A time of a pool; `strftime` writes "%Y-%m-%d %H:%M:%S" into an array of 20 bytes. -/
def poolTime (strftime : Int64 → Text 19) (t : Int64) : CString :=
  if t = 0 then ⟨[], List.not_mem_nil⟩ else (strftime t).1

theorem length_poolTime_le (strftime : Int64 → Text 19) (t : Int64) :
    (poolTime strftime t).1.length ≤ 512 := by
  unfold poolTime
  split
  · exact Nat.zero_le _
  · exact (strftime t).le (by decide)

/-- `pools_reporting` -/
def poolsReporting (strftime : Int64 → Text 19) (pools : List ReportPools) : Report where
  fieldNames := [⟨ascii "pool_pid", by decide⟩, ⟨ascii "start_time", by decide⟩,
    ⟨ascii "pool_id", by decide⟩, ⟨ascii "backend_id", by decide⟩, ⟨ascii "database", by decide⟩,
    ⟨ascii "username", by decide⟩, ⟨ascii "create_time", by decide⟩, ⟨ascii "majorversion", by decide⟩,
    ⟨ascii "minorversion", by decide⟩, ⟨ascii "pool_counter", by decide⟩,
    ⟨ascii "pool_backendpid", by decide⟩, ⟨ascii "pool_connected", by decide⟩]
  rows := pools.map fun p =>
    [snprintf 16 p.poolPid.toInt, poolTime strftime p.startTime, snprintf 16 p.poolId.toInt,
      snprintf 16 p.backendId.toInt, p.database.1, p.username.1, poolTime strftime p.createTime,
      snprintf 5 p.poolMajorversion.toInt, snprintf 5 p.poolMinorversion.toInt,
      snprintf 16 p.poolCounter.toInt, snprintf 16 p.poolBackendpid.toInt,
      snprintf 2 p.poolConnected.toInt]
  nonempty := List.cons_ne_nil _ _
  few := by decide
  named := by decide
  width := by simp
  values := by simp [Text.le, length_snprintf_le, length_poolTime_le, -Subtype.forall]

/-- `version_reporting` -/
def versionReporting (version : ReportVersion) : Report where
  fieldNames := [⟨ascii "pool_version", by decide⟩]
  rows := [[version.version.1]]
  nonempty := List.cons_ne_nil _ _
  few := by decide
  named := by decide
  width := by simp
  values := by simp [Text.le, -Subtype.forall]

end PgPool.Internal
