import Mathlib.Logic.Function.Basic
import PgPool.Config
import PgPool.ConfigFile.Lexer

/-!
# The configuration file

`pool_init_config()` and `pool_get_config()`.  Most settings are read in one of a few ways, and are told
apart by a table.  A floating point number has a type of its own.
-/

namespace PgPool.ConfigFile

open Pcp.Codec (Bytes ascii strtol clamp)

/-! ## Values -/

inductive Value where
  | flag (b : Bool)
  | number (n : Int)
  | text (s : Bytes)
  deriving DecidableEq, Repr

/-- How the value of a setting is read: `eval_logical`, `atoi` or `atol` with the least number that is
taken, a string, or one of some strings. -/
inductive Kind where
  | logical
  | number (least : Int)
  | bigNumber (least : Int)
  | text
  | oneOf (values : List String)
  deriving DecidableEq, Repr

def atoi (s : Bytes) : Int := (Int32.ofInt (clamp (strtol s))).toInt
def atol (s : Bytes) : Int := (Int64.ofInt (clamp (strtol s))).toInt

def lower (c : UInt8) : UInt8 := if 65 ≤ c ∧ c ≤ 90 then c + 32 else c

/-- `eval_logical`, with `none` for -1.  Of "on" and "off" one letter is not enough. -/
def evalLogical (str : Bytes) : Option Bool :=
  let s := str.map lower
  if s = [] then none
  else if s.isPrefixOf (ascii "true") then some true
  else if s.isPrefixOf (ascii "false") then some false
  else if s.isPrefixOf (ascii "yes") then some true
  else if s.isPrefixOf (ascii "no") then some false
  else if s = ascii "on" then some true
  else if s = ascii "of" ∨ s = ascii "off" then some false
  else if s = ascii "1" then some true
  else if s = ascii "0" then some false
  else none

/-- `extract_string`. -/
def extractString (value : Bytes) (token : Token) : Bytes :=
  if token = .string then value.dropLast.tail else value

/-- The test before `extract_string`. -/
def isText (token : Token) : Bool := token == .string || token == .unquotedString || token == .key

def readValue (token : Token) (yytext : Bytes) : Kind → Option Value
  | .logical => (evalLogical yytext).map .flag
  | .number least =>
    if token ≠ .integer ∨ atoi yytext < least then none else some (.number (atoi yytext))
  | .bigNumber least =>
    if token ≠ .integer ∨ atol yytext < least then none else some (.number (atol yytext))
  | .text => if isText token then some (.text (extractString yytext token)) else none
  | .oneOf values =>
    if isText token && (values.map ascii).contains (extractString yytext token) then
      some (.text (extractString yytext token))
    else none

/-- `extract_string_tokens`: `strtok` with one delimiter, up to `MAXTOKENS` tokens. -/
def extractStringTokens (str : Bytes) (delimi : UInt8) : List Bytes :=
  ((str.splitOnP (· == delimi)).filter (· ≠ [])).take 1024

/-! ## Settings -/

/-- A setting, and whether it is read again when the file is reloaded. -/
structure Setting where
  name : String
  reload : Bool
  kind : Kind

/-- The settings that are read in one of the ways above. -/
def settings : List Setting :=
  [⟨"listen_addresses", false, .text⟩, ⟨"port", false, .number 1024⟩,
   ⟨"pcp_port", false, .number 1024⟩, ⟨"socket_dir", false, .text⟩,
   ⟨"pcp_socket_dir", false, .text⟩, ⟨"pcp_timeout", true, .number 0⟩,
   ⟨"num_init_children", false, .number 1⟩, ⟨"child_life_time", true, .number 0⟩,
   ⟨"client_idle_limit", true, .number 0⟩, ⟨"connection_life_time", true, .number 0⟩,
   ⟨"child_max_connections", true, .number 0⟩, ⟨"authentication_timeout", true, .number 0⟩,
   ⟨"max_pool", false, .number 0⟩, ⟨"logdir", false, .text⟩, ⟨"log_destination", true, .text⟩,
   ⟨"syslog_facility", true, .text⟩, ⟨"syslog_ident", true, .text⟩,
   ⟨"pid_file_name", false, .text⟩, ⟨"log_connections", true, .logical⟩,
   ⟨"log_hostname", true, .logical⟩, ⟨"enable_pool_hba", true, .logical⟩,
   ⟨"pool_passwd", false, .text⟩, ⟨"backend_socket_dir", false, .text⟩,
   ⟨"load_balance_mode", false, .logical⟩, ⟨"replication_stop_on_mismatch", true, .logical⟩,
   ⟨"failover_if_affected_tuples_mismatch", true, .logical⟩, ⟨"replicate_select", true, .logical⟩,
   ⟨"print_timestamp", false, .logical⟩,
   ⟨"master_slave_sub_mode", false, .oneOf ["slony", "stream"]⟩,
   ⟨"delay_threshold", true, .bigNumber 0⟩,
   ⟨"log_standby_delay", true, .oneOf ["always", "if_over_threshold", "none"]⟩,
   ⟨"connection_cache", false, .logical⟩, ⟨"health_check_timeout", true, .number 0⟩,
   ⟨"health_check_period", true, .number 0⟩, ⟨"health_check_user", true, .text⟩,
   ⟨"health_check_password", true, .text⟩, ⟨"failover_command", true, .text⟩,
   ⟨"follow_master_command", true, .text⟩, ⟨"failback_command", true, .text⟩,
   ⟨"fail_over_on_backend_error", true, .logical⟩, ⟨"recovery_user", true, .text⟩,
   ⟨"recovery_password", true, .text⟩, ⟨"recovery_1st_stage_command", true, .text⟩,
   ⟨"recovery_2nd_stage_command", true, .text⟩, ⟨"recovery_timeout", true, .number 0⟩,
   ⟨"client_idle_limit_in_recovery", true, .number (-1)⟩, ⟨"insert_lock", true, .logical⟩,
   ⟨"ignore_leading_white_space", true, .logical⟩, ⟨"parallel_mode", false, .logical⟩,
   ⟨"enable_query_cache", false, .logical⟩, ⟨"pgpool2_hostname", false, .text⟩,
   ⟨"system_db_hostname", false, .text⟩, ⟨"system_db_port", false, .number 0⟩,
   ⟨"system_db_dbname", false, .text⟩, ⟨"system_db_schema", false, .text⟩,
   ⟨"system_db_user", false, .text⟩, ⟨"system_db_password", false, .text⟩,
   ⟨"log_statement", true, .logical⟩, ⟨"log_per_node_statement", true, .logical⟩,
   ⟨"log_statement", true, .logical⟩, ⟨"lobj_lock_table", true, .text⟩, ⟨"ssl", false, .logical⟩,
   ⟨"ssl_cert", false, .text⟩, ⟨"ssl_key", false, .text⟩, ⟨"ssl_ca_cert", false, .text⟩,
   ⟨"ssl_ca_cert_dir", false, .text⟩, ⟨"debug_level", true, .number 0⟩,
   ⟨"relcache_expire", true, .number 0⟩]

/-- A slot of `backend_desc`; `weight` is `unnormalized_weight`, and `flag` has `POOL_FAILOVER`. -/
structure Backend (W : Type) where
  hostname : Bytes
  port : Int
  status : BackendStatus
  weight : W
  dataDirectory : Bytes
  flag : Bool

/-- `pool_config`.  A setting without a value is a null pointer. -/
structure Config (W : Type) where
  values : String → Option Value
  resetQueryList : List Bytes
  whiteFunctionList : List Bytes
  blackFunctionList : List Bytes
  patterns : List (ListType × Bytes)
  backends : Nat → Backend W
  numBackends : Nat

/-- `POOL_CONFIG_CONTEXT`. -/
inductive Context where
  | initConfig | reloadConfig
  deriving DecidableEq, Repr

/-- What a call goes by besides the file: whether the process is the parent, the functions of the library,
and what is found in the SystemDB. -/
structure Env (W : Type) where
  context : Context
  isParent : Bool
  atof : Bytes → W
  negative : W → Bool
  regcomp : Bytes → Bool
  systemDbInfo : Bool
  queryCacheTable : Bool

namespace Config

variable {W : Type} (cfg : Config W)

def set (name : String) (v : Value) : Config W := { cfg with values := Function.update cfg.values name (some v) }

def isOn (name : String) : Bool := cfg.values name == some (.flag true)

def setBackend (slot : Nat) (b : Backend W) : Config W :=
  { cfg with backends := Function.update cfg.backends slot b }

/-- `add_regex_pattern`: the pattern is anchored, and kept if it compiles. -/
def addRegexPattern (env : Env W) (type : ListType) (s : Bytes) : Config W :=
  let front := if s.head? = some 94 then s else 94 :: s
  let pattern := if s.getLast? = some 36 then front else front ++ [36]
  if env.regcomp pattern then { cfg with patterns := cfg.patterns ++ [(type, pattern)] } else cfg

def addRegexPatterns (env : Env W) (type : ListType) (l : List Bytes) : Config W :=
  l.foldl (fun cfg s => cfg.addRegexPattern env type s) cfg

end Config

/-- The loop over the backend flags: the flag so far, and which have been specified. -/
def flagLoop : List Bytes → Bool → Bool → Bool → Option Bool
  | [], flag, _, _ => some flag
  | f :: fs, flag, allow, disallow =>
    if f = ascii "ALLOW_TO_FAILOVER" then
      if disallow then none else flagLoop fs false true disallow
    else if f = ascii "DISALLOW_TO_FAILOVER" then
      if allow then none else flagLoop fs true allow true
    else flagLoop fs flag allow disallow

/-- The number behind the name of a backend setting. -/
def slotOf (name : String) (key : Bytes) : Option Nat :=
  let slot := atoi (key.drop name.length)
  if slot < 0 ∨ (maxNumBackends : Int) ≤ slot then none else some slot.toNat

section

variable {W : Type} (env : Env W) (cfg : Config W) (token : Token) (yytext : Bytes)

/-- `replication_mode` and `master_slave_mode`: the value is kept even where the other one is on. -/
def handleMode (name other : String) : Config W × Bool :=
  match evalLogical yytext with
  | none => (cfg, false)
  | some v => (cfg.set name (.flag v), !((cfg.set name (.flag v)).isOn other && v))

/-- `backend_hostname`. -/
def handleHostname (slot : Nat) : Config W :=
  let b := cfg.backends slot
  if env.context = .initConfig ∨ b.status = .unused then
    cfg.setBackend slot { b with hostname := (extractString yytext token).take 128 }
  else cfg

/-- `backend_port`. -/
def handlePort (slot : Nat) : Config W :=
  let b := cfg.backends slot
  if env.context = .initConfig then
    cfg.setBackend slot { b with port := atoi yytext, status := .connectWait }
  else if b.status = .unused then
    cfg.setBackend slot { b with port := atoi yytext, status := .down }
  else cfg

/-- `backend_weight`. -/
def handleWeight (slot : Nat) : Config W × Bool :=
  if env.negative (env.atof yytext) then (cfg, false)
  else (cfg.setBackend slot { cfg.backends slot with weight := env.atof yytext }, true)

/-- `backend_data_directory`. -/
def handleDataDirectory (slot : Nat) : Config W :=
  let b := cfg.backends slot
  if env.context = .initConfig ∨ b.status = .unused ∨ b.status = .down then
    cfg.setBackend slot { b with dataDirectory := (extractString yytext token).take 256 }
  else cfg

/-- `backend_flag`; the flags are looked at before the slot. -/
def handleFlag (key : Bytes) : Config W × Bool :=
  match flagLoop (extractStringTokens (extractString yytext token) 124) false false false with
  | none => (cfg, false)
  | some flag =>
    match slotOf "backend_flag" key with
    | none => (cfg, false)
    | some slot => (cfg.setBackend slot { cfg.backends slot with flag }, true)

/-- The settings of a backend, which the parent reads. -/
def handleBackend (key : Bytes) : Config W × Bool :=
  let atSlot (name : String) (handle : Nat → Config W × Bool) : Config W × Bool :=
    match slotOf name key with
    | none => (cfg, false)
    | some slot => handle slot
  if (ascii "backend_hostname").isPrefixOf key then
    atSlot "backend_hostname" fun slot => (handleHostname env cfg token yytext slot, true)
  else if (ascii "backend_port").isPrefixOf key then
    atSlot "backend_port" fun slot => (handlePort env cfg yytext slot, true)
  else if (ascii "backend_weight").isPrefixOf key then
    atSlot "backend_weight" fun slot => handleWeight env cfg yytext slot
  else if (ascii "backend_data_directory").isPrefixOf key then
    atSlot "backend_data_directory" fun slot => (handleDataDirectory env cfg token yytext slot, true)
  else if (ascii "backend_flag").isPrefixOf key then handleFlag cfg token yytext key
  else (cfg, true)

/-- The lists. -/
def handleList (key : Bytes) : Config W × Bool :=
  let str := extractString yytext token
  if key = ascii "reset_query_list" then
    if isText token then ({ cfg with resetQueryList := extractStringTokens str 59 }, true)
    else (cfg, false)
  else if key = ascii "white_function_list" then
    if isText token then
      let l := extractStringTokens str 44
      (({ cfg with whiteFunctionList := l } : Config W).addRegexPatterns env .white l, true)
    else (cfg, false)
  else if key = ascii "black_function_list" then
    if isText token then
      let l := extractStringTokens str 44
      (({ cfg with blackFunctionList := l } : Config W).addRegexPatterns env .black l, true)
    else (cfg, false)
  else if env.isParent then handleBackend env cfg token yytext key
  else (cfg, true)

/-- The tests of a key, one after the other; a key that is not known is passed over. -/
def handle (key : Bytes) : Config W × Bool :=
  match settings.find? fun s => ascii s.name == key && (env.context == .initConfig || s.reload) with
  | some s =>
    match readValue token yytext s.kind with
    | none => (cfg, false)
    | some v => (cfg.set s.name v, true)
  | none =>
    if key = ascii "allow_inet_domain_socket" ∧ env.context = .initConfig then
      match evalLogical yytext with
      | none => (cfg, false)
      | some v => (cfg.set "listen_addresses" (.text (if v then ascii "*" else [])), true)
    else if key = ascii "replication_mode" ∧ env.context = .initConfig then
      handleMode cfg yytext "replication_mode" "master_slave_mode"
    else if key = ascii "master_slave_mode" ∧ env.context = .initConfig then
      handleMode cfg yytext "master_slave_mode" "replication_mode"
    else handleList env cfg token yytext key

end

section

variable {W : Type} (env : Env W)

/-- The loop over the tokens.  At the end of the file the token is 0 and the text is empty. -/
def load : List (Token × Bytes) → Config W → Config W × Bool
  | [], cfg => (cfg, true)
  | (.eol, _) :: rest, cfg => load rest cfg
  | (.key, key) :: rest, cfg =>
    match rest with
    | [] => handle env cfg .eol [] key
    | (.equals, _) :: [] => handle env cfg .eol [] key
    | (.equals, _) :: (token, yytext) :: rest =>
      match handle env cfg token yytext key with
      | (cfg, true) => load rest cfg
      | (cfg, false) => (cfg, false)
    | (token, yytext) :: rest =>
      match handle env cfg token yytext key with
      | (cfg, true) => load rest cfg
      | (cfg, false) => (cfg, false)
  | _ :: _, cfg => (cfg, false)

/-- `clear_host_entry`. -/
def clearHostEntry (b : Backend W) : Backend W :=
  { b with hostname := [], port := 0, status := .unused }

/-- A slot after the loop: cleared if it is out of use, else with the path of a socket for a name. -/
def finishBackend (cfg : Config W) (b : Backend W) : Backend W :=
  if b.port = 0 then clearHostEntry b
  else if b.hostname = [] then
    match cfg.values "backend_socket_dir" with
    | some (.text dir) => { b with hostname := dir.take 128 }
    | _ => { b with hostname := ascii "/tmp" }
  else b

/-- `num_backends`: one more than the last slot that is in use. -/
def countBackends (backends : Nat → Backend W) : Nat → Nat
  | 0 => 0
  | n + 1 => if (backends n).port ≠ 0 then n + 1 else countBackends backends n

/-- The slots after the loop, and their number. -/
def finish (cfg : Config W) : Config W :=
  { cfg with
    backends := fun i => finishBackend cfg (cfg.backends i)
    numBackends := countBackends cfg.backends maxNumBackends }

/-- The tests at the end. -/
def accepts (cfg : Config W) : Bool :=
  !(cfg.isOn "parallel_mode" &&
      (!env.systemDbInfo || (!cfg.isOn "replication_mode" && !cfg.isOn "load_balance_mode"))) &&
    !(cfg.isOn "enable_query_cache" && !env.queryCacheTable) &&
    !((cfg.values "recovery_1st_stage_command" != some (.text []) ||
        cfg.values "recovery_2nd_stage_command" != some (.text [])) &&
      (List.range maxNumBackends).any fun i =>
        (cfg.backends i).port != 0 && (cfg.backends i).dataDirectory == [])

/-- `pool_get_config()`, with a file that cannot be opened as `none`. -/
def poolGetConfig (file : Option Bytes) (cfg : Config W) : Config W × Int :=
  match file with
  | none => (cfg, 0)
  | some text =>
    match load env (tokens text) cfg with
    | (cfg, false) => (cfg, -1)
    | (cfg, true) => (finish cfg, if accepts env (finish cfg) then 0 else -1)

end

/-- The defaults of `pool_init_config()`; `localhostname` is what `gethostname` gives. -/
def defaults (localhostname : Bytes) : List (String × Value) :=
  let text (s : String) : Value := .text (ascii s)
  [("listen_addresses", text "localhost"), ("port", .number 9999), ("pcp_port", .number 9898),
   ("socket_dir", text "/tmp"), ("pcp_socket_dir", text "/tmp"), ("pcp_timeout", .number 10),
   ("num_init_children", .number 32), ("max_pool", .number 4), ("child_life_time", .number 300),
   ("client_idle_limit", .number 0), ("connection_life_time", .number 0),
   ("child_max_connections", .number 0), ("authentication_timeout", .number 60),
   ("logdir", text "/tmp"), ("log_destination", text "stderr"), ("syslog_facility", text "LOCAL0"),
   ("syslog_ident", text "pgpool"), ("pid_file_name", text "/var/run/pgpool/pgpool.pid"),
   ("log_statement", .flag false), ("log_per_node_statement", .flag false),
   ("log_connections", .flag false), ("log_hostname", .flag false), ("enable_pool_hba", .flag false),
   ("pool_passwd", text "pool_passwd"), ("replication_mode", .flag false),
   ("load_balance_mode", .flag false), ("replication_stop_on_mismatch", .flag false),
   ("failover_if_affected_tuples_mismatch", .flag false), ("replicate_select", .flag false),
   ("print_timestamp", .flag true), ("master_slave_mode", .flag false),
   ("master_slave_sub_mode", text "slony"), ("delay_threshold", .number 0),
   ("connection_cache", .flag true), ("health_check_timeout", .number 20),
   ("health_check_period", .number 0), ("health_check_user", text "nobody"),
   ("health_check_password", text ""), ("failover_command", text ""),
   ("follow_master_command", text ""), ("failback_command", text ""),
   ("fail_over_on_backend_error", .flag true), ("insert_lock", .flag true),
   ("ignore_leading_white_space", .flag true), ("parallel_mode", .flag false),
   ("enable_query_cache", .flag false), ("system_db_hostname", text "localhost"),
   ("system_db_port", .number 5432), ("system_db_dbname", text "pgpool"),
   ("system_db_schema", text "pgpool_catalog"), ("system_db_user", text "pgpool"),
   ("system_db_password", text ""), ("recovery_user", text ""), ("recovery_password", text ""),
   ("recovery_1st_stage_command", text ""), ("recovery_2nd_stage_command", text ""),
   ("recovery_timeout", .number 90), ("client_idle_limit_in_recovery", .number 0),
   ("lobj_lock_table", text ""), ("ssl", .flag false), ("ssl_cert", text ""), ("ssl_key", text ""),
   ("ssl_ca_cert", text ""), ("ssl_ca_cert_dir", text ""), ("debug_level", .number 0),
   ("relcache_expire", .number 0), ("pgpool2_hostname", .text localhostname)]

/-- `pool_init_config()`, where memory is zero before. -/
def poolInitConfig {W : Type} (zero : W) (localhostname : Bytes) : Config W where
  values name := (defaults localhostname).lookup name
  resetQueryList := [ascii "ABORT", ascii "DISCARD ALL"]
  whiteFunctionList := []
  blackFunctionList := [ascii "nextval", ascii "setval"]
  patterns := []
  backends _ := ⟨[], 0, .unused, zero, [], false⟩
  numBackends := 0

end PgPool.ConfigFile
