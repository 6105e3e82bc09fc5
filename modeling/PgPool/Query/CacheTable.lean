import Mathlib.Logic.Function.Basic
import PgPool.Auth.Md5
import PgPool.Query.CacheBuffer

/-!
# The table of the query cache

The children look queries up in the SystemDB, and register there the results of those that have not been
found.  Next to it stands what this is for: a table of whole results, which each child collects message by
message.
-/

namespace PgPool.QueryCache

open Words

/-! ## The code -/

/-- `md5_query` or `hash`, and the name of the database; the primary key of `query_cache`. -/
abbrev CacheKey := List UInt8 × List UInt8

/-- `parsed_query`, `inside_T` of `query_cache_register`, and `query_cache_info` with its `md5_query` and
`db_name`. -/
structure CacheChild where
  parsedQuery : Option (List UInt8)
  insideT : Bool
  info : CacheState
  key : CacheKey

/-- The column `value` of a row, and the children. -/
structure Caches where
  table : CacheKey → Option (List UInt8)
  children : Nat → CacheChild

/-- What the SystemDB does to a value: it sends it as text, which `PQunescapeBytea` undoes. -/
structure SystemDb where
  escape : List UInt8 → List UInt8
  unescape : List UInt8 → List UInt8
  unescape_escape : ∀ value, unescape (escape value) = value
  escape_noNul : ∀ value, 0 ∉ escape value
  rowDescription : List UInt8
  commandTag : List UInt8

/-- The answer to `SELECT value FROM query_cache`: kinds and bodies. -/
def SystemDb.answer (db : SystemDb) (row : Option (List UInt8)) : List (UInt8 × List UInt8) :=
  (84, db.rowDescription) ::
    (row.toList.map fun value => (68, htons 1 ++ (htonl (db.escape value).length ++ db.escape value))) ++
      [(67, db.commandTag), (90, [73])]

/-- `CACHE_STATUS`. -/
inductive CacheStatus where
  | found | notFound | error
  deriving DecidableEq, Repr

/-- The loop of `search_system_db_for_cache` over the messages that arrive, and what is sent to the
frontend meanwhile. -/
def searchLoop (db : SystemDb) (tstate : UInt8) :
    List (UInt8 × List UInt8) → Bool → CacheStatus → List UInt8 × CacheStatus
  -- error while reading message kind
  | [], _, _ => ([], .error)
  | (kind, data) :: rest, cacheFound, returnValue =>
    if kind = 84 then searchLoop db tstate rest cacheFound returnValue
    else if kind = 68 then
      -- the number of columns and the length are skipped; the value ends at its NUL
      let cache := ((data.drop 6) ++ [0]).takeWhile (· != 0)
      let (sent, status) := searchLoop db tstate rest true returnValue
      (forwardCacheToFrontend (db.unescape cache) tstate ++ sent, status)
    else if kind = 67 then searchLoop db tstate rest cacheFound (if cacheFound then .found else .notFound)
    else if kind = 90 then ([], returnValue)
    else if kind = 69 then searchLoop db tstate rest cacheFound .error
    else ([], .error)

/-- `pool_query_cache_lookup`, where `arrive` messages of the answer arrive before the connection breaks. -/
def poolQueryCacheLookup (db : SystemDb) (table : CacheKey → Option (List UInt8)) (key : CacheKey)
    (tstate : UInt8) (arrive : Nat) : List UInt8 × CacheStatus :=
  searchLoop db tstate ((db.answer (table key)).take arrive) false .error

section

variable (hash : List UInt8 → List UInt8) (fresh : Nat → UInt8)

/-- `pool_query_cache_register`: the child and the table after it, and whether it returns 0.  `up` tells
whether there is a connection to the SystemDB, and `stores` whether that carries the INSERT out. -/
def poolQueryCacheRegister (up stores : Bool) (database : List UInt8) (m : WireMessage)
    (query : List UInt8) (c : CacheChild) (table : CacheKey → Option (List UInt8)) :
    CacheChild × (CacheKey → Option (List UInt8)) × Bool :=
  if up = false then (c, table, false)
  else if m.kind = 84 then
    match c.info with
    | .null => ({ c with info := (register fresh m .null).1, key := (hash query, database) }, table, true)
    | s => ({ c with info := (register fresh m s).1 }, table, false)
  else if m.kind = 68 then
    match c.info with
    | .null => (c, table, false)
    | s => ({ c with info := (register fresh m s).1 }, table, true)
  else if m.kind = 67 then
    match c.info with
    | .null => (c, table, false)
    | s =>
      match register fresh m s with
      | (s, some value) =>
        if stores = true ∧ table c.key = none then
          ({ c with info := s }, Function.update table c.key (some value), true)
        else ({ c with info := s }, table, false)
      | (s, none) => ({ c with info := s }, table, false)
  else
    match c.info with
    | .crashed => (c, table, false)
    | _ => ({ c with info := .null }, table, true)

/-- `query_cache_register`. -/
def queryCacheRegister (up stores : Bool) (database : List UInt8) (m : WireMessage) (c : CacheChild)
    (table : CacheKey → Option (List UInt8)) : CacheChild × (CacheKey → Option (List UInt8)) :=
  match m.kind == 84, c.parsedQuery with
  | true, some query =>
    let (c, table, ok) := poolQueryCacheRegister hash fresh up stores database m query c table
    ({ c with insideT := ok }, table)
  | _, _ =>
    if (m.kind = 68 ∨ m.kind = 67 ∨ m.kind = 69) ∧ c.insideT = true then
      let (c, table, ok) := poolQueryCacheRegister hash fresh up stores database m [] c table
      if m.kind = 67 ∨ m.kind = 69 ∨ ok = false then
        ({ c with insideT := false, parsedQuery := none }, table)
      else (c, table)
    else (c, table)

end

/-- What happens to the children and to the table. -/
inductive CacheEvent where
  /-- `pool_execute_query_cache_lookup` for a SELECT that has no INTO and locks nothing. -/
  | select (child : Nat) (query database : List UInt8) (tstate : UInt8) (arrive : Nat)
  /-- A message goes to the frontend. -/
  | forward (child : Nat) (database : List UInt8) (m : WireMessage) (up stores : Bool)
  /-- `pool_clear_cache_by_time`. -/
  | clear (old : CacheKey → Bool)

/-- A step, with what is sent to the frontend out of the cache. -/
def Caches.step (hash : List UInt8 → List UInt8) (fresh : Nat → UInt8) (db : SystemDb) (s : Caches) :
    CacheEvent → Caches × List UInt8
  | .select i query database tstate arrive =>
    let (sent, status) := poolQueryCacheLookup db s.table (hash query, database) tstate arrive
    let c := s.children i
    let c := { c with parsedQuery := if status = .found then none else some query }
    ({ s with children := Function.update s.children i c }, sent)
  | .forward i database m up stores =>
    let (c, table) := queryCacheRegister hash fresh up stores database m (s.children i) s.table
    (⟨table, Function.update s.children i c⟩, [])
  | .clear old => ({ s with table := fun key => if old key then none else s.table key }, [])

def Caches.run (hash : List UInt8 → List UInt8) (fresh : Nat → UInt8) (db : SystemDb) :
    List CacheEvent → Caches → Caches × List (List UInt8)
  | [], s => (s, [])
  | e :: es, s =>
    let (s, sent) := s.step hash fresh db e
    let (s, all) := run hash fresh db es s
    (s, sent :: all)

def Caches.start : Caches := ⟨fun _ => none, fun _ => ⟨none, false, .null, ([], [])⟩⟩

/-! ## What it is for -/

/-- A result that is not complete. -/
structure Collected where
  key : CacheKey
  rowDescription : Body
  dataRows : List Body

/-- A child that collects a result. -/
structure Collector where
  query : Option (List UInt8)
  inside : Bool
  collected : Option Collected

/-- A table of results. -/
structure ResultCache where
  table : CacheKey → Option QueryResult
  children : Nat → Collector

def Collected.front (r : Collected) : List WireMessage :=
  r.rowDescription.message 84 :: r.dataRows.map (Body.message 68)

def Collected.complete (r : Collected) (last : Body) : QueryResult := ⟨r.rowDescription, r.dataRows, last⟩

/-- A message goes to the frontend. -/
def Collector.forward (hash : List UInt8 → List UInt8) (up stores : Bool) (database : List UInt8)
    (m : WireMessage) (c : Collector) (table : CacheKey → Option QueryResult) :
    Collector × (CacheKey → Option QueryResult) :=
  let body : Body := ⟨m.contents, m.fits⟩
  if m.kind = 84 then
    match c.query with
    | none => (c, table)
    | some query =>
      if up = false then ({ c with inside := false }, table)
      else
        match c.collected with
        | none => ({ c with inside := true, collected := some ⟨(hash query, database), body, []⟩ }, table)
        | some _ => ({ c with inside := false, collected := none }, table)
  else if (m.kind = 68 ∨ m.kind = 67 ∨ m.kind = 69) ∧ c.inside = true then
    if up = false then (⟨none, false, c.collected⟩, table)
    else
      match c.collected with
      | none => (⟨none, false, none⟩, table)
      | some r =>
        if m.kind = 68 then
          ({ c with collected := some { r with dataRows := r.dataRows ++ [body] } }, table)
        else if m.kind = 67 ∧ stores = true ∧ table r.key = none then
          (⟨none, false, none⟩, Function.update table r.key (some (r.complete body)))
        else (⟨none, false, none⟩, table)
  else (c, table)

/-- A query is answered by a whole result or not at all.  The answer of the SystemDB is over after the
fourth message, and the result comes with the second. -/
def ResultCache.step (hash : List UInt8 → List UInt8) (s : ResultCache) :
    CacheEvent → ResultCache × List UInt8
  | .select i query database tstate arrive =>
    match s.table (hash query, database) with
    | none => ({ s with children := Function.update s.children i { s.children i with query := some query } }, [])
    | some r =>
      let query := if 4 ≤ arrive then none else some query
      ({ s with children := Function.update s.children i { s.children i with query := query } },
        if 2 ≤ arrive then r.messages.flatMap simpleForward ++ readyForQuery tstate else [])
  | .forward i database m up stores =>
    let (c, table) := (s.children i).forward hash up stores database m s.table
    (⟨table, Function.update s.children i c⟩, [])
  | .clear old => ({ s with table := fun key => if old key then none else s.table key }, [])

def ResultCache.run (hash : List UInt8 → List UInt8) :
    List CacheEvent → ResultCache → ResultCache × List (List UInt8)
  | [], s => (s, [])
  | e :: es, s =>
    let (s, sent) := s.step hash e
    let (s, all) := run hash es s
    (s, sent :: all)

def ResultCache.start : ResultCache := ⟨fun _ => none, fun _ => ⟨none, false, none⟩⟩

/-- The message goes into the buffer. -/
def Collector.Takes (c : Collector) (m : WireMessage) : Prop :=
  m.kind = 84 ∧ c.query.isSome = true ∧ c.collected = none ∨
    (m.kind = 68 ∨ m.kind = 67) ∧ c.inside = true

/-- What the buffer holds. -/
def Collector.written (c : Collector) : List UInt8 :=
  match c.collected with
  | none => []
  | some r => wire r.front

/-- There is room in the buffer for what goes there, after one doubling at most. -/
def ResultCache.Room (s : ResultCache) : CacheEvent → Prop
  | .forward i _ m up _ =>
    up = true → (s.children i).Takes m → AllFit (s.children i).written.length (pieces m)
  | _ => True

def ResultCache.Roomy (hash : List UInt8 → List UInt8) : List CacheEvent → ResultCache → Prop
  | [], _ => True
  | e :: es, s => s.Room e ∧ Roomy hash es (s.step hash e).1

/-! ## Looking up -/

theorem lookup_none (db : SystemDb) {table : CacheKey → Option (List UInt8)} {key : CacheKey}
    (h : table key = none) (tstate : UInt8) (arrive : Nat) :
    ∃ status, poolQueryCacheLookup db table key tstate arrive = ([], status) ∧ status ≠ .found := by
  unfold poolQueryCacheLookup
  rw [h]
  obtain rfl | rfl | rfl | ⟨n, rfl⟩ : arrive = 0 ∨ arrive = 1 ∨ arrive = 2 ∨ ∃ n, arrive = n + 3 := by
    rcases arrive with _ | _ | _ | n
    · exact .inl rfl
    · exact .inr (.inl rfl)
    · exact .inr (.inr (.inl rfl))
    · exact .inr (.inr (.inr ⟨n, rfl⟩))
  all_goals simp [SystemDb.answer, searchLoop]

/-- The value comes back as it was stored. -/
theorem lookup_some {db : SystemDb} {table : CacheKey → Option (List UInt8)} {key : CacheKey}
    {value : List UInt8} (h : table key = some value) (tstate : UInt8) (arrive : Nat) :
    poolQueryCacheLookup db table key tstate arrive =
      (if 2 ≤ arrive then forwardCacheToFrontend value tstate else [],
        if 4 ≤ arrive then .found else .error) := by
  have hcache : ((db.escape value) ++ [0]).takeWhile (· != 0) = db.escape value := by
    have hall : ∀ c ∈ db.escape value, (c != 0) = true := fun c hc => by
      simpa using fun heq : c = 0 => db.escape_noNul value (heq ▸ hc)
    rw [List.takeWhile_append_of_pos hall]
    simp
  have hdrop : (htons 1 ++ (htonl (db.escape value).length ++ db.escape value)).drop 6 =
      db.escape value := rfl
  unfold poolQueryCacheLookup
  rw [h]
  obtain rfl | rfl | rfl | rfl | ⟨n, rfl⟩ :
      arrive = 0 ∨ arrive = 1 ∨ arrive = 2 ∨ arrive = 3 ∨ ∃ n, arrive = n + 4 := by
    rcases arrive with _ | _ | _ | _ | n
    · exact .inl rfl
    · exact .inr (.inl rfl)
    · exact .inr (.inr (.inl rfl))
    · exact .inr (.inr (.inr (.inl rfl)))
    · exact .inr (.inr (.inr (.inr ⟨n, rfl⟩)))
  all_goals simp [SystemDb.answer, searchLoop, hdrop, hcache, db.unescape_escape]

/-! ## Registering -/

section

variable {fresh : Nat → UInt8} {i : QueryCacheInfo} {written : List UInt8} {m : WireMessage}

variable (fresh) in
theorem register_rowDescription (hkind : m.kind = 84) (hfits : AllFit 0 (pieces m)) :
    ∃ i, register fresh m .null = (.info i, none) ∧ Doubled i m.bytes := by
  obtain ⟨i, hwrite, hdoubled⟩ := doubled_writeAll fresh (doubled_init fresh) hfits
  rw [flatten_pieces, List.nil_append] at hdoubled
  refine ⟨i, ?_, hdoubled⟩
  rw [register, if_pos hkind, ← hwrite]
  rfl

variable (fresh) in
theorem register_dataRow (hkind : m.kind = 68) (h : Doubled i written)
    (hfits : AllFit written.length (pieces m)) :
    ∃ i', register fresh m (.info i) = (.info i', none) ∧ Doubled i' (written ++ m.bytes) := by
  obtain ⟨i', hwrite, hdoubled⟩ := doubled_writeAll fresh h hfits
  rw [flatten_pieces] at hdoubled
  refine ⟨i', ?_, hdoubled⟩
  have hne : m.kind ≠ 84 := by
    rw [hkind]
    decide
  rw [register, if_neg hne, if_pos hkind, ← hwrite]

variable (fresh) in
theorem register_commandComplete (hkind : m.kind = 67) (h : Doubled i written)
    (hfits : AllFit written.length (pieces m)) :
    register fresh m (.info i) = (.null, some (written ++ m.bytes)) := by
  obtain ⟨i', hwrite, hdoubled⟩ := doubled_writeAll fresh h hfits
  rw [flatten_pieces] at hdoubled
  have hne : m.kind ≠ 84 ∧ m.kind ≠ 68 := by
    rw [hkind]
    decide
  rw [register, if_neg hne.1, if_neg hne.2]
  simp only [hwrite]
  rw [hdoubled.bytes]

theorem register_again (hkind : m.kind = 84) : register fresh m (.info i) = (.null, none) := by
  rw [register, if_pos hkind]

end

/-- A child and what it collects. -/
structure Mirrors (c : CacheChild) (a : Collector) : Prop where
  query : c.parsedQuery = a.query
  inside : c.insideT = a.inside
  nothing : a.collected = none → c.info = .null
  part : ∀ r, a.collected = some r → c.key = r.key ∧ ∃ i, c.info = .info i ∧ Doubled i (wire r.front)

/-- The rows hold results. -/
def Rows (table : CacheKey → Option (List UInt8)) (results : CacheKey → Option QueryResult) : Prop :=
  ∀ key, table key = (results key).map fun r => wire r.messages

theorem Rows.update {table : CacheKey → Option (List UInt8)} {results : CacheKey → Option QueryResult}
    (h : Rows table results) (key : CacheKey) (r : QueryResult) :
    Rows (Function.update table key (some (wire r.messages))) (Function.update results key (some r)) := by
  intro key'
  rw [Function.update_apply, Function.update_apply]
  split
  · rfl
  · exact h key'

/-! The messages of a result that a message is added to. -/

theorem message_body {m : WireMessage} {kind : UInt8} (hkind : m.kind = kind) :
    Body.message kind ⟨m.contents, m.fits⟩ = m := by
  rw [← hkind]
  rfl

theorem front_rowDescription (key : CacheKey) (m : WireMessage) (hkind : m.kind = 84) :
    Collected.front ⟨key, ⟨m.contents, m.fits⟩, []⟩ = [m] := by
  rw [Collected.front, message_body hkind, List.map_nil]

theorem front_dataRow (r : Collected) (m : WireMessage) (hkind : m.kind = 68) :
    Collected.front { r with dataRows := r.dataRows ++ [⟨m.contents, m.fits⟩] } = r.front ++ [m] := by
  rw [Collected.front, List.map_append, List.map_singleton, message_body hkind]
  rfl

theorem messages_complete (r : Collected) (m : WireMessage) (hkind : m.kind = 67) :
    (r.complete ⟨m.contents, m.fits⟩).messages = r.front ++ [m] := by
  rw [QueryResult.messages, Collected.complete, message_body hkind]
  rfl

theorem wire_complete (r : Collected) (m : WireMessage) (hkind : m.kind = 67) :
    wire (r.complete ⟨m.contents, m.fits⟩).messages = wire r.front ++ m.bytes := by
  rw [messages_complete r m hkind]
  simp [wire]

theorem wire_dataRow (r : Collected) (m : WireMessage) (hkind : m.kind = 68) :
    wire (Collected.front { r with dataRows := r.dataRows ++ [⟨m.contents, m.fits⟩] }) =
      wire r.front ++ m.bytes := by
  rw [front_dataRow r m hkind]
  simp [wire]

section

variable {hash : List UInt8 → List UInt8} {fresh : Nat → UInt8} {c : CacheChild} {a : Collector}
  {table : CacheKey → Option (List UInt8)} {results : CacheKey → Option QueryResult} {m : WireMessage}

variable (hash fresh table) in
/-- Without a buffer nothing is done. -/
theorem poolQueryCacheRegister_null (stores : Bool) (database query : List UInt8) (hnull : c.info = .null)
    (hkind : m.kind = 68 ∨ m.kind = 67 ∨ m.kind = 69) :
    ∃ ok, poolQueryCacheRegister hash fresh true stores database m query c table = (c, table, ok) ∧
      (m.kind = 68 → ok = false) := by
  have hsame : { c with info := .null } = c := by rw [← hnull]
  unfold poolQueryCacheRegister
  rw [hnull]
  obtain hk | hk | hk := hkind
  · exact ⟨false, by simp [hk], fun _ => rfl⟩
  · exact ⟨false, by simp [hk], fun _ => rfl⟩
  · exact ⟨true, by simp [hk, hsame], fun hrow => by simp [hk] at hrow⟩

variable (hash fresh table) in
theorem poolQueryCacheRegister_dataRow (stores : Bool) (database query : List UInt8) {i : QueryCacheInfo}
    {written : List UInt8} (hinfo : c.info = .info i) (hkind : m.kind = 68) (h : Doubled i written)
    (hfits : AllFit written.length (pieces m)) :
    ∃ i', poolQueryCacheRegister hash fresh true stores database m query c table =
      ({ c with info := .info i' }, table, true) ∧ Doubled i' (written ++ m.bytes) := by
  obtain ⟨i', hwrite, hdoubled⟩ := register_dataRow fresh hkind h hfits
  refine ⟨i', ?_, hdoubled⟩
  unfold poolQueryCacheRegister
  rw [hinfo]
  simp [hkind, hwrite]

variable (hash fresh table) in
theorem poolQueryCacheRegister_commandComplete (stores : Bool) (database query : List UInt8)
    {i : QueryCacheInfo} {written : List UInt8} (hinfo : c.info = .info i) (hkind : m.kind = 67)
    (h : Doubled i written) (hfits : AllFit written.length (pieces m)) :
    ∃ ok, poolQueryCacheRegister hash fresh true stores database m query c table =
      ({ c with info := .null },
        if stores = true ∧ table c.key = none then Function.update table c.key (some (written ++ m.bytes))
        else table, ok) := by
  have hwrite := register_commandComplete fresh hkind h hfits
  unfold poolQueryCacheRegister
  rw [hinfo]
  by_cases hstores : stores = true ∧ table c.key = none
  · exact ⟨true, by simp [hkind, hwrite, hstores]⟩
  · exact ⟨false, by simp [hkind, hwrite, hstores]⟩

variable (hash fresh table) in
theorem poolQueryCacheRegister_error (stores : Bool) (database query : List UInt8) {i : QueryCacheInfo}
    (hinfo : c.info = .info i) (hkind : m.kind = 69) :
    poolQueryCacheRegister hash fresh true stores database m query c table =
      ({ c with info := .null }, table, true) := by
  unfold poolQueryCacheRegister
  rw [hinfo]
  simp [hkind]

/-- A RowDescription. -/
theorem mirrors_rowDescription (h : Mirrors c a) (hrows : Rows table results) (hkind : m.kind = 84)
    (up stores : Bool) (database : List UInt8)
    (hroom : up = true → a.Takes m → AllFit a.written.length (pieces m)) :
    Mirrors (queryCacheRegister hash fresh up stores database m c table).1
        (a.forward hash up stores database m results).1 ∧
      Rows (queryCacheRegister hash fresh up stores database m c table).2
        (a.forward hash up stores database m results).2 := by
  have hother : m.kind ≠ 68 ∧ m.kind ≠ 67 ∧ m.kind ≠ 69 := by
    rw [hkind]
    decide
  have hbeq : (m.kind == 84) = true := by simp [hkind]
  unfold queryCacheRegister Collector.forward
  rw [hbeq, if_pos hkind, h.query]
  cases hquery : a.query with
  | none =>
    simp only [hother.1, hother.2.1, hother.2.2, false_or, false_and, if_false]
    exact ⟨h, hrows⟩
  | some query =>
    cases up with
    | false =>
      simp only [poolQueryCacheRegister, if_true]
      exact ⟨⟨hquery ▸ h.query, rfl, h.nothing, h.part⟩, hrows⟩
    | true =>
      simp only [poolQueryCacheRegister, Bool.true_eq_false, if_false, hkind, if_true]
      cases hcollected : a.collected with
      | none =>
        have hnull := h.nothing hcollected
        have hfits : AllFit 0 (pieces m) := by
          have := hroom rfl (.inl ⟨hkind, by rw [hquery]; rfl, hcollected⟩)
          rwa [Collector.written, hcollected] at this
        obtain ⟨i, hregister, hdoubled⟩ := register_rowDescription fresh hkind hfits
        rw [hnull]
        simp only [hregister]
        have hfront : wire (Collected.front ⟨(hash query, database), ⟨m.contents, m.fits⟩, []⟩) = m.bytes := by
          rw [front_rowDescription _ m hkind]
          simp [wire]
        refine ⟨⟨h.query.trans hquery, rfl, fun hnone => (by cases hnone), fun r hr => ?_⟩, hrows⟩
        cases hr
        exact ⟨rfl, i, rfl, hfront ▸ hdoubled⟩
      | some r =>
        obtain ⟨-, i, hinfo, -⟩ := h.part r hcollected
        rw [hinfo]
        simp only [register_again hkind]
        exact ⟨⟨h.query.trans hquery, rfl, fun _ => rfl, fun r hr => (by cases hr)⟩, hrows⟩

variable (hash fresh) in
/-- What is registered of the messages that are no description. -/
theorem queryCacheRegister_rest (hkind : m.kind ≠ 84) (up stores : Bool) (database : List UInt8)
    (c : CacheChild) (table : CacheKey → Option (List UInt8)) :
    queryCacheRegister hash fresh up stores database m c table =
      if (m.kind = 68 ∨ m.kind = 67 ∨ m.kind = 69) ∧ c.insideT = true then
        let (c, table, ok) := poolQueryCacheRegister hash fresh up stores database m [] c table
        if m.kind = 67 ∨ m.kind = 69 ∨ ok = false then
          ({ c with insideT := false, parsedQuery := none }, table)
        else (c, table)
      else (c, table) := by
  have hbeq : (m.kind == 84) = false := by simp [hkind]
  unfold queryCacheRegister
  rw [hbeq]

/-- The messages after it. -/
theorem mirrors_rest (h : Mirrors c a) (hrows : Rows table results) (hkind : m.kind ≠ 84)
    (up stores : Bool) (database : List UInt8)
    (hroom : up = true → a.Takes m → AllFit a.written.length (pieces m)) :
    Mirrors (queryCacheRegister hash fresh up stores database m c table).1
        (a.forward hash up stores database m results).1 ∧
      Rows (queryCacheRegister hash fresh up stores database m c table).2
        (a.forward hash up stores database m results).2 := by
  rw [queryCacheRegister_rest hash fresh hkind, Collector.forward, if_neg hkind, h.inside]
  split
  · rename_i hinside
    obtain ⟨hkinds, hin⟩ := hinside
    cases up with
    | false =>
      simp only [poolQueryCacheRegister, if_true, or_true]
      exact ⟨⟨rfl, rfl, h.nothing, h.part⟩, hrows⟩
    | true =>
      simp only [Bool.true_eq_false, if_false]
      cases hcollected : a.collected with
      | none =>
        have hnull := h.nothing hcollected
        obtain ⟨ok, hpool, hok⟩ := poolQueryCacheRegister_null hash fresh table stores database [] hnull hkinds
        have hends : m.kind = 67 ∨ m.kind = 69 ∨ ok = false := by
          obtain hk | hk | hk := hkinds
          · exact .inr (.inr (hok hk))
          · exact .inl hk
          · exact .inr (.inl hk)
        simp only [hpool, if_pos hends]
        exact ⟨⟨rfl, rfl, fun _ => hnull, fun r hr => by cases hr⟩, hrows⟩
      | some r =>
        obtain ⟨hkey, i, hinfo, hdoubled⟩ := h.part r hcollected
        have hwritten : a.written = wire r.front := by rw [Collector.written, hcollected]
        have hfits (hk : m.kind = 68 ∨ m.kind = 67) : AllFit (wire r.front).length (pieces m) :=
          hwritten ▸ hroom rfl (.inr ⟨hk, hin⟩)
        obtain hk | hk | hk := hkinds
        · obtain ⟨i', hpool, hdoubled'⟩ :=
            poolQueryCacheRegister_dataRow hash fresh table stores database [] hinfo hk hdoubled (hfits (.inl hk))
          have hgoes : ¬ (m.kind = 67 ∨ m.kind = 69 ∨ true = false) := by simp [hk]
          rw [hpool]
          dsimp only
          rw [if_neg hgoes, if_pos hk]
          refine ⟨⟨h.query, h.inside, fun hnone => (by cases hnone), fun r' hr => ?_⟩, hrows⟩
          cases hr
          exact ⟨hkey, i', rfl, wire_dataRow r m hk ▸ hdoubled'⟩
        · obtain ⟨ok, hpool⟩ :=
            poolQueryCacheRegister_commandComplete hash fresh table stores database [] hinfo hk hdoubled (hfits (.inr hk))
          have hends : m.kind = 67 ∨ m.kind = 69 ∨ ok = false := .inl hk
          have hne : m.kind ≠ 68 := by
            rw [hk]
            decide
          have hfree : table c.key = none ↔ results r.key = none := by
            rw [hkey, hrows r.key, Option.map_eq_none_iff]
          rw [hpool]
          dsimp only
          rw [if_pos hends, if_neg hne]
          simp only [hk, true_and, hfree]
          split
          · refine ⟨⟨rfl, rfl, fun _ => rfl, fun r hr => (by cases hr)⟩, ?_⟩
            rw [hkey, ← wire_complete r m hk]
            exact hrows.update r.key (r.complete ⟨m.contents, m.fits⟩)
          · exact ⟨⟨rfl, rfl, fun _ => rfl, fun r hr => (by cases hr)⟩, hrows⟩
        · have hpool := poolQueryCacheRegister_error hash fresh table stores database [] hinfo hk
          have hends : m.kind = 67 ∨ m.kind = 69 ∨ true = false := .inr (.inl hk)
          have hne : m.kind ≠ 68 ∧ m.kind ≠ 67 := by
            rw [hk]
            decide
          rw [hpool]
          dsimp only
          rw [if_pos hends, if_neg hne.1, if_neg fun hand => hne.2 hand.1]
          exact ⟨⟨rfl, rfl, fun _ => rfl, fun r hr => (by cases hr)⟩, hrows⟩
  · exact ⟨h, hrows⟩

end

/-! ## Runs -/

structure Agrees (s : Caches) (a : ResultCache) : Prop where
  rows : Rows s.table a.table
  children : ∀ i, Mirrors (s.children i) (a.children i)

section

variable {hash : List UInt8 → List UInt8} {fresh : Nat → UInt8} {db : SystemDb} {s : Caches}
  {a : ResultCache}

theorem mirrors_update {c : CacheChild} {x : Collector} (h : ∀ i, Mirrors (s.children i) (a.children i))
    (hc : Mirrors c x) (i j : Nat) :
    Mirrors (Function.update s.children i c j) (Function.update a.children i x j) := by
  rw [Function.update_apply, Function.update_apply]
  split
  · exact hc
  · exact h j

theorem agrees_select (h : Agrees s a) (i : Nat) (query database : List UInt8) (tstate : UInt8)
    (arrive : Nat) :
    (s.step hash fresh db (.select i query database tstate arrive)).2 =
        (a.step hash (.select i query database tstate arrive)).2 ∧
      Agrees (s.step hash fresh db (.select i query database tstate arrive)).1
        (a.step hash (.select i query database tstate arrive)).1 := by
  have hi := h.children i
  have hrow := h.rows (hash query, database)
  unfold Caches.step ResultCache.step
  cases hresult : a.table (hash query, database) with
  | none =>
    rw [hresult, Option.map_none] at hrow
    obtain ⟨status, hlookup, hstatus⟩ := lookup_none db hrow tstate arrive
    simp only [hlookup, hresult, if_neg hstatus]
    have hmirrors : Mirrors { s.children i with parsedQuery := some query }
        { a.children i with query := some query } := ⟨rfl, hi.inside, hi.nothing, hi.part⟩
    exact ⟨trivial, h.rows, mirrors_update h.children hmirrors i⟩
  | some r =>
    rw [hresult, Option.map_some] at hrow
    simp only [lookup_some hrow, hresult]
    have hfound : (if (if 4 ≤ arrive then CacheStatus.found else .error) = .found then none
        else some query) = if 4 ≤ arrive then none else some query := by
      by_cases hall : 4 ≤ arrive <;> simp [hall]
    have hmirrors : Mirrors
        { s.children i with
          parsedQuery := if (if 4 ≤ arrive then CacheStatus.found else .error) = .found then none
            else some query }
        { a.children i with query := if 4 ≤ arrive then none else some query } :=
      ⟨hfound, hi.inside, hi.nothing, hi.part⟩
    exact ⟨rfl, h.rows, mirrors_update h.children hmirrors i⟩

theorem agrees_forward (h : Agrees s a) (i : Nat) (database : List UInt8) (m : WireMessage)
    (up stores : Bool) (hroom : a.Room (.forward i database m up stores)) :
    Agrees (s.step hash fresh db (.forward i database m up stores)).1
      (a.step hash (.forward i database m up stores)).1 := by
  have hstep : Mirrors (queryCacheRegister hash fresh up stores database m (s.children i) s.table).1
        ((a.children i).forward hash up stores database m a.table).1 ∧
      Rows (queryCacheRegister hash fresh up stores database m (s.children i) s.table).2
        ((a.children i).forward hash up stores database m a.table).2 := by
    by_cases hkind : m.kind = 84
    · exact mirrors_rowDescription (h.children i) h.rows hkind up stores database hroom
    · exact mirrors_rest (h.children i) h.rows hkind up stores database hroom
  exact ⟨hstep.2, mirrors_update h.children hstep.1 i⟩

variable (hash fresh db) in
theorem agrees_step (h : Agrees s a) (e : CacheEvent) (hroom : a.Room e) :
    (s.step hash fresh db e).2 = (a.step hash e).2 ∧
      Agrees (s.step hash fresh db e).1 (a.step hash e).1 := by
  cases e with
  | select i query database tstate arrive => exact agrees_select h i query database tstate arrive
  | forward i database m up stores => exact ⟨rfl, agrees_forward h i database m up stores hroom⟩
  | clear old =>
    refine ⟨rfl, fun key => ?_, h.children⟩
    change (if old key then none else s.table key) = (if old key then none else a.table key).map _
    split
    · rfl
    · exact h.rows key

variable (hash fresh db) in
theorem agrees_run {es : List CacheEvent} (h : Agrees s a) (hroomy : a.Roomy hash es) :
    (s.run hash fresh db es).2 = (a.run hash es).2 ∧
      Agrees (s.run hash fresh db es).1 (a.run hash es).1 := by
  induction es generalizing s a with
  | nil => exact ⟨rfl, h⟩
  | cons e es ih =>
    obtain ⟨hsent, hnext⟩ := agrees_step hash fresh db h e hroomy.1
    obtain ⟨hall, hlast⟩ := ih hnext hroomy.2
    exact ⟨congrArg₂ List.cons hsent hall, hlast⟩

end

theorem agrees_start : Agrees Caches.start ResultCache.start :=
  ⟨fun _ => rfl, fun _ => ⟨rfl, rfl, fun _ => rfl, fun r hr => (by cases hr)⟩⟩

/-- Whatever the children do, and in whatever order: what is sent out of the cache is what a table of whole
results gives, and its rows are these results. -/
theorem run_resultCache (hash : List UInt8 → List UInt8) (fresh : Nat → UInt8) (db : SystemDb)
    (es : List CacheEvent) (hroomy : ResultCache.start.Roomy hash es) :
    (Caches.start.run hash fresh db es).2 = (ResultCache.start.run hash es).2 ∧
      ∀ key, (Caches.start.run hash fresh db es).1.table key =
        ((ResultCache.start.run hash es).1.table key).map fun r => wire r.messages := by
  obtain ⟨hsent, hlast⟩ := agrees_run hash fresh db agrees_start hroomy
  exact ⟨hsent, hlast.rows⟩

/-- A query stays pending when its result does not begin: after an error the result of another statement is
kept for it. -/
example (hash : List UInt8 → List UInt8) (query database : List UInt8) (error : Body) (r : QueryResult) :
    (ResultCache.start.run hash
      (.select 0 query database 73 3 :: .forward 0 database (error.message 69) true true ::
        [.forward 0 database (r.rowDescription.message 84) true true,
          .forward 0 database (r.commandComplete.message 67) true true])).1.table (hash query, database) =
      some { r with dataRows := [] } := by
  simp [ResultCache.run, ResultCache.step, ResultCache.start, Collector.forward, Body.message,
    Collected.complete]

/-! A result of one row, which one child registers and another one asks for. -/

/-- Bytes as hexadecimal text, behind a backslash and an x. -/
def hexDigit (n : Nat) : UInt8 := if n < 10 then UInt8.ofNat (48 + n) else UInt8.ofNat (87 + n)

def hexValue (c : UInt8) : Nat := if c ≤ 57 then c.toNat - 48 else c.toNat - 87

def hexEscape (value : List UInt8) : List UInt8 :=
  92 :: 120 :: value.flatMap fun b => [hexDigit (b.toNat / 16), hexDigit (b.toNat % 16)]

def hexPairs : List UInt8 → List UInt8
  | a :: b :: s => UInt8.ofNat (hexValue a * 16 + hexValue b) :: hexPairs s
  | _ => []

theorem hexValue_hexDigit {n : Nat} (h : n < 16) : hexValue (hexDigit n) = n ∧ hexDigit n ≠ 0 := by
  revert n
  decide

theorem hexPairs_hexEscape (value : List UInt8) : hexPairs ((hexEscape value).drop 2) = value := by
  induction value with
  | nil => rfl
  | cons b value ih =>
    have hlt := b.toNat_lt
    have hhigh := (hexValue_hexDigit (n := b.toNat / 16) (by omega)).1
    have hlow := (hexValue_hexDigit (n := b.toNat % 16) (by omega)).1
    have hpair : hexPairs ((hexEscape (b :: value)).drop 2) =
        UInt8.ofNat (hexValue (hexDigit (b.toNat / 16)) * 16 + hexValue (hexDigit (b.toNat % 16))) ::
          hexPairs ((hexEscape value).drop 2) := rfl
    rw [hpair, hhigh, hlow, ih, Nat.div_add_mod', UInt8.ofNat_toNat]

theorem hexEscape_noNul (value : List UInt8) : 0 ∉ hexEscape value := by
  intro h
  simp only [hexEscape, List.mem_cons, List.mem_flatMap, List.not_mem_nil, or_false] at h
  obtain h | h | ⟨b, -, h⟩ := h
  · exact absurd h (by decide)
  · exact absurd h (by decide)
  · have hlt := b.toNat_lt
    obtain h | h := h
    · exact (hexValue_hexDigit (by omega)).2 h.symm
    · exact (hexValue_hexDigit (by omega)).2 h.symm

def hexDb : SystemDb where
  escape := hexEscape
  unescape s := hexPairs (s.drop 2)
  unescape_escape := hexPairs_hexEscape
  escape_noNul := hexEscape_noNul
  rowDescription := textColumn.bytes
  commandTag := selectOne.bytes

theorem allFit_small {off : Nat} {m : WireMessage} (h : off + m.bytes.length ≤ 8192) :
    AllFit off (pieces m) := by
  have hcapacity := default_le_capacity (off + 5)
  rw [allFit_pieces (by omega), length_bytes]
  rw [length_bytes] at h
  omega

theorem one_lt : 1 < 2 ^ 16 := by decide

def oneRow : QueryResult := ⟨textColumn, [textRow 1 one_lt], selectOne⟩

/-- The first child does not find the query and sends the result, the second one finds it. -/
def sharedEvents (query database : List UInt8) : List CacheEvent :=
  .select 0 query database 73 3 :: (oneRow.messages.map fun m => .forward 0 database m true true) ++
    [.select 1 query database 73 4]

theorem roomy_sharedEvents (hash : List UInt8 → List UInt8) (query database : List UInt8) :
    ResultCache.start.Roomy hash (sharedEvents query database) := by
  refine ⟨trivial, fun _ _ => allFit_small ?_, fun _ _ => allFit_small ?_, fun _ _ => allFit_small ?_,
    trivial, trivial⟩
  · exact Nat.le_of_ble_eq_true rfl
  · exact Nat.le_of_ble_eq_true rfl
  · exact Nat.le_of_ble_eq_true rfl

/-- `md5_query`. -/
def md5Query (query : List UInt8) : List UInt8 :=
  ((Md5.poolMd5Hash query).getD []).map fun c => UInt8.ofNat c.toNat

theorem run_sharedEvents :
    (Caches.start.run md5Query (fun _ => 0) hexDb (sharedEvents [97] [98])).2 =
      [[], [], [], [], oneRow.messages.flatMap simpleForward ++ readyForQuery 73] := by
  rw [(run_resultCache md5Query (fun _ => 0) hexDb _ (roomy_sharedEvents md5Query [97] [98])).1]
  generalize md5Query = hash
  simp [sharedEvents, ResultCache.run, ResultCache.step, ResultCache.start, Collector.forward,
    QueryResult.messages, QueryResult.front, oneRow, Body.message, Collected.complete]

end PgPool.QueryCache
