import PgPool.Query.RelCache
import Mathlib.Data.List.Induction

/-!
# What the relation cache returns

`pool_search_relcache` with what the backend answers, and with the size of the arrays that keep the names: a
run of lookups, and where their data come from.
-/

namespace PgPool

open CString

/-- `MAX_ITEM_LENGTH`, and the size of `query`. -/
def maxItemLength : Nat := 1024

/-- What comes of `do_query`.  It returns `POOL_CONTINUE` after an ErrorResponse too, with what it has
read until then; and it fails if the connection does. -/
inductive CatalogReply (ρ : Type) where
  | selected (res : ρ)
  | errorResponse (res : ρ)
  | broken

/-- One call of `pool_search_relcache`.  `behind` is what the memory holds behind the name that is
kept, up to a zero byte. -/
structure RelLookup (ρ : Type) where
  client : RelClient
  now : Nat
  table : String
  reply : String → CatalogReply ρ
  behind : String

/-- `POOL_RELCACHE`: the query as a function of the name that is printed into it, and `register_func`. -/
structure RelQuery (ρ δ : Type) where
  sql : String → String
  registerFunc : ρ → Option δ

/-- `strncpy` into an array of the entry, read back as a string: without a zero byte it goes on behind the
array. -/
def readBack (name behind : String) : String :=
  if name.length < maxItemLength then name else String.ofList (name.toList.take maxItemLength) ++ behind

section

variable {ρ δ : Type}

namespace RelLookup

variable (l : RelLookup ρ) (q : RelQuery ρ δ)

/-- The name without its double quotes. -/
def rel : String := eliminateQuotes l.table

/-- The query that is sent. -/
def query : String := String.ofList ((q.sql l.rel).toList.take (maxItemLength - 1))

/-- The entry that is registered. -/
def entry (data : Option δ) : RelEntry δ where
  dbname := readBack l.client.dbname (readBack l.rel l.behind)
  relname := readBack l.rel l.behind
  data := data
  refcnt := 1
  sessionId := l.client.localSessionId
  expire := if 0 < l.client.relcacheExpire then l.now + l.client.relcacheExpire else 0

/-- Not in cache.  No data are returned if the query fails. -/
def searchCatalog (cache : RelCache δ) : Option (Option δ) × RelCache δ :=
  match l.reply (l.query q) with
  | .broken => (none, cache)
  | .selected res | .errorResponse res =>
      let data := q.registerFunc res
      (some data,
        cache.set (replacement cache.cacheIsSessionLocal l.client cache.entries 0 intMax 0) (l.entry data))

/-- `pool_search_relcache`. -/
def search (cache : RelCache δ) : Option (Option δ) × RelCache δ :=
  let isFor := fun e : RelEntry δ => e.isFor cache.cacheIsSessionLocal l.client l.rel
  match cache.entries.find? isFor with
  | none => l.searchCatalog q cache
  | some e =>
    if e.isExpired l.now then
      l.searchCatalog q (cache.set (cache.entries.findIdx isFor) { e with refcnt := 0 })
    else (some e.data, cache.set (cache.entries.findIdx isFor) e.touch)

/-- One lookup after the other. -/
def run (cache : RelCache δ) (lookups : List (RelLookup ρ)) : RelCache δ :=
  lookups.foldl (fun cache l => (l.search q cache).2) cache

end RelLookup

/-! ## Relations -/

/-- The identifiers of a name: outside of double quotes letters are folded, and a point separates. -/
def identifiers : Bool → List Char → List Char → List (List Char)
  | _, name, [] => [name.reverse]
  | true, name, '"' :: '"' :: rest => identifiers true ('"' :: name) rest
  | quoted, name, '"' :: rest => identifiers (!quoted) name rest
  | false, name, '.' :: rest => name.reverse :: identifiers false [] rest
  | true, name, c :: rest => identifiers true (c :: name) rest
  | false, name, c :: rest => identifiers false (c.toLower :: name) rest

/-- The relation that a lookup is about. -/
def RelLookup.relation (l : RelLookup ρ) : String × List (List Char) :=
  (l.client.dbname, identifiers false [] l.table.toList)

/-- The keys of two lookups agree. -/
def RelLookup.sameKey (l m : RelLookup ρ) : Bool :=
  caseEq l.client.dbname m.client.dbname && caseEq l.rel m.rel

/-- The entry is what a lookup has registered, whose query has succeeded. -/
structure Registered (q : RelQuery ρ δ) (m : RelLookup ρ) (e : RelEntry δ) : Prop where
  selected : ∃ res, m.reply (q.sql m.rel) = .selected res ∧ e.data = q.registerFunc res
  dbname : e.dbname = m.client.dbname
  relname : e.relname = m.rel
  session : e.sessionId = m.client.localSessionId
  expire : e.expire = if 0 < m.client.relcacheExpire then m.now + m.client.relcacheExpire else 0

/-- The entry has not been used yet. -/
def RelEntry.Unused (e : RelEntry δ) : Prop := e.dbname = "" ∧ e.relname = ""

/-- The data are those of a successful query of `m`, and are good for `l`. -/
structure Supplies (q : RelQuery ρ δ) (sessionLocal : Bool) (m l : RelLookup ρ) (data : Option δ) :
    Prop where
  selected : ∃ res, m.reply (q.sql m.rel) = .selected res ∧ data = q.registerFunc res
  relation : m.relation = l.relation
  fresh : 0 < m.client.relcacheExpire → l.now ≤ m.now + m.client.relcacheExpire
  session : sessionLocal = true → m.client.localSessionId = l.client.localSessionId

/-- The names, and the query, fit into their arrays. -/
structure RelLookup.Fits (q : RelQuery ρ δ) (l : RelLookup ρ) : Prop where
  dbname : l.client.dbname.length < maxItemLength
  relname : l.rel.length < maxItemLength
  query : (q.sql l.rel).length < maxItemLength

/-- The condition on a lookup: everything fits; the names are not both empty, which is how an unused entry
looks; and no ErrorResponse comes. -/
structure RelLookup.Plain (q : RelQuery ρ δ) (l : RelLookup ρ) : Prop extends l.Fits q where
  named : ¬ (l.client.dbname = "" ∧ l.rel = "")
  noError : ∀ res, l.reply (q.sql l.rel) ≠ .errorResponse res

/-- The condition on a run: each lookup is plain, and names of different relations differ in more than
the case of letters and double quotes. -/
structure DistinctNames (q : RelQuery ρ δ) (lookups : List (RelLookup ρ)) : Prop where
  plain : ∀ l ∈ lookups, l.Plain q
  apart : ∀ l ∈ lookups, ∀ m ∈ lookups, l.sameKey m = true → l.relation = m.relation

/-! ## One lookup -/

theorem readBack_short {name : String} (h : name.length < maxItemLength) (behind : String) :
    readBack name behind = name := if_pos h

theorem RelLookup.query_short {q : RelQuery ρ δ} {l : RelLookup ρ}
    (h : (q.sql l.rel).length < maxItemLength) :
    l.query q = q.sql l.rel := by
  have hlen : (q.sql l.rel).toList.length ≤ maxItemLength - 1 := by
    rw [String.length_toList]
    omega
  unfold RelLookup.query
  rw [List.take_of_length_le hlen, String.ofList_toList]

namespace RelLookup

variable {l : RelLookup ρ} {q : RelQuery ρ δ} {cache : RelCache δ}

/-- What the register function makes of the answer, as `pool_search_relcache` sees it. -/
def ask (l : RelLookup ρ) (q : RelQuery ρ δ) (rel : String) : Option (Option δ) :=
  match l.reply (q.sql rel) with
  | .broken => none
  | .selected res | .errorResponse res => some (q.registerFunc res)

theorem entry_fits (h : l.Fits q) (data : Option δ) :
    l.entry data = ⟨l.client.dbname, l.rel, data, 1, l.client.localSessionId,
      if 0 < l.client.relcacheExpire then l.now + l.client.relcacheExpire else 0⟩ := by
  unfold entry
  rw [readBack_short h.relname, readBack_short h.dbname]

theorem searchCatalog_fits (h : l.Fits q) :
    ((l.searchCatalog q cache).1.join, (l.searchCatalog q cache).2) =
      cache.searchCatalog l.client l.now (l.ask q) l.rel := by
  unfold searchCatalog RelCache.searchCatalog ask
  rw [query_short h.query]
  cases l.reply (q.sql l.rel) with
  | broken => rfl
  | selected res => simp only [entry_fits h, Option.join_some, RelCache.register]
  | errorResponse res => simp only [entry_fits h, Option.join_some, RelCache.register]

/-- As long as the names fit, this is the search that does not look at the arrays. -/
theorem search_fits (h : l.Fits q) :
    ((l.search q cache).1.join, (l.search q cache).2) =
      cache.poolSearchRelcache l.client l.now (l.ask q) l.table := by
  unfold search RelCache.poolSearchRelcache
  dsimp only
  cases hfind : cache.entries.find? fun e =>
      e.isFor cache.cacheIsSessionLocal l.client (eliminateQuotes l.table) with
  | none =>
    have hfind' : cache.entries.find? (fun e => e.isFor cache.cacheIsSessionLocal l.client l.rel) =
        none := hfind
    rw [hfind']
    exact searchCatalog_fits h
  | some e =>
    have hfind' : cache.entries.find? (fun e => e.isFor cache.cacheIsSessionLocal l.client l.rel) =
        some e := hfind
    rw [hfind']
    dsimp only
    split
    · exact searchCatalog_fits h
    · rfl

/-- Data are returned from a live entry for the relation, or from the answer to a query. -/
theorem search_eq_some {data : Option δ} (h : (l.search q cache).1 = some data) :
    (∃ e ∈ cache.entries, e.isFor cache.cacheIsSessionLocal l.client l.rel = true ∧
        e.isExpired l.now = false ∧ e.data = data) ∨
      ∃ res, (l.reply (l.query q) = .selected res ∨ l.reply (l.query q) = .errorResponse res) ∧
        q.registerFunc res = data := by
  have hcatalog : ∀ {cache' : RelCache δ}, (l.searchCatalog q cache').1 = some data →
      ∃ res, (l.reply (l.query q) = .selected res ∨ l.reply (l.query q) = .errorResponse res) ∧
        q.registerFunc res = data := by
    intro cache' hsome
    unfold searchCatalog at hsome
    cases hreply : l.reply (l.query q) with
    | broken => simp [hreply] at hsome
    | selected res => exact ⟨res, .inl rfl, by simpa [hreply] using hsome⟩
    | errorResponse res => exact ⟨res, .inr rfl, by simpa [hreply] using hsome⟩
  unfold search at h
  dsimp only at h
  split at h
  · exact .inr (hcatalog h)
  · next e hfind =>
    split at h
    · exact .inr (hcatalog h)
    · next hlive =>
      have hfor := List.find?_some
        (p := fun e : RelEntry δ => e.isFor cache.cacheIsSessionLocal l.client l.rel) hfind
      exact .inl ⟨e, List.mem_of_find?_eq_some hfind, hfor, eq_false_of_ne_true hlive, Option.some.inj h⟩

theorem search_local : (l.search q cache).2.cacheIsSessionLocal = cache.cacheIsSessionLocal := by
  have hcatalog : ∀ {cache' : RelCache δ}, cache'.cacheIsSessionLocal = cache.cacheIsSessionLocal →
      (l.searchCatalog q cache').2.cacheIsSessionLocal = cache.cacheIsSessionLocal := by
    intro cache' hlocal
    unfold searchCatalog
    cases l.reply (l.query q) <;> exact hlocal
  unfold search
  dsimp only
  split
  · exact hcatalog rfl
  · split
    · exact hcatalog rfl
    · rfl

end RelLookup

/-! ## Runs -/

/-- Every entry that has been used is from a successful query. -/
def Backed (q : RelQuery ρ δ) (past : List (RelLookup ρ)) (cache : RelCache δ) : Prop :=
  ∀ e ∈ cache.entries, e.Unused ∨ ∃ m ∈ past, Registered q m e

variable {q : RelQuery ρ δ} {l : RelLookup ρ} {past lookups : List (RelLookup ρ)} {cache : RelCache δ}

theorem backed_search (hplain : l.Plain q) (h : Backed q past cache) :
    Backed q (past ++ [l]) (l.search q cache).2 := by
  have hcache : (l.search q cache).2 = (cache.poolSearchRelcache l.client l.now (l.ask q) l.table).2 :=
    congrArg Prod.snd (RelLookup.search_fits hplain.toFits)
  unfold Backed
  rw [hcache]
  refine RelCache.forall_poolSearchRelcache (fun e he => ?_) (fun e n he => ?_) (fun data hask => ?_)
  · obtain hunused | ⟨m, hm, hreg⟩ := h e he
    · exact .inl hunused
    · exact .inr ⟨m, List.mem_append_left _ hm, hreg⟩
  · obtain hunused | ⟨m, hm, hreg⟩ := he
    · exact .inl hunused
    · exact .inr ⟨m, hm, hreg.selected, hreg.dbname, hreg.relname, hreg.session, hreg.expire⟩
  · refine .inr ⟨l, List.mem_append_right _ (List.mem_singleton_self l), ?_, rfl, rfl, rfl, rfl⟩
    unfold RelLookup.ask at hask
    change (match l.reply (q.sql l.rel) with
      | .broken => none
      | .selected res | .errorResponse res => some (q.registerFunc res)) = some data at hask
    cases hreply : l.reply (q.sql l.rel) with
    | broken => simp [hreply] at hask
    | selected res => exact ⟨res, rfl, by simpa [hreply] using hask.symm⟩
    | errorResponse res => exact absurd hreply (hplain.noError res)

theorem eq_empty_of_caseEq {s : String} (h : caseEq "" s = true) : s = "" := by
  have hfold : foldCase "" = foldCase s := beq_iff_eq.mp h
  have hnil : s.toList = [] := List.map_eq_nil_iff.mp hfold.symm
  exact String.toList_inj.mp hnil

theorem supplies_search (hplain : l.Plain q) (h : Backed q past cache)
    (hapart : ∀ m ∈ past, m.sameKey l = true → m.relation = l.relation) {data : Option δ}
    (hsome : (l.search q cache).1 = some data) :
    ∃ m ∈ past ++ [l], Supplies q cache.cacheIsSessionLocal m l data := by
  obtain ⟨e, he, hfor, hlive, rfl⟩ | ⟨res, hreply, rfl⟩ := RelLookup.search_eq_some hsome
  · simp only [RelEntry.isFor, Bool.and_eq_true] at hfor
    obtain ⟨hsession, hdb, hrel⟩ := hfor
    obtain ⟨hdbname, hrelname⟩ | ⟨m, hm, hreg⟩ := h e he
    · rw [hdbname] at hdb
      rw [hrelname] at hrel
      exact absurd ⟨eq_empty_of_caseEq hdb, eq_empty_of_caseEq hrel⟩ hplain.named
    · refine ⟨m, List.mem_append_left _ hm, hreg.selected, hapart m hm ?_, fun hpos => ?_, fun hlocal => ?_⟩
      · rw [hreg.dbname] at hdb
        rw [hreg.relname] at hrel
        exact Bool.and_eq_true_iff.mpr ⟨hdb, hrel⟩
      · have hexpire := hreg.expire
        rw [if_pos hpos] at hexpire
        simp only [RelEntry.isExpired, Bool.and_eq_false_iff, decide_eq_false_iff_not] at hlive
        omega
      · rw [hlocal] at hsession
        rw [← hreg.session]
        simpa using hsession
  · refine ⟨l, List.mem_append_right _ (List.mem_singleton_self l), ?_, rfl, fun _ => by omega,
      fun _ => rfl⟩
    rw [RelLookup.query_short hplain.query] at hreply
    obtain hselected | herror := hreply
    · exact ⟨res, hselected, rfl⟩
    · exact absurd herror (hplain.noError res)

theorem run_append_singleton :
    RelLookup.run q cache (past ++ [l]) = (l.search q (RelLookup.run q cache past)).2 := by
  unfold RelLookup.run
  rw [List.foldl_append, List.foldl_cons, List.foldl_nil]

theorem backed_run (h : Backed q [] cache) (hplain : ∀ l ∈ lookups, l.Plain q) :
    Backed q lookups (RelLookup.run q cache lookups) := by
  induction lookups using List.reverseRecOn with
  | nil => exact h
  | append_singleton past l ih =>
    rw [run_append_singleton]
    exact backed_search (hplain l (List.mem_append_right _ (List.mem_singleton_self l)))
      (ih fun m hm => hplain m (List.mem_append_left _ hm))

theorem run_local : (RelLookup.run q cache lookups).cacheIsSessionLocal = cache.cacheIsSessionLocal := by
  induction lookups using List.reverseRecOn with
  | nil => rfl
  | append_singleton past l ih =>
    rw [run_append_singleton, RelLookup.search_local, ih]

theorem backed_create (size : Nat) (hsize : size ≠ 0) (sessionLocal : Bool) :
    Backed q [] (poolCreateRelcache δ size hsize sessionLocal) := by
  intro e he
  rw [List.eq_of_mem_replicate he]
  exact .inl ⟨rfl, rfl⟩

/-- **Relation cache**: in a run of plain lookups, with names of relations that are told apart, each
returns data that a query for this relation has supplied, and no other query leaves an entry. -/
theorem relcache_sound {size : Nat} (hsize : size ≠ 0) {sessionLocal : Bool}
    (hruns : DistinctNames q lookups)
    {pre post : List (RelLookup ρ)} (hl : lookups = pre ++ l :: post) :
    (∀ data,
      (l.search q (RelLookup.run q (poolCreateRelcache δ size hsize sessionLocal) pre)).1 = some data →
        ∃ m ∈ pre ++ [l], Supplies q sessionLocal m l data) ∧
    Backed q (pre ++ [l])
      (RelLookup.run q (poolCreateRelcache δ size hsize sessionLocal) (pre ++ [l])) := by
  have hmem : ∀ m ∈ pre ++ [l], m ∈ lookups := by
    rw [hl]
    intro m hm
    rw [← List.singleton_append, ← List.append_assoc]
    exact List.mem_append_left post hm
  have hlast : l ∈ pre ++ [l] := List.mem_append_right _ (List.mem_singleton_self l)
  have hpre := backed_run (backed_create size hsize sessionLocal)
    fun m hm => hruns.plain m (hmem m (List.mem_append_left [l] hm))
  refine ⟨fun data hsome => ?_, backed_run (backed_create size hsize sessionLocal)
    fun m hm => hruns.plain m (hmem m hm)⟩
  have hsupplies := supplies_search (hruns.plain l (hmem l hlast)) hpre
    (fun m hm => hruns.apart m (hmem m (List.mem_append_left _ hm)) l (hmem l hlast)) hsome
  rwa [run_local] at hsupplies

end

/-! ## Names in double quotes -/

/-- A session whose cache does not expire. -/
def relSession : RelClient := ⟨1, "d", 0, Nat.one_pos⟩

/-- The count of the rows that are selected. -/
def countQuery : RelQuery Nat Nat := ⟨fun rel => "SELECT " ++ rel, fun n => if n = 0 then none else some n⟩

def lookupFirst : RelLookup Nat := ⟨relSession, 0, "\"Foo\"", fun _ => .selected 1, ""⟩

def lookupSecond : RelLookup Nat := ⟨relSession, 1, "\"foo\"", fun _ => .selected 0, ""⟩

theorem relcache_sound_same :
    DistinctNames countQuery [lookupFirst, lookupFirst] ∧
      Backed countQuery [lookupFirst] (RelLookup.run countQuery
        (poolCreateRelcache Nat 1 Nat.one_ne_zero false) [lookupFirst]) := by
  have hfirst : lookupFirst.Plain countQuery := ⟨⟨by decide, by decide, by decide⟩, by decide, nofun⟩
  have hruns : DistinctNames countQuery [lookupFirst, lookupFirst] := by
    refine ⟨fun l hl => ?_, fun l hl m hm _ => ?_⟩
    · obtain rfl : l = lookupFirst := by simpa using hl
      exact hfirst
    · obtain rfl : l = lookupFirst := by simpa using hl
      obtain rfl : m = lookupFirst := by simpa using hm
      rfl
  have hfirst' : [lookupFirst, lookupFirst] = [] ++ lookupFirst :: [lookupFirst] := rfl
  exact ⟨hruns, (relcache_sound Nat.one_ne_zero hruns hfirst').2⟩

/-- The data of "Foo" are returned for "foo". -/
theorem not_sound_quoted :
    ∃ data, (lookupSecond.search countQuery (RelLookup.run countQuery
        (poolCreateRelcache Nat 1 Nat.one_ne_zero false) [lookupFirst])).1 = some data ∧
      ¬ ∃ m ∈ [lookupFirst, lookupSecond], Supplies countQuery false m lookupSecond data := by
  refine ⟨some 1, by decide, ?_⟩
  rintro ⟨m, hm, hsupplies⟩
  rcases List.mem_cons.mp hm with rfl | hm
  · exact absurd hsupplies.relation (by decide)
  · obtain rfl := List.mem_singleton.mp hm
    obtain ⟨res, hres, hdata⟩ := hsupplies.selected
    cases hres
    cases hdata

end PgPool
