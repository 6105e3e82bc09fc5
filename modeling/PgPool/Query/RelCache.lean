import Mathlib.Algebra.Ring.Nat
import PgPool.Lib.CString

/-!
# The relation cache

`pool_relcache.c`: answers of the system catalog, kept by database and relation, and in a cache that is
session local by session.
-/

namespace PgPool

open CString

/-- `PoolRelCache`.  `none` is a null pointer, and 0 in a cache of counts. -/
structure RelEntry (δ : Type) where
  dbname : String
  relname : String
  data : Option δ
  refcnt : Nat
  sessionId : Nat
  expire : Nat

/-- `memset` of a new cache. -/
def RelEntry.zeroed {δ : Type} : RelEntry δ := ⟨"", "", none, 0, 0, 0⟩

/-- `INT_MAX`. -/
def intMax : Nat := 2 ^ 31 - 1

/-- `POOL_RELCACHE` but for its query and functions.  Every caller asks for 128 entries. -/
structure RelCache (δ : Type) where
  cacheIsSessionLocal : Bool
  entries : List (RelEntry δ)
  pos : entries ≠ []

/-- `pool_create_relcache`. -/
def poolCreateRelcache (δ : Type) (cachesize : Nat) (h : cachesize ≠ 0) (issessionlocal : Bool) :
    RelCache δ :=
  ⟨issessionlocal, List.replicate cachesize .zeroed, by simpa using h⟩

/-- Who asks: the local session, the database of the connection, and `relcache_expire`.  The first session
of a process has the number 1. -/
structure RelClient where
  localSessionId : Nat
  dbname : String
  relcacheExpire : Nat
  pos : 0 < localSessionId

/-- Eliminate double quotes. -/
def eliminateQuotes (table : String) : String := String.ofList (table.toList.filter (· != '"'))

namespace RelEntry

variable {δ : Type} (e : RelEntry δ)

/-- The entry is for the relation. -/
def isFor (sessionLocal : Bool) (client : RelClient) (rel : String) : Bool :=
  (!sessionLocal || e.sessionId == client.localSessionId) &&
    (caseEq e.dbname client.dbname && caseEq e.relname rel)

def isExpired (now : Nat) : Bool := decide (0 < e.expire) && decide (e.expire < now)

def touch : RelEntry δ := { e with refcnt := min (e.refcnt + 1) intMax }

end RelEntry

section

variable {δ : Type}

/-- The replacement: an entry of another session, an empty one, or the one that has been used least. -/
def replacement (sessionLocal : Bool) (client : RelClient) : List (RelEntry δ) → Nat → Nat → Nat → Nat
  | [], _, _, index => index
  | e :: rest, i, maxrefcnt, index =>
    if sessionLocal && e.sessionId != client.localSessionId then i
    else if e.refcnt = 0 then i
    else if e.refcnt < maxrefcnt then replacement sessionLocal client rest (i + 1) e.refcnt i
    else replacement sessionLocal client rest (i + 1) maxrefcnt index

namespace RelCache

variable (cache : RelCache δ) (client : RelClient) (now : Nat)

def set (i : Nat) (e : RelEntry δ) : RelCache δ :=
  { cache with
    entries := cache.entries.set i e
    pos := by simpa using cache.pos }

/-- Register an answer. -/
def register (rel : String) (data : Option δ) : RelCache δ :=
  cache.set (replacement cache.cacheIsSessionLocal client cache.entries 0 intMax 0)
    { dbname := client.dbname
      relname := rel
      data := data
      refcnt := 1
      sessionId := client.localSessionId
      expire := if 0 < client.relcacheExpire then now + client.relcacheExpire else 0 }

variable (ask : String → Option (Option δ))

/-- Not in cache: the system catalog is asked.  `none`: the query fails. -/
def searchCatalog (rel : String) : Option δ × RelCache δ :=
  match ask rel with
  | none => (none, cache)
  | some data => (data, cache.register client now rel data)

/-- `pool_search_relcache`; `ask` is what the registered data of the query's answer would be. -/
def poolSearchRelcache (table : String) : Option δ × RelCache δ :=
  let rel := eliminateQuotes table
  let isFor := fun e : RelEntry δ => e.isFor cache.cacheIsSessionLocal client rel
  match cache.entries.find? isFor with
  | none => cache.searchCatalog client now ask rel
  | some e =>
    if e.isExpired now then
      (cache.set (cache.entries.findIdx isFor) { e with refcnt := 0 }).searchCatalog client now ask rel
    else (e.data, cache.set (cache.entries.findIdx isFor) e.touch)

/-! ## What is kept -/

variable {cache client now ask}

theorem entries_set {i : Nat} {e e' : RelEntry δ} (h : e' ∈ (cache.set i e).entries) :
    e' = e ∨ e' ∈ cache.entries := (List.mem_or_eq_of_mem_set h).symm

/-- What a search does: it returns the data of a live entry for the relation, or asks the catalog. -/
theorem poolSearchRelcache_cases (table : String) :
    (∃ e ∈ cache.entries, e.isFor cache.cacheIsSessionLocal client (eliminateQuotes table) = true ∧
      e.isExpired now = false ∧ ∃ i,
        cache.poolSearchRelcache client now ask table = (e.data, cache.set i e.touch)) ∨
    ∃ cache' : RelCache δ,
      (cache' = cache ∨ ∃ e ∈ cache.entries, ∃ i, cache' = cache.set i { e with refcnt := 0 }) ∧
      cache.poolSearchRelcache client now ask table =
        cache'.searchCatalog client now ask (eliminateQuotes table) := by
  unfold poolSearchRelcache
  dsimp only
  split
  · exact .inr ⟨cache, .inl rfl, rfl⟩
  · next e hfind =>
    have hmem := List.mem_of_find?_eq_some hfind
    by_cases hexpired : e.isExpired now = true
    · rw [if_pos hexpired]
      exact .inr ⟨_, .inr ⟨e, hmem, _, rfl⟩, rfl⟩
    · rw [if_neg hexpired]
      have hfor := List.find?_some
        (p := fun e : RelEntry δ => e.isFor cache.cacheIsSessionLocal client (eliminateQuotes table)) hfind
      exact .inl ⟨e, hmem, hfor, eq_false_of_ne_true hexpired, _, rfl⟩

/-- What holds of each entry, however often it is used, and of each answer that is registered holds after
a search. -/
theorem forall_poolSearchRelcache {P : RelEntry δ → Prop} {table : String}
    (hentries : ∀ e ∈ cache.entries, P e) (hrefcnt : ∀ e n, P e → P { e with refcnt := n })
    (hregister : ∀ data, ask (eliminateQuotes table) = some data →
      P ⟨client.dbname, eliminateQuotes table, data, 1, client.localSessionId,
        if 0 < client.relcacheExpire then now + client.relcacheExpire else 0⟩) :
    ∀ e ∈ (cache.poolSearchRelcache client now ask table).2.entries, P e := by
  have hset : ∀ e ∈ cache.entries, ∀ i n, ∀ e' ∈ (cache.set i { e with refcnt := n }).entries, P e' := by
    intro e hmem i n e' he'
    obtain rfl | hold := entries_set he'
    · exact hrefcnt e n (hentries e hmem)
    · exact hentries e' hold
  obtain ⟨e, hmem, -, -, i, heq⟩ | ⟨cache', hcache', heq⟩ := poolSearchRelcache_cases table
  · rw [heq]
    exact hset e hmem i _
  · have hentries' : ∀ e ∈ cache'.entries, P e := by
      obtain rfl | ⟨e, hmem, i, rfl⟩ := hcache'
      · exact hentries
      · exact hset e hmem i 0
    rw [heq, searchCatalog]
    cases hask : ask (eliminateQuotes table) with
    | none => exact hentries'
    | some data =>
      intro e he
      obtain rfl | hold := entries_set he
      · exact hregister data hask
      · exact hentries' e hold

/-- A search finds something if no live entry for the relation says that there is nothing, and the catalog
would not say so. -/
theorem isSome_poolSearchRelcache {table : String}
    (hentries : ∀ e ∈ cache.entries,
      e.isFor cache.cacheIsSessionLocal client (eliminateQuotes table) = true →
        e.isExpired now = false → e.data.isSome = true)
    (hask : ∃ d, ask (eliminateQuotes table) = some (some d)) :
    (cache.poolSearchRelcache client now ask table).1.isSome = true := by
  obtain ⟨d, hd⟩ := hask
  obtain ⟨e, hmem, hfor, hlive, i, heq⟩ | ⟨cache', -, heq⟩ := poolSearchRelcache_cases table
  · rw [heq]
    exact hentries e hmem hfor hlive
  · rw [heq, searchCatalog, hd]
    rfl

theorem poolSearchRelcache_local (table : String) :
    (cache.poolSearchRelcache client now ask table).2.cacheIsSessionLocal = cache.cacheIsSessionLocal := by
  obtain ⟨e, -, -, -, i, heq⟩ | ⟨cache', hcache', heq⟩ := poolSearchRelcache_cases table
  · rw [heq]
    rfl
  · have hlocal : cache'.cacheIsSessionLocal = cache.cacheIsSessionLocal := by
      obtain rfl | ⟨e, -, i, rfl⟩ := hcache'
      · rfl
      · rfl
    rw [heq, searchCatalog]
    cases ask (eliminateQuotes table) <;> exact hlocal

end RelCache

end

end PgPool
