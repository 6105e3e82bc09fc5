import PgPool.Query.CacheTable

/-!
# Where the rows of the query cache come from

A row has messages that one child has sent, in their order; and this child has looked up a query with the hash
of the row.
-/

namespace PgPool.QueryCache

/-- The messages that a child sends to its frontend. -/
def forwarded (i : Nat) (es : List CacheEvent) : List WireMessage :=
  es.filterMap fun e =>
    match e with
    | .forward j _ m _ _ => if j = i then some m else none
    | _ => none

/-- The child has looked up a query with this hash, and has sent these messages. -/
def Sent (hash : List UInt8 → List UInt8) (es : List CacheEvent) (i : Nat) (key : CacheKey)
    (messages : List WireMessage) : Prop :=
  (∃ query database tstate arrive, CacheEvent.select i query database tstate arrive ∈ es ∧
    key.1 = hash query) ∧ messages.Sublist (forwarded i es)

structure Known (hash : List UInt8 → List UInt8) (es : List CacheEvent) (a : ResultCache) : Prop where
  queries : ∀ i query, (a.children i).query = some query →
    ∃ database tstate arrive, CacheEvent.select i query database tstate arrive ∈ es
  parts : ∀ i r, (a.children i).collected = some r → Sent hash es i r.key r.front
  rows : ∀ key r, a.table key = some r → ∃ i, Sent hash es i key r.messages

section

variable {hash : List UInt8 → List UInt8} {es : List CacheEvent} {a : ResultCache} {i : Nat}
  {key : CacheKey} {messages : List WireMessage}

theorem forwarded_append (e : CacheEvent) :
    (forwarded i es).Sublist (forwarded i (es ++ [e])) := by
  rw [forwarded, forwarded, List.filterMap_append]
  exact List.sublist_append_left ..

theorem forwarded_forward (database : List UInt8) (m : WireMessage) (up stores : Bool) :
    forwarded i (es ++ [.forward i database m up stores]) = forwarded i es ++ [m] := by
  simp [forwarded]

theorem Sent.later (h : Sent hash es i key messages) (e : CacheEvent) :
    Sent hash (es ++ [e]) i key messages := by
  obtain ⟨⟨query, database, tstate, arrive, hmem, hkey⟩, hsub⟩ := h
  exact ⟨⟨query, database, tstate, arrive, List.mem_append_left _ hmem, hkey⟩,
    hsub.trans (forwarded_append e)⟩

theorem Sent.next (h : Sent hash es i key messages) (database : List UInt8) (m : WireMessage)
    (up stores : Bool) :
    Sent hash (es ++ [.forward i database m up stores]) i key (messages ++ [m]) := by
  refine ⟨(h.later _).1, ?_⟩
  rw [forwarded_forward]
  exact h.2.append (List.Sublist.refl [m])

theorem Known.later (h : Known hash es a) (e : CacheEvent) : Known hash (es ++ [e]) a where
  queries j query hquery := by
    obtain ⟨database, tstate, arrive, hmem⟩ := h.queries j query hquery
    exact ⟨database, tstate, arrive, List.mem_append_left _ hmem⟩
  parts j r hr := (h.parts j r hr).later e
  rows key r hr := by
    obtain ⟨j, hsent⟩ := h.rows key r hr
    exact ⟨j, hsent.later e⟩

/-- One child changes, and the table with it. -/
theorem Known.update (h : Known hash es a) {c : Collector} {table : CacheKey → Option QueryResult}
    (hquery : ∀ query, c.query = some query →
      ∃ database tstate arrive, CacheEvent.select i query database tstate arrive ∈ es)
    (hpart : ∀ r, c.collected = some r → Sent hash es i r.key r.front)
    (hrows : ∀ key r, table key = some r → ∃ i, Sent hash es i key r.messages) :
    Known hash es ⟨table, Function.update a.children i c⟩ where
  queries j query hj := by
    dsimp only at hj
    rw [Function.update_apply] at hj
    split at hj
    · rename_i heq
      exact heq ▸ hquery query hj
    · exact h.queries j query hj
  parts j r hj := by
    dsimp only at hj
    rw [Function.update_apply] at hj
    split at hj
    · rename_i heq
      exact heq ▸ hpart r hj
    · exact h.parts j r hj
  rows := hrows

theorem known_forward (h : Known hash es a) (i : Nat) (database : List UInt8) (m : WireMessage)
    (up stores : Bool) :
    Known hash (es ++ [.forward i database m up stores])
      (a.step hash (.forward i database m up stores)).1 := by
  have hlater := h.later (.forward i database m up stores)
  have hquery := hlater.queries i
  have hpart := hlater.parts i
  change Known hash _ ⟨((a.children i).forward hash up stores database m a.table).2,
    Function.update a.children i ((a.children i).forward hash up stores database m a.table).1⟩
  unfold Collector.forward
  split
  · rename_i hkind
    cases hq : (a.children i).query with
    | none => exact hlater.update hquery hpart hlater.rows
    | some query =>
      dsimp only
      split
      · exact hlater.update (hq ▸ hquery) hpart hlater.rows
      · cases hcollected : (a.children i).collected with
        | none =>
          refine hlater.update (hq ▸ hquery) (fun r hr => ?_) hlater.rows
          cases hr
          obtain ⟨database', tstate, arrive, hmem⟩ := hquery query hq
          refine ⟨⟨query, database', tstate, arrive, hmem, rfl⟩, ?_⟩
          rw [front_rowDescription _ m hkind, forwarded_forward]
          exact List.sublist_append_right ..
        | some r => exact hlater.update (hq ▸ hquery) (fun r hr => by cases hr) hlater.rows
  · split
    · rename_i hinside
      split
      · exact hlater.update (fun query hq => by cases hq) hpart hlater.rows
      · cases hcollected : (a.children i).collected with
        | none => exact hlater.update (fun query hq => by cases hq) (fun r hr => by cases hr) hlater.rows
        | some r =>
          have hnext := (h.parts i r hcollected).next database m up stores
          dsimp only
          split
          · rename_i hk
            refine hlater.update hquery (fun r' hr => ?_) hlater.rows
            cases hr
            rw [front_dataRow r m hk]
            exact hnext
          · split
            · rename_i hk
              refine hlater.update (fun query hq => by cases hq) (fun r hr => by cases hr) fun key r' hr => ?_
              dsimp only at hr
              rw [Function.update_apply] at hr
              split at hr
              · rename_i heq
                cases hr
                rw [heq, messages_complete r m hk.1]
                exact ⟨i, hnext⟩
              · exact hlater.rows key r' hr
            · exact hlater.update (fun query hq => by cases hq) (fun r hr => by cases hr) hlater.rows
    · exact hlater.update hquery hpart hlater.rows

theorem known_step (h : Known hash es a) (e : CacheEvent) : Known hash (es ++ [e]) (a.step hash e).1 := by
  have hlater := h.later e
  cases e with
  | forward i database m up stores => exact known_forward h i database m up stores
  | clear old =>
    refine ⟨hlater.queries, hlater.parts, fun key r hr => ?_⟩
    change (if old key then none else a.table key) = some r at hr
    split at hr
    · cases hr
    · exact hlater.rows key r hr
  | select i query database tstate arrive =>
    have hlooked : ∀ q, some query = some q → ∃ database' tstate' arrive',
        CacheEvent.select i q database' tstate' arrive' ∈ es ++ [.select i query database tstate arrive] := by
      intro q hq
      cases hq
      exact ⟨database, tstate, arrive, List.mem_append_right _ List.mem_cons_self⟩
    cases hrow : a.table (hash query, database) with
    | none =>
      have hstep : (a.step hash (.select i query database tstate arrive)).1 =
          ⟨a.table, Function.update a.children i { a.children i with query := some query }⟩ := by
        simp only [ResultCache.step, hrow]
      rw [hstep]
      exact hlater.update hlooked (hlater.parts i) hlater.rows
    | some r =>
      have hstep : (a.step hash (.select i query database tstate arrive)).1 =
          ⟨a.table, Function.update a.children i
            { a.children i with query := if 4 ≤ arrive then none else some query }⟩ := by
        simp only [ResultCache.step, hrow]
      rw [hstep]
      refine hlater.update (fun q hq => ?_) (hlater.parts i) hlater.rows
      dsimp only at hq
      split at hq
      · cases hq
      · exact hlooked q hq

theorem known_run {past : List CacheEvent} (h : Known hash past a) (es : List CacheEvent) :
    Known hash (past ++ es) (a.run hash es).1 := by
  induction es generalizing past a with
  | nil => rwa [List.append_nil]
  | cons e es ih =>
    have hnext := ih (known_step h e)
    rwa [List.append_assoc, List.singleton_append] at hnext

end

/-- A row is a whole result that one child has sent, which had looked up a query with the row's hash. -/
theorem row_of_run (hash : List UInt8 → List UInt8) (fresh : Nat → UInt8) (db : SystemDb)
    (es : List CacheEvent) (hroomy : ResultCache.start.Roomy hash es) {key : CacheKey} {value : List UInt8}
    (hrow : (Caches.start.run hash fresh db es).1.table key = some value) :
    ∃ (i : Nat) (r : QueryResult), value = wire r.messages ∧ Sent hash es i key r.messages := by
  have hstart : Known hash [] ResultCache.start :=
    ⟨fun i query hq => (by cases hq), fun i r hr => (by cases hr), fun key r hr => (by cases hr)⟩
  have hrows := (agrees_run hash fresh db agrees_start hroomy).2.rows key
  rw [hrow] at hrows
  obtain ⟨r, hr, hvalue⟩ := Option.map_eq_some_iff.1 hrows.symm
  obtain ⟨i, hsent⟩ := (known_run hstart es).rows key r hr
  exact ⟨i, r, hvalue.symm, hsent⟩

theorem row_sharedEvents :
    ∃ value, (Caches.start.run md5Query (fun _ => 0) hexDb (sharedEvents [97] [98])).1.table
        (md5Query [97], [98]) = some value ∧
      ∃ (i : Nat) (r : QueryResult), value = wire r.messages ∧
        Sent md5Query (sharedEvents [97] [98]) i (md5Query [97], [98]) r.messages := by
  have hroomy := roomy_sharedEvents md5Query [97] [98]
  have hrow : (Caches.start.run md5Query (fun _ => 0) hexDb (sharedEvents [97] [98])).1.table
      (md5Query [97], [98]) = some (wire oneRow.messages) := by
    rw [(agrees_run md5Query (fun _ => 0) hexDb agrees_start hroomy).2.rows]
    generalize md5Query = hash
    simp [sharedEvents, ResultCache.run, ResultCache.step, ResultCache.start, Collector.forward,
      QueryResult.messages, QueryResult.front, oneRow, Body.message, Collected.complete]
  exact ⟨_, hrow, row_of_run md5Query (fun _ => 0) hexDb _ hroomy hrow⟩

end PgPool.QueryCache
