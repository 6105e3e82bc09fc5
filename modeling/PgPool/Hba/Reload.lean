import Mathlib.Data.List.Induction
import PgPool.Hba.Check

/-!
# Loading `pool_hba.conf` again

`load_hba`, `free_lines` and `check_hba` with the memory pool that the lists live in.  Every list cell knows
the pool that it has been allocated in; where a pool that has been deleted is used, the result is `none`.
-/

namespace PgPool.Hba

abbrev PoolId := Nat

/-- A list cell. -/
structure Cell (α : Type) where
  pool : PoolId
  value : α

/-- The static variables of `pool_hba.c`, and the memory pools. -/
structure HbaState where
  hbaMemoryContext : Option PoolId
  hbaLines : List (Cell (List (Cell Bytes)))
  hbaLineNums : List (Cell Nat)
  nextPool : PoolId
  deleted : List PoolId

/-- When the process starts. -/
def HbaState.init : HbaState := ⟨none, [], [], 0, []⟩

namespace HbaState

variable (st : HbaState)

/-- Read a cell, or give it back by `pfree`. -/
def use {α : Type} (cell : Cell α) : Option α :=
  if cell.pool ∈ st.deleted then none else some cell.value

/-- `palloc` of a cell. -/
def newCell {α : Type} (pool : PoolId) (value : α) : Option (Cell α) :=
  if pool ∈ st.deleted then none else some ⟨pool, value⟩

/-- `pfree` of a cell, which has to be from the pool that is switched to. -/
def pfree {α : Type} (pool : PoolId) (cell : Cell α) : Option α :=
  if cell.pool = pool then st.use cell else none

/-- `free_lines`, of the tokens as well. -/
def freeLines (pool : PoolId) : Option HbaState := do
  let lines ← st.hbaLines.mapM (st.pfree pool)
  let _ ← lines.mapM fun line => line.mapM (st.pfree pool)
  let _ ← st.hbaLineNums.mapM (st.pfree pool)
  some { st with hbaLines := [], hbaLineNums := [] }

/-- The cells of a line. -/
def newLine (pool : PoolId) (line : HbaLine) : Option (Cell (List (Cell Bytes))) := do
  let tokens ← line.tokens.mapM (st.newCell pool)
  st.newCell pool tokens

/-- `tokenize_file`, with the cells in a pool. -/
def tokenizeIn (incFile : Bytes → Bytes) (pool : PoolId) (file : Bytes) : Option HbaState := do
  let lines ← (tokenizeFile incFile file).mapM (st.newLine pool)
  let nums ← (tokenizeFile incFile file).mapM fun line => st.newCell pool line.lineNum
  some { st with hbaLines := lines, hbaLineNums := nums }

/-- The pool that `load_hba` switches to. -/
def createContext : PoolId × HbaState :=
  match st.hbaMemoryContext with
  | some pool => (pool, st)
  | none => (st.nextPool, { st with hbaMemoryContext := some st.nextPool, nextPool := st.nextPool + 1 })

/-- `pool_memory_delete`. -/
def deletePool (pool : PoolId) : Option HbaState :=
  if pool ∈ st.deleted then none else some { st with deleted := pool :: st.deleted }

/-- The lists of the last load are freed, if there are any. -/
def freeOld (pool : PoolId) : Option HbaState :=
  if st.hbaLines.isEmpty && st.hbaLineNums.isEmpty then some st else st.freeLines pool

/-- `load_hba`; `none`: the file cannot be opened. -/
def loadHba (incFile : Bytes → Bytes) (file : Option Bytes) : Option HbaState := do
  let (pool, st) := st.createContext
  let st ← st.freeOld pool
  match file with
  | none => st.deletePool pool
  | some file =>
    let st ← st.tokenizeIn incFile pool file
    -- hbaFileName
    let _ ← st.newCell pool ()
    some st

/-- The lines as `check_hba` reads them. -/
def readLines : Option (List HbaLine) := do
  let lines ← st.hbaLines.mapM st.use
  let lines ← lines.mapM fun line => line.mapM st.use
  let nums ← st.hbaLineNums.mapM st.use
  some (List.zipWith HbaLine.mk lines nums)

/-- `check_hba`. -/
def check (b : Build) (conn : Connection) : Option (Option UserAuth) :=
  st.readLines.map (checkHba b conn)

end HbaState

/-- A reload, or the authentication of a client. -/
inductive HbaStep where
  | load (file : Option Bytes)
  | authenticate (conn : Connection)

section

variable (b : Build) (incFile : Bytes → Bytes)

/-- The state after a step. -/
def HbaStep.next (st : HbaState) : HbaStep → Option HbaState
  | .load file => st.loadHba incFile file
  | .authenticate conn => (st.check b conn).map fun _ => st

/-- The state after some steps. -/
def hbaRun (steps : List HbaStep) : Option HbaState := steps.foldlM (HbaStep.next b incFile) .init

/-- The last load, and whether it could open its file. -/
def lastLoad (steps : List HbaStep) : Option (Option Bytes) :=
  steps.foldl (fun last step => match step with
    | .load file => some file
    | .authenticate _ => last) none

/-- No pool is used after it has been deleted; after a load every client is judged by the records of the
file, and rejected if the file could not be opened. -/
def Reloads (steps : List HbaStep) : Prop :=
  ∀ before after, steps = before ++ after → ∃ st, hbaRun b incFile before = some st ∧
    (∀ file, lastLoad before = some (some file) → ∀ conn,
      st.check b conn = some (checkHba b conn (tokenizeFile incFile file))) ∧
    (lastLoad before = some none → ∀ conn, st.check b conn = some (some .reject))

end

/-- Nothing is loaded after a load that has failed. -/
def FailsLast (steps : List HbaStep) : Prop :=
  ∀ before after, steps = before ++ .load none :: after → ∀ file, .load file ∉ after

/-! ## States -/

section

variable {b : Build} {incFile : Bytes → Bytes} {st : HbaState} {pool : PoolId}

/-- The lists hold some lines, in a pool. -/
structure Loaded (st : HbaState) (pool : PoolId) (lines : List HbaLine) : Prop where
  context : st.hbaMemoryContext = some pool
  live : pool ∉ st.deleted
  cells : st.hbaLines = lines.map fun line => ⟨pool, line.tokens.map (Cell.mk pool)⟩
  numCells : st.hbaLineNums = lines.map fun line => ⟨pool, line.lineNum⟩

/-- The pool has been deleted, but the pointer to it is still there. -/
structure Dangling (st : HbaState) (pool : PoolId) : Prop where
  context : st.hbaMemoryContext = some pool
  gone : pool ∈ st.deleted
  lines : st.hbaLines = []
  nums : st.hbaLineNums = []

theorem mapM_eq_map {α β : Type} {f : α → Option β} {g : α → β} {l : List α}
    (h : ∀ a ∈ l, f a = some (g a)) : l.mapM f = some (l.map g) := by
  induction l with
  | nil => rfl
  | cons a l ih =>
    obtain ⟨ha, hl⟩ := List.forall_mem_cons.mp h
    rw [List.mapM_cons, ha, ih hl]
    rfl

/-- What has been put into cells of a pool that is there is what is got out of them. -/
theorem mapM_cells {α β : Type} {f : Cell α → Option α} (hf : ∀ a, f ⟨pool, a⟩ = some a) (g : β → α)
    (l : List β) : (l.map fun a => Cell.mk pool (g a)).mapM f = some (l.map g) := by
  induction l with
  | nil => rfl
  | cons a l ih =>
    rw [List.map_cons, List.mapM_cons, hf, ih]
    rfl

theorem mapM_tokens {f : Cell Bytes → Option Bytes} (hf : ∀ a, f ⟨pool, a⟩ = some a)
    (lines : List HbaLine) :
    (lines.map fun line => line.tokens.map (Cell.mk pool)).mapM (fun cells => cells.mapM f) =
      some (lines.map HbaLine.tokens) := by
  induction lines with
  | nil => rfl
  | cons line lines ih =>
    have hline := mapM_cells hf id line.tokens
    rw [List.map_id] at hline
    rw [List.map_cons, List.mapM_cons]
    rw [show line.tokens.map (Cell.mk pool) = line.tokens.map fun a => Cell.mk pool (id a) from rfl, hline, ih]
    rfl

theorem zipWith_lines (lines : List HbaLine) :
    List.zipWith HbaLine.mk (lines.map HbaLine.tokens) (lines.map HbaLine.lineNum) = lines := by
  induction lines with
  | nil => rfl
  | cons line lines ih => rw [List.map_cons, List.map_cons, List.zipWith_cons_cons, ih]

/-- The lines that have been loaded are read. -/
theorem readLines_of_loaded {lines : List HbaLine} (h : Loaded st pool lines) :
    st.readLines = some lines := by
  have huse : ∀ {α : Type} (a : α), st.use ⟨pool, a⟩ = some a := fun a => if_neg h.live
  unfold HbaState.readLines
  rw [h.cells, mapM_cells huse]
  simp only [Option.bind_eq_bind, Option.bind_some]
  rw [mapM_tokens huse]
  simp only [Option.bind_some]
  rw [h.numCells, mapM_cells huse]
  simp only [Option.bind_some, zipWith_lines]

theorem check_of_loaded {lines : List HbaLine} (h : Loaded st pool lines) (conn : Connection) :
    st.check b conn = some (checkHba b conn lines) := by
  unfold HbaState.check
  rw [readLines_of_loaded h]
  rfl

theorem check_of_empty (hlines : st.hbaLines = []) (hnums : st.hbaLineNums = []) (conn : Connection) :
    st.check b conn = some (some .reject) := by
  unfold HbaState.check HbaState.readLines
  rw [hlines, hnums]
  rfl

variable (incFile) in
/-- A file is loaded into a pool that is there and has no lines. -/
theorem tokenizeIn_of_live (hcontext : st.hbaMemoryContext = some pool) (hlive : pool ∉ st.deleted)
    (file : Bytes) : ∃ st', st.tokenizeIn incFile pool file = some st' ∧
      Loaded st' pool (tokenizeFile incFile file) := by
  have hnew : ∀ {α : Type} (a : α), st.newCell pool a = some ⟨pool, a⟩ := fun a => if_neg hlive
  have hline : ∀ line : HbaLine,
      st.newLine pool line = some ⟨pool, line.tokens.map (Cell.mk pool)⟩ := by
    intro line
    unfold HbaState.newLine
    rw [mapM_eq_map fun a _ => hnew a]
    exact hnew _
  refine ⟨{ st with
      hbaLines := (tokenizeFile incFile file).map fun line => ⟨pool, line.tokens.map (Cell.mk pool)⟩
      hbaLineNums := (tokenizeFile incFile file).map fun line => ⟨pool, line.lineNum⟩ },
    ?_, hcontext, hlive, rfl, rfl⟩
  unfold HbaState.tokenizeIn
  rw [mapM_eq_map fun line _ => hline line]
  simp only [Option.bind_eq_bind, Option.bind_some]
  rw [mapM_eq_map fun line _ => hnew _]
  rfl

theorem freeLines_of_loaded {lines : List HbaLine} (h : Loaded st pool lines) :
    st.freeLines pool = some { st with hbaLines := [], hbaLineNums := [] } := by
  have hfree : ∀ {α : Type} (a : α), st.pfree pool ⟨pool, a⟩ = some a := by
    intro α a
    unfold HbaState.pfree
    rw [if_pos rfl]
    exact if_neg h.live
  unfold HbaState.freeLines
  rw [h.cells, mapM_cells hfree]
  simp only [Option.bind_eq_bind, Option.bind_some]
  rw [mapM_tokens hfree]
  simp only [Option.bind_some]
  rw [h.numCells, mapM_cells hfree]
  rfl

/-! ## Loading -/

/-- Nothing has been loaded, or some lines. -/
inductive Ready (st : HbaState) : Prop
  | fresh (context : st.hbaMemoryContext = none) (deleted : st.deleted = []) (cells : st.hbaLines = [])
      (numCells : st.hbaLineNums = [])
  | loaded (pool : PoolId) (lines : List HbaLine) (h : Loaded st pool lines)

/-- The pool for the new lists is there, and the lists are empty. -/
theorem createContext_of_ready (h : Ready st) : ∃ pool st', st.createContext = (pool, st') ∧
    ∃ st'', st'.freeOld pool = some st'' ∧ st''.hbaMemoryContext = some pool ∧ pool ∉ st''.deleted ∧
      st''.hbaLines = [] ∧ st''.hbaLineNums = [] := by
  cases h with
  | fresh context deleted cells numCells =>
    refine ⟨st.nextPool,
      { st with hbaMemoryContext := some st.nextPool, nextPool := st.nextPool + 1 }, ?_, _, if_pos ?_, rfl, ?_,
      cells, numCells⟩
    · unfold HbaState.createContext
      rw [context]
    · simp [cells, numCells]
    · change st.nextPool ∉ st.deleted
      rw [deleted]
      exact List.not_mem_nil
  | loaded pool lines h =>
    refine ⟨pool, st, by unfold HbaState.createContext; rw [h.context], ?_⟩
    unfold HbaState.freeOld
    by_cases hempty : (st.hbaLines.isEmpty && st.hbaLineNums.isEmpty) = true
    · rw [if_pos hempty]
      rw [Bool.and_eq_true_iff, List.isEmpty_iff, List.isEmpty_iff] at hempty
      exact ⟨st, rfl, h.context, h.live, hempty.1, hempty.2⟩
    · rw [if_neg hempty, freeLines_of_loaded h]
      exact ⟨_, rfl, h.context, h.live, rfl, rfl⟩

variable (incFile) in
theorem loadHba_of_ready (h : Ready st) (file : Bytes) :
    ∃ st' pool, st.loadHba incFile (some file) = some st' ∧
      Loaded st' pool (tokenizeFile incFile file) := by
  obtain ⟨pool, st', hcreate, st'', hfree, hcontext, hlive, -, -⟩ := createContext_of_ready h
  obtain ⟨st₃, htokens, hloaded⟩ := tokenizeIn_of_live incFile hcontext hlive file
  refine ⟨st₃, pool, ?_, hloaded⟩
  have hname : st₃.newCell pool () = some ⟨pool, ()⟩ := if_neg hloaded.live
  unfold HbaState.loadHba
  rw [hcreate]
  simp only [Option.bind_eq_bind, hfree, Option.bind_some, htokens, hname]

variable (incFile) in
theorem loadHba_none_of_ready (h : Ready st) :
    ∃ st' pool, st.loadHba incFile none = some st' ∧ Dangling st' pool := by
  obtain ⟨pool, st', hcreate, st'', hfree, hcontext, hlive, hlines, hnums⟩ := createContext_of_ready h
  refine ⟨{ st'' with deleted := pool :: st''.deleted }, pool, ?_, hcontext, List.mem_cons_self, hlines, hnums⟩
  have hdelete : st''.deletePool pool = some { st'' with deleted := pool :: st''.deleted } := if_neg hlive
  unfold HbaState.loadHba
  rw [hcreate]
  simp only [Option.bind_eq_bind, hfree, Option.bind_some, hdelete]

/-- Where the pool has been deleted, a load uses it again. -/
theorem loadHba_of_dangling (h : Dangling st pool) (file : Option Bytes) :
    st.loadHba incFile file = none := by
  have hcreate : st.createContext = (pool, st) := by
    unfold HbaState.createContext
    rw [h.context]
  have hfree : st.freeOld pool = some st := if_pos (by simp [h.lines, h.nums])
  have hdelete : st.deletePool pool = none := if_pos h.gone
  unfold HbaState.loadHba
  rw [hcreate]
  simp only [Option.bind_eq_bind, hfree, Option.bind_some]
  cases file with
  | none => exact hdelete
  | some file =>
    simp only
    cases htokens : st.tokenizeIn incFile pool file with
    | none => rfl
    | some st' =>
      -- the name of the file is put there even if there are no lines
      have hgone : pool ∈ st'.deleted := by
        unfold HbaState.tokenizeIn at htokens
        simp only [Option.bind_eq_bind, Option.bind_eq_some_iff] at htokens
        obtain ⟨_, -, _, -, heq⟩ := htokens
        obtain rfl := Option.some.inj heq
        exact h.gone
      have hname : st'.newCell pool () = none := if_pos hgone
      simp only [Option.bind_some, hname, Option.bind_none]

/-! ## Runs -/

/-- What the last load has left behind. -/
def Settled (incFile : Bytes → Bytes) (st : HbaState) : Option (Option Bytes) → Prop
  | none => Ready st
  | some (some file) => ∃ pool, Loaded st pool (tokenizeFile incFile file)
  | some none => ∃ pool, Dangling st pool

/-- Clients are judged by the lines that are there. -/
theorem check_of_settled {last : Option (Option Bytes)} (h : Settled incFile st last) (conn : Connection) :
    ∃ result, st.check b conn = some result ∧
      (∀ file, last = some (some file) → result = checkHba b conn (tokenizeFile incFile file)) ∧
      (last = some none → result = some .reject) := by
  match last, h with
  | none, .fresh _ _ cells numCells =>
    exact ⟨_, check_of_empty cells numCells conn, nofun, nofun⟩
  | none, .loaded pool lines h => exact ⟨_, check_of_loaded h conn, nofun, nofun⟩
  | some (some file), ⟨pool, h⟩ =>
    refine ⟨_, check_of_loaded h conn, fun file' heq => ?_, nofun⟩
    obtain rfl := Option.some.inj (Option.some.inj heq)
    rfl
  | some none, ⟨pool, h⟩ =>
    exact ⟨_, check_of_empty h.lines h.nums conn, nofun, fun _ => rfl⟩

theorem ready_of_settled {last : Option (Option Bytes)} (h : Settled incFile st last)
    (hne : last ≠ some none) : Ready st := by
  match last, h with
  | none, h => exact h
  | some (some file), ⟨pool, h⟩ => exact .loaded pool _ h
  | some none, _ => exact absurd rfl hne

theorem hbaRun_concat (steps : List HbaStep) (step : HbaStep) :
    hbaRun b incFile (steps ++ [step]) = (hbaRun b incFile steps).bind fun st => step.next b incFile st := by
  unfold hbaRun
  rw [List.foldlM_append]
  cases steps.foldlM (HbaStep.next b incFile) HbaState.init <;> simp

theorem lastLoad_concat (steps : List HbaStep) (step : HbaStep) :
    lastLoad (steps ++ [step]) = match step with
      | .load file => some file
      | .authenticate _ => lastLoad steps := by
  unfold lastLoad
  rw [List.foldl_append]
  cases step <;> rfl

/-- After a failed load the last one of a list of steps is not that one, or nothing has been loaded
since. -/
theorem lastLoad_eq_failed {steps : List HbaStep} (h : lastLoad steps = some none) :
    ∃ before after, steps = before ++ .load none :: after := by
  induction steps using List.reverseRecOn with
  | nil => cases h
  | append_singleton steps step ih =>
    rw [lastLoad_concat] at h
    cases step with
    | load file =>
      obtain rfl := Option.some.inj h
      exact ⟨steps, [], rfl⟩
    | authenticate conn =>
      obtain ⟨before, after, rfl⟩ := ih h
      exact ⟨before, after ++ [.authenticate conn], by simp⟩

theorem failsLast_of_append {before after : List HbaStep} (h : FailsLast (before ++ after)) :
    FailsLast before := by
  intro front back heq file hmem
  refine h front (back ++ after) ?_ file (List.mem_append_left _ hmem)
  rw [heq, List.append_assoc, List.cons_append]

variable (b incFile) in
/-- Where nothing is loaded after a failed load, the state is what the last load has left behind. -/
theorem settled_of_failsLast {steps : List HbaStep} (h : FailsLast steps) :
    ∃ st, hbaRun b incFile steps = some st ∧ Settled incFile st (lastLoad steps) := by
  induction steps using List.reverseRecOn with
  | nil => exact ⟨.init, rfl, .fresh rfl rfl rfl rfl⟩
  | append_singleton steps step ih =>
    obtain ⟨st, hrun, hsettled⟩ := ih (failsLast_of_append h)
    rw [hbaRun_concat, hrun, lastLoad_concat]
    cases step with
    | authenticate conn =>
      obtain ⟨result, hcheck, -⟩ := check_of_settled (b := b) hsettled conn
      refine ⟨st, ?_, hsettled⟩
      simp [HbaStep.next, hcheck]
    | load file =>
      have hready : Ready st := ready_of_settled hsettled fun hfailed => by
        obtain ⟨before, after, heq⟩ := lastLoad_eq_failed hfailed
        refine h before (after ++ [.load file]) ?_ file (by simp)
        rw [heq, List.append_assoc, List.cons_append]
      cases file with
      | some file =>
        obtain ⟨st', pool, hload, hloaded⟩ := loadHba_of_ready incFile hready file
        exact ⟨st', hload, pool, hloaded⟩
      | none =>
        obtain ⟨st', pool, hload, hdangling⟩ := loadHba_none_of_ready incFile hready
        exact ⟨st', hload, pool, hdangling⟩

variable (b incFile) in
/-- Where the last load has failed, another one goes wrong. -/
theorem hbaRun_load_of_failed {steps : List HbaStep} (h : FailsLast steps)
    (hfailed : lastLoad steps = some none) (file : Option Bytes) :
    hbaRun b incFile (steps ++ [.load file]) = none := by
  obtain ⟨st, hrun, hsettled⟩ := settled_of_failsLast b incFile h
  rw [hfailed] at hsettled
  obtain ⟨pool, hdangling⟩ := hsettled
  rw [hbaRun_concat, hrun]
  exact loadHba_of_dangling hdangling file

theorem lastLoad_of_authentications {before conns : List HbaStep} (h : ∀ file, .load file ∉ conns) :
    lastLoad (before ++ .load none :: conns) = some none := by
  induction conns using List.reverseRecOn with
  | nil => exact lastLoad_concat before (.load none)
  | append_singleton conns step ih =>
    rw [← List.cons_append, ← List.append_assoc, lastLoad_concat]
    cases step with
    | load file => exact absurd (by simp) (h file)
    | authenticate conn => exact ih fun file hmem => h file (List.mem_append_left _ hmem)

theorem reloads_of_failsLast {steps : List HbaStep} (h : FailsLast steps) : Reloads b incFile steps := by
  rintro before after rfl
  obtain ⟨st, hrun, hsettled⟩ :=
    settled_of_failsLast b incFile (failsLast_of_append h)
  refine ⟨st, hrun, fun file hlast conn => ?_, fun hlast conn => ?_⟩
  · obtain ⟨result, hcheck, hfile, -⟩ := check_of_settled (b := b) hsettled conn
    rw [hcheck, hfile file hlast]
  · obtain ⟨result, hcheck, -, hfailed⟩ := check_of_settled (b := b) hsettled conn
    rw [hcheck, hfailed hlast]

/-- The first load after a failed one would use the pool that has been deleted. -/
theorem failsLast_of_reloads {steps : List HbaStep} (h : Reloads b incFile steps) :
    ∀ front back, steps = front ++ back → FailsLast front := by
  intro front
  induction front using List.reverseRecOn with
  | nil =>
    rintro - - before after heq
    cases before <;> cases heq
  | append_singleton front step ih =>
    intro back hsteps before after heq file hmem
    have hfront : FailsLast front := ih (step :: back) (by rw [hsteps, List.append_assoc]; rfl)
    obtain rfl | ⟨after, last, rfl⟩ := List.eq_nil_or_concat after
    · cases hmem
    rw [List.concat_eq_append] at heq hmem
    rw [← List.cons_append, ← List.append_assoc] at heq
    obtain ⟨rfl, hlast⟩ := List.append_inj' heq rfl
    obtain rfl := List.head_eq_of_cons_eq hlast
    have hconns : ∀ file, .load file ∉ after := hfront before after rfl
    obtain hold | hnew := List.mem_append.mp hmem
    · exact hconns file hold
    · obtain rfl := List.mem_singleton.mp hnew
      have hnone := hbaRun_load_of_failed b incFile hfront
        (lastLoad_of_authentications hconns) file
      obtain ⟨st, hrun, -⟩ := h _ back hsteps
      rw [hnone] at hrun
      cases hrun

/-- The reloads work precisely if nothing is loaded after a load that has failed. -/
theorem hbaReload_iff (b : Build) (incFile : Bytes → Bytes) (steps : List HbaStep) :
    Reloads b incFile steps ↔ FailsLast steps :=
  ⟨fun h => failsLast_of_reloads h steps [] (List.append_nil _).symm, reloads_of_failsLast⟩

end

/-- The file is not there when it is read again, and is there the next time. -/
def reloadAfterFailure : List HbaStep :=
  [.load (some (str "local all all trust\n")), .load none, .load (some (str "local all all trust\n"))]

theorem not_hbaReload_afterFailure :
    ¬ ∀ (b : Build) (incFile : Bytes → Bytes) (steps : List HbaStep), Reloads b incFile steps := by
  intro h
  have hlast : FailsLast reloadAfterFailure :=
    failsLast_of_reloads (h ⟨false, false, fun _ => none⟩ id reloadAfterFailure) _ [] (List.append_nil _).symm
  exact hlast [.load (some (str "local all all trust\n"))] _ rfl _ List.mem_cons_self

end PgPool.Hba
