import PgPool.Parallel.Where

/-!
# The restricted tables give the same result

When the condition that is pushed down is a condition, and restricting the tables to it changes nothing.
-/

namespace PgPool.Where

open OuterJoin

variable {W : Type}

/-- The parts of a condition that `AND` and `OR` join. -/
def Node.parts : Node W → List (Node W)
  | .aExpr kind name l r =>
    match kind with
    | .and | .or => l.parts ++ r.parts
    | kind => [.aExpr kind name l r]
  | e => [e]

/-- The part is a condition with one of a list of values. -/
def Node.isList : Node W → Bool
  | .aExpr kind _ _ _ => kind ∈ [AExprKind.opAny, .opAll]
  | _ => false

/-- The part is one operator between expressions of the table. -/
def Node.isLocal (virtual : List (String × String)) (scope : Scope) : Node W → Bool
  | .aExpr .op [_] l r => l.keepsCode virtual scope && r.keepsCode virtual scope
  | _ => false

section Condition

variable [Sql W]

/-- The condition with `TRUE` for the parts that are not of the table. -/
def Node.kept (virtual : List (String × String)) (scope : Scope) : Node W → Node W
  | .aExpr kind name l r =>
    match kind with
    | .and => .aExpr .and name (l.kept virtual scope) (r.kept virtual scope)
    | .or => .aExpr .or name (l.kept virtual scope) (r.kept virtual scope)
    | kind => if (Node.aExpr kind name l r).isLocal virtual scope then .aExpr kind name l r else trueNode
  | _ => trueNode

/-- What holds of every query the server accepts: the tables have different names, a qualified name is a column
of that table, and the columns are those of the tables. -/
structure Accepted (q : SelectStmt W) : Prop where
  nodup : q.fromClause.tables.Nodup
  qualified : ∀ c ∈ q.whereClause.columns, ∀ t x, c.fields = [t, x] → c.table = t
  virtual : ∀ v ∈ q.virtual, v.1 ∈ q.fromClause.tables

/-- When the condition can be pushed down. -/
structure Pushable (q : SelectStmt W) : Prop where
  /-- no part is a condition with `ANY` or `ALL` -/
  lists : ∀ e ∈ q.whereClause.parts, e.isList = false
  /-- a part of a table is legible as it is printed -/
  legible : ∀ scope ∈ q.scopes, ∀ e ∈ q.whereClause.parts, e.isLocal q.virtual scope = true → e.legible = true
  /-- a column name that stands alone and is found is the column of the table -/
  names : ∀ scope ∈ q.scopes, ∀ c ∈ q.whereClause.columns, ∀ x, c.fields = [x] →
    checkVirtualColumn q.virtual scope c = true → q.InScope scope c.table
  /-- the condition of a table that can be without a match is not true where all columns are `NULL`, or it is
  true of every tuple -/
  nulls : q.system = true → ∀ n ∈ q.ranges, q.fromClause.nullable n = true →
    (q.whereClause.kept q.virtual (.table n)).holds (fun _ => none) = false ∨
      ∀ t, (q.whereClause.kept q.virtual (.table n)).holds (single n t) = true

/-! ## What is printed -/

theorem kept_op (virtual : List (String × String)) (scope : Scope) (name : List String) (l r : Node W) :
    (Node.aExpr .op name l r).kept virtual scope =
      if (Node.aExpr .op name l r).isLocal virtual scope then .aExpr .op name l r else trueNode := rfl

omit [Sql W] in
theorem parts_and (name : List String) (l r : Node W) :
    (Node.aExpr .and name l r).parts = l.parts ++ r.parts := rfl

omit [Sql W] in
theorem parts_or (name : List String) (l r : Node W) :
    (Node.aExpr .or name l r).parts = l.parts ++ r.parts := rfl

/-- The condition is read as the one with `TRUE` for the other parts. -/
theorem reads_kept (virtual : List (String × String)) (scope : Scope) {w : Node W}
    (hlists : ∀ e ∈ w.parts, e.isList = false)
    (hlegible : ∀ e ∈ w.parts, e.isLocal virtual scope = true → e.legible = true) :
    Reads (checkWhereCaluse virtual scope w) (w.kept virtual scope) := by
  induction w with
  | null | leaf | columnRef | foreign | form => exact Reads.true
  | aExpr kind name l r ihl ihr =>
    cases kind with
    | and =>
      rw [parts_and, List.forall_mem_append] at hlists hlegible
      exact .and (ihl hlists.1 hlegible.1) (ihr hlists.2 hlegible.2)
    | or =>
      rw [parts_or, List.forall_mem_append] at hlists hlegible
      exact .or (ihl hlists.1 hlegible.1) (ihr hlists.2 hlegible.2)
    | opAny | opAll => exact absurd (hlists _ (List.mem_singleton.mpr rfl)) (by simp [Node.isList])
    | not | distinct | nullif | ofTypes | inList => exact Reads.true
    | op =>
      match name with
      | [] => exact Reads.true
      | _ :: _ :: _ => exact Reads.true
      | [op] =>
        rw [checkWhereCaluse, kept_op]
        by_cases hlocal : (Node.aExpr .op [op] l r).isLocal virtual scope = true
        · rw [if_pos hlocal]
          rw [Node.isLocal] at hlocal
          rw [if_pos hlocal]
          exact .op (hlegible _ (List.mem_singleton.mpr rfl) hlocal)
        · rw [if_neg hlocal]
          rw [Node.isLocal] at hlocal
          rw [if_neg hlocal]
          exact .true

omit [Sql W] in
/-- An expression that passes the dry run, and prints all its nodes, has columns of the table only. -/
theorem over_of_keepsCode {virtual : List (String × String)} {scope : Scope} {tables : String → Prop}
    {e : Node W} (hcode : e.keepsCode virtual scope = true) (hlegible : e.legible = true)
    (hcolumns : ∀ c ∈ e.columns, checkVirtualColumn virtual scope c = true → tables c.table) :
    e.Over tables := by
  induction e with
  | null | leaf => trivial
  | columnRef c => exact hcolumns c (List.mem_singleton.mpr rfl) hcode
  | foreign => cases hcode
  | form kind before between after value l r ihl ihr =>
    obtain ⟨hl, hr⟩ := Bool.and_eq_true_iff.mp hcode
    obtain ⟨⟨hl', hr'⟩, -⟩ := (Bool.and_eq_true_iff.mp hlegible).imp_left Bool.and_eq_true_iff.mp
    exact ⟨ihl hl hl' fun c hc => hcolumns c (List.mem_append_left _ hc),
      ihr hr hr' fun c hc => hcolumns c (List.mem_append_right _ hc)⟩
  | aExpr kind name l r ihl ihr =>
    obtain ⟨⟨hl', hr'⟩, hkind⟩ := (Bool.and_eq_true_iff.mp hlegible).imp_left Bool.and_eq_true_iff.mp
    have hboth : kind ≠ .not → l.keepsCode virtual scope = true ∧ r.keepsCode virtual scope = true →
        (Node.aExpr kind name l r).Over tables := by
      intro hne hcodes
      have hcolumns' : ∀ c ∈ l.columns ++ r.columns, checkVirtualColumn virtual scope c = true →
          tables c.table := by
        cases kind <;> first | exact hcolumns | exact absurd rfl hne
      have hover := And.intro (ihl hcodes.1 hl' fun c hc => hcolumns' c (List.mem_append_left _ hc))
        (ihr hcodes.2 hr' fun c hc => hcolumns' c (List.mem_append_right _ hc))
      cases kind <;> first | exact hover | exact absurd rfl hne
    cases kind with
    | not => exact ihr hcode hr' hcolumns
    | op =>
      match name, hkind with
      | [op], _ => exact hboth (by decide) (Bool.and_eq_true_iff.mp (by simpa [Node.keepsCode] using hcode))
    | _ => exact hboth (by decide) (Bool.and_eq_true_iff.mp hcode)

theorem over_trueNode (tables : String → Prop) : (trueNode : Node W).Over tables := trivial

theorem over_kept {virtual : List (String × String)} {scope : Scope} {tables : String → Prop} {w : Node W}
    (hlegible : ∀ e ∈ w.parts, e.isLocal virtual scope = true → e.legible = true)
    (hcolumns : ∀ c ∈ w.columns, checkVirtualColumn virtual scope c = true → tables c.table) :
    (w.kept virtual scope).Over tables := by
  induction w with
  | null | leaf | columnRef | foreign | form => exact over_trueNode tables
  | aExpr kind name l r ihl ihr =>
    cases kind with
    | and =>
      rw [parts_and, List.forall_mem_append] at hlegible
      obtain ⟨hl, hr⟩ := List.forall_mem_append.mp hcolumns
      exact ⟨ihl hlegible.1 hl, ihr hlegible.2 hr⟩
    | or =>
      rw [parts_or, List.forall_mem_append] at hlegible
      obtain ⟨hl, hr⟩ := List.forall_mem_append.mp hcolumns
      exact ⟨ihl hlegible.1 hl, ihr hlegible.2 hr⟩
    | not | opAny | opAll | distinct | nullif | ofTypes | inList => exact over_trueNode tables
    | op =>
      match name with
      | [] => exact over_trueNode tables
      | _ :: _ :: _ => exact over_trueNode tables
      | [op] =>
        rw [kept_op]
        split
        · rename_i hlocal
          have hcode : (Node.aExpr .op [op] l r).keepsCode virtual scope = true := by
            simpa [Node.keepsCode, Node.isLocal] using hlocal
          exact over_of_keepsCode hcode (hlegible _ (List.mem_singleton.mpr rfl) hlocal) hcolumns
        · exact over_trueNode tables

/-! ## What it means -/

@[simp] theorem holds_trueNode (row : Row String (Tuple W)) : (trueNode : Node W).holds row = true := by
  simp [trueNode, Node.holds, Node.eval, Sql.truth_ofTruth]

theorem and3_eq_true {a b : Option Bool} : and3 a b = some true ↔ a = some true ∧ b = some true := by
  rcases a with _ | _ | _ <;> rcases b with _ | _ | _ <;> simp [and3]

theorem or3_eq_true {a b : Option Bool} : or3 a b = some true ↔ a = some true ∨ b = some true := by
  rcases a with _ | _ | _ <;> rcases b with _ | _ | _ <;> simp [or3]

theorem holds_and {name : List String} {l r : Node W} {row : Row String (Tuple W)} :
    (Node.aExpr .and name l r).holds row = true ↔ l.holds row = true ∧ r.holds row = true := by
  simp [Node.holds, Node.eval, Sql.truth_ofTruth, and3_eq_true]

theorem holds_or {name : List String} {l r : Node W} {row : Row String (Tuple W)} :
    (Node.aExpr .or name l r).holds row = true ↔ l.holds row = true ∨ r.holds row = true := by
  simp [Node.holds, Node.eval, Sql.truth_ofTruth, or3_eq_true]

/-- The condition that is pushed down asks no more. -/
theorem holds_kept (virtual : List (String × String)) (scope : Scope) {w : Node W} {row : Row String (Tuple W)}
    (h : w.holds row = true) : (w.kept virtual scope).holds row = true := by
  induction w with
  | null | leaf | columnRef | foreign | form => exact holds_trueNode row
  | aExpr kind name l r ihl ihr =>
    have hother : (if (Node.aExpr kind name l r).isLocal virtual scope then Node.aExpr kind name l r
        else trueNode).holds row = true := by
      split
      · exact h
      · exact holds_trueNode row
    cases kind with
    | and => exact holds_and.mpr ((holds_and.mp h).imp ihl ihr)
    | or => exact holds_or.mpr ((holds_or.mp h).imp ihl ihr)
    | _ => exact hother

/-- A condition over some tables depends on the tuples of these. -/
theorem eval_over {tables : String → Prop} {e : Node W} (h : e.Over tables) {row row' : Row String (Tuple W)}
    (hrow : ∀ n, tables n → row n = row' n) : e.eval row = e.eval row' := by
  induction e with
  | null | leaf => rfl
  | columnRef c => rw [Node.eval, Node.eval, ColumnRef.value, ColumnRef.value, hrow c.table h]
  | foreign => exact h.elim
  | form kind before between after value l r ihl ihr => simp only [Node.eval, ihl h.1, ihr h.2]
  | aExpr kind name l r ihl ihr =>
    cases kind with
    | not => simp only [Node.eval, ihr h]
    | _ => simp only [Node.eval, ihl h.1, ihr h.2]

theorem holds_over {tables : String → Prop} {e : Node W} (h : e.Over tables) {row row' : Row String (Tuple W)}
    (hrow : ∀ n, tables n → row n = row' n) : e.holds row = e.holds row' := by
  rw [Node.holds, Node.holds, eval_over h hrow]

/-! ## The query -/

variable {q : SelectStmt W}

/-- The condition for a scope. -/
def SelectStmt.cond (q : SelectStmt W) (scope : Scope) : Node W := q.whereClause.kept q.virtual scope

theorem over_cond (ha : Accepted q) (hp : Pushable q) {scope : Scope} (hscope : scope ∈ q.scopes) :
    (q.cond scope).Over (q.InScope scope) := by
  refine over_kept (hp.legible scope hscope) fun c hc hcheck => ?_
  match hfields : c.fields with
  | [x] => exact hp.names scope hscope c hc x hfields hcheck
  | [t, x] =>
    have htable := ha.qualified c hc t x hfields
    rw [htable]
    cases scope with
    | table relname =>
      simp only [checkVirtualColumn, hfields, Bool.and_eq_true] at hcheck
      simpa [SelectStmt.InScope] using hcheck.1
    | fromClause =>
      simp only [checkVirtualColumn, hfields] at hcheck
      exact ha.virtual (t, x) (List.contains_iff_mem.mp hcheck)
  | [] => cases scope <;> simp [checkVirtualColumn, hfields] at hcheck
  | _ :: _ :: _ :: _ => cases scope <;> simp [checkVirtualColumn, hfields] at hcheck

/-- A table that is restricted. -/
theorem filter_restrict_cond (ha : Accepted q) (hp : Pushable q) (hs : q.system = true) {n : String}
    (hn : n ∈ q.ranges) (db : String → List (Tuple W)) :
    (q.fromClause.rows (restrict db n fun t => (q.cond (.table n)).holds (single n t))).filter
      q.whereClause.holds = (q.fromClause.rows db).filter q.whereClause.holds := by
  have hscope : Scope.table n ∈ q.scopes := by
    rw [SelectStmt.scopes, if_pos hs]
    exact List.mem_map_of_mem hn
  have hover := over_cond ha hp hscope
  -- the condition on the tuple alone, which may be missing
  let keep : Option (Tuple W) → Bool := fun o => (q.cond (.table n)).holds fun m => if m = n then o else none
  have hkeep : ∀ a, q.whereClause.holds a = true → onTable n keep a = true := by
    intro a h
    have htuple : keep (a n) = (q.cond (.table n)).holds a :=
      holds_over hover fun m hm => by
        rw [show m = n from hm, if_pos rfl]
    rw [onTable, htuple]
    exact holds_kept _ _ h
  have hmissing : keep none = (q.cond (.table n)).holds fun _ => none := by
    show (q.cond (.table n)).holds _ = _
    simp only [ite_self]
  by_cases hall : ∀ t, (q.cond (.table n)).holds (single n t) = true
  · have hself : restrict db n (fun t => (q.cond (.table n)).holds (single n t)) = db := by
      rw [restrict, List.filter_eq_self.mpr fun t _ => hall t, Function.update_eq_self]
    rw [hself]
  · have hnull : q.fromClause.nullable n = true → keep none = false := fun h => by
      rw [hmissing]
      exact (hp.nulls hs n hn h).resolve_right hall
    exact filter_where_restrict db ha.nodup hnull hkeep

/-- All tables that are restricted. -/
theorem filter_restrict_all (ha : Accepted q) (hp : Pushable q) (hs : q.system = true) {ns : List String}
    (hns : ∀ n ∈ ns, n ∈ q.ranges) (db : String → List (Tuple W)) :
    (q.fromClause.rows
      (ns.foldl (fun db n => restrict db n fun t => (q.cond (.table n)).holds (single n t)) db)).filter
        q.whereClause.holds = (q.fromClause.rows db).filter q.whereClause.holds := by
  induction ns generalizing db with
  | nil => rfl
  | cons n ns ih =>
    rw [List.foldl_cons, ih fun m hm => hns m (List.mem_cons_of_mem n hm)]
    exact filter_restrict_cond ha hp hs (hns n List.mem_cons_self) db

/-- There is no condition in an empty text. -/
theorem not_reads_empty (e : Node W) : ¬ Reads "" e := by
  suffices h : ∀ s, Reads s e → s.length ≠ 0 from fun hr => h _ hr rfl
  intro s hr
  cases hr with
  | true => decide
  | op hlegible =>
    obtain ⟨⟨⟨hop, -⟩, -⟩, -⟩ : ((_ ∧ _) ∧ _) ∧ _ := by
      simpa only [Node.legible, Bool.and_eq_true] using (Bool.and_eq_true_iff.mp hlegible).2
    rw [String.length_append, String.length_append]
    have hlength := String.length_eq_zero_iff.not.mpr (of_decide_eq_true hop)
    omega
  | and | or =>
    simp only [String.length_append]
    have hbracket : " (".length = 2 := rfl
    omega

end Condition

/-! ## Two queries -/

instance : Sql (Option Int) where
  null := none
  truth v := v.map (· ≠ 0)
  ofTruth b := b.map fun b => if b then 1 else 0
  truth_ofTruth b := by rcases b with _ | _ | _ <;> rfl
  apply _ name x y :=
    match name, x, y with
    | ["="], some x, some y => some (if x = y then 1 else 0)
    | [">"], some x, some y => some (if x > y then 1 else 0)
    | _, _, _ => none

def columnOf (t x : String) : Node (Option Int) := .columnRef ⟨[t, x], t, x⟩

def constant (n : Int) : Node (Option Int) := .leaf (toString n) (some n)

/-- `SELECT ... FROM a LEFT JOIN b ON ... WHERE b.y = 1 AND a.x > 0`. -/
def leftJoined (on : Row String (Tuple (Option Int)) → Bool) : SelectStmt (Option Int) where
  system := true
  fromClause := .join .left on (.table "a") (.table "b")
  ranges := ["a", "b"]
  whereClause := .aExpr .and [] (.aExpr .op ["="] (columnOf "b" "y") (constant 1))
    (.aExpr .op [">"] (columnOf "a" "x") (constant 0))
  virtual := [("a", "x"), ("b", "y")]

theorem accepted_leftJoined (on : Row String (Tuple (Option Int)) → Bool) : Accepted (leftJoined on) where
  nodup := by
    show ["a", "b"].Nodup
    decide
  qualified := by
    intro c hc t x hfields
    rcases List.mem_cons.mp hc with rfl | hc
    · cases hfields
      rfl
    · cases List.mem_singleton.mp hc
      cases hfields
      rfl
  virtual := by
    show ∀ v ∈ [("a", "x"), ("b", "y")], v.1 ∈ ["a", "b"]
    decide

/-- `SELECT ... FROM t CROSS JOIN u WHERE t.x = ANY (ARRAY [1])`. -/
def anyOf : SelectStmt (Option Int) where
  system := true
  fromClause := .join .inner (fun _ => true) (.table "t") (.table "u")
  ranges := ["t", "u"]
  whereClause := .aExpr .opAny ["="] (columnOf "t" "x")
    (.form .bracketed "ARRAY [" "" "]" (fun x _ => x) (constant 1) .null)
  virtual := [("t", "x"), ("u", "y")]

theorem accepted_anyOf : Accepted anyOf where
  nodup := by
    show ["t", "u"].Nodup
    decide
  qualified := by
    intro c hc t x hfields
    cases List.mem_singleton.mp hc
    cases hfields
    rfl
  virtual := by
    show ∀ v ∈ [("t", "x"), ("u", "y")], v.1 ∈ ["t", "u"]
    decide

end PgPool.Where
