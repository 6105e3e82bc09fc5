import Mathlib.Data.List.Nodup
import PgPool.Parallel.Insert

/-!
# Where an inserted row goes

What the server stores in the key is a function of the expressions that are assigned to it, of which
`getInsertRule` sees the constant under the casts.  The statement is placed right just when it is not
`DEFAULT VALUES`, and the constant stands for what is stored.
-/

namespace PgPool.Parallel

/-! ## The server -/

/-- The server, for the tables of the rules; `α` are the values of the keys.
* `read`: the value of a text, in the type that the rule gives to the key.
* `distDefFunc`: the function of the rule.
* `assigned`: what a row has in the key if the expressions, each with its indirection, are assigned to it;
  by none the key gets its default.
* `inserts`: whether a row of `VALUES` is stored, which a limit or an error can prevent.
* `selected`: the keys of the rows of a query.
* `rawParser`: the tree of a text. -/
structure Postgres (ε α : Type) where
  read : DistDefInfo → List Char → Option α
  distDefFunc : DistDefInfo → α → Option Int
  assigned : DistDefInfo → List (List ε × Expr ε) → Option α
  inserts : InsertStmt ε → List (Expr ε) → Bool
  selected : DistDefInfo → InsertStmt ε → List α
  rawParser : List Char → Option (InsertStmt ε)

variable {ε α : Type}

/-- The columns that the values of a row are assigned to: those of the table if there is no list. -/
def targets (r : DistDefInfo) (cols : List (ResTarget ε)) : List (ResTarget ε) :=
  if cols = [] then r.colList.map (⟨·, []⟩) else cols

/-- What a row assigns to the key. -/
def keyAssignments (r : DistDefInfo) (cols : List (ResTarget ε)) (row : List (Expr ε)) :
    List (List ε × Expr ε) :=
  (((targets r cols).zip row).filter (·.1.name = r.distKeyColName)).map fun p => (p.1.indirection, p.2)

/-- The keys of the rows that a statement inserts. -/
def storedKeys (pg : Postgres ε α) (r : DistDefInfo) (insert : InsertStmt ε) : List α :=
  match insert.selectStmt with
  | none => (pg.assigned r []).toList
  | some select =>
    if select.valuesLists = [] then pg.selected r insert
    else
      (select.valuesLists.filter (pg.inserts insert)).filterMap fun row =>
        pg.assigned r (keyAssignments r insert.cols row)

/-- The rules, and how the system database calls their functions. -/
structure Rules (db : SystemDb) (pg : Postgres ε α) : Prop where
  unique : db.Unique
  key : db.KeyNamed
  exec : ∀ r ∈ db.rules, ∀ text, db.execPrepared r text = (pg.read r text).bind (pg.distDefFunc r)
  node : ∀ r ∈ db.rules, ∀ v, ∃ n : Nat, n < db.numBackends ∧ pg.distDefFunc r v = some (n : Int)

/-- The statement inserts into the table of the rule. -/
structure InsertStmt.Into (insert : InsertStmt ε) (r : DistDefInfo) : Prop where
  schema : insert.schemaname.getD "public" = r.schemaName
  table : insert.relname = r.tableName

/-- The statement has been rejected, by which an open transaction is aborted; or it has gone, as it is, to
one node, which can be used, and which the function of the rule assigns to every key that is stored. -/
def Inserted (db : SystemDb) (pg : Postgres ε α) (r : DistDefInfo) (tstate : Char)
    (insert : InsertStmt ε) : InsertEnd → Prop
  | .sent node query => ∃ n : Nat, node = n ∧ n < db.numBackends ∧ db.validBackend n = true ∧
      pg.rawParser query = some insert ∧ ∀ v ∈ storedKeys pg r insert, pg.distDefFunc r v = some (n : Int)
  | .rejected _ aborted => tstate = 'T' → aborted = true
  | .continued => False
  | .crashed => False

/-! ## The condition -/

/-- The text of a constant under casts. -/
def Expr.constText (e : Expr ε) : Option (List Char) :=
  match e.stripCasts with
  | .aConst value => value.text
  | _ => none

/-- A constant under casts. -/
def Expr.isConst (e : Expr ε) : Bool :=
  match e.stripCasts with
  | .aConst _ => true
  | _ => false

/-- The place of the key among the values of a row. -/
def keyIdx (r : DistDefInfo) (cols : List (ResTarget ε)) : Nat :=
  (targets r cols).findIdx (·.name = r.distKeyColName)

/-- The text of the first expression that is assigned to the key, if it is a constant behind constants. -/
def keyText (r : DistDefInfo) (cols : List (ResTarget ε)) (row : List (Expr ε)) : Option (List Char) :=
  if (row.take (keyIdx r cols)).all Expr.isConst then
    (keyAssignments r cols row).head?.bind fun p => p.2.constText
  else none

/-- The statement is not `DEFAULT VALUES`; and if it is a row with a text for the key that the function has
a node for, then that node can be used, the text of the tree reads as the tree, and the function has the
same node for what the casts, the type of the column and other assignments to the key make of it. -/
structure Kept (db : SystemDb) (pg : Postgres ε α) (nodeToString : InsertStmt ε → List Char)
    (r : DistDefInfo) (insert : InsertStmt ε) : Prop where
  notDefault : insert.selectStmt ≠ none
  row : ∀ select row text v, ∀ n : Nat, insert.selectStmt = some select → select.targetList = [] →
    select.valuesLists = [row] → keyText r insert.cols row = some text → pg.read r text = some v →
    pg.distDefFunc r v = some (n : Int) →
      db.validBackend n = true ∧ pg.rawParser (nodeToString insert) = some insert ∧
        (pg.inserts insert row = true → ∀ v', pg.assigned r (keyAssignments r insert.cols row) = some v' →
          pg.distDefFunc r v' = pg.distDefFunc r v)

/-! ## The place of the key -/

section

variable {db : SystemDb} {pg : Postgres ε α} {r : DistDefInfo} {cols : List (ResTarget ε)}
  {row : List (Expr ε)} {insert : InsertStmt ε}

/-- The text at a place behind constants. -/
def textAt (place : Nat) (row : List (Expr ε)) : Option (List Char) :=
  if (row.take place).all Expr.isConst then row[place]?.bind Expr.constText else none

theorem textAt_of_not_const {e : Expr ε} (he : e.isConst = false) (place : Nat) :
    textAt place (e :: row) = none := by
  unfold textAt
  cases place with
  | zero =>
    have hnone : e.constText = none := by
      unfold Expr.constText
      unfold Expr.isConst at he
      split
      · rename_i h
        rw [h] at he
        cases he
      · rfl
    simp [hnone]
  | succ place => simp [he]

theorem lt_length_of_textAt {place : Nat} {text : List Char} (h : textAt place row = some text) :
    place < row.length := by
  unfold textAt at h
  split at h
  · obtain ⟨e, he, _⟩ := Option.bind_eq_some_iff.mp h
    exact (List.getElem?_eq_some_iff.mp he).1
  · cases h

/-- The loop of `getInsertRule`. -/
theorem insertRuleLoop_eq (place k : Nat) :
    insertRuleLoop db r (place + k) row k =
      match textAt place row with
      | some text => db.poolGetId r text
      | none => -1 := by
  induction row generalizing place k with
  | nil => simp [insertRuleLoop, textAt]
  | cons e row ih =>
    unfold insertRuleLoop
    split
    · rename_i value he
      cases place with
      | zero =>
        simp only [Nat.zero_add, if_true]
        have htext : textAt 0 (e :: row) = value.text := by simp [textAt, Expr.constText, he]
        cases hvalue : value.text <;> simp only [htext, hvalue]
      | succ place =>
        have htext : textAt (place + 1) (e :: row) = textAt place row := by
          simp [textAt, Expr.isConst, he]
        have hne : k ≠ place + 1 + k := by omega
        simp only [if_neg hne]
        rw [htext, ← ih place (k + 1), show place + 1 + k = place + (k + 1) by omega]
    · rename_i hconst
      have he : e.isConst = false := by
        unfold Expr.isConst
        split
        · rename_i value h
          exact absurd h (hconst value)
        · rfl
      rw [textAt_of_not_const he]

/-- The place of a column in the table. -/
theorem findIdx_colList (hkey : r.colList.Nodup ∧ r.colList[r.distKeyColId]? = some r.distKeyColName) :
    r.colList.findIdx (· = r.distKeyColName) = r.distKeyColId := by
  obtain ⟨hlt, hget⟩ := List.getElem?_eq_some_iff.mp hkey.2
  refine (List.findIdx_eq hlt).mpr ⟨decide_eq_true hget, ?_⟩
  intro j hj
  rw [decide_eq_false_iff_not]
  intro hname
  have hidx := (List.Nodup.getElem_inj_iff hkey.1).mp (hname.trans hget.symm)
  omega

/-- The place at which `examInsertStmt` looks is that of the key, if there is one. -/
theorem divKey_eq (hkey : r.colList.Nodup ∧ r.colList[r.distKeyColId]? = some r.distKeyColName) :
    divKey r cols = (keyIdx r cols, (targets r cols).any (·.name = r.distKeyColName)) := by
  unfold divKey keyIdx targets
  by_cases hcols : cols = []
  · simp only [if_pos hcols]
    rw [List.findIdx_map, List.any_map]
    have hany : r.colList.any (· = r.distKeyColName) = true :=
      List.any_eq_true.mpr ⟨_, List.mem_of_getElem? hkey.2, decide_eq_true rfl⟩
    exact Prod.ext (findIdx_colList hkey).symm hany.symm
  · simp only [if_neg hcols]

/-- The first of the values that go to the columns with a property. -/
theorem head_filter_zip {β γ : Type} (p : β → Bool) (bs : List β) (cs : List γ) :
    (((bs.zip cs).filter (p ·.1)).head?.map (·.2)) =
      if bs.any p then cs[bs.findIdx p]? else none := by
  induction bs generalizing cs with
  | nil => rfl
  | cons b bs ih =>
    cases cs with
    | nil => simp
    | cons c cs =>
      cases hb : p b with
      | true => simp [hb, List.findIdx_cons]
      | false => simpa [hb, List.findIdx_cons] using ih cs

theorem keyText_eq : keyText r cols row =
    if (targets r cols).any (·.name = r.distKeyColName) then textAt (keyIdx r cols) row else none := by
  have hhead := head_filter_zip (fun t : ResTarget ε => decide (t.name = r.distKeyColName))
    (targets r cols) row
  have hfirst : (keyAssignments r cols row).head?.bind (fun p => p.2.constText) =
      (((targets r cols).zip row).filter (·.1.name = r.distKeyColName) |>.head?.map (·.2)).bind
        Expr.constText := by
    unfold keyAssignments
    rw [List.head?_map]
    cases (((targets r cols).zip row).filter (·.1.name = r.distKeyColName)).head? <;> rfl
  unfold keyText textAt
  rw [hfirst, hhead]
  by_cases hany : (targets r cols).any (·.name = r.distKeyColName) = true
  · rw [if_pos hany, if_pos hany]
    rfl
  · rw [if_neg hany, if_neg hany]
    exact ite_self _

/-! ## The statement -/

theorem getInsertRule_eq (place : Nat) :
    getInsertRule db r [row] place =
      match textAt place row with
      | some text => db.poolGetId r text
      | none => -1 :=
  insertRuleLoop_eq place 0

/-- The number of a node is found just for a row whose key can be read. -/
theorem examRows_ok (hkey : r.colList.Nodup ∧ r.colList[r.distKeyColId]? = some r.distKeyColName)
    {select : SelectStmt ε} {id : Int} :
    examRows db r cols select = .ok id ↔ ∃ row text, select.valuesLists = [row] ∧
      keyText r cols row = some text ∧ db.poolGetId r text = id ∧ 0 ≤ id := by
  unfold examRows
  rw [divKey_eq hkey]
  cases hvalues : select.valuesLists with
  | nil => simp
  | cons row rest =>
    cases rest with
    | cons row' rest => simp
    | nil =>
      simp only [List.cons_ne_nil, if_false, getInsertRule_eq]
      constructor
      · intro h
        refine ⟨row, ?_⟩
        rw [keyText_eq]
        split at h
        · cases h
        · split at h
          · cases h
          · rename_i hany
            rw [Bool.not_eq_false] at hany
            rw [if_pos hany]
            cases htext : textAt (keyIdx r cols) row with
            | none =>
              simp [htext] at h
            | some text =>
              simp only [htext] at h
              split at h
              · cases h
              · rename_i hid
                exact ⟨text, rfl, rfl, Exam.ok.inj h, by rw [← Exam.ok.inj h]; omega⟩
      · intro ⟨row', text, hrow, htext, hid, hpos⟩
        obtain rfl := (List.cons.inj hrow).1
        rw [keyText_eq] at htext
        split at htext
        · rename_i hany
          have hlen := lt_length_of_textAt htext
          rw [if_neg (by omega), if_neg (by rw [hany]; exact Bool.noConfusion)]
          simp only [htext, hid]
          exact if_neg (by omega)
        · cases htext

/-- Any other statement of the rows is rejected. -/
theorem examRows_cases (select : SelectStmt ε) :
    (∃ message, examRows db r cols select = .restriction message) ∨
      ∃ id, examRows db r cols select = .ok id := by
  unfold examRows
  split
  · exact .inl ⟨_, rfl⟩
  · split
    · split
      · exact .inl ⟨_, rfl⟩
      · split
        · exact .inl ⟨_, rfl⟩
        · split
          · exact .inl ⟨_, rfl⟩
          · exact .inr ⟨_, rfl⟩
    · exact .inl ⟨_, rfl⟩

/-- The keys that a row stores. -/
theorem mem_storedKeys {select : SelectStmt ε} (hselect : insert.selectStmt = some select)
    (hvalues : select.valuesLists = [row]) {v : α} :
    v ∈ storedKeys pg r insert ↔
      pg.inserts insert row = true ∧ pg.assigned r (keyAssignments r insert.cols row) = some v := by
  unfold storedKeys
  rw [hselect]
  simp [hvalues, List.mem_filterMap]

end

/-- The number that the system database has for a text. -/
theorem poolGetId_text {db : SystemDb} {pg : Postgres ε α} {r : DistDefInfo} (hrules : Rules db pg)
    (hr : r ∈ db.rules) {text : List Char} {v : α} {n : Nat} (hread : pg.read r text = some v)
    (hn : pg.distDefFunc r v = some (n : Int)) : db.poolGetId r text = n := by
  have hexec : db.execPrepared r text = some (n : Int) := by
    rw [hrules.exec r hr, hread, Option.bind_some, hn]
  obtain ⟨m, hm, hfunc⟩ := hrules.node r hr v
  rw [hn] at hfunc
  refine SystemDb.poolGetId_eq hexec ?_
  rw [Option.some.inj hfunc]
  exact Int.ofNat_lt.mpr hm

/-- A number that is not negative comes from a value of the text. -/
theorem poolGetId_nonneg {db : SystemDb} {pg : Postgres ε α} {r : DistDefInfo} (hrules : Rules db pg)
    (hr : r ∈ db.rules) {text : List Char} (hpos : 0 ≤ db.poolGetId r text) :
    ∃ v, ∃ n : Nat, pg.read r text = some v ∧ n < db.numBackends ∧
      pg.distDefFunc r v = some (n : Int) ∧ db.poolGetId r text = n := by
  cases hread : pg.read r text with
  | none =>
    have hexec : db.execPrepared r text = none := by
      rw [hrules.exec r hr, hread, Option.bind_none]
    rw [SystemDb.poolGetId_none hexec] at hpos
    exact absurd hpos (by decide)
  | some v =>
    obtain ⟨n, hn, hfunc⟩ := hrules.node r hr v
    exact ⟨v, n, rfl, hn, hfunc, poolGetId_text hrules hr hread hfunc⟩

section

variable {db : SystemDb} {pg : Postgres ε α} {nodeToString : InsertStmt ε → List Char}
  {r : DistDefInfo} {insert : InsertStmt ε} {select : SelectStmt ε}

/-- What is wanted of a row whose key can be read. -/
theorem kept_iff {row : List (Expr ε)} {text : List Char} {v : α} {n : Nat}
    (hselect : insert.selectStmt = some select) (htarget : select.targetList = [])
    (hvalues : select.valuesLists = [row]) (htext : keyText r insert.cols row = some text)
    (hread : pg.read r text = some v) (hn : pg.distDefFunc r v = some (n : Int)) :
    Kept db pg nodeToString r insert ↔
      db.validBackend n = true ∧ pg.rawParser (nodeToString insert) = some insert ∧
        ∀ v' ∈ storedKeys pg r insert, pg.distDefFunc r v' = some (n : Int) := by
  constructor
  · intro h
    obtain ⟨hvalid, hparsed, hsame⟩ := h.row select row text v n hselect htarget hvalues htext hread hn
    refine ⟨hvalid, hparsed, ?_⟩
    intro v' hv'
    obtain ⟨hinserts, hassigned⟩ := (mem_storedKeys hselect hvalues).mp hv'
    rw [hsame hinserts v' hassigned, hn]
  · intro ⟨hvalid, hparsed, hkeys⟩
    refine ⟨by rw [hselect]; exact Option.some_ne_none _, ?_⟩
    intro select' row' text' v' n' hselect' _ hvalues' htext' hread' hn'
    obtain rfl := Option.some.inj (hselect.symm.trans hselect')
    obtain rfl := (List.cons.inj (hvalues.symm.trans hvalues')).1
    obtain rfl := Option.some.inj (htext.symm.trans htext')
    obtain rfl := Option.some.inj (hread.symm.trans hread')
    obtain rfl := Int.ofNat_inj.mp (Option.some.inj (hn.symm.trans hn'))
    refine ⟨hvalid, hparsed, ?_⟩
    intro hinserts v' hassigned
    rw [hn]
    exact hkeys v' ((mem_storedKeys hselect hvalues).mpr ⟨hinserts, hassigned⟩)

/-- Nothing is wanted of a statement whose key cannot be read. -/
theorem kept_of_unread (hselect : insert.selectStmt = some select)
    (h : ∀ row text v, ∀ n : Nat, select.targetList = [] → select.valuesLists = [row] →
      keyText r insert.cols row = some text → pg.read r text = some v →
      pg.distDefFunc r v ≠ some (n : Int)) : Kept db pg nodeToString r insert where
  notDefault := by
    rw [hselect]
    exact Option.some_ne_none _
  row select' row text v n hselect' htarget hvalues htext hread hn := by
    obtain rfl := Option.some.inj (hselect.symm.trans hselect')
    exact absurd hn (h row text v n htarget hvalues htext hread)

end

/-- A statement into a distributed table is rejected or placed right, just when it is not
`DEFAULT VALUES`, and its key, if it has one that can be read, stands for what is stored. -/
theorem inserted_iff (db : SystemDb) (pg : Postgres ε α) (nodeToString : InsertStmt ε → List Char)
    (r : DistDefInfo) (tstate : Char) (insert : InsertStmt ε) (hrules : Rules db pg) (hr : r ∈ db.rules)
    (hinto : insert.Into r) :
    Inserted db pg r tstate insert (rewriteInsert db nodeToString r.dbname tstate insert) ↔
      Kept db pg nodeToString r insert := by
  have hfind : db.poolGetDistDefInfo r.dbname insert.schemaname (some insert.relname) = some r := by
    rw [hinto.table]
    exact SystemDb.poolGetDistDefInfo_eq hrules.unique hr hinto.schema
  unfold rewriteInsert examInsertStmt
  rw [hfind]
  cases hselect : insert.selectStmt with
  | none => exact ⟨False.elim, fun h => h.notDefault hselect⟩
  | some select =>
    simp only
    by_cases htarget : select.targetList = []
    · rw [if_neg (not_not_intro htarget)]
      have hrows : ∀ id, examRows db r insert.cols select = .ok id ↔ _ :=
        fun id => examRows_ok (hrules.key r hr)
      obtain ⟨message, hrejected⟩ | ⟨id, hok⟩ := @examRows_cases ε db r insert.cols select
      · rw [hrejected]
        refine iff_of_true (fun h => decide_eq_true h) (kept_of_unread hselect ?_)
        intro row text v n _ hvalues htext hread hn
        have hok := (hrows n).mpr ⟨row, text, hvalues, htext, poolGetId_text hrules hr hread hn,
          Int.natCast_nonneg n⟩
        rw [hrejected] at hok
        cases hok
      · obtain ⟨row, text, hvalues, htext, hid, hpos⟩ := (hrows id).mp hok
        rw [← hid] at hpos
        obtain ⟨v, n, hread, hlt, hn, hnum⟩ := poolGetId_nonneg hrules hr hpos
        obtain rfl : id = n := hid.symm.trans hnum
        rw [hok, kept_iff hselect htarget hvalues htext hread hn]
        constructor
        · intro ⟨m, hm, _, hplaced⟩
          obtain rfl := Int.ofNat_inj.mp hm
          exact hplaced
        · intro hplaced
          exact ⟨n, rfl, hlt, hplaced⟩
    · rw [if_pos htarget]
      exact iff_of_true (fun h => decide_eq_true h)
        (kept_of_unread hselect fun _ _ _ _ htarget' => absurd htarget' htarget)

/-! ## A row, and no row -/

/-- `INSERT INTO t VALUES ('a')` -/
def insertLetter : InsertStmt Unit where
  schemaname := none
  relname := "t"
  cols := []
  selectStmt := some ⟨[], [[.aConst (.string ['a'])]], []⟩
  returningList := []

/-- `INSERT INTO t DEFAULT VALUES` -/
def insertDefault : InsertStmt Unit := { insertLetter with selectStmt := none }

/-- The text of these trees. -/
def insertText (insert : InsertStmt Unit) : List Char :=
  if insert.selectStmt = none then "INSERT INTO \"t\" DEFAULT VALUES".toList
  else "INSERT INTO \"t\" VALUES ('a')".toList

/-- A server whose keys are texts, `b` by default. -/
def textServer : Postgres Unit (List Char) where
  read _ text := some text
  distDefFunc _ v := if v = ['a'] then some 0 else some 1
  assigned
    | _, [] => some ['b']
    | _, (_, e) :: _ => e.constText
  inserts _ _ := true
  selected _ _ := []
  rawParser text :=
    if text = insertText insertLetter then some insertLetter
    else if text = insertText insertDefault then some insertDefault
    else none

theorem rules_textServer : Rules twoNodes textServer where
  unique := wellFormed_twoNodes.unique
  key := wellFormed_twoNodes.key
  exec _ _ _ := rfl
  node r _ v := by
    by_cases hv : v = ['a']
    · exact ⟨0, Nat.succ_pos 1, if_pos hv⟩
    · exact ⟨1, Nat.lt_succ_self 1, if_neg hv⟩

theorem into_letters {insert : InsertStmt Unit} (hschema : insert.schemaname = none)
    (htable : insert.relname = "t") : insert.Into letters :=
  ⟨by rw [hschema]; rfl, htable⟩

theorem kept_insertLetter : Kept twoNodes textServer insertText letters insertLetter := by
  have hparsed : textServer.rawParser (insertText insertLetter) = some insertLetter := by decide
  refine (@kept_iff _ _ _ _ _ _ _ _ _ ['a'] ['a'] 0 rfl rfl rfl rfl rfl rfl).mpr ⟨rfl, hparsed, ?_⟩
  intro v hv
  obtain rfl := List.mem_singleton.mp (show v ∈ [['a']] from hv)
  rfl

/-- The row goes to the first node. -/
theorem inserted_insertLetter : Inserted twoNodes textServer letters 'I' insertLetter
    (rewriteInsert twoNodes insertText "d" 'I' insertLetter) :=
  (inserted_iff twoNodes textServer insertText letters 'I' insertLetter rules_textServer
    List.mem_cons_self (into_letters rfl rfl)).mpr kept_insertLetter

/-- The child does not survive `DEFAULT VALUES`. -/
theorem not_inserted_insertDefault :
    ¬ ∀ (db : SystemDb) (pg : Postgres Unit (List Char)) (nodeToString : InsertStmt Unit → List Char)
      (r : DistDefInfo) (tstate : Char) (insert : InsertStmt Unit), Rules db pg → r ∈ db.rules →
      insert.Into r → pg.rawParser (nodeToString insert) = some insert →
        Inserted db pg r tstate insert (rewriteInsert db nodeToString r.dbname tstate insert) := by
  intro hclaim
  have hparsed : textServer.rawParser (insertText insertDefault) = some insertDefault := by decide
  have hcrashed : rewriteInsert twoNodes insertText letters.dbname 'I' insertDefault = .crashed := by
    decide
  have hinserted := hclaim twoNodes textServer insertText letters 'I' insertDefault rules_textServer
    List.mem_cons_self (into_letters rfl rfl) hparsed
  rw [hcrashed] at hinserted
  exact hinserted

end PgPool.Parallel
