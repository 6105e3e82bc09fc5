import Mathlib.Data.List.Nodup
import PgPool.Timestamp.Untouched

/-!
# Rows that stay aligned

A row of an INSERT pairs its values with the columns by position.  A rewritten row keeps the pairs of the
client, but for DEFAULT in a time column, and the pairs that are new are of columns that were left out.
-/

namespace PgPool

namespace Timestamp

open PgPool.Timestamp.Tree

/-! ## Pairs -/

/-- The columns that the values of a row are for, by position. -/
def columnNames (attrs : List TSAttr) (cols : List ResTarget) : List String :=
  if cols.isEmpty then attrs.map TSAttr.attrname else cols.map ResTarget.name

/-- The column of a position. -/
def columnAt (attrs : List TSAttr) (cols : List ResTarget) (i : Nat) : Option TSAttr :=
  ((columnNames attrs cols)[i]?).bind fun name => attrs.find? fun attr => attr.attrname == name

/-- The row has no value for the column: it stands behind the last value, or is not in the list. -/
def Omits (attrs : List TSAttr) (cols : List ResTarget) (row : List Tree) (attr : TSAttr) : Prop :=
  if cols.isEmpty then attr ∈ attrs.drop row.length else attr.attrname ∉ cols.map ResTarget.name

/-- The column gets its default: the row has no value for it, or DEFAULT. -/
def LeftOut (attrs : List TSAttr) (cols : List ResTarget) (row : List Tree) (attr : TSAttr) : Prop :=
  Omits attrs cols row attr ∨
    ∃ i val, row[i]? = some val ∧ val.isDefault = true ∧ columnAt attrs cols i = some attr

/-- Each value is for the column that it was for; what has been added is for columns that the row omits,
among them all that are times. -/
structure RowAligned (isOwn : TSAttr → Tree → Prop) (attrs : List TSAttr) (cols cols' : List ResTarget)
    (row row' : List Tree) : Prop where
  kept : ∀ i val, row[i]? = some val → (columnNames attrs cols')[i]? = (columnNames attrs cols)[i]? ∧
    ∃ val', row'[i]? = some val' ∧
      match columnAt attrs cols i with
      | some attr => Placed isOwn attr (some val) val'
      | none => val' = val
  added : ∀ i val', row.length ≤ i → row'[i]? = some val' →
    ∃ attr ∈ attrs, (columnNames attrs cols')[i]? = some attr.attrname ∧ Omits attrs cols row attr ∧
      Placed isOwn attr none val'
  filled : ∀ attr ∈ attrs, attr.useTimestamp = true → Omits attrs cols row attr →
    ∃ i val', row.length ≤ i ∧ row'[i]? = some val' ∧
      (columnNames attrs cols')[i]? = some attr.attrname ∧ isOwn attr val'

/-! ## The statement -/

section

variable (master : Master)

/-- The default of a column itself: what the master answers for its text, or one of the parameters for the
time. -/
def OwnDefault (final : Ctx) (attr : TSAttr) (val : Tree) : Prop :=
  if final.rewriteToParams then ∃ k, k < final.added ∧ val = .node (.tsParam k) []
  else ∃ str, master.select ("SELECT " ++ attr.adsrc).toUTF8.toList = some str ∧ val = .const (.string str)

/-- The rows of the statement; `DEFAULT VALUES` is a row without values. -/
def InsertStmt.rows (stmt : InsertStmt) : List (List Tree) :=
  stmt.selectStmt.elim [[]] InsertSource.valuesLists

/-- The statement whose calls of the clock have been rewritten. -/
def InsertStmt.walked (stmt : InsertStmt) (ctx : Ctx) : InsertStmt :=
  { stmt with selectStmt := stmt.selectStmt.map fun source => (walkSource source ctx).1 }

/-- What an INSERT has besides its columns and rows. -/
def InsertStmt.frame (stmt : InsertStmt) : String × List Tree × List Tree × List Tree :=
  (stmt.relname, stmt.returningList, stmt.selectStmt.elim [] InsertSource.front,
    stmt.selectStmt.elim [] InsertSource.back)

/-- `rewrite_timestamp_insert` stays inside its arrays, and its rows stay aligned; a statement that it
reports as not rewritten is as it was. -/
def Aligned (toParams : Bool) (stmt : InsertStmt) : Prop :=
  ∃ stmt' final rewrite,
    rewriteTimestampInsert master stmt (.init toParams) = some (stmt', final, rewrite) ∧
      (rewrite = false → stmt' = stmt) ∧
      stmt'.frame = (stmt.walked (.init toParams)).frame ∧
      ∀ attrs, master.relcache stmt.relname = some attrs →
        List.Forall₂ (RowAligned (OwnDefault master final) attrs stmt.cols stmt'.cols)
          (stmt.walked (.init toParams)).rows stmt'.rows

/-- As the catalog and the grammar have it: the names of the columns are apart, `DEFAULT VALUES` has no
column list, and rows have values. -/
structure InsertStmt.WellFormed (stmt : InsertStmt) : Prop where
  apart : ∀ attrs, master.relcache stmt.relname = some attrs → (attrs.map TSAttr.attrname).Nodup
  bare : stmt.selectStmt = none → stmt.cols = []
  values : ∀ source, stmt.selectStmt = some source → [] ∉ source.valuesLists

/-- The master has a value for the default of the column, and gives it for what fits into the buffer. -/
def Answered (attr : TSAttr) : Prop :=
  ∃ str, master.select (selectQuery attr.adsrc) = some str ∧
    master.select ("SELECT " ++ attr.adsrc).toUTF8.toList = some str

/-- No value is behind the last column, the columns that are looked up exist, and none are added to a list
that is not as long as the row. -/
def RowFits (attrs : List TSAttr) (cols : List ResTarget) (row : List Tree) : Prop :=
  if cols.isEmpty then row.length ≤ attrs.length
  else (∀ col ∈ cols.take row.length, col.name ∈ attrs.map TSAttr.attrname) ∧
    (appendColumns attrs cols ≠ [] → row.length = cols.length)

/-- There is a call of the clock to rewrite, or the default of a time column. -/
def Rewrites (attrs : List TSAttr) (stmt : InsertStmt) : Prop :=
  stmt.selectStmt.elim false InsertSource.finds = true ∨
    ∃ row ∈ stmt.rows, ∃ attr ∈ attrs, attr.useTimestamp = true ∧ LeftOut attrs stmt.cols row attr

/-- The rows fit the table, and with a column list there is one; the defaults are answered; and a statement
in which there is nothing to rewrite has values for all the columns. -/
structure Alignable (toParams : Bool) (stmt : InsertStmt) (attrs : List TSAttr) : Prop where
  fits : ∀ row ∈ stmt.rows, RowFits attrs stmt.cols row
  single : stmt.cols ≠ [] → stmt.rows.length ≤ 1
  answered : toParams = false → ∀ row ∈ stmt.rows, ∀ attr ∈ attrs, attr.useTimestamp = true →
    LeftOut attrs stmt.cols row attr → Answered master attr
  complete : stmt.cols = [] → stmt.selectStmt.isSome = true →
    Rewrites attrs stmt ∨ ∀ row ∈ stmt.rows, row.length = attrs.length

end

/-! ## Own defaults -/

variable {master : Master} {ctx ctx₁ final : Ctx} {attrs : List TSAttr} {attr : TSAttr}
  {cols cols' : List ResTarget} {row row' : List Tree}

theorem ownDefault_iff {val : Tree} (hmade : Made master final attr val) :
    OwnDefault master final attr val ↔ (final.rewriteToParams = false → Answered master attr) := by
  unfold OwnDefault
  cases hmode : final.rewriteToParams with
  | true =>
    rw [if_pos rfl]
    exact ⟨fun _ => nofun, fun _ => hmade.param hmode⟩
  | false =>
    rw [if_neg Bool.false_ne_true, hmade.const hmode, makeStringConstFromQuery]
    constructor
    · rintro ⟨str, hstr, hval⟩ -
      cases hcut : master.select (selectQuery attr.adsrc) with
      | none =>
        rw [hcut] at hval
        cases hval
      | some cut =>
        rw [hcut] at hval
        cases hval
        exact ⟨str, hcut, hstr⟩
    · intro h
      obtain ⟨str, hcut, hstr⟩ := h rfl
      exact ⟨str, hstr, by rw [hcut]⟩

theorem Placed.imp {P Q : TSAttr → Tree → Prop} {given : Option Tree} {val : Tree}
    (h : Placed P attr given val)
    (himp : attr.useTimestamp = true → leftToDefault given = true → P attr val → Q attr val) :
    Placed Q attr given val := by
  unfold Placed at h ⊢
  split
  · next hdefault =>
    rw [if_pos hdefault] at h
    rw [Bool.and_eq_true] at hdefault
    exact himp hdefault.1 hdefault.2 h
  · next hgiven =>
    rwa [if_neg hgiven] at h

theorem attr_unique (hapart : (attrs.map TSAttr.attrname).Nodup) {attr' : TSAttr} (hmem : attr ∈ attrs)
    (hmem' : attr' ∈ attrs) (hname : attr.attrname = attr'.attrname) : attr = attr' :=
  List.inj_on_of_nodup_map hapart hmem hmem' hname

theorem RowAligned.imp {P Q : TSAttr → Tree → Prop} (h : RowAligned P attrs cols cols' row row')
    (himp : ∀ attr ∈ attrs, attr.useTimestamp = true → LeftOut attrs cols row attr →
      ∀ val, P attr val → Q attr val) : RowAligned Q attrs cols cols' row row' where
  kept i val hval := by
    obtain ⟨hname, val', hval', hplaced⟩ := h.kept i val hval
    refine ⟨hname, val', hval', ?_⟩
    cases hcolumn : columnAt attrs cols i with
    | none => rwa [hcolumn] at hplaced
    | some attr =>
      rw [hcolumn] at hplaced
      have hmem : attr ∈ attrs := by
        obtain ⟨name, -, hfind⟩ := Option.bind_eq_some_iff.mp hcolumn
        exact List.mem_of_find?_eq_some hfind
      exact hplaced.imp fun htime hdefault =>
        himp attr hmem htime (.inr ⟨i, val, hval, hdefault, hcolumn⟩) val'
  added i val' hi hval' := by
    obtain ⟨attr, hmem, hname, homits, hplaced⟩ := h.added i val' hi hval'
    exact ⟨attr, hmem, hname, homits, hplaced.imp fun htime _ => himp attr hmem htime (.inl homits) val'⟩
  filled attr hmem htime homits := by
    obtain ⟨i, val', hi, hval', hname, hown⟩ := h.filled attr hmem htime homits
    exact ⟨i, val', hi, hval', hname, himp attr hmem htime (.inl homits) val' hown⟩

/-- A column that gets its default does so in one place, whatever is said of the default. -/
theorem RowAligned.meet {P Q : TSAttr → Tree → Prop} (hapart : (attrs.map TSAttr.attrname).Nodup)
    (hP : RowAligned P attrs cols cols' row row') (hQ : RowAligned Q attrs cols cols' row row')
    (hmem : attr ∈ attrs) (htime : attr.useTimestamp = true) (hleft : LeftOut attrs cols row attr) :
    ∃ val, P attr val ∧ Q attr val := by
  obtain homits | ⟨i, val, hval, hdefault, hcolumn⟩ := hleft
  · obtain ⟨i, val', hi, hval', hname, hown⟩ := hQ.filled attr hmem htime homits
    obtain ⟨attr', hmem', hname', -, hplaced⟩ := hP.added i val' hi hval'
    rw [hname, Option.some.injEq] at hname'
    cases attr_unique hapart hmem hmem' hname'
    exact ⟨val', hplaced.own htime rfl, hown⟩
  · obtain ⟨-, val', hval', hplaced⟩ := hP.kept i val hval
    obtain ⟨-, val'', hval'', hplaced'⟩ := hQ.kept i val hval
    rw [hval', Option.some.injEq] at hval''
    subst hval''
    rw [hcolumn] at hplaced hplaced'
    exact ⟨val', hplaced.own htime hdefault, hplaced'.own htime hdefault⟩

/-- A row with defaults made for it is aligned exactly if they are answered. -/
theorem rowAligned_own_iff (hapart : (attrs.map TSAttr.attrname).Nodup)
    (hmade : RowAligned (Made master final) attrs cols cols' row row') :
    RowAligned (OwnDefault master final) attrs cols cols' row row' ↔
      (final.rewriteToParams = false → ∀ attr ∈ attrs, attr.useTimestamp = true →
        LeftOut attrs cols row attr → Answered master attr) := by
  constructor
  · intro hown hmode attr hmem htime hleft
    obtain ⟨val, hval, hval'⟩ := hmade.meet hapart hown hmem htime hleft
    exact (ownDefault_iff hval).mp hval' hmode
  · intro hanswered
    exact hmade.imp fun attr hmem htime hleft val hval =>
      (ownDefault_iff hval).mpr fun hmode => hanswered hmode attr hmem htime hleft

end Timestamp

end PgPool
