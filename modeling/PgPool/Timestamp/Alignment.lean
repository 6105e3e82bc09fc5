import PgPool.Timestamp.Inserted

/-!
# When an INSERT stays aligned

The four ways of `rewrite_timestamp_insert`, each with what it takes for the rows to stay aligned.
-/

namespace PgPool

namespace Timestamp

open PgPool.Timestamp.Tree

variable {master : Master} {ctx ctx₁ final : Ctx} {attrs : List TSAttr} {attr : TSAttr}
  {cols cols' : List ResTarget} {row row' : List Tree} {rows rows' : List (List Tree)}
  {toParams : Bool} {stmt : InsertStmt} {source : InsertSource}

/-! ## Rows that look the same -/

/-- A property of rows for which only the length matters and which values are DEFAULT. -/
def OfLooks (P : List Tree → Prop) : Prop :=
  ∀ {row row' : List Tree}, List.Forall₂ SameLook row row' → (P row ↔ P row')

theorem getElem?_sameLook (h : List.Forall₂ SameLook row row') (i : Nat) :
    (row[i]?).map Tree.isDefault = (row'[i]?).map Tree.isDefault := by
  induction h generalizing i with
  | nil => rfl
  | cons hlook _ ih =>
    cases i with
    | zero => exact congrArg some hlook.default.symm
    | succ i => exact ih i

theorem omits_sameLook (h : List.Forall₂ SameLook row row') :
    Omits attrs cols row attr ↔ Omits attrs cols row' attr := by
  unfold Omits
  rw [h.length_eq]

theorem leftOut_sameLook (h : List.Forall₂ SameLook row row') :
    LeftOut attrs cols row attr ↔ LeftOut attrs cols row' attr := by
  have hgiven : ∀ row : List Tree, LeftOut attrs cols row attr ↔ Omits attrs cols row attr ∨
      ∃ i, (row[i]?).map Tree.isDefault = some true ∧ columnAt attrs cols i = some attr := by
    intro row
    unfold LeftOut
    refine or_congr_right (exists_congr fun i => ?_)
    rw [Option.map_eq_some_iff]
    constructor
    · intro ⟨val, hval, htrue, hcolumn⟩
      exact ⟨⟨val, hval, htrue⟩, hcolumn⟩
    · intro ⟨⟨val, hval, htrue⟩, hcolumn⟩
      exact ⟨val, hval, htrue, hcolumn⟩
  rw [hgiven, hgiven, omits_sameLook h]
  simp only [getElem?_sameLook h]

theorem rowFits_ofLooks (attrs : List TSAttr) (cols : List ResTarget) :
    OfLooks (RowFits attrs cols) := by
  intro row row' h
  unfold RowFits
  rw [h.length_eq]

theorem forall_rows_iff {P : List Tree → Prop} (hP : OfLooks P)
    (h : List.Forall₂ (List.Forall₂ SameLook) rows rows') :
    (∀ row ∈ rows, P row) ↔ ∀ row ∈ rows', P row := by
  induction h with
  | nil => exact Iff.rfl
  | cons hrow _ ih => rw [List.forall_mem_cons, List.forall_mem_cons, hP hrow, ih]

theorem sameLook_walked (stmt : InsertStmt) (ctx : Ctx) :
    List.Forall₂ (List.Forall₂ SameLook) stmt.rows (stmt.walked ctx).rows := by
  unfold InsertStmt.rows InsertStmt.walked
  cases stmt.selectStmt with
  | none => exact .cons .nil .nil
  | some source => exact sameLook_walkRows source.valuesLists

/-- The conditions are about the rows of the client or about those that have been walked. -/
theorem alignable_walked_iff (toParams : Bool) (stmt : InsertStmt) (attrs : List TSAttr) (ctx : Ctx) :
    Alignable master toParams stmt attrs ↔
      (∀ row ∈ (stmt.walked ctx).rows, RowFits attrs stmt.cols row) ∧
        (stmt.cols ≠ [] → (stmt.walked ctx).rows.length ≤ 1) ∧
        (toParams = false → ∀ row ∈ (stmt.walked ctx).rows, ∀ attr ∈ attrs, attr.useTimestamp = true →
          LeftOut attrs stmt.cols row attr → Answered master attr) ∧
        (stmt.cols = [] → stmt.selectStmt.isSome = true →
          (stmt.selectStmt.elim false InsertSource.finds = true ∨
            ¬∀ row ∈ (stmt.walked ctx).rows, ∀ attr ∈ attrs, attr.useTimestamp = true →
              ¬LeftOut attrs stmt.cols row attr) ∨
            ∀ row ∈ (stmt.walked ctx).rows, row.length = attrs.length) := by
  have hlooks := sameLook_walked stmt ctx
  have hfits := forall_rows_iff (rowFits_ofLooks attrs stmt.cols) hlooks
  have hanswered : (∀ row ∈ stmt.rows, ∀ attr ∈ attrs, attr.useTimestamp = true →
      LeftOut attrs stmt.cols row attr → Answered master attr) ↔ _ :=
    forall_rows_iff (fun h => forall₂_congr fun attr _ => imp_congr_right fun _ =>
      imp_congr_left (leftOut_sameLook h)) hlooks
  have hgiven : (∀ row ∈ stmt.rows, ∀ attr ∈ attrs, attr.useTimestamp = true →
      ¬LeftOut attrs stmt.cols row attr) ↔ _ :=
    forall_rows_iff (fun h => forall₂_congr fun attr _ => imp_congr_right fun _ =>
      not_congr (leftOut_sameLook h)) hlooks
  have hlengths : (∀ row ∈ stmt.rows, row.length = attrs.length) ↔ _ :=
    forall_rows_iff (fun h => by rw [h.length_eq]) hlooks
  have hrewrites : Rewrites attrs stmt ↔ stmt.selectStmt.elim false InsertSource.finds = true ∨
      ¬∀ row ∈ stmt.rows, ∀ attr ∈ attrs, attr.useTimestamp = true →
        ¬LeftOut attrs stmt.cols row attr := by
    unfold Rewrites
    push Not
    exact Iff.rfl
  rw [← hfits, ← hanswered, ← hgiven, ← hlengths, ← hlooks.length_eq, ← hrewrites]
  exact ⟨fun h => ⟨h.fits, h.single, h.answered, h.complete⟩,
    fun ⟨hfits, hsingle, hanswered, hcomplete⟩ => ⟨hfits, hsingle, hanswered, hcomplete⟩⟩

/-! ## Rows with defaults made for them -/

theorem forall₂_own_iff (hapart : (attrs.map TSAttr.attrname).Nodup)
    (h : List.Forall₂ (RowAligned (Made master final) attrs cols cols') rows rows') :
    List.Forall₂ (RowAligned (OwnDefault master final) attrs cols cols') rows rows' ↔
      (final.rewriteToParams = false → ∀ row ∈ rows, ∀ attr ∈ attrs, attr.useTimestamp = true →
        LeftOut attrs cols row attr → Answered master attr) := by
  induction h with
  | nil => exact ⟨fun _ _ => nofun, fun _ => .nil⟩
  | cons hrow _ ih =>
    rw [List.forall₂_cons, ih, rowAligned_own_iff hapart hrow]
    simp only [List.forall_mem_cons, forall_and]

/-- Where nothing has been rewritten no time column gets its default. -/
theorem given_of_not_rewrite (hapart : (attrs.map TSAttr.attrname).Nodup)
    (h : List.Forall₂ (RowAligned (Made master final) attrs cols cols') rows rows')
    (hrewrite : final.rewrite = false) : ∀ row ∈ rows, ∀ attr ∈ attrs, attr.useTimestamp = true →
      ¬LeftOut attrs cols row attr := by
  induction h with
  | nil => nofun
  | cons hrow _ ih =>
    rw [List.forall_mem_cons]
    refine ⟨fun attr hmem htime hleft => ?_, ih⟩
    obtain ⟨val, hmade, -⟩ := hrow.meet hapart hrow hmem htime hleft
    rw [hmade.rewrite] at hrewrite
    cases hrewrite

theorem placed_eq {val val' : Tree} (hrewrite : final.rewrite = false)
    (h : Placed (Made master final) attr (some val) val') : val' = val := by
  unfold Placed at h
  split at h
  · rw [h.rewrite] at hrewrite
    cases hrewrite
  · exact h

theorem RowPlaced.eq_iff (hrewrite : final.rewrite = false)
    (h : RowPlaced (Made master final) attrs row row') :
    row' = row ↔ row.length = attrs.length := by
  constructor
  · intro heq
    rw [← h.length_eq, heq]
  · intro hlen
    refine List.ext_getElem? fun i => ?_
    cases hattr : attrs[i]? with
    | none =>
      rw [List.getElem?_eq_none_iff] at hattr
      rw [List.getElem?_eq_none (by rw [h.length_eq]; exact hattr), List.getElem?_eq_none (by omega)]
    | some attr =>
      obtain ⟨val', hval', hplaced⟩ := h.at hattr
      have hi : i < row.length := by
        rw [hlen]
        exact (List.getElem?_eq_some_iff.mp hattr).1
      rw [List.getElem?_eq_getElem hi] at hplaced ⊢
      rw [hval', placed_eq hrewrite hplaced]

theorem rows_eq_iff (hrewrite : final.rewrite = false)
    (h : List.Forall₂ (RowPlaced (Made master final) attrs) rows rows') :
    rows' = rows ↔ ∀ row ∈ rows, row.length = attrs.length := by
  induction h with
  | nil => exact ⟨fun _ => nofun, fun _ => rfl⟩
  | cons hrow _ ih => rw [List.forall_mem_cons, List.cons.injEq, hrow.eq_iff hrewrite, ih]

/-! ## The four ways -/

/-- With defaults made for the rows, they have to be answered. -/
theorem aligned_iff_of_made {stmt' : InsertStmt} {rewrite : Bool} (hwf : stmt.WellFormed master)
    (hattrs : master.relcache stmt.relname = some attrs)
    (hresult : rewriteTimestampInsert master stmt (.init toParams) = some (stmt', final, rewrite))
    (hmode : final.rewriteToParams = toParams) (hframe : stmt'.frame = (stmt.walked (.init toParams)).frame)
    (hmade : List.Forall₂ (RowAligned (Made master final) attrs stmt.cols stmt'.cols)
      (stmt.walked (.init toParams)).rows stmt'.rows) :
    Aligned master toParams stmt ↔ (rewrite = false → stmt' = stmt) ∧
      (toParams = false → ∀ row ∈ (stmt.walked (.init toParams)).rows, ∀ attr ∈ attrs,
        attr.useTimestamp = true → LeftOut attrs stmt.cols row attr → Answered master attr) := by
  have hown := forall₂_own_iff (hwf.apart attrs hattrs) hmade
  rw [hmode] at hown
  rw [← hown]
  constructor
  · rintro ⟨stmt'', final', rewrite', hresult', hsame, -, haligned⟩
    rw [hresult, Option.some.injEq] at hresult'
    cases hresult'
    exact ⟨hsame, haligned attrs hattrs⟩
  · intro ⟨hsame, haligned⟩
    refine ⟨stmt', final, rewrite, hresult, hsame, hframe, fun attrs' hattrs' => ?_⟩
    rw [hattrs, Option.some.injEq] at hattrs'
    subst hattrs'
    exact haligned

theorem walked_none (hselect : stmt.selectStmt = none) (ctx : Ctx) : stmt.walked ctx = stmt := by
  obtain ⟨relname, cols, selectStmt, returningList⟩ := stmt
  cases hselect
  rfl

theorem rows_none (hselect : stmt.selectStmt = none) : stmt.rows = [[]] := by
  unfold InsertStmt.rows
  rw [hselect]
  rfl

/-- DEFAULT VALUES. -/
theorem aligned_bare_iff (hwf : stmt.WellFormed master) (hselect : stmt.selectStmt = none)
    (hattrs : master.relcache stmt.relname = some attrs) :
    Aligned master toParams stmt ↔ Alignable master toParams stmt attrs := by
  have hapart := hwf.apart attrs hattrs
  have hcols := hwf.bare hselect
  have hmode : (fillColumns master attrs (.init toParams)).2.rewriteToParams = toParams :=
    (show Grows (.init toParams) _ from (pass_grows master).fillColumns attrs).mode
  have hplaced : RowPlaced (Made master (fillColumns master attrs (.init toParams)).2) attrs []
      (fillColumns master attrs (.init toParams)).1 := placed_fillColumns (.refl _)
  have haligned := hplaced.aligned hapart (Nat.zero_le _)
  have hwalked := walked_none hselect (.init toParams)
  have hconditions : Alignable master toParams stmt attrs ↔
      (toParams = false → ∀ row ∈ (stmt.walked (.init toParams)).rows, ∀ attr ∈ attrs,
        attr.useTimestamp = true → LeftOut attrs stmt.cols row attr → Answered master attr) := by
    rw [alignable_walked_iff toParams stmt attrs (.init toParams), hwalked, rows_none hselect, hcols,
      hselect]
    refine ⟨fun h => h.2.2.1, fun h => ⟨?_, fun h => absurd rfl h, h, fun _ => nofun⟩⟩
    intro row hrow
    rw [List.mem_singleton.mp hrow]
    exact Nat.zero_le _
  rw [hconditions]
  cases hrewrite : (fillColumns master attrs (.init toParams)).2.rewrite with
  | true =>
    have hresult : rewriteTimestampInsert master stmt (.init toParams) =
        some ({ stmt with selectStmt := some ⟨[], [(fillColumns master attrs (.init toParams)).1], []⟩ },
          (fillColumns master attrs (.init toParams)).2, true) := by
      simp only [rewriteTimestampInsert, hselect, hattrs, hrewrite, if_true]
    rw [aligned_iff_of_made hwf hattrs hresult hmode]
    · exact and_iff_right nofun
    · rw [hwalked]
      unfold InsertStmt.frame
      rw [hselect]
      rfl
    · rw [hwalked, rows_none hselect, hcols]
      exact .cons haligned .nil
  | false =>
    have hresult : rewriteTimestampInsert master stmt (.init toParams) =
        some (stmt, (fillColumns master attrs (.init toParams)).2, false) := by
      simp only [rewriteTimestampInsert, hselect, hattrs, hrewrite, Bool.false_eq_true, if_false]
    have hempty : RowAligned (Made master (fillColumns master attrs (.init toParams)).2) attrs [] [] []
        [] := by
      refine ⟨nofun, nofun, fun attr hmem htime homits => ?_⟩
      obtain ⟨i, val, -, -, -, hmade⟩ := haligned.filled attr hmem htime homits
      rw [hmade.rewrite] at hrewrite
      cases hrewrite
    rw [aligned_iff_of_made hwf hattrs hresult hmode (by rw [hwalked])]
    · exact and_iff_right fun _ => rfl
    · rw [hwalked, rows_none hselect, hcols]
      exact .cons hempty .nil

theorem walked_some (hselect : stmt.selectStmt = some source) (ctx : Ctx) :
    stmt.walked ctx = { stmt with selectStmt := some (walkSource source ctx).1 } := by
  unfold InsertStmt.walked
  rw [hselect]
  rfl

theorem walked_rows (hselect : stmt.selectStmt = some source) (ctx : Ctx) :
    (stmt.walked ctx).rows = (walkSource source ctx).1.valuesLists := by
  rw [walked_some hselect]
  rfl

theorem walked_eq_iff (hselect : stmt.selectStmt = some source) (ctx : Ctx) :
    stmt.walked ctx = stmt ↔ source.finds = false := by
  rw [walked_some hselect, ← @walkSource_eq_iff ctx]
  obtain ⟨relname, cols, selectStmt, returningList⟩ := stmt
  cases hselect
  simp

theorem rewrite_walked (source : InsertSource) (toParams : Bool) :
    (walkSource source (.init toParams)).2.rewrite = source.finds := by
  rw [rewrite_walkSource]
  rfl

/-- Where nothing has been rewritten the walk has found nothing. -/
theorem finds_of_not_rewrite (hgrows : Grows (walkSource source (.init toParams)).2 final)
    (hrewrite : final.rewrite = false) : source.finds = false := by
  rw [← rewrite_walked source toParams]
  by_contra htrue
  rw [hgrows.rewrite (Bool.not_eq_false _ ▸ htrue)] at hrewrite
  cases hrewrite

theorem not_aligned_of_none (h : rewriteTimestampInsert master stmt (.init toParams) = none) :
    ¬Aligned master toParams stmt := by
  rintro ⟨stmt', final, rewrite, hresult, -⟩
  rw [h] at hresult
  cases hresult

/-- A query is not looked at row by row. -/
theorem aligned_query (hselect : stmt.selectStmt = some source) (hrows : source.valuesLists = []) :
    Aligned master toParams stmt := by
  have hwalked : (walkSource source (.init toParams)).1.valuesLists = [] := by
    rw [← List.isEmpty_iff, valuesLists_walkSource, hrows]
    rfl
  have hresult : rewriteTimestampInsert master stmt (.init toParams) =
      some (stmt.walked (.init toParams), (walkSource source (.init toParams)).2, source.finds) := by
    simp only [rewriteTimestampInsert, hselect, hwalked, walked_some hselect, rewrite_walked,
      List.isEmpty_nil, if_true]
  refine ⟨_, _, _, hresult, (walked_eq_iff hselect _).mpr, rfl, fun attrs _ => ?_⟩
  rw [walked_rows hselect, hwalked]
  exact .nil

theorem not_isEmpty_walked (hrows : source.valuesLists ≠ []) :
    (walkSource source ctx).1.valuesLists.isEmpty = false := by
  rw [valuesLists_walkSource]
  simpa using hrows

/-- The columns of the table are not known. -/
theorem aligned_unknown_iff (hselect : stmt.selectStmt = some source) (hrows : source.valuesLists ≠ [])
    (hattrs : master.relcache stmt.relname = none) :
    Aligned master toParams stmt ↔ source.finds = false := by
  have hresult : rewriteTimestampInsert master stmt (.init toParams) =
      some (stmt.walked (.init toParams), (walkSource source (.init toParams)).2, false) := by
    simp only [rewriteTimestampInsert, hselect, not_isEmpty_walked hrows, walked_some hselect, hattrs,
      Bool.false_eq_true, if_false]
  rw [← walked_eq_iff hselect (.init toParams)]
  constructor
  · rintro ⟨stmt', final, rewrite, hresult', hsame, -, -⟩
    rw [hresult, Option.some.injEq] at hresult'
    cases hresult'
    exact hsame rfl
  · intro hsame
    refine ⟨_, _, _, hresult, fun _ => hsame, rfl, fun attrs hattrs' => ?_⟩
    rw [hattrs] at hattrs'
    cases hattrs'

section

variable (hapart : (attrs.map TSAttr.attrname).Nodup) (hselect : stmt.selectStmt = some source)
  (hrewritten : rewriteRows master attrs (walkSource source (.init toParams)).1.valuesLists
    (walkSource source (.init toParams)).2 = some (rows', final))

include hapart hrewritten in
theorem made_rewriteRows : List.Forall₂ (RowAligned (Made master final) attrs [] [])
    (walkSource source (.init toParams)).1.valuesLists rows' :=
  forall₂_imp_mem (placed_rewriteRows hrewritten (.refl final)) fun row hrow _ hplaced =>
    hplaced.aligned hapart (length_le_of_rewriteRows hrewritten row hrow)

include hapart hselect hrewritten in
/-- What is not rewritten is the statement of the client, unless DEFAULT has been added to a row. -/
theorem unchanged_rows_iff : (final.rewrite = false → { stmt with
      selectStmt := some { (walkSource source (.init toParams)).1 with valuesLists := rows' } } = stmt) ↔
    (source.finds = true ∨ ¬∀ row ∈ (walkSource source (.init toParams)).1.valuesLists, ∀ attr ∈ attrs,
      attr.useTimestamp = true → ¬LeftOut attrs [] row attr) ∨
    ∀ row ∈ (walkSource source (.init toParams)).1.valuesLists, row.length = attrs.length := by
  have hplaced := placed_rewriteRows hrewritten (.refl final)
  constructor
  · intro h
    by_cases hnothing : source.finds = false ∧
        ∀ row ∈ (walkSource source (.init toParams)).1.valuesLists, ∀ attr ∈ attrs,
          attr.useTimestamp = true → ¬LeftOut attrs [] row attr
    · obtain ⟨hfinds, hgiven⟩ := hnothing
      have hfinal := rewriteRows_given (fun row hrow => allGiven_assign hapart (hgiven row hrow)) hrewritten
      have hrewrite : final.rewrite = false := by rw [hfinal, rewrite_walked, hfinds]
      have hstmt := congrArg InsertStmt.selectStmt (h hrewrite)
      rw [hselect, Option.some.injEq, (walkSource_eq_iff source).mpr hfinds] at hstmt
      refine .inr ((rows_eq_iff hrewrite hplaced).mp ?_)
      rw [(walkSource_eq_iff source).mpr hfinds]
      exact congrArg InsertSource.valuesLists hstmt
    · refine .inl ?_
      rw [not_and_or, Bool.not_eq_false] at hnothing
      exact hnothing
  · intro h hrewrite
    have hfinds := finds_of_not_rewrite ((pass_grows master).rewriteRows hrewritten) hrewrite
    obtain (htrue | hleft) | hlengths := h
    · rw [hfinds] at htrue
      cases htrue
    · exact absurd (given_of_not_rewrite hapart (made_rewriteRows hapart hrewritten) hrewrite) hleft
    · rw [(rows_eq_iff hrewrite hplaced).mpr hlengths, ← walked_some hselect]
      exact (walked_eq_iff hselect _).mpr hfinds

end

/-- Rows without a column list. -/
theorem aligned_rows_iff (hwf : stmt.WellFormed master) (hselect : stmt.selectStmt = some source)
    (hrows : source.valuesLists ≠ []) (hattrs : master.relcache stmt.relname = some attrs)
    (hcols : stmt.cols = []) : Aligned master toParams stmt ↔ Alignable master toParams stmt attrs := by
  have hapart := hwf.apart attrs hattrs
  rw [alignable_walked_iff toParams stmt attrs (.init toParams), walked_rows hselect, hcols]
  cases hrewritten : rewriteRows master attrs (walkSource source (.init toParams)).1.valuesLists
      (walkSource source (.init toParams)).2 with
  | none =>
    have hresult : rewriteTimestampInsert master stmt (.init toParams) = none := by
      simp only [rewriteTimestampInsert, hselect, not_isEmpty_walked hrows, hattrs, hcols, List.isEmpty_nil,
        hrewritten, if_true, Bool.false_eq_true, if_false]
    refine iff_of_false (not_aligned_of_none hresult) ?_
    rintro ⟨hfits, -⟩
    have hsome : (rewriteRows master attrs (walkSource source (.init toParams)).1.valuesLists
        (walkSource source (.init toParams)).2).isSome = true := isSome_rewriteRows master hfits
    rw [hrewritten] at hsome
    cases hsome
  | some out =>
    obtain ⟨rows', final⟩ := out
    have hunchanged := unchanged_rows_iff hapart hselect hrewritten
    obtain ⟨stmt', hstmt'⟩ : ∃ stmt' : InsertStmt, stmt' = { stmt with
        selectStmt := some { (walkSource source (.init toParams)).1 with valuesLists := rows' } } :=
      ⟨_, rfl⟩
    rw [← hstmt'] at hunchanged
    have hresult : rewriteTimestampInsert master stmt (.init toParams) =
        some (stmt', final, final.rewrite) := by
      rw [hstmt']
      simp only [rewriteTimestampInsert, hselect, not_isEmpty_walked hrows, hattrs, hcols, List.isEmpty_nil,
        hrewritten, if_true, Bool.false_eq_true, if_false]
    have hmode : final.rewriteToParams = toParams :=
      (show Grows _ _ from (pass_grows master).rewriteRows hrewritten).mode.trans (mode_walkSource source)
    have hframe : stmt'.frame = (stmt.walked (.init toParams)).frame := by
      rw [walked_some hselect, hstmt']
      rfl
    have hmade : List.Forall₂ (RowAligned (Made master final) attrs stmt.cols stmt'.cols)
        (stmt.walked (.init toParams)).rows stmt'.rows := by
      rw [walked_rows hselect, hstmt', hcols]
      exact made_rewriteRows hapart hrewritten
    rw [aligned_iff_of_made hwf hattrs hresult hmode hframe hmade, walked_rows hselect, hcols, hunchanged,
      hselect, Option.elim_some]
    constructor
    · intro ⟨hcomplete, hanswered⟩
      exact ⟨length_le_of_rewriteRows hrewritten, fun h => absurd rfl h, hanswered, fun _ _ => hcomplete⟩
    · rintro ⟨-, -, hanswered, hcomplete⟩
      exact ⟨hcomplete rfl rfl, hanswered⟩

/-- What is looked up for a row whose listed columns exist. -/
theorem known_names {n : Nat} (h : ∀ col ∈ cols.take n, col.name ∈ attrs.map TSAttr.attrname) :
    ∀ name ∈ ((cols ++ (appendColumns attrs cols).map appendedTarget).map ResTarget.name).take n,
      name ∈ attrs.map TSAttr.attrname := by
  intro name hname
  rw [names_append, List.take_append, List.mem_append, ← List.map_take] at hname
  obtain hlisted | happended := hname
  · obtain ⟨col, hcol, rfl⟩ := List.mem_map.mp hlisted
    exact h col hcol
  · obtain ⟨attr, hattr, rfl⟩ := List.mem_map.mp (List.mem_of_mem_take happended)
    exact List.mem_map_of_mem (mem_appendColumns.mp hattr).1

theorem known_cols {n : Nat}
    (h : ∀ name ∈ ((cols ++ (appendColumns attrs cols).map appendedTarget).map ResTarget.name).take n,
      name ∈ attrs.map TSAttr.attrname) :
    ∀ col ∈ cols.take n, col.name ∈ attrs.map TSAttr.attrname := by
  intro col hcol
  refine h col.name ?_
  rw [names_append, List.take_append, List.mem_append, ← List.map_take]
  exact .inl (List.mem_map_of_mem hcol)

/-- The loop over the list gives back what it has not rewritten. -/
theorem rewriteListed_eq {names : List String} {vals vals' : List Tree}
    (h : rewriteListed master attrs names vals ctx = some (vals', ctx₁)) (hlast : Grows ctx₁ final)
    (hrewrite : final.rewrite = false) : vals' = vals := by
  refine List.ext_getElem? fun i => ?_
  cases hval : vals[i]? with
  | none =>
    rw [List.getElem?_eq_none_iff] at hval ⊢
    rwa [length_rewriteListed master h]
  | some val =>
    obtain ⟨val', hval', hplaced⟩ := rewriteListed_at h hlast hval
    rw [hval']
    cases hname : names[i]? with
    | none =>
      rw [hname] at hplaced
      rw [hplaced]
    | some name =>
      rw [hname] at hplaced
      obtain ⟨attr, -, hplaced⟩ := hplaced
      rw [placed_eq hrewrite hplaced]

section

variable {names : List String} {start : Ctx} {middle defaults : List Tree}
  (hlisted : rewriteListed master attrs names row start = some (middle, ctx₁))
  (hdefaults : appendDefaults master (appendColumns attrs cols) ctx₁ = (defaults, final))

include hdefaults in
theorem grows_appendDefaults : Grows ctx₁ final := by
  have hgrows : Grows ctx₁ (appendDefaults master (appendColumns attrs cols) ctx₁).2 :=
    (pass_grows master).appendDefaults _
  rwa [hdefaults] at hgrows

include hlisted hdefaults

theorem grows_listed : Grows start final :=
  Grows.trans ((pass_grows master).rewriteListed hlisted) (grows_appendDefaults hdefaults)

variable (hstart : appendColumns attrs cols ≠ [] → start.rewrite = true)

include hstart

theorem made_listed : List.Forall₂ (Made master final) (appendColumns attrs cols) defaults := by
  have hmade : List.Forall₂ (Made master final) (appendColumns attrs cols)
      (appendDefaults master (appendColumns attrs cols) ctx₁).1 :=
    made_appendDefaults (by rw [hdefaults]; exact .refl _)
      fun hne => (grows_listed hlisted hdefaults).rewrite (hstart hne)
  rwa [hdefaults] at hmade

/-- Where nothing has been rewritten no column has been appended, and the row is as before. -/
theorem listed_eq (hrewrite : final.rewrite = false) :
    appendColumns attrs cols = [] ∧ middle ++ defaults = row := by
  have hempty : appendColumns attrs cols = [] := by
    by_contra hne
    rw [(grows_listed hlisted hdefaults).rewrite (hstart hne)] at hrewrite
    cases hrewrite
  have hmade := made_listed hlisted hdefaults hstart
  rw [hempty, List.forall₂_nil_left_iff] at hmade
  refine ⟨hempty, ?_⟩
  rw [hmade, List.append_nil]
  exact rewriteListed_eq hlisted (grows_appendDefaults hdefaults) hrewrite

end

/-- The names that `rewrite_timestamp_insert` looks up for the values of a row. -/
def listedNames (attrs : List TSAttr) (cols : List ResTarget) : List String :=
  (cols ++ (appendColumns attrs cols).map appendedTarget).map ResTarget.name

/-- The context in which it starts with the rows. -/
def listedStart (attrs : List TSAttr) (cols : List ResTarget) (ctx : Ctx) : Ctx :=
  if (appendColumns attrs cols).isEmpty then ctx else ctx.setRewrite

theorem grows_listedStart (attrs : List TSAttr) (cols : List ResTarget) (ctx : Ctx) :
    Grows ctx (listedStart attrs cols ctx) := by
  unfold listedStart
  split
  · exact .refl _
  · exact grows_setRewrite _

theorem rewrite_listedStart (ctx : Ctx) (h : appendColumns attrs cols ≠ []) :
    (listedStart attrs cols ctx).rewrite = true := by
  unfold listedStart
  rw [if_neg (by simpa using h)]
  rfl

theorem rewriteTimestampInsert_listed (hselect : stmt.selectStmt = some source)
    (hrows : source.valuesLists ≠ []) (hattrs : master.relcache stmt.relname = some attrs)
    (hcols : stmt.cols ≠ []) : rewriteTimestampInsert master stmt (.init toParams) =
      (rewriteListedRows master attrs (appendColumns attrs stmt.cols) (listedNames attrs stmt.cols)
        (walkSource source (.init toParams)).1.valuesLists
        (listedStart attrs stmt.cols (walkSource source (.init toParams)).2)).map fun out =>
          ({ stmt with
            cols := stmt.cols ++ (appendColumns attrs stmt.cols).map appendedTarget
            selectStmt := some { (walkSource source (.init toParams)).1 with valuesLists := out.1 } },
            out.2, out.2.rewrite) := by
  have hcols' : stmt.cols.isEmpty = false := by simpa using hcols
  simp only [rewriteTimestampInsert, hselect, not_isEmpty_walked hrows, hattrs, hcols',
    Bool.false_eq_true, if_false, listedNames, listedStart]
  cases rewriteListedRows master attrs (appendColumns attrs stmt.cols)
    ((stmt.cols ++ (appendColumns attrs stmt.cols).map appendedTarget).map ResTarget.name)
    (walkSource source (.init toParams)).1.valuesLists (if (appendColumns attrs stmt.cols).isEmpty then
      (walkSource source (.init toParams)).2 else (walkSource source (.init toParams)).2.setRewrite) <;> rfl

theorem rowFits_listed_iff (hcols : cols ≠ []) : RowFits attrs cols row ↔
    (∀ col ∈ cols.take row.length, col.name ∈ attrs.map TSAttr.attrname) ∧
      (appendColumns attrs cols ≠ [] → row.length = cols.length) := by
  unfold RowFits
  rw [if_neg (by simpa using hcols)]

/-- One row with a column list that is rewritten. -/
theorem aligned_listedRow_iff {middle defaults : List Tree} (hwf : stmt.WellFormed master)
    (hselect : stmt.selectStmt = some source) (hrows : source.valuesLists ≠ [])
    (hattrs : master.relcache stmt.relname = some attrs) (hcols : stmt.cols ≠ [])
    (hrow : (walkSource source (.init toParams)).1.valuesLists = [row])
    (hlisted : rewriteListed master attrs (listedNames attrs stmt.cols) row
      (listedStart attrs stmt.cols (walkSource source (.init toParams)).2) = some (middle, ctx₁))
    (hdefaults : appendDefaults master (appendColumns attrs stmt.cols) ctx₁ = (defaults, final)) :
    Aligned master toParams stmt ↔ (appendColumns attrs stmt.cols ≠ [] → row.length = stmt.cols.length) ∧
      (toParams = false → ∀ attr ∈ attrs, attr.useTimestamp = true → LeftOut attrs stmt.cols row attr →
        Answered master attr) := by
  obtain ⟨stmt', hstmt'⟩ : ∃ stmt' : InsertStmt, stmt' = { stmt with
      cols := stmt.cols ++ (appendColumns attrs stmt.cols).map appendedTarget
      selectStmt := some { (walkSource source (.init toParams)).1 with
        valuesLists := [middle ++ defaults] } } := ⟨_, rfl⟩
  have hresult := @rewriteTimestampInsert_listed _ _ toParams _ _ hselect hrows hattrs hcols
  rw [hrow, rewriteListedRows, hlisted] at hresult
  simp only [hdefaults, Option.map_some] at hresult
  rw [← hstmt'] at hresult
  have hwalked : (stmt.walked (.init toParams)).rows = [row] := (walked_rows hselect _).trans hrow
  have hgrows : Grows (walkSource source (.init toParams)).2 final :=
    (grows_listedStart attrs stmt.cols _).trans (grows_listed hlisted hdefaults)
  have hmiddle := length_rewriteListed master hlisted
  have hmade := made_listed hlisted hdefaults (rewrite_listedStart _)
  by_cases hfit : appendColumns attrs stmt.cols ≠ [] → row.length = stmt.cols.length
  · have hframe : stmt'.frame = (stmt.walked (.init toParams)).frame := by
      rw [walked_some hselect, hstmt']
      rfl
    have hmadeRows : List.Forall₂ (RowAligned (Made master final) attrs stmt.cols stmt'.cols)
        (stmt.walked (.init toParams)).rows stmt'.rows := by
      rw [hwalked, hstmt']
      exact .cons (listed_aligned hmiddle hcols hlisted (grows_appendDefaults hdefaults) hmade hfit) .nil
    have hsame : final.rewrite = false → stmt' = stmt := by
      intro hrewrite
      obtain ⟨hempty, hback⟩ := listed_eq hlisted hdefaults (rewrite_listedStart _) hrewrite
      have hwalk := (walked_eq_iff hselect (.init toParams)).mpr (finds_of_not_rewrite hgrows hrewrite)
      rw [hstmt', hempty, hback]
      simp only [List.map_nil, List.append_nil, ← hrow]
      exact (walked_some hselect _).symm.trans hwalk
    have hmode : final.rewriteToParams = toParams := hgrows.mode.trans (mode_walkSource source)
    rw [aligned_iff_of_made hwf hattrs hresult hmode hframe hmadeRows, hwalked, and_iff_right hsame,
      and_iff_right hfit]
    simp only [List.forall_mem_singleton]
  · refine iff_of_false ?_ (fun h => hfit h.1)
    rintro ⟨stmt'', final', rewrite', hresult', -, -, haligned⟩
    rw [hresult, Option.some.injEq] at hresult'
    cases hresult'
    have hrowsAligned := haligned attrs hattrs
    rw [hwalked, hstmt'] at hrowsAligned
    cases hrowsAligned with
    | cons hrowAligned _ =>
      exact hfit fun hne => length_of_aligned hmiddle hcols hmade.length_eq.symm hne hrowAligned

/-- Rows with a column list. -/
theorem aligned_listed_iff (hwf : stmt.WellFormed master) (hselect : stmt.selectStmt = some source)
    (hrows : source.valuesLists ≠ []) (hattrs : master.relcache stmt.relname = some attrs)
    (hcols : stmt.cols ≠ []) : Aligned master toParams stmt ↔ Alignable master toParams stmt attrs := by
  have hresult := @rewriteTimestampInsert_listed _ _ toParams _ _ hselect hrows hattrs hcols
  rw [alignable_walked_iff toParams stmt attrs (.init toParams), walked_rows hselect (.init toParams)]
  obtain ⟨row, more, hmore⟩ : ∃ row more,
      (walkSource source (.init toParams)).1.valuesLists = row :: more := by
    refine List.exists_cons_of_ne_nil ?_
    have hempty : (walkSource source (.init toParams)).1.valuesLists.isEmpty = false :=
      not_isEmpty_walked hrows
    simpa using hempty
  rw [hmore] at hresult ⊢
  cases more with
  | cons second more =>
    -- the list of the appended columns is freed with the first row
    refine iff_of_false (not_aligned_of_none (by rw [hresult]; rfl)) ?_
    rintro ⟨-, hsingle, -⟩
    exact absurd (hsingle hcols) (by simp)
  | nil =>
    cases hlisted : rewriteListed master attrs (listedNames attrs stmt.cols) row
        (listedStart attrs stmt.cols (walkSource source (.init toParams)).2) with
    | none =>
      refine iff_of_false (not_aligned_of_none ?_) ?_
      · rw [hresult, rewriteListedRows, hlisted]
        rfl
      · rintro ⟨hfits, -⟩
        have hknown := ((rowFits_listed_iff hcols).mp (hfits row List.mem_cons_self)).1
        have hsome : (rewriteListed master attrs (listedNames attrs stmt.cols) row
            (listedStart attrs stmt.cols (walkSource source (.init toParams)).2)).isSome = true :=
          isSome_rewriteListed_take _ (known_names hknown)
        rw [hlisted] at hsome
        cases hsome
    | some out =>
      have hknown := known_cols (known_of_rewriteListed hlisted)
      rw [aligned_listedRow_iff hwf hselect hrows hattrs hcols hmore hlisted rfl]
      simp only [List.forall_mem_singleton, rowFits_listed_iff hcols]
      constructor
      · rintro ⟨hfit, hanswered⟩
        exact ⟨⟨hknown, hfit⟩, fun _ => Nat.le_refl 1, hanswered, fun h => absurd h hcols⟩
      · rintro ⟨⟨-, hfit⟩, -, hanswered, -⟩
        exact ⟨hfit, hanswered⟩

/-- What it takes for an INSERT to stay aligned: with rows of values, the columns of the table, or no call
of the clock. -/
def CanAlign (master : Master) (toParams : Bool) (stmt : InsertStmt) : Prop :=
  stmt.rows = [] ∨
    match master.relcache stmt.relname with
    | some attrs => Alignable master toParams stmt attrs
    | none => stmt.selectStmt.elim false InsertSource.finds = false

/-- `rewrite_timestamp_insert` stays inside its arrays, keeps the rows aligned and leaves alone what it does
not rewrite exactly if the statement can be aligned. -/
theorem aligned_iff (hwf : stmt.WellFormed master) :
    Aligned master toParams stmt ↔ CanAlign master toParams stmt := by
  unfold CanAlign
  cases hselect : stmt.selectStmt with
  | none =>
    rw [or_iff_right (by rw [rows_none hselect]; nofun)]
    cases hattrs : master.relcache stmt.relname with
    | some attrs => exact aligned_bare_iff hwf hselect hattrs
    | none =>
      refine iff_of_true ?_ rfl
      have hresult : rewriteTimestampInsert master stmt (.init toParams) =
          some (stmt, .init toParams, false) := by
        simp only [rewriteTimestampInsert, hselect, hattrs]
      refine ⟨_, _, _, hresult, fun _ => rfl, by rw [walked_none hselect], fun attrs hattrs' => ?_⟩
      rw [hattrs] at hattrs'
      cases hattrs'
  | some source =>
    have hrows : stmt.rows = source.valuesLists := by
      unfold InsertStmt.rows
      rw [hselect]
      rfl
    rw [hrows]
    by_cases hquery : source.valuesLists = []
    · exact iff_of_true (aligned_query hselect hquery) (.inl hquery)
    · rw [or_iff_right hquery]
      cases hattrs : master.relcache stmt.relname with
      | none => exact aligned_unknown_iff hselect hquery hattrs
      | some attrs =>
        by_cases hcols : stmt.cols = []
        · exact aligned_rows_iff hwf hselect hquery hattrs hcols
        · exact aligned_listed_iff hwf hselect hquery hattrs hcols

/-- `INSERT INTO t (a) VALUES (1), (2), ...`. -/
def insertRows (n : Nat) : InsertStmt where
  relname := "t"
  cols := [⟨"a", [], .null⟩]
  selectStmt := some ⟨[], List.replicate n [.const (.integer 1)], []⟩
  returningList := []

theorem insertRows_wellFormed (n : Nat) : (insertRows n).WellFormed plainMaster where
  apart := by
    rintro attrs ⟨⟩
    decide
  bare := nofun
  values := by
    rintro source ⟨⟩ hmem
    cases List.eq_of_mem_replicate hmem

theorem aligned_oneRow : Aligned plainMaster false (insertRows 1) := by
  have hplain : ∀ attr ∈ ([⟨"a", "", false⟩, ⟨"b", "", false⟩] : List TSAttr),
      attr.useTimestamp = false := by decide
  refine (aligned_iff (insertRows_wellFormed 1)).mpr (.inr ⟨?_, fun _ => by decide, ?_, nofun⟩)
  · intro row hrow
    rw [List.mem_singleton.mp hrow]
    refine ⟨?_, fun _ => rfl⟩
    decide
  · intro _ row _ attr hattr htime
    rw [hplain attr hattr] at htime
    cases htime

/-- The list of the columns that have been appended is freed with each row. -/
theorem not_aligned_twoRows :
    (insertRows 2).WellFormed plainMaster ∧ ¬Aligned plainMaster false (insertRows 2) := by
  refine ⟨insertRows_wellFormed 2, ?_⟩
  rintro ⟨stmt', final, rewrite, hresult, -⟩
  have hnone : rewriteTimestampInsert plainMaster (insertRows 2) (.init false) = none := rfl
  rw [hnone] at hresult
  cases hresult

end Timestamp

end PgPool
