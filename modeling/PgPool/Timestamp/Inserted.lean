import PgPool.Timestamp.Aligned

/-!
# The rows of an INSERT

What the loops of `rewrite_timestamp_insert` make of a row without and with a column list, and when the
whole statement stays aligned.
-/

namespace PgPool

namespace Timestamp

open PgPool.Timestamp.Tree

variable {master : Master} {ctx ctx₁ final : Ctx} {attrs : List TSAttr} {attr : TSAttr}
  {cols : List ResTarget} {row row' : List Tree}

/-! ## Values by position -/

theorem getElem?_assign (attrs : List TSAttr) (vals : List Tree) (i : Nat) :
    (assign attrs vals)[i]? = attrs[i]?.map fun attr => (attr, vals[i]?) := by
  induction attrs generalizing vals i with
  | nil => rfl
  | cons attr attrs ih =>
    cases vals with
    | nil =>
      cases i with
      | zero => rfl
      | succ i => exact ih [] i
    | cons val vals =>
      cases i with
      | zero => rfl
      | succ i => exact ih vals i

theorem length_assign (attrs : List TSAttr) (vals : List Tree) :
    (assign attrs vals).length = attrs.length := by
  induction attrs generalizing vals with
  | nil => rfl
  | cons attr attrs ih =>
    cases vals with
    | nil => exact congrArg Nat.succ (ih [])
    | cons val vals => exact congrArg Nat.succ (ih vals)

theorem columnAt_nil (hapart : (attrs.map TSAttr.attrname).Nodup) (i : Nat) :
    columnAt attrs [] i = attrs[i]? := by
  unfold columnAt columnNames
  rw [List.isEmpty_nil, if_pos rfl, List.getElem?_map]
  cases hattr : attrs[i]? with
  | none => rfl
  | some attr => exact find?_attr hapart (List.mem_of_getElem? hattr)

theorem RowPlaced.length_eq {isOwn : TSAttr → Tree → Prop} (h : RowPlaced isOwn attrs row row') :
    row'.length = attrs.length := by
  rw [← List.Forall₂.length_eq h, length_assign]

theorem RowPlaced.at {isOwn : TSAttr → Tree → Prop} (h : RowPlaced isOwn attrs row row') {i : Nat}
    (hattr : attrs[i]? = some attr) :
    ∃ val, row'[i]? = some val ∧ Placed isOwn attr row[i]? val := by
  have hi : i < row'.length := by
    rw [h.length_eq]
    exact (List.getElem?_eq_some_iff.mp hattr).1
  have hassign : (assign attrs row)[i]? = some (attr, row[i]?) := by
    rw [getElem?_assign, hattr]
    rfl
  obtain ⟨hi', heq⟩ := List.getElem?_eq_some_iff.mp hassign
  have hplaced := (List.forall₂_iff_get.mp h).2 i hi' hi
  simp only [List.get_eq_getElem, heq] at hplaced
  exact ⟨_, List.getElem?_eq_getElem hi, hplaced⟩

theorem mem_drop_iff {α : Type} {n : Nat} {as : List α} {a : α} :
    a ∈ as.drop n ↔ ∃ i, n ≤ i ∧ as[i]? = some a := by
  rw [List.mem_iff_getElem?]
  constructor
  · intro ⟨i, hi⟩
    rw [List.getElem?_drop] at hi
    exact ⟨n + i, Nat.le_add_right _ _, hi⟩
  · intro ⟨i, hle, hi⟩
    refine ⟨i - n, ?_⟩
    rwa [List.getElem?_drop, Nat.add_sub_cancel' hle]

/-- Without a column list the pairs are by position. -/
theorem RowPlaced.aligned {isOwn : TSAttr → Tree → Prop} (hapart : (attrs.map TSAttr.attrname).Nodup)
    (hlen : row.length ≤ attrs.length) (h : RowPlaced isOwn attrs row row') :
    RowAligned isOwn attrs [] [] row row' where
  kept i val hval := by
    have hi : i < attrs.length := Nat.lt_of_lt_of_le (List.getElem?_eq_some_iff.mp hval).1 hlen
    have hattr := List.getElem?_eq_getElem hi
    obtain ⟨val', hval', hplaced⟩ := h.at hattr
    refine ⟨rfl, val', hval', ?_⟩
    rw [columnAt_nil hapart, hattr]
    rwa [hval] at hplaced
  added i val' hi hval' := by
    have hlt : i < attrs.length := h.length_eq ▸ (List.getElem?_eq_some_iff.mp hval').1
    have hattr := List.getElem?_eq_getElem hlt
    obtain ⟨val, hval, hplaced⟩ := h.at hattr
    rw [hval', Option.some.injEq] at hval
    subst hval
    rw [List.getElem?_eq_none hi] at hplaced
    refine ⟨attrs[i], List.getElem_mem hlt, ?_, mem_drop_iff.mpr ⟨i, hi, hattr⟩, hplaced⟩
    change (attrs.map TSAttr.attrname)[i]? = _
    rw [List.getElem?_map, hattr]
    rfl
  filled attr _ htime homits := by
    obtain ⟨i, hi, hattr⟩ := mem_drop_iff.mp homits
    obtain ⟨val', hval', hplaced⟩ := h.at hattr
    rw [List.getElem?_eq_none hi] at hplaced
    refine ⟨i, val', hi, hval', ?_, hplaced.own htime rfl⟩
    change (attrs.map TSAttr.attrname)[i]? = _
    rw [List.getElem?_map, hattr]
    rfl

/-- With more values than columns the array is read past its end. -/
theorem length_le_of_rewriteRow {vals vals' : List Tree}
    (h : rewriteRow master attrs vals ctx = some (vals', ctx₁)) : vals.length ≤ attrs.length := by
  induction vals generalizing attrs ctx vals' with
  | nil => exact Nat.zero_le _
  | cons val vals ih =>
    obtain ⟨attr, attrs, new, rfl, rfl, hrest⟩ := rewriteRow_cons h
    exact Nat.succ_le_succ (ih hrest)

theorem length_le_of_rewriteRows {rows rows' : List (List Tree)}
    (h : rewriteRows master attrs rows ctx = some (rows', ctx₁)) :
    ∀ row ∈ rows, row.length ≤ attrs.length := by
  induction rows generalizing ctx rows' with
  | nil => nofun
  | cons row rows ih =>
    obtain ⟨row', new, middle, rfl, hrow, hrest⟩ := rewriteRows_cons h
    rw [List.forall_mem_cons]
    exact ⟨length_le_of_rewriteRow hrow, ih hrest⟩

/-! ## Nothing to rewrite -/

/-- No time column gets its default. -/
def AllGiven (given : List (TSAttr × Option Tree)) : Prop :=
  ∀ p ∈ given, p.1.useTimestamp = true → leftToDefault p.2 = false

theorem replaceDefault_given {val : Tree} (h : attr.useTimestamp = true → val.isDefault = false) :
    replaceDefault master attr val ctx = (val, ctx) := by
  unfold replaceDefault
  cases htime : attr.useTimestamp with
  | true => rw [h htime]; rfl
  | false => rfl

theorem fillColumns_given (h : AllGiven (assign attrs [])) : (fillColumns master attrs ctx).2 = ctx := by
  induction attrs generalizing ctx with
  | nil => rfl
  | cons attr attrs ih =>
    have hattr := h _ List.mem_cons_self
    have hrest : AllGiven (assign attrs []) := fun p hp => h p (List.mem_cons_of_mem _ hp)
    cases htime : attr.useTimestamp with
    | true => cases hattr htime
    | false => simpa [fillColumns, htime] using ih hrest

theorem rewriteRow_given {vals vals' : List Tree} (hgiven : AllGiven (assign attrs vals))
    (h : rewriteRow master attrs vals ctx = some (vals', ctx₁)) : ctx₁ = ctx := by
  induction vals generalizing attrs ctx vals' with
  | nil =>
    have hsame : (fillColumns master attrs ctx).2 = ctx := fillColumns_given hgiven
    rw [rewriteRow, Option.some.injEq] at h
    rwa [h] at hsame
  | cons val vals ih =>
    obtain ⟨attr, attrs, new, rfl, rfl, hnext⟩ := rewriteRow_cons h
    have hrest : AllGiven (assign attrs vals) := fun p hp => hgiven p (List.mem_cons_of_mem _ hp)
    rw [replaceDefault_given (hgiven _ List.mem_cons_self)] at hnext
    exact ih hrest hnext

theorem rewriteRows_given {rows rows' : List (List Tree)}
    (hgiven : ∀ row ∈ rows, AllGiven (assign attrs row))
    (h : rewriteRows master attrs rows ctx = some (rows', ctx₁)) : ctx₁ = ctx := by
  induction rows generalizing ctx rows' with
  | nil =>
    cases h
    rfl
  | cons row rows ih =>
    obtain ⟨row', new, middle, rfl, hrow, hrest⟩ := rewriteRows_cons h
    rw [ih (fun row hrow => hgiven row (List.mem_cons_of_mem _ hrow)) hrest]
    exact rewriteRow_given (hgiven row List.mem_cons_self) hrow

/-- A column that gets its default, without a column list. -/
theorem leftOut_nil_iff (hapart : (attrs.map TSAttr.attrname).Nodup) :
    LeftOut attrs [] row attr ↔ ∃ i : Nat, attrs[i]? = some attr ∧ leftToDefault row[i]? = true := by
  constructor
  · rintro (homits | ⟨i, val, hval, hdefault, hcolumn⟩)
    · obtain ⟨i, hi, hattr⟩ := mem_drop_iff.mp homits
      refine ⟨i, hattr, ?_⟩
      rw [List.getElem?_eq_none hi]
      rfl
    · rw [columnAt_nil hapart] at hcolumn
      refine ⟨i, hcolumn, ?_⟩
      rw [hval]
      exact hdefault
  · intro ⟨i, hattr, hleft⟩
    cases hval : row[i]? with
    | none =>
      exact .inl (mem_drop_iff.mpr ⟨i, List.getElem?_eq_none_iff.mp hval, hattr⟩)
    | some val =>
      rw [hval] at hleft
      exact .inr ⟨i, val, hval, hleft, (columnAt_nil hapart i).trans hattr⟩

theorem allGiven_assign (hapart : (attrs.map TSAttr.attrname).Nodup)
    (h : ∀ attr ∈ attrs, attr.useTimestamp = true → ¬LeftOut attrs [] row attr) :
    AllGiven (assign attrs row) := by
  intro p hp htime
  obtain ⟨i, hi⟩ := List.mem_iff_getElem?.mp hp
  rw [getElem?_assign, Option.map_eq_some_iff] at hi
  obtain ⟨attr, hattr, rfl⟩ := hi
  by_contra hleft
  exact h attr (List.mem_of_getElem? hattr) htime
    ((leftOut_nil_iff hapart).mpr ⟨i, hattr, by simpa using hleft⟩)

/-! ## With a column list -/

theorem mem_appendColumns {cols : List ResTarget} : attr ∈ appendColumns attrs cols ↔
    attr ∈ attrs ∧ attr.useTimestamp = true ∧ attr.attrname ∉ cols.map ResTarget.name := by
  unfold appendColumns
  rw [List.mem_filter, Bool.and_eq_true, Bool.not_eq_true', List.any_eq_false]
  refine and_congr_right fun _ => and_congr_right fun _ => ?_
  constructor
  · intro hnone hmem
    obtain ⟨col, hcol, hname⟩ := List.mem_map.mp hmem
    exact hnone col hcol (beq_iff_eq.mpr hname.symm)
  · intro hmem col hcol heq
    exact hmem (List.mem_map.mpr ⟨col, hcol, (beq_iff_eq.mp heq).symm⟩)

theorem names_append (cols : List ResTarget) (appended : List TSAttr) :
    (cols ++ appended.map appendedTarget).map ResTarget.name =
      cols.map ResTarget.name ++ appended.map TSAttr.attrname := by
  simp [Function.comp_def, appendedTarget]

theorem columnNames_list (hcols : cols ≠ []) : columnNames attrs cols = cols.map ResTarget.name := by
  unfold columnNames
  exact if_neg (by simpa using hcols)

theorem omits_list (hcols : cols ≠ []) :
    Omits attrs cols row attr ↔ attr.attrname ∉ cols.map ResTarget.name := by
  unfold Omits
  rw [if_neg (by simpa using hcols)]

/-- What the loop over the list makes of a value. -/
theorem rewriteListed_at {names : List String} {vals vals' : List Tree}
    (h : rewriteListed master attrs names vals ctx = some (vals', ctx₁)) (hlast : Grows ctx₁ final)
    {i : Nat} {val : Tree} (hval : vals[i]? = some val) :
    ∃ val', vals'[i]? = some val' ∧
      match names[i]? with
      | some name => ∃ attr, (attrs.find? fun attr => attr.attrname == name) = some attr ∧
          Placed (Made master final) attr (some val) val'
      | none => val' = val := by
  induction vals generalizing names ctx vals' i with
  | nil => cases hval
  | cons first vals ih =>
    cases names with
    | nil =>
      cases h
      exact ⟨val, hval, rfl⟩
    | cons name names =>
      obtain ⟨attr, new, hfind, rfl, hrest⟩ := rewriteListed_cons h
      cases i with
      | zero =>
        cases hval
        have hgrows : Grows (replaceDefault master attr val ctx).2 ctx₁ :=
          (pass_grows master).rewriteListed hrest
        exact ⟨_, rfl, attr, hfind, placed_replaceDefault (hgrows.trans hlast)⟩
      | succ i => exact ih hrest hval

theorem known_of_rewriteListed {names : List String} {vals vals' : List Tree}
    (h : rewriteListed master attrs names vals ctx = some (vals', ctx₁)) :
    ∀ name ∈ names.take vals.length, name ∈ attrs.map TSAttr.attrname := by
  intro name hname
  obtain ⟨i, hi⟩ := List.mem_iff_getElem?.mp hname
  rw [List.getElem?_take] at hi
  split at hi
  · next hlt =>
    obtain ⟨val', hval', hplaced⟩ := rewriteListed_at h (.refl _) (List.getElem?_eq_getElem hlt)
    rw [hi] at hplaced
    obtain ⟨attr, hfind, -⟩ := hplaced
    refine List.mem_map.mpr ⟨attr, List.mem_of_find?_eq_some hfind, ?_⟩
    simpa using List.find?_some hfind
  · cases hi

theorem made_appendDefaults {appended : List TSAttr}
    (hlast : Grows (appendDefaults master appended ctx).2 final)
    (hrewrite : appended ≠ [] → final.rewrite = true) :
    List.Forall₂ (Made master final) appended (appendDefaults master appended ctx).1 := by
  induction appended generalizing ctx with
  | nil => exact .nil
  | cons attr appended ih =>
    have hgrows : Grows (makeDefault master attr ctx).2
        (appendDefaults master appended (makeDefault master attr ctx).2).2 :=
      (pass_grows master).appendDefaults appended
    have hfinal := hrewrite (List.cons_ne_nil _ _)
    exact .cons (made_makeDefault master (hgrows.trans hlast) hfinal) (ih hlast fun _ => hfinal)

theorem forall₂_at {α β : Type} {R : α → β → Prop} {as : List α} {bs : List β}
    (h : List.Forall₂ R as bs) {i : Nat} {b : β} (hb : bs[i]? = some b) :
    ∃ a, as[i]? = some a ∧ R a b := by
  obtain ⟨hi, rfl⟩ := List.getElem?_eq_some_iff.mp hb
  have hi' : i < as.length := by rwa [h.length_eq]
  exact ⟨as[i], List.getElem?_eq_getElem hi', (List.forall₂_iff_get.mp h).2 i hi' hi⟩

/-- The columns that are added stand behind the listed ones. -/
theorem columnNames_appended (hcols : cols ≠ []) (appended : List TSAttr) (j : Nat) :
    (columnNames attrs (cols ++ appended.map appendedTarget))[cols.length + j]? =
      (appended[j]?).map TSAttr.attrname := by
  have hcols' : cols ++ appended.map appendedTarget ≠ [] := by simp [hcols]
  have hlen : (cols.map ResTarget.name).length = cols.length := List.length_map _
  rw [columnNames_list hcols', names_append, ← hlen, List.getElem?_append_right (Nat.le_add_right _ _),
    Nat.add_sub_cancel_left, List.getElem?_map]

section

variable {middle defaults : List Tree}
  (hmiddle : middle.length = row.length)

include hmiddle

/-- The loop over the list, and the defaults behind it. -/
theorem listed_aligned (hcols : cols ≠ [])
    (hlisted : rewriteListed master attrs
      ((cols ++ (appendColumns attrs cols).map appendedTarget).map ResTarget.name) row ctx =
        some (middle, ctx₁))
    (hlast : Grows ctx₁ final)
    (hdefaults : List.Forall₂ (Made master final) (appendColumns attrs cols) defaults)
    (hlen : appendColumns attrs cols ≠ [] → row.length = cols.length) :
    RowAligned (Made master final) attrs cols (cols ++ (appendColumns attrs cols).map appendedTarget) row
      (middle ++ defaults) := by
  have hcols' : cols ++ (appendColumns attrs cols).map appendedTarget ≠ [] := by simp [hcols]
  have hnames := names_append cols (appendColumns attrs cols)
  refine ⟨?_, ?_, ?_⟩
  · intro i val hval
    have hi : i < row.length := (List.getElem?_eq_some_iff.mp hval).1
    obtain ⟨val', hval', hplaced⟩ := rewriteListed_at hlisted hlast hval
    have hsame : ((cols ++ (appendColumns attrs cols).map appendedTarget).map ResTarget.name)[i]? =
        (cols.map ResTarget.name)[i]? := by
      rw [hnames]
      by_cases happended : appendColumns attrs cols = []
      · rw [happended, List.map_nil, List.append_nil]
      · have hlist := hlen happended
        rw [List.getElem?_append_left (by rw [List.length_map]; omega)]
    rw [hsame] at hplaced
    rw [columnNames_list hcols', columnNames_list hcols]
    refine ⟨hsame, val', ?_, ?_⟩
    · rw [List.getElem?_append_left (by omega), hval']
    · unfold columnAt
      rw [columnNames_list hcols]
      cases hname : (cols.map ResTarget.name)[i]? with
      | none =>
        rw [hname] at hplaced
        exact hplaced
      | some name =>
        rw [hname] at hplaced
        obtain ⟨attr, hfind, hplaced⟩ := hplaced
        rw [Option.bind_some, hfind]
        exact hplaced
  · intro i val' hi hval'
    rw [List.getElem?_append_right (by omega)] at hval'
    obtain ⟨attr, hattr, hmade⟩ := forall₂_at hdefaults hval'
    have hmem := List.mem_of_getElem? hattr
    obtain ⟨hmem', htime, hunlisted⟩ := mem_appendColumns.mp hmem
    have hlist := hlen (List.ne_nil_of_mem hmem)
    refine ⟨attr, hmem', ?_, (omits_list hcols).mpr hunlisted, ?_⟩
    · have hname := @columnNames_appended attrs _ hcols (appendColumns attrs cols) (i - middle.length)
      have hplace : cols.length + (i - middle.length) = i := by omega
      rw [hattr, hplace] at hname
      exact hname
    · unfold Placed
      rwa [htime]
  · intro attr hmem htime homits
    have happended := mem_appendColumns.mpr ⟨hmem, htime, (omits_list hcols).mp homits⟩
    have hlist := hlen (List.ne_nil_of_mem happended)
    obtain ⟨j, hj⟩ := List.mem_iff_getElem?.mp happended
    obtain ⟨val', hval', hmade⟩ := forall₂_at hdefaults.flip hj
    refine ⟨row.length + j, val', Nat.le_add_right _ _, ?_, ?_, hmade⟩
    · rw [← hmiddle, List.getElem?_append_right (Nat.le_add_right _ _), Nat.add_sub_cancel_left]
      exact hval'
    · rw [hlist, columnNames_appended hcols, hj]
      rfl

/-- Columns that are added to a list that is not as long as the row get the wrong values. -/
theorem length_of_aligned {isOwn : TSAttr → Tree → Prop} (hcols : cols ≠ [])
    (hdefaults : defaults.length = (appendColumns attrs cols).length)
    (happended : appendColumns attrs cols ≠ [])
    (h : RowAligned isOwn attrs cols (cols ++ (appendColumns attrs cols).map appendedTarget) row
      (middle ++ defaults)) : row.length = cols.length := by
  have hcols' : cols ++ (appendColumns attrs cols).map appendedTarget ≠ [] := by simp [hcols]
  have hpos := List.length_pos_iff.mpr happended
  have hnames := names_append cols (appendColumns attrs cols)
  rcases Nat.lt_trichotomy row.length cols.length with hshort | heq | hlong
  · -- the first default stands for a column of the list
    have hlt : row.length < (middle ++ defaults).length := by
      rw [List.length_append]
      omega
    obtain ⟨attr, -, hname, homits, -⟩ :=
      h.added row.length _ (Nat.le_refl _) (List.getElem?_eq_getElem hlt)
    rw [columnNames_list hcols', hnames, List.getElem?_append_left (by rwa [List.length_map])] at hname
    exact absurd (List.mem_of_getElem? hname) ((omits_list hcols).mp homits)
  · exact heq
  · -- a value without a column gets the first one that is added
    obtain ⟨hname, -⟩ := h.kept cols.length _ (List.getElem?_eq_getElem hlong)
    have hnone : (cols.map ResTarget.name)[cols.length]? = none :=
      List.getElem?_eq_none (by rw [List.length_map])
    rw [columnNames_list hcols', columnNames_list hcols, hnone, hnames, List.getElem?_eq_none_iff,
      List.length_append, List.length_map, List.length_map] at hname
    omega

end

end Timestamp

end PgPool
