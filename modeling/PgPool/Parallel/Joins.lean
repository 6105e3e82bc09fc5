import PgPool.Lib.Arrays
import Mathlib.Data.List.Perm.Subperm
import Mathlib.Data.List.Dedup

/-!
# The columns of a join

In parallel mode the columns of a join are written down when the query is analysed, with the table that each
column is from.  A join with `USING`, or `NATURAL`, has each joined column once.
-/

namespace PgPool.Parallel

open Arrays

/-! ## The code -/

/-- A column of a `JoinTable`. -/
structure Column where
  name : String
  type : String
  table : Option String
  deriving DecidableEq, Repr

/-- A column of the right side, which has a table for all of them. -/
structure RangeColumn where
  name : String
  type : String
  deriving DecidableEq, Repr

def RangeColumn.column (c : RangeColumn) (tableName : Option String) : Column := ⟨c.name, c.type, tableName⟩

/-- The work arrays. -/
inductive WorkArray where
  | same
  | lvalid
  | rvalid
  | linvalid
  deriving DecidableEq

/-- The sizes in `append_join_using`. -/
def usingRoom (left right : Nat) : WorkArray → Nat
  | .rvalid => right
  | .same | .lvalid | .linvalid => left

/-- `append_join_using`.  `none`: an array is overrun. -/
def appendJoinUsing (left : List Column) (using' : List String) (right : List RangeColumn)
    (tableName : Option String) : Option (List Column) := do
  let room := usingRoom left.length right.length
  let a ← left.zipIdx.foldlM (fun a p => using'.foldlM (fun a colname =>
      if p.1.name = colname then write room a (.same, p.2) else write room a (.lvalid, p.2)) a) fun _ => []
  let a ← right.zipIdx.foldlM (fun a p => using'.foldlM (fun a colname =>
      if p.1.name = colname then some a else write room a (.rvalid, p.2)) a) a
  let same ← (a .same).mapM fun i => left[i]?
  let lvalid ← (a .lvalid).mapM fun i => left[i]?
  let rvalid ← (a .rvalid).mapM fun i => right[i]?
  some (same ++ lvalid ++ rvalid.map (RangeColumn.column · tableName))

/-- The inner loop of `append_join_natural`: how many columns have the name, and the last of them, which is
not read where there is none. -/
def matchColumn (right : List RangeColumn) (colname : String) : Nat × Nat :=
  right.zipIdx.foldl (fun found p => if p.1.name = colname then (found.1 + 1, p.2) else found) (0, 0)

/-- The sizes in `append_join_natural`. -/
def naturalRoom (left right : Nat) : WorkArray → Nat
  | .same | .rvalid => left + 1
  | .linvalid | .lvalid => right + 1

/-- The outer loop over the columns of the left side. -/
def sortColumn (right : List RangeColumn) (room : WorkArray → Nat) (a : WorkArray → List Nat)
    (p : Column × Nat) : Option (WorkArray → List Nat) :=
  let (found, array) := matchColumn right p.1.name
  if found = 0 then write room a (.rvalid, p.2)
  else if found = 1 then (write room a (.same, p.2)).bind fun a => write room a (.linvalid, array)
  else some a

/-- The table that a column of the left side is written down with. -/
def Column.retable (tableName : Option String) (c : Column) : Column :=
  match tableName with
  | some tableName => { c with table := some tableName }
  | none => c

/-- `append_join_natural`.  `none`: an array is overrun, one of the new table included. -/
def appendJoinNatural (left : List Column) (right : List RangeColumn) (tableName : Option String) :
    Option (List Column) := do
  let room := naturalRoom left.length right.length
  let a ← left.zipIdx.foldlM (sortColumn right room) fun _ => []
  let total := (a .same).length + (a .rvalid).length + right.length - (a .linvalid).length
  let linvalid := a .linvalid
  let a ← (List.range right.length).foldlM (fun a k =>
      if k ∈ linvalid then some a else write room a (.lvalid, k)) a
  if total < (a .same).length + (a .rvalid).length + (a .lvalid).length then none
  else
    let same ← (a .same).mapM fun i => left[i]?
    let rvalid ← (a .rvalid).mapM fun i => left[i]?
    let lvalid ← (a .lvalid).mapM fun i => right[i]?
    some (same.map (Column.retable tableName) ++ rvalid.map (Column.retable tableName) ++
      lvalid.map (RangeColumn.column · tableName))

/-! ## What SQL defines -/

/-- A name stands for one column on either side. -/
def Common (left : List Column) (right : List RangeColumn) (name : String) : Prop :=
  (left.map Column.name).count name = 1 ∧ (right.map RangeColumn.name).count name = 1

instance (left : List Column) (right : List RangeColumn) (name : String) : Decidable (Common left right name) :=
  inferInstanceAs (Decidable (_ ∧ _))

/-- `USING` with these names is a join: they are distinct, and each stands for one column on either side. -/
def UsingJoins (left : List Column) (using' : List String) (right : List RangeColumn) : Prop :=
  using' ≠ [] ∧ using'.Nodup ∧ ∀ name ∈ using', Common left right name

instance (left : List Column) (using' : List String) (right : List RangeColumn) :
    Decidable (UsingJoins left using' right) := inferInstanceAs (Decidable (_ ∧ _ ∧ _))

/-- The columns of a join with `USING`. -/
def usingColumns (left : List Column) (using' : List String) (right : List RangeColumn)
    (tableName : Option String) : List Column :=
  using'.filterMap (fun name => left.find? fun c => c.name = name) ++
    left.filter (fun c => c.name ∉ using') ++
    (right.filter fun c => c.name ∉ using').map (RangeColumn.column · tableName)

/-- `NATURAL` is a join: a name on both sides stands for one column on either. -/
def NaturalJoins (left : List Column) (right : List RangeColumn) : Prop :=
  ∀ name ∈ left.map Column.name, name ∈ right.map RangeColumn.name → Common left right name

instance (left : List Column) (right : List RangeColumn) : Decidable (NaturalJoins left right) :=
  inferInstanceAs (Decidable (∀ name ∈ left.map Column.name, _ → _))

/-- A joined column is from both tables, and may be written down with either. -/
def Joined (tableName : Option String) (c d : Column) : Prop := d = c ∨ d = { c with table := tableName }

/-- The columns of a natural join. -/
def NaturalColumns (left : List Column) (right : List RangeColumn) (tableName : Option String)
    (columns : List Column) : Prop :=
  ∃ joined, List.Forall₂ (Joined tableName)
      (left.filter fun c => c.name ∈ right.map RangeColumn.name) joined ∧
    columns = joined ++ left.filter (fun c => c.name ∉ right.map RangeColumn.name) ++
      (right.filter fun c => c.name ∉ left.map Column.name).map (RangeColumn.column · tableName)

/-- No array is overrun, and the columns are those of the join if it is one. -/
def Builds (result : Option (List Column)) (joins : Prop) (meant : List Column → Prop) : Prop :=
  ∃ columns, result = some columns ∧ (joins → meant columns)

/-! ## Conditions -/

/-- Each name is compared with each column, and each comparison is an entry of an array. -/
def UsingFits (left : List Column) (using' : List String) (right : List RangeColumn) : Prop :=
  (left.flatMap fun c => List.replicate (using'.count c.name) c).length ≤ left.length ∧
    (left.flatMap fun c => List.replicate (using'.length - using'.count c.name) c).length ≤ left.length ∧
    (right.flatMap fun c => List.replicate (using'.length - using'.count c.name) c).length ≤ right.length

/-- The columns of the left side for which there is one on the right. -/
def partners (left : List Column) (right : List RangeColumn) : List Column :=
  left.filter fun c => (right.map RangeColumn.name).count c.name = 1

/-- The other columns of the left side are from the table of the right side already. -/
def SameTable (left : List Column) (right : List RangeColumn) (tableName : Option String) : Prop :=
  tableName = none ∨ ∀ c ∈ left, c.name ∉ right.map RangeColumn.name → c.table = tableName

/-! ## Joins with `USING` -/

section

variable {left : List Column} {right : List RangeColumn} {using' : List String} {tableName : Option String}

/-- The entries for a column of the left side. -/
def leftEntries (using' : List String) (p : Column × Nat) : List (WorkArray × Nat) :=
  using'.map fun colname => if p.1.name = colname then (.same, p.2) else (.lvalid, p.2)

/-- The entries for a column of the right side. -/
def rightEntries (using' : List String) (p : RangeColumn × Nat) : List (WorkArray × Nat) :=
  using'.filterMap fun colname => if p.1.name = colname then none else some (.rvalid, p.2)

theorem sent_leftEntries (using' : List String) (p : Column × Nat) :
    sent (leftEntries using' p) .same = List.replicate (using'.count p.1.name) p.2 ∧
      sent (leftEntries using' p) .lvalid =
        List.replicate (using'.length - using'.count p.1.name) p.2 ∧
      sent (leftEntries using' p) .rvalid = [] := by
  induction using' with
  | nil => exact ⟨rfl, rfl, rfl⟩
  | cons u us ih =>
    obtain ⟨hsame, hlvalid, hrvalid⟩ := ih
    have hle := us.count_le_length (a := p.1.name)
    unfold leftEntries at *
    rw [List.map_cons, sent_cons, sent_cons, sent_cons, hsame, hlvalid, hrvalid, List.length_cons]
    by_cases hu : p.1.name = u
    · subst hu
      rw [List.count_cons_self, Nat.add_sub_add_right]
      simp [List.replicate_succ]
    · rw [List.count_cons_of_ne (Ne.symm hu), Nat.succ_sub hle]
      simp [hu, List.replicate_succ]

theorem sent_rightEntries (using' : List String) (p : RangeColumn × Nat) :
    sent (rightEntries using' p) .rvalid = List.replicate (using'.length - using'.count p.1.name) p.2 ∧
      ∀ w, w ≠ .rvalid → sent (rightEntries using' p) w = [] := by
  induction using' with
  | nil => exact ⟨rfl, fun _ _ => rfl⟩
  | cons u us ih =>
    obtain ⟨hrvalid, hother⟩ := ih
    have hle := us.count_le_length (a := p.1.name)
    unfold rightEntries at *
    by_cases hu : p.1.name = u
    · subst hu
      simp only [List.filterMap_cons, if_true, List.count_cons_self, List.length_cons, Nat.add_sub_add_right]
      exact ⟨hrvalid, hother⟩
    · simp only [List.filterMap_cons, hu, if_false, sent_cons, List.length_cons,
        List.count_cons_of_ne (Ne.symm hu), Nat.succ_sub hle, if_true, List.replicate_succ]
      exact ⟨congrArg _ hrvalid, fun w hw => (if_neg (Ne.symm hw)).trans (hother w hw)⟩

/-- All that the loops of `append_join_using` write. -/
def usingEntries (left : List Column) (using' : List String) (right : List RangeColumn) :
    List (WorkArray × Nat) :=
  left.zipIdx.flatMap (leftEntries using') ++ right.zipIdx.flatMap (rightEntries using')

theorem sent_usingEntries (left : List Column) (using' : List String) (right : List RangeColumn) :
    sent (usingEntries left using' right) .same =
        left.zipIdx.flatMap (fun p => List.replicate (using'.count p.1.name) p.2) ∧
      sent (usingEntries left using' right) .lvalid =
        left.zipIdx.flatMap (fun p => List.replicate (using'.length - using'.count p.1.name) p.2) ∧
      sent (usingEntries left using' right) .rvalid =
        right.zipIdx.flatMap (fun p => List.replicate (using'.length - using'.count p.1.name) p.2) := by
  have happend : ∀ w, sent (usingEntries left using' right) w =
      left.zipIdx.flatMap (fun p => sent (leftEntries using' p) w) ++
        right.zipIdx.flatMap (fun p => sent (rightEntries using' p) w) := by
    intro w
    rw [← sent_flatMap, ← sent_flatMap]
    exact List.filterMap_append
  have hnil : ∀ {α : Type} (l : List α), (l.flatMap fun _ => ([] : List Nat)) = [] := fun l => by simp
  refine ⟨?_, ?_, ?_⟩
  · simp only [happend, (sent_leftEntries _ _).1, (sent_rightEntries _ _).2 .same (by simp), hnil, List.append_nil]
  · simp only [happend, (sent_leftEntries _ _).2.1, (sent_rightEntries _ _).2 .lvalid (by simp), hnil,
      List.append_nil]
  · simp only [happend, (sent_leftEntries _ _).2.2, (sent_rightEntries _ _).1, hnil, List.nil_append]

/-- The loops of `append_join_using` write their entries. -/
theorem using_loops (room : WorkArray → Nat) :
    ((left.zipIdx.foldlM (fun a p => using'.foldlM (fun a colname =>
        if p.1.name = colname then write room a (.same, p.2) else write room a (.lvalid, p.2)) a)
          fun _ => []).bind fun a =>
      right.zipIdx.foldlM (fun a p => using'.foldlM (fun a colname =>
        if p.1.name = colname then some a else write room a (.rvalid, p.2)) a) a) =
      (usingEntries left using' right).foldlM (write room) fun _ => [] := by
  have hleft : ∀ (p : Column × Nat) a, using'.foldlM (fun a colname =>
      if p.1.name = colname then write room a (.same, p.2) else write room a (.lvalid, p.2)) a =
        (leftEntries using' p).foldlM (write room) a := by
    intro p a
    rw [leftEntries, List.foldlM_map]
    congr 1
    funext a colname
    split <;> rfl
  have hright : ∀ (p : RangeColumn × Nat) a, using'.foldlM (fun a colname =>
      if p.1.name = colname then some a else write room a (.rvalid, p.2)) a =
        (rightEntries using' p).foldlM (write room) a := by
    intro p a
    rw [rightEntries, List.foldlM_filterMap]
    congr 1
    funext a colname
    split <;> rfl
  rw [usingEntries, List.foldlM_append, foldlM_flatMap]
  simp only [hleft, hright, foldlM_flatMap]
  rfl

/-- The entries have room. -/
theorem usingFits_iff : UsingFits left using' right ↔
    ∀ w, (sent (usingEntries left using' right) w).length ≤ usingRoom left.length right.length w := by
  obtain ⟨hsame, hlvalid, hrvalid⟩ := sent_usingEntries left using' right
  have hcount := length_replicate left fun c => using'.count c.name
  have hleft := length_replicate left fun c => using'.length - using'.count c.name
  have hright := length_replicate right fun c => using'.length - using'.count c.name
  have hlinvalid : sent (usingEntries left using' right) .linvalid = [] := by
    refine List.filterMap_eq_nil_iff.mpr fun w hw => if_neg ?_
    rcases List.mem_append.mp hw with hw | hw
    · obtain ⟨p, -, hp⟩ := List.mem_flatMap.mp hw
      obtain ⟨u, -, rfl⟩ := List.mem_map.mp hp
      split <;> nofun
    · obtain ⟨p, -, hp⟩ := List.mem_flatMap.mp hw
      obtain ⟨u, -, hu⟩ := List.mem_filterMap.mp hp
      split at hu
      · cases hu
      · cases hu
        nofun
  unfold UsingFits
  constructor
  · rintro ⟨h1, h2, h3⟩ w
    cases w with
    | same => rw [hsame, hcount]; exact h1
    | lvalid => rw [hlvalid, hleft]; exact h2
    | rvalid => rw [hrvalid, hright]; exact h3
    | linvalid => rw [hlinvalid]; exact Nat.zero_le _
  · intro h
    have h1 := h .same
    have h2 := h .lvalid
    have h3 := h .rvalid
    rw [hsame, hcount] at h1
    rw [hlvalid, hleft] at h2
    rw [hrvalid, hright] at h3
    exact ⟨h1, h2, h3⟩

/-- What `append_join_using` returns. -/
theorem appendJoinUsing_eq_some {columns : List Column} :
    appendJoinUsing left using' right tableName = some columns ↔
      UsingFits left using' right ∧
        columns = left.flatMap (fun c => List.replicate (using'.count c.name) c) ++
          left.flatMap (fun c => List.replicate (using'.length - using'.count c.name) c) ++
          (right.flatMap fun c => List.replicate (using'.length - using'.count c.name) c).map
            (RangeColumn.column · tableName) := by
  have hcode : appendJoinUsing left using' right tableName =
      ((usingEntries left using' right).foldlM (write (usingRoom left.length right.length)) fun _ => []).bind
        fun a => ((a .same).mapM fun i => left[i]?).bind fun same =>
          ((a .lvalid).mapM fun i => left[i]?).bind fun lvalid =>
            ((a .rvalid).mapM fun i => right[i]?).bind fun rvalid =>
              some (same ++ lvalid ++ rvalid.map (RangeColumn.column · tableName)) := by
    rw [← using_loops, Option.bind_assoc]
    rfl
  obtain ⟨hsame, hlvalid, hrvalid⟩ := sent_usingEntries left using' right
  rw [hcode, usingFits_iff]
  constructor
  · intro h
    obtain ⟨a, ha, hrest⟩ := Option.bind_eq_some_iff.mp h
    obtain ⟨hfits, rfl⟩ := (foldlM_write_nil _).mp ha
    simp only [hsame, hlvalid, hrvalid, mapM_replicate left fun c => using'.count c.name,
      mapM_replicate left fun c => using'.length - using'.count c.name,
      mapM_replicate right fun c => using'.length - using'.count c.name, Option.bind_some] at hrest
    exact ⟨hfits, (Option.some.inj hrest).symm⟩
  · rintro ⟨hfits, rfl⟩
    rw [(foldlM_write_nil _).mpr ⟨hfits, rfl⟩]
    simp only [hsame, hlvalid, hrvalid, mapM_replicate left fun c => using'.count c.name,
      mapM_replicate left fun c => using'.length - using'.count c.name,
      mapM_replicate right fun c => using'.length - using'.count c.name, Option.bind_some]

/-- With one name, an entry is a column. -/
theorem flatMap_single {α : Type} (l : List α) (name : α → String) (u : String) :
    (l.flatMap fun c => List.replicate ([u].count (name c)) c) = l.filter (fun c => name c = u) ∧
      (l.flatMap fun c => List.replicate ([u].length - [u].count (name c)) c) =
        l.filter (fun c => name c ∉ [u]) := by
  induction l with
  | nil => exact ⟨rfl, rfl⟩
  | cons c l ih =>
    rw [List.flatMap_cons, List.flatMap_cons, ih.1, ih.2]
    by_cases hc : name c = u
    · simp [hc]
    · have hcount : [u].count (name c) = 0 := List.count_eq_zero.mpr (by simpa using hc)
      simp [hc, hcount]

theorem filter_eq_find {α : Type} {l : List α} {p : α → Bool} (h : (l.filter p).length = 1) :
    l.filter p = (l.find? p).toList := by
  rw [← List.head?_filter]
  obtain ⟨x, hx⟩ := List.length_eq_one_iff.mp h
  rw [hx]
  rfl

theorem length_filter_name {α : Type} (l : List α) (name : α → String) (u : String) :
    (l.filter fun c => name c = u).length = (l.map name).count u := by
  rw [List.count, List.countP_map, List.countP_eq_length_filter]
  congr 1

/-- `append_join_using` with one name. -/
theorem builds_single (u : String) : Builds (appendJoinUsing left [u] right tableName)
    (UsingJoins left [u] right) (· = usingColumns left [u] right tableName) := by
  obtain ⟨hsame, hlvalid⟩ := flatMap_single left Column.name u
  obtain ⟨-, hrvalid⟩ := flatMap_single right RangeColumn.name u
  refine ⟨_, appendJoinUsing_eq_some.mpr ⟨?_, rfl⟩, fun hjoins => ?_⟩
  · unfold UsingFits
    rw [hsame, hlvalid, hrvalid]
    exact ⟨List.length_filter_le _ _, List.length_filter_le _ _, List.length_filter_le _ _⟩
  · obtain ⟨hcount, -⟩ := hjoins.2.2 u List.mem_cons_self
    rw [hsame, hlvalid, hrvalid, usingColumns, filter_eq_find ((length_filter_name _ _ _).trans hcount)]
    congr 2

/-- With more names, there are too many columns. -/
theorem not_builds_using (hjoins : UsingJoins left using' right) (hmany : 2 ≤ using'.length) :
    ¬ Builds (appendJoinUsing left using' right tableName) (UsingJoins left using' right)
      (· = usingColumns left using' right tableName) := by
  rintro ⟨columns, hcolumns, hmeant⟩
  obtain ⟨-, heq⟩ := appendJoinUsing_eq_some.mp hcolumns
  have hlength := congrArg List.length (heq.symm.trans (hmeant hjoins))
  obtain ⟨hne, hnodup, hcommon⟩ := hjoins
  -- every column of the left side is there once for each name
  have hleft : ∀ l : List Column,
      (l.flatMap fun c => List.replicate (using'.count c.name) c).length +
        (l.flatMap fun c => List.replicate (using'.length - using'.count c.name) c).length =
          using'.length * l.length := by
    intro l
    induction l with
    | nil => rfl
    | cons c l ih =>
      have hle := using'.count_le_length (a := c.name)
      simp only [List.flatMap_cons, List.length_append, List.length_replicate, List.length_cons, Nat.mul_succ]
      omega
  have hright : ∀ l : List RangeColumn,
      l.length ≤ (l.flatMap fun c => List.replicate (using'.length - using'.count c.name) c).length := by
    intro l
    induction l with
    | nil => exact Nat.zero_le _
    | cons c l ih =>
      have hone := List.nodup_iff_count_le_one.mp hnodup c.name
      simp only [List.flatMap_cons, List.length_append, List.length_replicate, List.length_cons]
      omega
  have hnames : using'.length ≤ left.length := by
    have hsub : using' ⊆ left.map Column.name := fun u hu =>
      List.count_pos_iff.mp (by rw [(hcommon u hu).1]; exact Nat.one_pos)
    have hperm := (hnodup.subperm hsub).length_le
    rwa [List.length_map] at hperm
  have hfew : (right.filter fun c => c.name ∉ using').length < right.length := by
    obtain ⟨u, hu⟩ := List.exists_mem_of_ne_nil _ hne
    have hmem : u ∈ right.map RangeColumn.name :=
      List.count_pos_iff.mp (by rw [(hcommon u hu).2]; exact Nat.one_pos)
    obtain ⟨c, hc, rfl⟩ := List.mem_map.mp hmem
    exact List.length_filter_lt_length_iff_exists.mpr ⟨c, hc, by simpa using hu⟩
  have hfound := List.length_filterMap_le (fun name => left.find? fun c => c.name = name) using'
  have hrest := List.length_filter_le (fun c : Column => decide (c.name ∉ using')) left
  have htwice := Nat.mul_le_mul_right left.length hmany
  have hsum := hleft left
  have hothers := hright right
  simp only [usingColumns, List.length_append, List.length_map] at hlength
  omega

/-- `append_join_using` builds what it is to build for one name, and where there is nothing to build and no
array is overrun. -/
theorem builds_using : Builds (appendJoinUsing left using' right tableName) (UsingJoins left using' right)
    (· = usingColumns left using' right tableName) ↔
      using'.length ≤ 1 ∨ ¬ UsingJoins left using' right ∧ UsingFits left using' right := by
  constructor
  · intro h
    by_cases hone : using'.length ≤ 1
    · exact Or.inl hone
    · refine Or.inr ⟨fun hjoins => not_builds_using hjoins (Nat.lt_of_not_le hone) h, ?_⟩
      obtain ⟨columns, hcolumns, -⟩ := h
      exact (appendJoinUsing_eq_some.mp hcolumns).1
  · rintro (hone | ⟨hnone, hfits⟩)
    · match using', hone with
      | [], _ =>
        refine ⟨_, appendJoinUsing_eq_some.mpr ⟨?_, rfl⟩, fun hjoins => absurd rfl hjoins.1⟩
        unfold UsingFits
        simp
      | [u], _ => exact builds_single u
    · exact ⟨_, appendJoinUsing_eq_some.mpr ⟨hfits, rfl⟩, fun hjoins => absurd hjoins hnone⟩

/-! ## Natural joins -/

/-- The loop counts the columns with the name and returns one of them. -/
theorem matchColumn_eq (right : List RangeColumn) (colname : String) :
    (matchColumn right colname).1 = (right.map RangeColumn.name).count colname ∧
      (0 < (matchColumn right colname).1 →
        ∃ c, (c, (matchColumn right colname).2) ∈ right.zipIdx ∧ c.name = colname) := by
  have hloop : ∀ (ps : List (RangeColumn × Nat)), (∀ p ∈ ps, p ∈ right.zipIdx) →
      ∀ found : Nat × Nat, (0 < found.1 → ∃ c, (c, found.2) ∈ right.zipIdx ∧ c.name = colname) →
        (ps.foldl (fun found p => if p.1.name = colname then (found.1 + 1, p.2) else found) found).1 =
            found.1 + (ps.map fun p => p.1.name).count colname ∧
          (0 < (ps.foldl (fun found p => if p.1.name = colname then (found.1 + 1, p.2) else found) found).1 →
            ∃ c, (c, (ps.foldl
              (fun found p => if p.1.name = colname then (found.1 + 1, p.2) else found) found).2) ∈
                right.zipIdx ∧ c.name = colname) := by
    intro ps
    induction ps with
    | nil => exact fun _ found hfound => ⟨rfl, hfound⟩
    | cons p ps ih =>
      intro hps found hfound
      have hrest := ih fun q hq => hps q (List.mem_cons_of_mem _ hq)
      rw [List.foldl_cons, List.map_cons]
      by_cases hp : p.1.name = colname
      · obtain ⟨hcount, hat⟩ := hrest (found.1 + 1, p.2) fun _ => ⟨p.1, hps p List.mem_cons_self, hp⟩
        rw [if_pos hp, hp, List.count_cons_self]
        exact ⟨hcount.trans (by omega), hat⟩
      · rw [if_neg hp, List.count_cons_of_ne hp]
        exact hrest found hfound
  obtain ⟨hcount, hat⟩ := hloop right.zipIdx (fun _ hp => hp) (0, 0) fun h => absurd h (Nat.lt_irrefl 0)
  refine ⟨?_, hat⟩
  rw [matchColumn, hcount, map_zipIdx right RangeColumn.name, Nat.zero_add]

/-- The number of the column on the right. -/
def partner (right : List RangeColumn) (colname : String) : Nat := (matchColumn right colname).2

/-- The column with a name that is there once. -/
theorem partner_iff {name : String} (h : (right.map RangeColumn.name).count name = 1)
    {p : RangeColumn × Nat} (hp : p ∈ right.zipIdx) : p.2 = partner right name ↔ p.1.name = name := by
  obtain ⟨hcount, hat⟩ := matchColumn_eq right name
  obtain ⟨c, hc, hname⟩ := hat (by rw [hcount, h]; exact Nat.one_pos)
  have hget := List.mem_zipIdx_iff_getElem?.mp hp
  have hget' := List.mem_zipIdx_iff_getElem?.mp hc
  constructor
  · intro heq
    rw [heq] at hget
    have hsame : p.1 = c := Option.some.inj (hget.symm.trans hget')
    rw [hsame, hname]
  · intro heq
    have hlength : (right.zipIdx.filter fun q => q.1.name = name).length = 1 := by
      rw [length_filter_name right.zipIdx (fun q => q.1.name) name, map_zipIdx right RangeColumn.name, h]
    obtain ⟨q, hq⟩ := List.length_eq_one_iff.mp hlength
    have hpq : p = q := List.mem_singleton.mp (hq ▸ List.mem_filter.mpr ⟨hp, by simpa using heq⟩)
    have hcq : (c, partner right name) = q :=
      List.mem_singleton.mp (hq ▸ List.mem_filter.mpr ⟨hc, by simpa using hname⟩)
    rw [hpq, ← hcq]

/-- The name of the column is there once on the right. -/
def Single (right : List RangeColumn) (c : Column) : Bool := (right.map RangeColumn.name).count c.name = 1

/-- The name of the column is not there on the right. -/
def Lone (right : List RangeColumn) (c : Column) : Bool := (right.map RangeColumn.name).count c.name = 0

/-- The entries for a column of the left side. -/
def naturalEntries (right : List RangeColumn) (p : Column × Nat) : List (WorkArray × Nat) :=
  if Lone right p.1 then [(.rvalid, p.2)]
  else if Single right p.1 then [(.same, p.2), (.linvalid, partner right p.1.name)]
  else []

theorem sortColumn_eq (right : List RangeColumn) (room : WorkArray → Nat) (a : WorkArray → List Nat)
    (p : Column × Nat) : sortColumn right room a p = (naturalEntries right p).foldlM (write room) a := by
  obtain ⟨hcount, -⟩ := matchColumn_eq right p.1.name
  unfold sortColumn naturalEntries Lone Single partner
  simp only [hcount, decide_eq_true_eq]
  split
  · rw [List.foldlM_cons]
    exact (bind_pure _).symm
  · split
    · rw [List.foldlM_cons]
      exact congrArg _ (funext fun _ => (bind_pure _).symm)
    · rfl

theorem sent_naturalEntries (left : List Column) (right : List RangeColumn) :
    sent (left.zipIdx.flatMap (naturalEntries right)) .same =
        (left.zipIdx.filter fun p => Single right p.1).map Prod.snd ∧
      sent (left.zipIdx.flatMap (naturalEntries right)) .rvalid =
        (left.zipIdx.filter fun p => Lone right p.1).map Prod.snd ∧
      sent (left.zipIdx.flatMap (naturalEntries right)) .linvalid =
        ((partners left right).map fun c => partner right c.name) ∧
      sent (left.zipIdx.flatMap (naturalEntries right)) .lvalid = [] := by
  have hpartners : (partners left right).map (fun c => partner right c.name) =
      (left.zipIdx.filter fun p => Single right p.1).map fun p => partner right p.1.name := by
    unfold partners Single
    conv_lhs => rw [← List.zipIdx_map_fst 0 left, List.filter_map, List.map_map]
    rfl
  rw [hpartners]
  generalize left.zipIdx = ps
  induction ps with
  | nil => exact ⟨rfl, rfl, rfl, rfl⟩
  | cons p ps ih =>
    obtain ⟨hsame, hrvalid, hlinvalid, hlvalid⟩ := ih
    have happend : ∀ w, sent ((p :: ps).flatMap (naturalEntries right)) w =
        sent (naturalEntries right p) w ++ sent (ps.flatMap (naturalEntries right)) w :=
      fun w => List.filterMap_append
    rw [happend, happend, happend, happend, hsame, hrvalid, hlinvalid, hlvalid]
    unfold naturalEntries
    by_cases hlone : Lone right p.1 = true
    · have hsingle : Single right p.1 = false := by
        unfold Lone Single at *
        simp only [decide_eq_true_eq, decide_eq_false_iff_not] at *
        omega
      simp [hlone, hsingle, sent_cons]
    · by_cases hsingle : Single right p.1 = true
      · simp [hlone, hsingle, sent_cons]
      · simp [hlone, hsingle]

/-- The columns of the right side that are left over. -/
def leftOver (left : List Column) (right : List RangeColumn) : List RangeColumn :=
  right.filter fun c => c.name ∉ (partners left right).map Column.name

theorem count_partner {name : String} (h : name ∈ (partners left right).map Column.name) :
    (right.map RangeColumn.name).count name = 1 := by
  obtain ⟨c, hc, rfl⟩ := List.mem_map.mp h
  simpa using (List.mem_filter.mp hc).2

/-- Two columns with one partner leave too many columns over. -/
theorem nodup_partners_iff : ((partners left right).map Column.name).Nodup ↔
    (partners left right).length + (leftOver left right).length ≤ right.length := by
  have hcount : ∀ name ∈ (partners left right).map Column.name, (right.map RangeColumn.name).count name = 1 :=
    fun name h => count_partner h
  have hlength : (partners left right).length = ((partners left right).map Column.name).length := by
    rw [List.length_map]
  unfold leftOver
  rw [hlength]
  generalize (partners left right).map Column.name = names at *
  have hsplit := List.length_eq_length_filter_add (l := right) fun c => decide (c.name ∈ names)
  have hfound : (right.filter fun c => c.name ∈ names).length =
      ((right.map RangeColumn.name).filter fun n => n ∈ names).length := by
    rw [List.filter_map, List.length_map]
    rfl
  have hrest : (right.filter fun c => !decide (c.name ∈ names)).length =
      (right.filter fun c => c.name ∉ names).length := by
    congr 2
    funext c
    rw [decide_not]
  have hsub : names ⊆ (right.map RangeColumn.name).filter fun n => n ∈ names := by
    intro n hn
    have hmem := List.count_pos_iff.mp (by rw [hcount n hn]; exact Nat.one_pos)
    exact List.mem_filter.mpr ⟨hmem, by simpa using hn⟩
  have hnodup : ((right.map RangeColumn.name).filter fun n => n ∈ names).Nodup := by
    refine List.nodup_iff_count_le_one.mpr fun n => ?_
    by_cases hn : n ∈ names
    · exact Nat.le_trans (List.filter_sublist.count_le _) (Nat.le_of_eq (hcount n hn))
    · exact Nat.le_trans (Nat.le_of_eq (List.count_eq_zero.mpr fun hmem =>
        hn (by simpa using (List.mem_filter.mp hmem).2))) (Nat.zero_le 1)
  have hback : ((right.map RangeColumn.name).filter fun n => n ∈ names) ⊆ names.dedup := fun n hn =>
    List.mem_dedup.mpr (by simpa using (List.mem_filter.mp hn).2)
  constructor
  · intro h
    have hle := (h.subperm hsub).length_le
    omega
  · intro h
    have hle := (hnodup.subperm hback).length_le
    have hdedup : names.dedup = names := names.dedup_sublist.eq_of_length_le (by omega)
    exact List.dedup_eq_self.mp hdedup

/-- The numbers of the columns that are left over. -/
theorem mapM_leftOver (left : List Column) (right : List RangeColumn) :
    ((List.range right.length).filter fun k =>
        k ∉ (partners left right).map fun c => partner right c.name).mapM (fun i => right[i]?) =
      some (leftOver left right) := by
  have hrange : List.range right.length = right.zipIdx.map Prod.snd := by
    rw [List.zipIdx_map_snd, List.range_eq_range']
  have hfilter : (List.range right.length).filter (fun k =>
      k ∉ (partners left right).map fun c => partner right c.name) =
        (right.zipIdx.filter fun p => p.1.name ∉ (partners left right).map Column.name).map Prod.snd := by
    rw [hrange, List.filter_map]
    congr 1
    refine List.filter_congr fun p hp => decide_eq_decide.mpr (not_congr ?_)
    simp only [List.mem_map]
    constructor
    · rintro ⟨c, hc, heq⟩
      have hcount := count_partner (List.mem_map_of_mem (f := Column.name) hc)
      exact ⟨c, hc, ((partner_iff hcount hp).mp heq.symm).symm⟩
    · rintro ⟨c, hc, heq⟩
      have hcount := count_partner (List.mem_map_of_mem (f := Column.name) hc)
      exact ⟨c, hc, ((partner_iff hcount hp).mpr heq.symm).symm⟩
  rw [hfilter]
  exact mapM_filter right fun c => decide (c.name ∉ (partners left right).map Column.name)

/-- The second loop of `append_join_natural` writes the numbers of the columns that are left over. -/
theorem over_loop (room : WorkArray → Nat) (linvalid : List Nat) (n : Nat) (a : WorkArray → List Nat) :
    (List.range n).foldlM (fun a k => if k ∈ linvalid then some a else write room a (.lvalid, k)) a =
      (((List.range n).filter fun k => k ∉ linvalid).map fun k => (WorkArray.lvalid, k)).foldlM
        (write room) a := by
  rw [List.foldlM_map, List.foldlM_filter]
  congr 1
  funext a k
  by_cases hk : k ∈ linvalid <;> simp [hk]

theorem sent_lvalid (ks : List Nat) (w : WorkArray) :
    sent (ks.map fun k => (WorkArray.lvalid, k)) w = if w = .lvalid then ks else [] := by
  induction ks with
  | nil => simp
  | cons k ks ih =>
    rw [List.map_cons, sent_cons, ih]
    by_cases hw : w = .lvalid
    · subst hw
      rw [if_pos rfl, if_pos rfl, if_pos rfl]
    · rw [if_neg (Ne.symm hw), if_neg hw, if_neg hw]

/-- What `append_join_natural` returns. -/
theorem appendJoinNatural_eq_some {columns : List Column} :
    appendJoinNatural left right tableName = some columns ↔
      ((partners left right).map Column.name).Nodup ∧
        columns = (partners left right).map (Column.retable tableName) ++
          (left.filter (Lone right)).map (Column.retable tableName) ++
          (leftOver left right).map (RangeColumn.column · tableName) := by
  have hcode : appendJoinNatural left right tableName =
      ((left.zipIdx.flatMap (naturalEntries right)).foldlM (write (naturalRoom left.length right.length))
        fun _ => []).bind fun a =>
      ((((List.range right.length).filter fun k => k ∉ a .linvalid).map fun k => (WorkArray.lvalid, k)).foldlM
        (write (naturalRoom left.length right.length)) a).bind fun a' =>
      if (a .same).length + (a .rvalid).length + right.length - (a .linvalid).length <
          (a' .same).length + (a' .rvalid).length + (a' .lvalid).length then none
      else ((a' .same).mapM fun i => left[i]?).bind fun same =>
        ((a' .rvalid).mapM fun i => left[i]?).bind fun rvalid =>
          ((a' .lvalid).mapM fun i => right[i]?).bind fun lvalid =>
            some (same.map (Column.retable tableName) ++ rvalid.map (Column.retable tableName) ++
              lvalid.map (RangeColumn.column · tableName)) := by
    rw [foldlM_flatMap]
    simp only [← sortColumn_eq, ← over_loop]
    rfl
  obtain ⟨hsame, hrvalid, hlinvalid, hlvalid⟩ := sent_naturalEntries left right
  have hover := mapM_leftOver left right
  have hread := mapM_filter left (Single right)
  have hlone := mapM_filter left (Lone right)
  have hsames := length_of_mapM hread
  have hlones := length_of_mapM hlone
  have hovers := length_of_mapM hover
  have hpartners : left.filter (Single right) = partners left right := rfl
  rw [hpartners] at hread hsames
  have hsmall : (partners left right).length ≤ left.length := List.length_filter_le _ _
  have hfew : (left.filter (Lone right)).length ≤ left.length := List.length_filter_le _ _
  have hrest : (leftOver left right).length ≤ right.length := List.length_filter_le _ _
  rw [hcode, nodup_partners_iff]
  constructor
  · intro h
    obtain ⟨a, ha, h⟩ := Option.bind_eq_some_iff.mp h
    obtain ⟨hfits, rfl⟩ := (foldlM_write_nil _).mp ha
    obtain ⟨a', ha', h⟩ := Option.bind_eq_some_iff.mp h
    obtain ⟨-, rfl⟩ := (foldlM_write _ hfits).mp ha'
    simp only [sent_lvalid, hsame, hrvalid, hlinvalid, hlvalid, if_true, List.append_nil, List.nil_append,
      reduceCtorEq, if_false] at h
    split at h
    · cases h
    · rename_i hroom
      rw [hsames, hlones, hovers, List.length_map] at hroom
      rw [hread, hlone, hover] at h
      exact ⟨by omega, (Option.some.inj h).symm⟩
  · rintro ⟨hcond, rfl⟩
    have hfits : ∀ w, (sent (left.zipIdx.flatMap (naturalEntries right)) w).length ≤
        naturalRoom left.length right.length w := by
      intro w
      cases w with
      | same => rw [hsame, hsames]; exact Nat.le_succ_of_le hsmall
      | rvalid => rw [hrvalid, hlones]; exact Nat.le_succ_of_le hfew
      | linvalid =>
        rw [hlinvalid, List.length_map]
        show (partners left right).length ≤ right.length + 1
        omega
      | lvalid => rw [hlvalid]; exact Nat.zero_le _
    have hfits' : ∀ w, (sent (left.zipIdx.flatMap (naturalEntries right)) w ++
        sent (((List.range right.length).filter fun k =>
          k ∉ (partners left right).map fun c => partner right c.name).map fun k => (WorkArray.lvalid, k)) w).length ≤
            naturalRoom left.length right.length w := by
      intro w
      rw [sent_lvalid]
      by_cases hw : w = .lvalid
      · subst hw
        rw [if_pos rfl, hlvalid, List.nil_append, hovers]
        exact Nat.le_succ_of_le hrest
      · rw [if_neg hw, List.append_nil]
        exact hfits w
    rw [(foldlM_write_nil _).mpr ⟨hfits, rfl⟩, Option.bind_some, hlinvalid,
      (foldlM_write _ hfits).mpr ⟨hfits', rfl⟩, Option.bind_some]
    simp only [sent_lvalid, hsame, hrvalid, hlvalid, if_true, List.append_nil, List.nil_append,
      reduceCtorEq, if_false]
    rw [hread, hlone, hover, hsames, hlones, hovers, List.length_map, if_neg (by omega)]
    rfl

theorem retable_eq_iff {c : Column} : c.retable tableName = c ↔ tableName = none ∨ c.table = tableName := by
  obtain ⟨name, type, table⟩ := c
  cases tableName with
  | none => simp [Column.retable]
  | some t => simp [Column.retable, eq_comm]

theorem joined_retable (tableName : Option String) (c : Column) : Joined tableName c (c.retable tableName) := by
  cases tableName with
  | none => exact Or.inl rfl
  | some t => exact Or.inr rfl

theorem lone_iff {c : Column} : Lone right c = true ↔ c.name ∉ right.map RangeColumn.name := by
  unfold Lone
  rw [decide_eq_true_eq, List.count_eq_zero]

/-- In a natural join, the partners are the columns with a name on both sides. -/
theorem NaturalJoins.partners_eq (h : NaturalJoins left right) :
    partners left right = left.filter fun c => c.name ∈ right.map RangeColumn.name := by
  refine List.filter_congr fun c hc => decide_eq_decide.mpr ⟨fun hone => ?_, fun hmem => ?_⟩
  · exact List.count_pos_iff.mp (by rw [hone]; exact Nat.one_pos)
  · exact (h c.name (List.mem_map_of_mem hc) hmem).2

theorem NaturalJoins.leftOver_eq (h : NaturalJoins left right) :
    leftOver left right = right.filter fun c => c.name ∉ left.map Column.name := by
  refine List.filter_congr fun c hc => decide_eq_decide.mpr (not_congr ?_)
  rw [h.partners_eq]
  simp only [List.mem_map, List.mem_filter, decide_eq_true_eq]
  constructor
  · rintro ⟨d, ⟨hd, -⟩, hname⟩
    exact ⟨d, hd, hname⟩
  · rintro ⟨d, hd, hname⟩
    exact ⟨d, ⟨hd, c, hc, hname.symm⟩, hname⟩

/-- The columns of a natural join, but for the tables of the columns that are not joined. -/
theorem NaturalJoins.columns_iff (h : NaturalJoins left right) :
    NaturalColumns left right tableName
      ((partners left right).map (Column.retable tableName) ++
        (left.filter (Lone right)).map (Column.retable tableName) ++
        (leftOver left right).map (RangeColumn.column · tableName)) ↔ SameTable left right tableName := by
  have hlone : left.filter (Lone right) = left.filter fun c => c.name ∉ right.map RangeColumn.name := by
    refine List.filter_congr fun c _ => ?_
    rw [Bool.eq_iff_iff, lone_iff, decide_eq_true_eq]
  have hsame : (left.filter (Lone right)).map (Column.retable tableName) = left.filter (Lone right) ↔
      SameTable left right tableName := by
    conv_lhs => rhs; rw [← List.map_id (left.filter (Lone right))]
    rw [List.map_inj_left]
    constructor
    · intro hall
      refine or_iff_not_imp_left.mpr fun hnone c hc hname => ?_
      have hmem : c ∈ left.filter (Lone right) := List.mem_filter.mpr ⟨hc, lone_iff.mpr hname⟩
      exact (retable_eq_iff.mp (hall c hmem)).resolve_left hnone
    · rintro hall c hc
      obtain ⟨hleft, hname⟩ := List.mem_filter.mp hc
      exact retable_eq_iff.mpr (hall.imp id fun htable => htable c hleft (lone_iff.mp hname))
  rw [← hsame]
  unfold NaturalColumns
  rw [← h.partners_eq, ← h.leftOver_eq, ← hlone]
  constructor
  · rintro ⟨joined, hjoined, heq⟩
    rw [List.append_assoc, List.append_assoc] at heq
    obtain ⟨-, hrest⟩ := List.append_inj heq ((List.length_map _).trans hjoined.length_eq)
    exact List.append_cancel_right hrest
  · intro heq
    refine ⟨_, ?_, by rw [heq]⟩
    rw [List.forall₂_map_right_iff]
    exact List.forall₂_same.mpr fun c _ => joined_retable tableName c

/-- `append_join_natural` builds what it is to build unless two columns have one partner, or a column that is not
joined is from another table. -/
theorem builds_natural : Builds (appendJoinNatural left right tableName) (NaturalJoins left right)
    (NaturalColumns left right tableName) ↔
      ((partners left right).map Column.name).Nodup ∧
        (NaturalJoins left right → SameTable left right tableName) := by
  constructor
  · rintro ⟨columns, hcolumns, hmeant⟩
    obtain ⟨hnodup, rfl⟩ := appendJoinNatural_eq_some.mp hcolumns
    exact ⟨hnodup, fun h => h.columns_iff.mp (hmeant h)⟩
  · rintro ⟨hnodup, hsame⟩
    exact ⟨_, appendJoinNatural_eq_some.mpr ⟨hnodup, rfl⟩, fun h => h.columns_iff.mpr (hsame h)⟩

end

/-- The columns of joins are built as meant for `USING` with one name, and for `NATURAL` where no two columns have
one partner and the columns that are not joined have the table of the right side; and no array is overrun. -/
theorem builds_iff (left : List Column) (using' : List String) (right : List RangeColumn)
    (tableName : Option String) :
    Builds (appendJoinUsing left using' right tableName) (UsingJoins left using' right)
        (· = usingColumns left using' right tableName) ∧
      Builds (appendJoinNatural left right tableName) (NaturalJoins left right)
        (NaturalColumns left right tableName) ↔
    (using'.length ≤ 1 ∨ ¬ UsingJoins left using' right ∧ UsingFits left using' right) ∧
      ((partners left right).map Column.name).Nodup ∧
        (NaturalJoins left right → SameTable left right tableName) :=
  and_congr builds_using builds_natural

/-- Three columns on either side, two of them joined by `USING`, overrun an array; and the columns of the left
side of a natural join are said to be from the table of the right side. -/
theorem not_builds :
    UsingJoins [⟨"a", "int", some "t"⟩, ⟨"b", "int", some "t"⟩, ⟨"c", "int", some "t"⟩] ["a", "b"]
        [⟨"a", "int"⟩, ⟨"b", "int"⟩, ⟨"d", "int"⟩] ∧
      appendJoinUsing [⟨"a", "int", some "t"⟩, ⟨"b", "int", some "t"⟩, ⟨"c", "int", some "t"⟩] ["a", "b"]
        [⟨"a", "int"⟩, ⟨"b", "int"⟩, ⟨"d", "int"⟩] (some "u") = none ∧
      NaturalJoins [⟨"a", "int", some "t"⟩, ⟨"b", "int", some "t"⟩] [⟨"a", "int"⟩, ⟨"d", "int"⟩] ∧
      ¬ Builds (appendJoinNatural [⟨"a", "int", some "t"⟩, ⟨"b", "int", some "t"⟩]
          [⟨"a", "int"⟩, ⟨"d", "int"⟩] (some "u"))
        (NaturalJoins [⟨"a", "int", some "t"⟩, ⟨"b", "int", some "t"⟩] [⟨"a", "int"⟩, ⟨"d", "int"⟩])
        (NaturalColumns [⟨"a", "int", some "t"⟩, ⟨"b", "int", some "t"⟩] [⟨"a", "int"⟩, ⟨"d", "int"⟩]
          (some "u")) := by
  refine ⟨by decide, by decide, by decide, fun h => ?_⟩
  have hjoins : NaturalJoins [⟨"a", "int", some "t"⟩, ⟨"b", "int", some "t"⟩]
      [⟨"a", "int"⟩, ⟨"d", "int"⟩] := by decide
  rcases (builds_natural.mp h).2 hjoins with hnone | htable
  · cases hnone
  · exact absurd (htable ⟨"b", "int", some "t"⟩ (by decide) (by decide)) (by decide)

end PgPool.Parallel
