import PgPool.Parallel.Interleaving

/-!
# When the merged reply is faithful

The frontend is to receive one reply: at most one `RowDescription`, the rows of all the nodes, and
one final message.  The counter is compared with the configured number of nodes, the first message of
a later reply is dropped whatever it is, and a mark is shared by descriptors that agree modulo 64.
-/

namespace PgPool.Parallel

/-! ## One message that ends a reply -/

/-- `m` is the only final message, and the last one. -/
def Ends (out : List Message) (m : Message) : Prop :=
  out.filter (fun m => isFinal m.kind) = [m] ∧ out.getLast? = some m

section

variable {out before : List Message} {m final : Message}

theorem ends_append (hbefore : ∀ m ∈ before, isFinal m.kind = false) :
    Ends (before ++ out) m ↔ Ends out m := by
  have hnone : before.filter (fun m => isFinal m.kind) = [] :=
    List.filter_eq_nil_iff.mpr fun m hm => by simp [hbefore m hm]
  rw [Ends, Ends, List.filter_append, hnone, List.nil_append, List.getLast?_append]
  refine and_congr_right fun hfilter => ?_
  cases hlast : out.getLast? with
  | none =>
    rw [List.getLast?_eq_none_iff.mp hlast] at hfilter
    cases hfilter
  | some m' => rfl

theorem ends_cons (hfinal : isFinal final.kind = true) :
    Ends (final :: out) m ↔ out = [] ∧ m = final := by
  rw [Ends, List.filter_cons_of_pos (by simpa using hfinal), List.cons.injEq]
  constructor
  · intro ⟨⟨heq, hnone⟩, hlast⟩
    refine ⟨?_, heq.symm⟩
    cases out with
    | nil => rfl
    | cons m' out =>
      rw [List.getLast?_cons_cons] at hlast
      have hmem := List.mem_of_getLast? hlast
      have habsent := List.filter_eq_nil_iff.mp hnone m hmem
      rw [← heq] at habsent
      exact absurd hfinal habsent
  · intro ⟨hout, heq⟩
    rw [hout, heq]
    exact ⟨⟨rfl, rfl⟩, rfl⟩

theorem ends_singleton (hfinal : isFinal final.kind = true) : Ends [final] m ↔ m = final := by
  rw [ends_cons hfinal]
  exact and_iff_right rfl

theorem not_ends_nil : ¬ Ends [] m := by simp [Ends]

end

/-! ## The conditions -/

def Reply.rowMessages (r : Reply) : List Message := r.rows.map fun body => ⟨'D', body⟩

/-- What the frontend has received is a reply made of the given ones. -/
structure Faithful (out : List Message) (replies : List Reply) : Prop where
  oneDescription : (out.filter fun m => m.kind == 'T').length ≤ 1
  descriptionFirst : out.Pairwise fun m m' => m'.kind = 'T' → m.kind ≠ 'D'
  rows : (out.filter fun m => m.kind == 'D').Perm (replies.flatMap Reply.rowMessages)
  final : ∃ m, Ends out m ∧ ((∃ r ∈ replies, r.failed = true) → m.kind = 'E')

/-- `pool_parallel_exec` returns when it has read every reply once, and has merged them. -/
def Interleaving.Merged (s : Interleaving) : Prop :=
  ∃ e, s.outcome = .returned .continue e ∧ (∀ i ∈ s.nodes, e.unread i = s.after i) ∧
    Faithful e.frontend (s.nodes.map s.reply)

/-- The replies, in the order in which they are read, that the loop merges. -/
def Mergeable : List Reply → Prop
  | [] => False
  | [_] => True
  | r :: rest =>
    (∀ q ∈ rest, q.rowDescription = none → q.rows = []) ∧
    if r.opened then
      (r :: rest).Pairwise (fun p q => p.breaks = true → q.rows = []) ∧
      (rest.getLast?.any Reply.opened = true ∨ ∃ q ∈ r :: rest, q.breaks = true) ∧
      ((∃ q ∈ r :: rest, q.failed = true) → ∃ q ∈ r :: rest, q.breaks = true)
    else
      (∀ q ∈ rest, q.rows = [] ∧ q.breaks = false) ∧ rest.getLast?.any Reply.opened = false ∧
      ((∃ q ∈ rest, q.failed = true) → r.failed = true)

/-! ## What is forwarded -/

namespace Reply

variable {r : Reply} {last noError : Bool}

theorem leading_eq_nil (h : r.opened = false) : r.leading = [] := by
  simpa [opened] using h

theorem relayed_later : r.relayed false last noError =
    r.leading.tail ++ if noError && (r.breaks || r.opened && last) then [r.final] else [] := by
  cases hopened : r.opened <;> simp [relayed, breaks, hopened, leading_eq_nil]

theorem relayed_opened (h : r.opened = true) :
    r.relayed true last noError = r.leading.take 1 ++ r.relayed false last noError := by
  simp [relayed, h]

theorem relayed_bare (h : r.opened = false) : r.relayed true last noError = [r.final] := by
  simp [relayed, h]

theorem not_isFinal_tail {m : Message} (h : m ∈ r.leading.tail) : isFinal m.kind = false :=
  not_isFinal_leading (List.mem_of_mem_tail h)

theorem leading_tail_eq_nil (h : r.rowDescription = none → r.rows = []) :
    r.leading.tail = [] ↔ r.rows = [] := by
  unfold leading
  cases hdesc : r.rowDescription with
  | none => simp [h hdesc]
  | some body => simp

theorem kind_final_eq : r.final.kind = 'E' ↔ r.failed = true := by
  cases hfailed : r.failed <;> simp [final, hfailed]

end Reply

section

variable {r q : Reply} {rs rest : List Reply} {m : Message} {first noError : Bool}

theorem merged_cons (hrest : rest ≠ []) : merged first noError (r :: rest) =
    r.relayed first false noError ++ merged false (noError && !r.breaks) rest := by
  cases rest with
  | nil => exact absurd rfl hrest
  | cons q rest => rfl

theorem merged_opened (hopened : r.opened = true) :
    merged true noError (r :: rest) = r.leading.take 1 ++ merged false noError (r :: rest) := by
  cases rest with
  | nil => exact Reply.relayed_opened hopened
  | cons q rest => rw [merged, merged, Reply.relayed_opened hopened, List.append_assoc]

/-- Once an error has been forwarded, only rows are. -/
theorem merged_error : merged false false rs = rs.flatMap fun q => q.leading.tail := by
  induction rs with
  | nil => rfl
  | cons q rs ih =>
    cases rs with
    | nil => simp [merged, Reply.relayed_later]
    | cons q' rs => simp [merged, Reply.relayed_later, ih]

theorem flatMap_tail_eq_nil (h : ∀ q ∈ rs, q.rowDescription = none → q.rows = []) :
    (rs.flatMap fun q => q.leading.tail) = [] ↔ ∀ q ∈ rs, q.rows = [] := by
  rw [List.flatMap_eq_nil_iff]
  exact forall₂_congr fun q hq => Reply.leading_tail_eq_nil (h q hq)

/-! ## The final message -/

/-- After a reply that was a final message alone, nothing must follow. -/
theorem merged_eq_nil (hrs : rs ≠ []) (h : ∀ q ∈ rs, q.rowDescription = none → q.rows = []) :
    merged false true rs = [] ↔
      (∀ q ∈ rs, q.rows = [] ∧ q.breaks = false) ∧ rs.getLast?.any Reply.opened = false := by
  induction rs with
  | nil => exact absurd rfl hrs
  | cons q rs ih =>
    obtain ⟨hq, hlater⟩ := List.forall_mem_cons.mp h
    cases rs with
    | nil =>
      have hbreaks : q.opened = false → q.breaks = false := fun hopened => by
        rw [Reply.breaks, hopened, Bool.false_and]
      rw [merged, Reply.relayed_later, List.append_eq_nil_iff, Reply.leading_tail_eq_nil hq]
      cases hopened : q.opened with
      | false => simp [hopened, hbreaks hopened]
      | true => simp [hopened]
    | cons q' rs =>
      rw [merged_cons (List.cons_ne_nil _ _), Reply.relayed_later, List.append_eq_nil_iff,
        List.append_eq_nil_iff, Reply.leading_tail_eq_nil hq, List.getLast?_cons_cons,
        List.forall_mem_cons]
      cases hbreaks : q.breaks with
      | true => simp
      | false =>
        rw [Bool.not_false, Bool.and_true, ih (List.cons_ne_nil _ _) hlater]
        simp [and_assoc]

/-- The first error that is forwarded, or else the last message, ends what has been forwarded. -/
theorem ends_merged_iff (h : ∀ q ∈ rest, q.rowDescription = none → q.rows = []) :
    (∃ m, Ends (merged false true (r :: rest)) m) ↔
      (r :: rest).Pairwise (fun p q => p.breaks = true → q.rows = []) ∧
      ((r :: rest).getLast?.any Reply.opened = true ∨ ∃ q ∈ r :: rest, q.breaks = true) := by
  induction rest generalizing r with
  | nil =>
    have hbreaks : r.breaks = true → r.opened = true := fun hbreaks => (Bool.and_eq_true_iff.mp hbreaks).1
    rw [merged, Reply.relayed_later]
    simp only [ends_append fun m hm => Reply.not_isFinal_tail hm, Bool.true_and, Bool.and_true]
    cases hopened : r.opened with
    | false =>
      have hnot : r.breaks = false := by rw [Reply.breaks, hopened, Bool.false_and]
      simp [hopened, hnot, not_ends_nil]
    | true => simp [hopened, ends_singleton (Reply.isFinal_final r)]
  | cons q rest ih =>
    obtain ⟨hq, hlater⟩ := List.forall_mem_cons.mp h
    rw [merged_cons (List.cons_ne_nil _ _), Reply.relayed_later, List.append_assoc,
      List.getLast?_cons_cons, List.pairwise_cons]
    simp only [ends_append fun m hm => Reply.not_isFinal_tail hm]
    cases hbreaks : r.breaks with
    | true =>
      have hrows : (∃ m, Ends (r.final :: merged false false (q :: rest)) m) ↔
          ∀ p ∈ q :: rest, p.rows = [] := by
        rw [merged_error, ← flatMap_tail_eq_nil h]
        simp only [ends_cons (Reply.isFinal_final r), exists_and_left, exists_eq, and_true]
      have hpairs : (∀ p ∈ q :: rest, p.rows = []) →
          (q :: rest).Pairwise fun p q => p.breaks = true → q.rows = [] :=
        fun hall => List.pairwise_of_forall_mem_list fun a _ b hb _ => hall b hb
      simp only [Bool.true_and, Bool.true_or, if_true, List.singleton_append, Bool.not_true, hrows]
      constructor
      · intro hall
        exact ⟨⟨fun p hp _ => hall p hp, hpairs hall⟩, .inr ⟨r, List.mem_cons_self .., hbreaks⟩⟩
      · rintro ⟨⟨hall, _⟩, _⟩ p hp
        exact hall p hp trivial
    | false =>
      simp only [Bool.true_and, Bool.and_false, Bool.false_or, Bool.false_eq_true, if_false,
        List.nil_append, Bool.not_false]
      rw [ih hlater, List.exists_mem_cons_iff]
      simp [hbreaks]

/-- It is an error just if one has come after other messages of its reply. -/
theorem kind_of_ends (h : Ends (merged false true (r :: rest)) m) :
    m.kind = 'E' ↔ ∃ q ∈ r :: rest, q.breaks = true := by
  induction rest generalizing r with
  | nil =>
    rw [merged, Reply.relayed_later, ends_append fun m hm => Reply.not_isFinal_tail hm] at h
    cases hopened : r.opened with
    | false =>
      rw [Reply.breaks, hopened] at h
      exact absurd h not_ends_nil
    | true =>
      rw [Reply.breaks, hopened, Bool.true_and, Bool.true_and, Bool.and_true, Bool.or_true,
        if_pos rfl, ends_singleton (Reply.isFinal_final r)] at h
      rw [h, Reply.kind_final_eq]
      simp [Reply.breaks, hopened]
  | cons q rest ih =>
    rw [merged_cons (List.cons_ne_nil _ _), Reply.relayed_later, List.append_assoc,
      ends_append fun m hm => Reply.not_isFinal_tail hm] at h
    cases hbreaks : r.breaks with
    | true =>
      rw [hbreaks, Bool.true_or, Bool.true_and, if_pos rfl, List.singleton_append,
        ends_cons (Reply.isFinal_final r)] at h
      rw [h.2, Reply.kind_final_eq]
      exact iff_of_true (Bool.and_eq_true_iff.mp hbreaks).2 ⟨r, List.mem_cons_self .., hbreaks⟩
    | false =>
      rw [hbreaks, Bool.false_or, Bool.and_false, Bool.and_false, if_neg Bool.false_ne_true,
        List.nil_append] at h
      rw [ih h, List.exists_mem_cons_iff]
      simp [hbreaks]

/-! ## The rows and the `RowDescription` -/

theorem filter_leading : (r.leading.filter fun m => m.kind == 'D') = r.rowMessages := by
  have hdesc : ((r.rowDescription.toList.map fun body => (⟨'T', body⟩ : Message)).filter
      fun m => m.kind == 'D') = [] := by
    refine List.filter_eq_nil_iff.mpr fun m hm => ?_
    obtain ⟨body, -, rfl⟩ := List.mem_map.mp hm
    simp
  have hrows : (r.rowMessages.filter fun m => m.kind == 'D') = r.rowMessages := by
    refine List.filter_eq_self.mpr fun m hm => ?_
    obtain ⟨body, -, rfl⟩ := List.mem_map.mp hm
    rfl
  rw [Reply.leading, List.filter_append, hdesc, List.nil_append]
  exact hrows

theorem filter_tail : (r.leading.tail.filter fun m => m.kind == 'D') = r.leading.tail :=
  List.filter_eq_self.mpr fun m hm => by simp [Reply.kind_tail hm]

theorem filter_final (c : Bool) : ((if c then [r.final] else []).filter fun m => m.kind == 'D') = [] := by
  cases c <;> cases hfailed : r.failed <;> simp [Reply.final, hfailed]

theorem filter_relayed {last : Bool} :
    ((r.relayed true last noError).filter fun m => m.kind == 'D') = r.rowMessages := by
  cases hopened : r.opened with
  | false =>
    have hfinal := filter_final (r := r) true
    rw [if_pos rfl] at hfinal
    rw [Reply.relayed_bare hopened, hfinal, ← filter_leading, Reply.leading_eq_nil hopened]
    rfl
  | true =>
    rw [Reply.relayed_opened hopened, Reply.relayed_later, List.filter_append, List.filter_append,
      filter_final, List.append_nil, ← List.filter_append, ← List.drop_one, List.take_append_drop,
      filter_leading]

theorem filter_merged :
    ((merged false noError rs).filter fun m => m.kind == 'D') = rs.flatMap fun q => q.leading.tail := by
  induction rs generalizing noError with
  | nil => rfl
  | cons q rs ih =>
    cases rs with
    | nil =>
      rw [merged, Reply.relayed_later, List.filter_append, filter_final, filter_tail]
      simp
    | cons q' rs =>
      rw [merged_cons (List.cons_ne_nil _ _), Reply.relayed_later, List.filter_append,
        List.filter_append, filter_final, filter_tail, ih, List.append_nil]
      rfl

theorem length_tail_le : r.leading.tail.length ≤ r.rowMessages.length := by
  unfold Reply.leading Reply.rowMessages
  cases r.rowDescription <;> simp

theorem length_tail_eq (h : r.leading.tail.length = r.rowMessages.length)
    (hdesc : r.rowDescription = none) : r.rows = [] := by
  rw [Reply.leading, Reply.rowMessages, hdesc] at h
  rw [← List.length_eq_zero_iff]
  simp only [Option.toList_none, List.map_nil, List.nil_append, List.length_tail, List.length_map] at h
  omega

theorem tail_eq (h : r.rowDescription = none → r.rows = []) : r.leading.tail = r.rowMessages := by
  unfold Reply.leading Reply.rowMessages
  cases hdesc : r.rowDescription with
  | none => simp [h hdesc]
  | some body => rfl

theorem length_flatMap_tail_le :
    (rs.flatMap fun q => q.leading.tail).length ≤ (rs.flatMap Reply.rowMessages).length := by
  induction rs with
  | nil => exact Nat.le_refl _
  | cons q rs ih =>
    rw [List.flatMap_cons, List.flatMap_cons, List.length_append, List.length_append]
    exact Nat.add_le_add length_tail_le ih

/-- No row of the later replies is lost if none of them begins with one. -/
theorem rows_perm_iff : (rs.flatMap fun q => q.leading.tail).Perm (rs.flatMap Reply.rowMessages) ↔
    ∀ q ∈ rs, q.rowDescription = none → q.rows = [] := by
  constructor
  · intro hperm
    have hlength := hperm.length_eq
    clear hperm
    induction rs with
    | nil => exact fun q hq => absurd hq List.not_mem_nil
    | cons q rs ih =>
      have hshort := @length_flatMap_tail_le rs
      have hq := @length_tail_le q
      rw [List.flatMap_cons, List.flatMap_cons, List.length_append, List.length_append] at hlength
      exact List.forall_mem_cons.mpr ⟨length_tail_eq (by omega), ih (by omega)⟩
  · intro h
    rw [List.flatMap_congr fun q hq => tail_eq (h q hq)]

theorem kind_merged (hm : m ∈ merged false noError rs) : m.kind ≠ 'T' := by
  have hrelayed : ∀ {q : Reply} {last noError : Bool}, m ∈ q.relayed false last noError →
      m.kind ≠ 'T' := by
    intro q last noError hm
    rw [Reply.relayed_later, List.mem_append] at hm
    obtain hm | hm := hm
    · simp [Reply.kind_tail hm]
    · split at hm
      · rw [List.mem_singleton.mp hm]
        cases hfailed : q.failed <;> simp [Reply.final, hfailed]
      · exact absurd hm List.not_mem_nil
  induction rs generalizing noError with
  | nil => exact absurd hm List.not_mem_nil
  | cons q rs ih =>
    cases rs with
    | nil => exact hrelayed hm
    | cons q' rs =>
      rw [merged_cons (List.cons_ne_nil _ _), List.mem_append] at hm
      obtain hm | hm := hm
      · exact hrelayed hm
      · exact ih hm

/-- At most the first message that is forwarded is a `RowDescription`. -/
theorem merged_split : ∃ t out, merged true noError (r :: rest) = t ++ out ∧ t.length ≤ 1 ∧
    ∀ m ∈ out, m.kind ≠ 'T' := by
  cases hopened : r.opened with
  | true => exact ⟨_, _, merged_opened hopened, List.length_take_le .., fun m hm => kind_merged hm⟩
  | false =>
    cases rest with
    | nil =>
      refine ⟨[r.final], [], ?_, Nat.le_refl _, by simp⟩
      rw [merged, Reply.relayed_bare hopened]
      rfl
    | cons q rest =>
      refine ⟨[r.final], merged false (noError && !r.breaks) (q :: rest), ?_, Nat.le_refl _,
        fun m hm => kind_merged hm⟩
      rw [merged_cons (List.cons_ne_nil _ _), Reply.relayed_bare hopened]

theorem filter_merged_first : ((merged true noError (r :: rest)).filter fun m => m.kind == 'D') =
    r.rowMessages ++ rest.flatMap fun q => q.leading.tail := by
  cases rest with
  | nil =>
    rw [merged, filter_relayed]
    simp
  | cons q rest =>
    rw [merged_cons (List.cons_ne_nil _ _), List.filter_append, filter_relayed, filter_merged]

/-- For the final message it remains to count those forwarded. -/
theorem faithful_iff_ends : Faithful (merged true true (r :: rest)) (r :: rest) ↔
    (∀ q ∈ rest, q.rowDescription = none → q.rows = []) ∧
    ∃ m, Ends (merged true true (r :: rest)) m ∧
      ((∃ q ∈ r :: rest, q.failed = true) → m.kind = 'E') := by
  have hrows : ((merged true true (r :: rest)).filter fun m => m.kind == 'D').Perm
      ((r :: rest).flatMap Reply.rowMessages) ↔
      ∀ q ∈ rest, q.rowDescription = none → q.rows = [] := by
    rw [filter_merged_first, List.flatMap_cons, List.perm_append_left_iff, rows_perm_iff]
  constructor
  · intro h
    exact ⟨hrows.mp h.rows, h.final⟩
  · intro ⟨hlater, hfinal⟩
    obtain ⟨t, out, heq, ht, hout⟩ := @merged_split r rest true
    refine ⟨?_, ?_, hrows.mpr hlater, hfinal⟩
    · have hnone : (out.filter fun m => m.kind == 'T') = [] :=
        List.filter_eq_nil_iff.mpr fun m hm => by simp [hout m hm]
      rw [heq, List.filter_append, hnone, List.append_nil]
      exact Nat.le_trans (List.length_filter_le ..) ht
    · rw [heq, List.pairwise_append]
      refine ⟨?_, List.pairwise_of_forall_mem_list fun a _ b hb hkind => absurd hkind (hout b hb),
        fun a _ b hb hkind => absurd hkind (hout b hb)⟩
      obtain _ | ⟨m, _ | ⟨m', t⟩⟩ := t
      · exact .nil
      · exact List.pairwise_singleton ..
      · simp at ht

theorem faithful_iff_mergeable : Faithful (merged true true rs) rs ↔ Mergeable rs := by
  obtain _ | ⟨r, rest⟩ := rs
  · refine iff_of_false (fun h => ?_) id
    obtain ⟨m, hends, -⟩ := h.final
    exact not_ends_nil hends
  obtain _ | ⟨q, rest⟩ := rest
  · refine iff_of_true (faithful_iff_ends.mpr ⟨by simp, ?_⟩) trivial
    refine ⟨r.final, ?_, ?_⟩
    · cases hopened : r.opened with
      | false =>
        rw [merged, Reply.relayed_bare hopened]
        exact (ends_singleton (Reply.isFinal_final r)).mpr rfl
      | true =>
        rw [merged_opened hopened,
          ends_append fun m hm => Reply.not_isFinal_leading (List.mem_of_mem_take hm), merged,
          Reply.relayed_later, ends_append fun m hm => Reply.not_isFinal_tail hm]
        simp [hopened, ends_singleton (Reply.isFinal_final r)]
    · simp [Reply.kind_final_eq]
  rw [faithful_iff_ends, Mergeable]
  swap
  · exact List.cons_ne_nil _ _
  refine and_congr_right fun hlater => ?_
  cases hopened : r.opened with
  | true =>
    have hends : ∀ m, Ends (merged true true (r :: q :: rest)) m ↔
        Ends (merged false true (r :: q :: rest)) m := fun m => by
      rw [merged_opened hopened,
        ends_append fun m hm => Reply.not_isFinal_leading (List.mem_of_mem_take hm)]
    rw [if_pos rfl, ← and_assoc, ← List.getLast?_cons_cons, ← ends_merged_iff hlater]
    constructor
    · intro ⟨m, hm, hkind⟩
      exact ⟨⟨m, (hends m).mp hm⟩, fun hfailed => (kind_of_ends ((hends m).mp hm)).mp (hkind hfailed)⟩
    · intro ⟨⟨m, hm⟩, hbreaks⟩
      exact ⟨m, (hends m).mpr hm, fun hfailed => (kind_of_ends hm).mpr (hbreaks hfailed)⟩
  | false =>
    have hends : ∀ m, Ends (merged true true (r :: q :: rest)) m ↔
        merged false true (q :: rest) = [] ∧ m = r.final := fun m => by
      have hbreaks : r.breaks = false := by rw [Reply.breaks, hopened, Bool.false_and]
      rw [merged_cons (List.cons_ne_nil _ _), Reply.relayed_bare hopened, hbreaks]
      exact ends_cons (Reply.isFinal_final r)
    rw [if_neg Bool.false_ne_true, ← and_assoc, ← merged_eq_nil (List.cons_ne_nil _ _) hlater]
    simp only [hends, and_assoc, exists_and_left, exists_eq_left, Reply.kind_final_eq]
    refine and_congr_right fun _ => ?_
    rw [List.exists_mem_cons_iff, or_imp]
    exact and_iff_right id

end

/-! ## Runs -/

namespace Interleaving

variable {s : Interleaving}

/-- Every configured node is valid, and no mark is shared across waits. -/
def Complete (s : Interleaving) : Prop :=
  0 < s.b.numBackends ∧ (∀ i < s.b.numBackends, s.b.valid i = true) ∧ ∀ j ∈ s.nodes, ¬ s.Masked j

theorem unread_start : ∀ i ∈ s.served, s.start.unread i = (s.reply i).messages ++ s.after i :=
  fun _ _ => rfl

/-- Otherwise the count is not reached, and `select` sleeps for good. -/
theorem outcome_of_not_complete (h : ¬ s.Complete) : ∃ e, s.outcome = .waiting e := by
  have hrun : ∃ e, inTurn s.b true s.served s.start = .next e := by
    by_cases hpos : 0 < s.b.numBackends
    · have hlt : s.served.length < s.b.numBackends := by
        refine Nat.lt_of_le_of_ne length_served_le fun heq => h ⟨hpos, ?_⟩
        exact length_served_eq_iff.mp heq
      have hcount : s.start.usedCount + s.served.length < s.b.numBackends := by
        change 0 + s.served.length < _
        omega
      obtain ⟨e, hrun, -⟩ := inTurn_next unread_start nodup_served hcount
      exact ⟨e, hrun⟩
    · have hnil : s.served = [] := by
        have hle := s.length_served_le
        rw [← List.length_eq_zero_iff]
        omega
      exact ⟨s.start, by rw [hnil]; rfl⟩
  obtain ⟨e, hrun⟩ := hrun
  exact ⟨e, by rw [outcome_eq, hrun]⟩

theorem outcome_of_complete (h : s.Complete) : ∃ e, s.outcome = .returned .continue e ∧
    (∀ i ∈ s.nodes, e.unread i = s.after i) ∧
    e.frontend = merged true true (s.order.map s.reply) := by
  obtain ⟨hpos, hvalid, hmarks⟩ := h
  have hlength : s.served.length = s.b.numBackends := length_served_eq_iff.mpr ⟨hvalid, hmarks⟩
  have hserved : s.served = s.order := by
    rw [served_eq, List.filter_eq_self]
    intro j hj
    rw [Bool.not_eq_true', decide_eq_false_iff_not]
    exact hmarks j (mem_order.mp hj)
  have hne : s.served ≠ [] := fun hnil => by
    rw [hnil, List.length_nil] at hlength
    omega
  have hcount : s.start.usedCount + s.served.length = s.b.numBackends := by
    change 0 + s.served.length = _
    omega
  obtain ⟨e, hrun, hfront, hread, -⟩ := inTurn_returned unread_start nodup_served hne hcount
  refine ⟨e, by rw [outcome_eq, hrun], fun i hi => hread i ?_, ?_⟩
  · rw [hserved]
    exact mem_order.mpr hi
  · rw [hfront, hserved]
    rfl

theorem faithful_order {out : List Message} :
    Faithful out (s.nodes.map s.reply) ↔ Faithful out (s.order.map s.reply) := by
  have hperm := s.order_perm.map s.reply
  have hfailed : (∃ r ∈ s.order.map s.reply, r.failed = true) ↔
      ∃ r ∈ s.nodes.map s.reply, r.failed = true :=
    exists_congr fun r => and_congr_left fun _ => hperm.mem_iff
  constructor
  · intro ⟨hone, hfirst, hrows, m, hends, hkind⟩
    exact ⟨hone, hfirst, hrows.trans (hperm.flatMap_right _).symm, m, hends, hkind ∘ hfailed.mp⟩
  · intro ⟨hone, hfirst, hrows, m, hends, hkind⟩
    exact ⟨hone, hfirst, hrows.trans (hperm.flatMap_right _), m, hends, hkind ∘ hfailed.mpr⟩

theorem merged_iff_faithful : s.Merged ↔
    s.Complete ∧ Faithful (merged true true (s.order.map s.reply)) (s.order.map s.reply) := by
  by_cases h : s.Complete
  · rw [and_iff_right h]
    obtain ⟨e, hrun, hread, hfront⟩ := outcome_of_complete h
    rw [← hfront, ← faithful_order]
    constructor
    · intro ⟨e', hrun', _, hfaithful⟩
      rw [hrun] at hrun'
      cases hrun'
      exact hfaithful
    · intro hfaithful
      exact ⟨e, hrun, hread, hfaithful⟩
  · obtain ⟨e, hrun⟩ := outcome_of_not_complete h
    refine iff_of_false (fun ⟨e', hrun', _⟩ => ?_) fun hmerged => h hmerged.1
    rw [hrun] at hrun'
    cases hrun'

/-- Node 0 returns a row; node 1 fails at once, and is read second. -/
def missingOnOneNode : Interleaving where
  b := ⟨2, fun _ => true, fun i => 5 + i⟩
  reply i := if i = 0 then ⟨some [], [[1]], false, []⟩ else ⟨none, [], true, []⟩
  after _ := []
  turn i := i
  waits := 2
  turn_lt _ h _ := h
  fd_lt i h _ := by
    have hi : i < 2 := h
    change 5 + i < 1024
    omega
  fd_inj i j _ _ _ _ h := by
    have heq : 5 + i = 5 + j := h
    omega

end Interleaving

end PgPool.Parallel
