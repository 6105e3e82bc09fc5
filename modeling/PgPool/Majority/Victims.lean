import Mathlib.Data.List.Induction
import Mathlib.Data.List.Nodup
import PgPool.Lib.Majority

/-!
# Victims of the majority

`find_victim_nodes`: the nodes that have affected another number of tuples than the others are picked
for degeneration.  A count that more than half of the healthy nodes have wins, else that of the master.
-/

namespace PgPool.Majority

/-! ## The source -/

/-- `maxvotes` and `majority_ntuples`. -/
structure Leader where
  maxvotes : Nat
  majorityNtuples : Int
  deriving DecidableEq

/-- The loop over `j` for the node `i`: the votes, and who leads. -/
def countVotes (i : Nat) (me : Int) : List (Int × Nat) → Nat → Leader → Nat × Leader
  | [], votes, lead => (votes, lead)
  | (other, j) :: rest, votes, lead =>
    if i ≠ j ∧ me = other then
      countVotes i me rest (votes + 1) (if lead.maxvotes < votes + 1 then ⟨votes + 1, me⟩ else lead)
    else countVotes i me rest votes lead

/-- The loop over `i`: the number of healthy nodes, the votes of each node, and who leads. -/
def countAll (ntuples : List Int) : List (Int × Nat) → Leader → Nat × List Int × Leader
  | [], lead => (0, [], lead)
  | (me, i) :: rest, lead =>
    if me < 0 then
      let (healthyNodes, votes, lead) := countAll ntuples rest lead
      (healthyNodes, -1 :: votes, lead)
    else
      let (votes, lead) := countVotes i me ntuples.zipIdx 1 lead
      let (healthyNodes, others, lead) := countAll ntuples rest lead
      (healthyNodes + 1, votes :: others, lead)

/-- The list of victims. -/
def victimsOf (ntuples : List Int) (majorityNtuples : Int) : List Nat :=
  (ntuples.zipIdx.filter fun p => 0 ≤ p.1 ∧ p.1 ≠ majorityNtuples).map Prod.snd

/-- `find_victim_nodes`; without a master there may be no winner. -/
def findVictimNodes (ntuples : List Int) (masterNode : Option (Fin ntuples.length)) :
    Option (List Nat) :=
  let (healthyNodes, votes, lead) := countAll ntuples ntuples.zipIdx ⟨0, 0⟩
  let wins := lead.maxvotes ≠ 1 ∧ ¬ 2 * votes.countP (· = (lead.maxvotes : Int)) ≤ healthyNodes
  if wins then some (victimsOf ntuples lead.majorityNtuples)
  else masterNode.map fun master => victimsOf ntuples (ntuples.get master)

/-! ## What is claimed -/

/-- The counts of the healthy nodes. -/
def healthy (ntuples : List Int) : List Int := ntuples.filter (0 ≤ ·)

/-- More than half of the healthy nodes have the count. -/
def StrictMajority (ntuples : List Int) (count : Int) : Prop := IsMajority (healthy ntuples) count

instance (ntuples : List Int) (count : Int) : Decidable (StrictMajority ntuples count) :=
  inferInstanceAs (Decidable (IsMajority _ _))

/-- The count that has to win. -/
def Wins (ntuples : List Int) (master : Fin ntuples.length) (count : Int) : Prop :=
  StrictMajority ntuples count ∨
    (∀ other, ¬ StrictMajority ntuples other) ∧ count = ntuples.get master

/-- The victims are the healthy nodes with another count than the winner's, and there are some just if
the healthy nodes do not agree. -/
structure Decides (ntuples : List Int) (master : Fin ntuples.length) (victims : List Nat) : Prop where
  exact : ∃ count, Wins ntuples master count ∧
    ∀ i, i ∈ victims ↔ ∃ n, ntuples[i]? = some n ∧ 0 ≤ n ∧ n ≠ count
  nodup : victims.Nodup
  agree : victims = [] ↔ ∀ m ∈ healthy ntuples, ∀ n ∈ healthy ntuples, m = n

/-! ## The condition -/

/-- The nodes whose count is as frequent as any. -/
def leaders (ntuples : List Int) : List Int :=
  (healthy ntuples).filter fun m => ∀ n ∈ healthy ntuples,
    (healthy ntuples).count n ≤ (healthy ntuples).count m

/-- A healthy node that is alone is not set against a master that is down.  Where several counts are
equally frequent, and the nodes that have them are more than half of the healthy ones together, the first
of these nodes has the count of the master. -/
structure Untied (ntuples : List Int) (master : Fin ntuples.length) : Prop where
  alone : ∀ n, healthy ntuples = [n] → ntuples.get master = n
  first : ∀ n, (leaders ntuples).head? = some n → 2 ≤ (healthy ntuples).count n →
    (∀ count, ¬ StrictMajority ntuples count) →
    (healthy ntuples).length < 2 * (leaders ntuples).length → ntuples.get master = n

/-! ## Votes -/

variable {ntuples : List Int} {master : Fin ntuples.length} {count other : Int}

theorem countVotes_eq {i : Nat} {me : Int} {rest : List (Int × Nat)} {votes : Nat} {lead : Leader} :
    countVotes i me rest votes lead =
      (votes + rest.countP (fun p => i ≠ p.2 ∧ me = p.1),
        if 0 < rest.countP (fun p => i ≠ p.2 ∧ me = p.1) ∧
            lead.maxvotes < votes + rest.countP (fun p => i ≠ p.2 ∧ me = p.1) then
          ⟨votes + rest.countP (fun p => i ≠ p.2 ∧ me = p.1), me⟩
        else lead) := by
  induction rest generalizing votes lead with
  | nil => simp [countVotes]
  | cons p rest ih =>
    obtain ⟨n, j⟩ := p
    unfold countVotes
    by_cases hvote : i ≠ j ∧ me = n
    · rw [if_pos hvote, ih, List.countP_cons_of_pos (by simpa using hvote)]
      generalize rest.countP (fun p => i ≠ p.2 ∧ me = p.1) = k
      refine Prod.ext (by simp only; omega) ?_
      simp only
      by_cases hlead : lead.maxvotes < votes + 1
      · simp only [if_pos hlead]
        split <;> split <;> grind
      · simp only [if_neg hlead]
        split <;> split <;> grind
    · rw [if_neg hvote, ih, List.countP_cons_of_neg (by simpa using hvote)]

/-- Each node votes for itself once, whatever it is numbered. -/
theorem countP_others {i : Nat} {me : Int} (h : (me, i) ∈ ntuples.zipIdx) :
    1 + ntuples.zipIdx.countP (fun p => i ≠ p.2 ∧ me = p.1) = ntuples.count me := by
  have hone : ntuples.zipIdx.countP (fun p => decide (i = p.2) && decide (me = p.1)) = 1 := by
    have hnodup : ntuples.zipIdx.Nodup := by
      refine List.Nodup.of_map Prod.snd ?_
      rw [List.zipIdx_map_snd]
      exact List.nodup_range'
    rw [← List.count_eq_one_of_mem hnodup h, List.count]
    refine List.countP_congr fun p _ => ?_
    simp only [Bool.and_eq_true, decide_eq_true_eq, beq_iff_eq, Prod.ext_iff]
    exact ⟨fun hp => ⟨hp.2.symm, hp.1.symm⟩, fun hp => ⟨hp.2.symm, hp.1.symm⟩⟩
  have hall : ntuples.zipIdx.countP (fun p => decide (me = p.1)) = ntuples.count me := by
    rw [List.count, ← List.zipIdx_map_fst 0 ntuples, List.countP_map, List.zipIdx_map_fst]
    refine List.countP_congr fun p _ => ?_
    simp only [decide_eq_true_eq, Function.comp_apply, beq_iff_eq]
    exact eq_comm
  rw [← hall, ← hone, List.countP_eq_countP_filter_add ntuples.zipIdx (fun p => decide (me = p.1))
    fun p => decide (i = p.2), List.countP_filter, List.countP_filter]
  refine congrArg₂ (· + ·) (List.countP_congr fun p _ => ?_) (List.countP_congr fun p _ => ?_)
  · simp [and_comm]
  · simp [and_comm]

theorem count_healthy (h : 0 ≤ count) : (healthy ntuples).count count = ntuples.count count := by
  unfold healthy
  exact List.count_filter (by simpa using h)

/-- A node whose votes have been counted takes the lead if it has more than one, and more than the
leader. -/
def Leader.step (ntuples : List Int) (lead : Leader) (me : Int) : Leader :=
  if 2 ≤ (healthy ntuples).count me ∧ lead.maxvotes < (healthy ntuples).count me then
    ⟨(healthy ntuples).count me, me⟩
  else lead

/-- The votes of a node. -/
def votesOf (ntuples : List Int) (me : Int) : Int :=
  if me < 0 then -1 else (healthy ntuples).count me

theorem countAll_eq {rest : List (Int × Nat)} {lead : Leader} (h : ∀ p ∈ rest, p ∈ ntuples.zipIdx) :
    countAll ntuples rest lead =
      ((healthy (rest.map Prod.fst)).length, (rest.map Prod.fst).map (votesOf ntuples),
        (healthy (rest.map Prod.fst)).foldl (Leader.step ntuples) lead) := by
  induction rest generalizing lead with
  | nil => rfl
  | cons p rest ih =>
    obtain ⟨me, i⟩ := p
    have hrest := fun lead => @ih lead fun p hp => h p (List.mem_cons_of_mem _ hp)
    unfold countAll
    by_cases hdown : me < 0
    · rw [if_pos hdown, hrest]
      simp [healthy, votesOf, hdown]
    · have hup : 0 ≤ me := Int.not_lt.mp hdown
      have hvotes := countP_others (h (me, i) List.mem_cons_self)
      rw [← count_healthy hup] at hvotes
      rw [if_neg hdown, countVotes_eq]
      simp only
      rw [hrest, hvotes]
      have hstep : (if 0 < ntuples.zipIdx.countP (fun p => i ≠ p.2 ∧ me = p.1) ∧
          lead.maxvotes < (healthy ntuples).count me then ⟨(healthy ntuples).count me, me⟩ else lead) =
          lead.step ntuples me := by
        unfold Leader.step
        refine if_congr (and_congr_left fun _ => ?_) rfl rfl
        omega
      simp only [hstep]
      simp [healthy, votesOf, hdown, hup]

/-- Who leads after some nodes. -/
def Leads (ntuples seen : List Int) (lead : Leader) : Prop :=
  (lead = ⟨0, 0⟩ ∧ ∀ n ∈ seen, (healthy ntuples).count n < 2) ∨
    (2 ≤ lead.maxvotes ∧ (∀ n ∈ seen, (healthy ntuples).count n ≤ lead.maxvotes) ∧
      (seen.filter fun n => (healthy ntuples).count n = lead.maxvotes).head? = some lead.majorityNtuples)

theorem leads_foldl (seen : List Int) :
    Leads ntuples seen (seen.foldl (Leader.step ntuples) ⟨0, 0⟩) := by
  induction seen using List.reverseRecOn with
  | nil => exact .inl ⟨rfl, nofun⟩
  | append_singleton seen me ih =>
    rw [List.foldl_concat]
    generalize seen.foldl (Leader.step ntuples) ⟨0, 0⟩ = lead at ih
    unfold Leader.step
    split
    · rename_i hlead
      refine .inr ⟨hlead.1, ?_, ?_⟩
      · intro n hn
        obtain hn | hn := List.mem_append.mp hn
        · obtain ⟨-, hfew⟩ | ⟨-, hfew, -⟩ := ih
          · have := hfew n hn
            simp only
            omega
          · have := hfew n hn
            simp only
            omega
        · obtain rfl := List.mem_singleton.mp hn
          exact Nat.le_refl _
      · have hnone :
            seen.filter (fun n => (healthy ntuples).count n = (healthy ntuples).count me) = [] := by
          rw [List.filter_eq_nil_iff]
          intro n hn
          obtain ⟨-, hfew⟩ | ⟨-, hfew, -⟩ := ih
          · have := hfew n hn
            simp only [decide_eq_true_eq]
            omega
          · have := hfew n hn
            simp only [decide_eq_true_eq]
            omega
        rw [List.filter_append, hnone]
        simp
    · rename_i hlead
      obtain ⟨rfl, hfew⟩ | ⟨htwo, hfew, hhead⟩ := ih
      · refine .inl ⟨rfl, ?_⟩
        intro n hn
        obtain hn | hn := List.mem_append.mp hn
        · exact hfew n hn
        · rw [List.mem_singleton.mp hn]
          simp only at hlead
          omega
      · refine .inr ⟨htwo, ?_, ?_⟩
        · intro n hn
          obtain hn | hn := List.mem_append.mp hn
          · exact hfew n hn
          · rw [List.mem_singleton.mp hn]
            omega
        · rw [List.filter_append, List.head?_append, hhead]
          rfl

/-- Nobody has a second vote, or the first of the leaders leads. -/
theorem lead_cases : ∃ lead, countAll ntuples ntuples.zipIdx ⟨0, 0⟩ =
      ((healthy ntuples).length, ntuples.map (votesOf ntuples), lead) ∧
    ((lead = ⟨0, 0⟩ ∧ ∀ n ∈ healthy ntuples, (healthy ntuples).count n < 2) ∨
      (2 ≤ lead.maxvotes ∧ (healthy ntuples).count lead.majorityNtuples = lead.maxvotes ∧
        (leaders ntuples).head? = some lead.majorityNtuples ∧
        leaders ntuples =
          (healthy ntuples).filter fun n => (healthy ntuples).count n = lead.maxvotes)) := by
  have hall := @countAll_eq ntuples ntuples.zipIdx ⟨0, 0⟩ fun _ h => h
  rw [List.zipIdx_map_fst] at hall
  refine ⟨_, hall, ?_⟩
  obtain hnone | ⟨htwo, hfew, hhead⟩ := @leads_foldl ntuples (healthy ntuples)
  · exact .inl hnone
  · generalize (healthy ntuples).foldl (Leader.step ntuples) ⟨0, 0⟩ = lead at htwo hfew hhead
    have hmem := List.mem_filter.mp (List.mem_of_mem_head? hhead)
    have hmost := of_decide_eq_true hmem.2
    have hleaders : leaders ntuples =
        (healthy ntuples).filter fun n => (healthy ntuples).count n = lead.maxvotes := by
      refine List.filter_congr fun m hm => decide_eq_decide.mpr ⟨fun h => ?_, fun h n hn => ?_⟩
      · have := h _ hmem.1
        have := hfew m hm
        omega
      · rw [h]
        exact hfew n hn
    exact .inr ⟨htwo, hmost, hleaders ▸ hhead, hleaders⟩

/-! ## The winner -/

theorem Wins.eq (h : Wins ntuples master count) (h' : Wins ntuples master other) : count = other := by
  obtain h | ⟨hnone, rfl⟩ := h
  · obtain h' | ⟨hnone, rfl⟩ := h'
    · exact IsMajority.eq h h'
    · exact absurd h (hnone count)
  · obtain h' | ⟨-, rfl⟩ := h'
    · exact absurd h' (hnone other)
    · rfl

/-- Nobody else leads where more than half agree. -/
theorem StrictMajority.leaders (h : StrictMajority ntuples count) :
    leaders ntuples = (healthy ntuples).filter (· = count) := by
  unfold Majority.leaders
  refine List.filter_congr fun m hm => decide_eq_decide.mpr ⟨fun hmost => ?_, ?_⟩
  · exact (IsMajority.eq_of_count_le h (hmost count (IsMajority.mem h))).symm
  · rintro rfl n hn
    by_contra hmore
    have heq := IsMajority.eq_of_count_le h (Nat.le_of_lt (Nat.not_le.mp hmore))
    rw [heq] at hmore
    exact hmore (Nat.le_refl _)

theorem StrictMajority.length_leaders (h : StrictMajority ntuples count) :
    (Majority.leaders ntuples).length = (healthy ntuples).count count := by
  rw [h.leaders, List.count, List.countP_eq_length_filter]
  refine congrArg List.length (List.filter_congr fun m _ => ?_)
  rw [Bool.eq_iff_iff]
  simp

theorem mem_victimsOf {i : Nat} : i ∈ victimsOf ntuples count ↔
    ∃ n, ntuples[i]? = some n ∧ 0 ≤ n ∧ n ≠ count := by
  unfold victimsOf
  simp only [List.mem_map, List.mem_filter, decide_eq_true_eq, Prod.exists, exists_eq_right]
  refine exists_congr fun n => and_congr_left fun _ => ?_
  rw [List.mem_zipIdx_iff_getElem?]

theorem nodup_victimsOf : (victimsOf ntuples count).Nodup := by
  unfold victimsOf
  have hnodup : (ntuples.zipIdx.map Prod.snd).Nodup := by
    rw [List.zipIdx_map_snd]
    exact List.nodup_range'
  exact hnodup.sublist (List.filter_sublist.map Prod.snd)

theorem mem_healthy {n : Int} : n ∈ healthy ntuples ↔ ∃ i : Nat, ntuples[i]? = some n ∧ 0 ≤ n := by
  unfold healthy
  rw [List.mem_filter, List.mem_iff_getElem?, decide_eq_true_eq, exists_and_right]

theorem victimsOf_eq_nil : victimsOf ntuples count = [] ↔ ∀ n ∈ healthy ntuples, n = count := by
  rw [List.eq_nil_iff_forall_not_mem]
  constructor
  · intro h n hn
    obtain ⟨i, hi, hpos⟩ := mem_healthy.mp hn
    by_contra hne
    exact h i (mem_victimsOf.mpr ⟨n, hi, hpos, hne⟩)
  · intro h i hi
    obtain ⟨n, hn, hpos, hne⟩ := mem_victimsOf.mp hi
    exact hne (h n (mem_healthy.mpr ⟨i, hn, hpos⟩))

/-- With the winner's count the victims are as claimed. -/
theorem decides_of_wins (h : Wins ntuples master count) :
    Decides ntuples master (victimsOf ntuples count) := by
  refine ⟨⟨count, h, fun _ => mem_victimsOf⟩, nodup_victimsOf, victimsOf_eq_nil.trans ⟨?_, ?_⟩⟩
  · intro hall m hm n hn
    rw [hall m hm, hall n hn]
  · intro hall n hn
    have hmajority : StrictMajority ntuples n := .of_forall (fun m hm => hall m hm n hn) hn
    exact (h.eq (.inl hmajority)).symm

/-- No other count gives the same victims, if either is one of a healthy node. -/
theorem wins_of_decides (h : Decides ntuples master (victimsOf ntuples count))
    (hmem : count ∈ healthy ntuples ∨ ∃ n ∈ healthy ntuples, Wins ntuples master n) :
    Wins ntuples master count := by
  obtain ⟨winner, hwins, hvictims⟩ := h.exact
  have hsame : ∀ n ∈ healthy ntuples, n ≠ count ↔ n ≠ winner := by
    intro n hn
    obtain ⟨i, hi, hpos⟩ := mem_healthy.mp hn
    have hi' := mem_victimsOf.symm.trans (hvictims i)
    simpa [hi, hpos] using hi'
  obtain hmem | ⟨n, hn, hwins'⟩ := hmem
  · have := hsame count hmem
    grind
  · obtain rfl := hwins.eq hwins'
    have := hsame _ hn
    grind

theorem decides_iff_wins
    (hmem : count ∈ healthy ntuples ∨ ∃ n ∈ healthy ntuples, Wins ntuples master n) :
    Decides ntuples master (victimsOf ntuples count) ↔ Wins ntuples master count :=
  ⟨fun h => wins_of_decides h hmem, decides_of_wins⟩

/-! ## The function -/

/-- Nobody has the vote of another node. -/
theorem decides_of_distinct (h : ∀ n ∈ healthy ntuples, (healthy ntuples).count n < 2) :
    Decides ntuples master (victimsOf ntuples (ntuples.get master)) ↔ Untied ntuples master := by
  have hone : ∀ n ∈ healthy ntuples, (healthy ntuples).count n = 1 := by
    intro n hn
    have := h n hn
    have := List.count_pos_iff.mpr hn
    omega
  have hfirst : ∀ n, (leaders ntuples).head? = some n → 2 ≤ (healthy ntuples).count n → False := by
    intro n hn htwo
    have := h n (List.mem_filter.mp (List.mem_of_mem_head? hn)).1
    omega
  cases hhealthy : healthy ntuples with
  | nil =>
    refine iff_of_true (decides_of_wins (.inr ⟨?_, rfl⟩)) ⟨?_, ?_⟩
    · intro other hother
      rw [StrictMajority, IsMajority, hhealthy] at hother
      simp at hother
    · intro n hn
      cases hhealthy.symm.trans hn
    · exact fun n hn htwo => (hfirst n hn htwo).elim
  | cons n rest =>
    by_cases hrest : rest = []
    · rw [hrest] at hhealthy
      have hmem : n ∈ healthy ntuples := by
        rw [hhealthy]
        exact List.mem_cons_self
      have hwins : Wins ntuples master n := by
        refine .inl ?_
        rw [StrictMajority, IsMajority, hhealthy]
        simp
      rw [decides_iff_wins (.inr ⟨n, hmem, hwins⟩)]
      constructor
      · intro h'
        refine ⟨?_, fun n hn htwo => (hfirst n hn htwo).elim⟩
        intro m hm
        rw [← (List.cons.inj (hhealthy.symm.trans hm)).1]
        exact h'.eq hwins
      · intro h'
        rw [h'.alone n hhealthy]
        exact hwins
    · have hnone : ∀ other, ¬ StrictMajority ntuples other := by
        intro other hother
        have hcount := hone other hother.mem
        have := List.length_pos_iff.mpr hrest
        rw [StrictMajority, IsMajority, hcount, hhealthy, List.length_cons] at hother
        omega
      refine iff_of_true (decides_of_wins (.inr ⟨hnone, rfl⟩)) ⟨?_, ?_⟩
      · intro m hm
        exact absurd (List.cons.inj (hhealthy.symm.trans hm)).2 hrest
      · exact fun n hn htwo => (hfirst n hn htwo).elim

/-- Some nodes have the votes of others. -/
theorem decides_of_led {first : Int} (hhead : (leaders ntuples).head? = some first)
    (htwo : 2 ≤ (healthy ntuples).count first) :
    Decides ntuples master (victimsOf ntuples
      (if 2 * (leaders ntuples).length ≤ (healthy ntuples).length then ntuples.get master else first)) ↔
      Untied ntuples master := by
  have hmem : first ∈ healthy ntuples := (List.mem_filter.mp (List.mem_of_mem_head? hhead)).1
  have halone : ∀ n, healthy ntuples = [n] → ntuples.get master = n := by
    intro n hn
    have hlength : 2 ≤ (healthy ntuples).length := Nat.le_trans htwo List.count_le_length
    rw [hn] at hlength
    exact absurd hlength (by simp)
  by_cases hmany : 2 * (leaders ntuples).length ≤ (healthy ntuples).length
  · have hnone : ∀ other, ¬ StrictMajority ntuples other := by
      intro other hother
      have hl := hother.length_leaders
      unfold StrictMajority IsMajority at hother
      omega
    rw [if_pos hmany]
    refine iff_of_true (decides_of_wins (.inr ⟨hnone, rfl⟩)) ⟨halone, ?_⟩
    intro n _ _ _ h
    omega
  · rw [if_neg hmany, decides_iff_wins (.inl hmem)]
    constructor
    · intro h
      refine ⟨halone, ?_⟩
      intro n hn _ hnone _
      obtain h | ⟨-, h⟩ := h
      · exact absurd h (hnone _)
      · rw [← h]
        exact Option.some.inj (hhead.symm.trans hn)
    · intro h
      by_cases hnone : ∀ other, ¬ StrictMajority ntuples other
      · exact .inr ⟨hnone, (h.first _ hhead htwo hnone (by omega)).symm⟩
      · obtain ⟨other, hother⟩ := not_forall_not.mp hnone
        have hfirst := List.mem_of_mem_head? hhead
        rw [hother.leaders] at hfirst
        rw [of_decide_eq_true (List.mem_filter.mp hfirst).2]
        exact .inl hother

theorem votesOf_eq_iff {n : Int} {votes : Nat} :
    votesOf ntuples n = (votes : Int) ↔ 0 ≤ n ∧ (healthy ntuples).count n = votes := by
  unfold votesOf
  split
  · omega
  · omega

/-- So many nodes have the votes of the leader. -/
theorem countP_votesOf (votes : Nat) : (ntuples.map (votesOf ntuples)).countP (· = (votes : Int)) =
    ((healthy ntuples).filter fun n => (healthy ntuples).count n = votes).length := by
  rw [List.countP_map, ← List.countP_eq_length_filter]
  show _ = (ntuples.filter (0 ≤ ·)).countP fun n => (healthy ntuples).count n = votes
  rw [List.countP_filter]
  refine List.countP_congr fun n _ => ?_
  simp only [Function.comp_apply, decide_eq_true_eq, Bool.and_eq_true, votesOf_eq_iff]
  exact And.comm

/-- The victims by the master's count, or by that of the first leader where the leaders are many. -/
theorem findVictimNodes_cases (master : Fin ntuples.length) :
    (findVictimNodes ntuples (some master) = some (victimsOf ntuples (ntuples.get master)) ∧
      ∀ n ∈ healthy ntuples, (healthy ntuples).count n < 2) ∨
    ∃ first, (leaders ntuples).head? = some first ∧ 2 ≤ (healthy ntuples).count first ∧
      findVictimNodes ntuples (some master) = some (victimsOf ntuples
        (if 2 * (leaders ntuples).length ≤ (healthy ntuples).length then ntuples.get master
          else first)) := by
  unfold findVictimNodes
  obtain ⟨lead, hall, ⟨rfl, hdistinct⟩ | ⟨htwo, hmost, hhead, hleaders⟩⟩ := @lead_cases ntuples
  · have hnone : ((healthy ntuples).filter fun n => (healthy ntuples).count n = 0) = [] := by
      rw [List.filter_eq_nil_iff]
      intro n hn hzero
      have := of_decide_eq_true hzero
      have := List.count_pos_iff.mpr hn
      omega
    refine .inl ⟨?_, hdistinct⟩
    rw [hall]
    simp only [countP_votesOf, hnone]
    simp
  · refine .inr ⟨_, hhead, hmost ▸ htwo, ?_⟩
    rw [hall]
    simp only [countP_votesOf, ← hleaders]
    by_cases hmany : 2 * (leaders ntuples).length ≤ (healthy ntuples).length
    · rw [if_neg fun h => h.2 hmany, if_pos hmany]
      rfl
    · rw [if_pos ⟨by omega, hmany⟩, if_neg hmany]

/-- `find_victim_nodes` picks the victims by the majority exactly if no healthy node is alone against a
master that is down, and no tie is won by others than the master. -/
theorem decides_iff (ntuples : List Int) (master : Fin ntuples.length) :
    (∃ victims, findVictimNodes ntuples (some master) = some victims ∧
      Decides ntuples master victims) ↔ Untied ntuples master := by
  obtain ⟨hresult, hdistinct⟩ | ⟨first, hhead, htwo, hresult⟩ := findVictimNodes_cases master
  · rw [hresult, ← decides_of_distinct hdistinct]
    simp only [Option.some.injEq, exists_eq_left']
  · rw [hresult, ← decides_of_led hhead htwo]
    simp only [Option.some.injEq, exists_eq_left']

/-- Two against two: the first two win, whoever is the master. -/
def twoAgainstTwo : List Int := [5, 5, 7, 7]

theorem not_decides_twoAgainstTwo : ¬ ∀ (ntuples : List Int) (master : Fin ntuples.length),
    ∃ victims, findVictimNodes ntuples (some master) = some victims ∧ Decides ntuples master victims := by
  intro h
  obtain ⟨victims, hvictims, hdecides⟩ := h twoAgainstTwo (2 : Fin 4)
  have hresult : findVictimNodes twoAgainstTwo (some (2 : Fin 4)) = some [2, 3] := by decide
  obtain rfl := Option.some.inj (hvictims.symm.trans hresult)
  obtain ⟨count, hwins, hexact⟩ := hdecides.exact
  obtain hcount | ⟨-, rfl⟩ := hwins
  · have hcases : count = 5 ∨ count = 7 := by simpa [healthy, twoAgainstTwo] using hcount.mem
    obtain rfl | rfl := hcases
    · exact absurd hcount (by decide)
    · exact absurd hcount (by decide)
  · exact absurd ((hexact 0).mpr ⟨5, rfl, by decide, by decide⟩) (by decide)

end PgPool.Majority
