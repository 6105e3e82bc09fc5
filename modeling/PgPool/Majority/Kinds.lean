import PgPool.Lib.Majority
import PgPool.Stream.Message

/-!
# The majority of message kinds

`read_kind_from_backend`: the nodes that have executed a query should answer it by messages of one kind.
Where they do not, the kind that more than half of the nodes have sent is trusted, else the master's, and
the other nodes are picked for degeneration.
-/

namespace PgPool.Majority

/-! ## The source -/

/-- The loop that reads a kind: parameter statuses are skipped.  `none`: the stream has ended. -/
def readKind : List WireMessage → Option UInt8
  | [] => none
  | m :: rest => if m.kind ≠ 83 then some m.kind else readKind rest

/-- `kind_map`, `max_kind`, `max_count` and `num_executed_nodes`.  There are at most 128 nodes, so that
the bytes of `kind_map` are large enough. -/
structure Tally where
  kindMap : UInt8 → Nat
  maxKind : UInt8
  maxCount : Nat
  numExecutedNodes : Nat

def Tally.init : Tally := ⟨fun _ => 0, 0, 0, 0⟩

/-- A kind is counted. -/
def Tally.add (t : Tally) (kind : UInt8) : Tally :=
  let kindMap := Function.update t.kindMap kind (t.kindMap kind + 1)
  if t.maxCount < kindMap kind then ⟨kindMap, kind, kindMap kind, t.numExecutedNodes + 1⟩
  else ⟨kindMap, t.maxKind, t.maxCount, t.numExecutedNodes + 1⟩

/-- The loop over the nodes, of which those that have not executed the query are absent. -/
def readKinds : List (Option (List WireMessage)) → Tally → Option (List (Option UInt8) × Tally)
  | [], t => some ([], t)
  | none :: rest, t => (readKinds rest t).map fun p => (none :: p.1, p.2)
  | some messages :: rest, t =>
    match readKind messages with
    | none => none
    | some kind => (readKinds rest (t.add kind)).map fun p => (some kind :: p.1, p.2)

/-- What the function does in the end; `exited`: the nodes are degenerated, and the child is gone. -/
inductive KindStatus where
  | continue | error | exited
  deriving DecidableEq

/-- `decidedKind` is absent where the source takes what stands before `kind_list`. -/
structure KindResult where
  status : KindStatus
  decidedKind : Option UInt8
  degenerateNode : List Nat

/-- An element of `kind_list`. -/
def kindList (kinds : List (Option UInt8)) (i : Nat) : UInt8 := (kinds[i]?.join).getD 0

/-- `trust_kind`. -/
def trustKind (kinds : List (Option UInt8)) (t : Tally) (master : Nat) : Option UInt8 :=
  if t.maxCount ≠ t.numExecutedNodes then
    if 2 * t.maxCount ≤ kinds.length then some (kindList kinds master) else some t.maxKind
  else kinds.findSome? id

/-- The nodes whose kind is not the one that is trusted. -/
def degenerateNode (kinds : List (Option UInt8)) (t : Tally) (master : Nat) : List Nat :=
  if t.maxCount ≠ t.numExecutedNodes then
    (List.range kinds.length).filter fun i =>
      kindList kinds i ≠ 0 ∧ trustKind kinds t master ≠ some (kindList kinds i)
  else []

/-- `read_kind_from_backend`; `stopOnMismatch` is `replication_stop_on_mismatch`. -/
def readKindFromBackend (stopOnMismatch : Bool) (master : Nat)
    (streams : List (Option (List WireMessage))) : Option KindResult :=
  (readKinds streams Tally.init).map fun (kinds, t) =>
    { status :=
        if degenerateNode kinds t master = [] then .continue
        else if stopOnMismatch then .exited else .error
      decidedKind := trustKind kinds t master
      degenerateNode := degenerateNode kinds t master }

/-! ## What is claimed -/

/-- The kinds that the nodes have sent first. -/
def firstKinds (streams : List (Option (List WireMessage))) : List (Option UInt8) :=
  streams.map fun stream => stream.bind readKind

/-- The kinds of those that have executed the query. -/
def executed (kinds : List (Option UInt8)) : List UInt8 := kinds.filterMap id

def Agreed (kinds : List (Option UInt8)) : Prop :=
  ∀ k ∈ executed kinds, ∀ k' ∈ executed kinds, k = k'

/-- More than half of the nodes that have executed the query have sent the kind. -/
def KindMajority (kinds : List (Option UInt8)) (kind : UInt8) : Prop := IsMajority (executed kinds) kind

instance (kinds : List (Option UInt8)) (kind : UInt8) : Decidable (KindMajority kinds kind) :=
  inferInstanceAs (Decidable (IsMajority _ _))

/-- The kind that has to win. -/
def KindWins (kinds : List (Option UInt8)) (master : Nat) (kind : UInt8) : Prop :=
  KindMajority kinds kind ∨ (∀ other, ¬ KindMajority kinds other) ∧ kinds[master]? = some (some kind)

/-- The function goes on just if the nodes agree; else the winner is decided for, and the nodes with other
kinds are reported. -/
structure DecidesKind (kinds : List (Option UInt8)) (master : Nat) (result : KindResult) : Prop where
  continues : result.status = .continue ↔ Agreed kinds
  exact : ¬ Agreed kinds → ∃ kind, KindWins kinds master kind ∧ result.decidedKind = some kind ∧
    ∀ i, i ∈ result.degenerateNode ↔ ∃ other, kinds[i]? = some (some other) ∧ other ≠ kind

/-! ## The condition -/

/-- The nodes agree; or there is a winner, which is the kind of the master or of more than half of all
nodes, whether they have executed the query or not, and no other node has sent a null byte. -/
def Decided (kinds : List (Option UInt8)) (master : Nat) : Prop :=
  Agreed kinds ∨ ∃ kind, KindWins kinds master kind ∧
    (kinds.length < 2 * (executed kinds).count kind ∨ kindList kinds master = kind) ∧
    (0 ∈ executed kinds → kind = 0)

/-! ## The tally -/

variable {kinds : List (Option UInt8)} {master : Nat} {kind other : UInt8} {t : Tally}
  {streams : List (Option (List WireMessage))}

/-- What has been counted. -/
structure Counted (seen : List UInt8) (t : Tally) : Prop where
  kindMap : ∀ k, t.kindMap k = seen.count k
  most : ∀ k, seen.count k ≤ t.maxCount
  maxKind : seen.count t.maxKind = t.maxCount
  numExecutedNodes : t.numExecutedNodes = seen.length

theorem counted_init : Counted [] Tally.init := ⟨fun _ => rfl, fun _ => Nat.le_refl 0, rfl, rfl⟩

theorem Counted.add {seen : List UInt8} (h : Counted seen t) : Counted (seen ++ [kind]) (t.add kind) := by
  have hcount : ∀ k, (seen ++ [kind]).count k = seen.count k + if kind = k then 1 else 0 := by
    intro k
    rw [List.count_append, List.count_singleton]
    simp
  have hmap : ∀ k, Function.update t.kindMap kind (t.kindMap kind + 1) k = (seen ++ [kind]).count k := by
    intro k
    rw [hcount, Function.update_apply]
    by_cases hk : k = kind
    · rw [if_pos hk, hk, if_pos rfl, h.kindMap]
    · rw [if_neg hk, if_neg (Ne.symm hk), h.kindMap]
      rfl
  have hmost := h.most
  unfold Tally.add
  simp only [hmap]
  split
  · rename_i hlead
    rw [hcount, if_pos rfl] at hlead
    refine ⟨hmap, ?_, rfl, by simp [h.numExecutedNodes]⟩
    intro k
    have := hmost k
    rw [hcount]
    simp only [hcount, if_pos]
    split <;> omega
  · rename_i hlead
    rw [hcount, if_pos rfl] at hlead
    refine ⟨hmap, ?_, ?_, by simp [h.numExecutedNodes]⟩
    · intro k
      have := hmost k
      rw [hcount]
      simp only
      split
      · rename_i hk
        rw [← hk]
        omega
      · omega
    · have := h.maxKind
      rw [hcount]
      simp only
      split
      · rename_i hk
        rw [hk] at hlead
        omega
      · omega

theorem readKinds_eq {seen : List UInt8} (h : Counted seen t)
    (hall : ∀ messages, some messages ∈ streams → (readKind messages).isSome = true) :
    ∃ u, readKinds streams t = some (firstKinds streams, u) ∧
      Counted (seen ++ executed (firstKinds streams)) u := by
  induction streams generalizing seen t with
  | nil => exact ⟨t, rfl, by simpa [firstKinds, executed] using h⟩
  | cons stream rest ih =>
    have hrest := fun messages hm => hall messages (List.mem_cons_of_mem _ hm)
    cases stream with
    | none =>
      obtain ⟨u, hu, hcounted⟩ := ih h hrest
      refine ⟨u, ?_, by simpa [firstKinds, executed] using hcounted⟩
      simp [readKinds, hu, firstKinds]
    | some messages =>
      obtain ⟨kind, hkind⟩ := Option.isSome_iff_exists.mp (hall messages List.mem_cons_self)
      have hadd : Counted (seen ++ [kind]) (t.add kind) := h.add
      obtain ⟨u, hu, hcounted⟩ := ih hadd hrest
      refine ⟨u, ?_, by simpa [firstKinds, executed, hkind] using hcounted⟩
      simp [readKinds, hkind, hu, firstKinds]

/-! ## The decision -/

theorem mem_executed : kind ∈ executed kinds ↔ ∃ i : Nat, kinds[i]? = some (some kind) := by
  unfold executed
  rw [List.mem_filterMap]
  simp only [id_eq, exists_eq_right]
  exact List.mem_iff_getElem?

theorem KindWins.eq (h : KindWins kinds master kind) (h' : KindWins kinds master other) :
    kind = other := by
  obtain h | ⟨hnone, h⟩ := h
  · obtain h' | ⟨hnone, -⟩ := h'
    · exact IsMajority.eq h h'
    · exact absurd h (hnone kind)
  · obtain h' | ⟨-, h'⟩ := h'
    · exact absurd h' (hnone other)
    · exact Option.some.inj (Option.some.inj (h.symm.trans h'))

theorem length_executed_le : (executed kinds).length ≤ kinds.length := List.length_filterMap_le _ _

theorem Counted.agreed_iff (h : Counted (executed kinds) t) :
    Agreed kinds ↔ t.maxCount = t.numExecutedNodes := by
  rw [h.numExecutedNodes, ← h.maxKind]
  constructor
  · intro hall
    cases hkinds : executed kinds with
    | nil => rfl
    | cons k rest =>
      have hmem : k ∈ executed kinds := by
        rw [hkinds]
        exact List.mem_cons_self
      have hcount : (executed kinds).count k = (executed kinds).length :=
        List.count_eq_length.mpr fun k' hk' => hall k hmem k' hk'
      have := h.most k
      have := h.maxKind
      have := @List.count_le_length _ _ t.maxKind (executed kinds)
      rw [← hkinds]
      omega
  · intro heq k hk k' hk'
    have hall := List.count_eq_length.mp heq
    rw [← hall k hk, ← hall k' hk']

theorem kindList_of_getElem? {i : Nat} (h : kinds[i]? = some (some kind)) : kindList kinds i = kind := by
  unfold kindList
  rw [h]
  rfl

theorem getElem?_of_kindList {i : Nat} (h : kindList kinds i = kind) (hne : kind ≠ 0) :
    kinds[i]? = some (some kind) := by
  unfold kindList at h
  cases hi : kinds[i]? with
  | none =>
    rw [hi] at h
    exact absurd h.symm hne
  | some k =>
    rw [hi] at h
    cases k with
    | none => exact absurd h.symm hne
    | some k => rw [← h]; rfl

/-- The nodes that are reported when some kind is trusted. -/
theorem mem_degenerateNode (h : t.maxCount ≠ t.numExecutedNodes)
    (htrust : trustKind kinds t master = some kind) {i : Nat} :
    i ∈ degenerateNode kinds t master ↔
      ∃ other, kinds[i]? = some (some other) ∧ other ≠ 0 ∧ other ≠ kind := by
  unfold degenerateNode
  rw [if_pos h, List.mem_filter, List.mem_range, decide_eq_true_eq, htrust]
  constructor
  · intro ⟨_, hzero, hne⟩
    exact ⟨_, getElem?_of_kindList rfl hzero, hzero, fun heq => hne (congrArg some heq.symm)⟩
  · intro ⟨other, hother, hzero, hne⟩
    rw [kindList_of_getElem? hother]
    obtain ⟨hlt, -⟩ := List.getElem?_eq_some_iff.mp hother
    exact ⟨hlt, hzero, fun heq => hne (Option.some.inj heq).symm⟩

/-- Where the nodes do not agree, some kind is trusted; it is the winner just if the winner is the kind of
the master or of more than half of all nodes. -/
theorem trustKind_eq (h : Counted (executed kinds) t) (hne : t.maxCount ≠ t.numExecutedNodes)
    (hwins : KindWins kinds master kind) :
    trustKind kinds t master = some kind ↔
      kinds.length < 2 * (executed kinds).count kind ∨ kindList kinds master = kind := by
  have hlen := @length_executed_le kinds
  unfold trustKind
  rw [if_pos hne]
  split
  · rename_i hfew
    have := h.most kind
    rw [Option.some.injEq]
    refine ⟨.inr, fun hkind => hkind.resolve_left ?_⟩
    omega
  · rename_i hmany
    have hmajority : KindMajority kinds t.maxKind := by
      have := h.maxKind
      unfold KindMajority IsMajority
      omega
    have heq : t.maxKind = kind := KindWins.eq (.inl hmajority) hwins
    have := h.maxKind
    rw [heq] at this
    refine iff_of_true (congrArg some heq) (.inl ?_)
    omega

/-- A message without contents. -/
def emptyMessage (kind : UInt8) : WireMessage := ⟨kind, [], by decide⟩

/-- Two nodes have the majority of three; the kind of the third one comes after a parameter status. -/
def threeNodes : List (Option (List WireMessage)) :=
  [some [emptyMessage 67], some [emptyMessage 67], some [emptyMessage 83, emptyMessage 69]]

/-- Two of the three nodes that have executed the query, of five. -/
def threeOfFive : List (Option (List WireMessage)) :=
  [some [emptyMessage 69], some [emptyMessage 67], some [emptyMessage 67], none, none]

end PgPool.Majority
