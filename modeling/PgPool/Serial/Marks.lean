import PgPool.Serial.Discipline

/-!
# Internal transactions

`INTERNAL_TRANSACTION_STARTED` is set when `start_internal_transaction` has sent BEGIN, and cleared when
`end_internal_transaction` has sent COMMIT.  It says that the node is in a block that pgpool itself has
opened, as long as nobody else ends that block.
-/

namespace PgPool.Serial

open PgPool.Serial.System

/-- A node is in a transaction that `start_internal_transaction` has opened. -/
def Inside (server : NodeId → Server) (i : NodeId) : Prop :=
  (server i).inBlock = true ∧ (server i).internal = true

/-- `end_internal_transaction` has sent COMMIT to a node, and not yet cleared the mark. -/
def Ending (i : NodeId) : List Op → Prop
  | .settle j :: .mark k false :: _ => j = i ∧ k = i
  | .mark k false :: _ => k = i
  | _ => False

/-- Outside of the bodies of `start_internal_transaction` and `end_internal_transaction`. -/
def Plain (ops : List Op) : Prop :=
  ∀ op ∈ ops, (∀ i b, op ≠ .mark i b) ∧ (∀ i, op ≠ .send i .begin) ∧ ∀ i, op ≠ .send i .commit

/-- What a child is at, and what is known of the node then. -/
inductive Phase (child : ChildState) (queue : NodeId → List Msg) (server : NodeId → Server) :
    List Op → Prop
  | plain {ops : List Op} (plain : Plain ops) : Phase child queue server ops
  | starting {i : NodeId} {rest : List Op} (plain : Plain rest)
      (mark : child.internalTransactionStarted i = false) :
      Phase child queue server (.send i .begin :: .settle i :: .status i :: .mark i true :: rest)
  | begun {i : NodeId} {rest : List Op} (plain : Plain rest)
      (mark : child.internalTransactionStarted i = false)
      (node : queue i = [.begin] ∧ (server i).inBlock = false ∨ queue i = [] ∧ Inside server i) :
      Phase child queue server (.settle i :: .status i :: .mark i true :: rest)
  | known {i : NodeId} {rest : List Op} (plain : Plain rest) (empty : queue i = [])
      (inside : Inside server i) : Phase child queue server (.status i :: .mark i true :: rest)
  | marking {i : NodeId} {rest : List Op} (plain : Plain rest) (empty : queue i = [])
      (inside : Inside server i) (state : child.tstate i ≠ .I) :
      Phase child queue server (.mark i true :: rest)
  | ending {i : NodeId} {rest : List Op} (plain : Plain rest) (empty : queue i = [])
      (inside : Inside server i) :
      Phase child queue server (.send i .commit :: .settle i :: .mark i false :: rest)
  | ended {i : NodeId} {rest : List Op} (plain : Plain rest)
      (node : queue i = [.commit] ∧ Inside server i ∨ queue i = []) :
      Phase child queue server (.settle i :: .mark i false :: rest)
  | unmarking {i : NodeId} {rest : List Op} (plain : Plain rest) :
      Phase child queue server (.mark i false :: rest)

/-- The state of a child and its connections, as far as the marks are concerned. -/
structure Accounts (env : Cluster) (child : ChildState) (queue : NodeId → List Msg)
    (server : NodeId → Server) : Prop where
  phase : Phase child queue server child.pending
  inside : ∀ i, child.internalTransactionStarted i = true → ¬ Ending i child.pending →
    Inside server i ∧ child.tstate i ≠ .I
  begins : ∀ i, queue i = [.begin] →
    ∃ rest, child.pending = .settle i :: .status i :: .mark i true :: rest
  commits : ∀ i, queue i = [.commit] → ∃ rest, child.pending = .settle i :: .mark i false :: rest
  ends : ∀ i m, queue i = [m] → endsBlock m → child.internalTransactionStarted i = false
  /-- `reset_backend` starts nothing, and has an ABORT for every node that is marked. -/
  reset : ∀ j, .assume j .I ∈ child.pending →
    (j ∈ env.nodes ∧ ∀ i, .startInternal i ∉ child.pending ∧ .mark i true ∉ child.pending) ∧
      ∀ i ∈ env.nodes, child.internalTransactionStarted i = true →
        .send i (.query .rollback) ∈ child.pending
  last : child.pending.Pairwise fun op op' => (∃ j, op = .assume j .I) → ∃ j, op' = .assume j .I

section

variable {env : Cluster} {child child' : ChildState} {queue queue' : NodeId → List Msg}
  {server server' : NodeId → Server} {i j : NodeId} {m : Msg} {op : Op} {ops rest : List Op}

theorem Plain.not_ending (h : Plain ops) : ¬ Ending i ops := by
  unfold Ending
  split
  · next j k rest => exact fun _ => (h (.mark k false) (by simp)).1 k false rfl
  · next k _ => exact fun _ => (h (.mark k false) (by simp)).1 k false rfl
  · exact id

theorem Plain.tail (h : Plain (op :: ops)) : Plain ops :=
  fun op hop => h op (List.mem_cons_of_mem _ hop)

theorem plain_append {xs ys : List Op} : Plain (xs ++ ys) ↔ Plain xs ∧ Plain ys := by
  simp only [Plain, List.mem_append]
  grind

/-- A mark is only handled in the bodies of the two functions. -/
theorem Plain.no_mark {b : Bool} (h : Plain ops) (hmem : .mark i b ∈ ops) : False :=
  (h _ hmem).1 i b rfl

/-- Nothing is lost when a block is left behind. -/
theorem Phase.mono (h : Phase child queue server ops)
    (inside : ∀ j, Inside server j → Inside server' j)
    (outside : ∀ j, (server j).inBlock = false → (server' j).inBlock = false) :
    Phase child queue server' ops := by
  cases h with
  | plain hplain => exact .plain hplain
  | starting hplain hmark => exact .starting hplain hmark
  | begun hplain hmark node =>
    exact .begun hplain hmark (node.imp (fun hn => ⟨hn.1, outside _ hn.2⟩)
      fun hn => ⟨hn.1, inside _ hn.2⟩)
  | known hplain hempty hinside => exact .known hplain hempty (inside _ hinside)
  | marking hplain hempty hinside hstate => exact .marking hplain hempty (inside _ hinside) hstate
  | ending hplain hempty hinside => exact .ending hplain hempty (inside _ hinside)
  | ended hplain node => exact .ended hplain (node.imp (fun hn => ⟨hn.1, inside _ hn.2⟩) id)
  | unmarking hplain => exact .unmarking hplain

/-- Nothing is known of a node with a message in its connection but what the message will do. -/
theorem Phase.process (h : Phase child queue server ops) (hq : queue i = [m])
    (empty : queue' i = []) (same : ∀ j, j ≠ i → queue' j = queue j)
    (hother : ∀ j, j ≠ i → server' j = server j) (hkeeps : KeepsBlock m (server i) (server' i)) :
    Phase child queue' server' ops := by
  have other : ∀ j, j ≠ i → Inside server j → Inside server' j := fun j hj hin => by
    rwa [Inside, hother j hj]
  have busy : ∀ k, queue k = [] → k ≠ i := by
    rintro k hempty rfl
    simp [hempty] at hq
  cases h with
  | plain hplain => exact .plain hplain
  | starting hplain hmark => exact .starting hplain hmark
  | @begun k rest hplain hmark node =>
    refine .begun hplain hmark ?_
    by_cases hk : k = i
    · subst hk
      rcases node with ⟨hbegin, hout⟩ | ⟨hnil, -⟩
      · cases hq.symm.trans hbegin
        exact .inr ⟨empty, hkeeps.2 rfl hout⟩
      · exact (busy k hnil rfl).elim
    · rw [same k hk, hother k hk]
      exact node.imp id fun hn => ⟨hn.1, other k hk hn.2⟩
  | @known k rest hplain hempty hinside =>
    have hk := busy k hempty
    exact .known hplain ((same k hk).trans hempty) (other k hk hinside)
  | @marking k rest hplain hempty hinside hstate =>
    have hk := busy k hempty
    exact .marking hplain ((same k hk).trans hempty) (other k hk hinside) hstate
  | @ending k rest hplain hempty hinside =>
    have hk := busy k hempty
    exact .ending hplain ((same k hk).trans hempty) (other k hk hinside)
  | @ended k rest hplain node =>
    refine .ended hplain ?_
    by_cases hk : k = i
    · subst hk
      exact .inr empty
    · rw [same k hk]
      exact node.imp (fun hn => ⟨hn.1, other k hk hn.2⟩) id
  | unmarking hplain => exact .unmarking hplain

/-- An aborted transaction leaves its block behind. -/
theorem Accounts.abort (h : Accounts env child queue server)
    (hsame : ∀ j, (server' j).inBlock = (server j).inBlock ∧
      (server' j).internal = (server j).internal) : Accounts env child queue server' := by
  have inside : ∀ j, Inside server j → Inside server' j := by
    intro j ⟨hin, hint⟩
    exact ⟨(hsame j).1.trans hin, (hsame j).2.trans hint⟩
  exact ⟨h.phase.mono inside fun j hout => (hsame j).1.trans hout,
    fun j hm he => (h.inside j hm he).imp (inside j) id, h.begins, h.commits, h.ends, h.reset, h.last⟩

/-- A node gets to the message in a connection. -/
theorem Accounts.process (h : Accounts env child queue server) (hq : queue i = [m])
    (hqueue : queue' = Function.update queue i []) (hother : ∀ j, j ≠ i → server' j = server j)
    (hkeeps : KeepsBlock m (server i) (server' i)) : Accounts env child queue' server' := by
  have empty : queue' i = [] := by simp [hqueue]
  have same : ∀ j, j ≠ i → queue' j = queue j := fun j hj => by simp [hqueue, hj]
  have shrinks : ∀ j m', queue' j = [m'] → queue j = [m'] := by
    intro j m' hj
    by_cases hji : j = i
    · subst hji
      simp [empty] at hj
    · rwa [same j hji] at hj
  refine ⟨h.phase.process hq empty same hother hkeeps, fun j hm he => ?_,
    fun j hj => h.begins j (shrinks j _ hj), fun j hj => h.commits j (shrinks j _ hj),
    fun j m' hj => h.ends j m' (shrinks j _ hj), h.reset, h.last⟩
  obtain ⟨hinside, hstate⟩ := h.inside j hm he
  refine ⟨?_, hstate⟩
  by_cases hj : j = i
  · subst hj
    have hends : endsBlock m = false := by
      by_contra hends
      simp [h.ends j m hq (by simpa using hends)] at hm
    have hcommit : m ≠ .commit := by
      rintro rfl
      obtain ⟨rest, hp⟩ := h.commits j hq
      exact he (by simp [hp, Ending])
    exact hkeeps.1 hends hcommit hinside.1 hinside.2
  · rwa [Inside, hother j hj]

/-- What is put back into the pool is not marked. -/
theorem Accounts.unmarked (h : Accounts env child queue server)
    (hp : child.pending = .assume i .I :: rest) : child.internalTransactionStarted i = false := by
  by_contra hm
  obtain ⟨⟨hi, -⟩, hrollback⟩ := h.reset i (by simp [hp])
  have := hrollback i hi (by simpa using hm)
  have last := h.last
  rw [hp] at this last
  rcases List.mem_cons.mp this with heq | hmem
  · simp at heq
  · obtain ⟨j, hj⟩ := (List.pairwise_cons.mp last).1 _ hmem ⟨i, rfl⟩
    simp at hj

theorem Accounts.last_tail (h : Accounts env child queue server) (hp : child.pending = op :: rest) :
    rest.Pairwise fun op op' => (∃ j, op = .assume j .I) → ∃ j, op' = .assume j .I := by
  have hlast := h.last
  rw [hp] at hlast
  exact (List.pairwise_cons.mp hlast).2

/-- `reset_backend` has nothing to start, and nothing to mark. -/
theorem Accounts.not_resetting (h : Accounts env child queue server)
    (hstart : .startInternal i ∈ child.pending ∨ .mark i true ∈ child.pending) :
    .assume j .I ∉ child.pending := by
  intro hj
  obtain ⟨⟨-, hnone⟩, -⟩ := h.reset j hj
  exact hstart.elim (hnone i).1 (hnone i).2

/-- What `reset_backend` still has to do, when an operation is taken off the list. -/
theorem Accounts.reset_tail (h : Accounts env child queue server) (hp : child.pending = op :: rest)
    (hrollback : ∀ i, op = .send i (.query .rollback) → child.internalTransactionStarted i = false)
    (hmarks : ∀ i, child'.internalTransactionStarted i = true →
      child.internalTransactionStarted i = true) (hj : .assume j .I ∈ rest) :
    (j ∈ env.nodes ∧ ∀ i, .startInternal i ∉ rest ∧ .mark i true ∉ rest) ∧
      ∀ i ∈ env.nodes, child'.internalTransactionStarted i = true →
        .send i (.query .rollback) ∈ rest := by
  obtain ⟨⟨hmem, hnone⟩, hmarked⟩ := h.reset j (by simp [hp, hj])
  refine ⟨⟨hmem, fun i => ⟨fun hi => (hnone i).1 (by simp [hp, hi]),
    fun hi => (hnone i).2 (by simp [hp, hi])⟩⟩, fun i hi hm => ?_⟩
  have hsend := hmarked i hi (hmarks i hm)
  rw [hp, List.mem_cons] at hsend
  refine hsend.resolve_left fun heq => ?_
  have hunmarked := hrollback i heq.symm
  rw [hmarks i hm] at hunmarked
  cases hunmarked

/-- The only message in a connection is the one just sent, or was there before. -/
theorem sent_or_queued {m' : Msg} (h : Function.update queue i [m] j = [m']) :
    (j = i ∧ m' = m) ∨ queue j = [m'] := by
  by_cases hji : j = i
  · subst hji
    rw [Function.update_self] at h
    exact .inl ⟨rfl, (List.cons.inj h).1.symm⟩
  · rw [Function.update_of_ne hji] at h
    exact .inr h

/-- A child takes an operation off its list, outside of the two functions. -/
theorem Accounts.pop (h : Accounts env child queue server) (hp : child.pending = op :: rest)
    (hplain : Plain (op :: rest)) (hpending : child'.pending = rest)
    (hmark : child'.internalTransactionStarted = child.internalTransactionStarted)
    (hstate : ∀ i, child.internalTransactionStarted i = true → Inside server i →
      child.tstate i ≠ .I → child'.tstate i ≠ .I)
    (hrollback : ∀ i, op = .send i (.query .rollback) → child.internalTransactionStarted i = false)
    (hqueue : ∀ i m, queue' i = [m] → queue i = [m] ∨
      m ≠ .begin ∧ m ≠ .commit ∧ (endsBlock m → child.internalTransactionStarted i = false)) :
    Accounts env child' queue' server := by
  have plain : Plain child.pending := hp ▸ hplain
  refine ⟨hpending ▸ .plain hplain.tail, fun i hm _ => ?_, fun i hi => ?_, fun i hi => ?_,
    fun i m hi hends => ?_, fun j hj => ?_, hpending ▸ ?_⟩
  · rw [hmark] at hm
    obtain ⟨hinside, hne⟩ := h.inside i hm plain.not_ending
    exact ⟨hinside, hstate i hm hinside hne⟩
  · rcases hqueue i _ hi with hold | ⟨hne, -⟩
    · obtain ⟨rest', hp'⟩ := h.begins i hold
      exact (plain.no_mark (i := i) (b := true) (by simp [hp'])).elim
    · exact (hne rfl).elim
  · rcases hqueue i _ hi with hold | ⟨-, hne, -⟩
    · obtain ⟨rest', hp'⟩ := h.commits i hold
      exact (plain.no_mark (i := i) (b := false) (by simp [hp'])).elim
    · exact (hne rfl).elim
  · rw [hmark]
    rcases hqueue i m hi with hold | ⟨-, -, hnew⟩
    · exact h.ends i m hold hends
    · exact hnew hends
  · rw [hpending] at hj ⊢
    exact h.reset_tail hp hrollback (fun i hm => hmark ▸ hm) hj
  · exact h.last_tail hp

/-- Outside of the two functions nothing of theirs waits, and marks are right. -/
theorem Accounts.plain (h : Accounts env child queue server) (hp : child.pending = op :: rest)
    (hop : ∀ i, op ≠ .settle i ∧ ∀ b, op ≠ .mark i b) :
    (∀ i, queue i ≠ [.begin] ∧ queue i ≠ [.commit]) ∧ ∀ i, ¬ Ending i child.pending := by
  refine ⟨fun i => ⟨fun hi => ?_, fun hi => ?_⟩, fun i hi => ?_⟩
  · obtain ⟨rest', hp'⟩ := h.begins i hi
    rw [hp] at hp'
    exact (hop i).1 (List.cons.inj hp').1
  · obtain ⟨rest', hp'⟩ := h.commits i hi
    rw [hp] at hp'
    exact (hop i).1 (List.cons.inj hp').1
  · rw [hp] at hi
    unfold Ending at hi
    split at hi
    · next heq => exact (hop _).1 (List.cons.inj heq).1
    · next heq => exact (hop _).2 false (List.cons.inj heq).1
    · exact hi

/-- `start_internal_transaction` goes to work. -/
theorem Accounts.startInternal (h : Accounts env child queue server)
    (hp : child.pending = .startInternal i :: rest) (hplain : Plain rest)
    (hmark : child.internalTransactionStarted i = false) :
    Accounts env { child with
      pending := .send i .begin :: .settle i :: .status i :: .mark i true :: rest } queue server := by
  obtain ⟨hqueue, hending⟩ := h.plain hp (by simp)
  refine ⟨.starting hplain hmark, fun j hm _ => h.inside j hm (hending j),
    fun j hj => ((hqueue j).1 hj).elim, fun j hj => ((hqueue j).2 hj).elim, h.ends, fun j hj => ?_, ?_⟩
  · exact (h.not_resetting (i := i) (.inl (by simp [hp])) (by simpa [hp] using hj)).elim
  · simpa using h.last_tail hp

/-- BEGIN is sent. -/
theorem Accounts.sendBegin (h : Accounts env child queue server)
    (hp : child.pending = .send i .begin :: .settle i :: .status i :: .mark i true :: rest)
    (hplain : Plain rest) (hmark : child.internalTransactionStarted i = false)
    (hout : (server i).inBlock = false) (hqueue' : queue' = Function.update queue i [.begin]) :
    Accounts env { child with pending := .settle i :: .status i :: .mark i true :: rest } queue'
      server := by
  obtain ⟨hqueue, hending⟩ := h.plain hp (by simp)
  have grown : ∀ j m, queue' j = [m] → (j = i ∧ m = .begin) ∨ queue j = [m] :=
    fun j m hj => sent_or_queued (hqueue' ▸ hj)
  refine ⟨.begun hplain hmark (.inl ⟨by simp [hqueue'], hout⟩),
    fun j hm _ => h.inside j hm (hending j), fun j hj => ?_, fun j hj => ?_, fun j m hj hends => ?_,
    fun j hj => ?_, ?_⟩
  · rcases grown j _ hj with ⟨rfl, -⟩ | hold
    · exact ⟨rest, rfl⟩
    · exact ((hqueue j).1 hold).elim
  · rcases grown j _ hj with ⟨-, heq⟩ | hold
    · simp at heq
    · exact ((hqueue j).2 hold).elim
  · rcases grown j _ hj with ⟨-, rfl⟩ | hold
    · simp [endsBlock] at hends
    · exact h.ends j m hold hends
  · exact (h.not_resetting (i := i) (.inr (by simp [hp])) (by simpa [hp] using hj)).elim
  · exact h.last_tail hp

/-- BEGIN has been answered. -/
theorem Accounts.settleBegin (h : Accounts env child queue server)
    (hp : child.pending = .settle i :: .status i :: .mark i true :: rest) (hplain : Plain rest)
    (hempty : queue i = []) (hinside : Inside server i) :
    Accounts env { child with pending := .status i :: .mark i true :: rest } queue server := by
  refine ⟨.known hplain hempty hinside, fun j hm _ => h.inside j hm ?_, fun j hj => ?_, fun j hj => ?_,
    h.ends, fun j hj => ?_, ?_⟩
  · simp [hp, Ending]
  · obtain ⟨rest', hp'⟩ := h.begins j hj
    simp [hp] at hp'
    simp [← hp'.1, hempty] at hj
  · obtain ⟨rest', hp'⟩ := h.commits j hj
    simp [hp] at hp'
  · exact (h.not_resetting (i := i) (.inr (by simp [hp])) (by simpa [hp] using hj)).elim
  · exact h.last_tail hp

/-- The state of the node is noted. -/
theorem Accounts.statusBegin (h : Accounts env child queue server)
    (hp : child.pending = .status i :: .mark i true :: rest) (hplain : Plain rest)
    (hempty : queue i = []) (hinside : Inside server i) {state : TState} (hstate : state ≠ .I) :
    Accounts env { child with
      pending := .mark i true :: rest
      tstate := Function.update child.tstate i state } queue server := by
  obtain ⟨hqueue, hending⟩ := h.plain hp (by simp)
  refine ⟨.marking hplain hempty hinside (by simpa using hstate), fun j hm _ => ?_,
    fun j hj => ((hqueue j).1 hj).elim, fun j hj => ((hqueue j).2 hj).elim, h.ends, fun j hj => ?_, ?_⟩
  · obtain ⟨hin, hne⟩ := h.inside j hm (hending j)
    refine ⟨hin, ?_⟩
    by_cases hj : j = i
    · subst hj
      simpa using hstate
    · simpa [hj] using hne
  · exact (h.not_resetting (i := i) (.inr (by simp [hp])) (by simpa [hp] using hj)).elim
  · exact h.last_tail hp

/-- The mark is set. -/
theorem Accounts.markStarted (h : Accounts env child queue server)
    (hp : child.pending = .mark i true :: rest) (hplain : Plain rest) (hempty : queue i = [])
    (hinside : Inside server i) (hstate : child.tstate i ≠ .I) :
    Accounts env { child with
      pending := rest
      internalTransactionStarted := Function.update child.internalTransactionStarted i true }
      queue server := by
  have hending : ∀ j, ¬ Ending j child.pending := by simp [hp, Ending]
  refine ⟨.plain hplain, fun j hm _ => ?_, fun j hj => ?_, fun j hj => ?_, fun j m hj hends => ?_,
    fun j hj => ?_, ?_⟩
  · by_cases hji : j = i
    · subst hji
      exact ⟨hinside, hstate⟩
    · exact h.inside j (by simpa [hji] using hm) (hending j)
  · obtain ⟨rest', hp'⟩ := h.begins j hj
    simp [hp] at hp'
  · obtain ⟨rest', hp'⟩ := h.commits j hj
    simp [hp] at hp'
  · by_cases hji : j = i
    · subst hji
      simp [hempty] at hj
    · simpa [hji] using h.ends j m hj hends
  · exact (h.not_resetting (i := i) (.inr (by simp [hp])) (by simpa [hp] using hj)).elim
  · exact h.last_tail hp

/-- `end_internal_transaction` goes to work. -/
theorem Accounts.endInternal (h : Accounts env child queue server)
    (hp : child.pending = .endInternal i :: rest) (hplain : Plain rest) (hempty : queue i = [])
    (hmark : child.internalTransactionStarted i = true) :
    Accounts env { child with
      pending := .send i .commit :: .settle i :: .mark i false :: rest } queue server := by
  obtain ⟨hqueue, hending⟩ := h.plain hp (by simp)
  refine ⟨.ending hplain hempty (h.inside i hmark (hending i)).1,
    fun j hm _ => h.inside j hm (hending j), fun j hj => ((hqueue j).1 hj).elim,
    fun j hj => ((hqueue j).2 hj).elim, h.ends, fun j hj => ?_, ?_⟩
  · have htail := h.reset_tail hp (by simp) (fun _ hm => hm) (by simpa using hj)
    simpa using htail
  · simpa using h.last_tail hp

/-- COMMIT is sent. -/
theorem Accounts.sendCommit (h : Accounts env child queue server)
    (hp : child.pending = .send i .commit :: .settle i :: .mark i false :: rest) (hplain : Plain rest)
    (hinside : Inside server i) (hqueue' : queue' = Function.update queue i [.commit]) :
    Accounts env { child with pending := .settle i :: .mark i false :: rest } queue' server := by
  obtain ⟨hqueue, hending⟩ := h.plain hp (by simp)
  have grown : ∀ j m, queue' j = [m] → (j = i ∧ m = .commit) ∨ queue j = [m] :=
    fun j m hj => sent_or_queued (hqueue' ▸ hj)
  refine ⟨.ended hplain (.inl ⟨by simp [hqueue'], hinside⟩),
    fun j hm _ => h.inside j hm (hending j), fun j hj => ?_, fun j hj => ?_, fun j m hj hends => ?_,
    fun j hj => ?_, ?_⟩
  · rcases grown j _ hj with ⟨-, heq⟩ | hold
    · simp at heq
    · exact ((hqueue j).1 hold).elim
  · rcases grown j _ hj with ⟨rfl, -⟩ | hold
    · exact ⟨rest, rfl⟩
    · exact ((hqueue j).2 hold).elim
  · rcases grown j _ hj with ⟨-, rfl⟩ | hold
    · simp [endsBlock] at hends
    · exact h.ends j m hold hends
  · exact h.reset_tail hp (by simp) (fun _ hm => hm) hj
  · exact h.last_tail hp

/-- COMMIT has been answered. -/
theorem Accounts.settleCommit (h : Accounts env child queue server)
    (hp : child.pending = .settle i :: .mark i false :: rest) (hplain : Plain rest)
    (hempty : queue i = []) :
    Accounts env { child with pending := .mark i false :: rest } queue server := by
  refine ⟨.unmarking hplain, fun j hm he => h.inside j hm ?_, fun j hj => ?_, fun j hj => ?_, h.ends,
    fun j hj => ?_, ?_⟩
  · simpa [hp, Ending] using he
  · obtain ⟨rest', hp'⟩ := h.begins j hj
    simp [hp] at hp'
  · obtain ⟨rest', hp'⟩ := h.commits j hj
    simp [hp] at hp'
    simp [← hp'.1, hempty] at hj
  · exact h.reset_tail hp (by simp) (fun _ hm => hm) hj
  · exact h.last_tail hp

/-- The mark is cleared. -/
theorem Accounts.markEnded (h : Accounts env child queue server)
    (hp : child.pending = .mark i false :: rest) (hplain : Plain rest) :
    Accounts env { child with
      pending := rest
      internalTransactionStarted := Function.update child.internalTransactionStarted i false }
      queue server := by
  have still : ∀ j, Function.update child.internalTransactionStarted i false j = true →
      j ≠ i ∧ child.internalTransactionStarted j = true := by
    intro j hm
    by_cases hji : j = i
    · simp [hji] at hm
    · exact ⟨hji, by simpa [hji] using hm⟩
  refine ⟨.plain hplain, fun j hm _ => ?_, fun j hj => ?_, fun j hj => ?_, fun j m hj hends => ?_,
    fun j hj => ?_, ?_⟩
  · obtain ⟨hji, hm⟩ := still j hm
    exact h.inside j hm (by simpa [hp, Ending] using hji.symm)
  · obtain ⟨rest', hp'⟩ := h.begins j hj
    simp [hp] at hp'
  · obtain ⟨rest', hp'⟩ := h.commits j hj
    simp [hp] at hp'
  · by_contra hm
    obtain ⟨-, hm⟩ := still j (by simpa using hm)
    simp [h.ends j m hj hends] at hm
  · exact h.reset_tail hp (by simp) (fun k hm => (still k hm).2) hj
  · exact h.last_tail hp

/-- A message that is none of theirs is sent. -/
theorem Accounts.send (h : Accounts env child queue server) (hp : child.pending = .send i m :: rest)
    (hplain : Plain (.send i m :: rest)) (hempty : queue i = [])
    (hends : endsBlock m → child.internalTransactionStarted i = false) :
    Accounts env { child with pending := rest } (Function.update queue i [m]) server := by
  refine h.pop hp hplain rfl rfl (fun _ _ _ hne => hne) (fun j hj => ?_) fun j m' hj => ?_
  · cases hj
    exact hends rfl
  · rcases sent_or_queued hj with ⟨rfl, rfl⟩ | hold
    · refine .inr ⟨?_, ?_, hends⟩
      · rintro rfl
        exact (hplain _ (by simp)).2.1 j rfl
      · rintro rfl
        exact (hplain _ (by simp)).2.2 j rfl
    · exact .inl hold

/-- An operation that is none of theirs sends nothing and leaves the states alone. -/
theorem Accounts.drop (h : Accounts env child queue server) (hp : child.pending = op :: rest)
    (hplain : Plain (op :: rest)) (hop : ∀ i m, op ≠ .send i m) (hpending : child'.pending = rest)
    (hmark : child'.internalTransactionStarted = child.internalTransactionStarted)
    (hstate : child'.tstate = child.tstate) : Accounts env child' queue server :=
  h.pop hp hplain hpending hmark (fun _ _ _ hne => hstate ▸ hne) (fun i hi => (hop i _ hi).elim)
    fun _ _ hj => .inl hj

/-- The state of a node is noted that is not idle if it is marked. -/
theorem Accounts.setState (h : Accounts env child queue server) (hp : child.pending = op :: rest)
    (hplain : Plain (op :: rest)) (hop : ∀ i m, op ≠ .send i m) {state : TState}
    (hstate : child.internalTransactionStarted i = true → Inside server i → state ≠ .I) :
    Accounts env { child with pending := rest, tstate := Function.update child.tstate i state } queue
      server := by
  refine h.pop hp hplain rfl rfl (fun j hm hinside hne => ?_) (fun j hj => (hop j _ hj).elim)
    fun _ _ hj => .inl hj
  by_cases hji : j = i
  · subst hji
    simpa using hstate hm hinside
  · simpa [hji] using hne

end

/-! ## Requests -/

/-- Outside of the two functions, and not at the end of a reset. -/
def Op.Ordinary (op : Op) : Prop :=
  ((∀ i b, op ≠ .mark i b) ∧ (∀ i, op ≠ .send i .begin) ∧ ∀ i, op ≠ .send i .commit) ∧
    ∀ i, op ≠ .assume i .I

section

variable (env : Cluster) {m : Msg} {op : Op} {ops xs ys : List Op}

theorem ordinary_append (hxs : ∀ op ∈ xs, op.Ordinary) (hys : ∀ op ∈ ys, op.Ordinary) :
    ∀ op ∈ xs ++ ys, op.Ordinary := by
  intro op hop
  rcases List.mem_append.mp hop with hop | hop
  · exact hxs op hop
  · exact hys op hop

theorem ordinary_of_sends (h : ∀ op ∈ ops, op.Sends m) (hbegin : m ≠ .begin) (hcommit : m ≠ .commit) :
    ∀ op ∈ ops, op.Ordinary := by
  intro op hop
  rcases h op hop with ⟨i, rfl⟩ | ⟨i, rfl⟩
  · simp [Op.Ordinary, hbegin, hcommit]
  · simp [Op.Ordinary]

theorem ordinary_settles : ∀ op ∈ env.nodes.map Op.settle, op.Ordinary := by
  simp [Op.Ordinary]

theorem ordinary_readyForQuery (allow : Bool) : ∀ op ∈ readyForQuery env allow, op.Ordinary := by
  refine ordinary_append (ordinary_settles env) (ordinary_append ?_ (by simp [Op.Ordinary]))
  split
  · simp only [List.mem_map, forall_exists_index, and_imp]
    rintro _ i - rfl
    simp [Op.Ordinary]
  · simp

theorem ordinary_startInternal (internal : Bool) :
    ∀ op ∈ startInternal env internal, op.Ordinary := by
  intro op hop
  simp only [startInternal, List.mem_ite_nil_right, List.mem_map] at hop
  obtain ⟨-, i, -, rfl⟩ := hop
  simp [Op.Ordinary]

theorem ordinary_insertLock (lock : Bool) : ∀ op ∈ insertLock env lock, op.Ordinary := by
  intro op hop
  simp only [insertLock, List.mem_ite_nil_right, List.mem_flatMap, List.mem_cons,
    List.not_mem_nil, or_false] at hop
  obtain ⟨-, i, -, rfl | rfl | rfl⟩ := hop <;> simp [Op.Ordinary]

theorem ordinary_sendPrepare : ∀ op ∈ sendPrepare env, op.Ordinary :=
  ordinary_append
    (ordinary_of_sends (toAll_sendStatement env .other .prepare).sends (by simp) (by simp))
    (ordinary_settles env)

theorem ordinary_parseSync (c : ChildState) : ∀ op ∈ parseSync env c, op.Ordinary := by
  unfold parseSync
  split
  · simp
  · exact ordinary_append (ordinary_of_sends (toAll_sync env).sends (by simp) (by simp))
      (ordinary_readyForQuery env false)

theorem ordinary_abortQuery (c : ChildState) : ∀ op ∈ abortQuery env c, op.Ordinary := by
  unfold abortQuery
  extract_lets others master
  split
  · simp
  · exact ordinary_append (ordinary_of_sends
      (sends_append (sends_sendAndWait _ _) (sends_sendAndWait _ _)) (by simp) (by simp))
      (ordinary_readyForQuery env _)

theorem ordinary_simpleQuery (allow : Bool) (statement : Statement) (lock : Bool) :
    ∀ op ∈ simpleQuery env allow statement lock, op.Ordinary :=
  ordinary_append (ordinary_append (ordinary_append
    (ordinary_startInternal env _) (ordinary_insertLock env lock))
    (ordinary_of_sends (toAll_sendQuery env statement).sends (by simp) (by simp)))
    (ordinary_readyForQuery env allow)

theorem ordinary_assumeBegun (statement : Statement) :
    ∀ op ∈ assumeBegun env statement, op.Ordinary := by
  unfold assumeBegun
  split
  · simp [Op.Ordinary]
  · simp

theorem ordinary_allowClose {allow : Bool} (h : ∀ op ∈ ops, op.Ordinary) :
    ∀ op ∈ .allowClose allow :: ops, op.Ordinary := by
  intro op hop
  rcases List.mem_cons.mp hop with rfl | hop
  · simp [Op.Ordinary]
  · exact h op hop

/-- Everything but a reset is ordinary. -/
theorem ordinary_operations (c : ChildState) {r : Request} (hr : r ≠ .reset) :
    ∀ op ∈ operations env c r, op.Ordinary := by
  cases r with
  | query statement lock => exact ordinary_allowClose (ordinary_simpleQuery env true statement lock)
  | read i =>
    refine ordinary_allowClose (ordinary_append (ordinary_append
      (ordinary_of_sends (sends_sendAndWait _ _) (by simp) (by simp)) ?_) ?_)
    · simp [Op.Ordinary]
    · simp [Op.Ordinary]
  | parse internal lock =>
    exact ordinary_allowClose (ordinary_append (ordinary_append (ordinary_append
      (ordinary_parseSync env c) (ordinary_startInternal env internal))
      (ordinary_insertLock env lock)) (ordinary_sendPrepare env))
  | prepared => exact ordinary_sendPrepare env
  | execute statement =>
    exact ordinary_allowClose (ordinary_append (ordinary_append
      (ordinary_of_sends (toAll_sendStatement env _ _).sends (by simp) (by simp))
      (ordinary_settles env)) (ordinary_assumeBegun env statement))
  | sync =>
    exact ordinary_append (ordinary_of_sends (toAll_sync env).sends (by simp) (by simp))
      (ordinary_readyForQuery env _)
  | reset => exact (hr rfl).elim

/-- A reset up to the point where the connections are put back into the pool. -/
theorem ordinary_reset (c : ChildState) :
    ∀ op ∈ abortQuery env c ++ simpleQuery env c.allowCloseTransaction .other false, op.Ordinary :=
  ordinary_append (ordinary_abortQuery env c) (ordinary_simpleQuery env _ _ _)

theorem plain_of_ordinary (h : ∀ op ∈ ops, op.Ordinary) : Plain ops := fun op hop => (h op hop).1

theorem plain_operations (c : ChildState) (r : Request) : Plain (operations env c r) := by
  by_cases hr : r = .reset
  · subst hr
    exact plain_append.mpr ⟨plain_of_ordinary (ordinary_reset env c), by simp [Plain]⟩
  · exact plain_of_ordinary (ordinary_operations env c hr)

/-- ABORT goes to every node that is in a transaction. -/
theorem rollback_mem_operations {c : ChildState} {i : NodeId} (hi : i ∈ env.nodes)
    (hstate : c.tstate i ≠ .I) : .send i (.query .rollback) ∈ operations env c .reset := by
  have : .send i (.query .rollback) ∈ abortQuery env c := by
    unfold abortQuery
    extract_lets others master
    have hmem : i ∈ others ++ master := by
      simp only [others, master, List.mem_append, List.mem_filter, List.mem_singleton,
        decide_eq_true_eq]
      rcases List.mem_cons.mp hi with rfl | hi
      · exact .inr ⟨rfl, hstate⟩
      · exact .inl ⟨hi, hstate⟩
    split
    · next hnil => simp [hnil] at hmem
    · rcases List.mem_append.mp hmem with hmem | hmem
      · simp [sendAndWait, hmem]
      · simp [sendAndWait, hmem]
  simp [operations, this]

theorem startInternal_not_mem_reset (c : ChildState) (i : NodeId) :
    .startInternal i ∉ operations env c .reset := by
  intro hmem
  have quiet : ∀ ops : List Op, (∀ m, (∀ op ∈ ops, op.Sends m) → .startInternal i ∉ ops) :=
    fun ops m h hop => by
      rcases h _ hop with ⟨j, hj⟩ | ⟨j, hj⟩
      · simp at hj
      · simp at hj
  have ready : ∀ allow, .startInternal i ∉ readyForQuery env allow := by
    intro allow
    simp [readyForQuery]
  simp only [operations, List.mem_append, simpleQuery, startInternal, insertLock,
    Statement.isInternalTransactionNeeded, Bool.false_eq_true, if_false, List.not_mem_nil, false_or,
    List.mem_map, reduceCtorEq, and_false, exists_false, or_false, ready] at hmem
  rcases hmem with habort | hquery
  · unfold abortQuery at habort
    extract_lets others master at habort
    split at habort
    · simp at habort
    · rcases List.mem_append.mp habort with hsend | hready
      · exact quiet _ _ (sends_append (sends_sendAndWait _ _) (sends_sendAndWait _ _)) hsend
      · exact ready _ hready
  · exact quiet _ _ (toAll_sendQuery env .other).sends hquery

theorem last_of_ordinary (h : ∀ op ∈ ops, op.Ordinary) :
    ops.Pairwise fun op op' => (∃ j, op = .assume j .I) → ∃ j, op' = .assume j .I :=
  List.pairwise_of_forall_mem_list fun op hop _ _ ⟨j, hj⟩ => ((h op hop).2 j hj).elim

/-- Whatever is asked for, a child starts outside of the two functions. -/
theorem Accounts.request {env : Cluster} {child : ChildState} {queue : NodeId → List Msg}
    {server : NodeId → Server} (h : Accounts env child queue server) (hp : child.pending = [])
    (hempty : ∀ i, queue i = []) (r : Request) (writing : Option WriteId) :
    Accounts env { child with pending := operations env child r, writing } queue server := by
  have hending : ∀ j, ¬ Ending j child.pending := by simp [hp, Ending]
  refine ⟨.plain (plain_operations env child r), fun j hm _ => h.inside j hm (hending j),
    fun j hj => by simp [hempty] at hj, fun j hj => by simp [hempty] at hj,
    fun j m hj => by simp [hempty] at hj, fun j hj => ?_, ?_⟩
  · by_cases hr : r = .reset
    · subst hr
      refine ⟨⟨?_, fun k => ⟨startInternal_not_mem_reset env child k,
        fun hk => (plain_operations env child .reset).no_mark hk⟩⟩,
        fun k hk hm => rollback_mem_operations env hk (h.inside k hm (hending k)).2⟩
      rcases List.mem_append.mp hj with hj | hj
      · exact ((ordinary_reset env child _ hj).2 j rfl).elim
      · simpa using hj
    · exact ((ordinary_operations env child hr _ hj).2 j rfl).elim
  · by_cases hr : r = .reset
    · subst hr
      refine List.pairwise_append.mpr ⟨last_of_ordinary (ordinary_reset env child), ?_, ?_⟩
      · refine List.pairwise_of_forall_mem_list fun op _ op' hop' _ => ?_
        obtain ⟨j, -, rfl⟩ := List.mem_map.mp hop'
        exact ⟨j, rfl⟩
      · intro op hop op' _ hop'
        obtain ⟨j, rfl⟩ := hop'
        exact ((ordinary_reset env child _ hop).2 j rfl).elim
    · exact last_of_ordinary (ordinary_operations env child hr)

end

/-! ## Steps -/

/-- While a node is marked, only `end_internal_transaction` ends the transaction there; and BEGIN of
`start_internal_transaction` is sent to a node that is not in a block, and succeeds. -/
def Kept (s : System) : Event → Prop
  | .run c =>
      match (s.child c).pending with
      | .send i m :: _ =>
          (endsBlock m → (s.child c).internalTransactionStarted i = false) ∧
            (m = .begin → (s.server c i).inBlock = false)
      | _ => True
  | .process c i o =>
      match s.queue c i with
      | .begin :: _ => o = .ok
      | _ => True
  | _ => True

instance (s : System) (e : Event) : Decidable (Kept s e) := by
  unfold Kept
  split
  · split
    · infer_instance
    · infer_instance
  · split
    · infer_instance
    · infer_instance
  · infer_instance

section

variable {env : Cluster} {s t : System} {c : ChildId} {i : NodeId}

theorem status_ne_idle {server : Server} (h : server.inBlock = true) : server.status ≠ .I := by
  unfold Server.status
  rw [if_pos h]
  split
  · simp
  · simp

theorem accounts_setChild {child : ChildState} (h : Accounts env child (s.queue c) (s.server c)) :
    Accounts env ((s.setChild c child).child c) ((s.setChild c child).queue c)
      ((s.setChild c child).server c) := by
  rw [setChild_child, if_pos rfl]
  exact h

theorem accounts_send {child : ChildState} {queue : List Msg}
    (h : Accounts env child (Function.update (s.queue c) i queue) (s.server c)) :
    Accounts env (((s.setChild c child).setQueue c i queue).child c)
      (((s.setChild c child).setQueue c i queue).queue c)
      (((s.setChild c child).setQueue c i queue).server c) := by
  have hchild : ((s.setChild c child).setQueue c i queue).child c = child :=
    (setChild_child _).trans (if_pos rfl)
  have hqueue : ((s.setChild c child).setQueue c i queue).queue c =
      Function.update (s.queue c) i queue := Function.update_self ..
  rw [hchild, hqueue]
  exact h

/-- The next operation of a child. -/
theorem accounts_run (hd : Discipline env s)
    (h : Accounts env (s.child c) (s.queue c) (s.server c)) (kept : Kept s (.run c))
    (ht : s.run c = some t) : Accounts env (t.child c) (t.queue c) (t.server c) := by
  unfold System.run at ht
  extract_lets child go at ht
  split at ht
  · simp at ht
  next op rest hp =>
  have hp : (s.child c).pending = op :: rest := hp
  have phase : Phase (s.child c) (s.queue c) (s.server c) (op :: rest) := hp ▸ h.phase
  cases op with
  | send i m =>
    cases ht
    simp only [Kept, hp] at kept
    have hempty := hd.empty_of_send hp
    refine accounts_send ?_
    rw [hempty]
    cases phase with
    | plain hplain => exact h.send hp hplain hempty kept.1
    | starting hplain hmark => exact h.sendBegin hp hplain hmark (kept.2 rfl) rfl
    | ending hplain _ hinside => exact h.sendCommit hp hplain hinside rfl
  | settle i =>
    dsimp only at ht
    split at ht
    · next hempty =>
      cases ht
      refine accounts_setChild ?_
      cases phase with
      | plain hplain => exact h.drop hp hplain nofun rfl rfl rfl
      | begun hplain _ node =>
        refine h.settleBegin hp hplain hempty (node.resolve_left fun hn => ?_).2
        simp [hempty] at hn
      | ended hplain _ => exact h.settleCommit hp hplain hempty
    · simp at ht
  | status i =>
    cases ht
    refine accounts_setChild ?_
    cases phase with
    | plain hplain => exact h.setState hp hplain nofun fun _ hinside => status_ne_idle hinside.1
    | known hplain hempty hinside =>
      exact h.statusBegin hp hplain hempty hinside (status_ne_idle hinside.1)
  | mark i b =>
    cases ht
    refine accounts_setChild ?_
    cases phase with
    | plain hplain => exact (hplain.no_mark List.mem_cons_self).elim
    | marking hplain hempty hinside hstate =>
      exact h.markStarted hp hplain hempty hinside hstate
    | unmarking hplain => exact h.markEnded hp hplain
  | startInternal i =>
    cases phase with
    | plain hplain =>
      dsimp only at ht
      split at ht
      · next hidle =>
        cases ht
        exact accounts_setChild (h.startInternal hp hplain.tail hidle.2)
      · cases ht
        exact accounts_setChild (h.drop hp hplain nofun rfl rfl rfl)
  | endInternal i =>
    cases phase with
    | plain hplain =>
      dsimp only at ht
      split at ht
      · next hmarked =>
        cases ht
        refine accounts_setChild ?_
        exact h.endInternal hp hplain.tail (hd.empty_of_endInternal hp) hmarked.2
      · cases ht
        exact accounts_setChild (h.drop hp hplain nofun rfl rfl rfl)
  | assume i state =>
    cases phase with
    | plain hplain =>
      cases ht
      refine accounts_setChild ?_
      refine h.setState hp hplain nofun fun hm _ => ?_
      rintro rfl
      simp [h.unmarked hp] at hm
  | poll i =>
    cases phase with
    | plain hplain =>
      cases ht
      exact accounts_setChild (h.drop hp hplain nofun rfl rfl rfl)
  | allowClose allow =>
    cases phase with
    | plain hplain =>
      cases ht
      exact accounts_setChild (h.drop hp hplain nofun rfl rfl rfl)

/-- A child without connections. -/
theorem accounts_fresh : Accounts env freshChild (fun _ => []) (fun _ => .idle) where
  phase := .plain (by simp [Plain, freshChild])
  inside := by simp [freshChild]
  begins := by simp
  commits := by simp
  ends := by simp
  reset := by simp [freshChild]
  last := .nil

theorem accounts_step (hd : Discipline env s)
    (h : ∀ c, Accounts env (s.child c) (s.queue c) (s.server c)) {e : Event} (kept : Kept s e)
    (ht : s.step env e = some t) : ∀ c, Accounts env (t.child c) (t.queue c) (t.server c) := by
  intro d
  cases e with
  | request c r =>
    obtain ⟨-, hqueue, hserver⟩ := request_nodes ht
    rw [hqueue, hserver]
    by_cases hdc : d = c
    · subst hdc
      have ht : s.request env d r = some t := ht
      unfold System.request at ht
      extract_lets child at ht
      split at ht
      · simp at ht
      next hidle =>
      have hp : (s.child d).pending = [] := by
        by_contra hp
        exact hidle (.inl hp)
      have started := fun writing => (h d).request hp (hd.idle hp).1 r writing
      split at ht
      · cases ht
        rw [setChild_child, if_pos rfl]
        exact started _
      · split at ht
        · cases ht
          rw [setChild_child, if_pos rfl]
          exact started _
        · simp at ht
    · rw [request_frame ht hdc]
      exact h d
  | run c =>
    by_cases hdc : d = c
    · subst hdc
      exact accounts_run hd (h d) kept ht
    · obtain ⟨hchild, hqueue, hserver⟩ := run_frame ht hdc
      rw [hchild, hqueue, hserver]
      exact h d
  | process c i o =>
    obtain ⟨m, rest, hq, hchild, hqueue, hserver, hkeeps⟩ := process_cases ht
    obtain rfl := (hd.waiting hq).1
    rw [hchild, hqueue]
    by_cases hdc : d = c
    · subst hdc
      refine (h d).process hq (Function.update_self ..) (fun j hj => hserver d j (by simp [hj]))
        (hkeeps fun hm => ?_)
      simpa [Kept, hq, hm] using kept
    · rw [show (s.setQueue c i []).queue d = s.queue d from Function.update_of_ne hdc ..]
      have : t.server d = s.server d := funext fun j => hserver d j (by simp [hdc])
      rw [this]
      exact h d
  | abort c i =>
    cases ht
    obtain ⟨hchild, hqueue, hserver⟩ := abort_cases s c i
    rw [hchild, hqueue]
    exact (h d).abort fun j => hserver d j
  | close c =>
    cases ht
    by_cases hdc : d = c
    · subst hdc
      simp only [System.close, Function.update_self]
      exact accounts_fresh
    · simp only [System.close, Function.update_of_ne hdc]
      exact h d

/-! ## Runs -/

/-- A marked node is in a transaction that `start_internal_transaction` has opened, but for the moment
between COMMIT and the end of `end_internal_transaction`; that COMMIT meets such a transaction; and what is
put back into the pool is not marked. -/
structure Accounted (s : System) : Prop where
  inside : ∀ c i, (s.child c).internalTransactionStarted i = true →
    ¬ Ending i (s.child c).pending → Inside (s.server c) i
  commits : ∀ c i, .commit ∈ s.queue c i → Inside (s.server c) i
  pooled : ∀ c i rest, (s.child c).pending = .assume i .I :: rest →
    (s.child c).internalTransactionStarted i = false

theorem accounted_of_accounts (hd : Discipline env s)
    (h : ∀ c, Accounts env (s.child c) (s.queue c) (s.server c)) : Accounted s where
  inside c i hm he := ((h c).inside i hm he).1
  commits c i hmem := by
    have hq : s.queue c i = [.commit] := by
      rcases hd.queued c i with hnil | ⟨m, hq, -⟩
      · simp [hnil] at hmem
      · rw [hq, List.mem_singleton] at hmem
        rw [hq, hmem]
    obtain ⟨rest, hp⟩ := (h c).commits i hq
    have phase := (h c).phase
    rw [hp] at phase
    cases phase with
    | plain hplain => exact (hplain.no_mark (i := i) (b := false) (by simp)).elim
    | ended _ node =>
      refine (node.resolve_right fun hnil => ?_).2
      simp [hq] at hnil
  pooled c i rest hp := (h c).unmarked hp

/-- Internal transactions are accounted for as long as nobody else ends them. -/
theorem accounted_of_kept (env : Cluster) (s : System)
    (run : Transition.Run (System.step env) Kept System.init s) : Accounted s := by
  have : Discipline env s ∧ ∀ c, Accounts env (s.child c) (s.queue c) (s.server c) := by
    refine run.invariant (I := fun s => Discipline env s ∧
      ∀ c, Accounts env (s.child c) (s.queue c) (s.server c)) ?_
      ⟨discipline_init, fun _ => accounts_fresh⟩
    intro s e t ⟨hd, h⟩ kept ht
    exact ⟨hd.step ht, accounts_step hd h kept ht⟩
  exact accounted_of_accounts this.1 this.2

end

/-- Two children, two nodes, and no conflicts. -/
def noConflicts : Cluster where
  master := 0
  others := [1]
  nodup := by decide
  numInitChildren := 2
  conflicts _ _ := false
  symm _ _ := rfl

/-- An UPDATE in an internal transaction, up to the COMMIT on the second node. -/
def startedUpdate : List Event :=
  .request 0 (.query (.write 0) false) :: (List.replicate 3 (.run 0) ++ [.process 0 0 .ok] ++
    List.replicate 5 (.run 0) ++ [.process 0 1 .ok] ++ List.replicate 4 (.run 0) ++
    [.process 0 0 .ok] ++ List.replicate 2 (.run 0) ++ [.process 0 1 .ok] ++
    List.replicate 5 (.run 0))

theorem accounted_startedUpdate :
    ∃ s, Transition.runAll (System.step noConflicts) startedUpdate System.init = some s ∧
      .commit ∈ s.queue 0 1 ∧ Accounted s := by
  have hend : (Transition.runAll (System.step noConflicts) startedUpdate System.init).any
      (fun s => decide (.commit ∈ s.queue 0 1)) = true := by decide +kernel
  obtain ⟨s, hs, hdone⟩ := (Option.any_eq_true _ _).mp hend
  exact ⟨s, hs, of_decide_eq_true hdone,
    accounted_of_kept noConflicts s (.of_runAll hs (by decide +kernel))⟩

/-- An INSERT is parsed, and the client disconnects. -/
def parsedInsert : List Event :=
  .request 0 (.parse true false) :: (List.replicate 3 (.run 0) ++ [.process 0 0 .ok, .run 0,
    .process 0 1 .ok] ++ List.replicate 5 (.run 0) ++ [.process 0 0 .ok] ++
    List.replicate 5 (.run 0) ++ [.process 0 1 .ok] ++ List.replicate 7 (.run 0) ++
    [.process 0 0 .ok, .run 0, .process 0 1 .ok, .run 0])

def abandoned : List Event :=
  parsedInsert ++ .request 0 .reset :: (List.replicate 4 (.run 0) ++ [.process 0 0 .ok, .run 0,
    .process 0 1 .ok] ++ List.replicate 7 (.run 0) ++ [.process 0 0 .ok, .run 0,
    .process 0 1 .ok] ++ List.replicate 3 (.run 0))

/-- ABORT is sent, and the mark stays on the connection that goes back into the pool. -/
theorem abandoned_not_accounted :
    ∃ s, Transition.runAll (System.step noConflicts) abandoned System.init = some s ∧
      Transition.Run (System.step noConflicts) Transition.Any System.init s ∧
      (∃ rest, (s.child 0).pending = .assume 0 .I :: rest) ∧
      (s.child 0).internalTransactionStarted 0 = true ∧ (s.server 0 0).inBlock = false ∧
      ¬ Accounted s := by
  have hend : (Transition.runAll (System.step noConflicts) abandoned System.init).any
      (fun s => decide ((s.child 0).pending = [.assume 0 .I, .assume 1 .I] ∧
        (s.child 0).internalTransactionStarted 0 = true ∧ (s.server 0 0).inBlock = false)) = true := by
    decide +kernel
  obtain ⟨s, hs, hdone⟩ := (Option.any_eq_true _ _).mp hend
  obtain ⟨hp, hmark, hblock⟩ := of_decide_eq_true hdone
  refine ⟨s, hs, .of_runAll hs (Transition.holds_any _ _), ⟨_, hp⟩, hmark, hblock, fun h => ?_⟩
  simp [h.pooled 0 0 _ hp] at hmark

end PgPool.Serial
