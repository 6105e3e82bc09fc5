import PgPool.Memory.Heap

/-!
# Every chunk goes back to the pool it is from

`Owned` relates the sent messages, the query contexts and the pools: the chunks of a message that
has not been destroyed are live in the pool of the session and belong to no other message, and the
pools of the contexts that are referred to exist.  Every careful call preserves it.
-/

namespace PgPool

open Region Keyed

namespace Heap

/-- The message has been created in this session and not been destroyed. -/
def Present (h : Heap) (i : MsgId) : Prop := i < h.control.nextMessage ∧ h.destroyed i = false

/-- The memory of a child between two calls. -/
structure Owned (h : Heap) : Prop where
  formed : h.memory.Formed
  justified : Justified h.memory.log
  process : Exists .process h.memory.log
  serving : h.serving = true → Exists h.owner h.memory.log
  sessions : ∀ k, h.session < k → ¬ Exists (.session k) h.memory.log
  queries : ∀ qc, h.control.nextContext ≤ qc → ¬ Exists (.query qc) h.memory.log
  contexts : ∀ qc, qc < h.control.nextContext → h.control.destroyed qc = 0 →
    Exists (.query qc) h.memory.log
  fresh : ∀ qc, h.control.nextContext ≤ qc → h.control.destroyed qc = 0
  current : ∀ qc, h.control.queryContext = some qc →
    qc < h.control.nextContext ∧ h.control.destroyed qc = 0
  distinct : Distinct SentMessage.key h.control.messageList
  ids : ∀ m ∈ h.control.messageList, ∀ m' ∈ h.control.messageList, m.id = m'.id → m = m'
  listed : ∀ m ∈ h.control.messageList, h.Present m.id ∧
    m.queryContext < h.control.nextContext ∧ h.control.destroyed m.queryContext = 0
  pending : ∀ u, h.control.uncompletedMessage = some u →
    u.id < h.control.nextMessage ∧ u.queryContext < h.control.nextContext ∧
      ∀ m ∈ h.control.messageList, u.id = m.id → u = m
  held : ∀ i f, h.Present i → Live h.owner (h.chunks i f) h.memory.log
  apart : ∀ i f j g, h.Present i → h.Present j → h.chunks i f = h.chunks j g → i = j ∧ f = g
  lines : h.hbaLines.Nodup ∧ ∀ a ∈ h.hbaLines, Live .hba a h.memory.log
  idle : h.serving = false → ∀ i, h.destroyed i = true

variable {h : Heap} {m u : SentMessage} {kind : MsgKind} {name : String} {c : Control}
  {memory : Memory PoolId} {l : List Chunk}

/-- The chunks of a message and the lists of `pool_hba.c` are apart, being from different pools. -/
theorem Owned.line_ne (ho : Owned h) {a : Chunk} (ha : a ∈ h.hbaLines) {i : MsgId} (f : Field)
    (hi : h.Present i) : h.chunks i f ≠ a := by
  intro he
  have hpool := ho.formed.live_unique (he ▸ ho.held i f hi) (ho.lines.2 a ha)
  cases hpool

/-- Work in a pool, which takes back no chunk of a message. -/
theorem Owned.setMemory (ho : Owned h) (hf : Memory.Frees h.memory l memory)
    (messages : ∀ i f, h.Present i → h.chunks i f ∉ l) (lines : ∀ a ∈ h.hbaLines, a ∉ l) :
    Owned (h.setMemory memory) where
  formed := hf.formed
  justified := hf.justified
  process := (hf.pools _).2 ho.process
  serving hs := (hf.pools _).2 (ho.serving hs)
  sessions k hk he := ho.sessions k hk ((hf.pools _).1 he)
  queries qc hqc he := ho.queries qc hqc ((hf.pools _).1 he)
  contexts qc hlt hd := (hf.pools _).2 (ho.contexts qc hlt hd)
  fresh := ho.fresh
  current := ho.current
  distinct := ho.distinct
  ids := ho.ids
  listed := ho.listed
  pending := ho.pending
  held i f hi := hf.live _ _ (ho.held i f hi) (messages i f hi)
  apart := ho.apart
  lines := ⟨ho.lines.1, fun a ha => hf.live _ a (ho.lines.2 a ha) (lines a ha)⟩
  idle := ho.idle

/-- The references change, and no context is created or destroyed. -/
theorem Owned.setControl (ho : Owned h) (next : c.nextContext = h.control.nextContext)
    (messages : c.nextMessage = h.control.nextMessage) (destroyed : c.destroyed = h.control.destroyed)
    (list : c.messageList = h.control.messageList)
    (current : ∀ qc, c.queryContext = some qc → qc < h.control.nextContext ∧
      h.control.destroyed qc = 0)
    (pending : ∀ u, c.uncompletedMessage = some u → u.id < h.control.nextMessage ∧
      u.queryContext < h.control.nextContext ∧
        ∀ m ∈ h.control.messageList, u.id = m.id → u = m) : Owned (h.setControl c) := by
  have hpresent : ∀ i, (h.setControl c).Present i ↔ h.Present i := by
    intro i
    unfold Present Heap.setControl
    rw [messages]
  refine ⟨ho.formed, ho.justified, ho.process, ho.serving, ho.sessions, ?_, ?_, ?_, ?_, ?_, ?_, ?_, ?_,
    fun i f hi => ho.held i f ((hpresent i).1 hi),
    fun i f j g hi hj => ho.apart i f j g ((hpresent i).1 hi) ((hpresent j).1 hj), ho.lines, ho.idle⟩
  · intro qc hqc
    exact ho.queries qc (next ▸ hqc)
  · intro qc hlt hd
    exact ho.contexts qc (next ▸ hlt) (destroyed ▸ hd)
  · intro qc hqc
    exact (congrFun destroyed qc).trans (ho.fresh qc (next ▸ hqc))
  · intro qc hqc
    obtain ⟨hlt, hd⟩ := current qc hqc
    exact ⟨lt_of_lt_of_eq hlt next.symm, (congrFun destroyed qc).trans hd⟩
  · show Distinct SentMessage.key c.messageList
    rw [list]
    exact ho.distinct
  · show ∀ m ∈ c.messageList, ∀ m' ∈ c.messageList, m.id = m'.id → m = m'
    rw [list]
    exact ho.ids
  · intro m hm
    replace hm : m ∈ c.messageList := hm
    rw [list] at hm
    obtain ⟨hp, hlt, hd⟩ := ho.listed m hm
    exact ⟨(hpresent m.id).2 hp, lt_of_lt_of_eq hlt next.symm, (congrFun destroyed _).trans hd⟩
  · intro u hu
    obtain ⟨hid, hqc, hm⟩ := pending u hu
    refine ⟨lt_of_lt_of_eq hid messages.symm, lt_of_lt_of_eq hqc next.symm, fun m hml => ?_⟩
    replace hml : m ∈ c.messageList := hml
    exact hm m (list ▸ hml)

/-! ## Work -/

theorem Owned.workPool (ho : Owned h) (hs : h.serving = true) (site : Site) :
    Exists (h.workPool site) h.memory.log := by
  cases site with
  | process => exact ho.process
  | query =>
    unfold Heap.workPool
    simp only
    split
    · rename_i qc hqc
      obtain ⟨hlt, hd⟩ := ho.current qc hqc
      exact ho.contexts qc hlt hd
    · exact ho.serving hs

theorem Owned.work (ho : Owned h) (hs : h.serving = true) (site : Site) (ops : List WorkOp) :
    Owned (h.setMemory (h.memory.work (h.workPool site) ops []).2) := by
  have hw := Memory.works_work ops ho.formed ho.justified (ho.workPool hs site) List.nodup_nil
    (nofun)
  exact ho.setMemory hw.frees (by rintro i f - ⟨⟩) (by rintro a - ⟨⟩)

/-- `free_parser` takes back what is in the pool of the process, where no message is. -/
theorem Owned.freeParser (ho : Owned h) :
    Owned (h.setMemory (h.memory.poolMemoryDelete .process true)) where
  formed := ho.formed.poolMemoryDelete .process true
  justified := ho.justified
  process := ho.process
  serving := ho.serving
  sessions := ho.sessions
  queries := ho.queries
  contexts := ho.contexts
  fresh := ho.fresh
  current := ho.current
  distinct := ho.distinct
  ids := ho.ids
  listed := ho.listed
  pending := ho.pending
  held i f hi := ⟨nofun, ho.held i f hi⟩
  apart := ho.apart
  lines := ⟨ho.lines.1, fun a ha => ⟨nofun, ho.lines.2 a ha⟩⟩
  idle := ho.idle

/-- `load_hba` frees the lists that the load before it has built. -/
theorem Owned.loadHba (ho : Owned h) (hba : Exists .hba h.memory.log) (opened : Bool)
    (ops : List WorkOp) : Owned (h.loadHba opened ops) := by
  have hfree := Memory.Frees.all ho.formed ho.justified ho.lines.1 ho.lines.2
  have hmessages : ∀ i f, h.Present i → h.chunks i f ∉ h.hbaLines :=
    fun i f hi hm => ho.line_ne hm f hi rfl
  unfold Heap.loadHba
  cases opened with
  | true =>
    have hw := Memory.works_work ops hfree.formed hfree.justified ((hfree.pools _).2 hba)
      List.nodup_nil (nofun)
    have hf := (hfree.trans hw.frees).mono fun a ha => (List.append_nil h.hbaLines) ▸ ha
    have hset : Owned { h with
        memory := ((h.memory.freeAll .hba h.hbaLines).work .hba ops []).2, hbaLines := [] } :=
      Owned.setMemory (h := { h with hbaLines := [] }) { ho with lines := ⟨List.nodup_nil, nofun⟩ }
        hf hmessages (nofun)
    exact { hset with lines := ⟨hw.nodup, hw.live⟩ }
  | false =>
    have hdel := hfree.formed.poolMemoryDelete .hba false
    have hother : ∀ r : PoolId, r ≠ .hba →
        Exists r h.memory.log → Exists r (.delete .hba :: (h.memory.freeAll .hba h.hbaLines).log) :=
      fun r hr he => ⟨hr.symm, (hfree.pools r).2 he⟩
    refine ⟨hdel, hfree.justified, hother _ (nofun) ho.process,
      fun hs => hother _ (nofun) (ho.serving hs), fun k hk he => ?_, fun qc hqc he => ?_,
      fun qc hlt hd => hother _ (nofun) (ho.contexts qc hlt hd), ho.fresh, ho.current,
      ho.distinct, ho.ids, ho.listed, ho.pending, fun i f hi => ⟨nofun, ?_⟩, ho.apart,
      ⟨List.nodup_nil, nofun⟩, ho.idle⟩
    · exact ho.sessions k hk ((hfree.pools _).1 he.2)
    · exact ho.queries qc hqc ((hfree.pools _).1 he.2)
    · exact hfree.live _ _ (ho.held i f hi) (hmessages i f hi)

/-! ## Sessions and queries -/

theorem Owned.beginSession (ho : Owned h) (hs : h.serving = false) : Owned h.beginSession where
  formed := ho.formed.poolMemoryCreate (ho.sessions _ (Nat.lt_succ_self _)) prepareBlockSize
  justified := ho.justified
  process := Or.inr ho.process
  serving _ := Or.inl rfl
  sessions k hk := by
    rintro (he | he)
    · injection he with he
      exact absurd (he ▸ hk) (Nat.lt_irrefl _)
    · exact ho.sessions k (Nat.lt_of_succ_lt hk) he
  queries qc hqc := by
    rintro (⟨⟨⟩⟩ | he)
    exact ho.queries qc hqc he
  contexts qc hlt hd := Or.inr (ho.contexts qc hlt hd)
  fresh := ho.fresh
  current := nofun
  distinct := List.nodup_nil
  ids := nofun
  listed := nofun
  pending := nofun
  held i f hi := (Bool.false_ne_true (hi.2.symm.trans (ho.idle hs i))).elim
  apart i f j g hi := (Bool.false_ne_true (hi.2.symm.trans (ho.idle hs i))).elim
  lines := ho.lines
  idle := nofun

theorem Owned.endSession (ho : Owned h) : Owned h.endSession := by
  have hother : ∀ r : PoolId, r ≠ h.owner → Exists r h.memory.log →
      Exists r (.delete h.owner :: h.memory.log) := fun r hr he => ⟨hr.symm, he⟩
  exact
    { formed := ho.formed.poolMemoryDelete h.owner false
      justified := ho.justified
      process := hother _ (nofun) ho.process
      serving := nofun
      sessions := fun k hk he => ho.sessions k hk he.2
      queries := fun qc hqc he => ho.queries qc hqc he.2
      contexts := fun qc hlt hd => hother _ (nofun) (ho.contexts qc hlt hd)
      fresh := ho.fresh
      current := nofun
      distinct := List.nodup_nil
      ids := nofun
      listed := nofun
      pending := nofun
      held := fun i f hi => absurd hi.2.symm Bool.false_ne_true
      apart := fun i f j g hi => absurd hi.2.symm Bool.false_ne_true
      lines := ⟨ho.lines.1, fun a ha => ⟨nofun, ho.lines.2 a ha⟩⟩
      idle := fun _ _ => rfl }

/-- A new query context gets a pool of its own. -/
theorem Owned.startQuery (ho : Owned h) (sql : String) (node : Node) :
    Owned (h.startQuery sql node) where
  formed := ho.formed.poolMemoryCreate (ho.queries _ (Nat.le_refl _)) parserBlockSize
  justified := ho.justified
  process := Or.inr ho.process
  serving hs := Or.inr (ho.serving hs)
  sessions k hk := by
    rintro (⟨⟨⟩⟩ | he)
    exact ho.sessions k hk he
  queries qc hqc := by
    rintro (he | he)
    · injection he with he
      exact absurd (he ▸ hqc) (Nat.not_succ_le_self _)
    · exact ho.queries qc (Nat.le_of_succ_le hqc) he
  contexts qc hlt hd := by
    rcases Nat.lt_or_eq_of_le (Nat.le_of_lt_succ hlt) with hlt | rfl
    · exact Or.inr (ho.contexts qc hlt hd)
    · exact Or.inl rfl
  fresh qc hqc := ho.fresh qc (Nat.le_of_succ_le hqc)
  current qc hqc := by
    injection hqc with hqc
    subst hqc
    exact ⟨Nat.lt_succ_self _, ho.fresh _ (Nat.le_refl _)⟩
  distinct := ho.distinct
  ids := ho.ids
  listed m hm := by
    obtain ⟨hp, hlt, hd⟩ := ho.listed m hm
    exact ⟨hp, Nat.lt_succ_of_lt hlt, hd⟩
  pending u hu := by
    obtain ⟨hid, hlt, hm⟩ := ho.pending u hu
    exact ⟨hid, Nat.lt_succ_of_lt hlt, hm⟩
  held := ho.held
  apart := ho.apart
  lines := ho.lines
  idle := ho.idle

/-- The pool of the current context goes with it, while no entry refers to the context. -/
theorem Owned.destroyQuery (ho : Owned h)
    (unlisted : ∀ qc, h.control.queryContext = some qc → ¬ h.control.Listed qc) :
    Owned h.destroyQuery := by
  unfold Heap.destroyQuery
  cases hq : h.control.queryContext with
  | none => exact ho
  | some qc =>
    have hother : ∀ r : PoolId, r ≠ .query qc → Exists r h.memory.log →
        Exists r (.delete (.query qc) :: h.memory.log) := fun r hr he => ⟨hr.symm, he⟩
    have hdestroyed : ∀ q, q ≠ qc →
        (h.control.queryContextDestroy qc).destroyed q = h.control.destroyed q :=
      fun q hne => if_neg hne
    have hzero : ∀ q, (h.control.queryContextDestroy qc).destroyed q = 0 →
        q ≠ qc ∧ h.control.destroyed q = 0 := by
      intro q hd
      have hne : q ≠ qc := by
        rintro rfl
        simp [Control.queryContextDestroy] at hd
      exact ⟨hne, (hdestroyed q hne).symm.trans hd⟩
    exact
      { formed := ho.formed.poolMemoryDelete (.query qc) false
        justified := ho.justified
        process := hother _ (nofun) ho.process
        serving := fun hs => hother _ (nofun) (ho.serving hs)
        sessions := fun k hk he => ho.sessions k hk he.2
        queries := fun q hlt he => ho.queries q hlt he.2
        contexts := fun q hlt hd => hother _
          (fun he => (hzero q hd).1 (PoolId.query.inj he)) (ho.contexts q hlt (hzero q hd).2)
        fresh := fun q hlt => (hdestroyed q (by
          rintro rfl
          exact absurd (ho.current q hq).1 (Nat.not_lt.2 hlt))).trans (ho.fresh q hlt)
        current := nofun
        distinct := ho.distinct
        ids := ho.ids
        listed := fun m hm => by
          obtain ⟨hp, hlt, hd⟩ := ho.listed m hm
          refine ⟨hp, hlt, (hdestroyed _ ?_).trans hd⟩
          exact fun he => unlisted qc hq ⟨m, hm, he⟩
        pending := ho.pending
        held := fun i f hi => ⟨nofun, ho.held i f hi⟩
        apart := ho.apart
        lines := ⟨ho.lines.1, fun a ha => ⟨nofun, ho.lines.2 a ha⟩⟩
        idle := ho.idle }

/-! ## Sent messages -/

/-- A new message takes chunks that are not in use. -/
theorem Owned.attempt (ho : Owned h) (hid : m.id = h.control.nextMessage)
    (hqc : m.queryContext < h.control.nextContext) {new : Field → Chunk}
    (hf : Memory.Frees h.memory [] memory) (inj : ∀ f g, new f = new g → f = g)
    (live : ∀ f, Live h.owner (new f) memory.log) (fresh : ∀ f s, ¬ Live s (new f) h.memory.log)
    (hs : h.serving = true) :
    Owned { h with
      control := h.control.attempt m
      memory := memory
      chunks := fun i => if i = m.id then new else h.chunks i
      destroyed := fun i => i != m.id && h.destroyed i } := by
  have hcases : ∀ i, i < h.control.nextMessage + 1 → (i != m.id && h.destroyed i) = false →
      i = m.id ∨ i ≠ m.id ∧ h.Present i := by
    intro i hlt hd
    by_cases hi : i = m.id
    · exact Or.inl hi
    · refine Or.inr ⟨hi, ?_, by simpa [hi] using hd⟩
      exact Nat.lt_of_le_of_ne (Nat.le_of_lt_succ hlt) (hid ▸ hi)
  have hm := ho.setMemory hf (by rintro i f - ⟨⟩) (by rintro a - ⟨⟩)
  refine ⟨hm.formed, hm.justified, hm.process, hm.serving, hm.sessions, hm.queries, hm.contexts,
    ho.fresh, ho.current, ho.distinct, ho.ids, fun x hx => ?_, fun u hu => ?_, fun i f hi => ?_,
    fun i f j g hi hj he => ?_, hm.lines, fun hn => ?_⟩
  · obtain ⟨⟨hlt, hd⟩, hrest⟩ := ho.listed x hx
    exact ⟨⟨Nat.lt_succ_of_lt hlt, by simp [hd]⟩, hrest⟩
  · injection hu with hu
    subst hu
    refine ⟨hid ▸ Nat.lt_succ_self _, hqc, fun x hx he => ?_⟩
    have hlt := (ho.listed x hx).1.1
    exact absurd (he ▸ hlt) (hid ▸ Nat.lt_irrefl _)
  · show Live h.owner ((if i = m.id then new else h.chunks i) f) memory.log
    rcases hcases i hi.1 hi.2 with rfl | ⟨hne, hp⟩
    · rw [if_pos rfl]
      exact live f
    · rw [if_neg hne]
      exact hm.held i f hp
  · replace he : (if i = m.id then new else h.chunks i) f =
        (if j = m.id then new else h.chunks j) g := he
    rcases hcases i hi.1 hi.2 with rfl | ⟨hni, hpi⟩ <;>
      rcases hcases j hj.1 hj.2 with rfl | ⟨hnj, hpj⟩
    · rw [if_pos rfl] at he
      exact ⟨rfl, inj f g he⟩
    · rw [if_pos rfl, if_neg hnj] at he
      exact absurd (he ▸ ho.held j g hpj) (fresh f h.owner)
    · rw [if_neg hni, if_pos rfl] at he
      exact absurd (he ▸ ho.held i f hpi) (fresh g h.owner)
    · rw [if_neg hni, if_neg hnj] at he
      exact ho.apart i f j g hpi hpj he
  · exact absurd hs (by rw [show h.serving = false from hn]; exact Bool.false_ne_true)

/-- `pool_create_sent_message` allocates the three chunks one after the other. -/
theorem Owned.createMessage (ho : Owned h) (hs : h.serving = true)
    (hid : m.id = h.control.nextMessage) (hqc : m.queryContext < h.control.nextContext) (len : Nat) :
    Owned (h.createMessage m len) := by
  unfold Heap.createMessage
  have hw := Memory.works_work [.alloc sizeofSentMessage, .alloc len,
    .alloc (m.name.utf8ByteSize + 1)] ho.formed ho.justified (ho.serving hs) List.nodup_nil
    (nofun)
  simp only [Memory.work, Memory.workOp] at hw
  generalize h.memory.poolMemoryAlloc h.owner sizeofSentMessage = r₁ at hw ⊢
  obtain ⟨message, m₁⟩ := r₁
  simp only at hw ⊢
  generalize m₁.poolMemoryAlloc h.owner len = r₂ at hw ⊢
  obtain ⟨contents, m₂⟩ := r₂
  simp only at hw ⊢
  generalize m₂.poolMemoryAlloc h.owner (m.name.utf8ByteSize + 1) = r₃ at hw ⊢
  obtain ⟨name, m₃⟩ := r₃
  simp only at hw ⊢
  have hnd := hw.nodup
  simp only [List.nodup_cons, List.mem_cons, List.not_mem_nil, or_false, not_or, not_false_eq_true,
    List.nodup_nil, and_true] at hnd
  obtain ⟨⟨hnc, hnm⟩, hcm⟩ := hnd
  refine ho.attempt hid hqc hw.frees ?_ ?_ ?_ hs
  · intro f g he
    cases f <;> cases g <;> first | rfl | exact absurd he ‹_› | exact absurd he.symm ‹_›
  · intro f
    cases f <;> exact hw.live _ (by simp)
  · intro f s
    cases f <;> exact (hw.fresh _ (by simp)).resolve_left (by simp) s

/-- What the removal of an entry does to the contexts. -/
theorem destroyed_removeMessage (hf : h.control.find kind name = some m) (q : QcId) :
    (h.control.removeMessage kind name).destroyed q =
      if h.control.refCount m.queryContext ≤ 1 ∧ q = m.queryContext then h.control.destroyed q + 1
      else h.control.destroyed q := by
  unfold Control.removeMessage
  simp only [hf]
  unfold Control.release
  by_cases hc : h.control.refCount m.queryContext ≤ 1
  · simp [Control.setMessageList, hc]
  · simp [Control.setMessageList, hc]

theorem current_removeMessage (hf : h.control.find kind name = some m) {q : QcId}
    (hq : (h.control.removeMessage kind name).queryContext = some q) :
    h.control.queryContext = some q ∧
      ¬ (h.control.refCount m.queryContext ≤ 1 ∧ q = m.queryContext) := by
  unfold Control.removeMessage at hq
  simp only [hf] at hq
  unfold Control.release at hq
  by_cases hc : h.control.refCount m.queryContext ≤ 1
  · simp only [hc, if_true, Control.setMessageList] at hq
    split at hq
    · cases hq
    · rename_i hne
      exact ⟨hq, fun hand => hne (hand.2 ▸ hq)⟩
  · simp only [hc, if_false, Control.setMessageList] at hq
    exact ⟨hq, fun hand => hc hand.1⟩

/-- The pools after `pool_sent_message_destroy`: the chunks of the message are gone, and the pool of
its context unless another entry refers to that. -/
structure Destroyed (h : Heap) (m : SentMessage) (memory : Memory PoolId) : Prop where
  formed : memory.Formed
  justified : Justified memory.log
  pools : ∀ r, Exists r memory.log ↔
    ¬ (h.control.refCount m.queryContext ≤ 1 ∧ r = .query m.queryContext) ∧
      Exists r h.memory.log
  live : ∀ r a, Live r a h.memory.log → (∀ f, h.chunks m.id f ≠ a) →
    (∀ qc, r ≠ .query qc) → Live r a memory.log

theorem Owned.destroyMessage (ho : Owned h) (hm : h.Present m.id) :
    Destroyed h m (h.destroyMessage m).memory := by
  have hne : ∀ f g, f ≠ g → h.chunks m.id f ≠ h.chunks m.id g :=
    fun f g hfg he => hfg (ho.apart _ f _ g hm hm he).2
  have hfields : Memory.Frees h.memory [h.chunks m.id .contents, h.chunks m.id .name]
      (h.memory.freeAll h.owner [h.chunks m.id .contents, h.chunks m.id .name]) := by
    refine .all ho.formed ho.justified ?_ ?_
    · simp [hne .contents .name (by decide)]
    · intro a ha
      rcases List.mem_cons.1 ha with rfl | ha
      · exact ho.held _ _ hm
      · rw [List.mem_singleton] at ha
        exact ha ▸ ho.held _ _ hm
  have hkept : ∀ r a, Live r a h.memory.log → a ≠ h.chunks m.id .contents →
      a ≠ h.chunks m.id .name →
        Live r a (h.memory.freeAll h.owner [h.chunks m.id .contents, h.chunks m.id .name]).log := by
    intro r a ha hc hn
    exact hfields.live r a ha (by simp [hc, hn])
  have hmessage := hkept _ _ (ho.held m.id .message hm) (hne _ _ (by decide)) (hne _ _ (by decide))
  unfold Heap.destroyMessage
  by_cases hc : h.control.refCount m.queryContext ≤ 1
  · simp only [hc, if_true]
    have hl : Live h.owner (h.chunks m.id .message)
        ((h.memory.freeAll h.owner [h.chunks m.id .contents, h.chunks m.id .name]).poolMemoryDelete
          (.query m.queryContext) false).log := ⟨nofun, hmessage⟩
    have hfree := Memory.Frees.free (hfields.formed.poolMemoryDelete (.query m.queryContext) false)
      hfields.justified hl
    refine ⟨hfree.formed, hfree.justified, fun r => (hfree.pools r).trans ?_, fun r a ha hf hr => ?_⟩
    · exact and_congr ⟨fun hne he => hne he.2.symm, fun hne he => hne ⟨hc, he.symm⟩⟩
        (hfields.pools r)
    · refine hfree.live r a ⟨(hr _).symm, hkept r a ha (hf _).symm (hf _).symm⟩ ?_
      rw [List.mem_singleton]
      exact (hf _).symm
  · simp only [hc, if_false]
    have hfree := Memory.Frees.free hfields.formed hfields.justified hmessage
    refine ⟨hfree.formed, hfree.justified, fun r => (hfree.pools r).trans ?_, fun r a ha hf _ => ?_⟩
    · exact (hfields.pools r).trans ⟨fun he => ⟨fun hand => hc hand.1, he⟩, And.right⟩
    · refine hfree.live r a (hkept r a ha (hf _).symm (hf _).symm) ?_
      rw [List.mem_singleton]
      exact (hf _).symm

/-- `pool_remove_sent_message`. -/
theorem Owned.removeMessage (ho : Owned h) (kind : MsgKind) (name : String) :
    Owned (h.removeMessage kind name) := by
  unfold Heap.removeMessage
  cases hf : h.control.find kind name with
  | none => exact ho
  | some m =>
    have hmem : m ∈ h.control.messageList := lookup_mem hf
    obtain ⟨hpresent, -, -⟩ := ho.listed m hmem
    have hd := ho.destroyMessage hpresent
    have hnext : (h.control.removeMessage kind name).nextMessage = h.control.nextMessage :=
      Control.nextMessage_removeMessage
    have hcontexts : (h.control.removeMessage kind name).nextContext = h.control.nextContext :=
      Control.nextContext_removeMessage
    have hlist : (h.control.removeMessage kind name).messageList =
        Keyed.remove SentMessage.key (kind, name) h.control.messageList :=
      Control.messageList_removeMessage
    have hpending : (h.control.removeMessage kind name).uncompletedMessage =
        h.control.uncompletedMessage := Control.uncompletedMessage_removeMessage
    have hin : ∀ x, x ∈ (h.control.removeMessage kind name).messageList →
        x ∈ h.control.messageList ∧ x ≠ m := by
      intro x hx
      rw [hlist, ho.distinct.mem_remove] at hx
      exact ⟨hx.1, fun he => hx.2 (he ▸ lookup_key hf)⟩
    have hdead : ∀ q, h.control.destroyed q = 0 →
        ¬ (h.control.refCount m.queryContext ≤ 1 ∧ q = m.queryContext) →
          (h.control.removeMessage kind name).destroyed q = 0 := by
      intro q hq hn
      rw [destroyed_removeMessage hf, if_neg hn]
      exact hq
    -- the other messages stay
    have hother : ∀ i, ((h.destroyMessage m).setControl
        (h.control.removeMessage kind name)).Present i ↔ i ≠ m.id ∧ h.Present i := by
      intro i
      unfold Present Heap.setControl Heap.destroyMessage
      simp only [hnext, Bool.or_eq_false_iff, beq_eq_false_iff_ne]
      exact and_left_comm
    have hkept : ∀ r a, (∀ qc, r ≠ .query qc) → Live r a h.memory.log →
        (∀ f, h.chunks m.id f ≠ a) → Live r a (h.destroyMessage m).memory.log :=
      fun r a hr ha hne => hd.live r a ha hne hr
    refine ⟨hd.formed, hd.justified, (hd.pools _).2 ⟨by simp, ho.process⟩,
      fun hs => (hd.pools _).2 ⟨by simp [owner], ho.serving hs⟩,
      fun k hk he => ho.sessions k hk ((hd.pools _).1 he).2, fun qc hqc he => ?_,
      fun qc hlt hz => ?_, fun qc hqc => ?_, fun qc hqc => ?_, ?_, fun x hx y hy => ?_,
      fun x hx => ?_, fun u hu => ?_, fun i f hi => ?_, fun i f j g hi hj he => ?_,
      ⟨ho.lines.1, fun a ha => ?_⟩, fun hs i => ?_⟩
    · exact ho.queries qc (hcontexts ▸ hqc) ((hd.pools _).1 he).2
    · replace hz : (h.control.removeMessage kind name).destroyed qc = 0 := hz
      rw [destroyed_removeMessage hf] at hz
      split at hz
      · cases hz
      · rename_i hn
        refine (hd.pools _).2 ⟨fun hand => hn ⟨hand.1, PoolId.query.inj hand.2⟩, ?_⟩
        exact ho.contexts qc (hcontexts ▸ hlt) hz
    · refine hdead qc (ho.fresh qc (hcontexts ▸ hqc)) fun hand => ?_
      have hlt := (ho.listed m hmem).2.1
      exact absurd (hand.2 ▸ hcontexts ▸ hqc) (Nat.not_le.2 hlt)
    · obtain ⟨hq, hn⟩ := current_removeMessage hf hqc
      obtain ⟨hlt, hz⟩ := ho.current qc hq
      exact ⟨lt_of_lt_of_eq hlt hcontexts.symm, hdead qc hz hn⟩
    · show Distinct SentMessage.key (h.control.removeMessage kind name).messageList
      rw [hlist]
      exact ho.distinct.remove _
    · exact ho.ids x (hin x hx).1 y (hin y hy).1
    · obtain ⟨hxl, hxm⟩ := hin x hx
      obtain ⟨hp, hlt, hz⟩ := ho.listed x hxl
      refine ⟨(hother x.id).2 ⟨fun he => hxm (ho.ids x hxl m hmem he), hp⟩,
        lt_of_lt_of_eq hlt hcontexts.symm, hdead _ hz fun hand => hxm ?_⟩
      -- the context is only destroyed with its last entry
      exact (ho.distinct.length_filter_le_one_iff hmem (by simp)).1 hand.1 x hxl (by simp [hand.2])
    · obtain ⟨hid, hqc, huniq⟩ := ho.pending u (hpending ▸ hu)
      exact ⟨lt_of_lt_of_eq hid hnext.symm, lt_of_lt_of_eq hqc hcontexts.symm,
        fun x hx he => huniq x (hin x hx).1 he⟩
    · obtain ⟨hne, hp⟩ := (hother i).1 hi
      exact hkept _ _ (nofun) (ho.held i f hp)
        fun g he => hne (ho.apart m.id g i f hpresent hp he).1.symm
    · exact ho.apart i f j g ((hother i).1 hi).2 ((hother j).1 hj).2 he
    · exact hkept _ _ (nofun) (ho.lines.2 a ha) fun f => ho.line_ne ha f hpresent
    · show (i == m.id || h.destroyed i) = true
      rw [ho.idle hs i, Bool.or_true]

/-- An entry is appended under a key that is free. -/
theorem Owned.append (ho : Owned h) (hu : h.control.uncompletedMessage = some u)
    (free : h.control.find u.kind u.name = none) (message : h.destroyed u.id = false)
    (context : h.control.destroyed u.queryContext = 0) :
    Owned (h.setControl (h.control.append u)) := by
  obtain ⟨hid, hqc, huniq⟩ := ho.pending u hu
  have hmem : ∀ x, x ∈ (h.control.append u).messageList → x ∈ h.control.messageList ∨ x = u := by
    intro x hx
    replace hx : x ∈ h.control.messageList ++ [u] := hx
    rwa [List.mem_append, List.mem_singleton] at hx
  refine { ho with distinct := ?_, ids := ?_, listed := ?_, pending := ?_ }
  · exact ho.distinct.append_singleton free
  · intro x hx y hy he
    rcases hmem x hx with hxl | hxu <;> rcases hmem y hy with hyl | hyu
    · exact ho.ids x hxl y hyl he
    · rw [hyu] at he ⊢
      exact (huniq x hxl he.symm).symm
    · rw [hxu] at he ⊢
      exact huniq y hyl he
    · rw [hxu, hyu]
  · intro x hx
    rcases hmem x hx with hx | rfl
    · exact ho.listed x hx
    · exact ⟨⟨hid, message⟩, hqc, context⟩
  · intro v hv
    obtain rfl : u = v := Option.some.inj (hu.symm.trans hv)
    refine ⟨hid, hqc, fun x hx he => ?_⟩
    rcases hmem x hx with hx | rfl
    · exact huniq x hx he
    · rfl

/-- `pool_add_sent_message`, which may remove an entry without a name first. -/
theorem Owned.addMessage (ho : Owned h) (hu : h.control.uncompletedMessage = some u)
    (ha : h.Addable u) : Owned (h.addMessage u) := by
  unfold Heap.addMessage
  cases hf : h.control.find u.kind u.name with
  | none => exact ho.append hu hf ha.message ha.context
  | some old =>
    simp only
    split
    · rename_i hname
      have hnew : u ∉ h.control.messageList := fun hm => ha.named hm hname
      have hold : old ∈ h.control.messageList := lookup_mem hf
      have hne : old ≠ u := fun he => hnew (he ▸ hold)
      have hid : u.id ≠ old.id := fun he => hne ((ho.pending u hu).2.2 old hold he).symm
      -- the removal leaves the context of the new message alone
      have hkeep : ¬ (h.control.refCount old.queryContext ≤ 1 ∧
          u.queryContext = old.queryContext) := by
        intro ⟨hcount, hqc⟩
        cases ha.pending with
        | closing entry => exact hnew entry
        | bind new kind found statement context =>
          have honly := (ho.distinct.length_filter_le_one_iff hold (by simp)).1 hcount _ found
            (by simp [context, hqc])
          refine statement ?_
          rw [honly]
          exact (congrArg Prod.fst (lookup_key hf)).trans kind
        | own new kind unlisted => exact unlisted ⟨old, hold, hqc.symm⟩
      have ho' := ho.removeMessage u.kind u.name
      unfold Heap.removeMessage at ho' ⊢
      simp only [hf] at ho' ⊢
      refine ho'.append (u := u) ?_ ?_ ?_ ?_
      · exact Control.uncompletedMessage_removeMessage.trans hu
      · show lookup SentMessage.key (u.kind, u.name)
          (h.control.removeMessage u.kind u.name).messageList = none
        rw [Control.messageList_removeMessage]
        exact ho.distinct.lookup_remove _
      · show (u.id == old.id || h.destroyed u.id) = false
        rw [ha.message, Bool.or_false, beq_eq_false_iff_ne]
        exact hid
      · show (h.control.removeMessage u.kind u.name).destroyed u.queryContext = 0
        rw [destroyed_removeMessage hf, if_neg hkeep]
        exact ha.context
    · exact ho

/-! ## Runs -/

/-- Every careful call preserves the ownership. -/
theorem Owned.step {call : Call} {h' : Heap} (ho : Owned h) (hc : Careful h call)
    (hs : h.step call = some h') : Owned h' := by
  unfold Heap.step at hs
  cases hserving : h.serving with
  | false =>
    rw [if_neg (by simp [hserving])] at hs
    split at hs
    · cases hs
      exact ho.beginSession hserving
    · cases hs
  | true =>
    rw [if_pos hserving] at hs
    cases call with
    | beginSession => cases hs
    | endSession =>
      cases hs
      exact ho.endSession
    | flags =>
      cases hs
      exact ho.setControl rfl rfl rfl rfl ho.current ho.pending
    | startQuery sql node =>
      cases hs
      exact ho.startQuery sql node
    | work site ops =>
      cases hs
      exact ho.work hserving site ops
    | freeParser =>
      cases hs
      exact ho.freeParser
    | createMessage m len =>
      simp only [Heap.call] at hs
      split at hs
      · rename_i hnew
        cases hs
        exact ho.createMessage hserving hnew.1 hnew.2 len
      · cases hs
    | replaceContents => exact hc.elim
    | setCurrent m =>
      simp only [Heap.call] at hs
      split at hs
      · rename_i hm
        cases hs
        refine ho.setControl rfl rfl rfl rfl (fun qc hqc => ?_) ho.pending
        obtain rfl : m.queryContext = qc := Option.some.inj hqc
        exact (ho.listed m hm).2
      · cases hs
    | close m =>
      simp only [Heap.call] at hs
      split at hs
      · rename_i hm
        cases hs
        refine ho.setControl rfl rfl rfl rfl ho.current fun u hu => ?_
        obtain rfl : m = u := Option.some.inj hu
        obtain ⟨hp, hqc, -⟩ := ho.listed m hm
        exact ⟨hp.1, hqc, ho.ids m hm⟩
      · cases hs
    | forget =>
      cases hs
      exact ho.setControl rfl rfl rfl rfl ho.current (nofun)
    | addMessage =>
      simp only [Heap.call] at hs
      split at hs
      · cases hs
        exact ho
      · rename_i u hu
        cases hs
        exact ho.addMessage hu (hc u hu)
    | removeMessage kind name =>
      cases hs
      exact ho.removeMessage kind name
    | destroyQuery =>
      cases hs
      exact ho.destroyQuery hc
    | loadHba opened ops =>
      cases hs
      exact ho.loadHba hc opened ops

/-- A child that has just started has no messages. -/
theorem owned_init : Owned init := by
  have hempty : (Memory.mk (fun _ : PoolId => Pool.empty 0) (fun _ => 0) 0 []).Formed :=
    ⟨fun _ => Pool.distinct_empty 0, nofun, nofun, nofun,
      nofun⟩
  have hprocess := hempty.poolMemoryCreate (r := PoolId.process) id parserBlockSize
  have hhba := hprocess.poolMemoryCreate (r := PoolId.hba) (by rintro (⟨⟨⟩⟩ | ⟨⟨⟩⟩)) parserBlockSize
  exact
    { formed := hhba
      justified := trivial
      process := Or.inr (Or.inl rfl)
      serving := nofun
      sessions := by rintro k - (⟨⟨⟩⟩ | ⟨⟨⟩⟩ | ⟨⟨⟩⟩)
      queries := by rintro qc - (⟨⟨⟩⟩ | ⟨⟨⟩⟩ | ⟨⟨⟩⟩)
      contexts := fun qc hlt => absurd hlt (Nat.not_lt_zero qc)
      fresh := fun _ _ => rfl
      current := nofun
      distinct := List.nodup_nil
      ids := nofun
      listed := nofun
      pending := nofun
      held := fun i f hi => (Bool.false_ne_true hi.2.symm).elim
      apart := fun i f j g hi => (Bool.false_ne_true hi.2.symm).elim
      lines := ⟨List.nodup_nil, nofun⟩
      idle := fun _ _ => rfl }

/-- The ownership holds in every state that careful calls reach. -/
theorem owned (run : Transition.Run step Careful init h) : Owned h :=
  run.invariant (fun _ _ _ hi hc hs => hi.step hc hs) owned_init

end Heap

end PgPool
