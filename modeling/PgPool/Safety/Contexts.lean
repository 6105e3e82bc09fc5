import PgPool.Control.Accounts
import PgPool.Safety.Completions

/-!
# Query contexts live as long as they are referred to

The ownership of query contexts over whole runs.  `Live` is what every step keeps as long as the
replies answer the pending message, no taken name is parsed, prepared or closed in the ways that
`Answers` leaves out, and no session ends in the middle of a query.
-/

namespace PgPool

open Keyed Transition

namespace Control

/-- Nothing is pending, and the current context, if any, is one of an entry. -/
structure Settled (c : Control) : Prop where
  idle : c.uncompletedMessage = none
  listed : CurrentListed c

/-- A message that waits for its completion: the entry that a Close names, a Bind for the context of
an entry, or a Parse or PREPARE with a context of its own. -/
inductive Pending (c : Control) (u : SentMessage) : Prop
  | closing (entry : u ∈ c.messageList)
  | bind (new : u ∉ c.messageList) (kind : u.kind = .B) {pm : SentMessage} (found : pm ∈ c.messageList)
      (statement : pm.kind ≠ .B) (context : pm.queryContext = u.queryContext)
  | own (new : u ∉ c.messageList) (kind : u.kind ≠ .B) (unlisted : ¬ c.Listed u.queryContext)

/-- The state of the query contexts between two steps. -/
structure Live (c : Control) : Prop where
  accounts : Accounts c
  pending : ∀ u, c.uncompletedMessage = some u →
    c.queryContext = some u.queryContext ∧ Pending c u
  settled : c.inProgress = false → Settled c
  extended : c.doingExtendedQueryMessage = true → c.uncompletedMessage = none → CurrentListed c
  prepared : ∀ qc, c.queryContext = some qc → (c.statement qc).2.tag = .prepareStmt →
    c.uncompletedMessage = none → c.Listed qc

/-- The list can take the message: its name is empty or free, or it is a Bind, which has no context
of its own. -/
def Acceptable (c : Control) (u : SentMessage) : Prop :=
  u ∉ c.messageList ∧ (u.kind = .B ∨ u.name = "" ∨ c.find u.kind u.name = none)

variable {c d : Control} {m u : SentMessage} {kind : MsgKind} {name : String} {qc : QcId}

/-! ## Completing the pending message -/

theorem listed_append : (c.append m).Listed qc ↔ c.Listed qc ∨ m.queryContext = qc := by
  constructor
  · intro ⟨x, hx, hqc⟩
    change x ∈ c.messageList ++ [m] at hx
    rw [List.mem_append, List.mem_singleton] at hx
    rcases hx with hx | rfl
    · exact Or.inl ⟨x, hx, hqc⟩
    · exact Or.inr hqc
  · rintro (⟨x, hx, hqc⟩ | hqc)
    · exact ⟨x, List.mem_append_left _ hx, hqc⟩
    · exact ⟨m, List.mem_append_right _ (List.mem_singleton_self m), hqc⟩

/-- Appending an entry for a context that exists. -/
theorem Accounts.append (h : Accounts c) (halive : c.destroyed m.queryContext = 0) :
    Accounts (c.append m) where
  entry q hq := by
    rcases listed_append.1 hq with hq | rfl
    · exact h.entry q hq
    · exact halive
  current := h.current
  currentAllocated := h.currentAllocated
  fresh := h.fresh
  once := h.once
  covered q hq hd := (h.covered q hq hd).imp_left fun hl => listed_append.2 (Or.inl hl)

/-- The context of a new message survives the removal of an entry of the same kind. -/
theorem pending_removeMessage (hk : WellKeyed c) (h : Accounts c)
    (hcur : c.queryContext = some u.queryContext) (hp : Pending c u) (hnew : u ∉ c.messageList) :
    (c.removeMessage u.kind u.name).queryContext = some u.queryContext ∧
      (c.removeMessage u.kind u.name).destroyed u.queryContext = 0 ∧
      (u.kind = .B → (c.removeMessage u.kind u.name).Listed u.queryContext) := by
  cases hp with
  | closing entry => exact absurd entry hnew
  | @bind _ kind pm found statement context =>
    have hlisted : (c.removeMessage u.kind u.name).Listed u.queryContext := by
      refine ⟨pm, ?_, context⟩
      rw [messageList_removeMessage]
      exact mem_remove_of_ne found fun hkey => statement ((congrArg Prod.fst hkey).trans kind)
    have hbooks := h.removeMessage hk u.kind u.name
    refine ⟨?_, hbooks.entry _ hlisted, fun _ => hlisted⟩
    have hrem := removed_removeMessage hk u.kind u.name
    generalize c.removeMessage u.kind u.name = d at hrem hlisted
    cases hrem with
    | absent | shared => exact hcur
    | @last m found' only =>
      have hne : u.queryContext ≠ m.queryContext := by
        intro he
        have hpm := only pm found (context.trans he)
        exact statement ((congrArg SentMessage.kind hpm).trans
          ((congrArg Prod.fst (lookup_key found')).trans kind))
      change (if c.queryContext = some m.queryContext then none else c.queryContext) = _
      rw [if_neg (by rw [hcur]; exact fun he => hne (Option.some.inj he)), hcur]
  | own _ kind unlisted =>
    obtain ⟨hcur', hd⟩ : ((c.removeMessage u.kind u.name).queryContext = some u.queryContext ↔
        c.queryContext = some u.queryContext) ∧ _ := removeMessage_unlisted hk unlisted
    exact ⟨hcur'.2 hcur, hd.trans (h.current _ hcur), fun hb => absurd hb kind⟩

/-- Adding the pending message keeps the books in order, unless it is an unnamed entry itself. -/
theorem Accounts.addMessage (hk : WellKeyed c) (h : Accounts c)
    (hcur : c.queryContext = some u.queryContext) (hp : Pending c u)
    (hentry : u ∈ c.messageList → u.name ≠ "") : Accounts (c.addMessage u) := by
  unfold Control.addMessage
  cases hf : c.find u.kind u.name with
  | none => exact h.append (h.current _ hcur)
  | some old =>
    simp only
    split
    · rename_i hname
      have hnew : u ∉ c.messageList := fun hu => hentry hu hname
      exact (h.removeMessage hk _ _).append (pending_removeMessage hk h hcur hp hnew).2.1
    · exact h

/-- Once the message has been accepted, its context, which is the current one, has an entry. -/
theorem currentListed_addMessage (hk : WellKeyed c) (h : Accounts c)
    (hcur : c.queryContext = some u.queryContext) (hp : Pending c u) (ha : Acceptable c u) :
    CurrentListed (c.addMessage u) := by
  unfold Control.addMessage
  cases hf : c.find u.kind u.name with
  | none =>
    intro q hq
    exact listed_append.2 (Or.inr (Option.some.inj (hcur.symm.trans hq)))
  | some old =>
    simp only
    split
    · intro q hq
      have hcur' := (pending_removeMessage hk h hcur hp ha.1).1
      exact listed_append.2 (Or.inr (Option.some.inj (hcur'.symm.trans hq)))
    · rename_i hname
      intro q hq
      rw [hcur] at hq
      cases hp with
      | closing entry => exact absurd entry ha.1
      | bind _ _ found _ context => exact ⟨_, found, context.trans (Option.some.inj hq)⟩
      | own _ kind =>
        rcases ha.2 with hb | hempty | hnone
        · exact absurd hb kind
        · exact absurd hempty hname
        · rw [hf] at hnone
          cases hnone

theorem Live.complete (hk : WellKeyed c) (h : Live c)
    (ha : ∀ u, c.uncompletedMessage = some u → Acceptable c u ∨ (u ∈ c.messageList ∧ u.name ≠ "")) :
    Accounts c.complete ∧
      ((∃ u, c.uncompletedMessage = some u) → Settled c.complete) := by
  unfold Control.complete
  cases hu : c.uncompletedMessage with
  | none => exact ⟨h.accounts, fun ⟨_, he⟩ => by cases he⟩
  | some u =>
    obtain ⟨hcur, hp⟩ := h.pending u hu
    have hok := ha u hu
    have hacc : Accounts (c.addMessage u) := by
      refine h.accounts.addMessage hk hcur hp fun hmem => ?_
      rcases hok with hnew | ⟨-, hname⟩
      · exact absurd hmem hnew.1
      · exact hname
    refine ⟨hacc.of_eq rfl rfl rfl rfl, fun _ => ⟨rfl, ?_⟩⟩
    rcases hok with hnew | ⟨hmem, hname⟩
    · exact currentListed_addMessage hk h.accounts hcur hp hnew
    · -- a named entry is found, and stays
      have hf : c.find u.kind u.name = some u := hk.distinct.lookup_of_mem hmem
      have hsame : c.addMessage u = c := by
        unfold Control.addMessage
        rw [hf]
        exact if_neg hname
      intro q hq
      change (c.addMessage u).Listed q
      change (c.addMessage u).queryContext = some q at hq
      rw [hsame] at hq ⊢
      exact ⟨u, hmem, Option.some.inj (hcur.symm.trans hq)⟩

/-! ## Settled states -/

theorem Settled.of_eq (h : Settled c) (list : d.messageList = c.messageList)
    (current : d.queryContext = c.queryContext)
    (pending : d.uncompletedMessage = c.uncompletedMessage) : Settled d :=
  ⟨pending.trans h.idle, h.listed.of_eq list current⟩

theorem Settled.removeMessage (hk : WellKeyed c) (h : Settled c) (kind : MsgKind) (name : String) :
    Settled (c.removeMessage kind name) :=
  ⟨uncompletedMessage_removeMessage.trans h.idle, h.listed.removeMessage hk kind name⟩

/-- A settled state is live whatever else happens. -/
theorem Live.of_settled (accounts : Accounts c) (h : Settled c) : Live c where
  accounts := accounts
  pending u hu := by
    rw [h.idle] at hu
    cases hu
  settled _ := h
  extended _ _ := h.listed
  prepared q hq _ _ := h.listed q hq

/-- Flags do not matter as long as no query ends. -/
theorem Live.of_eq (h : Live c) (list : d.messageList = c.messageList)
    (current : d.queryContext = c.queryContext)
    (pending : d.uncompletedMessage = c.uncompletedMessage) (next : d.nextContext = c.nextContext)
    (destroyed : d.destroyed = c.destroyed) (statement : d.statement = c.statement)
    (progress : d.inProgress = c.inProgress)
    (extended : d.doingExtendedQueryMessage = c.doingExtendedQueryMessage) : Live d where
  accounts := h.accounts.of_eq list current next destroyed
  pending u hu := by
    obtain ⟨hcur, hp⟩ := h.pending u (pending ▸ hu)
    refine ⟨current.trans hcur, ?_⟩
    cases hp with
    | closing entry => exact .closing (list ▸ entry)
    | bind new kind found statement context =>
      exact .bind (list ▸ new) kind (list ▸ found) statement context
    | own new kind unlisted => exact .own (list ▸ new) kind (by simpa [Listed, list] using unlisted)
  settled hp := (h.settled (progress ▸ hp)).of_eq list current pending
  extended he hu := (h.extended (extended ▸ he) (pending ▸ hu)).of_eq list current
  prepared q hq ht hu := by
    simpa [Listed, list] using h.prepared q (current ▸ hq) (statement ▸ ht) (pending ▸ hu)

/-- Removing an entry while nothing, or a statement of its own context, is pending. -/
theorem Live.removeMessage (hk : WellKeyed c) (h : Live c) (kind : MsgKind) (name : String)
    (ho : ∀ u, c.uncompletedMessage = some u →
      u ∉ c.messageList ∧ u.kind ≠ .B ∧ ¬ c.Listed u.queryContext) :
    Live (c.removeMessage kind name) where
  accounts := h.accounts.removeMessage hk kind name
  pending u hu := by
    rw [uncompletedMessage_removeMessage] at hu
    obtain ⟨hnew, hkind, hunlisted⟩ := ho u hu
    refine ⟨(removeMessage_unlisted hk hunlisted).1.2 (h.pending u hu).1, .own ?_ hkind ?_⟩
    · rw [messageList_removeMessage]
      exact fun hmem => hnew (mem_of_mem_remove hmem)
    · exact fun hl => hunlisted hl.of_removeMessage
  settled hp := (h.settled (inProgress_removeMessage ▸ hp)).removeMessage hk kind name
  extended he hu :=
    (h.extended (doingExtendedQueryMessage_removeMessage ▸ he)
      (uncompletedMessage_removeMessage ▸ hu)).removeMessage hk kind name
  prepared q hq ht hu :=
    (h.prepared q (current_of_removeMessage hk hq) (statement_removeMessage ▸ ht)
      (uncompletedMessage_removeMessage ▸ hu)).removeMessage hk hq

theorem Live.removals (hk : WellKeyed c) (h : Live c) (hu : c.uncompletedMessage = none)
    (hr : Removals c d) : Live d := by
  have hall : WellKeyed d ∧ Live d ∧ d.uncompletedMessage = none := by
    refine hr.invariant (I := fun d => WellKeyed d ∧ Live d ∧ d.uncompletedMessage = none) ?_
      ⟨hk, h, hu⟩
    intro e kind name ⟨hke, he, hue⟩
    refine ⟨hke.removeMessage kind name, he.removeMessage hke kind name ?_,
      uncompletedMessage_removeMessage.trans hue⟩
    intro u hsome
    rw [hue] at hsome
    cases hsome
  exact hall.2.1

/-! ## Replies -/

/-- The reply is for what is pending, and the list can take the pending message.  A ReadyForQuery
comes for a query whose context no entry refers to. -/
def Orderly (c : Control) : Reply → Prop
  | .readyForQuery =>
      c.uncompletedMessage = none ∧
        (c.doingExtendedQueryMessage = true ∨
          ∀ qc, c.queryContext = some qc → c.isPrepare qc = true ∨ ¬ c.Listed qc)
  | .parseComplete | .bindComplete => ∃ u, c.uncompletedMessage = some u ∧ Acceptable c u
  | .closeComplete => ∃ u ∈ c.messageList, c.uncompletedMessage = some u
  | .errorResponse _ =>
      ∀ u, c.uncompletedMessage = some u → Acceptable c u ∨ (u ∈ c.messageList ∧ u.name ≠ "")
  | .commandComplete _ _ _ =>
      ∀ u, c.uncompletedMessage = some u →
        Acceptable c u ∧ ∃ qc, c.queryContext = some qc ∧ (c.statement qc).2.tag = .prepareStmt
  | .emptyQuery | .rowDescription | .noData | .portalSuspended =>
      c.doingExtendedQueryMessage = true → c.uncompletedMessage = none
  | .copyIn _ | .other => True

theorem Live.endExtended (h : Live c) (hu : c.doingExtendedQueryMessage = true →
    c.uncompletedMessage = none) : Live c.endExtended := by
  unfold Control.endExtended
  split
  · rename_i he
    exact .of_settled (h.accounts.of_eq rfl rfl rfl rfl) ⟨hu he, h.extended he (hu he)⟩
  · exact h

theorem Live.endError (h : Live c) (hu : c.doingExtendedQueryMessage = true →
    c.uncompletedMessage = none) : Live c.endError := by
  unfold Control.endError
  split
  · rename_i he
    exact .of_settled (h.accounts.of_eq rfl rfl rfl rfl) ⟨hu he, h.extended he (hu he)⟩
  · exact h.of_eq rfl rfl rfl rfl rfl rfl rfl rfl

/-- ReadyForQuery destroys the context of a simple query. -/
theorem Live.readyForQuery (h : Live c) (ho : Orderly c .readyForQuery) :
    Accounts c.readyForQuery ∧ Settled c.readyForQuery := by
  obtain ⟨hu, hcur⟩ := ho
  unfold Control.readyForQuery
  split
  · rename_i he
    exact ⟨h.accounts.of_eq rfl rfl rfl rfl, hu, h.extended he hu⟩
  · rename_i he
    replace hcur := hcur.resolve_left he
    cases hq : c.queryContext with
    | none =>
      refine ⟨h.accounts.of_eq rfl rfl rfl rfl, hu, ?_⟩
      intro q hq'
      exact absurd (hq.symm.trans hq') (by simp)
    | some qc =>
      simp only
      split
      · rename_i hprep
        refine ⟨h.accounts.of_eq rfl rfl rfl rfl, hu, ?_⟩
        intro q hq'
        obtain rfl : qc = q := Option.some.inj (hq.symm.trans hq')
        simp only [isPrepare, Bool.and_eq_true, beq_iff_eq] at hprep
        exact h.prepared qc hq hprep.2 hu
      · rename_i hprep
        have hunlisted : ¬ c.Listed qc := (hcur qc hq).resolve_left hprep
        have halive : c.destroyed qc = 0 := h.accounts.current qc hq
        refine ⟨⟨?_, nofun, nofun, ?_, ?_, ?_⟩, hu, nofun⟩
        · intro q hl
          have hne : q ≠ qc := fun he => hunlisted (he ▸ hl)
          exact (if_neg hne).trans (h.accounts.entry q hl)
        · intro q hle
          have hne : q ≠ qc := fun he =>
            absurd (h.accounts.currentAllocated qc hq) (Nat.not_lt.2 (he ▸ hle))
          exact (if_neg hne).trans (h.accounts.fresh q hle)
        · intro q
          change (if q = qc then c.destroyed q + 1 else c.destroyed q) ≤ 1
          split
          · rename_i he
            simp [he, halive]
          · exact h.accounts.once q
        · intro q hlt hd
          change (if q = qc then c.destroyed q + 1 else c.destroyed q) = 0 at hd
          split at hd
          · cases hd
          · rename_i hne
            refine Or.inl ((h.accounts.covered q hlt hd).resolve_right fun he => hne ?_)
            exact Option.some.inj (he.symm.trans hq)

/-- A reply that is in order keeps a session live. -/
theorem Live.replied {reply : Reply} (hk : WellKeyed c) (h : Live c) (ho : Orderly c reply)
    (hr : Replied c reply d) : Live d := by
  cases hr with
  | ignored | copyIn | other | v2 => exact h
  | skipped => exact h.of_eq rfl rfl rfl rfl rfl rfl rfl rfl
  | ready =>
    obtain ⟨hacc, hset⟩ := h.readyForQuery ho
    exact .of_settled hacc hset
  | parseComplete | bindComplete =>
    obtain ⟨u, hu, ha⟩ := ho
    obtain ⟨hacc, hset⟩ := h.complete hk fun u' hu' => by
      rw [Option.some.inj (hu'.symm.trans hu)]
      exact Or.inl ha
    exact .of_settled (hacc.of_eq rfl rfl rfl rfl) ((hset ⟨u, hu⟩).of_eq rfl rfl rfl)
  | @closeComplete m closing =>
    obtain ⟨u, hmem, hu⟩ := ho
    obtain rfl : u = m := Option.some.inj (hu.symm.trans closing)
    have hlisted : CurrentListed c := by
      intro q hq
      exact ⟨u, hmem, Option.some.inj ((h.pending u hu).1.symm.trans hq)⟩
    exact .of_settled ((h.accounts.removeMessage hk u.kind u.name).of_eq rfl rfl rfl rfl)
      ⟨rfl, (hlisted.removeMessage hk u.kind u.name).of_eq rfl rfl⟩
  | error =>
    unfold dropUncompleted
    cases hu : c.uncompletedMessage with
    | none => exact h.endError fun _ => hu
    | some u =>
      obtain ⟨hacc, hset⟩ := h.complete hk ho
      have hdrop : ((c.addMessage u).removeMessage u.kind u.name).setUncompleted none =
          c.complete.removeMessage u.kind u.name := by
        unfold Control.complete
        rw [hu]
        exact (removeMessage_setUncompleted none).symm
      simp only
      rw [hdrop]
      have hset' := (hset ⟨u, hu⟩).removeMessage hk.complete u.kind u.name
      have hlive := Live.of_settled (hacc.removeMessage hk.complete u.kind u.name) hset'
      exact hlive.endError fun _ => hset'.idle
  | @command tag effect mismatch d' completed =>
    have hlive : Live d' ∧ (d'.doingExtendedQueryMessage = true → d'.uncompletedMessage = none) := by
      cases completed with
      | prepare current htag =>
        obtain ⟨hacc, hset⟩ := h.complete hk fun u hu => Or.inl (ho u hu).1
        cases hu : c.uncompletedMessage with
        | none =>
          have hsame : c.complete = c := by
            unfold Control.complete
            rw [hu]
          rw [hsame]
          exact ⟨h, fun _ => hu⟩
        | some u => exact ⟨.of_settled hacc (hset ⟨u, hu⟩), fun _ => (hset ⟨u, hu⟩).idle⟩
      | other htag removals =>
        have hu : c.uncompletedMessage = none := by
          cases hu : c.uncompletedMessage with
          | none => rfl
          | some u =>
            obtain ⟨-, qc, hqc, hprep⟩ := ho u hu
            exact absurd hprep (htag qc hqc)
        refine ⟨h.removals hk hu removals, fun _ => ?_⟩
        exact removals.invariant (I := fun e => e.uncompletedMessage = none)
          (fun _ _ _ he => uncompletedMessage_removeMessage.trans he) hu
    have hset : Live d'.setSuccess := hlive.1.of_eq rfl rfl rfl rfl rfl rfl rfl rfl
    exact hset.endExtended hlive.2
  | ends reply_eq =>
    refine h.endExtended ?_
    rcases reply_eq with rfl | rfl | rfl | rfl <;> exact ho

/-! ## Messages from the frontend -/

/-- A new context becomes the current one. -/
theorem Accounts.startQuery (h : Accounts c) (hs : CurrentListed c) (sql : String) (node : Node) :
    Accounts (c.startQuery sql node) where
  entry := h.entry
  current := by
    rintro q ⟨⟩
    exact h.fresh _ (Nat.le_refl _)
  currentAllocated := by
    rintro q ⟨⟩
    exact Nat.lt_succ_self _
  fresh q hq := h.fresh q (Nat.le_of_succ_le hq)
  once := h.once
  covered q hq hd := by
    rcases Nat.lt_succ_iff_lt_or_eq.1 hq with hlt | rfl
    · exact Or.inl ((h.covered q hlt hd).elim id (hs q))
    · exact Or.inr rfl

/-- The context of an entry becomes the current one. -/
theorem Accounts.setCurrent (h : Accounts c) (hs : CurrentListed c) (hk : WellKeyed c)
    (hq : c.Listed qc) : Accounts (c.setCurrent qc) where
  entry := h.entry
  current := by
    rintro q ⟨⟩
    exact h.entry qc hq
  currentAllocated := by
    rintro q ⟨⟩
    exact hq.allocated hk
  fresh := h.fresh
  once := h.once
  covered q hlt hd := Or.inl ((h.covered q hlt hd).elim id (hs q))

/-- A query that is answered on the spot leaves no trace but a destroyed context. -/
theorem Live.answerQuery (hk : WellKeyed c) (h : Live c) (hs : Settled c) (sql : String)
    (node : Node) (skip : Bool) :
    Live (c.answerQuery sql node skip) ∧ Settled (c.answerQuery sql node skip) := by
  have hset : Settled (c.answerQuery sql node skip) := ⟨hs.idle, nofun⟩
  refine ⟨.of_settled ⟨?_, nofun, nofun, ?_, ?_, ?_⟩ hset, hset⟩
  · intro q hl
    have hne : q ≠ c.nextContext := Nat.ne_of_lt (Listed.allocated (c := c) hl hk)
    exact (if_neg hne).trans (h.accounts.entry q hl)
  · intro q hle
    have hne : q ≠ c.nextContext := (Nat.ne_of_lt hle).symm
    exact (if_neg hne).trans (h.accounts.fresh q (Nat.le_of_succ_le hle))
  · intro q
    change (if q = c.nextContext then c.destroyed q + 1 else c.destroyed q) ≤ 1
    split
    · rename_i he
      simp [he, h.accounts.fresh _ (Nat.le_refl _)]
    · exact h.accounts.once q
  · intro q hlt hd
    change (if q = c.nextContext then c.destroyed q + 1 else c.destroyed q) = 0 at hd
    split at hd
    · cases hd
    · rename_i hne
      have hlt' : q < c.nextContext := (Nat.lt_succ_iff_lt_or_eq.1 hlt).resolve_right hne
      exact Or.inl ((h.accounts.covered q hlt' hd).elim id (hs.listed q))

/-- A new statement, with or without a message that waits for its completion. -/
theorem Live.attemptNew (hk : WellKeyed c) (h : Live c) (hs : Settled c) (sql : String)
    (node : Node) (hid : m.id = c.nextMessage) (hkind : m.kind ≠ .B)
    (hqc : m.queryContext = c.nextContext) : Live ((c.startQuery sql node).attempt m) where
  accounts := (h.accounts.startQuery hs.listed sql node).of_eq rfl rfl rfl rfl
  pending := by
    rintro u ⟨⟩
    refine ⟨congrArg some hqc.symm, .own ?_ hkind ?_⟩
    · exact fun hmem => absurd (hk.fresh m hmem) (hid ▸ Nat.lt_irrefl _)
    · exact fun hl => hk.not_listed_next (hqc ▸ hl)
  settled := nofun
  extended := nofun
  prepared := nofun

theorem Live.startQuery (h : Live c) (hs : Settled c) (hext : c.doingExtendedQueryMessage = false)
    (sql : String) (node : Node) (hnode : node.tag ≠ .prepareStmt) :
    Live (c.startQuery sql node) where
  accounts := h.accounts.startQuery hs.listed sql node
  pending u hu := by
    rw [show (c.startQuery sql node).uncompletedMessage = c.uncompletedMessage from rfl, hs.idle] at hu
    cases hu
  settled := nofun
  extended he := by
    rw [show (c.startQuery sql node).doingExtendedQueryMessage = c.doingExtendedQueryMessage from rfl,
      hext] at he
    cases he
  prepared := by
    rintro q ⟨⟩ ht
    exact absurd (by simpa [Control.startQuery] using ht) hnode

theorem Live.simpleQuery (hk : WellKeyed c) (h : Live c) (hs : Settled c)
    (hext : c.doingExtendedQueryMessage = false) (sql : String) (node : Node) :
    Live (c.simpleQuery sql node) := by
  cases node with
  | prepareStmt name query => exact h.attemptNew hk hs _ _ rfl (by simp) rfl
  | plain t word => exact h.startQuery hs hext _ _ (Node.tag_plain rfl)
  | value v =>
    refine h.startQuery hs hext _ _ ?_
    cases v <;> simp [Node.tag]
  | _ => exact h.startQuery hs hext _ _ (by simp [Node.tag])

/-- The context of an entry is current and nothing is pending. -/
theorem Live.setCurrent (hk : WellKeyed c) (h : Live c) (hs : Settled c) (hq : c.Listed qc) :
    Live (c.startExtended.setCurrent qc) := by
  refine .of_settled ((h.accounts.setCurrent hs.listed hk hq).of_eq rfl rfl rfl rfl) ⟨hs.idle, ?_⟩
  rintro q ⟨⟩
  exact hq

/-- A pending message for the context of an entry. -/
theorem Live.attempt (hk : WellKeyed c) (h : Live c) (hs : Settled c) (hq : c.Listed qc)
    (list : d.messageList = c.messageList) (current : d.queryContext = some qc)
    (next : d.nextContext = c.nextContext) (destroyed : d.destroyed = c.destroyed)
    (progress : d.inProgress = true) (hm : d.uncompletedMessage = some m)
    (hqc : m.queryContext = qc) (hp : Pending c m) : Live d where
  accounts := (h.accounts.setCurrent hs.listed hk hq).of_eq list current next destroyed
  pending u hu := by
    obtain rfl : m = u := Option.some.inj (hm.symm.trans hu)
    refine ⟨current.trans (congrArg some hqc.symm), ?_⟩
    cases hp with
    | closing entry => exact .closing (list ▸ entry)
    | bind new kind found statement context =>
      exact .bind (list ▸ new) kind (list ▸ found) statement context
    | own new kind unlisted => exact .own (list ▸ new) kind (by simpa [Listed, list] using unlisted)
  settled hp := by
    rw [progress] at hp
    cases hp
  extended _ hu := by
    rw [hm] at hu
    cases hu
  prepared _ _ _ hu := by
    rw [hm] at hu
    cases hu

/-- A message from the frontend keeps a settled session live. -/
theorem Live.received {env : Setup} {msg : FrontendMsg} (hk : WellKeyed c) (h : Live c)
    (hs : Settled c) (hr : Received env c msg d) : Live d := by
  have hplain : Live (c.setExtended false) ∧ Settled (c.setExtended false) :=
    ⟨.of_settled (h.accounts.of_eq rfl rfl rfl rfl) (hs.of_eq rfl rfl rfl), hs.of_eq rfl rfl rfl⟩
  have hext : Live c.startExtended ∧ Settled c.startExtended :=
    ⟨.of_settled (h.accounts.of_eq rfl rfl rfl rfl) (hs.of_eq rfl rfl rfl), hs.of_eq rfl rfl rfl⟩
  have hkplain : WellKeyed (c.setExtended false) := hk.of_eq rfl rfl rfl (Nat.le_refl _)
  have hkext : WellKeyed c.startExtended := hk.of_eq rfl rfl rfl (Nat.le_refl _)
  cases hr with
  | ignored => exact h
  | answered text node skip => exact (hplain.1.answerQuery hkplain hplain.2 text node skip).1
  | query => exact hplain.1.simpleQuery hkplain hplain.2 rfl _ _
  | parse new =>
    exact hext.1.attemptNew hkext hext.2 _ _ new.id (by simp [new.kind]) new.queryContext
  | @bind portal stmtName params pm m new =>
    refine h.attempt hk hs ⟨pm, new.found, rfl⟩ rfl rfl rfl rfl rfl rfl new.queryContext ?_
    refine .bind ?_ new.kind new.found new.statement new.queryContext.symm
    exact fun hmem => absurd (hk.fresh m hmem) (new.id ▸ Nat.lt_irrefl _)
  | describe found | execute found => exact h.setCurrent hk hs ⟨_, found, rfl⟩
  | close found =>
    exact h.attempt hk hs ⟨_, found, rfl⟩ rfl rfl rfl rfl rfl rfl rfl (.closing found)
  | sync =>
    exact .of_settled (h.accounts.of_eq rfl rfl rfl rfl) (hs.of_eq rfl rfl rfl)
  | functionCall =>
    exact hplain.1.startQuery hplain.2 rfl _ _ (by simp [functionCallQuery, Node.tag])
  | forward => exact hplain.1

/-! ## The reset and the end of a session -/

theorem Live.queried {env : Setup} {sql : String} (hk : WellKeyed c) (h : Live c) (hs : Settled c)
    (hext : c.doingExtendedQueryMessage = false) (hq : Queried env c sql d) :
    Live d ∧ ∀ u, d.uncompletedMessage = some u →
      u ∉ d.messageList ∧ u.kind ≠ .B ∧ ¬ d.Listed u.queryContext := by
  cases hq with
  | answered text node skip =>
    obtain ⟨hlive, hset⟩ := h.answerQuery hk hs text node skip
    refine ⟨hlive, fun u hu => ?_⟩
    rw [hset.idle] at hu
    cases hu
  | sent =>
    have hlive := h.simpleQuery hk hs hext sql (env.statement sql)
    refine ⟨hlive, fun u hu => ?_⟩
    have hnew : u.kind = .Q ∧ u.id = c.nextMessage ∧ u.queryContext = c.nextContext := by
      unfold Control.simpleQuery at hu
      split at hu
      · cases hu
        exact ⟨rfl, rfl, rfl⟩
      · rw [show (c.startQuery sql (env.statement sql)).uncompletedMessage = c.uncompletedMessage
          from rfl, hs.idle] at hu
        cases hu
    have hlist : (c.simpleQuery sql (env.statement sql)).messageList = c.messageList := by
      unfold Control.simpleQuery
      split <;> rfl
    refine ⟨?_, by simp [hnew.1], ?_⟩
    · rw [hlist]
      exact fun hmem => absurd (hk.fresh u hmem) (hnew.2.1 ▸ Nat.lt_irrefl _)
    · rw [Listed, hlist, hnew.2.2]
      exact hk.not_listed_next

/-- A step of the reset keeps a settled session live, and settled while no query is issued. -/
theorem Live.resetStep {env : Setup} {result : Session.ResetResult} (hk : WellKeyed c) (h : Live c)
    (hs : Settled c) (hext : c.doingExtendedQueryMessage = false) (hr : ResetStep env c result d) :
    Live d ∧ (result ≠ .issued → Settled d) ∧ (result = .done → d.messageList = []) := by
  cases hr with
  | abortSkipped => exact ⟨h, fun _ => hs, nofun⟩
  | done empty => exact ⟨h, fun _ => hs, fun _ => empty⟩
  | query queried => exact ⟨(h.queried hk hs hext queried).1, fun hne => absurd rfl hne, nofun⟩
  | deallocate _ queried =>
    obtain ⟨hlive, hown⟩ := h.queried hk hs hext queried
    exact ⟨hlive.removeMessage (hk.queried queried) _ _ hown, fun hne => absurd rfl hne,
      nofun⟩
  | remove =>
    refine ⟨h.removeMessage hk _ _ ?_, fun _ => hs.removeMessage hk _ _, nofun⟩
    intro u hu
    rw [hs.idle] at hu
    cases hu

/-- A session that ends while its current context is one of an entry leaves none behind. -/
theorem Accounts.destroy {s : Session} (hk : WellKeyed s.control) (h : Accounts s.control)
    (hs : CurrentListed s.control) :
    Live s.sessionContextDestroy.control ∧ Settled s.sessionContextDestroy.control := by
  have hall : ∀ d, Removals s.control d → WellKeyed d ∧ Accounts d ∧ CurrentListed d := by
    intro d hr
    refine hr.invariant (I := fun d => WellKeyed d ∧ Accounts d ∧ CurrentListed d) ?_ ⟨hk, h, hs⟩
    intro e kind name ⟨hke, hae, hse⟩
    exact ⟨hke.removeMessage kind name, hae.removeMessage hke kind name,
      hse.removeMessage hke kind name⟩
  obtain ⟨-, hacc, hcur⟩ := hall _ Session.removals_clearSentMessageList
  have hnone : s.clearSentMessageList.control.queryContext = none := by
    cases hq : s.clearSentMessageList.control.queryContext with
    | none => rfl
    | some q =>
      obtain ⟨m, hm, -⟩ := hcur q hq
      change m ∈ s.clearSentMessageList.messageList at hm
      rw [Session.messageList_clearSentMessageList] at hm
      cases hm
  have hset : Settled s.sessionContextDestroy.control := ⟨rfl, nofun⟩
  refine ⟨.of_settled (hacc.of_eq ?_ hnone.symm rfl rfl) hset, hset⟩
  exact Session.messageList_clearSentMessageList.symm

end Control

namespace Child

open Control

variable {env : Setup} {c c' : Child} {e : Event}

/-- The replies are in order, and a session ends, or a reset goes on, only where no query context is
left behind: not in the middle of a query, with a Terminate or after a message that is not an
extended query message, and without a failure of a reset query. -/
def Orderly (env : Setup) (c : Child) : Event → Prop
  | .backend reply _ => ReadsReply c.session → Control.Orderly c.session.control reply
  | .disconnect terminate cached =>
      c.session.inProgress = false ∧
        (cached = true → terminate = true ∨ c.session.doingExtendedQueryMessage = false)
  | .reset ans =>
      ∀ qcnt, c.phase = .resetting qcnt false →
        (Session.resetBackend env ans qcnt c.session).isSome = true
  | .abandon => CurrentListed c.session.control
  | .connect _ _ _ | .frontend _ _ => True

/-- The query contexts of a child between two steps. -/
structure Kept (c : Child) : Prop where
  keyed : WellKeyed c.session.control
  live : Live c.session.control
  rest : (c.phase = .idle ∨ ∃ qcnt, c.phase = .resetting qcnt false) → Settled c.session.control
  empty : c.phase = .idle → c.session.messageList = []
  plain : (∃ qcnt waiting, c.phase = .resetting qcnt waiting) →
    c.session.doingExtendedQueryMessage = false

/-- The end of a session. -/
theorem kept_destroy {s : Session} {pool : List Conn} (hk : WellKeyed s.control)
    (h : Live s.control) (hs : CurrentListed s.control) :
    Kept { session := s.sessionContextDestroy, phase := .idle, pool := pool } := by
  obtain ⟨hlive, hset⟩ := h.accounts.destroy hk hs
  refine ⟨wellKeyed_destroy hk, hlive, fun _ => hset, fun _ => rfl, ?_⟩
  rintro ⟨qcnt, waiting, ⟨⟩⟩

theorem Kept.connect {lb : NodeId} {conn : Conn} {pool : List Conn} (h : Kept c)
    (idle : c.phase = .idle) : Kept (c.connect env lb conn pool) := by
  have hlist := h.empty idle
  have hcur : c.session.queryContext = none := by
    cases hq : c.session.queryContext with
    | none => rfl
    | some q =>
      obtain ⟨m, hm, -⟩ := (h.rest (Or.inl idle)).listed q hq
      change m ∈ c.session.messageList at hm
      rw [hlist] at hm
      cases hm
  have hset : Settled (c.connect env lb conn pool).session.control := ⟨rfl, nofun⟩
  refine ⟨h.keyed.ended.of_eq rfl rfl rfl (Nat.le_refl _), ?_, fun _ => hset, fun _ => rfl, ?_⟩
  · exact .of_settled (h.live.accounts.of_eq hlist.symm hcur.symm rfl rfl) hset
  · rintro ⟨qcnt, waiting, ⟨⟩⟩

/-- A reply that is not read changes one flag at most. -/
theorem unread_backend {reply : Reply} {ans : Answers} {s t : Session} (hreads : ¬ ReadsReply s)
    (next : Session.processBackendResponse env ans reply s = some t) :
    t = s ∨ t = s.unsetSkipReadingFromBackends := by
  unfold Session.processBackendResponse at next
  split at next
  · cases next
    exact Or.inl rfl
  · rename_i hignore
    split at next
    · cases next
      exact Or.inr rfl
    · rename_i hskip
      exact absurd ⟨by simpa using hignore, by simpa using hskip⟩ hreads

/-- A ReadyForQuery that is read. -/
theorem control_ready {ans : Answers} {s t : Session} (hreads : ReadsReply s)
    (next : Session.processBackendResponse env ans .readyForQuery s = some t) :
    t.control = s.control.readyForQuery := by
  unfold Session.processBackendResponse at next
  rw [hreads.reads, hreads.noSkip] at next
  simp only [Bool.false_eq_true, if_false] at next
  split at next <;> exact Session.control_readyForQuery next

theorem Kept.backend {reply : Reply} {ans : Answers} {s : Session} (h : Kept c)
    (ho : Orderly env c (.backend reply ans))
    (waiting : c.phase = .serving ∨ ∃ q, c.phase = .resetting q true)
    (next : Session.processBackendResponse env ans reply c.session = some s) :
    Kept { c with session := s, phase := phaseAfter reply c.session c.phase } := by
  have hr := Session.replied_processBackendResponse next
  have hlive : Live s.control := by
    by_cases hreads : ReadsReply c.session
    · exact h.live.replied h.keyed (ho hreads) hr
    · rcases unread_backend hreads next with rfl | rfl
      · exact h.live
      · exact h.live.of_eq rfl rfl rfl rfl rfl rfl rfl rfl
  -- a session rests only after a ReadyForQuery has been read
  have hrest : ∀ qcnt, phaseAfter reply c.session c.phase = .resetting qcnt false →
      reply = .readyForQuery ∧ ReadsReply c.session := by
    intro qcnt hphase
    rcases waiting with hw | ⟨q, hw⟩
    · rw [hw] at hphase
      cases hphase
    · rw [hw] at hphase
      cases reply with
      | readyForQuery =>
        simp only [phaseAfter, Phase.resetting.injEq, Bool.true_and, Bool.or_eq_false_iff] at hphase
        exact ⟨rfl, hphase.2.1, hphase.2.2⟩
      | _ => simp [phaseAfter] at hphase
  have hidle : phaseAfter reply c.session c.phase ≠ .idle := by
    rcases waiting with hw | ⟨q, hw⟩ <;> rw [hw] <;> cases reply <;> simp [phaseAfter]
  refine ⟨h.keyed.replied hr, hlive, ?_, fun hi => absurd hi hidle, ?_⟩
  · rintro (hi | ⟨qcnt, hphase⟩)
    · exact absurd hi hidle
    · obtain ⟨rfl, hreads⟩ := hrest qcnt hphase
      change Settled s.control
      rw [control_ready hreads next]
      exact (h.live.readyForQuery (ho hreads)).2
  · intro ⟨qcnt, w, hphase⟩
    have hbefore : c.session.doingExtendedQueryMessage = false := by
      rcases waiting with hw | ⟨q, hw⟩
      · rw [hw] at hphase
        cases hphase
      · exact h.plain ⟨q, true, hw⟩
    exact hr.doingExtendedQueryMessage.trans hbefore

theorem Kept.reset {ans : Answers} {qcnt : Nat} (h : Kept c) (ho : Orderly env c (.reset ans))
    (resetting : c.phase = .resetting qcnt false) : Kept (c.reset env ans qcnt) := by
  have hset : Settled (c.session.control.setInProgress false) :=
    (h.rest (Or.inr ⟨qcnt, resetting⟩)).of_eq rfl rfl rfl
  have hlive : Live (c.session.control.setInProgress false) :=
    .of_settled (h.live.accounts.of_eq rfl rfl rfl rfl) hset
  have hk : WellKeyed (c.session.control.setInProgress false) :=
    h.keyed.of_eq rfl rfl rfl (Nat.le_refl _)
  have hext : (c.session.control.setInProgress false).doingExtendedQueryMessage = false :=
    h.plain ⟨qcnt, false, resetting⟩
  have hsome := ho qcnt resetting
  unfold Child.reset
  split
  · rename_i hnone
    rw [hnone] at hsome
    cases hsome
  · rename_i s hr
    have hstep := Session.resetStep_resetBackend hr
    obtain ⟨hlive', hset', -⟩ := hlive.resetStep hk hset hext hstep
    refine ⟨hk.resetStep hstep, hlive', fun _ => hset' (by simp), nofun, fun _ => ?_⟩
    exact hstep.doingExtendedQueryMessage.trans hext
  · rename_i s hr
    have hstep := Session.resetStep_resetBackend hr
    refine ⟨hk.resetStep hstep, (hlive.resetStep hk hset hext hstep).1, ?_, nofun, fun _ => ?_⟩
    · rintro (⟨⟨⟩⟩ | ⟨q, ⟨⟩⟩)
    · exact hstep.doingExtendedQueryMessage.trans hext
  · rename_i s hr
    have hstep := Session.resetStep_resetBackend hr
    obtain ⟨hlive', hset', -⟩ := hlive.resetStep hk hset hext hstep
    exact kept_destroy (s := s.setTstate (s.validNodes env) fun _ => .I) (hk.resetStep hstep) hlive'
      (hset' (by simp)).listed

theorem Kept.disconnect {terminate cached : Bool} (h : Kept c)
    (ho : Orderly env c (.disconnect terminate cached)) :
    Kept (c.disconnect terminate cached) := by
  obtain ⟨hready, hplain⟩ := ho
  have hset : Settled c.session.control := h.live.settled hready
  unfold Child.disconnect
  split
  · exact h
  · -- Terminate is not an extended query message
    have hs : ∀ s : Session, s = (if terminate = true then c.session.unsetDoingExtendedQueryMessage
        else c.session) → WellKeyed s.control ∧ Live s.control ∧ Settled s.control := by
      rintro s rfl
      cases terminate with
      | false => exact ⟨h.keyed, h.live, hset⟩
      | true =>
        have hset' : Settled c.session.unsetDoingExtendedQueryMessage.control := hset.of_eq rfl rfl rfl
        exact ⟨h.keyed.of_eq rfl rfl rfl (Nat.le_refl _),
          .of_settled (h.live.accounts.of_eq rfl rfl rfl rfl) hset', hset'⟩
    obtain ⟨hk, hlive, hset'⟩ := hs _ rfl
    simp only
    split
    · rename_i hcached
      refine ⟨hk, hlive, fun _ => hset', nofun, fun _ => ?_⟩
      cases terminate with
      | true => rfl
      | false => exact (hplain hcached).resolve_left (by simp)
    · exact kept_destroy hk hlive hset'.listed

theorem Kept.stepped (h : Kept c) (ho : Orderly env c e) (hs : Stepped env c e c') : Kept c' := by
  cases hs with
  | connect idle => exact h.connect idle
  | frontend serving ready next =>
    have hr := Session.received_processFrontendResponse ready next
    have hset : Settled c.session.control := h.live.settled ready
    refine ⟨h.keyed.received hr, h.live.received h.keyed hset hr, ?_, ?_, ?_⟩
    · rintro (hi | ⟨q, hi⟩) <;> exact absurd (serving.symm.trans hi) (by simp)
    · exact fun hi => absurd (serving.symm.trans hi) (by simp)
    · intro ⟨q, w, hi⟩
      exact absurd (serving.symm.trans hi) (by simp)
  | backend waiting next => exact h.backend ho waiting next
  | disconnect => exact h.disconnect ho
  | reset resetting => exact h.reset ho resetting
  | abandon resetting => exact kept_destroy h.keyed h.live ho

theorem kept (h : Reachable env (Orderly env) c) : Kept c := by
  refine h.invariant ?_ fun _ _ _ hi ho hs => hi.stepped ho hs
  have hset : Settled init.session.control := ⟨rfl, nofun⟩
  refine ⟨?_, .of_settled ⟨?_, nofun, nofun, fun _ _ => rfl, fun _ => ?_, ?_⟩ hset,
    fun _ => hset, fun _ => rfl, ?_⟩
  · exact ⟨List.nodup_nil, nofun, nofun, nofun, nofun,
      nofun, nofun⟩
  · rintro q ⟨m, ⟨⟩, -⟩
  · exact Nat.zero_le 1
  · intro q hq
    exact absurd hq (Nat.not_lt_zero q)
  · rintro ⟨q, w, ⟨⟩⟩

/-- Every reference is to a context that has not been destroyed, and a context is destroyed once,
when its last reference is dropped. -/
structure LiveContexts (s : Session) : Prop where
  entry : ∀ m ∈ s.messageList, s.destroyed m.queryContext = 0
  pending : ∀ u, s.uncompletedMessage = some u → s.destroyed u.queryContext = 0
  current : ∀ qc, s.queryContext = some qc → s.destroyed qc = 0
  once : ∀ qc, s.destroyed qc ≤ 1
  dropped : ∀ qc, qc < s.nextContext → (∀ m ∈ s.messageList, m.queryContext ≠ qc) →
    (∀ u, s.uncompletedMessage = some u → u.queryContext ≠ qc) → s.queryContext ≠ some qc →
    s.destroyed qc = 1

/-- **Liveness.** In every run of a child whose steps are orderly, every query context that is
referred to is alive, and every other one has been destroyed exactly once. -/
theorem contexts_live (reachable : Reachable env (Orderly env) c) : LiveContexts c.session := by
  have h := kept reachable
  have hbooks := h.live.accounts
  refine ⟨fun m hm => hbooks.entry _ ⟨m, hm, rfl⟩, fun u hu => ?_, hbooks.current, hbooks.once, ?_⟩
  · exact hbooks.current _ (h.live.pending u hu).1
  · intro qc hlt hentry _ hcur
    by_contra hne
    have hzero : c.session.destroyed qc = 0 := by
      have hone : c.session.destroyed qc ≤ 1 := hbooks.once qc
      omega
    rcases hbooks.covered qc hlt hzero with ⟨m, hm, hqc⟩ | hq
    · exact hentry m hm hqc
    · exact hcur hq

/-- A statement is parsed and the session goes on. -/
theorem contexts_live_parsed : LiveContexts (after .standbyPair (parsedTwice.take 3)).session := by
  have hconnect : Reachable .standbyPair (Orderly .standbyPair)
      (after .standbyPair (parsedTwice.take 1)) :=
    .step .refl (.connect 1 none .v3) trivial (step_after [] _ (by decide +kernel) (by decide +kernel))
  have hparse : Reachable .standbyPair (Orderly .standbyPair)
      (after .standbyPair (parsedTwice.take 2)) :=
    hconnect.step (.frontend (.parse "s" "SELECT 1") .quiet) trivial
      (step_after (parsedTwice.take 1) _ (by decide +kernel) (by decide +kernel))
  refine contexts_live (hparse.step (.backend .parseComplete .quiet) (fun _ => ?_)
    (step_after (parsedTwice.take 2) _ (by decide +kernel) (by decide +kernel)))
  exact ⟨⟨0, .P, .parse "s" "SELECT 1", 0, "s", 0⟩, by decide +kernel, by decide +kernel,
    Or.inr (Or.inr (by decide +kernel))⟩

/-- The second of two Parse messages for one name fails, and another query follows. -/
def parseFailed : List Event :=
  parsedTwice ++
    [.backend (.errorResponse false) .quiet, .frontend .sync .quiet, .backend .readyForQuery .quiet,
     .frontend (.query "SELECT 1") .quiet]

/-- The context of the second Parse is never destroyed, though nothing refers to it any more. -/
theorem parseFailed_leaks :
    1 < (after .standbyPair parseFailed).session.nextContext ∧
      (∀ m ∈ (after .standbyPair parseFailed).session.messageList, m.queryContext ≠ 1) ∧
      (after .standbyPair parseFailed).session.uncompletedMessage = none ∧
      (after .standbyPair parseFailed).session.queryContext ≠ some 1 ∧
      (after .standbyPair parseFailed).session.destroyed 1 = 0 ∧
      ¬ LiveContexts (after .standbyPair parseFailed).session := by
  refine ⟨by decide +kernel, by decide +kernel, by decide +kernel, by decide +kernel,
    by decide +kernel, fun h => ?_⟩
  have hu : (after .standbyPair parseFailed).session.uncompletedMessage = none := by decide +kernel
  have hdropped := h.dropped 1 (by decide +kernel) (by decide +kernel)
    (fun u hu' => absurd (hu.symm.trans hu') (by simp)) (by decide +kernel)
  exact absurd hdropped (by decide +kernel)

end Child

end PgPool
