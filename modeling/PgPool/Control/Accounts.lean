import PgPool.Control.WellKeyed

/-!
# Accounts of the query contexts

A query context is shared by the entries of the list of sent messages and by the current query.
`Accounts` says that the books are in order: what is referred to has not been destroyed, and what
has not been destroyed is referred to.  Removing a message keeps them so, because the context goes
with its last entry.
-/

namespace PgPool

open Keyed

namespace Control

/-- Some entry of the list refers to the context. -/
def Listed (c : Control) (qc : QcId) : Prop := ∃ m ∈ c.messageList, m.queryContext = qc

/-- References and destructions agree. -/
structure Accounts (c : Control) : Prop where
  entry : ∀ qc, c.Listed qc → c.destroyed qc = 0
  current : ∀ qc, c.queryContext = some qc → c.destroyed qc = 0
  currentAllocated : ∀ qc, c.queryContext = some qc → qc < c.nextContext
  fresh : ∀ qc, c.nextContext ≤ qc → c.destroyed qc = 0
  once : ∀ qc, c.destroyed qc ≤ 1
  covered : ∀ qc, qc < c.nextContext → c.destroyed qc = 0 → c.Listed qc ∨ c.queryContext = some qc

variable {c d : Control} {m : SentMessage} {kind : MsgKind} {name : String} {qc : QcId}

/-- A state that differs in other parts. -/
theorem Accounts.of_eq (h : Accounts c) (list : d.messageList = c.messageList)
    (current : d.queryContext = c.queryContext) (next : d.nextContext = c.nextContext)
    (destroyed : d.destroyed = c.destroyed) : Accounts d where
  entry q hq := by
    rw [destroyed]
    exact h.entry q (by simpa [Listed, list] using hq)
  current q hq := by
    rw [destroyed]
    exact h.current q (current ▸ hq)
  currentAllocated q hq := by
    rw [next]
    exact h.currentAllocated q (current ▸ hq)
  fresh q hq := by
    rw [destroyed]
    exact h.fresh q (next ▸ hq)
  once q := by
    rw [destroyed]
    exact h.once q
  covered q hq hd := by
    rw [destroyed] at hd
    rw [current]
    simpa [Listed, list] using h.covered q (next ▸ hq) hd

theorem Listed.allocated (h : c.Listed qc) (hk : WellKeyed c) : qc < c.nextContext := by
  obtain ⟨m, hm, rfl⟩ := h
  exact hk.allocated m hm

theorem WellKeyed.not_listed_next (hk : WellKeyed c) : ¬ c.Listed c.nextContext :=
  fun h => absurd (h.allocated hk) (Nat.lt_irrefl _)

/-! ## Removing a message -/

/-- An entry is the last one for its context, or there is another one. -/
theorem refCount_le_one_iff (hk : WellKeyed c) (hm : m ∈ c.messageList) :
    c.refCount m.queryContext ≤ 1 ↔
      ∀ m' ∈ c.messageList, m'.queryContext = m.queryContext → m' = m := by
  unfold refCount
  rw [hk.distinct.length_filter_le_one_iff hm (by simp)]
  simp

/-- What a removal can do: nothing, take out an entry whose context is still needed, or take out the
last entry of a context and destroy that. -/
inductive Removed (c : Control) (kind : MsgKind) (name : String) : Control → Prop
  | absent (none : c.find kind name = none) : Removed c kind name c
  | shared {m m' : SentMessage} (found : c.find kind name = some m) (other : m' ∈ c.messageList)
      (ne : m' ≠ m) (same : m'.queryContext = m.queryContext) :
      Removed c kind name (c.setMessageList (Keyed.remove SentMessage.key (kind, name) c.messageList))
  | last {m : SentMessage} (found : c.find kind name = some m)
      (only : ∀ m' ∈ c.messageList, m'.queryContext = m.queryContext → m' = m) :
      Removed c kind name
        { c with
          messageList := Keyed.remove SentMessage.key (kind, name) c.messageList
          queryContext := if c.queryContext = some m.queryContext then none else c.queryContext
          destroyed := fun q => if q = m.queryContext then c.destroyed q + 1 else c.destroyed q }

theorem removed_removeMessage (hk : WellKeyed c) (kind : MsgKind) (name : String) :
    Removed c kind name (c.removeMessage kind name) := by
  unfold removeMessage
  cases hf : c.find kind name with
  | none => exact .absent hf
  | some m =>
    simp only [release]
    split
    · rename_i hcount
      exact .last hf ((refCount_le_one_iff hk (lookup_mem hf)).1 hcount)
    · rename_i hcount
      rw [refCount_le_one_iff hk (lookup_mem hf)] at hcount
      push Not at hcount
      obtain ⟨m', hm', hqc, hne⟩ := hcount
      exact .shared hf hm' hne hqc

/-- The contexts that are still referred to after a removal. -/
theorem listed_remove (hk : WellKeyed c) (hf : c.find kind name = some m) (hq : c.Listed qc) :
    (∃ m' ∈ Keyed.remove SentMessage.key (kind, name) c.messageList, m'.queryContext = qc) ∨
      qc = m.queryContext := by
  obtain ⟨x, hx, rfl⟩ := hq
  by_cases hxm : x = m
  · exact Or.inr (hxm ▸ rfl)
  · refine Or.inl ⟨x, ?_, rfl⟩
    refine mem_remove_of_ne hx fun hkey => hxm ?_
    exact hk.distinct.eq_of_key hx (lookup_mem hf) (hkey.trans (lookup_key hf).symm)

theorem Listed.of_removeMessage (h : (c.removeMessage kind name).Listed qc) : c.Listed qc := by
  obtain ⟨x, hx, rfl⟩ := h
  rw [messageList_removeMessage] at hx
  exact ⟨x, mem_of_mem_remove hx, rfl⟩

/-- A removal keeps the books in order. -/
theorem Accounts.removeMessage (hk : WellKeyed c) (h : Accounts c) (kind : MsgKind)
    (name : String) : Accounts (c.removeMessage kind name) := by
  have hback : ∀ q, (c.removeMessage kind name).Listed q → c.Listed q := fun _ hq =>
    hq.of_removeMessage
  have hrem := removed_removeMessage hk kind name
  generalize c.removeMessage kind name = d at hrem hback
  cases hrem with
  | absent => exact h
  | @shared m m' found other ne same =>
    refine ⟨fun q hq => h.entry q (hback q hq), h.current, h.currentAllocated, h.fresh, h.once, ?_⟩
    intro q hq hd
    refine (h.covered q hq hd).imp_left fun hl => ?_
    rcases listed_remove hk found hl with hl | rfl
    · exact hl
    · refine ⟨m', mem_remove_of_ne other fun hkey => ne ?_, same⟩
      exact hk.distinct.eq_of_key other (lookup_mem found) (hkey.trans (lookup_key found).symm)
  | @last m found only =>
    have hgone : ∀ x ∈ Keyed.remove SentMessage.key (kind, name) c.messageList,
        x.queryContext ≠ m.queryContext := by
      intro x hx hqc
      have hxm := only x (mem_of_mem_remove hx) hqc
      exact (hk.distinct.mem_remove.1 hx).2 (hxm ▸ lookup_key found)
    have hcur : ∀ q, (if c.queryContext = some m.queryContext then none else c.queryContext) = some q →
        c.queryContext = some q ∧ q ≠ m.queryContext := by
      intro q hq
      split at hq
      · cases hq
      · rename_i hne
        exact ⟨hq, fun he => hne (he ▸ hq)⟩
    have halive : c.destroyed m.queryContext = 0 := h.entry _ ⟨m, lookup_mem found, rfl⟩
    refine ⟨?_, ?_, fun q hq => h.currentAllocated q (hcur q hq).1, ?_, ?_, ?_⟩
    · intro q hq
      obtain ⟨x, hx, rfl⟩ := hq
      exact (if_neg (hgone x hx)).trans (h.entry _ ⟨x, mem_of_mem_remove hx, rfl⟩)
    · intro q hq
      exact (if_neg (hcur q hq).2).trans (h.current q (hcur q hq).1)
    · intro q hq
      have hlt : m.queryContext < c.nextContext := hk.allocated m (lookup_mem found)
      exact (if_neg fun he => absurd (he ▸ hlt) (Nat.not_lt.2 hq)).trans (h.fresh q hq)
    · intro q
      by_cases hq : q = m.queryContext
      · simp [hq, halive]
      · simpa [hq] using h.once q
    · intro q hq hd
      by_cases hqm : q = m.queryContext
      · simp [hqm, halive] at hd
      · rcases h.covered q hq (by simpa [hqm] using hd) with hl | hc
        · exact Or.inl ((listed_remove hk found hl).resolve_right hqm)
        · refine Or.inr ?_
          have hne : c.queryContext ≠ some m.queryContext := fun he =>
            hqm (Option.some.inj (hc.symm.trans he))
          exact (if_neg hne).trans hc

theorem current_of_removeMessage (hk : WellKeyed c)
    (h : (c.removeMessage kind name).queryContext = some qc) : c.queryContext = some qc := by
  have hrem := removed_removeMessage hk kind name
  generalize c.removeMessage kind name = d at hrem h
  cases hrem with
  | absent | shared => exact h
  | last =>
    by_contra hne
    simp only at h
    split at h
    · cases h
    · exact hne h

/-- A removal forgets about the current context when it takes out its last entry. -/
theorem Listed.removeMessage (hk : WellKeyed c) (h : c.Listed qc)
    (hcur : (c.removeMessage kind name).queryContext = some qc) :
    (c.removeMessage kind name).Listed qc := by
  have hrem := removed_removeMessage hk kind name
  generalize c.removeMessage kind name = d at hrem hcur
  cases hrem with
  | absent => exact h
  | @shared m m' found other ne same =>
    rcases listed_remove hk found h with hl | rfl
    · exact hl
    · refine ⟨m', mem_remove_of_ne other fun hkey => ne ?_, same⟩
      exact hk.distinct.eq_of_key other (lookup_mem found) (hkey.trans (lookup_key found).symm)
  | @last m found only =>
    simp only at hcur
    split at hcur
    · cases hcur
    · rename_i hne
      rcases listed_remove hk found h with hl | rfl
      · exact hl
      · exact absurd hcur hne

/-- Every current context is one of an entry. -/
def CurrentListed (c : Control) : Prop := ∀ qc, c.queryContext = some qc → c.Listed qc

theorem CurrentListed.removeMessage (hk : WellKeyed c) (h : CurrentListed c) (kind : MsgKind)
    (name : String) : CurrentListed (c.removeMessage kind name) := fun qc hcur =>
  (h qc (current_of_removeMessage hk hcur)).removeMessage hk hcur

theorem CurrentListed.of_eq (h : CurrentListed c) (list : d.messageList = c.messageList)
    (current : d.queryContext = c.queryContext) : CurrentListed d := by
  intro q hq
  simpa [Listed, list] using h q (current ▸ hq)

/-- A context without entries is not affected. -/
theorem removeMessage_unlisted (hk : WellKeyed c) (hq : ¬ c.Listed qc) :
    ((c.removeMessage kind name).queryContext = some qc ↔ c.queryContext = some qc) ∧
      (c.removeMessage kind name).destroyed qc = c.destroyed qc := by
  have hrem := removed_removeMessage hk kind name
  generalize c.removeMessage kind name = d at hrem
  cases hrem with
  | absent | shared => exact ⟨Iff.rfl, rfl⟩
  | @last m found only =>
    have hne : qc ≠ m.queryContext := fun he => hq ⟨m, lookup_mem found, he.symm⟩
    refine ⟨?_, if_neg hne⟩
    change (if c.queryContext = some m.queryContext then none else c.queryContext) = some qc ↔ _
    split
    · rename_i hcur
      simp [hcur, Ne.symm hne]
    · exact Iff.rfl

end Control

/-! ## The end of a session -/

namespace Session

variable {s : Session} {kind : MsgKind} {name : String}

theorem removeSentMessage_of_mem {m : SentMessage} (hm : m ∈ s.messageList) (hkind : m.kind = kind) :
    (s.removeSentMessage kind m.name).2 = true ∧
      (s.removeSentMessage kind m.name).1.messageList =
        Keyed.remove SentMessage.key (kind, m.name) s.messageList := by
  unfold removeSentMessage
  cases hf : s.getSentMessage kind m.name with
  | none => exact absurd (hkind ▸ rfl) (lookup_eq_none.1 hf m hm)
  | some old => exact ⟨rfl, rfl⟩

/-- The loop that removes all messages of a kind: what is before the index is of another kind. -/
theorem messageList_removeSentMessagesLoop (fuel : Nat) (done todo : List SentMessage)
    (hlist : s.messageList = done ++ todo) (hdone : ∀ m ∈ done, m.kind ≠ kind)
    (hfuel : todo.length ≤ fuel) :
    ∀ m ∈ (removeSentMessagesLoop kind fuel done.length s).messageList,
      m ∈ s.messageList ∧ m.kind ≠ kind := by
  induction fuel generalizing s done todo with
  | zero =>
    have htodo : todo = [] := List.eq_nil_of_length_eq_zero (Nat.le_zero.1 hfuel)
    intro m hm
    change m ∈ s.messageList at hm
    refine ⟨hm, hdone m ?_⟩
    simpa [hlist, htodo] using hm
  | succ fuel ih =>
    intro m hm
    unfold removeSentMessagesLoop at hm
    cases todo with
    | nil =>
      simp only [hlist, List.append_nil, List.getElem?_eq_none (Nat.le_refl _)] at hm
      exact ⟨by simpa [hlist] using hm, hdone m hm⟩
    | cons x rest =>
      have hx : s.messageList[done.length]? = some x := by simp [hlist]
      have hmem : x ∈ s.messageList := by simp [hlist]
      simp only [hx] at hm
      split at hm
      · rename_i hkind
        obtain ⟨hflag, hrem⟩ := removeSentMessage_of_mem hmem hkind
        -- no entry before the index has that key, so the list gets shorter after it
        have hpre : Keyed.remove SentMessage.key (kind, x.name) (done ++ x :: rest) =
            done ++ Keyed.remove SentMessage.key (kind, x.name) (x :: rest) := by
          refine List.eraseP_append_right _ fun b hb => ?_
          have hne : b.key ≠ (kind, x.name) := fun he => hdone b hb (congrArg Prod.fst he)
          simpa using hne
        have hhead : Keyed.remove SentMessage.key (kind, x.name) (x :: rest) = rest := by
          simp [Keyed.remove, SentMessage.key, hkind]
        rw [hlist, hpre, hhead] at hrem
        split at hm
        · rename_i u hu
          rw [hu] at hrem
          obtain ⟨hin, hne⟩ := ih done rest hrem hdone (Nat.le_of_succ_le_succ hfuel) m hm
          refine ⟨?_, hne⟩
          rw [hrem] at hin
          rw [hlist]
          exact List.mem_append.2 ((List.mem_append.1 hin).imp_right (List.mem_cons_of_mem x))
        · rename_i u hu
          rw [hu] at hflag
          cases hflag
      · rename_i hkind
        have hsplit : s.messageList = (done ++ [x]) ++ rest := by simp [hlist]
        refine ih (done ++ [x]) rest hsplit ?_ (Nat.le_of_succ_le_succ hfuel) m ?_
        · intro b hb
          rcases List.mem_append.1 hb with hb | hb
          · exact hdone b hb
          · rw [List.mem_singleton.1 hb]
            exact hkind
        · simpa using hm

theorem mem_removeSentMessages {m : SentMessage}
    (hm : m ∈ (s.removeSentMessages kind).messageList) : m ∈ s.messageList ∧ m.kind ≠ kind :=
  messageList_removeSentMessagesLoop _ [] _ rfl (by simp) (Nat.le_refl _) m hm

theorem sublist_of_removals {c d : Control} (h : Control.Removals c d) :
    d.messageList.Sublist c.messageList := by
  refine h.invariant (I := fun d => d.messageList.Sublist c.messageList) ?_ (List.Sublist.refl _)
  intro d kind name hd
  rw [Control.messageList_removeMessage]
  exact List.eraseP_sublist.trans hd

theorem messageList_clearSentMessageLoop (fuel : Nat) (hfuel : s.messageList.length ≤ fuel) :
    (clearSentMessageLoop fuel s).messageList = [] := by
  induction fuel generalizing s with
  | zero => exact List.eq_nil_of_length_eq_zero (Nat.le_zero.1 hfuel)
  | succ fuel ih =>
    unfold clearSentMessageLoop
    cases hl : s.messageList with
    | nil => exact hl
    | cons m rest =>
      refine ih ?_
      have hsub := sublist_of_removals (removals_removeSentMessages (s := s) m.kind)
      have hlt : (s.removeSentMessages m.kind).messageList.length ≠ s.messageList.length := by
        intro hlen
        have heq := hsub.eq_of_length hlen
        have hm : m ∈ (s.removeSentMessages m.kind).messageList := by
          change m ∈ (s.removeSentMessages m.kind).control.messageList
          rw [heq]
          change m ∈ s.messageList
          rw [hl]
          exact List.mem_cons_self
        exact (mem_removeSentMessages hm).2 rfl
      have hle : (s.removeSentMessages m.kind).messageList.length ≤ s.messageList.length :=
        hsub.length_le
      omega

/-- `pool_clear_sent_message_list` leaves no message. -/
theorem messageList_clearSentMessageList : s.clearSentMessageList.messageList = [] :=
  messageList_clearSentMessageLoop _ (Nat.le_refl _)

end Session

end PgPool
