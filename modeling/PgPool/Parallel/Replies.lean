import PgPool.Parallel.Exec

/-!
# Replies in turn

What the loop does with one reply, and with several of them one after the other.  The first message
of a reply is read apart from the others, and what becomes of it depends on whether another node has
answered before.
-/

namespace PgPool.Parallel

/-- The reply of a node, up to the message that ends it. -/
structure Reply where
  rowDescription : Option (List UInt8)
  rows : List (List UInt8)
  failed : Bool
  text : List UInt8
  deriving DecidableEq, Repr

namespace Reply

/-- The `RowDescription` and the rows. -/
def leading (r : Reply) : List Message :=
  (r.rowDescription.toList.map fun body => ⟨'T', body⟩) ++ r.rows.map fun body => ⟨'D', body⟩

/-- `CommandComplete` or `ErrorResponse` -/
def final (r : Reply) : Message := ⟨if r.failed then 'E' else 'C', r.text⟩

def messages (r : Reply) : List Message := r.leading ++ [r.final]

/-- The reply does not consist of its final message alone. -/
def opened (r : Reply) : Bool := !r.leading.isEmpty

/-- An error that comes after other messages. -/
def breaks (r : Reply) : Bool := r.opened && r.failed

/-- What reaches the frontend of a reply: of its first message, only that of the first node to
answer; of the final one, that of the last node or the first error, unless it is the first message. -/
def relayed (first last noError : Bool) (r : Reply) : List Message :=
  if r.opened then
    (if first then r.leading.take 1 else []) ++ r.leading.tail ++
      if noError && (r.failed || last) then [r.final] else []
  else if first then [r.final] else []

variable {r : Reply} {m : Message}

theorem isFinal_final (r : Reply) : isFinal r.final.kind = true := by
  cases hfailed : r.failed <;> simp [final, isFinal, hfailed]

theorem kind_leading (h : m ∈ r.leading) : m.kind = 'T' ∨ m.kind = 'D' := by
  simp only [leading, List.mem_append, List.mem_map] at h
  obtain ⟨body, -, rfl⟩ | ⟨body, -, rfl⟩ := h
  · exact .inl rfl
  · exact .inr rfl

theorem not_isFinal_leading (h : m ∈ r.leading) : isFinal m.kind = false := by
  obtain hkind | hkind := kind_leading h <;> simp [isFinal, hkind]

theorem kind_tail (h : m ∈ r.leading.tail) : m.kind = 'D' := by
  have hrows : m ∈ r.rows.map fun body => (⟨'D', body⟩ : Message) := by
    unfold leading at h
    cases hdesc : r.rowDescription with
    | none =>
      rw [hdesc] at h
      exact List.mem_of_mem_tail h
    | some body =>
      rw [hdesc] at h
      exact h
  obtain ⟨body, -, rfl⟩ := List.mem_map.mp hrows
  rfl

end Reply

/-! ## One reply -/

section

variable {b : Backends} {i : Nat} {e e' : Exec} {m : Message} {rest ds : List Message} {r : Reply}
  {send : Bool}

theorem advance_advance {ms : List Message} : (e.advance i ms).advance i rest = e.advance i rest := by
  simp [Exec.advance]

theorem getBody_advance {ms : List Message} :
    getBody b send i (m :: rest) (e.advance i ms) = getBody b send i (m :: rest) e := by
  simp only [getBody, advance_advance]

/-- Rows are forwarded, whatever has been read before. -/
theorem getBody_rows (hrows : ∀ d ∈ ds, d.kind = 'D') :
    getBody b true i (ds ++ m :: rest) e = getBody b true i (m :: rest)
      { e with frontend := e.frontend ++ ds, datacount := e.datacount + ds.length } := by
  induction ds generalizing e with
  | nil => simp
  | cons d ds ih =>
    obtain ⟨hd, hds⟩ := List.forall_mem_cons.mp hrows
    have hstep : getBody b true i (d :: (ds ++ m :: rest)) e = getBody b true i (ds ++ m :: rest)
        (({ e with frontend := e.frontend ++ [d], datacount := e.datacount + 1 }).advance i
          (ds ++ m :: rest)) := by
      rw [getBody]
      simp [hd, isFinal, Exec.parallelForwardToFrontend, Exec.advance]
    rw [List.cons_append, hstep, ih hds]
    have hgather : { (Exec.advance i (ds ++ m :: rest)
          { e with frontend := e.frontend ++ [d], datacount := e.datacount + 1 }) with
          frontend := e.frontend ++ [d] ++ ds, datacount := e.datacount + 1 + ds.length } =
        Exec.advance i (ds ++ m :: rest)
          { e with frontend := e.frontend ++ d :: ds, datacount := e.datacount + (ds.length + 1) } := by
      simp [Exec.advance, Nat.add_comm, Nat.add_left_comm]
    exact (congrArg _ hgather).trans getBody_advance

/-- The final message is forwarded when nothing has been and it is an error or the last one. -/
theorem getBody_final : getBody b true i (r.final :: rest) e =
    (let e' : Exec := { e with
      unread := Function.update e.unread i rest
      frontend := e.frontend ++
        if e.errorFlag == 0 && (r.failed || e.lastToAnswer b) then [r.final] else []
      errorFlag :=
        if r.failed && e.errorFlag == 0 && !e.lastToAnswer b then e.errorFlag + 1 else e.errorFlag }
    if e.lastToAnswer b then .returned .continue e' else .next (e'.finish (b.fd i))) := by
  cases hfailed : r.failed <;> cases hlast : ((e.usedCount : Int) == (b.numBackends : Int) - 1) <;>
    by_cases herror : e.errorFlag = 0 <;>
    simp only [getBody, Exec.advance, Exec.finish, Exec.lastToAnswer, Reply.final, hfailed, hlast] <;>
    simp [isFinal, Exec.parallelForwardToFrontend, herror]

/-- The state when the reply `r` of node `i` has been read and `rest` is left. -/
def Exec.answered (b : Backends) (i : Nat) (r : Reply) (rest : List Message) (e : Exec) : Exec :=
  { e with
    unread := Function.update e.unread i rest
    frontend := e.frontend ++ r.relayed (e.usedCount == 0) (e.lastToAnswer b) (e.errorFlag == 0)
    errorFlag :=
      if r.breaks && e.errorFlag == 0 && !e.lastToAnswer b then e.errorFlag + 1 else e.errorFlag
    datacount := e.datacount + r.leading.tail.length }

theorem getHeader_reply (hunread : e.unread i = r.messages ++ rest) :
    getHeader b true i e =
      if e.lastToAnswer b then .returned .continue (e.answered b i r rest)
      else .next ((e.answered b i r rest).finish (b.fd i)) := by
  unfold getHeader
  rw [hunread, Reply.messages]
  cases hlead : r.leading with
  | nil =>
    have hopened : r.opened = false := by simp [Reply.opened, hlead]
    simp only [List.nil_append, List.cons_append, Reply.isFinal_final, if_true]
    simp only [Exec.answered, Reply.relayed, Reply.breaks, hopened, hlead, Bool.true_and,
      Bool.false_and, Bool.false_eq_true, if_false, List.tail_nil, List.length_nil, Nat.add_zero,
      Exec.parallelForwardToFrontend, Exec.advance, Exec.lastToAnswer]
    cases hfirst : e.usedCount == 0 <;> simp
  | cons m ds =>
    have hmem : m ∈ r.leading := by simp [hlead]
    have hopened : r.opened = true := by simp [Reply.opened, hlead]
    have hrows : ∀ d ∈ ds, d.kind = 'D' := fun d hd => Reply.kind_tail (r := r) (by simp [hlead, hd])
    simp only [List.cons_append, List.append_assoc, List.nil_append, Reply.not_isFinal_leading hmem,
      Bool.false_eq_true, if_false, getBody_rows hrows, getBody_final]
    simp only [Exec.answered, Reply.relayed, Reply.breaks, hopened, hlead, Bool.true_and, if_true,
      List.tail_cons, Exec.parallelForwardToFrontend, Exec.advance, Exec.lastToAnswer]
    cases hfirst : e.usedCount == 0 <;> simp

end

/-! ## Replies of several nodes -/

/-- The nodes' replies are read one after the other. -/
def inTurn (b : Backends) (send : Bool) : List Nat → Exec → Outcome
  | [], e => .next e
  | i :: nodes, e =>
    match getHeader b send i e with
    | .next e => inTurn b send nodes e
    | o => o

/-- What the frontend receives of all the replies, in the order in which they are read. -/
def merged (first noError : Bool) : List Reply → List Message
  | [] => []
  | [r] => r.relayed first true noError
  | r :: r' :: rs => r.relayed first false noError ++ merged false (noError && !r.breaks) (r' :: rs)

section

variable {b : Backends} {e : Exec} {nodes : List Nat} {reply : Nat → Reply}
  {rest : Nat → List Message} {send : Bool}

theorem inTurn_append {later : List Nat} : inTurn b send (nodes ++ later) e =
    match inTurn b send nodes e with
    | .next e => inTurn b send later e
    | o => o := by
  induction nodes generalizing e with
  | nil => rfl
  | cons i nodes ih =>
    rw [List.cons_append, inTurn, inTurn]
    cases getHeader b send i e with
    | next e => exact ih
    | returned status e => rfl
    | waiting e => rfl

theorem unread_answered {i j : Nat} {r : Reply} {ms : List Message} (hne : j ≠ i) :
    ((e.answered b i r ms).finish (b.fd i)).unread j = e.unread j :=
  Function.update_of_ne hne ..

theorem errorFlag_answered {i : Nat} {r : Reply} {ms : List Message} (hlast : e.lastToAnswer b = false) :
    (((e.answered b i r ms).finish (b.fd i)).errorFlag == 0) = (e.errorFlag == 0 && !r.breaks) := by
  cases hbreaks : r.breaks <;> by_cases herror : e.errorFlag = 0 <;>
    simp [Exec.finish, Exec.answered, hbreaks, herror, hlast]

/-- As long as some node has not answered, the loop goes on. -/
theorem inTurn_next (hunread : ∀ i ∈ nodes, e.unread i = (reply i).messages ++ rest i)
    (hnodup : nodes.Nodup) (hcount : e.usedCount + nodes.length < b.numBackends) :
    ∃ e', inTurn b true nodes e = .next e' ∧ e'.usedCount = e.usedCount + nodes.length := by
  induction nodes generalizing e with
  | nil => exact ⟨e, rfl, rfl⟩
  | cons i nodes ih =>
    obtain ⟨hi, hnodes⟩ := List.forall_mem_cons.mp hunread
    obtain ⟨hnotMem, hnodup⟩ := List.nodup_cons.mp hnodup
    rw [List.length_cons] at hcount ⊢
    have hlast : e.lastToAnswer b = false := by
      rw [Exec.lastToAnswer, beq_eq_false_iff_ne]
      omega
    obtain ⟨e', hrun, hused⟩ := ih (e := (e.answered b i (reply i) (rest i)).finish (b.fd i))
      (fun j hj => (unread_answered (ne_of_mem_of_not_mem hj hnotMem)).trans (hnodes j hj)) hnodup
      (by
        have hstep : ((e.answered b i (reply i) (rest i)).finish (b.fd i)).usedCount = e.usedCount + 1 :=
          rfl
        omega)
    refine ⟨e', ?_, ?_⟩
    · rw [inTurn, getHeader_reply hi, hlast, if_neg Bool.false_ne_true]
      exact hrun
    · rw [hused]
      change e.usedCount + 1 + nodes.length = _
      omega

/-- The loop is left with the reply that makes the count. -/
theorem inTurn_returned (hunread : ∀ i ∈ nodes, e.unread i = (reply i).messages ++ rest i)
    (hnodup : nodes.Nodup) (hne : nodes ≠ [])
    (hcount : e.usedCount + nodes.length = b.numBackends) :
    ∃ e', inTurn b true nodes e = .returned .continue e' ∧
      e'.frontend =
        e.frontend ++ merged (e.usedCount == 0) (e.errorFlag == 0) (nodes.map reply) ∧
      (∀ i ∈ nodes, e'.unread i = rest i) ∧ ∀ i, i ∉ nodes → e'.unread i = e.unread i := by
  induction nodes generalizing e with
  | nil => exact absurd rfl hne
  | cons i nodes ih =>
    obtain ⟨hi, hnodes⟩ := List.forall_mem_cons.mp hunread
    obtain ⟨hnotMem, hnodup⟩ := List.nodup_cons.mp hnodup
    rw [List.length_cons] at hcount
    cases nodes with
    | nil =>
      have hlast : e.lastToAnswer b = true := by
        rw [Exec.lastToAnswer, beq_iff_eq]
        rw [List.length_nil] at hcount
        omega
      refine ⟨e.answered b i (reply i) (rest i), ?_, ?_, ?_, ?_⟩
      · rw [inTurn, getHeader_reply hi, hlast, if_pos rfl]
      · rw [Exec.answered, hlast]
        rfl
      · intro j hj
        rw [List.mem_singleton.mp hj]
        exact Function.update_self ..
      · intro j hj
        exact Function.update_of_ne (fun heq => hj (List.mem_singleton.mpr heq)) ..
    | cons i' nodes =>
      have hlast : e.lastToAnswer b = false := by
        rw [Exec.lastToAnswer, beq_eq_false_iff_ne]
        rw [List.length_cons] at hcount
        omega
      obtain ⟨e', hrun, hfront, hread, hothers⟩ :=
        ih (e := (e.answered b i (reply i) (rest i)).finish (b.fd i))
          (fun j hj => (unread_answered (ne_of_mem_of_not_mem hj hnotMem)).trans (hnodes j hj)) hnodup
          (List.cons_ne_nil _ _)
          (by
            have hstep : ((e.answered b i (reply i) (rest i)).finish (b.fd i)).usedCount =
                e.usedCount + 1 := rfl
            omega)
      refine ⟨e', ?_, ?_, ?_, ?_⟩
      · rw [inTurn, getHeader_reply hi, hlast, if_neg Bool.false_ne_true]
        exact hrun
      · rw [hfront, errorFlag_answered hlast]
        have hused : ((e.usedCount + 1 == 0) : Bool) = false := by simp
        change (e.frontend ++ (reply i).relayed (e.usedCount == 0) (e.lastToAnswer b) (e.errorFlag == 0)) ++
          merged (e.usedCount + 1 == 0) _ _ = _
        rw [hlast, hused, List.append_assoc]
        rfl
      · intro j hj
        obtain rfl | hj := List.mem_cons.mp hj
        · rw [hothers j hnotMem]
          exact Function.update_self ..
        · exact hread j hj
      · intro j hj
        obtain ⟨hji, hj⟩ := not_or.mp (mt List.mem_cons.mpr hj)
        rw [hothers j hj, unread_answered hji]

end

end PgPool.Parallel
