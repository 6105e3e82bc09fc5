import PgPool.Memory.Owned

/-!
# Frees match allocations

What the pools of a child are to satisfy, and the runs in which they do: all those in which no Parse
is rewritten and no message, context or pool is used after its end.  A rewritten Parse lets the
contents of its message point into the pool of its query, and `pool_sent_message_destroy` gives them
to the pool of the session.
-/

namespace PgPool

open Region

namespace Heap

/-- Every pointer that is freed or reallocated is from the same pool, no free list has a chunk of a
block that is gone, and the sent messages lie in the pool of the session, which frees them. -/
structure Respected (h : Heap) : Prop where
  freed : Justified h.memory.log
  intact : ∀ r, Exists r h.memory.log → ∀ i a, a ∈ (h.memory.pool r).freelist i →
    a.block ∈ (h.memory.pool r).addresses
  messages : ∀ m ∈ h.control.messageList, ∀ f, Returned h.owner (h.chunks m.id f) h.memory.log

variable {h : Heap}

/-- The state after some calls, if they can all be made. -/
def after (calls : List Call) : Heap := (Transition.runAll step calls init).getD init

theorem runAll_after {calls : List Call} (hs : (Transition.runAll step calls init).isSome = true) :
    Transition.runAll step calls init = some (after calls) := by
  obtain ⟨h, hh⟩ := Option.isSome_iff_exists.1 hs
  rw [after, hh]
  rfl

/-- One more call. -/
theorem run_concat {P : Heap → Call → Prop} {calls : List Call} (call : Call)
    (run : Transition.Run step P init (after calls)) (ok : P (after calls) call)
    (hs : (Transition.runAll step calls init).isSome = true)
    (hs' : (Transition.runAll step (calls ++ [call]) init).isSome = true) :
    Transition.Run step P init (after (calls ++ [call])) := by
  have hrun := runAll_after hs'
  rw [Transition.runAll_append (runAll_after hs), Transition.runAll] at hrun
  split at hrun
  · cases hrun
  · rename_i h hh
    rw [Transition.runAll, Option.some.injEq] at hrun
    exact run.step call ok (hrun ▸ hh)

/-- The message of a Parse for the statement `s`. -/
def parseMessage : SentMessage := ⟨0, .P, .parse "s" "INSERT INTO t VALUES(now())", 0, "s", 0⟩

theorem plain_insert : NodeTag.insertStmt.isPlain = true := rfl

/-- The calls of a Parse that is not rewritten. -/
def parsed : List Call :=
  [.beginSession, .startQuery "INSERT INTO t VALUES(now())" (.plain ⟨.insertStmt, plain_insert⟩ 0),
    .work .query [.alloc 100, .realloc 0 200], .createMessage parseMessage 31]

/-- The same Parse, rewritten, and a Close of its statement. -/
def rewrittenParse : List Call :=
  parsed ++ [.replaceContents 60, .addMessage, .forget, .removeMessage .P "s"]

end Heap

end PgPool
