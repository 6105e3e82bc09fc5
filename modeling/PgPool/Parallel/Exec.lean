import PgPool.Relay.Forward

/-!
# Merging the replies of a parallel query

`pool_parallel_exec` from where the query has been sent to every valid node: the loop over `select`
that reads the replies and forwards them.  Writing to the frontend succeeds, and a node that has
nothing more to say leaves the child waiting.
-/

namespace PgPool.Parallel

/-- A message: its kind, and what follows the length word. -/
structure Message where
  kind : Char
  body : List UInt8
  deriving DecidableEq, Repr

/-! ## The descriptor set -/

def fdSetsize : Nat := 1024

/-- `donemask`: the words of the array by their index. -/
abbrev Donemask := Nat → BitVec 64

/-- `1UL << rem`.  The count is taken modulo the width of a word; C leaves larger ones open. -/
def shiftOne (rem : Nat) : BitVec 64 := 1#64 <<< (rem % 64)

def setFd (fd : Nat) (setp : Donemask) : Donemask :=
  let tmp := fd / fdSetsize
  let rem := fd % fdSetsize
  Function.update setp tmp (setp tmp ||| shiftOne rem)

def issetFd (fd : Nat) (setp : Donemask) : Bool :=
  let tmp := fd / fdSetsize
  let rem := fd % fdSetsize
  setp tmp &&& shiftOne rem != 0#64

def zeroFd : Donemask := fun _ => 0#64

/-! ## The loop -/

/-- The backends that the query has been sent to. -/
structure Backends where
  /-- `NUM_BACKENDS` -/
  numBackends : Nat
  /-- `VALID_BACKEND(i)` -/
  valid : Nat → Bool
  /-- `CONNECTION(backend, i)->fd` -/
  fd : Nat → Nat

/-- The variables of `pool_parallel_exec`, what is unread on each connection, and what has been
written to the frontend. -/
structure Exec where
  unread : Nat → List Message
  frontend : List Message
  usedCount : Nat
  errorFlag : Nat
  datacount : Nat
  donemask : Donemask

/-- Where a part of the loop ends. -/
inductive Outcome where
  | next (e : Exec)
  | returned (status : PoolStatus) (e : Exec)
  /-- A read finds nothing, or no descriptor is left for `select` to return. -/
  | waiting (e : Exec)

namespace Exec

/-- The message at the head of a connection has been read. -/
def advance (i : Nat) (rest : List Message) (e : Exec) : Exec :=
  { e with unread := Function.update e.unread i rest }

def parallelForwardToFrontend (m : Message) (sendToFrontend : Bool) (e : Exec) : Exec :=
  if sendToFrontend then { e with frontend := e.frontend ++ [m] } else e

/-- `used_count++; set_fd(CONNECTION(backend, i)->fd, donemask)` -/
def finish (fd : Nat) (e : Exec) : Exec :=
  { e with usedCount := e.usedCount + 1, donemask := setFd fd e.donemask }

/-- `used_count == NUM_BACKENDS -1` -/
def lastToAnswer (b : Backends) (e : Exec) : Bool := (e.usedCount : Int) == (b.numBackends : Int) - 1

end Exec

open Exec

def isFinal (kind : Char) : Bool := kind == 'C' || kind == 'E' || kind == 'c'

/-- The part "get body of protocol", on the messages that are left on the connection of node `i`. -/
def getBody (b : Backends) (send : Bool) (i : Nat) : List Message → Exec → Outcome
  | [], e => .waiting e
  | m :: rest, e =>
    let e := e.advance i rest
    if m.kind.toNat = 0 then .returned .error e
    else if m.kind = 'E' ∧ ¬ e.lastToAnswer b then
      let e :=
        if e.errorFlag = 0 then
          { parallelForwardToFrontend m send e with errorFlag := e.errorFlag + 1 }
        else parallelForwardToFrontend m false e
      .next (e.finish (b.fd i))
    else if (m.kind = 'c' ∨ m.kind = 'C') ∧ ¬ e.lastToAnswer b then
      .next ((parallelForwardToFrontend m false e).finish (b.fd i))
    else if isFinal m.kind ∧ e.lastToAnswer b then
      .returned .continue (parallelForwardToFrontend m (send && e.errorFlag == 0) e)
    else
      let e := if m.kind = 'D' then { e with datacount := e.datacount + 1 } else e
      getBody b send i rest (parallelForwardToFrontend m send e)

/-- The part "get header of protocol" for a node that `select` has returned, and its body. -/
def getHeader (b : Backends) (send : Bool) (i : Nat) (e : Exec) : Outcome :=
  match e.unread i with
  | [] => .waiting e
  | m :: rest =>
    let e := parallelForwardToFrontend m (send && e.usedCount == 0) (e.advance i rest)
    if isFinal m.kind then
      if e.lastToAnswer b then .returned .continue e else .next (e.finish (b.fd i))
    else getBody b send i rest e

/-- One turn of the loop over the nodes, of those in `readmask`. -/
def answers (b : Backends) (send : Bool) (readmask : List Nat) : List Nat → Exec → Outcome
  | [], e => .next e
  | i :: nodes, e =>
    if !b.valid i || !readmask.contains (b.fd i) then answers b send readmask nodes e
    else
      match getHeader b send i e with
      | .next e => answers b send readmask nodes e
      | o => o

/-- The descriptors given to `select`: those of the valid nodes that are not in `donemask`. -/
def readmask (b : Backends) (donemask : Donemask) : List Nat :=
  ((List.range b.numBackends).filter fun i => b.valid i && !issetFd (b.fd i) donemask).map b.fd

/-- The loop over `select`.  One entry for each time that descriptors have become readable; where none
of them is watched, `select` goes on sleeping. -/
def receive (b : Backends) (send : Bool) : List (Nat → Bool) → Exec → Outcome
  | [], e => .waiting e
  | readable :: later, e =>
    match answers b send ((readmask b e.donemask).filter readable) (List.range b.numBackends) e with
    | .next e => receive b send later e
    | o => o

/-- The receiving part of `pool_parallel_exec`. -/
def poolParallelExec (b : Backends) (send : Bool) (unread : Nat → List Message)
    (readable : List (Nat → Bool)) : Outcome :=
  receive b send readable
    ⟨unread, [], 0, 0, 0, zeroFd⟩

/-! ## Marks -/

section

variable {fd fd' : Nat} {setp : Donemask}

theorem issetFd_zeroFd : issetFd fd zeroFd = false := by simp [issetFd, zeroFd]

theorem and_shiftOne (x : BitVec 64) (rem : Nat) :
    (x &&& shiftOne rem != 0#64) = x.getLsbD (rem % 64) := by
  have hlt : rem % 64 < 64 := Nat.mod_lt _ (by omega)
  have htwo : shiftOne rem = BitVec.twoPow 64 (rem % 64) := by
    rw [shiftOne, BitVec.twoPow_eq]
  rw [htwo, BitVec.and_twoPow]
  split
  · next h =>
    rw [h, bne_iff_ne]
    intro hzero
    have hbit := congrArg (fun y => y.getLsbD (rem % 64)) hzero
    simp [hlt] at hbit
  · next h =>
    rw [bne_self_eq_false, Bool.eq_false_iff.mpr h]

/-- A mark is one of 64: descriptors that agree modulo 64 share it. -/
theorem issetFd_setFd (h : fd < fdSetsize) (h' : fd' < fdSetsize) :
    issetFd fd' (setFd fd setp) = (issetFd fd' setp || fd % 64 == fd' % 64) := by
  have hlt : fd' % 64 < 64 := Nat.mod_lt _ (by omega)
  have hword : fd / fdSetsize = 0 := Nat.div_eq_of_lt h
  have hword' : fd' / fdSetsize = 0 := Nat.div_eq_of_lt h'
  simp only [issetFd, setFd, hword, hword', Nat.mod_eq_of_lt h, Nat.mod_eq_of_lt h', and_shiftOne,
    Function.update_self, BitVec.getLsbD_or]
  congr 1
  rw [shiftOne, BitVec.getLsbD_shiftLeft]
  by_cases heq : fd % 64 = fd' % 64
  · simp [heq, hlt]
  · simp only [BitVec.getLsbD_one, beq_eq_false_iff_ne.mpr heq]
    by_cases hle : fd' % 64 < fd % 64
    · simp [hle]
    · have hpos : fd' % 64 - fd % 64 ≠ 0 := by omega
      simp [hpos]

end

end PgPool.Parallel
