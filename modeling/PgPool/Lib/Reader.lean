import Mathlib.Data.List.Basic

/-!
# Reading values off the front of a list

A reader returns a value and what follows it.  What an encoding writes is read back, whatever
follows.
-/

namespace Reader

variable {τ α : Type}

/-- The next `n` tokens. -/
def take (n : Nat) (input : List τ) : Option (List τ × List τ) :=
  if n ≤ input.length then some (input.take n, input.drop n) else none

/-- The tokens before the next `stop`, which is passed over. -/
def upTo [DecidableEq τ] (stop : τ) : List τ → Option (List τ × List τ)
  | [] => none
  | t :: rest => if t = stop then some ([], rest) else (upTo stop rest).map fun p => (t :: p.1, p.2)

/-- As many values as there should be. -/
def many (read : List τ → Option (α × List τ)) : Nat → List τ → Option (List α × List τ)
  | 0, input => some ([], input)
  | n + 1, input => do
    let (a, input) ← read input
    let (as, input) ← many read n input
    some (a :: as, input)

/-- How many tokens some values take, each of which has a head of `k` tokens that tells how many more
follow. -/
def extent (k : Nat) (size : List τ → Nat) : Nat → List τ → Option Nat
  | 0, _ => some 0
  | n + 1, input => do
    let (head, input) ← take k input
    let (_, input) ← take (size head) input
    let rest ← extent k size n input
    some (k + size head + rest)

/-- What is written for a value is read back. -/
def Inverts (read : List τ → Option (α × List τ)) (write : α → List τ) (a : α) : Prop :=
  ∀ rest, read (write a ++ rest) = some (a, rest)

variable {read : List τ → Option (α × List τ)} {write : α → List τ} {n : Nat}

theorem take_append {front : List τ} (h : front.length = n) (rest : List τ) :
    take n (front ++ rest) = some (front, rest) := by
  subst h
  simp [take]

theorem length_of_take {input front rest : List τ} (h : take n input = some (front, rest)) :
    front.length = n := by
  unfold take at h
  split at h
  · rename_i hle
    cases h
    exact List.length_take_of_le hle
  · cases h

theorem upTo_append [DecidableEq τ] {stop : τ} {front : List τ} (h : stop ∉ front) (rest : List τ) :
    upTo stop (front ++ stop :: rest) = some (front, rest) := by
  induction front with
  | nil => exact if_pos rfl
  | cons t front ih =>
    rw [List.mem_cons, not_or] at h
    rw [List.cons_append, upTo, if_neg (Ne.symm h.1), ih h.2]
    rfl

/-- What there is in front of a `stop`, if there is one. -/
theorem upTo_split [DecidableEq τ] (stop : τ) (input : List τ) :
    (upTo stop input = none ∧ stop ∉ input) ∨
      ∃ front rest, upTo stop input = some (front, rest) ∧ stop ∉ front ∧ input = front ++ stop :: rest := by
  by_cases hmem : stop ∈ input
  · obtain ⟨front, rest, hinput, hfront⟩ := List.eq_append_cons_of_mem hmem
    subst hinput
    exact Or.inr ⟨front, rest, upTo_append hfront rest, hfront, rfl⟩
  · refine Or.inl ⟨?_, hmem⟩
    induction input with
    | nil => rfl
    | cons t rest ih =>
      rw [List.mem_cons, not_or] at hmem
      rw [upTo, if_neg (Ne.symm hmem.1), ih hmem.2]
      rfl

theorem many_append {as : List α} (h : ∀ a ∈ as, Inverts read write a) (rest : List τ) :
    many read as.length (as.flatMap write ++ rest) = some (as, rest) := by
  induction as with
  | nil => rfl
  | cons a as ih =>
    have htail := ih fun a ha => h a (List.mem_cons_of_mem _ ha)
    rw [List.length_cons, many, List.flatMap_cons, List.append_assoc, h a List.mem_cons_self]
    simp [htail]

theorem length_of_many {input rest : List τ} {as : List α} (h : many read n input = some (as, rest)) :
    as.length = n := by
  induction n generalizing input as rest with
  | zero =>
    cases h
    rfl
  | succ n ih =>
    simp only [many, Option.bind_eq_bind, Option.bind_eq_some_iff] at h
    obtain ⟨⟨a, input'⟩, -, ⟨as', rest'⟩, htail, heq⟩ := h
    cases heq
    rw [List.length_cons, ih htail]

theorem extent_append {k : Nat} {size : List τ → Nat} {as : List α}
    (h : ∀ a ∈ as, ∃ head body, write a = head ++ body ∧ head.length = k ∧ size head = body.length)
    (rest : List τ) :
    extent k size as.length (as.flatMap write ++ rest) = some (as.flatMap write).length := by
  induction as with
  | nil => rfl
  | cons a as ih =>
    have htail := ih fun a ha => h a (List.mem_cons_of_mem _ ha)
    obtain ⟨head, body, hwrite, hhead, hbody⟩ := h a List.mem_cons_self
    rw [List.length_cons, extent, List.flatMap_cons, hwrite, List.append_assoc, List.append_assoc,
      take_append hhead]
    simp only [Option.bind_eq_bind, Option.bind_some, take_append hbody.symm, htail]
    rw [List.length_append, List.length_append, hhead, hbody]

end Reader
