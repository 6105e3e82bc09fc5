import Mathlib.Logic.Basic

/-!
# Memory that is allocated in regions

The history of some regions: an address is allocated in a region, resized and freed there, and goes
with everything else of the region when that is cleared or deleted.  A history is justified if every
address that is freed or resized has been returned by an allocation in the same region.
-/

namespace Region

variable {ρ α : Type}

/-- What happens to the regions.  `clear` takes back what a region has handed out, `delete` the
region itself as well. -/
inductive Event (ρ α : Type) where
  | create (r : ρ)
  | alloc (r : ρ) (a : α)
  | resize (r : ρ) (a : α)
  | free (r : ρ) (a : α)
  | clear (r : ρ)
  | delete (r : ρ)
  deriving DecidableEq, Repr

/-- The events so far, the latest first. -/
abbrev History (ρ α : Type) := List (Event ρ α)

/-- The region has been created and not been deleted. -/
def Exists (r : ρ) : History ρ α → Prop
  | [] => False
  | .create s :: log => s = r ∨ Exists r log
  | .delete s :: log => s ≠ r ∧ Exists r log
  | .alloc _ _ :: log | .resize _ _ :: log | .free _ _ :: log | .clear _ :: log => Exists r log

/-- The address has been returned by an allocation in the region, which has not been deleted. -/
def Returned (r : ρ) (a : α) : History ρ α → Prop
  | [] => False
  | .alloc s b :: log => (s = r ∧ b = a ∧ Exists r log) ∨ Returned r a log
  | .clear s :: log | .delete s :: log => s ≠ r ∧ Returned r a log
  | .create _ :: log | .resize _ _ :: log | .free _ _ :: log => Returned r a log

/-- The address has been returned by an allocation and not been freed since. -/
def Live (r : ρ) (a : α) : History ρ α → Prop
  | [] => False
  | .alloc s b :: log => (s = r ∧ b = a ∧ Exists r log) ∨ Live r a log
  | .free _ b :: log => b ≠ a ∧ Live r a log
  | .clear s :: log | .delete s :: log => s ≠ r ∧ Live r a log
  | .create _ :: log | .resize _ _ :: log => Live r a log

/-- Every address that is freed or resized has been returned by an allocation in the same region. -/
def Justified : History ρ α → Prop
  | [] => True
  | .free r a :: log | .resize r a :: log => Returned r a log ∧ Justified log
  | .create _ :: log | .alloc _ _ :: log | .clear _ :: log | .delete _ :: log => Justified log

section

variable {r s : ρ} {a b : α} {log : History ρ α}

@[simp] theorem exists_create : Exists r (.create s :: log) ↔ s = r ∨ Exists r log := Iff.rfl
@[simp] theorem exists_alloc : Exists r (.alloc s b :: log) ↔ Exists r log := Iff.rfl
@[simp] theorem exists_resize : Exists r (.resize s b :: log) ↔ Exists r log := Iff.rfl
@[simp] theorem exists_free : Exists r (.free s b :: log) ↔ Exists r log := Iff.rfl
@[simp] theorem exists_clear : Exists r (.clear s :: log) ↔ Exists r log := Iff.rfl
@[simp] theorem exists_delete : Exists r (.delete s :: log) ↔ s ≠ r ∧ Exists r log := Iff.rfl

@[simp] theorem live_create : Live r a (.create s :: log) ↔ Live r a log := Iff.rfl
@[simp] theorem live_alloc :
    Live r a (.alloc s b :: log) ↔ (s = r ∧ b = a ∧ Exists r log) ∨ Live r a log := Iff.rfl
@[simp] theorem live_resize : Live r a (.resize s b :: log) ↔ Live r a log := Iff.rfl
@[simp] theorem live_free : Live r a (.free s b :: log) ↔ b ≠ a ∧ Live r a log := Iff.rfl
@[simp] theorem live_clear : Live r a (.clear s :: log) ↔ s ≠ r ∧ Live r a log := Iff.rfl
@[simp] theorem live_delete : Live r a (.delete s :: log) ↔ s ≠ r ∧ Live r a log := Iff.rfl

@[simp] theorem justified_create : Justified (.create r :: log) ↔ Justified log := Iff.rfl
@[simp] theorem justified_alloc : Justified (.alloc r a :: log) ↔ Justified log := Iff.rfl
@[simp] theorem justified_resize :
    Justified (.resize r a :: log) ↔ Returned r a log ∧ Justified log := Iff.rfl
@[simp] theorem justified_free :
    Justified (.free r a :: log) ↔ Returned r a log ∧ Justified log := Iff.rfl
@[simp] theorem justified_clear : Justified (.clear r :: log) ↔ Justified log := Iff.rfl
@[simp] theorem justified_delete : Justified (.delete r :: log) ↔ Justified log := Iff.rfl

/-- What has not been freed has been returned. -/
theorem Live.returned (h : Live r a log) : Returned r a log := by
  induction log with
  | nil => exact h
  | cons e log ih =>
    cases e with
    | create | resize => exact ih h
    | alloc => exact Or.imp id ih h
    | free => exact ih h.2
    | clear | delete => exact ⟨h.1, ih h.2⟩

/-- What is live lies in a region that exists. -/
theorem Live.exists (h : Live r a log) : Exists r log := by
  induction log with
  | nil => exact h
  | cons e log ih =>
    cases e with
    | create => exact Or.inr (ih h)
    | resize => exact ih h
    | alloc => exact h.elim (fun hnew => hnew.2.2) ih
    | free => exact ih h.2
    | clear => exact ih h.2
    | delete => exact ⟨h.1, ih h.2⟩

end

/-! ## Deciding -/

variable [DecidableEq ρ] [DecidableEq α]

instance decidableExists (r : ρ) : ∀ log : History ρ α, Decidable (Exists r log)
  | [] => isFalse id
  | .create s :: log =>
      have := decidableExists r log
      inferInstanceAs (Decidable (s = r ∨ Exists r log))
  | .delete s :: log =>
      have := decidableExists r log
      inferInstanceAs (Decidable (s ≠ r ∧ Exists r log))
  | .alloc _ _ :: log | .resize _ _ :: log | .free _ _ :: log | .clear _ :: log =>
      decidableExists r log

instance decidableReturned (r : ρ) (a : α) : ∀ log : History ρ α, Decidable (Returned r a log)
  | [] => isFalse id
  | .alloc s b :: log =>
      have := decidableReturned r a log
      inferInstanceAs (Decidable ((s = r ∧ b = a ∧ Exists r log) ∨ Returned r a log))
  | .clear s :: log | .delete s :: log =>
      have := decidableReturned r a log
      inferInstanceAs (Decidable (s ≠ r ∧ Returned r a log))
  | .create _ :: log | .resize _ _ :: log | .free _ _ :: log => decidableReturned r a log

instance decidableJustified : ∀ log : History ρ α, Decidable (Justified log)
  | [] => isTrue trivial
  | .free r a :: log | .resize r a :: log =>
      have := decidableJustified log
      inferInstanceAs (Decidable (Returned r a log ∧ Justified log))
  | .create _ :: log | .alloc _ _ :: log | .clear _ :: log | .delete _ :: log =>
      decidableJustified log

end Region
