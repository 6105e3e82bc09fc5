import Mathlib.Data.List.Nodup

/-!
# Lists with keys

A list whose elements carry a key, searched from the front.  `lookup` returns the first element
with a key, `remove` deletes it.  While the keys are distinct, an element is found under its own
key, and removing a key leaves exactly the elements with other keys.
-/

namespace Keyed

variable {α κ : Type} [DecidableEq κ] {key : α → κ} {k : κ} {l : List α} {a b : α}

/-- The first element with the key. -/
def lookup (key : α → κ) (k : κ) (l : List α) : Option α := l.find? fun a => key a == k

/-- Delete the first element with the key. -/
def remove (key : α → κ) (k : κ) (l : List α) : List α := l.eraseP fun a => key a == k

/-- No two positions carry the same key. -/
def Distinct (key : α → κ) (l : List α) : Prop := (l.map key).Nodup

theorem lookup_mem (h : lookup key k l = some a) : a ∈ l :=
  List.mem_of_find?_eq_some h

theorem lookup_key (h : lookup key k l = some a) : key a = k := by
  simpa using List.find?_some h

theorem lookup_eq_none : lookup key k l = none ↔ ∀ a ∈ l, key a ≠ k := by
  simp [lookup, List.find?_eq_none]

theorem lookup_append (l₁ l₂ : List α) :
    lookup key k (l₁ ++ l₂) = (lookup key k l₁).or (lookup key k l₂) :=
  List.find?_append

theorem lookup_singleton : lookup key k [a] = if key a = k then some a else none := by
  by_cases h : key a = k <;> simp [lookup, h]

/-- An element of a list with distinct keys is what its key finds. -/
theorem Distinct.lookup_of_mem (hd : Distinct key l) (ha : a ∈ l) :
    lookup key (key a) l = some a := by
  induction l with
  | nil => cases ha
  | cons b rest ih =>
    obtain ⟨hb, hrest⟩ := List.nodup_cons.1 hd
    rcases List.mem_cons.1 ha with rfl | ha
    · simp [lookup]
    · have hne : key b ≠ key a := fun h => hb (h ▸ List.mem_map_of_mem ha)
      simpa [lookup, hne] using ih hrest ha

theorem Distinct.eq_of_key (hd : Distinct key l) (ha : a ∈ l) (hb : b ∈ l)
    (hk : key a = key b) : a = b := by
  have h := hd.lookup_of_mem ha
  rw [hk, hd.lookup_of_mem hb] at h
  exact (Option.some.inj h).symm

theorem remove_eq_self (h : lookup key k l = none) : remove key k l = l :=
  List.eraseP_of_forall_not fun a ha => by simpa using lookup_eq_none.1 h a ha

/-- Removing a key that is there makes the list shorter by one. -/
theorem length_remove (h : lookup key k l ≠ none) : (remove key k l).length + 1 = l.length := by
  obtain ⟨a, ha⟩ := Option.ne_none_iff_exists'.1 h
  have hmem := lookup_mem ha
  have hpos := List.length_pos_of_mem hmem
  have hlen : (remove key k l).length = l.length - 1 :=
    List.length_eraseP_of_mem hmem (by simp [lookup_key ha])
  omega

/-- An element that has been appended under a new key is the one that is removed. -/
theorem remove_append_singleton (h : lookup key (key a) l = none) :
    remove key (key a) (l ++ [a]) = l := by
  unfold remove
  rw [List.eraseP_append_right]
  · simp
  · intro b hb
    simpa using lookup_eq_none.1 h b hb

theorem mem_of_mem_remove (h : a ∈ remove key k l) : a ∈ l :=
  List.mem_of_mem_eraseP h

/-- Elements with another key survive. -/
theorem mem_remove_of_ne (ha : a ∈ l) (hk : key a ≠ k) : a ∈ remove key k l :=
  (List.mem_eraseP_of_neg (by simpa using hk)).2 ha

theorem Distinct.remove (hd : Distinct key l) (k : κ) : Distinct key (remove key k l) :=
  hd.sublist (List.eraseP_sublist.map key)

/-- With distinct keys, removing a key deletes every element that has it. -/
theorem Distinct.mem_remove (hd : Distinct key l) :
    a ∈ Keyed.remove key k l ↔ a ∈ l ∧ key a ≠ k := by
  induction l with
  | nil => simp [Keyed.remove]
  | cons b rest ih =>
    obtain ⟨hb, hrest⟩ := List.nodup_cons.1 hd
    by_cases hk : key b = k
    · subst hk
      have hrm : Keyed.remove key (key b) (b :: rest) = rest := by simp [Keyed.remove]
      rw [hrm]
      constructor
      · intro ha
        exact ⟨List.mem_cons_of_mem _ ha, fun h => hb (h ▸ List.mem_map_of_mem ha)⟩
      · intro ⟨ha, hne⟩
        rcases List.mem_cons.1 ha with rfl | ha
        · exact absurd rfl hne
        · exact ha
    · have hrm : Keyed.remove key k (b :: rest) = b :: Keyed.remove key k rest := by
        simp [Keyed.remove, hk]
      rw [hrm, List.mem_cons, List.mem_cons, ih hrest]
      constructor
      · rintro (rfl | ⟨ha, hne⟩)
        · exact ⟨Or.inl rfl, hk⟩
        · exact ⟨Or.inr ha, hne⟩
      · rintro ⟨rfl | ha, hne⟩
        · exact Or.inl rfl
        · exact Or.inr ⟨ha, hne⟩

theorem Distinct.lookup_remove (hd : Distinct key l) (k : κ) :
    lookup key k (Keyed.remove key k l) = none :=
  lookup_eq_none.2 fun _ ha => (hd.mem_remove.1 ha).2

/-- Appending an element whose key is not there keeps the keys distinct. -/
theorem Distinct.append_singleton (hd : Distinct key l) (h : lookup key (key a) l = none) :
    Distinct key (l ++ [a]) := by
  unfold Distinct
  rw [List.map_append, List.nodup_append]
  refine ⟨hd, by simp, ?_⟩
  intro x hx y hy
  obtain ⟨b, hb, rfl⟩ := List.mem_map.1 hx
  simp only [List.map_cons, List.map_nil, List.mem_singleton] at hy
  rw [hy]
  exact lookup_eq_none.1 h b hb

omit [DecidableEq κ] in
/-- An element is the only one of its class exactly if the class has no second element. -/
theorem Distinct.length_filter_le_one_iff {p : α → Bool} (hd : Distinct key l) (ha : a ∈ l)
    (hp : p a = true) : (l.filter p).length ≤ 1 ↔ ∀ b ∈ l, p b = true → b = a := by
  have hmem : a ∈ l.filter p := List.mem_filter.2 ⟨ha, hp⟩
  constructor
  · intro hle b hb hpb
    have hmemb : b ∈ l.filter p := List.mem_filter.2 ⟨hb, hpb⟩
    obtain ⟨x, hx⟩ := List.length_eq_one_iff.1 (Nat.le_antisymm hle (List.length_pos_of_mem hmem))
    rw [hx, List.mem_singleton] at hmem hmemb
    rw [hmem, hmemb]
  · intro honly
    have hrep : l.filter p = List.replicate (l.filter p).length a :=
      List.eq_replicate_of_mem fun b hb =>
        honly b (List.mem_filter.1 hb).1 (List.mem_filter.1 hb).2
    have hnd : (l.filter p).Nodup := (List.Nodup.of_map _ hd).filter p
    rw [hrep] at hnd
    exact List.nodup_replicate.1 hnd

end Keyed
