/-
How often a function takes a value, and what changing it at one point does to
that number.
-/
import Mathlib.Data.Set.Card

namespace Fiber

variable {κ α : Type*}

/-- The points where a function takes a value. -/
def at_ (f : κ → α) (a : α) : Set κ := {k | f k = a}

/-- How many they are, where they are finitely many. -/
noncomputable def count (f : κ → α) (a : α) : Nat := (at_ f a).ncard

variable {f : κ → α} {k : κ} {a b : α}

theorem count_pos (h : (at_ f a).Finite) (hk : f k = a) : 0 < count f a := (Set.ncard_pos h).2 ⟨k, hk⟩

variable [DecidableEq κ] [DecidableEq α]

theorem at_update : at_ (Function.update f k b) a = if b = a then insert k (at_ f a) else at_ f a \ {k} := by
  ext j
  by_cases hj : j = k
  · subst hj
    by_cases hb : b = a <;> simp [at_, hb]
  · by_cases hb : b = a <;> simp [at_, hj, hb]

theorem finite_update (h : (at_ f a).Finite) : (at_ (Function.update f k b) a).Finite := by
  rw [at_update]
  split
  · exact h.insert k
  · exact h.subset Set.sdiff_subset

/-- **A change at one point takes away the value that was there and adds the new one.** -/
theorem count_update (h : (at_ f a).Finite) :
    count (Function.update f k b) a + (if f k = a then 1 else 0) = count f a + if b = a then 1 else 0 := by
  have hmem : k ∈ at_ f a ↔ f k = a := Iff.rfl
  rw [count, count, at_update]
  by_cases hk : f k = a
  · by_cases hb : b = a
    · rw [if_pos hb, if_pos hk, if_pos hb, Set.insert_eq_of_mem (hmem.2 hk)]
    · rw [if_neg hb, if_pos hk, if_neg hb, Set.ncard_sdiff_singleton_add_one (hmem.2 hk) h]
      rfl
  · by_cases hb : b = a
    · rw [if_pos hb, if_neg hk, if_pos hb, Set.ncard_insert_of_notMem (mt hmem.1 hk) h]
    · rw [if_neg hb, if_neg hk, if_neg hb, Set.sdiff_singleton_eq_self (mt hmem.1 hk)]

end Fiber
