/-
State folded out of a history of events: a register that some of the events
overwrite. It holds what the last of them set; where what they set never goes
back, a test below it is one below any of them.
-/
import Mathlib.Data.Set.Card

namespace History

variable {σ α τ : Type*} {step : σ → α → σ} {reg : σ → τ} {sets : α → Prop} [DecidablePred sets]
    {value : α → τ}

/-- **Deadlines.** Below a register of deadlines that never go back is below one of those set. -/
theorem lt_register_iff [LinearOrder τ]
    (hstep : ∀ s a, reg (step s a) = if sets a then value a else reg s) {s : σ} {now : τ}
    (hs : reg s ≤ now) {l : List α} (hl : l.Pairwise fun a b => value a ≤ value b) :
    now < reg (l.foldl step s) ↔ ∃ a ∈ l, sets a ∧ now < value a := by
  induction l using List.reverseRecOn with
  | nil => simpa using hs
  | append_singleton l a ih =>
    obtain ⟨hl, -, hlast⟩ := List.pairwise_append.1 hl
    rw [List.foldl_append, List.foldl_cons, List.foldl_nil, hstep]
    by_cases ha : sets a
    · rw [if_pos ha]
      refine ⟨fun h => ⟨a, by simp, ha, h⟩, fun ⟨b, hb, _, h⟩ => ?_⟩
      rcases List.mem_append.1 hb with hb | hb
      · exact lt_of_lt_of_le h (hlast b hb a List.mem_cons_self)
      · rwa [← List.mem_singleton.1 hb]
    · rw [if_neg ha, ih hl]
      constructor
      · rintro ⟨b, hb, hsets, h⟩
        exact ⟨b, List.mem_append_left _ hb, hsets, h⟩
      · rintro ⟨b, hb, hsets, h⟩
        rcases List.mem_append.1 hb with hb | hb
        · exact ⟨b, hb, hsets, h⟩
        · exact absurd (List.mem_singleton.1 hb ▸ hsets) ha

end History
