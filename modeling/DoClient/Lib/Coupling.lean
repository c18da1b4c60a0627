/-
Two runs side by side: programs that pass a state on and may fail, run from
related states. When a program cannot tell the states apart, both runs end the
same way and in related states again; for a program put together from others it
is enough to see that of each.
-/
import Mathlib.Data.Set.Card

namespace Coupling

variable {S S' E A B : Type*} {R : S → S' → Prop}

/-- Both runs end the same way, in related states. -/
def Agree (R : S → S' → Prop) (p : A × S) (q : A × S') : Prop := p.1 = q.1 ∧ R p.2 q.2

theorem Agree.of {s : S} {s' : S'} (h : R s s') (a : A) : Agree R (a, s) (a, s') := ⟨rfl, h⟩

theorem Agree.ok {s : S} {s' : S'} (h : R s s') (a : A) :
    Agree R ((.ok a, s) : Except E A × S) (.ok a, s') := .of h _

theorem Agree.error {s : S} {s' : S'} (h : R s s') (e : E) :
    Agree R ((.error e, s) : Except E A × S) (.error e, s') := .of h _

/-- What goes on with the result, where there is one. -/
def andThen (p : Except E A × S) (f : A → S → Except E B × S) : Except E B × S :=
  match p with
  | (.ok a, s) => f a s
  | (.error e, s) => (.error e, s)

theorem Agree.andThen {p : Except E A × S} {q : Except E A × S'} (h : Agree R p q)
    {f : A → S → Except E B × S} {g : A → S' → Except E B × S'}
    (hf : ∀ a s s', p = (.ok a, s) → q = (.ok a, s') → R s s' → Agree R (f a s) (g a s')) :
    Agree R (Coupling.andThen p f) (Coupling.andThen q g) := by
  obtain ⟨r, s⟩ := p
  obtain ⟨r', s'⟩ := q
  obtain ⟨rfl, hs⟩ := h
  cases r with
  | ok a => exact hf a s s' rfl rfl hs
  | error e => exact .error hs e

theorem Agree.ite {c c' : Prop} [Decidable c] [Decidable c'] (hc : c ↔ c')
    {p p₂ : A × S} {q q₂ : A × S'} (h : c → Agree R p q) (h₂ : ¬ c → Agree R p₂ q₂) :
    Agree R (if c then p else p₂) (if c' then q else q₂) := by
  by_cases hp : c
  · rw [if_pos hp, if_pos (hc.1 hp)]
    exact h hp
  · rw [if_neg hp, if_neg (hc.not.1 hp)]
    exact h₂ hp

end Coupling
