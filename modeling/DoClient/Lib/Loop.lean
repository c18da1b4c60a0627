/-
`while` loops around a body that may throw and says whether to go on. A loop
whose every round lowers a measure is run with fuel (`run`); `Runs` says what
the loop does, whatever the fuel. What a loop does on a longer input follows
from what it does on a shorter one, round by round (`Runs.map`, `Runs.resume`).
-/
import Mathlib.Data.Set.Card

namespace Loop

variable {σ ε : Type*} {body : σ → Except ε (Bool × σ)}

/-- `while (body()) {}`, at most `n` rounds. -/
def run (body : σ → Except ε (Bool × σ)) : Nat → σ → Except ε σ
  | 0, s => .ok s
  | n + 1, s =>
    match body s with
    | .error e => .error e
    | .ok (true, s') => run body n s'
    | .ok (false, s') => .ok s'

/-- The loop ends with this result from this state. -/
inductive Runs (body : σ → Except ε (Bool × σ)) : σ → Except ε σ → Prop
  | throws : body s = .error e → Runs body s (.error e)
  | stops : body s = .ok (false, s') → Runs body s (.ok s')
  | goesOn : body s = .ok (true, s') → Runs body s' r → Runs body s r

theorem Runs.det {s r r'} (h : Runs body s r) (h' : Runs body s r') : r = r' := by
  induction h with
  | throws he | stops he =>
    cases h' with
    | throws he' | stops he' | goesOn he' => simp_all
  | goesOn he _ ih =>
    cases h' with
    | throws he' | stops he' => simp_all
    | goesOn he' h' =>
      obtain ⟨-, rfl⟩ := Prod.mk.inj (Except.ok.inj (he.symm.trans he'))
      exact ih h'

/-- Fuel above the measure of the state is enough. -/
theorem runs_run {μ : σ → Nat} (hμ : ∀ s s', body s = .ok (true, s') → μ s' < μ s) {n : Nat} {s : σ}
    (hn : μ s < n) :
    Runs body s (run body n s) := by
  induction n generalizing s with
  | zero => omega
  | succ n ih =>
    rw [run]
    split
    · next he => exact .throws he
    · next he => exact .goesOn he (ih (by have := hμ _ _ he; omega))
    · next he => exact .stops he

/-- What the rounds keep. -/
theorem Runs.invariant {I : σ → Prop} (hI : ∀ s b s', I s → body s = .ok (b, s') → I s') {s q : σ}
    (h : Runs body s (.ok q)) (hs : I s) : I q := by
  generalize hr : Except.ok (ε := ε) q = r at h
  induction h with
  | throws => cases hr
  | stops he => cases hr; exact hI _ _ _ hs he
  | goesOn he _ ih => exact ih (hI _ _ _ hs he) hr

section Longer

variable {f : σ → σ} {I : σ → Prop} (hI : ∀ s s', I s → body s = .ok (true, s') → I s') {s q : σ} (hs : I s)
include hI hs

/-- A loop whose rounds `f` carries over, the last one when its outcome meets `Q`. -/
theorem Runs.map {Q : σ → Prop} (hgo : ∀ s s', I s → body s = .ok (true, s') → body (f s) = .ok (true, f s'))
    (hstop : ∀ s s', I s → body s = .ok (false, s') → Q s' → body (f s) = .ok (false, f s'))
    (h : Runs body s (.ok q)) (hq : Q q) : Runs body (f s) (.ok (f q)) := by
  generalize hr : Except.ok (ε := ε) q = r at h
  induction h with
  | throws => cases hr
  | stops he => cases hr; exact .stops (hstop _ _ hs he hq)
  | goesOn he _ ih => exact .goesOn (hgo _ _ hs he) (ih (hI _ _ hs he) hr)

/-- So it is with what it throws. -/
theorem Runs.map_error {e : ε}
    (hgo : ∀ s s', I s → body s = .ok (true, s') → Runs body s' (.error e) → body (f s) = .ok (true, f s'))
    (herr : ∀ s e, I s → body s = .error e → body (f s) = .error e) (h : Runs body s (.error e)) :
    Runs body (f s) (.error e) := by
  generalize hr : Except.error (α := σ) e = r at h
  induction h with
  | throws he => cases hr; exact .throws (herr _ _ hs he)
  | stops => cases hr
  | goesOn he hrest ih =>
    subst hr
    exact .goesOn (hgo _ _ hs he hrest) (ih (hI _ _ hs he) rfl)

/-- A loop that stopped in `q` goes on from `f q` as it would have from `f s`: `f` carries over
the rounds, and where the loop stopped there is nothing `f s` allows that `f q` does not. -/
theorem Runs.resume {P : σ → Prop} {r : Except ε σ}
    (hback : ∀ s b s', I s → body s = .ok (b, s') → P s' → P s)
    (hgo : ∀ s s', I s → body s = .ok (true, s') → P s' → body (f s) = .ok (true, f s'))
    (hstop : ∀ s s', I s → body s = .ok (false, s') → P s' → body (f s) = body (f s'))
    (h : Runs body s (.ok q)) (hq : P q) (hr : Runs body (f q) r) : Runs body (f s) r := by
  suffices hboth : P s ∧ Runs body (f s) r from hboth.2
  generalize hok : Except.ok (ε := ε) q = r' at h
  induction h with
  | throws => cases hok
  | stops he =>
    cases hok
    have hsame := hstop _ _ hs he hq
    refine ⟨hback _ _ _ hs he hq, ?_⟩
    cases hr with
    | throws he' => exact .throws (hsame.trans he')
    | stops he' => exact .stops (hsame.trans he')
    | goesOn he' hr => exact .goesOn (hsame.trans he') hr
  | goesOn he _ ih =>
    obtain ⟨hp, hrest⟩ := ih (hI _ _ hs he) hok
    exact ⟨hback _ _ _ hs he hp, .goesOn (hgo _ _ hs he hp) hrest⟩

end Longer

end Loop
