/-
Guarded transition systems: a step function that says, for a state and an
event, whether the event can happen and what it leads to. One definition is
replayed on a concrete list of events and reasoned about over every run.

`ReachableBy C` are the states reached by runs whose every step meets the
condition `C`; `Path` keeps the moves of a run, for properties of the moves
themselves.
-/
import Mathlib.Data.Set.Card

namespace Trans

/-- Initial states and a guarded step: `step s e` is `none` when `e` cannot happen in `s`. -/
structure System (S E : Type*) where
  init : S → Prop
  step : S → E → Option S

variable {S E : Type*} {sys : System S E}

/-- Replays events from a state, stopping at the first that cannot happen. -/
def System.runFrom (sys : System S E) : S → List E → Option S
  | s, [] => some s
  | s, e :: es => (sys.step s e).bind (sys.runFrom · es)

/-- The states reached by runs whose every step meets `C`. -/
inductive ReachableBy (sys : System S E) (C : S → E → Prop) : S → Prop
  | init : sys.init s → ReachableBy sys C s
  | step : ReachableBy sys C s → C s e → sys.step s e = some s' → ReachableBy sys C s'

/-- The states reached by any run. -/
abbrev Reachable (sys : System S E) : S → Prop := ReachableBy sys fun _ _ => True

theorem ReachableBy.mono {C D : S → E → Prop} (hCD : ∀ s e, C s e → D s e) {s} (h : ReachableBy sys C s) :
    ReachableBy sys D s := by
  induction h with
  | init h => exact .init h
  | step _ hc hs ih => exact .step ih (hCD _ _ hc) hs

theorem ReachableBy.reachable {C : S → E → Prop} {s} (h : ReachableBy sys C s) : Reachable sys s :=
  h.mono fun _ _ _ => trivial

/-- What holds at first and is kept by every step that meets `C` holds of every
state reached by such steps. -/
theorem ReachableBy.invariant {C : S → E → Prop} (I : S → Prop) (hinit : ∀ s, sys.init s → I s)
    (hstep : ∀ s e s', I s → C s e → sys.step s e = some s' → I s') {s} (h : ReachableBy sys C s) : I s := by
  induction h with
  | init h => exact hinit _ h
  | step _ hc hs ih => exact hstep _ _ _ ih hc hs

/-- The invariant rule, with an invariant already known of every reachable state at hand. -/
theorem ReachableBy.invariant_of {C : S → E → Prop} (J : S → Prop) (hJ : ∀ s, Reachable sys s → J s)
    (I : S → Prop) (hinit : ∀ s, sys.init s → I s)
    (hstep : ∀ s e s', J s → J s' → I s → C s e → sys.step s e = some s' → I s') {s}
    (h : ReachableBy sys C s) : I s := by
  induction h with
  | init h => exact hinit _ h
  | step hr hc hs ih =>
    exact hstep _ _ _ (hJ _ hr.reachable) (hJ _ (.step hr.reachable trivial hs)) ih hc hs

/-- A run carried over to another system: when `f` maps initial states to initial
states and every step, out of a state where `I` holds, to a step that meets `D`,
it maps the states reached by steps that meet `C` to states reached by steps
that meet `D`. -/
theorem ReachableBy.simulate {S' E' : Type*} {sys' : System S' E'} {C : S → E → Prop} {D : S' → E' → Prop}
    (f : S → S') (I : S → Prop) (hI : ∀ s, ReachableBy sys C s → I s)
    (hinit : ∀ s, sys.init s → sys'.init (f s))
    (hstep : ∀ s e s', I s → C s e → sys.step s e = some s' → ∃ e', D (f s) e' ∧
      sys'.step (f s) e' = some (f s'))
    {s} (h : ReachableBy sys C s) : ReachableBy sys' D (f s) := by
  induction h with
  | init h => exact .init (hinit _ h)
  | step hr hc hs ih =>
    obtain ⟨e', hd, hs'⟩ := hstep _ _ _ (hI _ hr) hc hs
    exact .step ih hd hs'

/-- One move of a run. -/
structure Move (S E : Type*) where
  src : S
  ev : E
  dst : S

/-- `Path sys s ms t`: the moves `ms`, in order, lead from `s` to `t`. -/
inductive Path (sys : System S E) : S → List (Move S E) → S → Prop
  | nil : Path sys s [] s
  | snoc : Path sys s ms t → sys.step t e = some u → Path sys s (ms ++ [⟨t, e, u⟩]) u

theorem Path.reachableBy {C : S → E → Prop} {s ms t} (h : Path sys s ms t) (hs : ReachableBy sys C s)
    (hC : ∀ m ∈ ms, C m.src m.ev) : ReachableBy sys C t := by
  induction h with
  | nil => exact hs
  | snoc _ hstep ih =>
    simp only [List.mem_append, List.mem_singleton] at hC
    exact .step (ih fun m hm => hC m (.inl hm)) (hC _ (.inr rfl)) hstep

theorem Path.reachable {s ms t} (h : Path sys s ms t) (hs : Reachable sys s) : Reachable sys t :=
  h.reachableBy hs fun _ _ => trivial

/-- Every move of a path is a step, from a reachable state when the path starts at one. -/
theorem Path.move {s ms t} (h : Path sys s ms t) (hs : Reachable sys s) :
    ∀ m ∈ ms, Reachable sys m.src ∧ sys.step m.src m.ev = some m.dst := by
  induction h with
  | nil => simp
  | snoc hp hstep ih =>
    intro m hm
    simp only [List.mem_append, List.mem_singleton] at hm
    rcases hm with hm | rfl
    · exact ih m hm
    · exact ⟨hp.reachable hs, hstep⟩

/-- What steps that meet `C` keep, and what they do while it holds, all along a path of such steps. -/
theorem Path.keeps_moves {C : S → E → Prop} (P : S → Prop) (Q : S → E → S → Prop)
    (hstep : ∀ s e s', Reachable sys s → P s → C s e → sys.step s e = some s' → P s' ∧ Q s e s') {s ms t}
    (h : Path sys s ms t) (hs : Reachable sys s) (hP : P s) (hC : ∀ m ∈ ms, C m.src m.ev) :
    P t ∧ ∀ m ∈ ms, Q m.src m.ev m.dst := by
  induction h with
  | nil => simpa using hP
  | snoc hp hst ih =>
    simp only [List.forall_mem_append, List.forall_mem_singleton] at hC ⊢
    obtain ⟨ht, hall⟩ := ih hC.1
    obtain ⟨hu, hq⟩ := hstep _ _ _ (hp.reachable hs) ht hC.2 hst
    exact ⟨hu, hall, hq⟩

/-- What steps that meet `C` keep holds after every move of a path whose moves meet `C`. -/
theorem Path.keeps {C : S → E → Prop} (P : S → Prop)
    (hstep : ∀ s e s', Reachable sys s → P s → C s e → sys.step s e = some s' → P s') {s ms t}
    (h : Path sys s ms t) (hs : Reachable sys s) (hP : P s) (hC : ∀ m ∈ ms, C m.src m.ev) :
    P t ∧ ∀ m ∈ ms, P m.dst :=
  h.keeps_moves P (fun _ _ => P)
    (fun _ _ _ hr hp hc hst => ⟨hstep _ _ _ hr hp hc hst, hstep _ _ _ hr hp hc hst⟩) hs hP hC

/-- A record of the moves so far: what ties it to the state at first and is kept
by every step that meets `C` ties it to the state at the end of a path. -/
theorem Path.record {R : Type*} {C : S → E → Prop} (note : R → Move S E → R) (I : R → S → Prop)
    (hstep : ∀ r s e s', Reachable sys s → I r s → C s e → sys.step s e = some s' → I (note r ⟨s, e, s'⟩) s')
    {r s ms t} (h : Path sys s ms t) (hs : Reachable sys s) (hI : I r s) (hC : ∀ m ∈ ms, C m.src m.ev) :
    I (ms.foldl note r) t := by
  induction h with
  | nil => exact hI
  | snoc hp hst ih =>
    simp only [List.forall_mem_append, List.forall_mem_singleton] at hC
    rw [List.foldl_append, List.foldl_cons, List.foldl_nil]
    exact hstep _ _ _ _ (hp.reachable hs) (ih hC.1) hC.2 hst

/-- A property of moves that a step from a reachable state has exactly when it
meets `C` is one all moves of a path have exactly when they all meet `C`. -/
theorem Path.forall_iff {C : S → E → Prop} {Q : S → E → S → Prop}
    (hstep : ∀ s e s', Reachable sys s → sys.step s e = some s' → (Q s e s' ↔ C s e)) {s ms t}
    (h : Path sys s ms t) (hs : Reachable sys s) :
    (∀ m ∈ ms, Q m.src m.ev m.dst) ↔ ∀ m ∈ ms, C m.src m.ev := by
  have hm := h.move hs
  exact ⟨fun hQ m hmem => (hstep _ _ _ (hm m hmem).1 (hm m hmem).2).1 (hQ m hmem),
    fun hC m hmem => (hstep _ _ _ (hm m hmem).1 (hm m hmem).2).2 (hC m hmem)⟩

/-- A state property that a step out of a state where it holds keeps exactly when
the step meets `C` holds all along a path exactly when all its steps meet `C`.
`I` is what the steps that keep the property keep besides. -/
theorem Path.invariant_iff {C : S → E → Prop} {P : S → Prop} (I : S → Prop)
    (hiff : ∀ s e s', Reachable sys s → I s → P s → sys.step s e = some s' → (P s' ↔ C s e))
    (hI : ∀ s e s', Reachable sys s → I s → P s → sys.step s e = some s' → P s' → I s') {s ms t}
    (h : Path sys s ms t) (hs : Reachable sys s) (hIs : I s) (hPs : P s) :
    (∀ m ∈ ms, P m.dst) ↔ ∀ m ∈ ms, C m.src m.ev := by
  have key : ((∀ m ∈ ms, P m.dst) ↔ ∀ m ∈ ms, C m.src m.ev) ∧ ((∀ m ∈ ms, P m.dst) → P t ∧ I t) := by
    induction h with
    | nil => simpa using ⟨hPs, hIs⟩
    | snoc hp hst ih =>
      obtain ⟨ih, hlast⟩ := ih
      have hr := hp.reachable hs
      have hq := fun (ht : P _ ∧ I _) => hiff _ _ _ hr ht.2 ht.1 hst
      simp only [List.forall_mem_append, List.forall_mem_singleton]
      refine ⟨⟨fun ⟨h₁, h₂⟩ => ⟨ih.1 h₁, (hq (hlast h₁)).1 h₂⟩, fun ⟨h₁, h₂⟩ => ?_⟩, fun ⟨h₁, h₂⟩ => ⟨h₂, ?_⟩⟩
      · exact ⟨ih.2 h₁, (hq (hlast (ih.2 h₁))).2 h₂⟩
      · exact hI _ _ _ hr (hlast h₁).2 (hlast h₁).1 hst h₂
  exact key.1

/-- The system with only the steps that meet `C`. -/
def System.restrict (sys : System S E) (C : S → E → Prop) [∀ s e, Decidable (C s e)] : System S E where
  init := sys.init
  step s e := if C s e then sys.step s e else none

/-- A replay of steps that meet `C` ends in a state reached by such steps. -/
theorem reachableBy_of_runFrom {C : S → E → Prop} [∀ s e, Decidable (C s e)] : ∀ {es : List E} {s t},
    ReachableBy sys C s → (sys.restrict C).runFrom s es = some t → ReachableBy sys C t
  | [], _, _, hs, h => by
    simp only [System.runFrom, Option.some.injEq] at h
    exact h ▸ hs
  | e :: _, s, _, hs, h => by
    simp only [System.runFrom, Option.bind_eq_some_iff] at h
    obtain ⟨_, h₁, h₂⟩ := h
    simp only [System.restrict] at h₁
    split at h₁
    · next hc => exact reachableBy_of_runFrom (.step hs hc h₁) h₂
    · cases h₁

/-- What such a replay comes to is that of a state so reached. -/
theorem reachableBy_of_replay {C : S → E → Prop} [∀ s e, Decidable (C s e)] {es : List E} {s : S} {β : Type*}
    {f : S → β} {b : β} (hs : ReachableBy sys C s) (h : ((sys.restrict C).runFrom s es).map f = some b) :
    ∃ t, ReachableBy sys C t ∧ f t = b := by
  obtain ⟨t, ht, hf⟩ := Option.map_eq_some_iff.1 h
  exact ⟨t, reachableBy_of_runFrom hs ht, hf⟩

theorem runFrom_of_restrict {C : S → E → Prop} [∀ s e, Decidable (C s e)] : ∀ {es : List E} {s t : S},
    (sys.restrict C).runFrom s es = some t → sys.runFrom s es = some t
  | [], _, _, h => h
  | _ :: _, _, _, h => by
    simp only [System.runFrom, Option.bind_eq_some_iff] at h ⊢
    obtain ⟨u, h₁, h₂⟩ := h
    simp only [System.restrict] at h₁
    split at h₁
    · exact ⟨u, h₁, runFrom_of_restrict h₂⟩
    · cases h₁

theorem runFrom_append {es fs : List E} {s : S} :
    sys.runFrom s (es ++ fs) = (sys.runFrom s es).bind (sys.runFrom · fs) := by
  induction es generalizing s with
  | nil => rfl
  | cons e es ih =>
    simp only [List.cons_append, System.runFrom]
    cases sys.step s e with
    | none => rfl
    | some s' => exact ih

/-- A replay from a reachable state ends in one. -/
theorem reachable_of_runFrom : ∀ {es : List E} {s t}, Reachable sys s → sys.runFrom s es = some t →
    Reachable sys t
  | [], _, _, hs, h => by
    simp only [System.runFrom, Option.some.injEq] at h
    exact h ▸ hs
  | _ :: _, _, _, hs, h => by
    simp only [System.runFrom, Option.bind_eq_some_iff] at h
    obtain ⟨_, h₁, h₂⟩ := h
    exact reachable_of_runFrom (.step hs trivial h₁) h₂

/-- What a replay comes to is that of a reachable state. -/
theorem reachable_of_replay {es : List E} {s : S} {β : Type*} {f : S → β} {b : β} (hs : Reachable sys s)
    (h : (sys.runFrom s es).map f = some b) : ∃ t, Reachable sys t ∧ f t = b := by
  obtain ⟨t, ht, hf⟩ := Option.map_eq_some_iff.1 h
  exact ⟨t, reachable_of_runFrom hs ht, hf⟩

/-- The moves of a replay, up to the first that cannot happen. -/
def System.moves (sys : System S E) : S → List E → List (Move S E)
  | _, [] => []
  | s, e :: es =>
    match sys.step s e with
    | some t => ⟨s, e, t⟩ :: sys.moves t es
    | none => []

/-- A path goes on with a replay. -/
theorem Path.append_moves : ∀ {es : List E} {s t u : S} {ms : List (Move S E)}, Path sys s ms t →
    sys.runFrom t es = some u → Path sys s (ms ++ sys.moves t es) u ∧ (sys.moves t es).map (·.ev) = es
  | [], _, _, _, ms, hp, h => by
    simp only [System.runFrom, Option.some.injEq] at h
    exact ⟨by simpa [System.moves, h] using hp, rfl⟩
  | e :: es, _, t, _, ms, hp, h => by
    simp only [System.runFrom, Option.bind_eq_some_iff] at h
    obtain ⟨t', hstep, h⟩ := h
    obtain ⟨hp', hev⟩ := (hp.snoc hstep).append_moves h
    simp only [System.moves, hstep]
    exact ⟨by simpa using hp', by simp [hev]⟩

theorem path_moves {es : List E} {s t : S} (h : sys.runFrom s es = some t) : Path sys s (sys.moves s es) t :=
  (Path.nil.append_moves h).1

theorem path_of_runFrom {es : List E} {s t : S} (h : sys.runFrom s es = some t) :
    ∃ ms, Path sys s ms t ∧ ms.map (·.ev) = es := ⟨_, Path.nil.append_moves h⟩

/-- Paths compose. -/
theorem Path.append {s t u : S} {ms ms' : List (Move S E)} (h : Path sys s ms t) (h' : Path sys t ms' u) :
    Path sys s (ms ++ ms') u := by
  induction h' with
  | nil => simpa using h
  | snoc _ hstep ih => simpa [List.append_assoc] using ih.snoc hstep

/-- A path up to one of its moves, and that move. -/
theorem Path.split {s t : S} {ms : List (Move S E)} (h : Path sys s ms t) :
    ∀ ms₁ m ms₂, ms = ms₁ ++ m :: ms₂ →
    Path sys s ms₁ m.src ∧ sys.step m.src m.ev = some m.dst := by
  induction h with
  | nil =>
    intro ms₁ m ms₂ heq
    simp at heq
  | snoc hp hstep ih =>
    intro ms₁ m ms₂ heq
    rcases List.eq_nil_or_concat ms₂ with rfl | ⟨ms₂, last, rfl⟩
    · obtain ⟨rfl, hm⟩ := List.append_inj' heq rfl
      obtain rfl := List.singleton_injective hm
      exact ⟨hp, hstep⟩
    · rw [List.concat_eq_append, ← List.cons_append, ← List.append_assoc] at heq
      exact ih _ _ _ (List.append_inj' heq rfl).1

/-- A path of steps that meet `C`. -/
theorem Path.of_restrict {C : S → E → Prop} [∀ s e, Decidable (C s e)] {s t : S} {ms : List (Move S E)}
    (h : Path (sys.restrict C) s ms t) : Path sys s ms t ∧ ∀ m ∈ ms, C m.src m.ev := by
  induction h with
  | nil => exact ⟨.nil, nofun⟩
  | snoc _ hstep ih =>
    simp only [System.restrict] at hstep
    split at hstep
    · next hc =>
      refine ⟨ih.1.snoc hstep, fun m hm => ?_⟩
      rcases List.mem_append.1 hm with hm | hm
      · exact ih.2 m hm
      · obtain rfl := List.mem_singleton.1 hm
        exact hc
    · cases hstep

end Trans
