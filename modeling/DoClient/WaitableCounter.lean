/-
`WaitableCounter` (`threading/waitable_counter.h`): a counter of the handles that
refer to it, and an event that is signalled while there is none.

Threads run the operations of handles step by step. A step is what one of them
does up to the end of its next lock-protected part; a handle is used by one
thread at a time, so its pointer changes with the step next to it.
-/
import DoClient.HResult
import DoClient.Lib.Fiber
import DoClient.Lib.Run

namespace DoClient

/-- `_count`, and whether `_event` is signalled. -/
structure WaitableCounter where
  count : Nat := 0
  event : Bool := true
  deriving DecidableEq, Repr

namespace WaitableCounter

variable {C H T : Type*} [DecidableEq C] [DecidableEq H] [DecidableEq T]

/-- `Enter`, under the lock. -/
def enter (c : WaitableCounter) : WaitableCounter :=
  let count := wrap32 (c.count + 1)
  { count, event := if count = 1 then false else c.event }

/-- `_Leave`, under the lock. -/
def leave (c : WaitableCounter) : WaitableCounter :=
  let count := wrap32 (c.count + (2 ^ 32 - 1))
  { count, event := if count = 0 then true else c.event }

/-! ## Handles -/

/-- Where a `scope_exit` can be: an object of the program, or a thread's temporary. -/
inductive Slot (H T : Type*)
  | object (h : H)
  | temporary (t : T)
  deriving DecidableEq

/-- What operations consist of; each has one lock-protected part at most. -/
inductive Action (C H T : Type*)
  /-- `Enter()`, and the handle it returns. -/
  | enter (c : C) (s : Slot H T)
  /-- The constructor with a null pointer. -/
  | construct (s : Slot H T)
  /-- `_Reset()`. -/
  | reset (s : Slot H T)
  /-- `counter->Enter()` for the counter of another handle, if it has one. -/
  | enterOf (other s : Slot H T)
  | moveConstruct (s other : Slot H T)
  | moveAssign (s other : Slot H T)
  | destroy (s : Slot H T)

/-- What a thread does with handles. -/
inductive Op (C H : Type*)
  | enter (c : C) (h : H)
  | copyConstruct (h other : H)
  | copyAssign (h other : H)
  | moveConstruct (h other : H)
  | moveAssign (h other : H)
  | destroy (h : H)

/-- `operator=(const scope_exit&)`: the handle is reset, then moved to from a new one. -/
def copyAssignActions (t : T) (h other : H) : List (Action C H T) :=
  [.reset (.object h), .enterOf (.object other) (.temporary t), .moveAssign (.object h) (.temporary t),
    .destroy (.temporary t)]

def Op.actions (t : T) : Op C H → List (Action C H T)
  | .enter c h => [.enter c (.object h)]
  | .copyConstruct h other => .construct (.object h) :: copyAssignActions t h other
  | .copyAssign h other => copyAssignActions t h other
  | .moveConstruct h other => [.moveConstruct (.object h) (.object other)]
  | .moveAssign h other => [.moveAssign (.object h) (.object other)]
  | .destroy h => [.destroy (.object h)]

/-- The counters, what is at each place (no handle, or the pointer of one), and what the threads
have still to do of their operations. -/
structure Program (C H T : Type*) where
  counters : C → WaitableCounter
  slots : Slot H T → Option (Option C)
  running : T → List (Action C H T)

namespace Program

variable (w : Program C H T)

/-- Puts a handle with a pointer at a place, or takes it away. -/
def setSlot (s : Slot H T) (handle : Option (Option C)) : Program C H T :=
  { w with slots := Function.update w.slots s handle }

def setCounter (c : C) (f : WaitableCounter → WaitableCounter) : Program C H T :=
  { w with counters := Function.update w.counters c (f (w.counters c)) }

def setRunning (t : T) (actions : List (Action C H T)) : Program C H T :=
  { w with running := Function.update w.running t actions }

/-- `Enter` of a counter for a handle. -/
def enter (c : C) (s : Slot H T) : Program C H T := (w.setCounter c WaitableCounter.enter).setSlot s (some (some c))

/-- `_Reset` of a handle. -/
def reset (s : Slot H T) : Program C H T :=
  match w.slots s with
  | some (some c) => (w.setCounter c leave).setSlot s (some none)
  | _ => w

/-- The pointer of another handle goes over to a handle. -/
def take (s other : Slot H T) : Program C H T := (w.setSlot s (w.slots other)).setSlot other (some none)

/-- One action of a thread, and whether its operation goes on. The objects it uses are there, and
the place of one it constructs is free. -/
def act : Action C H T → Option (Bool × Program C H T)
  | .enter c s => if w.slots s = none then some (true, w.enter c s) else none
  | .construct s => if w.slots s = none then some (true, w.setSlot s (some none)) else none
  | .reset s => if w.slots s = none then none else some (true, w.reset s)
  | .enterOf other s =>
    match w.slots other with
    | none => none
    | some none => some (false, w)
    | some (some c) => if w.slots s = none then some (true, w.enter c s) else none
  | .moveConstruct s other =>
    if w.slots s = none ∧ w.slots other ≠ none then some (true, w.take s other) else none
  | .moveAssign s other =>
    if w.slots s = none ∨ w.slots other = none then none else some (true, (w.reset s).take s other)
  | .destroy s => if w.slots s = none then none else some (true, (w.reset s).setSlot s none)

end Program

inductive Event (C H T : Type*)
  /-- A thread begins an operation. -/
  | start (t : T) (op : Op C H)
  /-- A thread goes on with its operation. -/
  | goOn (t : T)
  /-- `Wait` returns: true with the event signalled, false when the time is up before. -/
  | wait (c : C) (result : Bool)

def step (w : Program C H T) : Event C H T → Option (Program C H T)
  | .start t op => if (w.running t).isEmpty then some (w.setRunning t (op.actions t)) else none
  | .goOn t =>
    match w.running t with
    | [] => none
    | a :: rest => (w.act a).map fun (goesOn, w') => w'.setRunning t (if goesOn then rest else [])
  | .wait c result => if (w.counters c).event = result then some w else none

/-- No handles yet, and no thread at work. -/
def newProgram : Program C H T := ⟨fun _ => {}, fun _ => none, fun _ => []⟩

def system (C H T : Type*) [DecidableEq C] [DecidableEq H] [DecidableEq T] :
    Trans.System (Program C H T) (Event C H T) where
  init w := w = newProgram
  step := step

/-! ## The counter and its handles -/

/-- What a counter is with a number of handles. -/
structure For (c : WaitableCounter) (n : Nat) : Prop where
  count : c.count = n
  event : c.event = decide (n = 0)
  fits : n < 2 ^ 32

theorem For.enter {c : WaitableCounter} {n : Nat} (h : c.For n) (hroom : n + 1 < 2 ^ 32) : c.enter.For (n + 1) := by
  have hcount : wrap32 (c.count + 1) = n + 1 := by
    rw [h.count]
    exact Nat.mod_eq_of_lt hroom
  refine ⟨hcount, ?_, hroom⟩
  simp only [WaitableCounter.enter, hcount, h.event]
  by_cases hn : n = 0 <;> simp [hn]

theorem For.leave {c : WaitableCounter} {n : Nat} (h : c.For (n + 1)) : c.leave.For n := by
  have hfits := h.fits
  have hcount : wrap32 (c.count + (2 ^ 32 - 1)) = n := by
    rw [h.count, wrap32]
    omega
  refine ⟨hcount, ?_, by omega⟩
  simp only [WaitableCounter.leave, hcount, h.event]
  by_cases hn : n = 0 <;> simp [hn]

namespace Program

variable {w : Program C H T} {s other : Slot H T} {c : C} {handle : Option (Option C)}

/-- How many handles refer to a counter. -/
noncomputable def refs (w : Program C H T) (c : C) : Nat := Fiber.count w.slots (some (some c))

/-- Each counter is what it is with the handles that refer to it, finitely many. -/
structure Balanced (w : Program C H T) : Prop where
  finite : ∀ c, (Fiber.at_ w.slots (some (some c))).Finite
  law : ∀ c, (w.counters c).For (w.refs c)

theorem Balanced.finite_setSlot (h : Balanced w) (s : Slot H T) (handle : Option (Option C)) (c : C) :
    (Fiber.at_ (w.setSlot s handle).slots (some (some c))).Finite := Fiber.finite_update (h.finite c)

theorem Balanced.refs_setSlot (h : Balanced w) (s : Slot H T) (handle : Option (Option C)) (c : C) :
    (w.setSlot s handle).refs c + (if w.slots s = some (some c) then 1 else 0) =
      w.refs c + if handle = some (some c) then 1 else 0 := Fiber.count_update (h.finite c)

/-- A pointer that is changed without the counter: to one counter from the same, or where there
is none and none is put. -/
theorem Balanced.setSlot (h : Balanced w) (hs : ∀ c, w.slots s = some (some c) ↔ handle = some (some c)) :
    Balanced (w.setSlot s handle) := by
  refine ⟨h.finite_setSlot s handle, fun c => ?_⟩
  have hrefs := h.refs_setSlot s handle c
  simp only [hs c, Nat.add_right_cancel_iff] at hrefs
  rw [hrefs]
  exact h.law c

theorem Balanced.enter (h : Balanced w) (hs : w.slots s = none) (hroom : (w.counters c).count + 1 < 2 ^ 32) :
    Balanced (w.enter c s) := by
  refine ⟨h.finite_setSlot s _, fun c' => ?_⟩
  have hrefs : (w.enter c s).refs c' = w.refs c' + if c = c' then 1 else 0 := by
    have hrefs := h.refs_setSlot s (some (some c)) c'
    simp only [hs, reduceCtorEq, if_false, Nat.add_zero, Option.some.injEq] at hrefs
    exact hrefs
  rw [hrefs]
  by_cases hc : c = c'
  · subst hc
    rw [(h.law c).count] at hroom
    simpa [Program.enter, setCounter, Program.setSlot] using (h.law c).enter hroom
  · simpa [Program.enter, setCounter, Program.setSlot, hc, Ne.symm hc] using h.law c'

theorem Balanced.reset (h : Balanced w) : Balanced (w.reset s) := by
  unfold Program.reset
  split
  · next c hs =>
    refine ⟨h.finite_setSlot s _, fun c' => ?_⟩
    have hrefs : ((w.setCounter c leave).setSlot s (some none)).refs c' + (if c = c' then 1 else 0) = w.refs c' := by
      have hrefs := h.refs_setSlot s (some none) c'
      simp only [hs, Option.some.injEq, reduceCtorEq, if_false, Nat.add_zero] at hrefs
      exact hrefs
    have hlaw := h.law c'
    rw [← hrefs] at hlaw
    by_cases hc : c = c'
    · subst hc
      rw [if_pos rfl] at hlaw
      simpa [setCounter, Program.setSlot] using hlaw.leave
    · rw [if_neg hc] at hlaw
      simpa [setCounter, Program.setSlot, hc, Ne.symm hc] using hlaw
  · exact h

/-- After a reset the handle refers to nothing. -/
theorem reset_slots (w : Program C H T) (s : Slot H T) (c : C) : (w.reset s).slots s ≠ some (some c) := by
  unfold Program.reset
  split
  · simp [Program.setSlot]
  · next hs => exact hs c

theorem reset_slots_of_ne (w : Program C H T) (h : other ≠ s) : (w.reset s).slots other = w.slots other := by
  unfold Program.reset
  split
  · exact Function.update_of_ne h ..
  · rfl

/-- A pointer that goes over to a handle without one is as often there as before. -/
theorem Balanced.take (h : Balanced w) (hs : ∀ c, w.slots s ≠ some (some c)) : Balanced (w.take s other) := by
  refine ⟨fun c => Fiber.finite_update (h.finite_setSlot s _ c), fun c => ?_⟩
  have hgiven := h.refs_setSlot s (w.slots other) c
  have htaken : (w.take s other).refs c + (if (w.setSlot s (w.slots other)).slots other = some (some c) then 1 else 0) =
      (w.setSlot s (w.slots other)).refs c + 0 := Fiber.count_update (h.finite_setSlot s _ c)
  have hother : (w.setSlot s (w.slots other)).slots other = w.slots other := by
    by_cases heq : other = s
    · subst heq
      simp [Program.setSlot]
    · simp [Program.setSlot, heq]
  rw [hother] at htaken
  rw [if_neg (hs c)] at hgiven
  have hrefs : (w.take s other).refs c = w.refs c := by omega
  rw [hrefs]
  exact h.law c

/-- The counter that an action enters. -/
def entered (w : Program C H T) : Action C H T → Option C
  | .enter c _ => some c
  | .enterOf other _ => (w.slots other).join
  | _ => none

/-- **What each action keeps.** -/
theorem Balanced.act {a : Action C H T} {goesOn : Bool} {w' : Program C H T} (h : Balanced w)
    (hroom : ∀ c ∈ w.entered a, (w.counters c).count + 1 < 2 ^ 32) (hact : w.act a = some (goesOn, w')) :
    Balanced w' := by
  cases a with
  | enter c s =>
    simp only [Program.act, Option.ite_none_right_eq_some, Option.some.injEq, Prod.mk.injEq] at hact
    obtain ⟨hs, -, rfl⟩ := hact
    exact h.enter hs (hroom c rfl)
  | construct s =>
    simp only [Program.act, Option.ite_none_right_eq_some, Option.some.injEq, Prod.mk.injEq] at hact
    obtain ⟨hs, -, rfl⟩ := hact
    exact h.setSlot (by simp [hs])
  | reset s =>
    simp only [Program.act, Option.ite_none_left_eq_some, Option.some.injEq, Prod.mk.injEq] at hact
    obtain ⟨-, -, rfl⟩ := hact
    exact h.reset
  | enterOf other s =>
    simp only [Program.act] at hact
    split at hact
    · cases hact
    · simp only [Option.some.injEq, Prod.mk.injEq] at hact
      obtain ⟨-, rfl⟩ := hact
      exact h
    · next c hother =>
      simp only [Option.ite_none_right_eq_some, Option.some.injEq, Prod.mk.injEq] at hact
      obtain ⟨hs, -, rfl⟩ := hact
      exact h.enter hs (hroom c (by simp [entered, hother]))
  | moveConstruct s other =>
    simp only [Program.act, Option.ite_none_right_eq_some, Option.some.injEq, Prod.mk.injEq] at hact
    obtain ⟨⟨hs, -⟩, -, rfl⟩ := hact
    exact h.take (by simp [hs])
  | moveAssign s other =>
    simp only [Program.act, Option.ite_none_left_eq_some, Option.some.injEq, Prod.mk.injEq] at hact
    obtain ⟨-, -, rfl⟩ := hact
    exact h.reset.take (reset_slots w s)
  | destroy s =>
    simp only [Program.act, Option.ite_none_left_eq_some, Option.some.injEq, Prod.mk.injEq] at hact
    obtain ⟨-, -, rfl⟩ := hact
    exact h.reset.setSlot fun c => by simpa using reset_slots w s c

omit [DecidableEq C] [DecidableEq H] in
theorem Balanced.setRunning (h : Balanced w) (t : T) (actions : List (Action C H T)) :
    Balanced (w.setRunning t actions) := ⟨h.finite, h.law⟩

end Program

/-! ## Runs -/

/-- `Enter` finds less than 2 ^ 32 - 1 handles at the counter. -/
def HasRoom (w : Program C H T) : Event C H T → Prop
  | .goOn t => ∀ a ∈ (w.running t).head?, ∀ c ∈ w.entered a, (w.counters c).count + 1 < 2 ^ 32
  | _ => True

/-- Each counter counts the handles that refer to it, none of them takes it below zero, the event is
signalled exactly at zero, and `Wait` returns true only while there is no handle. -/
structure CountsHandles (w : Program C H T) : Prop where
  count : ∀ c, (w.counters c).count = w.refs c
  aboveZero : ∀ c s, w.slots s = some (some c) → 0 < (w.counters c).count
  event : ∀ c, (w.counters c).event = true ↔ (w.counters c).count = 0
  wait : ∀ c, (step w (.wait c true)).isSome = true → ∀ s, w.slots s ≠ some (some c)

omit [DecidableEq C] [DecidableEq H] [DecidableEq T] in
theorem balanced_newProgram : (newProgram : Program C H T).Balanced := by
  have hnone : ∀ c, Fiber.at_ (newProgram : Program C H T).slots (some (some c)) = ∅ := fun c => by
    simp [Fiber.at_, newProgram]
  refine ⟨fun c => by simp [hnone], fun c => ?_⟩
  rw [Program.refs, Fiber.count, hnone, Set.ncard_empty]
  exact ⟨rfl, rfl, by decide⟩

theorem balanced_step {w w' : Program C H T} {e : Event C H T} (h : w.Balanced) (hroom : HasRoom w e)
    (hstep : step w e = some w') : w'.Balanced := by
  cases e with
  | start t op =>
    simp only [step, Option.ite_none_right_eq_some, Option.some.injEq] at hstep
    obtain ⟨-, rfl⟩ := hstep
    exact h.setRunning t _
  | goOn t =>
    simp only [step] at hstep
    split at hstep
    · cases hstep
    · next a rest hrunning =>
      simp only [Option.map_eq_some_iff, Prod.exists] at hstep
      obtain ⟨goesOn, u, hact, rfl⟩ := hstep
      exact (h.act (hroom a (by simp [hrunning])) hact).setRunning t _
  | wait c result =>
    simp only [step, Option.ite_none_right_eq_some, Option.some.injEq] at hstep
    obtain ⟨-, rfl⟩ := hstep
    exact h

theorem Program.Balanced.countsHandles {w : Program C H T} (h : w.Balanced) : CountsHandles w where
  count c := (h.law c).count
  aboveZero c s hs := by
    rw [(h.law c).count]
    exact Fiber.count_pos (h.finite c) hs
  event c := by
    rw [(h.law c).event, (h.law c).count, decide_eq_true_eq]
  wait c hwait s hs := by
    have hevent : (w.counters c).event = true := by
      by_contra hnot
      simp [step, hnot] at hwait
    rw [(h.law c).event, decide_eq_true_eq] at hevent
    have hpos := Fiber.count_pos (h.finite c) hs
    rw [Program.refs] at hevent
    omega

/-- A handle too many takes the counter to zero. -/
theorem not_countsHandles_of_full {w w' : Program C H T} {e : Event C H T} (h : w.Balanced) (hfull : ¬ HasRoom w e)
    (hstep : step w e = some w') : ¬ CountsHandles w' := by
  cases e with
  | start | wait => exact absurd trivial hfull
  | goOn t =>
    simp only [HasRoom, not_forall, Nat.not_lt] at hfull
    obtain ⟨a, ha, c, hc, hcount⟩ := hfull
    have hzero : wrap32 ((w.counters c).count + 1) = 0 := by
      have hfits := (h.law c).fits
      rw [← (h.law c).count] at hfits
      rw [wrap32]
      omega
    obtain ⟨rest, hrunning⟩ := List.head?_eq_some_iff.1 ha
    simp only [step, hrunning, Option.map_eq_some_iff, Prod.exists] at hstep
    obtain ⟨goesOn, u, hact, rfl⟩ := hstep
    obtain ⟨s, rfl⟩ : ∃ s, u = w.enter c s := by
      cases a with
      | enter c' s =>
        simp only [Program.act, Option.ite_none_right_eq_some, Option.some.injEq, Prod.mk.injEq] at hact
        obtain rfl := Option.some.inj hc
        exact ⟨s, hact.2.2.symm⟩
      | enterOf other s =>
        have hother : w.slots other = some (some c) := Option.join_eq_some_iff.1 hc
        simp only [Program.act, hother, Option.ite_none_right_eq_some, Option.some.injEq, Prod.mk.injEq] at hact
        exact ⟨s, hact.2.2.symm⟩
      | construct | reset | moveConstruct | moveAssign | destroy => cases hc
    intro hcounts
    have hpos := hcounts.aboveZero c s (by simp [Program.enter, Program.setSlot, Program.setRunning])
    simp [Program.enter, Program.setCounter, Program.setSlot, Program.setRunning, enter, hzero] at hpos

/-- **Over a run each counter counts its handles, exactly when `Enter` never finds 2 ^ 32 - 1 of
them.** -/
theorem counts_handles_iff {w : Program C H T} {ms : List (Trans.Move (Program C H T) (Event C H T))}
    (h : Trans.Path (system C H T) newProgram ms w) :
    (∀ m ∈ ms, CountsHandles m.dst) ↔ ∀ m ∈ ms, HasRoom m.src m.ev := by
  refine h.invariant_iff Program.Balanced (fun s e s' _ hs _ hstep => ?_) (fun s e s' _ hs _ hstep hs' => ?_)
    (.init rfl) balanced_newProgram balanced_newProgram.countsHandles
  · by_cases hroom : HasRoom s e
    · exact iff_of_true (balanced_step hs hroom hstep).countsHandles hroom
    · exact iff_of_false (not_countsHandles_of_full hs hroom hstep) hroom
  · by_contra hnot
    refine not_countsHandles_of_full hs (fun hroom => ?_) hstep hs'
    exact hnot (balanced_step hs hroom hstep)

/-! ## Runs that are too long, and one that is not -/

instance (w : Program C H T) : ∀ e, Decidable (HasRoom w e)
  | .start .. | .wait .. => isTrue trivial
  | .goOn t => inferInstanceAs (Decidable (∀ a ∈ (w.running t).head?, ∀ c ∈ w.entered a,
      (w.counters c).count + 1 < 2 ^ 32))

/-- A handle is made, copied over another, and both are destroyed, each operation run to its end. -/
def copyRun : List (Event Unit (Fin 2) Unit) :=
  [.start () (.enter () 0), .goOn (), .start () (.enter () 1), .goOn (), .start () (.copyAssign 1 0),
    .goOn (), .goOn (), .goOn (), .goOn (), .start () (.destroy 0), .goOn (), .start () (.destroy 1), .goOn (),
    .wait () true]

theorem counts_handles_iff_copyRun :
    ((system Unit (Fin 2) Unit).moves newProgram copyRun).Forall fun m => CountsHandles m.dst := by
  obtain ⟨w, hw⟩ : ∃ w, (system Unit (Fin 2) Unit).runFrom newProgram copyRun = some w :=
    Option.isSome_iff_exists.1 (by decide)
  exact List.forall_iff_forall_mem.2 ((counts_handles_iff (Trans.path_moves hw)).2 (by decide))

/-- What a program comes to that makes a number of handles. -/
def handlesMade (n : Nat) : Program Unit Nat Unit where
  counters _ := ⟨wrap32 n, decide (n = 0)⟩
  slots
    | .object h => if h < n then some (some ()) else none
    | .temporary _ => none
  running _ := []

theorem enter_handlesMade (n : Nat) : (handlesMade n).enter () (.object n) = handlesMade (n + 1) := by
  have hcounter : WaitableCounter.enter ⟨wrap32 n, decide (n = 0)⟩ = ⟨wrap32 (n + 1), decide (n + 1 = 0)⟩ := by
    have hcount : wrap32 (wrap32 n + 1) = wrap32 (n + 1) := Nat.mod_add_mod n (2 ^ 32) 1
    simp only [WaitableCounter.enter, hcount]
    by_cases hn : n = 0
    · subst hn
      rfl
    · simp [hn]
  have hslots : Function.update (handlesMade n).slots (.object n) (some (some ())) = (handlesMade (n + 1)).slots := by
    funext s
    cases s with
    | temporary t => rfl
    | object h =>
      by_cases hh : h = n
      · simp [handlesMade, hh]
      · have hle : h ≤ n ↔ h < n := by omega
        simp [handlesMade, hh, hle]
  have hcounters : Function.update (handlesMade n).counters () ((handlesMade n).counters ()).enter =
      (handlesMade (n + 1)).counters := by
    funext c
    cases c
    simp [handlesMade, hcounter]
  rw [Program.enter, Program.setCounter, Program.setSlot]
  simp only [hslots, hcounters]
  rfl

theorem reachable_handlesMade (n : Nat) : Trans.Reachable (system Unit Nat Unit) (handlesMade n) := by
  induction n with
  | zero =>
    have hnone : (handlesMade 0).slots = fun _ => none := by
      funext s
      cases s <;> rfl
    exact .init (by simp only [system, newProgram, ← hnone]; rfl)
  | succ n ih =>
    let started := (handlesMade n).setRunning () [.enter () (.object n)]
    have hstart : (system Unit Nat Unit).step (handlesMade n) (.start () (.enter () n)) = some started := rfl
    have hact : started.act (.enter () (.object n)) = some (true, started.enter () (.object n)) :=
      if_pos (if_neg (Nat.lt_irrefl n))
    have hgoOn : (system Unit Nat Unit).step started (.goOn ()) = some (handlesMade (n + 1)) := by
      have hdone : (started.enter () (.object n)).setRunning () [] = handlesMade (n + 1) := by
        rw [← enter_handlesMade]
        rfl
      change (started.act (.enter () (.object n))).map _ = _
      rw [hact, ← hdone]
      rfl
    exact (ih.step trivial hstart).step trivial hgoOn

/-- One of the handles is destroyed. -/
def oneGone (n : Nat) : Program Unit Nat Unit := ((handlesMade n).reset (.object 0)).setSlot (.object 0) none

section OneGone

variable {n : Nat} (hn : 0 < n)

include hn

theorem slots_handlesMade : (handlesMade n).slots (.object 0) = some (some ()) := if_pos hn

theorem reachable_oneGone : Trans.Reachable (system Unit Nat Unit) (oneGone n) := by
  let started := (handlesMade n).setRunning () [.destroy (.object 0)]
  have hstart : (system Unit Nat Unit).step (handlesMade n) (.start () (.destroy 0)) = some started := rfl
  have hgoOn : (system Unit Nat Unit).step started (.goOn ()) = some (oneGone n) := by
    have hthere : started.slots (.object 0) ≠ none := by
      change (handlesMade n).slots (.object 0) ≠ none
      simp [slots_handlesMade hn]
    have hact : started.act (.destroy (.object 0)) =
        some (true, (started.reset (.object 0)).setSlot (.object 0) none) := if_neg hthere
    have hdone : ((started.reset (.object 0)).setSlot (.object 0) none).setRunning () [] = oneGone n := by
      simp only [Program.reset, oneGone, show started.slots = (handlesMade n).slots from rfl, slots_handlesMade hn]
      rfl
    change (started.act (.destroy (.object 0))).map _ = _
    rw [hact, ← hdone]
    rfl
  exact ((reachable_handlesMade n).step trivial hstart).step trivial hgoOn

theorem counters_oneGone : (oneGone n).counters () = leave ⟨wrap32 n, decide (n = 0)⟩ := by
  simp only [oneGone, Program.reset, slots_handlesMade hn]
  rfl

end OneGone

theorem slots_oneGone {n h : Nat} (hlow : 1 ≤ h) (hhigh : h < n) :
    (oneGone n).slots (.object h) = some (some ()) := by
  have hne : (.object h : Slot Nat Unit) ≠ .object 0 := by simpa using Nat.ne_of_gt hlow
  calc (oneGone n).slots (.object h)
      = ((handlesMade n).reset (.object 0)).slots (.object h) := Function.update_of_ne hne ..
    _ = (handlesMade n).slots (.object h) := Program.reset_slots_of_ne _ hne
    _ = some (some ()) := if_pos hhigh

/-- With 2 ^ 32 + 1 handles made and one of them gone `Wait` returns true. -/
theorem wait_with_handles : ∃ w, Trans.Reachable (system Unit Nat Unit) w ∧
    (step w (.wait () true)).isSome = true ∧ ∀ h, 1 ≤ h → h < 2 ^ 32 + 1 → w.slots (.object h) = some (some ()) := by
  refine ⟨oneGone (2 ^ 32 + 1), reachable_oneGone (by decide), ?_, fun h => slots_oneGone⟩
  have hevent : ((oneGone (2 ^ 32 + 1)).counters ()).event = true := by
    rw [counters_oneGone (by decide)]
    decide
  simp only [step, if_pos hevent, Option.isSome_some]

end WaitableCounter

end DoClient
