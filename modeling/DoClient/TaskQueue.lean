/-
`TaskQueue` (`threading/task_queue.cpp`): operations ordered by the time they
are due, those added for one time in the order they were added. `AddFront`
gives its operation a due time before everything queued.

A time point is the `steady_clock` reading in nanoseconds, an `Int`.
-/
import DoClient.Lib.Multimap

namespace DoClient

/-- `steady_clock::time_point::max()`. -/
def timePointMax : Int := 2 ^ 63 - 1

def milliseconds (n : Int) : Int := n * 1000000

def seconds (n : Int) : Int := milliseconds (n * 1000)

/-- An operation and the tag it can be removed by. -/
structure Task (α τ : Type) where
  op : α
  tag : Option τ
  deriving DecidableEq, Repr

structure TaskQueue (α τ : Type) where
  ops : Multimap Int (Task α τ)

namespace TaskQueue

variable {α τ : Type} (q : TaskQueue α τ)

def empty : TaskQueue α τ := ⟨.empty⟩

/-- The due time of the first operation, `time_point::max()` when there is none. -/
def nextTime : Int :=
  match q.ops.first? with
  | some e => e.1
  | none => timePointMax

/-- `duration_cast` to the milliseconds of `duration_t`, which cuts towards zero. -/
def toMilliseconds (delay : Int) : Int := milliseconds (delay.tdiv (milliseconds 1))

/-- `adjustedDelay` of `_Add`, a negative delay counting as none. -/
def adjustedDelay (delay : Int) : Int := max 0 (toMilliseconds delay)

/-- `Add`, with `_Add`: due the delay from `now`, cut to whole milliseconds. -/
def add (now : Int) (op : α) (delay : Int) (tag : Option τ) : TaskQueue α τ :=
  ⟨q.ops.insert (now + adjustedDelay delay) ⟨op, tag⟩⟩

/-- `_AddFront`: due before everything queued, and already. -/
def addFront (now : Int) (op : α) (tag : Option τ) : TaskQueue α τ :=
  let earliest := q.nextTime
  let opTime := if now < earliest then now - milliseconds 1 else earliest - milliseconds 1
  ⟨q.ops.insert opTime ⟨op, tag⟩⟩

/-- The first operation, if it is due, and the queue without it. -/
def popNextReady (now : Int) : Option (Task α τ × TaskQueue α τ) :=
  match q.ops.first? with
  | some e => if e.1 ≤ now then some (e.2, ⟨q.ops.dropFirst⟩) else none
  | none => none

/-- Removes the operations of a tag; those without a tag stay. -/
def remove [DecidableEq τ] (tag : τ) : TaskQueue α τ := ⟨q.ops.keep fun t => t.tag != some tag⟩

def exists_ [DecidableEq τ] (tag : τ) : Bool := q.ops.entries.any fun e => e.2.tag == some tag

/-- How many operations of a tag are queued. -/
def countTag [DecidableEq τ] (tag : τ) : Nat := q.ops.entries.countP fun e => e.2.tag == some tag

/-- The queued operations, first to last. -/
def tasks : List (Task α τ) := q.ops.entries.map (·.2)

/-! ## Delays -/

theorem adjustedDelay_nonneg (delay : Int) : 0 ≤ adjustedDelay delay := le_max_left _ _

theorem adjustedDelay_of_nonpos {delay : Int} (h : delay ≤ 0) : adjustedDelay delay = 0 := by
  have hcut : 0 ≤ (-delay).tdiv (milliseconds 1) := Int.tdiv_nonneg (by omega) (by decide)
  rw [Int.neg_tdiv] at hcut
  refine max_eq_left ?_
  simp only [toMilliseconds, milliseconds] at hcut ⊢
  omega

@[simp] theorem adjustedDelay_zero : adjustedDelay 0 = 0 := rfl

/-- Of a delay that is none too short the whole milliseconds are left. -/
theorem adjustedDelay_eq (delay : Int) :
    adjustedDelay delay = max 0 delay / milliseconds 1 * milliseconds 1 := by
  rcases le_total delay 0 with h | h
  · rw [adjustedDelay_of_nonpos h, max_eq_left h]
    rfl
  · have hcut : 0 ≤ delay / milliseconds 1 := Int.ediv_nonneg h (by decide)
    rw [adjustedDelay, toMilliseconds, Int.tdiv_eq_ediv_of_nonneg h, max_eq_right h]
    simp only [milliseconds] at hcut ⊢
    omega

theorem adjustedDelay_milliseconds {n : Int} (h : 0 ≤ n) :
    adjustedDelay (milliseconds n) = milliseconds n := by
  simp only [adjustedDelay_eq, milliseconds]
  omega

theorem adjustedDelay_seconds {n : Int} (h : 0 ≤ n) : adjustedDelay (seconds n) = seconds n :=
  adjustedDelay_milliseconds (by omega)

variable {q}

/-- What a pop returns: the first entry, due, and the rest of the queue. -/
theorem popNextReady_some {now : Int} {t : Task α τ} {q' : TaskQueue α τ}
    (h : q.popNextReady now = some (t, q')) :
    ∃ due rest, q.ops.entries = (due, t) :: rest ∧ due ≤ now ∧ q'.ops.entries = rest := by
  simp only [popNextReady, Multimap.first?] at h
  split at h
  · next e he =>
    split at h
    · next hdue =>
      simp only [Option.some.injEq, Prod.mk.injEq] at h
      obtain ⟨rfl, rfl⟩ := h
      obtain ⟨rest, hrest⟩ := List.head?_eq_some_iff.1 he
      exact ⟨e.1, rest, by rw [hrest], hdue, by simp [hrest]⟩
    · cases h
  · cases h

theorem tasks_popNextReady {now : Int} {t : Task α τ} {q' : TaskQueue α τ}
    (h : q.popNextReady now = some (t, q')) : q.tasks = t :: q'.tasks := by
  obtain ⟨due, rest, he, -, hr⟩ := popNextReady_some h
  simp [tasks, he, hr]

theorem tasks_remove [DecidableEq τ] (tag : τ) :
    (q.remove tag).tasks = q.tasks.filter fun t => t.tag != some tag := by
  simp only [remove, tasks, Multimap.entries_keep, List.filter_map]
  rfl

theorem remove_eq_self [DecidableEq τ] {tag : τ} (h : ∀ t ∈ q.tasks, t.tag ≠ some tag) :
    q.remove tag = q := by
  have hkeep : (q.ops.entries.filter fun e => e.2.tag != some tag) = q.ops.entries :=
    List.filter_eq_self.2 fun e he => bne_iff_ne.2 (h e.2 (List.mem_map_of_mem he))
  obtain ⟨⟨entries, sorted⟩⟩ := q
  simp only [remove, Multimap.keep, hkeep]

@[simp] theorem mem_tasks_add {now : Int} {op : α} {delay : Int} {tag : Option τ} {t : Task α τ} :
    t ∈ (q.add now op delay tag).tasks ↔ t = ⟨op, tag⟩ ∨ t ∈ q.tasks := by
  simp only [tasks, add, Multimap.entries_insert, List.mem_map, Multimap.mem_insertEntry]
  constructor
  · rintro ⟨e, rfl | he, rfl⟩
    · exact .inl rfl
    · exact .inr ⟨e, he, rfl⟩
  · rintro (rfl | ⟨e, he, rfl⟩)
    · exact ⟨_, .inl rfl, rfl⟩
    · exact ⟨e, .inr he, rfl⟩

/-- What was put in, and for when, can be told from the queue. -/
theorem entry_of_added {due due' : Int} {t t' : Task α τ}
    (h : (⟨q.ops.insert due t⟩ : TaskQueue α τ) = ⟨q.ops.insert due' t'⟩) : (due, t) = (due', t') :=
  Multimap.insertEntry_inj (congrArg (fun q : TaskQueue α τ => q.ops.entries) h)

theorem added_ne {due : Int} {t : Task α τ} : (⟨q.ops.insert due t⟩ : TaskQueue α τ) ≠ q := by
  intro h
  have hmore := Multimap.length_insertEntry (due, t) q.ops.entries
  have hsame := congrArg (fun q : TaskQueue α τ => q.ops.entries.length) h
  exact absurd (hmore.symm.trans hsame) (by omega)

theorem add_inj {now delay : Int} {op op' : α} {tag tag' : Option τ}
    (h : q.add now op delay tag = q.add now op' delay tag') : op = op' :=
  congrArg (·.2.op) (entry_of_added h)

theorem add_ne {now delay : Int} {op : α} {tag : Option τ} : q.add now op delay tag ≠ q := added_ne

/-- Before everything queued, and before now. -/
theorem addFront_entries (now : Int) (op : α) (tag : Option τ) :
    ∃ due, (q.addFront now op tag).ops.entries = (due, ⟨op, tag⟩) :: q.ops.entries ∧ due < now ∧
      ∀ e ∈ q.ops.entries, due < e.1 := by
  have hfirst : ∀ e ∈ q.ops.entries, q.nextTime ≤ e.1 := by
    intro e he
    unfold nextTime Multimap.first?
    cases hq : q.ops.entries with
    | nil => simp [hq] at he
    | cons b l =>
      have hsorted := q.ops.sorted
      rw [hq] at he hsorted
      rcases List.mem_cons.1 he with rfl | he
      · exact le_refl _
      · exact (List.pairwise_cons.1 hsorted).1 e he
  simp only [addFront]
  split
  · next hlt =>
    have hall : ∀ e ∈ q.ops.entries, now - milliseconds 1 < e.1 := fun e he => by
      have := hfirst e he
      simp only [milliseconds]; omega
    exact ⟨_, Multimap.insertEntry_front hall, by simp only [milliseconds]; omega, hall⟩
  · next hge =>
    have hall : ∀ e ∈ q.ops.entries, q.nextTime - milliseconds 1 < e.1 := fun e he => by
      have := hfirst e he
      simp only [milliseconds]; omega
    exact ⟨_, Multimap.insertEntry_front hall, by simp only [milliseconds]; omega, hall⟩

/-- An operation due, and before everything queued, is the next one. -/
theorem popNextReady_add {now t delay : Int} {op : α} {tag : Option τ}
    (hfirst : ∀ e ∈ q.ops.entries, now + adjustedDelay delay < e.1) (hdue : now + adjustedDelay delay ≤ t) :
    (q.add now op delay tag).popNextReady t = some (⟨op, tag⟩, q) := by
  have hentries :
    (q.add now op delay tag).ops.entries = (now + adjustedDelay delay, ⟨op, tag⟩) :: q.ops.entries :=
    Multimap.insertEntry_front hfirst
  have hrest : (⟨(q.add now op delay tag).ops.dropFirst⟩ : TaskQueue α τ) = q := by
    obtain ⟨⟨entries, sorted⟩⟩ := q
    simp only [Multimap.dropFirst, hentries, List.tail_cons]
  simp only [popNextReady, Multimap.first?, hentries, List.head?_cons, if_pos hdue, hrest]

/-- What was put in front is the next one. -/
theorem popNextReady_addFront (q : TaskQueue α τ) (now : Int) (op : α) (tag : Option τ) :
    (q.addFront now op tag).popNextReady now = some (⟨op, tag⟩, q) := by
  obtain ⟨due, hentries, hdue, -⟩ := addFront_entries (q := q) now op tag
  have hrest : (⟨(q.addFront now op tag).ops.dropFirst⟩ : TaskQueue α τ) = q := by
    obtain ⟨⟨entries, sorted⟩⟩ := q
    simp only [Multimap.dropFirst, hentries, List.tail_cons]
  simp only [popNextReady, Multimap.first?, hentries, List.head?_cons, if_pos hdue.le, hrest]

/-! ## Operations of a tag -/

section CountTag

variable [DecidableEq τ] {tag : τ}

theorem exists_iff : q.exists_ tag = true ↔ 0 < q.countTag tag := by
  simp [exists_, countTag, List.countP_pos_iff]

theorem countTag_add {now delay : Int} {op : α} {tag' : Option τ} :
    (q.add now op delay tag').countTag tag = q.countTag tag + if tag' = some tag then 1 else 0 := by
  simp [countTag, add, Multimap.countP_insertEntry]

theorem countTag_addFront {now : Int} {op : α} {tag' : Option τ} :
    (q.addFront now op tag').countTag tag = q.countTag tag + if tag' = some tag then 1 else 0 := by
  obtain ⟨due, hq, -, -⟩ := addFront_entries (q := q) now op tag'
  simp [countTag, hq, List.countP_cons]

theorem countTag_pop {now : Int} {t : Task α τ} {q' : TaskQueue α τ} (h : q.popNextReady now = some (t, q')) :
    q.countTag tag = q'.countTag tag + if t.tag = some tag then 1 else 0 := by
  obtain ⟨due, rest, he, -, hr⟩ := popNextReady_some h
  simp [countTag, he, hr, List.countP_cons]

@[simp] theorem countTag_remove : (q.remove tag).countTag tag = 0 := by
  refine List.countP_eq_zero.2 fun e he => ?_
  simp only [remove, Multimap.entries_keep, List.mem_filter] at he
  simpa using he.2

end CountTag

end TaskQueue

end DoClient
