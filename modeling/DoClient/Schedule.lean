/-
What `TaskQueue` is for, said apart from how it does it: a schedule, which
keeps what was added to it, knows of any two of its entries which goes first,
and gives out the first one once it is due, its delay counted in whole
milliseconds. The queue, whose only order is that of the time points it files
its operations under, does just that for every sequence of calls under a clock
that never goes back.
-/
import DoClient.TaskQueue

namespace DoClient

/-- A call of a queue. -/
inductive QueueCall (α τ : Type)
  | add (op : α) (delay : Int) (tag : Option τ)
  | addFront (op : α) (tag : Option τ)
  | remove (tag : Option τ)
  | exists_ (tag : Option τ)
  | popNextReady

/-- What a call answers. -/
inductive QueueAnswer (α τ : Type)
  | nothing
  | found (result : Bool)
  | popped (task : Option (Task α τ))
  deriving DecidableEq, Repr

namespace TaskQueue

variable {α τ : Type} [DecidableEq τ]

/-- One call, at a reading of the clock. No operation has the null tag. -/
def call (q : TaskQueue α τ) (now : Int) : QueueCall α τ → QueueAnswer α τ × TaskQueue α τ
  | .add op delay tag => (.nothing, q.add now op delay tag)
  | .addFront op tag => (.nothing, q.addFront now op tag)
  | .remove tag => (.nothing, match tag with | some tag => q.remove tag | none => q)
  | .exists_ tag => (.found (match tag with | some tag => q.exists_ tag | none => false), q)
  | .popNextReady =>
    match q.popNextReady now with
    | some (task, q) => (.popped (some task), q)
    | none => (.popped none, q)

/-- A sequence of calls, each with its reading of the clock. -/
def run (q : TaskQueue α τ) : List (Int × QueueCall α τ) → List (QueueAnswer α τ) × TaskQueue α τ
  | [] => ([], q)
  | c :: calls =>
    let (answer, q) := q.call c.1 c.2
    let (answers, q) := q.run calls
    (answer :: answers, q)

end TaskQueue

/-! ## The schedule -/

/-- An entry of a schedule: the how many-th it is, and when it is due if it was
not put in front. -/
structure ScheduleEntry (α τ : Type) where
  number : Nat
  due : Option Int
  task : Task α τ

namespace ScheduleEntry

variable {α τ : Type}

/-- What was put in front is due at once. -/
def Due (e : ScheduleEntry α τ) (now : Int) : Prop := ∀ t ∈ e.due, t ≤ now

/-- What was put in front goes before everything else, the last one first; the rest
goes by due time, and for one due time first in, first out. -/
def Before (e e' : ScheduleEntry α τ) : Prop :=
  match e.due, e'.due with
  | none, none => e'.number < e.number
  | none, some _ => True
  | some _, none => False
  | some t, some t' => t < t' ∨ t = t' ∧ e.number < e'.number

theorem Before.ne {e e' : ScheduleEntry α τ} (h : e.Before e') : e ≠ e' := by
  rintro rfl
  unfold Before at h
  split at h
  · exact lt_irrefl _ h
  · simp_all
  · exact h
  · next ht ht' =>
    rw [ht] at ht'
    obtain rfl := Option.some.inj ht'
    omega

end ScheduleEntry

/-- A schedule, and what has become of the entries made so far, newest first: they
wait, they were returned, or they were removed. -/
structure Schedule (α τ : Type) where
  made : List (ScheduleEntry α τ) := []
  waiting : Set (ScheduleEntry α τ) := ∅
  returned : List (ScheduleEntry α τ) := []
  removed : Set (ScheduleEntry α τ) := ∅

namespace Schedule

variable {α τ : Type}

/-- A new entry waits. -/
def make (s : Schedule α τ) (due : Option Int) (task : Task α τ) : Schedule α τ :=
  { s with
    made := ⟨s.made.length, due, task⟩ :: s.made
    waiting := insert ⟨s.made.length, due, task⟩ s.waiting }

/-- What is added now with a delay is due once the delay, if any, has gone by. -/
def exactDue (now delay : Int) : Int := now + max 0 delay

/-- The same, where a delay counts by the milliseconds that are whole. -/
def wholeDue (now delay : Int) : Int := now + max 0 delay / milliseconds 1 * milliseconds 1

/-- Entries leave by being returned, or by a removal of their tag. When an added one is
due is told by `dueAt`. -/
inductive Call (dueAt : Int → Int → Int) (now : Int) :
    Schedule α τ → QueueCall α τ → QueueAnswer α τ → Schedule α τ → Prop
  | add : Call dueAt now s (.add op delay tag) .nothing (make s (some (dueAt now delay)) ⟨op, tag⟩)
  | addFront : Call dueAt now s (.addFront op tag) .nothing (make s none ⟨op, tag⟩)
  | removeNull : Call dueAt now s (.remove none) .nothing s
  | remove : Call dueAt now s (.remove (some tag)) .nothing { s with
      waiting := {e ∈ s.waiting | e.task.tag ≠ some tag}
      removed := s.removed ∪ {e ∈ s.waiting | e.task.tag = some tag} }
  | existsNull : Call dueAt now s (.exists_ none) (.found false) s
  | exists_ : (result = true ↔ ∃ e ∈ s.waiting, e.task.tag = some tag) →
    Call dueAt now s (.exists_ (some tag)) (.found result) s
  | popped : e ∈ s.waiting → e.Due now → (∀ e' ∈ s.waiting, e' ≠ e → e.Before e') →
    Call dueAt now s .popNextReady (.popped (some e.task)) { s with
      waiting := s.waiting \ {e}, returned := e :: s.returned }
  | notDue : (∀ e ∈ s.waiting, ¬ e.Due now) → Call dueAt now s .popNextReady (.popped none) s

/-- The calls of a sequence, one after the other. -/
inductive Run (dueAt : Int → Int → Int) :
    Schedule α τ → List (Int × QueueCall α τ) → List (QueueAnswer α τ) → Schedule α τ → Prop
  | nil : Run dueAt s [] [] s
  | cons : Call dueAt now s c answer s' → Run dueAt s' calls answers s'' →
    Run dueAt s ((now, c) :: calls) (answer :: answers) s''

variable {s s' : Schedule α τ} {now : Int} {calls : List (Int × QueueCall α τ)}

/-- Every entry made is in one place, and was returned once at most; what was removed
was removed by a call that names its tag. -/
structure Accounted (s : Schedule α τ) (calls : List (Int × QueueCall α τ)) : Prop where
  numbered : ∀ e ∈ s.made, e.number < s.made.length
  distinct : s.made.Pairwise fun e e' => e'.number < e.number
  made : ∀ e, e ∈ s.made ↔ e ∈ s.waiting ∨ e ∈ s.returned ∨ e ∈ s.removed
  waiting : ∀ e ∈ s.waiting, e ∉ s.returned ∧ e ∉ s.removed
  once : s.returned.Nodup
  returned : ∀ e ∈ s.returned, e ∉ s.removed
  removed : ∀ e ∈ s.removed, ∃ now tag, (now, .remove (some tag)) ∈ calls ∧ e.task.tag = some tag

theorem accounted_empty : Accounted ({} : Schedule α τ) [] :=
  ⟨nofun, .nil, fun e => by simp, nofun, .nil, nofun, nofun⟩

theorem Accounted.mono (h : s.Accounted calls) {calls' : List (Int × QueueCall α τ)}
    (hcalls : ∀ c ∈ calls, c ∈ calls') : s.Accounted calls' := by
  refine ⟨h.numbered, h.distinct, h.made, h.waiting, h.once, h.returned, fun e he => ?_⟩
  obtain ⟨now, tag, hc, htag⟩ := h.removed e he
  exact ⟨now, tag, hcalls _ hc, htag⟩

theorem Accounted.make (h : s.Accounted calls) (due : Option Int) (task : Task α τ) :
    (s.make due task).Accounted calls := by
  have hnew : ∀ {e}, e ∈ s.made → e ≠ ⟨s.made.length, due, task⟩ := fun he heq => by
    have hlt := h.numbered _ he
    rw [heq] at hlt
    exact lt_irrefl _ hlt
  refine ⟨fun e he => ?_, List.pairwise_cons.2 ⟨h.numbered, h.distinct⟩, fun e => ?_, fun e he => ?_, h.once,
    h.returned, h.removed⟩
  · rcases List.mem_cons.1 he with rfl | he
    · simp [Schedule.make]
    · have hlt := h.numbered e he
      simp only [Schedule.make, List.length_cons]
      omega
  · simp only [Schedule.make, List.mem_cons, Set.mem_insert_iff, h.made, or_assoc]
  · rcases Set.mem_insert_iff.1 he with rfl | he
    · exact ⟨fun hr => hnew ((h.made _).2 (.inr (.inl hr))) rfl,
        fun hr => hnew ((h.made _).2 (.inr (.inr hr))) rfl⟩
    · exact h.waiting e he

theorem Accounted.call (h : s.Accounted calls) {dueAt : Int → Int → Int} {c : QueueCall α τ}
    {answer : QueueAnswer α τ} (hcall : Call dueAt now s c answer s') :
    s'.Accounted (calls ++ [(now, c)]) := by
  have hmore : s.Accounted (calls ++ [(now, c)]) := h.mono fun c hc => List.mem_append_left _ hc
  cases hcall with
  | add | addFront => exact hmore.make _ _
  | removeNull | existsNull | exists_ | notDue => exact hmore
  | @remove _ tag =>
    refine ⟨h.numbered, h.distinct, fun e => ?_, fun e he => ?_, h.once, fun e he hr => ?_, fun e he => ?_⟩
    · rw [h.made]
      by_cases htag : e.task.tag = some tag
      · simp only [Set.mem_ofPred_eq, htag, ne_eq, not_true, and_false, Set.mem_union, and_true]
        tauto
      · simp [htag]
    · obtain ⟨hw, htag⟩ := he
      refine ⟨(h.waiting e hw).1, fun hr => ?_⟩
      rcases hr with hr | ⟨-, hr⟩
      · exact (h.waiting e hw).2 hr
      · exact htag hr
    · rcases hr with hr | ⟨hw, -⟩
      · exact h.returned e he hr
      · exact (h.waiting e hw).1 he
    · rcases he with he | ⟨-, htag⟩
      · exact hmore.removed e he
      · exact ⟨now, tag, by simp, htag⟩
  | @popped e _ hw hdue hfirst =>
    refine ⟨h.numbered, h.distinct, fun e' => ?_, fun e' he' => ?_, ?_, fun e' he' => ?_, hmore.removed⟩
    · rw [h.made]
      by_cases heq : e' = e
      · simp [heq, hw]
      · simp [heq]
    · obtain ⟨hw', hne⟩ := he'
      refine ⟨fun hr => ?_, (h.waiting e' hw').2⟩
      rcases List.mem_cons.1 hr with rfl | hr
      · exact hne rfl
      · exact (h.waiting e' hw').1 hr
    · exact List.nodup_cons.2 ⟨(h.waiting e hw).1, h.once⟩
    · rcases List.mem_cons.1 he' with rfl | he'
      · exact (h.waiting e' hw).2
      · exact h.returned e' he'

/-! ## The queue keeps the schedule -/

variable {q : TaskQueue α τ} {l : List (Int × ScheduleEntry α τ)}

/-- The operations of the queue, with the keys they are filed under, are the waiting
entries in their order: an entry with a due time under that time, one put in front
under a time gone by. -/
structure Filed (s : Schedule α τ) (q : TaskQueue α τ) (now : Int)
    (l : List (Int × ScheduleEntry α τ)) : Prop where
  entries : q.ops.entries = l.map fun x => (x.1, x.2.task)
  waiting : ∀ e, e ∈ s.waiting ↔ e ∈ l.map (·.2)
  ordered : l.Pairwise fun x y => x.2.Before y.2
  due : ∀ x ∈ l, ∀ t ∈ x.2.due, x.1 = t
  front : ∀ x ∈ l, x.2.due = none → x.1 < now
  number : ∀ x ∈ l, x.2.number < s.made.length

theorem Filed.later (h : s.Filed q now l) {now' : Int} (hnow : now ≤ now') : s.Filed q now' l :=
  { h with front := fun x hx hdue => lt_of_lt_of_le (h.front x hx hdue) hnow }

/-- An entry is due when its key is. -/
theorem Filed.due_iff (h : s.Filed q now l) {x : Int × ScheduleEntry α τ} (hx : x ∈ l) :
    x.2.Due now ↔ x.1 ≤ now := by
  cases hdue : x.2.due with
  | none =>
    have hlt := h.front x hx hdue
    simp only [ScheduleEntry.Due, hdue, Option.not_mem_none, false_implies, implies_true, true_iff]
    omega
  | some t =>
    have hkey := h.due x hx t hdue
    simp [ScheduleEntry.Due, hdue, hkey]

theorem Filed.sorted (h : s.Filed q now l) : l.Pairwise fun x y => x.1 ≤ y.1 := by
  have hsorted := q.ops.sorted
  rw [h.entries, List.pairwise_map] at hsorted
  exact hsorted

theorem wholeDue_eq (now delay : Int) : wholeDue now delay = now + TaskQueue.adjustedDelay delay := by
  rw [wholeDue, TaskQueue.adjustedDelay_eq]

theorem Filed.add (h : s.Filed q now l) (op : α) (delay : Int) (tag : Option τ) :
    (s.make (some (wholeDue now delay)) ⟨op, tag⟩).Filed (q.add now op delay tag) now
      (Multimap.insertEntry (wholeDue now delay, ⟨s.made.length, some (wholeDue now delay), ⟨op, tag⟩⟩)
        l) := by
  have hlater : now ≤ wholeDue now delay := by
    have hnone := TaskQueue.adjustedDelay_nonneg delay
    rw [wholeDue_eq]
    omega
  refine ⟨?_, fun e => ?_, ?_, fun x hx t ht => ?_, fun x hx hdue => ?_, fun x hx => ?_⟩
  · rw [TaskQueue.add, Multimap.entries_insert, h.entries, Multimap.map_insertEntry ScheduleEntry.task,
      wholeDue_eq]
  · simp only [make, Set.mem_insert_iff, h.waiting, List.mem_map, Multimap.mem_insertEntry]
    constructor
    · rintro (rfl | ⟨x, hx, rfl⟩)
      · exact ⟨_, .inl rfl, rfl⟩
      · exact ⟨x, .inr hx, rfl⟩
    · rintro ⟨x, rfl | hx, rfl⟩
      · exact .inl rfl
      · exact .inr ⟨x, hx, rfl⟩
  · refine Multimap.insertEntry_pairwise h.ordered h.sorted (fun x hx hle => ?_) fun x hx hlt => ?_
    · have hnumber := h.number x hx
      cases hdue : x.2.due with
      | none => simp [ScheduleEntry.Before, hdue]
      | some t =>
        have hkey := h.due x hx t hdue
        simp only [ScheduleEntry.Before, hdue]
        omega
    · cases hdue : x.2.due with
      | none =>
        have hfront := h.front x hx hdue
        omega
      | some t =>
        have hkey := h.due x hx t hdue
        simp only [ScheduleEntry.Before, hdue]
        omega
  · rcases Multimap.mem_insertEntry.1 hx with rfl | hx
    · simpa using ht
    · exact h.due x hx t ht
  · rcases Multimap.mem_insertEntry.1 hx with rfl | hx
    · cases hdue
    · exact h.front x hx hdue
  · rcases Multimap.mem_insertEntry.1 hx with rfl | hx
    · simp [make]
    · have hlt := h.number x hx
      simp only [make, List.length_cons]
      omega

theorem Filed.addFront (h : s.Filed q now l) (op : α) (tag : Option τ) :
    ∃ key, (s.make none ⟨op, tag⟩).Filed (q.addFront now op tag) now
      ((key, ⟨s.made.length, none, ⟨op, tag⟩⟩) :: l) := by
  obtain ⟨key, hentries, hnow, -⟩ := TaskQueue.addFront_entries (q := q) now op tag
  refine ⟨key, ?_, fun e => ?_, ?_, fun x hx t ht => ?_, fun x hx hdue => ?_, fun x hx => ?_⟩
  · rw [hentries, h.entries]
    rfl
  · simp only [make, Set.mem_insert_iff, h.waiting, List.map_cons, List.mem_cons]
  · refine List.pairwise_cons.2 ⟨fun x hx => ?_, h.ordered⟩
    have hnumber := h.number x hx
    cases hdue : x.2.due with
    | none => simpa [ScheduleEntry.Before, hdue] using hnumber
    | some t => simp [ScheduleEntry.Before, hdue]
  · rcases List.mem_cons.1 hx with rfl | hx
    · cases ht
    · exact h.due x hx t ht
  · rcases List.mem_cons.1 hx with rfl | hx
    · exact hnow
    · exact h.front x hx hdue
  · rcases List.mem_cons.1 hx with rfl | hx
    · simp [make]
    · have hlt := h.number x hx
      simp only [make, List.length_cons]
      omega

/-- Of the operations some are left, those of the entries that wait still. -/
theorem Filed.leave (h : s.Filed q now l) {q' : TaskQueue α τ} {l' : List (Int × ScheduleEntry α τ)}
    (hsub : l'.Sublist l) (hq : q'.ops.entries = l'.map fun x => (x.1, x.2.task))
    (hmade : s'.made = s.made) (hw : ∀ e, e ∈ s'.waiting ↔ e ∈ l'.map (·.2)) : s'.Filed q' now l' :=
  ⟨hq, hw, h.ordered.sublist hsub, fun x hx => h.due x (hsub.subset hx),
    fun x hx => h.front x (hsub.subset hx), fun x hx => hmade ▸ h.number x (hsub.subset hx)⟩

variable [DecidableEq τ]

/-- What a pop answers is what the schedule gives out. -/
theorem Filed.popNextReady (h : s.Filed q now l) :
    ∃ s' l', Call wholeDue now s .popNextReady (q.call now .popNextReady).1 s' ∧
    s'.Filed (q.call now .popNextReady).2 now l' := by
  cases l with
  | nil =>
    have hnone : q.popNextReady now = none := by
      simp [TaskQueue.popNextReady, Multimap.first?, h.entries]
    have hcall : q.call now .popNextReady = (.popped none, q) := by rw [TaskQueue.call, hnone]
    rw [hcall]
    exact ⟨s, [], .notDue fun e he => by simpa using (h.waiting e).1 he, h⟩
  | cons x l =>
    have hfirst : q.ops.first? = some (x.1, x.2.task) := by simp [Multimap.first?, h.entries]
    by_cases hdue : x.1 ≤ now
    · have hcall : q.call now .popNextReady = (.popped (some x.2.task), ⟨q.ops.dropFirst⟩) := by
        simp [TaskQueue.call, TaskQueue.popNextReady, hfirst, hdue]
      obtain ⟨hbefore, -⟩ := List.pairwise_cons.1 h.ordered
      rw [hcall]
      refine ⟨_, l, .popped (e := x.2) ((h.waiting _).2 (by simp)) ((h.due_iff List.mem_cons_self).2 hdue)
        fun e he hne => ?_, h.leave (List.sublist_cons_self x l) (by simp [h.entries]) rfl fun e => ?_⟩
      · obtain ⟨y, hy, rfl⟩ := List.mem_map.1 ((h.waiting e).1 he)
        rcases List.mem_cons.1 hy with rfl | hy
        · exact absurd rfl hne
        · exact hbefore y hy
      · rw [Set.mem_sdiff, Set.mem_singleton_iff, h.waiting, List.map_cons, List.mem_cons]
        refine ⟨fun he => he.1.resolve_left he.2, fun he => ⟨.inr he, ?_⟩⟩
        obtain ⟨y, hy, rfl⟩ := List.mem_map.1 he
        exact (hbefore y hy).ne.symm
    · have hcall : q.call now .popNextReady = (.popped none, q) := by
        simp [TaskQueue.call, TaskQueue.popNextReady, hfirst, hdue]
      rw [hcall]
      refine ⟨s, x :: l, .notDue fun e he hd => ?_, h⟩
      obtain ⟨y, hy, rfl⟩ := List.mem_map.1 ((h.waiting e).1 he)
      have hle := (h.due_iff hy).1 hd
      rcases List.mem_cons.1 hy with rfl | hy
      · exact hdue hle
      · exact hdue (le_trans ((List.pairwise_cons.1 h.sorted).1 y hy) hle)

/-- Each call of the queue is one of the schedule. -/
theorem Filed.call (h : s.Filed q now l) (c : QueueCall α τ) :
    ∃ s' l', Call wholeDue now s c (q.call now c).1 s' ∧ s'.Filed (q.call now c).2 now l' := by
  cases c with
  | add op delay tag => exact ⟨_, _, .add, h.add op delay tag⟩
  | addFront op tag =>
    obtain ⟨key, hfiled⟩ := h.addFront op tag
    exact ⟨_, _, .addFront, hfiled⟩
  | remove tag =>
    cases tag with
    | none => exact ⟨s, l, .removeNull, h⟩
    | some tag =>
      refine ⟨_, l.filter fun x => x.2.task.tag != some tag, .remove,
        h.leave List.filter_sublist ?_ rfl fun e => ?_⟩
      · simp only [TaskQueue.call, TaskQueue.remove, Multimap.entries_keep, h.entries, List.filter_map]
        rfl
      · simp only [Set.mem_ofPred_eq, h.waiting, List.mem_map, List.mem_filter, bne_iff_ne, ne_eq]
        constructor
        · rintro ⟨⟨x, hx, rfl⟩, htag⟩
          exact ⟨x, ⟨hx, htag⟩, rfl⟩
        · rintro ⟨x, ⟨hx, htag⟩, rfl⟩
          exact ⟨⟨x, hx, rfl⟩, htag⟩
  | exists_ tag =>
    cases tag with
    | none => exact ⟨s, l, .existsNull, h⟩
    | some tag =>
      refine ⟨s, l, .exists_ ?_, h⟩
      simp only [TaskQueue.exists_, h.entries, List.any_map, List.any_eq_true,
        Function.comp_apply, beq_iff_eq, h.waiting, List.mem_map]
      constructor
      · rintro ⟨x, hx, htag⟩
        exact ⟨_, ⟨x, hx, rfl⟩, htag⟩
      · rintro ⟨_, ⟨x, hx, rfl⟩, htag⟩
        exact ⟨x, hx, htag⟩
  | popNextReady => exact h.popNextReady

/-- Each sequence of calls of the queue is one of the schedule. -/
theorem Filed.run (h : s.Filed q now l) {done : List (Int × QueueCall α τ)} (hacc : s.Accounted done)
    (calls : List (Int × QueueCall α τ)) (hclock : calls.Pairwise fun c c' => c.1 ≤ c'.1)
    (hnow : ∀ c ∈ calls, now ≤ c.1) :
    ∃ s' now' l', Run wholeDue s calls (q.run calls).1 s' ∧ s'.Accounted (done ++ calls) ∧
    s'.Filed (q.run calls).2 now' l' := by
  induction calls generalizing s q now l done with
  | nil => exact ⟨s, now, l, .nil, by simpa using hacc, h⟩
  | cons c calls ih =>
    obtain ⟨hfirst, hrest⟩ := List.pairwise_cons.1 hclock
    obtain ⟨s₁, l₁, hcall, hfiled⟩ := (h.later (hnow c List.mem_cons_self)).call c.2
    obtain ⟨s', now', l', hrun, haccounted, hleft⟩ := ih hfiled (hacc.call hcall) hrest hfirst
    refine ⟨s', now', l', .cons hcall hrun, ?_, hleft⟩
    simpa using haccounted

/-- **The queue is an ordered schedule.** Whatever is called of it, its answers are
those of the schedule whose delays count in whole milliseconds: a pop returns a task exactly
when one is due, and that is the one before all that wait. What was put in was returned once
at most, or removed by its tag, or is in the queue still, in order. -/
theorem queue_keeps_schedule (calls : List (Int × QueueCall α τ))
    (hclock : calls.Pairwise fun c c' => c.1 ≤ c'.1) :
    ∃ s : Schedule α τ, Run wholeDue {} calls (TaskQueue.empty.run calls).1 s ∧ s.Accounted calls ∧
      ∃ es : List (ScheduleEntry α τ), (∀ e, e ∈ s.waiting ↔ e ∈ es) ∧ es.Pairwise ScheduleEntry.Before ∧
        (TaskQueue.empty.run calls).2.tasks = es.map (·.task) := by
  have hempty : Filed ({} : Schedule α τ) .empty ((calls.map (·.1)).headD 0) [] :=
    ⟨rfl, fun e => by simp, .nil, nofun, nofun, nofun⟩
  have hnow : ∀ c ∈ calls, (calls.map (·.1)).headD 0 ≤ c.1 := by
    cases calls with
    | nil => exact nofun
    | cons c calls =>
      intro c' hc'
      rcases List.mem_cons.1 hc' with rfl | hc'
      · exact le_refl _
      · exact (List.pairwise_cons.1 hclock).1 c' hc'
  obtain ⟨s, now, l, hrun, hacc, hfiled⟩ := hempty.run accounted_empty calls hclock hnow
  refine ⟨s, hrun, hacc, l.map (·.2), hfiled.waiting, List.pairwise_map.2 hfiled.ordered, ?_⟩
  rw [TaskQueue.tasks, hfiled.entries]
  simp [Function.comp_def]

/-- An overdue operation, one due later, and two put in front of them. -/
def frontsFirst : List (Int × QueueCall Nat Nat) :=
  [(0, .add 1 (-5) none), (0, .add 2 9400000 none), (4000000, .addFront 3 none), (4000000, .addFront 4 none),
    (4000000, .popNextReady), (5000000, .popNextReady), (5000000, .popNextReady), (5000000, .popNextReady),
    (9000000, .popNextReady)]

theorem queue_keeps_schedule_frontsFirst :
    (TaskQueue.empty.run frontsFirst).1 = [.nothing, .nothing, .nothing, .nothing, .popped (some ⟨4, none⟩),
      .popped (some ⟨3, none⟩), .popped (some ⟨1, none⟩), .popped none, .popped (some ⟨2, none⟩)] ∧
      ∃ s : Schedule Nat Nat, Run wholeDue {} frontsFirst (TaskQueue.empty.run frontsFirst).1 s := by
  obtain ⟨s, hrun, -⟩ := queue_keeps_schedule frontsFirst (by decide)
  exact ⟨by decide, s, hrun⟩

/-- Delays of 1.9 and 1.0 milliseconds, and a pop after 1.5. -/
def cutShort : List (Int × QueueCall Nat Nat) :=
  [(0, .add 1 1900000 none), (0, .add 2 1000000 none), (1500000, .popNextReady)]

/-- The first one added is returned, before its delay has gone by and before the second, which
is due; with its delay uncut the schedule would have given out the second. -/
theorem exactDue_not_kept :
    (TaskQueue.empty.run cutShort).1 = [.nothing, .nothing, .popped (some ⟨1, none⟩)] ∧
      ¬ ∃ s : Schedule Nat Nat, Run exactDue {} cutShort (TaskQueue.empty.run cutShort).1 s := by
  have hanswers :
    (TaskQueue.empty.run cutShort).1 = [.nothing, .nothing, .popped (some ⟨1, none⟩)] := by decide
  refine ⟨hanswers, ?_⟩
  rintro ⟨s, hrun⟩
  rw [hanswers, cutShort] at hrun
  obtain _ | ⟨hadd, hrun⟩ := hrun
  obtain _ | ⟨hadd', hrun⟩ := hrun
  obtain _ | ⟨hpop, -⟩ := hrun
  cases hadd
  cases hadd'
  generalize hanswer : QueueAnswer.popped (some (⟨1, none⟩ : Task Nat Nat)) = answer at hpop
  cases hpop with
  | @popped e _ hw hdue =>
    -- of the two that wait the first is not due, and the second is another task
    simp only [make, Set.mem_insert_iff, Set.mem_empty_iff_false, or_false] at hw
    rcases hw with rfl | rfl
    · cases hanswer
    · exact absurd (hdue _ rfl) (by decide)
  | notDue => cases hanswer

end Schedule

end DoClient
