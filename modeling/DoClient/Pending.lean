/-
What is queued for a download: the status updates its callbacks scheduled,
which are applied in the order they were scheduled, and the operations put in
front of the queue, which go before all others.
-/
import DoClient.Download

namespace DoClient

/-- The tag an operation is queued with. -/
def Op.tag : Op → Option Tag
  | .client _ => none
  | .foreign => some .other
  | .progressCheck => some .progressTracker
  | _ => some .download

/-- An operation of the download's own: a lambda that `_CancelTasks` takes out. -/
def Op.own (op : Op) : Bool := op.tag == some .download || op.tag == some .progressTracker

/-- An operation that is put in front of the queue. -/
def Op.atFront : Op → Bool
  | .client _ | .foreign | .alreadyTransferred => true
  | _ => false

/-- A status update a callback has scheduled. -/
inductive Update
  | headers (bytesTotal : Nat)
  | data (cbData : Nat)
  | completed
  | failed
  deriving DecidableEq, Repr

def Op.update : Op → Option Update
  | .headersUpdate _ bytesTotal _ => some (.headers bytesTotal)
  | .dataUpdate cbData => some (.data cbData)
  | .transferCompleted => some .completed
  | .transferFailed .. => some .failed
  | _ => none

namespace TaskQueue

/-- The updates queued, first to last. -/
def updates (q : TaskQueue Op Tag) : List Update := q.ops.entries.filterMap fun e => e.2.op.update

/-- How often an operation is queued. -/
def count (q : TaskQueue Op Tag) (op : Op) : Nat := q.ops.entries.countP fun e => e.2.op == op

/-- No operation of the download's own is queued. -/
def Idle (q : TaskQueue Op Tag) : Prop := ∀ e ∈ q.ops.entries, e.2.op.own = false

/-- How the download's operations lie in the queue at time `now`. -/
structure Orderly (now : Int) (q : TaskQueue Op Tag) : Prop where
  tags : ∀ e ∈ q.ops.entries, e.2.tag = e.2.op.tag
  due : ∀ e ∈ q.ops.entries, e.2.op.update ≠ none → e.1 ≤ now
  early : ∀ e ∈ q.ops.entries, e.2.op = .alreadyTransferred → e.1 < now
  front : q.ops.entries.Pairwise fun a b => b.2.op = .alreadyTransferred → a.2.op.atFront = true
  failure :
    ∀ e ∈ q.ops.entries, ∀ hr hc code headers, e.2.op = .transferFailed hr hc code headers → failed hr = true

variable {q q' : TaskQueue Op Tag} {now delay : Int} {op : Op} {tag : Option Tag}

/-! ## Idle queues -/

theorem updates_of_idle (h : q.Idle) : q.updates = [] := by
  refine List.filterMap_eq_nil_iff.2 fun e he => ?_
  have := h e he
  cases hop : e.2.op <;> simp_all [Op.own, Op.tag, Op.update]

theorem count_of_idle (h : q.Idle) (op : Op) (hown : op.own = true) : q.count op = 0 := by
  refine List.countP_eq_zero.2 fun e he heq => ?_
  rw [beq_iff_eq] at heq
  rw [← heq, h e he] at hown
  cases hown

/-! ## Taking the first operation -/

section Pop
variable {t : Task Op Tag} (h : q.popNextReady now = some (t, q'))
include h

theorem updates_pop : q.updates = t.op.update.toList ++ q'.updates := by
  obtain ⟨due, rest, he, -, hr⟩ := popNextReady_some h
  cases hu : t.op.update <;> simp [updates, he, hr, hu]

theorem count_pop : q.count op = q'.count op + if t.op = op then 1 else 0 := by
  obtain ⟨due, rest, he, -, hr⟩ := popNextReady_some h
  simp [count, he, hr, List.countP_cons]

theorem mem_of_mem_pop {e : Int × Task Op Tag} (he : e ∈ q'.ops.entries) : e ∈ q.ops.entries := by
  obtain ⟨due, rest, hq, -, hr⟩ := popNextReady_some h
  rw [hq, ← hr]
  exact List.mem_cons_of_mem _ he

theorem exists_of_pop : ∃ due, due ≤ now ∧ (due, t) ∈ q.ops.entries := by
  obtain ⟨due, rest, hq, hdue, -⟩ := popNextReady_some h
  exact ⟨due, hdue, by simp [hq]⟩

theorem Idle.pop (hi : q.Idle) : q'.Idle := fun e he => hi e (mem_of_mem_pop h he)

theorem Orderly.pop (ho : q.Orderly now) : q'.Orderly now := by
  obtain ⟨due, rest, hq, -, hr⟩ := popNextReady_some h
  have hfront := ho.front
  rw [hq] at hfront
  exact ⟨fun e he => ho.tags e (mem_of_mem_pop h he), fun e he => ho.due e (mem_of_mem_pop h he),
    fun e he => ho.early e (mem_of_mem_pop h he), hr ▸ hfront.of_cons,
    fun e he => ho.failure e (mem_of_mem_pop h he)⟩

/-- Behind an operation that is not one for the front there is no `alreadyTransferred`. -/
theorem Orderly.noShortcut (ho : q.Orderly now) (hop : t.op.atFront = false) :
    q.count .alreadyTransferred = 0 := by
  obtain ⟨due, rest, hq, -, -⟩ := popNextReady_some h
  have hfront := ho.front
  rw [hq] at hfront
  refine List.countP_eq_zero.2 fun e he heq => ?_
  rw [beq_iff_eq] at heq
  rw [hq] at he
  rcases List.mem_cons.1 he with rfl | he
  · simp only at heq; rw [heq] at hop; cases hop
  · rw [(List.pairwise_cons.1 hfront).1 e he heq] at hop
    cases hop

end Pop

/-! ## Time passes -/

theorem Orderly.later {later : Int} (ho : q.Orderly now) (h : now ≤ later) : q.Orderly later :=
  ⟨ho.tags, fun e he hu => le_trans (ho.due e he hu) h,
    fun e he hs => lt_of_lt_of_le (ho.early e he hs) h, ho.front, ho.failure⟩

/-! ## Adding -/

theorem mem_add {e : Int × Task Op Tag} :
    e ∈ (q.add now op delay tag).ops.entries ↔ e = (now + TaskQueue.adjustedDelay delay, ⟨op, tag⟩) ∨
    e ∈ q.ops.entries :=
  Multimap.mem_insertEntry

theorem updates_add_none (op : Op) (hu : op.update = none) : (q.add now op delay tag).updates = q.updates :=
  Multimap.filterMap_insertEntry_none hu _

/-- An update scheduled without delay comes after all those queued. -/
theorem updates_add (ho : q.Orderly now) {u : Update} (hu : op.update = some u) :
    (q.add now op 0 tag).updates = q.updates ++ [u] := by
  refine Multimap.filterMap_insertEntry_last hu _ q.ops.sorted fun e he hne => ?_
  have := ho.due e he hne
  simpa using this

theorem count_add {op' : Op} :
    (q.add now op delay tag).count op' = q.count op' + if op = op' then 1 else 0 := by
  simp [count, add, Multimap.countP_insertEntry]

theorem Idle.add (hi : q.Idle) (hop : op.own = false) : (q.add now op delay tag).Idle := fun e he => by
  rcases mem_add.1 he with rfl | he
  · exact hop
  · exact hi e he

theorem Orderly.add (ho : q.Orderly now) (htag : tag = op.tag) (hdue : op.update ≠ none → delay ≤ 0)
    (hop : op ≠ .alreadyTransferred)
    (hfail : ∀ hr hc code headers, op = .transferFailed hr hc code headers → failed hr = true) :
    (q.add now op delay tag).Orderly now := by
  refine ⟨fun e he => ?_, fun e he hu => ?_, fun e he hs => ?_, ?_, fun e he => ?_⟩
  · rcases mem_add.1 he with rfl | he
    exacts [htag, ho.tags e he]
  · rcases mem_add.1 he with rfl | he
    · simp [adjustedDelay_of_nonpos (hdue hu)]
    · exact ho.due e he hu
  · rcases mem_add.1 he with rfl | he
    exacts [absurd hs hop, ho.early e he hs]
  · -- the new entry is due no earlier than now, the operations for the front before
    have hfront := ho.front
    have hearly := ho.early
    have hnone := adjustedDelay_nonneg delay
    have hsorted := q.ops.sorted
    simp only [TaskQueue.add, Multimap.entries_insert]
    generalize q.ops.entries = l at hfront hearly hsorted
    induction l with
    | nil => simp [Multimap.insertEntry]
    | cons b l ih =>
      obtain ⟨hb, hl⟩ := List.pairwise_cons.1 hfront
      obtain ⟨hle, hsorted⟩ := List.pairwise_cons.1 hsorted
      rw [Multimap.insertEntry_cons]
      split
      · next hlt =>
        refine List.pairwise_cons.2 ⟨fun e he hs => ?_, hfront⟩
        have hdue : b.1 ≤ e.1 := by
          rcases List.mem_cons.1 he with rfl | he
          exacts [le_refl _, hle e he]
        have := hearly e he hs
        simp only at hlt; omega
      · refine List.pairwise_cons.2
          ⟨fun e he hs => ?_, ih hl (fun e he => hearly e (List.mem_cons_of_mem _ he)) hsorted⟩
        rcases Multimap.mem_insertEntry.1 he with rfl | he
        · exact absurd hs hop
        · exact hb e he hs
  · rcases mem_add.1 he with rfl | he
    exacts [hfail, ho.failure e he]

/-! ## Adding in front -/

theorem mem_addFront {e : Int × Task Op Tag} (he : e ∈ (q.addFront now op tag).ops.entries) :
    (∃ due, due < now ∧ e = (due, ⟨op, tag⟩)) ∨ e ∈ q.ops.entries := by
  obtain ⟨due, hq, hdue, -⟩ := addFront_entries (q := q) now op tag
  rw [hq] at he
  rcases List.mem_cons.1 he with rfl | he
  exacts [.inl ⟨due, hdue, rfl⟩, .inr he]

theorem updates_addFront (op : Op) (hu : op.update = none) : (q.addFront now op tag).updates = q.updates := by
  obtain ⟨due, hq, -, -⟩ := addFront_entries (q := q) now op tag
  simp [updates, hq, hu]

theorem count_addFront {op' : Op} :
    (q.addFront now op tag).count op' = q.count op' + if op = op' then 1 else 0 := by
  obtain ⟨due, hq, -, -⟩ := addFront_entries (q := q) now op tag
  simp [count, hq, List.countP_cons]

theorem Idle.addFront (hi : q.Idle) (hop : op.own = false) : (q.addFront now op tag).Idle := fun e he => by
  rcases mem_addFront he with ⟨due, -, rfl⟩ | he
  exacts [hop, hi e he]

theorem Orderly.addFront (ho : q.Orderly now) (htag : tag = op.tag) (hop : op.atFront = true) :
    (q.addFront now op tag).Orderly now := by
  have hu : op.update = none := by cases op <;> simp_all [Op.atFront, Op.update]
  refine ⟨fun e he => ?_, fun e he hne => ?_, fun e he hs => ?_, ?_, fun e he hr hc code headers hf => ?_⟩
  · rcases mem_addFront he with ⟨due, -, rfl⟩ | he
    exacts [htag, ho.tags e he]
  · rcases mem_addFront he with ⟨due, -, rfl⟩ | he
    exacts [absurd hu hne, ho.due e he hne]
  · rcases mem_addFront he with ⟨due, hdue, rfl⟩ | he
    exacts [hdue, ho.early e he hs]
  · obtain ⟨due, hq, -, -⟩ := addFront_entries (q := q) now op tag
    rw [hq]
    exact List.pairwise_cons.2 ⟨fun _ _ _ => hop, ho.front⟩
  · rcases mem_addFront he with ⟨due, -, rfl⟩ | he
    · simp only at hf; rw [hf] at hop; cases hop
    · exact ho.failure e he hr hc code headers hf

/-! ## Removing -/

theorem Orderly.remove {tag : Tag} (ho : q.Orderly now) : (q.remove tag).Orderly now :=
  ⟨fun e he => ho.tags e (List.mem_of_mem_filter he), fun e he => ho.due e (List.mem_of_mem_filter he),
    fun e he => ho.early e (List.mem_of_mem_filter he), ho.front.filter _,
    fun e he => ho.failure e (List.mem_of_mem_filter he)⟩

/-- `_CancelTasks` takes out all of the download's own. -/
theorem Orderly.idle_remove (ho : q.Orderly now) : ((q.remove .download).remove .progressTracker).Idle := by
  intro e he
  simp only [TaskQueue.remove, Multimap.entries_keep, List.mem_filter, bne_iff_ne, ne_eq] at he
  obtain ⟨⟨he, hd⟩, hp⟩ := he
  rw [ho.tags e he] at hd hp
  simp [Op.own, hd, hp]

end TaskQueue

end DoClient
