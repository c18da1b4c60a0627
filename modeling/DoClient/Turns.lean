/-
How long a call waits. The operation of a call is due when it is queued, and what
comes to stand before it later is put there by a client, or by a download that
has nothing left to ask for: so while the call waits, each operation the task thread
runs brings it nearer.
-/
import DoClient.ServiceRuns

namespace DoClient

open Multimap Service

variable {uri : UriLib} {s s' s₀ : Service} {e : ServiceEvent} {c k : Nat} {q q' : ServiceQueue}

namespace ServiceQueue

/-- The entries before the operation a call waits for. -/
def before (c : Nat) (q : ServiceQueue) : List (Int × Task ServiceOp ServiceTag) :=
  q.ops.entries.takeWhile fun e => !e.2.op.isCall c

def shortcuts (q : ServiceQueue) : Nat := q.ops.entries.countP fun e => e.2.op.isShortcut

/-- How many operations can run before that of a call, when none is put in front: those that
stand there, and the shortcut each of them can leave. -/
def turns (c : Nat) (q : ServiceQueue) : Nat :=
  2 * ((q.before c).countP fun e => !e.2.op.isShortcut) + q.shortcuts

theorem before_eq {front back : List (Int × Task ServiceOp ServiceTag)} {e : Int × Task ServiceOp ServiceTag}
    (h : q.ops.entries = front ++ e :: back) (he : e.2.op.isCall c = true)
    (hfront : ∀ x ∈ front, x.2.op.isCall c = false) : q.before c = front := by
  rw [before, h, List.takeWhile_append_of_pos fun x hx => by simp [hfront x hx],
    List.takeWhile_cons_of_neg (by simp [he]), List.append_nil]

theorem before_split (h : q.countCall c = 1) : ∃ e back, q.ops.entries = q.before c ++ e :: back ∧
    e.2.op.isCall c = true ∧ ∀ x ∈ q.before c, x.2.op.isCall c = false := by
  obtain ⟨x, hx, hcall⟩ := List.countP_pos_iff.1 (show 0 < q.countCall c by omega)
  obtain ⟨e, back, hback⟩ : ∃ e back, (q.ops.entries.dropWhile fun e => !e.2.op.isCall c) = e :: back := by
    refine List.exists_cons_of_ne_nil fun hnil => ?_
    have hnone := List.dropWhile_eq_nil_iff.1 hnil x hx
    simp [hcall] at hnone
  refine ⟨e, back, ?_, ?_, fun x hx => ?_⟩
  · rw [before, ← hback, List.takeWhile_append_dropWhile]
  · have hhead := List.head_dropWhile_not (fun e : Int × Task ServiceOp ServiceTag => !e.2.op.isCall c)
      (l := q.ops.entries) (by simp [hback])
    simpa [hback] using hhead
  · simpa using List.mem_takeWhile_imp hx

theorem turns_le (c : Nat) (q : ServiceQueue) : q.turns c ≤ 2 * q.tasks.length := by
  have hsplit :=
    List.length_eq_countP_add_countP (fun e : Int × Task ServiceOp ServiceTag => e.2.op.isShortcut)
    (l := q.ops.entries)
  have hbefore : ((q.before c).countP fun e => !e.2.op.isShortcut) ≤
      q.ops.entries.countP fun e => !e.2.op.isShortcut := (List.takeWhile_sublist _).countP_le
  have hlength : q.tasks.length = q.ops.entries.length := List.length_map _
  simp only [Bool.not_eq_true, Bool.decide_eq_false] at hsplit
  rw [turns, shortcuts, hlength]
  omega

theorem isLambdaOf_of_isCall {op : ServiceOp} (h : op.isCall c = true) : op.isLambdaOf k = false := by
  cases op <;> first | rfl | cases h

/-- Entries, a download's lambdas apart. -/
theorem countP_apart (k : Nat) (p : Int × Task ServiceOp ServiceTag → Bool)
    (l : List (Int × Task ServiceOp ServiceTag)) : l.countP p =
      (l.filter fun e => !e.2.op.isLambdaOf k).countP p + l.countP fun e => e.2.op.isLambdaOf k && p e := by
  rw [List.countP_eq_countP_filter_add l p fun e => !e.2.op.isLambdaOf k, List.countP_filter (p := p)
    (q := fun e => !(!e.2.op.isLambdaOf k))]
  simp [Bool.and_comm]

/-! ## Operations of the queue -/

theorem mem_of_pop {now : Int} {t : Task ServiceOp ServiceTag} (h : q.popNextReady now = some (t, q'))
    {x : Int × Task ServiceOp ServiceTag} (hx : x ∈ q'.ops.entries) : x ∈ q.ops.entries := by
  obtain ⟨due, rest, hentries, -, hrest⟩ := TaskQueue.popNextReady_some h
  rw [hentries, ← hrest]
  exact List.mem_cons_of_mem _ hx

theorem turns_pop {now : Int} {t : Task ServiceOp ServiceTag} (h : q.popNextReady now = some (t, q'))
    (ht : t.op.isCall c = false) : q.turns c = q'.turns c + if t.op.isShortcut then 1 else 2 := by
  obtain ⟨due, rest, hentries, -, hrest⟩ := TaskQueue.popNextReady_some h
  rw [turns, turns, before, before, shortcuts, shortcuts, hentries, hrest,
    List.takeWhile_cons_of_pos (by simp [ht]), List.countP_cons, List.countP_cons]
  cases t.op.isShortcut <;> simp <;> omega

theorem turns_addFront {now : Int} {op : ServiceOp} {tag : Option ServiceTag} (hc : op.isCall c = false)
    (hop : op.isShortcut = false) : turns c (q.addFront now op tag) = q.turns c + 2 := by
  obtain ⟨due, hentries, -, -⟩ := TaskQueue.addFront_entries (q := q) now op tag
  rw [turns, turns, before, before, shortcuts, shortcuts, hentries,
    List.takeWhile_cons_of_pos (by simp [hc]), List.countP_cons, List.countP_cons]
  simp [hop]
  omega

/-- What keeps the places of what is due keeps the turns. -/
theorem turns_of_keeps {now : Int} (h : KeepsPlaces now (fun t : Task ServiceOp ServiceTag => t.op.isCall c)
      (fun t => !t.op.isShortcut) q.ops.entries q'.ops.entries)
    (hdue : ∀ e ∈ q'.ops.entries, e.2.op.isCall c = true → e.1 ≤ now) (hone : q'.countCall c = 1)
    (hshortcuts : q'.shortcuts ≤ q.shortcuts) : q'.turns c ≤ q.turns c := by
  obtain ⟨e, back, hentries, he, hfront⟩ := before_split hone
  obtain ⟨front₀, back₀, hq, hstays, hle⟩ :=
    h _ _ _ hentries he (hdue e (by rw [hentries]; simp) he)
  have hnone : front₀.countP (fun e => e.2.op.isCall c) = 0 :=
    hstays.symm.trans (List.countP_eq_zero.2 fun x hx => by simp [hfront x hx])
  have hbefore := before_eq hq he fun x hx => by simpa using List.countP_eq_zero.1 hnone x hx
  rw [turns, turns, hbefore]
  simp only at hle
  omega

end ServiceQueue

/-- The operation of a call was there before a download acted. -/
theorem Placed.mem_of_isCall {now : Int} (h : Placed k now q q') {x : Int × Task ServiceOp ServiceTag}
    (hx : x ∈ q'.ops.entries) (hc : x.2.op.isCall c = true) : x ∈ q.ops.entries := by
  have hmem : x ∈ q'.ops.entries.filter fun e => !e.2.op.isLambdaOf k :=
    List.mem_filter.2 ⟨hx, by simp [ServiceQueue.isLambdaOf_of_isCall hc]⟩
  rw [h.others] at hmem
  exact List.mem_of_mem_filter hmem

/-- A download that acts puts nothing before what is due but a shortcut. -/
theorem Placed.turns {now : Int} {n : Nat} (h : Placed k now q q')
    (hdue : ∀ e ∈ q.ops.entries, e.2.op.isCall c = true → e.1 ≤ now) (hone : q'.countCall c = 1)
    (hle : q'.shortcutsOf k ≤ q.shortcutsOf k + n) : q'.turns c ≤ q.turns c + n := by
  obtain ⟨e, back, hentries, he, hfront⟩ := ServiceQueue.before_split hone
  have hmem : e ∈ q'.ops.entries := by rw [hentries]; simp
  obtain ⟨front₀, back₀, hq, hsame, hbehind⟩ := h.places _ _ _ hentries (ServiceQueue.isLambdaOf_of_isCall he)
    (hdue e (h.mem_of_isCall hmem he) he)
  have hbefore := ServiceQueue.before_eq hq he fun x hx => by
    by_contra hcall
    have hcall : x.2.op.isCall c = true := by simpa using hcall
    have hx' : x ∈ front₀.filter fun e => !e.2.op.isLambdaOf k :=
      List.mem_filter.2 ⟨hx, by simp [ServiceQueue.isLambdaOf_of_isCall hcall]⟩
    rw [← hsame] at hx'
    exact absurd (hcall.symm.trans (hfront x (List.mem_of_mem_filter hx'))) Bool.noConfusion
  have hcount := ServiceQueue.countP_apart k (fun e => !e.2.op.isShortcut) (q'.before c)
  have hcount₀ := ServiceQueue.countP_apart k (fun e => !e.2.op.isShortcut) front₀
  have hall := ServiceQueue.countP_apart k (fun e => e.2.op.isShortcut) q'.ops.entries
  have hall₀ := ServiceQueue.countP_apart k (fun e => e.2.op.isShortcut) q.ops.entries
  rw [hsame] at hcount
  rw [h.others] at hall
  simp only [ServiceQueue.shortcutsOf] at hle
  rw [ServiceQueue.turns, ServiceQueue.turns, hbefore, ServiceQueue.shortcuts, ServiceQueue.shortcuts]
  omega

theorem Placed.countCall {now : Int} (h : Placed k now q q') (c : Nat) : q'.countCall c = q.countCall c := by
  have happart := fun l => ServiceQueue.countP_apart k (fun e => e.2.op.isCall c) l
  have hnone : ∀ l : List (Int × Task ServiceOp ServiceTag),
      (l.countP fun e => e.2.op.isLambdaOf k && e.2.op.isCall c) = 0 := fun l =>
    List.countP_eq_zero.2 fun e _ => by cases e.2.op <;> simp [ServiceOp.isLambdaOf, ServiceOp.isCall]
  rw [ServiceQueue.countCall, ServiceQueue.countCall, happart q'.ops.entries, happart q.ops.entries, h.others,
    hnone, hnone]

/-! ## What a step makes of the queue -/

def ServiceEvent.isRun : ServiceEvent → Bool
  | .run _ => true
  | _ => false

/-- The event puts an operation in front of the queue: that of any call but a status, or the manager's own. -/
def Service.putsInFront (s : Service) : ServiceEvent → Bool
  | .sched c => (s.calls c).any fun call => call.request != .download .getStatus
  | .refreshAdminConfigs => true
  | _ => false

/-- What an event makes of the queue. A download that acts does so in a callback of its transfer or
when one of its operations runs; an operation that is nobody's is run as one that leaves the queue alone. -/
inductive Requeues (s s' : Service) : ServiceEvent → Prop
  | kept {e : ServiceEvent} : s'.taskQ = s.taskQ → e.isRun = false → s.putsInFront e = false → Requeues s s' e
  | removed {e : ServiceEvent} {p : Int × Task ServiceOp ServiceTag → Bool} :
    s'.taskQ.ops.entries = s.taskQ.ops.entries.filter p →
    (∀ e ∈ s.taskQ.ops.entries, ∀ c, e.2.op.isCall c = true → p e = true) → e.isRun = false →
    s.putsInFront e = false → Requeues s s' e
  | added {e : ServiceEvent} {op : ServiceOp} :
    s'.taskQ = s.taskQ.add s.now op 0 none → op.isShortcut = false → e.isRun = false →
    s.putsInFront e = false → Requeues s s' e
  | front {e : ServiceEvent} {op : ServiceOp} {tag : Option ServiceTag} :
    s'.taskQ = s.taskQ.addFront s.now op tag → op.isShortcut = false → e.isRun = false →
    s.putsInFront e = true → Requeues s s' e
  | called {e : ServiceEvent} {k : Nat} :
    Placed k s.now s.taskQ s'.taskQ → s'.taskQ.shortcutsOf k = s.taskQ.shortcutsOf k →
    e.isRun = false → s.putsInFront e = false → Requeues s s' e
  | ran {o : Outside} {t : Task ServiceOp ServiceTag} {q : ServiceQueue} {k : Nat} :
    s.taskQ.popNextReady s.now = some (t, q) → Placed k s.now q s'.taskQ →
    s'.taskQ.shortcutsOf k ≤ q.shortcutsOf k + (if t.op.isShortcut then 0 else 1) → Requeues s s' (.run o)

/-- The operations calls wait for are due. -/
def Service.Due (s : Service) : Prop := ∀ e ∈ s.taskQ.ops.entries, ∀ c, e.2.op.isCall c = true → e.1 ≤ s.now

theorem Requeues.due (h : Requeues s s' e) (hdue : s.Due) (hnow : s.now ≤ s'.now) : s'.Due := by
  have hstays :
    (∀ e ∈ s'.taskQ.ops.entries, ∀ c, e.2.op.isCall c = true → e ∈ s.taskQ.ops.entries ∨ e.1 ≤ s.now) →
      s'.Due := fun hmem x hx c hc => ((hmem x hx c hc).elim (hdue x · c hc) id).trans hnow
  have hplaced : ∀ {k q}, Placed k s.now q s'.taskQ → (∀ e ∈ q.ops.entries, e ∈ s.taskQ.ops.entries) →
      s'.Due := fun {k q} hp hq => hstays fun x hx c hc => .inl (hq x (hp.mem_of_isCall hx hc))
  cases h with
  | kept hq => exact hstays fun x hx c hc => .inl (hq ▸ hx)
  | removed hq => exact hstays fun x hx c hc => .inl (List.mem_of_mem_filter (hq ▸ hx))
  | added hq =>
    refine hstays fun x hx c hc => ?_
    rw [hq] at hx
    rcases mem_insertEntry.1 hx with rfl | hx
    · exact .inr (by simp)
    · exact .inl hx
  | front hq =>
    refine hstays fun x hx c hc => ?_
    obtain ⟨due, hentries, hlt, -⟩ := TaskQueue.addFront_entries (q := s.taskQ) s.now _ _
    rw [hq, hentries] at hx
    rcases List.mem_cons.1 hx with rfl | hx
    · exact .inr hlt.le
    · exact .inl hx
  | called hp => exact hplaced hp fun _ => id
  | ran hpop hp => exact hplaced hp fun x hx => ServiceQueue.mem_of_pop hpop hx

/-- **One step**: an operation that runs brings a call that waits nearer, one put in front takes it back. -/
theorem Requeues.turns (h : Requeues s s' e) (hdue : s.Due) (hone : s.taskQ.countCall c = 1)
    (hone' : s'.taskQ.countCall c = 1) : s'.taskQ.turns c + (if e.isRun then 1 else 0) ≤
    s.taskQ.turns c + if s.putsInFront e then 2 else 0 := by
  cases h with
  | kept hq he hf => simp [hq, he, hf]
  | removed hq hp he hf =>
    rw [he, hf]
    have hmem : ∀ e ∈ s'.taskQ.ops.entries, e.2.op.isCall c = true → e.1 ≤ s.now := fun x hx hc =>
      hdue x (List.mem_of_mem_filter (hq ▸ hx)) c hc
    refine ServiceQueue.turns_of_keeps
      (hq ▸ (KeepsPlaces.refl s.now _ _ _).filter fun x hx hc => hp x hx c hc) hmem
      hone' ?_
    rw [ServiceQueue.shortcuts, ServiceQueue.shortcuts, hq]
    exact List.filter_sublist.countP_le
  | @added e op hq hop he hf =>
    rw [he, hf]
    have hc : op.isCall c = false := by
      by_contra hcall
      rw [hq, ServiceQueue.countCall_add, hone] at hone'
      simp [hcall] at hone'
    have hentries : s'.taskQ.ops.entries =
        insertEntry (s.now + TaskQueue.adjustedDelay 0, ⟨op, none⟩) s.taskQ.ops.entries := by rw [hq]; rfl
    have hkeeps :
      KeepsPlaces s.now (fun t : Task ServiceOp ServiceTag => t.op.isCall c) (fun t => !t.op.isShortcut)
        s.taskQ.ops.entries s'.taskQ.ops.entries := by
      rw [hentries]
      exact (KeepsPlaces.refl _ _ _ _).insertEntry s.taskQ.ops.sorted hc (by simp)
    refine ServiceQueue.turns_of_keeps hkeeps (fun x hx hcall => ?_) hone' ?_
    · rw [hentries] at hx
      rcases mem_insertEntry.1 hx with rfl | hx
      · simp
      · exact hdue x hx c hcall
    · rw [ServiceQueue.shortcuts, ServiceQueue.shortcuts, hentries, countP_insertEntry]
      simp [hop]
  | @front e op tag hq hop he hf =>
    rw [he, hf, hq]
    have hc : op.isCall c = false := by
      by_contra hcall
      rw [hq, ServiceQueue.countCall_addFront, hone] at hone'
      simp [hcall] at hone'
    exact (ServiceQueue.turns_addFront hc hop).le
  | called hp hs he hf =>
    rw [he, hf]
    exact hp.turns (fun x hx => hdue x hx c) hone' hs.le
  | @ran o t q k hpop hp hs =>
    have hcount := ServiceQueue.countCall_pop hpop c
    have ht : t.op.isCall c = false := by
      by_contra hcall
      rw [hp.countCall] at hone'
      simp [hcall] at hcount
      omega
    have hpopped := ServiceQueue.turns_pop hpop ht
    have hrun := hp.turns (c := c) (fun x hx => hdue x (ServiceQueue.mem_of_pop hpop hx) c) hone' hs
    cases hshortcut : t.op.isShortcut <;> simp [hshortcut] at hpopped hrun <;>
      simp [ServiceEvent.isRun, Service.putsInFront] <;> omega

theorem placed_self (k : Nat) (now : Int) (q : ServiceQueue) : Placed k now q q :=
  ⟨rfl, fun front _ back h _ _ => ⟨front, back, h, rfl, le_rfl⟩⟩

/-- An operation a call waits for cannot be removed by a tag. -/
theorem Service.Queued.tag_none {t : Task ServiceOp ServiceTag} (h : s.Queued t) (hc : t.op.isCall c = true) :
    t.tag = none := by
  cases h with
  | lambda | refreshAdminConfigs => cases hc
  | call => rfl

theorem requeues_of_step (h : s.Sound uri) (hallowed : s.Allows e)
    (hstep : (service uri).step s e = some s') :
    s.now ≤ s'.now ∧ Requeues s s' e := by
  obtain ⟨hlive, hsteps⟩ := steps_of_step hstep
  cases hsteps with
  | tick => exact ⟨by simp, .kept rfl rfl rfl⟩
  | isIdle | wake | destroyed | drain => exact ⟨le_rfl, .kept rfl rfl rfl⟩
  | refreshAdminConfigs => exact ⟨le_rfl, .front rfl rfl rfl rfl⟩
  | create =>
    simp only [Service.createDownload]
    repeat' split
    all_goals exact ⟨le_rfl, .kept rfl rfl rfl⟩
  | call =>
    unfold Service.beginCall
    split <;> exact ⟨le_rfl, .kept rfl rfl rfl⟩
  | @sched c call hc hstate =>
    refine ⟨le_rfl, ?_⟩
    by_cases hr : call.request = .download .getStatus
    · exact .added (if_pos hr) rfl rfl (by simp [Service.putsInFront, hc, hr])
    · exact .front (if_neg hr) rfl rfl (by simp [Service.putsInFront, hc, hr])
  | run hpop =>
    rcases h.run_cases hlive hpop hallowed rfl with ⟨hq, hnow, -, -⟩ | ⟨k, d, d', -, hacts, hle⟩
    · refine ⟨hnow.ge, .ran (k := 0) hpop ?_ ?_⟩
      · rw [hq]
        exact placed_self 0 _ _
      · rw [hq]
        exact Nat.le_add_right _ _
    · exact ⟨hacts.now.ge, .ran hpop hacts.places hle⟩
  | @leave c call result hc hstate =>
    unfold Service.endCall Service.release
    split
    · exact ⟨le_rfl, .kept rfl rfl rfl⟩
    · refine ⟨le_rfl, .removed (p := fun e => e.2.tag != some (.object call.key .download) &&
        e.2.tag != some (.object call.key .progressTracker)) ?_ (fun x hx c hcall => ?_) rfl rfl⟩
      · simp only [cancelTasks, TaskQueue.remove, entries_keep, List.filter_filter, Service.setCall]
        exact List.filter_congr fun _ _ => Bool.and_comm _ _
      · have htag := (h.scheduled.queue x.2 (List.mem_map_of_mem hx)).tag_none hcall
        simp [htag]
  | curl hk hv =>
    obtain ⟨-, hacts, hsame⟩ := (h.apart.alone _ _ hk).curlEvent hlive hv
    exact ⟨le_rfl, .called hacts.places hsame rfl rfl⟩

theorem due_of_runs (h : Service.Runs uri s) : s.Due := by
  refine (h.invariant (fun s => s.Sound uri ∧ s.Due) (fun s hi => ⟨.init hi, ?_⟩)
    fun s e s' hs hallowed hstep => ?_).2
  · obtain ⟨now, fs, rfl⟩ := hi
    exact fun e he => by cases he
  · obtain ⟨hnow, hqueue⟩ := requeues_of_step hs.1 hallowed hstep
    exact ⟨hs.1.step hallowed hstep, hqueue.due hs.2 hnow⟩

/-! ## Calls that wait -/

def CallState.isWaiting : CallState → Bool
  | .waiting => true
  | _ => false

/-- `SchedBlock` waits for the operation of a call. -/
def Service.Waits (s : Service) (c : Nat) : Prop := ∃ call, s.calls c = some call ∧ call.state = .waiting

theorem waits_iff : s.Waits c ↔ ((s.calls c).any fun call => call.state.isWaiting) = true := by
  unfold Service.Waits
  cases s.calls c with
  | none => simp
  | some call => cases hstate : call.state <;> simp [CallState.isWaiting, hstate]

instance : Decidable (s.Waits c) := decidable_of_iff _ waits_iff.symm

theorem Service.Waits.countCall (hw : s.Waits c) (h : s.Sound uri) : s.taskQ.countCall c = 1 := by
  obtain ⟨call, hc, hstate⟩ := hw
  exact h.scheduled.waiting c call hc hstate

/-- While a call waits the task thread has an operation to run. -/
theorem Service.Waits.pop (hw : s.Waits c) (h : Service.Runs uri s) :
    ∃ t q, s.taskQ.popNextReady s.now = some (t, q) := by
  obtain ⟨e, back, hentries, he, -⟩ := ServiceQueue.before_split (hw.countCall (sound_of_runs h))
  have hready : e.1 ≤ s.now := due_of_runs h e (by rw [hentries]; simp) c he
  have hsorted := s.taskQ.ops.sorted
  cases hq : s.taskQ.ops.entries with
  | nil => simp [hq] at hentries
  | cons x l =>
    have hfirst : x.1 ≤ s.now := by
      have hmem : e ∈ x :: l := by rw [← hq, hentries]; simp
      rw [hq] at hsorted
      rcases List.mem_cons.1 hmem with rfl | hmem
      · exact hready
      · exact ((List.pairwise_cons.1 hsorted).1 e hmem).trans hready
    exact ⟨x.2, ⟨s.taskQ.ops.dropFirst⟩,
      by simp only [TaskQueue.popNextReady, first?, hq, List.head?_cons, if_pos hfirst]⟩

/-- A run in which a call waits throughout. -/
theorem turns_of_path (h : Service.Runs uri s₀) (hwaits : s₀.Waits c)
    {ms : List (Trans.Move Service ServiceEvent)} (hp : Trans.Path (service uri) s₀ ms s)
    (hallowed : ∀ m ∈ ms, m.src.Allows m.ev) (hstill : ∀ m ∈ ms, m.dst.Waits c) :
    (Service.Runs uri s ∧ s.Waits c) ∧ (ms.countP fun m => m.ev.isRun) + s.taskQ.turns c ≤
      s₀.taskQ.turns c + 2 * (ms.countP fun m => m.src.putsInFront m.ev) := by
  induction hp with
  | nil => exact ⟨⟨h, hwaits⟩, by simp⟩
  | @snoc ms s₁ e s₂ hp hstep ih =>
    obtain ⟨⟨hruns, hw⟩, hle⟩ := ih (fun m hm => hallowed m (List.mem_append_left _ hm))
      fun m hm => hstill m (List.mem_append_left _ hm)
    have ha : s₁.Allows e := hallowed ⟨s₁, e, s₂⟩ (by simp)
    have hw' : s₂.Waits c := hstill ⟨s₁, e, s₂⟩ (by simp)
    have hruns' : Service.Runs uri s₂ := .step hruns ha hstep
    have hone := (requeues_of_step (sound_of_runs hruns) ha hstep).2.turns (due_of_runs hruns)
      (hw.countCall (sound_of_runs hruns)) (hw'.countCall (sound_of_runs hruns'))
    refine ⟨⟨hruns', hw'⟩, ?_⟩
    simp only [List.countP_append, List.countP_singleton]
    cases hrun : e.isRun <;> cases hfront : s₁.putsInFront e <;> simp [hrun, hfront] at hone ⊢ <;> omega

/-- **A call waits for its turn, and no longer**: while it waits the task thread always has an operation
to run, and runs no more of them than can come before that of the call, at most two for each that was queued,
and two for each that is put in front meanwhile. -/
theorem waits_its_turn (h : Service.Runs uri s₀) (hwaits : s₀.Waits c)
    {ms : List (Trans.Move Service ServiceEvent)} (hp : Trans.Path (service uri) s₀ ms s)
    (hallowed : ∀ m ∈ ms, m.src.Allows m.ev) (hstill : ∀ m ∈ ms, m.dst.Waits c) :
    (s.terminated = false → ∀ o, ((service uri).step s (.run o)).isSome = true) ∧
      (ms.countP fun m => m.ev.isRun) ≤
        s₀.taskQ.turns c + 2 * (ms.countP fun m => m.src.putsInFront m.ev) ∧
      s₀.taskQ.turns c ≤ 2 * s₀.taskQ.tasks.length := by
  obtain ⟨⟨hruns, hw⟩, hle⟩ := turns_of_path h hwaits hp hallowed hstill
  refine ⟨fun hlive o => ?_, Nat.le_of_add_right_le hle, ServiceQueue.turns_le c s₀.taskQ⟩
  obtain ⟨t, q, hpop⟩ := hw.pop hruns
  simp [service, Service.step, hlive, hpop]

/-- A start waits, and another one comes before it. -/
theorem waits_its_turn_started : ∃ s₀ s₁ s₂ : Service, s₀.Waits 0 ∧
    (s₂.terminated = false → ∀ o, ((service plainUri).step s₂ (.run o)).isSome = true) ∧
    ([(⟨s₀, .sched 1, s₁⟩ : Trans.Move Service ServiceEvent), ⟨s₁, .run {}, s₂⟩].countP fun m => m.ev.isRun) ≤
      s₀.taskQ.turns 0 + 2 * ([(⟨s₀, .sched 1, s₁⟩ : Trans.Move Service ServiceEvent),
        ⟨s₁, .run {}, s₂⟩].countP fun m => m.src.putsInFront m.ev) ∧
    s₀.taskQ.turns 0 ≤ 2 * s₀.taskQ.tasks.length := by
  have hrun : ((((service plainUri).restrict Service.Allows).runFrom emptyService [
      .create guidA "http://origin/a" "/a", .create guidB "http://origin/b" "/b",
      .call (guidToString guidA) (.download .start), .call (guidToString guidB) (.download .start),
      .sched 0]).bind fun s₀ =>
        (((service plainUri).restrict Service.Allows).step s₀ (.sched 1)).bind fun s₁ =>
        (((service plainUri).restrict Service.Allows).step s₁ (.run {})).map fun s₂ =>
          (decide (s₀.Waits 0), decide (s₁.Waits 0), decide (s₂.Waits 0))) = some (true, true, true) := by
    decide +kernel
  obtain ⟨s₀, hs₀, hrest⟩ := Option.bind_eq_some_iff.1 hrun
  obtain ⟨s₁, hs₁, hrest⟩ := Option.bind_eq_some_iff.1 hrest
  obtain ⟨s₂, hs₂, hwaits⟩ := Option.map_eq_some_iff.1 hrest
  simp only [Prod.mk.injEq, decide_eq_true_eq] at hwaits
  obtain ⟨hp, hallowed⟩ := ((Trans.Path.nil.snoc hs₁).snoc hs₂).of_restrict
  exact ⟨s₀, s₁, s₂, hwaits.1, waits_its_turn (runs_of_replay hs₀) hwaits.1 hp hallowed
    (by simpa using hwaits.2)⟩

end DoClient
