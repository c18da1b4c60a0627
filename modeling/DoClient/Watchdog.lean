/-
The watch over a download at work: a progress check is queued for it, one and
no more, or the task is that completes a resume with all bytes there.
-/
import DoClient.Effects

namespace DoClient

open HResult

variable {uri : UriLib} {o : Outside} {w w' : World} {e : Event}

/-- The progress checks queued: the tasks with the tag of the progress tracker. -/
def World.checks (w : World) : Nat := w.taskQ.countTag .progressTracker

/-- The tasks queued that complete a resume with all bytes there. -/
def World.shortcuts (w : World) : Nat := w.taskQ.count .alreadyTransferred

/-- No more than one check is queued, and a download at work has one or is about to be completed. -/
structure Watched (w : World) : Prop where
  single : w.checks ≤ 1
  watched : w.dl.status.state = .transferring → w.checks = 1 ∨ 0 < w.shortcuts

/-! ## The queue -/

theorem countTag_checkedQueue (h : w.checks ≤ 1) : w.checkedQueue.countTag .progressTracker = 1 := by
  unfold World.checkedQueue
  split
  · next hex =>
    have hpos := TaskQueue.exists_iff.1 hex
    have hle : w.taskQ.countTag .progressTracker ≤ 1 := h
    omega
  · next hex =>
    have hzero : w.taskQ.countTag .progressTracker = 0 := by
      by_contra hne
      exact hex (TaskQueue.exists_iff.2 (Nat.pos_of_ne_zero hne))
    rw [TaskQueue.countTag_add, if_pos rfl, hzero]

/-- Nothing the watch depends on changes. -/
theorem Watched.same (h : Watched w) (hq : w'.taskQ = w.taskQ)
    (hs : w'.dl.status.state = .transferring → w.dl.status.state = .transferring) : Watched w' := by
  obtain ⟨hsingle, hwatched⟩ := h
  simp only [World.checks, World.shortcuts, ← hq] at hsingle hwatched
  exact ⟨hsingle, fun ht => hwatched (hs ht)⟩

/-- A download not at work needs no check. -/
theorem watched_of_rest (hc : w.checks ≤ 1) (hs : w.dl.status.state ≠ .transferring) : Watched w :=
  ⟨hc, fun ht => absurd ht hs⟩

/-- Another task of the download comes into the queue. -/
theorem checks_add {op : Op} {delay : Int} :
    (w.taskQ.add w.now op delay (some .download)).countTag .progressTracker = w.checks := by
  rw [TaskQueue.countTag_add, if_neg nofun]
  rfl

/-! ## Tasks -/

/-- What a task leaves is watched; `w` is the world with the task taken out. -/
theorem Ran.watched {op : Op} (hran : Ran uri o w op w')
    (hsingle : w.checks + (if op = .progressCheck then 1 else 0) ≤ 1)
    (hwatched : w.dl.status.state = .transferring → op ≠ .progressCheck → op ≠ .alreadyTransferred →
      w.checks = 1 ∨ 0 < w.shortcuts) (ht : w'.terminated = false) : Watched w' := by
  have hle : w.checks ≤ 1 := Nat.le_of_add_right_le hsingle
  have hkeep : op ≠ .progressCheck → op ≠ .alreadyTransferred → Watched w :=
    fun hp ha => ⟨hle, fun hs => hwatched hs hp ha⟩
  cases hran with
  | idle hu ha hp =>
    by_cases hop : op = .progressCheck
    · exact watched_of_rest hle (hp hop)
    · exact hkeep hop ha
  | createFailed | openFailed | failedFatalOpen | timedOutOpen => cases ht
  | sendFailed hc hd =>
    obtain ⟨_, _, _, _, _, _, _, rfl⟩ := hd.rerouted
    cases hc with
    | start _ _ hset | resume _ _ hset =>
      obtain ⟨_, _, _, _, _, _, _, rfl⟩ := hset.rerouted
      exact (hkeep (by simp) (by simp)).same rfl id
    | timer | retry => exact (hkeep (by simp) (by simp)).same rfl id
  | sent =>
    have hone := countTag_checkedQueue hle
    exact ⟨Nat.le_of_eq hone, fun _ => .inl hone⟩
  | skipped =>
    refine ⟨?_, fun _ => .inr ?_⟩
    · simpa [World.checks, TaskQueue.countTag_addFront] using hle
    · simp [World.shortcuts, TaskQueue.count_addFront]
  | paused | abortedOpen | completed | alreadyTransferred | failedFatal | timedOut =>
    exact watched_of_rest hle (by rintro ⟨⟩)
  | closeFailed | urlSet | pathSet | timeoutSet | headers | data | foreign =>
    exact (hkeep (by simp) (by simp)).same rfl id
  | finalized | aborted =>
    have hzero : w.cancelTasks.taskQ.countTag .progressTracker = 0 := by simp [World.cancelTasks]
    exact watched_of_rest (hzero.trans_le (Nat.zero_le 1)) (by rintro ⟨⟩)
  | failedOffline | timerOffline => exact watched_of_rest (checks_add.trans_le hle) (by rintro ⟨⟩)
  | failedRetry =>
    have hkept := hkeep (by simp) (by simp)
    refine ⟨checks_add.trans_le hle, fun hs => (hkept.watched hs).imp checks_add.trans fun hpos => ?_⟩
    simpa [World.shortcuts, TaskQueue.count_add] using hpos
  | checked =>
    have hone := countTag_checkedQueue hle
    exact ⟨Nat.le_of_eq hone, fun _ => .inl hone⟩

/-! ## Steps -/

theorem Watched.run (h : Watched w) (hg : Good uri w) (o : Outside) {task : Task Op Tag}
    {q : TaskQueue Op Tag} (hpop : w.taskQ.popNextReady w.now = some (task, q))
    (ht : (runTask uri o task.op { w with taskQ := q }).terminated = false) :
    Watched (runTask uri o task.op { w with taskQ := q }) := by
  obtain ⟨due, -, hmem⟩ := TaskQueue.exists_of_pop hpop
  have htag : task.tag = task.op.tag := hg.orderly.tags _ hmem
  have hchecks : w.checks = q.countTag .progressTracker + if task.op = .progressCheck then 1 else 0 := by
    rw [World.checks, TaskQueue.countTag_pop hpop, htag]
    cases task.op <;> simp [Op.tag]
  have hshortcuts :
    w.shortcuts = q.count .alreadyTransferred + if task.op = .alreadyTransferred then 1 else 0 :=
    TaskQueue.count_pop hpop
  obtain ⟨w₁, replies, hran, hrun⟩ := runTask_ran (o := o) (hg.popped hpop) (hg.issued_of_own hmem)
  rw [hrun] at ht ⊢
  refine (hran.watched (hchecks ▸ h.single) (fun hs hp ha => ?_) ht).same rfl id
  have hwatched := h.watched hs
  rw [hchecks, if_neg hp, hshortcuts, if_neg ha] at hwatched
  exact hwatched

theorem Watched.curl (h : Watched w) (hg : Good uri w) {c : CurlEvent} (hstep : curlEvent w c = some w') :
    Watched w' := by
  have hsched :
    ∀ {us : List Update} {q : TaskQueue Op Tag} {w' : World}, Schedules w.now us w.taskQ q → w'.taskQ = q →
      w'.dl.status = w.dl.status → Watched w' := by
    rintro us q w' hq rfl hs
    exact ⟨hq.checks.trans_le h.single,
      fun ht => (h.watched (hs ▸ ht)).imp hq.checks.trans fun hpos => hpos.trans_eq hq.shortcuts.symm⟩
  cases c with
  | status code =>
    simp only [curlEvent, Option.bind_eq_some_iff] at hstep
    obtain ⟨t, -, hstep⟩ := hstep
    split at hstep
    · cases hstep
    simp only [Option.some.injEq] at hstep
    subst hstep
    exact h.same rfl id
  | header line =>
    simp only [curlEvent, Option.map_eq_some_iff] at hstep
    obtain ⟨t, -, rfl⟩ := hstep
    exact h.same rfl id
  | write chunk out indeterminate =>
    simp only [curlEvent, Option.bind_eq_some_iff] at hstep
    obtain ⟨t, ht, hstep⟩ := hstep
    have hne := hg.issued_of_outstanding (outstanding_of_active ht)
    obtain ⟨a, ha, -⟩ := hg.handle (outstanding_of_active ht)
    split at hstep
    · cases hstep
    next hguard =>
    rw [not_or, Nat.not_lt] at hguard
    obtain ⟨a₁, hr, bytesTotal, q, fs, n, ok, hrun, -, -, -, -, -, -, -, hq, -⟩ :=
      writeCallback_run ha hg.orderly (hg.stream hne) t.responseCode hguard.2 out indeterminate
    simp only [hrun, Option.some.injEq] at hstep
    subst hstep
    exact hsched hq rfl rfl
  | complete curlResult indeterminate =>
    simp only [curlEvent, Option.bind_eq_some_iff] at hstep
    obtain ⟨t, ht, hstep⟩ := hstep
    obtain ⟨a, ha, -⟩ := hg.handle (outstanding_of_active ht)
    split at hstep
    · cases hstep
    simp only [Option.some.injEq] at hstep
    subst hstep
    rcases completeCallback_run ha hg.orderly t.responseCode curlResult indeterminate with
      ⟨-, hrun⟩ | ⟨a₁, hr, bytesTotal, q, ok, hrun, -, -, -, hq⟩
    · rw [hrun]
      exact h.same rfl id
    · rw [hrun]
      exact hsched hq rfl rfl

theorem Watched.step (h : Watched w) (hg : Good uri w) (hstep : DoClient.step uri w e = some w')
    (ht : w'.terminated = false) : Watched w' := by
  have hqueue : ∀ {q : TaskQueue Op Tag}, q.countTag .progressTracker = w.checks →
    q.count .alreadyTransferred = w.shortcuts →
      Watched { w with taskQ := q } := fun hc hs =>
    ⟨hc.trans_le h.single, fun ht => (h.watched ht).imp hc.trans fun hpos => hpos.trans_eq hs.symm⟩
  unfold DoClient.step at hstep
  split at hstep
  · cases hstep
  cases e with
  | tick | drain =>
    simp only [Option.some.injEq] at hstep
    subst hstep
    exact h.same rfl id
  | request r =>
    simp only [Option.some.injEq] at hstep
    subst hstep
    cases r <;>
    exact hqueue (by simp [TaskQueue.countTag_add, TaskQueue.countTag_addFront, World.checks])
      (by simp [TaskQueue.count_add, TaskQueue.count_addFront, World.shortcuts])
  | foreign front delay =>
    simp only [Option.some.injEq] at hstep
    subst hstep
    cases front <;>
    exact hqueue (by simp [TaskQueue.countTag_add, TaskQueue.countTag_addFront, World.checks])
      (by simp [TaskQueue.count_add, TaskQueue.count_addFront, World.shortcuts])
  | run o =>
    simp only [Option.map_eq_some_iff] at hstep
    obtain ⟨⟨task, q⟩, hpop, rfl⟩ := hstep
    exact h.run hg o hpop ht
  | curl c => exact h.curl hg hstep

theorem watched_initial (h : Initial uri w) : Watched w := by
  obtain ⟨url, path, -, hdl⟩ := h.download
  refine watched_of_rest ?_ (by rw [hdl]; nofun)
  have hzero : w.checks = 0 := by
    refine List.countP_eq_zero.2 fun e he => ?_
    rw [h.taskQ e.2 (List.mem_map_of_mem he)]
    decide
  exact hzero.trans_le (Nat.zero_le 1)

/-- **The watch never ends**: between two tasks of an agent that runs, a download has one progress
check queued at most, and one at work has one or is about to be completed. -/
theorem download_is_watched (hr : Trans.Reachable (agent uri) w) (ht : w.terminated = false) :
    w.checks ≤ 1 ∧ (w.dl.status.state = .transferring → w.checks = 1 ∨ 0 < w.shortcuts) := by
  have hinv : w.terminated = false → Watched w := by
    refine hr.invariant_of (Good uri) (fun _ => good_reachable) (fun w => w.terminated = false → Watched w)
      (fun _ hi _ => watched_initial hi) fun w e w' hg _ hw _ hstep ht => ?_
    exact (hw (step_leads hg hstep).1).step hg hstep ht
  exact ⟨(hinv ht).single, (hinv ht).watched⟩

theorem download_is_watched_started :
    ∃ w, (agent plainUri).runFrom newDownload [.request .start, .run {}] = some w ∧
    w.checks ≤ 1 ∧ (w.dl.status.state = .transferring → w.checks = 1 ∨ 0 < w.shortcuts) := by
  have hrun :
    ((agent plainUri).runFrom newDownload [.request .start, .run {}]).map (·.terminated) = some false := by
    decide +kernel
  obtain ⟨w, hw, ht⟩ := Option.map_eq_some_iff.1 hrun
  exact ⟨w, hw, download_is_watched (Trans.reachable_of_runFrom reachable_newDownload hw) ht⟩

end DoClient
