/-
What each task of the task thread leaves of the world, in full: one case for
each way its operation can end. The invariants that concern more than the life
cycle are cases over these.
-/
import DoClient.Steps

namespace DoClient

open HResult

variable {uri : UriLib} {o : Outside} {w w' : World}

/-- The queue with a progress check in it. -/
def World.checkedQueue (w : World) : TaskQueue Op Tag :=
  if w.taskQ.exists_ .progressTracker then w.taskQ
  else w.taskQ.add w.now .progressCheck (seconds progressTrackerCheckInterval) (some .progressTracker)

theorem schedProgressTracking_eq (w : World) :
    schedProgressTracking w = { w with taskQ := w.checkedQueue } := by
  unfold schedProgressTracking World.checkedQueue
  split <;> rfl

/-- The worlds in which an operation calls `_SendHttpRequest`, and whether as a retry. -/
inductive Calls (o : Outside) (w : World) : Op → Bool → World → Prop
  | start {d} : w.dl.status.state = .created → w.CanStart o → SetUp w o.mccHost (w.fallbackDue o) d →
    d.httpAgent = some {} → Calls o w (.client .start) false { w with
      fs := Function.update w.fs w.dl.destFilePath (some []), created := w.dl.destFilePath :: w.created
      curl := {}, dl := { d with fileStream := some w.dl.destFilePath, fDestFileCreated := true } }
  | resume {d} : w.dl.status.state = .paused →
    ¬ (w.dl.status.bytesTotal ≠ 0 ∧ w.dl.status.bytesTransferred = w.dl.status.bytesTotal) →
    SetUp w (if w.dl.fAllowMcc then o.mccHost else w.dl.mccHost) w.dl.mccFallbackDue d →
    d.httpAgent = w.dl.httpAgent →
    Calls o w (.client .start) false { w with dl := { d with fileStream := some w.dl.destFilePath } }
  | timer :
    o.hasViableInterface = true → w.dl.status.isTransientError = true → Calls o w .transientTimer false w
  | retry : w.dl.status.state = .transferring → w.dl.fHttpRequestActive = false → Calls o w .retry true w

/-- What an operation leaves, but for the replies. -/
inductive Ran (uri : UriLib) (o : Outside) (w : World) : Op → World → Prop
  | idle {op} : op.update = none → op ≠ .alreadyTransferred →
    (op = .progressCheck → w.dl.status.state ≠ .transferring) → Ran uri o w op w
  | createFailed : w.dl.status.state = .created → Ran uri o w (.client .start) { w with
      fs := Function.update w.fs w.dl.destFilePath (some []), created := w.dl.destFilePath :: w.created
      terminated := true }
  | openFailed : w.dl.status.state = .paused → Ran uri o w (.client .start) { w with terminated := true }
  | sendFailed {op retry decided w₀ d n terminated} : Calls o w op retry w₀ → Routed uri retry decided w₀ d →
    Ran uri o w op { w₀ with dl := d, overlaps := n, terminated := terminated }
  | sent {op retry w₀ d r n} : Calls o w op retry w₀ → Routed uri retry true w₀ d → Asks uri retry w₀ r →
    Ran uri o w op { w₀ with
      dl := { d.requestSent with status := w.dl.status.transferring }
      curl := { w₀.curl with toAdd := some r.transfer }
      requests := r :: w.requests, overlaps := n, taskQ := w.checkedQueue }
  | skipped : w.dl.status.state = .paused → Ran uri o w (.client .start) { w with
      dl := { w.dl with fileStream := some w.dl.destFilePath, status := w.dl.status.transferring }
      taskQ := w.taskQ.addFront w.now .alreadyTransferred (some .download) }
  | paused {c} : w.dl.status.state = .transferring → Closed w.curl c → Ran uri o w (.client .pause) { w with
      curl := c
      dl :=
        { w.dl with
          fHttpRequestActive := false, fileStream := none, status := w.dl.status.paused S_OK S_OK } }
  | closeFailed {r c} : r = .pause ∨ r = .finalize → Closed w.curl c → Ran uri o w (.client r) { w with
      curl := c, dl := { w.dl with fHttpRequestActive := false } }
  | finalized {c} : Closed w.curl c → Ran uri o w (.client .finalize) { w with
      curl := c, taskQ := w.cancelTasks.taskQ
      dl := { w.dl with fHttpRequestActive := false, fileStream := none, status := w.dl.status.finalized } }
  | aborted {c fs removed} : Closed w.curl c → Ran uri o w (.client .abort) { w with
      curl := c, taskQ := w.cancelTasks.taskQ, fs := fs, removed := removed
      dl := { w.dl with fileStream := none, status := w.dl.status.aborted } }
  | abortedOpen {c} : Closed w.curl c → Ran uri o w (.client .abort) { w with
      curl := c, dl := { w.dl with status := w.dl.status.aborted } }
  | urlSet {value tracker proxyList} : tracker = w.dl.progressTracker ∨ tracker = w.dl.progressTracker.reset →
    Ran uri o w (.client (.setProperty .uri value)) { w with
      dl := { w.dl with url := value, progressTracker := tracker, proxyList := proxyList } }
  | pathSet {value} :
    w.dl.status.state = .created → Ran uri o w (.client (.setProperty .localPath value)) { w with
      dl := { w.dl with destFilePath := value } }
  | timeoutSet {value timeout} : progressTrackerCheckInterval ≤ timeout →
    Ran uri o w (.client (.setProperty .noProgressTimeoutSeconds value)) { w with
      dl := { w.dl with noProgressTimeout := timeout } }
  | headers {code bytesTotal text} :
    Ran uri o w (.headersUpdate code bytesTotal text) { w with dl := { w.dl with
      httpStatusCode := code, responseHeaders := text,
      status := { w.dl.status with bytesTotal := bytesTotal } } }
  | data {cbData} : Ran uri o w (.dataUpdate cbData) { w with dl := { w.dl with
      status := { w.dl.status with bytesTransferred := wrap64 (w.dl.status.bytesTransferred + cbData) } } }
  | completed : Ran uri o w .transferCompleted { w with dl := { w.dl with
      fHttpRequestActive := false, status := w.dl.status.transferred } }
  | alreadyTransferred : Ran uri o w .alreadyTransferred { w with dl := { w.dl with
      status := w.dl.status.transferred } }
  | failedOffline {hr hc code text mcc} : Ran uri o w (.transferFailed hr hc code text) { w with
      mcc := mcc, taskQ := w.taskQ.add w.now .transientTimer (seconds 30) (some .download)
      dl := { w.dl with
        fHttpRequestActive := false, httpStatusCode := code, responseHeaders := text
        status := w.dl.status.paused S_OK DO_E_BLOCKED_BY_NO_NETWORK } }
  | failedFatal {hr hc code text mcc c} :
    Closed w.curl c → Ran uri o w (.transferFailed hr hc code text) { w with
      mcc := mcc, curl := c
      dl := { w.dl with
        fHttpRequestActive := false, httpStatusCode := code, responseHeaders := text, fileStream := none
        status := w.dl.status.paused (hrErrorToReport hr hc) S_OK } }
  | failedFatalOpen {hr hc code text mcc c} :
    Closed w.curl c → Ran uri o w (.transferFailed hr hc code text) { w with
      mcc := mcc, curl := c, terminated := true
      dl := { w.dl with fHttpRequestActive := false, httpStatusCode := code, responseHeaders := text } }
  | failedRetry {hr hc code text mcc nextRetryDelay delay} :
    Ran uri o w (.transferFailed hr hc code text) { w with
      mcc := mcc, taskQ := w.taskQ.add w.now .retry delay (some .download)
      dl := { w.dl with
        fHttpRequestActive := false, httpStatusCode := code, responseHeaders := text
        status := { w.dl.status with error := hrErrorToReport hr hc }
        progressTracker := { w.dl.progressTracker with nextRetryDelay := nextRetryDelay } } }
  | timerOffline : Ran uri o w .transientTimer { w with
      taskQ := w.taskQ.add w.now .transientTimer (seconds 30) (some .download)
      dl := { w.dl with status := w.dl.status.paused S_OK DO_E_BLOCKED_BY_NO_NETWORK } }
  | checked {tracker} : w.dl.status.state = .transferring →
    w.dl.progressTracker.checkProgress w.dl.status.bytesTransferred w.dl.maxNoProgressIntervals =
      (false, tracker) →
    Ran uri o w .progressCheck { w with
      dl := { w.dl with progressTracker := tracker }, taskQ := w.checkedQueue }
  | timedOut {tracker c} : w.dl.status.state = .transferring →
    w.dl.progressTracker.checkProgress w.dl.status.bytesTransferred w.dl.maxNoProgressIntervals =
      (true, tracker) →
    Closed w.curl c → Ran uri o w .progressCheck { w with
      curl := c
      dl := { w.dl with
        progressTracker := tracker, fHttpRequestActive := false, fileStream := none
        status := w.dl.status.paused DO_E_DOWNLOAD_NO_PROGRESS w.dl.status.error } }
  | timedOutOpen {tracker c} : w.dl.status.state = .transferring →
    w.dl.progressTracker.checkProgress w.dl.status.bytesTransferred w.dl.maxNoProgressIntervals =
      (true, tracker) →
    Closed w.curl c → Ran uri o w .progressCheck { w with
      curl := c, terminated := true,
      dl := { w.dl with progressTracker := tracker, fHttpRequestActive := false } }
  | foreign {mcc} : Ran uri o w .foreign { w with mcc := mcc }

/-! ## Requests -/

/-- A call of `_SendHttpRequest`, and the state set to Transferring after it. -/
theorem ran_send {op : Op} {retry : Bool} {w₀ : World} (hc : Calls o w op retry w₀) {a : HttpAgent}
    (ha : w₀.dl.httpAgent = some a) :
    (∃ hr w₁, sendHttpRequest uri o retry w₀ = (.error hr, w₁) ∧
      ∀ t, Ran uri o w op { w₁ with terminated := t }) ∨
    ∃ w₁, sendHttpRequest uri o retry w₀ = (.ok (), w₁) ∧ Ran uri o w op (w₁.updateStatus (·.transferring)) ∧
      (w.dl.status.state = .transferring → w₁.updateStatus (·.transferring) = w₁) := by
  have hsame :
    w₀.dl.status = w.dl.status ∧ w₀.requests = w.requests ∧ w₀.taskQ = w.taskQ ∧ w₀.now = w.now := by
    cases hc with
    | start _ _ hd _ | resume _ _ hd _ =>
      obtain ⟨_, _, _, _, _, _, _, rfl⟩ := hd.rerouted
      exact ⟨rfl, rfl, rfl, rfl⟩
    | timer | retry => exact ⟨rfl, rfl, rfl, rfl⟩
  obtain ⟨decided, d, a', hd, -, -, ⟨hr, called, -, hrun⟩ | ⟨rfl, r, -, hasks, -, -, hrun⟩⟩ :=
    sendHttpRequest_run uri o retry ha
  · exact .inl ⟨hr, _, hrun, fun t => @Ran.sendFailed uri o w op retry decided w₀ d _ t hc hd⟩
  · refine .inr ⟨_, hrun, ?_, fun hs => ?_⟩
    on_goal 2 =>
      obtain ⟨_, _, _, _, _, _, _, rfl⟩ := hd.rerouted
      rw [noteRequestSent, schedProgressTracking_eq]
      simp [World.updateStatus, World.updateDl, Download.requestSent, DownloadStatus.transferring,
        hsame.1, hs]
    have hran := Ran.sent (r := r) (n := w₀.overlaps + w₀.curl.outstanding.toNat) hc hd hasks
    have hstatus : d.status = w.dl.status := by
      obtain ⟨_, _, _, _, _, _, _, hd'⟩ := hd.rerouted
      rw [hd']
      exact hsame.1
    rw [noteRequestSent, schedProgressTracking_eq]
    convert hran using 1
    simp [World.updateStatus, World.updateDl, Download.requestSent, hstatus,
      DownloadStatus.transferring, hsame.2, World.checkedQueue]

theorem start_ran (hs : w.dl.status.state = .created) :
    Ran uri o w (.client .start)
    ((start uri o >>= fun _ => DlM.modify (·.updateStatus (·.transferring))) w).2 := by
  rw [DlM.bind_run]
  rcases start_run uri o w with ⟨-, e, h⟩ | ⟨-, -, e, h⟩ | ⟨hc, d, hd, hagent, h⟩
  · rw [h]
    exact .idle rfl nofun nofun
  · rw [h]
    exact .createFailed hs
  · rw [h]
    rcases ran_send (.start hs hc hd hagent) hagent with ⟨hr, w₁, hsend, hran⟩ | ⟨w₁, hsend, hran, -⟩
    · rw [hsend]
      exact hran w₁.terminated
    · rw [hsend]
      exact hran

theorem resume_ran (hg : Good uri w) (hs : w.dl.status.state = .paused) :
    Ran uri o w (.client .start)
    ((resume uri o >>= fun _ => DlM.modify (·.updateStatus (·.transferring))) w).2 := by
  have hne : w.requests ≠ [] := hg.issued (by simp [hs]) (by simp [hs])
  obtain ⟨a, ha⟩ := Option.isSome_iff_exists.1 (hg.agent hne)
  rw [DlM.bind_run]
  rcases resume_run uri o w with ⟨e, h⟩ | ⟨-, e, h⟩ | ⟨-, -, h⟩ | ⟨hall, d, hd, hda, h⟩
  · rw [h]
    exact .idle rfl nofun nofun
  · rw [h]
    exact .openFailed hs
  · rw [h]
    exact .skipped hs
  · rw [h]
    rcases ran_send (.resume hs hall hd hda) (hda.trans ha) with ⟨hr, w₁, hsend, hran⟩ | ⟨w₁, hsend, hran, -⟩
    · rw [hsend]
      exact hran w₁.terminated
    · rw [hsend]
      exact hran

theorem pause_ran (hg : Good uri w) (hs : w.dl.status.state = .transferring) :
    Ran uri o w (.client .pause)
    ((pause o >>= fun _ => DlM.modify (·.updateStatus (·.paused S_OK S_OK))) w).2 := by
  obtain ⟨c, hc, ⟨-, h⟩ | ⟨-, hr, h⟩⟩ := pause_run hg o
  · rw [DlM.bind_run, h]
    exact .paused hs hc
  · rw [DlM.bind_run, h]
    exact .closeFailed (.inl rfl) hc

theorem finalize_ran (hg : Good uri w) :
    Ran uri o w (.client .finalize)
    ((finalize o >>= fun _ => DlM.modify (·.updateStatus (·.finalized))) w).2 := by
  obtain ⟨c, hc, ⟨-, h⟩ | ⟨-, hr, h⟩⟩ := finalize_run hg o
  · rw [DlM.bind_run, h]
    exact .finalized hc
  · rw [DlM.bind_run, h]
    exact .closeFailed (.inr rfl) hc

theorem abort_ran (hg : Good uri w) :
    Ran uri o w (.client .abort) ((abort o >>= fun _ => DlM.modify (·.updateStatus (·.aborted))) w).2 := by
  obtain ⟨c, hc, ⟨-, h⟩ | ⟨-, h⟩⟩ := abort_run hg o
  · obtain ⟨fs, removed, hdel, -⟩ := deleteOwnFile_run o (World.cancelTasks { w with
      curl := c, dl := { w.dl with fileStream := none } })
    rw [DlM.bind_run, h, hdel]
    exact .aborted hc
  · rw [DlM.bind_run, h]
    exact .abortedOpen hc

theorem setProperty_ran (key : DownloadProperty) (value : String) :
    Ran uri o w (.client (.setProperty key value)) (setProperty uri o key value w).2 := by
  have hsame : Ran uri o w (.client (.setProperty key value)) w := .idle rfl nofun nofun
  cases key with
  | id | other => exact hsame
  | uri =>
    simp only [setProperty, DlM.bind_run, DlM.get_run, DlM.ite_run, DlM.throwHr_run, DlM.modify_run]
    split
    · exact hsame
    split
    · exact hsame
    split
    · exact hsame
    simp only [World.updateDl]
    split
    · exact .urlSet (.inr rfl)
    · exact .urlSet (.inl rfl)
  | localPath =>
    simp only [setProperty, DlM.bind_run, DlM.get_run, DlM.ite_run, DlM.throwHr_run, DlM.modify_run]
    split
    · exact hsame
    split
    · exact hsame
    next hs => exact .pathSet (by simpa using hs)
  | noProgressTimeoutSeconds =>
    simp only [setProperty, DlM.bind_run, DlM.get_run, DlM.liftExcept_run]
    cases toUInt value with
    | error hr => exact hsame
    | ok timeout =>
      simp only [DlM.ite_run, DlM.throwHr_run, DlM.modify_run]
      split
      · exact hsame
      next ht => exact .timeoutSet (Nat.le_of_not_lt ht)

theorem clientRequest_ran (hg : Good uri w) (r : ClientRequest) :
    Ran uri o w (.client r) (clientRequest uri o r w).2 := by
  have hsame : Ran uri o w (.client r) w := .idle rfl nofun nofun
  cases r with
  | start =>
    simp only [clientRequest, performStateChange, DlM.bind_run, DlM.get_run]
    cases hs : w.dl.status.state with
    | created => exact start_ran hs
    | paused => exact resume_ran hg hs
    | transferring | transferred | finalized | aborted => exact hsame
  | pause =>
    simp only [clientRequest, performStateChange, DlM.bind_run, DlM.get_run]
    cases hs : w.dl.status.state with
    | transferring => exact pause_ran hg hs
    | created | transferred | paused | finalized | aborted => exact hsame
  | finalize =>
    simp only [clientRequest, performStateChange, DlM.bind_run, DlM.get_run]
    cases hs : w.dl.status.state with
    | transferred => exact finalize_ran hg
    | created | transferring | paused | finalized | aborted => exact hsame
  | abort =>
    simp only [clientRequest, performStateChange, DlM.bind_run, DlM.get_run]
    cases hs : w.dl.status.state with
    | created | transferring | transferred | paused => exact abort_ran hg
    | finalized | aborted => exact hsame
  | getStatus => exact hsame
  | setProperty key value => exact setProperty_ran key value

/-! ## Lambdas -/

theorem transferFailed_ran (hg : Good uri w) (hne : w.requests ≠ []) (hr hc : HResult) (code : Nat)
    (text : String) :
    Ran uri o w (.transferFailed hr hc code text) (unguarded (transferFailed uri o hr hc code text w)) := by
  obtain ⟨mcc, hrun⟩ := transferFailed_run uri o hr hc code text w
  rw [hrun _ rfl]
  have hg₁ := hg.setStatus hne (hg.ne_created hne) false code text mcc
  split
  · exact .failedOffline
  · split
    · obtain ⟨c, hcl, ⟨-, h⟩ | ⟨-, e, h⟩⟩ := pause_run hg₁ o
      · rw [DlM.bind_run, h]
        exact .failedFatal hcl
      · rw [DlM.bind_run, h]
        exact .failedFatalOpen hcl
    · obtain ⟨nextRetryDelay, delay, h⟩ := schedRetry_run (hrErrorToReport hr hc) { w with
        dl := { w.dl with fHttpRequestActive := false, httpStatusCode := code, responseHeaders := text },
        mcc := mcc }
      rw [h]
      exact .failedRetry

theorem progressCheck_ran (hg : Good uri w) (hne : w.requests ≠ []) :
    Ran uri o w .progressCheck (unguarded (progressCheck o w)) := by
  simp only [progressCheck, DlM.bind_run, DlM.get_run, DlM.ite_run, DlM.pure_run]
  split
  · next hs =>
    rcases hcheck :
      w.dl.progressTracker.checkProgress w.dl.status.bytesTransferred w.dl.maxNoProgressIntervals with
      ⟨timedOut, tracker⟩
    have hg₁ : Good uri { w with dl := { w.dl with progressTracker := tracker } } :=
      Good.started hne hg.orderly (hg.ne_created hne) (hg.agent hne) hg.handle (hg.stream hne)
        hg.url hg.linked
    cases timedOut with
    | true =>
      show Ran uri o w .progressCheck (unguarded ((pause o >>= fun _ => DlM.modify (·.updateStatus fun s =>
        s.paused DO_E_DOWNLOAD_NO_PROGRESS s.error))
          { w with dl := { w.dl with progressTracker := tracker } }))
      obtain ⟨c, hcl, ⟨-, h⟩ | ⟨-, e, h⟩⟩ := pause_run hg₁ o
      · rw [DlM.bind_run, h]
        exact .timedOut hs hcheck hcl
      · rw [DlM.bind_run, h]
        exact .timedOutOpen hs hcheck hcl
    | false =>
      show Ran uri o w .progressCheck (unguarded (.ok (),
        schedProgressTracking { w with dl := { w.dl with progressTracker := tracker } }))
      rw [schedProgressTracking_eq]
      exact .checked hs hcheck
  · next hs => exact .idle rfl (by simp) fun _ => hs

/-- **What a task leaves.** -/
theorem runTask_ran (hg : Good uri w) {op : Op} (hown : op.own = true → w.requests ≠ []) :
    ∃ w₁ replies, Ran uri o w op w₁ ∧ runTask uri o op w = { w₁ with replies := replies } := by
  cases op with
  | client r => exact ⟨_, _, clientRequest_ran hg r, rfl⟩
  | headersUpdate => exact ⟨_, _, .headers, rfl⟩
  | dataUpdate => exact ⟨_, _, .data, rfl⟩
  | transferCompleted => exact ⟨_, _, .completed, rfl⟩
  | transferFailed hr hc code text => exact ⟨_, _, transferFailed_ran hg (hown rfl) hr hc code text, rfl⟩
  | alreadyTransferred => exact ⟨_, _, .alreadyTransferred, rfl⟩
  | progressCheck => exact ⟨_, _, progressCheck_ran hg (hown rfl), rfl⟩
  | foreign => exact ⟨runTask uri o .foreign w, w.replies, .foreign, rfl⟩
  | retry =>
    obtain ⟨a, ha⟩ := Option.isSome_iff_exists.1 (hg.agent (hown rfl))
    refine ⟨runTask uri o .retry w, _, ?_, rfl⟩
    simp only [runTask, runOp, DlM.bind_run, DlM.get_run, DlM.ite_run, DlM.pure_run]
    split
    · next hready =>
      have hcalls : Calls o w .retry true w := .retry hready.1 (Bool.not_eq_true _ ▸ hready.2)
      rcases ran_send hcalls ha with ⟨hr, w₁, hsend, hran⟩ | ⟨w₁, hsend, hran, hsame⟩
      · rw [hsend]
        exact hran true
      · rw [hsend, ← hsame hready.1]
        exact hran
    · exact .idle rfl (by simp) (by simp)
  | transientTimer =>
    obtain ⟨a, ha⟩ := Option.isSome_iff_exists.1 (hg.agent (hown rfl))
    refine ⟨runTask uri o .transientTimer w, _, ?_, rfl⟩
    simp only [runTask, runOp]
    cases hv : o.hasViableInterface with
    | false => exact .timerOffline
    | true =>
      simp only [if_true, resumeAfterTransientError, DlM.bind_run, DlM.get_run, DlM.ite_run, DlM.pure_run]
      split
      · next hwait =>
        rcases ran_send (.timer hv hwait) ha with ⟨hr, w₁, hsend, hran⟩ | ⟨w₁, hsend, hran, -⟩
        · rw [hsend]
          exact hran true
        · rw [hsend]
          exact hran
      · exact .idle rfl (by simp) (by simp)

/-! ## Steps -/

/-- A step of the task thread. -/
theorem step_ran (hg : Good uri w) (h : step uri w (.run o) = some w') : ∃ task q w₁ replies,
    w.taskQ.popNextReady w.now = some (task, q) ∧ w.nextOp = some task.op ∧
    Ran uri o { w with taskQ := q } task.op w₁ ∧ w' = { w₁ with replies := replies } := by
  obtain ⟨task, q, hpop, hop, rfl⟩ := step_run_some h
  obtain ⟨due, -, hmem⟩ := TaskQueue.exists_of_pop hpop
  obtain ⟨w₁, replies, hran, hrun⟩ := runTask_ran (o := o) (hg.popped hpop) (hg.issued_of_own hmem)
  exact ⟨task, q, w₁, replies, hpop, hop, hran, hrun⟩

/-- What no other step changes: of the download all but its agent, and what the tasks alone act on. -/
structure Aside (w w' : World) : Prop where
  dl : ∃ agent, w'.dl = { w.dl with httpAgent := agent }
  requests : w'.requests = w.requests
  mcc : w'.mcc = w.mcc
  now : w.now ≤ w'.now

theorem step_aside (hg : Good uri w) {e : Event} (h : step uri w e = some w') (he : ∀ o, e ≠ .run o) :
    Aside w w' := by
  unfold step at h
  split at h
  · cases h
  cases e with
  | run o => exact absurd rfl (he o)
  | tick elapsed =>
    simp only [Option.some.injEq] at h
    subst h
    exact ⟨⟨_, rfl⟩, rfl, rfl, by simp only; omega⟩
  | request r =>
    simp only [Option.some.injEq] at h
    subst h
    cases r <;> exact ⟨⟨_, rfl⟩, rfl, rfl, le_refl _⟩
  | foreign | drain =>
    simp only [Option.some.injEq] at h
    subst h
    exact ⟨⟨_, rfl⟩, rfl, rfl, le_refl _⟩
  | curl c =>
    cases c with
    | status code =>
      simp only [curlEvent, Option.bind_eq_some_iff] at h
      obtain ⟨t, -, h⟩ := h
      split at h
      · cases h
      simp only [Option.some.injEq] at h
      subst h
      exact ⟨⟨_, rfl⟩, rfl, rfl, le_refl _⟩
    | header line =>
      simp only [curlEvent, Option.map_eq_some_iff] at h
      obtain ⟨t, -, rfl⟩ := h
      exact ⟨⟨_, rfl⟩, rfl, rfl, le_refl _⟩
    | write chunk out indeterminate =>
      simp only [curlEvent, Option.bind_eq_some_iff] at h
      obtain ⟨t, ht, h⟩ := h
      have hne := hg.issued_of_outstanding (outstanding_of_active ht)
      obtain ⟨a, ha, -⟩ := hg.handle (outstanding_of_active ht)
      split at h
      · cases h
      next hguard =>
      rw [not_or, Nat.not_lt] at hguard
      obtain ⟨a₁, hr, bytesTotal, q, fs, n, ok, hrun, -⟩ :=
        writeCallback_run ha hg.orderly (hg.stream hne) t.responseCode hguard.2 out indeterminate
      simp only [hrun, Option.some.injEq] at h
      subst h
      exact ⟨⟨_, rfl⟩, rfl, rfl, le_refl _⟩
    | complete curlResult indeterminate =>
      simp only [curlEvent, Option.bind_eq_some_iff] at h
      obtain ⟨t, ht, h⟩ := h
      obtain ⟨a, ha, -⟩ := hg.handle (outstanding_of_active ht)
      split at h
      · cases h
      simp only [Option.some.injEq] at h
      subst h
      rcases completeCallback_run ha hg.orderly t.responseCode curlResult indeterminate with
        ⟨-, hrun⟩ | ⟨a₁, hr, bytesTotal, q, ok, hrun, -⟩
      · rw [hrun]
        exact ⟨⟨_, rfl⟩, rfl, rfl, le_refl _⟩
      · rw [hrun]
        exact ⟨⟨_, rfl⟩, rfl, rfl, le_refl _⟩

end DoClient
