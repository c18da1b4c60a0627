/-
The retries of failed requests: how long each waits, and where one that does
not wait goes. A retry without a delay leaves the cache host, so that it is not
asked over and over.
-/
import DoClient.Attempts

namespace DoClient

open HResult

variable {uri : UriLib} {o : Outside} {w w' : World} {e : Event} {op : Op} {delay limit : Int}

/-! ## The failure lambda -/

/-- The task that was run is a failure's, and it queued a retry, due `delay` from now. -/
def RetriedAfter (delay : Int) (w w' : World) : Prop :=
  ∃ next ∈ w.taskQ.popNextReady w.now, next.1.op.update = some .failed ∧
    w'.taskQ = ⟨next.2.ops.insert (w.now + delay) ⟨.retry, some .download⟩⟩

instance : DecidableEq (TaskQueue Op Tag) :=
  fun q q' => decidable_of_iff (q.ops.entries = q'.ops.entries) <| by
  obtain ⟨⟨_, _⟩⟩ := q
  obtain ⟨⟨_, _⟩⟩ := q'
  simp

instance (w w' : World) : Decidable (RetriedAfter delay w w') :=
  inferInstanceAs (Decidable (∃ next ∈ w.taskQ.popNextReady w.now, _))

/-- The failure lambda ends in one of three ways: waiting for the network, paused, or with a retry queued. -/
theorem transferFailed_ends (hg : Good uri w) (hne : w.requests ≠ []) (hr hc : HResult) (code : Nat)
    (text : String) : ∃ w₁, w₁ = w.failureNoted uri o hr code text ∧
    (runTask uri o (.transferFailed hr hc code text) w = handleTransientError DO_E_BLOCKED_BY_NO_NETWORK w₁ ∨
    (∃ c active stream status terminated, runTask uri o (.transferFailed hr hc code text) w = { w₁ with
      curl := c, terminated := terminated,
      dl := { w₁.dl with fHttpRequestActive := active, fileStream := stream, status := status } }) ∨
    o.hasViableInterface = true ∧
      runTask uri o (.transferFailed hr hc code text) w = schedRetry (hrErrorToReport hr hc) w₁) := by
  refine ⟨_, rfl, ?_⟩
  have hg₁ : Good uri (w.failureNoted uri o hr code text) :=
    hg.setStatus hne (hg.ne_created hne) false code text _
  simp only [runTask, runOp, transferFailed_noted]
  split
  · exact .inl rfl
  next hv =>
  split
  · obtain ⟨c, -, ⟨-, h⟩ | ⟨-, e, h⟩⟩ := pause_run hg₁ o
    · rw [DlM.bind_run, h]
      exact .inr (.inl ⟨_, _, _, _, _, rfl⟩)
    · rw [DlM.bind_run, h]
      exact .inr (.inl ⟨_, _, _, _, _, rfl⟩)
  · exact .inr (.inr ⟨by simpa using hv, rfl⟩)

/-- A step that queues a retry of a failed request. -/
theorem step_retried (hg : Good uri w) (hstep : step uri w (.run o) = some w') (h : RetriedAfter delay w w') :
    ∃ hr hc code text q, w.nextOp = some (.transferFailed hr hc code text) ∧ o.hasViableInterface = true ∧
      w'.taskQ = ⟨q.ops.insert (w.now + delay) ⟨.retry, some .download⟩⟩ ∧
      w' = schedRetry (hrErrorToReport hr hc)
      (World.failureNoted uri o hr code text { w with taskQ := q }) := by
  obtain ⟨⟨⟨op, tag⟩, q⟩, hpop, (hop : op.update = some .failed), hq⟩ := h
  obtain ⟨task, q', hpop', hnext, hrun⟩ := step_run_some hstep
  obtain ⟨rfl, rfl⟩ := Prod.mk.inj (Option.some.inj (hpop.symm.trans hpop'))
  obtain ⟨due, -, hmem⟩ := TaskQueue.exists_of_pop hpop
  cases op with
  | transferFailed hr hc code text =>
    refine ⟨hr, hc, code, text, q, hnext, ?_⟩
    obtain ⟨w₁, rfl, hends⟩ :=
      transferFailed_ends (o := o) (hg.popped hpop) (hg.issued_of_own hmem rfl) hr hc code text
    rcases hends with hends | ⟨_, _, _, _, _, hends⟩ | ⟨hv, hends⟩
    · have htimer := congrArg (·.taskQ) (hrun.trans hends)
      exact absurd (congrArg (·.2.op) (TaskQueue.entry_of_added (hq.symm.trans htimer))) (by simp)
    · have hsame := congrArg (·.taskQ) (hrun.trans hends)
      exact absurd (hq.symm.trans hsame) TaskQueue.added_ne
    · exact ⟨hv, hq, hrun.trans hends⟩
  | _ => cases hop

/-! ## Delays -/

namespace ProgressTracker

variable {t : ProgressTracker}

/-- The next retry delay is between one second and the longest. -/
def Bounded (t : ProgressTracker) : Prop :=
  1 ≤ t.nextRetryDelay ∧ t.nextRetryDelay ≤ progressTrackerMaxRetryDelay

theorem Bounded.onDownloadFailure (h : t.Bounded) :
    2 ≤ t.onDownloadFailure.nextRetryDelay ∧
    t.onDownloadFailure.nextRetryDelay ≤ progressTrackerMaxRetryDelay := by
  simp only [ProgressTracker.onDownloadFailure, Bounded, progressTrackerMaxRetryDelay] at h ⊢
  omega

theorem bounded_reset (t : ProgressTracker) : t.resetRetryDelay.Bounded :=
  ⟨le_refl _, show 1 ≤ progressTrackerMaxRetryDelay by decide⟩

theorem nextRetryDelay_checkProgress (newBytesTransferred maxNoProgressIntervals : Nat) :
    (t.checkProgress newBytesTransferred maxNoProgressIntervals).2.nextRetryDelay = t.nextRetryDelay := by
  unfold checkProgress
  split <;> rfl

theorem Bounded.checkProgress (h : t.Bounded) {newBytesTransferred maxNoProgressIntervals : Nat}
    {timedOut : Bool} {t' : ProgressTracker}
    (hcheck : t.checkProgress newBytesTransferred maxNoProgressIntervals = (timedOut, t')) :
    t'.Bounded := by
  have hsame := nextRetryDelay_checkProgress (t := t) newBytesTransferred maxNoProgressIntervals
  rw [hcheck] at hsame
  unfold Bounded
  rw [hsame]
  exact h

end ProgressTracker

/-- What the failure is retried after, and the source of the next request left as it was. -/
theorem schedRetry_ends (hr : HResult) (w : World) : ∃ tracker delay, schedRetry hr w =
    ({ w with dl := { w.dl with
      status := { w.dl.status with error := hr }, progressTracker := tracker } } : World).sched
      .retry delay .download ∧
    if w.dl.shouldPauseMccUsage w.now (isClientError w.dl.httpStatusCode) then
      delay = 0 ∧ tracker = w.dl.progressTracker.onDownloadFailure.resetRetryDelay
    else delay = seconds tracker.nextRetryDelay ∧ tracker = w.dl.progressTracker.onDownloadFailure := by
  unfold schedRetry
  extract_lets w₁
  have hsame : w₁.dl.shouldPauseMccUsage w₁.now (isClientError w₁.dl.httpStatusCode) =
      w.dl.shouldPauseMccUsage w.now (isClientError w.dl.httpStatusCode) := rfl
  rw [hsame]
  split
  · exact ⟨_, 0, rfl, rfl, rfl⟩
  · exact ⟨_, _, rfl, rfl, rfl⟩

theorem Ran.bounded (hran : Ran uri o w op w') (hop : op.update ≠ some .failed)
    (h : w.dl.progressTracker.Bounded) : w'.dl.progressTracker.Bounded := by
  cases hran with
  | sendFailed hc hd | sent hc hd =>
    have hkept : ∀ {d : Download}, Rerouted w.dl d → d.progressTracker = w.dl.progressTracker := fun h => by
      obtain ⟨_, _, _, _, _, _, _, rfl⟩ := h
      rfl
    obtain ⟨_, _, _, _, _, _, _, rfl⟩ := hd.rerouted
    cases hc with
    | start _ _ hset | resume _ _ hset =>
      have := hkept hset.rerouted
      simpa [Download.requestSent, this] using h
    | timer | retry => exact h
  | urlSet htracker =>
    rcases htracker with rfl | rfl
    · exact h
    · exact w.dl.progressTracker.bounded_reset
  | checked _ hcheck | timedOut _ hcheck | timedOutOpen _ hcheck => exact h.checkProgress hcheck
  | failedOffline | failedFatal | failedFatalOpen | failedRetry => exact absurd rfl hop
  | _ => exact h

theorem bounded_reachable (h : Trans.Reachable (agent uri) w) : w.dl.progressTracker.Bounded := by
  refine h.invariant_of (Good uri) (fun _ => good_reachable) (fun w => w.dl.progressTracker.Bounded) ?_ ?_
  · intro w hi
    obtain ⟨url, path, -, hdl⟩ := hi.download
    rw [hdl]
    exact ⟨le_refl _, show 1 ≤ progressTrackerMaxRetryDelay by decide⟩
  · intro w e w' hg _ hb _ hstep
    by_cases he : ∃ o, e = .run o
    case neg =>
      obtain ⟨agent, hdl⟩ := (step_aside hg hstep fun o ho => he ⟨o, ho⟩).dl
      rw [hdl]
      exact hb
    obtain ⟨o, rfl⟩ := he
    obtain ⟨⟨op, tag⟩, q, w₁, replies, hpop, -, hran, hw'⟩ := step_ran hg hstep
    by_cases hop : op.update = some .failed
    case neg =>
      rw [hw']
      exact hran.bounded hop hb
    obtain ⟨task, q', hpop', -, hrun⟩ := step_run_some hstep
    obtain ⟨rfl, rfl⟩ := Prod.mk.inj (Option.some.inj (hpop.symm.trans hpop'))
    obtain ⟨due, -, hmem⟩ := TaskQueue.exists_of_pop hpop
    cases op with
    | transferFailed hr hc code text =>
      obtain ⟨w₂, rfl, hends⟩ :=
        transferFailed_ends (o := o) (hg.popped hpop) (hg.issued_of_own hmem rfl) hr hc code text
      rw [hrun]
      rcases hends with hends | ⟨_, _, _, _, _, hends⟩ | ⟨-, hends⟩
      · rw [hends]
        exact hb
      · rw [hends]
        exact hb
      · obtain ⟨tracker, delay, hsched, hcases⟩ := schedRetry_ends (hrErrorToReport hr hc)
          (World.failureNoted uri o hr code text { w with taskQ := q })
        rw [hends, hsched]
        split at hcases
        · rw [hcases.2]
          exact ProgressTracker.bounded_reset _
        · rw [hcases.2]
          have hlong := ProgressTracker.Bounded.onDownloadFailure hb
          exact ⟨Nat.le_trans (by decide) hlong.1, hlong.2⟩
    | _ => cases hop

/-! ## Bans -/

/-- A cache host is banned for an original host until `limit` at least. -/
def MccManager.BannedFor (m : MccManager) (limit : Int) (mccHost originalHost : String) : Prop :=
  ∃ unban ∈ (m.find mccHost).banFor originalHost, limit ≤ unban

/-- A report can only put off the end of a ban. -/
theorem MccManager.BannedFor.report {m : MccManager} {mccHost originalHost : String}
    (h : m.BannedFor limit mccHost originalHost) {r : Report} (hle : limit ≤ r.unban) :
    (m.report uri r).BannedFor limit mccHost originalHost := by
  unfold BannedFor
  rw [banFor_report]
  split
  · exact ⟨r.unban, rfl, hle⟩
  · exact h

/-- Time does not go back. -/
theorem step_now (hg : Good uri w) (hstep : step uri w e = some w') : w.now ≤ w'.now := by
  by_cases he : ∃ o, e = .run o
  case neg => exact (step_aside hg hstep fun o ho => he ⟨o, ho⟩).now
  obtain ⟨o, rfl⟩ := he
  obtain ⟨task, q, w₁, replies, -, -, hran, rfl⟩ := step_ran hg hstep
  rcases hran.route with hsame | ⟨_, _, _, _, _, _, hnow, -⟩
  · exact hsame.now
  · exact hnow.ge

/-- A ban that is to last no longer than one of now would is still on after a step. -/
theorem step_bannedFor (hg : Good uri w) (hstep : step uri w e = some w') {mccHost originalHost : String}
    (hle : limit ≤ w.now + mccHostBanInterval) (h : w.mcc.BannedFor limit mccHost originalHost) :
    w'.mcc.BannedFor limit mccHost originalHost := by
  by_cases he : ∃ o, e = .run o
  case neg =>
    rw [(step_aside hg hstep fun o ho => he ⟨o, ho⟩).mcc]
    exact h
  obtain ⟨o, rfl⟩ := he
  obtain ⟨⟨op, tag⟩, q, w₁, replies, hpop, -, hran, hw'⟩ := step_ran hg hstep
  obtain ⟨task, q', hpop', -, hrun⟩ := step_run_some hstep
  obtain ⟨rfl, rfl⟩ := Prod.mk.inj (Option.some.inj (hpop.symm.trans hpop'))
  obtain ⟨due, -, hmem⟩ := TaskQueue.exists_of_pop hpop
  cases op with
  | transferFailed hr hc code text =>
    obtain ⟨w₂, rfl, hends⟩ :=
      transferFailed_ends (o := o) (hg.popped hpop) (hg.issued_of_own hmem rfl) hr hc code text
    have hnoted : (World.failureNoted uri o hr code text { w with taskQ := q }).mcc.BannedFor limit mccHost
        originalHost := by
      unfold World.failureNoted
      simp only
      split
      · exact h.report (r := ⟨w.now, hr, code, w.dl.mccHost, w.dl.url⟩) hle
      · exact h
    rw [hrun]
    rcases hends with hends | ⟨_, _, _, _, _, hends⟩ | ⟨-, hends⟩
    · rw [hends]
      exact hnoted
    · rw [hends]
      exact hnoted
    · obtain ⟨tracker, delay, hsched, -⟩ := schedRetry_ends (hrErrorToReport hr hc)
        (World.failureNoted uri o hr code text { w with taskQ := q })
      rw [hends, hsched]
      exact hnoted
  | foreign =>
    rw [hrun]
    show (o.reports.foldl _ w.mcc).BannedFor limit mccHost originalHost
    -- the reports of other downloads, one after another
    generalize w.mcc = m at h ⊢
    induction o.reports generalizing m with
    | nil => exact h
    | cons r reports ih =>
      exact ih _ (h.report (r := ⟨w.now, r.1, r.2.1, r.2.2.1, r.2.2.2⟩) hle)
  | _ =>
    rw [hw']
    cases hran with
    | sendFailed hc _ | sent hc _ _ =>
      have hmcc := hc.calledIn.mcc
      simp only at hmcc
      simpa only [hmcc] using h
    | _ => exact h

/-! ## Leaving the cache host -/

/-- The last request went to the cache host, and what made its retry one without delay makes
the choice of the next source, up to `limit`, leave the cache host. -/
structure Poised (uri : UriLib) (limit : Int) (w : World) : Prop where
  connectionType : w.dl.connectionType = .mcc
  leaves : (∃ due, w.dl.mccFallbackDue = some due ∧ due ≤ w.now) ∨
    (w.dl.mccFallbackDue = none ∧ w.dl.fOriginalHostAttempted = false) ∨
    w.mcc.BannedFor limit w.dl.mccHost (uri.host w.dl.url)

theorem Poised.chosenType (h : Poised uri limit w) (hlt : w.now < limit) : w.chosenType uri true = .cdn := by
  unfold World.chosenType
  rw [if_neg]
  rintro husing
  simp only [usesMcc, Bool.and_eq_true, Bool.not_eq_true', beq_iff_eq] at husing
  obtain ⟨⟨⟨htype, -⟩, -⟩, hfree⟩ := husing
  rcases h.leaves with ⟨due, hdue, hpast⟩ | ⟨hdue, hnever⟩ | ⟨unban, hban, hle⟩
  · simp [nextConnectionType, hdue, hpast] at htype
  · simp [nextConnectionType, hdue, h.connectionType, hnever] at htype
  · have hbanned : w.mcc.isBanned uri w.now w.dl.mccHost w.dl.url = true :=
      w.mcc.isBanned_of_banFor uri hban (hlt.trans_le hle)
    exact Bool.noConfusion (hbanned.symm.trans hfree)

/-- A step that leaves the choice alone keeps the download poised. -/
theorem Poised.step (h : Poised uri limit w) (hg : Good uri w) (hstep : DoClient.step uri w e = some w')
    (hle : limit ≤ w.now + mccHostBanInterval) (hsame : SameChoice w w') (hurl : w'.dl.url = w.dl.url) :
    Poised uri limit w' := by
  refine ⟨hsame.connectionType.trans h.connectionType, ?_⟩
  rcases h.leaves with ⟨due, hdue, hpast⟩ | ⟨hdue, hnever⟩ | hban
  · exact .inl ⟨due, hsame.mccFallbackDue.trans hdue, hpast.trans hsame.now⟩
  · exact .inr (.inl ⟨hsame.mccFallbackDue.trans hdue, hsame.fOriginalHostAttempted.trans hnever⟩)
  · refine .inr (.inr ?_)
    rw [hsame.mccHost, hurl]
    exact step_bannedFor hg hstep hle hban

/-- A retry without a delay leaves the download poised; any other delay is the tracker's. -/
theorem RetriedAfter.ends (h : RetriedAfter delay w w') (hr : Trans.Reachable (agent uri) w)
    (hstep : step uri w (.run o) = some w') :
    w'.requests = w.requests ∧ w'.dl.url = w.dl.url ∧ w'.now = w.now ∧
    (delay = 0 ∧ w.dl.connectionType = .mcc ∧ Poised uri (w.now + mccHostBanInterval) w' ∨
      seconds 2 ≤ delay ∧ delay ≤ seconds 30) := by
  obtain ⟨hrequest, hcallback, code, text, q, -, hv, hq, hw'⟩ :=
    step_retried (good_reachable hr) hstep h
  have hbounded := (bounded_reachable hr).onDownloadFailure
  obtain ⟨tracker, d, hsched, hcases⟩ := schedRetry_ends (hrErrorToReport hrequest hcallback)
    (World.failureNoted uri o hrequest code text { w with taskQ := q })
  have hdelay : delay = TaskQueue.adjustedDelay d :=
    Int.add_left_cancel
      (congrArg (·.1) (TaskQueue.entry_of_added (hq.symm.trans (congrArg (·.taskQ) (hw'.trans hsched)))))
  rw [hw', hsched]
  refine ⟨rfl, rfl, rfl, ?_⟩
  split at hcases
  · next hpause =>
    obtain ⟨rfl, -⟩ := hcases
    simp only [World.failureNoted, hv, Bool.true_and, Download.shouldPauseMccUsage,
      Download.usingMcc] at hpause
    split at hpause
    case isFalse => cases hpause
    next hmcc =>
    have hmcc : w.dl.connectionType = .mcc := by simpa using hmcc
    refine .inl ⟨hdelay, hmcc, hmcc, ?_⟩
    split at hpause
    · next hclient =>
      -- the cache host has just been banned for the original host
      refine .inr (.inr ?_)
      have hreport := MccManager.banFor_report uri w.mcc w.dl.mccHost (uri.host w.dl.url)
        ⟨w.now, hrequest, code, w.dl.mccHost, w.dl.url⟩
      rw [if_pos ⟨rfl, hclient, rfl⟩] at hreport
      refine ⟨w.now + mccHostBanInterval, ?_, le_refl _⟩
      simp only [World.sched, World.failureNoted, hv, Bool.true_and, Download.usingMcc, hmcc,
        beq_self_eq_true, if_true]
      exact hreport
    · split at hpause
      · next due hdue => exact .inl ⟨due, hdue, of_decide_eq_true hpause⟩
      · next hdue => exact .inr (.inl ⟨hdue, Eq.mp (Bool.not_eq_true' _) hpause⟩)
  · obtain ⟨rfl, rfl⟩ := hcases
    have hlong : delay = seconds w.dl.progressTracker.onDownloadFailure.nextRetryDelay :=
      hdelay.trans (TaskQueue.adjustedDelay_seconds (by omega))
    simp only [seconds, milliseconds, progressTrackerMaxRetryDelay] at hbounded hlong ⊢
    omega

/-! ## Runs after a failure -/

/-- A step makes one request or none. -/
theorem step_requests (hg : Good uri w) (hstep : step uri w e = some w') :
    w'.requests = w.requests ∨ ∃ r, Attempt uri w r w' := by
  by_cases hreq : w'.requests = w.requests
  · exact .inl hreq
  · obtain ⟨o, op, r, -, -, ha, -⟩ := step_attempt hg hstep hreq
    exact .inr ⟨r, ha⟩

/-- The requests before are still the first ones. -/
theorem step_suffix (hg : Good uri w) (hstep : step uri w e = some w') {rs : List IssuedRequest}
    (h : rs <:+ w.requests) : rs <:+ w'.requests := by
  rcases step_requests hg hstep with hsame | ⟨r, ha⟩
  · rwa [hsame]
  · rw [ha.requests]
    exact h.trans (List.suffix_cons _ _)

/-- No request since the requests `rs` is none in the last step. -/
theorem none_since (hg : Good uri w) (hstep : step uri w e = some w') {rs : List IssuedRequest}
    (h : rs <:+ w.requests) (hnone : w'.requests = rs) : w.requests = rs ∧ w'.requests = w.requests := by
  rcases step_requests hg hstep with hsame | ⟨r, ha⟩
  · exact ⟨hsame.symm.trans hnone, hsame⟩
  · have hlong := h.length_le
    rw [← hnone, ha.requests, List.length_cons] at hlong
    omega

/-- Up to the first request after a retry without a delay was queued. -/
structure Awaits (uri : UriLib) (start : Int) (url : String) (rs : List IssuedRequest)
    (w : World) : Prop where
  suffix : rs <:+ w.requests
  now : start ≤ w.now
  poised : w.requests = rs → w.dl.status.state = .transferring → w.life.shortcuts = 0 →
    Poised uri (start + mccHostBanInterval) w ∧ w.dl.url = url

theorem Awaits.step {start : Int} {url : String} {rs : List IssuedRequest} (h : Awaits uri start url rs w)
    (hg : Good uri w) (hstep : DoClient.step uri w e = some w') :
    w'.terminated = true ∨ Awaits uri start url rs w' := by
  by_cases hlive : w'.terminated = true
  · exact .inl hlive
  refine .inr ⟨step_suffix hg hstep h.suffix, h.now.trans (step_now hg hstep), fun hnone hs hz => ?_⟩
  obtain ⟨hnone₀, hreq⟩ := none_since hg hstep h.suffix hnone
  rcases step_transferring hg hstep hreq hs with hs₀ | ⟨-, hshortcut⟩
  · obtain ⟨hpoised, hurl⟩ := h.poised hnone₀ hs₀ (step_shortcuts hg hstep hs hz)
    have hkept := step_url hg hstep hs₀
    have hsame := step_choice hg hstep (not_resumes_of_transferring hs₀) hreq (by simpa using hlive)
    exact ⟨hpoised.step hg hstep (Int.add_le_add_right h.now _) hsame hkept, hkept.trans hurl⟩
  · omega

/-- A step between two failures of one transfer period; a retry is run before `limit`. -/
def BetweenFailures (limit : Int) (w : World) (e : Event) : Prop :=
  SamePeriod w e ∧ match e with
    | .run _ => ∀ op ∈ w.nextOp, op.update ≠ some .failed ∧ (op = .retry → w.now < limit)
    | _ => True

instance : ∀ limit w e, Decidable (BetweenFailures limit w e)
  | _, _, .run _ => inferInstanceAs (Decidable (_ ∧ _))
  | _, _, .tick _ | _, _, .request _ | _, _, .foreign .. | _, _, .drain | _, _, .curl _ =>
    .isTrue ⟨trivial, trivial⟩

/-- In a transfer period, after a failure whose retry was queued without a delay, up to the next failure. -/
structure Spaced (uri : UriLib) (start : Int) (rs : List IssuedRequest) (w : World) : Prop where
  suffix : rs <:+ w.requests
  now : start ≤ w.now
  before :
    w.requests = rs → w.dl.status.state = .transferring → Poised uri (start + mccHostBanInterval) w
  after : w.requests ≠ rs → w.dl.connectionType = .cdn ∧
    (w.dl.status.state = .transferring → w.dl.fHttpRequestActive = true)

theorem Spaced.step {start : Int} {rs : List IssuedRequest} (h : Spaced uri start rs w) (hg : Good uri w)
    (hbetween : BetweenFailures (start + mccHostBanInterval) w e) (hstep : DoClient.step uri w e = some w') :
    w'.terminated = true ∨ Spaced uri start rs w' := by
  by_cases hlive : w'.terminated = true
  · exact .inl hlive
  replace hlive : w'.terminated = false := by simpa using hlive
  have hresumes := hbetween.1.not_resumes
  refine .inr ?_
  by_cases hreq : w'.requests = w.requests
  · have hsame := step_choice hg hstep hresumes hreq hlive
    have hs₀ : w'.dl.status.state = .transferring → w.dl.status.state = .transferring := fun hs =>
      (step_transferring hg hstep hreq hs).resolve_right fun hr => hresumes hr.1
    refine ⟨step_suffix hg hstep h.suffix, h.now.trans hsame.now, fun hnone hs => ?_, fun hsome => ?_⟩
    · exact (h.before (hreq ▸ hnone) (hs₀ hs)).step hg hstep (Int.add_le_add_right h.now _) hsame
        (step_url hg hstep (hs₀ hs))
    · obtain ⟨htype, hactive⟩ := h.after (hreq ▸ hsome)
      refine ⟨hsame.connectionType.trans htype, fun hs => ?_⟩
      refine step_active hg hstep hbetween.1 ?_ hlive hs (hactive (hs₀ hs))
      rintro o hr hc code text ⟨rfl, hop⟩
      exact (hbetween.2 _ hop).1 rfl
  · -- the retry, which goes to the original host and is under way from then on
    obtain ⟨o, op, r, ⟨rfl, hop⟩, -, ha, hwhy⟩ := step_attempt hg hstep hreq
    obtain ⟨rfl, hretried⟩ := hwhy.resolve_left hresumes
    have hnone : w.requests = rs := by
      by_contra hsome
      exact Bool.noConfusion (((h.after hsome).2 hretried.transferring).symm.trans hretried.inactive)
    have hpoised := h.before hnone hretried.transferring
    have htype := hretried.connectionType.trans (hpoised.chosenType ((hbetween.2 _ hop).2 rfl))
    refine ⟨step_suffix hg hstep h.suffix, h.now.trans (step_now hg hstep), fun hnone' => ?_,
      fun _ => ⟨htype, fun _ => ha.active⟩⟩
    exact absurd (hnone'.trans hnone.symm) hreq

/-- **No hot retry loop.** A retry is without a delay or waits for 2 to 30 seconds. The request of one without
a delay, made within the ban interval, goes to the original URL; when it fails in its turn in the same
transfer period, it is retried with a delay. -/
theorem no_hot_retry (hr : Trans.Reachable (agent uri) w) (hstep : step uri w (.run o) = some w')
    (hretried : RetriedAfter delay w w') :
    (delay = 0 ∨ seconds 2 ≤ delay ∧ delay ≤ seconds 30) ∧ (delay = 0 →
      (∀ ms u o' u' r, Trans.Path (agent uri) w' ms u → u.requests = w'.requests →
        u.nextOp = some .retry → step uri u (.run o') = some u' → u'.requests = r :: u.requests →
        u.now < w.now + mccHostBanInterval → ToOriginalHost u' r ∧ r.url = w.dl.url) ∧
      ∀ ms u o' u' delay', Trans.Path (agent uri) w' ms u →
        (∀ m ∈ ms, BetweenFailures (w.now + mccHostBanInterval) m.src m.ev) → u.requests ≠ w'.requests →
        step uri u (.run o') = some u' → RetriedAfter delay' u u' → delay' ≠ 0) := by
  obtain ⟨hreq, hurl, hnow, hends⟩ := hretried.ends hr hstep
  have hr' := reachable_step hr hstep
  refine ⟨hends.imp And.left id, fun hzero => ⟨?_, ?_⟩⟩
  all_goals
    obtain ⟨-, -, hpoised⟩ := hends.resolve_right fun h => by
      simp only [hzero, seconds, milliseconds] at h
      omega
  · intro ms u o' u' r hp hnone hop hu hissued hlt
    have hreach := hp.reachable hr'
    have hawaits : u.terminated = true ∨ Awaits uri w.now w.dl.url w'.requests u :=
      (hp.keeps (C := fun _ _ => True)
        (fun s => s.terminated = true ∨ Awaits uri w.now w.dl.url w'.requests s)
        (fun s e s' hs h _ hst => (h.resolve_left fun ht =>
          Bool.noConfusion (ht.symm.trans (step_leads (good_reachable hs) hst).1)).step
            (good_reachable hs) hst)
        hr' (.inr ⟨List.suffix_rfl, hnow.ge, fun _ _ _ => ⟨hpoised, hurl⟩⟩) (fun _ _ => trivial)).1
    have hg := good_reachable hreach
    obtain ⟨_, _, r', -, -, ha, hwhy⟩ := step_attempt hg hu (by rw [hissued]; exact List.cons_ne_self _ _)
    obtain rfl : r' = r := (List.cons.inj (ha.requests.symm.trans hissued)).1
    have hretry : Retried uri u u' := by
      refine (hwhy.resolve_left ?_).2
      rintro (⟨hop', -⟩ | ⟨hop', -⟩)
      · exact absurd (hop.symm.trans hop') (by simp)
      · exact absurd (hop.symm.trans hop') (by simp)
    obtain ⟨hposed, hsame⟩ := (hawaits.resolve_left fun ht =>
      Bool.noConfusion (ht.symm.trans (step_leads hg hu).1)).poised hnone hretry.transferring hretry.shortcuts
    have htype := hretry.connectionType.trans (hposed.chosenType hlt)
    have horiginal := ha.source.resolve_left fun h => absurd (h.1.symm.trans htype) (by simp)
    exact ⟨horiginal, horiginal.2.trans (ha.url.trans hsame)⟩
  · intro ms u o' u' delay' hp hbetween hissued hu hretried' hzero'
    have hreach := hp.reachable hr'
    have hspaced : u.terminated = true ∨ Spaced uri w.now w'.requests u :=
      (hp.keeps (fun s => s.terminated = true ∨ Spaced uri w.now w'.requests s)
        (fun s e s' hs h hb hst => (h.resolve_left fun ht =>
          Bool.noConfusion (ht.symm.trans (step_leads (good_reachable hs) hst).1)).step (good_reachable hs)
            hb hst)
        hr' (.inr ⟨List.suffix_rfl, hnow.ge, fun _ _ => hpoised, fun h => absurd rfl h⟩) hbetween).1
    have hg := good_reachable hreach
    obtain ⟨htype, -⟩ := (hspaced.resolve_left fun ht =>
      Bool.noConfusion (ht.symm.trans (step_leads hg hu).1)).after hissued
    obtain ⟨-, -, -, ⟨-, hmcc, -⟩ | hlong⟩ := hretried'.ends hreach hu
    · exact absurd (hmcc.symm.trans htype) (by simp)
    · rw [hzero'] at hlong
      simp only [seconds, milliseconds] at hlong
      omega

/-- A file the cache host does not have, up to the failure. -/
def missingRun : List Event :=
  [.request .start, .run { mccHost := "cache" }, .drain, .curl (.status 404), .curl (.complete 0 0)]

/-- The retry, and its connection lost. -/
def lostRun : List Event := [.run {}, .drain, .curl (.complete 56 0)]

/-- The first failure is retried at the original URL without a delay, the second with one. -/
theorem no_hot_retry_missing : ∃ w w' u u' delay', RetriedAfter 0 w w' ∧ RetriedAfter delay' u u' ∧
    (∃ (v v' : World) (r : IssuedRequest), v.requests = w'.requests ∧ v'.requests = r :: v.requests ∧
      ToOriginalHost v' r) ∧
      delay' ≠ 0 := by
  have hrun : (((agent plainUri).runFrom newDownload missingRun).bind fun w =>
      (step plainUri w (.run {})).bind fun w' => (step plainUri w' (.run {})).bind fun v' =>
      (((agent plainUri).restrict (BetweenFailures (w.now + mccHostBanInterval))).runFrom w' lostRun).bind
        fun u =>
      (step plainUri u (.run {})).map fun u' =>
        ((decide (RetriedAfter 0 w w'), decide (RetriedAfter (seconds 2) u u')), w'.nextOp,
          decide (w'.now < w.now + mccHostBanInterval),
          [w'.requests.length, v'.requests.length, u.requests.length])) =
      some ((true, true), some .retry, true, [1, 2, 2]) := by decide +kernel
  obtain ⟨w, hw, hrun⟩ := Option.bind_eq_some_iff.1 hrun
  obtain ⟨w', hstep, hrun⟩ := Option.bind_eq_some_iff.1 hrun
  obtain ⟨v', hretry, hrun⟩ := Option.bind_eq_some_iff.1 hrun
  obtain ⟨u, hu, hrun⟩ := Option.bind_eq_some_iff.1 hrun
  obtain ⟨u', hfailed, hfacts⟩ := Option.map_eq_some_iff.1 hrun
  simp only [Prod.mk.injEq, decide_eq_true_eq, List.cons.injEq, and_true] at hfacts
  obtain ⟨⟨hzero, hlong⟩, hnext, hlt, hone, htwo, hissued⟩ := hfacts
  have hr := Trans.reachable_of_runFrom reachable_newDownload hw
  obtain ⟨hp, hbetween⟩ := (Trans.path_moves hu).of_restrict
  obtain ⟨horiginal, hdelayed⟩ := (no_hot_retry hr hstep hzero).2 rfl
  have hne : v'.requests ≠ w'.requests := fun h => by
    rw [h, hone] at htwo
    cases htwo
  obtain ⟨_, _, r, -, -, ha, -⟩ := step_attempt (good_reachable (reachable_step hr hstep)) hretry hne
  refine ⟨w, w', u, u', _, hzero, hlong, ⟨w', v', r, rfl, ha.requests, ?_⟩, ?_⟩
  · exact (horiginal [] w' {} v' r .nil rfl hnext hretry ha.requests hlt).1
  · refine hdelayed _ u {} u' _ hp hbetween (fun h => ?_) hfailed hlong
    rw [h, hone] at hissued
    cases hissued

end DoClient
