/-
A download that is finalized or aborted has nothing left: no operation of its own
is queued, its file is closed, no transfer is there, and no request of a client
gives it anything to do again. What is known of its file up to then.
-/
import DoClient.Effects
import DoClient.Escapes
import DoClient.Ownership

namespace DoClient

open HResult

/-- The file of a download while it goes on, and the end of it. -/
structure Settled (w : World) : Prop where
  /-- Once it has asked for it, it has made its file. -/
  issued : w.requests ≠ [] → w.dl.fDestFileCreated = true
  removed : w.removed ≠ [] → w.dl.status.state.gone = true
  ended : w.dl.status.state.gone = true → w.life.Over
  idle : w.dl.status.state.gone = true → w.taskQ.Idle
  closed : w.dl.status.state.gone = true → w.dl.fileStream = none

variable {uri : UriLib} {o : Outside} {w w' : World} {e : Event}

theorem gone_iff {s : DownloadState} : s.gone = true ↔ s = .finalized ∨ s = .aborted := by
  cases s <;> simp [DownloadState.gone]

theorem settled_initial (h : Initial uri w) : Settled w := by
  obtain ⟨url, path, -, hdl⟩ := h.download
  have hno : w.dl.status.state.gone = true → False := fun hs => by rw [hdl] at hs; cases hs
  exact ⟨fun hne => absurd h.requests hne, fun hne => absurd h.removed hne, fun hs => (hno hs).elim,
    fun hs => (hno hs).elim, fun hs => (hno hs).elim⟩

/-- With files that close, who comes to be gone, or stays it, is over. -/
theorem over_of_gone (hover : w.dl.status.state.gone = true → w.life.Over) (hg : Good uri w)
    (h : step uri w e = some w') (hc : ClosesFiles e) (hs : w'.dl.status.state.gone = true) :
    w'.life.Over := by
  obtain ⟨-, a, hdoes, hen, -, hl⟩ := step_leads hg h
  have hs' : (w.life.apply a).state.gone = true := hl ▸ hs
  have hstays : w.life.state.gone = true → w'.life.Over := fun hs => hl ▸ (hover hs).apply hen
  cases a with
  | finalized => exact hl ▸ Life.over_of_cancels rfl
  | aborted cancelled file =>
    obtain ⟨o, hrun, hopen⟩ := hdoes.from
    cases cancelled with
    | true => exact hl ▸ Life.over_of_cancels rfl
    | false =>
      rw [hrun.1] at hc
      exact absurd hc (hopen rfl)
  | send t | sendFailed t => cases t <;> first | exact hstays hs' | cases hs'
  | failedFatal closed => cases closed <;> first | exact hstays hs' | cases hs'
  | skipRequest | closed | completed | failedOffline | timerOffline | alreadyTransferred => cases hs'
  | _ => exact hstays hs'

/-- An Abort closes the file and takes out what is queued, or finds the download gone. -/
theorem abort_closes (hg : Good uri w) (hc : o.closeErr = none) :
    (clientRequest uri o .abort w).2 = w ∧ w.dl.status.state.gone = true ∨
    (clientRequest uri o .abort w).2.taskQ.Idle ∧ (clientRequest uri o .abort w).2.dl.fileStream = none ∧
      (clientRequest uri o .abort w).2.dl.status.state = .aborted ∧
      (clientRequest uri o .abort w).2.dl.fDestFileCreated = w.dl.fDestFileCreated ∧
      (clientRequest uri o .abort w).2.requests = w.requests := by
  have hrun : ((abort o >>= fun _ => DlM.modify (·.updateStatus (·.aborted))) w).2.taskQ.Idle ∧
      ((abort o >>= fun _ => DlM.modify (·.updateStatus (·.aborted))) w).2.dl.fileStream = none ∧
      ((abort o >>= fun _ => DlM.modify (·.updateStatus (·.aborted))) w).2.dl.status.state = .aborted ∧
      ((abort o >>= fun _ => DlM.modify (·.updateStatus (·.aborted))) w).2.dl.fDestFileCreated =
        w.dl.fDestFileCreated ∧
      ((abort o >>= fun _ => DlM.modify (·.updateStatus (·.aborted))) w).2.requests = w.requests := by
    obtain ⟨c, -, ⟨-, h⟩ | ⟨hopen, -⟩⟩ := abort_run hg o
    · obtain ⟨fs, removed, hdel, -⟩ := deleteOwnFile_run o (World.cancelTasks { w with
        curl := c, dl := { w.dl with fileStream := none } })
      rw [DlM.bind_run, h, hdel]
      exact ⟨hg.orderly.idle_remove, rfl, rfl, rfl, rfl⟩
    · exact absurd hc (closeErr_of_closes hopen)
  simp only [clientRequest, performStateChange, DlM.bind_run (α := World), DlM.get_run]
  cases hs : w.dl.status.state with
  | created | transferring | transferred | paused => exact .inr hrun
  | finalized | aborted => exact .inl ⟨rfl, rfl⟩

/-- A request goes out from a download that is not gone; it has made its file, unless it asks for the first time. -/
theorem Calls.made (hg : Good uri w) (h : Settled w) {op : Op} {retry : Bool} {w₀ : World}
    (hc : Calls o w op retry w₀) :
    w₀.dl.fDestFileCreated = true ∧ w.dl.status.state.gone = false ∧ w₀.dl.status = w.dl.status ∧
      w₀.requests = w.requests ∧ w₀.removed = w.removed := by
  have hissued : w.dl.status.state = .paused ∨ w.dl.status.state = .transferring →
      w.dl.fDestFileCreated = true ∧ w.dl.status.state.gone = false := fun hs => by
    refine ⟨h.issued (hg.issued ?_ ?_), ?_⟩ <;> rcases hs with hs | hs <;> simp [hs, DownloadState.gone]
  cases hc with
  | start hs _ hd _ =>
    obtain ⟨_, _, _, _, _, _, _, rfl⟩ := hd.rerouted
    exact ⟨rfl, by simp [hs, DownloadState.gone], rfl, rfl, rfl⟩
  | resume hs _ hd _ =>
    obtain ⟨_, _, _, _, _, _, _, rfl⟩ := hd.rerouted
    exact ⟨(hissued (.inl hs)).1, (hissued (.inl hs)).2, rfl, rfl, rfl⟩
  | timer _ hs =>
    have hs := hissued (.inl (paused_of_isTransientError hs))
    exact ⟨hs.1, hs.2, rfl, rfl, rfl⟩
  | retry hs _ => exact ⟨(hissued (.inr hs)).1, (hissued (.inr hs)).2, rfl, rfl, rfl⟩

/-- What a task leaves, an Abort apart. -/
theorem Ran.settled (hg : Good uri w) (h : Settled w) {op : Op} (hran : Ran uri o w op w')
    (hop : op ≠ .client .abort) (hown : w.dl.status.state.gone = true → op.own = false) :
    (w'.requests ≠ [] → w'.dl.fDestFileCreated = true) ∧ w'.removed = w.removed ∧
      (w'.dl.status.state.gone = true → w'.taskQ.Idle ∧ w'.dl.fileStream = none) := by
  have hsame : w.dl.status.state.gone = true → w.taskQ.Idle ∧ w.dl.fileStream = none :=
    fun hs => ⟨h.idle hs, h.closed hs⟩
  have hlambda : op.own = true → w.dl.status.state.gone = true → False := fun hlambda hs =>
    absurd (hlambda.symm.trans (hown hs)) Bool.noConfusion
  cases hran with
  | idle | closeFailed | urlSet | timeoutSet | foreign | createFailed | openFailed | pathSet =>
    exact ⟨h.issued, rfl, hsame⟩
  | sendFailed hc hd =>
    obtain ⟨hmade, hgone, hstatus, -, hremoved⟩ := hc.made hg h
    obtain ⟨_, _, _, _, _, _, _, rfl⟩ := hd.rerouted
    refine ⟨fun _ => hmade, hremoved, fun hs => ?_⟩
    rw [show _ = w.dl.status from hstatus] at hs
    exact absurd (hgone.symm.trans hs) Bool.noConfusion
  | sent hc hd =>
    obtain ⟨hmade, -, -, -, hremoved⟩ := hc.made hg h
    obtain ⟨_, _, _, _, _, _, _, rfl⟩ := hd.rerouted
    exact ⟨fun _ => hmade, hremoved, nofun⟩
  | finalized => exact ⟨h.issued, rfl, fun _ => ⟨hg.orderly.idle_remove, rfl⟩⟩
  | aborted | abortedOpen => exact absurd rfl hop
  | skipped | paused | completed | alreadyTransferred | failedOffline | failedFatal | timerOffline | timedOut =>
    exact ⟨h.issued, rfl, nofun⟩
  | headers | data | failedFatalOpen | failedRetry | checked | timedOutOpen =>
    exact ⟨h.issued, rfl, fun hs => (hlambda rfl hs).elim⟩

theorem Settled.pop (h : Settled w) {task : Task Op Tag} {q : TaskQueue Op Tag}
    (hpop : w.taskQ.popNextReady w.now = some (task, q)) :
    Settled { w with taskQ := q } ∧ (w.dl.status.state.gone = true → task.op.own = false) := by
  refine ⟨⟨h.issued, h.removed, fun hs => ?_, fun hs => (h.idle hs).pop hpop, h.closed⟩, fun hs => ?_⟩
  · obtain ⟨hstate, hwaiting, hout, -, -, -⟩ := h.ended hs
    have hidle := (h.idle hs).pop hpop
    exact ⟨hstate, hwaiting, hout, TaskQueue.updates_of_idle hidle, TaskQueue.count_of_idle hidle _ rfl,
      TaskQueue.count_of_idle hidle _ rfl⟩
  · obtain ⟨due, -, hmem⟩ := TaskQueue.exists_of_pop hpop
    exact h.idle hs _ hmem

/-- What is not a task changes nothing a download that is gone has. -/
theorem idle_of_step (h : w.dl.status.state.gone = true → w.taskQ.Idle)
    (hover : w.dl.status.state.gone = true → w.life.Over) (hstep : step uri w e = some w')
    (he : ∀ o, e ≠ .run o) (hs : w.dl.status.state.gone = true) : w'.taskQ.Idle := by
  have hactive : w.curl.active = none := (Life.not_outstanding (hover hs).outstanding).2
  unfold step at hstep
  split at hstep
  · cases hstep
  cases e with
  | run o => exact absurd rfl (he o)
  | tick | drain =>
    simp only [Option.some.injEq] at hstep
    exact hstep ▸ h hs
  | request r =>
    simp only [Option.some.injEq] at hstep
    subst hstep
    cases r with
    | getStatus => exact (h hs).add rfl
    | start | pause | finalize | abort | setProperty => exact (h hs).addFront rfl
  | foreign front delay =>
    simp only [Option.some.injEq] at hstep
    subst hstep
    cases front with
    | true => exact (h hs).addFront rfl
    | false => exact (h hs).add rfl
  | curl c => cases c <;> simp [curlEvent, hactive] at hstep

theorem Settled.step (h : Settled w) (hg : Good uri w) (hstep : DoClient.step uri w e = some w')
    (hc : ClosesFiles e) : Settled w' := by
  have hover := over_of_gone h.ended hg hstep hc
  have hlater : w.dl.status.state.gone = true → w'.dl.status.state.gone = true := fun hs => by
    obtain ⟨-, a, -, hen, -, hl⟩ := step_leads hg hstep
    have hend := ((h.ended hs).apply hen).state
    rw [← hl] at hend
    exact gone_iff.2 hend
  by_cases hrun : ∃ o, e = .run o
  · obtain ⟨o, rfl⟩ := hrun
    obtain ⟨task, q, hpop, -, hrun⟩ := step_run_some hstep
    obtain ⟨hq, hown⟩ := h.pop hpop
    have hgood := hg.popped hpop
    by_cases habort : task.op = .client .abort
    · rw [habort] at hrun
      subst hrun
      rcases abort_closes hgood hc with ⟨hsame, hs⟩ | ⟨hidle, hclosed, hs, hmade, hrequests⟩
      · refine ⟨?_, ?_, hover, ?_, ?_⟩ <;> simp only [runTask, hsame]
        exacts [hq.issued, hq.removed, hq.idle, hq.closed]
      · refine ⟨fun hne => ?_, fun _ => ?_, hover, fun _ => hidle, fun _ => hclosed⟩
        · exact hmade.trans (h.issued (hrequests ▸ hne))
        · exact gone_iff.2 (.inr hs)
    · obtain ⟨task', q', w₁, replies, hpop', -, hran, rfl⟩ := step_ran hg hstep
      obtain ⟨rfl, rfl⟩ := Prod.mk.inj (Option.some.inj (hpop'.symm.trans hpop))
      obtain ⟨hissued, hremoved, hend⟩ := hran.settled hgood hq habort hown
      refine ⟨hissued, fun hne => hlater (h.removed ?_), hover, fun hs => (hend hs).1, fun hs => (hend hs).2⟩
      exact hremoved ▸ hne
  · have he : ∀ o, e ≠ .run o := fun o ho => hrun ⟨o, ho⟩
    obtain ⟨⟨agent, hdl⟩, hrequests, -, -⟩ := step_aside hg hstep he
    have hremoved : w'.removed = w.removed := by
      cases step_files hg hstep fun o ho => absurd ho (he o) with
      | same hsame => exact hsame.removed
      | written _ _ _ _ hremoved => exact hremoved
      | made o hrun | aborted o hrun | renamed o _ hrun => exact absurd hrun.1 (he o)
    have hstate : w'.dl.status = w.dl.status := by rw [hdl]
    refine ⟨fun hne => ?_, fun hne => ?_, hover, fun hs => ?_, fun hs => ?_⟩
    · rw [hdl]
      exact h.issued (hrequests ▸ hne)
    · rw [hstate]
      exact h.removed (hremoved ▸ hne)
    · exact idle_of_step h.idle h.ended hstep he (hstate ▸ hs)
    · rw [hdl]
      exact h.closed (hstate ▸ hs)

/-- **In a run whose files close a download that is gone has nothing left.** -/
theorem settled_reachable (h : Trans.ReachableBy (agent uri) (fun _ e => ClosesFiles e) w) : Settled w :=
  h.invariant_of (Good uri) (fun _ hr => good_reachable hr) Settled (fun _ hi => settled_initial hi)
    fun _ _ _ hg _ hw hc hs => hw.step hg hs hc

/-! ## Requests for a download that is gone -/

/-- Of a download that is gone a client can change its timeout, and nothing else. -/
theorem clientRequest_gone (uri : UriLib) (o : Outside) (r : ClientRequest) {d : Download}
    (hs : d.status.state.gone = true) : ∃ result timeout, ∀ w : World, w.dl = d →
      clientRequest uri o r w = (result, w.updateDl fun d => { d with noProgressTimeout := timeout }) := by
  have hsame : ∀ (result : Except HResult Unit) {x : DlM Unit},
      (∀ w : World, w.dl = d → x w = (result, w)) → ∃ result timeout, ∀ w : World, w.dl = d →
        x w = (result, w.updateDl fun d => { d with noProgressTimeout := timeout }) := fun result {x} hx => by
    refine ⟨result, d.noProgressTimeout, fun w hw => ?_⟩
    rw [hx w hw, ← hw]
    rfl
  have hchange : ∀ s : DownloadState, ∃ result, ∀ w : World, w.dl = d →
      performStateChange uri o s w = (result, w) := fun s => by
    rcases gone_iff.1 hs with hs | hs
    · refine ⟨if s ≠ .finalized then .error DO_E_INVALID_STATE else .ok (), fun w hw => ?_⟩
      simp only [performStateChange, DlM.bind_run, DlM.get_run, hw, hs]
      cases s <;> rfl
    · refine ⟨if s ≠ .aborted then .error DO_E_INVALID_STATE else .ok (), fun w hw => ?_⟩
      simp only [performStateChange, DlM.bind_run, DlM.get_run, hw, hs]
      cases s <;> rfl
  have hnot : d.status.state ≠ .created ∧ d.status.state ≠ .paused := by
    rcases gone_iff.1 hs with hs | hs <;> simp [hs]
  cases r with
  | start => exact (hchange .transferring).elim fun result => hsame result
  | pause => exact (hchange .paused).elim fun result => hsame result
  | finalize => exact (hchange .finalized).elim fun result => hsame result
  | abort => exact (hchange .aborted).elim fun result => hsame result
  | getStatus => exact hsame (.ok ()) fun w _ => rfl
  | setProperty key value =>
    simp only [clientRequest]
    cases key with
    | id => exact hsame (.error DO_E_READ_ONLY_PROPERTY) fun w _ => rfl
    | other => exact hsame (.ok ()) fun w _ => rfl
    | uri =>
      refine hsame (if value.isEmpty then .error E_INVALIDARG
        else if !validateUrl uri value then .error INET_E_INVALID_URL else .error DO_E_INVALID_STATE)
          fun w hw => ?_
      simp only [setProperty, DlM.bind_run, DlM.get_run, DlM.ite_run, DlM.throwHr_run, hw, ne_eq, hnot,
        not_false_eq_true, and_self, if_true]
      split
      · rfl
      · split <;> rfl
    | localPath =>
      refine hsame (if value.isEmpty then .error E_INVALIDARG else .error DO_E_INVALID_STATE)
        fun w hw => ?_
      simp only [setProperty, DlM.bind_run, DlM.get_run, DlM.ite_run, DlM.throwHr_run, hw, ne_eq, hnot.1,
        not_false_eq_true, if_true]
      split <;> rfl
    | noProgressTimeoutSeconds =>
      cases hread : toUInt value with
      | error hr =>
        refine hsame (.error hr) fun w _ => ?_
        simp only [setProperty, DlM.bind_run, DlM.get_run, DlM.liftExcept_run, hread]
      | ok timeout =>
        by_cases hlow : timeout < progressTrackerCheckInterval
        · refine hsame (.error E_INVALIDARG) fun w _ => ?_
          simp only [setProperty, DlM.bind_run, DlM.get_run, DlM.liftExcept_run, hread, DlM.ite_run,
            if_pos hlow, DlM.throwHr_run]
        · refine ⟨.ok (), timeout, fun w _ => ?_⟩
          simp only [setProperty, DlM.bind_run, DlM.get_run, DlM.liftExcept_run, hread, DlM.ite_run,
            if_neg hlow, DlM.modify_run]

/-- A Finalize or an Abort that does not throw leaves the download gone. -/
theorem gone_of_ends {r : ClientRequest} (hr : r = .finalize ∨ r = .abort)
    (h : (clientRequest uri o r w).1 = .ok ()) : (clientRequest uri o r w).2.dl.status.state.gone = true := by
  have hthen : ∀ {x : DlM Unit} {f : DownloadStatus → DownloadStatus}, (∀ s, (f s).state.gone = true) →
      ((x >>= fun _ => DlM.modify (·.updateStatus f)) w).1 = .ok () →
      ((x >>= fun _ => DlM.modify (·.updateStatus f)) w).2.dl.status.state.gone = true :=
        fun {x f} hf hok => by
    rw [DlM.bind_run] at hok ⊢
    rcases hx : x w with ⟨_ | _, w₁⟩
    · rw [hx] at hok
      cases hok
    · exact hf _
  rcases hr with rfl | rfl <;>
    simp only [clientRequest, performStateChange, DlM.bind_run (α := World), DlM.get_run] at h ⊢ <;>
    cases hs : w.dl.status.state <;> simp only [hs] at h ⊢ <;> first
      | exact hthen (fun _ => rfl) h
      | simp [hs, DownloadState.gone]; done
      | simp at h

end DoClient
