/-
The attempts of a download: what a step leaves of the data the choice of a
source goes by, when it makes a request and when it does not.
-/
import DoClient.Fallback
import DoClient.Bans

namespace DoClient

open HResult

variable {uri : UriLib} {o : Outside} {w w' : World} {e : Event} {op : Op}

/-! ## Transfer periods -/

/-- The step resumes the download, for its client or after a network loss. -/
def Resumes (w : World) (e : Event) : Prop :=
  match e with
  | .run o => w.nextOp = some (.client .start) ∧ w.dl.status.state ≠ .transferring ∨
      w.nextOp = some .transientTimer ∧ o.hasViableInterface = true ∧ w.dl.status.isTransientError = true
  | _ => False

/-- The step ends no transfer period: it neither pauses the download for its client nor resumes it. -/
def SamePeriod (w : World) (e : Event) : Prop :=
  match e with
  | .run o => w.nextOp ≠ some (.client .pause) ∧ ¬ Resumes w (.run o)
  | _ => True

instance : ∀ w e, Decidable (Resumes w e)
  | _, .run _ => inferInstanceAs (Decidable (_ ∨ _))
  | _, .tick _ | _, .request _ | _, .foreign .. | _, .drain | _, .curl _ => .isFalse id

instance : ∀ w e, Decidable (SamePeriod w e)
  | _, .run _ => inferInstanceAs (Decidable (_ ∧ _))
  | _, .tick _ | _, .request _ | _, .foreign .. | _, .drain | _, .curl _ => .isTrue trivial

theorem SamePeriod.not_resumes (h : SamePeriod w e) : ¬ Resumes w e := by
  cases e with
  | run o => exact h.2
  | tick | request | foreign | drain | curl => exact id

/-- Nothing resumes a download that is in Transferring. -/
theorem not_resumes_of_transferring (hs : w.dl.status.state = .transferring) : ¬ Resumes w e := by
  cases e with
  | run o =>
    rintro (⟨-, hne⟩ | ⟨-, -, hwait⟩)
    · exact hne hs
    · simp [DownloadStatus.isTransientError, hs] at hwait
  | tick | request | foreign | drain | curl => exact id

/-! ## Steps without a request -/

/-- What the choice of a source goes by is as it was. -/
structure SameChoice (w w' : World) : Prop where
  requests : w'.requests = w.requests
  now : w.now ≤ w'.now
  mccHost : w'.dl.mccHost = w.dl.mccHost
  mccFallbackDue : w'.dl.mccFallbackDue = w.dl.mccFallbackDue
  fAllowMcc : w'.dl.fAllowMcc = w.dl.fAllowMcc
  connectionType : w'.dl.connectionType = w.dl.connectionType
  numAttempts :
    w'.dl.numAttemptsWithCurrentConnectionType = w.dl.numAttemptsWithCurrentConnectionType
  cbTransferredAtRequestBegin : w'.dl.cbTransferredAtRequestBegin = w.dl.cbTransferredAtRequestBegin
  fOriginalHostAttempted : w'.dl.fOriginalHostAttempted = w.dl.fOriginalHostAttempted

theorem SameChoice.of_aside (h : Aside w w') : SameChoice w w' := by
  obtain ⟨agent, hdl⟩ := h.dl
  exact ⟨h.requests, h.now, by rw [hdl], by rw [hdl], by rw [hdl], by rw [hdl], by rw [hdl], by rw [hdl],
    by rw [hdl]⟩

/-- Only a call of `_SendHttpRequest` changes what the next choice goes by. -/
theorem Ran.choice (hran : Ran uri o w op w') : SameChoice w w' ∨ ∃ retry w₀, Calls o w op retry w₀ := by
  cases hran with
  | sendFailed hc _ | sent hc _ _ => exact .inr ⟨_, _, hc⟩
  | _ => exact .inl ⟨rfl, le_refl _, rfl, rfl, rfl, rfl, rfl, rfl, rfl⟩

/-- A retry does nothing, ends the agent or makes a request. -/
theorem runTask_retry (hg : Good uri w) (hne : w.requests ≠ []) :
    runTask uri o .retry w = w ∨ (runTask uri o .retry w).terminated = true ∨
      (runTask uri o .retry w).requests ≠ w.requests := by
  simp only [runTask, runOp, DlM.bind_run, DlM.get_run, DlM.ite_run, DlM.pure_run]
  split
  · obtain ⟨a, ha⟩ := Option.isSome_iff_exists.1 (hg.agent hne)
    obtain ⟨_, _, _, -, -, -, ⟨hr, _, -, hrun⟩ | ⟨-, r, -, -, -, -, hrun⟩⟩ := sendHttpRequest_run uri o true ha
    · rw [hrun]
      exact .inr (.inl rfl)
    · rw [hrun, noteRequestSent, schedProgressTracking_eq]
      exact .inr (.inr (List.cons_ne_self _ _))
  · exact .inl rfl

/-- **A step that makes no request leaves the choice of the next source alone**, resumes apart. -/
theorem step_choice (hg : Good uri w) (hstep : step uri w e = some w') (hresumes : ¬ Resumes w e)
    (hreq : w'.requests = w.requests) (hlive : w'.terminated = false) : SameChoice w w' := by
  by_cases he : ∃ o, e = .run o
  case neg => exact .of_aside (step_aside hg hstep fun o ho => he ⟨o, ho⟩)
  obtain ⟨o, rfl⟩ := he
  obtain ⟨⟨op, tag⟩, q, w₁, replies, hpop, (hop : w.nextOp = some op), hran, hw'⟩ := step_ran hg hstep
  rcases hran.choice with hsame | ⟨retry, w₀, (hc : Calls o _ op retry w₀)⟩
  · rw [hw']
    exact ⟨hsame.requests, hsame.now, hsame.mccHost, hsame.mccFallbackDue, hsame.fAllowMcc,
      hsame.connectionType, hsame.numAttempts, hsame.cbTransferredAtRequestBegin,
      hsame.fOriginalHostAttempted⟩
  cases hc with
  | start hs | resume hs => exact absurd (.inl ⟨hop, fun h => nomatch hs.symm.trans h⟩) hresumes
  | timer hv hwait => exact absurd (.inr ⟨hop, hv, hwait⟩) hresumes
  | retry =>
    obtain ⟨task, q', hpop', -, hrun⟩ := step_run_some hstep
    obtain ⟨rfl, rfl⟩ := Prod.mk.inj (Option.some.inj (hpop.symm.trans hpop'))
    obtain ⟨due, -, hmem⟩ := TaskQueue.exists_of_pop hpop
    rcases runTask_retry (o := o) (hg.popped hpop) (hg.issued_of_own hmem rfl) with hidle | hends | hissues
    · rw [hrun, hidle]
      exact ⟨rfl, le_refl _, rfl, rfl, rfl, rfl, rfl, rfl, rfl⟩
    · rw [← hrun, hlive] at hends
      cases hends
    · rw [← hrun] at hissues
      exact absurd hreq hissues

/-- While it is at work a download keeps its URL. -/
theorem step_url (hg : Good uri w) (hstep : step uri w e = some w') (hs : w.dl.status.state = .transferring) :
    w'.dl.url = w.dl.url := by
  by_cases he : ∃ o, e = .run o
  case neg =>
    obtain ⟨agent, hdl⟩ := (step_aside hg hstep fun o ho => he ⟨o, ho⟩).dl
    rw [hdl]
  obtain ⟨o, rfl⟩ := he
  obtain ⟨⟨op, tag⟩, q, w₁, replies, hpop, -, hran, hw'⟩ := step_ran hg hstep
  by_cases hset : ∃ value, op = .client (.setProperty .uri value)
  case pos =>
    obtain ⟨value, rfl⟩ := hset
    obtain ⟨task, q', hpop', -, hrun⟩ := step_run_some hstep
    obtain ⟨rfl, rfl⟩ := Prod.mk.inj (Option.some.inj (hpop.symm.trans hpop'))
    have hrefused : (setProperty uri o .uri value { w with taskQ := q }).2 = { w with taskQ := q } := by
      simp only [setProperty, DlM.bind_run, DlM.get_run, DlM.ite_run, DlM.throwHr_run, hs]
      split
      · rfl
      split
      · rfl
      rfl
    rw [hrun]
    exact congrArg (·.dl.url) hrefused
  rw [hw']
  cases hran with
  | sendFailed hc hd | sent hc hd =>
    have hkept := hc.calledIn.url
    obtain ⟨_, _, _, _, _, _, _, rfl⟩ := hd.rerouted
    exact hkept
  | urlSet => exact absurd ⟨_, rfl⟩ hset
  | _ => rfl

/-! ## Transferring -/

/-- Only a request, or a resume that needs none, brings a download to Transferring. -/
theorem Life.apply_transferring {l : Life} {a : Act} (hs : (l.apply a).state = .transferring) :
    l.state = .transferring ∨ (∃ t r, a = .send t r) ∨ a = .skipRequest := by
  cases a with
  | send t r => exact .inr (.inl ⟨t, r, rfl⟩)
  | skipRequest => exact .inr (.inr rfl)
  | sendFailed t => exact .inl (by cases t <;> exact hs)
  | failedFatal isClosed =>
    cases isClosed with
    | true => cases hs
    | false => exact .inl hs
  | aborted cancelled => cases cancelled <;> cases hs
  | closed | finalized | completed | failedOffline | timerOffline | alreadyTransferred => cases hs
  | _ => exact .inl hs

/-- A download that is at work with no resume to complete had none to complete before. -/
theorem Life.apply_shortcuts {l : Life} {a : Act} (hs : (l.apply a).state = .transferring)
    (hz : (l.apply a).shortcuts = 0) : l.shortcuts = 0 := by
  cases a with
  | skipRequest => cases hz
  | send t | sendFailed t => cases t <;> exact hz
  | failedFatal isClosed =>
    cases isClosed with
    | true => cases hs
    | false => exact hz
  | aborted cancelled => cases cancelled <;> cases hs
  | finalized | alreadyTransferred => cases hs
  | _ => exact hz

/-- A step that makes no request brings a download to Transferring only as a resume with all bytes there. -/
theorem step_transferring (hg : Good uri w) (hstep : step uri w e = some w') (hreq : w'.requests = w.requests)
    (hs : w'.dl.status.state = .transferring) :
    w.dl.status.state = .transferring ∨ Resumes w e ∧ 0 < w'.life.shortcuts := by
  obtain ⟨-, a, hdoes, hen, -, hlife⟩ := step_leads hg hstep
  rcases Life.apply_transferring (l := w.life) (a := a) (by rw [← hlife]; exact hs) with
    hwas | ⟨t, r, rfl⟩ | rfl
  · exact .inl hwas
  · have hissued : w'.life.requests = r :: w.requests := by rw [hlife]; rfl
    exact absurd (hissued.symm.trans hreq) (List.cons_ne_self _ _)
  · obtain ⟨o, rfl, hop⟩ := hdoes.from
    refine .inr ⟨.inl ⟨hop, fun h => ?_⟩, by rw [hlife]; exact Nat.succ_pos _⟩
    exact nomatch (show w.dl.status.state = .paused from hen.1).symm.trans h

theorem step_shortcuts (hg : Good uri w) (hstep : step uri w e = some w')
    (hs : w'.dl.status.state = .transferring) (hz : w'.life.shortcuts = 0) : w.life.shortcuts = 0 := by
  obtain ⟨-, a, -, -, -, hlife⟩ := step_leads hg hstep
  exact Life.apply_shortcuts (a := a) (by rw [← hlife]; exact hs) (by rw [← hlife]; exact hz)

/-- A request under way is under way until it fails or the download leaves Transferring. -/
theorem step_active (hg : Good uri w) (hstep : step uri w e = some w') (hperiod : SamePeriod w e)
    (hfailure : ∀ o hr hc code text, ¬ e.Runs w o (.transferFailed hr hc code text))
    (hlive : w'.terminated = false) (hs : w'.dl.status.state = .transferring)
    (ha : w.dl.fHttpRequestActive = true) : w'.dl.fHttpRequestActive = true := by
  obtain ⟨-, a, hdoes, hen, -, hlife⟩ := step_leads hg hstep
  have hfrom := hdoes.from
  have hkept : (w.life.apply a).active = true → w'.dl.fHttpRequestActive = true := fun h => by
    rw [← hlife] at h
    exact h
  have hstate : (w.life.apply a).state = .transferring := by rw [← hlife]; exact hs
  have hends : (w.life.apply a).terminated = false := by rw [← hlife]; exact hlive
  refine hkept ?_
  cases a with
  | send => rfl
  | sendFailed t => cases t <;> exact ha
  | closeFailed terminates =>
    -- the client's own pause aside, a failed close ends the agent
    obtain ⟨o, -, ⟨hrun, -⟩ | ⟨-, rfl⟩⟩ := hfrom
    · obtain ⟨rfl, hop⟩ := hrun
      exact absurd hop hperiod.1
    · cases hends
  | finalizeFailed => exact absurd ((show w.dl.status.state = .transferred from hen).symm.trans hstate) nofun
  | failedFatal isClosed =>
    obtain ⟨o, hr, hc, code, text, hrun, -⟩ := hfrom
    exact absurd hrun (hfailure o hr hc code text)
  | failedRetry =>
    obtain ⟨o, hr, hc, code, text, hrun, -⟩ := hfrom
    exact absurd hrun (hfailure o hr hc code text)
  | aborted cancelled => cases cancelled <;> cases hstate
  | closed | finalized | completed | failedOffline => cases hstate
  | _ => exact ha

/-! ## Requests -/

/-- The request was sent to the original host: its URL is the download's. -/
def ToOriginalHost (w : World) (r : IssuedRequest) : Prop := w.dl.connectionType = .cdn ∧ r.url = w.dl.url

/-- The attempt counter after another attempt: up by one, or at one with another source. -/
def Download.Counted (d d' : Download) : Prop := d'.numAttemptsWithCurrentConnectionType =
  if d'.connectionType = d.connectionType then wrap32 (d.numAttemptsWithCurrentConnectionType + 1) else 1

theorem counted_setConnectionType (d : Download) (type : ConnectionType) :
    d.Counted (d.setConnectionType type) := by
  unfold Download.Counted Download.setConnectionType
  split
  · rfl
  · exact (if_pos rfl).symm

theorem updateConnectionTypeAndGetUrl_counted {retry : Bool} {url : String}
    (h : updateConnectionTypeAndGetUrl uri retry w = (.ok url, w')) : w.dl.Counted w'.dl := by
  rcases hn : nextConnectionType w.dl w.now retry with ⟨type, allow⟩
  simp only [updateConnectionTypeAndGetUrl, DlM.bind_run, DlM.get_run, DlM.modify_run, hn, DlM.ite_run,
    DlM.liftExcept_run, DlM.pure_run] at h
  split at h
  · cases hswap : uri.swapUrlHostNameForMCC w.dl.url w.dl.mccHost with
    | error hr =>
      rw [hswap] at h
      cases h
    | ok urlToUse =>
      rw [hswap] at h
      obtain ⟨-, rfl⟩ := Prod.mk.inj h
      exact counted_setConnectionType _ _
  · obtain ⟨-, rfl⟩ := Prod.mk.inj h
    exact counted_setConnectionType _ _

theorem sendRequest_counted {url : String} {proxy : Option String} {range : Option ByteRange} {secs : Nat}
    {hr : Except HResult HResult} (h : sendRequest uri o url proxy range secs w = (hr, w')) :
    w'.dl.connectionType = w.dl.connectionType ∧
      w'.dl.numAttemptsWithCurrentConnectionType = w.dl.numAttemptsWithCurrentConnectionType := by
  unfold sendRequest at h
  split at h
  · obtain ⟨-, rfl⟩ := Prod.mk.inj h
    exact ⟨rfl, rfl⟩
  · simp only at h
    split at h
    all_goals
      obtain ⟨-, rfl⟩ := Prod.mk.inj h
      exact ⟨rfl, rfl⟩

/-- A request handed over is an attempt more. -/
theorem sendHttpRequest_counted {retry : Bool}
    (h : sendHttpRequest uri o retry w = (.ok (), w')) : w.dl.Counted w'.dl := by
  rcases hp : w.dl.proxyList.next with ⟨proxy, proxyList⟩
  simp only [sendHttpRequest, DlM.bind_run, DlM.get_run, DlM.modify_run, DlM.liftExcept_run, hp,
    World.updateDl] at h
  rcases hurl :
    updateConnectionTypeAndGetUrl uri retry { w with dl := { w.dl with proxyList := proxyList } } with
    ⟨_ | url, w₁⟩
  · rw [hurl] at h
    cases h
  rw [hurl] at h
  have hcount := updateConnectionTypeAndGetUrl_counted hurl
  cases hrange : rangeToRequest w₁.dl.status with
  | error hr =>
    simp only [hrange] at h
    cases h
  | ok range =>
    simp only [hrange] at h
    split at h
    · next hr w₂ hs =>
      obtain ⟨htype, hn⟩ := sendRequest_counted hs
      simp only [DlM.throwIfFailed_run] at h
      split at h
      · next hthrow =>
        split at hthrow
        · cases hthrow
        · obtain ⟨-, rfl⟩ := Prod.mk.inj hthrow
          obtain ⟨-, rfl⟩ := Prod.mk.inj h
          rw [noteRequestSent, schedProgressTracking_eq]
          unfold Download.Counted at hcount ⊢
          exact hn.trans (by rw [hcount]; simp only [World.updateDl, Download.requestSent, htype])
      · cases h
    · cases h

theorem start_counted (h : start uri o w = (.ok (), w')) : w.dl.Counted w'.dl := by
  simp only [start, DlM.bind_run, DlM.get_run, DlM.ite_run, DlM.throwHr_run, DlM.modify_run] at h
  split at h
  · cases h
  split at h
  · cases h
  rcases createDestFile_run o w with ⟨-, hc⟩ | ⟨-, hr, hc⟩ | ⟨-, -, hr, hc⟩
  · rw [hc] at h
    simp only [setMccFallbackDue_run] at h
    have hcount := sendHttpRequest_counted h
    unfold Download.Counted at hcount ⊢
    exact hcount
  · rw [hc] at h
    cases h
  · rw [hc] at h
    cases h

/-- A resume makes a request, unless all bytes are there. -/
theorem resume_counted (h : resume uri o w = (.ok (), w')) (hreq : w'.requests ≠ w.requests) :
    w.dl.Counted w'.dl := by
  simp only [resume, DlM.bind_run] at h
  rcases openDestFile_run o w with hopen | ⟨hr, hopen⟩ | ⟨-, hr, hopen⟩
  · rw [hopen] at h
    simp only [DlM.get_run, DlM.ite_run, DlM.modify_run] at h
    split at h
    · obtain ⟨-, rfl⟩ := Prod.mk.inj h
      exact absurd rfl hreq
    · have hcount := sendHttpRequest_counted h
      unfold Download.Counted at hcount ⊢
      cases hallow : w.dl.fAllowMcc <;> simpa [World.updateDl, hallow] using hcount
  · rw [hopen] at h
    cases h
  · rw [hopen] at h
    cases h

/-- A call that throws makes none. -/
theorem sendHttpRequest_error {retry : Bool} {a : HttpAgent} {hr : HResult} (ha : w.dl.httpAgent = some a)
    (h : sendHttpRequest uri o retry w = (.error hr, w')) : w'.requests = w.requests := by
  obtain ⟨_, _, _, -, -, -, ⟨_, _, -, hrun⟩ | ⟨-, _, -, -, -, -, hrun⟩⟩ := sendHttpRequest_run uri o retry ha
  · obtain ⟨-, rfl⟩ := Prod.mk.inj (h.symm.trans hrun)
    rfl
  · cases h.symm.trans hrun

/-- An operation that makes a request counts it. -/
theorem runTask_counted (hg : Good uri w) {retry : Bool} {w₀ : World} (hc : Calls o w op retry w₀)
    (hown : op.own = true → w.requests ≠ []) (hlive : (runTask uri o op w).terminated = false)
    (hreq : (runTask uri o op w).requests ≠ w.requests) : w.dl.Counted (runTask uri o op w).dl := by
  cases hc with
  | start hs =>
    simp only [runTask, clientRequest, performStateChange, DlM.bind_run, DlM.get_run, hs] at hreq ⊢
    rcases hstart : start uri o w with ⟨hr | ⟨⟩, w₁⟩
    · rw [hstart] at hreq
      rcases start_run uri o w with ⟨-, e, h⟩ | ⟨-, -, e, h⟩ | ⟨-, d, -, hagent, h⟩
      · exact absurd (congrArg (·.2.requests) (hstart.symm.trans h)) hreq
      · exact absurd (congrArg (·.2.requests) (hstart.symm.trans h)) hreq
      · exact absurd (sendHttpRequest_error hagent (h.symm.trans hstart)) hreq
    · exact (start_counted hstart :)
  | resume hs =>
    obtain ⟨a, ha⟩ := Option.isSome_iff_exists.1 (hg.agent (hg.issued (by simp [hs]) (by simp [hs])))
    simp only [runTask, clientRequest, performStateChange, DlM.bind_run, DlM.get_run, hs] at hreq ⊢
    rcases hresume : resume uri o w with ⟨hr | ⟨⟩, w₁⟩
    · rw [hresume] at hreq
      rcases resume_run uri o w with ⟨e, h⟩ | ⟨-, e, h⟩ | ⟨-, -, h⟩ | ⟨-, d, -, hagent, h⟩
      · exact absurd (congrArg (·.2.requests) (hresume.symm.trans h)) hreq
      · exact absurd (congrArg (·.2.requests) (hresume.symm.trans h)) hreq
      · cases hresume.symm.trans h
      · exact absurd (sendHttpRequest_error (hagent.trans ha) (h.symm.trans hresume)) hreq
    · rw [hresume] at hreq
      exact (resume_counted hresume hreq :)
  | timer hv hwait =>
    simp only [runTask, runOp, resumeAfterTransientError, DlM.bind_run, DlM.get_run, DlM.ite_run, hv,
      if_true, hwait] at hlive ⊢
    rcases hsend : sendHttpRequest uri o false w with ⟨hr | ⟨⟩, w₁⟩
    · rw [hsend] at hlive
      cases hlive
    · exact (sendHttpRequest_counted hsend :)
  | retry hs ha =>
    simp only [runTask, runOp, DlM.bind_run, DlM.get_run, DlM.ite_run, hs, ha, Bool.false_eq_true,
      not_false_eq_true, and_self, if_true] at hlive ⊢
    rcases hsend : sendHttpRequest uri o true w with ⟨hr | ⟨⟩, w₁⟩
    · rw [hsend] at hlive
      cases hlive
    · exact sendHttpRequest_counted hsend

/-- What a step that hands over a request leaves. -/
structure Attempt (uri : UriLib) (w : World) (r : IssuedRequest) (w' : World) : Prop where
  requests : w'.requests = r :: w.requests
  now : w'.now = w.now
  url : w'.dl.url = w.dl.url
  source : ToCacheHost uri w' r ∨ ToOriginalHost w' r
  counted : w.dl.Counted w'.dl
  startOffset : r.startOffset = w.dl.status.bytesTransferred
  cbTransferredAtRequestBegin : w'.dl.cbTransferredAtRequestBegin = w.dl.status.bytesTransferred
  fOriginalHostAttempted :
    w'.dl.fOriginalHostAttempted = (w.dl.fOriginalHostAttempted || w'.dl.connectionType == .cdn)
  transferring : w'.dl.status.state = .transferring
  active : w'.dl.fHttpRequestActive = true

/-- What it leaves of the choice as a retry. -/
structure Retried (uri : UriLib) (w w' : World) : Prop where
  transferring : w.dl.status.state = .transferring
  inactive : w.dl.fHttpRequestActive = false
  shortcuts : w.life.shortcuts = 0
  mccHost : w'.dl.mccHost = w.dl.mccHost
  mccFallbackDue : w'.dl.mccFallbackDue = w.dl.mccFallbackDue
  fAllowMcc : w'.dl.fAllowMcc = (nextConnectionType w.dl w.now true).2
  connectionType : w'.dl.connectionType = w.chosenType uri true

/-- The URL of a request and the connection type it was chosen with. -/
theorem source_of_route {retry : Bool} {r : IssuedRequest}
    (htype : w'.dl.connectionType = w.chosenType uri retry) (hroute : w.route uri retry = .ok r.url)
    (hurl : w'.dl.url = w.dl.url) (hhost : w'.dl.mccHost = w.dl.mccHost) :
    ToCacheHost uri w' r ∨ ToOriginalHost w' r := by
  unfold World.chosenType at htype
  unfold World.route at hroute
  split at htype
  · next husing =>
    rw [if_pos husing] at hroute
    simp only [usesMcc, Bool.and_eq_true, Bool.not_eq_true'] at husing
    exact .inl ⟨htype, hhost ▸ husing.1.2, by rw [hurl, hhost]; exact hroute⟩
  · next husing =>
    rw [if_neg husing] at hroute
    exact .inr ⟨htype, (Except.ok.inj hroute).symm.trans hurl.symm⟩

/-- **A step that makes a request** resumes the download or retries a request of it. -/
theorem step_attempt (hg : Good uri w) (hstep : step uri w e = some w') (hreq : w'.requests ≠ w.requests) :
    ∃ o op r, e.Runs w o op ∧ op.route w o = some (w'.dl.mccHost, w'.dl.mccFallbackDue) ∧
      Attempt uri w r w' ∧ (Resumes w e ∨ op = .retry ∧ Retried uri w w') := by
  by_cases he : ∃ o, e = .run o
  case neg => exact absurd (step_aside hg hstep fun o ho => he ⟨o, ho⟩).requests hreq
  obtain ⟨o, rfl⟩ := he
  obtain ⟨⟨op, tag⟩, q, w₁, replies, hpop, (hop : w.nextOp = some op), hran, hw'⟩ := step_ran hg hstep
  obtain ⟨task, q', hpop', -, hrun⟩ := step_run_some hstep
  obtain ⟨rfl, rfl⟩ := Prod.mk.inj (Option.some.inj (hpop.symm.trans hpop'))
  have hreq₁ : w₁.requests ≠ w.requests := by rw [hw'] at hreq; exact hreq
  obtain ⟨due, -, hmem⟩ := TaskQueue.exists_of_pop hpop
  cases hran with
  | sendFailed hc => exact absurd hc.calledIn.requests hreq₁
  | @sent _ retry w₀ d r n hc hd hr =>
    have hin := hc.calledIn
    have hstatus : w₀.dl.status = w.dl.status ∧
        w₀.dl.fOriginalHostAttempted = w.dl.fOriginalHostAttempted := by
      cases hc with
      | start _ _ hset | resume _ _ hset =>
        obtain ⟨_, _, _, _, _, _, _, rfl⟩ := hset.rerouted
        exact ⟨rfl, rfl⟩
      | timer | retry => exact ⟨rfl, rfl⟩
    have hkept : d.url = w₀.dl.url ∧ d.status = w₀.dl.status ∧
        d.fOriginalHostAttempted = w₀.dl.fOriginalHostAttempted := by
      obtain ⟨_, _, _, _, _, _, _, rfl⟩ := hd.rerouted
      exact ⟨rfl, rfl, rfl⟩
    have htype : d.connectionType = w₀.chosenType uri retry :=
      hd.connectionType.resolve_right fun h => absurd h.1 (by simp)
    have hlive : w'.terminated = false := by
      rw [hw', ← (step_leads hg hstep).1]
      cases hc <;> rfl
    have hcounted : w.dl.Counted w'.dl := by
      rw [hrun] at hlive hreq ⊢
      exact runTask_counted (hg.popped hpop) hc (hg.issued_of_own hmem) hlive hreq
    refine ⟨o, op, r, ⟨rfl, hop⟩, ?_, ?_, ?_⟩
    · have hroute := hin.route
      rw [← hd.mccHost, ← hd.mccFallbackDue] at hroute
      rw [hw']
      exact hroute
    · rw [hw'] at hcounted ⊢
      exact ⟨rfl, hin.now, hkept.1.trans hin.url, source_of_route htype hr.url hkept.1 hd.mccHost, hcounted,
        hr.startOffset.trans (by rw [hstatus.1]), by simp [Download.requestSent, hkept.2.1, hstatus.1],
        by simp [Download.requestSent, hkept.2.2, hstatus.2], rfl, rfl⟩
    · rw [hw']
      cases hc with
      | start hs | resume hs => exact .inl (.inl ⟨hop, fun h => absurd (hs.symm.trans h) (by simp)⟩)
      | timer hv hwait => exact .inl (.inr ⟨hop, hv, hwait⟩)
      | retry hs ha =>
        refine .inr ⟨rfl, hs, ha, ?_, hd.mccHost, hd.mccFallbackDue, hd.fAllowMcc, htype⟩
        exact hg.orderly.noShortcut hpop rfl
  | _ => exact absurd rfl hreq₁

end DoClient
