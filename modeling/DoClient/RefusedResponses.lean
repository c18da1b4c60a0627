/-
A request whose `OnHeadersAvailable` or `OnData` returned a failure. The agent
keeps it in `hrCallback` and hands it to `OnComplete`, which goes by the other
result: the request fails exactly when libcurl, too, has failed it.
-/
import DoClient.Callbacks
import DoClient.Effects

namespace DoClient

open HResult

/-- What a callback about the response returned. -/
def EventCall.reports : EventCall → Option HResult
  | .onHeadersAvailable result | .onData _ result => some result
  | .onComplete .. => none

/-! ## What the agent keeps of the failure -/

namespace Request

variable {r r' : Request}

/-- `hrCallback` is the failure a callback returned, and is what `OnComplete` is told. -/
structure Answered (r : Request) : Prop where
  latched : ∀ c ∈ r.calls, ∀ hr ∈ c.reports, failed hr = true → r.agent.hrCallback = hr
  told : ∀ hrRequest hrCallback, .onComplete hrRequest hrCallback ∈ r.calls → hrCallback = r.agent.hrCallback

/-- While libcurl is at work the end has not been told. -/
theorem Kept.not_told (h : r.Kept) (hopen : r.curlResult = none) (hrRequest hrCallback : HResult) :
    .onComplete hrRequest hrCallback ∉ r.calls := by
  intro hmem
  have hnone := (protocol.complete_last h.word nofun).2 (phase_ne_done hopen) _ hmem
  cases hnone

/-- Headers that are shown are the first call, and their result is kept. -/
theorem Answered.headersTried (h : r.Answered) (hk : r.Kept) (hopen : r.curlResult = none) (ans : Answers) :
    (r.headersTried ans).Answered := by
  have hword := hk.word
  unfold Request.headersTried HttpAgent.trySetStatusCode
  cases hinv : r.agent.responseOnHeadersAvailableInvoked with
  | true =>
    simp only [if_true, List.append_nil]
    exact ⟨h.latched, h.told⟩
  | false =>
    have hfresh : r.phase = .fresh := by simp [phase, hopen, hinv]
    rw [hfresh] at hword
    rw [protocol.runFrom_fresh hword]
    simp only [Bool.false_eq_true, if_false, List.nil_append]
    split
    · refine ⟨fun c hc hr hrep _ => ?_, fun hrRequest hrCallback hmem => ?_⟩
      · rw [List.mem_singleton.1 hc] at hrep
        exact Option.some.inj hrep
      · cases List.mem_singleton.1 hmem
    · exact ⟨(by simp), (by simp)⟩

theorem Answered.step (h : r.Answered) (hk : r.Kept) {e : RequestEvent} (hstep : r.step e = some r') :
    r'.Answered := by
  cases e with
  | status code =>
    simp only [Request.step] at hstep
    split at hstep
    · cases hstep
    · obtain rfl := Option.some.inj hstep
      exact ⟨h.latched, h.told⟩
  | header line =>
    simp only [Request.step] at hstep
    split at hstep
    · cases hstep
    · obtain rfl := Option.some.inj hstep
      exact ⟨h.latched, h.told⟩
  | write cbBuffer ans =>
    obtain ⟨hopen, hcases⟩ := step_write hstep
    have htried := h.headersTried hk hopen ans
    have hnot := (hk.headersTried hopen ans).1.not_told hopen
    rcases hcases with ⟨-, htaken, rfl⟩ | ⟨-, rfl⟩
    · refine ⟨fun c hc hr hrep hfailed => ?_, fun hrRequest hrCallback hmem => ?_⟩
      · rcases List.mem_append.1 hc with hc | hc
        · -- data is shown only while nothing was refused
          rw [htried.latched c hc hr hrep hfailed, succeeded, hfailed] at htaken
          cases htaken
        · rw [List.mem_singleton.1 hc] at hrep
          exact Option.some.inj hrep
      · rcases List.mem_append.1 hmem with hmem | hmem
        · exact absurd hmem (hnot hrRequest hrCallback)
        · cases List.mem_singleton.1 hmem
    · exact ⟨htried.latched, htried.told⟩
  | complete curlResult ans =>
    have hcompleted : r.curlResult = none → r.agent.responseOnCompleteInvoked = false := fun hopen => by
      simp [hk.completed, hopen]
    obtain ⟨hopen, s, hrRequest, hs, rfl⟩ := step_complete hcompleted hstep
    have hanswered : s.Answered ∧ ∀ hr hr', .onComplete hr hr' ∉ s.calls := by
      rcases hs with ⟨-, rfl, -⟩ | ⟨-, rfl, -⟩
      · exact ⟨h.headersTried hk hopen ans, (hk.headersTried hopen ans).1.not_told hopen⟩
      · exact ⟨h, hk.not_told hopen⟩
    obtain ⟨hanswered, hnot⟩ := hanswered
    refine ⟨fun c hc hr hrep hfailed => ?_, fun hr hr' hmem => ?_⟩
    · rcases List.mem_append.1 hc with hc | hc
      · exact hanswered.latched c hc hr hrep hfailed
      · rw [List.mem_singleton.1 hc] at hrep
        cases hrep
    · rcases List.mem_append.1 hmem with hmem | hmem
      · exact absurd hmem (hnot hr hr')
      · exact (EventCall.onComplete.inj (List.mem_singleton.1 hmem)).2

theorem answered_reachable {uri : UriLib} (h : Trans.Reachable (agentRequests uri) r) : r.Answered :=
  Trans.ReachableBy.invariant_of Kept (fun _ => kept_reachable) Answered
    (fun _ ⟨_, _, _, _, _, _, heq⟩ => heq ▸ ⟨nofun, nofun⟩)
    (fun _ _ _ hk _ h _ hstep => h.step hk hstep) h

/-- A chunk with bytes in it is not taken after a failure: libcurl has to fail the request. -/
theorem shortCount_of_refused {uri : UriLib} (h : Trans.Reachable (agentRequests uri) r) {cbBuffer : Nat}
    {ans : Answers} (hstep : r.step (.write cbBuffer ans) = some r') (hbytes : cbBuffer ≠ 0)
    {c : EventCall} (hc : c ∈ r'.calls) (hrefused : c.refused = true) :
    r'.shortCount = true ∧ ∀ ans, r'.step (.complete 0 ans) = none := by
  have hstep' : (agentRequests uri).step r (.write cbBuffer ans) = some r' := hstep
  have hr' := answered_reachable (.step h trivial hstep')
  have hshort : r'.shortCount = true := by
    obtain ⟨hopen, ⟨-, -, rfl⟩ | ⟨-, rfl⟩⟩ := step_write hstep
    · have hfailed : succeeded ans.onData = false := by
        cases c with
        | onHeadersAvailable result | onData n result =>
          have hkept : ans.onData = result := hr'.latched _ hc result rfl hrefused
          rw [hkept, succeeded, show failed result = true from hrefused]
          rfl
        | onComplete => cases hrefused
      simpa [hfailed] using hbytes.symm
    · simpa using hbytes.symm
  exact ⟨hshort, fun ans => by simp [Request.step, hshort]⟩

end Request

/-! ## What `OnComplete` makes of it -/

/-- A task that ends a request in failure: without network the download waits for it; else it is paused with
the error, or its file cannot be closed, and the status stays. -/
def HandlesFailure (uri : UriLib) (hr : HResult) (op : Op) : Prop :=
  ∀ v o v', Trans.Reachable (agent uri) v → v.nextOp = some op → step uri v (.run o) = some v' →
    v'.dl.status = if o.hasViableInterface = false then v.dl.status.paused S_OK DO_E_BLOCKED_BY_NO_NETWORK
      else if v.closes o = true then v.dl.status.paused hr S_OK else v.dl.status

/-- The failure handling of `OnComplete` is scheduled, with an error of a callback. -/
def EndsInFailure (uri : UriLib) (hr : HResult) (w w' : World) : Prop :=
  ∃ hrRequest code text, w'.taskQ =
    w.taskQ.add w.now (.transferFailed hrRequest hr code text) 0 (some .download) ∧
    HandlesFailure uri hr (.transferFailed hrRequest hr code text)

variable {uri : UriLib} {hr hrRequest : HResult} {w : World} {a : HttpAgent}

/-- An error of a callback is fatal. -/
theorem handlesFailure_of_failed (hf : failed hr = true) (code : Nat) (text : String) :
    HandlesFailure uri hr (.transferFailed hrRequest hr code text) := by
  intro v o v' hv hop hstep
  obtain ⟨task, q, hpop, hnext, rfl⟩ := step_run_some hstep
  obtain ⟨op, tag⟩ := task
  obtain rfl := Option.some.inj (hop.symm.trans hnext)
  have hg := (good_reachable hv).popped hpop
  obtain ⟨due, -, hmem⟩ := TaskQueue.exists_of_pop hpop
  have hne := (good_reachable hv).issued_of_own hmem rfl
  obtain ⟨mcc, hrun⟩ := transferFailed_run uri o hrRequest hr code text { v with taskQ := q }
  have hfatal : v.dl.isFatalError hrRequest hr code = true := by simp [Download.isFatalError, hf]
  simp only [runTask, runOp, hrun _ rfl, hfatal, if_true]
  cases o.hasViableInterface with
  | false => rfl
  | true =>
    have hg₁ := hg.setStatus hne (hg.ne_created hne) false code text mcc
    simp only [Bool.true_eq_false, if_false]
    obtain ⟨c, -, ⟨hcloses, hpause⟩ | ⟨hcloses, e, hpause⟩⟩ := pause_run hg₁ o
    · have hcloses : v.closes o = true := hcloses
      rw [DlM.bind_run, hpause, if_pos hcloses]
      simp [unguarded, hrErrorToReport, hf, World.updateStatus, World.updateDl, DownloadStatus.paused]
    · have hcloses : v.closes o = false := hcloses
      rw [DlM.bind_run, hpause, hcloses]
      rfl

/-- `OnComplete` goes by the result of the request alone. -/
theorem endsInFailure_iff (ha : w.dl.httpAgent = some a) (hf : failed hr = true) :
    EndsInFailure uri hr w (onComplete hrRequest hr w) ↔ failed hrRequest = true := by
  unfold EndsInFailure onComplete
  simp only [ha]
  by_cases hs : failed hrRequest = true
  · have hnot : ¬ succeeded hrRequest = true := by simp [succeeded, hs]
    rw [if_neg hnot]
    exact iff_of_true ⟨_, _, _, rfl, handlesFailure_of_failed hf _ _⟩ hs
  · have hok : succeeded hrRequest = true := by simpa [succeeded] using hs
    rw [if_pos hok]
    refine iff_of_false ?_ hs
    rintro ⟨hr', code, text, hq, -⟩
    cases TaskQueue.add_inj hq

/-- **A failure of a callback ends its request in failure exactly when libcurl fails the request as well.** -/
theorem refused_request_fails_iff {r : Request} (h : Trans.Reachable (agentRequests uri) r) {curlResult : Nat}
    (hdone : r.curlResult = some curlResult) {c : EventCall} (hc : c ∈ r.calls) (hrep : c.reports = some hr)
    (hf : failed hr = true) (ha : w.dl.httpAgent = some r.agent) :
    ∃ pre hrRequest, r.calls = pre ++ [.onComplete hrRequest hr] ∧
      (EndsInFailure uri hr w (onComplete hrRequest hr w) ↔ curlResult ≠ 0) := by
  have hkept := Request.kept_reachable h
  have hanswered := Request.answered_reachable h
  obtain ⟨pre, hrRequest, hrCallback, hcalls, hsuccess⟩ := hkept.ended curlResult hdone
  have hlast : hrCallback = hr :=
    (hanswered.told hrRequest hrCallback (by simp [hcalls])).trans (hanswered.latched c hc hr hrep hf)
  subst hlast
  refine ⟨pre, hrRequest, hcalls, ?_⟩
  have haccepted : r.accepted = true := by
    refine (protocol.word_of_run hkept.word).accepted c hc ?_
    cases c with
    | onHeadersAvailable => exact .inl rfl
    | onData => exact .inr rfl
    | onComplete => cases hrep
  rw [endsInFailure_iff ha hf]
  rw [haccepted, and_iff_left rfl, succeeded] at hsuccess
  cases hs : failed hrRequest with
  | true => simpa [hs] using hsuccess
  | false => simpa [hs] using hsuccess

/-- A chunk that did not fit on the disk. -/
theorem refused_request_fails_refusedChunk : ∃ (r : Request) (pre : List EventCall) (hrRequest : HResult),
    Trans.Reachable (agentRequests plainUri) r ∧ r.calls = pre ++ [.onComplete hrRequest ERROR_BAD_LENGTH] ∧
    EndsInFailure plainUri ERROR_BAD_LENGTH { newDownload with dl.httpAgent := some r.agent }
      (onComplete hrRequest ERROR_BAD_LENGTH { newDownload with dl.httpAgent := some r.agent }) := by
  obtain ⟨handle, headers, hinit⟩ := Request.exists_init
  obtain ⟨r, hrun, hdone, hcalls⟩ : ∃ r, (agentRequests plainUri).runFrom
      { agent := { curlHandle := handle, requestHeaders := headers } } Request.refusedChunk = some r ∧
      r.curlResult = some HttpAgent.CURLE_WRITE_ERROR ∧ r.calls.take 3 =
        [.onHeadersAvailable S_OK, .onData 4 S_OK, .onData 4 ERROR_BAD_LENGTH] := ⟨_, rfl, rfl, rfl⟩
  have hmem : .onData 4 ERROR_BAD_LENGTH ∈ r.calls.take 3 := by simp [hcalls]
  have hreach := Trans.reachable_of_runFrom (.init hinit) hrun
  obtain ⟨pre, hrRequest, hend, hiff⟩ := @refused_request_fails_iff plainUri _
    { newDownload with dl.httpAgent := some r.agent } r hreach _ hdone _ (List.mem_of_mem_take hmem) rfl
      (by decide) rfl
  exact ⟨r, pre, hrRequest, hreach, hend, hiff.2 (by decide)⟩

/-- A 206 that tells no range and has no body: `OnHeadersAvailable` fails, and the download is taken for transferred. -/
theorem transferred_after_refusal : ∃ w, Trans.Reachable (agent plainUri) w ∧ w.requests.length = 1 ∧
    w.dl.httpAgent.map (·.hrCallback) = some E_NOT_SET ∧ failed E_NOT_SET = true ∧
    w.dl.status.state = .transferred := by
  have hrun : ((agent plainUri).runFrom newDownload [.request .start, .run {}, .drain, .curl (.status 206),
      .curl (.complete 0 0), .run {}]).map (fun w => (w.requests.length, w.dl.httpAgent.map (·.hrCallback),
        w.dl.status.state)) = some (1, some E_NOT_SET, .transferred) := by decide +kernel
  obtain ⟨w, hr, hstatus⟩ := Trans.reachable_of_replay reachable_newDownload hrun
  simp only [Prod.mk.injEq] at hstatus
  exact ⟨w, hr, hstatus.1, hstatus.2.1, by decide, hstatus.2.2⟩

end DoClient
