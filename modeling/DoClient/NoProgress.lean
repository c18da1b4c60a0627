/-
The pause for lack of progress: when a run reaches it, and how often the bytes
transferred were found unchanged before, since the download last entered
Transferring.
-/
import DoClient.Effects
import DoClient.Ledger

namespace DoClient

open HResult

variable {uri : UriLib} {o : Outside} {w w' : World} {e : Event} {op : Op}

/-! ## The error of the progress check -/

/-- `DO_E_DOWNLOAD_NO_PROGRESS` is no errno, -/
theorem fromXplatSyserr_ne (err : Nat) : fromXplatSyserr err ≠ DO_E_DOWNLOAD_NO_PROGRESS := by
  intro h
  have hint : (fromXplatSyserr err).toInt = (DO_E_DOWNLOAD_NO_PROGRESS).toInt := by rw [h]
  have hnp : (DO_E_DOWNLOAD_NO_PROGRESS).toInt = -2133843966 := by decide
  rw [hnp, fromXplatSyserr, Int32.toInt_ofNat', Int.bmod_def] at hint
  simp only [Int32.size] at hint
  omega

theorem ite_ne {c : Prop} [Decidable c] {a b x : HResult} (ha : a ≠ x) (hb : b ≠ x) :
    (if c then a else b) ≠ x := by
  split
  exacts [ha, hb]

/-- no result of a status code, -/
theorem resultFromStatusCode_ne (code : Nat) :
    HttpAgent.resultFromStatusCode code ≠ DO_E_DOWNLOAD_NO_PROGRESS := by
  unfold HttpAgent.resultFromStatusCode
  repeat' apply ite_ne
  all_goals decide

/-- and none of libcurl. -/
theorem curlErrorCodeToHResult_ne (curlResult : Nat) :
    HttpAgent.curlErrorCodeToHResult curlResult ≠ DO_E_DOWNLOAD_NO_PROGRESS := by
  unfold HttpAgent.curlErrorCodeToHResult
  repeat' apply ite_ne
  all_goals first | decide | exact fromXplatSyserr_ne _

theorem bytesTotal_error_ne {a : HttpAgent} {indeterminate : Nat} {hr : HResult}
    (h : a.bytesTotal indeterminate = .error hr) : hr ≠ DO_E_DOWNLOAD_NO_PROGRESS := by
  have hcases : hr = E_NOT_SET ∨ hr = ERROR_UNHANDLED_EXCEPTION := by
    simp only [HttpAgent.bytesTotal, HttpAgent.queryContentLength, HttpAgent.queryContentLengthFromRange,
      HttpAgent.queryHeader] at h
    grind
  rcases hcases with rfl | rfl <;> decide

theorem appendFileStream_ne (chunk : List UInt8) (out : WriteOutcome) (w : World) :
    (appendFileStream chunk out w).1 ≠ DO_E_DOWNLOAD_NO_PROGRESS := by
  unfold appendFileStream
  cases w.dl.fileStream with
  | none => exact fromXplatSyserr_ne _
  | some path =>
    cases out with
    | error errno => exact fromXplatSyserr_ne _
    | wrote n =>
      simp only
      split
      · exact fromXplatSyserr_ne _
      split
      · show ERROR_BAD_LENGTH ≠ DO_E_DOWNLOAD_NO_PROGRESS
        decide
      · show S_OK ≠ DO_E_DOWNLOAD_NO_PROGRESS
        decide

/-! ## The errors of requests -/

/-- No result of a request, taken in or queued, is the error of the progress check. -/
structure Distinct (w : World) : Prop where
  agent : ∀ a, w.dl.httpAgent = some a →
    a.hrTranslatedStatusCode ≠ DO_E_DOWNLOAD_NO_PROGRESS ∧ a.hrCallback ≠ DO_E_DOWNLOAD_NO_PROGRESS
  queued : ∀ t ∈ w.taskQ.tasks, ∀ hr hc code text, t.op = .transferFailed hr hc code text →
    hr ≠ DO_E_DOWNLOAD_NO_PROGRESS ∧ hc ≠ DO_E_DOWNLOAD_NO_PROGRESS

theorem Distinct.same (h : Distinct w) (ha : w'.dl.httpAgent = w.dl.httpAgent)
    (hq : ∀ t ∈ w'.taskQ.tasks, t ∈ w.taskQ.tasks ∨ t.op.update ≠ some .failed) : Distinct w' := by
  refine ⟨fun a h' => h.agent a (ha ▸ h'), fun t ht hr hc code text hop => ?_⟩
  rcases hq t ht with ht | hne
  · exact h.queued t ht hr hc code text hop
  · exact absurd (by rw [hop]; rfl) hne

theorem Distinct.updateAgent (h : Distinct w) {f : HttpAgent → HttpAgent}
    (hf : ∀ a, w.dl.httpAgent = some a → (f a).hrTranslatedStatusCode ≠ DO_E_DOWNLOAD_NO_PROGRESS ∧
      (f a).hrCallback ≠ DO_E_DOWNLOAD_NO_PROGRESS) : Distinct (w.updateAgent f) := by
  refine ⟨fun a' ha' => ?_, h.queued⟩
  obtain ⟨a, ha, rfl⟩ := Option.map_eq_some_iff.1 ha'
  exact hf a ha

theorem Distinct.sched (h : Distinct w) {op : Op} (hop : op.update ≠ some .failed) (delay : Int) (tag : Tag) :
    Distinct (w.sched op delay tag) := by
  refine h.same rfl fun t ht => ?_
  rcases TaskQueue.mem_tasks_add.1 ht with rfl | ht
  exacts [.inr hop, .inl ht]

theorem Distinct.onHeadersAvailable (h : Distinct w) (indeterminate : Nat) :
    (onHeadersAvailable indeterminate w).1 ≠ DO_E_DOWNLOAD_NO_PROGRESS ∧
      Distinct (DoClient.onHeadersAvailable indeterminate w).2 := by
  have hok : S_OK ≠ DO_E_DOWNLOAD_NO_PROGRESS := by decide
  unfold DoClient.onHeadersAvailable
  cases ha : w.dl.httpAgent with
  | none =>
    refine ⟨?_, h⟩
    show E_UNEXPECTED ≠ DO_E_DOWNLOAD_NO_PROGRESS
    decide
  | some a =>
    cases hb : a.bytesTotal indeterminate with
    | error hr =>
      simp only [hb]
      exact ⟨bytesTotal_error_ne hb, h⟩
    | ok n =>
      simp only [hb]
      exact ⟨hok, h.sched (by nofun) 0 .download⟩

theorem Distinct.onData (h : Distinct w) (chunk : List UInt8) (out : WriteOutcome) :
    (onData chunk out w).1 ≠ DO_E_DOWNLOAD_NO_PROGRESS ∧ Distinct (DoClient.onData chunk out w).2 := by
  have happend : Distinct (appendFileStream chunk out w).2 := by
    unfold appendFileStream
    split
    · exact h
    split
    · exact h
    simp only
    split
    · exact h
    split <;> exact h.same rfl fun t ht => .inl ht
  have hne := appendFileStream_ne chunk out w
  have hok : S_OK ≠ DO_E_DOWNLOAD_NO_PROGRESS := by decide
  unfold DoClient.onData
  split
  next hr w₁ heq =>
  rw [heq] at happend hne
  split
  · exact ⟨hne, happend⟩
  · exact ⟨hok, happend.sched (by nofun) 0 .download⟩

theorem Distinct.trySetStatusCode (h : Distinct w) (code indeterminate : Nat) :
    Distinct (trySetStatusCodeAndInvokeOnHeadersAvailable code indeterminate w) := by
  unfold trySetStatusCodeAndInvokeOnHeadersAvailable
  split
  · exact h
  split
  · exact h
  have hset : Distinct (w.updateAgent fun a => { a with
      responseOnHeadersAvailableInvoked := true, responseStatusCode := code
      hrTranslatedStatusCode := HttpAgent.resultFromStatusCode code }) :=
    h.updateAgent fun a ha => ⟨resultFromStatusCode_ne code, (h.agent a ha).2⟩
  simp only
  split
  · obtain ⟨hne, hd⟩ := hset.onHeadersAvailable indeterminate
    exact hd.updateAgent fun a ha => ⟨(hd.agent a ha).1, hne⟩
  · exact hset

theorem Distinct.writeCallback (h : Distinct w) (code : Nat) (chunk : List UInt8) (out : WriteOutcome)
    (indeterminate : Nat) : Distinct (writeCallback code chunk out indeterminate w).2 := by
  have hset := h.trySetStatusCode code indeterminate
  unfold DoClient.writeCallback
  simp only
  split
  · exact hset
  split
  · obtain ⟨hne, hd⟩ := hset.onData (chunk.take (wrap32 chunk.length)) out
    exact hd.updateAgent fun a ha => ⟨(hd.agent a ha).1, hne⟩
  · exact hset

theorem Distinct.completeCallback (h : Distinct w) (code curlResult indeterminate : Nat) :
    Distinct (completeCallback code curlResult indeterminate w) := by
  unfold DoClient.completeCallback
  split
  · exact h
  next a ha =>
  split
  · exact h
  have hset : Distinct (w.updateAgent fun a => { a with responseOnCompleteInvoked := true }) :=
    h.updateAgent fun a ha => h.agent a ha
  have hresult : Distinct (if curlResult = 0 then
        trySetStatusCodeAndInvokeOnHeadersAvailable code indeterminate
          (w.updateAgent fun a => { a with responseOnCompleteInvoked := true })
      else if succeeded a.hrTranslatedStatusCode then
        (w.updateAgent fun a => { a with responseOnCompleteInvoked := true }).updateAgent fun a => { a with
          hrTranslatedStatusCode := HttpAgent.curlErrorCodeToHResult curlResult }
      else w.updateAgent fun a => { a with responseOnCompleteInvoked := true }) := by
    split
    · exact hset.trySetStatusCode code indeterminate
    split
    · exact hset.updateAgent fun a ha => ⟨curlErrorCodeToHResult_ne curlResult, (hset.agent a ha).2⟩
    · exact hset
  simp only
  split
  · exact hresult
  next a₁ ha₁ =>
  unfold onComplete
  rw [ha₁]
  simp only
  split
  · exact hresult.sched (by nofun) 0 .download
  · refine ⟨hresult.agent, fun t ht hr hc code' text hop => ?_⟩
    rcases TaskQueue.mem_tasks_add.1 ht with rfl | ht
    · obtain ⟨rfl, rfl, -, -⟩ := Op.transferFailed.inj hop
      exact hresult.agent a₁ ha₁
    · exact hresult.queued t ht hr hc code' text hop

theorem mem_tasks_addFront {q : TaskQueue Op Tag} {now : Int} {op : Op} {tag : Option Tag} {t : Task Op Tag}
    (h : t ∈ (q.addFront now op tag).tasks) : t.op = op ∨ t ∈ q.tasks := by
  obtain ⟨e, he, rfl⟩ := List.mem_map.1 h
  rcases TaskQueue.mem_addFront he with ⟨due, -, rfl⟩ | he
  exacts [.inl rfl, .inr (List.mem_map_of_mem he)]

theorem Distinct.checkedQueue (h : Distinct w) (ha : w'.dl.httpAgent = w.dl.httpAgent)
    (hq : w'.taskQ = w.checkedQueue) :
    Distinct w' := by
  refine h.same ha fun t ht => ?_
  rw [hq] at ht
  unfold World.checkedQueue at ht
  split at ht
  · exact .inl ht
  · rcases TaskQueue.mem_tasks_add.1 ht with rfl | ht
    exacts [.inr (by rintro ⟨⟩), .inl ht]

/-- A request that is issued leaves the results of the agent it found, or none yet. -/
theorem Distinct.routed {w₀ : World} {retry decided : Bool} {d : Download} (h : Distinct w)
    (hc : Calls o w op retry w₀) (hd : Routed uri retry decided w₀ d) : Distinct { w with dl := d } := by
  refine ⟨fun a' ha' => ?_, h.queued⟩
  obtain ⟨a, ha, hres⟩ := hd.agent a' ha'
  have hkept :
    a.hrTranslatedStatusCode ≠ DO_E_DOWNLOAD_NO_PROGRESS ∧ a.hrCallback ≠ DO_E_DOWNLOAD_NO_PROGRESS := by
    cases hc with
    | start _ _ _ hagent =>
      obtain rfl := Option.some.inj (hagent.symm.trans ha)
      decide
    | resume _ _ _ hagent => exact h.agent a (hagent ▸ ha)
    | timer | retry => exact h.agent a ha
  rcases hres with ⟨h₁, h₂⟩ | ⟨h₁, h₂⟩
  · rw [h₁, h₂]
    exact hkept
  · rw [h₁, h₂]
    decide

theorem Ran.distinct (hran : Ran uri o w op w') (h : Distinct w) : Distinct w' := by
  have hsame : ∀ {w' : World}, w'.dl.httpAgent = w.dl.httpAgent → w'.taskQ = w.taskQ → Distinct w' :=
    fun ha hq =>
    h.same ha fun t ht => .inl (hq ▸ ht)
  cases hran with
  | idle => exact h
  | sendFailed hc hd =>
    have hr := h.routed hc hd
    cases hc <;> exact ⟨hr.agent, hr.queued⟩
  | sent hc hd => exact Distinct.checkedQueue (w := { w with dl := _ }) (h.routed hc hd) rfl rfl
  | skipped =>
    refine h.same rfl fun t ht => ?_
    rcases mem_tasks_addFront ht with hop | ht
    exacts [.inr (by rw [hop]; rintro ⟨⟩), .inl ht]
  | finalized | aborted =>
    refine h.same rfl fun t ht => .inl ?_
    simp only [World.cancelTasks, TaskQueue.tasks_remove, List.mem_filter] at ht
    exact ht.1.1
  | failedOffline | failedRetry | timerOffline =>
    refine h.same rfl fun t ht => ?_
    rcases TaskQueue.mem_tasks_add.1 ht with rfl | ht
    exacts [.inr (by rintro ⟨⟩), .inl ht]
  | checked => exact h.checkedQueue rfl rfl
  | _ => exact hsame rfl rfl

theorem Distinct.curl (h : Distinct w) {c : CurlEvent} (hstep : curlEvent w c = some w') : Distinct w' := by
  cases c with
  | status code =>
    simp only [curlEvent, Option.bind_eq_some_iff] at hstep
    obtain ⟨t, -, hstep⟩ := hstep
    split at hstep
    · cases hstep
    simp only [Option.some.injEq] at hstep
    subst hstep
    exact ⟨h.agent, h.queued⟩
  | header line =>
    simp only [curlEvent, Option.map_eq_some_iff] at hstep
    obtain ⟨t, -, rfl⟩ := hstep
    have hnoted : Distinct (w.updateAgent (·.headerCallback line)) := h.updateAgent fun a ha => h.agent a ha
    exact ⟨hnoted.agent, hnoted.queued⟩
  | write chunk out indeterminate =>
    simp only [curlEvent, Option.bind_eq_some_iff] at hstep
    obtain ⟨t, -, hstep⟩ := hstep
    split at hstep
    · cases hstep
    have hcb := h.writeCallback t.responseCode chunk out indeterminate
    simp only [Option.some.injEq] at hstep
    subst hstep
    exact ⟨hcb.agent, hcb.queued⟩
  | complete curlResult indeterminate =>
    simp only [curlEvent, Option.bind_eq_some_iff] at hstep
    obtain ⟨t, -, hstep⟩ := hstep
    have hcb := h.completeCallback t.responseCode curlResult indeterminate
    split at hstep
    · cases hstep
    simp only [Option.some.injEq] at hstep
    subst hstep
    exact ⟨hcb.agent, hcb.queued⟩

theorem Distinct.step (h : Distinct w) (hg : Good uri w) (hstep : DoClient.step uri w e = some w') :
    Distinct w' := by
  cases e with
  | run o =>
    obtain ⟨task, q, w₁, replies, hpop, -, hran, rfl⟩ := step_ran hg hstep
    have hpopped : Distinct { w with taskQ := q } := h.same rfl fun t ht => .inl <| by
      rw [TaskQueue.tasks_popNextReady hpop]
      exact List.mem_cons_of_mem _ ht
    have hleft := hran.distinct hpopped
    exact ⟨hleft.agent, hleft.queued⟩
  | tick | drain =>
    simp only [DoClient.step, Option.ite_none_left_eq_some, Option.some.injEq] at hstep
    obtain ⟨-, rfl⟩ := hstep
    exact ⟨h.agent, h.queued⟩
  | request r =>
    simp only [DoClient.step, Option.ite_none_left_eq_some, Option.some.injEq] at hstep
    obtain ⟨-, rfl⟩ := hstep
    refine h.same (by cases r <;> rfl) fun t ht => ?_
    have hmem : t.op = .client r ∨ t ∈ w.taskQ.tasks := by
      cases r with
      | getStatus =>
        rcases TaskQueue.mem_tasks_add.1 ht with rfl | ht
        exacts [.inl rfl, .inr ht]
      | _ => exact mem_tasks_addFront ht
    exact hmem.symm.imp_right fun hop => by
      rw [hop]
      rintro ⟨⟩
  | foreign front delay =>
    simp only [DoClient.step, Option.ite_none_left_eq_some, Option.some.injEq] at hstep
    obtain ⟨-, rfl⟩ := hstep
    refine h.same rfl fun t ht => ?_
    have hmem : t.op = .foreign ∨ t ∈ w.taskQ.tasks := by
      cases front with
      | false =>
        rcases TaskQueue.mem_tasks_add.1 ht with rfl | ht
        exacts [.inl rfl, .inr ht]
      | true => exact mem_tasks_addFront ht
    exact hmem.symm.imp_right fun hop => by
      rw [hop]
      rintro ⟨⟩
  | curl c =>
    simp only [DoClient.step, Option.ite_none_left_eq_some] at hstep
    exact h.curl hstep.2

theorem distinct_reachable (h : Trans.Reachable (agent uri) w) : Distinct w := by
  refine h.invariant_of (Good uri) (fun _ => good_reachable) Distinct (fun w hi => ?_)
    fun w e w' hg _ hd _ hstep => hd.step hg hstep
  obtain ⟨url, path, -, hdl⟩ := hi.download
  refine ⟨fun a ha => by simp [hdl] at ha, fun t ht hr hc code text hop => ?_⟩
  rw [hi.taskQ t ht] at hop
  cases hop

/-! ## Progress -/

/-- The status of a download that was paused for lack of progress. -/
def World.NoProgress (w : World) : Prop :=
  w.dl.status.state = .paused ∧ w.dl.status.error = DO_E_DOWNLOAD_NO_PROGRESS

/-- A task after which the download may be in Transferring anew. -/
def Op.enters (w : World) (o : Outside) : Op → Bool
  | .client .start => w.dl.status.state == .created || w.dl.status.state == .paused
  | .transientTimer => o.hasViableInterface && w.dl.status.isTransientError
  | _ => false

/-- The bytes a task counts do not wrap around. -/
def Op.CountsAbove (n : Nat) : Op → Prop
  | .dataUpdate cbData => n + cbData < 2 ^ 64
  | _ => True

/-- No task but the check counts an interval, or brings a byte count down. -/
theorem Ran.tracking (hran : Ran uri o w op w') (hop : op ≠ .progressCheck)
    (hdata : op.CountsAbove w.dl.status.bytesTransferred) :
    w.dl.status.bytesTransferred ≤ w'.dl.status.bytesTransferred ∧
      w'.dl.progressTracker.lastSeenBytesTransferred = w.dl.progressTracker.lastSeenBytesTransferred ∧
      w'.dl.progressTracker.numNoProgressIntervals ≤ w.dl.progressTracker.numNoProgressIntervals := by
  cases hran with
  | sendFailed hc hd | sent hc hd =>
    obtain ⟨_, _, _, _, _, _, _, rfl⟩ := hd.rerouted
    cases hc with
    | start _ _ hset | resume _ _ hset =>
      obtain ⟨_, _, _, _, _, _, _, rfl⟩ := hset.rerouted
      exact ⟨le_refl _, rfl, le_refl _⟩
    | timer | retry => exact ⟨le_refl _, rfl, le_refl _⟩
  | urlSet ht =>
    rcases ht with rfl | rfl
    · exact ⟨le_refl _, rfl, le_refl _⟩
    · exact ⟨le_refl _, rfl, Nat.zero_le _⟩
  | data =>
    refine ⟨?_, rfl, le_refl _⟩
    simp only [wrap64_of_lt hdata]
    exact Nat.le_add_right _ _
  | checked | timedOut | timedOutOpen => exact absurd rfl hop
  | _ => exact ⟨le_refl _, rfl, le_refl _⟩

/-- What puts a download in Transferring counts no bytes. -/
theorem Ran.entered (hran : Ran uri o w op w') (ht : w'.dl.status.state = .transferring) :
    w.dl.status.state = .transferring ∨
      op.enters w o = true ∧ w'.dl.status.bytesTransferred = w.dl.status.bytesTransferred := by
  cases hran with
  | sendFailed hc hd =>
    obtain ⟨_, _, _, _, _, _, _, rfl⟩ := hd.rerouted
    left
    cases hc with
    | start _ _ hset | resume _ _ hset =>
      obtain ⟨_, _, _, _, _, _, _, rfl⟩ := hset.rerouted
      exact ht
    | timer | retry => exact ht
  | sent hc hd =>
    cases hc with
    | start hs | resume hs => exact .inr ⟨by simp [Op.enters, hs], rfl⟩
    | timer hv hw => exact .inr ⟨by simp [Op.enters, hv, hw], rfl⟩
    | retry hs => exact .inl hs
  | skipped hs => exact .inr ⟨by simp [Op.enters, hs], rfl⟩
  | paused hs | checked hs => exact .inl hs
  | finalized | aborted | abortedOpen | completed | alreadyTransferred | failedOffline | failedFatal | timerOffline |
    timedOut => cases ht
  | _ => exact .inl ht

theorem hrErrorToReport_ne {hr hc : HResult}
    (h : hr ≠ DO_E_DOWNLOAD_NO_PROGRESS ∧ hc ≠ DO_E_DOWNLOAD_NO_PROGRESS) :
    hrErrorToReport hr hc ≠ DO_E_DOWNLOAD_NO_PROGRESS := ite_ne h.2 h.1

/-- Only the check pauses a download for lack of progress. -/
theorem Ran.noProgress (hran : Ran uri o w op w') (hop : op ≠ .progressCheck)
    (hfail : ∀ hr hc code text, op = .transferFailed hr hc code text →
      hr ≠ DO_E_DOWNLOAD_NO_PROGRESS ∧ hc ≠ DO_E_DOWNLOAD_NO_PROGRESS) (hnp : w'.NoProgress) :
        w.NoProgress := by
  have hok : S_OK ≠ DO_E_DOWNLOAD_NO_PROGRESS := by decide
  cases hran with
  | sendFailed hc hd =>
    obtain ⟨_, _, _, _, _, _, _, rfl⟩ := hd.rerouted
    cases hc with
    | start _ _ hset | resume _ _ hset =>
      obtain ⟨_, _, _, _, _, _, _, rfl⟩ := hset.rerouted
      exact hnp
    | timer | retry => exact hnp
  | sent | skipped | finalized | aborted | abortedOpen | completed | alreadyTransferred => cases hnp.1
  | paused | failedOffline | timerOffline => exact absurd hnp.2 hok
  | failedFatal | failedRetry => exact absurd hnp.2 (hrErrorToReport_ne (hfail _ _ _ _ rfl))
  | checked | timedOut | timedOutOpen => exact absurd rfl hop
  | _ => exact hnp

/-! ## Periods of transfer -/

/-- A period of transfer as its checks see it: the bytes transferred when the download entered
Transferring or was last checked, and how many checks in a row found them unchanged. -/
structure Period where
  bytesTransferred : Nat := 0
  unchanged : Nat := 0

/-- The task thread takes the progress check. -/
def World.takesCheck (w : World) : Event → Bool
  | .run _ => w.nextOp == some .progressCheck
  | _ => false

def Period.check (p : Period) (bytesTransferred : Nat) : Period :=
  if bytesTransferred = p.bytesTransferred then { p with unchanged := p.unchanged + 1 }
  else { bytesTransferred := bytesTransferred }

def Period.note (p : Period) (m : Trans.Move World Event) : Period :=
  if m.src.dl.status.state = .transferring then
    if m.src.takesCheck m.ev then p.check m.src.dl.status.bytesTransferred else p
  else if m.dst.dl.status.state = .transferring then { bytesTransferred := m.dst.dl.status.bytesTransferred }
  else p

/-- The period of transfer a run has come to. -/
def period (ms : List (Trans.Move World Event)) : Period := ms.foldl Period.note {}

/-- Where a download may enter Transferring its tracker has counted no interval, or
bytes have come that it has not seen yet. -/
def EntersAfresh (w : World) : Event → Prop
  | .run o => ∀ op ∈ w.nextOp, op.enters w o = true → w.dl.progressTracker.numNoProgressIntervals = 0 ∨
      w.dl.progressTracker.lastSeenBytesTransferred < w.dl.status.bytesTransferred
  | _ => True

instance : ∀ w e, Decidable (EntersAfresh w e)
  | w, .run o => inferInstanceAs (Decidable (∀ op ∈ w.nextOp, op.enters w o = true → _))
  | _, .tick _ | _, .request _ | _, .foreign .. | _, .drain | _, .curl _ => .isTrue trivial

/-- The tracker counts no more intervals than checks found the bytes unchanged. -/
structure Tracks (p : Period) (w : World) : Prop where
  seen : w.dl.progressTracker.lastSeenBytesTransferred ≤ w.dl.status.bytesTransferred
  period : w.dl.status.state = .transferring → p.bytesTransferred ≤ w.dl.status.bytesTransferred ∧
    w.dl.progressTracker.lastSeenBytesTransferred ≤ p.bytesTransferred ∧
    (w.dl.progressTracker.lastSeenBytesTransferred < p.bytesTransferred ∨
      w.dl.progressTracker.numNoProgressIntervals ≤ p.unchanged)

variable {p : Period}

theorem Tracks.check (h : Tracks p w) (hs : w.dl.status.state = .transferring) {max : Nat} {timedOut : Bool}
    {t : ProgressTracker}
    (hcheck : w.dl.progressTracker.checkProgress w.dl.status.bytesTransferred max = (timedOut, t)) :
    (p.check w.dl.status.bytesTransferred).bytesTransferred = w.dl.status.bytesTransferred ∧
      t.lastSeenBytesTransferred = w.dl.status.bytesTransferred ∧
      t.numNoProgressIntervals ≤ (p.check w.dl.status.bytesTransferred).unchanged ∧
      (timedOut = true → max ≤ (p.check w.dl.status.bytesTransferred).unchanged) := by
  obtain ⟨hbytes, hseen, hcount⟩ := h.period hs
  have hchecked : (p.check w.dl.status.bytesTransferred).bytesTransferred = w.dl.status.bytesTransferred := by
    unfold Period.check
    split
    · next heq => exact heq.symm
    · rfl
  simp only [ProgressTracker.checkProgress, Prod.mk.injEq] at hcheck
  obtain ⟨rfl, rfl⟩ := hcheck
  by_cases hnew : w.dl.progressTracker.lastSeenBytesTransferred < w.dl.status.bytesTransferred
  · simp only [if_pos hnew, decide_eq_true_eq]
    exact ⟨hchecked, trivial, Nat.zero_le _, fun hmax => hmax.trans (Nat.zero_le _)⟩
  · -- nothing new since the last check seen: the same bytes as when the period was last noted
    have hle := h.seen
    have hsame : w.dl.status.bytesTransferred = p.bytesTransferred := by omega
    have hnum : w.dl.progressTracker.numNoProgressIntervals ≤ p.unchanged := by
      rcases hcount with hlt | hnum
      · omega
      · exact hnum
    have hwrap : wrap32 (w.dl.progressTracker.numNoProgressIntervals + 1) ≤ p.unchanged + 1 :=
      (Nat.mod_le _ _).trans (Nat.add_le_add_right hnum 1)
    simp only [if_neg hnew, decide_eq_true_eq]
    refine ⟨hchecked, by omega, ?_, fun hmax => ?_⟩
    · rw [Period.check, if_pos hsame]
      exact hwrap
    · rw [Period.check, if_pos hsame]
      exact hmax.trans hwrap

theorem not_noProgress_of_same (hs : w'.dl.status = w.dl.status) (hnp : w'.NoProgress) : w.NoProgress := by
  unfold World.NoProgress at hnp ⊢
  rwa [hs] at hnp

theorem Tracks.same (h : Tracks p w) (hs : w'.dl.status = w.dl.status)
    (ht : w'.dl.progressTracker = w.dl.progressTracker) :
    Tracks p w' := by
  obtain ⟨hseen, hperiod⟩ := h
  rw [← hs, ← ht] at hseen hperiod
  exact ⟨hseen, hperiod⟩

/-- A check of a download in Transferring, when nothing else changes its tracker. -/
theorem Tracks.checked (h : Tracks p w) (hs : w.dl.status.state = .transferring) {timedOut : Bool}
    {t : ProgressTracker} {max : Nat}
    (hcheck : w.dl.progressTracker.checkProgress w.dl.status.bytesTransferred max = (timedOut, t))
    (hb : w'.dl.status.bytesTransferred = w.dl.status.bytesTransferred) (ht : w'.dl.progressTracker = t) :
    Tracks (p.check w.dl.status.bytesTransferred) w' := by
  obtain ⟨hbytes, hseen, hnum, -⟩ := h.check hs hcheck
  refine ⟨?_, fun _ => ⟨?_, ?_, .inr ?_⟩⟩
  · rw [ht, hb, hseen]
  · rw [hb, hbytes]
  · rw [ht, hseen, hbytes]
  · rw [ht]
    exact hnum

/-- What a data update counts is in the file, so the count does not wrap around. -/
theorem countsAbove (hb : w.life.Booked ∨ w.life.Over) {task : Task Op Tag} {q : TaskQueue Op Tag}
    (hpop : w.taskQ.popNextReady w.now = some (task, q)) :
    task.op.CountsAbove w.dl.status.bytesTransferred := by
  have hupdates : w.life.updates = task.op.update.toList ++ q.updates := TaskQueue.updates_pop hpop
  cases hop : task.op with
  | dataUpdate cbData =>
    rw [hop] at hupdates
    rcases hb with hb | ho
    · have hlt := hb.bounded
      rw [Life.accounted, hupdates, pendingBytes_append] at hlt
      simp only [Op.update, Option.toList_some, pendingBytes, Nat.add_zero] at hlt
      have hbytes : w.life.bytesTransferred = w.dl.status.bytesTransferred := rfl
      show w.dl.status.bytesTransferred + cbData < 2 ^ 64
      omega
    · rw [ho.updates] at hupdates
      cases hupdates
  | _ => trivial

theorem takesCheck_run (hop : w.nextOp = some op) : w.takesCheck (.run o) = (op == .progressCheck) := by
  simp [World.takesCheck, hop]

/-- **A step keeps track**, and pauses for lack of progress after enough checks only. -/
theorem Tracks.step (h : Tracks p w) (hg : Good uri w) (hd : Distinct w) (hb : w.life.Booked ∨ w.life.Over)
    (hC : EntersAfresh w e) (hstep : DoClient.step uri w e = some w') :
    Tracks (p.note ⟨w, e, w'⟩) w' ∧
      (w'.NoProgress → w.NoProgress ∨ w.dl.maxNoProgressIntervals ≤ (p.note ⟨w, e, w'⟩).unchanged) := by
  by_cases he : ∃ o, e = .run o
  case neg =>
    obtain ⟨agent, hdl⟩ := (step_aside hg hstep fun o ho => he ⟨o, ho⟩).dl
    have hcheck : w.takesCheck e = false := by
      cases e with
      | run o => exact absurd ⟨o, rfl⟩ he
      | _ => rfl
    have hnote : p.note ⟨w, e, w'⟩ = p := by
      simp only [Period.note, hcheck, hdl]
      split <;> rfl
    rw [hnote]
    exact ⟨h.same (by rw [hdl]) (by rw [hdl]), fun hnp => .inl (not_noProgress_of_same (by rw [hdl]) hnp)⟩
  obtain ⟨o, rfl⟩ := he
  obtain ⟨task, q, w₁, replies, hpop, hop, hran, rfl⟩ := step_ran hg hstep
  have hcounts := countsAbove hb hpop
  by_cases hcheck : task.op = .progressCheck
  · have htakes : w.takesCheck (.run o) = true := by rw [takesCheck_run hop, hcheck]; rfl
    rw [hcheck] at hran
    cases hran with
    | idle _ _ hidle =>
      have hs : w.dl.status.state ≠ .transferring := hidle rfl
      have hnote : p.note ⟨w, .run o, { w with taskQ := q, replies := replies }⟩ = p := by
        simp [Period.note, hs]
      rw [hnote]
      exact ⟨h.same rfl rfl, .inl⟩
    | sendFailed hc | sent hc => cases hc
    | checked hs hchecked | timedOutOpen hs hchecked =>
      simp only [Period.note, if_pos hs, htakes, if_true]
      refine ⟨h.checked hs hchecked rfl rfl, fun hnp => ?_⟩
      have hpaused : w.dl.status.state = .paused := hnp.1
      rw [hs] at hpaused
      cases hpaused
    | timedOut hs hchecked =>
      simp only [Period.note, if_pos hs, htakes, if_true]
      exact ⟨h.checked hs hchecked rfl rfl, fun _ => .inr ((h.check hs hchecked).2.2.2 rfl)⟩
  · have htakes : w.takesCheck (.run o) = false := by
      rw [takesCheck_run hop]
      simpa using hcheck
    obtain ⟨hbytes, hseen, hnum⟩ := hran.tracking hcheck hcounts
    simp only at hbytes hseen hnum
    have hnp : w₁.NoProgress → w.NoProgress := hran.noProgress hcheck fun hr hc code text hfail =>
      hd.queued task (by rw [TaskQueue.tasks_popNextReady hpop]; exact List.mem_cons_self) hr hc
        code text hfail
    refine ⟨?_, fun hnp' => .inl (hnp hnp')⟩
    refine ⟨hseen.trans_le (h.seen.trans hbytes), fun hs' => ?_⟩
    by_cases hs : w.dl.status.state = .transferring
    · obtain ⟨hp, hp', hcount⟩ := h.period hs
      have hnote : p.note ⟨w, .run o, { w₁ with replies := replies }⟩ = p := by
        simp [Period.note, hs, htakes]
      rw [hnote]
      exact ⟨hp.trans hbytes, hseen.trans_le hp', hcount.imp hseen.trans_lt hnum.trans⟩
    · obtain ⟨henters, heq⟩ := (hran.entered hs').resolve_left hs
      have hnote : p.note ⟨w, .run o, { w₁ with replies := replies }⟩ =
        { bytesTransferred := w₁.dl.status.bytesTransferred } := by
        rw [Period.note, if_neg hs, if_pos hs']
      rw [hnote]
      refine ⟨le_refl _, hseen.trans_le (h.seen.trans hbytes), ?_⟩
      rcases hC task.op hop henters with hzero | hlt
      · exact .inr (hnum.trans (Nat.le_of_eq hzero))
      · exact .inl (hseen.trans_lt (hlt.trans_le hbytes))

/-! ## Runs -/

theorem tracks_initial (h : Initial uri w) : Tracks {} w := by
  obtain ⟨url, path, -, hdl⟩ := h.download
  refine ⟨?_, fun hs => ?_⟩
  · rw [hdl]
  · rw [hdl] at hs
    cases hs

/-- A run whose every entry is afresh keeps track. -/
theorem tracks_of_entersAfresh {w₀ : World} {ms : List (Trans.Move World Event)} (hi : Initial uri w₀)
    (hp : Trans.Path (agent uri) w₀ ms w) (hC : ∀ m ∈ ms, EntersAfresh m.src m.ev) : Tracks (period ms) w :=
  hp.record Period.note Tracks (fun _ _ _ _ hr h hC hstep =>
    (h.step (good_reachable hr) (distinct_reachable hr) (booked_or_over (life_reachable hr)) hC hstep).1)
    (.init hi) (tracks_initial hi) hC

/-- **The pause for lack of progress comes after enough checks**, in a run in which the
download enters Transferring with no interval counted, or with bytes its tracker has
not seen: each step that pauses it so is a check, and with it at least
`_MaxNoProgressIntervals` in a row found the bytes unchanged since it entered. -/
theorem no_progress_after_unchanged_checks {w₀ : World} {ms : List (Trans.Move World Event)}
    (hi : Initial uri w₀) (hp : Trans.Path (agent uri) w₀ ms w) (hC : ∀ m ∈ ms, EntersAfresh m.src m.ev) :
    ∀ ms₁ m ms₂, ms = ms₁ ++ m :: ms₂ → ¬ m.src.NoProgress → m.dst.NoProgress →
      m.src.dl.maxNoProgressIntervals ≤ (period (ms₁ ++ [m])).unchanged := by
  rintro ms₁ m ms₂ rfl hbefore hafter
  obtain ⟨hp₁, hstep⟩ := hp.split ms₁ m ms₂ rfl
  simp only [List.forall_mem_append, List.forall_mem_cons] at hC
  have hr : Trans.Reachable (agent uri) m.src := hp₁.reachable (.init hi)
  have htracks := tracks_of_entersAfresh hi hp₁ hC.1
  have hafter :=
    (htracks.step (good_reachable hr) (distinct_reachable hr) (booked_or_over (life_reachable hr)) hC.2.1
    hstep).2 hafter
  rw [period, List.foldl_append, List.foldl_cons, List.foldl_nil]
  exact hafter.resolve_left hbefore

/-- A timeout of two intervals, a start, and no byte until both have passed. -/
def stalledRun : List Event :=
  [.request (.setProperty .noProgressTimeoutSeconds "20"), .run {}, .request .start, .run {},
    .tick 10000000000, .run {}, .tick 10000000000, .run {}]

theorem no_progress_after_unchanged_checks_stalled : ∃ ms w, Trans.Path (agent plainUri) newDownload ms w ∧
    w.NoProgress ∧ ∀ ms₁ m ms₂, ms = ms₁ ++ m :: ms₂ → ¬ m.src.NoProgress → m.dst.NoProgress →
      m.src.dl.maxNoProgressIntervals ≤ (period (ms₁ ++ [m])).unchanged := by
  have hrun : (((agent plainUri).restrict EntersAfresh).runFrom newDownload stalledRun).map
      (fun w => (w.dl.status.state, w.dl.status.error)) = some (.paused, DO_E_DOWNLOAD_NO_PROGRESS) := by
        decide +kernel
  obtain ⟨w, hw, hs⟩ := Option.map_eq_some_iff.1 hrun
  obtain ⟨hp, hC⟩ := (Trans.path_moves hw).of_restrict
  exact ⟨_, w, hp, Prod.mk.inj hs, no_progress_after_unchanged_checks initial_newDownload hp hC⟩

/-- A pause and a resume after the first of two intervals, and the second interval. -/
def resumedStalledRun : List Event :=
  [.request (.setProperty .noProgressTimeoutSeconds "20"), .run {}, .request .start, .run {},
    .tick 10000000000, .run {}, .request .pause, .run {}, .request .start, .run {}, .tick 10000000000]

/-- The interval before the pause is counted again: the first check after it pauses the download. -/
theorem no_progress_after_one_check : ¬ ∀ uri w₀ w ms, Initial uri w₀ → Trans.Path (agent uri) w₀ ms w →
    ∀ ms₁ m ms₂, ms = ms₁ ++ m :: ms₂ → ¬ m.src.NoProgress → m.dst.NoProgress →
      m.src.dl.maxNoProgressIntervals ≤ (period (ms₁ ++ [m])).unchanged := by
  intro hall
  have hrun : (((agent plainUri).runFrom newDownload resumedStalledRun).bind fun w =>
      (step plainUri w (.run {})).map fun w' => (w.dl.status.state, w'.dl.status.state, w'.dl.status.error,
        w.dl.maxNoProgressIntervals,
        (period ((agent plainUri).moves newDownload resumedStalledRun ++ [⟨w, .run {}, w'⟩])).unchanged)) =
      some (.transferring, .paused, DO_E_DOWNLOAD_NO_PROGRESS, 2, 1) := by decide +kernel
  obtain ⟨w, hw, hrun⟩ := Option.bind_eq_some_iff.1 hrun
  obtain ⟨w', (hstep : (agent plainUri).step w (.run {}) = some w'), hstates⟩ := Option.map_eq_some_iff.1 hrun
  simp only [Prod.mk.injEq] at hstates
  obtain ⟨hbefore, hpaused, herror, hmax, hunchanged⟩ := hstates
  have hp : Trans.Path (agent plainUri) newDownload _ w' := (Trans.path_moves hw).snoc hstep
  have hchecks := hall _ _ _ _ initial_newDownload hp _ _ [] rfl (fun hnp => nomatch hbefore.symm.trans hnp.1)
    ⟨hpaused, herror⟩
  simp only at hchecks
  omega

end DoClient
