/-
What each operation of the task thread does to the life of the download.
-/
import DoClient.Refine

namespace DoClient

open HResult

/-- The acts a client's request can come to. -/
def ClientRequest.Does (o : Outside) : ClientRequest → Act → Prop
  | .start, a => a = .idle ∨ a = .skipRequest ∨ (∃ r, a = .send .start r ∨ a = .send .resume r) ∨
      ∃ called terminates, (terminates = true → o.closeErr ≠ none) ∧
        (a = .sendFailed .start called terminates ∨ a = .sendFailed .resume called terminates)
  | .pause, a => a = .idle ∨ a = .closed ∨ o.closeErr ≠ none ∧ a = .closeFailed false
  | .finalize, a => a = .idle ∨ a = .finalized ∨ o.closeErr ≠ none ∧ a = .finalizeFailed
  | .abort, a =>
    a = .idle ∨ ∃ cancelled file, a = .aborted cancelled file ∧ (cancelled = false → o.closeErr ≠ none)
  | .getStatus, a => a = .idle
  | .setProperty .., a => a = .idle

/-- The acts an operation can come to, taken in a state and with answers from outside. -/
def Op.Does (w : World) (o : Outside) : Op → Act → Prop
  | .client r, a => r.Does o a
  | .headersUpdate _ bytesTotal _, a => a = .headers bytesTotal
  | .dataUpdate cbData, a => a = .data cbData
  | .transferCompleted, a => a = .completed
  | .transferFailed hrRequest hrCallback httpStatusCode _, a =>
    if o.hasViableInterface = false then a = .failedOffline
    else if w.dl.isFatalError hrRequest hrCallback httpStatusCode = true then
      w.closes o = true ∧ a = .failedFatal true ∨ w.closes o = false ∧ a = .failedFatal false
    else a = .failedRetry
  | .retry, a => a = .idle ∨ (∃ r, a = .send .retry r) ∨ ∃ called, a = .sendFailed .retry called true
  | .transientTimer, a =>
    if o.hasViableInterface = false then a = .timerOffline
    else a = .timerIdle ∨ (∃ r, a = .send .timer r) ∨ ∃ called, a = .sendFailed .timer called true
  | .alreadyTransferred, a => a = .alreadyTransferred
  | .progressCheck, a => a = .idle ∨ a = .closed ∨ o.closeErr ≠ none ∧ a = .closeFailed true
  | .foreign, a => a = .idle

/-- A good state with this life. -/
def Leads (uri : UriLib) (w : World) (l : Life) : Prop := Good uri w ∧ w.life = l

variable {uri : UriLib} {o : Outside} {w w' : World}

/-! ## Results -/

theorem failed_hrErrorToReport {hrRequest : HResult} (hrCallback : HResult) (h : failed hrRequest = true) :
    failed (hrErrorToReport hrRequest hrCallback) = true := by
  unfold hrErrorToReport
  split <;> assumption

/-! ## The queue -/

/-- A queue that differs in operations the life cycle does not see. -/
structure SameWork (now : Int) (q q' : TaskQueue Op Tag) : Prop where
  updates : q'.updates = q.updates
  timers : q'.count .transientTimer = q.count .transientTimer
  shortcuts : q'.count .alreadyTransferred = q.count .alreadyTransferred
  orderly : q.Orderly now → q'.Orderly now

theorem SameWork.refl {now : Int} {q : TaskQueue Op Tag} : SameWork now q q := ⟨rfl, rfl, rfl, id⟩

theorem sameWork_sched {now delay : Int} {q : TaskQueue Op Tag} {op : Op}
    (h : op = .retry ∨ op = .progressCheck) :
    SameWork now q (q.add now op delay op.tag) := by
  rcases h with rfl | rfl <;>
  exact ⟨TaskQueue.updates_add_none _ rfl, by simp [TaskQueue.count_add], by simp [TaskQueue.count_add],
    fun ho => ho.add rfl (fun h => absurd rfl h) nofun nofun⟩

theorem schedProgressTracking_run (w : World) : ∃ q, SameWork w.now w.taskQ q ∧
    schedProgressTracking w = { w with taskQ := q } := by
  unfold schedProgressTracking
  split
  · exact ⟨_, .refl, rfl⟩
  · exact ⟨_, sameWork_sched (.inr rfl), rfl⟩

theorem cancelTasks_life (hq : w.taskQ.Orderly w.now) : w.cancelTasks.life = w.life.cancel := by
  have hi := hq.idle_remove
  simp only [World.life, World.cancelTasks, Life.cancel, TaskQueue.updates_of_idle hi,
    TaskQueue.count_of_idle hi .transientTimer rfl, TaskQueue.count_of_idle hi .alreadyTransferred rfl]
  rfl

/-! ## Requests -/

/-- The state after a request was handed over. -/
theorem leads_send (hg : Good uri w) (hfile : w.requests ≠ [] ∨ w.fs w.dl.destFilePath = some [])
    (hstream : ∀ p, w.dl.fileStream = some p → p = w.dl.destFilePath) (hurl : validateUrl uri w.dl.url = true)
    {d : Download} {a : HttpAgent} (hd : Rerouted w.dl d) (ha : d.httpAgent = some a)
    (hh : a.curlHandle.isSome = true) (hfresh : a.Fresh) (r : IssuedRequest) :
    Leads uri ((noteRequestSent { w with
        dl := d, curl := { w.curl with toAdd := some r.transfer }
        requests := r :: w.requests, overlaps := w.overlaps + w.curl.outstanding.toNat }).updateStatus
          (·.transferring))
      (w.life.apply (.send .retry r)) := by
  obtain ⟨q, hq, hrun⟩ := schedProgressTracking_run (({ w with
    dl := d, curl := { w.curl with toAdd := some r.transfer }
    requests := r :: w.requests, overlaps := w.overlaps + w.curl.outstanding.toNat }).updateDl
      (·.requestSent))
  rw [noteRequestSent, hrun]
  obtain ⟨pl, mh, md, al, ct, n, ag, rfl⟩ := hd
  simp only at ha
  have hagent : ag.isSome = true := by rw [ha]; rfl
  refine ⟨Good.started (List.cons_ne_nil _ _) (hq.orderly hg.orderly)
    (by rintro ⟨⟩) hagent (fun _ => ⟨a, ha, hh⟩) hstream
    (.inr hurl) fun ho => ?_, ?_⟩
  · have hidle : w.curl.toAdd = none ∧ w.curl.active = none := by
      have hnot : w.curl.outstanding.toNat = 0 := Nat.eq_zero_of_add_eq_zero_left ho
      simpa [CurlHandle.outstanding] using hnot
    refine ⟨.inr hidle.2, fun t a₁ ht ha₁ => ?_⟩
    obtain rfl : a = a₁ := Option.some.inj (ha.symm.trans ha₁)
    rcases ht with ht | ht
    · obtain rfl : r.transfer = t := Option.some.inj ht
      exact ⟨hfresh.1, fun _ => hfresh.2, (by simp), (by simp)⟩
    · exact absurd (hidle.2.symm.trans ht) (by simp)
  · have hcontent : (if w.requests = [] then [] else (w.fs w.dl.destFilePath).getD []) =
        (w.fs w.dl.destFilePath).getD [] := by
      split
      · next hr => rw [hfile.resolve_left (not_not.2 hr)]; rfl
      · rfl
    simp [World.life, Life.apply, Life.useTimer, World.updateStatus, World.updateDl, Download.requestSent,
      DownloadStatus.transferring, DownloadStatus.isTransientError, hq.updates, hq.timers, hq.shortcuts,
        hcontent, Life.outstanding,
      CurlHandle.outstanding]

/-- The state after a request could not be handed over. -/
theorem leads_sendFailed (hg : Good uri w) {d : Download} {a a' : HttpAgent} (hd : Rerouted w.dl d)
    (ha : w.dl.httpAgent = some a) (ha' : d.httpAgent = some a')
    (hh : a.curlHandle.isSome = true → a'.curlHandle.isSome = true) {called : Bool}
    (hsame : called = false → a' = a) (terminates : Bool) :
    Leads uri { w with
        dl := d, overlaps := w.overlaps + if called = true then w.curl.outstanding.toNat else 0,
        terminated := terminates }
      (w.life.apply (.sendFailed .retry called terminates)) := by
  obtain ⟨pl, mh, md, al, ct, n, ag, rfl⟩ := hd
  simp only at ha'
  refine ⟨⟨hg.orderly, hg.fresh, hg.created, fun _ => by rw [ha']; rfl, fun ho => ?_, hg.stream, hg.url,
    fun ho => ?_⟩, ?_⟩
  · obtain ⟨a₀, ha₀, hs⟩ := hg.handle ho
    rw [ha, Option.some.injEq] at ha₀
    exact ⟨a', ha', hh (ha₀ ▸ hs)⟩
  · simp only [Nat.add_eq_zero_iff] at ho
    cases called with
    | false =>
      have hlinked := hg.linked ho.1
      rw [ha, ← hsame rfl, ← ha'] at hlinked
      exact hlinked
    | true => exact .of_idle (by simpa using ho.2) _
  · simp [World.life, Life.apply, Life.useTimer, Life.outstanding, CurlHandle.outstanding]

/-- A call of `_SendHttpRequest` with the state set to Transferring after it. -/
theorem sendHttpRequest_leads (hg : Good uri w) (retry : Bool) {a : HttpAgent} (ha : w.dl.httpAgent = some a)
    (hfile : w.requests ≠ [] ∨ w.fs w.dl.destFilePath = some [])
    (hstream : ∀ p, w.dl.fileStream = some p → p = w.dl.destFilePath)
    (hurl : validateUrl uri w.dl.url = true) :
    (∃ hr w' called, sendHttpRequest uri o retry w = (.error hr, w') ∧
      Leads uri w' (w.life.apply (.sendFailed .retry called w.terminated)) ∧ w'.terminated = w.terminated ∧
      Leads uri { w' with terminated := true } (w.life.apply (.sendFailed .retry called true))) ∨
    ∃ w' r, sendHttpRequest uri o retry w = (.ok (), w') ∧
      Leads uri (w'.updateStatus (·.transferring)) (w.life.apply (.send .retry r)) ∧
      (w.dl.status.state = .transferring → w'.updateStatus (·.transferring) = w') ∧
      w.life.queued = none ∧ r.startOffset = w.life.bytesTransferred ∧ r.fileLength = w.life.file.length := by
  obtain ⟨decided, d, a', hd, ha', hh, ⟨hr, called, hsame, hrun⟩ |
    ⟨-, r, hadd, ⟨-, hstart, hlen, -⟩, hsome, hfresh, hrun⟩⟩ := sendHttpRequest_run uri o retry ha
  all_goals replace hd := hd.rerouted
  · refine .inl ⟨hr, _, called, hrun, leads_sendFailed hg hd ha ha' hh hsame w.terminated, rfl, ?_⟩
    exact leads_sendFailed hg hd ha ha' hh hsame true
  · refine .inr ⟨_, r, hrun, leads_send hg hfile hstream hurl hd ha' hsome hfresh r, fun hs => ?_,
      hadd, hstart, ?_⟩
    · obtain ⟨q, -, hq⟩ := schedProgressTracking_run (({ w with
        dl := d, curl := { w.curl with toAdd := some r.transfer }
        requests := r :: w.requests, overlaps := w.overlaps + w.curl.outstanding.toNat }).updateDl
          (·.requestSent))
      rw [noteRequestSent, hq]
      obtain ⟨pl, mh, md, al, ct, n, ag, rfl⟩ := hd
      simp [World.updateStatus, World.updateDl, Download.requestSent, DownloadStatus.transferring, hs]
    · rw [hlen, World.fileLength]
      simp only [World.life]
      split
      · next hr => rw [hfile.resolve_left (not_not.2 hr)]; rfl
      · rfl

/-- The due time of the fallback that `_Start` leaves. -/
def World.fallbackDue (w : World) (o : Outside) : Option Int :=
  match o.fallbackDelay with
  | none => w.dl.mccFallbackDue
  | some delay => some (if delay = -1 then timePointMax else w.now + seconds delay)

theorem setMccFallbackDue_run (o : Outside) (w : World) :
    setMccFallbackDue o w = { w with dl := { w.dl with mccFallbackDue := w.fallbackDue o } } := by
  unfold setMccFallbackDue World.fallbackDue
  cases o.fallbackDelay <;> rfl

/-- `d` is the download of `w` with a cache host and a due time of the fallback set for its requests. -/
structure SetUp (w : World) (mccHost : String) (due : Option Int) (d : Download) : Prop where
  rerouted : Rerouted w.dl d
  mccHost : d.mccHost = mccHost
  mccFallbackDue : d.mccFallbackDue = due
  fAllowMcc : d.fAllowMcc = w.dl.fAllowMcc
  connectionType : d.connectionType = w.dl.connectionType

/-- Before the first request a change of the file system, the agent or the route is not seen. -/
theorem leads_fresh (hg : Good uri w) (hr : w.requests = []) {d : Download} (hd : Rerouted w.dl d)
    (stream : Option String) (created : Bool) (fs : String → Option (List UInt8)) (paths : List String)
    (terminates : Bool) :
    Leads uri { w with
      dl := { d with fileStream := stream, fDestFileCreated := created }
      curl := {}, fs := fs, created := paths, terminated := terminates }
      { w.life with terminated := terminates } := by
  obtain ⟨pl, mh, md, al, ct, n, ag, rfl⟩ := hd
  obtain ⟨hs, hact, hcurl, hi⟩ := hg.fresh hr
  refine ⟨⟨hg.orderly, fun _ => ⟨hs, hact, rfl, hi⟩, hg.created, fun h => absurd hr h, nofun,
    fun h => absurd hr h, hg.url, fun _ => .of_idle rfl _⟩, ?_⟩
  simp [World.life, hr, hcurl]

theorem Good.ready_start (hg : Good uri w) (hs : w.dl.status.state = .created) : w.life.Ready .start := by
  obtain ⟨hr, hstatus⟩ := hg.created hs
  obtain ⟨-, hact, hcurl, hi⟩ := hg.fresh hr
  simp [Life.Ready, World.life, Life.outstanding, hr, hstatus, hact, hcurl, TaskQueue.updates_of_idle hi,
    TaskQueue.count_of_idle hi, Op.own, Op.tag]

/-- `_Start` gets as far as the destination file. -/
def World.CanStart (w : World) (o : Outside) : Prop :=
  w.dl.url.isEmpty = false ∧ w.dl.destFilePath.isEmpty = false ∧ w.CanCreate o

/-- `_Start` up to the request. -/
theorem start_run (uri : UriLib) (o : Outside) (w : World) :
    (¬ w.CanStart o ∧ ∃ hr, start uri o w = (.error hr, w)) ∨
    (w.CanStart o ∧ o.closeErr ≠ none ∧ ∃ hr, start uri o w = (.error hr, { w with
      fs := Function.update w.fs w.dl.destFilePath (some []), created := w.dl.destFilePath :: w.created
      terminated := true })) ∨
    w.CanStart o ∧ ∃ d, SetUp w o.mccHost (w.fallbackDue o) d ∧ d.httpAgent = some {} ∧
      start uri o w = sendHttpRequest uri o false { w with
        fs := Function.update w.fs w.dl.destFilePath (some []), created := w.dl.destFilePath :: w.created
        curl := {}, dl := { d with fileStream := some w.dl.destFilePath, fDestFileCreated := true } } := by
  simp only [start, DlM.bind_run, DlM.get_run, DlM.ite_run, DlM.throwHr_run, DlM.modify_run]
  split
  · next hurl => exact .inl ⟨fun h => absurd (hurl.symm.trans h.1) Bool.noConfusion, _, rfl⟩
  next hurl =>
  split
  · next hpath => exact .inl ⟨fun h => absurd (hpath.symm.trans h.2.1) Bool.noConfusion, _, rfl⟩
  next hpath =>
  have hcan : w.CanCreate o → w.CanStart o :=
    fun h => ⟨Bool.not_eq_true _ ▸ hurl, Bool.not_eq_true _ ▸ hpath, h⟩
  rcases createDestFile_run o w with ⟨hc, h⟩ | ⟨hc, hr, h⟩ | ⟨hc, he, hr, h⟩
  · right; right
    rw [h]
    simp only [setMccFallbackDue_run]
    exact ⟨hcan hc, _, ⟨⟨_, _, _, _, _, _, _, rfl⟩, rfl, rfl, rfl, rfl⟩, rfl, rfl⟩
  · left
    rw [h]
    exact ⟨fun h => hc h.2.2, hr, rfl⟩
  · right; left
    rw [h]
    exact ⟨hcan hc, he, hr, rfl⟩

theorem start_leads (hg : Good uri w) (hw : w.terminated = false) (hs : w.dl.status.state = .created) :
    ∃ a, ClientRequest.Does o .start a ∧ w.life.Enabled a ∧
    Leads uri ((start uri o >>= fun _ => DlM.modify (·.updateStatus (·.transferring))) w).2
    (w.life.apply a) := by
  have hready := hg.ready_start hs
  obtain ⟨hr, -⟩ := hg.created hs
  rw [DlM.bind_run]
  rcases start_run uri o w with ⟨-, e, h⟩ | ⟨-, he, e, h⟩ | ⟨⟨hurl, -⟩, d, ⟨hd, -⟩, hagent, h⟩
  · rw [h]
    exact ⟨.idle, .inl rfl, trivial, hg, rfl⟩
  · rw [h]
    refine ⟨.sendFailed .start false true, .inr (.inr (.inr ⟨_, _, fun _ => he, .inl rfl⟩)), hready, ?_⟩
    have hl := leads_fresh hg hr (.refl w.dl) w.dl.fileStream w.dl.fDestFileCreated
      (Function.update w.fs w.dl.destFilePath (some [])) (w.dl.destFilePath :: w.created) true
    rw [← (hg.fresh hr).2.2.1] at hl
    exact ⟨hl.1, hl.2⟩
  · obtain ⟨hg₁, hl⟩ := leads_fresh hg hr hd (some w.dl.destFilePath) true
      (Function.update w.fs w.dl.destFilePath (some [])) (w.dl.destFilePath :: w.created) w.terminated
    replace hl : _ = w.life := hl
    rw [h]
    have hkept : d.destFilePath = w.dl.destFilePath ∧ d.url = w.dl.url := by
      obtain ⟨pl, mh, md, al, ct, n, ag, rfl⟩ := hd
      exact ⟨rfl, rfl⟩
    have hvalid : validateUrl uri d.url = true :=
      hkept.2 ▸ hg.url.resolve_left fun he => absurd (hurl.symm.trans he.1) Bool.noConfusion
    rcases sendHttpRequest_leads hg₁ false hagent (.inr (by simp [hkept.1])) (by simp [hkept.1]) hvalid with
      ⟨e, w', called, hsend, hleads, -, -⟩ | ⟨w', r, hsend, hleads, -, hadd, hstart, hlen⟩
    · rw [hsend]
      rw [hl] at hleads
      exact ⟨.sendFailed .start called w.terminated,
        .inr (.inr (.inr ⟨_, _, fun ht => absurd (hw.symm.trans ht) Bool.noConfusion, .inl rfl⟩)),
          hready, hleads⟩
    · rw [hsend]
      rw [hl] at hleads hadd hstart hlen
      exact ⟨.send .start r, .inr (.inr (.inl ⟨r, .inl rfl⟩)), ⟨hready, hadd, hstart, hlen⟩, hleads⟩

/-- A world that differs in what neither the life cycle nor `Good` depends on. -/
theorem leads_rerouted (hg : Good uri w) {d : Download} (hd : Rerouted w.dl d)
    (ha : d.httpAgent = w.dl.httpAgent) (stream : Option String)
    (hstream : w.requests ≠ [] → ∀ p, stream = some p → p = w.dl.destFilePath) :
    Leads uri { w with dl := { d with fileStream := stream } } w.life := by
  obtain ⟨pl, mh, md, al, ct, n, ag, rfl⟩ := hd
  simp only at ha
  subst ha
  exact ⟨⟨hg.orderly, hg.fresh, hg.created, hg.agent, hg.handle, hstream, hg.url, hg.linked⟩, rfl⟩

/-- `_Resume` once the file is open again. -/
theorem resume_run (uri : UriLib) (o : Outside) (w : World) :
    (∃ hr, resume uri o w = (.error hr, w)) ∨
    (o.closeErr ≠ none ∧ ∃ hr, resume uri o w = (.error hr, { w with terminated := true })) ∨
    (w.dl.status.bytesTotal ≠ 0 ∧ w.dl.status.bytesTransferred = w.dl.status.bytesTotal ∧
      resume uri o w = (.ok (), { w with
        dl := { w.dl with fileStream := some w.dl.destFilePath }
        taskQ := w.taskQ.addFront w.now .alreadyTransferred (some .download) })) ∨
    ¬ (w.dl.status.bytesTotal ≠ 0 ∧ w.dl.status.bytesTransferred = w.dl.status.bytesTotal) ∧
      ∃ d, SetUp w (if w.dl.fAllowMcc then o.mccHost else w.dl.mccHost) w.dl.mccFallbackDue d ∧
        d.httpAgent = w.dl.httpAgent ∧
        resume uri o w = sendHttpRequest uri o false
          { w with dl := { d with fileStream := some w.dl.destFilePath } } := by
  simp only [resume, DlM.bind_run]
  rcases openDestFile_run o w with h | ⟨hr, h⟩ | ⟨he, hr, h⟩
  · rw [h]
    simp only [DlM.get_run, DlM.ite_run, DlM.modify_run]
    split
    · next hall => exact .inr (.inr (.inl ⟨hall.1, hall.2, rfl⟩))
    · next hall =>
      refine .inr (.inr (.inr ⟨hall, ?_⟩))
      cases hallow : w.dl.fAllowMcc with
      | true =>
        refine ⟨{ w.dl with mccHost := o.mccHost }, ⟨⟨_, _, _, _, _, _, _, rfl⟩, rfl, rfl, rfl, rfl⟩, rfl, ?_⟩
        simp [World.updateDl, hallow]
      | false =>
        refine ⟨w.dl, ⟨.refl _, rfl, rfl, rfl, rfl⟩, rfl, ?_⟩
        simp [World.updateDl, hallow]
  · rw [h]
    exact .inl ⟨hr, rfl⟩
  · rw [h]
    exact .inr (.inl ⟨he, hr, rfl⟩)

theorem resume_leads (hg : Good uri w) (hw : w.terminated = false) (hs : w.dl.status.state = .paused) :
    ∃ a, ClientRequest.Does o .start a ∧ w.life.Enabled a ∧
    Leads uri ((resume uri o >>= fun _ => DlM.modify (·.updateStatus (·.transferring))) w).2
    (w.life.apply a) := by
  have hne : w.requests ≠ [] := hg.issued (by simp [hs]) (by simp [hs])
  have hagent := hg.agent hne
  obtain ⟨a, ha⟩ := Option.isSome_iff_exists.1 hagent
  rw [DlM.bind_run]
  rcases resume_run uri o w with ⟨e, h⟩ | ⟨he, e, h⟩ | ⟨ht, hall, h⟩ | ⟨hall, d, ⟨hd, -⟩, hda, h⟩
  · rw [h]
    exact ⟨.idle, .inl rfl, trivial, hg, rfl⟩
  · rw [h]
    refine ⟨.sendFailed .resume false true, .inr (.inr (.inr ⟨_, _, fun _ => he, .inr rfl⟩)), hs, ?_, ?_⟩
    · exact ⟨hg.orderly, hg.fresh, hg.created, hg.agent, hg.handle, hg.stream, hg.url, hg.linked⟩
    · simp [World.life, Life.apply, Life.useTimer]
  · rw [h]
    refine ⟨.skipRequest, .inr (.inl rfl), ⟨hs, ht, hall⟩, ?_, ?_⟩
    · exact Good.started hne (hg.orderly.addFront rfl rfl) nofun hagent hg.handle (by rintro p ⟨⟩; rfl)
        hg.url hg.linked
    · simp only [World.life, World.updateStatus, World.updateDl, DlM.modify_run, TaskQueue.count_addFront,
        TaskQueue.updates_addFront .alreadyTransferred rfl]
      rfl
  · rw [h]
    obtain ⟨hg₁, hl⟩ := leads_rerouted hg hd hda (some w.dl.destFilePath) (by rintro - p ⟨⟩; rfl)
    have hpath : d.destFilePath = w.dl.destFilePath := by
      obtain ⟨pl, mh, md, al, ct, n, ag, rfl⟩ := hd
      rfl
    rcases sendHttpRequest_leads hg₁ false (hda.trans ha) (.inl hne) (by simp [hpath]) (hg₁.validUrl hne) with
      ⟨e, w', called, hsend, hleads, -, -⟩ | ⟨w', r, hsend, hleads, -, hadd, hstart, hlen⟩
    · rw [hsend]
      rw [hl] at hleads
      exact ⟨.sendFailed .resume called w.terminated,
        .inr (.inr (.inr ⟨_, _, fun ht => absurd (hw.symm.trans ht) Bool.noConfusion, .inr rfl⟩)), hs, hleads⟩
    · rw [hsend]
      rw [hl] at hleads hadd hstart hlen
      exact ⟨.send .resume r, .inr (.inr (.inl ⟨r, .inr rfl⟩)), ⟨⟨hs, hall⟩, hadd, hstart, hlen⟩, hleads⟩

/-! ## Closing -/

/-- What `_Pause` leaves when it throws, whatever becomes of the exception. -/
theorem leads_closeFailed (hg : Good uri w) (hne : w.requests ≠ []) {c : CurlHandle} (hc : Closed w.curl c)
    (terminates : Bool) :
    Leads uri { w with curl := c, dl := { w.dl with fHttpRequestActive := false }, terminated := terminates }
      (w.life.apply (.closeFailed terminates)) := by
  refine ⟨Good.started hne hg.orderly (hg.ne_created hne) (hg.agent hne)
    (fun h => absurd h hc.not_outstanding)
    (hg.stream hne) hg.url fun _ => hc.linked _, ?_⟩
  simp only [World.life, hc.1, hc.2.1]
  rfl

/-- `_Pause` and a paused status that is not a transient error. -/
theorem pause_leads (hg : Good uri w) (o : Outside) (hne : w.requests ≠ []) (hrError : HResult)
    (hrExtended : DownloadStatus → HResult)
    (hs : ∀ s : DownloadStatus, (s.paused hrError (hrExtended s)).isTransientError = false) :
    (w.closes o = true ∧ ∃ w',
      (pause o >>= fun _ => DlM.modify (·.updateStatus fun s => s.paused hrError (hrExtended s))) w =
      (.ok (), w') ∧
      Leads uri w' { w.life.close with state := .paused, waiting := false }) ∨
    w.closes o = false ∧ ∃ hr c, Closed w.curl c ∧
      (pause o >>= fun _ => DlM.modify (·.updateStatus fun s => s.paused hrError (hrExtended s))) w =
        (.error hr, { w with curl := c, dl := { w.dl with fHttpRequestActive := false } }) := by
  obtain ⟨c, hc, ⟨he, h⟩ | ⟨he, hr, h⟩⟩ := pause_run hg o
  · refine .inl ⟨he, _, by rw [DlM.bind_run, h]; rfl, ?_, ?_⟩
    · exact Good.started hne hg.orderly nofun (hg.agent hne) (fun h => absurd h hc.not_outstanding)
        nofun hg.url fun _ => hc.linked _
    · simp only [World.life, World.updateStatus, World.updateDl, hc.1, hc.2.1, hs]
      rfl
  · exact .inr ⟨he, hr, c, hc, by rw [DlM.bind_run, h]⟩

theorem finalize_leads (hg : Good uri w) (o : Outside) (hne : w.requests ≠ []) :
    Leads uri ((finalize o >>= fun _ => DlM.modify (·.updateStatus (·.finalized))) w).2
    (w.life.apply .finalized) ∨
    o.closeErr ≠ none ∧
      Leads uri ((finalize o >>= fun _ => DlM.modify (·.updateStatus (·.finalized))) w).2
        (w.life.apply .finalizeFailed) := by
  obtain ⟨c, hc, ⟨-, h⟩ | ⟨he, hr, h⟩⟩ := finalize_run hg o
  · left
    rw [DlM.bind_run, h]
    refine ⟨Good.started hne hg.orderly.remove.remove nofun (hg.agent hne)
      (fun h => absurd h hc.not_outstanding) nofun
      hg.url fun _ => hc.linked _, ?_⟩
    have hcancel := cancelTasks_life (w := { w with
      curl := c, dl := { w.dl with
        fHttpRequestActive := false, fileStream := none, status := w.dl.status.finalized } })
      hg.orderly
    refine hcancel.trans ?_
    simp only [World.life, hc.1, hc.2.1]
    rfl
  · right
    rw [DlM.bind_run, h]
    exact ⟨closeErr_of_closes he, leads_closeFailed hg hne hc w.terminated⟩

/-- The file is removed, or nothing changes. -/
theorem deleteOwnFile_run (o : Outside) (w : World) : ∃ fs removed,
    deleteOwnFile o w = { w with fs := fs, removed := removed } ∧
    (fs w.dl.destFilePath = w.fs w.dl.destFilePath ∨ fs w.dl.destFilePath = none) := by
  by_cases hown : w.dl.fDestFileCreated ∧ ¬ w.dl.destFilePath.isEmpty
  · rw [deleteOwnFile, if_pos hown, deleteDestFile]
    split
    · exact ⟨_, _, rfl, .inr (by simp)⟩
    · exact ⟨_, _, rfl, .inl rfl⟩
  · rw [deleteOwnFile, if_neg hown]
    exact ⟨_, _, rfl, .inl rfl⟩

theorem abort_leads (hg : Good uri w) (o : Outside) (hf : w.dl.status.state ≠ .finalized)
    (ha : w.dl.status.state ≠ .aborted) : ∃ cancelled file, (cancelled = false → o.closeErr ≠ none) ∧
    w.life.Enabled (.aborted cancelled file) ∧
    Leads uri ((abort o >>= fun _ => DlM.modify (·.updateStatus (·.aborted))) w).2
      (w.life.apply (.aborted cancelled file)) := by
  obtain ⟨c, hc, ⟨-, h⟩ | ⟨he, h⟩⟩ := abort_run hg o
  · obtain ⟨fs, removed, hdel, hfs⟩ := deleteOwnFile_run o (World.cancelTasks { w with
      curl := c, dl := { w.dl with fileStream := none } })
    rw [DlM.bind_run, h, hdel]
    have hi : (World.cancelTasks { w with curl := c, dl := { w.dl with fileStream := none } }).taskQ.Idle :=
      hg.orderly.idle_remove
    refine ⟨true, if w.requests = [] then [] else (fs w.dl.destFilePath).getD [], (by rintro ⟨⟩), ⟨hf, ha, ?_⟩, ?_, ?_⟩
    · rcases hfs with hfs | hfs
      · left
        rw [show fs w.dl.destFilePath = _ from hfs]
        rfl
      · right
        rw [show fs w.dl.destFilePath = _ from hfs]
        simp
    · refine ⟨hg.orderly.remove.remove, fun hr => ?_, (by rintro ⟨⟩), hg.agent,
        fun h => absurd h hc.not_outstanding, (by rintro - _ ⟨⟩),
      hg.url, fun _ => hc.linked _⟩
      obtain ⟨-, hact, hcurl, -⟩ := hg.fresh hr
      exact ⟨.inr rfl, hact, hc.2.2 hcurl, hi⟩
    · simp only [World.life, World.updateStatus, World.updateDl, DlM.modify_run, TaskQueue.updates_of_idle hi,
        TaskQueue.count_of_idle hi .transientTimer rfl,
        TaskQueue.count_of_idle hi .alreadyTransferred rfl]
      simp only [World.cancelTasks, hc.1, hc.2.1]
      rfl
  · refine ⟨false, w.life.file, fun _ => closeErr_of_closes he, ⟨hf, ha, .inl rfl⟩, ?_⟩
    rw [DlM.bind_run, h]
    refine ⟨⟨hg.orderly, fun hr => ?_, (by rintro ⟨⟩), hg.agent, fun h => absurd h hc.not_outstanding, hg.stream,
      hg.url, fun _ => hc.linked _⟩, ?_⟩
    · obtain ⟨-, hact, hcurl, hi⟩ := hg.fresh hr
      exact ⟨.inr rfl, hact, hc.2.2 hcurl, hi⟩
    · simp only [World.life, World.updateStatus, World.updateDl, DlM.modify_run, hc.1, hc.2.1]
      rfl

/-! ## Client requests -/

theorem Leads.idle (hg : Good uri w) : Leads uri w (w.life.apply .idle) := ⟨hg, rfl⟩

theorem setProperty_leads (hg : Good uri w) (key : DownloadProperty) (value : String) :
    Leads uri (setProperty uri o key value w).2 w.life := by
  cases key with
  | id => exact ⟨hg, rfl⟩
  | uri =>
    simp only [setProperty, DlM.bind_run, DlM.get_run, DlM.ite_run, DlM.throwHr_run, DlM.modify_run]
    split
    · exact ⟨hg, rfl⟩
    split
    · exact ⟨hg, rfl⟩
    next hvalid =>
    have hurl : value.isEmpty = true ∧ w.requests = [] ∨ validateUrl uri value = true :=
      .inr (by simpa using hvalid)
    split
    · exact ⟨hg, rfl⟩
    · simp only [World.updateDl]
      split
      · exact ⟨⟨hg.orderly, hg.fresh, hg.created, hg.agent, hg.handle, hg.stream, hurl, hg.linked⟩, rfl⟩
      · exact ⟨⟨hg.orderly, hg.fresh, hg.created, hg.agent, hg.handle, hg.stream, hurl, hg.linked⟩, rfl⟩
  | localPath =>
    simp only [setProperty, DlM.bind_run, DlM.get_run, DlM.ite_run, DlM.throwHr_run, DlM.modify_run]
    split
    · exact ⟨hg, rfl⟩
    split
    · exact ⟨hg, rfl⟩
    next hs =>
    have hr := (hg.created (by simpa using hs)).1
    refine ⟨⟨hg.orderly, hg.fresh, hg.created, hg.agent, hg.handle, fun h => absurd hr h, hg.url,
      hg.linked⟩, ?_⟩
    simp [World.life, World.updateDl, hr]
  | noProgressTimeoutSeconds =>
    simp only [setProperty, DlM.bind_run, DlM.get_run, DlM.liftExcept_run]
    cases toUInt value with
    | error hr => exact ⟨hg, rfl⟩
    | ok timeout =>
      simp only [DlM.ite_run, DlM.throwHr_run, DlM.modify_run]
      split
      · exact ⟨hg, rfl⟩
      · exact ⟨⟨hg.orderly, hg.fresh, hg.created, hg.agent, hg.handle, hg.stream, hg.url, hg.linked⟩, rfl⟩
  | other => exact ⟨hg, rfl⟩

theorem clientRequest_leads (hg : Good uri w) (hw : w.terminated = false) (o : Outside) (r : ClientRequest) :
    ∃ a, r.Does o a ∧ w.life.Enabled a ∧ Leads uri (clientRequest uri o r w).2 (w.life.apply a) := by
  cases r with
  | start =>
    simp only [clientRequest, performStateChange, DlM.bind_run, DlM.get_run]
    cases hs : w.dl.status.state with
    | created => exact start_leads hg hw hs
    | paused => exact resume_leads hg hw hs
    | transferring | transferred => exact ⟨.idle, .inl rfl, trivial, .idle hg⟩
    | finalized | aborted => exact ⟨.idle, .inl rfl, trivial, .idle hg⟩
  | pause =>
    simp only [clientRequest, performStateChange, DlM.bind_run, DlM.get_run]
    cases hs : w.dl.status.state with
    | transferring =>
      have hne : w.requests ≠ [] := hg.issued (by simp [hs]) (by simp [hs])
      rcases pause_leads hg o hne S_OK (fun _ => S_OK) (fun _ => rfl) with
        ⟨-, w', hrun, hl⟩ | ⟨he, hr, c, hc, hrun⟩
      · refine ⟨.closed, .inr (.inl rfl), hs, ?_⟩
        show Leads uri ((pause o >>= fun _ => DlM.modify (·.updateStatus (·.paused S_OK S_OK))) w).2 _
        rw [hrun]
        exact hl
      · refine ⟨.closeFailed w.terminated, .inr (.inr ⟨closeErr_of_closes he, by rw [hw]⟩), hs, ?_⟩
        show Leads uri ((pause o >>= fun _ => DlM.modify (·.updateStatus (·.paused S_OK S_OK))) w).2 _
        rw [hrun]
        exact leads_closeFailed hg hne hc w.terminated
    | created | transferred | paused => exact ⟨.idle, .inl rfl, trivial, .idle hg⟩
    | finalized | aborted => exact ⟨.idle, .inl rfl, trivial, .idle hg⟩
  | finalize =>
    simp only [clientRequest, performStateChange, DlM.bind_run, DlM.get_run]
    cases hs : w.dl.status.state with
    | transferred =>
      have hne : w.requests ≠ [] := hg.issued (by simp [hs]) (by simp [hs])
      rcases finalize_leads hg o hne with hl | ⟨he, hl⟩
      · exact ⟨.finalized, .inr (.inl rfl), hs, hl⟩
      · exact ⟨.finalizeFailed, .inr (.inr ⟨he, rfl⟩), hs, hl⟩
    | created | transferring | paused => exact ⟨.idle, .inl rfl, trivial, .idle hg⟩
    | finalized | aborted => exact ⟨.idle, .inl rfl, trivial, .idle hg⟩
  | abort =>
    simp only [clientRequest, performStateChange, DlM.bind_run, DlM.get_run]
    cases hs : w.dl.status.state with
    | created | transferring | transferred | paused =>
      obtain ⟨cancelled, file, he, hen, hl⟩ := abort_leads hg o (by simp [hs]) (by simp [hs])
      exact ⟨_, .inr ⟨cancelled, file, rfl, he⟩, hen, hl⟩
    | finalized | aborted => exact ⟨.idle, .inl rfl, trivial, .idle hg⟩
  | getStatus => exact ⟨.idle, rfl, trivial, .idle hg⟩
  | setProperty key value => exact ⟨.idle, rfl, trivial, setProperty_leads hg key value⟩

/-! ## The scheduled lambdas -/

/-- The life before an operation was taken from the queue. -/
def Life.before (l : Life) (op : Op) : Life := { l with
  updates := op.update.toList ++ l.updates
  timers := l.timers + if op = .transientTimer then 1 else 0
  shortcuts := l.shortcuts + if op = .alreadyTransferred then 1 else 0 }

theorem Good.setStatus (hg : Good uri w) (hne : w.requests ≠ []) {s : DownloadStatus}
    (hs : s.state ≠ .created) (active : Bool) (code : Nat) (headers : String) (mcc : MccManager) :
    Good uri { w with
      dl :=
        { w.dl with
          status := s, fHttpRequestActive := active, httpStatusCode := code, responseHeaders := headers }
      mcc := mcc } :=
  Good.started hne hg.orderly hs (hg.agent hne) hg.handle (hg.stream hne) hg.url hg.linked

theorem handleTransientError_leads (hg : Good uri w) (hne : w.requests ≠ []) (hr : HResult)
    (hf : failed hr = true) :
    Leads uri (handleTransientError hr w) w.life.goOffline := by
  refine ⟨Good.started hne ?_ nofun (hg.agent hne) hg.handle (hg.stream hne) hg.url hg.linked, ?_⟩
  · exact hg.orderly.add rfl (fun h => absurd rfl h) nofun nofun
  · have hw : ((w.dl.status.paused S_OK hr).isTransientError) = true := by
      simp [DownloadStatus.paused, DownloadStatus.isTransientError, hf]
    simp only [handleTransientError, World.life, World.sched, World.updateStatus, World.updateDl, hw,
      TaskQueue.updates_add_none .transientTimer rfl, TaskQueue.count_add]
    rfl

/-- The failure is noted and a retry queued. -/
theorem schedRetry_run (hr : HResult) (w : World) : ∃ nextRetryDelay delay, schedRetry hr w =
    ({ w with dl := { w.dl with
      status := { w.dl.status with error := hr }
      progressTracker := { w.dl.progressTracker with nextRetryDelay := nextRetryDelay } } } : World).sched
      .retry delay .download := by
  unfold schedRetry
  extract_lets w₁
  split
  · exact ⟨_, _, rfl⟩
  · exact ⟨_, _, rfl⟩

theorem schedRetry_leads (hg : Good uri w) (hne : w.requests ≠ []) {hr : HResult} (hf : failed hr = true) :
    Leads uri (schedRetry hr w) { w.life with waiting := false } := by
  obtain ⟨tracker, delay, hrun⟩ := schedRetry_run hr w
  rw [hrun]
  have hq : SameWork w.now w.taskQ (w.taskQ.add w.now .retry delay Op.retry.tag) := sameWork_sched (.inl rfl)
  refine ⟨Good.started hne (hq.orderly hg.orderly) (hg.ne_created hne) (hg.agent hne) hg.handle
    (hg.stream hne) hg.url hg.linked, ?_⟩
  have hw : DownloadStatus.isTransientError { w.dl.status with error := hr } = false := by
    simp [DownloadStatus.isTransientError, failed_ne_S_OK hf]
  have h₁ := hq.updates
  have h₂ := hq.timers
  have h₃ := hq.shortcuts
  simp only [Op.tag] at h₁ h₂ h₃
  simp only [World.life, World.sched, hw, h₁, h₂, h₃]
  rfl

/-- What the failure lambda notes first: the response, and with a network the error of the cache host. -/
def World.failureNoted (uri : UriLib) (o : Outside) (hrRequest : HResult) (code : Nat) (headers : String)
    (w : World) : World := { w with
  dl := { w.dl with fHttpRequestActive := false, httpStatusCode := code, responseHeaders := headers }
  mcc := if o.hasViableInterface && w.dl.usingMcc then
      w.mcc.reportHostError uri w.now hrRequest code w.dl.mccHost w.dl.url
    else w.mcc }

/-- The failure lambda: what it notes, then one of three ways on. -/
theorem transferFailed_noted (uri : UriLib) (o : Outside) (hrRequest hrCallback : HResult) (code : Nat)
    (headers : String) (w : World) : transferFailed uri o hrRequest hrCallback code headers w =
      if o.hasViableInterface = false then
        (.ok (), handleTransientError DO_E_BLOCKED_BY_NO_NETWORK
          (w.failureNoted uri o hrRequest code headers))
      else if w.dl.isFatalError hrRequest hrCallback code = true then
        (pause o >>= fun _ => DlM.modify (·.updateStatus fun s =>
          s.paused (hrErrorToReport hrRequest hrCallback) S_OK)) (w.failureNoted uri o hrRequest code headers)
      else (.ok (), schedRetry (hrErrorToReport hrRequest hrCallback)
        (w.failureNoted uri o hrRequest code headers)) := by
  cases hv : o.hasViableInterface with
  | false =>
    simp only [transferFailed, World.failureNoted, DlM.bind_run, DlM.modify_run, hv]
    rfl
  | true =>
    simp only [transferFailed, World.failureNoted, DlM.bind_run, DlM.modify_run, DlM.get_run, DlM.ite_run, hv,
      World.updateDl, Bool.not_true, Bool.false_eq_true, if_false]
    have hmcc : w.dl.usingMcc = Download.usingMcc { w.dl with
      fHttpRequestActive := false, httpStatusCode := code, responseHeaders := headers } := rfl
    cases husing : w.dl.usingMcc <;> rw [husing] at hmcc <;> simp only [← hmcc] <;> rfl

/-- The failure lambda, whatever becomes of the bans. -/
theorem transferFailed_run (uri : UriLib) (o : Outside) (hrRequest hrCallback : HResult) (code : Nat)
    (headers : String) (w : World) : ∃ mcc, ∀ w₁ : World, w₁ = { w with
        dl := { w.dl with fHttpRequestActive := false, httpStatusCode := code, responseHeaders := headers }
        mcc := mcc } →
      transferFailed uri o hrRequest hrCallback code headers w =
        if o.hasViableInterface = false then (.ok (), handleTransientError DO_E_BLOCKED_BY_NO_NETWORK w₁)
        else if w.dl.isFatalError hrRequest hrCallback code = true then
          (pause o >>= fun _ => DlM.modify (·.updateStatus fun s =>
            s.paused (hrErrorToReport hrRequest hrCallback) S_OK)) w₁
        else (.ok (), schedRetry (hrErrorToReport hrRequest hrCallback) w₁) :=
  ⟨_, fun _ h => h ▸ transferFailed_noted uri o hrRequest hrCallback code headers w⟩

theorem transferFailed_leads (hg : Good uri w) (hne : w.requests ≠ [])
    {hrRequest hrCallback : HResult} {code : Nat} {headers : String} (hf : failed hrRequest = true)
    (hfront : w.life.shortcuts = 0) (o : Outside) :
    ∃ a, (Op.transferFailed hrRequest hrCallback code headers).Does w o a ∧
      (w.life.before (.transferFailed hrRequest hrCallback code headers)).Enabled a ∧
      Leads uri (runTask uri o (.transferFailed hrRequest hrCallback code headers) w)
        ((w.life.before (.transferFailed hrRequest hrCallback code headers)).apply a) := by
  obtain ⟨mcc, hrun⟩ := transferFailed_run uri o hrRequest hrCallback code headers w
  have hg₁ := hg.setStatus hne (hg.ne_created hne) false code headers mcc
  replace hrun := hrun _ rfl
  have hen :
    (w.life.before (.transferFailed hrRequest hrCallback code headers)).updates.head? = some .failed ∧
      (w.life.before (.transferFailed hrRequest hrCallback code headers)).shortcuts = 0 := ⟨rfl, hfront⟩
  simp only [Op.Does, runTask, runOp, hrun]
  split
  · obtain ⟨hg', hl⟩ := handleTransientError_leads hg₁ hne DO_E_BLOCKED_BY_NO_NETWORK (by decide)
    exact ⟨.failedOffline, rfl, hen, hg', hl⟩
  · split
    · have hfatal := failed_hrErrorToReport hrCallback hf
      rcases pause_leads hg₁ o hne (hrErrorToReport hrRequest hrCallback) (fun _ => S_OK)
        (fun s => by simp [DownloadStatus.paused, DownloadStatus.isTransientError, failed_ne_S_OK hfatal])
          with
        ⟨he, w', hpause, hg', hl⟩ | ⟨he, hr, c, hc, hpause⟩
      · refine ⟨.failedFatal true, .inl ⟨he, rfl⟩, hen, ?_⟩
        rw [hpause]
        exact ⟨hg', hl⟩
      · refine ⟨.failedFatal false, .inr ⟨he, rfl⟩, hen, ?_⟩
        rw [hpause]
        obtain ⟨hg', hl⟩ := leads_closeFailed hg₁ hne hc true
        exact ⟨hg', hl⟩
    · obtain ⟨hg', hl⟩ := schedRetry_leads hg₁ hne (failed_hrErrorToReport hrCallback hf)
      exact ⟨.failedRetry, rfl, hen, hg', hl⟩

theorem retry_leads (hg : Good uri w) (hne : w.requests ≠ []) (hfront : w.life.shortcuts = 0) (o : Outside) :
    ∃ a, Op.retry.Does w o a ∧ (w.life.before .retry).Enabled a ∧
      Leads uri (runTask uri o .retry w) ((w.life.before .retry).apply a) := by
  have hbefore : w.life.before .retry = w.life := rfl
  rw [hbefore]
  simp only [runTask, runOp, DlM.bind_run, DlM.get_run, DlM.ite_run, DlM.pure_run]
  by_cases hready : w.dl.status.state = .transferring ∧ ¬ w.dl.fHttpRequestActive = true
  · have hr : w.life.Ready .retry := ⟨hready.1, Bool.not_eq_true _ ▸ hready.2, hfront⟩
    obtain ⟨a, ha⟩ := Option.isSome_iff_exists.1 (hg.agent hne)
    rw [if_pos hready]
    rcases sendHttpRequest_leads hg true ha (.inl hne) (hg.stream hne) (hg.validUrl hne) with
      ⟨e, w', called, hsend, -, -, hl⟩ | ⟨w', r, hsend, hl, hsame, hadd, hstart, hlen⟩
    · rw [hsend]
      exact ⟨.sendFailed .retry called true, .inr (.inr ⟨called, rfl⟩), ⟨hr, rfl⟩, hl⟩
    · rw [hsend]
      rw [hsame hready.1] at hl
      exact ⟨.send .retry r, .inr (.inl ⟨r, rfl⟩), ⟨hr, hadd, hstart, hlen⟩, hl⟩
  · rw [if_neg hready]
    exact ⟨.idle, .inl rfl, trivial, .idle hg⟩

theorem transientTimer_leads (hg : Good uri w) (hne : w.requests ≠ []) (hfront : w.life.shortcuts = 0)
    (o : Outside) :
    ∃ a, Op.transientTimer.Does w o a ∧ (w.life.before .transientTimer).Enabled a ∧
      Leads uri (runTask uri o .transientTimer w) ((w.life.before .transientTimer).apply a) := by
  have htimers : 0 < (w.life.before .transientTimer).timers := Nat.succ_pos _
  simp only [Op.Does, runTask, runOp]
  cases hv : o.hasViableInterface with
  | false =>
    obtain ⟨hg', hl⟩ := handleTransientError_leads hg hne DO_E_BLOCKED_BY_NO_NETWORK (by decide)
    exact ⟨.timerOffline, rfl, ⟨htimers, hfront⟩, hg', hl⟩
  | true =>
    simp only [Bool.true_eq_false, if_false, if_true, resumeAfterTransientError, DlM.bind_run,
      DlM.get_run, DlM.ite_run, DlM.pure_run]
    by_cases hwait : w.dl.status.isTransientError = true
    · obtain ⟨a, ha⟩ := Option.isSome_iff_exists.1 (hg.agent hne)
      rw [if_pos hwait]
      rcases sendHttpRequest_leads hg false ha (.inl hne) (hg.stream hne) (hg.validUrl hne) with
        ⟨e, w', called, hsend, -, -, hl⟩ | ⟨w', r, hsend, hl, -, hadd, hstart, hlen⟩
      · rw [hsend]
        exact ⟨.sendFailed .timer called true, .inr (.inr ⟨called, rfl⟩), ⟨⟨hwait, htimers, hfront⟩, rfl⟩, hl⟩
      · rw [hsend]
        exact ⟨.send .timer r, .inr (.inl ⟨r, rfl⟩), ⟨⟨hwait, htimers, hfront⟩, hadd, hstart, hlen⟩, hl⟩
    · rw [if_neg hwait]
      have hnot : w.life.waiting = false := Bool.not_eq_true _ ▸ hwait
      exact ⟨.timerIdle, .inl rfl, ⟨hnot, htimers, hfront⟩, hg, rfl⟩

theorem progressCheck_leads (hg : Good uri w) (hne : w.requests ≠ []) (o : Outside) :
    ∃ a, Op.progressCheck.Does w o a ∧ (w.life.before .progressCheck).Enabled a ∧
      Leads uri (runTask uri o .progressCheck w) ((w.life.before .progressCheck).apply a) := by
  have hbefore : w.life.before .progressCheck = w.life := rfl
  rw [hbefore]
  simp only [runTask, runOp, progressCheck, DlM.bind_run, DlM.get_run, DlM.ite_run, DlM.pure_run]
  by_cases hs : w.dl.status.state = .transferring
  · rw [if_pos hs]
    rcases w.dl.progressTracker.checkProgress w.dl.status.bytesTransferred w.dl.maxNoProgressIntervals with
      ⟨timedOut, tracker⟩
    have hg₁ : Good uri { w with dl := { w.dl with progressTracker := tracker } } :=
      Good.started hne hg.orderly (hg.ne_created hne) (hg.agent hne) hg.handle (hg.stream hne)
        hg.url hg.linked
    cases timedOut with
    | true =>
      show ∃ a, _ ∧ _ ∧ Leads uri (unguarded ((pause o >>= fun _ => DlM.modify (·.updateStatus fun s =>
        s.paused DO_E_DOWNLOAD_NO_PROGRESS s.error))
          { w with dl := { w.dl with progressTracker := tracker } })) _
      rcases pause_leads hg₁ o hne DO_E_DOWNLOAD_NO_PROGRESS (fun s => s.error) (fun s => rfl) with
        ⟨-, w', hpause, hl⟩ | ⟨he, hr, c, hc, hpause⟩
      · refine ⟨.closed, .inr (.inl rfl), hs, ?_⟩
        rw [hpause]
        exact hl
      · refine ⟨.closeFailed true, .inr (.inr ⟨closeErr_of_closes he, rfl⟩), hs, ?_⟩
        rw [hpause]
        exact leads_closeFailed hg₁ hne hc true
    | false =>
      show ∃ a, _ ∧ _ ∧ Leads uri (unguarded (.ok (),
        schedProgressTracking { w with dl := { w.dl with progressTracker := tracker } })) _
      obtain ⟨q, hq, hrun⟩ :=
        schedProgressTracking_run { w with dl := { w.dl with progressTracker := tracker } }
      rw [hrun]
      refine ⟨.idle, .inl rfl, trivial, ?_, ?_⟩
      · exact Good.started hne (hq.orderly hg.orderly) (hg.ne_created hne) (hg.agent hne) hg.handle
          (hg.stream hne) hg.url hg.linked
      · simp only [unguarded, World.life, hq.updates, hq.timers, hq.shortcuts]
        rfl
  · rw [if_neg hs]
    exact ⟨.idle, .inl rfl, trivial, .idle hg⟩

/-- **Every task is one act of the life cycle.** -/
theorem runTask_leads (hg : Good uri w) (hw : w.terminated = false) (o : Outside) {op : Op}
    (hown : op.own = true → w.requests ≠ [])
    (hfail : ∀ hr hc code headers, op = .transferFailed hr hc code headers → failed hr = true)
    (hfront : op.atFront = false → w.life.shortcuts = 0) :
    ∃ a, op.Does w o a ∧ (w.life.before op).Enabled a ∧ Leads uri (runTask uri o op w)
    ((w.life.before op).apply a) := by
  cases op with
  | client r =>
    obtain ⟨a, hdoes, hen, hg', hl⟩ := clientRequest_leads hg hw o r
    have hbefore : w.life.before (.client r) = w.life := rfl
    rw [hbefore]
    refine ⟨a, hdoes, hen,
      ⟨hg'.orderly, hg'.fresh, hg'.created, hg'.agent, hg'.handle, hg'.stream, hg'.url, hg'.linked⟩, ?_⟩
    exact hl
  | headersUpdate code bytesTotal headers =>
    have hne := hown rfl
    refine ⟨.headers bytesTotal, rfl, ⟨rfl, hfront rfl⟩, ?_, rfl⟩
    exact Good.started hne hg.orderly (hg.ne_created hne) (hg.agent hne) hg.handle (hg.stream hne)
      hg.url hg.linked
  | dataUpdate cbData =>
    have hne := hown rfl
    refine ⟨.data cbData, rfl, ⟨rfl, hfront rfl⟩, ?_, rfl⟩
    exact Good.started hne hg.orderly (hg.ne_created hne) (hg.agent hne) hg.handle (hg.stream hne)
      hg.url hg.linked
  | transferCompleted =>
    have hne := hown rfl
    refine ⟨.completed, rfl, ⟨rfl, hfront rfl⟩, ?_, rfl⟩
    exact Good.started hne hg.orderly nofun (hg.agent hne) hg.handle (hg.stream hne) hg.url hg.linked
  | transferFailed hr hc code headers =>
    exact transferFailed_leads hg (hown rfl) (hfail _ _ _ _ rfl) (hfront rfl) o
  | retry => exact retry_leads hg (hown rfl) (hfront rfl) o
  | transientTimer => exact transientTimer_leads hg (hown rfl) (hfront rfl) o
  | alreadyTransferred =>
    have hne := hown rfl
    refine ⟨.alreadyTransferred, rfl, Nat.succ_pos _, ?_, rfl⟩
    exact Good.started hne hg.orderly nofun (hg.agent hne) hg.handle (hg.stream hne) hg.url hg.linked
  | progressCheck => exact progressCheck_leads hg (hown rfl) o
  | foreign =>
    refine ⟨.idle, rfl, trivial, ?_, rfl⟩
    exact ⟨hg.orderly, hg.fresh, hg.created, hg.agent, hg.handle, hg.stream, hg.url, hg.linked⟩

end DoClient
