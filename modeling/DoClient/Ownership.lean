/-
Whose file it is: the files a download creates and removes, through every
sequence of client requests. The path may change while the state is Created,
and a Start that fails leaves the state Created behind a file it has made.
-/
import DoClient.Ledger
import DoClient.Transitions

namespace DoClient

/-- Files, and the record of them, are the same. -/
structure SameFiles (w w' : World) : Prop where
  fs : w'.fs = w.fs
  created : w'.created = w.created
  removed : w'.removed = w.removed
  own : w'.dl.fDestFileCreated = w.dl.fDestFileCreated
  path : w'.dl.destFilePath = w.dl.destFilePath

theorem SameFiles.refl (w : World) : SameFiles w w := ⟨rfl, rfl, rfl, rfl, rfl⟩

theorem SameFiles.trans {w w' w'' : World} (h : SameFiles w w') (h' : SameFiles w' w'') : SameFiles w w'' :=
  ⟨h'.fs.trans h.fs, h'.created.trans h.created, h'.removed.trans h.removed, h'.own.trans h.own,
    h'.path.trans h.path⟩

/-- No Abort is handled, but one of a download that is gone. -/
def NotAborting (w : World) (e : Event) : Prop :=
  ∀ o, e.Runs w o (.client .abort) → w.dl.status.state = .finalized ∨ w.dl.status.state = .aborted

/-- What a step does to the files. -/
inductive Files (w : World) (e : Event) (w' : World) : Prop
  | same : SameFiles w w' → NotAborting w e → Files w e w'
  /-- A Start makes the file, where there was none. -/
  | made (o : Outside) : e.Runs w o (.client .start) → w.dl.status.state = .created →
    w.fs w.dl.destFilePath = none → w.dl.destFilePath.isEmpty = false →
    w'.fs = Function.update w.fs w.dl.destFilePath (some []) → w'.created = w.dl.destFilePath :: w.created →
    w'.removed = w.removed → w'.dl.fDestFileCreated = true → w'.dl.destFilePath = w.dl.destFilePath →
      Files w e w'
  /-- Bytes come from the transfer in the active list. -/
  | written (c : CurlEvent) : e = .curl c → w.curl.active.isSome = true → w'.created = w.created →
    w'.removed = w.removed → w'.dl.fDestFileCreated = w.dl.fDestFileCreated →
    w'.dl.destFilePath = w.dl.destFilePath → Files w e w'
  | aborted (o : Outside) :
    e.Runs w o (.client .abort) → w'.fs = (deleteOwnFile o w).fs → w'.created = w.created →
    w'.removed = (deleteOwnFile o w).removed → w'.dl.fDestFileCreated = w.dl.fDestFileCreated →
    w'.dl.destFilePath = w.dl.destFilePath → Files w e w'
  | renamed (o : Outside) (value : String) : e.Runs w o (.client (.setProperty .localPath value)) →
    w.dl.status.state = .created → value.isEmpty = false → w'.fs = w.fs → w'.created = w.created →
    w'.removed = w.removed → w'.dl.fDestFileCreated = w.dl.fDestFileCreated → w'.dl.destFilePath = value →
      Files w e w'

variable {uri : UriLib} {o : Outside} {w w' : World} {e : Event}

/-! ## Functions that leave the files alone -/

theorem schedProgressTracking_files (w : World) : SameFiles w (schedProgressTracking w) := by
  obtain ⟨q, -, h⟩ := schedProgressTracking_run w
  rw [h]
  exact ⟨rfl, rfl, rfl, rfl, rfl⟩

theorem sendHttpRequest_files (uri : UriLib) (o : Outside) (retry : Bool) {a : HttpAgent} (ha : w.dl.httpAgent = some a) :
    SameFiles w (sendHttpRequest uri o retry w).2 := by
  obtain ⟨decided, d, a', hd, -, -, ⟨hr, called, -, hrun⟩ | ⟨-, r, -, -, -, -, hrun⟩⟩ :=
    sendHttpRequest_run uri o retry ha
  · rw [hrun]
    obtain ⟨pl, mh, md, al, ct, n, ag, rfl⟩ := hd.rerouted
    exact ⟨rfl, rfl, rfl, rfl, rfl⟩
  · rw [hrun, noteRequestSent]
    obtain ⟨pl, mh, md, al, ct, n, ag, rfl⟩ := hd.rerouted
    show SameFiles w (schedProgressTracking _)
    refine .trans ?_ (schedProgressTracking_files _)
    exact ⟨rfl, rfl, rfl, rfl, rfl⟩

theorem pause_files (hg : Good uri w) (o : Outside) : SameFiles w (pause o w).2 := by
  obtain ⟨c, -, ⟨-, h⟩ | ⟨-, hr, h⟩⟩ := pause_run hg o
  · rw [h]; exact ⟨rfl, rfl, rfl, rfl, rfl⟩
  · rw [h]; exact ⟨rfl, rfl, rfl, rfl, rfl⟩

theorem finalize_files (hg : Good uri w) (o : Outside) : SameFiles w (finalize o w).2 := by
  obtain ⟨c, -, ⟨-, h⟩ | ⟨-, hr, h⟩⟩ := finalize_run hg o
  · rw [h]; exact ⟨rfl, rfl, rfl, rfl, rfl⟩
  · rw [h]; exact ⟨rfl, rfl, rfl, rfl, rfl⟩

/-- A change of the status after a function that leaves the files alone. -/
theorem files_then_status {x : DlM Unit} (f : DownloadStatus → DownloadStatus) (h : SameFiles w (x w).2) :
    SameFiles w ((x >>= fun _ => DlM.modify (·.updateStatus f)) w).2 := by
  rw [DlM.bind_run]
  split
  · next hx =>
    rw [hx] at h
    exact h.trans ⟨rfl, rfl, rfl, rfl, rfl⟩
  · next hx =>
    rw [hx] at h
    exact h

theorem unguarded_files {r : Except HResult Unit × World} (h : SameFiles w r.2) :
    SameFiles w (unguarded r) := by
  obtain ⟨res, w'⟩ := r
  cases res with
  | ok => exact h
  | error => exact h.trans ⟨rfl, rfl, rfl, rfl, rfl⟩

theorem schedRetry_files (hr : HResult) (w : World) : SameFiles w (schedRetry hr w) := by
  obtain ⟨tracker, delay, h⟩ := schedRetry_run hr w
  rw [h]
  exact ⟨rfl, rfl, rfl, rfl, rfl⟩

theorem transferFailed_files (hg : Good uri w) (hne : w.requests ≠ []) (o : Outside) (hr hc : HResult)
    (code : Nat) (headers : String) : SameFiles w (transferFailed uri o hr hc code headers w).2 := by
  obtain ⟨mcc, hrun⟩ := transferFailed_run uri o hr hc code headers w
  rw [hrun _ rfl]
  have hg₁ := hg.setStatus hne (hg.ne_created hne) false code headers mcc
  split
  · exact ⟨rfl, rfl, rfl, rfl, rfl⟩
  · split
    · have hfirst : SameFiles w { w with
          dl := { w.dl with fHttpRequestActive := false, httpStatusCode := code, responseHeaders := headers }
          mcc := mcc } := ⟨rfl, rfl, rfl, rfl, rfl⟩
      exact hfirst.trans (files_then_status _ (pause_files hg₁ o))
    · show SameFiles w (schedRetry _ _)
      refine .trans ?_ (schedRetry_files _ _)
      exact ⟨rfl, rfl, rfl, rfl, rfl⟩

theorem progressCheck_files (hg : Good uri w) (hne : w.requests ≠ []) (o : Outside) :
    SameFiles w (progressCheck o w).2 := by
  simp only [progressCheck, DlM.bind_run, DlM.get_run, DlM.ite_run, DlM.pure_run]
  split
  · rcases w.dl.progressTracker.checkProgress w.dl.status.bytesTransferred w.dl.maxNoProgressIntervals with
      ⟨timedOut, tracker⟩
    have hg₁ : Good uri { w with dl := { w.dl with progressTracker := tracker } } :=
      Good.started hne hg.orderly (hg.ne_created hne) (hg.agent hne) hg.handle (hg.stream hne)
        hg.url hg.linked
    have hfirst : SameFiles w { w with dl := { w.dl with progressTracker := tracker } } :=
      ⟨rfl, rfl, rfl, rfl, rfl⟩
    cases timedOut with
    | true =>
      exact hfirst.trans (files_then_status (fun s => s.paused HResult.DO_E_DOWNLOAD_NO_PROGRESS s.error)
        (pause_files hg₁ o))
    | false => exact hfirst.trans (schedProgressTracking_files _)
  · exact .refl w

/-- The lambdas leave the files alone. -/
theorem runOp_files (hg : Good uri w) (o : Outside) {op : Op} (hop : ∀ r, op ≠ .client r)
    (hown : op.own = true → w.requests ≠ []) : SameFiles w (runOp uri o op w).2 := by
  have hsend : ∀ retry, w.requests ≠ [] → SameFiles w (sendHttpRequest uri o retry w).2 := fun retry hne => by
    obtain ⟨a, ha⟩ := Option.isSome_iff_exists.1 (hg.agent hne)
    exact sendHttpRequest_files uri o retry ha
  cases op with
  | client r => exact absurd rfl (hop r)
  | transferFailed hr hc code headers => exact transferFailed_files hg (hown rfl) o hr hc code headers
  | retry =>
    simp only [runOp, DlM.bind_run, DlM.get_run, DlM.ite_run, DlM.pure_run]
    split
    · exact hsend true (hown rfl)
    · exact .refl w
  | transientTimer =>
    simp only [runOp]
    split
    · simp only [resumeAfterTransientError, DlM.bind_run, DlM.get_run, DlM.ite_run, DlM.pure_run]
      split
      · exact files_then_status _ (hsend false (hown rfl))
      · exact .refl w
    · exact ⟨rfl, rfl, rfl, rfl, rfl⟩
  | progressCheck => exact progressCheck_files hg (hown rfl) o
  | headersUpdate | dataUpdate | transferCompleted | alreadyTransferred | foreign =>
    exact ⟨rfl, rfl, rfl, rfl, rfl⟩

/-! ## Client requests -/

theorem resume_files (hg : Good uri w) (hne : w.requests ≠ []) (o : Outside) :
    SameFiles w (resume uri o w).2 := by
  obtain ⟨a, ha⟩ := Option.isSome_iff_exists.1 (hg.agent hne)
  rcases resume_run uri o w with ⟨hr, h⟩ | ⟨-, hr, h⟩ | ⟨-, -, h⟩ | ⟨-, d, ⟨hd, -⟩, hda, h⟩
  · rw [h]; exact .refl w
  · rw [h]; exact ⟨rfl, rfl, rfl, rfl, rfl⟩
  · rw [h]; exact ⟨rfl, rfl, rfl, rfl, rfl⟩
  · rw [h]
    obtain ⟨pl, mh, md, al, ct, n, ag, rfl⟩ := hd
    refine .trans ?_ (sendHttpRequest_files uri o false (hda.trans ha))
    exact ⟨rfl, rfl, rfl, rfl, rfl⟩

theorem notAborting_of_runs {op : Op} (hrun : e.Runs w o op) (hop : op ≠ .client .abort) : NotAborting w e :=
  fun _ h => absurd (runs_unique hrun h).2 hop

/-- A Start makes the file or leaves the files alone. -/
theorem start_files (uri : UriLib) (hc : o.closeErr = none) (hs : w.dl.status.state = .created)
    (hrun : e.Runs w o (.client .start)) {q : TaskQueue Op Tag} :
    Files w e (start uri o { w with taskQ := q }).2 := by
  have hsame : Files w e { w with taskQ := q } :=
    .same ⟨rfl, rfl, rfl, rfl, rfl⟩ (notAborting_of_runs hrun nofun)
  simp only [start, DlM.bind_run, DlM.get_run, DlM.ite_run, DlM.throwHr_run, DlM.modify_run]
  split
  · exact hsame
  split
  · exact hsame
  next hpath =>
  rcases createDestFile_run o { w with taskQ := q } with ⟨⟨hnone, -⟩, h⟩ | ⟨-, hr, h⟩ | ⟨-, he, hr, h⟩
  · rw [h]
    simp only [setMccFallbackDue_run]
    have hsend := sendHttpRequest_files uri o false (w := World.updateDl { w with
      fs := Function.update w.fs w.dl.destFilePath (some []),
      created := w.dl.destFilePath :: w.created, curl := {}
      taskQ := q
      dl := { w.dl with fileStream := some w.dl.destFilePath, fDestFileCreated := true, httpAgent := some {}
                        proxyList := ProxyList.refresh o.proxies, mccFallbackDue := w.fallbackDue o } }
      fun d => { d with mccHost := o.mccHost }) rfl
    exact .made o hrun hs hnone (by simpa using hpath) hsend.fs hsend.created hsend.removed
      hsend.own hsend.path
  · rw [h]
    exact hsame
  · exact absurd hc he

theorem setProperty_files (key : DownloadProperty) (value : String)
    (hrun : e.Runs w o (.client (.setProperty key value))) {q : TaskQueue Op Tag} :
    Files w e (setProperty uri o key value { w with taskQ := q }).2 := by
  have hnot : NotAborting w e := notAborting_of_runs hrun nofun
  cases key with
  | id | other => exact .same ⟨rfl, rfl, rfl, rfl, rfl⟩ hnot
  | uri =>
    refine .same ?_ hnot
    simp only [setProperty, DlM.bind_run, DlM.get_run, DlM.ite_run, DlM.throwHr_run, DlM.modify_run]
    split
    · exact ⟨rfl, rfl, rfl, rfl, rfl⟩
    split
    · exact ⟨rfl, rfl, rfl, rfl, rfl⟩
    split
    · exact ⟨rfl, rfl, rfl, rfl, rfl⟩
    · simp only [World.updateDl]
      split <;> exact ⟨rfl, rfl, rfl, rfl, rfl⟩
  | localPath =>
    simp only [setProperty, DlM.bind_run, DlM.get_run, DlM.ite_run, DlM.throwHr_run, DlM.modify_run]
    split
    · exact .same ⟨rfl, rfl, rfl, rfl, rfl⟩ hnot
    next hv =>
    split
    · exact .same ⟨rfl, rfl, rfl, rfl, rfl⟩ hnot
    next hs =>
    exact .renamed o value hrun (by simpa using hs) (by simpa using hv) rfl rfl rfl rfl rfl
  | noProgressTimeoutSeconds =>
    refine .same ?_ hnot
    simp only [setProperty, DlM.bind_run, DlM.get_run, DlM.liftExcept_run]
    cases toUInt value with
    | error hr => exact ⟨rfl, rfl, rfl, rfl, rfl⟩
    | ok timeout =>
      simp only [DlM.ite_run, DlM.throwHr_run, DlM.modify_run]
      split <;> exact ⟨rfl, rfl, rfl, rfl, rfl⟩

/-- The end of `_Abort` looks at the files alone. -/
theorem deleteOwnFile_files (o : Outside) (h : SameFiles w w') :
    (deleteOwnFile o w').fs = (deleteOwnFile o w).fs ∧
    (deleteOwnFile o w').removed = (deleteOwnFile o w).removed ∧
      (deleteOwnFile o w').created = w.created ∧
      (deleteOwnFile o w').dl.fDestFileCreated = w.dl.fDestFileCreated ∧
      (deleteOwnFile o w').dl.destFilePath = w.dl.destFilePath := by
  simp only [deleteOwnFile, deleteDestFile, h.own, h.path, h.fs]
  split
  · split
    · exact ⟨rfl, by simp [h.removed], h.created, h.own, h.path⟩
    · exact ⟨h.fs, h.removed, h.created, h.own, h.path⟩
  · exact ⟨h.fs, h.removed, h.created, h.own, h.path⟩

theorem abort_files (hc : o.closeErr = none) (hrun : e.Runs w o (.client .abort)) (hg' : Good uri w')
    (hsame : SameFiles w w') : Files w e (abort o w').2 := by
  obtain ⟨c, -, ⟨-, h⟩ | ⟨he, h⟩⟩ := abort_run hg' o
  · rw [h]
    have hfirst :
      SameFiles w' (World.cancelTasks { w' with curl := c, dl := { w'.dl with fileStream := none } }) :=
      ⟨rfl, rfl, rfl, rfl, rfl⟩
    obtain ⟨hfs, hremoved, hcreated, hown, hpath⟩ := deleteOwnFile_files o (hsame.trans hfirst)
    exact .aborted o hrun hfs hcreated hremoved hown hpath
  · exact absurd hc (closeErr_of_closes he)

theorem Files.then_same {w'' : World} (h : Files w e w') (hs : SameFiles w' w'') : Files w e w'' := by
  cases h with
  | same h hnot => exact .same (h.trans hs) hnot
  | made o hrun hst hnone hne hfs hcreated hremoved hown hpath =>
    exact .made o hrun hst hnone hne (hs.fs.trans hfs) (hs.created.trans hcreated) (hs.removed.trans hremoved)
      (hs.own.trans hown) (hs.path.trans hpath)
  | written c he hact hcreated hremoved hown hpath =>
    exact .written c he hact (hs.created.trans hcreated) (hs.removed.trans hremoved) (hs.own.trans hown)
      (hs.path.trans hpath)
  | aborted o hrun hfs hcreated hremoved hown hpath =>
    exact .aborted o hrun (hs.fs.trans hfs) (hs.created.trans hcreated) (hs.removed.trans hremoved)
      (hs.own.trans hown)
      (hs.path.trans hpath)
  | renamed o value hrun hst hne hfs hcreated hremoved hown hpath =>
    exact .renamed o value hrun hst hne (hs.fs.trans hfs) (hs.created.trans hcreated)
      (hs.removed.trans hremoved)
      (hs.own.trans hown) (hs.path.trans hpath)

theorem Files.then_status {x : DlM Unit} {w₁ : World} (f : DownloadStatus → DownloadStatus)
    (h : Files w e (x w₁).2) :
    Files w e ((x >>= fun _ => DlM.modify (·.updateStatus f)) w₁).2 := by
  rw [DlM.bind_run]
  split
  · next hx =>
    rw [hx] at h
    exact h.then_same ⟨rfl, rfl, rfl, rfl, rfl⟩
  · next hx =>
    rw [hx] at h
    exact h

theorem clientRequest_files (hg : Good uri w) (hc : o.closeErr = none) {r : ClientRequest}
    (hrun : e.Runs w o (.client r)) {q : TaskQueue Op Tag} (hg₁ : Good uri { w with taskQ := q }) :
    Files w e (clientRequest uri o r { w with taskQ := q }).2 := by
  have hsame : SameFiles w { w with taskQ := q } := ⟨rfl, rfl, rfl, rfl, rfl⟩
  cases r with
  | start =>
    have hnot : NotAborting w e := notAborting_of_runs hrun (by simp)
    simp only [clientRequest, performStateChange, DlM.bind_run, DlM.get_run]
    cases hs : w.dl.status.state with
    | created => exact (start_files uri hc hs hrun).then_status (·.transferring)
    | paused =>
      have hne : w.requests ≠ [] := hg.issued (by simp [hs]) (by simp [hs])
      exact .same (hsame.trans (files_then_status _ (resume_files hg₁ hne o))) hnot
    | transferring | transferred | finalized | aborted => exact .same hsame hnot
  | pause =>
    have hnot : NotAborting w e := notAborting_of_runs hrun (by simp)
    simp only [clientRequest, performStateChange, DlM.bind_run, DlM.get_run]
    cases hs : w.dl.status.state with
    | transferring =>
      exact .same (hsame.trans
        (files_then_status (·.paused HResult.S_OK HResult.S_OK) (pause_files hg₁ o))) hnot
    | created | transferred | paused | finalized | aborted => exact .same hsame hnot
  | finalize =>
    have hnot : NotAborting w e := notAborting_of_runs hrun (by simp)
    simp only [clientRequest, performStateChange, DlM.bind_run, DlM.get_run]
    cases hs : w.dl.status.state with
    | transferred => exact .same (hsame.trans (files_then_status (·.finalized) (finalize_files hg₁ o))) hnot
    | created | transferring | paused | finalized | aborted => exact .same hsame hnot
  | abort =>
    simp only [clientRequest, performStateChange, DlM.bind_run, DlM.get_run]
    cases hs : w.dl.status.state with
    | created | transferring | transferred | paused =>
      exact (abort_files hc hrun hg₁ hsame).then_status (·.aborted)
    | finalized => exact .same hsame fun _ _ => .inl hs
    | aborted => exact .same hsame fun _ _ => .inr hs
  | getStatus => exact .same hsame (notAborting_of_runs hrun (by simp))
  | setProperty key value => exact setProperty_files key value hrun

/-- **What each step does to the files.** -/
theorem step_files (hg : Good uri w) (h : step uri w e = some w') (hc : ∀ o, e = .run o → o.closeErr = none) :
    Files w e w' := by
  unfold step at h
  split at h
  · cases h
  cases e with
  | tick | drain =>
    simp only [Option.some.injEq] at h
    subst h
    exact .same ⟨rfl, rfl, rfl, rfl, rfl⟩ fun _ hr => absurd (hr.1) (by simp)
  | request r =>
    simp only [Option.some.injEq] at h
    subst h
    refine .same ?_ fun _ hr => absurd (hr.1) (by simp)
    cases r <;> exact ⟨rfl, rfl, rfl, rfl, rfl⟩
  | foreign front delay =>
    simp only [Option.some.injEq] at h
    subst h
    exact .same ⟨rfl, rfl, rfl, rfl, rfl⟩ fun _ hr => absurd (hr.1) (by simp)
  | run o =>
    simp only [Option.map_eq_some_iff] at h
    obtain ⟨⟨task, q⟩, hpop, rfl⟩ := h
    have hg₁ : Good uri { w with taskQ := q } := hg.popped hpop
    have hrun : (Event.run o).Runs w o task.op := ⟨rfl, by simp [World.nextOp, hpop]⟩
    obtain ⟨due, -, hmem⟩ := TaskQueue.exists_of_pop hpop
    have hown := hg.issued_of_own hmem
    have hlambda : (∀ r, task.op ≠ .client r) →
        Files w (.run o) (unguarded (runOp uri o task.op { w with taskQ := q })) := fun hop => by
      have hsame : SameFiles w { w with taskQ := q } := ⟨rfl, rfl, rfl, rfl, rfl⟩
      exact .same (hsame.trans (unguarded_files (runOp_files hg₁ o hop hown)))
        (notAborting_of_runs hrun (hop _))
    cases hop : task.op with
    | client r =>
      rw [hop] at hrun
      have hfiles := clientRequest_files hg (hc o rfl) hrun hg₁
      exact hfiles.then_same ⟨rfl, rfl, rfl, rfl, rfl⟩
    | _ =>
      rw [hop] at hlambda
      exact hlambda (by simp)
  | curl c =>
    cases c with
    | status code =>
      simp only [curlEvent, Option.bind_eq_some_iff] at h
      obtain ⟨t, ht, h⟩ := h
      split at h
      · cases h
      simp only [Option.some.injEq] at h
      subst h
      exact .written _ rfl (by simp [ht]) rfl rfl rfl rfl
    | header line =>
      simp only [curlEvent, Option.map_eq_some_iff] at h
      obtain ⟨t, ht, rfl⟩ := h
      exact .written _ rfl (by simp [ht]) rfl rfl rfl rfl
    | write chunk out indeterminate =>
      simp only [curlEvent, Option.bind_eq_some_iff] at h
      obtain ⟨t, ht, h⟩ := h
      have hne := hg.issued_of_outstanding (outstanding_of_active ht)
      obtain ⟨a, ha, -⟩ := hg.handle (outstanding_of_active ht)
      split at h
      · cases h
      next hguard =>
      rw [not_or, Nat.not_lt] at hguard
      obtain ⟨a₁, hr, bytesTotal, q, fs, n, ok, hrun, -⟩ :=
        writeCallback_run ha hg.orderly (hg.stream hne) t.responseCode hguard.2 out indeterminate
      simp only [hrun, Option.some.injEq] at h
      subst h
      exact .written _ rfl (by simp [ht]) rfl rfl rfl rfl
    | complete curlResult indeterminate =>
      simp only [curlEvent, Option.bind_eq_some_iff] at h
      obtain ⟨t, ht, h⟩ := h
      obtain ⟨a, ha, -⟩ := hg.handle (outstanding_of_active ht)
      split at h
      · cases h
      simp only [Option.some.injEq] at h
      subst h
      rcases completeCallback_run ha hg.orderly t.responseCode curlResult indeterminate with
        ⟨-, hrun⟩ | ⟨a₁, hr, bytesTotal, q, ok, hrun, -⟩
      · rw [hrun]
        exact .written _ rfl (by simp [ht]) rfl rfl rfl rfl
      · rw [hrun]
        exact .written _ rfl (by simp [ht]) rfl rfl rfl rfl

/-! ## Runs -/

/-- The local path that a client's request sets. -/
def Op.localPath : Op → Option String
  | .client (.setProperty .localPath value) => some value
  | _ => none

/-- A client's SetProperty of the local path, once the download has made its file, names that file. -/
def KeepsPath (w : World) : Event → Prop
  | .run _ => ∀ value ∈ w.nextOp.bind Op.localPath, w.dl.status.state = .created →
      w.dl.fDestFileCreated = true → value.isEmpty = true ∨ value = w.dl.destFilePath
  | _ => True

/-- Files can be closed, and one that is aborted can be removed. -/
def FilesObey (w : World) : Event → Prop
  | .run o => o.closeErr = none ∧ (w.nextOp = some (.client .abort) → o.removeErr = none)
  | _ => True

instance : ∀ w e, Decidable (KeepsPath w e)
  | w, .run _ =>
    inferInstanceAs (Decidable (∀ value ∈ w.nextOp.bind Op.localPath, w.dl.status.state = .created →
      w.dl.fDestFileCreated = true → value.isEmpty = true ∨ value = w.dl.destFilePath))
  | _, .tick _ | _, .request _ | _, .foreign _ _ | _, .drain | _, .curl _ => isTrue trivial

instance : ∀ w e, Decidable (FilesObey w e)
  | w, .run o =>
    inferInstanceAs (Decidable (o.closeErr = none ∧ (w.nextOp = some (.client .abort) → o.removeErr = none)))
  | _, .tick _ | _, .request _ | _, .foreign _ _ | _, .drain | _, .curl _ => isTrue trivial

/-- The download and the files it has made. -/
structure Owned (w : World) : Prop where
  unmade : w.dl.fDestFileCreated = false → w.created = []
  made : w.dl.fDestFileCreated = true → w.dl.destFilePath.isEmpty = false ∧
    w.dl.destFilePath ∈ w.created ∧ ∀ p ∈ w.created, p = w.dl.destFilePath
  removed : ∀ p ∈ w.removed, p ∈ w.created
  gone : w.dl.status.state = .aborted → (∀ p ∈ w.created, w.fs p = none) ∧ w.life.Over

theorem aborted_state {l : Life} {a : Act} (h : (l.apply a).state = .aborted) :
    l.state = .aborted ∨ ∃ cancelled file, a = .aborted cancelled file := by
  cases a with
  | aborted cancelled file => exact .inr ⟨cancelled, file, rfl⟩
  | send t | sendFailed t => cases t <;> first | exact .inl h | cases h
  | failedFatal closed => cases closed <;> first | exact .inl h | cases h
  | skipRequest | closed | finalized | completed | failedOffline | timerOffline | alreadyTransferred =>
    cases h
  | _ => exact .inl h

/-- Of the files the download made none is left, and no other file was removed. -/
theorem Owned.delete (h : Owned w) (hr : o.removeErr = none) :
    (∀ p ∈ w.created, (deleteOwnFile o w).fs p = none) ∧
    ∀ p ∈ (deleteOwnFile o w).removed, p ∈ w.created := by
  cases hown : w.dl.fDestFileCreated with
  | false =>
    have hid : deleteOwnFile o w = w := by simp [deleteOwnFile, hown]
    rw [hid, h.unmade hown]
    exact ⟨(by simp), fun p hp => h.unmade hown ▸ h.removed p hp⟩
  | true =>
    obtain ⟨hne, hmem, hpath⟩ := h.made hown
    have hdel : deleteOwnFile o w = deleteDestFile o w := by simp [deleteOwnFile, hown, hne]
    rw [hdel, deleteDestFile]
    split
    · refine ⟨fun p hp => by simp [hpath p hp], fun p hp => ?_⟩
      rcases List.mem_cons.1 hp with rfl | hp
      exacts [hmem, h.removed p hp]
    · next hnone =>
      have hnone : w.fs w.dl.destFilePath = none := by simpa [hr] using hnone
      exact ⟨fun p hp => by rw [hpath p hp, hnone], h.removed⟩

theorem Owned.step (h : Owned w) (hg : Good uri w) (hstep : DoClient.step uri w e = some w')
    (hf : FilesObey w e) (hk : KeepsPath w e) : Owned w' := by
  obtain ⟨-, a, hdoes, hen, -, hl⟩ := step_leads hg hstep
  have hfrom := hdoes.from
  have hclose : ∀ o, e = .run o → o.closeErr = none := by
    rintro o rfl
    exact hf.1
  have hover : w.dl.status.state = .aborted → w'.life.Over := fun hs => hl ▸ (h.gone hs).2.apply hen
  -- who comes to be Aborted, or stays it
  have hgone : w'.dl.status.state = .aborted → w.dl.status.state = .aborted ∨
      ∃ o, e.Runs w o (.client .abort) ∧ w.dl.status.state ≠ .finalized ∧ w.dl.status.state ≠ .aborted ∧
        w'.life.Over := by
    intro hs
    rcases aborted_state (l := w.life) (a := a) (by rw [← hl]; exact hs) with hold | ⟨cancelled, file, rfl⟩
    · exact .inl hold
    · obtain ⟨o, hrun, hc⟩ := hfrom
      obtain rfl : cancelled = true := by
        by_contra hne
        exact hc (by simpa using hne) (hclose o hrun.1)
      exact .inr ⟨o, hrun, hen.1, hen.2.1, hl ▸ Life.over_of_cancels rfl⟩
  cases step_files hg hstep hclose with
  | same hsame hnot =>
    refine ⟨fun ho => ?_, fun ho => ?_, fun p hp => ?_, fun hs => ?_⟩
    · rw [hsame.created]
      exact h.unmade (hsame.own ▸ ho)
    · rw [hsame.created, hsame.path]
      exact h.made (hsame.own ▸ ho)
    · rw [hsame.removed] at hp
      rw [hsame.created]
      exact h.removed p hp
    · rw [hsame.created, hsame.fs]
      rcases hgone hs with hold | ⟨o, hrun, hnf, hna, -⟩
      · exact ⟨(h.gone hold).1, hover hold⟩
      · rcases hnot o hrun with hst | hst
        exacts [absurd hst hnf, absurd hst hna]
  | made o hrun hst hnone hne hfs hcreated hremoved hown hpath =>
    refine ⟨fun ho => absurd (ho.symm.trans hown) Bool.noConfusion, fun _ => ?_, fun p hp => ?_, fun hs => ?_⟩
    · rw [hcreated, hpath]
      refine ⟨hne, List.mem_cons_self, fun p hp => ?_⟩
      rcases List.mem_cons.1 hp with rfl | hp
      · rfl
      · cases ho : w.dl.fDestFileCreated with
        | false =>
          rw [h.unmade ho] at hp
          cases hp
        | true => exact (h.made ho).2.2 p hp
    · rw [hremoved] at hp
      rw [hcreated]
      exact List.mem_cons_of_mem _ (h.removed p hp)
    · rcases hgone hs with hold | ⟨o', hrun', -⟩
      · rw [hst] at hold; cases hold
      · cases (runs_unique hrun hrun').2
  | written c he hact hcreated hremoved hown hpath =>
    refine ⟨fun ho => ?_, fun ho => ?_, fun p hp => ?_, fun hs => ?_⟩
    · rw [hcreated]
      exact h.unmade (hown ▸ ho)
    · rw [hcreated, hpath]
      exact h.made (hown ▸ ho)
    · rw [hremoved] at hp
      rw [hcreated]
      exact h.removed p hp
    · rcases hgone hs with hold | ⟨o', hrun', -⟩
      · obtain ⟨t, ht⟩ := Option.isSome_iff_exists.1 hact
        exact absurd ((outstanding_of_active ht).symm.trans (h.gone hold).2.outstanding) Bool.noConfusion
      · rw [he] at hrun'
        exact nomatch hrun'.1
  | aborted o hrun hfs hcreated hremoved hown hpath =>
    obtain ⟨rfl, hop⟩ := hrun
    obtain ⟨habsent, honly⟩ := h.delete (hf.2 hop)
    refine ⟨fun ho => ?_, fun ho => ?_, fun p hp => ?_, fun hs => ?_⟩
    · rw [hcreated]
      exact h.unmade (hown ▸ ho)
    · rw [hcreated, hpath]
      exact h.made (hown ▸ ho)
    · rw [hremoved] at hp
      rw [hcreated]
      exact honly p hp
    · rw [hcreated, hfs]
      rcases hgone hs with hold | ⟨o', -, -, -, hover'⟩
      exacts [⟨habsent, hover hold⟩, ⟨habsent, hover'⟩]
  | renamed o value hrun hst hne hfs hcreated hremoved hown hpath =>
    obtain ⟨rfl, hop⟩ := hrun
    refine ⟨fun ho => ?_, fun ho => ?_, fun p hp => ?_, fun hs => ?_⟩
    · rw [hcreated]
      exact h.unmade (hown ▸ ho)
    · have ho : w.dl.fDestFileCreated = true := hown ▸ ho
      have hvalue : value = w.dl.destFilePath :=
        (hk value (by rw [hop]; rfl) hst ho).resolve_left (by simp [hne])
      rw [hcreated, hpath, hvalue]
      exact h.made ho
    · rw [hremoved] at hp
      rw [hcreated]
      exact h.removed p hp
    · rcases hgone hs with hold | ⟨o', hrun', -⟩
      · rw [hst] at hold; cases hold
      · cases Option.some.inj (hop.symm.trans hrun'.2)

theorem owned_initial (h : Initial uri w) : Owned w := by
  obtain ⟨url, path, -, hdl⟩ := h.download
  refine ⟨fun _ => h.created, fun ho => ?_, fun p hp => ?_, fun hs => ?_⟩
  · rw [hdl] at ho; cases ho
  · rw [h.removed] at hp; cases hp
  · rw [hdl] at hs; cases hs

/-- **An Abort removes the download's own file and no other**, where the path is not
changed once the file was made. -/
theorem abort_removes_own_file
    (h : Trans.ReachableBy (agent uri) (fun w e => FilesObey w e ∧ KeepsPath w e) w)
    (hop : w.nextOp = some (.client .abort)) (hstep : step uri w (.run o) = some w')
    (hf : FilesObey w (.run o)) (hs : w'.dl.status.state = .aborted) :
    (∀ p ∈ w'.created, w'.fs p = none) ∧ ∀ p ∈ w'.removed, p ∈ w'.created := by
  have hkeeps : KeepsPath w (.run o) := by
    rintro value hset
    rw [hop] at hset
    cases hset
  have howned : Owned w := h.invariant_of (Good uri) (fun _ hr => good_reachable hr) Owned
    (fun _ hi => owned_initial hi) fun _ _ _ hg _ hown hc hst => hown.step hg hst hc.1 hc.2
  have howned' := howned.step (good_reachable h.reachable) hstep hf hkeeps
  exact ⟨(howned'.gone hs).1, howned'.removed⟩

/-- A download that makes its file, has a response written to it, and is aborted. -/
def abortedRun : List Event :=
  [.request .start, .run {}, .drain, .curl (.status 200), .curl (.write [1, 2, 3] (.wrote 3) 0),
    .request .abort]

theorem abort_removes_own_file_written : ∃ w w',
    ((agent plainUri).restrict fun w e => FilesObey w e ∧ KeepsPath w e).runFrom newDownload abortedRun =
    some w ∧
      step plainUri w (.run {}) = some w' ∧ w'.removed = ["/file"] ∧
      (∀ p ∈ w'.created, w'.fs p = none) ∧ ∀ p ∈ w'.removed, p ∈ w'.created := by
  have hrun : (((agent plainUri).restrict fun w e => FilesObey w e ∧ KeepsPath w e).runFrom newDownload
      abortedRun).bind (fun w => (step plainUri w (.run {})).map fun w' =>
        (w.nextOp, w'.dl.status.state, w'.removed)) =
      some (some (.client .abort), .aborted, ["/file"]) := by decide +kernel
  obtain ⟨w, hw, hrun⟩ := Option.bind_eq_some_iff.1 hrun
  obtain ⟨w', hw', heq⟩ := Option.map_eq_some_iff.1 hrun
  simp only [Prod.mk.injEq] at heq
  obtain ⟨hop, hs, hremoved⟩ := heq
  exact ⟨w, w', hw, hw', hremoved,
    abort_removes_own_file (Trans.reachableBy_of_runFrom reachable_newDownload hw) hop hw'
    ⟨rfl, fun _ => rfl⟩ hs⟩

/-- A Start that fails once the file is there, for a proxy without a valid address; the client
then names a file of its own and gives up. -/
def renamedRun : List Event :=
  [.request .start, .run { proxies := ["bad proxy"] }, .request (.setProperty .localPath "/other"), .run {},
    .request .abort]

/-- The download's own file stays, the client's is gone. -/
theorem abort_removes_other_file : ¬ ∀ uri w w' o, Trans.ReachableBy (agent uri) FilesObey w →
    w.nextOp = some (.client .abort) → step uri w (.run o) = some w' → FilesObey w (.run o) →
    w'.dl.status.state = .aborted →
    (∀ p ∈ w'.created, w'.fs p = none) ∧ ∀ p ∈ w'.removed, p ∈ w'.created := by
  intro hall
  let fs : String → Option (List UInt8) := fun p => if p = "/other" then some [7] else none
  have hrun :
    (((agent plainUri).restrict FilesObey).runFrom { newDownload with fs := fs } renamedRun).bind (fun w =>
      (step plainUri w (.run {})).map fun w' =>
        (w.nextOp, w'.dl.status.state, w'.created, w'.removed)) =
      some (some (.client .abort), .aborted, ["/file"], ["/other"]) := by decide +kernel
  obtain ⟨w, hw, hrun⟩ := Option.bind_eq_some_iff.1 hrun
  obtain ⟨w', hw', heq⟩ := Option.map_eq_some_iff.1 hrun
  simp only [Prod.mk.injEq] at heq
  obtain ⟨hop, hs, hcreated, hremoved⟩ := heq
  have howned := (hall _ w w' {} (Trans.reachableBy_of_runFrom (.init initial_newDownload) hw) hop hw'
    ⟨rfl, fun _ => rfl⟩ hs).2 "/other" (by simp [hremoved])
  simp [hcreated] at howned

end DoClient
