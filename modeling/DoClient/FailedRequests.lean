/-
What a client's Start, Pause or Finalize leaves behind when it throws. `_Start`
makes the destination file before the steps that can fail, and none of them
removes it: the next Start finds a file in its place. `_Pause` and `_Finalize`
give the transfer up before the file is closed.
-/
import DoClient.Steps

namespace DoClient

variable {uri : UriLib} {o : Outside} {w w' : World}

/-- The client is told an error, and the agent goes on. -/
def ClientRequest.Throws (r : ClientRequest) (w w' : World) : Prop :=
  w'.terminated = false ∧ ∃ hr, w'.replies = (r, .error hr) :: w.replies

/-- The status, the file and the transfer are what they were. -/
structure Unchanged (w w' : World) : Prop where
  status : w'.dl.status = w.dl.status
  fDestFileCreated : w'.dl.fDestFileCreated = w.dl.fDestFileCreated
  file : (w'.fs w'.dl.destFilePath).isSome = (w.fs w.dl.destFilePath).isSome
  outstanding : w'.curl.outstanding = w.curl.outstanding

theorem Unchanged.refl : Unchanged w w := ⟨rfl, rfl, rfl, rfl⟩

/-- What the request does first can be left as it is: a first Start does not get to the file, a
Pause or a Finalize gives up no transfer. -/
def ClientRequest.NothingToUndo (w : World) (o : Outside) : ClientRequest → Prop
  | .start => w.dl.status.state = .created → ¬ w.CanStart o
  | .pause => w.dl.status.state = .transferring → w.curl.outstanding = false
  | .finalize => w.dl.status.state = .transferred → w.curl.outstanding = false
  | _ => True

/-! ## The functions that throw -/

theorem start_unchanged_iff {hr : HResult} (h : start uri o w = (.error hr, w'))
    (ht : w'.terminated = false) :
    Unchanged w w' ↔ ¬ w.CanStart o := by
  rcases start_run uri o w with ⟨hn, e, hrun⟩ | ⟨-, -, e, hrun⟩ | ⟨hc, d, ⟨hd, -⟩, hagent, hrun⟩
  · obtain ⟨-, rfl⟩ := Prod.mk.inj (h.symm.trans hrun)
    exact iff_of_true .refl hn
  · obtain ⟨-, rfl⟩ := Prod.mk.inj (h.symm.trans hrun)
    cases ht
  · refine iff_of_false (fun hsame => ?_) (not_not.2 hc)
    have hfile := hsame.file
    rw [hc.2.2.1] at hfile
    obtain ⟨decided, d', a', hd', -, -, ⟨e, called, -, hsend⟩ | ⟨-, r, -, -, -, -, hsend⟩⟩ :=
      sendHttpRequest_run uri o false
      (w := { w with
        fs := Function.update w.fs w.dl.destFilePath (some []), created := w.dl.destFilePath :: w.created
        curl := {}, dl := { d with fileStream := some w.dl.destFilePath, fDestFileCreated := true } }) hagent
    · obtain ⟨-, rfl⟩ := Prod.mk.inj (h.symm.trans (hrun.trans hsend))
      obtain ⟨_, _, _, _, _, _, _, rfl⟩ := hd
      obtain ⟨_, _, _, _, _, _, _, rfl⟩ := hd'.rerouted
      simp at hfile
    · exact nomatch (Prod.mk.inj (h.symm.trans (hrun.trans hsend))).1

theorem resume_unchanged {a : HttpAgent} (ha : w.dl.httpAgent = some a) {hr : HResult}
    (h : resume uri o w = (.error hr, w')) (ht : w'.terminated = false) : Unchanged w w' := by
  rcases resume_run uri o w with ⟨e, hrun⟩ | ⟨-, e, hrun⟩ | ⟨-, -, hrun⟩ | ⟨-, d, ⟨hd, -⟩, hda, hrun⟩
  · obtain ⟨-, rfl⟩ := Prod.mk.inj (h.symm.trans hrun)
    exact .refl
  · obtain ⟨-, rfl⟩ := Prod.mk.inj (h.symm.trans hrun)
    cases ht
  · exact nomatch (Prod.mk.inj (h.symm.trans hrun)).1
  · obtain ⟨decided, d', a', hd', -, -, ⟨e, called, -, hsend⟩ | ⟨-, r, -, -, -, -, hsend⟩⟩ :=
      sendHttpRequest_run uri o false
      (w := { w with dl := { d with fileStream := some w.dl.destFilePath } }) (hda.trans ha)
    · obtain ⟨-, rfl⟩ := Prod.mk.inj (h.symm.trans (hrun.trans hsend))
      obtain ⟨_, _, _, _, _, _, _, rfl⟩ := hd
      obtain ⟨_, _, _, _, _, _, _, rfl⟩ := hd'.rerouted
      exact ⟨rfl, rfl, rfl, rfl⟩
    · exact nomatch (Prod.mk.inj (h.symm.trans (hrun.trans hsend))).1

/-- What `_Pause` and `_Finalize` leave when the file does not close. -/
theorem closed_unchanged_iff {c : CurlHandle} (hc : Closed w.curl c) :
    Unchanged w { w with curl := c, dl := { w.dl with fHttpRequestActive := false } } ↔
    w.curl.outstanding = false := by
  have hnone : c.outstanding = false := Bool.not_eq_true _ ▸ hc.not_outstanding
  exact ⟨fun h => h.outstanding.symm.trans hnone, fun h => ⟨rfl, rfl, rfl, hnone.trans h.symm⟩⟩

theorem pause_unchanged_iff (hg : Good uri w) {hr : HResult} (h : pause o w = (.error hr, w')) :
    Unchanged w w' ↔ w.curl.outstanding = false := by
  obtain ⟨c, hc, ⟨-, hrun⟩ | ⟨-, e, hrun⟩⟩ := pause_run hg o
  · exact nomatch (Prod.mk.inj (h.symm.trans hrun)).1
  · obtain ⟨-, rfl⟩ := Prod.mk.inj (h.symm.trans hrun)
    exact closed_unchanged_iff hc

theorem finalize_unchanged_iff (hg : Good uri w) {hr : HResult} (h : finalize o w = (.error hr, w')) :
    Unchanged w w' ↔ w.curl.outstanding = false := by
  obtain ⟨c, hc, ⟨-, hrun⟩ | ⟨-, e, hrun⟩⟩ := finalize_run hg o
  · exact nomatch (Prod.mk.inj (h.symm.trans hrun)).1
  · obtain ⟨-, rfl⟩ := Prod.mk.inj (h.symm.trans hrun)
    exact closed_unchanged_iff hc

/-! ## The requests -/

/-- The status is set after the last thing that can throw. -/
theorem then_status_error {x : DlM Unit} {f : DownloadStatus → DownloadStatus} {hr : HResult}
    (h : (x >>= fun _ => DlM.modify (·.updateStatus f)) w = (.error hr, w')) : x w = (.error hr, w') := by
  rw [DlM.bind_run] at h
  rcases hx : x w with ⟨_ | _, _⟩ <;> rw [hx] at h
  · exact h
  · cases h

theorem clientRequest_unchanged_iff (hg : Good uri w) {r : ClientRequest}
    (hr : r = .start ∨ r = .pause ∨ r = .finalize) {e : HResult}
    (h : clientRequest uri o r w = (.error e, w')) (ht : w'.terminated = false) :
    Unchanged w w' ↔ r.NothingToUndo w o := by
  have hsame :
    ∀ {hr : HResult}, (DlM.throwHr hr : DlM Unit) w = (.error e, w') → Unchanged w w' := fun h => by
    obtain ⟨-, rfl⟩ := Prod.mk.inj h
    exact .refl
  have hno : ∀ {p : Prop}, (pure () : DlM Unit) w = (.error e, w') → p := fun h => absurd h (by simp)
  rcases hr with rfl | rfl | rfl
  · simp only [clientRequest, performStateChange, DlM.bind_run, DlM.get_run] at h
    cases hs : w.dl.status.state <;> simp only [hs] at h
    case created =>
      exact (start_unchanged_iff (then_status_error h) ht).trans ⟨fun hn _ => hn, fun hn => hn hs⟩
    case paused =>
      have hne : w.requests ≠ [] := hg.issued (by simp [hs]) (by simp [hs])
      obtain ⟨a, ha⟩ := Option.isSome_iff_exists.1 (hg.agent hne)
      exact iff_of_true (resume_unchanged ha (then_status_error h) ht) fun hc => absurd (hs.symm.trans hc) (by simp)
    case transferring | transferred => exact hno h
    case finalized | aborted => exact iff_of_true (hsame h) fun hc => absurd (hs.symm.trans hc) (by simp)
  · simp only [clientRequest, performStateChange, DlM.bind_run, DlM.get_run] at h
    cases hs : w.dl.status.state <;> simp only [hs] at h
    case transferring =>
      exact (pause_unchanged_iff hg (then_status_error h)).trans ⟨fun hn _ => hn, fun hn => hn hs⟩
    case created | transferred | paused => exact hno h
    case finalized | aborted => exact iff_of_true (hsame h) fun hc => absurd (hs.symm.trans hc) (by simp)
  · simp only [clientRequest, performStateChange, DlM.bind_run, DlM.get_run] at h
    cases hs : w.dl.status.state <;> simp only [hs] at h
    case transferred =>
      exact (finalize_unchanged_iff hg (then_status_error h)).trans ⟨fun hn _ => hn, fun hn => hn hs⟩
    case finalized => exact hno h
    case created | transferring | paused | aborted =>
      exact iff_of_true (hsame h) fun hc => absurd (hs.symm.trans hc) (by simp)

/-- **A request that throws leaves the download as it was** exactly when there is nothing to undo. -/
theorem failed_request_unchanged_iff (hr : Trans.Reachable (agent uri) w) {r : ClientRequest}
    (hreq : r = .start ∨ r = .pause ∨ r = .finalize) (hop : w.nextOp = some (.client r))
    (hstep : step uri w (.run o) = some w') (hthrows : r.Throws w w') :
    Unchanged w w' ↔ r.NothingToUndo w o := by
  obtain ⟨task, q, hpop, hop', rfl⟩ := step_run_some hstep
  obtain hclient := Option.some.inj (hop'.symm.trans hop)
  have hg := (good_reachable hr).popped hpop
  obtain ⟨ht, e, he⟩ := hthrows
  rw [hclient] at ht he ⊢
  simp only [runTask] at ht he ⊢
  rcases hrun : clientRequest uri o r { w with taskQ := q } with ⟨result, w'⟩
  rw [hrun] at ht he
  obtain rfl : result = .error e := congrArg Prod.snd (List.cons.inj he).1
  have hiff := clientRequest_unchanged_iff hg hreq hrun ht
  have hsame : r.NothingToUndo { w with taskQ := q } o ↔ r.NothingToUndo w o := by
    rcases hreq with rfl | rfl | rfl <;> exact Iff.rfl
  rw [← hsame, ← hiff]
  exact ⟨fun h => ⟨h.status, h.fDestFileCreated, h.file, h.outstanding⟩,
    fun h => ⟨h.status, h.fDestFileCreated, h.file, h.outstanding⟩⟩

theorem failed_request_unchanged_iff_createErr : ∃ w w', Trans.Reachable (agent plainUri) w ∧
    step plainUri w (.run { createErr := some 13 }) = some w' ∧
    (Unchanged w w' ↔ ClientRequest.start.NothingToUndo w { createErr := some 13 }) := by
  have hrun : ((agent plainUri).runFrom newDownload [.request .start]).bind (fun w =>
      (step plainUri w (.run { createErr := some 13 })).map fun w' => (w.nextOp, w'.terminated,
        decide (w'.replies = (.start, .error (HResult.fromXplatSyserr 13)) :: w.replies))) =
      some (some (.client .start), false, true) := by decide +kernel
  obtain ⟨w, hw, hrun⟩ := Option.bind_eq_some_iff.1 hrun
  obtain ⟨w', hw', hrun⟩ := Option.map_eq_some_iff.1 hrun
  simp only [Prod.mk.injEq, decide_eq_true_eq] at hrun
  obtain ⟨hop, ht, hreply⟩ := hrun
  have hr := Trans.reachable_of_runFrom reachable_newDownload hw
  exact ⟨w, w', hr, hw', failed_request_unchanged_iff hr (.inl rfl) hop hw' ⟨ht, _, hreply⟩⟩

/-- The address of the proxy cannot be told: the Start throws, and its file stays. -/
theorem failed_start_keeps_file : ¬ ∀ uri w w' o r, Trans.Reachable (agent uri) w →
    (r = ClientRequest.start ∨ r = .pause ∨ r = .finalize) → w.nextOp = some (.client r) →
    step uri w (.run o) = some w' → r.Throws w w' → Unchanged w w' := by
  intro hall
  have hrun : ((agent plainUri).runFrom newDownload [.request .start]).bind (fun w =>
      (step plainUri w (.run { proxies := ["no proxy"] })).map fun w' => (w.nextOp, w'.terminated,
        decide (w'.replies = (.start, .error HResult.ERROR_UNHANDLED_EXCEPTION) :: w.replies),
        (w.fs w.dl.destFilePath).isSome, (w'.fs w'.dl.destFilePath).isSome)) =
      some (some (.client .start), false, true, false, true) := by decide +kernel
  obtain ⟨w, hw, hrun⟩ := Option.bind_eq_some_iff.1 hrun
  obtain ⟨w', hw', hrun⟩ := Option.map_eq_some_iff.1 hrun
  simp only [Prod.mk.injEq, decide_eq_true_eq] at hrun
  obtain ⟨hop, ht, hreply, hnone, hsome⟩ := hrun
  have hsame :=
    hall _ w w' _ _ (Trans.reachable_of_runFrom reachable_newDownload hw) (.inl rfl) hop hw' ⟨ht, _, hreply⟩
  exact Bool.noConfusion (hnone.symm.trans (hsame.file.symm.trans hsome))

end DoClient
