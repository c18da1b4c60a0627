/-
The states of a download and the moves between them: which are meant, and
which lambdas, scheduled for a situation that no longer holds, make others.
-/
import DoClient.Steps

namespace DoClient

/-- The moves that are meant. -/
def DownloadState.mayBecome : DownloadState → DownloadState → Bool
  | .created, .transferring | .created, .aborted => true
  | .transferring, .transferred | .transferring, .paused | .transferring, .aborted => true
  | .paused, .transferring | .paused, .transferred | .paused, .aborted => true
  | .transferred, .finalized | .transferred, .aborted => true
  | _, _ => false

/-- A step that moves the state moves it as meant, out of Transferred only for a
client's Finalize or Abort. -/
def MovesAsMeant (w : World) (e : Event) (w' : World) : Prop :=
  w.dl.status.state ≠ w'.dl.status.state → w.dl.status.state.mayBecome w'.dl.status.state = true ∧
    (w.dl.status.state = .transferred → ∃ o, e.Runs w o (.client .finalize) ∨ e.Runs w o (.client .abort))

/-- A download at its end, but for a client's Finalize or Abort. -/
def DownloadState.ended : DownloadState → Bool
  | .transferred | .finalized | .aborted => true
  | _ => false

/-- A download no client can do anything to any more. -/
def DownloadState.gone : DownloadState → Bool
  | .finalized | .aborted => true
  | _ => false

/-- A lambda comes too late: it pauses a download that is at its end, as the failure
lambda does offline or for a fatal error (unless the file cannot be closed), and
the transient-error timer offline; or it makes a download that is gone a transferred one. -/
def TooLate (w : World) : Event → Prop
  | .run o => match w.nextOp with
    | some (.transferFailed hrRequest hrCallback httpStatusCode _) => w.dl.status.state.ended = true ∧
      (o.hasViableInterface = false ∨
        w.dl.isFatalError hrRequest hrCallback httpStatusCode = true ∧ w.closes o = true)
    | some .transientTimer => w.dl.status.state.ended = true ∧ o.hasViableInterface = false
    | some .transferCompleted | some .alreadyTransferred => w.dl.status.state.gone = true
    | _ => False
  | _ => False

variable {uri : UriLib} {w w' : World} {e : Event}

theorem paused_of_isTransientError (h : w.dl.status.isTransientError = true) :
    w.dl.status.state = .paused := by
  simp only [DownloadStatus.isTransientError, Bool.and_eq_true, beq_iff_eq] at h
  exact h.1.1

/-- In Created nothing is queued that could come too late. -/
theorem Good.created_idle (hg : Good uri w) (hs : w.life.state = .created) :
    w.life.updates = [] ∧ w.life.timers = 0 ∧ w.life.shortcuts = 0 := by
  obtain ⟨-, -, -, hu, ht, hsc, -⟩ := hg.ready_start hs
  exact ⟨hu, ht, hsc⟩

theorem not_created_of_update (hg : Good uri w) {u : Update} (h : w.life.updates.head? = some u) :
    w.dl.status.state ≠ .created := fun hs => by
  rw [(hg.created_idle hs).1] at h
  cases h

/-- What takes no lambda of these is not too late. -/
theorem not_tooLate {o : Outside} {op : Op} (hrun : e.Runs w o op) (hop : op.update = none)
    (ht : op ≠ .transientTimer) (hs : op ≠ .alreadyTransferred) : ¬ TooLate w e := by
  obtain ⟨rfl, hnext⟩ := hrun
  cases op <;> simp_all [TooLate, Op.update]

theorem movesAsMeant_of_same (h : w'.dl.status.state = w.dl.status.state) : MovesAsMeant w e w' :=
  fun hne => absurd h.symm hne

/-- A pause: meant for a download at work or paused. -/
theorem movesAsMeant_paused (hc : w.dl.status.state ≠ .created) (h : w'.dl.status.state = .paused)
    (hf : ¬ ∃ o, e.Runs w o (.client .finalize) ∨ e.Runs w o (.client .abort)) :
    MovesAsMeant w e w' ↔ w.dl.status.state.ended = false := by
  unfold MovesAsMeant
  rw [h]
  cases hs : w.dl.status.state <;> simp_all [DownloadState.mayBecome, DownloadState.ended]

/-- The end of a transfer: meant for a download at work or paused, and nothing new for a transferred one. -/
theorem movesAsMeant_transferred (hc : w.dl.status.state ≠ .created) (h : w'.dl.status.state = .transferred) :
    MovesAsMeant w e w' ↔ w.dl.status.state.gone = false := by
  unfold MovesAsMeant
  rw [h]
  cases hs : w.dl.status.state <;> simp_all [DownloadState.mayBecome, DownloadState.gone]

/-- An operation other than a client's Finalize and Abort. -/
theorem not_client_end {o : Outside} {op : Op} (hrun : e.Runs w o op) (hf : op ≠ .client .finalize)
    (ha : op ≠ .client .abort) : ¬ ∃ o, e.Runs w o (.client .finalize) ∨ e.Runs w o (.client .abort) := by
  rintro ⟨o', h | h⟩
  · exact hf (runs_unique hrun h).2
  · exact ha (runs_unique hrun h).2

/-- A step moves the state as meant exactly when it takes no lambda that comes too late. -/
theorem movesAsMeant_iff (hg : Good uri w) (h : step uri w e = some w') :
    MovesAsMeant w e w' ↔ ¬ TooLate w e := by
  obtain ⟨-, a, hdoes, hen, -, hl⟩ := step_leads hg h
  have hfrom := hdoes.from
  have hstate : w'.dl.status.state = (w.life.apply a).state := congrArg Life.state hl
  have hnever : ∀ {o op}, e.Runs w o op → op.update = none → op ≠ .transientTimer → op ≠ .alreadyTransferred →
      MovesAsMeant w e w' → (MovesAsMeant w e w' ↔ ¬ TooLate w e) := fun hrun hu ht hs hm =>
    iff_of_true hm (not_tooLate hrun hu ht hs)
  cases a with
  | idle =>
    refine iff_of_true (movesAsMeant_of_same hstate) fun hlate => ?_
    cases e with
    | run o =>
      cases hop : w.nextOp with
      | none => simp [TooLate, hop] at hlate
      | some op =>
        obtain ⟨hu, ht, hs⟩ := hfrom o op ⟨rfl, hop⟩
        exact not_tooLate ⟨rfl, hop⟩ hu ht hs hlate
    | tick | request | foreign | drain | curl => exact hlate
  | send t r =>
    cases t with
    | start =>
      obtain ⟨o, hrun⟩ := hfrom
      refine hnever hrun rfl nofun nofun fun _ => ?_
      have hs : w.dl.status.state = .created := hen.1.1
      rw [hstate, hs]
      exact ⟨rfl, nofun⟩
    | resume =>
      obtain ⟨o, hrun⟩ := hfrom
      refine hnever hrun rfl nofun nofun fun _ => ?_
      have hs : w.dl.status.state = .paused := hen.1.1
      rw [hstate, hs]
      exact ⟨rfl, nofun⟩
    | timer =>
      obtain ⟨o, ⟨rfl, hop⟩, hv⟩ := hfrom
      refine iff_of_true (fun _ => ?_) (by simp [TooLate, hop, hv])
      have hs : w.dl.status.state = .paused := paused_of_isTransientError hen.1.1
      rw [hstate, hs]
      exact ⟨rfl, nofun⟩
    | retry =>
      obtain ⟨o, hrun⟩ := hfrom
      exact hnever hrun rfl nofun nofun (movesAsMeant_of_same (hstate.trans hen.1.1.symm))
  | sendFailed t called terminates =>
    have hsame : (w.life.apply (.sendFailed t called terminates)).state = w.life.state := by cases t <;> rfl
    have hm := movesAsMeant_of_same (e := e) (hstate.trans hsame)
    cases t with
    | start | resume | retry =>
      obtain ⟨o, hrun⟩ := hfrom
      exact hnever hrun rfl nofun nofun hm
    | timer =>
      obtain ⟨o, ⟨rfl, hop⟩, hv⟩ := hfrom
      exact iff_of_true hm (by simp [TooLate, hop, hv])
  | skipRequest =>
    obtain ⟨o, hrun⟩ := hfrom
    refine hnever hrun rfl nofun nofun fun _ => ?_
    have hs : w.dl.status.state = .paused := hen.1
    rw [hstate, hs]
    exact ⟨rfl, nofun⟩
  | closed =>
    have hs : w.dl.status.state = .transferring := hen
    have hm : MovesAsMeant w e w' := fun _ => by
      rw [hstate, hs]
      exact ⟨rfl, nofun⟩
    obtain ⟨o, hrun | hrun⟩ := hfrom
    · exact hnever hrun rfl nofun nofun hm
    · exact hnever hrun rfl nofun nofun hm
  | closeFailed terminates =>
    obtain ⟨o, -, ⟨hrun, -⟩ | ⟨hrun, -⟩⟩ := hfrom
    · exact hnever hrun rfl nofun nofun (movesAsMeant_of_same hstate)
    · exact hnever hrun rfl nofun nofun (movesAsMeant_of_same hstate)
  | finalizeFailed =>
    obtain ⟨o, -, hrun⟩ := hfrom
    exact hnever hrun rfl nofun nofun (movesAsMeant_of_same hstate)
  | finalized =>
    obtain ⟨o, hrun⟩ := hfrom
    refine hnever hrun rfl nofun nofun fun _ => ?_
    have hs : w.dl.status.state = .transferred := hen
    rw [hstate, hs]
    exact ⟨rfl, fun _ => ⟨o, .inl hrun⟩⟩
  | aborted cancelled file =>
    obtain ⟨o, hrun, -⟩ := hfrom
    refine hnever hrun rfl nofun nofun fun _ => ?_
    have hs : (w.life.apply (.aborted cancelled file)).state = .aborted := by cases cancelled <;> rfl
    have hf : w.dl.status.state ≠ .finalized := hen.1
    have ha : w.dl.status.state ≠ .aborted := hen.2.1
    rw [hstate, hs]
    refine ⟨?_, fun _ => ⟨o, .inr hrun⟩⟩
    cases hst : w.dl.status.state <;> simp_all [DownloadState.mayBecome]
  | drain | status | header =>
    subst hfrom
    exact iff_of_true (movesAsMeant_of_same hstate) id
  | write =>
    obtain ⟨out, indeterminate, rfl, -⟩ := hfrom
    exact iff_of_true (movesAsMeant_of_same hstate) id
  | complete =>
    obtain ⟨curlResult, indeterminate, rfl, -⟩ := hfrom
    exact iff_of_true (movesAsMeant_of_same hstate) id
  | completeIgnored =>
    obtain ⟨curlResult, indeterminate, rfl⟩ := hfrom
    exact iff_of_true (movesAsMeant_of_same hstate) id
  | headers bytesTotal =>
    obtain ⟨o, code, text, rfl, hop⟩ := hfrom
    exact iff_of_true (movesAsMeant_of_same hstate) (by simp [TooLate, hop])
  | data cbData =>
    obtain ⟨o, rfl, hop⟩ := hfrom
    exact iff_of_true (movesAsMeant_of_same hstate) (by simp [TooLate, hop])
  | completed =>
    obtain ⟨o, rfl, hop⟩ := hfrom
    rw [movesAsMeant_transferred (not_created_of_update hg hen.1) hstate]
    simp [TooLate, hop]
  | failedOffline =>
    obtain ⟨o, hr, hc, code, text, ⟨rfl, hop⟩, hv⟩ := hfrom
    rw [movesAsMeant_paused (not_created_of_update hg hen.1) hstate (not_client_end ⟨rfl, hop⟩ nofun nofun)]
    simp [TooLate, hop, hv]
  | failedFatal isClosed =>
    obtain ⟨o, hr, hc, code, text, ⟨rfl, hop⟩, hv, hfatal, hcloses⟩ := hfrom
    cases isClosed with
    | true =>
      rw [movesAsMeant_paused (not_created_of_update hg hen.1) hstate (not_client_end ⟨rfl, hop⟩ nofun nofun)]
      simp [TooLate, hop, hfatal, hcloses]
    | false => exact iff_of_true (movesAsMeant_of_same hstate) (by simp [TooLate, hop, hv, hcloses])
  | failedRetry =>
    obtain ⟨o, hr, hc, code, text, ⟨rfl, hop⟩, hv, hfatal⟩ := hfrom
    exact iff_of_true (movesAsMeant_of_same hstate) (by simp [TooLate, hop, hv, hfatal])
  | timerOffline =>
    obtain ⟨o, ⟨rfl, hop⟩, hv⟩ := hfrom
    have hc : w.dl.status.state ≠ .created := fun hs => by
      have := (hg.created_idle hs).2.1
      have := hen.1
      omega
    rw [movesAsMeant_paused hc hstate (not_client_end ⟨rfl, hop⟩ nofun nofun)]
    simp [TooLate, hop, hv]
  | timerIdle =>
    obtain ⟨o, ⟨rfl, hop⟩, hv⟩ := hfrom
    exact iff_of_true (movesAsMeant_of_same hstate) (by simp [TooLate, hop, hv])
  | alreadyTransferred =>
    obtain ⟨o, rfl, hop⟩ := hfrom
    have hc : w.dl.status.state ≠ .created := fun hs => by
      have hsc := (hg.created_idle hs).2.2
      have : 0 < w.life.shortcuts := hen
      omega
    rw [movesAsMeant_transferred hc hstate]
    simp [TooLate, hop]

/-- **The state moves as meant** all along a run exactly when no lambda comes too late in it. -/
theorem state_moves_as_meant_iff {ms : List (Trans.Move World Event)} (hr : Trans.Reachable (agent uri) w)
    (hp : Trans.Path (agent uri) w ms w') :
    (∀ m ∈ ms, MovesAsMeant m.src m.ev m.dst) ↔ ∀ m ∈ ms, ¬ TooLate m.src m.ev :=
  hp.forall_iff (C := fun w e => ¬ TooLate w e) (Q := MovesAsMeant)
    (fun _ _ _ hs h => movesAsMeant_iff (good_reachable hs) h) hr

/-- No answer, no network: the download waits, until its client starts it again; the
second request brings the file. The timer of the wait is still set. -/
def startedAgainRun : List Event :=
  [.request .start, .run {}, .drain, .curl (.complete 7 0), .run { hasViableInterface := false },
    .request .start, .run {},
    .drain, .curl (.status 200), .curl (.header "Content-Length: 3"), .curl (.write [1, 2, 3] (.wrote 3) 0),
    .curl (.complete 0 0), .run {}, .run {}, .run {}, .tick 30000000000, .run {}]

theorem state_moves_as_meant_iff_startedAgain : ∃ w' ms, ms.map (·.ev) = startedAgainRun ∧
    Trans.Path (agent plainUri) newDownload ms w' ∧
    ((∀ m ∈ ms, MovesAsMeant m.src m.ev m.dst) ↔ ∀ m ∈ ms, ¬ TooLate m.src m.ev) := by
  have hrun : ((agent plainUri).runFrom newDownload startedAgainRun).isSome = true := by decide +kernel
  obtain ⟨w', hw⟩ := Option.isSome_iff_exists.1 hrun
  obtain ⟨ms, hp, hev⟩ := Trans.path_of_runFrom hw
  exact ⟨w', ms, hev, hp, state_moves_as_meant_iff reachable_newDownload hp⟩

/-- When the timer finds no network again, it pauses a download that is transferred. -/
theorem transferred_paused_again : ¬ ∀ uri w e w', Trans.Reachable (agent uri) w → step uri w e = some w' →
    MovesAsMeant w e w' := by
  intro hall
  have hrun : ((agent plainUri).runFrom newDownload startedAgainRun).bind (fun w =>
      (step plainUri w (.run { hasViableInterface := false })).map fun w' =>
        (w.dl.status.state, w'.dl.status.state)) = some (.transferred, .paused) := by decide +kernel
  obtain ⟨w, hw, hstep⟩ := Option.bind_eq_some_iff.1 hrun
  obtain ⟨w', hw', hstates⟩ := Option.map_eq_some_iff.1 hstep
  obtain ⟨hs, hs'⟩ := Prod.mk.inj hstates
  have hmove := hall _ w _ w' (Trans.reachable_of_runFrom reachable_newDownload hw) hw' (by simp [hs, hs'])
  rw [hs, hs'] at hmove
  exact absurd hmove.1 (by decide)

end DoClient
