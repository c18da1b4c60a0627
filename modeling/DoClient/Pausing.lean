/-
A client's Pause against what is still scheduled: when the download stays
paused, and how a wait for the network undoes the Pause.
-/
import DoClient.Transitions

namespace DoClient

variable {uri : UriLib} {w w' : World} {e : Event}

/-- No client starts the download. -/
def NoStart (w : World) : Event → Prop
  | .run _ => w.nextOp ≠ some (.client .start)
  | _ => True

/-- No failure lambda and no transient-error timer finds the network gone, which
makes of any state a wait for the network. -/
def NoNewWait (w : World) : Event → Prop
  | .run o =>
    o.hasViableInterface = false → ∀ op, w.nextOp = some op → op ≠ .transientTimer ∧ op.update ≠ some .failed
  | _ => True

/-- Not at work, and not about to be: `requests` are the requests so far. -/
structure AtRest (requests : List IssuedRequest) (w : World) : Prop where
  requests : w.requests = requests
  created : w.dl.status.state ≠ .created
  transferring : w.dl.status.state ≠ .transferring
  waiting : w.dl.status.isTransientError = false

/-- Out of a state at rest only a client's Start or a new wait leads. -/
theorem AtRest.step {requests : List IssuedRequest} (h : AtRest requests w) (hg : Good uri w)
    (hstep : DoClient.step uri w e = some w') (hn : NoStart w e) (hw : NoNewWait w e) :
    AtRest requests w' := by
  obtain ⟨-, a, hdoes, hen, -, hl⟩ := step_leads hg hstep
  have hfrom := hdoes.from
  have hkeep : (w.life.apply a).requests = w.life.requests → (w.life.apply a).state ≠ .created →
      (w.life.apply a).state ≠ .transferring → (w.life.apply a).waiting = false → AtRest requests w' := by
    rw [← hl]
    exact fun hr hc ht hwait => ⟨hr.trans h.requests, hc, ht, hwait⟩
  have hwait : w.life.waiting = false := h.waiting
  cases a with
  | send t r =>
    cases t with
    | start | resume =>
      obtain ⟨o, rfl, hop⟩ := hfrom
      exact absurd hop hn
    | timer => exact absurd (hwait.symm.trans hen.1.1) Bool.noConfusion
    | retry => exact absurd hen.1.1 h.transferring
  | sendFailed t => cases t <;> exact hkeep rfl h.created h.transferring hwait
  | skipRequest =>
    obtain ⟨o, rfl, hop⟩ := hfrom
    exact absurd hop hn
  | closed | closeFailed => exact absurd hen h.transferring
  | aborted cancelled => cases cancelled <;> exact hkeep rfl nofun nofun rfl
  | failedOffline =>
    obtain ⟨o, hr, hc, code, text, ⟨rfl, hop⟩, hv⟩ := hfrom
    exact absurd rfl (hw hv _ hop).2
  | failedFatal isClosed =>
    cases isClosed with
    | true => exact hkeep rfl nofun nofun rfl
    | false => exact hkeep rfl h.created h.transferring hwait
  | timerOffline =>
    obtain ⟨o, ⟨rfl, hop⟩, hv⟩ := hfrom
    exact absurd rfl (hw hv _ hop).1
  | finalized | completed | alreadyTransferred => exact hkeep rfl nofun nofun rfl
  | failedRetry => exact hkeep rfl h.created h.transferring rfl
  | _ => exact hkeep rfl h.created h.transferring hwait

/-- **A Pause sticks** when it does not find the download waiting for the network and
nothing makes it wait afterwards: until a client starts it again, no request is
issued and the state does not become Transferring. -/
theorem pause_sticks {o : Outside} {ms : List (Trans.Move World Event)} {w'' : World}
    (hr : Trans.Reachable (agent uri) w) (hop : w.nextOp = some (.client .pause))
    (hstep : step uri w (.run o) = some w') (hpaused : w'.dl.status.state = .paused)
    (hnot : w.dl.status.isTransientError = false) (hp : Trans.Path (agent uri) w' ms w'')
    (hstart : ∀ m ∈ ms, NoStart m.src m.ev) (hwait : ∀ m ∈ ms, NoNewWait m.src m.ev) :
    ∀ m ∈ ms, m.dst.requests = w'.requests ∧ m.dst.dl.status.state ≠ .transferring := by
  have hrest : AtRest w'.requests w' := by
    obtain ⟨-, a, hdoes, -, -, hl⟩ := step_leads (good_reachable hr) hstep
    have hwaiting : (w.life.apply a).waiting = false := by
      obtain ⟨op, hop', hdoes⟩ := hdoes
      obtain rfl := Option.some.inj (hop.symm.trans hop')
      rcases hdoes with rfl | rfl | ⟨-, rfl⟩
      exacts [hnot, rfl, hnot]
    rw [← hl] at hwaiting
    exact ⟨rfl, by simp [hpaused], by simp [hpaused], hwaiting⟩
  have hmove : (agent uri).step w (.run o) = some w' := hstep
  have hr' : Trans.Reachable (agent uri) w' := .step hr trivial hmove
  have hkept := hp.keeps (C := fun w e => NoStart w e ∧ NoNewWait w e) (AtRest w'.requests)
    (fun _ _ _ hs h hc hst => h.step (good_reachable hs) hst hc.1 hc.2) hr' hrest fun m hm =>
      ⟨hstart m hm, hwait m hm⟩
  exact fun m hm => ⟨(hkept.2 m hm).requests, (hkept.2 m hm).transferring⟩

instance : ∀ w e, Decidable (NoStart w e)
  | _, .run _ => inferInstanceAs (Decidable (_ ≠ _))
  | _, .tick _ | _, .request _ | _, .foreign .. | _, .drain | _, .curl _ => .isTrue trivial

instance : ∀ w e, Decidable (NoNewWait w e)
  | w, .run o => inferInstanceAs (Decidable (o.hasViableInterface = false → ∀ op ∈ w.nextOp,
      op ≠ .transientTimer ∧ op.update ≠ some .failed))
  | _, .tick _ | _, .request _ | _, .foreign .. | _, .drain | _, .curl _ => .isTrue trivial

/-- The connection breaks, a retry is set, and before it a client's Pause. -/
def pausedBeforeRetry : List Event :=
  [.request .start, .run {}, .drain, .curl (.status 200), .curl (.write [1, 2] (.wrote 2) 0),
    .curl (.complete 56 0), .run {}, .run {}, .run {}, .request .pause]

theorem pause_sticks_beforeRetry : ∃ w w' w'' ms, step plainUri w (.run {}) = some w' ∧
    w'.dl.status.state = .paused ∧ Trans.Path (agent plainUri) w' ms w'' ∧
    ms.map (·.ev) = [.tick 2000000000, .run {}] ∧
    ∀ m ∈ ms, m.dst.requests = w'.requests ∧ m.dst.dl.status.state ≠ .transferring := by
  have hrun : ((agent plainUri).runFrom newDownload pausedBeforeRetry).bind (fun w =>
      (step plainUri w (.run {})).bind fun w' =>
        (((agent plainUri).restrict fun w e => NoStart w e ∧ NoNewWait w e).runFrom w'
          [.tick 2000000000, .run {}]).map
          fun _ => (w.nextOp, w.dl.status.isTransientError, w'.dl.status.state)) =
      some (some (.client .pause), false, .paused) := by decide +kernel
  obtain ⟨w, hw, hrun⟩ := Option.bind_eq_some_iff.1 hrun
  obtain ⟨w', hw', hrun⟩ := Option.bind_eq_some_iff.1 hrun
  obtain ⟨w'', hw'', hrun⟩ := Option.map_eq_some_iff.1 hrun
  simp only [Prod.mk.injEq] at hrun
  obtain ⟨hop, hnot, hs⟩ := hrun
  obtain ⟨ms, hp, hev⟩ := Trans.path_of_runFrom hw''
  obtain ⟨hp, hC⟩ := hp.of_restrict
  exact ⟨w, w', w'', ms, hw', hs, hp, hev,
    pause_sticks (Trans.reachable_of_runFrom reachable_newDownload hw) hop hw' hs
    hnot hp (fun m hm => (hC m hm).1) fun m hm => (hC m hm).2⟩

/-- No answer, no network; a client pauses the download that waits. -/
def pausedWhileWaiting : List Event :=
  [.request .start, .run {}, .drain, .curl (.complete 7 0), .run { hasViableInterface := false },
    .request .pause]

/-- The wait goes on behind the Pause, and ends in a request. -/
theorem paused_download_resumes : ¬ ∀ uri w w' w'' o ms, Trans.Reachable (agent uri) w →
    w.nextOp = some (.client .pause) → step uri w (.run o) = some w' → w'.dl.status.state = .paused →
    Trans.Path (agent uri) w' ms w'' → (∀ m ∈ ms, NoStart m.src m.ev) →
    ∀ m ∈ ms, m.dst.requests = w'.requests ∧ m.dst.dl.status.state ≠ .transferring := by
  intro hall
  have hrun : ((agent plainUri).runFrom newDownload pausedWhileWaiting).bind (fun w =>
      (step plainUri w (.run {})).bind fun w' =>
        (((agent plainUri).restrict NoStart).runFrom w' [.tick 30000000000, .run {}, .run {}]).map
          fun w'' => (w.nextOp, w'.dl.status.state, w''.dl.status.state)) =
      some (some (.client .pause), .paused, .transferring) := by decide +kernel
  obtain ⟨w, hw, hrun⟩ := Option.bind_eq_some_iff.1 hrun
  obtain ⟨w', hw', hrun⟩ := Option.bind_eq_some_iff.1 hrun
  obtain ⟨w'', hw'', hrun⟩ := Option.map_eq_some_iff.1 hrun
  simp only [Prod.mk.injEq] at hrun
  obtain ⟨hop, hs, hs''⟩ := hrun
  obtain ⟨ms, hp, hev⟩ := Trans.path_of_runFrom hw''
  obtain ⟨hp, hC⟩ := hp.of_restrict
  have hkept := hall _ w w' w'' {} ms (Trans.reachable_of_runFrom reachable_newDownload hw) hop hw' hs hp hC
  cases hp with
  | nil => exact absurd (hs.symm.trans hs'') nofun
  | snoc _ hstep => exact (hkept _ (List.mem_append.2 (.inr (List.mem_singleton.2 rfl)))).2 hs''

end DoClient
