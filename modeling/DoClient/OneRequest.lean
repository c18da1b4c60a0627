/-
One request at a time: at most one is outstanding, none is sent while one is,
and the download is at work on it. What breaks this are lambdas of an earlier
request, taken when a later one is under way.
-/
import DoClient.Accounting
import DoClient.Transitions

namespace DoClient

namespace Life

variable {l : Life} {a : Act}

/-- At most one request is outstanding, none was sent while one was, and the
download is at work on it. -/
structure OneRequest (l : Life) : Prop where
  single : l.queued = none ∨ l.running = none
  working : l.outstanding = true → l.state = .transferring ∧ l.active = true
  overlaps : l.overlaps = 0

/-- A resume that found everything transferred has sent nothing, and is not overtaken by one that would. -/
def ShortcutsIdle (l : Life) : Prop :=
  0 < l.shortcuts → l.outstanding = false ∧ l.bytesTotal ≠ 0 ∧ l.bytesTransferred = l.bytesTotal

/-- The acts that take the download off a request. -/
def DropsWork : Act → Prop
  | .completed | .failedOffline | .failedRetry | .timerOffline => True
  | _ => False

theorem OneRequest.idle (h : l.OneRequest) (hn : ¬ (l.state = .transferring ∧ l.active = true)) :
    l.outstanding = false := by
  by_contra hne
  exact hn (h.working (by simpa using hne))

/-- Where a request is sent from, none is outstanding. -/
theorem OneRequest.idle_of_ready (h : l.OneRequest) (hw : l.waiting = true → l.state = .paused) {t : Trigger}
    (hr : l.Ready t) : l.outstanding = false := by
  cases t with
  | start => exact hr.2.2.1
  | resume => exact h.idle (by simp [hr.1])
  | timer => exact h.idle (by simp [hw hr.1])
  | retry => exact h.idle (by simp [hr.2.1])

theorem oneRequest_of_idle (hout : l.outstanding = false) (ho : l.overlaps = 0) : l.OneRequest :=
  ⟨.inl (not_outstanding hout).1, fun h => absurd (h.symm.trans hout) Bool.noConfusion, ho⟩

/-- An act that takes the download off a request keeps one request exactly when none is outstanding. -/
theorem OneRequest.drop_iff (h : l.OneRequest) {l' : Life} (hq : l'.queued = l.queued)
    (hr : l'.running = l.running) (ho : l'.overlaps = l.overlaps)
    (hn : ¬ (l'.state = .transferring ∧ l'.active = true)) :
    l'.OneRequest ↔ l.outstanding = false := by
  have hout : l'.outstanding = l.outstanding := by simp only [outstanding, hq, hr]
  exact ⟨fun h' => hout ▸ h'.idle hn,
    fun hidle => oneRequest_of_idle (hout.trans hidle) (ho.trans h.overlaps)⟩

/-- The transfer goes on, or ends. -/
theorem OneRequest.frame (h : l.OneRequest) {l' : Life} (hq : l'.queued = l.queued)
    (hr : l'.running.isSome = true → l.running.isSome = true) (ho : l'.overlaps = l.overlaps)
    (hs : l'.state = l.state) (ha : l'.active = l.active) : l'.OneRequest := by
  refine ⟨?_, fun hout => ?_, ho.trans h.overlaps⟩
  · rw [hq]
    refine h.single.imp_right fun hn => ?_
    by_contra hne
    have := hr (Option.isSome_iff_ne_none.2 hne)
    simp [hn] at this
  · rw [hs, ha]
    refine h.working ?_
    simp only [outstanding, hq, Bool.or_eq_true] at hout ⊢
    exact hout.imp_right hr

theorem OneRequest.apply_iff (h : l.OneRequest) (hs : l.ShortcutsIdle)
    (hw : l.waiting = true → l.state = .paused) (he : l.Enabled a) :
    (l.apply a).OneRequest ↔ ¬ (DropsWork a ∧ l.outstanding = true) := by
  have ho := h.overlaps
  cases a with
  | send t r =>
    have hout := h.idle_of_ready hw he.1
    have hrun := (not_outstanding hout).2
    refine iff_of_true ?_ (by simp [DropsWork])
    cases t <;> exact ⟨.inr hrun, fun _ => ⟨rfl, rfl⟩, by simp [Life.apply, useTimer, ho, hout]⟩
  | sendFailed t called terminates =>
    have hout : l.outstanding = false := by
      cases t with
      | start => exact he.2.2.1
      | resume => exact h.idle (by simp [show l.state = .paused from he])
      | timer | retry => exact h.idle_of_ready hw he.1
    refine iff_of_true ?_ (by simp [DropsWork])
    cases t <;> exact h.frame rfl id (by simp [Life.apply, useTimer, hout]) rfl rfl
  | skipRequest =>
    have hout := h.idle (by simp [he.1])
    exact iff_of_true (oneRequest_of_idle hout ho) (by simp [DropsWork])
  | closed | closeFailed | finalizeFailed | finalized =>
    exact iff_of_true (oneRequest_of_idle rfl ho) (by simp [DropsWork])
  | aborted cancelled =>
    refine iff_of_true ?_ (by simp [DropsWork])
    cases cancelled <;> exact oneRequest_of_idle rfl ho
  | drain lost =>
    refine iff_of_true ⟨.inl rfl, fun hout => ?_, ho⟩ (by simp [DropsWork])
    refine h.working ?_
    by_contra hne
    rw [Bool.not_eq_true] at hne
    exact absurd (hout.symm.trans (outstanding_drain lost hne)) Bool.noConfusion
  | status | header | write =>
    exact iff_of_true (h.frame rfl (by simp [Life.apply]) rfl rfl rfl) (by simp [DropsWork])
  | complete => exact iff_of_true (h.frame rfl (by simp [Life.apply]) rfl rfl rfl) (by simp [DropsWork])
  | completeIgnored =>
    exact iff_of_true (h.frame rfl (by simp [Life.apply]) rfl rfl rfl) (by simp [DropsWork])
  | failedFatal closed =>
    refine iff_of_true ?_ (by simp [DropsWork])
    cases closed <;> exact oneRequest_of_idle rfl ho
  | completed | failedOffline | failedRetry | timerOffline =>
    refine Iff.trans (h.drop_iff rfl rfl rfl (by simp [Life.apply, goOffline])) ?_
    simp [DropsWork]
  | alreadyTransferred =>
    have hout := (hs he).1
    exact iff_of_true (oneRequest_of_idle hout ho) (by simp [DropsWork])
  | idle | headers | data | timerIdle => exact iff_of_true (h.frame rfl id rfl rfl rfl) (by simp [DropsWork])

theorem ShortcutsIdle.apply (hs : l.ShortcutsIdle) (h : l.OneRequest) (he : l.Enabled a) :
    (l.apply a).ShortcutsIdle := by
  have hzero : l.shortcuts = 0 → (l.apply a).shortcuts = l.shortcuts → (l.apply a).ShortcutsIdle :=
    fun h0 hsame hpos => by omega
  cases a with
  | send t r =>
    have h0 : l.shortcuts = 0 := by
      cases t with
      | start => exact he.1.2.2.2.2.2.1
      | resume =>
        by_contra hne
        exact he.1.2 (hs (Nat.pos_of_ne_zero hne)).2
      | timer => exact he.1.2.2
      | retry => exact he.1.2.2
    refine hzero h0 ?_
    cases t <;> rfl
  | sendFailed t => cases t <;> exact hs
  | skipRequest => exact fun _ => ⟨h.idle (by simp [he.1]), he.2⟩
  | closed | closeFailed | finalizeFailed => exact fun hpos => ⟨rfl, (hs hpos).2⟩
  | finalized => exact fun hpos => absurd hpos (Nat.lt_irrefl 0)
  | aborted cancelled =>
    cases cancelled with
    | true => exact fun hpos => absurd hpos (Nat.lt_irrefl 0)
    | false => exact fun hpos => ⟨rfl, (hs hpos).2⟩
  | drain lost => exact fun hpos => ⟨outstanding_drain lost (hs hpos).1, (hs hpos).2⟩
  | status =>
    obtain ⟨t, ht, -⟩ := he
    exact fun hpos => absurd ((running_outstanding ht).symm.trans (hs hpos).1) Bool.noConfusion
  | write =>
    obtain ⟨⟨t, ht, -⟩, -⟩ := he
    exact fun hpos => absurd ((running_outstanding ht).symm.trans (hs hpos).1) Bool.noConfusion
  | header | completeIgnored =>
    obtain ⟨t, ht⟩ := Option.isSome_iff_exists.1 he
    exact fun hpos => absurd ((running_outstanding ht).symm.trans (hs hpos).1) Bool.noConfusion
  | complete =>
    obtain ⟨⟨t, ht, -⟩, -⟩ := he
    exact fun hpos => absurd ((running_outstanding ht).symm.trans (hs hpos).1) Bool.noConfusion
  | headers | data | completed | failedOffline | failedRetry => exact hzero he.2 rfl
  | failedFatal closed => cases closed <;> exact hzero he.2 rfl
  | timerOffline | timerIdle => exact hs
  | alreadyTransferred => exact fun _ => hs he
  | idle => exact hs

end Life

/-! ## The agent -/

variable {uri : UriLib} {w w' : World} {e : Event}

/-- At most one request is outstanding, `SendRequest` was never called while one was,
and the download is at work on the one that is. -/
structure World.OneRequest (w : World) : Prop where
  single : w.curl.toAdd = none ∨ w.curl.active = none
  working : w.curl.outstanding = true → w.dl.status.state = .transferring ∧ w.dl.fHttpRequestActive = true
  overlaps : w.overlaps = 0

theorem life_oneRequest : w.life.OneRequest ↔ w.OneRequest :=
  ⟨fun h => ⟨h.single, h.working, h.overlaps⟩, fun h => ⟨h.single, h.working, h.overlaps⟩⟩

/-- While a request is outstanding, a lambda is taken that was scheduled for an
earlier one: a completion, a failure (unless it pauses the download and closes the
request), or the transient-error timer, without a network. -/
def TakesLeftover (w : World) : Event → Prop
  | .run o => w.curl.outstanding = true ∧ match w.nextOp with
    | some .transferCompleted => True
    | some (.transferFailed hrRequest hrCallback httpStatusCode _) =>
      ¬ (o.hasViableInterface = true ∧ w.dl.isFatalError hrRequest hrCallback httpStatusCode = true)
    | some .transientTimer => o.hasViableInterface = false
    | _ => False
  | _ => False

theorem takesLeftover_iff {a : Act} (hfrom : a.From w e) :
    TakesLeftover w e ↔ Life.DropsWork a ∧ w.life.outstanding = true := by
  have hout : w.life.outstanding = w.curl.outstanding := rfl
  have hnone : ∀ {o op}, e.Runs w o op → op.update = none → op ≠ .transientTimer → ¬ TakesLeftover w e := by
    rintro o op ⟨rfl, hop⟩ hu ht
    cases op <;> simp_all [TakesLeftover, Op.update]
  rw [hout]
  cases a with
  | idle =>
    refine iff_of_false (fun hleft => ?_) (by simp [Life.DropsWork])
    cases e with
    | run o =>
      cases hop : w.nextOp with
      | none => simp [TakesLeftover, hop] at hleft
      | some op =>
        obtain ⟨hu, ht, -⟩ := hfrom o op ⟨rfl, hop⟩
        exact hnone ⟨rfl, hop⟩ hu ht hleft
    | tick | request | foreign | drain | curl => exact hleft
  | send t | sendFailed t =>
    refine iff_of_false ?_ (by simp [Life.DropsWork])
    cases t with
    | start | resume | retry =>
      obtain ⟨o, hrun⟩ := hfrom
      exact hnone hrun rfl (by simp)
    | timer =>
      obtain ⟨o, ⟨rfl, hop⟩, hv⟩ := hfrom
      simp [TakesLeftover, hop, hv]
  | skipRequest | finalized | alreadyTransferred =>
    obtain ⟨o, hrun⟩ := hfrom
    exact iff_of_false (hnone hrun rfl (by simp)) (by simp [Life.DropsWork])
  | closed =>
    refine iff_of_false ?_ (by simp [Life.DropsWork])
    obtain ⟨o, hrun | hrun⟩ := hfrom
    · exact hnone hrun rfl (by simp)
    · exact hnone hrun rfl (by simp)
  | closeFailed =>
    refine iff_of_false ?_ (by simp [Life.DropsWork])
    obtain ⟨o, -, ⟨hrun, -⟩ | ⟨hrun, -⟩⟩ := hfrom
    · exact hnone hrun rfl (by simp)
    · exact hnone hrun rfl (by simp)
  | finalizeFailed =>
    obtain ⟨o, -, hrun⟩ := hfrom
    exact iff_of_false (hnone hrun rfl (by simp)) (by simp [Life.DropsWork])
  | aborted =>
    obtain ⟨o, hrun, -⟩ := hfrom
    exact iff_of_false (hnone hrun rfl (by simp)) (by simp [Life.DropsWork])
  | drain | status | header =>
    subst hfrom
    exact iff_of_false id (by simp [Life.DropsWork])
  | write | complete =>
    obtain ⟨_, _, rfl, -⟩ := hfrom
    exact iff_of_false id (by simp [Life.DropsWork])
  | completeIgnored =>
    obtain ⟨_, _, rfl⟩ := hfrom
    exact iff_of_false id (by simp [Life.DropsWork])
  | headers =>
    obtain ⟨o, code, text, rfl, hop⟩ := hfrom
    simp [TakesLeftover, hop, Life.DropsWork]
  | data =>
    obtain ⟨o, rfl, hop⟩ := hfrom
    simp [TakesLeftover, hop, Life.DropsWork]
  | completed =>
    obtain ⟨o, rfl, hop⟩ := hfrom
    simp [TakesLeftover, hop, Life.DropsWork]
  | failedOffline =>
    obtain ⟨o, hr, hc, code, text, ⟨rfl, hop⟩, hv⟩ := hfrom
    simp [TakesLeftover, hop, hv, Life.DropsWork]
  | failedFatal =>
    obtain ⟨o, hr, hc, code, text, ⟨rfl, hop⟩, hv, hfatal, -⟩ := hfrom
    simp [TakesLeftover, hop, hv, hfatal, Life.DropsWork]
  | failedRetry =>
    obtain ⟨o, hr, hc, code, text, ⟨rfl, hop⟩, hv, hfatal⟩ := hfrom
    simp [TakesLeftover, hop, hv, hfatal, Life.DropsWork]
  | timerOffline =>
    obtain ⟨o, ⟨rfl, hop⟩, hv⟩ := hfrom
    simp [TakesLeftover, hop, hv, Life.DropsWork]
  | timerIdle =>
    obtain ⟨o, ⟨rfl, hop⟩, hv⟩ := hfrom
    simp [TakesLeftover, hop, hv, Life.DropsWork]

theorem waiting_paused (h : w.life.waiting = true) : w.life.state = .paused := paused_of_isTransientError h

/-- **One request at a time**, in every state of a run, exactly when the run takes no
lambda of an earlier request while a later one is outstanding. -/
theorem one_request_iff {ms : List (Trans.Move World Event)} (hi : Initial uri w)
    (hp : Trans.Path (agent uri) w ms w') :
    (∀ m ∈ ms, m.dst.OneRequest) ↔ ∀ m ∈ ms, ¬ TakesLeftover m.src m.ev := by
  have hlife := life_initial hi
  refine hp.invariant_iff (C := fun w e => ¬ TakesLeftover w e) (fun w => w.life.ShortcutsIdle)
    (fun s e s' hr hI hP hs => ?_) (fun s e s' hr hI hP hs _ => ?_) (.init hi) ?_ ?_
  · obtain ⟨-, a, hdoes, hen, -, hl⟩ := step_leads (good_reachable hr) hs
    rw [← life_oneRequest, hl, takesLeftover_iff hdoes.from]
    exact (life_oneRequest.2 hP).apply_iff hI waiting_paused hen
  · obtain ⟨-, a, -, hen, -, hl⟩ := step_leads (good_reachable hr) hs
    rw [hl]
    exact hI.apply (life_oneRequest.2 hP) hen
  · rw [hlife]
    exact fun hpos => absurd hpos (Nat.lt_irrefl 0)
  · rw [← life_oneRequest, hlife]
    exact Life.oneRequest_of_idle rfl rfl

theorem one_request_iff_resumed : ∃ w' ms, ms.map (·.ev) = resumedRun ∧
    Trans.Path (agent plainUri) newDownload ms w' ∧
    ((∀ m ∈ ms, m.dst.OneRequest) ↔ ∀ m ∈ ms, ¬ TakesLeftover m.src m.ev) := by
  have hrun : ((agent plainUri).runFrom newDownload resumedRun).isSome = true := by decide +kernel
  obtain ⟨w', hw⟩ := Option.isSome_iff_exists.1 hrun
  obtain ⟨ms, hp, hev⟩ := Trans.path_of_runFrom hw
  exact ⟨w', ms, hev, hp, one_request_iff initial_newDownload hp⟩

/-- No answer; the failure lambda is overtaken by a pause and a resume, sets a retry, and the retry sends. -/
def leftoverRun : List Event :=
  [.request .start, .run {}, .drain, .curl (.complete 7 0), .request .pause, .run {}, .request .start,
    .run {}, .run {}, .drain, .tick 2000000000, .run {}]

/-- Two requests are outstanding. -/
theorem two_requests_outstanding : ¬ ∀ uri w, Trans.Reachable (agent uri) w → w.OneRequest := by
  intro hall
  have hrun : ((agent plainUri).runFrom newDownload leftoverRun).map (fun w =>
      (w.curl.toAdd.isSome, w.curl.active.isSome, w.overlaps)) = some (true, true, 1) := by decide +kernel
  obtain ⟨w, hr, hstate⟩ := Trans.reachable_of_replay reachable_newDownload hrun
  simp only [Prod.mk.injEq] at hstate
  obtain ⟨-, -, ho⟩ := hstate
  have hzero := (hall _ w hr).overlaps
  rw [hzero] at ho
  cases ho

end DoClient
