/-
The fallback from the cache host: where the requests of a download with a
fallback delay go before the fallback is due, in runs that keep finding a
cache host that is not banned.
-/
import DoClient.Effects

namespace DoClient

open HResult

variable {uri : UriLib} {o : Outside} {w w' : World} {e : Event} {op : Op} {due : Int}

/-! ## Requests to the cache host -/

/-- There is a cache host and it is not banned for the download. -/
def World.HostAvailable (uri : UriLib) (w : World) (host : String) : Prop :=
  host.isEmpty = false ∧ w.mcc.isBanned uri w.now host w.dl.url = false

instance (w : World) (o : Outside) : Decidable (w.CanStart o) :=
  inferInstanceAs (Decidable (_ ∧ _ ∧ _ ∧ _))

instance (w : World) (host : String) : Decidable (w.HostAvailable uri host) :=
  inferInstanceAs (Decidable (_ ∧ _))

/-- The cache host and the due time of the fallback that go into a task's request, if it makes one. -/
def Op.route (w : World) (o : Outside) : Op → Option (String × Option Int)
  | .client .start =>
    if w.dl.status.state = .created ∧ w.CanStart o then some (o.mccHost, w.fallbackDue o)
    else if w.dl.status.state = .paused ∧
        ¬ (w.dl.status.bytesTotal ≠ 0 ∧ w.dl.status.bytesTransferred = w.dl.status.bytesTotal) then
      some (if w.dl.fAllowMcc then o.mccHost else w.dl.mccHost, w.dl.mccFallbackDue)
    else none
  | .transientTimer =>
    if o.hasViableInterface = true ∧ w.dl.status.isTransientError = true
      then some (w.dl.mccHost, w.dl.mccFallbackDue)
    else none
  | .retry =>
    if w.dl.status.state = .transferring ∧ w.dl.fHttpRequestActive = false
      then some (w.dl.mccHost, w.dl.mccFallbackDue)
    else none
  | _ => none

/-- A request that is made before the fallback is due finds a cache host. -/
def FindsCacheHost (uri : UriLib) (w : World) : Event → Prop
  | .run o =>
    ∀ op ∈ w.nextOp, ∀ route ∈ op.route w o, ∀ due ∈ route.2, w.now < due → w.HostAvailable uri route.1
  | _ => True

instance : ∀ w e, Decidable (FindsCacheHost uri w e)
  | w, .run o => inferInstanceAs (Decidable (∀ op ∈ w.nextOp, ∀ route ∈ op.route w o, ∀ due ∈ route.2, _))
  | _, .tick _ | _, .request _ | _, .foreign .. | _, .drain | _, .curl _ => .isTrue trivial

/-- The request was sent to the cache host: its URL is the download's with the host swapped. -/
def ToCacheHost (uri : UriLib) (w : World) (r : IssuedRequest) : Prop :=
  w.dl.connectionType = .mcc ∧ w.dl.mccHost.isEmpty = false ∧
    uri.swapUrlHostNameForMCC w.dl.url w.dl.mccHost = .ok r.url

/-- The world in which `_SendHttpRequest` is called, as far as the route goes. -/
structure CalledIn (w : World) (o : Outside) (op : Op) (w₀ : World) : Prop where
  route : op.route w o = some (w₀.dl.mccHost, w₀.dl.mccFallbackDue)
  now : w₀.now = w.now
  mcc : w₀.mcc = w.mcc
  requests : w₀.requests = w.requests
  url : w₀.dl.url = w.dl.url
  fAllowMcc : w₀.dl.fAllowMcc = w.dl.fAllowMcc
  connectionType : w₀.dl.connectionType = w.dl.connectionType

theorem Calls.calledIn {retry : Bool} {w₀ : World} (hc : Calls o w op retry w₀) : CalledIn w o op w₀ := by
  cases hc with
  | start hs hcan hset =>
    have hurl := hset.rerouted
    obtain ⟨_, _, _, _, _, _, _, hd⟩ := hurl
    refine ⟨?_, rfl, rfl, rfl, by rw [hd], hset.fAllowMcc, hset.connectionType⟩
    simp only [Op.route, if_pos (And.intro hs hcan), hset.mccHost, hset.mccFallbackDue]
  | resume hs hall hset =>
    obtain ⟨_, _, _, _, _, _, _, hd⟩ := hset.rerouted
    refine ⟨?_, rfl, rfl, rfl, by rw [hd], hset.fAllowMcc, hset.connectionType⟩
    have hne : ¬ (w.dl.status.state = .created ∧ w.CanStart o) := fun h => by
      rw [hs] at h
      cases h.1
    simp only [Op.route, if_neg hne, if_pos (And.intro hs hall), hset.mccHost, hset.mccFallbackDue]
  | timer hv hw => exact ⟨by simp only [Op.route, if_pos (And.intro hv hw)], rfl, rfl, rfl, rfl, rfl, rfl⟩
  | retry hs ha => exact ⟨by simp only [Op.route, if_pos (And.intro hs ha)], rfl, rfl, rfl, rfl, rfl, rfl⟩

theorem Calls.op_of_retry {retry : Bool} {w₀ : World} (hc : Calls o w op retry w₀) (h : retry = true) :
    op = .retry := by
  cases hc with
  | retry => rfl
  | _ => cases h

/-- A request made before the fallback is due, as a retry with the cache host or anew, goes to the cache host. -/
theorem usesMcc_of_available {retry : Bool} (hdue : w.dl.mccFallbackDue = some due) (hlt : w.now < due)
    (hallow : w.dl.fAllowMcc = true) (hmcc : retry = true → w.dl.connectionType = .mcc)
    (havail : w.HostAvailable uri w.dl.mccHost) : nextConnectionType w.dl w.now retry = (.mcc, true) ∧
      w.chosenType uri retry = .mcc ∧ w.route uri retry =
      uri.swapUrlHostNameForMCC w.dl.url w.dl.mccHost := by
  have hnext : nextConnectionType w.dl w.now retry = (.mcc, true) := by
    cases retry with
    | false => simp [nextConnectionType, hallow]
    | true => simp [nextConnectionType, hdue, not_le.2 hlt, hmcc rfl, hallow]
  have huses : usesMcc uri w .mcc true = true := by
    simp [usesMcc, havail.1, havail.2]
  refine ⟨hnext, ?_, ?_⟩
  · rw [World.chosenType, hnext, if_pos huses]
  · rw [World.route, hnext, if_pos huses]

/-! ## Before the fallback is due -/

/-- A download that keeps to the cache host until the fallback is due. -/
structure Held (due : Int) (w : World) : Prop where
  mccFallbackDue : w.dl.mccFallbackDue = some due
  issued : w.requests ≠ []
  fAllowMcc : w.now < due → w.dl.fAllowMcc = true
  connectionType : w.now < due → w.dl.connectionType = .mcc

/-- Before its first request a download may use the cache host. -/
def Allowed (w : World) : Prop := w.requests = [] → w.dl.fAllowMcc = true

/-- What a task that makes no request leaves of the route. -/
structure SameRoute (w w' : World) : Prop where
  requests : w'.requests = w.requests
  now : w.now ≤ w'.now
  mccFallbackDue : w'.dl.mccFallbackDue = w.dl.mccFallbackDue
  fAllowMcc : w'.dl.fAllowMcc = w.dl.fAllowMcc
  connectionType : w'.dl.connectionType = w.dl.connectionType

theorem SameRoute.of_aside (h : Aside w w') : SameRoute w w' := by
  obtain ⟨agent, hdl⟩ := h.dl
  exact ⟨h.requests, h.now, by rw [hdl], by rw [hdl], by rw [hdl]⟩

theorem Held.same (h : Held due w) (hs : SameRoute w w') : Held due w' :=
  ⟨hs.mccFallbackDue.trans h.mccFallbackDue, by rw [hs.requests]; exact h.issued,
    fun hlt => hs.fAllowMcc.trans (h.fAllowMcc (lt_of_le_of_lt hs.now hlt)),
    fun hlt => hs.connectionType.trans (h.connectionType (lt_of_le_of_lt hs.now hlt))⟩

/-- A task makes a request, tries to, or leaves the route alone. -/
theorem Ran.route (hran : Ran uri o w op w') : SameRoute w w' ∨ ∃ retry decided w₀ d, Calls o w op retry w₀ ∧
    Routed uri retry decided w₀ d ∧ w'.now = w.now ∧ w'.dl.mccFallbackDue = d.mccFallbackDue ∧
    w'.dl.fAllowMcc = d.fAllowMcc ∧ w'.dl.connectionType = d.connectionType ∧
    (w'.requests = w.requests ∨ decided = true ∧ ∃ r, Asks uri retry w₀ r ∧ w'.requests = r :: w.requests ∧
      w'.dl.url = w.dl.url ∧ w'.dl.mccHost = w₀.dl.mccHost) := by
  cases hran with
  | @sendFailed _ retry decided w₀ d n terminated hc hd =>
    have hin := hc.calledIn
    exact .inr ⟨retry, decided, w₀, d, hc, hd, hin.now, rfl, rfl, rfl, .inl hin.requests⟩
  | @sent _ retry w₀ d r n hc hd hr =>
    have hin := hc.calledIn
    have hurl : d.url = w₀.dl.url := by
      obtain ⟨_, _, _, _, _, _, _, hdl⟩ := hd.rerouted
      rw [hdl]
    exact .inr ⟨retry, true, w₀, d, hc, hd, hin.now, rfl, rfl, rfl,
      .inr ⟨rfl, r, hr, rfl, hurl.trans hin.url, hd.mccHost⟩⟩
  | _ => exact .inl ⟨rfl, le_refl _, rfl, rfl, rfl⟩

/-- A task before the fallback is due: its request goes to the cache host when one is found,
and what comes of it leaves the route there. -/
theorem Ran.held (hran : Ran uri o w op w')
    (hfinds : ∀ route ∈ op.route w o, ∀ due ∈ route.2, w.now < due → w.HostAvailable uri route.1)
    (hdue : ∀ route ∈ op.route w o, route.2 = some due) (hallow : w.now < due → w.dl.fAllowMcc = true)
    (hmcc : op = .retry → w.now < due → w.dl.connectionType = .mcc) :
    SameRoute w w' ∨ w'.now = w.now ∧ w'.dl.mccFallbackDue = some due ∧
    (w.now < due → w'.dl.fAllowMcc = true) ∧
      (w'.requests = w.requests ∧
        (w.now < due → w'.dl.connectionType = .mcc ∨ w'.dl.connectionType = w.dl.connectionType) ∨
        ∃ r, w'.requests = r :: w.requests ∧ r.time = w.now ∧ (w.now < due → ToCacheHost uri w' r)) := by
  refine hran.route.imp_right ?_
  rintro ⟨retry, decided, w₀, d, hc, hd, hnow, hd₁, hd₂, hd₃, hreq⟩
  have hin := hc.calledIn
  have hdue₀ : w₀.dl.mccFallbackDue = some due := hdue _ hin.route
  have huses :
    w.now < due → nextConnectionType w₀.dl w₀.now retry = (.mcc, true) ∧ w₀.chosenType uri retry = .mcc ∧
      w₀.route uri retry = uri.swapUrlHostNameForMCC w₀.dl.url w₀.dl.mccHost := fun hlt => by
    have havail := hfinds _ hin.route due hdue₀ hlt
    refine usesMcc_of_available hdue₀ (hin.now ▸ hlt) (hin.fAllowMcc.trans (hallow hlt)) (fun hretry => ?_) ?_
    · exact hin.connectionType.trans (hmcc (hc.op_of_retry hretry) hlt)
    · rw [World.HostAvailable, hin.now, hin.mcc, hin.url]
      exact havail
  refine ⟨hnow, hd₁.trans (hd.mccFallbackDue.trans hdue₀), fun hlt => ?_, ?_⟩
  · rw [hd₂, hd.fAllowMcc, (huses hlt).1]
  · rcases hreq with hsame | ⟨rfl, r, hasks, hreq, hurl, hhost⟩
    · refine .inl ⟨hsame, fun hlt => ?_⟩
      rcases hd.connectionType with htype | ⟨-, htype⟩
      · exact .inl (hd₃.trans (htype.trans (huses hlt).2.1))
      · exact .inr (hd₃.trans (htype.trans hin.connectionType))
    · refine .inr ⟨r, hreq, hasks.time.trans hin.now, fun hlt => ?_⟩
      have htype := hd.connectionType.resolve_right fun h => nomatch h.1
      have havail := hfinds _ hin.route due hdue₀ hlt
      refine ⟨hd₃.trans (htype.trans (huses hlt).2.1), hhost ▸ havail.1, ?_⟩
      rw [hurl, hhost, ← hin.url, ← (huses hlt).2.2]
      exact hasks.url

/-- Once started a download keeps the due time of its fallback. -/
theorem route_due (hs : w.dl.status.state ≠ .created) {route : String × Option Int}
    (h : route ∈ op.route w o) :
    route.2 = w.dl.mccFallbackDue := by
  unfold Op.route at h
  split at h
  · rw [if_neg fun hc => hs hc.1] at h
    split at h
    · obtain rfl := Option.some.inj h
      rfl
    · cases h
  · split at h
    · obtain rfl := Option.some.inj h
      rfl
    · cases h
  · split at h
    · obtain rfl := Option.some.inj h
      rfl
    · cases h
  · cases h

/-- A step that issues a request before the fallback is due issues it to the cache host. -/
def HoldsTo (uri : UriLib) (due : Int) (w w' : World) : Prop :=
  w'.requests = w.requests ∨ ∃ r, w'.requests = r :: w.requests ∧ (r.time < due → ToCacheHost uri w' r)

theorem Held.step (h : Held due w) (hg : Good uri w) (hfinds : FindsCacheHost uri w e)
    (hstep : DoClient.step uri w e = some w') : Held due w' ∧ HoldsTo uri due w w' := by
  by_cases he : ∃ o, e = .run o
  case neg =>
    have hs := SameRoute.of_aside (step_aside hg hstep fun o ho => he ⟨o, ho⟩)
    exact ⟨h.same hs, .inl hs.requests⟩
  obtain ⟨o, rfl⟩ := he
  obtain ⟨task, q, w₁, replies, hpop, hop, hran, rfl⟩ := step_ran hg hstep
  have hdue : ∀ route ∈ task.op.route w o, route.2 = some due := fun route hroute =>
    (route_due (hg.ne_created h.issued) hroute).trans h.mccFallbackDue
  rcases hran.held (hfinds task.op hop) hdue h.fAllowMcc (fun _ => h.connectionType) with
    hs | ⟨hnow, hd, hallow, hreq⟩
  · exact ⟨h.same ⟨hs.requests, hs.now, hs.mccFallbackDue, hs.fAllowMcc, hs.connectionType⟩, .inl hs.requests⟩
  simp only at hnow hallow hreq
  have hkeeps : ∀ {P : Prop}, (w.now < due → P) → w₁.now < due → P := fun hP hlt => hP (hnow ▸ hlt)
  rcases hreq with ⟨hreq, htype⟩ | ⟨r, hreq, htime, hto⟩
  · refine ⟨⟨hd, hreq ▸ h.issued, hkeeps hallow, hkeeps fun hlt => ?_⟩, .inl hreq⟩
    exact (htype hlt).elim id fun hsame => hsame.trans (h.connectionType hlt)
  · refine ⟨⟨hd, ?_, hkeeps hallow, hkeeps fun hlt => (hto hlt).1⟩,
      .inr ⟨r, hreq, fun hlt => hto (htime ▸ hlt)⟩⟩
    show w₁.requests ≠ []
    rw [hreq]
    exact List.cons_ne_nil _ _

theorem Allowed.step (h : Allowed w) (hg : Good uri w) (hstep : DoClient.step uri w e = some w') :
    Allowed w' := by
  have hsame : ∀ {w w' : World}, Allowed w → SameRoute w w' → Allowed w' := fun h hs hnone =>
    hs.fAllowMcc.trans (h (hs.requests ▸ hnone))
  by_cases he : ∃ o, e = .run o
  case neg => exact hsame h (.of_aside (step_aside hg hstep fun o ho => he ⟨o, ho⟩))
  obtain ⟨o, rfl⟩ := he
  obtain ⟨task, q, w₁, replies, hpop, hop, hran, rfl⟩ := step_ran hg hstep
  rcases hran.route with hs | ⟨retry, decided, w₀, d, hc, hd, -, -, hallow, -, hreq | ⟨-, r, -, hreq, -⟩⟩
  · exact hsame h ⟨hs.requests, hs.now, hs.mccFallbackDue, hs.fAllowMcc, hs.connectionType⟩
  · intro hnone
    have hnone' : w.requests = [] := hreq.symm.trans hnone
    have hfresh : retry = false := by
      by_contra hne
      obtain ⟨due, -, hmem⟩ := TaskQueue.exists_of_pop hpop
      have hretry : task.op = .retry := hc.op_of_retry (by simpa using hne)
      exact hg.issued_of_own hmem (by rw [hretry]; rfl) hnone'
    show w₁.dl.fAllowMcc = true
    rw [hallow, hd.fAllowMcc, hfresh]
    exact hc.calledIn.fAllowMcc.trans (h hnone')
  · intro hnone
    rw [show w₁.requests = [] from hnone] at hreq
    cases hreq

theorem allowed_reachable (h : Trans.Reachable (agent uri) w) : Allowed w :=
  h.invariant_of (Good uri) (fun _ => good_reachable) Allowed
    (fun w hi _ => by
      obtain ⟨url, path, -, hdl⟩ := hi.download
      rw [hdl])
    fun w e w' hg _ ha _ hstep => ha.step hg hstep

/-- A start that succeeds with a fallback delay. -/
theorem held_of_start (hr : Trans.Reachable (agent uri) w) (hs : w.dl.status.state = .created)
    (hop : w.nextOp = some (.client .start)) (hdue : w.fallbackDue o = some due)
    (hfinds : FindsCacheHost uri w (.run o)) (hstep : DoClient.step uri w (.run o) = some w')
    (hstarted : w'.dl.status.state = .transferring) : Held due w' ∧ HoldsTo uri due w w' := by
  have hg := good_reachable hr
  have hnone : w.requests = [] := (hg.created hs).1
  have hallowed : w.dl.fAllowMcc = true := allowed_reachable hr hnone
  have hissued : w'.requests ≠ w.requests := fun heq =>
    (good_reachable (reachable_step hr hstep)).issued (by simp [hstarted]) (by simp [hstarted])
      (heq.trans hnone)
  obtain ⟨task, q, w₁, replies, hpop, hop', hran, rfl⟩ := step_ran hg hstep
  have htask : task.op = .client .start := Option.some.inj (hop'.symm.trans hop)
  have hroute : ∀ route ∈ task.op.route w o, route.2 = some due := fun route hroute => by
    simp only [htask, Op.route, hs, true_and] at hroute
    split at hroute
    · obtain rfl := Option.some.inj hroute
      exact hdue
    · simp at hroute
  rcases hran.held (hfinds task.op hop') hroute (fun _ => hallowed) (fun h => by
      rw [htask] at h
      cases h) with hsame | ⟨hnow, hd, hallow, ⟨hreq, -⟩ | ⟨r, hreq, htime, hto⟩⟩
  · exact absurd hsame.requests hissued
  · exact absurd hreq hissued
  simp only at hnow htime
  refine ⟨⟨hd, ?_, fun hlt => hallow (hnow ▸ hlt), fun hlt => (hto (hnow ▸ hlt)).1⟩,
    .inr ⟨r, hreq, fun hlt => hto (htime ▸ hlt)⟩⟩
  show w₁.requests ≠ []
  rw [hreq]
  exact List.cons_ne_nil _ _

/-- **No early fallback**: in a run of a download started with a fallback delay, whose
requests before the fallback is due all find a cache host that is not banned, each of them
goes to the cache host. Without a fallback (-1) it is due at the last time point there is. -/
theorem no_early_fallback {w₀ w₁ : World} {D : Int} {ms : List (Trans.Move World Event)}
    (hr : Trans.Reachable (agent uri) w₀) (hs : w₀.dl.status.state = .created)
    (hop : w₀.nextOp = some (.client .start)) (hstep : step uri w₀ (.run o) = some w₁)
    (hstarted : w₁.dl.status.state = .transferring) (hD : o.fallbackDelay = some D)
    (hp : Trans.Path (agent uri) w₁ ms w)
    (hC : ∀ m ∈ ⟨w₀, .run o, w₁⟩ :: ms, FindsCacheHost uri m.src m.ev) :
    ∀ m ∈ ⟨w₀, .run o, w₁⟩ :: ms,
      HoldsTo uri (if D = -1 then timePointMax else w₀.now + seconds D) m.src m.dst := by
  have hdue : w₀.fallbackDue o = some (if D = -1 then timePointMax else w₀.now + seconds D) := by
    rw [World.fallbackDue, hD]
  simp only [List.forall_mem_cons] at hC ⊢
  obtain ⟨hheld, hfirst⟩ := held_of_start hr hs hop hdue hC.1 hstep hstarted
  refine ⟨hfirst, ?_⟩
  exact (hp.keeps_moves (Held _) (fun w _ w' => HoldsTo uri _ w w')
    (fun w e w' hr h hC hstep => h.step (good_reachable hr) hC hstep) (reachable_step hr hstep) hheld hC.2).2

/-- A request to the cache host that fails with a status 500, and its retry. -/
def cacheRetryRun : List Event :=
  [.drain, .curl (.status 500), .curl (.complete 0 0), .run {}, .tick 2000000000, .run {}]

theorem no_early_fallback_retried :
    ∃ w₀ w₁ w ms, Trans.Path (agent plainUri) w₁ ms w ∧ w.requests.length = 2 ∧
    ∀ m ∈ ⟨w₀, .run { mccHost := "cache", fallbackDelay := some 100 }, w₁⟩ :: ms,
      HoldsTo plainUri (if (100 : Int) = -1 then timePointMax else w₀.now + seconds 100) m.src m.dst := by
  have hrun : (((agent plainUri).runFrom newDownload [.request .start]).bind fun w₀ =>
      (step plainUri w₀ (.run { mccHost := "cache", fallbackDelay := some 100 })).bind fun w₁ =>
      (((agent plainUri).restrict (FindsCacheHost plainUri)).runFrom w₁ cacheRetryRun).map fun w =>
        (w₀.dl.status.state, w₀.nextOp, w₁.dl.status.state, w.requests.length,
          decide (FindsCacheHost plainUri w₀ (.run { mccHost := "cache", fallbackDelay := some 100 })))) =
      some (.created, some (.client .start), .transferring, 2, true) := by decide +kernel
  obtain ⟨w₀, hw₀, hrun⟩ := Option.bind_eq_some_iff.1 hrun
  obtain ⟨w₁, hstep, hrun⟩ := Option.bind_eq_some_iff.1 hrun
  obtain ⟨w, hw, hstates⟩ := Option.map_eq_some_iff.1 hrun
  simp only [Prod.mk.injEq, decide_eq_true_eq] at hstates
  obtain ⟨hs, hop, hstarted, hlength, hfinds⟩ := hstates
  obtain ⟨hp, hC⟩ := (Trans.path_moves hw).of_restrict
  exact ⟨w₀, w₁, w, _, hp, hlength,
    no_early_fallback (Trans.reachable_of_runFrom reachable_newDownload hw₀) hs hop hstep
    hstarted rfl hp (List.forall_mem_cons.2 ⟨hfinds, hC⟩)⟩

/-- A cache host that cannot be reached, up to the retry. -/
def unreachableRun : List Event := [.drain, .curl (.complete 7 0), .run {}, .tick 2000000000]

/-- The failure bans the cache host, and the retry goes to the original one though there is no fallback. -/
theorem fallback_when_banned : ¬ ∀ uri w₀ w₁ w o D ms, Trans.Reachable (agent uri) w₀ →
    w₀.dl.status.state = .created → w₀.nextOp = some (.client .start) → step uri w₀ (.run o) = some w₁ →
    w₁.dl.status.state = .transferring → o.fallbackDelay = some D → o.mccHost.isEmpty = false →
    Trans.Path (agent uri) w₁ ms w → ∀ m ∈ ⟨w₀, .run o, w₁⟩ :: ms,
      HoldsTo uri (if D = -1 then timePointMax else w₀.now + seconds D) m.src m.dst := by
  intro hall
  have hrun : (((agent plainUri).runFrom newDownload [.request .start]).bind fun w₀ =>
      (step plainUri w₀ (.run { mccHost := "cache", fallbackDelay := some (-1) })).bind fun w₁ =>
      ((agent plainUri).runFrom w₁ unreachableRun).bind fun w => (step plainUri w (.run {})).map fun w' =>
        ((w₀.dl.status.state, w₀.nextOp, w₁.dl.status.state), w.requests.length, w'.dl.connectionType,
          w'.requests.map (·.time))) =
      some ((.created, some (.client .start), .transferring), 1, .cdn, [2000000000, 0]) := by decide +kernel
  obtain ⟨w₀, hw₀, hrun⟩ := Option.bind_eq_some_iff.1 hrun
  obtain ⟨w₁, hstep, hrun⟩ := Option.bind_eq_some_iff.1 hrun
  obtain ⟨w, hw, hrun⟩ := Option.bind_eq_some_iff.1 hrun
  obtain ⟨w', (hretry : (agent plainUri).step w (.run {}) = some w'), hstates⟩ :=
    Option.map_eq_some_iff.1 hrun
  simp only [Prod.mk.injEq] at hstates
  obtain ⟨⟨hs, hop, hstarted⟩, hlength, htype, htimes⟩ := hstates
  have hp : Trans.Path (agent plainUri) w₁ _ w' := (Trans.path_moves hw).snoc hretry
  have hholds :=
    hall _ _ _ _ _ _ _ (Trans.reachable_of_runFrom reachable_newDownload hw₀) hs hop hstep hstarted rfl rfl hp
    ⟨w, .run {}, w'⟩ (by simp)
  rcases hholds with hsame | ⟨r, hreq, hto⟩
  · have hlength' := congrArg List.length htimes
    simp only [List.length_map, List.length_cons, List.length_nil] at hlength'
    simp only at hsame
    rw [hsame] at hlength'
    omega
  · have htime : r.time = 2000000000 := by
      simp only at hreq
      rw [hreq] at htimes
      exact (List.cons.inj htimes).1
    have hearly : r.time < (if (-1 : Int) = -1 then timePointMax else w₀.now + seconds (-1)) := by
      rw [htime, if_pos rfl]
      decide
    have hmcc := (hto hearly).1
    simp only [htype] at hmcc
    cases hmcc

end DoClient
