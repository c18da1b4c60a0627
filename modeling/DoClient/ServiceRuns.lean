/-
What holds of the service in every run, in the words of its users: whose the files are,
that nothing dangles, that no call and no download is lost, that an idle service stays
idle, and that what has ended is not found again.
-/
import DoClient.Lifetimes
import DoClient.Watchdog

namespace DoClient

open HResult

variable {uri : UriLib} {s s' s₀ : Service} {k j : Nat} {d d' : DownloadObject} {e : ServiceEvent}

/-! ## Two downloads to replay runs of -/

def guidA : GUID := ⟨1, 0, 0, .replicate 8 0⟩

def guidB : GUID := ⟨2, 0, 0, .replicate 8 0⟩

/-- Two downloads are created and started. -/
def twoStarted : List ServiceEvent := [
  .create guidA "http://origin/a" "/a", .create guidB "http://origin/b" "/b",
  .call (guidToString guidA) (.download .start), .call (guidToString guidB) (.download .start),
    .sched 1, .sched 0,
  .run {}, .run {}]

/-- No download yet, and a file. -/
def emptyService : Service := { fs := fun p => if p = "/c" then some [7] else none }

/-- A download is created and aborted, and its last reference dropped. -/
def oneAborted : List ServiceEvent := [
  .create guidA "http://origin/a" "/a", .call (guidToString guidA) (.download .abort), .sched 0,
    .run {}, .wake 0,
  .leave 0]

theorem runs_of_replay {es : List ServiceEvent}
    (h : ((service plainUri).restrict Service.Allows).runFrom emptyService es = some s) :
    Service.Runs plainUri s :=
  Trans.reachableBy_of_runFrom (.init ⟨0, _, rfl⟩) h

theorem replay_twoStarted : ∃ s c d, Service.Runs plainUri s ∧ s.objects 0 = some c ∧ s.objects 1 = some d ∧
    c.dl.fileStream = some "/a" ∧ d.dl.fileStream = some "/b" ∧ c.dl.status.state = .transferring ∧
    s.terminated = false := by
  have hrun : ((((service plainUri).restrict Service.Allows).runFrom emptyService twoStarted).bind fun s =>
      (s.objects 0).bind fun c => (s.objects 1).map fun d =>
        (c.dl.fileStream, d.dl.fileStream, c.dl.status.state, s.terminated)) =
      some (some "/a", some "/b", .transferring, false) := by decide +kernel
  obtain ⟨s, hs, hrest⟩ := Option.bind_eq_some_iff.1 hrun
  obtain ⟨c, hc, hrest⟩ := Option.bind_eq_some_iff.1 hrest
  obtain ⟨d, hd, heq⟩ := Option.map_eq_some_iff.1 hrest
  simp only [Prod.mk.injEq] at heq
  exact ⟨s, c, d, runs_of_replay hs, hc, hd, heq⟩

/-! ## Downloads -/

/-- **Each download goes its way as if it were alone**: whatever its clients, the other downloads and
theirs do, and in whatever order, a run of its own reaches the state it is in. -/
theorem runs_alone (h : Service.Runs uri s) (hk : s.objects k = some d) :
    ∃ w, Trans.ReachableBy (agent uri) Unhindered w ∧ Alone s k d w := (sound_of_runs h).apart.alone k d hk

theorem runs_alone_started :
    ∃ (s : Service) (d : DownloadObject), s.objects 0 = some d ∧ d.dl.fileStream = some "/a" ∧
    ∃ w, Trans.ReachableBy (agent plainUri) Unhindered w ∧ Alone s 0 d w := by
  obtain ⟨s, c, -, hs, hc, -, hopen, -⟩ := replay_twoStarted
  exact ⟨s, c, hc, hopen, runs_alone hs hc⟩

/-- A download with an open file has made it. -/
theorem Service.AsIfAlone.owns (h : s.AsIfAlone uri k d) {p : String} (hopen : d.dl.fileStream = some p) :
    p = d.dl.destFilePath ∧ d.dl.OwnsFile := by
  obtain ⟨w, hw, halone⟩ := h
  obtain ⟨hpath, hmade⟩ := halone.stream p hopen
  refine ⟨hpath, hmade, ?_⟩
  by_contra hne
  have hclosed := (settled_of_unhindered hw).closed (by rw [halone.dl]; simpa using hne)
  rw [halone.dl, hopen] at hclosed
  cases hclosed

/-- **A file has one writer**: what a download writes to is there, and open for nobody else. -/
theorem one_writer (h : Service.Runs uri s) (hk : s.objects k = some d) {p : String}
    (hopen : d.dl.fileStream = some p) :
    s.fs p ≠ none ∧ ∀ j c, s.objects j = some c → c.dl.fileStream = some p → j = k := by
  have happart := (sound_of_runs h).apart
  obtain ⟨rfl, howns⟩ := (happart.alone k d hk).owns hopen
  refine ⟨(happart.alone k d hk).hasFile howns, fun j c hj hjopen => ?_⟩
  obtain ⟨hpath, hjowns⟩ := (happart.alone j c hj).owns hjopen
  exact happart.owners j k c d hj hk hjowns howns hpath.symm

theorem one_writer_started :
    ∃ (s : Service) (d : DownloadObject), s.objects 1 = some d ∧ d.dl.fileStream = some "/b" ∧
    s.fs "/b" ≠ none ∧ ∀ j c, s.objects j = some c → c.dl.fileStream = some "/b" → j = 1 := by
  obtain ⟨s, -, d, hs, -, hd, -, hopen, -⟩ := replay_twoStarted
  exact ⟨s, d, hd, hopen, one_writer hs hd hopen⟩

/-- The tag of a queued task tells whose it is. -/
theorem Service.Queued.tag_iff {t : Task ServiceOp ServiceTag} (h : s.Queued t) {tag : Tag} :
    t.tag = some (.object k tag) ↔ ∃ op, t.op.of k = some op ∧ op.tag = some tag := by
  cases h with
  | @lambda i op hi =>
    by_cases hik : i = k
    · simp [ServiceOp.lambdaTask, ServiceOp.of, hik]
    · simp [ServiceOp.lambdaTask, ServiceOp.of, hik]
  | @call c call hc hw =>
    cases hr : call.request with
    | download r =>
      by_cases hik : call.key = k
      · simp [ServiceOp.of, hik, Op.tag]
      · simp [ServiceOp.of, hik]
    | getProperty key => simp [ServiceOp.of]
  | refreshAdminConfigs => simp [ServiceOp.of]

/-- The download's tasks of a tag are as many as when it is alone. -/
theorem countTag_alone (h : s.Sound uri) {w : World} (ha : Alone s k d w) (tag : Tag) :
    s.taskQ.countTag (.object k tag) = w.taskQ.countTag tag := by
  have hown :
    s.taskQ.countTag (.object k tag) = ((s.taskQ.own k).map (·.2)).countP fun t => t.tag == some tag := by
    rw [ServiceQueue.own, List.countP_map, List.countP_filterMap, TaskQueue.countTag]
    refine List.countP_congr fun e he => ?_
    have hqueued := h.scheduled.queue e.2 (List.mem_map_of_mem he)
    simp only [beq_iff_eq, hqueued.tag_iff]
    cases hof : e.2.op.of k <;> simp
  rw [hown, Multimap.values_of_near ha.tasks, List.countP_map]
  rfl

theorem watched_reachable {w : World} (hr : Trans.Reachable (agent uri) w) (ht : w.terminated = false) :
    Watched w := by
  refine hr.invariant_of (Good uri) (fun _ => good_reachable) (fun w => w.terminated = false → Watched w)
    (fun _ hi _ => watched_initial hi) (fun w e w' hg _ hw _ hstep ht => ?_) ht
  exact (hw (step_leads hg hstep).1).step hg hstep ht

/-- **A download at work is watched**, in the queue all share: it has one progress check there, or
is about to be completed, and never two. -/
theorem each_is_watched (h : Service.Runs uri s) (hlive : s.terminated = false) (hk : s.objects k = some d) :
    s.taskQ.countTag (.object k .progressTracker) ≤ 1 ∧ (d.dl.status.state = .transferring →
      s.taskQ.countTag (.object k .progressTracker) = 1 ∨
        ServiceOp.lambdaTask k ⟨.alreadyTransferred, rfl⟩ ∈ s.taskQ.tasks) := by
  have hsound := sound_of_runs h
  obtain ⟨w, hw, halone⟩ := hsound.apart.alone k d hk
  obtain ⟨hsingle, hwatched⟩ := watched_reachable hw.reachable (halone.live hlive)
  rw [halone.dl] at hwatched
  rw [countTag_alone hsound halone]
  refine ⟨hsingle, fun hs => (hwatched hs).imp_right fun hpos => ?_⟩
  have hpos : 0 < s.taskQ.shortcutsOf k := halone.shortcuts ▸ hpos
  obtain ⟨e, he, hop⟩ := List.countP_pos_iff.1 hpos
  have ht : e.2 ∈ s.taskQ.tasks := List.mem_map_of_mem he
  have hqueued := hsound.scheduled.queue e.2 ht
  generalize e.2 = t at ht hop hqueued
  rw [Bool.and_eq_true] at hop
  cases hqueued with
  | @lambda i op hi =>
    obtain rfl : i = k := by simpa [ServiceOp.lambdaTask, ServiceOp.isLambdaOf] using hop.1
    obtain rfl : op = ⟨.alreadyTransferred, rfl⟩ :=
      Subtype.ext (by simpa [ServiceOp.lambdaTask, ServiceOp.isShortcut] using hop.2)
    exact ht
  | call | refreshAdminConfigs => cases hop.1

theorem each_is_watched_started : ∃ (s : Service) (d : DownloadObject), s.objects 0 = some d ∧
    d.dl.status.state = .transferring ∧ s.taskQ.countTag (.object 0 .progressTracker) ≤ 1 ∧
    (d.dl.status.state = .transferring → s.taskQ.countTag (.object 0 .progressTracker) = 1 ∨
      ServiceOp.lambdaTask 0 ⟨.alreadyTransferred, rfl⟩ ∈ s.taskQ.tasks) := by
  obtain ⟨s, c, -, hs, hc, -, -, -, hstate, hlive⟩ := replay_twoStarted
  exact ⟨s, c, hc, hstate, each_is_watched hs hlive hc⟩

/-! ## Files -/

/-- What a step does to the files: nothing, or what one download does. -/
inductive Touches (uri : UriLib) (s s' : Service) : Prop
  | nothing : s'.fs = s.fs → (∀ j d', s'.objects j = some d' → d'.dl.OwnsFile →
      ∃ d, s.objects j = some d ∧ d.dl.OwnsFile ∧ d'.dl.destFilePath = d.dl.destFilePath) → Touches uri s s'
  | acts {k : Nat} {d d' : DownloadObject} {q : ServiceQueue} : s.objects k = some d →
      Acts uri { s with taskQ := q } s' k d d' → Touches uri s s'

/-- Nobody has made the file at `p` who is not gone. -/
def Service.Free (s : Service) (p : String) : Prop :=
  ∀ k d, s.objects k = some d → d.dl.OwnsFile → d.dl.destFilePath ≠ p

theorem Touches.free (h : Touches uri s s') {p : String} (hthere : s.fs p ≠ none) (hfree : s.Free p) :
    s'.fs p = s.fs p ∧ s'.Free p := by
  cases h with
  | nothing hfs hback =>
    refine ⟨by rw [hfs], fun j d' hj howns hpath => ?_⟩
    obtain ⟨d, hd, howns, hsame⟩ := hback j d' hj howns
    exact hfree j d hd howns (hsame.symm.trans hpath)
  | @acts k d d' q hk ha =>
    refine ⟨?_, fun j c hj howns hpath => ?_⟩
    · by_contra hne
      obtain ⟨hpath, hgone, hmade | hnone⟩ := ha.writes p hne
      · exact hfree k d hk ⟨hmade, hgone⟩ hpath.symm
      · exact hthere hnone
    · rw [ha.objects] at hj
      by_cases hjk : j = k
      · subst hjk
        rw [Function.update_self] at hj
        obtain rfl := Option.some.inj hj
        obtain ⟨hsame, hd | hnone⟩ := ha.owns howns
        · exact hfree j d hk hd (hsame.symm.trans hpath)
        · rw [← hsame, hpath] at hnone
          exact hthere hnone
      · rw [Function.update_of_ne hjk] at hj
        exact hfree j c hj howns hpath

/-- Who was there is as it was. -/
theorem touches_nothing (hfs : s'.fs = s.fs) (hobjects : s'.objects = s.objects) : Touches uri s s' :=
  .nothing hfs fun _ d hj howns => ⟨d, hobjects ▸ hj, howns, rfl⟩

/-- A record changes in what has nothing to do with files, or goes. -/
theorem touches_update {x : Option DownloadObject} (hfs : s'.fs = s.fs)
    (hobjects : s'.objects = Function.update s.objects k x)
    (hx : ∀ d', x = some d' → d'.dl.OwnsFile → ∃ d, s.objects k = some d ∧ d'.dl = d.dl) :
    Touches uri s s' := by
  refine .nothing hfs fun j c hj howns => ?_
  rw [hobjects] at hj
  by_cases hjk : j = k
  · subst hjk
    rw [Function.update_self] at hj
    obtain ⟨d, hd, hdl⟩ := hx c hj howns
    exact ⟨d, hd, hdl ▸ howns, by rw [hdl]⟩
  · rw [Function.update_of_ne hjk] at hj
    exact ⟨c, hj, howns, rfl⟩

/-- **What the task thread does**: an operation is nobody's, or one download acts. -/
theorem Service.Sound.run_cases (h : s.Sound uri) (hlive : s.terminated = false) {o : Outside}
    {t : Task ServiceOp ServiceTag} {q : ServiceQueue} (hpop : s.taskQ.popNextReady s.now = some (t, q))
    (hallowed : s.Allows (.run o)) {s' : Service}
    (hrun : Service.runTask { s with taskQ := q } uri o t.op = s') :
    (s'.taskQ = q ∧ s'.now = s.now ∧ s'.fs = s.fs ∧ s'.objects = s.objects) ∨
      ∃ k d d', s.objects k = some d ∧ Acts uri { s with taskQ := q } s' k d d' ∧
        s'.taskQ.shortcutsOf k ≤ q.shortcutsOf k + if t.op.isShortcut then 0 else 1 := by
  have hqueued := h.scheduled.queue t (by rw [TaskQueue.tasks_popNextReady hpop]; exact List.mem_cons_self)
  cases hqueued with
  | @lambda k op hk =>
    obtain ⟨d, hd⟩ := Option.isSome_iff_exists.1 hk
    have hof : (ServiceOp.lambdaTask k op).op.of k = some op.1 := by simp [ServiceOp.lambdaTask, ServiceOp.of]
    obtain ⟨-, hacts, hle⟩ := h.runs hlive hpop hallowed hd hof
    have hstart : op.1 ≠ .client .start := fun hop => by
      have hown := op.2
      rw [hop] at hown
      cases hown
    rw [if_neg hstart] at hle
    rw [← hrun, show Service.runTask { s with taskQ := q } uri o (ServiceOp.lambdaTask k op).op =
        ({ s with taskQ := q } : Service).putBack k d
          (DoClient.runTask uri o op.1 (({ s with taskQ := q } : Service).view k d)) by
      simp [Service.runTask, ServiceOp.lambdaTask, hd]]
    exact .inr ⟨k, d, _, hd, hacts, hle.trans (Nat.le_add_right _ _)⟩
  | @call c call hc hw =>
    obtain ⟨-, d, hd, -⟩ := h.listed.calls c call hc
    cases hr : call.request with
    | getProperty key =>
      rw [hr, show Service.runTask { s with taskQ := q } uri o (.call c call.key (.getProperty key)) =
          ({ s with taskQ := q } : Service).setRan c (.ok (.property (d.dl.getProperty d.id key))) by
        simp [Service.runTask, hd]] at hrun
      exact .inl (hrun ▸ ⟨rfl, rfl, rfl, rfl⟩)
    | download r =>
      rw [hr] at hpop hrun
      have hof : (ServiceOp.call c call.key (.download r)).of call.key = some (.client r) := by
        simp [ServiceOp.of]
      obtain ⟨-, hacts, hle⟩ := h.runs hlive hpop hallowed hd hof
      obtain ⟨result, hput⟩ : ∃ result,
          Service.runTask { s with taskQ := q } uri o (.call c call.key (.download r)) =
          (({ s with taskQ := q } : Service).putBack call.key d
            (DoClient.runTask uri o (.client r) (({ s with taskQ := q } : Service).view call.key d))).setRan c
              result := by
        simp [Service.runTask, hd]
      rw [← hrun, hput]
      obtain ⟨hnow, hmcc, hqueue, hobjects, hwrites, howns, hgone, hscheduled, hwaiting, hplaces⟩ := hacts
      refine .inr ⟨call.key, d, _, hd,
        ⟨hnow, hmcc, hqueue, hobjects, hwrites, howns, hgone, hscheduled, hwaiting, hplaces⟩, ?_⟩
      refine le_trans hle ?_
      simp only [ServiceOp.isShortcut]
      split <;> simp
  | refreshAdminConfigs => exact .inl (hrun ▸ ⟨rfl, rfl, rfl, rfl⟩)

theorem touches_run (h : s.Sound uri) (hlive : s.terminated = false) {o : Outside}
    {t : Task ServiceOp ServiceTag} {q : ServiceQueue} (hpop : s.taskQ.popNextReady s.now = some (t, q))
    (hallowed : s.Allows (.run o)) :
    Touches uri s (Service.runTask { s with taskQ := q } uri o t.op) := by
  rcases h.run_cases hlive hpop hallowed rfl with ⟨-, -, hfs, hobjects⟩ | ⟨k, d, d', hd, hacts, -⟩
  · exact touches_nothing hfs hobjects
  · exact .acts hd hacts

theorem touches_of_step (h : s.Sound uri) (hallowed : s.Allows e) (hstep : (service uri).step s e = some s') :
    Touches uri s s' := by
  obtain ⟨hlive, hsteps⟩ := steps_of_step hstep
  cases hsteps with
  | tick | isIdle | refreshAdminConfigs | sched | wake => exact touches_nothing rfl rfl
  | create =>
    simp only [Service.createDownload]
    split
    · exact touches_nothing rfl rfl
    split
    · exact touches_nothing rfl rfl
    split
    · exact touches_nothing rfl rfl
    · refine touches_update rfl rfl fun d' hd' howns => ?_
      obtain rfl := Option.some.inj hd'
      exact absurd howns.1 Bool.noConfusion
  | call =>
    unfold Service.beginCall
    split
    · exact touches_nothing rfl rfl
    · exact touches_nothing rfl rfl
  | run hpop => exact touches_run h hlive hpop hallowed
  | leave =>
    unfold Service.endCall Service.release
    split
    · exact touches_nothing rfl rfl
    · refine touches_update rfl rfl fun d' hd' howns => ?_
      obtain ⟨d, hd, rfl⟩ := Option.map_eq_some_iff.1 hd'
      exact ⟨d, hd, rfl⟩
  | destroyed => exact touches_update rfl rfl fun d' hd' => by cases hd'
  | @drain k d hk =>
    refine touches_update rfl rfl fun d' hd' howns => ?_
    obtain rfl := Option.some.inj hd'
    exact ⟨d, hk, rfl⟩
  | curl hk hv => exact .acts (q := s.taskQ) hk ((h.apart.alone _ _ hk).curlEvent hlive hv).2.1

/-- **What was there stays as it was**: a file that no download has made, or only one that is gone by
now, is never written to and never removed, however the run goes on. -/
theorem prior_file_kept (h : Service.Runs uri s₀) {p : String} (hthere : s₀.fs p ≠ none) (hfree : s₀.Free p)
    {ms : List (Trans.Move Service ServiceEvent)} (hp : Trans.Path (service uri) s₀ ms s)
    (hallowed : ∀ m ∈ ms, m.src.Allows m.ev) : s.fs p = s₀.fs p := by
  refine (hp.keeps (fun s => s.Sound uri ∧ s.fs p = s₀.fs p ∧ s.Free p)
    (fun s e s' _ hs ha hstep => ?_) h.reachable
    ⟨sound_of_runs h, rfl, hfree⟩ hallowed).1.2.1
  obtain ⟨hsound, hsame, hfree⟩ := hs
  obtain ⟨hkept, hfree'⟩ := (touches_of_step hsound ha hstep).free (hsame ▸ hthere) hfree
  exact ⟨hsound.step ha hstep, hkept.trans hsame, hfree'⟩

theorem prior_file_kept_started : ∃ (s : Service) (ms : List (Trans.Move Service ServiceEvent)),
    ms.map (·.ev) = twoStarted ∧ Trans.Path (service plainUri) emptyService ms s ∧
      s.fs "/c" = emptyService.fs "/c" := by
  have hrun :
    (((service plainUri).restrict Service.Allows).runFrom emptyService twoStarted).isSome = true := by
    decide +kernel
  obtain ⟨s, hs⟩ := Option.isSome_iff_exists.1 hrun
  obtain ⟨ms, hp, hms⟩ := Trans.path_of_runFrom hs
  obtain ⟨hp, hallowed⟩ := hp.of_restrict
  have hfree : emptyService.Free "/c" := fun k d hk => absurd hk.symm (Option.some_ne_none d)
  exact ⟨s, ms, hms, hp, prior_file_kept (.init ⟨0, _, rfl⟩) (by decide) hfree hp hallowed⟩

/-! ## References -/

/-- What an operation of the queue needs when it runs. -/
def Service.Finds (s : Service) : ServiceOp → Prop
  | .lambda k _ => ∃ d, s.objects k = some d ∧ d.dying = false ∧ d.dl.status.state.gone = false
  | .call c k request => (∃ d, s.objects k = some d ∧ d.dying = false) ∧
      ∃ call, s.calls c = some call ∧ call.key = k ∧ call.request = request ∧ call.state = .waiting
  | .refreshAdminConfigs => True

/-- **Nothing dangles**: what is queued finds its download there, with its destructor not begun, and
the call that waits for it. -/
theorem nothing_dangles (h : Service.Runs uri s) :
    s.dangling = false ∧ ∀ t ∈ s.taskQ.tasks, s.Finds t.op := by
  have hsound := sound_of_runs h
  refine ⟨hsound.scheduled.dangling, fun t ht => ?_⟩
  have hqueued := hsound.scheduled.queue t ht
  cases hqueued with
  | @lambda k op hk =>
    obtain ⟨d, hd⟩ := Option.isSome_iff_exists.1 hk
    have hactive : d.dl.status.state.gone = false := by
      by_contra hne
      have hidle := (hsound.apart.alone k d hd).idle (by simpa using hne) _ ht
      simp [ServiceOp.lambdaTask, ServiceOp.isLambdaOf] at hidle
    refine ⟨d, hd, ((hsound.listed.unlisted k d hd).resolve_left ?_).1, hactive⟩
    simp [hactive]
  | @call c call hc hw =>
    obtain ⟨-, d, hd, hlive, -⟩ := hsound.listed.calls c call hc
    exact ⟨⟨d, hd, hlive⟩, call, hc, rfl, rfl, hw⟩
  | refreshAdminConfigs => trivial

theorem nothing_dangles_started : ∃ s : Service, (s.objects 0).isSome = true ∧
    s.dangling = false ∧ ∀ t ∈ s.taskQ.tasks, s.Finds t.op := by
  obtain ⟨s, c, -, hs, hc, -⟩ := replay_twoStarted
  exact ⟨s, by simp [hc], nothing_dangles hs⟩

/-- **No call is lost or run twice**: a call that waits has its operation in the queue, once, and one
that does not wait has none. -/
theorem each_call_queued_once (h : Service.Runs uri s) (c : Nat) :
    (∀ call, s.calls c = some call → call.state = .waiting → s.taskQ.countCall c = 1) ∧
    ((∀ call, s.calls c = some call → call.state ≠ .waiting) → s.taskQ.countCall c = 0) :=
  ⟨(sound_of_runs h).scheduled.waiting c, (sound_of_runs h).scheduled.countCall_of_not_waiting⟩

/-- Two calls that wait, before either is run. -/
theorem each_call_queued_once_started : ∃ (s : Service) (call : Call), s.calls 0 = some call ∧
    call.state = .waiting ∧ s.taskQ.countCall 0 = 1 := by
  have hrun : ((((service plainUri).restrict Service.Allows).runFrom emptyService (twoStarted.take 6)).bind
      fun s => (s.calls 0).map fun call => decide (call.state = .waiting)) = some true := by decide +kernel
  obtain ⟨s, hs, hrest⟩ := Option.bind_eq_some_iff.1 hrun
  obtain ⟨call, hcall, hwaits⟩ := Option.map_eq_some_iff.1 hrest
  have hstate := of_decide_eq_true hwaits
  exact ⟨s, call, hcall, hstate, (each_call_queued_once (runs_of_replay hs) 0).1 call hcall hstate⟩

/-- **No active download is lost**: a download that is neither finalized nor aborted is found under its
id, and nobody else is. -/
theorem active_is_found (h : Service.Runs uri s) (hk : s.objects k = some d)
    (hactive : d.dl.status.state.gone = false) :
    s.getDownload (guidToString d.id) = .ok k ∧ d.dying = false := by
  have hlisted := (sound_of_runs h).listed
  obtain ⟨hlive, hmem⟩ := (hlisted.unlisted k d hk).resolve_left (by simp [hactive])
  refine ⟨?_, hlive⟩
  have hsome : (s.find (guidToString d.id)).isSome = true := by
    rw [Service.find, Option.isSome_map, List.find?_isSome]
    exact ⟨_, hmem, by simp⟩
  obtain ⟨i, hfind⟩ := Option.isSome_iff_exists.1 hsome
  obtain ⟨c, hc, -, hid⟩ := hlisted.listed _ (find_some hfind)
  obtain rfl := hlisted.ids i k c d hc hk hid
  simp [Service.getDownload, hfind]

theorem active_is_found_started : ∃ (s : Service) (d : DownloadObject), s.objects 0 = some d ∧
    s.getDownload (guidToString d.id) = .ok 0 ∧ d.dying = false := by
  obtain ⟨s, c, -, hs, hc, -, -, -, hstate, -⟩ := replay_twoStarted
  exact ⟨s, c, hc, active_is_found hs hc (by rw [hstate]; rfl)⟩

/-- Nothing of the download is under way. -/
structure DownloadObject.Quiet (s : Service) (k : Nat) (d : DownloadObject) : Prop where
  gone : d.dl.status.state.gone = true
  noTransfer : d.curl.outstanding = false
  closed : d.dl.fileStream = none
  noLambda : ∀ op, ServiceOp.lambdaTask k op ∉ s.taskQ.tasks

theorem quiet_of_gone (h : s.Sound uri) (hk : s.objects k = some d) (hgone : d.dl.status.state.gone = true) :
    d.Quiet s k := by
  obtain ⟨w, hw, halone⟩ := h.apart.alone k d hk
  have hsettled := settled_of_unhindered hw
  have hgone' : w.dl.status.state.gone = true := by rw [halone.dl]; exact hgone
  have hcurl : w.curl = d.curl := by rw [halone.same]; rfl
  refine ⟨hgone, ?_, ?_, fun op hop => ?_⟩
  · have hout := (hsettled.ended hgone').outstanding
    rw [← hcurl]
    exact hout
  · rw [← halone.dl]
    exact hsettled.closed hgone'
  · have hidle := (h.apart.alone k d hk).idle hgone _ hop
    simp [ServiceOp.lambdaTask, ServiceOp.isLambdaOf] at hidle

/-- **A destructor finds nothing to stop**: when `~Download` begins, the download was finalized or
aborted, and has no transfer, no open file and no task; and neither the map nor a call refers to it. -/
theorem dying_is_quiet (h : Service.Runs uri s) (hk : s.objects k = some d) (hdying : d.dying = true) :
    d.Quiet s k ∧ s.isHeld k = false := by
  have hsound := sound_of_runs h
  have hnot : ∀ {b : DownloadObject}, s.objects k = some b → b.dying = false → False := fun hb hlive => by
    obtain rfl := Option.some.inj (hk.symm.trans hb)
    exact absurd (hdying.symm.trans hlive) Bool.noConfusion
  refine ⟨quiet_of_gone hsound hk ?_, ?_⟩
  · exact (hsound.listed.unlisted k d hk).resolve_right fun hlisted => hnot hk hlisted.1
  rw [Service.isHeld, Bool.or_eq_false_iff, List.any_eq_false, Bool.not_eq_false', List.isEmpty_iff,
    Service.callsOf, List.filter_eq_nil_iff]
  refine ⟨fun e he hkey => ?_, fun c _ hkey => ?_⟩
  · obtain ⟨b, hb, hlive, -⟩ := hsound.listed.listed e he
    rw [beq_iff_eq.1 hkey] at hb
    exact hnot hb hlive
  · obtain ⟨call, hc, hkey⟩ := (Option.any_eq_true _ _).1 hkey
    obtain ⟨-, b, hb, hlive, -⟩ := hsound.listed.calls c call hc
    rw [beq_iff_eq.1 hkey] at hb
    exact hnot hb hlive

theorem dying_is_quiet_aborted : ∃ (s : Service) (d : DownloadObject), s.objects 0 = some d ∧
    d.Quiet s 0 ∧ s.isHeld 0 = false := by
  have hrun : ((((service plainUri).restrict Service.Allows).runFrom emptyService oneAborted).bind fun s =>
      (s.objects 0).map (·.dying)) = some true := by decide +kernel
  obtain ⟨s, hs, hrest⟩ := Option.bind_eq_some_iff.1 hrun
  obtain ⟨d, hd, hdying⟩ := Option.map_eq_some_iff.1 hrest
  exact ⟨s, d, hd, dying_is_quiet (runs_of_replay hs) hd hdying⟩

/-! ## The end -/

theorem runTask_frame (uri : UriLib) (o : Outside) (s : Service) (op : ServiceOp) :
    (Service.runTask s uri o op).fRunning = s.fRunning ∧
    (Service.runTask s uri o op).downloads = s.downloads ∧
      (Service.runTask s uri o op).numObjects = s.numObjects := by
  unfold Service.runTask
  split
  · split <;> exact ⟨rfl, rfl, rfl⟩
  · split <;> exact ⟨rfl, rfl, rfl⟩
  · exact ⟨rfl, rfl, rfl⟩

/-- Calls are taken as long as there are downloads, and no longer. -/
theorem closing_of_step (h : s.fRunning = false → s.downloads = [])
    (hstep : (service uri).step s e = some s') :
    (s'.fRunning = false → s'.downloads = []) ∧
      (s.fRunning = false → s'.fRunning = false ∧ s'.numObjects = s.numObjects) := by
  have hsame : ∀ {s' : Service}, s'.fRunning = s.fRunning → s'.downloads = s.downloads →
      s'.numObjects = s.numObjects → (s'.fRunning = false → s'.downloads = []) ∧
        (s.fRunning = false → s'.fRunning = false ∧ s'.numObjects = s.numObjects) :=
    fun {s'} hrunning hdownloads hnum => by
    rw [hrunning, hdownloads]
    exact ⟨h, fun hidle => ⟨hidle, hnum⟩⟩
  cases (steps_of_step hstep).2 with
  | tick | refreshAdminConfigs | sched | destroyed | drain | curl => exact hsame rfl rfl rfl
  | isIdle =>
    refine ⟨fun hidle => by simpa using hidle, fun hidle => ⟨?_, rfl⟩⟩
    simp [h hidle]
  | create =>
    simp only [Service.createDownload]
    split
    · exact hsame rfl rfl rfl
    split
    · exact hsame rfl rfl rfl
    next hrunning =>
    split
    · exact hsame rfl rfl rfl
    · exact ⟨fun hidle => absurd hidle (by simpa using hrunning),
        fun hidle => absurd hidle (by simpa using hrunning)⟩
  | call =>
    unfold Service.beginCall
    split <;> exact hsame rfl rfl rfl
  | @run o t q hpop =>
    obtain ⟨hrunning, hdownloads, hnum⟩ := runTask_frame uri o { s with taskQ := q } t.op
    exact hsame hrunning hdownloads hnum
  | wake =>
    refine ⟨fun hidle => ?_, fun hidle => ⟨hidle, rfl⟩⟩
    have hnone := h hidle
    simp only [Service.wake, hnone]
    split <;> rfl
  | leave =>
    unfold Service.endCall Service.release
    split <;> exact hsame rfl rfl rfl

/-- **Idle for good**: once `IsIdle` has said so, every download is over, and none is created any more. -/
theorem idle_for_good (h : Service.Runs uri s₀) (hidle : s₀.fRunning = false)
    {ms : List (Trans.Move Service ServiceEvent)} (hp : Trans.Path (service uri) s₀ ms s)
    (hallowed : ∀ m ∈ ms, m.src.Allows m.ev) :
    s.fRunning = false ∧ s.downloads = [] ∧ s.numObjects = s₀.numObjects ∧
      ∀ k d, s.objects k = some d → d.Quiet s k := by
  have hempty : ∀ {s}, Trans.Reachable (service uri) s → s.fRunning = false → s.downloads = [] :=
    fun {s} hr => by
    refine hr.invariant (fun s => s.fRunning = false → s.downloads = []) (fun s hi hidle => ?_)
      fun s e s' hs _ hstep => (closing_of_step hs hstep).1
    obtain ⟨now, fs, rfl⟩ := hi
    cases hidle
  obtain ⟨⟨hrunning, hnum⟩, -⟩ := hp.keeps
    (fun s => s.fRunning = false ∧ s.numObjects = s₀.numObjects) (fun s e s' hr hs _ hstep => by
      obtain ⟨hidle', hnum'⟩ := (closing_of_step (hempty hr) hstep).2 hs.1
      exact ⟨hidle', hnum'.trans hs.2⟩) h.reachable ⟨hidle, rfl⟩ hallowed
  have hruns := hp.reachableBy h hallowed
  have hnone := hempty hruns.reachable hrunning
  refine ⟨hrunning, hnone, hnum, fun k d hk => ?_⟩
  have hsound := sound_of_runs hruns
  refine quiet_of_gone hsound hk ((hsound.listed.unlisted k d hk).resolve_right fun hlisted => ?_)
  rw [hnone] at hlisted
  exact absurd hlisted.2 List.not_mem_nil

/-- A download asked for after that, and a start of the one that was. -/
def askedLater : List ServiceEvent :=
  [.create guidB "http://origin/b" "/b", .call (guidToString guidA) (.download .start)]

/-- Both are refused. -/
theorem idle_for_good_aborted : ∃ (s₀ s : Service) (ms : List (Trans.Move Service ServiceEvent)),
    ms.map (·.ev) = askedLater ∧ Trans.Path (service plainUri) s₀ ms s ∧ (s.objects 0).isSome = true ∧
    s.fRunning = false ∧ s.downloads = [] ∧ s.numObjects = s₀.numObjects ∧
    ∀ k d, s.objects k = some d → d.Quiet s k := by
  have hrun : ((((service plainUri).restrict Service.Allows).runFrom emptyService
      (oneAborted ++ [.isIdle])).bind fun s₀ =>
      (((service plainUri).restrict Service.Allows).runFrom s₀ askedLater).map fun s =>
        (s₀.fRunning, (s.objects 0).isSome)) = some (false, true) := by decide +kernel
  obtain ⟨s₀, hs₀, hrest⟩ := Option.bind_eq_some_iff.1 hrun
  obtain ⟨s, hs, heq⟩ := Option.map_eq_some_iff.1 hrest
  obtain ⟨hidle, hobject⟩ := Prod.mk.inj heq
  obtain ⟨ms, hp, hev⟩ := Trans.path_of_runFrom hs
  obtain ⟨hp, hallowed⟩ := hp.of_restrict
  exact ⟨s₀, s, ms, hev, hp, hobject, idle_for_good (runs_of_replay hs₀) hidle hp hallowed⟩

/-! ## Downloads that have ended -/

def ManagerRequest.Ends (request : ManagerRequest) : Prop :=
  request = .download .finalize ∨ request = .download .abort

/-- A client was told that a download is finalized or aborted. -/
def Service.Told (s : Service) (k : Nat) : Prop :=
  ∃ request answer, ManagerRequest.Ends request ∧ (some k, request, Except.ok answer) ∈ s.answers

/-- A download whose end is being told, or was, is not in the map. -/
structure Service.Forgotten (s : Service) : Prop where
  returning :
    ∀ c call answer, s.calls c = some call → call.request.Ends → call.state = .returning (.ok answer) →
    call.key < s.numObjects ∧ ∀ e ∈ s.downloads, e.2 ≠ call.key
  told : ∀ k, s.Told k → k < s.numObjects ∧ ∀ e ∈ s.downloads, e.2 ≠ k

/-- New downloads have new numbers, and nobody is told an end but by a call that has seen to it. -/
theorem Service.Forgotten.mono (h : s.Forgotten) (hnum : s.numObjects ≤ s'.numObjects)
    (hdownloads : ∀ e ∈ s'.downloads, e ∈ s.downloads ∨ s.numObjects ≤ e.2)
    (hcalls : ∀ c call answer, s'.calls c = some call → call.request.Ends →
      call.state = .returning (.ok answer) → s.calls c = some call ∨
        call.key < s.numObjects ∧ ∀ e ∈ s'.downloads, e.2 ≠ call.key)
    (htold : ∀ k, s'.Told k → s.Told k ∨ k < s.numObjects ∧ ∀ e ∈ s'.downloads, e.2 ≠ k) : s'.Forgotten := by
  have hkeep : ∀ k, (k < s.numObjects ∧ ∀ e ∈ s.downloads, e.2 ≠ k) →
      k < s'.numObjects ∧ ∀ e ∈ s'.downloads, e.2 ≠ k := fun k hk => by
    obtain ⟨hlt, hnone⟩ := hk
    refine ⟨by omega, fun e he => ?_⟩
    rcases hdownloads e he with he | hnew
    · exact hnone e he
    · omega
  refine ⟨fun c call answer hc hends hstate => ?_, fun k hk => ?_⟩
  · rcases hcalls c call answer hc hends hstate with hc | ⟨hlt, hnone⟩
    · exact hkeep _ (h.returning c call answer hc hends hstate)
    · exact ⟨by omega, hnone⟩
  · rcases htold k hk with hk | ⟨hlt, hnone⟩
    · exact hkeep k (h.told k hk)
    · exact ⟨by omega, hnone⟩

theorem setCall_cases {c n : Nat} {x : Option Call} {call : Call} (h : (s.setCall c x).calls n = some call) :
    x = some call ∨ s.calls n = some call := by
  replace h : Function.update s.calls c x n = some call := h
  by_cases hn : n = c
  · rw [hn, Function.update_self] at h
    exact .inl h
  · rw [Function.update_of_ne hn] at h
    exact .inr h

/-- An operation that runs ends no call, and tells no client. -/
theorem runTask_calls (uri : UriLib) (o : Outside) (s : Service) (op : ServiceOp) :
    (Service.runTask s uri o op).answers = s.answers ∧
    ∀ n call, (Service.runTask s uri o op).calls n = some call →
      s.calls n = some call ∨ ∃ result, call.state = .ran result := by
  have hran : ∀ {c result n} {call : Call} {s' : Service}, s'.calls = s.calls →
      (s'.setRan c result).calls n = some call → s.calls n = some call ∨ ∃ result, call.state = .ran result :=
    fun {c result n call s'} hsame hcall => by
    replace hcall : Function.update s'.calls c ((s'.calls c).map _) n = some call := hcall
    rw [hsame] at hcall
    by_cases hn : n = c
    · rw [hn, Function.update_self] at hcall
      obtain ⟨call', -, rfl⟩ := Option.map_eq_some_iff.1 hcall
      exact .inr ⟨result, rfl⟩
    · rw [Function.update_of_ne hn] at hcall
      exact .inl hcall
  unfold Service.runTask
  split
  · split <;> exact ⟨rfl, fun _ _ => .inl⟩
  · split
    · exact ⟨rfl, fun _ _ => hran rfl⟩
    · exact ⟨rfl, fun _ _ => hran rfl⟩
    · exact ⟨rfl, fun _ _ => .inl⟩
  · exact ⟨rfl, fun _ _ => .inl⟩

theorem Service.Forgotten.step (h : s.Forgotten) (hsound : s.Sound uri)
    (hstep : (service uri).step s e = some s') : s'.Forgotten := by
  cases (steps_of_step hstep).2 with
  | tick | isIdle | refreshAdminConfigs | destroyed | drain | curl =>
    exact h.mono le_rfl (fun _ => .inl) (fun _ _ _ hc _ _ => .inl hc) fun _ => .inl
  | create =>
    have hsame : s.Forgotten := h.mono le_rfl (fun _ => .inl) (fun _ _ _ hc _ _ => .inl hc) fun _ => .inl
    simp only [Service.createDownload]
    split
    · exact hsame
    split
    · exact hsame
    split
    · exact hsame
    · refine h.mono (Nat.le_succ _) (fun e he => ?_) (fun _ _ _ hc _ _ => .inl hc) fun _ => .inl
      rcases List.mem_cons.1 he with rfl | he
      · exact .inr le_rfl
      · exact .inl he
  | call =>
    unfold Service.beginCall
    split
    · refine h.mono le_rfl (fun _ => .inl) (fun n call answer hc _ hstate => ?_) fun _ => .inl
      refine .inl ((setCall_cases hc).resolve_left fun hnew => ?_)
      obtain rfl := Option.some.inj hnew
      cases hstate
    · refine h.mono le_rfl (fun _ => .inl) (fun _ _ _ hc _ _ => .inl hc) fun k hk => ?_
      obtain ⟨request, answer, hends, hmem⟩ := hk
      rcases List.mem_cons.1 hmem with heq | hmem
      · cases heq
      · exact .inl ⟨request, answer, hends, hmem⟩
  | sched =>
    refine h.mono le_rfl (fun _ => .inl) (fun n call answer hc _ hstate => ?_) fun _ => .inl
    refine .inl ((setCall_cases hc).resolve_left fun hnew => ?_)
    obtain rfl := Option.some.inj hnew
    cases hstate
  | @run o t q hpop =>
    obtain ⟨-, hdownloads, hnum⟩ := runTask_frame uri o { s with taskQ := q } t.op
    obtain ⟨hanswers, hcalls⟩ := runTask_calls uri o { s with taskQ := q } t.op
    refine h.mono hnum.ge (fun e he => .inl (hdownloads ▸ he)) (fun n call answer hc _ hstate => ?_)
      fun k hk => ?_
    · rcases hcalls n call hc with hc | ⟨result, hran⟩
      · exact .inl hc
      · cases hran.symm.trans hstate
    · obtain ⟨request, answer, hends, hmem⟩ := hk
      exact .inl ⟨request, answer, hends, hanswers ▸ hmem⟩
  | @wake c call result hc hstate =>
    obtain ⟨-, d, hd, -, hid, -⟩ := hsound.listed.calls c call hc
    have hfewer : ∀ e ∈ (s.wake c call result).downloads, e ∈ s.downloads := fun e he => by
      simp only [Service.wake] at he
      split at he
      · exact List.mem_of_mem_filter he
      · exact he
    refine h.mono le_rfl (fun e he => .inl (hfewer e he)) (fun n other answer hother hends hok => ?_)
      fun _ => .inl
    rcases setCall_cases hother with hnew | hold
    · -- the call takes the download out of the map before it returns
      obtain rfl := Option.some.inj hnew
      obtain rfl := CallState.returning.inj hok
      refine .inr ⟨hsound.listed.keys _ d hd, fun e he hkey => ?_⟩
      obtain ⟨d', hd', -, hid'⟩ := hsound.listed.listed e (hfewer e he)
      rw [hkey] at hd'
      obtain rfl := Option.some.inj (hd.symm.trans hd')
      simp only [Service.wake] at he
      rw [if_pos ⟨hends, rfl⟩] at he
      simpa [← hid', hid] using (List.mem_filter.1 he).2
    · exact .inl hold
  | @leave c call result hc hstate =>
    have hfields : (s.endCall c call result).downloads = s.downloads ∧
        (s.endCall c call result).numObjects = s.numObjects ∧
        (s.endCall c call result).calls = (s.setCall c none).calls ∧
        (s.endCall c call result).answers = (some call.key, call.request, result) :: s.answers := by
      unfold Service.endCall Service.release
      split <;> exact ⟨rfl, rfl, rfl, rfl⟩
    obtain ⟨hdownloads, hnum, hcalls, hanswers⟩ := hfields
    refine h.mono hnum.ge (fun e he => .inl (hdownloads ▸ he)) (fun n other answer hother _ _ => ?_)
      fun k hk => ?_
    · rw [hcalls] at hother
      exact .inl ((setCall_cases hother).resolve_left (by simp))
    · obtain ⟨request, answer, hends, hmem⟩ := hk
      rw [hanswers] at hmem
      rcases List.mem_cons.1 hmem with heq | hmem
      · simp only [Prod.mk.injEq, Option.some.injEq] at heq
        obtain ⟨rfl, rfl, rfl⟩ := heq
        rw [hdownloads]
        exact .inr (h.returning c call answer hc hends hstate)
      · exact .inl ⟨request, answer, hends, hmem⟩

/-- **What has ended is not found again**: once a client was told that its Finalize or Abort succeeded, no
call gets the download any more, by its id or another, and it is Finalized or Aborted as long as it is there. -/
theorem ended_is_forgotten (h : Service.Runs uri s) (htold : s.Told k) :
    (∀ downloadId, s.getDownload downloadId ≠ .ok k) ∧ ∀ d, s.objects k = some d →
      d.dl.status.state.gone = true ∧ s.getDownload (guidToString d.id) = .error E_NOT_SET := by
  have hforgotten : s.Forgotten := by
    refine (h.invariant (fun s => s.Sound uri ∧ s.Forgotten) (fun s hi => ⟨.init hi, ?_⟩)
      fun s e s' hs hallowed hstep => ⟨hs.1.step hallowed hstep, hs.2.step hs.1 hstep⟩).2
    obtain ⟨now, fs, rfl⟩ := hi
    refine ⟨fun c call answer hc => (by cases hc), fun k hk => ?_⟩
    obtain ⟨request, answer, -, hmem⟩ := hk
    exact absurd hmem List.not_mem_nil
  have hlisted := (sound_of_runs h).listed
  have hnone := (hforgotten.told k htold).2
  have hfind : ∀ downloadId, s.find downloadId ≠ some k := fun _ hfind => hnone _ (find_some hfind) rfl
  refine ⟨fun downloadId hok => ?_, fun d hk => ⟨?_, ?_⟩⟩
  · unfold Service.getDownload at hok
    split at hok
    · next i hi =>
      obtain rfl := Except.ok.inj hok
      exact hfind _ hi
    · cases hok
  · exact (hlisted.unlisted k d hk).resolve_right fun hlisted => hnone _ hlisted.2 rfl
  · cases hid : s.find (guidToString d.id) with
    | none => simp [Service.getDownload, hid]
    | some i =>
      obtain ⟨c, hc, -, hsame⟩ := hlisted.listed _ (find_some hid)
      obtain rfl := hlisted.ids i k c d hc hk hsame
      exact absurd hid (hfind _)

theorem ended_is_forgotten_aborted : ∃ (s : Service) (d : DownloadObject), s.objects 0 = some d ∧
    (∀ downloadId, s.getDownload downloadId ≠ .ok 0) ∧ ∀ d, s.objects 0 = some d →
      d.dl.status.state.gone = true ∧ s.getDownload (guidToString d.id) = .error E_NOT_SET := by
  have hrun : ((((service plainUri).restrict Service.Allows).runFrom emptyService oneAborted).bind fun s =>
      (s.objects 0).map fun _ => s.answers.map fun a => (a.1, a.2.1, a.2.2.isOk)) =
        some [(some 0, .download .abort, true)] := by decide +kernel
  obtain ⟨s, hs, hrest⟩ := Option.bind_eq_some_iff.1 hrun
  obtain ⟨d, hd, hanswers⟩ := Option.map_eq_some_iff.1 hrest
  refine ⟨s, d, hd, ended_is_forgotten (runs_of_replay hs) ?_⟩
  obtain ⟨a, ha, heq⟩ := List.mem_map.1 (hanswers ▸ List.mem_singleton_self _)
  obtain ⟨key, request, result⟩ := a
  simp only [Prod.mk.injEq] at heq
  obtain ⟨rfl, rfl, hok⟩ := heq
  cases result with
  | ok answer => exact ⟨_, answer, .inr rfl, ha⟩
  | error hr => cases hok

end DoClient
