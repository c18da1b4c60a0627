/-
The downloads of the service, each as if it were alone: whatever its clients, the
other downloads and theirs do, and in whatever order, it is in a state that a run
of its own reaches. No two of them have the same file.
-/
import DoClient.SideBySide
import DoClient.Gone
import DoClient.Service

namespace DoClient

open HResult Multimap

variable {uri : UriLib} {o : Outside} {s s' : Service} {k j : Nat} {d d' : DownloadObject} {w w' : World}

/-- The steps of a download that the environment goes along with: files close, and a
file that was made keeps its name. -/
def Unhindered (w : World) (e : Event) : Prop := ClosesFiles e ∧ KeepsPath w e

/-- The download has made its file and is not gone: the file is its own. -/
def Download.OwnsFile (d : Download) : Prop := d.fDestFileCreated = true ∧ d.status.state.gone = false

/-- `w` is the world of a download of the service, had it been alone. -/
structure Alone (s : Service) (k : Nat) (d : DownloadObject) (w : World) : Prop where
  same : w = { s.view k d with taskQ := w.taskQ, fs := w.fs, terminated := w.terminated }
  live : s.terminated = false → w.terminated = false
  tasks : List.Forall₂ (Near s.now) (s.taskQ.own k) w.taskQ.ops.entries
  file : d.dl.OwnsFile → s.fs d.dl.destFilePath = w.fs d.dl.destFilePath
  alone : ∀ p, p ≠ d.dl.destFilePath ∨ d.dl.fDestFileCreated = false → w.fs p = none
  stream : ∀ p, d.dl.fileStream = some p → p = d.dl.destFilePath ∧ d.dl.fDestFileCreated = true
  kept : d.dl.fDestFileCreated = true → d.removed = [] → w.fs d.dl.destFilePath ≠ none

/-- What there is besides a download of the service. -/
def Service.surroundings (s : Service) (k : Nat) (d : DownloadObject) : Surroundings where
  now := s.now
  queue := (s.taskQ.view k).ops.entries
  fs := s.fs
  mcc := s.mcc
  path := d.dl.destFilePath
  made := d.dl.fDestFileCreated

namespace Alone

theorem dl (h : Alone s k d w) : w.dl = d.dl := by rw [h.same]; rfl

theorem now (h : Alone s k d w) : w.now = s.now := by rw [h.same]; rfl

theorem mcc (h : Alone s k d w) : w.mcc = s.mcc := by rw [h.same]; rfl

theorem removed (h : Alone s k d w) : w.removed = d.removed := by rw [h.same]; rfl

/-- What the download sees of the service, beside its world alone. -/
theorem beside (uri : UriLib) (h : Alone s k d w) (hlive : s.terminated = false)
    (hgone : d.dl.status.state.gone = false) :
    Beside uri (s.surroundings k d) (s.view k d) w where
  same := by
    have hterminated := h.live hlive
    rw [h.same, hterminated]
    simp only [Service.view, hlive]
  now := h.now
  tasks := by
    have htasks := h.tasks
    rw [ServiceQueue.own_eq_filter] at htasks
    exact htasks
  others := rfl
  tags e he := by
    simp only [Service.view, ServiceQueue.view, entries_map, List.mem_map] at he
    obtain ⟨t, -, rfl⟩ := he
    simp only [ServiceOp.seenBy]
    split <;> rfl
  places := .refl _ _ _ _
  path := by rw [h.dl]; rfl
  fs := by
    rw [h.dl]
    split
    · next hmade =>
      have hfile := h.file ⟨hmade, hgone⟩
      simp only [Service.surroundings, ← hfile, Function.update_eq_self]
      rfl
    · rfl
  alone := by rw [h.dl]; exact h.alone
  stream := by rw [h.dl]; exact h.stream
  kept := by rw [h.dl, h.removed]; exact h.kept
  made := by rw [h.dl]; exact .inl
  mcc := ⟨[], h.mcc⟩

end Alone

theorem Beside.leftOf {v : World} (h : Beside uri (s.surroundings k d) v w) :
    ServiceQueue.LeftOf k s.taskQ v.taskQ := ⟨h.others, fun e he _ => h.tags e he⟩

/-- A download that leaves its view beside its world alone is as if alone. -/
theorem Beside.putBack {v : World} (h : Beside uri (s.surroundings k d) v w) :
    Alone (s.putBack k d v) k (d.leave v) w where
  same := by
    have hsame : w = { v with taskQ := w.taskQ, fs := w.fs } := by rw [h.same]
    have hnow : v.now = s.now := h.clock.trans h.now
    calc w = { v with taskQ := w.taskQ, fs := w.fs } := hsame
      _ = { v with now := s.now, taskQ := w.taskQ, fs := w.fs, terminated := w.terminated } := by
        rw [hnow.symm, show w.terminated = v.terminated by rw [h.same]]
  live hlive := by
    have hsame := congrArg World.terminated h.same
    exact hsame.symm.trans hlive
  tasks := by
    have hnow : (s.putBack k d v).now = (s.surroundings k d).now := rfl
    rw [hnow, Service.putBack, ServiceQueue.own_weave_self h.leftOf]
    exact h.tasks
  file howns := by
    simp only [DownloadObject.leave, h.dl] at howns ⊢
    exact h.file howns.1
  alone := by simp only [DownloadObject.leave, h.dl, h.path]; exact h.alone
  stream := by simp only [DownloadObject.leave, h.dl, h.path]; exact h.stream
  kept := by
    have hremoved : v.removed = w.removed := by rw [h.same]
    simp only [DownloadObject.leave, h.dl, h.path, hremoved]
    exact h.kept

/-! ## Places in the queue -/

/-- The shortcuts of a download in the queue. -/
def ServiceQueue.shortcutsOf (k : Nat) (q : ServiceQueue) : Nat :=
  q.ops.entries.countP fun e => e.2.op.isLambdaOf k && e.2.op.isShortcut

theorem shortcutsOf_own (k : Nat) (q : ServiceQueue) :
    q.shortcutsOf k = (q.own k).countP fun e => e.2.op == .alreadyTransferred := by
  rw [ServiceQueue.own, List.countP_filterMap, ServiceQueue.shortcutsOf]
  refine List.countP_congr fun e _ => ?_
  cases e.2.op with
  | lambda i op => by_cases hi : i = k <;> simp [ServiceOp.isLambdaOf, ServiceOp.isShortcut, ServiceOp.of, hi]
  | call c i request =>
    cases request with
    | download r => by_cases hi : i = k <;> simp [ServiceOp.isLambdaOf, ServiceOp.of, hi]
    | getProperty key => simp [ServiceOp.isLambdaOf, ServiceOp.of]
  | refreshAdminConfigs => simp [ServiceOp.isLambdaOf, ServiceOp.of]

theorem Alone.shortcuts (h : Alone s k d w) : s.taskQ.shortcutsOf k = w.taskQ.count .alreadyTransferred := by
  have hvalues : ∀ l : List (Int × Task Op Tag), (l.countP fun e => e.2.op == .alreadyTransferred) =
      (l.map (·.2)).countP fun t => t.op == .alreadyTransferred := fun l => by
    rw [List.countP_map]
    rfl
  rw [shortcutsOf_own, TaskQueue.count, hvalues, hvalues, Multimap.values_of_near h.tasks]

/-- A task puts one shortcut in front at most, and only a start. -/
theorem Ran.shortcuts_le {op : Op} (hran : Ran uri o w op w') : w'.taskQ.count .alreadyTransferred ≤
    w.taskQ.count .alreadyTransferred + if op = .client .start then 1 else 0 := by
  have hchecked : w.checkedQueue.count .alreadyTransferred = w.taskQ.count .alreadyTransferred := by
    unfold World.checkedQueue
    split
    · rfl
    · simp [TaskQueue.count_add]
  cases hran with
  | sendFailed hc hd =>
    obtain ⟨_, _, _, _, _, _, _, rfl⟩ := hd.rerouted
    cases hc with
    | start _ _ hset | resume _ _ hset =>
      obtain ⟨_, _, _, _, _, _, _, rfl⟩ := hset.rerouted
      exact Nat.le_add_right _ _
    | timer | retry => exact Nat.le_add_right _ _
  | sent | checked => exact hchecked.trans_le (Nat.le_add_right _ _)
  | skipped => simp [TaskQueue.count_addFront]
  | finalized | aborted =>
    refine Nat.le_add_right_of_le (List.Sublist.countP_le ?_)
    exact List.filter_sublist.trans List.filter_sublist
  | failedOffline | failedRetry | timerOffline => simp [TaskQueue.count_add]
  | _ => exact Nat.le_add_right _ _

theorem behind_seenBy (k : Nat) (op : ServiceOp) :
    (op.seenBy k).op.behind = (op.isLambdaOf k && !op.isShortcut) := by
  rw [Op.behind, ServiceQueue.own_seenBy]
  cases op with
  | lambda i op =>
    by_cases hi : i = k
    · simp [ServiceOp.seenBy, ServiceOp.of, ServiceOp.isLambdaOf, ServiceOp.isShortcut, hi, bne]
    · simp [ServiceOp.isLambdaOf, hi]
  | call c i request => rfl
  | refreshAdminConfigs => rfl

/-- Between the queues a download finds and leaves: its lambdas apart they are the same, and what
is due by now is in its place, with no more lambdas of the download before it but shortcuts. -/
structure Placed (k : Nat) (now : Int) (q q' : ServiceQueue) : Prop where
  others : (q'.ops.entries.filter fun e => !e.2.op.isLambdaOf k) =
    q.ops.entries.filter fun e => !e.2.op.isLambdaOf k
  places : ∀ front e back, q'.ops.entries = front ++ e :: back → e.2.op.isLambdaOf k = false → e.1 ≤ now →
    ∃ front₀ back₀, q.ops.entries = front₀ ++ e :: back₀ ∧
      (front.filter fun e => !e.2.op.isLambdaOf k) = (front₀.filter fun e => !e.2.op.isLambdaOf k) ∧
      (front.countP fun e => e.2.op.isLambdaOf k && !e.2.op.isShortcut) ≤
        front₀.countP fun e => e.2.op.isLambdaOf k && !e.2.op.isShortcut

theorem placed_weave {q : ServiceQueue} {seen : TaskQueue Op Tag} {now : Int}
    (h : ServiceQueue.LeftOf k q seen)
    (hplaces : KeepsPlaces now (fun t : Task Op Tag => !t.op.own) (fun t => t.op.behind)
      (q.view k).ops.entries seen.ops.entries) : Placed k now q (q.weave k seen) := by
  obtain ⟨hothers, hview⟩ := ServiceQueue.weave_spec h
  refine ⟨hothers, fun front e back hentries he hdue => ?_⟩
  let f : Int × Task ServiceOp ServiceTag → Int × Task Op Tag := fun e => (e.1, e.2.op.seenBy k)
  have hseen : seen.ops.entries = front.map f ++ f e :: back.map f := by
    rw [← hview]
    simp only [ServiceQueue.view, entries_map, hentries, List.map_append, List.map_cons, f]
  obtain ⟨front₁, back₁, hstart, hstays, hle⟩ :=
    hplaces _ _ _ hseen (by simp [f, ServiceQueue.own_seenBy, he]) hdue
  obtain ⟨front₀, rest₀, hq, rfl, hrest⟩ := List.map_eq_append_iff.1 hstart
  obtain ⟨e₀, back₀, rfl, he₀, -⟩ := List.map_eq_cons_iff.1 hrest
  have hmine : e₀.2.op.isLambdaOf k = false := by
    have hsame := congrArg (fun x : Int × Task Op Tag => x.2.op.own) he₀
    simpa only [f, ServiceQueue.own_seenBy, he] using hsame
  have hcount :
    (front.countP fun e => !e.2.op.isLambdaOf k) = front₀.countP fun e => !e.2.op.isLambdaOf k := by
    simpa only [List.countP_map, Function.comp_def, f, ServiceQueue.own_seenBy] using hstays
  obtain ⟨hfilter, rfl⟩ := filter_split (p := fun e => !e.2.op.isLambdaOf k) hentries hq hothers
    (by simp [he]) (by simp [hmine]) hcount
  refine ⟨front₀, back₀, hq, hfilter, ?_⟩
  simpa only [List.countP_map, Function.comp_def, f, behind_seenBy] using hle

/-! ## Runs alone -/

/-- A task the environment goes along with. -/
theorem unhindered_run {op : Op} (hc : o.closeErr = none) (hop : w.nextOp = some op)
    (hkeep : ∀ value, op = .client (.setProperty .localPath value) → w.dl.status.state = .created →
      w.dl.fDestFileCreated = true → value.isEmpty = true ∨ value = w.dl.destFilePath) :
    Unhindered w (.run o) := by
  refine ⟨hc, fun value hvalue => ?_⟩
  rw [hop] at hvalue
  refine hkeep value ?_
  unfold Op.localPath at hvalue
  simp only [Option.bind_some] at hvalue
  split at hvalue
  · exact congrArg (fun v => Op.client (.setProperty .localPath v)) (Option.some.inj hvalue)
  · cases hvalue

/-- Others report errors to `MCCManager`. -/
theorem reachable_reports (h : Trans.ReachableBy (agent uri) Unhindered w) (hlive : w.terminated = false)
    (reports : List (HResult × Nat × String × String)) :
    Trans.ReachableBy (agent uri) Unhindered { w with mcc := w.mcc.reportAll uri w.now reports } := by
  have hforeign : step uri w (.foreign true 0) =
      some { w with taskQ := w.taskQ.addFront w.now .foreign (some .other) } := by
    simp [step, hlive]
  have hpop := TaskQueue.popNextReady_addFront w.taskQ w.now Op.foreign (some Tag.other)
  have hlive' :
    ({ w with taskQ := w.taskQ.addFront w.now .foreign (some .other) } : World).terminated = false :=
    hlive
  obtain ⟨hop, hrun⟩ := @step_run_of_pop uri _ { reports := reports } _ _ hlive' hpop
  have hqueued : Trans.ReachableBy (agent uri) Unhindered { w with
      taskQ := w.taskQ.addFront w.now .foreign (some .other) } :=
    .step h (show Unhindered w (.foreign true 0) from ⟨trivial, trivial⟩) hforeign
  exact .step hqueued (unhindered_run rfl hop fun value hset => by cases hset) hrun

/-- What others do is not seen, but in what is reported to `MCCManager`. -/
theorem Alone.other (h : Alone s k d w) (hlive : s'.terminated = false → s.terminated = false)
    (hnow : s'.now = s.now) (hqueue : s'.taskQ.own k = s.taskQ.own k)
    (hfile : d.dl.OwnsFile → s'.fs d.dl.destFilePath = s.fs d.dl.destFilePath) :
    Alone s' k d { w with mcc := s'.mcc } where
  same := by
    have hsame := h.same
    rw [h.same]
    simp only [Service.view, hnow]
  live hs := h.live (hlive hs)
  tasks := by
    rw [hqueue, hnow]
    exact h.tasks
  file howns := (hfile howns).trans (h.file howns)
  alone := h.alone
  stream := h.stream
  kept := h.kept

/-- The first of a download's operations is the first it has alone. -/
theorem popNextReady_near {q : TaskQueue Op Tag} {now due : Int} {t : Task Op Tag}
    {l : List (Int × Task Op Tag)} (h : List.Forall₂ (Near now) ((due, t) :: l) q.ops.entries)
    (hdue : due ≤ now) :
    ∃ q', q.popNextReady now = some (t, q') ∧ List.Forall₂ (Near now) l q'.ops.entries := by
  cases hentries : q.ops.entries with
  | nil =>
    rw [hentries] at h
    cases h
  | cons e rest =>
    rw [hentries] at h
    obtain ⟨⟨ht, hkey⟩, hrest⟩ := List.forall₂_cons.1 h
    refine ⟨⟨q.ops.dropFirst⟩, ?_, ?_⟩
    · have hready : e.1 ≤ now := by
        rcases hkey with heq | ⟨-, hlt⟩
        · exact heq ▸ hdue
        · exact hlt.le
      simp only [TaskQueue.popNextReady, first?, hentries, List.head?_cons, if_pos hready, ← ht]
    · simpa [dropFirst, hentries] using hrest

/-- The task thread takes an operation of the download's. -/
theorem Alone.pop (h : Alone s k d w) {t : Task ServiceOp ServiceTag} {q : ServiceQueue} {op : Op}
    (hpop : s.taskQ.popNextReady s.now = some (t, q)) (hof : t.op.of k = some op) :
    ∃ q', w.taskQ.popNextReady w.now = some (⟨op, op.tag⟩, q') ∧
      Alone { s with taskQ := q } k d { w with taskQ := q' } := by
  obtain ⟨due, hdue, hown⟩ := ServiceQueue.own_pop (k := k) hpop
  have htasks := h.tasks
  rw [hown, hof] at htasks
  obtain ⟨q', hpop', hrest⟩ := popNextReady_near htasks hdue
  refine ⟨q', h.now ▸ hpop', ?_, h.live, hrest, h.file, h.alone, h.stream, h.kept⟩
  rw [h.same]
  rfl

/-! ## What a download does to the service -/

/-- What the service is like when a download has acted, to the other downloads. -/
structure Acts (uri : UriLib) (s s' : Service) (k : Nat) (d d' : DownloadObject) : Prop where
  now : s'.now = s.now
  mcc : ∃ reports, s'.mcc = s.mcc.reportAll uri s.now reports
  queue : ∀ j, j ≠ k → s'.taskQ.own j = s.taskQ.own j
  objects : s'.objects = Function.update s.objects k (some d')
  /-- It writes to its own file, one it has made or makes. -/
  writes : ∀ p, s'.fs p ≠ s.fs p → p = d.dl.destFilePath ∧ d.dl.status.state.gone = false ∧
    (d.dl.fDestFileCreated = true ∨ s.fs p = none)
  owns : d'.dl.OwnsFile → d'.dl.destFilePath = d.dl.destFilePath ∧
    (d.dl.OwnsFile ∨ s.fs d.dl.destFilePath = none)
  gone : d.dl.status.state.gone = true → d'.dl.status.state.gone = true
  scheduled : ∀ t ∈ s'.taskQ.tasks, t ∈ s.taskQ.tasks ∨ ∃ op, t = ServiceOp.lambdaTask k op
  waiting : ∀ c, s'.taskQ.countCall c = s.taskQ.countCall c
  places : Placed k s.now s.taskQ s'.taskQ

theorem Beside.acts {v : World} (h : Beside uri (s.surroundings k d) v w)
    (hgone : d.dl.status.state.gone = false) : Acts uri s (s.putBack k d v) k d (d.leave v) where
  now := rfl
  mcc := by
    obtain ⟨reports, hreports⟩ := h.mcc
    exact ⟨reports, (show v.mcc = w.mcc by rw [h.same]).trans hreports⟩
  queue j hj := ServiceQueue.own_weave_other hj h.leftOf
  objects := rfl
  writes p hp := by
    have hfs : v.fs p ≠ s.fs p := hp
    rw [h.fs] at hfs
    split at hfs
    · next hmade =>
      by_cases hpath : p = d.dl.destFilePath
      · exact ⟨hpath, hgone, hpath ▸ h.made hmade⟩
      · exact absurd (Function.update_of_ne hpath _ _) hfs
    · exact absurd rfl hfs
  owns howns := by
    simp only [DownloadObject.leave, h.dl, h.path] at howns ⊢
    exact ⟨rfl, (h.made howns.1).imp (fun hmade => ⟨hmade, hgone⟩) id⟩
  gone hno := absurd (hgone.symm.trans hno) Bool.noConfusion
  scheduled _ := ServiceQueue.mem_tasks_weave
  waiting c := ServiceQueue.countCall_weave h.leftOf c
  places := placed_weave h.leftOf h.places

/-- The download is in a state a run of its own reaches. -/
def Service.AsIfAlone (uri : UriLib) (s : Service) (k : Nat) (d : DownloadObject) : Prop :=
  ∃ w, Trans.ReachableBy (agent uri) Unhindered w ∧ Alone s k d w

theorem settled_of_unhindered (h : Trans.ReachableBy (agent uri) Unhindered w) : Settled w :=
  settled_reachable (h.mono fun _ _ hu => hu.1)

/-- The task thread runs an operation of a download that is not gone. -/
theorem Service.AsIfAlone.run (h : s.AsIfAlone uri k d) (hlive : s.terminated = false)
    {t : Task ServiceOp ServiceTag} {q : ServiceQueue} {op : Op}
    (hpop : s.taskQ.popNextReady s.now = some (t, q)) (hof : t.op.of k = some op) (hc : o.closeErr = none)
    (hgone : d.dl.status.state.gone = false) (hkeeps : ∀ r, op = .client r → r.KeepsPath) :
    ∃ w', Trans.ReachableBy (agent uri) Unhindered w' ∧
      Beside uri (({ s with taskQ := q } : Service).surroundings k d)
        (DoClient.runTask uri o op (({ s with taskQ := q } : Service).view k d)) w' ∧
      w'.taskQ.count .alreadyTransferred ≤ q.shortcutsOf k + if op = .client .start then 1 else 0 := by
  obtain ⟨w, hw, halone⟩ := h
  have hsettled := settled_of_unhindered hw
  have hgood := good_reachable hw.reachable
  obtain ⟨q', hpop', halone'⟩ := halone.pop hpop hof
  have hbeside := halone'.beside uri hlive hgone
  have hfit : (({ s with taskQ := q } : Service).surroundings k d).Fit o { w with taskQ := q' } :=
    ⟨hc, congrArg Download.fDestFileCreated halone.dl.symm, fun hcreated haborted =>
      hsettled.issued (hgood.issued hcreated haborted)⟩
  have hcloses : ((({ s with taskQ := q } : Service).surroundings k d).answers o).closeErr = none := hc
  obtain ⟨hop, hrun⟩ :=
    @step_run_of_pop uri _ (({ s with taskQ := q } : Service).surroundings k d |>.answers o)
      _ _ (halone.live hlive) hpop'
  refine ⟨_, .step hw (unhindered_run hcloses hop fun value hset => ?_) hrun,
    beside_runTask hbeside hfit (ServiceQueue.of_ne_foreign hof) hkeeps, ?_⟩
  · exact absurd rfl (hkeeps _ hset)
  · obtain ⟨due, -, hmem⟩ := TaskQueue.exists_of_pop hpop'
    obtain ⟨w₁, replies, hran, heq⟩ :=
      runTask_ran (o := (({ s with taskQ := q } : Service).surroundings k d).answers o) (hgood.popped hpop')
        (hgood.issued_of_own hmem)
    rw [heq, show q.shortcutsOf k = q'.count .alreadyTransferred from halone'.shortcuts]
    exact hran.shortcuts_le

/-- What a request does that at most renames a file not yet made. -/
structure Renames (d d' : Download) : Prop where
  status : d'.status = d.status
  made : d'.fDestFileCreated = d.fDestFileCreated
  stream : d'.fileStream = d.fileStream
  path : d.fDestFileCreated = true → d'.destFilePath = d.destFilePath

theorem leftOf_view (k : Nat) (q : ServiceQueue) : ServiceQueue.LeftOf k q (q.view k) := by
  refine ⟨rfl, fun e he _ => ?_⟩
  simp only [ServiceQueue.view, entries_map, List.mem_map] at he
  obtain ⟨t, -, rfl⟩ := he
  simp only [ServiceOp.seenBy]
  split <;> rfl

/-- A reply, with the file at most renamed. -/
def World.rename (f : Download → Download) (reply : ClientRequest × Except HResult Unit)
    (w : World) : World :=
  { w.updateDl f with replies := reply :: w.replies }

theorem Alone.rename (h : Alone s k d w) {f : Download → Download} (hf : Renames d.dl (f d.dl))
    (reply : ClientRequest × Except HResult Unit) :
    Alone (s.putBack k d ((s.view k d).rename f reply)) k (d.leave ((s.view k d).rename f reply))
      (w.rename f reply) where
  same := by
    have hdl := h.dl
    rw [h.same]
    rfl
  live := h.live
  tasks := by
    have htasks := h.tasks
    rw [ServiceQueue.own_eq_filter] at htasks
    show List.Forall₂ _ (ServiceQueue.own k (s.taskQ.weave k (s.taskQ.view k))) _
    rw [ServiceQueue.own_weave_self (leftOf_view k s.taskQ)]
    exact htasks
  file := by
    rintro ⟨hmade, hgone⟩
    have hmade : d.dl.fDestFileCreated = true := hf.made ▸ hmade
    have hgone : d.dl.status.state.gone = false := by rw [← hf.status]; exact hgone
    show s.fs (f d.dl).destFilePath = w.fs (f d.dl).destFilePath
    rw [hf.path hmade]
    exact h.file ⟨hmade, hgone⟩
  alone p hp := by
    replace hp : p ≠ (f d.dl).destFilePath ∨ (f d.dl).fDestFileCreated = false := hp
    rw [hf.made] at hp
    cases hmade : d.dl.fDestFileCreated with
    | true =>
      rw [hf.path hmade, hmade] at hp
      exact h.alone p (.inl (hp.resolve_right Bool.noConfusion))
    | false => exact h.alone p (.inr hmade)
  stream p hp := by
    replace hp : (f d.dl).fileStream = some p := hp
    rw [hf.stream] at hp
    obtain ⟨hpath, hmade⟩ := h.stream p hp
    exact ⟨hpath.trans (hf.path hmade).symm, hf.made.trans hmade⟩
  kept hmade hkept := by
    have hmade : d.dl.fDestFileCreated = true := hf.made ▸ hmade
    show w.fs (f d.dl).destFilePath ≠ none
    rw [hf.path hmade]
    exact h.kept hmade hkept

theorem acts_rename {f : Download → Download} (hf : Renames d.dl (f d.dl))
    (reply : ClientRequest × Except HResult Unit) :
    Acts uri s (s.putBack k d ((s.view k d).rename f reply)) k d (d.leave ((s.view k d).rename f reply)) where
  now := rfl
  mcc := ⟨[], rfl⟩
  queue j hj := ServiceQueue.own_weave_other hj (leftOf_view k s.taskQ)
  objects := rfl
  writes p hp := absurd rfl hp
  owns := by
    rintro ⟨hmade, hgone⟩
    have hmade : d.dl.fDestFileCreated = true := hf.made ▸ hmade
    exact ⟨hf.path hmade, .inl ⟨hmade, by rw [← hf.status]; exact hgone⟩⟩
  gone hgone := by
    show (f d.dl).status.state.gone = true
    rw [hf.status]
    exact hgone
  scheduled _ := ServiceQueue.mem_tasks_weave
  waiting c := ServiceQueue.countCall_weave (leftOf_view k s.taskQ) c
  places := placed_weave (leftOf_view k s.taskQ) (.refl _ _ _ _)

/-- A request that looks at the download alone, and gives it at most another path, before it has made its file. -/
theorem Service.AsIfAlone.plain (h : s.AsIfAlone uri k d) (hlive : s.terminated = false)
    {t : Task ServiceOp ServiceTag} {q : ServiceQueue} {r : ClientRequest}
    (hpop : s.taskQ.popNextReady s.now = some (t, q)) (hof : t.op.of k = some (.client r))
    (hc : o.closeErr = none)
    (hkeep : ∀ value, r = .setProperty .localPath value → d.dl.status.state = .created →
      d.dl.fDestFileCreated = true → value.isEmpty = true ∨ value = d.dl.destFilePath)
    {result : Except HResult Unit} {f : Download → Download}
    (hrun : ∀ w : World, w.dl = d.dl → clientRequest uri o r w = (result, w.updateDl f))
    (hf : Renames d.dl (f d.dl)) :
    let s₀ : Service := { s with taskQ := q }
    let v := DoClient.runTask uri o (.client r) (s₀.view k d)
    (s₀.putBack k d v).AsIfAlone uri k (d.leave v) ∧ Acts uri s₀ (s₀.putBack k d v) k d (d.leave v) ∧
      (s₀.putBack k d v).taskQ.shortcutsOf k = q.shortcutsOf k := by
  intro s₀ v
  obtain ⟨w, hw, halone⟩ := h
  obtain ⟨q', hpop', halone'⟩ := halone.pop hpop hof
  obtain ⟨hop, hstep⟩ := @step_run_of_pop uri _ o _ _ (halone.live hlive) hpop'
  have htask : ∀ x : World, x.dl = d.dl → DoClient.runTask uri o (.client r) x = x.rename f (r, result) :=
    fun x hx => by
      simp only [DoClient.runTask, hrun x hx]
      rfl
  have hv : v = (s₀.view k d).rename f (r, result) := htask _ rfl
  rw [hv]
  have hunhindered : Unhindered w (.run o) := unhindered_run hc hop fun value hset => by
    rw [halone.dl]
    exact hkeep value (Op.client.inj hset)
  exact ⟨⟨_, .step hw hunhindered (hstep.trans (congrArg some (htask _ halone.dl))), halone'.rename hf _⟩,
    acts_rename hf _, (halone'.rename hf (r, result)).shortcuts.trans halone'.shortcuts.symm⟩

theorem setProperty_localPath (uri : UriLib) (o : Outside) (d : Download) (value : String) :
    ∃ result, ∃ f : Download → Download, (∀ w : World, w.dl = d →
      clientRequest uri o (.setProperty .localPath value) w = (result, w.updateDl f)) ∧
      (f d = d ∨ value.isEmpty = false ∧ d.status.state = .created ∧
        f d = { d with destFilePath := value }) := by
  by_cases hvalue : value.isEmpty = true
  · refine ⟨.error E_INVALIDARG, id, fun w hw => ?_, .inl rfl⟩
    simp only [clientRequest, setProperty, DlM.bind_run, DlM.get_run, if_pos hvalue, DlM.throwHr_run]
    rfl
  by_cases hs : d.status.state = .created
  · refine ⟨.ok (), fun d => { d with destFilePath := value }, fun w hw => ?_,
      .inr ⟨by simpa using hvalue, hs, rfl⟩⟩
    simp only [clientRequest, setProperty, DlM.bind_run, DlM.get_run, DlM.ite_run, if_neg hvalue,
      hw, ne_eq, hs, not_true_eq_false, if_false, DlM.modify_run]
  · refine ⟨.error DO_E_INVALID_STATE, id, fun w hw => ?_, .inl rfl⟩
    simp only [clientRequest, setProperty, DlM.bind_run, DlM.get_run, DlM.ite_run, if_neg hvalue,
      hw, ne_eq, hs, not_false_eq_true, if_true, DlM.throwHr_run]
    rfl

/-- **The task thread runs an operation of a download, which stays as if alone.** -/
theorem Service.AsIfAlone.runTask (h : s.AsIfAlone uri k d) (hlive : s.terminated = false)
    {t : Task ServiceOp ServiceTag} {q : ServiceQueue} {op : Op}
    (hpop : s.taskQ.popNextReady s.now = some (t, q)) (hof : t.op.of k = some op) (hc : o.closeErr = none)
    (hkeep : ∀ value, op = .client (.setProperty .localPath value) → d.dl.status.state = .created →
      d.dl.fDestFileCreated = true → value.isEmpty = true ∨ value = d.dl.destFilePath) :
    let s₀ : Service := { s with taskQ := q }
    let v := DoClient.runTask uri o op (s₀.view k d)
    (s₀.putBack k d v).AsIfAlone uri k (d.leave v) ∧ Acts uri s₀ (s₀.putBack k d v) k d (d.leave v) ∧
      (s₀.putBack k d v).taskQ.shortcutsOf k ≤ q.shortcutsOf k + if op = .client .start then 1 else 0 := by
  intro s₀ v
  rcases Bool.eq_false_or_eq_true d.dl.status.state.gone with hgone | hgone
  · -- what is queued for it is a client's
    obtain ⟨w, hw, halone⟩ := h
    obtain ⟨q', hpop', -⟩ := halone.pop hpop hof
    have hown := ((settled_of_unhindered hw).pop hpop').2 (by rw [halone.dl]; exact hgone)
    cases op with
    | client r =>
      obtain ⟨result, timeout, hrun⟩ := clientRequest_gone uri o r hgone
      obtain ⟨hself, hacts, hsame⟩ := Service.AsIfAlone.plain ⟨w, hw, halone⟩ hlive hpop hof hc
        (fun value hset => hkeep value (congrArg Op.client hset)) hrun ⟨rfl, rfl, rfl, fun _ => rfl⟩
      exact ⟨hself, hacts, hsame.trans_le (Nat.le_add_right _ _)⟩
    | foreign => exact absurd rfl (ServiceQueue.of_ne_foreign hof)
    | _ => cases hown
  by_cases hpath : ∃ value, op = .client (.setProperty .localPath value)
  · obtain ⟨value, rfl⟩ := hpath
    obtain ⟨result, f, hrun, hf⟩ := setProperty_localPath uri o d.dl value
    have hrenames : Renames d.dl (f d.dl) := ?_
    · obtain ⟨hself, hacts, hsame⟩ := h.plain hlive hpop hof hc
        (fun value' hset => hkeep value' (congrArg Op.client hset)) hrun hrenames
      exact ⟨hself, hacts, hsame.trans_le (Nat.le_add_right _ _)⟩
    rcases hf with hf | ⟨hvalue, hs, hf⟩
    · rw [hf]
      exact ⟨rfl, rfl, rfl, fun _ => rfl⟩
    · rw [hf]
      exact ⟨rfl, rfl, rfl, fun hmade => (hkeep value rfl hs hmade).resolve_left (by simp [hvalue])⟩
  · have hkeeps : ∀ r, op = .client r → r.KeepsPath := fun r hr => by
      cases r with
      | setProperty key value =>
        rintro rfl
        exact hpath ⟨value, hr⟩
      | _ => trivial
    obtain ⟨w', hw', hbeside, hle⟩ := h.run hlive hpop hof hc hgone hkeeps
    exact ⟨⟨w', hw', hbeside.putBack⟩, hbeside.acts hgone, hbeside.putBack.shortcuts.trans_le hle⟩

/-- **A callback of a download's transfer leaves it as if alone.** -/
theorem Service.AsIfAlone.curlEvent (h : s.AsIfAlone uri k d) (hlive : s.terminated = false) {e : CurlEvent}
    {v : World} (hv : DoClient.curlEvent (s.view k d) e = some v) :
    (s.putBack k d v).AsIfAlone uri k (d.leave v) ∧ Acts uri s (s.putBack k d v) k d (d.leave v) ∧
      (s.putBack k d v).taskQ.shortcutsOf k = s.taskQ.shortcutsOf k := by
  obtain ⟨w, hw, halone⟩ := h
  have hcurl : w.curl = d.curl := by rw [halone.same]; rfl
  have hgone : d.dl.status.state.gone = false := by
    by_contra hne
    have hover := (settled_of_unhindered hw).ended (by rw [halone.dl]; simpa using hne)
    have hactive : d.curl.active = none := hcurl ▸ (Life.not_outstanding hover.outstanding).2
    cases e <;> simp [DoClient.curlEvent, Service.view, hactive] at hv
  obtain ⟨w', hw', hbeside⟩ := beside_curlEvent (halone.beside uri hlive hgone) hv
  have hstep : DoClient.step uri w (.curl e) = some w' := by simp [DoClient.step, halone.live hlive, hw']
  obtain ⟨a, hdoes, -, -, hlife⟩ := curlEvent_leads (good_reachable hw.reachable) e hw'
  have hsame : w'.taskQ.count .alreadyTransferred = w.taskQ.count .alreadyTransferred := by
    have hshortcuts := congrArg Life.shortcuts hlife
    cases e with
    | status code | header line =>
      rw [hdoes] at hshortcuts
      exact hshortcuts
    | write chunk out indeterminate =>
      obtain ⟨bytesTotal, n, ok, rfl, -⟩ := hdoes
      exact hshortcuts
    | complete curlResult indeterminate =>
      obtain rfl | ⟨bytesTotal, ok, rfl, -⟩ := hdoes
      · exact hshortcuts
      · exact hshortcuts
  exact ⟨⟨_, .step hw (show Unhindered w (.curl e) from ⟨trivial, trivial⟩) hstep, hbeside.putBack⟩,
    hbeside.acts hgone, hbeside.putBack.shortcuts.trans (hsame.trans halone.shortcuts.symm)⟩

/-- The curl worker goes through its lists for a download. -/
theorem Service.AsIfAlone.drain (h : s.AsIfAlone uri k d) (hlive : s.terminated = false) :
    AsIfAlone uri { s with objects := Function.update s.objects k (some { d with curl := d.curl.drain }) } k
      { d with curl := d.curl.drain } := by
  obtain ⟨w, hw, halone⟩ := h
  have hstep : DoClient.step uri w .drain = some { w with curl := w.curl.drain } := by
    simp [DoClient.step, halone.live hlive]
  refine ⟨_, .step hw (show Unhindered w .drain from ⟨trivial, trivial⟩) hstep, ?_, halone.live, halone.tasks,
    halone.file, halone.alone, halone.stream, halone.kept⟩
  rw [halone.same]
  rfl

/-- Time passes for every download. -/
theorem Service.AsIfAlone.tick (h : s.AsIfAlone uri k d) (hlive : s.terminated = false) (elapsed : Nat) :
    AsIfAlone uri { s with now := s.now + elapsed } k d := by
  obtain ⟨w, hw, halone⟩ := h
  have hstep : DoClient.step uri w (.tick elapsed) = some { w with now := w.now + elapsed } := by
    simp [DoClient.step, halone.live hlive]
  refine ⟨_, .step hw (show Unhindered w (.tick elapsed) from ⟨trivial, trivial⟩) hstep, ?_, halone.live, ?_,
    halone.file, halone.alone, halone.stream, halone.kept⟩
  · rw [halone.same]
    rfl
  · refine halone.tasks.imp fun e e' he => ⟨he.1, he.2.imp_right fun hlt => ?_⟩
    simp only
    omega

/-- A client's operation is queued for a download. -/
theorem Service.AsIfAlone.sched (h : s.AsIfAlone uri k d) (hlive : s.terminated = false) {q : ServiceQueue}
    (r : ClientRequest) {c : Nat}
    (hq : q = if r = .getStatus then s.taskQ.add s.now (.call c k (.download r)) 0 none
      else s.taskQ.addFront s.now (.call c k (.download r)) none) :
    AsIfAlone uri { s with taskQ := q } k d := by
  obtain ⟨w, hw, halone⟩ := h
  have hof : (ServiceOp.call c k (.download r)).of k = some (.client r) := by simp [ServiceOp.of]
  have hstep : DoClient.step uri w (.request r) = some (DoClient.schedBlock r w) := by
    simp [DoClient.step, halone.live hlive]
  have hqueued : ∃ q', DoClient.schedBlock r w = { w with taskQ := q' } ∧
      List.Forall₂ (Near s.now) (q.own k) q'.ops.entries := by
    by_cases hr : r = .getStatus
    · subst hr
      rw [hq, if_pos rfl]
      refine ⟨_, rfl, ?_⟩
      rw [ServiceQueue.own_add_some hof, halone.now]
      exact forall₂_insertEntry (by simp) _ halone.tasks
    · rw [hq, if_neg hr]
      obtain ⟨due, hdue, hown⟩ : ∃ due, due < s.now ∧
          ServiceQueue.own k (s.taskQ.addFront s.now (.call c k (.download r)) none) =
            (due, ⟨.client r, (Op.client r).tag⟩) :: ServiceQueue.own k s.taskQ :=
        ServiceQueue.own_addFront_some hof
      obtain ⟨due', hentries, hdue', -⟩ := TaskQueue.addFront_entries (q := w.taskQ) w.now (Op.client r) none
      refine ⟨w.taskQ.addFront w.now (.client r) none, by cases r <;> first | rfl | exact absurd rfl hr, ?_⟩
      rw [hown, hentries]
      rw [halone.now] at hdue'
      exact .cons ⟨rfl, .inr ⟨hdue, hdue'⟩⟩ halone.tasks
  obtain ⟨q', hsched, htasks⟩ := hqueued
  rw [hsched] at hstep
  refine ⟨_, .step hw (show Unhindered w (.request r) from ⟨trivial, trivial⟩) hstep, ?_, halone.live, htasks,
    halone.file, halone.alone, halone.stream, halone.kept⟩
  rw [halone.same]
  rfl

/-- What is not queued for a download it does not see. -/
theorem Service.AsIfAlone.frame (h : s.AsIfAlone uri k d) (hlive : s.terminated = false)
    (hnow : s'.now = s.now) (hqueue : s'.taskQ.own k = s.taskQ.own k)
    (hmcc : ∃ reports, s'.mcc = s.mcc.reportAll uri s.now reports)
    (hfile : d.dl.OwnsFile → s'.fs d.dl.destFilePath = s.fs d.dl.destFilePath) : s'.AsIfAlone uri k d := by
  obtain ⟨w, hw, halone⟩ := h
  obtain ⟨reports, hreports⟩ := hmcc
  have hreach := reachable_reports hw (halone.live hlive) reports
  have hmcc : w.mcc.reportAll uri w.now reports = s'.mcc := by rw [halone.now, halone.mcc, hreports]
  rw [hmcc] at hreach
  exact ⟨_, hreach, halone.other (fun _ => hlive) hnow hqueue hfile⟩

theorem Service.AsIfAlone.congr (h : s.AsIfAlone uri k d) (hnow : s'.now = s.now)
    (hqueue : s'.taskQ.own k = s.taskQ.own k) (hmcc : s'.mcc = s.mcc) (hfs : s'.fs = s.fs)
    (hterminated : s'.terminated = s.terminated) : s'.AsIfAlone uri k d := by
  obtain ⟨w, hw, halone⟩ := h
  have hother : Alone s' k d { w with mcc := s'.mcc } :=
    halone.other (fun hs => hterminated ▸ hs) hnow hqueue fun _ => by rw [hfs]
  rw [hmcc, ← halone.mcc] at hother
  exact ⟨w, hw, hother⟩

/-- The file a download has made is there until it is gone. -/
theorem Service.AsIfAlone.hasFile (h : s.AsIfAlone uri k d) (howns : d.dl.OwnsFile) :
    s.fs d.dl.destFilePath ≠ none := by
  obtain ⟨w, hw, halone⟩ := h
  rw [halone.file howns]
  refine halone.kept howns.1 ?_
  by_contra hne
  have hgone := (settled_of_unhindered hw).removed (halone.removed ▸ hne)
  rw [halone.dl, howns.2] at hgone
  cases hgone

/-- A download just created is one that begins alone. -/
theorem asIfAlone_new {url destFilePath : String} {id : GUID}
    (hurl : url.isEmpty = true ∨ validateUrl uri url = true) (hqueue : s.taskQ.own k = []) :
    s.AsIfAlone uri k { id := id, dl := { url := url, destFilePath := destFilePath } } := by
  let w : World := { newDownload with
    now := s.now, dl := { url := url, destFilePath := destFilePath }, mcc := s.mcc }
  refine ⟨w, .init ?_, rfl, fun _ => rfl, ?_, fun howns => ?_, fun _ _ => rfl, nofun, nofun⟩
  · exact ⟨⟨url, destFilePath, hurl, rfl⟩, nofun, rfl, rfl, rfl, rfl, rfl, rfl, rfl⟩
  · rw [hqueue]
    exact .nil
  · exact absurd howns.1 Bool.noConfusion

end DoClient
