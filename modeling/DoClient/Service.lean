/-
The service: `DownloadManager` (`download/download_manager.cpp`) with its
downloads, the task thread (`threading/task_thread.cpp`) they share, and any
number of clients' threads calling it.

A call of the manager looks its download up, queues its operation with
`SchedBlock`, waits, and drops its reference to the download: these are its
steps, and those of other threads come between them. A download acts on what
it shares with the others through a view of the service, the world of
`DoClient.Download`.
-/
import DoClient.Pending
import DoClient.Timeout

namespace DoClient

open HResult

/-! ## The task queue of the service -/

/-- What a client asks of one download. -/
inductive ManagerRequest
  | download (r : ClientRequest)
  | getProperty (key : DownloadProperty)
  deriving DecidableEq

/-- A lambda a download schedules: one `_CancelTasks` takes out. -/
abbrev Lambda := { op : Op // op.own = true }

/-- The operations of the queue: the lambdas of the downloads, the operations the
calls of the manager wait for, and the manager's own. -/
inductive ServiceOp
  | lambda (k : Nat) (op : Lambda)
  | call (c k : Nat) (request : ManagerRequest)
  | refreshAdminConfigs
  deriving DecidableEq

/-- The addresses used as tags: of a download or its progress tracker, and of the manager. -/
inductive ServiceTag
  | object (k : Nat) (tag : Tag)
  | manager
  deriving DecidableEq

abbrev ServiceQueue := TaskQueue ServiceOp ServiceTag

/-- A lambda of a download, with the tag it is scheduled with. -/
def ServiceOp.lambdaTask (k : Nat) (op : Lambda) : Task ServiceOp ServiceTag :=
  ⟨.lambda k op, op.1.tag.map (.object k)⟩

/-- What an operation is to a download: one of its own, or one of its clients'. -/
def ServiceOp.of (k : Nat) : ServiceOp → Option Op
  | .lambda j op => if j = k then some op.1 else none
  | .call _ j (.download r) => if j = k then some (.client r) else none
  | _ => none

/-- The task a download sees in place of an operation. -/
def ServiceOp.seenBy (k : Nat) (op : ServiceOp) : Task Op Tag :=
  match op.of k with
  | some op => ⟨op, op.tag⟩
  | none => ⟨.foreign, some .other⟩

def ServiceOp.isLambdaOf (k : Nat) : ServiceOp → Bool
  | .lambda j _ => j = k
  | _ => false

/-- The lambda that completes a resume with all bytes there: a download puts it in front. -/
def ServiceOp.isShortcut : ServiceOp → Bool
  | .lambda _ op => op.1 == .alreadyTransferred
  | _ => false

/-- The operation a call waits for. -/
def ServiceOp.isCall (c : Nat) : ServiceOp → Bool
  | .call i _ _ => i = c
  | _ => false

namespace ServiceQueue

/-- The queue as a download sees it. -/
def view (k : Nat) (q : ServiceQueue) : TaskQueue Op Tag := ⟨q.ops.map fun t => t.op.seenBy k⟩

/-- The entries of a download's view that are its own lambdas are those; the others stand
for the other tasks of the queue, in their order. -/
def weaveEntries (k : Nat) :
    List (Task ServiceOp ServiceTag) → List (Int × Task Op Tag) → List (Int × Task ServiceOp ServiceTag)
  | _, [] => []
  | others, e :: l =>
    if h : e.2.op.own = true then (e.1, ServiceOp.lambdaTask k ⟨e.2.op, h⟩) :: weaveEntries k others l
    else match others with
      | t :: others => (e.1, t) :: weaveEntries k others l
      | [] => weaveEntries k [] l

theorem weaveEntries_sublist (k : Nat) (others : List (Task ServiceOp ServiceTag))
    (l : List (Int × Task Op Tag)) :
    ((weaveEntries k others l).map (·.1)).Sublist (l.map (·.1)) := by
  induction l generalizing others with
  | nil => simp [weaveEntries]
  | cons e l ih =>
    simp only [weaveEntries]
    split
    · exact (ih others).cons_cons _
    · split
      · exact (ih _).cons_cons _
      · exact (ih _).cons _

/-- The tasks that are not lambdas of a download. -/
def others (k : Nat) (q : ServiceQueue) : List (Task ServiceOp ServiceTag) :=
  q.tasks.filter fun t => !t.op.isLambdaOf k

/-- The queue after a download has acted on its view of it. -/
def weave (k : Nat) (q : ServiceQueue) (seen : TaskQueue Op Tag) : ServiceQueue :=
  ⟨⟨weaveEntries k (others k q) seen.ops.entries, by
    have hsorted := List.pairwise_map.2 seen.ops.sorted
    exact List.pairwise_map.1 (hsorted.sublist (weaveEntries_sublist k _ _))⟩⟩

section Laws

variable {k j : Nat} {q q' : ServiceQueue} {now delay : Int} {op : ServiceOp} {tag : Option ServiceTag}

theorem own_seenBy (k : Nat) (op : ServiceOp) : (op.seenBy k).op.own = op.isLambdaOf k := by
  cases op with
  | lambda j op =>
    by_cases h : j = k <;> simp [ServiceOp.seenBy, ServiceOp.of, ServiceOp.isLambdaOf, h, op.2]; rfl
  | call c j request =>
    cases request with
    | download r =>
      by_cases h : j = k <;> simp [ServiceOp.seenBy, ServiceOp.of, ServiceOp.isLambdaOf, h] <;> rfl
    | getProperty key => rfl
  | refreshAdminConfigs => rfl

theorem seenBy_lambdaTask (k : Nat) (op : Lambda) :
    (ServiceOp.lambdaTask k op).op.seenBy k = ⟨op.1, op.1.tag⟩ := by
  simp [ServiceOp.lambdaTask, ServiceOp.seenBy, ServiceOp.of]

/-- A queue a download can leave of its view: the tasks that are not its lambdas are still
there, and its lambdas have their tags. -/
structure LeftOf (k : Nat) (q : ServiceQueue) (seen : TaskQueue Op Tag) : Prop where
  others : seen.ops.entries.filter (fun e => !e.2.op.own) = (q.view k).ops.entries.filter fun e => !e.2.op.own
  tags : ∀ e ∈ seen.ops.entries, e.2.op.own = true → e.2.tag = e.2.op.tag

theorem weaveEntries_spec : ∀ {l : List (Int × Task Op Tag)} {m : List (Int × Task ServiceOp ServiceTag)},
    (∀ e ∈ m, e.2.op.isLambdaOf k = false) →
    l.filter (fun e => !e.2.op.own) = m.map (fun e => (e.1, e.2.op.seenBy k)) →
    (∀ e ∈ l, e.2.op.own = true → e.2.tag = e.2.op.tag) →
    (weaveEntries k (m.map (·.2)) l).filter (fun e => !e.2.op.isLambdaOf k) = m ∧
      (weaveEntries k (m.map (·.2)) l).map (fun e => (e.1, e.2.op.seenBy k)) = l
  | [], m, _, hl, _ => by
    obtain rfl : m = [] := List.map_eq_nil_iff.1 hl.symm
    exact ⟨rfl, rfl⟩
  | e :: l, m, hm, hl, htags => by
    have htags' := fun e' he' => htags e' (List.mem_cons_of_mem _ he')
    simp only [weaveEntries]
    by_cases hown : e.2.op.own = true
    · rw [List.filter_cons_of_neg (by simp [hown])] at hl
      obtain ⟨hrest, hseen⟩ := weaveEntries_spec hm hl htags'
      have htag : (ServiceOp.lambdaTask k ⟨e.2.op, hown⟩).op.seenBy k = e.2 := by
        rw [seenBy_lambdaTask]
        exact congrArg (Task.mk e.2.op) (htags e List.mem_cons_self hown).symm
      rw [dif_pos hown, List.filter_cons_of_neg (by simp [ServiceOp.lambdaTask, ServiceOp.isLambdaOf]),
        List.map_cons, hrest, hseen, htag]
      exact ⟨rfl, rfl⟩
    · rw [List.filter_cons_of_pos (by simpa using hown)] at hl
      cases m with
      | nil => cases hl
      | cons t m =>
        obtain ⟨rfl, hl'⟩ := List.cons_eq_cons.1 hl
        obtain ⟨hrest, hseen⟩ := weaveEntries_spec (fun e he => hm e (List.mem_cons_of_mem _ he)) hl' htags'
        rw [dif_neg hown]
        simp only [List.map_cons]
        rw [List.filter_cons_of_pos (by simp [hm t]), hrest, hseen]
        exact ⟨rfl, rfl⟩

theorem tasks_others (k : Nat) (q : ServiceQueue) :
    others k q = (q.ops.entries.filter fun e => !e.2.op.isLambdaOf k).map (·.2) := by
  rw [others, TaskQueue.tasks, List.filter_map]
  rfl

theorem weave_spec {seen : TaskQueue Op Tag} (h : LeftOf k q seen) :
    (q.weave k seen).ops.entries.filter (fun e => !e.2.op.isLambdaOf k) =
        q.ops.entries.filter (fun e => !e.2.op.isLambdaOf k) ∧
      ((q.weave k seen).view k) = seen := by
  have hview : ((q.ops.entries.filter fun e => !e.2.op.isLambdaOf k).map fun e => (e.1, e.2.op.seenBy k)) =
      (q.view k).ops.entries.filter fun e => !e.2.op.own := by
    simp only [view, Multimap.entries_map, List.filter_map, Function.comp_def, own_seenBy]
  obtain ⟨hothers, hseen⟩ := weaveEntries_spec (fun e he => by simpa using (List.mem_filter.1 he).2)
    (h.others.trans hview.symm) h.tags
  rw [← tasks_others] at hothers hseen
  refine ⟨hothers, ?_⟩
  obtain ⟨⟨entries, sorted⟩⟩ := seen
  simp only [view, Multimap.map, weave] at hseen ⊢
  simp only [hseen]

theorem mem_weaveEntries {e : Int × Task ServiceOp ServiceTag} : ∀ {l : List (Int × Task Op Tag)}
    {others : List (Task ServiceOp ServiceTag)}, e ∈ weaveEntries k others l →
    e.2 ∈ others ∨ ∃ op, e.2 = ServiceOp.lambdaTask k op
  | [], _, h => by simp [weaveEntries] at h
  | x :: l, others, h => by
    simp only [weaveEntries] at h
    split at h
    · rcases List.mem_cons.1 h with rfl | h
      · exact .inr ⟨_, rfl⟩
      · exact mem_weaveEntries h
    · split at h
      · rcases List.mem_cons.1 h with rfl | h
        · exact .inl List.mem_cons_self
        · exact (mem_weaveEntries h).imp_left (List.mem_cons_of_mem _)
      · exact mem_weaveEntries h

/-- What a download leaves in the queue: what was there, and lambdas of its own. -/
theorem mem_tasks_weave {seen : TaskQueue Op Tag} {t : Task ServiceOp ServiceTag}
    (h : t ∈ (q.weave k seen).tasks) : t ∈ q.tasks ∨ ∃ op, t = ServiceOp.lambdaTask k op := by
  obtain ⟨e, he, rfl⟩ := List.mem_map.1 h
  exact (mem_weaveEntries he).imp_left List.mem_of_mem_filter

/-- How often the operation a call waits for is queued. -/
def countCall (c : Nat) (q : ServiceQueue) : Nat := q.ops.entries.countP fun e => e.2.op.isCall c

theorem countCall_weave {seen : TaskQueue Op Tag} (h : LeftOf k q seen) (c : Nat) :
    countCall c (q.weave k seen) = countCall c q := by
  have hothers : ∀ p : ServiceQueue, countCall c p =
      (p.ops.entries.filter fun e => !e.2.op.isLambdaOf k).countP fun e => e.2.op.isCall c := fun p => by
    rw [countCall, List.countP_filter]
    refine List.countP_congr fun e _ => ?_
    cases e.2.op <;> simp [ServiceOp.isCall, ServiceOp.isLambdaOf]
  rw [hothers, hothers, (weave_spec h).1]

theorem countCall_add (c : Nat) :
    countCall c (q.add now op delay tag) = countCall c q + if op.isCall c = true then 1 else 0 := by
  simp [countCall, TaskQueue.add, Multimap.countP_insertEntry]

theorem countCall_addFront (c : Nat) :
    countCall c (q.addFront now op tag) = countCall c q + if op.isCall c = true then 1 else 0 := by
  obtain ⟨due, hentries, -, -⟩ := TaskQueue.addFront_entries (q := q) now op tag
  rw [countCall, hentries, List.countP_cons]
  rfl

theorem countCall_pop {t : Task ServiceOp ServiceTag} (h : q.popNextReady now = some (t, q')) (c : Nat) :
    countCall c q = countCall c q' + if t.op.isCall c = true then 1 else 0 := by
  obtain ⟨due, rest, hentries, -, hrest⟩ := TaskQueue.popNextReady_some h
  rw [countCall, hentries, List.countP_cons, countCall, hrest]

/-- The operations of a download in the queue, its clients' too. -/
def own (k : Nat) (q : ServiceQueue) : List (Int × Task Op Tag) :=
  q.ops.entries.filterMap fun e => (e.2.op.of k).map fun op => (e.1, ⟨op, op.tag⟩)

theorem of_ne_foreign {op : ServiceOp} {op' : Op} (h : op.of k = some op') : op' ≠ .foreign := by
  cases op with
  | lambda i op =>
    simp only [ServiceOp.of] at h
    split at h
    · obtain rfl := Option.some.inj h
      intro hforeign
      have hown := op.2
      rw [hforeign] at hown
      cases hown
    · cases h
  | call c i request =>
    cases request with
    | download r =>
      simp only [ServiceOp.of] at h
      split at h
      · obtain rfl := Option.some.inj h
        exact nofun
      · cases h
    | getProperty key => cases h
  | refreshAdminConfigs => cases h

theorem own_eq_filter (k : Nat) (q : ServiceQueue) :
    own k q = (q.view k).ops.entries.filter fun e => e.2.op != .foreign := by
  simp only [own, view, Multimap.entries_map, List.filter_map]
  rw [← List.filterMap_eq_map, List.filterMap_filter]
  refine List.filterMap_congr fun e _ => ?_
  have hseen : e.2.op.seenBy k = match e.2.op.of k with
    | some op => ⟨op, op.tag⟩
    | none => ⟨.foreign, some .other⟩ := rfl
  simp only [Function.comp_def]
  cases h : e.2.op.of k with
  | none =>
    rw [h] at hseen
    simp [hseen]
  | some op =>
    rw [h] at hseen
    simp [hseen, of_ne_foreign h]

theorem own_weave_other {seen : TaskQueue Op Tag} (hj : j ≠ k) (h : LeftOf k q seen) :
    own j (q.weave k seen) = own j q := by
  have hlambda : ∀ p : ServiceQueue, own j p =
      (p.ops.entries.filter fun e => !e.2.op.isLambdaOf k).filterMap fun e =>
        (e.2.op.of j).map fun op => (e.1, ⟨op, op.tag⟩) := fun p => by
    rw [own, List.filterMap_filter]
    refine List.filterMap_congr fun e _ => ?_
    cases he : e.2.op with
    | lambda i op =>
      by_cases hi : i = k
      · simp [ServiceOp.isLambdaOf, ServiceOp.of, hi, hj.symm]
      · simp [ServiceOp.isLambdaOf, hi]
    | call c i request => simp [ServiceOp.isLambdaOf]
    | refreshAdminConfigs => simp [ServiceOp.isLambdaOf]
  rw [hlambda, hlambda, (weave_spec h).1]

theorem own_weave_self {seen : TaskQueue Op Tag} (h : LeftOf k q seen) :
    own k (q.weave k seen) = seen.ops.entries.filter fun e => e.2.op != .foreign := by
  rw [own_eq_filter, (weave_spec h).2]

theorem own_pop {t : Task ServiceOp ServiceTag} (h : q.popNextReady now = some (t, q')) :
    ∃ due, due ≤ now ∧ own k q = ((t.op.of k).map fun op => (due, (⟨op, op.tag⟩ : Task Op Tag))).toList ++
    own k q' := by
  obtain ⟨due, rest, hentries, hdue, hrest⟩ := TaskQueue.popNextReady_some h
  refine ⟨due, hdue, ?_⟩
  simp only [own, hentries, hrest]
  cases hof : t.op.of k with
  | none => rw [List.filterMap_cons_none (by simp [hof])]; rfl
  | some op => rw [List.filterMap_cons_some (b := (due, ⟨op, op.tag⟩)) (by simp [hof])]; rfl

theorem own_add_none (h : op.of k = none) : own k (q.add now op delay tag) = own k q :=
  Multimap.filterMap_insertEntry_none (by simp [h]) _

theorem own_add_some {op' : Op} (h : op.of k = some op') :
    own k (q.add now op delay tag) = Multimap.insertEntry (now + TaskQueue.adjustedDelay delay, ⟨op', op'.tag⟩) (own k q) := by
  have hfilter : ∀ p : ServiceQueue, own k p = p.ops.entries.filterMap fun e =>
      ((e.2.op.of k).map fun op => (⟨op, op.tag⟩ : Task Op Tag)).map (e.1, ·) := fun p =>
    List.filterMap_congr fun e _ => by simp [Function.comp_def]
  rw [hfilter, hfilter]
  exact Multimap.filterMap_insertEntry_some (f := fun t : Task ServiceOp ServiceTag =>
    (t.op.of k).map fun op => (⟨op, op.tag⟩ : Task Op Tag)) (by simp [h]) _ q.ops.sorted

theorem own_addFront_none (h : op.of k = none) : own k (q.addFront now op tag) = own k q := by
  obtain ⟨due, hentries, -, -⟩ := TaskQueue.addFront_entries (q := q) now op tag
  simp only [own, hentries]
  rw [List.filterMap_cons_none (by simp [h])]

theorem own_addFront_some {op' : Op} (h : op.of k = some op') :
    ∃ due, due < now ∧ own k (q.addFront now op tag) = (due, ⟨op', op'.tag⟩) :: own k q := by
  obtain ⟨due, hentries, hdue, -⟩ := TaskQueue.addFront_entries (q := q) now op tag
  refine ⟨due, hdue, ?_⟩
  simp only [own, hentries]
  rw [List.filterMap_cons_some (b := (due, ⟨op', op'.tag⟩)) (by simp [h])]

end Laws

end ServiceQueue

/-! ## The service -/

/-- A `Download` with the id `CreateDownload` gave it, and the records of its world. -/
structure DownloadObject where
  id : GUID
  dl : Download
  curl : CurlHandle := {}
  requests : List IssuedRequest := []
  overlaps : Nat := 0
  created : List String := []
  removed : List String := []
  replies : List (ClientRequest × Except HResult Unit) := []
  /-- `~Download` has cancelled the tasks and goes on to close the agent. -/
  dying : Bool := false

/-- The object once it has acted on its world. -/
def DownloadObject.leave (d : DownloadObject) (w : World) : DownloadObject := { d with
  dl := w.dl, curl := w.curl, requests := w.requests, overlaps := w.overlaps, created := w.created
  removed := w.removed, replies := w.replies }

/-- What a call of the manager returns. -/
inductive Answer
  | done
  | status (s : DownloadStatus)
  | property (value : String)
  deriving DecidableEq

/-- How far a call has come. -/
inductive CallState
  /-- `_GetDownload` has returned the download. -/
  | found
  /-- `SchedBlock` has queued the operation, and waits. -/
  | waiting
  /-- The operation has run. -/
  | ran (result : Except HResult Answer)
  /-- All is done but dropping the reference to the download. -/
  | returning (result : Except HResult Answer)
  deriving DecidableEq

/-- A call in progress: the id it named, the download it refers to. -/
structure Call where
  downloadId : Bytes
  key : Nat
  request : ManagerRequest
  state : CallState

/-- `DownloadManager` and what it owns. A download is known by the number of its
creation, which stands for its address; so is a call. `answers` records, newest
first, what the calls returned, with the download they found; `dangling`: an operation
ran whose download was gone. -/
structure Service where
  now : Int := 0
  taskQ : ServiceQueue := .empty
  downloads : List (Bytes × Nat) := []
  fRunning : Bool := true
  objects : Nat → Option DownloadObject := fun _ => none
  numObjects : Nat := 0
  calls : Nat → Option Call := fun _ => none
  numCalls : Nat := 0
  fs : String → Option (List UInt8) := fun _ => none
  mcc : MccManager := {}
  terminated : Bool := false
  dangling : Bool := false
  answers : List (Option Nat × ManagerRequest × Except HResult Answer) := []

namespace Service

variable (s : Service)

/-- The world a download acts on. -/
def view (k : Nat) (d : DownloadObject) : World where
  now := s.now
  taskQ := s.taskQ.view k
  dl := d.dl
  curl := d.curl
  fs := s.fs
  mcc := s.mcc
  terminated := s.terminated
  requests := d.requests
  overlaps := d.overlaps
  created := d.created
  removed := d.removed
  replies := d.replies

/-- The service once a download has acted on its world. -/
def putBack (k : Nat) (d : DownloadObject) (w : World) : Service := { s with
  taskQ := s.taskQ.weave k w.taskQ
  fs := w.fs
  mcc := w.mcc
  terminated := w.terminated
  objects := Function.update s.objects k (some (d.leave w)) }

def setCall (c : Nat) (call : Option Call) : Service := { s with calls := Function.update s.calls c call }

/-- `_downloads.find`. -/
def find (downloadId : Bytes) : Option Nat := (s.downloads.find? (·.1 == downloadId)).map (·.2)

/-- The calls that refer to a download. -/
def callsOf (k : Nat) : List Nat := (List.range s.numCalls).filter fun c => (s.calls c).any (·.key == k)

/-- Whether the map or a call refers to a download. -/
def isHeld (k : Nat) : Bool := s.downloads.any (·.2 == k) || !(s.callsOf k).isEmpty

/-- `CreateDownload`. The constructor looks at the URL; a download that is not put into the map goes again. -/
def createDownload (uri : UriLib) (id : GUID) (url destFilePath : String) : Except HResult Bytes × Service :=
  if !url.isEmpty && !validateUrl uri url then (.error INET_E_INVALID_URL, s)
  else if !s.fRunning then (.error DO_E_NO_SERVICE, s)
  else match s.find (guidToString id) with
    | some _ => (.ok (guidToString id), s)
    | none => (.ok (guidToString id), { s with
        downloads := (guidToString id, s.numObjects) :: s.downloads
        objects := Function.update s.objects s.numObjects
          (some { id := id, dl := { url := url, destFilePath := destFilePath } })
        numObjects := s.numObjects + 1 })

/-- `_GetDownload`. -/
def getDownload (downloadId : Bytes) : Except HResult Nat :=
  match s.find downloadId with
  | some k => .ok k
  | none => .error E_NOT_SET

/-- A call begins: it gets the download, or returns. -/
def beginCall (downloadId : Bytes) (request : ManagerRequest) : Service :=
  match s.getDownload downloadId with
  | .ok k => { s.setCall s.numCalls (some ⟨downloadId, k, request, .found⟩) with numCalls := s.numCalls + 1 }
  | .error hr => { s with answers := (none, request, .error hr) :: s.answers }

/-- `SchedBlock`: in front of the queue, but for `GetDownloadStatus`. -/
def schedBlock (c : Nat) (call : Call) : Service :=
  let op := .call c call.key call.request
  { s.setCall c (some { call with state := .waiting }) with
    taskQ := if call.request = .download .getStatus then s.taskQ.add s.now op 0 none
      else s.taskQ.addFront s.now op none }

/-- The operation of a call has run: `SchedBlock` returns. -/
def setRan (c : Nat) (result : Except HResult Answer) : Service :=
  { s with
    calls := Function.update s.calls c ((s.calls c).map fun call => { call with state := .ran result }) }

/-- What a request that has run leaves for its caller. -/
def answer (w : World) : ClientRequest → Answer
  | .getStatus => .status w.dl.status
  | _ => .done

/-- `Task::Run`. -/
def runTask (uri : UriLib) (o : Outside) : ServiceOp → Service
  | .lambda k op =>
    match s.objects k with
    | some d => s.putBack k d (DoClient.runTask uri o op.1 (s.view k d))
    | none => { s with dangling := true }
  | .call c k request =>
    match s.objects k, request with
    | some d, .download r =>
      let result := (clientRequest uri o r (s.view k d)).1
      let w := DoClient.runTask uri o (.client r) (s.view k d)
      (s.putBack k d w).setRan c (result.map fun _ => answer w r)
    | some d, .getProperty key => s.setRan c (.ok (.property (d.dl.getProperty d.id key)))
    | none, _ => { s with dangling := true }
  | .refreshAdminConfigs => s

/-- `FinalizeDownload` and `AbortDownload` take the download out of the map when the operation succeeded. -/
def wake (c : Nat) (call : Call) (result : Except HResult Answer) : Service :=
  let ends := call.request = .download .finalize ∨ call.request = .download .abort
  { s.setCall c (some { call with state := .returning result }) with
    downloads := if ends ∧ result.isOk then s.downloads.filter (·.1 != call.downloadId) else s.downloads }

/-- `_CancelTasks`, by the destructor. -/
def cancelTasks (k : Nat) : Service :=
  { s with taskQ := (s.taskQ.remove (.object k .download)).remove (.object k .progressTracker) }

/-- A reference is dropped; with the last one `~Download` begins. -/
def release (k : Nat) : Service :=
  if s.isHeld k then s
  else { s.cancelTasks k with
    objects := Function.update s.objects k ((s.objects k).map fun d => { d with dying := true }) }

/-- A call returns. -/
def endCall (c : Nat) (call : Call) (result : Except HResult Answer) : Service :=
  { (s.setCall c none).release call.key with
    answers := (some call.key, call.request, result) :: s.answers }

end Service

/-! ## Steps -/

inductive ServiceEvent
  | tick (elapsed : Nat)
  | create (id : GUID) (url destFilePath : String)
  | call (downloadId : Bytes) (request : ManagerRequest)
  | sched (c : Nat)
  /-- The task thread takes the first operation, if it is due. -/
  | run (o : Outside)
  | wake (c : Nat)
  | leave (c : Nat)
  /-- The rest of `~Download`: the agent is closed, the file too. -/
  | destroyed (k : Nat)
  | isIdle
  | refreshAdminConfigs
  | drain (k : Nat)
  | curl (k : Nat) (e : CurlEvent)

namespace Service

def step (uri : UriLib) (s : Service) (e : ServiceEvent) : Option Service :=
  if s.terminated then none
  else match e with
    | .tick elapsed => some { s with now := s.now + elapsed }
    | .create id url destFilePath => some (s.createDownload uri id url destFilePath).2
    | .call downloadId request => some (s.beginCall downloadId request)
    | .sched c => (s.calls c).bind fun call =>
      match call.state with
      | .found => some (s.schedBlock c call)
      | _ => none
    | .run o => (s.taskQ.popNextReady s.now).map fun (task, taskQ) =>
        runTask { s with taskQ := taskQ } uri o task.op
    | .wake c => (s.calls c).bind fun call =>
      match call.state with
      | .ran result => some (s.wake c call result)
      | _ => none
    | .leave c => (s.calls c).bind fun call =>
      match call.state with
      | .returning result => some (s.endCall c call result)
      | _ => none
    | .destroyed k => (s.objects k).bind fun d =>
      if d.dying then some { s with objects := Function.update s.objects k none } else none
    | .isIdle => some { s with fRunning := !s.downloads.isEmpty }
    | .refreshAdminConfigs =>
      some { s with taskQ := s.taskQ.addFront s.now .refreshAdminConfigs (some .manager) }
    | .drain k => (s.objects k).map fun d =>
      { s with objects := Function.update s.objects k (some { d with curl := d.curl.drain }) }
    | .curl k e => (s.objects k).bind fun d => (curlEvent (s.view k d) e).map (s.putBack k d)

end Service

/-- The runs of the service: from a start with no download, whatever files there are. -/
def service (uri : UriLib) : Trans.System Service ServiceEvent where
  init s := ∃ now fs, s = { now := now, fs := fs }
  step := Service.step uri

/-- A step, event by event: what it needs and what it leaves. -/
inductive Service.Steps (uri : UriLib) (s : Service) : ServiceEvent → Service → Prop
  | tick {elapsed : Nat} : Steps uri s (.tick elapsed) { s with now := s.now + elapsed }
  | create {id : GUID} {url destFilePath : String} :
    Steps uri s (.create id url destFilePath) (s.createDownload uri id url destFilePath).2
  | call {downloadId : Bytes} {request : ManagerRequest} :
    Steps uri s (.call downloadId request) (s.beginCall downloadId request)
  | sched {c : Nat} {call : Call} : s.calls c = some call → call.state = .found →
    Steps uri s (.sched c) (s.schedBlock c call)
  | run {o : Outside} {t : Task ServiceOp ServiceTag} {q : ServiceQueue} :
    s.taskQ.popNextReady s.now = some (t, q) → Steps uri s (.run o) (runTask { s with taskQ := q } uri o t.op)
  | wake {c : Nat} {call : Call} {result : Except HResult Answer} : s.calls c = some call →
    call.state = .ran result → Steps uri s (.wake c) (s.wake c call result)
  | leave {c : Nat} {call : Call} {result : Except HResult Answer} : s.calls c = some call →
    call.state = .returning result → Steps uri s (.leave c) (s.endCall c call result)
  | destroyed {k : Nat} {d : DownloadObject} : s.objects k = some d → d.dying = true →
    Steps uri s (.destroyed k) { s with objects := Function.update s.objects k none }
  | isIdle : Steps uri s .isIdle { s with fRunning := !s.downloads.isEmpty }
  | refreshAdminConfigs : Steps uri s .refreshAdminConfigs
      { s with taskQ := s.taskQ.addFront s.now .refreshAdminConfigs (some .manager) }
  | drain {k : Nat} {d : DownloadObject} : s.objects k = some d → Steps uri s (.drain k)
      { s with objects := Function.update s.objects k (some { d with curl := d.curl.drain }) }
  | curl {k : Nat} {e : CurlEvent} {d : DownloadObject} {v : World} : s.objects k = some d →
    curlEvent (s.view k d) e = some v → Steps uri s (.curl k e) (s.putBack k d v)

theorem steps_of_step {uri : UriLib} {s s' : Service} {e : ServiceEvent}
    (hstep : (service uri).step s e = some s') : s.terminated = false ∧ s.Steps uri e s' := by
  replace hstep : Service.step uri s e = some s' := hstep
  unfold Service.step at hstep
  split at hstep
  · cases hstep
  next hlive =>
  refine ⟨by simpa using hlive, ?_⟩
  cases e with
  | tick | create | call | isIdle | refreshAdminConfigs =>
    obtain rfl := Option.some.inj hstep
    constructor
  | run o =>
    obtain ⟨⟨t, q⟩, hpop, rfl⟩ := Option.map_eq_some_iff.1 hstep
    exact .run hpop
  | sched c | wake c | leave c =>
    obtain ⟨call, hc, hs⟩ := Option.bind_eq_some_iff.1 hstep
    split at hs
    · next hstate =>
      obtain rfl := Option.some.inj hs
      constructor
      · exact hc
      · exact hstate
    · cases hs
  | destroyed k =>
    obtain ⟨d, hk, hs⟩ := Option.bind_eq_some_iff.1 hstep
    split at hs
    · next hdying =>
      obtain rfl := Option.some.inj hs
      exact .destroyed hk hdying
    · cases hs
  | drain k =>
    obtain ⟨d, hk, rfl⟩ := Option.map_eq_some_iff.1 hstep
    exact .drain hk
  | curl k e =>
    obtain ⟨d, hk, hs⟩ := Option.bind_eq_some_iff.1 hstep
    obtain ⟨v, hv, rfl⟩ := Option.map_eq_some_iff.1 hs
    exact .curl hk hv

end DoClient
