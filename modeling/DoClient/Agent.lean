/-
The agent around one download: libcurl's callbacks on the curl thread, the
task thread taking one operation after another, clients queueing requests,
time passing. A step is one of these; a run is any sequence of them.

A task of the task thread is one step: what a callback can touch meanwhile is
the queue, which is locked, and the open file, which no task uses before
`Close` has waited for the callbacks.
-/
import DoClient.Lib.Run
import DoClient.Download

namespace DoClient

open HResult

/-! ## `HttpAgent` and `Download` on the curl thread -/

/-- The `bytesTotal` of `Download::OnHeadersAvailable`. For an accepted status other
than 200 and 206 it is never assigned: it is whatever the stack holds. -/
def HttpAgent.bytesTotal (a : HttpAgent) (indeterminate : Nat) : Except HResult Nat :=
  if a.responseStatusCode = 200 then a.queryContentLength
  else if a.responseStatusCode = 206 then a.queryContentLengthFromRange
  else .ok (wrap64 indeterminate)

/-- The response of a transfer alone, as an agent takes it in. -/
def Transfer.response (t : Transfer) : HttpAgent :=
  { responseStatusCode := t.responseCode, responseHeaders := t.headers.foldl HttpAgent.noteHeader [] }

/-- `Download::OnHeadersAvailable`. -/
def onHeadersAvailable (indeterminate : Nat) (w : World) : HResult × World :=
  match w.dl.httpAgent with
  | none => (E_UNEXPECTED, w)
  | some a =>
    match a.bytesTotal indeterminate with
    | .error hr => (hr, w)
    | .ok bytesTotal =>
      (S_OK, w.sched (.headersUpdate a.responseStatusCode bytesTotal a.queryHeaders) 0 .download)

/-- `Download::OnData`. -/
def onData (chunk : List UInt8) (out : WriteOutcome) (w : World) : HResult × World :=
  match appendFileStream chunk out w with
  | (hr, w) => if failed hr then (hr, w) else (S_OK, w.sched (.dataUpdate chunk.length) 0 .download)

/-- `Download::OnComplete`. -/
def onComplete (hrRequest hrCallback : HResult) (w : World) : World :=
  match w.dl.httpAgent with
  | none => w
  | some a =>
    if succeeded hrRequest then w.sched .transferCompleted 0 .download
    else w.sched (.transferFailed hrRequest hrCallback a.responseStatusCode a.queryHeaders) 0 .download

/-- `_TrySetStatusCodeAndInvokeOnHeadersAvailable`. -/
def trySetStatusCodeAndInvokeOnHeadersAvailable (responseCode indeterminate : Nat) (w : World) : World :=
  match w.dl.httpAgent with
  | none => w
  | some a =>
    if a.responseOnHeadersAvailableInvoked then w
    else
      let hrTranslatedStatusCode := HttpAgent.resultFromStatusCode responseCode
      let w := w.updateAgent fun a => { a with
        responseOnHeadersAvailableInvoked := true
        responseStatusCode := responseCode
        hrTranslatedStatusCode := hrTranslatedStatusCode }
      if succeeded hrTranslatedStatusCode then
        match onHeadersAvailable indeterminate w with
        | (hr, w) => w.updateAgent fun a => { a with hrCallback := hr }
      else w

/-- `_WriteCallback`: whether the count returned is the chunk's length. A refused chunk
returns 0, which is the length of an empty one. `OnData` gets the length as a `UINT`. -/
def writeCallback (responseCode : Nat) (chunk : List UInt8) (out : WriteOutcome) (indeterminate : Nat)
    (w : World) :
    Bool × World :=
  let w := trySetStatusCodeAndInvokeOnHeadersAvailable responseCode indeterminate w
  match w.dl.httpAgent with
  | none => (false, w)
  | some a =>
    if succeeded a.hrTranslatedStatusCode && succeeded a.hrCallback then
      match onData (chunk.take (wrap32 chunk.length)) out w with
      | (hr, w) => (succeeded hr || chunk.isEmpty, w.updateAgent fun a => { a with hrCallback := hr })
    else (chunk.isEmpty, w)

/-- `_CompleteCallback`. -/
def completeCallback (responseCode curlResult indeterminate : Nat) (w : World) : World :=
  match w.dl.httpAgent with
  | none => w
  | some a =>
    if a.responseOnCompleteInvoked then w
    else
      let w := w.updateAgent fun a => { a with responseOnCompleteInvoked := true }
      let w := if curlResult = 0 then trySetStatusCodeAndInvokeOnHeadersAvailable responseCode indeterminate w
        else if succeeded a.hrTranslatedStatusCode then
          w.updateAgent fun a =>
            { a with hrTranslatedStatusCode := HttpAgent.curlErrorCodeToHResult curlResult }
        else w
      match w.dl.httpAgent with
      | none => w
      | some a => onComplete a.hrTranslatedStatusCode a.hrCallback w

/-! ## libcurl -/

/-- `CURL_MAX_WRITE_SIZE`. -/
def CURL_MAX_WRITE_SIZE : Nat := 16384

/-- What libcurl does with the transfer in the active list. -/
inductive CurlEvent
  /-- The status line of a response, a redirect's or the last one's. -/
  | status (code : Nat)
  /-- A header line. -/
  | header (line : String)
  /-- Body bytes, and how the `write` to the file ends. -/
  | write (chunk : List UInt8) (out : WriteOutcome) (indeterminate : Nat)
  /-- The end of the transfer, with its `CURLcode`. -/
  | complete (curlResult : Nat) (indeterminate : Nat)
  deriving DecidableEq, Repr

/-- A header line is passed on, before the body or after it. -/
def Transfer.noteHeader (t : Transfer) (line : String) : Transfer :=
  if t.bodyStarted then t else { t with headers := t.headers ++ [line] }

section NoteHeader

variable (t : Transfer) (line : String)

@[simp] theorem Transfer.noteHeader_range : (t.noteHeader line).range = t.range := by
  unfold Transfer.noteHeader; split <;> rfl
@[simp] theorem Transfer.noteHeader_body : (t.noteHeader line).body = t.body := by
  unfold Transfer.noteHeader; split <;> rfl
@[simp] theorem Transfer.noteHeader_bodyStarted : (t.noteHeader line).bodyStarted = t.bodyStarted := by
  unfold Transfer.noteHeader; split <;> rfl
@[simp] theorem Transfer.noteHeader_writeFailed : (t.noteHeader line).writeFailed = t.writeFailed := by
  unfold Transfer.noteHeader; split <;> rfl

end NoteHeader

/-- One event of the active transfer. libcurl passes on only the last response's
body, at most `CURL_MAX_WRITE_SIZE` bytes at a time, and a transfer whose write
callback took too few ends with an error. -/
def curlEvent (w : World) : CurlEvent → Option World
  | .status code => w.curl.active.bind fun t =>
    if t.bodyStarted then none
    else some { w with curl := { w.curl with active := some { t with responseCode := code } } }
  | .header line => w.curl.active.map fun t =>
    { w.updateAgent (·.headerCallback line) with curl := { w.curl with active := some (t.noteHeader line) } }
  | .write chunk out indeterminate => w.curl.active.bind fun t =>
    if t.writeFailed ∨ CURL_MAX_WRITE_SIZE < chunk.length then none
    else
      match writeCallback t.responseCode chunk out indeterminate w with
      | (tookAll, w) => some { w with curl := { w.curl with
          active := some { t with bodyStarted := true, body := t.body ++ chunk, writeFailed := !tookAll } } }
  | .complete curlResult indeterminate => w.curl.active.bind fun t =>
    if t.writeFailed ∧ curlResult = 0 then none
    else
      let w := completeCallback t.responseCode curlResult indeterminate w
      some { w with curl := { w.curl with active := none, completedSinceDrain := true } }

/-! ## Steps -/

/-- `DownloadManager`: a client's thread queues its request in front of the
queue; `GetDownloadStatus` at its end, to see the updates still pending. -/
def schedBlock (r : ClientRequest) (w : World) : World :=
  match r with
  | .getStatus => { w with taskQ := w.taskQ.add w.now (.client r) 0 none }
  | _ => { w with taskQ := w.taskQ.addFront w.now (.client r) none }

/-- `_DoPoll` has no handler: out of an operation an exception ends the agent. -/
def unguarded : Except HResult Unit × World → World
  | (.ok _, w) => w
  | (.error _, w) => { w with terminated := true }

/-- `SchedBlock` keeps what its function throws for the client that waits. -/
def runTask (uri : UriLib) (o : Outside) : Op → World → World
  | .client r, w =>
    match clientRequest uri o r w with
    | (result, w) => { w with replies := (r, result) :: w.replies }
  | op, w => unguarded (runOp uri o op w)

inductive Event
  | tick (elapsed : Nat)
  | request (r : ClientRequest)
  /-- Another download or the agent schedules an operation of its own, in front or after a delay. -/
  | foreign (front : Bool) (delay : Int)
  /-- The task thread takes the first operation, if it is due. -/
  | run (o : Outside)
  /-- The curl worker goes through its lists of handles to add and to remove. -/
  | drain
  | curl (e : CurlEvent)

def step (uri : UriLib) (w : World) (e : Event) : Option World :=
  if w.terminated then none
  else match e with
    | .tick elapsed => some { w with now := w.now + elapsed }
    | .request r => some (schedBlock r w)
    | .foreign front delay => some { w with
        taskQ := if front then w.taskQ.addFront w.now .foreign (some .other)
          else w.taskQ.add w.now .foreign delay (some .other) }
    | .run o => (w.taskQ.popNextReady w.now).map fun (task, taskQ) =>
        runTask uri o task.op { w with taskQ := taskQ }
    | .drain => some { w with curl := w.curl.drain }
    | .curl e => curlEvent w e

/-- A download just created, among whatever other operations are queued. -/
structure Initial (uri : UriLib) (w : World) : Prop where
  download : ∃ url destFilePath, (url.isEmpty ∨ validateUrl uri url) ∧
    w.dl = { url := url, destFilePath := destFilePath }
  taskQ : ∀ t ∈ w.taskQ.tasks, t = ⟨.foreign, some .other⟩
  curl : w.curl = {}
  terminated : w.terminated = false
  requests : w.requests = []
  overlaps : w.overlaps = 0
  created : w.created = []
  removed : w.removed = []
  replies : w.replies = []

/-- The runs of a download. -/
def agent (uri : UriLib) : Trans.System World Event := ⟨Initial uri, step uri⟩

/-- The operation the task thread takes next. -/
def World.nextOp (w : World) : Option Op := (w.taskQ.popNextReady w.now).map (·.1.op)

theorem step_run_some {uri : UriLib} {w w' : World} {o : Outside} (h : step uri w (.run o) = some w') :
    ∃ task taskQ, w.taskQ.popNextReady w.now = some (task, taskQ) ∧ w.nextOp = some task.op ∧
      w' = runTask uri o task.op { w with taskQ := taskQ } := by
  simp only [step] at h
  split at h
  · cases h
  simp only [Option.map_eq_some_iff] at h
  obtain ⟨⟨task, taskQ⟩, hpop, rfl⟩ := h
  exact ⟨task, taskQ, hpop, by simp [World.nextOp, hpop], rfl⟩

theorem step_run_of_pop {uri : UriLib} {w : World} {o : Outside} {task : Task Op Tag} {taskQ : TaskQueue Op Tag}
    (hlive : w.terminated = false) (hpop : w.taskQ.popNextReady w.now = some (task, taskQ)) :
    w.nextOp = some task.op ∧
      step uri w (.run o) = some (runTask uri o task.op { w with taskQ := taskQ }) := by
  simp [World.nextOp, step, hlive, hpop]

/-! ## A download to replay runs of -/

/-- The URI library on `http` URLs without port and query. -/
def plainUri : UriLib where
  validate url := "http://".toList.isPrefixOf url.toList
  scheme url := String.ofList (url.toList.takeWhile (· != ':'))
  host url := String.ofList ((url.toList.drop 7).takeWhile (· != '/'))
  swapUrlHostNameForMCC url newHostname :=
    let rest := url.toList.drop 7
    .ok ("http://" ++ newHostname ++ String.ofList (rest.dropWhile (· != '/')) ++ "?cacheHostOrigin=" ++
      String.ofList (rest.takeWhile (· != '/')))
  proxyAddress url := if url.toList.contains ' ' then .error ERROR_UNHANDLED_EXCEPTION else .ok (url, 0)

/-- A download of `http://origin/file` to `/file`, no file there yet. -/
def newDownload : World where
  now := 0
  taskQ := .empty
  dl := { url := "http://origin/file", destFilePath := "/file" }
  curl := {}
  fs _ := none
  mcc := {}

theorem validateUrl_newDownload : validateUrl plainUri "http://origin/file" = true := by decide +kernel

theorem initial_newDownload {fs : String → Option (List UInt8)} :
    Initial plainUri { newDownload with fs := fs } where
  download := ⟨_, _, .inr validateUrl_newDownload, rfl⟩
  taskQ := nofun
  curl := rfl
  terminated := rfl
  requests := rfl
  overlaps := rfl
  created := rfl
  removed := rfl
  replies := rfl

theorem reachable_newDownload {C : World → Event → Prop} : Trans.ReachableBy (agent plainUri) C newDownload :=
  .init initial_newDownload

end DoClient
