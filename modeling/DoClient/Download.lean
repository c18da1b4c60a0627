/-
`Download` (`download/download.cpp`): the data of one download, the world it
acts on, and its functions as the task thread and the curl thread run them.

A function that can throw is a `DlM`: its result and the world it leaves, also
when it throws. What the system answers while a task runs (network, config,
proxies, errors of file operations) is an argument, `Outside`. The assertions
(`DO_ASSERT`) are those of a release build: none.
-/
import DoClient.Http

namespace DoClient

open HResult

/-! ## Status -/

inductive DownloadState
  | created | transferring | transferred | finalized | aborted | paused
  deriving DecidableEq, Repr

structure DownloadStatus where
  bytesTotal : Nat := 0
  bytesTransferred : Nat := 0
  state : DownloadState := .created
  error : HResult := S_OK
  extendedError : HResult := S_OK
  deriving DecidableEq, Repr

namespace DownloadStatus

variable (s : DownloadStatus)

/-- `IsTransientError`: paused to wait for the network. -/
def isTransientError : Bool := s.state == .paused && s.error == S_OK && failed s.extendedError

def transferring : DownloadStatus := { s with state := .transferring, error := S_OK, extendedError := S_OK }

def paused (hrError hrExtendedError : HResult) : DownloadStatus :=
  { s with state := .paused, error := hrError, extendedError := hrExtendedError }

def transferred : DownloadStatus := { s with state := .transferred }

def finalized : DownloadStatus := { s with state := .finalized }

def aborted : DownloadStatus := { s with state := .aborted }

end DownloadStatus

/-! ## Progress tracker and proxy list -/

/-- `g_progressTrackerCheckInterval`, in seconds. -/
def progressTrackerCheckInterval : Nat := 10

/-- `g_progressTrackerMaxNoProgressIntervals`. -/
def progressTrackerMaxNoProgressIntervals : Nat := 30

/-- `g_progressTrackerMaxRetryDelay`, in seconds. -/
def progressTrackerMaxRetryDelay : Nat := 30

/-- `DownloadProgressTracker`; the retry delay is in seconds. -/
structure ProgressTracker where
  nextRetryDelay : Nat := 1
  numNoProgressIntervals : Nat := 0
  lastSeenBytesTransferred : Nat := 0
  deriving DecidableEq, Repr

namespace ProgressTracker

variable (t : ProgressTracker)

/-- `CheckProgress`: whether the download timed out, and the tracker after the check. -/
def checkProgress (newBytesTransferred maxNoProgressIntervals : Nat) : Bool × ProgressTracker :=
  let t := if t.lastSeenBytesTransferred < newBytesTransferred then
      { t with numNoProgressIntervals := 0, lastSeenBytesTransferred := newBytesTransferred }
    else { t with numNoProgressIntervals := wrap32 (t.numNoProgressIntervals + 1) }
  (decide (maxNoProgressIntervals ≤ t.numNoProgressIntervals), t)

def onDownloadFailure : ProgressTracker :=
  { t with nextRetryDelay := min progressTrackerMaxRetryDelay (t.nextRetryDelay * 2) }

def resetRetryDelay : ProgressTracker := { t with nextRetryDelay := 1 }

def reset : ProgressTracker := { t.resetRetryDelay with numNoProgressIntervals := 0 }

end ProgressTracker

/-- `ProxyList`: the candidates and the position of the iterator. -/
structure ProxyList where
  candidateProxies : List String := []
  it : Nat := 0
  deriving DecidableEq, Repr

namespace ProxyList

/-- `Refresh`, given the proxies found for the URL. -/
def refresh (found : List String) : ProxyList := ⟨found.filter (· != "direct://"), 0⟩

/-- `Next`: round robin; the empty string when there is no candidate. -/
def next (p : ProxyList) : String × ProxyList :=
  match p.candidateProxies[p.it]? with
  | none => ("", p)
  | some ret => (ret, { p with it := if p.it + 1 = p.candidateProxies.length then 0 else p.it + 1 })

end ProxyList

/-! ## The download and its world -/

inductive ConnectionType
  | none | mcc | cdn
  deriving DecidableEq, Repr

inductive DownloadProperty
  | id | uri | localPath | noProgressTimeoutSeconds
  /-- The properties this client does not support. -/
  | other
  deriving DecidableEq, Repr

/-- The members of `Download`. Times out of use (`_timer`) and the id are left out. -/
structure Download where
  url : String
  destFilePath : String
  /-- In seconds; 0 is `_unsetTimeout`. -/
  noProgressTimeout : Nat := 0
  mccFallbackDue : Option Int := none
  status : DownloadStatus := {}
  progressTracker : ProgressTracker := {}
  /-- The path the open file was opened by. -/
  fileStream : Option String := none
  httpAgent : Option HttpAgent := none
  responseHeaders : String := ""
  httpStatusCode : Nat := 0
  proxyList : ProxyList := {}
  mccHost : String := ""
  numAttemptsWithCurrentConnectionType : Nat := 0
  connectionType : ConnectionType := .none
  cbTransferredAtRequestBegin : Nat := 0
  fOriginalHostAttempted : Bool := false
  fHttpRequestActive : Bool := false
  fDestFileCreated : Bool := false
  fAllowMcc : Bool := true
  deriving DecidableEq, Repr

/-- What a client asks of a download through `DownloadManager`. -/
inductive ClientRequest
  | start | pause | finalize | abort | getStatus
  | setProperty (key : DownloadProperty) (value : String)
  deriving DecidableEq, Repr

/-- The operations on the task queue: a client's request, the lambdas `Download`
schedules, and those of other downloads and of the agent. -/
inductive Op
  | client (request : ClientRequest)
  /-- Scheduled by `OnHeadersAvailable`. -/
  | headersUpdate (httpStatusCode bytesTotal : Nat) (responseHeaders : String)
  /-- Scheduled by `OnData`. -/
  | dataUpdate (cbData : Nat)
  /-- Scheduled by `OnComplete` on success. -/
  | transferCompleted
  /-- Scheduled by `OnComplete` on failure. -/
  | transferFailed (hrRequest hrCallback : HResult) (httpStatusCode : Nat) (responseHeaders : String)
  /-- Scheduled after a failure that is not fatal. -/
  | retry
  /-- Scheduled by `_HandleTransientError`. -/
  | transientTimer
  /-- Scheduled by `_Resume` when all bytes are there. -/
  | alreadyTransferred
  /-- Scheduled by `_SchedProgressTracking`. -/
  | progressCheck
  | foreign
  deriving DecidableEq, Repr

/-- The addresses used as tags: the download, its progress tracker, any other. -/
inductive Tag
  | download | progressTracker | other
  deriving DecidableEq, Repr

/-- A request handed to `CurlRequests`, as it was asked for, and the bytes the
destination file held then. -/
structure IssuedRequest where
  url : String
  range : Option ByteRange
  /-- The lines of its header list. -/
  requestHeaders : List String
  connectTimeoutSecs : Nat
  time : Int
  fileLength : Nat
  deriving DecidableEq, Repr

/-- The transfer it is handed over as. -/
def IssuedRequest.transfer (r : IssuedRequest) : Transfer :=
  { url := r.url, range := r.range, requestHeaders := r.requestHeaders }

/-- The first byte a request asks for. -/
def IssuedRequest.startOffset (r : IssuedRequest) : Nat := rangeStart r.range

@[simp] theorem IssuedRequest.transfer_bodyStarted (r : IssuedRequest) : r.transfer.bodyStarted = false := rfl
@[simp] theorem IssuedRequest.transfer_writeFailed (r : IssuedRequest) : r.transfer.writeFailed = false := rfl
@[simp] theorem IssuedRequest.transfer_body (r : IssuedRequest) : r.transfer.body = [] := rfl
@[simp] theorem IssuedRequest.transfer_startOffset (r : IssuedRequest) :
    r.transfer.startOffset = r.startOffset := rfl

/-- Everything a download acts on. `requests`, `created`, `removed` and `replies`
record, newest first, the requests issued, the files created and removed, and
what the finished client requests returned; `overlaps` counts the calls of
`SendRequest` made while a request was outstanding. -/
structure World where
  now : Int
  taskQ : TaskQueue Op Tag
  dl : Download
  curl : CurlHandle
  fs : String → Option (List UInt8)
  mcc : MccManager
  terminated : Bool := false
  requests : List IssuedRequest := []
  overlaps : Nat := 0
  created : List String := []
  removed : List String := []
  replies : List (ClientRequest × Except HResult Unit) := []

/-- What the system answers while one task runs. An error is an `errno`. -/
structure Outside where
  hasViableInterface : Bool := true
  mccHost : String := ""
  /-- In seconds. -/
  fallbackDelay : Option Int := none
  proxies : List String := []
  createErr : Option Nat := none
  openErr : Option Nat := none
  closeErr : Option Nat := none
  removeErr : Option Nat := none
  /-- The transfer completed while `CurlRequests::Remove` was about to have it removed. -/
  removeRaced : Bool := false
  /-- Cleared where the destructor of `CurlRequests` has begun, which the task thread outlives. -/
  fKeepRunning : Bool := true
  /-- Errors other downloads report to `MCCManager`: result, HTTP status, cache host, URL. -/
  reports : List (HResult × Nat × String × String) := []

/-- The length of the destination file. -/
def World.fileLength (w : World) : Nat := ((w.fs w.dl.destFilePath).getD []).length

/-! ## Functions that may throw -/

def DlM (α : Type) : Type := World → Except HResult α × World

namespace DlM

instance : Monad DlM where
  pure a := fun w => (.ok a, w)
  bind x f := fun w =>
    match x w with
    | (.ok a, w') => f a w'
    | (.error hr, w') => (.error hr, w')

def get : DlM World := fun w => (.ok w, w)

def modify (f : World → World) : DlM Unit := fun w => (.ok (), f w)

def throwHr {α} (hr : HResult) : DlM α := fun w => (.error hr, w)

def liftExcept {α} (x : Except HResult α) : DlM α := fun w => (x, w)

/-- `THROW_IF_FAILED`. -/
def throwIfFailed (hr : HResult) : DlM Unit := if failed hr then throwHr hr else pure ()

/-- `CATCH_LOG` around a function body. -/
def catchLog (x : DlM Unit) : DlM Unit := fun w => (.ok (), (x w).2)

/-- `std::terminate`, where an exception leaves a `noexcept` function. -/
def terminate : DlM Unit := fun w => (.error E_UNEXPECTED, { w with terminated := true })

@[simp] theorem pure_run {α} (a : α) (w : World) : (pure a : DlM α) w = (.ok a, w) := rfl
@[simp] theorem bind_run {α β} (x : DlM α) (f : α → DlM β) (w : World) :
    (x >>= f) w = match x w with
      | (.ok a, w') => f a w'
      | (.error hr, w') => (.error hr, w') := rfl
@[simp] theorem get_run (w : World) : get w = (.ok w, w) := rfl
@[simp] theorem modify_run (f : World → World) (w : World) : modify f w = (.ok (), f w) := rfl
@[simp] theorem throwHr_run {α} (hr : HResult) (w : World) : (throwHr hr : DlM α) w = (.error hr, w) := rfl
@[simp] theorem liftExcept_run {α} (x : Except HResult α) (w : World) : liftExcept x w = (x, w) := rfl
@[simp] theorem catchLog_run (x : DlM Unit) (w : World) : catchLog x w = (.ok (), (x w).2) := rfl
theorem throwIfFailed_run (hr : HResult) (w : World) :
    throwIfFailed hr w = if failed hr then (.error hr, w) else (.ok (), w) := by
  unfold throwIfFailed; split <;> rfl
@[simp] theorem ite_run {α} (c : Prop) [Decidable c] (x y : DlM α) (w : World) :
    (if c then x else y) w = if c then x w else y w := by
  split <;> rfl

end DlM

/-! ## The world, changed in one place -/

namespace World

variable (w : World)

def updateDl (f : Download → Download) : World := { w with dl := f w.dl }

def updateStatus (f : DownloadStatus → DownloadStatus) : World :=
  w.updateDl fun d => { d with status := f d.status }

def updateAgent (f : HttpAgent → HttpAgent) : World :=
  w.updateDl fun d => { d with httpAgent := d.httpAgent.map f }

/-- `TaskThread::Sched` of one of the download's lambdas. -/
def sched (op : Op) (delay : Int) (tag : Tag) : World :=
  { w with taskQ := w.taskQ.add w.now op delay (some tag) }

/-- `_CancelTasks`. -/
def cancelTasks : World := { w with taskQ := (w.taskQ.remove .download).remove .progressTracker }

/-- `HttpAgent::Close`. -/
def closeHttpAgent (raced : Bool) : World :=
  match w.dl.httpAgent with
  | some a => if a.curlHandle.isSome then { w with curl := w.curl.remove raced } else w
  | none => w

/-- A new `HttpAgent`; the one it replaces is closed and its handle freed. -/
def makeHttpAgent : World := { w.updateDl fun d => { d with httpAgent := some {} } with curl := {} }

end World

open DlM

/-! ## Files -/

def EBADF : Nat := 9
def ENOENT : Nat := 2
def EEXIST : Nat := 17
def EFBIG : Nat := 27

/-- `_fileStream.Close()`. -/
def closeFileStream (o : Outside) : DlM Unit := do
  let w ← get
  if w.dl.fileStream.isSome then
    match o.closeErr with
    | some err => throwHr (fromXplatSyserr err)
    | none => modify (·.updateDl fun d => { d with fileStream := none })
  else pure ()

/-- The move assignment to `_fileStream`, which closes what it held and is `noexcept`. -/
def assignFileStream (o : Outside) (path : String) : DlM Unit := do
  let w ← get
  if w.dl.fileStream.isSome ∧ o.closeErr.isSome then terminate
  else modify (·.updateDl fun d => { d with fileStream := some path })

/-- `_fileStream = DOFile::Create(_destFilePath)`, and `_fDestFileCreated`. -/
def createDestFile (o : Outside) : DlM Unit := do
  let w ← get
  let path := w.dl.destFilePath
  if (w.fs path).isSome then throwHr (fromXplatSyserr EEXIST)
  else match o.createErr with
    | some err => throwHr (fromXplatSyserr err)
    | none => do
      modify fun w => { w with fs := Function.update w.fs path (some []), created := path :: w.created }
      assignFileStream o path
      modify (·.updateDl fun d => { d with fDestFileCreated := true })

/-- `_fileStream = DOFile::Open(_destFilePath)`, for appending. -/
def openDestFile (o : Outside) : DlM Unit := do
  let w ← get
  let path := w.dl.destFilePath
  if (w.fs path).isNone then throwHr (fromXplatSyserr ENOENT)
  else match o.openErr with
    | some err => throwHr (fromXplatSyserr err)
    | none => assignFileStream o path

/-- `DOFile::Delete(_destFilePath)`: an error is only logged. -/
def deleteDestFile (o : Outside) (w : World) : World :=
  let path := w.dl.destFilePath
  if (w.fs path).isSome ∧ o.removeErr.isNone then
    { w with fs := Function.update w.fs path none, removed := path :: w.removed }
  else w

/-- How a `write` to the file ends: bytes written, at most those given, or an `errno`. -/
inductive WriteOutcome
  | wrote (n : Nat)
  | error (errno : Nat)
  deriving DecidableEq, Repr

/-- `_fileStream.Append`. No file grows past what an `off_t` can say. -/
def appendFileStream (chunk : List UInt8) (out : WriteOutcome) (w : World) : HResult × World :=
  match w.dl.fileStream with
  | none => (fromXplatSyserr EBADF, w)
  | some path =>
    let content := (w.fs path).getD []
    match out with
    | .error errno => (fromXplatSyserr errno, w)
    | .wrote n =>
      if 2 ^ 63 ≤ content.length + chunk.length then (fromXplatSyserr EFBIG, w)
      else
        let w := { w with fs := Function.update w.fs path (some (content ++ chunk.take n)) }
        if n < chunk.length then (ERROR_BAD_LENGTH, w) else (S_OK, w)

/-! ## Requests -/

/-- `_SchedProgressTracking`. -/
def schedProgressTracking (w : World) : World :=
  if w.taskQ.exists_ .progressTracker then w
  else w.sched .progressCheck (seconds progressTrackerCheckInterval) .progressTracker

/-- `_UpdateConnectionTypeAndGetUrl` up to the choice of the URL: the
connection type to try, and whether MCC use ends (the fallback is past due). -/
def nextConnectionType (d : Download) (now : Int) (retryAfterFailure : Bool) : ConnectionType × Bool :=
  if retryAfterFailure then
    match d.mccFallbackDue with
    | some due => if due ≤ now then (.cdn, false) else (d.connectionType, d.fAllowMcc)
    | none =>
      let noProgressOnCurrentConnectionType := d.cbTransferredAtRequestBegin == d.status.bytesTransferred
      let enoughAttempts :=
        noProgressOnCurrentConnectionType && decide (2 ≤ d.numAttemptsWithCurrentConnectionType)
      match d.connectionType with
      | .mcc => (if d.fOriginalHostAttempted && !enoughAttempts then .mcc else .cdn, d.fAllowMcc)
      | .cdn => (if enoughAttempts then .mcc else .cdn, d.fAllowMcc)
      | .none => (.none, d.fAllowMcc)
  else (.mcc, d.fAllowMcc)

/-- Whether a request goes to the cache host. -/
def usesMcc (uri : UriLib) (w : World) (newConnectionType : ConnectionType) (fAllowMcc : Bool) : Bool :=
  newConnectionType == .mcc && fAllowMcc && !w.dl.mccHost.isEmpty && !w.mcc.isBanned uri w.now
    w.dl.mccHost w.dl.url

/-- The connection type used, and the number of attempts with it. -/
def Download.setConnectionType (newConnectionType : ConnectionType) (d : Download) : Download :=
  if newConnectionType ≠ d.connectionType then
    { d with connectionType := newConnectionType, numAttemptsWithCurrentConnectionType := 1 }
  else { d with numAttemptsWithCurrentConnectionType := wrap32 (d.numAttemptsWithCurrentConnectionType + 1) }

/-- `_UpdateConnectionTypeAndGetUrl`. -/
def updateConnectionTypeAndGetUrl (uri : UriLib) (retryAfterFailure : Bool) : DlM String := do
  let w ← get
  let (newConnectionType, fAllowMcc) := nextConnectionType w.dl w.now retryAfterFailure
  modify (·.updateDl fun d => { d with fAllowMcc := fAllowMcc })
  if usesMcc uri w newConnectionType fAllowMcc then do
    let urlToUse ← liftExcept (uri.swapUrlHostNameForMCC w.dl.url w.dl.mccHost)
    modify (·.updateDl (·.setConnectionType .mcc))
    return urlToUse
  else do
    modify (·.updateDl (·.setConnectionType .cdn))
    return w.dl.url

/-- `_httpAgent->SendRequest`; a request handed to curl is recorded. -/
def sendRequest (uri : UriLib) (o : Outside) (url : String) (szProxyUrl : Option String)
    (szRange : Option ByteRange) (connectTimeoutSecs : Nat) : DlM HResult := fun w =>
  match w.dl.httpAgent with
  | none => (.ok E_UNEXPECTED, w)
  | some a =>
    match a.sendRequest uri w.curl o.fKeepRunning url szProxyUrl szRange connectTimeoutSecs with
    | (hr, a, curl) =>
      let w := { w.updateDl fun d => { d with httpAgent := some a } with
        curl := curl, overlaps := w.overlaps + w.curl.outstanding.toNat }
      if failed hr then (.ok hr, w)
      else (.ok hr, { w with
        requests := ⟨url, szRange, a.headerLines, connectTimeoutSecs, w.now, w.fileLength⟩ :: w.requests })

/-- The range `_SendHttpRequest` asks for: none from the start, else the bytes not yet there. -/
def rangeToRequest (s : DownloadStatus) : Except HResult (Option ByteRange) :=
  if s.bytesTransferred = 0 then .ok none
  else (makeRange s.bytesTransferred (wrap64 (s.bytesTotal + 2 ^ 64 - s.bytesTransferred))).map some

/-- The members `_SendHttpRequest` sets once the request is handed over. -/
def Download.requestSent (d : Download) : Download := { d with
  fHttpRequestActive := true
  cbTransferredAtRequestBegin := d.status.bytesTransferred
  fOriginalHostAttempted := d.fOriginalHostAttempted || d.connectionType == .cdn
  status := { d.status with error := S_OK, extendedError := S_OK } }

/-- The rest of `_SendHttpRequest` then. -/
def noteRequestSent (w : World) : World := schedProgressTracking (w.updateDl (·.requestSent))

/-- `_SendHttpRequest`. -/
def sendHttpRequest (uri : UriLib) (o : Outside) (retryAfterFailure : Bool) : DlM Unit := do
  let w ← get
  let (proxy, proxyList) := w.dl.proxyList.next
  modify (·.updateDl fun d => { d with proxyList := proxyList })
  let szProxyUrl := if proxy.isEmpty then none else some proxy
  let url ← updateConnectionTypeAndGetUrl uri retryAfterFailure
  let w ← get
  let connectTimeoutSecs := if w.dl.connectionType = .mcc then 3 else 15
  let range ← liftExcept (rangeToRequest w.dl.status)
  let hr ← sendRequest uri o url szProxyUrl range connectTimeoutSecs
  throwIfFailed hr
  modify noteRequestSent

/-! ## State changes -/

/-- The due time of the fallback from MCC, when the configuration gives a delay (-1: never). -/
def setMccFallbackDue (o : Outside) (w : World) : World :=
  match o.fallbackDelay with
  | none => w
  | some delay => w.updateDl fun d => { d with
      mccFallbackDue := some (if delay = -1 then timePointMax else w.now + seconds delay) }

/-- `_Start`. -/
def start (uri : UriLib) (o : Outside) : DlM Unit := do
  let w ← get
  if w.dl.url.isEmpty then throwHr DO_E_DOWNLOAD_NO_URI
  else if w.dl.destFilePath.isEmpty then throwHr DO_E_FILE_DOWNLOADSINK_UNSPECIFIED
  else do
    createDestFile o
    modify World.makeHttpAgent
    modify (·.updateDl fun d => { d with proxyList := ProxyList.refresh o.proxies })
    modify (setMccFallbackDue o)
    modify (·.updateDl fun d => { d with mccHost := o.mccHost })
    sendHttpRequest uri o false

/-- `_Resume`. -/
def resume (uri : UriLib) (o : Outside) : DlM Unit := do
  openDestFile o
  let w ← get
  if w.dl.status.bytesTotal ≠ 0 ∧ w.dl.status.bytesTransferred = w.dl.status.bytesTotal then
    modify fun w => { w with taskQ := w.taskQ.addFront w.now .alreadyTransferred (some .download) }
  else do
    modify (·.updateDl fun d => if d.fAllowMcc then { d with mccHost := o.mccHost } else d)
    sendHttpRequest uri o false

/-- `_Pause`. -/
def pause (o : Outside) : DlM Unit := do
  modify (·.closeHttpAgent o.removeRaced)
  modify (·.updateDl fun d => { d with fHttpRequestActive := false })
  closeFileStream o

/-- `_Finalize`. -/
def finalize (o : Outside) : DlM Unit := do
  modify (·.closeHttpAgent o.removeRaced)
  modify (·.updateDl fun d => { d with fHttpRequestActive := false })
  closeFileStream o
  modify World.cancelTasks

/-- `_Abort`. -/
def abort (o : Outside) : DlM Unit := catchLog do
  modify (·.closeHttpAgent o.removeRaced)
  closeFileStream o
  modify World.cancelTasks
  let w ← get
  if w.dl.fDestFileCreated ∧ ¬ w.dl.destFilePath.isEmpty then modify (deleteDestFile o) else pure ()

/-- `_PerformStateChange`. -/
def performStateChange (uri : UriLib) (o : Outside) (newState : DownloadState) : DlM Unit := do
  let w ← get
  match w.dl.status.state, newState with
  | .created, .transferring => do start uri o; modify (·.updateStatus (·.transferring))
  | .created, .paused => pure ()
  | .created, .finalized => throwHr DO_E_INVALID_STATE
  | .created, .aborted => do abort o; modify (·.updateStatus (·.aborted))
  | .transferring, .transferring => pure ()
  | .transferring, .paused => do pause o; modify (·.updateStatus (·.paused S_OK S_OK))
  | .transferring, .finalized => throwHr DO_E_INVALID_STATE
  | .transferring, .aborted => do abort o; modify (·.updateStatus (·.aborted))
  | .transferred, .transferring => pure ()
  | .transferred, .paused => pure ()
  | .transferred, .finalized => do finalize o; modify (·.updateStatus (·.finalized))
  | .transferred, .aborted => do abort o; modify (·.updateStatus (·.aborted))
  | .paused, .transferring => do resume uri o; modify (·.updateStatus (·.transferring))
  | .paused, .paused => pure ()
  | .paused, .finalized => throwHr DO_E_INVALID_STATE
  | .paused, .aborted => do abort o; modify (·.updateStatus (·.aborted))
  | .finalized, s => if s ≠ .finalized then throwHr DO_E_INVALID_STATE else pure ()
  | .aborted, s => if s ≠ .aborted then throwHr DO_E_INVALID_STATE else pure ()
  -- No request asks for the states Created and Transferred.
  | _, _ => pure ()

/-- `string_conversions::ToUInt`. -/
def toUInt (val : String) : Except HResult Nat :=
  match stoull val.toList with
  | some n => .ok (wrap32 n)
  | none => .error E_INVALIDARG

/-- `SetProperty`. -/
def setProperty (uri : UriLib) (o : Outside) (key : DownloadProperty) (value : String) : DlM Unit := do
  let w ← get
  match key with
  | .id => throwHr DO_E_READ_ONLY_PROPERTY
  | .uri =>
    if value.isEmpty then throwHr E_INVALIDARG
    else if !validateUrl uri value then throwHr INET_E_INVALID_URL
    else if w.dl.status.state ≠ .created ∧ w.dl.status.state ≠ .paused then throwHr DO_E_INVALID_STATE
    else modify (·.updateDl fun d =>
      if d.status.state = .paused ∧ value ≠ d.url then
        { d with
          url := value, progressTracker := d.progressTracker.reset, proxyList := ProxyList.refresh o.proxies }
      else { d with url := value })
  | .localPath =>
    if value.isEmpty then throwHr E_INVALIDARG
    else if w.dl.status.state ≠ .created then throwHr DO_E_INVALID_STATE
    else modify (·.updateDl fun d => { d with destFilePath := value })
  | .noProgressTimeoutSeconds => do
    let timeout ← liftExcept (toUInt value)
    if timeout < progressTrackerCheckInterval then throwHr E_INVALIDARG
    else modify (·.updateDl fun d => { d with noProgressTimeout := timeout })
  | .other => pure ()

/-- A client's request, as the lambda `DownloadManager` schedules runs it. -/
def clientRequest (uri : UriLib) (o : Outside) : ClientRequest → DlM Unit
  | .start => performStateChange uri o .transferring
  | .pause => performStateChange uri o .paused
  | .finalize => performStateChange uri o .finalized
  | .abort => performStateChange uri o .aborted
  | .getStatus => pure ()
  | .setProperty key value => setProperty uri o key value

/-! ## The scheduled lambdas -/

/-- `_HandleTransientError`. -/
def handleTransientError (hr : HResult) (w : World) : World :=
  (w.updateStatus (·.paused S_OK hr)).sched .transientTimer (seconds 30) .download

/-- `_ResumeAfterTransientError`. -/
def resumeAfterTransientError (uri : UriLib) (o : Outside) : DlM Unit := do
  let w ← get
  if w.dl.status.isTransientError then do
    sendHttpRequest uri o false
    modify (·.updateStatus (·.transferring))
  else pure ()

namespace Download

variable (d : Download)

/-- `_UsingMcc`. -/
def usingMcc : Bool := d.connectionType == .mcc

/-- `_NoFallbackFromMcc`. -/
def noFallbackFromMcc : Bool := d.mccFallbackDue == some timePointMax

/-- `_ShouldPauseMccUsage`. -/
def shouldPauseMccUsage (now : Int) (isFatalError : Bool) : Bool :=
  if d.usingMcc then
    if isFatalError then true
    else match d.mccFallbackDue with
      | some due => decide (due ≤ now)
      | none => !d.fOriginalHostAttempted
  else false

/-- `_ShouldFailFastPerConnectionType`. -/
def shouldFailFastPerConnectionType : Bool := if d.usingMcc then d.noFallbackFromMcc else true

/-- `_IsFatalError`. -/
def isFatalError (hrRequest hrCallback : HResult) (httpStatusCode : Nat) : Bool :=
  if failed hrCallback then true
  else if isClientError httpStatusCode && d.shouldFailFastPerConnectionType then true
  else hrRequest == E_OUTOFMEMORY || hrRequest == INET_E_INVALID_URL ||
    hrRequest == DO_E_INSUFFICIENT_RANGE_SUPPORT || hrRequest == fromXplatSyserr HttpAgent.CURLE_WRITE_ERROR

/-- `_MaxNoProgressIntervals`: the timeout over the check interval, rounded to nearest. -/
def maxNoProgressIntervals : Nat :=
  if d.noProgressTimeout = 0 then progressTrackerMaxNoProgressIntervals
  else (2 * d.noProgressTimeout + progressTrackerCheckInterval) / (2 * progressTrackerCheckInterval)

end Download

/-- The error a failed request is reported with. -/
def hrErrorToReport (hrRequest hrCallback : HResult) : HResult :=
  if failed hrCallback then hrCallback else hrRequest

/-- The end of the failure lambda of `OnComplete`: note the failure, stay in
Transferring, and retry after a delay, none when the fallback from MCC is due. -/
def schedRetry (hr : HResult) (w : World) : World :=
  let w := w.updateDl fun d => { d with
    status := { d.status with error := hr }
    progressTracker := d.progressTracker.onDownloadFailure }
  if w.dl.shouldPauseMccUsage w.now (isClientError w.dl.httpStatusCode) then
    (w.updateDl fun d => { d with progressTracker := d.progressTracker.resetRetryDelay }).sched
      .retry 0 .download
  else w.sched .retry (seconds w.dl.progressTracker.nextRetryDelay) .download

/-- The failure lambda of `OnComplete`. -/
def transferFailed (uri : UriLib) (o : Outside) (hrRequest hrCallback : HResult) (httpStatusCode : Nat)
    (responseHeaders : String) : DlM Unit := do
  modify (·.updateDl fun d => { d with
    fHttpRequestActive := false, httpStatusCode := httpStatusCode, responseHeaders := responseHeaders })
  if !o.hasViableInterface then modify (handleTransientError DO_E_BLOCKED_BY_NO_NETWORK)
  else do
    modify fun w => if w.dl.usingMcc then
      { w with
        mcc := w.mcc.reportHostError uri w.now hrRequest w.dl.httpStatusCode w.dl.mccHost w.dl.url } else w
    let w ← get
    if w.dl.isFatalError hrRequest hrCallback httpStatusCode then do
      pause o
      modify (·.updateStatus (·.paused (hrErrorToReport hrRequest hrCallback) S_OK))
    else modify (schedRetry (hrErrorToReport hrRequest hrCallback))

/-- The lambda of `_SchedProgressTracking`. -/
def progressCheck (o : Outside) : DlM Unit := do
  let w ← get
  if w.dl.status.state = .transferring then do
    let (fTimedOut, tracker) :=
      w.dl.progressTracker.checkProgress w.dl.status.bytesTransferred w.dl.maxNoProgressIntervals
    modify (·.updateDl fun d => { d with progressTracker := tracker })
    if fTimedOut then do
      pause o
      modify (·.updateStatus fun s => s.paused DO_E_DOWNLOAD_NO_PROGRESS s.error)
    else modify schedProgressTracking
  else pure ()

/-- `Task::Run` of every operation but a client's. -/
def runOp (uri : UriLib) (o : Outside) : Op → DlM Unit
  | .client r => clientRequest uri o r
  | .headersUpdate httpStatusCode bytesTotal responseHeaders =>
    modify (·.updateDl fun d => { d with
      httpStatusCode := httpStatusCode, responseHeaders := responseHeaders
      status := { d.status with bytesTotal := bytesTotal } })
  | .dataUpdate cbData =>
    modify (·.updateStatus fun s => { s with bytesTransferred := wrap64 (s.bytesTransferred + cbData) })
  | .transferCompleted =>
    modify (·.updateDl fun d => { d with fHttpRequestActive := false, status := d.status.transferred })
  | .transferFailed hrRequest hrCallback httpStatusCode responseHeaders =>
    transferFailed uri o hrRequest hrCallback httpStatusCode responseHeaders
  | .retry => do
    let w ← get
    if w.dl.status.state = .transferring ∧ ¬ w.dl.fHttpRequestActive then sendHttpRequest uri o true
      else pure ()
  | .transientTimer =>
    if o.hasViableInterface then resumeAfterTransientError uri o
    else modify (handleTransientError DO_E_BLOCKED_BY_NO_NETWORK)
  | .alreadyTransferred => modify (·.updateStatus (·.transferred))
  | .progressCheck => progressCheck o
  | .foreign => modify fun w => { w with
      mcc := o.reports.foldl (fun m r => m.reportHostError uri w.now r.1 r.2.1 r.2.2.1 r.2.2.2) w.mcc }

end DoClient
