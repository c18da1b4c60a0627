/-
The life cycle of one download: what its client sees (state, counters, file),
the transfer under way, and what is still to be applied to the status. The
abstract machine under the results about whole runs; `DoClient.Refine` shows
every step of the agent to be one of its acts.

An act says what happened, not what decided it: routes, proxies, headers,
retry delays and the rest of the task queue are left out.
-/
import DoClient.Agent
import DoClient.Pending

namespace DoClient

/-- A download between two tasks. -/
structure Life where
  state : DownloadState := .created
  /-- In Paused, waiting for the network. -/
  waiting : Bool := false
  /-- `_fHttpRequestActive`. -/
  active : Bool := false
  bytesTotal : Nat := 0
  bytesTransferred : Nat := 0
  /-- The content of the destination file; empty before the first request. -/
  file : List UInt8 := []
  /-- The transfer the curl worker has yet to take up. -/
  queued : Option Transfer := none
  /-- The transfer libcurl works on. -/
  running : Option Transfer := none
  updates : List Update := []
  /-- Transient-error timers, and resumes that found everything transferred. -/
  timers : Nat := 0
  shortcuts : Nat := 0
  requests : List IssuedRequest := []
  overlaps : Nat := 0
  terminated : Bool := false
  deriving Repr

/-- From where `_SendHttpRequest` is called. -/
inductive Trigger
  | start | resume | timer | retry
  deriving DecidableEq, Repr

inductive Act
  /-- Nothing the life cycle knows of changes. -/
  | idle
  | send (t : Trigger) (r : IssuedRequest)
  /-- `_SendHttpRequest`, or what comes before it, throws; `called`: in `SendRequest`. -/
  | sendFailed (t : Trigger) (called terminates : Bool)
  /-- A resume with all bytes there. -/
  | skipRequest
  /-- Paused by the client or for lack of progress. -/
  | closed
  | closeFailed (terminates : Bool)
  | finalized
  | finalizeFailed
  | aborted (cancelled : Bool) (file : List UInt8)
  | drain (lost : Bool)
  | status (code : Nat)
  | header (line : String)
  /-- A chunk of which `n` bytes reach the file; `bytesTotal` when it also brings the headers' update. -/
  | write (bytesTotal : Option Nat) (chunk : List UInt8) (n : Nat) (ok : Bool)
  | complete (bytesTotal : Option Nat) (ok : Bool)
  /-- The transfer ends when the agent takes its request for completed already. -/
  | completeIgnored
  | headers (bytesTotal : Nat)
  | data (cbData : Nat)
  | completed
  /-- The failure lambda without network, for a fatal failure, and otherwise. -/
  | failedOffline
  | failedFatal (closed : Bool)
  | failedRetry
  | timerOffline
  /-- A timer that finds the network back and the download not waiting. -/
  | timerIdle
  | alreadyTransferred

/-- The status of the response is one `HttpAgent` takes for success. -/
def Transfer.Accepted (t : Transfer) : Prop :=
  succeeded (HttpAgent.resultFromStatusCode t.responseCode) = true

instance (t : Transfer) : Decidable t.Accepted := inferInstanceAs (Decidable (_ = true))

/-- `OnHeadersAvailable` takes the response: an accepted one whose length can be read. -/
def Transfer.HeadersTaken (t : Transfer) : Prop := t.Accepted ∧ (t.response.bytesTotal 0).isOk = true

instance (t : Transfer) : Decidable t.HeadersTaken := inferInstanceAs (Decidable (_ ∧ _))

/-- The total length that comes with the next of a transfer's body, or with its end:
none once the body has begun, else what the client reads out of an accepted response. -/
def Transfer.Reports (t : Transfer) (bytesTotal : Option Nat) : Prop :=
  if t.bodyStarted = true ∨ ¬ t.Accepted then bytesTotal = none
  else ∃ indeterminate, bytesTotal = (t.response.bytesTotal indeterminate).toOption

namespace Life

variable (l : Life)

/-- A request was handed to curl and has neither completed nor been removed. -/
def outstanding : Bool := l.queued.isSome || l.running.isSome

/-- What the trigger of a request asks of the state. -/
def Ready : Trigger → Prop
  | .start => l.state = .created ∧ l.active = false ∧ l.outstanding = false ∧ l.updates = [] ∧ l.timers = 0 ∧
      l.shortcuts = 0 ∧ l.bytesTransferred = 0 ∧ l.bytesTotal = 0 ∧ l.file = []
  | .resume => l.state = .paused ∧ ¬ (l.bytesTotal ≠ 0 ∧ l.bytesTransferred = l.bytesTotal)
  | .timer => l.waiting = true ∧ 0 < l.timers ∧ l.shortcuts = 0
  | .retry => l.state = .transferring ∧ l.active = false ∧ l.shortcuts = 0

/-- When an act can happen. -/
def Enabled : Act → Prop
  | .idle => True
  | .send t r =>
    l.Ready t ∧ l.queued = none ∧ r.startOffset = l.bytesTransferred ∧ r.fileLength = l.file.length
  | .sendFailed .resume _ _ => l.state = .paused
  | .sendFailed .start _ _ => l.Ready .start
  | .sendFailed t _ terminates => l.Ready t ∧ terminates = true
  | .skipRequest => l.state = .paused ∧ l.bytesTotal ≠ 0 ∧ l.bytesTransferred = l.bytesTotal
  | .closed => l.state = .transferring
  | .closeFailed _ => l.state = .transferring
  | .finalized | .finalizeFailed => l.state = .transferred
  | .aborted cancelled file => l.state ≠ .finalized ∧ l.state ≠ .aborted ∧
      (file = l.file ∨ cancelled = true ∧ file = [])
  | .drain _ => True
  | .status _ => ∃ t, l.running = some t ∧ t.bodyStarted = false
  | .header _ => l.running.isSome = true
  | .write bytesTotal chunk n ok => (∃ t, l.running = some t ∧ t.writeFailed = false ∧ (l.overlaps = 0 →
        (n ≠ 0 → t.HeadersTaken) ∧ t.Reports bytesTotal)) ∧
      (ok = true → n = chunk.length) ∧ (ok = false → n = 0 ∨ n < chunk.length) ∧
      (n = 0 ∨ l.file.length + chunk.length < 2 ^ 63) ∧ (∀ m ∈ bytesTotal, m < 2 ^ 64)
  | .complete bytesTotal ok =>
    (∃ t, l.running = some t ∧ (ok = true → t.writeFailed = false ∧ (l.overlaps = 0 →
      t.Accepted ∧ t.Reports bytesTotal)) ∧ (ok = false → bytesTotal = none)) ∧ (∀ m ∈ bytesTotal, m < 2 ^ 64)
  | .completeIgnored => l.running.isSome = true
  | .headers bytesTotal => l.updates.head? = some (.headers bytesTotal) ∧ l.shortcuts = 0
  | .data cbData => l.updates.head? = some (.data cbData) ∧ l.shortcuts = 0
  | .completed => l.updates.head? = some .completed ∧ l.shortcuts = 0
  | .failedOffline | .failedFatal _ | .failedRetry => l.updates.head? = some .failed ∧ l.shortcuts = 0
  | .timerOffline => 0 < l.timers ∧ l.shortcuts = 0
  | .timerIdle => l.waiting = false ∧ 0 < l.timers ∧ l.shortcuts = 0
  | .alreadyTransferred => 0 < l.shortcuts

/-- The agent closed, nothing active. -/
def close : Life := { l with queued := none, running := none, active := false }

/-- Waiting for the network, another timer set. -/
def goOffline : Life := { l with state := .paused, waiting := true, timers := l.timers + 1 }

/-- The end of a wait for the network uses up its timer. -/
def useTimer : Trigger → Life
  | .timer => { l with timers := l.timers - 1 }
  | _ => l

def cancel : Life := { l with updates := [], timers := 0, shortcuts := 0 }

/-- What an act makes of the life. -/
def apply : Act → Life
  | .idle => l
  | .send t r => { l.useTimer t with
      state := .transferring, waiting := false, active := true
      queued := some r.transfer
      requests := r :: l.requests
      overlaps := l.overlaps + l.outstanding.toNat }
  | .sendFailed t called terminates => { l.useTimer t with
      overlaps := l.overlaps + if called then l.outstanding.toNat else 0
      terminated := terminates }
  | .skipRequest => { l with state := .transferring, waiting := false, shortcuts := l.shortcuts + 1 }
  | .closed => { l.close with state := .paused, waiting := false }
  | .closeFailed terminates => { l.close with terminated := terminates }
  | .finalizeFailed => l.close
  | .finalized => { l.close.cancel with state := .finalized, waiting := false }
  | .aborted cancelled file =>
    let l := { l with queued := none, running := none, state := .aborted, waiting := false, file := file }
    if cancelled then l.cancel else l
  | .drain lost => { l with
      queued := none
      running := if lost then none else if l.running.isSome then l.running else l.queued }
  | .status code => { l with running := l.running.map fun t => { t with responseCode := code } }
  | .header line => { l with running := l.running.map (·.noteHeader line) }
  | .write bytesTotal chunk n ok => { l with
      updates :=
        l.updates ++ (bytesTotal.map Update.headers).toList ++ if ok then [.data chunk.length] else []
      file := l.file ++ chunk.take n
      running := l.running.map fun t =>
        { t with bodyStarted := true, body := t.body ++ chunk, writeFailed := !(ok || chunk.isEmpty) } }
  | .complete bytesTotal ok => { l with
      updates := l.updates ++ (bytesTotal.map Update.headers).toList ++ [if ok then .completed else .failed]
      running := none }
  | .completeIgnored => { l with running := none }
  | .headers bytesTotal => { l with updates := l.updates.tail, bytesTotal := bytesTotal }
  | .data cbData => { l with
      updates := l.updates.tail, bytesTransferred := wrap64 (l.bytesTransferred + cbData) }
  | .completed =>
    { l with updates := l.updates.tail, active := false, state := .transferred, waiting := false }
  | .failedOffline => { l.goOffline with updates := l.updates.tail, active := false }
  | .failedFatal true => { l.close with updates := l.updates.tail, state := .paused, waiting := false }
  | .failedFatal false => { l.close with updates := l.updates.tail, terminated := true }
  | .failedRetry => { l with updates := l.updates.tail, active := false, waiting := false }
  | .timerOffline => { l with state := .paused, waiting := true }
  | .timerIdle => { l with timers := l.timers - 1 }
  | .alreadyTransferred => { l with shortcuts := l.shortcuts - 1, state := .transferred, waiting := false }

end Life

open Classical in
/-- The life cycle as a system: a download just created, then one act after another. -/
noncomputable def lifeCycle : Trans.System Life Act where
  init l := l = {}
  step l a := if l.terminated = false ∧ l.Enabled a then some (l.apply a) else none

theorem lifeCycle_step {l l' : Life} {a : Act} :
    lifeCycle.step l a = some l' ↔ (l.terminated = false ∧ l.Enabled a) ∧ l.apply a = l' := by
  simp [lifeCycle]

end DoClient
