/-
`CurlRequests` (`util/do_curl_wrappers.cpp`): the lists of easy handles kept
under `_mutex`, the worker thread that serves them, the owners of the handles
and the destructor, in any interleaving.

`Add`, `Remove` up to its wait, and the destructor's first block hold the lock
from end to end: each is one step. The worker's critical sections are taken
statement by statement where another thread can see one from outside the lock:
a `Remove` waits for an event that is set in the middle of a section. The
destructor's second block holds no lock.
-/
import DoClient.HResult
import DoClient.Lib.Run

namespace DoClient.CurlRequests

variable {H : Type*}

/-- `HandleData`, then the `WrappedHandleData` made of it. The ticket tells the
calls of `Add` apart, and the events of the entries. -/
structure HandleData (H : Type*) where
  easyHandle : H
  ticket : Nat
  deriving DecidableEq, Repr

/-- The statement of `ActiveHandles::Complete` and `_Remove` that is next for an entry. -/
inductive Stage
  /-- `pCallback`, in `Complete` alone. -/
  | callback
  /-- `curl_multi_remove_handle`. -/
  | removeHandle
  /-- `inactiveSignal.SetEvent`. -/
  | setEvent
  /-- `_handles.erase`. -/
  | erase
  deriving DecidableEq, Repr

/-- Where the worker thread is. -/
inductive Worker (H : Type*)
  /-- At the top of `_DoWork`'s loop. -/
  | top
  /-- In the loop over `_handlesToRemove`, holding the lock: the entry in hand, the handles after it. -/
  | removing (current : Option (HandleData H × Stage)) (rest : List H)
  /-- In `_cv.wait`. -/
  | waiting
  /-- In `_PerformTransferTasks`, without the lock. -/
  | performing
  /-- In `_CheckForAndHandleCompletedRequestsUnderLock`: the entry in hand. -/
  | completing (current : Option (HandleData H × Stage))
  | exited
  deriving DecidableEq, Repr

/-- Where the destructor is. -/
inductive Destructor (H : Type*)
  | notCalled
  | joining
  /-- In `RemoveAll`: the entries to go; whether the first is out of the multi handle already. -/
  | removingAll (rest : List (HandleData H)) (removed : Bool)
  | clearing
  | done
  deriving DecidableEq, Repr

namespace Worker

/-- The entry in hand. -/
def current : Worker H → Option (HandleData H × Stage)
  | removing current _ | completing current => current
  | _ => none

def holdsLock : Worker H → Bool
  | removing .. | completing _ => true
  | _ => false

end Worker

/-- The members of `CurlRequests`, what libcurl's multi handle holds, and the
callers of `Remove` that wait. Then a record: how many calls of `Add` were
accepted, the tickets whose completion callback was invoked, those whose handle
`Remove` was called for since, the handles whose last `Remove` returned (not by
its timeout) with no `Add` since, and for each handle the ticket of the last
`Add` until it completes or a `Remove` returns. -/
structure State (H : Type*) where
  fKeepRunning : Bool := true
  handlesToAdd : List (HandleData H) := []
  handlesToRemove : List H := []
  activeHandles : List (HandleData H) := []
  multiHandle : List H := []
  /-- The transfers libcurl has a `CURLMSG_DONE` for. -/
  messages : List H := []
  /-- The entries whose `inactiveSignal` is set. -/
  signaled : List Nat := []
  worker : Worker H := .top
  destructor : Destructor H := .notCalled
  /-- The entry the owner of a handle waits for in `Remove`. -/
  waits : H → Option Nat := fun _ => none
  added : Nat := 0
  completed : List Nat := []
  removed : List Nat := []
  quiet : H → Bool := fun _ => false
  outstanding : H → Option Nat := fun _ => none

variable [DecidableEq H]

/-- `_Find`. -/
def find (easyHandle : H) (l : List (HandleData H)) : Option (HandleData H) :=
  l.find? (·.easyHandle = easyHandle)

/-- The tickets of a handle's entries. -/
def tickets (easyHandle : H) (l : List (HandleData H)) : List Nat :=
  (l.filter (·.easyHandle = easyHandle)).map (·.ticket)

namespace State

variable (s : State H)

/-- `Add`. -/
def add (easyHandle : H) : Except HResult (State H) :=
  if !s.fKeepRunning then .error HResult.E_NOT_VALID_STATE
  else if (find easyHandle s.handlesToAdd).isSome then .error HResult.ERROR_ALREADY_EXISTS
  else .ok { s with
    handlesToAdd := s.handlesToAdd ++ [⟨easyHandle, s.added⟩]
    added := s.added + 1
    quiet := Function.update s.quiet easyHandle false
    outstanding := Function.update s.outstanding easyHandle (some s.added) }

/-- The owner comes back from `Remove`. -/
def returned (easyHandle : H) : State H := { s with
  waits := Function.update s.waits easyHandle none
  outstanding := Function.update s.outstanding easyHandle none }

/-- `Remove` up to the wait, or to its return when the handle is not active. -/
def remove (easyHandle : H) : State H :=
  let s := { s with
    handlesToAdd := s.handlesToAdd.filter (·.easyHandle ≠ easyHandle)
    removed := tickets easyHandle (s.handlesToAdd ++ s.activeHandles) ++ s.removed }
  match find easyHandle s.activeHandles with
  | none => { s.returned easyHandle with quiet := Function.update s.quiet easyHandle true }
  | some existing => { s with
    handlesToRemove :=
      if easyHandle ∈ s.handlesToRemove then s.handlesToRemove else s.handlesToRemove ++ [easyHandle]
    waits := Function.update s.waits easyHandle (some existing.ticket) }

/-- `ActiveHandles::Add`. -/
def activate (inHandle : HandleData H) : State H :=
  if (find inHandle.easyHandle s.activeHandles).isSome then s
  else { s with
    activeHandles := s.activeHandles ++ [inHandle]
    multiHandle := s.multiHandle ++ [inHandle.easyHandle] }

/-- `curl_multi_remove_handle`, which takes the handle's message with it. -/
def curlMultiRemoveHandle (easyHandle : H) : State H := { s with
  multiHandle := s.multiHandle.filter (· ≠ easyHandle)
  messages := s.messages.filter (· ≠ easyHandle) }

/-- One statement of `Complete` or `_Remove`, and the one after it. -/
def runStage (entry : HandleData H) : Stage → State H × Option (HandleData H × Stage)
  | .callback => ({ s with
      completed := entry.ticket :: s.completed
      outstanding := if s.outstanding entry.easyHandle = some entry.ticket
        then Function.update s.outstanding entry.easyHandle none else s.outstanding },
      some (entry, .removeHandle))
  | .removeHandle => (s.curlMultiRemoveHandle entry.easyHandle, some (entry, .setEvent))
  | .setEvent => ({ s with signaled := entry.ticket :: s.signaled }, some (entry, .erase))
  | .erase => ({ s with activeHandles := s.activeHandles.filter (· ≠ entry) }, none)

/-- The next statement of the worker thread. -/
def workerStep : Option (State H) :=
  match s.worker with
  | .top =>
    if !s.fKeepRunning then some { s with worker := .exited }
    else
      let s := s.handlesToAdd.foldl activate s
      some { s with handlesToAdd := [], worker := .removing none s.handlesToRemove }
  | .removing none (h :: rest) => some { s with
      worker := .removing ((find h s.activeHandles).map (·, .removeHandle)) rest }
  | .removing none [] => some { s with
      handlesToRemove := [], worker := if s.activeHandles.isEmpty then .waiting else .performing }
  | .removing (some (entry, stage)) rest =>
    match s.runStage entry stage with
    | (s, next) => some { s with worker := .removing next rest }
  | .waiting => if !s.fKeepRunning || !s.handlesToAdd.isEmpty then some { s with worker := .top } else none
  -- `_PerformTransferTasks` returns now and then.
  | .performing => some { s with worker := .top }
  | .completing none =>
    match s.messages with
    | [] => some { s with worker := .performing }
    | h :: rest =>
      -- A message of a handle that is not active dereferences the list's end.
      (find h s.activeHandles).map fun entry =>
        { s with messages := rest, worker := .completing (some (entry, .callback)) }
  | .completing (some (entry, stage)) =>
    match s.runStage entry stage with
    | (s, next) => some { s with worker := .completing next }
  | .exited => none

/-- The next statement of the destructor. -/
def destructorStep : Option (State H) :=
  match s.destructor with
  | .notCalled =>
    if s.worker.holdsLock then none else some { s with fKeepRunning := false, destructor := .joining }
  | .joining =>
    match s.worker with
    | .exited => some { s with destructor := .removingAll s.activeHandles false }
    | _ => none
  | .removingAll (entry :: rest) false => some { s.curlMultiRemoveHandle entry.easyHandle with
      destructor := .removingAll (entry :: rest) true }
  | .removingAll (entry :: rest) true => some { s with
      signaled := entry.ticket :: s.signaled, destructor := .removingAll rest false }
  | .removingAll [] _ => some { s with activeHandles := [], destructor := .clearing }
  | .clearing => some { s with handlesToAdd := [], handlesToRemove := [], destructor := .done }
  | .done => none

end State

inductive Event (H : Type*)
  /-- The owner of a handle calls `Add`. -/
  | add (easyHandle : H)
  /-- The owner calls `Remove`. -/
  | remove (easyHandle : H)
  /-- The event the owner waits for in `Remove` is set, and `Remove` returns. -/
  | removeReturns (easyHandle : H)
  /-- The wait in `Remove` takes 30 minutes. -/
  | removeTimesOut (easyHandle : H)
  /-- The worker's next statement. -/
  | worker
  /-- `curl_multi_perform` calls the header or the write callback of a handle. -/
  | callback (easyHandle : H)
  /-- `curl_multi_perform` ends a transfer. -/
  | transferDone (easyHandle : H)
  /-- `curl_multi_perform` has returned; are there fewer running than active handles? -/
  | performed
  /-- The destructor's next statement. -/
  | destroy
  deriving DecidableEq, Repr

/-- A handle's owner makes one call at a time; a call that throws changes nothing. -/
def step (s : State H) : Event H → Option (State H)
  | .add h =>
    if s.worker.holdsLock ∨ (s.waits h).isSome ∨ s.destructor = .done then none
    else match s.add h with
      | .ok s' => some s'
      | .error _ => some s
  | .remove h =>
    if s.worker.holdsLock ∨ (s.waits h).isSome ∨ s.destructor = .done then none else some (s.remove h)
  | .removeReturns h => (s.waits h).bind fun ticket =>
    if ticket ∈ s.signaled then some { s.returned h with quiet := Function.update s.quiet h true } else none
  | .removeTimesOut h => (s.waits h).map fun _ => s.returned h
  | .worker => s.workerStep
  | .callback h => if s.worker = .performing ∧ h ∈ s.multiHandle ∧ h ∉ s.messages then some s else none
  | .transferDone h =>
    if s.worker = .performing ∧ h ∈ s.multiHandle ∧ h ∉ s.messages
      then some { s with messages := s.messages ++ [h] }
    else none
  | .performed =>
    if s.worker = .performing then
      if (s.multiHandle.filter (· ∉ s.messages)).length < s.activeHandles.length then
        some { s with worker := .completing none }
      else some s
    else none
  | .destroy => s.destructorStep

/-- The handle whose callback runs in a step: the header or the write callback,
or the completion callback. -/
def Event.callsBack (s : State H) : Event H → Option H
  | .callback h => some h
  | .worker =>
    match s.worker.current with
    | some (entry, .callback) => some entry.easyHandle
    | _ => none
  | _ => none

/-- The runs of a `CurlRequests`. -/
def requests (H : Type*) [DecidableEq H] : Trans.System (State H) (Event H) := ⟨fun s => s = {}, step⟩

/-! ## Lists of handles -/

section Find

variable {h : H} {d : HandleData H} {l : List (HandleData H)}

theorem find_some (hf : find h l = some d) : d ∈ l ∧ d.easyHandle = h :=
  ⟨List.mem_of_find?_eq_some hf, by simpa using List.find?_some hf⟩

theorem find_none (hf : find h l = none) : ∀ d ∈ l, d.easyHandle ≠ h := by
  simpa [find] using hf

end Find

/-! ## `ActiveHandles::Add`, over `_handlesToAdd` -/

section Activate

variable (s : State H) {d : HandleData H} {h : H}

/-- What taking up the pending handles changes: the active list and the multi handle. -/
theorem activate_fields (d : HandleData H) : ∃ active multi, s.activate d = { s with
    activeHandles := active, multiHandle := multi } ∧
    ((∃ d' ∈ s.activeHandles, d'.easyHandle = d.easyHandle) ∧ active = s.activeHandles ∧
      multi = s.multiHandle ∨
      (∀ d' ∈ s.activeHandles, d'.easyHandle ≠ d.easyHandle) ∧ active = s.activeHandles ++ [d] ∧
        multi = s.multiHandle ++ [d.easyHandle]) := by
  unfold State.activate
  cases hf : find d.easyHandle s.activeHandles with
  | some d' => exact ⟨_, _, rfl, .inl ⟨⟨d', find_some hf⟩, rfl, rfl⟩⟩
  | none => exact ⟨_, _, rfl, .inr ⟨find_none hf, rfl, rfl⟩⟩

/-- What the loop over `_handlesToAdd` makes of the active list and the multi handle. -/
structure Activates (l : List (HandleData H)) (s s' : State H) : Prop where
  same : s' = { s with activeHandles := s'.activeHandles, multiHandle := s'.multiHandle }
  kept : ∀ d ∈ s.activeHandles, d ∈ s'.activeHandles
  active :
    ∀ d ∈ s'.activeHandles, d ∈ s.activeHandles ∨ d ∈ l ∧ ∀ d' ∈ s.activeHandles, d'.easyHandle ≠ d.easyHandle
  registered : ∀ h ∈ s'.multiHandle, h ∈ s.multiHandle ∨ ∃ d ∈ l, d ∈ s'.activeHandles ∧ d.easyHandle = h
  registeredKept : ∀ h ∈ s.multiHandle, h ∈ s'.multiHandle
  taken : ∀ d ∈ l, ∃ d' ∈ s'.activeHandles, d'.easyHandle = d.easyHandle
  once : (∀ d ∈ s.activeHandles, ∀ d' ∈ s.activeHandles, d.easyHandle = d'.easyHandle → d = d') →
    ∀ d ∈ s'.activeHandles, ∀ d' ∈ s'.activeHandles, d.easyHandle = d'.easyHandle → d = d'
  nodup : s.activeHandles.Nodup → s'.activeHandles.Nodup

theorem foldl_activate (l : List (HandleData H)) :
    ∀ s : State H, Activates l s (l.foldl State.activate s) := by
  induction l with
  | nil => exact fun s => ⟨rfl, fun _ => id, fun _ => .inl, fun _ => .inl, fun _ => id, nofun, id, id⟩
  | cons d l ih =>
    intro s
    obtain ⟨active, multi, hs, hcase⟩ := activate_fields s d
    have h := ih (s.activate d)
    rw [List.foldl_cons]
    generalize l.foldl State.activate (s.activate d) = s' at h
    rw [hs] at h
    rcases hcase with ⟨⟨d₀, hd₀, heq⟩, rfl, rfl⟩ | ⟨hnew, rfl, rfl⟩
    · refine ⟨h.same, h.kept, fun d' hd' => ?_, fun h' hh' => ?_, h.registeredKept, fun d' hd' => ?_, h.once,
        h.nodup⟩
      · exact (h.active d' hd').imp_right fun hl => ⟨List.mem_cons_of_mem _ hl.1, hl.2⟩
      · exact (h.registered h' hh').imp_right fun ⟨d', hl, ha⟩ => ⟨d', List.mem_cons_of_mem _ hl, ha⟩
      · rcases List.mem_cons.1 hd' with rfl | hd'
        exacts [⟨d₀, h.kept d₀ hd₀, heq⟩, h.taken d' hd']
    · have hd : d ∈ s'.activeHandles := h.kept d (by simp)
      refine ⟨h.same, fun d' hd' => h.kept d' (by simp [hd']), fun d' hd' => ?_, fun h' hh' => ?_,
        fun h' hh' => h.registeredKept h' (by simp [hh']), fun d' hd' => ?_, fun honce => h.once ?_,
        fun hnodup => h.nodup ?_⟩
      · rcases h.active d' hd' with hold | ⟨hl, hne⟩
        · rcases List.mem_append.1 hold with hold | hold
          · exact .inl hold
          · obtain rfl := List.mem_singleton.1 hold
            exact .inr ⟨List.mem_cons_self, hnew⟩
        · exact .inr ⟨List.mem_cons_of_mem _ hl, fun d'' hd'' => hne d'' (by simp [hd''])⟩
      · rcases h.registered h' hh' with hold | ⟨d', hl, ha⟩
        · rcases List.mem_append.1 hold with hold | hold
          · exact .inl hold
          · obtain rfl := List.mem_singleton.1 hold
            exact .inr ⟨d, List.mem_cons_self, hd, rfl⟩
        · exact .inr ⟨d', List.mem_cons_of_mem _ hl, ha⟩
      · rcases List.mem_cons.1 hd' with rfl | hd'
        exacts [⟨d', hd, rfl⟩, h.taken d' hd']
      · intro a ha b hb heq
        simp only [List.mem_append, List.mem_singleton] at ha hb
        rcases ha with ha | rfl <;> rcases hb with hb | rfl
        · exact honce a ha b hb heq
        · exact absurd heq (hnew a ha)
        · exact absurd heq.symm (hnew b hb)
        · rfl
      · refine List.nodup_append.2 ⟨hnodup, List.pairwise_singleton _ d, fun a ha b hb heq => ?_⟩
        obtain rfl := List.mem_singleton.1 hb
        exact hnew a ha (by rw [heq])

end Activate

end DoClient.CurlRequests
