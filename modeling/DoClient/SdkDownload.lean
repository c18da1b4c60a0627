/-
`download::download_url_to_path` and `start_and_wait_until_completion`
(`sdk-cpp/src/do_download.cpp`): one call after another to the agent, with a
poll of the status in between. A step is the answer to what the function waits
for, so that a run is any sequence of answers of the agent, of the flag that
cancels and of the clock.
-/
import DoClient.Lib.Run
import DoClient.HResult

namespace DoClient.Sdk

/-! ## Status and errors -/

inductive DownloadState
  | created | transferring | transferred | finalized | aborted | paused
  deriving DecidableEq, Repr

/-- `download_status`. -/
structure DownloadStatus where
  bytesTotal : Nat := 0
  bytesTransferred : Nat := 0
  errorCode : Int32 := 0
  extendedErrorCode : Int32 := 0
  state : DownloadState := .created
  deriving DecidableEq, Repr

/-- `is_transient_error`. -/
def DownloadStatus.isTransientError (s : DownloadStatus) : Bool :=
  s.state == .paused && s.errorCode == 0 && s.extendedErrorCode != 0

inductive ErrorCategory
  | deliveryOptimization | generic | system
  deriving DecidableEq, Repr

/-- `std::error_code`: no error when the value is 0. -/
structure ErrorCode where
  value : Int32
  category : ErrorCategory := .system
  deriving DecidableEq, Repr

/-- `DO_OK`. -/
def DO_OK : ErrorCode := ⟨0, .system⟩

def ErrorCode.isError (ec : ErrorCode) : Bool := ec.value != 0

/-- `make_error_code` of a result of the agent. -/
def makeErrorCode (e : Int32) : ErrorCode := ⟨e, .deliveryOptimization⟩

/-- `std::errc::operation_canceled` and `std::errc::timed_out`. -/
def operationCanceled : ErrorCode := ⟨125, .generic⟩
def timedOut : ErrorCode := ⟨110, .generic⟩

/-- `download_status::error_code`. -/
def DownloadStatus.error (s : DownloadStatus) : ErrorCode := makeErrorCode s.errorCode

/-! ## The blocking download -/

/-- A call to the agent, and its answer. -/
inductive Call
  | make (answer : ErrorCode)
  | start (answer : ErrorCode)
  | getStatus (answer : Except ErrorCode DownloadStatus)
  | finalize (answer : ErrorCode)
  | abort (answer : ErrorCode)

/-- What the function waits for. -/
inductive Pc
  /-- `download::make`, in `download_url_to_path`. -/
  | making
  | starting
  | firstStatus
  /-- The read of `isCancelled` at the head of the loop. -/
  | loopHead
  /-- The sleep, `get_status` and the clock. -/
  | polling
  | finalizing
  | aborting
  /-- The read of `isCancelled` after `abort`. -/
  | concluding
  | returned (ec : ErrorCode)
  deriving DecidableEq, Repr

/-- The locals of the function, and its calls, newest first. The poll time is in milliseconds. -/
structure Waiter where
  pc : Pc
  status : DownloadStatus := {}
  pollTime : Nat := 500
  timedOut : Bool := false
  calls : List Call := []

inductive Answer
  /-- Of `make`, `start`, `finalize` or `abort`. -/
  | result (ec : ErrorCode)
  | status (answer : Except ErrorCode DownloadStatus)
  /-- Of `get_status` in the loop, and whether the end time has come then. -/
  | polled (answer : Except ErrorCode DownloadStatus) (timedOut : Bool)
  | cancelled (isCancelled : Bool)

namespace Waiter

variable (w : Waiter)

/-- The poll time after a sleep: longer by half a second, up to five seconds. -/
def nextPollTime (pollTime : Nat) : Nat := if pollTime < 5000 then pollTime + 500 else pollTime

/-- The condition of the loop. -/
def goesOn (status : DownloadStatus) (timedOut : Bool) : Bool :=
  (status.state == .created || status.state == .transferring || status.isTransientError) && !timedOut

/-- What `get_status` returns. -/
def result : Except ErrorCode DownloadStatus → ErrorCode
  | .ok _ => DO_OK
  | .error ec => ec

/-- A call of `get_status`, which sets the status when it does not fail. -/
def getStatus (answer : Except ErrorCode DownloadStatus) : Waiter :=
  { w with calls := .getStatus answer :: w.calls, status := answer.toOption.getD w.status }

/-- After the loop. -/
def leaveLoop : Waiter := { w with pc := if w.status.state = .transferred then .finalizing else .aborting }

/-- `DO_RETURN_IF_FAILED`. -/
def returnIfFailed (ec : ErrorCode) (next : Waiter) : Waiter :=
  if ec.isError then { w with pc := .returned ec } else next

/-- The error a download that was aborted is reported with. -/
def conclusion (isCancelled : Bool) : ErrorCode :=
  if isCancelled then operationCanceled
  else if w.timedOut then Sdk.timedOut
  else if w.status.state = .paused ∧ w.status.isTransientError = false then w.status.error
  else DO_OK

def step : Answer → Option Waiter
  | .result ec =>
    match w.pc with
    | .making =>
      let w := { w with calls := .make ec :: w.calls }
      some (w.returnIfFailed ec { w with pc := .starting })
    | .starting =>
      let w := { w with calls := .start ec :: w.calls }
      some (w.returnIfFailed ec { w with pc := .firstStatus })
    | .finalizing =>
      let w := { w with calls := .finalize ec :: w.calls }
      some (w.returnIfFailed ec { w with pc := .returned DO_OK })
    | .aborting =>
      let w := { w with calls := .abort ec :: w.calls }
      some (w.returnIfFailed ec { w with pc := .concluding })
    | _ => none
  | .status answer =>
    match w.pc with
    | .firstStatus =>
      let w := w.getStatus answer
      some (w.returnIfFailed (result answer) { w with pc := .loopHead })
    | _ => none
  | .polled answer timedOut =>
    match w.pc with
    | .polling =>
      let w := { w with pollTime := nextPollTime w.pollTime }.getStatus answer
      let next := { w with timedOut := timedOut }
      some (w.returnIfFailed (result answer)
        (if goesOn w.status timedOut then { next with pc := .loopHead } else next.leaveLoop))
    | _ => none
  | .cancelled isCancelled =>
    match w.pc with
    | .loopHead => some (if isCancelled then w.leaveLoop else { w with pc := .polling })
    | .concluding => some { w with pc := .returned (w.conclusion isCancelled) }
    | _ => none

end Waiter

/-- The runs of `start_and_wait_until_completion`. -/
def startAndWaitUntilCompletion : Trans.System Waiter Answer :=
  ⟨fun w => w = { pc := .starting }, Waiter.step⟩

/-- The runs of `download_url_to_path`. -/
def downloadUrlToPath : Trans.System Waiter Answer := ⟨fun w => w = { pc := .making }, Waiter.step⟩

namespace Waiter

variable {w w' : Waiter} {a : Answer}

theorem leaveLoop_cases (w : Waiter) :
    (w.status.state = .transferred ∧ w.leaveLoop = { w with pc := .finalizing }) ∨
      w.status.state ≠ .transferred ∧ w.leaveLoop = { w with pc := .aborting } := by
  unfold leaveLoop
  by_cases h : w.status.state = .transferred
  · exact .inl ⟨h, by rw [if_pos h]⟩
  · exact .inr ⟨h, by rw [if_neg h]⟩

/-- What a step of the function can do, answer by answer. -/
inductive Moves (w : Waiter) : Answer → Waiter → Prop
  | made {ec} : w.pc = .making → ec.isError = false →
    Moves w (.result ec) { w with pc := .starting, calls := .make ec :: w.calls }
  | started {ec} : w.pc = .starting → ec.isError = false →
    Moves w (.result ec) { w with pc := .firstStatus, calls := .start ec :: w.calls }
  | finalized {ec} : w.pc = .finalizing → ec.isError = false →
    Moves w (.result ec) { w with pc := .returned DO_OK, calls := .finalize ec :: w.calls }
  | aborted {ec} : w.pc = .aborting → ec.isError = false →
    Moves w (.result ec) { w with pc := .concluding, calls := .abort ec :: w.calls }
  | failed {ec call} : ec.isError = true →
    (w.pc = .making ∧ call = .make ec ∨ w.pc = .starting ∧ call = .start ec ∨ w.pc = .finalizing ∧
      call = .finalize ec ∨
      w.pc = .aborting ∧ call = .abort ec) →
    Moves w (.result ec) { w with pc := .returned ec, calls := call :: w.calls }
  | firstStatus {answer} : w.pc = .firstStatus → (result answer).isError = false →
    Moves w (.status answer) { w.getStatus answer with pc := .loopHead }
  | firstFailed {answer} : w.pc = .firstStatus → (result answer).isError = true →
    Moves w (.status answer) { w.getStatus answer with pc := .returned (result answer) }
  | polled {answer timedOut pollTime} : w.pc = .polling → (result answer).isError = false →
    Moves w (.polled answer timedOut) { w.getStatus answer with
      pollTime := pollTime, timedOut := timedOut, pc := .loopHead }
  | polledLast {answer timedOut pollTime} : w.pc = .polling → (result answer).isError = false →
    Moves w (.polled answer timedOut)
      ({ w.getStatus answer with pollTime := pollTime, timedOut := timedOut } : Waiter).leaveLoop
  | pollFailed {answer timedOut pollTime} : w.pc = .polling → (result answer).isError = true →
    Moves w (.polled answer timedOut) { w.getStatus answer with
      pollTime := pollTime, pc := .returned (result answer) }
  | waits : w.pc = .loopHead → Moves w (.cancelled false) { w with pc := .polling }
  | cancelled : w.pc = .loopHead → Moves w (.cancelled true) w.leaveLoop
  | concluded {isCancelled} : w.pc = .concluding →
    Moves w (.cancelled isCancelled) { w with pc := .returned (w.conclusion isCancelled) }

theorem step_moves (h : w.step a = some w') : Moves w a w' := by
  cases a with
  | result ec =>
    simp only [step, returnIfFailed] at h
    split at h
    · next hpc =>
      split at h <;> obtain rfl := Option.some.inj h
      · next he => exact .failed he (.inl ⟨hpc, rfl⟩)
      · next he => exact .made hpc (Bool.not_eq_true _ ▸ he)
    · next hpc =>
      split at h <;> obtain rfl := Option.some.inj h
      · next he => exact .failed he (.inr (.inl ⟨hpc, rfl⟩))
      · next he => exact .started hpc (Bool.not_eq_true _ ▸ he)
    · next hpc =>
      split at h <;> obtain rfl := Option.some.inj h
      · next he => exact .failed he (.inr (.inr (.inl ⟨hpc, rfl⟩)))
      · next he => exact .finalized hpc (Bool.not_eq_true _ ▸ he)
    · next hpc =>
      split at h <;> obtain rfl := Option.some.inj h
      · next he => exact .failed he (.inr (.inr (.inr ⟨hpc, rfl⟩)))
      · next he => exact .aborted hpc (Bool.not_eq_true _ ▸ he)
    · cases h
  | status answer =>
    simp only [step, returnIfFailed] at h
    split at h
    · next hpc =>
      split at h <;> obtain rfl := Option.some.inj h
      · next he => exact .firstFailed hpc he
      · next he => exact .firstStatus hpc (Bool.not_eq_true _ ▸ he)
    · cases h
  | polled answer timedOut =>
    simp only [step, returnIfFailed] at h
    split at h
    · next hpc =>
      split at h <;> obtain rfl := Option.some.inj h
      · next he => exact .pollFailed hpc he
      · next he =>
        split
        · exact .polled hpc (Bool.not_eq_true _ ▸ he)
        · exact .polledLast hpc (Bool.not_eq_true _ ▸ he)
    · cases h
  | cancelled isCancelled =>
    simp only [step] at h
    split at h
    · next hpc =>
      obtain rfl := Option.some.inj h
      cases isCancelled with
      | true => exact .cancelled hpc
      | false => exact .waits hpc
    · next hpc =>
      obtain rfl := Option.some.inj h
      exact .concluded hpc
    · cases h

/-! ## Success -/

/-- The function has returned, without an error. -/
def ReturnsOk (w : Waiter) : Prop := ∃ ec, w.pc = .returned ec ∧ ec.isError = false

/-- A status reported the download as transferred, and the call after it finalized it. -/
def Finished (w : Waiter) : Prop := ∃ ec rest s, w.calls = .finalize ec :: rest ∧ ec.isError = false ∧
  .getStatus (.ok s) ∈ rest ∧ s.state = .transferred

/-- Where a download that was aborted is about to be reported: there is a cancellation, a timeout
or an error of the download to report. -/
def SaysWhy (w : Waiter) : Answer → Prop
  | .cancelled isCancelled => w.pc = .concluding →
    isCancelled = true ∨ w.timedOut = true ∨ w.status.state = .paused ∧ w.status.errorCode ≠ 0
  | _ => True

/-- What the function knows of the download it waits for. -/
structure Told (w : Waiter) : Prop where
  reported : w.status.state = .transferred → ∃ s, .getStatus (.ok s) ∈ w.calls ∧ s.state = .transferred
  finalizing : w.pc = .finalizing → w.status.state = .transferred
  aborted : w.pc = .concluding → ∃ ec rest, w.calls = .abort ec :: rest

/-- A status that is asked for is noted as it was reported, or not at all. -/
theorem Told.getStatus (h : Told w) (answer : Except ErrorCode DownloadStatus)
    (hs : (w.getStatus answer).status.state = .transferred) :
    ∃ s, .getStatus (.ok s) ∈ (w.getStatus answer).calls ∧ s.state = .transferred := by
  cases answer with
  | ok s => exact ⟨s, List.mem_cons_self, hs⟩
  | error ec =>
    obtain ⟨s, hmem, hs⟩ := h.reported hs
    exact ⟨s, List.mem_cons_of_mem _ hmem, hs⟩

/-- Another call is noted. -/
theorem Told.call (h : Told w) (call : Call) (hs : w.status.state = .transferred) :
    ∃ s, .getStatus (.ok s) ∈ call :: w.calls ∧ s.state = .transferred := by
  obtain ⟨s, hmem, hs⟩ := h.reported hs
  exact ⟨s, List.mem_cons_of_mem _ hmem, hs⟩

theorem told_leaveLoop (h : w.status.state = .transferred → ∃ s, .getStatus (.ok s) ∈ w.calls ∧
      s.state = .transferred) :
    Told w.leaveLoop := by
  rcases leaveLoop_cases w with ⟨hs, hleave⟩ | ⟨hs, hleave⟩
  · rw [hleave]
    exact ⟨h, fun _ => hs, nofun⟩
  · rw [hleave]
    exact ⟨h, nofun, nofun⟩

theorem Told.moves (h : Told w) (hm : Moves w a w') : Told w' := by
  cases hm with
  | made | started | finalized => exact ⟨h.call _, nofun, nofun⟩
  | aborted => exact ⟨h.call _, nofun, fun _ => ⟨_, _, rfl⟩⟩
  | failed => exact ⟨h.call _, nofun, nofun⟩
  | firstStatus | firstFailed | polled | pollFailed => exact ⟨h.getStatus _, nofun, nofun⟩
  | polledLast => exact told_leaveLoop (h.getStatus _)
  | waits | concluded => exact ⟨h.reported, nofun, nofun⟩
  | cancelled => exact told_leaveLoop h.reported

theorem conclusion_isError_iff (w : Waiter) (isCancelled : Bool) : (w.conclusion isCancelled).isError = true ↔
    isCancelled = true ∨ w.timedOut = true ∨ w.status.state = .paused ∧ w.status.errorCode ≠ 0 := by
  unfold conclusion
  cases isCancelled with
  | true => simp [ErrorCode.isError, operationCanceled]
  | false =>
    cases ht : w.timedOut with
    | true => simp [ErrorCode.isError, Sdk.timedOut]
    | false =>
      simp only [Bool.false_eq_true, if_false, false_or]
      split
      · next hs => simp [hs.1, DownloadStatus.error, makeErrorCode, ErrorCode.isError]
      · next hs =>
        -- a pause that is for a transient error has no error code
        refine iff_of_false (by decide) fun ⟨hp, he⟩ => hs ⟨hp, ?_⟩
        simp [DownloadStatus.isTransientError, he]

theorem not_returnsOk_of_error {ec : ErrorCode} (hpc : w.pc = .returned ec) (he : ec.isError = true) :
    ¬ w.ReturnsOk := by
  rintro ⟨ec', hpc', he'⟩
  obtain rfl := Pc.returned.inj (hpc.symm.trans hpc')
  rw [he] at he'
  cases he'

theorem not_returnsOk_of_waiting (hpc : ∀ ec, w.pc ≠ .returned ec) : ¬ w.ReturnsOk :=
  fun ⟨ec, h, _⟩ => hpc ec h

/-- A step that returns without an error has finished the download, but for the one that hides an abort. -/
theorem Told.finished_iff (h : Told w) (hm : Moves w a w') : (w'.ReturnsOk → w'.Finished) ↔ SaysWhy w a := by
  have hwaits : ∀ {w' : Waiter}, (∀ ec, w'.pc ≠ .returned ec) → (w'.ReturnsOk → w'.Finished) := fun hpc hr =>
    absurd hr (not_returnsOk_of_waiting hpc)
  cases hm with
  | made | started | aborted | firstStatus | polled => exact iff_of_true (hwaits nofun) trivial
  | failed he => exact iff_of_true (fun hr => absurd hr (not_returnsOk_of_error rfl he)) trivial
  | firstFailed _ he | pollFailed _ he =>
    exact iff_of_true (fun hr => absurd hr (not_returnsOk_of_error rfl he)) trivial
  | finalized hpc he =>
    obtain ⟨s, hmem, hs⟩ := h.reported (h.finalizing hpc)
    exact iff_of_true (fun _ => ⟨_, _, s, rfl, he, hmem, hs⟩) trivial
  | polledLast =>
    refine iff_of_true (hwaits fun ec => ?_) trivial
    rcases leaveLoop_cases _ with ⟨-, hleave⟩ | ⟨-, hleave⟩ <;> rw [hleave] <;> nofun
  | waits hpc => exact iff_of_true (hwaits nofun) fun hc => by simp [hpc] at hc
  | cancelled hpc =>
    refine iff_of_true (hwaits fun ec => ?_) fun hc => by simp [hpc] at hc
    rcases leaveLoop_cases w with ⟨-, hleave⟩ | ⟨-, hleave⟩ <;> rw [hleave] <;> nofun
  | @concluded isCancelled hpc =>
    obtain ⟨ec, rest, hcalls⟩ := h.aborted hpc
    rw [SaysWhy, ← conclusion_isError_iff]
    refine ⟨fun hfin _ => ?_, fun hc hr => absurd hr (not_returnsOk_of_error rfl (hc hpc))⟩
    by_contra hok
    obtain ⟨_, _, _, hfinalize, -⟩ := hfin ⟨_, rfl, by simpa using hok⟩
    simp only [hcalls, List.cons.injEq] at hfinalize
    cases hfinalize.1

theorem told_reachable (h : Trans.Reachable startAndWaitUntilCompletion w) : Told w :=
  h.invariant Told
    (fun _ hi => by obtain rfl : _ = ({ pc := .starting } : Waiter) := hi; exact ⟨nofun, nofun, nofun⟩)
    fun _ _ _ ht _ hs => ht.moves (step_moves hs)

end Waiter

open Waiter

/-- **Success of the blocking download means a finished file**, in every state of a run,
exactly when each download that is aborted, with no cancellation and no timeout to report,
was last seen Paused with an error code. -/
theorem success_means_finished_iff {w : Waiter} {ms : List (Trans.Move Waiter Answer)}
    (hp : Trans.Path startAndWaitUntilCompletion { pc := .starting } ms w) :
    (∀ m ∈ ms, m.dst.ReturnsOk → m.dst.Finished) ↔ ∀ m ∈ ms, SaysWhy m.src m.ev :=
  hp.forall_iff (Q := fun _ _ w => w.ReturnsOk → w.Finished)
    (fun _ _ _ hr hs => (told_reachable hr).finished_iff (step_moves hs))
    (.init rfl)

/-- A download that another client pauses. -/
def pausedElsewhere : List Answer :=
  [.result DO_OK, .status (.ok { state := .transferring }), .cancelled false,
    .polled (.ok { state := .paused }) false, .result DO_OK, .cancelled false]

theorem success_means_finished_iff_failed :
    ∃ w ms, Trans.Path startAndWaitUntilCompletion { pc := .starting } ms w ∧
    ((∀ m ∈ ms, m.dst.ReturnsOk → m.dst.Finished) ↔ ∀ m ∈ ms, SaysWhy m.src m.ev) := by
  have hrun :
    (startAndWaitUntilCompletion.runFrom { pc := .starting } pausedElsewhere).isSome = true := by decide
  obtain ⟨w, hw⟩ := Option.isSome_iff_exists.1 hrun
  exact ⟨w, _, Trans.path_moves hw, success_means_finished_iff (Trans.path_moves hw)⟩

/-- The function has aborted the download and returns no error. -/
theorem success_without_file :
    ¬ ∀ w, Trans.Reachable startAndWaitUntilCompletion w → w.ReturnsOk → w.Finished := by
  intro hall
  have hrun : (startAndWaitUntilCompletion.runFrom { pc := .starting } pausedElsewhere).map (fun w =>
      (w.pc, w.calls.any fun c => match c with
        | .finalize _ => true
        | _ => false)) = some (.returned (makeErrorCode 0), false) := by decide
  obtain ⟨w, hr, hstate⟩ := Trans.reachable_of_replay (.init rfl) hrun
  obtain ⟨hpc, hcalls⟩ := Prod.mk.inj hstate
  obtain ⟨ec, rest, s, hfinalize, -⟩ := hall w hr ⟨_, hpc, by decide⟩
  simp [hfinalize] at hcalls

/-! ## Release -/

namespace Waiter

variable {w w' : Waiter} {a : Answer}

def Made (w : Waiter) : Prop := ∃ ec, .make ec ∈ w.calls ∧ ec.isError = false

/-- The agent was asked to finalize the download or to abort it. -/
def Released (w : Waiter) : Prop := ∃ ec, .finalize ec ∈ w.calls ∨ .abort ec ∈ w.calls

/-- The function has returned, and a download it made is released. -/
def ReleasesMade (w : Waiter) : Prop := (∃ ec, w.pc = .returned ec) → w.Made → w.Released

/-- The agent starts the download and tells its status whenever it is asked. -/
def AnswersWell (w : Waiter) : Answer → Prop
  | .result ec => w.pc = .starting → ec.isError = false
  | .status answer | .polled answer _ => (result answer).isError = false
  | .cancelled _ => True

/-- Between `make` and the end of the loop the download is not released. -/
structure Holds (w : Waiter) : Prop where
  making : w.pc = .making → w.calls = []
  made : w.pc ≠ .making → (∀ ec, w.pc ≠ .returned ec) → w.Made
  held : w.pc = .starting ∨ w.pc = .firstStatus ∨ w.pc = .loopHead ∨ w.pc = .polling → ¬ w.Released
  released : w.pc = .concluding → w.Released

/-- A further call leaves a made download made, and a released one released. -/
theorem Made.call (h : w.Made) {call : Call} (hc : w'.calls = call :: w.calls) : w'.Made := by
  obtain ⟨ec, hmem, he⟩ := h
  exact ⟨ec, hc ▸ List.mem_cons_of_mem _ hmem, he⟩

/-- Only `finalize` and `abort` release the download. -/
theorem not_released_call (h : ¬ w.Released) {call : Call} (hc : w'.calls = call :: w.calls)
    (hcall : ∀ ec, call ≠ .finalize ec ∧ call ≠ .abort ec) : ¬ w'.Released := by
  rintro ⟨ec, hmem | hmem⟩ <;> rw [hc] at hmem <;> rcases List.mem_cons.1 hmem with heq | hmem
  · exact (hcall ec).1 heq.symm
  · exact h ⟨ec, .inl hmem⟩
  · exact (hcall ec).2 heq.symm
  · exact h ⟨ec, .inr hmem⟩

theorem holds_leaveLoop (hmade : w.Made) : Holds w.leaveLoop := by
  rcases leaveLoop_cases w with ⟨-, hleave⟩ | ⟨-, hleave⟩ <;> rw [hleave]
  · exact ⟨nofun, fun _ _ => hmade, by simp, nofun⟩
  · exact ⟨nofun, fun _ _ => hmade, by simp, nofun⟩

theorem Holds.moves (h : Holds w) (hm : Moves w a w') : Holds w' := by
  cases hm with
  | @made ec hpc he =>
    refine ⟨nofun, fun _ _ => ⟨ec, List.mem_cons_self, he⟩, fun _ => ?_, nofun⟩
    rintro ⟨ec', hmem⟩
    simp [h.making hpc] at hmem
  | started hpc he =>
    have hmade := h.made (by simp [hpc]) (by simp [hpc])
    exact ⟨nofun, fun _ _ => hmade.call rfl,
      fun _ => not_released_call (h.held (.inl hpc)) rfl (by simp), nofun⟩
  | finalized | failed | firstFailed | pollFailed | concluded =>
    exact ⟨nofun, fun _ hr => absurd rfl (hr _), by simp, nofun⟩
  | @aborted ec hpc he =>
    have hmade := h.made (by simp [hpc]) (by simp [hpc])
    exact ⟨nofun, fun _ _ => hmade.call rfl, by simp, fun _ => ⟨ec, .inr List.mem_cons_self⟩⟩
  | firstStatus hpc he =>
    have hmade := h.made (by simp [hpc]) (by simp [hpc])
    have hheld := h.held (.inr (.inl hpc))
    exact ⟨nofun, fun _ _ => hmade.call rfl, fun _ => not_released_call hheld rfl (by simp), nofun⟩
  | polled hpc he =>
    have hmade := h.made (by simp [hpc]) (by simp [hpc])
    have hheld := h.held (.inr (.inr (.inr hpc)))
    exact ⟨nofun, fun _ _ => hmade.call rfl, fun _ => not_released_call hheld rfl (by simp), nofun⟩
  | polledLast hpc he =>
    have hmade := h.made (by simp [hpc]) (by simp [hpc])
    exact holds_leaveLoop (hmade.call rfl)
  | waits hpc =>
    have hmade := h.made (by simp [hpc]) (by simp [hpc])
    exact ⟨nofun, fun _ _ => hmade, fun _ => h.held (.inr (.inr (.inl hpc))), nofun⟩
  | cancelled hpc => exact holds_leaveLoop (h.made (by simp [hpc]) (by simp [hpc]))

theorem releasesMade_of_waiting (hpc : ∀ ec, w.pc ≠ .returned ec) : w.ReleasesMade :=
  fun ⟨ec, hr⟩ => absurd hr (hpc ec)

theorem leaveLoop_ne_returned (w : Waiter) : ∀ ec, w.leaveLoop.pc ≠ .returned ec := by
  rcases leaveLoop_cases w with ⟨-, hleave⟩ | ⟨-, hleave⟩ <;> rw [hleave] <;> nofun

/-- A step that returns leaves no download behind, but for the early returns. -/
theorem Holds.releases (h : Holds w) (hm : Moves w a w') : w'.ReleasesMade ↔ AnswersWell w a := by
  cases hm with
  | made hpc he => exact iff_of_true (releasesMade_of_waiting nofun) fun _ => he
  | started hpc he => exact iff_of_true (releasesMade_of_waiting nofun) fun _ => he
  | @finalized ec hpc he => exact iff_of_true (fun _ _ => ⟨ec, .inl List.mem_cons_self⟩) fun _ => he
  | aborted hpc he => exact iff_of_true (releasesMade_of_waiting nofun) fun _ => he
  | @failed ec call he hcall =>
    rcases hcall with ⟨hpc, rfl⟩ | ⟨hpc, rfl⟩ | ⟨hpc, rfl⟩ | ⟨hpc, rfl⟩
    · refine iff_of_true (fun _ ⟨ec', hmem, hok⟩ => ?_) fun hstart => by simp [hpc] at hstart
      -- the only call is the one that failed
      obtain rfl : ec' = ec := by simpa [h.making hpc] using hmem
      rw [he] at hok
      cases hok
    · have hmade := h.made (by simp [hpc]) (by simp [hpc])
      refine iff_of_false (fun hrel => ?_) fun hok => by simp [hok hpc] at he
      exact not_released_call (h.held (.inl hpc)) rfl (by simp) (hrel ⟨ec, rfl⟩ (hmade.call rfl))
    · exact iff_of_true (fun _ _ => ⟨ec, .inl List.mem_cons_self⟩) fun hstart => by simp [hpc] at hstart
    · exact iff_of_true (fun _ _ => ⟨ec, .inr List.mem_cons_self⟩) fun hstart => by simp [hpc] at hstart
  | firstStatus hpc he => exact iff_of_true (releasesMade_of_waiting nofun) he
  | firstFailed hpc he =>
    have hmade := h.made (by simp [hpc]) (by simp [hpc])
    refine iff_of_false (fun hrel => ?_) fun hok => by simp [AnswersWell, he] at hok
    exact not_released_call (h.held (.inr (.inl hpc))) rfl (by simp) (hrel ⟨_, rfl⟩ (hmade.call rfl))
  | polled hpc he => exact iff_of_true (releasesMade_of_waiting nofun) he
  | polledLast hpc he => exact iff_of_true (releasesMade_of_waiting (leaveLoop_ne_returned _)) he
  | pollFailed hpc he =>
    have hmade := h.made (by simp [hpc]) (by simp [hpc])
    refine iff_of_false (fun hrel => ?_) fun hok => by simp [AnswersWell, he] at hok
    exact not_released_call (h.held (.inr (.inr (.inr hpc)))) rfl (by simp) (hrel ⟨_, rfl⟩ (hmade.call rfl))
  | waits => exact iff_of_true (releasesMade_of_waiting nofun) trivial
  | cancelled => exact iff_of_true (releasesMade_of_waiting (leaveLoop_ne_returned _)) trivial
  | concluded hpc =>
    obtain ⟨ec, hrel⟩ := h.released hpc
    exact iff_of_true (fun _ _ => ⟨ec, hrel⟩) trivial

theorem holds_reachable (h : Trans.Reachable downloadUrlToPath w) : Holds w :=
  h.invariant Holds
    (fun _ hi => by obtain rfl : _ = ({ pc := .making } : Waiter) := hi; exact ⟨fun _ => rfl, by simp, by simp, nofun⟩)
    fun _ _ _ hh _ hs => hh.moves (step_moves hs)

end Waiter

/-- **The one-shot download leaves nothing behind in the agent**, in every state of a run,
exactly when `start` and each `get_status` succeed. -/
theorem one_shot_releases_iff {w : Waiter} {ms : List (Trans.Move Waiter Answer)}
    (hp : Trans.Path downloadUrlToPath { pc := .making } ms w) :
    (∀ m ∈ ms, m.dst.ReleasesMade) ↔ ∀ m ∈ ms, AnswersWell m.src m.ev :=
  hp.forall_iff (Q := fun _ _ w => w.ReleasesMade)
    (fun _ _ _ hr hs => (holds_reachable hr).releases (step_moves hs))
    (.init rfl)

/-- A download whose first poll the agent does not answer. -/
def statusFails : List Answer := [.result DO_OK, .result DO_OK, .status (.error (makeErrorCode (-1)))]

theorem one_shot_releases_iff_failed : ∃ w ms, Trans.Path downloadUrlToPath { pc := .making } ms w ∧
    ((∀ m ∈ ms, m.dst.ReleasesMade) ↔ ∀ m ∈ ms, AnswersWell m.src m.ev) := by
  have hrun : (downloadUrlToPath.runFrom { pc := .making } statusFails).isSome = true := by decide
  obtain ⟨w, hw⟩ := Option.isSome_iff_exists.1 hrun
  exact ⟨w, _, Trans.path_moves hw, one_shot_releases_iff (Trans.path_moves hw)⟩

/-- The agent keeps the download, and the call has returned. -/
theorem one_shot_leaves_download : ¬ ∀ w, Trans.Reachable downloadUrlToPath w → w.ReleasesMade := by
  intro hall
  have hrun : (downloadUrlToPath.runFrom { pc := .making } statusFails).map (fun w =>
      (w.pc, w.calls.any (fun c => match c with
        | .make ec => !ec.isError
        | _ => false), w.calls.any fun c => match c with
        | .finalize _ | .abort _ => true
        | _ => false)) = some (.returned (makeErrorCode (-1)), true, false) := by decide
  obtain ⟨w, hr, hstate⟩ := Trans.reachable_of_replay (.init rfl) hrun
  simp only [Prod.mk.injEq] at hstate
  obtain ⟨hpc, hmade, hfree⟩ := hstate
  obtain ⟨c, hmem, hc⟩ := List.any_eq_true.1 hmade
  cases c with
  | make ec =>
    obtain ⟨ec', hrel⟩ :=
      hall w hr ⟨_, hpc⟩ ⟨ec, hmem, by simpa using hc⟩
    rcases hrel with hrel | hrel
    · exact absurd rfl (List.any_eq_false.1 hfree _ hrel)
    · exact absurd rfl (List.any_eq_false.1 hfree _ hrel)
  | _ => cases hc

end DoClient.Sdk
