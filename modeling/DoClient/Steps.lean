/-
Every step of the agent is an act of the life cycle: libcurl's callbacks, and
with the tasks of `DoClient.Tasks` the whole step relation.
-/
import DoClient.Tasks

namespace DoClient

open HResult

variable {uri : UriLib} {o : Outside} {w w' : World}

/-! ## What a callback schedules -/

/-- `q'` is `q` with the updates `us` scheduled. -/
structure Schedules (now : Int) (us : List Update) (q q' : TaskQueue Op Tag) : Prop where
  updates : q'.updates = q.updates ++ us
  timers : q'.count .transientTimer = q.count .transientTimer
  shortcuts : q'.count .alreadyTransferred = q.count .alreadyTransferred
  checks : q'.countTag .progressTracker = q.countTag .progressTracker
  orderly : q'.Orderly now

theorem Schedules.none {now : Int} {q : TaskQueue Op Tag} (h : q.Orderly now) : Schedules now [] q q :=
  ⟨(List.append_nil _).symm, rfl, rfl, rfl, h⟩

theorem Schedules.trans {now : Int} {us us' : List Update} {q q' q'' : TaskQueue Op Tag}
    (h : Schedules now us q q') (h' : Schedules now us' q' q'') : Schedules now (us ++ us') q q'' :=
  ⟨by rw [h'.updates, h.updates, List.append_assoc], h'.timers.trans h.timers, h'.shortcuts.trans h.shortcuts,
    h'.checks.trans h.checks, h'.orderly⟩

theorem schedules_add {now : Int} {q : TaskQueue Op Tag} (ho : q.Orderly now) {op : Op} {u : Update}
    (hu : op.update = some u)
    (hfail : ∀ hr hc code headers, op = .transferFailed hr hc code headers → failed hr = true) :
    Schedules now [u] q (q.add now op 0 (some .download)) := by
  have htag : some Tag.download = op.tag := by cases op <;> simp_all [Op.update, Op.tag]
  have htimer : op ≠ .transientTimer := by rintro rfl; cases hu
  have hshortcut : op ≠ .alreadyTransferred := by rintro rfl; cases hu
  exact ⟨TaskQueue.updates_add ho hu, by simp [TaskQueue.count_add, htimer],
    by simp [TaskQueue.count_add, hshortcut],
    by simp [TaskQueue.countTag_add], ho.add htag (fun _ => le_refl _) hshortcut hfail⟩

/-! ## Callbacks -/

theorem bytesTotal_congr {a b : HttpAgent} (hcode : a.responseStatusCode = b.responseStatusCode)
    (hheaders : a.responseHeaders = b.responseHeaders) (indeterminate : Nat) :
    a.bytesTotal indeterminate = b.bytesTotal indeterminate := by
  simp only [HttpAgent.bytesTotal, HttpAgent.queryContentLength, HttpAgent.queryContentLengthFromRange,
    HttpAgent.queryHeader, hcode, hheaders]

theorem bytesTotal_error {a : HttpAgent} {indeterminate : Nat} {hr : HResult}
    (h : a.bytesTotal indeterminate = .error hr) : failed hr = true := by
  have hquery : ∀ {name hr}, a.queryHeader name = .error hr → failed hr = true := by
    intro name hr h
    unfold HttpAgent.queryHeader at h
    split at h
    · cases h
    · simp only [Except.error.injEq] at h
      rw [← h]
      decide
  unfold HttpAgent.bytesTotal at h
  split at h
  · unfold HttpAgent.queryContentLength at h
    split at h
    · cases h
    · split at h
      · cases h
      · simp only [Except.error.injEq] at h
        rw [← h]
        decide
  split at h
  · unfold HttpAgent.queryContentLengthFromRange at h
    split at h
    · next hq =>
      simp only [Except.error.injEq] at h
      exact h ▸ hquery hq
    · split at h
      · simp only [Except.error.injEq] at h
        rw [← h]
        decide
      · split at h
        · cases h
        · simp only [Except.error.injEq] at h
          rw [← h]
          decide
  · cases h

theorem bytesTotal_lt {a : HttpAgent} {indeterminate n : Nat} (h : a.bytesTotal indeterminate = .ok n) :
    n < 2 ^ 64 := by
  unfold HttpAgent.bytesTotal at h
  split at h
  · unfold HttpAgent.queryContentLength at h
    split at h
    · simp only [Except.ok.injEq] at h
      omega
    · split at h
      · next hn =>
        simp only [Except.ok.injEq] at h
        exact h ▸ stoull_lt hn
      · cases h
  split at h
  · unfold HttpAgent.queryContentLengthFromRange at h
    split at h
    · cases h
    · split at h
      · cases h
      · split at h
        · next hn =>
          simp only [Except.ok.injEq] at h
          exact h ▸ stoull_lt hn
        · cases h
  · simp only [Except.ok.injEq] at h
    exact h ▸ wrap64_lt _

/-- The headers are looked at once a request; an accepted status whose length can
be told schedules an update. -/
theorem trySetStatusCode_run {a : HttpAgent} (ha : w.dl.httpAgent = some a) (ho : w.taskQ.Orderly w.now)
    (code indeterminate : Nat) : ∃ (a' : HttpAgent) (q : TaskQueue Op Tag) (bytesTotal : Option Nat),
      trySetStatusCodeAndInvokeOnHeadersAvailable code indeterminate w =
        { w with dl := { w.dl with httpAgent := some a' }, taskQ := q } ∧
      Schedules w.now (bytesTotal.map Update.headers).toList w.taskQ q ∧ (∀ n ∈ bytesTotal, n < 2 ^ 64) ∧
      a'.curlHandle = a.curlHandle ∧ a'.responseHeaders = a.responseHeaders ∧
      a'.responseOnHeadersAvailableInvoked = true ∧
      (a.responseOnHeadersAvailableInvoked = true → a' = a ∧ bytesTotal = none) ∧
      (a.responseOnHeadersAvailableInvoked = false → a'.responseStatusCode = code ∧
        a'.hrTranslatedStatusCode = HttpAgent.resultFromStatusCode code ∧
        bytesTotal = (if succeeded (HttpAgent.resultFromStatusCode code)
          then (a'.bytesTotal indeterminate).toOption
          else none) ∧
        (succeeded (HttpAgent.resultFromStatusCode code) = true → succeeded a'.hrCallback = true →
          (a'.bytesTotal indeterminate).isOk = true)) := by
  unfold trySetStatusCodeAndInvokeOnHeadersAvailable
  simp only [ha]
  cases hinv : a.responseOnHeadersAvailableInvoked with
  | true =>
    refine ⟨a, w.taskQ, none, ?_, .none ho, (by simp), rfl, rfl, hinv, fun _ => ⟨rfl, rfl⟩, (by simp)⟩
    rw [if_pos rfl, ← ha]
  | false =>
    rw [if_neg Bool.false_ne_true]
    simp only [World.updateAgent, World.updateDl, ha, Option.map_some]
    cases hs : succeeded (HttpAgent.resultFromStatusCode code) with
    | false =>
      exact ⟨_, w.taskQ, none, rfl, .none ho, (by simp), rfl, rfl, rfl, (by simp), fun _ => ⟨rfl, rfl, rfl, (by simp)⟩⟩
    | true =>
      rw [if_pos rfl, onHeadersAvailable]
      simp only
      split
      · next hr herr =>
        refine ⟨_, w.taskQ, none, rfl, .none ho, (by simp), rfl, rfl, rfl, (by simp),
          fun _ => ⟨rfl, rfl, ?_, fun _ h => ?_⟩⟩
        · have hnone := congrArg Except.toOption herr
          exact hnone.symm
        · have hf := bytesTotal_error herr
          simp [succeeded, hf] at h
      · next n hn =>
        refine ⟨_, _, some n, rfl, schedules_add ho rfl (by simp), ?_, rfl, rfl, rfl, (by simp),
          fun _ => ⟨rfl, rfl, ?_, fun _ _ => ?_⟩⟩
        · rintro m ⟨⟩
          exact bytesTotal_lt hn
        · exact (congrArg Except.toOption hn).symm
        · exact congrArg Except.isOk hn

/-- `Append` writes to the destination file or not at all. -/
theorem appendFileStream_run (hstream : ∀ p, w.dl.fileStream = some p → p = w.dl.destFilePath)
    (chunk : List UInt8) (out : WriteOutcome) :
    ∃ hr fs n, appendFileStream chunk out w = (hr, { w with fs := fs }) ∧
      (fs w.dl.destFilePath).getD [] = (w.fs w.dl.destFilePath).getD [] ++ chunk.take n ∧
      (failed hr = false → n = chunk.length) ∧
      (failed hr = true → n = 0 ∨ out = .wrote n ∧ n < chunk.length) ∧
      (n = 0 ∨ ((w.fs w.dl.destFilePath).getD []).length + chunk.length < 2 ^ 63) := by
  unfold appendFileStream
  cases hs : w.dl.fileStream with
  | none =>
    exact ⟨fromXplatSyserr EBADF, w.fs, 0, rfl, by simp, by simp [failed_fromXplatSyserr], by simp, .inl rfl⟩
  | some path =>
    obtain rfl := hstream path hs
    cases out with
    | error errno =>
      exact ⟨fromXplatSyserr errno, w.fs, 0, rfl, by simp, by simp [failed_fromXplatSyserr],
        by simp, .inl rfl⟩
    | wrote m =>
      simp only
      split
      · exact ⟨fromXplatSyserr EFBIG, w.fs, 0, rfl, by simp, by simp [failed_fromXplatSyserr],
          by simp, .inl rfl⟩
      · next hsize =>
        have hsize := Nat.lt_of_not_le hsize
        split
        · next hm =>
          have hbad : failed ERROR_BAD_LENGTH = true := by decide
          exact ⟨ERROR_BAD_LENGTH, _, m, rfl, by simp, by simp [hbad], fun _ => .inr ⟨rfl, hm⟩, .inr hsize⟩
        · next hm =>
          have htake : chunk.take m = chunk.take chunk.length := by
            rw [List.take_length, List.take_of_length_le (Nat.le_of_not_lt hm)]
          have hok : failed S_OK = false := by decide
          exact ⟨S_OK, _, chunk.length, rfl, by simp [htake], fun _ => rfl, by simp [hok], .inr hsize⟩

/-- `_WriteCallback`: the headers first, then the bytes and their update. -/
theorem writeCallback_run {a : HttpAgent} (ha : w.dl.httpAgent = some a) (ho : w.taskQ.Orderly w.now)
    (hstream : ∀ p, w.dl.fileStream = some p → p = w.dl.destFilePath) (code : Nat) {chunk : List UInt8}
    (hchunk : chunk.length ≤ CURL_MAX_WRITE_SIZE) (out : WriteOutcome) (indeterminate : Nat) :
    ∃ (a₁ : HttpAgent) (hr : HResult) (bytesTotal : Option Nat) (q : TaskQueue Op Tag)
      (fs : String → Option (List UInt8)) (n : Nat) (ok : Bool),
      writeCallback code chunk out indeterminate w = (ok || chunk.isEmpty, { w with
        dl := { w.dl with httpAgent := some { a₁ with hrCallback := hr } }, fs := fs, taskQ := q }) ∧
      (∀ n ∈ bytesTotal, n < 2 ^ 64) ∧ a₁.curlHandle = a.curlHandle ∧ a₁.responseHeaders = a.responseHeaders ∧
      a₁.responseOnHeadersAvailableInvoked = true ∧
      (a.responseOnHeadersAvailableInvoked = true → a₁ = a ∧ bytesTotal = none) ∧
      (a.responseOnHeadersAvailableInvoked = false → a₁.responseStatusCode = code ∧
        a₁.hrTranslatedStatusCode = HttpAgent.resultFromStatusCode code ∧
        bytesTotal = (if succeeded (HttpAgent.resultFromStatusCode code)
          then (a₁.bytesTotal indeterminate).toOption
          else none) ∧
        (succeeded (HttpAgent.resultFromStatusCode code) = true → succeeded a₁.hrCallback = true →
          (a₁.bytesTotal indeterminate).isOk = true)) ∧
      ((n ≠ 0 → succeeded a₁.hrTranslatedStatusCode = true) ∧
        (n ≠ 0 ∨ succeeded hr = true → succeeded a₁.hrCallback = true)) ∧
      Schedules w.now ((bytesTotal.map Update.headers).toList ++ if ok then [.data chunk.length] else [])
        w.taskQ q ∧
      (fs w.dl.destFilePath).getD [] = (w.fs w.dl.destFilePath).getD [] ++ chunk.take n ∧
      (ok = true → n = chunk.length) ∧ (ok = false → n = 0 ∨ out = .wrote n ∧ n < chunk.length) ∧
      (n = 0 ∨ ((w.fs w.dl.destFilePath).getD []).length + chunk.length < 2 ^ 63) := by
  obtain ⟨a₁, q₁, bytesTotal, htry, hq₁, hlt, hhandle, hheaders, hinv, hold, hnew⟩ :=
    trySetStatusCode_run ha ho code indeterminate
  simp only [writeCallback, htry]
  cases hok : succeeded a₁.hrTranslatedStatusCode && succeeded a₁.hrCallback with
  | false =>
    refine ⟨a₁, a₁.hrCallback, bytesTotal, q₁, w.fs, 0, false, rfl, hlt, hhandle, hheaders, hinv, hold, hnew,
      ⟨fun h => absurd rfl h, fun h => h.resolve_left fun h => h rfl⟩, ?_,
        by simp, (by simp), fun _ => .inl rfl, .inl rfl⟩
    simpa using hq₁
  | true =>
    simp only [Bool.and_eq_true] at hok
    have hwrap : wrap32 chunk.length = chunk.length :=
      Nat.mod_eq_of_lt (Nat.lt_of_le_of_lt hchunk (by decide))
    obtain ⟨hr, fs, n, happ, hfs, hall, hnone, hsize⟩ := appendFileStream_run (w := { w with
      dl := { w.dl with httpAgent := some a₁ }, taskQ := q₁ }) hstream chunk out
    simp only [if_true, hwrap, List.take_length, onData, happ]
    cases hf : failed hr with
    | true =>
      simp only [if_true, succeeded, hf, World.updateAgent, World.updateDl, Option.map_some, Bool.not_true]
      refine ⟨a₁, hr, bytesTotal, q₁, fs, n, false, rfl, hlt, hhandle, hheaders, hinv, hold, hnew,
        ⟨fun _ => hok.1, fun _ => hok.2⟩, ?_, hfs, (by simp), fun _ => hnone hf, hsize⟩
      simpa using hq₁
    | false =>
      have hS : succeeded S_OK = true := by decide
      simp only [Bool.false_eq_true, if_false, hS, World.updateAgent, World.updateDl, World.sched,
        Option.map_some]
      refine ⟨a₁, S_OK, bytesTotal, _, fs, n, true, rfl, hlt, hhandle, hheaders, hinv, hold, hnew,
        ⟨fun _ => hok.1, fun _ => hok.2⟩, ?_, hfs, fun _ => hall hf, (by simp), hsize⟩
      exact hq₁.trans (schedules_add hq₁.orderly rfl (by simp))

/-- `_CompleteCallback`: the headers, if no body came, and the update that ends the request. -/
theorem completeCallback_run {a : HttpAgent} (ha : w.dl.httpAgent = some a) (ho : w.taskQ.Orderly w.now)
    (code curlResult indeterminate : Nat) :
    (a.responseOnCompleteInvoked = true ∧ completeCallback code curlResult indeterminate w = w) ∨
    ∃ (a₁ : HttpAgent) (hr : HResult) (bytesTotal : Option Nat) (q : TaskQueue Op Tag) (ok : Bool),
      completeCallback code curlResult indeterminate w =
        { w with dl := { w.dl with httpAgent := some a₁ }, taskQ := q } ∧
      (∀ n ∈ bytesTotal, n < 2 ^ 64) ∧ a₁.curlHandle = a.curlHandle ∧
      ((curlResult ≠ 0 → ok = false ∧ bytesTotal = none) ∧
        (curlResult = 0 → ok = succeeded hr ∧
          (a.responseOnHeadersAvailableInvoked = true → hr = a.hrTranslatedStatusCode ∧ bytesTotal = none) ∧
          (a.responseOnHeadersAvailableInvoked = false → hr = HttpAgent.resultFromStatusCode code ∧
            bytesTotal = if succeeded (HttpAgent.resultFromStatusCode code) then
              (HttpAgent.bytesTotal { a with responseStatusCode := code } indeterminate).toOption
              else none))) ∧
      Schedules w.now ((bytesTotal.map Update.headers).toList ++ [if ok then .completed else .failed])
      w.taskQ q := by
  unfold completeCallback
  simp only [ha]
  cases hinv : a.responseOnCompleteInvoked with
  | true => exact .inl ⟨rfl, by rw [if_pos rfl]⟩
  | false =>
    right
    rw [if_neg Bool.false_ne_true]
    by_cases hc : curlResult = 0
    · obtain ⟨a₁, q₁, bytesTotal, htry, hq₁, hlt, hhandle, hheaders, -, hold, hnew⟩ :=
        trySetStatusCode_run (w := { w with
        dl := { w.dl with httpAgent := some { a with responseOnCompleteInvoked := true } } }) rfl ho code
          indeterminate
      simp only [World.updateAgent, World.updateDl, ha, Option.map_some, if_pos hc, htry, onComplete]
      have hresult : (a.responseOnHeadersAvailableInvoked = true →
            a₁.hrTranslatedStatusCode = a.hrTranslatedStatusCode ∧ bytesTotal = none) ∧
          (a.responseOnHeadersAvailableInvoked = false →
            a₁.hrTranslatedStatusCode = HttpAgent.resultFromStatusCode code ∧
            bytesTotal = if succeeded (HttpAgent.resultFromStatusCode code) then
              (HttpAgent.bytesTotal { a with responseStatusCode := code } indeterminate).toOption
                else none) := by
        refine ⟨fun h => ?_, fun h => ?_⟩
        · obtain ⟨rfl, hnone⟩ := hold h
          exact ⟨rfl, hnone⟩
        · obtain ⟨hcode, htrans, htotal, -⟩ := hnew h
          have hsame :
            a₁.bytesTotal indeterminate = HttpAgent.bytesTotal { a with responseStatusCode := code }
              indeterminate :=
            bytesTotal_congr (b := { a with responseStatusCode := code }) hcode hheaders indeterminate
          exact ⟨htrans, hsame ▸ htotal⟩
      cases hs : succeeded a₁.hrTranslatedStatusCode with
      | true =>
        exact ⟨a₁, a₁.hrTranslatedStatusCode, bytesTotal, _, true, rfl, hlt, hhandle,
          ⟨fun h => absurd hc h, fun _ => ⟨hs.symm, hresult⟩⟩,
            hq₁.trans (schedules_add hq₁.orderly rfl (by simp))⟩
      | false =>
        refine ⟨a₁, a₁.hrTranslatedStatusCode, bytesTotal, _, false, rfl, hlt, hhandle,
          ⟨fun h => absurd hc h, fun _ => ⟨hs.symm, hresult⟩⟩, hq₁.trans (schedules_add hq₁.orderly rfl ?_)⟩
        rintro hr hcb c hd ⟨⟩
        simpa [succeeded] using hs
    · have hfail : ∃ hr, failed hr = true ∧
          (if succeeded a.hrTranslatedStatusCode = true then
            ({ w with dl := { w.dl with
              httpAgent := some { a with responseOnCompleteInvoked := true } } } : World).updateAgent
              fun a => { a with hrTranslatedStatusCode := HttpAgent.curlErrorCodeToHResult curlResult }
          else { w with
            dl := { w.dl with httpAgent := some { a with responseOnCompleteInvoked := true } } }) =
          { w with dl := { w.dl with httpAgent := some { a with
            responseOnCompleteInvoked := true, hrTranslatedStatusCode := hr } } } := by
        cases hs : succeeded a.hrTranslatedStatusCode with
        | true => exact ⟨_, HttpAgent.failed_curlErrorCodeToHResult curlResult, by rw [if_pos rfl]; rfl⟩
        | false =>
          exact ⟨a.hrTranslatedStatusCode, by simpa [succeeded] using hs, by rw [if_neg Bool.false_ne_true]⟩
      obtain ⟨hr, hf, heq⟩ := hfail
      have hns : succeeded hr = false := by simp [succeeded, hf]
      simp only [World.updateAgent, World.updateDl, ha, Option.map_some, if_neg hc] at heq ⊢
      rw [heq]
      simp only [onComplete, hns, Bool.false_eq_true, if_false]
      refine ⟨_, hr, none, _, false, rfl, (by simp), rfl, ⟨fun _ => ⟨rfl, rfl⟩, fun h => absurd h hc⟩,
        schedules_add ho rfl ?_⟩
      rintro hr' hcb c hd ⟨⟩
      exact hf

/-! ## libcurl -/

/-- The acts an event of libcurl can come to. -/
def CurlEvent.Does (w : World) : CurlEvent → Act → Prop
  | .status code, a => a = .status code
  | .header line, a => a = .header line
  | .write chunk out _, a => ∃ bytesTotal n ok, a = .write bytesTotal chunk n ok ∧
      (ok = false → n = 0 ∨ out = .wrote n ∧ n < chunk.length)
  | .complete curlResult _, a => a = .completeIgnored ∨ ∃ bytesTotal ok, a = .complete bytesTotal ok ∧
      (ok = true → curlResult = 0) ∧
      (ok = false → curlResult = 0 → w.overlaps = 0 → ∀ t, w.curl.active = some t → ¬ t.Accepted)

theorem outstanding_of_active {c : CurlHandle} {t : Transfer} (h : c.active = some t) :
    c.outstanding = true := by
  simp [CurlHandle.outstanding, h]

section Seen

variable {t : Transfer} {a : HttpAgent}

/-- What the agent makes of the status, once the headers were looked at. -/
theorem Transfer.SeenBy.translated (h : t.SeenBy a) {hr : HResult}
    (hold : a.responseOnHeadersAvailableInvoked = true → hr = a.hrTranslatedStatusCode)
    (hnew : a.responseOnHeadersAvailableInvoked = false →
      hr = HttpAgent.resultFromStatusCode t.responseCode) :
    hr = HttpAgent.resultFromStatusCode t.responseCode := by
  rw [h.invoked] at hold hnew
  cases hb : t.bodyStarted with
  | true =>
    rw [hold hb]
    exact h.status hb
  | false => exact hnew hb

/-- The update the agent schedules is the one the response reports. -/
theorem Transfer.SeenBy.reports (h : t.SeenBy a) {bytesTotal : Option Nat} (indeterminate : Nat)
    (hold : a.responseOnHeadersAvailableInvoked = true → bytesTotal = none)
    (hnew : a.responseOnHeadersAvailableInvoked = false → bytesTotal =
      if succeeded (HttpAgent.resultFromStatusCode t.responseCode) then
        (HttpAgent.bytesTotal { a with responseStatusCode := t.responseCode } indeterminate).toOption
        else none) :
    t.Reports bytesTotal := by
  unfold Transfer.Reports
  cases hb : t.bodyStarted with
  | true => exact (if_pos (.inl rfl)).mpr (hold (h.invoked.trans hb))
  | false =>
    have hnew := hnew (h.invoked.trans hb)
    by_cases hacc : t.Accepted
    · have hsucceeded : succeeded (HttpAgent.resultFromStatusCode t.responseCode) = true := hacc
      have hsame := bytesTotal_congr (a := { a with responseStatusCode := t.responseCode })
        (b := t.response) rfl
        (h.headers hb) indeterminate
      rw [if_pos hsucceeded, hsame] at hnew
      exact (if_neg (by simp [hacc])).mpr ⟨indeterminate, hnew⟩
    · have hfailed : ¬ succeeded (HttpAgent.resultFromStatusCode t.responseCode) = true := hacc
      rw [if_neg hfailed] at hnew
      exact (if_pos (.inr hacc)).mpr hnew

/-- Whether a length can be read does not depend on what the stack holds. -/
theorem isOk_bytesTotal (a : HttpAgent) (indeterminate indeterminate' : Nat) :
    (a.bytesTotal indeterminate).isOk = (a.bytesTotal indeterminate').isOk := by
  unfold HttpAgent.bytesTotal
  split
  · rfl
  split <;> rfl

/-- While no callback fails, the agent has taken the headers of an accepted response it has looked at. -/
theorem Transfer.SeenBy.taken (h : t.SeenBy a) {a₁ : HttpAgent} {indeterminate : Nat}
    (hold : a.responseOnHeadersAvailableInvoked = true → a₁ = a)
    (hcode : a.responseOnHeadersAvailableInvoked = false → a₁.responseStatusCode = t.responseCode)
    (hheaders : a₁.responseHeaders = a.responseHeaders)
    (hnew : a.responseOnHeadersAvailableInvoked = false →
      succeeded (HttpAgent.resultFromStatusCode t.responseCode) = true → succeeded a₁.hrCallback = true →
        (a₁.bytesTotal indeterminate).isOk = true)
    (hacc : t.Accepted) (hcallback : succeeded a₁.hrCallback = true) : t.HeadersTaken := by
  rw [h.invoked] at hold hnew hcode
  cases hb : t.bodyStarted with
  | true =>
    rw [hold hb] at hcallback
    exact h.shown hb hacc hcallback
  | false =>
    have hsame := bytesTotal_congr (a := a₁) (b := t.response) (hcode hb) (hheaders.trans (h.headers hb))
      indeterminate
    refine ⟨hacc, ?_⟩
    rw [isOk_bytesTotal t.response 0 indeterminate, ← hsame]
    exact hnew hb hacc hcallback

theorem Transfer.SeenBy.header (h : t.SeenBy a) (line : String) :
    (t.noteHeader line).SeenBy (a.headerCallback line) := by
  unfold Transfer.noteHeader
  split
  · next hb => exact ⟨h.invoked, fun hf => absurd (hb.symm.trans hf) Bool.noConfusion, h.status, h.shown⟩
  · next hb =>
    refine ⟨h.invoked, fun hf => ?_, fun ht => absurd ht hb, fun ht => absurd ht hb⟩
    simp only [HttpAgent.headerCallback, Transfer.response, List.foldl_append, List.foldl_cons,
      List.foldl_nil, h.headers hf]

end Seen

/-- The transfer libcurl works on, with an agent that takes its response in, is put in the place of one that was. -/
theorem Linked.running {c : CurlHandle} {agent : Option HttpAgent} {t t' : Transfer} {a' : HttpAgent}
    (h : Linked c agent) (ht : c.active = some t) (hs : t'.SeenBy a') :
    Linked { c with active := some t' } (some a') := by
  have hq : c.toAdd = none := h.single.resolve_right fun hn => nomatch hn.symm.trans ht
  refine ⟨.inl hq, fun t₁ a₁ ht₁ ha₁ => ?_⟩
  simp only [hq, reduceCtorEq, Option.some.injEq, false_or] at ht₁ ha₁
  exact ht₁ ▸ ha₁ ▸ hs

theorem Linked.ended {c : CurlHandle} {agent : Option HttpAgent} {t : Transfer} (h : Linked c agent)
    (ht : c.active = some t) (agent' : Option HttpAgent) :
    Linked { c with active := none, completedSinceDrain := true } agent' := by
  have hq : c.toAdd = none := h.single.resolve_right fun hn => nomatch hn.symm.trans ht
  exact .of_idle (by simp [CurlHandle.outstanding, hq]) agent'

theorem Linked.drain {c : CurlHandle} {agent : Option HttpAgent} (h : Linked c agent) :
    Linked c.drain agent := by
  refine ⟨.inl rfl, fun t a ht ha => h.seen t a ?_ ha⟩
  simp only [CurlHandle.drain, reduceCtorEq, false_or] at ht
  split at ht
  · cases ht
  · split at ht
    exacts [.inr ht, .inl ht]

theorem curlEvent_leads (hg : Good uri w) (e : CurlEvent) (h : curlEvent w e = some w') :
    ∃ a, e.Does w a ∧ w.life.Enabled a ∧ Leads uri w' (w.life.apply a) := by
  have hagent : ∀ {t}, w.curl.active = some t → w.requests ≠ [] ∧ ∃ a, w.dl.httpAgent = some a ∧
      a.curlHandle.isSome = true := fun ht =>
    ⟨hg.issued_of_outstanding (outstanding_of_active ht), hg.handle (outstanding_of_active ht)⟩
  have hseen : ∀ {t a}, w.curl.active = some t → w.dl.httpAgent = some a → w.overlaps = 0 → t.SeenBy a :=
    fun ht ha ho => (hg.linked ho).seen _ _ (.inr ht) ha
  cases e with
  | status code =>
    simp only [curlEvent, Option.bind_eq_some_iff] at h
    obtain ⟨t, ht, h⟩ := h
    obtain ⟨hne, a, ha, hh⟩ := hagent ht
    split at h
    · cases h
    next hbody =>
    simp only [Option.some.injEq] at h
    subst h
    have hrun : w.life.running = some t := ht
    refine ⟨.status code, rfl, ⟨t, hrun, Bool.not_eq_true _ ▸ hbody⟩, ?_, ?_⟩
    · refine Good.started hne hg.orderly (hg.ne_created hne) (hg.agent hne) (fun _ => ⟨a, ha, hh⟩)
        (hg.stream hne) hg.url
        fun ho => ?_
      have hs := hseen ht ha ho
      rw [show (w.dl.httpAgent = some a) from ha]
      exact (hg.linked ho).running ht
        ⟨hs.invoked, hs.headers, fun hb => absurd hb hbody, fun hb => absurd hb hbody⟩
    · simp only [Life.apply, hrun]
      rfl
  | header line =>
    simp only [curlEvent, Option.map_eq_some_iff] at h
    obtain ⟨t, ht, rfl⟩ := h
    obtain ⟨hne, a, ha, hh⟩ := hagent ht
    have hrun : w.life.running = some t := ht
    have hsome : (w.updateAgent (·.headerCallback line)).dl.httpAgent = some (a.headerCallback line) := by
      simp [World.updateAgent, World.updateDl, ha]
    refine ⟨.header line, rfl, by simp [Life.Enabled, hrun], ?_, ?_⟩
    · refine Good.started hne hg.orderly (hg.ne_created hne) (by rw [hsome]; rfl)
        (fun _ => ⟨_, hsome, hh⟩) (hg.stream hne)
        hg.url fun ho => ?_
      rw [hsome]
      exact (hg.linked ho).running ht ((hseen ht ha ho).header line)
    · simp only [Life.apply, hrun]
      rfl
  | write chunk out indeterminate =>
    simp only [curlEvent, Option.bind_eq_some_iff] at h
    obtain ⟨t, ht, h⟩ := h
    obtain ⟨hne, a, ha, hh⟩ := hagent ht
    split at h
    · cases h
    next hguard =>
    rw [not_or, Nat.not_lt] at hguard
    obtain ⟨a₁, hr, bytesTotal, q, fs, n, ok, hrun, hlt, hhandle, hheaders, hinv, hold, hnew, hacc, hq,
      hfs, hall, hnone, hsize⟩ :=
      writeCallback_run ha hg.orderly (hg.stream hne) t.responseCode hguard.2 out indeterminate
    simp only [hrun, Option.some.injEq] at h
    subst h
    have hfile : w.life.file = (w.fs w.dl.destFilePath).getD [] := if_neg hne
    have htranslated :
      w.overlaps = 0 → a₁.hrTranslatedStatusCode = HttpAgent.resultFromStatusCode t.responseCode :=
      fun ho => (hseen ht ha ho).translated (fun h => by rw [(hold h).1]) fun h => (hnew h).2.1
    have htaken : w.overlaps = 0 → t.Accepted → succeeded a₁.hrCallback = true → t.HeadersTaken := fun ho =>
      (hseen ht ha ho).taken (fun h => (hold h).1) (fun h => (hnew h).1) hheaders fun h => (hnew h).2.2.2
    refine ⟨.write bytesTotal chunk n ok, ⟨bytesTotal, n, ok, rfl, hnone⟩, ?_, ?_, ?_⟩
    · refine ⟨⟨t, ht, by simpa using hguard.1, fun ho => ⟨fun hn => ?_, ?_⟩⟩, hall,
        fun h => (hnone h).imp_right And.right, ?_, hlt⟩
      · refine htaken ho ?_ (hacc.2 (.inl hn))
        rw [Transfer.Accepted, ← htranslated ho]
        exact hacc.1 hn
      · refine (hseen ht ha ho).reports indeterminate (fun h => (hold h).2) fun h => ?_
        have hsame := bytesTotal_congr (b := { a with responseStatusCode := t.responseCode }) (hnew h).1
          hheaders indeterminate
        rw [← hsame]
        exact (hnew h).2.2.1
      · rw [hfile]
        exact hsize
    · refine Good.started hne hq.orderly (hg.ne_created hne) rfl (fun _ => ⟨_, rfl, hhandle ▸ hh⟩)
        (hg.stream hne) hg.url
        fun ho =>
          (hg.linked ho).running ht ⟨hinv, (by simp), fun _ => htranslated ho, fun _ haccepted hcallback => ?_⟩
      exact htaken ho haccepted (hacc.2 (.inr hcallback))
    · simp only [World.life, Life.apply, if_neg hne, hfs, hq.updates, hq.timers, hq.shortcuts, ht,
        Option.map_some, List.append_assoc]
  | complete curlResult indeterminate =>
    simp only [curlEvent, Option.bind_eq_some_iff] at h
    obtain ⟨t, ht, h⟩ := h
    obtain ⟨hne, a, ha, hh⟩ := hagent ht
    split at h
    · cases h
    next hguard =>
    simp only [Option.some.injEq] at h
    subst h
    rcases completeCallback_run ha hg.orderly t.responseCode curlResult indeterminate with
      ⟨-, hrun⟩ | ⟨a₁, hr, bytesTotal, q, ok, hrun, hlt, hhandle, hok, hq⟩
    · rw [hrun]
      refine ⟨.completeIgnored, .inl rfl, by simp [Life.Enabled, World.life, ht], ?_, rfl⟩
      exact Good.started hne hg.orderly (hg.ne_created hne) (hg.agent hne) (fun _ => ⟨a, ha, hh⟩)
        (hg.stream hne) hg.url
        fun ho => (hg.linked ho).ended ht _
    · rw [hrun]
      have hzero : ok = true → curlResult = 0 := fun h => by
        by_contra hc
        exact absurd (h.symm.trans (hok.1 hc).1) Bool.noConfusion
      have haccepted : w.overlaps = 0 → curlResult = 0 → (ok = true ↔ t.Accepted) := fun ho hc => by
        obtain ⟨hs, hold, hnew⟩ := hok.2 hc
        have htranslated := (hseen ht ha ho).translated (fun hi => (hold hi).1) fun hi => (hnew hi).1
        rw [Transfer.Accepted, ← htranslated, hs]
      refine ⟨.complete bytesTotal ok, .inr ⟨bytesTotal, ok, rfl, hzero, fun h hc ho t' ht' => ?_⟩,
        ⟨⟨t, ht, fun h => ⟨?_, fun ho => ⟨(haccepted ho (hzero h)).1 h, ?_⟩⟩, fun h => ?_⟩, hlt⟩, ?_, ?_⟩
      · obtain rfl := Option.some.inj (ht.symm.trans ht')
        rw [← haccepted ho hc, h]
        exact Bool.false_ne_true
      · simpa [hzero h] using hguard
      · obtain ⟨-, hold, hnew⟩ := hok.2 (hzero h)
        exact (hseen ht ha ho).reports indeterminate (fun hi => (hold hi).2) fun hi => (hnew hi).2
      · by_cases hc : curlResult = 0
        · obtain ⟨hs, hold, hnew⟩ := hok.2 hc
          cases hi : a.responseOnHeadersAvailableInvoked with
          | true => exact (hold hi).2
          | false =>
            rw [h, (hnew hi).1] at hs
            rw [(hnew hi).2, ← hs]
            rfl
        · exact (hok.1 hc).2
      · exact Good.started hne hq.orderly (hg.ne_created hne) rfl (fun _ => ⟨_, rfl, hhandle ▸ hh⟩)
          (hg.stream hne) hg.url
          fun ho => (hg.linked ho).ended ht _
      · simp only [World.life, Life.apply, hq.updates, hq.timers, hq.shortcuts, List.append_assoc]

/-! ## Steps -/

/-- The acts an event can come to. -/
def Event.Does (w : World) : Event → Act → Prop
  | .tick _, a | .request _, a | .foreign .., a => a = .idle
  | .run o, a => ∃ op, w.nextOp = some op ∧ op.Does w o a
  | .drain, a => ∃ lost, a = .drain lost
  | .curl e, a => e.Does w a

/-- An operation that is not the download's own comes into the queue. -/
theorem leads_queue (hg : Good uri w) {q : TaskQueue Op Tag} (hq : SameWork w.now w.taskQ q)
    (hi : w.taskQ.Idle → q.Idle) : Leads uri { w with taskQ := q } (w.life.apply .idle) := by
  refine ⟨⟨hq.orderly hg.orderly, fun h => ?_, hg.created, hg.agent, hg.handle, hg.stream, hg.url,
    hg.linked⟩, ?_⟩
  · obtain ⟨hs, hact, hcurl, hidle⟩ := hg.fresh h
    exact ⟨hs, hact, hcurl, hi hidle⟩
  · simp only [World.life, Life.apply, hq.updates, hq.timers, hq.shortcuts]

theorem leads_add (hg : Good uri w) (op : Op) (hop : op.own = false) (delay : Int) :
    Leads uri { w with taskQ := w.taskQ.add w.now op delay op.tag } (w.life.apply .idle) := by
  have hu : op.update = none := by cases op <;> simp_all [Op.own, Op.tag, Op.update]
  have htimer : op ≠ .transientTimer := by rintro rfl; cases hop
  have hshortcut : op ≠ .alreadyTransferred := by rintro rfl; cases hop
  refine leads_queue hg ⟨TaskQueue.updates_add_none op hu, by simp [TaskQueue.count_add, htimer],
    by simp [TaskQueue.count_add, hshortcut], fun ho => ho.add rfl (fun h => absurd hu h) hshortcut ?_⟩
    fun hi => hi.add hop
  rintro hr hc code headers rfl
  cases hop

theorem leads_addFront (hg : Good uri w) (op : Op) (hop : op.own = false) :
    Leads uri { w with taskQ := w.taskQ.addFront w.now op op.tag } (w.life.apply .idle) := by
  have hu : op.update = none := by cases op <;> simp_all [Op.own, Op.tag, Op.update]
  have hfront : op.atFront = true := by cases op <;> simp_all [Op.own, Op.tag, Op.atFront]
  have htimer : op ≠ .transientTimer := by rintro rfl; cases hop
  have hshortcut : op ≠ .alreadyTransferred := by rintro rfl; cases hop
  exact leads_queue hg ⟨TaskQueue.updates_addFront op hu, by simp [TaskQueue.count_addFront, htimer],
    by simp [TaskQueue.count_addFront, hshortcut], fun ho => ho.addFront rfl hfront⟩ fun hi => hi.addFront hop

theorem Good.popped (hg : Good uri w) {task : Task Op Tag} {q : TaskQueue Op Tag}
    (hpop : w.taskQ.popNextReady w.now = some (task, q)) : Good uri { w with taskQ := q } := by
  refine ⟨hg.orderly.pop hpop, fun h => ?_, hg.created, hg.agent, hg.handle, hg.stream, hg.url, hg.linked⟩
  obtain ⟨hs, hact, hcurl, hi⟩ := hg.fresh h
  exact ⟨hs, hact, hcurl, hi.pop hpop⟩

theorem run_leads (hg : Good uri w) (hw : w.terminated = false) (o : Outside) {task : Task Op Tag}
    {q : TaskQueue Op Tag} (hpop : w.taskQ.popNextReady w.now = some (task, q)) :
    ∃ a, task.op.Does w o a ∧ w.life.Enabled a ∧ Leads uri (runTask uri o task.op { w with taskQ := q })
    (w.life.apply a) := by
  have hg₁ := hg.popped hpop
  have hbefore : Life.before (World.life { w with taskQ := q }) task.op = w.life := by
    simp only [World.life, Life.before, TaskQueue.updates_pop hpop, TaskQueue.count_pop hpop]
  obtain ⟨due, -, hmem⟩ := TaskQueue.exists_of_pop hpop
  obtain ⟨a, hdoes, hen, hl⟩ :=
    runTask_leads hg₁ hw o (hg.issued_of_own hmem) (hg.orderly.failure _ hmem) fun hfront => by
    have hzero := hg.orderly.noShortcut hpop hfront
    rw [TaskQueue.count_pop hpop] at hzero
    exact Nat.eq_zero_of_add_eq_zero_right hzero
  rw [hbefore] at hen hl
  exact ⟨a, by cases hop : task.op <;> rw [hop] at hdoes <;> exact hdoes, hen, hl⟩

/-- **The step relation refines the life cycle**: each step of the agent is an act its event can come to. -/
theorem step_leads (hg : Good uri w) {e : Event} (h : step uri w e = some w') :
    w.terminated = false ∧ ∃ a, e.Does w a ∧ w.life.Enabled a ∧ Leads uri w' (w.life.apply a) := by
  unfold step at h
  split at h
  · cases h
  next hw =>
  have hw : w.terminated = false := by simpa using hw
  refine ⟨hw, ?_⟩
  cases e with
  | tick elapsed =>
    simp only [Option.some.injEq] at h
    subst h
    refine ⟨.idle, rfl, trivial, ?_, rfl⟩
    have hlater : w.now ≤ w.now + (elapsed : Int) := by omega
    exact ⟨hg.orderly.later hlater, hg.fresh, hg.created, hg.agent, hg.handle, hg.stream, hg.url, hg.linked⟩
  | request r =>
    simp only [Option.some.injEq] at h
    subst h
    refine ⟨.idle, rfl, trivial, ?_⟩
    unfold schedBlock
    split
    · exact leads_add hg (.client .getStatus) rfl 0
    · exact leads_addFront hg (.client r) rfl
  | foreign front delay =>
    simp only [Option.some.injEq] at h
    subst h
    refine ⟨.idle, rfl, trivial, ?_⟩
    cases front with
    | true => exact leads_addFront hg .foreign rfl
    | false => exact leads_add hg .foreign rfl delay
  | run o =>
    simp only [Option.map_eq_some_iff] at h
    obtain ⟨⟨task, q⟩, hpop, rfl⟩ := h
    obtain ⟨a, hdoes, hen, hl⟩ := run_leads hg hw o hpop
    exact ⟨a, ⟨task.op, by simp [World.nextOp, hpop], hdoes⟩, hen, hl⟩
  | drain =>
    simp only [Option.some.injEq] at h
    subst h
    refine ⟨.drain w.curl.toRemove, ⟨_, rfl⟩, trivial, ?_, rfl⟩
    refine ⟨hg.orderly, fun hr => ?_, hg.created, hg.agent, fun ho => hg.handle ?_, hg.stream, hg.url,
      fun ho => (hg.linked ho).drain⟩
    · obtain ⟨hs, hact, hcurl, hi⟩ := hg.fresh hr
      exact ⟨hs, hact, by simp [hcurl, CurlHandle.drain], hi⟩
    · revert ho
      cases hq : w.curl.toAdd <;> cases ha : w.curl.active <;> cases hr : w.curl.toRemove <;>
        simp [CurlHandle.drain, CurlHandle.outstanding, hq, ha, hr]
  | curl e => exact curlEvent_leads hg e h

theorem good_initial (h : Initial uri w) : Good uri w := by
  obtain ⟨url, path, hurl, hdl⟩ := h.download
  have hforeign : ∀ e ∈ w.taskQ.ops.entries, e.2 = ⟨.foreign, some .other⟩ := fun e he =>
    h.taskQ e.2 (List.mem_map_of_mem he)
  have hq : w.taskQ.Orderly w.now := by
    refine ⟨fun e he => by simp [hforeign e he, Op.tag], fun e he hu => absurd ?_ hu, fun e he hs => ?_, ?_,
      fun e he hr hc code headers hf => ?_⟩
    · simp [hforeign e he, Op.update]
    · simp [hforeign e he] at hs
    · refine List.pairwise_of_forall_mem_list fun a ha b hb hs => ?_
      simp [hforeign b hb] at hs
    · simp [hforeign e he] at hf
  refine ⟨hq, fun _ => ?_, fun _ => ⟨h.requests, by rw [hdl]⟩, fun hne => absurd h.requests hne, ?_,
    fun hne => absurd h.requests hne, ?_, fun _ => .of_idle (by rw [h.curl]; rfl) _⟩
  · exact ⟨.inl (by rw [hdl]), by rw [hdl], h.curl, fun e he => by simp [hforeign e he, Op.own, Op.tag]⟩
  · simp [h.curl, CurlHandle.outstanding]
  · simpa [hdl, h.requests] using hurl

theorem life_initial (h : Initial uri w) : w.life = {} := by
  obtain ⟨hs, hact, hcurl, hi⟩ := (good_initial h).fresh h.requests
  obtain ⟨url, path, hurl, hdl⟩ := h.download
  simp [World.life, hdl, h.requests, h.curl, h.overlaps, h.terminated, TaskQueue.updates_of_idle hi,
    TaskQueue.count_of_idle hi, Op.own, Op.tag, DownloadStatus.isTransientError]

theorem reachable_step {e : Event} (hr : Trans.Reachable (agent uri) w) (h : step uri w e = some w') :
    Trans.Reachable (agent uri) w' :=
  have hstep : (agent uri).step w e = some w' := h
  .step hr trivial hstep

/-- Every state the agent reaches is good. -/
theorem good_reachable (h : Trans.Reachable (agent uri) w) : Good uri w :=
  h.invariant (Good uri) (fun _ hi => good_initial hi) fun _ _ _ hg _ hs => by
    obtain ⟨-, a, -, -, hl⟩ := step_leads hg hs
    exact hl.1

/-- The life of a download is a run of the life cycle. -/
theorem life_reachable (h : Trans.Reachable (agent uri) w) : Trans.Reachable lifeCycle w.life :=
  h.simulate World.life (Good uri) (fun _ => good_reachable) (fun _ hi => life_initial hi)
    fun _ _ _ hg _ hs => by
    obtain ⟨hw, a, -, hen, -, hl⟩ := step_leads hg hs
    exact ⟨a, trivial, lifeCycle_step.2 ⟨⟨hw, hen⟩, hl.symm⟩⟩

/-! ## Where an act comes from -/

/-- The task thread takes `op`, with answers `o` from outside. -/
def Event.Runs (w : World) (e : Event) (o : Outside) (op : Op) : Prop := e = .run o ∧ w.nextOp = some op

/-- What an act tells of the event it came from. -/
def Act.From (w : World) (e : Event) : Act → Prop
  | .idle => ∀ o op, e.Runs w o op → op.update = none ∧ op ≠ .transientTimer ∧ op ≠ .alreadyTransferred
  | .send .start _ | .send .resume _ | .sendFailed .start .. | .sendFailed .resume .. | .skipRequest =>
    ∃ o, e.Runs w o (.client .start)
  | .send .timer _ | .sendFailed .timer .. | .timerIdle =>
    ∃ o, e.Runs w o .transientTimer ∧ o.hasViableInterface = true
  | .send .retry _ | .sendFailed .retry .. => ∃ o, e.Runs w o .retry
  | .closed => ∃ o, e.Runs w o (.client .pause) ∨ e.Runs w o .progressCheck
  | .closeFailed terminates => ∃ o, o.closeErr ≠ none ∧
      (e.Runs w o (.client .pause) ∧ terminates = false ∨ e.Runs w o .progressCheck ∧ terminates = true)
  | .finalizeFailed => ∃ o, o.closeErr ≠ none ∧ e.Runs w o (.client .finalize)
  | .finalized => ∃ o, e.Runs w o (.client .finalize)
  | .aborted cancelled _ => ∃ o, e.Runs w o (.client .abort) ∧ (cancelled = false → o.closeErr ≠ none)
  | .drain _ => e = .drain
  | .status code => e = .curl (.status code)
  | .header line => e = .curl (.header line)
  | .write _ chunk n ok => ∃ out indeterminate, e = .curl (.write chunk out indeterminate) ∧
      (ok = false → n = 0 ∨ out = .wrote n ∧ n < chunk.length)
  | .complete _ ok => ∃ curlResult indeterminate, e = .curl (.complete curlResult indeterminate) ∧
      (ok = true → curlResult = 0) ∧
      (ok = false → curlResult = 0 → w.overlaps = 0 → ∀ t, w.curl.active = some t → ¬ t.Accepted)
  | .completeIgnored => ∃ curlResult indeterminate, e = .curl (.complete curlResult indeterminate)
  | .headers bytesTotal => ∃ o code text, e.Runs w o (.headersUpdate code bytesTotal text)
  | .data cbData => ∃ o, e.Runs w o (.dataUpdate cbData)
  | .completed => ∃ o, e.Runs w o .transferCompleted
  | .failedOffline =>
    ∃ o hr hc code text, e.Runs w o (.transferFailed hr hc code text) ∧ o.hasViableInterface = false
  | .failedFatal isClosed => ∃ o hr hc code text, e.Runs w o (.transferFailed hr hc code text) ∧
      o.hasViableInterface = true ∧ w.dl.isFatalError hr hc code = true ∧ w.closes o = isClosed
  | .failedRetry => ∃ o hr hc code text, e.Runs w o (.transferFailed hr hc code text) ∧
      o.hasViableInterface = true ∧ w.dl.isFatalError hr hc code = false
  | .timerOffline => ∃ o, e.Runs w o .transientTimer ∧ o.hasViableInterface = false
  | .alreadyTransferred => ∃ o, e.Runs w o .alreadyTransferred

theorem runs_unique {e : Event} {o o' : Outside} {op op' : Op} (h : e.Runs w o op) (h' : e.Runs w o' op') :
    o = o' ∧ op = op' := by
  obtain ⟨rfl, hop⟩ := h
  obtain ⟨ho, hop'⟩ := h'
  exact ⟨Event.run.inj ho, Option.some.inj (hop.symm.trans hop')⟩

/-- Nothing happens when a task that concerns neither updates nor timers is taken. -/
theorem idle_from {e : Event}
    (h : ∀ o op, e.Runs w o op → op.update = none ∧ op ≠ .transientTimer ∧ op ≠ .alreadyTransferred) :
    Act.idle.From w e := h

theorem idle_from_of_runs {e : Event} {op : Op} (h : e.Runs w o op)
    (hop : op.update = none ∧ op ≠ .transientTimer ∧ op ≠ .alreadyTransferred) : Act.idle.From w e :=
      fun o' op' h' => by
  obtain ⟨-, rfl⟩ := runs_unique h h'
  exact hop

theorem ClientRequest.Does.from {r : ClientRequest} {a : Act} {e : Event} (h : r.Does o a)
    (hrun : e.Runs w o (.client r)) : a.From w e := by
  have hidle : Act.idle.From w e := idle_from_of_runs hrun ⟨rfl, nofun, nofun⟩
  cases r with
  | start =>
    rcases h with rfl | rfl | ⟨r, rfl | rfl⟩ | ⟨called, terminates, -, rfl | rfl⟩
    exacts [hidle, ⟨o, hrun⟩, ⟨o, hrun⟩, ⟨o, hrun⟩, ⟨o, hrun⟩, ⟨o, hrun⟩]
  | pause =>
    rcases h with rfl | rfl | ⟨he, rfl⟩
    exacts [hidle, ⟨o, .inl hrun⟩, ⟨o, he, .inl ⟨hrun, rfl⟩⟩]
  | finalize =>
    rcases h with rfl | rfl | ⟨he, rfl⟩
    exacts [hidle, ⟨o, hrun⟩, ⟨o, he, hrun⟩]
  | abort =>
    rcases h with rfl | ⟨cancelled, file, rfl, hc⟩
    exacts [hidle, ⟨o, hrun, hc⟩]
  | getStatus | setProperty =>
    obtain rfl : a = .idle := h
    exact hidle

theorem Op.Does.from {op : Op} {a : Act} {e : Event} (h : op.Does w o a) (hrun : e.Runs w o op) :
    a.From w e := by
  cases op with
  | client r => exact ClientRequest.Does.from h hrun
  | headersUpdate code bytesTotal text =>
    obtain rfl : a = .headers bytesTotal := h
    exact ⟨o, code, text, hrun⟩
  | dataUpdate cbData =>
    obtain rfl : a = .data cbData := h
    exact ⟨o, hrun⟩
  | transferCompleted =>
    obtain rfl : a = .completed := h
    exact ⟨o, hrun⟩
  | transferFailed hr hc code text =>
    simp only [Op.Does] at h
    split at h
    · next hv =>
      subst h
      exact ⟨o, hr, hc, code, text, hrun, hv⟩
    · next hv =>
      have hv : o.hasViableInterface = true := by simpa using hv
      split at h
      · next hfatal =>
        rcases h with ⟨he, rfl⟩ | ⟨he, rfl⟩
        exacts [⟨o, hr, hc, code, text, hrun, hv, hfatal, he⟩, ⟨o, hr, hc, code, text, hrun, hv, hfatal, he⟩]
      · next hfatal =>
        subst h
        exact ⟨o, hr, hc, code, text, hrun, hv, by simpa using hfatal⟩
  | retry =>
    rcases h with rfl | ⟨r, rfl⟩ | ⟨called, rfl⟩
    exacts [idle_from_of_runs hrun ⟨rfl, (by simp), (by simp)⟩, ⟨o, hrun⟩, ⟨o, hrun⟩]
  | transientTimer =>
    simp only [Op.Does] at h
    split at h
    · next hv =>
      subst h
      exact ⟨o, hrun, hv⟩
    · next hv =>
      have hv : o.hasViableInterface = true := by simpa using hv
      rcases h with rfl | ⟨r, rfl⟩ | ⟨called, rfl⟩
      exacts [⟨o, hrun, hv⟩, ⟨o, hrun, hv⟩, ⟨o, hrun, hv⟩]
  | alreadyTransferred =>
    obtain rfl : a = .alreadyTransferred := h
    exact ⟨o, hrun⟩
  | progressCheck =>
    rcases h with rfl | rfl | ⟨he, rfl⟩
    exacts [idle_from_of_runs hrun ⟨rfl, (by simp), (by simp)⟩, ⟨o, .inr hrun⟩, ⟨o, he, .inr ⟨hrun, rfl⟩⟩]
  | foreign =>
    obtain rfl : a = .idle := h
    exact idle_from_of_runs hrun ⟨rfl, (by simp), (by simp)⟩

theorem Event.Does.from {e : Event} {a : Act} (h : e.Does w a) : a.From w e := by
  cases e with
  | tick | request | foreign =>
    obtain rfl : a = .idle := h
    exact idle_from fun o op hr => nomatch hr.1
  | run o =>
    obtain ⟨op, hop, h⟩ := h
    exact Op.Does.from h ⟨rfl, hop⟩
  | drain =>
    obtain ⟨lost, rfl⟩ := h
    exact rfl
  | curl e =>
    cases e with
    | status code =>
      obtain rfl : a = .status code := h
      exact rfl
    | header line =>
      obtain rfl : a = .header line := h
      exact rfl
    | write chunk out indeterminate =>
      obtain ⟨bytesTotal, n, ok, rfl, hn⟩ := h
      exact ⟨out, indeterminate, rfl, hn⟩
    | complete curlResult indeterminate =>
      rcases h with rfl | ⟨bytesTotal, ok, rfl, hok⟩
      exacts [⟨curlResult, indeterminate, rfl⟩, ⟨curlResult, indeterminate, rfl, hok⟩]

/-- A run whose events all meet a condition is a run of the life cycle whose acts all
meet another, if the one says so of the acts that come of the events. -/
theorem life_reachableBy {C : World → Event → Prop} {D : Life → Act → Prop}
    (hD : ∀ w e a, a.From w e → w.life.Enabled a → C w e → D w.life a)
    (h : Trans.ReachableBy (agent uri) C w) :
    Trans.ReachableBy lifeCycle D w.life :=
  h.simulate World.life (Good uri) (fun _ hr => good_reachable hr.reachable) (fun _ hi => life_initial hi)
    fun w e _ hg hc hs => by
      obtain ⟨hw, a, hdoes, hen, -, hl⟩ := step_leads hg hs
      exact ⟨a, hD w e a hdoes.from hen hc, lifeCycle_step.2 ⟨⟨hw, hen⟩, hl.symm⟩⟩

end DoClient
