/-
The life of a download, read off the agent's state, and what holds of every
state the agent reaches: `Good`. Each function of the client is described once
here, by the world it leaves.
-/
import DoClient.Life
import DoClient.Send

namespace DoClient

open HResult

/-- What the life cycle sees of the agent's state. -/
def World.life (w : World) : Life where
  state := w.dl.status.state
  waiting := w.dl.status.isTransientError
  active := w.dl.fHttpRequestActive
  bytesTotal := w.dl.status.bytesTotal
  bytesTransferred := w.dl.status.bytesTransferred
  file := if w.requests = [] then [] else (w.fs w.dl.destFilePath).getD []
  queued := w.curl.toAdd
  running := w.curl.active
  updates := w.taskQ.updates
  timers := w.taskQ.count .transientTimer
  shortcuts := w.taskQ.count .alreadyTransferred
  requests := w.requests
  overlaps := w.overlaps
  terminated := w.terminated

/-- The agent has taken in of the response what the transfer has passed on. -/
structure Transfer.SeenBy (t : Transfer) (a : HttpAgent) : Prop where
  invoked : a.responseOnHeadersAvailableInvoked = t.bodyStarted
  headers : t.bodyStarted = false → a.responseHeaders = t.response.responseHeaders
  status : t.bodyStarted = true → a.hrTranslatedStatusCode = HttpAgent.resultFromStatusCode t.responseCode
  shown : t.bodyStarted = true → t.Accepted → succeeded a.hrCallback = true → t.HeadersTaken

/-- The transfer of the handle, if there is one, is the one whose response the agent takes in. -/
structure Linked (c : CurlHandle) (agent : Option HttpAgent) : Prop where
  single : c.toAdd = none ∨ c.active = none
  seen : ∀ t a, c.toAdd = some t ∨ c.active = some t → agent = some a → t.SeenBy a

theorem Linked.of_idle {c : CurlHandle} (h : c.outstanding = false) (agent : Option HttpAgent) :
    Linked c agent := by
  have hn : c.toAdd = none ∧ c.active = none := by simpa [CurlHandle.outstanding] using h
  exact ⟨.inl hn.1, fun t a ht => by simp [hn] at ht⟩

/-- What holds of every state the agent reaches. -/
structure Good (uri : UriLib) (w : World) : Prop where
  orderly : w.taskQ.Orderly w.now
  /-- Before the first request nothing of the download's own is under way. -/
  fresh : w.requests = [] → (w.dl.status.state = .created ∨ w.dl.status.state = .aborted) ∧
    w.dl.fHttpRequestActive = false ∧ w.curl = {} ∧ w.taskQ.Idle
  created : w.dl.status.state = .created → w.requests = [] ∧ w.dl.status = {}
  agent : w.requests ≠ [] → w.dl.httpAgent.isSome = true
  handle : w.curl.outstanding = true → ∃ a, w.dl.httpAgent = some a ∧ a.curlHandle.isSome = true
  stream : w.requests ≠ [] → ∀ p, w.dl.fileStream = some p → p = w.dl.destFilePath
  url : w.dl.url.isEmpty = true ∧ w.requests = [] ∨ validateUrl uri w.dl.url = true
  linked : w.overlaps = 0 → Linked w.curl w.dl.httpAgent

variable {uri : UriLib} {o : Outside} {w w' : World}

/-- Once a request was issued. -/
theorem Good.started (hne : w.requests ≠ []) (hq : w.taskQ.Orderly w.now) (hs : w.dl.status.state ≠ .created)
    (ha : w.dl.httpAgent.isSome = true)
    (hh : w.curl.outstanding = true → ∃ a, w.dl.httpAgent = some a ∧ a.curlHandle.isSome = true)
    (hf : ∀ p, w.dl.fileStream = some p → p = w.dl.destFilePath)
    (hu : w.dl.url.isEmpty = true ∧ w.requests = [] ∨ validateUrl uri w.dl.url = true)
    (hl : w.overlaps = 0 → Linked w.curl w.dl.httpAgent) : Good uri w :=
  ⟨hq, fun h => absurd h hne, fun h => absurd h hs, fun _ => ha, hh, fun _ => hf, hu, hl⟩

theorem Good.issued (hg : Good uri w) (hc : w.dl.status.state ≠ .created)
    (ha : w.dl.status.state ≠ .aborted) :
    w.requests ≠ [] := fun h => by
  rcases (hg.fresh h).1 with h | h
  exacts [hc h, ha h]

/-- An operation of the download's own is only queued once a request was issued. -/
theorem Good.issued_of_own (hg : Good uri w) {e : Int × Task Op Tag} (he : e ∈ w.taskQ.ops.entries)
    (hown : e.2.op.own = true) : w.requests ≠ [] := fun h => by
  have hi := (hg.fresh h).2.2.2 e he
  rw [hi] at hown
  cases hown

theorem Good.issued_of_outstanding (hg : Good uri w) (h : w.curl.outstanding = true) : w.requests ≠ [] :=
  fun hr => by
  rw [(hg.fresh hr).2.2.1] at h
  cases h

/-- A request was issued for a URL that was looked at. -/
theorem Good.validUrl (hg : Good uri w) (hne : w.requests ≠ []) : validateUrl uri w.dl.url = true :=
  hg.url.resolve_left fun h => hne h.2

theorem Good.ne_created (hg : Good uri w) (hne : w.requests ≠ []) : w.dl.status.state ≠ .created :=
  fun h => hne (hg.created h).1

/-! ## The curl handle -/

/-- `HttpAgent::Close` leaves no transfer. -/
theorem closeHttpAgent_run (hg : Good uri w) (raced : Bool) : ∃ c : CurlHandle,
    w.closeHttpAgent raced = { w with curl := c } ∧ c.toAdd = none ∧ c.active = none ∧
    (w.curl = {} → c = {}) := by
  have hidle : w.curl.outstanding = false → w.curl.toAdd = none ∧ w.curl.active = none := by
    simp [CurlHandle.outstanding]
  have hremove : (w.curl.remove raced).toAdd = none ∧ (w.curl.remove raced).active = none ∧
      (w.curl = {} → w.curl.remove raced = {}) := by
    unfold CurlHandle.remove
    split
    · exact ⟨rfl, rfl, fun _ => rfl⟩
    · next hn =>
      refine ⟨rfl, by simpa using hn, fun h => ?_⟩
      simp [h]
  unfold World.closeHttpAgent
  split
  · next a ha =>
    split
    · exact ⟨_, rfl, hremove⟩
    · next hn =>
      have ho : w.curl.outstanding = false := by
        by_contra hne
        obtain ⟨a', ha', hs⟩ := hg.handle (by simpa using hne)
        rw [ha, Option.some.injEq] at ha'
        exact hn (ha' ▸ hs)
      exact ⟨_, rfl, (hidle ho).1, (hidle ho).2, id⟩
  · next ha =>
    have ho : w.curl.outstanding = false := by
      by_contra hne
      obtain ⟨a', ha', -⟩ := hg.handle (by simpa using hne)
      rw [ha] at ha'
      cases ha'
    exact ⟨_, rfl, (hidle ho).1, (hidle ho).2, id⟩

/-! ## Files -/

/-- The file can be closed, or is. -/
def World.closes (w : World) (o : Outside) : Bool := w.dl.fileStream.isNone || o.closeErr.isNone

theorem closeErr_of_closes (h : w.closes o = false) : o.closeErr ≠ none := fun hn => by
  simp [World.closes, hn] at h

theorem closeFileStream_run (o : Outside) (w : World) :
    (w.closes o = true ∧ closeFileStream o w = (.ok (), { w with dl := { w.dl with fileStream := none } })) ∨
    w.closes o = false ∧ ∃ hr, closeFileStream o w = (.error hr, w) := by
  simp only [closeFileStream, DlM.bind_run, DlM.get_run, DlM.ite_run, World.closes]
  by_cases hs : w.dl.fileStream.isSome = true
  · rw [if_pos hs]
    cases hc : o.closeErr with
    | none => exact .inl ⟨by simp, rfl⟩
    | some err => exact .inr ⟨by simpa using hs, _, rfl⟩
  · rw [if_neg hs]
    have hn : w.dl.fileStream = none := by simpa using hs
    refine .inl ⟨by simp [hn], ?_⟩
    rw [← hn]
    rfl

theorem assignFileStream_run (o : Outside) (path : String) (w : World) :
    assignFileStream o path w = (.ok (), { w with dl := { w.dl with fileStream := some path } }) ∨
    o.closeErr ≠ none ∧ ∃ hr, assignFileStream o path w = (.error hr, { w with terminated := true }) := by
  simp only [assignFileStream, DlM.bind_run, DlM.get_run, DlM.ite_run]
  split
  · next hc => exact .inr ⟨fun h => by simp [h] at hc, _, rfl⟩
  · exact .inl rfl

theorem openDestFile_run (o : Outside) (w : World) :
    openDestFile o w = (.ok (), { w with dl := { w.dl with fileStream := some w.dl.destFilePath } }) ∨
    (∃ hr, openDestFile o w = (.error hr, w)) ∨
    (o.closeErr ≠ none ∧ ∃ hr, openDestFile o w = (.error hr, { w with terminated := true })) := by
  simp only [openDestFile, DlM.bind_run, DlM.get_run, DlM.ite_run]
  split
  · exact .inr (.inl ⟨_, rfl⟩)
  · cases o.openErr with
    | some err => exact .inr (.inl ⟨_, rfl⟩)
    | none => exact (assignFileStream_run o w.dl.destFilePath w).imp_right .inr

/-- `DOFile::Create` makes the file: there is none, and no error. -/
def World.CanCreate (w : World) (o : Outside) : Prop := w.fs w.dl.destFilePath = none ∧ o.createErr = none

/-- `DOFile::Create` of a file that was not there, then the flag; what a failure has done is undone by nobody. -/
theorem createDestFile_run (o : Outside) (w : World) :
    (w.CanCreate o ∧ createDestFile o w = (.ok (), { w with
      fs := Function.update w.fs w.dl.destFilePath (some []), created := w.dl.destFilePath :: w.created
      dl := { w.dl with fileStream := some w.dl.destFilePath, fDestFileCreated := true } })) ∨
    (¬ w.CanCreate o ∧ ∃ hr, createDestFile o w = (.error hr, w)) ∨
    (w.CanCreate o ∧ o.closeErr ≠ none ∧ ∃ hr, createDestFile o w = (.error hr, { w with
      fs := Function.update w.fs w.dl.destFilePath (some []), created := w.dl.destFilePath :: w.created
      terminated := true })) := by
  simp only [createDestFile, DlM.bind_run, DlM.get_run, DlM.ite_run]
  split
  · next hs =>
    have hnot : ¬ w.CanCreate o := fun h => by
      rw [h.1] at hs
      cases hs
    exact .inr (.inl ⟨hnot, _, rfl⟩)
  · next hn =>
    have hn : w.fs w.dl.destFilePath = none := by simpa using hn
    cases hcreate : o.createErr with
    | some err => exact .inr (.inl ⟨fun h => (nomatch hcreate.symm.trans h.2), _, rfl⟩)
    | none =>
      simp only [DlM.bind_run, DlM.modify_run]
      rcases assignFileStream_run o w.dl.destFilePath { w with
        fs := Function.update w.fs w.dl.destFilePath (some []),
        created := w.dl.destFilePath :: w.created } with
        h | ⟨hc, hr, h⟩
      · rw [h]
        exact .inl ⟨⟨hn, hcreate⟩, rfl⟩
      · rw [h]
        exact .inr (.inr ⟨⟨hn, hcreate⟩, hc, hr, rfl⟩)

/-! ## Closing -/

/-- A handle with no transfer left, untouched when nothing was ever asked of it. -/
def Closed (c c' : CurlHandle) : Prop := c'.toAdd = none ∧ c'.active = none ∧ (c = {} → c' = {})

theorem Closed.not_outstanding {c c' : CurlHandle} (h : Closed c c') : ¬ c'.outstanding = true := by
  simp [CurlHandle.outstanding, h.1, h.2.1]

theorem Closed.linked {c c' : CurlHandle} (h : Closed c c') (agent : Option HttpAgent) : Linked c' agent :=
  .of_idle (Bool.not_eq_true _ ▸ h.not_outstanding) agent

theorem pause_run (hg : Good uri w) (o : Outside) : ∃ c, Closed w.curl c ∧
    (w.closes o = true ∧
      pause o w = (.ok (),
        { w with curl := c, dl := { w.dl with fHttpRequestActive := false, fileStream := none } }) ∨
    w.closes o = false ∧ ∃ hr, pause o w = (.error hr, { w with
      curl := c, dl := { w.dl with fHttpRequestActive := false } })) := by
  obtain ⟨c, hclose, hc⟩ := closeHttpAgent_run hg o.removeRaced
  refine ⟨c, hc, ?_⟩
  simp only [pause, DlM.bind_run, DlM.modify_run, hclose, World.updateDl]
  rcases closeFileStream_run o { w with curl := c, dl := { w.dl with fHttpRequestActive := false } } with
    ⟨he, h⟩ | ⟨he, hr, h⟩
  · exact .inl ⟨he, h⟩
  · exact .inr ⟨he, hr, h⟩

theorem finalize_run (hg : Good uri w) (o : Outside) : ∃ c, Closed w.curl c ∧
    (w.closes o = true ∧ finalize o w = (.ok (), World.cancelTasks { w with
      curl := c, dl := { w.dl with fHttpRequestActive := false, fileStream := none } }) ∨
    w.closes o = false ∧ ∃ hr, finalize o w = (.error hr, { w with
      curl := c, dl := { w.dl with fHttpRequestActive := false } })) := by
  have hsplit : finalize o w = (pause o >>= fun _ => DlM.modify World.cancelTasks) w := by
    simp only [finalize, pause, DlM.bind_run, DlM.modify_run]
  obtain ⟨c, hc, ⟨he, h⟩ | ⟨he, hr, h⟩⟩ := pause_run hg o
  · exact ⟨c, hc, .inl ⟨he, by rw [hsplit, DlM.bind_run, h]; rfl⟩⟩
  · exact ⟨c, hc, .inr ⟨he, hr, by rw [hsplit, DlM.bind_run, h]⟩⟩

/-- The end of `_Abort`: the file goes if the download is its creator. -/
def deleteOwnFile (o : Outside) (w : World) : World :=
  if w.dl.fDestFileCreated ∧ ¬ w.dl.destFilePath.isEmpty then deleteDestFile o w else w

theorem abort_run (hg : Good uri w) (o : Outside) : ∃ c, Closed w.curl c ∧
    (w.closes o = true ∧ abort o w = (.ok (), deleteOwnFile o (World.cancelTasks { w with
      curl := c, dl := { w.dl with fileStream := none } })) ∨
    w.closes o = false ∧ abort o w = (.ok (), { w with curl := c })) := by
  obtain ⟨c, hclose, hc⟩ := closeHttpAgent_run hg o.removeRaced
  refine ⟨c, hc, ?_⟩
  simp only [abort, DlM.catchLog_run, DlM.bind_run, DlM.modify_run, hclose]
  rcases closeFileStream_run o { w with curl := c } with ⟨he, h⟩ | ⟨he, hr, h⟩
  · left
    refine ⟨he, ?_⟩
    simp only [h, DlM.get_run, deleteOwnFile, DlM.ite_run, DlM.modify_run, DlM.pure_run]
    split <;> rfl
  · exact .inr ⟨he, by rw [h]⟩

end DoClient
