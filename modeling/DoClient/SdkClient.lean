/-
The calls of the SDK to the agent (`internal/rest/util/do_http_client.cpp`,
`do_http_message.cpp`, `internal/rest/download_impl.cpp`): a request, its
reply, and what the caller is told. The connection is what comes over it.
-/
import DoClient.RestController
import DoClient.SdkDownload

namespace DoClient.Sdk

/-! ## Replies -/

/-- What is thrown while a reply is read. -/
inductive Thrown
  /-- `boost::system::system_error`. -/
  | systemError (code : Int32)
  /-- `details::exception`. -/
  | exception (ec : ErrorCode)
  | std (e : StdException)
  /-- An exception of the property tree. -/
  | ptree
  deriving DecidableEq, Repr

/-- What comes after a request: reads, and the error of the next one. Without reads the request was not sent. -/
structure Exchange where
  reads : List Bytes
  error : Int32 := 0
  deriving DecidableEq, Repr

/-- `HttpResponse::Deserialize`. -/
def deserialize (error : Int32) : HttpParser → List Bytes → Except Thrown HttpPacket
  | _, [] => .error (.systemError error)
  | p, r :: reads =>
    match p.onData r with
    | .error e => .error (.std e)
    | .ok p => if p.done then .ok p.parsedData else deserialize error p reads

section Calls

variable (lib : PtreeLib)

/-- `ExtractJsonBody`. -/
def extractJsonBody (body : Bytes) : Ptree := if body = [] then [] else (lib.readJson body).getD []

/-- `GetResponse`: the status code and the body. -/
def getResponse (x : Exchange) : Except Thrown (Nat × Ptree) :=
  (deserialize x.error {} x.reads).map fun packet => (packet.statusCode, extractJsonBody lib packet.body)

/-- The reply of a request that failed holds the error of the agent. -/
def checkStatus : Nat × Ptree → Except Thrown Ptree
  | (responseStatusCode, responseBodyJson) =>
    if responseStatusCode ≠ 200 then
      let agentErrorCode := (responseBodyJson.find? (ascii "ErrorCode")).bind lib.getInt32
      .error (.exception (makeErrorCode (agentErrorCode.getD (-1))))
    else .ok responseBodyJson

/-- The exchanges of one call: the second takes place when the first breaks, over a new connection. -/
structure Attempt where
  first : Exchange
  /-- `_InitializeDOConnection(true)` and the exchange after it. -/
  again : Except Thrown Exchange
  deriving DecidableEq

/-- `CHttpClient::SendRequest`. -/
def sendRequest (a : Attempt) : Except Thrown Ptree :=
  match getResponse lib a.first with
  | .error (.systemError _) =>
    match a.again with
    | .error e => .error e
    | .ok x =>
      match getResponse lib x with
      | .error (.systemError code) => .error (.exception (makeErrorCode code))
      | .error e => .error e
      | .ok response => checkStatus lib response
  | .error e => .error e
  | .ok response => checkStatus lib response

/-! ## Calls -/

/-- How a call ends: it is `noexcept` and catches `details::exception`; anything else ends the process (`none`). -/
def catchException {α : Type} : Except Thrown α → Option (Except ErrorCode α)
  | .ok a => some (.ok a)
  | .error (.exception ec) => some (.error ec)
  | .error _ => none

/-- `_DownloadOperationCall`: `Start`, `Pause`, `Resume`, `Finalize` and `Abort`. -/
def downloadOperationCall (a : Attempt) : Option (Except ErrorCode Unit) :=
  catchException ((sendRequest lib a).map fun _ => ())

/-- `ptree::get`. -/
def ptreeGet {α : Type} (read : Bytes → Option α) (t : Ptree) (name : Bytes) : Except Thrown α :=
  match (t.find? name).bind read with
  | some a => .ok a
  | none => .error .ptree

/-- `stateMap`. -/
def stateMap : List (Bytes × DownloadState) := [
  (ascii "Created", .created),
  (ascii "Transferring", .transferring),
  (ascii "Transferred", .transferred),
  (ascii "Finalized", .finalized),
  (ascii "Aborted", .aborted),
  (ascii "Paused", .paused)]

/-- The status in a body. -/
def readStatus (respBody : Ptree) : Except Thrown DownloadStatus := do
  let bytesTotal ← ptreeGet lib.getUInt64 respBody (ascii "BytesTotal")
  let bytesTransferred ← ptreeGet lib.getUInt64 respBody (ascii "BytesTransferred")
  let errorCode ← ptreeGet lib.getInt32 respBody (ascii "ErrorCode")
  let extendedErrorCode ← ptreeGet lib.getInt32 respBody (ascii "ExtendedErrorCode")
  let status ← ptreeGet some respBody (ascii "Status")
  match stateMap.find? (·.1 == status) with
  | some (_, state) => .ok { bytesTotal, bytesTransferred, errorCode, extendedErrorCode, state }
  | none => .error (.exception (makeErrorCode HResult.E_UNEXPECTED))

/-- `GetStatus`. -/
def getStatus (a : Attempt) : Option (Except ErrorCode DownloadStatus) :=
  catchException ((sendRequest lib a).bind (readStatus lib))

def maxNumRetryAttempts : Nat := 3

/-- The loop of `Init`: a request refused by an agent about to stop is made again. -/
def initAttempts : List Attempt → Except Thrown Bytes
  | [] => .error (.exception (makeErrorCode HResult.DO_E_NO_SERVICE))
  | a :: attempts =>
    match (sendRequest lib a).bind fun respBody => ptreeGet some respBody (ascii "Id") with
    | .error (.exception ec) =>
      if ec.value ≠ HResult.DO_E_NO_SERVICE then .error (.exception ec) else initAttempts attempts
    | result => result

/-- `Init`, and the id it keeps. -/
def init (attempts : List Attempt) : Option (Except ErrorCode Bytes) :=
  catchException (initAttempts lib (attempts.take maxNumRetryAttempts))

end Calls

/-! ## Replies that come in whole -/

open HttpParser

/-- The bytes come over a connection, in whatever reads. -/
structure Exchange.Carries (x : Exchange) (bytes : Bytes) : Prop where
  reads_ne : ∀ r ∈ x.reads, r ≠ []
  reads : x.reads.flatten = bytes

/-- The reply of a call that gets one: to its first request, or to the second when the connection breaks. -/
inductive Attempt.Delivers (lib : PtreeLib) (a : Attempt) (bytes : Bytes) : Prop
  | first : a.first.Carries bytes → Delivers lib a bytes
  | again {code x} :
    getResponse lib a.first = .error (.systemError code) → a.again = .ok x → x.Carries bytes →
    Delivers lib a bytes

variable {lib : PtreeLib} {m : Bytes} {packet : HttpPacket} {x : Exchange} {a : Attempt}

theorem deserialize_message (h : Takes m packet) (hfits : m.length ≤ capacity) (hne : m ≠ [])
    (hx : x.Carries m) :
    deserialize x.error {} x.reads = .ok packet := by
  have hall : ∀ (reads : List Bytes) (b : Bytes) (p : HttpParser), (∀ r ∈ reads, r ≠ []) → reads ≠ [] →
      b ++ reads.flatten = m → scan b = .ok p → deserialize x.error p reads = .ok packet := by
    intro reads
    induction reads with
    | nil =>
      intro b p _ hnil
      exact absurd rfl hnil
    | cons r reads ih =>
      intro b p hreads _ hb hp
      obtain ⟨hr, hrest⟩ := List.forall_mem_cons.1 hreads
      rw [List.flatten_cons] at hb
      obtain ⟨q, hq, hscan, hdone, hpacket⟩ := h.onData hfits hr hb hp
      rw [deserialize, hq]
      by_cases hend : reads.flatten = []
      · simp only [hdone.2 hend, if_true, hpacket hend]
      · have hnot : q.done = false := by simpa [hend] using hdone
        have hreads' : reads ≠ [] := fun hnil => hend (by rw [hnil]; rfl)
        simp only [hnot]
        exact ih (b ++ r) q hrest hreads' (by rw [List.append_assoc, hb]) hscan
  refine hall x.reads [] {} hx.reads_ne (fun hnil => hne ?_) hx.reads rfl
  rw [← hx.reads, hnil]
  rfl

/-- A message too long for the buffer is never taken in. -/
theorem deserialize_too_long (h : Takes m packet) (hlong : capacity < m.length) (hx : x.Carries m) :
    ∃ e, deserialize x.error {} x.reads = .error (.std e) := by
  have hall :
    ∀ (reads : List Bytes) (b : Bytes) (p : HttpParser), (∀ r ∈ reads, r ≠ []) → b.length ≤ capacity →
      b ++ reads.flatten = m → scan b = .ok p → ∃ e, deserialize x.error p reads = .error (.std e) := by
    intro reads
    induction reads with
    | nil =>
      intro b p _ hb hm _
      have hlen : b.length = m.length := by simp [← hm]
      omega
    | cons r reads ih =>
      intro b p hreads hb hm hp
      obtain ⟨hr, hrest⟩ := List.forall_mem_cons.1 hreads
      rw [List.flatten_cons] at hm
      have hlen : b.length + (r.length + reads.flatten.length) = m.length := by simp [← hm]
      by_cases hfits : b.length + r.length ≤ capacity
      · obtain ⟨p', hp', hstate⟩ :=
          (hm.symm ▸ h : Takes (b ++ (r ++ reads.flatten)) packet).waits (by simp [hr])
        obtain rfl := Except.ok.inj (hp'.symm.trans hp)
        have hne : reads.flatten ≠ [] := List.ne_nil_of_length_pos (by omega)
        obtain ⟨q, hq, hqstate⟩ :=
          ((List.append_assoc b r _ ▸ hm).symm ▸ h : Takes ((b ++ r) ++ reads.flatten) packet).waits hne
        have hnot : q.done = false := by simpa [done] using hqstate
        rw [deserialize, (onData_scan r hp hstate hfits).trans hq]
        simp only [hnot]
        exact ih (b ++ r) q hrest (by simpa using hfits) (by rw [List.append_assoc, hm]) hq
      · have hover : capacity < p.incomingDataBuf.length + r.length := by
          rw [scan_buf hp]
          omega
        rw [deserialize, HttpParser.onData, if_pos hover]
        exact ⟨_, rfl⟩
  exact hall x.reads [] {} hx.reads_ne (Nat.zero_le _) hx.reads rfl

theorem sendRequest_delivered {status : Nat} {body : Ptree} (hresponse : ∀ x : Exchange, x.Carries m →
    getResponse lib x = .ok (status, body)) (ha : a.Delivers lib m) : sendRequest lib a =
      checkStatus lib (status, body) := by
  cases ha with
  | first hx => rw [sendRequest, hresponse _ hx]
  | again hfirst hagain hx =>
    rw [sendRequest, hfirst, hagain]
    simp only [hresponse _ hx]

end DoClient.Sdk
