/-
How the agent answers a request (`ipc/rest_http_controller.cpp`,
`ipc/rest_http_listener_conn.cpp`): which HTTP status a result becomes, and
the reply, put together by hand around a body in JSON.

boost's property trees are not part of the repository: they are a parameter,
and `Faithful` is what both ends rely on.
-/
import DoClient.HttpMessage
import DoClient.RestApi

namespace DoClient

open HResult

/-! ## Property trees -/

/-- A tree without branches: names and texts. -/
abbrev Ptree := List (Bytes × Bytes)

/-- `put`: the text of a name that is there is replaced. -/
def Ptree.put (t : Ptree) (name text : Bytes) : Ptree :=
  if t.any (·.1 == name) then t.map fun e => if e.1 = name then (e.1, text) else e else t ++ [(name, text)]

def Ptree.find? (t : Ptree) (name : Bytes) : Option Bytes := (List.find? (·.1 == name) t).map (·.2)

/-- Trees as JSON, and the numbers a text is read as. An exception is `none`; what writing throws is caught as a result. -/
structure PtreeLib where
  writeJson : Ptree → Except HResult Bytes
  readJson : Bytes → Option Ptree
  getInt32 : Bytes → Option Int32
  getUInt64 : Bytes → Option Nat

/-- A name or a number: no character of it is escaped in JSON. -/
def Plain (s : Bytes) : Prop := s ≠ [] ∧ ∀ c ∈ s, isalnum c = true ∨ c = 45

/-- An object of one member, a number. -/
def numberObject (name : Bytes) (n : Int) : Bytes :=
  ascii "\x7b \"" ++ name ++ ascii "\": " ++ toDecimalInt n ++ ascii " \x7d"

/-- Plain texts and numbers are read back as they were written. -/
structure PtreeLib.Faithful (lib : PtreeLib) : Prop where
  readJson_writeJson : ∀ t : Ptree, t ≠ [] → (∀ e ∈ t, Plain e.1 ∧ Plain e.2) →
    ∃ text, lib.writeJson t = .ok text ∧ text ≠ [] ∧ lib.readJson text = some t
  readJson_number : ∀ name n, Plain name → lib.readJson (numberObject name n) = some [(name, toDecimalInt n)]
  getInt32_toDecimalInt : ∀ n : Int32, lib.getInt32 (toDecimalInt n.toInt) = some n
  getUInt64_toDecimal : ∀ n, n < 2 ^ 64 → lib.getUInt64 (toDecimal n) = some n

/-! ## Replies -/

namespace HttpStatusCodes

def OK : Nat := 200
def BadRequest : Nat := 400
def NotFound : Nat := 404
def InternalError : Nat := 500
def ServiceUnavailable : Nat := 503

end HttpStatusCodes

/-- `g_HttpStatusToString`. -/
def httpStatusToString (statusCode : Nat) : Bytes :=
  if statusCode = HttpStatusCodes.OK then ascii "OK"
  else if statusCode = HttpStatusCodes.BadRequest then ascii "BadRequest"
  else if statusCode = HttpStatusCodes.NotFound then ascii "NotFound"
  else if statusCode = HttpStatusCodes.InternalError then ascii "InternalError"
  else if statusCode = HttpStatusCodes.ServiceUnavailable then ascii "ServiceUnavailable"
  else ascii "StatusDescription"

/-- `HttpListenerConnection::Reply`; the version is that of the build. -/
def reply (version : Bytes) (statusCode : Nat) (body : Bytes) : Bytes :=
  ascii "HTTP/1.1 " ++ toDecimal statusCode ++ ascii " " ++ httpStatusToString statusCode ++ CRLF ++
  (if body = [] then [] else ascii "Content-Length: " ++ toDecimal body.length ++ CRLF) ++
  ascii "Server: Delivery-Optimization-Agent/" ++ version ++ CRLF ++
  CRLF ++
  body

namespace RestHttpController

/-- `_HttpStatusFromHRESULT`. -/
def httpStatusFromHResult (hr : HResult) : Nat :=
  if hr = S_OK ∨ hr = S_FALSE then HttpStatusCodes.OK
  else if hr = E_NOT_SET then HttpStatusCodes.NotFound
  else if hr = E_OUTOFMEMORY then HttpStatusCodes.ServiceUnavailable
  else if hr = ERROR_UNHANDLED_EXCEPTION then HttpStatusCodes.InternalError
  else HttpStatusCodes.BadRequest

/-- The body of a failure. -/
def failureBody (hr : HResult) : Bytes := numberObject (ascii "ErrorCode") hr.toInt

/-- `_OnFailure`. -/
def onFailure (version : Bytes) (hr : HResult) : Bytes :=
  reply version (httpStatusFromHResult hr) (failureBody hr)

/-- `RestApiRequestBase`: the constructor, which asks for the method, and `Process` with the handler of the method. A
handler leaves its result, or what it throws, and the body it has filled in by then. -/
def requestResult (packet : HttpPacket)
    (parseAndProcess : RestApiMethods → Except HResult HResult × Ptree) : HResult × Ptree :=
  match RestApiParser.method packet with
  | .error hr => (hr, [])
  | .ok method =>
    match parseAndProcess method with
    | (.ok hr, responseBody) => (hr, responseBody)
    | (.error hr, responseBody) => (hr, responseBody)

/-- `_HttpListenerCallback`. -/
def httpListenerCallback (lib : PtreeLib) (version : Bytes)
    (restControllerValidateRemoteAddr isLoopback : Bool) (packet : HttpPacket)
    (parseAndProcess : RestApiMethods → Except HResult HResult × Ptree) : Bytes :=
  let (hr, responseBody) :=
    if restControllerValidateRemoteAddr && !isLoopback then (E_INVALIDARG, [])
      else requestResult packet parseAndProcess
  if succeeded hr then
    match lib.writeJson responseBody with
    | .ok text => reply version HttpStatusCodes.OK text
    | .error hr => if succeeded hr then reply version HttpStatusCodes.OK [] else onFailure version hr
  else onFailure version hr

/-- The results that are returned or thrown while a request is processed. -/
inductive EndsWith (lib : PtreeLib) (restControllerValidateRemoteAddr isLoopback : Bool) (packet : HttpPacket)
    (parseAndProcess : RestApiMethods → Except HResult HResult × Ptree) : HResult → Prop
  /-- The request comes from another host. -/
  | remote : (restControllerValidateRemoteAddr && !isLoopback) = true →
    EndsWith lib restControllerValidateRemoteAddr isLoopback packet parseAndProcess E_INVALIDARG
  /-- The constructor throws. -/
  | noMethod {hr} :
    (restControllerValidateRemoteAddr && !isLoopback) = false → RestApiParser.method packet = .error hr →
    EndsWith lib restControllerValidateRemoteAddr isLoopback packet parseAndProcess hr
  | returned {method hr body} : (restControllerValidateRemoteAddr && !isLoopback) = false →
    RestApiParser.method packet = .ok method → parseAndProcess method = (.ok hr, body) →
    EndsWith lib restControllerValidateRemoteAddr isLoopback packet parseAndProcess hr
  | thrown {method hr body} : (restControllerValidateRemoteAddr && !isLoopback) = false →
    RestApiParser.method packet = .ok method → parseAndProcess method = (.error hr, body) →
    EndsWith lib restControllerValidateRemoteAddr isLoopback packet parseAndProcess hr
  /-- The body cannot be written. -/
  | unwritable {method hr body hrWrite} : (restControllerValidateRemoteAddr && !isLoopback) = false →
    RestApiParser.method packet = .ok method → parseAndProcess method = (.ok hr, body) → succeeded hr = true →
    lib.writeJson body = .error hrWrite →
    EndsWith lib restControllerValidateRemoteAddr isLoopback packet parseAndProcess hrWrite

variable {lib : PtreeLib} {version : Bytes} {validate isLoopback : Bool} {packet : HttpPacket}
  {parseAndProcess : RestApiMethods → Except HResult HResult × Ptree} {hr : HResult}

/-- **A failure, wherever it comes from, is what the reply tells.** -/
theorem EndsWith.httpListenerCallback (h : EndsWith lib validate isLoopback packet parseAndProcess hr)
    (hfailed : failed hr = true) :
    httpListenerCallback lib version validate isLoopback packet parseAndProcess = onFailure version hr := by
  have hnot : succeeded hr = false := by rw [succeeded, hfailed]; rfl
  cases h with
  | remote hremote => simp [RestHttpController.httpListenerCallback, hremote, hnot]
  | noMethod hlocal hmethod =>
    simp [RestHttpController.httpListenerCallback, requestResult, hlocal, hmethod, hnot]
  | returned hlocal hmethod hhandler | thrown hlocal hmethod hhandler =>
    simp [RestHttpController.httpListenerCallback, requestResult, hlocal, hmethod, hhandler, hnot]
  | unwritable hlocal hmethod hhandler hok hwrite =>
    simp [RestHttpController.httpListenerCallback, requestResult, hlocal, hmethod, hhandler, hok,
      hwrite, hnot]

/-- No failure becomes the status of a success. -/
theorem httpStatusFromHResult_ne_OK (hfailed : failed hr = true) :
    httpStatusFromHResult hr ≠ HttpStatusCodes.OK := by
  have hne : ¬ (hr = S_OK ∨ hr = S_FALSE) := by
    rintro (rfl | rfl) <;> exact absurd hfailed (by decide)
  rw [httpStatusFromHResult, if_neg hne]
  split_ifs <;> decide

end RestHttpController

/-! ## `getstatus` -/

/-- `DownloadStateToString`. -/
def downloadStateToString : DownloadState → Bytes
  | .created => ascii "Created"
  | .transferring => ascii "Transferring"
  | .transferred => ascii "Transferred"
  | .finalized => ascii "Finalized"
  | .aborted => ascii "Aborted"
  | .paused => ascii "Paused"

namespace RestApiGetStatusRequest

/-- The body of the reply, every value of it a string. -/
def statusBody (status : DownloadStatus) : Ptree :=
  ((((Ptree.put [] (ascii "Status") (downloadStateToString status.state)).put
    (ascii "BytesTotal") (toDecimal status.bytesTotal)).put
    (ascii "BytesTransferred") (toDecimal status.bytesTransferred)).put
    (ascii "ErrorCode") (toDecimalInt status.error.toInt)).put
    (ascii "ExtendedErrorCode") (toDecimalInt status.extendedError.toInt)

/-- `RestApiGetStatusRequest::ParseAndProcess`. -/
def parseAndProcess (getDownloadStatus : Bytes → Except HResult DownloadStatus) (packet : HttpPacket) :
    Except HResult HResult × Ptree :=
  match RestApiParser.getStringParam packet .id >>= getDownloadStatus with
  | .error hr => (.error hr, [])
  | .ok status => (.ok S_OK, statusBody status)

end RestApiGetStatusRequest

/-! ## What the parser makes of a reply -/

/-- A version text that is a part of a header line, and of no other field's. -/
structure VersionText (version : Bytes) : Prop where
  noCR : CR ∉ version
  noField : ¬ ascii "Content-Length" <:+: version

namespace HttpParser

/-- The statuses the agent answers with. -/
def replyCodes : List Nat := [HttpStatusCodes.OK, HttpStatusCodes.BadRequest, HttpStatusCodes.NotFound,
  HttpStatusCodes.InternalError, HttpStatusCodes.ServiceUnavailable]

def statusLine (statusCode : Nat) : Bytes :=
  ascii "HTTP/1.1 " ++ toDecimal statusCode ++ ascii " " ++ httpStatusToString statusCode

theorem parse_statusLine : ∀ code ∈ replyCodes, CR ∉ statusLine code ∧
    parseFirstLine (statusLine code) {} = .ok { statusCode := code } := by
  decide

/-- What starts with a character that `u` does not have is not found across the end of `u`. -/
theorem infix_of_append {c : UInt8} {word u v : Bytes} (hc : c ∉ u) (h : c :: word <:+: u ++ v) :
    c :: word <:+: v := by
  induction u with
  | nil => exact h
  | cons d u ih =>
    rw [List.cons_append, List.infix_cons_iff] at h
    rcases h with h | h
    · exact absurd (List.cons_prefix_cons.1 h).1 fun hcd => hc (hcd ▸ List.mem_cons_self)
    · exact ih (fun hu => hc (List.mem_cons_of_mem _ hu)) h

theorem parseField_server {version : Bytes} (hversion : VersionText version) (packet : HttpPacket) :
    parseField (ascii "Server: Delivery-Optimization-Agent/" ++ version) packet = .ok packet :=
  if_neg fun h => hversion.noField (infix_of_append (c := 67) (by decide) h)

theorem parseField_contentLength {n : Nat} (hn : n < 2 ^ 64) (packet : HttpPacket) :
    parseField (ascii "Content-Length: " ++ toDecimal n) packet = .ok { packet with contentLength := n } := by
  have hsplit :
    ascii "Content-Length: " ++ toDecimal n = ascii "Content-Length" ++ 58 :: ([32] ++ toDecimal n) := rfl
  rw [hsplit, parseField_lengthLine (by simp [isSpace]) (toDecimal_ne_nil n) toDecimal_isdigit,
    strtoul_toDecimal hn]

/-- **The reply is one message to the parser.** -/
theorem takes_reply {version body : Bytes} {code : Nat} (hversion : VersionText version)
    (hcode : code ∈ replyCodes) (hbody : body.length < 2 ^ 64) :
    Takes (reply version code body) { statusCode := code, contentLength := body.length, body := body } := by
  obtain ⟨hcr, hfirst⟩ := parse_statusLine code hcode
  let server := ascii "Server: Delivery-Optimization-Agent/" ++ version
  have hserver : server ≠ [] ∧ CR ∉ server := by
    refine ⟨by simp [server, ascii], fun h => ?_⟩
    rcases List.mem_append.1 h with h | h
    · revert h
      decide
    · exact hversion.noCR h
  by_cases hempty : body = []
  · let m : Message := {
      line := statusLine code
      fields := [server]
      body := []
      header := { statusCode := code }
      line_ok := hcr
      fields_ok := by simpa using hserver
      header_ok := by
        simp only [parseHeader, hfirst, Except.bind, List.foldlM_cons, List.foldlM_nil, server,
          parseField_server hversion]
        rfl
      body_ok := rfl }
    have hbytes : reply version code body = m.bytes := by
      simp [reply, Message.bytes, m, hempty, fieldLines, statusLine, server, List.append_assoc]
    rw [hbytes, hempty]
    exact takes_message m
  · let length := ascii "Content-Length: " ++ toDecimal body.length
    have hlength : length ≠ [] ∧ CR ∉ length := by
      refine ⟨by simp [length, ascii], fun h => ?_⟩
      rcases List.mem_append.1 h with h | h
      · revert h
        decide
      · exact class_ne (toDecimal_isdigit _ h) (by decide) rfl
    let m : Message := {
      line := statusLine code
      fields := [length, server]
      body := body
      header := { statusCode := code, contentLength := body.length }
      line_ok := hcr
      fields_ok := by simpa using ⟨hlength, hserver⟩
      header_ok := by
        simp only [parseHeader, hfirst, Except.bind, List.foldlM_cons, List.foldlM_nil, length, server,
          parseField_contentLength hbody, parseField_server hversion]
        rfl
      body_ok := rfl }
    have hbytes : reply version code body = m.bytes := by
      simp [reply, Message.bytes, m, hempty, fieldLines, statusLine, server, length, List.append_assoc]
    rw [hbytes]
    exact takes_message m

end HttpParser

end DoClient
