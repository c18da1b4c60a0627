/-
`HttpAgent` (`util/http_agent.cpp`) short of its callbacks, and what
`CurlRequests` holds of its one curl handle.

Memory allocation and `curl_easy_init` succeed throughout.
-/
import DoClient.Mcc

namespace DoClient

/-! ## Numbers in text -/

/-- `isspace` in the C locale. -/
def isSpace (c : Char) : Bool :=
  c == ' ' || c == '\t' || c == '\n' || c == '\x0b' || c == '\x0c' || c == '\r'

/-- The number a string of decimal digits denotes. -/
def decimal (digits : List Char) : Nat := digits.foldl (fun n c => 10 * n + (c.toNat - '0'.toNat)) 0

def afterSign (text : List Char) : List Char :=
  if text.head? == some '-' || text.head? == some '+' then text.tail else text

/-- `std::stoull`, and `std::stoul` where `unsigned long` has 64 bits: leading
white space and a sign are read, the rest of the text after the digits is not. -/
def stoull (text : List Char) : Option Nat :=
  let text := text.dropWhile isSpace
  let negative := text.head? == some '-'
  let digits := (afterSign text).takeWhile Char.isDigit
  if digits.isEmpty then none
  else if 2 ^ 64 ≤ decimal digits then none
  else some (if negative then wrap64 (2 ^ 64 - decimal digits) else decimal digits)

theorem stoull_lt {text : List Char} {n : Nat} (h : stoull text = some n) : n < 2 ^ 64 := by
  simp only [stoull] at h
  split at h
  · cases h
  split at h
  · cases h
  next hlt =>
  simp only [Option.some.injEq] at h
  subst h
  split
  · exact wrap64_lt _
  · exact Nat.lt_of_not_le hlt

theorem isDigit_of_mem_repr {n : Nat} : ∀ c ∈ (Nat.repr n).toList, c.isDigit = true := by
  intro c hc
  rw [Nat.toList_repr] at hc
  exact Nat.isDigit_of_mem_toDigits (by decide) (by decide) hc

/-- The digits of a number read as the number, whatever follows that is no digit. -/
theorem stoull_repr {n : Nat} (h : n < 2 ^ 64) {rest : List Char}
    (hrest : rest.head?.all (!·.isDigit) = true) :
    stoull ((Nat.repr n).toList ++ rest) = some n := by
  obtain ⟨d, ds, hd⟩ : ∃ d ds, (Nat.repr n).toList = d :: ds :=
    List.exists_cons_of_ne_nil (by rw [Nat.toList_repr]; exact Nat.toDigits_ne_nil)
  have hdigits := @isDigit_of_mem_repr n
  have hdecimal : decimal (Nat.repr n).toList = n := by
    rw [Nat.toList_repr]
    exact Nat.ofDigitChars_ten_toDigits
  rw [hd] at hdigits hdecimal ⊢
  have hfirst : d.isDigit = true := hdigits d List.mem_cons_self
  have hspace : isSpace d = false ∧ d ≠ '-' ∧ d ≠ '+' := by
    refine ⟨?_, ?_, ?_⟩
    · by_contra hs
      simp only [isSpace, Bool.not_eq_false, Bool.or_eq_true, beq_iff_eq] at hs
      rcases hs with ((((rfl | rfl) | rfl) | rfl) | rfl) | rfl <;> exact absurd hfirst (by decide)
    all_goals
      rintro rfl
      exact absurd hfirst (by decide)
  have htake : (d :: ds ++ rest).takeWhile Char.isDigit = d :: ds := by
    rw [List.takeWhile_append_of_pos hdigits]
    cases rest with
    | nil => simp
    | cons c rest =>
      have hc : c.isDigit = false := by simpa using hrest
      simp [hc]
  have hdrop : (d :: ds ++ rest).dropWhile isSpace = d :: ds ++ rest := by simp [hspace.1]
  have hsign : afterSign (d :: ds ++ rest) = d :: ds ++ rest := by simp [afterSign, hspace.2]
  simp only [stoull, hdrop, hsign, htake, hdecimal]
  simpa [hspace.2.1] using h

/-! ## Ranges -/

/-- The bytes a `Range` header asks for, both ends included. -/
structure ByteRange where
  first : Nat
  last : Nat
  deriving DecidableEq, Repr

/-- The first byte a request for a range, or for everything, asks for. -/
def rangeStart : Option ByteRange → Nat
  | some r => r.first
  | none => 0

/-- `%llu-%llu`. -/
def ByteRange.text (r : ByteRange) : String := toString r.first ++ "-" ++ toString r.last

/-- The range a line of a request's headers asks for. -/
def ByteRange.ofHeader (line : String) : Option ByteRange :=
  if "Range: bytes=".toList.isPrefixOf line.toList then
    let text := line.toList.drop "Range: bytes=".length
    match stoull text, stoull ((text.dropWhile (· != '-')).drop 1) with
    | some first, some last => some ⟨first, last⟩
    | _, _ => none
  else none

/-- A range written into a header line is read back. -/
theorem ByteRange.ofHeader_text {r : ByteRange} (hfirst : r.first < 2 ^ 64) (hlast : r.last < 2 ^ 64) :
    ofHeader ("Range: bytes=" ++ r.text) = some r := by
  have hline : ("Range: bytes=" ++ r.text).toList =
      "Range: bytes=".toList ++ ((Nat.repr r.first).toList ++ '-' :: (Nat.repr r.last).toList) := by
    simp [text, String.toList_append, Nat.toString_eq_repr]
  have hminus : ((Nat.repr r.first).toList ++ '-' :: (Nat.repr r.last).toList).dropWhile (· != '-') =
      '-' :: (Nat.repr r.last).toList := by
    rw [List.dropWhile_append_of_pos]
    · simp
    · intro c hc
      have := isDigit_of_mem_repr c hc
      rw [bne_iff_ne]
      rintro rfl
      exact absurd this (by decide)
  have hstart : stoull ((Nat.repr r.first).toList ++ '-' :: (Nat.repr r.last).toList) = some r.first :=
    stoull_repr hfirst rfl
  have hend : stoull (Nat.repr r.last).toList = some r.last := by
    rw [← List.append_nil (Nat.repr r.last).toList]
    exact stoull_repr hlast rfl
  rw [ofHeader, hline]
  simp only [List.drop_left' (show "Range: bytes=".toList.length = "Range: bytes=".length by decide), hminus,
    List.drop_one, List.tail_cons, hstart, hend]
  simp

/-- `UInt64Add`. -/
def uint64Add (augend addend : Nat) : Except HResult Nat :=
  if wrap64 (augend + addend) < augend then .error HResult.INTSAFE_E_ARITHMETIC_OVERFLOW
  else .ok (wrap64 (augend + addend))

/-- `UInt64Sub`. -/
def uint64Sub (minuend subtrahend : Nat) : Except HResult Nat :=
  if minuend < subtrahend then .error HResult.INTSAFE_E_ARITHMETIC_OVERFLOW
  else .ok (minuend - subtrahend)

/-- `HttpAgent::MakeRange`. -/
def makeRange (startOffset lengthBytes : Nat) : Except HResult ByteRange := do
  let endOffset ← uint64Sub (← uint64Add startOffset lengthBytes) 1
  return ⟨startOffset, endOffset⟩

/-- `HttpAgent::ValidateUrl`. -/
def validateUrl (uri : UriLib) (url : String) : Bool :=
  uri.validate url &&
    ((uri.scheme url).map Char.toLower == "http" || (uri.scheme url).map Char.toLower == "https") &&
    !(uri.host url).isEmpty

/-! ## What curl keeps -/

/-- A `curl_slist` as the agent holds it: none, a list, or one already freed. -/
inductive SList
  | null
  | list (items : List String)
  | freed
  deriving DecidableEq, Repr

/-- `curl_slist_append`; appending to a freed list is undefined. -/
def SList.append : SList → String → SList
  | .null, s => .list [s]
  | .list items, s => .list (items ++ [s])
  | .freed, _ => .freed

/-- `curl_slist_free_all`, the pointer kept. A list freed before would be freed again, which
is undefined. -/
def SList.freeAll : SList → SList
  | .null => .null
  | _ => .freed

/-- The lines of a list; of a freed one nothing can be told. -/
def SList.lines : SList → List String
  | .list items => items
  | _ => []

/-- The options of a curl easy handle that requests change. -/
structure CurlEasy where
  url : String := ""
  proxy : String := ""
  proxyPort : Option Int := none
  connectTimeout : Option Nat := none
  httpHeader : SList := .null
  deriving DecidableEq, Repr

/-- A transfer libcurl was asked for: what the request said, and what of the
response it has passed on. -/
structure Transfer where
  url : String
  range : Option ByteRange
  /-- The lines the header list of the handle adds to the request. -/
  requestHeaders : List String := []
  /-- `CURLINFO_RESPONSE_CODE`. -/
  responseCode : Nat := 0
  /-- The header lines handed to the header callback before the body. -/
  headers : List String := []
  /-- The write callback was called. -/
  bodyStarted : Bool := false
  /-- The body bytes handed to the write callback. -/
  body : List UInt8 := []
  /-- The write callback returned a short count. -/
  writeFailed : Bool := false
  deriving DecidableEq, Repr

/-- The first byte a transfer asks for. -/
def Transfer.startOffset (t : Transfer) : Nat := rangeStart t.range

/-- The entries of `CurlRequests` for the agent's handle: `_handlesToAdd`, the
active list, `_handlesToRemove`; and whether the handle completed since the
worker last went through the two lists. -/
structure CurlHandle where
  toAdd : Option Transfer := none
  active : Option Transfer := none
  toRemove : Bool := false
  completedSinceDrain : Bool := false
  deriving DecidableEq, Repr

namespace CurlHandle

/-- Handed to `CurlRequests` and neither completed nor removed. -/
def outstanding (c : CurlHandle) : Bool := c.toAdd.isSome || c.active.isSome

/-- `CurlRequests::Add`. -/
def add (c : CurlHandle) (fKeepRunning : Bool) (t : Transfer) : Except HResult CurlHandle :=
  if !fKeepRunning then .error HResult.E_NOT_VALID_STATE
  else if c.toAdd.isSome then .error HResult.ERROR_ALREADY_EXISTS
  else .ok { c with toAdd := some t }

/-- `CurlRequests::Remove`, run to its return. A handle in the active list is
waited for. When `raced`, the handle completed between the entry made in
`_handlesToRemove` and its processing, and the entry is left behind. -/
def remove (c : CurlHandle) (raced : Bool) : CurlHandle :=
  if c.active.isSome then {}
  else { c with toAdd := none, toRemove := c.toRemove || (raced && c.completedSinceDrain) }

/-- One pass of `_DoWork` over `_handlesToAdd` and `_handlesToRemove`. -/
def drain (c : CurlHandle) : CurlHandle :=
  let active := if c.active.isSome then c.active else c.toAdd
  { active := if c.toRemove then none else active }

end CurlHandle

/-! ## The agent -/

structure HttpAgent where
  curlHandle : Option CurlEasy := none
  requestHeaders : SList := .null
  responseStatusCode : Nat := 0
  hrTranslatedStatusCode : HResult := HResult.S_OK
  hrCallback : HResult := HResult.S_OK
  responseHeaders : List (String × String) := []
  responseOnHeadersAvailableInvoked : Bool := false
  responseOnCompleteInvoked : Bool := false
  deriving DecidableEq, Repr

namespace HttpAgent

/-- `_SetWebProxyFromProxyUrl`. -/
def setWebProxyFromProxyUrl (uri : UriLib) (easy : CurlEasy) (szProxyUrl : Option String) :
    Except HResult CurlEasy :=
  match szProxyUrl with
  | none => .ok { easy with proxy := "" }
  | some url => do
    let (address, port) ← uri.proxyAddress url
    if (port : Int) ≠ -1 then return { easy with proxy := address, proxyPort := some port }
    else return { easy with proxy := address }

/-- The connect timeout `_CreateClient` sets on a new handle: none from `c_curlDefaultTimeout` on. -/
def connectTimeout (connectTimeoutSecs : Nat) : Option Nat :=
  if 0 < connectTimeoutSecs ∧ connectTimeoutSecs < 300 then some connectTimeoutSecs else none

/-- The part of `_CreateClient` that every request goes through: the URL, if one is given, and the proxy. -/
def setUrlAndProxy (uri : UriLib) (a : HttpAgent) (easy : CurlEasy) (szUrl szProxyUrl : Option String) :
    HResult × HttpAgent :=
  if szUrl.any (!validateUrl uri ·) then (HResult.INET_E_INVALID_URL, { a with curlHandle := some easy })
  else
    let easy := { easy with url := szUrl.getD easy.url }
    match setWebProxyFromProxyUrl uri easy szProxyUrl with
    | .error hr => (hr, { a with curlHandle := some easy })
    | .ok easy => (HResult.S_OK, { a with curlHandle := some easy })

/-- `_CreateClient`: the handle is made at the first request, with the options
that no request changes; the URL and the proxy are set for every request. -/
def createClient (uri : UriLib) (a : HttpAgent) (szUrl szProxyUrl : Option String)
    (connectTimeoutSecs : Nat) :
    HResult × HttpAgent :=
  match a.curlHandle with
  | some easy => setUrlAndProxy uri a easy szUrl szProxyUrl
  | none =>
    match szUrl with
    | none => (HResult.E_INVALIDARG, a)
    | some url =>
      if !validateUrl uri url then (HResult.INET_E_INVALID_URL, a)
      else setUrlAndProxy uri a { connectTimeout := connectTimeout connectTimeoutSecs } szUrl szProxyUrl

/-- The `Range` header, and no other, for a request with a range. The list is
freed for one without. -/
def setRequestHeaders (a : HttpAgent) (szRange : Option String) : HttpAgent :=
  match szRange with
  | none => { a with
      requestHeaders := a.requestHeaders.freeAll
      curlHandle := a.curlHandle.map fun easy => { easy with httpHeader := .null } }
  | some range =>
    let tempList := a.requestHeaders.append ("Range: bytes=" ++ range)
    { a with
      requestHeaders := tempList
      curlHandle := a.curlHandle.map fun easy => { easy with httpHeader := tempList } }

/-- `SendRequest` up to `_curlOps.Add`: the handle gets its options, the context is reset. -/
def prepareRequest (uri : UriLib) (a : HttpAgent) (szUrl szProxyUrl szRange : Option String)
    (connectTimeoutSecs : Nat) : HResult × HttpAgent :=
  match createClient uri a szUrl szProxyUrl connectTimeoutSecs with
  | (hr, a) =>
    if failed hr then (hr, a)
    else (HResult.S_OK, { a.setRequestHeaders szRange with
      responseHeaders := []
      responseStatusCode := 0
      hrTranslatedStatusCode := HResult.S_OK
      hrCallback := HResult.S_OK
      responseOnHeadersAvailableInvoked := false
      responseOnCompleteInvoked := false })

/-- The lines of the header list set on the handle. -/
def headerLines (a : HttpAgent) : List String := a.curlHandle.elim [] (·.httpHeader.lines)

/-- `SendRequest` as the client calls it: with a URL, and with a range of `MakeRange` or none. -/
def sendRequest (uri : UriLib) (a : HttpAgent) (c : CurlHandle) (fKeepRunning : Bool) (url : String)
    (szProxyUrl : Option String) (szRange : Option ByteRange) (connectTimeoutSecs : Nat) :
    HResult × HttpAgent × CurlHandle :=
  match prepareRequest uri a (some url) szProxyUrl (szRange.map (·.text)) connectTimeoutSecs with
  | (hr, a) =>
    if failed hr then (hr, a, c)
    else match c.add fKeepRunning { url := url, range := szRange, requestHeaders := a.headerLines } with
      | .error hr => (hr, a, c)
      | .ok c => (HResult.S_OK, a, c)

/-- The headers noted, by name: the text before the first colon names a header, one
seen before takes the new value, a line without a name is passed over. -/
def noteHeader (headers : List (String × String)) (line : String) : List (String × String) :=
  let name := line.toList.takeWhile (· != ':')
  if name.isEmpty || name.length == line.toList.length then headers
  else
    let name := String.ofList name
    let value := String.ofList (line.toList.drop (name.length + 1))
    if headers.any (·.1 == name) then headers.map fun h => if h.1 == name then (name, value) else h
    else headers ++ [(name, value)]

/-- `_HeaderCallback`. -/
def headerCallback (a : HttpAgent) (line : String) : HttpAgent :=
  { a with responseHeaders := noteHeader a.responseHeaders line }

/-- `QueryHeaders` of one name. -/
def queryHeader (a : HttpAgent) (name : String) : Except HResult String :=
  match a.responseHeaders.find? (·.1 == name) with
  | some h => .ok h.2
  | none => .error HResult.E_NOT_SET

/-- `QueryHeaders` of all. -/
def queryHeaders (a : HttpAgent) : String :=
  if a.responseHeaders.isEmpty then ""
  else String.join (a.responseHeaders.map fun h =>
    h.1 ++ ":" ++ h.2 ++ if h.2.endsWith "\r\n" then "" else "\r\n") ++ "\r\n"

/-- `QueryContentLength`: 0 when the header is absent. -/
def queryContentLength (a : HttpAgent) : Except HResult Nat :=
  match a.queryHeader "Content-Length" with
  | .error _ => .ok 0
  | .ok lengthHeader =>
    match stoull lengthHeader.toList with
    | some n => .ok n
    | none => .error HResult.ERROR_UNHANDLED_EXCEPTION

/-- `QueryContentLengthFromRange`: the number after the slash of `Content-Range`. -/
def queryContentLengthFromRange (a : HttpAgent) : Except HResult Nat :=
  match a.queryHeader "Content-Range" with
  | .error hr => .error hr
  | .ok rangeHeader =>
    match (rangeHeader.toList.takeWhile (· != '\x00')).dropWhile (· != '/') with
    | [] => .error HResult.E_NOT_SET
    | _ :: afterMarker =>
      match stoull afterMarker with
      | some n => .ok n
      | none => .error HResult.ERROR_UNHANDLED_EXCEPTION

/-- `_ResultFromStatusCode`. -/
def resultFromStatusCode (code : Nat) : HResult :=
  if [200, 201, 202, 204, 203, 206].contains code then HResult.S_OK
  else if [300, 500, 503].contains code then HResult.HTTP_E_STATUS_SERVER_ERROR
  else if [301, 302, 303].contains code then HResult.HTTP_E_STATUS_UNEXPECTED_REDIRECTION
  else if [404, 410].contains code then HResult.HTTP_E_STATUS_NOT_FOUND
  else if [305, 502, 504].contains code then HResult.HTTP_E_STATUS_BAD_GATEWAY
  else if [400, 411, 412, 414, 415, 405, 409].contains code then HResult.HTTP_E_STATUS_BAD_REQUEST
  else if code == 401 then HResult.HTTP_E_STATUS_DENIED
  else if code == 406 then HResult.HTTP_E_STATUS_NONE_ACCEPTABLE
  else if code == 403 then HResult.HTTP_E_STATUS_FORBIDDEN
  else if code == 407 then HResult.HTTP_E_STATUS_PROXY_AUTH_REQ
  else if code == 408 then HResult.HTTP_E_STATUS_REQUEST_TIMEOUT
  else if code == 413 then HResult.HTTP_E_STATUS_REQUEST_TOO_LARGE
  else if [501, 505].contains code then HResult.HTTP_E_STATUS_NOT_SUPPORTED
  else HResult.HTTP_E_STATUS_UNEXPECTED

/-- `CURLE_WRITE_ERROR`. -/
def CURLE_WRITE_ERROR : Nat := 23

/-- `g_CurlErrorCodeToHResult`: `CURLE_URL_MALFORMAT`, `CURLE_COULDNT_RESOLVE_HOST`,
`CURLE_COULDNT_CONNECT`, `CURLE_OPERATION_TIMEDOUT`, `CURLE_RANGE_ERROR`, the rest. -/
def curlErrorCodeToHResult (curlResult : Nat) : HResult :=
  if curlResult == 3 then HResult.INET_E_INVALID_URL
  else if curlResult == 6 then HResult.ERROR_WINHTTP_NAME_NOT_RESOLVED
  else if curlResult == 7 then HResult.ERROR_WINHTTP_CANNOT_CONNECT
  else if curlResult == 28 then HResult.WININET_E_TIMEOUT
  else if curlResult == 33 then HResult.DO_E_INSUFFICIENT_RANGE_SUPPORT
  else HResult.fromXplatSyserr curlResult

theorem failed_curlErrorCodeToHResult (curlResult : Nat) :
    failed (curlErrorCodeToHResult curlResult) = true := by
  unfold curlErrorCodeToHResult
  split
  · decide
  split
  · decide
  split
  · decide
  split
  · decide
  split
  · decide
  exact failed_fromXplatSyserr _

end HttpAgent

end DoClient
