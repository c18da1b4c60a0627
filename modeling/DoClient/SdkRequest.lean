/-
The requests of the SDK (`sdk-cpp/src/internal/rest/download_impl.cpp`,
`do_http_message.cpp`) and what the agent reads in them: the method and the
parameters the SDK meant, byte for byte.
-/
import DoClient.HttpMessage
import DoClient.RestApi

namespace DoClient.Sdk

open DoClient Uri HttpParser RestApiParser

/-! ## Requests -/

/-- `HttpRequest::Method`. -/
inductive HttpMethod
  | get | post
  deriving DecidableEq, Repr

def HttpMethod.verb : HttpMethod → Bytes
  | .get => ascii "GET"
  | .post => ascii "POST"

/-- `HttpRequest::Serialize`; the URL is kept as a C string. -/
def serialize (method : HttpMethod) (url : Bytes) : Bytes :=
  method.verb ++ ascii " " ++ cstr url ++ ascii " " ++ ascii "HTTP/1.1\r\n" ++
  ascii "Host: 127.0.0.1\r\n" ++
  ascii "User-Agent: DO-SDK-CPP\r\n" ++
  ascii "\r\n"

/-- `uri_builder builder(g_downloadUriPart)`, and a path. -/
def downloadPath (type : Bytes) : Except StdException UriComponents :=
  (Uri.ofString (ascii "download")).map (·.appendPath type)

/-- The request of `CDownloadImpl::Init`. -/
def createRequest (uri downloadFilePath : Bytes) : Except StdException Bytes := do
  let builder ← downloadPath (ascii "create")
  let builder := builder.appendQueryParam (ascii "Uri") uri
  let builder := if downloadFilePath = [] then builder
    else builder.appendQueryParam (ascii "DownloadFilePath") downloadFilePath
  let url ← builder.toString
  return serialize .post url

/-- The request of a call on the download with an id. -/
def downloadRequest (method : HttpMethod) (type id : Bytes) : Except StdException Bytes := do
  let builder ← downloadPath type
  let url ← (builder.appendQueryParam (ascii "Id") id).toString
  return serialize method url

/-- `_DownloadOperationCall`. -/
def operationRequest (type id : Bytes) : Except StdException Bytes := downloadRequest .post type id

def startRequest (id : Bytes) : Except StdException Bytes := operationRequest (ascii "start") id
def pauseRequest (id : Bytes) : Except StdException Bytes := operationRequest (ascii "pause") id
def finalizeRequest (id : Bytes) : Except StdException Bytes := operationRequest (ascii "finalize") id
def abortRequest (id : Bytes) : Except StdException Bytes := operationRequest (ascii "abort") id

/-- The request of `GetStatus`. -/
def getStatusRequest (id : Bytes) : Except StdException Bytes := downloadRequest .get (ascii "getstatus") id

/-! ## What the agent reads -/

/-- The agent takes in the request, however it is cut into reads, as one of this method with
these parameters. -/
def ReadAs (bytes : Bytes) (method : RestApiMethods) (params : List (RestApiParameters × Bytes)) : Prop :=
  bytes.length ≤ capacity → ∀ reads : List Bytes, (∀ r ∈ reads, r ≠ []) → reads.flatten = bytes →
    ∃ p, HttpParser.receive {} reads = .ok p ∧ p.done = true ∧
      RestApiParser.method p.parsedData = .ok method ∧
      ∀ x ∈ params, getStringParam p.parsedData x.1 = .ok x.2

/-- The request is made, of `n` bytes and the parameters encoded, and read as it was meant. -/
def ReadBack (request : Except StdException Bytes) (n : Nat) (method : RestApiMethods)
    (params : List (RestApiParameters × Bytes)) : Prop :=
  ∃ bytes, request = .ok bytes ∧ bytes.length ≤ n + (params.map fun x => (encodeQueryImpl x.2).length).sum ∧
    ReadAs bytes method params

theorem ReadAs.two_reads {bytes : Bytes} {method : RestApiMethods} {params : List (RestApiParameters × Bytes)}
    (h : ReadAs bytes method params) (n : Nat) (hn : 0 < n) (hlt : n < bytes.length)
    (hfits : bytes.length ≤ capacity) :
    ∃ p, HttpParser.receive {} [bytes.take n, bytes.drop n] = .ok p ∧
      RestApiParser.method p.parsedData = .ok method ∧
      ∀ x ∈ params, getStringParam p.parsedData x.1 = .ok x.2 := by
  have hreads : ∀ r ∈ [bytes.take n, bytes.drop n], r ≠ [] := by
    intro r hr
    simp only [List.mem_cons, List.not_mem_nil, or_false] at hr
    refine List.ne_nil_of_length_pos ?_
    rcases hr with rfl | rfl
    · rw [List.length_take]
      omega
    · rw [List.length_drop]
      omega
  obtain ⟨p, hp, -, hmethod, hparams⟩ := h hfits _ hreads (by simp)
  exact ⟨p, hp, hmethod, hparams⟩

/-! ### The first line -/

/-- No status line starts with a method. -/
theorem fullMatch_plus_one_none {α : Type} {c d : α → Bool} {ps : List (Pattern.Piece α)} {x y : α}
    (xs : List α) (hc : c y = false) (hd : d y = false) :
    Pattern.fullMatch (.plus c :: .one d :: ps) (x :: y :: xs) = none := by
  have hnone : Pattern.fullMatch (.one d :: ps) (y :: xs) = none := by
    rw [Pattern.fullMatch, if_neg (by simp [hd])]
  cases hx : c x with
  | true => simp [Pattern.fullMatch, Pattern.greedy, hx, hc, hnone]
  | false => simp [Pattern.fullMatch, Pattern.greedy, hx]

/-- The request line the SDK writes. -/
def requestLine (method : HttpMethod) (url : Bytes) : Bytes :=
  method.verb ++ 32 :: (url ++ 32 :: ascii "HTTP/1.1")

theorem parse_requestLine (method : HttpMethod) {url : Bytes} {u : UriComponents} (hne : url ≠ [])
    (hurl : ∀ c ∈ url, isUrlCharacter c = true) (hu : Uri.ofString url = .ok u) :
    parseFirstLine (requestLine method url) {} = .ok { method := method.verb, url := u } := by
  have hcstr : cstr (requestLine method url) = requestLine method url := by
    refine cstr_eq fun c hc => ?_
    simp only [requestLine, List.mem_append, List.mem_cons] at hc
    rcases hc with hc | rfl | hc | rfl | hc
    · revert c
      cases method <;> exact forall_mem_of_all (by decide)
    · decide
    · exact class_ne (hurl c hc) (by decide)
    · decide
    · revert c
      exact forall_mem_of_all (by decide)
  have hstatus : Pattern.fullMatch rxStatusLine (requestLine method url) = none := by
    cases method <;> exact fullMatch_plus_one_none _ (by decide) (by decide)
  have hrequest : Pattern.fullMatch rxRequestLine (requestLine method url) = some [method.verb, url] := by
    refine Pattern.fullMatch_group (by cases method <;> decide)
      (by cases method <;> exact forall_mem_of_all (by decide))
      (by rintro _ ⟨⟩; decide) ?_
    rw [Pattern.fullMatch_one (by decide)]
    refine Pattern.fullMatch_group hne hurl (by rintro _ ⟨⟩; decide) ?_
    rw [Pattern.fullMatch_one (by decide)]
    decide
  rw [parseFirstLine, hcstr, hstatus, hrequest]
  simp only [hu]
  rfl

theorem length_serialize (method : HttpMethod) {url : Bytes} (hurl : ∀ c ∈ url, isUrlCharacter c = true) :
    (serialize method url).length = method.verb.length + url.length + 55 := by
  have hcstr : cstr url = url := cstr_eq fun c hc => class_ne (hurl c hc) (by decide)
  simp [serialize, hcstr, ascii]
  omega

/-- A request of the SDK is a well-formed message. -/
theorem serialize_message (method : HttpMethod) {url : Bytes} {u : UriComponents} (hne : url ≠ [])
    (hurl : ∀ c ∈ url, isUrlCharacter c = true) (hu : Uri.ofString url = .ok u) :
    Takes (serialize method url) { method := method.verb, url := u } := by
  have hcstr : cstr url = url := cstr_eq fun c hc => class_ne (hurl c hc) (by decide)
  let m : Message := {
    line := requestLine method url
    fields := [ascii "Host: 127.0.0.1", ascii "User-Agent: DO-SDK-CPP"]
    body := []
    header := { method := method.verb, url := u }
    line_ok := by
      intro hc
      simp only [requestLine, List.mem_append, List.mem_cons] at hc
      rcases hc with hc | hc | hc | hc | hc
      · revert hc
        cases method <;> decide
      · revert hc
        decide
      · exact class_ne (hurl CR hc) (by decide : isUrlCharacter CR = false) rfl
      · revert hc
        decide
      · revert hc
        decide
    fields_ok := by decide
    header_ok := by
      rw [parseHeader, parse_requestLine method hne hurl hu]
      have hhost : ∀ packet, parseField (ascii "Host: 127.0.0.1") packet = .ok packet := fun packet =>
        if_neg fun h => absurd (h.subset (by decide : (76 : UInt8) ∈ ascii "Content-Length")) (by decide)
      have hagent : ∀ packet, parseField (ascii "User-Agent: DO-SDK-CPP") packet = .ok packet := fun packet =>
        if_neg fun h => absurd (h.subset (by decide : (76 : UInt8) ∈ ascii "Content-Length")) (by decide)
      simp [Except.bind, hhost, hagent]
      rfl
    body_ok := rfl }
  have hbytes : serialize method url = m.bytes := by
    simp [serialize, Message.bytes, m, requestLine, fieldLines, CRLF, hcstr, ascii, CR, LF]
  rw [hbytes]
  exact takes_message m

/-! ### The query -/

/-- A character that both the builder of the SDK and the first line of a request take as it is. -/
def isRequestCharacter (c : UInt8) : Bool := isQueryCharacter c && isUrlCharacter c

/-- The text of one parameter. -/
def paramText (param : RestApiParameters) (value : Bytes) : Bytes :=
  param.stringId ++ ascii "=" ++ encodeQueryImpl value

theorem isRequestCharacter_of_encoded {c : UInt8} (h : isEncodedCharacter c = true) :
    isRequestCharacter c = true := by
  simp only [isEncodedCharacter, isRequestCharacter, Bool.and_eq_true] at h ⊢
  obtain ⟨⟨hquery, hspecial⟩, -⟩ := h
  refine ⟨hquery, ?_⟩
  simp [isQueryCharacter, isPathCharacter, isUnreserved, isSubDelim, isUrlCharacter,
    ascii] at hquery hspecial ⊢
  grind

theorem isRequestCharacter_paramText {param : RestApiParameters} {value : Bytes} :
    ∀ c ∈ paramText param value, isRequestCharacter c = true := by
  have hname : ∀ c ∈ param.stringId ++ ascii "=", isRequestCharacter c = true := by
    cases param <;> exact forall_mem_of_all (by decide)
  intro c hc
  rcases List.mem_append.1 hc with hc | hc
  · exact hname c hc
  · exact isRequestCharacter_of_encoded (isEncodedCharacter_encodeQueryImpl c hc)

theorem not_mem_paramText {param : RestApiParameters} {value : Bytes} {c : UInt8}
    (hname : c ∉ param.stringId ++ ascii "=") (hc : isEncodedCharacter c = false) :
    c ∉ paramText param value := by
  intro h
  rcases List.mem_append.1 h with h | h
  · exact hname h
  · rw [isEncodedCharacter_encodeQueryImpl c h] at hc
    cases hc

theorem paramText_ne_nil (param : RestApiParameters) (value : Bytes) : paramText param value ≠ [] := by
  simp [paramText, ascii]

theorem amp_not_mem_paramText (param : RestApiParameters) (value : Bytes) : 38 ∉ paramText param value :=
  not_mem_paramText (by cases param <;> decide) (by decide)

theorem semicolon_not_mem_paramText (param : RestApiParameters) (value : Bytes) :
    59 ∉ paramText param value :=
  not_mem_paramText (by cases param <;> decide) (by decide)

theorem encodeQueryImpl_stringId (param : RestApiParameters) :
    encodeQueryImpl param.stringId = param.stringId := by
  cases param <;> decide

/-- The first parameter is the query. -/
theorem appendQueryParam_first (m : UriComponents) (param : RestApiParameters) (value : Bytes)
    (hm : m.query = []) :
    m.appendQueryParam param.stringId value = { m with query := paramText param value } := by
  rw [UriComponents.appendQueryParam, encodeQueryImpl_stringId, UriComponents.appendQuery]
  simp only [hm, if_true]
  exact if_neg (paramText_ne_nil param value)

/-- The next one goes behind an ampersand. -/
theorem appendQueryParam_next (m : UriComponents) (param : RestApiParameters) (value : Bytes)
    (hm : m.query ≠ []) (hamp : 38 ∉ m.query) :
    m.appendQueryParam param.stringId value = { m with query := m.query ++ 38 :: paramText param value } := by
  have hlast : m.query.getLast? ≠ some 38 := fun h => hamp (List.mem_of_getLast? h)
  have hfirst : (paramText param value).head? ≠ some 38 := fun h =>
    amp_not_mem_paramText param value (List.mem_of_head? h)
  rw [UriComponents.appendQueryParam, encodeQueryImpl_stringId, UriComponents.appendQuery]
  rw [show param.stringId ++ ascii "=" ++ encodeQueryImpl value = paramText param value from rfl,
    if_neg (paramText_ne_nil param value), if_neg hm, UriComponents.appendSeparated, if_neg (by simp [hlast]),
    if_pos ⟨hlast, hfirst⟩]

/-- A parameter of the query is entered under its name. -/
theorem lookup_stringId (param : RestApiParameters) :
    RestApiParameters.lookup param.stringId = some param := by
  cases param <;> decide

theorem addPair_paramText (results : StringMap) (param : RestApiParameters) (value : Bytes) :
    addPair results (paramText param value) = results.insert param.stringId (encodeQueryImpl value) :=
  addPair_param results (by cases param <;> decide)

theorem addParam_param (query : Query) (param : RestApiParameters) (value : Bytes) :
    addParam query (param.stringId, encodeQueryImpl value) = .ok (query.insert param value) := by
  rw [addParam, lookup_stringId]
  simp only [decode_encodeQueryImpl, catchReturn]
  rfl

theorem parseQueryString_one {request : HttpPacket} {param : RestApiParameters} {value : Bytes}
    (h : request.url.query = paramText param value) :
    parseQueryString request = .ok (OrdMap.empty.insert param value) := by
  rw [parseQueryString, h, splitQuery, splitPairs_last _ (amp_not_mem_paramText param value)
    (semicolon_not_mem_paramText param value), List.foldl_cons, List.foldl_nil, addPair_paramText]
  show [(param.stringId, encodeQueryImpl value)].foldlM addParam OrdMap.empty = _
  rw [List.foldlM_cons, addParam_param]
  rfl

theorem stringRank_paths :
    stringRank RestApiParameters.downloadFilePath.stringId < stringRank RestApiParameters.uri.stringId := by
  decide

/-- The path of the file comes before the URI in the order of their names. -/
theorem parseQueryString_create {request : HttpPacket} {uri path : Bytes}
    (h : request.url.query = paramText .uri uri ++ 38 :: paramText .downloadFilePath path) :
    parseQueryString request = .ok ((OrdMap.empty.insert .downloadFilePath path).insert .uri uri) := by
  have hlength : ∃ n, (paramText .uri uri ++ 38 :: paramText .downloadFilePath path).length = n + 1 :=
    ⟨_, by rw [List.length_append, List.length_cons, ← Nat.add_assoc]⟩
  obtain ⟨n, hn⟩ := hlength
  rw [parseQueryString, h, splitQuery, hn, splitPairs_pair n (amp_not_mem_paramText .uri uri),
    splitPairs_last _ (amp_not_mem_paramText .downloadFilePath path)
      (semicolon_not_mem_paramText .downloadFilePath path)]
  simp only [List.foldl_cons, List.foldl_nil, addPair_paramText]
  have hentries :
    ((OrdMap.empty.insert RestApiParameters.uri.stringId (encodeQueryImpl uri) : StringMap).insert
      RestApiParameters.downloadFilePath.stringId (encodeQueryImpl path)).entries =
      [(RestApiParameters.downloadFilePath.stringId, encodeQueryImpl path),
        (RestApiParameters.uri.stringId, encodeQueryImpl uri)] := by
    simp only [OrdMap.insert, OrdMap.empty, OrdMap.insertEntry, if_pos stringRank_paths]
  rw [hentries, List.foldlM_cons, addParam_param]
  show addParam _ (RestApiParameters.uri.stringId, encodeQueryImpl uri) >>= pure = _
  rw [addParam_param]
  rfl

/-! ### The request as a whole -/

theorem toString_relative {path query : Bytes} (hpath : RelativePath path) (hne : query ≠ [])
    (hquery : ∀ c ∈ query, isRequestCharacter c = true) :
    ({ port := some 0, path, query } : UriComponents).toString = .ok (path ++ ascii "?" ++ query) := by
  have hjoin : ({ port := some 0, path, query } : UriComponents).join = path ++ ascii "?" ++ query := by
    simp [UriComponents.join, hne]
  have hparse := parseFrom_relative query hpath fun c hc => (Bool.and_eq_true_iff.1 (hquery c hc)).1
  rw [UriComponents.toString, hjoin, hparse]
  rfl

theorem isUrlCharacter_request {path query : Bytes} (hurl : ∀ c ∈ path, isUrlCharacter c = true)
    (hquery : ∀ c ∈ query, isRequestCharacter c = true) :
    ∀ c ∈ path ++ ascii "?" ++ query, isUrlCharacter c = true := by
  intro c hc
  rcases List.mem_append.1 hc with hc | hc
  · rcases List.mem_append.1 hc with hc | hc
    · exact hurl c hc
    · rw [List.mem_singleton.1 hc]
      decide
  · exact (Bool.and_eq_true_iff.1 (hquery c hc)).2

/-- The agent takes in a request with a path and a query as they are. -/
theorem takes_request (method : HttpMethod) {path query : Bytes} (hpath : RelativePath path)
    (hurl : ∀ c ∈ path, isUrlCharacter c = true) (hquery : ∀ c ∈ query, isRequestCharacter c = true) :
    Takes (serialize method (path ++ ascii "?" ++ query))
      { method := method.verb, url := { port := some 0, path, query } } := by
  have hparse := parseFrom_relative query hpath fun c hc => (Bool.and_eq_true_iff.1 (hquery c hc)).1
  exact serialize_message method (by simp [ascii]) (isUrlCharacter_request hurl hquery)
    (by rw [Uri.ofString, hparse])

/-- Which method is asked for is in the path alone. -/
theorem method_eq (verb path query : Bytes) :
    RestApiParser.method { method := verb, url := { port := some 0, path, query } } =
    RestApiParser.method { method := verb, url := { port := some 0, path } } := rfl

/-- What the agent reads is what its parser makes of the one packet the request is. -/
theorem readAs_packet {bytes : Bytes} {packet : HttpPacket} {method : RestApiMethods} {query : Query}
    {params : List (RestApiParameters × Bytes)} (hbytes : Takes bytes packet)
    (hmethod : RestApiParser.method packet = .ok method) (hquery : parseQueryString packet = .ok query)
    (hparams : ∀ x ∈ params, (query.find? x.1).getD [] = x.2) :
    ReadAs bytes method params := by
  intro hfits reads hne hreads
  obtain ⟨p, hp, hdone, hpacket⟩ := hbytes.receive hfits hne hreads
  refine ⟨p, hp, hdone, by rw [hpacket, hmethod], fun x hx => ?_⟩
  rw [getStringParam, hpacket, hquery, ← hparams x hx]
  rfl

section Path

variable {type : Bytes} (hne : type ≠ []) (hall : ∀ c ∈ type, isalpha c = true)
include hall

theorem relativePath_download : RelativePath (ascii "download/" ++ type) where
  characters c hc := by
    have hroot : ∀ c ∈ ascii "download/", isPathCharacter c = true := forall_mem_of_all (by decide)
    rcases List.mem_append.1 hc with hc | hc
    · exact hroot c hc
    · simp [isPathCharacter, isUnreserved, isalnum, hall c hc]
  slash := List.mem_append_left _ (by decide)
  colon h := by
    rcases List.mem_append.1 h with h | h
    · revert h
      decide
    · exact class_ne (hall _ h) (by decide : isalpha 58 = false) rfl
  first := by simp [ascii]

theorem isUrlCharacter_download : ∀ c ∈ ascii "download/" ++ type, isUrlCharacter c = true := by
  have hroot : ∀ c ∈ ascii "download/", isUrlCharacter c = true := forall_mem_of_all (by decide)
  intro c hc
  rcases List.mem_append.1 hc with hc | hc
  · exact hroot c hc
  · simp [isUrlCharacter, isalnum, hall c hc]

include hne

/-- The path of a request is the root and a type. -/
theorem downloadPath_eq : downloadPath type = .ok { port := some 0, path := ascii "download/" ++ type } := by
  have hroot : Uri.ofString (ascii "download") = .ok { port := some 0, path := ascii "download" } := by decide
  have hslash : 47 ∉ type := fun h => class_ne (hall _ h) (by decide : isalpha 47 = false) rfl
  have htype : ¬ (type = [] ∨ type = ascii "/") := by
    rintro (h | h)
    · exact hne h
    · exact hslash (h ▸ by decide)
  have hhead : type.head? ≠ some 47 := fun h => hslash (List.mem_of_head? h)
  have hseparated : UriComponents.appendSeparated 47 (ascii "download") type = ascii "download/" ++ type := by
    rw [UriComponents.appendSeparated, if_neg (fun h => hhead h.2), if_pos ⟨by decide, hhead⟩]
    rfl
  rw [downloadPath, hroot, Except.map, UriComponents.appendPath, if_neg htype, if_neg (by decide), hseparated]

end Path

/-- The agent knows every method of its table by the path the SDK writes for it. -/
theorem method_supported {verb : HttpMethod} {method : RestApiMethods} {type : Bytes}
    (h : (type, method, verb.verb) ∈ supportedAPIs) :
    RestApiParser.method
    { method := verb.verb, url := { port := some 0, path := ascii "download/" ++ type } } =
      .ok method := by
  have hall : ∀ api ∈ supportedAPIs, RestApiParser.method
      { method := api.2.2, url := { port := some 0, path := ascii "download/" ++ api.1 } } =
        .ok api.2.1 := by decide +kernel
  exact hall (type, method, verb.verb) h

/-- A request for a method of a download, and the id the agent reads in it. -/
theorem downloadRequest_readBack {verb : HttpMethod} {method : RestApiMethods} {type : Bytes} (id : Bytes)
    (hne : type ≠ []) (hall : ∀ c ∈ type, isalpha c = true)
    (hmethod : RestApiParser.method
      { method := verb.verb, url := { port := some 0, path := ascii "download/" ++ type } } =
      .ok method) :
    ReadBack (downloadRequest verb type id) (verb.verb.length + type.length + 68) method [(.id, id)] := by
  have hpath := relativePath_download hall
  have hquery : ∀ c ∈ paramText .id id, isRequestCharacter c = true := isRequestCharacter_paramText
  have hparam :
    ({ port := some 0, path := ascii "download/" ++ type } : UriComponents).appendQueryParam
      (ascii "Id") id = _ :=
    appendQueryParam_first _ .id id rfl
  refine ⟨_, ?_, ?_, readAs_packet (takes_request verb hpath (isUrlCharacter_download hall) hquery)
    ((method_eq _ _ _).trans hmethod) (parseQueryString_one rfl) ?_⟩
  · simp only [downloadRequest, downloadPath_eq hne hall, bind, Except.bind, hparam,
      toString_relative hpath (paramText_ne_nil .id id) hquery]
    rfl
  · rw [length_serialize verb (isUrlCharacter_request (isUrlCharacter_download hall) hquery)]
    simp [paramText, RestApiParameters.stringId, ascii]
    omega
  · simp [OrdMap.find?, OrdMap.insert, OrdMap.insertEntry, OrdMap.empty]

/-- A request to create a download, with or without a path for its file. -/
theorem createRequest_readBack (uri path : Bytes) :
    ReadBack (createRequest uri path) 97 .create [(.uri, uri), (.downloadFilePath, path)] := by
  have hall : ∀ c ∈ ascii "create", isalpha c = true := forall_mem_of_all (by decide)
  have hpath := relativePath_download hall
  have hurl := isUrlCharacter_download hall
  have hmethod : RestApiParser.method
      { method := HttpMethod.post.verb, url := { port := some 0, path := ascii "download/" ++ ascii "create" } } =
      .ok .create := method_supported (by decide)
  have huri :
    ({ port := some 0, path := ascii "download/" ++ ascii "create" } : UriComponents).appendQueryParam
      (ascii "Uri") uri = _ := appendQueryParam_first _ .uri uri rfl
  by_cases hne : path = []
  · have hquery : ∀ c ∈ paramText .uri uri, isRequestCharacter c = true := isRequestCharacter_paramText
    refine ⟨_, ?_, ?_, readAs_packet (takes_request .post hpath hurl hquery) ((method_eq _ _ _).trans hmethod)
      (parseQueryString_one rfl) ?_⟩
    · simp only [createRequest, downloadPath_eq (by decide) hall, bind, Except.bind, hne, if_true, huri,
        toString_relative hpath (paramText_ne_nil .uri uri) hquery]
      rfl
    · rw [length_serialize .post (isUrlCharacter_request hurl hquery)]
      simp [paramText, RestApiParameters.stringId, HttpMethod.verb, ascii]
      omega
    · simp [OrdMap.find?, OrdMap.insert, OrdMap.insertEntry, OrdMap.empty, RestApiParameters.index, hne]
  · have hquery :
      ∀ c ∈ paramText .uri uri ++ 38 :: paramText .downloadFilePath path, isRequestCharacter c = true := by
      intro c hc
      rcases List.mem_append.1 hc with hc | hc
      · exact isRequestCharacter_paramText c hc
      rcases List.mem_cons.1 hc with rfl | hc
      · decide
      · exact isRequestCharacter_paramText c hc
    have hparam :
      ({ port := some 0, path := ascii "download/" ++ ascii "create", query := paramText .uri uri } :
        UriComponents).appendQueryParam (ascii "DownloadFilePath") path = _ :=
      appendQueryParam_next _ .downloadFilePath path (paramText_ne_nil .uri uri)
        (amp_not_mem_paramText .uri uri)
    refine ⟨_, ?_, ?_, readAs_packet (takes_request .post hpath hurl hquery) ((method_eq _ _ _).trans hmethod)
      (parseQueryString_create rfl) ?_⟩
    · simp only [createRequest, downloadPath_eq (by decide) hall, bind, Except.bind, hne, if_false,
        huri, hparam, toString_relative hpath (by simp) hquery]
      rfl
    · rw [length_serialize .post (isUrlCharacter_request hurl hquery)]
      simp [paramText, RestApiParameters.stringId, HttpMethod.verb, ascii]
      omega
    · simp [OrdMap.find?, OrdMap.insert, OrdMap.insertEntry, OrdMap.empty, RestApiParameters.index]

theorem startRequest_readBack (id : Bytes) : ReadBack (startRequest id) 77 .start [(.id, id)] :=
  downloadRequest_readBack id (by decide) (forall_mem_of_all (by decide)) (method_supported (by decide))

theorem pauseRequest_readBack (id : Bytes) : ReadBack (pauseRequest id) 77 .pause [(.id, id)] :=
  downloadRequest_readBack id (by decide) (forall_mem_of_all (by decide)) (method_supported (by decide))

theorem finalizeRequest_readBack (id : Bytes) : ReadBack (finalizeRequest id) 80 .finalize [(.id, id)] :=
  downloadRequest_readBack id (by decide) (forall_mem_of_all (by decide)) (method_supported (by decide))

theorem abortRequest_readBack (id : Bytes) : ReadBack (abortRequest id) 77 .abort [(.id, id)] :=
  downloadRequest_readBack id (by decide) (forall_mem_of_all (by decide)) (method_supported (by decide))

theorem getStatusRequest_readBack (id : Bytes) : ReadBack (getStatusRequest id) 80 .getStatus [(.id, id)] :=
  downloadRequest_readBack id (by decide) (forall_mem_of_all (by decide)) (method_supported (by decide))

/-- A request with one parameter fits whenever that is short. -/
theorem ReadBack.fits {request : Except StdException Bytes} {n : Nat} {method : RestApiMethods}
    {param : RestApiParameters} {value : Bytes} (h : ReadBack request n method [(param, value)])
    (hshort : n + 3 * value.length ≤ capacity) : ∃ bytes, request = .ok bytes ∧ bytes.length ≤ capacity := by
  obtain ⟨bytes, hbytes, hlength, -⟩ := h
  have hencoded := length_encodeQueryImpl_le value
  simp only [List.map_cons, List.map_nil, List.sum_cons, List.sum_nil] at hlength
  exact ⟨bytes, hbytes, by omega⟩

/-- **Every request is read back as it was meant.** The agent takes it in, however it is cut into
reads, as the method called, with the very bytes the call was given. It has less than 100 bytes
beside the encoded parameters, so the requests for any id of up to 656 bytes fit. -/
theorem requests_read_back :
    (∀ uri path, ReadBack (createRequest uri path) 97 .create [(.uri, uri), (.downloadFilePath, path)]) ∧
    (∀ id, ReadBack (startRequest id) 77 .start [(.id, id)]) ∧
    (∀ id, ReadBack (pauseRequest id) 77 .pause [(.id, id)]) ∧
    (∀ id, ReadBack (finalizeRequest id) 80 .finalize [(.id, id)]) ∧
    (∀ id, ReadBack (abortRequest id) 77 .abort [(.id, id)]) ∧
    (∀ id, ReadBack (getStatusRequest id) 80 .getStatus [(.id, id)]) ∧
    ∀ id : Bytes, id.length ≤ 656 → ∀ request ∈
      [startRequest id, pauseRequest id, finalizeRequest id, abortRequest id, getStatusRequest id],
      ∃ bytes, request = .ok bytes ∧ bytes.length ≤ capacity := by
  refine ⟨createRequest_readBack, startRequest_readBack, pauseRequest_readBack, finalizeRequest_readBack,
    abortRequest_readBack, getStatusRequest_readBack, fun id hid request hrequest => ?_⟩
  have hshort : ∀ n ≤ 80, n + 3 * id.length ≤ capacity := fun n hn => by
    simp only [capacity]
    omega
  simp only [List.mem_cons, List.not_mem_nil, or_false] at hrequest
  rcases hrequest with rfl | rfl | rfl | rfl | rfl
  · exact (startRequest_readBack id).fits (hshort _ (by decide))
  · exact (pauseRequest_readBack id).fits (hshort _ (by decide))
  · exact (finalizeRequest_readBack id).fits (hshort _ (by decide))
  · exact (abortRequest_readBack id).fits (hshort _ (by decide))
  · exact (getStatusRequest_readBack id).fits (hshort _ (by decide))

/-- A URI and a path with separators in them, and an id of that kind, sent as two reads. -/
theorem requests_read_back_separators :
    (∃ bytes, createRequest (ascii "a&b=c") (ascii "d +;%") = .ok bytes ∧
      ∃ p, HttpParser.receive {} [bytes.take 30, bytes.drop 30] = .ok p ∧
      RestApiParser.method p.parsedData = .ok .create ∧
      ∀ x ∈ [(RestApiParameters.uri, ascii "a&b=c"), (.downloadFilePath, ascii "d +;%")],
        getStringParam p.parsedData x.1 = .ok x.2) ∧
    ∃ bytes, abortRequest (ascii "7d&Id=;") = .ok bytes ∧
      ∃ p, HttpParser.receive {} [bytes.take 30, bytes.drop 30] = .ok p ∧
      RestApiParser.method p.parsedData = .ok .abort ∧
      ∀ x ∈ [(RestApiParameters.id, ascii "7d&Id=;")], getStringParam p.parsedData x.1 = .ok x.2 := by
  obtain ⟨hcreate, -, -, -, habort, -, hfits⟩ := requests_read_back
  constructor
  · obtain ⟨bytes, hbytes, hlength, hread⟩ := hcreate (ascii "a&b=c") (ascii "d +;%")
    have hexact : (createRequest (ascii "a&b=c") (ascii "d +;%")).map List.length = .ok 119 := by
      decide +kernel
    rw [hbytes] at hexact
    have hexact' : bytes.length = 119 := Except.ok.inj hexact
    exact ⟨bytes, hbytes, hread.two_reads 30 (by decide) (by omega) (by rw [hexact']; decide)⟩
  · obtain ⟨bytes, hbytes, -, hread⟩ := habort (ascii "7d&Id=;")
    obtain ⟨bytes', hbytes', hfits⟩ :=
      hfits (ascii "7d&Id=;") (by decide) (abortRequest (ascii "7d&Id=;")) (by simp)
    obtain rfl := Except.ok.inj (hbytes'.symm.trans hbytes)
    have hexact : (abortRequest (ascii "7d&Id=;")).map List.length = .ok 90 := by decide +kernel
    rw [hbytes] at hexact
    have hexact' : bytes'.length = 90 := Except.ok.inj hexact
    exact ⟨bytes', hbytes, hread.two_reads 30 (by decide) (by omega) hfits⟩

end DoClient.Sdk
