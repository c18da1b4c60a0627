/-
The REST interface of the agent (`client-lite/src/ipc/rest_api_*.cpp`): which
method a request asks for, its parameters, and the handler of `setproperty`.

An exception that leaves a handler is caught at its top; what is thrown here is
the result it is turned into there.
-/
import DoClient.HttpParser
import DoClient.Download

namespace DoClient

open HResult Uri

inductive RestApiMethods
  | create | enumerate | start | pause | finalize | abort | getStatus | getProperty | setProperty
  deriving DecidableEq, Repr

inductive RestApiParameters
  | id | uri | downloadFilePath | noProgressTimeoutSeconds | propertyKey
  deriving DecidableEq, Repr

/-- `StringCompareCaseInsensitive` of two C strings is 0. -/
def equalIgnoreCase (left right : Bytes) : Bool := (cstr left).map toupper == (cstr right).map toupper

/-! ## Parameters -/

namespace RestApiParameters

/-- The position in `_knownParams`, and so the order of the addresses of its entries. -/
def index : RestApiParameters → Nat
  | .id => 0
  | .uri => 1
  | .downloadFilePath => 2
  | .noProgressTimeoutSeconds => 3
  | .propertyKey => 4

def stringId : RestApiParameters → Bytes
  | .id => ascii "Id"
  | .uri => ascii "Uri"
  | .downloadFilePath => ascii "DownloadFilePath"
  | .noProgressTimeoutSeconds => ascii "NoProgressTimeoutSeconds"
  | .propertyKey => ascii "PropertyKey"

/-- `downloadPropertyId`: none for `DownloadProperty::Invalid`. -/
def downloadPropertyId : RestApiParameters → Option DownloadProperty
  | .id => some .id
  | .uri => some .uri
  | .downloadFilePath => some .localPath
  | .noProgressTimeoutSeconds => some .noProgressTimeoutSeconds
  | .propertyKey => none

/-- `_knownParams`. -/
def knownParams : List RestApiParameters :=
  [.id, .uri, .downloadFilePath, .noProgressTimeoutSeconds, .propertyKey]

/-- `RestApiParam::Lookup` of a name. -/
def lookup (stringId : Bytes) : Option RestApiParameters :=
  knownParams.find? fun p => equalIgnoreCase p.stringId stringId

theorem index_inj {p q : RestApiParameters} (h : p.index = q.index) : p = q := by
  cases p <;> cases q <;> first | rfl | cases h

theorem id_least (p : RestApiParameters) : RestApiParameters.id.index ≤ p.index := Nat.zero_le _

end RestApiParameters

/-- `query_data_t`. -/
abbrev Query := OrdMap RestApiParameters.index Bytes

/-! ## The parser of requests -/

/-- An exception of the standard library, or `uri_exception`, as a handler's `CATCH_RETURN` reports it. -/
def catchReturn {α} : Except StdException α → Except HResult α
  | .ok a => .ok a
  | .error _ => .error ERROR_UNHANDLED_EXCEPTION

namespace RestApiParser

/-- `supportedAPIs`. -/
def supportedAPIs : List (Bytes × RestApiMethods × Bytes) := [
  (ascii "create", .create, ascii "POST"),
  (ascii "enumerate", .enumerate, ascii "GET"),
  (ascii "start", .start, ascii "POST"),
  (ascii "pause", .pause, ascii "POST"),
  (ascii "finalize", .finalize, ascii "POST"),
  (ascii "abort", .abort, ascii "POST"),
  (ascii "getstatus", .getStatus, ascii "GET"),
  (ascii "getproperty", .getProperty, ascii "GET"),
  (ascii "setproperty", .setProperty, ascii "POST")]

/-- `RestApiParser::Method`. -/
def method (request : HttpPacket) : Except HResult RestApiMethods := do
  let path ← catchReturn (decode request.url.path)
  match splitPath path with
  | [root, name] =>
    if equalIgnoreCase root (ascii "download") then
      match supportedAPIs.find? fun api => api.1.map tolower == name.map tolower with
      | some (_, method, verb) => if request.method = verb then .ok method else .error E_UNSUPPORTED
      | none => .error E_UNSUPPORTED
    else .error E_UNSUPPORTED
  | _ => .error E_UNSUPPORTED

/-- One item of the query string is entered under its parameter, decoded by itself. -/
def addParam (decodedQueryData : Query) (item : Bytes × Bytes) : Except HResult Query :=
  match RestApiParameters.lookup item.1 with
  | none => .error E_INVALIDARG
  | some param => (catchReturn (decode item.2)).map (decodedQueryData.insert param)

/-- `_ParseQueryString`, and `Query`. -/
def parseQueryString (request : HttpPacket) : Except HResult Query :=
  (splitQuery request.url.query).entries.foldlM addParam .empty

/-- `GetStringParam`. -/
def getStringParam (request : HttpPacket) (param : RestApiParameters) : Except HResult Bytes :=
  (parseQueryString request).map fun query => (query.find? param).getD []

end RestApiParser

/-! ## `setproperty` -/

namespace DownloadManager

open DlM

/-- `_GetDownload`, where the download is the one with this id. -/
def getDownload (id downloadId : Bytes) : DlM Unit := if downloadId = id then pure () else throwHr E_NOT_SET

/-- `SetDownloadProperty`. -/
def setDownloadProperty (uri : UriLib) (o : Outside) (id downloadId : Bytes) (key : DownloadProperty)
    (value : Bytes) :
    DlM Unit := do
  getDownload id downloadId
  clientRequest uri o (.setProperty key value.text)

end DownloadManager

namespace RestApiSetPropertyRequest

open DlM RestApiParser

/-- The properties to set, in the order of the query; a parameter that is none ends the request. -/
def propertiesToSet : List (RestApiParameters × Bytes) → Except HResult (List (DownloadProperty × Bytes))
  | [] => .ok []
  | (param, value) :: rest =>
    match param.downloadPropertyId with
    | none => .error DO_E_UNKNOWN_PROPERTY_ID
    | some key => (propertiesToSet rest).map ((key, value) :: ·)

/-- The properties are set one call after another. What other tasks do in between is left out. -/
def setProperties (uri : UriLib) (o : DownloadProperty → Outside) (id downloadId : Bytes) :
    List (DownloadProperty × Bytes) → DlM Unit
  | [] => pure ()
  | (key, value) :: rest => do
    DownloadManager.setDownloadProperty uri (o key) id downloadId key value
    setProperties uri o id downloadId rest

/-- `RestApiSetPropertyRequest::ParseAndProcess`. -/
def parseAndProcess (uri : UriLib) (o : DownloadProperty → Outside) (id : Bytes) (request : HttpPacket) :
    DlM HResult := do
  let downloadId ← liftExcept (getStringParam request .id)
  let query ← liftExcept (parseQueryString request)
  match propertiesToSet query.entries with
  | .error hr => return hr
  | .ok properties => do
    setProperties uri o id downloadId properties
    return S_OK

end RestApiSetPropertyRequest

/-- `RestApiRequestBase::Process`: what its handler throws is its result. -/
def process (handler : DlM HResult) (w : World) : HResult × World :=
  match handler w with
  | (.ok hr, w) => (hr, w)
  | (.error hr, w) => (hr, w)

end DoClient
