/-
`setproperty` never sets a property: the id that says which download is meant
is the first of the properties it goes on to set, and the id is read-only.
-/
import DoClient.RestApi
import DoClient.Agent

namespace DoClient

open HResult DlM RestApiParser

/-- A parameter names a property that can be set to the value in the download's state. -/
def Writable (uri : UriLib) (d : Download) : RestApiParameters → Bytes → Prop
  | .id, _ | .propertyKey, _ => False
  | .uri, value => value.text.isEmpty = false ∧ validateUrl uri value.text = true ∧
    (d.status.state = .created ∨ d.status.state = .paused)
  | .downloadFilePath, value => value.text.isEmpty = false ∧ d.status.state = .created
  | .noProgressTimeoutSeconds, value =>
    ∃ timeout, toUInt value.text = .ok timeout ∧ progressTrackerCheckInterval ≤ timeout

/-- These are the properties `SetProperty` does set. -/
theorem setProperty_ok_iff {uri : UriLib} {o : Outside} {w : World} {param : RestApiParameters}
    {key : DownloadProperty} (hkey : param.downloadPropertyId = some key) (value : Bytes) :
    (setProperty uri o key value.text w).1 = .ok () ↔ Writable uri w.dl param value := by
  cases param with
  | id =>
    cases hkey
    simp [setProperty, Writable]
  | uri =>
    cases hkey
    simp only [setProperty, bind_run, get_run, ite_run, Writable]
    by_cases hempty : value.text.isEmpty = true
    · simp [hempty]
    by_cases hvalid : validateUrl uri value.text = true
    · by_cases hstate : w.dl.status.state ≠ .created ∧ w.dl.status.state ≠ .paused
      · simp [hempty, hvalid, hstate]
      · simp only [hempty, hvalid, hstate]
        simp only [not_and_or, not_not] at hstate
        simp [hstate]
    · simp [hempty, hvalid]
  | downloadFilePath =>
    cases hkey
    simp only [setProperty, bind_run, get_run, ite_run, Writable]
    by_cases hempty : value.text.isEmpty = true
    · simp [hempty]
    by_cases hstate : w.dl.status.state = .created <;> simp [hempty, hstate]
  | noProgressTimeoutSeconds =>
    cases hkey
    simp only [setProperty, bind_run, get_run, liftExcept_run, Writable]
    cases htimeout : toUInt value.text with
    | error hr => simp
    | ok timeout =>
      by_cases hlow : timeout < progressTrackerCheckInterval
      · simp [hlow]
      · simp [hlow, Nat.not_lt.1 hlow]
  | propertyKey => cases hkey

/-- The properties of a download that can be set. -/
structure SameProperties (d d' : Download) : Prop where
  url : d'.url = d.url
  destFilePath : d'.destFilePath = d.destFilePath
  noProgressTimeout : d'.noProgressTimeout = d.noProgressTimeout

/-- The named properties have the values asked for, the others the ones they had. -/
structure Applied (query : Query) (d d' : Download) : Prop where
  url : d'.url = ((query.find? .uri).map Bytes.text).getD d.url
  destFilePath : d'.destFilePath = ((query.find? .downloadFilePath).map Bytes.text).getD d.destFilePath
  noProgressTimeout : .ok d'.noProgressTimeout =
    ((query.find? .noProgressTimeoutSeconds).map fun value => toUInt value.text).getD
      (.ok d.noProgressTimeout)

/-- All or nothing, and all when each named property can be set. -/
structure AllOrNothing (uri : UriLib) (query : Query) (w : World) (hr : HResult) (w' : World) : Prop where
  all : succeeded hr = true → Applied query w.dl w'.dl
  nothing : succeeded hr = false → SameProperties w.dl w'.dl
  works : (∀ param value, param ≠ .id → query.find? param = some value → Writable uri w.dl param value) →
    succeeded hr = true

/-! ## The id comes first -/

namespace RestApiSetPropertyRequest

variable {uri : UriLib} {o : DownloadProperty → Outside} {id : Bytes} {request : HttpPacket}
    {query : Query} {w : World}

theorem propertiesToSet_error {items : List (RestApiParameters × Bytes)} {hr : HResult}
    (h : propertiesToSet items = .error hr) :
    hr = DO_E_UNKNOWN_PROPERTY_ID := by
  induction items with
  | nil => cases h
  | cons item items ih =>
    rw [propertiesToSet] at h
    split at h
    · exact (Except.error.inj h).symm
    · cases hrest : propertiesToSet items with
      | error hr' =>
        rw [hrest] at h
        exact ih (hrest.trans h)
      | ok properties =>
        rw [hrest] at h
        cases h

/-- **No request that names its download succeeds**, and none changes anything. -/
theorem parseAndProcess_fails (uri : UriLib) (o : DownloadProperty → Outside) (w : World)
    (hquery : parseQueryString request = .ok query) (hid : query.find? .id = some id) :
    ∃ hr, process (parseAndProcess uri o id request) w = (hr, w) ∧ succeeded hr = false := by
  have hdownloadId : getStringParam request .id = .ok id := by
    rw [getStringParam, hquery]
    simp [Except.map, hid]
  simp only [process, parseAndProcess, bind_run, liftExcept_run, hdownloadId, hquery]
  cases hproperties : propertiesToSet query.entries with
  | error hr =>
    obtain rfl := propertiesToSet_error hproperties
    exact ⟨_, rfl, by decide⟩
  | ok properties =>
    obtain ⟨param, rest, hentries, hparam⟩ := OrdMap.head_of_least RestApiParameters.id_least hid
    obtain rfl := RestApiParameters.index_inj hparam
    rw [hentries, propertiesToSet] at hproperties
    cases hrest : propertiesToSet rest with
    | error hr => simp [RestApiParameters.downloadPropertyId, hrest, Except.map] at hproperties
    | ok others =>
      simp only [RestApiParameters.downloadPropertyId, hrest, Except.map, Except.ok.injEq] at hproperties
      subst hproperties
      exact ⟨DO_E_READ_ONLY_PROPERTY, by simp [setProperties, DownloadManager.setDownloadProperty,
        DownloadManager.getDownload, clientRequest, setProperty], by decide⟩

end RestApiSetPropertyRequest

open RestApiSetPropertyRequest

/-- **`setproperty` is all or nothing and works** exactly when one of the properties a request
names, other than the id, cannot be set. -/
theorem all_or_nothing_iff {uri : UriLib} {o : DownloadProperty → Outside} {id : Bytes}
    {request : HttpPacket} {query : Query} (hquery : parseQueryString request = .ok query)
    (hid : query.find? .id = some id) (w : World) :
    AllOrNothing uri query w (process (parseAndProcess uri o id request) w).1
    (process (parseAndProcess uri o id request) w).2 ↔
      ∃ param value, param ≠ .id ∧ query.find? param = some value ∧ ¬ Writable uri w.dl param value := by
  obtain ⟨hr, hresult, hfails⟩ := parseAndProcess_fails uri o w hquery hid
  rw [hresult]
  constructor
  · intro h
    by_contra hall
    have hworks := h.works fun param value hne hfind => by
      by_contra hnot
      exact hall ⟨param, value, hne, hfind, hnot⟩
    rw [hfails] at hworks
    cases hworks
  · rintro ⟨param, value, hne, hfind, hnot⟩
    exact {
      all := fun hok => by rw [hfails] at hok; cases hok
      nothing := fun _ => ⟨rfl, rfl, rfl⟩
      works := fun hall => absurd (hall param value hne hfind) hnot }

/-- A request that moves the file of the download `7`, and its parameters. -/
def movesFile : HttpPacket := {
  method := ascii "POST"
  url :=
    { port := some 0, path := ascii "download/setproperty", query := ascii "Id=7&DownloadFilePath=/other" } }

def movesFileQuery : Query := (OrdMap.empty.insert .downloadFilePath (ascii "/other")).insert .id (ascii "7")

theorem all_or_nothing_iff_moves_file :
    AllOrNothing plainUri movesFileQuery newDownload
      (process (parseAndProcess plainUri (fun _ => {}) (ascii "7") movesFile) newDownload).1
      (process (parseAndProcess plainUri (fun _ => {}) (ascii "7") movesFile) newDownload).2 ↔
    ∃ param value, param ≠ .id ∧ movesFileQuery.find? param = some value ∧
    ¬ Writable plainUri newDownload.dl param value :=
  all_or_nothing_iff (by decide +kernel) (by decide +kernel) newDownload

/-- The file of a download not yet started can be moved, and the request fails. -/
theorem setproperty_fails : ¬ ∀ (request : HttpPacket) (query : Query) (id : Bytes) (w : World),
    parseQueryString request = .ok query → query.find? .id = some id →
    AllOrNothing plainUri query w (process (parseAndProcess plainUri (fun _ => {}) id request) w).1
      (process (parseAndProcess plainUri (fun _ => {}) id request) w).2 := by
  intro hall
  have hquery : parseQueryString movesFile = .ok movesFileQuery := by decide +kernel
  have hid : movesFileQuery.find? .id = some (ascii "7") := by decide
  obtain ⟨hr, hresult, hfails⟩ := parseAndProcess_fails plainUri (fun _ => {}) newDownload hquery hid
  have hworks := (hall movesFile movesFileQuery (ascii "7") newDownload hquery hid).works ?_
  · rw [hresult, hfails] at hworks
    cases hworks
  · intro param value hne hfind
    cases param with
    | id => exact absurd rfl hne
    | downloadFilePath =>
      have hpath : movesFileQuery.find? .downloadFilePath = some (ascii "/other") := by decide
      obtain rfl := Option.some.inj (hpath.symm.trans hfind)
      exact ⟨by decide, rfl⟩
    | uri | noProgressTimeoutSeconds | propertyKey =>
      have hnone : ∀ param ∈ [RestApiParameters.uri, .noProgressTimeoutSeconds, .propertyKey],
          movesFileQuery.find? param = none := by decide
      simp [hnone] at hfind

end DoClient
