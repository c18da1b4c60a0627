/-
`HttpAgent` over its requests: what its curl handle and its list of request
headers carry from one request into the next. What a call asks for is read off
its arguments alone (`Asked`), and set against what the handle holds then.
-/
import DoClient.Agent
import DoClient.SwapUrl

namespace DoClient

/-! ## Proxies -/

namespace UriLib

variable (uri : UriLib)

/-- The address of a proxy can be told. -/
def reads : Option String → Bool
  | none => true
  | some p =>
    match uri.proxyAddress p with
    | .ok _ => true
    | .error hr => !failed hr

/-- What `CURLOPT_PROXY` is set to, if it is. -/
def address : Option String → Option String
  | none => some ""
  | some p =>
    match uri.proxyAddress p with
    | .ok (address, _) => some address
    | .error _ => none

/-- What `CURLOPT_PROXYPORT` is set to, if it is: for every proxy, as no port is read as -1. -/
def port : Option String → Option Int
  | none => none
  | some p =>
    match uri.proxyAddress p with
    | .ok (_, port) => some port
    | .error _ => none

/-- What the library throws, `CATCH_RETURN` makes a failure of. -/
def Throws : Prop := ∀ p hr, uri.proxyAddress p = .error hr → failed hr = true

variable {uri}

/-- A proxy that can be read has an address to set, and a port if there is one at all. -/
theorem Throws.address (h : uri.Throws) {szProxyUrl : Option String} (hreads : uri.reads szProxyUrl = true) :
    ∃ address, uri.address szProxyUrl = some address ∧
      (address = "" ∨ (uri.port szProxyUrl).isSome = true) := by
  cases szProxyUrl with
  | none => exact ⟨"", rfl, .inl rfl⟩
  | some p =>
    simp only [UriLib.reads, UriLib.address, UriLib.port] at hreads ⊢
    cases hp : uri.proxyAddress p with
    | ok address => exact ⟨address.1, rfl, .inr rfl⟩
    | error hr =>
      rw [hp] at hreads
      simp [h p hr hp] at hreads

end UriLib

/-- The vendored library itself, of texts whose characters are bytes. What it throws is a
`std::exception`; a port with an empty text, which it reads uninitialised, counts as none. -/
def vendoredUri : UriLib where
  validate url := (Uri.parseFrom (ascii url)).isSome
  scheme url := (Uri.parseFrom (ascii url)).elim "" (·.scheme.text)
  host url := (Uri.parseFrom (ascii url)).elim "" (·.host.text)
  swapUrlHostNameForMCC url newHostname :=
    match Uri.swapUrlHostNameForMCC (ascii url) (ascii newHostname) Uri.internetDefaultPort with
    | .ok url => .ok url.text
    | .error _ => .error HResult.ERROR_UNHANDLED_EXCEPTION
  proxyAddress url :=
    match Uri.ofString (ascii url) with
    | .ok proxy =>
      match { proxy with port := some (-1) }.toString with
      | .ok address => .ok (address.text, (proxy.port.getD 0).toNat)
      | .error _ => .error HResult.ERROR_UNHANDLED_EXCEPTION
    | .error _ => .error HResult.ERROR_UNHANDLED_EXCEPTION

/-- The port it reads is a number from 0 on. -/
theorem vendoredUri_port {url address : String} {port : Nat}
    (h : vendoredUri.proxyAddress url = .ok (address, port)) :
    ∃ proxy, Uri.parseFrom (ascii url) = some proxy ∧ (port : Int) = proxy.port.getD 0 := by
  simp only [vendoredUri, Uri.ofString] at h
  split at h
  · next proxy hproxy =>
    split at hproxy
    · next parsed hparsed =>
      obtain rfl := Except.ok.inj hproxy
      split at h
      · obtain ⟨-, rfl⟩ := Prod.mk.inj (Except.ok.inj h)
        refine ⟨parsed, hparsed, Int.toNat_of_nonneg ?_⟩
        cases hport : parsed.port with
        | none => exact le_refl 0
        | some n => exact Uri.parseFrom_port hparsed n hport
      · cases h
    · cases hproxy
  · cases h

namespace HttpAgent

variable (uri : UriLib)

/-! ## Calls -/

/-- What becomes of an agent between its making and its end. -/
inductive Call
  | sendRequest (szUrl szProxyUrl szRange : Option String) (connectTimeoutSecs : Nat)
  | close
  /-- libcurl's callbacks: they note things of the response. -/
  | callbacks (noted : HttpAgent)
  deriving DecidableEq, Repr

/-- `Close` has the handle removed from `CurlRequests`, and leaves the context. -/
def call (a : HttpAgent) : Call → HttpAgent
  | .sendRequest szUrl szProxyUrl szRange connectTimeoutSecs =>
    (a.prepareRequest uri szUrl szProxyUrl szRange connectTimeoutSecs).2
  | .close => a
  | .callbacks noted => { noted with curlHandle := a.curlHandle, requestHeaders := a.requestHeaders }

/-- An agent after some calls. -/
def after (calls : List Call) : HttpAgent := calls.foldl (call uri) {}

/-- The URL of a request is valid; one without a URL goes where the last went. -/
def urlPasses (made : Bool) : Option String → Bool
  | some url => validateUrl uri url
  | none => made

/-- What calls asked for. -/
structure Asked where
  /-- The connect timeout of the call that made the handle. -/
  madeWith : Option Nat := none
  /-- The ranges of the requests so far. -/
  ranges : List String := []

def Asked.add (s : Asked) : Call → Asked
  | .sendRequest szUrl szProxyUrl szRange connectTimeoutSecs =>
    if urlPasses uri s.madeWith.isSome szUrl then
      { madeWith := s.madeWith.or (some connectTimeoutSecs)
        ranges := if uri.reads szProxyUrl then s.ranges ++ szRange.toList else s.ranges }
    else s
  | _ => s

def asked (calls : List Call) : Asked := calls.foldl (Asked.add uri) {}

/-! ## One call -/

/-- The options of a handle after a request sets its own. -/
def optionsSet (easy : CurlEasy) (szUrl szProxyUrl : Option String) : CurlEasy := { easy with
  url := szUrl.getD easy.url
  proxy := (uri.address szProxyUrl).getD easy.proxy
  proxyPort := (uri.port szProxyUrl).or easy.proxyPort }

/-- The handle a request sets its options on: the one there is, or a new one. -/
def handleFor (a : HttpAgent) (connectTimeoutSecs : Nat) : CurlEasy :=
  a.curlHandle.getD { connectTimeout := connectTimeout connectTimeoutSecs }

variable {uri} {a : HttpAgent} {szUrl szProxyUrl szRange : Option String} {secs : Nat}

theorem setUrlAndProxy_passes {easy : CurlEasy} (h : szUrl.any (!validateUrl uri ·) = false) :
    (a.setUrlAndProxy uri easy szUrl szProxyUrl).2 =
      { a with curlHandle := some (optionsSet uri easy szUrl szProxyUrl) } ∧
    failed (a.setUrlAndProxy uri easy szUrl szProxyUrl).1 = !uri.reads szProxyUrl := by
  have hok : failed HResult.S_OK = false := by decide
  unfold setUrlAndProxy setWebProxyFromProxyUrl optionsSet
  rw [if_neg (by simp [h])]
  cases szProxyUrl with
  | none => exact ⟨rfl, hok⟩
  | some p =>
    simp only [UriLib.reads, UriLib.address, UriLib.port]
    cases uri.proxyAddress p with
    | error hr => exact ⟨rfl, by simp [bind, Except.bind]⟩
    | ok address =>
      obtain ⟨address, port⟩ := address
      have hport : (port : Int) ≠ -1 := by omega
      simpa [hport, bind, Except.bind, pure, Except.pure] using hok

/-- A call with a valid URL sets its options, and succeeds if the proxy can be read. -/
theorem createClient_passes (h : urlPasses uri a.curlHandle.isSome szUrl = true) :
    (a.createClient uri szUrl szProxyUrl secs).2 =
      { a with curlHandle := some (optionsSet uri (a.handleFor secs) szUrl szProxyUrl) } ∧
    failed (a.createClient uri szUrl szProxyUrl secs).1 = !uri.reads szProxyUrl := by
  have hvalid : szUrl.any (!validateUrl uri ·) = false := by
    cases szUrl with
    | none => rfl
    | some url => simpa [urlPasses] using h
  unfold createClient handleFor
  cases hc : a.curlHandle with
  | some easy => exact setUrlAndProxy_passes hvalid
  | none =>
    cases szUrl with
    | none => simp [urlPasses, hc] at h
    | some url =>
      have hurl : validateUrl uri url = true := h
      simpa [hurl] using @setUrlAndProxy_passes uri a (some url) szProxyUrl
        { connectTimeout := connectTimeout secs } hvalid

/-- A call without a valid URL changes nothing. -/
theorem createClient_refuses (h : urlPasses uri a.curlHandle.isSome szUrl = false) :
    (a.createClient uri szUrl szProxyUrl secs).2 = a ∧
    failed (a.createClient uri szUrl szProxyUrl secs).1 = true := by
  have hbad : failed HResult.INET_E_INVALID_URL = true := by decide
  have harg : failed HResult.E_INVALIDARG = true := by decide
  unfold createClient
  cases hc : a.curlHandle with
  | some easy =>
    cases szUrl with
    | none => simp [urlPasses, hc] at h
    | some url =>
      have hurl : validateUrl uri url = false := h
      simp only [setUrlAndProxy, Option.any_some, hurl, Bool.not_false, if_true]
      exact ⟨by rw [← hc], hbad⟩
  | none =>
    cases szUrl with
    | none => exact ⟨rfl, harg⟩
    | some url =>
      have hurl : validateUrl uri url = false := h
      simp [hurl, hbad]

/-- The header list a request without, or with, a range is to be sent with. -/
def rangeHeaders : Option String → SList
  | none => .null
  | some range => .list ["Range: bytes=" ++ range]

theorem prepareRequest_passes (h : urlPasses uri a.curlHandle.isSome szUrl = true) :
    (a.prepareRequest uri szUrl szProxyUrl szRange secs).2.curlHandle =
    some { optionsSet uri (a.handleFor secs) szUrl szProxyUrl with
      httpHeader := if uri.reads szProxyUrl then szRange.elim .null fun range =>
      a.requestHeaders.append ("Range: bytes=" ++ range)
        else (a.handleFor secs).httpHeader } ∧
    (a.prepareRequest uri szUrl szProxyUrl szRange secs).2.requestHeaders =
      (if uri.reads szProxyUrl then
        szRange.elim a.requestHeaders.freeAll fun range => a.requestHeaders.append ("Range: bytes=" ++ range)
      else a.requestHeaders) ∧
    failed (a.prepareRequest uri szUrl szProxyUrl szRange secs).1 = !uri.reads szProxyUrl := by
  have hok : failed HResult.S_OK = false := by decide
  obtain ⟨hset, hresult⟩ := @createClient_passes uri a szUrl szProxyUrl secs h
  unfold prepareRequest
  rcases hc : a.createClient uri szUrl szProxyUrl secs with ⟨hr, a'⟩
  rw [hc] at hset hresult
  subst hset
  cases hreads : uri.reads szProxyUrl with
  | true =>
    have hhr : failed hr = false := by simpa [hreads] using hresult
    cases szRange <;> simp [hhr, hok, setRequestHeaders]
  | false =>
    have hhr : failed hr = true := by simpa [hreads] using hresult
    simp [hhr, optionsSet]

theorem prepareRequest_refuses (h : urlPasses uri a.curlHandle.isSome szUrl = false) :
    (a.prepareRequest uri szUrl szProxyUrl szRange secs).2 = a ∧
    failed (a.prepareRequest uri szUrl szProxyUrl szRange secs).1 = true := by
  obtain ⟨hsame, hresult⟩ := @createClient_refuses uri a szUrl szProxyUrl secs h
  unfold prepareRequest
  rcases hc : a.createClient uri szUrl szProxyUrl secs with ⟨hr, a'⟩
  rw [hc] at hsame hresult
  simp only at hsame hresult
  simp [hresult, hsame]

/-! ## Histories -/

/-- What the agent holds of the calls so far. -/
structure Tracks (uri : UriLib) (a : HttpAgent) (s : Asked) : Prop where
  madeWith : a.curlHandle.map (·.connectTimeout) = s.madeWith.map HttpAgent.connectTimeout
  ranges : a.requestHeaders = .null ↔ s.ranges = []
  list : a.requestHeaders ≠ .list []

theorem Tracks.made {s : Asked} (h : Tracks uri a s) : a.curlHandle.isSome = s.madeWith.isSome := by
  have hmade := congrArg Option.isSome h.madeWith
  simpa using hmade

theorem tracks_new : Tracks uri {} {} := ⟨rfl, by simp, by simp⟩

theorem Tracks.call {s : Asked} (h : Tracks uri a s) (c : Call) :
    Tracks uri (a.call uri c) (s.add uri c) := by
  cases c with
  | close => exact h
  | callbacks noted => exact ⟨h.madeWith, h.ranges, h.list⟩
  | sendRequest szUrl szProxyUrl szRange secs =>
    simp only [HttpAgent.call, Asked.add]
    cases hp : urlPasses uri a.curlHandle.isSome szUrl with
    | false =>
      rw [(prepareRequest_refuses hp).1, ← h.made, hp]
      exact h
    | true =>
      obtain ⟨hhandle, hheaders, -⟩ := @prepareRequest_passes uri a szUrl szProxyUrl szRange secs hp
      rw [← h.made, hp, if_pos rfl]
      refine ⟨?_, ?_, ?_⟩
      · rw [hhandle]
        have hmade := h.madeWith
        cases hc : a.curlHandle with
        | none =>
          have hnone : s.madeWith = none := by simpa [hc] using hmade
          simp [optionsSet, handleFor, hc, hnone]
        | some easy =>
          obtain ⟨first, hfirst⟩ : ∃ first, s.madeWith = some first := by
            rw [← Option.isSome_iff_exists, ← h.made, hc]
            rfl
          simpa [optionsSet, handleFor, hc, hfirst] using hmade
      · rw [hheaders]
        cases uri.reads szProxyUrl with
        | false => simpa using h.ranges
        | true =>
          cases szRange <;> cases hl : a.requestHeaders <;> simp [SList.freeAll, SList.append, ← h.ranges, hl]
      · rw [hheaders]
        have hlist := h.list
        cases uri.reads szProxyUrl with
        | false => simpa using hlist
        | true => cases szRange <;> cases hl : a.requestHeaders <;> simp [SList.freeAll, SList.append]

theorem Tracks.after {s : Asked} (h : Tracks uri a s) (calls : List Call) :
    Tracks uri (calls.foldl (HttpAgent.call uri) a) (calls.foldl (Asked.add uri) s) := by
  induction calls generalizing a s with
  | nil => exact h
  | cons c calls ih => exact ih (h.call c)

/-- The header list on the handle is that of the call, and nothing is appended to a freed list. -/
def HeaderListRight (uri : UriLib) (a : HttpAgent) : Call → Prop
  | .sendRequest szUrl szProxyUrl szRange connectTimeoutSecs =>
    failed (a.prepareRequest uri szUrl szProxyUrl szRange connectTimeoutSecs).1 = false →
      (a.prepareRequest uri szUrl szProxyUrl szRange connectTimeoutSecs).2.curlHandle.map (·.httpHeader) =
        some (rangeHeaders szRange) ∧ (szRange.isSome = true → a.requestHeaders ≠ .freed)
  | _ => True

/-- So it is at every call. -/
def HeaderListsRight (uri : UriLib) (a : HttpAgent) : List Call → Prop
  | [] => True
  | c :: calls => HeaderListRight uri a c ∧ HeaderListsRight uri (a.call uri c) calls

/-- A call adds its range to those asked for, if it is let through, and then its list is right only if it is the first. -/
theorem headerListRight_iff {s : Asked} (h : Tracks uri a s) (c : Call) :
    ((s.add uri c).ranges = s.ranges ∧ HeaderListRight uri a c) ∨
      ∃ range, (s.add uri c).ranges = s.ranges ++ [range] ∧ (HeaderListRight uri a c ↔ s.ranges = []) := by
  cases c with
  | close | callbacks => exact .inl ⟨rfl, trivial⟩
  | sendRequest szUrl szProxyUrl szRange secs =>
    simp only [HeaderListRight, Asked.add]
    cases hp : urlPasses uri a.curlHandle.isSome szUrl with
    | false =>
      have hrefused := (@prepareRequest_refuses uri a szUrl szProxyUrl szRange secs hp).2
      rw [← h.made, hp]
      exact .inl ⟨rfl, fun hok => absurd (hrefused.symm.trans hok) Bool.noConfusion⟩
    | true =>
      obtain ⟨hhandle, -, hresult⟩ := @prepareRequest_passes uri a szUrl szProxyUrl szRange secs hp
      rw [← h.made, hp, if_pos rfl, hhandle, hresult, ← h.ranges]
      have hlist := h.list
      cases hreads : uri.reads szProxyUrl with
      | false => exact .inl ⟨by simp, by simp⟩
      | true =>
        cases szRange with
        | none => exact .inl ⟨by simp, by simp [rangeHeaders]⟩
        | some range =>
          refine .inr ⟨range, by simp, ?_⟩
          cases hl : a.requestHeaders with
          | null => simp [SList.append, rangeHeaders]
          | freed => simp [SList.append, rangeHeaders]
          | list items =>
            have hitems : items ≠ [] := fun hnil => hlist (by rw [hl, hnil])
            simp [SList.append, rangeHeaders, hitems]

theorem ranges_le (s : Asked) (calls : List Call) :
    s.ranges.length ≤ (calls.foldl (Asked.add uri) s).ranges.length := by
  induction calls generalizing s with
  | nil => exact Nat.le_refl _
  | cons c calls ih =>
    refine Nat.le_trans ?_ (ih (s.add uri c))
    cases c with
    | close | callbacks => exact Nat.le_refl _
    | sendRequest szUrl szProxyUrl szRange secs =>
      simp only [Asked.add]
      split
      · split <;> simp
      · exact Nat.le_refl _

/-- From any point on: no range, or one more if there was none yet. -/
theorem headerListsRight_from {s : Asked} (h : Tracks uri a s) (calls : List Call) :
    HeaderListsRight uri a calls ↔ (calls.foldl (Asked.add uri) s).ranges.length ≤ max 1 s.ranges.length := by
  induction calls generalizing a s with
  | nil =>
    simp only [HeaderListsRight, List.foldl_nil, true_iff]
    omega
  | cons c calls ih =>
    rw [HeaderListsRight, ih (h.call c), List.foldl_cons]
    have hgrown := @ranges_le uri (s.add uri c) calls
    rcases headerListRight_iff h c with ⟨hsame, hright⟩ | ⟨range, hadded, hright⟩
    · simp [hright, hsame]
    · rw [hadded, List.length_append, List.length_singleton] at hgrown ⊢
      rw [hright]
      by_cases hnone : s.ranges = []
      · simp [hnone]
      · have hpos : 0 < s.ranges.length := List.length_pos_iff.2 hnone
        simp only [hnone, false_and, false_iff]
        omega

/-- **The header list is right as long as one range is asked for at most.** -/
theorem header_list_right_iff (calls : List Call) :
    HeaderListsRight uri {} calls ↔ (asked uri calls).ranges.length ≤ 1 := by
  simpa [asked] using headerListsRight_from (@tracks_new uri) calls

/-- A request for all of a file, and two for what is missing of it after that. -/
def resumedTwice : List Call := [
  .sendRequest (some "http://origin/file") none none 15,
  .sendRequest (some "http://origin/file") none (some "3-9") 15,
  .close,
  .sendRequest (some "http://origin/file") none (some "5-9") 15]

/-- The last of them has both ranges in its list. -/
theorem header_list_wrong_resumedTwice : ¬ HeaderListsRight plainUri {} resumedTwice := by
  rw [headerListsRight_from tracks_new]
  simp [resumedTwice, Asked.add, urlPasses, validateUrl_newDownload, UriLib.reads]

/-! ## The options -/

/-- The connect timeout on the handle a request goes with. -/
theorem Tracks.timeout {s : Asked} (h : Tracks uri a s) (secs : Nat) :
    (a.handleFor secs).connectTimeout = HttpAgent.connectTimeout (s.madeWith.getD secs) := by
  have hmade := h.madeWith
  unfold handleFor
  cases hc : a.curlHandle with
  | none =>
    have hnone : s.madeWith = none := by simpa [hc] using hmade
    rw [hnone]
    rfl
  | some easy =>
    obtain ⟨first, hfirst⟩ : ∃ first, s.madeWith = some first := by
      rw [← Option.isSome_iff_exists, ← h.made, hc]
      rfl
    simpa [hc, hfirst] using hmade

end HttpAgent

end DoClient
