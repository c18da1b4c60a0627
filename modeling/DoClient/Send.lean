/-
What a call of `_SendHttpRequest` comes to: it throws with nothing but the
route of the request changed, or it hands curl one request that starts at
`BytesTransferred`.
-/
import DoClient.Agent

namespace DoClient

open HResult

/-! ## The agent's part -/

/-- The options of a request change the handle only. -/
theorem HttpAgent.setUrlAndProxy_agent {uri : UriLib} {a a' : HttpAgent} {easy : CurlEasy}
    {szUrl proxy : Option String} {hr : HResult} (h : a.setUrlAndProxy uri easy szUrl proxy = (hr, a')) :
    ∃ easy', a' = { a with curlHandle := some easy' } := by
  unfold setUrlAndProxy at h
  split at h
  · exact ⟨_, (Prod.mk.inj h).2.symm⟩
  · simp only at h
    split at h <;> exact ⟨_, (Prod.mk.inj h).2.symm⟩

/-- `_CreateClient` changes the handle only; it fails where there is none after it. -/
theorem HttpAgent.createClient_agent {uri : UriLib} {a a' : HttpAgent} {szUrl proxy : Option String}
    {secs : Nat} {hr : HResult} (h : a.createClient uri szUrl proxy secs = (hr, a')) :
    (a' = a ∧ a.curlHandle = none ∧ failed hr = true) ∨ ∃ easy, a' = { a with curlHandle := some easy } := by
  unfold createClient at h
  split at h
  · exact .inr (setUrlAndProxy_agent h)
  next hnone =>
  split at h
  · obtain ⟨rfl, rfl⟩ := Prod.mk.inj h
    exact .inl ⟨rfl, hnone, by decide⟩
  · split at h
    · obtain ⟨rfl, rfl⟩ := Prod.mk.inj h
      exact .inl ⟨rfl, hnone, by decide⟩
    · exact .inr (setUrlAndProxy_agent h)

/-- Nothing of a response was taken in yet. -/
def HttpAgent.Fresh (a : HttpAgent) : Prop :=
  a.responseOnHeadersAvailableInvoked = false ∧ a.responseHeaders = []

/-- The results an agent keeps of a response, as they were or as a new request sets them. -/
def HttpAgent.ResultsFrom (a a' : HttpAgent) : Prop :=
  a'.hrTranslatedStatusCode = a.hrTranslatedStatusCode ∧ a'.hrCallback = a.hrCallback ∨
    a'.hrTranslatedStatusCode = S_OK ∧ a'.hrCallback = S_OK

/-- What `SendRequest` does up to `Add`: a handle stays, on success there is one and nothing of a response. -/
theorem HttpAgent.prepareRequest_agent {uri : UriLib} {a a' : HttpAgent}
    {szUrl proxy range : Option String} {secs : Nat} {hr : HResult}
    (h : a.prepareRequest uri szUrl proxy range secs = (hr, a')) :
    (a.curlHandle.isSome = true → a'.curlHandle.isSome = true) ∧ a.ResultsFrom a' ∧
    (failed hr = false → a'.curlHandle.isSome = true ∧ a'.Fresh) := by
  rcases hc : a.createClient uri szUrl proxy secs with ⟨hr₁, a₁⟩
  simp only [prepareRequest, hc] at h
  have hsome : (failed hr₁ = false ∨ a.curlHandle.isSome = true) → a₁.curlHandle.isSome = true := by
    intro hok
    rcases createClient_agent hc with ⟨-, hnone, hfailed⟩ | ⟨easy, rfl⟩
    · simp [hnone, hfailed] at hok
    · rfl
  have hresults : a₁.hrTranslatedStatusCode = a.hrTranslatedStatusCode ∧ a₁.hrCallback = a.hrCallback := by
    rcases createClient_agent hc with ⟨rfl, -⟩ | ⟨easy, rfl⟩ <;> exact ⟨rfl, rfl⟩
  split at h
  · next hf =>
    obtain ⟨rfl, rfl⟩ := Prod.mk.inj h
    exact ⟨fun ha => hsome (.inr ha), .inl hresults, fun hok => absurd (hf.symm.trans hok) Bool.noConfusion⟩
  · next hf =>
    obtain ⟨rfl, rfl⟩ := Prod.mk.inj h
    have hset : (a₁.setRequestHeaders range).curlHandle.isSome = a₁.curlHandle.isSome := by
      cases range <;> simp [setRequestHeaders]
    have hready := hsome (.inl (Bool.not_eq_true _ ▸ hf))
    exact ⟨fun _ => hset.trans hready, .inr ⟨rfl, rfl⟩, fun _ => ⟨hset.trans hready, rfl, rfl⟩⟩

/-- What `Add` needs, and what it does. -/
theorem CurlHandle.add_cases {c : CurlHandle} {fKeepRunning : Bool} {t : Transfer}
    {x : Except HResult CurlHandle} (h : c.add fKeepRunning t = x) :
    (∃ hr, x = .error hr ∧ failed hr = true) ∨ c.toAdd = none ∧ x = .ok { c with toAdd := some t } := by
  subst h
  unfold CurlHandle.add
  split
  · exact .inl ⟨_, rfl, by decide⟩
  split
  · exact .inl ⟨_, rfl, by decide⟩
  · next hnone => exact .inr ⟨by simpa using hnone, rfl⟩

/-- What `SendRequest` does to the handle: on success the request waits to be taken up. -/
theorem HttpAgent.sendRequest_handle {uri : UriLib} {a a' : HttpAgent} {c c' : CurlHandle} {running : Bool}
    {url : String} {proxy : Option String} {range : Option ByteRange} {secs : Nat} {hr : HResult}
    (h : a.sendRequest uri c running url proxy range secs = (hr, a', c')) :
    (a.curlHandle.isSome = true → a'.curlHandle.isSome = true) ∧ a.ResultsFrom a' ∧
    if failed hr then c' = c
    else c.toAdd = none ∧
      c' = { c with toAdd := some { url := url, range := range, requestHeaders := a'.headerLines } } ∧
      a'.curlHandle.isSome = true ∧ a'.Fresh := by
  rcases hp : a.prepareRequest uri (some url) proxy (range.map (·.text)) secs with ⟨hr₁, a₁⟩
  simp only [HttpAgent.sendRequest, hp] at h
  obtain ⟨hkeep, hresults, hok⟩ := prepareRequest_agent hp
  split at h
  · next hf =>
    simp only [Prod.mk.injEq] at h
    obtain ⟨rfl, rfl, rfl⟩ := h
    exact ⟨hkeep, hresults, by rw [if_pos hf]⟩
  · next hf =>
    obtain ⟨hsome, hfresh⟩ := hok (by simpa using hf)
    rcases hadd : c.add running { url := url, range := range, requestHeaders := a₁.headerLines } with hr₂ | c₂
    · simp only [hadd, Prod.mk.injEq] at h
      obtain ⟨rfl, rfl, rfl⟩ := h
      obtain ⟨_, herror, hfailed⟩ | ⟨-, hok⟩ := CurlHandle.add_cases hadd
      · rw [Except.error.inj herror, if_pos hfailed]
        exact ⟨hkeep, hresults, rfl⟩
      · cases hok
    · simp only [hadd, Prod.mk.injEq] at h
      obtain ⟨rfl, rfl, rfl⟩ := h
      obtain ⟨_, herror, -⟩ | ⟨hnone, hok⟩ := CurlHandle.add_cases hadd
      · cases herror
      · rw [if_neg (by decide)]
        exact ⟨hkeep, hresults, hnone, Except.ok.inj hok, hsome, hfresh⟩

/-! ## The route -/

/-- `d'` is `d` but for the route of the next request: proxy, cache host, connection type, the agent's own state. -/
def Rerouted (d d' : Download) : Prop :=
  ∃ proxyList mccHost mccFallbackDue allow type n agent, d' = { d with
    proxyList := proxyList, mccHost := mccHost, mccFallbackDue := mccFallbackDue, fAllowMcc := allow
    connectionType := type, numAttemptsWithCurrentConnectionType := n, httpAgent := agent }

theorem Rerouted.refl (d : Download) : Rerouted d d := ⟨_, _, _, _, _, _, _, rfl⟩

theorem Rerouted.trans {d d' d'' : Download} (h : Rerouted d d') (h' : Rerouted d' d'') : Rerouted d d'' := by
  obtain ⟨_, _, _, _, _, _, _, rfl⟩ := h
  obtain ⟨_, _, _, _, _, _, _, rfl⟩ := h'
  exact ⟨_, _, _, _, _, _, _, rfl⟩

theorem rerouted_setConnectionType (d : Download) (type : ConnectionType) :
    Rerouted d (d.setConnectionType type) := by
  unfold Download.setConnectionType
  split <;> exact ⟨_, _, _, _, _, _, _, rfl⟩

theorem setConnectionType_agent (d : Download) (type : ConnectionType) :
    (d.setConnectionType type).httpAgent = d.httpAgent := by
  unfold Download.setConnectionType
  split <;> rfl

/-- Where the next request goes: to the cache host or to the original one. -/
def World.chosenType (uri : UriLib) (retry : Bool) (w : World) : ConnectionType :=
  if usesMcc uri w (nextConnectionType w.dl w.now retry).1 (nextConnectionType w.dl w.now retry).2
    then .mcc else .cdn

/-- `d` is the download of `w` with the route of a request set; `decided` when the choice was made. -/
structure Routed (uri : UriLib) (retry decided : Bool) (w : World) (d : Download) : Prop where
  rerouted : Rerouted w.dl d
  mccHost : d.mccHost = w.dl.mccHost
  mccFallbackDue : d.mccFallbackDue = w.dl.mccFallbackDue
  fAllowMcc : d.fAllowMcc = (nextConnectionType w.dl w.now retry).2
  connectionType :
    d.connectionType = w.chosenType uri retry ∨ decided = false ∧ d.connectionType = w.dl.connectionType
  agent : ∀ a', d.httpAgent = some a' → ∃ a, w.dl.httpAgent = some a ∧ a.ResultsFrom a'

theorem setConnectionType_fields (d : Download) (type : ConnectionType) :
    (d.setConnectionType type).mccHost = d.mccHost ∧
    (d.setConnectionType type).mccFallbackDue = d.mccFallbackDue ∧
      (d.setConnectionType type).fAllowMcc = d.fAllowMcc ∧
      (d.setConnectionType type).connectionType = type := by
  unfold Download.setConnectionType
  split
  · exact ⟨rfl, rfl, rfl, rfl⟩
  · next h => exact ⟨rfl, rfl, rfl, (not_not.1 h).symm⟩

theorem updateConnectionTypeAndGetUrl_run (uri : UriLib) (retry : Bool) (w : World) :
    ∃ res d, updateConnectionTypeAndGetUrl uri retry w = (res, { w with dl := d }) ∧
      Routed uri retry res.isOk w d ∧ d.httpAgent = w.dl.httpAgent := by
  rcases hn : nextConnectionType w.dl w.now retry with ⟨type, allow⟩
  have hallow : Rerouted w.dl { w.dl with fAllowMcc := allow } := ⟨_, _, _, _, _, _, _, rfl⟩
  have hagent : ∀ {d : Download}, d.httpAgent = w.dl.httpAgent → ∀ a', d.httpAgent = some a' →
      ∃ a, w.dl.httpAgent = some a ∧ a.ResultsFrom a' := fun hd a' ha => ⟨a', hd ▸ ha, .inl ⟨rfl, rfl⟩⟩
  simp only [updateConnectionTypeAndGetUrl, DlM.bind_run, DlM.get_run, DlM.modify_run, hn, DlM.ite_run,
    DlM.liftExcept_run, DlM.pure_run]
  have hset : ∀ {decided : Bool} {type : ConnectionType}, type = w.chosenType uri retry →
      Routed uri retry decided w (Download.setConnectionType type { w.dl with fAllowMcc := allow }) :=
        fun {_ type} ht => by
    obtain ⟨hhost, hdue, hal, hty⟩ := setConnectionType_fields { w.dl with fAllowMcc := allow } type
    exact ⟨hallow.trans (rerouted_setConnectionType _ _), hhost, hdue, hal.trans (by rw [hn]),
      .inl (hty.trans ht), hagent (setConnectionType_agent _ _)⟩
  split
  · next hmcc =>
    cases uri.swapUrlHostNameForMCC w.dl.url w.dl.mccHost with
    | error hr => exact ⟨_, _, rfl, ⟨hallow, rfl, rfl, by rw [hn], .inr ⟨rfl, rfl⟩, hagent rfl⟩, rfl⟩
    | ok url =>
      exact ⟨_, _, rfl, hset (by rw [World.chosenType, hn, if_pos hmcc]), setConnectionType_agent _ _⟩
  · next hmcc =>
    exact ⟨_, _, rfl, hset (by rw [World.chosenType, hn, if_neg hmcc]), setConnectionType_agent _ _⟩

/-! ## The request -/

/-- The cache host's URL, where the request goes to the cache host, or the download's. -/
def World.route (uri : UriLib) (retry : Bool) (w : World) : Except HResult String :=
  if usesMcc uri w (nextConnectionType w.dl w.now retry).1 (nextConnectionType w.dl w.now retry).2 then
    uri.swapUrlHostNameForMCC w.dl.url w.dl.mccHost
  else .ok w.dl.url

theorem updateConnectionTypeAndGetUrl_route (uri : UriLib) (retry : Bool) (w : World) :
    (updateConnectionTypeAndGetUrl uri retry w).1 = w.route uri retry := by
  rcases hn : nextConnectionType w.dl w.now retry with ⟨type, allow⟩
  simp only [updateConnectionTypeAndGetUrl, World.route, DlM.bind_run, DlM.get_run, DlM.modify_run, hn,
    DlM.ite_run, DlM.liftExcept_run, DlM.pure_run]
  split
  · cases uri.swapUrlHostNameForMCC w.dl.url w.dl.mccHost <;> rfl
  · rfl

/-- What `_SendHttpRequest` asks for: of the URL it chose, the bytes not yet there. -/
structure Asks (uri : UriLib) (retry : Bool) (w : World) (r : IssuedRequest) : Prop where
  url : w.route uri retry = .ok r.url
  startOffset : r.startOffset = w.dl.status.bytesTransferred
  fileLength : r.fileLength = w.fileLength
  time : r.time = w.now

theorem makeRange_first {start len : Nat} {r : ByteRange} (h : makeRange start len = .ok r) :
    r.first = start := by
  simp only [makeRange] at h
  cases ha : uint64Add start len with
  | error e => rw [ha] at h; cases h
  | ok e =>
    rw [ha] at h
    cases hs : uint64Sub e 1 with
    | error e => simp [bind, Except.bind, hs] at h
    | ok last =>
      simp [bind, Except.bind, hs, pure, Except.pure] at h
      rw [← h]

theorem rangeToRequest_start {s : DownloadStatus} {range : Option ByteRange}
    (h : rangeToRequest s = .ok range) :
    rangeStart range = s.bytesTransferred := by
  unfold rangeToRequest at h
  split at h
  · next h0 =>
    simp only [Except.ok.injEq] at h
    rw [← h, h0, rangeStart]
  · cases hm : makeRange s.bytesTransferred (wrap64 (s.bytesTotal + 2 ^ 64 - s.bytesTransferred)) with
    | error e => rw [hm] at h; cases h
    | ok r =>
      rw [hm] at h
      simp only [Except.map, Except.ok.injEq] at h
      rw [← h]
      exact makeRange_first hm

/-- `_SendHttpRequest` throws, nothing but the route changed, or hands over one request for the bytes not yet there. -/
theorem sendHttpRequest_run (uri : UriLib) (o : Outside) (retry : Bool) {w : World} {a : HttpAgent}
    (ha : w.dl.httpAgent = some a) :
    ∃ decided d a', Routed uri retry decided w d ∧ d.httpAgent = some a' ∧
      (a.curlHandle.isSome = true → a'.curlHandle.isSome = true) ∧
      ((∃ hr called, (called = false → a' = a) ∧ sendHttpRequest uri o retry w = (.error hr, { w with
          dl := d, overlaps := w.overlaps + if called = true then w.curl.outstanding.toNat else 0 })) ∨
      decided = true ∧ ∃ r : IssuedRequest, w.curl.toAdd = none ∧ Asks uri retry w r ∧
        a'.curlHandle.isSome = true ∧ a'.Fresh ∧
        sendHttpRequest uri o retry w = (.ok (), noteRequestSent { w with
          dl := d, curl := { w.curl with toAdd := some r.transfer }
          requests := r :: w.requests, overlaps := w.overlaps + w.curl.outstanding.toNat })) := by
  rcases hp : w.dl.proxyList.next with ⟨proxy, proxyList⟩
  have hproxy : Rerouted w.dl { w.dl with proxyList := proxyList } := ⟨_, _, _, _, _, _, _, rfl⟩
  obtain ⟨res, d, hurl, hd, hagent⟩ :=
    updateConnectionTypeAndGetUrl_run uri retry { w with dl := { w.dl with proxyList := proxyList } }
  replace hd : Routed uri retry res.isOk w d :=
    ⟨hproxy.trans hd.rerouted, hd.mccHost, hd.mccFallbackDue, hd.fAllowMcc, hd.connectionType, hd.agent⟩
  simp only [sendHttpRequest, DlM.bind_run, DlM.get_run, DlM.modify_run, hp, World.updateDl, hurl]
  have ha' : d.httpAgent = some a := hagent.trans ha
  cases res with
  | error hr => exact ⟨false, d, a, hd, ha', id, .inl ⟨hr, false, fun _ => rfl, by simp⟩⟩
  | ok url =>
    have hstatus : d.status = w.dl.status ∧ d.destFilePath = w.dl.destFilePath := by
      obtain ⟨_, _, _, _, _, _, _, rfl⟩ := hd.rerouted
      exact ⟨rfl, rfl⟩
    simp only [DlM.liftExcept_run]
    cases hrange : rangeToRequest d.status with
    | error hr => exact ⟨true, d, a, hd, ha', id, .inl ⟨hr, false, fun _ => rfl, by simp⟩⟩
    | ok range =>
      simp only [sendRequest, ha']
      rcases hs :
        a.sendRequest uri w.curl o.fKeepRunning url (if proxy.isEmpty = true then none else some proxy) range
        (if d.connectionType = .mcc then 3 else 15) with ⟨hr, a', c'⟩
      obtain ⟨hkeep, hresults, hc⟩ := HttpAgent.sendRequest_handle hs
      have hd' : Routed uri retry true w { d with httpAgent := some a' } := by
        refine ⟨hd.rerouted.trans ⟨_, _, _, _, _, _, _, rfl⟩, hd.mccHost, hd.mccFallbackDue, hd.fAllowMcc,
          hd.connectionType, ?_⟩
        rintro _ ⟨⟩
        exact ⟨a, ha, hresults⟩
      refine ⟨true, { d with httpAgent := some a' }, a', hd', rfl, hkeep, ?_⟩
      split at hc
      · next hf =>
        subst hc
        exact .inl ⟨hr, true, nofun, by simp [hf, DlM.throwIfFailed_run, World.updateDl]⟩
      · next hf =>
        obtain ⟨htoAdd, rfl, hsome, hfresh⟩ := hc
        refine .inr ⟨rfl,
          ⟨url, range, a'.headerLines, if d.connectionType = .mcc then 3 else 15, w.now, w.fileLength⟩,
            htoAdd, ⟨?_, ?_, rfl, rfl⟩, hsome, hfresh, ?_⟩
        · have hroute :=
            updateConnectionTypeAndGetUrl_route uri retry
              { w with dl := { w.dl with proxyList := proxyList } }
          rw [hurl] at hroute
          exact hroute.symm
        · exact (rangeToRequest_start hrange).trans (by rw [hstatus.1])
        · simp [hf, DlM.throwIfFailed_run, World.updateDl, World.fileLength, hstatus.2,
            IssuedRequest.transfer]

/-! ## A request that goes through -/

/-- A request without proxy and range, of a handle without headers, for a URL that is valid. -/
theorem HttpAgent.sendRequest_valid {uri : UriLib} {a : HttpAgent} {easy : CurlEasy} {c : CurlHandle}
    {url : String} {secs : Nat} (hc : c.toAdd = none) (ha : a.curlHandle = some easy)
    (hheaders : a.requestHeaders = .null) (hurl : validateUrl uri url = true) :
    a.sendRequest uri c true url none none secs =
      (S_OK, { curlHandle := some { easy with url := url, proxy := "", httpHeader := .null } },
        { c with toAdd := some { url := url, range := none } }) := by
  have hok : failed S_OK = false := by decide
  simp [sendRequest, prepareRequest, createClient, ha, setUrlAndProxy, hurl, setWebProxyFromProxyUrl,
    CurlHandle.add, hc, setRequestHeaders, SList.freeAll, SList.lines, headerLines, hheaders, hok]

/-- The first request of an agent makes the handle. -/
theorem HttpAgent.sendRequest_first {uri : UriLib} {c : CurlHandle} {url : String} {secs : Nat}
    (hc : c.toAdd = none) (hurl : validateUrl uri url = true) :
    HttpAgent.sendRequest uri {} c true url none none secs =
      (S_OK, { curlHandle := some { url := url, connectTimeout := connectTimeout secs } },
        { c with toAdd := some { url := url, range := none } }) := by
  have hok : failed S_OK = false := by decide
  simp [sendRequest, prepareRequest, createClient, setUrlAndProxy, hurl, setWebProxyFromProxyUrl,
    CurlHandle.add, hc, setRequestHeaders, SList.freeAll, SList.lines, headerLines, hok]

/-- Without a proxy and from the first byte on, a call of `_SendHttpRequest` does what its parts do. -/
theorem sendHttpRequest_whole {uri : UriLib} (o : Outside) {retry : Bool} {w w₁ : World} {a a' : HttpAgent}
    {c' : CurlHandle} {url : String} (hproxy : w.dl.proxyList.candidateProxies = [])
    (hchoose : updateConnectionTypeAndGetUrl uri retry w = (.ok url, w₁))
    (hbytes : w₁.dl.status.bytesTransferred = 0) (ha : w₁.dl.httpAgent = some a)
    (hsend : a.sendRequest uri w₁.curl o.fKeepRunning url none none
      (if w₁.dl.connectionType = .mcc then 3 else 15) = (S_OK, a', c')) :
    sendHttpRequest uri o retry w = (.ok (), noteRequestSent { w₁ with
      dl := { w₁.dl with httpAgent := some a' }, curl := c'
      overlaps := w₁.overlaps + w₁.curl.outstanding.toNat
      requests := ⟨url, none, a'.headerLines, if w₁.dl.connectionType = .mcc then 3 else 15, w₁.now,
        w₁.fileLength⟩ :: w₁.requests }) := by
  have hnext : w.dl.proxyList.next = ("", w.dl.proxyList) := by
    simp [ProxyList.next, hproxy]
  have hempty : "".isEmpty = true := rfl
  have hok : failed S_OK = false := by decide
  simp only [sendHttpRequest, DlM.bind_run, DlM.get_run, DlM.modify_run, DlM.liftExcept_run, hnext, hempty,
    if_true, World.updateDl, hchoose, rangeToRequest, hbytes, sendRequest, ha, hsend, hok, Bool.false_eq_true,
    if_false, DlM.throwIfFailed_run]
  rfl

end DoClient
