/-
What escapes from a task of the task thread: a task that is not a client's
request has no handler around it, and the one thing in it that can throw, with
files that close, is `_SendHttpRequest`. When it does: exactly, for every state
the agent reaches, and how a response that declares no length leads there.
-/
import DoClient.Steps

namespace DoClient

open HResult

variable {uri : UriLib} {o : Outside} {w w' : World} {e : Event}

/-! ## Sizes -/

/-- The counters of a life are 64-bit numbers, also those still to come. -/
structure Life.Sized (l : Life) : Prop where
  bytesTotal : l.bytesTotal < 2 ^ 64
  bytesTransferred : l.bytesTransferred < 2 ^ 64
  updates : ∀ n, Update.headers n ∈ l.updates → n < 2 ^ 64

/-- An act that leaves the counters alone and puts only sized updates in the queue. -/
theorem Life.Sized.frame {l l' : Life} (h : l.Sized) (ht : l'.bytesTotal = l.bytesTotal)
    (hb : l'.bytesTransferred = l.bytesTransferred)
    (hu : ∀ n, Update.headers n ∈ l'.updates → Update.headers n ∈ l.updates ∨ n < 2 ^ 64) : l'.Sized :=
  ⟨ht ▸ h.bytesTotal, hb ▸ h.bytesTransferred, fun n hn => (hu n hn).elim (h.updates n) id⟩

theorem Life.Sized.apply {l : Life} {a : Act} (h : l.Sized) (he : l.Enabled a) : (l.apply a).Sized := by
  have htail : ∀ n, Update.headers n ∈ l.updates.tail → Update.headers n ∈ l.updates ∨ n < 2 ^ 64 :=
    fun n hn => .inl (List.mem_of_mem_tail hn)
  have hnew : ∀ {bytesTotal : Option Nat} {us : List Update}, (∀ m ∈ bytesTotal, m < 2 ^ 64) →
      (∀ n, Update.headers n ∉ us) →
        ∀ n, Update.headers n ∈ l.updates ++ (bytesTotal.map Update.headers).toList ++ us →
      Update.headers n ∈ l.updates ∨ n < 2 ^ 64 := by
    intro bytesTotal us hlt hus n hn
    simp only [List.mem_append] at hn
    rcases hn with (hn | hn) | hn
    · exact .inl hn
    · cases bytesTotal with
      | none => simp at hn
      | some m =>
        obtain rfl : n = m := by simpa using hn
        exact .inr (hlt n rfl)
    · exact absurd hn (hus n)
  cases a with
  | send t | sendFailed t => cases t <;> exact h.frame rfl rfl fun n hn => .inl hn
  | write bytesTotal chunk n ok => exact h.frame rfl rfl (hnew he.2.2.2.2 (by cases ok <;> simp))
  | complete bytesTotal ok => exact h.frame rfl rfl (hnew he.2 (by cases ok <;> simp))
  | headers bytesTotal =>
    refine ⟨h.updates bytesTotal (List.mem_of_head? he.1), h.bytesTransferred, fun n hn => ?_⟩
    exact h.updates n (List.mem_of_mem_tail hn)
  | data cbData => exact ⟨h.bytesTotal, wrap64_lt _, fun n hn => h.updates n (List.mem_of_mem_tail hn)⟩
  | completed | failedOffline | failedRetry => exact h.frame rfl rfl htail
  | failedFatal isClosed => cases isClosed <;> exact h.frame rfl rfl htail
  | finalized => exact h.frame rfl rfl nofun
  | aborted cancelled file =>
    cases cancelled with
    | true => exact h.frame rfl rfl nofun
    | false => exact h.frame rfl rfl fun n hn => .inl hn
  | _ => exact h.frame rfl rfl fun n hn => .inl hn

theorem sized_reachable (h : Trans.Reachable (agent uri) w) : w.life.Sized := by
  refine h.invariant_of (Good uri) (fun _ hr => good_reachable hr) (fun w => w.life.Sized) (fun w hi => ?_)
    fun w e w' hg _ hz _ hs => ?_
  · rw [life_initial hi]
    exact ⟨by decide, by decide, nofun⟩
  · obtain ⟨-, a, -, hen, -, hl⟩ := step_leads hg hs
    rw [hl]
    exact hz.apply hen

/-! ## `_SendHttpRequest` -/

theorem wrap64_add (n : Nat) : wrap64 (n + 2 ^ 64) = wrap64 n := Nat.add_mod_right n (2 ^ 64)

theorem makeRange_of_le {start total : Nat} (h : start ≤ total) (h0 : 0 < start) (ht : total < 2 ^ 64) :
    makeRange start (total - start) = .ok ⟨start, total - 1⟩ := by
  have hadd : uint64Add start (total - start) = .ok total := by
    rw [uint64Add, Nat.add_sub_cancel' h, wrap64_of_lt ht, if_neg (Nat.not_lt_of_le h)]
  have hsub : uint64Sub total 1 = .ok (total - 1) := if_neg (by omega)
  simp only [makeRange, hadd, hsub, bind, Except.bind, pure, Except.pure]

/-- The length asked for wraps around, and the sum with the start back. -/
theorem makeRange_of_lt {start total : Nat} (h : total < start) (hs : start < 2 ^ 64) :
    makeRange start (total + 2 ^ 64 - start) = .error INTSAFE_E_ARITHMETIC_OVERFLOW := by
  have hend : start + (total + 2 ^ 64 - start) = total + 2 ^ 64 :=
    Nat.add_sub_cancel' (Nat.le_of_lt (Nat.lt_of_lt_of_le hs (Nat.le_add_left _ _)))
  have hadd : uint64Add start (total + 2 ^ 64 - start) = .error INTSAFE_E_ARITHMETIC_OVERFLOW := by
    rw [uint64Add, hend, wrap64_add, wrap64_of_lt (Nat.lt_trans h hs), if_pos h]
  rw [makeRange, hadd]
  rfl

/-- The range asked for can be put down as one unless more was transferred than there is. -/
theorem rangeToRequest_ok_iff {s : DownloadStatus} (ht : s.bytesTotal < 2 ^ 64)
    (hb : s.bytesTransferred < 2 ^ 64) :
    (∃ range, rangeToRequest s = .ok range) ↔ s.bytesTransferred = 0 ∨ s.bytesTransferred ≤ s.bytesTotal := by
  unfold rangeToRequest
  split
  · next h0 => exact iff_of_true ⟨_, rfl⟩ (.inl h0)
  next h0 =>
  rw [or_iff_right h0]
  by_cases hle : s.bytesTransferred ≤ s.bytesTotal
  · have hlen : wrap64 (s.bytesTotal + 2 ^ 64 - s.bytesTransferred) = s.bytesTotal - s.bytesTransferred := by
      rw [Nat.sub_add_comm hle, wrap64_add, wrap64_of_lt (by omega)]
    rw [hlen, makeRange_of_le hle (Nat.pos_of_ne_zero h0) ht]
    exact iff_of_true ⟨_, rfl⟩ hle
  · have hlt : s.bytesTotal < s.bytesTransferred := Nat.lt_of_not_le hle
    have hlen :
      wrap64 (s.bytesTotal + 2 ^ 64 - s.bytesTransferred) = s.bytesTotal + 2 ^ 64 - s.bytesTransferred :=
      wrap64_of_lt (by omega)
    rw [hlen, makeRange_of_lt hlt hb]
    exact iff_of_false nofun hle

/-- The proxy's address can be told. -/
def UriLib.Resolves (uri : UriLib) (proxy : String) : Prop :=
  ∀ hr, uri.proxyAddress proxy = .error hr → failed hr = false

theorem HttpAgent.setWebProxyFromProxyUrl_ok_iff {easy : CurlEasy} {proxy : Option String} :
    (∀ hr, setWebProxyFromProxyUrl uri easy proxy = .error hr → failed hr = false) ↔
    ∀ p ∈ proxy, uri.Resolves p := by
  unfold setWebProxyFromProxyUrl
  cases proxy with
  | none => simp
  | some p =>
    cases hp : uri.proxyAddress p with
    | error hr => simp [UriLib.Resolves, hp, bind, Except.bind]
    | ok address =>
      obtain ⟨address, port⟩ := address
      have hport : (port : Int) ≠ -1 := by omega
      simp [UriLib.Resolves, hp, bind, Except.bind, pure, Except.pure, hport]

theorem HttpAgent.setUrlAndProxy_ok_iff {a : HttpAgent} {easy : CurlEasy} {szUrl proxy : Option String} :
    failed (a.setUrlAndProxy uri easy szUrl proxy).1 = false ↔
      (∀ url ∈ szUrl, validateUrl uri url = true) ∧ ∀ p ∈ proxy, uri.Resolves p := by
  have hbad : failed INET_E_INVALID_URL = true := by decide
  have hok : failed S_OK = false := by decide
  have hvalid : (∀ url ∈ szUrl, validateUrl uri url = true) ↔ szUrl.any (!validateUrl uri ·) = false := by
    cases szUrl <;> simp
  rw [hvalid, ← @setWebProxyFromProxyUrl_ok_iff uri { easy with url := szUrl.getD easy.url }]
  unfold setUrlAndProxy
  cases szUrl.any (!validateUrl uri ·) with
  | true => simp [hbad]
  | false =>
    simp only [Bool.false_eq_true, if_false, true_and]
    cases setWebProxyFromProxyUrl uri { easy with url := szUrl.getD easy.url } proxy <;> simp [hok]

/-- A request with a URL gets its handle if the URL is valid and the proxy's address can be told. -/
theorem HttpAgent.createClient_ok_iff {a : HttpAgent} {url : String} {proxy : Option String} {secs : Nat} :
    failed (a.createClient uri (some url) proxy secs).1 = false ↔
      validateUrl uri url = true ∧ ∀ p ∈ proxy, uri.Resolves p := by
  have hbad : failed INET_E_INVALID_URL = true := by decide
  unfold createClient
  cases a.curlHandle with
  | some easy => simpa using @setUrlAndProxy_ok_iff uri a easy (some url) proxy
  | none =>
    cases hvalid : validateUrl uri url with
    | false => simp [hvalid, hbad]
    | true =>
      simpa [hvalid] using @setUrlAndProxy_ok_iff uri a { connectTimeout := connectTimeout secs }
        (some url) proxy

theorem HttpAgent.prepareRequest_ok_iff {a : HttpAgent} {szUrl proxy range : Option String} {secs : Nat} :
    failed (a.prepareRequest uri szUrl proxy range secs).1 = false ↔
      failed (a.createClient uri szUrl proxy secs).1 = false := by
  have hok : failed S_OK = false := by decide
  unfold prepareRequest
  rcases a.createClient uri szUrl proxy secs with ⟨hr, a'⟩
  cases hf : failed hr <;> simp [hf, hok]

theorem HttpAgent.sendRequest_ok_iff {a : HttpAgent} {c : CurlHandle} {running : Bool} {url : String}
    {proxy : Option String} {range : Option ByteRange} {secs : Nat} :
    failed (a.sendRequest uri c running url proxy range secs).1 = false ↔
      validateUrl uri url = true ∧ (∀ p ∈ proxy, uri.Resolves p) ∧ running = true ∧ c.toAdd = none := by
  have hexists : failed ERROR_ALREADY_EXISTS = true := by decide
  have hstopped : failed E_NOT_VALID_STATE = true := by decide
  have hok : failed S_OK = false := by decide
  rw [← and_assoc, ← @createClient_ok_iff uri a url proxy secs,
    ← @prepareRequest_ok_iff uri a (some url) proxy (range.map (·.text)) secs]
  rcases hp : a.prepareRequest uri (some url) proxy (range.map (·.text)) secs with ⟨hr, a'⟩
  simp only [sendRequest, hp, CurlHandle.add]
  cases hf : failed hr with
  | true => simp [hf]
  | false => cases running <;> cases c.toAdd <;> simp [hstopped, hexists, hok]

/-- What `_SendHttpRequest` needs not to throw. -/
structure CanSend (uri : UriLib) (o : Outside) (retry : Bool) (w : World) : Prop where
  /-- No more was transferred than there is, by the counters. -/
  range : w.dl.status.bytesTransferred = 0 ∨ w.dl.status.bytesTransferred ≤ w.dl.status.bytesTotal
  /-- A request to the cache host has a valid URL. -/
  cacheHost :
    usesMcc uri w (nextConnectionType w.dl w.now retry).1 (nextConnectionType w.dl w.now retry).2 = true →
    ∃ url, uri.swapUrlHostNameForMCC w.dl.url w.dl.mccHost = .ok url ∧ validateUrl uri url = true
  proxy : w.dl.proxyList.next.1.isEmpty = false → uri.Resolves w.dl.proxyList.next.1
  /-- `CurlRequests` is not being destroyed. -/
  running : o.fKeepRunning = true
  /-- The last request handed to curl is not still waiting to be taken up. -/
  taken : w.curl.toAdd = none

theorem canSend_iff_route {retry : Bool} (hurl : validateUrl uri w.dl.url = true) :
    (∃ url, w.route uri retry = .ok url ∧ validateUrl uri url = true) ↔
      (usesMcc uri w (nextConnectionType w.dl w.now retry).1 (nextConnectionType w.dl w.now retry).2 = true →
        ∃ url, uri.swapUrlHostNameForMCC w.dl.url w.dl.mccHost = .ok url ∧ validateUrl uri url = true) := by
  unfold World.route
  split
  · next hmcc => exact ⟨fun h _ => h, fun h => h hmcc⟩
  · next hmcc => exact iff_of_true ⟨_, rfl, hurl⟩ fun h => absurd h hmcc

/-- **When `_SendHttpRequest` does not throw.** -/
theorem sendHttpRequest_ok_iff {retry : Bool} {a : HttpAgent} (ha : w.dl.httpAgent = some a)
    (hurl : validateUrl uri w.dl.url = true) (hz : w.life.Sized) :
    (sendHttpRequest uri o retry w).1 = .ok () ↔ CanSend uri o retry w := by
  rcases hp : w.dl.proxyList.next with ⟨proxy, proxyList⟩
  obtain ⟨res, d, hrun, hd, hagent⟩ :=
    updateConnectionTypeAndGetUrl_run uri retry { w with dl := { w.dl with proxyList := proxyList } }
  have hroute : res = w.route uri retry := by
    rw [← show (res, _).1 = res from rfl, ← hrun]
    exact updateConnectionTypeAndGetUrl_route uri retry _
  have hstatus : d.status = w.dl.status := by
    obtain ⟨_, _, _, _, _, _, _, rfl⟩ := hd.rerouted
    rfl
  have hneeds :
    CanSend uri o retry w ↔
      (w.dl.status.bytesTransferred = 0 ∨ w.dl.status.bytesTransferred ≤ w.dl.status.bytesTotal) ∧
      (∃ url, w.route uri retry = .ok url ∧ validateUrl uri url = true) ∧
      (proxy.isEmpty = false → uri.Resolves proxy) ∧ o.fKeepRunning = true ∧ w.curl.toAdd = none := by
    rw [canSend_iff_route hurl]
    have hproxy : w.dl.proxyList.next.1 = proxy := by rw [hp]
    exact ⟨fun h => ⟨h.range, h.cacheHost, hproxy ▸ h.proxy, h.running, h.taken⟩,
      fun h => ⟨h.1, h.2.1, hproxy ▸ h.2.2.1, h.2.2.2.1, h.2.2.2.2⟩⟩
  rw [hneeds, ← rangeToRequest_ok_iff hz.bytesTotal hz.bytesTransferred, ← hroute]
  have hszProxy : (∀ p ∈ (if proxy.isEmpty = true then none else some proxy), uri.Resolves p) ↔
      (proxy.isEmpty = false → uri.Resolves proxy) := by
    cases proxy.isEmpty <;> simp
  simp only [sendHttpRequest, DlM.bind_run, DlM.get_run, DlM.modify_run, hp, World.updateDl, hrun,
    DlM.liftExcept_run]
  cases res with
  | error hr => simp
  | ok url =>
    simp only [hstatus]
    cases rangeToRequest w.dl.status with
    | error hr => simp
    | ok range =>
      have ha' : d.httpAgent = some a := hagent.trans ha
      simp only [sendRequest, ha']
      rcases hsend :
        a.sendRequest uri w.curl o.fKeepRunning url (if proxy.isEmpty = true then none else some proxy) range
        (if d.connectionType = .mcc then 3 else 15) with ⟨hr, a', c'⟩
      have hok : failed hr = false ↔
          validateUrl uri url = true ∧ (proxy.isEmpty = false → uri.Resolves proxy) ∧
            o.fKeepRunning = true ∧ w.curl.toAdd = none := by
        rw [← hszProxy, ← HttpAgent.sendRequest_ok_iff, hsend]
      cases hf : failed hr with
      | true =>
        refine iff_of_false ?_ fun h => ?_
        · simp [hf, DlM.throwIfFailed_run]
        · obtain ⟨-, ⟨_, ⟨⟩, hvalid⟩, hproxy, hrest⟩ := h
          exact absurd (hf.symm.trans (hok.2 ⟨hvalid, hproxy, hrest⟩)) Bool.noConfusion
      | false =>
        obtain ⟨hvalid, hproxy, hrest⟩ := hok.1 hf
        refine iff_of_true ?_ ⟨⟨range, rfl⟩, ⟨url, rfl, hvalid⟩, hproxy, hrest⟩
        simp [hf, DlM.throwIfFailed_run]

/-! ## Tasks -/

/-- The request a task sends of its own accord: `some retry` when it calls `_SendHttpRequest(retry)`. -/
def Op.sends (w : World) (o : Outside) : Op → Option Bool
  | .retry => if w.dl.status.state = .transferring ∧ ¬ w.dl.fHttpRequestActive then some true else none
  | .transientTimer => if o.hasViableInterface && w.dl.status.isTransientError then some false else none
  | _ => none

/-- A task that sends a request finds nothing that keeps it from doing so. -/
def SendsUnhindered (uri : UriLib) (w : World) : Event → Prop
  | .run o => ∀ op ∈ w.nextOp, ∀ retry ∈ op.sends w o, CanSend uri o retry w
  | _ => True

/-- Files close. -/
def ClosesFiles : Event → Prop
  | .run o => o.closeErr = none
  | _ => True

theorem unguarded_terminated {r : Except HResult Unit × World} (h : r.2.terminated = false) :
    (unguarded r).terminated = false ↔ r.1 = .ok () := by
  obtain ⟨res, w'⟩ := r
  cases res with
  | ok => exact iff_of_true h rfl
  | error => exact iff_of_false Bool.noConfusion nofun

theorem sendHttpRequest_terminated {retry : Bool} {a : HttpAgent} (ha : w.dl.httpAgent = some a) :
    (sendHttpRequest uri o retry w).2.terminated = w.terminated := by
  obtain ⟨decided, d, a', hd, ha', hh, ⟨hr, called, hsame, hrun⟩ |
    ⟨-, r, -, -, -, -, hrun⟩⟩ := sendHttpRequest_run uri o retry ha
  · rw [hrun]
  · rw [hrun, noteRequestSent]
    obtain ⟨q, -, hq⟩ := schedProgressTracking_run (({ w with
      dl := d, curl := { w.curl with toAdd := some r.transfer }
      requests := r :: w.requests, overlaps := w.overlaps + w.curl.outstanding.toNat }).updateDl
        (·.requestSent))
    rw [hq]
    rfl

/-- A task that sends a request ends the agent unless the request can be sent. -/
theorem unguarded_send (hg : Good uri w) (hz : w.life.Sized) (hw : w.terminated = false)
    (hne : w.requests ≠ []) (retry : Bool) :
    (unguarded (sendHttpRequest uri o retry w)).terminated = false ↔ CanSend uri o retry w := by
  obtain ⟨a, ha⟩ := Option.isSome_iff_exists.1 (hg.agent hne)
  rw [unguarded_terminated ((sendHttpRequest_terminated ha).trans hw)]
  exact sendHttpRequest_ok_iff ha (hg.validUrl hne) hz

theorem unguarded_then_status (x : DlM Unit) (f : DownloadStatus → DownloadStatus) (w : World) :
    (unguarded ((x >>= fun _ => DlM.modify (·.updateStatus f)) w)).terminated =
    (unguarded (x w)).terminated := by
  rw [DlM.bind_run]
  rcases x w with ⟨_ | _, _⟩ <;> rfl

theorem runTask_sends (hg : Good uri w) (hz : w.life.Sized) (hw : w.terminated = false)
    (hne : w.requests ≠ []) {op : Op} (hop : op = .retry ∨ op = .transientTimer) :
    (runTask uri o op w).terminated = false ↔ ∀ retry ∈ op.sends w o, CanSend uri o retry w := by
  rcases hop with rfl | rfl
  · simp only [runTask, runOp, Op.sends, DlM.bind_run, DlM.get_run, DlM.ite_run, DlM.pure_run]
    split
    · rw [unguarded_send hg hz hw hne]
      simp
    · exact iff_of_true hw (by simp)
  · simp only [runTask, runOp, Op.sends]
    cases hv : o.hasViableInterface with
    | false => exact iff_of_true hw (by simp)
    | true =>
      simp only [resumeAfterTransientError, DlM.bind_run, DlM.get_run, DlM.ite_run, DlM.pure_run, if_true,
        Bool.true_and]
      split
      · have hsend := unguarded_send (o := o) hg hz hw hne false
        rw [← unguarded_then_status _ (·.transferring)] at hsend
        simpa using hsend
      · exact iff_of_true hw (by simp)

/-- **When a step ends the agent**, with files that close. -/
theorem step_terminated_iff (hg : Good uri w) (hz : w.life.Sized) (h : step uri w e = some w')
    (hc : ClosesFiles e) :
    w'.terminated = false ↔ SendsUnhindered uri w e := by
  obtain ⟨hw, a, hdoes, hen, -, hl⟩ := step_leads hg h
  have hkeep : (w.life.apply a).terminated = false → w'.terminated = false := fun ha => by
    rw [← hl] at ha
    exact ha
  cases e with
  | tick | request | foreign =>
    obtain rfl : a = .idle := hdoes
    exact iff_of_true (hkeep hw) trivial
  | drain =>
    obtain ⟨lost, rfl⟩ := hdoes
    exact iff_of_true (hkeep hw) trivial
  | curl c =>
    refine iff_of_true (hkeep ?_) trivial
    cases c with
    | status | header =>
      obtain rfl := hdoes
      exact hw
    | write =>
      obtain ⟨bytesTotal, n, ok, rfl, -⟩ := hdoes
      exact hw
    | complete =>
      rcases hdoes with rfl | ⟨bytesTotal, ok, rfl, -⟩
      exacts [hw, hw]
  | run o =>
    obtain ⟨op, hop, hdoes⟩ := hdoes
    have hc : o.closeErr = none := hc
    have hall : SendsUnhindered uri w (.run o) ↔ ∀ retry ∈ op.sends w o, CanSend uri o retry w := by
      refine ⟨fun h => h op hop, fun h op' hop' => ?_⟩
      obtain rfl := Option.some.inj (hop.symm.trans hop')
      exact h
    have hsends : (op = .retry ∨ op = .transientTimer) →
        (w'.terminated = false ↔ ∀ retry ∈ op.sends w o, CanSend uri o retry w) := fun hown => by
      obtain ⟨task, q, hpop, hop', rfl⟩ := step_run_some h
      obtain rfl := Option.some.inj (hop.symm.trans hop')
      obtain ⟨due, -, hmem⟩ := TaskQueue.exists_of_pop hpop
      have hne := hg.issued_of_own hmem (by rcases hown with hown | hown <;> simp [hown, Op.own, Op.tag])
      have hz₁ : World.life { w with taskQ := q } |>.Sized := by
        refine ⟨hz.bytesTotal, hz.bytesTransferred, fun n hn => hz.updates n ?_⟩
        simp only [World.life, TaskQueue.updates_pop hpop]
        exact List.mem_append_right _ hn
      have hsame : Op.sends { w with taskQ := q } o task.op = task.op.sends w o := by
        rcases hown with hown | hown <;> rw [hown] <;> rfl
      rw [runTask_sends (hg.popped hpop) hz₁ hw hne hown, hsame]
      exact forall₂_congr fun retry _ => ⟨fun h => ⟨h.range, h.cacheHost, h.proxy, h.running, h.taken⟩,
        fun h => ⟨h.range, h.cacheHost, h.proxy, h.running, h.taken⟩⟩
    rw [hall]
    cases op with
    | retry => exact hsends (.inl rfl)
    | transientTimer => exact hsends (.inr rfl)
    | client r =>
      refine iff_of_true (hkeep ?_) (by rintro _ ⟨⟩)
      cases r with
      | start =>
        rcases hdoes with rfl | rfl | ⟨r, rfl | rfl⟩ | ⟨called, terminates, ht, rfl | rfl⟩
        · exact hw
        · exact hw
        · exact hw
        · exact hw
        · simpa [Life.apply, hc] using ht
        · simpa [Life.apply, hc] using ht
      | pause =>
        rcases hdoes with rfl | rfl | ⟨he, rfl⟩
        exacts [hw, hw, rfl]
      | finalize =>
        rcases hdoes with rfl | rfl | ⟨he, rfl⟩
        exacts [hw, hw, hw]
      | abort =>
        rcases hdoes with rfl | ⟨cancelled, file, rfl, -⟩
        · exact hw
        · cases cancelled <;> exact hw
      | getStatus | setProperty =>
        obtain rfl : a = .idle := hdoes
        exact hw
    | transferFailed hr hcb code text =>
      refine iff_of_true (hkeep ?_) (by rintro _ ⟨⟩)
      simp only [Op.Does] at hdoes
      split at hdoes
      · exact hdoes ▸ hw
      split at hdoes
      · rcases hdoes with ⟨-, rfl⟩ | ⟨hcloses, rfl⟩
        · exact hw
        · exact absurd hc (closeErr_of_closes hcloses)
      · exact hdoes ▸ hw
    | progressCheck =>
      refine iff_of_true (hkeep ?_) (by rintro _ ⟨⟩)
      rcases hdoes with rfl | rfl | ⟨he, rfl⟩
      exacts [hw, hw, absurd hc he]
    | headersUpdate | dataUpdate | transferCompleted | alreadyTransferred | foreign =>
      obtain rfl := hdoes
      exact iff_of_true (hkeep hw) (by rintro _ ⟨⟩)

/-! ## Runs -/

/-- **No exception leaves a task** of a run, with files that close, exactly when every task
that sends a request finds it possible. -/
theorem no_exception_escapes_iff {ms : List (Trans.Move World Event)} (hr : Trans.Reachable (agent uri) w)
    (hp : Trans.Path (agent uri) w ms w') (hc : ∀ m ∈ ms, ClosesFiles m.ev) :
    (∀ m ∈ ms, m.dst.terminated = false) ↔ ∀ m ∈ ms, SendsUnhindered uri m.src m.ev := by
  have hiff : ∀ m ∈ ms, m.dst.terminated = false ↔ SendsUnhindered uri m.src m.ev := fun m hm => by
    obtain ⟨hsrc, hstep⟩ := hp.move hr m hm
    exact step_terminated_iff (good_reachable hsrc) (sized_reachable hsrc) hstep (hc m hm)
  exact forall₂_congr hiff

instance : ∀ e, Decidable (ClosesFiles e)
  | .run _ => inferInstanceAs (Decidable (_ = _))
  | .tick _ | .request _ | .foreign .. | .drain | .curl _ => .isTrue trivial

/-- The connection breaks, and the retry asks for the rest. -/
def brokenRun (lines : List String) : List Event :=
  [.request .start, .run {}, .drain, .curl (.status 200)] ++ lines.map (fun line => .curl (.header line)) ++
    [.curl (.write [1, 2, 3] (.wrote 3) 0), .curl (.complete 56 0), .run {}, .run {}, .run {},
      .tick 2000000000, .run {}]

theorem no_exception_escapes_iff_broken : ∃ w' ms, ms.map (·.ev) = brokenRun ["Content-Length: 5"] ∧
    Trans.Path (agent plainUri) newDownload ms w' ∧
    ((∀ m ∈ ms, m.dst.terminated = false) ↔ ∀ m ∈ ms, SendsUnhindered plainUri m.src m.ev) := by
  have hrun : (((agent plainUri).restrict fun _ => ClosesFiles).runFrom newDownload
      (brokenRun ["Content-Length: 5"])).isSome = true := by decide +kernel
  obtain ⟨w', hw⟩ := Option.isSome_iff_exists.1 hrun
  obtain ⟨ms, hp, hev⟩ := Trans.path_of_runFrom hw
  obtain ⟨hp, hc⟩ := hp.of_restrict
  exact ⟨w', ms, hev, hp, no_exception_escapes_iff reachable_newDownload hp hc⟩

/-- Of a response that declares no length three bytes came: the retry ends the agent. -/
theorem retry_ends_agent :
    ¬ ∀ uri w, Trans.ReachableBy (agent uri) (fun _ => ClosesFiles) w → w.terminated = false := by
  intro hall
  have hrun : (((agent plainUri).restrict fun _ => ClosesFiles).runFrom newDownload (brokenRun [])).map
      (·.terminated) = some true := by decide +kernel
  obtain ⟨w, hr, hterm⟩ := Trans.reachableBy_of_replay reachable_newDownload hrun
  have halive := hall _ w hr
  exact absurd (halive.symm.trans hterm) Bool.noConfusion

end DoClient
