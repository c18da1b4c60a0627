/-
The callbacks of `HttpAgent` during one request: libcurl's on the one side,
`IHttpAgentEvents` on the other, whatever that answers. What the agent calls
is a word of a small protocol, and the facts about the calls are facts about
its words. `Download` is one `IHttpAgentEvents`: the callbacks of the agent in
its world are those here.
-/
import DoClient.RequestHistory

namespace DoClient

/-! ## The protocol -/

/-- A call of `IHttpAgentEvents`: what it returned, or what it was told. -/
inductive EventCall
  | onHeadersAvailable (result : HResult)
  | onData (cbData : Nat) (result : HResult)
  | onComplete (hrRequest hrCallback : HResult)
  deriving DecidableEq, Repr

namespace EventCall

def isHeaders : EventCall → Bool
  | .onHeadersAvailable _ => true
  | _ => false

def isData : EventCall → Bool
  | .onData .. => true
  | _ => false

def isComplete : EventCall → Bool
  | .onComplete .. => true
  | _ => false

/-- A callback about the response that returned a failure. -/
def refused : EventCall → Bool
  | .onHeadersAvailable result | .onData _ result => failed result
  | .onComplete .. => false

end EventCall

/-- Where the calls of a request have got to. -/
inductive Phase
  | fresh | taking | refused | done
  deriving DecidableEq, Repr

namespace Phase

/-- After a callback about the response. -/
def answered (result : HResult) : Phase := if succeeded result then .taking else .refused

/-- What may be called next. The response is only ever shown if its status is accepted. -/
def next (accepted : Bool) : Phase → EventCall → Option Phase
  | .fresh, .onHeadersAvailable result => if accepted then some (answered result) else none
  | .taking, .onData _ result => some (answered result)
  | .fresh, .onComplete .. | .taking, .onComplete .. | .refused, .onComplete .. => some .done
  | _, _ => none

variable {accepted : Bool} {p q : Phase} {c : EventCall}

theorem next_complete {hrRequest hrCallback : HResult} (h : p ≠ .done) :
    p.next accepted (.onComplete hrRequest hrCallback) = some .done := by
  cases p with
  | done => exact absurd rfl h
  | fresh | taking | refused => rfl

theorem answered_ne_fresh (result : HResult) : answered result ≠ .fresh := by
  unfold answered
  split <;> nofun

theorem next_ne_fresh (h : p.next accepted c = some q) : q ≠ .fresh := by
  cases c with
  | onHeadersAvailable result =>
    cases p <;> simp only [next, reduceCtorEq] at h
    split at h
    · exact Option.some.inj h ▸ answered_ne_fresh result
    · cases h
  | onData n result =>
    cases p <;> simp only [next, reduceCtorEq] at h
    exact Option.some.inj h ▸ answered_ne_fresh result
  | onComplete =>
    cases p <;> simp only [next, reduceCtorEq] at h <;> exact Option.some.inj h ▸ nofun

end Phase

/-- The calls of a request whose status is accepted, or not. -/
def protocol (accepted : Bool) : Trans.System Phase EventCall := ⟨(· = .fresh), Phase.next accepted⟩

namespace protocol

variable {accepted : Bool} {p q : Phase} {calls : List EventCall} {c : EventCall}

theorem runFrom_concat (h : (protocol accepted).runFrom p calls = some q) :
    (protocol accepted).runFrom p (calls ++ [c]) = q.next accepted c := by
  rw [Trans.runFrom_append, h]
  exact Option.bind_fun_some (q.next accepted c)

theorem runFrom_cons (h : (protocol accepted).runFrom p (c :: calls) = some q) :
    ∃ p', p.next accepted c = some p' ∧ (protocol accepted).runFrom p' calls = some q :=
  Option.bind_eq_some_iff.1 h

theorem runFrom_done (h : (protocol accepted).runFrom .done calls = some q) : calls = [] ∧ q = .done := by
  cases calls with
  | nil => exact ⟨rfl, (Option.some.inj h).symm⟩
  | cons c calls =>
    obtain ⟨p', hp, -⟩ := runFrom_cons h
    cases c <;> cases hp

/-- Nothing was called where everything may still be. -/
theorem runFrom_fresh (h : (protocol accepted).runFrom .fresh calls = some .fresh) : calls = [] := by
  have hback : ∀ (calls : List EventCall) (p : Phase), p ≠ .fresh →
    (protocol accepted).runFrom p calls ≠ some .fresh := by
    intro calls
    induction calls with
    | nil => exact fun p hp h => hp (Option.some.inj h)
    | cons c calls ih =>
      intro p hp h
      obtain ⟨p', hnext, h⟩ := runFrom_cons h
      exact ih p' (Phase.next_ne_fresh hnext) h
  cases calls with
  | nil => rfl
  | cons c calls =>
    obtain ⟨p', hnext, h⟩ := runFrom_cons h
    exact absurd h (hback calls p' (Phase.next_ne_fresh hnext))

/-- The end is told last, and once. -/
theorem complete_last (h : (protocol accepted).runFrom p calls = some q) (hp : p ≠ .done) :
    (q = .done → ∃ pre hrRequest hrCallback, calls = pre ++ [.onComplete hrRequest hrCallback] ∧
      ∀ c ∈ pre, c.isComplete = false) ∧ (q ≠ .done → ∀ c ∈ calls, c.isComplete = false) := by
  induction calls generalizing p with
  | nil =>
    obtain rfl := Option.some.inj h
    exact ⟨fun hq => absurd hq hp, fun _ => nofun⟩
  | cons c calls ih =>
    obtain ⟨p', hnext, h⟩ := runFrom_cons h
    by_cases hdone : p' = .done
    · subst hdone
      obtain ⟨rfl, rfl⟩ := runFrom_done h
      refine ⟨fun _ => ?_, fun hq => absurd rfl hq⟩
      cases c with
      | onComplete hrRequest hrCallback => exact ⟨[], hrRequest, hrCallback, rfl, nofun⟩
      | onHeadersAvailable result =>
        cases p <;> simp [Phase.next, Phase.answered] at hnext
        split at hnext <;> cases hnext.2
      | onData n result =>
        cases p <;> simp [Phase.next, Phase.answered] at hnext
        split at hnext <;> cases hnext
    · have hc : c.isComplete = false := by
        cases c with
        | onComplete => cases p <;> simp [Phase.next] at hnext <;> exact absurd hnext.symm hdone
        | onHeadersAvailable | onData => rfl
      obtain ⟨hend, hopen⟩ := ih h hdone
      refine ⟨fun hq => ?_, fun hq => List.forall_mem_cons.2 ⟨hc, hopen hq⟩⟩
      obtain ⟨pre, hrRequest, hrCallback, rfl, hpre⟩ := hend hq
      exact ⟨c :: pre, hrRequest, hrCallback, rfl, List.forall_mem_cons.2 ⟨hc, hpre⟩⟩

/-- After a refusal no data is shown. -/
theorem refused_noData (h : (protocol accepted).runFrom .refused calls = some q) :
    ∀ c ∈ calls, c.isData = false ∧ c.isHeaders = false := by
  cases calls with
  | nil => nofun
  | cons c calls =>
    obtain ⟨p', hp, h⟩ := runFrom_cons h
    cases c with
    | onHeadersAvailable | onData => cases hp
    | onComplete =>
      cases hp
      rw [(runFrom_done h).1]
      simp [EventCall.isData, EventCall.isHeaders]

theorem answered_eq (result : HResult) : (Phase.answered result = .refused ∧ failed result = true) ∨
    (Phase.answered result = .taking ∧ failed result = false) := by
  unfold Phase.answered succeeded
  cases failed result
  · exact .inr ⟨rfl, rfl⟩
  · exact .inl ⟨rfl, rfl⟩

theorem pairwise_noData (h : ∀ c ∈ calls, c.isData = false) :
    calls.Pairwise fun c d => c.refused = true → d.isData = false := by
  induction calls with
  | nil => exact List.Pairwise.nil
  | cons c calls ih =>
    obtain ⟨-, htail⟩ := List.forall_mem_cons.1 h
    exact List.pairwise_cons.2 ⟨fun d hd _ => htail d hd, ih htail⟩

/-- Data is shown until a refusal; the headers are not shown again. -/
theorem taking_word (h : (protocol accepted).runFrom .taking calls = some q) :
    (∀ c ∈ calls, c.isHeaders = false) ∧ calls.Pairwise fun c d => c.refused = true → d.isData = false := by
  induction calls with
  | nil => exact ⟨nofun, List.Pairwise.nil⟩
  | cons c calls ih =>
    obtain ⟨p', hnext, h⟩ := runFrom_cons h
    cases c with
    | onHeadersAvailable => cases hnext
    | onComplete =>
      cases hnext
      rw [(runFrom_done h).1]
      exact ⟨by simp [EventCall.isHeaders], List.pairwise_singleton _ _⟩
    | onData n result =>
      obtain rfl := Option.some.inj hnext
      rcases answered_eq result with ⟨ha, hr⟩ | ⟨ha, hr⟩
      · rw [ha] at h
        have hnone := refused_noData h
        exact ⟨List.forall_mem_cons.2 ⟨rfl, fun d hd => (hnone d hd).2⟩,
          List.pairwise_cons.2 ⟨fun d hd _ => (hnone d hd).1, pairwise_noData fun d hd => (hnone d hd).1⟩⟩
      · rw [ha] at h
        obtain ⟨hheaders, hpair⟩ := ih h
        exact ⟨List.forall_mem_cons.2 ⟨rfl, hheaders⟩, List.pairwise_cons.2
          ⟨fun d _ hrefused => absurd (hr.symm.trans hrefused) Bool.noConfusion, hpair⟩⟩

/-- What a request's calls come to. -/
structure Word (accepted : Bool) (calls : List EventCall) : Prop where
  /-- The headers are shown at most once. -/
  headersOnce : calls.countP EventCall.isHeaders ≤ 1
  /-- Data is shown after them only. -/
  headersFirst : ∀ pre c post, calls = pre ++ c :: post → c.isData = true → ∃ d ∈ pre, d.isHeaders = true
  /-- Both for an accepted status only. -/
  accepted : ∀ c ∈ calls, c.isHeaders = true ∨ c.isData = true → accepted = true
  /-- A refusal is the end of the data. -/
  refusedLast : calls.Pairwise fun c d => c.refused = true → d.isData = false

theorem word_of_run (h : (protocol accepted).runFrom .fresh calls = some q) : Word accepted calls := by
  cases calls with
  | nil => exact ⟨by simp, fun pre c post hs => by simp at hs, nofun, List.Pairwise.nil⟩
  | cons c calls =>
    obtain ⟨p', hnext, h⟩ := runFrom_cons h
    cases c with
    | onData => cases hnext
    | onComplete hrRequest hrCallback =>
      cases hnext
      rw [(runFrom_done h).1]
      refine ⟨by simp [EventCall.isHeaders], fun pre c post hs hc => ?_,
        by simp [EventCall.isHeaders, EventCall.isData], List.pairwise_singleton _ _⟩
      have hmem : c ∈ [EventCall.onComplete hrRequest hrCallback] :=
        hs ▸ List.mem_append_right pre List.mem_cons_self
      rw [List.mem_singleton.1 hmem] at hc
      cases hc
    | onHeadersAvailable result =>
      have haccepted : accepted = true := by
        by_contra hnot
        simp [Phase.next, hnot] at hnext
      simp only [Phase.next, haccepted, if_true, Option.some.injEq] at hnext
      subst hnext
      have hrest : (∀ c ∈ calls, c.isHeaders = false) ∧
          (EventCall.onHeadersAvailable result :: calls).Pairwise fun c d => c.refused = true →
            d.isData = false := by
        rcases answered_eq result with ⟨ha, hr⟩ | ⟨ha, hr⟩
        · rw [ha] at h
          have hnone := refused_noData h
          exact ⟨fun d hd => (hnone d hd).2,
            List.pairwise_cons.2 ⟨fun d hd _ => (hnone d hd).1, pairwise_noData fun d hd => (hnone d hd).1⟩⟩
        · rw [ha] at h
          obtain ⟨hheaders, hpair⟩ := taking_word h
          exact ⟨hheaders, List.pairwise_cons.2
            ⟨fun d _ hrefused => absurd (hr.symm.trans hrefused) Bool.noConfusion, hpair⟩⟩
      refine ⟨?_, fun pre c post hs hc => ?_, fun _ _ _ => haccepted, hrest.2⟩
      · rw [List.countP_cons_of_pos rfl, List.countP_eq_zero.2 fun d hd => by simp [hrest.1 d hd]]
      · cases pre with
        | nil =>
          obtain rfl := (List.cons.inj hs).1
          cases hc
        | cons d pre => exact ⟨d, List.mem_cons_self, (List.cons.inj hs).1 ▸ rfl⟩

end protocol

/-! ## The agent -/

/-- What `IHttpAgentEvents` answers if it is asked during one callback of libcurl. -/
structure Answers where
  onHeadersAvailable : HResult
  onData : HResult
  deriving DecidableEq, Repr

namespace HttpAgent

variable (a : HttpAgent) (responseCode : Nat) (ans : Answers)

/-- `_TrySetStatusCodeAndInvokeOnHeadersAvailable`; `curl_easy_getinfo` knows the response code. -/
def trySetStatusCode : HttpAgent × List EventCall :=
  if a.responseOnHeadersAvailableInvoked then (a, [])
  else
    let a := { a with
      responseOnHeadersAvailableInvoked := true
      responseStatusCode := responseCode
      hrTranslatedStatusCode := resultFromStatusCode responseCode }
    if succeeded a.hrTranslatedStatusCode then
      ({ a with hrCallback := ans.onHeadersAvailable }, [.onHeadersAvailable ans.onHeadersAvailable])
    else (a, [])

/-- `_WriteCallback` of so many bytes, and the count it returns. -/
def writeCallback (cbBuffer : Nat) : Nat × HttpAgent × List EventCall :=
  match a.trySetStatusCode responseCode ans with
  | (a, calls) =>
    if succeeded a.hrTranslatedStatusCode && succeeded a.hrCallback then
      let a := { a with hrCallback := ans.onData }
      (if succeeded a.hrCallback then cbBuffer else 0, a, calls ++ [.onData (wrap32 cbBuffer) ans.onData])
    else (0, a, calls)

/-- `_CompleteCallback`. -/
def completeCallback (curlResult : Nat) : HttpAgent × List EventCall :=
  if a.responseOnCompleteInvoked then (a, [])
  else
    let a := { a with responseOnCompleteInvoked := true }
    match if curlResult = 0 then a.trySetStatusCode responseCode ans
      else if succeeded a.hrTranslatedStatusCode then
        ({ a with hrTranslatedStatusCode := curlErrorCodeToHResult curlResult }, [])
      else (a, []) with
    | (a, calls) => (a, calls ++ [.onComplete a.hrTranslatedStatusCode a.hrCallback])

/-- The codes of `_ResultFromStatusCode` that are a success. -/
def acceptedCodes : List Nat := [200, 201, 202, 203, 204, 206]

theorem failed_ite {c : Prop} [Decidable c] {hr hr' : HResult} (h : failed hr = true)
    (h' : failed hr' = true) :
    failed (if c then hr else hr') = true := by
  split
  exacts [h, h']

theorem accepted_iff (code : Nat) : succeeded (resultFromStatusCode code) = true ↔ code ∈ acceptedCodes := by
  by_cases hcode : code ∈ acceptedCodes
  · refine iff_of_true ?_ hcode
    simp only [acceptedCodes, List.mem_cons, List.not_mem_nil, or_false] at hcode
    rcases hcode with rfl | rfl | rfl | rfl | rfl | rfl <;> decide
  · have hnot : code ∉ [200, 201, 202, 204, 203, 206] := fun h => hcode (by
      simp only [acceptedCodes, List.mem_cons, List.not_mem_nil, or_false] at h ⊢
      omega)
    have hfailed : failed (resultFromStatusCode code) = true := by
      unfold resultFromStatusCode
      rw [List.contains_eq_mem, decide_eq_false hnot, if_neg Bool.false_ne_true]
      iterate 12 refine failed_ite (by decide) ?_
      decide
    simp [succeeded, hfailed, hcode]

end HttpAgent

/-! ## A request -/

/-- A request and what libcurl has done with it, and the calls made of that, in order. -/
structure Request where
  agent : HttpAgent
  responseCode : Nat := 0
  bodyStarted : Bool := false
  shortCount : Bool := false
  /-- The `CURLcode` of its end. -/
  curlResult : Option Nat := none
  calls : List EventCall := []
  deriving DecidableEq, Repr

/-- An event of libcurl, and what the callbacks answer if they are called for it. -/
inductive RequestEvent
  /-- The status line of a response, a redirect's or the last one's. -/
  | status (code : Nat)
  | header (line : String)
  | write (cbBuffer : Nat) (ans : Answers)
  | complete (curlResult : Nat) (ans : Answers)
  deriving DecidableEq, Repr

namespace Request

variable (r : Request)

def accepted : Bool := succeeded (HttpAgent.resultFromStatusCode r.responseCode)

/-- libcurl passes on one body, gives up after a short count, and is done after the end. -/
def step : RequestEvent → Option Request
  | .status code =>
    if r.curlResult.isSome || r.bodyStarted then none else some { r with responseCode := code }
  | .header line => if r.curlResult.isSome then none else some { r with agent := r.agent.headerCallback line }
  | .write cbBuffer ans =>
    if r.curlResult.isSome || r.shortCount then none
    else match r.agent.writeCallback r.responseCode ans cbBuffer with
      | (count, agent, calls) => some { r with
          agent := agent, calls := r.calls ++ calls, bodyStarted := true, shortCount := count != cbBuffer }
  | .complete curlResult ans =>
    if r.curlResult.isSome || (r.shortCount && curlResult == 0) then none
    else match r.agent.completeCallback r.responseCode ans curlResult with
      | (agent, calls) =>
        some { r with agent := agent, calls := r.calls ++ calls, curlResult := some curlResult }

/-- The phase the agent's variables stand for. -/
def phase : Phase :=
  if r.curlResult.isSome then .done
  else if !r.agent.responseOnHeadersAvailableInvoked || !r.accepted then .fresh
  else .answered r.agent.hrCallback

end Request

/-- Requests, each of an agent with any past. -/
def agentRequests (uri : UriLib) : Trans.System Request RequestEvent where
  init r := ∃ (a : HttpAgent) (szUrl szProxyUrl szRange : Option String) (secs : Nat),
    failed (a.prepareRequest uri szUrl szProxyUrl szRange secs).1 = false ∧
    r = { agent := (a.prepareRequest uri szUrl szProxyUrl szRange secs).2 }
  step := Request.step

/-! ## What every request keeps -/

theorem HttpAgent.prepareRequest_resets {uri : UriLib} {a : HttpAgent}
    {szUrl szProxyUrl szRange : Option String} {secs : Nat}
    (h : failed (a.prepareRequest uri szUrl szProxyUrl szRange secs).1 = false) :
    ∃ handle headers, (a.prepareRequest uri szUrl szProxyUrl szRange secs).2 =
      { curlHandle := handle, requestHeaders := headers } := by
  rcases hc : a.createClient uri szUrl szProxyUrl secs with ⟨hr, a'⟩
  simp only [prepareRequest, hc] at h ⊢
  cases hf : failed hr with
  | true =>
    rw [if_pos hf] at h
    exact absurd (hf.symm.trans h) Bool.noConfusion
  | false =>
    rw [if_neg (by simp)]
    exact ⟨_, _, rfl⟩

namespace Request

variable {r : Request}

/-- The calls so far are a word of the protocol, and the agent's variables say which. -/
structure Kept (r : Request) : Prop where
  word : (protocol r.accepted).runFrom .fresh r.calls = some r.phase
  completed : r.agent.responseOnCompleteInvoked = r.curlResult.isSome
  started : r.curlResult = none → r.agent.responseOnHeadersAvailableInvoked = r.bodyStarted
  translated : r.curlResult = none → r.agent.hrTranslatedStatusCode =
    if r.agent.responseOnHeadersAvailableInvoked then HttpAgent.resultFromStatusCode r.responseCode
      else HResult.S_OK
  ended : ∀ curlResult ∈ r.curlResult, ∃ pre hrRequest hrCallback,
    r.calls = pre ++ [.onComplete hrRequest hrCallback] ∧
    (succeeded hrRequest = true ↔ curlResult = 0 ∧ r.accepted = true)

/-- The request after `_TrySetStatusCodeAndInvokeOnHeadersAvailable`. -/
def headersTried (r : Request) (ans : Answers) : Request := { r with
  agent := (r.agent.trySetStatusCode r.responseCode ans).1
  calls := r.calls ++ (r.agent.trySetStatusCode r.responseCode ans).2
  bodyStarted := true }

theorem Kept.headersTried (h : r.Kept) (hopen : r.curlResult = none) (ans : Answers) :
    (r.headersTried ans).Kept ∧ (r.headersTried ans).agent.responseOnHeadersAvailableInvoked = true := by
  have hword := h.word
  unfold Request.headersTried HttpAgent.trySetStatusCode
  cases hinv : r.agent.responseOnHeadersAvailableInvoked with
  | true =>
    have hsame : r.phase = Request.phase { r with calls := r.calls ++ [], bodyStarted := true } := rfl
    simp only [if_true]
    refine ⟨⟨?_, h.completed, fun _ => hinv, h.translated, fun c hc => by simp [hopen] at hc⟩, hinv⟩
    rw [← hsame]
    simpa [accepted] using hword
  | false =>
    have hfresh : r.phase = .fresh := by simp [phase, hopen, hinv]
    rw [hfresh] at hword
    cases hacc : r.accepted with
    | true =>
      have hs : succeeded (HttpAgent.resultFromStatusCode r.responseCode) = true := hacc
      simp only [Bool.false_eq_true, if_false, hs, if_true]
      refine ⟨⟨?_, h.completed, fun _ => rfl, fun _ => rfl, fun c hc => by simp [hopen] at hc⟩, trivial⟩
      have hnext : Phase.next true .fresh (.onHeadersAvailable ans.onHeadersAvailable) =
          some (.answered ans.onHeadersAvailable) := rfl
      simp only [accepted, hs, phase, hopen] at hacc hword ⊢
      rw [protocol.runFrom_concat hword, hnext]
      rfl
    | false =>
      have hs : succeeded (HttpAgent.resultFromStatusCode r.responseCode) = false := hacc
      simp only [Bool.false_eq_true, if_false, hs]
      refine ⟨⟨?_, h.completed, fun _ => rfl, fun _ => rfl, fun c hc => by simp [hopen] at hc⟩, trivial⟩
      simp only [accepted, hs, phase, hopen] at hacc hword ⊢
      simpa using hword

theorem phase_ne_done (hopen : r.curlResult = none) : r.phase ≠ .done := by
  unfold phase Phase.answered
  rw [hopen, if_neg (by simp)]
  split
  · nofun
  · split <;> nofun

theorem HttpAgent.trySetStatusCode_completed (a : HttpAgent) (completed : Bool) (code : Nat) (ans : Answers) :
    HttpAgent.trySetStatusCode { a with responseOnCompleteInvoked := completed } code ans =
      ({ (a.trySetStatusCode code ans).1 with responseOnCompleteInvoked := completed },
        (a.trySetStatusCode code ans).2) := by
  unfold HttpAgent.trySetStatusCode
  cases hinv : a.responseOnHeadersAvailableInvoked with
  | true => simp [hinv]
  | false =>
    simp only [Bool.false_eq_true, if_false]
    split <;> rfl

/-- A chunk is shown if nothing was refused so far, and not taken otherwise. -/
theorem step_write {cbBuffer : Nat} {ans : Answers} {r' : Request}
    (h : r.step (.write cbBuffer ans) = some r') :
    r.curlResult = none ∧
    ((succeeded (r.headersTried ans).agent.hrTranslatedStatusCode = true ∧
        succeeded (r.headersTried ans).agent.hrCallback = true ∧
        r' = { r.headersTried ans with
          agent := { (r.headersTried ans).agent with hrCallback := ans.onData }
          calls := (r.headersTried ans).calls ++ [.onData (wrap32 cbBuffer) ans.onData]
          shortCount := (if succeeded ans.onData then cbBuffer else 0) != cbBuffer }) ∨
      (succeeded (r.headersTried ans).agent.hrTranslatedStatusCode = true →
        succeeded (r.headersTried ans).agent.hrCallback = false) ∧
        r' = { r.headersTried ans with shortCount := 0 != cbBuffer }) := by
  simp only [Request.step] at h
  split at h
  · cases h
  next hguard =>
  have hopen : r.curlResult = none := by
    cases hc : r.curlResult <;> simp [hc] at hguard ⊢
  refine ⟨hopen, ?_⟩
  unfold headersTried
  rcases ht : r.agent.trySetStatusCode r.responseCode ans with ⟨a, calls⟩
  simp only [HttpAgent.writeCallback, ht, Option.some.injEq] at h
  split at h
  · next htake =>
    obtain ⟨haccepted, htaken⟩ := Bool.and_eq_true_iff.1 htake
    exact .inl ⟨haccepted, htaken, by rw [← h, List.append_assoc]⟩
  · next hnot =>
    refine .inr ⟨fun haccepted => ?_, h.symm⟩
    rw [haccepted, Bool.true_and, Bool.not_eq_true] at hnot
    exact hnot

/-- The end is told with what the agent knows: of the response if libcurl succeeded, else of a failure. -/
theorem step_complete (hcompleted : r.curlResult = none → r.agent.responseOnCompleteInvoked = false)
    {curlResult : Nat} {ans : Answers} {r' : Request} (h : r.step (.complete curlResult ans) = some r') :
    r.curlResult = none ∧ ∃ (s : Request) (hrRequest : HResult),
      (curlResult = 0 ∧ s = r.headersTried ans ∧ hrRequest = s.agent.hrTranslatedStatusCode ∨
        curlResult ≠ 0 ∧ s = r ∧ failed hrRequest = true) ∧
      r' = { s with
        bodyStarted := r.bodyStarted
        agent := { s.agent with hrTranslatedStatusCode := hrRequest, responseOnCompleteInvoked := true }
        calls := s.calls ++ [.onComplete hrRequest s.agent.hrCallback], curlResult := some curlResult } := by
  simp only [Request.step] at h
  split at h
  · cases h
  next hguard =>
  have hopen : r.curlResult = none := by
    cases hc : r.curlResult <;> simp [hc] at hguard ⊢
  refine ⟨hopen, ?_⟩
  simp only [HttpAgent.completeCallback, hcompleted hopen, Bool.false_eq_true, if_false,
    Option.some.injEq] at h
  by_cases hok : curlResult = 0
  · rw [if_pos hok, HttpAgent.trySetStatusCode_completed, ← List.append_assoc] at h
    exact ⟨r.headersTried ans, _, .inl ⟨hok, rfl, rfl⟩, h.symm⟩
  · rw [if_neg hok] at h
    split at h
    · exact ⟨r, _, .inr ⟨hok, rfl, HttpAgent.failed_curlErrorCodeToHResult curlResult⟩, h.symm⟩
    · next hs =>
      have hfailed : failed r.agent.hrTranslatedStatusCode = true := by simpa [succeeded] using hs
      exact ⟨r, _, .inr ⟨hok, rfl, hfailed⟩, h.symm⟩

theorem Kept.write (h : r.Kept) {cbBuffer : Nat} {ans : Answers} {r' : Request}
    (hstep : r.step (.write cbBuffer ans) = some r') : r'.Kept := by
  obtain ⟨hopen, hcases⟩ := step_write hstep
  obtain ⟨htried, hinv⟩ := h.headersTried hopen ans
  have hnone : (r.headersTried ans).curlResult = none := hopen
  have hbody : (r.headersTried ans).bodyStarted = true := rfl
  generalize r.headersTried ans = s at htried hinv hcases hnone hbody
  have htranslated : s.agent.hrTranslatedStatusCode = HttpAgent.resultFromStatusCode s.responseCode := by
    simpa [hinv] using htried.translated hnone
  rcases hcases with ⟨haccepted, htaken, rfl⟩ | ⟨-, rfl⟩
  · rw [htranslated] at haccepted
    refine ⟨?_, htried.completed, fun _ => hinv.trans hbody.symm, fun _ => by simp [hinv, htranslated],
      fun c hc => by simp [hnone] at hc⟩
    have hword := htried.word
    have hnext :
      Phase.next true .taking (.onData (wrap32 cbBuffer) ans.onData) = some (.answered ans.onData) := rfl
    have htaking : Phase.answered s.agent.hrCallback = .taking := if_pos htaken
    simp only [accepted, haccepted, phase, hnone, hinv, Option.isSome_none, Bool.false_eq_true, if_false,
      Bool.not_true, Bool.or_self, htaking] at hword ⊢
    rw [protocol.runFrom_concat hword, hnext]
  · exact ⟨htried.word, htried.completed, fun _ => hinv.trans hbody.symm,
      fun _ => by simp [hinv, htranslated], fun c hc => by simp [hnone] at hc⟩

theorem Kept.complete (h : r.Kept) {curlResult : Nat} {ans : Answers} {r' : Request}
    (hstep : r.step (.complete curlResult ans) = some r') : r'.Kept := by
  have hcompleted : r.curlResult = none → r.agent.responseOnCompleteInvoked = false := fun hopen => by
    simp [h.completed, hopen]
  obtain ⟨hopen, s, hrRequest, hs, rfl⟩ := step_complete hcompleted hstep
  have htold :
    s.Kept ∧ s.curlResult = none ∧ (succeeded hrRequest = true ↔ curlResult = 0 ∧ s.accepted = true) := by
    rcases hs with ⟨hok, rfl, rfl⟩ | ⟨hok, rfl, hfailed⟩
    · obtain ⟨htried, hinv⟩ := h.headersTried hopen ans
      have hnone : (r.headersTried ans).curlResult = none := hopen
      refine ⟨htried, hnone, ?_⟩
      rw [htried.translated hnone, if_pos hinv]
      simp [hok, accepted]
    · exact ⟨h, hopen, by simp [hok, succeeded, hfailed]⟩
  obtain ⟨hkept, hnone, hiff⟩ := htold
  refine ⟨?_, rfl, nofun, nofun, ?_⟩
  · exact (protocol.runFrom_concat hkept.word).trans (Phase.next_complete (phase_ne_done hnone))
  · rintro _ ⟨⟩
    exact ⟨_, _, _, rfl, hiff⟩

theorem Kept.step (h : r.Kept) {e : RequestEvent} {r' : Request} (hstep : r.step e = some r') : r'.Kept := by
  cases e with
  | status code =>
    simp only [Request.step] at hstep
    split at hstep
    · cases hstep
    next hguard =>
    obtain ⟨hopen, hbody⟩ : r.curlResult = none ∧ r.bodyStarted = false := by simpa using hguard
    obtain rfl := Option.some.inj hstep
    have hinv : r.agent.responseOnHeadersAvailableInvoked = false := (h.started hopen).trans hbody
    have hword := h.word
    have htranslated := h.translated hopen
    simp only [phase, hopen, hinv] at hword
    refine ⟨?_, h.completed, h.started, fun _ => by simpa [hinv] using htranslated,
      fun c hc => by simp [hopen] at hc⟩
    simp only [phase, hopen, hinv, Option.isSome_none, Bool.false_eq_true, if_false, Bool.not_false,
      Bool.true_or, if_true] at hword ⊢
    -- nothing was called yet
    rw [protocol.runFrom_fresh hword]
    rfl
  | header line =>
    simp only [Request.step] at hstep
    split at hstep
    · cases hstep
    · obtain rfl := Option.some.inj hstep
      exact ⟨h.word, h.completed, h.started, h.translated, h.ended⟩
  | write cbBuffer ans => exact h.write hstep
  | complete curlResult ans => exact h.complete hstep

theorem kept_initial {uri : UriLib} (h : (agentRequests uri).init r) : r.Kept := by
  obtain ⟨a, szUrl, szProxyUrl, szRange, secs, hok, rfl⟩ := h
  obtain ⟨handle, headers, hreset⟩ := HttpAgent.prepareRequest_resets hok
  rw [hreset]
  exact ⟨rfl, rfl, fun _ => rfl, fun _ => rfl, nofun⟩

theorem kept_reachable {uri : UriLib} (h : Trans.Reachable (agentRequests uri) r) : r.Kept :=
  Trans.ReachableBy.invariant Kept (fun _ h => kept_initial h) (fun _ _ _ h _ hstep => h.step hstep) h

/-- **The callbacks of a request.** The headers are shown once at most, before any data, both for an accepted status
only; after a refusal no data is; the end is told once and last, a success exactly if libcurl succeeded and the
status is accepted. -/
theorem callback_protocol {uri : UriLib} (h : Trans.Reachable (agentRequests uri) r) :
    r.calls.countP EventCall.isHeaders ≤ 1 ∧
    (∀ pre c post, r.calls = pre ++ c :: post → c.isData = true → ∃ d ∈ pre, d.isHeaders = true) ∧
    (∀ c ∈ r.calls, c.isHeaders = true ∨ c.isData = true → r.responseCode ∈ HttpAgent.acceptedCodes) ∧
    (r.calls.Pairwise fun c d => c.refused = true → d.isData = false) ∧
    (r.curlResult = none → ∀ c ∈ r.calls, c.isComplete = false) ∧
    (∀ curlResult ∈ r.curlResult, ∃ pre hrRequest hrCallback,
      r.calls = pre ++ [.onComplete hrRequest hrCallback] ∧ (∀ c ∈ pre, c.isComplete = false) ∧
      (succeeded hrRequest = true ↔ curlResult = 0 ∧ r.responseCode ∈ HttpAgent.acceptedCodes)) := by
  have hkept := kept_reachable h
  have hword := protocol.word_of_run hkept.word
  obtain ⟨hdone, hopen⟩ := protocol.complete_last hkept.word nofun
  have haccepted : r.accepted = true ↔ r.responseCode ∈ HttpAgent.acceptedCodes :=
    HttpAgent.accepted_iff r.responseCode
  refine ⟨hword.headersOnce, hword.headersFirst, fun c hc hshown => haccepted.1 (hword.accepted c hc hshown),
    hword.refusedLast, fun hnone => hopen (phase_ne_done hnone), fun curlResult hc => ?_⟩
  have hphase : r.phase = .done := by
    have hc : r.curlResult = some curlResult := hc
    simp [phase, hc]
  obtain ⟨pre, hrRequest, hrCallback, hcalls, hpre⟩ := hdone hphase
  obtain ⟨pre', hrRequest', hrCallback', hcalls', hsuccess⟩ := hkept.ended curlResult hc
  obtain ⟨rfl, hlast⟩ := List.append_inj' (hcalls.symm.trans hcalls') rfl
  simp only [List.cons.injEq, EventCall.onComplete.injEq, and_true] at hlast
  obtain ⟨rfl, rfl⟩ := hlast
  exact ⟨pre, hrRequest, hrCallback, hcalls, hpre, hsuccess.trans (and_congr Iff.rfl haccepted)⟩

/-- A request to replay. -/
theorem exists_init : ∃ handle headers, (agentRequests plainUri).init
    { agent := { curlHandle := handle, requestHeaders := headers } } := by
  have hok :
    failed (({} : HttpAgent).prepareRequest plainUri (some "http://origin/file") none none 15).1 = false := by
    rw [(@HttpAgent.prepareRequest_passes plainUri {} (some "http://origin/file") none none 15
      validateUrl_newDownload).2.2]
    rfl
  obtain ⟨handle, headers, hreset⟩ := HttpAgent.prepareRequest_resets hok
  exact ⟨handle, headers, {}, some "http://origin/file", none, none, 15, hok, by rw [hreset]⟩

/-- A redirect, a partial response, a chunk that is taken and one that is not. -/
def refusedChunk : List RequestEvent := [
  .status 302, .status 206,
  .write 4 ⟨HResult.S_OK, HResult.S_OK⟩, .write 4 ⟨HResult.S_OK, HResult.ERROR_BAD_LENGTH⟩,
  .complete HttpAgent.CURLE_WRITE_ERROR ⟨HResult.S_OK, HResult.S_OK⟩]

/-- Its end is told last, as a failure. -/
theorem callback_protocol_refusedChunk :
    ∃ r, Trans.Reachable (agentRequests plainUri) r ∧ r.calls.length = 4 ∧
    ∃ pre hrRequest hrCallback, r.calls = pre ++ [.onComplete hrRequest hrCallback] ∧
      (∀ c ∈ pre, c.isComplete = false) ∧ succeeded hrRequest = false := by
  obtain ⟨handle, headers, hinit⟩ := exists_init
  obtain ⟨r, hrun, hlength, hend⟩ : ∃ r, (agentRequests plainUri).runFrom
      { agent := { curlHandle := handle, requestHeaders := headers } } refusedChunk = some r ∧
        r.calls.length = 4 ∧
      r.curlResult = some HttpAgent.CURLE_WRITE_ERROR := ⟨_, rfl, rfl, rfl⟩
  have hreach := Trans.reachable_of_runFrom (.init hinit) hrun
  obtain ⟨-, -, -, -, -, hdone⟩ := callback_protocol hreach
  obtain ⟨pre, hrRequest, hrCallback, hcalls, hpre, hsuccess⟩ := hdone _ hend
  refine ⟨r, hreach, hlength, pre, hrRequest, hrCallback, hcalls, hpre, ?_⟩
  by_contra hs
  exact absurd (hsuccess.1 (Bool.not_eq_false _ ▸ hs)).1 (by decide)

end Request

/-! ## `Download` as the one that is called -/

section Download

variable {w w' : World} {a : HttpAgent}

theorem onHeadersAvailable_dl (indeterminate : Nat) (w : World) :
    (onHeadersAvailable indeterminate w).2.dl = w.dl := by
  unfold onHeadersAvailable
  split
  · rfl
  · split <;> rfl

theorem appendFileStream_dl (chunk : List UInt8) (out : WriteOutcome) (w : World) :
    (appendFileStream chunk out w).2.dl = w.dl := by
  unfold appendFileStream
  cases w.dl.fileStream with
  | none => rfl
  | some path =>
    cases out with
    | error errno => rfl
    | wrote n =>
      simp only
      split
      · rfl
      · split <;> rfl

theorem onData_dl (chunk : List UInt8) (out : WriteOutcome) (w : World) :
    (onData chunk out w).2.dl = w.dl := by
  rcases happ : appendFileStream chunk out w with ⟨hr, w₁⟩
  have hdl : w₁.dl = w.dl := by
    rw [← appendFileStream_dl chunk out w, happ]
  simp only [onData, happ]
  split <;> exact hdl

theorem trySetStatusCode_agent (ha : w.dl.httpAgent = some a) (code indeterminate : Nat) :
    ∃ result, ∀ result',
    (trySetStatusCodeAndInvokeOnHeadersAvailable code indeterminate w).dl.httpAgent =
      some (a.trySetStatusCode code ⟨result, result'⟩).1 := by
  unfold trySetStatusCodeAndInvokeOnHeadersAvailable HttpAgent.trySetStatusCode
  simp only [ha]
  cases a.responseOnHeadersAvailableInvoked with
  | true => exact ⟨HResult.S_OK, fun _ => ha⟩
  | false =>
    simp only [Bool.false_eq_true, if_false]
    split
    · next hs =>
      exact ⟨_, fun _ => by
        simp only [World.updateAgent, World.updateDl, onHeadersAvailable_dl, ha, Option.map_some]
        rfl⟩
    · next hs =>
      refine ⟨HResult.S_OK, fun _ => ?_⟩
      simp [World.updateAgent, World.updateDl, ha]

theorem writeCallback_agent (ha : w.dl.httpAgent = some a) (code : Nat) (chunk : List UInt8)
    (out : WriteOutcome) (indeterminate : Nat) : ∃ ans,
    (writeCallback code chunk out indeterminate w).2.dl.httpAgent =
    some (a.writeCallback code ans chunk.length).2.1 ∧
    (writeCallback code chunk out indeterminate w).1 =
    ((a.writeCallback code ans chunk.length).1 == chunk.length) := by
  obtain ⟨result, htry⟩ := trySetStatusCode_agent ha code indeterminate
  have hrefused : chunk.isEmpty = (0 == chunk.length) := by cases chunk <;> rfl
  unfold writeCallback HttpAgent.writeCallback
  rcases hw : trySetStatusCodeAndInvokeOnHeadersAvailable code indeterminate w with w₁
  rw [hw] at htry
  let a₁ := (a.trySetStatusCode code ⟨result, (onData (chunk.take (wrap32 chunk.length)) out w₁).1⟩).1
  refine ⟨⟨result, (onData (chunk.take (wrap32 chunk.length)) out w₁).1⟩, ?_⟩
  have ha₁ : w₁.dl.httpAgent = some a₁ := htry _
  simp only [ha₁]
  split
  · next hs =>
    simp only [World.updateAgent, World.updateDl, onData_dl, ha₁, Option.map_some]
    refine ⟨rfl, ?_⟩
    cases succeeded (onData (chunk.take (wrap32 chunk.length)) out w₁).1 <;> simp [hrefused]
  · exact ⟨ha₁, hrefused⟩

theorem onComplete_dl (hrRequest hrCallback : HResult) (w : World) :
    (onComplete hrRequest hrCallback w).dl = w.dl := by
  unfold onComplete
  split
  · rfl
  · split <;> rfl

theorem completeCallback_agent (ha : w.dl.httpAgent = some a) (code curlResult indeterminate : Nat) : ∃ ans,
    (completeCallback code curlResult indeterminate w).dl.httpAgent =
    some (a.completeCallback code ans curlResult).1 := by
  unfold completeCallback HttpAgent.completeCallback
  simp only [ha]
  cases a.responseOnCompleteInvoked with
  | true => exact ⟨⟨HResult.S_OK, HResult.S_OK⟩, ha⟩
  | false =>
    simp only [Bool.false_eq_true, if_false]
    have hw : (w.updateAgent fun a => { a with responseOnCompleteInvoked := true }).dl.httpAgent =
        some { a with responseOnCompleteInvoked := true } := by
      simp [World.updateAgent, World.updateDl, ha]
    by_cases hok : curlResult = 0
    · obtain ⟨result, htry⟩ := trySetStatusCode_agent hw code indeterminate
      refine ⟨⟨result, HResult.S_OK⟩, ?_⟩
      simp only [if_pos hok, htry HResult.S_OK, onComplete_dl]
    · refine ⟨⟨HResult.S_OK, HResult.S_OK⟩, ?_⟩
      simp only [if_neg hok]
      cases succeeded a.hrTranslatedStatusCode with
      | true => simp [World.updateAgent, World.updateDl, ha, onComplete_dl]
      | false => simp [hw, onComplete_dl]

/-- A request as the agent of a world has it, while libcurl is at work on its transfer. -/
structure Request.Follows (r : Request) (w : World) (t : Transfer) : Prop where
  active : w.curl.active = some t
  agent : w.dl.httpAgent = some r.agent
  responseCode : r.responseCode = t.responseCode
  bodyStarted : r.bodyStarted = t.bodyStarted
  shortCount : r.shortCount = t.writeFailed
  curlResult : r.curlResult = none

/-- **libcurl's events in a download's world are events of a request.** -/
theorem curlEvent_follows {r : Request} {t : Transfer} (h : r.Follows w t) {e : CurlEvent}
    (hstep : curlEvent w e = some w') : ∃ e' r', r.step e' = some r' ∧
      ((∃ t', r'.Follows w' t') ∨ w'.dl.httpAgent = some r'.agent ∧ w'.curl.active = none ∧
        r'.curlResult.isSome = true) := by
  obtain ⟨hactive, hagent, hcode, hbody, hshort, hopen⟩ := h
  cases e with
  | status code =>
    simp only [curlEvent, hactive, Option.bind_some] at hstep
    split at hstep
    · cases hstep
    next hnot =>
    obtain rfl := Option.some.inj hstep
    have hr : r.step (.status code) = some { r with responseCode := code } := by
      simp [Request.step, hopen, hbody, hnot]
    exact ⟨_, _, hr, .inl ⟨_, rfl, hagent, rfl, hbody, hshort, hopen⟩⟩
  | header line =>
    simp only [curlEvent, hactive, Option.map_some, Option.some.injEq] at hstep
    subst hstep
    have hr : r.step (.header line) = some { r with agent := r.agent.headerCallback line } := by
      simp [Request.step, hopen]
    refine ⟨_, _, hr, .inl ⟨_, rfl, ?_, ?_, ?_, ?_, hopen⟩⟩
    · simp [World.updateAgent, World.updateDl, hagent]
    · rw [hcode, Transfer.noteHeader]
      split <;> rfl
    · simpa using hbody
    · simpa using hshort
  | write chunk out indeterminate =>
    simp only [curlEvent, hactive, Option.bind_some] at hstep
    split at hstep
    · cases hstep
    next hguard =>
    rw [not_or] at hguard
    obtain ⟨ans, hafter, hcount⟩ := writeCallback_agent hagent t.responseCode chunk out indeterminate
    obtain rfl := Option.some.inj hstep
    rcases hwrite : r.agent.writeCallback t.responseCode ans chunk.length with ⟨count, agent, calls⟩
    rw [hwrite] at hafter hcount
    have hr : r.step (.write chunk.length ans) = some { r with
        agent := agent, calls := r.calls ++ calls, bodyStarted := true,
        shortCount := count != chunk.length } := by
      simp [Request.step, hopen, hshort, hguard.1, hcode, hwrite]
    exact ⟨_, _, hr, .inl ⟨_, rfl, hafter, hcode, rfl, by rw [hcount]; rfl, hopen⟩⟩
  | complete curlResult indeterminate =>
    simp only [curlEvent, hactive, Option.bind_some] at hstep
    split at hstep
    · cases hstep
    next hguard =>
    obtain ⟨ans, hafter⟩ := completeCallback_agent hagent t.responseCode curlResult indeterminate
    obtain rfl := Option.some.inj hstep
    rcases hcomplete : r.agent.completeCallback t.responseCode ans curlResult with ⟨agent, calls⟩
    rw [hcomplete] at hafter
    have hr : r.step (.complete curlResult ans) = some { r with
        agent := agent, calls := r.calls ++ calls, curlResult := some curlResult } := by
      have hguard' : (r.shortCount && curlResult == 0) = false := by simpa [hshort] using hguard
      simp only [Request.step, hopen, hguard', hcode, hcomplete, Option.isSome_none, Bool.or_self,
        Bool.false_eq_true, if_false]
    exact ⟨_, _, hr, .inr ⟨hafter, rfl, rfl⟩⟩

end Download

end DoClient
