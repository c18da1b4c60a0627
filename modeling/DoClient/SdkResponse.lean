/-
What the callers of the SDK learn of the agent: its failures and the status of
a download, as the agent has them.
-/
import DoClient.SdkClient
import DoClient.Effects
import DoClient.Escapes

namespace DoClient

open HResult

/-! ## The errors of a status -/

/-- An error of the agent is a failure. -/
structure DownloadStatus.Failing (s : DownloadStatus) : Prop where
  error : s.error = S_OK ∨ failed s.error = true
  extendedError : s.extendedError = S_OK ∨ failed s.extendedError = true

variable {uri : UriLib} {o : Outside} {w w' : World} {op : Op} {e : Event}

theorem Ran.failing (hran : Ran uri o w op w') (h : w.dl.status.Failing)
    (hfail : ∀ hr hc code text, op = .transferFailed hr hc code text → failed hr = true) :
    w'.dl.status.Failing := by
  have hoffline : failed DO_E_BLOCKED_BY_NO_NETWORK = true := by decide
  have hnoProgress : failed DO_E_DOWNLOAD_NO_PROGRESS = true := by decide
  cases hran with
  | sendFailed hc hd =>
    obtain ⟨_, _, _, _, _, _, _, rfl⟩ := hd.rerouted
    cases hc with
    | start _ _ hset | resume _ _ hset =>
      obtain ⟨_, _, _, _, _, _, _, rfl⟩ := hset.rerouted
      exact h
    | timer | retry => exact h
  | sent | skipped | paused => exact ⟨.inl rfl, .inl rfl⟩
  | failedOffline | timerOffline => exact ⟨.inl rfl, .inr hoffline⟩
  | failedFatal => exact ⟨.inr (failed_hrErrorToReport _ (hfail _ _ _ _ rfl)), .inl rfl⟩
  | failedRetry => exact ⟨.inr (failed_hrErrorToReport _ (hfail _ _ _ _ rfl)), h.extendedError⟩
  | timedOut => exact ⟨.inr hnoProgress, h.error⟩
  | _ => exact ⟨h.error, h.extendedError⟩

theorem failing_step (hg : Good uri w) (h : w.dl.status.Failing) (hstep : step uri w e = some w') :
    w'.dl.status.Failing := by
  by_cases he : ∃ o, e = .run o
  case neg =>
    obtain ⟨agent, hdl⟩ := (step_aside hg hstep fun o ho => he ⟨o, ho⟩).dl
    rw [hdl]
    exact h
  obtain ⟨o, rfl⟩ := he
  obtain ⟨task, q, w₁, replies, hpop, -, hran, rfl⟩ := step_ran hg hstep
  obtain ⟨due, -, hmem⟩ := TaskQueue.exists_of_pop hpop
  exact hran.failing h fun hr hc code text hop => hg.orderly.failure _ hmem hr hc code text hop

/-- **Every error of a status is a failure**, in every state the agent comes to. -/
theorem failing_reachable (h : Trans.Reachable (agent uri) w) : w.dl.status.Failing :=
  h.invariant_of (Good uri) (fun _ => good_reachable) (fun w => w.dl.status.Failing)
    (fun w hi => by
      obtain ⟨url, path, -, hdl⟩ := hi.download
      rw [hdl]
      exact ⟨.inl rfl, .inl rfl⟩)
    fun w e w' hg _ h _ hstep => failing_step hg h hstep

namespace Sdk

open HttpParser RestHttpController

variable {lib : PtreeLib} {version : Bytes} {a : Attempt} {hr : HResult}

/-! ## Failures -/

theorem reply_length (version : Bytes) (code : Nat) (body : Bytes) :
    body.length < (reply version code body).length := by
  simp only [reply, List.length_append, CRLF, List.length_cons, List.length_nil]
  omega

theorem getResponse_reply {code : Nat} {body : Bytes} {x : Exchange} (hversion : VersionText version)
    (hcode : code ∈ replyCodes) (hfits : (reply version code body).length ≤ capacity)
    (hx : x.Carries (reply version code body)) :
    getResponse lib x = .ok (code, extractJsonBody lib body) := by
  have hlength := reply_length version code body
  have hcapacity : capacity = 2048 := rfl
  have hbody : body.length < 2 ^ 64 := by omega
  have htakes := takes_reply hversion hcode hbody
  have hne : reply version code body ≠ [] := List.ne_nil_of_length_pos (by omega)
  rw [getResponse, deserialize_message htakes hfits hne hx]
  rfl

theorem httpStatusFromHResult_mem (hr : HResult) : httpStatusFromHResult hr ∈ replyCodes := by
  unfold httpStatusFromHResult
  split_ifs <;> decide

theorem plain_errorCode : Plain (ascii "ErrorCode") := ⟨by decide, forall_mem_of_all (by decide)⟩

/-- The body of a failure holds the error. -/
theorem extractJsonBody_failure (hlib : lib.Faithful) (hr : HResult) :
    extractJsonBody lib (failureBody hr) = [(ascii "ErrorCode", toDecimalInt hr.toInt)] := by
  have hne : failureBody hr ≠ [] := by simp [failureBody, numberObject, ascii]
  rw [extractJsonBody, if_neg hne, failureBody, hlib.readJson_number _ _ plain_errorCode]
  rfl

theorem sendRequest_failure (hlib : lib.Faithful) (hversion : VersionText version)
    (hfailed : failed hr = true) (hfits : (onFailure version hr).length ≤ capacity)
    (ha : a.Delivers lib (onFailure version hr)) :
    sendRequest lib a = .error (.exception (makeErrorCode hr)) := by
  rw [sendRequest_delivered
    (fun x hx => getResponse_reply hversion (httpStatusFromHResult_mem hr) hfits hx) ha,
    extractJsonBody_failure hlib]
  have hread : lib.getInt32 (toDecimalInt hr.toInt) = some hr := hlib.getInt32_toDecimalInt hr
  simp [checkStatus, show httpStatusFromHResult hr ≠ 200 from httpStatusFromHResult_ne_OK hfailed,
    Ptree.find?, hread]

/-- A call fails: a request of it ends with a failure, and the reply to it comes in. -/
def Attempt.Fails (lib : PtreeLib) (version : Bytes) (a : Attempt) (hr : HResult) : Prop :=
  failed hr = true ∧ ∃ validate isLoopback packet parseAndProcess,
    EndsWith lib validate isLoopback packet parseAndProcess hr ∧
    (httpListenerCallback lib version validate isLoopback packet parseAndProcess).length ≤ capacity ∧
    a.Delivers lib (httpListenerCallback lib version validate isLoopback packet parseAndProcess)

/-- **A failure is thrown with the result it ended with.** -/
theorem Attempt.Fails.sendRequest (hlib : lib.Faithful) (hversion : VersionText version)
    (h : a.Fails lib version hr) :
    sendRequest lib a = .error (.exception (makeErrorCode hr)) := by
  obtain ⟨hfailed, validate, isLoopback, packet, parseAndProcess, hends, hfits, ha⟩ := h
  rw [hends.httpListenerCallback hfailed] at hfits ha
  exact sendRequest_failure hlib hversion hfailed hfits ha

/-- `Init` makes its request again while the agent refuses it. -/
theorem initAttempts_refused (hlib : lib.Faithful) (hversion : VersionText version) {before : List Attempt}
    (attempts : List Attempt) (h : ∀ b ∈ before, b.Fails lib version DO_E_NO_SERVICE) :
    initAttempts lib (before ++ attempts) = initAttempts lib attempts := by
  induction before with
  | nil => rfl
  | cons b before ih =>
    obtain ⟨hb, hbefore⟩ := List.forall_mem_cons.1 h
    rw [List.cons_append, initAttempts, hb.sendRequest hlib hversion]
    simp only [Except.bind, makeErrorCode, ne_eq, not_true_eq_false, if_false]
    exact ih hbefore

theorem initAttempts_failed (hlib : lib.Faithful) (hversion : VersionText version) {after : List Attempt}
    (h : a.Fails lib version hr) (hlast : hr ≠ DO_E_NO_SERVICE ∨ after = []) :
    initAttempts lib (a :: after) = .error (.exception (makeErrorCode hr)) := by
  rw [initAttempts, h.sendRequest hlib hversion]
  simp only [Except.bind]
  by_cases hr' : hr = DO_E_NO_SERVICE
  · have hafter : after = [] := hlast.resolve_left fun hne => hne hr'
    simp [makeErrorCode, hr', hafter, initAttempts]
  · simp [makeErrorCode, hr']

/-! ## Status -/

/-- The states of a download to the SDK. -/
def stateOf : DoClient.DownloadState → DownloadState
  | .created => .created
  | .transferring => .transferring
  | .transferred => .transferred
  | .finalized => .finalized
  | .aborted => .aborted
  | .paused => .paused

/-- The same status to the SDK. -/
def statusOf (s : DoClient.DownloadStatus) : DownloadStatus where
  bytesTotal := s.bytesTotal
  bytesTransferred := s.bytesTransferred
  errorCode := s.error
  extendedErrorCode := s.extendedError
  state := stateOf s.state

theorem isTransientError_statusOf {s : DoClient.DownloadStatus} (h : s.Failing) :
    (statusOf s).isTransientError = s.isTransientError := by
  have hstate : (stateOf s.state == .paused) = (s.state == .paused) := by cases s.state <;> rfl
  have hextended : (s.extendedError != 0) = failed s.extendedError := by
    rcases h.extendedError with h | h
    · rw [h]
      rfl
    · rw [h]
      exact bne_iff_ne.2 fun h0 => by simp [h0, failed] at h
  simp only [DownloadStatus.isTransientError, DoClient.DownloadStatus.isTransientError, statusOf,
    hstate, hextended]
  rfl

theorem plain_toDecimal (n : Nat) : Plain (toDecimal n) :=
  ⟨toDecimal_ne_nil n, fun c hc => .inl (by simp [isalnum, toDecimal_isdigit c hc])⟩

theorem plain_toDecimalInt (n : Int) : Plain (toDecimalInt n) := by
  obtain ⟨hne, hall⟩ := plain_toDecimal n.natAbs
  unfold toDecimalInt
  split
  · refine ⟨by simp, fun c hc => ?_⟩
    rcases List.mem_cons.1 hc with rfl | hc
    · exact .inr rfl
    · exact hall c hc
  · exact ⟨hne, hall⟩

open RestApiGetStatusRequest

theorem statusBody_eq (s : DoClient.DownloadStatus) : statusBody s = [
    (ascii "Status", downloadStateToString s.state),
    (ascii "BytesTotal", toDecimal s.bytesTotal),
    (ascii "BytesTransferred", toDecimal s.bytesTransferred),
    (ascii "ErrorCode", toDecimalInt s.error.toInt),
    (ascii "ExtendedErrorCode", toDecimalInt s.extendedError.toInt)] := by
  simp [statusBody, Ptree.put, ascii]

theorem plain_statusBody (s : DoClient.DownloadStatus) : ∀ e ∈ statusBody s, Plain e.1 ∧ Plain e.2 := by
  have hnames : ∀ name ∈ [ascii "Status", ascii "BytesTotal", ascii "BytesTransferred", ascii "ErrorCode",
      ascii "ExtendedErrorCode"], Plain name := by
    intro name hname
    simp only [List.mem_cons, List.not_mem_nil, or_false] at hname
    rcases hname with rfl | rfl | rfl | rfl | rfl <;> exact ⟨by decide, forall_mem_of_all (by decide)⟩
  have hstate : Plain (downloadStateToString s.state) := by
    cases s.state <;> exact ⟨by decide, forall_mem_of_all (by decide)⟩
  simp only [List.forall_mem_cons] at hnames
  obtain ⟨hstatus, htotal, htransferred, herror, hextended, -⟩ := hnames
  simp only [statusBody_eq, List.forall_mem_cons]
  exact ⟨⟨hstatus, hstate⟩, ⟨htotal, plain_toDecimal _⟩, ⟨htransferred, plain_toDecimal _⟩,
    ⟨herror, plain_toDecimalInt _⟩, ⟨hextended, plain_toDecimalInt _⟩, nofun⟩

theorem readStatus_statusBody (hlib : lib.Faithful) {s : DoClient.DownloadStatus}
    (htotal : s.bytesTotal < 2 ^ 64) (htransferred : s.bytesTransferred < 2 ^ 64) :
    readStatus lib (statusBody s) = .ok (statusOf s) := by
  have hfind : (statusBody s).find? (ascii "Status") = some (downloadStateToString s.state) ∧
      (statusBody s).find? (ascii "BytesTotal") = some (toDecimal s.bytesTotal) ∧
      (statusBody s).find? (ascii "BytesTransferred") = some (toDecimal s.bytesTransferred) ∧
      (statusBody s).find? (ascii "ErrorCode") = some (toDecimalInt s.error.toInt) ∧
      (statusBody s).find? (ascii "ExtendedErrorCode") = some (toDecimalInt s.extendedError.toInt) := by
    rw [statusBody_eq]
    simp [Ptree.find?, ascii]
  obtain ⟨hf₁, hf₂, hf₃, hf₄, hf₅⟩ := hfind
  have hstate : stateMap.find? (·.1 == downloadStateToString s.state) =
      some (downloadStateToString s.state, stateOf s.state) := by
    cases s.state <;> decide
  simp only [readStatus, ptreeGet, hf₁, hf₂, hf₃, hf₄, hf₅, Option.bind_some,
    hlib.getUInt64_toDecimal _ htotal,
    hlib.getUInt64_toDecimal _ htransferred, hlib.getInt32_toDecimalInt, bind, Except.bind,
    hstate, statusOf]

/-- A call gets the status: its request is for the status of a download, and the reply to it comes in. -/
def Attempt.Tells (lib : PtreeLib) (version : Bytes) (a : Attempt) (s : DoClient.DownloadStatus) : Prop :=
  ∃ validate isLoopback packet getDownloadStatus id, (validate && !isLoopback) = false ∧
    RestApiParser.method packet = .ok .getStatus ∧ RestApiParser.getStringParam packet .id = .ok id ∧
    getDownloadStatus id = .ok s ∧
    (httpListenerCallback lib version validate isLoopback packet fun _ =>
      parseAndProcess getDownloadStatus packet).length ≤ capacity ∧
    a.Delivers lib (httpListenerCallback lib version validate isLoopback packet fun _ =>
      parseAndProcess getDownloadStatus packet)

/-- **The status is told as it is.** -/
theorem Attempt.Tells.getStatus (hlib : lib.Faithful) (hversion : VersionText version)
    {s : DoClient.DownloadStatus} (h : a.Tells lib version s) (htotal : s.bytesTotal < 2 ^ 64)
    (htransferred : s.bytesTransferred < 2 ^ 64) :
    getStatus lib a = some (.ok (statusOf s)) := by
  obtain ⟨validate, isLoopback, packet, getDownloadStatus, id, hlocal, hmethod, hid, hstatus, hfits, ha⟩ := h
  have hne : statusBody s ≠ [] := by simp [statusBody_eq]
  obtain ⟨text, hwrite, htext, hread⟩ := hlib.readJson_writeJson _ hne (plain_statusBody s)
  have hreply : (httpListenerCallback lib version validate isLoopback packet fun _ =>
      parseAndProcess getDownloadStatus packet) = reply version HttpStatusCodes.OK text := by
    have hbind : (RestApiParser.getStringParam packet .id >>= getDownloadStatus) = .ok s := by
      rw [hid]
      exact hstatus
    simp [httpListenerCallback, requestResult, hlocal, hmethod, parseAndProcess, hbind, hwrite, succeeded,
      failed, S_OK]
  rw [hreply] at hfits ha
  have hbody : extractJsonBody lib text = statusBody s := by
    rw [extractJsonBody, if_neg htext, hread]
    rfl
  have hsend : sendRequest lib a = .ok (statusBody s) := by
    rw [sendRequest_delivered (fun x hx => getResponse_reply hversion (by decide) hfits hx) ha, hbody]
    rfl
  rw [Sdk.getStatus, hsend]
  show catchException (readStatus lib (statusBody s)) = _
  rw [readStatus_statusBody hlib htotal htransferred]
  rfl

/-! ## What a caller learns -/

/-- **The caller of the SDK learns what the agent has.** A call ends with the failure its last request ended with, and
only `Init` makes a second request, as long as the agent refuses it; the status of a download is what the agent's is. -/
theorem caller_learns (hlib : lib.Faithful) (hversion : VersionText version) :
    (∀ a hr, Attempt.Fails lib version a hr →
      downloadOperationCall lib a = some (.error (makeErrorCode hr)) ∧
      getStatus lib a = some (.error (makeErrorCode hr))) ∧
    (∀ before a after hr, (before ++ a :: after).length = maxNumRetryAttempts →
      (∀ b ∈ before, Attempt.Fails lib version b DO_E_NO_SERVICE) → Attempt.Fails lib version a hr →
      hr ≠ DO_E_NO_SERVICE ∨ after = [] → init lib (before ++ a :: after) =
      some (.error (makeErrorCode hr))) ∧
    (∀ uri w, Trans.Reachable (agent uri) w → ∀ a, Attempt.Tells lib version a w.dl.status →
      getStatus lib a = some (.ok (statusOf w.dl.status)) ∧
      (statusOf w.dl.status).isTransientError = w.dl.status.isTransientError) := by
  refine ⟨fun a hr h => ?_, fun before a after hr hlength hbefore h hlast => ?_, fun uri w hw a h => ?_⟩
  · have hsend := h.sendRequest hlib hversion
    refine ⟨?_, ?_⟩
    · rw [downloadOperationCall, hsend]
      rfl
    · rw [getStatus, hsend]
      rfl
  · rw [init, List.take_of_length_le (le_of_eq hlength), initAttempts_refused hlib hversion _ hbefore,
      initAttempts_failed hlib hversion h hlast]
    rfl
  · have hsized := sized_reachable hw
    exact ⟨h.getStatus hlib hversion hsized.bytesTotal hsized.bytesTransferred,
      isTransientError_statusOf (failing_reachable hw)⟩

/-! ### Trees of plain texts -/

/-- The characters of plain texts. -/
def isPlain (c : UInt8) : Bool := isalnum c || c == 45

/-- The plain texts in a text. -/
def words (s : Bytes) : List Bytes := (s.splitOnP fun c => !isPlain c).filter (· ≠ [])

theorem words_separator {sep : UInt8} (hsep : isPlain sep = false) (v : Bytes) :
    words (sep :: v) = words v := by
  have h :=
    @List.splitOnP_append_cons_of_forall_mem UInt8 (fun c => !isPlain c) [] (by simp) sep (by simp [hsep]) v
  rw [words, ← List.nil_append (sep :: v), h]
  rfl

theorem words_plain {u : Bytes} {sep : UInt8} (hu : Plain u) (hsep : isPlain sep = false) (v : Bytes) :
    words (u ++ sep :: v) = u :: words v := by
  have hall : ∀ c ∈ u, (!isPlain c) = false := fun c hc => by
    rcases hu.2 c hc with h | h <;> simp [isPlain, h]
  rw [words, List.splitOnP_append_cons_of_forall_mem hall sep (by simp [hsep]) v,
    List.filter_cons_of_pos (by simpa using hu.1)]
  rfl

/-- Names and texts take turns. -/
def pairs : List Bytes → Ptree
  | name :: text :: rest => (name, text) :: pairs rest
  | _ => []

/-- The members of an object. -/
def members : Ptree → Bytes
  | [] => []
  | e :: t =>
    ascii "\"" ++ e.1 ++ ascii "\":\"" ++ e.2 ++ ascii "\"" ++ (if t = [] then [] else ascii ",") ++ members t

theorem pairs_words_members (tail : Bytes) (htail : words tail = []) :
    ∀ t : Ptree, (∀ e ∈ t, Plain e.1 ∧ Plain e.2) → pairs (words (members t ++ tail)) = t := by
  have hquote : isPlain 34 = false := by decide
  have hcolon : isPlain 58 = false := by decide
  have hcomma : isPlain 44 = false := by decide
  intro t
  induction t with
  | nil =>
    intro _
    rw [members, List.nil_append, htail]
    rfl
  | cons e t ih =>
    intro hplain
    obtain ⟨⟨hname, htext⟩, hrest⟩ := List.forall_mem_cons.1 hplain
    have hcommas :
      words ((if t = [] then [] else ascii ",") ++ (members t ++ tail)) = words (members t ++ tail) := by
      split_ifs
      · rfl
      · exact words_separator hcomma _
    have hsplit : members (e :: t) ++ tail =
        34 :: (e.1 ++ 34 :: 58 :: 34 ::
          (e.2 ++ 34 :: ((if t = [] then [] else ascii ",") ++ (members t ++ tail)))) := by
      simp [members, ascii]
    rw [hsplit, words_separator hquote, words_plain hname hquote, words_separator hcolon,
      words_separator hquote, words_plain htext hquote, hcommas]
    show (e.1, e.2) :: pairs _ = _
    rw [ih hrest]

/-- A number read as `std::istream` reads one. -/
def readNat (s : Bytes) : Option Nat := if s ≠ [] ∧ s.all isdigit then some (digitsValue s) else none

theorem readNat_toDecimal (n : Nat) : readNat (toDecimal n) = some n := by
  rw [readNat, if_pos ⟨toDecimal_ne_nil n, List.all_eq_true.2 toDecimal_isdigit⟩, digitsValue_toDecimal]

/-- A number with its sign. -/
def readInt : Bytes → Option Int
  | 45 :: s => (readNat s).map fun n : Nat => -(n : Int)
  | s => (readNat s).map Int.ofNat

theorem readInt_toDecimalInt (n : Int) : readInt (toDecimalInt n) = some n := by
  unfold toDecimalInt
  split
  · next hneg =>
    have hvalue : -(n.natAbs : Int) = n := by omega
    rw [readInt, readNat_toDecimal, Option.map_some, hvalue]
  · next hpos =>
    have hread : readInt (toDecimal n.natAbs) = (readNat (toDecimal n.natAbs)).map Int.ofNat := by
      cases h : toDecimal n.natAbs with
      | nil => exact absurd h (toDecimal_ne_nil _)
      | cons c s =>
        have hdigit := toDecimal_isdigit c (h ▸ List.mem_cons_self)
        have hc : c ≠ 45 := fun hc => by
          rw [hc] at hdigit
          revert hdigit
          decide
        rw [readInt]
        exact fun _ hs => hc (List.cons.inj hs).1
    have hvalue : Int.ofNat n.natAbs = n := by
      rw [Int.ofNat_eq_natCast]
      omega
    rw [hread, readNat_toDecimal, Option.map_some, hvalue]

/-- Property trees of plain texts. -/
def plainTrees : PtreeLib where
  writeJson t := .ok (ascii "\x7b" ++ members t ++ ascii "\x7d\n")
  readJson s := some (pairs (words s))
  getInt32 s := (readInt s).bind fun n => if -2 ^ 31 ≤ n ∧ n < 2 ^ 31 then some (Int32.ofInt n) else none
  getUInt64 s := (readNat s).bind fun n => if n < 2 ^ 64 then some n else none

theorem faithful_plainTrees : plainTrees.Faithful where
  readJson_writeJson t _ hplain := by
    refine ⟨_, rfl, by simp [ascii], ?_⟩
    have hwords :
      words (ascii "\x7b" ++ members t ++ ascii "\x7d\n") = words (members t ++ ascii "\x7d\n") := by
      rw [List.append_assoc]
      exact words_separator (by decide) _
    show some (pairs (words _)) = some t
    rw [hwords, pairs_words_members _ (by decide) t hplain]
  readJson_number name n hname := by
    have hsplit : numberObject name n = 123 :: 32 :: 34 ::
      (name ++ 34 :: 58 :: 32 :: (toDecimalInt n ++ 32 :: [125])) := by
      simp [numberObject, ascii]
    show some (pairs (words _)) = _
    rw [hsplit, words_separator (by decide), words_separator (by decide), words_separator (by decide),
      words_plain hname (by decide), words_separator (by decide), words_separator (by decide),
      words_plain (plain_toDecimalInt n) (by decide)]
    rfl
  getInt32_toDecimalInt n := by
    show (readInt (toDecimalInt n.toInt)).bind _ = _
    rw [readInt_toDecimalInt, Option.bind_some, if_pos ⟨n.le_toInt, n.toInt_lt⟩, Int32.ofInt_toInt]
  getUInt64_toDecimal n hn := by
    show (readNat (toDecimal n)).bind _ = _
    rw [readNat_toDecimal, Option.bind_some, if_pos hn]

/-! ### Calls of an agent about to stop -/

/-- A request to create a download. -/
def createPacket : HttpPacket where
  method := ascii "POST"
  url := { path := ascii "download/create" }

/-- The version the agent is built with. -/
def agentVersion : Bytes := ascii "1.1.0"

theorem versionText_agentVersion : VersionText agentVersion := ⟨by decide, by decide⟩

/-- The reply to a request to create a download, with a result or an id. -/
def createReply (outcome : Except HResult HResult × Ptree) : Bytes :=
  httpListenerCallback plainTrees agentVersion true true createPacket fun _ => outcome

/-- The agent does not take the download. -/
def refusal : Bytes := createReply (.error DO_E_NO_SERVICE, [])

/-- A call that comes in while the agent is about to stop. -/
def refused : Attempt where
  first := { reads := [refusal] }
  again := .error .ptree

/-- A call that comes in after its restart. -/
def taken : Attempt where
  first := { reads := [createReply (.ok S_OK, [(ascii "Id", ascii "7")])] }
  again := .error .ptree

theorem refused_fails : refused.Fails plainTrees agentVersion DO_E_NO_SERVICE := by
  refine ⟨by decide, true, true, createPacket, fun _ => (.error DO_E_NO_SERVICE, []), ?_, ?_, .first ⟨?_, ?_⟩⟩
  · exact @EndsWith.thrown _ _ _ _ _ .create _ _ rfl (by decide +kernel) rfl
  · decide +kernel
  · decide +kernel
  · exact List.append_nil _

/-- A request for the status of a download. -/
def statusPacket : HttpPacket where
  method := ascii "GET"
  url := { path := ascii "download/getstatus", query := ascii "Id=7" }

/-- The status when the connection has broken after three of five bytes. -/
def brokenStatus : DoClient.DownloadStatus where
  bytesTotal := 5
  bytesTransferred := 3
  state := .transferring
  error := HttpAgent.curlErrorCodeToHResult 56

/-- A call for it. -/
def told : Attempt where
  first := { reads := [httpListenerCallback plainTrees agentVersion true true statusPacket fun _ =>
    parseAndProcess (fun _ => .ok brokenStatus) statusPacket] }
  again := .error .ptree

theorem told_tells : told.Tells plainTrees agentVersion brokenStatus := by
  refine ⟨true, true, statusPacket, fun _ => .ok brokenStatus, ascii "7", rfl, ?_, ?_, rfl, ?_,
    .first ⟨?_, ?_⟩⟩
  · decide +kernel
  · decide
  · decide +kernel
  · decide +kernel
  · exact List.append_nil _

/-- Three requests that are refused, and one for the status of a download whose connection broke. -/
theorem caller_learns_refused :
    downloadOperationCall plainTrees refused = some (.error (makeErrorCode DO_E_NO_SERVICE)) ∧
    init plainTrees [refused, refused, refused] = some (.error (makeErrorCode DO_E_NO_SERVICE)) ∧
    getStatus plainTrees told = some (.ok (statusOf brokenStatus)) := by
  obtain ⟨hcalls, hinit, hstatus⟩ := caller_learns faithful_plainTrees versionText_agentVersion
  have hrun : ((agent plainUri).runFrom newDownload ((brokenRun ["Content-Length: 5"]).take 10)).map
      (·.dl.status) = some brokenStatus := by decide +kernel
  obtain ⟨w, hreached, hbroken⟩ := Trans.reachable_of_replay reachable_newDownload hrun
  exact ⟨(hcalls refused _ refused_fails).1,
    hinit [refused, refused] refused [] _ rfl (by simp [refused_fails]) refused_fails (.inr rfl),
    hbroken ▸ (hstatus plainUri w hreached told (hbroken ▸ told_tells)).1⟩

/-- A version text that leaves no room for anything else. -/
def longVersion : Bytes := List.replicate 2048 49

theorem versionText_longVersion : VersionText longVersion := by
  have hall : ∀ c ∈ longVersion, c = 49 := fun c hc => List.eq_of_mem_replicate hc
  refine ⟨fun h => absurd (hall CR h) (by decide), fun h => ?_⟩
  have hC : (67 : UInt8) ∈ longVersion := h.subset (by decide)
  exact absurd (hall 67 hC) (by decide)

/-- The reply of an agent of that version to a request that names no method of its own. -/
def longReply : Bytes := httpListenerCallback plainTrees longVersion true true {} fun _ => (.ok S_OK, [])

/-- Its bytes, as the reads of the client take them. -/
def longExchange : Exchange where
  reads := [longReply.take 1024, (longReply.drop 1024).take 1024, longReply.drop 2048]

/-- **`Init` makes a request again that the agent refused**, and what it ends with is the result of the last one. A reply
that does not fit into the buffer, for the version it names, ends the process. -/
theorem init_tries_again :
    (¬ ∀ (lib : PtreeLib) (version : Bytes) (attempts : List Attempt) (a : Attempt) (hr : HResult),
      lib.Faithful →
      VersionText version → attempts.length = maxNumRetryAttempts → attempts.head? = some a →
      a.Fails lib version hr →
      ∃ ec, init lib attempts = some (.error ec) ∧ ec.value = hr) ∧
    ¬ ∀ (lib : PtreeLib) (version : Bytes) validate isLoopback packet parseAndProcess (a : Attempt)
    (hr : HResult),
      lib.Faithful → VersionText version → EndsWith lib validate isLoopback packet parseAndProcess hr →
      failed hr = true →
      a.Delivers lib (httpListenerCallback lib version validate isLoopback packet parseAndProcess) →
      ∃ ec, downloadOperationCall lib a = some (.error ec) ∧ ec.value = hr := by
  refine ⟨fun h => ?_, fun h => ?_⟩
  · obtain ⟨ec, hinit, -⟩ :=
      h plainTrees agentVersion [refused, taken, taken] refused DO_E_NO_SERVICE faithful_plainTrees
      versionText_agentVersion rfl rfl refused_fails
    have htaken : init plainTrees [refused, taken, taken] = some (.ok (ascii "7")) := by decide +kernel
    rw [htaken] at hinit
    cases hinit
  · have hmethod : RestApiParser.method {} = .error E_UNSUPPORTED := by decide
    have hends : EndsWith plainTrees true true {} (fun _ => (.ok S_OK, [])) E_UNSUPPORTED :=
      .noMethod rfl hmethod
    have hreply : longReply = onFailure longVersion E_UNSUPPORTED := hends.httpListenerCallback (by decide)
    have hlong : capacity < longReply.length := by
      have hversion : longVersion.length = 2048 := List.length_replicate
      have hcapacity : capacity = 2048 := rfl
      rw [hreply, onFailure, reply]
      simp only [List.length_append, hversion, CRLF, List.length_cons, List.length_nil]
      omega
    have hcarries : longExchange.Carries longReply := by
      refine ⟨?_, ?_⟩
      · have hcapacity : capacity = 2048 := rfl
        intro r hr
        simp only [longExchange, List.mem_cons, List.not_mem_nil, or_false] at hr
        refine List.ne_nil_of_length_pos ?_
        rcases hr with hr | hr | hr
        all_goals
          rw [hr]
          simp only [List.length_take, List.length_drop]
          omega
      · have hdrop : longReply.drop 2048 = (longReply.drop 1024).drop 1024 := by rw [List.drop_drop]
        simp only [longExchange, List.flatten_cons, List.flatten_nil, List.append_nil]
        rw [hdrop, List.take_append_drop, List.take_append_drop]
    have hbody : (failureBody E_UNSUPPORTED).length < 2 ^ 64 := by decide
    have htakes : ∃ packet, Takes longReply packet := by
      rw [hreply]
      exact ⟨_, takes_reply versionText_longVersion (httpStatusFromHResult_mem E_UNSUPPORTED) hbody⟩
    obtain ⟨packet, htakes⟩ := htakes
    obtain ⟨e, he⟩ := deserialize_too_long htakes hlong hcarries
    obtain ⟨ec, hcall, -⟩ :=
      h plainTrees longVersion true true {} (fun _ => (.ok S_OK, [])) ⟨longExchange, .error .ptree⟩
      E_UNSUPPORTED faithful_plainTrees versionText_longVersion hends (by decide) (.first hcarries)
    have hnone : downloadOperationCall plainTrees ⟨longExchange, .error .ptree⟩ = none := by
      rw [downloadOperationCall, sendRequest, getResponse, he]
      rfl
    rw [hnone] at hcall
    cases hcall

end Sdk

end DoClient
