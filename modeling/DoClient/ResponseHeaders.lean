/-
The lengths `HttpAgent` reads out of the headers of a chain of redirects and a
final response. libcurl passes on the lines of them all; the agent keeps one
map of them, by the very letters of the names.
-/
import DoClient.Callbacks

namespace DoClient

/-- A response as libcurl passes it on. -/
structure Response where
  code : Nat
  lines : List String
  deriving DecidableEq, Repr

namespace HttpAgent

/-! ## Header fields -/

/-- The name and the value of a header line: the text before the first colon, if there is any, and the text after it. -/
def headerField (line : String) : Option (String × String) :=
  let name := line.toList.takeWhile (· != ':')
  if name.isEmpty || name.length == line.toList.length then none
  else some (String.ofList name, String.ofList (line.toList.drop (name.length + 1)))

/-- The last field whose name passes. -/
def lastField (p : String → Bool) (lines : List String) : Option (String × String) :=
  (lines.filterMap headerField).reverse.find? (p ·.1)

/-- Names are the same whatever the case of their letters. -/
def sameName (name name' : String) : Bool := name.toList.map Char.toLower == name'.toList.map Char.toLower

/-- The length a `Content-Length` tells: 0 without one. -/
def readContentLength : Option String → Except HResult Nat
  | none => .ok 0
  | some lengthHeader =>
    match stoull lengthHeader.toList with
    | some n => .ok n
    | none => .error HResult.ERROR_UNHANDLED_EXCEPTION

/-- The length a `Content-Range` tells, after the slash. -/
def readContentRange : Option String → Except HResult Nat
  | none => .error HResult.E_NOT_SET
  | some rangeHeader =>
    match (rangeHeader.toList.takeWhile (· != '\x00')).dropWhile (· != '/') with
    | [] => .error HResult.E_NOT_SET
    | _ :: afterMarker =>
      match stoull afterMarker with
      | some n => .ok n
      | none => .error HResult.ERROR_UNHANDLED_EXCEPTION

/-! ## The map of headers -/

/-- What the map holds under a name. -/
def kept (headers : List (String × String)) (name : String) : Option String :=
  (headers.find? (·.1 == name)).map (·.2)

theorem find?_replaced {headers : List (String × String)} {name value : String}
    (h : headers.any (·.1 == name) = true) :
    (headers.map fun h => if h.1 == name then (name, value) else h).find? (·.1 == name) =
    some (name, value) := by
  induction headers with
  | nil => simp at h
  | cons e headers ih =>
    by_cases he : e.1 = name
    · simp [he]
    · have h' : headers.any (·.1 == name) = true := by simpa [he] using h
      simpa [he] using ih h'

theorem find?_other {headers : List (String × String)} {name value name' : String} (hne : name ≠ name') :
    (headers.map fun h => if h.1 == name then (name, value) else h).find? (·.1 == name') =
      headers.find? (·.1 == name') := by
  induction headers with
  | nil => rfl
  | cons e headers ih =>
    by_cases he : e.1 = name
    · simp only [List.map_cons, he, beq_self_eq_true, if_true, List.find?_cons, beq_eq_false_iff_ne.2 hne, ih]
    · simp only [List.map_cons, beq_eq_false_iff_ne.2 he, Bool.false_eq_true, if_false, List.find?_cons, ih]

/-- A line sets the value of the name it has. -/
theorem kept_noteHeader (headers : List (String × String)) (line name : String) :
    kept (noteHeader headers line) name =
      match headerField line with
      | some f => if f.1 == name then some f.2 else kept headers name
      | none => kept headers name := by
  unfold noteHeader headerField
  simp only
  split
  · rfl
  simp only [String.length_ofList]
  generalize String.ofList (line.toList.takeWhile (· != ':')) = field
  generalize String.ofList (line.toList.drop _) = value
  unfold kept
  cases hany : headers.any (·.1 == field) with
  | true =>
    simp only [if_true]
    by_cases hname : field = name
    · subst hname
      rw [find?_replaced hany, beq_self_eq_true, if_pos rfl]
      rfl
    · rw [find?_other hname, beq_eq_false_iff_ne.2 hname, if_neg Bool.false_ne_true]
  | false =>
    have hnone : headers.find? (·.1 == field) = none := by simpa [List.find?_eq_none] using hany
    simp only [Bool.false_eq_true, if_false, List.find?_append, List.find?_cons, List.find?_nil]
    by_cases hname : field = name
    · subst hname
      simp only [hnone, beq_self_eq_true, if_true, Option.none_or, Option.map_some]
    · simp only [beq_eq_false_iff_ne.2 hname, Bool.false_eq_true, if_false, Option.or_none]

theorem lastField_concat (p : String → Bool) (lines : List String) (line : String) :
    lastField p (lines ++ [line]) =
      match headerField line with
      | some f => if p f.1 then some f else lastField p lines
      | none => lastField p lines := by
  unfold lastField
  rw [List.filterMap_append]
  cases hf : headerField line with
  | none => simp [hf]
  | some f => cases hp : p f.1 <;> simp [hf, hp]

/-- The map holds the last value of a name. -/
theorem kept_lines (lines : List String) (name : String) :
    kept (lines.foldl noteHeader []) name = (lastField (· == name) lines).map (·.2) := by
  induction lines using List.reverseRecOn with
  | nil => rfl
  | append_singleton lines line ih =>
    rw [List.foldl_append, List.foldl_cons, List.foldl_nil, kept_noteHeader, lastField_concat, ih]
    cases headerField line with
    | none => rfl
    | some f =>
      by_cases hname : f.1 = name
      · simp only [hname, beq_self_eq_true, if_true, Option.map_some]
      · simp only [beq_eq_false_iff_ne.2 hname, Bool.false_eq_true, if_false]

variable {a : HttpAgent}

theorem queryHeader_kept (name : String) : a.queryHeader name =
    match kept a.responseHeaders name with
    | some value => .ok value
    | none => .error HResult.E_NOT_SET := by
  unfold queryHeader kept
  cases a.responseHeaders.find? (·.1 == name) <;> rfl

theorem queryContentLength_kept :
    a.queryContentLength = readContentLength (kept a.responseHeaders "Content-Length") := by
  unfold queryContentLength
  rw [queryHeader_kept]
  cases kept a.responseHeaders "Content-Length" <;> rfl

theorem queryContentLengthFromRange_kept :
    a.queryContentLengthFromRange = readContentRange (kept a.responseHeaders "Content-Range") := by
  unfold queryContentLengthFromRange
  rw [queryHeader_kept]
  cases kept a.responseHeaders "Content-Range" <;> rfl

end HttpAgent

/-! ## Chains of responses -/

namespace Response

/-- What a response says in a header, whatever case the name is written in. -/
def field (r : Response) (name : String) : Option String :=
  (HttpAgent.lastField (HttpAgent.sameName name) r.lines).map (·.2)

/-- The events libcurl passes a response on by, up to its body. -/
def events (r : Response) : List RequestEvent := .status r.code :: r.lines.map .header

end Response

/-- The lines of a chain. -/
def chainLines (chain : List Response) : List String := chain.flatMap (·.lines)

theorem runFrom_headers {uri : UriLib} (lines : List String) (r : Request) (hopen : r.curlResult = none) :
    (agentRequests uri).runFrom r (lines.map .header) =
      some { r with agent := { r.agent with
        responseHeaders := lines.foldl HttpAgent.noteHeader r.agent.responseHeaders } } := by
  induction lines generalizing r with
  | nil => rfl
  | cons line lines ih =>
    have hstep :
      (agentRequests uri).step r (.header line) = some { r with agent := r.agent.headerCallback line } := by
      simp [agentRequests, Request.step, hopen]
    have hrest := ih { r with agent := r.agent.headerCallback line } hopen
    rw [List.map_cons, Trans.System.runFrom, hstep, Option.bind_some]
    exact hrest

/-- A chain passes on its lines, and comes before the body. -/
theorem runFrom_chain {uri : UriLib} (chain : List Response) (r : Request) (hopen : r.curlResult = none)
    (hbody : r.bodyStarted = false) : ∃ code, (agentRequests uri).runFrom r (chain.flatMap Response.events) =
      some { r with responseCode := code, agent := { r.agent with
        responseHeaders := (chainLines chain).foldl HttpAgent.noteHeader r.agent.responseHeaders } } := by
  induction chain generalizing r with
  | nil => exact ⟨r.responseCode, rfl⟩
  | cons resp chain ih =>
    have hstep :
      (agentRequests uri).step r (.status resp.code) = some { r with responseCode := resp.code } := by
      simp [agentRequests, Request.step, hopen, hbody]
    obtain ⟨code, hrun⟩ := ih { r with responseCode := resp.code, agent := { r.agent with
      responseHeaders := resp.lines.foldl HttpAgent.noteHeader r.agent.responseHeaders } } hopen hbody
    refine ⟨code, ?_⟩
    have hlines := @runFrom_headers uri resp.lines { r with responseCode := resp.code } hopen
    rw [List.flatMap_cons, Trans.runFrom_append, Response.events, Trans.System.runFrom, hstep,
      Option.bind_some, hlines, Option.bind_some, chainLines, List.flatMap_cons, List.foldl_append]
    exact hrun

/-! ## The lengths -/

namespace HttpAgent

/-- What the two queries give is what a response says of its lengths. -/
def TellsLengthsOf (a : HttpAgent) (final : Response) : Prop :=
  a.queryContentLength = readContentLength (final.field "Content-Length") ∧
  a.queryContentLengthFromRange = readContentRange (final.field "Content-Range")

variable {name : String} {redirects : List Response} {final : Response}

/-- The final response spells the last header so named by the very letters; or it has none, and
no redirect has one spelled so. -/
def spelledOut (name : String) (redirects : List Response) (final : Response) : Bool :=
  match lastField (sameName name) final.lines with
  | some f => f.1 == name
  | none => (lastField (· == name) (chainLines redirects)).isNone

/-- The last line of the chain spelled so, wherever it is, happens to tell the length meant. -/
def SameLength {α : Type} (read : Option String → α) (name : String) (redirects : List Response)
    (final : Response) : Prop :=
  read ((lastField (· == name) (chainLines (redirects ++ [final]))).map (·.2)) = read (final.field name)

theorem find?_narrow {α : Type*} {p q : α → Bool} (hqp : ∀ x, q x = true → p x = true) {l : List α}
    (h : ∀ x ∈ l.find? p, q x = true) : l.find? q = l.find? p := by
  induction l with
  | nil => rfl
  | cons x l ih =>
    rw [List.find?_cons] at h
    by_cases hp : p x = true
    · rw [hp] at h
      rw [List.find?_cons_of_pos (h x rfl), List.find?_cons_of_pos hp]
    · rw [Bool.not_eq_true] at hp
      rw [hp] at h
      have hq : ¬ q x = true := fun hq => absurd (hqp x hq) (by simp [hp])
      rw [List.find?_cons_of_neg hq, List.find?_cons_of_neg (by simp [hp])]
      exact ih h

theorem lastField_append (p : String → Bool) (lines lines' : List String) :
    lastField p (lines ++ lines') = (lastField p lines').or (lastField p lines) := by
  unfold lastField
  rw [List.filterMap_append, List.reverse_append, List.find?_append]

/-- A header spelled out is the one the agent takes. -/
theorem sameLength_of_spelledOut (h : spelledOut name redirects final = true) {α : Type}
    (read : Option String → α) :
    SameLength read name redirects final := by
  have hfinal : lastField (· == name) final.lines = lastField (sameName name) final.lines := by
    refine find?_narrow (fun f hf => ?_) fun f hf => ?_
    · rw [eq_of_beq hf]
      exact beq_self_eq_true _
    · have hf : lastField (sameName name) final.lines = some f := hf
      rw [spelledOut, hf] at h
      exact h
  have hchain : lastField (· == name) (chainLines (redirects ++ [final])) =
      (lastField (sameName name) final.lines).or (lastField (· == name) (chainLines redirects)) := by
    rw [chainLines, List.flatMap_append, List.flatMap_singleton, lastField_append, hfinal, chainLines]
  unfold SameLength Response.field
  rw [hchain]
  unfold spelledOut at h
  cases hf : lastField (sameName name) final.lines with
  | some f => rfl
  | none =>
    rw [hf] at h
    rw [Option.isNone_iff_eq_none.1 h]
    rfl

/-- The field the agent takes is as good as the one meant. -/
def LengthReads {α : Type} (read : Option String → α) (name : String) (redirects : List Response)
    (final : Response) : Prop :=
  spelledOut name redirects final = true ∨ SameLength read name redirects final

theorem lengthReads_iff {α : Type} {read : Option String → α} :
    LengthReads read name redirects final ↔ SameLength read name redirects final :=
  ⟨fun h => h.elim (sameLength_of_spelledOut · read) id, .inr⟩

theorem TellsLengthsOf.congr {a a' : HttpAgent} (h : a.responseHeaders = a'.responseHeaders) :
    a.TellsLengthsOf final ↔ a'.TellsLengthsOf final := by
  unfold TellsLengthsOf
  rw [queryContentLength_kept, queryContentLengthFromRange_kept, queryContentLength_kept,
    queryContentLengthFromRange_kept, h]

/-- What calls `OnHeadersAvailable` leaves the map alone. -/
theorem trySetStatusCode_responseHeaders (a : HttpAgent) (responseCode : Nat) (ans : Answers) :
    (a.trySetStatusCode responseCode ans).1.responseHeaders = a.responseHeaders := by
  unfold trySetStatusCode
  split
  · rfl
  · simp only
    split <;> rfl

end HttpAgent

/-- **The lengths told to `OnHeadersAvailable`.** They are the final response's exactly when both names are
spelled out, or the line taken instead tells the same. -/
theorem Request.tells_lengths_iff {uri : UriLib} {redirects : List Response} {final : Response}
    {r₀ r : Request} (hinit : (agentRequests uri).init r₀)
    (hrun : (agentRequests uri).runFrom r₀ ((redirects ++ [final]).flatMap Response.events) = some r)
    (ans : Answers) :
    (r.agent.trySetStatusCode r.responseCode ans).1.TellsLengthsOf final ↔
      HttpAgent.LengthReads HttpAgent.readContentLength "Content-Length" redirects final ∧
      HttpAgent.LengthReads HttpAgent.readContentRange "Content-Range" redirects final := by
  obtain ⟨a, szUrl, szProxyUrl, szRange, secs, hok, rfl⟩ := hinit
  obtain ⟨handle, headers, hreset⟩ := HttpAgent.prepareRequest_resets hok
  obtain ⟨code, hchain⟩ := @runFrom_chain uri (redirects ++ [final])
    { agent := (a.prepareRequest uri szUrl szProxyUrl szRange secs).2 } rfl rfl
  have hheaders :
    r.agent.responseHeaders = (chainLines (redirects ++ [final])).foldl HttpAgent.noteHeader [] := by
    rw [hrun, hreset] at hchain
    rw [Option.some.inj hchain]
  rw [HttpAgent.TellsLengthsOf.congr (HttpAgent.trySetStatusCode_responseHeaders r.agent r.responseCode ans)]
  unfold HttpAgent.TellsLengthsOf
  rw [HttpAgent.queryContentLength_kept, HttpAgent.queryContentLengthFromRange_kept, hheaders,
    HttpAgent.kept_lines, HttpAgent.kept_lines, HttpAgent.lengthReads_iff, HttpAgent.lengthReads_iff]
  rfl

/-- A redirect with a body of its own. -/
def moved : Response := ⟨302, ["Location: http://cdn/file\r\n", "Content-Length: 154\r\n", "\r\n"]⟩

theorem Request.tells_lengths_partialContent : ∃ handle headers, ∃ r : Request,
    (agentRequests plainUri).runFrom { agent := { curlHandle := handle, requestHeaders := headers } }
      ([moved, ⟨206, ["Content-Length: 5\r\n", "Content-Range: bytes 3-7/8\r\n"]⟩].flatMap
        Response.events) = some r ∧
    (r.agent.trySetStatusCode r.responseCode ⟨HResult.S_OK, HResult.S_OK⟩).1.TellsLengthsOf
      ⟨206, ["Content-Length: 5\r\n", "Content-Range: bytes 3-7/8\r\n"]⟩ := by
  obtain ⟨handle, headers, hinit⟩ := Request.exists_init
  obtain ⟨code, hrun⟩ := @runFrom_chain plainUri
    [moved, ⟨206, ["Content-Length: 5\r\n", "Content-Range: bytes 3-7/8\r\n"]⟩]
    { agent := { curlHandle := handle, requestHeaders := headers } } rfl rfl
  exact ⟨handle, headers, _, hrun, (@Request.tells_lengths_iff plainUri [moved] _ _ _ hinit hrun _).2
    ⟨.inl (by decide +kernel), .inl (by decide +kernel)⟩⟩

/-- An HTTP/2 response that tells 5 bytes is taken for one of the 154 of the redirect before it. -/
theorem Request.tells_length_of_redirect : ∃ handle headers, ∃ r : Request,
    (agentRequests plainUri).init { agent := { curlHandle := handle, requestHeaders := headers } } ∧
    (agentRequests plainUri).runFrom { agent := { curlHandle := handle, requestHeaders := headers } }
      ([moved, ⟨200, ["content-length: 5\r\n"]⟩].flatMap Response.events) = some r ∧
    HttpAgent.readContentLength (Response.field ⟨200, ["content-length: 5\r\n"]⟩ "Content-Length") = .ok 5 ∧
    (r.agent.trySetStatusCode r.responseCode ⟨HResult.S_OK, HResult.S_OK⟩).1.queryContentLength =
    .ok 154 := by
  obtain ⟨handle, headers, hinit⟩ := Request.exists_init
  obtain ⟨code, hrun⟩ := @runFrom_chain plainUri [moved, ⟨200, ["content-length: 5\r\n"]⟩]
    { agent := { curlHandle := handle, requestHeaders := headers } } rfl rfl
  refine ⟨handle, headers, _, hinit, hrun, by decide +kernel, ?_⟩
  rw [HttpAgent.queryContentLength_kept, HttpAgent.trySetStatusCode_responseHeaders]
  have hkept : HttpAgent.readContentLength (HttpAgent.kept
      ((chainLines [moved, ⟨200, ["content-length: 5\r\n"]⟩]).foldl HttpAgent.noteHeader [])
        "Content-Length") = .ok 154 := by
    decide +kernel
  exact hkept

end DoClient
