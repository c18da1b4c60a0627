/-
One message cut into chunks: whether the parser takes it does not depend on
where it is cut, and where it takes it, it is done with the last byte and not
before, with what it would have got from all of it at once.
-/
import DoClient.HttpMessage

namespace DoClient

/-! ## Messages, readable or not -/

/-- The lines that set the content length. -/
def isContentLength (field : Bytes) : Bool := decide (ascii "Content-Length" <:+: field)

/-- The number such a line has behind its colon; a line without one is not readable. -/
def saidLength (field : Bytes) : Nat :=
  match Pattern.fullMatch HttpParser.rxContentLength (cstr field) with
  | some [length] => strtoul length
  | _ => 0

namespace HttpParser

theorem parseField_length {field : Bytes} {packet packet' : HttpPacket}
    (h : parseField field packet = .ok packet') :
    packet'.contentLength =
    if isContentLength field = true then saidLength field else packet.contentLength := by
  by_cases hname : ascii "Content-Length" <:+: field
  · simp only [parseField, if_pos hname] at h
    split at h
    · next length hmatch =>
      obtain rfl := Except.ok.inj h
      simp [isContentLength, hname, saidLength, hmatch]
    · cases h
  · simp only [parseField, if_neg hname] at h
    obtain rfl := Except.ok.inj h
    simp [isContentLength, hname]

end HttpParser

/-- So `Content-Length:`, spaces and digits say the number. -/
theorem saidLength_eq {spaces digits : Bytes} (hspaces : ∀ c ∈ spaces, HttpParser.isSpace c = true)
    (hne : digits ≠ []) (hdigits : ∀ c ∈ digits, isdigit c = true) (hfits : digitsValue digits < 2 ^ 64) :
    saidLength (ascii "Content-Length" ++ 58 :: (spaces ++ digits)) = digitsValue digits := by
  have hread := HttpParser.parseField_length (HttpParser.parseField_lengthLine hspaces hne hdigits {})
  have hname : isContentLength (ascii "Content-Length" ++ 58 :: (spaces ++ digits)) = true :=
    decide_eq_true (List.prefix_append _ _).isInfix
  rw [if_pos hname] at hread
  rw [← hread, strtoul]
  exact Nat.min_eq_left (by omega)

/-- What the last `Content-Length` says. -/
def declaredLength (fields : List Bytes) : Nat :=
  ((fields.filter isContentLength).getLast?.map saidLength).getD 0

/-- A first line, field lines, an empty line and the body that is declared, no more than the
parser has room for. Nothing is said of the lines but where they end. -/
structure RawMessage where
  line : Bytes
  fields : List Bytes
  body : Bytes
  line_ok : ¬ CRLF <:+: line
  fields_ok : ∀ field ∈ fields, field ≠ [] ∧ ¬ CRLF <:+: field
  body_ok : body.length = declaredLength fields
  fits : (line ++ CRLF ++ (fieldLines fields ++ CRLF ++ body)).length ≤ HttpParser.capacity

def RawMessage.bytes (m : RawMessage) : Bytes := m.line ++ CRLF ++ (fieldLines m.fields ++ CRLF ++ m.body)

/-- A way of cutting bytes into chunks. -/
def Cut (m : Bytes) (chunks : List Bytes) : Prop := chunks.flatten = m ∧ ∀ c ∈ chunks, c ≠ []

namespace HttpParser

variable {p q : HttpParser} {m : Bytes}

/-! ## What is not taken -/

/-- A CR within a line is followed by no LF. -/
theorem findCRLF_malformed {line : Bytes} (hcr : CR ∈ line) (hline : ¬ CRLF <:+: line) (t : Bytes) :
    ∃ e, findCRLF (line ++ CRLF ++ t) = .error e := by
  obtain ⟨u, v, rfl, hu⟩ := List.eq_append_cons_of_mem hcr
  have hi : (u ++ CR :: v ++ CRLF ++ t).findIdx? (· == CR) = some u.length := by
    have hnone : u.findIdx? (· == CR) = none := by
      rw [List.findIdx?_eq_none_iff]
      intro c hc
      simpa using fun h : c = CR => hu (h ▸ hc)
    simp [List.findIdx?_append, hnone, List.findIdx?_cons]
  obtain ⟨c, hc, hne⟩ : ∃ c, (u ++ CR :: v ++ CRLF ++ t)[u.length + 1]? = some c ∧ c ≠ LF := by
    cases v with
    | nil => exact ⟨CR, by simp [CRLF], by decide⟩
    | cons c v =>
      refine ⟨c, by simp, fun hlf => hline ⟨u, v, ?_⟩⟩
      simp [hlf, CRLF]
  exact ⟨_, (findCRLF_eq hi hc).trans (if_neg hne)⟩

/-- A field line that cannot be read throws. -/
theorem runs_fields_error {body : Bytes} : ∀ (fields : List Bytes) (p : HttpParser),
    (∀ field ∈ fields, field ≠ [] ∧ ¬ CRLF <:+: field) → p.rest = fieldLines fields ++ CRLF ++ body →
      (∃ field ∈ fields, CR ∈ field) ∨
        (∃ e, fields.foldlM (fun packet field => parseField field packet) p.parsedData = .error e) →
      ∃ e, Loop.Runs parseNextField p (.error e) := by
  intro fields
  induction fields with
  | nil =>
    rintro p - - (⟨field, hfield, -⟩ | ⟨e, he⟩)
    · cases hfield
    · cases he
  | cons field fields ih =>
    intro p hfields hrest hbad
    obtain ⟨⟨hne, hcrlf⟩, hfields⟩ := List.forall_mem_cons.1 hfields
    by_cases hcr : CR ∈ field
    · obtain ⟨e, he⟩ := findCRLF_malformed hcr hcrlf (fieldLines fields ++ CRLF ++ body)
      rw [← rest_fieldLine hrest] at he
      exact ⟨e, .throws (by rw [parseNextField, he])⟩
    have hround := parseNextField_line hrest hne hcr
    cases hpacket : parseField field p.parsedData with
    | error e => exact ⟨e, .throws (by rw [hround, hpacket]; rfl)⟩
    | ok packet =>
      rw [hpacket] at hround
      have hbad' : (∃ field ∈ fields, CR ∈ field) ∨
          (∃ e, fields.foldlM (fun packet field => parseField field packet) packet = .error e) := by
        rcases hbad with ⟨field', hfield', hcr'⟩ | ⟨e, he⟩
        · rcases List.mem_cons.1 hfield' with rfl | hfield'
          · exact absurd hcr' hcr
          · exact .inl ⟨field', hfield', hcr'⟩
        · rw [List.foldlM_cons, hpacket] at he
          exact .inr ⟨e, he⟩
      obtain ⟨e, he⟩ := ih (p.afterField field packet) hfields (rest_afterField hrest packet) hbad'
      exact ⟨e, .goesOn hround he⟩

/-- **A message whose lines are not all readable is not taken.** -/
theorem scan_error {line : Bytes} {fields : List Bytes} {body : Bytes} (hline : ¬ CRLF <:+: line)
    (hfields : ∀ field ∈ fields, field ≠ [] ∧ ¬ CRLF <:+: field)
    (h : CR ∈ line ∨ (∃ field ∈ fields, CR ∈ field) ∨ ∃ e, parseHeader line fields = .error e) :
    ∃ e, scan (line ++ CRLF ++ (fieldLines fields ++ CRLF ++ body)) = .error e := by
  have hthrows : ∃ e, Loop.Runs parseBuf
      { incomingDataBuf := line ++ CRLF ++ (fieldLines fields ++ CRLF ++ body) } (.error e) := by
    by_cases hcr : CR ∈ line
    · obtain ⟨e, he⟩ := findCRLF_malformed hcr hline (fieldLines fields ++ CRLF ++ body)
      exact ⟨e, .throws (by simp only [parseBuf, he])⟩
    have hround := parseBuf_line (t := fieldLines fields ++ CRLF ++ body) hcr
    cases hfirst : parseFirstLine line {} with
    | error e => exact ⟨e, .throws (by rw [hround, hfirst]; rfl)⟩
    | ok first =>
      rw [hfirst] at hround
      have hbad : (∃ field ∈ fields, CR ∈ field) ∨
          ∃ e, fields.foldlM (fun packet field => parseField field packet) first = .error e := by
        rcases h with h | h | ⟨e, he⟩
        · exact absurd h hcr
        · exact .inl h
        · rw [parseHeader, hfirst] at he
          exact .inr ⟨e, he⟩
      let p₁ := afterLine (line ++ CRLF ++ (fieldLines fields ++ CRLF ++ body)) line first
      obtain ⟨e, he⟩ := runs_fields_error fields p₁ hfields (rest_afterLine line _ first) hbad
      have hround₂ : p₁.parseBuf = .error e := by
        have hparse : p₁.parseFields = .error e := (runs_parseFields p₁).det he
        simp only [parseBuf, show p₁.state = .fields from rfl, hparse]
        rfl
      exact ⟨e, .goesOn hround (.throws hround₂)⟩
  obtain ⟨e, he⟩ := hthrows
  exact ⟨e, (runs_parse _).det he⟩

/-- In the body nothing throws. -/
theorem runs_of_body (hp : p.state = .body) : ∃ q, Loop.Runs parseBuf p (.ok q) := by
  by_cases hlength : p.parsedData.contentLength = 0
  · have hround : p.parseBuf = .ok (true, { p with state := .complete }) := by
      simp only [parseBuf, hp, if_pos hlength]
    exact ⟨_, .goesOn hround (.stops rfl)⟩
  by_cases hrest : p.rest.length = p.parsedData.contentLength
  · have hround : p.parseBuf = .ok (true, { p with
        state := .complete
        itParseFrom := p.incomingDataBuf.length
        parsedData := { p.parsedData with body := p.parsedData.body ++ p.rest } }) := by
      simp only [parseBuf, hp, if_neg hlength, if_pos hrest]
    exact ⟨_, .goesOn hround (.stops rfl)⟩
  · have hround : p.parseBuf = .ok (false, p) := by
      simp only [parseBuf, hp, if_neg hlength, if_neg hrest]
    exact ⟨p, .stops hround⟩

/-- Bytes behind a complete message do not throw. -/
theorem scan_append_of_complete {b : Bytes} (h : scan b = .ok p) (hp : p.state = .complete) (data : Bytes) :
    ∃ q, scan (b ++ data) = .ok q := by
  have hrun : Loop.Runs parseBuf { incomingDataBuf := b } (.ok p) := h ▸ runs_parse _
  obtain ⟨t, -, hbody, -, -, hlift⟩ := comes_to_body data hrun (Nat.zero_le _) (by simp) hp
  obtain ⟨q, hq⟩ := runs_of_body (p := t.append data) hbody
  exact ⟨q, (runs_parse _).det (hlift _ hq)⟩

/-- **What is not taken at once is not taken in chunks.** -/
theorem receive_error {e : StdException} (h : scan m = .error e) (hfits : m.length ≤ capacity) :
    ∀ (chunks : List Bytes) (b : Bytes) (q : HttpParser), b ++ chunks.flatten = m → scan b = .ok q →
      ∃ e, receive q chunks = .error e
  | [], b, q, hb, hq => by
    rw [List.flatten_nil, List.append_nil] at hb
    rw [hb, h] at hq
    cases hq
  | c :: chunks, b, q, hb, hq => by
    rw [List.flatten_cons, ← List.append_assoc] at hb
    have hstate : q.state ≠ .complete := fun hcomplete => by
      obtain ⟨q', hq'⟩ := scan_append_of_complete hq hcomplete (c ++ chunks.flatten)
      rw [← List.append_assoc, hb, h] at hq'
      cases hq'
    have hlength : b.length + c.length ≤ capacity := by
      have := congrArg List.length hb
      simp only [List.length_append] at this
      omega
    have hnext := onData_scan c hq hstate hlength
    rw [receive, List.foldlM_cons, hnext]
    cases hscan : scan (b ++ c) with
    | error e => exact ⟨e, rfl⟩
    | ok q' => exact receive_error h hfits chunks (b ++ c) q' hb hscan

/-! ## The content length -/

/-- The last line that sets the length wins. -/
theorem parseFields_length {header : HttpPacket} (fields : List Bytes) (packet : HttpPacket)
    (h : fields.foldlM (fun packet field => parseField field packet) packet = .ok header) :
    header.contentLength =
      ((fields.filter isContentLength).getLast?.map saidLength).getD packet.contentLength := by
  induction fields using List.reverseRecOn generalizing header with
  | nil =>
    obtain rfl := Except.ok.inj h
    rfl
  | append_singleton fields field ih =>
    rw [List.foldlM_append] at h
    cases hfields : fields.foldlM (fun packet field => parseField field packet) packet with
    | error e => rw [hfields] at h; cases h
    | ok packet' =>
      rw [hfields] at h
      change [field].foldlM (fun packet field => parseField field packet) packet' = .ok header at h
      rw [List.foldlM_cons] at h
      cases hlast : parseField field packet' with
      | error e => rw [hlast] at h; cases h
      | ok last =>
        rw [hlast] at h
        obtain rfl := Except.ok.inj h
        rw [parseField_length hlast, List.filter_append, ih hfields]
        by_cases hname : isContentLength field = true <;> simp [hname]

theorem parseFirstLine_length {line : Bytes} {packet packet' : HttpPacket}
    (h : parseFirstLine line packet = .ok packet') :
    packet'.contentLength = packet.contentLength := by
  unfold parseFirstLine at h
  split at h
  · cases h; rfl
  · split at h
    · next method url _ =>
      cases hu : Uri.ofString url with
      | error e => simp [hu, Except.map] at h
      | ok u =>
        simp only [hu, Except.map, Except.ok.injEq] at h
        rw [← h]
    · cases h

theorem parseHeader_length {line : Bytes} {fields : List Bytes} {header : HttpPacket}
    (h : parseHeader line fields = .ok header) : header.contentLength = declaredLength fields := by
  unfold parseHeader at h
  cases hfirst : parseFirstLine line {} with
  | error e => rw [hfirst] at h; cases h
  | ok first =>
    rw [hfirst] at h
    rw [parseFields_length fields first h, parseFirstLine_length hfirst]
    rfl

end HttpParser

/-! ## Chunks -/

namespace RawMessage

open HttpParser

/-- What it is to be taken chunk by chunk: no call throws, the parser is done with the last chunk
and not before, and has got what one call with all the bytes gets. -/
structure Taken (m : Bytes) (chunks : List Bytes) : Prop where
  waits : ∀ before after, chunks = before ++ after → after ≠ [] →
    ∃ p, receive {} before = .ok p ∧ p.done = false
  done : ∃ p whole, receive {} chunks = .ok p ∧ p.done = true ∧
    receive {} [m] = .ok whole ∧ p.parsedData = whole.parsedData

/-- A message is not taken at all, or it is a readable one. -/
theorem unreadable_or_message (m : RawMessage) :
    (∃ e, scan m.bytes = .error e) ∨ ∃ message : Message, message.bytes = m.bytes := by
  by_cases hcr : CR ∈ m.line
  · exact .inl (scan_error m.line_ok m.fields_ok (.inl hcr))
  by_cases hfieldsCr : ∃ field ∈ m.fields, CR ∈ field
  · exact .inl (scan_error m.line_ok m.fields_ok (.inr (.inl hfieldsCr)))
  cases hheader : parseHeader m.line m.fields with
  | error e => exact .inl (scan_error m.line_ok m.fields_ok (.inr (.inr ⟨e, hheader⟩)))
  | ok header =>
    have hfields : ∀ field ∈ m.fields, field ≠ [] ∧ CR ∉ field := fun field hfield =>
      ⟨(m.fields_ok field hfield).1, fun h => hfieldsCr ⟨field, hfield, h⟩⟩
    exact .inr ⟨⟨m.line, m.fields, m.body, header, hcr, hfields, hheader,
      (parseHeader_length hheader).trans m.body_ok.symm⟩, rfl⟩

/-- Before its last chunk a message is waited for. -/
theorem receive_waits {m rest : Bytes} {packet : HttpPacket} (h : Takes m packet)
    (hfits : m.length ≤ capacity) (hrest : rest ≠ []) :
    ∀ (before : List Bytes) (b : Bytes) (q : HttpParser), (∀ c ∈ before, c ≠ []) →
      b ++ (before.flatten ++ rest) = m → scan b = .ok q → ∃ p, receive q before = .ok p ∧ p.done = false
  | [], b, q, _, hm, hq => by
    obtain ⟨p, hp, hstate⟩ := (hm.symm ▸ h : Takes (b ++ rest) packet).waits hrest
    obtain rfl := Except.ok.inj (hp.symm.trans hq)
    exact ⟨p, rfl, by simpa [HttpParser.done] using hstate⟩
  | c :: before, b, q, hne, hm, hq => by
    obtain ⟨hc, hbefore⟩ := List.forall_mem_cons.1 hne
    rw [List.flatten_cons, List.append_assoc] at hm
    obtain ⟨q', hnext, hq', -, -⟩ := h.onData hfits hc hm hq
    rw [receive, List.foldlM_cons, hnext]
    exact receive_waits h hfits hrest before (b ++ c) q' hbefore (by rw [List.append_assoc, hm]) hq'

theorem taken_of_takes {m : Bytes} {packet : HttpPacket} {chunks : List Bytes} (h : Takes m packet)
    (hfits : m.length ≤ capacity) (hne : m ≠ []) (hcut : Cut m chunks) : Taken m chunks where
  waits before after hchunks hafter := by
    obtain ⟨hm, hchunksNe⟩ := hcut
    rw [hchunks] at hm hchunksNe
    rw [List.flatten_append] at hm
    have hrest : after.flatten ≠ [] := by
      obtain ⟨c, after, rfl⟩ := List.exists_cons_of_ne_nil hafter
      simp [hchunksNe c (by simp)]
    exact receive_waits h hfits hrest before [] {} (fun c hc => hchunksNe c (by simp [hc])) hm rfl
  done := by
    obtain ⟨p, hp, hdone, hpacket⟩ := h.receive hfits hcut.2 hcut.1
    have hone : ∀ c ∈ [m], c ≠ [] := by simpa using hne
    obtain ⟨whole, hwhole, -, hpacket'⟩ := h.receive hfits hone (by simp)
    exact ⟨p, whole, hp, hdone, hwhole, hpacket.trans hpacket'.symm⟩

/-- **Every way of cutting a message throws, or every way of cutting it hands over the message
with its last byte.** -/
theorem chunks_independent (m : RawMessage) :
    (∀ chunks, Cut m.bytes chunks → ∃ e, receive {} chunks = .error e) ∨
      ∀ chunks, Cut m.bytes chunks → Taken m.bytes chunks := by
  rcases m.unreadable_or_message with ⟨e, he⟩ | ⟨message, hbytes⟩
  · exact .inl fun chunks hcut => receive_error he m.fits chunks [] {} hcut.1 rfl
  · have htakes := takes_message message
    rw [hbytes] at htakes
    have hne : m.bytes ≠ [] := by simp [bytes, CRLF]
    exact .inr fun chunks hcut => taken_of_takes htakes m.fits hne hcut

/-- A request with a body of three bytes. -/
def withBody : RawMessage where
  line := ascii "POST download/create?Uri=x HTTP/1.1"
  fields := [ascii "Host: 127.0.0.1", ascii "Content-Length: 3"]
  body := [1, 2, 3]
  line_ok := by decide
  fields_ok := by decide
  body_ok := by decide
  fits := by decide

/-- Cut within the first line, between CR and LF, and within the body. -/
def withBodyCut : List Bytes :=
  [withBody.bytes.take 10, (withBody.bytes.drop 10).take 26, (withBody.bytes.drop 36).take 40,
    withBody.bytes.drop 76]

theorem chunks_independent_withBody : Taken withBody.bytes withBodyCut := by
  have hcut : Cut withBody.bytes withBodyCut := ⟨by decide, by decide⟩
  have hone : Cut withBody.bytes [withBody.bytes] := ⟨by decide, by decide⟩
  rcases chunks_independent withBody with hthrows | htaken
  · obtain ⟨e, he⟩ := hthrows [withBody.bytes] hone
    have hok : (receive {} [withBody.bytes]).isOk = true := by decide +kernel
    rw [he] at hok
    cases hok
  · exact htaken withBodyCut hcut

end RawMessage

end DoClient
