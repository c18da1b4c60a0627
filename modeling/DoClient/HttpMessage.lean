/-
Whole messages on the wire, and how the parser takes them in: a message is
complete with its last byte and not before, however it is cut into reads.
-/
import DoClient.HttpParser

namespace DoClient

namespace HttpParser

variable {p q : HttpParser} {m : Bytes} {packet : HttpPacket}

/-! ## Bytes taken in at once -/

/-- What a fresh parser makes of bytes it gets at once. -/
def scan (m : Bytes) : Except StdException HttpParser := ({ incomingDataBuf := m } : HttpParser).parse

/-- The bytes are one message, from the first to the last. -/
def Takes (m : Bytes) (packet : HttpPacket) : Prop :=
  ∃ p, scan m = .ok p ∧ p.state = .complete ∧ p.itParseFrom = m.length ∧ p.parsedData = packet

theorem scan_append (m data : Bytes) :
    (({ incomingDataBuf := m } : HttpParser).append data).parse = scan (m ++ data) := rfl

theorem scan_buf (h : scan m = .ok p) : p.incomingDataBuf = m := parse_buf h

/-- The next read, while there is room and the message is not complete. -/
theorem onData_scan (data : Bytes) (h : scan m = .ok p) (hp : p.state ≠ .complete)
    (hfits : m.length + data.length ≤ capacity) :
    p.onData data = scan (m ++ data) := by
  rw [onData, scan_buf h, if_neg (by omega)]
  exact (parse_append data (Nat.zero_le _) h hp).symm

/-- A run that completes a message comes to its body first, also with more bytes behind it. -/
theorem comes_to_body (data : Bytes) (h : Loop.Runs parseBuf p (.ok q)) (hp : Sound p)
    (hst : p.state ≠ .complete) (hq : q.state = .complete) :
    ∃ t, Sound t ∧ t.state = .body ∧ t.parseBuf = .ok (true, q) ∧
      t.incomingDataBuf = p.incomingDataBuf ∧ ∀ r, Loop.Runs parseBuf (t.append data) r →
      Loop.Runs parseBuf (p.append data) r := by
  generalize hr : Except.ok q = r at h
  induction h with
  | throws => cases hr
  | @stops s s' he =>
    cases hr
    cases parseBuf_moves he with
    | noLine | bodyWaits | complete => exact absurd hq hst
    | fields _ _ hfields =>
      rw [hfields] at hq
      cases hq
  | @goesOn s s' r he hrest ih =>
    subst hr
    by_cases hs' : s'.state = .complete
    · have hstops : Loop.Runs parseBuf s' (.ok s') := .stops (by rw [parseBuf, hs'])
      obtain rfl := Except.ok.inj (hrest.det hstops)
      have hbody : s.state = .body := by
        cases parseBuf_moves he with
        | noBody hbody | body hbody => exact hbody
        | firstLine => cases hs'
        | headersEnd _ _ hq' =>
          rw [hq'] at hs'
          cases hs'
      exact ⟨s, hp, hbody, he, rfl, fun r hr => hr⟩
    · obtain ⟨t, ht, hbody, hlast, hbuf, hlift⟩ := ih (parseBuf_sound he hp) hs' rfl
      have hbuf' : s'.incomingDataBuf = s.incomingDataBuf := by
        cases parseBuf_moves he with
        | firstLine | noBody | body => rfl
        | headersEnd _ hf _ => exact parseFields_buf hf
      exact ⟨t, ht, hbody, hlast, hbuf.trans hbuf',
        fun r hr => .goesOn (parseBuf_append data hp he hs') (hlift r hr)⟩

/-- **No message is complete before its last byte.** -/
theorem Takes.waits {b data : Bytes} (h : Takes (b ++ data) packet) (hdata : data ≠ []) :
    ∃ p, scan b = .ok p ∧ p.state ≠ .complete := by
  obtain ⟨p, hscan, hcomplete, hend, -⟩ := h
  have hfresh : Sound ({ incomingDataBuf := b } : HttpParser) := Nat.zero_le _
  cases hb : scan b with
  | error e =>
    have herr := parse_append_error data hfresh hb
    rw [scan_append, hscan] at herr
    cases herr
  | ok q =>
    refine ⟨q, rfl, fun hq => ?_⟩
    obtain ⟨t, ht, hbody, hlast, hbuf, hlift⟩ := comes_to_body data (hb ▸ runs_parse _) hfresh (by simp) hq
    have hrun : ∀ r, Loop.Runs parseBuf (t.append data) r → r = .ok p := fun r hr =>
      (hlift r hr).det (hscan ▸ runs_parse _)
    have hpos : 0 < data.length := List.length_pos_iff.2 hdata
    have hbody' : (t.append data).state = .body := hbody
    have hlength : (t.append data).parsedData.contentLength = t.parsedData.contentLength := rfl
    cases parseBuf_moves hlast with
    | firstLine hst | headersEnd hst =>
      rw [hst] at hbody
      cases hbody
    | noBody _ hlen =>
      -- without a body the message ends where its header does, before the bytes behind it
      have hround : (t.append data).parseBuf = .ok (true, { t.append data with state := .complete }) := by
        rw [parseBuf, hbody']
        exact if_pos (hlength.trans hlen)
      have hp := hrun _ (.goesOn hround (.stops rfl))
      obtain rfl := Except.ok.inj hp
      have hle : t.itParseFrom ≤ b.length := by rwa [Sound, hbuf] at ht
      simp only [HttpParser.append, List.length_append] at hend
      omega
    | body _ hlen hrest =>
      -- with a body the bytes behind it make it too long
      have hround : (t.append data).parseBuf = .ok (false, t.append data) := by
        rw [parseBuf, hbody']
        simp only [hlength, if_neg hlen, rest_append ht, List.length_append, hrest]
        rw [if_neg (by omega)]
      have hp := hrun _ (.stops hround)
      obtain rfl := Except.ok.inj hp
      rw [hbody'] at hcomplete
      cases hcomplete

/-- The next read of a message that fits: the parser is done with the last one and not before. -/
theorem Takes.onData {b r rest : Bytes} (h : Takes m packet) (hfits : m.length ≤ capacity) (hr : r ≠ [])
    (hm : b ++ (r ++ rest) = m) (hp : scan b = .ok p) :
    ∃ q, p.onData r = .ok q ∧ scan (b ++ r) = .ok q ∧ (q.done = true ↔ rest = []) ∧
      (rest = [] → q.parsedData = packet) := by
  have hlen : b.length + (r.length + rest.length) = m.length := by simp [← hm]
  obtain ⟨p', hp', hstate⟩ := (hm.symm ▸ h : Takes (b ++ (r ++ rest)) packet).waits (by simp [hr])
  obtain rfl := Except.ok.inj (hp'.symm.trans hp)
  have hnext := onData_scan r hp hstate (by omega)
  by_cases hrest : rest = []
  · obtain ⟨q, hq, hcomplete, -, hpacket⟩ := h
    have hwhole : b ++ r = m := by simpa [hrest] using hm
    exact ⟨q, by rw [hnext, hwhole, hq], by rw [hwhole, hq], by simp [done, hcomplete, hrest],
      fun _ => hpacket⟩
  · obtain ⟨q, hq, hstate⟩ :=
      ((List.append_assoc b r rest ▸ hm).symm ▸ h : Takes ((b ++ r) ++ rest) packet).waits hrest
    exact ⟨q, hnext.trans hq, hq, by simp [done, hstate, hrest], fun h => absurd h hrest⟩

/-- **A message that fits is taken in, however it is cut into reads.** -/
theorem Takes.receive (h : Takes m packet) (hfits : m.length ≤ capacity) {reads : List Bytes}
    (hne : ∀ r ∈ reads, r ≠ []) (hm : reads.flatten = m) :
    ∃ p, HttpParser.receive {} reads = .ok p ∧ p.done = true ∧ p.parsedData = packet := by
  obtain ⟨p, hscan, hcomplete, -, hpacket⟩ := id h
  refine ⟨p, ?_, by simp [done, hcomplete], hpacket⟩
  have hall :
    ∀ (reads : List Bytes) (b : Bytes) (q : HttpParser), (∀ r ∈ reads, r ≠ []) → b ++ reads.flatten = m →
      scan b = .ok q → HttpParser.receive q reads = .ok p := by
    intro reads
    induction reads with
    | nil =>
      intro b q _ hb hq
      rw [List.flatten_nil, List.append_nil] at hb
      rw [hb, hscan] at hq
      rw [← Except.ok.inj hq]
      rfl
    | cons r rs ih =>
      intro b q hne hb hq
      obtain ⟨hr, hrs⟩ := List.forall_mem_cons.1 hne
      rw [List.flatten_cons] at hb
      obtain ⟨q', hnext, hq', -, -⟩ := h.onData hfits hr hb hq
      rw [HttpParser.receive, List.foldlM_cons, hnext]
      exact ih (b ++ r) q' hrs (by rw [List.append_assoc, hb]) hq'
  exact hall reads [] {} hne hm rfl

end HttpParser

/-! ## Content lengths -/

namespace HttpParser

/-- A line that is `Content-Length:`, spaces and digits sets the length to the number. -/
theorem parseField_lengthLine {spaces digits : Bytes} (hspaces : ∀ c ∈ spaces, isSpace c = true)
    (hne : digits ≠ []) (hdigits : ∀ c ∈ digits, isdigit c = true) (packet : HttpPacket) :
    parseField (ascii "Content-Length" ++ 58 :: (spaces ++ digits)) packet =
      .ok { packet with contentLength := strtoul digits } := by
  have hplain : ∀ c ∈ spaces ++ digits, c ≠ 0 ∧ c ≠ CR ∧ c ≠ LF ∧ c ≠ 58 := by
    intro c hc
    rcases List.mem_append.1 hc with hc | hc
    · have hspace := hspaces c hc
      exact ⟨class_ne hspace (by decide), class_ne hspace (by decide), class_ne hspace (by decide),
        class_ne hspace (by decide)⟩
    · have hdigit := hdigits c hc
      exact ⟨class_ne hdigit (by decide), class_ne hdigit (by decide), class_ne hdigit (by decide),
        class_ne hdigit (by decide)⟩
  have hname : ∀ c ∈ ascii "Content-Length" ++ [58], c ≠ 0 ∧ (c != LF && c != CR) = true :=
    forall_mem_of_all (by decide)
  have hcharacters : ∀ c ∈ ascii "Content-Length" ++ 58 :: (spaces ++ digits),
      c ≠ 0 ∧ (c != LF && c != CR) = true := by
    intro c hc
    rw [List.append_cons] at hc
    rcases List.mem_append.1 hc with hc | hc
    · exact hname c hc
    · simp [hplain c hc]
  have hmatch : Pattern.fullMatch rxContentLength (ascii "Content-Length" ++ 58 :: (spaces ++ digits)) =
      some [digits] := by
    refine Pattern.fullMatch_star_one (fun c hc => (hcharacters c hc).2) rfl
      (fun c hc => by simp [hplain c hc]) ?_
    refine Pattern.fullMatch_star hspaces (fun c hc => ?_) ?_
    · have hdigit := hdigits c (List.mem_of_head? hc)
      simpa [isSpace] using class_ne hdigit (x := 32) (by decide)
    · have hend : Pattern.fullMatch [.star fun c : UInt8 => c != LF && c != CR] [] = some [] := rfl
      have h := Pattern.fullMatch_group hne hdigits (by simp) hend
      rwa [List.append_nil] at h
  have hinfix : ascii "Content-Length" <:+: ascii "Content-Length" ++ 58 :: (spaces ++ digits) :=
    (List.prefix_append _ _).isInfix
  rw [parseField, if_pos hinfix, cstr_eq fun c hc => (hcharacters c hc).1, hmatch]

end HttpParser

/-! ## Well-formed messages -/

/-- The header fields as they are sent. -/
def fieldLines (fields : List Bytes) : Bytes := fields.flatMap (· ++ CRLF)

/-- The header of a message is read line by line. -/
def parseHeader (line : Bytes) (fields : List Bytes) : Except StdException HttpPacket :=
  (HttpParser.parseFirstLine line {}).bind fun packet =>
    fields.foldlM (fun packet field => HttpParser.parseField field packet) packet

/-- A message: lines that can be read, and a body of the length they declare. -/
structure Message where
  line : Bytes
  fields : List Bytes
  body : Bytes
  header : HttpPacket
  line_ok : CR ∉ line
  fields_ok : ∀ field ∈ fields, field ≠ [] ∧ CR ∉ field
  header_ok : parseHeader line fields = .ok header
  body_ok : header.contentLength = body.length

namespace Message

variable (m : Message)

/-- The message as it is sent. -/
def bytes : Bytes := m.line ++ CRLF ++ (fieldLines m.fields ++ CRLF ++ m.body)

/-- What the parser hands over. -/
def packet : HttpPacket := { m.header with body := m.body }

/-- A request names a method. -/
def IsRequest : Prop := m.header.method ≠ []

end Message

namespace HttpParser

theorem parseFirstLine_body {line : Bytes} {packet packet' : HttpPacket}
    (h : parseFirstLine line packet = .ok packet') :
    packet'.body = packet.body := by
  unfold parseFirstLine at h
  split at h
  · cases h; rfl
  · split at h
    · next method url _ =>
      cases hu : Uri.ofString url with
      | error e => simp [hu, Except.map] at h
      | ok u =>
        simp only [hu, Except.map, Except.ok.injEq] at h
        rw [← h]
    · cases h

theorem parseField_body {field : Bytes} {packet packet' : HttpPacket}
    (h : parseField field packet = .ok packet') :
    packet'.body = packet.body := by
  unfold parseField at h
  split at h
  · split at h
    · cases h; rfl
    · cases h
  · cases h; rfl

theorem parseFields_body {header : HttpPacket} (fields : List Bytes) (packet : HttpPacket)
    (h : fields.foldlM (fun packet field => parseField field packet) packet = .ok header) :
    header.body = packet.body := by
  induction fields generalizing packet with
  | nil => cases h; rfl
  | cons field fields ih =>
    rw [List.foldlM_cons] at h
    cases hf : parseField field packet with
    | error e => rw [hf] at h; cases h
    | ok packet' =>
      rw [hf] at h
      exact (ih packet' h).trans (parseField_body hf)

/-- A header brings no body. -/
theorem parseHeader_body {line : Bytes} {fields : List Bytes} {header : HttpPacket}
    (h : parseHeader line fields = .ok header) :
    header.body = [] := by
  unfold parseHeader at h
  cases hl : parseFirstLine line {} with
  | error e => rw [hl] at h; cases h
  | ok packet =>
    rw [hl] at h
    exact (parseFields_body fields packet h).trans (parseFirstLine_body hl)

theorem parseNextField_field {p : HttpParser} {n : Nat} (hn : n ≠ 0)
    (hline : findCRLF p.rest = .ok (some n)) :
    p.parseNextField = (parseField (p.rest.take n) p.parsedData).map fun packet =>
      (true, { p with itParseFrom := p.itParseFrom + n + 2, parsedData := packet }) := by
  rw [parseNextField, hline]
  cases n with
  | zero => exact absurd rfl hn
  | succ n => rfl

/-- The parser behind a field line. -/
def afterField (p : HttpParser) (field : Bytes) (packet : HttpPacket) : HttpParser :=
  { p with itParseFrom := p.itParseFrom + field.length + 2, parsedData := packet }

section FieldLine

variable {p : HttpParser} {field body : Bytes} {fields : List Bytes}
  (hrest : p.rest = fieldLines (field :: fields) ++ CRLF ++ body)

include hrest

theorem rest_fieldLine : p.rest = field ++ CRLF ++ (fieldLines fields ++ CRLF ++ body) := by
  simp [hrest, fieldLines, List.append_assoc]

theorem rest_afterField (packet : HttpPacket) :
    (p.afterField field packet).rest = fieldLines fields ++ CRLF ++ body := by
  have hdrop : (p.afterField field packet).rest = p.rest.drop (field.length + 2) := by
    simp [rest, afterField, List.drop_drop, Nat.add_assoc]
  rw [hdrop, rest_fieldLine hrest, List.append_assoc field, ← List.drop_drop, List.drop_left]
  rfl

/-- One round takes one line. -/
theorem parseNextField_line (hne : field ≠ []) (hcr : CR ∉ field) :
    p.parseNextField = (parseField field p.parsedData).map fun packet => (true, p.afterField field packet) := by
  have hrest' := rest_fieldLine hrest
  have hline : findCRLF p.rest = .ok (some field.length) := hrest' ▸ findCRLF_line hcr _
  have htake : p.rest.take field.length = field := by simp [hrest', List.append_assoc]
  rw [parseNextField_field (by simpa using hne) hline, htake]
  rfl

end FieldLine

/-- The fields are read one after another, up to the empty line. -/
theorem runs_fields {header : HttpPacket} {body : Bytes} :
    ∀ (fields : List Bytes) (p : HttpParser), (∀ field ∈ fields, field ≠ [] ∧ CR ∉ field) →
      p.rest = fieldLines fields ++ CRLF ++ body →
      fields.foldlM (fun packet field => parseField field packet) p.parsedData = .ok header →
      Loop.Runs parseNextField p (.ok { p with
        state := .body, itParseFrom := p.itParseFrom + (fieldLines fields).length + 2,
        parsedData := header }) := by
  intro fields
  induction fields with
  | nil =>
    intro p _ hrest hfold
    cases hfold
    refine .stops ?_
    have hline : findCRLF p.rest = .ok (some 0) := by
      rw [hrest]
      exact @findCRLF_line [] (by simp) body
    simp [parseNextField, hline, fieldLines]
  | cons field fields ih =>
    intro p hfields hrest hfold
    obtain ⟨⟨hne, hcr⟩, hfields⟩ := List.forall_mem_cons.1 hfields
    rw [List.foldlM_cons] at hfold
    cases hpacket : parseField field p.parsedData with
    | error e => rw [hpacket] at hfold; cases hfold
    | ok packet =>
      rw [hpacket] at hfold
      have hround : p.parseNextField = .ok (true, p.afterField field packet) := by
        rw [parseNextField_line hrest hne hcr, hpacket]
        rfl
      have hend : (p.afterField field packet).itParseFrom + (fieldLines fields).length + 2 =
          p.itParseFrom + (fieldLines (field :: fields)).length + 2 := by
        simp only [afterField, fieldLines, List.flatMap_cons, List.length_append, CRLF, List.length_cons,
          List.length_nil]
        omega
      exact .goesOn hround (hend ▸ ih _ hfields (rest_afterField hrest packet) hfold)

/-- The parser behind the first line of a message. -/
def afterLine (m line : Bytes) (first : HttpPacket) : HttpParser :=
  { state := .fields, incomingDataBuf := m, itParseFrom := line.length + 2, parsedData := first }

/-- The first round takes the first line. -/
theorem parseBuf_line {line t : Bytes} (hline : CR ∉ line) :
    ({ incomingDataBuf := line ++ CRLF ++ t } : HttpParser).parseBuf =
      (parseFirstLine line {}).map fun first => (true, afterLine (line ++ CRLF ++ t) line first) := by
  have htake : (line ++ CRLF ++ t).take line.length = line := by simp [List.append_assoc]
  simp only [parseBuf, findCRLF_line hline, htake]
  rfl

theorem rest_afterLine (line t : Bytes) (first : HttpPacket) :
    (afterLine (line ++ CRLF ++ t) line first).rest = t := by
  rw [rest, show (afterLine (line ++ CRLF ++ t) line first).incomingDataBuf = line ++ (CRLF ++ t) from
    List.append_assoc .., show (afterLine (line ++ CRLF ++ t) line first).itParseFrom = line.length + 2 from rfl,
    ← List.drop_drop, List.drop_left]
  rfl

/-- **A well-formed message is one message to the parser.** -/
theorem takes_message (m : Message) : Takes m.bytes m.packet := by
  obtain ⟨line, fields, body, header, hline, hfields, hheader, hbody⟩ := m
  simp only [Message.bytes, Message.packet]
  have hheaderBody := parseHeader_body hheader
  unfold parseHeader at hheader
  cases hfirst : parseFirstLine line {} with
  | error e => rw [hfirst] at hheader; cases hheader
  | ok first =>
    rw [hfirst] at hheader
    generalize hm : line ++ CRLF ++ (fieldLines fields ++ CRLF ++ body) = m
    have hlen : m.length = line.length + 2 + ((fieldLines fields).length + 2) + body.length := by
      simp only [← hm, List.length_append, CRLF, List.length_cons, List.length_nil]
      omega
    let p₁ : HttpParser := afterLine m line first
    let p₂ : HttpParser := { p₁ with
      state := .body, itParseFrom := p₁.itParseFrom + (fieldLines fields).length + 2, parsedData := header }
    have hround₁ : ({ incomingDataBuf := m } : HttpParser).parseBuf = .ok (true, p₁) := by
      have hround := parseBuf_line (t := fieldLines fields ++ CRLF ++ body) hline
      rw [hfirst, hm] at hround
      exact hround
    have hrest₁ : p₁.rest = fieldLines fields ++ CRLF ++ body := by
      simp only [p₁, ← hm]
      exact rest_afterLine line _ first
    have hround₂ : p₁.parseBuf = .ok (true, p₂) := by
      have hrun := runs_fields fields p₁ hfields hrest₁ hheader
      have hparse : p₁.parseFields = .ok p₂ := (runs_parseFields p₁).det hrun
      simp only [parseBuf, show p₁.state = .fields from rfl, hparse]
      rfl
    have hrest₂ : p₂.rest = body := by
      have hdrop : p₂.rest = p₁.rest.drop ((fieldLines fields).length + 2) := by
        simp [rest, p₁, p₂, List.drop_drop, Nat.add_assoc]
      rw [hdrop, hrest₁, List.append_assoc, ← List.drop_drop, List.drop_left]
      rfl
    by_cases hzero : body.length = 0
    · have hround₃ : p₂.parseBuf = .ok (true, { p₂ with state := .complete }) := by
        simp only [parseBuf, show p₂.state = .body from rfl, show p₂.parsedData = header from rfl, hbody,
          hzero, if_true]
      refine ⟨_, (runs_parse _).det (.goesOn hround₁ (.goesOn hround₂ (.goesOn hround₃ (.stops rfl)))),
        rfl, ?_, ?_⟩
      · simp only [p₂, p₁, afterLine]
        omega
      · rw [List.length_eq_zero_iff.1 hzero, ← hheaderBody]
    · have hround₃ : p₂.parseBuf = .ok (true, { p₂ with
          state := .complete, itParseFrom := m.length, parsedData := { header with body := body } }) := by
        simp only [parseBuf, show p₂.state = .body from rfl, show p₂.parsedData = header from rfl, hbody,
          hzero, if_false, hrest₂, if_true, hheaderBody, List.nil_append]
        rfl
      exact ⟨_, (runs_parse _).det (.goesOn hround₁ (.goesOn hround₂ (.goesOn hround₃ (.stops rfl)))),
        rfl, rfl, rfl⟩

end HttpParser

namespace Message

theorem bytes_ne_nil (m : Message) : m.bytes ≠ [] := by simp [bytes, CRLF]

end Message

end DoClient
