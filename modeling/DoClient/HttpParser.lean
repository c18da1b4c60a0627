/-
`HttpParser` (`common/lib-dohttp/do_http_parser.cpp`), which takes in a request
or a response as its bytes arrive, and what cutting the bytes does to it: as
long as no message is complete, the parser is where it would be had it got all
its bytes at once.
-/
import DoClient.Uri
import DoClient.HResult
import DoClient.Lib.Loop
import DoClient.Lib.Pattern

namespace DoClient

/-- `HttpPacket`. -/
structure HttpPacket where
  method : Bytes := []
  url : Uri.UriComponents := {}
  statusCode : Nat := 0
  contentLength : Nat := 0
  body : Bytes := []
  deriving DecidableEq, Repr

inductive ParserState
  | firstLine | fields | body | complete
  deriving DecidableEq, Repr

/-- The members of `HttpParser`; `itParseFrom` is a position in the buffer. -/
structure HttpParser where
  state : ParserState := .firstLine
  incomingDataBuf : Bytes := []
  itParseFrom : Nat := 0
  parsedData : HttpPacket := {}
  deriving DecidableEq, Repr

namespace HttpParser

open Pattern (Piece fullMatch)

/-- What `Reset` reserves for a message. -/
def capacity : Nat := 2048

/-! ## Lines -/

/-- `_FindCRLF`: where the first CR is, once the LF behind it is there too. -/
def findCRLF (s : Bytes) : Except StdException (Option Nat) :=
  match s.findIdx? (· == CR) with
  | none => .ok none
  | some itCR =>
    match s[itCR + 1]? with
    | none => .ok none
    | some c =>
      if c = LF then .ok (some itCR)
      else .error (.invalidArgument (ascii "HttpParser received malformed message (CRLF)"))

/-- The class of `[hHtTpP/1\.]`. -/
def isHttpVersion (c : UInt8) : Bool := (ascii "hHtTpP/1.").contains c

/-- The class of the URL in `rxRequestLine`. -/
def isUrlCharacter (c : UInt8) : Bool := isalnum c || (ascii "-_.!~*'()%:@&=+$,/?").contains c

def isSpace (c : UInt8) : Bool := c == 32

/-- `([a-zA-Z]+) ([a-zA-Z0-9\-_\.!~\*'\(\)%:@&=\+$,/?]+) [hHtTpP/1\.]+`. -/
def rxRequestLine : List (Piece UInt8) :=
  [.group isalpha, .one isSpace, .group isUrlCharacter, .one isSpace, .plus isHttpVersion]

/-- `[hHtTpP/1\.]+ (\d+) [a-zA-Z0-9 ]+`. -/
def rxStatusLine : List (Piece UInt8) :=
  [.plus isHttpVersion, .one isSpace, .group isdigit, .one isSpace, .plus fun c => isalnum c || isSpace c]

/-- `.*:[ ]*(\d+).*`; a dot is no line terminator. -/
def rxContentLength : List (Piece UInt8) :=
  [.star fun c => c != LF && c != CR, .one (· == 58), .star isSpace, .group isdigit,
    .star fun c => c != LF && c != CR]

/-- The first line of a response or of a request. -/
def parseFirstLine (firstLine : Bytes) (packet : HttpPacket) : Except StdException HttpPacket :=
  match fullMatch rxStatusLine (cstr firstLine) with
  | some [code] => .ok { packet with statusCode := wrap32 (strtoul code) }
  | _ =>
    match fullMatch rxRequestLine (cstr firstLine) with
    | some [method, url] => (Uri.ofString url).map fun url => { packet with method := method, url := url }
    | _ => .error (.invalidArgument (ascii "HttpParser received malformed first line"))

/-- A header field: only `Content-Length` is of interest. -/
def parseField (field : Bytes) (packet : HttpPacket) : Except StdException HttpPacket :=
  if ascii "Content-Length" <:+: field then
    match fullMatch rxContentLength (cstr field) with
    | some [length] => .ok { packet with contentLength := strtoul length }
    | _ => .error (.invalidArgument (ascii "HttpParser received malformed Content-Length"))
  else .ok packet

/-! ## The parser -/

variable (p : HttpParser)

/-- The bytes not yet parsed. -/
def rest : Bytes := p.incomingDataBuf.drop p.itParseFrom

/-- `_ParseNextField`. -/
def parseNextField : Except StdException (Bool × HttpParser) :=
  match findCRLF p.rest with
  | .error e => .error e
  | .ok none => .ok (false, p)
  | .ok (some 0) => .ok (false, { p with state := .body, itParseFrom := p.itParseFrom + 2 })
  | .ok (some n) => (parseField (p.rest.take n) p.parsedData).map fun packet =>
    (true, { p with itParseFrom := p.itParseFrom + n + 2, parsedData := packet })

/-- `while (_ParseNextField())`. -/
def parseFields : Except StdException HttpParser := Loop.run parseNextField (p.incomingDataBuf.length + 1) p

/-- `_ParseBuf`: whether the state changed, and the parser after it. -/
def parseBuf : Except StdException (Bool × HttpParser) :=
  match p.state with
  | .firstLine =>
    match findCRLF p.incomingDataBuf with
    | .error e => .error e
    | .ok none => .ok (false, p)
    | .ok (some itCR) => (parseFirstLine (p.incomingDataBuf.take itCR) p.parsedData).map fun packet =>
      (true, { p with state := .fields, itParseFrom := itCR + 2, parsedData := packet })
  | .fields => p.parseFields.map fun p => (p.state != .fields, p)
  | .body =>
    if p.parsedData.contentLength = 0 then .ok (true, { p with state := .complete })
    else if p.rest.length = p.parsedData.contentLength then .ok (true, { p with
      state := .complete
      itParseFrom := p.incomingDataBuf.length
      parsedData := { p.parsedData with body := p.parsedData.body ++ p.rest } })
    else .ok (false, p)
  | .complete => .ok (false, p)

/-- Bytes behind those in the buffer. -/
def append (data : Bytes) : HttpParser := { p with incomingDataBuf := p.incomingDataBuf ++ data }

/-- `while (_ParseBuf())`: the state changes three times at most. -/
def parse : Except StdException HttpParser := Loop.run parseBuf 4 p

/-- `OnData`. -/
def onData (data : Bytes) : Except StdException HttpParser :=
  if capacity < p.incomingDataBuf.length + data.length then
    .error (.lengthError (ascii "HttpParser receiving too much data"))
  else (p.append data).parse

/-- `Done`. -/
def done : Bool := p.state == .complete

/-- One `OnData` after another. -/
def receive : HttpParser → List Bytes → Except StdException HttpParser :=
  List.foldlM onData

/-! ## Lines and the bytes behind them -/

theorem findCRLF_eq {s : Bytes} {itCR : Nat} {c : UInt8} (hi : s.findIdx? (· == CR) = some itCR)
    (hc : s[itCR + 1]? = some c) : findCRLF s = if c = LF then .ok (some itCR)
      else .error (.invalidArgument (ascii "HttpParser received malformed message (CRLF)")) := by
  simp [findCRLF, hi, hc]

theorem findCRLF_cases {s : Bytes} (h : findCRLF s ≠ .ok none) :
    ∃ itCR c, s.findIdx? (· == CR) = some itCR ∧ s[itCR + 1]? = some c := by
  unfold findCRLF at h
  split at h
  · exact absurd rfl h
  · next hi =>
    split at h
    · exact absurd rfl h
    · next hc => exact ⟨_, _, hi, hc⟩

/-- A line that is there is not changed by the bytes behind it. -/
theorem findCRLF_append {s : Bytes} (h : findCRLF s ≠ .ok none) (t : Bytes) :
    findCRLF (s ++ t) = findCRLF s := by
  obtain ⟨itCR, c, hi, hc⟩ := findCRLF_cases h
  have hlt : itCR + 1 < s.length := (List.getElem?_eq_some_iff.1 hc).1
  rw [findCRLF_eq hi hc, findCRLF_eq (by rw [List.findIdx?_append, hi]; rfl)
    (by rw [List.getElem?_append_left hlt, hc])]

theorem findCRLF_le {s : Bytes} {n : Nat} (h : findCRLF s = .ok (some n)) : n + 2 ≤ s.length := by
  obtain ⟨itCR, c, hi, hc⟩ := findCRLF_cases (s := s) (by rw [h]; simp)
  have hlt : itCR + 1 < s.length := (List.getElem?_eq_some_iff.1 hc).1
  rw [findCRLF_eq hi hc] at h
  split at h
  · cases h; omega
  · cases h

/-- A line ends at its line terminator. -/
theorem findCRLF_line {line : Bytes} (h : CR ∉ line) (t : Bytes) :
    findCRLF (line ++ CRLF ++ t) = .ok (some line.length) := by
  have hi : (line ++ CRLF ++ t).findIdx? (· == CR) = some line.length := by
    have hnone : line.findIdx? (· == CR) = none := by
      rw [List.findIdx?_eq_none_iff]
      intro c hc
      simpa using fun hcr : c = CR => h (hcr ▸ hc)
    simp [List.findIdx?_append, hnone, CRLF, List.findIdx?_cons]
  rw [findCRLF_eq hi (c := LF) (by simp [CRLF]), if_pos rfl]

/-! ## Progress -/

variable {p q : HttpParser}

/-- The parser has not gone past its bytes. -/
def Sound (p : HttpParser) : Prop := p.itParseFrom ≤ p.incomingDataBuf.length

theorem rest_length (p : HttpParser) : p.rest.length = p.incomingDataBuf.length - p.itParseFrom :=
  List.length_drop

theorem rest_append (hp : Sound p) (data : Bytes) : (p.append data).rest = p.rest ++ data :=
  List.drop_append_of_le_length hp

/-- What one round over the fields does. -/
inductive FieldMoves (p : HttpParser) : Bool → HttpParser → Prop
  | waits : findCRLF p.rest = .ok none → FieldMoves p false p
  | endOfHeaders : findCRLF p.rest = .ok (some 0) →
    FieldMoves p false { p with state := .body, itParseFrom := p.itParseFrom + 2 }
  | field {n packet} :
    findCRLF p.rest = .ok (some n) → n ≠ 0 → parseField (p.rest.take n) p.parsedData = .ok packet →
    FieldMoves p true { p with itParseFrom := p.itParseFrom + n + 2, parsedData := packet }

theorem parseNextField_moves {b : Bool} (h : p.parseNextField = .ok (b, q)) : FieldMoves p b q := by
  unfold parseNextField at h
  split at h
  · cases h
  · next hline => cases h; exact .waits hline
  · next hline => cases h; exact .endOfHeaders hline
  · next n hne hline =>
    cases hf : parseField (p.rest.take n) p.parsedData with
    | error e => simp [hf, Except.map] at h
    | ok packet =>
      simp only [hf, Except.map, Except.ok.injEq, Prod.mk.injEq] at h
      obtain ⟨rfl, rfl⟩ := h
      exact .field hline hne hf

theorem FieldMoves.buf {b : Bool} (h : FieldMoves p b q) : q.incomingDataBuf = p.incomingDataBuf := by
  cases h <;> rfl

theorem FieldMoves.sound {b : Bool} (h : FieldMoves p b q) (hp : Sound p) : Sound q := by
  cases h with
  | waits => exact hp
  | endOfHeaders hline | field hline _ _ =>
    have hle := findCRLF_le hline
    rw [rest_length] at hle
    simp only [Sound] at hp ⊢
    omega

/-- Each field takes bytes. -/
theorem parseNextField_shortens (p q : HttpParser) (h : p.parseNextField = .ok (true, q)) :
    q.incomingDataBuf.length - q.itParseFrom < p.incomingDataBuf.length - p.itParseFrom := by
  cases parseNextField_moves h with
  | field hline _ _ =>
    have hle := findCRLF_le hline
    rw [rest_length] at hle
    simp only
    omega

theorem runs_parseFields (p : HttpParser) : Loop.Runs parseNextField p p.parseFields :=
  Loop.runs_run parseNextField_shortens (Nat.lt_succ_of_le (Nat.sub_le _ _))

/-- Over the fields the parser stays, or comes to the body. -/
theorem parseFields_state (h : p.parseFields = .ok q) (hp : p.state = .fields) :
    q.state = .fields ∨ q.state = .body := by
  refine (h ▸ runs_parseFields p : Loop.Runs parseNextField p (.ok q)).invariant
    (I := fun p => p.state = .fields ∨ p.state = .body) (fun s b s' hs hstep => ?_) (.inl hp)
  cases parseNextField_moves hstep with
  | waits | field => exact hs
  | endOfHeaders => exact .inr rfl

theorem parseFields_sound (h : p.parseFields = .ok q) (hp : Sound p) : Sound q :=
  (h ▸ runs_parseFields p : Loop.Runs parseNextField p (.ok q)).invariant
    (fun _ _ _ hs hstep => (parseNextField_moves hstep).sound hs) hp

theorem parseFields_buf (h : p.parseFields = .ok q) : q.incomingDataBuf = p.incomingDataBuf :=
  (h ▸ runs_parseFields p : Loop.Runs parseNextField p (.ok q)).invariant
    (I := fun q => q.incomingDataBuf = p.incomingDataBuf)
    (fun _ _ _ hs hstep => (parseNextField_moves hstep).buf.trans hs) rfl

/-- What one round of the parser does. -/
inductive Moves (p : HttpParser) : Bool → HttpParser → Prop
  | noLine : p.state = .firstLine → findCRLF p.incomingDataBuf = .ok none → Moves p false p
  | firstLine {n packet} : p.state = .firstLine → findCRLF p.incomingDataBuf = .ok (some n) →
    parseFirstLine (p.incomingDataBuf.take n) p.parsedData = .ok packet →
    Moves p true { p with state := .fields, itParseFrom := n + 2, parsedData := packet }
  | fields {q : HttpParser} : p.state = .fields → p.parseFields = .ok q → q.state = .fields → Moves p false q
  | headersEnd {q : HttpParser} : p.state = .fields → p.parseFields = .ok q → q.state = .body → Moves p true q
  | noBody : p.state = .body → p.parsedData.contentLength = 0 → Moves p true { p with state := .complete }
  | body : p.state = .body → p.parsedData.contentLength ≠ 0 → p.rest.length = p.parsedData.contentLength →
    Moves p true { p with
      state := .complete
      itParseFrom := p.incomingDataBuf.length
      parsedData := { p.parsedData with body := p.parsedData.body ++ p.rest } }
  | bodyWaits :
    p.state = .body → p.parsedData.contentLength ≠ 0 → p.rest.length ≠ p.parsedData.contentLength →
    Moves p false p
  | complete : p.state = .complete → Moves p false p

theorem parseBuf_moves {b : Bool} (h : p.parseBuf = .ok (b, q)) : Moves p b q := by
  unfold parseBuf at h
  split at h
  · next hst =>
    split at h
    · cases h
    · next hline => cases h; exact .noLine hst hline
    · next n hline =>
      cases hf : parseFirstLine (p.incomingDataBuf.take n) p.parsedData with
      | error e => simp [hf, Except.map] at h
      | ok packet =>
        simp only [hf, Except.map, Except.ok.injEq, Prod.mk.injEq] at h
        obtain ⟨rfl, rfl⟩ := h
        exact .firstLine hst hline hf
  · next hst =>
    cases hf : p.parseFields with
    | error e => simp [hf, Except.map] at h
    | ok q' =>
      simp only [hf, Except.map, Except.ok.injEq, Prod.mk.injEq] at h
      obtain ⟨rfl, rfl⟩ := h
      rcases parseFields_state hf hst with hq | hq
      · rw [hq]
        exact .fields hst hf hq
      · rw [hq]
        exact .headersEnd hst hf hq
  · next hst =>
    split at h
    · next hlen => cases h; exact .noBody hst hlen
    · next hlen =>
      split at h
      · next hrest => cases h; exact .body hst hlen hrest
      · next hrest => cases h; exact .bodyWaits hst hlen hrest
  · next hst => cases h; exact .complete hst

/-- How many more times the state can change. -/
def ParserState.rank : ParserState → Nat
  | .firstLine => 3
  | .fields => 2
  | .body => 1
  | .complete => 0

theorem parseBuf_rank (p q : HttpParser) (h : p.parseBuf = .ok (true, q)) :
    ParserState.rank q.state < ParserState.rank p.state := by
  cases parseBuf_moves h with
  | firstLine hst | noBody hst | body hst => simp [hst, ParserState.rank]
  | headersEnd hst _ hq => simp [hst, hq, ParserState.rank]

theorem runs_parse (p : HttpParser) : Loop.Runs parseBuf p p.parse := by
  refine Loop.runs_run parseBuf_rank ?_
  cases p.state <;> decide

theorem parseBuf_sound {b : Bool} (h : p.parseBuf = .ok (b, q)) (hp : Sound p) : Sound q := by
  cases parseBuf_moves h with
  | noLine | noBody | bodyWaits | complete => exact hp
  | firstLine _ hline _ => exact findCRLF_le hline
  | fields _ hf _ | headersEnd _ hf _ => exact parseFields_sound hf hp
  | body => exact Nat.le_refl _

theorem parse_buf (h : p.parse = .ok q) : q.incomingDataBuf = p.incomingDataBuf := by
  refine (h ▸ runs_parse p : Loop.Runs parseBuf p (.ok q)).invariant
    (I := fun q => q.incomingDataBuf = p.incomingDataBuf) (fun s b s' hs hstep => ?_) rfl
  cases parseBuf_moves hstep with
  | noLine | noBody | bodyWaits | complete | firstLine | body => exact hs
  | fields _ hf _ | headersEnd _ hf _ => exact (parseFields_buf hf).trans hs

/-! ## More bytes -/

variable (data : Bytes)

/-- A line found among the bytes there is found with more bytes behind them. -/
theorem rest_line_append (hp : Sound p) (hline : findCRLF p.rest ≠ .ok none) :
    findCRLF (p.append data).rest = findCRLF p.rest := by
  rw [rest_append hp, findCRLF_append hline]

theorem parseNextField_append {r : Except StdException (Bool × HttpParser)} (hp : Sound p)
    (hline : findCRLF p.rest ≠ .ok none) (h : p.parseNextField = r) :
    (p.append data).parseNextField = r.map fun x => (x.1, x.2.append data) := by
  subst h
  unfold parseNextField
  rw [rest_line_append data hp hline]
  split
  · rfl
  · next hnone => exact absurd hnone hline
  · rfl
  · next n hne hn =>
    have htake : (p.append data).rest.take n = p.rest.take n := by
      have hle := findCRLF_le hn
      rw [rest_append hp, List.take_append_of_le_length (by omega)]
    rw [htake, show (p.append data).parsedData = p.parsedData from rfl]
    cases parseField (p.rest.take n) p.parsedData <;> rfl

theorem FieldMoves.line {b : Bool} (h : FieldMoves p b q) :
    findCRLF p.rest = .ok none ∧ q = p ∧ b = false ∨ findCRLF p.rest ≠ .ok none := by
  cases h with
  | waits hline => exact .inl ⟨hline, rfl, rfl⟩
  | endOfHeaders hline | field hline _ _ => exact .inr (by rw [hline]; simp)

/-- The rounds over the fields, while they are what the parser is at. -/
def AtFields (p : HttpParser) : Prop := Sound p ∧ p.state = .fields

theorem AtFields.step (hp : AtFields p) (h : p.parseNextField = .ok (true, q)) :
    AtFields q ∧ (p.append data).parseNextField = .ok (true, q.append data) := by
  have hmoves := parseNextField_moves h
  rcases hmoves.line with ⟨-, -, hb⟩ | hline
  · cases hb
  · refine ⟨⟨hmoves.sound hp.1, ?_⟩, parseNextField_append data hp.1 hline h⟩
    cases hmoves with
    | field => exact hp.2

theorem parseFields_append_end (hp : AtFields p) (h : p.parseFields = .ok q) (hq : q.state = .body) :
    (p.append data).parseFields = .ok (q.append data) := by
  refine (runs_parseFields _).det (Loop.Runs.map (I := AtFields) (Q := fun q => q.state = .body)
    (fun s s' hs hstep => (hs.step [] hstep).1) hp (fun s s' hs hstep => (hs.step data hstep).2) ?_
      (h ▸ runs_parseFields p) hq)
  intro s s' hs hstep hbody
  rcases (parseNextField_moves hstep).line with ⟨-, rfl, -⟩ | hline
  · rw [hs.2] at hbody
    cases hbody
  · exact parseNextField_append data hs.1 hline hstep

theorem parseFields_append_error {e : StdException} (hp : AtFields p) (h : p.parseFields = .error e) :
    (p.append data).parseFields = .error e := by
  refine (runs_parseFields _).det
    (Loop.Runs.map_error (I := AtFields) (fun s s' hs hstep => (hs.step [] hstep).1) hp
    (fun s s' hs hstep _ => (hs.step data hstep).2) ?_ (h ▸ runs_parseFields p))
  intro s e hs hstep
  refine parseNextField_append data hs.1 (fun hnone => ?_) hstep
  simp [parseNextField, hnone] at hstep

/-- Fields that wait for more bytes go on where they stopped. -/
theorem parseFields_append (hp : AtFields p) (h : p.parseFields = .ok q) (hq : q.state = .fields) :
    (p.append data).parseFields = (q.append data).parseFields := by
  refine (runs_parseFields _).det (Loop.Runs.resume (I := AtFields) (P := fun q => q.state = .fields)
    (fun s s' hs hstep => (hs.step [] hstep).1) hp (fun s b s' hs _ _ => hs.2)
    (fun s s' hs hstep _ => (hs.step data hstep).2) ?_ (h ▸ runs_parseFields p) hq (runs_parseFields _))
  intro s s' hs hstep hfields
  cases parseNextField_moves hstep with
  | waits => rfl
  | endOfHeaders => cases hfields

theorem parseBuf_append (hp : Sound p) (h : p.parseBuf = .ok (true, q)) (hq : q.state ≠ .complete) :
    (p.append data).parseBuf = .ok (true, q.append data) := by
  cases parseBuf_moves h with
  | @firstLine n packet hst hline hpacket =>
    have hline' : findCRLF (p.append data).incomingDataBuf = .ok (some n) := by
      rw [HttpParser.append, findCRLF_append (by rw [hline]; simp), hline]
    have htake : (p.append data).incomingDataBuf.take n = p.incomingDataBuf.take n := by
      have hle := findCRLF_le hline
      rw [HttpParser.append, List.take_append_of_le_length (by omega)]
    rw [parseBuf, show (p.append data).state = .firstLine from hst]
    simp only [hline', htake, show (p.append data).parsedData = p.parsedData from rfl, hpacket]
    rfl
  | headersEnd hst hf hbody =>
    rw [parseBuf, show (p.append data).state = .fields from hst]
    simp only [parseFields_append_end data ⟨hp, hst⟩ hf hbody, Except.map,
      show (q.append data).state = .body from hbody]
    rfl
  | noBody | body => exact absurd rfl hq

theorem parseBuf_append_error {e : StdException} (hp : Sound p) (h : p.parseBuf = .error e) :
    (p.append data).parseBuf = .error e := by
  unfold parseBuf at h
  split at h
  · next hst =>
    have hline : findCRLF p.incomingDataBuf ≠ .ok none := fun hnone => by simp [hnone] at h
    have hline' : findCRLF (p.append data).incomingDataBuf = findCRLF p.incomingDataBuf :=
      findCRLF_append hline data
    rw [parseBuf, show (p.append data).state = .firstLine from hst]
    simp only [hline']
    split at h
    · exact h
    · cases h
    · next n hn =>
      have htake : (p.append data).incomingDataBuf.take n = p.incomingDataBuf.take n := by
        have hle := findCRLF_le hn
        rw [HttpParser.append, List.take_append_of_le_length (by omega)]
      simp only [htake, show (p.append data).parsedData = p.parsedData from rfl]
      cases hpacket : parseFirstLine (p.incomingDataBuf.take n) p.parsedData with
      | error e' => simpa [hpacket, Except.map] using h
      | ok packet => simp [hpacket, Except.map] at h
  · next hst =>
    rw [parseBuf, show (p.append data).state = .fields from hst]
    cases hf : p.parseFields with
    | error e' =>
      simp only [hf, Except.map, Except.error.injEq] at h
      simp only [parseFields_append_error data ⟨hp, hst⟩ hf, Except.map, h]
    | ok q => simp [hf, Except.map] at h
  · split at h
    · cases h
    · split at h <;> cases h
  · cases h

theorem parseBuf_append_stop (hp : Sound p) (h : p.parseBuf = .ok (false, q)) (hq : q.state ≠ .complete) :
    (p.append data).parseBuf = (q.append data).parseBuf := by
  cases parseBuf_moves h with
  | noLine | bodyWaits => rfl
  | fields hst hf hfields =>
    rw [parseBuf, parseBuf, show (p.append data).state = .fields from hst,
      show (q.append data).state = .fields from hfields]
    simp only [parseFields_append data ⟨hp, hst⟩ hf hfields]
  | complete hst => exact absurd hst hq

/-- **A parser that waits for more bytes is where it would be had it got all its bytes at once.** -/
theorem parse_append (hp : Sound p) (h : p.parse = .ok q) (hq : q.state ≠ .complete) :
    (p.append data).parse = (q.append data).parse := by
  refine (runs_parse _).det (Loop.Runs.resume (I := Sound) (P := fun q => q.state ≠ .complete)
    (fun s s' hs hstep => parseBuf_sound hstep hs) hp ?_
      (fun s s' hs hstep hs' => parseBuf_append data hs hstep hs')
    (fun s s' hs hstep hs' => parseBuf_append_stop data hs hstep hs') (h ▸ runs_parse p) hq (runs_parse _))
  intro s b s' _ hstep hs' hcomplete
  -- a complete message stays complete
  rw [parseBuf, hcomplete] at hstep
  cases hstep
  exact hs' hcomplete

/-- What the parser does not take it does not take with more bytes behind it. -/
theorem parse_append_error {e : StdException} (hp : Sound p) (h : p.parse = .error e) :
    (p.append data).parse = .error e := by
  refine (runs_parse _).det
    (Loop.Runs.map_error (I := Sound) (fun s s' hs hstep => parseBuf_sound hstep hs) hp ?_
    (fun s e hs hstep => parseBuf_append_error data hs hstep) (h ▸ runs_parse p))
  intro s s' hs hstep hthrows
  refine parseBuf_append data hs hstep fun hcomplete => ?_
  have hstops : Loop.Runs parseBuf s' (.ok s') := .stops (by rw [parseBuf, hcomplete])
  cases hthrows.det hstops

end HttpParser

end DoClient
