/-
`HttpListenerConnection` (`client-lite/src/ipc/rest_http_listener_conn.cpp`):
one read after another goes to the parser, and each message it completes to
the callback. The callback runs on the one thread of the I/O service, in the
order the packets were posted.
-/
import DoClient.HttpMessage
import DoClient.Lib.Run

namespace DoClient

open HttpParser

/-! ## The connection -/

/-- The members of `HttpListenerConnection`, and what it did: the bytes it read, the packets the
callback got, the status codes it replied with by itself. -/
structure HttpListenerConnection where
  httpParser : HttpParser := {}
  /-- A read is outstanding. -/
  receiving : Bool := true
  /-- The packets posted to the I/O service. -/
  posted : List HttpPacket := []
  handed : List HttpPacket := []
  received : Bytes := []
  replies : List Nat := []

/-- What the I/O service completes. -/
inductive ConnectionEvent
  /-- A read: no bytes when the other end closed. -/
  | read (data : Bytes)
  | readError
  /-- The first posted packet goes to the callback. -/
  | callback

namespace HttpListenerConnection

variable (c : HttpListenerConnection)

/-- The size of `_recvBuf`. -/
def recvBufSize : Nat := 2048

/-- `_OnData`, of a read that did not fail. -/
def onData (data : Bytes) : HttpListenerConnection :=
  let c := { c with received := c.received ++ data }
  if data = [] then { c with receiving := false }
  else
    match c.httpParser.onData data with
    | .error _ => { c with receiving := false, replies := c.replies ++ [400] }
    | .ok parser =>
      -- `Reset` drops whatever the buffer holds behind the message
      if parser.done then { c with posted := c.posted ++ [parser.parsedData], httpParser := {} }
      else { c with httpParser := parser }

def step : ConnectionEvent → Option HttpListenerConnection
  | .read data => if c.receiving ∧ data.length ≤ recvBufSize then some (c.onData data) else none
  | .readError => if c.receiving then some { c with receiving := false } else none
  | .callback =>
    match c.posted with
    | [] => none
    | packet :: posted => some { c with posted := posted, handed := c.handed ++ [packet] }

end HttpListenerConnection

/-- The runs of a connection. -/
def connection : Trans.System HttpListenerConnection ConnectionEvent :=
  ⟨fun c => c = {}, HttpListenerConnection.step⟩

/-! ## Messages back to back -/

/-- The messages as they are sent. -/
def stream (msgs : List Message) : Bytes := msgs.flatMap Message.bytes

/-- The packets of the messages whose last byte is among the first `n` of the stream. -/
def completed : List Message → Nat → List HttpPacket
  | [], _ => []
  | m :: msgs, n => if m.bytes.length ≤ n then m.packet :: completed msgs (n - m.bytes.length) else []

/-- Where in the stream the messages end. -/
def ends (msgs : List Message) : List Nat :=
  (List.range (msgs.length + 1)).map fun k => (stream (msgs.take k)).length

/-- A read does not go past the end of the message it is in. -/
def StopsAtEnds (msgs : List Message) (c : HttpListenerConnection) : ConnectionEvent → Prop
  | .read data => ∀ n ∈ ends msgs, ¬ (c.received.length < n ∧ n < c.received.length + data.length)
  | _ => True

instance (msgs : List Message) : ∀ c e, Decidable (StopsAtEnds msgs c e)
  | c, .read data => inferInstanceAs
    (Decidable (∀ n ∈ ends msgs, ¬ (c.received.length < n ∧ n < c.received.length + data.length)))
  | _, .readError | _, .callback => inferInstanceAs (Decidable True)

theorem stream_append (sent unsent : List Message) : stream (sent ++ unsent) = stream sent ++ stream unsent :=
  List.flatMap_append

theorem stream_cons (m : Message) (msgs : List Message) : stream (m :: msgs) = m.bytes ++ stream msgs :=
  List.flatMap_cons

theorem stream_concat (sent : List Message) (m : Message) :
    stream (sent ++ [m]) = stream sent ++ m.bytes := by
  simp [stream]

theorem mem_ends (sent unsent : List Message) : (stream sent).length ∈ ends (sent ++ unsent) :=
  List.mem_map.2 ⟨sent.length, by simp only [List.mem_range, List.length_append]; omega, by simp⟩

/-- What is completed between two ends. -/
theorem completed_stream (sent : List Message) {unsent : List Message} {n : Nat}
    (hn : ∀ m ∈ unsent.head?, n < m.bytes.length) :
    completed (sent ++ unsent) ((stream sent).length + n) = sent.map Message.packet := by
  induction sent with
  | nil =>
    cases unsent with
    | nil => rfl
    | cons m unsent =>
      have hlt := hn m rfl
      rw [List.nil_append, completed,
        if_neg (by simp only [stream, List.flatMap_nil, List.length_nil]; omega)]
      rfl
  | cons m sent ih =>
    have hsub : (stream (m :: sent)).length + n - m.bytes.length = (stream sent).length + n := by
      simp only [stream_cons, List.length_append]
      omega
    rw [List.cons_append, completed, if_pos (by simp only [stream_cons, List.length_append]; omega), hsub, ih]
    rfl

/-! ## The connection between two ends -/

/-- Where the connection is in the stream: the messages sent so far are posted, and the parser holds
what is there of the next one. -/
structure Follows (msgs : List Message) (c : HttpListenerConnection) (sent unsent : List Message)
    (b : Bytes) : Prop where
  msgs_eq : msgs = sent ++ unsent
  received : c.received = stream sent ++ b
  parser : scan b = .ok c.httpParser
  waits : c.httpParser.state ≠ .complete
  inside : ∀ m ∈ unsent.head?, b.length < m.bytes.length
  handedOver : c.handed ++ c.posted = sent.map Message.packet
  replies : c.replies = []

namespace HttpListenerConnection

variable {c c' : HttpListenerConnection} {msgs sent unsent : List Message} {b data : Bytes}

/-- **A read that stops at the end of its message** leads on in the stream. -/
theorem follows_onData (hfits : ∀ m ∈ msgs, m.bytes.length ≤ capacity) (h : Follows msgs c sent unsent b)
    (hstop : StopsAtEnds msgs c (.read data)) (hsent : c.received ++ data <+: stream msgs) :
    ∃ sent unsent b, Follows msgs (c.onData data) sent unsent b := by
  obtain ⟨hmsgs, hreceived, hparser, hwaits, hinside, hhanded, hreplies⟩ := h
  by_cases hdata : data = []
  · refine ⟨sent, unsent, b, hmsgs, ?_, ?_, ?_, hinside, ?_, ?_⟩ <;> simp [HttpListenerConnection.onData, *]
  have hrest : b ++ data <+: stream unsent := by
    rw [hmsgs, stream_append, hreceived, List.append_assoc] at hsent
    exact (List.prefix_append_right_inj _).1 hsent
  have hpos : 0 < data.length := List.length_pos_iff.2 hdata
  cases unsent with
  | nil =>
    have hle := hrest.length_le
    simp only [stream, List.flatMap_nil, List.length_nil, List.length_append] at hle
    omega
  | cons m unsent =>
    have hlt : b.length < m.bytes.length := hinside m rfl
    have hm : m.bytes.length ≤ capacity := hfits m (hmsgs ▸ by simp)
    -- the read ends within the message
    have hend : (b ++ data).length ≤ m.bytes.length := by
      by_contra hover
      have hmem : (stream (sent ++ [m])).length ∈ ends msgs := by
        simpa [hmsgs] using mem_ends (sent ++ [m]) unsent
      refine hstop _ hmem ?_
      simp only [List.length_append] at hover
      simp only [hreceived, stream_concat, List.length_append]
      omega
    obtain ⟨tail, htail⟩ : b ++ data <+: m.bytes := by
      rw [stream_cons] at hrest
      exact List.prefix_of_prefix_length_le hrest (List.prefix_append _ _) hend
    have htakes : Takes (b ++ data ++ tail) m.packet := htail ▸ takes_message m
    have hlen : (b ++ data ++ tail).length = m.bytes.length := by rw [htail]
    simp only [List.length_append] at hlen
    have honData := onData_scan data hparser hwaits (by omega)
    by_cases htail' : tail = []
    · -- the last byte of the message
      rw [htail', List.append_nil] at htakes htail
      obtain ⟨p, hscan, hcomplete, -, hpacket⟩ := htakes
      have hdone : p.done = true := by simp [done, hcomplete]
      have heq : c.onData data = { c with
          received := c.received ++ data, posted := c.posted ++ [m.packet], httpParser := {} } := by
        simp only [HttpListenerConnection.onData, if_neg hdata, honData, hscan, hdone, if_true, hpacket]
      refine ⟨sent ++ [m], unsent, [], by simp [hmsgs], ?_, ?_, ?_, ?_, ?_, ?_⟩
      · simp only [heq, hreceived, stream_concat, List.append_nil, List.append_assoc, htail]
      · rw [heq]
        rfl
      · rw [heq]
        simp
      · exact fun m' _ => List.length_pos_iff.2 m'.bytes_ne_nil
      · simp [heq, ← List.append_assoc, hhanded]
      · simp [heq, hreplies]
    · obtain ⟨p, hscan, hincomplete⟩ := htakes.waits htail'
      have hdone : p.done = false := by simp [done, hincomplete]
      have heq : c.onData data = { c with received := c.received ++ data, httpParser := p } := by
        simp only [HttpListenerConnection.onData, if_neg hdata, honData, hscan, hdone,
          Bool.false_eq_true, if_false]
      have hpos' : 0 < tail.length := List.length_pos_iff.2 htail'
      refine ⟨sent, m :: unsent, b ++ data, hmsgs, ?_, ?_, ?_, ?_, ?_, ?_⟩
      · simp only [heq, hreceived, List.append_assoc]
      · rw [heq, hscan]
      · rw [heq]
        exact hincomplete
      · intro m' hm'
        obtain rfl := Option.some.inj hm'
        simp only [List.length_append]
        omega
      · rw [heq]
        exact hhanded
      · rw [heq]
        exact hreplies

/-- A step leads on in the stream, as long as the bytes read are those of the stream. -/
theorem follows_step (hfits : ∀ m ∈ msgs, m.bytes.length ≤ capacity) {e : ConnectionEvent}
    (h : c.received <+: stream msgs → ∃ sent unsent b, Follows msgs c sent unsent b)
    (hstop : StopsAtEnds msgs c e) (hstep : c.step e = some c') (hsent : c'.received <+: stream msgs) :
    ∃ sent unsent b, Follows msgs c' sent unsent b := by
  cases e with
  | read data =>
    simp only [step] at hstep
    split at hstep
    · obtain rfl := Option.some.inj hstep
      have hreceived : (c.onData data).received = c.received ++ data := by
        unfold HttpListenerConnection.onData
        split
        · rfl
        · dsimp only
          split
          · rfl
          · split <;> rfl
      rw [hreceived] at hsent
      obtain ⟨sent, unsent, b, hfollows⟩ := h ((List.prefix_append _ _).trans hsent)
      exact follows_onData hfits hfollows hstop hsent
    · cases hstep
  | readError =>
    simp only [step] at hstep
    split at hstep
    · obtain rfl := Option.some.inj hstep
      obtain ⟨sent, unsent, b, hfollows⟩ := h hsent
      exact ⟨sent, unsent, b, hfollows.1, hfollows.2, hfollows.3, hfollows.4, hfollows.5,
        hfollows.6, hfollows.7⟩
    · cases hstep
  | callback =>
    simp only [step] at hstep
    split at hstep
    · cases hstep
    · next packet posted hposted =>
      obtain rfl := Option.some.inj hstep
      obtain ⟨sent, unsent, b, hfollows⟩ := h hsent
      refine ⟨sent, unsent, b, hfollows.1, hfollows.2, hfollows.3, hfollows.4, hfollows.5, ?_, hfollows.7⟩
      simpa [hposted] using hfollows.6

theorem follows_reachable (hfits : ∀ m ∈ msgs, m.bytes.length ≤ capacity)
    (h : Trans.ReachableBy connection (StopsAtEnds msgs) c) (hsent : c.received <+: stream msgs) :
    ∃ sent unsent b, Follows msgs c sent unsent b := by
  refine h.invariant (fun c => c.received <+: stream msgs → ∃ sent unsent b, Follows msgs c sent unsent b) ?_
    (fun c e c' hc hstop hstep => follows_step hfits hc hstop hstep) hsent
  intro c hc _
  obtain rfl : c = {} := hc
  exact ⟨[], msgs, [], rfl, rfl, rfl, by simp, fun m _ => List.length_pos_iff.2 m.bytes_ne_nil, rfl, rfl⟩

end HttpListenerConnection

open HttpListenerConnection

/-- **A connection hands over each message once, in order**: as long as no read goes past the end
of the message it is in, the callback has got or is about to get the packets of exactly the
messages read to their end. -/
theorem hands_over_each_message {msgs : List Message} (hfits : ∀ m ∈ msgs, m.bytes.length ≤ capacity)
    {c : HttpListenerConnection} (h : Trans.ReachableBy connection (StopsAtEnds msgs) c)
    (hsent : c.received <+: stream msgs) :
    c.handed ++ c.posted = completed msgs c.received.length ∧
      (c.received = stream msgs → c.handed ++ c.posted = msgs.map Message.packet) := by
  obtain ⟨sent, unsent, b, hmsgs, hreceived, -, -, hinside, hhanded, -⟩ := follows_reachable hfits h hsent
  have hcompleted : c.handed ++ c.posted = completed msgs c.received.length := by
    rw [hhanded, hmsgs, hreceived, List.length_append, completed_stream sent hinside]
  refine ⟨hcompleted, fun hall => ?_⟩
  have hlast := @completed_stream msgs [] 0 (by simp)
  rw [List.append_nil, Nat.add_zero] at hlast
  rw [hcompleted, hall, hlast]

/-- A request for the status of the download `1`. -/
def statusRequest : Message where
  line := ascii "GET download/getstatus?Id=1 HTTP/1.1"
  fields := []
  body := []
  header :=
    { method := ascii "GET", url := { port := some 0, path := ascii "download/getstatus", query := ascii "Id=1" } }
  line_ok := by decide
  fields_ok := nofun
  header_ok := by rfl
  body_ok := rfl

/-- Two requests back to back, the first one in two reads. -/
theorem hands_over_each_message_cut :
    ∃ c : HttpListenerConnection, c.received = stream [statusRequest, statusRequest] ∧
      c.handed ++ c.posted = [statusRequest.packet, statusRequest.packet] := by
  let reads : List ConnectionEvent := [.read (statusRequest.bytes.take 20),
    .read (statusRequest.bytes.drop 20), .read statusRequest.bytes, .callback, .callback]
  have hrun :
      ((connection.restrict (StopsAtEnds [statusRequest, statusRequest])).runFrom {} reads).map (·.received) =
      some (stream [statusRequest, statusRequest]) := by decide
  obtain ⟨c, hreach, hreceived⟩ := Trans.reachableBy_of_replay (.init rfl) hrun
  have hfits : ∀ m ∈ [statusRequest, statusRequest], m.bytes.length ≤ capacity := by decide
  exact ⟨c, hreceived, (hands_over_each_message hfits hreach (hreceived ▸ List.prefix_refl _)).2 hreceived⟩

/-- The second of two requests that come in one read is dropped. -/
theorem second_request_dropped :
    ¬ ∀ msgs : List Message, (∀ m ∈ msgs, m.IsRequest ∧ m.bytes.length ≤ capacity) →
    ∀ c, Trans.Reachable connection c → c.received = stream msgs →
    c.handed ++ c.posted = msgs.map Message.packet := by
  intro hall
  have hrun : (connection.runFrom {} [.read (statusRequest.bytes ++ statusRequest.bytes)]).map (fun c =>
      (c.received, c.handed ++ c.posted)) =
        some (statusRequest.bytes ++ statusRequest.bytes, [statusRequest.packet]) := by
    decide
  obtain ⟨c, hr, hstate⟩ := Trans.reachable_of_replay (.init rfl) hrun
  obtain ⟨hreceived, hhanded⟩ := Prod.mk.inj hstate
  have hgot := hall [statusRequest, statusRequest] (by
    intro m hm
    obtain rfl : m = statusRequest := by simpa using hm
    exact ⟨by simp [Message.IsRequest, statusRequest, ascii], by decide⟩) c
      hr (by simp [hreceived, stream])
  rw [hhanded] at hgot
  cases hgot

end DoClient
