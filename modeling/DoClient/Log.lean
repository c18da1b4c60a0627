/-
The log (`trace/do_log.cpp`): a line is put together in a buffer of 64 KiB by up
to four prints that share one running length; the buffer is written to the log
file when a line does not fit, and from time to time.

A write outside the buffer is undefined behaviour, here no result. The log files
take whatever is written to them; removing old ones is left out.
-/
import DoClient.Bytes
import DoClient.HResult

namespace DoClient

namespace HResult

def STRSAFE_E_INSUFFICIENT_BUFFER : HResult := 0x8007007A

end HResult

namespace DOLog

open HResult

def maxLogFileSizeBytes : Nat := 256 * 1024
def logBufferSizeBytes : Nat := 64 * 1024

inductive Level
  | error | warning | info | verbose
  deriving DecidableEq, Repr

/-- The order of the levels. -/
def Level.toNat : Level → Nat
  | .error => 0
  | .warning => 1
  | .info => 2
  | .verbose => 3

/-- `_LevelToString`. -/
def levelToString : Level → Bytes
  | .error => ascii "error"
  | .warning => ascii "warn "
  | .info => ascii "info "
  | .verbose => ascii "     "

/-! ## The texts of a line -/

/-- `%-<width>s`. -/
def padRight (width : Nat) (s : Bytes) : Bytes := s ++ List.replicate (width - s.length) 32

/-- `%X` of a result. -/
def hexUpper (hr : HResult) : Bytes :=
  Numeral.text 16 (fun d => (ascii "0123456789ABCDEF").getD d 0) hr.toBitVec.toNat

/-- What a call of `Write` or `WriteResult` hands over; `message` is what the format and its
arguments come to, a result of -1 is none. -/
structure LogWrite where
  level : Level
  tid : Int
  func : Option Bytes
  hrIn : HResult
  message : Bytes

namespace LogWrite

variable (w : LogWrite) (pid : Int) (time : Bytes)

/-- `%s %-5d %-5d %-8s `. -/
def head : Bytes :=
  time ++ 32 :: padRight 5 (toDecimalInt pid) ++ 32 :: padRight 5 (toDecimalInt w.tid) ++
    32 :: padRight 8 (levelToString w.level) ++ [32]

/-- What is printed of function and result: nothing where there is neither. -/
def extra : Option Bytes :=
  if w.hrIn ≠ -1 then
    match w.func with
    | some f => some (ascii "\x7b" ++ f ++ ascii "\x7d (hr:" ++ hexUpper w.hrIn ++ ascii ") ")
    | none => some (ascii "(hr:" ++ hexUpper w.hrIn ++ ascii ") ")
  else w.func.map fun f => ascii "\x7b" ++ f ++ ascii "\x7d "

/-- The complete line. -/
def line : Bytes := w.head pid time ++ w.extra.getD [] ++ w.message ++ [LF]

theorem extra_ne_none {w : LogWrite} (h : w.func ≠ none ∨ w.hrIn ≠ -1) : w.extra ≠ none := by
  unfold extra
  split
  · split <;> simp
  · next hresult =>
    rcases h with hfunc | hhr
    · simpa using hfunc
    · exact absurd hhr hresult

end LogWrite

/-! ## The buffer -/

structure LogBuffer where
  buffer : Bytes
  cursor : Nat

namespace LogBuffer

variable (b : LogBuffer)

/-- `Reset`. -/
def reset : LogBuffer := ⟨List.replicate b.buffer.length 0, 0⟩

def ofSize (bufSize : Nat) : LogBuffer := reset ⟨List.replicate bufSize 0, 0⟩

/-- `BytesFree`. -/
def bytesFree : Nat := b.buffer.length - b.cursor

/-- The bytes not yet written to a file. -/
def buffered : Bytes := b.buffer.take b.cursor

/-- Writes memory from an offset of the buffer on. -/
def poke (off : Nat) (bytes : Bytes) : Option LogBuffer :=
  if off + bytes.length ≤ b.buffer.length then
    some { b with buffer := b.buffer.take off ++ bytes ++ b.buffer.drop (off + bytes.length) }
  else none

/-- `StringPrintf` and `StringPrintfV` to a part of the buffer: as much of the text as leaves room
for a NUL, and how long it is if that is all of it. -/
def stringPrintf (off len : Nat) (text : Bytes) : Option (Option Nat × LogBuffer) :=
  if len = 0 then some (none, b)
  else (b.poke off (text.take (len - 1) ++ [0])).map fun b =>
    (if text.length < len then some text.length else none, b)

/-- `cchBuffer - cchTotalWritten`, unsigned. -/
def remaining (cchBuffer cchTotalWritten : Nat) : Nat := wrap64 (cchBuffer + (2 ^ 64 - cchTotalWritten))

/-- The end of `Write`: the message, and a new line with the NUL behind it. -/
def writeMessage (pszBuffer cchBuffer cchTotalWritten : Nat) (message : Bytes) : Option (HResult × LogBuffer) :=
  match b.stringPrintf (pszBuffer + cchTotalWritten) (remaining cchBuffer cchTotalWritten) message with
  | none => none
  | some (none, b) => some (STRSAFE_E_INSUFFICIENT_BUFFER, b)
  | some (some cchWritten, b) =>
    let cchTotalWritten := cchTotalWritten + cchWritten
    if 1 < remaining cchBuffer cchTotalWritten then
      (b.poke (pszBuffer + cchTotalWritten) [LF, 0]).map fun b =>
        (S_OK, { b with cursor := b.cursor + (cchTotalWritten + 1) })
    else some (STRSAFE_E_INSUFFICIENT_BUFFER, b)

/-- `LogBuffer::Write`. -/
def write (pid : Int) (w : LogWrite) (time : Bytes) : Option (HResult × LogBuffer) :=
  let pszBuffer := b.cursor
  let cchBuffer := b.bytesFree
  match b.stringPrintf pszBuffer cchBuffer (w.head pid time) with
  | none => none
  | some (none, b) => some (STRSAFE_E_INSUFFICIENT_BUFFER, b)
  | some (some cchWritten, b) =>
    let cchTotalWritten := cchWritten
    match w.extra with
    | some extra =>
      match b.stringPrintf (pszBuffer + cchTotalWritten) (remaining cchBuffer cchTotalWritten) extra with
      | none => none
      | some (none, b) => some (STRSAFE_E_INSUFFICIENT_BUFFER, b)
      | some (some cchWritten, b) => b.writeMessage pszBuffer cchBuffer (cchTotalWritten + cchWritten) w.message
    -- nothing is printed, and `cchWritten` is still the length of the head
    | none => b.writeMessage pszBuffer cchBuffer (cchTotalWritten + cchWritten) w.message

end LogBuffer

/-! ## The log files -/

/-- A log file that is open: where its end was when it was opened, and what was written since. -/
structure LogFile where
  start : Nat
  bytes : Bytes

/-- The members of `LoggerImpl`; `closed` is what was written to the files closed since. -/
structure LoggerImpl where
  maxLogLevel : Level
  pid : Int
  writeBuffer : LogBuffer
  logFile : Option LogFile
  closed : Bytes

namespace LoggerImpl

variable (l : LoggerImpl)

/-- `LogBuffer::Flush` to the log file. -/
def flush : LoggerImpl :=
  match l.logFile with
  | some f =>
    if l.writeBuffer.cursor ≠ 0 then
      { l with logFile := some { f with bytes := f.bytes ++ l.writeBuffer.buffered }, writeBuffer := l.writeBuffer.reset }
    else l
  | none => l

/-- `_RotateLogFilesIfNeeded`: a full file is closed and another opened, which `created` says the
end of, or fails. -/
def rotateLogFilesIfNeeded (created : Option Nat) : LoggerImpl :=
  match l.logFile with
  | some f =>
    if maxLogFileSizeBytes ≤ f.start + f.bytes.length then
      { l with logFile := created.map fun start => ⟨start, []⟩, closed := l.closed ++ f.bytes }
    else l
  | none => l

/-- `WriteV`, at the times of its two attempts. -/
def writeV (w : LogWrite) (time time' : Bytes) (created : Option Nat) : Option LoggerImpl :=
  if l.maxLogLevel.toNat < w.level.toNat then some l
  else
    match l.writeBuffer.write l.pid w time with
    | none => none
    | some (hr, b) =>
      let l := { l with writeBuffer := b }
      if hr = STRSAFE_E_INSUFFICIENT_BUFFER then
        let l := l.flush.rotateLogFilesIfNeeded created
        (l.writeBuffer.write l.pid w time').map fun (_, b) => { l with writeBuffer := b }
      else some l

end LoggerImpl

/-- What happens to a log. -/
inductive LogEvent
  | write (w : LogWrite) (time time' : Bytes) (created : Option Nat)
  /-- A round of `_FlushThreadProc`. -/
  | flush (created : Option Nat)

def LoggerImpl.step (l : LoggerImpl) : LogEvent → Option LoggerImpl
  | .write w time time' created => l.writeV w time time' created
  | .flush created => some (l.flush.rotateLogFilesIfNeeded created)

def LoggerImpl.run (l : LoggerImpl) (events : List LogEvent) : Option LoggerImpl := events.foldlM LoggerImpl.step l

/-- A logger whose first log file could be opened. -/
def newLogger (maxLogLevel : Level) (pid : Int) (start : Nat) : LoggerImpl where
  maxLogLevel := maxLogLevel
  pid := pid
  writeBuffer := .ofSize logBufferSizeBytes
  logFile := some ⟨start, []⟩
  closed := []

/-! ## Prints into the buffer -/

namespace LogBuffer

variable {b b₀ b' : LogBuffer} {text t : Bytes}

theorem poke_eq {off : Nat} {bytes : Bytes} (h : off + bytes.length ≤ b.buffer.length) :
    b.poke off bytes =
      some { b with buffer := b.buffer.take off ++ bytes ++ b.buffer.drop (off + bytes.length) } := if_pos h

/-- `b` is `b₀` with a text behind what is buffered, and room for a NUL behind it. -/
structure Filling (b₀ b : LogBuffer) (text : Bytes) : Prop where
  size : b.buffer.length = b₀.buffer.length
  cursor : b.cursor = b₀.cursor
  bytes : b₀.buffered ++ text <+: b.buffer
  room : b₀.cursor + text.length < b₀.buffer.length

theorem buffered_prefix (b : LogBuffer) : b.buffered <+: b.buffer := List.take_prefix ..

theorem length_buffered (h : b.cursor ≤ b.buffer.length) : b.buffered.length = b.cursor := by
  simpa [buffered] using h

theorem filling_nil (h : b.cursor < b.buffer.length) : Filling b b [] :=
  ⟨rfl, rfl, by simpa using buffered_prefix b, by simpa using h⟩

/-- What is buffered is the front of the buffer that is as long. -/
theorem buffered_eq {bytes : Bytes} (h : bytes <+: b.buffer) (hcursor : b.cursor = bytes.length) :
    b.buffered = bytes := by
  rw [buffered, hcursor]
  exact (List.prefix_iff_eq_take.1 h).symm

theorem Filling.buffered (h : Filling b₀ b text) : b.buffered = b₀.buffered := by
  have hroom := h.room
  refine buffered_eq ((List.prefix_append _ _).trans h.bytes) ?_
  rw [h.cursor, length_buffered (by omega)]

/-- What is written behind the text keeps it. -/
theorem Filling.poke (h : Filling b₀ b text) (bytes : Bytes)
    (hfits : b₀.cursor + text.length + bytes.length ≤ b₀.buffer.length) :
    ∃ b', b.poke (b₀.cursor + text.length) bytes = some b' ∧ b'.buffer.length = b₀.buffer.length ∧
      b'.cursor = b₀.cursor ∧ b₀.buffered ++ text ++ bytes <+: b'.buffer := by
  have hsize := h.size
  refine ⟨_, poke_eq (by omega), ?_, h.cursor, ?_⟩
  · simp only [List.length_append, List.length_take, List.length_drop]
    omega
  · have hlength : b₀.cursor + text.length = (b₀.buffered ++ text).length := by
      rw [List.length_append, length_buffered (by omega)]
    rw [hlength, ← List.prefix_iff_eq_take.1 h.bytes]
    exact List.prefix_append _ _

/-- The unsigned difference is the free space behind the text. -/
theorem remaining_eq {cchBuffer cchTotalWritten : Nat} (h : cchTotalWritten ≤ cchBuffer) (hsize : cchBuffer < 2 ^ 64) :
    remaining cchBuffer cchTotalWritten = cchBuffer - cchTotalWritten := by
  rw [remaining, wrap64]
  omega

/-- **A print appends its text, if that and a NUL fit; else the text before it stays.** -/
theorem Filling.stringPrintf (h : Filling b₀ b text) (t : Bytes) :
    ∃ b', b.stringPrintf (b₀.cursor + text.length) (b₀.bytesFree - text.length) t =
        some (if text.length + t.length < b₀.bytesFree then some t.length else none, b') ∧
      Filling b₀ b' (if text.length + t.length < b₀.bytesFree then text ++ t else text) := by
  have hroom := h.room
  have hfree : b₀.bytesFree = b₀.buffer.length - b₀.cursor := rfl
  have hlen : b₀.bytesFree - text.length ≠ 0 := by omega
  have htake : (t.take (b₀.bytesFree - text.length - 1) ++ [0]).length =
      min (b₀.bytesFree - text.length - 1) t.length + 1 := by simp
  obtain ⟨b', hpoke, hsize, hcursor, hbytes⟩ :=
    h.poke (t.take (b₀.bytesFree - text.length - 1) ++ [0]) (by omega)
  have hfits : t.length < b₀.bytesFree - text.length ↔ text.length + t.length < b₀.bytesFree := by omega
  refine ⟨b', by simp only [LogBuffer.stringPrintf, if_neg hlen, hpoke, Option.map_some, hfits], ?_⟩
  by_cases hlt : text.length + t.length < b₀.bytesFree
  · rw [if_pos hlt]
    have hall : t.take (b₀.bytesFree - text.length - 1) = t := List.take_of_length_le (by omega)
    rw [hall, ← List.append_assoc, List.append_assoc b₀.buffered] at hbytes
    exact ⟨hsize, hcursor, (List.prefix_append _ _).trans hbytes, by simp only [List.length_append]; omega⟩
  · rw [if_neg hlt]
    exact ⟨hsize, hcursor, (List.prefix_append _ _).trans hbytes, hroom⟩

/-- What an attempt to write a line comes to: the line stands behind what is buffered, or it does
not fit, and what is buffered stays as it is. -/
inductive Attempt (b : LogBuffer) (line : Bytes) : HResult × LogBuffer → Prop
  | written {b' : LogBuffer} : line.length < b.bytesFree → b'.buffer.length = b.buffer.length →
    b'.cursor = b.cursor + line.length → b'.buffered = b.buffered ++ line → Attempt b line (S_OK, b')
  | full {b' : LogBuffer} : b.bytesFree ≤ line.length → b'.buffer.length = b.buffer.length →
    b'.cursor = b.cursor → b'.buffered = b.buffered → Attempt b line (STRSAFE_E_INSUFFICIENT_BUFFER, b')

theorem Filling.full {line : Bytes} (h : Filling b₀ b text) (hfull : b₀.bytesFree ≤ line.length) :
    Attempt b₀ line (STRSAFE_E_INSUFFICIENT_BUFFER, b) := .full hfull h.size h.cursor h.buffered

/-- The message and the new line behind a text. -/
theorem Filling.writeMessage (h : Filling b₀ b text) (hsize : b₀.buffer.length < 2 ^ 64) (message : Bytes) :
    ∃ r, b.writeMessage b₀.cursor b₀.bytesFree text.length message = some r ∧
      Attempt b₀ (text ++ message ++ [LF]) r := by
  have hroom := h.room
  have hfree : b₀.bytesFree = b₀.buffer.length - b₀.cursor := rfl
  obtain ⟨b', hprint, hfilling⟩ := h.stringPrintf message
  rw [LogBuffer.writeMessage, remaining_eq (by omega) (by omega), hprint]
  by_cases hlt : text.length + message.length < b₀.bytesFree
  · simp only [if_pos hlt] at hfilling ⊢
    have hlength : (text ++ message).length = text.length + message.length := List.length_append
    rw [remaining_eq (by omega) (by omega)]
    by_cases hnl : 1 < b₀.bytesFree - (text.length + message.length)
    · rw [if_pos hnl]
      obtain ⟨b'', hpoke, hsize', hcursor, hbytes⟩ := hfilling.poke [LF, 0]
        (by simp only [List.length_cons, List.length_nil]; omega)
      rw [hlength] at hpoke
      rw [hpoke]
      refine ⟨_, rfl, .written ?_ hsize' ?_ ?_⟩
      · simp only [List.length_append, List.length_singleton]
        omega
      · simp only [hcursor, List.length_append, List.length_singleton]
      · have hline : b₀.buffered ++ (text ++ message ++ [LF]) <+: b''.buffer := by
          refine List.IsPrefix.trans ?_ hbytes
          exact ⟨[0], by simp⟩
        refine buffered_eq hline ?_
        rw [List.length_append, length_buffered (by omega), hcursor]
        simp only [List.length_append, List.length_singleton]
    · rw [if_neg hnl]
      refine ⟨_, rfl, hfilling.full ?_⟩
      simp only [List.length_append, List.length_singleton]
      omega
  · simp only [if_neg hlt] at hfilling ⊢
    refine ⟨_, rfl, hfilling.full ?_⟩
    simp only [List.length_append, List.length_singleton]
    omega

/-- **A write with a function or a result puts its whole line behind what is buffered, or leaves
that as it is.** -/
theorem write_attempt (b : LogBuffer) {w : LogWrite} (pid : Int) (time : Bytes) (hextra : w.extra ≠ none)
    (hcursor : b.cursor < b.buffer.length) (hsize : b.buffer.length < 2 ^ 64) :
    ∃ r, b.write pid w time = some r ∧ Attempt b (w.line pid time) r := by
  obtain ⟨extra, hextra⟩ := Option.ne_none_iff_exists'.1 hextra
  have hfree : b.bytesFree = b.buffer.length - b.cursor := rfl
  have hline : w.line pid time = w.head pid time ++ extra ++ w.message ++ [LF] := by
    rw [LogWrite.line, hextra, Option.getD_some]
  have hlength : (w.line pid time).length =
      (w.head pid time).length + extra.length + w.message.length + 1 := by
    rw [hline]
    simp only [List.length_append, List.length_singleton]
  obtain ⟨b₁, hhead, hfilling₁⟩ := (filling_nil hcursor).stringPrintf (w.head pid time)
  simp only [List.length_nil, Nat.add_zero, Nat.sub_zero, Nat.zero_add, List.nil_append] at hhead hfilling₁
  rw [LogBuffer.write, hhead]
  by_cases hlt₁ : (w.head pid time).length < b.bytesFree
  · simp only [if_pos hlt₁] at hfilling₁ ⊢
    obtain ⟨b₂, hprint, hfilling₂⟩ := hfilling₁.stringPrintf extra
    simp only [hextra]
    rw [remaining_eq (by omega) (by omega), hprint]
    by_cases hlt₂ : (w.head pid time).length + extra.length < b.bytesFree
    · simp only [if_pos hlt₂] at hfilling₂ ⊢
      have hmessage := hfilling₂.writeMessage hsize w.message
      rwa [List.length_append, ← hline] at hmessage
    · simp only [if_neg hlt₂] at hfilling₂ ⊢
      exact ⟨_, rfl, hfilling₂.full (by omega)⟩
  · simp only [if_neg hlt₁] at hfilling₁ ⊢
    exact ⟨_, rfl, hfilling₁.full (by omega)⟩

/-! ## Writes with neither function nor result -/

theorem stringPrintf_fits (b : LogBuffer) (t : Bytes) {off len : Nat} (hlen : t.length < len) (hroom : off + t.length < b.buffer.length) :
    ∃ b', b.stringPrintf off len t = some (some t.length, b') ∧ b'.buffer.length = b.buffer.length ∧
      b'.cursor = b.cursor := by
  have htake : t.take (len - 1) = t := List.take_of_length_le (by omega)
  have hpoke : off + (t ++ [0]).length ≤ b.buffer.length := by
    simp only [List.length_append, List.length_singleton]
    omega
  have hprint : b.stringPrintf off len t = some (some t.length,
      { b with buffer := b.buffer.take off ++ (t ++ [0]) ++ b.buffer.drop (off + (t ++ [0]).length) }) := by
    rw [stringPrintf, if_neg (by omega), htake, poke_eq hpoke, Option.map_some, if_pos hlen]
  refine ⟨_, hprint, ?_, rfl⟩
  simp only [List.length_append, List.length_take, List.length_drop] at hpoke ⊢
  omega

/-- The length of the head is counted twice, which leaves a hole in front of the message. -/
theorem write_without_extra (b : LogBuffer) (pid : Int) {w : LogWrite} {time : Bytes} (hextra : w.extra = none)
    (hsize : b.buffer.length < 2 ^ 64)
    (hroom : 2 * (w.head pid time).length + w.message.length + 1 < b.bytesFree) :
    ∃ b', b.write pid w time = some (S_OK, b') ∧ b'.buffer.length = b.buffer.length ∧
      b'.cursor = b.cursor + (2 * (w.head pid time).length + w.message.length + 1) := by
  have hfree : b.bytesFree = b.buffer.length - b.cursor := rfl
  obtain ⟨b₁, hhead, hsize₁, hcursor₁⟩ :=
    b.stringPrintf_fits (w.head pid time) (show _ < b.bytesFree by omega) (show b.cursor + _ < _ by omega)
  obtain ⟨b₂, hmessage, hsize₂, hcursor₂⟩ := b₁.stringPrintf_fits w.message
    (show _ < b.bytesFree - ((w.head pid time).length + (w.head pid time).length) by omega)
    (show b.cursor + ((w.head pid time).length + (w.head pid time).length) + _ < _ by omega)
  rw [write, hhead]
  simp only [hextra, writeMessage]
  rw [remaining_eq (by omega) (by omega), hmessage]
  simp only
  rw [remaining_eq (by omega) (by omega), if_pos (by omega), poke_eq (by simp only [List.length_cons, List.length_nil]; omega)]
  refine ⟨_, rfl, ?_, ?_⟩
  · simp only [List.length_append, List.length_take, List.length_drop, List.length_cons, List.length_nil]
    omega
  · simp only [hcursor₂, hcursor₁]
    omega

/-- Where that is more than is free, the message is written behind the buffer. -/
theorem write_overruns {pid : Int} {w : LogWrite} {time : Bytes} (hextra : w.extra = none)
    (hsize : b.buffer.length < 2 ^ 63) (hhead : (w.head pid time).length < b.bytesFree)
    (hover : b.bytesFree < 2 * (w.head pid time).length) : b.write pid w time = none := by
  have hfree : b.bytesFree = b.buffer.length - b.cursor := rfl
  obtain ⟨b₁, hprint, hsize₁, -⟩ :=
    b.stringPrintf_fits (w.head pid time) hhead (show b.cursor + _ < _ by omega)
  have hlen : remaining b.bytesFree ((w.head pid time).length + (w.head pid time).length) ≠ 0 := by
    rw [remaining, wrap64]
    omega
  have hpoke : ∀ bytes, b₁.poke (b.cursor + ((w.head pid time).length + (w.head pid time).length)) bytes = none :=
    fun bytes => if_neg (by omega)
  rw [write, hprint]
  simp only [hextra, writeMessage, stringPrintf, if_neg hlen, hpoke, Option.map_none]

/-! ## Writes that do not fit -/

/-- Memory behind the cursor is not what is buffered. -/
theorem poke_buffered {off : Nat} {bytes : Bytes} (hoff : b.cursor ≤ off) (h : b.poke off bytes = some b') :
    b'.buffered = b.buffered ∧ b'.cursor = b.cursor := by
  rw [poke] at h
  split at h
  · next hfits =>
    obtain rfl := Option.some.inj h
    refine ⟨?_, rfl⟩
    have hlength : b.cursor ≤ (b.buffer.take off).length := by
      rw [List.length_take]
      omega
    rw [buffered, buffered, List.append_assoc, List.take_append_of_le_length hlength, List.take_take,
      Nat.min_eq_left hoff]
  · cases h

theorem stringPrintf_buffered {off len : Nat} {r : Option Nat} (hoff : b.cursor ≤ off)
    (h : b.stringPrintf off len text = some (r, b')) : b'.buffered = b.buffered ∧ b'.cursor = b.cursor := by
  rw [stringPrintf] at h
  split at h
  · simp only [Option.some.injEq, Prod.mk.injEq] at h
    obtain ⟨-, rfl⟩ := h
    exact ⟨rfl, rfl⟩
  · simp only [Option.map_eq_some_iff, Prod.mk.injEq] at h
    obtain ⟨b'', hpoke, -, rfl⟩ := h
    exact poke_buffered hoff hpoke

theorem writeMessage_full {off cchBuffer cchTotalWritten : Nat} (hoff : b.cursor ≤ off)
    (h : b.writeMessage off cchBuffer cchTotalWritten t = some (STRSAFE_E_INSUFFICIENT_BUFFER, b')) :
    b'.buffered = b.buffered ∧ b'.cursor = b.cursor := by
  rw [writeMessage] at h
  split at h
  · cases h
  · next b₁ hprint =>
    simp only [Option.some.injEq, Prod.mk.injEq] at h
    exact h.2 ▸ stringPrintf_buffered (by omega) hprint
  · next cchWritten b₁ hprint =>
    dsimp only at h
    split at h
    · simp only [Option.map_eq_some_iff, Prod.mk.injEq] at h
      obtain ⟨_, -, hr, -⟩ := h
      exact absurd hr (by decide)
    · simp only [Option.some.injEq, Prod.mk.injEq] at h
      exact h.2 ▸ stringPrintf_buffered (by omega) hprint

/-- **A write that does not fit leaves what is buffered, and the cursor, as they are.** -/
theorem write_full {pid : Int} {w : LogWrite} {time : Bytes}
    (h : b.write pid w time = some (STRSAFE_E_INSUFFICIENT_BUFFER, b')) :
    b'.buffered = b.buffered ∧ b'.cursor = b.cursor := by
  rw [write] at h
  split at h
  · cases h
  · next b₁ hhead =>
    simp only [Option.some.injEq, Prod.mk.injEq] at h
    exact h.2 ▸ stringPrintf_buffered (Nat.le_refl _) hhead
  · next cchWritten b₁ hhead =>
    obtain ⟨hbuffered₁, hcursor₁⟩ := stringPrintf_buffered (Nat.le_refl _) hhead
    dsimp only at h
    split at h
    · split at h
      · cases h
      · next b₂ hprint =>
        simp only [Option.some.injEq, Prod.mk.injEq] at h
        obtain ⟨hbuffered₂, hcursor₂⟩ := stringPrintf_buffered (by omega) hprint
        exact h.2 ▸ ⟨hbuffered₂.trans hbuffered₁, hcursor₂.trans hcursor₁⟩
      · next cchWritten' b₂ hprint =>
        obtain ⟨hbuffered₂, hcursor₂⟩ := stringPrintf_buffered (by omega) hprint
        obtain ⟨hbuffered₃, hcursor₃⟩ := writeMessage_full (by omega) h
        exact ⟨hbuffered₃.trans (hbuffered₂.trans hbuffered₁), hcursor₃.trans (hcursor₂.trans hcursor₁)⟩
    · obtain ⟨hbuffered₃, hcursor₃⟩ := writeMessage_full (by omega) h
      exact ⟨hbuffered₃.trans hbuffered₁, hcursor₃.trans hcursor₁⟩

end LogBuffer

/-! ## Runs of the log -/

namespace LoggerImpl

variable {max : Level} {pid : Int} {l : LoggerImpl}

/-- What was written to the log files, in order. -/
def written (l : LoggerImpl) : Bytes := l.closed ++ (l.logFile.map LogFile.bytes).getD []

/-- A logger with its file open and its buffer in order. -/
structure Ready (max : Level) (pid : Int) (l : LoggerImpl) : Prop where
  maxLogLevel : l.maxLogLevel = max
  pid : l.pid = pid
  logFile : l.logFile ≠ none
  size : l.writeBuffer.buffer.length = logBufferSizeBytes
  cursor : l.writeBuffer.cursor < logBufferSizeBytes

theorem size_ofSize (n : Nat) : (LogBuffer.ofSize n).buffer.length = n := by
  simp [LogBuffer.ofSize, LogBuffer.reset]

theorem ready_newLogger (max : Level) (pid : Int) (start : Nat) : Ready max pid (newLogger max pid start) where
  maxLogLevel := rfl
  pid := rfl
  logFile := Option.some_ne_none _
  size := size_ofSize _
  cursor := show 0 < logBufferSizeBytes by decide

/-- A flush moves what is buffered to the file. -/
theorem Ready.flush (h : Ready max pid l) : Ready max pid l.flush ∧ l.flush.writeBuffer.buffered = [] ∧
    l.flush.writeBuffer.cursor = 0 ∧ l.flush.written = l.written ++ l.writeBuffer.buffered := by
  obtain ⟨f, hf⟩ := Option.ne_none_iff_exists'.1 h.logFile
  by_cases hcursor : l.writeBuffer.cursor = 0
  · have hflush : l.flush = l := by simp [LoggerImpl.flush, hf, hcursor]
    have hbuffered : l.writeBuffer.buffered = [] := by simp [LogBuffer.buffered, hcursor]
    rw [hflush, hbuffered, List.append_nil]
    exact ⟨h, rfl, hcursor, rfl⟩
  · have hflush : l.flush = { l with
        logFile := some { f with bytes := f.bytes ++ l.writeBuffer.buffered }
        writeBuffer := l.writeBuffer.reset } := by simp [LoggerImpl.flush, hf, hcursor]
    rw [hflush]
    refine ⟨⟨h.maxLogLevel, h.pid, by simp, ?_, by simp [LogBuffer.reset, logBufferSizeBytes]⟩,
      by simp [LogBuffer.buffered, LogBuffer.reset], rfl, by simp [written, hf]⟩
    simp [LogBuffer.reset, h.size]

/-- To rotate the files loses nothing. -/
theorem Ready.rotate {created : Option Nat} (h : Ready max pid l) (hcreated : created ≠ none) :
    Ready max pid (l.rotateLogFilesIfNeeded created) ∧
      (l.rotateLogFilesIfNeeded created).writeBuffer = l.writeBuffer ∧
      (l.rotateLogFilesIfNeeded created).written = l.written := by
  obtain ⟨f, hf⟩ := Option.ne_none_iff_exists'.1 h.logFile
  obtain ⟨start, rfl⟩ := Option.ne_none_iff_exists'.1 hcreated
  simp only [rotateLogFilesIfNeeded, hf]
  split
  · exact ⟨⟨h.maxLogLevel, h.pid, by simp, h.size, h.cursor⟩, rfl, by simp [written, hf]⟩
  · exact ⟨h, rfl, rfl⟩

end LoggerImpl

/-- Files can be opened, and the lines fit the buffer, each with its NUL. -/
def InScope (pid : Int) : LogEvent → Prop
  | .write w time time' created => created ≠ none ∧ (w.line pid time).length + 1 ≤ logBufferSizeBytes ∧
    (w.line pid time').length + 1 ≤ logBufferSizeBytes
  | .flush created => created ≠ none

/-- A write within the limit has a function or a result. -/
def Printable (max : Level) : LogEvent → Prop
  | .write w _ _ _ => w.level.toNat ≤ max.toNat → w.func ≠ none ∨ w.hrIn ≠ -1
  | .flush _ => True

instance (pid : Int) : DecidablePred (InScope pid)
  | .write .. => inferInstanceAs (Decidable (_ ∧ _ ∧ _))
  | .flush _ => inferInstanceAs (Decidable (_ ≠ none))

instance (max : Level) : DecidablePred (Printable max)
  | .write .. => inferInstanceAs (Decidable (_ → _ ∨ _))
  | .flush _ => isTrue trivial

/-- The line of an event: that of a write within the limit has the time of one of its attempts. -/
def LineOf (max : Level) (pid : Int) : LogEvent → Bytes → Prop
  | .write w time time' _, line =>
    if w.level.toNat ≤ max.toNat then line = w.line pid time ∨ line = w.line pid time' else line = []
  | .flush _, line => line = []

/-- The files and the buffer hold one complete line for each write, in order; the cursor is within
the buffer; and a write that does not fit changes neither. -/
structure LinesKept (max : Level) (pid : Int) (events : List LogEvent) (l : LoggerImpl) : Prop where
  bytes : ∃ lines, List.Forall₂ (LineOf max pid) events lines ∧
    l.written ++ l.writeBuffer.buffered = lines.flatten
  cursor : l.writeBuffer.cursor ≤ logBufferSizeBytes ∧ l.writeBuffer.buffer.length = logBufferSizeBytes
  unchanged : ∀ w time b', l.writeBuffer.write l.pid w time = some (STRSAFE_E_INSUFFICIENT_BUFFER, b') →
    b'.buffered = l.writeBuffer.buffered ∧ b'.cursor = l.writeBuffer.cursor

section Runs

variable {max : Level} {pid : Int} {l : LoggerImpl}

open LoggerImpl

/-- One attempt, where the line fits an empty buffer. -/
theorem ready_written {line : Bytes} {b' : LogBuffer} (h : Ready max pid l)
    (hattempt : l.writeBuffer.Attempt line (S_OK, b')) :
    Ready max pid { l with writeBuffer := b' } ∧ b'.buffered = l.writeBuffer.buffered ++ line := by
  generalize hr : (S_OK, b') = r at hattempt
  cases hattempt with
  | written hlt hsize hcursor hbuffered =>
    obtain ⟨-, rfl⟩ := Prod.mk.inj hr
    have hfree : l.writeBuffer.bytesFree = l.writeBuffer.buffer.length - l.writeBuffer.cursor := rfl
    have hsize₀ := h.size
    exact ⟨⟨h.maxLogLevel, h.pid, h.logFile, hsize.trans h.size, by simp only; omega⟩, hbuffered⟩
  | full => exact absurd (Prod.mk.inj hr).1 (by decide)

theorem writeV_of_ok {w : LogWrite} {time time' : Bytes} {created : Option Nat} {b' : LogBuffer}
    (hlevel : w.level.toNat ≤ l.maxLogLevel.toNat) (hwrite : l.writeBuffer.write l.pid w time = some (S_OK, b')) :
    l.writeV w time time' created = some { l with writeBuffer := b' } := by
  have hok : S_OK ≠ STRSAFE_E_INSUFFICIENT_BUFFER := by decide
  simp only [writeV, if_neg (Nat.not_lt.2 hlevel), hwrite]
  exact if_neg hok

theorem writeV_of_full {w : LogWrite} {time time' : Bytes} {created : Option Nat} {b' : LogBuffer}
    (hlevel : w.level.toNat ≤ l.maxLogLevel.toNat)
    (hwrite : l.writeBuffer.write l.pid w time = some (STRSAFE_E_INSUFFICIENT_BUFFER, b')) :
    l.writeV w time time' created =
      let l := (LoggerImpl.flush { l with writeBuffer := b' }).rotateLogFilesIfNeeded created
      (l.writeBuffer.write l.pid w time').map fun (_, b) => { l with writeBuffer := b } := by
  simp only [writeV, if_neg (Nat.not_lt.2 hlevel), hwrite]
  exact if_pos trivial

/-- **What one event does.** -/
theorem step_line {e : LogEvent} (h : Ready max pid l) (hscope : InScope pid e) (hprint : Printable max e) :
    ∃ l' line, l.step e = some l' ∧ Ready max pid l' ∧ LineOf max pid e line ∧
      l'.written ++ l'.writeBuffer.buffered = l.written ++ l.writeBuffer.buffered ++ line := by
  cases e with
  | flush created =>
    obtain ⟨hflush, hempty, -, hwritten⟩ := h.flush
    obtain ⟨hrotate, hbuffer, hwritten'⟩ := hflush.rotate hscope
    refine ⟨_, [], rfl, hrotate, rfl, ?_⟩
    rw [hwritten', hbuffer, hempty, hwritten, List.append_nil]
  | write w time time' created =>
    obtain ⟨hcreated, hfits, hfits'⟩ := hscope
    obtain ⟨rfl, rfl, -, hsize, hcursor⟩ := id h
    by_cases hlevel : w.level.toNat ≤ l.maxLogLevel.toNat
    · have hextra := LogWrite.extra_ne_none (hprint hlevel)
      obtain ⟨r, hwrite, hattempt⟩ := l.writeBuffer.write_attempt l.pid time hextra (by omega) (by rw [hsize]; decide)
      cases hattempt with
      | written hlt hsize₁ hcursor₁ hbuffered₁ =>
        obtain ⟨hready, hbuffered⟩ := ready_written h (.written hlt hsize₁ hcursor₁ hbuffered₁)
        refine ⟨_, w.line l.pid time, writeV_of_ok hlevel hwrite, hready, by simp [LineOf, hlevel], ?_⟩
        simp only [written, hbuffered, List.append_assoc]
      | @full b₁ _ hsize₁ hcursor₁ hbuffered₁ =>
        -- what was buffered goes to the file, and the second attempt finds the buffer empty
        have hready₁ : Ready l.maxLogLevel l.pid { l with writeBuffer := b₁ } :=
          ⟨rfl, rfl, h.logFile, hsize₁.trans hsize, by simp only; omega⟩
        obtain ⟨hflush, hempty, hcursor₂, hwritten₂⟩ := hready₁.flush
        obtain ⟨hready₃, hbuffer₃, hwritten₃⟩ := hflush.rotate hcreated
        rw [LoggerImpl.step, writeV_of_full hlevel hwrite]
        generalize (LoggerImpl.flush { l with writeBuffer := b₁ }).rotateLogFilesIfNeeded created = l₃ at *
        have hsize₃ := hready₃.size
        have hcursor₃ := hready₃.cursor
        obtain ⟨r, hwrite', hattempt⟩ := l₃.writeBuffer.write_attempt l₃.pid time' hextra (by omega)
          (by rw [hsize₃]; decide)
        simp only [hwrite', Option.map_some]
        rw [hready₃.pid] at hattempt
        cases hattempt with
        | @written b₄ hlt hsize₄ hcursor₄ hbuffered₄ =>
          obtain ⟨hready₄, hbuffered⟩ := ready_written hready₃ (.written hlt hsize₄ hcursor₄ hbuffered₄)
          refine ⟨_, w.line l.pid time', rfl, hready₄, by simp [LineOf, hlevel], ?_⟩
          change _ = l.written ++ b₁.buffered at hwritten₂
          change l₃.written ++ b₄.buffered = _
          rw [hbuffered, hwritten₃, hwritten₂, hbuffer₃, hempty, List.nil_append, hbuffered₁]
        | full hfull =>
          have hfree : l₃.writeBuffer.bytesFree = l₃.writeBuffer.buffer.length - l₃.writeBuffer.cursor := rfl
          rw [hbuffer₃, hcursor₂] at hfree
          rw [hbuffer₃] at hsize₃ hfull
          omega
    · have hbeyond : l.maxLogLevel.toNat < w.level.toNat := Nat.not_le.1 hlevel
      exact ⟨l, [], by simp only [LoggerImpl.step, writeV, if_pos hbeyond], h, by simp [LineOf, hlevel], by simp⟩

/-- The lines of a run, one event after another. -/
theorem run_lines : ∀ {events : List LogEvent} {l : LoggerImpl}, Ready max pid l →
    (∀ e ∈ events, InScope pid e) → (∀ e ∈ events, Printable max e) →
      ∃ l' lines, l.run events = some l' ∧ Ready max pid l' ∧ List.Forall₂ (LineOf max pid) events lines ∧
        l'.written ++ l'.writeBuffer.buffered = l.written ++ l.writeBuffer.buffered ++ lines.flatten
  | [], l, h, _, _ => ⟨l, [], rfl, h, .nil, by simp⟩
  | e :: events, l, h, hscope, hprint => by
    obtain ⟨hscope₁, hscope⟩ := List.forall_mem_cons.1 hscope
    obtain ⟨hprint₁, hprint⟩ := List.forall_mem_cons.1 hprint
    obtain ⟨l₁, line, hstep, h₁, hline, hbytes₁⟩ := step_line h hscope₁ hprint₁
    obtain ⟨l', lines, hrun, h', hlines, hbytes⟩ := run_lines h₁ hscope hprint
    refine ⟨l', line :: lines, ?_, h', .cons hline hlines, ?_⟩
    · rw [LoggerImpl.run, List.foldlM_cons, hstep]
      exact hrun
    · rw [hbytes, hbytes₁, List.flatten_cons, List.append_assoc]

/-- **The log keeps one complete line for each write**, where no write within the limit is without
both function and result. -/
theorem lines_kept (start : Nat) {events : List LogEvent} (hscope : ∀ e ∈ events, InScope pid e)
    (hprint : ∀ e ∈ events, Printable max e) :
    ∃ l, (newLogger max pid start).run events = some l ∧ LinesKept max pid events l := by
  obtain ⟨l, lines, hrun, hready, hlines, hbytes⟩ := run_lines (ready_newLogger max pid start) hscope hprint
  refine ⟨l, hrun, ⟨lines, hlines, ?_⟩, ⟨Nat.le_of_lt hready.cursor, hready.size⟩, fun w time b' h =>
    LogBuffer.write_full h⟩
  rw [hbytes]
  rfl

/-- An error with function and result, a flush, and a message with a function alone. -/
def twoWrites : List LogEvent :=
  [.write ⟨.error, 7, some (ascii "Start"), E_INVALIDARG, ascii "bad url"⟩ (ascii "2024-01-01T00:00:00.0000000Z")
      (ascii "2024-01-01T00:00:00.0000001Z") (some 0),
    .flush (some 0),
    .write ⟨.info, 7, some (ascii "Start"), -1, ascii "started"⟩ (ascii "2024-01-01T00:00:01.0000000Z")
      (ascii "2024-01-01T00:00:01.0000001Z") (some 0)]

theorem lines_kept_twoWrites : ∃ l, (newLogger .info 42 0).run twoWrites = some l ∧ LinesKept .info 42 twoWrites l := by
  exact lines_kept 0 (by decide) (by decide)

/-- A message with neither function nor result. -/
def bareWrite : LogEvent :=
  .write ⟨.error, 7, none, -1, ascii "stopped"⟩ (ascii "2024-01-01T00:00:00.0000000Z")
    (ascii "2024-01-01T00:00:00.0000001Z") (some 0)

/-- Its line is torn. -/
theorem not_lines_kept_bareWrite : InScope 42 bareWrite ∧
    ∃ l, (newLogger .info 42 0).run [bareWrite] = some l ∧ ¬ LinesKept .info 42 [bareWrite] l := by
  let w : LogWrite := ⟨.error, 7, none, -1, ascii "stopped"⟩
  let time := ascii "2024-01-01T00:00:00.0000000Z"
  have hhead : (w.head 42 time).length = 50 := by decide
  have hmessage : w.message.length = 7 := by decide
  have hsize : (LogBuffer.ofSize logBufferSizeBytes).buffer.length = logBufferSizeBytes := size_ofSize _
  have hempty : (LogBuffer.ofSize logBufferSizeBytes).cursor = 0 := rfl
  have hfree : (LogBuffer.ofSize logBufferSizeBytes).bytesFree = logBufferSizeBytes := by
    rw [LogBuffer.bytesFree, hsize, hempty, Nat.sub_zero]
  obtain ⟨b', hwrite, hsize', hcursor⟩ := (LogBuffer.ofSize logBufferSizeBytes).write_without_extra 42
    (show w.extra = none by decide) (by rw [hsize]; decide)
    (show 2 * (w.head 42 time).length + _ + 1 < _ by rw [hfree, hhead, hmessage]; decide)
  refine ⟨by decide, { newLogger .info 42 0 with writeBuffer := b' }, ?_, fun h => ?_⟩
  · have hstep : (newLogger .info 42 0).step bareWrite = some { newLogger .info 42 0 with writeBuffer := b' } := by
      rw [bareWrite, LoggerImpl.step]
      exact writeV_of_ok (by decide) hwrite
    rw [LoggerImpl.run, List.foldlM_cons, hstep]
    rfl
  · obtain ⟨lines, hlines, hbytes⟩ := h.bytes
    obtain ⟨line, hline, rfl⟩ : ∃ line, LineOf .info 42 bareWrite line ∧ lines = [line] := by
      cases hlines with
      | cons hline hnil =>
        cases hnil
        exact ⟨_, hline, rfl⟩
    have hlength := congrArg List.length hbytes
    have hbuffered : b'.buffered.length = 108 := by
      rw [LogBuffer.length_buffered, hcursor, hempty, hhead, hmessage]
      rw [hcursor, hsize', hsize, hempty, hhead, hmessage]
      decide
    have hline' : line.length = 58 := by
      rcases hline with rfl | rfl <;> decide
    change (List.length ([] ++ b'.buffered)) = _ at hlength
    simp only [List.nil_append, hbuffered, List.flatten_cons, List.flatten_nil, List.append_nil, hline'] at hlength
    omega

end Runs

end DOLog

end DoClient
