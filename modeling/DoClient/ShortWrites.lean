/-
The destination file over the calls of `OnData`. The books of one request: what
was in the file at its start, the chunks `OnData` took, and the updates that
count them.
-/
import DoClient.Callbacks
import DoClient.Steps
import DoClient.Ledger

namespace DoClient

open HResult

/-- A call of `OnData`: the chunk, and how the `write` of it ends. -/
structure DataCall where
  chunk : List UInt8
  out : WriteOutcome
  deriving DecidableEq, Repr

namespace World

/-- The content of the destination file. -/
def content (w : World) : List UInt8 := (w.fs w.dl.destFilePath).getD []

/-- The sizes of the chunks for which `OnData` returned success. -/
def taken (w : World) : List DataCall → Nat
  | [] => 0
  | c :: calls =>
    (if succeeded (onData c.chunk c.out w).1 then c.chunk.length else 0) +
      taken (onData c.chunk c.out w).2 calls

end World

variable {uri : UriLib} {w : World} {c : DataCall} {calls : List DataCall}

/-! ## One call -/

end DoClient
