/-
What the books of `DoClient.Ledger` say of the agent: where its requests
start, for which runs, and how a resume that overtakes the updates of the last
transfer makes one start too early.
-/
import DoClient.Ledger
import DoClient.Steps

namespace DoClient

variable {uri : UriLib} {w : World}

/-! ## Where requests start -/

/-- All bytes written or none. -/
def WriteOutcome.allOrNone (chunk : List UInt8) : WriteOutcome → Bool
  | .wrote n => n == 0 || chunk.length ≤ n
  | .error _ => true

/-- The assumption that each `write` writes all of its bytes or none. -/
def WritesAllOrNone (_ : World) : Event → Prop
  | .curl (.write chunk out _) => out.allOrNone chunk = true
  | _ => True

/-- No update of data, and no failure of a request, is still queued. -/
def World.updatesSettled (w : World) : Prop := ∀ u ∈ w.taskQ.updates, u.unsettled = false

/-- No update is overtaken: a client's Start of a paused download finds the
updates of the last transfer applied, a timer that finds no network finds no
transfer and no such update either, and a Pause closes the file. -/
def OvertakesNothing (w : World) : Event → Prop
  | .run o =>
    (w.nextOp = some (.client .start) → w.dl.status.state = .paused → w.updatesSettled) ∧
    (w.nextOp = some .transientTimer → o.hasViableInterface = false → w.curl.outstanding = false ∧
      w.updatesSettled) ∧
    (w.nextOp = some (.client .pause) → o.closeErr = none)
  | _ => True

instance (w : World) : Decidable w.updatesSettled := inferInstanceAs (Decidable (∀ u ∈ w.taskQ.updates, _))

instance : ∀ w e, Decidable (WritesAllOrNone w e)
  | _, .curl (.write ..) => inferInstanceAs (Decidable (_ = true))
  | _, .curl (.status _) | _, .curl (.header _) | _, .curl (.complete ..) => .isTrue trivial
  | _, .tick _ | _, .request _ | _, .foreign .. | _, .run _ | _, .drain => .isTrue trivial

instance : ∀ w e, Decidable (OvertakesNothing w e)
  | _, .run _ => inferInstanceAs (Decidable (_ ∧ _ ∧ _))
  | _, .tick _ | _, .request _ | _, .foreign .. | _, .drain | _, .curl _ => .isTrue trivial

theorem inOrder_of_overtakesNothing {e : Event} {a : Act} (hfrom : a.From w e) (he : w.life.Enabled a)
    (ho : OvertakesNothing w e) : w.life.InOrder a := by
  cases a with
  | send t r =>
    cases t with
    | resume =>
      obtain ⟨o, rfl, hop⟩ := hfrom
      exact ho.1 hop he.1.1
    | start | timer | retry => trivial
  | skipRequest =>
    obtain ⟨o, rfl, hop⟩ := hfrom
    exact ho.1 hop he.1
  | timerOffline =>
    obtain ⟨o, ⟨rfl, hop⟩, hv⟩ := hfrom
    exact ho.2.1 hop hv
  | closeFailed terminates =>
    obtain ⟨o, herr, ⟨⟨rfl, hop⟩, -⟩ | ⟨-, hterm⟩⟩ := hfrom
    · exact absurd (ho.2.2 hop) herr
    · exact hterm
  | _ => trivial

theorem writesWhole_of_allOrNone {e : Event} {a : Act} (hfrom : a.From w e) (hw : WritesAllOrNone w e) :
    Life.WritesWhole a := by
  cases a with
  | write bytesTotal chunk n ok =>
    obtain ⟨out, indeterminate, rfl, hn⟩ := hfrom
    intro hok
    rcases hn hok with h0 | ⟨rfl, hlt⟩
    · exact h0
    · simp only [WritesAllOrNone, WriteOutcome.allOrNone, Bool.or_eq_true, beq_iff_eq,
        decide_eq_true_eq] at hw
      exact hw.resolve_right (Nat.not_le_of_lt hlt)
  | _ => trivial

/-- The runs that overtake no update keep the books. -/
theorem kept_of_overtakesNothing
    (h : Trans.ReachableBy (agent uri) (fun w e => WritesAllOrNone w e ∧ OvertakesNothing w e) w) :
    w.life.Kept :=
  kept_of_inOrder <| life_reachableBy (fun _ _ _ hfrom hen hc =>
    ⟨inOrder_of_overtakesNothing hfrom hen hc.2, writesWhole_of_allOrNone hfrom hc.1⟩) h

/-- **Where requests start.** In a run that overtakes no update every request asks
for the bytes from the end of the file on. -/
theorem request_starts_at_file_end
    (h : Trans.ReachableBy (agent uri) (fun w e => WritesAllOrNone w e ∧ OvertakesNothing w e) w) :
    ∀ r ∈ w.requests, r.startOffset = r.fileLength :=
  (kept_of_overtakesNothing h).requests

/-- Three bytes of five, a pause, and the rest after a resume. -/
def resumedRun : List Event :=
  [.request .start, .run {}, .drain, .curl (.status 200), .curl (.header "Content-Length: 5"),
    .curl (.write [1, 2, 3] (.wrote 3) 0), .run {}, .run {}, .request .pause, .run {},
      .request .start, .run {}]

theorem request_starts_at_file_end_resumed : ∃ w,
    ((agent plainUri).restrict fun w e => WritesAllOrNone w e ∧ OvertakesNothing w e).runFrom newDownload
    resumedRun =
      some w ∧ w.requests.map (·.startOffset) = [3, 0] ∧ ∀ r ∈ w.requests, r.startOffset = r.fileLength := by
  have hrun :
    (((agent plainUri).restrict fun w e => WritesAllOrNone w e ∧ OvertakesNothing w e).runFrom newDownload
      resumedRun).map (fun w => w.requests.map (·.startOffset)) = some [3, 0] := by decide +kernel
  obtain ⟨w, hw, hstarts⟩ := Option.map_eq_some_iff.1 hrun
  exact ⟨w, hw, hstarts, request_starts_at_file_end (Trans.reachableBy_of_runFrom reachable_newDownload hw)⟩

/-- A pause and a resume right after the first bytes, their update still queued. -/
def overtakingRun : List Event :=
  [.request .start, .run {}, .drain, .curl (.status 200), .curl (.write [1, 2, 3, 4, 5] (.wrote 5) 0),
    .request .pause, .run {}, .request .start, .run {}]

/-- The resume asks for the whole file again, behind the five bytes there. -/
theorem request_starts_early : ¬ ∀ uri w, Trans.ReachableBy (agent uri) WritesAllOrNone w →
    ∀ r ∈ w.requests, r.startOffset = r.fileLength := by
  intro hall
  have hrun : (((agent plainUri).restrict WritesAllOrNone).runFrom newDownload overtakingRun).map
      (fun w => w.requests.map fun r => (r.startOffset, r.fileLength)) = some [(0, 5), (0, 0)] := by
        decide +kernel
  obtain ⟨w, hreached, hstarts⟩ := Trans.reachableBy_of_replay reachable_newDownload hrun
  have hkept := hall _ w hreached
  have hmem : (0, 5) ∈ w.requests.map fun r => (r.startOffset, r.fileLength) := by rw [hstarts]; simp
  obtain ⟨r, hr, hpair⟩ := List.mem_map.1 hmem
  obtain ⟨h0, h5⟩ := Prod.mk.inj hpair
  have := hkept r hr
  omega

end DoClient
