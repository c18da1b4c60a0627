/-
The total that comes with a response. `OnHeadersAvailable` reads it for two of
the status codes `_ResultFromStatusCode` accepts, and schedules its update for
them all.
-/
import DoClient.ResponseHeaders

namespace DoClient

/-- The agent has noted these headers of a response, and not yet called `OnHeadersAvailable`. -/
def World.Noted (w : World) (headers : List (String × String)) : Prop :=
  ∃ a, w.dl.httpAgent = some a ∧ a.responseOnHeadersAvailableInvoked = false ∧ a.responseHeaders = headers

/-- A response with this status comes to store a total: the update scheduled for it does, whenever it is run. -/
def Stores (uri : UriLib) (code indeterminate : Nat) (w : World) (total : Nat) : Prop :=
  ∃ op, (trySetStatusCodeAndInvokeOnHeadersAvailable code indeterminate w).taskQ =
      w.taskQ.add w.now op 0 (some .download) ∧
    ∀ o v, (runOp uri o op v).2.dl.status.bytesTotal = total

/-- The total stored is a matter of the response alone: whatever else two runs on it differ in, they
store one total, the length that a 200 or a 206 tells. -/
structure TotalOfResponse (uri : UriLib) (code : Nat) (headers : List (String × String)) : Prop where
  same :
    ∀ (w w' : World) (indeterminate indeterminate' total total' : Nat), w.Noted headers → w'.Noted headers →
    Stores uri code indeterminate w total → Stores uri code indeterminate' w' total' → total = total'
  whole : code = 200 → ∀ (w : World) (indeterminate total : Nat), w.Noted headers →
    (Stores uri code indeterminate w total ↔
      HttpAgent.readContentLength (HttpAgent.kept headers "Content-Length") = .ok total)
  partialContent : code = 206 → ∀ (w : World) (indeterminate total : Nat), w.Noted headers →
    (Stores uri code indeterminate w total ↔
      HttpAgent.readContentRange (HttpAgent.kept headers "Content-Range") = .ok total)

namespace HttpAgent

/-- What `OnHeadersAvailable` makes of a response. -/
def bytesTotalOf (code : Nat) (headers : List (String × String)) (indeterminate : Nat) : Except HResult Nat :=
  if code = 200 then readContentLength (kept headers "Content-Length")
  else if code = 206 then readContentRange (kept headers "Content-Range")
  else .ok (wrap64 indeterminate)

theorem bytesTotal_eq (a : HttpAgent) (indeterminate : Nat) :
    a.bytesTotal indeterminate = bytesTotalOf a.responseStatusCode a.responseHeaders indeterminate := by
  unfold bytesTotal bytesTotalOf
  rw [queryContentLength_kept, queryContentLengthFromRange_kept]

end HttpAgent

variable {uri : UriLib} {code indeterminate total : Nat} {headers : List (String × String)} {w : World}

/-- What is stored is what was made of the response; nothing is when that failed. -/
theorem stores_iff (hw : w.Noted headers) (hacc : succeeded (HttpAgent.resultFromStatusCode code) = true) :
    Stores uri code indeterminate w total ↔
    HttpAgent.bytesTotalOf code headers indeterminate = .ok total := by
  obtain ⟨a, ha, hinv, rfl⟩ := hw
  unfold Stores trySetStatusCodeAndInvokeOnHeadersAvailable
  simp only [ha, hinv, Bool.false_eq_true, if_false, hacc, if_true, onHeadersAvailable, World.updateAgent,
    World.updateDl, Option.map_some, HttpAgent.bytesTotal_eq]
  cases htotal : HttpAgent.bytesTotalOf code a.responseHeaders indeterminate with
  | error hr =>
    constructor
    · rintro ⟨op, hq, -⟩
      exact absurd hq.symm TaskQueue.add_ne
    · intro h
      cases h
  | ok n =>
    constructor
    · rintro ⟨op, hq, hrun⟩
      obtain rfl := TaskQueue.add_inj hq
      exact congrArg _ (hrun {} w)
    · intro h
      obtain rfl := Except.ok.inj h
      exact ⟨_, rfl, fun _ _ => rfl⟩

/-- A response not accepted stores nothing. -/
theorem not_stores (hw : w.Noted headers) (hacc : ¬ succeeded (HttpAgent.resultFromStatusCode code) = true) :
    ¬ Stores uri code indeterminate w total := by
  obtain ⟨a, ha, hinv, rfl⟩ := hw
  unfold Stores trySetStatusCodeAndInvokeOnHeadersAvailable
  simp only [ha, hinv, Bool.false_eq_true, if_false, if_neg hacc]
  intro ⟨op, hq, _⟩
  exact absurd hq.symm TaskQueue.add_ne

/-- Two runs that find different things on the stack store different totals. -/
theorem not_same_of_unassigned (hacc : succeeded (HttpAgent.resultFromStatusCode code) = true)
    (hwhole : code ≠ 200) (hranged : code ≠ 206) (headers : List (String × String)) :
    ¬ TotalOfResponse uri code headers := by
  intro h
  have hnoted :
    World.Noted { newDownload with dl.httpAgent := some { responseHeaders := headers } } headers :=
    ⟨_, rfl, rfl, rfl⟩
  have hstores :
    ∀ n, n < 2 ^ 64 → Stores uri code n { newDownload with
      dl.httpAgent := some { responseHeaders := headers } } n :=
    fun n hn => (stores_iff hnoted hacc).2
      (by rw [HttpAgent.bytesTotalOf, if_neg hwhole, if_neg hranged, wrap64_of_lt hn])
  have hsame := h.same _ _ 0 1 0 1 hnoted hnoted (hstores 0 (by omega)) (hstores 1 (by omega))
  omega

theorem totalOfResponse_of_assigned (h : code = 200 ∨ code = 206) (headers : List (String × String)) :
    TotalOfResponse uri code headers := by
  have hacc : succeeded (HttpAgent.resultFromStatusCode code) = true := by
    rw [HttpAgent.accepted_iff, HttpAgent.acceptedCodes]
    rcases h with rfl | rfl <;> decide
  have hsame : ∀ i j, HttpAgent.bytesTotalOf code headers i = HttpAgent.bytesTotalOf code headers j :=
    fun i j => by
    rcases h with rfl | rfl <;> rfl
  refine ⟨fun w w' i j total total' hw hw' htotal htotal' => ?_, fun hcode w i total hw => ?_,
    fun hcode w i total hw => ?_⟩
  · rw [stores_iff hw hacc] at htotal
    rw [stores_iff hw' hacc, hsame j i, htotal] at htotal'
    exact Except.ok.inj htotal'
  · rw [stores_iff hw hacc, hcode]
    rfl
  · rw [stores_iff hw hacc, hcode]
    rfl

/-- **The total is the response's own for the two statuses it is read for**, and for those that come to no update. -/
theorem total_of_response_iff (uri : UriLib) (code : Nat) (headers : List (String × String)) :
    TotalOfResponse uri code headers ↔ (code ∈ HttpAgent.acceptedCodes → code = 200 ∨ code = 206) := by
  by_cases hacc : code ∈ HttpAgent.acceptedCodes
  · refine ⟨fun h _ => ?_, fun h => totalOfResponse_of_assigned (h hacc) headers⟩
    by_contra hother
    rw [not_or] at hother
    exact not_same_of_unassigned ((HttpAgent.accepted_iff code).2 hacc) hother.1 hother.2 headers h
  · refine ⟨fun _ h => absurd h hacc, fun _ => ?_⟩
    have hnone : ∀ (w : World) (i total : Nat), w.Noted headers → ¬ Stores uri code i w total :=
      fun w i total hw => not_stores hw fun h => hacc ((HttpAgent.accepted_iff code).1 h)
    refine ⟨fun w w' i j total total' hw _ h _ => absurd h (hnone w i total hw), fun hcode => ?_,
      fun hcode => ?_⟩
    · exact absurd (hcode ▸ by decide) hacc
    · exact absurd (hcode ▸ by decide) hacc

/-- A 204 has no length: what is stored for it is whatever the stack held. -/
theorem total_of_noContent :
    ¬ TotalOfResponse plainUri 204 [("Date", " Thu, 01 Jan 1970 00:00:00 GMT\r\n")] :=
  not_same_of_unassigned (by decide) (by decide) (by decide) _

end DoClient
