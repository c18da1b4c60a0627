/-
The books of a download: what the file holds against what the status counts.
The bytes counted, now or by a data update still to be applied, are in the
file, and are all of it when every write is whole; a request that is issued
with no data update left over then starts where the file ends.
-/
import DoClient.Life

namespace DoClient

/-- The bytes of the data updates. -/
def pendingBytes : List Update → Nat
  | [] => 0
  | .data cbData :: us => cbData + pendingBytes us
  | _ :: us => pendingBytes us

/-- An update a new request must not overtake: of data, or the failure of a request. -/
def Update.unsettled : Update → Bool
  | .data _ | .failed => true
  | _ => false

@[simp] theorem pendingBytes_append (us vs : List Update) :
    pendingBytes (us ++ vs) = pendingBytes us + pendingBytes vs := by
  induction us with
  | nil => simp [pendingBytes]
  | cons u us ih => cases u <;> simp [pendingBytes, ih, Nat.add_assoc]

theorem pendingBytes_settled {us : List Update} (h : ∀ u ∈ us, u.unsettled = false) :
    pendingBytes us = 0 := by
  induction us with
  | nil => rfl
  | cons u us ih =>
    have hu := h u (by simp)
    have ih := ih fun v hv => h v (List.mem_cons_of_mem _ hv)
    cases u <;> simp_all [pendingBytes, Update.unsettled]

namespace Life

variable {l : Life} {a : Act}

/-- The bytes counted, now or by an update to come. -/
def accounted (l : Life) : Nat := l.bytesTransferred + pendingBytes l.updates

/-- No transfer, and no update a new request must not overtake. -/
def Settled (l : Life) : Prop := l.outstanding = false ∧ ∀ u ∈ l.updates, u.unsettled = false

/-- A download that is over: nothing is left that could change its state. -/
structure Over (l : Life) : Prop where
  state : l.state = .finalized ∨ l.state = .aborted
  waiting : l.waiting = false
  outstanding : l.outstanding = false
  updates : l.updates = []
  timers : l.timers = 0
  shortcuts : l.shortcuts = 0

/-- The books are in order. -/
structure Accounts (l : Life) : Prop where
  ledger : l.accounted ≤ l.file.length
  size : l.file.length < 2 ^ 63
  overlaps : l.overlaps = 0
  waiting : l.waiting = true → l.state = .paused
  /-- Where a retry or a timer would send a request. -/
  still : (l.state = .transferring ∧ l.active = false) ∨ l.waiting = true → l.Settled
  paused : l.state = .paused → l.outstanding = false
  failure : .failed ∈ l.updates → l.outstanding = false ∧ ∃ us, l.updates = us ++ [.failed] ∧ .failed ∉ us
  single : l.queued = none ∨ l.running = none

/-- The acts that keep the books: no resume overtakes an update, no timer pauses a
download that is at work, and no close fails and leaves the download at work. -/
def InOrder (l : Life) : Act → Prop
  | .send .resume _ | .skipRequest => ∀ u ∈ l.updates, u.unsettled = false
  | .timerOffline => l.Settled
  | .closeFailed terminates => terminates = true
  | _ => True

/-- A write that fails has written nothing. -/
def WritesWhole : Act → Prop
  | .write _ _ n ok => ok = false → n = 0
  | _ => True

@[simp] theorem pendingBytes_headers (bytesTotal : Option Nat) :
    pendingBytes (bytesTotal.map Update.headers).toList = 0 := by
  cases bytesTotal <;> rfl

theorem not_outstanding (h : l.outstanding = false) : l.queued = none ∧ l.running = none := by
  simpa [outstanding] using h

theorem Over.apply (ho : l.Over) (he : l.Enabled a) : (l.apply a).Over := by
  obtain ⟨hs, hw, hout, hu, ht, hsc⟩ := ho
  obtain ⟨hq, hr⟩ := not_outstanding hout
  cases a with
  | send t r => cases t <;> rcases hs with hs | hs <;> simp [Enabled, Ready, hs, hw] at he
  | sendFailed t called terminates =>
    cases t <;> rcases hs with hs | hs <;> simp [Enabled, Ready, hs, hw] at he
  | skipRequest | closed | closeFailed | finalized | finalizeFailed =>
    rcases hs with hs | hs <;> simp [Enabled, hs] at he
  | aborted cancelled file => rcases hs with hs | hs <;> simp [Enabled, hs] at he
  | status | header | write | complete | completeIgnored => simp [Enabled, hr] at he
  | headers | data | completed | failedOffline | failedFatal | failedRetry => simp [Enabled, hu] at he
  | timerOffline | timerIdle => simp [Enabled, ht] at he
  | alreadyTransferred => simp [Enabled, hsc] at he
  | idle => exact ⟨hs, hw, hout, hu, ht, hsc⟩
  | drain lost => exact ⟨hs, hw, by simp [Life.apply, Life.outstanding, hq, hr], hu, ht, hsc⟩

/-! ## What acts count and what they append -/

/-- The bytes an act counts, by the update it queues. -/
def counted : Act → Nat
  | .write _ chunk _ true => chunk.length
  | _ => 0

/-- The bytes an act appends to the file. -/
def appended : Act → Nat
  | .write _ chunk n _ => min n chunk.length
  | _ => 0

/-- An act that takes the download's operations out of the queue. -/
def cancels : Act → Bool
  | .finalized | .aborted true _ => true
  | _ => false

theorem pendingBytes_head {u : Update} (h : l.updates.head? = some u) :
    pendingBytes l.updates = pendingBytes [u] + pendingBytes l.updates.tail := by
  obtain ⟨us, hus⟩ := List.head?_eq_some_iff.1 h
  rw [hus, ← pendingBytes_append]
  rfl

theorem accounted_apply (hl : l.accounted < 2 ^ 64) (he : l.Enabled a) (hc : cancels a = false) :
    (l.apply a).accounted = l.accounted + counted a := by
  cases a with
  | send t | sendFailed t => cases t <;> rfl
  | finalized => cases hc
  | aborted cancelled file =>
    cases cancelled with
    | true => cases hc
    | false => rfl
  | write bytesTotal chunk n ok =>
    cases ok <;> simp only [accounted, Life.apply, pendingBytes_append, pendingBytes_headers,
      pendingBytes, counted, if_true, if_false, Bool.false_eq_true] <;> omega
  | complete bytesTotal ok => cases ok <;> simp [accounted, Life.apply, pendingBytes, counted]
  | headers | completed | failedOffline | failedRetry =>
    have hp := pendingBytes_head he.1
    simp only [pendingBytes] at hp
    show l.bytesTransferred + pendingBytes l.updates.tail = l.bytesTransferred + pendingBytes l.updates
    omega
  | failedFatal closed =>
    have hp := pendingBytes_head he.1
    simp only [pendingBytes] at hp
    cases closed <;>
    · show l.bytesTransferred + pendingBytes l.updates.tail = l.bytesTransferred + pendingBytes l.updates
      omega
  | data cbData =>
    have hp := pendingBytes_head he.1
    simp only [pendingBytes] at hp
    simp only [accounted] at hl
    show wrap64 (l.bytesTransferred + cbData) + pendingBytes l.updates.tail =
      l.bytesTransferred + pendingBytes l.updates
    rw [wrap64_of_lt (by omega)]
    omega
  | _ => rfl

theorem file_apply (he : l.Enabled a) (hc : cancels a = false) :
    (l.apply a).file.length = l.file.length + appended a := by
  cases a with
  | send t | sendFailed t => cases t <;> rfl
  | aborted cancelled file =>
    cases cancelled with
    | true => cases hc
    | false =>
      have hfile : file = l.file := by simpa using he.2.2
      rw [hfile]
      rfl
  | write => simp [Life.apply, appended]
  | failedFatal closed => cases closed <;> rfl
  | _ => rfl

theorem counted_le (he : l.Enabled a) : counted a ≤ appended a := by
  cases a with
  | write bytesTotal chunk n ok =>
    cases ok with
    | true =>
      have hn := he.2.1 rfl
      simp [counted, appended, hn]
    | false => exact Nat.zero_le _
  | _ => exact Nat.zero_le _

theorem counted_eq (he : l.Enabled a) (hw : WritesWhole a) : counted a = appended a := by
  cases a with
  | write bytesTotal chunk n ok =>
    cases ok with
    | true =>
      have hn := he.2.1 rfl
      simp [counted, appended, hn]
    | false => simp [counted, appended, hw rfl]
  | _ => rfl

/-- What is counted is in the file. -/
structure Booked (l : Life) : Prop where
  ledger : l.accounted ≤ l.file.length
  size : l.file.length < 2 ^ 63

theorem Booked.bounded (h : l.Booked) : l.accounted < 2 ^ 64 := by
  have := h.ledger
  have := h.size
  omega

/-- No act loses bytes of the file and none counts bytes that are not in it. -/
theorem Booked.apply (h : l.Booked) (he : l.Enabled a) (hc : cancels a = false) : (l.apply a).Booked := by
  refine ⟨?_, ?_⟩
  · rw [accounted_apply h.bounded he hc, file_apply he hc]
    exact Nat.add_le_add h.ledger (counted_le he)
  · rw [file_apply he hc]
    cases a with
    | write bytesTotal chunk n ok =>
      have hs := h.size
      simp only [appended]
      rcases he.2.2.2 with rfl | hsize <;> omega
    | _ => exact h.size

theorem Accounts.booked (h : l.Accounts) : l.Booked := ⟨h.ledger, h.size⟩

/-- The whole file is counted. -/
def Exact (l : Life) : Prop := l.accounted = l.file.length

theorem Exact.apply (hx : l.Exact) (h : l.Accounts) (he : l.Enabled a) (hc : cancels a = false)
    (hw : WritesWhole a) :
    (l.apply a).Exact := by
  rw [Exact, accounted_apply h.booked.bounded he hc, file_apply he hc, hx, counted_eq he hw]

theorem settled_eq (hs : ∀ u ∈ l.updates, u.unsettled = false) : l.accounted = l.bytesTransferred := by
  rw [accounted, pendingBytes_settled hs, Nat.add_zero]

/-! ## The books kept -/

theorem not_failed (hs : ∀ u ∈ l.updates, u.unsettled = false) : .failed ∉ l.updates := fun h => by
  cases hs _ h

/-- A failure that is the first update is the only one. -/
theorem Accounts.tail_nil (h : l.Accounts) (hhead : l.updates.head? = some .failed) :
    l.updates.tail = [] := by
  obtain ⟨-, us, hus, hnot⟩ := h.failure (List.mem_of_mem_head? hhead)
  cases us with
  | nil => rw [hus]; rfl
  | cons u us =>
    rw [hus, List.cons_append, List.head?_cons, Option.some.injEq] at hhead
    exact absurd (hhead ▸ List.mem_cons_self) hnot

/-- With nothing under way and nothing left to apply there is little to keep. -/
theorem accounts_of_idle (hl : l.accounted ≤ l.file.length) (hs : l.file.length < 2 ^ 63)
    (ho : l.overlaps = 0) (hu : l.updates = []) (hout : l.outstanding = false)
    (hw : l.waiting = true → l.state = .paused) : l.Accounts :=
  ⟨hl, hs, ho, hw, fun _ => ⟨hout, by simp [hu]⟩, fun _ => hout, fun hf => by simp [hu] at hf,
    .inl (not_outstanding hout).1⟩

/-- A failure that is applied leaves nothing under way. -/
theorem Accounts.failed (h : l.Accounts) (hhead : l.updates.head? = some .failed) :
    l.outstanding = false ∧ l.updates.tail = [] :=
  ⟨(h.failure (List.mem_of_mem_head? hhead)).1, h.tail_nil hhead⟩

/-- A download whose operations are all taken out is over. -/
theorem over_of_cancels (hc : cancels a = true) : (l.apply a).Over := by
  cases a with
  | finalized => exact ⟨.inl rfl, rfl, rfl, rfl, rfl, rfl⟩
  | aborted cancelled file =>
    cases cancelled with
    | true => exact ⟨.inr rfl, rfl, rfl, rfl, rfl, rfl⟩
    | false => cases hc
  | _ => cases hc

theorem Accounts.settled_of_send (h : l.Accounts) {t : Trigger} {r : IssuedRequest}
    (he : l.Enabled (.send t r)) (hin : l.InOrder (.send t r)) : l.Settled := by
  cases t with
  | start =>
    obtain ⟨⟨-, -, hout, hu, -⟩, -⟩ := he
    exact ⟨hout, by simp [hu]⟩
  | resume => exact ⟨h.paused he.1.1, hin⟩
  | timer => exact h.still (.inr he.1.1)
  | retry => exact h.still (.inl ⟨he.1.1, he.1.2.1⟩)

/-- Handing over a request: nothing was outstanding, nothing is left to be applied before it. -/
theorem Accounts.send (h : l.Accounts) (hs : l.Settled) (t : Trigger) (r : IssuedRequest) :
    (l.apply (.send t r)).Accounts := by
  obtain ⟨hq, hr⟩ := not_outstanding hs.1
  have hnot := not_failed hs.2
  have ho : l.overlaps + l.outstanding.toNat = 0 := by rw [h.overlaps, hs.1]; rfl
  cases t <;>
  exact ⟨h.ledger, h.size, ho, nofun, fun hst => by simp [Life.apply] at hst, nofun,
    fun hf => absurd hf hnot, .inr hr⟩

theorem Accounts.close (h : l.Accounts) (active : Bool) (s : DownloadState) (hs : s ≠ .transferring) :
    Accounts { l with queued := none, running := none, active := active, state := s, waiting := false } := by
  refine ⟨h.ledger, h.size, h.overlaps, nofun, fun hst => ?_, fun _ => rfl,
    fun hf => ⟨rfl, (h.failure hf).2⟩, .inl rfl⟩
  simp only [Bool.false_eq_true, or_false] at hst
  exact absurd hst.1 hs

/-- While a request is outstanding nothing else could send one. -/
theorem Accounts.working (h : l.Accounts) (hout : l.outstanding = true) :
    ¬ ((l.state = .transferring ∧ l.active = false) ∨ l.waiting = true) ∧ l.state ≠ .paused ∧
    .failed ∉ l.updates := by
  refine ⟨fun hst => ?_, fun hp => ?_, fun hf => ?_⟩
  · exact absurd (hout.symm.trans (h.still hst).1) Bool.noConfusion
  · exact absurd (hout.symm.trans (h.paused hp)) Bool.noConfusion
  · exact absurd (hout.symm.trans (h.failure hf).1) Bool.noConfusion

theorem outstanding_drain (lost : Bool) (h : l.outstanding = false) :
    (l.apply (.drain lost)).outstanding = false := by
  obtain ⟨hq, hr⟩ := not_outstanding h
  simp [Life.apply, outstanding, hq, hr]

theorem running_outstanding {t : Transfer} (h : l.running = some t) : l.outstanding = true := by
  simp [outstanding, h]

theorem mem_updates_tail {u : Update} (h : u ∈ l.updates.tail) : u ∈ l.updates := List.mem_of_mem_tail h

/-- While libcurl works on a transfer none is queued. -/
theorem Accounts.queued_none (h : l.Accounts) {t : Transfer} (ht : l.running = some t) : l.queued = none :=
  h.single.resolve_right fun hr => nomatch hr.symm.trans ht

/-- An update that is neither the failure nor of data is applied. -/
theorem Accounts.failure_tail (h : l.Accounts) {u : Update} (hu : l.updates.head? = some u)
    (hne : u ≠ .failed) (hf : .failed ∈ l.updates.tail) :
    l.outstanding = false ∧ ∃ us, l.updates.tail = us ++ [.failed] ∧ .failed ∉ us := by
  obtain ⟨hout, us, hus, hnot⟩ := h.failure (mem_updates_tail hf)
  cases us with
  | nil =>
    rw [hus, List.nil_append, List.head?_cons, Option.some.injEq] at hu
    exact absurd hu.symm hne
  | cons v us =>
    rw [hus]
    exact ⟨hout, us, rfl, fun h => hnot (List.mem_cons_of_mem _ h)⟩

/-- **Acts in order keep the books**, until the agent ends. -/
theorem Accounts.apply (h : l.Accounts) (he : l.Enabled a) (hin : l.InOrder a) :
    (l.apply a).terminated = true ∨ (l.apply a).Over ∨ (l.apply a).Accounts := by
  by_cases hcancel : cancels a = true
  · exact .inr (.inl (over_of_cancels hcancel))
  rw [Bool.not_eq_true] at hcancel
  obtain ⟨hledger, hsize⟩ := h.booked.apply he hcancel
  have ho := h.overlaps
  cases a with
  | idle => exact .inr (.inr h)
  | send t r =>
    exact .inr (.inr (h.send (h.settled_of_send he hin) t r))
  | sendFailed t called terminates =>
    cases t with
    | start =>
      have hout : l.outstanding = false := he.2.2.1
      right; right
      exact ⟨hledger, hsize, by simp [Life.apply, useTimer, ho, hout], h.waiting, h.still, h.paused,
        h.failure, h.single⟩
    | resume =>
      have hout := h.paused he
      right; right
      exact ⟨hledger, hsize, by simp [Life.apply, useTimer, ho, hout], h.waiting, h.still, h.paused,
        h.failure, h.single⟩
    | timer | retry => exact .inl he.2
  | skipRequest =>
    have hout := h.paused he.1
    exact .inr (.inr ⟨hledger, hsize, ho, nofun, fun _ => ⟨hout, hin⟩, nofun, h.failure, h.single⟩)
  | closed => exact .inr (.inr (h.close false .paused nofun))
  | closeFailed terminates => exact .inl hin
  | finalizeFailed =>
    have hs : l.state = .transferred := he
    have hw : l.waiting = false := by
      by_contra hne
      have hp := h.waiting (by simpa using hne)
      rw [hs] at hp
      cases hp
    right; right
    exact ⟨hledger, hsize, ho, fun hw' => absurd (hw.symm.trans hw') Bool.false_ne_true,
      fun hst => by simp [Life.apply, Life.close, hs, hw] at hst, fun _ => rfl, fun hf => ⟨rfl, (h.failure hf).2⟩,
      .inl rfl⟩
  | finalized => cases hcancel
  | aborted cancelled file =>
    cases cancelled with
    | true => cases hcancel
    | false =>
      have hfile : file = l.file := by simpa using he.2.2
      subst hfile
      exact .inr (.inr (h.close l.active .aborted nofun))
  | drain lost =>
    right; right
    exact ⟨hledger, hsize, ho, h.waiting,
      fun hst => ⟨outstanding_drain lost (h.still hst).1, (h.still hst).2⟩,
      fun hp => outstanding_drain lost (h.paused hp),
      fun hf => ⟨outstanding_drain lost (h.failure hf).1, (h.failure hf).2⟩, .inl rfl⟩
  | status code =>
    have hout : (l.apply (.status code)).outstanding = l.outstanding := by simp [Life.apply, outstanding]
    right; right
    exact ⟨hledger, hsize, ho, h.waiting, fun hst => ⟨hout.trans (h.still hst).1, (h.still hst).2⟩,
      fun hp => hout.trans (h.paused hp), fun hf => ⟨hout.trans (h.failure hf).1, (h.failure hf).2⟩,
      h.single.imp_right fun hr => by simp [Life.apply, hr]⟩
  | header line =>
    have hout : (l.apply (.header line)).outstanding = l.outstanding := by simp [Life.apply, outstanding]
    right; right
    exact ⟨hledger, hsize, ho, h.waiting, fun hst => ⟨hout.trans (h.still hst).1, (h.still hst).2⟩,
      fun hp => hout.trans (h.paused hp), fun hf => ⟨hout.trans (h.failure hf).1, (h.failure hf).2⟩,
      h.single.imp_right fun hr => by simp [Life.apply, hr]⟩
  | write bytesTotal chunk n ok =>
    obtain ⟨⟨t, ht, -⟩, -⟩ := he
    obtain ⟨hstill, hpaused, hfailed⟩ := h.working (running_outstanding ht)
    right; right
    refine ⟨hledger, hsize, ho, h.waiting, fun hst => absurd hst hstill, fun hp => absurd hp hpaused,
      fun hf => ?_, h.single.imp_right fun hr => nomatch hr.symm.trans ht⟩
    simp only [Life.apply, List.mem_append] at hf
    rcases hf with (hf | hf) | hf
    · exact absurd hf hfailed
    · cases bytesTotal <;> simp at hf
    · cases ok <;> simp at hf
  | complete bytesTotal ok =>
    obtain ⟨⟨t, ht, -⟩, -⟩ := he
    obtain ⟨hstill, hpaused, hfailed⟩ := h.working (running_outstanding ht)
    have hq := h.queued_none ht
    have hout : (l.apply (.complete bytesTotal ok)).outstanding = false := by
      simp [Life.apply, outstanding, hq]
    right; right
    refine ⟨hledger, hsize, ho, h.waiting, fun hst => absurd hst hstill, fun hp => absurd hp hpaused,
      fun hf => ⟨hout, ?_⟩, .inr rfl⟩
    have hheaders : .failed ∉ (bytesTotal.map Update.headers).toList := by cases bytesTotal <;> simp
    cases ok with
    | true => simp [Life.apply, hfailed, hheaders] at hf
    | false =>
      exact ⟨l.updates ++ (bytesTotal.map Update.headers).toList, rfl, by simp [hfailed, hheaders]⟩
  | completeIgnored =>
    obtain ⟨t, ht⟩ := Option.isSome_iff_exists.1 he
    obtain ⟨hstill, hpaused, hfailed⟩ := h.working (running_outstanding ht)
    right; right
    exact ⟨hledger, hsize, ho, h.waiting, fun hst => absurd hst hstill, fun hp => absurd hp hpaused,
      fun hf => absurd hf hfailed, .inr rfl⟩
  | headers bytesTotal =>
    right; right
    exact ⟨hledger, hsize, ho, h.waiting,
      fun hst => ⟨(h.still hst).1, fun u hu => (h.still hst).2 u (mem_updates_tail hu)⟩, h.paused,
      fun hf => h.failure_tail he.1 nofun hf, h.single⟩
  | data cbData =>
    right; right
    exact ⟨hledger, hsize, ho, h.waiting,
      fun hst => ⟨(h.still hst).1, fun u hu => (h.still hst).2 u (mem_updates_tail hu)⟩, h.paused,
      fun hf => h.failure_tail he.1 nofun hf, h.single⟩
  | completed =>
    right; right
    exact ⟨hledger, hsize, ho, nofun, fun hst => by simp [Life.apply] at hst, nofun,
      fun hf => h.failure_tail he.1 nofun hf, h.single⟩
  | failedOffline =>
    obtain ⟨hout, htail⟩ := h.failed he.1
    exact .inr (.inr (accounts_of_idle hledger hsize ho htail hout fun _ => rfl))
  | failedFatal closed =>
    obtain ⟨-, htail⟩ := h.failed he.1
    cases closed with
    | true => exact .inr (.inr (accounts_of_idle hledger hsize ho htail rfl nofun))
    | false => exact .inl rfl
  | failedRetry =>
    obtain ⟨hout, htail⟩ := h.failed he.1
    exact .inr (.inr (accounts_of_idle hledger hsize ho htail hout nofun))
  | timerOffline =>
    right; right
    exact ⟨hledger, hsize, ho, fun _ => rfl, fun _ => hin, fun _ => hin.1, h.failure, h.single⟩
  | timerIdle => exact .inr (.inr ⟨hledger, hsize, ho, h.waiting, h.still, h.paused, h.failure, h.single⟩)
  | alreadyTransferred =>
    right; right
    exact ⟨hledger, hsize, ho, nofun, fun hst => by simp [Life.apply] at hst, nofun, h.failure, h.single⟩

/-! ## Runs -/

/-- The books of a run so far. -/
structure Kept (l : Life) : Prop where
  books : l.terminated = true ∨ l.Over ∨ l.Accounts ∧ l.Exact
  /-- Every request asked for the bytes from the end of the file on. -/
  requests : ∀ r ∈ l.requests, r.startOffset = r.fileLength

theorem requests_apply (a : Act) : (l.apply a).requests = l.requests ∨
    ∃ t r, a = .send t r ∧ (l.apply a).requests = r :: l.requests := by
  cases a with
  | send t r => exact .inr ⟨t, r, rfl, by cases t <;> rfl⟩
  | sendFailed t => cases t <;> exact .inl rfl
  | aborted cancelled => cases cancelled <;> exact .inl rfl
  | failedFatal closed => cases closed <;> exact .inl rfl
  | _ => exact .inl rfl

theorem Over.not_send (h : l.Over) (t : Trigger) (r : IssuedRequest) : ¬ l.Enabled (.send t r) := fun he => by
  cases t <;> rcases h.state with hs | hs <;> simp [Enabled, Ready, hs, h.waiting] at he

/-- Whole writes keep the file counted. -/
theorem Accounts.exact_apply (h : l.Accounts) (hx : l.Exact) (he : l.Enabled a) (hin : l.InOrder a)
    (hw : WritesWhole a) :
    (l.apply a).terminated = true ∨ (l.apply a).Over ∨ (l.apply a).Accounts ∧ (l.apply a).Exact := by
  cases hcancel : cancels a with
  | true => exact .inr (.inl (over_of_cancels hcancel))
  | false => exact (h.apply he hin).imp_right (·.imp_right fun hacc => ⟨hacc, hx.apply h he hcancel hw⟩)

theorem Kept.apply (h : l.Kept) (ht : l.terminated = false) (he : l.Enabled a) (hin : l.InOrder a)
    (hw : WritesWhole a) :
    (l.apply a).Kept := by
  rcases h.books.resolve_left (by simp [ht]) with ho | ⟨hacc, hx⟩
  · refine ⟨.inr (.inl (ho.apply he)), ?_⟩
    rcases requests_apply (l := l) a with hr | ⟨t, r, rfl, -⟩
    · rw [hr]; exact h.requests
    · exact absurd he (ho.not_send t r)
  · refine ⟨hacc.exact_apply hx he hin hw, ?_⟩
    rcases requests_apply (l := l) a with hr | ⟨t, r, rfl, hr⟩
    · rw [hr]; exact h.requests
    · rw [hr]
      intro r' hr'
      rcases List.mem_cons.1 hr' with rfl | hr'
      · have hs := hacc.settled_of_send he hin
        rw [he.2.2.1, he.2.2.2, ← settled_eq hs.2, hx]
      · exact h.requests r' hr'

theorem accounts_initial : Accounts {} := accounts_of_idle (Nat.le_refl _) (by decide) rfl rfl rfl nofun

theorem kept_initial : Life.Kept {} := ⟨.inr (.inr ⟨accounts_initial, rfl⟩), nofun⟩

end Life

/-- In every run what is counted is in the file, until the download is over. -/
theorem booked_or_over {l : Life} (h : Trans.Reachable lifeCycle l) : l.Booked ∨ l.Over :=
  h.invariant (fun l => l.Booked ∨ l.Over) (fun s (hi : s = {}) => .inl (hi ▸ Life.accounts_initial.booked))
    fun l a _ hl _ hs => by
      obtain ⟨⟨-, he⟩, rfl⟩ := lifeCycle_step.1 hs
      rcases hl with hb | ho
      · cases hc : Life.cancels a with
        | true => exact .inr (Life.over_of_cancels hc)
        | false => exact .inl (hb.apply he hc)
      · exact .inr (ho.apply he)

/-- The books of a run whose acts are in order. -/
theorem kept_of_inOrder {l : Life}
    (h : Trans.ReachableBy lifeCycle (fun l a => l.InOrder a ∧ Life.WritesWhole a) l) :
    l.Kept :=
  h.invariant Life.Kept (fun s (hi : s = {}) => hi ▸ Life.kept_initial) fun _ _ _ hk hin hs => by
    obtain ⟨⟨ht, he⟩, rfl⟩ := lifeCycle_step.1 hs
    exact hk.apply ht he hin.1 hin.2

end DoClient
