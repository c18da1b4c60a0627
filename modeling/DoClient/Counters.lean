/-
The two counters of the status: when a download is transferred, they agree, if
every response that completed declared the length it brought.

`BytesTotal` comes from the headers of a response, `BytesTransferred` from its
body, and Transferred from its end; all three by way of the task queue.
-/
import DoClient.Ledger
import DoClient.Steps

namespace DoClient

/-- The total length once the updates are applied. -/
def lastTotal : Nat → List Update → Nat
  | total, [] => total
  | _, .headers bytesTotal :: us => lastTotal bytesTotal us
  | total, _ :: us => lastTotal total us

@[simp] theorem lastTotal_append (total : Nat) (us vs : List Update) :
    lastTotal total (us ++ vs) = lastTotal (lastTotal total us) vs := by
  induction us generalizing total with
  | nil => rfl
  | cons u us ih => cases u <;> exact ih _

@[simp] theorem lastTotal_headers (total : Nat) (bytesTotal : Option Nat) :
    lastTotal total (bytesTotal.map Update.headers).toList = bytesTotal.getD total := by
  cases bytesTotal <;> rfl

/-- The response declares this length of the file: by `Content-Length` with a 200,
by `Content-Range` with a 206. -/
def Transfer.Declares (t : Transfer) (n : Nat) : Prop :=
  (t.responseCode = 200 ∨ t.responseCode = 206) ∧ t.response.bytesTotal 0 = .ok n

/-- Of such a response the client makes no number up. -/
theorem Transfer.Declares.bytesTotal {t : Transfer} {n : Nat} (h : t.Declares n) (indeterminate : Nat) :
    t.response.bytesTotal indeterminate = .ok n := by
  obtain ⟨hcode, htotal⟩ := h
  rw [← htotal]
  unfold HttpAgent.bytesTotal
  rcases hcode with hcode | hcode <;> simp [Transfer.response, hcode]

theorem Transfer.Declares.accepted {t : Transfer} {n : Nat} (h : t.Declares n) : t.Accepted := by
  rw [Transfer.Accepted]
  rcases h.1 with hcode | hcode <;> rw [hcode] <;> decide

/-- What comes with more of the body, or the end, leaves the declared length as the last total. -/
theorem Transfer.Declares.reported {t : Transfer} {n : Nat} (total : Nat) {bytesTotal : Option Nat}
    (h : t.Declares n) (hr : t.Reports bytesTotal) (htold : t.bodyStarted = true → total = n) :
    bytesTotal.getD total = n := by
  unfold Transfer.Reports at hr
  split at hr
  · next hb => rw [hr, Option.getD_none, htold (hb.resolve_right fun hacc => hacc h.accepted)]
  · obtain ⟨indeterminate, hr⟩ := hr
    rw [hr, h.bytesTotal indeterminate]
    rfl

namespace Life

variable {l : Life} {a : Act}

/-- The total length, now or by an update to come. -/
def declared (l : Life) : Nat := lastTotal l.bytesTotal l.updates

/-- The acts that keep the counters in step: every update is applied before a resume
and before a timer pauses the download, which is not at work then, no close fails and
leaves it at work, and a response that completes declared the length it brought. -/
def InStep (l : Life) : Act → Prop
  | .send .resume _ | .skipRequest => l.updates = []
  | .timerOffline => l.outstanding = false ∧ l.updates = []
  | .closeFailed terminates => terminates = true
  | .complete _ true => ∀ t, l.running = some t → t.Accepted → t.Declares (t.startOffset + t.body.length)
  | _ => True

theorem InStep.inOrder (h : l.InStep a) : l.InOrder a := by
  cases a with
  | send t r =>
    cases t with
    | resume =>
      have hu : l.updates = [] := h
      simp [InOrder, hu]
    | start | timer | retry => trivial
  | skipRequest =>
    have hu : l.updates = [] := h
    simp [InOrder, hu]
  | timerOffline => exact ⟨h.1, by simp [h.2]⟩
  | closeFailed => exact h
  | _ => trivial

/-- The counters are in step. -/
structure Tally (l : Life) : Prop where
  /-- Where a retry or a timer would send a request. -/
  idle : (l.state = .transferring ∧ l.active = false) ∨ l.waiting = true → l.updates = []
  fresh : ∀ t, l.queued = some t → t.bodyStarted = false
  asked : ∀ t, l.queued = some t ∨ l.running = some t → t.writeFailed = false →
    l.accounted = t.startOffset + t.body.length
  told : ∀ t, l.running = some t → t.bodyStarted = true → t.writeFailed = false → ∀ n, t.Declares n →
    l.declared = n
  completed : .completed ∈ l.updates → l.outstanding = false ∧ l.declared = l.accounted ∧
    ∃ us, l.updates = us ++ [.completed] ∧ .completed ∉ us
  transferred :
    l.state = .transferred → l.outstanding = false ∧ l.updates = [] ∧ l.bytesTransferred = l.bytesTotal
  shortcut : 0 < l.shortcuts → l.outstanding = false ∧ l.updates = [] ∧ l.bytesTotal ≠ 0 ∧
    l.bytesTransferred = l.bytesTotal

/-- With nothing under way and nothing left to apply there is little to keep. -/
theorem tally_of_idle (hout : l.outstanding = false) (hu : l.updates = []) (hs : l.shortcuts = 0)
    (ht : l.state = .transferred → l.bytesTransferred = l.bytesTotal) : l.Tally := by
  obtain ⟨hq, hr⟩ := not_outstanding hout
  exact ⟨fun _ => hu, fun t h => (nomatch hq.symm.trans h), fun t h => by simp [hq, hr] at h,
    fun t h => (nomatch hr.symm.trans h),
      fun h => by simp [hu] at h, fun h => ⟨hout, hu, ht h⟩, fun h => by omega⟩

theorem not_outstanding_of_none (hq : l.queued = none) (hr : l.running = none) : l.outstanding = false := by
  simp [outstanding, hq, hr]

/-- The transfer is over, the updates stay. -/
theorem Tally.ended (h : l.Tally) {l' : Life} (hq : l'.queued = none) (hr : l'.running = none)
    (hu : l'.updates = l.updates) (hsc : l'.shortcuts = l.shortcuts)
    (hb : l'.bytesTransferred = l.bytesTransferred) (ht : l'.bytesTotal = l.bytesTotal)
    (hidle : (l'.state = .transferring ∧ l'.active = false) ∨ l'.waiting = true →
      l.updates = []) (hstate : l'.state = .transferred → l.state = .transferred) : l'.Tally := by
  have hout := not_outstanding_of_none hq hr
  refine ⟨fun hi => hu.trans (hidle hi), fun t h => (nomatch hq.symm.trans h),
    fun t h => by simp [hq, hr] at h,
    fun t h => (nomatch hr.symm.trans h), fun hc => ⟨hout, ?_⟩, fun hs => ⟨hout, ?_⟩, fun hs => ⟨hout, ?_⟩⟩
  · rw [hu] at hc
    obtain ⟨-, htotal, hlast⟩ := h.completed hc
    simp only [declared, accounted, hu, hb, ht] at htotal ⊢
    exact ⟨htotal, hlast⟩
  · rw [hu, hb, ht]
    exact (h.transferred (hstate hs)).2
  · rw [hu, hb, ht]
    exact (h.shortcut (hsc ▸ hs)).2

/-- While a request is outstanding the download is not transferred, nor does an update say so. -/
theorem Tally.working (h : l.Tally) (hout : l.outstanding = true) :
    l.state ≠ .transferred ∧ .completed ∉ l.updates ∧ l.shortcuts = 0 := by
  refine ⟨fun hs => ?_, fun hc => ?_, ?_⟩
  · exact absurd (hout.symm.trans (h.transferred hs).1) Bool.noConfusion
  · exact absurd (hout.symm.trans (h.completed hc).1) Bool.noConfusion
  · by_contra hne
    exact absurd (hout.symm.trans (h.shortcut (Nat.pos_of_ne_zero hne)).1) Bool.noConfusion

/-- A completion that is the first update is the only one. -/
theorem Tally.completed_head (h : l.Tally) (hhead : l.updates.head? = some .completed) :
    l.updates = [.completed] := by
  obtain ⟨-, -, us, hus, hnot⟩ := h.completed (List.mem_of_mem_head? hhead)
  cases us with
  | nil => exact hus
  | cons u us =>
    rw [hus, List.cons_append, List.head?_cons, Option.some.injEq] at hhead
    exact absurd (hhead ▸ List.mem_cons_self) hnot

theorem declared_headers {bytesTotal : Nat} (h : l.updates.head? = some (.headers bytesTotal)) :
    lastTotal bytesTotal l.updates.tail = l.declared := by
  obtain ⟨us, hus⟩ := List.head?_eq_some_iff.1 h
  rw [declared, hus]
  rfl

theorem declared_data {cbData : Nat} (h : l.updates.head? = some (.data cbData)) :
    lastTotal l.bytesTotal l.updates.tail = l.declared := by
  obtain ⟨us, hus⟩ := List.head?_eq_some_iff.1 h
  rw [declared, hus]
  rfl

/-- An update of headers or data is applied: what is accounted and declared stays. -/
theorem Tally.pop (h : l.Tally) {l' : Life} {u : Update} (hhead : l.updates.head? = some u)
    (hne : u ≠ .completed) (hu : l'.updates = l.updates.tail) (hq : l'.queued = l.queued)
    (hr : l'.running = l.running) (hs : l'.state = l.state) (hact : l'.active = l.active)
    (hw : l'.waiting = l.waiting) (hsc : l'.shortcuts = 0) (hacc : l'.accounted = l.accounted)
    (hdecl : l'.declared = l.declared) : l'.Tally := by
  have hnonempty : l.updates ≠ [] := fun hn => by simp [hn] at hhead
  have hout : l'.outstanding = l.outstanding := by simp only [outstanding, hq, hr]
  refine ⟨fun hi => ?_, fun t ht => h.fresh t (hq ▸ ht), fun t ht hf => ?_, fun t ht hb hf n hn => ?_,
    fun hc => ?_, fun ht => ?_, fun h0 => by omega⟩
  · rw [hs, hact, hw] at hi
    exact absurd (h.idle hi) hnonempty
  · rw [hq, hr] at ht
    exact hacc.trans (h.asked t ht hf)
  · exact hdecl.trans (h.told t (hr ▸ ht) hb hf n hn)
  · rw [hu] at hc
    obtain ⟨hidle, htotal, us, hus, hnot⟩ := h.completed (mem_updates_tail hc)
    refine ⟨hout.trans hidle, by rw [hdecl, hacc, htotal], ?_⟩
    cases us with
    | nil =>
      rw [hus, List.nil_append, List.head?_cons, Option.some.injEq] at hhead
      exact absurd hhead.symm hne
    | cons v us =>
      rw [hu, hus]
      exact ⟨us, rfl, fun hm => hnot (List.mem_cons_of_mem _ hm)⟩
  · exact absurd (h.transferred (hs ▸ ht)).2.1 hnonempty

/-- What libcurl changes of the transfer it works on. -/
theorem Tally.running (h : l.Tally) {t t' : Transfer} (ht : l.running = some t) (hq : l.queued = none)
    (hstill : ¬ ((l.state = .transferring ∧ l.active = false) ∨ l.waiting = true))
    (hask : t'.writeFailed = false → t.writeFailed = false ∧ t'.startOffset = t.startOffset ∧
      t'.body = t.body)
    (htell : t'.bodyStarted = true → t' = t) : Tally { l with running := some t' } := by
  obtain ⟨hstate, hcompleted, hsc⟩ := h.working (running_outstanding ht)
  refine ⟨fun hi => absurd hi hstill, fun t₁ h₁ => h.fresh t₁ h₁, fun t₁ h₁ hf => ?_,
    fun t₁ h₁ hb hf n hn => ?_,
    fun hc => absurd hc hcompleted, fun hs => absurd hs hstate, fun hs => absurd hsc (Nat.ne_of_gt hs)⟩
  · obtain rfl : t' = t₁ := by simpa [hq] using h₁
    obtain ⟨hf₀, hstart, hbody⟩ := hask hf
    rw [hstart, hbody]
    exact h.asked t (.inr ht) hf₀
  · obtain rfl : t' = t₁ := Option.some.inj h₁
    obtain rfl := htell hb
    exact h.told t' ht hb hf n hn

/-- **Acts in step keep the counters in step.** -/
theorem Tally.apply (h : l.Tally) (hacc : l.Accounts) (he : l.Enabled a) (hin : l.InStep a)
    (hc : cancels a = false) : (l.apply a).terminated = true ∨ (l.apply a).Tally := by
  have haccounted := accounted_apply hacc.booked.bounded he hc
  cases a with
  | idle => exact .inr h
  | send t r =>
    have hset := hacc.settled_of_send he hin.inOrder
    have hrun := (not_outstanding hset.1).2
    have hu : l.updates = [] := by
      cases t with
      | start => exact he.1.2.2.2.1
      | resume => exact hin
      | timer => exact h.idle (.inr he.1.1)
      | retry => exact h.idle (.inl ⟨he.1.1, he.1.2.1⟩)
    have hsc : l.shortcuts = 0 := by
      cases t with
      | start => exact he.1.2.2.2.2.2.1
      | resume =>
        by_contra hne
        obtain ⟨-, -, hall⟩ := h.shortcut (Nat.pos_of_ne_zero hne)
        exact he.1.2 hall
      | timer => exact he.1.2.2
      | retry => exact he.1.2.2
    have hstart : l.accounted = rangeStart r.range := (settled_eq hset.2).trans he.2.2.1.symm
    right
    cases t <;>
    · refine ⟨fun hi => by simp [Life.apply] at hi, fun t ht => ?_, fun t ht _ => ?_,
        fun t ht => (absurd (hrun.symm.trans ht) (by simp)), fun hc' => ?_, (by rintro ⟨⟩), fun hs =>
          absurd hsc (Nat.ne_of_gt hs)⟩
      · obtain rfl := Option.some.inj ht
        rfl
      · rcases ht with ht | ht
        · obtain rfl := Option.some.inj ht
          exact hstart
        · exact absurd (hrun.symm.trans ht) (by simp)
      · have hmem : Update.completed ∈ l.updates := hc'
        simp [hu] at hmem
  | sendFailed t called terminates =>
    cases t with
    | start | resume =>
      exact .inr ⟨h.idle, h.fresh, h.asked, h.told, h.completed, h.transferred, h.shortcut⟩
    | timer | retry => exact .inl he.2
  | skipRequest =>
    have hu : l.updates = [] := hin
    have hout := hacc.paused he.1
    obtain ⟨hq, hr⟩ := not_outstanding hout
    right
    refine ⟨fun _ => hu, h.fresh, h.asked, h.told, fun hc' => ?_, (by rintro ⟨⟩), fun _ => ⟨hout, hu, he.2⟩⟩
    have hmem : Update.completed ∈ l.updates := hc'
    simp [hu] at hmem
  | closed => exact .inr (h.ended rfl rfl rfl rfl rfl rfl (by simp [Life.apply]) (by rintro ⟨⟩))
  | closeFailed terminates => exact .inl hin
  | finalizeFailed =>
    have hu : l.updates = [] := (h.transferred he).2.1
    exact .inr (h.ended rfl rfl rfl rfl rfl rfl (fun _ => hu) id)
  | finalized => cases hc
  | aborted cancelled file =>
    cases cancelled with
    | true => cases hc
    | false => exact .inr (h.ended rfl rfl rfl rfl rfl rfl (by simp [Life.apply]) (by rintro ⟨⟩))
  | drain lost =>
    right
    have hidle := fun hout => outstanding_drain (l := l) lost hout
    have hmem : ∀ t, (l.apply (.drain lost)).running = some t → l.running = some t ∨ l.queued = some t :=
      fun t ht => by
      simp only [Life.apply] at ht
      split at ht
      · cases ht
      · split at ht
        exacts [.inl ht, .inr ht]
    refine ⟨h.idle, (by rintro _ ⟨⟩), fun t ht hf => ?_, fun t ht hb hf n hn => ?_, fun hc' => ?_, fun hs => ?_,
      fun hs => ?_⟩
    · exact h.asked t (hmem t (ht.resolve_left (by rintro ⟨⟩))).symm hf
    · rcases hmem t ht with hr | hq
      · exact h.told t hr hb hf n hn
      · exact absurd (hb.symm.trans (h.fresh t hq)) Bool.noConfusion
    · exact ⟨hidle (h.completed hc').1, (h.completed hc').2⟩
    · exact ⟨hidle (h.transferred hs).1, (h.transferred hs).2⟩
    · exact ⟨hidle (h.shortcut hs).1, (h.shortcut hs).2⟩
  | status code =>
    obtain ⟨t, ht, hbody⟩ := he
    have hq := hacc.queued_none ht
    have happly : l.apply (.status code) = { l with running := some { t with responseCode := code } } := by
      simp [Life.apply, ht]
    right
    rw [happly]
    exact h.running ht hq (hacc.working (running_outstanding ht)).1 (fun hf => ⟨hf, rfl, rfl⟩)
      fun hb => absurd (hb.symm.trans hbody) Bool.noConfusion
  | header line =>
    obtain ⟨t, ht⟩ := Option.isSome_iff_exists.1 he
    have hq := hacc.queued_none ht
    have happly : l.apply (.header line) = { l with running := some (t.noteHeader line) } := by
      simp [Life.apply, ht]
    right
    rw [happly]
    refine h.running ht hq (hacc.working (running_outstanding ht)).1 (fun hf => ?_) fun hb => ?_
    · simpa [Transfer.startOffset] using hf
    · rw [Transfer.noteHeader_bodyStarted] at hb
      rw [Transfer.noteHeader, if_pos hb]
  | write bytesTotal chunk n ok =>
    obtain ⟨⟨t, ht, hf, hreports⟩, hn, -⟩ := he
    have hq := hacc.queued_none ht
    obtain ⟨hstill, -, -⟩ := hacc.working (running_outstanding ht)
    obtain ⟨hstate, hcompleted, hsc⟩ := h.working (running_outstanding ht)
    right
    refine ⟨fun hi => absurd hi hstill, h.fresh, fun t' ht' hf' => ?_, fun t' ht' _ hf' m hm => ?_,
      fun hc' => ?_, fun hs => absurd hs hstate, fun hs => absurd hsc (Nat.ne_of_gt hs)⟩
    · obtain rfl :
        { t with bodyStarted := true, body := t.body ++ chunk, writeFailed := !(ok || chunk.isEmpty) } =
          t' := by
        simpa [Life.apply, hq, ht] using ht'
      have hask := h.asked t (.inr ht) hf
      rw [haccounted, hask]
      -- a refused chunk that was taken for written whole is empty
      have hchunk : ok = false → chunk = [] := by simpa using hf'
      cases ok with
      | true => simp [counted, Transfer.startOffset, Nat.add_assoc]
      | false => simp [counted, Transfer.startOffset, hchunk]
    · obtain rfl :
        { t with bodyStarted := true, body := t.body ++ chunk, writeFailed := !(ok || chunk.isEmpty) } =
          t' := by
        simpa [Life.apply, ht] using ht'
      have hdecl : t.Declares m := hm
      have htotal := hdecl.reported l.declared (hreports hacc.overlaps).2 fun hb => h.told t ht hb hf m hdecl
      cases ok <;> simpa [Life.apply, declared, lastTotal] using htotal
    · simp only [Life.apply, List.mem_append] at hc'
      rcases hc' with (hc' | hc') | hc'
      · exact absurd hc' hcompleted
      · cases bytesTotal <;> simp at hc'
      · cases ok <;> simp at hc'
  | complete bytesTotal ok =>
    obtain ⟨⟨t, ht, hok, -⟩, -⟩ := he
    have hq := hacc.queued_none ht
    obtain ⟨hstill, -, -⟩ := hacc.working (running_outstanding ht)
    obtain ⟨hstate, hcompleted, hsc⟩ := h.working (running_outstanding ht)
    have hout : (l.apply (.complete bytesTotal ok)).outstanding = false := not_outstanding_of_none hq rfl
    have hheaders : Update.completed ∉ (bytesTotal.map Update.headers).toList := by cases bytesTotal <;> simp
    right
    refine ⟨fun hi => absurd hi hstill, h.fresh, fun t' ht' => ?_, (by rintro _ ⟨⟩), fun hc' => ⟨hout, ?_⟩,
      fun hs => absurd hs hstate, fun hs => absurd hsc (Nat.ne_of_gt hs)⟩
    · rcases ht' with ht' | ht'
      · exact absurd (hq.symm.trans ht') (by simp)
      · cases (show none = some t' from ht')
    · cases ok with
      | false => simp [Life.apply, hcompleted, hheaders] at hc'
      | true =>
        obtain ⟨hf, hreports⟩ := hok rfl
        obtain ⟨haccepted, hreports⟩ := hreports hacc.overlaps
        have hdecl := hin t ht haccepted
        have htotal := hdecl.reported l.declared hreports fun hb => h.told t ht hb hf _ hdecl
        have hask := h.asked t (.inr ht) hf
        refine ⟨?_, l.updates ++ (bytesTotal.map Update.headers).toList, rfl, by simp [hcompleted, hheaders]⟩
        rw [haccounted, hask]
        simpa [Life.apply, declared, lastTotal, counted] using htotal
  | completeIgnored =>
    obtain ⟨t, ht⟩ := Option.isSome_iff_exists.1 he
    have hq := hacc.queued_none ht
    exact .inr (h.ended hq rfl rfl rfl rfl rfl
      (fun hi => absurd hi (hacc.working (running_outstanding ht)).1) id)
  | headers bytesTotal =>
    exact .inr (h.pop he.1 (by simp) rfl rfl rfl rfl rfl rfl he.2 haccounted (declared_headers he.1))
  | data cbData =>
    exact .inr (h.pop he.1 (by simp) rfl rfl rfl rfl rfl rfl he.2 haccounted (declared_data he.1))
  | completed =>
    have hu := h.completed_head he.1
    obtain ⟨hout, htotal, -⟩ := h.completed (List.mem_of_mem_head? he.1)
    right
    have hall : l.bytesTotal = l.bytesTransferred := by
      simpa [declared, accounted, hu, lastTotal, pendingBytes] using htotal
    exact tally_of_idle hout (by simp [Life.apply, hu]) he.2 fun _ => hall.symm
  | failedOffline =>
    obtain ⟨hout, htail⟩ := hacc.failed he.1
    exact .inr (tally_of_idle hout htail he.2 (by rintro ⟨⟩))
  | failedFatal closed =>
    obtain ⟨-, htail⟩ := hacc.failed he.1
    cases closed with
    | true => exact .inr (tally_of_idle rfl htail he.2 (by rintro ⟨⟩))
    | false => exact .inl rfl
  | failedRetry =>
    obtain ⟨hout, htail⟩ := hacc.failed he.1
    refine .inr (tally_of_idle hout htail he.2 fun hs => ?_)
    have hu := (h.transferred hs).2.1
    simp [Enabled, hu] at he
  | timerOffline => exact .inr (tally_of_idle hin.1 hin.2 he.2 (by rintro ⟨⟩))
  | timerIdle => exact .inr ⟨h.idle, h.fresh, h.asked, h.told, h.completed, h.transferred, h.shortcut⟩
  | alreadyTransferred =>
    obtain ⟨hout, hu, hne, hall⟩ := h.shortcut he
    obtain ⟨hq, hr⟩ := not_outstanding hout
    right
    refine ⟨fun _ => hu, h.fresh, h.asked, h.told, h.completed, fun _ => ⟨hout, hu, hall⟩,
      fun _ => ⟨hout, hu, hne, hall⟩⟩

/-- The agent does not end while the download is transferred. -/
theorem Tally.not_transferred (h : l.Tally) (hacc : l.Accounts) (ht : l.terminated = false) (he : l.Enabled a)
    (hterm : (l.apply a).terminated = true) : (l.apply a).state ≠ .transferred := by
  cases a with
  | sendFailed t called terminates =>
    cases t with
    | start => simp [Life.apply, useTimer, he.1]
    | resume => simp [Life.apply, useTimer, show l.state = .paused from he]
    | timer => simp [Life.apply, useTimer, hacc.waiting he.1.1]
    | retry => simp [Life.apply, useTimer, he.1.1]
  | closeFailed => simp [Life.apply, close, show l.state = .transferring from he]
  | failedFatal closed =>
    cases closed with
    | true => exact absurd (ht.symm.trans hterm) Bool.noConfusion
    | false =>
      intro hs
      have hu := (h.transferred hs).2.1
      simp [Enabled, hu] at he
  | send t => cases t <;> exact absurd (ht.symm.trans hterm) Bool.noConfusion
  | aborted cancelled => cases cancelled <;> exact absurd (ht.symm.trans hterm) Bool.noConfusion
  | _ => exact absurd (ht.symm.trans hterm) Bool.noConfusion

/-- What runs in step keep. -/
def Tallied (l : Life) : Prop :=
  (l.terminated = true ∧ l.state ≠ .transferred) ∨ l.Over ∨ l.Accounts ∧ l.Tally

theorem Tallied.apply (h : l.Tallied) (ht : l.terminated = false) (he : l.Enabled a) (hin : l.InStep a) :
    (l.apply a).Tallied := by
  rcases h.resolve_left (by simp [ht]) with ho | ⟨hacc, htally⟩
  · exact .inr (.inl (ho.apply he))
  cases hterm : (l.apply a).terminated with
  | true => exact .inl ⟨hterm, htally.not_transferred hacc ht he hterm⟩
  | false =>
    have hacc' := (hacc.apply he hin.inOrder).resolve_left (by simp [hterm])
    cases hc : cancels a with
    | true => exact .inr (.inl (over_of_cancels hc))
    | false =>
      have htally' := (htally.apply hacc he hin hc).resolve_left (by simp [hterm])
      exact .inr (hacc'.imp_right fun hacc' => ⟨hacc', htally'⟩)

theorem tallied_initial : Tallied {} := .inr (.inr ⟨accounts_initial, tally_of_idle rfl rfl rfl nofun⟩)

end Life

theorem tallied_of_inStep {l : Life} (h : Trans.ReachableBy lifeCycle Life.InStep l) : l.Tallied :=
  h.invariant Life.Tallied (fun s (hi : s = {}) => hi ▸ Life.tallied_initial) fun _ _ _ hk hin hs => by
    obtain ⟨⟨ht, he⟩, rfl⟩ := lifeCycle_step.1 hs
    exact hk.apply ht he hin

/-! ## The agent -/

variable {uri : UriLib} {w : World}

/-- A client's Start of a paused download finds every update of the last transfer
applied, so does a timer that finds no network, and no transfer; a Pause closes the
file; and a transfer that completes with an accepted status brought, behind the
offset it was asked for, the rest of the length its response declares. -/
def DeclaresLength (w : World) : Event → Prop
  | .run o =>
    (w.nextOp = some (.client .start) → w.dl.status.state = .paused → w.taskQ.updates = []) ∧
    (w.nextOp = some .transientTimer → o.hasViableInterface = false →
      w.curl.outstanding = false ∧ w.taskQ.updates = []) ∧
    (w.nextOp = some (.client .pause) → o.closeErr = none)
  | .curl (.complete curlResult _) => curlResult = 0 → ∀ t, w.curl.active = some t → t.Accepted →
    t.Declares (t.startOffset + t.body.length)
  | _ => True

theorem inStep_of_declaresLength {e : Event} {a : Act} (hfrom : a.From w e) (he : w.life.Enabled a)
    (hd : DeclaresLength w e) : w.life.InStep a := by
  cases a with
  | send t r =>
    cases t with
    | resume =>
      obtain ⟨o, rfl, hop⟩ := hfrom
      exact hd.1 hop he.1.1
    | start | timer | retry => trivial
  | skipRequest =>
    obtain ⟨o, rfl, hop⟩ := hfrom
    exact hd.1 hop he.1
  | timerOffline =>
    obtain ⟨o, ⟨rfl, hop⟩, hv⟩ := hfrom
    exact hd.2.1 hop hv
  | closeFailed terminates =>
    obtain ⟨o, herr, ⟨⟨rfl, hop⟩, -⟩ | ⟨-, hterm⟩⟩ := hfrom
    · exact absurd (hd.2.2 hop) herr
    · exact hterm
  | complete bytesTotal ok =>
    cases ok with
    | false => trivial
    | true =>
      obtain ⟨curlResult, indeterminate, rfl, hzero, -⟩ := hfrom
      exact hd (hzero rfl)
  | _ => trivial

/-- **The counters of a transferred download agree**, and no update is left to apply,
where every response that completes declares the length it brings. -/
theorem transferred_counters_agree (h : Trans.ReachableBy (agent uri) DeclaresLength w)
    (hs : w.dl.status.state = .transferred) :
    w.taskQ.updates = [] ∧ w.dl.status.bytesTransferred = w.dl.status.bytesTotal := by
  have hl := tallied_of_inStep <| life_reachableBy (fun _ _ _ => inStep_of_declaresLength) h
  have hstate : w.life.state = .transferred := hs
  rcases hl with ⟨-, hn⟩ | ho | ⟨-, htally⟩
  · exact absurd hstate hn
  · rcases ho.state with hf | ha
    · rw [hf] at hstate; cases hstate
    · rw [ha] at hstate; cases hstate
  · exact (htally.transferred hstate).2

instance (t : Transfer) (n : Nat) : Decidable (t.Declares n) := inferInstanceAs (Decidable (_ ∧ _))

instance : ∀ w e, Decidable (DeclaresLength w e)
  | _, .run _ => inferInstanceAs (Decidable (_ ∧ _ ∧ _))
  | w, .curl (.complete ..) => inferInstanceAs (Decidable (_ = 0 → ∀ t ∈ w.curl.active, _))
  | _, .curl (.status _) | _, .curl (.header _) | _, .curl (.write ..) => .isTrue trivial
  | _, .tick _ | _, .request _ | _, .foreign .. | _, .drain => .isTrue trivial

/-- A response with these header lines and this body, taken in whole. -/
def wholeRun (code : Nat) (headers : List String) (body : List UInt8) : List Event :=
  [.request .start, .run {}, .drain, .curl (.status code)] ++ headers.map (.curl <| .header ·) ++
    [.curl (.write body (.wrote body.length) 0), .curl (.complete 0 0), .run {}, .run {}, .run {}]

theorem transferred_counters_agree_whole : ∃ w,
    ((agent plainUri).restrict DeclaresLength).runFrom newDownload
    (wholeRun 200 ["Content-Length: 3"] [1, 2, 3]) = some w ∧
    w.dl.status.state = .transferred ∧ w.dl.status.bytesTotal = 3 ∧
    w.taskQ.updates = [] ∧ w.dl.status.bytesTransferred = w.dl.status.bytesTotal := by
  have hrun : (((agent plainUri).restrict DeclaresLength).runFrom newDownload
      (wholeRun 200 ["Content-Length: 3"] [1, 2, 3])).map
        (fun w => (w.dl.status.state, w.dl.status.bytesTotal)) =
      some (.transferred, 3) := by decide +kernel
  obtain ⟨w, hw, hstatus⟩ := Option.map_eq_some_iff.1 hrun
  obtain ⟨hs, ht⟩ := Prod.mk.inj hstatus
  exact ⟨w, hw, hs, ht, transferred_counters_agree (Trans.reachableBy_of_runFrom reachable_newDownload hw) hs⟩

/-- Every status is one `HttpAgent` takes for success. -/
def OnlyAccepted (_ : World) : Event → Prop
  | .curl (.status code) => succeeded (HttpAgent.resultFromStatusCode code) = true
  | _ => True

instance : ∀ w e, Decidable (OnlyAccepted w e)
  | _, .curl (.status _) => inferInstanceAs (Decidable (_ = true))
  | _, .curl (.header _) | _, .curl (.write ..) | _, .curl (.complete ..) => .isTrue trivial
  | _, .tick _ | _, .request _ | _, .foreign .. | _, .run _ | _, .drain => .isTrue trivial

/-- Without a `Content-Length` the total stays zero. -/
theorem transferred_total_unknown : ¬ ∀ uri w, Trans.ReachableBy (agent uri) OnlyAccepted w →
    w.dl.status.state = .transferred → (∀ n, Update.data n ∉ w.taskQ.updates) →
    w.dl.status.bytesTransferred = w.dl.status.bytesTotal := by
  intro hall
  have hrun : (((agent plainUri).restrict OnlyAccepted).runFrom newDownload (wholeRun 200 [] [1, 2, 3])).map
      (fun w => (w.dl.status.state, w.taskQ.updates, w.dl.status.bytesTransferred, w.dl.status.bytesTotal)) =
      some (.transferred, [], 3, 0) := by decide +kernel
  obtain ⟨w, hr, hstatus⟩ := Trans.reachableBy_of_replay reachable_newDownload hrun
  simp only [Prod.mk.injEq] at hstatus
  obtain ⟨hs, hu, h3, h0⟩ := hstatus
  have heq := hall _ w hr hs (by simp [hu])
  rw [h3, h0] at heq
  cases heq

end DoClient
