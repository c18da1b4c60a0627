/-
The range of a request: from the first byte not there to the last there is.
That there is such a byte follows from the responses before: each declares a
length behind the offset it was asked for, brings no more than that, and brings
less if it ends in an error.
-/
import DoClient.Accounting
import DoClient.Counters
import DoClient.Effects
import DoClient.Escapes

namespace DoClient

/-- What is counted stays within the total length as the updates are applied, and a
new total length leaves a byte to come. -/
def Fits : Nat → Nat → List Update → Prop
  | bytesTransferred, bytesTotal, [] => bytesTransferred ≤ bytesTotal
  | bytesTransferred, bytesTotal, .headers n :: us => bytesTransferred ≤ bytesTotal ∧
      (bytesTransferred = 0 ∨ bytesTransferred < n) ∧ Fits bytesTransferred n us
  | bytesTransferred, bytesTotal, .data cbData :: us => bytesTransferred ≤ bytesTotal ∧
      Fits (bytesTransferred + cbData) bytesTotal us
  | bytesTransferred, bytesTotal, _ :: us => Fits bytesTransferred bytesTotal us

section Fits

variable {bytesTransferred bytesTotal : Nat} {us vs : List Update}

theorem Fits.le (h : Fits bytesTransferred bytesTotal us) : bytesTransferred ≤ bytesTotal := by
  induction us with
  | nil => exact h
  | cons u us ih =>
    cases u with
    | headers n => exact h.1
    | data cbData => exact h.1
    | completed | failed => exact ih h

theorem fits_append : Fits bytesTransferred bytesTotal (us ++ vs) ↔
    Fits bytesTransferred bytesTotal us ∧ Fits (bytesTransferred + pendingBytes us)
    (lastTotal bytesTotal us) vs := by
  induction us generalizing bytesTransferred bytesTotal with
  | nil =>
    simp only [List.nil_append, pendingBytes, Nat.add_zero, lastTotal]
    exact ⟨fun h => ⟨h.le, h⟩, fun h => h.2⟩
  | cons u us ih =>
    cases u <;> simp only [List.cons_append, Fits, pendingBytes, lastTotal, ih, and_assoc, Nat.add_assoc]

/-- All updates applied. -/
theorem Fits.last (h : Fits bytesTransferred bytesTotal us) :
    bytesTransferred + pendingBytes us ≤ lastTotal bytesTotal us := by
  have hall := fits_append.1 ((List.append_nil us).symm ▸ h)
  exact hall.2

/-- Updates that bring no data leave a byte to come. -/
theorem Fits.settled (h : Fits bytesTransferred bytesTotal us) (hs : ∀ u ∈ us, u.unsettled = false)
    (hlt : bytesTransferred = 0 ∨ bytesTransferred < bytesTotal) :
    bytesTransferred = 0 ∨ bytesTransferred < lastTotal bytesTotal us := by
  induction us generalizing bytesTotal with
  | nil => exact hlt
  | cons u us ih =>
    have htail : ∀ u ∈ us, u.unsettled = false := fun v hv => hs v (List.mem_cons_of_mem _ hv)
    cases u with
    | headers n => exact ih h.2.2 htail h.2.1
    | data cbData => cases hs _ List.mem_cons_self
    | completed | failed => exact ih h htail hlt

theorem fits_headers {n : Option Nat} (hle : bytesTransferred ≤ bytesTotal)
    (hn : ∀ m ∈ n, bytesTransferred = 0 ∨ bytesTransferred < m) :
    Fits bytesTransferred bytesTotal (n.map Update.headers).toList := by
  cases n with
  | none => exact hle
  | some m =>
    have hm := hn m rfl
    exact ⟨hle, hm, by simp only [Fits]; omega⟩

end Fits

namespace Transfer

variable (t : Transfer)

/-- The length of the file the response declares. -/
def declaredLength : Option Nat :=
  if t.responseCode = 200 ∨ t.responseCode = 206 then (t.response.bytesTotal 0).toOption else none

theorem mem_declaredLength {n : Nat} : n ∈ t.declaredLength ↔ t.Declares n := by
  unfold declaredLength Declares
  split
  · next hcode =>
    cases t.response.bytesTotal 0 <;> simp [hcode, Except.toOption, eq_comm]
  · next hcode => simp [hcode]

/-- A body of so many bytes lies within the declared length, which reaches beyond the offset asked for. -/
def Within (cb : Nat) : Prop :=
  t.startOffset + cb = 0 ∨ ∃ n ∈ t.declaredLength, t.startOffset < n ∧ t.startOffset + cb ≤ n

/-- The body falls short of the declared length. -/
def Lacking : Prop :=
  t.startOffset + t.body.length = 0 ∨ ∃ n ∈ t.declaredLength, t.startOffset + t.body.length < n

/-- What the counters, all updates applied, have of a transfer. -/
structure Counted (accounted declared : Nat) : Prop where
  empty : t.bodyStarted = false → t.body = [] ∧ t.writeFailed = false
  asked : t.writeFailed = false → accounted = t.startOffset + t.body.length
  /-- The chunk that was not written is not counted. -/
  refused : t.writeFailed = true → accounted < t.startOffset + t.body.length
  told : t.bodyStarted = true → t.HeadersTaken → t.Within t.body.length ∧ ∀ n ∈ t.declaredLength, declared = n
  /-- Until the response is taken there is a byte to come by an earlier one. -/
  ahead : ¬ (t.bodyStarted = true ∧ t.HeadersTaken) → accounted = 0 ∨ accounted < declared

variable {t} {bytesTotal : Option Nat} {accounted declared : Nat}

/-- A response that is not taken reports no length. -/
theorem Reports.none_of_not_taken (hr : t.Reports bytesTotal) (hn : ¬ t.HeadersTaken) :
    bytesTotal = none := by
  unfold Reports at hr
  split at hr
  · exact hr
  next hacc =>
  obtain ⟨indeterminate, hr⟩ := hr
  have haccepted : t.Accepted := by simpa using fun h => hacc (.inr h)
  have herror : ¬ (t.response.bytesTotal indeterminate).isOk = true := fun hok =>
    hn ⟨haccepted, isOk_bytesTotal t.response 0 indeterminate ▸ hok⟩
  cases htotal : t.response.bytesTotal indeterminate with
  | error => rw [hr, htotal]; rfl
  | ok n => rw [htotal] at herror; exact absurd rfl herror

/-- The length a response reports leaves a byte to come. -/
theorem Counted.reports (hc : t.Counted accounted declared) (hf : t.writeFailed = false)
    (hr : t.Reports bytesTotal) (hspace : t.bodyStarted = false → t.HeadersTaken → t.startOffset = 0 ∨
      ∃ n ∈ t.declaredLength, t.startOffset < n) :
    ∀ m ∈ bytesTotal, accounted = 0 ∨ accounted < m := by
  rintro m rfl
  have htaken : t.HeadersTaken := by
    by_contra hn
    cases hr.none_of_not_taken hn
  have hb : t.bodyStarted = false := by
    by_contra hb
    rw [Reports, if_pos (.inl (by simpa using hb))] at hr
    cases hr
  have hstart : accounted = t.startOffset := by rw [hc.asked hf, (hc.empty hb).1]; rfl
  rcases hspace hb htaken with h0 | ⟨n, hn, hlt⟩
  · exact .inl (hstart.trans h0)
  · have htold :=
      (t.mem_declaredLength.1 hn).reported declared hr fun hb' => absurd (hb'.symm.trans hb) Bool.noConfusion
    obtain rfl : m = n := htold
    exact .inr (hstart ▸ hlt)

theorem Counted.reported (hc : t.Counted accounted declared) (hr : t.Reports bytesTotal) :
    ∀ n ∈ t.declaredLength, bytesTotal.getD declared = n := fun n hn => by
  have hdecl := t.mem_declaredLength.1 hn
  have htaken : t.HeadersTaken := ⟨hdecl.accepted, by rw [hdecl.2]; rfl⟩
  exact hdecl.reported declared hr fun hb => (hc.told hb htaken).2 n hn

section Write

variable {chunk : List UInt8} {ok : Bool}

/-- The updates that come with a chunk keep within the length declared. -/
theorem Counted.fits_write (hc : t.Counted accounted declared) (hf : t.writeFailed = false)
    (hr : t.Reports bytesTotal) (hle : accounted ≤ declared)
    (hempty : ¬ t.HeadersTaken → ok = true → chunk = [])
    (hwithin : t.HeadersTaken → t.Within (t.body.length + chunk.length)) :
    Fits accounted declared
    ((bytesTotal.map Update.headers).toList ++ if ok then [.data chunk.length] else []) := by
  have hask := hc.asked hf
  have hspace := hc.reports hf hr fun hb htaken => by
    rcases hwithin htaken with h0 | ⟨n, hn, hlt, -⟩
    · exact .inl (by omega)
    · exact .inr ⟨n, hn, hlt⟩
  have hheaders := fits_headers hle hspace
  have hlast := hheaders.last
  rw [Life.pendingBytes_headers, lastTotal_headers] at hlast
  rw [fits_append, Life.pendingBytes_headers, lastTotal_headers]
  refine ⟨hheaders, ?_⟩
  cases ok with
  | false => exact hlast
  | true =>
    refine ⟨hlast, ?_⟩
    by_cases htaken : t.HeadersTaken
    · rcases hwithin htaken with h0 | ⟨n, hn, -, hle'⟩
      · show accounted + chunk.length ≤ bytesTotal.getD declared
        omega
      · rw [hc.reported hr n hn]
        show accounted + chunk.length ≤ n
        omega
    · rw [hempty htaken rfl]
      exact hlast

theorem Counted.write (hc : t.Counted accounted declared) (hf : t.writeFailed = false)
    (hr : t.Reports bytesTotal) (hempty : ¬ t.HeadersTaken → ok = true → chunk = [])
    (hwithin : t.HeadersTaken → t.Within (t.body.length + chunk.length)) :
    Counted { t with bodyStarted := true, body := t.body ++ chunk, writeFailed := !(ok || chunk.isEmpty) }
      (accounted + if ok then chunk.length else 0) (bytesTotal.getD declared) := by
  have hask := hc.asked hf
  refine ⟨nofun, fun hf' => ?_, fun hf' => ?_, fun _ htaken => ⟨?_, hc.reported hr⟩, fun hn => ?_⟩
  · have hchunk : ok = false → chunk = [] := by simpa using hf'
    cases ok with
    | true => simp [startOffset, hask, Nat.add_assoc]
    | false => simp [startOffset, hask, hchunk]
  · obtain ⟨rfl, hchunk⟩ : ok = false ∧ chunk ≠ [] := by simpa using hf'
    have hpos := List.length_pos_of_ne_nil hchunk
    simp only [startOffset, List.length_append, Bool.false_eq_true, if_false] at hask ⊢
    omega
  · have h := hwithin htaken
    rw [← List.length_append] at h
    exact h
  · have hnot : ¬ t.HeadersTaken := fun htaken => hn ⟨rfl, htaken⟩
    obtain rfl := hr.none_of_not_taken hnot
    have hahead := hc.ahead fun hb => hnot hb.2
    cases ok with
    | true => simpa [hempty hnot rfl] using hahead
    | false => exact hahead

end Write

/-- A transfer that fails has left a byte to come. -/
theorem Counted.failed (hc : t.Counted accounted declared)
    (hlacking : t.HeadersTaken → t.bodyStarted = true → t.writeFailed = false → t.Lacking) :
    accounted = 0 ∨ accounted < declared := by
  by_cases htold : t.bodyStarted = true ∧ t.HeadersTaken
  · obtain ⟨hwithin, hdeclared⟩ := hc.told htold.1 htold.2
    cases hf : t.writeFailed with
    | true =>
      have hlt := hc.refused hf
      rcases hwithin with h0 | ⟨n, hn, -, hle⟩
      · omega
      · have := hdeclared n hn
        omega
    | false =>
      have hall := hc.asked hf
      rcases hlacking htold.2 htold.1 hf with h0 | ⟨n, hn, hlt⟩
      · omega
      · have := hdeclared n hn
        omega
  · exact hc.ahead htold

end Transfer

namespace Life

variable {l : Life} {a : Act}

/-- A part of the file is still to come, if any has. -/
def Unfinished (l : Life) : Prop := l.accounted = 0 ∨ l.accounted < l.declared

theorem unfinished_iff (hu : l.updates = []) :
    l.Unfinished ↔ l.bytesTransferred = 0 ∨ l.bytesTransferred < l.bytesTotal := by
  simp only [Unfinished, accounted, declared, hu, pendingBytes, lastTotal, Nat.add_zero]

/-- Where a retry or a timer would send a request. -/
def Resting (l : Life) : Prop :=
  (l.state = .transferring ∧ l.active = false ∧ l.shortcuts = 0) ∨ l.waiting = true

/-- The counters are in range. -/
structure Ranged (l : Life) : Prop where
  fits : Fits l.bytesTransferred l.bytesTotal l.updates
  resting : l.Resting → l.updates = [] ∧ l.Unfinished
  transfer : ∀ t, l.queued = some t ∨ l.running = some t → t.Counted l.accounted l.declared
  failure : .failed ∈ l.updates → l.Unfinished

/-- The acts that keep the counters in range: no resume overtakes data or a failure, a
timer pauses only a download that rests with a part still to come, no close fails and
leaves the download at work, and responses bring what they declare. -/
def InRange (l : Life) : Act → Prop
  | .send .resume _ | .skipRequest => ∀ u ∈ l.updates, u.unsettled = false
  | .timerOffline => l.outstanding = false ∧ l.updates = [] ∧ l.Unfinished
  | .closeFailed terminates => terminates = true
  | .write _ chunk _ _ => ∀ t, l.running = some t → t.HeadersTaken → t.Within (t.body.length + chunk.length)
  | .complete _ ok => l.overlaps = 0 → ∀ t, l.running = some t → t.HeadersTaken →
      (if ok then t.bodyStarted = false else t.bodyStarted = true ∧ t.writeFailed = false) → t.Lacking
  | _ => True

theorem InRange.inOrder (h : l.InRange a) : l.InOrder a := by
  cases a with
  | send t r =>
    cases t with
    | resume => exact h
    | start | timer | retry => trivial
  | skipRequest => exact h
  | timerOffline => exact ⟨h.1, by simp [h.2.1]⟩
  | closeFailed => exact h
  | _ => trivial

/-- The counters, and the transfers there are, stay. -/
theorem Ranged.frame (h : l.Ranged) {l' : Life} (hu : l'.updates = l.updates)
    (hb : l'.bytesTransferred = l.bytesTransferred) (ht : l'.bytesTotal = l.bytesTotal)
    (htransfer : ∀ t, l'.queued = some t ∨ l'.running = some t → l.queued = some t ∨ l.running = some t)
    (hrest : l'.Resting → l.updates = [] ∧ l.Unfinished) : l'.Ranged := by
  have haccounted : l'.accounted = l.accounted := by simp only [accounted, hu, hb]
  have hdeclared : l'.declared = l.declared := by simp only [declared, hu, ht]
  have hunfinished : l'.Unfinished ↔ l.Unfinished := by simp only [Unfinished, haccounted, hdeclared]
  refine ⟨?_, fun hr => ?_, fun t hq => ?_, fun hf => ?_⟩
  · rw [hu, hb, ht]
    exact h.fits
  · rw [hu, hunfinished]
    exact hrest hr
  · rw [haccounted, hdeclared]
    exact h.transfer t (htransfer t hq)
  · rw [hunfinished]
    exact h.failure (hu ▸ hf)

/-- With nothing under way and nothing left to apply there is little to keep. -/
theorem ranged_of_idle (hout : l.outstanding = false) (hu : l.updates = [])
    (hle : l.bytesTransferred ≤ l.bytesTotal) (hrest : l.Resting → l.Unfinished) : l.Ranged := by
  obtain ⟨hq, hr⟩ := not_outstanding hout
  refine ⟨?_, fun h => ⟨hu, hrest h⟩, fun t ht => ?_, fun hf => ?_⟩
  · rw [hu]
    exact hle
  · simp [hq, hr] at ht
  · simp [hu] at hf

/-- The first update is applied. -/
theorem Ranged.tail (h : l.Ranged) {u : Update} (hhead : l.updates.head? = some u) :
    Fits (l.bytesTransferred + pendingBytes [u]) (lastTotal l.bytesTotal [u]) l.updates.tail ∧
    lastTotal (lastTotal l.bytesTotal [u]) l.updates.tail = l.declared := by
  obtain ⟨us, hus⟩ := List.head?_eq_some_iff.1 hhead
  have hfits := h.fits
  rw [hus, ← List.singleton_append, fits_append] at hfits
  have hlast : l.declared = lastTotal (lastTotal l.bytesTotal [u]) us := by
    rw [declared, hus, ← List.singleton_append, lastTotal_append]
  rw [show l.updates.tail = us by rw [hus]; rfl]
  exact ⟨hfits.2, hlast.symm⟩

/-- An update is applied: what is accounted and declared stays. -/
theorem Ranged.pop (h : l.Ranged) {l' : Life} {u : Update} (hhead : l.updates.head? = some u)
    (hu : l'.updates = l.updates.tail) (hb : l'.bytesTransferred = l.bytesTransferred + pendingBytes [u])
    (ht : l'.bytesTotal = lastTotal l.bytesTotal [u]) (hq : l'.queued = l.queued)
    (hr : l'.running = l.running) (hrest : ¬ l'.Resting) : l'.Ranged := by
  obtain ⟨hfits, hlast⟩ := h.tail hhead
  have haccounted : l'.accounted = l.accounted := by
    rw [accounted, hb, hu, accounted, pendingBytes_head hhead, Nat.add_assoc]
  have hdeclared : l'.declared = l.declared := by rw [declared, ht, hu, hlast]
  refine ⟨?_, fun hrest' => absurd hrest' hrest, fun t htr => ?_, fun hf => ?_⟩
  · rw [hb, ht, hu]
    exact hfits
  · rw [haccounted, hdeclared]
    exact h.transfer t (by rwa [hq, hr] at htr)
  · rw [hu] at hf
    rw [Unfinished, haccounted, hdeclared]
    exact h.failure (mem_updates_tail hf)

/-- While something is under way, or left to apply, the download does not rest. -/
theorem Ranged.not_resting (h : l.Ranged) (hacc : l.Accounts) (hw : l.outstanding = true ∨ l.updates ≠ []) :
    ¬ l.Resting := fun hr => by
  rcases hw with hout | hne
  · refine (hacc.working hout).1 ?_
    exact hr.imp_left fun hs => ⟨hs.1, hs.2.1⟩
  · exact hne (h.resting hr).1

/-- What libcurl changes of a transfer whose body has not begun. -/
theorem Ranged.running (h : l.Ranged) (hacc : l.Accounts) {t t' : Transfer} (ht : l.running = some t)
    (hbegun : t.bodyStarted = false) (hbegun' : t'.bodyStarted = false)
    (hstart : t'.startOffset = t.startOffset) (hbody : t'.body = t.body)
    (hfailed : t'.writeFailed = t.writeFailed) : Ranged { l with running := some t' } := by
  have hq := hacc.queued_none ht
  have hc := h.transfer t (.inr ht)
  refine ⟨h.fits, fun hr => absurd hr (h.not_resting hacc (.inl (running_outstanding ht))),
    fun t₁ h₁ => ?_, h.failure⟩
  obtain rfl : t' = t₁ := by simpa [hq] using h₁
  refine ⟨fun _ => ?_, fun hf => ?_, fun hf => ?_, fun hb => ?_, fun _ => hc.ahead (by simp [hbegun])⟩
  · rw [hbody, hfailed]
    exact hc.empty hbegun
  · rw [hstart, hbody]
    exact hc.asked (hfailed ▸ hf)
  · rw [hstart, hbody]
    exact hc.refused (hfailed ▸ hf)
  · exact absurd (hb.symm.trans hbegun') Bool.noConfusion

/-- A request finds a part of the file still to come. -/
theorem Ranged.unfinished_of_send (h : l.Ranged) {t : Trigger} {r : IssuedRequest}
    (he : l.Enabled (.send t r)) (hin : l.InRange (.send t r)) : l.Unfinished := by
  cases t with
  | start =>
    obtain ⟨⟨-, -, -, hu, -, -, hb, -⟩, -⟩ := he
    left
    rw [accounted, hu, hb]
    rfl
  | resume =>
    have hsettled : ∀ u ∈ l.updates, u.unsettled = false := hin
    have hle := h.fits.le
    have hguard := he.1.2
    rw [Unfinished, settled_eq hsettled]
    refine h.fits.settled hsettled ?_
    by_contra hne
    exact hguard (by omega)
  | timer => exact (h.resting (.inr he.1.1)).2
  | retry => exact (h.resting (.inl he.1)).2

theorem Ranged.send (h : l.Ranged) (hacc : l.Accounts) {t : Trigger} {r : IssuedRequest}
    (he : l.Enabled (.send t r)) (hin : l.InRange (.send t r)) : (l.apply (.send t r)).Ranged := by
  have hset := hacc.settled_of_send he hin.inOrder
  have hrun := (not_outstanding hset.1).2
  have hstart : l.accounted = rangeStart r.range := (settled_eq hset.2).trans he.2.2.1.symm
  have hahead := h.unfinished_of_send he hin
  have hfailed := not_failed hset.2
  cases t <;>
  · refine ⟨h.fits, fun hr => ?_, fun t ht => ?_, fun hf => absurd hf hfailed⟩
    · simp [Life.apply, Resting] at hr
    · rcases ht with ht | ht
      · obtain rfl := Option.some.inj ht
        exact ⟨fun _ => ⟨rfl, rfl⟩, fun _ => hstart, (by simp), (by simp), fun _ => hahead⟩
      · exact absurd (hrun.symm.trans ht) (by simp)

/-- A failure is applied, the last of the updates. -/
theorem Ranged.unfinished_of_failed (h : l.Ranged) (hacc : l.Accounts)
    (hhead : l.updates.head? = some .failed) {l' : Life} (hu : l'.updates = l.updates.tail)
    (hb : l'.bytesTransferred = l.bytesTransferred) (ht : l'.bytesTotal = l.bytesTotal) :
    l'.Unfinished := by
  have hleft := h.failure (List.mem_of_mem_head? hhead)
  obtain ⟨us, hus⟩ := List.head?_eq_some_iff.1 hhead
  have htail := hacc.tail_nil hhead
  obtain rfl : us = [] := by simpa [hus] using htail
  simpa [Unfinished, accounted, declared, hu, hb, ht, hus, pendingBytes, lastTotal] using hleft

theorem Ranged.write (h : l.Ranged) (hacc : l.Accounts) {bytesTotal : Option Nat} {chunk : List UInt8}
    {n : Nat} {ok : Bool} (he : l.Enabled (.write bytesTotal chunk n ok))
    (hin : l.InRange (.write bytesTotal chunk n ok)) :
    (l.apply (.write bytesTotal chunk n ok)).Ranged := by
  have haccounted :
    (l.apply (.write bytesTotal chunk n ok)).accounted = l.accounted + if ok then chunk.length else 0 := by
    rw [accounted_apply hacc.booked.bounded he rfl]
    cases ok <;> rfl
  have hdeclared : (l.apply (.write bytesTotal chunk n ok)).declared = bytesTotal.getD l.declared := by
    cases ok <;> simp [Life.apply, declared, lastTotal]
  obtain ⟨⟨t, ht, hf, hreports⟩, hall, -⟩ := he
  obtain ⟨hneeds, hreports⟩ := hreports hacc.overlaps
  have hq := hacc.queued_none ht
  have hc := h.transfer t (.inr ht)
  -- a response that is not taken brings no bytes
  have hempty : ¬ t.HeadersTaken → ok = true → chunk = [] := fun hn hok => by
    have hzero : n = 0 := by
      by_contra hne
      exact hn (hneeds hne)
    exact List.length_eq_zero_iff.1 ((hall hok).symm.trans hzero)
  have hnot := (hacc.working (running_outstanding ht)).2.2
  refine ⟨?_, fun hr => absurd hr (h.not_resting hacc (.inl (running_outstanding ht))), fun t₁ h₁ => ?_,
    fun hf' => ?_⟩
  · show Fits l.bytesTransferred l.bytesTotal
      (l.updates ++ (bytesTotal.map Update.headers).toList ++ if ok then [.data chunk.length] else [])
    rw [List.append_assoc, fits_append]
    exact ⟨h.fits, hc.fits_write hf hreports h.fits.last hempty (hin t ht)⟩
  · obtain rfl :
      { t with bodyStarted := true, body := t.body ++ chunk, writeFailed := !(ok || chunk.isEmpty) } =
        t₁ := by
      simpa [Life.apply, hq, ht] using h₁
    rw [haccounted, hdeclared]
    exact hc.write hf hreports hempty (hin t ht)
  · simp only [Life.apply, List.mem_append] at hf'
    rcases hf' with (hf' | hf') | hf'
    · exact absurd hf' hnot
    · cases bytesTotal <;> simp at hf'
    · cases ok <;> simp at hf'

theorem Ranged.complete (h : l.Ranged) (hacc : l.Accounts) {bytesTotal : Option Nat} {ok : Bool}
    (he : l.Enabled (.complete bytesTotal ok)) (hin : l.InRange (.complete bytesTotal ok)) :
    (l.apply (.complete bytesTotal ok)).Ranged := by
  have haccounted := accounted_apply hacc.booked.bounded he rfl
  obtain ⟨⟨t, ht, hok, hnone⟩, -⟩ := he
  have hq := hacc.queued_none ht
  have hc := h.transfer t (.inr ht)
  have hlacking := hin hacc.overlaps t ht
  have hnot := (hacc.working (running_outstanding ht)).2.2
  have hheaders : Fits l.accounted l.declared (bytesTotal.map Update.headers).toList := by
    cases ok with
    | false =>
      rw [hnone rfl]
      exact h.fits.last
    | true =>
      obtain ⟨hf, hreports⟩ := hok rfl
      refine fits_headers h.fits.last (hc.reports hf (hreports hacc.overlaps).2 fun hb htaken => ?_)
      have hspace := hlacking htaken hb
      rw [Transfer.Lacking, (hc.empty hb).1] at hspace
      exact hspace
  have hlast := hheaders.last
  refine ⟨?_, fun hr => absurd hr (h.not_resting hacc (.inl (running_outstanding ht))), fun t₁ h₁ => ?_,
    fun hf' => ?_⟩
  · show Fits l.bytesTransferred l.bytesTotal
      (l.updates ++ (bytesTotal.map Update.headers).toList ++ [if ok then .completed else .failed])
    rw [List.append_assoc, fits_append, fits_append]
    refine ⟨h.fits, hheaders, ?_⟩
    cases ok <;> exact hlast
  · rcases h₁ with h₁ | h₁
    · exact nomatch hq.symm.trans h₁
    · cases (show none = some t₁ from h₁)
  · cases ok with
    | true =>
      simp only [Life.apply, List.mem_append] at hf'
      rcases hf' with (hf' | hf') | hf'
      · exact absurd hf' hnot
      · cases bytesTotal <;> simp at hf'
      · simp at hf'
    | false =>
      obtain rfl := hnone rfl
      have hdeclared : (l.apply (.complete none false)).declared = l.declared := by
        simp [Life.apply, declared, lastTotal]
      rw [Unfinished, haccounted, hdeclared]
      exact hc.failed fun htaken hb hf => hlacking htaken ⟨hb, hf⟩

/-- **Acts in range keep the counters in range.** -/
theorem Ranged.apply (h : l.Ranged) (hacc : l.Accounts) (he : l.Enabled a) (hin : l.InRange a)
    (hc : cancels a = false) : (l.apply a).terminated = true ∨ (l.apply a).Ranged := by
  have hrunning : ∀ {t}, l.running = some t → ¬ l.Resting :=
    fun ht => h.not_resting hacc (.inl (running_outstanding ht))
  have hupdate : ∀ {u}, l.updates.head? = some u → ¬ l.Resting := fun hu =>
    h.not_resting hacc (.inr fun hn => by simp [hn] at hu)
  cases a with
  | idle => exact .inr h
  | send t r => exact .inr (h.send hacc he hin)
  | sendFailed t called terminates =>
    cases t with
    | start | resume => exact .inr (h.frame rfl rfl rfl (fun _ ht => ht) h.resting)
    | timer | retry => exact .inl he.2
  | skipRequest => exact .inr (h.frame rfl rfl rfl (fun _ ht => ht) (by simp [Life.apply, Resting]))
  | closed => exact .inr (h.frame rfl rfl rfl (by simp [Life.apply, close]) (by simp [Life.apply, Resting]))
  | closeFailed terminates => exact .inl hin
  | finalizeFailed =>
    have hs : l.state = .transferred := he
    refine .inr (h.frame rfl rfl rfl (by simp [Life.apply, close]) fun hr => h.resting ?_)
    rcases hr with ⟨ht, -⟩ | hw
    · exact absurd (hs.symm.trans ht) (by simp)
    · exact .inr hw
  | finalized => cases hc
  | aborted cancelled file =>
    cases cancelled with
    | true => cases hc
    | false => exact .inr (h.frame rfl rfl rfl (by simp [Life.apply]) (by simp [Life.apply, Resting]))
  | drain lost =>
    refine .inr (h.frame rfl rfl rfl (fun t ht => ?_) h.resting)
    simp only [Life.apply, reduceCtorEq, false_or] at ht
    split at ht
    · cases ht
    · split at ht
      exacts [.inr ht, .inl ht]
  | status code =>
    obtain ⟨t, ht, hb⟩ := he
    have happly : l.apply (.status code) = { l with running := some { t with responseCode := code } } := by
      simp [Life.apply, ht]
    rw [happly]
    exact .inr (h.running hacc ht hb hb rfl rfl rfl)
  | header line =>
    obtain ⟨t, ht⟩ := Option.isSome_iff_exists.1 he
    have happly : l.apply (.header line) = { l with running := some (t.noteHeader line) } := by
      simp [Life.apply, ht]
    right
    rw [happly]
    cases hb : t.bodyStarted with
    | true =>
      rw [Transfer.noteHeader, if_pos hb, ← ht]
      exact h
    | false =>
      exact h.running hacc ht hb (by simpa using hb) (by simp [Transfer.startOffset]) (by simp) (by simp)
  | write bytesTotal chunk n ok => exact .inr (h.write hacc he hin)
  | complete bytesTotal ok => exact .inr (h.complete hacc he hin)
  | completeIgnored =>
    obtain ⟨t, ht⟩ := Option.isSome_iff_exists.1 he
    refine .inr (h.frame rfl rfl rfl (fun t' ht' => ?_) fun hr => absurd hr (hrunning ht))
    exact ht'.imp_right (by rintro ⟨⟩)
  | headers bytesTotal => exact .inr (h.pop he.1 rfl rfl rfl rfl rfl (hupdate he.1))
  | data cbData =>
    have hle : l.accounted < 2 ^ 64 := hacc.booked.bounded
    have hhead := pendingBytes_head he.1
    simp only [accounted, pendingBytes, hhead] at hle
    refine .inr (h.pop he.1 rfl ?_ rfl rfl rfl (hupdate he.1))
    exact wrap64_of_lt (by omega)
  | completed => exact .inr (h.pop he.1 rfl rfl rfl rfl rfl (by simp [Life.apply, Resting]))
  | failedOffline =>
    obtain ⟨hout, htail⟩ := hacc.failed he.1
    exact .inr (ranged_of_idle hout htail h.fits.le fun _ => h.unfinished_of_failed hacc he.1 rfl rfl rfl)
  | failedFatal closed =>
    obtain ⟨-, htail⟩ := hacc.failed he.1
    cases closed with
    | true => exact .inr (ranged_of_idle rfl htail h.fits.le (by simp [Life.apply, Resting]))
    | false => exact .inl rfl
  | failedRetry =>
    obtain ⟨hout, htail⟩ := hacc.failed he.1
    exact .inr (ranged_of_idle hout htail h.fits.le fun _ => h.unfinished_of_failed hacc he.1 rfl rfl rfl)
  | timerOffline => exact .inr (ranged_of_idle hin.1 hin.2.1 h.fits.le fun _ => hin.2.2)
  | timerIdle => exact .inr (h.frame rfl rfl rfl (fun _ ht => ht) h.resting)
  | alreadyTransferred => exact .inr (h.frame rfl rfl rfl (fun _ ht => ht) (by simp [Life.apply, Resting]))

/-- What runs in range keep. -/
def RangeKept (l : Life) : Prop := l.terminated = true ∨ l.Over ∨ l.Accounts ∧ l.Ranged

theorem RangeKept.apply (h : l.RangeKept) (ht : l.terminated = false) (he : l.Enabled a) (hin : l.InRange a) :
    (l.apply a).RangeKept := by
  rcases h.resolve_left (by simp [ht]) with ho | ⟨hacc, hranged⟩
  · exact .inr (.inl (ho.apply he))
  cases hc : cancels a with
  | true => exact .inr (.inl (over_of_cancels hc))
  | false =>
    rcases hranged.apply hacc he hin hc with hterm | hranged'
    · exact .inl hterm
    · exact (hacc.apply he hin.inOrder).imp_right (·.imp_right fun hacc' => ⟨hacc', hranged'⟩)

theorem rangeKept_initial : RangeKept {} :=
  .inr (.inr ⟨accounts_initial, ranged_of_idle rfl rfl (Nat.le_refl 0) fun _ => .inl rfl⟩)

end Life

theorem rangeKept_of_inRange {l : Life} (h : Trans.ReachableBy lifeCycle Life.InRange l) : l.RangeKept :=
  h.invariant Life.RangeKept (fun s (hi : s = {}) => hi ▸ Life.rangeKept_initial) fun _ _ _ hk hin hs => by
    obtain ⟨⟨ht, he⟩, rfl⟩ := lifeCycle_step.1 hs
    exact hk.apply ht he hin

/-! ## The agent -/

variable {uri : UriLib} {o : Outside} {w w' w₀ : World} {op : Op} {retry : Bool}

/-- A part of the file is still to come, if any has. -/
def DownloadStatus.Unfinished (s : DownloadStatus) : Prop :=
  s.bytesTransferred = 0 ∨ s.bytesTransferred < s.bytesTotal

/-- A client's Start of a paused download finds no data and no failure still to be
applied; a timer that finds no network finds no transfer, every update applied and a
part of the file still to come; a Pause closes the file. And a response that is taken
declares a length behind the offset it was asked for, brings no byte beyond it, and
falls short of it if the transfer fails or ends without a body. -/
def BringsItsRange (w : World) : Event → Prop
  | .run o =>
    (w.nextOp = some (.client .start) → w.dl.status.state = .paused → w.updatesSettled) ∧
    (w.nextOp = some .transientTimer → o.hasViableInterface = false →
      w.curl.outstanding = false ∧ w.taskQ.updates = [] ∧ w.dl.status.Unfinished) ∧
    (w.nextOp = some (.client .pause) → o.closeErr = none)
  | .curl (.write chunk _ _) =>
    ∀ t, w.curl.active = some t → t.HeadersTaken → t.Within (t.body.length + chunk.length)
  | .curl (.complete curlResult _) => ∀ t, w.curl.active = some t → t.HeadersTaken →
      (if curlResult = 0 then t.bodyStarted = false else t.bodyStarted = true ∧ t.writeFailed = false) →
        t.Lacking
  | _ => True

theorem inRange_of_bringsItsRange {e : Event} {a : Act} (hfrom : a.From w e) (he : w.life.Enabled a)
    (hb : BringsItsRange w e) : w.life.InRange a := by
  cases a with
  | send t r =>
    cases t with
    | resume =>
      obtain ⟨o, rfl, hop⟩ := hfrom
      exact hb.1 hop he.1.1
    | start | timer | retry => trivial
  | skipRequest =>
    obtain ⟨o, rfl, hop⟩ := hfrom
    exact hb.1 hop he.1
  | timerOffline =>
    obtain ⟨o, ⟨rfl, hop⟩, hv⟩ := hfrom
    obtain ⟨hout, hu, hleft⟩ := hb.2.1 hop hv
    exact ⟨hout, hu, (Life.unfinished_iff hu).2 hleft⟩
  | closeFailed terminates =>
    obtain ⟨o, herr, ⟨⟨rfl, hop⟩, -⟩ | ⟨-, hterm⟩⟩ := hfrom
    · exact absurd (hb.2.2 hop) herr
    · exact hterm
  | write bytesTotal chunk n ok =>
    obtain ⟨out, indeterminate, rfl, -⟩ := hfrom
    exact hb
  | complete bytesTotal ok =>
    obtain ⟨curlResult, indeterminate, rfl, hzero, hrefused⟩ := hfrom
    intro ho t ht htaken hend
    refine hb t ht htaken ?_
    cases ok with
    | true =>
      rw [if_pos (hzero rfl)]
      exact hend
    | false =>
      have hc : curlResult ≠ 0 := fun hc => hrefused rfl hc ho t ht htaken.1
      rw [if_neg hc]
      exact hend
  | _ => trivial

/-- What `_SendHttpRequest` relies on when something was transferred already: there is a
total length, it is not reached yet, and the range that is asked for goes from the first
byte not there to the last, with no sum wrapped around and none refused. -/
def DownloadStatus.AsksAhead (s : DownloadStatus) : Prop := s.bytesTransferred ≠ 0 →
  s.bytesTotal ≠ 0 ∧ s.bytesTransferred < s.bytesTotal ∧ s.bytesTotal < 2 ^ 64 ∧
  rangeToRequest s = .ok (some ⟨s.bytesTransferred, s.bytesTotal - 1⟩)

theorem DownloadStatus.Unfinished.asksAhead {s : DownloadStatus} (h : s.Unfinished)
    (ht : s.bytesTotal < 2 ^ 64) :
    s.AsksAhead := fun hne => by
  have hlt := h.resolve_left hne
  refine ⟨by omega, hlt, ht, ?_⟩
  have hlength : wrap64 (s.bytesTotal + 2 ^ 64 - s.bytesTransferred) = s.bytesTotal - s.bytesTransferred := by
    rw [Nat.sub_add_comm hlt.le, wrap64_add, wrap64_of_lt (by omega)]
  rw [rangeToRequest, if_neg hne, hlength, makeRange_of_le hlt.le (Nat.pos_of_ne_zero hne) ht]
  rfl

theorem Calls.status (hc : Calls o w op retry w₀) : w₀.dl.status = w.dl.status := by
  cases hc with
  | start _ _ hset | resume _ _ hset =>
    obtain ⟨_, _, _, _, _, _, _, rfl⟩ := hset.rerouted
    rfl
  | timer | retry => rfl

/-- A run in range finds a part of the file still to come wherever it calls `_SendHttpRequest`. -/
theorem unfinished_of_calls (hg : Good uri w) (hk : w.life.RangeKept) (hstep : step uri w (.run o) = some w')
    (hop : w.nextOp = some op) (hc : Calls o w op retry w₀) : w.dl.status.Unfinished := by
  have hterm : w.terminated = false := (step_leads hg hstep).1
  rcases hk.resolve_left (by simp [World.life, hterm]) with ho | ⟨-, hranged⟩
  · have hover : w.dl.status.state = .finalized ∨ w.dl.status.state = .aborted := ho.state
    have hwaiting : w.dl.status.isTransientError = false := ho.waiting
    cases hc with
    | start hs | resume hs | retry hs => simp [hs] at hover
    | timer _ hw => exact absurd (hw.symm.trans hwaiting) Bool.noConfusion
  have hrest : w.life.Resting → w.dl.status.Unfinished := fun hr => by
    obtain ⟨hu, hleft⟩ := hranged.resting hr
    exact (Life.unfinished_iff hu).1 hleft
  cases hc with
  | start hs =>
    left
    rw [(hg.created hs).2]
  | resume hs hguard =>
    have hle : w.dl.status.bytesTransferred ≤ w.dl.status.bytesTotal := hranged.fits.le
    by_contra hne
    rw [DownloadStatus.Unfinished] at hne
    exact hguard (by omega)
  | timer hv hw => exact hrest (.inr hw)
  | retry hs hact =>
    obtain ⟨⟨task, q⟩, hpop, hretry⟩ := Option.map_eq_some_iff.1 hop
    exact hrest (.inl ⟨hs, hact, hg.orderly.noShortcut hpop (by rw [hretry]; rfl)⟩)

/-- **The range asked for lies ahead**, wherever `_SendHttpRequest` is called in a run
whose responses bring what they declare. -/
theorem range_lies_ahead (h : Trans.ReachableBy (agent uri) BringsItsRange w)
    (hstep : step uri w (.run o) = some w') (hop : w.nextOp = some op) (hc : Calls o w op retry w₀) :
    w₀.dl.status.AsksAhead := by
  have hk := rangeKept_of_inRange <| life_reachableBy (fun _ _ _ => inRange_of_bringsItsRange) h
  have hr := h.reachable
  rw [hc.status]
  exact (unfinished_of_calls (good_reachable hr) hk hstep hop hc).asksAhead (sized_reachable hr).bytesTotal

instance (t : Transfer) (cb : Nat) : Decidable (t.Within cb) := inferInstanceAs (Decidable (_ ∨ _))

instance (t : Transfer) : Decidable t.Lacking := inferInstanceAs (Decidable (_ ∨ _))

instance (s : DownloadStatus) : Decidable s.Unfinished := inferInstanceAs (Decidable (_ ∨ _))

instance : ∀ w e, Decidable (BringsItsRange w e)
  | _, .run _ => inferInstanceAs (Decidable (_ ∧ _ ∧ _))
  | w, .curl (.write ..) => inferInstanceAs (Decidable (∀ t ∈ w.curl.active, _))
  | w, .curl (.complete ..) => inferInstanceAs (Decidable (∀ t ∈ w.curl.active, _))
  | _, .curl (.status _) | _, .curl (.header _) => .isTrue trivial
  | _, .tick _ | _, .request _ | _, .foreign .. | _, .drain => .isTrue trivial

/-- A response with this header line and body, and then an error: up to the retry. -/
def brokenOffRun (header : String) (body : List UInt8) : List Event :=
  [.request .start, .run {}, .drain, .curl (.status 200), .curl (.header header),
    .curl (.write body (.wrote body.length) 0), .curl (.complete 56 0), .run {}, .run {}, .run {},
      .tick 2000000000]

theorem range_lies_ahead_brokenOff : ∃ w w',
    ((agent plainUri).restrict BringsItsRange).runFrom newDownload
    (brokenOffRun "Content-Length: 5" [1, 2]) = some w ∧
    step plainUri w (.run {}) = some w' ∧ w.nextOp = some .retry ∧ w.dl.status.bytesTransferred = 2 ∧
    w.dl.status.AsksAhead := by
  have hrun : (((agent plainUri).restrict BringsItsRange).runFrom newDownload
      (brokenOffRun "Content-Length: 5" [1, 2])).map (fun w => ((step plainUri w (.run {})).isSome, w.nextOp,
        w.dl.status.bytesTransferred, w.dl.status.state, w.dl.fHttpRequestActive)) =
      some (true, some .retry, 2, .transferring, false) := by decide +kernel
  obtain ⟨w, hw, hstates⟩ := Option.map_eq_some_iff.1 hrun
  simp only [Prod.mk.injEq] at hstates
  obtain ⟨hstep, hop, h2, hs, hact⟩ := hstates
  obtain ⟨w', hw'⟩ := Option.isSome_iff_exists.1 hstep
  exact ⟨w, w', hw, hw', hop, h2,
    range_lies_ahead (Trans.reachableBy_of_runFrom reachable_newDownload hw) hw' hop (.retry hs hact)⟩

/-- When the connection breaks off behind the last byte, the retry asks for bytes 3 to 2. -/
theorem range_behind_the_end : ¬ ∀ uri o w w' w₀ op retry, Trans.Reachable (agent uri) w →
    step uri w (.run o) = some w' → w.nextOp = some op → Calls o w op retry w₀ → w₀.dl.status.AsksAhead := by
  intro hall
  have hrun : ((agent plainUri).runFrom newDownload (brokenOffRun "Content-Length: 3" [1, 2, 3])).map
      (fun w => ((step plainUri w (.run {})).isSome, w.nextOp,
        w.dl.status.bytesTransferred, w.dl.status.bytesTotal, w.dl.status.state, w.dl.fHttpRequestActive)) =
      some (true, some .retry, 3, 3, .transferring, false) := by decide +kernel
  obtain ⟨w, hr, hstates⟩ := Trans.reachable_of_replay reachable_newDownload hrun
  simp only [Prod.mk.injEq] at hstates
  obtain ⟨hstep, hop, h3, ht, hs, hact⟩ := hstates
  obtain ⟨w', hw'⟩ := Option.isSome_iff_exists.1 hstep
  have hasks := hall plainUri {} w w' w .retry true hr hw' hop (.retry hs hact)
  have hlt := (hasks (by omega)).2.1
  omega

end DoClient
