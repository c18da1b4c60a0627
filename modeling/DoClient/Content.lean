/-
The content of the destination file against the resource it is downloaded
from, over runs no client resumes: the requests are those of the start, of the
retries and of the timers.
-/
import DoClient.Accounting

namespace DoClient

namespace Life

variable {l : Life} {a : Act} {resource : List UInt8}

/-! ## Runs no client resumes -/

/-- The acts of such runs, a Pause closing the file. -/
def Unresumed : Act → Prop
  | .send .resume _ | .skipRequest => False
  | .closeFailed terminates => terminates = true
  | _ => True

/-- A timer is set when the download waits for the network, with nothing left to apply. -/
structure Lone (l : Life) : Prop where
  timers : l.timers ≤ 1
  idle : 0 < l.timers → l.outstanding = false ∧ l.updates = [] ∧ (l.state = .paused ∨ l.state = .aborted)
  waiting : l.waiting = true → 0 < l.timers
  shortcuts : l.shortcuts = 0

theorem Lone.inOrder (h : l.Lone) (he : l.Enabled a) (hu : Unresumed a) : l.InOrder a := by
  cases a with
  | send t r => cases t <;> first | exact hu.elim | trivial
  | skipRequest => exact hu.elim
  | timerOffline =>
    obtain ⟨hout, hus, -⟩ := h.idle he.1
    exact ⟨hout, by simp [hus]⟩
  | closeFailed => exact hu
  | _ => trivial

/-- With a timer set no transfer runs and no update is there to apply. -/
theorem Lone.timers_zero (h : l.Lone) (hn : l.outstanding = true ∨ l.updates ≠ [] ∨
    l.state ≠ .paused ∧ l.state ≠ .aborted) : l.timers = 0 := by
  by_contra hne
  obtain ⟨hout, hus, hs⟩ := h.idle (Nat.pos_of_ne_zero hne)
  rcases hn with hn | hn | ⟨hp, ha⟩
  · exact absurd (hn.symm.trans hout) Bool.noConfusion
  · exact hn hus
  · exact hs.elim hp ha

theorem lone_of_no_timer (ht : l.timers = 0) (hw : l.waiting = false) (hs : l.shortcuts = 0) : l.Lone :=
  ⟨by omega, fun h => by omega, fun h => absurd (hw.symm.trans h) Bool.noConfusion, hs⟩

theorem ne_nil_of_head {u : Update} (h : l.updates.head? = some u) : l.updates ≠ [] := fun hn => by
  rw [hn] at h; cases h

theorem Lone.apply (h : l.Lone) (hacc : l.Accounts) (he : l.Enabled a) (hu : Unresumed a) :
    (l.apply a).terminated = true ∨ (l.apply a).Over ∨ (l.apply a).Lone := by
  have hnotWaiting : l.timers = 0 → l.waiting = false := fun ht => by
    by_contra hne
    have := h.waiting (by simpa using hne)
    omega
  cases a with
  | idle => exact .inr (.inr h)
  | send t r =>
    have hle := h.timers
    right; right
    cases t with
    | start => exact lone_of_no_timer he.1.2.2.2.2.1 rfl h.shortcuts
    | resume => exact hu.elim
    | timer => exact lone_of_no_timer (by simp only [Life.apply, useTimer]; omega) rfl h.shortcuts
    | retry => exact lone_of_no_timer (h.timers_zero (.inr (.inr (by simp [he.1.1])))) rfl h.shortcuts
  | sendFailed t called terminates =>
    cases t with
    | start | resume => exact .inr (.inr ⟨h.timers, h.idle, h.waiting, h.shortcuts⟩)
    | timer | retry => exact .inl he.2
  | skipRequest => exact hu.elim
  | closed =>
    have hs : l.state = .transferring := he
    exact .inr (.inr (lone_of_no_timer (h.timers_zero (.inr (.inr (by simp [hs])))) rfl h.shortcuts))
  | closeFailed terminates => exact .inl hu
  | finalizeFailed =>
    have hs : l.state = .transferred := he
    have ht := h.timers_zero (.inr (.inr (by simp [hs])))
    exact .inr (.inr (lone_of_no_timer ht (hnotWaiting ht) h.shortcuts))
  | finalized => exact .inr (.inl ⟨.inl rfl, rfl, rfl, rfl, rfl, rfl⟩)
  | aborted cancelled file =>
    right
    cases cancelled with
    | true => exact .inl ⟨.inr rfl, rfl, rfl, rfl, rfl, rfl⟩
    | false => exact .inr ⟨h.timers, fun ht => ⟨rfl, (h.idle ht).2.1, .inr rfl⟩, (by rintro ⟨⟩), h.shortcuts⟩
  | drain lost =>
    exact .inr (.inr ⟨h.timers, fun ht => ⟨outstanding_drain lost (h.idle ht).1, (h.idle ht).2⟩,
      h.waiting, h.shortcuts⟩)
  | header | completeIgnored =>
    have ht := h.timers_zero (.inl (running_outstanding (Option.eq_some_of_isSome he)))
    exact .inr (.inr (lone_of_no_timer ht (hnotWaiting ht) h.shortcuts))
  | status =>
    obtain ⟨t, hrun, -⟩ := he
    have ht := h.timers_zero (.inl (running_outstanding hrun))
    exact .inr (.inr (lone_of_no_timer ht (hnotWaiting ht) h.shortcuts))
  | write =>
    obtain ⟨⟨t, hrun, -⟩, -⟩ := he
    have ht := h.timers_zero (.inl (running_outstanding hrun))
    exact .inr (.inr (lone_of_no_timer ht (hnotWaiting ht) h.shortcuts))
  | complete =>
    obtain ⟨⟨t, hrun, -⟩, -⟩ := he
    have ht := h.timers_zero (.inl (running_outstanding hrun))
    exact .inr (.inr (lone_of_no_timer ht (hnotWaiting ht) h.shortcuts))
  | headers | data =>
    have ht := h.timers_zero (.inr (.inl (ne_nil_of_head he.1)))
    exact .inr (.inr (lone_of_no_timer ht (hnotWaiting ht) h.shortcuts))
  | completed =>
    have ht := h.timers_zero (.inr (.inl (ne_nil_of_head he.1)))
    exact .inr (.inr (lone_of_no_timer ht rfl h.shortcuts))
  | failedOffline =>
    obtain ⟨hout, htail⟩ := hacc.failed he.1
    have ht := h.timers_zero (.inr (.inl (ne_nil_of_head he.1)))
    right; right
    refine ⟨?_, fun _ => ⟨hout, htail, .inl rfl⟩, fun _ => Nat.succ_pos _, h.shortcuts⟩
    simp [Life.apply, goOffline, ht]
  | failedFatal closed =>
    have ht := h.timers_zero (.inr (.inl (ne_nil_of_head he.1)))
    cases closed with
    | true => exact .inr (.inr (lone_of_no_timer ht rfl h.shortcuts))
    | false => exact .inl rfl
  | failedRetry =>
    have ht := h.timers_zero (.inr (.inl (ne_nil_of_head he.1)))
    exact .inr (.inr (lone_of_no_timer ht rfl h.shortcuts))
  | timerOffline =>
    obtain ⟨hout, hus, -⟩ := h.idle he.1
    exact .inr (.inr ⟨h.timers, fun _ => ⟨hout, hus, .inl rfl⟩, fun _ => he.1, h.shortcuts⟩)
  | timerIdle =>
    have hle := h.timers
    have ht : l.timers - 1 = 0 := by omega
    exact .inr (.inr (lone_of_no_timer ht he.1 h.shortcuts))
  | alreadyTransferred =>
    have hs := h.shortcuts
    have : 0 < l.shortcuts := he
    omega

/-! ## The file against the resource -/

/-- The file is a prefix of the resource, and what a transfer has passed on is its end. -/
structure Holds (resource : List UInt8) (l : Life) : Prop where
  file : l.file <+: resource
  body : ∀ t, l.queued = some t ∨ l.running = some t → t.writeFailed = false →
    t.startOffset ≤ l.file.length ∧ l.file.drop t.startOffset = t.body

/-- An accepted response brings the resource from the offset asked for. -/
def Serves (resource : List UInt8) (l : Life) : Act → Prop
  | .write _ chunk _ _ =>
    ∀ t, l.running = some t → t.Accepted → t.body ++ chunk <+: resource.drop t.startOffset
  | _ => True

/-- The same file, and no transfer but one already there. -/
theorem Holds.frame {l' : Life} (h : l.Holds resource) (hfile : l'.file = l.file)
    (hsub : ∀ t, l'.queued = some t ∨ l'.running = some t → l.queued = some t ∨ l.running = some t) :
    l'.Holds resource := by
  refine ⟨hfile ▸ h.file, fun t ht hf => ?_⟩
  rw [hfile]
  exact h.body t (hsub t ht) hf

theorem holds_of_idle {l' : Life} (hfile : l'.file <+: resource) (hq : l'.queued = none)
    (hr : l'.running = none) :
    l'.Holds resource :=
  ⟨hfile, fun t ht => by simp [hq, hr] at ht⟩

/-- A chunk the response brings next goes to the end of the file. -/
theorem Holds.append (h : l.Holds resource) {t : Transfer} {chunk : List UInt8} (hrun : l.running = some t)
    (hf : t.writeFailed = false) (hs : t.body ++ chunk <+: resource.drop t.startOffset) :
    l.file ++ chunk <+: resource ∧ (l.file ++ chunk).drop t.startOffset = t.body ++ chunk := by
  obtain ⟨hle, hbody⟩ := h.body t (.inr hrun) hf
  have hdrop : (l.file ++ chunk).drop t.startOffset = t.body ++ chunk := by
    rw [List.drop_append_of_le_length hle, hbody]
  refine ⟨?_, hdrop⟩
  obtain ⟨rest, hrest⟩ := h.file
  have htake : (l.file ++ chunk).take t.startOffset = resource.take t.startOffset := by
    rw [← hrest, List.take_append_of_le_length hle, List.take_append_of_le_length hle]
  obtain ⟨tail, htail⟩ := hs
  refine ⟨tail, ?_⟩
  calc l.file ++ chunk ++ tail
      = (l.file ++ chunk).take t.startOffset ++ (l.file ++ chunk).drop t.startOffset ++ tail := by
        rw [List.take_append_drop]
    _ = resource.take t.startOffset ++ resource.drop t.startOffset := by
        rw [htake, hdrop, List.append_assoc, htail]
    _ = resource := List.take_append_drop _ _

theorem Holds.over (h : l.Holds resource) (ho : l.Over) (he : l.Enabled a) : (l.apply a).Holds resource := by
  obtain ⟨hq, hr⟩ := not_outstanding (ho.apply he).outstanding
  refine holds_of_idle ?_ hq hr
  cases a with
  | write =>
    obtain ⟨⟨t, hrun, -⟩, -⟩ := he
    exact nomatch (not_outstanding ho.outstanding).2.symm.trans hrun
  | aborted cancelled file => rcases ho.state with hs | hs <;> simp [Enabled, hs] at he
  | send t | sendFailed t => cases t <;> exact h.file
  | failedFatal closed => cases closed <;> exact h.file
  | _ => exact h.file

theorem Holds.apply (h : l.Holds resource) (hacc : l.Accounts) (hx : l.Exact) (he : l.Enabled a)
    (hin : l.InOrder a) (hw : WritesWhole a) (hs : l.Serves resource a) : (l.apply a).Holds resource := by
  cases a with
  | send t r =>
    have hset := hacc.settled_of_send he hin
    have hend : l.bytesTransferred = l.file.length := (settled_eq hset.2).symm.trans hx
    have hrun := (not_outstanding hset.1).2
    have hfile : (l.apply (.send t r)).file = l.file := by cases t <;> rfl
    have hnew : (l.apply (.send t r)).queued = some r.transfer := by cases t <;> rfl
    have hold : (l.apply (.send t r)).running = none := by cases t <;> exact hrun
    have hstart : r.startOffset = l.file.length := he.2.2.1.trans hend
    refine ⟨hfile ▸ h.file, fun t' ht' _ => ?_⟩
    rw [hnew, hold] at ht'
    simp only [Option.some.injEq, reduceCtorEq, or_false] at ht'
    subst ht'
    rw [hfile]
    simp [hstart]
  | sendFailed t => cases t <;> exact h.frame rfl fun _ ht => ht
  | closed | closeFailed | finalizeFailed | finalized => exact holds_of_idle h.file rfl rfl
  | aborted cancelled file =>
    have hfile : file <+: resource := by
      rcases he.2.2 with rfl | ⟨-, rfl⟩
      exacts [h.file, List.nil_prefix]
    cases cancelled <;> exact holds_of_idle hfile rfl rfl
  | drain lost =>
    refine h.frame rfl fun t ht => ?_
    simp only [Life.apply, reduceCtorEq, false_or] at ht
    split at ht
    · cases ht
    · split at ht
      exacts [.inr ht, .inl ht]
  | status code =>
    refine ⟨h.file, fun t ht hf => ?_⟩
    rcases ht with ht | ht
    · exact h.body t (.inl ht) hf
    · simp only [Life.apply, Option.map_eq_some_iff] at ht
      obtain ⟨t₀, ht₀, rfl⟩ := ht
      exact h.body t₀ (.inr ht₀) hf
  | header line =>
    refine ⟨h.file, fun t ht hf => ?_⟩
    rcases ht with ht | ht
    · exact h.body t (.inl ht) hf
    · simp only [Life.apply, Option.map_eq_some_iff] at ht
      obtain ⟨t₀, ht₀, rfl⟩ := ht
      simp only [Transfer.startOffset, Transfer.noteHeader_range, Transfer.noteHeader_body]
      exact h.body t₀ (.inr ht₀) (by simpa using hf)
  | write bytesTotal chunk n ok =>
    obtain ⟨⟨t, hrun, hf, hacc'⟩, hall, -⟩ := he
    have htaken := (hacc' hacc.overlaps).1
    have hq := hacc.queued_none hrun
    have hnew : ∀ t', (l.apply (.write bytesTotal chunk n ok)).queued = some t' ∨
        (l.apply (.write bytesTotal chunk n ok)).running = some t' →
        t' = { t with
          bodyStarted := true, body := t.body ++ chunk,
          writeFailed := !(ok || chunk.isEmpty) } := fun t' ht' => by
      simpa [Life.apply, hq, hrun, eq_comm] using ht'
    cases ok with
    | false =>
      have hfile : (l.apply (.write bytesTotal chunk n false)).file = l.file := by
        show l.file ++ chunk.take n = l.file
        rw [hw rfl, List.take_zero, List.append_nil]
      refine ⟨hfile ▸ h.file, fun t' ht' hf' => ?_⟩
      rw [hnew t' ht'] at hf' ⊢
      -- a refused chunk that was taken for written whole is empty
      have hchunk : chunk = [] := by simpa using hf'
      rw [hfile, hchunk, List.append_nil]
      exact h.body t (.inr hrun) hf
    | true =>
      have hfile : (l.apply (.write bytesTotal chunk n true)).file = l.file ++ chunk := by
        show l.file ++ chunk.take n = l.file ++ chunk
        rw [hall rfl, List.take_length]
      have hgrown :
        l.file ++ chunk <+: resource ∧ (l.file ++ chunk).drop t.startOffset = t.body ++ chunk := by
        by_cases hchunk : chunk = []
        · subst hchunk
          simp only [List.append_nil]
          exact ⟨h.file, (h.body t (.inr hrun) hf).2⟩
        · have hn : n ≠ 0 := by rw [hall rfl]; simpa using hchunk
          exact h.append hrun hf (hs t hrun (htaken hn).1)
      refine ⟨hfile ▸ hgrown.1, fun t' ht' _ => ?_⟩
      rw [hnew t' ht', hfile]
      have hle := (h.body t (.inr hrun) hf).1
      exact ⟨by simp only [Transfer.startOffset, List.length_append] at hle ⊢; omega, hgrown.2⟩
  | complete bytesTotal ok => exact h.frame rfl fun t ht => .inl (by simpa [Life.apply] using ht)
  | completeIgnored => exact h.frame rfl fun t ht => .inl (by simpa [Life.apply] using ht)
  | failedFatal closed => cases closed <;> exact holds_of_idle h.file rfl rfl
  | _ => exact h.frame rfl fun _ ht => ht

/-- What runs no client resumes keep. -/
structure Faithful (resource : List UInt8) (l : Life) : Prop where
  books : l.terminated = true ∨ l.Over ∨ (l.Accounts ∧ l.Exact) ∧ l.Lone
  holds : l.Holds resource

theorem Faithful.apply (h : l.Faithful resource) (ht : l.terminated = false) (he : l.Enabled a)
    (hu : Unresumed a) (hw : WritesWhole a) (hs : l.Serves resource a) : (l.apply a).Faithful resource := by
  rcases h.books.resolve_left (by simp [ht]) with ho | ⟨⟨hacc, hx⟩, hlone⟩
  · exact ⟨.inr (.inl (ho.apply he)), h.holds.over ho he⟩
  · have hin := hlone.inOrder he hu
    refine ⟨?_, h.holds.apply hacc hx he hin hw hs⟩
    rcases hacc.exact_apply hx he hin hw with hterm | ho | hbooks
    · exact .inl hterm
    · exact .inr (.inl ho)
    · exact (hlone.apply hacc he hu).imp_right (·.imp_right fun hl => ⟨hbooks, hl⟩)

theorem faithful_initial : Faithful resource {} :=
  ⟨.inr (.inr ⟨⟨accounts_initial, rfl⟩, lone_of_no_timer rfl rfl rfl⟩), holds_of_idle List.nil_prefix rfl rfl⟩

end Life

/-- Runs no client resumes, of a server that serves the resource, hold a prefix of it. -/
theorem faithful_of_unresumed {resource : List UInt8} {l : Life}
    (h : Trans.ReachableBy lifeCycle (fun l a => Life.Unresumed a ∧ Life.WritesWhole a ∧
      l.Serves resource a) l) :
    l.Faithful resource :=
  h.invariant (Life.Faithful resource) (fun s (hi : s = {}) => hi ▸ Life.faithful_initial)
    fun _ _ _ hk hc hs => by
    obtain ⟨⟨ht, he⟩, rfl⟩ := lifeCycle_step.1 hs
    exact hk.apply ht he hc.1 hc.2.1 hc.2.2

/-! ## The agent -/

variable {uri : UriLib} {w : World}

/-- The bytes of the resource a range asks for. -/
def ByteRange.slice (r : ByteRange) (resource : List UInt8) : List UInt8 :=
  (resource.drop r.first).take (r.last + 1 - r.first)

/-- The ranges a server reads in a request: the line of a range stays in the header list, and
from the second range on a request has several. -/
def Transfer.ranges (t : Transfer) : List ByteRange := t.requestHeaders.filterMap ByteRange.ofHeader

/-- What a server answers, as far as libcurl passes it on: 206 with the slice one of the
`Range` lines asks for, or 200 with the whole resource, cut off anywhere; or a status that
is an error. -/
def ServesResource (resource : List UInt8) (w : World) : Event → Prop
  | .curl (.write chunk _ _) => ∀ t, w.curl.active = some t → t.Accepted →
    (t.responseCode = 206 ∧ ∃ range, t.range = some range ∧
      ∃ r ∈ range :: t.ranges, t.body ++ chunk <+: r.slice resource) ∨
    t.responseCode = 200 ∧ t.body ++ chunk <+: resource
  | _ => True

/-- No client resumes the download, and a Pause closes the file. -/
def Unattended (w : World) : Event → Prop
  | .run o => (w.nextOp = some (.client .start) → w.dl.status.state ≠ .paused) ∧
    (w.nextOp = some (.client .pause) → o.closeErr = none)
  | _ => True

/-- No request for a range is answered by a 200, and one with the line of another range too
is answered for its own. -/
def HonoursRanges (resource : List UInt8) (w : World) : Event → Prop
  | .curl (.write chunk _ _) => ∀ t, w.curl.active = some t → ∀ range, t.range = some range →
    t.responseCode ≠ 200 ∧
    (t.responseCode = 206 → (∃ r ∈ t.ranges, r ≠ range) → t.body ++ chunk <+: range.slice resource)
  | _ => True

instance (resource : List UInt8) : ∀ w e, Decidable (ServesResource resource w e)
  | w, .curl (.write ..) => inferInstanceAs (Decidable (∀ t ∈ w.curl.active, t.Accepted →
      (_ ∧ ∃ range ∈ t.range, ∃ r ∈ range :: t.ranges, _) ∨ _))
  | _, .curl (.status _) | _, .curl (.header _) | _, .curl (.complete ..) => .isTrue trivial
  | _, .tick _ | _, .request _ | _, .foreign .. | _, .run _ | _, .drain => .isTrue trivial

instance : ∀ w e, Decidable (Unattended w e)
  | _, .run _ => inferInstanceAs (Decidable (_ ∧ _))
  | _, .tick _ | _, .request _ | _, .foreign .. | _, .drain | _, .curl _ => .isTrue trivial

instance (resource : List UInt8) : ∀ w e, Decidable (HonoursRanges resource w e)
  | w, .curl (.write ..) => inferInstanceAs (Decidable (∀ t ∈ w.curl.active, ∀ range ∈ t.range,
      _ ∧ (_ → (∃ r ∈ t.ranges, _) → _)))
  | _, .curl (.status _) | _, .curl (.header _) | _, .curl (.complete ..) => .isTrue trivial
  | _, .tick _ | _, .request _ | _, .foreign .. | _, .run _ | _, .drain => .isTrue trivial

theorem unresumed_of_unattended {e : Event} {a : Act} (hfrom : a.From w e) (he : w.life.Enabled a)
    (hu : Unattended w e) : Life.Unresumed a := by
  cases a with
  | send t r =>
    cases t with
    | resume =>
      obtain ⟨o, rfl, hop⟩ := hfrom
      exact hu.1 hop he.1.1
    | start | timer | retry => trivial
  | skipRequest =>
    obtain ⟨o, rfl, hop⟩ := hfrom
    exact hu.1 hop he.1
  | closeFailed terminates =>
    obtain ⟨o, herr, ⟨⟨rfl, hop⟩, -⟩ | ⟨-, hterm⟩⟩ := hfrom
    · exact absurd (hu.2 hop) herr
    · exact hterm
  | _ => trivial

theorem serves_of_servesResource {resource : List UInt8} {e : Event} {a : Act} (hfrom : a.From w e)
    (hs : ServesResource resource w e) (hr : HonoursRanges resource w e) : w.life.Serves resource a := by
  cases a with
  | write bytesTotal chunk n ok =>
    obtain ⟨out, indeterminate, rfl, -⟩ := hfrom
    intro t ht hacc
    rcases hs t ht hacc with ⟨hcode, range, hrange, r, hmem, hslice⟩ | ⟨hcode, hwhole⟩
    · have hown : t.body ++ chunk <+: range.slice resource := by
        by_cases hr' : r = range
        · exact hr' ▸ hslice
        · exact (hr t ht range hrange).2 hcode ⟨r, (List.mem_cons.1 hmem).resolve_left hr', hr'⟩
      simp only [Transfer.startOffset, hrange, rangeStart]
      exact hown.trans (List.take_prefix _ _)
    · have hrange : t.range = none := by
        by_contra hne
        obtain ⟨range, hrange⟩ := Option.ne_none_iff_exists'.1 hne
        exact (hr t ht range hrange).1 hcode
      simpa [Transfer.startOffset, hrange, rangeStart] using hwhole
  | _ => trivial

/-- **The file is a prefix of the resource**, through failures and retries, where every
request for a range is answered for that range. -/
theorem file_prefix_of_resource {resource : List UInt8} (h : Trans.ReachableBy (agent uri) (fun w e =>
      ServesResource resource w e ∧ WritesAllOrNone w e ∧ Unattended w e ∧ HonoursRanges resource w e) w)
    (hne : w.requests ≠ []) : (w.fs w.dl.destFilePath).getD [] <+: resource := by
  have hl : w.life.Faithful resource :=
    faithful_of_unresumed <| life_reachableBy (fun _ _ _ hfrom hen hc => by
    obtain ⟨hserves, hwrites, hunattended, hranges⟩ := hc
    exact ⟨unresumed_of_unattended hfrom hen hunattended, writesWhole_of_allOrNone hfrom hwrites,
      serves_of_servesResource hfrom hserves hranges⟩) h
  have hfile := hl.holds.file
  simp only [World.life, if_neg hne] at hfile
  exact hfile

/-- Two bytes of five, the connection breaks, and the retry's answer brings `rest`. -/
def retriedRun (code : Nat) (header : String) (rest : List UInt8) : List Event :=
  [.request .start, .run {}, .drain, .curl (.status 200), .curl (.header "Content-Length: 5"),
    .curl (.write [1, 2] (.wrote 2) 0), .curl (.complete 56 0), .run {}, .run {}, .run {},
      .tick 2000000000, .run {},
    .drain, .curl (.status code), .curl (.header header), .curl (.write rest (.wrote rest.length) 0)]

/-- The retry brings one byte and breaks too; the next one's answer, which declares `header`, brings `rest`. -/
def retriedTwiceRun (header : String) (rest : List UInt8) : List Event :=
  retriedRun 206 "Content-Range: bytes 2-4/5" [3] ++ [.curl (.complete 56 0), .run {}, .run {}, .run {},
    .tick 4000000000, .run {}, .drain, .curl (.status 206), .curl (.header header),
    .curl (.write rest (.wrote rest.length) 0)]

theorem file_prefix_of_resource_retried : ∃ w,
    ((agent plainUri).restrict fun w e => ServesResource [1, 2, 3, 4, 5] w e ∧ WritesAllOrNone w e ∧
      Unattended w e ∧ HonoursRanges [1, 2, 3, 4, 5] w e).runFrom newDownload
        (retriedTwiceRun "Content-Range: bytes 3-4/5" [4, 5]) = some w ∧
    (w.fs w.dl.destFilePath).getD [] = [1, 2, 3, 4, 5] ∧
    [1, 2, 3, 4, 5] <+: ([1, 2, 3, 4, 5] : List UInt8) := by
  have hrun :
    (((agent plainUri).restrict fun w e => ServesResource [1, 2, 3, 4, 5] w e ∧ WritesAllOrNone w e ∧
      Unattended w e ∧ HonoursRanges [1, 2, 3, 4, 5] w e).runFrom newDownload
        (retriedTwiceRun "Content-Range: bytes 3-4/5" [4, 5])).map
      (fun w => (w.requests.isEmpty, (w.fs w.dl.destFilePath).getD [])) = some (false, [1, 2, 3, 4, 5]) := by
    decide +kernel
  obtain ⟨w, hw, hfile⟩ := Option.map_eq_some_iff.1 hrun
  obtain ⟨hne, hfile⟩ := Prod.mk.inj hfile
  have hprefix := file_prefix_of_resource (Trans.reachableBy_of_runFrom reachable_newDownload hw)
    (by simpa using hne)
  exact ⟨w, hw, hfile, hfile ▸ hprefix⟩

/-- The answer to the retry is the whole resource, appended behind the bytes there. -/
theorem whole_response_appended : ¬ ∀ uri resource w, Trans.ReachableBy (agent uri) (fun w e =>
      ServesResource resource w e ∧ WritesAllOrNone w e ∧ Unattended w e) w → w.requests ≠ [] →
    (w.fs w.dl.destFilePath).getD [] <+: resource := by
  intro hall
  have hrun :
    (((agent plainUri).restrict fun w e => ServesResource [1, 2, 3, 4, 5] w e ∧ WritesAllOrNone w e ∧
      Unattended w e).runFrom newDownload (retriedRun 200 "Content-Length: 5" [1, 2, 3, 4, 5])).map
      (fun w => (w.requests.isEmpty, (w.fs w.dl.destFilePath).getD [])) =
        some (false, [1, 2, 1, 2, 3, 4, 5]) := by
    decide +kernel
  obtain ⟨w, hr, hfile⟩ := Trans.reachableBy_of_replay reachable_newDownload hrun
  obtain ⟨hne, hfile⟩ := Prod.mk.inj hfile
  have hprefix := hall _ _ w hr (by simpa using hne)
  rw [hfile] at hprefix
  exact absurd hprefix (by decide)

/-- The answer to the second retry is the slice its first `Range` line asks for, the one the
header list still has from the first retry: a byte is there twice. -/
theorem earlier_range_appended : ¬ ∀ uri resource w, Trans.ReachableBy (agent uri) (fun w e =>
      ServesResource resource w e ∧ WritesAllOrNone w e ∧ Unattended w e ∧
      ∀ t, w.curl.active = some t → t.range ≠ none → t.responseCode ≠ 200) w → w.requests ≠ [] →
    (w.fs w.dl.destFilePath).getD [] <+: resource := by
  intro hall
  have hrun :
    (((agent plainUri).restrict fun w e => ServesResource [1, 2, 3, 4, 5] w e ∧ WritesAllOrNone w e ∧
      Unattended w e ∧ ∀ t ∈ w.curl.active, t.range ≠ none → t.responseCode ≠ 200).runFrom newDownload
        (retriedTwiceRun "Content-Range: bytes 2-4/5" [3, 4, 5])).map
      (fun w => (w.requests.isEmpty, (w.fs w.dl.destFilePath).getD [])) =
        some (false, [1, 2, 3, 3, 4, 5]) := by
    decide +kernel
  obtain ⟨w, hr, hfile⟩ := Trans.reachableBy_of_replay reachable_newDownload hrun
  obtain ⟨hne, hfile⟩ := Prod.mk.inj hfile
  have hprefix := hall _ _ w hr (by simpa using hne)
  rw [hfile] at hprefix
  exact absurd hprefix (by decide)

end DoClient
