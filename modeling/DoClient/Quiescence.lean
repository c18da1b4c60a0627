/-
What holds of `CurlRequests` in every interleaving, and from it the quiet after
`Remove`: a handle whose `Remove` returned is in no list another thread can see
and none of its callbacks runs, until it is added again.
-/
import DoClient.CurlRequests

namespace DoClient.CurlRequests

variable {H : Type*} {s s' : State H}

/-- `d` is pending or active. -/
def State.Holds (s : State H) (d : HandleData H) : Prop := d ∈ s.handlesToAdd ∨ d ∈ s.activeHandles

/-- The signal of an entry still in the active list has just been raised: the worker, in its
critical section, or the destructor is about to take the entry out. -/
def State.Leaving (s : State H) (d : HandleData H) : Prop :=
  s.worker.current = some (d, .erase) ∨ ∃ rest removed, s.destructor = .removingAll rest removed ∧ d ∉ rest

/-- The destructor against the worker and the active list. -/
def State.DestroyedInOrder (s : State H) : Prop :=
  match s.destructor with
  | .notCalled => s.fKeepRunning = true
  | .joining => s.fKeepRunning = false
  | .removingAll rest removed =>
    s.fKeepRunning = false ∧ s.worker = .exited ∧ (∀ d ∈ rest, d ∈ s.activeHandles) ∧
      rest.Nodup ∧ (∀ d ∈ s.activeHandles, d ∈ rest ∨ d.ticket ∈ s.signaled) ∧
      (∀ d ∈ rest, d.ticket ∉ s.signaled) ∧
      (removed = true → ∀ d ∈ rest.head?, d.easyHandle ∉ s.multiHandle)
  | .clearing | .done => s.fKeepRunning = false ∧ s.worker = .exited ∧ s.activeHandles = []

/-- The invariant. -/
structure Consistent (s : State H) : Prop where
  pendingOnce : s.handlesToAdd.Pairwise fun a b => a.easyHandle ≠ b.easyHandle
  activeOnce : ∀ d ∈ s.activeHandles, ∀ d' ∈ s.activeHandles, d.easyHandle = d'.easyHandle → d = d'
  activeNodup : s.activeHandles.Nodup
  tickets : ∀ d d', s.Holds d → s.Holds d' → d.ticket = d'.ticket → d = d'
  apart : ∀ d ∈ s.handlesToAdd, d ∉ s.activeHandles
  issued : ∀ d, s.Holds d → d.ticket < s.added
  signaledIssued : ∀ t ∈ s.signaled, t < s.added
  unsignaled : ∀ d ∈ s.handlesToAdd, d.ticket ∉ s.signaled
  registered : ∀ h ∈ s.multiHandle, ∃ d ∈ s.activeHandles, d.easyHandle = h ∧ d.ticket ∉ s.signaled
  messages : ∀ h ∈ s.messages, h ∈ s.multiHandle
  current : ∀ d stage, s.worker.current = some (d, stage) → d ∈ s.activeHandles ∧
    (stage = .setEvent ∨ stage = .erase → d.easyHandle ∉ s.multiHandle) ∧
      (stage ≠ .erase → d.ticket ∉ s.signaled)
  leaving : ∀ d ∈ s.activeHandles, d.ticket ∈ s.signaled → s.Leaving d
  destructor : s.DestroyedInOrder
  waits : ∀ h t, s.waits h = some t → (∀ d ∈ s.handlesToAdd, d.easyHandle ≠ h) ∧
    ∀ d ∈ s.activeHandles, d.easyHandle = h → d.ticket = t
  quiet : ∀ h, s.quiet h = true → (∀ d ∈ s.handlesToAdd, d.easyHandle ≠ h) ∧
    ∀ d ∈ s.activeHandles, d.easyHandle = h → d.ticket ∈ s.signaled

theorem consistent_initial : Consistent ({} : State H) where
  pendingOnce := .nil
  activeOnce := nofun
  activeNodup := .nil
  tickets d d' h := by simp [State.Holds] at h
  apart := nofun
  issued d h := by simp [State.Holds] at h
  signaledIssued := nofun
  unsignaled := nofun
  registered := nofun
  messages := nofun
  current := nofun
  leaving := nofun
  destructor := rfl
  waits := nofun
  quiet := nofun

/-! ## The owners -/

theorem not_current_of_free (h : s.worker.holdsLock = false) : s.worker.current = none := by
  cases hw : s.worker <;> simp_all [Worker.holdsLock, Worker.current]

variable [DecidableEq H]

theorem add_ok {h : H} (ha : s.add h = .ok s') :
    s.fKeepRunning = true ∧ (∀ d ∈ s.handlesToAdd, d.easyHandle ≠ h) ∧
    s' = { s with
      handlesToAdd := s.handlesToAdd ++ [⟨h, s.added⟩]
      added := s.added + 1
      quiet := Function.update s.quiet h false
      outstanding := Function.update s.outstanding h (some s.added) } := by
  unfold State.add at ha
  split at ha
  · cases ha
  next hk =>
  cases hf : find h s.handlesToAdd with
  | some d => simp [hf] at ha
  | none =>
    simp only [hf, Option.isSome_none, Bool.false_eq_true, if_false, Except.ok.injEq] at ha
    exact ⟨by simpa using hk, find_none hf, ha.symm⟩

theorem Consistent.add (hs : Consistent s) {h : H} (hw : s.waits h = none) (ha : s.add h = .ok s') :
    Consistent s' := by
  obtain ⟨hk, hnew, rfl⟩ := add_ok ha
  have hmem : ∀ d, d ∈ s.handlesToAdd ++ [⟨h, s.added⟩] ↔ d ∈ s.handlesToAdd ∨ d = ⟨h, s.added⟩ :=
    fun d => by simp
  have hold : ∀ d, State.Holds { s with handlesToAdd := s.handlesToAdd ++ [⟨h, s.added⟩] } d →
      s.Holds d ∨ d = ⟨h, s.added⟩ := by
    rintro d (hd | hd)
    · rcases (hmem d).1 hd with hd | rfl
      exacts [.inl (.inl hd), .inr rfl]
    · exact .inl (.inr hd)
  have hfresh : ∀ d, s.Holds d → d.ticket ≠ s.added := fun d hd => Nat.ne_of_lt (hs.issued d hd)
  refine { hs with
    pendingOnce := ?_, tickets := ?_, apart := ?_, issued := ?_, signaledIssued := ?_, unsignaled := ?_,
    waits := ?_, quiet := ?_ }
  · refine List.pairwise_append.2 ⟨hs.pendingOnce, List.pairwise_singleton _ _, fun a ha b hb => ?_⟩
    obtain rfl := List.mem_singleton.1 hb
    exact hnew a ha
  · intro d d' hd hd' heq
    rcases hold d hd with hd | rfl <;> rcases hold d' hd' with hd' | rfl
    · exact hs.tickets d d' hd hd' heq
    · exact absurd heq (hfresh d hd)
    · exact absurd heq.symm (hfresh d' hd')
    · rfl
  · intro d hd hact
    rcases (hmem d).1 hd with hd | rfl
    · exact hs.apart d hd hact
    · exact hfresh _ (.inr hact) rfl
  · intro d hd
    rcases hold d hd with hd | rfl
    · exact Nat.lt_succ_of_lt (hs.issued d hd)
    · exact Nat.lt_succ_self _
  · exact fun t ht => Nat.lt_succ_of_lt (hs.signaledIssued t ht)
  · intro d hd
    rcases (hmem d).1 hd with hd | rfl
    · exact hs.unsignaled d hd
    · exact fun ht => Nat.lt_irrefl _ (hs.signaledIssued _ ht)
  · intro h' t ht
    refine ⟨fun d hd => ?_, (hs.waits h' t ht).2⟩
    rcases (hmem d).1 hd with hd | rfl
    · exact (hs.waits h' t ht).1 d hd
    · rintro rfl
      exact nomatch hw.symm.trans ht
  · intro h' hq
    have hne : h' ≠ h := by
      rintro rfl
      simp at hq
    simp only [Function.update_of_ne hne] at hq
    refine ⟨fun d hd => ?_, (hs.quiet h' hq).2⟩
    rcases (hmem d).1 hd with hd | rfl
    exacts [(hs.quiet h' hq).1 d hd, hne.symm]

omit [DecidableEq H] in
/-- A state that differs in what the invariant does not speak of, and in owners that wait and are told. -/
theorem Consistent.owners (hs : Consistent s) {waits : H → Option Nat} {quiet : H → Bool}
    (outstanding : H → Option Nat) (hwaits : ∀ h t, waits h = some t → s.waits h = some t)
    (hquiet : ∀ h, quiet h = true → s.quiet h = true ∨ (∀ d ∈ s.handlesToAdd, d.easyHandle ≠ h) ∧
      ∀ d ∈ s.activeHandles, d.easyHandle = h → d.ticket ∈ s.signaled) :
    Consistent { s with waits := waits, quiet := quiet, outstanding := outstanding } :=
  { hs with
    waits := fun h t ht => hs.waits h t (hwaits h t ht)
    quiet := fun h hq => (hquiet h hq).elim (hs.quiet h) id }

theorem update_none (waits : H → Option Nat) (h : H) :
    ∀ h' t, Function.update waits h none h' = some t → waits h' = some t := by
  intro h' t ht
  by_cases heq : h' = h
  · subst heq
    simp at ht
  · rwa [Function.update_of_ne heq] at ht

theorem update_true {quiet : H → Bool} {h h' : H} (hq : Function.update quiet h true h' = true) :
    quiet h' = true ∨ h' = h := by
  by_cases heq : h' = h
  · exact .inr heq
  · rw [Function.update_of_ne heq] at hq
    exact .inl hq

/-- The handle's pending entry is dropped. -/
theorem Consistent.dropPending (hs : Consistent s) (h : H) (removed : List Nat) : Consistent { s with
    handlesToAdd := s.handlesToAdd.filter (·.easyHandle ≠ h), removed := removed } := by
  have hsub : ∀ d ∈ s.handlesToAdd.filter (·.easyHandle ≠ h), d ∈ s.handlesToAdd :=
    fun d hd => (List.mem_filter.1 hd).1
  have hholds :
    ∀ d, State.Holds { s with handlesToAdd := s.handlesToAdd.filter (·.easyHandle ≠ h) } d → s.Holds d :=
    fun d hd => hd.imp_left (hsub d)
  exact { hs with
    pendingOnce := hs.pendingOnce.filter _
    tickets := fun d d' hd hd' => hs.tickets d d' (hholds d hd) (hholds d' hd')
    apart := fun d hd => hs.apart d (hsub d hd)
    issued := fun d hd => hs.issued d (hholds d hd)
    unsignaled := fun d hd => hs.unsignaled d (hsub d hd)
    waits := fun h' t ht => ⟨fun d hd => (hs.waits h' t ht).1 d (hsub d hd), (hs.waits h' t ht).2⟩
    quiet := fun h' hq => ⟨fun d hd => (hs.quiet h' hq).1 d (hsub d hd), (hs.quiet h' hq).2⟩ }

theorem Consistent.remove (hs : Consistent s) (h : H) : Consistent (s.remove h) := by
  have hdrop := hs.dropPending h (CurlRequests.tickets h (s.handlesToAdd ++ s.activeHandles) ++ s.removed)
  have hnone : ∀ d ∈ s.handlesToAdd.filter (·.easyHandle ≠ h), d.easyHandle ≠ h := fun d hd => by
    simpa using (List.mem_filter.1 hd).2
  cases hf : find h s.activeHandles with
  | none =>
    simp only [State.remove, hf]
    refine hdrop.owners (Function.update s.outstanding h none) (update_none s.waits h) fun h' hq => ?_
    refine (update_true hq).imp_right ?_
    rintro rfl
    exact ⟨hnone, fun d hd hh => absurd hh (find_none hf d hd)⟩
  | some d =>
    obtain ⟨hd, rfl⟩ := find_some hf
    simp only [State.remove, hf]
    refine { hdrop with waits := fun h' t ht => ?_ }
    by_cases heq : h' = d.easyHandle
    · subst heq
      simp only [Function.update_self, Option.some.injEq] at ht
      exact ⟨hnone, fun d' hd' hh => by rw [hs.activeOnce d' hd' d hd hh, ht]⟩
    · simp only [Function.update_of_ne heq] at ht
      exact hdrop.waits h' t ht

/-- The event an owner waits for is set: its handle is quiet. -/
theorem Consistent.removeReturns (hs : Consistent s) {h : H} {t : Nat} (hw : s.waits h = some t)
    (ht : t ∈ s.signaled) :
    Consistent { s.returned h with quiet := Function.update s.quiet h true } := by
  refine hs.owners _ (update_none s.waits h) fun h' hq => (update_true hq).imp_right ?_
  rintro rfl
  obtain ⟨hpending, hactive⟩ := hs.waits _ _ hw
  exact ⟨hpending, fun d hd heq => hactive d hd heq ▸ ht⟩

/-! ## The worker -/

section Worker
omit [DecidableEq H]

/-- While the worker runs the destructor does no more than wait for it. -/
theorem Consistent.joined (hs : Consistent s) (hw : s.worker ≠ .exited) :
    s.destructor = .notCalled ∨ s.destructor = .joining := by
  have hd := hs.destructor
  unfold State.DestroyedInOrder at hd
  split at hd
  · next h => exact .inl h
  · next h => exact .inr h
  · exact absurd hd.2.1 hw
  · exact absurd hd.2.1 hw
  · exact absurd hd.2.1 hw

theorem Consistent.destructor_of_live (hs : Consistent s) (hw : s.worker ≠ .exited)
    (hk : s'.fKeepRunning = s.fKeepRunning) (hd : s'.destructor = s.destructor) : s'.DestroyedInOrder := by
  have hold := hs.destructor
  unfold State.DestroyedInOrder at hold ⊢
  rcases hs.joined hw with h | h
  · simp only [h, hd, hk] at hold ⊢
    exact hold
  · simp only [h, hd, hk] at hold ⊢
    exact hold

/-- A signal that is raised is that of the entry in hand. -/
theorem Consistent.leaving_worker (hs : Consistent s) (hw : s.worker ≠ .exited) {d : HandleData H}
    (hd : d ∈ s.activeHandles) (ht : d.ticket ∈ s.signaled) : s.worker.current = some (d, .erase) := by
  refine (hs.leaving d hd ht).resolve_right ?_
  rintro ⟨rest, removed, hde, -⟩
  rcases hs.joined hw with h | h
  · rw [h] at hde; cases hde
  · rw [h] at hde; cases hde

theorem ne_exited_of_current {entry : HandleData H × Stage} (h : s.worker.current = some entry) :
    s.worker ≠ .exited := by
  intro hw
  rw [hw] at h
  cases h

/-- The worker goes on to a place where no entry is in hand. -/
theorem Consistent.moves (hs : Consistent s) {worker : Worker H} (hnow : s.worker.current = none)
    (hnext : worker.current = none) (hw : s.worker ≠ .exited) {messages : List H}
    (hmessages : ∀ h ∈ messages, h ∈ s.multiHandle) {handlesToRemove : List H} :
    Consistent { s with worker := worker, messages := messages, handlesToRemove := handlesToRemove } :=
  { hs with
    messages := hmessages
    current := fun _ _ hc => nomatch hnext.symm.trans hc
    leaving := fun _ hd ht => nomatch hnow.symm.trans (hs.leaving_worker hw hd ht)
    destructor := hs.destructor_of_live hw rfl rfl }

/-- The worker takes up an entry. -/
theorem Consistent.takes (hs : Consistent s) {worker : Worker H} (hnow : s.worker.current = none)
    {d : HandleData H} (hd : d ∈ s.activeHandles) {stage : Stage} (hnext : worker.current = some (d, stage))
    (hstage : stage = .callback ∨ stage = .removeHandle) (hw : s.worker ≠ .exited) {messages : List H}
    (hmessages : ∀ h ∈ messages, h ∈ s.multiHandle) :
    Consistent { s with worker := worker, messages := messages } := by
  have hunsignaled : d.ticket ∉ s.signaled := fun ht => nomatch hnow.symm.trans (hs.leaving_worker hw hd ht)
  refine { hs with
    messages := hmessages, current := ?_, leaving := ?_, destructor := hs.destructor_of_live hw rfl rfl }
  · intro d' stage' hc
    obtain ⟨rfl, rfl⟩ : d = d' ∧ stage = stage' := by simpa using hnext.symm.trans hc
    refine ⟨hd, fun h => ?_, fun _ => hunsignaled⟩
    rcases hstage with rfl | rfl <;> simp at h
  · exact fun d' hd' ht => nomatch hnow.symm.trans (hs.leaving_worker hw hd' ht)

end Worker

/-- One statement of `Complete` or `_Remove`. -/
theorem Consistent.runStage (hs : Consistent s) {d : HandleData H} {stage : Stage}
    (hc : s.worker.current = some (d, stage)) {worker : Worker H}
    (hnext : worker.current = (s.runStage d stage).2) :
    Consistent { (s.runStage d stage).1 with worker := worker } := by
  have hw := ne_exited_of_current hc
  obtain ⟨hd, hmulti, hsignal⟩ := hs.current d stage hc
  have honly : ∀ d' ∈ s.activeHandles, d'.ticket ∈ s.signaled → d' = d ∧ stage = .erase := fun d' hd' ht => by
    have hcur := hc.symm.trans (hs.leaving_worker hw hd' ht)
    simp only [Option.some.injEq, Prod.mk.injEq] at hcur
    exact ⟨hcur.1.symm, hcur.2⟩
  cases stage with
  | callback =>
    refine { hs with current := ?_, leaving := ?_, destructor := hs.destructor_of_live hw rfl rfl }
    · intro d' stage' hc'
      obtain ⟨rfl, rfl⟩ : d = d' ∧ Stage.removeHandle = stage' := by
        simpa [State.runStage] using hnext.symm.trans hc'
      exact ⟨hd, by simp, fun _ => hsignal nofun⟩
    · exact fun d' hd' ht => nomatch (honly d' hd' ht).2
  | removeHandle =>
    refine { hs with
      registered := ?_, messages := ?_, current := ?_, leaving := ?_,
      destructor := hs.destructor_of_live hw rfl rfl }
    · exact fun h hh => hs.registered h (List.mem_filter.1 hh).1
    · intro h hh
      obtain ⟨hh, hne⟩ := List.mem_filter.1 hh
      exact List.mem_filter.2 ⟨hs.messages h hh, hne⟩
    · intro d' stage' hc'
      obtain ⟨rfl, rfl⟩ : d = d' ∧ Stage.setEvent = stage' := by
        simpa [State.runStage] using hnext.symm.trans hc'
      exact ⟨hd, fun _ => by simp [State.runStage, State.curlMultiRemoveHandle], fun _ => hsignal nofun⟩
    · exact fun d' hd' ht => nomatch (honly d' hd' ht).2
  | setEvent =>
    have hgone : d.easyHandle ∉ s.multiHandle := hmulti (.inl rfl)
    refine { hs with
      signaledIssued := ?_, unsignaled := ?_, registered := ?_, current := ?_, leaving := ?_, quiet := ?_
      destructor := hs.destructor_of_live hw rfl rfl }
    · intro t ht
      rcases List.mem_cons.1 ht with rfl | ht
      exacts [hs.issued d (.inr hd), hs.signaledIssued t ht]
    · intro d' hd' ht
      rcases List.mem_cons.1 ht with heq | ht
      · obtain rfl := hs.tickets d' d (.inl hd') (.inr hd) heq
        exact hs.apart d' hd' hd
      · exact hs.unsignaled d' hd' ht
    · intro h hh
      obtain ⟨d', hd', rfl, hun⟩ := hs.registered h hh
      refine ⟨d', hd', rfl, fun ht => ?_⟩
      rcases List.mem_cons.1 ht with heq | ht
      · obtain rfl := hs.tickets d' d (.inr hd') (.inr hd) heq
        exact hgone hh
      · exact hun ht
    · intro d' stage' hc'
      obtain ⟨rfl, rfl⟩ : d = d' ∧ Stage.erase = stage' := by
        simpa [State.runStage] using hnext.symm.trans hc'
      exact ⟨hd, fun _ => hgone, by simp⟩
    · intro d' hd' ht
      rcases List.mem_cons.1 ht with heq | ht
      · obtain rfl := hs.tickets d' d (.inr hd') (.inr hd) heq
        exact .inl hnext
      · exact nomatch (honly d' hd' ht).2
    · exact fun h hq =>
        ⟨(hs.quiet h hq).1, fun d' hd' hh => List.mem_cons_of_mem _ ((hs.quiet h hq).2 d' hd' hh)⟩
  | erase =>
    have hgone : d.easyHandle ∉ s.multiHandle := hmulti (.inr rfl)
    have hsub : ∀ d' ∈ s.activeHandles.filter (· ≠ d), d' ∈ s.activeHandles ∧ d' ≠ d := fun d' hd' => by
      simpa using List.mem_filter.1 hd'
    have hholds : ∀ d', State.Holds (s.runStage d .erase).1 d' → s.Holds d' :=
      fun d' => Or.imp_right fun h => (hsub d' h).1
    refine { hs with
      activeOnce := fun a ha b hb => hs.activeOnce a (hsub a ha).1 b (hsub b hb).1
      activeNodup := hs.activeNodup.filter _
      tickets := fun a b ha hb => hs.tickets a b (hholds a ha) (hholds b hb)
      apart := fun a ha hb => hs.apart a ha (hsub a hb).1
      issued := fun a ha => hs.issued a (hholds a ha)
      registered := ?_
      current := fun d' stage' hc' => nomatch hnext.symm.trans hc'
      leaving := ?_
      destructor := hs.destructor_of_live hw rfl rfl
      waits := fun h t ht => ⟨(hs.waits h t ht).1, fun a ha => (hs.waits h t ht).2 a (hsub a ha).1⟩
      quiet := fun h hq => ⟨(hs.quiet h hq).1, fun a ha => (hs.quiet h hq).2 a (hsub a ha).1⟩ }
    · intro h hh
      obtain ⟨d', hd', rfl, hun⟩ := hs.registered h hh
      refine ⟨d', List.mem_filter.2 ⟨hd', ?_⟩, rfl, hun⟩
      have hne : d' ≠ d := fun heq => hgone (heq ▸ hh)
      simpa using hne
    · intro d' hd' ht
      exact absurd (honly d' (hsub d' hd').1 ht).1 (hsub d' hd').2

omit [DecidableEq H] in
/-- `_handlesToAdd` is taken up. -/
theorem Consistent.pass (hs : Consistent s) (hnow : s.worker.current = none) (hw : s.worker ≠ .exited)
    (ha : Activates s.handlesToAdd s s') (rest : List H) :
    Consistent { s' with handlesToAdd := [], worker := .removing none rest } := by
  have hsub : ∀ d ∈ s'.activeHandles, s.Holds d := fun d hd => (ha.active d hd).symm.imp And.left id
  have hold : ∀ d ∈ s'.activeHandles, d.ticket ∈ s.signaled → d ∈ s.activeHandles := fun d hd ht =>
    (ha.active d hd).resolve_right fun h => hs.unsignaled d h.1 ht
  have hholds : ∀ d, State.Holds { s' with handlesToAdd := [] } d → s.Holds d := by
    rintro d (hd | hd)
    · cases hd
    · exact hsub d hd
  have hsame := ha.same
  generalize s'.activeHandles = active at *
  generalize s'.multiHandle = multi at *
  subst hsame
  refine { hs with
    pendingOnce := .nil
    activeOnce := ha.once hs.activeOnce
    activeNodup := ha.nodup hs.activeNodup
    tickets := fun a b hA hB => hs.tickets a b (hholds a hA) (hholds b hB)
    apart := nofun
    issued := fun a hA => hs.issued a (hholds a hA)
    unsignaled := nofun
    registered := ?_
    messages := fun h hh => ha.registeredKept h (hs.messages h hh)
    current := nofun
    leaving := fun d hd ht => nomatch hnow.symm.trans (hs.leaving_worker hw (hold d hd ht) ht)
    destructor := hs.destructor_of_live hw rfl rfl
    waits := ?_
    quiet := ?_ }
  · intro h hh
    rcases ha.registered h hh with hh | ⟨d, hd, hact, rfl⟩
    · obtain ⟨d, hd, rfl, hun⟩ := hs.registered h hh
      exact ⟨d, ha.kept d hd, rfl, hun⟩
    · exact ⟨d, hact, rfl, hs.unsignaled d hd⟩
  · intro h t ht
    refine ⟨nofun, fun d hd hh => ?_⟩
    rcases hsub d hd with hd | hd
    · exact absurd hh ((hs.waits h t ht).1 d hd)
    · exact (hs.waits h t ht).2 d hd hh
  · intro h hq
    refine ⟨nofun, fun d hd hh => ?_⟩
    rcases hsub d hd with hd | hd
    · exact absurd hh ((hs.quiet h hq).1 d hd)
    · exact (hs.quiet h hq).2 d hd hh

theorem Consistent.workerStep (hs : Consistent s) (h : s.workerStep = some s') : Consistent s' := by
  unfold State.workerStep at h
  split at h
  · next hw =>
    split at h
    · simp only [Option.some.injEq] at h
      subst h
      exact hs.moves (by rw [hw]; rfl) rfl (by rw [hw]; nofun) hs.messages
    · simp only [Option.some.injEq] at h
      subst h
      exact hs.pass (by rw [hw]; rfl) (by rw [hw]; nofun) (foldl_activate s.handlesToAdd s) _
  · next h' rest hw =>
    simp only [Option.some.injEq] at h
    subst h
    cases hf : find h' s.activeHandles with
    | none => exact hs.moves (by rw [hw]; rfl) rfl (by rw [hw]; nofun) hs.messages
    | some d =>
      exact hs.takes (by rw [hw]; rfl) (find_some hf).1 rfl (.inr rfl) (by rw [hw]; nofun) hs.messages
  · next hw =>
    simp only [Option.some.injEq] at h
    subst h
    refine hs.moves (by rw [hw]; rfl) ?_ (by rw [hw]; nofun) hs.messages
    split <;> rfl
  · next d stage rest hw =>
    simp only [Option.some.injEq] at h
    subst h
    exact hs.runStage (by rw [hw]; rfl) rfl
  · next hw =>
    split at h
    · simp only [Option.some.injEq] at h
      subst h
      exact hs.moves (by rw [hw]; rfl) rfl (by rw [hw]; nofun) hs.messages
    · cases h
  · next hw =>
    simp only [Option.some.injEq] at h
    subst h
    exact hs.moves (by rw [hw]; rfl) rfl (by rw [hw]; nofun) hs.messages
  · next hw =>
    split at h
    · simp only [Option.some.injEq] at h
      subst h
      exact hs.moves (by rw [hw]; rfl) rfl (by rw [hw]; nofun) hs.messages
    · next h' rest hm =>
      simp only [Option.map_eq_some_iff] at h
      obtain ⟨d, hf, rfl⟩ := h
      refine hs.takes (by rw [hw]; rfl) (find_some hf).1 rfl (.inl rfl) (by rw [hw]; nofun) fun h'' hh => ?_
      exact hs.messages h'' (by rw [hm]; exact List.mem_cons_of_mem _ hh)
  · next d stage hw =>
    simp only [Option.some.injEq] at h
    subst h
    exact hs.runStage (by rw [hw]; rfl) rfl
  · cases h

/-! ## The destructor -/

theorem Consistent.destructorStep (hs : Consistent s) (h : s.destructorStep = some s') : Consistent s' := by
  have hdes := hs.destructor
  unfold State.destructorStep at h
  unfold State.DestroyedInOrder at hdes
  split at h
  · next hde =>
    simp only [hde] at hdes
    split at h
    · cases h
    next hfree =>
    have hnow := not_current_of_free (Bool.not_eq_true _ ▸ hfree)
    simp only [Option.some.injEq] at h
    subst h
    refine { hs with leaving := fun d hd ht => (hs.leaving d hd ht).imp id ?_, destructor := rfl }
    rintro ⟨rest, removed, hde', -⟩
    exact nomatch hde.symm.trans hde'
  · next hde =>
    simp only [hde] at hdes
    split at h
    · next hw =>
      have hnone : ∀ d ∈ s.activeHandles, d.ticket ∉ s.signaled := fun d hd ht => by
        rcases hs.leaving d hd ht with hc | ⟨rest, removed, hde', -⟩
        · rw [hw] at hc; cases hc
        · rw [hde] at hde'; cases hde'
      simp only [Option.some.injEq] at h
      subst h
      refine { hs with leaving := fun d hd ht => absurd ht (hnone d hd), destructor := ?_ }
      exact ⟨hdes, hw, fun _ => id, hs.activeNodup, fun d hd => .inl hd, hnone, nofun⟩
    · cases h
  · next entry rest hde =>
    simp only [hde] at hdes
    obtain ⟨hk, hw, hsub, hnodup, hall, hun, -⟩ := hdes
    have hidle : s.worker.current = none := by rw [hw]; rfl
    simp only [Option.some.injEq] at h
    subst h
    refine { hs with registered := ?_, messages := ?_, current := ?_, leaving := ?_, destructor := ?_ }
    · exact fun h hh => hs.registered h (List.mem_filter.1 hh).1
    · intro h hh
      obtain ⟨hh, hne⟩ := List.mem_filter.1 hh
      exact List.mem_filter.2 ⟨hs.messages h hh, hne⟩
    · exact fun d stage hc => nomatch hidle.symm.trans hc
    · intro d hd ht
      rcases hs.leaving d hd ht with hc | ⟨rest', removed, hde', hr⟩
      · exact .inl hc
      · rw [hde] at hde'
        cases hde'
        exact .inr ⟨_, _, rfl, hr⟩
    · refine ⟨hk, hw, hsub, hnodup, hall, hun, fun _ d hd => ?_⟩
      obtain rfl : entry = d := by simpa using hd
      simp [State.curlMultiRemoveHandle]
  · next entry rest hde =>
    simp only [hde] at hdes
    obtain ⟨hk, hw, hsub, hnodup, hall, hun, hgone⟩ := hdes
    have hidle : s.worker.current = none := by rw [hw]; rfl
    obtain ⟨hentry, hnodup⟩ := List.nodup_cons.1 hnodup
    have hact : entry ∈ s.activeHandles := hsub entry List.mem_cons_self
    have hticket : ∀ d, s.Holds d → d.ticket = entry.ticket → d = entry :=
      fun d hd => hs.tickets d entry hd (.inr hact)
    simp only [Option.some.injEq] at h
    subst h
    refine { hs with
      signaledIssued := ?_, unsignaled := ?_, registered := ?_, current := ?_, leaving := ?_,
      destructor := ?_, quiet := ?_ }
    · intro t ht
      rcases List.mem_cons.1 ht with rfl | ht
      exacts [hs.issued entry (.inr hact), hs.signaledIssued t ht]
    · intro d hd ht
      rcases List.mem_cons.1 ht with heq | ht
      · obtain rfl := hticket d (.inl hd) heq
        exact hs.apart d hd hact
      · exact hs.unsignaled d hd ht
    · intro h hh
      obtain ⟨d, hd, rfl, hd'⟩ := hs.registered h hh
      refine ⟨d, hd, rfl, fun ht => ?_⟩
      rcases List.mem_cons.1 ht with heq | ht
      · obtain rfl := hticket d (.inr hd) heq
        exact hgone trivial d rfl hh
      · exact hd' ht
    · exact fun d stage hc => nomatch hidle.symm.trans hc
    · intro d hd ht
      refine .inr ⟨rest, false, rfl, fun hr => ?_⟩
      rcases List.mem_cons.1 ht with heq | ht
      · obtain rfl := hticket d (.inr hd) heq
        exact hentry hr
      · exact hun d (List.mem_cons_of_mem _ hr) ht
    · refine ⟨hk, hw, fun d hd => hsub d (List.mem_cons_of_mem _ hd), hnodup, fun d hd => ?_,
        fun d hd ht => ?_, nofun⟩
      · rcases hall d hd with hd | hd
        · rcases List.mem_cons.1 hd with rfl | hd
          exacts [.inr List.mem_cons_self, .inl hd]
        · exact .inr (List.mem_cons_of_mem _ hd)
      · rcases List.mem_cons.1 ht with heq | ht
        · obtain rfl := hticket d (.inr (hsub d (List.mem_cons_of_mem _ hd))) heq
          exact hentry hd
        · exact hun d (List.mem_cons_of_mem _ hd) ht
    · exact fun h hq => ⟨(hs.quiet h hq).1, fun d hd hh => List.mem_cons_of_mem _ ((hs.quiet h hq).2 d hd hh)⟩
  · next hde =>
    simp only [hde] at hdes
    obtain ⟨hk, hw, -, -, hall, -, -⟩ := hdes
    have hidle : s.worker.current = none := by rw [hw]; rfl
    have hempty : ∀ h, h ∉ s.multiHandle := fun h hh => by
      obtain ⟨d, hd, -, hun⟩ := hs.registered h hh
      exact hun ((hall d hd).resolve_left nofun)
    have hpending : ∀ d, State.Holds { s with activeHandles := [] } d → d ∈ s.handlesToAdd := fun d hd =>
      hd.resolve_right nofun
    simp only [Option.some.injEq] at h
    subst h
    exact { hs with
      activeOnce := nofun
      activeNodup := .nil
      tickets := fun a b ha hb => hs.tickets a b (.inl (hpending a ha)) (.inl (hpending b hb))
      apart := fun _ _ => nofun
      issued := fun a ha => hs.issued a (.inl (hpending a ha))
      registered := fun h hh => absurd hh (hempty h)
      current := fun d stage hc => nomatch hidle.symm.trans hc
      leaving := nofun
      destructor := ⟨hk, hw, rfl⟩
      waits := fun h t ht => ⟨(hs.waits h t ht).1, nofun⟩
      quiet := fun h hq => ⟨(hs.quiet h hq).1, nofun⟩ }
  · next hde =>
    simp only [hde] at hdes
    have hactive : ∀ d, State.Holds { s with handlesToAdd := [] } d → d ∈ s.activeHandles := fun d hd =>
      hd.resolve_left nofun
    simp only [Option.some.injEq] at h
    subst h
    exact { hs with
      pendingOnce := .nil
      tickets := fun a b ha hb => hs.tickets a b (.inr (hactive a ha)) (.inr (hactive b hb))
      apart := nofun
      issued := fun a ha => hs.issued a (.inr (hactive a ha))
      unsignaled := nofun
      leaving := fun d hd => absurd (hdes.2.2 ▸ hd) List.not_mem_nil
      destructor := hdes
      waits := fun h t ht => ⟨nofun, (hs.waits h t ht).2⟩
      quiet := fun h hq => ⟨nofun, (hs.quiet h hq).2⟩ }
  · cases h

/-! ## Runs -/

theorem Consistent.step (hs : Consistent s) {e : Event H} (h : step s e = some s') : Consistent s' := by
  cases e with
  | add h' =>
    simp only [CurlRequests.step] at h
    split at h
    · cases h
    next hfree =>
    simp only [not_or, Option.not_isSome_iff_eq_none] at hfree
    split at h
    · next ha =>
      simp only [Option.some.injEq] at h
      subst h
      exact hs.add hfree.2.1 ha
    · simp only [Option.some.injEq] at h
      exact h ▸ hs
  | remove h' =>
    simp only [CurlRequests.step] at h
    split at h
    · cases h
    · simp only [Option.some.injEq] at h
      exact h ▸ hs.remove h'
  | removeReturns h' =>
    simp only [CurlRequests.step, Option.bind_eq_some_iff] at h
    obtain ⟨t, hw, h⟩ := h
    split at h
    · next ht =>
      simp only [Option.some.injEq] at h
      exact h ▸ hs.removeReturns hw ht
    · cases h
  | removeTimesOut h' =>
    simp only [CurlRequests.step, Option.map_eq_some_iff] at h
    obtain ⟨t, hw, rfl⟩ := h
    exact hs.owners _ (update_none s.waits h') fun _ => .inl
  | worker => exact hs.workerStep h
  | callback h' =>
    simp only [CurlRequests.step] at h
    split at h
    · simp only [Option.some.injEq] at h
      exact h ▸ hs
    · cases h
  | transferDone h' =>
    simp only [CurlRequests.step] at h
    split at h
    · next hdone =>
      simp only [Option.some.injEq] at h
      subst h
      refine { hs with messages := fun h hh => ?_ }
      rcases List.mem_append.1 hh with hh | hh
      · exact hs.messages h hh
      · rw [List.mem_singleton.1 hh]
        exact hdone.2.1
    · cases h
  | performed =>
    simp only [CurlRequests.step] at h
    split at h
    · next hw =>
      split at h
      · simp only [Option.some.injEq] at h
        subst h
        exact hs.moves (by rw [hw]; rfl) rfl (by rw [hw]; nofun) hs.messages
      · simp only [Option.some.injEq] at h
        exact h ▸ hs
    · cases h
  | destroy => exact hs.destructorStep h

theorem consistent_reachable (h : Trans.Reachable (requests H) s) : Consistent s :=
  h.invariant Consistent (fun _ hi => hi ▸ consistent_initial) fun _ _ _ hs _ hstep => hs.step hstep

/-- **The quiet after `Remove`.** A handle whose `Remove` returned, other than by its timeout, is
neither pending nor in the multi handle, is active at most until the section that raised its
signal ends, and none of its callbacks runs until it is added again. -/
theorem quiet_after_remove {h : H} (hr : Trans.Reachable (requests H) s) (hq : s.quiet h = true) :
    (∀ d ∈ s.handlesToAdd, d.easyHandle ≠ h) ∧ h ∉ s.multiHandle ∧
      (∀ d ∈ s.activeHandles, d.easyHandle = h → s.Leaving d) ∧
      ∀ e, e.callsBack s = some h → step s e = none := by
  have hs := consistent_reachable hr
  obtain ⟨hpending, hactive⟩ := hs.quiet h hq
  have hmulti : h ∉ s.multiHandle := fun hh => by
    obtain ⟨d, hd, hdh, hun⟩ := hs.registered h hh
    exact hun (hactive d hd hdh)
  refine ⟨hpending, hmulti, fun d hd hdh => hs.leaving d hd (hactive d hd hdh), fun e he => ?_⟩
  cases e with
  | callback h' =>
    obtain rfl : h' = h := Option.some.inj he
    exact if_neg fun hc => hmulti hc.2.1
  | worker =>
    simp only [Event.callsBack] at he
    split at he
    · next d hc =>
      obtain ⟨hd, -, hun⟩ := hs.current d .callback hc
      exact absurd (hactive d hd (Option.some.inj he)) (hun nofun)
    · cases he
  | add | remove | removeReturns | removeTimesOut | transferDone | performed | destroy => cases he

/-- A request is taken up, removed, and its owner comes back. -/
def removedRun : List (Event Nat) :=
  [.add 0, .worker, .worker, .remove 0, .worker, .worker, .worker, .worker, .worker, .worker,
    .removeReturns 0]

theorem quiet_after_remove_queued :
    ∃ s : State Nat, (requests Nat).runFrom {} removedRun = some s ∧ s.quiet 0 = true ∧
    (∀ d ∈ s.handlesToAdd, d.easyHandle ≠ 0) ∧ 0 ∉ s.multiHandle ∧
    (∀ d ∈ s.activeHandles, d.easyHandle = 0 → s.Leaving d) ∧ ∀ e, e.callsBack s = some 0 →
    step s e = none := by
  have hrun : ((requests Nat).runFrom {} removedRun).map (·.quiet 0) = some true := by decide +kernel
  obtain ⟨s, hs, hq⟩ := Option.map_eq_some_iff.1 hrun
  exact ⟨s, hs, hq, quiet_after_remove (Trans.reachable_of_runFrom (.init rfl) hs) hq⟩

/-- What a returned `Remove` was to leave: nothing of the handle in any list, and none of its callbacks. -/
def State.GoneFor (s : State H) (h : H) : Prop :=
  (∀ d ∈ s.handlesToAdd, d.easyHandle ≠ h) ∧ (∀ d ∈ s.activeHandles, d.easyHandle ≠ h) ∧ h ∉ s.multiHandle ∧
    ∀ e, e.callsBack s = some h → step s e = none

/-- The worker has raised the signal and not yet erased the entry. -/
def signaledRun : List (Event Nat) :=
  [.add 0, .worker, .worker, .remove 0, .worker, .worker, .worker, .worker, .worker, .removeReturns 0]

/-- The destructor has raised the signal and not yet cleared the list; nobody holds the lock. -/
def destroyedRun : List (Event Nat) :=
  [.add 0, .worker, .worker, .remove 0, .destroy, .worker, .worker, .destroy, .destroy, .destroy,
    .removeReturns 0]

/-- The entry can still be in the active list: in runs without the destructor, the worker holding
the lock; with the destructor also where the lock is free. -/
theorem active_after_remove :
    (¬ ∀ (s : State Nat) (h : Nat), Trans.ReachableBy (requests Nat) (fun _ e => e ≠ .destroy) s →
      s.quiet h = true →
      s.GoneFor h) ∧
    ¬ ∀ (s : State Nat) (h : Nat), Trans.Reachable (requests Nat) s → s.worker.holdsLock = false →
    s.quiet h = true →
      s.GoneFor h := by
  refine ⟨fun hall => ?_, fun hall => ?_⟩
  · have hrun : (((requests Nat).restrict fun _ e => e ≠ .destroy).runFrom {} signaledRun).map
        (fun s => (s.quiet 0, s.activeHandles)) = some (true, [⟨0, 0⟩]) := by decide +kernel
    obtain ⟨s, hs, heq⟩ := Option.map_eq_some_iff.1 hrun
    simp only [Prod.mk.injEq] at heq
    have hgone := (hall s 0 (Trans.reachableBy_of_runFrom (.init rfl) hs) heq.1).2.1 ⟨0, 0⟩ (by simp [heq.2])
    exact hgone rfl
  · have hrun :
      ((requests Nat).runFrom {} destroyedRun).map (fun s => (s.quiet 0, s.activeHandles, s.worker)) =
        some (true, [⟨0, 0⟩], .exited) := by decide +kernel
    obtain ⟨s, hs, heq⟩ := Option.map_eq_some_iff.1 hrun
    simp only [Prod.mk.injEq] at heq
    have hfree : s.worker.holdsLock = false := by rw [heq.2.2]; rfl
    have hgone :=
      (hall s 0 (Trans.reachable_of_runFrom (.init rfl) hs) hfree heq.1).2.1 ⟨0, 0⟩ (by simp [heq.2.1])
    exact hgone rfl

end DoClient.CurlRequests
