/-
Whether a request handed to `CurlRequests` can get lost: an entry that was
accepted leaves the lists with its completion callback, for a `Remove` called
since, or with the destructor, as long as the worker never finds a handle both
in `_handlesToAdd` and in `_handlesToRemove`. An entry that a `Remove` leaves in
the second, when its transfer completes first, takes the next request with it.
-/
import DoClient.Quiescence

namespace DoClient.CurlRequests

variable {H : Type*} [DecidableEq H] {s s' : State H} {e : Event H} {d : HandleData H}

/-- A handle is added again only after its `Remove` returned or its completion was delivered. -/
def Disciplined (s : State H) : Event H → Prop
  | .add h => s.outstanding h = none
  | _ => True

/-- The worker finds no handle both to add and to remove. -/
def FindsNoneInBoth (s : State H) : Event H → Prop
  | .worker =>
    s.worker = .top → s.fKeepRunning = true → ∀ d ∈ s.handlesToAdd, d.easyHandle ∉ s.handlesToRemove
  | _ => True

/-- Why an entry leaves: it completes, its callback just invoked in the same critical section; a
`Remove` was called for it; the destructor. -/
def Accounted (s : State H) (e : Event H) (s' : State H) (d : HandleData H) : Prop :=
  (s.worker = .completing (some (d, .erase)) ∧ d.ticket ∈ s.completed) ∨ d.ticket ∈ s'.removed ∨ e = .destroy

/-- What is under way for the entries held. -/
structure Tracked (s : State H) : Prop where
  pending : ∀ d ∈ s.handlesToAdd, s.outstanding d.easyHandle = some d.ticket
  active :
    ∀ d ∈ s.activeHandles, s.outstanding d.easyHandle = some d.ticket ∨ d.easyHandle ∈ s.handlesToRemove ∨
    d.ticket ∈ s.signaled ∨ d.ticket ∈ s.completed
  completedIssued : ∀ t ∈ s.completed, t < s.added
  completed : ∀ d, s.Holds d → d.ticket ∈ s.completed → ∃ stage, s.worker = .completing (some (d, stage))
  called : ∀ d stage, s.worker = .completing (some (d, stage)) → stage ≠ .callback → d.ticket ∈ s.completed
  removed : ∀ d ∈ s.activeHandles, d.easyHandle ∈ s.handlesToRemove → d.ticket ∈ s.removed
  removing : ∀ current rest, s.worker = .removing current rest → (∀ h ∈ rest, h ∈ s.handlesToRemove) ∧
    (∀ d ∈ s.activeHandles, d.easyHandle ∈ s.handlesToRemove →
      d.easyHandle ∈ rest ∨ ∃ stage, current = some (d, stage)) ∧
    ∀ d stage, current = some (d, stage) → stage ≠ .callback ∧ d.ticket ∈ s.removed
  waits : ∀ h t, s.waits h = some t → ∀ d ∈ s.activeHandles, d.easyHandle = h → h ∈ s.handlesToRemove

omit [DecidableEq H] in
theorem tracked_initial : Tracked ({} : State H) where
  pending := nofun
  active := nofun
  completedIssued := nofun
  completed d h := by simp [State.Holds] at h
  called := nofun
  removed := nofun
  removing := nofun
  waits := nofun

/-! ## The owners -/

theorem mem_tickets {h : H} {l : List (HandleData H)} (hd : d ∈ l) (hh : d.easyHandle = h) :
    d.ticket ∈ tickets h l :=
  List.mem_map_of_mem (List.mem_filter.2 ⟨hd, by simpa using hh⟩)

theorem update_outstanding {f : H → Option Nat} {h h' : H} {t : Option Nat} (hne : h' ≠ h) :
    Function.update f h t h' = f h' := Function.update_of_ne hne _ _

theorem Tracked.add (hs : Tracked s) {h : H} (hout : s.outstanding h = none) (ha : s.add h = .ok s') :
    Tracked s' := by
  obtain ⟨-, hnew, rfl⟩ := add_ok ha
  refine { hs with pending := ?_, active := ?_, completedIssued := ?_, completed := ?_ }
  · intro d hd
    rcases List.mem_append.1 hd with hd | hd
    · exact (update_outstanding (hnew d hd)).trans (hs.pending d hd)
    · obtain rfl := List.mem_singleton.1 hd
      exact Function.update_self ..
  · intro d hd
    rcases hs.active d hd with ho | hrest
    · have hne : d.easyHandle ≠ h := fun heq => by
        rw [heq, hout] at ho
        cases ho
      exact .inl ((update_outstanding hne).trans ho)
    · exact .inr hrest
  · exact fun t ht => Nat.lt_succ_of_lt (hs.completedIssued t ht)
  · rintro d (hd | hd) ht
    · rcases List.mem_append.1 hd with hd | hd
      · exact hs.completed d (.inl hd) ht
      · obtain rfl := List.mem_singleton.1 hd
        exact absurd (hs.completedIssued _ ht) (Nat.lt_irrefl _)
    · exact hs.completed d (.inr hd) ht

/-- The owner comes back from `Remove`; `hdone` is what it leaves of the handle. -/
theorem Tracked.returned (hs : Tracked s) (h : H) (hpending : ∀ d ∈ s.handlesToAdd, d.easyHandle ≠ h)
    (hdone : ∀ d ∈ s.activeHandles, d.easyHandle = h → h ∈ s.handlesToRemove ∨ d.ticket ∈ s.signaled)
    (quiet : H → Bool) : Tracked { s.returned h with quiet := quiet } := by
  refine { hs with pending := ?_, active := ?_, waits := ?_ }
  · exact fun d hd => (update_outstanding (hpending d hd)).trans (hs.pending d hd)
  · intro d hd
    by_cases heq : d.easyHandle = h
    · rcases hdone d hd heq with hr | hsig
      exacts [.inr (.inl (heq ▸ hr)), .inr (.inr (.inl hsig))]
    · exact (hs.active d hd).imp_left (update_outstanding heq).trans
  · exact fun h' t ht => hs.waits h' t (update_none s.waits h h' t ht)

theorem Tracked.remove (hs : Tracked s) (hfree : s.worker.holdsLock = false) (h : H) :
    Tracked (s.remove h) := by
  have hlock : ∀ current rest, s.worker ≠ .removing current rest := fun current rest hw => by
    rw [hw] at hfree
    cases hfree
  have hdrop : Tracked { s with
      handlesToAdd := s.handlesToAdd.filter (·.easyHandle ≠ h)
      removed := tickets h (s.handlesToAdd ++ s.activeHandles) ++ s.removed } := { hs with
    pending := fun d hd => hs.pending d (List.mem_filter.1 hd).1
    completed := fun d hd => hs.completed d (hd.imp_left fun hd => (List.mem_filter.1 hd).1)
    removed := fun d hd hh => List.mem_append_right _ (hs.removed d hd hh)
    removing := fun current rest hw => absurd hw (hlock current rest) }
  cases hf : find h s.activeHandles with
  | none =>
    simp only [State.remove, hf]
    exact hdrop.returned h (fun d hd => by simpa using (List.mem_filter.1 hd).2)
      (fun d hd hh => absurd hh (find_none hf d hd)) _
  | some d =>
    obtain ⟨hd, rfl⟩ := find_some hf
    simp only [State.remove, hf]
    have hsub : ∀ h' ∈ s.handlesToRemove, h' ∈ if d.easyHandle ∈ s.handlesToRemove then s.handlesToRemove
        else s.handlesToRemove ++ [d.easyHandle] := fun h' hh => by
      split
      exacts [hh, List.mem_append_left _ hh]
    have hnew : d.easyHandle ∈ if d.easyHandle ∈ s.handlesToRemove then s.handlesToRemove
        else s.handlesToRemove ++ [d.easyHandle] := by
      split <;> simp_all
    refine { hdrop with active := ?_, removed := ?_, removing := ?_, waits := ?_ }
    · exact fun d' hd' => (hs.active d' hd').imp_right (.imp_left (hsub d'.easyHandle))
    · intro d' hd' hh
      by_cases heq : d'.easyHandle = d.easyHandle
      · exact List.mem_append_left _ (mem_tickets (List.mem_append_right _ hd') heq)
      · have hold : d'.easyHandle ∈ s.handlesToRemove := by
          split at hh
          · exact hh
          · simpa [heq] using hh
        exact List.mem_append_right _ (hs.removed d' hd' hold)
    · exact fun current rest hw => absurd hw (hlock current rest)
    · intro h' t ht d' hd' hh
      by_cases heq : h' = d.easyHandle
      · exact heq ▸ hnew
      · simp only [Function.update_of_ne heq] at ht
        exact hsub h' (hs.waits h' t ht d' hd' hh)

/-! ## The worker -/

omit [DecidableEq H] in
/-- The worker goes on where no entry is in hand, with `_handlesToRemove` as it was. -/
theorem Tracked.moves (hs : Tracked s) {worker : Worker H} (hnow : s.worker.current = none)
    (hnext : worker.holdsLock = false ∨ worker = .completing none) (messages : List H) :
    Tracked { s with worker := worker, messages := messages } := by
  have hnone : ∀ d, s.Holds d → d.ticket ∉ s.completed := fun d hd ht => by
    obtain ⟨stage, hw⟩ := hs.completed d hd ht
    rw [hw] at hnow
    cases hnow
  refine { hs with completed := fun d hd ht => absurd ht (hnone d hd), called := ?_, removing := ?_ }
  · rintro d stage rfl
    rcases hnext with h | h <;> cases h
  · rintro current rest rfl
    rcases hnext with h | h <;> cases h

omit [DecidableEq H] in
theorem Tracked.pass (hs : Tracked s) (hw : s.worker = .top) (ha : Activates s.handlesToAdd s s')
    (hc : Consistent s) (hboth : ∀ d ∈ s.handlesToAdd, d.easyHandle ∉ s.handlesToRemove) :
    Tracked { s' with handlesToAdd := [], worker := .removing none s'.handlesToRemove } := by
  have hnone : ∀ d, s.Holds d → d.ticket ∉ s.completed := fun d hd ht => by
    obtain ⟨stage, hw'⟩ := hs.completed d hd ht
    exact nomatch hw.symm.trans hw'
  have hactive := ha.active
  have hsame := ha.same
  generalize s'.activeHandles = active at *
  generalize s'.multiHandle = multi at *
  subst hsame
  refine { hs with
    pending := nofun, active := ?_, completed := ?_, called := nofun, removed := ?_, removing := ?_,
    waits := ?_ }
  · intro d hd
    rcases hactive d hd with hd | ⟨hd, -⟩
    exacts [hs.active d hd, .inl (hs.pending d hd)]
  · rintro d (hd | hd) ht
    · cases hd
    · exact absurd ht (hnone d ((hactive d hd).symm.imp And.left id))
  · intro d hd hh
    rcases hactive d hd with hd | ⟨hd, -⟩
    exacts [hs.removed d hd hh, absurd hh (hboth d hd)]
  · rintro current rest ⟨⟩
    exact ⟨fun _ => id, fun d _ hh => .inl hh, nofun⟩
  · intro h t ht d hd hh
    rcases hactive d hd with hd | ⟨hd, -⟩
    exacts [hs.waits h t ht d hd hh, absurd hh ((hc.waits h t ht).1 d hd)]

/-- The next handle of `_handlesToRemove`. -/
theorem Tracked.takes (hs : Tracked s) (hc : Consistent s) {h : H} {rest : List H}
    (hw : s.worker = .removing none (h :: rest)) :
    Tracked { s with worker := .removing ((find h s.activeHandles).map (·, .removeHandle)) rest } := by
  obtain ⟨hlist, hleft, -⟩ := hs.removing _ _ hw
  have hnone : ∀ d, s.Holds d → d.ticket ∉ s.completed := fun d hd ht => by
    obtain ⟨stage, hw'⟩ := hs.completed d hd ht
    exact nomatch hw.symm.trans hw'
  refine { hs with completed := fun d hd ht => absurd ht (hnone d hd), called := nofun, removing := ?_ }
  rintro current rest' ⟨⟩
  refine ⟨fun h' hh => hlist h' (List.mem_cons_of_mem _ hh), fun d hd hh => ?_, fun d stage hcur => ?_⟩
  · rcases hleft d hd hh with hmem | ⟨stage, hcur⟩
    · rcases List.mem_cons.1 hmem with heq | hmem
      · right
        cases hf : find h s.activeHandles with
        | none => exact absurd heq (find_none hf d hd)
        | some d' =>
          obtain ⟨hd', hh'⟩ := find_some hf
          obtain rfl := hc.activeOnce d hd d' hd' (heq.trans hh'.symm)
          exact ⟨_, rfl⟩
      · exact .inl hmem
    · cases hcur
  · simp only [Option.map_eq_some_iff, Prod.mk.injEq] at hcur
    obtain ⟨d', hf, rfl, rfl⟩ := hcur
    obtain ⟨hd', hh'⟩ := find_some hf
    exact ⟨nofun, hs.removed d' hd' (hh' ▸ hlist h List.mem_cons_self)⟩

omit [DecidableEq H] in
/-- The end of the loop over `_handlesToRemove`. -/
theorem Tracked.cleared (hs : Tracked s) (hw : s.worker = .removing none []) {worker : Worker H}
    (hnext : worker.holdsLock = false) : Tracked { s with handlesToRemove := [], worker := worker } := by
  obtain ⟨-, hleft, -⟩ := hs.removing _ _ hw
  have hnone : ∀ d ∈ s.activeHandles, d.easyHandle ∉ s.handlesToRemove := fun d hd hh => by
    rcases hleft d hd hh with hmem | ⟨stage, hcur⟩
    · cases hmem
    · cases hcur
  have hmoved := hs.moves (by rw [hw]; rfl) (.inl hnext) s.messages
  refine { hmoved with active := ?_, removed := nofun, removing := ?_, waits := ?_ }
  · exact fun d hd => (hs.active d hd).imp_right fun h => .inr (h.resolve_left (hnone d hd))
  · rintro current rest rfl
    cases hnext
  · rintro h t ht d hd rfl
    exact absurd (hs.waits _ t ht d hd rfl) (hnone d hd)

omit [DecidableEq H] in
/-- A message is taken up. -/
theorem Tracked.reads (hs : Tracked s) (hw : s.worker = .completing none) {d : HandleData H}
    (messages : List H) :
    Tracked { s with messages := messages, worker := .completing (some (d, .callback)) } := by
  have hnone : ∀ d, s.Holds d → d.ticket ∉ s.completed := fun d hd ht => by
    obtain ⟨stage, hw'⟩ := hs.completed d hd ht
    exact nomatch hw.symm.trans hw'
  refine { hs with completed := fun d hd ht => absurd ht (hnone d hd), called := ?_, removing := nofun }
  rintro d' stage ⟨⟩ hne
  exact absurd rfl hne

/-- One statement of `_Remove`, in the loop over `_handlesToRemove`. -/
theorem Tracked.removes (hs : Tracked s) {d : HandleData H} {stage : Stage} {rest : List H}
    (hw : s.worker = .removing (some (d, stage)) rest) :
    Tracked { (s.runStage d stage).1 with worker := .removing (s.runStage d stage).2 rest } := by
  obtain ⟨hlist, hleft, hcur⟩ := hs.removing _ _ hw
  obtain ⟨hne, hremoved⟩ := hcur d stage rfl
  have hnone : ∀ d, s.Holds d → d.ticket ∉ s.completed := fun d hd ht => by
    obtain ⟨stage, hw'⟩ := hs.completed d hd ht
    exact nomatch hw.symm.trans hw'
  have hleft' : ∀ d' ∈ s.activeHandles, d'.easyHandle ∈ s.handlesToRemove → d'.easyHandle ∈ rest ∨ d' = d :=
    fun d' hd' hh => (hleft d' hd' hh).imp_right fun ⟨_, heq⟩ => by
      simp only [Option.some.injEq, Prod.mk.injEq] at heq
      exact heq.1.symm
  cases stage with
  | callback => exact absurd rfl hne
  | removeHandle =>
    refine { hs with completed := fun d hd ht => absurd ht (hnone d hd), called := nofun, removing := ?_ }
    rintro current rest' ⟨⟩
    exact ⟨hlist, fun d' hd' hh => (hleft' d' hd' hh).imp_right fun heq => ⟨.setEvent, by rw [heq]; rfl⟩, by
      rintro d' stage ⟨⟩
      exact ⟨nofun, hremoved⟩⟩
  | setEvent =>
    refine { hs with
      active := fun d' hd' => (hs.active d' hd').imp_right (.imp_right (.imp_left (List.mem_cons_of_mem _)))
      completed := fun d hd ht => absurd ht (hnone d hd)
      called := nofun
      removing := ?_ }
    rintro current rest' ⟨⟩
    exact ⟨hlist, fun d' hd' hh => (hleft' d' hd' hh).imp_right fun heq => ⟨.erase, by rw [heq]; rfl⟩, by
      rintro d' stage ⟨⟩
      exact ⟨nofun, hremoved⟩⟩
  | erase =>
    have hsub : ∀ d' ∈ s.activeHandles.filter (· ≠ d), d' ∈ s.activeHandles ∧ d' ≠ d := fun d' hd' => by
      simpa using List.mem_filter.1 hd'
    refine { hs with
      active := fun d' hd' => hs.active d' (hsub d' hd').1
      completed := fun d' hd' ht => absurd ht (hnone d' (hd'.imp_right fun h => (hsub d' h).1))
      called := nofun
      removed := fun d' hd' => hs.removed d' (hsub d' hd').1
      removing := ?_
      waits := fun h t ht d' hd' => hs.waits h t ht d' (hsub d' hd').1 }
    rintro current rest' ⟨⟩
    exact ⟨hlist, fun d' hd' hh => .inl ((hleft' d' (hsub d' hd').1 hh).resolve_right (hsub d' hd').2), nofun⟩

/-- One statement of `Complete`. -/
theorem Tracked.completes (hs : Tracked s) (hc : Consistent s) {d : HandleData H} {stage : Stage}
    (hw : s.worker = .completing (some (d, stage))) :
    Tracked { (s.runStage d stage).1 with worker := .completing (s.runStage d stage).2 } := by
  obtain ⟨hd, -, -⟩ := hc.current d stage (by rw [hw]; rfl)
  have honly : ∀ d', s.Holds d' → d'.ticket ∈ s.completed → d' = d := fun d' hd' ht => by
    obtain ⟨stage', hw'⟩ := hs.completed d' hd' ht
    rw [hw] at hw'
    simp only [Worker.completing.injEq, Option.some.injEq, Prod.mk.injEq] at hw'
    exact hw'.1.symm
  cases stage with
  | callback =>
    have hticket : ∀ d', s.Holds d' → d'.ticket = d.ticket → d' = d :=
      fun d' hd' => hc.tickets d' d hd' (.inr hd)
    have hkept : ∀ d', s.Holds d' → d' ≠ d → s.outstanding d'.easyHandle = some d'.ticket →
        (s.runStage d .callback).1.outstanding d'.easyHandle = some d'.ticket := by
      intro d' hd' hne ho
      simp only [State.runStage]
      split
      · next hout =>
        have hne' : d'.easyHandle ≠ d.easyHandle := fun heq => by
          rw [heq, hout] at ho
          exact hne (hticket d' hd' (Option.some.inj ho).symm)
        exact (update_outstanding hne').trans ho
      · exact ho
    refine { hs with
      pending := ?_, active := ?_, completedIssued := ?_, completed := ?_, called := ?_, removing := by simp }
    · intro d' hd'
      refine hkept d' (.inl hd') ?_ (hs.pending d' hd')
      rintro rfl
      exact hc.apart d' hd' hd
    · intro d' hd'
      by_cases heq : d' = d
      · exact .inr (.inr (.inr (heq ▸ List.mem_cons_self)))
      · rcases hs.active d' hd' with ho | hr | hsig | hcomp
        · exact .inl (hkept d' (.inr hd') heq ho)
        · exact .inr (.inl hr)
        · exact .inr (.inr (.inl hsig))
        · exact .inr (.inr (.inr (List.mem_cons_of_mem _ hcomp)))
    · intro t ht
      rcases List.mem_cons.1 ht with rfl | ht
      exacts [hc.issued d (.inr hd), hs.completedIssued t ht]
    · intro d' hd' ht
      refine ⟨.removeHandle, ?_⟩
      rcases List.mem_cons.1 ht with heq | ht
      · rw [hticket d' hd' heq]
        rfl
      · rw [honly d' hd' ht]
        rfl
    · rintro d' stage' ⟨⟩ -
      exact List.mem_cons_self
  | removeHandle =>
    have hcalled := hs.called d _ hw (by simp)
    refine { hs with completed := fun d' hd' ht => ⟨.setEvent,
      by rw [honly d' hd' ht]; rfl⟩, called := ?_, removing := by simp }
    rintro d' stage' ⟨⟩ -
    exact hcalled
  | setEvent =>
    have hcalled := hs.called d _ hw (by simp)
    refine { hs with
      active := fun d' hd' => (hs.active d' hd').imp_right (.imp_right (.imp_left (List.mem_cons_of_mem _)))
      completed := fun d' hd' ht => ⟨.erase, by rw [honly d' hd' ht]; rfl⟩
      called := ?_
      removing := by simp }
    rintro d' stage' ⟨⟩ -
    exact hcalled
  | erase =>
    have hsub : ∀ d' ∈ s.activeHandles.filter (· ≠ d), d' ∈ s.activeHandles ∧ d' ≠ d := fun d' hd' => by
      simpa using List.mem_filter.1 hd'
    refine { hs with
      active := fun d' hd' => hs.active d' (hsub d' hd').1
      completed := ?_
      called := by rintro _ _ ⟨⟩
      removed := fun d' hd' => hs.removed d' (hsub d' hd').1
      removing := by simp
      waits := fun h t ht d' hd' => hs.waits h t ht d' (hsub d' hd').1 }
    rintro d' (hd' | hd') ht
    · obtain rfl := honly d' (.inl hd') ht
      exact absurd hd (hc.apart d' hd')
    · exact absurd (honly d' (.inr (hsub d' hd').1) ht) (hsub d' hd').2

theorem Tracked.workerStep (hs : Tracked s) (hc : Consistent s) (hboth : FindsNoneInBoth s .worker)
    (h : s.workerStep = some s') : Tracked s' := by
  unfold State.workerStep at h
  split at h
  · next hw =>
    split at h
    · simp only [Option.some.injEq] at h
      subst h
      exact hs.moves (by rw [hw]; rfl) (.inl rfl) s.messages
    · next hk =>
      simp only [Option.some.injEq] at h
      subst h
      exact hs.pass hw (foldl_activate s.handlesToAdd s) hc (hboth hw (by simpa using hk))
  · next h' rest hw =>
    simp only [Option.some.injEq] at h
    subst h
    exact hs.takes hc hw
  · next hw =>
    simp only [Option.some.injEq] at h
    subst h
    refine hs.cleared hw ?_
    split <;> rfl
  · next d stage rest hw =>
    simp only [Option.some.injEq] at h
    subst h
    exact hs.removes hw
  · next hw =>
    split at h
    · simp only [Option.some.injEq] at h
      subst h
      exact hs.moves (by rw [hw]; rfl) (.inl rfl) s.messages
    · cases h
  · next hw =>
    simp only [Option.some.injEq] at h
    subst h
    exact hs.moves (by rw [hw]; rfl) (.inl rfl) s.messages
  · next hw =>
    split at h
    · simp only [Option.some.injEq] at h
      subst h
      exact hs.moves (by rw [hw]; rfl) (.inl rfl) s.messages
    · simp only [Option.map_eq_some_iff] at h
      obtain ⟨d, hf, rfl⟩ := h
      exact hs.reads hw _
  · next d stage hw =>
    simp only [Option.some.injEq] at h
    subst h
    exact hs.completes hc hw
  · cases h

/-! ## The destructor -/

theorem Tracked.destructorStep (hs : Tracked s) (hc : Consistent s) (h : s.destructorStep = some s') :
    Tracked s' := by
  have hdes := hc.destructor
  unfold State.destructorStep at h
  unfold State.DestroyedInOrder at hdes
  split at h
  · split at h
    · cases h
    · simp only [Option.some.injEq] at h
      subst h
      exact { hs with }
  · split at h
    · simp only [Option.some.injEq] at h
      subst h
      exact { hs with }
    · cases h
  · simp only [Option.some.injEq] at h
    subst h
    exact { hs with }
  · simp only [Option.some.injEq] at h
    subst h
    exact { hs with
      active := fun d hd => (hs.active d hd).imp_right (.imp_right (.imp_left (List.mem_cons_of_mem _))) }
  · next hde =>
    simp only [hde] at hdes
    simp only [Option.some.injEq] at h
    subst h
    exact { hs with
      active := nofun
      completed := fun d hd => hs.completed d (.inl (hd.resolve_right nofun))
      removed := nofun
      removing := fun current rest hw => nomatch hdes.2.1.symm.trans hw
      waits := fun _ _ _ => nofun }
  · next hde =>
    simp only [hde] at hdes
    have hempty : ∀ d, d ∉ s.activeHandles := fun d hd => absurd (hdes.2.2 ▸ hd) List.not_mem_nil
    simp only [Option.some.injEq] at h
    subst h
    exact { hs with
      pending := nofun
      active := fun d hd => absurd hd (hempty d)
      completed := fun d hd => absurd (hd.resolve_left nofun) (hempty d)
      removed := fun d hd => absurd hd (hempty d)
      removing := fun current rest hw => nomatch hdes.2.1.symm.trans hw
      waits := fun _ _ _ d hd => absurd hd (hempty d) }
  · cases h

/-! ## Runs -/

theorem Tracked.step (hs : Tracked s) (hc : Consistent s) (hd : Disciplined s e) (hboth : FindsNoneInBoth s e)
    (h : CurlRequests.step s e = some s') : Tracked s' := by
  cases e with
  | add h' =>
    simp only [CurlRequests.step] at h
    split at h
    · cases h
    split at h
    · next ha =>
      simp only [Option.some.injEq] at h
      subst h
      exact hs.add hd ha
    · simp only [Option.some.injEq] at h
      exact h ▸ hs
  | remove h' =>
    simp only [CurlRequests.step] at h
    split at h
    · cases h
    next hfree =>
    rw [not_or] at hfree
    simp only [Option.some.injEq] at h
    exact h ▸ hs.remove (Bool.not_eq_true _ ▸ hfree.1) h'
  | removeReturns h' =>
    simp only [CurlRequests.step, Option.bind_eq_some_iff] at h
    obtain ⟨t, hw, h⟩ := h
    split at h
    · next ht =>
      simp only [Option.some.injEq] at h
      subst h
      obtain ⟨hpending, hactive⟩ := hc.waits h' t hw
      exact hs.returned h' hpending (fun d hd hh => .inr (hactive d hd hh ▸ ht)) _
    · cases h
  | removeTimesOut h' =>
    simp only [CurlRequests.step, Option.map_eq_some_iff] at h
    obtain ⟨t, hw, rfl⟩ := h
    exact hs.returned h' (hc.waits h' t hw).1 (fun d hd hh => .inl (hs.waits h' t hw d hd hh)) _
  | worker => exact hs.workerStep hc hboth h
  | callback h' =>
    simp only [CurlRequests.step] at h
    split at h
    · simp only [Option.some.injEq] at h
      exact h ▸ hs
    · cases h
  | transferDone h' =>
    simp only [CurlRequests.step] at h
    split at h
    · simp only [Option.some.injEq] at h
      subst h
      exact { hs with }
    · cases h
  | performed =>
    simp only [CurlRequests.step] at h
    split at h
    · next hw =>
      split at h
      · simp only [Option.some.injEq] at h
        subst h
        exact hs.moves (by rw [hw]; rfl) (.inr rfl) s.messages
      · simp only [Option.some.injEq] at h
        exact h ▸ hs
    · cases h
  | destroy => exact hs.destructorStep hc h

/-- What one statement for an entry takes out of the lists: the entry, at the erase. -/
theorem runStage_lost {entry : HandleData H} {stage : Stage} {worker : Worker H} (hd : s.Holds d)
    (hgone : ¬ State.Holds { (s.runStage entry stage).1 with worker := worker } d) :
    stage = .erase ∧ d = entry := by
  cases stage with
  | callback | removeHandle | setEvent => exact absurd hd hgone
  | erase =>
    refine ⟨rfl, by_contra fun hne => hgone (hd.imp_right fun hd => ?_)⟩
    exact List.mem_filter.2 ⟨hd, by simpa using hne⟩

theorem remove_lists (s : State H) (h : H) :
    (s.remove h).handlesToAdd = s.handlesToAdd.filter (·.easyHandle ≠ h) ∧
    (s.remove h).activeHandles = s.activeHandles ∧
    (s.remove h).removed = tickets h (s.handlesToAdd ++ s.activeHandles) ++ s.removed := by
  unfold State.remove
  dsimp only
  split
  exacts [⟨rfl, rfl, rfl⟩, ⟨rfl, rfl, rfl⟩]

omit [DecidableEq H] in
/-- The pass over the lists drops nothing: every pending entry is taken up. -/
theorem Tracked.passKeeps (hs : Tracked s) (hc : Consistent s) (hw : s.worker = .top)
    (ha : Activates s.handlesToAdd s s') (hboth : ∀ d ∈ s.handlesToAdd, d.easyHandle ∉ s.handlesToRemove)
    (hd : s.Holds d) : d ∈ s'.activeHandles := by
  have hnot : ∀ d', s.worker.current ≠ some d' := fun d' => by
    rw [hw]
    exact nofun
  rcases hd with hd | hd
  · obtain ⟨d', hd', hh⟩ := ha.taken d hd
    rcases ha.active d' hd' with hold | ⟨hnew, -⟩
    · rcases hs.active d' hold with ho | hr | hsig | hcomp
      · have ht : d'.ticket = d.ticket := by
          rw [hh, hs.pending d hd] at ho
          exact (Option.some.inj ho).symm
        exact absurd (hc.tickets d' d (.inr hold) (.inl hd) ht ▸ hold) (hc.apart d hd)
      · exact absurd (hh ▸ hr) (hboth d hd)
      · exact absurd (hc.leaving_worker (by rw [hw]; exact nofun) hold hsig) (hnot _)
      · obtain ⟨stage, hw'⟩ := hs.completed d' (.inr hold) hcomp
        exact nomatch hw.symm.trans hw'
    · have hsymm : Std.Symm fun a b : HandleData H => a.easyHandle ≠ b.easyHandle := ⟨fun _ _ hne => hne.symm⟩
      have heq : d' = d := by_contra fun hne => hc.pendingOnce.forall hnew hd hne hh
      exact heq ▸ hd'
  · exact ha.kept d hd

/-- What the worker's statements account for. -/
theorem Tracked.workerAccounted (hs : Tracked s) (hc : Consistent s) (hboth : FindsNoneInBoth s .worker)
    (h : s.workerStep = some s') (hd : s.Holds d) (hgone : ¬ s'.Holds d) :
    (s.worker = .completing (some (d, .erase)) ∧ d.ticket ∈ s.completed) ∨ d.ticket ∈ s'.removed := by
  unfold State.workerStep at h
  split at h
  · next hw =>
    split at h
    · simp only [Option.some.injEq] at h
      subst h
      exact absurd hd hgone
    · next hk =>
      simp only [Option.some.injEq] at h
      subst h
      have hkept := hs.passKeeps hc hw (foldl_activate s.handlesToAdd s) (hboth hw (by simpa using hk)) hd
      exact absurd (.inr hkept) hgone
  · simp only [Option.some.injEq] at h
    subst h
    exact absurd hd hgone
  · simp only [Option.some.injEq] at h
    subst h
    exact absurd hd hgone
  · next entry stage rest hw =>
    simp only [Option.some.injEq] at h
    subst h
    obtain ⟨rfl, rfl⟩ := runStage_lost hd hgone
    exact .inr ((hs.removing _ _ hw).2.2 d .erase rfl).2
  · split at h
    · simp only [Option.some.injEq] at h
      subst h
      exact absurd hd hgone
    · cases h
  · simp only [Option.some.injEq] at h
    subst h
    exact absurd hd hgone
  · split at h
    · simp only [Option.some.injEq] at h
      subst h
      exact absurd hd hgone
    · simp only [Option.map_eq_some_iff] at h
      obtain ⟨entry, -, rfl⟩ := h
      exact absurd hd hgone
  · next entry stage hw =>
    simp only [Option.some.injEq] at h
    subst h
    obtain ⟨rfl, rfl⟩ := runStage_lost hd hgone
    exact .inl ⟨hw, hs.called d .erase hw nofun⟩
  · cases h

theorem Tracked.accounted (hs : Tracked s) (hc : Consistent s) (hboth : FindsNoneInBoth s e)
    (h : CurlRequests.step s e = some s') (hd : s.Holds d) (hgone : ¬ s'.Holds d) : Accounted s e s' d := by
  cases e with
  | add h' =>
    simp only [CurlRequests.step] at h
    split at h
    · cases h
    split at h
    · next ha =>
      simp only [Option.some.injEq] at h
      subst h
      obtain ⟨-, -, rfl⟩ := add_ok ha
      exact absurd (hd.imp_left (List.mem_append_left _)) hgone
    · simp only [Option.some.injEq] at h
      exact absurd (h ▸ hd) hgone
  | remove h' =>
    simp only [CurlRequests.step] at h
    split at h
    · cases h
    simp only [Option.some.injEq] at h
    subst h
    obtain ⟨hpending, hactive, hremoved⟩ := remove_lists s h'
    rcases hd with hd | hd
    · have hh : d.easyHandle = h' := by_contra fun hne => hgone (.inl (by
        rw [hpending]
        exact List.mem_filter.2 ⟨hd, by simpa using hne⟩))
      exact .inr (.inl (hremoved ▸ List.mem_append_left _ (mem_tickets (List.mem_append_left _ hd) hh)))
    · exact absurd (.inr (hactive ▸ hd)) hgone
  | removeReturns h' =>
    simp only [CurlRequests.step, Option.bind_eq_some_iff] at h
    obtain ⟨t, -, h⟩ := h
    split at h
    · simp only [Option.some.injEq] at h
      subst h
      exact absurd hd hgone
    · cases h
  | removeTimesOut h' =>
    simp only [CurlRequests.step, Option.map_eq_some_iff] at h
    obtain ⟨t, -, rfl⟩ := h
    exact absurd hd hgone
  | worker => exact (hs.workerAccounted hc hboth h hd hgone).imp_right .inl
  | callback h' =>
    simp only [CurlRequests.step] at h
    split at h
    · simp only [Option.some.injEq] at h
      exact absurd (h ▸ hd) hgone
    · cases h
  | transferDone h' =>
    simp only [CurlRequests.step] at h
    split at h
    · simp only [Option.some.injEq] at h
      subst h
      exact absurd hd hgone
    · cases h
  | performed =>
    simp only [CurlRequests.step] at h
    split at h
    · split at h
      · simp only [Option.some.injEq] at h
        subst h
        exact absurd hd hgone
      · simp only [Option.some.injEq] at h
        exact absurd (h ▸ hd) hgone
    · cases h
  | destroy => exact .inr (.inr rfl)

theorem tracked_reachable
    (h : Trans.ReachableBy (requests H) (fun s e => Disciplined s e ∧ FindsNoneInBoth s e) s) :
    Tracked s :=
  h.invariant_of Consistent (fun _ => consistent_reachable) Tracked (fun _ hi => hi ▸ tracked_initial)
    fun _ _ _ hc _ hs hC hstep => hs.step hc hC.1 hC.2 hstep

/-- **No request is lost.** In a run whose passes find no handle both to add and to remove, an
entry leaves the lists when it completes, for a `Remove`, or with the destructor. -/
theorem entry_leaves_for_reason
    (hr : Trans.ReachableBy (requests H) (fun s e => Disciplined s e ∧ FindsNoneInBoth s e) s)
    (hC : Disciplined s e ∧ FindsNoneInBoth s e) (h : step s e = some s') (hd : s.Holds d)
    (hgone : ¬ s'.Holds d) :
    Accounted s e s' d :=
  (tracked_reachable hr).accounted (consistent_reachable hr.reachable) hC.2 h hd hgone

instance : ∀ (s : State H) (e : Event H), Decidable (Disciplined s e)
  | s, .add h => inferInstanceAs (Decidable (s.outstanding h = none))
  | _, .remove _ | _, .removeReturns _ | _, .removeTimesOut _ | _, .worker | _, .callback _ | _,
    .transferDone _
  | _, .performed | _, .destroy => .isTrue trivial

instance : ∀ (s : State H) (e : Event H), Decidable (FindsNoneInBoth s e)
  | s, .worker => inferInstanceAs (Decidable (s.worker = .top → s.fKeepRunning = true →
      ∀ d ∈ s.handlesToAdd, d.easyHandle ∉ s.handlesToRemove))
  | _, .add _ | _, .remove _ | _, .removeReturns _ | _, .removeTimesOut _ | _, .callback _ | _,
    .transferDone _
  | _, .performed | _, .destroy => .isTrue trivial

/-- A request is taken up and removed, up to the erase. -/
def erasingRun : List (Event Nat) :=
  [.add 0, .worker, .worker, .remove 0, .worker, .worker, .worker, .worker, .worker]

theorem entry_leaves_for_reason_removed : ∃ s s' : State Nat, (requests Nat).runFrom {} erasingRun = some s ∧
    step s .worker = some s' ∧ s.Holds ⟨0, 0⟩ ∧ ¬ s'.Holds ⟨0, 0⟩ ∧ Accounted s .worker s' ⟨0, 0⟩ := by
  have hrun :
    (((requests Nat).restrict fun s e => Disciplined s e ∧ FindsNoneInBoth s e).runFrom {} erasingRun).map
      (fun s => (s.activeHandles, decide (FindsNoneInBoth s .worker))) = some ([⟨0, 0⟩], true) := by
        decide +kernel
  have hlast : ((requests Nat).runFrom {} erasingRun).bind (fun s => (step s .worker).map
      fun s' => (s'.handlesToAdd, s'.activeHandles)) = some ([], []) := by decide +kernel
  obtain ⟨s, hs, heq⟩ := Option.map_eq_some_iff.1 hrun
  simp only [Prod.mk.injEq, decide_eq_true_eq] at heq
  have hs₀ : (requests Nat).runFrom {} erasingRun = some s := Trans.runFrom_of_restrict hs
  obtain ⟨s', hstep, heq'⟩ := Option.map_eq_some_iff.1 ((Option.bind_eq_some_iff.1 hlast).elim fun t ht =>
    Option.some.inj (hs₀.symm.trans ht.1) ▸ ht.2)
  simp only [Prod.mk.injEq] at heq'
  have hd : s.Holds ⟨0, 0⟩ := .inr (by simp [heq.1])
  have hgone : ¬ s'.Holds ⟨0, 0⟩ := by simp [State.Holds, heq']
  exact ⟨s, s', hs₀, hstep, hd, hgone,
    entry_leaves_for_reason (Trans.reachableBy_of_runFrom (.init rfl) hs) ⟨trivial, heq.2⟩ hstep hd hgone⟩

/-- A transfer ends first, and its completion signals the `Remove` that waits; the entry stays in
`_handlesToRemove` and takes the next request of the handle with it. -/
def staleRun : List (Event Nat) :=
  [.add 0, .worker, .worker, .remove 0, .transferDone 0, .performed, .worker, .worker, .worker,
    .worker, .worker, .worker, .removeReturns 0, .add 0, .worker, .worker, .worker, .worker, .worker]

theorem entry_lost : ¬ ∀ (s s' : State Nat) (e : Event Nat) (d : HandleData Nat),
    Trans.ReachableBy (requests Nat) Disciplined s → Disciplined s e → step s e = some s' → s.Holds d →
    ¬ s'.Holds d →
      Accounted s e s' d := by
  intro hall
  have hrun : (((requests Nat).restrict Disciplined).runFrom {} staleRun).map
      (fun s => (s.activeHandles, s.worker)) = some ([⟨0, 1⟩], .removing (some (⟨0, 1⟩, .erase)) []) := by
    decide +kernel
  have hlast : (((requests Nat).restrict Disciplined).runFrom {} staleRun).bind (fun s => (step s .worker).map
      fun s' => (s'.handlesToAdd, s'.activeHandles, s'.removed)) = some ([], [], [0]) := by decide +kernel
  obtain ⟨s, hs, heq⟩ := Option.map_eq_some_iff.1 hrun
  obtain ⟨s', hstep, heq'⟩ := Option.map_eq_some_iff.1 ((Option.bind_eq_some_iff.1 hlast).elim fun t ht =>
    Option.some.inj (hs.symm.trans ht.1) ▸ ht.2)
  simp only [Prod.mk.injEq] at heq heq'
  have hd : s.Holds ⟨0, 1⟩ := .inr (by simp [heq.1])
  have hgone : ¬ s'.Holds ⟨0, 1⟩ := by simp [State.Holds, heq']
  rcases hall s s' .worker ⟨0, 1⟩ (Trans.reachableBy_of_runFrom (.init rfl) hs) trivial hstep hd hgone with
    ⟨hw, -⟩ | hr | he
  · exact absurd (heq.2.symm.trans hw) (by simp)
  · simp [heq'] at hr
  · cases he

end DoClient.CurlRequests
