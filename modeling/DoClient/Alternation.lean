/-
Which source a download without a fallback delay turns to, attempt after
attempt: the cache host and the original one in turn, once two attempts of one
of them have brought nothing.
-/
import DoClient.Attempts

namespace DoClient

open HResult

variable {uri : UriLib} {o : Outside} {w w' : World} {e : Event} {op : Op}

/-! ## Chains of attempts -/

/-- The move hands over a request. -/
def Issues (m : Trans.Move World Event) : Prop := m.dst.requests ≠ m.src.requests

instance (m : Trans.Move World Event) : Decidable (Issues m) := inferInstanceAs (Decidable (_ ≠ _))

/-- The attempts of a run, in order. -/
def attempts (ms : List (Trans.Move World Event)) : List (Trans.Move World Event) := ms.filter (Issues ·)

/-- The attempt brought no new bytes: the next one asks for what it asked for. -/
def NoNewBytes (m next : Trans.Move World Event) : Prop :=
  next.src.dl.status.bytesTransferred = m.src.dl.status.bytesTransferred

/-- A task that makes a request finds a cache host that is not banned. -/
def CacheHostAvailable (uri : UriLib) (w : World) (e : Event) : Prop :=
  match e with
  | .run o => ∀ op ∈ w.nextOp, ∀ route ∈ op.route w o, w.HostAvailable uri route.1
  | _ => True

/-- A task that makes a request counts it without the counter wrapping. -/
def CountsUp (w : World) (e : Event) : Prop :=
  match e with
  | .run o => ∀ op ∈ w.nextOp, (op.route w o).isSome = true →
      w.dl.numAttemptsWithCurrentConnectionType + 1 < 2 ^ 32
  | _ => True

instance : ∀ w e, Decidable (CacheHostAvailable uri w e)
  | w, .run o => inferInstanceAs (Decidable (∀ op ∈ w.nextOp, ∀ route ∈ op.route w o, _))
  | _, .tick _ | _, .request _ | _, .foreign .. | _, .drain | _, .curl _ => .isTrue trivial

instance : ∀ w e, Decidable (CountsUp w e)
  | w, .run _ => inferInstanceAs (Decidable (∀ op ∈ w.nextOp, _))
  | _, .tick _ | _, .request _ | _, .foreign .. | _, .drain | _, .curl _ => .isTrue trivial

/-! ## The policy -/

/-- The source after an attempt with `type`, when there is no fallback delay; `enough`: two attempts
of it or more, the last of them without new bytes. -/
def nextSource (type : ConnectionType) (fOriginalHostAttempted enough : Bool) : ConnectionType :=
  match type with
  | .mcc => if fOriginalHostAttempted && !enough then .mcc else .cdn
  | .cdn => if enough then .mcc else .cdn
  | .none => .none

theorem nextSource_ne_none {type : ConnectionType} {fOriginalHostAttempted enough : Bool} (h : type ≠ .none) :
    nextSource type fOriginalHostAttempted enough ≠ .none := by
  unfold nextSource
  cases type with
  | none => exact absurd rfl h
  | mcc | cdn =>
    dsimp only
    split <;> nofun

theorem nextConnectionType_eq_nextSource (hdue : w.dl.mccFallbackDue = none) :
    nextConnectionType w.dl w.now true = (nextSource w.dl.connectionType w.dl.fOriginalHostAttempted
      (w.dl.cbTransferredAtRequestBegin == w.dl.status.bytesTransferred &&
        decide (2 ≤ w.dl.numAttemptsWithCurrentConnectionType)), w.dl.fAllowMcc) := by
  unfold nextConnectionType nextSource
  rw [hdue]
  cases w.dl.connectionType <;> rfl

/-- With a cache host to be had the choice is the policy's. -/
theorem chosenType_of_available (hallow : (nextConnectionType w.dl w.now true).2 = true)
    (havail : w.HostAvailable uri w.dl.mccHost) (hnone : (nextConnectionType w.dl w.now true).1 ≠ .none) :
    w.chosenType uri true = (nextConnectionType w.dl w.now true).1 := by
  unfold World.chosenType
  cases htype : (nextConnectionType w.dl w.now true).1 with
  | none => exact absurd htype hnone
  | mcc => simp [usesMcc, hallow, havail.1, havail.2]
  | cdn => simp [usesMcc]

/-- How an attempt follows the one before it in a chain. -/
structure NextAttempt (m next : Trans.Move World Event) : Prop where
  connectionType : next.dst.dl.connectionType =
    nextSource m.dst.dl.connectionType m.dst.dl.fOriginalHostAttempted
      (m.src.dl.status.bytesTransferred == next.src.dl.status.bytesTransferred &&
        decide (2 ≤ m.dst.dl.numAttemptsWithCurrentConnectionType))
  numAttempts : next.dst.dl.connectionType = m.dst.dl.connectionType →
    next.dst.dl.numAttemptsWithCurrentConnectionType = m.dst.dl.numAttemptsWithCurrentConnectionType + 1
  fOriginalHostAttempted : m.dst.dl.fOriginalHostAttempted = true → next.dst.dl.fOriginalHostAttempted = true

/-- An attempt of a chain: it went to one of the two sources, and was counted. -/
structure Made (uri : UriLib) (m : Trans.Move World Event) : Prop where
  source : ∃ r ∈ m.dst.requests.head?, ToCacheHost uri m.dst r ∨ ToOriginalHost m.dst r
  numAttempts : 1 ≤ m.dst.dl.numAttemptsWithCurrentConnectionType

/-- **Within three attempts that bring nothing both sources are asked.** -/
theorem NextAttempt.both_types {m₁ m₂ m₃ : Trans.Move World Event} (h₁₂ : NextAttempt m₁ m₂)
    (h₂₃ : NextAttempt m₂ m₃) (hn : 1 ≤ m₁.dst.dl.numAttemptsWithCurrentConnectionType)
    (hnone : m₁.dst.dl.connectionType ≠ .none) (hnew₁ : NoNewBytes m₁ m₂) (hnew₂ : NoNewBytes m₂ m₃) :
    (∃ m ∈ [m₁, m₂, m₃], m.dst.dl.connectionType = .mcc) ∧
      ∃ m ∈ [m₁, m₂, m₃], m.dst.dl.connectionType = .cdn := by
  have ht₂ := h₁₂.connectionType
  have ht₃ := h₂₃.connectionType
  rw [show m₂.src.dl.status.bytesTransferred = _ from hnew₁, beq_self_eq_true, Bool.true_and] at ht₂
  rw [show m₃.src.dl.status.bytesTransferred = _ from hnew₂, beq_self_eq_true, Bool.true_and] at ht₃
  have first : m₁ ∈ [m₁, m₂, m₃] := by simp
  have second : m₂ ∈ [m₁, m₂, m₃] := by simp
  have third : m₃ ∈ [m₁, m₂, m₃] := by simp
  cases ht₁ : m₁.dst.dl.connectionType with
  | none => exact absurd ht₁ hnone
  | mcc =>
    rw [ht₁] at ht₂
    cases hcdn : m₂.dst.dl.connectionType with
    | cdn => exact ⟨⟨m₁, first, ht₁⟩, m₂, second, hcdn⟩
    | none => exact absurd (ht₂.symm.trans hcdn) (nextSource_ne_none nofun)
    | mcc =>
      -- still the cache host: the second attempt with it, the original host already tried
      have horiginal : m₁.dst.dl.fOriginalHostAttempted = true := by
        by_contra hnever
        simp [nextSource, hcdn, hnever] at ht₂
      have hcount := h₁₂.numAttempts (hcdn.trans ht₁.symm)
      have henough : 2 ≤ m₂.dst.dl.numAttemptsWithCurrentConnectionType := by omega
      rw [hcdn] at ht₃
      exact ⟨⟨m₁, first, ht₁⟩, m₃, third, by simpa [nextSource, henough] using ht₃⟩
  | cdn =>
    rw [ht₁] at ht₂
    cases hmcc : m₂.dst.dl.connectionType with
    | mcc => exact ⟨⟨m₂, second, hmcc⟩, m₁, first, ht₁⟩
    | none => exact absurd (ht₂.symm.trans hmcc) (nextSource_ne_none nofun)
    | cdn =>
      have hcount := h₁₂.numAttempts (hmcc.trans ht₁.symm)
      have henough : 2 ≤ m₂.dst.dl.numAttemptsWithCurrentConnectionType := by omega
      rw [hmcc] at ht₃
      exact ⟨⟨m₃, third, by simpa [nextSource, henough] using ht₃⟩, m₁, first, ht₁⟩

/-! ## Chains -/

/-- The last attempt was `m`, and what it left is there for the next choice. -/
structure Since (m : Trans.Move World Event) (w : World) : Prop where
  mccFallbackDue : w.dl.mccFallbackDue = none
  fAllowMcc : w.dl.fAllowMcc = true
  connectionType : w.dl.connectionType = m.dst.dl.connectionType
  numAttempts :
    w.dl.numAttemptsWithCurrentConnectionType = m.dst.dl.numAttemptsWithCurrentConnectionType
  cbTransferredAtRequestBegin : w.dl.cbTransferredAtRequestBegin = m.src.dl.status.bytesTransferred
  fOriginalHostAttempted : w.dl.fOriginalHostAttempted = m.dst.dl.fOriginalHostAttempted

theorem Since.same {m : Trans.Move World Event} (h : Since m w) (hs : SameChoice w w') : Since m w' :=
  ⟨hs.mccFallbackDue.trans h.mccFallbackDue, hs.fAllowMcc.trans h.fAllowMcc,
    hs.connectionType.trans h.connectionType, hs.numAttempts.trans h.numAttempts,
    hs.cbTransferredAtRequestBegin.trans h.cbTransferredAtRequestBegin,
    hs.fOriginalHostAttempted.trans h.fOriginalHostAttempted⟩

/-- What an attempt leaves without a fallback delay. -/
theorem Attempt.since {r : IssuedRequest} (ha : Attempt uri w r w') (hdue : w'.dl.mccFallbackDue = none)
    (hallow : w'.dl.fAllowMcc = true) : Since ⟨w, e, w'⟩ w' :=
  ⟨hdue, hallow, rfl, rfl, ha.cbTransferredAtRequestBegin, rfl⟩

theorem Attempt.connectionType_ne_none {r : IssuedRequest} (ha : Attempt uri w r w') :
    w'.dl.connectionType ≠ .none := by
  rcases ha.source with ⟨htype, -⟩ | ⟨htype, -⟩ <;> rw [htype] <;> nofun

/-- The counter after an attempt, when it did not wrap. -/
theorem Attempt.made {r : IssuedRequest} (ha : Attempt uri w r w')
    (hcount : w.dl.numAttemptsWithCurrentConnectionType + 1 < 2 ^ 32) : Made uri ⟨w, e, w'⟩ := by
  refine ⟨⟨r, by rw [ha.requests]; rfl, ha.source⟩, ?_⟩
  have hcounted := ha.counted
  unfold Download.Counted at hcounted
  simp only
  rw [hcounted]
  split
  · rw [wrap32, Nat.mod_eq_of_lt hcount]
    omega
  · exact le_refl _

/-- The retry of a chain follows the attempt before it. -/
theorem Since.nextAttempt {m : Trans.Move World Event} {r : IssuedRequest} (h : Since m w)
    (hnone : m.dst.dl.connectionType ≠ .none) (ha : Attempt uri w r w') (hretried : Retried uri w w')
    (havail : w.HostAvailable uri w.dl.mccHost)
    (hcount : w.dl.numAttemptsWithCurrentConnectionType + 1 < 2 ^ 32) :
    NextAttempt m ⟨w, e, w'⟩ ∧ Since ⟨w, e, w'⟩ w' := by
  have hnext := nextConnectionType_eq_nextSource h.mccFallbackDue
  rw [h.connectionType, h.fOriginalHostAttempted, h.cbTransferredAtRequestBegin, h.numAttempts,
    h.fAllowMcc] at hnext
  have hchosen := hretried.connectionType
  rw [chosenType_of_available (by rw [hnext]) havail (by rw [hnext]; exact nextSource_ne_none hnone), hnext]
    at hchosen
  refine ⟨⟨hchosen, fun hsame => ?_, fun hf => ?_⟩,
    ha.since (hretried.mccFallbackDue.trans h.mccFallbackDue) ?_⟩
  · have hcounted := ha.counted
    unfold Download.Counted at hcounted
    rw [if_pos (hsame.trans h.connectionType.symm), wrap32, Nat.mod_eq_of_lt hcount,
      h.numAttempts] at hcounted
    exact hcounted
  · rw [ha.fOriginalHostAttempted, h.fOriginalHostAttempted, hf, Bool.true_or]
  · rw [hretried.fAllowMcc, hnext]

/-- The attempts of a chain so far, at the world they led to. -/
structure Chain (uri : UriLib) (as : List (Trans.Move World Event)) (w : World) : Prop where
  follows : as.IsChain NextAttempt
  made : ∀ m ∈ as, Made uri m ∧ m.dst.dl.connectionType ≠ .none
  since : w.terminated = false → ∃ m ∈ as.getLast?, Since m w

theorem chain_start (hg : Good uri w) (hstep : step uri w e = some w') (hissues : w'.requests ≠ w.requests)
    (hdue : w'.dl.mccFallbackDue = none) (hallow : w'.dl.fAllowMcc = true) (hcount : CountsUp w e) :
    Chain uri [⟨w, e, w'⟩] w' := by
  obtain ⟨o, op, r, ⟨rfl, hop⟩, hroute, ha, -⟩ := step_attempt hg hstep hissues
  have hbelow := hcount op hop (by rw [hroute]; rfl)
  refine ⟨List.isChain_singleton _, fun m hm => ?_, fun _ => ⟨_, rfl, ha.since hdue hallow⟩⟩
  obtain rfl := List.mem_singleton.1 hm
  exact ⟨ha.made hbelow, ha.connectionType_ne_none⟩

theorem Chain.step {as : List (Trans.Move World Event)} (h : Chain uri as w) (hg : Good uri w)
    (hstep : DoClient.step uri w e = some w') (hperiod : SamePeriod w e) (havail : CacheHostAvailable uri w e)
    (hcount : CountsUp w e) : Chain uri (as ++ attempts [⟨w, e, w'⟩]) w' := by
  obtain ⟨m, hm, hs⟩ := h.since (step_leads hg hstep).1
  by_cases hissues : w'.requests = w.requests
  · have hnone : attempts [⟨w, e, w'⟩] = [] := by simp [attempts, Issues, hissues]
    rw [hnone, List.append_nil]
    exact ⟨h.follows, h.made, fun hlive =>
      ⟨m, hm, hs.same (step_choice hg hstep hperiod.not_resumes hissues hlive)⟩⟩
  · have hone : attempts [⟨w, e, w'⟩] = [⟨w, e, w'⟩] := by simp [attempts, Issues, hissues]
    obtain ⟨o, op, r, ⟨rfl, hop⟩, hroute, ha, hwhy⟩ := step_attempt hg hstep hissues
    obtain ⟨rfl, hretried⟩ := hwhy.resolve_left hperiod.not_resumes
    have hbelow := hcount _ hop (by rw [hroute]; rfl)
    have hhost : w.HostAvailable uri w.dl.mccHost := hretried.mccHost ▸ havail _ hop _ hroute
    obtain ⟨hfollows, hsince⟩ :=
      hs.nextAttempt (e := .run o) (h.made m (List.mem_of_getLast? hm)).2 ha hretried hhost
      hbelow
    rw [hone]
    refine ⟨List.isChain_append.2 ⟨h.follows, List.isChain_singleton _, fun a ha' b hb => ?_⟩,
      fun a ha' => ?_, fun _ => ⟨_, by simp, hsince⟩⟩
    · obtain rfl := Option.some.inj (ha'.symm.trans hm)
      obtain rfl := Option.some.inj hb
      exact hfollows
    · rcases List.mem_append.1 ha' with hmem | hmem
      · exact h.made a hmem
      · obtain rfl := List.mem_singleton.1 hmem
        exact ⟨ha.made hbelow, ha.connectionType_ne_none⟩

/-- Without a fallback delay the use of a cache host is never given up. -/
theorem allowed_without_fallback (h : Trans.Reachable (agent uri) w) (hdue : w.dl.mccFallbackDue = none) :
    w.dl.fAllowMcc = true := by
  revert hdue
  refine h.invariant_of (Good uri) (fun _ => good_reachable)
    (fun w => w.dl.mccFallbackDue = none → w.dl.fAllowMcc = true) ?_ ?_
  · intro w hi _
    obtain ⟨url, path, -, hdl⟩ := hi.download
    rw [hdl]
  intro w e w' hg _ hallowed _ hstep hdue
  by_cases he : ∃ o, e = .run o
  case neg =>
    have hs := SameRoute.of_aside (step_aside hg hstep fun o ho => he ⟨o, ho⟩)
    exact hs.fAllowMcc.trans (hallowed (hs.mccFallbackDue.symm.trans hdue))
  obtain ⟨o, rfl⟩ := he
  obtain ⟨⟨op, tag⟩, q, w₁, replies, -, -, hran, rfl⟩ := step_ran hg hstep
  rcases hran.route with hs | ⟨retry, _, w₀, d, hc, hd, -, hdue₁, hallow₁, -⟩
  · exact hs.fAllowMcc.trans (hallowed (hs.mccFallbackDue.symm.trans hdue))
  have hin := hc.calledIn
  have hdue₀ : w₀.dl.mccFallbackDue = none := hd.mccFallbackDue.symm.trans (hdue₁.symm.trans hdue)
  have hbefore : w.dl.mccFallbackDue = none := by
    cases hc with
    | start _ _ hset =>
      have hfallback : w.fallbackDue o = none := hset.mccFallbackDue.symm.trans hdue₀
      unfold World.fallbackDue at hfallback
      split at hfallback
      · exact hfallback
      · cases hfallback
    | resume _ _ hset => exact hset.mccFallbackDue.symm.trans hdue₀
    | timer | retry => exact hdue₀
  have hnext : (nextConnectionType w₀.dl w₀.now retry).2 = w₀.dl.fAllowMcc := by
    unfold nextConnectionType
    rw [hdue₀]
    cases retry with
    | false => rfl
    | true => cases w₀.dl.connectionType <;> rfl
  exact hallow₁.trans (hd.fAllowMcc.trans (hnext.trans (hin.fAllowMcc.trans (hallowed hbefore))))

theorem attempts_append (ms ms' : List (Trans.Move World Event)) :
    attempts (ms ++ ms') = attempts ms ++ attempts ms' := List.filter_append _ _

theorem foldl_attempts (as ms : List (Trans.Move World Event)) :
    ms.foldl (fun as m => as ++ attempts [m]) as = as ++ attempts ms := by
  induction ms generalizing as with
  | nil => exact (List.append_nil _).symm
  | cons m ms ih => rw [List.foldl_cons, ih, List.append_assoc, ← attempts_append, List.singleton_append]

/-- The attempts along a chain. -/
theorem Chain.run {as ms : List (Trans.Move World Event)} (h : Chain uri as w)
    (hr : Trans.Reachable (agent uri) w) (hp : Trans.Path (agent uri) w ms w')
    (hC : ∀ m ∈ ms, SamePeriod m.src m.ev ∧ CacheHostAvailable uri m.src m.ev ∧ CountsUp m.src m.ev) :
    Chain uri (as ++ attempts ms) w' := by
  have hrec := hp.record (C := fun w e => SamePeriod w e ∧ CacheHostAvailable uri w e ∧ CountsUp w e)
    (fun as m => as ++ attempts [m]) (Chain uri)
    (fun as s e s' hs hc hC hst => hc.step (good_reachable hs) hst hC.1 hC.2.1 hC.2.2) hr h hC
  rwa [foldl_attempts] at hrec

/-- **Fair alternation.** In a chain of attempts, the first a start or a resume and the rest retries, of a download
without a fallback delay whose cache host stays to be had, three attempts in a row that bring nothing new
ask both sources, as long as the attempt counter does not wrap. -/
theorem fair_alternation {w₀ w₁ : World} {ms : List (Trans.Move World Event)}
    {m₁ m₂ m₃ : Trans.Move World Event} (hr : Trans.Reachable (agent uri) w₀)
    (hstep : step uri w₀ e = some w₁) (hfirst : w₁.requests ≠ w₀.requests)
    (hdue : w₁.dl.mccFallbackDue = none) (hp : Trans.Path (agent uri) w₁ ms w)
    (hperiod : ∀ m ∈ ms, SamePeriod m.src m.ev) (havail : ∀ m ∈ ms, CacheHostAvailable uri m.src m.ev)
    (hcount : ∀ m ∈ ⟨w₀, e, w₁⟩ :: ms, CountsUp m.src m.ev)
    (hthree : [m₁, m₂, m₃] <:+: attempts (⟨w₀, e, w₁⟩ :: ms)) (hnew₁ : NoNewBytes m₁ m₂)
    (hnew₂ : NoNewBytes m₂ m₃) :
    (∃ m ∈ [m₁, m₂, m₃], ∃ r ∈ m.dst.requests.head?, ToCacheHost uri m.dst r) ∧
      ∃ m ∈ [m₁, m₂, m₃], ∃ r ∈ m.dst.requests.head?, ToOriginalHost m.dst r := by
  have hr₁ := reachable_step hr hstep
  simp only [List.forall_mem_cons] at hcount
  have hstart :=
    chain_start (good_reachable hr) hstep hfirst hdue (allowed_without_fallback hr₁ hdue) hcount.1
  have hchain := hstart.run hr₁ hp fun m hm => ⟨hperiod m hm, havail m hm, hcount.2 m hm⟩
  have hall : attempts (⟨w₀, e, w₁⟩ :: ms) = [⟨w₀, e, w₁⟩] ++ attempts ms := by
    simp [attempts, Issues, hfirst]
  rw [hall] at hthree
  have hfollows := hchain.follows.infix hthree
  simp only [List.isChain_cons_cons] at hfollows
  have hmade : ∀ m ∈ [m₁, m₂, m₃], Made uri m ∧ m.dst.dl.connectionType ≠ .none :=
    fun m hm => hchain.made m (hthree.subset hm)
  have hm₁ := hmade m₁ List.mem_cons_self
  obtain ⟨⟨m, hm, hmcc⟩, m', hm', hcdn⟩ :=
    hfollows.1.both_types hfollows.2.1 hm₁.1.numAttempts hm₁.2 hnew₁ hnew₂
  obtain ⟨r, hreq, hsource⟩ := (hmade m hm).1.source
  obtain ⟨r', hreq', hsource'⟩ := (hmade m' hm').1.source
  exact ⟨⟨m, hm, r, hreq, hsource.resolve_right fun h => nomatch hmcc.symm.trans h.1⟩,
    m', hm', r', hreq', hsource'.resolve_left fun h => nomatch hcdn.symm.trans h.1⟩

/-- What the moves of a chain after its first meet. -/
def InChain (uri : UriLib) (w : World) (e : Event) : Prop :=
  SamePeriod w e ∧ CacheHostAvailable uri w e ∧ CountsUp w e

instance (w : World) (e : Event) : Decidable (InChain uri w e) := inferInstanceAs (Decidable (_ ∧ _ ∧ _))

/-- A connection lost twice, with the retries. -/
def twiceLostRun : List Event := [.drain, .curl (.complete 56 0), .run {}, .run {},
  .drain, .curl (.complete 56 0), .run {}, .tick 2000000000, .run {}]

theorem fair_alternation_twiceLost : ∃ m₁ m₂ m₃ : Trans.Move World Event,
    (∃ m ∈ [m₁, m₂, m₃], ∃ r ∈ m.dst.requests.head?, ToCacheHost plainUri m.dst r) ∧
      ∃ m ∈ [m₁, m₂, m₃], ∃ r ∈ m.dst.requests.head?, ToOriginalHost m.dst r := by
  have hrun : (((agent plainUri).runFrom newDownload [.request .start]).bind fun w₀ =>
      (step plainUri w₀ (.run { mccHost := "cache" })).bind fun w₁ =>
      (((agent plainUri).restrict (InChain plainUri)).runFrom w₁ twiceLostRun).map fun _ =>
        (decide (w₁.requests ≠ w₀.requests), decide (CountsUp w₀ (.run { mccHost := "cache" })),
          w₁.dl.mccFallbackDue, (attempts (⟨w₀, .run { mccHost := "cache" }, w₁⟩ ::
            ((agent plainUri).restrict (InChain plainUri)).moves w₁ twiceLostRun)).map
              (·.src.dl.status.bytesTransferred))) =
      some (true, true, none, [0, 0, 0]) := by decide +kernel
  obtain ⟨w₀, hw₀, hrun⟩ := Option.bind_eq_some_iff.1 hrun
  obtain ⟨w₁, hstep, hrun⟩ := Option.bind_eq_some_iff.1 hrun
  obtain ⟨w, hw, hfacts⟩ := Option.map_eq_some_iff.1 hrun
  simp only [Prod.mk.injEq, decide_eq_true_eq] at hfacts
  obtain ⟨hfirst, hcount, hdue, hbytes⟩ := hfacts
  obtain ⟨hp, hC⟩ := (Trans.path_moves hw).of_restrict
  obtain ⟨m₁, l₁, hthree, hb₁, hl₁⟩ := List.map_eq_cons_iff.1 hbytes
  obtain ⟨m₂, l₂, rfl, hb₂, hl₂⟩ := List.map_eq_cons_iff.1 hl₁
  obtain ⟨m₃, l₃, rfl, hb₃, hl₃⟩ := List.map_eq_cons_iff.1 hl₂
  obtain rfl := List.map_eq_nil_iff.1 hl₃
  exact ⟨m₁, m₂, m₃, fair_alternation (Trans.reachable_of_runFrom reachable_newDownload hw₀) hstep
    hfirst hdue hp
    (fun m hm => (hC m hm).1) (fun m hm => (hC m hm).2.1)
    (List.forall_mem_cons.2 ⟨hcount, fun m hm => (hC m hm).2.2⟩) (hthree ▸ List.infix_rfl)
      (hb₂.trans hb₁.symm)
    (hb₃.trans hb₂.symm)⟩

/-! ## A counter that wraps -/

/-- The download's URL with the cache host in place of its own. -/
def cacheUrl : String := "http://cache/file?cacheHostOrigin=origin"

/-- A request to `type` for `url` is handed over, the `n`-th in a row; `delay` is the retry delay. -/
def requested (now : Int) (delay : Nat) (type : ConnectionType) (url : String) (n : Nat) (completed : Bool)
    (requests : List IssuedRequest) (replies : List (ClientRequest × Except HResult Unit)) : World where
  now := now
  taskQ := TaskQueue.empty.add 0 .progressCheck 10000000000 (some .progressTracker)
  dl := {
    url := "http://origin/file", destFilePath := "/file", status := { state := .transferring }
    progressTracker := { nextRetryDelay := delay }, fileStream := some "/file"
    httpAgent := some { curlHandle := some { url := url, connectTimeout := some 15 } }
    mccHost := if type = .mcc then "cache" else "", numAttemptsWithCurrentConnectionType := n
    connectionType := type, fOriginalHostAttempted := true, fHttpRequestActive := true,
    fDestFileCreated := true }
  curl := { toAdd := some { url := url, range := none }, completedSinceDrain := completed }
  fs := Function.update (fun _ => none) "/file" (some [])
  mcc := {}
  requests := requests
  created := ["/file"]
  replies := replies

/-- That request withdrawn by a pause. -/
def onHold (type : ConnectionType) (url : String) (n : Nat) (requests : List IssuedRequest)
    (replies : List (ClientRequest × Except HResult Unit)) : World :=
  let w := requested 0 1 type url n false requests replies
  { w with
    dl := { w.dl with status := { state := .paused }, fHttpRequestActive := false, fileStream := none }
    curl := {} }

section Wraps

variable {now : Int} {delay n : Nat} {type : ConnectionType} {url : String} {completed : Bool}
  {rs : List IssuedRequest} {replies : List (ClientRequest × Except HResult Unit)}

theorem swap_origin : plainUri.swapUrlHostNameForMCC "http://origin/file" "cache" = .ok cacheUrl := by
  decide +kernel

theorem validateUrl_cacheUrl : validateUrl plainUri cacheUrl = true := by decide +kernel

theorem start_requested : (agent plainUri).runFrom newDownload [.request .start, .run {}] =
    some (requested 0 1 .cdn "http://origin/file" 1 false [⟨"http://origin/file", none, [], 15, 0, 0⟩]
      [(.start, .ok ())]) := by
  let w₀ : World := { newDownload with
      fs := Function.update (fun _ => none) "/file" (some []), created := ["/file"]
      dl :=
        { newDownload.dl with fileStream := some "/file", fDestFileCreated := true, httpAgent := some {} } }
  have hcreate : createDestFile {} newDownload = (.ok (), { newDownload with
      fs := Function.update (fun _ => none) "/file" (some []), created := ["/file"]
      dl := { newDownload.dl with fileStream := some "/file", fDestFileCreated := true } }) := rfl
  have hstart : start plainUri {} newDownload = sendHttpRequest plainUri {} false w₀ := by
    have hurl : newDownload.dl.url.isEmpty = false := by decide +kernel
    have hpath : newDownload.dl.destFilePath.isEmpty = false := by decide +kernel
    simp only [start, DlM.bind_run, DlM.get_run, DlM.ite_run, hcreate, hurl, hpath,
      Bool.false_eq_true, if_false, DlM.modify_run, setMccFallbackDue_run]
    rfl
  have hchoose : updateConnectionTypeAndGetUrl plainUri false w₀ = (.ok "http://origin/file",
      { w₀ with
        dl := { w₀.dl with connectionType := .cdn, numAttemptsWithCurrentConnectionType := 1 } }) := rfl
  have hsend :=
    sendHttpRequest_whole {} rfl hchoose rfl rfl (HttpAgent.sendRequest_first rfl validateUrl_newDownload)
  have hrun : (agent plainUri).runFrom newDownload [.request .start, .run {}] =
      some (runTask plainUri {} (.client .start) newDownload) := rfl
  have hcreated : newDownload.dl.status.state = .created := rfl
  rw [hrun]
  simp only [runTask, clientRequest, performStateChange, DlM.bind_run, DlM.get_run, hcreated]
  rw [hstart, hsend]
  rfl

theorem pause_requested : (agent plainUri).runFrom (requested 0 1 type url n false rs replies)
    [.request .pause, .run {}] = some (onHold type url n rs ((.pause, .ok ()) :: replies)) := rfl

/-- A resume with a cache host turns to it, and counts. -/
theorem start_onHold :
    step plainUri (schedBlock .start (onHold type url n rs replies)) (.run { mccHost := "cache" }) =
    some (requested 0 1 .mcc cacheUrl (if type = .mcc then wrap32 (n + 1) else 1) false
      (⟨cacheUrl, none, [], 3, 0, 0⟩ :: rs) ((.start, .ok ()) :: replies)) := by
  let w : World := { onHold type url n rs replies with
    dl := { (onHold type url n rs replies).dl with mccHost := "cache", fileStream := some "/file" } }
  let count := if type = .mcc then wrap32 (n + 1) else 1
  have hchoose : updateConnectionTypeAndGetUrl plainUri false w = (.ok cacheUrl,
      { w with
        dl := { w.dl with connectionType := .mcc, numAttemptsWithCurrentConnectionType := count } }) := by
    have h : updateConnectionTypeAndGetUrl plainUri false w =
        match plainUri.swapUrlHostNameForMCC "http://origin/file" "cache" with
        | .ok u => (.ok u, { w with dl := w.dl.setConnectionType .mcc })
        | .error hr => (.error hr, w) := rfl
    rw [h, swap_origin]
    cases type <;> rfl
  have hsend := sendHttpRequest_whole { mccHost := "cache" } rfl hchoose rfl rfl
    (HttpAgent.sendRequest_valid rfl rfl rfl validateUrl_cacheUrl)
  have hresume : resume plainUri { mccHost := "cache" } (onHold type url n rs replies) =
      sendHttpRequest plainUri { mccHost := "cache" } false w := rfl
  have hrun : step plainUri (schedBlock .start (onHold type url n rs replies)) (.run { mccHost := "cache" }) =
      some (runTask plainUri { mccHost := "cache" } (.client .start) (onHold type url n rs replies)) := rfl
  have hpaused : (onHold type url n rs replies).dl.status.state = .paused := rfl
  rw [hrun]
  simp only [runTask, clientRequest, performStateChange, DlM.bind_run, DlM.get_run, hpaused]
  rw [hresume, hsend]
  rfl

theorem popNextReady_requested {op : Op} {queued delay' : Int} (hdue : queued + TaskQueue.adjustedDelay delay' ≤ now)
    (hlt : now < 10000000000) :
    ((requested now delay type url n completed rs replies).taskQ.add queued op delay'
      (some .download)).popNextReady
      now = some (⟨op, some .download⟩, (requested now delay type url n completed rs replies).taskQ) := by
  refine TaskQueue.popNextReady_add (fun e he => ?_) hdue
  have hentries : (requested now delay type url n completed rs replies).taskQ.ops.entries =
      [(10000000000, ⟨.progressCheck, some .progressTracker⟩)] := rfl
  rw [hentries, List.mem_singleton] at he
  exact he ▸ hdue.trans_lt hlt

/-- The connection of a request to the cache host is lost; the report of it is queued. -/
def lost (now : Int) (delay n : Nat) (requests : List IssuedRequest)
    (replies : List (ClientRequest × Except HResult Unit)) : World :=
  let w := requested now delay .mcc cacheUrl n true requests replies
  { w with
    taskQ :=
      w.taskQ.add now (.transferFailed (HttpAgent.curlErrorCodeToHResult 56) S_OK 0 "") 0 (some .download)
    dl := { w.dl with httpAgent := some {
      curlHandle := some { url := cacheUrl, connectTimeout := some 15 }, responseOnCompleteInvoked := true
      hrTranslatedStatusCode := HttpAgent.curlErrorCodeToHResult 56 } }
    curl := { completedSinceDrain := true } }

/-- A retry of it is queued, since `failedAt`. -/
def waiting (failedAt now : Int) (delay n : Nat) (requests : List IssuedRequest)
    (replies : List (ClientRequest × Except HResult Unit)) : World :=
  let w := lost now delay n requests replies
  { w with
    taskQ :=
      (requested now delay .mcc cacheUrl n true requests replies).taskQ.add failedAt .retry (seconds delay)
      (some .download)
    dl := { w.dl with
      status := { state := .transferring, error := HttpAgent.curlErrorCodeToHResult 56 },
      fHttpRequestActive := false } }

theorem pop_lost (hlt : now < 10000000000) : (lost now delay n rs replies).taskQ.popNextReady now =
    some (⟨.transferFailed (HttpAgent.curlErrorCodeToHResult 56) S_OK 0 "", some .download⟩,
      (requested now delay .mcc cacheUrl n true rs replies).taskQ) :=
  popNextReady_requested (by simp) hlt

theorem pop_waiting {failedAt : Int} (hdue : failedAt + seconds delay ≤ now) (hlt : now < 10000000000) :
    (waiting failedAt now delay n rs replies).taskQ.popNextReady now =
      some (⟨.retry, some .download⟩, (requested now delay .mcc cacheUrl n true rs replies).taskQ) := by
  refine popNextReady_requested ?_ hlt
  rwa [TaskQueue.adjustedDelay_seconds (by omega)]

theorem lost_run (hlt : now < 10000000000) : step plainUri (lost now delay n rs replies) (.run {}) =
    some (waiting now now (min 30 (delay * 2)) n rs replies) := by
  let w : World := { lost now delay n rs replies with
    taskQ := (requested now delay .mcc cacheUrl n true rs replies).taskQ }
  have hfatal : w.dl.isFatalError (HttpAgent.curlErrorCodeToHResult 56) S_OK 0 = false := by
    have hok : failed S_OK = false := by decide
    have hclient : isClientError 0 = false := by decide
    simp only [Download.isFatalError, hok, hclient, Bool.false_eq_true, if_false, Bool.false_and]
    decide
  have hreport : MccManager.reportHostError plainUri {} now (HttpAgent.curlErrorCodeToHResult 56) 0 "cache"
      "http://origin/file" = {} := by
    have hclient : isClientError 0 = false := by decide
    have hother : ¬ ((HttpAgent.curlErrorCodeToHResult 56 = WININET_E_TIMEOUT ∨
        HttpAgent.curlErrorCodeToHResult 56 = ERROR_WINHTTP_NAME_NOT_RESOLVED) ∨
        HttpAgent.curlErrorCodeToHResult 56 = ERROR_WINHTTP_CANNOT_CONNECT) := by decide
    simp [MccManager.reportHostError, hclient, hother]
  have hnoted : w.failureNoted plainUri {} (HttpAgent.curlErrorCodeToHResult 56) 0 "" =
      { w with
        dl := { w.dl with fHttpRequestActive := false }
        mcc := MccManager.reportHostError plainUri {} now (HttpAgent.curlErrorCodeToHResult 56) 0 "cache"
          "http://origin/file" } := rfl
  rw [(step_run_of_pop rfl (pop_lost hlt)).2]
  show some (runTask plainUri {} _ w) = _
  simp only [runTask, runOp, transferFailed_noted]
  rw [if_neg (by decide), if_neg (by rw [hfatal]; decide), hnoted, hreport]
  rfl

theorem waiting_run {failedAt : Int} (hdue : failedAt + seconds delay ≤ now) (hlt : now < 10000000000)
    (hn : n < 2) :
    step plainUri (waiting failedAt now delay n rs replies) (.run {}) =
      some (requested now delay .mcc cacheUrl (wrap32 (n + 1)) true (⟨cacheUrl, none, [], 3, now, 0⟩ :: rs)
        replies) := by
  let w : World := { waiting failedAt now delay n rs replies with
    taskQ := (requested now delay .mcc cacheUrl n true rs replies).taskQ }
  have hchoose : updateConnectionTypeAndGetUrl plainUri true w =
      (.ok cacheUrl, { w with
        dl := { w.dl with numAttemptsWithCurrentConnectionType := wrap32 (n + 1) } }) := by
    have henough : decide (2 ≤ n) = false := by simpa using hn
    have hnext : nextConnectionType w.dl w.now true = (.mcc, true) := by
      have h : nextConnectionType w.dl w.now true =
          (if true && !(true && decide (2 ≤ n)) then .mcc else .cdn, true) := rfl
      rw [h, henough]
      rfl
    have huses : usesMcc plainUri w .mcc true = true := rfl
    have hswap : plainUri.swapUrlHostNameForMCC w.dl.url w.dl.mccHost = .ok cacheUrl := swap_origin
    simp only [updateConnectionTypeAndGetUrl, DlM.bind_run, DlM.get_run, DlM.modify_run, hnext,
      if_pos huses, hswap, DlM.liftExcept_run, DlM.pure_run]
    rfl
  have hsend := sendHttpRequest_whole {} rfl hchoose rfl rfl
    (HttpAgent.sendRequest_valid rfl rfl rfl validateUrl_cacheUrl)
  have hready : w.dl.status.state = .transferring ∧ ¬ w.dl.fHttpRequestActive := ⟨rfl, by rintro ⟨⟩⟩
  rw [(step_run_of_pop rfl (pop_waiting hdue hlt)).2]
  show some (runTask plainUri {} _ w) = _
  simp only [runTask, runOp, DlM.bind_run, DlM.get_run, DlM.ite_run, if_pos hready]
  rw [hsend]
  rfl

/-- The retry after a lost request to the cache host, the second or third in a row. -/
def retryMove (failedAt now : Int) (delay n : Nat) (requests : List IssuedRequest)
    (replies : List (ClientRequest × Except HResult Unit)) : Trans.Move World Event :=
  ⟨waiting failedAt now delay n requests replies, .run {},
    requested now delay .mcc cacheUrl (wrap32 (n + 1)) true (⟨cacheUrl, none, [], 3, now, 0⟩ :: requests) replies⟩

/-- A request lost, and the retry once its delay is over. -/
theorem path_retried {now' : Int} {delay' : Nat} (hdelay : min 30 (delay * 2) = delay')
    (hnow : now + seconds delay' = now') (hlt : now' < 10000000000) (hn : n < 2) :
    ∃ ms, Trans.Path (agent plainUri) (requested now delay .mcc cacheUrl n completed rs replies) ms
        (retryMove now now' delay' n rs replies).dst ∧
      attempts ms = [retryMove now now' delay' n rs replies] ∧
      ∀ m ∈ ms, SamePeriod m.src m.ev ∧ CacheHostAvailable plainUri m.src m.ev := by
  let w := requested now delay .mcc cacheUrl n completed rs replies
  let w₁ : World := { w with curl := w.curl.drain }
  let w₂ := lost now delay n rs replies
  let w₃ := waiting now now delay' n rs replies
  let w₄ := waiting now now' delay' n rs replies
  have hpositive : 0 ≤ seconds delay' := by simp only [seconds, milliseconds]; omega
  have hbefore : now < 10000000000 := by omega
  let elapsed := (seconds delay').toNat
  have hdrain : (agent plainUri).step w .drain = some w₁ := rfl
  have hlost : (agent plainUri).step w₁ (.curl (.complete 56 0)) = some w₂ := rfl
  have hfailed : (agent plainUri).step w₂ (.run {}) = some w₃ := (lost_run hbefore).trans (by rw [hdelay])
  have hwaited : (agent plainUri).step w₃ (.tick elapsed) = some w₄ := by
    have h : (agent plainUri).step w₃ (.tick elapsed) = some { w₃ with now := now + elapsed } := rfl
    rw [h, Int.toNat_of_nonneg hpositive, hnow]
    rfl
  have hretried : (agent plainUri).step w₄ (.run {}) = some _ := waiting_run hnow.le hlt hn
  have hpath := ((((Trans.Path.nil.snoc hdrain).snoc hlost).snoc hfailed).snoc hwaited).snoc hretried
  refine ⟨_, hpath, ?_, ?_⟩
  · let last := retryMove now now' delay' n rs replies
    have hquiet : ∀ (w : World) e (w' : World), w'.requests = w.requests → attempts [⟨w, e, w'⟩] = [] :=
      fun w e w' h => by simp [attempts, Issues, h]
    have hquiet₁ := hquiet w .drain w₁ rfl
    have hquiet₂ := hquiet w₁ (.curl (.complete 56 0)) w₂ rfl
    have hquiet₃ := hquiet w₂ (.run {}) w₃ rfl
    have hquiet₄ := hquiet w₃ (.tick elapsed) w₄ rfl
    have hissues : attempts [last] = [last] := by
      simp [attempts, Issues, last, retryMove, requested, waiting, lost]
    simp only [attempts_append]
    rw [hquiet₁, hquiet₂, hquiet₃, hquiet₄]
    exact hissues
  · simp only [List.nil_append, List.forall_mem_append, List.forall_mem_singleton]
    have hop₂ : w₂.nextOp = some (.transferFailed (HttpAgent.curlErrorCodeToHResult 56) S_OK 0 "") :=
      congrArg _ (pop_lost hbefore)
    have hop₄ : w₄.nextOp = some .retry := congrArg _ (pop_waiting hnow.le hlt)
    have hsame₂ : SamePeriod w₂ (.run {}) := by simp [SamePeriod, Resumes, hop₂]
    have hsame₄ : SamePeriod w₄ (.run {}) := by simp [SamePeriod, Resumes, hop₄]
    have hhost₂ : CacheHostAvailable plainUri w₂ (.run {}) := by simp [CacheHostAvailable, hop₂, Op.route]
    have hroute₄ : Op.route w₄ {} .retry = some ("cache", none) := rfl
    have hhost₄ : CacheHostAvailable plainUri w₄ (.run {}) := by
      simp only [CacheHostAvailable, hop₄, hroute₄, Option.mem_some_iff, forall_eq']
      exact ⟨rfl, rfl⟩
    exact ⟨⟨⟨⟨⟨trivial, trivial⟩, trivial, trivial⟩, hsame₂, hhost₂⟩, trivial, trivial⟩, hsame₄, hhost₄⟩

/-- The call of a resume. -/
theorem reachable_start {w : World} (hr : Trans.Reachable (agent plainUri) w) (hlive : w.terminated = false) :
    Trans.Reachable (agent plainUri) (schedBlock .start w) :=
  reachable_step hr (e := .request .start) (by simp [step, hlive])

/-- As many pauses and resumes as it takes bring the counter to any value. -/
theorem reachable_requested {k : Nat} (hk : k + 1 < 2 ^ 32) : ∃ rs replies,
    Trans.Reachable (agent plainUri) (requested 0 1 .mcc cacheUrl (k + 1) false rs replies) := by
  induction k with
  | zero =>
    have hstarted := Trans.reachable_of_runFrom reachable_newDownload start_requested
    have hpaused := Trans.reachable_of_runFrom hstarted pause_requested
    exact ⟨_, _, reachable_step (reachable_start hpaused rfl) start_onHold⟩
  | succ k ih =>
    obtain ⟨rs, replies, hr⟩ := ih (by omega)
    have hpaused := Trans.reachable_of_runFrom hr pause_requested
    have hresumed := reachable_step (reachable_start hpaused rfl) start_onHold
    rw [if_pos rfl, wrap32, Nat.mod_eq_of_lt hk] at hresumed
    exact ⟨_, _, hresumed⟩

end Wraps

/-- After `2 ^ 32` resumes with the cache host it is asked three times in a row. -/
theorem not_fair_alternation : ¬ ∀ (uri : UriLib) (w₀ w₁ w : World) (e : Event)
    (ms : List (Trans.Move World Event)) (m₁ m₂ m₃ : Trans.Move World Event), Trans.Reachable (agent uri) w₀ →
    step uri w₀ e = some w₁ → w₁.requests ≠ w₀.requests → w₁.dl.mccFallbackDue = none →
    Trans.Path (agent uri) w₁ ms w → (∀ m ∈ ms, SamePeriod m.src m.ev) →
    (∀ m ∈ ms, CacheHostAvailable uri m.src m.ev) → [m₁, m₂, m₃] <:+: attempts (⟨w₀, e, w₁⟩ :: ms) →
    NoNewBytes m₁ m₂ → NoNewBytes m₂ m₃ →
    (∃ m ∈ [m₁, m₂, m₃], ∃ r ∈ m.dst.requests.head?, ToCacheHost uri m.dst r) ∧
      ∃ m ∈ [m₁, m₂, m₃], ∃ r ∈ m.dst.requests.head?, ToOriginalHost m.dst r := by
  intro hfair
  obtain ⟨rs, replies, hr⟩ := reachable_requested (k := 2 ^ 32 - 2) (by decide)
  let w₀ := schedBlock .start (onHold .mcc cacheUrl (2 ^ 32 - 2 + 1) rs ((.pause, .ok ()) :: replies))
  let rs₁ : List IssuedRequest := ⟨cacheUrl, none, [], 3, 0, 0⟩ :: rs
  let replies₁ := (.start, .ok ()) :: (.pause, .ok ()) :: replies
  let w₁ := requested 0 1 .mcc cacheUrl 0 false rs₁ replies₁
  let m₁ : Trans.Move World Event := ⟨w₀, .run { mccHost := "cache" }, w₁⟩
  let m₂ := retryMove 0 (seconds 2) 2 0 rs₁ replies₁
  let m₃ := retryMove (seconds 2) (seconds 6) 4 1 (⟨cacheUrl, none, [], 3, seconds 2, 0⟩ :: rs₁) replies₁
  have hr₀ : Trans.Reachable (agent plainUri) w₀ :=
    reachable_start (Trans.reachable_of_runFrom hr pause_requested) rfl
  have hstep : step plainUri w₀ (.run { mccHost := "cache" }) = some w₁ := by
    have hcount : wrap32 (2 ^ 32 - 2 + 1 + 1) = 0 := by decide
    rw [start_onHold, if_pos rfl, hcount]
  obtain ⟨ms₁, hp₁, hattempts₁, hms₁⟩ :
    ∃ ms, Trans.Path (agent plainUri) w₁ ms m₂.dst ∧ attempts ms = [m₂] ∧ _ :=
    path_retried rfl rfl (by decide) (by decide)
  obtain ⟨ms₂, hp₂, hattempts₂, hms₂⟩ :
    ∃ ms, Trans.Path (agent plainUri) m₂.dst ms m₃.dst ∧ attempts ms = [m₃] ∧ _ :=
    path_retried rfl rfl (by decide) (by decide)
  have hall := List.forall_mem_append.2 ⟨hms₁, hms₂⟩
  have hfirst : w₁.requests ≠ w₀.requests := by simp [w₁, w₀, rs₁, requested, schedBlock, onHold]
  have hthree : attempts (m₁ :: (ms₁ ++ ms₂)) = [m₁, m₂, m₃] := by
    have hone : attempts [m₁] = [m₁] := by simp [attempts, Issues, m₁, hfirst]
    rw [show m₁ :: (ms₁ ++ ms₂) = [m₁] ++ (ms₁ ++ ms₂) from rfl, attempts_append, attempts_append, hone,
      hattempts₁, hattempts₂]
    rfl
  have hboth := hfair plainUri _ _ _ _ _ m₁ m₂ m₃ hr₀ hstep hfirst rfl (hp₁.append hp₂)
    (fun m hm => (hall m hm).1) (fun m hm => (hall m hm).2) (hthree ▸ List.infix_rfl) rfl rfl
  obtain ⟨m, hm, r, hreq, horiginal, -⟩ := hboth.2
  simp only [List.mem_cons, List.not_mem_nil, or_false] at hm
  rcases hm with rfl | rfl | rfl <;> cases horiginal

end DoClient
