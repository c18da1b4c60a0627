/-
The life of the downloads in the service: what the map, the calls and the queue
refer to is there, a download leaves the map when it is gone, and it is
destroyed when nobody refers to it.
-/
import DoClient.Alone

namespace DoClient

open HResult

namespace Service

/-- The operation the task thread takes next. -/
def nextOp (s : Service) : Option ServiceOp := (s.taskQ.popNextReady s.now).map (·.1.op)

/-- The download the next operation gives a path, and the path. -/
def nextPath (s : Service) : Option (Nat × String) :=
  match s.nextOp with
  | some (.call _ k (.download (.setProperty .localPath value))) => some (k, value)
  | _ => none

/-- What is taken for granted of an event: files close, a client gives no other path to a
download that has made its file, and a new id is new. -/
def Allows (s : Service) : ServiceEvent → Prop
  | .run o => o.closeErr = none ∧ ∀ x ∈ s.nextPath, ∀ d ∈ s.objects x.1, d.dl.status.state = .created →
      d.dl.fDestFileCreated = true → x.2.isEmpty = true ∨ x.2 = d.dl.destFilePath
  | .create id _ _ => ∀ k < s.numObjects, ∀ d ∈ s.objects k, guidToString d.id ≠ guidToString id
  | _ => True

instance (s : Service) : ∀ e, Decidable (s.Allows e)
  | .run _ => inferInstanceAs (Decidable (_ ∧ _))
  | .create _ _ _ => inferInstanceAs (Decidable (∀ k < _, _))
  | .tick _ | .call _ _ | .sched _ | .wake _ | .leave _ | .destroyed
    _ | .isIdle | .refreshAdminConfigs | .drain _
  | .curl _ _ => .isTrue trivial

end Service

/-- The operation of a Finalize or an Abort did not throw. -/
def Call.Ended (call : Call) : Prop :=
  (call.request = .download .finalize ∨ call.request = .download .abort) ∧
    ∃ answer, call.state = .ran (.ok answer) ∨ call.state = .returning (.ok answer)

namespace Service

/-- Each download is as if alone, and no two have the same file. -/
structure Apart (uri : UriLib) (s : Service) : Prop where
  alone : ∀ k d, s.objects k = some d → s.AsIfAlone uri k d
  owners : ∀ i k c d, s.objects i = some c → s.objects k = some d → c.dl.OwnsFile → d.dl.OwnsFile →
    c.dl.destFilePath = d.dl.destFilePath → i = k

/-- What the map and the calls refer to. -/
structure Listed (s : Service) : Prop where
  keys : ∀ k d, s.objects k = some d → k < s.numObjects
  ids : ∀ i k c d, s.objects i = some c → s.objects k = some d → guidToString c.id = guidToString d.id → i = k
  listed : ∀ e ∈ s.downloads, ∃ d, s.objects e.2 = some d ∧ d.dying = false ∧ guidToString d.id = e.1
  unlisted : ∀ k d, s.objects k = some d →
    d.dl.status.state.gone = true ∨ d.dying = false ∧ (guidToString d.id, k) ∈ s.downloads
  calls : ∀ c call, s.calls c = some call → c < s.numCalls ∧ ∃ d, s.objects call.key = some d ∧
    d.dying = false ∧ guidToString d.id = call.downloadId ∧ (call.Ended → d.dl.status.state.gone = true)

/-- A task of the queue: a lambda of a download that is there, the operation of a call that
waits, or the manager's own. -/
inductive Queued (s : Service) : Task ServiceOp ServiceTag → Prop
  | lambda {k : Nat} {op : Lambda} : (s.objects k).isSome = true → Queued s (ServiceOp.lambdaTask k op)
  | call {c : Nat} {call : Call} : s.calls c = some call → call.state = .waiting →
    Queued s ⟨.call c call.key call.request, none⟩
  | refreshAdminConfigs : Queued s ⟨.refreshAdminConfigs, some .manager⟩

/-- What is queued. -/
structure Scheduled (s : Service) : Prop where
  queue : ∀ t ∈ s.taskQ.tasks, s.Queued t
  waiting : ∀ c call, s.calls c = some call → call.state = .waiting → s.taskQ.countCall c = 1
  dangling : s.dangling = false

/-- What holds of every state the service reaches. -/
structure Sound (uri : UriLib) (s : Service) : Prop where
  apart : s.Apart uri
  listed : s.Listed
  scheduled : s.Scheduled

end Service

open Service

variable {uri : UriLib} {o : Outside} {s s' : Service} {k j : Nat} {d d' : DownloadObject}

/-! ## Downloads apart -/

theorem Service.Apart.congr (h : s.Apart uri) (hobjects : s'.objects = s.objects) (hnow : s'.now = s.now)
    (hqueue : ∀ k d, s.objects k = some d → s'.taskQ.own k = s.taskQ.own k) (hmcc : s'.mcc = s.mcc)
    (hfs : s'.fs = s.fs) (hterminated : s'.terminated = s.terminated) : s'.Apart uri where
  alone k d hk := by
    rw [hobjects] at hk
    exact (h.alone k d hk).congr hnow (hqueue k d hk) hmcc hfs hterminated
  owners i k c d hi hk := by
    rw [hobjects] at hi hk
    exact h.owners i k c d hi hk

/-- What one download does to the service leaves the others as if alone. -/
theorem Service.Apart.acts (h : s.Apart uri) (hlive : s.terminated = false) {q : ServiceQueue}
    (hq : ∀ j, j ≠ k → q.own j = s.taskQ.own j) (hk : s.objects k = some d)
    (ha : Acts uri { s with taskQ := q } s' k d d') (hself : s'.AsIfAlone uri k d') : s'.Apart uri := by
  have hfile : ∀ {j c}, j ≠ k → s.objects j = some c → c.dl.OwnsFile →
      s'.fs c.dl.destFilePath = s.fs c.dl.destFilePath := fun {j c} hj hc howns => by
    by_contra hne
    obtain ⟨hpath, hgone, hmade | hnone⟩ := ha.writes _ hne
    · exact hj (h.owners j k c d hc hk howns ⟨hmade, hgone⟩ hpath)
    · exact (h.alone j c hc).hasFile howns hnone
  have hmine : ∀ {j c}, j ≠ k → s.objects j = some c → c.dl.OwnsFile → d'.dl.OwnsFile →
      c.dl.destFilePath ≠ d'.dl.destFilePath := fun {j c} hj hc howns howns' hpath => by
    obtain ⟨hsame, hd | hnone⟩ := ha.owns howns'
    · exact hj (h.owners j k c d hc hk howns hd (hpath.trans hsame))
    · rw [hsame] at hpath
      exact (h.alone j c hc).hasFile howns (hpath ▸ hnone)
  have hother : ∀ {j c}, j ≠ k → s'.objects j = some c → s.objects j = some c := fun {j c} hj hc => by
    rw [ha.objects, Function.update_of_ne hj] at hc
    exact hc
  have hsame : ∀ {c}, s'.objects k = some c → c = d' := fun {c} hc => by
    rw [ha.objects, Function.update_self] at hc
    exact (Option.some.inj hc).symm
  refine ⟨fun j c hc => ?_, fun i j b c hb hc hbowns hcowns hpath => ?_⟩
  · by_cases hj : j = k
    · subst hj
      obtain rfl := hsame hc
      exact hself
    · exact (h.alone j c (hother hj hc)).frame hlive ha.now ((ha.queue j hj).trans (hq j hj)) ha.mcc
        (hfile hj (hother hj hc))
  · by_cases hi : i = k <;> by_cases hj : j = k
    · rw [hi, hj]
    · subst hi
      obtain rfl := hsame hb
      exact absurd hpath.symm (hmine hj (hother hj hc) hcowns hbowns)
    · subst hj
      obtain rfl := hsame hc
      exact absurd hpath (hmine hi (hother hi hb) hbowns hcowns)
    · exact h.owners i j b c (hother hi hb) (hother hj hc) hbowns hcowns hpath

/-- One download's record changes, or goes. -/
theorem Service.Apart.update (h : s.Apart uri) (hk : s.objects k = some d) {x : Option DownloadObject}
    (hx : ∀ d', x = some d' → d'.dl = d.dl ∧ s.AsIfAlone uri k d') :
    Apart uri { s with objects := Function.update s.objects k x } := by
  have hback : ∀ {j c}, Function.update s.objects k x j = some c →
      s.AsIfAlone uri j c ∧ ∃ b, s.objects j = some b ∧ c.dl = b.dl := fun {j c} hc => by
    by_cases hj : j = k
    · subst hj
      rw [Function.update_self] at hc
      exact ⟨(hx c hc).2, d, hk, (hx c hc).1⟩
    · rw [Function.update_of_ne hj] at hc
      exact ⟨h.alone j c hc, c, hc, rfl⟩
  refine ⟨fun j c hc => (hback hc).1.congr rfl rfl rfl rfl rfl, fun i j b c hb hc hbowns hcowns hpath => ?_⟩
  obtain ⟨-, b₀, hb₀, hbdl⟩ := hback hb
  obtain ⟨-, c₀, hc₀, hcdl⟩ := hback hc
  rw [hbdl] at hbowns hpath
  rw [hcdl] at hcowns hpath
  exact h.owners i j b₀ c₀ hb₀ hc₀ hbowns hcowns hpath

/-! ## What is referred to -/

/-- A download changes, and nobody comes or goes. -/
theorem Service.Listed.update (h : s.Listed) (d' : DownloadObject) (hk : s.objects k = some d)
    (hobjects : s'.objects = Function.update s.objects k (some d')) (hid : d'.id = d.id)
    (hdying : d'.dying = d.dying) (hgone : d.dl.status.state.gone = true → d'.dl.status.state.gone = true)
    (hdownloads : s'.downloads = s.downloads) (hcalls : s'.calls = s.calls)
    (hnum : s'.numObjects = s.numObjects) (hnumCalls : s'.numCalls = s.numCalls) : s'.Listed := by
  -- who is there after was there before, under the same id
  have hback : ∀ {i c}, s'.objects i = some c → ∃ b, s.objects i = some b ∧ c.id = b.id ∧ c.dying = b.dying ∧
      (b.dl.status.state.gone = true → c.dl.status.state.gone = true) := fun {i c} hc => by
    rw [hobjects] at hc
    by_cases hi : i = k
    · subst hi
      rw [Function.update_self] at hc
      obtain rfl := Option.some.inj hc
      exact ⟨d, hk, hid, hdying, hgone⟩
    · rw [Function.update_of_ne hi] at hc
      exact ⟨c, hc, rfl, rfl, id⟩
  have hforth : ∀ {i b}, s.objects i = some b → ∃ c, s'.objects i = some c ∧ c.id = b.id ∧ c.dying = b.dying ∧
      (b.dl.status.state.gone = true → c.dl.status.state.gone = true) := fun {i b} hb => by
    rw [hobjects]
    by_cases hi : i = k
    · subst hi
      obtain rfl := Option.some.inj (hk.symm.trans hb)
      exact ⟨d', by rw [Function.update_self], hid, hdying, hgone⟩
    · exact ⟨b, by rw [Function.update_of_ne hi, hb], rfl, rfl, id⟩
  refine ⟨fun i c hc => ?_, fun i j b c hb hc heq => ?_, fun e he => ?_, fun i c hc => ?_,
    fun n call hcall => ?_⟩
  · obtain ⟨b, hb, -⟩ := hback hc
    exact hnum ▸ h.keys i b hb
  · obtain ⟨b₀, hb₀, hbid, -⟩ := hback hb
    obtain ⟨c₀, hc₀, hcid, -⟩ := hback hc
    exact h.ids i j b₀ c₀ hb₀ hc₀ (hbid ▸ hcid ▸ heq)
  · obtain ⟨b, hb, hlive, heq⟩ := h.listed e (hdownloads ▸ he)
    obtain ⟨c, hc, hcid, hcdying, -⟩ := hforth hb
    exact ⟨c, hc, hcdying.trans hlive, hcid ▸ heq⟩
  · obtain ⟨b, hb, hcid, hcdying, hcgone⟩ := hback hc
    rw [hdownloads, hcid, hcdying]
    exact (h.unlisted i b hb).imp_left hcgone
  · rw [hcalls] at hcall
    obtain ⟨hn, b, hb, hlive, heq, hended⟩ := h.calls n call hcall
    obtain ⟨c, hc, hcid, hcdying, hcgone⟩ := hforth hb
    exact ⟨hnumCalls ▸ hn, c, hc, hcdying.trans hlive, hcid ▸ heq, fun he => hcgone (hended he)⟩

/-- A call that refers to a download of the map, ended only where the download is gone. -/
def Service.Refers (s : Service) (call : Call) : Prop := ∃ d, s.objects call.key = some d ∧ d.dying = false ∧
  guidToString d.id = call.downloadId ∧ (call.Ended → d.dl.status.state.gone = true)

/-- Calls come and go. -/
theorem Service.Listed.setCalls (h : s.Listed) (hobjects : s'.objects = s.objects)
    (hdownloads : s'.downloads = s.downloads) (hnum : s'.numObjects = s.numObjects)
    (hcalls : ∀ c call, s'.calls c = some call → c < s'.numCalls ∧ s.Refers call) : s'.Listed where
  keys := by rw [hobjects, hnum]; exact h.keys
  ids := by rw [hobjects]; exact h.ids
  listed := by rw [hobjects, hdownloads]; exact h.listed
  unlisted := by rw [hobjects, hdownloads]; exact h.unlisted
  calls c call hcall := by
    obtain ⟨hc, hrefers⟩ := hcalls c call hcall
    rw [hobjects]
    exact ⟨hc, hrefers⟩

theorem Service.Listed.update_call (h : s.Listed) {c n : Nat} {call : Call} (hc : s.calls c = some call)
    (call' : Call) (hkey : call'.key = call.key) (hid : call'.downloadId = call.downloadId)
    (hended : call'.Ended → ∀ d, s.objects call.key = some d → d.dl.status.state.gone = true)
    {other : Call} (hother : Function.update s.calls c (some call') n = some other) :
    n < s.numCalls ∧ s.Refers other := by
  by_cases hn : n = c
  · subst hn
    rw [Function.update_self] at hother
    obtain rfl := Option.some.inj hother
    obtain ⟨hlt, d, hd, hlive, heq, -⟩ := h.calls n call hc
    exact ⟨hlt, d, hkey ▸ hd, hlive, hid ▸ heq, fun he => hended he d hd⟩
  · rw [Function.update_of_ne hn] at hother
    exact h.calls n other hother

/-! ## What is queued -/

theorem Service.Queued.mono {t : Task ServiceOp ServiceTag} (h : s.Queued t)
    (hobjects : ∀ k, (s.objects k).isSome = true → (s'.objects k).isSome = true)
    (hcalls : ∀ c call, t.op.isCall c = true → s.calls c = some call → s'.calls c = some call) :
    s'.Queued t := by
  cases h with
  | lambda hk => exact .lambda (hobjects _ hk)
  | call hc hw => exact .call (hcalls _ _ (by simp [ServiceOp.isCall]) hc) hw
  | refreshAdminConfigs => exact .refreshAdminConfigs

theorem isSome_update {i : Nat} (hi : (s.objects i).isSome = true) :
    (Function.update s.objects k (some d') i).isSome = true := by
  by_cases hik : i = k
  · rw [hik, Function.update_self]
    rfl
  · rwa [Function.update_of_ne hik]

theorem countCall_eq_zero {c : Nat} {q : ServiceQueue} :
    q.countCall c = 0 ↔ ∀ t ∈ q.tasks, t.op.isCall c = false := by
  rw [ServiceQueue.countCall, List.countP_eq_zero, TaskQueue.tasks, List.forall_mem_map]
  simp

/-- A call that does not wait has nothing queued. -/
theorem Service.Scheduled.countCall_of_not_waiting (h : s.Scheduled) {c : Nat}
    (hc : ∀ call, s.calls c = some call → call.state ≠ .waiting) : s.taskQ.countCall c = 0 := by
  refine countCall_eq_zero.2 fun t ht => ?_
  cases h.queue t ht with
  | lambda hk => rfl
  | @call n call hcall hw =>
    refine decide_eq_false fun heq => ?_
    subst heq
    exact hc call hcall hw
  | refreshAdminConfigs => rfl

/-- Tasks are taken out of the queue, none that a call waits for, or put there by a download. -/
theorem Service.Scheduled.acts (h : s.Scheduled)
    (hobjects : ∀ i, (s.objects i).isSome = true → (s'.objects i).isSome = true)
    (hk : (s.objects k).isSome = true)
    (htasks : ∀ t ∈ s'.taskQ.tasks, t ∈ s.taskQ.tasks ∨ ∃ op, t = ServiceOp.lambdaTask k op)
    (hcount : ∀ c, s'.taskQ.countCall c = s.taskQ.countCall c) (hcalls : s'.calls = s.calls)
    (hdangling : s'.dangling = s.dangling) : s'.Scheduled := by
  refine ⟨fun t ht => ?_, fun c call hc hw => ?_, hdangling.trans h.dangling⟩
  · rcases htasks t ht with hold | ⟨op, rfl⟩
    · exact (h.queue t hold).mono hobjects fun c call _ hc => hcalls ▸ hc
    · exact .lambda (hobjects k hk)
  · rw [hcount]
    exact h.waiting c call (hcalls ▸ hc) hw

/-- A call changes that has nothing queued, and does not wait then. -/
theorem Service.Scheduled.setCalls (h : s.Scheduled) {c : Nat}
    (hobjects : s'.objects = s.objects) (htaskQ : ∀ t ∈ s'.taskQ.tasks, t ∈ s.taskQ.tasks)
    (hcount : ∀ n, n ≠ c → s'.taskQ.countCall n = s.taskQ.countCall n) (hnone : s'.taskQ.countCall c = 0)
    (hnew : ∀ call, s'.calls c = some call → call.state ≠ .waiting)
    (hcalls : ∀ n, n ≠ c → s'.calls n = s.calls n) (hdangling : s'.dangling = s.dangling) : s'.Scheduled := by
  refine ⟨fun t ht => ?_, fun n call hn hw => ?_, hdangling.trans h.dangling⟩
  · refine (h.queue t (htaskQ t ht)).mono (fun k hk => hobjects ▸ hk) fun n call hcall hn => ?_
    have hne : n ≠ c := by
      rintro rfl
      exact absurd (hcall.symm.trans (countCall_eq_zero.1 hnone t ht)) Bool.noConfusion
    exact (hcalls n hne).trans hn
  · have hne : n ≠ c := by
      rintro rfl
      exact hnew call hn hw
    rw [hcount n hne]
    exact h.waiting n call (hcalls n hne ▸ hn) hw

/-! ## Steps -/

theorem Service.Sound.tick (h : s.Sound uri) (hlive : s.terminated = false) (elapsed : Nat) :
    Sound uri { s with now := s.now + elapsed } where
  apart := ⟨fun k d hk => (h.apart.alone k d hk).tick hlive elapsed, h.apart.owners⟩
  listed := ⟨h.listed.keys, h.listed.ids, h.listed.listed, h.listed.unlisted, h.listed.calls⟩
  scheduled := ⟨fun t ht => (h.scheduled.queue t ht).mono (fun _ => id) fun _ _ _ => id, h.scheduled.waiting,
    h.scheduled.dangling⟩

/-- Nothing is queued for a download that is not there. -/
theorem Service.Sound.own_eq_nil (h : s.Sound uri) (hk : s.objects k = none) : s.taskQ.own k = [] := by
  refine List.filterMap_eq_nil_iff.2 fun e he => ?_
  rw [Option.map_eq_none_iff]
  have hqueued := h.scheduled.queue e.2 (List.mem_map_of_mem he)
  generalize e.2 = t at hqueued
  cases hqueued with
  | @lambda i op hi =>
    have hne : i ≠ k := by
      rintro rfl
      simp [hk] at hi
    simp [ServiceOp.lambdaTask, ServiceOp.of, hne]
  | @call c call hc hw =>
    obtain ⟨-, d, hd, -⟩ := h.listed.calls c call hc
    have hne : call.key ≠ k := by
      rintro rfl
      simp [hk] at hd
    cases hr : call.request <;> simp [ServiceOp.of, hne]
  | refreshAdminConfigs => rfl

theorem Service.Sound.create (h : s.Sound uri) (g : GUID) (url destFilePath : String)
    (hid : ∀ k d, s.objects k = some d → guidToString d.id ≠ guidToString g) :
    (s.createDownload uri g url destFilePath).2.Sound uri := by
  unfold createDownload
  split
  · exact h
  next hurl =>
  split
  · exact h
  split
  · exact h
  have hurl : url.isEmpty = true ∨ validateUrl uri url = true := by
    by_contra hnot
    rw [not_or] at hnot
    simp [hnot] at hurl
  have hnone : s.objects s.numObjects = none := by
    cases hobject : s.objects s.numObjects with
    | none => rfl
    | some d => exact absurd (h.listed.keys _ d hobject) (Nat.lt_irrefl _)
  set new : DownloadObject := { id := g, dl := { url := url, destFilePath := destFilePath } } with hnew
  -- who is there is the new one, or was there
  have hback : ∀ {i c}, Function.update s.objects s.numObjects (some new) i = some c →
      i = s.numObjects ∧ c = new ∨ i ≠ s.numObjects ∧ s.objects i = some c := fun {i c} hc => by
    by_cases hi : i = s.numObjects
    · subst hi
      rw [Function.update_self] at hc
      exact .inl ⟨rfl, (Option.some.inj hc).symm⟩
    · rw [Function.update_of_ne hi] at hc
      exact .inr ⟨hi, hc⟩
  have hforth : ∀ {i c}, s.objects i = some c →
      Function.update s.objects s.numObjects (some new) i = some c := fun {i c} hc => by
    rw [Function.update_of_ne, hc]
    rintro rfl
    rw [hnone] at hc
    cases hc
  refine ⟨⟨fun i c hc => ?_, fun i j b c hb hc hbowns hcowns hpath => ?_⟩,
    ⟨fun i c hc => ?_, fun i j b c hb hc heq => ?_, fun e he => ?_, fun i c hc => ?_, fun n call hcall => ?_⟩,
    ⟨fun t ht => ?_, h.scheduled.waiting, h.scheduled.dangling⟩⟩
  · rcases hback hc with ⟨rfl, rfl⟩ | ⟨-, hc⟩
    · exact (asIfAlone_new (s := s) hurl (h.own_eq_nil hnone)).congr rfl rfl rfl rfl rfl
    · exact (h.apart.alone i c hc).congr rfl rfl rfl rfl rfl
  · rcases hback hb with ⟨rfl, rfl⟩ | ⟨-, hb⟩
    · exact absurd hbowns.1 Bool.noConfusion
    · rcases hback hc with ⟨rfl, rfl⟩ | ⟨-, hc⟩
      · exact absurd hcowns.1 Bool.noConfusion
      · exact h.apart.owners i j b c hb hc hbowns hcowns hpath
  · rcases hback hc with ⟨rfl, -⟩ | ⟨-, hc⟩
    · exact Nat.lt_succ_self _
    · exact Nat.lt_succ_of_lt (h.listed.keys i c hc)
  · rcases hback hb with ⟨rfl, rfl⟩ | ⟨-, hb⟩ <;> rcases hback hc with ⟨rfl, rfl⟩ | ⟨-, hc⟩
    · rfl
    · exact absurd heq.symm (hid j c hc)
    · exact absurd heq (hid i b hb)
    · exact h.listed.ids i j b c hb hc heq
  · rcases List.mem_cons.1 he with rfl | he
    · exact ⟨new, Function.update_self _ _ _, rfl, rfl⟩
    · obtain ⟨c, hc, hrest⟩ := h.listed.listed e he
      exact ⟨c, hforth hc, hrest⟩
  · rcases hback hc with ⟨rfl, rfl⟩ | ⟨-, hc⟩
    · exact .inr ⟨rfl, List.mem_cons_self⟩
    · exact (h.listed.unlisted i c hc).imp_right fun hlisted => ⟨hlisted.1, List.mem_cons_of_mem _ hlisted.2⟩
  · obtain ⟨hn, c, hc, hrest⟩ := h.listed.calls n call hcall
    exact ⟨hn, c, hforth hc, hrest⟩
  · refine (h.scheduled.queue t ht).mono (fun i hi => ?_) fun _ _ _ => id
    obtain ⟨c, hc⟩ := Option.isSome_iff_exists.1 hi
    exact Option.isSome_iff_exists.2 ⟨c, hforth hc⟩

/-- The calls of a state that no download acts in. -/
theorem Service.Apart.idle (h : s.Apart uri) (hobjects : s'.objects = s.objects) (hnow : s'.now = s.now)
    (htaskQ : s'.taskQ = s.taskQ) (hmcc : s'.mcc = s.mcc) (hfs : s'.fs = s.fs)
    (hterminated : s'.terminated = s.terminated) : s'.Apart uri :=
  h.congr hobjects hnow (fun _ _ _ => by rw [htaskQ]) hmcc hfs hterminated

/-- What the calls returned, and whether calls are taken, is nobody's. -/
theorem Service.Sound.answered (h : s.Sound uri)
    (answers : List (Option Nat × ManagerRequest × Except HResult Answer)) (fRunning : Bool) :
    Sound uri { s with answers := answers, fRunning := fRunning } where
  apart := h.apart.idle rfl rfl rfl rfl rfl rfl
  listed := ⟨h.listed.keys, h.listed.ids, h.listed.listed, h.listed.unlisted, h.listed.calls⟩
  scheduled := ⟨fun t ht => (h.scheduled.queue t ht).mono (fun _ => id) fun _ _ _ => id, h.scheduled.waiting,
    h.scheduled.dangling⟩

theorem find_some {downloadId : Bytes} (h : s.find downloadId = some k) : (downloadId, k) ∈ s.downloads := by
  obtain ⟨e, he, rfl⟩ := Option.map_eq_some_iff.1 h
  have hid : e.1 = downloadId := by simpa using List.find?_some he
  exact hid ▸ List.mem_of_find?_eq_some he

theorem Service.Sound.beginCall (h : s.Sound uri) (downloadId : Bytes) (request : ManagerRequest) :
    (s.beginCall downloadId request).Sound uri := by
  unfold Service.beginCall getDownload
  cases hfind : s.find downloadId with
  | none => exact h.answered _ _
  | some k =>
    obtain ⟨d, hd, hlive, hid⟩ := h.listed.listed _ (find_some hfind)
    have hnone : s.calls s.numCalls = none := by
      cases hcall : s.calls s.numCalls with
      | none => rfl
      | some call => exact absurd (h.listed.calls _ call hcall).1 (Nat.lt_irrefl _)
    refine ⟨h.apart.idle rfl rfl rfl rfl rfl rfl, h.listed.setCalls rfl rfl rfl fun c call hc => ?_,
      h.scheduled.setCalls (c := s.numCalls) rfl (fun _ => id) (fun _ _ => rfl) ?_ (fun call hc => ?_)
        (fun n hn => Function.update_of_ne hn _ _) rfl⟩
    · replace hc :
        Function.update s.calls s.numCalls (some ⟨downloadId, k, request, .found⟩) c = some call := hc
      by_cases hn : c = s.numCalls
      · subst hn
        rw [Function.update_self] at hc
        obtain rfl := Option.some.inj hc
        refine ⟨Nat.lt_succ_self _, d, hd, hlive, hid, fun hended => ?_⟩
        obtain ⟨-, answer, hstate | hstate⟩ := hended <;> cases hstate
      · rw [Function.update_of_ne hn] at hc
        obtain ⟨hlt, hrefers⟩ := h.listed.calls c call hc
        exact ⟨Nat.lt_succ_of_lt hlt, hrefers⟩
    · exact h.scheduled.countCall_of_not_waiting fun call hcall => absurd (hnone.symm.trans hcall) nofun
    · replace hc : Function.update s.calls s.numCalls (some ⟨downloadId, k, request, .found⟩) s.numCalls =
        some call := hc
      rw [Function.update_self] at hc
      obtain rfl := Option.some.inj hc
      exact nofun

theorem Service.Sound.schedBlock (h : s.Sound uri) (hlive : s.terminated = false) {c : Nat} {call : Call}
    (hc : s.calls c = some call) (hfound : call.state = .found) : (s.schedBlock c call).Sound uri := by
  have hcount : s.taskQ.countCall c = 0 := h.scheduled.countCall_of_not_waiting fun call' hcall => by
    obtain rfl := Option.some.inj (hc.symm.trans hcall)
    simp [hfound]
  set op : ServiceOp := .call c call.key call.request with hop
  set q : ServiceQueue := if call.request = .download .getStatus then s.taskQ.add s.now op 0 none
    else s.taskQ.addFront s.now op none with hq
  have htasks : ∀ t, t ∈ q.tasks → t = ⟨op, none⟩ ∨ t ∈ s.taskQ.tasks := fun t ht => by
    rw [hq] at ht
    split at ht
    · exact TaskQueue.mem_tasks_add.1 ht
    · obtain ⟨due, hentries, -, -⟩ := TaskQueue.addFront_entries (q := s.taskQ) s.now op none
      simpa [TaskQueue.tasks, hentries] using ht
  have hcounts : ∀ n, q.countCall n = s.taskQ.countCall n + if n = c then 1 else 0 := fun n => by
    have hcall : op.isCall n = true ↔ n = c := by simp [hop, ServiceOp.isCall, eq_comm]
    rw [hq, ← if_congr hcall rfl rfl]
    split
    · exact ServiceQueue.countCall_add n
    · exact ServiceQueue.countCall_addFront n
  set waiting : Call := { call with state := .waiting } with hwaiting
  have hself : Function.update s.calls c (some waiting) c = some waiting := Function.update_self _ _ _
  have hstate : s.schedBlock c call = { s.setCall c (some waiting) with taskQ := q } := rfl
  rw [hstate]
  refine ⟨⟨fun k d hd => ?_, h.apart.owners⟩, h.listed.setCalls rfl rfl rfl fun n other hother => ?_,
    ⟨fun t ht => ?_, fun n other hother hw => ?_, h.scheduled.dangling⟩⟩
  · have hsame := h.apart.alone k d hd
    cases hof : op.of k with
    | none =>
      refine hsame.congr rfl ?_ rfl rfl rfl
      rw [hq]
      split
      · exact ServiceQueue.own_add_none hof
      · exact ServiceQueue.own_addFront_none hof
    | some op' =>
      cases hr : call.request with
      | getProperty key => simp [hop, hr, ServiceOp.of] at hof
      | download r =>
        have hk : call.key = k := by
          by_contra hne
          simp [hop, hr, ServiceOp.of, hne] at hof
        refine (hsame.sched hlive r (c := c) (q := q) ?_).congr rfl rfl rfl rfl rfl
        rw [hq, hop, hr, hk]
        exact if_congr (by simp) rfl rfl
  · refine h.listed.update_call hc waiting rfl rfl (fun hended => ?_) hother
    obtain ⟨-, answer, hs | hs⟩ := hended <;> cases hs
  · rcases htasks t ht with rfl | hold
    · show Queued _ ⟨.call c waiting.key waiting.request, none⟩
      exact .call hself rfl
    · refine (h.scheduled.queue t hold).mono (fun _ => id) fun n other hn hother => ?_
      have hne : n ≠ c := by
        rintro rfl
        exact absurd (hn.symm.trans (countCall_eq_zero.1 hcount t hold)) Bool.noConfusion
      exact (Function.update_of_ne hne _ _).trans hother
  · show q.countCall n = 1
    rw [hcounts]
    by_cases hn : n = c
    · rw [if_pos hn, hn, hcount]
    · replace hother : Function.update s.calls c (some waiting) n = some other := hother
      rw [Function.update_of_ne hn] at hother
      rw [if_neg hn, h.scheduled.waiting n other hother hw]

/-! ### The task thread -/

/-- An operation that is not a download's is taken out of the queue. -/
theorem own_pop_none {t : Task ServiceOp ServiceTag} {q : ServiceQueue}
    (hpop : s.taskQ.popNextReady s.now = some (t, q)) (hof : t.op.of k = none) : q.own k = s.taskQ.own k := by
  obtain ⟨due, -, hown⟩ := ServiceQueue.own_pop (k := k) hpop
  rw [hown, hof]
  rfl

theorem Acts.isSome (h : Acts uri s s' k d d') (i : Nat) (hi : (s.objects i).isSome = true) :
    (s'.objects i).isSome = true := by
  rw [h.objects]
  exact isSome_update hi

/-- A download acts in the service, and nobody else. -/
theorem Service.Sound.acts (h : s.Sound uri) (hlive : s.terminated = false) (hk : s.objects k = some d)
    {q : ServiceQueue} (hq : ∀ j, j ≠ k → q.own j = s.taskQ.own j) (htasks : ∀ t ∈ q.tasks, t ∈ s.taskQ.tasks)
    (hcount : ∀ c, q.countCall c = s.taskQ.countCall c) {v : World}
    (hself : (({ s with taskQ := q } : Service).putBack k d v).AsIfAlone uri k (d.leave v))
    (ha : Acts uri { s with taskQ := q } (({ s with taskQ := q } : Service).putBack k d v) k d (d.leave v)) :
    (({ s with taskQ := q } : Service).putBack k d v).Sound uri where
  apart := h.apart.acts hlive hq hk ha hself
  listed := h.listed.update _ hk rfl rfl rfl ha.gone rfl rfl rfl rfl
  scheduled :=
    h.scheduled.acts ha.isSome (by rw [hk]; rfl) (fun t ht => (ha.scheduled t ht).imp_left (htasks t))
    (fun c => (ha.waiting c).trans (hcount c)) rfl rfl

/-- The operation of a call has run. -/
theorem Service.Sound.ran (h : s.Sound uri) {c : Nat} {call : Call} (hc : s.calls c = some call)
    (hw : call.state = .waiting) {q : ServiceQueue}
    (hpop : s.taskQ.popNextReady s.now = some (⟨.call c call.key call.request, none⟩, q))
    (result : Except HResult Answer) :
    Scheduled (({ s with taskQ := q } : Service).setRan c result) := by
  have hcount := fun n => ServiceQueue.countCall_pop hpop n
  have hone : q.countCall c = 0 := by
    have hsum := hcount c
    rw [h.scheduled.waiting c call hc hw, if_pos (by simp [ServiceOp.isCall])] at hsum
    omega
  have hcalls : (({ s with taskQ := q } : Service).setRan c result).calls =
      Function.update s.calls c (some { call with state := .ran result }) := by
    simp [setRan, hc]
  refine h.scheduled.setCalls (c := c) rfl (fun t' ht' => ?_) (fun n hn => ?_) hone (fun call' hcall => ?_)
    (fun n hn => ?_) rfl
  · rw [TaskQueue.tasks_popNextReady hpop]
    exact List.mem_cons_of_mem _ ht'
  · have hsum := hcount n
    rw [if_neg (by simpa [ServiceOp.isCall] using hn.symm)] at hsum
    exact hsum.symm
  · rw [hcalls, Function.update_self] at hcall
    obtain rfl := Option.some.inj hcall
    simp
  · rw [hcalls, Function.update_of_ne hn]

/-- A download's operation runs, which its clients do not hinder. -/
theorem Service.Sound.runs (h : s.Sound uri) (hlive : s.terminated = false) {t : Task ServiceOp ServiceTag}
    {q : ServiceQueue} {op : Op} (hpop : s.taskQ.popNextReady s.now = some (t, q))
    (hallowed : s.Allows (.run o)) (hk : s.objects k = some d) (hof : t.op.of k = some op) :
    let s₀ : Service := { s with taskQ := q }
    let v := DoClient.runTask uri o op (s₀.view k d)
    (s₀.putBack k d v).AsIfAlone uri k (d.leave v) ∧ Acts uri s₀ (s₀.putBack k d v) k d (d.leave v) ∧
      (s₀.putBack k d v).taskQ.shortcutsOf k ≤ q.shortcutsOf k + if op = .client .start then 1 else 0 := by
  refine (h.apart.alone k d hk).runTask hlive hpop hof hallowed.1 fun value hset hstate hmade => ?_
  rw [hset] at hof
  have hpath : s.nextPath = some (k, value) := by
    simp only [nextPath, nextOp, hpop, Option.map_some]
    cases hop : t.op with
    | lambda i op =>
      simp only [hop, ServiceOp.of] at hof
      split at hof
      · have hown := op.2
        rw [Option.some.inj hof] at hown
        cases hown
      · cases hof
    | call c i request =>
      cases request with
      | download r =>
        simp only [hop, ServiceOp.of] at hof
        split at hof
        · next hi =>
          obtain rfl := Op.client.inj (Option.some.inj hof)
          rw [hi]
        · cases hof
      | getProperty key => simp [hop, ServiceOp.of] at hof
    | refreshAdminConfigs => simp [hop, ServiceOp.of] at hof
  exact hallowed.2 _ hpath d hk hstate hmade

/-- The operation of a client's call. -/
theorem Service.Sound.runRequest (h : s.Sound uri) (hlive : s.terminated = false) {c : Nat} {call : Call}
    (hc : s.calls c = some call) (hw : call.state = .waiting) {r : ClientRequest}
    (hr : call.request = .download r) {q : ServiceQueue}
    (hpop : s.taskQ.popNextReady s.now = some (⟨.call c call.key call.request, none⟩, q))
    (hallowed : s.Allows (.run o)) :
    (Service.runTask { s with taskQ := q } uri o (.call c call.key call.request)).Sound uri := by
  obtain ⟨-, d, hd, -⟩ := h.listed.calls c call hc
  set s₀ : Service := { s with taskQ := q } with hs₀
  set v := DoClient.runTask uri o (.client r) (s₀.view call.key d) with hv
  set result := (clientRequest uri o r (s₀.view call.key d)).1 with hresult
  have hdl : v.dl = (clientRequest uri o r (s₀.view call.key d)).2.dl := rfl
  have hof : (ServiceOp.call c call.key call.request).of call.key = some (.client r) := by
    simp [hr, ServiceOp.of]
  have hothers : ∀ j, j ≠ call.key → (ServiceOp.call c call.key call.request).of j = none := fun j hj => by
    simp [hr, ServiceOp.of, hj.symm]
  obtain ⟨hself, hacts, -⟩ := h.runs hlive hpop hallowed hd hof
  have hrun : Service.runTask s₀ uri o (.call c call.key call.request) =
      (s₀.putBack call.key d v).setRan c (result.map fun _ => answer v r) := by
    simp [Service.runTask, hs₀, hd, hr, hv, hresult]
  have happart := h.apart.acts hlive (fun j hj => own_pop_none hpop (hothers j hj)) hd hacts hself
  have hlisted : (s₀.putBack call.key d v).Listed :=
    h.listed.update (d.leave v) hd rfl rfl rfl hacts.gone rfl rfl rfl rfl
  rw [hrun]
  refine ⟨happart.idle rfl rfl rfl rfl rfl rfl, hlisted.setCalls rfl rfl rfl fun n other hother => ?_, ?_⟩
  · replace hother : Function.update s.calls c ((s.calls c).map _) n = some other := hother
    rw [hc] at hother
    refine hlisted.update_call hc _ ?_ ?_ (fun hended d' hd' => ?_) hother
    · rfl
    · rfl
    · replace hd' : Function.update s.objects call.key (some (d.leave v)) call.key = some d' := hd'
      rw [Function.update_self] at hd'
      obtain rfl := Option.some.inj hd'
      obtain ⟨hreq, answer, hstate⟩ := hended
      have hok : result = .ok () := by
        rcases hstate with hstate | hstate
        · replace hstate := CallState.ran.inj hstate
          cases hres : result with
          | ok u => rfl
          | error hr => rw [hres] at hstate; cases hstate
        · cases hstate
      have hends : r = .finalize ∨ r = .abort := by
        rcases hreq with hreq | hreq
        · exact .inl (ManagerRequest.download.inj (hr.symm.trans hreq))
        · exact .inr (ManagerRequest.download.inj (hr.symm.trans hreq))
      exact gone_of_ends hends hok
  · have hran := h.ran hc hw hpop (result.map fun _ => answer v r)
    exact hran.acts (k := call.key) hacts.isSome (by simp [setRan, hd]) hacts.scheduled hacts.waiting
      rfl rfl

theorem Service.Sound.run (h : s.Sound uri) (hlive : s.terminated = false) {t : Task ServiceOp ServiceTag}
    {q : ServiceQueue} (hpop : s.taskQ.popNextReady s.now = some (t, q)) (hallowed : s.Allows (.run o)) :
    (Service.runTask { s with taskQ := q } uri o t.op).Sound uri := by
  have htasks : ∀ t' ∈ q.tasks, t' ∈ s.taskQ.tasks := fun t' ht' => by
    rw [TaskQueue.tasks_popNextReady hpop]
    exact List.mem_cons_of_mem _ ht'
  have hmem : t ∈ s.taskQ.tasks := by
    rw [TaskQueue.tasks_popNextReady hpop]
    exact List.mem_cons_self
  have hnext : s.nextOp = some t.op := by simp [nextOp, hpop]
  have hqueued := h.scheduled.queue t hmem
  -- an operation that is nobody's leaves the downloads as they are
  have hnobody : (∀ k, t.op.of k = none) → ∀ s' : Service, s'.objects = s.objects → s'.now = s.now →
      s'.taskQ = q → s'.mcc = s.mcc → s'.fs = s.fs → s'.terminated = s.terminated → s'.Apart uri :=
    fun hof s' hobjects hnow hq hmcc hfs hterminated =>
      h.apart.congr hobjects hnow (fun k _ _ => by rw [hq, own_pop_none hpop (hof k)]) hmcc hfs hterminated
  cases hqueued with
  | @lambda k op hk =>
    obtain ⟨d, hd⟩ := Option.isSome_iff_exists.1 hk
    have hof : (ServiceOp.lambdaTask k op).op.of k = some op.1 := by simp [ServiceOp.lambdaTask, ServiceOp.of]
    obtain ⟨hself, hacts, -⟩ := h.runs hlive hpop hallowed hd hof
    have hrun : Service.runTask { s with taskQ := q } uri o (ServiceOp.lambdaTask k op).op =
        ({ s with taskQ := q } : Service).putBack k d
          (DoClient.runTask uri o op.1 (({ s with taskQ := q } : Service).view k d)) := by
      simp [Service.runTask, ServiceOp.lambdaTask, hd]
    rw [hrun]
    refine h.acts hlive hd (fun j hj => own_pop_none hpop ?_) htasks (fun c => ?_) hself hacts
    · simp [ServiceOp.lambdaTask, ServiceOp.of, hj.symm]
    · exact (ServiceQueue.countCall_pop hpop c).symm
  | @call c call hc hw =>
    obtain ⟨hlt, d, hd, hheld, hid, -⟩ := h.listed.calls c call hc
    cases hr : call.request with
    | getProperty key =>
      rw [hr] at hnobody hpop
      have hrun : Service.runTask { s with taskQ := q } uri o (.call c call.key (.getProperty key)) =
          ({ s with taskQ := q } : Service).setRan c (.ok (.property (d.dl.getProperty d.id key))) := by
        simp [Service.runTask, hd]
      rw [hrun]
      refine ⟨hnobody (fun _ => rfl) _ rfl rfl rfl rfl rfl rfl,
        h.listed.setCalls rfl rfl rfl fun n other hother => ?_, h.ran hc hw (by rw [hr]; exact hpop) _⟩
      replace hother : Function.update s.calls c ((s.calls c).map _) n = some other := hother
      rw [hc] at hother
      refine h.listed.update_call hc _ ?_ ?_ (fun hended => ?_) hother
      · rfl
      · rfl
      · rcases hended.1 with hreq | hreq <;> cases hr.symm.trans hreq
    | download r =>
      have hrun := h.runRequest hlive hc hw hr hpop hallowed
      rw [hr] at hrun
      exact hrun
  | refreshAdminConfigs =>
    refine ⟨hnobody (fun _ => rfl) _ rfl rfl rfl rfl rfl rfl, ⟨h.listed.keys, h.listed.ids, h.listed.listed,
      h.listed.unlisted, h.listed.calls⟩, ⟨fun t' ht' => ?_, fun c call hc hw => ?_, h.scheduled.dangling⟩⟩
    · exact (h.scheduled.queue t' (htasks t' ht')).mono (fun _ => id) fun _ _ _ => id
    · exact (ServiceQueue.countCall_pop hpop c).symm.trans (h.scheduled.waiting c call hc hw)

theorem Service.Sound.curlEvent (h : s.Sound uri) (hlive : s.terminated = false) {e : CurlEvent}
    (hk : s.objects k = some d) {v : World} (hv : DoClient.curlEvent (s.view k d) e = some v) :
    (s.putBack k d v).Sound uri := by
  obtain ⟨hself, hacts, -⟩ := (h.apart.alone k d hk).curlEvent hlive hv
  exact h.acts hlive hk (fun _ _ => rfl) (fun _ => id) (fun _ => rfl) hself hacts

theorem Service.Sound.drain (h : s.Sound uri) (hlive : s.terminated = false) (hk : s.objects k = some d) :
    Sound uri { s with objects := Function.update s.objects k (some { d with curl := d.curl.drain }) } where
  apart := h.apart.update hk fun d' hd' => by
    obtain rfl := Option.some.inj hd'
    exact ⟨rfl, ((h.apart.alone k d hk).drain hlive).congr rfl rfl rfl rfl rfl⟩
  listed := h.listed.update { d with curl := d.curl.drain } hk rfl rfl rfl id rfl rfl rfl rfl
  scheduled := ⟨fun t ht => (h.scheduled.queue t ht).mono (fun _ => isSome_update) fun _ _ _ => id,
    h.scheduled.waiting, h.scheduled.dangling⟩

/-! ### Calls that return -/

/-- Finalize and Abort take out of the map who is gone. -/
theorem Service.Sound.wake (h : s.Sound uri) {c : Nat} {call : Call} {result : Except HResult Answer}
    (hc : s.calls c = some call) (hran : call.state = .ran result) : (s.wake c call result).Sound uri := by
  obtain ⟨hlt, d, hd, hlive, hid, hgone⟩ := h.listed.calls c call hc
  set call' : Call := { call with state := .returning result } with hcall'
  have hended : call'.Ended → call.Ended := by
    rintro ⟨hreq, answer, hstate | hstate⟩
    · cases hstate
    · obtain rfl := CallState.returning.inj hstate
      exact ⟨hreq, answer, .inl hran⟩
  -- the map loses what has the call's id, if the call has ended the download
  have hkept : ∀ e ∈ (s.wake c call result).downloads, e ∈ s.downloads := fun e he => by
    simp only [Service.wake] at he
    split at he
    · exact List.mem_of_mem_filter he
    · exact he
  have hlost : ∀ e ∈ s.downloads, e ∈ (s.wake c call result).downloads ∨ call.Ended ∧ e.1 = call.downloadId :=
    fun e he => by
    simp only [Service.wake]
    split
    · next hends =>
      by_cases heq : e.1 = call.downloadId
      · cases result with
        | ok answer => exact .inr ⟨⟨hends.1, answer, .inl hran⟩, heq⟩
        | error hr => cases hends.2
      · exact .inl (List.mem_filter.2 ⟨he, by simpa using heq⟩)
    · exact .inl he
  have hcalls : ∀ n other, (s.wake c call result).calls n = some other → n < s.numCalls ∧ s.Refers other :=
    fun n other hother => h.listed.update_call hc call' rfl rfl (fun he d' hd' => by
      obtain rfl := Option.some.inj (hd.symm.trans hd')
      exact hgone (hended he)) hother
  refine ⟨h.apart.idle rfl rfl rfl rfl rfl rfl,
    ⟨h.listed.keys, h.listed.ids, fun e he => h.listed.listed e (hkept e he), fun k b hb => ?_, hcalls⟩,
    h.scheduled.setCalls (c := c) rfl (fun _ => id) (fun _ _ => rfl)
      (h.scheduled.countCall_of_not_waiting fun other hother => ?_) (fun other hother => ?_)
      (fun n hn => Function.update_of_ne hn _ _) rfl⟩
  · rcases h.listed.unlisted k b hb with hno | ⟨hthere, hmem⟩
    · exact .inl hno
    rcases hlost _ hmem with hstays | ⟨he, heq⟩
    · exact .inr ⟨hthere, hstays⟩
    · obtain rfl := h.listed.ids k call.key b d hb hd (heq.trans hid.symm)
      obtain rfl := Option.some.inj (hd.symm.trans hb)
      exact .inl (hgone he)
  · obtain rfl := Option.some.inj (hc.symm.trans hother)
    simp [hran]
  · replace hother : Function.update s.calls c (some call') c = some other := hother
    rw [Function.update_self] at hother
    obtain rfl := Option.some.inj hother
    exact nofun

theorem Service.Sound.dropCall (h : s.Sound uri) {c : Nat} {call : Call} (hc : s.calls c = some call)
    (hstate : call.state ≠ .waiting) : (s.setCall c none).Sound uri where
  apart := h.apart.idle rfl rfl rfl rfl rfl rfl
  listed := h.listed.setCalls rfl rfl rfl fun n other hother => by
    replace hother : Function.update s.calls c none n = some other := hother
    by_cases hn : n = c
    · subst hn
      rw [Function.update_self] at hother
      cases hother
    · rw [Function.update_of_ne hn] at hother
      exact h.listed.calls n other hother
  scheduled := h.scheduled.setCalls (c := c) rfl (fun _ => id) (fun _ _ => rfl)
    (h.scheduled.countCall_of_not_waiting fun other hother => by
      obtain rfl := Option.some.inj (hc.symm.trans hother)
      exact hstate)
    (fun other hother => by
      replace hother : Function.update s.calls c none c = some other := hother
      rw [Function.update_self] at hother
      cases hother)
    (fun n hn => Function.update_of_ne hn _ _) rfl

/-! ### Destruction -/

/-- For a download that is gone nothing is queued but what its clients wait for. -/
theorem Service.AsIfAlone.idle (h : s.AsIfAlone uri k d) (hgone : d.dl.status.state.gone = true) :
    ∀ t ∈ s.taskQ.tasks, t.op.isLambdaOf k = false := by
  intro t ht
  obtain ⟨w, hw, halone⟩ := h
  have hidle := (settled_of_unhindered hw).idle (by rw [halone.dl]; exact hgone)
  by_contra hlambda
  obtain ⟨e, he, rfl⟩ := List.mem_map.1 ht
  cases hop : e.2.op with
  | lambda j op =>
    have hj : j = k := by simpa [hop, ServiceOp.isLambdaOf] using hlambda
    have hown : (⟨op.1, op.1.tag⟩ : Task Op Tag) ∈ (s.taskQ.own k).map (·.2) := by
      refine List.mem_map.2 ⟨(e.1, ⟨op.1, op.1.tag⟩), List.mem_filterMap.2 ⟨e, he, ?_⟩, rfl⟩
      simp [hop, ServiceOp.of, hj]
    rw [Multimap.values_of_near halone.tasks] at hown
    obtain ⟨e', he', htask⟩ := List.mem_map.1 hown
    have hnot := hidle e' he'
    rw [htask] at hnot
    exact absurd (op.2.symm.trans hnot) Bool.noConfusion
  | call c j request => simp [hop, ServiceOp.isLambdaOf] at hlambda
  | refreshAdminConfigs => simp [hop, ServiceOp.isLambdaOf] at hlambda

/-- A download nobody refers to is gone, and what is left of it changes nothing for the others. -/
theorem Service.Sound.unheld (h : s.Sound uri) (hk : s.objects k = some d)
    (hdownloads : ∀ e ∈ s.downloads, e.2 ≠ k) (hcalls : ∀ c call, s.calls c = some call → call.key ≠ k)
    {x : Option DownloadObject} (hx : ∀ d', x = some d' → d' = { d with dying := d'.dying }) :
    Sound uri { s with objects := Function.update s.objects k x } := by
  have hgone : d.dl.status.state.gone = true := by
    refine (h.listed.unlisted k d hk).resolve_right fun hlisted => ?_
    exact hdownloads _ hlisted.2 rfl
  have hforth : ∀ {i c}, i ≠ k → s.objects i = some c → Function.update s.objects k x i = some c :=
    fun {i c} hi hc => by rwa [Function.update_of_ne hi]
  have hback : ∀ {i c}, Function.update s.objects k x i = some c →
      ∃ b, s.objects i = some b ∧ c = { b with dying := c.dying } ∧ (i ≠ k → c = b) ∧ (i = k → b = d) :=
    fun {i c} hc => by
    by_cases hi : i = k
    · subst hi
      rw [Function.update_self] at hc
      exact ⟨d, hk, hx c hc, fun hne => absurd rfl hne, fun _ => rfl⟩
    · rw [Function.update_of_ne hi] at hc
      exact ⟨c, hc, rfl, fun _ => rfl, fun heq => absurd heq hi⟩
  refine ⟨h.apart.update hk fun d' hd' => ?_, ⟨fun i c hc => ?_, fun i j b c hb hc heq => ?_, fun e he => ?_,
    fun i c hc => ?_, fun n call hcall => ?_⟩, ⟨fun t ht => ?_, h.scheduled.waiting, h.scheduled.dangling⟩⟩
  · obtain ⟨w, hw, halone⟩ := h.apart.alone k d hk
    rw [hx d' hd']
    exact ⟨rfl, w, hw, halone.same, halone.live, halone.tasks, halone.file, halone.alone, halone.stream,
      halone.kept⟩
  · obtain ⟨b, hb, -⟩ := hback hc
    exact h.listed.keys i b hb
  · obtain ⟨b₀, hb₀, hbd, -⟩ := hback hb
    obtain ⟨c₀, hc₀, hcd, -⟩ := hback hc
    rw [hbd, hcd] at heq
    exact h.listed.ids i j b₀ c₀ hb₀ hc₀ heq
  · obtain ⟨b, hb, hrest⟩ := h.listed.listed e he
    exact ⟨b, hforth (hdownloads e he) hb, hrest⟩
  · obtain ⟨b, hb, hcd, hsame, hself⟩ := hback hc
    by_cases hi : i = k
    · obtain rfl := hself hi
      rw [hcd]
      exact .inl hgone
    · rw [hsame hi]
      exact h.listed.unlisted i b hb
  · obtain ⟨hlt, b, hb, hrest⟩ := h.listed.calls n call hcall
    exact ⟨hlt, b, hforth (hcalls n call hcall) hb, hrest⟩
  · have hidle := (h.apart.alone k d hk).idle hgone t ht
    have hqueued := h.scheduled.queue t ht
    cases hqueued with
    | @lambda i op hi =>
      have hne : i ≠ k := by
        rintro rfl
        simp [ServiceOp.lambdaTask, ServiceOp.isLambdaOf] at hidle
      obtain ⟨b, hb⟩ := Option.isSome_iff_exists.1 hi
      exact .lambda (Option.isSome_iff_exists.2 ⟨b, hforth hne hb⟩)
    | call hc hw => exact .call hc hw
    | refreshAdminConfigs => exact .refreshAdminConfigs

/-- `_CancelTasks` finds nothing for a download that is gone. -/
theorem cancelTasks_of_gone (h : s.Sound uri) (hk : s.objects k = some d)
    (hgone : d.dl.status.state.gone = true) : s.cancelTasks k = s := by
  have hnone : ∀ tag, s.taskQ.remove (.object k tag) = s.taskQ := fun tag => by
    refine TaskQueue.remove_eq_self fun t ht htag => ?_
    have hidle := (h.apart.alone k d hk).idle hgone t ht
    cases h.scheduled.queue t ht with
    | @lambda i op hi =>
      obtain ⟨own, -, hown⟩ := Option.map_eq_some_iff.1 htag
      obtain rfl := (ServiceTag.object.inj hown).1
      simp [ServiceOp.lambdaTask, ServiceOp.isLambdaOf] at hidle
    | call hc hw => cases htag
    | refreshAdminConfigs => cases htag
  simp only [cancelTasks, hnone]

theorem Service.Sound.release (h : s.Sound uri) (hk : s.objects k = some d) : (s.release k).Sound uri := by
  unfold Service.release
  split
  · exact h
  next hheld =>
  simp only [isHeld, Bool.or_eq_true, not_or, Bool.not_eq_true, List.any_eq_false, Bool.not_eq_false',
    List.isEmpty_iff, callsOf, List.filter_eq_nil_iff, List.mem_range] at hheld
  have hdownloads : ∀ e ∈ s.downloads, e.2 ≠ k := fun e he => by simpa using hheld.1 e he
  have hcalls : ∀ c call, s.calls c = some call → call.key ≠ k := fun c call hc => by
    have hnot := hheld.2 c (h.listed.calls c call hc).1
    simpa [hc] using hnot
  have hgone : d.dl.status.state.gone = true := by
    refine (h.listed.unlisted k d hk).resolve_right fun hlisted => ?_
    exact hdownloads _ hlisted.2 rfl
  rw [cancelTasks_of_gone h hk hgone, hk]
  exact h.unheld hk hdownloads hcalls fun d' hd' => by
    obtain rfl := Option.some.inj hd'
    rfl

theorem Service.Sound.endCall (h : s.Sound uri) {c : Nat} {call : Call} {result : Except HResult Answer}
    (hc : s.calls c = some call) (hstate : call.state ≠ .waiting) : (s.endCall c call result).Sound uri := by
  obtain ⟨-, d, hd, -⟩ := h.listed.calls c call hc
  have hreleased := (h.dropCall hc hstate).release (k := call.key) (d := d) hd
  exact hreleased.answered _ _

theorem Service.Sound.destroyed (h : s.Sound uri) (hk : s.objects k = some d) (hdying : d.dying = true) :
    Sound uri { s with objects := Function.update s.objects k none } := by
  have hnot : ∀ {b : DownloadObject}, s.objects k = some b → b.dying = false → False := fun hb hlive => by
    obtain rfl := Option.some.inj (hk.symm.trans hb)
    exact absurd (hdying.symm.trans hlive) Bool.noConfusion
  refine h.unheld hk (fun e he => ?_) (fun c call hc => ?_) fun d' hd' => by cases hd'
  · rintro rfl
    obtain ⟨b, hb, hlive, -⟩ := h.listed.listed e he
    exact hnot hb hlive
  · rintro rfl
    obtain ⟨-, b, hb, hlive, -⟩ := h.listed.calls c call hc
    exact hnot hb hlive

theorem Service.Sound.refresh (h : s.Sound uri) :
    Sound uri { s with taskQ := s.taskQ.addFront s.now .refreshAdminConfigs (some .manager) } where
  apart := h.apart.congr rfl rfl (fun _ _ _ => ServiceQueue.own_addFront_none rfl) rfl rfl rfl
  listed := ⟨h.listed.keys, h.listed.ids, h.listed.listed, h.listed.unlisted, h.listed.calls⟩
  scheduled := by
    obtain ⟨due, hentries, -, -⟩ :=
      TaskQueue.addFront_entries (q := s.taskQ) s.now ServiceOp.refreshAdminConfigs (some ServiceTag.manager)
    refine ⟨fun t ht => ?_, fun c call hc hw => ?_, h.scheduled.dangling⟩
    · simp only [TaskQueue.tasks, hentries, List.map_cons, List.mem_cons] at ht
      rcases ht with rfl | ht
      · exact .refreshAdminConfigs
      · exact (h.scheduled.queue t ht).mono (fun _ => id) fun _ _ _ => id
    · exact (ServiceQueue.countCall_addFront c).trans (h.scheduled.waiting c call hc hw)

/-! ## Runs -/

theorem Service.Sound.init (h : (service uri).init s) : s.Sound uri := by
  obtain ⟨now, fs, rfl⟩ := h
  have hnobody :
    ∀ {k : Nat} {d : DownloadObject}, ({ now := now, fs := fs } : Service).objects k = some d → False :=
    fun hd => Option.some_ne_none _ hd.symm
  have hno : ∀ {c : Nat} {call : Call}, ({ now := now, fs := fs } : Service).calls c = some call → False :=
    fun hc => Option.some_ne_none _ hc.symm
  exact ⟨⟨fun k d hd => (hnobody hd).elim, fun i k c d hc => (hnobody hc).elim⟩,
    ⟨fun k d hd => (hnobody hd).elim, fun i k c d hc => (hnobody hc).elim,
      fun e he => absurd he List.not_mem_nil,
      fun k d hd => (hnobody hd).elim, fun c call hc => (hno hc).elim⟩,
    ⟨fun t ht => absurd ht List.not_mem_nil, fun c call hc => (hno hc).elim, rfl⟩⟩

theorem Service.Sound.step (h : s.Sound uri) {e : ServiceEvent} (hallowed : s.Allows e)
    (hstep : (service uri).step s e = some s') : s'.Sound uri := by
  obtain ⟨hlive, hsteps⟩ := steps_of_step hstep
  cases hsteps with
  | tick => exact h.tick hlive _
  | create => exact h.create _ _ _ fun k d hk => hallowed k (h.listed.keys k d hk) d hk
  | call => exact h.beginCall _ _
  | sched hc hstate => exact h.schedBlock hlive hc hstate
  | run hpop => exact h.run hlive hpop hallowed
  | wake hc hstate => exact h.wake hc hstate
  | leave hc hstate => exact h.endCall hc (by simp [hstate])
  | destroyed hk hdying => exact h.destroyed hk hdying
  | isIdle => exact h.answered _ _
  | refreshAdminConfigs => exact h.refresh
  | drain hk => exact h.drain hlive hk
  | curl hk hv => exact h.curlEvent hlive hk hv

/-- The runs in which files close, names are kept and ids are new. -/
abbrev Service.Runs (uri : UriLib) (s : Service) : Prop := Trans.ReachableBy (service uri) Service.Allows s

theorem sound_of_runs (h : Service.Runs uri s) : s.Sound uri :=
  h.invariant (fun s => s.Sound uri) (fun _ => Service.Sound.init) fun _ _ _ hs hallowed hstep =>
    hs.step hallowed hstep

end DoClient
