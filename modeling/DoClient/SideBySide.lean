/-
One download among others, beside the same download alone. What it sees of the
service differs from its world alone in two things: the queue holds other
operations too, and there are other files. It cannot tell: whatever it runs ends
the same way in both, and they differ in the same two things again.
-/
import DoClient.Effects
import DoClient.Lib.Coupling

namespace DoClient

open HResult DlM Coupling

/-- Reports to `MCCManager`, one after another. -/
def MccManager.reportAll (uri : UriLib) (now : Int) (reports : List (HResult × Nat × String × String))
    (m : MccManager) : MccManager :=
  reports.foldl (fun m r => m.reportHostError uri now r.1 r.2.1 r.2.2.1 r.2.2.2) m

/-- What there is besides the download when it begins to run. -/
structure Surroundings where
  now : Int
  /-- The queue in its view. -/
  queue : List (Int × Task Op Tag)
  fs : String → Option (List UInt8)
  mcc : MccManager
  path : String
  /-- It has made its file before. -/
  made : Bool

/-- The tasks in its view that are not its lambdas. -/
def Surroundings.others (b : Surroundings) : List (Int × Task Op Tag) := b.queue.filter fun e => !e.2.op.own

/-- A lambda of the download that is not the one it puts in front of the queue. -/
def Op.behind (op : Op) : Bool := op.own && op != .alreadyTransferred

/-- `v` is what the download sees among others, `w` its world alone. -/
structure Beside (uri : UriLib) (b : Surroundings) (v w : World) : Prop where
  same : v = { w with taskQ := v.taskQ, fs := v.fs }
  now : w.now = b.now
  tasks : List.Forall₂ (Multimap.Near b.now) (v.taskQ.ops.entries.filter fun e => e.2.op != .foreign)
    w.taskQ.ops.entries
  others : v.taskQ.ops.entries.filter (fun e => !e.2.op.own) = b.others
  tags : ∀ e ∈ v.taskQ.ops.entries, e.2.tag = e.2.op.tag
  /-- It has put nothing before a task that is due. -/
  places : Multimap.KeepsPlaces b.now (fun t : Task Op Tag => !t.op.own) (fun t => t.op.behind) b.queue
    v.taskQ.ops.entries
  path : w.dl.destFilePath = b.path
  fs : v.fs = if w.dl.fDestFileCreated then Function.update b.fs b.path (w.fs b.path) else b.fs
  alone : ∀ p, p ≠ b.path ∨ w.dl.fDestFileCreated = false → w.fs p = none
  stream : ∀ p, w.dl.fileStream = some p → p = b.path ∧ w.dl.fDestFileCreated = true
  kept : w.dl.fDestFileCreated = true → w.removed = [] → w.fs b.path ≠ none
  made : w.dl.fDestFileCreated = true → b.made = true ∨ b.fs b.path = none
  mcc : ∃ reports, w.mcc = b.mcc.reportAll uri b.now reports

variable {uri : UriLib} {b : Surroundings} {v w : World} {α β : Type}

namespace Beside

theorem dl (h : Beside uri b v w) : v.dl = w.dl := by rw [h.same]

theorem clock (h : Beside uri b v w) : v.now = w.now := by rw [h.same]

/-- The download's own file is the same in both. -/
theorem file (h : Beside uri b v w) (hmade : w.dl.fDestFileCreated = true) :
    v.fs w.dl.destFilePath = w.fs w.dl.destFilePath := by
  rw [h.fs, if_pos hmade, h.path, Function.update_self]

/-- A change that looks neither at the queue nor at the files. -/
theorem modify (h : Beside uri b v w) {f : World → World}
    (hf : f v = { f w with taskQ := v.taskQ, fs := v.fs }) (htaskQ : (f w).taskQ = w.taskQ)
    (hfs : (f w).fs = w.fs) (hnow : (f w).now = w.now) (hmcc : (f w).mcc = w.mcc)
    (hremoved : (f w).removed = w.removed) (hpath : (f w).dl.destFilePath = w.dl.destFilePath)
    (hmade : (f w).dl.fDestFileCreated = w.dl.fDestFileCreated)
    (hstream : ∀ p, (f w).dl.fileStream = some p →
      w.dl.fileStream = some p ∨ p = b.path ∧ w.dl.fDestFileCreated = true) :
    Beside uri b (f v) (f w) where
  same := by
    have hq : (f v).taskQ = v.taskQ := by rw [hf]
    have hv : (f v).fs = v.fs := by rw [hf]
    rw [hq, hv]
    exact hf
  now := hnow.trans h.now
  tasks := by rw [hf, htaskQ]; exact h.tasks
  others := by rw [hf]; exact h.others
  tags := by rw [hf]; exact h.tags
  places := by rw [hf]; exact h.places
  path := hpath.trans h.path
  fs := by rw [hf, hmade, hfs]; exact h.fs
  alone := by rw [hmade, hfs]; exact h.alone
  stream p hp := by
    rw [hmade]
    exact (hstream p hp).elim (h.stream p) id
  kept := by rw [hmade, hremoved, hfs]; exact h.kept
  made := by rw [hmade]; exact h.made
  mcc := by rw [hmcc]; exact h.mcc

theorem updateDl (h : Beside uri b v w) {f : Download → Download}
    (hpath : (f w.dl).destFilePath = w.dl.destFilePath)
    (hmade : (f w.dl).fDestFileCreated = w.dl.fDestFileCreated)
    (hstream : ∀ p, (f w.dl).fileStream = some p →
      w.dl.fileStream = some p ∨ p = b.path ∧ w.dl.fDestFileCreated = true) :
    Beside uri b (v.updateDl f) (w.updateDl f) := by
  refine h.modify (f := (·.updateDl f)) ?_ rfl rfl rfl rfl rfl hpath hmade hstream
  rw [h.same]
  rfl

theorem updateStatus (h : Beside uri b v w) (f : DownloadStatus → DownloadStatus) :
    Beside uri b (v.updateStatus f) (w.updateStatus f) := h.updateDl rfl rfl fun _ => .inl

/-! ### The queue -/

theorem sched (h : Beside uri b v w) {op : Op} {tag : Tag} (hown : op.own = true) (htag : some tag = op.tag)
    (delay : Int) : Beside uri b (v.sched op delay tag) (w.sched op delay tag) := by
  have hnow : b.now ≤ w.now + TaskQueue.adjustedDelay delay := by
    have := h.now
    have := TaskQueue.adjustedDelay_nonneg delay
    omega
  have hforeign : (op != .foreign) = true := by cases op <;> first | rfl | cases hown
  have hsame : v.sched op delay tag =
      { w.sched op delay tag with taskQ := (v.sched op delay tag).taskQ, fs := v.fs } := by
    conv_lhs => rw [h.same]
    rw [h.same]
    rfl
  refine ⟨hsame, h.now, ?_, ?_, fun e he => ?_, ?_, h.path, h.fs, h.alone, h.stream, h.kept, h.made, h.mcc⟩
  · simp only [World.sched, TaskQueue.add, Multimap.entries_insert, h.clock]
    rw [Multimap.filter_insertEntry_of_pos (p := fun t : Task Op Tag => t.op != .foreign) hforeign
      v.taskQ.ops.sorted]
    exact Multimap.forall₂_insertEntry hnow _ h.tasks
  · simp only [World.sched, TaskQueue.add, Multimap.entries_insert]
    rw [Multimap.filter_insertEntry_of_neg (p := fun t : Task Op Tag => !t.op.own) (by simp [hown])]
    exact h.others
  · rcases TaskQueue.mem_add.1 he with rfl | he
    · exact htag
    · exact h.tags e he
  · exact h.places.insertEntry v.taskQ.ops.sorted (by simp [hown]) (by rw [h.clock]; exact hnow)

theorem addFront (h : Beside uri b v w) {op : Op} {tag : Tag} (hop : op = .alreadyTransferred)
    (htag : some tag = op.tag) :
    Beside uri b { v with taskQ := v.taskQ.addFront v.now op (some tag) }
      { w with taskQ := w.taskQ.addFront w.now op (some tag) } := by
  obtain ⟨due, hentries, hdue, -⟩ := TaskQueue.addFront_entries (q := v.taskQ) v.now op (some tag)
  obtain ⟨due', hentries', hdue', -⟩ := TaskQueue.addFront_entries (q := w.taskQ) w.now op (some tag)
  have hown : op.own = true := by rw [hop]; rfl
  have hforeign : (op != .foreign) = true := by rw [hop]; rfl
  have hnow := h.now
  have hclock := h.clock
  refine ⟨?_, h.now, ?_, ?_, fun e he => ?_, ?_, h.path, h.fs, h.alone, h.stream, h.kept, h.made, h.mcc⟩
  · conv_lhs => rw [h.same]
    rw [h.same]
  · simp only [hentries, hentries']
    rw [List.filter_cons_of_pos (by exact hforeign)]
    exact .cons ⟨rfl, .inr ⟨by simp only; omega, by simp only; omega⟩⟩ h.tasks
  · simp only [hentries]
    rw [List.filter_cons_of_neg (by simp [hown])]
    exact h.others
  · simp only [hentries] at he
    rcases List.mem_cons.1 he with rfl | he
    · exact htag
    · exact h.tags e he
  · simp only [hentries]
    exact h.places.cons (by simp [hown]) (by simp [hop, Op.behind])

theorem remove (h : Beside uri b v w) (tag : Tag) (htag : tag ≠ .other) :
    Beside uri b { v with taskQ := v.taskQ.remove tag } { w with taskQ := w.taskQ.remove tag } := by
  -- what has one of the download's tags is its own
  have hown : ∀ e ∈ v.taskQ.ops.entries, e.2.op.own = false → (e.2.tag != some tag) = true :=
    fun e he hno => by
    rw [h.tags e he]
    cases hop : e.2.op <;> rw [hop] at hno <;> simp_all [Op.own, Op.tag]
    exact fun heq => htag heq.symm
  refine ⟨?_, h.now, ?_, ?_, fun e he => h.tags e (List.mem_of_mem_filter he),
    h.places.filter fun e he hfixed => hown e he (by simpa using hfixed), h.path, h.fs, h.alone, h.stream,
    h.kept, h.made, h.mcc⟩
  · conv_lhs => rw [h.same]
  · simp only [TaskQueue.remove, Multimap.entries_keep]
    rw [List.filter_comm]
    refine List.rel_filter ?_ h.tasks
    rintro e e' ⟨heq, -⟩
    show (e.2.tag != some tag) = true ↔ (e'.2.tag != some tag) = true
    rw [heq]
  · simp only [TaskQueue.remove, Multimap.entries_keep, List.filter_filter]
    rw [← h.others]
    refine List.filter_congr fun e he => ?_
    have hmine := hown e he
    cases hown' : e.2.op.own <;> simp_all

theorem cancelTasks (h : Beside uri b v w) : Beside uri b v.cancelTasks w.cancelTasks :=
  (h.remove .download (by simp)).remove .progressTracker (by simp)

theorem exists_tag (h : Beside uri b v w) (tag : Tag) (htag : tag ≠ .other) :
    v.taskQ.exists_ tag = w.taskQ.exists_ tag := by
  have hforeign : v.taskQ.exists_ tag =
      (v.taskQ.ops.entries.filter fun e => e.2.op != .foreign).any fun e => e.2.tag == some tag := by
    rw [TaskQueue.exists_, List.any_filter, Bool.eq_iff_iff, List.any_eq_true, List.any_eq_true]
    refine exists_congr fun e => and_congr_right fun he => ?_
    have hno : e.2.op = .foreign → (e.2.tag == some tag) = false := fun hop => by
      rw [h.tags e he, hop]
      exact beq_false_of_ne fun heq => htag (Option.some.inj heq).symm
    by_cases hop : e.2.op = .foreign <;> simp_all
  have hany : ∀ l : List (Int × Task Op Tag),
      (l.any fun e => e.2.tag == some tag) = (l.map (·.2)).any fun t => t.tag == some tag := fun l => by
    rw [List.any_map]
    rfl
  rw [hforeign, TaskQueue.exists_, hany, hany, Multimap.values_of_near h.tasks]

/-! ### Files -/

/-- A change of the download's own file, where there is one. -/
theorem write (h : Beside uri b v w) (hmade : w.dl.fDestFileCreated = true) (content : Option (List UInt8))
    (hsome : content ≠ none) :
    Beside uri b { v with fs := Function.update v.fs b.path content }
      { w with fs := Function.update w.fs b.path content } where
  same := by
    conv_lhs => rw [h.same]
  now := h.now
  tasks := h.tasks
  others := h.others
  tags := h.tags
  places := h.places
  path := h.path
  fs := by
    simp only [h.fs, if_pos hmade, Function.update_idem, Function.update_self]
  alone p hp := by
    rcases hp with hp | hp
    · exact (Function.update_of_ne hp _ _).trans (h.alone p (.inl hp))
    · rw [hmade] at hp
      cases hp
  stream := h.stream
  kept _ _ := by simpa using hsome
  made := h.made
  mcc := h.mcc

/-- The download makes its file. -/
theorem create (h : Beside uri b v w) (hnone : v.fs b.path = none) :
    Beside uri b { v with
      fs := Function.update v.fs b.path (some []), created := b.path :: v.created
      dl := { v.dl with fileStream := some b.path, fDestFileCreated := true } } { w with
      fs := Function.update w.fs b.path (some []), created := b.path :: w.created
      dl := { w.dl with fileStream := some b.path, fDestFileCreated := true } } where
  same := by
    conv_lhs => rw [h.same]
  now := h.now
  tasks := h.tasks
  others := h.others
  tags := h.tags
  places := h.places
  path := h.path
  fs := by
    simp only [h.fs, if_true, Function.update_self]
    split
    · rw [Function.update_idem]
    · rfl
  alone p hp := by
    rcases hp with hp | hp
    · exact (Function.update_of_ne hp _ _).trans (h.alone p (.inl hp))
    · cases hp
  stream p hp := ⟨(Option.some.inj hp).symm, rfl⟩
  kept _ _ := by simp
  made _ := by
    by_cases hm : w.dl.fDestFileCreated = true
    · exact h.made hm
    · have hfs := h.fs
      rw [if_neg hm] at hfs
      exact .inr (hfs ▸ hnone)
  mcc := h.mcc

end Beside

/-! ## Functions that cannot tell the two apart -/

theorem bind_andThen (x : DlM α) (f : α → DlM β) (w : World) : (x >>= f) w = andThen (x w) f := by
  rw [bind_run]
  rcases x w with ⟨_ | _, _⟩ <;> rfl

/-- The rule for one step after another. -/
theorem agree_bind {x y : DlM α} {f g : α → DlM β} (h : Agree (Beside uri b) (x v) (y w))
    (hf : ∀ a v' w', x v = (.ok a, v') → y w = (.ok a, w') → Beside uri b v' w' →
      Agree (Beside uri b) (f a v') (g a w')) :
    Agree (Beside uri b) ((x >>= f) v) ((y >>= g) w) := by
  rw [bind_andThen, bind_andThen]
  exact h.andThen hf

theorem agree_throwIfFailed (h : Beside uri b v w) (hr : HResult) :
    Agree (Beside uri b) (throwIfFailed hr v) (throwIfFailed hr w) := by
  rw [throwIfFailed_run, throwIfFailed_run]
  exact Agree.ite Iff.rfl (fun _ => .error h hr) fun _ => .ok h ()

theorem agree_catchLog {x y : DlM Unit} (h : Agree (Beside uri b) (x v) (y w)) :
    Agree (Beside uri b) (catchLog x v) (catchLog y w) := ⟨rfl, h.2⟩

theorem agree_closeFileStream (h : Beside uri b v w) (o o' : Outside) (ho : o'.closeErr = o.closeErr) :
    Agree (Beside uri b) (closeFileStream o v) (closeFileStream o' w) := by
  simp only [closeFileStream, bind_run, get_run, ite_run, h.dl, ho]
  refine Agree.ite Iff.rfl (fun _ => ?_) fun _ => .ok h ()
  cases o.closeErr with
  | some err => exact .error h _
  | none => exact .ok (h.updateDl rfl rfl (by simp)) ()

/-- What the world of the download alone answers in place of the service: where the
service has a file that is not the download's, it cannot be made either. -/
def Surroundings.answers (b : Surroundings) (o : Outside) : Outside := { o with
  createErr := if (b.fs b.path).isSome ∧ b.made = false then some EEXIST else o.createErr }

theorem agree_createDestFile (h : Beside uri b v w) {o : Outside} (hclose : o.closeErr = none)
    (hmade : b.made = w.dl.fDestFileCreated) :
    Agree (Beside uri b) (createDestFile o v) (createDestFile (b.answers o) w) := by
  have hfile : w.dl.fDestFileCreated = false → v.fs w.dl.destFilePath = b.fs b.path ∧
      w.fs w.dl.destFilePath = none := fun hno => by
    have hv := h.fs
    rw [if_neg (by simp [hno])] at hv
    rw [hv, h.path]
    exact ⟨rfl, h.alone _ (.inr hno)⟩
  simp only [createDestFile, bind_run, get_run, ite_run, h.dl]
  by_cases hsome : (v.fs w.dl.destFilePath).isSome = true
  · rw [if_pos hsome]
    cases hm : w.dl.fDestFileCreated with
    | true =>
      rw [h.file hm] at hsome
      rw [if_pos hsome]
      exact .error h _
    | false =>
      obtain ⟨hv, hw⟩ := hfile hm
      rw [hv] at hsome
      rw [hw, if_neg (by simp), Surroundings.answers, if_pos ⟨hsome, hmade.trans hm⟩]
      exact .error h _
  · rw [if_neg hsome]
    have hnone : v.fs w.dl.destFilePath = none := by simpa using hsome
    have hw : w.fs w.dl.destFilePath = none := by
      cases hm : w.dl.fDestFileCreated with
      | true => rw [← h.file hm, hnone]
      | false => exact (hfile hm).2
    have hanswers : b.answers o = o := by
      rw [Surroundings.answers, if_neg]
      rintro ⟨hb, hno⟩
      rw [← (hfile (hmade.symm.trans hno)).1, hnone] at hb
      cases hb
    rw [hw, if_neg (by simp), hanswers]
    cases o.createErr with
    | some err => exact .error h _
    | none =>
      simp only [bind_run, modify_run, assignFileStream, get_run, hclose, Option.isSome_none,
        Bool.false_eq_true, and_false, if_false]
      rw [h.path] at hnone ⊢
      exact .ok (h.create hnone) ()

theorem agree_openDestFile (h : Beside uri b v w) {o o' : Outside} (hmade : w.dl.fDestFileCreated = true)
    (hopen : o'.openErr = o.openErr) (hclose : o.closeErr = none) (hclose' : o'.closeErr = none) :
    Agree (Beside uri b) (openDestFile o v) (openDestFile o' w) := by
  simp only [openDestFile, bind_run, get_run, ite_run, h.dl, h.file hmade, hopen]
  refine Agree.ite Iff.rfl (fun _ => .error h _) fun _ => ?_
  cases o.openErr with
  | some err => exact .error h _
  | none =>
    simp only [assignFileStream, bind_run, get_run, hclose, hclose', Option.isSome_none,
      Bool.false_eq_true, and_false, if_false, modify_run]
    refine .ok ?_ ()
    refine h.updateDl (f := fun d => { d with fileStream := some w.dl.destFilePath }) rfl rfl fun p hp => ?_
    exact .inr ⟨(Option.some.inj hp).symm.trans h.path, hmade⟩

theorem beside_schedProgressTracking (h : Beside uri b v w) :
    Beside uri b (schedProgressTracking v) (schedProgressTracking w) := by
  simp only [schedProgressTracking, h.exists_tag .progressTracker (by simp)]
  split
  · exact h
  · exact h.sched rfl rfl _

/-! ### Requests -/

theorem agree_updateConnectionTypeAndGetUrl (h : Beside uri b v w) (retry : Bool) :
    Agree (Beside uri b) (updateConnectionTypeAndGetUrl uri retry v)
      (updateConnectionTypeAndGetUrl uri retry w) := by
  have huses : ∀ ct al, usesMcc uri v ct al = usesMcc uri w ct al := fun ct al => by rw [h.same]; rfl
  simp only [updateConnectionTypeAndGetUrl, bind_run, get_run, modify_run, h.dl, h.clock, huses, ite_run]
  have hal :=
    h.updateDl (f := fun d => { d with fAllowMcc := (nextConnectionType w.dl w.now retry).2 }) rfl rfl
    fun _ => .inl
  have htype : ∀ type {v' w' : World}, Beside uri b v' w' →
      Beside uri b (v'.updateDl (·.setConnectionType type)) (w'.updateDl (·.setConnectionType type)) :=
    fun type v' w' h' => by
      refine h'.updateDl ?_ ?_ fun p hp => .inl ?_ <;> unfold Download.setConnectionType at * <;>
        split at * <;> first | rfl | exact hp
  refine Agree.ite Iff.rfl (fun _ => ?_) fun _ => .ok (htype .cdn hal) _
  cases uri.swapUrlHostNameForMCC w.dl.url w.dl.mccHost with
  | error hr => exact .error hal hr
  | ok url => exact .ok (htype .mcc hal) _

/-- The record of a request notes the time and how much the file holds. -/
theorem Beside.issue (h : Beside uri b v w) (hmade : w.dl.fDestFileCreated = true)
    (request : Int → Nat → IssuedRequest) :
    Beside uri b { v with requests := request v.now v.fileLength :: v.requests }
      { w with requests := request w.now w.fileLength :: w.requests } := by
  have hrequest : request v.now v.fileLength = request w.now w.fileLength := by
    rw [World.fileLength, World.fileLength, h.dl, h.file hmade, h.clock]
  refine h.modify (f := fun x => { x with requests := request x.now x.fileLength :: x.requests })
    ?_ rfl rfl rfl
    rfl rfl rfl rfl fun _ => .inl
  simp only [hrequest]
  conv_lhs => rw [h.same]

theorem agree_sendRequest (h : Beside uri b v w) (hmade : w.dl.fDestFileCreated = true) (o : Outside)
    (url : String) (proxy : Option String) (range : Option ByteRange) (secs : Nat) :
    Agree (Beside uri b) (sendRequest uri o url proxy range secs v)
    (sendRequest uri (b.answers o) url proxy range secs w) := by
  have hcurl : v.curl = w.curl := by rw [h.same]
  have hrunning : (b.answers o).fKeepRunning = o.fKeepRunning := rfl
  simp only [sendRequest, h.dl, hcurl, hrunning]
  cases w.dl.httpAgent with
  | none => exact .ok h _
  | some a =>
    dsimp only
    generalize a.sendRequest uri w.curl o.fKeepRunning url proxy range secs = sent
    have hcalled := h.modify (f := fun x => { x.updateDl fun d => { d with httpAgent := some sent.2.1 } with
      curl := sent.2.2, overlaps := x.overlaps + w.curl.outstanding.toNat }) (by rw [h.same]; rfl)
        rfl rfl rfl rfl
      rfl rfl rfl fun _ => .inl
    refine Agree.ite Iff.rfl (fun _ => .ok hcalled sent.1) fun _ => .ok ?_ sent.1
    exact hcalled.issue hmade fun now length => ⟨url, range, sent.2.1.headerLines, secs, now, length⟩

theorem agree_sendHttpRequest (h : Beside uri b v w) (hmade : w.dl.fDestFileCreated = true) (o : Outside)
    (retry : Bool) :
    Agree (Beside uri b) (sendHttpRequest uri o retry v) (sendHttpRequest uri (b.answers o) retry w) := by
  rw [sendHttpRequest, sendHttpRequest]
  simp only [bind_run (α := World), bind_run (α := Unit), get_run, modify_run, h.dl]
  have hproxy :=
    h.updateDl (f := fun d => { d with proxyList := w.dl.proxyList.next.2 }) rfl rfl fun _ => .inl
  refine agree_bind (agree_updateConnectionTypeAndGetUrl hproxy retry) fun url v₁ w₁ _ hw₁ h₁ => ?_
  have hmade₁ : w₁.dl.fDestFileCreated = true := by
    obtain ⟨res, d, hrun, hd, -⟩ := updateConnectionTypeAndGetUrl_run uri retry
      (w.updateDl fun d => { d with proxyList := w.dl.proxyList.next.2 })
    obtain ⟨_, _, _, _, _, _, _, rfl⟩ := hd.rerouted
    obtain ⟨-, rfl⟩ := Prod.mk.inj (hrun.symm.trans hw₁)
    exact hmade
  simp only [bind_run (α := World), get_run, h₁.dl]
  cases rangeToRequest w₁.dl.status with
  | error hr => exact .error h₁ hr
  | ok range =>
    rw [bind_andThen, bind_andThen]
    refine agree_bind (agree_sendRequest h₁ hmade₁ o url _ range _) fun hr v₂ w₂ _ _ h₂ => ?_
    refine agree_bind (agree_throwIfFailed h₂ hr) fun _ v₃ w₃ _ _ h₃ => .ok ?_ ()
    exact beside_schedProgressTracking (h₃.updateDl rfl rfl fun _ => .inl)

/-! ## State changes -/

namespace Beside

theorem setMccFallbackDue (h : Beside uri b v w) (o : Outside) :
    Beside uri b (setMccFallbackDue o v) (setMccFallbackDue (b.answers o) w) := by
  simp only [DoClient.setMccFallbackDue, Surroundings.answers, h.clock]
  cases o.fallbackDelay with
  | none => exact h
  | some delay => exact h.updateDl rfl rfl fun _ => .inl

theorem makeHttpAgent (h : Beside uri b v w) : Beside uri b v.makeHttpAgent w.makeHttpAgent :=
  h.modify (f := World.makeHttpAgent) (by rw [h.same]; rfl) rfl rfl rfl rfl rfl rfl rfl fun _ => .inl

theorem closeHttpAgent (h : Beside uri b v w) (raced : Bool) :
    Beside uri b (v.closeHttpAgent raced) (w.closeHttpAgent raced) := by
  have hagent : v.dl.httpAgent = w.dl.httpAgent := by rw [h.dl]
  simp only [World.closeHttpAgent, hagent]
  cases w.dl.httpAgent with
  | none => exact h
  | some a =>
    dsimp only
    by_cases hsome : a.curlHandle.isSome = true
    · rw [if_pos hsome, if_pos hsome]
      exact h.modify (f := fun x => { x with curl := x.curl.remove raced }) (by rw [h.same]) rfl
        rfl rfl rfl rfl
        rfl rfl fun _ => .inl
    · rw [if_neg hsome, if_neg hsome]
      exact h

/-- The download removes its file. -/
theorem deleteDestFile (h : Beside uri b v w) (hmade : w.dl.fDestFileCreated = true) (o : Outside) :
    Beside uri b (deleteDestFile o v) (deleteDestFile (b.answers o) w) := by
  have herr : (b.answers o).removeErr = o.removeErr := rfl
  simp only [DoClient.deleteDestFile, herr, h.dl, h.file hmade]
  by_cases hgone : (w.fs w.dl.destFilePath).isSome ∧ o.removeErr.isNone
  · rw [if_pos hgone, if_pos hgone]
    have hpath := h.path
    refine ⟨?_, h.now, h.tasks, h.others, h.tags, h.places, h.path, ?_, fun p hp => ?_, h.stream,
      fun _ hno => ?_, h.made, h.mcc⟩
    · conv_lhs => rw [h.same]
    · simp only [h.fs, if_pos hmade, hpath, Function.update_idem, Function.update_self]
    · rcases hp with hp | hp
      · exact (Function.update_of_ne (hpath ▸ hp) _ _).trans (h.alone p (.inl hp))
      · exact absurd (hmade.symm.trans hp) Bool.noConfusion
    · cases hno
  · rw [if_neg hgone, if_neg hgone]
    exact h

end Beside

/-- What the world of the download alone must be like for its operations: a file the service
may have stands for one the download has made before, and the download has one once
it has asked for it. -/
structure Surroundings.Fit (b : Surroundings) (o : Outside) (w : World) : Prop where
  closes : o.closeErr = none
  made : b.made = w.dl.fDestFileCreated
  issued : w.dl.status.state ≠ .created → w.dl.status.state ≠ .aborted → w.dl.fDestFileCreated = true

theorem agree_start (h : Beside uri b v w) {o : Outside} (hclose : o.closeErr = none)
    (hmade : b.made = w.dl.fDestFileCreated) :
    Agree (Beside uri b) (start uri o v) (start uri (b.answers o) w) := by
  rw [start, start]
  simp only [bind_run (α := World), get_run, ite_run, h.dl]
  refine Agree.ite Iff.rfl (fun _ => .error h _) fun _ => Agree.ite Iff.rfl (fun _ => .error h _) fun _ => ?_
  refine agree_bind (agree_createDestFile h hclose hmade) fun _ v₁ w₁ _ hw₁ h₁ => ?_
  have hmade₁ : w₁.dl.fDestFileCreated = true := by
    rcases createDestFile_run (b.answers o) w with ⟨-, hrun⟩ | ⟨-, hr, hrun⟩ | ⟨-, -, hr, hrun⟩ <;>
      rw [hrun] at hw₁ <;> cases hw₁
    rfl
  simp only [bind_run (α := Unit), modify_run]
  refine agree_sendHttpRequest ?_ ?_ o false
  · refine Beside.updateDl (f := fun d => { d with mccHost := o.mccHost }) ?_ rfl rfl fun _ => .inl
    refine Beside.setMccFallbackDue ?_ o
    exact h₁.makeHttpAgent.updateDl (f := fun d => { d with proxyList := ProxyList.refresh o.proxies })
      rfl rfl
      fun _ => .inl
  · rw [setMccFallbackDue_run]
    exact hmade₁

theorem agree_resume (h : Beside uri b v w) (hmade : w.dl.fDestFileCreated = true) {o : Outside}
    (hclose : o.closeErr = none) : Agree (Beside uri b) (resume uri o v) (resume uri (b.answers o) w) := by
  rw [resume, resume]
  have hopen : Agree (Beside uri b) (openDestFile o v) (openDestFile (b.answers o) w) :=
    agree_openDestFile h hmade rfl hclose hclose
  refine agree_bind hopen fun _ v₁ w₁ _ hw₁ h₁ => ?_
  have hmade₁ : w₁.dl.fDestFileCreated = true := by
    rcases openDestFile_run (b.answers o) w with hrun | ⟨hr, hrun⟩ | ⟨-, hr, hrun⟩ <;>
      rw [hrun] at hw₁ <;> cases hw₁
    exact hmade
  simp only [bind_run (α := World), get_run, ite_run, h₁.dl]
  refine Agree.ite Iff.rfl (fun _ => .ok (h₁.addFront rfl rfl) ()) fun _ => ?_
  simp only [bind_run (α := Unit), modify_run]
  have hhost :
    ∀ d : Download, (if d.fAllowMcc = true then { d with mccHost := o.mccHost } else d).destFilePath =
      d.destFilePath ∧ (if d.fAllowMcc = true then { d with mccHost := o.mccHost } else d).fDestFileCreated =
      d.fDestFileCreated ∧ (if d.fAllowMcc = true then { d with mccHost := o.mccHost } else d).fileStream =
      d.fileStream := fun d => by split <;> exact ⟨rfl, rfl, rfl⟩
  obtain ⟨hpath, hcreated, hstream⟩ := hhost w₁.dl
  refine agree_sendHttpRequest ?_ (hcreated.trans hmade₁) o false
  exact h₁.updateDl (f := fun d => if d.fAllowMcc = true then { d with mccHost := o.mccHost } else d) hpath
    hcreated fun p hp => .inl (hstream ▸ hp)

theorem agree_pause (h : Beside uri b v w) (o : Outside) :
    Agree (Beside uri b) (pause o v) (pause (b.answers o) w) := by
  rw [pause, pause]
  refine agree_bind (.ok (h.closeHttpAgent o.removeRaced) ()) fun _ _ _ _ _ h₁ => ?_
  refine agree_bind (.ok (h₁.updateDl rfl rfl fun _ => .inl) ()) fun _ _ _ _ _ h₂ => ?_
  exact agree_closeFileStream h₂ o (b.answers o) rfl

theorem agree_finalize (h : Beside uri b v w) (o : Outside) :
    Agree (Beside uri b) (finalize o v) (finalize (b.answers o) w) := by
  rw [finalize, finalize]
  refine agree_bind (.ok (h.closeHttpAgent o.removeRaced) ()) fun _ _ _ _ _ h₁ => ?_
  refine agree_bind (.ok (h₁.updateDl rfl rfl fun _ => .inl) ()) fun _ _ _ _ _ h₂ => ?_
  refine agree_bind (agree_closeFileStream h₂ o (b.answers o) rfl) fun _ _ _ _ _ h₃ => ?_
  exact .ok h₃.cancelTasks ()

theorem agree_abort (h : Beside uri b v w) (o : Outside) :
    Agree (Beside uri b) (abort o v) (abort (b.answers o) w) := by
  rw [abort, abort]
  refine agree_catchLog ?_
  refine agree_bind (.ok (h.closeHttpAgent o.removeRaced) ()) fun _ _ _ _ _ h₁ => ?_
  refine agree_bind (agree_closeFileStream h₁ o (b.answers o) rfl) fun _ _ _ _ _ h₂ => ?_
  refine agree_bind (.ok h₂.cancelTasks ()) fun _ v₃ w₃ _ _ h₃ => ?_
  simp only [bind_run (α := World), get_run, ite_run, h₃.dl]
  exact Agree.ite Iff.rfl (fun hown => .ok (h₃.deleteDestFile hown.1 o) ()) fun _ => .ok h₃ ()

/-- A request for a state. -/
theorem agree_performStateChange (h : Beside uri b v w) {o : Outside} (hfit : b.Fit o w) (s : DownloadState) :
    Agree (Beside uri b) (performStateChange uri o s v) (performStateChange uri (b.answers o) s w) := by
  have hstatus : ∀ {x y : DlM Unit} (f : DownloadStatus → DownloadStatus), Agree (Beside uri b) (x v) (y w) →
      Agree (Beside uri b) ((do x; modify (·.updateStatus f)) v) ((do y; modify (·.updateStatus f)) w) :=
    fun f hxy => agree_bind hxy fun _ _ _ _ _ h₁ => .ok (h₁.updateStatus f) ()
  have hmade : w.dl.status.state = .paused → w.dl.fDestFileCreated = true := fun hs =>
    hfit.issued (by simp [hs]) (by simp [hs])
  simp only [performStateChange, bind_run (α := World), get_run, h.dl]
  cases hs : w.dl.status.state <;> cases s <;> dsimp only <;> first
    | exact .ok h ()
    | exact .error h _
    | exact hstatus _ (agree_start h hfit.closes hfit.made)
    | exact hstatus _ (agree_resume h (hmade hs) hfit.closes)
    | exact hstatus _ (agree_pause h o)
    | exact hstatus _ (agree_finalize h o)
    | exact hstatus _ (agree_abort h o)

/-- A property; the path is fixed. -/
theorem agree_setProperty (h : Beside uri b v w) (o : Outside) {key : DownloadProperty}
    (hkey : key ≠ .localPath) (value : String) :
    Agree (Beside uri b) (setProperty uri o key value v) (setProperty uri (b.answers o) key value w) := by
  cases key with
  | id => exact .error h _
  | other => exact .ok h ()
  | localPath => exact absurd rfl hkey
  | uri =>
    simp only [setProperty, bind_run (α := World), get_run, ite_run, h.dl]
    refine Agree.ite Iff.rfl (fun _ => .error h _) fun _ =>
      Agree.ite Iff.rfl (fun _ => .error h _) fun _ => ?_
    refine Agree.ite Iff.rfl (fun _ => .error h _) fun _ => .ok (h.updateDl ?_ ?_ fun p hp => .inl ?_) ()
    · split <;> rfl
    · split <;> rfl
    · split at hp <;> exact hp
  | noProgressTimeoutSeconds =>
    simp only [setProperty, bind_run (α := World), get_run]
    refine agree_bind ?_ fun timeout v₁ w₁ _ _ h₁ => ?_
    · cases toUInt value with
      | error hr => exact .error h hr
      | ok timeout => exact .ok h timeout
    · simp only [ite_run]
      exact Agree.ite Iff.rfl (fun _ => .error h₁ _) fun _ => .ok (h₁.updateDl rfl rfl fun _ => .inl) ()

/-- A request that leaves the path alone. -/
def ClientRequest.KeepsPath : ClientRequest → Prop
  | .setProperty key _ => key ≠ .localPath
  | _ => True

theorem agree_clientRequest (h : Beside uri b v w) {o : Outside} (hfit : b.Fit o w) {r : ClientRequest}
    (hr : r.KeepsPath) :
    Agree (Beside uri b) (clientRequest uri o r v) (clientRequest uri (b.answers o) r w) := by
  cases r with
  | start => exact agree_performStateChange h hfit _
  | pause => exact agree_performStateChange h hfit _
  | finalize => exact agree_performStateChange h hfit _
  | abort => exact agree_performStateChange h hfit _
  | getStatus => exact .ok h ()
  | setProperty key value => exact agree_setProperty h o hr value

/-! ## The scheduled lambdas -/

theorem Beside.handleTransientError (h : Beside uri b v w) (hr : HResult) :
    Beside uri b (handleTransientError hr v) (handleTransientError hr w) :=
  (h.updateStatus (·.paused S_OK hr)).sched rfl rfl _

theorem agree_resumeAfterTransientError (h : Beside uri b v w) (o : Outside)
    (hmade : w.dl.status.isTransientError = true → w.dl.fDestFileCreated = true) :
    Agree (Beside uri b) (resumeAfterTransientError uri o v)
    (resumeAfterTransientError uri (b.answers o) w) := by
  simp only [resumeAfterTransientError, bind_run (α := World), get_run, ite_run, h.dl]
  refine Agree.ite Iff.rfl (fun hwait => ?_) fun _ => .ok h ()
  refine agree_bind (agree_sendHttpRequest h (hmade hwait) o false) fun _ _ _ _ _ h₁ => ?_
  exact .ok (h₁.updateStatus (·.transferring)) ()

theorem Beside.schedRetry (h : Beside uri b v w) (hr : HResult) :
    Beside uri b (schedRetry hr v) (schedRetry hr w) := by
  have h₁ := h.updateDl (f := fun d => { d with
    status := { d.status with error := hr }, progressTracker := d.progressTracker.onDownloadFailure }) rfl rfl
    fun _ => .inl
  simp only [DoClient.schedRetry, h₁.dl, h₁.clock]
  split
  · exact (h₁.updateDl (f := fun d => { d with progressTracker := d.progressTracker.resetRetryDelay }) rfl rfl
      fun _ => .inl).sched rfl rfl _
  · exact h₁.sched rfl rfl _

/-- A report to `MCCManager`. -/
theorem Beside.reportHostError (h : Beside uri b v w) (r : HResult × Nat × String × String) :
    Beside uri b { v with mcc := v.mcc.reportHostError uri v.now r.1 r.2.1 r.2.2.1 r.2.2.2 }
      { w with mcc := w.mcc.reportHostError uri w.now r.1 r.2.1 r.2.2.1 r.2.2.2 } where
  same := by
    conv_lhs => rw [h.same]
  now := h.now
  tasks := h.tasks
  others := h.others
  tags := h.tags
  places := h.places
  path := h.path
  fs := h.fs
  alone := h.alone
  stream := h.stream
  kept := h.kept
  made := h.made
  mcc := by
    obtain ⟨reports, hreports⟩ := h.mcc
    refine ⟨reports ++ [r], ?_⟩
    simp only [MccManager.reportAll, List.foldl_append, List.foldl_cons, List.foldl_nil] at hreports ⊢
    rw [hreports, h.now]

theorem agree_transferFailed (h : Beside uri b v w) (o : Outside) (hr hc : HResult) (code : Nat)
    (text : String) :
    Agree (Beside uri b) (transferFailed uri o hr hc code text v)
      (transferFailed uri (b.answers o) hr hc code text w) := by
  rw [transferFailed, transferFailed]
  refine agree_bind (.ok (h.updateDl rfl rfl fun _ => .inl) ()) fun _ v₁ w₁ _ _ h₁ => ?_
  have hviable : (b.answers o).hasViableInterface = o.hasViableInterface := rfl
  simp only [hviable, ite_run]
  refine Agree.ite Iff.rfl (fun _ => .ok (h₁.handleTransientError _) ()) fun _ => ?_
  refine agree_bind (.ok ?_ ()) fun _ v₂ w₂ _ _ h₂ => ?_
  · have husing : v₁.dl.usingMcc = w₁.dl.usingMcc := by rw [h₁.dl]
    beta_reduce
    by_cases hmcc : w₁.dl.usingMcc = true
    · rw [if_pos hmcc, if_pos (husing.trans hmcc)]
      have hreport := h₁.reportHostError (hr, w₁.dl.httpStatusCode, w₁.dl.mccHost, w₁.dl.url)
      simpa only [h₁.dl] using hreport
    · rw [if_neg hmcc, if_neg (husing.trans_ne hmcc)]
      exact h₁
  simp only [bind_run (α := World), get_run, ite_run, h₂.dl]
  refine Agree.ite Iff.rfl (fun _ => ?_) fun _ => .ok (h₂.schedRetry _) ()
  exact agree_bind (agree_pause h₂ o) fun _ _ _ _ _ h₃ => .ok (h₃.updateStatus _) ()

theorem agree_progressCheck (h : Beside uri b v w) (o : Outside) :
    Agree (Beside uri b) (progressCheck o v) (progressCheck (b.answers o) w) := by
  simp only [progressCheck, bind_run (α := World), get_run, ite_run, h.dl]
  refine Agree.ite Iff.rfl (fun _ => ?_) fun _ => .ok h ()
  refine agree_bind (.ok (h.updateDl rfl rfl fun _ => .inl) ()) fun _ v₁ w₁ _ _ h₁ => ?_
  simp only [ite_run]
  refine Agree.ite Iff.rfl (fun _ => ?_) fun _ => .ok (beside_schedProgressTracking h₁) ()
  exact agree_bind (agree_pause h₁ o) fun _ _ _ _ _ h₂ => .ok (h₂.updateStatus _) ()

theorem agree_runOp (h : Beside uri b v w) {o : Outside} (hfit : b.Fit o w) {op : Op} (hop : op ≠ .foreign)
    (hkeeps : ∀ r, op = .client r → r.KeepsPath) :
    Agree (Beside uri b) (runOp uri o op v) (runOp uri (b.answers o) op w) := by
  cases op with
  | client r => exact agree_clientRequest h hfit (hkeeps r rfl)
  | headersUpdate => exact .ok (h.updateDl rfl rfl fun _ => .inl) ()
  | dataUpdate => exact .ok (h.updateStatus _) ()
  | transferCompleted => exact .ok (h.updateDl rfl rfl fun _ => .inl) ()
  | transferFailed hr hc code text => exact agree_transferFailed h o hr hc code text
  | alreadyTransferred => exact .ok (h.updateStatus _) ()
  | progressCheck => exact agree_progressCheck h o
  | foreign => exact absurd rfl hop
  | retry =>
    simp only [runOp, bind_run (α := World), get_run, ite_run, h.dl]
    refine Agree.ite Iff.rfl (fun hs => ?_) fun _ => .ok h ()
    exact agree_sendHttpRequest h (hfit.issued (by simp [hs.1]) (by simp [hs.1])) o true
  | transientTimer =>
    have hviable : (b.answers o).hasViableInterface = o.hasViableInterface := rfl
    simp only [runOp, hviable, ite_run]
    refine Agree.ite Iff.rfl (fun _ => agree_resumeAfterTransientError h o fun hwait => ?_) fun _ =>
      .ok (h.handleTransientError _) ()
    have hs : w.dl.status.state = .paused := by
      simp only [DownloadStatus.isTransientError, Bool.and_eq_true, beq_iff_eq] at hwait
      exact hwait.1.1
    exact hfit.issued (by simp [hs]) (by simp [hs])

theorem Beside.terminate (h : Beside uri b v w) :
    Beside uri b { v with terminated := true } { w with terminated := true } :=
  h.modify (f := fun x => { x with terminated := true }) (by rw [h.same]) rfl rfl rfl rfl rfl rfl rfl
    fun _ => .inl

theorem Beside.reply (h : Beside uri b v w) (reply : ClientRequest × Except HResult Unit) :
    Beside uri b { v with replies := reply :: v.replies } { w with replies := reply :: w.replies } :=
  h.modify (f := fun x => { x with replies := reply :: x.replies }) (by rw [h.same]) rfl rfl rfl
    rfl rfl rfl rfl
    fun _ => .inl

theorem beside_unguarded {p q : Except HResult Unit × World} (h : Agree (Beside uri b) p q) :
    Beside uri b (unguarded p) (unguarded q) := by
  obtain ⟨r, v⟩ := p
  obtain ⟨r', w⟩ := q
  obtain ⟨rfl, hw⟩ := h
  cases r with
  | ok => exact hw
  | error => exact hw.terminate

/-- **No task of a download tells the service from its world alone.** -/
theorem beside_runTask (h : Beside uri b v w) {o : Outside} (hfit : b.Fit o w) {op : Op} (hop : op ≠ .foreign)
    (hkeeps : ∀ r, op = .client r → r.KeepsPath) :
    Beside uri b (runTask uri o op v) (runTask uri (b.answers o) op w) := by
  have hagree := agree_runOp h hfit hop hkeeps
  cases op with
  | client r =>
    simp only [runTask]
    obtain ⟨hresult, hworld⟩ := hagree
    simp only [runOp] at hresult hworld
    rw [← hresult]
    exact hworld.reply (r, (clientRequest uri o r v).1)
  | foreign => exact absurd rfl hop
  | headersUpdate | dataUpdate | transferCompleted | transferFailed | alreadyTransferred | progressCheck |
    retry | transientTimer => exact beside_unguarded hagree

/-! ## Callbacks -/

/-- A change of the agent and of what curl keeps. -/
theorem Beside.updateAgent (h : Beside uri b v w) (f : HttpAgent → HttpAgent) :
    Beside uri b (v.updateAgent f) (w.updateAgent f) := by
  refine h.updateDl (f := fun d => { d with httpAgent := d.httpAgent.map f }) rfl rfl fun _ => .inl

theorem Beside.updateCurl (h : Beside uri b v w) (f : CurlHandle → CurlHandle) :
    Beside uri b { v with curl := f v.curl } { w with curl := f w.curl } :=
  h.modify (f := fun x => { x with curl := f x.curl }) (by rw [h.same]) rfl rfl rfl rfl rfl rfl rfl
    fun _ => .inl

theorem agree_onHeadersAvailable (h : Beside uri b v w) (indeterminate : Nat) :
    Agree (Beside uri b) (onHeadersAvailable indeterminate v) (onHeadersAvailable indeterminate w) := by
  simp only [onHeadersAvailable, h.dl]
  cases w.dl.httpAgent with
  | none => exact .of h _
  | some a =>
    dsimp only
    cases a.bytesTotal indeterminate with
    | error hr => exact .of h _
    | ok bytesTotal => exact .of (h.sched rfl rfl 0) _

theorem agree_appendFileStream (h : Beside uri b v w) (chunk : List UInt8) (out : WriteOutcome) :
    Agree (Beside uri b) (appendFileStream chunk out v) (appendFileStream chunk out w) := by
  have hopen : v.dl.fileStream = w.dl.fileStream := by rw [h.dl]
  simp only [appendFileStream, hopen]
  cases hstream : w.dl.fileStream with
  | none => exact .of h _
  | some path =>
    obtain ⟨rfl, hmade⟩ := h.stream path hstream
    have hfile := h.file hmade
    rw [h.path] at hfile
    cases out with
    | error errno => exact .of h _
    | wrote n =>
      simp only [hfile]
      refine Agree.ite Iff.rfl (fun _ => .of h _) fun _ => ?_
      have hwrite := h.write hmade (some ((w.fs b.path).getD [] ++ chunk.take n)) (by simp)
      exact Agree.ite Iff.rfl (fun _ => .of hwrite _) fun _ => .of hwrite _

theorem agree_onData (h : Beside uri b v w) (chunk : List UInt8) (out : WriteOutcome) :
    Agree (Beside uri b) (onData chunk out v) (onData chunk out w) := by
  obtain ⟨hresult, h₁⟩ := agree_appendFileStream h chunk out
  simp only [onData, ← hresult]
  exact Agree.ite Iff.rfl (fun _ => .of h₁ _) fun _ => .of (h₁.sched rfl rfl 0) _

theorem beside_onComplete (h : Beside uri b v w) (hrRequest hrCallback : HResult) :
    Beside uri b (onComplete hrRequest hrCallback v) (onComplete hrRequest hrCallback w) := by
  have hagent : v.dl.httpAgent = w.dl.httpAgent := by rw [h.dl]
  simp only [onComplete, hagent]
  cases w.dl.httpAgent with
  | none => exact h
  | some a =>
    dsimp only
    split
    · exact h.sched rfl rfl 0
    · exact h.sched rfl rfl 0

theorem beside_trySetStatusCode (h : Beside uri b v w) (responseCode indeterminate : Nat) :
    Beside uri b (trySetStatusCodeAndInvokeOnHeadersAvailable responseCode indeterminate v)
      (trySetStatusCodeAndInvokeOnHeadersAvailable responseCode indeterminate w) := by
  have hagent : v.dl.httpAgent = w.dl.httpAgent := by rw [h.dl]
  simp only [trySetStatusCodeAndInvokeOnHeadersAvailable, hagent]
  cases w.dl.httpAgent with
  | none => exact h
  | some a =>
    dsimp only
    by_cases hinvoked : a.responseOnHeadersAvailableInvoked = true
    · rw [if_pos hinvoked, if_pos hinvoked]
      exact h
    rw [if_neg hinvoked, if_neg hinvoked]
    have h₁ := h.updateAgent fun a => { a with
      responseOnHeadersAvailableInvoked := true, responseStatusCode := responseCode
      hrTranslatedStatusCode := HttpAgent.resultFromStatusCode responseCode }
    split
    · obtain ⟨hresult, h₂⟩ := agree_onHeadersAvailable h₁ indeterminate
      rw [← hresult]
      exact h₂.updateAgent _
    · exact h₁

theorem agree_writeCallback (h : Beside uri b v w) (responseCode : Nat) (chunk : List UInt8)
    (out : WriteOutcome) (indeterminate : Nat) :
    Agree (Beside uri b) (writeCallback responseCode chunk out indeterminate v)
      (writeCallback responseCode chunk out indeterminate w) := by
  have h₁ := beside_trySetStatusCode h responseCode indeterminate
  simp only [writeCallback, h₁.dl]
  cases (trySetStatusCodeAndInvokeOnHeadersAvailable responseCode indeterminate w).dl.httpAgent with
  | none => exact .of h₁ _
  | some a =>
    refine Agree.ite Iff.rfl (fun _ => ?_) fun _ => .of h₁ _
    obtain ⟨hresult, h₂⟩ := agree_onData h₁ (chunk.take (wrap32 chunk.length)) out
    rw [← hresult]
    exact .of (h₂.updateAgent _) _

/-- `OnComplete`, told what the agent has by now. -/
def World.completed (w : World) : World :=
  match w.dl.httpAgent with
  | none => w
  | some a => onComplete a.hrTranslatedStatusCode a.hrCallback w

theorem beside_completed (h : Beside uri b v w) : Beside uri b v.completed w.completed := by
  have hagent : v.dl.httpAgent = w.dl.httpAgent := by rw [h.dl]
  simp only [World.completed, hagent]
  cases w.dl.httpAgent with
  | none => exact h
  | some a => exact beside_onComplete h _ _

theorem beside_completeCallback (h : Beside uri b v w) (responseCode curlResult indeterminate : Nat) :
    Beside uri b (completeCallback responseCode curlResult indeterminate v)
      (completeCallback responseCode curlResult indeterminate w) := by
  have hagent : v.dl.httpAgent = w.dl.httpAgent := by rw [h.dl]
  simp only [completeCallback, hagent]
  cases w.dl.httpAgent with
  | none => exact h
  | some a =>
    dsimp only
    by_cases hinvoked : a.responseOnCompleteInvoked = true
    · rw [if_pos hinvoked, if_pos hinvoked]
      exact h
    rw [if_neg hinvoked, if_neg hinvoked]
    have h₁ := h.updateAgent fun a => { a with responseOnCompleteInvoked := true }
    -- what comes before `OnComplete`
    refine beside_completed ?_
    split
    · exact beside_trySetStatusCode h₁ _ _
    · split
      · exact h₁.updateAgent _
      · exact h₁

/-- **No callback of a download tells the service from its world alone.** -/
theorem beside_curlEvent (h : Beside uri b v w) {e : CurlEvent} {v' : World} (hv : curlEvent v e = some v') :
    ∃ w', curlEvent w e = some w' ∧ Beside uri b v' w' := by
  have hactive : v.curl.active = w.curl.active := by rw [h.same]
  cases e with
  | status code =>
    simp only [curlEvent, Option.bind_eq_some_iff, hactive] at hv ⊢
    obtain ⟨t, ht, hv⟩ := hv
    split at hv
    · cases hv
    next hbody =>
    simp only [Option.some.injEq] at hv
    subst hv
    exact ⟨_, ⟨t, ht, if_neg hbody⟩,
      h.updateCurl fun c => { c with active := some { t with responseCode := code } }⟩
  | header line =>
    simp only [curlEvent, Option.map_eq_some_iff, hactive] at hv ⊢
    obtain ⟨t, ht, rfl⟩ := hv
    exact ⟨_, ⟨t, ht, rfl⟩, (h.updateAgent (·.headerCallback line)).updateCurl fun c =>
      { c with active := some (t.noteHeader line) }⟩
  | write chunk out indeterminate =>
    simp only [curlEvent, Option.bind_eq_some_iff, hactive] at hv ⊢
    obtain ⟨t, ht, hv⟩ := hv
    split at hv
    · cases hv
    next hguard =>
    simp only [Option.some.injEq] at hv
    subst hv
    obtain ⟨hresult, h₁⟩ := agree_writeCallback h t.responseCode chunk out indeterminate
    refine ⟨_, ⟨t, ht, if_neg hguard⟩, ?_⟩
    rw [← hresult]
    exact h₁.updateCurl fun c => { c with active := some { t with
      bodyStarted := true, body := t.body ++ chunk
      writeFailed := !(writeCallback t.responseCode chunk out indeterminate v).1 } }
  | complete curlResult indeterminate =>
    simp only [curlEvent, Option.bind_eq_some_iff, hactive] at hv ⊢
    obtain ⟨t, ht, hv⟩ := hv
    split at hv
    · cases hv
    next hguard =>
    simp only [Option.some.injEq] at hv
    subst hv
    have h₁ := beside_completeCallback h t.responseCode curlResult indeterminate
    exact ⟨_, ⟨t, ht, if_neg hguard⟩,
      h₁.updateCurl fun c => { c with active := none, completedSinceDrain := true }⟩

end DoClient
