/-
Which cache hosts `MCCManager` takes for banned after a history of reports:
the answer read off the reports themselves.
-/
import DoClient.Agent
import DoClient.Lib.History

namespace DoClient

/-! ## One cache host -/

namespace MccHost

variable (h : MccHost) (now banInterval : Int) (originalHost host : String)

/-- The end of the ban for one original host. -/
def unbanTimeFor : Int :=
  match h.timeOfUnbanForOriginalHosts.find? (·.host == host) with
  | some s => s.timeOfUnban
  | none => timePointMin

/-- The end of the ban for one original host, when there was one. -/
def banFor : Option Int := (h.timeOfUnbanForOriginalHosts.find? (·.host == host)).map (·.timeOfUnban)

theorem unbanTimeFor_eq : h.unbanTimeFor host = (h.banFor host).getD timePointMin := by
  unfold unbanTimeFor banFor
  cases h.timeOfUnbanForOriginalHosts.find? (·.host == host) <;> rfl

theorem find_replaceFirst {t : Int} {l : List OriginalHostStatus}
    (hl : l.any (·.host == originalHost) = true) :
    (banForOriginalHost.replaceFirst originalHost t l).find? (·.host == host) =
      if host = originalHost then some ⟨originalHost, t⟩ else l.find? (·.host == host) := by
  induction l with
  | nil => simp at hl
  | cons s l ih =>
    unfold banForOriginalHost.replaceFirst
    by_cases hs : s.host = originalHost
    · subst hs
      by_cases hh : host = s.host
      · simp [hh]
      · simp [hh, Ne.symm hh]
    · have hl' : l.any (·.host == originalHost) = true := by simpa [hs] using hl
      have hs' : (s.host == originalHost) = false := beq_eq_false_iff_ne.2 hs
      simp only [hs', Bool.false_eq_true, if_false, List.find?_cons, ih hl']
      by_cases hh : host = originalHost
      · simp [hh, hs']
      · simp [hh]

theorem banFor_banForOriginalHost : (h.banForOriginalHost now originalHost banInterval).banFor host =
    if host = originalHost then some (now + banInterval) else h.banFor host := by
  unfold banForOriginalHost banFor
  cases hany : h.timeOfUnbanForOriginalHosts.any (·.host == originalHost) with
  | true =>
    simp only [if_true, find_replaceFirst originalHost host hany]
    by_cases hh : host = originalHost <;> simp [hh]
  | false =>
    have hnone : h.timeOfUnbanForOriginalHosts.find? (·.host == originalHost) = none := by
      simpa [List.find?_eq_none] using hany
    simp only [Bool.false_eq_true, if_false, List.find?_append, List.find?_cons, List.find?_nil]
    by_cases hh : host = originalHost
    · simp [hh, hnone]
    · simp [hh, beq_eq_false_iff_ne.2 (Ne.symm hh)]

/-- A ban for the one original host, not yet over. -/
theorem isBanned_of_banFor {unban : Int} (h₁ : h.banFor host = some unban) (hlt : now < unban) :
    h.isBanned now host = true := by
  obtain ⟨s, hs, rfl⟩ := Option.map_eq_some_iff.1 h₁
  unfold isBanned
  split
  · rfl
  · simp [hs, hlt]

/-- A cache host is banned for all, or for the one original host. -/
theorem isBanned_iff (hnow : timePointMin ≤ now) :
    h.isBanned now host = true ↔ now < h.timeOfUnban ∨ now < h.unbanTimeFor host := by
  unfold isBanned unbanTimeFor
  split
  · next hlt => simp [hlt]
  · next hlt =>
    cases h.timeOfUnbanForOriginalHosts.find? (·.host == host) with
    | some s => simp [hlt]
    | none =>
      simp only [Bool.false_eq_true, hlt, false_or, false_iff]
      omega

end MccHost

/-! ## Reports -/

/-- An error reported to `MCCManager`, and when. -/
structure Report where
  time : Int
  hr : HResult
  httpStatusCode : Nat
  mccHost : String
  originalUrl : String
  deriving DecidableEq, Repr

namespace Report

variable (uri : UriLib) (r : Report)

/-- The cache host timed out or could not be reached. -/
def unresponsive : Prop :=
  r.hr = HResult.WININET_E_TIMEOUT ∨ r.hr = HResult.ERROR_WINHTTP_NAME_NOT_RESOLVED ∨
    r.hr = HResult.ERROR_WINHTTP_CANNOT_CONNECT

instance : Decidable r.unresponsive := inferInstanceAs (Decidable (_ ∨ _ ∨ _))

/-- Bans a cache host for every original host. -/
def BansAll (mccHost : String) : Prop :=
  r.mccHost = mccHost ∧ isClientError r.httpStatusCode = false ∧ r.unresponsive

/-- Bans a cache host for one original host. -/
def BansFor (mccHost originalHost : String) : Prop :=
  r.mccHost = mccHost ∧ isClientError r.httpStatusCode = true ∧ uri.host r.originalUrl = originalHost

instance (mccHost : String) : Decidable (r.BansAll mccHost) := inferInstanceAs (Decidable (_ ∧ _ ∧ _))
instance (mccHost originalHost : String) : Decidable (r.BansFor uri mccHost originalHost) :=
  inferInstanceAs (Decidable (_ ∧ _ ∧ _))

/-- The end of a ban this report brings. -/
def unban : Int := r.time + mccHostBanInterval

end Report

namespace MccManager

variable (uri : UriLib) (m : MccManager)

def report (r : Report) : MccManager :=
  m.reportHostError uri r.time r.hr r.httpStatusCode r.mccHost r.originalUrl

/-- The manager after a history of reports. -/
def after (reports : List Report) : MccManager := reports.foldl (report uri) {}

def find (mccHost : String) : MccHost := (m.mccHosts.find? (·.address == mccHost)).getD (.new mccHost)

theorem find_update {f : MccHost → MccHost} (hf : ∀ h, (f h).address = h.address) (address mccHost : String)
    (l : List MccHost) : find ⟨update address f l⟩ mccHost =
      if mccHost = address then f (find ⟨l⟩ mccHost) else find ⟨l⟩ mccHost := by
  unfold find
  induction l with
  | nil =>
    have hnew : (f (.new address)).address = address := hf _
    by_cases ha : mccHost = address
    · subst ha
      simp [update, hnew]
    · simp [update, hnew, ha, Ne.symm ha]
  | cons h l ih =>
    by_cases hh : h.address = address
    · subst hh
      by_cases ha : mccHost = h.address
      · simp [update, ha, hf]
      · simp [update, ha, hf, Ne.symm ha]
    · simp only [update, beq_eq_false_iff_ne.2 hh, Bool.false_eq_true, if_false, List.find?_cons]
      by_cases ha : h.address = mccHost
      · subst ha
        simp [hh]
      · simpa only [beq_eq_false_iff_ne.2 ha] using ih

/-- What a report does to the entry of a cache host. -/
theorem report_find (mccHost : String) (r : Report) : (m.report uri r).find mccHost =
    if mccHost = r.mccHost then
      if isClientError r.httpStatusCode then
        (m.find mccHost).banForOriginalHost r.time (uri.host r.originalUrl) mccHostBanInterval
      else if r.unresponsive then (m.find mccHost).ban r.time mccHostBanInterval
      else m.find mccHost
    else m.find mccHost := by
  have hban : ∀ h : MccHost, (h.ban r.time mccHostBanInterval).address = h.address := fun _ => rfl
  have hbanFor : ∀ h : MccHost,
      (h.banForOriginalHost r.time (uri.host r.originalUrl) mccHostBanInterval).address = h.address :=
        fun h => by
    unfold MccHost.banForOriginalHost
    simp only
    split <;> rfl
  unfold report reportHostError
  cases isClientError r.httpStatusCode with
  | true => simp [find_update hbanFor]
  | false =>
    by_cases hu : r.unresponsive
    · have hfatal : (r.hr = HResult.WININET_E_TIMEOUT ∨ r.hr = HResult.ERROR_WINHTTP_NAME_NOT_RESOLVED) ∨
          r.hr = HResult.ERROR_WINHTTP_CANNOT_CONNECT := or_assoc.2 hu
      simp [hfatal, hu, find_update hban]
    · have hfatal : ¬ ((r.hr = HResult.WININET_E_TIMEOUT ∨ r.hr = HResult.ERROR_WINHTTP_NAME_NOT_RESOLVED) ∨
          r.hr = HResult.ERROR_WINHTTP_CANNOT_CONNECT) := fun h => hu (or_assoc.1 h)
      simp [hfatal, hu]

/-- What a report does to the end of a ban for all. -/
theorem unban_report (mccHost : String) (r : Report) :
    ((m.report uri r).find mccHost).timeOfUnban =
    if r.BansAll mccHost then r.unban else (m.find mccHost).timeOfUnban := by
  rw [report_find]
  by_cases ha : mccHost = r.mccHost
  · subst ha
    cases hc : isClientError r.httpStatusCode with
    | true => simp [Report.BansAll, hc, MccHost.banForOriginalHost, apply_ite]
    | false =>
      by_cases hu : r.unresponsive <;> simp [Report.BansAll, hc, hu, MccHost.ban, Report.unban]
  · simp [Report.BansAll, ha, Ne.symm ha]

/-- What a report does to the ban for one original host. -/
theorem banFor_report (mccHost originalHost : String) (r : Report) :
    ((m.report uri r).find mccHost).banFor originalHost =
      if r.BansFor uri mccHost originalHost then some r.unban else (m.find mccHost).banFor originalHost := by
  rw [report_find]
  by_cases ha : mccHost = r.mccHost
  · subst ha
    cases hc : isClientError r.httpStatusCode with
    | true =>
      simp only [if_true, MccHost.banFor_banForOriginalHost, Report.BansFor, hc, true_and, Report.unban]
      by_cases hh : originalHost = uri.host r.originalUrl
      · simp [hh]
      · simp [hh, Ne.symm hh]
    | false =>
      by_cases hu : r.unresponsive <;> simp [Report.BansFor, hc, hu, MccHost.ban, MccHost.banFor]
  · simp [Report.BansFor, ha, Ne.symm ha]

theorem unbanTimeFor_report (mccHost originalHost : String) (r : Report) :
    ((m.report uri r).find mccHost).unbanTimeFor originalHost =
      if r.BansFor uri mccHost originalHost then r.unban else (m.find mccHost).unbanTimeFor originalHost := by
  rw [MccHost.unbanTimeFor_eq, banFor_report, MccHost.unbanTimeFor_eq]
  split <;> rfl

/-- What `IsBanned` says of a cache host banned for the original one. -/
theorem isBanned_of_banFor {now unban : Int} {mccHost originalUrl : String}
    (h : (m.find mccHost).banFor (uri.host originalUrl) = some unban) (hlt : now < unban) :
    m.isBanned uri now mccHost originalUrl = true := by
  unfold isBanned
  unfold find at h
  cases hfind : m.mccHosts.find? (·.address == mccHost) with
  | none =>
    rw [hfind] at h
    cases h
  | some host =>
    rw [hfind] at h
    exact host.isBanned_of_banFor now (uri.host originalUrl) h hlt

/-- What `IsBanned` asks is asked of the entry. -/
theorem isBanned_find {now : Int} (hnow : timePointMin ≤ now) (mccHost originalUrl : String) :
    m.isBanned uri now mccHost originalUrl = true ↔ now < (m.find mccHost).timeOfUnban ∨
      now < (m.find mccHost).unbanTimeFor (uri.host originalUrl) := by
  unfold isBanned find
  cases m.mccHosts.find? (·.address == mccHost) with
  | some h => exact h.isBanned_iff now (uri.host originalUrl) hnow
  | none =>
    have hnew : ¬ (now < timePointMin ∨ now < timePointMin) := by omega
    simpa [MccHost.new, MccHost.unbanTimeFor] using hnew

/-! ## Histories -/

/-- A report that can matter to a question about a cache host and an original URL. -/
def Concerns (mccHost originalUrl : String) (r : Report) : Prop :=
  r.mccHost = mccHost ∧
    (isClientError r.httpStatusCode = true → uri.host r.originalUrl = uri.host originalUrl)

instance (mccHost originalUrl : String) (r : Report) : Decidable (Concerns uri mccHost originalUrl r) :=
  inferInstanceAs (Decidable (_ ∧ _))

theorem isBanned_after {reports : List Report}
    (hreports : reports.Pairwise fun r s => r.time ≤ s.time) {now : Int} (hnow : timePointMin ≤ now)
    (mccHost originalUrl : String) :
    (after uri reports).isBanned uri now mccHost originalUrl = true ↔ ∃ r ∈ reports, now < r.unban ∧
      r.mccHost = mccHost ∧ (isClientError r.httpStatusCode = false ∧ r.unresponsive ∨
        isClientError r.httpStatusCode = true ∧ uri.host r.originalUrl = uri.host originalUrl) := by
  have horder : reports.Pairwise fun r s => r.unban ≤ s.unban :=
    hreports.imp fun h => Int.add_le_add_right h mccHostBanInterval
  have hall := @History.lt_register_iff _ _ _ _ (fun m : MccManager => (m.find mccHost).timeOfUnban) _ _ _ _
    (fun m r => unban_report uri m mccHost r) {} now hnow reports horder
  have hone :=
    @History.lt_register_iff
      _ _ _ _ (fun m : MccManager => (m.find mccHost).unbanTimeFor (uri.host originalUrl))
    _ _ _ _ (fun m r => unbanTimeFor_report uri m mccHost (uri.host originalUrl) r) {} now hnow reports horder
  rw [isBanned_find uri _ hnow, after, hall, hone]
  constructor
  · rintro (⟨r, hr, ⟨hhost, hban⟩, hlt⟩ | ⟨r, hr, ⟨hhost, hban⟩, hlt⟩)
    · exact ⟨r, hr, hlt, hhost, .inl hban⟩
    · exact ⟨r, hr, hlt, hhost, .inr hban⟩
  · rintro ⟨r, hr, hlt, hhost, hban | hban⟩
    · exact .inl ⟨r, hr, ⟨hhost, hban⟩, hlt⟩
    · exact .inr ⟨r, hr, ⟨hhost, hban⟩, hlt⟩

/-- **A ban comes of a report in the last quarter of an hour.** Reports about other cache hosts, and client
errors for other original hosts, do not change the answer. -/
theorem banned_iff_reported {reports : List Report}
    (hreports : reports.Pairwise fun r s => r.time ≤ s.time) {now : Int} (hnow : timePointMin ≤ now)
    (mccHost originalUrl : String) :
    ((after uri reports).isBanned uri now mccHost originalUrl = true ↔ ∃ r ∈ reports,
      now < r.time + seconds (15 * 60) ∧ r.mccHost = mccHost ∧
      (isClientError r.httpStatusCode = false ∧ r.unresponsive ∨
        isClientError r.httpStatusCode = true ∧ uri.host r.originalUrl = uri.host originalUrl)) ∧
    (after uri (reports.filter fun r => decide (Concerns uri mccHost originalUrl r))).isBanned uri now
    mccHost originalUrl =
      (after uri reports).isBanned uri now mccHost originalUrl := by
  refine ⟨isBanned_after uri hreports hnow mccHost originalUrl, ?_⟩
  rw [Bool.eq_iff_iff, isBanned_after uri (hreports.filter _) hnow, isBanned_after uri hreports hnow]
  constructor
  · rintro ⟨r, hr, hban⟩
    exact ⟨r, List.mem_of_mem_filter hr, hban⟩
  · rintro ⟨r, hr, hlt, hhost, hban⟩
    refine ⟨r, List.mem_filter.2 ⟨hr, decide_eq_true ⟨hhost, fun hc => ?_⟩⟩, hlt, hhost, hban⟩
    rcases hban with ⟨hnot, -⟩ | ⟨-, hsame⟩
    · exact absurd (hc.symm.trans hnot) Bool.noConfusion
    · exact hsame

/-- A file the cache host did not have, then a timeout of another one. -/
def twoReports : List Report := [
  ⟨seconds 0, HResult.HTTP_E_STATUS_NOT_FOUND, 404, "cache", "http://origin/file"⟩,
  ⟨seconds 60, HResult.WININET_E_TIMEOUT, 0, "other", "http://origin/file"⟩]

/-- The ban is on until a quarter of an hour after the first of them. -/
theorem banned_iff_reported_missing :
    (after plainUri twoReports).isBanned plainUri (seconds 899) "cache" "http://origin/file" = true ∧
    ¬ (after plainUri twoReports).isBanned plainUri (seconds 900) "cache" "http://origin/file" = true := by
  have horder : twoReports.Pairwise fun r s => r.time ≤ s.time := by decide
  refine ⟨(banned_iff_reported plainUri horder (by decide) _ _).1.2
    ⟨_, List.mem_cons_self, by decide, rfl, .inr ⟨rfl, rfl⟩⟩, fun h => ?_⟩
  obtain ⟨r, hr, hlt, hhost, -⟩ := (banned_iff_reported plainUri horder (by decide) _ _).1.1 h
  simp only [twoReports, List.mem_cons, List.not_mem_nil, or_false] at hr
  rcases hr with rfl | rfl
  · exact absurd hlt (by decide)
  · exact absurd hhost (by decide)

end MccManager

end DoClient
