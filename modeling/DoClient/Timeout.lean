/-
The no-progress timeout, set as text and read back (`SetProperty`, `GetProperty`
and `_MaxNoProgressIntervals`). `ToUInt` takes what `std::stoul` makes of the
text, cut to 32 bits, so text behind a number, a sign and numbers from 2^32 on
are not always refused.
-/
import DoClient.Agent
import DoClient.Guid
import DoClient.RestApi

namespace DoClient

open HResult DlM

/-- `GetProperty` of a download with an id. -/
def Download.getProperty (d : Download) (id : GUID) : DownloadProperty → String
  | .id => (guidToString id).text
  | .uri => d.url
  | .localPath => d.destFilePath
  | .noProgressTimeoutSeconds => toString d.noProgressTimeout
  | .other => ""

/-- A plain decimal number. -/
def Denotes (v : String) (n : Nat) : Prop :=
  v.toList ≠ [] ∧ (∀ c ∈ v.toList, c.isDigit = true) ∧ decimal v.toList = n

/-- The timeout is so many seconds, is read back as that number, and is as many check intervals
as come nearest to it, at least one. -/
structure StoredExactly (d : Download) (id : GUID) (n : Nat) : Prop where
  timeout : d.noProgressTimeout = n
  property : d.getProperty id .noProgressTimeoutSeconds = toString n
  nearest : 10 * d.maxNoProgressIntervals ≤ n + 5 ∧ n + 5 < 10 * (d.maxNoProgressIntervals + 1)
  positive : 1 ≤ d.maxNoProgressIntervals

/-- The number is stored exactly, or the call throws and changes nothing; and it throws unless the
text is a plain decimal number of at least 10 seconds that fits in 32 bits. -/
structure ExactOrInvalid (id : GUID) (v : String) (w : World) (r : Except HResult Unit × World) : Prop where
  outcome : (r.1 = .ok () ∧ ∃ n, Denotes v n ∧ StoredExactly r.2.dl id n) ∨
    (r.1 = .error E_INVALIDARG ∧ r.2.dl.noProgressTimeout = w.dl.noProgressTimeout)
  invalid : (¬ ∃ n, Denotes v n ∧ 10 ≤ n ∧ n < 2 ^ 32) → r.1 = .error E_INVALIDARG

/-! ## What `stoul` reads -/

/-- A number in front of a text: white space, a sign, digits, and whatever follows them. -/
structure Front (text : List Char) where
  space : List Char
  sign : List Char
  digits : List Char
  rest : List Char
  text_eq : text = space ++ (sign ++ (digits ++ rest))
  space_only : ∀ c ∈ space, isSpace c = true
  sign_eq : sign = [] ∨ sign = ['+'] ∨ sign = ['-']
  digits_ne : digits ≠ []
  digits_only : ∀ c ∈ digits, c.isDigit = true
  rest_stops : ∀ c ∈ rest.head?, c.isDigit = false

namespace Front

variable {text : List Char} (f : Front text)

def number : Nat := decimal f.digits

/-- `-` negates in 64 bits. -/
def value : Nat := if f.sign = ['-'] then wrap64 (2 ^ 64 - f.number) else f.number

/-- There is nothing but digits. -/
def Plain : Prop := f.space = [] ∧ f.sign = [] ∧ f.rest = []

theorem not_isSpace_of_isDigit {c : Char} (h : c.isDigit = true) : isSpace c = false := by
  cases hspace : isSpace c with
  | false => rfl
  | true =>
    simp only [isSpace, Bool.or_eq_true, beq_iff_eq] at hspace
    rcases hspace with ((((rfl | rfl) | rfl) | rfl) | rfl) | rfl <;> exact absurd h (by decide)

theorem takeWhile_digits : (f.digits ++ f.rest).takeWhile Char.isDigit = f.digits := by
  have hrest : f.rest.takeWhile Char.isDigit = [] := by
    cases h : f.rest with
    | nil => rfl
    | cons c rest =>
      have hc := f.rest_stops c (by simp [h])
      simp [hc]
  rw [List.takeWhile_append_of_pos f.digits_only, hrest, List.append_nil]

/-- White space ends where the sign or the digits begin. -/
theorem dropWhile_space : text.dropWhile isSpace = f.sign ++ (f.digits ++ f.rest) := by
  conv_lhs => rw [f.text_eq, List.dropWhile_append_of_pos f.space_only]
  obtain ⟨d, digits, hdigits⟩ := List.exists_cons_of_ne_nil f.digits_ne
  have hd : isSpace d = false := not_isSpace_of_isDigit (f.digits_only d (by simp [hdigits]))
  rcases f.sign_eq with hsign | hsign | hsign
  · simp [hsign, hdigits, hd]
  · rw [hsign]
    rfl
  · rw [hsign]
    rfl

theorem stoull_eq : stoull text = if 2 ^ 64 ≤ f.number then none else some f.value := by
  obtain ⟨d, digits, hdigits⟩ := List.exists_cons_of_ne_nil f.digits_ne
  have hd : d.isDigit = true := f.digits_only d (by simp [hdigits])
  have hminus : d ≠ '-' := fun h => absurd hd (h ▸ by decide)
  have hplus : d ≠ '+' := fun h => absurd hd (h ▸ by decide)
  have hafter : afterSign (f.sign ++ (f.digits ++ f.rest)) = f.digits ++ f.rest := by
    rcases f.sign_eq with hsign | hsign | hsign
    · simp [afterSign, hsign, hdigits, hminus, hplus]
    · simp [afterSign, hsign]
    · simp [afterSign, hsign]
  have hnegative : ((f.sign ++ (f.digits ++ f.rest)).head? == some '-') = decide (f.sign = ['-']) := by
    rcases f.sign_eq with hsign | hsign | hsign
    · simp [hsign, hdigits, hminus]
    · simp [hsign]
    · simp [hsign]
  have hempty : f.digits.isEmpty = false := by simpa using f.digits_ne
  simp only [stoull, f.dropWhile_space, hafter, f.takeWhile_digits, hnegative, hempty, Bool.false_eq_true,
    if_false, decide_eq_true_eq]
  rfl

/-- The front of a text that `stoul` reads a number from. -/
theorem exists_of_stoull {n : Nat} (h : stoull text = some n) : Nonempty (Front text) := by
  let text' := text.dropWhile isSpace
  have hsign : ∃ sign, text' = sign ++ afterSign text' ∧ (sign = [] ∨ sign = ['+'] ∨ sign = ['-']) := by
    cases htext : text' with
    | nil => exact ⟨[], rfl, .inl rfl⟩
    | cons c rest =>
      by_cases hplus : c = '+'
      · exact ⟨['+'], by simp [afterSign, hplus], .inr (.inl rfl)⟩
      by_cases hminus : c = '-'
      · exact ⟨['-'], by simp [afterSign, hminus], .inr (.inr rfl)⟩
      · exact ⟨[], by simp [afterSign, hplus, hminus], .inl rfl⟩
  obtain ⟨sign, htext, hsign⟩ := hsign
  have hdigits : (afterSign text').takeWhile Char.isDigit ≠ [] := fun hnil => by
    simp [stoull, text', hnil] at h
  exact ⟨{
    space := text.takeWhile isSpace
    sign := sign
    digits := (afterSign text').takeWhile Char.isDigit
    rest := (afterSign text').dropWhile Char.isDigit
    text_eq := by
      rw [List.takeWhile_append_dropWhile, ← htext, List.takeWhile_append_dropWhile]
    space_only := fun c hc => List.mem_takeWhile_imp hc
    sign_eq := hsign
    digits_ne := hdigits
    digits_only := fun c hc => List.mem_takeWhile_imp hc
    rest_stops := fun c hc => by
      have hne : (afterSign text').dropWhile Char.isDigit ≠ [] := fun hnil => by simp [hnil] at hc
      have hhead := List.head_dropWhile_not Char.isDigit hne
      rwa [List.head_of_mem_head? hc] at hhead }⟩

theorem text_of_plain (h : f.Plain) : text = f.digits := by
  have htext := f.text_eq
  rw [h.1, h.2.1, h.2.2] at htext
  simpa using htext

end Front

/-- In front of digits alone there is nothing else. -/
theorem Front.plain_of_digits {text : List Char} (f : Front text) (h : ∀ c ∈ text, c.isDigit = true) : f.Plain := by
  have hparts : ∀ c, c ∈ f.space ∨ c ∈ f.sign ∨ c ∈ f.rest → c.isDigit = true := fun c hc =>
    h c (by rw [f.text_eq]; simp only [List.mem_append]; tauto)
  refine ⟨?_, ?_, ?_⟩
  · refine List.eq_nil_iff_forall_not_mem.2 fun c hc => ?_
    have hspace := f.space_only c hc
    rw [Front.not_isSpace_of_isDigit (hparts c (.inl hc))] at hspace
    cases hspace
  · rcases f.sign_eq with hsign | hsign | hsign
    · exact hsign
    · exact absurd (hparts '+' (by simp [hsign])) (by decide)
    · exact absurd (hparts '-' (by simp [hsign])) (by decide)
  · cases hrest : f.rest with
    | nil => rfl
    | cons c rest =>
      have hstop := f.rest_stops c (by simp [hrest])
      rw [hparts c (by simp [hrest])] at hstop
      cases hstop

/-- A plain number is its own front. -/
def Front.ofDigits {text : List Char} (hne : text ≠ []) (h : ∀ c ∈ text, c.isDigit = true) : Front text where
  space := []
  sign := []
  digits := text
  rest := []
  text_eq := by simp
  space_only := nofun
  sign_eq := .inl rfl
  digits_ne := hne
  digits_only := h
  rest_stops := nofun

/-- The text has a number in front that comes to 10 or more in 32 bits, and is not a plain
decimal number that fits in them. -/
def Misread (v : String) : Prop :=
  ∃ f : Front v.toList, f.number < 2 ^ 64 ∧ 10 ≤ wrap32 f.value ∧ ¬ (f.Plain ∧ f.number < 2 ^ 32)

section Result

variable {uri : UriLib} {o : Outside} {id : GUID} {w : World} {v : String} {n : Nat}

theorem Front.denotes_of_plain (f : Front v.toList) (h : f.Plain) : Denotes v f.number := by
  have htext := f.text_of_plain h
  exact ⟨htext ▸ f.digits_ne, fun c hc => f.digits_only c (htext ▸ hc), congrArg decimal htext⟩

theorem Denotes.front (h : Denotes v n) : ∃ f : Front v.toList, f.Plain ∧ f.number = n ∧ f.value = n :=
  ⟨.ofDigits h.1 h.2.1, ⟨rfl, rfl, rfl⟩, h.2.2, h.2.2⟩

theorem Denotes.unique {m : Nat} (hn : Denotes v n) (hm : Denotes v m) : n = m := hn.2.2.symm.trans hm.2.2

theorem setProperty_timeout (uri : UriLib) (o : Outside) (w : World) (v : String) :
    setProperty uri o .noProgressTimeoutSeconds v w = match stoull v.toList with
      | none => (.error E_INVALIDARG, w)
      | some n =>
        if wrap32 n < 10 then (.error E_INVALIDARG, w)
        else (.ok (), w.updateDl fun d => { d with noProgressTimeout := wrap32 n }) := by
  simp only [setProperty, bind_run, get_run, liftExcept_run, toUInt]
  cases stoull v.toList with
  | none => rfl
  | some n => by_cases h : wrap32 n < 10 <;> simp [h, progressTrackerCheckInterval]

theorem storedExactly (d : Download) (id : GUID) (h : 10 ≤ n) :
    StoredExactly { d with noProgressTimeout := n } id n := by
  have hne : n ≠ 0 := by omega
  have hintervals : Download.maxNoProgressIntervals { d with noProgressTimeout := n } = (2 * n + 10) / 20 := by
    simp [Download.maxNoProgressIntervals, progressTrackerCheckInterval, hne]
  refine ⟨rfl, rfl, ?_, ?_⟩ <;> rw [hintervals] <;> omega

/-- **A number of at least 10 that fits in 32 bits is stored.** -/
theorem setProperty_of_denotes (h : Denotes v n) (hlow : 10 ≤ n) (hhigh : n < 2 ^ 32) :
    setProperty uri o .noProgressTimeoutSeconds v w =
      (.ok (), w.updateDl fun d => { d with noProgressTimeout := n }) := by
  obtain ⟨f, -, hnumber, hvalue⟩ := h.front
  have hwrap : wrap32 n = n := Nat.mod_eq_of_lt hhigh
  have hfits : ¬ 2 ^ 64 ≤ f.number := by omega
  have hlow' : ¬ n < 10 := by omega
  simp only [setProperty_timeout, f.stoull_eq, if_neg hfits, hvalue, hwrap, if_neg hlow']

/-- **The timeout is stored exactly or refused, exactly when the text is not misread.** -/
theorem timeout_exactOrInvalid_iff (uri : UriLib) (o : Outside) (id : GUID) (w : World) (v : String) :
    ExactOrInvalid id v w (setProperty uri o .noProgressTimeoutSeconds v w) ↔ ¬ Misread v := by
  rw [setProperty_timeout]
  constructor
  · rintro ⟨houtcome, -⟩ ⟨f, hnumber, hlow, hplain⟩
    rw [f.stoull_eq, if_neg (Nat.not_le.2 hnumber)] at houtcome
    simp only [if_neg (Nat.not_lt.2 hlow)] at houtcome
    rcases houtcome with ⟨-, n, hdenotes, hstored⟩ | ⟨hthrown, -⟩
    · have hf := f.plain_of_digits hdenotes.2.1
      have hn : f.number = n := (f.denotes_of_plain hf).unique hdenotes
      have hfits : wrap32 f.value < 2 ^ 32 := Nat.mod_lt _ (by decide)
      have htimeout : wrap32 f.value = n := hstored.timeout
      exact hplain ⟨hf, by omega⟩
    · cases hthrown
  · intro h
    cases hread : stoull v.toList with
    | none => exact ⟨.inr ⟨rfl, rfl⟩, fun _ => rfl⟩
    | some m =>
      obtain ⟨f⟩ := Front.exists_of_stoull hread
      have hvalue := hread
      rw [f.stoull_eq] at hvalue
      split at hvalue
      · cases hvalue
      next hnumber =>
      obtain rfl := Option.some.inj hvalue
      by_cases hlow : wrap32 f.value < 10
      · simp only [if_pos hlow]
        exact ⟨.inr ⟨rfl, rfl⟩, fun _ => rfl⟩
      · obtain ⟨hplain, hfits⟩ : f.Plain ∧ f.number < 2 ^ 32 := by
          by_contra hnot
          exact h ⟨f, Nat.not_le.1 hnumber, Nat.not_lt.1 hlow, hnot⟩
        have hwrap : wrap32 f.value = f.number := by
          rw [Front.value, if_neg (by simp [hplain.2.1])]
          exact Nat.mod_eq_of_lt hfits
        have hdenotes := f.denotes_of_plain hplain
        simp only [if_neg hlow]
        rw [hwrap] at hlow ⊢
        exact ⟨.inl ⟨rfl, f.number, hdenotes, storedExactly w.dl id (Nat.not_lt.1 hlow)⟩,
          fun hnone => absurd ⟨f.number, hdenotes, Nat.not_lt.1 hlow, hfits⟩ hnone⟩

/-- 2 ^ 32 + 10 seconds are stored as ten, and `60s` is a number. -/
theorem timeout_misread :
    ((setProperty plainUri {} .noProgressTimeoutSeconds "4294967306" newDownload).1 = .ok () ∧
      (setProperty plainUri {} .noProgressTimeoutSeconds "4294967306" newDownload).2.dl.noProgressTimeout = 10 ∧
      Denotes "4294967306" 4294967306) ∧
    (setProperty plainUri {} .noProgressTimeoutSeconds "60s" newDownload).1 = .ok () ∧ ∀ n, ¬ Denotes "60s" n := by
  refine ⟨⟨by decide, by decide, by decide, forall_mem_of_all (by decide), by decide⟩, by decide, fun n h => ?_⟩
  exact absurd (h.2.1 's' (by decide)) (by decide)

end Result

end DoClient
