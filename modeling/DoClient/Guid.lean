/-
Download ids (`util/do_guid.cpp`): a GUID printed by one format string and
scanned by another. `snprintf` and `sscanf` are modelled for the directives the
two use, as the C standard has them.
-/
import DoClient.Bytes
import Mathlib.Data.List.TakeWhile

namespace DoClient

structure GUID where
  data1 : UInt32
  data2 : UInt16
  data3 : UInt16
  data4 : Vector UInt8 8
  deriving DecidableEq, Repr

/-- `GUIDSTR_MAX`. -/
def GUIDSTR_MAX : Nat := 1 + 8 + 1 + 4 + 1 + 4 + 1 + 4 + 1 + 12 + 1 + 1

/-! ## Formatted output and input -/

/-- A directive of a format string: `%0<width>x` or `%<width>x` of an unsigned number of
so many bits, or a character. -/
inductive Directive
  | hex (width bits : Nat)
  | char (c : UInt8)
  deriving DecidableEq, Repr

/-- The digit `%x` prints. -/
def hexDigitLower (d : Nat) : UInt8 := (ascii "0123456789abcdef").getD d 0

def isxdigit (c : UInt8) : Bool := isdigit c || 97 ≤ c && c ≤ 102 || 65 ≤ c && c ≤ 70

def hexValue (c : UInt8) : Nat :=
  if isdigit c then c.toNat - 48 else if 97 ≤ c then c.toNat - 87 else c.toNat - 55

/-- White space of the "C" locale. -/
def isBlank (c : UInt8) : Bool := c == 32 || 9 ≤ c && c ≤ 13

/-- What `printf` makes of its arguments. -/
def printed : List Directive → List Nat → Bytes
  | .hex width bits :: fmt, v :: args => Numeral.padded 16 hexDigitLower width (v % 2 ^ bits) ++ printed fmt args
  | .char c :: fmt, args => c :: printed fmt args
  | _, _ => []

/-- `snprintf` to a buffer of a size: what its text is then. -/
def stringPrintf (size : Nat) (fmt : List Directive) (args : List Nat) : Bytes :=
  cstr ((printed fmt args).take (size - 1))

/-- `%<width>x` of `sscanf`: white space is skipped; then at most `width` characters
are read, a sign, `0x` and digits. -/
def scanHex (width : Nat) (s : Bytes) : Option (Nat × Bytes) :=
  let s := s.dropWhile isBlank
  let sign := if 0 < width ∧ (s.head? = some 43 ∨ s.head? = some 45) then 1 else 0
  let s' := s.drop sign
  let marker := if sign + 2 ≤ width ∧ (s'.take 2 = ascii "0x" ∨ s'.take 2 = ascii "0X") then 2 else 0
  let digits := ((s'.drop marker).take (width - sign - marker)).takeWhile isxdigit
  if digits = [] then none
  else
    let n := Numeral.value 16 hexValue digits
    some (if s.head? = some 45 then 2 ^ 64 - n else n, s'.drop (marker + digits.length))

/-- The values `sscanf` assigns, up to the first directive that fails. -/
def scanned : List Directive → Bytes → List Nat
  | .hex width bits :: fmt, s =>
    match scanHex width s with
    | some (v, s) => v % 2 ^ bits :: scanned fmt s
    | none => []
  | .char c :: fmt, s => if s.head? = some c then scanned fmt s.tail else []
  | [], _ => []

/-! ## The two functions -/

/-- `%08x-%04hx-%04hx-%02x%02x-%02x%02x%02x%02x%02x%02x`. -/
def guidPrintFormat : List Directive :=
  [.hex 8 32, .char 45, .hex 4 16, .char 45, .hex 4 16, .char 45, .hex 2 32, .hex 2 32, .char 45,
    .hex 2 32, .hex 2 32, .hex 2 32, .hex 2 32, .hex 2 32, .hex 2 32]

/-- `%8x-%4hx-%4hx-%2hhx%2hhx-%2hhx%2hhx%2hhx%2hhx%2hhx%2hhx`. -/
def guidScanFormat : List Directive :=
  [.hex 8 32, .char 45, .hex 4 16, .char 45, .hex 4 16, .char 45, .hex 2 8, .hex 2 8, .char 45,
    .hex 2 8, .hex 2 8, .hex 2 8, .hex 2 8, .hex 2 8, .hex 2 8]

/-- The eleven numbers of a GUID, in the order of both formats. -/
def GUID.segments (g : GUID) : List Nat :=
  g.data1.toNat :: g.data2.toNat :: g.data3.toNat :: g.data4.toList.map UInt8.toNat

/-- `GuidToString`. -/
def guidToString (g : GUID) : Bytes := stringPrintf GUIDSTR_MAX guidPrintFormat g.segments

/-- `StringCleanup`. -/
def stringCleanup (s charsToRemove : Bytes) : Bytes := s.filter fun c => !charsToRemove.contains c

/-- `StringToGuid`. -/
def stringToGuid (guidStr : Bytes) : Option GUID :=
  let GUIDSTR_MIN := GUIDSTR_MAX - 2 - 1
  let len := (cstr guidStr).length
  if GUIDSTR_MIN ≤ len ∧ len ≤ GUIDSTR_MAX - 1 then
    let localGuidStr := (stringCleanup (cstr guidStr) (ascii "\x7b\x7d")).map tolower
    if localGuidStr.length = GUIDSTR_MIN then
      match scanned guidScanFormat localGuidStr with
      | [d1, d2, d3, e0, e1, e2, e3, e4, e5, e6, e7] => some {
        data1 := .ofNat d1, data2 := .ofNat d2, data3 := .ofNat d3
        data4 := #v[.ofNat e0, .ofNat e1, .ofNat e2, .ofNat e3, .ofNat e4, .ofNat e5, .ofNat e6, .ofNat e7] }
      -- Fewer than all the segments were assigned.
      | _ => none
    else none
  else none

/-! ## Printed, then scanned -/

/-- A format to print by and one to scan by go together on these numbers. -/
def FitsFormats : List Directive → List Directive → List Nat → Prop
  | .hex width bits :: p, .hex width' bits' :: s, v :: args =>
    width' = width ∧ 0 < width ∧ v < 16 ^ width ∧ v < 2 ^ bits ∧ v < 2 ^ bits' ∧ FitsFormats p s args
  | .char c :: p, .char c' :: s, args => c' = c ∧ FitsFormats p s args
  | [], [], [] => True
  | _, _, _ => False

theorem hexDigitLower_isxdigit {d : Nat} (h : d < 16) :
    isxdigit (hexDigitLower d) = true ∧ hexValue (hexDigitLower d) = d ∧ tolower (hexDigitLower d) = hexDigitLower d := by
  interval_cases d <;> decide

theorem isxdigit_ne {c x : UInt8} (hc : isxdigit c = true) (hx : isxdigit x = false) : c ≠ x := class_ne hc hx

theorem padded_isxdigit {width v : Nat} : ∀ c ∈ Numeral.padded 16 hexDigitLower width v, isxdigit c = true := by
  intro c hc
  obtain ⟨d, hd, rfl⟩ := Numeral.mem_padded (by decide) hc
  exact (hexDigitLower_isxdigit hd).1

/-- As many digits as the width are read, whatever follows them. -/
theorem scanHex_digits {width : Nat} {ds : Bytes} (hlength : ds.length = width) (hwidth : 0 < width)
    (hds : ∀ c ∈ ds, isxdigit c = true) (rest : Bytes) :
    scanHex width (ds ++ rest) = some (Numeral.value 16 hexValue ds, rest) := by
  obtain ⟨c, ds', rfl⟩ := List.exists_cons_of_length_pos (hlength ▸ hwidth)
  have hc := hds c List.mem_cons_self
  have hblank : (c :: ds' ++ rest).dropWhile isBlank = c :: ds' ++ rest := by
    have hnot : isBlank c = false := by
      simp only [isxdigit, isdigit, isBlank, Bool.or_eq_true, Bool.and_eq_true, decide_eq_true_eq, Bool.or_eq_false_iff,
        beq_eq_false_iff_ne, Bool.and_eq_false_iff, decide_eq_false_iff_not] at hc ⊢
      grind
    simp [hnot]
  have hsign : ¬ (0 < width ∧ ((c :: ds' ++ rest).head? = some 43 ∨ (c :: ds' ++ rest).head? = some 45)) := by
    simp [isxdigit_ne hc (x := 43) (by decide), isxdigit_ne hc (x := 45) (by decide)]
  have hmarker : ¬ (0 + 2 ≤ width ∧ ((c :: ds' ++ rest).take 2 = ascii "0x" ∨ (c :: ds' ++ rest).take 2 = ascii "0X")) := by
    rintro ⟨h2, htake⟩
    rw [← hlength, List.length_cons] at h2
    obtain ⟨c', ds'', rfl⟩ := List.exists_cons_of_length_pos (l := ds') (by omega)
    have hc' := hds c' (by simp)
    rcases htake with h | h
    · exact isxdigit_ne hc' (x := 120) (by decide) (congrArg (fun l : Bytes => l.getD 1 0) h)
    · exact isxdigit_ne hc' (x := 88) (by decide) (congrArg (fun l : Bytes => l.getD 1 0) h)
  have htake : ((c :: ds' ++ rest).take width).takeWhile isxdigit = c :: ds' := by
    rw [List.take_left' hlength]
    exact List.takeWhile_eq_self_iff.2 hds
  have hneg : (c :: ds' ++ rest).head? ≠ some 45 := fun h => hsign ⟨hwidth, .inr h⟩
  simp only [scanHex, hblank, hsign, if_false, List.drop_zero, hmarker, Nat.sub_zero, htake,
    Nat.zero_add, hlength]
  rw [if_neg (List.cons_ne_nil _ _), if_neg hneg, List.drop_left' hlength]

/-- What is printed by the one format is scanned by the other, for numbers that fit. -/
theorem scanned_printed {p s : List Directive} {args : List Nat} (h : FitsFormats p s args) : scanned s (printed p args) = args := by
  induction p generalizing s args with
  | nil =>
    match s, args, h with
    | [], [], _ => rfl
  | cons d p ih =>
    match d, s, args, h with
    | .hex width bits, .hex _ bits' :: s, v :: args, ⟨rfl, hwidth, hv, hbits, hbits', hfits⟩ =>
      rw [printed, scanned, Nat.mod_eq_of_lt hbits, scanHex_digits (Numeral.length_padded (by decide) hwidth hv) hwidth
        padded_isxdigit, Numeral.value_padded (by decide) fun d hd => (hexDigitLower_isxdigit hd).2.1]
      simp only [Nat.mod_eq_of_lt hbits', ih hfits]
    | .char c, .char _ :: s, args, ⟨rfl, hfits⟩ =>
      rw [printed, scanned, List.head?_cons, if_pos rfl, List.tail_cons]
      exact ih hfits

def Directive.width : Directive → Nat
  | .hex width _ => width
  | .char _ => 1

theorem length_printed {p s : List Directive} {args : List Nat} (h : FitsFormats p s args) :
    (printed p args).length = (p.map Directive.width).sum := by
  induction p generalizing s args with
  | nil =>
    match s, args, h with
    | [], [], _ => rfl
  | cons d p ih =>
    match d, s, args, h with
    | .hex width bits, .hex _ _ :: s, v :: args, ⟨rfl, hwidth, hv, hbits, _, hfits⟩ =>
      simp only [printed, Nat.mod_eq_of_lt hbits, List.length_append, Numeral.length_padded (by decide) hwidth hv,
        ih hfits, List.map_cons, List.sum_cons, Directive.width]
    | .char c, .char _ :: s, args, ⟨rfl, hfits⟩ =>
      simp only [printed, List.length_cons, ih hfits, List.map_cons, List.sum_cons, Directive.width]
      omega

theorem mem_printed {p : List Directive} {args : List Nat} {c : UInt8} (h : c ∈ printed p args) :
    (∃ d < 16, c = hexDigitLower d) ∨ .char c ∈ p := by
  fun_induction printed p args with
  | case1 width bits p v args ih =>
    rcases List.mem_append.1 h with h | h
    · exact .inl (Numeral.mem_padded (by decide) h)
    · exact (ih h).imp_right (List.mem_cons_of_mem _)
  | case2 c' p args ih =>
    rcases List.mem_cons.1 h with rfl | h
    · exact .inr List.mem_cons_self
    · exact (ih h).imp_right (List.mem_cons_of_mem _)
  | case3 => cases h

/-! ## GUIDs -/

/-- A lower-case hexadecimal digit or a hyphen. -/
def isGuidCharacter (c : UInt8) : Bool := isdigit c || 97 ≤ c && c ≤ 102 || c == 45

theorem isGuidCharacter_printed {args : List Nat} :
    ∀ c ∈ printed guidPrintFormat args, isGuidCharacter c = true ∧ tolower c = c := by
  intro c hc
  rcases mem_printed hc with ⟨d, hd, rfl⟩ | hc
  · interval_cases d <;> decide
  · obtain rfl : c = 45 := by simpa [guidPrintFormat] using hc
    decide

theorem fits_segments (g : GUID) : FitsFormats guidPrintFormat guidScanFormat g.segments := by
  obtain ⟨d1, d2, d3, ⟨⟨l⟩, hl⟩⟩ := g
  have h1 := d1.toNat_lt
  have h2 := d2.toNat_lt
  have h3 := d3.toNat_lt
  match l, hl with
  | [e0, e1, e2, e3, e4, e5, e6, e7], _ =>
    have hbyte : ∀ e : UInt8, e.toNat < 256 := fun e => e.toNat_lt
    simp only [FitsFormats, GUID.segments, guidPrintFormat, guidScanFormat, Vector.toList, List.map_cons, List.map_nil,
      true_and, and_true, Nat.ofNat_pos, Nat.reducePow]
    have := hbyte e0; have := hbyte e1; have := hbyte e2; have := hbyte e3
    have := hbyte e4; have := hbyte e5; have := hbyte e6; have := hbyte e7
    omega

theorem guidToString_eq (g : GUID) : guidToString g = printed guidPrintFormat g.segments := by
  have hlength : (printed guidPrintFormat g.segments).length ≤ GUIDSTR_MAX - 1 := by
    rw [length_printed (fits_segments g)]
    decide
  rw [guidToString, stringPrintf, List.take_of_length_le hlength]
  exact cstr_eq fun c hc => class_ne (isGuidCharacter_printed c hc).1 (by decide)

theorem length_guidToString (g : GUID) : (guidToString g).length = 36 := by
  rw [guidToString_eq, length_printed (fits_segments g)]
  rfl

/-- Braces around the id, or around part of it, are dropped, and the letter case does not matter. -/
theorem stringToGuid_of_lower {s : Bytes} {g : GUID} (hlength : (cstr s).length ≤ GUIDSTR_MAX - 1)
    (h : (stringCleanup (cstr s) (ascii "\x7b\x7d")).map tolower = guidToString g) : stringToGuid s = some g := by
  have hmin : 36 ≤ (cstr s).length := by
    rw [← length_guidToString g, ← h, List.length_map]
    exact List.length_filter_le _ _
  simp only [stringToGuid, h]
  rw [if_pos ⟨hmin, hlength⟩, if_pos (show _ = GUIDSTR_MAX - 2 - 1 from length_guidToString g), guidToString_eq, scanned_printed (fits_segments g)]
  obtain ⟨d1, d2, d3, ⟨⟨l⟩, hl⟩⟩ := g
  match l, hl with
  | [e0, e1, e2, e3, e4, e5, e6, e7], _ => simp [GUID.segments, Vector.toList]

section Case

variable {s : Bytes} {g : GUID}

/-- The id in another letter case has no character of another kind. -/
theorem ne_of_lower (hs : s.map tolower = guidToString g) {x : UInt8} (hx : isGuidCharacter (tolower x) = false) :
    ∀ c ∈ s, c ≠ x := by
  intro c hc heq
  rw [guidToString_eq] at hs
  exact class_ne (isGuidCharacter_printed _ (hs ▸ List.mem_map_of_mem hc)).1 hx (congrArg tolower heq)

theorem length_of_lower (hs : s.map tolower = guidToString g) : s.length = 36 := by
  rw [← length_guidToString g, ← hs, List.length_map]

theorem stringCleanup_of_lower (hs : s.map tolower = guidToString g) : stringCleanup s (ascii "\x7b\x7d") = s :=
  List.filter_eq_self.2 fun c hc => by
    simp [ascii, ne_of_lower hs (x := 123) (by decide) c hc, ne_of_lower hs (x := 125) (by decide) c hc]

theorem stringToGuid_anyCase (hs : s.map tolower = guidToString g) : stringToGuid s = some g := by
  have hcstr : cstr s = s := cstr_eq (ne_of_lower hs (by decide))
  refine stringToGuid_of_lower ?_ ?_
  · rw [hcstr, length_of_lower hs]
    decide
  · rw [hcstr, stringCleanup_of_lower hs, hs]

theorem stringToGuid_braces (hs : s.map tolower = guidToString g) :
    stringToGuid (ascii "\x7b" ++ s ++ ascii "\x7d") = some g := by
  have hcstr : cstr (ascii "\x7b" ++ s ++ ascii "\x7d") = ascii "\x7b" ++ s ++ ascii "\x7d" := cstr_eq fun c hc => by
    simp only [List.mem_append] at hc
    rcases hc with (hc | hc) | hc
    · exact forall_mem_of_all (p := (· ≠ 0)) (by decide) c hc
    · exact ne_of_lower hs (by decide) c hc
    · exact forall_mem_of_all (p := (· ≠ 0)) (by decide) c hc
  have hclean : stringCleanup (ascii "\x7b" ++ s ++ ascii "\x7d") (ascii "\x7b\x7d") = s := by
    rw [stringCleanup, List.filter_append, List.filter_append, ← stringCleanup, ← stringCleanup, ← stringCleanup,
      stringCleanup_of_lower hs]
    simp [stringCleanup, ascii]
  refine stringToGuid_of_lower ?_ ?_
  · rw [hcstr, List.length_append, List.length_append, length_of_lower hs]
    decide
  · rw [hcstr, hclean, hs]

end Case

/-- **An id reads back as its GUID.** It has 36 characters, all lower-case hexadecimal digits and
hyphens; it is accepted in any letter case, also in braces; and no other GUID has it. -/
theorem guid_round_trip (g : GUID) :
    (guidToString g).length = 36 ∧ (∀ c ∈ guidToString g, isGuidCharacter c = true) ∧
    (∀ s : Bytes, s.map tolower = guidToString g →
      stringToGuid s = some g ∧ stringToGuid (ascii "\x7b" ++ s ++ ascii "\x7d") = some g) ∧
    ∀ g', guidToString g' = guidToString g → g' = g := by
  have hlower : ∀ g : GUID, (guidToString g).map tolower = guidToString g := fun g => by
    rw [guidToString_eq]
    exact (List.map_congr_left fun c hc => (isGuidCharacter_printed c hc).2).trans (List.map_id' _)
  refine ⟨length_guidToString g, fun c hc => ?_, fun s hs => ⟨stringToGuid_anyCase hs, stringToGuid_braces hs⟩,
    fun g' hg => ?_⟩
  · rw [guidToString_eq] at hc
    exact (isGuidCharacter_printed c hc).1
  · have hread := stringToGuid_anyCase (hlower g')
    rw [hg, stringToGuid_anyCase (hlower g)] at hread
    exact (Option.some.inj hread).symm

theorem guid_round_trip_braced :
    stringToGuid (ascii "\x7b00C0FFEE-0012-ABcd-0001-0203ffa00607\x7d") =
      some ⟨0xC0FFEE, 0x12, 0xABCD, #v[0, 1, 2, 3, 0xFF, 0xA0, 6, 7]⟩ :=
  ((guid_round_trip ⟨0xC0FFEE, 0x12, 0xABCD, #v[0, 1, 2, 3, 0xFF, 0xA0, 6, 7]⟩).2.2.1
    (ascii "00C0FFEE-0012-ABcd-0001-0203ffa00607") (by decide +kernel)).2

end DoClient
