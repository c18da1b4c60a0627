/-
Byte strings (`std::string`) as the code at both ends of the wire reads and
writes them: character classes of the "C" locale, C strings, decimal numbers.
-/
import DoClient.Lib.Numeral

namespace DoClient

abbrev Bytes := List UInt8

/-- A string literal. -/
def ascii (s : String) : Bytes := s.toList.map fun c => UInt8.ofNat c.toNat

/-- A byte string as the model of the agent has strings: a character for each byte. -/
def Bytes.text (s : Bytes) : String := String.ofList (s.map fun c => Char.ofNat c.toNat)

def CR : UInt8 := 13
def LF : UInt8 := 10
def CRLF : Bytes := [CR, LF]

/-- What is seen of a string through `data()` or `c_str()` alone. -/
def cstr (s : Bytes) : Bytes := s.takeWhile (· != 0)

theorem cstr_eq {s : Bytes} (h : ∀ c ∈ s, c ≠ 0) : cstr s = s := by
  induction s with
  | nil => rfl
  | cons c s ih =>
    obtain ⟨hc, hs⟩ := List.forall_mem_cons.1 h
    rw [cstr, List.takeWhile_cons_of_pos (by simpa using hc)]
    exact congrArg _ (ih hs)

/-! ## Characters -/

def isdigit (c : UInt8) : Bool := 48 ≤ c && c ≤ 57
def isalpha (c : UInt8) : Bool := 65 ≤ c && c ≤ 90 || 97 ≤ c && c ≤ 122
def isalnum (c : UInt8) : Bool := isalpha c || isdigit c
def toupper (c : UInt8) : UInt8 := if 97 ≤ c && c ≤ 122 then c - 32 else c
def tolower (c : UInt8) : UInt8 := if 65 ≤ c && c ≤ 90 then c + 32 else c

/-- A byte of a class is none of those outside it. -/
theorem class_ne {p : UInt8 → Bool} {c x : UInt8} (hc : p c = true) (hx : p x = false) : c ≠ x := by
  intro heq
  rw [heq, hx] at hc
  cases hc

/-- A test that runs over the members only, not over every byte. -/
theorem forall_mem_of_all {α : Type} {l : List α} {p : α → Prop} [DecidablePred p]
    (h : l.all (fun x => decide (p x)) = true) : ∀ x ∈ l, p x := by
  simpa using h

/-! ## Numbers -/

/-- `std::to_string` of an unsigned number. -/
def toDecimal (n : Nat) : Bytes :=
  if n = 0 then [48] else ((Nat.digits 10 n).map fun d => 48 + UInt8.ofNat d).reverse

/-- `std::to_string` of a signed number. -/
def toDecimalInt (n : Int) : Bytes := if n < 0 then 45 :: toDecimal n.natAbs else toDecimal n.natAbs

/-- The number digits stand for. -/
def digitsValue (s : Bytes) : Nat := s.foldl (fun n c => 10 * n + (c.toNat - 48)) 0

/-- `strtoul` of a string of digits: it does not go past `ULONG_MAX`. -/
def strtoul (s : Bytes) : Nat := min (digitsValue s) (2 ^ 64 - 1)

private theorem digit_toNat {d : Nat} (h : d < 10) : (48 + UInt8.ofNat d : UInt8).toNat = 48 + d := by
  have hd : d % 256 = d := Nat.mod_eq_of_lt (by omega)
  simp only [UInt8.toNat_add, UInt8.toNat_ofNat', UInt8.reduceToNat, Nat.reducePow, hd]
  omega

private theorem toDecimal_eq (n : Nat) : toDecimal n = Numeral.text 10 (fun d => 48 + UInt8.ofNat d) n := rfl

private theorem digitsValue_eq (s : Bytes) : digitsValue s = Numeral.value 10 (fun c => c.toNat - 48) s := rfl

theorem toDecimal_ne_nil (n : Nat) : toDecimal n ≠ [] := by
  rw [toDecimal_eq]
  exact Numeral.text_ne_nil n

theorem toDecimal_isdigit {n : Nat} : ∀ c ∈ toDecimal n, isdigit c = true := by
  intro c hc
  rw [toDecimal_eq] at hc
  obtain ⟨d, hd, rfl⟩ := Numeral.mem_text (by decide) hc
  simp only [isdigit, Bool.and_eq_true, decide_eq_true_eq, UInt8.le_iff_toNat_le, digit_toNat hd, UInt8.reduceToNat]
  omega

/-- **A decimal number reads back as itself.** -/
theorem digitsValue_toDecimal (n : Nat) : digitsValue (toDecimal n) = n := by
  rw [digitsValue_eq, toDecimal_eq]
  refine Numeral.value_text (by decide) (fun d hd => ?_) n
  rw [digit_toNat hd]
  omega

theorem strtoul_toDecimal {n : Nat} (h : n < 2 ^ 64) : strtoul (toDecimal n) = n := by
  rw [strtoul, digitsValue_toDecimal]
  omega

end DoClient
