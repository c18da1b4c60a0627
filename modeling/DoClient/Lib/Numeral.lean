/-
Numbers in positional notation: the digits of a number as letters of some
alphabet, the most significant first, and the number a string of letters denotes.
-/
import Mathlib.Data.Nat.Digits.Lemmas
import Mathlib.Data.Set.Card

namespace Numeral

variable {γ : Type*} (b : ℕ) (digit : ℕ → γ) (val : γ → ℕ)

/-- The shortest numeral of a number; that of zero is one digit. -/
def text (n : ℕ) : List γ := if n = 0 then [digit 0] else ((Nat.digits b n).map digit).reverse

/-- The numeral with zeros in front, up to a width. -/
def padded (width n : ℕ) : List γ := List.replicate (width - (text b digit n).length) (digit 0) ++ text b digit n

/-- The number a string of digits denotes. -/
def value (s : List γ) : ℕ := s.foldl (fun n c => b * n + val c) 0

variable {b digit val}

theorem value_append (s t : List γ) : value b val (s ++ t) = t.foldl (fun n c => b * n + val c) (value b val s) :=
  List.foldl_append

theorem value_digits {ds : List ℕ} (h : ∀ d ∈ ds, val (digit d) = d) :
    value b val (ds.map digit).reverse = Nat.ofDigits b ds := by
  induction ds with
  | nil => rfl
  | cons d ds ih =>
    obtain ⟨hd, hds⟩ := List.forall_mem_cons.1 h
    rw [List.map_cons, List.reverse_cons, value_append, ih hds, Nat.ofDigits_cons]
    simp [hd, Nat.add_comm]

theorem mem_text (hb : 1 < b) {n : ℕ} {c : γ} (h : c ∈ text b digit n) : ∃ d < b, c = digit d := by
  unfold text at h
  split at h
  · exact ⟨0, by omega, List.mem_singleton.1 h⟩
  · simp only [List.mem_reverse, List.mem_map] at h
    obtain ⟨d, hd, rfl⟩ := h
    exact ⟨d, Nat.digits_lt_base hb hd, rfl⟩

theorem text_ne_nil (n : ℕ) : text b digit n ≠ [] := by
  unfold text
  split
  · simp
  · next hn =>
    have hdigits : Nat.digits b n ≠ [] := Nat.digits_ne_nil_iff_ne_zero.2 hn
    simpa using hdigits

/-- **A numeral denotes the number it was made of.** -/
theorem value_text (hb : 1 < b) (hval : ∀ d < b, val (digit d) = d) (n : ℕ) : value b val (text b digit n) = n := by
  unfold text
  split
  · next hn =>
    rw [hn]
    simp [value, hval 0 (by omega)]
  · rw [value_digits fun d hd => hval d (Nat.digits_lt_base hb hd), Nat.ofDigits_digits]

theorem length_text (hb : 1 < b) {width n : ℕ} (hwidth : 0 < width) (h : n < b ^ width) :
    (text b digit n).length ≤ width := by
  unfold text
  split
  · exact hwidth
  · rw [List.length_reverse, List.length_map]
    exact (Nat.digits_length_le_iff hb n).2 h

theorem length_padded (hb : 1 < b) {width n : ℕ} (hwidth : 0 < width) (h : n < b ^ width) :
    (padded b digit width n).length = width := by
  have hle : (text b digit n).length ≤ width := length_text hb hwidth h
  simp only [padded, List.length_append, List.length_replicate]
  omega

theorem mem_padded (hb : 1 < b) {width n : ℕ} {c : γ} (h : c ∈ padded b digit width n) : ∃ d < b, c = digit d := by
  rcases List.mem_append.1 h with h | h
  · exact ⟨0, by omega, (List.mem_replicate.1 h).2⟩
  · exact mem_text hb h

/-- Zeros in front do not change the number. -/
theorem value_padded (hb : 1 < b) (hval : ∀ d < b, val (digit d) = d) (width n : ℕ) :
    value b val (padded b digit width n) = n := by
  have hzeros : ∀ k, value b val (List.replicate k (digit 0)) = 0 := fun k => by
    induction k with
    | zero => rfl
    | succ k ih =>
      rw [List.replicate_succ', value_append, ih]
      simp [hval 0 (by omega)]
  rw [padded, value_append, hzeros]
  exact value_text hb hval n

end Numeral
