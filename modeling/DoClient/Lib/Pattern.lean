/-
Regular expressions that are a sequence of character classes, each taken once
or repeated, some repetitions captured: how a backtracking matcher takes a
whole input, each repetition as many characters as leave the rest a match.
-/
import Mathlib.Data.List.TakeWhile
import Mathlib.Data.Set.Card

namespace Pattern

variable {α β : Type*}

/-- A piece of an expression: `c`, `c*`, `c+`, `(c+)` or `(c*)` for a class `c`. -/
inductive Piece (α : Type*)
  | one (c : α → Bool)
  | star (c : α → Bool)
  | plus (c : α → Bool)
  | group (c : α → Bool)
  | groupStar (c : α → Bool)

/-- The first of `f n`, `f (n - 1)`, …, `f lo` that is a result. -/
def greedy (f : Nat → Option β) (lo : Nat) : Nat → Option β
  | 0 => if lo = 0 then f 0 else none
  | n + 1 => if n + 1 < lo then none else (f (n + 1)).orElse fun _ => greedy f lo n

theorem greedy_eq {f : Nat → Option β} {lo k n : Nat} {b : β} (hlo : lo ≤ k) (hk : k ≤ n) (hb : f k = some b)
    (hmax : ∀ j, k < j → j ≤ n → f j = none) : greedy f lo n = some b := by
  induction n with
  | zero =>
    obtain rfl : k = 0 := by omega
    rw [greedy, if_pos (by omega), hb]
  | succ n ih =>
    rw [greedy, if_neg (by omega)]
    rcases Nat.lt_or_ge n k with hlt | hge
    · obtain rfl : k = n + 1 := by omega
      rw [hb]
      rfl
    · rw [hmax (n + 1) (by omega) (Nat.le_refl _)]
      exact ih hge fun j hj hjn => hmax j hj (by omega)

theorem greedy_some {f : Nat → Option β} {lo n : Nat} {b : β} (h : greedy f lo n = some b) :
    ∃ k, lo ≤ k ∧ k ≤ n ∧ f k = some b := by
  induction n with
  | zero =>
    rw [greedy] at h
    split at h
    · next hlo => exact ⟨0, by omega, by omega, h⟩
    · cases h
  | succ n ih =>
    rw [greedy] at h
    split at h
    · cases h
    next hlo =>
    cases hf : f (n + 1) with
    | some b' =>
      rw [hf] at h
      exact ⟨n + 1, by omega, by omega, hf.trans h⟩
    | none =>
      rw [hf] at h
      obtain ⟨k, hk, hkn, hb⟩ := ih h
      exact ⟨k, hk, by omega, hb⟩

/-- Matches all of an input (`std::regex_match`): the captured parts, in order. -/
def fullMatch : List (Piece α) → List α → Option (List (List α))
  | [], [] => some []
  | [], _ :: _ => none
  | .one _ :: _, [] => none
  | .one c :: ps, x :: xs => if c x then fullMatch ps xs else none
  | .star c :: ps, xs => greedy (fun n => fullMatch ps (xs.drop n)) 0 (xs.takeWhile c).length
  | .plus c :: ps, xs => greedy (fun n => fullMatch ps (xs.drop n)) 1 (xs.takeWhile c).length
  | .group c :: ps, xs =>
    greedy (fun n => (fullMatch ps (xs.drop n)).map (xs.take n :: ·)) 1 (xs.takeWhile c).length
  | .groupStar c :: ps, xs =>
    greedy (fun n => (fullMatch ps (xs.drop n)).map (xs.take n :: ·)) 0 (xs.takeWhile c).length

/-- An input an expression takes, with the parts captured, however they are divided. -/
def Matches : List (Piece α) → List α → List (List α) → Prop
  | [], xs, gs => xs = [] ∧ gs = []
  | .one c :: ps, xs, gs => ∃ x v, xs = x :: v ∧ c x = true ∧ Matches ps v gs
  | .star c :: ps, xs, gs => ∃ u v, xs = u ++ v ∧ (∀ x ∈ u, c x = true) ∧ Matches ps v gs
  | .plus c :: ps, xs, gs => ∃ u v, xs = u ++ v ∧ u ≠ [] ∧ (∀ x ∈ u, c x = true) ∧ Matches ps v gs
  | .group c :: ps, xs, gs =>
    ∃ u v hs, xs = u ++ v ∧ u ≠ [] ∧ (∀ x ∈ u, c x = true) ∧ Matches ps v hs ∧ gs = u :: hs
  | .groupStar c :: ps, xs, gs =>
    ∃ u v hs, xs = u ++ v ∧ (∀ x ∈ u, c x = true) ∧ Matches ps v hs ∧ gs = u :: hs

variable {c : α → Bool} {ps : List (Piece α)} {u v : List α} {gs : List (List α)}

/-- What is taken within a run of a class is of the class. -/
theorem take_of_class {xs : List α} {k : Nat} (hk : k ≤ (xs.takeWhile c).length) :
    (∀ x ∈ xs.take k, c x = true) ∧ (xs.take k).length = k := by
  have htake : xs.take k = (xs.takeWhile c).take k := by
    obtain ⟨rest, hrest⟩ := List.takeWhile_prefix (l := xs) c
    conv_lhs => rw [← hrest]
    rw [List.take_append_of_le_length hk]
  refine ⟨fun x hx => ?_, ?_⟩
  · rw [htake] at hx
    exact List.mem_takeWhile_imp (List.mem_of_mem_take hx)
  · rw [htake, List.length_take]
    omega

/-- The matcher takes only what the expression does. -/
theorem matches_of_fullMatch : ∀ {ps : List (Piece α)} {xs : List α} {gs : List (List α)},
    fullMatch ps xs = some gs → Matches ps xs gs
  | [], [], gs, h => ⟨rfl, (Option.some.inj h).symm⟩
  | .one c :: ps, x :: xs, gs, h => by
    rw [fullMatch] at h
    split at h
    · next hx => exact ⟨x, xs, rfl, hx, matches_of_fullMatch h⟩
    · cases h
  | .star c :: ps, xs, gs, h => by
    rw [fullMatch] at h
    obtain ⟨k, -, hk, hb⟩ := greedy_some h
    obtain ⟨hclass, -⟩ := take_of_class hk
    exact ⟨xs.take k, xs.drop k, (List.take_append_drop k xs).symm, hclass, matches_of_fullMatch hb⟩
  | .plus c :: ps, xs, gs, h => by
    rw [fullMatch] at h
    obtain ⟨k, hlo, hk, hb⟩ := greedy_some h
    obtain ⟨hclass, hlength⟩ := take_of_class hk
    have hne : xs.take k ≠ [] := List.ne_nil_of_length_pos (by omega)
    exact ⟨xs.take k, xs.drop k, (List.take_append_drop k xs).symm, hne, hclass, matches_of_fullMatch hb⟩
  | .group c :: ps, xs, gs, h => by
    rw [fullMatch] at h
    obtain ⟨k, hlo, hk, hb⟩ := greedy_some h
    obtain ⟨hclass, hlength⟩ := take_of_class hk
    have hne : xs.take k ≠ [] := List.ne_nil_of_length_pos (by omega)
    obtain ⟨hs, hmatch, rfl⟩ := Option.map_eq_some_iff.1 hb
    exact ⟨xs.take k, xs.drop k, hs, (List.take_append_drop k xs).symm, hne, hclass,
      matches_of_fullMatch hmatch, rfl⟩
  | .groupStar c :: ps, xs, gs, h => by
    rw [fullMatch] at h
    obtain ⟨k, -, hk, hb⟩ := greedy_some h
    obtain ⟨hclass, -⟩ := take_of_class hk
    obtain ⟨hs, hmatch, rfl⟩ := Option.map_eq_some_iff.1 hb
    exact ⟨xs.take k, xs.drop k, hs, (List.take_append_drop k xs).symm, hclass,
      matches_of_fullMatch hmatch, rfl⟩

theorem fullMatch_one {x : α} {xs : List α} (hx : c x = true) :
    fullMatch (.one c :: ps) (x :: xs) = fullMatch ps xs := by
  rw [fullMatch, if_pos hx]

/-- A run of a class ends where the class does. -/
theorem takeWhile_run (hu : ∀ x ∈ u, c x = true) (hv : ∀ x ∈ v.head?, c x = false) :
    (u ++ v).takeWhile c = u := by
  rw [List.takeWhile_append_of_pos hu]
  cases v with
  | nil => simp
  | cons x v => rw [List.takeWhile_cons_of_neg (by simp [hv x rfl]), List.append_nil]

theorem fullMatch_star (hu : ∀ x ∈ u, c x = true) (hv : ∀ x ∈ v.head?, c x = false)
    (h : fullMatch ps v = some gs) :
    fullMatch (.star c :: ps) (u ++ v) = some gs := by
  rw [fullMatch, takeWhile_run hu hv]
  exact greedy_eq (k := u.length) (Nat.zero_le _) (Nat.le_refl _) (by simpa using h) fun j hj hj' =>
    absurd hj (by omega)

theorem fullMatch_group (hne : u ≠ []) (hu : ∀ x ∈ u, c x = true) (hv : ∀ x ∈ v.head?, c x = false)
    (h : fullMatch ps v = some gs) : fullMatch (.group c :: ps) (u ++ v) = some (u :: gs) := by
  rw [fullMatch, takeWhile_run hu hv]
  exact greedy_eq (List.length_pos_iff.2 hne) (Nat.le_refl _) (by simp [h]) fun j hj hj' =>
    absurd hj (by omega)

theorem fullMatch_groupStar (hu : ∀ x ∈ u, c x = true) (hv : ∀ x ∈ v.head?, c x = false)
    (h : fullMatch ps v = some gs) :
    fullMatch (.groupStar c :: ps) (u ++ v) = some (u :: gs) := by
  rw [fullMatch, takeWhile_run hu hv]
  exact greedy_eq (k := u.length) (Nat.zero_le _) (Nat.le_refl _) (by simp [h]) fun j hj hj' =>
    absurd hj (by omega)

/-- A class that takes everything gives back up to the last separator. -/
theorem fullMatch_star_one {sep : α → Bool} {x : α} (hall : ∀ y ∈ u ++ x :: v, c y = true) (hx : sep x = true)
    (hlast : ∀ y ∈ v, sep y = false) (h : fullMatch ps v = some gs) :
    fullMatch (.star c :: .one sep :: ps) (u ++ x :: v) = some gs := by
  have htake : (u ++ x :: v).takeWhile c = u ++ x :: v := by
    simpa using takeWhile_run (v := []) hall (by simp)
  rw [fullMatch, htake]
  refine greedy_eq (k := u.length) (Nat.zero_le _) (by simp) (by simpa [fullMatch_one hx] using h)
    fun j hj _ => ?_
  rw [List.drop_append, List.drop_eq_nil_of_le (Nat.le_of_lt hj), List.nil_append]
  obtain ⟨i, hi⟩ : ∃ i, j - u.length = i + 1 := ⟨j - u.length - 1, by omega⟩
  rw [hi, List.drop_succ_cons]
  cases hd : v.drop i with
  | nil => rfl
  | cons y ys =>
    have hy : y ∈ v := List.mem_of_mem_drop (hd ▸ List.mem_cons_self)
    rw [fullMatch, if_neg (by simp [hlast y hy])]

end Pattern
