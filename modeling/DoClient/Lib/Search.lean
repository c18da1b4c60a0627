/-
The first occurrence of a word in a text, letters compared through a folding of
them (such as lower case), and what becomes of it where the text is fields with
a separator between them: it lies in the first field in which the word occurs.
-/
import Mathlib.Data.List.TakeWhile
import Mathlib.Data.Set.Card

namespace Search

variable {α β : Type*} [DecidableEq β]

/-- A text from the first place on where the word begins. -/
def search (f : α → β) (word : List β) : List α → Option (List α)
  | [] => if word = [] then some [] else none
  | c :: s => if word <+: (c :: s).map f then some (c :: s) else search f word s

/-- What follows the first occurrence of the word. -/
def after (f : α → β) (word : List β) (s : List α) : Option (List α) :=
  (search f word s).map (List.drop word.length)

variable {f : α → β} {word : List β} {sep : α}

theorem search_nil : search f word [] = if word = [] then some [] else none := rfl

theorem search_cons (c : α) (s : List α) :
    search f word (c :: s) = if word <+: (c :: s).map f then some (c :: s) else search f word s := rfl

theorem prefix_of_search : ∀ {s t : List α}, search f word s = some t → word <+: t.map f ∧ t <:+ s
  | [], t, h => by
    by_cases hword : word = []
    · simp only [search, hword, ite_true, Option.some.injEq] at h
      simp [← h, hword]
    · simp [search, hword] at h
  | c :: s, t, h => by
    rw [search_cons] at h
    split at h
    next hword =>
      obtain rfl := Option.some.inj h
      exact ⟨hword, List.suffix_rfl⟩
    next =>
      obtain ⟨hword, hsuffix⟩ := prefix_of_search h
      exact ⟨hword, hsuffix.trans (List.suffix_cons c s)⟩

theorem search_of_prefix {s : List α} (h : word <+: s.map f) : search f word s = some s := by
  cases s with
  | nil => simp [search, List.prefix_nil.1 h]
  | cons c s => rw [search_cons, if_pos h]

theorem after_of_prefix {s : List α} (h : word <+: s.map f) : after f word s = some (s.drop word.length) := by
  rw [after, search_of_prefix h, Option.map_some]

omit [DecidableEq β] in
/-- A word without the separator begins with a field only when it lies in that field. -/
theorem prefix_append_sep (hsep : f sep ∉ word) (a b : List α) :
    word <+: (a ++ sep :: b).map f ↔ word <+: a.map f := by
  induction word generalizing a with
  | nil => simp
  | cons w word ih =>
    obtain ⟨hw, hword⟩ := not_or.1 (mt List.mem_cons.2 hsep)
    cases a with
    | nil => simpa using fun h : w = f sep => absurd h.symm hw
    | cons c a =>
      simp only [List.cons_append, List.map_cons, List.cons_prefix_cons]
      exact and_congr_right fun _ => ih hword a

/-- The first occurrence is in the first field, or in those behind it. -/
theorem search_sep (hsep : f sep ∉ word) (a b : List α) :
    search f word (a ++ sep :: b) = ((search f word a).map (· ++ sep :: b)).or (search f word b) := by
  induction a with
  | nil =>
    have hfirst := prefix_append_sep hsep [] b
    rw [List.nil_append] at hfirst ⊢
    by_cases hword : word = []
    · rw [search_cons, if_pos (hfirst.2 (by simp [hword])), search_nil, if_pos hword]
      rfl
    · rw [search_cons, if_neg (mt hfirst.1 (by simpa using hword)), search_nil, if_neg hword]
      rfl
  | cons c a ih =>
    have hfirst := prefix_append_sep hsep (c :: a) b
    rw [List.cons_append] at hfirst ⊢
    by_cases hword : word <+: (c :: a).map f
    · rw [search_cons, if_pos (hfirst.2 hword), search_cons, if_pos hword]
      rfl
    · rw [search_cons, if_neg (mt hfirst.1 hword), ih, search_cons, if_neg hword]

theorem after_sep (hsep : f sep ∉ word) (a b : List α) :
    after f word (a ++ sep :: b) = ((after f word a).map (· ++ sep :: b)).or (after f word b) := by
  rw [after, search_sep hsep]
  cases h : search f word a with
  | none => simp [after, h]
  | some t =>
    have hlength : word.length ≤ t.length := by
      simpa using (prefix_of_search h).1.length_le
    simp [after, h, List.drop_append_of_le_length hlength]

theorem not_mem_of_after {s t : List α} (h : after f word s = some t) (hs : sep ∉ s) : sep ∉ t := by
  obtain ⟨u, hu, rfl⟩ := Option.map_eq_some_iff.1 h
  exact fun hmem => hs ((prefix_of_search hu).2.subset (List.mem_of_mem_drop hmem))

/-- **In fields with a separator between them, the search ends in the first field in which the
word occurs**, and what is left of that field follows it. -/
theorem after_intercalate [DecidableEq α] (hsep : f sep ∉ word) (hword : word ≠ []) :
    ∀ {fields : List (List α)}, (∀ a ∈ fields, sep ∉ a) →
      (after f word ([sep].intercalate fields)).map (List.takeWhile (· != sep)) =
        fields.findSome? (after f word)
  | [], _ => by simp [after, search, hword]
  | [a], h => by
    rw [List.intercalate_singleton]
    cases ha : after f word a with
    | none => simp [ha]
    | some t =>
      have ht : sep ∉ t := not_mem_of_after ha (h a (by simp))
      have hall : t.takeWhile (· != sep) = t :=
        List.takeWhile_eq_self_iff.2 fun c hc => by simpa using fun heq : c = sep => ht (heq ▸ hc)
      simp only [ha, Option.map_some, hall, List.findSome?_cons]
  | a :: b :: fields, h => by
    obtain ⟨ha', hfields⟩ := List.forall_mem_cons.1 h
    have ih := after_intercalate hsep hword hfields
    rw [List.intercalate_cons_cons, List.append_assoc, List.singleton_append, after_sep hsep,
      List.findSome?_cons]
    cases ha : after f word a with
    | none => simpa using ih
    | some t =>
      have ht : sep ∉ t := not_mem_of_after ha ha'
      have hall : (t ++ sep :: [sep].intercalate (b :: fields)).takeWhile (· != sep) = t := by
        rw [List.takeWhile_append_of_pos fun c hc => by simpa using fun heq : c = sep => ht (heq ▸ hc)]
        simp
      simp only [Option.map_some, Option.some_or, hall]

end Search
