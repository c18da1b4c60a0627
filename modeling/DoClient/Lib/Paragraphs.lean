/-
Texts in paragraphs: lines that a separator ends, and the empty lines between
the paragraphs. A text written as messages, each a paragraph and the empty line
behind it, splits into these messages again.
-/
import Mathlib.Data.List.TakeWhile
import Mathlib.Data.Set.Card

namespace Paragraphs

variable {α : Type*}

/-- The runs of elements between separators, the empty ones left out. -/
def sections (p : α → Bool) (xs : List α) : List (List α) := (xs.splitOnP p).filter fun ys => !ys.isEmpty

section Sections

variable {p : α → Bool} {x : α} {xs ys : List α}

theorem sections_append (hx : p x = true) : sections p (xs ++ x :: ys) = sections p xs ++ sections p ys := by
  rw [sections, List.splitOnP_append_cons xs ys hx, List.filter_append]
  rfl

theorem sections_nil : sections p [] = [] := by
  simp [sections]

/-- A separator in front, or at the end, ends no section. -/
theorem sections_cons (hx : p x = true) : sections p (x :: xs) = sections p xs := by
  have h : sections p ([] ++ x :: xs) = sections p [] ++ sections p xs := sections_append hx
  rwa [sections_nil, List.nil_append, List.nil_append] at h

theorem sections_concat (hx : p x = true) : sections p (xs ++ [x]) = sections p xs := by
  rw [sections_append hx, sections_nil, List.append_nil]

/-- Elements that are no separators are one section. -/
theorem sections_run (hne : xs ≠ []) (hxs : ∀ y ∈ xs, p y = false) : sections p xs = [xs] := by
  rw [sections, List.splitOnP_eq_singleton hxs]
  simp [hne]

end Sections

variable [DecidableEq α] {nl : α} {text : List α}

/-- The paragraphs of a text, each the list of its lines. -/
def paragraphs (nl : α) (text : List α) : List (List (List α)) := sections List.isEmpty (text.splitOn nl)

/-- A paragraph as it is written: each of its lines ended, and an empty line. -/
def message (nl : α) (lines : List (List α)) : List α := lines.flatMap (· ++ [nl]) ++ [nl]

theorem paragraphs_nil : paragraphs nl [] = [] := by
  have h : sections List.isEmpty [([] : List α)] = sections List.isEmpty [] := sections_cons rfl
  rw [paragraphs, List.splitOn_nil, h, sections_nil]

/-- The first line, and the lines behind it: to end the last line or not makes no difference. -/
theorem sections_firstLine (before : List (List α)) :
    sections List.isEmpty (before ++ text.splitOn nl) = sections List.isEmpty
      (before ++ text.takeWhile (· != nl) :: (text.dropWhile (· != nl)).tail.splitOn nl) := by
  have hline : nl ∉ text.takeWhile (· != nl) := fun h => by simpa using List.mem_takeWhile_imp h
  have hsplit : text.takeWhile (· != nl) ++ text.dropWhile (· != nl) = text := List.takeWhile_append_dropWhile
  cases hrest : text.dropWhile (· != nl) with
  | nil =>
    rw [hrest, List.append_nil] at hsplit
    rw [hsplit] at hline
    rw [hsplit, List.splitOn_eq_singleton hline]
    have hlast :
      sections List.isEmpty (before ++ [text] ++ [[]]) = sections List.isEmpty (before ++ [text]) :=
      sections_concat rfl
    simpa using hlast.symm
  | cons c rest =>
    have hc : c = nl := by
      have hhead := List.head_dropWhile_not (· != nl) (l := text) (by simp [hrest])
      simpa [hrest] using hhead
    rw [hrest, hc] at hsplit
    have hlines := List.splitOn_append_cons_self_of_not_mem hline rest
    rw [hsplit] at hlines
    rw [hlines]
    rfl

theorem paragraphs_message {lines : List (List α)} (hne : lines ≠ []) (hlines : ∀ l ∈ lines, l ≠ [] ∧ nl ∉ l)
    (rest : List α) : paragraphs nl (message nl lines ++ rest) = lines :: paragraphs nl rest := by
  have hsplit : ∀ ls : List (List α), (∀ l ∈ ls, nl ∉ l) →
      (ls.flatMap (· ++ [nl]) ++ nl :: rest).splitOn nl = ls ++ [] :: rest.splitOn nl := by
    intro ls hls
    induction ls with
    | nil =>
      have h := List.splitOn_append_cons_self_of_not_mem (List.not_mem_nil (a := nl)) rest
      simpa using h
    | cons l ls ih =>
      obtain ⟨hl, hls⟩ := List.forall_mem_cons.1 hls
      have h := List.splitOn_append_cons_self_of_not_mem hl (ls.flatMap (· ++ [nl]) ++ nl :: rest)
      rw [ih hls] at h
      simpa only [List.flatMap_cons, List.append_assoc, List.singleton_append, List.cons_append,
        List.nil_append] using h
  rw [paragraphs, message, List.append_assoc, List.singleton_append, hsplit lines fun l hl => (hlines l hl).2,
    sections_append rfl, sections_run hne fun l hl => by simpa using (hlines l hl).1]
  rfl

/-- **A text of messages splits into them.** -/
theorem paragraphs_messages {ms : List (List (List α))} (h : ∀ m ∈ ms, m ≠ [] ∧ ∀ l ∈ m, l ≠ [] ∧ nl ∉ l) :
    paragraphs nl (ms.flatMap (message nl)) = ms := by
  induction ms with
  | nil => exact paragraphs_nil
  | cons m ms ih =>
    obtain ⟨⟨hne, hlines⟩, hms⟩ := List.forall_mem_cons.1 h
    rw [List.flatMap_cons, paragraphs_message hne hlines, ih hms]

end Paragraphs
