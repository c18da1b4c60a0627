/-
An ordered map (`std::map`): entries in the order of their keys, at most one of
a rank. Keys of the same rank are the same key to the map, whichever of them
it holds.
-/
import Mathlib.Data.Set.Card

/-- Entries sorted by the rank of their keys. -/
structure OrdMap {κ ν : Type*} [LinearOrder ν] (rank : κ → ν) (α : Type*) where
  entries : List (κ × α)
  sorted : entries.Pairwise fun a b => rank a.1 < rank b.1
  deriving DecidableEq

namespace OrdMap

variable {κ ν α : Type*} [LinearOrder ν] {rank : κ → ν}

def empty : OrdMap rank α := ⟨[], .nil⟩

/-- Where a new key belongs; the value of a key that is there is replaced. -/
def insertEntry (rank : κ → ν) (k : κ) (v : α) : List (κ × α) → List (κ × α)
  | [] => [(k, v)]
  | e :: l =>
    if rank k < rank e.1 then (k, v) :: e :: l
    else if rank e.1 < rank k then e :: insertEntry rank k v l
    else (e.1, v) :: l

theorem rank_mem_insertEntry {k : κ} {v : α} {l : List (κ × α)} {x : κ × α}
    (hx : x ∈ insertEntry rank k v l) :
    rank x.1 = rank k ∨ ∃ y ∈ l, rank y.1 = rank x.1 := by
  induction l with
  | nil =>
    obtain rfl := List.mem_singleton.1 hx
    exact .inl rfl
  | cons e l ih =>
    rw [insertEntry] at hx
    split at hx
    · rcases List.mem_cons.1 hx with rfl | hx
      · exact .inl rfl
      · exact .inr ⟨x, hx, rfl⟩
    split at hx
    · rcases List.mem_cons.1 hx with rfl | hx
      · exact .inr ⟨x, List.mem_cons_self, rfl⟩
      · rcases ih hx with h | ⟨y, hy, h⟩
        · exact .inl h
        · exact .inr ⟨y, List.mem_cons_of_mem _ hy, h⟩
    · rcases List.mem_cons.1 hx with rfl | hx
      · exact .inr ⟨e, List.mem_cons_self, rfl⟩
      · exact .inr ⟨x, List.mem_cons_of_mem _ hx, rfl⟩

theorem insertEntry_sorted (k : κ) (v : α) {l : List (κ × α)}
    (h : l.Pairwise fun a b => rank a.1 < rank b.1) :
    (insertEntry rank k v l).Pairwise fun a b => rank a.1 < rank b.1 := by
  induction l with
  | nil => simp [insertEntry]
  | cons e l ih =>
    obtain ⟨he, hl⟩ := List.pairwise_cons.1 h
    rw [insertEntry]
    split
    · next hlt =>
      refine List.pairwise_cons.2 ⟨fun x hx => ?_, h⟩
      rcases List.mem_cons.1 hx with rfl | hx
      · exact hlt
      · exact hlt.trans (he x hx)
    split
    · next hlt =>
      refine List.pairwise_cons.2 ⟨fun x hx => ?_, ih hl⟩
      rcases rank_mem_insertEntry hx with hr | ⟨y, hy, hr⟩
      · exact hr ▸ hlt
      · exact hr ▸ he y hy
    · exact List.pairwise_cons.2 ⟨he, hl⟩

/-- `m[k] = v`. -/
def insert (m : OrdMap rank α) (k : κ) (v : α) : OrdMap rank α :=
  ⟨insertEntry rank k v m.entries, insertEntry_sorted k v m.sorted⟩

/-- `m.find(k)`. -/
def find? (m : OrdMap rank α) (k : κ) : Option α :=
  (m.entries.find? fun e => decide (rank e.1 = rank k)).map (·.2)

theorem find?_insertEntry (k : κ) (v : α) (l : List (κ × α)) :
    ((insertEntry rank k v l).find? fun e => decide (rank e.1 = rank k)).map (·.2) = some v := by
  induction l with
  | nil => simp [insertEntry]
  | cons e l ih =>
    rw [insertEntry]
    split
    · simp
    split
    · next hlt => simpa [List.find?_cons, hlt.ne] using ih
    · next hge hle =>
      have hrank : rank e.1 = rank k := le_antisymm (not_lt.1 hge) (not_lt.1 hle)
      simp [hrank]

/-- What was entered last is found. -/
theorem find?_insert_self (m : OrdMap rank α) (k : κ) (v : α) : (m.insert k v).find? k = some v :=
  find?_insertEntry k v m.entries

/-- A key no other key is below comes first. -/
theorem head_of_least {m : OrdMap rank α} {k : κ} {v : α} (hleast : ∀ k', rank k ≤ rank k')
    (h : m.find? k = some v) :
    ∃ k' rest, m.entries = (k', v) :: rest ∧ rank k' = rank k := by
  obtain ⟨entries, hsorted⟩ := m
  cases entries with
  | nil => simp [find?] at h
  | cons e l =>
    obtain ⟨he, -⟩ := List.pairwise_cons.1 hsorted
    by_cases hk : rank e.1 = rank k
    · simp only [find?, List.find?_cons, hk, decide_true, Option.map_some, Option.some.injEq] at h
      exact ⟨e.1, l, by rw [← h], hk⟩
    · -- an entry further on would have a key above the first, which is not below `k`
      simp only [find?, List.find?_cons, hk, decide_false, Option.map_eq_some_iff] at h
      obtain ⟨x, hx, -⟩ := h
      have hrank : rank x.1 = rank k := by simpa using List.find?_some hx
      have hlt := he x (List.mem_of_find?_eq_some hx)
      exact absurd (hrank ▸ hlt) (not_lt.2 (hleast e.1))

end OrdMap
