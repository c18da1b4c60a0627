/-
A map from keys to values that keeps equal keys in the order of their
insertion (`std::multimap`): a list sorted by key, the new entry behind every
entry of the same key. What the users of such a map rely on is how an
insertion looks through a filter: entries of one kind whose keys never
decrease come out first in, first out, whatever else is in the map.
-/
import Mathlib.Data.Set.Card

/-- Entries sorted by key. -/
structure Multimap (κ α : Type*) [LinearOrder κ] where
  entries : List (κ × α)
  sorted : entries.Pairwise fun a b => a.1 ≤ b.1

namespace Multimap

variable {κ α β : Type*} [LinearOrder κ]

/-- An entry goes in front of the first entry of a larger key. -/
def insertEntry (e : κ × α) : List (κ × α) → List (κ × α) :=
  List.orderedInsert (fun a b => a.1 < b.1) e

theorem insertEntry_cons (e b : κ × α) (l : List (κ × α)) :
    insertEntry e (b :: l) = if e.1 < b.1 then e :: b :: l else b :: insertEntry e l := rfl

theorem insertEntry_perm (e : κ × α) (l : List (κ × α)) : (insertEntry e l).Perm (e :: l) :=
  List.perm_orderedInsert _ e l

theorem mem_insertEntry {e x : κ × α} {l : List (κ × α)} : x ∈ insertEntry e l ↔ x = e ∨ x ∈ l := by
  rw [(insertEntry_perm e l).mem_iff, List.mem_cons]

theorem length_insertEntry (e : κ × α) (l : List (κ × α)) : (insertEntry e l).length = l.length + 1 :=
  (insertEntry_perm e l).length_eq

theorem countP_insertEntry (p : κ × α → Bool) (e : κ × α) (l : List (κ × α)) :
    (insertEntry e l).countP p = l.countP p + if p e = true then 1 else 0 :=
  ((insertEntry_perm e l).countP_eq p).trans List.countP_cons

/-- What was inserted, and under which key, can be told from the entries. -/
theorem insertEntry_inj {e e' : κ × α} {l : List (κ × α)} (h : insertEntry e l = insertEntry e' l) :
    e = e' := by
  have hboth : ([e] ++ l).Perm ([e'] ++ l) :=
    (insertEntry_perm e l).symm.trans ((List.Perm.of_eq h).trans (insertEntry_perm e' l))
  exact List.singleton_injective (List.perm_singleton.1 ((List.perm_append_right_iff l).1 hboth))

theorem insertEntry_sorted {e : κ × α} {l : List (κ × α)} (h : l.Pairwise fun a b => a.1 ≤ b.1) :
    (insertEntry e l).Pairwise fun a b => a.1 ≤ b.1 := by
  induction l with
  | nil => simp [insertEntry]
  | cons b l ih =>
    obtain ⟨hb, hl⟩ := List.pairwise_cons.1 h
    rw [insertEntry_cons]
    split
    · next hlt =>
      refine List.pairwise_cons.2 ⟨fun x hx => ?_, h⟩
      rcases List.mem_cons.1 hx with rfl | hx
      · exact le_of_lt hlt
      · exact le_trans (le_of_lt hlt) (hb x hx)
    · next hge =>
      refine List.pairwise_cons.2 ⟨fun x hx => ?_, ih hl⟩
      rcases mem_insertEntry.1 hx with rfl | hx
      · exact not_lt.1 hge
      · exact hb x hx

/-- An insertion parts the entries: those of a larger key are behind it. -/
theorem insertEntry_split (e : κ × α) : ∀ l : List (κ × α), l.Pairwise (fun a b => a.1 ≤ b.1) →
    ∃ front back, l = front ++ back ∧ insertEntry e l = front ++ e :: back ∧ ∀ x ∈ back, e.1 < x.1
  | [], _ => ⟨[], [], rfl, rfl, nofun⟩
  | b :: l, hs => by
    obtain ⟨hb, hl⟩ := List.pairwise_cons.1 hs
    rw [insertEntry_cons]
    split
    · next hlt =>
      refine ⟨[], b :: l, rfl, rfl, fun x hx => ?_⟩
      rcases List.mem_cons.1 hx with rfl | hx
      · exact hlt
      · exact lt_of_lt_of_le hlt (hb x hx)
    · obtain ⟨front, back, rfl, hinsert, hback⟩ := insertEntry_split e l hl
      exact ⟨b :: front, back, rfl, by rw [hinsert]; rfl, hback⟩

/-- An order of the entries that goes by their keys, and puts the new entry behind
those of its key, is kept. -/
theorem insertEntry_pairwise {R : κ × α → κ × α → Prop} {e : κ × α} {l : List (κ × α)} (h : l.Pairwise R)
    (hs : l.Pairwise fun a b => a.1 ≤ b.1) (hbehind : ∀ x ∈ l, x.1 ≤ e.1 → R x e)
    (hbefore : ∀ x ∈ l, e.1 < x.1 → R e x) : (insertEntry e l).Pairwise R := by
  induction l with
  | nil => simp [insertEntry]
  | cons b l ih =>
    obtain ⟨hb, hl⟩ := List.pairwise_cons.1 h
    obtain ⟨hsb, hsl⟩ := List.pairwise_cons.1 hs
    rw [insertEntry_cons]
    split
    · next hlt =>
      refine List.pairwise_cons.2 ⟨fun x hx => hbefore x hx ?_, h⟩
      rcases List.mem_cons.1 hx with rfl | hx
      · exact hlt
      · exact lt_of_lt_of_le hlt (hsb x hx)
    · next hge =>
      refine List.pairwise_cons.2 ⟨fun x hx => ?_, ih hl hsl (fun x hx => hbehind x (List.mem_cons_of_mem _ hx))
        fun x hx => hbefore x (List.mem_cons_of_mem _ hx)⟩
      rcases mem_insertEntry.1 hx with rfl | hx
      · exact hbehind b List.mem_cons_self (not_lt.1 hge)
      · exact hb x hx

theorem map_insertEntry (f : α → β) (k : κ) (a : α) (l : List (κ × α)) :
    (insertEntry (k, a) l).map (fun x => (x.1, f x.2)) = insertEntry (k, f a) (l.map fun x => (x.1, f x.2)) := by
  induction l with
  | nil => rfl
  | cons b l ih =>
    rw [List.map_cons, insertEntry_cons, insertEntry_cons]
    split
    · rfl
    · rw [List.map_cons, ih]

/-- Through a filter that drops the new entry the insertion is not seen. -/
theorem filterMap_insertEntry_none {f : κ × α → Option β} {e : κ × α} (he : f e = none) :
    ∀ l : List (κ × α), (insertEntry e l).filterMap f = l.filterMap f
  | [] => by simp [insertEntry, he]
  | b :: l => by
    rw [insertEntry_cons]
    split
    · rw [List.filterMap_cons_none he]
    · rw [List.filterMap_cons, List.filterMap_cons, filterMap_insertEntry_none he l]

/-- Among entries of one kind, none with a larger key than the new one, the new entry is last. -/
theorem filterMap_insertEntry_last {f : κ × α → Option β} {e : κ × α} {b : β} (he : f e = some b) :
    ∀ l : List (κ × α), l.Pairwise (fun a b => a.1 ≤ b.1) → (∀ x ∈ l, f x ≠ none → x.1 ≤ e.1) →
      (insertEntry e l).filterMap f = l.filterMap f ++ [b]
  | [], _, _ => by simp [insertEntry, he]
  | x :: l, hs, hle => by
    obtain ⟨hx, hl⟩ := List.pairwise_cons.1 hs
    rw [insertEntry_cons]
    split
    · next hlt =>
      have hnone : ∀ y ∈ x :: l, f y = none := by
        intro y hy
        by_contra hne
        have hxy : x.1 ≤ y.1 := by
          rcases List.mem_cons.1 hy with rfl | hy
          · exact le_refl _
          · exact hx y hy
        exact absurd (lt_of_lt_of_le hlt hxy) (not_lt.2 (hle y hy hne))
      rw [List.filterMap_cons_some he, List.filterMap_eq_nil_iff.2 hnone]
      rfl
    · have ih := filterMap_insertEntry_last he l hl fun y hy => hle y (List.mem_cons_of_mem _ hy)
      rw [List.filterMap_cons, List.filterMap_cons, ih]
      split <;> simp

/-- The same value, under the same key or under two keys below `t`. -/
def Near (t : κ) (e e' : κ × α) : Prop := e.2 = e'.2 ∧ (e.1 = e'.1 ∨ e.1 < t ∧ e'.1 < t)

theorem values_of_near {t : κ} {l l' : List (κ × α)} (h : List.Forall₂ (Near t) l l') :
    l.map (·.2) = l'.map (·.2) := by
  induction h with
  | nil => rfl
  | cons hx _ ih => rw [List.map_cons, List.map_cons, hx.1, ih]

/-- Keys below `t` are all alike to an insertion at `t` or above. -/
theorem forall₂_insertEntry {t k : κ} (hk : t ≤ k) (a : α) {l l' : List (κ × α)}
    (h : List.Forall₂ (Near t) l l') :
    List.Forall₂ (Near t) (insertEntry (k, a) l) (insertEntry (k, a) l') := by
  induction h with
  | nil => exact .cons ⟨rfl, .inl rfl⟩ .nil
  | cons hx hl ih =>
    rename_i x x' l l'
    have hiff : k < x.1 ↔ k < x'.1 := by
      rcases hx.2 with heq | ⟨h, h'⟩
      · rw [heq]
      · exact ⟨fun hlt => absurd (lt_of_lt_of_le h hk) (not_lt.2 hlt.le),
          fun hlt => absurd (lt_of_lt_of_le h' hk) (not_lt.2 hlt.le)⟩
    rw [insertEntry_cons, insertEntry_cons]
    by_cases hlt : k < x.1
    · rw [if_pos hlt, if_pos (hiff.1 hlt)]
      exact .cons ⟨rfl, .inl rfl⟩ (.cons hx hl)
    · rw [if_neg hlt, if_neg (hiff.not.1 hlt)]
      exact .cons hx ih

/-- A key smaller than every other goes to the front. -/
theorem insertEntry_front {e : κ × α} {l : List (κ × α)} (h : ∀ x ∈ l, e.1 < x.1) :
    insertEntry e l = e :: l := by
  cases l with
  | nil => rfl
  | cons b l => rw [insertEntry_cons, if_pos (h b (by simp))]

/-- Through a filter that leaves the keys alone, and keeps the new entry, an insertion is one. -/
theorem filterMap_insertEntry_some {f : α → Option β} {k : κ} {a : α} {b : β} (ha : f a = some b) :
    ∀ l : List (κ × α), l.Pairwise (fun a b => a.1 ≤ b.1) →
      (insertEntry (k, a) l).filterMap (fun e => (f e.2).map (e.1, ·)) =
        insertEntry (k, b) (l.filterMap fun e => (f e.2).map (e.1, ·))
  | [], _ => by simp [insertEntry, ha]
  | x :: l, hs => by
    obtain ⟨hx, hl⟩ := List.pairwise_cons.1 hs
    rw [insertEntry_cons]
    split
    · next hlt =>
      have hfront : ∀ y ∈ (x :: l).filterMap fun e => (f e.2).map (e.1, ·), k < y.1 := by
        intro y hy
        obtain ⟨e, he, hfe⟩ := List.mem_filterMap.1 hy
        obtain ⟨-, -, rfl⟩ := Option.map_eq_some_iff.1 hfe
        rcases List.mem_cons.1 he with rfl | he
        · exact hlt
        · exact lt_of_lt_of_le hlt (hx e he)
      rw [insertEntry_front hfront, List.filterMap_cons_some (show _ = some (k, b) by simp [ha])]
    · next hge =>
      have ih := filterMap_insertEntry_some (k := k) ha l hl
      rw [List.filterMap_cons, List.filterMap_cons, ih]
      cases f x.2 with
      | none => rfl
      | some y =>
        simp only [Option.map_some]
        rw [insertEntry_cons, if_neg hge]

theorem filter_insertEntry_of_pos {p : α → Bool} {k : κ} {a : α} (ha : p a = true) {l : List (κ × α)}
    (hs : l.Pairwise fun a b => a.1 ≤ b.1) :
    (insertEntry (k, a) l).filter (fun e => p e.2) = insertEntry (k, a) (l.filter fun e => p e.2) := by
  have hfilter : ∀ l : List (κ × α), l.filter (fun e => p e.2) =
      l.filterMap fun e => (if p e.2 then some e.2 else none).map (e.1, ·) := fun l => by
    rw [← List.filterMap_eq_filter]
    refine List.filterMap_congr fun e _ => ?_
    cases hp : p e.2 <;> simp [Option.guard, hp]
  rw [hfilter, hfilter]
  exact filterMap_insertEntry_some (f := fun x => if p x then some x else none) (by simp [ha]) l hs

theorem filter_insertEntry_of_neg {p : α → Bool} {k : κ} {a : α} (ha : p a = false) (l : List (κ × α)) :
    (insertEntry (k, a) l).filter (fun e => p e.2) = l.filter fun e => p e.2 := by
  rw [← List.filterMap_eq_filter]
  exact filterMap_insertEntry_none (by simp [Option.guard, ha]) l

variable (m : Multimap κ α)

def empty : Multimap κ α := ⟨[], .nil⟩

/-- `emplace`. -/
def insert (k : κ) (a : α) : Multimap κ α :=
  ⟨insertEntry (k, a) m.entries, insertEntry_sorted m.sorted⟩

/-- The entry of the smallest key, the oldest of its key (`begin`). -/
def first? : Option (κ × α) := m.entries.head?

/-- The map without that entry. -/
def dropFirst : Multimap κ α := ⟨m.entries.tail, m.sorted.tail⟩

/-- The entries whose value satisfies `p`. -/
def keep (p : α → Bool) : Multimap κ α := ⟨m.entries.filter fun e => p e.2, m.sorted.filter _⟩

/-- The same keys with other values. -/
def map (f : α → β) : Multimap κ β :=
  ⟨m.entries.map fun e => (e.1, f e.2), List.pairwise_map.2 m.sorted⟩

@[simp] theorem entries_map (f : α → β) : (m.map f).entries = m.entries.map fun e => (e.1, f e.2) := rfl
@[simp] theorem entries_insert (k : κ) (a : α) : (m.insert k a).entries = insertEntry (k, a) m.entries := rfl
@[simp] theorem entries_dropFirst : m.dropFirst.entries = m.entries.tail := rfl
@[simp] theorem entries_keep (p : α → Bool) : (m.keep p).entries = m.entries.filter fun e => p e.2 := rfl

/-! ### Places

Entries that `fixed` picks stay, and the others come and go: which of them can come
before an entry that stays. -/

/-- Of the entries before one that stays, and is filed under `t` or less, as many stay as in
`start`, and those `p` picks are no more. -/
def KeepsPlaces (t : κ) (fixed p : α → Bool) (start l : List (κ × α)) : Prop :=
  ∀ front e back, l = front ++ e :: back → fixed e.2 = true → e.1 ≤ t →
    ∃ front₀ back₀, start = front₀ ++ e :: back₀ ∧
      front.countP (fixed ·.2) = front₀.countP (fixed ·.2) ∧ front.countP (p ·.2) ≤ front₀.countP (p ·.2)

variable {t : κ} {fixed p : α → Bool} {start l : List (κ × α)}

theorem KeepsPlaces.refl (t : κ) (fixed p : α → Bool) (l : List (κ × α)) : KeepsPlaces t fixed p l l :=
  fun front _ back h _ _ => ⟨front, back, h, rfl, le_rfl⟩

/-- One more in front of all, which `p` does not pick. -/
theorem KeepsPlaces.cons (h : KeepsPlaces t fixed p start l) {x : κ × α} (hfixed : fixed x.2 = false)
    (hp : p x.2 = false) : KeepsPlaces t fixed p start (x :: l) := by
  intro front e back heq he hdue
  cases front with
  | nil =>
    obtain ⟨rfl, -⟩ := List.cons_eq_cons.1 heq
    exact absurd (hfixed.symm.trans he) Bool.noConfusion
  | cons y front =>
    obtain ⟨rfl, hrest⟩ := List.cons_eq_cons.1 heq
    obtain ⟨front₀, back₀, hstart, hstays, hle⟩ := h front e back hrest he hdue
    refine ⟨front₀, back₀, hstart, ?_, ?_⟩
    · rw [List.countP_cons_of_neg (by simp [hfixed]), hstays]
    · rwa [List.countP_cons_of_neg (by simp [hp])]

/-- One more, filed under `t` or later. -/
theorem KeepsPlaces.insertEntry (h : KeepsPlaces t fixed p start l) (hs : l.Pairwise fun a b => a.1 ≤ b.1)
    {x : κ × α} (hfixed : fixed x.2 = false) (hlater : t ≤ x.1) :
    KeepsPlaces t fixed p start (insertEntry x l) := by
  intro front e back heq he hdue
  obtain ⟨l₁, l₂, rfl, hinsert, hback⟩ := insertEntry_split x l hs
  have hne : x ≠ e := by
    rintro rfl
    exact absurd (hfixed.symm.trans he) Bool.noConfusion
  rw [hinsert] at heq
  rcases List.append_eq_append_iff.1 heq with ⟨m, rfl, hm⟩ | ⟨m, rfl, hm⟩
  · -- behind the new entry nothing is filed under `t` or less
    cases m with
    | nil => exact absurd (List.cons_eq_cons.1 hm).1 hne
    | cons y m =>
      obtain ⟨rfl, rfl⟩ := List.cons_eq_cons.1 hm
      exact absurd (lt_of_lt_of_le (hback e (by simp)) hdue) (not_lt.2 hlater)
  · cases m with
    | nil => exact absurd (List.cons_eq_cons.1 hm).1.symm hne
    | cons y m =>
      obtain ⟨rfl, rfl⟩ := List.cons_eq_cons.1 hm
      exact h front e (m ++ l₂) (by simp) he hdue

/-- Some that do not stay go. -/
theorem KeepsPlaces.filter (h : KeepsPlaces t fixed p start l) {q : κ × α → Bool}
    (hq : ∀ e ∈ l, fixed e.2 = true → q e = true) : KeepsPlaces t fixed p start (l.filter q) := by
  intro front e back heq he hdue
  obtain ⟨l₁, l₂, rfl, hfront, hl₂⟩ := List.filter_eq_append_iff.1 heq
  obtain ⟨m, l₃, rfl, hm, -, -⟩ := List.filter_eq_cons_iff.1 hl₂
  obtain ⟨front₀, back₀, hstart, hstays, hle⟩ := h (l₁ ++ m) e l₃ (by simp) he hdue
  have hall : front = (l₁ ++ m).filter q := by
    rw [List.filter_append, hfront, List.filter_eq_nil_iff.2 hm, List.append_nil]
  refine ⟨front₀, back₀, hstart, ?_, ?_⟩
  · rw [← hstays, hall, List.countP_filter]
    refine List.countP_congr fun x hx => ?_
    have hmem : x ∈ l₁ ++ m ++ e :: l₃ := List.mem_append_left _ hx
    constructor
    · intro hand
      exact (Bool.and_eq_true_iff.1 hand).1
    · intro hx
      exact Bool.and_eq_true_iff.2 ⟨hx, hq x (by simpa using hmem) hx⟩
  · refine le_trans ?_ hle
    rw [hall]
    exact List.filter_sublist.countP_le

/-- Two lists with the same entries that `p` picks, each cut at one of these, with as many before it. -/
theorem filter_split {p : α → Bool} {l l₀ front front₀ back back₀ : List α} {e e₀ : α}
    (hl : l = front ++ e :: back) (hl₀ : l₀ = front₀ ++ e₀ :: back₀) (h : l.filter p = l₀.filter p)
    (he : p e = true) (he₀ : p e₀ = true) (hcount : front.countP p = front₀.countP p) :
    front.filter p = front₀.filter p ∧ e = e₀ := by
  rw [hl, hl₀, List.filter_append, List.filter_append, List.filter_cons_of_pos he,
    List.filter_cons_of_pos he₀] at h
  rw [List.countP_eq_length_filter, List.countP_eq_length_filter] at hcount
  obtain ⟨hfront, hrest⟩ := List.append_inj h hcount
  exact ⟨hfront, (List.cons_eq_cons.1 hrest).1⟩

end Multimap
