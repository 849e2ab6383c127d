import Mathlib.Data.List.Nodup
import Mathlib.Data.List.Perm.Subperm

/-!
# `Vec` removal by first match and `swap_remove`

Both mailboxes keep their two queues in `Vec`s and take an entry out of a queue the same way:
`iter().position` finds the first entry that matches, and `Vec::swap_remove` removes it by moving
the last entry into the freed slot. This module states the two operations on lists.

`swapRemove` is `Vec::swap_remove`, with `none` where Rust panics on an index out of bounds
(`swapRemove_eq_none`). `swapRemove_eq_some_iff` is its specification: on `pre ++ x :: rest` at
index `pre.length` it returns `x` and `pre` followed by the last entry of `rest` and then the
others in order, so the prefix before the index keeps its order while the tail is rotated by one.
`perm_of_swapRemove` is the multiset reading of the same fact. `findIdx?_eq_some_iff_append` is
the matching specification of `position`, as `List.findIdx?`: the index is the length of a prefix
with no match.

`swap_remove` keeps the order of the entries with each key exactly when the last entry, which it
moves into the freed slot, passes none with its own key (`SwapKeepsOrder`); then filtering by any
key sees the entry taken out in place (`filter_swapRemove`). `FirstRemovalKeepsOrder` says this
of the removal at the first match.
A section reads `List.modify` and indexing through a filter, for the entries one tag owns:
`filter_modify_of_pos`, `filter_modify_of_neg`, `getElem?_filter_countP_take`. The last one has
the facts the network models use of tables indexed in place and of maps kept as association
lists, among them `perm_flatMap_set`: replacing one entry changes a collection over all entries by
what it changes for that entry.
-/

set_option autoImplicit false
set_option relaxedAutoImplicit false

namespace MadsimNet

variable {α : Type}

/-- `Vec::swap_remove(index)`: the entry at `index`, and the vector with its last entry moved into
the freed slot; `none` where Rust panics, on an index out of bounds. -/
def swapRemove (v : List α) (index : ℕ) : Option (α × List α) := do
  let x ← v[index]?
  let last ← v.getLast?
  pure (x, (v.set index last).dropLast)

theorem swapRemove_append_cons (pre rest : List α) (x : α) :
    swapRemove (pre ++ x :: rest) pre.length =
      some (x, pre ++ (rest.getLast?.toList ++ rest.dropLast)) := by
  cases rest with
  | nil => simp [swapRemove]
  | cons r rs =>
    simp [swapRemove, List.getLast?_eq_getLast _ (List.cons_ne_nil r rs),
      List.dropLast_append_cons, List.getElem_append_right]

theorem exists_append_cons_of_lt {v : List α} {index : ℕ} (h : index < v.length) :
    ∃ pre y rest, v = pre ++ y :: rest ∧ pre.length = index :=
  ⟨v.take index, v[index], v.drop (index + 1),
    by rw [← List.drop_eq_getElem_cons h, List.take_append_drop], List.length_take_of_le h.le⟩

theorem exists_append_cons_of_getElem?_eq_some {v : List α} {index : ℕ} {x : α}
    (h : v[index]? = some x) : ∃ pre rest, v = pre ++ x :: rest ∧ pre.length = index := by
  obtain ⟨hlt, rfl⟩ := List.getElem?_eq_some_iff.1 h
  exact ⟨v.take index, v.drop (index + 1),
    by rw [← List.drop_eq_getElem_cons hlt, List.take_append_drop], List.length_take_of_le hlt.le⟩

theorem swapRemove_eq_none {v : List α} {index : ℕ} :
    swapRemove v index = none ↔ v.length ≤ index := by
  refine ⟨fun h ↦ ?_, fun h ↦ by simp [swapRemove, List.getElem?_eq_none h]⟩
  by_contra hlt
  obtain ⟨pre, y, rest, rfl, rfl⟩ := exists_append_cons_of_lt (Nat.lt_of_not_le hlt)
  simp [swapRemove_append_cons] at h

/-- The specification of `swap_remove`: the prefix before the index keeps its order, and the tail
after it is rotated so that its last entry comes first. -/
theorem swapRemove_eq_some_iff {v v' : List α} {index : ℕ} {x : α} :
    swapRemove v index = some (x, v') ↔
      ∃ pre rest, v = pre ++ x :: rest ∧ pre.length = index ∧
        v' = pre ++ (rest.getLast?.toList ++ rest.dropLast) := by
  constructor
  · intro h
    have hlt : index < v.length := by
      by_contra hge
      rw [swapRemove_eq_none.2 (by omega)] at h
      cases h
    obtain ⟨pre, y, rest, rfl, rfl⟩ := exists_append_cons_of_lt hlt
    rw [swapRemove_append_cons, Option.some.injEq, Prod.mk.injEq] at h
    obtain ⟨rfl, rfl⟩ := h
    exact ⟨pre, rest, rfl, rfl, rfl⟩
  · rintro ⟨pre, rest, rfl, rfl, rfl⟩
    exact swapRemove_append_cons pre rest x

theorem perm_getLast?_toList_append_dropLast (l : List α) :
    l.Perm (l.getLast?.toList ++ l.dropLast) := by
  rcases List.eq_nil_or_concat l with rfl | ⟨init, last, rfl⟩
  · simp
  · simp [List.perm_append_singleton last init]

/-- `swap_remove` takes exactly the removed entry out of the multiset of entries. -/
theorem perm_of_swapRemove {v v' : List α} {index : ℕ} {x : α}
    (h : swapRemove v index = some (x, v')) : v.Perm (x :: v') := by
  obtain ⟨pre, rest, rfl, -, rfl⟩ := swapRemove_eq_some_iff.1 h
  exact List.perm_middle.trans
    (((perm_getLast?_toList_append_dropLast rest).append_left pre).cons x)

theorem getElem?_of_swapRemove {v v' : List α} {index : ℕ} {x : α}
    (h : swapRemove v index = some (x, v')) : v[index]? = some x := by
  obtain ⟨pre, rest, rfl, rfl, rfl⟩ := swapRemove_eq_some_iff.1 h
  simp [List.getElem_append_right]

/-- `swap_remove` keeps the entries before the index in place. -/
theorem take_of_swapRemove {v v' : List α} {index : ℕ} {x : α}
    (h : swapRemove v index = some (x, v')) : v'.take index = v.take index := by
  obtain ⟨pre, rest, rfl, rfl, rfl⟩ := swapRemove_eq_some_iff.1 h
  simp

theorem length_of_swapRemove {v v' : List α} {index : ℕ} {x : α}
    (h : swapRemove v index = some (x, v')) : v.length = v'.length + 1 := by
  simpa using (perm_of_swapRemove h).length_eq

/-- The specification of `position`: the first match stands after a prefix with no match. -/
theorem findIdx?_eq_some_iff_append {v : List α} {p : α → Bool} {index : ℕ} :
    v.findIdx? p = some index ↔
      ∃ pre x rest, v = pre ++ x :: rest ∧ pre.length = index ∧ p x ∧
        ∀ y ∈ pre, p y = false := by
  constructor
  · intro h
    obtain ⟨hlt, hp, hbefore⟩ := List.findIdx?_eq_some_iff_getElem.1 h
    refine ⟨v.take index, v[index], v.drop (index + 1),
      by rw [← List.drop_eq_getElem_cons hlt, List.take_append_drop],
      List.length_take_of_le hlt.le, hp, fun y hy ↦ ?_⟩
    obtain ⟨j, hj, rfl⟩ := List.getElem_of_mem hy
    rw [List.length_take_of_le hlt.le] at hj
    simpa [List.getElem_take] using hbefore j hj
  · rintro ⟨pre, x, rest, rfl, rfl, hx, hpre⟩
    have hnone : pre.findIdx? p = none := List.findIdx?_eq_none_iff.2 hpre
    simp [hnone, hx]

/-! ### Removal that keeps each key's order -/

/-- `swap_remove(index)` on `v` keeps the order of the entries with each key: of the entries after
`index`, the last one, which moves into the freed slot, passes none with its own key. -/
def SwapKeepsOrder {β : Type} [DecidableEq β] (key : α → β) (v : List α) (index : ℕ) : Prop :=
  ∀ x ∈ (v.drop (index + 1)).getLast?, ∀ y ∈ (v.drop (index + 1)).dropLast, key y ≠ key x

instance {β : Type} [DecidableEq β] (key : α → β) (v : List α) (index : ℕ) :
    Decidable (SwapKeepsOrder key v index) :=
  inferInstanceAs (Decidable (∀ x ∈ (v.drop (index + 1)).getLast?,
    ∀ y ∈ (v.drop (index + 1)).dropLast, key y ≠ key x))

/-- The `swap_remove` at the first entry of `v` that satisfies `p`, if there is one, keeps the
order of the entries with each key. -/
def FirstRemovalKeepsOrder {β : Type} [DecidableEq β] (key : α → β) (p : α → Bool) (v : List α) :
    Prop :=
  ∀ index ∈ v.findIdx? p, SwapKeepsOrder key v index

instance {β : Type} [DecidableEq β] (key : α → β) (p : α → Bool) (v : List α) :
    Decidable (FirstRemovalKeepsOrder key p v) :=
  inferInstanceAs (Decidable (∀ index ∈ v.findIdx? p, SwapKeepsOrder key v index))

theorem FirstRemovalKeepsOrder.at {β : Type} [DecidableEq β] {key : α → β} {p : α → Bool}
    {pre rest : List α} {x : α} (h : FirstRemovalKeepsOrder key p (pre ++ x :: rest))
    (hx : p x = true) (hpre : ∀ y ∈ pre, p y = false) :
    SwapKeepsOrder key (pre ++ x :: rest) pre.length :=
  h _ (findIdx?_eq_some_iff_append.2 ⟨pre, x, rest, rfl, rfl, hx, hpre⟩)

/-- Where `swap_remove` passes no entry with the moved entry's key, filtering by any key sees the
removed entry taken out in place. -/
theorem filter_swapRemove {β : Type} [DecidableEq β] {key : α → β} {pre rest : List α} {x : α}
    (h : SwapKeepsOrder key (pre ++ x :: rest) pre.length) (b : β) :
    (pre ++ (rest.getLast?.toList ++ rest.dropLast)).filter (key · == b) =
      (pre ++ rest).filter (key · == b) := by
  simp only [SwapKeepsOrder, List.drop_append_eq_append_drop, List.length_append, List.length_cons,
    List.drop_eq_nil_of_le (show pre.length ≤ pre.length + 1 by omega), List.nil_append,
    Nat.add_sub_cancel_left, List.drop_one, List.tail_cons] at h
  simp only [List.filter_append, List.append_cancel_left_eq]
  rcases List.eq_nil_or_concat rest with rfl | ⟨init, last, rfl⟩
  · rfl
  have hinit : ∀ y ∈ init, key y ≠ key last := by simpa using h
  by_cases hk : key last = b
  · subst hk
    have hnil : init.filter (key · == key last) = [] :=
      List.filter_eq_nil_iff.2 fun y hy ↦ by simpa using hinit y hy
    simp [hnil]
  · simp [hk]

/-! ### Filtering a vector -/

theorem filter_modify_of_pos {p : α → Bool} {f : α → α} (hf : ∀ a, p (f a) = p a) :
    ∀ (l : List α) (i : ℕ), (∀ a ∈ l[i]?, p a = true) →
      (l.modify f i).filter p = (l.filter p).modify f ((l.take i).countP p)
  | [], _, _ => by simp
  | a :: l, 0, h => by
    simp only [List.getElem?_cons_zero, Option.mem_def, Option.some.injEq, forall_eq'] at h
    simp [List.modify_zero_cons, List.filter_cons, h, hf]
  | a :: l, i + 1, h => by
    have ih := filter_modify_of_pos hf l i (by simpa using h)
    by_cases ha : p a <;>
      simp [List.modify_succ_cons, List.filter_cons, List.take_succ_cons, List.countP_cons, ha, ih]

theorem filter_modify_of_neg {p : α → Bool} {f : α → α} (hf : ∀ a, p (f a) = p a) :
    ∀ (l : List α) (i : ℕ), (∀ a ∈ l[i]?, p a = false) → (l.modify f i).filter p = l.filter p
  | [], _, _ => by simp
  | a :: l, 0, h => by
    simp only [List.getElem?_cons_zero, Option.mem_def, Option.some.injEq, forall_eq'] at h
    simp [List.modify_zero_cons, List.filter_cons, h, hf]
  | a :: l, i + 1, h => by
    simp [List.modify_succ_cons, List.filter_cons, filter_modify_of_neg hf l i (by simpa using h)]

/-- The entry at `i` stands in the filtered list after the matches before `i`. -/
theorem getElem?_filter_countP_take {p : α → Bool} :
    ∀ (l : List α) (i : ℕ) {a : α}, l[i]? = some a → p a = true →
      (l.filter p)[(l.take i).countP p]? = some a
  | a :: l, 0, _, h, hp => by
    simp only [List.getElem?_cons_zero, Option.some.injEq] at h
    subst h
    simp [List.filter_cons, hp]
  | b :: l, i + 1, a, h, hp => by
    have ih := getElem?_filter_countP_take l i (by simpa using h) hp
    by_cases hb : p b <;> simp [List.filter_cons, List.take_succ_cons, List.countP_cons, hb, ih]

/-! ### Tables: vectors indexed in place and maps as association lists -/

theorem mem_of_lookup_eq_some [BEq α] [LawfulBEq α] {β : Type} {l : List (α × β)} {a : α} {b : β}
    (h : l.lookup a = some b) : (a, b) ∈ l := by
  obtain ⟨l₁, l₂, rfl, -⟩ := List.lookup_eq_some_iff.1 h
  simp

theorem modify_eq_set_of_getElem? {l : List α} {i : ℕ} {a : α} (h : l[i]? = some a)
    (f : α → α) : l.modify f i = l.set i (f a) := by
  rw [List.modify_eq_set_get?, List.get?_eq_getElem?, h]
  rfl

theorem set_of_getElem?_eq_some {l : List α} {i : ℕ} {a : α} (h : l[i]? = some a) :
    l.set i a = l := by
  refine List.ext_getElem? fun j ↦ ?_
  rw [List.getElem?_set']
  split_ifs with hij
  · subst hij
    simp [h]
  · rfl

theorem getElem?_set_eq_some {l : List α} {i j : ℕ} {a b : α}
    (h : (l.set i a)[j]? = some b) : (j = i ∧ b = a) ∨ (j ≠ i ∧ l[j]? = some b) := by
  rw [List.getElem?_set] at h
  split_ifs at h with he
  · exact .inl ⟨he.symm, (Option.some.inj h).symm⟩
  · exact .inr ⟨Ne.symm he, h⟩

theorem getElem?_append_singleton_eq_some {l : List α} {a b : α} {i : ℕ}
    (h : (l ++ [a])[i]? = some b) : l[i]? = some b ∨ (i = l.length ∧ b = a) := by
  rw [List.getElem?_append] at h
  split at h
  · exact .inl h
  · have hlt := (List.getElem?_eq_some_iff.1 h).1
    simp only [List.length_singleton] at hlt
    refine .inr ⟨by omega, ?_⟩
    simpa [show i - l.length = 0 by omega] using h.symm

/-- Replacing one entry of a vector changes what a map over all entries collects by what it
changes for that entry. -/
theorem perm_flatMap_set {β : Type} {f : α → List β} {l : List α} {i : ℕ} {a a' : α}
    {extra : List β} (h : l[i]? = some a) (ha : (f a').Perm (f a ++ extra)) :
    ((l.set i a').flatMap f).Perm (l.flatMap f ++ extra) := by
  obtain ⟨pre, post, rfl, rfl⟩ := exists_append_cons_of_getElem?_eq_some h
  simp only [List.set_append_right _ _ (le_refl _), Nat.sub_self, List.set_cons_zero,
    List.flatMap_append, List.flatMap_cons, List.append_assoc]
  refine ((ha.append_right _).trans ?_).append_left _
  rw [List.append_assoc]
  exact (List.perm_append_comm.append_left _)

end MadsimNet
