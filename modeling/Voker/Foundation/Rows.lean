import Mathlib.Data.List.Basic

/-!
# Swap-removal and placement

A *shelf* is a family of row lists.  Items are appended to a row list and removed from
it by *swap-removal*: the last item of the list takes the removed row.  Whoever keeps
track of where an item stands has to follow that one move.

The bookkeeping is stated per item: `HeldAt shelf item place` says that `place` is the
one place of the shelf where `item` stands.  **Appending and swap-removing change the
place of the item they are about and of the one item that was moved, and of no other.**
-/

namespace Foundation

open List Function Option Prod

universe u v

variable {ι : Type u} {α : Type v}

/-! ## Swap-removal -/

/-- Remove a row: the last item takes its place. -/
def swapRemove (rows : List α) (row : ℕ) : List α :=
  match rows.getLast? with
  | none => []
  | some last => (rows.set row last).dropLast

/-- The item a swap-removal moves: the last one, unless it is the one removed. -/
def swapped (rows : List α) (row : ℕ) : Option α :=
  if row + 1 = rows.length then none else rows.getLast?

variable {rows : List α} {row : ℕ} {item : α} {shelf : ι → List α}

theorem getElem?_swapRemove (hin : row < rows.length) (i : ℕ) : (swapRemove rows row)[i]? =
      if i + 1 < rows.length then
        if i = row then rows[rows.length - 1]? else rows[i]?
      else none := by
  have hn : rows ≠ [] := ne_nil_of_length_pos (by omega)
  unfold swapRemove
  rw [getLast?_eq_some_getLast hn]
  rw [getElem?_dropLast, length_set]
  by_cases hb : i + 1 < rows.length
  · rw [if_pos hb, if_pos (by omega), getElem?_set]
    by_cases hs : i = row
    · rw [if_pos hs, if_pos hs.symm, if_pos hin, getLast_eq_getElem,
        getElem?_eq_getElem (by omega)]
    · rw [if_neg hs, if_neg (Ne.symm hs)]
  · rw [if_neg hb, if_neg (by omega)]

theorem length_swapRemove (hin : row < rows.length) :
    (swapRemove rows row).length = rows.length - 1 := by
  have hn : rows ≠ [] := ne_nil_of_length_pos (by omega)
  unfold swapRemove
  rw [List.getLast?_eq_some_getLast hn]
  simp

/-- Swap-removal removes one item. -/
theorem count_swapRemove [DecidableEq α] {r : α} (hf : rows[row]? = some r) (item : α) :
    rows.count item = (swapRemove rows row).count item + if r = item then 1 else 0 := by
  obtain ⟨hin, her⟩ := List.getElem?_eq_some_iff.mp hf
  have hn : rows ≠ [] := ne_nil_of_length_pos (by omega)
  let last := rows.getLast hn
  have hch : rows.set row last ≠ [] := by simpa using hn
  have hs : (rows.set row last).getLast hch = last := by
    rw [getLast_eq_getElem, getElem_set]
    simp only [length_set]
    split
    · rfl
    · exact (getLast_eq_getElem hn).symm
  have split : (rows.set row last).count item =
      (swapRemove rows row).count item + if last = item then 1 else 0 := by
    conv_lhs => rw [← dropLast_append_getLast hch, hs]
    rw [count_append, count_singleton, swapRemove, getLast?_eq_some_getLast hn]
    simp [last]
  have hc := @count_set α _ last item rows row hin
  have hp : r = item → 0 < rows.count item := fun he =>
    count_pos_iff.mpr (he ▸ mem_of_getElem? hf)
  rw [her] at hc
  simp only [beq_iff_eq] at hc
  by_cases hg : r = item
  · have pos := hp hg
    rw [if_pos hg] at hc ⊢
    omega
  · rw [if_neg hg] at hc ⊢
    omega

/-- Swap-removal of an item keeps the others, in another order. -/
theorem cons_swapRemove_perm [DecidableEq α] (mem : item ∈ rows) :
    (item :: swapRemove rows (rows.findIdx (· = item))).Perm rows := by
  have hin : rows.findIdx (· = item) < rows.length :=
    findIdx_lt_length_of_exists ⟨item, mem, decide_eq_true rfl⟩
  have he : rows[rows.findIdx (· = item)] = item := by
    have ho := @findIdx_getElem α (fun o => decide (o = item)) rows hin
    exact of_decide_eq_true ho
  have hf : rows[rows.findIdx (· = item)]? = some item := by
    rw [getElem?_eq_getElem hin, he]
  rw [perm_iff_count]
  intro o
  rw [count_swapRemove hf o, count_cons]
  simp only [beq_iff_eq]

theorem nodup_snoc (hn : rows.Nodup) (ha : item ∉ rows) : (rows ++ [item]).Nodup := by
  refine nodup_append.mpr ⟨hn, pairwise_singleton _ _, ?_⟩
  rintro o mem _ hl rfl
  exact ha (mem_singleton.mp hl ▸ mem)

/-- Removing an item from a list without repetitions. -/
theorem nodup_of_cons_perm {rest : List α} (hp : (item :: rest).Perm rows) (hn : rows.Nodup) :
    rest.Nodup ∧ ∀ {o}, o ∈ rest ↔ o ∈ rows ∧ o ≠ item := by
  obtain ⟨ha, hnr⟩ := nodup_cons.mp (hp.nodup_iff.mpr hn)
  refine ⟨hnr, fun {o} => ?_⟩
  rw [← hp.mem_iff, mem_cons]
  constructor
  · intro mem
    refine ⟨.inr mem, ?_⟩
    rintro rfl
    exact ha mem
  · rintro ⟨hs | mem, ne⟩
    · exact absurd hs ne
    · exact mem

/-- The item that is moved stands in the last row. -/
theorem swapped_eq_some (hm : swapped rows row = some item) :
    row + 1 ≠ rows.length ∧ rows[rows.length - 1]? = some item := by
  unfold swapped at hm
  split at hm
  · cases hm
  · next ho => exact ⟨ho, by rw [← getLast?_eq_getElem?]; exact hm⟩

/-! ## Places -/

/-- `place` is the one place where the item stands; `none` says that it stands
nowhere. -/
def HeldAt (shelf : ι → List α) (item : α) (place : Option (ι × ℕ)) : Prop :=
  ∀ list row, (shelf list)[row]? = some item ↔ place = some (list, row)

theorem HeldAt.not_mem (ha : HeldAt shelf item none) (list : ι) : item ∉ shelf list := by
  intro he
  obtain ⟨row, hf⟩ := mem_iff_getElem?.mp he
  cases (ha list row).mp hf

theorem heldAt_none_iff : HeldAt shelf item none ↔ ∀ list, item ∉ shelf list := by
  refine ⟨fun ha => ha.not_mem, fun ha list row => ?_⟩
  refine ⟨fun hf => absurd (mem_of_getElem? hf) (ha list), fun place => ?_⟩
  cases place

variable {place : Option (ι × ℕ)}

/-- An item has only one place. -/
theorem HeldAt.unique (he : HeldAt shelf item place) {list : ι}
    (hf : (shelf list)[row]? = some item) : place = some (list, row) :=
  (he list row).mp hf

/-- Every list holds the item at most once. -/
def OnceEach (shelf : ι → List α) (item : α) : Prop :=
  ∀ (list : ι) (row other : ℕ), (shelf list)[row]? = some item →
    (shelf list)[other]? = some item → row = other

theorem HeldAt.onceEach (he : HeldAt shelf item place) : OnceEach shelf item := by
  intro list row o fst snd
  have hs := (he.unique fst).symm.trans (he.unique snd)
  simpa using hs

section Update

variable [DecidableEq ι] {shelf : ι → List α} {item : α} {list : ι}

/-! ### Appending -/

variable {row : ℕ} {added : α} {place : Option (ι × ℕ)}

theorem getElem?_push {o : ι} :
    (update shelf list (shelf list ++ [added]) o)[row]? = some item ↔
      (shelf o)[row]? = some item ∨
        (o = list ∧ row = (shelf list).length ∧ item = added) := by
  by_cases hs : o = list
  · subst hs
    rw [update_self, getElem?_append]
    split
    · next hin =>
      refine ⟨.inl, fun he => he.elim id fun ⟨_, hl, _⟩ => ?_⟩
      omega
    · next ho =>
      rw [getElem?_eq_none (Nat.le_of_not_lt ho)]
      constructor
      · intro hf
        obtain ⟨fst, rfl⟩ : row - (shelf o).length = 0 ∧ added = item := by
          simpa [getElem?_singleton] using hf
        exact .inr ⟨rfl, by omega, rfl⟩
      · rintro (ha | ⟨-, rfl, rfl⟩)
        · cases ha
        · simp
  · rw [update_of_ne hs]
    exact ⟨.inl, fun he => he.elim id fun ⟨heq, _⟩ => absurd heq hs⟩

theorem HeldAt.push_other (hel : HeldAt shelf item place) (ne : item ≠ added) :
    HeldAt (update shelf list (shelf list ++ [added])) item place := by
  intro o row
  rw [getElem?_push, ← hel o row]
  exact or_iff_left fun ⟨_, _, he⟩ => ne he

theorem HeldAt.push_self (ha : HeldAt shelf item none) :
    HeldAt (update shelf list (shelf list ++ [item])) item (some (list, (shelf list).length)) := by
  intro o row
  rw [getElem?_push, ha o row]
  simp [Prod.ext_iff, eq_comm]

/-- Appending to a list that does not hold the item keeps the others. -/
theorem OnceEach.push (ho : OnceEach shelf item) (ha : item ∉ shelf list) :
    OnceEach (update shelf list (shelf list ++ [item])) item := by
  intro o row snd hf hag
  rw [getElem?_push] at hf hag
  rcases hf with hf | ⟨rfl, rfl, -⟩ <;> rcases hag with hag | ⟨hs, rfl, -⟩
  · exact ho o row snd hf hag
  · subst hs
    exact absurd (mem_of_getElem? hf) ha
  · exact absurd (mem_of_getElem? hag) ha
  · rfl

/-! ### Swap-removing -/

/-- Where another item stands after a swap-removal at `row` of `list`. -/
def followSwap [DecidableEq α] (rows : List α) (list : ι) (row : ℕ) (item : α)
    (place : Option (ι × ℕ)) : Option (ι × ℕ) :=
  if swapped rows row = some item then some (list, row) else place

theorem HeldAt.swapRemove_other [DecidableEq α] {r : α} (he : HeldAt shelf item place)
    (hf : (shelf list)[row]? = some r) (ne : item ≠ r) :
    HeldAt (update shelf list (swapRemove (shelf list) row)) item
      (followSwap (shelf list) list row item place) := by
  have hin : row < (shelf list).length := (List.getElem?_eq_some_iff.mp hf).1
  have hnh : (shelf list)[row]? ≠ some item := by
    rw [hf]
    exact fun heq => ne (some.inj heq).symm
  intro o i
  unfold followSwap
  by_cases hsa : o = list
  · subst hsa
    rw [update_self, getElem?_swapRemove hin]
    split_ifs with below here moves moves moves
    · -- the vacated row holds the last item
      rw [here]
      exact iff_of_true (swapped_eq_some moves).2 rfl
    · refine iff_of_false (fun last => moves ?_) (fun hs => ?_)
      · unfold swapped
        rw [if_neg (by omega), getLast?_eq_getElem?, last]
      · rw [here] at hs
        exact hnh ((he o row).mpr hs)
    · have last := he.unique (swapped_eq_some moves).2
      rw [he o i, last]
      simp only [some.injEq, mk.injEq, true_and]
      omega
    · exact he o i
    · obtain ⟨hnl, last⟩ := swapped_eq_some moves
      simp only [false_iff, some.injEq, mk.injEq, true_and]
      omega
    · refine iff_of_false (by simp) fun hs => moves ?_
      have last := (he o i).mpr hs
      have hb : i < (shelf o).length := (List.getElem?_eq_some_iff.mp last).1
      have pos : i = (shelf o).length - 1 := by omega
      unfold swapped
      rw [if_neg, getLast?_eq_getElem?, ← pos, last]
      rintro hfi
      have heq : i = row := by omega
      rw [heq] at last
      exact hnh last
  · rw [update_of_ne hsa, he o i]
    split_ifs with moves
    · have last := he.unique (swapped_eq_some moves).2
      rw [last]
      simp [Ne.symm hsa]
    · rfl

omit [DecidableEq ι] in
/-- A list that held the item once does not hold it any more. -/
theorem OnceEach.swapRemove_not_mem (ho : OnceEach shelf item)
    (hf : (shelf list)[row]? = some item) : item ∉ swapRemove (shelf list) row := by
  have hin : row < (shelf list).length := (List.getElem?_eq_some_iff.mp hf).1
  intro he
  obtain ⟨i, hs⟩ := mem_iff_getElem?.mp he
  rw [getElem?_swapRemove hin] at hs
  split_ifs at hs with below here
  · have hl := ho list row _ hf hs
    omega
  · exact here (ho list i row hs hf)

omit [DecidableEq ι] in
/-- An item that a list holds once is not the one moved into its row. -/
theorem OnceEach.swapped_ne (ho : OnceEach shelf item) (hf : (shelf list)[row]? = some item) :
    swapped (shelf list) row ≠ some item := by
  intro hm
  have hin : row < (shelf list).length := (List.getElem?_eq_some_iff.mp hf).1
  obtain ⟨hnl, hl⟩ := swapped_eq_some hm
  have pos := ho list row _ hf hl
  omega

theorem OnceEach.swapRemove (ho : OnceEach shelf item) (hf : (shelf list)[row]? = some item) :
    OnceEach (update shelf list (swapRemove (shelf list) row)) item := by
  intro o fst snd one two
  by_cases hs : o = list
  · subst hs
    rw [update_self] at one
    exact absurd (mem_of_getElem? one) (ho.swapRemove_not_mem hf)
  · rw [update_of_ne hs] at one two
    exact ho o fst snd one two

theorem HeldAt.swapRemove_self (he : HeldAt shelf item (some (list, row))) :
    HeldAt (update shelf list (swapRemove (shelf list) row)) item none := by
  have hf : (shelf list)[row]? = some item := (he list row).mpr rfl
  rw [heldAt_none_iff]
  intro o
  by_cases hs : o = list
  · subst hs
    rw [update_self]
    exact he.onceEach.swapRemove_not_mem hf
  · rw [update_of_ne hs]
    intro ha
    obtain ⟨i, hst⟩ := mem_iff_getElem?.mp ha
    have place := he.unique hst
    simp only [some.injEq, mk.injEq] at place
    exact hs place.1.symm

end Update

end Foundation
