import Mathlib.Data.List.Sort
import Mathlib.Tactic.Linarith

/-!
# Searching sorted lists

Two ways to find a key in a strictly sorted list: halving the part in which it can be, and
jumping ahead in steps that double.  Both return the position of the key, or the position
at which it is missing.
-/

namespace Foundation

open List Nat

universe u

variable {α : Type u} [LinearOrder α] {slice : List α} {key later : α} {index : ℕ}

/-! ## Halving -/

/-- The search loop: the key can only be among the `size` items from `base` on. -/
def halve (slice : List α) (key : α) (base size : ℕ) : ℕ :=
  if 1 < size then
    let half := size / 2
    let mid := base + half
    let next := match slice[mid]? with
      | some item => if key < item then base else mid
      | none => base
    halve slice key next (size - half)
  else base
termination_by size
decreasing_by omega

/-- Binary search, with the position of the key or the position where it is missing. -/
def binarySearch (slice : List α) (key : α) : Except ℕ ℕ :=
  let base := halve slice key 0 slice.length
  match slice[base]? with
  | some item => if item = key then .ok base else .error (if item < key then base + 1 else base)
  | none => .error 0

/-- What the loop preserves: the key is not outside the part. -/
theorem halve_spec {slice : List α} (sorted : slice.SortedLT) {key : α} {base size : ℕ}
    (hin : base + size ≤ slice.length) (pos : 0 < size)
    (hw : ∀ pos, slice[pos]? = some key → base ≤ pos ∧ pos < base + size) :
    halve slice key base size < slice.length ∧
      ∀ pos, slice[pos]? = some key → pos = halve slice key base size := by
  induction size using Nat.strong_induction_on generalizing base with
  | h size ih =>
    rw [halve]
    split
    · next hla =>
      have middle : base + size / 2 < slice.length := by omega
      simp only [List.getElem?_eq_getElem middle]
      by_cases hg : key < slice[base + size / 2]
      · rw [if_pos hg]
        refine ih (size - size / 2) (by omega) (by omega) (by omega) fun pos hf => ?_
        obtain ⟨low, hi⟩ := hw pos hf
        obtain ⟨ht, he⟩ := List.getElem?_eq_some_iff.mp hf
        -- an item at or after the middle is larger than the key
        have hl : pos < base + size / 2 := by
          by_contra hr
          rcases eq_or_lt_of_le (not_lt.mp hr) with hs | hp
          · simp only [← hs] at he
            exact absurd hg (by rw [he]; exact lt_irrefl _)
          · have later : slice[base + size / 2] < slice[pos] := sorted.getElem_lt_getElem_of_lt hp
            rw [he] at later
            exact absurd (hg.trans later) (lt_irrefl _)
        omega
      · rw [if_neg hg]
        refine ih (size - size / 2) (by omega) (by omega) (by omega) fun pos hf => ?_
        obtain ⟨low, hi⟩ := hw pos hf
        obtain ⟨ht, he⟩ := List.getElem?_eq_some_iff.mp hf
        have hr : base + size / 2 ≤ pos := by
          by_contra hl
          have hea : slice[pos] < slice[base + size / 2] :=
            sorted.getElem_lt_getElem_of_lt (not_le.mp hl)
          rw [he] at hea
          exact hg hea
        omega
    · next hsm =>
      refine ⟨by omega, fun pos hf => ?_⟩
      obtain ⟨low, hi⟩ := hw pos hf
      omega

/-- **Binary search finds the items of a sorted list**, and nothing else. -/
theorem binarySearch_isOk (sorted : slice.SortedLT) (key : α) :
    (∃ pos, binarySearch slice key = .ok pos) ↔ key ∈ slice := by
  constructor
  · rintro ⟨pos, hf⟩
    unfold binarySearch at hf
    dsimp only at hf
    split at hf
    · next item ht =>
      split at hf
      · next he =>
        rw [← he]
        exact mem_of_getElem? ht
      · cases hf
    · cases hf
  · intro mem
    obtain ⟨pos, ht⟩ := mem_iff_getElem?.mp mem
    have hn : 0 < slice.length := length_pos_of_mem mem
    obtain ⟨-, hu⟩ := @halve_spec _ _ slice sorted key 0 slice.length (by omega) hn
      fun pos hf => ⟨zero_le _, by
        rw [zero_add]
        exact (List.getElem?_eq_some_iff.mp hf).1⟩
    refine ⟨pos, ?_⟩
    have her := hu pos ht
    unfold binarySearch
    dsimp only
    rw [← her, ht]
    simp

/-- Searching short lists one by one and others by halving. -/
theorem search_iff (sorted : slice.SortedLT) (s : Prop) [Decidable s] (key : α) :
    (if s then decide (key ∈ slice) else (binarySearch slice key).isOk) = true ↔
      key ∈ slice := by
  split
  · exact decide_eq_true_iff
  · rw [← binarySearch_isOk sorted]
    cases binarySearch slice key with
    | ok pos => simp [Except.isOk, Except.toBool]
    | error pos => simp [Except.isOk, Except.toBool]

/-! ## Jumping -/

/-- How often the step can be doubled without jumping over the key. -/
def gallop (key : α) (slice : List α) (index doublings : ℕ) : ℕ :=
  if inside : index + 2 ^ doublings < slice.length then
    if slice[index + 2 ^ doublings] ≤ key then gallop key slice index (doublings + 1)
    else doublings
  else doublings
termination_by slice.length - 2 ^ doublings
decreasing_by
  have grows : 2 ^ doublings < 2 ^ (doublings + 1) := Nat.pow_lt_pow_right one_lt_two (by omega)
  omega

/-- Search by jumps, from a position on. -/
def jumpSearchFrom (key : α) (slice : List α) (index : ℕ) : Except ℕ ℕ :=
  if inside : index < slice.length then
    if key < slice[index] then .error index
    else if slice[index] = key then .ok index
    else jumpSearchFrom key slice (index + max (2 ^ gallop key slice index 0 / 2) 1)
  else .error index
termination_by slice.length - index

/-- Search by jumps, with the position of the key or the position where it is missing. -/
def jumpSearch (key : α) (slice : List α) : Except ℕ ℕ := jumpSearchFrom key slice 0

/-- Half of the last step stays at items that are not larger than the key. -/
theorem gallop_spec {key : α} {slice : List α} {i d : ℕ}
    (hr : d = 0 ∨ ∃ hin : i + 2 ^ (d - 1) < slice.length,
      slice[i + 2 ^ (d - 1)] ≤ key) : gallop key slice i d = 0 ∨
      ∃ hin : i + 2 ^ (gallop key slice i d - 1) < slice.length,
        slice[i + 2 ^ (gallop key slice i d - 1)] ≤ key := by
  fun_induction gallop key slice i d with
  | case1 d hin hnl ih => exact ih (.inr ⟨hin, hnl⟩)
  | case2 d hin hl => exact hr
  | case3 d ho => exact hr

/-- All items before a position are smaller than the key. -/
def Passed (key : α) (slice : List α) (index : ℕ) : Prop :=
  ∀ position (inside : position < slice.length), position < index → slice[position] < key

/-- What a search finds: the key, or the place between smaller and larger items where it
is missing. -/
def Found (key : α) (slice : List α) : Except ℕ ℕ → Prop
  | .ok index => slice[index]? = some key
  | .error index => Passed key slice index ∧
      (∀ position (inside : position < slice.length), index ≤ position → key < slice[position]) ∧
      index ≤ slice.length

/-- What is missing is not in the list. -/
theorem Found.notMem (hm : Found key slice (.error index)) : key ∉ slice := by
  intro mem
  obtain ⟨pos, hin, he⟩ := mem_iff_getElem.mp mem
  rcases lt_or_ge pos index with pre | hp
  · exact absurd (hm.1 pos hin pre) (by rw [he]; exact lt_irrefl _)
  · exact absurd (hm.2.1 pos hin hp) (by rw [he]; exact lt_irrefl _)

/-- Items that are larger than everything passed are in the rest of the list. -/
theorem mem_drop_of_passed (hp : ∀ pos (hin : pos < slice.length), pos < index →
      slice[pos] ≤ key) (hl : key < later) : later ∈ slice.drop index ↔ later ∈ slice := by
  refine ⟨mem_of_mem_drop, fun mem => ?_⟩
  obtain ⟨pos, hin, he⟩ := mem_iff_getElem.mp mem
  have hpo : index ≤ pos := by
    by_contra pre
    exact absurd (hp pos hin (not_le.mp pre)) (by rw [he]; exact not_le.mpr hl)
  refine mem_iff_getElem.mpr ⟨pos - index, by rw [length_drop]; omega, ?_⟩
  simpa [Nat.add_sub_cancel' hpo] using he

/-- Where a key is missing, larger keys are behind. -/
theorem Found.mem_drop (hm : Found key slice (.error index)) (hl : key < later) :
    later ∈ slice.drop index ↔ later ∈ slice :=
  mem_drop_of_passed (fun pos hin pre => (hm.1 pos hin pre).le) hl

section

variable (sorted : slice.SortedLE)

include sorted

/-- A jump from an item that is too small passes only such items, or reaches the key. -/
theorem passed_jump (he : index < slice.length) (hbe : slice[index] < key) :
    let next := index + max (2 ^ gallop key slice index 0 / 2) 1
    next ≤ slice.length ∧ (Passed key slice next ∨ slice[next]? = some key) := by
  have hr := @gallop_spec _ _ key slice index 0 (.inl rfl)
  generalize gallop key slice index 0 = d at hr
  cases d with
  | zero =>
    refine ⟨by simp; omega, .inl fun pos hin pre => ?_⟩
    exact (sorted.getElem_le_getElem_of_le (Nat.lt_succ_iff.mp pre)).trans_lt hbe
  | succ d =>
    rcases hr with zero | ⟨hb, hnl⟩
    · cases zero
    · simp only [Nat.add_sub_cancel] at hb hnl
      have ha : max (2 ^ (d + 1) / 2) 1 = 2 ^ d := by
        rw [pow_succ, Nat.mul_div_cancel _ two_pos]
        exact max_eq_left Nat.one_le_two_pow
      rw [ha]
      refine ⟨hb.le, ?_⟩
      rcases eq_or_lt_of_le hnl with hs | hl
      · exact .inr (by rw [getElem?_eq_getElem hb, hs])
      · exact .inl fun pos hin pre =>
          (sorted.getElem_le_getElem_of_le pre.le).trans_lt hl

theorem jumpSearchFrom_spec (hin : index ≤ slice.length)
    (hp : Passed key slice index ∨ slice[index]? = some key) :
    Found key slice (jumpSearchFrom key slice index) := by
  fun_induction jumpSearchFrom key slice index with
  | case1 index he hs =>
    refine ⟨hp.resolve_right fun hf => ?_, fun pos hb hpo => ?_, hin⟩
    · rw [getElem?_eq_getElem he] at hf
      exact absurd hs (by rw [Option.some.inj hf]; exact lt_irrefl _)
    · exact hs.trans_le (sorted.getElem_le_getElem_of_le hpo)
  | case2 index he hns heq =>
    change slice[index]? = some key
    rw [getElem?_eq_getElem he, heq]
  | case3 index he hns ne ih =>
    have hbe : slice[index] < key := lt_of_le_of_ne (not_lt.mp hns) ne
    obtain ⟨hb, hs⟩ := passed_jump sorted he hbe
    exact ih hb hs
  | case4 index ho =>
    refine ⟨hp.resolve_right fun hf => ?_,
      fun pos hb hpo => absurd (hpo.trans_lt hb) ho, hin⟩
    exact ho (List.getElem?_eq_some_iff.mp hf).1

/-- **A search by jumps in a sorted list** finds the key, or the place where it is
missing. -/
theorem jumpSearch_spec (key : α) : Found key slice (jumpSearch key slice) :=
  jumpSearchFrom_spec sorted (Nat.zero_le _)
    (.inl fun _ _ pre => absurd pre (Nat.not_lt_zero _))

end

/-- After a key was found, larger keys are behind it. -/
theorem Found.mem_drop_succ (sorted : slice.SortedLT) (hf : Found key slice (.ok index))
    (hl : key < later) : later ∈ slice.drop (index + 1) ↔ later ∈ slice := by
  obtain ⟨her, he⟩ := List.getElem?_eq_some_iff.mp hf
  refine mem_drop_of_passed (fun pos hin pre => ?_) hl
  exact he ▸ sorted.sortedLE.getElem_le_getElem_of_le (Nat.lt_succ_iff.mp pre)

end Foundation
