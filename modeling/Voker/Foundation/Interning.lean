import Mathlib.Data.List.Sort
import Mathlib.Data.List.Destutter

/-!
# Interning

An interning table numbers its keys in the order of their registration and keeps an
index from keys to numbers.  **Registering only keys that the index does not know keeps
the index the exact inverse of the numbering**, so equal keys have equal numbers.

Sets are interned through a canonical representative, the strictly sorted list of their
elements: sort, then drop repetitions.
-/

namespace Foundation

open List Function Option

universe u

section Index

variable {κ : Type u} {α : Type u} {pre post : List α} {i : ℕ}

/-- What is numbered keeps its number when a list grows. -/
theorem getElem?_eq_grow (hg : pre <+: post) (hin : i < pre.length) : post[i]? = pre[i]? := by
  obtain ⟨rest, rfl⟩ := hg
  exact getElem?_append_left hin

theorem getElem?_grow {x : α} (hg : pre <+: post) (hf : pre[i]? = some x) : post[i]? = some x :=
  (getElem?_eq_grow hg (List.getElem?_eq_some_iff.mp hf).1).trans hf

/-- An entry of an index is the one just made, or was there before. -/
theorem entry_of_update [DecidableEq κ] {β : Type*} {index : κ → Option β} {key o : κ}
    {x y : β} (hf : update index key (some x) o = some y) :
    o = key ∧ y = x ∨ index o = some y := by
  rw [update_apply] at hf
  split at hf
  · next hs => exact .inl ⟨hs, (some.inj hf).symm⟩
  · exact .inr hf

/-- The index inverts the numbering. -/
def Interned (keys : List κ) (index : κ → Option ℕ) : Prop :=
  ∀ key id, index key = some id ↔ keys[id]? = some key

/-- The index answers only with numbers of the key asked for. -/
def IndexSound (keys : List κ) (index : κ → Option ℕ) : Prop :=
  ∀ key id, index key = some id → keys[id]? = some key

variable {keys : List κ} {index : κ → Option ℕ} {key : κ}

theorem Interned.sound (hi : Interned keys index) : IndexSound keys index :=
  fun key id hf => (hi key id).mp hf

/-- Equal keys have equal numbers. -/
theorem Interned.id_unique (hi : Interned keys index) {fst snd : ℕ}
    (one : keys[fst]? = some key) (two : keys[snd]? = some key) : fst = snd := by
  have hf := (hi key fst).mpr one
  rw [(hi key snd).mpr two] at hf
  exact (some.inj hf).symm

theorem Interned.index_eq_none (hi : Interned keys index) :
    index key = none ↔ key ∉ keys := by
  constructor
  · intro hu mem
    obtain ⟨id, hf⟩ := mem_iff_getElem?.mp mem
    rw [(hi key id).mpr hf] at hu
    cases hu
  · intro ha
    cases hk : index key with
    | none => rfl
    | some id => exact absurd (mem_of_getElem? ((hi key id).mp hk)) ha

theorem interned_nil : Interned ([] : List κ) (fun _ => none) := by
  intro key id
  simp

variable [DecidableEq κ]

theorem Interned.push (hi : Interned keys index) (hu : index key = none) :
    Interned (keys ++ [key]) (update index key (some keys.length)) := by
  intro o id
  by_cases hs : o = key
  · subst hs
    rw [update_self, getElem?_append]
    split
    · next hin =>
      refine iff_of_false (fun he => ?_) (fun hf => ?_)
      · have pos : keys.length = id := some.inj he
        omega
      · rw [(hi o id).mpr hf] at hu
        cases hu
    · next ho =>
      rw [getElem?_singleton]
      split
      · exact iff_of_true (congrArg some (by omega)) rfl
      · refine iff_of_false (fun he => ?_) (by simp)
        have pos : keys.length = id := some.inj he
        omega
  · rw [update_of_ne hs, hi o id, getElem?_append]
    split
    · rfl
    · next ho =>
      rw [getElem?_eq_none (Nat.le_of_not_lt ho), getElem?_singleton]
      split
      · exact iff_of_false (by simp) fun he => hs (some.inj he).symm
      · rfl

/-- Registering a key again moves the index to its newest number. -/
theorem IndexSound.push (hs : IndexSound keys index) (key : κ) :
    IndexSound (keys ++ [key]) (update index key (some keys.length)) := by
  intro o id hf
  rcases entry_of_update hf with ⟨rfl, rfl⟩ | hf
  · exact getElem?_concat_length
  · exact getElem?_grow (prefix_append _ _) (hs o id hf)

end Index

/-! ## Canonical lists -/

section Canonical

variable {α : Type u} [LinearOrder α]

/-- Sort a list and drop repetitions. -/
def sortDedup (items : List α) : List α :=
  (items.insertionSort (· ≤ ·)).destutter (· ≠ ·)

omit [LinearOrder α] in
theorem mem_destutter_ne [DecidableEq α] {it : List α} {item : α} :
    item ∈ it.destutter (· ≠ ·) ↔ item ∈ it := by
  refine ⟨fun mem => (destutter_sublist _ _).subset mem, fun mem => ?_⟩
  cases it with
  | nil => exact mem
  | cons head rest =>
    rw [destutter_cons']
    induction rest generalizing head with
    | nil => exact mem
    | cons next rest ih =>
      rw [destutter'_cons]
      split
      · rcases mem_cons.mp mem with fst | hl
        · exact mem_cons.mpr (.inl fst)
        · exact mem_cons_of_mem _ (ih next hl)
      · next hr =>
        have he : head = next := not_not.mp hr
        refine ih head ?_
        rcases mem_cons.mp mem with fst | hl
        · exact mem_cons.mpr (.inl fst)
        · rwa [he]

@[simp]
theorem mem_sortDedup {it : List α} {item : α} : item ∈ sortDedup it ↔ item ∈ it := by
  unfold sortDedup
  rw [mem_destutter_ne, mem_insertionSort]

theorem sortedLT_sortDedup (it : List α) : (sortDedup it).SortedLT := by
  have hs : ((it.insertionSort (· ≤ ·)).destutter (· ≠ ·)).Pairwise (· ≤ ·) :=
    (pairwise_insertionSort _ it).sublist (destutter_sublist _ _)
  have hd := isChain_iff_getElem.mp (isChain_destutter (· ≠ ·) (it.insertionSort (· ≤ ·)))
  have ho := isChain_iff_getElem.mp hs.isChain
  rw [sortedLT_iff_isChain, isChain_iff_getElem]
  exact fun index hin => lt_of_le_of_ne (ho index hin) (hd index hin)

end Canonical

end Foundation
