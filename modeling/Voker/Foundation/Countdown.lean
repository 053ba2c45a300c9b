import Mathlib.Data.List.Nodup

/-!
# Counting down

A counter starts at the number of items something waits for and goes down by one whenever
one of them is done.  It is described by the number of items that are *outstanding*.
-/

namespace Foundation

open List

universe u

variable {α : Type u} [DecidableEq α]

/-- How many of the awaited items are not done. -/
def outstanding (awaited done : List α) : ℕ := awaited.countP (· ∉ done)

@[simp]
theorem outstanding_nil (awaited : List α) : outstanding awaited [] = awaited.length := by
  simp [outstanding]

variable {done awaited : List α} {item : α}

/-- Nothing is outstanding exactly if everything is done. -/
theorem outstanding_eq_zero : outstanding awaited done = 0 ↔ ∀ item ∈ awaited, item ∈ done := by
  simp [outstanding, countP_eq_zero]

/-- What nobody awaits does not count. -/
theorem outstanding_append_of_notMem (ha : item ∉ awaited) (done : List α) :
    outstanding awaited (done ++ [item]) = outstanding awaited done := by
  refine countP_congr fun o mem => ?_
  have ne : o ≠ item := fun hs => ha (hs ▸ mem)
  simp [ne]

/-- **One item done is one item less.** -/
theorem outstanding_append_of_mem (hd : awaited.Nodup) (mem : item ∈ awaited)
    (hf : item ∉ done) :
    outstanding awaited done = outstanding awaited (done ++ [item]) + 1 := by
  unfold outstanding
  induction awaited with
  | nil => cases mem
  | cons one rest ih =>
    obtain ⟨ha, ho⟩ := nodup_cons.mp hd
    by_cases hs : one = item
    · subst hs
      have he := outstanding_append_of_notMem ha done
      unfold outstanding at he
      rw [countP_cons_of_pos (by simpa using hf), countP_cons_of_neg (by simp), he]
    · have hc := ih ho ((mem_cons.mp mem).resolve_left (Ne.symm hs))
      simp only [countP_cons, hc, mem_append, mem_singleton, hs, or_false]
      omega

/-- One more item done takes one off the counters of those who wait for it. -/
theorem outstanding_append (hd : awaited.Nodup) (hf : item ∉ done) :
    outstanding awaited (done ++ [item]) =
      if item ∈ awaited then outstanding awaited done - 1 else outstanding awaited done := by
  split
  · next mem =>
    rw [outstanding_append_of_mem hd mem hf]
    rfl
  · next ha => exact outstanding_append_of_notMem ha done

/-- An awaited item that is not done is outstanding. -/
theorem outstanding_pos (mem : item ∈ awaited) (hf : item ∉ done) :
    0 < outstanding awaited done :=
  Nat.pos_of_ne_zero fun hn => hf (outstanding_eq_zero.mp hn item mem)

end Foundation
