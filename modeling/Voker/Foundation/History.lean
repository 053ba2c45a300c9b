import Mathlib.Data.List.Basic

/-!
# Histories

A history is a list of events, the oldest first.  It is *justified* if every event has its
reason in the events before it.
-/

namespace Foundation

open List

universe u

variable {α : Type u}

/-- Every event has its reason in what came before. -/
def Justified (reason : List α → α → Prop) (history : List α) : Prop :=
  ∀ (before : List α) (event : α) (after : List α),
    history = before ++ event :: after → reason before event

variable {reason : List α → α → Prop} {history : List α}

theorem justified_nil : Justified reason [] := by
  intro pre e post hs
  simp at hs

/-- A history grows by events that have their reason in it. -/
theorem Justified.append (hj : Justified reason history) {e : α}
    (new : reason history e) : Justified reason (history ++ [e]) := by
  intro pre o post hs
  rcases eq_nil_or_concat post with rfl | ⟨rest, last, rfl⟩
  · obtain ⟨rfl, hsa⟩ := append_inj' hs rfl
    obtain ⟨rfl, -⟩ := List.cons.inj hsa
    exact new
  · rw [concat_eq_append, ← cons_append, ← append_assoc] at hs
    obtain ⟨he, -⟩ := append_inj' hs rfl
    exact hj pre o rest he

end Foundation
