import Mathlib.Data.List.Basic

/-!
# Cursors

A cursor is asked for its next item until it has none.  A call may fail.  The rule below
says what has to be known of one call to know the whole output: **what the cursor still
has to yield, as a list**.
-/

namespace Foundation

universe u v w

variable {σ : Type u} {ε : Type v} {α : Type w}

/-- Asking again and again yields exactly these items and then none, without failure. -/
inductive Drains (next : σ → Except ε (Option α × σ)) : σ → List α → Prop where
  | done {state after : σ} (outcome : next state = .ok (none, after)) : Drains next state []
  | item {state after : σ} {item : α} {items : List α}
      (outcome : next state = .ok (some item, after)) (rest : Drains next after items) :
      Drains next state (item :: items)

variable {next : σ → Except ε (Option α × σ)}

/-- There is only one output. -/
theorem Drains.unique {s : σ} {fst snd : List α} (one : Drains next s fst)
    (two : Drains next s snd) : fst = snd := by
  induction one generalizing snd with
  | done out =>
    cases two with
    | done _ => rfl
    | item ho _ => cases out.symm.trans ho
  | item out _ ih =>
    cases two with
    | done ho => cases out.symm.trans ho
    | item ho hr =>
      cases out.symm.trans ho
      rw [ih hr]

end Foundation
