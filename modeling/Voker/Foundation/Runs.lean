import Mathlib.Data.List.Basic

/-!
# Runs of a labelled system

A system takes labelled steps; a step either leads to a next state or is not
possible.  This module packages the one induction every safety argument needs:
**what holds initially and is preserved by every step holds after every run**.
-/

namespace Foundation

open List Option

universe u v

variable {α : Type u} {σ : Type v}

/-- Take the steps of a list of labels, one after the other. -/
def run (step : α → σ → Option σ) : List α → σ → Option σ
  | [], state => some state
  | label :: labels, state => (step label state).bind (run step labels)

section

variable (step : α → σ → Option σ)

@[simp]
theorem run_nil (s : σ) : run step [] s = some s := rfl

theorem run_cons (l : α) (labels : List α) (s : σ) :
    run step (l :: labels) s = (step l s).bind (run step labels) := rfl

/-- A run over a concatenation is two runs. -/
theorem run_append (one two : List α) (s : σ) : run step (one ++ two) s =
      (run step one s).bind (run step two) := by
  induction one generalizing s with
  | nil => rfl
  | cons l labels ih =>
    rw [cons_append, run_cons, run_cons]
    cases step l s with
    | none => rfl
    | some next => exact ih next

end

/-- **The evaluation rule.**  A run that can be computed ends, in a state that passes a test. -/
theorem exists_of_any {out : Option σ} {Test Holds : σ → Prop} [DecidablePred Test]
    (hp : out.any (fun s => Test s) = true)
    (ho : ∀ s, out = some s → Test s → Holds s) :
    ∃ s, out = some s ∧ Holds s := by
  obtain ⟨s, ran, ht⟩ := (any_eq_true _ _).mp hp
  exact ⟨s, ran, ho s ran (of_decide_eq_true ht)⟩

theorem exists_of_isSome {out : Option σ} {Holds : σ → Prop} (he : out.isSome = true)
    (ho : ∀ s, out = some s → Holds s) : ∃ s, out = some s ∧ Holds s :=
  have ⟨s, ran⟩ := isSome_iff_exists.mp he
  ⟨s, ran, ho s ran⟩

/-! ## Properties along a run -/

/-- A property of every state a run passes through. -/
def Throughout (step : α → σ → Option σ) (Holds : σ → Prop) : List α → σ → Prop
  | [], state => Holds state
  | label :: labels, state =>
    Holds state ∧ ∀ next, step label state = some next → Throughout step Holds labels next

/-- A property of every step of a run. -/
def EachStep (step : α → σ → Option σ) (Meets : α → σ → σ → Prop) : List α → σ → Prop
  | [], _ => True
  | label :: labels, state => ∀ next, step label state = some next →
      Meets label state next ∧ EachStep step Meets labels next

section

variable {step : α → σ → Option σ} {Meets : α → σ → σ → Prop}

/-- What is true of all steps is true of those of a run. -/
theorem eachStep_of_forall (all : ∀ l s next, Meets l s next) (labels : List α)
    (s : σ) : EachStep step Meets labels s := by
  induction labels generalizing s with
  | nil => trivial
  | cons l labels ih => exact fun next _ => ⟨all l s next, ih next⟩

variable {labels : List α}

/-- An invariant that the steps keep if they meet a condition. -/
theorem EachStep.invariant {Inv : σ → Prop}
    (hp : ∀ l s next, Inv s → step l s = some next →
      Meets l s next → Inv next) {s f : σ} (he : EachStep step Meets labels s)
    (hi : Inv s) (ran : run step labels s = some f) : Inv f := by
  induction labels generalizing s with
  | nil =>
    cases ran
    exact hi
  | cons l labels ih =>
    rw [run_cons, bind_eq_some_iff] at ran
    obtain ⟨next, hs, hr⟩ := ran
    obtain ⟨hm, hl⟩ := he next hs
    exact ih hl (hp l s next hi hs hm) hr

/-- **The invariant rule.** -/
theorem run_invariant {Inv : σ → Prop}
    (hp : ∀ l s next, Inv s → step l s = some next → Inv next)
    {s f : σ} (hi : Inv s) (ran : run step labels s = some f) :
    Inv f :=
  EachStep.invariant (fun l s next ho hs _ =>
    hp l s next ho hs)
    (eachStep_of_forall (fun _ _ _ => trivial) labels s) hi ran

/-- Steps that meet a condition keep an invariant and meet another one. -/
theorem EachStep.imp_of_invariant {Inv : σ → Prop} {More : α → σ → σ → Prop}
    (hp : ∀ l s next, Inv s → step l s = some next →
      Meets l s next → Inv next ∧ More l s next) {s : σ}
    (he : EachStep step Meets labels s) (hi : Inv s) :
    EachStep step More labels s := by
  induction labels generalizing s with
  | nil => trivial
  | cons l labels ih =>
    intro next hs
    obtain ⟨hm, hl⟩ := he next hs
    obtain ⟨hn, hr⟩ := hp l s next hi hs hm
    exact ⟨hr, ih hl hn⟩

/-- The steps of a run are put to a test. -/
def allSteps (step : α → σ → Option σ) (test : α → σ → σ → Bool) : List α → σ → Bool
  | [], _ => true
  | label :: labels, state => (step label state).all fun next =>
      test label state next && allSteps step test labels next

theorem eachStep_of_allSteps [∀ label state next, Decidable (Meets label state next)] {state : σ}
    (ht : allSteps step (fun label state next => Meets label state next) labels state = true) :
    EachStep step Meets labels state := by
  induction labels generalizing state with
  | nil => trivial
  | cons label labels ih =>
    intro next hs
    rw [allSteps, hs, all_some, Bool.and_eq_true] at ht
    exact ⟨of_decide_eq_true ht.1, ih ht.2⟩

/-- What follows from an invariant holds throughout. -/
theorem throughout_of_invariant {Inv Holds : σ → Prop}
    (hp : ∀ l s next, Inv s → step l s = some next → Inv next)
    (hf : ∀ s, Inv s → Holds s) {s : σ} (hi : Inv s) :
    Throughout step Holds labels s := by
  induction labels generalizing s with
  | nil => exact hf s hi
  | cons l labels ih =>
    exact ⟨hf s hi, fun next hs => ih (hp l s next hi hs)⟩

/-- **The rule for exact conditions.**  If, as long as a property holds, a step keeps it
exactly if it meets a condition, then the property holds throughout a run exactly if each
step meets the condition.  Only the labels of the run matter. -/
theorem throughout_iff_eachStep_of_mem {Inv Holds : σ → Prop}
    (hp : ∀ l ∈ labels, ∀ s next, Inv s → step l s = some next → Inv next)
    (exact_step : ∀ l ∈ labels, ∀ s next, Inv s → Holds s →
      step l s = some next → (Holds next ↔ Meets l s next)) {s : σ}
    (hi : Inv s) (ho : Holds s) :
    Throughout step Holds labels s ↔ EachStep step Meets labels s := by
  induction labels generalizing s with
  | nil => exact iff_of_true ho trivial
  | cons l labels ih =>
    have ih := @ih (fun o mem => hp o (mem_cons_of_mem _ mem))
      (fun o mem => exact_step o (mem_cons_of_mem _ mem))
    have hp := hp l mem_cons_self
    have he := exact_step l mem_cons_self
    constructor
    · rintro ⟨-, hl⟩ next hs
      have hk : Holds next := by
        have hr := hl next hs
        cases labels with
        | nil => exact hr
        | cons _ _ => exact hr.1
      exact ⟨(he s next hi ho hs).mp hk, (ih (hp s next hi hs) hk).mp (hl next hs)⟩
    · refine fun hm => ⟨ho, fun next hs => ?_⟩
      obtain ⟨hm, hr⟩ := hm next hs
      have hk := (he s next hi ho hs).mpr hm
      exact (ih (hp s next hi hs) hk).mpr hr

theorem throughout_iff_eachStep {Inv Holds : σ → Prop}
    (hp : ∀ l s next, Inv s → step l s = some next → Inv next)
    (exact_step : ∀ l s next, Inv s → Holds s →
      step l s = some next → (Holds next ↔ Meets l s next)) {s : σ}
    (hi : Inv s) (ho : Holds s) :
    Throughout step Holds labels s ↔ EachStep step Meets labels s :=
  throughout_iff_eachStep_of_mem (fun l _ => hp l) (fun l _ => exact_step l) hi ho

/-- What holds at the end of a run exactly if it held before and each step meets a
condition. -/
theorem run_iff_eachStep {Inv Holds : σ → Prop}
    (hp : ∀ l s next, Inv s → step l s = some next → Inv next)
    (exact_step : ∀ l s next, Inv s → step l s = some next →
      (Holds next ↔ Holds s ∧ Meets l s next)) {s f : σ} (hi : Inv s)
    (ran : run step labels s = some f) :
    Holds f ↔ Holds s ∧ EachStep step Meets labels s := by
  induction labels generalizing s with
  | nil =>
    cases ran
    exact (and_iff_left trivial).symm
  | cons l labels ih =>
    rw [run_cons, bind_eq_some_iff] at ran
    obtain ⟨next, hs, hr⟩ := ran
    rw [ih (hp l s next hi hs) hr,
      exact_step l s next hi hs, and_assoc]
    refine and_congr_right fun _ => ⟨fun hb o hsa => ?_, fun he => he next hs⟩
    obtain rfl := some.inj (hs.symm.trans hsa)
    exact hb

end

/-! ## Runs that end -/

/-- **Steps that gain something, of which there is only so much to gain, or else take effort,
come to an end.** -/
theorem acc_of_gain {rel : σ → σ → Prop} {Inv : σ → Prop} {g effort : σ → ℕ} {l : ℕ}
    (hk : ∀ s next, Inv s → rel next s → Inv next)
    (hb : ∀ s, Inv s → g s ≤ l)
    (hm : ∀ s next, Inv s → rel next s →
      g s < g next ∨ g next = g s ∧ effort next < effort s)
    {s : σ} (inv : Inv s) : Acc rel s := by
  -- the outer induction is on what is left to gain, the inner one on the effort
  induction open_ : l - g s using Nat.strongRecOn generalizing s with
  | ind open_ hmo =>
    induction left : effort s using Nat.strongRecOn generalizing s with
    | ind left hl =>
      refine ⟨s, fun next hr => ?_⟩
      have hp := hk s next inv hr
      have hli := hb next hp
      rcases hm s next inv hr with gain | ⟨hs, hsh⟩
      · exact hmo (l - g next) (by omega) hp rfl
      · exact hl (effort next) (by omega) hp (by rw [hs, open_]) rfl

end Foundation
