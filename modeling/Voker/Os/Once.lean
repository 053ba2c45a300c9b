import Voker.Foundation.Runs
import Mathlib.Logic.Function.Basic

/-!
# The spinning `Once`

Any number of calls race on one state byte.  This module proves that **closures run one at a
time and at most one of them returns**; a call returns only after that, and panics by itself
only after a closure has panicked.
-/

namespace Voker.Os

open Foundation Function

/-- The values of the state byte. -/
inductive OnceByte where
  | incomplete
  | running
  | poisoned
  | complete
  deriving DecidableEq

/-- The calls.  `wait` and `wait_force` run no closure of their own. -/
inductive OnceCall where
  | callOnce
  | callOnceForce
  | wait
  | waitForce

def OnceCall.ignorePoisoning : OnceCall → Bool
  | callOnceForce | waitForce => true
  | _ => false

def OnceCall.hasClosure : OnceCall → Bool
  | callOnce | callOnceForce => true
  | _ => false

/-- Where a call is. -/
inductive OncePc where
  /-- `is_completed` is next. -/
  | entered
  /-- The load before the loop is next. -/
  | starting
  | looping (state : OnceByte)
  | inClosure
  | returned
  /-- The call has panicked by itself. -/
  | panicked
  /-- Its closure has panicked. -/
  | unwound

/-- The byte, the calls, and how many closures have returned and how many have panicked. -/
structure OnceSystem (ι : Type) where
  byte : OnceByte
  pc : ι → OncePc
  returns : ℕ
  panics : ℕ

/-- The atomic steps. -/
inductive OnceAction (ι : Type) where
  /-- The next access of a call to the byte.  A weak exchange may fail. -/
  | access (call : ι) (fails : Bool)
  /-- The closure of a call ends, and the guard stores its outcome. -/
  | finish (call : ι) (panics : Bool)

namespace OnceSystem

variable {ι : Type}

/-- `new`; no call has begun. -/
def new : OnceSystem ι := ⟨.incomplete, fun _ => .entered, 0, 0⟩

/-- **The invariant**: what the place of a call says about the byte and the counts. -/
structure Inv (system : OnceSystem ι) : Prop where
  alone : ∀ one two, system.pc one = .inClosure → system.pc two = .inClosure → one = two
  running : ∀ call, system.pc call = .inClosure → system.byte = .running
  returns : system.returns = if system.byte = .complete then 1 else 0
  panics : system.byte = .poisoned → 0 < system.panics
  done : ∀ call, system.pc call = .returned ∨ system.pc call = .looping .complete →
    system.byte = .complete
  poisoned : ∀ call, system.pc call = .panicked ∨ system.pc call = .looping .poisoned →
    0 < system.panics

variable [DecidableEq ι]

/-- A call moves on. -/
abbrev goto (system : OnceSystem ι) (call : ι) (pc : OncePc) : OnceSystem ι :=
  { system with pc := update system.pc call pc }

/-- One step.  The loops of `call` and of `inner_wait` differ in the exchange only. -/
def step (kind : ι → OnceCall) : OnceAction ι → OnceSystem ι → Option (OnceSystem ι)
  | .access call fails, system =>
    match system.pc call with
    | .entered =>
      if system.byte = .complete then some (system.goto call .returned)
      else some (system.goto call .starting)
    | .starting => some (system.goto call (.looping system.byte))
    | .looping state =>
      if state = .complete then some (system.goto call .returned)
      else if state = .poisoned ∧ (kind call).ignorePoisoning = false then
        some (system.goto call .panicked)
      else if (kind call).hasClosure ∧ state ≠ .running ∧ system.byte = state ∧ fails = false then
        some { system.goto call .inClosure with byte := .running }
      else some (system.goto call (.looping system.byte))
    | _ => none
  | .finish call panics, system =>
    match system.pc call with
    | .inClosure => some <| if panics then
        { system.goto call .unwound with byte := .poisoned, panics := system.panics + 1 }
      else { system.goto call .returned with byte := .complete, returns := system.returns + 1 }
    | _ => none

variable {system : OnceSystem ι} {kind : ι → OnceCall}

/-- Every step keeps the invariant: the byte becomes `running` only when no closure runs, and
leaves it only at the end of the one that does. -/
theorem inv_step (ac : OnceAction ι) (system next : OnceSystem ι) (inv : system.Inv)
    (hs : step kind ac system = some next) : next.Inv := by
  obtain ⟨ha, running, hre, hpa, hd, hp⟩ := inv
  cases ac with
  | access call f =>
    simp only [step] at hs
    split at hs
    · -- the fast path
      split at hs <;> cases hs <;> constructor <;> grind [update_apply]
    · cases hs
      constructor <;> grind [update_apply]
    · split at hs
      · cases hs
        constructor <;> grind [update_apply]
      · split at hs
        · cases hs
          constructor <;> grind [update_apply]
        · -- the exchange finds a byte that is not `running`, so nobody is in a closure
          split at hs <;> cases hs <;> constructor <;> grind [update_apply]
    · cases hs
  | finish call p =>
    simp only [step] at hs
    split at hs
    · -- the byte is `running`, so no call has returned
      cases hs
      split <;> constructor <;> grind [update_apply]
    · cases hs

/-- **One closure returns**, and calls wait for it. -/
theorem run_once {actions : List (OnceAction ι)} (ran : run (step kind) actions new = some system) :
    (∀ one two, system.pc one = .inClosure → system.pc two = .inClosure → one = two) ∧
      system.returns ≤ 1 ∧ (∀ call, system.pc call = .returned → system.returns = 1) ∧
      ∀ call, system.pc call = .panicked → 0 < system.panics := by
  have hs : (new : OnceSystem ι).Inv := by constructor <;> simp [new]
  have inv : system.Inv := run_invariant inv_step hs ran
  refine ⟨inv.alone, ?_, fun call hr => ?_, fun call hp => ?_⟩
  · rw [inv.returns]
    split <;> decide
  · rw [inv.returns, if_pos (inv.done call (Or.inl hr))]
  · exact inv.poisoned call (Or.inl hp)

/-- A closure panics, another one is forced and returns, and `wait` panics in between. -/
theorem run_once_forced : ∃ system, run (step fun call : Fin 3 => [.callOnce, .wait,
    .callOnceForce].getD call .wait) [.access 0 false, .access 0 false, .access 0 false,
    .finish 0 true, .access 1 true, .access 1 true, .access 1 true, .access 2 true,
    .access 2 true, .access 2 true, .access 2 false, .finish 2 false] new = some system ∧
      system.returns ≤ 1 :=
  exists_of_isSome (by decide) fun _ ran => (run_once ran).2.1

/-- **When a call has returned, no closure runs any more.** -/
theorem run_settled (actions : List (OnceAction ι)) : Throughout (step kind) (fun system =>
    ∀ one two, system.pc one = .returned → system.pc two ≠ .inClosure) actions new := by
  refine throughout_of_invariant inv_step (fun system inv one two hr hru => ?_) ?_
  · cases (inv.running two hru).symm.trans (inv.done one (.inl hr))
  · constructor <;> simp [new]

end OnceSystem

end Voker.Os
