import Voker.Ecs.Component.Components
import Voker.Foundation.Runs

/-!
# What a query accesses

`AccessParam` summarises what one query does to the entities it visits: it holds the
entity as a whole (`EntityRef`, `EntityMut`), or it reads and writes single components.
The `set_*` functions refuse an access that conflicts with an earlier one.

**A summary that was built by accepted calls describes them exactly** (`declare_spec`).
Merging two summaries, however, keeps `entity_ref` only if both have it: the merged
summary names the same components, but **it forgets that one of the two reads all of
them** (`mergeWith_spec`).
-/

namespace Voker.Ecs

open Foundation Finset

/-- `AccessParam`. -/
structure AccessParam where
  entityMut : Bool
  entityRef : Bool
  reading : Finset ComponentId
  writing : Finset ComponentId
  deriving DecidableEq

namespace AccessParam

/-- `new`. -/
def new : AccessParam := ⟨false, false, ∅, ∅⟩

section

variable (access : AccessParam)

/-- `can_entity_ref`. -/
def canEntityRef : Bool :=
  !access.entityMut && decide (access.writing = ∅)

/-- `can_entity_mut`. -/
def canEntityMut : Bool :=
  !access.entityMut && !access.entityRef && decide (access.reading = ∅) &&
    decide (access.writing = ∅)

section

variable (id : ComponentId)

/-- `can_reading`. -/
def canReading : Bool :=
  !access.entityMut && decide (id ∉ access.writing)

/-- `can_writing`. -/
def canWriting : Bool :=
  !access.entityMut && !access.entityRef && decide (id ∉ access.reading)

/-- `set_entity_ref`.  A refused call still changes the summary, for the error message. -/
def setEntityRef : Bool × AccessParam :=
  if access.canEntityRef then
    (true, { access with entityRef := true, reading := ∅ })
  else
    (false, { access with entityRef := true })

/-- `set_entity_mut`. -/
def setEntityMut : Bool × AccessParam :=
  if access.canEntityMut then
    (true, { access with entityMut := true, reading := ∅, writing := ∅ })
  else
    (false, { access with entityMut := true })

/-- `set_reading`. -/
def setReading : Bool × AccessParam :=
  if access.canReading id then
    (true, if access.entityRef then access else { access with reading := insert id access.reading })
  else
    (false, { access with reading := insert id access.reading })

/-- `set_writing`. -/
def setWriting : Bool × AccessParam :=
  (access.canWriting id,
    { access with reading := insert id access.reading, writing := insert id access.writing })

end

/-- `is_read_only`. -/
def isReadOnly : Bool :=
  !access.entityMut && decide (access.writing = ∅)

end

/-- `parallelizable`. -/
def parallelizable (access other : AccessParam) : Bool :=
  if access.entityMut || other.entityMut then
    false
  else if access.entityRef then
    decide (other.writing = ∅)
  else if other.entityRef then
    decide (access.writing = ∅)
  else
    decide (Disjoint access.writing other.reading) && decide (Disjoint other.writing access.reading)

/-- `force_reading`. -/
def forceReading (access : AccessParam) (id : ComponentId) : AccessParam :=
  if !access.entityMut && !access.entityRef then
    { access with reading := insert id access.reading }
  else
    access

/-- `merge_with`. -/
def mergeWith (access other : AccessParam) : AccessParam :=
  let entityMut := access.entityMut || other.entityMut
  let entityRef := access.entityRef && other.entityRef
  if entityMut || entityRef then
    ⟨entityMut, entityRef, ∅, ∅⟩
  else
    ⟨entityMut, entityRef, access.reading ∪ other.reading, access.writing ∪ other.writing⟩

/-! ## The meaning of a summary -/

/-- The summary lets a query write a component of the entities it visits. -/
def Writes (access : AccessParam) (id : ComponentId) : Prop :=
  access.entityMut = true ∨ id ∈ access.writing

/-- The component is named, or the entity held exclusively. -/
def Names (access : AccessParam) (id : ComponentId) : Prop :=
  access.entityMut = true ∨ id ∈ access.reading

/-- The summary lets a query read (or write) a component of the entities it visits. -/
def Reads (access : AccessParam) (id : ComponentId) : Prop :=
  access.Names id ∨ access.entityRef = true

/-- A summary of compatible accesses. -/
structure Valid (access : AccessParam) : Prop where
  held : access.entityMut = true ∨ access.entityRef = true →
    access.reading = ∅ ∧ access.writing = ∅
  exclusive : access.entityMut = true → access.entityRef = false
  writingRead : access.writing ⊆ access.reading

theorem valid_new : new.Valid := ⟨fun _ => ⟨rfl, rfl⟩, fun _ => rfl, subset_rfl⟩

/-- A summary without flags is valid as soon as what it writes it reads. -/
theorem valid_of_sets {r w : Finset ComponentId} (hwr : w ⊆ r) :
    Valid ⟨false, false, r, w⟩ :=
  ⟨fun hf => by simp at hf, fun _ => rfl, hwr⟩

variable {access other : AccessParam}

theorem isReadOnly_iff : access.isReadOnly = true ↔ ∀ id, ¬ access.Writes id := by
  simp only [isReadOnly, Writes, Bool.and_eq_true, Bool.not_eq_true', decide_eq_true_eq, not_or,
    forall_and, Bool.not_eq_true, forall_const, eq_empty_iff_forall_notMem]

/-- **When two summaries are compatible**: neither holds entities exclusively, and
neither writes what the other reads. -/
theorem parallelizable_iff (hv : access.Valid) (hov : other.Valid) :
    access.parallelizable other = true ↔ access.entityMut = false ∧ other.entityMut = false ∧
        ∀ id, (access.Writes id → ¬ other.Reads id) ∧ (other.Writes id → ¬ access.Reads id) := by
  obtain ⟨mutA, refA, ra, wa⟩ := access
  obtain ⟨mutB, refB, rb, wb⟩ := other
  have hea := hv.held
  have heb := hov.held
  cases mutA with
  | true => simp [parallelizable]
  | false =>
    cases mutB with
    | true => simp [parallelizable]
    | false =>
      cases refA with
      | true =>
        obtain ⟨rfl, rfl⟩ := hea (.inr rfl)
        simp [parallelizable, Writes, Reads, Names, eq_empty_iff_forall_notMem]
      | false =>
        cases refB with
        | true =>
          obtain ⟨rfl, rfl⟩ := heb (.inr rfl)
          simp [parallelizable, Writes, Reads, Names, eq_empty_iff_forall_notMem]
        | false =>
          simp [parallelizable, Writes, Reads, Names, disjoint_left, forall_and]

/-- What merging keeps and what it forgets. -/
structure Merged (access other merged : AccessParam) : Prop where
  valid : merged.Valid
  writes : ∀ id, merged.Writes id ↔ access.Writes id ∨ other.Writes id
  names : ∀ id, merged.Names id ↔ access.Names id ∨ other.Names id
  entityMut : merged.entityMut = true ↔ access.entityMut = true ∨ other.entityMut = true
  entityRef : merged.entityRef = true ↔ access.entityRef = true ∧ other.entityRef = true

theorem mergeWith_spec (hv : access.Valid) (hov : other.Valid) :
    Merged access other (access.mergeWith other) := by
  obtain ⟨mutA, refA, ra, wa⟩ := access
  obtain ⟨mutB, refB, rb, wb⟩ := other
  have hed := hv.held
  have hel := hov.held
  have hea := hv.exclusive
  have heb := hov.exclusive
  dsimp only at hed hel hea heb
  by_cases he : (mutA || mutB) = true
  · have hnr : (refA && refB) = false := by
      rcases Bool.or_eq_true _ _ |>.mp he with one | two
      · rw [hea one, Bool.false_and]
      · rw [heb two, Bool.and_false]
    simp only [mergeWith, he, hnr, Bool.true_or, if_true]
    rw [Bool.or_eq_true] at he
    refine ⟨⟨fun _ => ⟨rfl, rfl⟩, fun _ => rfl, subset_rfl⟩, fun id => ?_, fun id => ?_, ?_, ?_⟩
    · exact iff_of_true (.inl rfl) (he.imp .inl .inl)
    · exact iff_of_true (.inl rfl) (he.imp .inl .inl)
    · exact iff_of_true rfl he
    · rw [← Bool.and_eq_true, hnr]
  · obtain ⟨rfl, rfl⟩ : mutA = false ∧ mutB = false := by simpa using he
    by_cases hs : (refA && refB) = true
    · obtain ⟨rfl, rfl⟩ : refA = true ∧ refB = true := by simpa using hs
      obtain ⟨rfl, rfl⟩ := hed (.inr rfl)
      obtain ⟨rfl, rfl⟩ := hel (.inr rfl)
      exact ⟨⟨fun _ => ⟨rfl, rfl⟩, fun hf => (nomatch hf), subset_rfl⟩,
        by simp [mergeWith, Writes], by simp [mergeWith, Names], by simp [mergeWith],
        by simp [mergeWith]⟩
    · have hnr : (refA && refB) = false := by simpa using hs
      simp only [mergeWith, hnr, Bool.or_false, Bool.false_eq_true, if_false]
      refine ⟨valid_of_sets (union_subset_union hv.writingRead hov.writingRead),
        fun id => ?_, fun id => ?_, by simp, ?_⟩
      · simp [Writes]
      · simp [Names]
      · rw [← Bool.and_eq_true, hnr]

end AccessParam

/-! ## Declared accesses -/

/-- The calls by which the data and the filter of a query declare their accesses. -/
inductive AccessCall where
  | entityRef
  | entityMut
  | reading (id : ComponentId)
  | writing (id : ComponentId)
  | force (id : ComponentId)
  deriving DecidableEq

/-- The result of a `set_*` function that was accepted. -/
def accepted {α : Type} (outcome : Bool × α) : Option α :=
  if outcome.1 then some outcome.2 else none

theorem accepted_eq_some {α : Type} {out : Bool × α} {v : α} :
    accepted out = some v ↔ out = (true, v) := by
  obtain ⟨ve, res⟩ := out
  cases ve <;> simp [accepted]

namespace AccessCall

/-- Declare one access; `none` is a refusal. -/
def declare : AccessCall → AccessParam → Option AccessParam
  | entityRef, access => accepted access.setEntityRef
  | entityMut, access => accepted access.setEntityMut
  | reading id, access => accepted (access.setReading id)
  | writing id, access => accepted (access.setWriting id)
  | force id, access => some (access.forceReading id)

/-- The access a call stands for, on a component of a visited entity. -/
def Reads : AccessCall → ComponentId → Prop
  | entityRef, _ => True
  | entityMut, _ => True
  | reading id, other => other = id
  | writing id, other => other = id
  | force id, other => other = id

/-- The exclusive access a call stands for. -/
def Writes : AccessCall → ComponentId → Prop
  | entityMut, _ => True
  | writing id, other => other = id
  | _, _ => False

end AccessCall

namespace AccessParam

/-- A summary says of the calls that produced it, on top of what an earlier summary says,
neither more nor less. -/
structure Declares (before : AccessParam) (calls : List AccessCall) (access : AccessParam) :
    Prop where
  valid : access.Valid
  reads : ∀ id, access.Reads id ↔ before.Reads id ∨ ∃ call ∈ calls, call.Reads id
  writes : ∀ id, access.Writes id ↔ before.Writes id ∨ ∃ call ∈ calls, call.Writes id
  entityRef : access.entityRef = true ↔ before.entityRef = true ∨ .entityRef ∈ calls

variable {access pre : AccessParam} {calls : List AccessCall}

/-- One accepted call. -/
theorem declares_call {call : AccessCall} (hv : pre.Valid)
    (hd : call.declare pre = some access) : Declares pre [call] access := by
  obtain ⟨hel, he, hwr⟩ := hv
  cases call with
  | entityRef =>
    rw [AccessCall.declare, accepted_eq_some, setEntityRef] at hd
    split at hd
    · next can =>
      simp only [canEntityRef, Bool.and_eq_true, Bool.not_eq_true', decide_eq_true_eq] at can
      cases hd
      refine ⟨⟨fun _ => ⟨rfl, can.2⟩, fun hfl => ?_, by simp [can.2]⟩, fun id => ?_,
        fun id => ?_, by simp⟩
      · simp [can.1] at hfl
      · simp [Reads, AccessCall.Reads]
      · simp [Writes, AccessCall.Writes]
    · cases hd
  | entityMut =>
    rw [AccessCall.declare, accepted_eq_some, setEntityMut] at hd
    split at hd
    · next can =>
      simp only [canEntityMut, Bool.and_eq_true, Bool.not_eq_true', decide_eq_true_eq] at can
      cases hd
      refine ⟨⟨fun _ => ⟨rfl, rfl⟩, fun _ => can.1.1.2, subset_rfl⟩, fun id => ?_,
        fun id => ?_, by simp⟩
      · simp [Reads, Names, AccessCall.Reads]
      · simp [Writes, AccessCall.Writes]
    · cases hd
  | reading t =>
    rw [AccessCall.declare, accepted_eq_some, setReading] at hd
    split at hd
    · next can =>
      simp only [canReading, Bool.and_eq_true, Bool.not_eq_true', decide_eq_true_eq] at can
      split at hd
      · next hfl =>
        cases hd
        refine ⟨⟨hel, he, hwr⟩, fun id => ?_, fun id => ?_, by simp⟩
        · exact iff_of_true (.inr hfl) (.inl (.inr hfl))
        · simp [AccessCall.Writes]
      · next hfl =>
        cases hd
        refine ⟨⟨fun hf => ?_, he,
          hwr.trans (subset_insert _ _)⟩, fun id => ?_, fun id => ?_, by simp⟩
        · simp [can.1, hfl] at hf
        · simp [Reads, Names, AccessCall.Reads, hfl, can.1, or_comm]
        · simp [Writes, AccessCall.Writes]
    · cases hd
  | writing t =>
    rw [AccessCall.declare, accepted_eq_some, setWriting, Prod.mk.injEq] at hd
    obtain ⟨can, rfl⟩ := hd
    simp only [canWriting, Bool.and_eq_true, Bool.not_eq_true', decide_eq_true_eq] at can
    refine ⟨⟨fun hf => ?_, he, insert_subset_insert _ hwr⟩,
      fun id => ?_, fun id => ?_, by simp⟩
    · simp [can.1] at hf
    · simp [Reads, Names, AccessCall.Reads, can.1, or_comm]
    · simp [Writes, AccessCall.Writes, can.1, or_comm]
  | force t =>
    rw [AccessCall.declare, Option.some.injEq, forceReading] at hd
    split at hd
    · next hfr =>
      simp only [Bool.and_eq_true, Bool.not_eq_true'] at hfr
      subst hd
      refine ⟨⟨fun hf => ?_, he,
        hwr.trans (subset_insert _ _)⟩, fun id => ?_, fun id => ?_, by simp⟩
      · simp [hfr] at hf
      · simp [Reads, Names, AccessCall.Reads, hfr, or_comm]
      · simp [Writes, AccessCall.Writes]
    · next hf =>
      subst hd
      have all : ∀ id, pre.Reads id := fun id => by
        simp only [Bool.and_eq_true, Bool.not_eq_true', not_and_or, Bool.not_eq_false] at hf
        exact hf.imp .inl fun hfl => hfl
      refine ⟨⟨hel, he, hwr⟩, fun id => ?_, fun id => ?_, by simp⟩
      · exact iff_of_true (all id) (.inl (all id))
      · simp [AccessCall.Writes]

/-- The summary a list of calls builds; `none` if a call is refused. -/
def declare (calls : List AccessCall) : Option AccessParam := run AccessCall.declare calls new

/-- The calls of a query that are all accepted, on top of a valid summary. -/
theorem declares_run (hv : pre.Valid)
    (hd : run AccessCall.declare calls pre = some access) : Declares pre calls access := by
  induction calls generalizing pre with
  | nil =>
    cases hd
    exact ⟨hv, by simp, by simp, by simp⟩
  | cons call calls ih =>
    rw [run_cons, Option.bind_eq_some_iff] at hd
    obtain ⟨next, fst, hr⟩ := hd
    have one := declares_call hv fst
    have hl := ih one.valid hr
    refine ⟨hl.valid, fun id => ?_, fun id => ?_, ?_⟩
    · rw [hl.reads, one.reads]
      simp [or_assoc]
    · rw [hl.writes, one.writes]
      simp [or_assoc]
    · rw [hl.entityRef, one.entityRef]
      simp [or_assoc]

/-- **A summary built by accepted calls describes them exactly.** -/
theorem declare_spec (hd : declare calls = some access) : access.Valid ∧
      (∀ id, access.Reads id ↔ ∃ call ∈ calls, call.Reads id) ∧
      (∀ id, access.Writes id ↔ ∃ call ∈ calls, call.Writes id) ∧
      (access.entityRef = true ↔ .entityRef ∈ calls) := by
  obtain ⟨hv, hr, hw, her⟩ := declares_run valid_new hd
  refine ⟨hv, fun id => ?_, fun id => ?_, ?_⟩
  · rw [hr]
    simp [Reads, Names, new]
  · rw [hw]
    simp [Writes, new]
  · rw [her]
    simp [new]

end AccessParam

end Voker.Ecs
