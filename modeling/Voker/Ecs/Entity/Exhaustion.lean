import Voker.Ecs.Entity.Allocator

/-!
# Running out of fresh ids

`FreshAllocator` advances its counter before it checks for exhaustion.  A call that
panics with *too many entities* has therefore moved the counter already, past
`u32::MAX` and around to a small value.  A program that catches the panic, or lets
it happen on another thread, allocates from that value on.

This module follows the counter across such panics.  The number of ids requested so
far determines it (`nextId_run`), and from it **exactly the sequences are found in
which no call returns a reserved or a live id**: those in which every call that asks
for ids comes before the counter has gone around, or panics itself
(`WithinRange`).
-/

namespace Voker.Ecs

open List Option FreshAllocator

/-- A call on the fresh allocator, or the point where a caller frees an id. -/
inductive FreshCall where
  | alloc
  | allocMany (count : BitVec 32)
  | free (id : EntityId)
  deriving DecidableEq

namespace FreshCall

/-- The number of ids a call asks for. -/
def requested : FreshCall → ℕ
  | .alloc => 1
  | .allocMany count => count.toNat
  | .free _ => 0

/-- The ids a call returns, `none` if it panics. -/
def answer (fresh : FreshAllocator) : FreshCall → Option (List EntityId)
  | .alloc => fresh.alloc.1.map fun entity => [entity.id]
  | .allocMany count => (fresh.allocMany count).1.map fun entities => entities.map Entity.id
  | .free _ => some []

/-- Whether an id stays live: only freeing it ends its life. -/
def keeps : FreshCall → EntityId → Bool
  | .free freed, id => decide (id ≠ freed)
  | _, _ => true

/-- The counter after a call, whether it panicked or not. -/
def after (fresh : FreshAllocator) : FreshCall → FreshAllocator
  | .alloc => fresh.alloc.2
  | .allocMany count => (fresh.allocMany count).2
  | .free _ => fresh

end FreshCall

/-- A counter and the ids that were returned and not freed since. -/
structure FreshTrace where
  fresh : FreshAllocator
  live : List EntityId

namespace FreshTrace

/-- A new counter; no id has been returned. -/
def initial : FreshTrace := ⟨new, []⟩

/-- The state after a call.  A caught panic returns nothing. -/
def next (trace : FreshTrace) (call : FreshCall) : FreshTrace :=
  ⟨call.after trace.fresh,
    (call.answer trace.fresh).getD [] ++ trace.live.filter call.keeps⟩

/-- An answer is proper when its ids are distinct, none is `0` or `u32::MAX`, and
none is live. -/
def Proper (live returned : List EntityId) : Prop :=
  returned.Nodup ∧ ∀ id ∈ returned, id.index ≠ 0 ∧ id.index ≠ 2 ^ 32 - 1 ∧ id ∉ live

/-- Every successful call of the sequence gives a proper answer. -/
def AllProper : List FreshCall → FreshTrace → Prop
  | [], _ => True
  | call :: calls, trace =>
    (∀ returned, call.answer trace.fresh = some returned → Proper trace.live returned) ∧
      AllProper calls (trace.next call)

end FreshTrace

/-- With `total` ids requested so far, every call that asks for ids either comes
before the counter has passed `u32::MAX` or runs into the end of the range itself. -/
def WithinRange : ℕ → List FreshCall → Prop
  | _, [] => True
  | total, call :: calls =>
    (call.requested = 0 ∨ total + 1 < 2 ^ 32 ∨
        2 ^ 32 ≤ (total + 1) % 2 ^ 32 + call.requested) ∧
      WithinRange (total + call.requested) calls

namespace FreshCall

/-! ## One call -/

/-- The counter moves by what is requested, also when the call panics. -/
theorem toNat_after (f : FreshAllocator) (call : FreshCall) :
    (call.after f).nextId.toNat = (f.nextId.toNat + call.requested) % 2 ^ 32 := by
  have hb := f.nextId.isLt
  cases call with
  | alloc => rw [after, alloc_eq, BitVec.toNat_add]; rfl
  | allocMany c => rw [after, allocMany_eq, BitVec.toNat_add]; rfl
  | free id => rw [after, requested, Nat.add_zero, Nat.mod_eq_of_lt hb]

/-- A call that asks for ids returns the next ones, unless they reach the end. -/
theorem answer_eq (f : FreshAllocator) (call : FreshCall) : call.answer f =
      if call.requested = 0 ∨ f.nextId.toNat + call.requested < 2 ^ 32 then
        some ((freshEntities f.nextId call.requested).map Entity.id)
      else none := by
  cases call with
  | alloc =>
    rw [answer, alloc_eq, requested]
    by_cases hin : f.nextId.toNat + 1 < 2 ^ 32
    · rw [if_pos hin, if_pos (.inr hin)]
      simp [freshEntities]
    · rw [if_neg hin, if_neg (by omega), map_none]
  | allocMany c =>
    rw [answer, allocMany_eq, requested]
    split
    · rw [map_some]
    · rw [map_none]
  | free id => simp [answer, requested, freshEntities]

end FreshCall

/-- The ids of a fresh range are the indices from its start on. -/
theorem mem_freshEntities {s : BitVec 32} {c : ℕ} (hf : s.toNat + c ≤ 2 ^ 32)
    (id : EntityId) : id ∈ (freshEntities s c).map Entity.id ↔
      s.toNat ≤ id.index ∧ id.index < s.toNat + c := by
  rw [freshEntities_ids, FreshAllocator.mem_ids hf]

theorem nodup_freshEntities {s : BitVec 32} {c : ℕ} (hf : s.toNat + c ≤ 2 ^ 32) :
    ((freshEntities s c).map Entity.id).Nodup := by
  rw [freshEntities_ids]
  exact FreshAllocator.nodup_ids hf

namespace FreshTrace

/-! ## Calls within the range are answered properly -/

/-- The counter after `total` requested ids and, until it has gone around, live ids
are among those. -/
structure Tracks (total : ℕ) (trace : FreshTrace) : Prop where
  counter : trace.fresh.nextId.toNat = (total + 1) % 2 ^ 32
  live : total + 1 < 2 ^ 32 → ∀ id ∈ trace.live, id.index ≤ total

theorem tracks_initial : Tracks 0 initial := by
  refine ⟨by decide, ?_⟩
  intro _ id mem
  exact absurd mem (not_mem_nil)

variable {call : FreshCall} {total : ℕ} {trace : FreshTrace}

/-- Whatever a call returns before the counter goes around is in its own range. -/
theorem Tracks.returned (ht : Tracks total trace) {r : List EntityId}
    (ha : call.answer trace.fresh = some r) (hir : total + 1 < 2 ^ 32) :
    r.Nodup ∧ (call.requested = 0 ∨ total + 1 + call.requested < 2 ^ 32) ∧
      ∀ id, id ∈ r ↔ total < id.index ∧ id.index ≤ total + call.requested := by
  have hc := ht.counter
  rw [Nat.mod_eq_of_lt hir] at hc
  rw [FreshCall.answer_eq] at ha
  obtain ⟨hf, he⟩ := ite_none_right_eq_some.mp ha
  obtain rfl := some.inj he
  rw [hc] at hf
  refine ⟨nodup_freshEntities (by omega), hf, ?_⟩
  intro id
  rw [mem_freshEntities (by omega), hc]
  omega

theorem toNat_next (hc : trace.fresh.nextId.toNat = (total + 1) % 2 ^ 32) (call : FreshCall) :
    (trace.next call).fresh.nextId.toNat = (total + call.requested + 1) % 2 ^ 32 := by
  rw [next, FreshCall.toNat_after, hc]
  omega

theorem Tracks.next (ht : Tracks total trace) (call : FreshCall) :
    Tracks (total + call.requested) (trace.next call) := by
  refine ⟨toNat_next ht.counter call, ?_⟩
  intro hir id mem
  rw [FreshTrace.next, mem_append] at mem
  rcases mem with hf | old
  · cases ha : call.answer trace.fresh with
    | none => simp [ha] at hf
    | some r =>
      obtain ⟨-, -, hr⟩ := ht.returned ha (by omega)
      rw [ha, getD_some, hr] at hf
      exact hf.2
  · have hb := ht.live (by omega) id (mem_filter.mp old).1
    omega

/-- A call within the range is answered properly. -/
theorem Tracks.proper (ht : Tracks total trace)
    (hw : call.requested = 0 ∨ total + 1 < 2 ^ 32 ∨
      2 ^ 32 ≤ (total + 1) % 2 ^ 32 + call.requested)
    {r : List EntityId} (ha : call.answer trace.fresh = some r) :
    Proper trace.live r := by
  by_cases hir : total + 1 < 2 ^ 32
  · obtain ⟨hno, hf, range⟩ := ht.returned ha hir
    refine ⟨hno, ?_⟩
    intro id mem
    have hb := (range id).mp mem
    refine ⟨by omega, by omega, ?_⟩
    intro hil
    have := ht.live hir id hil
    omega
  · -- past the range, the call asks for nothing or panics
    rw [FreshCall.answer_eq, ht.counter] at ha
    obtain ⟨hf, he⟩ := ite_none_right_eq_some.mp ha
    have nothing : call.requested = 0 := by omega
    rw [nothing] at he
    obtain rfl := some.inj he
    exact ⟨nodup_nil, fun id mem => absurd mem not_mem_nil⟩

theorem allProper_of_withinRange (c : List FreshCall) (total : ℕ) (trace : FreshTrace)
    (ht : Tracks total trace) (hw : WithinRange total c) : AllProper c trace := by
  induction c generalizing total trace with
  | nil => trivial
  | cons call c ih =>
    obtain ⟨he, hr⟩ := hw
    exact ⟨fun r ha => ht.proper he ha, ih _ _ (ht.next call) hr⟩

/-! ## Other calls are not -/

/-- When nothing is freed, the ids below some `bound` are live, and the counter is at
that bound or has gone around and is below it. -/
structure Full (total : ℕ) (trace : FreshTrace) (bound : ℕ) : Prop where
  counter : trace.fresh.nextId.toNat = (total + 1) % 2 ^ 32
  live : ∀ id : EntityId, 1 ≤ id.index → id.index < bound → id ∈ trace.live
  first : total + 1 < 2 ^ 32 → bound = total + 1
  around : 2 ^ 32 ≤ total + 1 → trace.fresh.nextId.toNat < bound

theorem full_initial : Full 0 initial 1 := by
  refine ⟨by decide, fun id hl hu => by omega, fun _ => rfl, by decide⟩

/-- A call with a proper answer is within the range. -/
theorem Full.within {b : ℕ} (hf : Full total trace b)
    (hp : ∀ r, call.answer trace.fresh = some r → Proper trace.live r) :
    call.requested = 0 ∨ total + 1 < 2 ^ 32 ∨ 2 ^ 32 ≤ (total + 1) % 2 ^ 32 + call.requested := by
  by_contra hb
  obtain ⟨has, hpa, hfi⟩ : call.requested ≠ 0 ∧ ¬ total + 1 < 2 ^ 32 ∧
      ¬ 2 ^ 32 ≤ (total + 1) % 2 ^ 32 + call.requested := by
    simpa only [not_or] using hb
  rw [← hf.counter] at hfi
  have har := hf.around (by omega)
  -- the call succeeds and starts with the counter's value, which is 0 or live
  have ha := FreshCall.answer_eq trace.fresh call
  rw [if_pos (by omega)] at ha
  obtain ⟨-, hg⟩ := hp _ ha
  have mem : (⟨trace.fresh.nextId⟩ : EntityId) ∈
      (freshEntities trace.fresh.nextId call.requested).map Entity.id := by
    refine (mem_freshEntities (by omega) _).mpr ⟨le_rfl, ?_⟩
    exact Nat.lt_add_of_pos_right (Nat.pos_of_ne_zero has)
  obtain ⟨hn, -, hnl⟩ := hg _ mem
  exact hnl (hf.live _ (Nat.one_le_iff_ne_zero.mpr hn) har)

theorem Full.next {b : ℕ} (hf : Full total trace b) (hnf : ∀ id, call ≠ .free id)
    (hw : call.requested = 0 ∨ total + 1 < 2 ^ 32 ∨
      2 ^ 32 ≤ (total + 1) % 2 ^ 32 + call.requested) :
    ∃ nb, Full (total + call.requested) (trace.next call) nb := by
  have counter := toNat_next hf.counter call
  have hrl : call.requested < 2 ^ 32 := by
    cases call with
    | alloc => decide
    | allocMany c => exact c.isLt
    | free id => exact absurd rfl (hnf id)
  have hk : ∀ id ∈ trace.live, id ∈ (trace.next call).live := by
    intro id mem
    refine mem_append_right _ (mem_filter.mpr ⟨mem, ?_⟩)
    cases call with
    | alloc => rfl
    | allocMany c => rfl
    | free f => exact absurd rfl (hnf f)
  by_cases hs : total + call.requested + 1 < 2 ^ 32
  · -- the call succeeds and its ids become live
    have hbe := hf.first (by omega)
    have hst : trace.fresh.nextId.toNat = total + 1 := by
      rw [hf.counter, Nat.mod_eq_of_lt (by omega)]
    have ha := FreshCall.answer_eq trace.fresh call
    rw [if_pos (by omega)] at ha
    refine ⟨total + call.requested + 1, counter, ?_, fun _ => rfl, fun hp => by omega⟩
    intro id hl hu
    by_cases old : id.index < total + 1
    · exact hk id (hf.live id hl (by omega))
    · refine mem_append_left _ ?_
      rw [ha, getD_some, mem_freshEntities (by omega), hst]
      omega
  · -- the counter goes around, or has gone around before
    refine ⟨b, counter, fun id hl hu => hk id (hf.live id hl hu),
      fun hir => absurd hir hs, fun _ => ?_⟩
    have one := hf.first
    have around := hf.around
    have he := hf.counter
    omega

theorem withinRange_of_allProper (c : List FreshCall) (total b : ℕ)
    (trace : FreshTrace) (hf : Full total trace b)
    (hnf : ∀ id, FreshCall.free id ∉ c) (hp : AllProper c trace) :
    WithinRange total c := by
  induction c generalizing total b trace with
  | nil => trivial
  | cons call c ih =>
    obtain ⟨ha, hr⟩ := hp
    have hw := hf.within ha
    have he : ∀ id, call ≠ .free id := by
      rintro id rfl
      exact hnf id mem_cons_self
    obtain ⟨nb, hfn⟩ := hf.next he hw
    exact ⟨hw, ih _ _ _ hfn (fun id mem => hnf id (mem_cons_of_mem _ mem)) hr⟩

/-- **Exactly the sequences within the range are answered properly.**  Staying within
the range is enough whatever is freed in between; without frees it is also needed. -/
theorem allProper_iff_withinRange (calls : List FreshCall) :
    (WithinRange 0 calls → AllProper calls initial) ∧ ((∀ id, FreshCall.free id ∉ calls) →
        (AllProper calls initial ↔ WithinRange 0 calls)) :=
  ⟨allProper_of_withinRange calls 0 initial tracks_initial,
    fun hnf => ⟨withinRange_of_allProper calls 0 1 initial full_initial hnf,
      allProper_of_withinRange calls 0 initial tracks_initial⟩⟩

/-- A program within the range, with a batch, an empty request and a freed id. -/
theorem allProper_batch : WithinRange 0 [.alloc, .allocMany 5, .free ⟨1⟩, .allocMany 0, .alloc] ∧
      AllProper [.alloc, .allocMany 5, .free ⟨1⟩, .allocMany 0, .alloc] initial :=
  have hw : WithinRange 0 [.alloc, .allocMany 5, .free ⟨1⟩, .allocMany 0, .alloc] := by
    simp [WithinRange, FreshCall.requested]
  ⟨hw, (allProper_iff_withinRange _).1 hw⟩

/-- **One oversized request is enough to issue ids twice.**  After the first entity
has taken id 1, `alloc_many(u32::MAX)` panics and leaves the counter at 1; the next
`alloc` returns id 1 again.  With one id less the counter is left at 0, and the next
`alloc` returns the reserved id 0. -/
theorem caught_panic_reissues : (∃ trace : FreshTrace,
      trace = (initial.next .alloc).next (.allocMany (BitVec.allOnes 32)) ∧
        FreshCall.answer initial.fresh .alloc = some [⟨1⟩] ∧
        FreshCall.answer (initial.next .alloc).fresh (.allocMany (BitVec.allOnes 32)) = none ∧
        trace.live = [⟨1⟩] ∧ FreshCall.answer trace.fresh .alloc = some [⟨1⟩]) ∧
      FreshCall.answer ((initial.next .alloc).next
        (.allocMany (BitVec.allOnes 32 - 1))).fresh .alloc = some [⟨0⟩] ∧
      ¬ AllProper [.alloc, .allocMany (BitVec.allOnes 32), .alloc] initial := by
  refine ⟨⟨_, rfl, by decide, by decide, by decide, by decide⟩, by decide, ?_⟩
  rintro ⟨-, -, hl, -⟩
  have hnl := (hl [⟨1⟩] (by decide)).2 ⟨1⟩ (by decide)
  exact hnl.2.2 (by decide)

end FreshTrace

end Voker.Ecs
