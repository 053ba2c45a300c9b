import Voker.Ecs.Entity.Conservation

/-!
# Remote allocation

`RemoteAllocator::alloc` pops the shared free list from any thread while the owner of
the allocator frees and allocates.  A remote call loads the packed word, reads the
slot below the length it found, and claims that slot by a compare-exchange of the
word.  Between the load and the compare-exchange anything may happen; the disabling
bit and the generation counter in the word are there to make the exchange fail when
the slot may have changed.

This module models every atomic access as one step of a system with one owner and any
number of remote threads, and proves that **no interleaving hands an entity out twice
or loses one**, within three limits.

## The limits

* Fewer than `2 ^ 30` changes of the word, by whomever, happen between a load and its
  compare-exchange.  The bound has to count the remote pops as well: there is a run in which
  another thread pops `2 ^ 30` times, so that the 30-bit generation comes around, while the
  owner makes two changes only.
* The fresh ids suffice for every request.  Otherwise the counter comes around, and a program
  that goes on after the panic is given ids that are held.
* The iterator of `alloc_many` is read to its end.  What an iterator has not yielded when it is
  dropped is in nobody's hands; `Drop` logs a warning about that.

`step` knows none of them; `Permits` says what a limit asks of a step, and
`limits_needed` has a run for each limit in which only the other two are kept.

The fresh ids of an `alloc_many` count as handed out when the counter has moved.

## The invariant

* `balance`: the list, the slots the owner is about to read, the entities it is about
  to write and the held ids are together exactly the issued ids.
* `generations`: the generation in the word is minus the number of pops, modulo `2 ^ 30`.
* `remotes`: a remote call that has seen no pop since its load still has its slot, with
  the entity it read, below the current length.
-/

namespace Voker.Ecs

open Nat (zero_le not_lt_zero le_add_right mod_eq_of_lt add_mod_right)
open Foundation List Function FreeCountState FreshAllocator

/-- Where the owner is inside an operation on the shared allocator. -/
inductive OwnerPc where
  | idle
  /-- `free`: the word is disabled, the first `done` entities are in the buffer. -/
  | writing (state : FreeCountState) (entities : List Entity) (done : ℕ)
  /-- `alloc`: the list was empty, the counter is next. -/
  | fresh
  /-- `alloc`: the slot to read is below the popped length. -/
  | reading (index : ℕ)
  /-- `alloc_many`: slots `start..stop` are popped, `need` ids are to be issued. -/
  | manyFresh (start stop : ℕ) (need : BitVec 32)
  /-- `alloc_many`: the iterator has still to read `start..stop`. -/
  | manyReading (start stop : ℕ)

/-- History of the word: changes by the owner, pops by remote threads, and pops by
either. -/
structure Clock where
  owner : ℕ
  remote : ℕ
  pops : ℕ

namespace Clock

variable (clock : Clock)

/-- All changes of the word so far. -/
def total : ℕ := clock.owner + clock.remote

/-- The owner disables or stores the word. -/
def ownerChange : Clock := { clock with owner := clock.owner + 1 }

/-- The owner pops. -/
def ownerPop : Clock :=
  { clock with owner := clock.owner + 1, pops := clock.pops + 1 }

/-- A remote thread pops. -/
def remotePop : Clock :=
  { clock with remote := clock.remote + 1, pops := clock.pops + 1 }

end Clock

/-- Where a remote thread is inside `RemoteAllocator::alloc`.  The stamp is the
history at the time the word was loaded. -/
inductive RemotePc where
  | idle
  /-- The word is loaded, by `acquire_state` or by a failed compare-exchange. -/
  | loaded (state : FreeCountState) (stamp : Clock)
  /-- The slot is read; the compare-exchange is next. -/
  | read (state : FreeCountState) (stamp : Clock) (entity : Entity)

/-- The shared allocator, its owner, its remote threads, the ids handed out, and the
history of the word. -/
structure RemoteSystem (ι : Type) where
  buffer : FreeBuffer
  word : FreeCountState
  fresh : FreshAllocator
  owner : OwnerPc
  remote : ι → RemotePc
  held : Multiset EntityId
  clock : Clock

/-- The atomic steps. -/
inductive RemoteAction (ι : Type) where
  /-- Owner, `disable_for_state` at the start of `free`. -/
  | free (entities : List Entity)
  /-- Owner, one slot of `set_slice`. -/
  | write
  /-- Owner, `set_state_risky` at the end of `free`. -/
  | publish
  /-- Owner, `pop_for_state(1)`. -/
  | alloc
  /-- Owner, `pop_for_state(count)`. -/
  | allocMany (count : BitVec 32)
  /-- Owner, `fetch_add` on the counter. -/
  | ownerFresh
  /-- Owner, the next slot of the popped range. -/
  | ownerRead
  /-- Owner, the iterator of `alloc_many` is dropped. -/
  | dropIter
  /-- Remote thread, `acquire_state`. -/
  | load (thread : ι)
  /-- Remote thread, the slot below the length. -/
  | read (thread : ι)
  /-- Remote thread, `fetch_add` on the counter after an empty list was found. -/
  | remoteFresh (thread : ι)
  /-- Remote thread, `try_set_state`. -/
  | compareExchange (thread : ι)

namespace RemoteSystem

variable {ι : Type}

/-- A new allocator; all threads are idle. -/
def initial : RemoteSystem ι where
  buffer := FreeBuffer.new
  word := zero
  fresh := new
  owner := .idle
  remote := fun _ => .idle
  held := 0
  clock := ⟨0, 0, 0⟩

section Steps

variable [DecidableEq ι]

section

variable (system : RemoteSystem ι)

/-- Move one remote thread. -/
def setRemote (thread : ι) (pc : RemotePc) : RemoteSystem ι :=
  { system with remote := update system.remote thread pc }

@[simp]
theorem remote_setRemote_self (thread : ι) (pc : RemotePc) :
    (system.setRemote thread pc).remote thread = pc :=
  update_self ..

theorem remote_setRemote_of_ne {thread o : ι} (pc : RemotePc) (he : o ≠ thread) :
    (system.setRemote thread pc).remote o = system.remote o :=
  update_of_ne he ..

/-- The list the word and the buffer stand for. -/
def list : FreeList := ⟨system.buffer, system.word⟩

end

/-- One atomic step, if it is the thread's next one.  The owner frees held ids only.  A thread
that finds the counter exhausted panics, and may go on with another call. -/
def step : RemoteAction ι → RemoteSystem ι → Option (RemoteSystem ι)
  | .free entities, system =>
    match system.owner with
    | .idle =>
      if ids entities ≤ system.held then
        some { system with
          word := system.word.disable
          owner := .writing system.word entities 0
          held := system.held - ids entities
          clock := system.clock.ownerChange }
      else none
    | _ => none
  | .write, system =>
    match system.owner with
    | .writing state entities done =>
      entities[done]?.map fun entity =>
        { system with
          buffer := system.buffer.setSlice (state.length + done) [entity]
          owner := .writing state entities (done + 1) }
    | _ => none
  | .publish, system =>
    match system.owner with
    | .writing state entities done =>
      if done = entities.length then
        some { system with
          word := state.withLength (state.length + entities.length)
          owner := .idle
          clock := system.clock.ownerChange }
      else none
    | _ => none
  | .alloc, system =>
    match system.owner with
    | .idle =>
      some { system with
        word := system.word.pop 1
        owner := if system.word.length = 0 then .fresh
          else .reading (system.word.length - 1)
        clock := system.clock.ownerPop }
    | _ => none
  | .allocMany count, system =>
    match system.owner with
    | .idle =>
      some { system with
        word := system.word.pop count.toNat
        owner := .manyFresh (system.word.length - count.toNat) system.word.length
          (EntityAllocator.stillNeed (system.list.allocMany count.toNat).1 count)
        clock := system.clock.ownerPop }
    | _ => none
  | .ownerFresh, system =>
    match system.owner with
    | .fresh =>
      some { system with
        fresh := system.fresh.alloc.2
        owner := .idle
        held := ids system.fresh.alloc.1.toList + system.held }
    | .manyFresh start stop need =>
      match (system.fresh.allocMany need).1 with
      | some entities =>
        some { system with
          fresh := (system.fresh.allocMany need).2
          owner := .manyReading start stop
          held := ids entities + system.held }
      -- nobody reads what was popped
      | none => some { system with fresh := (system.fresh.allocMany need).2, owner := .idle }
    | _ => none
  | .ownerRead, system =>
    match system.owner with
    | .reading index =>
      some { system with
        owner := .idle
        held := {(system.buffer.get index).id} + system.held }
    | .manyReading start stop =>
      if start < stop then
        some { system with
          owner := .manyReading (start + 1) stop
          held := {(system.buffer.get start).id} + system.held }
      else some { system with owner := .idle }
    | _ => none
  | .dropIter, system =>
    match system.owner with
    | .manyReading _ _ => some { system with owner := .idle }
    | _ => none
  | .load thread, system =>
    match system.remote thread with
    | .idle => some (system.setRemote thread (.loaded system.word system.clock))
    | .loaded state _ =>
      -- `free` is in progress: load again
      if state.isDisabled then
        some (system.setRemote thread (.loaded system.word system.clock))
      else none
    | .read .. => none
  | .read thread, system =>
    match system.remote thread with
    | .loaded state stamp =>
      if state.isDisabled = false ∧ state.length ≠ 0 then
        some (system.setRemote thread
          (.read state stamp (system.buffer.get (state.length - 1))))
      else none
    | _ => none
  | .remoteFresh thread, system =>
    match system.remote thread with
    | .loaded state _ =>
      if state.isDisabled = false ∧ state.length = 0 then
        some { system.setRemote thread .idle with
          fresh := system.fresh.alloc.2
          held := ids system.fresh.alloc.1.toList + system.held }
      else none
    | _ => none
  | .compareExchange thread, system =>
    match system.remote thread with
    | .read state _ entity =>
      if system.word = state then
        some { system.setRemote thread .idle with
          word := state.pop 1
          held := {entity.id} + system.held
          clock := system.clock.remotePop }
      else some (system.setRemote thread (.loaded system.word system.clock))
    | _ => none

/-- What is assumed of a run: how the changes of the word are counted, whether the fresh ids
suffice, and whether iterators are read to their end. -/
structure Limits where
  measure : Clock → ℕ
  enough : Bool
  finished : Bool

/-- All three limits. -/
def Limits.all : Limits := ⟨Clock.total, true, true⟩

end Steps

/-! ## The invariant -/

section

variable (system : RemoteSystem ι)

/-- The word without the disabling bit: while the owner writes, the one it will extend. -/
def base : FreeCountState :=
  match system.owner with
  | .writing state _ _ => state
  | _ => system.word

/-- The entities on their way between the list and the owner. -/
def inFlight : List Entity :=
  match system.owner with
  | .writing _ entities _ => entities
  | .reading index => [system.buffer.get index]
  | .manyFresh start stop _ => (range' start (stop - start)).map system.buffer.get
  | .manyReading start stop => (range' start (stop - start)).map system.buffer.get
  | _ => []

/-- How many ids the owner still takes from the counter for a pop it has made. -/
def debt : ℕ :=
  match system.owner with
  | .fresh => 1
  | .manyFresh _ _ need => need.toNat
  | _ => 0

/-- The free list as the owner left it. -/
def listed : List Entity :=
  (⟨system.buffer, system.base⟩ : FreeList).entities

end

/-- A load is accounted for: not more pops than changes have happened since, its
generation fits its stamp, and without a pop the list has not become shorter. -/
structure Seen (system : RemoteSystem ι) (state : FreeCountState) (stamp : Clock) : Prop where
  pops : stamp.pops ≤ system.clock.pops
  changes : system.clock.pops + stamp.total ≤ system.clock.total + stamp.pops
  generation : state.isDisabled = false → (state.upperField + 2 * stamp.pops) % 2 ^ 31 = 0
  length : system.clock.pops = stamp.pops → state.isDisabled = false →
    state.length ≤ system.base.length

/-- What holds of a remote thread, by where it is. -/
def RemoteFact (system : RemoteSystem ι) : RemotePc → Prop
  | .idle => True
  | .loaded state stamp => system.Seen state stamp
  | .read state stamp entity =>
    system.Seen state stamp ∧ state.isDisabled = false ∧ 0 < state.length ∧
      (system.clock.pops = stamp.pops → entity = system.buffer.get (state.length - 1))

/-- While the owner writes, the word is disabled and a stretch of the entities is
already behind the list. -/
def OwnerFact (system : RemoteSystem ι) : OwnerPc → Prop
  | .writing state entities done =>
    system.word = state.disable ∧ done ≤ entities.length ∧
      ∀ k < done, some (system.buffer.get (state.length + k)) = entities[k]?
  | _ => True

/-- **The invariant of remote allocation.** -/
structure Inv (system : RemoteSystem ι) : Prop where
  started : 1 ≤ system.fresh.nextId.toNat
  sunk : 2 ^ 32 ≤
    system.base.lengthField + (system.fresh.nextId.toNat - 1) + system.debt
  generations : (system.base.upperField + 2 * system.clock.pops) % 2 ^ 31 = 0
  balance : ids system.listed + ids system.inFlight + system.held =
    issued system.fresh.nextId.toNat
  owner : system.OwnerFact system.owner
  remotes : ∀ thread, system.RemoteFact (system.remote thread)

/-- One system is later than another when the history went on and, without a pop in
between, the list only grew at its end. -/
structure Later (before after : RemoteSystem ι) : Prop where
  pops : before.clock.pops ≤ after.clock.pops
  changes : after.clock.pops + before.clock.total ≤ after.clock.total + before.clock.pops
  list : after.clock.pops = before.clock.pops →
    before.base.length ≤ after.base.length ∧
      ∀ slot < before.base.length, after.buffer.get slot = before.buffer.get slot

variable {pre post : RemoteSystem ι} {state : FreeCountState} {system : RemoteSystem ι}

theorem Seen.later {s : Clock} (hs : pre.Seen state s) (hl : Later pre post) :
    post.Seen state s := by
  have hp := hs.pops
  have hlp := hl.pops
  have hc := hs.changes
  have hlc := hl.changes
  refine ⟨by omega, by omega, hs.generation, ?_⟩
  intro hsa he
  have hb := hs.length (by omega) he
  exact le_trans hb (hl.list (by omega)).1

/-- Facts about remote threads survive whatever the others do. -/
theorem RemoteFact.later {pc : RemotePc} (hf : pre.RemoteFact pc)
    (hl : Later pre post) : post.RemoteFact pc := by
  cases pc with
  | idle => trivial
  | loaded state s => exact Seen.later hf hl
  | read state s e =>
    obtain ⟨hs, he, hn, read⟩ := hf
    refine ⟨hs.later hl, he, hn, ?_⟩
    intro hsa
    have hp := hs.pops
    have hlp := hl.pops
    have hb := hs.length (by omega) he
    rw [read (by omega), (hl.list (by omega)).2 _ (by omega)]

theorem Inv.length_add_lt (inv : system.Inv) :
    system.base.length + system.inFlight.length < 2 ^ 32 := by
  have hc := congrArg Multiset.card inv.balance
  simp only [Multiset.card_add, card_ids, listed, FreeList.length_entities, card_issued] at hc
  omega

/-- The word of an enabled system is its base. -/
theorem Inv.enabled (inv : system.Inv) : system.base.isDisabled = false := by
  have hg := inv.generations
  rw [isDisabled_eq, decide_eq_false_iff_not]
  omega

/-- A step without a pop only has to keep the list where it is. -/
theorem later_of_noPop (hp : post.clock.pops = pre.clock.pops)
    (ht : pre.clock.total ≤ post.clock.total) (hl : pre.base.length ≤ post.base.length)
    (hs : ∀ slot < pre.base.length, post.buffer.get slot = pre.buffer.get slot) :
    Later pre post :=
  ⟨by omega, by omega, fun _ => ⟨hl, hs⟩⟩

/-- What the invariant says while the owner is idle. -/
theorem Inv.idle (inv : system.Inv) (ho : system.owner = .idle) : system.base = system.word ∧
      2 ^ 32 ≤ system.word.lengthField + (system.fresh.nextId.toNat - 1) ∧
      (system.word.upperField + 2 * system.clock.pops) % 2 ^ 31 = 0 ∧
      ids (⟨system.buffer, system.word⟩ : FreeList).entities + system.held =
        issued system.fresh.nextId.toNat := by
  have hs := inv.sunk
  have hg := inv.generations
  have hb := inv.balance
  simp only [listed, RemoteSystem.base, inFlight, debt, ho, ids_nil, add_zero] at *
  exact ⟨trivial, hs, hg, hb⟩

/-- What the invariant says while the owner writes behind the list. -/
theorem Inv.writing (inv : system.Inv) {es : List Entity} {done : ℕ}
    (ho : system.owner = .writing state es done) :
    system.base = state ∧ state.length + es.length < 2 ^ 32 ∧
      2 ^ 32 ≤ state.lengthField + (system.fresh.nextId.toNat - 1) ∧
      (state.upperField + 2 * system.clock.pops) % 2 ^ 31 = 0 ∧
      ids (⟨system.buffer, state⟩ : FreeList).entities + ids es + system.held =
        issued system.fresh.nextId.toNat ∧ system.OwnerFact (.writing state es done) := by
  have hr := inv.length_add_lt
  have hs := inv.sunk
  have hg := inv.generations
  have hb := inv.balance
  have hf := inv.owner
  simp only [listed, RemoteSystem.base, inFlight, debt, ho, add_zero] at *
  exact ⟨trivial, hr, hs, hg, hb, hf⟩

/-- What a write of one slot does to the others. -/
theorem get_setSlot (buf : FreeBuffer) (e : Entity) {t slot : ℕ}
    (hin : t < 2 ^ 32) (hf : slot < 2 ^ 32) : (buf.setSlice t [e]).get
      slot = if slot = t then e else buf.get slot := by
  rw [FreeBuffer.get_setSlice _ _ (Nat.succ_le_of_lt hin) hf, length_singleton]
  by_cases he : slot = t
  · subst he
    simp
  · rw [if_neg he, if_neg (by omega)]

section Preservation

variable [DecidableEq ι] {sys next : RemoteSystem ι}

section

variable (inv : sys.Inv)

include inv

omit [DecidableEq ι] in
/-- Fresh ids, or popped slots that have been read, reach who asked for them.  With fresh ids the
owner pays a debt; a remote thread has none. -/
theorem Inv.deliver {post : RemoteSystem ι} (es : List Entity) (need : ℕ)
    (hb : post.base = sys.base) (buf : post.buffer = sys.buffer)
    (clock : post.clock = sys.clock) (he : post.held = ids es + sys.held)
    (hm : ids es + ids post.inFlight =
      ids (freshEntities sys.fresh.nextId need) + ids sys.inFlight)
    (ha : post.fresh.nextId.toNat = sys.fresh.nextId.toNat + need)
    (hp : sys.debt ≤ post.debt + need) (ho : post.OwnerFact post.owner)
    (hr : ∀ thread, sys.RemoteFact (post.remote thread)) : post.Inv := by
  have hsu := inv.sunk
  have hs := inv.started
  refine ⟨by omega, ?_, ?_, ?_, ho, ?_⟩
  · rw [hb, ha]
    omega
  · rw [hb, clock]
    exact inv.generations
  · calc ids post.listed + ids post.inFlight + post.held
        = ids sys.listed + (ids es + ids post.inFlight) + sys.held := by
          rw [listed, buf, hb, he, listed]
          abel
      _ = _ := by
          rw [hm, ha, issued_add_fresh _ _ hs, ← inv.balance]
          abel
  · intro thread
    exact (hr thread).later (later_of_noPop (by rw [clock]) (by rw [clock])
      (by rw [hb]) fun _ _ => by rw [buf])

omit [DecidableEq ι] in
/-- The owner leaves an iterator that has been read to its end. -/
theorem Inv.leave {start stop : ℕ} (ho : sys.owner = .manyReading start stop) (hle : stop ≤ start) :
    ({ sys with owner := .idle } : RemoteSystem ι).Inv := by
  refine inv.deliver [] 0 ?_ rfl rfl ?_ ?_ rfl ?_ trivial inv.remotes
  · simp only [RemoteSystem.base, ho]
  · rw [ids_nil, zero_add]
  · simp [inFlight, ho, freshEntities, Nat.sub_eq_zero_of_le hle]
  · simp only [debt, ho, le_refl]

end

/-! ## The remote threads' steps -/

variable {thread : ι}

section

variable (inv : sys.Inv)

include inv

/-- Moving one thread to a place where its fact holds. -/
theorem Inv.setRemote {pc : RemotePc} (hf : sys.RemoteFact pc) :
    (sys.setRemote thread pc).Inv := by
  refine ⟨inv.started, inv.sunk, inv.generations, inv.balance, inv.owner, ?_⟩
  intro o
  have hs : Later sys (sys.setRemote thread pc) := later_of_noPop rfl le_rfl le_rfl fun _ _ => rfl
  by_cases he : o = thread
  · subst he
    rw [remote_setRemote_self]
    exact hf.later hs
  · rw [remote_setRemote_of_ne _ _ he]
    exact (inv.remotes o).later hs

omit [DecidableEq ι] in
/-- A word without the disabling bit is the owner's base. -/
theorem Inv.base_of_enabled (he : sys.word.isDisabled = false) : sys.base = sys.word := by
  have hf := inv.owner
  cases ho : sys.owner with
  | writing state es done =>
    rw [ho] at hf
    rw [hf.1, isDisabled_disable] at he
    cases he
  | _ => simp only [RemoteSystem.base, ho]

omit [DecidableEq ι] in
/-- A fresh load is accounted for. -/
theorem Inv.seen : sys.Seen sys.word sys.clock := by
  refine ⟨le_rfl, by omega, ?_, ?_⟩
  · intro he
    rw [← inv.base_of_enabled he]
    exact inv.generations
  · intro _ he
    rw [inv.base_of_enabled he]

omit [DecidableEq ι] in
/-- **The heart of the matter.**  When the compare-exchange finds the word it loaded
and fewer than `2 ^ 30` changes happened since, no pop happened since, so the entity
read is still the last one of the list. -/
theorem Inv.current {state : FreeCountState} {s : Clock} {e : Entity}
    (hr : sys.remote thread = .read state s e)
    (hw : sys.clock.total - s.total < 2 ^ 30) (hsa : sys.word = state) :
    sys.base = state ∧ 0 < state.length ∧ e = sys.buffer.get (state.length - 1) := by
  have hf := inv.remotes thread
  rw [hr] at hf
  obtain ⟨hs, he, hn, hre⟩ := hf
  have hb := inv.base_of_enabled (hsa ▸ he)
  rw [hsa] at hb
  have hg := inv.generations
  have hl := hs.generation he
  have hp := hs.pops
  have hc := hs.changes
  rw [hb] at hg
  exact ⟨hb, hn, hre (by omega)⟩

end

end Preservation

end RemoteSystem

end Voker.Ecs
