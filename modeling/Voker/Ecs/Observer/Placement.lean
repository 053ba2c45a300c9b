import Voker.Ecs.Observer.Registry
import Voker.Foundation.Runs

/-!
# Where observers are cached

An observer belongs into the caches that its event and its two scopes determine, and
nowhere else.  Registering an observer puts it there.  Two things go wrong later.  The hook
`on_clone` enters an observer that is restricted to components **also as an observer of the
whole entity**; and registering an observer for an entity that does not exist leaves the
entity's entry behind.

The system here consists of the registry, the entities that exist and the value of the
component `ObservedBy` on each of them.
-/

namespace Voker.Ecs

open List CachedObservers

/-! ## Places -/

/-- The places of an observer: where its scopes put it. -/
def Observer.At (observer : Observer) : Place → Prop
  | .global => observer.entities = [] ∧ observer.components = []
  | .component id => observer.entities = [] ∧ id ∈ observer.components
  | .entity entity => entity ∈ observer.entities ∧ observer.components = []
  | .entityComponent id entity => entity ∈ observer.entities ∧ id ∈ observer.components

/-- The places of an entity that the hooks go through. -/
def Observer.Touches (observer : Observer) (entity : Entity) (place : Place) : Prop :=
  place = .entity entity ∨
    ∃ component ∈ observer.components, place = .entityComponent component entity

namespace Observer

variable {obs : Observer} {e : Entity} {place : Place}

/-- A place of an entity belongs to observers of that entity only. -/
theorem At.watches {o : Observer} (hb : obs.At place)
    (ht : o.Touches e place) : e ∈ obs.entities := by
  rcases ht with rfl | ⟨c, -, rfl⟩
  · exact hb.1
  · exact hb.1

/-- The places after an entity has left, unless it was the last. -/
theorem at_erase (hn : obs.entities.Nodup) : (e ∈ obs.entities → obs.entities.erase e ≠ []) ∧
        ({ obs with entities := obs.entities.erase e } : Observer).At place ↔
      obs.At place ∧ ¬ obs.Touches e place := by
  by_cases hw : e ∈ obs.entities
  · have hno : obs.entities ≠ [] := ne_nil_of_mem hw
    rw [forall_prop_of_true hw]
    cases place with
    | global => exact iff_of_false (fun hb => hb.1 hb.2.1) fun hb => hno hb.1.1
    | component id =>
      exact iff_of_false (fun hb => hb.1 hb.2.1) fun hb => hno hb.1.1
    | entity o =>
      simp only [At, Touches, hn.mem_erase_iff, Place.entity.injEq, reduceCtorEq, and_false,
        exists_false, or_false]
      refine ⟨fun ⟨_, ⟨ne, mem⟩, hwh⟩ => ⟨⟨mem, hwh⟩, ne⟩, ?_⟩
      rintro ⟨⟨mem, hwh⟩, ne⟩
      exact ⟨ne_nil_of_mem (hn.mem_erase_iff.mpr ⟨ne, mem⟩), ⟨ne, mem⟩, hwh⟩
    | entityComponent id o =>
      simp only [At, Touches, hn.mem_erase_iff, Place.entityComponent.injEq, reduceCtorEq,
        false_or]
      refine ⟨fun ⟨_, ⟨ne, mem⟩, hin⟩ => ⟨⟨mem, hin⟩, ?_⟩, ?_⟩
      · rintro ⟨-, -, -, hs⟩
        exact ne hs
      · rintro ⟨⟨mem, hin⟩, ha⟩
        have ne : o ≠ e := fun hs => ha ⟨id, hin, rfl, hs⟩
        exact ⟨ne_nil_of_mem (hn.mem_erase_iff.mpr ⟨ne, mem⟩), ⟨ne, mem⟩, hin⟩
  · rw [erase_of_not_mem hw]
    refine ⟨fun ⟨_, hbe⟩ => ⟨hbe, fun ht => hw (hbe.watches ht)⟩, ?_⟩
    exact fun ⟨hbe, _⟩ => ⟨fun hin => absurd hin hw, hbe⟩

/-- The places after an entity has joined others. -/
theorem at_append (hn : obs.entities ≠ []) :
    ({ obs with entities := obs.entities ++ [e] } : Observer).At place ↔
      obs.At place ∨ obs.Touches e place ∧
        (place = .entity e → obs.components = []) := by
  cases place with
  | global => simp [At, Touches, hn]
  | component id => simp [At, Touches, hn]
  | entity o =>
    simp only [At, Touches, mem_append, mem_singleton, Place.entity.injEq,
      reduceCtorEq, and_false, exists_false, or_false]
    tauto
  | entityComponent id o =>
    simp only [At, Touches, mem_append, mem_singleton,
      Place.entityComponent.injEq, reduceCtorEq, false_or, false_imp_iff, and_true]
    constructor
    · rintro ⟨mem | hs, hin⟩
      · exact .inl ⟨mem, hin⟩
      · exact .inr ⟨id, hin, rfl, hs⟩
    · rintro (⟨mem, hin⟩ | ⟨c, hin, rfl, hs⟩)
      · exact ⟨.inl mem, hin⟩
      · exact ⟨.inr hs, hin⟩

/-- What becomes of an observer when it stops watching an entity: with its last entity it
goes itself. -/
def leave (entity : Entity) (observer : Observer) : Option Observer :=
  if entity ∈ observer.entities then
    if (observer.entities.erase entity).isEmpty then none
    else some { observer with entities := observer.entities.erase entity }
  else some observer

theorem leave_eq_some {post : Observer} : leave e obs = some post ↔
    (e ∈ obs.entities → obs.entities.erase e ≠ []) ∧
      post = { obs with entities := obs.entities.erase e } := by
  unfold leave
  by_cases hw : e ∈ obs.entities
  · by_cases hl : obs.entities.erase e = []
    · simp [hw, hl]
    · rw [eq_comm]
      simp [hw, hl]
  · rw [erase_of_not_mem hw, eq_comm]
    simp [hw]

end Observer

namespace Observers

/-- Every observer is in the caches it belongs into. -/
def Complete (registry : Observers) : Prop :=
  ∀ id observer, registry.get id = some observer → ∀ place, observer.At place →
    id ∈ registry.runners observer.eventId place

variable {registry : Observers}

/-- Registering an observer enters it exactly where it belongs. -/
theorem mem_register {obs : Observer} {ev : EventId} {place : Place} {m : ObserverId} :
    m ∈ (registry.register obs).2.runners ev place ↔ m ∈ registry.runners ev place ∨
        m = (registry.register obs).1 ∧ ev = obs.eventId ∧ obs.At place := by
  have ca : ∀ s : CachedObservers, m ∈ (if obs.entities.isEmpty then
        if obs.components.isEmpty then s.insert .global registry.observers.length
        else
          obs.components.foldl (fun ca c =>
            ca.insert (.component c) registry.observers.length) s
      else if obs.components.isEmpty then
        obs.entities.foldl (fun ca e =>
          ca.insert (.entity e) registry.observers.length) s
      else
        obs.components.foldl (fun ca c => obs.entities.foldl (fun ca e =>
            ca.insert (.entityComponent c e) registry.observers.length) ca) s) place ↔
      m ∈ s place ∨ m = registry.observers.length ∧ obs.At place := by
    intro s
    split_ifs with noEntities noComponents noComponents
    · rw [List.isEmpty_iff] at noEntities noComponents
      rw [mem_insert]
      cases place <;> simp [Observer.At, noEntities, noComponents]
    · rw [List.isEmpty_iff] at noEntities noComponents
      rw [mem_foldl_insert]
      cases place <;> simp [Observer.At, noEntities, noComponents]
    · rw [List.isEmpty_iff] at noEntities noComponents
      rw [mem_foldl_insert]
      cases place <;> simp [Observer.At, noEntities, noComponents]
    · rw [List.isEmpty_iff] at noEntities noComponents
      have hp : ∀ (cs : List ComponentId) (s : CachedObservers),
          m ∈ cs.foldl (fun ca c => obs.entities.foldl (fun ca e =>
              ca.insert (.entityComponent c e) registry.observers.length) ca) s place ↔
          m ∈ s place ∨ m = registry.observers.length ∧ ∃ c ∈ cs, ∃ e ∈ obs.entities,
              place = .entityComponent c e := by
        intro cs
        induction cs with
        | nil => simp
        | cons c cs ih =>
          intro s
          rw [foldl_cons, ih, mem_foldl_insert]
          simp only [mem_cons, exists_eq_or_imp]
          rw [or_assoc, ← and_or_left]
      rw [hp]
      cases place <;> simp [Observer.At, noEntities, noComponents, and_comm]
  unfold register
  rw [show ({ registry.setCached obs.eventId _ with
    observers := registry.observers ++ [some obs] } : Observers).runners ev =
      (registry.setCached obs.eventId _).runners ev from rfl, runners_setCached]
  split
  · next hs =>
    rw [ca, hs]
    simp
  · next ne => simp [ne]

/-! ## What the hooks do -/

/-- One turn of a hook: it changes the slot of an observer, and changes who is cached in
the places it touches. -/
def Acts (one : Observers → ObserverId → Option Observers)
    (change : Observer → Option Observer) (combine : Prop → Prop → Prop)
    (Touch : ObserverId → Observer → EventId → Place → ObserverId → Prop) : Prop :=
  ∀ registry id observer, registry.get id = some observer →
    ∃ after, one registry id = some after ∧
      (∀ other, after.get other = if other = id then change observer else registry.get other) ∧
      ∀ event place member, member ∈ after.runners event place ↔
        combine (member ∈ registry.runners event place) (Touch id observer event place member)

/-- **A hook goes through distinct live observers without interference.** -/
theorem Acts.foldlM {one : Observers → ObserverId → Option Observers}
    {ch : Observer → Option Observer} {c : Prop → Prop → Prop}
    {Touch : ObserverId → Observer → EventId → Place → ObserverId → Prop}
    (hac : Acts one ch c Touch) (hu : ∀ a, c a False ↔ a)
    (ha : ∀ a p q, c (c a p) q ↔ c a (p ∨ q))
    {i : List ObserverId} (hn : i.Nodup) {reg : Observers}
    (hl : ∀ id ∈ i, ∃ obs, reg.get id = some obs) :
    ∃ post, i.foldlM one reg = some post ∧ (∀ o, post.get o =
        if o ∈ i then (reg.get o).bind ch else reg.get o) ∧
      ∀ ev place m, m ∈ post.runners ev place ↔
        c (m ∈ reg.runners ev place) (∃ id ∈ i, ∃ obs, reg.get id = some obs ∧
            Touch id obs ev place m) := by
  induction i generalizing reg with
  | nil =>
    refine ⟨reg, rfl, fun o => by simp, fun ev place m => ?_⟩
    simp [hu]
  | cons id i ih =>
    obtain ⟨obs, hf⟩ := hl id (mem_cons_self ..)
    obtain ⟨mid, out, slots, hca⟩ := hac reg id obs hf
    rw [nodup_cons] at hn
    -- the turn of `id` leaves the slots of the others alone
    have hsa : ∀ o ∈ i, mid.get o = reg.get o := by
      intro o m
      rw [slots, if_neg]
      rintro rfl
      exact hn.1 m
    have hal : ∀ o ∈ i, ∃ obs, mid.get o = some obs := by
      intro o m
      obtain ⟨obs, hst⟩ := hl o (mem_cons_of_mem _ m)
      exact ⟨obs, (hsa o m).trans hst⟩
    obtain ⟨post, hr, hsl, hc⟩ := ih hn.2 hal
    refine ⟨post, by rw [foldlM_cons, out]; exact hr, fun o => ?_, ?_⟩
    · rw [hsl, slots]
      by_cases he : o = id
      · subst he
        simp [hn.1, hf]
      · simp [he]
    · intro ev place m
      have ht : (∃ o ∈ i, ∃ obs, mid.get o = some obs ∧
            Touch o obs ev place m) ↔
          ∃ o ∈ i, ∃ obs, reg.get o = some obs ∧ Touch o obs ev place m :=
        exists_congr fun o => and_congr_right fun hin => by rw [hsa o hin]
      rw [hc, propext (hca ev place m), ha, propext ht]
      have hea : (Touch id obs ev place m ∨
            ∃ o ∈ i, ∃ obs, reg.get o = some obs ∧
              Touch o obs ev place m) ↔
          ∃ o ∈ id :: i, ∃ obs, reg.get o = some obs ∧
            Touch o obs ev place m := by
        simp [hf]
      rw [propext hea]

/-- Taking out of caches composes. -/
theorem and_not_assoc (a p q : Prop) : ((a ∧ ¬ p) ∧ ¬ q) ↔ (a ∧ ¬ (p ∨ q)) := by
  rw [not_or, and_assoc]

theorem acts_discardOne (e : Entity) : Acts (discardOne e)
      (fun obs => some { obs with entities := obs.entities.erase e })
      (fun pre t => pre ∧ ¬ t)
      (fun id obs ev place m =>
        m = id ∧ ev = obs.eventId ∧ obs.Touches e place) := by
  intro registry id obs hf
  refine ⟨_, by rw [discardOne, hf]; rfl, fun o => ?_, fun ev place m => ?_⟩
  · rw [get_setCached, get_setSlot hf]
  · rw [runners_setCached, runners_setSlot]
    split
    · next hs =>
      rw [mem_foldl_remove, mem_remove, hs, and_not_assoc]
      simp only [Observer.Touches, true_and, and_or_left]
    · next ne => simp [ne]

theorem acts_removeOne (e : Entity) : Acts (removeOne e)
      (fun obs => if obs.entities.isEmpty then none else some obs)
      (fun pre t => pre ∧ ¬ t) (fun _ obs ev place _ =>
        ev = obs.eventId ∧ obs.Touches e place) := by
  intro registry id obs hf
  refine ⟨_, by rw [removeOne, hf]; rfl, fun o => ?_, fun ev place mem => ?_⟩
  · by_cases hl : obs.entities.isEmpty = true
    · rw [if_pos hl, get_setSlot (by rw [get_setCached]; exact hf), get_setCached]
      simp only [hl, if_true]
    · rw [if_neg hl, get_setCached]
      simp only [hl]
      split
      · next hs => simp [hs, hf]
      · rfl
  · rw [apply_ite Observers.runners, runners_setSlot, ite_self, runners_setCached]
    split
    · next hs =>
      rw [mem_foldl_clear, mem_clear, hs, ne_eq, and_not_assoc]
      simp only [Observer.Touches, true_and]
    · next ne => simp [ne]

theorem acts_cloneOne (e : Entity) : Acts (cloneOne e) (fun obs => some { obs with
        entities := if e ∈ obs.entities then obs.entities
          else obs.entities ++ [e] })
      (fun pre t => pre ∨ t)
      (fun id obs ev place m =>
        m = id ∧ ev = obs.eventId ∧ obs.Touches e place) := by
  intro registry id obs hf
  refine ⟨_, by rw [cloneOne, hf]; rfl, fun o => ?_, fun ev place m => ?_⟩
  · rw [get_setCached, get_setSlot hf]
  · rw [runners_setCached, runners_setSlot]
    split
    · next hs =>
      rw [mem_foldl_insert, mem_insert, hs, or_assoc]
      simp only [Observer.Touches, true_and, and_or_left]
    · next ne => simp [ne]

end Observers

end Voker.Ecs
