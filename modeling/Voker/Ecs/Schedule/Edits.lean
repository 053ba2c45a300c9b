import Voker.Ecs.Schedule.Registry

/-!
# Changes

Every operation that changes a schedule opens it first, or leaves it as it was (`Edits`).
All of them but removals only add (`Grows`).

A removal takes a key out of everything.  The conflict graph removes a key from the sets of
those in its own set, which is enough since conflicts are symmetric.
-/

namespace Voker.Ecs.Schedule

open Foundation List Option Function

variable {calm : Prop} {s : Schedule}

/-- Only what is known about sets may be different. -/
def SameCore (before after : Schedule) : Prop :=
  after = { before with systemSets := after.systemSets, children := after.children }

theorem SameCore.refl (s : Schedule) : SameCore s s := rfl

theorem SameCore.trans {pre mid post : Schedule} (one : SameCore pre mid)
    (two : SameCore mid post) : SameCore pre post := by
  rw [SameCore] at *
  rw [two, one]

/-- A change: the schedule can be opened afterwards if it could before, and if it is still
compiled nothing has happened. -/
structure Edits (before after : Schedule) : Prop where
  opened : ∀ {calm : Prop}, Opened calm before.touch → Opened calm after.touch
  same : ∀ {calm : Prop}, Opened calm before.touch → after.isChanged = false →
    SameCore before after

theorem touch_of_changed (hc : s.isChanged = true) : s.touch = s :=
  if_pos hc

@[simp]
theorem ordering_touch (s : Schedule) : s.touch.ordering = s.ordering := by
  rw [touch]
  split <;> rfl

@[simp]
theorem allocator_touch (s : Schedule) : s.touch.allocator = s.allocator := by
  rw [touch]
  split <;> rfl

theorem Opened.touch (ho : Opened calm s) : Opened calm s.touch := by
  rwa [touch_of_changed ho.changed]

namespace Edits

variable {pre mid post : Schedule}

theorem refl (s : Schedule) : Edits s s :=
  ⟨id, fun _ _ => SameCore.refl _⟩

theorem trans (one : Edits pre mid) (two : Edits mid post) : Edits pre post := by
  refine ⟨fun ho => two.opened (one.opened ho), fun ho hc => ?_⟩
  have hs := two.same (one.opened ho) hc
  have hc : mid.isChanged = false := by
    rw [hs] at hc
    exact hc
  exact (one.same ho hc).trans hs

/-- A change that leaves the schedule open. -/
theorem of_opened (hop : ∀ {calm : Prop}, Opened calm pre.touch → Opened calm post) :
    Edits pre post := by
  refine ⟨fun ho => (hop ho).touch, fun ho hc => ?_⟩
  rw [(hop ho).changed] at hc
  cases hc

theorem foldl {α : Type*} {step : Schedule → α → Schedule}
    (he : ∀ s item, Edits s (step s item)) (i : List α)
    (s : Schedule) : Edits s (i.foldl step s) :=
  foldlRecOn i step (.refl _) fun _ hk item _ => hk.trans (he _ item)

/-- What is known about sets does not matter. -/
theorem of_sameCore (hs : SameCore pre post) : Edits pre post := by
  refine ⟨fun ho => ?_, fun _ _ => hs⟩
  rw [hs]
  by_cases hc : pre.isChanged = true
  · rw [touch_of_changed hc] at ho
    rw [Schedule.touch, if_pos hc]
    exact ho.congr rfl rfl rfl rfl rfl rfl
  · rw [Schedule.touch, if_neg hc] at ho ⊢
    exact ho.congr rfl rfl rfl rfl rfl rfl

end Edits

/-! ## Additions -/

section

variable (s : Schedule)

/-- What inserting a system achieves. -/
theorem insertSystem_spec (sys : BoxedSystem) (set : SystemSet) :
    Edits s (s.insertSystem sys set) ∧
      ∃ key, (s.insertSystem sys set).allocator.idents sys.id = some key ∧
        Wires set sys.id key s (s.insertSystem sys set) := by
  let reg := s.touch.register sys
  obtain ⟨key, hf⟩ := idents_register s.touch sys
  have hu : s.insertSystem sys set =
      reg.wireSetBoundaries key sys.id set := by
    rw [← keyOf_eq hf]
    rfl
  have hw := wires_wireSetBoundaries reg key sys.id set
  rw [hu]
  refine ⟨.of_opened fun opened => hw.opened hf (opened.register sys), key,
    hw.grows.idents hf, ?_⟩
  exact
    { hw with
      grows := (grows_touch _).trans ((grows_register ..).trans hw.grows)
      opened := fun pre opened => hw.opened hf ((opened.touch).register sys) }

theorem insertOrder_spec (pre post : SystemId) :
    Edits s (s.insertOrder pre post) ∧
      Grows s (s.insertOrder pre post) ∧
      ∀ {b a}, s.allocator.idents pre = some b →
        s.allocator.idents post = some a →
        (b, a) ∈ (s.insertOrder pre post).ordering.dependency.graph.edges := by
  rw [insertOrder]
  split
  · next b a hfb hfa =>
    rw [← ordering_touch]
    refine ⟨.of_opened fun ho => ho.insertOrder ⟨pre, ?_⟩ ⟨post, ?_⟩,
      (grows_touch _).trans (grows_insertOrder ..), fun {b' a'} hfu hfo => ?_⟩
    · rw [allocator_touch, hfb]
    · rw [allocator_touch, hfa]
    · rw [hfb] at hfu
      rw [hfa] at hfo
      obtain rfl := some.inj hfu
      obtain rfl := some.inj hfo
      exact Graph.mem_edges_insertEdge.mpr (.inr rfl)
  · next hm =>
    exact ⟨.refl _, .refl _, fun {b a} hfb hfa => absurd hfa (hm b a hfb)⟩

theorem insertRunIf_spec (ru cond : SystemId) :
    Edits s (s.insertRunIf ru cond) ∧
      Grows s (s.insertRunIf ru cond) := by
  rw [insertRunIf]
  split
  · next r c hfr hfc =>
    rw [← ordering_touch]
    refine ⟨.of_opened fun ho => ho.insertConditionOrder ⟨cond, ?_⟩ ⟨ru, ?_⟩,
      (grows_touch _).trans (grows_insertConditionOrder ..)⟩
    · rw [allocator_touch, hfc]
    · rw [allocator_touch, hfr]
  · exact ⟨.refl _, .refl _⟩

/-- What creating a set achieves. -/
theorem initSystemSet_spec (set : SystemSet) :
    Edits s (s.initSystemSet set) ∧ Grows s (s.initSystemSet set) ∧
      (s.systemSets set = none →
        (s.initSystemSet set).Gates set.begin.id set.end_.id) := by
  rw [initSystemSet]
  split
  · next hp =>
    refine ⟨.refl _, .refl _, fun ha => ?_⟩
    rw [ha] at hp
    cases hp
  · next ha =>
    let c : Schedule :=
      { s.touch with systemSets := Function.update s.systemSets set (some []) }
    obtain ⟨hgo, ⟨one, hff⟩, hoo⟩ := registerMarker_spec c set set.begin
    obtain ⟨hgt, ⟨last, hfl⟩, hot⟩ :=
      registerMarker_spec (c.registerMarker set set.begin) set set.end_
    have hff := hgt.idents hff
    have hgc : Grows s c := by
      have ht := grows_touch s
      refine ⟨ht.idents, ht.dependency, ht.condition, fun {o id} mem => ?_,
        ht.nested⟩
      have ne : o ≠ set := by
        rintro rfl
        rw [members, ha] at mem
        cases mem
      have hs : c.systemSets o = s.systemSets o :=
        update_of_ne ne ..
      rw [members, hs]
      exact mem
    refine ⟨.of_opened fun ho => ?_, ?_, fun _ => ⟨one, last, hff, hfl, ?_⟩⟩
    · have hoc : Opened _ c := ho.congr rfl rfl rfl rfl rfl rfl
      exact (hot (hoo hoc)).insertConditionOrder (registered_keyOf hff)
        (registered_keyOf hfl)
    · exact hgc.trans (hgo.trans (hgt.trans (grows_insertConditionOrder ..)))
    · refine Graph.mem_edges_insertEdge.mpr (.inr ?_)
      exact (Prod.mk.injEq ..).mpr ⟨(keyOf_eq hff).symm, (keyOf_eq hfl).symm⟩

theorem edits_insertSystem (sys : BoxedSystem) (set : SystemSet) :
    Edits s (s.insertSystem sys set) :=
  (insertSystem_spec s sys set).1

theorem grows_insertSystem (sys : BoxedSystem) (set : SystemSet) :
    Grows s (s.insertSystem sys set) :=
  (insertSystem_spec s sys set).2.choose_spec.2.grows

theorem addSystems_spec (set : SystemSet) (c : SystemConfig) :
    Edits s (s.addSystems set c) ∧
      Grows s (s.addSystems set c) := by
  obtain ⟨hei, hgi, -⟩ := initSystemSet_spec s set
  constructor
  · refine hei.trans ((Edits.foldl (fun _ _ => edits_insertSystem ..) _ _).trans
      ((Edits.foldl (fun s e => ?_) _ _).trans ((Edits.foldl
        (fun _ _ => (insertOrder_spec ..).1) _ _).trans
          (Edits.foldl (fun _ _ => (insertRunIf_spec ..).1) _ _))))
    exact (edits_insertSystem ..).trans (insertOrder_spec ..).1
  · refine hgi.trans ((Grows.foldl (fun _ _ => grows_insertSystem ..) _ _).trans
      ((Grows.foldl (fun s e => ?_) _ _).trans ((Grows.foldl
        (fun _ _ => (insertOrder_spec ..).2.1) _ _).trans
          (Grows.foldl (fun _ _ => (insertRunIf_spec ..).2) _ _))))
    exact (grows_insertSystem ..).trans (insertOrder_spec ..).2.1

theorem addSystem_spec (set : SystemSet) (sys : IntoSystem) :
    Edits s (s.addSystem set sys) ∧
      Grows s (s.addSystem set sys) := by
  obtain ⟨hei, hgi, -⟩ := initSystemSet_spec s set
  exact ⟨hei.trans (edits_insertSystem ..), hgi.trans (grows_insertSystem ..)⟩

theorem nest_spec (set p : SystemSet) :
    Edits s (s.nest set p) ∧ Grows s (s.nest set p) := by
  obtain ⟨hei, hgi, -⟩ := initSystemSet_spec s p
  let i := ((s.initSystemSet p).insertSystem set.begin p).insertSystem set.end_
    p
  have he : Edits s i :=
    hei.trans ((edits_insertSystem ..).trans (edits_insertSystem ..))
  have hg : Grows s i :=
    hgi.trans ((grows_insertSystem ..).trans (grows_insertSystem ..))
  have hl : Grows i (s.nest set p) := by
    refine ⟨id, id, id, id, fun {o c} mem => ?_⟩
    have hc : (s.nest set p).children = Function.update i.children p
        (some ((i.nested p).insert set)) := rfl
    rw [nested, hc]
    by_cases hs : o = p
    · subst hs
      rw [update_self, getD_some]
      exact mem_insert_of_mem mem
    · rw [update_of_ne hs]
      exact mem
  exact ⟨he.trans (.of_sameCore rfl), hg.trans hl⟩

theorem configSet_spec (c : SystemSetConfig) :
    Edits s (s.configSet c) ∧ Grows s (s.configSet c) := by
  obtain ⟨hec, hgc, -⟩ := initSystemSet_spec s c.set
  have hn : Edits s ((c.parent.map ((s.initSystemSet c.set).nest
        c.set)).getD (s.initSystemSet c.set)) ∧
      Grows s ((c.parent.map ((s.initSystemSet c.set).nest
        c.set)).getD (s.initSystemSet c.set)) := by
    cases c.parent with
    | none => exact ⟨hec, hgc⟩
    | some p =>
      have hn := nest_spec (s.initSystemSet c.set) c.set p
      exact ⟨hec.trans hn.1, hgc.trans hn.2⟩
  have set : ∀ (s : Schedule) o pre post,
      Edits s ((s.initSystemSet o).insertOrder pre post) ∧
        Grows s ((s.initSystemSet o).insertOrder pre post) :=
    fun s o pre post =>
      ⟨(initSystemSet_spec ..).1.trans (insertOrder_spec ..).1,
        (initSystemSet_spec ..).2.1.trans (insertOrder_spec ..).2.1⟩
  constructor
  · exact hn.1.trans ((Edits.foldl (fun _ _ => (set ..).1) _ _).trans
      ((Edits.foldl (fun _ _ => (set ..).1) _ _).trans (Edits.foldl (fun _ _ =>
        (edits_insertSystem ..).trans (insertRunIf_spec ..).1) _ _)))
  · exact hn.2.trans ((Grows.foldl (fun _ _ => (set ..).2) _ _).trans
      ((Grows.foldl (fun _ _ => (set ..).2) _ _).trans (Grows.foldl (fun _ _ =>
        (grows_insertSystem ..).trans (insertRunIf_spec ..).2) _ _)))

end

/-! ## Removals -/

variable {name : SystemId} {key : SystemKey} {buf : SystemBuffer}

/-- The keys that are left when a system is removed. -/
theorem registered_remove (ho : Opened calm s)
    (hf : s.allocator.idents name = some key) (o : SystemKey) :
    (∃ id, (s.allocator.remove name).idents id = some o) ↔
      s.Registered o ∧ o ≠ key := by
  rw [Allocator.idents_remove]
  constructor
  · rintro ⟨id, reg⟩
    have ne : id ≠ name := by
      rintro rfl
      rw [update_self] at reg
      cases reg
    rw [update_of_ne ne] at reg
    refine ⟨⟨id, reg⟩, ?_⟩
    rintro rfl
    exact ne (ho.injective reg hf)
  · rintro ⟨⟨id, reg⟩, ne⟩
    refine ⟨id, ?_⟩
    have o : id ≠ name := by
      rintro rfl
      rw [hf] at reg
      exact ne (some.inj reg).symm
    rw [update_of_ne o]
    exact reg

/-- The other systems that wait for their initialisation. -/
theorem mem_uninit_remove (hn : buf.uninit.Nodup) (key o : SystemKey) :
    o ∈ (buf.remove key).uninit ↔ o ∈ buf.uninit ∧ o ≠ key := by
  have hu : (buf.remove key).uninit = if key ∈ buf.uninit then
      swapRemove buf.uninit (buf.uninit.findIdx (· = key)) else buf.uninit := rfl
  rw [hu]
  split
  · next mem =>
    have hp := cons_swapRemove_perm mem
    have hf := (nodup_cons.mp (hp.nodup_iff.mpr hn)).1
    constructor
    · intro hr
      refine ⟨hp.mem_iff.mp (mem_cons_of_mem _ hr), ?_⟩
      rintro rfl
      exact hf hr
    · rintro ⟨all, ne⟩
      exact (mem_cons.mp (hp.mem_iff.mpr all)).resolve_left ne
  · next ha =>
    refine ⟨fun mem => ⟨mem, ?_⟩, And.left⟩
    rintro rfl
    exact ha mem

theorem nodup_uninit_remove (hn : buf.uninit.Nodup) (key : SystemKey) :
    (buf.remove key).uninit.Nodup := by
  have hu : (buf.remove key).uninit = if key ∈ buf.uninit then
      swapRemove buf.uninit (buf.uninit.findIdx (· = key)) else buf.uninit := rfl
  rw [hu]
  split
  · next mem =>
    exact (nodup_cons.mp ((cons_swapRemove_perm mem).nodup_iff.mpr hn)).2
  · exact hn

theorem nodes_remove (buf : SystemBuffer) (key : SystemKey) :
    (buf.remove key).nodes = Function.update buf.nodes key none := rfl

theorem getSystem_remove (buf : SystemBuffer) (key o : SystemKey) :
    (buf.remove key).getSystem o = if o = key then none else buf.getSystem o := by
  rw [SystemBuffer.getSystem, nodes_remove]
  split
  · next hs =>
    subst hs
    rw [update_self]
    rfl
  · next ne => rw [update_of_ne ne, SystemBuffer.getSystem]

/-- The schedule without the system of a key. -/
def without (schedule : Schedule) (name : SystemId) (key : SystemKey) : Schedule :=
  { schedule with
    allocator := schedule.allocator.remove name
    buffer := schedule.buffer.remove key
    ordering := schedule.ordering.removeNode key
    conflict := schedule.conflict.remove key
    systemSets := fun set => (schedule.systemSets set).map fun ids => ids.erase name }

theorem remove_of_some (hf : s.allocator.idents name = some key) :
    s.remove name = s.touch.without name key := by
  rw [remove]
  split
  · next ha =>
    rw [hf] at ha
    cases ha
  · next o hfo =>
    rw [hf] at hfo
    obtain rfl := some.inj hfo
    by_cases hc : s.isChanged = true
    · simp only [touch, if_pos hc]
      rfl
    · simp only [touch, if_neg hc]
      rfl

/-- The conflicts that are left. -/
theorem Known.conflicts_remove (hk : s.Known) (key a b : SystemKey) :
    (s.conflict.remove key).conflicts a b = true ↔
      s.conflict.conflicts a b = true ∧ a ≠ key ∧ b ≠ key := by
  have hco : (s.conflict.remove key).conflicts a b =
      if a = key ∨ b = key ∧ s.conflict.conflicts key a then false
      else s.conflict.conflicts a b := rfl
  rw [hco]
  split
  · next hg =>
    refine iff_of_false Bool.false_ne_true ?_
    rintro ⟨-, hda, hdb⟩
    exact hg.elim hda fun hb => hdb hb.1
  · next hke =>
    obtain ⟨hda, ho⟩ := not_or.mp hke
    refine ⟨fun hc => ⟨hc, hda, ?_⟩, And.left⟩
    rintro rfl
    exact ho ⟨rfl, (hk.symm b a).trans hc⟩

theorem Known.without (hk : s.Known) (ho : Opened calm s)
    (hf : s.allocator.idents name = some key) : (s.without name key).Known := by
  have reg := registered_remove ho hf
  have hu := mem_uninit_remove ho.uninitNodup key
  have sys := getSystem_remove s.buffer key
  refine ⟨fun o => ?_, fun {a b} hc => ?_, fun a b => Bool.eq_iff_iff.mpr ?_, ?_⟩
  · have he : (s.conflict.remove key).exclusive =
        Function.update s.conflict.exclusive key false := rfl
    show (s.conflict.remove key).exclusive o = true ↔
      o ∉ (s.buffer.remove key).uninit ∧
        ∃ node, (s.buffer.remove key).getSystem o = some node ∧
          node.system.object.exclusive = true
    rw [he, hu, sys]
    by_cases hs : o = key
    · subst hs
      simp
    · rw [update_of_ne hs, if_neg hs, hk.exclusive]
      simp [hs]
  · obtain ⟨hc, hda, -⟩ := (hk.conflicts_remove key a b).mp hc
    obtain ⟨hra, hr⟩ := hk.registered hc
    exact ⟨(reg a).mpr ⟨hra, hda⟩, fun mem => hr ((hu a).mp mem).1⟩
  · rw [Schedule.without, hk.conflicts_remove, hk.conflicts_remove, hk.symm b a,
      and_comm (a := a ≠ key)]
  · intro a b x y ne hre hrb hfa hfb
    have hke : ∀ {o node}, (s.without name key).buffer.getSystem o = some node →
        o ≠ key ∧ s.buffer.getSystem o = some node := by
      intro o node hf
      have hf : (s.buffer.remove key).getSystem o = some node := hf
      rw [sys] at hf
      split at hf
      · cases hf
      · next ne => exact ⟨ne, hf⟩
    obtain ⟨hda, hfa⟩ := hke hfa
    obtain ⟨hdb, hfb⟩ := hke hfb
    intro hpa hpb
    rw [Schedule.without, hk.conflicts_remove, ← hk.conflicts ne
      (fun mem => hre ((hu a).mpr ⟨mem, hda⟩))
      (fun mem => hrb ((hu b).mpr ⟨mem, hdb⟩)) hfa hfb hpa hpb]
    exact and_iff_left ⟨hda, hdb⟩

theorem Opened.without (ho : Opened calm s)
    (hf : s.allocator.idents name = some key) :
    Opened calm (s.without name key) := by
  have reg := registered_remove ho hf
  have hi : ∀ {id o}, (s.allocator.remove name).idents id = some o →
      s.allocator.idents id = some o ∧ o ≠ key := by
    intro id o hk
    have ne : id ≠ name := by
      rintro rfl
      rw [Allocator.idents_remove, update_self] at hk
      cases hk
    refine ⟨(update_of_ne ne ..).symm.trans hk, ((reg o).mp ⟨id, hk⟩).2⟩
  exact
    { changed := ho.changed
      empty := ho.empty
      fresh := fun hk => ho.fresh (hi hk).1
      holds := fun hk => by
        obtain ⟨pre, ne⟩ := hi hk
        obtain ⟨node, he, hn⟩ := ho.holds pre
        exact ⟨node, (update_of_ne ne ..).trans he, hn⟩
      only := fun {o slot} he => by
        have he : (s.buffer.remove key).nodes o = some slot := he
        have ne : o ≠ key := by
          rintro rfl
          rw [nodes_remove, update_self] at he
          cases he
        rw [nodes_remove, update_of_ne ne] at he
        exact (reg o).mpr ⟨ho.only he, ne⟩
      uninit := fun {o} mem => by
        obtain ⟨pre, ne⟩ := (mem_uninit_remove ho.uninitNodup key o).mp mem
        exact (reg o).mpr ⟨ho.uninit pre, ne⟩
      uninitNodup := nodup_uninit_remove ho.uninitNodup key
      dependency := (ho.dependency.removeNode key).congr fun o => (reg o).symm
      condition := (ho.condition.removeNode key).congr fun o => (reg o).symm
      known := fun calm => (ho.known calm).without ho hf }

theorem edits_remove (s : Schedule) (name : SystemId) :
    Edits s (s.remove name) := by
  cases hf : s.allocator.idents name with
  | none =>
    have hs : s.remove name = s := by rw [remove, hf]
    rw [hs]
    exact .refl _
  | some key =>
    rw [remove_of_some hf]
    exact .of_opened fun ho => ho.without ((allocator_touch s).symm ▸ hf)

theorem edits_removeSystemSetInner (s : Schedule) (o : HashOrder) (set : SystemSet) :
    Edits s (s.removeSystemSetInner o set) := by
  rw [removeSystemSetInner]
  split
  · exact .refl _
  · refine (Edits.of_sameCore ?_).trans (Edits.foldl edits_remove _ _)
    rfl

theorem edits_removeSetRecursive (o : HashOrder) (fuel : ℕ) : ∀ {s post : Schedule}
    {set : SystemSet}, removeSetRecursive o fuel s set = some post →
    Edits s post := by
  induction fuel with
  | zero => exact fun hd => nomatch hd
  | succ fuel ih =>
    intro s post set hd
    have hl : ∀ (c : List SystemSet) {pre post : Schedule},
        c.foldlM (removeSetRecursive o fuel) pre = some post →
        Edits pre post := by
      intro c
      induction c with
      | nil =>
        intro pre post hd
        obtain rfl := some.inj hd
        exact .refl _
      | cons ch rest ht =>
        intro pre post hd
        obtain ⟨mid, one, two⟩ := bind_eq_some_iff.mp hd
        exact (ih one).trans (ht two)
    obtain ⟨b, hi, rfl⟩ := map_eq_some_iff.mp hd
    refine Edits.trans ?_ (edits_removeSystemSetInner b o set)
    split at hi
    · obtain rfl := some.inj hi
      exact .refl _
    · refine Edits.trans (.of_sameCore ?_) (hl _ hi)
      rfl

end Voker.Ecs.Schedule
