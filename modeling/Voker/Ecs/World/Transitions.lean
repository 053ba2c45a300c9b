import Voker.Ecs.World.Canonical

/-!
# The archetype an entity moves to

Inserting a bundle leads from an archetype to the one with the union of the components,
removing a bundle to the one with what remains and everything that requires.  Both are
cached per archetype and bundle.

The specifications of `arche_after_insert` and `arche_after_remove` say which set of
components the returned archetype has.  A set of components has one archetype only, so
**a cached answer is the answer the uncached computation would give**
(`archeAfterInsert_eq_slow`, `archeAfterRemove_eq_slow`).
-/

namespace Voker.Ecs.World

open Foundation List Option Prod ComponentSlice

variable {τ V : Type} {P : Program τ V} {w : World τ V}

/-! ## Insertion -/

variable {info : ComponentSlice} {id : ArcheId} {arche : Archetype} {res : ArcheId × World τ V}

theorem mem_insertSlice {arche : ComponentSlice} {id : ComponentId} :
    id ∈ (insertSlice arche info).components ↔ id ∈ arche.components ∨ id ∈ info.components := by
  rw [insertSlice, mem_components, denseComponents_ofParts,
    sparseComponents_ofParts, mem_sortDedup, mem_sortDedup, mem_append,
    mem_append, mem_components, mem_components, or_or_or_comm]

variable {cs : Components τ}

theorem split_insertSlice {arche : ComponentSlice} (hf : ComponentSlice.Split P cs arche)
    (snd : ComponentSlice.Split P cs info) :
    ComponentSlice.Split P cs (insertSlice arche info) := by
  refine split_ofParts (fun id mem => ?_) (fun id mem => ?_)
  · exact (mem_append.mp mem).elim (hf.dense id) (snd.dense id)
  · exact (mem_append.mp mem).elim (hf.sparse id) (snd.sparse id)

/-- A bundle keeps its number and its slice. -/
theorem Statics.bundle {pre post : World τ V} (hs : Statics pre post)
    {b : BundleId} (entry : pre.bundles.infos[b]? = some info) :
    post.bundles.infos[b]? = some info :=
  getElem?_grow hs.bundles entry

section

variable (reg : Registered P w) {b : BundleId}
  (here : w.archetypes.arches[id]? = some arche)
  (entry : w.bundles.infos[b]? = some info)

include reg here entry

omit here in
/-- A cached target is where the transition leads. -/
theorem Cached.arrives {s : ComponentSlice} {res : ArcheId}
    {Target : Components τ → ComponentSlice → ComponentSlice → ComponentSlice → Prop}
    (hc : Cached w (Target w.components) s b res) :
    Arrives P w (some (res, w)) fun cs => Target cs s info := by
  obtain ⟨o, t, hst, aim, hl⟩ := hc
  obtain rfl := some.inj (entry.symm.trans hst)
  exact ⟨res, w, rfl, reg, Grew.refl w, t, aim, hl⟩

/-- `arche_after_insert_slow` leads to the union. -/
theorem Registered.archeAfterInsertSlow : Arrives P w (w.archeAfterInsertSlow id b)
      fun _ => InsertTarget arche.toComponentSlice info := by
  obtain ⟨mid, hg, hf, hst, hsa⟩ := reg.findArchetype
    (split_insertSlice (reg.archeSplit arche (mem_of_getElem? here))
      (reg.bundleSplit info (mem_of_getElem? entry)))
  have hl : InsertTarget arche.toComponentSlice info hf.toComponentSlice := by
    intro c
    rw [hsa, mem_insertSlice]
  obtain ⟨now, hiw, hsn, -⟩ := hg.arches id arche here
  unfold World.archeAfterInsertSlow
  rw [here, entry]
  dsimp only
  generalize w.findArchetype (insertSlice arche.toComponentSlice info) = pair
    at mid hg hst hiw ⊢
  obtain ⟨hfi, hga⟩ := @ofCache _ _ _ _ mid id
    (fun arche => arche.setAfterInsert b pair.1) (by
      intro o hin e res hc
      obtain rfl := some.inj (hiw.symm.trans hin)
      rcases entry_of_update hc with ⟨rfl, rfl⟩ | hc
      · rw [hsn]
        exact ⟨info, hf, hg.bundle entry, hst, hl⟩
      · exact mid.afterInsert id now e res hiw hc)
    (fun o hin e res hc => mid.afterRemove id o e res hin hc)
    fun _ => ⟨rfl, rfl, rfl, rfl⟩
  obtain ⟨t, hif, hs, -⟩ := hga.arches _ _ hst
  exact ⟨_, _, rfl, hfi, hg.trans hga, t, hif, by rw [hs]; exact hl⟩

/-- `arche_after_insert` leads to the union. -/
theorem Registered.archeAfterInsert : Arrives P w (w.archeAfterInsert id b)
      fun _ => InsertTarget arche.toComponentSlice info := by
  unfold World.archeAfterInsert
  rw [here]
  dsimp only
  cases hc : arche.afterInsert b with
  | none => exact reg.archeAfterInsertSlow here entry
  | some res =>
    exact Cached.arrives reg entry (reg.afterInsert id arche b res here hc)

end

/-! ## Removal -/

/-- Finding an archetype registers no component. -/
theorem findArchetype_components (w : World τ V) (s : ComponentSlice) :
    (w.findArchetype s).2.components = w.components := by
  unfold findArchetype
  split
  · rfl
  · rfl

theorem mem_remaining {arche : ComponentSlice} (hf : ComponentSlice.Split P cs arche)
    (snd : ComponentSlice.Split P cs info) {id : ComponentId} :
    id ∈ (remaining arche info).components ↔ id ∈ arche.components ∧ id ∉ info.components := by
  simp only [remaining, mem_components, denseComponents_ofParts,
    sparseComponents_ofParts, mem_filter, decide_eq_true_eq]
  constructor
  · rintro (⟨hid, ha⟩ | ⟨his, ha⟩)
    · refine ⟨.inl hid, not_or.mpr ⟨ha, fun his => ?_⟩⟩
      cases (hf.dense id hid).symm.trans (snd.sparse id his)
    · refine ⟨.inr his, not_or.mpr ⟨fun hid => ?_, ha⟩⟩
      cases (hf.sparse id his).symm.trans (snd.dense id hid)
  · rintro ⟨hid | his, ha⟩
    · exact .inl ⟨hid, (not_or.mp ha).1⟩
    · exact .inr ⟨his, (not_or.mp ha).2⟩

section Types

variable [DecidableEq τ] [Fintype τ]

/-- The types the given components require directly. -/
def directRequirements (P : Program τ V) (components : Components τ)
    (idents : List ComponentId) : List τ :=
  idents.flatMap fun id => (components.infos[id]?.map P.requires).getD []

variable {cs : Components τ} {rest : ComponentSlice}

omit [DecidableEq τ] [Fintype τ] in
theorem mem_directRequirements {i : List ComponentId} {type : τ} :
    type ∈ directRequirements P cs i ↔
      ∃ id ∈ i, ∃ root, cs.infos[id]? = some root ∧ type ∈ P.requires root := by
  unfold directRequirements
  rw [mem_flatMap]
  refine exists_congr fun id => and_congr_right fun _ => ?_
  cases cs.infos[id]? with
  | none => simp
  | some root => simp

/-- Collecting the requirements of registered components explores them. -/
theorem collectRequirements_spec {cs : Components τ}
    (con : cs.Consistent) {i : List ComponentId}
    (hk : ∀ id ∈ i, id < cs.infos.length) : ComponentCollector.Registers P cs
        (collectRequirements P cs i).components ∧
      ∃ types, (collectRequirements P cs i).Stands P types ∧
        Explored P.requires (directRequirements P cs i) [] types := by
  -- the collector runs over the components while its registry grows
  suffices hge : ∀ step : ComponentCollector τ → ComponentId → ComponentCollector τ,
      (∀ col id type, col.components.infos[id]? = some type →
        step col id = (P.requires type).foldl (ComponentCollector.collectRequired P) col) →
      ∀ (i : List ComponentId) (col : ComponentCollector τ) (types : List τ),
      (∀ id ∈ i, id < cs.infos.length) →
      cs.infos <+: col.components.infos → col.Stands P types →
      ComponentCollector.Registers P col.components (i.foldl step col).components ∧
      ∃ post, (i.foldl step col).Stands P post ∧
        Explored P.requires (directRequirements P cs i) types post from
    hge _ (fun col id type hf => by simp only [hf]) i _ [] hk
      prefix_rfl (ComponentCollector.Stands.new P con)
  intro step hst i
  induction i with
  | nil =>
    intro col types _ _ hs
    exact ⟨ComponentCollector.Registers.refl P hs.consistent, types, hs, Explored.nil _ _⟩
  | cons id rest ih =>
    intro col types hk grows hs
    have hin := hk id mem_cons_self
    have hl := getElem?_grow grows (getElem?_eq_getElem hin)
    obtain ⟨one, mid, hs, hfi⟩ := ComponentCollector.collectRequired_all P
      (P.requires cs.infos[id]) hs
    rw [foldl_cons, hst _ _ _ hl]
    obtain ⟨two, post, hs, snd⟩ := ih _ mid
      (fun o mem => hk o (mem_cons_of_mem _ mem)) (grows.trans one.grows) hs
    refine ⟨one.trans two, post, hs, ?_⟩
    have hsp : directRequirements P cs (id :: rest) =
        P.requires cs.infos[id] ++ directRequirements P cs rest := by
      rw [directRequirements, flatMap_cons, getElem?_eq_getElem hin]
      rfl
    rw [hsp]
    exact hfi.append snd

variable {types : List τ} {col : ComponentCollector τ} {info : ComponentSlice}
  {arche : Archetype}

omit [DecidableEq τ] [Fintype τ] in
theorem split_removeSlice (hs : col.Stands P types)
    (hd : ∀ id ∈ rest.denseComponents, col.components.storage P id = some .dense)
    (hsp : ∀ id ∈ rest.sparseComponents, col.components.storage P id = some .sparse) :
    ComponentSlice.Split P col.components (removeSlice rest col.unsorted) := by
  refine split_ofParts (fun id mem => ?_) (fun id mem => ?_)
  · exact (mem_append.mp mem).elim (fun hin => ((hs.dense id).mp hin).2) (hd id)
  · exact (mem_append.mp mem).elim (fun hin => ((hs.sparse id).mp hin).2) (hsp id)

omit [DecidableEq τ] [Fintype τ] in
theorem mem_removeSlice (hs : col.Stands P types) {id : ComponentId} :
    id ∈ (removeSlice rest col.unsorted).components ↔
      id ∈ col.collected ∨ id ∈ rest.components := by
  rw [removeSlice, mem_components, denseComponents_ofParts,
    sparseComponents_ofParts, mem_sortDedup, mem_sortDedup, mem_append,
    mem_append, or_or_or_comm, ← mem_components]
  exact or_congr_left (mem_collected hs)

omit [DecidableEq τ] [Fintype τ] in
/-- What remains and what its direct requirements reach is what it requires. -/
theorem mem_or_collected_iff {rest : List ComponentId} (hs : col.Stands P types)
    (hg : cs.infos <+: col.components.infos) (hk : ∀ id ∈ rest, id < cs.infos.length)
    (he : Explored P.requires (directRequirements P cs rest) [] types)
    {id : ComponentId} : id ∈ col.collected ∨ id ∈ rest ↔
      ∃ root ∈ rest, col.components.Requires P root id := by
  have hl : ∀ {root : ComponentId} {type : τ}, root ∈ rest →
      (col.components.infos[root]? = some type ↔ cs.infos[root]? = some type) := by
    intro root type mem
    rw [getElem?_eq_grow hg (hk root mem)]
  constructor
  · rintro (mem | mem)
    · have hin := hs.lt_length mem
      have n := getElem?_eq_getElem hin
      obtain ⟨f, hid, hp⟩ := he.mem_iff.mp ((hs.mem_iff n).mp mem)
      obtain ⟨root, hir, type, hrt, hed⟩ := mem_directRequirements.mp hid
      exact ⟨root, hir, type, _, (hl hir).mpr hrt, n,
        Relation.ReflTransGen.head hed hp⟩
    · refine ⟨id, mem, Components.requires_self ?_⟩
      exact (hk id mem).trans_le hg.length_le
  · rintro ⟨root, hir, type, t, hrt, n, hp⟩
    rcases Relation.ReflTransGen.cases_head hp with hsa | ⟨f, hed, hp⟩
    · subst hsa
      rw [Interned.id_unique hs.consistent n hrt]
      exact .inr hir
    · refine .inl ((hs.mem_iff n).mpr (he.mem_iff.mpr ⟨f, ?_, hp⟩))
      exact mem_directRequirements.mpr ⟨root, hir, type, (hl hir).mp hrt, hed⟩

/-- The slice a removal leads to. -/
theorem removeSlice_spec (reg : Registered P w) (here : arche ∈ w.archetypes.arches)
    (entry : info ∈ w.bundles.infos)
    (hc : col = collectRequirements P w.components (remaining
      arche.toComponentSlice info).components) :
    ComponentCollector.Registers P w.components col.components ∧
      ComponentSlice.Split P col.components
        (removeSlice (remaining arche.toComponentSlice info) col.unsorted) ∧
      RemoveTarget P col.components arche.toComponentSlice info
        (removeSlice (remaining arche.toComponentSlice info) col.unsorted) := by
  have hf := reg.archeSplit arche here
  have snd := reg.bundleSplit info entry
  have hk : ∀ id ∈ (remaining arche.toComponentSlice info).components,
      id < w.components.infos.length := fun id mem =>
    hf.registered ((mem_remaining hf snd).mp mem).1
  obtain ⟨hr, types, hs, he⟩ :=
    @collectRequirements_spec τ V P _ _ _ reg.components _ hk
  rw [← hc] at hr hs
  have hg := hf.grow hr.grows
  refine ⟨hr, split_removeSlice hs (fun id mem => ?_) (fun id mem => ?_), ?_⟩
  · simp only [remaining, denseComponents_ofParts, mem_filter] at mem
    exact hg.dense id mem.1
  · simp only [remaining, sparseComponents_ofParts, mem_filter] at mem
    exact hg.sparse id mem.1
  · intro id
    rw [mem_removeSlice hs, mem_or_collected_iff hs hr.grows hk he]
    refine exists_congr fun root => ?_
    rw [mem_remaining hf snd, and_assoc]

section

variable (reg : Registered P w) {id : ArcheId} {b : BundleId}
  (here : w.archetypes.arches[id]? = some arche)
  (entry : w.bundles.infos[b]? = some info)

include reg here entry

/-- `arche_after_remove_slow` leads to what remains and what that requires. -/
theorem Registered.archeAfterRemoveSlow : Arrives P w (w.archeAfterRemoveSlow P id b)
      fun cs => RemoveTarget P cs arche.toComponentSlice info := by
  unfold World.archeAfterRemoveSlow
  rw [here, entry]
  dsimp only
  obtain ⟨col, hco⟩ : ∃ col, col = collectRequirements P
    w.components (remaining arche.toComponentSlice info).components := ⟨_, rfl⟩
  obtain ⟨hre, hs, hl⟩ := removeSlice_spec reg
    (mem_of_getElem? here) (mem_of_getElem? entry) hco
  rw [← hco]
  obtain ⟨hgr, hgf⟩ := reg.ofComponents hre
  obtain ⟨mid, hgs, hf, hst, hsa⟩ := hgr.findArchetype hs
  have hr := findArchetype_components { w with components := col.components }
    (removeSlice (remaining arche.toComponentSlice info) col.unsorted)
  have hg := hgf.trans hgs
  obtain ⟨now, hin, hsn, -⟩ := hg.arches id arche here
  generalize World.findArchetype { w with components := col.components }
    (removeSlice (remaining arche.toComponentSlice info) col.unsorted) = pair
    at mid hg hst hin hr ⊢
  have ha : RemoveTarget P pair.2.components arche.toComponentSlice info hf.toComponentSlice := by
    intro c
    rw [hsa, hr]
    exact hl c
  obtain ⟨hfi, hga⟩ := @ofCache _ _ _ _ mid id
    (fun arche => arche.setAfterRemove b pair.1) (fun o his e res hc =>
      mid.afterInsert id o e res his hc) (by
      intro o his e res hc
      obtain rfl := some.inj (hin.symm.trans his)
      rcases entry_of_update hc with ⟨rfl, rfl⟩ | hc
      · rw [hsn]
        exact ⟨info, hf, hg.bundle entry, hst, ha⟩
      · exact mid.afterRemove id now e res hin hc)
    fun _ => ⟨rfl, rfl, rfl, rfl⟩
  obtain ⟨t, hif, hsl, -⟩ := hga.arches _ _ hst
  exact ⟨_, _, rfl, hfi, hg.trans hga, t, hif, by rw [hsl]; exact ha⟩

/-- `arche_after_remove` leads to what remains and what that requires. -/
theorem Registered.archeAfterRemove : Arrives P w (w.archeAfterRemove P id b)
      fun cs => RemoveTarget P cs arche.toComponentSlice info := by
  unfold World.archeAfterRemove
  rw [here]
  dsimp only
  cases hc : arche.afterRemove b with
  | none => exact reg.archeAfterRemoveSlow here entry
  | some res =>
    exact Cached.arrives reg entry (reg.afterRemove id arche b res here hc)

end

end Types

/-! ## Numbers that lead somewhere exist -/

section

variable (reg : Registered P w)

include reg

theorem registerArchetype_entry {b : BundleId} (out : w.registerArchetype b = some res) :
    ∃ info, w.bundles.infos[b]? = some info := by
  unfold registerArchetype at out
  cases hk : w.archetypes.bundles b with
  | some id =>
    obtain ⟨s, -, hst, -⟩ := reg.archeBundle b id hk
    exact ⟨s, hst⟩
  | none =>
    cases entry : w.bundles.infos[b]? with
    | some info => exact ⟨info, rfl⟩
    | none =>
      simp only [hk, entry] at out
      cases out

theorem archeAfterInsert_entry {b : BundleId} (out : w.archeAfterInsert id b = some res) :
    ∃ arche info, w.archetypes.arches[id]? = some arche ∧ w.bundles.infos[b]? = some info := by
  unfold archeAfterInsert at out
  cases here : w.archetypes.arches[id]? with
  | none =>
    rw [here] at out
    cases out
  | some arche =>
    cases hc : arche.afterInsert b with
    | some t =>
      obtain ⟨info, -, hst, -⟩ := reg.afterInsert id arche b t here hc
      exact ⟨arche, info, rfl, hst⟩
    | none =>
      cases entry : w.bundles.infos[b]? with
      | some info => exact ⟨arche, info, rfl, rfl⟩
      | none =>
        simp only [here, hc, archeAfterInsertSlow, entry] at out
        cases out

theorem archeAfterRemove_entry [DecidableEq τ] [Fintype τ] {b : BundleId}
    (out : w.archeAfterRemove P id b = some res) :
    ∃ arche info, w.archetypes.arches[id]? = some arche ∧ w.bundles.infos[b]? = some info := by
  unfold archeAfterRemove at out
  cases here : w.archetypes.arches[id]? with
  | none =>
    rw [here] at out
    cases out
  | some arche =>
    cases hc : arche.afterRemove b with
    | some t =>
      obtain ⟨info, -, hst, -⟩ := reg.afterRemove id arche b t here hc
      exact ⟨arche, info, rfl, hst⟩
    | none =>
      cases entry : w.bundles.infos[b]? with
      | some info => exact ⟨arche, info, rfl, rfl⟩
      | none =>
        simp only [here, hc, archeAfterRemoveSlow, entry] at out
        cases out

/-! ## The cache agrees with the computation -/

/-- A set of components has one archetype. -/
theorem findArchetype_eq {res : ArcheId} {t : Archetype}
    (aim : w.archetypes.arches[res]? = some t) {s : ComponentSlice}
    (hs : ComponentSlice.Split P w.components s)
    (hsa : ∀ id, id ∈ t.components ↔ id ∈ s.components) :
    w.findArchetype s = (res, w) := by
  have cs := (reg.archeSplit t (mem_of_getElem? aim)).components_eq
    hs hsa
  have hf : w.archetypes.getId s.components = some res := by
    refine (reg.archetypes _ res).mpr ?_
    rw [getElem?_map, aim, map_some, cs]
  unfold findArchetype
  rw [hf]

/-- **A cached insertion is what the computation gives.** -/
theorem archeAfterInsert_eq_slow {b : BundleId} (here : w.archetypes.arches[id]? = some arche)
    (entry : w.bundles.infos[b]? = some info) : (w.archeAfterInsert id b).map fst =
      (w.archeAfterInsertSlow id b).map fst := by
  unfold archeAfterInsert
  rw [here]
  dsimp only
  cases hc : arche.afterInsert b with
  | none => rfl
  | some res =>
    obtain ⟨o, t, hst, aim, hl⟩ := reg.afterInsert id arche b res here hc
    obtain rfl := some.inj (entry.symm.trans hst)
    have hf := findArchetype_eq reg aim
      (split_insertSlice (reg.archeSplit arche (mem_of_getElem? here))
        (reg.bundleSplit info (mem_of_getElem? entry)))
      (fun c => (hl c).trans mem_insertSlice.symm)
    unfold archeAfterInsertSlow
    rw [here, entry]
    dsimp only
    rw [hf]
    rfl

/-- **A cached removal is what the computation gives.** -/
theorem archeAfterRemove_eq_slow [DecidableEq τ] [Fintype τ] {b : BundleId}
    (here : w.archetypes.arches[id]? = some arche) (entry : w.bundles.infos[b]? = some info) :
    (w.archeAfterRemove P id b).map fst = (w.archeAfterRemoveSlow P id b).map fst := by
  unfold archeAfterRemove
  rw [here]
  dsimp only
  cases hca : arche.afterRemove b with
  | none => rfl
  | some res =>
    obtain ⟨o, t, hst, aim, hl⟩ := reg.afterRemove id arche b res here hca
    obtain rfl := some.inj (entry.symm.trans hst)
    obtain ⟨col, hc⟩ : ∃ col, col = collectRequirements P
      w.components (remaining arche.toComponentSlice info).components := ⟨_, rfl⟩
    obtain ⟨hr, hs, hco⟩ := removeSlice_spec reg
      (mem_of_getElem? here) (mem_of_getElem? entry) hc
    have hg := (reg.ofComponents hr).1
    have hf := findArchetype_eq hg aim hs (fun c => by
      rw [hl c, hco c]
      refine exists_congr fun root => and_congr_right fun mem => and_congr_right fun _ => ?_
      exact (Components.requires_of_prefix hr.consistent reg.linked
        hr.grows ((reg.archeSplit arche (mem_of_getElem? here)).registered mem)).symm)
    unfold archeAfterRemoveSlow
    rw [here, entry]
    dsimp only
    rw [← hc, hf]
    rfl

end

end Voker.Ecs.World
