import Mathlib.Data.Set.Finite.Lattice
import Voker.Ecs.System.AccessTable

/-!
# When systems may run in parallel

The scheduler runs two systems at the same time if their access tables are
`parallelizable`.  This module compares that decision with what the systems access: the
world as a whole, a resource, or a component of the entities of an archetype.

The tables decide correctly except in two situations.  **A system that holds `&World` is
compatible with every system that is not exclusive**, since the flag is not compared.  And
**a query for `EntityRef` is forgotten when another query of the same system uses the same
filter descriptor without `EntityRef`**; the same loss happens when two systems are merged
into one (`merge_lossless_iff`).
-/

namespace Voker.Ecs

open Foundation List AccessParam AccessTable FilterParam

/-! ## Accesses -/

/-- What systems may compete for: the world as a whole, a resource, and a component of
the entities in an archetype, which is given by its set of components. -/
inductive Datum where
  | world
  | resource (id : ResourceId)
  | component (arche : Set ComponentId) (id : ComponentId)

namespace SystemParam

/-- The parameter lets its system read (or write) the datum.  Holding the world is reading
everything in it; a query reaches the archetypes that satisfy one of its descriptors. -/
def Touches : SystemParam → Datum → Prop
  | worldRef, _ => True
  | worldMut, _ => True
  | res id, .resource other => other = id
  | resMut id, .resource other => other = id
  | query calls filters, .component arche id =>
    id ∈ arche ∧ (∃ param ∈ filters, param.Matches arche) ∧ ∃ call ∈ calls, call.Reads id
  | _, _ => False

/-- The parameter lets its system write the datum. -/
def Writes : SystemParam → Datum → Prop
  | worldMut, _ => True
  | resMut id, .resource other => other = id
  | query calls filters, .component arche id =>
    id ∈ arche ∧ (∃ param ∈ filters, param.Matches arche) ∧ ∃ call ∈ calls, call.Writes id
  | _, _ => False

end SystemParam

section

variable (params : List SystemParam)

/-- A system reads or writes a datum. -/
def Touches (datum : Datum) : Prop :=
  ∃ param ∈ params, param.Touches datum

/-- A system writes a datum. -/
def Writes (datum : Datum) : Prop :=
  ∃ param ∈ params, param.Writes datum

/-- One of two systems writes what the other one reads or writes. -/
def Conflict (first second : List SystemParam) : Prop :=
  ∃ datum, (Writes first datum ∧ Touches second datum) ∨
    (Writes second datum ∧ Touches first datum)

/-- Two queries of the system use the descriptor, and only one of them holds `EntityRef`. -/
def Forgets (param : FilterParam) : Prop :=
  (∃ calls filters, .query calls filters ∈ params ∧ param ∈ filters ∧ .entityRef ∈ calls) ∧
    ∃ calls filters, .query calls filters ∈ params ∧ param ∈ filters ∧ .entityRef ∉ calls

end

/-- What the table of a system does not record is not written by the other system: nothing
at all if the first one holds `&World`, and no component in the archetypes of a descriptor
under which it forgets an `EntityRef`. -/
structure Spared (holder other : List SystemParam) : Prop where
  world : .worldRef ∈ holder → ∀ datum, ¬ Writes other datum
  entity : ∀ param arche id, Forgets holder param → param.Matches arche →
    ¬ Writes other (.component arche id)

/-! ## The decision -/

section Decision

variable {first second : List SystemParam} {table other : AccessTable}

theorem parallelizable_comm (one : Describes first table) (two : Describes second other)
    (hp : table.parallelizable other = true) : other.parallelizable table = true :=
  AccessTable.Valid.parallelizable_of (fun _ _ => one.valid) (fun _ _ => two.valid) hp

variable {param : FilterParam} {params : List SystemParam} {id : ComponentId}

/-- A bucket shows every component its queries read, unless an `EntityRef` was forgotten. -/
theorem reads_of_not_forgets {item data : AccessParam}
    (hs : Buckets.Summary (Queries params param) item) (hr : ¬ Forgets params param)
    (hq : Queries params param data) (hre : data.Reads id) : item.Reads id := by
  rcases hre with hn | her
  · exact .inl ((hs.names id).mpr ⟨data, hq, hn⟩)
  · refine .inr (hs.entityRef.mpr fun second hqs => ?_)
    by_contra hu
    obtain ⟨calls, filters, mem, hde, hue⟩ := hq
    obtain ⟨calls', filters', hm, hd, hus⟩ := hqs
    refine hr ⟨⟨calls, filters, mem, hue, ?_⟩, calls', filters', hm, hus, ?_⟩
    · exact (declare_spec hde).2.2.2.mp her
    · exact fun he => hu ((declare_spec hd).2.2.2.mpr he)

/-- A system that holds `&World` has no query that writes. -/
theorem unshared_of_writes (one : Describes first table) {data : AccessParam}
    (hq : Queries first param data) (hw : data.Writes id) : table.worldRef = false := by
  cases hs : table.worldRef with
  | false => rfl
  | true =>
    have hro := (one.shared hs).2.2 param data hq
    exact absurd hw (isReadOnly_iff.mp hro id)

/-- **Compatible tables rule out every conflict that they record.** -/
theorem not_touches_of_parallelizable (one : Describes first table) (two : Describes second other)
    (hp : table.parallelizable other = true) (hsp : Spared second first) {datum : Datum}
    (hw : Writes first datum) : ¬ Touches second datum := by
  rintro ⟨reader, hri, ht⟩
  obtain ⟨⟨hfe, hft⟩, ⟨ha, -⟩, hb⟩ := parallelizable_iff.mp hp
  have hun : SystemParam.worldRef ∉ second := fun he => hsp.world he datum hw
  have hu : other.worldRef = false := by
    simpa using fun hfl => hun (two.worldRef.mp hfl)
  have hnm : SystemParam.worldMut ∉ second := fun mem => by
    simp [two.worldMut.mpr mem] at hft
  have hwr := hw
  obtain ⟨writer, hwi, hw⟩ := hw
  cases writer with
  | worldRef => exact hw
  | worldMut => simp [one.worldMut.mpr hwi] at hfe
  | res id => exact hw
  | resMut id =>
    cases datum with
    | world => exact hw
    | component arche other => exact hw
    | resource target =>
      cases (show target = id from hw)
      -- what the other system reads of resources is in its table, since it does not
      -- hold the world
      have hc : id ∉ other.resReading :=
        Finset.disjoint_left.mp ha ((one.resWriting id).mpr hwi)
      rw [two.resReading hu, not_or] at hc
      cases reader with
      | worldRef => exact hun hri
      | worldMut => exact hnm hri
      | res id =>
        cases (show _ = id from ht)
        exact hc.1 hri
      | resMut id =>
        cases (show _ = id from ht)
        exact hc.2 hri
      | query calls filters => exact ht
  | query calls filters =>
    cases datum with
    | world => exact hw
    | resource target => exact hw
    | component arche id =>
      obtain ⟨-, ⟨param, hus, hfi⟩, call, hca, hcw⟩ := hw
      cases reader with
      | worldRef => exact hun hri
      | worldMut => exact hnm hri
      | res id => exact ht
      | resMut id => exact ht
      | query callsOther filtersOther =>
        obtain ⟨-, ⟨against, huo, hfo⟩, callOther, hco, reads⟩ := ht
        obtain ⟨data, hd⟩ := one.declared calls filters hwi
        obtain ⟨dataOther, hdo⟩ := two.declared callsOther filtersOther hri
        have hq : Queries first param data := ⟨calls, filters, hwi, hd, hus⟩
        have hqo : Queries second against dataOther :=
          ⟨callsOther, filtersOther, hri, hdo, huo⟩
        have hdw : data.Writes id :=
          ((declare_spec hd).2.2.1 id).mpr ⟨call, hca, hcw⟩
        have hdr : dataOther.Reads id :=
          ((declare_spec hdo).2.1 id).mpr ⟨callOther, hco, reads⟩
        obtain ⟨item, hf, hs⟩ :=
          (one.buckets (unshared_of_writes one hq hdw)).bucket hq
        obtain ⟨met, hfu, hso⟩ := (two.buckets hu).bucket hqo
        have ho := isDisjoint_eq_false hfi hfo
        obtain ⟨-, -, hcm⟩ :=
          (parallelizable_iff hs.valid hso.valid).mp
            (hb param item against met hf hfu ho)
        refine (hcm id).1 ((hs.writes id).mpr ⟨data, hq, hdw⟩) ?_
        exact reads_of_not_forgets hso
          (fun hfr => hsp.entity against arche id hfr hfo hwr)
          hqo hdr

/-- A component that is written belongs to the archetype, unless the writer holds the whole
world. -/
theorem mem_of_writes {arche : Set ComponentId} (hf : .worldMut ∉ params)
    (hw : Writes params (.component arche id)) : id ∈ arche := by
  obtain ⟨writer, mem, hw⟩ := hw
  cases writer with
  | worldMut => exact absurd mem hf
  | query calls filters => exact hw.1
  | worldRef => exact hw.elim
  | res id => exact hw.elim
  | resMut id => exact hw.elim

/-- A query whose `EntityRef` is forgotten still reads all components of its archetypes. -/
theorem touches_of_forgets {arche : Set ComponentId} (hf : Forgets params param)
    (hfi : param.Matches arche) (has : id ∈ arche) : Touches params (.component arche id) := by
  obtain ⟨⟨calls, filters, mem, hu, he⟩, -⟩ := hf
  exact ⟨_, mem, has, ⟨param, hu, hfi⟩, .entityRef, he, trivial⟩

/-- No component is written in the archetypes of a descriptor under which the other
system forgets an `EntityRef`. -/
def Remembered (holder other : List SystemParam) : Prop :=
  ∀ param arche id, Forgets holder param → param.Matches arche →
    ¬ Writes other (.component arche id)

theorem remembered_of_apart {holder other : List SystemParam} (hfr : .worldMut ∉ other)
    (ha : ∀ arche id, ¬ (Writes other (.component arche id) ∧
      Touches holder (.component arche id))) : Remembered holder other :=
  fun _ _ _ hf hfi hw =>
    ha _ _ ⟨hw, touches_of_forgets hf hfi (mem_of_writes hfr hw)⟩

/-- **When the decision is right.**  Compatible systems do not conflict exactly if neither
writes what the other one's table does not record. -/
theorem parallelizable_safe_iff (builtFirst : build first = some table)
    (builtSecond : build second = some other)
    (parallel : table.parallelizable other = true) :
    ¬ Conflict first second ↔ Spared first second ∧ Spared second first := by
  have one := describes_build builtFirst
  have two := describes_build builtSecond
  have hsp : ∀ {holder rival : List SystemParam}, .worldMut ∉ rival →
      (∀ datum, ¬ (Writes rival datum ∧ Touches holder datum)) → Spared holder rival :=
    fun hf hs =>
      { world := fun he datum hw => hs datum ⟨hw, _, he, trivial⟩
        entity := remembered_of_apart hf fun _ _ => hs _ }
  obtain ⟨⟨hfo, hft⟩, -, -⟩ := parallelizable_iff.mp parallel
  have hnmo : .worldMut ∉ first := fun hm => by
    simp [one.worldMut.mpr hm] at hfo
  have hnmt : .worldMut ∉ second := fun hm => by
    simp [two.worldMut.mpr hm] at hft
  constructor
  · intro hs
    exact ⟨hsp hnmt fun datum hc => hs ⟨datum, .inr hc⟩,
      hsp hnmo fun datum hc => hs ⟨datum, .inl hc⟩⟩
  · rintro ⟨hsf, hss⟩ ⟨datum, ⟨hw, ht⟩ | ⟨hw, ht⟩⟩
    · exact not_touches_of_parallelizable one two parallel hss hw ht
    · exact not_touches_of_parallelizable two one (parallelizable_comm one two parallel)
        hsf hw ht

end Decision

/-- A reader and a writer of different resources. -/
theorem parallelizable_safe_resources : ¬ Conflict [.res 0] [.resMut 1] := by
  refine (parallelizable_safe_iff rfl rfl (by decide)).mpr ⟨⟨by simp, ?_⟩, ⟨by simp, ?_⟩⟩ <;>
  · rintro param arche id ⟨⟨calls, filters, mem, -⟩, -⟩
    simp at mem

/-- `&World` beside `ResMut`: the tables are compatible, and one system reads what the
other one writes. -/
theorem world_reader_beside_writer : ∃ table other,
    build [.worldRef] = some table ∧ build [.resMut 0] = some other ∧
      table.parallelizable other = true ∧ Conflict [.worldRef] [.resMut 0] :=
  ⟨_, _, rfl, rfl, by decide, .resource 0,
    .inr ⟨⟨.resMut 0, mem_singleton_self _, rfl⟩, .worldRef, mem_singleton_self _,
      trivial⟩⟩

/-! ## Systems of queries and resources -/

/-- The system does not hold the world. -/
def QueriesOnly (params : List SystemParam) : Prop := .worldRef ∉ params ∧ .worldMut ∉ params

/-- On no archetype does a query of one system write a component that a query of the other
one reads or writes. -/
def QueriesApart (first second : List SystemParam) : Prop :=
  ∀ one ∈ first, ∀ two ∈ second, ∀ arche id,
    ¬ (one.Writes (.component arche id) ∧ two.Touches (.component arche id)) ∧
      ¬ (two.Writes (.component arche id) ∧ one.Touches (.component arche id))

/-- **Filters and queries.**  No archetype satisfies two disjoint descriptors; and
compatible systems of queries and resources are apart on every archetype exactly if
neither writes under a descriptor for which the other one forgets an `EntityRef`. -/
theorem isDisjoint_sound_and_queriesApart_iff (first second : List SystemParam)
    (table other : AccessTable) :
    (∀ (param disjoint : FilterParam) (arche : Set ComponentId), param.isDisjoint disjoint = true →
      ¬ (param.Matches arche ∧ disjoint.Matches arche)) ∧
    (QueriesOnly first → QueriesOnly second → build first = some table →
      build second = some other → table.parallelizable other = true →
      (QueriesApart first second ↔ Remembered first second ∧ Remembered second first)) := by
  refine ⟨fun param other arche disjoint hb => Bool.false_ne_true
    ((isDisjoint_eq_false hb.1 hb.2).symm.trans disjoint), ?_⟩
  intro hpf hps hbf hbs hp
  have one := describes_build hbf
  have two := describes_build hbs
  constructor
  · intro ha
    constructor
    · refine remembered_of_apart hps.2 fun arche id => ?_
      rintro ⟨⟨writer, hwi, hw⟩, reader, hri, ht⟩
      exact (ha reader hri writer hwi arche id).2 ⟨hw, ht⟩
    · refine remembered_of_apart hpf.2 fun arche id => ?_
      rintro ⟨⟨writer, hwi, hw⟩, reader, hri, ht⟩
      exact (ha writer hwi reader hri arche id).1 ⟨hw, ht⟩
  · rintro ⟨hrf, hrs⟩ left hli right hrg arche id
    constructor
    · rintro ⟨hw, ht⟩
      exact not_touches_of_parallelizable one two hp
        ⟨fun he => absurd he hps.1, hrs⟩
        ⟨left, hli, hw⟩ ⟨right, hrg, ht⟩
    · rintro ⟨hw, ht⟩
      exact not_touches_of_parallelizable two one (parallelizable_comm one two hp)
        ⟨fun he => absurd he hpf.1, hrf⟩ ⟨right, hrg, hw⟩
        ⟨left, hli, ht⟩

/-- `Query<EntityRef, With<A>>` and `Query<&A>`: both use the descriptor of `With<A>`. -/
def entityRefQueries : List SystemParam :=
  [.query [.entityRef] [.requiring 0], .query [.reading 0] [.requiring 0]]

/-- `Query<&mut B>`. -/
def writingQuery : List SystemParam := [.query [.writing 1] [.requiring 1]]

/-- `Query<EntityRef, With<A>>` and `Query<&A>` beside `Query<&mut B>`: the tables are
compatible, and on an archetype with both components `B` is read and written. -/
theorem entityRef_beside_writer : ∃ table other,
    QueriesOnly entityRefQueries ∧ QueriesOnly writingQuery ∧
      build entityRefQueries = some table ∧
      build writingQuery = some other ∧
      table.parallelizable other = true ∧ ¬ QueriesApart entityRefQueries writingQuery := by
  refine ⟨_, _, ⟨by decide, by decide⟩, ⟨by decide, by decide⟩, rfl, rfl, by decide, fun ha => ?_⟩
  have hc := ha (.query [.entityRef] [.requiring 0]) (by decide)
    (.query [.writing 1] [.requiring 1]) (by decide) {0, 1} 1
  refine hc.2 ⟨⟨by simp, ⟨.requiring 1, by simp, by simp⟩, .writing 1, by simp, rfl⟩, ?_⟩
  exact ⟨by simp, ⟨.requiring 0, by simp, by simp⟩, .entityRef, by simp, trivial⟩

/-! ## Merged systems -/

namespace AccessTable

/-- The table lets its system read or write the datum. -/
def Touches (table : AccessTable) (datum : Datum) : Prop :=
  table.worldMut = true ∨ table.worldRef = true ∨
    match datum with
    | .world => False
    | .resource id => id ∈ table.resReading
    | .component arche id => id ∈ arche ∧ ∃ param item,
        table.filter.lookup param = some item ∧ param.Matches arche ∧ item.Reads id

/-- The table lets its system write the datum. -/
def Writes (table : AccessTable) (datum : Datum) : Prop :=
  table.worldMut = true ∨
    match datum with
    | .world => False
    | .resource id => id ∈ table.resWriting
    | .component arche id => id ∈ arche ∧ ∃ param item,
        table.filter.lookup param = some item ∧ param.Matches arche ∧ item.Writes id

/-- The entities of the archetype are accessed as a whole. -/
def Wide (table : AccessTable) (arche : Set ComponentId) : Prop :=
  ∃ param item, table.filter.lookup param = some item ∧ param.Matches arche ∧
    (item.entityRef = true ∨ item.entityMut = true)

/-- The entities of the archetype are accessed as a whole, and still are when another table is
merged in: by `entity_mut`, or by an `entity_ref` that the other table does not lack under the
same descriptor. -/
def KeepsWide (table other : AccessTable) (arche : Set ComponentId) : Prop :=
  ∃ param item, table.filter.lookup param = some item ∧ param.Matches arche ∧
    (item.entityMut = true ∨ item.entityRef = true ∧
      ∀ met, other.filter.lookup param = some met → met.entityRef = true)

/-- A merged table is compatible with no more systems than the two tables it comes from. -/
def MergeSafe (table other : AccessTable) : Prop :=
  ∀ params against, build params = some against →
    (table.merge other).parallelizable against = true →
    table.parallelizable against = true ∧ other.parallelizable against = true

/-- A merged table has all accesses of the two tables it comes from. -/
def MergeLossless (table other : AccessTable) : Prop :=
  ∀ datum, (table.Touches datum ∨ other.Touches datum → (table.merge other).Touches datum) ∧
    (table.Writes datum ∨ other.Writes datum → (table.merge other).Writes datum)

/-- A table whose entries another one has, where archetypes that are accessed as a whole
still are. -/
structure Included (part whole : AccessTable) : Prop where
  worldMut : part.worldMut = false
  worldRef : part.worldRef = true → whole.worldRef = true
  resReading : part.resReading ⊆ whole.resReading
  resWriting : part.resWriting ⊆ whole.resWriting
  buckets : ∀ param item, part.filter.lookup param = some item →
    ∃ larger, whole.filter.lookup param = some larger ∧ larger.Valid ∧
      (item.entityMut = true → larger.entityMut = true) ∧
      (∀ id, item.Names id → larger.Names id) ∧ ∀ id, item.Writes id → larger.Writes id
  valid : ∀ param item, part.filter.lookup param = some item → item.Valid
  wholeValid : ∀ param item, whole.filter.lookup param = some item → item.Valid

section Included

variable {part whole against : AccessTable}

/-- What is compatible with the whole is compatible with the part. -/
theorem Included.parallelizable (hi : Included part whole)
    (hwd : ∀ arche, part.Wide arche → whole.Wide arche)
    (hv : ∀ param item, against.filter.lookup param = some item → item.Valid)
    (hp : whole.parallelizable against = true) : part.parallelizable against = true := by
  obtain ⟨⟨-, hfr⟩, ⟨ha, hab⟩, hb⟩ := parallelizable_iff.mp hp
  refine parallelizable_iff.mpr ⟨⟨hi.worldMut, hfr⟩,
    ⟨ha.mono_left hi.resWriting, hab.mono_right hi.resReading⟩, ?_⟩
  intro param item other met hf hfo ho
  obtain ⟨larger, hfl, hlv, hem, hn, hw⟩ :=
    hi.buckets param item hf
  have hmv := hv other met hfo
  obtain ⟨hs, hms, hc⟩ := (AccessParam.parallelizable_iff hlv hmv).mp
    (hb param larger other met hfl hfo ho)
  refine (AccessParam.parallelizable_iff (hi.valid param item hf) hmv).mpr
    ⟨by simpa [hs] using mt hem, hms, fun id => ⟨fun hwi => ?_, ?_⟩⟩
  · exact (hc id).1 (hw id hwi)
  · rintro hwm (hni | her)
    · exact (hc id).2 hwm (.inl (hn id hni))
    · -- the whole still accesses entire entities of an archetype both descriptors share
      obtain ⟨arche, hfs, hfi⟩ := exists_matches_of_not_isDisjoint ho
      obtain ⟨covering, cover, hfc, hft, hel⟩ :=
        hwd arche ⟨param, item, hf, hfs, .inl her⟩
      have hoc := isDisjoint_eq_false hft hfi
      obtain ⟨hcs, -, hcc⟩ := (AccessParam.parallelizable_iff
        (hi.wholeValid covering cover hfc) hmv).mp
          (hb covering cover other met hfc hfo hoc)
      rcases hel with hr | he
      · exact (hcc id).2 hwm (.inr hr)
      · rw [he] at hcs
        cases hcs

theorem Included.touches (hi : Included part whole)
    (hw : ∀ arche, part.Wide arche → whole.Wide arche) {datum : Datum}
    (ht : part.Touches datum) : whole.Touches datum := by
  rcases ht with he | hs | hr
  · rw [hi.worldMut] at he
    cases he
  · exact .inr (.inl (hi.worldRef hs))
  · refine .inr (.inr ?_)
    cases datum with
    | world => exact hr
    | resource id => exact hi.resReading hr
    | component arche id =>
      obtain ⟨has, param, item, hf, hft, hn | her⟩ := hr
      · obtain ⟨larger, hfl, -, -, hnl, -⟩ := hi.buckets param item hf
        exact ⟨has, param, larger, hfl, hft, .inl (hnl id hn)⟩
      · obtain ⟨covering, cover, hfc, hfi, hel⟩ :=
          hw arche ⟨param, item, hf, hft, .inl her⟩
        refine ⟨has, covering, cover, hfc, hfi, ?_⟩
        exact hel.elim .inr fun he => .inl (.inl he)

theorem Included.writes (hi : Included part whole) {datum : Datum}
    (hw : part.Writes datum) : whole.Writes datum := by
  rcases hw with he | hr
  · rw [hi.worldMut] at he
    cases he
  · refine .inr ?_
    cases datum with
    | world => exact hr
    | resource id => exact hi.resWriting hr
    | component arche id =>
      obtain ⟨has, param, item, hf, hfi, hwi⟩ := hr
      obtain ⟨larger, hfl, -, -, -, hwl⟩ := hi.buckets param item hf
      exact ⟨has, param, larger, hfl, hfi, hwl id hwi⟩

end Included

section Merge

variable {first second : List SystemParam} {table other : AccessTable}

/-- The buckets of a merged table sum up the buckets of both tables. -/
theorem merge_sums (one : Describes first table) (two : Describes second other)
    (hf : (table.merge other).worldMut = false) :
    (table.merge other).filter.Sums fun param data =>
      table.filter.lookup param = some data ∨ other.filter.lookup param = some data := by
  rw [(merge_filter hf).2]
  have hv : ∀ entry ∈ other.filter.pairs, entry.2.Valid := fun entry mem =>
    two.valid (Buckets.mem_pairs.mp mem)
  refine ((Buckets.sums_self fun param item => one.valid).recordAll hv).congr
    fun param data => ?_
  rw [Buckets.mem_pairs]

theorem merge_included (one : Describes first table) (two : Describes second other)
    (hfe : (table.merge other).worldMut = false) :
    Included table (table.merge other) ∧ Included other (table.merge other) := by
  have hsu := merge_sums one two hfe
  obtain ⟨⟨hfo, hft⟩, -⟩ := merge_filter hfe
  have hb : ∀ param item, (table.filter.lookup param = some item ∨
      other.filter.lookup param = some item) →
      ∃ larger, (table.merge other).filter.lookup param = some larger ∧ larger.Valid ∧
        (item.entityMut = true → larger.entityMut = true) ∧
        (∀ id, item.Names id → larger.Names id) ∧ ∀ id, item.Writes id → larger.Writes id :=
    fun param item hf => by
      obtain ⟨larger, hfl, hs⟩ := hsu.bucket hf
      exact ⟨larger, hfl, hs.valid,
        fun he => hs.entityMut.mpr ⟨item, hf, he⟩,
        fun id hn => (hs.names id).mpr ⟨item, hf, hn⟩,
        fun id hw => (hs.writes id).mpr ⟨item, hf, hw⟩⟩
  have valid : ∀ param item, (table.merge other).filter.lookup param = some item → item.Valid :=
    fun param item hf => (hsu.summary param item hf).valid
  have hfr : (table.worldMut || other.worldMut) = false := by simp [hfo, hft]
  constructor
  · exact
      { worldMut := hfo
        worldRef := fun hfa => by simp [merge, hfr, hfa]
        resReading := by simp [merge, hfr]
        resWriting := by simp [merge, hfr]
        buckets := fun param item hf => hb param item (.inl hf)
        valid := fun param item => one.valid
        wholeValid := valid }
  · exact
      { worldMut := hft
        worldRef := fun hfa => by simp [merge, hfr, hfa]
        resReading := by simp [merge, hfr]
        resWriting := by simp [merge, hfr]
        buckets := fun param item hf => hb param item (.inr hf)
        valid := fun param item => two.valid
        wholeValid := valid }

/-- The summary of `&mut T`. -/
def writingParam (id : ComponentId) : AccessParam := ⟨false, false, {id}, {id}⟩

theorem build_writer (param : FilterParam) (id : ComponentId) : ∃ table,
    build [.query [.writing id] [param]] = some table ∧ table.worldMut = false ∧
      table.resReading = ∅ ∧ table.resWriting = ∅ ∧
      table.filter = (∅ : Buckets).insert param (writingParam id) :=
  ⟨_, rfl, rfl, rfl, rfl, rfl⟩

/-- A descriptor that separates an archetype from all others, as far as the descriptors of
a table can tell. -/
theorem exists_separating (filter : Buckets) (arche : Set ComponentId) :
    ∃ param : FilterParam, param.Matches arche ∧ ∀ other item,
      filter.lookup other = some item → ¬ other.Matches arche → other.isDisjoint param = true := by
  classical
  let mentioned : List ComponentId := filter.pairs.flatMap fun entry => entry.1.params
  let builder : FilterParamBuilder :=
    ⟨sortDedup (mentioned.filter (· ∈ arche)), sortDedup (mentioned.filter (· ∉ arche)),
      sortedLT_sortDedup _, sortedLT_sortDedup _⟩
  have hfi : builder.Matches arche := by
    refine ⟨fun id mem => ?_, fun id mem => ?_⟩
    · rw [mem_sortDedup, mem_filter] at mem
      exact of_decide_eq_true mem.2
    · rw [mem_sortDedup, mem_filter] at mem
      exact of_decide_eq_true mem.2
  obtain ⟨param, hb, hfp⟩ := FilterParamBuilder.build_matches.mpr hfi
  obtain ⟨hwi, hw⟩ := FilterParamBuilder.build_eq_some hb
  refine ⟨param, hfp, fun other item hf hm => ?_⟩
  have hk : ∀ id ∈ other.params, id ∈ mentioned := fun id mem =>
    mem_flatMap.mpr ⟨(other, item), Buckets.mem_pairs.mpr hf, mem⟩
  rw [isDisjoint_iff, hwi, hw]
  unfold FilterParam.Matches at hm
  rw [not_and_or] at hm
  rcases hm with hl | has
  · push Not at hl
    obtain ⟨id, hr, ha⟩ := hl
    refine ⟨id, .inr ⟨?_, hr⟩⟩
    rw [mem_sortDedup, mem_filter]
    exact ⟨hk id (mem_of_mem_take hr), decide_eq_true ha⟩
  · push Not at has
    obtain ⟨id, hfo, hp⟩ := has
    refine ⟨id, .inl ⟨hfo, ?_⟩⟩
    rw [mem_sortDedup, mem_filter]
    exact ⟨hk id (mem_of_mem_drop hfo), decide_eq_true hp⟩

/-- A component that no bucket of a table reads. -/
theorem exists_unread (filter : Buckets) :
    ∃ id, ∀ param item, filter.lookup param = some item → id ∉ item.reading := by
  obtain ⟨id, hfr⟩ := Infinite.exists_notMem_finset
    (filter.pairs.toFinset.biUnion fun entry => entry.2.reading)
  refine ⟨id, fun param item hf mem => hfr ?_⟩
  exact Finset.mem_biUnion.mpr ⟨(param, item), List.mem_toFinset.mpr (Buckets.mem_pairs.mpr hf),
    mem⟩

/-- **Where an archetype is no longer accessed as a whole, a writer tells the difference**:
some system is compatible with the whole, but not with a part that holds `EntityRef`. -/
theorem wide_of_safe {part whole : AccessTable} (hfe : whole.worldMut = false)
    (hi : Included part whole) (hsf : ∀ params against, build params = some against →
      whole.parallelizable against = true → part.parallelizable against = true)
    {arche : Set ComponentId} (hwd : part.Wide arche) : whole.Wide arche := by
  by_contra hn
  obtain ⟨param, item, hf, hft, hel⟩ := hwd
  obtain ⟨larger, hfl, -, hem, -, -⟩ := hi.buckets param item hf
  have her : item.entityRef = true := hel.resolve_right fun hex =>
    hn ⟨param, larger, hfl, hft, .inr (hem hex)⟩
  obtain ⟨separating, hfs, hs⟩ := exists_separating whole.filter arche
  obtain ⟨id, hu⟩ := exists_unread whole.filter
  obtain ⟨against, hbu, hfa, hnr, hnw, hfr⟩ := build_writer separating id
  have hwr : (writingParam id).Valid := valid_of_sets subset_rfl
  have hp : whole.parallelizable against = true := by
    refine parallelizable_iff.mpr ⟨⟨hfe, hfa⟩, by simp [hnr, hnw], ?_⟩
    intro other met target writing hfm hfw ho
    rw [hfr] at hfw
    obtain ⟨rfl, rfl⟩ : target = separating ∧ writing = writingParam id := by
      by_cases hsa : target = separating
      · subst hsa
        rw [AList.lookup_insert, Option.some.injEq] at hfw
        exact ⟨rfl, hfw.symm⟩
      · rw [AList.lookup_insert_ne hsa] at hfw
        cases hfw
    have hmv := hi.wholeValid other met hfm
    have hfi : other.Matches arche := by
      by_contra hm
      rw [hs other met hfm hm] at ho
      cases ho
    have hnm : met.entityRef = false ∧ met.entityMut = false := by
      constructor
      · by_contra hfg
        exact hn ⟨other, met, hfm, hfi, .inl (by simpa using hfg)⟩
      · by_contra hfg
        exact hn ⟨other, met, hfm, hfi, .inr (by simpa using hfg)⟩
    have hq : id ∉ met.reading := hu other met hfm
    refine (AccessParam.parallelizable_iff hmv hwr).mpr
      ⟨hnm.2, rfl, fun c => ⟨fun hw hr => ?_, fun hw hr => ?_⟩⟩
    · have he : c = id := by
        simpa [writingParam, AccessParam.Reads, AccessParam.Names] using hr
      have hwi : c ∈ met.writing := by
        simpa [AccessParam.Writes, hnm.2] using hw
      exact hq (he ▸ hmv.writingRead hwi)
    · have he : c = id := by
        simpa [writingParam, AccessParam.Writes] using hw
      have hre : c ∈ met.reading := by
        simpa [AccessParam.Reads, AccessParam.Names, hnm] using hr
      exact hq (he ▸ hre)
  have ho := isDisjoint_eq_false hft hfs
  obtain ⟨-, -, hb⟩ := parallelizable_iff.mp (hsf _ against hbu hp)
  have hcl := hb param item separating (writingParam id) hf
    (by rw [hfr, AList.lookup_insert]) ho
  obtain ⟨-, -, hc⟩ :=
    (AccessParam.parallelizable_iff (hi.valid param item hf) hwr).mp hcl
  exact (hc id).2 (.inr (Finset.mem_singleton_self id)) (.inr her)

/-- What a part keeps is accessed as a whole by the sum. -/
theorem wide_of_keepsWide {whole : AccessTable} {arche : Set ComponentId}
    (hs : whole.filter.Sums fun param data =>
      table.filter.lookup param = some data ∨ other.filter.lookup param = some data)
    (hk : table.KeepsWide other arche) : whole.Wide arche := by
  obtain ⟨param, item, hl, hm, hk⟩ := hk
  obtain ⟨larger, hb, hu⟩ := hs.bucket (.inl hl)
  refine ⟨param, larger, hb, hm, hk.symm.imp (fun hr => hu.entityRef.mpr ?_) fun he =>
    hu.entityMut.mpr ⟨item, .inl hl, he⟩⟩
  rintro data (hd | hd)
  · cases hl.symm.trans hd
    exact hr.1
  · exact hr.2 data hd

/-- The merged table accesses as a whole what one of its parts keeps. -/
theorem merge_wide_iff (one : Describes first table) (two : Describes second other)
    (hf : (table.merge other).worldMut = false) (arche : Set ComponentId) :
    (table.merge other).Wide arche ↔
      table.KeepsWide other arche ∨ other.KeepsWide table arche := by
  have hs := merge_sums one two hf
  constructor
  · rintro ⟨param, item, hl, hm, hr | he⟩
    · have all := (hs.summary param item hl).entityRef.mp hr
      obtain ⟨data, hd | hd⟩ := hs.inhabited param item hl
      · exact .inl ⟨param, data, hd, hm, .inr ⟨all data (.inl hd), fun met hb => all met (.inr hb)⟩⟩
      · exact .inr ⟨param, data, hd, hm, .inr ⟨all data (.inr hd), fun met hb => all met (.inl hb)⟩⟩
    · obtain ⟨data, hd | hd, hx⟩ := (hs.summary param item hl).entityMut.mp he
      · exact .inl ⟨param, data, hd, hm, .inl hx⟩
      · exact .inr ⟨param, data, hd, hm, .inl hx⟩
  · rintro (hk | hk)
    · exact wide_of_keepsWide hs hk
    · exact wide_of_keepsWide (hs.congr fun _ _ => or_comm) hk

/-- Merging is conservative exactly if the merged table accesses as a whole what its parts do. -/
theorem lossless_iff_wide (one : Describes first table) (two : Describes second other) :
    MergeSafe table other ∧ MergeLossless table other ↔
      ∀ arche, table.Wide arche ∨ other.Wide arche →
        (table.merge other).worldMut = true ∨ (table.merge other).Wide arche := by
  cases hf : (table.merge other).worldMut with
  | true =>
    refine iff_of_true ⟨fun params against _ hp => ?_, fun datum => ?_⟩
      fun _ _ => .inl rfl
    · have hs := (parallelizable_iff.mp hp).1.1
      rw [hf] at hs
      cases hs
    · exact ⟨fun _ => .inl hf, fun _ => .inl hf⟩
  | false =>
    obtain ⟨hio, hit⟩ := merge_included one two hf
    constructor
    · rintro ⟨hsa, -⟩ arche (hw | hw)
      · exact .inr (wide_of_safe hf hio
          (fun params against hb hp => (hsa params against hb hp).1) hw)
      · exact .inr (wide_of_safe hf hit
          (fun params against hb hp => (hsa params against hb hp).2) hw)
    · intro hc
      have hwo : ∀ arche, table.Wide arche → (table.merge other).Wide arche :=
        fun arche hw => (hc arche (.inl hw)).resolve_left Bool.false_ne_true
      have hwt : ∀ arche, other.Wide arche → (table.merge other).Wide arche :=
        fun arche hw => (hc arche (.inr hw)).resolve_left Bool.false_ne_true
      refine ⟨fun params against hb hp => ?_, fun datum => ⟨?_, ?_⟩⟩
      · have hv : ∀ param item, against.filter.lookup param = some item → item.Valid :=
          fun param item => (describes_build hb).valid
        exact ⟨hio.parallelizable hwo hv hp,
          hit.parallelizable hwt hv hp⟩
      · rintro (ht | ht)
        · exact hio.touches hwo ht
        · exact hit.touches hwt ht
      · rintro (hwr | hwr)
        · exact hio.writes hwr
        · exact hit.writes hwr

/-- **When merging is conservative.**  A merged table is compatible with nothing that one
of its parts is not compatible with, and loses no access of its parts, exactly if a part holds the
world exclusively, or every archetype that a part accesses as whole entities is one that a part
keeps. -/
theorem merge_lossless_iff (builtFirst : build first = some table)
    (builtSecond : build second = some other) : MergeSafe table other ∧ MergeLossless table other ↔
      (table.worldMut = true ∨ other.worldMut = true) ∨
        ∀ arche, table.Wide arche ∨ other.Wide arche →
          table.KeepsWide other arche ∨ other.KeepsWide table arche := by
  have one := describes_build builtFirst
  have two := describes_build builtSecond
  have hw : (table.merge other).worldMut = (table.worldMut || other.worldMut) := by
    simp only [merge]
    split <;> rfl
  rw [lossless_iff_wide one two, ← Bool.or_eq_true, ← hw]
  cases hf : (table.merge other).worldMut with
  | true => simp
  | false => simp [merge_wide_iff one two hf]

end Merge

/-- Two readers of different components under the same descriptor. -/
theorem merge_lossless_readers : ∃ table other,
    build [.query [.reading 0] [.requiring 0]] = some table ∧
      build [.query [.reading 0, .reading 1] [.requiring 0]] = some other ∧
      MergeSafe table other ∧ MergeLossless table other := by
  have hn {table : AccessTable} (hp : table.filter.pairs.all (fun entry =>
      !entry.2.entityRef && !entry.2.entityMut) = true) (arche : Set ComponentId) :
      ¬ table.Wide arche := by
    rintro ⟨param, item, hl, -, he⟩
    have hi := all_eq_true.mp hp _ (Buckets.mem_pairs.mpr hl)
    simp only [Bool.and_eq_true, Bool.not_eq_true'] at hi
    simp [hi] at he
  refine ⟨_, _, rfl, rfl, (@merge_lossless_iff [.query [.reading 0] [.requiring 0]]
    [.query [.reading 0, .reading 1] [.requiring 0]] _ _ rfl rfl).mpr (.inr fun arche hw => ?_)⟩
  exact hw.elim (fun hw => absurd hw (hn (by decide) arche))
    fun hw => absurd hw (hn (by decide) arche)

/-- `Query<EntityRef, With<A>>` piped into `Query<&A>`: the merged system is compatible
with `Query<&mut B>`, its first part is not. -/
theorem merge_forgets_entityRef : ∃ table other against,
    build [.query [.entityRef] [.requiring 0]] = some table ∧
      build [.query [.reading 0] [.requiring 0]] = some other ∧
      build [.query [.writing 1] [.requiring 1]] = some against ∧
      (table.merge other).parallelizable against = true ∧
      table.parallelizable against = false :=
  ⟨_, _, _, rfl, rfl, rfl, by decide, by decide⟩

end AccessTable

end Voker.Ecs
