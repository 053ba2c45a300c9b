import Mathlib.Data.List.AList
import Voker.Ecs.System.AccessParam
import Voker.Ecs.System.Filter

/-!
# What a system accesses

`AccessTable` collects the accesses of all parameters of a system: the world as a whole,
resources, and the summaries of its queries, grouped into one bucket for each filter
descriptor.  Two systems may run in parallel if their tables are `parallelizable`.

**Each bucket is the merge of the queries that use its descriptor** (`Sums`), whether the
queries belong to one system or to two systems piped into one; `describes_build` says
what a table built by accepted parameters tells about them.
-/

namespace Voker.Ecs

open Foundation List AccessParam

/-- `ResourceId`: the registration number of a resource type. -/
abbrev ResourceId := ℕ

/-- The hash map from filter descriptors to summaries. -/
abbrev Buckets := AList fun _ : FilterParam => AccessParam

namespace Buckets

/-- Merge a summary into the bucket of a descriptor, or open the bucket. -/
def record (filter : Buckets) (entry : FilterParam × AccessParam) : Buckets :=
  match filter.lookup entry.1 with
  | some item => filter.insert entry.1 (item.mergeWith entry.2)
  | none => filter.insert entry.1 entry.2

/-- Merge a number of summaries, one after the other. -/
def recordAll (filter : Buckets) (entries : List (FilterParam × AccessParam)) : Buckets :=
  entries.foldl record filter

/-- The buckets as pairs. -/
def pairs (filter : Buckets) : List (FilterParam × AccessParam) :=
  filter.entries.map fun entry => (entry.1, entry.2)

variable {filter : Buckets} {item data : AccessParam} {param : FilterParam}
  {given : FilterParam → AccessParam → Prop}

theorem mem_pairs : (param, item) ∈ filter.pairs ↔ filter.lookup param = some item := by
  have hen : filter.lookup param = some item ↔ ⟨param, item⟩ ∈ filter.entries :=
    AList.mem_lookup_iff
  rw [hen, pairs, mem_map]
  constructor
  · rintro ⟨⟨key, v⟩, mem, he⟩
    cases he
    exact mem
  · exact fun mem => ⟨_, mem, rfl⟩

/-! ## What a bucket says about its queries -/

/-- A bucket that is the merge of a non-empty set of summaries.  Only `entity_ref` is not
the disjunction of what the merged summaries say. -/
structure Summary (given : AccessParam → Prop) (item : AccessParam) : Prop where
  valid : item.Valid
  writes : ∀ id, item.Writes id ↔ ∃ data, given data ∧ data.Writes id
  names : ∀ id, item.Names id ↔ ∃ data, given data ∧ data.Names id
  entityMut : item.entityMut = true ↔ ∃ data, given data ∧ data.entityMut = true
  entityRef : item.entityRef = true ↔ ∀ data, given data → data.entityRef = true

theorem Summary.single (hv : data.Valid) : Summary (fun other => other = data) data :=
  ⟨hv, by simp, by simp, by simp, by simp⟩

theorem Summary.merge {given : AccessParam → Prop} (hs : Summary given item)
    (hv : data.Valid) :
    Summary (fun other => given other ∨ other = data) (item.mergeWith data) := by
  have hm := mergeWith_spec hs.valid hv
  refine ⟨hm.valid, fun id => ?_, fun id => ?_, ?_, ?_⟩
  · rw [hm.writes, hs.writes]
    simp [or_and_right, exists_or]
  · rw [hm.names, hs.names]
    simp [or_and_right, exists_or]
  · rw [hm.entityMut, hs.entityMut]
    simp [or_and_right, exists_or]
  · rw [hm.entityRef, hs.entityRef]
    simp [or_imp, forall_and]

theorem Summary.congr {given other : AccessParam → Prop} (hs : Summary given item)
    (hsa : ∀ data, given data ↔ other data) : Summary other item :=
  (funext fun data => propext (hsa data) : given = other) ▸ hs

/-- A bucket for each descriptor that was given a summary, and each bucket the merge of
what its descriptor was given. -/
structure Sums (given : FilterParam → AccessParam → Prop) (filter : Buckets) : Prop where
  missing : ∀ param, filter.lookup param = none → ∀ data, ¬ given param data
  summary : ∀ param item, filter.lookup param = some item → Summary (given param) item
  inhabited : ∀ param item, filter.lookup param = some item → ∃ data, given param data

theorem Sums.bucket (hs : Sums given filter) (hp : given param data) :
    ∃ item, filter.lookup param = some item ∧ Summary (given param) item := by
  cases hf : filter.lookup param with
  | none => exact absurd hp (hs.missing param hf data)
  | some item => exact ⟨item, rfl, hs.summary param item hf⟩

/-- Buckets are the merges of themselves. -/
theorem sums_self (hv : ∀ param item, filter.lookup param = some item → item.Valid) :
    Sums (fun param data => filter.lookup param = some data) filter := by
  refine ⟨fun param hn data hf => ?_, fun param item hf => ?_, fun param item hf => ⟨item, hf⟩⟩
  · rw [hn] at hf
    cases hf
  · refine (Summary.single (hv param item hf)).congr fun data => ?_
    rw [hf, Option.some.injEq, eq_comm]

theorem sums_empty : Sums (fun _ _ => False) (∅ : Buckets) :=
  ⟨fun _ _ _ => id, fun _ _ hf => (nomatch hf), fun _ _ hf => (nomatch hf)⟩

theorem Sums.congr {other : FilterParam → AccessParam → Prop} (hsu : Sums given filter)
    (hs : ∀ param data, given param data ↔ other param data) : Sums other filter :=
  (funext₂ fun param data => propext (hs param data) : given = other) ▸ hsu

/-- Only the bucket of the recorded descriptor changes. -/
theorem lookup_record_ne {e : FilterParam × AccessParam} (other : param ≠ e.1) :
    (filter.record e).lookup param = filter.lookup param := by
  unfold record
  split <;> exact AList.lookup_insert_ne other

theorem Sums.record (hsu : Sums given filter) {e : FilterParam × AccessParam}
    (hv : e.2.Valid) :
    Sums (fun param data => given param data ∨ (param, data) = e) (filter.record e) := by
  obtain ⟨key, a⟩ := e
  have he : ∀ param, param ≠ key → ∀ data,
      given param data ↔ (given param data ∨ (param, data) = (key, a)) :=
    fun param other data => by simp [other]
  have her : ∃ item, (filter.record (key, a)).lookup key = some item ∧
      Summary (fun data => given key data ∨ (key, data) = (key, a)) item := by
    cases hf : filter.lookup key with
    | some item =>
      refine ⟨item.mergeWith a, by simp [Buckets.record, hf], ?_⟩
      exact ((hsu.summary key item hf).merge hv).congr fun data => by simp
    | none =>
      refine ⟨a, by simp [Buckets.record, hf], ?_⟩
      exact (Summary.single hv).congr fun data => by simp [hsu.missing key hf data]
  obtain ⟨item, hf, hsm⟩ := her
  refine ⟨fun param hn data => ?_, fun param other hl => ?_, fun param other hl => ?_⟩
  · have hd : param ≠ key := fun heq => by
      rw [heq, hf] at hn
      cases hn
    rw [lookup_record_ne hd] at hn
    exact fun hp => hsu.missing param hn data ((he param hd data).mpr hp)
  · by_cases hs : param = key
    · subst hs
      rw [hf] at hl
      cases hl
      exact hsm
    · rw [lookup_record_ne hs] at hl
      exact (hsu.summary param other hl).congr (he param hs)
  · by_cases hs : param = key
    · exact ⟨a, .inr (by rw [hs])⟩
    · rw [lookup_record_ne hs] at hl
      exact (hsu.inhabited param other hl).imp fun data => .inl

/-- **Recording adds to what the descriptors were given**, and to nothing else. -/
theorem Sums.recordAll (hs : Sums given filter) {e : List (FilterParam × AccessParam)}
    (hv : ∀ en ∈ e, en.2.Valid) :
    Sums (fun param data => given param data ∨ (param, data) ∈ e)
      (filter.recordAll e) := by
  induction e generalizing given filter with
  | nil => exact hs.congr fun param data => by simp
  | cons en e ih =>
    have hr := ih (hs.record (hv en mem_cons_self))
      fun other mem => hv other (mem_cons_of_mem _ mem)
    exact hr.congr fun param data => by rw [mem_cons, or_assoc]

end Buckets

/-! ## Tables -/

/-- `AccessTable`. -/
structure AccessTable where
  worldMut : Bool
  worldRef : Bool
  resReading : Finset ResourceId
  resWriting : Finset ResourceId
  filter : Buckets

namespace AccessTable

/-- `new`. -/
def new : AccessTable := ⟨false, false, ∅, ∅, ∅⟩

section

variable (table : AccessTable)

/-- `can_world_mut`. -/
def canWorldMut : Bool :=
  !table.worldMut && !table.worldRef && decide (table.resReading = ∅) &&
    decide (table.resWriting = ∅) && table.filter.pairs.isEmpty

/-- `can_world_ref`. -/
def canWorldRef : Bool :=
  !table.worldMut && decide (table.resWriting = ∅) &&
    table.filter.pairs.all fun entry => entry.2.isReadOnly

/-- `set_world_mut`. -/
def setWorldMut : Bool × AccessTable :=
  if table.canWorldMut then
    (true, { new with worldMut := true })
  else
    (false, { table with worldMut := true })

/-- `set_world_ref`. -/
def setWorldRef : Bool × AccessTable :=
  if table.canWorldRef then
    (true, if table.worldRef then table else { new with worldRef := true })
  else
    (false, { table with worldRef := true })

/-- `can_reading_res`. -/
def canReadingRes (id : ResourceId) : Bool :=
  table.worldRef || (!table.worldMut && decide (id ∉ table.resWriting))

/-- `can_writing_res`. -/
def canWritingRes (id : ResourceId) : Bool :=
  !table.worldRef && !table.worldMut && decide (id ∉ table.resReading)

/-- `set_reading_res`. -/
def setReadingRes (id : ResourceId) : Bool × AccessTable :=
  if table.canReadingRes id then
    (true,
      if table.worldRef then table else { table with resReading := insert id table.resReading })
  else
    (false, { table with resReading := insert id table.resReading })

/-- `set_writing_res`. -/
def setWritingRes (id : ResourceId) : Bool × AccessTable :=
  (table.canWritingRes id,
    { table with
      resReading := insert id table.resReading
      resWriting := insert id table.resWriting })

/-- `can_query`. -/
def canQuery (data : AccessParam) (params : List FilterParam) : Bool :=
  if table.worldMut then
    false
  else if table.worldRef then
    data.isReadOnly
  else
    params.all fun param => table.filter.pairs.all fun entry =>
      if entry.1.isDisjoint param then true else data.parallelizable entry.2

/-- `set_query`. -/
def setQuery (data : AccessParam) (params : List FilterParam) : Bool × AccessTable :=
  let recorded := { table with filter := table.filter.recordAll (params.map (·, data)) }
  if table.canQuery data params then
    (true, if table.worldRef then table else recorded)
  else
    (false, recorded)

end

/-- `parallelizable`.  The flag `world_ref` is not looked at. -/
def parallelizable (table other : AccessTable) : Bool :=
  if table.worldMut || other.worldMut then
    false
  else if !decide (Disjoint table.resWriting other.resReading) ||
      !decide (Disjoint other.resWriting table.resReading) then
    false
  else
    table.filter.pairs.all fun entry => other.filter.pairs.all fun against =>
      if entry.1.isDisjoint against.1 then true else entry.2.parallelizable against.2

/-- `merge`. -/
def merge (table other : AccessTable) : AccessTable :=
  let worldMut := table.worldMut || other.worldMut
  let worldRef := table.worldRef || other.worldRef
  if worldMut then
    ⟨worldMut, worldRef, ∅, ∅, ∅⟩
  else
    ⟨worldMut, worldRef, table.resReading ∪ other.resReading,
      table.resWriting ∪ other.resWriting, table.filter.recordAll other.filter.pairs⟩

variable {other table : AccessTable}

/-- Two tables are compatible if neither holds the world exclusively, no resource is
written by one and read by the other, and buckets whose descriptors overlap are
compatible. -/
theorem parallelizable_iff : table.parallelizable other = true ↔
      (table.worldMut = false ∧ other.worldMut = false) ∧
      (Disjoint table.resWriting other.resReading ∧ Disjoint other.resWriting table.resReading) ∧
      ∀ param item a met, table.filter.lookup param = some item →
        other.filter.lookup a = some met → param.isDisjoint a = false →
        item.parallelizable met = true := by
  have hb : (table.filter.pairs.all fun e => other.filter.pairs.all fun a =>
      if e.1.isDisjoint a.1 then true else e.2.parallelizable a.2) = true ↔
      ∀ param item a met, table.filter.lookup param = some item →
        other.filter.lookup a = some met → param.isDisjoint a = false →
        item.parallelizable met = true := by
    simp only [all_eq_true, Prod.forall, Buckets.mem_pairs]
    refine ⟨fun he param item a met one two ho => ?_,
      fun he param item one a met two => ?_⟩
    · have hch := he param item one a met two
      rwa [ho, if_neg Bool.false_ne_true] at hch
    · cases ho : param.isDisjoint a with
      | true => rfl
      | false => exact he param item a met one two ho
  unfold parallelizable
  split
  · next w =>
    refine iff_of_false Bool.false_ne_true fun hf => ?_
    simp [hf.1] at w
  · next w =>
    have hf : table.worldMut = false ∧ other.worldMut = false := by simpa using w
    split
    · next hc =>
      refine iff_of_false Bool.false_ne_true fun hf => ?_
      simp [hf.2.1] at hc
    · next hc =>
      have ha : Disjoint table.resWriting other.resReading ∧
          Disjoint other.resWriting table.resReading := by simpa using hc
      rw [hb]
      exact ⟨fun hco => ⟨hf, ha, hco⟩, fun all => all.2.2⟩

/-- The buckets are valid summaries. -/
def Valid (table : AccessTable) : Prop :=
  ∀ param item, table.filter.lookup param = some item → item.Valid

theorem valid_new : new.Valid := fun _ _ hf => nomatch hf

/-- Whether two tables are compatible does not depend on which of them is asked. -/
theorem Valid.parallelizable_of (one : table.Valid) (two : other.Valid)
    (hp : table.parallelizable other = true) : other.parallelizable table = true := by
  obtain ⟨hfr, ha, hb⟩ := parallelizable_iff.mp hp
  refine parallelizable_iff.mpr ⟨hfr.symm, ha.symm, ?_⟩
  intro param item a met hf hfo ho
  have hba : a.isDisjoint param = false := by
    rw [FilterParam.isDisjoint, Bool.or_comm]
    exact ho
  obtain ⟨hl, hr, hc⟩ := (AccessParam.parallelizable_iff (one _ _ hfo)
    (two _ _ hf)).mp (hb a met param item hfo hf hba)
  exact (AccessParam.parallelizable_iff (two _ _ hf) (one _ _ hfo)).mpr
    ⟨hr, hl, fun id => (hc id).symm⟩

theorem Valid.parallelizable_eq (one : table.Valid) (two : other.Valid) :
    table.parallelizable other = other.parallelizable table :=
  Bool.eq_iff_iff.mpr ⟨one.parallelizable_of two, two.parallelizable_of one⟩

/-- The buckets of a merged table are the merges of the buckets of the two tables. -/
theorem merge_filter (hf : (table.merge other).worldMut = false) :
    (table.worldMut = false ∧ other.worldMut = false) ∧
      (table.merge other).filter = table.filter.recordAll other.filter.pairs := by
  cases he : table.worldMut || other.worldMut with
  | true => simp [merge, he] at hf
  | false => exact ⟨by simpa using he, by simp [merge, he]⟩

end AccessTable

/-! ## Parameters of a system -/

/-- The parameters that declare an access: `&World`, `&mut World` (or `DeferredWorld`),
`Res`, `ResMut` and `Query`, the last by the calls that declare the accesses of its data
and filter and by the descriptors of its filter. -/
inductive SystemParam where
  | worldRef
  | worldMut
  | res (id : ResourceId)
  | resMut (id : ResourceId)
  | query (calls : List AccessCall) (params : List FilterParam)
  deriving DecidableEq

namespace SystemParam

/-- `mark_access`; `none` is a refusal, and a query whose own data conflict is not even
built. -/
def markAccess : SystemParam → AccessTable → Option AccessTable
  | worldRef, table => accepted table.setWorldRef
  | worldMut, table => accepted table.setWorldMut
  | res id, table => accepted (table.setReadingRes id)
  | resMut id, table => accepted (table.setWritingRes id)
  | query calls params, table =>
    (declare calls).bind fun data => accepted (table.setQuery data params)

end SystemParam

/-- The table of a system; `none` if one of its parameters is refused. -/
def AccessTable.build (params : List SystemParam) : Option AccessTable :=
  run SystemParam.markAccess params .new

/-- A query among the parameters uses the descriptor and has the summary. -/
def Queries (params : List SystemParam) (param : FilterParam) (data : AccessParam) : Prop :=
  ∃ calls filters, .query calls filters ∈ params ∧ declare calls = some data ∧
    param ∈ filters

variable {param : FilterParam} {params : List SystemParam} {table : AccessTable}

theorem queries_append {fst snd : List SystemParam} {data : AccessParam} :
    Queries (fst ++ snd) param data ↔ Queries fst param data ∨ Queries snd param data := by
  simp only [Queries, mem_append, or_and_right, exists_or]

theorem queries_query {c : List AccessCall} {f : List FilterParam}
    {data other : AccessParam} (hd : declare c = some data) :
    Queries [.query c f] param other ↔ (param, other) ∈ f.map (·, data) := by
  simp only [Queries, mem_singleton, SystemParam.query.injEq, mem_map, Prod.mk.injEq]
  constructor
  · rintro ⟨_, _, ⟨rfl, rfl⟩, hs, mem⟩
    rw [hd] at hs
    exact ⟨param, mem, rfl, Option.some.inj hs⟩
  · rintro ⟨_, mem, rfl, rfl⟩
    exact ⟨c, f, ⟨rfl, rfl⟩, hd, mem⟩

/-- A parameter that is no query uses no descriptor. -/
theorem not_queries {other : SystemParam} (hnq : ∀ c f, other ≠ .query c f)
    (param : FilterParam) (data : AccessParam) : ¬ Queries [other] param data := by
  rintro ⟨c, f, mem, -⟩
  exact hnq c f (mem_singleton.mp mem).symm

/-- What a table says about the parameters that were marked in it.  A system that holds
`&World` needs no further entries; it has no parameter that writes. -/
structure Describes (params : List SystemParam) (table : AccessTable) : Prop where
  worldMut : table.worldMut = true ↔ .worldMut ∈ params
  worldRef : table.worldRef = true ↔ .worldRef ∈ params
  resWriting : ∀ id, id ∈ table.resWriting ↔ .resMut id ∈ params
  resReading : table.worldRef = false →
    ∀ id, id ∈ table.resReading ↔ .res id ∈ params ∨ .resMut id ∈ params
  buckets : table.worldRef = false → table.filter.Sums (Queries params)
  shared : table.worldRef = true → table.filter = ∅ ∧ table.resReading = ∅ ∧
    ∀ param data, Queries params param data → data.isReadOnly = true
  declared : ∀ calls filters, .query calls filters ∈ params →
    ∃ data, declare calls = some data

theorem describes_new : Describes [] .new := by
  refine ⟨by simp [AccessTable.new], by simp [AccessTable.new], by simp [AccessTable.new],
    by simp [AccessTable.new], fun _ => ?_, by simp [AccessTable.new], by simp⟩
  exact Buckets.sums_empty.congr fun param data => by simp [Queries]

/-- A table without buckets describes no query. -/
theorem Describes.not_queries_of_empty (describes : Describes params table)
    (hfr : table.worldRef = false) (he : table.filter.pairs = []) (param : FilterParam)
    (data : AccessParam) : ¬ Queries params param data := fun hq => by
  obtain ⟨item, hf, -⟩ := (describes.buckets hfr).bucket hq
  rw [← Buckets.mem_pairs, he] at hf
  cases hf

section Marking

variable {params : List SystemParam} {table next : AccessTable}

section

variable (describes : Describes params table)

include describes

theorem Describes.mark_worldRef (hm : SystemParam.worldRef.markAccess table = some next) :
    Describes (params ++ [.worldRef]) next := by
  have hu := @not_queries .worldRef fun _ _ => nofun
  rw [SystemParam.markAccess, accepted_eq_some, AccessTable.setWorldRef] at hm
  split at hm
  · next can =>
    simp only [AccessTable.canWorldRef, Bool.and_eq_true, Bool.not_eq_true',
      decide_eq_true_eq, all_eq_true] at can
    obtain ⟨⟨hfr, hun⟩, hro⟩ := can
    have hnm : SystemParam.worldMut ∉ params := fun mem => by
      rw [describes.worldMut.mpr mem] at hfr
      cases hfr
    have hnw : ∀ id, SystemParam.resMut id ∉ params := fun id mem => by
      have hw := (describes.resWriting id).mpr mem
      simp [hun] at hw
    split at hm
    · next ha =>
      cases hm
      refine ⟨by simp [describes.worldMut], by simp [ha],
        by simp [describes.resWriting], by simp [ha], by simp [ha],
        fun _ => ?_, fun c f mem => ?_⟩
      · obtain ⟨he, hur, hsh⟩ := describes.shared ha
        refine ⟨he, hur, fun param data hq => ?_⟩
        exact hsh param data ((queries_append.mp hq).resolve_right (hu param data))
      · exact describes.declared c f (by simpa using mem)
    · next hfe =>
      have hus : table.worldRef = false := by simpa using hfe
      cases hm
      refine ⟨by simp [AccessTable.new, hnm], by simp, by simp [AccessTable.new, hnw],
        by simp, by simp, fun _ => ⟨rfl, rfl, fun param data hq => ?_⟩,
        fun c f mem => describes.declared c f (by simpa using mem)⟩
      have pre := (queries_append.mp hq).resolve_right (hu param data)
      obtain ⟨item, hf, hs⟩ := (describes.buckets hus).bucket pre
      -- a query that writes would make its bucket a writing one
      have hqu := isReadOnly_iff.mp (hro (param, item) (Buckets.mem_pairs.mpr hf))
      exact isReadOnly_iff.mpr fun id writes =>
        hqu id ((hs.writes id).mpr ⟨data, pre, writes⟩)
  · cases hm

theorem Describes.mark_worldMut (hm : SystemParam.worldMut.markAccess table = some next) :
    Describes (params ++ [.worldMut]) next := by
  have huq := @not_queries .worldMut fun _ _ => nofun
  rw [SystemParam.markAccess, accepted_eq_some, AccessTable.setWorldMut] at hm
  split at hm
  · next can =>
    simp only [AccessTable.canWorldMut, Bool.and_eq_true, Bool.not_eq_true',
      decide_eq_true_eq, List.isEmpty_iff] at can
    obtain ⟨⟨⟨⟨-, hu⟩, hur⟩, hun⟩, he⟩ := can
    have hno : SystemParam.worldRef ∉ params := fun mem => by
      rw [describes.worldRef.mpr mem] at hu
      cases hu
    have hnw : ∀ id, SystemParam.resMut id ∉ params := fun id mem => by
      have hw := (describes.resWriting id).mpr mem
      simp [hun] at hw
    have hnr : ∀ id, SystemParam.res id ∉ params := fun id mem => by
      have hr := (describes.resReading hu id).mpr (.inl mem)
      simp [hur] at hr
    cases hm
    refine ⟨by simp, by simp [AccessTable.new, hno], by simp [AccessTable.new, hnw],
      by simp [AccessTable.new, hnr, hnw], fun _ => ?_, by simp [AccessTable.new],
      fun c f mem => describes.declared c f (by simpa using mem)⟩
    refine Buckets.sums_empty.congr fun param data => iff_of_false id fun hq => ?_
    rcases queries_append.mp hq with pre | now
    · exact describes.not_queries_of_empty hu he param data pre
    · exact huq param data now
  · cases hm

theorem Describes.mark_res {id : ResourceId}
    (hm : (SystemParam.res id).markAccess table = some next) :
    Describes (params ++ [.res id]) next := by
  have hun := @not_queries (.res id) fun _ _ => nofun
  have hqs : ∀ param data,
      Queries params param data ↔ Queries (params ++ [.res id]) param data :=
    fun param data => by simp [queries_append, hun param data]
  rw [SystemParam.markAccess, accepted_eq_some, AccessTable.setReadingRes] at hm
  split at hm
  · split at hm
    · next hs =>
      cases hm
      refine ⟨by simp [describes.worldMut], by simp [describes.worldRef],
        by simp [describes.resWriting], by simp [hs], by simp [hs], fun hf => ?_,
        fun c f mem => describes.declared c f (by simpa using mem)⟩
      obtain ⟨he, hur, hro⟩ := describes.shared hf
      exact ⟨he, hur, fun param data hq =>
        hro param data ((hqs param data).mpr hq)⟩
    · next hs =>
      have hu : table.worldRef = false := by simpa using hs
      cases hm
      refine ⟨by simp [describes.worldMut], by simp [describes.worldRef],
        by simp [describes.resWriting], fun _ other => ?_,
        fun _ => (describes.buckets hu).congr hqs, by simp [hu],
        fun c f mem => describes.declared c f (by simpa using mem)⟩
      simp only [Finset.mem_insert, describes.resReading hu, mem_append,
        mem_singleton, SystemParam.res.injEq, reduceCtorEq, or_false]
      tauto
  · cases hm

theorem Describes.mark_resMut {id : ResourceId}
    (hm : (SystemParam.resMut id).markAccess table = some next) :
    Describes (params ++ [.resMut id]) next := by
  have hun := @not_queries (.resMut id) fun _ _ => nofun
  have hqs : ∀ param data,
      Queries params param data ↔ Queries (params ++ [.resMut id]) param data :=
    fun param data => by simp [queries_append, hun param data]
  rw [SystemParam.markAccess, accepted_eq_some, AccessTable.setWritingRes, Prod.mk.injEq] at hm
  obtain ⟨can, rfl⟩ := hm
  simp only [AccessTable.canWritingRes, Bool.and_eq_true, Bool.not_eq_true'] at can
  have hu := can.1.1
  refine ⟨by simp [describes.worldMut], by simp [describes.worldRef], fun other => ?_,
    fun _ other => ?_, fun _ => (describes.buckets hu).congr hqs, by simp [hu],
    fun c f mem => describes.declared c f (by simpa using mem)⟩
  · simp only [Finset.mem_insert, describes.resWriting, mem_append,
      mem_singleton, SystemParam.resMut.injEq]
    tauto
  · simp only [Finset.mem_insert, describes.resReading hu, mem_append,
      mem_singleton, SystemParam.resMut.injEq, reduceCtorEq, or_false]
    tauto

theorem Describes.mark_query {c : List AccessCall} {f : List FilterParam}
    (hm : (SystemParam.query c f).markAccess table = some next) :
    Describes (params ++ [.query c f]) next := by
  rw [SystemParam.markAccess, Option.bind_eq_some_iff] at hm
  obtain ⟨data, hd, hm⟩ := hm
  have hda : ∀ other hf, SystemParam.query other hf ∈ params ++ [.query c f] →
      ∃ data, declare other = some data := by
    intro other hf mem
    rcases mem_append.mp mem with pre | now
    · exact describes.declared other hf pre
    · cases mem_singleton.mp now
      exact ⟨data, hd⟩
  rw [accepted_eq_some, AccessTable.setQuery] at hm
  split at hm
  · next can =>
    split at hm
    · next hs =>
      cases hm
      refine ⟨by simp [describes.worldMut], by simp [describes.worldRef],
        by simp [describes.resWriting], by simp [hs], by simp [hs], fun hfl => ?_,
        hda⟩
      obtain ⟨he, hun, hro⟩ := describes.shared hfl
      refine ⟨he, hun, fun param other hq => ?_⟩
      rcases queries_append.mp hq with pre | now
      · exact hro param other pre
      · rw [queries_query hd, mem_map] at now
        obtain ⟨_, -, hsa⟩ := now
        cases hsa
        unfold AccessTable.canQuery at can
        split at can
        · cases can
        · exact can
    · next hs =>
      have hu : table.worldRef = false := by simpa using hs
      cases hm
      refine ⟨by simp [describes.worldMut], by simp [describes.worldRef],
        by simp [describes.resWriting], by simp [hu, describes.resReading hu],
        fun _ => ?_, by simp [hu], hda⟩
      have hv : ∀ e ∈ f.map (·, data), e.2.Valid := fun e mem => by
        obtain ⟨_, -, rfl⟩ := mem_map.mp mem
        exact (declare_spec hd).1
      refine ((describes.buckets hu).recordAll hv).congr fun param other => ?_
      rw [queries_append, queries_query hd]
  · cases hm

/-- One accepted parameter. -/
theorem Describes.mark {param : SystemParam} (hm : param.markAccess table = some next) :
    Describes (params ++ [param]) next := by
  cases param with
  | worldRef => exact describes.mark_worldRef hm
  | worldMut => exact describes.mark_worldMut hm
  | res id => exact describes.mark_res hm
  | resMut id => exact describes.mark_resMut hm
  | query c f => exact describes.mark_query hm

theorem Describes.run {more : List SystemParam} {f : AccessTable}
    (hm : Foundation.run SystemParam.markAccess more table = some f) :
    Describes (params ++ more) f := by
  induction more generalizing params table with
  | nil =>
    cases hm
    rwa [append_nil]
  | cons param more ih =>
    rw [run_cons, Option.bind_eq_some_iff] at hm
    obtain ⟨next, fst, hr⟩ := hm
    have hl := ih (describes.mark fst) hr
    rwa [append_assoc, singleton_append] at hl

end

end Marking

/-- **A table built by accepted parameters describes them.** -/
theorem describes_build (hb : AccessTable.build params = some table) : Describes params table :=
  describes_new.run hb

/-- The buckets of a built table are valid summaries. -/
theorem Describes.valid (describes : Describes params table) {item : AccessParam}
    (hf : table.filter.lookup param = some item) : item.Valid := by
  cases hs : table.worldRef with
  | false => exact ((describes.buckets hs).summary param item hf).valid
  | true =>
    rw [(describes.shared hs).1] at hf
    cases hf

/-- So the table of a system is valid, and so is that of two systems piped into one. -/
theorem valid_build (hb : AccessTable.build params = some table) : table.Valid :=
  fun _ _ hf => (describes_build hb).valid hf

end Voker.Ecs
