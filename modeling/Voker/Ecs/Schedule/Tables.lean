import Voker.Ecs.Schedule.Registry

/-!
# The parts of a compiled schedule

What the loops of `build_schedule` compute, one by one: the systems that are taken out of the
buffer and can be put back, the lists of successors by position, how often a position is a
successor, and the matrix of conflicts.  Two positions are compared once and entered in both
orders; those of an exclusive system are entered without being compared.
-/

namespace Voker.Ecs.Schedule

open List

/-! ## Systems -/

theorem nodes_set (buf : SystemBuffer) (key : SystemKey) (node : Option SystemNode) :
    (buf.set key node).nodes = Function.update buf.nodes key (some node) := rfl

/-- The systems are taken in order, and empty slots stay behind. -/
theorem takeSystems_spec (keys : List SystemKey) (hn : keys.Nodup) (buf : SystemBuffer)
    (hf : ∀ key ∈ keys, ∃ node, buf.nodes key = some (some node)) :
    ∃ s t, takeSystems keys buf = some (s, t) ∧
      List.Forall₂ (fun key node => buf.nodes key = some (some node)) keys s ∧
      t.uninit = buf.uninit ∧
      ∀ key, t.nodes key = if key ∈ keys then some none else buf.nodes key := by
  induction keys generalizing buf with
  | nil => exact ⟨[], buf, rfl, .nil, rfl, fun key => (if_neg not_mem_nil).symm⟩
  | cons key rest ih =>
    obtain ⟨ha, hn⟩ := nodup_cons.mp hn
    obtain ⟨node, hs⟩ := hf key mem_cons_self
    have other : ∀ k ∈ rest, (buf.set key none).nodes k = buf.nodes k := by
      intro k mem
      have ne : k ≠ key := by
        rintro rfl
        exact ha mem
      rw [nodes_set, Function.update_of_ne ne]
    obtain ⟨s, t, ht, hal, hu, hno⟩ := ih hn (buf.set key none)
      fun k mem => by
        obtain ⟨held, hs⟩ := hf k (mem_cons_of_mem _ mem)
        exact ⟨held, (other k mem).trans hs⟩
    refine ⟨node :: s, t, ?_, .cons hs ?_, hu, fun k => (hno k).trans ?_⟩
    · rw [takeSystems, SystemBuffer.getSystem, hs, Option.join_some, Option.bind_some, ht]
      rfl
    · refine hal.imp fun k held hs => ?_
      by_cases hsa : k = key
      · subst hsa
        rw [nodes_set, Function.update_self] at hs
        cases hs
      · rwa [nodes_set, Function.update_of_ne hsa] at hs
    · by_cases mem : k ∈ rest
      · rw [if_pos mem, if_pos (mem_cons_of_mem _ mem)]
      · rw [if_neg mem, nodes_set]
        by_cases hsa : k = key
        · subst hsa
          rw [Function.update_self, if_pos mem_cons_self]
        · rw [Function.update_of_ne hsa, if_neg]
          exact fun he => (mem_cons.mp he).elim hsa mem

/-- Putting the systems back. -/
theorem nodes_restore {o : SystemBuffer} {keys : List SystemKey} {s : List SystemNode}
    (hal : List.Forall₂ (fun key node => o.nodes key = some (some node)) keys s)
    (hn : keys.Nodup) (buf : SystemBuffer) (key : SystemKey) :
    ((keys.zip s).foldl (fun buf e => buf.set e.1 (some e.2))
        buf).nodes key = (if key ∈ keys then o.nodes key else buf.nodes key) ∧
      ((keys.zip s).foldl (fun buf e => buf.set e.1 (some e.2))
        buf).uninit = buf.uninit := by
  induction hal generalizing buf with
  | nil => exact ⟨(if_neg not_mem_nil).symm, rfl⟩
  | @cons one node rest s hsl hal ih =>
    obtain ⟨ha, hn⟩ := nodup_cons.mp hn
    obtain ⟨hno, hu⟩ := ih hn (buf.set one (some node))
    refine ⟨hno.trans ?_, hu⟩
    by_cases mem : key ∈ rest
    · rw [if_pos mem, if_pos (mem_cons_of_mem _ mem)]
    · rw [if_neg mem, nodes_set]
      by_cases hs : key = one
      · subst hs
        rw [Function.update_self, if_pos mem_cons_self, hsl]
      · rw [Function.update_of_ne hs, if_neg]
        exact fun he => (mem_cons.mp he).elim hs mem

/-! ## Edges -/

/-- An edge between the keys at two positions. -/
def EdgeAt (keys : List SystemKey) (edge : SystemKey → SystemKey → Prop) (i j : ℕ) : Prop :=
  ∃ a b, keys[i]? = some a ∧ keys[j]? = some b ∧ edge a b

/-- The lists contain the edges, and the counts say how many of them contain a position. -/
structure Lists (keys : List SystemKey) (edge : SystemKey → SystemKey → Prop)
    (lists : List (List ℕ)) (counts : List ℕ) : Prop where
  length : lists.length = keys.length
  countsLength : counts.length = keys.length
  nodup : ∀ list ∈ lists, list.Nodup
  mem : ∀ {i j list}, lists[i]? = some list → (j ∈ list ↔ EdgeAt keys edge i j)
  count : ∀ {j count}, counts[j]? = some count →
    count = ((range keys.length).filter fun i => j ∈ lists.getD i []).length

/-- Counting along a list. -/
theorem getElem?_foldl_modify (ta counts : List ℕ) (j : ℕ) :
    (ta.foldl (fun c t => c.modify t (· + 1)) counts)[j]? =
      counts[j]?.map (· + ta.count j) := by
  induction ta generalizing counts with
  | nil => simp
  | cons t rest ih =>
    rw [foldl_cons, ih, getElem?_modify, count_cons]
    by_cases hs : t = j
    · simp [hs, Function.comp_def, Nat.add_assoc, Nat.add_comm 1]
    · simp [hs]

theorem length_countTargets (size : ℕ) (l : List (List ℕ)) :
    (countTargets size l).length = size := by
  have hk : ∀ (ta c : List ℕ),
      (ta.foldl (fun c t => c.modify t (· + 1)) c).length =
        c.length := fun ta c =>
    @foldlRecOn _ _ (fun post : List ℕ => post.length = c.length) ta _ _ rfl
      fun _ hke _ _ => (length_modify ..).trans hke
  rw [countTargets, hk, length_replicate]

theorem count_flatten (l : List (List ℕ)) (hn : ∀ list ∈ l, list.Nodup) (j : ℕ) :
    l.flatten.count j = ((range l.length).filter fun i => j ∈ l.getD i []).length := by
  induction l using reverseRecOn with
  | nil => rfl
  | append_singleton l list ih =>
    have hnl := hn list (mem_append_right _ mem_cons_self)
    have pre : (range l.length).filter (fun i => j ∈ (l ++ [list]).getD i []) =
        (range l.length).filter fun i => j ∈ l.getD i [] := by
      refine filter_congr fun i hin => ?_
      rw [getD_eq_getElem?_getD, getElem?_append_left (mem_range.mp hin), ← getD_eq_getElem?_getD]
    rw [flatten_append, count_append, length_append, length_singleton,
      range_succ, filter_append, length_append, pre,
      ih fun other mem => hn other (mem_append_left _ mem), flatten_singleton]
    congr 1
    by_cases mem : j ∈ list
    · rw [count_eq_one_of_mem hnl mem, filter_cons_of_pos (by simpa using mem)]
      rfl
    · rw [count_eq_zero_of_not_mem mem, filter_cons_of_neg (by simpa using mem)]
      rfl

theorem lists_targets {keys : List SystemKey} {g : DiGraph SystemKey}
    (con : g.Consistent) (hno : keys.Nodup)
    (hcl : ∀ {a b}, (a, b) ∈ g.edges → b ∈ keys) : ∃ l, targets keys g = some l ∧
      Lists keys (fun a b => (a, b) ∈ g.edges) l (countTargets keys.length l) := by
  have hin : ∀ key ∈ keys, ∀ t ∈ g.neighbors key, t ∈ keys :=
    fun key _ t mem => hcl (con.mem_neighbors.mp mem)
  let l := keys.map fun key => (g.neighbors key).map keys.idxOf
  have hea : ∀ list ∈ l, list.Nodup := by
    intro list mem
    obtain ⟨key, hp, rfl⟩ := mem_map.mp mem
    refine (con.nodup_neighbors key).map_on fun a hma b hmb hs => ?_
    exact (idxOf_inj (hin key hp a hma)).mp hs
  refine ⟨l, if_pos hin, length_map .., length_countTargets .., hea,
    fun {i j list} hf => ?_, fun {j c} hc => ?_⟩
  · obtain ⟨a, atI, rfl⟩ := Option.map_eq_some_iff.mp ((getElem?_map ..).symm.trans hf)
    constructor
    · intro mem
      obtain ⟨b, hn, rfl⟩ := mem_map.mp mem
      have he := con.mem_neighbors.mp hn
      exact ⟨a, b, atI, getElem?_idxOf (hcl he), he⟩
    · rintro ⟨a', b, hai, atJ, he⟩
      rw [atI] at hai
      obtain rfl := Option.some.inj hai
      refine List.mem_map.mpr ⟨b, con.mem_neighbors.mpr he, ?_⟩
      obtain ⟨hin, rfl⟩ := List.getElem?_eq_some_iff.mp atJ
      exact hno.idxOf_getElem j hin
  · rw [countTargets, getElem?_foldl_modify, getElem?_replicate] at hc
    split at hc
    · rw [Option.map_some, Nat.zero_add, count_flatten l hea j, length_map] at hc
      exact (Option.some.inj hc).symm
    · cases hc

/-! ## The matrix -/

/-- The bits of a matrix of the given size. -/
structure Bits (size : ℕ) (table : ConflictTable) (bit : ℕ → ℕ → Prop) : Prop where
  lines : table.lines = size
  isConflict : ∀ {a b}, a < size → b < size → (table.isConflict a b = true ↔ bit a b)

theorem index_inj {size a b x y : ℕ} (hib : b < size) (hiy : y < size) :
    a * size + b = x * size + y ↔ a = x ∧ b = y := by
  constructor
  · intro hs
    have hc : b = y := by
      have hc := congrArg (· % size) hs
      simpa [Nat.mul_add_mod', Nat.mod_eq_of_lt hib, Nat.mod_eq_of_lt hiy] using hc
    subst hc
    exact ⟨Nat.eq_of_mul_eq_mul_right (Nat.zero_lt_of_lt hib) (Nat.add_right_cancel hs), rfl⟩
  · rintro ⟨rfl, rfl⟩
    rfl

/-- Setting bits along a list. -/
theorem foldl_update {α : Type*} (ind : α → ℕ) (it : List α) (bits : ℕ → Bool) (i : ℕ) :
    it.foldl (fun bits item => Function.update bits (ind item) true) bits i = true ↔
      bits i = true ∨ ∃ item ∈ it, ind item = i := by
  induction it generalizing bits with
  | nil => simp
  | cons item rest ih =>
    rw [foldl_cons, ih, Function.update_apply]
    by_cases hs : i = ind item
    · simp [hs]
    · simp [hs, Ne.symm hs]

namespace Bits

variable {size : ℕ} {table : ConflictTable} {bit other : ℕ → ℕ → Prop}

theorem congr (hb : Bits size table bit) (hs : ∀ a b, bit a b ↔ other a b) :
    Bits size table other :=
  ⟨hb.lines, fun hia hib => (hb.isConflict hia hib).trans (hs _ _)⟩

theorem setConflict (hb : Bits size table bit) {x y : ℕ} (hin : y < size) :
    Bits size (table.setConflict x y) fun a b => bit a b ∨ a = x ∧ b = y := by
  refine ⟨hb.lines, fun {a b} hia hib => ?_⟩
  have v : (table.setConflict x y).isConflict a b = Function.update table.table
      (x * table.lines + y) true (a * table.lines + b) := rfl
  rw [v, Function.update_apply, hb.lines]
  have hs := index_inj hib hin (a := a) (x := x)
  have pre : table.table (a * size + b) = true ↔ bit a b := by
    rw [← hb.isConflict hia hib, ConflictTable.isConflict, hb.lines]
  by_cases he : a * size + b = x * size + y
  · rw [if_pos he]
    exact iff_of_true rfl (.inr (hs.mp he))
  · rw [if_neg he, pre]
    exact ⟨.inl, fun hei => hei.resolve_right fun hbo => he (hs.mpr hbo)⟩

theorem setExclusive (bits : Bits size table bit) {x : ℕ} (hin : x < size) :
    Bits size (table.setExclusive x) fun a b => bit a b ∨ a = x ∨ b = x := by
  refine ⟨bits.lines, fun {a b} hia hib => ?_⟩
  have pre : table.table (a * size + b) = true ↔ bit a b := by
    rw [← bits.isConflict hia hib, ConflictTable.isConflict, bits.lines]
  have v : (table.setExclusive x).isConflict a b = (range table.lines).foldl (fun bits line =>
        Function.update bits (x + line * table.lines) true)
        ((range table.lines).foldl (fun bits line =>
          Function.update bits (x * table.lines + line) true) table.table)
        (a * table.lines + b) := rfl
  rw [v, foldl_update, foldl_update, bits.lines, pre]
  have row : (∃ line ∈ range size, x * size + line = a * size + b) ↔ a = x := by
    constructor
    · rintro ⟨line, mem, hs⟩
      exact ((index_inj (mem_range.mp mem) hib).mp hs).1.symm
    · rintro rfl
      exact ⟨b, mem_range.mpr hib, rfl⟩
  have hc : (∃ line ∈ range size, x + line * size = a * size + b) ↔ b = x := by
    constructor
    · rintro ⟨line, mem, hs⟩
      rw [Nat.add_comm] at hs
      exact ((index_inj hin hib).mp hs).2.symm
    · rintro rfl
      exact ⟨a, mem_range.mpr hia, Nat.add_comm ..⟩
  rw [row, hc, or_assoc]

end Bits

section ConflictTable

variable (conflict : ConflictGraph) (keys : List SystemKey)

/-- What one turn of the outer loop sets. -/
def Turn (x a b : ℕ) : Prop :=
  if conflict.exclusive (keys.getD x 0) = true then a = x ∨ b = x
  else ∃ y, x < y ∧ y < keys.length ∧ conflict.conflicts (keys.getD x 0) (keys.getD y 0) = true ∧
    (a = x ∧ b = y ∨ a = y ∧ b = x)

variable {conflict keys}

/-- The inner loop. -/
theorem bits_inner {x : ℕ} (hix : x < keys.length) (rest : List ℕ)
    (hin : ∀ y ∈ rest, y < keys.length) {table : ConflictTable} {bit : ℕ → ℕ → Prop}
    (hb : Bits keys.length table bit) : Bits keys.length (rest.foldl (fun table b =>
        if conflict.conflicts (keys.getD x 0) (keys.getD b 0) then
          (table.setConflict x b).setConflict b x
        else table) table) fun a b => bit a b ∨ ∃ y ∈ rest,
        conflict.conflicts (keys.getD x 0) (keys.getD y 0) = true ∧
          (a = x ∧ b = y ∨ a = y ∧ b = x) := by
  induction rest generalizing table bit with
  | nil => exact hb.congr fun a b => by simp
  | cons y rest ih =>
    rw [foldl_cons]
    have hir := fun z mem => hin z (mem_cons_of_mem y mem)
    have hiy := hin y mem_cons_self
    split
    · next hc =>
      refine (ih hir ((hb.setConflict hiy).setConflict hix)).congr fun a b => ?_
      rw [exists_mem_cons_iff, and_iff_right hc, or_assoc, or_assoc, or_assoc]
    · next hf =>
      refine (ih hir hb).congr fun a b => ?_
      rw [exists_mem_cons_iff]
      exact or_congr_right (or_iff_right fun hbo => hf hbo.1).symm

theorem bits_conflictTable : Bits keys.length (conflictTable conflict keys) fun a b =>
    ∃ x < keys.length, Turn conflict keys x a b := by
  have ho : ∀ (t : List ℕ), (∀ x ∈ t, x < keys.length) →
      ∀ {table : ConflictTable} {bit : ℕ → ℕ → Prop}, Bits keys.length table bit →
      Bits keys.length (t.foldl (fun table a =>
          if conflict.exclusive (keys.getD a 0) then table.setExclusive a
          else (range' (a + 1) (keys.length - (a + 1))).foldl (fun table b =>
            if conflict.conflicts (keys.getD a 0) (keys.getD b 0) then
              (table.setConflict a b).setConflict b a
            else table) table) table)
        fun a b => bit a b ∨ ∃ x ∈ t, Turn conflict keys x a b := by
    intro t
    induction t with
    | nil => exact fun _ _ _ hb => hb.congr fun a b => by simp
    | cons x rest ih =>
      intro hin table bit hb
      have hix := hin x mem_cons_self
      have hir := fun y mem => hin y (mem_cons_of_mem x mem)
      have ht : Bits keys.length (if conflict.exclusive (keys.getD x 0) then
          table.setExclusive x
        else (range' (x + 1) (keys.length - (x + 1))).foldl (fun table b =>
          if conflict.conflicts (keys.getD x 0) (keys.getD b 0) then
            (table.setConflict x b).setConflict b x
          else table) table) fun a b => bit a b ∨ Turn conflict keys x a b := by
        split
        · next he =>
          refine (hb.setExclusive hix).congr fun a b => ?_
          rw [Turn, if_pos he]
        · next hp =>
          have range : ∀ y, y ∈ range' (x + 1) (keys.length - (x + 1)) ↔
              x < y ∧ y < keys.length := by
            intro y
            rw [mem_range'_1]
            omega
          refine (bits_inner hix _ (fun y mem => ((range y).mp mem).2) hb).congr fun a b => ?_
          rw [Turn, if_neg hp]
          simp only [range, and_assoc]
      refine (ih hir ht).congr fun a b => ?_
      rw [exists_mem_cons_iff, or_assoc]
  have hs : Bits keys.length (.new keys.length) fun _ _ => False :=
    ⟨rfl, fun _ _ => iff_of_false Bool.false_ne_true id⟩
  refine (ho (range keys.length) (fun x => mem_range.mp) hs).congr fun a b => ?_
  simp only [false_or, mem_range]

/-- **The table has a bit between an exclusive system and every other, and between two
systems with a conflict.** -/
theorem isConflict_conflictTable {a b : ℕ} (hia : a < keys.length) (hib : b < keys.length)
    (hs : ∀ x y, conflict.conflicts x y = conflict.conflicts y x) (ne : a ≠ b) :
    (conflictTable conflict keys).isConflict a b = true ↔
      conflict.exclusive (keys.getD a 0) = true ∨ conflict.exclusive (keys.getD b 0) = true ∨
        conflict.conflicts (keys.getD a 0) (keys.getD b 0) = true := by
  rw [bits_conflictTable.isConflict hia hib]
  constructor
  · rintro ⟨x, -, ht⟩
    rw [Turn] at ht
    split at ht
    · next he =>
      rcases ht with rfl | rfl
      · exact .inl he
      · exact .inr (.inl he)
    · obtain ⟨y, -, -, hc, ⟨rfl, rfl⟩ | ⟨rfl, rfl⟩⟩ := ht
      · exact .inr (.inr hc)
      · exact .inr (.inr ((hs ..).trans hc))
  · have hf : ∀ {x y : ℕ}, x < y → y < keys.length →
        conflict.conflicts (keys.getD x 0) (keys.getD y 0) = true →
        (a = x ∧ b = y ∨ a = y ∧ b = x) → Turn conflict keys x a b := by
      intro x y hl hin hc hen
      rw [Turn]
      split
      · exact hen.imp And.left And.right
      · exact ⟨y, hl, hin, hc, hen⟩
    rintro (he | he | hc)
    · exact ⟨a, hia, by rw [Turn, if_pos he]; exact .inl rfl⟩
    · exact ⟨b, hib, by rw [Turn, if_pos he]; exact .inr rfl⟩
    · rcases Nat.lt_or_gt_of_ne ne with hl | hl
      · exact ⟨a, hia, hf hl hib hc (.inl ⟨rfl, rfl⟩)⟩
      · exact ⟨b, hib, hf hl hia ((hs ..).trans hc) (.inr ⟨rfl, rfl⟩)⟩

/-- The table is symmetric. -/
theorem isConflict_comm {a b : ℕ} (hia : a < keys.length) (hib : b < keys.length) :
    (conflictTable conflict keys).isConflict a b =
      (conflictTable conflict keys).isConflict b a := by
  rw [Bool.eq_iff_iff, bits_conflictTable.isConflict hia hib,
    bits_conflictTable.isConflict hib hia]
  refine exists_congr fun x => and_congr_right fun _ => ?_
  rw [Turn, Turn]
  split
  · exact or_comm
  · refine exists_congr fun y => and_congr_right fun _ => and_congr_right fun _ =>
      and_congr_right fun _ => ?_
    rw [or_comm, and_comm (a := a = y), and_comm (a := a = x)]

end ConflictTable

end Voker.Ecs.Schedule
