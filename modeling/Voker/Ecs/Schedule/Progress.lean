import Voker.Ecs.Schedule.Invariant

/-!
# The multi-threaded executor returns

Two questions remain.  Does a run end, and is everything done when it does?

**Every run ends**: a step brings a system further on its way, or takes effort from the
threads that hold or want the lock (`acc_step`).  **It ends only when all systems are
completed**: signals that nobody has handled are seen by a thread that is about to look, and
the queue is not left alone while no system runs (`Live`).
-/

namespace Voker.Ecs

open Foundation List

namespace MultiThreadedExecutor

variable {s : SystemSchedule} {out : ℕ → Outcome} {x : MultiThreadedExecutor}

/-! ## Nobody is forgotten -/

section

variable (executor : MultiThreadedExecutor)

/-- A system runs, or its signal waits in the queue. -/
def Busy : Prop :=
  executor.flying ≠ [] ∨ executor.completed ≠ []

/-- Ready systems are looked at again. -/
def Awake : Prop :=
  match executor.lock with
  | none => executor.state.readySystems = [] ∨ executor.Busy ∨ 0 < executor.trying
  | some (.draining _) => True
  | some (.spawning left) => executor.state.readySystems = [] ∨ executor.Busy ∨ 0 < left
  | some (.resolving _ _ _) => executor.Busy

/-- The saved positions lie in the queue, last position first. -/
def InQueue : Prop :=
  match executor.lock with
  | some (.resolving _ saved _) => saved.Pairwise (· > ·) ∧
      ∀ position ∈ saved, position < executor.state.readySystems.length
  | _ => True

end

/-- Nobody is forgotten. -/
structure Live (executor : MultiThreadedExecutor) : Prop where
  heard : executor.completed ≠ [] →
    executor.lock ≠ none ∨ 0 < executor.trying ∨ 0 < executor.checking
  awake : executor.Awake
  inQueue : executor.InQueue

theorem live_start : Live (start s) :=
  ⟨fun hs => absurd rfl hs, .inr (.inr Nat.one_pos), trivial⟩

variable {i : ℕ} {label : ExecutorStep}

/-- A system that conflicts, conflicts with a system that runs. -/
theorem Sound.busy_of_conflict (hso : Sound s out x) (hc : x.isConflict s i = true)
    (hi : x.emitted = x.completed) : x.Busy := by
  obtain ⟨r, hin, -⟩ := of_decide_eq_true hc
  rcases (hso.running r).mp hin with hf | ⟨si, hs, -⟩
  · exact .inl (ne_nil_of_mem hf)
  · rw [hi] at hs
    exact .inr (ne_nil_of_mem hs)

/-- The scan finds positions of the queue. -/
theorem noOpPositions_inQueue (r : List ℕ) : (noOpPositions s r).Pairwise (· > ·) ∧
      ∀ pos ∈ noOpPositions s r, pos < r.length := by
  refine ⟨?_, fun pos mem => ?_⟩
  · rw [noOpPositions, pairwise_reverse]
    exact pairwise_lt_range.filter _
  · exact mem_range.mp (mem_filter.mp (mem_reverse.mp mem)).1

theorem awake_of_busy (hb : x.Busy) : x.Awake := by
  unfold Awake
  split
  · exact .inr (.inl hb)
  · trivial
  · exact .inr (.inl hb)
  · exact hb

/-- **No step forgets anybody.** -/
theorem Live.next (hli : Live x) (hs : Sound s out x)
    {next : MultiThreadedExecutor} (hm : Transition s out x label next) : Live next := by
  have ha := hli.awake
  have hiq := hli.inQueue
  cases hm with
  | finish mem =>
    exact ⟨fun _ => .inr (.inl (Nat.succ_pos _)), awake_of_busy (.inr (by simp)), hiq⟩
  | acquire hfr hw => exact ⟨fun _ => .inl (by simp), trivial, trivial⟩
  | giveUp he hw =>
    refine ⟨fun _ => .inl he, ?_, hiq⟩
    unfold Awake at ha ⊢
    cases hl : x.lock with
    | none => exact absurd hl he
    | some p =>
      rw [hl] at ha
      cases p <;> exact ha
  | check has =>
    refine ⟨fun hse => .inr (.inl ?_), ?_, hiq⟩
    · simp [hse]
    · unfold Awake at ha ⊢
      cases hl : x.lock with
      | none =>
        rw [hl] at ha
        refine ha.imp_right (Or.imp_right fun hw => ?_)
        dsimp only
        split <;> omega
      | some p =>
        rw [hl] at ha
        cases p <;> exact ha
  | drain hl => exact ⟨fun _ => .inl (by simp [afterSignal]), trivial, trivial⟩
  | fetch hl hq => exact ⟨fun _ => .inl (by simp), trivial, trivial⟩
  | scan hl hq =>
    refine ⟨fun _ => .inl (by simp), ?_, trivial⟩
    rcases Nat.eq_zero_or_pos x.state.readySystems.length with none | some
    · exact .inl (length_eq_zero_iff.mp none)
    · exact .inr (.inr some)
  | leave hl hno =>
    refine ⟨fun _ => .inr (.inr (Nat.succ_pos _)), ?_, trivial⟩
    rw [Awake, hl] at ha
    rcases hno with rfl | none
    · exact ha.imp_right (Or.imp_right fun hle => absurd hle (lt_irrefl _))
    · exact .inl none
  | postpone hl hr hc hq =>
    refine ⟨fun _ => .inl (by simp), awake_of_busy ?_, trivial⟩
    exact hs.busy_of_conflict hc (by simp [emitted, stack, hl])
  | defer hl hr hc hq =>
    exact ⟨fun _ => .inr (.inr (Nat.succ_pos _)), awake_of_busy (.inr hq), trivial⟩
  | spawn hl hr hfr =>
    refine ⟨fun _ => .inl (by simp [spawnSystemTask]),
      awake_of_busy (.inl (by simp [spawnSystemTask])), ?_⟩
    unfold InQueue spawnSystemTask
    dsimp only
    split_ifs
    · exact noOpPositions_inQueue _
    · trivial
  | settle hl =>
    rw [Awake, hl] at ha
    rw [InQueue, hl] at hiq
    refine ⟨fun _ => .inl (by simp [afterSignal]), ha, hiq.1, fun pos mem => ?_⟩
    have hin := hiq.2 pos mem
    simp only [afterSignal, ExecutorState.after, length_append]
    omega
  | resolve hl hf =>
    rw [Awake, hl] at ha
    rw [InQueue, hl] at hiq
    obtain ⟨hd, hin⟩ := hiq
    obtain ⟨hb, hre⟩ := pairwise_cons.mp hd
    refine ⟨fun _ => .inl (by simp), ha, hre, fun pos mem => ?_⟩
    have hsm := hb pos mem
    have hla := hin _ mem_cons_self
    rw [length_swapRemove hla]
    omega
  | resume hl =>
    rw [Awake, hl] at ha
    exact ⟨fun _ => .inl (by simp), .inr (.inl ha), trivial⟩

/-! ## At the end -/

/-- When the executor returns, nobody is ready and no signal is left. -/
theorem Live.returned (hl : Live x) (hr : x.Returned) :
    x.state.readySystems = [] ∧ x.completed = [] := by
  obtain ⟨hla, hfr, hnt, hnc⟩ := hr
  have he : x.completed = [] := by
    by_contra hs
    rcases hl.heard hs with hel | ht | hc
    · exact hel hfr
    · omega
    · omega
  have ha := hl.awake
  rw [Awake, hfr] at ha
  rcases ha with hn | (hf | hs) | ht
  · exact ⟨hn, he⟩
  · exact absurd hla hf
  · exact absurd he hs
  · omega

/-- **When the executor returns, every system is completed once.** -/
theorem Sound.count_done (hs : Sound s out x) (hl : Live x)
    (hr : x.Returned) (hin : i < s.size) : x.done.count i = 1 := by
  obtain ⟨hre, hq⟩ := hl.returned hr
  have hc : ∀ o, x.done.count o =
      if o < s.size ∧ x.state.incoming o = 0 then 1 else 0 := by
    intro o
    rw [← hs.places, MultiThreadedExecutor.places, hre, hr.1, signals, emitted, hq,
      hr.2.1, done, count, countP_map]
    simp only [stack, nil_append, countP_nil, Nat.zero_add]
    rfl
  -- by induction along the order of the systems: no predecessor is missing
  induction i using Nat.strong_induction_on with
  | h i ih =>
    have hz : x.state.incoming i = 0 := by
      rw [hs.incoming, outstanding_eq_zero]
      intro src mem
      have he := SystemSchedule.lt_of_mem_predecessors mem
      have ho := ih src he (he.trans hin)
      exact count_pos_iff.mp (by omega)
    rw [hc, if_pos ⟨hin, hz⟩]

/-- The signal that completed a system. -/
theorem Sound.exists_signal (hs : Sound s out x) (hl : Live x)
    (hr : x.Returned) (hin : i < s.size) : ∃ si ∈ x.handled, si.index = i := by
  have hc : 0 < x.done.count i := by
    rw [hs.count_done hl hr hin]
    exact Nat.one_pos
  exact mem_map.mp (count_pos_iff.mp hc)

theorem Live.enabled_advance (hli : Live x) (hs : Sound s out x)
    (he : x.lock ≠ none) : ∃ next, x.advance s = some next := by
  obtain ⟨ph, hl⟩ := Option.ne_none_iff_exists'.mp he
  unfold advance
  rw [hl]
  cases ph with
  | draining p =>
    cases p with
    | nil => cases x.completed <;> exact ⟨_, rfl⟩
    | cons si p => exact ⟨_, hs.handle_eq (emitted_perm (by rw [hl, stack])) _⟩
  | spawning left => cases left <;> exact ⟨_, rfl⟩
  | resolving p sa left =>
    cases p with
    | cons si p => exact ⟨_, hs.handle_eq (emitted_perm (by rw [hl, stack])) _⟩
    | nil =>
      cases sa with
      | nil => exact ⟨_, rfl⟩
      | cons pos sa =>
        have hiq := hli.inQueue
        rw [InQueue, hl] at hiq
        have hin := hiq.2 pos mem_cons_self
        exact Option.isSome_iff_exists.mp (by simp [resolve, hin])

/-- As long as the executor has not returned, something can happen. -/
theorem Live.enabled (hl : Live x) (hs : Sound s out x) (hr : ¬ x.Returned) :
    ∃ label next, step s out label x = some next := by
  by_cases he : x.lock = none
  · by_cases ht : x.flying = []
    · by_cases hw : 0 < x.trying
      · exact ⟨.acquire, _, if_pos ⟨he, hw⟩⟩
      · by_cases has : 0 < x.checking
        · exact ⟨.check, _, if_pos has⟩
        · exact absurd ⟨ht, he, by omega, by omega⟩ hr
    · obtain ⟨i, mem⟩ := exists_mem_of_ne_nil _ ht
      exact ⟨.finish i, _, if_pos mem⟩
  · obtain ⟨next, ha⟩ := hl.enabled_advance hs he
    exact ⟨.advance, next, ha⟩

/-! ## Every run ends -/

/-- How far the systems have come: a system that is ready counts one, and one more for each
place it goes on to. -/
def gained (executor : MultiThreadedExecutor) : ℕ :=
  executor.state.readySystems.length + 2 * executor.flying.length +
    3 * executor.completed.length + 4 * (stack executor.lock).length +
    5 * executor.handled.length

/-- What the threads still have to do before a system goes on. -/
def effort (executor : MultiThreadedExecutor) : ℕ :=
  if executor.completed = [] then
    executor.trying * (executor.state.readySystems.length + 5) + executor.checking +
      match executor.lock with
      | none => 0
      | some (.draining _) => executor.state.readySystems.length + 4
      | some (.spawning left) => left + 2
      | some (.resolving _ _ left) => left + 3
  else
    2 * executor.trying + 3 * executor.checking +
      match executor.lock with
      | none => 0
      | some (.draining _) => 1
      | some (.spawning left) => left + 4
      | some (.resolving _ _ left) => left + 5

/-- Nobody counts twice. -/
theorem Sound.gained_le (hs : Sound s out x) : x.gained ≤ 5 * s.size := by
  have hin : x.state.readySystems ++ x.flying ++
      x.signals.map CompletedSignal.index ⊆ range s.size := by
    intro i mem
    have hp := count_pos_iff.mpr mem
    rw [count_places] at hp
    exact mem_range.mpr (hs.incoming_eq_zero hp).1
  have hb := (hs.nodup.subperm hin).length_le
  simp only [length_append, length_map, signals, emitted, length_range] at hb
  unfold gained
  omega

/-- **A step brings a system further, or takes effort.** -/
theorem Transition.gain {next : MultiThreadedExecutor} (hm : Transition s out x label next) :
    x.gained < next.gained ∨ next.gained = x.gained ∧
      next.effort < x.effort := by
  cases hm with
  | finish mem =>
    left
    have hfl := length_erase_of_mem mem
    simp only [gained, handled, length_append, length_singleton]
    omega
  | acquire hfr hw =>
    right
    refine ⟨by simp [gained, handled, stack, hfr], ?_⟩
    obtain ⟨t, pos⟩ := Nat.exists_eq_add_of_lt hw
    simp only [effort, hfr, pos, Nat.zero_add, Nat.add_sub_cancel, Nat.succ_mul]
    split <;> omega
  | giveUp he hw =>
    right
    refine ⟨rfl, ?_⟩
    obtain ⟨t, pos⟩ := Nat.exists_eq_add_of_lt hw
    simp only [effort, pos, Nat.zero_add, Nat.add_sub_cancel, Nat.succ_mul]
    split <;> omega
  | check ha =>
    right
    refine ⟨rfl, ?_⟩
    simp only [effort, List.isEmpty_iff]
    split <;> omega
  | drain hl =>
    left
    simp only [gained, handled, afterSignal, ExecutorState.after, stack, hl,
      List.filterMap_append, List.length_append, List.length_cons, List.filterMap_cons,
      List.filterMap_nil, List.length_nil]
    omega
  | fetch hl hq =>
    left
    simp only [gained, handled, stack, hl, hq, length_cons, length_nil]
    omega
  | scan hl hq =>
    right
    refine ⟨by simp [gained, handled, stack, hl], ?_⟩
    simp only [effort, hl, hq, if_true]
    omega
  | leave hl hn =>
    right
    refine ⟨by simp [gained, handled, stack, hl, unlock], ?_⟩
    unfold unlock
    simp only [effort, hl]
    split <;> omega
  | postpone hl hr hc hq =>
    right
    refine ⟨by simp [gained, handled, stack, hl, hr], ?_⟩
    simp only [effort, hl, hq, hr, if_true, length_append, length_cons,
      length_nil, Nat.zero_add]
    omega
  | defer hl hr hc hq =>
    right
    refine ⟨by simp [gained, handled, stack, hl, hr], ?_⟩
    simp only [effort, hl, if_neg hq]
    omega
  | spawn hl hr hfr =>
    left
    rw [gained, gained, stack_spawnSystemTask, handled_spawnSystemTask, hl, hr]
    simp only [spawnSystemTask, stack, length_cons]
    omega
  | settle hl =>
    left
    simp only [gained, handled, afterSignal, ExecutorState.after, stack, hl,
      filterMap_append, length_append, length_cons, filterMap_cons,
      List.filterMap_nil, List.length_nil]
    omega
  | resolve hl hf =>
    left
    obtain ⟨hin, -⟩ := List.getElem?_eq_some_iff.mp hf
    simp only [gained, handled, stack, hl, length_swapRemove hin, length_cons, length_nil]
    omega
  | resume hl =>
    right
    refine ⟨by simp [gained, handled, stack, hl], ?_⟩
    simp only [effort, hl]
    split <;> omega

/-- The executor is in order and forgets nobody. -/
def Steady (schedule : SystemSchedule) (outcome : ℕ → Outcome)
    (executor : MultiThreadedExecutor) : Prop :=
  Sound schedule outcome executor ∧ Live executor

theorem steady_start : Steady s out (start s) := ⟨sound_start, live_start⟩

theorem Steady.step (hst : Steady s out x) {next : MultiThreadedExecutor}
    (hs : MultiThreadedExecutor.step s out label x = some next) : Steady s out next := by
  have hm := hst.1.transition hs
  exact ⟨hst.1.next hm, hst.2.next hst.1 hm⟩

/-- Every state a run leads to is steady. -/
theorem steady_run {l : List ExecutorStep} (ran : run (step s out) l (start s) = some x) :
    Steady s out x :=
  run_invariant (fun _ _ _ hst hs => hst.step hs) steady_start ran

/-- **No run goes on for ever.** -/
theorem Steady.acc (hst : Steady s out x) :
    Acc (fun next st => ∃ label, MultiThreadedExecutor.step s out label st = some next) x :=
  acc_of_gain (fun _ _ hst ⟨_, hs⟩ => hst.step hs)
    (fun _ hst => hst.1.gained_le)
    (fun _ _ hst ⟨_, hs⟩ => (hst.1.transition hs).gain) hst

/-- **Every run ends, and only when the executor has returned with every system completed
once.** -/
theorem run_returns (labels : List ExecutorStep) : Throughout (step s out) (fun x =>
    Acc (fun next state => ∃ label, step s out label state = some next) x ∧
    (x.Returned ∨ ∃ label next, step s out label x = some next) ∧
    (x.Returned → ∀ i < s.size, x.done.count i = 1)) labels (start s) :=
  throughout_of_invariant (fun _ _ _ hst hs => hst.step hs) (fun _ hst =>
    ⟨hst.acc, or_iff_not_imp_left.mpr (hst.2.enabled hst.1),
      fun hr _ => hst.1.count_done hst.2 hr⟩) steady_start

end MultiThreadedExecutor

end Voker.Ecs
