import Mathlib.Data.List.Basic

/-!
# Computations that may fail and keep their state

A computation changes a state and either returns a value or fails with an error; **the
state it has reached survives the failure**, as the memory of a program survives a
panic.  Core's `EStateM` is that monad.

`Sat comp state returns fails` says of one run of `comp` what holds of the value and the
state when it returns and what holds of the error and the state when it fails.  It has
one rule per combinator, so a proof about a program follows the program's text.
`Moves R comp` is the special case of a relation between the states before and after,
whether the computation returns or fails: what a program can do at most.
-/

namespace Foundation

open List

universe u

variable {ε σ α β : Type u}

/-- What holds after a run of a computation. -/
def Sat (comp : EStateM ε σ α) (state : σ) (returns : α → σ → Prop) (fails : ε → σ → Prop) : Prop :=
  match comp state with
  | .ok value after => returns value after
  | .error err after => fails err after

section Rules

variable {comp : EStateM ε σ α} {next : α → EStateM ε σ β} {state : σ}
  {returns : α → σ → Prop} {fails : ε → σ → Prop}

/-- What is known about a run that returned. -/
theorem Sat.of_ok (sat : Sat comp state returns fails) {v : α} {post : σ}
    (out : comp state = .ok v post) : returns v post := by
  unfold Sat at sat
  rw [out] at sat
  exact sat

/-- A run that cannot fail returns. -/
theorem Sat.exists_ok (sat : Sat comp state returns fun _ _ => False) :
    ∃ v post, comp state = .ok v post ∧ returns v post := by
  unfold Sat at sat
  cases out : comp state with
  | ok v post =>
    rw [out] at sat
    exact ⟨v, post, rfl, sat⟩
  | error err post =>
    rw [out] at sat
    exact sat.elim

/-- What holds after a run can be found out by running. -/
instance Sat.decidable [∀ value after, Decidable (returns value after)]
    [∀ err after, Decidable (fails err after)] : Decidable (Sat comp state returns fails) :=
  match outcome : comp state with
  | .ok value after => decidable_of_iff (returns value after) (by rw [Sat, outcome])
  | .error err after => decidable_of_iff (fails err after) (by rw [Sat, outcome])

variable {returns' : α → σ → Prop} {fails' : ε → σ → Prop}

theorem Sat.mono (sat : Sat comp state returns fails)
    (hor : ∀ v post, returns v post → returns' v post)
    (hof : ∀ err post, fails err post → fails' err post) : Sat comp state returns' fails' := by
  unfold Sat at sat ⊢
  cases out : comp state with
  | ok v post =>
    rw [out] at sat
    exact hor v post sat
  | error err post =>
    rw [out] at sat
    exact hof err post sat

theorem Sat.and (one : Sat comp state returns fails) (two : Sat comp state returns' fails') :
    Sat comp state (fun v post => returns v post ∧ returns' v post)
      (fun err post => fails err post ∧ fails' err post) := by
  unfold Sat at one two ⊢
  cases out : comp state with
  | ok v post =>
    rw [out] at one two
    exact ⟨one, two⟩
  | error err post =>
    rw [out] at one two
    exact ⟨one, two⟩

theorem sat_trivial (comp : EStateM ε σ α) (state : σ) :
    Sat comp state (fun _ _ => True) (fun _ _ => True) := by
  unfold Sat
  cases comp state with
  | ok v post => trivial
  | error err post => trivial

@[simp]
theorem sat_pure (v : α) : Sat (pure v : EStateM ε σ α) state returns fails ↔ returns v state :=
  Iff.rfl

section

variable {ret : β → σ → Prop}

@[simp]
theorem sat_bind : Sat (comp >>= next) state ret fails ↔
      Sat comp state (fun v post => Sat (next v) post ret fails) fails := by
  unfold Sat
  change (match EStateM.bind comp next state with
    | .ok v post => ret v post
    | .error err post => fails err post) ↔ _
  unfold EStateM.bind
  cases comp state with
  | ok v post => rfl
  | error err post => rfl

/-- One computation after another: the first has to establish what the second needs. -/
theorem Sat.bind {mid : α → σ → Prop} (one : Sat comp state mid fails)
    (two : ∀ v post, mid v post → Sat (next v) post ret fails) :
    Sat (comp >>= next) state ret fails :=
  sat_bind.mpr (one.mono two fun _ _ hf => hf)

@[simp]
theorem sat_map {change : α → β} : Sat (change <$> comp) state ret fails ↔
      Sat comp state (fun v post => ret (change v) post) fails := by
  unfold Sat
  change (match EStateM.map change comp state with
    | .ok v post => ret v post
    | .error err post => fails err post) ↔ _
  unfold EStateM.map
  cases comp state with
  | ok v post => rfl
  | error err post => rfl

end

@[simp]
theorem sat_throw (err : ε) :
    Sat (throw err : EStateM ε σ α) state returns fails ↔ fails err state :=
  Iff.rfl

@[simp]
theorem sat_get {ret : σ → σ → Prop} :
    Sat (get : EStateM ε σ σ) state ret fails ↔ ret state state :=
  Iff.rfl

@[simp]
theorem sat_set {ret : PUnit → σ → Prop} (new : σ) :
    Sat (set new : EStateM ε σ PUnit) state ret fails ↔ ret ⟨⟩ new :=
  Iff.rfl

@[simp]
theorem sat_modify {ret : PUnit → σ → Prop} (c : σ → σ) :
    Sat (modify c : EStateM ε σ PUnit) state ret fails ↔ ret ⟨⟩ (c state) :=
  Iff.rfl

@[simp]
theorem sat_modifyGet (c : σ → α × σ) :
    Sat (modifyGet c : EStateM ε σ α) state returns fails ↔
      returns (c state).1 (c state).2 :=
  Iff.rfl

/-- A handler runs in the state the failure has left. -/
theorem sat_tryCatch {h : ε → EStateM ε σ α} :
    Sat (tryCatch comp h) state returns fails ↔
      Sat comp state returns (fun err post => Sat (h err) post returns fails) := by
  unfold Sat
  change (match EStateM.tryCatch comp h state with
    | .ok v post => returns v post
    | .error err post => fails err post) ↔ _
  unfold EStateM.tryCatch
  cases comp state with
  | ok v post => rfl
  | error err post => rfl

/-- **The loop rule**, for loops that carry a value.  The invariant speaks about the items already
visited. -/
theorem Sat.foldlM {items : List α} {body : β → α → EStateM ε σ β}
    {Inv : List α → β → σ → Prop} {fails : ε → σ → Prop}
    (hst : ∀ done item rest, items = done ++ item :: rest → ∀ v state, Inv done v state →
      Sat (body v item) state (fun next post => Inv (done ++ [item]) next post) fails)
    {v : β} (hi : Inv [] v state) :
    Sat (items.foldlM body v) state (fun f post => Inv items f post) fails := by
  -- the visited items grow at the end while the recursion consumes the front
  suffices hg : ∀ (todo done : List α), items = done ++ todo → ∀ v state, Inv done v state →
      Sat (todo.foldlM body v) state (fun f post => Inv items f post) fails from
    hg items [] rfl v state hi
  intro todo
  induction todo with
  | nil =>
    intro done hs v state ho
    rw [append_nil] at hs
    subst hs
    exact ho
  | cons item rest ih =>
    intro done hs v state ho
    refine (hst done item rest hs v state ho).bind (fun next post hk => ?_)
    exact ih (done ++ [item]) (by rw [hs, append_assoc]; rfl) next post hk

theorem forM_eq_foldlM (i : List α) (body : α → EStateM ε σ PUnit) :
    i.forM body = i.foldlM (fun _ item => body item) ⟨⟩ := by
  induction i with
  | nil => rfl
  | cons item rest ih => exact congrArg (body item >>= ·) (funext fun _ => ih)

/-- The loop rule for loops that carry nothing. -/
theorem Sat.forM {i : List α} {body : α → EStateM ε σ PUnit}
    {Inv : List α → σ → Prop} {fails : ε → σ → Prop}
    (hst : ∀ done item rest, i = done ++ item :: rest → ∀ state, Inv done state →
      Sat (body item) state (fun _ post => Inv (done ++ [item]) post) fails)
    (hi : Inv [] state) :
    Sat (i.forM body) state (fun _ post => Inv i post) fails := by
  rw [forM_eq_foldlM]
  exact @Sat.foldlM _ _ _ _ _ _ _ (fun done _ => Inv done) _
    (fun done item rest hs _ => hst done item rest hs) _ hi

/-- The loop rule for an invariant that does not look at the items. -/
theorem Sat.forM_const {i : List α} {body : α → EStateM ε σ PUnit}
    {Inv : σ → Prop} {fails : ε → σ → Prop} (hst : ∀ item ∈ i, ∀ state, Inv state →
      Sat (body item) state (fun _ post => Inv post) fails)
    (hi : Inv state) : Sat (i.forM body) state (fun _ post => Inv post) fails := by
  refine @Sat.forM ε σ α state i body (fun _ => Inv) fails ?_ hi
  intro done item rest hs mid ho
  exact hst item (by rw [hs]; simp) mid ho

end Rules

/-! ## Relations between the states before and after -/

/-- Whatever happens, the states before and after are related. -/
def Moves (R : σ → σ → Prop) (comp : EStateM ε σ α) : Prop :=
  ∀ state, Sat comp state (fun _ after => R state after) (fun _ after => R state after)

section Moves

variable {R : σ → σ → Prop} {comp : EStateM ε σ α} {next : α → EStateM ε σ β}

theorem Moves.mono {S : σ → σ → Prop} (hm : Moves R comp)
    (hw : ∀ pre post, R pre post → S pre post) : Moves S comp :=
  fun state => (hm state).mono (fun _ post => hw state post)
    (fun _ post => hw state post)

theorem Moves.pure [Std.Refl R] (v : α) : Moves R (pure v : EStateM ε σ α) :=
  fun state => refl_of R state

theorem Moves.throw [Std.Refl R] (err : ε) : Moves R (throw err : EStateM ε σ α) :=
  fun state => refl_of R state

theorem Moves.read [Std.Refl R] : Moves R (get : EStateM ε σ σ) :=
  fun state => refl_of R state

theorem Moves.bind [IsTrans σ R] (one : Moves R comp)
    (two : ∀ v, Moves R (next v)) : Moves R (comp >>= next) := by
  intro state
  refine (one state).bind (fun v post hm => ?_)
  exact (two v post).mono (fun _ _ ha => trans_of R hm ha)
    (fun _ _ ha => trans_of R hm ha)

theorem Moves.forM [Std.Refl R] [IsTrans σ R] {i : List α}
    {body : α → EStateM ε σ PUnit} (he : ∀ item ∈ i, Moves R (body item)) :
    Moves R (i.forM body) := by
  intro state
  refine Sat.forM_const (fun item mem mid hm => ?_) (refl_of R state)
  exact (he item mem mid).mono (fun _ _ ha => trans_of R hm ha)
    (fun _ _ ha => trans_of R hm ha)

theorem Moves.foldlM [Std.Refl R] [IsTrans σ R] {i : List α}
    {body : β → α → EStateM ε σ β} (he : ∀ v, ∀ item ∈ i, Moves R (body v item))
    (v : β) : Moves R (i.foldlM body v) := by
  induction i generalizing v with
  | nil => exact .pure v
  | cons item rest ih =>
    refine (he v item mem_cons_self).bind fun next => ?_
    exact ih (fun v o mem => he v o (mem_cons_of_mem _ mem)) next

end Moves

/-! ## Invariants -/

/-- An invariant holds again when the computation returns; when it fails, something else is
known. -/
def Upholds (fails : ε → σ → Prop) (Inv : σ → Prop) (comp : EStateM ε σ α) : Prop :=
  ∀ state, Inv state → Sat comp state (fun _ after => Inv after) fails

section Upholds

variable {fails : ε → σ → Prop} {Inv : σ → Prop} {comp : EStateM ε σ α}
  {next : α → EStateM ε σ β}

theorem Upholds.pure (v : α) : Upholds fails Inv (pure v : EStateM ε σ α) :=
  fun _ ho => ho

theorem Upholds.read : Upholds fails Inv (get : EStateM ε σ σ) := fun _ ho => ho

theorem Upholds.bind (one : Upholds fails Inv comp)
    (two : ∀ v, Upholds fails Inv (next v)) : Upholds fails Inv (comp >>= next) := by
  intro state ho
  exact (one state ho).bind (fun v post hk => two v post hk)

theorem Upholds.forM {i : List α} {body : α → EStateM ε σ PUnit}
    (he : ∀ item ∈ i, Upholds fails Inv (body item)) :
    Upholds fails Inv (i.forM body) := fun _ ho =>
  Sat.forM_const (fun item mem mid hk => he item mem mid hk) ho

theorem Upholds.foldlM {i : List α} {body : β → α → EStateM ε σ β}
    (he : ∀ v, ∀ item ∈ i, Upholds fails Inv (body v item)) (v : β) :
    Upholds fails Inv (i.foldlM body v) := fun _ ho =>
  @Sat.foldlM ε σ α β _ i body (fun _ _ state => Inv state) _
    (fun done item rest hs v mid hk =>
      he v item (by rw [hs]; simp) mid hk) v ho

end Upholds

/-- An invariant survives a computation: it holds again when the computation returns, and
when it fails in a way that can be caught. -/
def Keeps (caught : ε → Prop) (Inv : σ → Prop) (comp : EStateM ε σ α) : Prop :=
  ∀ state, Inv state →
    Sat comp state (fun _ after => Inv after) (fun err after => caught err → Inv after)

section Keeps

variable {caught : ε → Prop} {Inv : σ → Prop} {comp : EStateM ε σ α}
  {next : α → EStateM ε σ β}

/-- What changes the state by a relation that respects the invariant keeps it. -/
theorem Moves.keeps {R : σ → σ → Prop} (hmo : Moves R comp)
    (hr : ∀ pre post, R pre post → Inv pre → Inv post) :
    Keeps caught Inv comp := fun state ho =>
  (hmo state).mono (fun _ post hm => hr state post hm ho)
    (fun _ post hm _ => hr state post hm ho)

theorem Keeps.pure (v : α) : Keeps caught Inv (pure v : EStateM ε σ α) :=
  Upholds.pure v

theorem Keeps.read : Keeps caught Inv (get : EStateM ε σ σ) := Upholds.read

theorem Keeps.bind (one : Keeps caught Inv comp)
    (two : ∀ v, Keeps caught Inv (next v)) : Keeps caught Inv (comp >>= next) :=
  Upholds.bind one two

end Keeps

end Foundation
