import Voker.Asset.Approval

/-!
# Normal forms of paths

A relative path leads up some steps and then down along some names (`location`).  **The normal
form that `normalize_path` computes is this place written down**, and `is_unapproved` refuses the
paths on whose way there are steps up.
-/

namespace Voker.Asset

open List

/-- The loop of `normalize_path`; the result is given from its last component on.  A root or a
drive that is pushed replaces the path. -/
def normalizeFrom : AssetPath → AssetPath → AssetPath
  | result, [] => result.reverse
  | result, .curDir :: rest => normalizeFrom result rest
  | .normal _ :: result, .parentDir :: rest => normalizeFrom result rest
  | result, .parentDir :: rest => normalizeFrom (.parentDir :: result) rest
  | result, .normal name :: rest => normalizeFrom (.normal name :: result) rest
  | _, component :: rest => normalizeFrom [component] rest

/-- `normalize_path`. -/
def normalizePath (path : AssetPath) : AssetPath := normalizeFrom [] path

def Relative (path : AssetPath) : Prop := .drive ∉ path ∧ .rootDir ∉ path

/-- A place as seen from the root of the source: so many steps up, then down these names, of
which the first is the last one passed. -/
structure Location where
  ups : ℕ := 0
  names : List String := []

namespace Location

/-- One component further, on a relative path. -/
def follow (place : Location) : Component → Location
  | .normal name => { place with names := name :: place.names }
  | .parentDir =>
    match place.names with
    | [] => { place with ups := place.ups + 1 }
    | _ :: names => { place with names }
  | _ => place

/-- The shortest path to the place, from its last component on. -/
def backward (place : Location) : AssetPath :=
  place.names.map .normal ++ replicate place.ups .parentDir

theorem ups_le_follow (p : Location) (path : AssetPath) :
    p.ups ≤ (path.foldl follow p).ups := by
  induction path generalizing p with
  | nil => exact le_rfl
  | cons c rest ih =>
    refine le_trans ?_ (ih _)
    fun_cases follow p c <;> simp

theorem foldl_follow_names (p : Location) (n : List String) :
    (n.map .normal).foldl follow p = ⟨p.ups, n.reverse ++ p.names⟩ := by
  induction n generalizing p with
  | nil => rfl
  | cons name n ih => simp [follow, ih]

theorem foldl_follow_ups (ups c : ℕ) :
    (replicate c .parentDir).foldl follow ⟨ups, []⟩ = ⟨ups + c, []⟩ := by
  induction c generalizing ups with
  | zero => rfl
  | succ c ih => rw [replicate_succ, foldl_cons, follow, ih, Nat.add_right_comm, Nat.add_assoc]

/-- The path to a place leads there. -/
theorem foldl_follow_backward (p : Location) :
    p.backward.reverse.foldl follow {} = p := by
  rw [backward, reverse_append, reverse_replicate, ← map_reverse, foldl_append, foldl_follow_ups,
    foldl_follow_names, reverse_reverse, append_nil, Nat.zero_add]

theorem relative_backward (p : Location) : Relative p.backward.reverse := by
  simp [Relative, backward]

end Location

open Location

/-- Where a relative path leads. -/
def location (path : AssetPath) : Location := path.foldl follow {}

/-- What the loop has built is at every point the path to the place it has come to. -/
theorem normalizeFrom_eq {path : AssetPath} (hr : Relative path) (p : Location) :
    normalizeFrom p.backward path = (path.foldl follow p).backward.reverse := by
  induction path generalizing p with
  | nil => rw [normalizeFrom, foldl_nil]
  | cons c rest ih =>
    rw [Relative, mem_cons, mem_cons, not_or, not_or] at hr
    obtain ⟨⟨hnd, he⟩, hnr, ht⟩ := hr
    rw [foldl_cons, ← ih ⟨he, ht⟩]
    cases c with
    | drive => exact absurd rfl hnd
    | rootDir => exact absurd rfl hnr
    | curDir => rfl
    | normal name => rfl
    | parentDir =>
      obtain ⟨ups, _ | ⟨name, n⟩⟩ := p
      · cases ups with
        | zero => rfl
        | succ ups => rfl
      · rfl

theorem normalizePath_eq {path : AssetPath} (hr : Relative path) :
    normalizePath path = (location path).backward.reverse := normalizeFrom_eq hr {}

theorem isUnapprovedFrom_eq_false (s : List String) (path : AssetPath) :
    isUnapprovedFrom s path = false ↔
      Relative path ∧ (path.foldl follow ⟨0, s⟩).ups = 0 := by
  fun_induction isUnapprovedFrom s path with
  | case5 rest =>
    have ha := ups_le_follow ⟨1, []⟩ rest
    simp only [foldl_cons, follow]
    grind
  | _ => simp_all [Relative, follow]

/-- **The check accepts the relative paths that do not pass above the root, whose normal forms
have no step up; and the normal form of a relative path leads to the same place, has its steps up
in front, and is its own normal form.** -/
theorem normalizePath_correct (path : AssetPath) : (isUnapproved path = false ↔
      Relative path ∧ ∀ front, front <+: path → (location front).ups = 0) ∧
    (isUnapproved path = false → .parentDir ∉ normalizePath path) ∧ (Relative path →
      normalizePath (normalizePath path) = normalizePath path ∧
      (∃ ups names, normalizePath path = replicate ups .parentDir ++ map .normal names) ∧
      location (normalizePath path) = location path) := by
  have ha := isUnapprovedFrom_eq_false [] path
  refine ⟨?_, fun hap => ?_, fun hr => ?_⟩
  · refine ha.trans (and_congr_right fun _ => ⟨?_, fun hn => hn path prefix_rfl⟩)
    rintro hb front ⟨rest, rfl⟩
    rw [foldl_append] at hb
    exact Nat.eq_zero_of_le_zero (hb ▸ ups_le_follow _ rest)
  · obtain ⟨hr, hb⟩ := ha.mp hap
    rw [normalizePath_eq hr, mem_reverse, backward, location, hb]
    simp
  · have hs : location (normalizePath path) = location path := by
      rw [normalizePath_eq hr, location, foldl_follow_backward]
    have hag : Relative (normalizePath path) := by
      rw [normalizePath_eq hr]
      exact relative_backward _
    refine ⟨?_, ⟨(location path).ups, (location path).names.reverse, ?_⟩, hs⟩
    · rw [normalizePath_eq hag, hs, ← normalizePath_eq hr]
    · rw [normalizePath_eq hr, backward, reverse_append, reverse_replicate, map_reverse]

end Voker.Asset
