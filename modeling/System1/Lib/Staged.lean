/-
A registry with a staging area.

Values are offered under keys. An offer is taken when the key has neither an active value
nor a staged one, and a taken offer is staged. A commit makes the staged values active, a
rollback forgets them; either way nothing is staged afterwards. A key that has an active
value keeps it, because no offer under it is taken again.

`Staged` says what registering is for; a program that keeps its registrations in
variables and flags of its own is compared with it.
-/
import Mathlib.Logic.Function.Basic

set_option autoImplicit false

namespace System1.Lib

/-- The active and the staged values of a registry with keys `K` and values `V`. -/
@[ext] structure Staged (K V : Type) where
  active : K → Option V
  staged : K → Option V

namespace Staged

variable {K V : Type}

/-- Whether an offer under `k` is taken. -/
def Open (s : Staged K V) (k : K) : Prop := s.active k = none ∧ s.staged k = none

/-- The registry after an offer has been taken. -/
def stage [DecidableEq K] (s : Staged K V) (k : K) (v : V) : Staged K V :=
  { s with staged := Function.update s.staged k (some v) }

def rollback (s : Staged K V) : Staged K V := { s with staged := fun _ => none }

def commit (s : Staged K V) : Staged K V where
  active := fun k => (s.staged k).or (s.active k)
  staged := fun _ => none

/-- Nothing is staged under a key with an active value. -/
def Fresh (s : Staged K V) : Prop := ∀ k v, s.staged k = some v → s.active k = none

theorem fresh_of_none {s : Staged K V} (h : ∀ k, s.staged k = none) : s.Fresh := by
  intro k v hv
  rw [h k] at hv
  cases hv

theorem Fresh.stage [DecidableEq K] {s : Staged K V} (h : s.Fresh) {k : K} (hk : s.Open k) (v : V) :
    (s.stage k v).Fresh := by
  intro k' v' hv
  by_cases hkk : k' = k
  · rw [hkk]
    exact hk.1
  · simp only [Staged.stage, Function.update_of_ne hkk] at hv
    exact h k' v' hv

/-- What is staged after taking an offer. -/
theorem stage_staged [DecidableEq K] {s : Staged K V} {k : K} (hk : s.Open k) (v : V) (k' : K)
    (v' : V) :
    (s.stage k v).staged k' = some v' ↔ s.staged k' = some v' ∨ (k' = k ∧ v' = v) := by
  unfold Staged.stage
  by_cases hkk : k' = k
  · subst hkk
    simp [hk.2, eq_comm]
  · simp [hkk]

/-- An active value survives a commit: nothing is staged over it. -/
theorem Fresh.commit_kept {s : Staged K V} (h : s.Fresh) {k : K} {v : V}
    (hv : s.active k = some v) : s.commit.active k = some v := by
  have hnone : s.staged k = none := by
    cases hs : s.staged k with
    | none => rfl
    | some w =>
      rw [h k w hs] at hv
      cases hv
  simp [commit, hnone, hv]

/-- A commit activates what is staged and nothing else. -/
theorem Fresh.commit_active {s : Staged K V} (h : s.Fresh) (k : K) (v : V) :
    s.commit.active k = some v ↔ s.active k = some v ∨ s.staged k = some v := by
  cases hs : s.staged k with
  | none => simp [commit, hs]
  | some w => simp [commit, hs, h k w hs]

end Staged

end System1.Lib
