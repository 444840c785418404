import Mathlib.Logic.Function.Basic

/-! Runs of a partial step function, the states they reach, and the induction rule for invariants. -/

namespace Seize

variable {σ α ε : Type}

/--
States reached from `start` by steps that succeed and that `allowed` permits.

The permission is separate from the step, so a caller's obligations never hide inside the code.
-/
inductive Reachable (step : σ → α → Except ε σ) (allowed : σ → α → Prop) (start : σ) : σ → Prop where
  /-- No step has been taken. -/
  | refl : Reachable step allowed start start
  /-- One more permitted step succeeds. -/
  | tail {st st' : σ} {a : α} (before : Reachable step allowed start st) (permitted : allowed st a)
      (stepped : step st a = .ok st') : Reachable step allowed start st'

namespace Reachable

variable {step : σ → α → Except ε σ} {allowed permitted : σ → α → Prop} {start st : σ}

/-- A property of the start that every permitted step keeps holds in every reached state. -/
theorem invariant (Inv : σ → Prop) (base : Inv start)
    (kept : ∀ st a st', Reachable step allowed start st → Inv st → allowed st a →
      step st a = .ok st' → Inv st')
    (reached : Reachable step allowed start st) : Inv st := by
  -- Each step may also use that its source is itself reached.
  induction reached with
  | refl => exact base
  | tail before permitted stepped ih => exact kept _ _ _ before ih permitted stepped

/-- A run under a stronger permission is a run under the weaker one. -/
theorem mono (weaker : ∀ st a, Reachable step allowed start st → allowed st a → permitted st a)
    (reached : Reachable step allowed start st) : Reachable step permitted start st := by
  induction reached with
  | refl => exact .refl
  | tail before ok stepped ih => exact .tail ih (weaker _ _ before ok) stepped

/-- Runs compose. -/
theorem trans {mid : σ} (first : Reachable step allowed start mid)
    (second : Reachable step allowed mid st) : Reachable step allowed start st := by
  induction second with
  | refl => exact first
  | tail _ ok stepped ih => exact .tail ih ok stepped

end Reachable

/-- A check that a list of actions succeeds, each of them approved, and ends in an approved state. -/
def checkRun (step : σ → α → Except ε σ) (approve : σ → α → Bool) (final : σ → Bool) :
    σ → List α → Bool
  | st, [] => final st
  | st, a :: rest => approve st a &&
    match step st a with
    | .ok st' => checkRun step approve final st' rest
    | .error _ => false

/--
A computed run reaches its final state.

The approval may rely on an invariant of the computed states, where the permission itself cannot
be decided.
-/
theorem Reachable.of_checkRun {step : σ → α → Except ε σ} {allowed : σ → α → Prop}
    {approve : σ → α → Bool} {final : σ → Bool} {Inv : σ → Prop}
    (sound : ∀ st a, Inv st → approve st a = true → allowed st a)
    (kept : ∀ st a st', Inv st → approve st a = true → step st a = .ok st' → Inv st') :
    ∀ {actions : List α} {start : σ}, Inv start → checkRun step approve final start actions = true →
      ∃ st, Reachable step allowed start st ∧ Inv st ∧ final st = true := by
  intro actions
  induction actions with
  | nil => exact fun base checked => ⟨_, .refl, base, checked⟩
  | cons a rest ih =>
    intro start base checked
    -- The first action must succeed, and the rest runs from where it leads.
    simp only [checkRun, Bool.and_eq_true] at checked
    obtain ⟨approved, checked⟩ := checked
    cases first : step start a with
    | error e => simp [first] at checked
    | ok mid =>
      simp only [first] at checked
      obtain ⟨st, run, holds, ended⟩ := ih (kept start a mid base approved first) checked
      have head : Reachable step allowed start mid := .tail .refl (sound start a base approved) first
      exact ⟨st, head.trans run, holds, ended⟩

end Seize
