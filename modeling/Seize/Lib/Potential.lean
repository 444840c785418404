import Seize.Lib.Run
import Mathlib.Algebra.BigOperators.Group.List.Basic
import Mathlib.Algebra.GroupWithZero.Nat

/-!
Termination by a potential.

Every step is paid from what its state has gained and not yet spent. What is handed out while
steps are taken gets its weight from all that it can lead to.
-/

namespace Seize

variable {σ α ε ι : Type}

/-- Several actions, one after the other. -/
def runAll (step : σ → α → Except ε σ) : List α → σ → Except ε σ
  | [], st => .ok st
  | a :: rest, st =>
    match step st a with
    | .ok st' => runAll step rest st'
    | .error stop => .error stop

/-- The first of several actions, and the rest of them. -/
theorem runAll_cons {step : σ → α → Except ε σ} {a : α} {rest : List α} {st st' : σ}
    (ran : runAll step (a :: rest) st = .ok st') :
    ∃ mid, step st a = .ok mid ∧ runAll step rest mid = .ok st' := by
  simp only [runAll] at ran
  split at ran
  · rename_i mid first
    exact ⟨mid, first, ran⟩
  · cases ran

/-- What every step keeps holds after several of them. -/
theorem runAll_invariant {step : σ → α → Except ε σ} (Inv : σ → Prop)
    (kept : ∀ st a st', Inv st → step st a = .ok st' → Inv st') {path : List α} {st st' : σ}
    (start : Inv st) (ran : runAll step path st = .ok st') : Inv st' := by
  induction path generalizing st with
  | nil =>
    cases ran
    exact start
  | cons a rest ih =>
    obtain ⟨mid, first, ran⟩ := runAll_cons ran
    exact ih (kept st a mid start first) ran

/-- What several actions add up to, where each step counts by the states around it. -/
def runSum (step : σ → α → Except ε σ) (count : σ → σ → Nat) : List α → σ → Nat
  | [], _ => 0
  | a :: rest, st =>
    match step st a with
    | .ok st' => count st st' + runSum step count rest st'
    | .error _ => 0

/-- A property of a sum and a state that every step keeps holds after several of them. -/
theorem runAll_sum {step : σ → α → Except ε σ} (count : σ → σ → Nat) (Inv : Nat → σ → Prop)
    (kept : ∀ n st a st', Inv n st → step st a = .ok st' → Inv (n + count st st') st')
    {path : List α} {n : Nat} {st st' : σ} (start : Inv n st)
    (ran : runAll step path st = .ok st') : Inv (n + runSum step count path st) st' := by
  induction path generalizing n st with
  | nil =>
    cases ran
    exact start
  | cons a rest ih =>
    obtain ⟨mid, first, ran⟩ := runAll_cons ran
    have later := ih (kept n st a mid start first) ran
    rw [Nat.add_assoc] at later
    simpa only [runSum, first] using later

/--
A run is no longer than the potential it starts with, apart from the steps that are free.

What a step gains and spends is compared with what was gained and spent before it, so that a step
may gain as long as it spends more.
-/
theorem length_le_of_potential {step : σ → α → Except ε σ} (Inv : σ → Prop)
    (kept : ∀ st a st', Inv st → step st a = .ok st' → Inv st') (free : α → Bool)
    (gained spent : σ → Nat) (sound : ∀ st, Inv st → spent st ≤ gained st)
    (paid : ∀ st a st', Inv st → step st a = .ok st' →
      gained st' + spent st + (if free a then 0 else 1) ≤ gained st + spent st')
    {path : List α} {st st' : σ} (start : Inv st) (ran : runAll step path st = .ok st') :
    path.length + spent st ≤ gained st + path.countP free := by
  induction path generalizing st with
  | nil => simpa using sound st start
  | cons a rest ih =>
    obtain ⟨mid, first, ran⟩ := runAll_cons ran
    -- The rest is paid by the potential after the first step, and that step by the difference.
    have later := ih (kept st a mid start first) ran
    have now := paid st a mid start first
    rw [List.length_cons, List.countP_cons]
    split at now
    · rename_i isFree
      rw [if_pos isFree]
      omega
    · rename_i costs
      rw [if_neg costs]
      omega

/-- A run with the actions it has taken, newest first. -/
inductive Trace (step : σ → α → Except ε σ) (allowed : σ → α → Prop) (start : σ) :
    List α → σ → Prop where
  /-- No step has been taken. -/
  | refl : Trace step allowed start [] start
  /-- One more permitted step succeeds. -/
  | tail {path : List α} {st st' : σ} {a : α} (before : Trace step allowed start path st)
      (permitted : allowed st a) (stepped : step st a = .ok st') :
      Trace step allowed start (a :: path) st'

/-- What a run passes is reached. -/
theorem Trace.reachable {step : σ → α → Except ε σ} {allowed : σ → α → Prop} {start st : σ}
    {path : List α} (trace : Trace step allowed start path st) :
    Reachable step allowed start st := by
  induction trace with
  | refl => exact .refl
  | tail _ permitted stepped ih => exact ih.tail permitted stepped

/-- A computed run is one, with the actions it was computed from. -/
theorem Trace.of_checkRun {step : σ → α → Except ε σ} {allowed : σ → α → Prop}
    {approve : σ → α → Bool} {final : σ → Bool} (Inv : σ → Prop)
    (sound : ∀ st a, Inv st → approve st a = true → allowed st a)
    (kept : ∀ st a st', Inv st → approve st a = true → step st a = .ok st' → Inv st') {origin : σ} :
    ∀ {actions path : List α} {start : σ}, Trace step allowed origin path start → Inv start →
      checkRun step approve final start actions = true →
        ∃ st, Trace step allowed origin (actions.reverse ++ path) st ∧ final st = true := by
  intro actions
  -- A path has its newest action first, so the actions come out reversed.
  induction actions with
  | nil => exact fun trace _ checked => ⟨_, trace, checked⟩
  | cons a rest ih =>
    intro path start trace base checked
    simp only [checkRun, Bool.and_eq_true] at checked
    obtain ⟨approved, checked⟩ := checked
    cases first : step start a with
    | error e => simp [first] at checked
    | ok mid =>
      simp only [first] at checked
      have later := ih (trace.tail (sound start a base approved) first)
        (kept start a mid base approved first) checked
      rwa [List.reverse_cons, List.append_assoc]

/-- A run is no longer than the prices of its actions, beyond what it starts with. -/
theorem Trace.length_le_of_amortized {step : σ → α → Except ε σ} {allowed : σ → α → Prop}
    {start st : σ} {path : List α} (gained spent : σ → Nat) (price : α → Nat)
    (sound : ∀ st, Reachable step allowed start st → spent st ≤ gained st)
    (paid : ∀ st a st', Reachable step allowed start st → allowed st a → step st a = .ok st' →
      gained st' + spent st + 1 ≤ gained st + spent st' + price a)
    (trace : Trace step allowed start path st) :
    path.length + spent start ≤ gained start + (path.map price).sum := by
  -- The steps so far, and what is still there to pay for later ones.
  have account : path.length + gained st + spent start ≤
      gained start + spent st + (path.map price).sum := by
    induction trace with
    | refl => simp
    | tail before permitted stepped ih =>
      have now := paid _ _ _ before.reachable permitted stepped
      rw [List.length_cons, List.map_cons, List.sum_cons]
      omega
  have covered := sound st trace.reachable
  omega

/-- The weight of something, where everything it leads to is added to a weight of its own. -/
noncomputable def weight (leads : ι → List ι) (own : ι → Nat)
    (founded : WellFounded fun a b => a ∈ leads b) : ι → Nat :=
  founded.fix fun i recurse => own i + ((leads i).attach.map fun a => recurse a.1 a.2).sum

/-- The equation of weights. -/
theorem weight_eq (leads : ι → List ι) (own : ι → Nat)
    (founded : WellFounded fun a b => a ∈ leads b) (i : ι) :
    weight leads own founded i =
      own i + ((leads i).map (weight leads own founded)).sum := by
  have unfolded := founded.fix_eq
    (fun i recurse => own i + ((leads i).attach.map fun a => recurse a.1 a.2).sum) i
  rw [weight, unfolded]
  congr 2
  exact List.attach_map_val

end Seize
