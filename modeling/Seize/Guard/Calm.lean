import Seize.Guard.Lawful
import Seize.Raw.Conserve
import Seize.Raw.Counts

/-!
Programs whose reclaimers return.

Nobody panics, and whoever calls `reclaim_all` has the collector for itself while nothing is active.
Then the raw collector accounts for every batch and for every object.
-/

namespace Seize.Guards

open Seize.Raw (Config SlotId Tid Ptr Reclaim)

variable {cfg : Config} {st st' : State} {t : Tid} {s : SlotId} {action : Action}
  {calls : List Raw.Action} {next : State} {raw raw' : Raw.State}

/-- What is asked of a program, in terms of its guards alone. -/
structure Calm (cfg : Config) (st : State) (move : Tid × Action) : Prop where
  fresh : OwnedFresh cfg st move
  /-- Nobody else is inside `reclaim_all`. -/
  apart : ∀ t', t' ≠ move.1 → ∀ f ∈ st.raw.stack t', f.iteration = none
  /-- Nobody is inside a call when `reclaim_all` begins, and nothing is active. -/
  alone : move.2 = .reclaimAll → (∀ t', st.raw.stack t' = []) ∧ ∀ s, ¬ st.raw.Active s
  exits : ∀ reserved, move.2 = .exit reserved → ∀ g ∈ st.live, g.kind ≠ .localTo move.1
  returns : move.2 ≠ .panic

/-- What the raw collector sees of such a program. -/
structure Peaceful (cfg : Config) (raw : Raw.State) (move : Tid × Raw.Action) : Prop where
  balanced : Raw.Balanced cfg raw move
  returns : move.2 ≠ .panic
  alone : move.2 = .reclaimAll → raw.stack move.1 = [] ∧ ∀ s, ¬ raw.Active s

/-- What holds of the raw collector under such a program. -/
structure Consistent (cfg : Config) (raw : Raw.State) : Prop where
  sound : Raw.Sound cfg raw
  lives : Raw.Lives raw
  tended : Raw.Tended raw
  covered : Raw.Covered raw
  conserved : Raw.Conserved raw

/-- A peaceful run of the raw collector is calm and orderly. -/
theorem reachable_consistent
    (run : Reachable (Raw.step cfg) (Peaceful cfg) Raw.State.init raw) : Consistent cfg raw := by
  have calm : Reachable (Raw.step cfg) (Raw.Calm cfg) Raw.State.init raw :=
    run.mono fun _ _ _ peaceful => ⟨peaceful.balanced.1, peaceful.balanced.2, peaceful.returns⟩
  have orderly : Reachable (Raw.step cfg) (Raw.Orderly cfg) Raw.State.init raw :=
    run.mono fun _ _ _ peaceful => ⟨peaceful.balanced.1.1, peaceful.returns, peaceful.alone⟩
  obtain ⟨sound, lives, tended, covered⟩ := Raw.reachable_calm calm
  exact ⟨sound, lives, tended, covered, (Raw.reachable_audited orderly).conserved⟩

/-- No slot holds the sentinel while no call is in progress. -/
theorem Consistent.no_sentinel (consistent : Consistent cfg raw) (idle : ∀ t, raw.stack t = []) :
    ∀ s, raw.batch s ≠ .drop := by
  intro s marked
  obtain ⟨t, height, f, found, _⟩ := consistent.tended.dropping s marked
  rw [Raw.State.frame, idle t] at found
  cases found

/-- A calm step is lawful. -/
theorem Calm.lawful {move : Tid × Action} (calm : Calm cfg st move)
    (consistent : Consistent cfg st.raw) : Lawful cfg st move where
  fresh := calm.fresh
  apart := calm.apart
  alone := by
    intro is
    obtain ⟨idle, _⟩ := calm.alone is
    exact ⟨fun t' _ => idle t', consistent.no_sentinel idle⟩
  exits := calm.exits

/-- Calls that panic nowhere and do not call `reclaim_all`. -/
theorem Allowed.peaceful (allowed : Allowed cfg (Raw.Balanced cfg) t calls raw)
    (returns : .panic ∉ calls) (away : .reclaimAll ∉ calls) :
    Allowed cfg (Peaceful cfg) t calls raw := by
  induction calls generalizing raw with
  | nil => trivial
  | cons call rest ih =>
    rw [List.mem_cons, not_or] at returns away
    refine ⟨⟨allowed.1, Ne.symm returns.1, fun is => absurd is.symm away.1⟩, fun raw' called => ?_⟩
    exact ih (allowed.2 raw' called) returns.2 away.2

/-- The raw calls of a calm step are peaceful. -/
theorem Planned.peaceful (planned : Planned cfg st t action calls next) (owners : Owners st)
    (activity : Activity st) (housed : Housed cfg st) (calm : Calm cfg st (t, action))
    (lawful : Lawful cfg st (t, action)) : Allowed cfg (Peaceful cfg) t calls st.raw := by
  have allowed := planned.allowed owners activity housed lawful
  have returns : .panic ∉ calls := by
    intro made
    obtain ⟨_, is | ⟨_, is⟩⟩ := planned.sole made rfl
    · cases action with
      | panic => exact calm.returns rfl
      | _ => cases is
    · cases is
  by_cases called : .reclaimAll ∈ calls
  · -- The call of `reclaim_all` is the only one, and nothing else goes on.
    obtain ⟨rfl, is | ⟨rfl, _⟩⟩ := planned.sole called rfl
    · cases action <;> cases is
    · obtain ⟨idle, inactive⟩ := calm.alone rfl
      exact .one ⟨allowed.1, by simp, fun _ => ⟨idle t, inactive⟩⟩
  · exact allowed.peaceful returns called

/-- The run lemma: a calm run is lawful, and peaceful for the raw collector. -/
theorem reachable_peaceful (run : Reachable (step cfg) (Calm cfg) State.init st) :
    Reachable (step cfg) (Lawful cfg) State.init st ∧
      Reachable (Raw.step cfg) (Peaceful cfg) Raw.State.init st.raw := by
  refine run.invariant (fun st => Reachable (step cfg) (Lawful cfg) State.init st ∧
    Reachable (Raw.step cfg) (Peaceful cfg) Raw.State.init st.raw) ⟨.refl, .refl⟩ ?_
  rintro mid move st' _ ⟨lawfully, peacefully⟩ calm ran
  have lawful := calm.lawful (reachable_consistent peacefully)
  have owners := reachable_owners lawfully
  have activity := reachable_activity (lawful_fresh lawfully)
  have kept := reachable_kept lawfully
  refine ⟨lawfully.tail lawful ran, ?_⟩
  obtain ⟨calls, next, raw, _, _, planned, called, rfl⟩ := step_planned ran
  exact (planned.peaceful owners activity kept.housed calm lawful).run called peacefully

end Seize.Guards
