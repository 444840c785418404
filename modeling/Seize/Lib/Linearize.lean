import Seize.Lib.Run

/-!
Linearizability.

An atomic object runs every operation at one moment between its call and its return. A program is
linearizable when each of its histories of calls and returns is one of the atomic object.
-/

namespace Seize

variable {σ ι ρ : Type}

/-- What a history records. -/
inductive Seen (ι ρ : Type) where
  | call (t : Nat) (op : ι)
  | ret (t : Nat) (result : ρ)
  deriving DecidableEq, Repr

/-- How far a thread is with its operation. -/
inductive Status (ι ρ : Type) where
  | idle
  | called (op : ι)
  /-- The operation has taken effect, and its result is known. -/
  | done (result : ρ)
  deriving DecidableEq, Repr

/-- An object together with the threads that use it. -/
structure Atomic (σ ι ρ : Type) where
  object : σ
  status : Nat → Status ι ρ

namespace Atomic

/-- A change of the status of one thread. -/
def become (a : Atomic σ ι ρ) (t : Nat) (status : Status ι ρ) : Atomic σ ι ρ :=
  { a with status := Function.update a.status t status }

/-- An object that nobody uses. -/
def init (start : σ) : Atomic σ ι ρ := ⟨start, fun _ => .idle⟩

/-- The steps of an atomic object, with what they add to a history. -/
inductive Step (apply : σ → ι → σ × ρ) : Atomic σ ι ρ → List (Seen ι ρ) → Atomic σ ι ρ → Prop where
  | call {a : Atomic σ ι ρ} {t : Nat} {op : ι} (idle : a.status t = .idle) :
      Step apply a [.call t op] (a.become t (.called op))
  /-- The operation takes effect. -/
  | commit {a : Atomic σ ι ρ} {t : Nat} {op : ι} (called : a.status t = .called op) :
      Step apply a [] ({ a with object := (apply a.object op).1 }.become t
        (.done (apply a.object op).2))
  | ret {a : Atomic σ ι ρ} {t : Nat} {result : ρ} (done : a.status t = .done result) :
      Step apply a [.ret t result] (a.become t .idle)

/-- Runs of an atomic object, with their histories, newest first. -/
inductive Run (apply : σ → ι → σ × ρ) (a : Atomic σ ι ρ) :
    List (Seen ι ρ) → Atomic σ ι ρ → Prop where
  | refl : Run apply a [] a
  | tail {history new : List (Seen ι ρ)} {a₁ a₂ : Atomic σ ι ρ} (before : Run apply a history a₁)
      (step : Step apply a₁ new a₂) : Run apply a (new ++ history) a₂

variable {apply : σ → ι → σ × ρ} {a a₁ a₂ : Atomic σ ι ρ} {history later : List (Seen ι ρ)}

/-- One step is a run. -/
theorem Step.run {new : List (Seen ι ρ)} (step : Step apply a new a₁) : Run apply a new a₁ := by
  have run := Run.tail .refl step
  rwa [List.append_nil] at run

/-- Runs compose, and so do their histories. -/
theorem Run.trans (first : Run apply a history a₁) (second : Run apply a₁ later a₂) :
    Run apply a (later ++ history) a₂ := by
  -- Histories grow at the front, so the second one is put there step by step.
  induction second with
  | refl => exact first
  | tail _ step ih =>
    rw [List.append_assoc]
    exact ih.tail step

end Atomic

/-- A history is one of an atomic object. -/
def Linearizable (apply : σ → ι → σ × ρ) (start : σ) (history : List (Seen ι ρ)) : Prop :=
  ∃ a, Atomic.Run apply (Atomic.init start) history a

/-- An atomic object that follows a step keeps up with the history and stays related. -/
def Follows {τ ε : Type} (apply : σ → ι → σ × ρ) (history : τ → List (Seen ι ρ))
    (related : τ → Atomic σ ι ρ → Prop) (st : τ) (a : Atomic σ ι ρ) (result : Except ε τ) : Prop :=
  ∀ st', result = .ok st' → ∃ new a', Atomic.Run apply a new a' ∧ history st' = new ++ history st ∧
    related st' a'

section Simulation

variable {τ α ε : Type} {apply : σ → ι → σ × ρ} {object : σ} {step : τ → α → Except ε τ}
  {allowed : τ → α → Prop} {start st : τ}

/-- The rule of simulation: an atomic object that can follow every step follows every run. -/
theorem Reachable.followed (history : τ → List (Seen ι ρ)) (related : τ → Atomic σ ι ρ → Prop)
    (empty : history start = []) (base : related start (Atomic.init object))
    (simulates : ∀ st a move, related st a → allowed st move →
      Follows apply history related st a (step st move))
    (run : Reachable step allowed start st) :
    ∃ a, Atomic.Run apply (Atomic.init object) (history st) a ∧ related st a := by
  -- The atomic object that has followed so far stays related.
  induction run with
  | refl => exact ⟨_, empty ▸ .refl, base⟩
  | tail _ permitted stepped ih =>
    obtain ⟨a, followed, holds⟩ := ih
    obtain ⟨new, a', went, more, holds'⟩ := simulates _ a _ holds permitted _ stepped
    exact ⟨a', more ▸ followed.trans went, holds'⟩

/-- A program that an atomic object can follow is linearizable. -/
theorem Reachable.linearizable (history : τ → List (Seen ι ρ)) (related : τ → Atomic σ ι ρ → Prop)
    (empty : history start = []) (base : related start (Atomic.init object))
    (simulates : ∀ st a move, related st a → allowed st move →
      Follows apply history related st a (step st move))
    (run : Reachable step allowed start st) : Linearizable apply object (history st) := by
  obtain ⟨a, followed, _⟩ := run.followed history related empty base simulates
  exact ⟨a, followed⟩

end Simulation

end Seize
