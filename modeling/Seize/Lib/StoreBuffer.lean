import Mathlib.Data.List.Perm.Basic

/-!
Store buffers.

A plain store waits in the buffer of its thread until memory shows it, in the order of issue. A
fence waits for the stores of its own thread, and a process-wide barrier for those of all threads.
-/

namespace Seize

variable {ω : Type}

/-- A store that was issued and that memory does not show yet. -/
structure Store (ω : Type) where
  thread : Nat
  /-- When it was issued. -/
  time : Nat
  write : ω
  deriving DecidableEq, Repr

namespace Store

/-- The buffer of a thread is empty, which is what a fence of that thread waits for. -/
def drained (stores : List (Store ω)) (t : Nat) : Bool := stores.all (·.thread != t)

/-- The store of a thread that reaches memory next. -/
def oldest (stores : List (Store ω)) (t : Nat) : Option (Store ω) := stores.find? (·.thread == t)

/-- The stores that wait when the oldest one of a thread has reached memory. -/
def drain (stores : List (Store ω)) (t : Nat) : List (Store ω) := stores.eraseP (·.thread == t)

/-- Every store from before a time has reached memory, which is what a barrier waits for. -/
def settled (stores : List (Store ω)) (time : Nat) : Bool := stores.all (time ≤ ·.time)

/-- Only the store that reaches memory stops waiting. -/
theorem perm_drain {stores : List (Store ω)} {t : Nat} {store : Store ω}
    (found : oldest stores t = some store) : stores.Perm (store :: drain stores t) := by
  -- The search and the removal stop at the same store.
  induction stores with
  | nil => cases found
  | cons first rest ih =>
    by_cases mine : first.thread = t
    · rw [oldest, List.find?_cons, beq_iff_eq.mpr mine] at found
      rw [drain, List.eraseP_cons, beq_iff_eq.mpr mine, Option.some.inj found]
      exact .refl _
    · rw [oldest, List.find?_cons, beq_false_of_ne mine] at found
      rw [drain, List.eraseP_cons, beq_false_of_ne mine]
      exact ((ih found).cons first).trans (.swap store first _)

/-- Every store of a settled buffer is younger. -/
theorem le_of_settled {stores : List (Store ω)} {time : Nat} (done : settled stores time = true)
    {store : Store ω} (waits : store ∈ stores) : time ≤ store.time :=
  of_decide_eq_true (List.all_eq_true.mp done store waits)

/-- A thread whose buffer is empty has issued none of the stores that wait. -/
theorem thread_ne_of_drained {stores : List (Store ω)} {t : Nat} (empty : drained stores t = true)
    {store : Store ω} (waits : store ∈ stores) : store.thread ≠ t := by
  have other := List.all_eq_true.mp empty store waits
  simpa using other

end Store

end Seize
