import Seize.Lib.Potential
import Seize.Raw.Toll

/-!
The steps of all threads together.

A linking loop repeats an exchange only after another thread has changed the head it saw. What a
thread gains is enough for itself and for one lost race of each other thread.
-/

namespace Seize.Raw

variable {cfg : Config} {st st' : State} {t u : Tid} {n : Nat} {action : Action}
  {move : Tid × Action} {work : Ptr → Reclaim → Nat}

/-- One if the linking loop of a thread has seen a head that is not there any more. -/
def stale (st : State) (t : Tid) : Nat :=
  match st.stack t with
  | .link _ _ _ _ (some (s, head)) :: _ => if st.head s = head then 0 else 1
  | _ => 0

/-- The threads whose linking loops have lost a race. -/
def staleAll (n : Nat) (st : State) : Nat := ∑ t ∈ Finset.range n, stale st t

/-- What the first threads have gained for the steps still to come. -/
def gainedAll (cfg : Config) (work : Ptr → Reclaim → Nat) (n : Nat) (st : State) : Nat :=
  (st.log.map (Event.added work)).sum + 2 * listed cfg st.pushed +
    ∑ t ∈ Finset.range n, tolls cfg (st.stack t)

/-- A summand is taken out of a sum over threads. -/
theorem sum_thread (count : Tid → Nat) (small : t < n) :
    ∑ u ∈ Finset.range n, count u = count t + ∑ u ∈ (Finset.range n).erase t, count u :=
  (Finset.add_sum_erase _ count (Finset.mem_range.mpr small)).symm

/-- A loop that nobody has raced is not stale. -/
theorem Unraced.not_stale (unraced : Unraced st t) : stale st t = 0 := by
  unfold stale
  split
  · rename_i top
    rw [if_pos (unraced _ _ _ _ _ _ _ top)]
  · rfl

/-- A thread is stale or not. -/
theorem stale_le (st : State) (t : Tid) : stale st t ≤ 1 := by
  unfold stale
  split
  · split <;> omega
  · exact Nat.zero_le _

/-- A loop that has lost a race was stale. -/
theorem Retried.was_stale (retried : Retried st t st') : stale st t = 1 := by
  obtain ⟨b, marked, i, active, s, prev, below, top, differs, _⟩ := retried
  simp only [stale, top, if_neg differs]

/-- What one thread has gained is part of what all have gained. -/
theorem gainedAll_eq (small : t < n) : gainedAll cfg work n st =
    gained cfg work st t + ∑ u ∈ (Finset.range n).erase t, tolls cfg (st.stack u) := by
  rw [gainedAll, gained, sum_thread (fun u => tolls cfg (st.stack u)) small]
  omega

/-- The tolls of the other threads stay. -/
theorem tolls_others (others : ∀ u, u ≠ t → st'.stack u = st.stack u) :
    ∑ u ∈ (Finset.range n).erase t, tolls cfg (st'.stack u) =
      ∑ u ∈ (Finset.range n).erase t, tolls cfg (st.stack u) := by
  refine Finset.sum_congr rfl fun u inside => ?_
  rw [others u (Finset.ne_of_mem_erase inside)]

/-- A step that loses a race takes back one stale loop, and costs nothing else. -/
theorem Retried.paid (retried : Retried st t st') (small : t < n)
    (others : ∀ u, u ≠ t → st'.stack u = st.stack u) :
    gainedAll cfg work n st' = gainedAll cfg work n st ∧ spent work st' = spent work st ∧
      staleAll n st' + 1 = staleAll n st := by
  have was := retried.was_stale
  obtain ⟨b, marked, i, active, s, prev, below, top, _, stack, head, log, pushed⟩ := retried
  refine ⟨?_, by rw [spent, spent, log], ?_⟩
  · -- Only the head that the loop holds is another one.
    rw [gainedAll_eq small, gainedAll_eq small, tolls_others others, gained, gained, log, pushed,
      stack, top, tolls_cons, tolls_cons]
    rfl
  · have now : stale st' t = 0 := by simp only [stale, stack, head, if_true]
    have rest : ∑ u ∈ (Finset.range n).erase t, stale st' u =
        ∑ u ∈ (Finset.range n).erase t, stale st u := by
      refine Finset.sum_congr rfl fun u inside => ?_
      simp only [stale, others u (Finset.ne_of_mem_erase inside), head]
    rw [staleAll, staleAll, sum_thread _ small, sum_thread (stale st) small, rest, was, now]
    omega

/-- Another step makes the loops of all other threads stale at most. -/
theorem staleAll_le (st : State) (small : t < n) (unraced : Unraced st' t) :
    staleAll n st' + 1 ≤ staleAll n st + n := by
  have now := unraced.not_stale
  -- Every other thread counts once at most.
  have rest : ∑ u ∈ (Finset.range n).erase t, stale st' u ≤ n - 1 := by
    refine (Finset.sum_le_card_nsmul _ _ 1 fun u _ => stale_le st' u).trans ?_
    rw [Finset.card_erase_of_mem (Finset.mem_range.mpr small), Finset.card_range]
    simp
  have positive : 0 < n := Nat.zero_lt_of_lt small
  rw [staleAll, sum_thread _ small, now]
  omega

/-- What is asked of a run. -/
structure Paced (cfg : Config) (n : Nat) (st : State) (move : Tid × Action) : Prop where
  orderly : Orderly cfg st move
  /-- Only the first threads make steps. -/
  few : move.1 < n
  /-- A skip passes at least one slot. -/
  forward : ∀ target, move.2 = .skip target → before target (st.stack move.1) = true

/-- What is known about a state of such a run. -/
theorem reachable_paced (run : Reachable (Raw.step cfg) (Paced cfg n) State.init st) :
    Audited cfg st ∧ Spanned cfg st :=
  ⟨reachable_audited (run.mono fun _ _ _ paced => paced.orderly),
    reachable_spanned (run.mono fun _ _ _ paced => paced.orderly.1)⟩

/-- The least work that pays for a reclaimer: its invocation and its return. -/
def leastWork : Ptr → Reclaim → Nat := fun _ _ => 2

/-- What an action is paid for. -/
def fee (cfg : Config) (action : Action) : Nat := price cfg leastWork action

/-- A step that loses no race is paid for, or was before. -/
theorem Move.paid_all (moved : Move cfg st t action st') (inv : Inv cfg st) (spanned : Spanned cfg st)
    (small : t < n) (unraced : ¬ Retried st t st') (calm : action ≠ .panic)
    (forward : ∀ target, action = .skip target → before target (st.stack t) = true) :
    gainedAll cfg leastWork n st' + spent leastWork st + 1 ≤
      gainedAll cfg leastWork n st + spent leastWork st' + fee cfg action := by
  have moves : ∀ target, action = .skip target → st'.stack t ≠ st.stack t := by
    rintro target rfl
    exact moved.skip_moves (forward target rfl)
  have heavy : ∀ p f, (fun _ _ => 0) p f + 2 ≤ leastWork p f := fun _ _ => Nat.le_refl 2
  have toll := moved.toll inv spanned unraced calm moves heavy
  -- The other threads keep what they have gained.
  rw [gainedAll_eq small, gainedAll_eq small, tolls_others fun u => moved.stack_other]
  simp only [fee] at toll ⊢
  omega

/-- What all threads have gained, with one unit for each race that may still be lost. -/
def purse (cfg : Config) (n : Nat) (st : State) : Nat :=
  n * gainedAll cfg leastWork n st + staleAll n st

/-- The step lemma: what is not paid for now was gained before. -/
theorem Paced.paid (run : Reachable (Raw.step cfg) (Paced cfg n) State.init st)
    (paced : Paced cfg n st move) (ran : Raw.step cfg st move = .ok st') :
    purse cfg n st' + n * spent leastWork st + 1 ≤
      purse cfg n st + n * spent leastWork st' + n * fee cfg move.2 := by
  obtain ⟨t, action⟩ := move
  obtain ⟨audited, spanned⟩ := reachable_paced run
  have inv := audited.sound.inv
  have small : t < n := paced.few
  obtain ⟨st₁, moved, rfl⟩ := step_move ran
  show purse cfg n st₁ + n * spent leastWork st + 1 ≤
    purse cfg n st + n * spent leastWork st₁ + n * fee cfg action
  by_cases retried : Retried st t st₁
  · -- A lost race was paid for by the step that won it.
    obtain ⟨gains, spends, races⟩ := retried.paid small fun u => moved.stack_other
    rw [purse, purse, gains, spends]
    omega
  · -- Whatever else happens, each of the other threads loses one race more at most.
    have paid := Nat.mul_le_mul_left n (moved.paid_all inv spanned small retried paced.orderly.2.1
      paced.forward)
    have races := staleAll_le st small (moved.unraced (inv.tops t) paced.orderly.2.1)
    simp only [Nat.mul_add, Nat.mul_one] at paid
    rw [purse, purse]
    omega

/-- Only what was gained is spent. -/
theorem solvent_all (run : Reachable (Raw.step cfg) (Paced cfg n) State.init st) :
    n * spent leastWork st ≤ purse cfg n st := by
  cases n with
  | zero => simp
  | succ m =>
    have solvent : spent leastWork st ≤ gained cfg leastWork st 0 :=
      (reachable_paced run).1.conserved.solvent leastWork 0
    have enough : spent leastWork st ≤ gainedAll cfg leastWork (m + 1) st := by
      rw [gainedAll_eq (Nat.succ_pos m)]
      exact solvent.trans (Nat.le_add_right _ _)
    exact (Nat.mul_le_mul_left _ enough).trans (Nat.le_add_right _ _)

/-- Nothing has been gained in the beginning. -/
theorem purse_init : purse cfg n State.init = 0 := by
  simp [purse, gainedAll, staleAll, stale, State.init, listed, tolls]

/--
All steps of a run are paid for by the calls in it, each by its fee once for every thread.

Only calls of user code and spurious failures have a fee, so however the threads race each other,
without them every run ends: the collector is lock-free.
-/
theorem steps_amortized (cfg : Config) (n : Nat) {path : List (Tid × Action)} {st : State}
    (run : Trace (Raw.step cfg) (Paced cfg n) State.init path st) :
    path.length ≤ (path.map fun move => n * fee cfg move.2).sum := by
  have bound := run.length_le_of_amortized (purse cfg n) (fun st => n * spent leastWork st)
    (fun move => n * fee cfg move.2) (fun _ run => solvent_all run)
    fun st move st' run paced ran => paced.paid run ran
  rw [purse_init, Nat.zero_add] at bound
  exact (Nat.le_add_right _ _).trans bound

/-- The rules of such a run that speak of one action. -/
def pacedCheck (n : Nat) (st : State) (move : Tid × Action) : Bool :=
  orderlyCheck n st move &&
    match move.2 with
    | .skip target => before target (st.stack move.1)
    | _ => true

/-- A run that passes the checks is paced. -/
theorem paced_of_check (within : Within n st) (access : accessCheck cfg n st move = true)
    (checked : pacedCheck n st move = true) : Paced cfg n st move := by
  obtain ⟨orderly, forward⟩ := Bool.and_eq_true_iff.mp checked
  refine ⟨orderly_of_check within access orderly, ?_, fun target is => ?_⟩
  · exact of_decide_eq_true (Bool.and_eq_true_iff.mp access).1
  · rw [is] at forward
    exact forward

/-- A computed run that passes the checks is a paced one. -/
theorem trace_of_check (cfg : Config) (n : Nat) (final : State → Bool) (moves : List (Tid × Action))
    (checked : checkRun (Raw.step cfg)
      (fun st move => accessCheck cfg n st move && pacedCheck n st move) final State.init moves =
        true) :
    ∃ st, Trace (Raw.step cfg) (Paced cfg n) State.init moves.reverse st ∧ final st = true := by
  obtain ⟨st, run, ended⟩ := Trace.of_checkRun (Within n)
    (fun st move within approved => paced_of_check within (Bool.and_eq_true_iff.mp approved).1
      (Bool.and_eq_true_iff.mp approved).2)
    (fun st move st' within approved ran =>
      within.step (Bool.and_eq_true_iff.mp approved).1 ran) .refl (.init n) checked
  rw [List.append_nil] at run
  exact ⟨st, run, ended⟩

/-- Two threads link their batches to the slot of one of them, and one loses the race. -/
def lostRace : List (Tid × Action) :=
  [(0, .create 0), (0, .enter 0), (0, .add 0 7 9 (plenty 1)), (0, .advance false),
    (0, .skip (2 ^ 64 - 32)), (0, .advance false), (0, .advance false),
    (1, .add 1 8 9 (plenty 2)), (1, .advance false), (1, .skip (2 ^ 64 - 32)), (1, .advance false),
    (1, .advance false), (1, .advance false), (0, .advance false), (0, .advance false)]

/-- The thread that loses exchanges again, and both batches are on the list. -/
theorem steps_amortized_lostRace : ∃ st : State, st.head 0 = .list (some ⟨1, 0⟩) ∧
    st.pushed 0 = [⟨1, 0⟩, ⟨2, 0⟩] ∧ lostRace.reverse.length ≤
      (lostRace.reverse.map fun move => 2 * fee ⟨64, 1⟩ move.2).sum := by
  obtain ⟨st, run, ended⟩ := trace_of_check ⟨64, 1⟩ 2
    (fun st => decide (st.head 0 = .list (some ⟨1, 0⟩) ∧ st.pushed 0 = [⟨1, 0⟩, ⟨2, 0⟩]))
    lostRace (by decide)
  obtain ⟨first, both⟩ := of_decide_eq_true ended
  exact ⟨st, first, both, steps_amortized ⟨64, 1⟩ 2 run⟩

end Seize.Raw
