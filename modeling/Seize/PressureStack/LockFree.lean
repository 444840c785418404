import Seize.PressureStack.Linear
import Seize.Raw.Amortize

/-!
The stack and its collector are lock-free.

A turn of a loop of `push` or `pop` fails only after another thread has changed the head. The thread
that changed it has paid for one more turn of every other one.
-/

namespace Seize.PressureStack

open Seize.Raw (Config Tid Ptr Alloc)

variable {V : Type} {cfg : Config} {n : Nat} {st st' : State V}
  {a : Atomic (List V) (Op V) (Reply V)} {t u : Tid} {c : Alloc} {call : Call V}

/-- The head that a call has loaded and not yet compared. -/
def Call.seen : Call V → Option (Option Ptr)
  | .pushSwap _ head => some head
  | .popNext head => some (some head)
  | .popReserve head _ => some (some head)
  | .popSwap head _ _ => some (some head)
  | _ => none

/-- One if the call of a thread has loaded a head that is not there any more. -/
def stale (st : State V) (call : Call V) : Nat :=
  match call.seen with
  | some head => if st.head = head then 0 else 1
  | none => 0

/-- What one more turn of a loop costs, with the fees of its calls to the collector. -/
def turn (n : Nat) : Nat := 2 * n + 2

/-- What a retirement costs. -/
def retirement (cfg : Config) (n : Nat) : Nat := n * (5 * cfg.slots + 7)

/-- What the steps of a call are going to cost if it loses no race. -/
def due (cfg : Config) (n : Nat) : Call V → Nat
  | .pushLoad _ => 2 * n + n * turn n + 1
  | .pushSwap _ _ => n + n * turn n + 1
  | .popLoad => 3 * n + n * turn n + retirement cfg n + 4
  | .popNext _ => 2 * n + n * turn n + retirement cfg n + 4
  | .popReserve _ _ => 2 * n + n * turn n + retirement cfg n + 3
  | .popSwap _ _ _ => n + n * turn n + retirement cfg n + 3
  | .popRead _ _ => retirement cfg n + 3
  | .popRetire _ _ _ => retirement cfg n + 2
  | .popStash _ _ => 2
  | .returning _ => 1

/-- What a call is going to cost, with one more turn if it has lost a race. -/
def owed (cfg : Config) (n : Nat) (st : State V) : Option (Call V) → Nat
  | some call => due cfg n call + turn n * stale st call
  | none => 0

/-- What the calls of the first threads are going to cost. -/
def owedAll (cfg : Config) (n : Nat) (st : State V) : Nat :=
  ∑ t ∈ Finset.range n, owed cfg n st (st.calls t)

/-- What a thread is charged for, when it calls, and when an exchange of the collector fails. -/
def charge (cfg : Config) (n : Nat) : Action V → Nat
  | .attach => n
  | .enter => n
  | .leave => 2 * n
  | .push _ _ => 2 * n + n * turn n + 2
  | .pop => 3 * n + n * turn n + retirement cfg n + 5
  | .freeStashed => 1
  | .inner spurious => if spurious then n else 0
  | _ => 0

/-- Races are about the head only. -/
theorem owed_head (head : st'.head = st.head) (next : Option (Call V)) :
    owed cfg n st' next = owed cfg n st next := by
  cases next with
  | none => rfl
  | some call => simp only [owed, stale, head]

/-- A change of the head costs a call one turn at most. -/
theorem owed_le (st st' : State V) (next : Option (Call V)) :
    owed cfg n st' next ≤ owed cfg n st next + turn n := by
  -- A call that has lost its race already cannot lose it again.
  cases next with
  | none => exact Nat.zero_le _
  | some call =>
    have once : stale st' call ≤ 1 := by
      unfold stale
      split
      · split <;> omega
      · omega
    have turns := Nat.mul_le_mul_left (turn n) once
    rw [Nat.mul_one] at turns
    simp only [owed]
    omega

/-- A step that leaves the head changes what its own thread owes. -/
theorem owedAll_same (cfg : Config) {next : Option (Call V)} (small : t < n)
    (calls : st'.calls = Function.update st.calls t next) (head : st'.head = st.head) :
    owedAll cfg n st' + owed cfg n st (st.calls t) = owedAll cfg n st + owed cfg n st next := by
  -- The thread's own summand is split off, and the others stay as they are.
  have others : ∑ u ∈ (Finset.range n).erase t, owed cfg n st' (st'.calls u) =
      ∑ u ∈ (Finset.range n).erase t, owed cfg n st (st.calls u) := by
    refine Finset.sum_congr rfl fun u inside => ?_
    rw [owed_head head, calls, Function.update_of_ne (Finset.ne_of_mem_erase inside)]
  have mine : owed cfg n st' (st'.calls t) = owed cfg n st next := by
    rw [owed_head head, calls, Function.update_self]
  rw [owedAll, owedAll, Raw.sum_thread _ small,
    Raw.sum_thread (fun u => owed cfg n st (st.calls u)) small, others, mine]
  omega

/-- A step that changes the head costs every other thread one turn at most. -/
theorem owedAll_swap (cfg : Config) {next : Option (Call V)} (small : t < n)
    (calls : st'.calls = Function.update st.calls t next) :
    owedAll cfg n st' + owed cfg n st (st.calls t) ≤
      owedAll cfg n st + owed cfg n st' next + n * turn n := by
  -- Here any of the others may have loaded the old head.
  have others : ∑ u ∈ (Finset.range n).erase t, owed cfg n st' (st'.calls u) ≤
      ∑ u ∈ (Finset.range n).erase t, owed cfg n st (st.calls u) + n * turn n := by
    have each : ∑ u ∈ (Finset.range n).erase t, owed cfg n st' (st'.calls u) ≤
        ∑ u ∈ (Finset.range n).erase t, (owed cfg n st (st.calls u) + turn n) := by
      refine Finset.sum_le_sum fun u inside => ?_
      rw [calls, Function.update_of_ne (Finset.ne_of_mem_erase inside)]
      exact owed_le st st' _
    have same : ∑ _u ∈ (Finset.range n).erase t, turn n =
        ((Finset.range n).erase t).card * turn n :=
      Finset.sum_const_nat fun _ _ => rfl
    have count : ((Finset.range n).erase t).card ≤ n :=
      (Finset.card_erase_le).trans (Nat.le_of_eq (Finset.card_range n))
    have turns := Nat.mul_le_mul_right (turn n) count
    rw [Finset.sum_add_distrib, same] at each
    omega
  have mine : owed cfg n st' (st'.calls t) = owed cfg n st' next := by
    rw [calls, Function.update_self]
  rw [owedAll, owedAll, Raw.sum_thread _ small,
    Raw.sum_thread (fun u => owed cfg n st (st.calls u)) small, mine]
  omega

/-- A step of the collector leaves the calls alone. -/
theorem collect_ok {action : Raw.Action} (ran : collect cfg st t action = .ok st') :
    Raw.step cfg st.raw (t, action) = .ok st'.raw ∧ st'.calls = st.calls := by
  unfold collect at ran
  split at ran
  · cases ran
  · cases ran
  · rename_i raw stepped
    split at ran
    · cases ran
      exact ⟨stepped, rfl⟩
    · split at ran
      · cases ran
      · cases ran
        exact ⟨stepped, rfl⟩

/-- It leaves the head alone as well, unless it is an access. -/
theorem collect_head {action : Raw.Action} (ran : collect cfg st t action = .ok st')
    (other : ∀ s x op, action ≠ .access s x op) : st'.head = st.head := by
  obtain ⟨after, moved, same⟩ := Raw.step_move (collect_ok ran).1
  -- The head is a cell, and cells change in accesses only.
  rw [State.head, same]
  exact congrFun (moved.cells other) 0

/-- A step is paid by its thread, together with the step of the collector that it makes. -/
inductive Paid (cfg : Config) (n : Nat) (t : Tid) (st st' : State V) (charge : Nat) : Prop where
  | alone (raw : st'.raw = st.raw) (paid : owedAll cfg n st' + 1 ≤ owedAll cfg n st + charge)
  | collected (action : Raw.Action) (ran : Raw.step cfg st.raw (t, action) = .ok st'.raw)
      (orderly : Raw.Orderly cfg st.raw (t, action))
      (forward : ∀ target, action = .skip target → Raw.before target (st.raw.stack t) = true)
      (paid : owedAll cfg n st' + n * Raw.fee cfg action ≤ owedAll cfg n st + charge)

/-- An access of the head is always in order. -/
theorem orderly_access (op : Raw.CellOp) : Raw.Orderly cfg st.raw (t, .access t 0 op) :=
  ⟨trivial, by simp, by simp⟩

/-- Its fee is its own step. -/
theorem fee_access (op : Raw.CellOp) : Raw.fee cfg (.access t 0 op) = 1 := rfl

namespace Paid

variable {next : Option (Call V)} {price : Nat} {action : Raw.Action}

/-- A step without the collector. -/
theorem own (small : t < n) (raw : st'.raw = st.raw)
    (calls : st'.calls = Function.update st.calls t next)
    (less : owed cfg n st next + 1 ≤ owed cfg n st (st.calls t) + price) :
    Paid cfg n t st st' price := by
  have head : st'.head = st.head := by rw [State.head, State.head, raw]
  have total := owedAll_same cfg small calls head
  refine .alone raw ?_
  omega

/-- A step of the collector that leaves the head alone. -/
theorem step (small : t < n) (ran : Raw.step cfg st.raw (t, action) = .ok st'.raw)
    (orderly : Raw.Orderly cfg st.raw (t, action))
    (forward : ∀ target, action = .skip target → Raw.before target (st.raw.stack t) = true)
    (calls : st'.calls = Function.update st.calls t next) (head : st'.head = st.head)
    (less : owed cfg n st next + n * Raw.fee cfg action ≤ owed cfg n st (st.calls t) + price) :
    Paid cfg n t st st' price := by
  have total := owedAll_same cfg small calls head
  refine .collected action ran orderly forward ?_
  omega

/-- A compare-exchange that succeeds, which pays for the races it makes others lose. -/
theorem swap {old : Call V} {op : Raw.CellOp} (small : t < n)
    (ran : Raw.step cfg st.raw (t, .access t 0 op) = .ok st'.raw)
    (calling : st.calls t = some old) (calls : st'.calls = Function.update st.calls t (some call))
    (unseen : call.seen = none)
    (less : due cfg n call + n * turn n + n ≤ due cfg n old) : Paid cfg n t st st' price := by
  have total := owedAll_swap cfg small calls
  -- The calls it goes back on may have been stale already, which only makes it cheaper.
  have was : due cfg n old ≤ owed cfg n st (st.calls t) := by
    rw [calling]
    exact Nat.le_add_right _ _
  have now : owed cfg n st' (some call) = due cfg n call := by simp [owed, stale, unseen]
  refine .collected _ ran (orderly_access op) (by simp) ?_
  rw [fee_access]
  omega

/-- Guards owe nothing. -/
theorem guards {guarded : Tid → Bool} (paid : Paid cfg n t st st' price) :
    Paid cfg n t st { st' with guarded := guarded } price := by
  cases paid with
  | alone raw paid => exact .alone raw paid
  | collected action ran orderly forward paid => exact .collected action ran orderly forward paid

end Paid

/-- A call that has just loaded the head has lost no race. -/
theorem owed_seen (unraced : stale st call = 0) : owed cfg n st (some call) = due cfg n call := by
  simp only [owed, unraced, Nat.mul_zero, Nat.add_zero]

/-- A turn that fails has lost a race, which pays for the next one. -/
theorem owed_lost {old : Call V} {head : Option Ptr} (calling : st.calls t = some old)
    (seen : old.seen = some head) (lost : st.headIs head ≠ true) (unseen : call.seen = none)
    (less : due cfg n call + 1 ≤ due cfg n old + turn n) :
    owed cfg n st (some call) + 1 ≤ owed cfg n st (st.calls t) := by
  have changed : st.head ≠ head := by
    rintro rfl
    simp [State.headIs] at lost
  have was : stale st old = 1 := by simp only [stale, seen, if_neg changed]
  have now : stale st call = 0 := by simp only [stale, unseen]
  rw [calling, owed_seen now, owed, was]
  omega

/-- A step of `push` or `pop` is paid by what its call was charged for. -/
theorem advance_paid (valid : Valid cfg st a) (few : t < n) (small : t < cfg.slots)
    (outside : st.raw.stack t = []) (calling : st.calls t = some call)
    (ran : advance cfg st t c call = .ok st') : Paid cfg n t st st' 0 := by
  have reserveFee : Raw.fee cfg (.reserve t c) = 1 := rfl
  have addFee : ∀ p, Raw.fee cfg (.add t p boxed c) = 5 * cfg.slots + 7 := by
    intro p
    simp only [Raw.fee, Raw.price, Raw.leastWork]
    omega
  have unseen : ∀ {call : Call V}, call.seen = none → stale st call = 0 := by
    intro call none_
    simp only [stale, none_]
  cases call with
  | pushLoad new =>
    obtain ⟨ran', _⟩ := valid.access .load outside (by simp [Raw.CellOp.writes])
    have head : (accessed st t .load).cells 0 = st.head := accessed_cells _
    simp only [advance, pushLoad, ran'] at ran
    split at ran
    · cases ran
    · cases ran
      -- The head it has loaded is the one that is there.
      refine .step few (collect_ok ran').1 (orderly_access _) (by simp) rfl head ?_
      have fresh : stale st (.pushSwap new st.head) = 0 := by simp [stale, Call.seen]
      rw [calling, owed_seen fresh, owed_seen (unseen rfl), fee_access]
      simp only [due]
      omega
  | pushSwap new head =>
    simp only [advance, pushSwap] at ran
    split at ran
    · split at ran
      · cases ran
      · rename_i st₁ ran'
        cases ran
        -- It wins, and pays one turn for everybody it has beaten.
        obtain ⟨stepped, calls⟩ := collect_ok ran'
        have after : ((st₁.moveTo new .linked).goOn t (.returning .pushed)).calls =
            Function.update st.calls t (some (.returning .pushed)) := by
          simp only [State.goOn, State.moveTo, calls]
        refine .swap few stepped calling after rfl ?_
        simp only [due]
        omega
    -- It loses, and the turn it has to make again was paid by the winner.
    · rename_i lost
      cases ran
      refine .own few rfl rfl (owed_lost calling rfl lost rfl ?_)
      simp only [due, turn]
      omega
  | popLoad =>
    obtain ⟨ran', _⟩ := valid.access .load outside (by simp [Raw.CellOp.writes])
    have head : (accessed st t .load).cells 0 = st.head := accessed_cells _
    simp only [advance, popLoad, ran'] at ran
    split at ran
    -- The stack is empty, and the call is about to return.
    · cases ran
      refine .step few (collect_ok ran').1 (orderly_access _) (by simp) rfl head ?_
      rw [calling, owed_seen (unseen rfl), owed_seen (unseen rfl), fee_access]
      simp only [due]
      omega
    · rename_i top loaded
      cases ran
      refine .step few (collect_ok ran').1 (orderly_access _) (by simp) rfl head ?_
      have fresh : stale st (.popNext top) = 0 := by simp [stale, Call.seen, loaded]
      rw [calling, owed_seen fresh, owed_seen (unseen rfl), fee_access]
      simp only [due]
      omega
  | popNext head =>
    simp only [advance, popNext] at ran
    split at ran
    · cases ran
    -- From here on the call may be stale, and stays as stale as it is.
    · cases ran
      refine .own few rfl rfl ?_
      rw [calling]
      simp only [owed, due, stale, Call.seen]
      omega
  | popReserve head next =>
    simp only [advance, popReserve] at ran
    split at ran
    · cases ran
    · rename_i st₁ ran'
      cases ran
      obtain ⟨stepped, calls⟩ := collect_ok ran'
      have orderly : Raw.Orderly cfg st.raw (t, .reserve t c) :=
        ⟨⟨small, valid.unique t⟩, by simp, by simp⟩
      have same : st₁.head = st.head := collect_head ran' (by simp)
      have after : (st₁.goOn t (.popSwap head next (reserves cfg st t c))).calls =
          Function.update st.calls t (some (.popSwap head next (reserves cfg st t c))) := by
        simp only [State.goOn, calls]
      refine .step few stepped orderly (by simp) after same ?_
      rw [calling, reserveFee]
      simp only [owed, due, stale, Call.seen]
      omega
  | popSwap head next reserved =>
    simp only [advance, popSwap] at ran
    split at ran
    · split at ran
      · cases ran
      · rename_i st₁ ran'
        cases ran
        obtain ⟨stepped, calls⟩ := collect_ok ran'
        have after : ((st₁.moveTo head (.unlinked t)).goOn t (.popRead head reserved)).calls =
            Function.update st.calls t (some (.popRead head reserved)) := by
          simp only [State.goOn, State.moveTo, calls]
        refine .swap few stepped calling after rfl ?_
        simp only [due]
        omega
    · rename_i lost
      cases ran
      refine .own few rfl rfl (owed_lost calling rfl lost rfl ?_)
      simp only [due, turn]
      omega
  | popRead head reserved =>
    simp only [advance, popRead] at ran
    split at ran
    · cases ran
    · cases ran
      refine .own few rfl rfl ?_
      rw [calling]
      simp only [owed, due, stale, Call.seen]
      omega
  | popRetire head data reserved =>
    -- The retirement carries the work that it makes for everybody else.
    have orderly : Raw.Orderly cfg st.raw (t, .add t head boxed c) :=
      ⟨⟨small, valid.unique t⟩, by simp, by simp⟩
    simp only [advance, popRetire] at ran
    split at ran
    · cases ran
    · rename_i st₁ ran'
      obtain ⟨stepped, calls⟩ := collect_ok ran'
      have same : st₁.head = st.head := collect_head ran' (by simp)
      split at ran
      · split at ran
        · cases ran
        · cases ran
          have after : (st₁.goOn t (.popStash head data)).calls =
              Function.update st.calls t (some (.popStash head data)) := by
            simp only [State.goOn, calls]
          refine .step few stepped orderly (by simp) after same ?_
          rw [calling, owed_seen (unseen rfl), owed_seen (unseen rfl), addFee]
          simp only [due, retirement]
          omega
      · cases ran
        have after : ((st₁.moveTo head .retired).goOn t (.returning (.popped (some data)))).calls =
            Function.update st.calls t (some (.returning (.popped (some data)))) := by
          simp only [State.goOn, State.moveTo, calls]
        refine .step few stepped orderly (by simp) after same ?_
        rw [calling, owed_seen (unseen rfl), owed_seen (unseen rfl), addFee]
        simp only [due, retirement]
        omega
  | popStash head data =>
    cases ran
    refine .own few rfl rfl ?_
    rw [calling, owed_seen (unseen rfl), owed_seen (unseen rfl)]
    simp only [due]
    omega
  | returning reply =>
    cases ran
    refine .own few rfl rfl ?_
    rw [calling, owed_seen (unseen rfl)]
    simp only [due, owed]
    omega

/-- What is asked of a run. -/
structure Brisk (cfg : Config) (n : Nat) (st : State V) (move : Tid × Action V) : Prop where
  permitted : Permitted cfg st move
  /-- Only the first threads make steps. -/
  few : move.1 < n
  /-- A skip passes at least one slot. -/
  forward : ∀ target, move.2 = .skip target → Raw.before target (st.raw.stack move.1) = true

/-- A step inside the collector, or one that begins or ends a period. -/
theorem collect_paid {action : Raw.Action} {price : Nat} (few : t < n)
    (ran : collect cfg st t action = .ok st') (orderly : Raw.Orderly cfg st.raw (t, action))
    (forward : ∀ target, action = .skip target → Raw.before target (st.raw.stack t) = true)
    (other : ∀ s x op, action ≠ .access s x op) (fee : n * Raw.fee cfg action ≤ price) :
    Paid cfg n t st st' price := by
  obtain ⟨stepped, calls⟩ := collect_ok ran
  have same : st'.calls = Function.update st.calls t (st.calls t) := by
    rw [calls, Function.update_eq_self]
  refine .step few stepped orderly forward same (collect_head ran other) ?_
  omega

/-- Every step is paid by what its thread is charged for, or was. -/
theorem step_paid {action : Action V} (valid : Valid cfg st a) (brisk : Brisk cfg n st (t, action))
    (ran : step cfg st (t, action) = .ok st') : Paid cfg n t st st' (charge cfg n action) := by
  have few : t < n := brisk.few
  have small : t < cfg.slots := brisk.permitted.1
  -- Every action but the first three is taken outside of the collector.
  have outside : ∀ {result : Result V}, (if st.raw.stack t = [] then result else .error .disabled) =
      .ok st' → st.raw.stack t = [] ∧ result = .ok st' := by
    intro result ok
    split at ok
    · exact ⟨by assumption, ok⟩
    · cases ok
  cases action with
  | inner spurious =>
    refine collect_paid few ran ⟨trivial, by simp, by simp⟩ (by simp) (by simp) ?_
    simp only [Raw.fee, Raw.price, charge]
    split <;> omega
  | skip target =>
    refine collect_paid few ran ⟨trivial, by simp, by simp⟩ ?_ (by simp) (Nat.le_refl _)
    intro target' same
    cases same
    exact brisk.forward target rfl
  | ret =>
    exact collect_paid few ran ⟨trivial, by simp, by simp⟩ (by simp) (by simp) (Nat.le_refl _)
  | attach =>
    obtain ⟨_, ran⟩ := outside ran
    simp only [act] at ran
    split at ran
    · cases ran
    · exact collect_paid few ran ⟨small, by simp, by simp⟩ (by simp) (by simp)
        (Nat.le_of_eq (Nat.mul_one n))
  | enter =>
    obtain ⟨_, ran⟩ := outside ran
    simp only [act] at ran
    split at ran
    · rename_i ready
      split at ran
      · cases ran
      · rename_i st₁ ran'
        cases ran
        exact .guards (collect_paid few ran' ⟨ready.2, by simp, by simp⟩ (by simp) (by simp)
          (Nat.le_of_eq (Nat.mul_one n)))
    · cases ran
  | leave =>
    obtain ⟨_, ran⟩ := outside ran
    simp only [act] at ran
    split at ran
    · rename_i ready
      have present := valid.collector.1.grace.periods.present t ((valid.guards t).mp ready.1)
      split at ran
      · cases ran
      · rename_i st₁ ran'
        cases ran
        exact .guards (collect_paid few ran' ⟨present, by simp, by simp⟩ (by simp) (by simp)
          (Nat.le_of_eq (Nat.mul_comm n 2)))
    · cases ran
  | push value address =>
    obtain ⟨_, ran⟩ := outside ran
    simp only [act, push] at ran
    split at ran
    · rename_i ready
      split at ran
      · have calls : (st.goOn t (.pushLoad st.next)).calls =
            Function.update st.calls t (some (.pushLoad st.next)) := rfl
        cases ran
        refine .own few rfl calls ?_
        rw [ready.2]
        simp only [owed, due, stale, Call.seen, charge]
        omega
      · cases ran
    · cases ran
  | pop =>
    obtain ⟨_, ran⟩ := outside ran
    simp only [act, pop] at ran
    split at ran
    · rename_i ready
      have calls : (st.goOn t .popLoad).calls = Function.update st.calls t (some .popLoad) := rfl
      cases ran
      refine .own few rfl calls ?_
      rw [ready.2]
      simp only [owed, due, stale, Call.seen, charge]
      omega
    · cases ran
  | advance c =>
    obtain ⟨outside, ran⟩ := outside ran
    simp only [act] at ran
    split at ran
    · cases ran
    · rename_i call calling
      exact advance_paid valid few small outside calling ran
  | freeStashed =>
    obtain ⟨_, ran⟩ := outside ran
    simp only [act, freeStashed] at ran
    split at ran
    · cases ran
    · cases ran
      exact .own few rfl (Function.update_eq_self t st.calls).symm (Nat.le_refl _)

/-- In such a run the invariant holds, and the collector makes a paced run of its own. -/
theorem reachable_brisk (run : Reachable (step cfg) (Brisk cfg n) (State.init V) st) :
    (∃ a, Valid cfg st a) ∧ Reachable (Raw.step cfg) (Raw.Paced cfg n) .init st.raw := by
  have valids : ∀ {st : State V}, Reachable (step cfg) (Brisk cfg n) (State.init V) st →
      ∃ a, Valid cfg st a := by
    intro st run
    obtain ⟨a, _, valid⟩ := reachable_valid (run.mono fun _ _ _ brisk => brisk.permitted)
    exact ⟨a, valid⟩
  refine ⟨valids run, ?_⟩
  -- Every step of the stack is at most one step of its collector.
  induction run with
  | refl => exact .refl
  | @tail st st' move before brisk ran ih =>
    obtain ⟨a, valid⟩ := valids before
    cases step_paid valid brisk ran with
    | alone raw =>
      rw [raw]
      exact ih
    | collected action stepped orderly forward =>
      exact ih.tail ⟨orderly, brisk.few, forward⟩ stepped

/-- In the beginning nothing is owed. -/
theorem owedAll_init : owedAll cfg n (State.init V) = 0 := by
  simp [owedAll, owed, State.init]

/--
All steps of a run are paid for by its calls.

Whatever its threads race each other for, a run of `n` threads with finitely many calls of `push`,
`pop`, `enter` and `leave` ends: the stack and its collector are lock-free.
-/
theorem stack_lock_free (cfg : Config) (n : Nat) {path : List (Tid × Action V)} {st : State V}
    (run : Trace (step cfg) (Brisk cfg n) (State.init V) path st) :
    path.length ≤ (path.map fun move => charge cfg n move.2).sum := by
  have bound := run.length_le_of_amortized
    (fun st => Raw.purse cfg n st.raw + owedAll cfg n st)
    (fun st => n * Raw.spent Raw.leastWork st.raw) (fun move => charge cfg n move.2)
    (fun st run => (Raw.solvent_all (reachable_brisk run).2).trans (Nat.le_add_right _ _))
    fun st move st' run brisk ran => ?_
  · have start : Raw.purse cfg n (State.init V).raw = 0 := Raw.purse_init
    rw [start, owedAll_init] at bound
    omega
  -- The fee of a step of the collector buys the steps it makes necessary there.
  · obtain ⟨⟨a, valid⟩, raw⟩ := reachable_brisk run
    cases step_paid valid brisk ran with
    | alone same paid =>
      rw [same]
      omega
    | collected action stepped orderly forward paid =>
      have fees := Raw.Paced.paid raw ⟨orderly, brisk.few, forward⟩ stepped
      simp only at fees ⊢
      omega

/-- What is asked of a run, decided for actions other than `free_stashed`. -/
def briskCheck (cfg : Config) (n : Nat) (st : State V) (move : Tid × Action V) : Bool :=
  permittedCheck cfg move && decide (move.1 < n) &&
    match move.2 with
    | .skip target => Raw.before target (st.raw.stack move.1)
    | _ => true

/-- A step that passes the check may be taken. -/
theorem brisk_of_check {move : Tid × Action V} (approved : briskCheck cfg n st move = true) :
    Brisk cfg n st move := by
  simp only [briskCheck, Bool.and_eq_true, decide_eq_true_eq] at approved
  obtain ⟨⟨permitted, few⟩, forward⟩ := approved
  refine ⟨permitted_of_check permitted, few, fun target is => ?_⟩
  rw [is] at forward
  exact forward

/-- A computed run that passes the check is one. -/
theorem stack_trace_of_check (cfg : Config) (n : Nat) (final : State V → Bool)
    (moves : List (Tid × Action V))
    (checked : checkRun (step cfg) (briskCheck cfg n) final (State.init V) moves = true) :
    ∃ st, Trace (step cfg) (Brisk cfg n) (State.init V) moves.reverse st ∧ final st = true := by
  obtain ⟨st, run, ended⟩ := Trace.of_checkRun (fun _ => True)
    (fun _ _ _ approved => brisk_of_check approved) (fun _ _ _ _ _ _ => trivial) .refl trivial
    checked
  rw [List.append_nil] at run
  exact ⟨st, run, ended⟩

/-- The thread that loses the race loads the head again, and all of it has been paid for. -/
theorem stack_lock_free_race : ∃ st : State Nat, st.history = raceHistory ∧
    race.reverse.length ≤ (race.reverse.map fun move => charge ⟨64, 1⟩ 2 move.2).sum := by
  obtain ⟨st, run, ended⟩ := stack_trace_of_check ⟨64, 1⟩ 2
    (fun st => decide (st.history = raceHistory)) race (by decide)
  exact ⟨st, of_decide_eq_true ended, stack_lock_free ⟨64, 1⟩ 2 run⟩

end Seize.PressureStack
