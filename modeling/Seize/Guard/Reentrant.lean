import Seize.Guard.Moves

/-!
Reentrant local guards.

The counter of a slot is the number of its local guards, so the raw calls they make enter a slot
with the first guard and leave it with the last one.
-/

namespace Seize.Guards

open Seize.Raw (Config SlotId Tid Ptr Reclaim Alloc Cell CellOp Stop)

variable {cfg : Config} {st st' : State} {t : Tid} {s : SlotId} {action : Action}
  {calls : List Raw.Action} {next : State}

/-- A guard is a local one. -/
def Guard.isLocal (g : Guard) : Bool :=
  match g.kind with
  | .localTo _ => true
  | .owned => false

/-- A guard is a local one of a slot. -/
def Guard.isLocalOn (s : SlotId) (g : Guard) : Bool := g.isLocal && g.slot = s

/-- The number of local guards of a slot in a list. -/
def localsOn (s : SlotId) (gs : List Guard) : Nat := gs.countP (·.isLocalOn s)

/-- A local guard of a slot counts. -/
theorem localsOn_cons (g : Guard) (gs : List Guard) :
    localsOn s (g :: gs) = localsOn s gs + if g.isLocalOn s then 1 else 0 := by
  simp [localsOn, List.countP_cons]

/-- A guard that is removed counted before. -/
theorem localsOn_erase {g : Guard} {gs : List Guard} (member : g ∈ gs) :
    localsOn s gs = localsOn s (gs.erase g) + if g.isLocalOn s then 1 else 0 := by
  rw [← localsOn_cons]
  exact (List.perm_cons_erase member).countP_eq _

/-- A local guard is one of its own slot only. -/
theorem Guard.isLocalOn_of_kind {g : Guard} (kind : g.kind = .localTo t) :
    g.isLocalOn s = decide (g.slot = s) := by
  simp [isLocalOn, isLocal, kind]

/-- An owned guard is no local one. -/
theorem Guard.not_isLocalOn {g : Guard} (kind : g.kind = .owned) : g.isLocalOn s = false := by
  simp [isLocalOn, isLocal, kind]

/-- The counter of every slot is the number of its local guards, the leaked ones included. -/
def Counted (st : State) : Prop := ∀ s, st.guards s = localsOn s st.live + localsOn s st.leaked

/-- The step lemma, for what an action plans. -/
theorem Planned.counted (planned : Planned cfg st t action calls next) (counted : Counted st) :
    Counted next := by
  intro v
  have before := counted v
  cases planned with
  | nothing | current | refusedLocal | refusedOwned | refreshLocal | refreshOwned | finish | exit
  | batchLocal | batchOwned | access | thread | reclaimAll | inner => exact before
  | @enterLocal alloc s mine =>
    -- One more guard, and the counter of its slot goes up.
    have fresh : (⟨st.nextName, .localTo t, s⟩ : Guard).isLocalOn v = decide (s = v) :=
      Guard.isLocalOn_of_kind rfl
    simp only [localsOn_cons, fresh, decide_eq_true_eq]
    by_cases here : s = v
    · subst here
      rw [Function.update_self, if_pos rfl]
      omega
    · rw [Function.update_of_ne (Ne.symm here), if_neg here]
      omega
  | enterOwned =>
    simp only [localsOn_cons, Guard.not_isLocalOn]
    exact before
  | @dropLocal g member kind positive =>
    have erased := localsOn_erase member (s := v)
    rw [Guard.isLocalOn_of_kind kind] at erased
    simp only [decide_eq_true_eq] at erased
    by_cases here : g.slot = v
    · subst here
      rw [if_pos rfl] at erased
      simp only [Function.update_self]
      omega
    · rw [if_neg here] at erased
      simp only [Function.update_of_ne (Ne.symm here)]
      omega
  | @dropOwned g member kind =>
    have erased := localsOn_erase member (s := v)
    rw [Guard.not_isLocalOn kind] at erased
    simp only [Bool.false_eq_true, if_false] at erased
    simp only
    omega
  | @forget g member =>
    -- A leaked guard is counted elsewhere.
    have erased := localsOn_erase member (s := v)
    simp only [localsOn_cons]
    omega

/-- What settles after a step does not concern the counters. -/
theorem Counted.step {move : Tid × Action} (counted : Counted st)
    (ran : step cfg st move = .ok st') : Counted st' := by
  obtain ⟨calls, next, raw, _, _, planned, _, rfl⟩ := step_planned ran
  exact planned.counted counted

/-- The run lemma, for every run of the guard layer. -/
theorem reachable_counted {allowed : State → Tid × Action → Prop}
    (run : Reachable (step cfg) allowed State.init st) : Counted st := by
  refine run.invariant Counted (fun _ => rfl) ?_
  intro st move st' _ counted _ ran
  exact counted.step ran

/-- A call of the raw collector that concerns the reservation of a slot. -/
def onReservation (s : SlotId) : Raw.Action → Bool
  | .enter v => v = s
  | .leave v => v = s
  | .refresh v => v = s
  | _ => false

/-- An action of a local guard. -/
def Action.isLocal : Action → Bool
  | .enterLocal _ => true
  | .refresh g => g.isLocal
  | .drop g => g.isLocal
  | _ => false

/-- The calls of the raw collector that local guards make on the reservation of a slot in a step. -/
def localCalls (cfg : Config) (s : SlotId) (st : State) (move : Tid × Action) : List Raw.Action :=
  if move.2.isLocal then
    match plan cfg st move.1 move.2 with
    | .ok (calls, _) => calls.filter (onReservation s)
    | .error _ => []
  else []

/-- What a step does to the counter of a slot, and the raw call it makes for it. -/
inductive Counts (before after : Nat) (s : SlotId) : List Raw.Action → Prop where
  | enters (none : before = 0) (one : after = 1) : Counts before after s [.enter s]
  | leaves (one : before = 1) (none : after = 0) : Counts before after s [.leave s]
  | refreshes (one : before = 1) (same : after = 1) : Counts before after s [.refresh s]
  /-- No call is made, and the counter neither leaves nor reaches zero. -/
  | silent (same : before = 0 ↔ after = 0) : Counts before after s []

/-- The step lemma: local guards call the raw collector when the counter leaves or reaches zero. -/
theorem step_counts {move : Tid × Action} (ran : step cfg st move = .ok st') :
    Counts (st.guards s) (st'.guards s) s (localCalls cfg s st move) := by
  obtain ⟨calls, next, raw, _, plan, planned, _, rfl⟩ := step_planned ran
  have made : localCalls cfg s st move =
      if move.2.isLocal then calls.filter (onReservation s) else [] := by
    simp only [localCalls, plan]
  rw [made]
  obtain ⟨t, action⟩ := move
  simp only at planned ⊢
  -- An action that is not one of a local guard leaves the counters alone.
  have other : next.guards = st.guards → action.isLocal = false →
      Counts (st.guards s) (next.guards s) s
        (if action.isLocal then calls.filter (onReservation s) else []) := by
    intro same not
    rw [same, not]
    exact .silent .rfl
  cases planned with
  | nothing is =>
    rcases is with rfl | ⟨reserved, rfl⟩
    · exact other rfl rfl
    · exact other rfl rfl
  | refusedLocal => exact .silent .rfl
  | @enterLocal alloc v mine =>
    simp only [settle, Action.isLocal, if_true]
    by_cases here : v = s
    · subst here
      rw [Function.update_self]
      by_cases first : st.guards v = 0
      · rw [if_pos first]
        simp only [onReservation, List.filter_cons, decide_true, if_true, List.filter_nil,
          Bool.false_eq_true, if_false]
        exact .enters first (by omega)
      · rw [if_neg first]
        simp only [onReservation, List.filter_cons, List.filter_nil, Bool.false_eq_true, if_false]
        exact .silent (by omega)
    · rw [Function.update_of_ne (Ne.symm here)]
      have none : (Raw.Action.create v :: if st.guards v = 0 then [.enter v] else []).filter
          (onReservation s) = [] := by
        split
        · simp [onReservation, here]
        · simp [onReservation]
      rw [none]
      exact .silent .rfl
  | @refreshLocal g member kind =>
    have isLocal : (Action.refresh g).isLocal = true := by simp [Action.isLocal, Guard.isLocal, kind]
    rw [isLocal]
    simp only [settle, if_true]
    by_cases one : st.guards g.slot = 1
    · rw [if_pos one]
      by_cases here : g.slot = s
      · rw [here] at one ⊢
        simp only [onReservation, List.filter_cons, decide_true, if_true, List.filter_nil]
        exact .refreshes one one
      · simp only [onReservation, List.filter_cons, here, decide_false, List.filter_nil,
          Bool.false_eq_true, if_false]
        exact .silent .rfl
    · rw [if_neg one]
      exact .silent .rfl
  | @dropLocal g member kind positive =>
    have isLocal : (Action.drop g).isLocal = true := by simp [Action.isLocal, Guard.isLocal, kind]
    rw [isLocal]
    simp only [settle, if_true]
    by_cases here : g.slot = s
    · rw [here] at positive ⊢
      rw [Function.update_self]
      by_cases one : st.guards s = 1
      · rw [if_pos one]
        simp only [onReservation, List.filter_cons, decide_true, if_true, List.filter_nil]
        exact .leaves one (by omega)
      · rw [if_neg one]
        exact .silent (by omega)
    · rw [Function.update_of_ne (Ne.symm here)]
      have none : (if st.guards g.slot = 1 then [Raw.Action.leave g.slot] else []).filter
          (onReservation s) = [] := by
        split
        · simp [onReservation, here]
        · rfl
      rw [none]
      exact .silent .rfl
  | refreshOwned member kind => exact other rfl (by simp [Action.isLocal, Guard.isLocal, kind])
  | dropOwned member kind => exact other rfl (by simp [Action.isLocal, Guard.isLocal, kind])
  | batchLocal is | batchOwned is =>
    refine other rfl ?_
    cases action <;> first | rfl | cases is
  | thread is =>
    refine other rfl ?_
    cases action <;> first | rfl | cases is
  | inner is =>
    refine other rfl ?_
    cases action <;> first | rfl | cases is
  | current | refusedOwned | enterOwned | finish | forget | exit | access | reclaimAll =>
    exact other rfl rfl

/-- A run in which no local guard of a slot is leaked, with the calls its local guards have made. -/
inductive Unleaked (cfg : Config) (s : SlotId) : List Raw.Action → State → Prop where
  | begins : Unleaked cfg s [] State.init
  | goes {st st' : State} {move : Tid × Action} {word : List Raw.Action}
      (before : Unleaked cfg s word st)
      (kept : ∀ g, move.2 = .forget g → g.isLocalOn s = false)
      (stepped : step cfg st move = .ok st') :
      Unleaked cfg s (word ++ localCalls cfg s st move) st'

/-- Such a run is a run. -/
theorem Unleaked.run {word : List Raw.Action} (unleaked : Unleaked cfg s word st) :
    Reachable (step cfg) (fun _ _ => True) State.init st := by
  induction unleaked with
  | begins => exact .refl
  | goes _ _ stepped ih => exact ih.tail trivial stepped

/-- No local guard of the slot is among the leaked ones. -/
theorem Unleaked.none_leaked {word : List Raw.Action} (unleaked : Unleaked cfg s word st) :
    localsOn s st.leaked = 0 := by
  induction unleaked with
  | begins => rfl
  | @goes st st' move word _ kept stepped ih =>
    obtain ⟨calls, next, raw, _, _, planned, _, rfl⟩ := step_planned stepped
    obtain ⟨t, action⟩ := move
    have same : next.leaked = st.leaked → localsOn s next.leaked = 0 := fun same => same ▸ ih
    simp only at planned kept
    cases planned with
    | @forget g =>
      -- What is leaked is not a local guard of this slot.
      simp only [settle, localsOn_cons, ih, kept g rfl, Bool.false_eq_true, if_false]
    | _ => exact same rfl

/-- The calls of one activity period with some refreshes. -/
def period (s : SlotId) (refreshes : Nat) : List Raw.Action :=
  .enter s :: List.replicate refreshes (.refresh s) ++ [.leave s]

/-- The calls of periods, one after the other, of which the last may still go on. -/
def Periods (s : SlotId) (active : Bool) (word : List Raw.Action) : Prop :=
  ∃ (past : List Nat) (current : List Raw.Action), word = (past.map (period s)).flatten ++ current ∧
    match active with
    | false => current = []
    | true => ∃ refreshes, current = .enter s :: List.replicate refreshes (.refresh s)

/-- Every call continues the word as the counter says. -/
theorem Periods.counts {before after : Nat} {word made : List Raw.Action}
    (periods : Periods s (decide (0 < before)) word) (counts : Counts before after s made) :
    Periods s (decide (0 < after)) (word ++ made) := by
  obtain ⟨past, current, rfl, shape⟩ := periods
  cases counts with
  | enters none one =>
    subst none one
    obtain rfl : current = [] := shape
    exact ⟨past, [.enter s], by simp, 0, rfl⟩
  | leaves one none =>
    subst one none
    obtain ⟨refreshes, rfl⟩ := shape
    -- The period that was going on is complete.
    exact ⟨past ++ [refreshes], [], by simp [period], rfl⟩
  | refreshes one same =>
    subst one same
    obtain ⟨refreshes, rfl⟩ := shape
    refine ⟨past, .enter s :: List.replicate (refreshes + 1) (.refresh s), ?_, refreshes + 1, rfl⟩
    rw [List.replicate_succ', List.append_assoc, List.cons_append]
  | silent same =>
    have flag : decide (0 < before) = decide (0 < after) := by
      rw [decide_eq_decide]
      omega
    rw [flag] at shape
    exact ⟨past, current, by rw [List.append_nil], shape⟩

/-- The local guards of a slot act as one activity period. -/
structure OnePeriod (cfg : Config) (s : SlotId) (word : List Raw.Action) (st : State) : Prop where
  /-- The counter is the number of live local guards. -/
  count : st.guards s = localsOn s st.live
  /-- The calls so far are complete periods and perhaps one that goes on. -/
  word : Periods s (decide (0 < st.guards s)) word
  /-- A raw call is made exactly when the counter leaves or reaches zero, or for the only guard. -/
  calls : ∀ move st', step cfg st move = .ok st' →
    Counts (st.guards s) (st'.guards s) s (localCalls cfg s st move)
  /-- A refresh or drop beside another live guard does nothing to the raw collector. -/
  silent : ∀ t g st' action, (action = .refresh g ∨ action = .drop g) → g.isLocalOn s = true →
    2 ≤ localsOn s st.live → step cfg st (t, action) = .ok st' → st'.raw = st.raw

/-- A refresh or drop of a local guard that is not the only one makes no call. -/
theorem raw_unchanged {g : Guard} (is : action = .refresh g ∨ action = .drop g)
    (mine : g.isLocalOn s = true) (several : 2 ≤ st.guards s)
    (ran : step cfg st (t, action) = .ok st') : st'.raw = st.raw := by
  obtain ⟨calls, next, raw, _, _, planned, called, rfl⟩ := step_planned ran
  simp only [Guard.isLocalOn, Bool.and_eq_true, decide_eq_true_eq] at mine
  obtain ⟨isLocal, here⟩ := mine
  have many : st.guards g.slot ≠ 1 := by
    rw [here]
    omega
  have unowned : g.kind ≠ .owned := by
    intro kind
    simp [Guard.isLocal, kind] at isLocal
  simp only at planned
  -- With more than one guard, neither makes a call.
  have none : calls = [] := by
    rcases is with rfl | rfl
    · cases planned with
      | nothing is => simp at is
      | refreshLocal => exact if_neg many
      | refreshOwned _ kind => exact absurd kind unowned
      | batchLocal is | batchOwned is | thread is | inner is => cases is
    · cases planned with
      | nothing is => simp at is
      | dropLocal => exact if_neg many
      | dropOwned _ kind => exact absurd kind unowned
      | batchLocal is | batchOwned is | thread is | inner is => cases is
  subst none
  cases called
  rfl

/-- A run that leaks no local guard of a slot, computed with its calls. -/
def wordCheck (cfg : Config) (s : SlotId) (final : List Raw.Action → State → Bool) :
    List Raw.Action → State → List (Tid × Action) → Bool
  | word, st, [] => final word st
  | word, st, move :: rest =>
    (match move.2 with
      | .forget g => !g.isLocalOn s
      | _ => true) &&
    match step cfg st move with
    | .ok st' => wordCheck cfg s final (word ++ localCalls cfg s st move) st' rest
    | .error _ => false

/-- A computed run is a run. -/
theorem unleaked_of_check (cfg : Config) (s : SlotId) (final : List Raw.Action → State → Bool)
    (moves : List (Tid × Action)) :
    ∀ {word : List Raw.Action} {st : State}, Unleaked cfg s word st →
      wordCheck cfg s final word st moves = true →
        ∃ word st, Unleaked cfg s word st ∧ final word st = true := by
  induction moves with
  | nil => exact fun unleaked checked => ⟨_, _, unleaked, checked⟩
  | cons move rest ih =>
    intro word st unleaked checked
    simp only [wordCheck, Bool.and_eq_true] at checked
    obtain ⟨kept, checked⟩ := checked
    cases first : step cfg st move with
    | error stop => simp [first] at checked
    | ok st' =>
      simp only [first] at checked
      refine ih (unleaked.goes (fun g is => ?_) first) checked
      rw [is] at kept
      simpa using kept

end Seize.Guards
