import Seize.Raw.Reach

/-!
Deciding that a computed run accesses slots as it is asked to.

Unique access speaks of every thread. In a run of the first few threads the others have no calls
in progress, so it is enough to look at those few.
-/

namespace Seize.Raw

variable {cfg : Config} {st st' : State} {t : Tid} {action : Action}

/-- Only the first `n` threads, slots and cells are in use. -/
structure Within (n : Nat) (st : State) : Prop where
  running : ∀ t, n ≤ t → st.stack t = []
  batches : ∀ s, n ≤ s → st.batch s = .null
  heads : ∀ s, n ≤ s → st.head s = .inactive
  cells : ∀ x, n ≤ x → st.cells x = none

/-- A frame that uses the local batch of some slot. -/
def Frame.usesSome : Frame → Bool
  | .scan .. => true
  | .reclaimAll _ => true
  | .reclaimReset _ => true
  | _ => false

/-- No other thread among the first `n` has a frame that a test accepts. -/
def othersAvoid (n : Nat) (st : State) (t : Tid) (uses : Frame → Bool) : Bool :=
  (List.range n).all fun t' => t' == t || (st.stack t').all fun f => !uses f

/-- Access, decided for a run of the first `n` threads on the first `n` slots. -/
def accessCheck (cfg : Config) (n : Nat) (st : State) (move : Tid × Action) : Bool :=
  decide (move.1 < n) &&
    match move.2 with
    | .create s => decide (s < cfg.slots)
    | .enter s => decide (s < n ∧ s ∈ st.created)
    | .leave s => decide (s ∈ st.created)
    | .refresh s => decide (s < n ∧ s ∈ st.created)
    | .access _ x _ => decide (x < n)
    | .add s _ _ _ => decide (s < n ∧ s < cfg.slots) && othersAvoid n st move.1 (·.usesBatch s)
    | .reserve s _ => decide (s < n ∧ s < cfg.slots) && othersAvoid n st move.1 (·.usesBatch s)
    | .flush s => othersAvoid n st move.1 (·.usesBatch s)
    | .reclaimAll => othersAvoid n st move.1 Frame.usesSome
    | _ => true

/-- What the first threads avoid, every thread avoids. -/
theorem othersAvoid_sound {n : Nat} {uses : Frame → Bool} (within : Within n st)
    (checked : othersAvoid n st t uses = true) :
    ∀ t', t' ≠ t → ∀ f ∈ st.stack t', uses f = false := by
  intro t' other f member
  by_cases small : t' < n
  · have := List.all_eq_true.mp checked t' (List.mem_range.mpr small)
    simp only [beq_iff_eq, other, Bool.or_eq_true, false_or, List.all_eq_true] at this
    simpa using this f member
  · rw [within.running t' (Nat.le_of_not_lt small)] at member
    cases member

/-- A frame that uses one slot uses some slot. -/
theorem usesSome_of_usesBatch {f : Frame} {s : SlotId} (free : f.usesSome = false) :
    f.usesBatch s = false := by
  cases f <;> simp_all [Frame.usesSome, Frame.usesBatch]

/-- Access that passes the check is as it is asked for. -/
theorem accessCheck_sound {n : Nat} (within : Within n st) (move : Tid × Action)
    (checked : accessCheck cfg n st move = true) : Access cfg st move := by
  obtain ⟨t, action⟩ := move
  simp only [accessCheck, Bool.and_eq_true] at checked
  obtain ⟨_, checked⟩ := checked
  -- What is checked of the first threads holds of all, since no others have calls.
  cases action with
  | create s => simpa [Access] using checked
  | enter s => exact (of_decide_eq_true checked).2
  | leave s => simpa [Access] using checked
  | refresh s => exact (of_decide_eq_true checked).2
  | add s p f c =>
    simp only [Bool.and_eq_true, decide_eq_true_eq] at checked
    exact ⟨checked.1.2, othersAvoid_sound within checked.2⟩
  | reserve s c =>
    simp only [Bool.and_eq_true, decide_eq_true_eq] at checked
    exact ⟨checked.1.2, othersAvoid_sound within checked.2⟩
  | flush s => exact othersAvoid_sound within checked
  | reclaimAll =>
    intro s t' other f member
    exact usesSome_of_usesBatch (othersAvoid_sound within checked t' other f member)
  | ret => trivial
  | panic => trivial
  | access s x op => trivial
  | advance spurious => trivial
  | skip target => trivial

/-- A move of one thread leaves the stacks of the others alone. -/
theorem Move.stack_other (moved : Move cfg st t action st') {t' : Tid} (other : t' ≠ t) :
    st'.stack t' = st.stack t' := by
  -- A step writes the stack of its own thread at most.
  have updated : ∀ fs, Function.update st.stack t fs t' = st.stack t' :=
    fun fs => Function.update_of_ne other _ _
  cases moved with
  | known => rfl
  | create => rfl
  | enter => rfl
  | leaveIdle => rfl
  | leave => exact updated _
  | refreshIdle => rfl
  | refresh => exact updated _
  | refused _ prep => exact congrFun prep.same.1 t'
  | immediate _ prep =>
    exact (Function.update_of_ne other _ _).trans (congrFun prep.same.1 t')
  | pushed _ prep => exact congrFun prep.same.1 t'
  | filled _ prep => exact (Function.update_of_ne other _ _).trans (congrFun prep.same.1 t')
  | reserve _ prep => exact congrFun prep.same.1 t'
  | flushNone => rfl
  | access => rfl
  | flush | reclaimAll | ret | panic | skipScan | skipReclaim | commit | pass | mark | abort
  | addFree | addShare | load | gone | publish | retry | done | releaseFree | releaseCount
  | invoke | dealloc | finish | next | take | takeWrong | reset => exact updated _

/-- A step calls, or replaces the innermost call, or returns. -/
theorem Move.stack_mine (moved : Move cfg st t action st') :
    (∃ fs, st'.stack t = fs ++ (st.stack t).tail) ∨ st'.stack t <:+ (st.stack t).tail := by
  have same : ∀ {st₂ : State}, st₂.stack = st.stack →
      (∃ fs, st₂.stack t = fs ++ (st.stack t).tail) ∨ st₂.stack t <:+ (st.stack t).tail := by
    intro st₂ stack
    refine .inl ⟨(st.stack t).take 1, ?_⟩
    rw [stack, ← List.drop_one, List.take_append_drop]
  -- A call keeps what was innermost before it.
  have called : ∀ {k : Frame} {st₂ : State}, st₂.stack t = k :: st.stack t →
      (∃ fs, st₂.stack t = fs ++ (st.stack t).tail) ∨ st₂.stack t <:+ (st.stack t).tail := by
    intro k st₂ stack
    refine .inl ⟨k :: (st.stack t).take 1, ?_⟩
    rw [stack, ← List.drop_one, List.cons_append, List.take_append_drop]
  have stepped : ∀ {k : Frame} (fs : List Frame) {below : List Frame} {st₂ : State},
      st.stack t = k :: below → st₂.stack t = fs ++ below →
      (∃ fs, st₂.stack t = fs ++ (st.stack t).tail) ∨ st₂.stack t <:+ (st.stack t).tail := by
    intro k fs below st₂ top stack
    exact .inl ⟨fs, by rw [stack, top, List.tail_cons]⟩
  cases moved with
  | known | create | enter | leaveIdle | refreshIdle | flushNone | access => exact same rfl
  | refused _ prep => exact same prep.same.1
  | pushed _ prep => exact same prep.same.1
  | reserve _ prep => exact same prep.same.1
  | leave | refresh | flush | reclaimAll => exact called (Function.update_self ..)
  | immediate _ prep =>
    exact called ((Function.update_self ..).trans (congrArg (List.cons _) (congrFun prep.same.1 t)))
  | filled _ prep =>
    exact called ((Function.update_self ..).trans (congrArg (List.cons _) (congrFun prep.same.1 t)))
  | panic top =>
    refine .inr ?_
    simp only [top, List.tail_cons, State.setStack, Function.update_self]
    exact unwind_suffix _
  | ret top | abort top | addShare top | done top | dealloc top | finish top =>
    exact stepped [] top (Function.update_self ..)
  | skipScan top | pass top | mark top | skipReclaim top | commit top | addFree top | load top
  | gone top | publish top | retry top | releaseCount top | next top | reset top =>
    exact stepped [_] top (Function.update_self ..)
  | releaseFree top | invoke top | take top | takeWrong top =>
    exact stepped [_, _] top (Function.update_self ..)

/-- Calls below the innermost one are left alone, as long as they have not returned. -/
theorem Move.frame_below (moved : Move cfg st t action st') {height : Nat} {f : Frame}
    (found : st.frame t height = some f) (inner : height + 1 < (st.stack t).length)
    (still : height < (st'.stack t).length) : st'.frame t height = some f := by
  -- Below the innermost call the two stacks agree.
  have lower : frameAt (st.stack t).tail height = some f := by
    rw [State.frame] at found
    cases stack : st.stack t with
    | nil => simp [stack] at found
    | cons k below =>
      rw [stack] at found inner
      have inside : height < below.length := by simpa using inner
      exact (frameAt_cons_of_lt inside).symm.trans found
  rw [State.frame]
  rcases moved.stack_mine with ⟨fs, stack⟩ | suffix
  · rw [stack]
    exact frameAt_of_suffix (List.suffix_append _ _) lower
  · obtain ⟨g, there⟩ := exists_frameAt_of_lt still
    have same := frameAt_of_suffix suffix there
    rw [lower] at same
    cases same
    exact there

/-- A call with nothing above it is the innermost one. -/
theorem State.frame_innermost {height : Nat} {f : Frame} (found : st.frame t height = some f)
    (short : ¬ height + 1 < (st.stack t).length) :
    ∃ below, st.stack t = f :: below ∧ below.length = height := by
  have inside := frameAt_lt found
  cases stack : st.stack t with
  | nil => simp [stack] at inside
  | cons k below =>
    rw [stack, List.length_cons] at inside short
    have tall : height = below.length := by omega
    rw [State.frame, stack, tall, frameAt_top] at found
    cases found
    exact ⟨below, rfl, tall.symm⟩

/-- A call that waits is left alone, as long as it has not returned. -/
theorem Move.frame_waits {t' : Tid} (moved : Move cfg st t' action st') {height : Nat} {f : Frame}
    (found : st.frame t height = some f) (waits : t' ≠ t ∨ height + 1 < (st.stack t).length)
    (still : height < (st'.stack t).length) : st'.frame t height = some f := by
  by_cases mine : t' = t
  · subst mine
    exact moved.frame_below found (waits.resolve_left (fun other => other rfl)) still
  · rw [State.frame, moved.stack_other (Ne.symm mine)]
    exact found

/-- Preparing a slot leaves the others without a batch. -/
theorem Prep.batch_other {s v : SlotId} (prep : Prep cfg s st st') (other : v ≠ s) :
    st'.batch v = st.batch v := by
  induction prep with
  | refl => rfl
  | load _ _ ih => exact ih
  | unboxed _ _ _ ih => exact ih
  | fresh _ _ _ ih =>
    rw [← ih]
    exact Function.update_of_ne other _ _
  | grow _ _ _ _ ih => exact ih

/-- The slot whose local batch an action may initialize. -/
def Action.initializes : Action → Option SlotId
  | .add s _ _ _ => some s
  | .reserve s _ => some s
  | _ => none

/-- A slot without a batch gets one only from the action that initializes it. -/
theorem Move.batch_other (moved : Move cfg st t action st') {v : SlotId}
    (other : action.initializes ≠ some v) (null : st.batch v = .null) : st'.batch v = .null := by
  -- An update that stores null keeps every null.
  have nulled : ∀ s, Function.update st.batch s .null v = .null := by
    intro s
    by_cases here : v = s
    · subst here
      exact Function.update_self ..
    · rw [Function.update_of_ne here]
      exact null
  -- The sentinel is stored only where something was.
  have marked : ∀ s, st.batch s ≠ .null → Function.update st.batch s .drop v = .null := by
    intro s held
    rw [Function.update_of_ne]
    · exact null
    · rintro rfl
      exact held null
  -- Preparation concerns the slot the action names.
  have prepared : ∀ {s st₀ st₁}, Prep cfg s st₀ st₁ → st₀.batch = st.batch → some s ≠ some v →
      st₁.batch v = .null := by
    intro s st₀ st₁ prep same differs
    rw [prep.batch_other fun eq => differs (by rw [eq]), same]
    exact null
  cases moved with
  | refused _ prep =>
    have after := prepared prep rfl other
    exact after
  | immediate _ prep =>
    have after := prepared prep rfl other
    exact after
  | pushed _ prep =>
    have after := prepared prep rfl other
    exact after
  | filled _ prep =>
    have after := prepared prep rfl other
    exact after
  | reserve _ prep =>
    have after := prepared prep rfl other
    exact after
  | commit => exact nulled _
  | reset => exact nulled _
  | take top more present held => exact marked _ (by simp [held])
  | takeWrong top more present held => exact marked _ held
  | known | create | enter | leaveIdle | leave | refreshIdle | refresh | flushNone | flush
  | reclaimAll | access | ret | panic | skipScan | skipReclaim | pass | mark | abort | addFree | addShare | load | gone | publish | retry | done
  | releaseFree | releaseCount | invoke | dealloc | finish | next => exact null

/-- Only guarded accesses write to cells. -/
theorem Move.cells (moved : Move cfg st t action st') (other : ∀ s x op, action ≠ .access s x op) :
    st'.cells = st.cells := by
  cases moved with
  | access => exact absurd rfl (other _ _ _)
  | refused _ prep => exact prep.same.2.2.2.2.2.2.2.2.2
  | immediate _ prep => exact prep.same.2.2.2.2.2.2.2.2.2
  | pushed _ prep => exact prep.same.2.2.2.2.2.2.2.2.2
  | filled _ prep => exact prep.same.2.2.2.2.2.2.2.2.2
  | reserve _ prep => exact prep.same.2.2.2.2.2.2.2.2.2
  | known | create | enter | leaveIdle | leave | refreshIdle | refresh | flushNone | flush
  | reclaimAll | ret | panic | skipScan | skipReclaim | commit | pass | mark | abort | addFree
  | addShare | load | gone | publish | retry | done | releaseFree | releaseCount | invoke | dealloc
  | finish | next | take | takeWrong | reset => rfl

/-- A reservation that is there stays. -/
theorem Move.created (moved : Move cfg st t action st') : ∀ s ∈ st.created, s ∈ st'.created := by
  have same : ∀ {st₂ : State}, st₂.created = st.created → ∀ s ∈ st.created, s ∈ st₂.created := by
    intro st₂ eq s member
    rw [eq]
    exact member
  cases moved with
  | create => exact fun s member => List.mem_cons_of_mem _ member
  | refused _ prep | immediate _ prep | pushed _ prep | filled _ prep | reserve _ prep =>
    exact same prep.same.2.2.2.1
  | _ => exact fun s member => member

/-- A slot becomes active only when it is entered or refreshed. -/
theorem Move.head_other (moved : Move cfg st t action st') {v : SlotId} (entered : action ≠ .enter v)
    (refreshed : action ≠ .refresh v) (inactive : st.head v = .inactive) :
    st'.head v = .inactive := by
  have ended : ∀ s, Function.update st.head s .inactive v = .inactive := by
    intro s
    by_cases here : v = s
    · rw [here]
      exact Function.update_self ..
    · rw [Function.update_of_ne here]
      exact inactive
  have begun : ∀ s, s ≠ v → Function.update st.head s (.list none) v = .inactive :=
    fun s other => (Function.update_of_ne other.symm _ _).trans inactive
  cases moved with
  | @enter s => exact begun s fun same => entered (by rw [same])
  | @refreshIdle s => exact begun s fun same => refreshed (by rw [same])
  | @refresh s => exact begun s fun same => refreshed (by rw [same])
  | leaveIdle => exact ended _
  | leave => exact ended _
  | refused _ prep => exact (congrFun prep.same.2.1 v).trans inactive
  | immediate _ prep => exact (congrFun prep.same.2.1 v).trans inactive
  | pushed _ prep => exact (congrFun prep.same.2.1 v).trans inactive
  | filled _ prep => exact (congrFun prep.same.2.1 v).trans inactive
  | reserve _ prep => exact (congrFun prep.same.2.1 v).trans inactive
  | @publish b marked i active s prev below batch spurious top stored more same =>
    -- An entry is linked to an active slot only.
    have other : v ≠ s := by
      rintro rfl
      rw [inactive] at same
      cases same
    exact (Function.update_of_ne other _ _).trans inactive
  | known | create | flushNone | flush | reclaimAll | access | ret | panic | skipScan | skipReclaim
  | commit | pass | mark | abort | addFree | addShare | load | gone | retry | done | releaseFree
  | releaseCount | invoke | dealloc | finish | next | take | takeWrong | reset => exact inactive

/-- A step of one of the first threads on the first slots leaves the others idle. -/
theorem Within.step {n : Nat} {move : Tid × Action} (within : Within n st)
    (checked : accessCheck cfg n st move = true) (ran : Raw.step cfg st move = .ok st') :
    Within n st' := by
  obtain ⟨st₁, moved, rfl⟩ := step_move ran
  obtain ⟨t, action⟩ := move
  simp only [accessCheck, Bool.and_eq_true, decide_eq_true_eq] at checked
  obtain ⟨small, checked⟩ := checked
  -- What an action names is among the first ones.
  have apart : ∀ {s v : Nat}, s < n → n ≤ v → s ≠ v := by
    intro s v low high
    omega
  refine ⟨fun t' large => ?_, fun v large => ?_, fun v large => ?_, fun x large => ?_⟩
  · exact (moved.stack_other (apart small large).symm).trans (within.running t' large)
  · refine moved.batch_other ?_ (within.batches v large)
    cases action with
    | add s p f c =>
      simp only [Bool.and_eq_true, decide_eq_true_eq] at checked
      simpa [Action.initializes] using apart checked.1.1 large
    | reserve s c =>
      simp only [Bool.and_eq_true, decide_eq_true_eq] at checked
      simpa [Action.initializes] using apart checked.1.1 large
    | _ => simp [Action.initializes]
  · refine moved.head_other ?_ ?_ (within.heads v large)
    · rintro rfl
      exact apart (of_decide_eq_true checked).1 large rfl
    · rintro rfl
      exact apart (of_decide_eq_true checked).1 large rfl
  · by_cases isAccess : ∃ s x op, action = .access s x op
    · obtain ⟨s, x', op, rfl⟩ := isAccess
      cases moved with
      | access =>
        have other : x ≠ x' := (apart (of_decide_eq_true checked) large).symm
        exact (Function.update_of_ne other _ _).trans (within.cells x large)
    · have same := moved.cells fun s x op is => isAccess ⟨s, x, op, is⟩
      exact (congrFun same x).trans (within.cells x large)

/-- A computed run that passes the check reaches its final state, and stays among the first slots. -/
theorem reachable_from_check (cfg : Config) (n : Nat) (allowed : State → Tid × Action → Prop)
    (approve : State → Tid × Action → Bool) (final : State → Bool) (moves : List (Tid × Action))
    (sound : ∀ st move, Within n st → accessCheck cfg n st move = true → approve st move = true →
      allowed st move) {start : State} (within : Within n start)
    (checked : checkRun (Raw.step cfg) (fun st move => accessCheck cfg n st move && approve st move)
      final start moves = true) :
    ∃ st, Reachable (Raw.step cfg) allowed start st ∧ Within n st ∧ final st = true :=
  Reachable.of_checkRun
    (fun st move within approved => by
      rw [Bool.and_eq_true] at approved
      exact sound st move within approved.1 approved.2)
    (fun st move st' within approved ran => by
      rw [Bool.and_eq_true] at approved
      exact within.step approved.1 ran)
    within checked

/-- Nobody has used a new collector. -/
theorem Within.init (n : Nat) : Within n State.init :=
  ⟨fun _ _ => rfl, fun _ _ => rfl, fun _ _ => rfl, fun _ _ => rfl⟩

/-- A computed run of a new collector that passes the check reaches its final state. -/
theorem reachable_of_check (cfg : Config) (n : Nat) (allowed : State → Tid × Action → Prop)
    (approve : State → Tid × Action → Bool) (final : State → Bool) (moves : List (Tid × Action))
    (sound : ∀ st move, Within n st → accessCheck cfg n st move = true → approve st move = true →
      allowed st move)
    (checked : checkRun (Raw.step cfg) (fun st move => accessCheck cfg n st move && approve st move)
      final State.init moves = true) :
    ∃ st, Reachable (Raw.step cfg) allowed State.init st ∧ final st = true := by
  obtain ⟨st, run, _, ended⟩ :=
    reachable_from_check cfg n allowed approve final moves sound (.init n) checked
  exact ⟨st, run, ended⟩

/-- No slot holds the sentinel, decided for the first `n` slots. -/
def sentinelCheck (n : Nat) (st : State) (move : Tid × Action) : Bool :=
  decide (move.2 ≠ .reclaimAll) || (List.range n).all fun s => decide (st.batch s ≠ .drop)

/-- A run that passes both checks is disciplined. -/
theorem disciplined_of_check {n : Nat} (within : Within n st) {move : Tid × Action}
    (access : accessCheck cfg n st move = true) (checked : sentinelCheck n st move = true) :
    Disciplined cfg st move := by
  refine ⟨accessCheck_sound within move access, fun isReclaim s => ?_⟩
  simp only [sentinelCheck, isReclaim, ne_eq, not_true_eq_false, decide_false, Bool.false_or,
    List.all_eq_true, List.mem_range, decide_eq_true_eq] at checked
  by_cases small : s < n
  · exact checked s small
  · rw [within.batches s (Nat.le_of_not_lt small)]
    simp

/-- A slot is entered only while it is inactive, decided for one action. -/
def enterCheck (st : State) (move : Tid × Action) : Bool :=
  match move.2 with
  | .enter s => decide (st.head s = .inactive)
  | _ => true

/-- A run that passes both checks obeys the contract. -/
theorem contract_of_check {n : Nat} (within : Within n st) {move : Tid × Action}
    (access : accessCheck cfg n st move = true) (checked : enterCheck st move = true) :
    Contract cfg st move := by
  refine ⟨accessCheck_sound within move access, fun s isEnter => ?_⟩
  simpa [enterCheck, isEnter] using checked

/-- An allocator that has memory, and puts the next batch at an address. -/
def plenty (addr : Addr) : Alloc where
  slot := true
  entries := true
  box := true
  grow := true
  addr := addr
  cap := 0

end Seize.Raw
