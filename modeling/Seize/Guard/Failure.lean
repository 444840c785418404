import Seize.Guard.Active
import Seize.Raw.Failure

/-!
Calls that return `Err`.

A guard that cannot be created and a retirement that cannot be recorded leave the collector as it
was, and the same call succeeds once there is memory.
-/

namespace Seize.Guards

open Seize.Raw (Config SlotId Tid Ptr Reclaim Alloc Cell CellOp Stop Absent Alike Grants)
open Seize.Tls (Usage)

variable {cfg : Config} {st st' : State} {t : Tid} {s : SlotId} {action : Action}
  {calls : List Raw.Action} {next : State} {raw raw' : Raw.State} {c : Alloc}

/-- What a collector, its guards and its threads are to their users. -/
structure Abstract where
  raw : Raw.Abstract
  guards : SlotId → Nat
  live : List Guard
  leaked : List Guard
  threads : List (Tid × SlotId)
  /-- The thread IDs that are in use. -/
  inUse : List SlotId
  /-- The thread IDs that were not recycled. -/
  lost : List SlotId
  drops : List Dropping
  locks : List Lock

/-- The abstract state. -/
def State.abstract (st : State) : Abstract where
  raw := st.raw.abstract
  guards := st.guards
  live := st.live
  leaked := st.leaked
  threads := st.threads
  inUse := st.ids.live
  lost := st.ids.lost
  drops := st.drops
  locks := st.locks

/-- The common part of `add` and `reserve` returned `Err`. -/
def refused : Except Stop (Raw.State × Raw.Prepared) → Bool
  | .ok (_, .failed) => true
  | _ => false

/-- A retirement on a slot returns `Err`. -/
def refusesAdd (cfg : Config) (raw : Raw.State) (s : SlotId) (c : Alloc) : Bool :=
  refused (Raw.prepare cfg { raw with nextRid := raw.nextRid + 1 } s c)

/-- A call returns `Err`. -/
def returnsErr (cfg : Config) (st : State) (t : Tid) : Action → Bool
  | .enterLocal alloc =>
    match st.thread t with
    | some s => s ∉ st.raw.created ∧ alloc = false
    | none => false
  | .enterOwned alloc _ =>
    match createThread cfg st.ids with
    | some (s, _) => s ∉ st.raw.created ∧ alloc = false
    | none => false
  | .deferRetire g _ _ c => refusesAdd cfg st.raw g.slot c
  | .reserveRetire g c => refused (Raw.prepare cfg st.raw g.slot c)
  | .retire _ _ c =>
    match st.thread t with
    | some s => refusesAdd cfg st.raw s c
    | none => false
  | .reserve c =>
    match st.thread t with
    | some s => refused (Raw.prepare cfg st.raw s c)
    | none => false
  | _ => false

/-- The same call, made while the allocator answers differently. -/
def Action.withMemory (c : Alloc) : Action → Action
  | .enterLocal _ => .enterLocal true
  | .enterOwned _ reserved => .enterOwned true reserved
  | .deferRetire g p f _ => .deferRetire g p f c
  | .reserveRetire g _ => .reserveRetire g c
  | .retire p f _ => .retire p f c
  | .reserve _ => .reserve c
  | action => action

/-- The heap of free thread IDs, which is not the collector's memory, can take an ID back. -/
def Action.recycles : Action → Bool
  | .enterOwned _ reserved => reserved
  | _ => true

/-- Locks are held by calls in progress. -/
def Settled (st : State) : Prop := ∀ l ∈ st.locks, l.height < (st.raw.stack l.thread).length

/-- Raw calls of a thread leave the stacks of the others alone. -/
theorem stack_runCalls {t' : Tid} (other : t' ≠ t) (ran : runCalls cfg t calls raw = .ok raw') :
    raw'.stack t' = raw.stack t' := by
  induction calls generalizing raw with
  | nil =>
    cases ran
    rfl
  | cons call rest ih =>
    obtain ⟨mid, called, ran⟩ := runCalls_cons ran
    obtain ⟨raw₁, moved, rfl⟩ := Raw.step_move called
    rw [ih ran]
    exact moved.stack_other other

/-- A plan takes at most the lock of one more slot. -/
theorem Planned.locks (planned : Planned cfg st t action calls next) :
    ∀ l ∈ next.locks, l ∈ st.locks ∨ l.thread = t := by
  intro l member
  cases planned with
  | batchOwned =>
    rcases List.mem_cons.mp member with rfl | old
    · exact .inr rfl
    · exact .inl old
  | _ => exact .inl member

/-- The step lemma: locks are released when their calls return. -/
theorem Settled.step {move : Tid × Action} (settled : Settled st)
    (ran : step cfg st move = .ok st') : Settled st' := by
  obtain ⟨calls, next, raw, _, _, planned, called, rfl⟩ := step_planned ran
  intro l member
  obtain ⟨member, kept⟩ := List.mem_filter.mp member
  by_cases mine : l.thread = move.1
  · -- The filter keeps a lock of this thread only below its stack.
    have below : l.height < (raw.stack move.1).length := by simpa [mine] using kept
    rw [mine]
    exact below
  · have old := (planned.locks l member).resolve_right mine
    have same : raw.stack l.thread = st.raw.stack l.thread := stack_runCalls mine called
    have below := settled l old
    rw [← same] at below
    exact below

/-- The run lemma, for every run of the guard layer. -/
theorem reachable_settled {allowed : State → Tid × Action → Prop}
    (run : Reachable (step cfg) allowed State.init st) : Settled st := by
  have base : Settled State.init := by
    intro l member
    cases member
  refine run.invariant Settled base ?_
  intro st move st' _ settled _ ran
  exact settled.step ran

/-- Absent slots are null after some raw calls. -/
theorem absent_runCalls (absent : Absent raw) (ran : runCalls cfg t calls raw = .ok raw') :
    Absent raw' := by
  induction calls generalizing raw with
  | nil =>
    cases ran
    exact absent
  | cons call rest ih =>
    obtain ⟨mid, called, ran⟩ := runCalls_cons ran
    exact ih (absent.step called) ran

/-- Absent slots are null in every run of the guard layer. -/
theorem reachable_absent {allowed : State → Tid × Action → Prop}
    (run : Reachable (step cfg) allowed State.init st) : Absent st.raw := by
  refine run.invariant (fun st => Absent st.raw) (fun _ _ => rfl) ?_
  intro st move st' _ absent _ ran
  obtain ⟨calls, next, raw, _, _, _, called, rfl⟩ := step_planned ran
  exact absent_runCalls absent called

/-- A failed call changes the raw collector and the free thread IDs alone, and nobody can tell. -/
structure Spares (cfg : Config) (st st' : State) : Prop where
  frame : st' = { st with raw := st'.raw, ids := st'.ids }
  alike : Alike st.raw st'.raw
  created : st'.raw.created = st.raw.created
  /-- An ID that was taken went back. -/
  ids : st'.ids = st.ids ∨ ∃ s ids, createThread cfg st.ids = some (s, ids) ∧
    st'.ids = freeThread ids true s

/-- The memory of a failed call: a bucket that is attached and empty, and vectors that went back. -/
def GivenBack (cfg : Config) (raw raw' : Raw.State) : Prop :=
  (raw'.batchSlots = raw.batchSlots ∨ ∃ s, s ∉ raw.batchSlots ∧
    raw'.batchSlots = s :: raw.batchSlots ∧ raw'.batch s = .null) ∧
  (raw'.ledger = raw.ledger ∨ ∃ b, raw.mem b = none ∧
    raw'.ledger = .dealloc (.entries b) (.entries cfg.batchSize) ::
      .alloc (.entries b) (.entries cfg.batchSize) :: raw.ledger)

/-- What a raw call that failed leaves of the raw collector. -/
structure RawSpares (cfg : Config) (raw raw' : Raw.State) : Prop where
  alike : Alike raw raw'
  created : raw'.created = raw.created
  log : raw'.log = raw.log ∨ ∃ rid, raw'.log = .refused rid :: raw.log
  memory : GivenBack cfg raw raw'

/-- A common part that failed. -/
theorem refused_iff {result : Except Stop (Raw.State × Raw.Prepared)}
    (err : refused result = true) : ∃ raw, result = .ok (raw, .failed) := by
  unfold refused at err
  split at err
  · exact ⟨_, rfl⟩
  · cases err

/-- A state that a call spares. -/
theorem RawSpares.of_spared (spared : Raw.Spared cfg s raw raw') : RawSpares cfg raw raw' := by
  have fields := spared.same
  have batches : raw'.batch = raw.batch := by rw [fields]
  refine ⟨⟨by rw [fields], by rw [fields], batches, by rw [fields], by rw [fields], by rw [fields]⟩,
    by rw [fields], .inl (by rw [fields]), ?_, spared.memory⟩
  rcases spared.slots with same | ⟨missing, more, null⟩
  · exact .inl same
  · exact .inr ⟨s, missing, more, by rw [batches, null]⟩

/-- A reservation that returned `Err`. -/
theorem reserve_spares (sized : 0 < cfg.batchSize) (absent : Absent raw)
    (err : refused (Raw.prepare cfg raw s c) = true)
    (ran : Raw.step cfg raw (t, .reserve s c) = .ok raw') : RawSpares cfg raw raw' := by
  obtain ⟨_, raw₁, result, prepared, rfl⟩ := Raw.step_reserve ran
  obtain ⟨raw₂, failed⟩ := refused_iff err
  cases prepared.symm.trans failed
  obtain ⟨alike, created, log, memory⟩ := RawSpares.of_spared (Raw.prepare_failed sized absent failed)
  exact ⟨⟨alike.head, alike.list, alike.batch, alike.mem, alike.stack, alike.nextUid⟩, created, log,
    memory⟩

/-- A retirement that returned `Err`. -/
theorem add_spares {p : Ptr} {f : Reclaim} (sized : 0 < cfg.batchSize) (absent : Absent raw)
    (err : refusesAdd cfg raw s c = true)
    (ran : Raw.step cfg raw (t, .add s p f c) = .ok raw') : RawSpares cfg raw raw' := by
  obtain ⟨_, raw₁, called, rfl⟩ := Raw.step_add ran
  obtain ⟨raw₂, result, prepared, _, _, refused⟩ := Raw.add_cases called
  obtain ⟨raw₃, failed⟩ := refused_iff err
  cases prepared.symm.trans failed
  have spared : Raw.Spared cfg s { raw with nextRid := raw.nextRid + 1 } raw₂ :=
    Raw.prepare_failed sized absent failed
  obtain ⟨alike, created, _, memory⟩ := RawSpares.of_spared spared
  have log : raw₂.log = raw.log := by rw [spared.same]
  cases refused rfl
  exact ⟨⟨alike.head, alike.list, alike.batch, alike.mem, alike.stack, alike.nextUid⟩, created,
    .inr ⟨raw.nextRid, by simp [Raw.State.record, Raw.tick, log]⟩, memory⟩

/-- Nothing settles when no call was made or returned. -/
theorem settle_locks (settled : Settled st) (stack : raw.stack = st.raw.stack) (lock : List Lock)
    (mine : ∀ l ∈ lock, l.thread = t ∧ l.height = (st.raw.stack t).length) :
    (lock ++ st.locks).filter
      (fun l => l.thread ≠ t ∨ l.height < (raw.stack t).length) = st.locks := by
  rw [List.filter_append]
  -- The call has returned, so its own locks are released and those below it stay.
  have gone : lock.filter (fun l => l.thread ≠ t ∨ l.height < (raw.stack t).length) = [] := by
    refine List.filter_eq_nil_iff.mpr fun l member => ?_
    obtain ⟨here, height⟩ := mine l member
    simp [here, height, stack]
  have kept : st.locks.filter (fun l => l.thread ≠ t ∨ l.height < (raw.stack t).length) = st.locks := by
    refine List.filter_eq_self.mpr fun l member => ?_
    have below := settled l member
    by_cases here : l.thread = t
    · subst here
      simp [stack, below]
    · simp [here]
  rw [gone, kept, List.nil_append]

/-- A state in which only the raw collector and the thread IDs changed, after it has settled. -/
theorem Spares.settle {ids : Usage} (lock : List Lock) (settled : Settled st)
    (spares : RawSpares cfg st.raw raw) (quiet : action ≠ .panic)
    (mine : ∀ l ∈ lock, l.thread = t ∧ l.height = (st.raw.stack t).length)
    (back : ids = st.ids ∨ ∃ s taken, createThread cfg st.ids = some (s, taken) ∧
      ids = freeThread taken true s) :
    Spares cfg st (settle { st with raw := raw, ids := ids, locks := lock ++ st.locks } t action) := by
  have locks := settle_locks settled spares.alike.stack lock mine
  refine ⟨?_, spares.alike, spares.created, back⟩
  simp only [Guards.settle, locks, if_neg quiet]

/-- A call on the batch of a guard that returned `Err`. -/
theorem onBatch_spares {g : Guard} {call : Raw.Action} (sized : 0 < cfg.batchSize)
    (absent : Absent st.raw) (is : action.onBatch = some (g, call))
    (err : returnsErr cfg st t action = true) (called : runCalls cfg t [call] st.raw = .ok raw) :
    RawSpares cfg st.raw raw ∧ action ≠ .panic := by
  cases action with
  | deferRetire g' p f c =>
    cases is
    exact ⟨add_spares sized absent err (runCalls_one called), by simp⟩
  | reserveRetire g' c =>
    cases is
    exact ⟨reserve_spares sized absent err (runCalls_one called), by simp⟩
  | flush => cases err
  | _ => cases is

/-- A call on the batch of the current thread that returned `Err`. -/
theorem onThread_spares {call : Raw.Action} (sized : 0 < cfg.batchSize)
    (absent : Absent st.raw) (is : action.onThread s = some call) (mine : st.thread t = some s)
    (err : returnsErr cfg st t action = true) (called : runCalls cfg t [call] st.raw = .ok raw) :
    RawSpares cfg st.raw raw ∧ action ≠ .panic := by
  cases action with
  | retire p f c =>
    cases is
    simp only [returnsErr, mine] at err
    exact ⟨add_spares sized absent err (runCalls_one called), by simp⟩
  | reserve c =>
    cases is
    simp only [returnsErr, mine] at err
    exact ⟨reserve_spares sized absent err (runCalls_one called), by simp⟩
  | _ => cases is

/-- A call that returned `Err` spares what its callers can tell apart. -/
theorem err_spares (sized : 0 < cfg.batchSize) (absent : Absent st.raw) (settled : Settled st)
    (recycled : action.recycles = true) (err : returnsErr cfg st t action = true)
    (ran : step cfg st (t, action) = .ok st') :
    Spares cfg st st' ∧ RawSpares cfg st.raw st'.raw := by
  obtain ⟨calls, next, raw, _, _, planned, called, rfl⟩ := step_planned ran
  have unchanged : RawSpares cfg st.raw st.raw :=
    ⟨⟨rfl, rfl, rfl, rfl, rfl, rfl⟩, rfl, .inl rfl, .inl rfl, .inl rfl⟩
  simp only at planned called
  cases planned with
  | nothing is =>
    rcases is with rfl | ⟨reserved, rfl⟩
    · cases err
    · cases err
  | refusedLocal =>
    cases called
    exact ⟨Spares.settle [] settled unchanged (by simp) (by simp) (.inl rfl), unchanged⟩
  | refusedOwned created =>
    -- The ID goes back to the manager.
    cases called
    cases recycled
    refine ⟨Spares.settle [] settled unchanged (by simp) (by simp) ?_, unchanged⟩
    exact .inr ⟨_, _, created, rfl⟩
  | @enterLocal alloc s mine small room =>
    simp only [returnsErr, mine, decide_eq_true_eq] at err
    rcases room with present | granted
    · exact absurd present err.1
    · rw [err.2] at granted
      cases granted
  | @enterOwned alloc reserved s ids created room =>
    simp only [returnsErr, created, decide_eq_true_eq] at err
    rcases room with present | granted
    · exact absurd present err.1
    · rw [err.2] at granted
      cases granted
  | batchLocal is =>
    obtain ⟨spares, quiet⟩ := onBatch_spares sized absent is err called
    exact ⟨Spares.settle [] settled spares quiet (by simp) (.inl rfl), spares⟩
  | @batchOwned _ g call is =>
    -- The lock is released as the call returns.
    obtain ⟨spares, quiet⟩ := onBatch_spares sized absent is err called
    refine ⟨Spares.settle [⟨t, (st.raw.stack t).length, g.slot⟩] settled spares quiet ?_
      (.inl rfl), spares⟩
    simp
  | thread is mine =>
    obtain ⟨spares, quiet⟩ := onThread_spares sized absent is mine err called
    exact ⟨Spares.settle [] settled spares quiet (by simp) (.inl rfl), spares⟩
  | inner is =>
    cases action with
    | ret | panic | advance | skip => cases err
    | _ => cases is
  | current | refreshLocal | refreshOwned | dropLocal | dropOwned | finish | forget | exit | access
  | reclaimAll => cases err

/-- A call that has a plan whose raw calls succeed. -/
theorem step_of_plan (free : blocked st t action = false)
    (planned : plan cfg st t action = .ok (calls, next))
    (ran : runCalls cfg t calls st.raw = .ok raw) :
    step cfg st (t, action) = .ok (settle { next with raw := raw } t action) := by
  simp only [step, free, planned, ran, Bool.false_eq_true, if_false]

/-- The same plan in a state that a failed call left has the same effect. -/
theorem Spares.again {ids : Usage} {raw₂ : Raw.State} (spares : Spares cfg st st')
    (free : blocked st t action = false) (first : plan cfg st t action = .ok (calls, next))
    (second : plan cfg st' t action = .ok (calls, { next with raw := st'.raw, ids := ids }))
    (live : ids.live = next.ids.live) (lost : ids.lost = next.ids.lost)
    (ran : runCalls cfg t calls st.raw = .ok raw) (again : runCalls cfg t calls st'.raw = .ok raw₂)
    (same : raw₂.abstract = raw.abstract) :
    ∃ after after', step cfg st (t, action) = .ok after ∧ step cfg st' (t, action) = .ok after' ∧
      after'.abstract = after.abstract := by
  have free' : blocked st' t action = false := by
    rw [spares.frame, blocked, State.due, State.dropping]
    simp only [spares.alike.stack]
    exact free
  have heights : (raw₂.stack t).length = (raw.stack t).length := by
    have calls := congrArg (fun a => (a.calls t).length) same
    simpa [Raw.State.abstract] using calls
  refine ⟨_, _, step_of_plan free first ran, step_of_plan free' second again, ?_⟩
  simp only [State.abstract, Guards.settle, same, heights, live, lost]

/-- A first or further guard enters a slot alike. -/
theorem runCalls_enter {raw₂ : Raw.State} (alike : Alike raw raw₂)
    (created : raw₂.created = raw.created) (user : Raw.userLevel (raw.stack t) = true)
    (first : Prop) [Decidable first] :
    ∃ after after', runCalls cfg t (.create s :: if first then [.enter s] else []) raw = .ok after ∧
      runCalls cfg t (.create s :: if first then [.enter s] else []) raw₂ = .ok after' ∧
        after'.abstract = after.abstract := by
  have user₂ : Raw.userLevel (raw₂.stack t) = true := by rw [alike.stack, user]
  -- The state in which the reservation is there.
  have loaded : ∀ {r : Raw.State}, Raw.userLevel (r.stack t) = true →
      Raw.step cfg r (t, .create s) =
        .ok (Raw.tick (if s ∈ r.created then r else { r with created := s :: r.created })) := by
    intro r user
    simp [Raw.step, Raw.act, user, Except.map]
  have entered : ∀ {r : Raw.State}, Raw.userLevel (r.stack t) = true →
      Raw.step cfg r (t, .enter s) = .ok (Raw.tick (Raw.enter r s)) := by
    intro r user
    simp [Raw.step, Raw.act, user, Except.map]
  have same : Alike
      (Raw.tick (if s ∈ raw.created then raw else { raw with created := s :: raw.created }))
      (Raw.tick (if s ∈ raw₂.created then raw₂ else { raw₂ with created := s :: raw₂.created })) := by
    rw [created]
    obtain ⟨head, list, batch, mem, stack, nextUid⟩ := alike
    split <;> exact ⟨head, list, batch, mem, stack, nextUid⟩
  have kept : ∀ r : Raw.State,
      (Raw.tick (if s ∈ r.created then r else { r with created := s :: r.created })).stack =
        r.stack := by
    intro r
    split <;> rfl
  by_cases one : first
  · rw [if_pos one]
    simp only [runCalls, loaded user, loaded user₂, entered ((kept raw).symm ▸ user),
      entered ((kept raw₂).symm ▸ user₂)]
    refine ⟨_, _, rfl, rfl, Alike.abstract ⟨?_, ?_, same.batch, same.mem, same.stack, same.nextUid⟩⟩
    · exact congrArg (fun heads => Function.update heads s (.list none)) same.head
    · exact congrArg (fun lists => Function.update lists s []) same.list
  · rw [if_neg one]
    simp only [runCalls, loaded user, loaded user₂]
    exact ⟨_, _, rfl, rfl, same.abstract⟩

/-- A raw call that user code makes. -/
theorem runCalls_add {p : Ptr} {f : Reclaim} (user : Raw.userLevel (raw.stack t) = true)
    (ran : Raw.add cfg raw t s p f c = .ok raw') :
    runCalls cfg t [.add s p f c] raw = .ok (Raw.tick raw') := by
  simp [runCalls, Raw.step, Raw.act, user, ran, Except.map]

/-- A reservation that user code makes. -/
theorem runCalls_reserve {result : Raw.Prepared} (user : Raw.userLevel (raw.stack t) = true)
    (ran : Raw.prepare cfg raw s c = .ok (raw', result)) :
    runCalls cfg t [.reserve s c] raw = .ok (Raw.tick raw') := by
  simp [runCalls, Raw.step, Raw.act, Raw.reserve, user, ran, Except.map]

/-- An ID that went back to the manager is handed out again. -/
theorem createThread_again {ids : Usage} {taken : Usage}
    (created : createThread cfg ids = some (s, taken)) :
    createThread cfg (freeThread taken true s) = some (s, taken) := by
  unfold createThread at created ⊢
  split at created
  · rename_i id manager alloc
    split at created
    · rename_i small
      cases created
      -- The ID that was handed back is the least free one again.
      rcases Tls.Usage.alloc_cases alloc with ⟨member, least, rfl⟩ | ⟨empty, rfl, rfl⟩
      · have again : (s :: ids.manager.freeList.erase s).min? = some s := by
          refine List.min?_eq_some_iff.mpr ⟨List.mem_cons_self, fun n listed => ?_⟩
          rcases List.mem_cons.mp listed with rfl | old
          · exact Nat.le_refl _
          · exact least n (List.mem_of_mem_erase old)
        simp [freeThread, Tls.ThreadIdManager.alloc, Tls.ThreadIdManager.free, again, small]
      · simp [freeThread, Tls.ThreadIdManager.alloc, Tls.ThreadIdManager.free, empty, small]
    · cases created
  · cases created

/-- What a call that returned `Err` has done, and what calling again does. -/
structure Untouched (cfg : Config) (t : Tid) (action : Action) (st st' : State) : Prop where
  abstract : st'.abstract = st.abstract
  /-- No call was left in progress, and no reclaimer was invoked. -/
  silent : st'.raw.stack = st.raw.stack ∧
    (st'.raw.log = st.raw.log ∨ ∃ rid, st'.raw.log = .refused rid :: st.raw.log)
  memory : GivenBack cfg st.raw st'.raw
  /-- The ID of an owned guard is free again. -/
  handed : ∀ alloc reserved s ids, action = .enterOwned alloc reserved →
    createThread cfg st.ids = some (s, ids) → s ∈ st'.ids.manager.freeList ∧ s ∉ st'.ids.live
  /-- With memory available the call succeeds, as if it had been made at first. -/
  again : ∀ c, Grants c st.raw →
    (∀ s alloc, action = .enterLocal alloc → st.thread t = some s → st.guards s + 1 < cfg.modulus) →
    returnsErr cfg st' t (action.withMemory c) = false ∧
      ∃ after after', step cfg st (t, action.withMemory c) = .ok after ∧
        step cfg st' (t, action.withMemory c) = .ok after' ∧ after'.abstract = after.abstract

/-- A new ID is in use, and no ID is lost. -/
theorem createThread_live {ids taken : Usage} (created : createThread cfg ids = some (s, taken)) :
    taken.live = s :: ids.live ∧ taken.lost = ids.lost := by
  unfold createThread at created
  split at created
  · split at created
    · cases created
      exact ⟨rfl, rfl⟩
    · cases created
  · cases created

/-- An ID that went straight back leaves those in use as they were. -/
theorem freeThread_live {ids taken : Usage} (created : createThread cfg ids = some (s, taken)) :
    (freeThread taken true s).live = ids.live ∧ (freeThread taken true s).lost = ids.lost := by
  obtain ⟨live, lost⟩ := createThread_live created
  simp [freeThread, live, lost]

/-- A failed call leaves the abstract state as it was. -/
theorem Spares.abstract (spares : Spares cfg st st') : st'.abstract = st.abstract := by
  have ids : st'.ids.live = st.ids.live ∧ st'.ids.lost = st.ids.lost := by
    rcases spares.ids with same | ⟨s, taken, created, back⟩
    · rw [same]
      exact ⟨rfl, rfl⟩
    · rw [back]
      exact freeThread_live created
  rw [spares.frame]
  simp only [State.abstract, spares.alike.abstract, ids]

/-- A granted request is not refused. -/
theorem not_refused (grants : Grants c raw) (valid : Raw.Valid raw s) :
    refused (Raw.prepare cfg raw s c) = false := by
  obtain ⟨after, result, ran, ok⟩ : ∃ after result,
      Raw.prepare cfg raw s c = .ok (after, result) ∧ result ≠ .failed :=
    Raw.prepare_granted grants valid
  rw [ran]
  cases result with
  | failed => exact absurd rfl ok
  | immediate => rfl
  | ready b => rfl

/-- States that are alike have the same memory to give and the same batches. -/
theorem Alike.granted {raw₂ : Raw.State} (alike : Alike raw raw₂) (grants : Grants c raw)
    (valid : Raw.Valid raw s) : Grants c raw₂ ∧ Raw.Valid raw₂ s := by
  refine ⟨⟨grants.slot, grants.entries, grants.box, grants.grow, alike.mem ▸ grants.free⟩, ?_⟩
  intro b held
  rw [alike.batch] at held
  rw [alike.mem]
  exact valid b held

/-- Calling `add` again. -/
theorem add_again {refusing : Alloc} (p : Ptr) (f : Reclaim) (alike : Alike raw raw')
    (absent : Absent raw) (user : Raw.userLevel (raw.stack t) = true)
    (err : refusesAdd cfg raw s refusing = true) (grants : Grants c raw) :
    refusesAdd cfg raw' s c = false ∧ ∃ after after',
      runCalls cfg t [.add s p f c] raw = .ok after ∧
        runCalls cfg t [.add s p f c] raw' = .ok after' ∧ after'.abstract = after.abstract := by
  obtain ⟨_, failed⟩ := refused_iff err
  have bumped : Absent { raw with nextRid := raw.nextRid + 1 } := absent
  have checked := Raw.prepare_valid bumped failed
  have valid : Raw.Valid raw s := checked
  obtain ⟨grants', valid'⟩ := Alike.granted alike grants valid
  have user' : Raw.userLevel (raw'.stack t) = true := by rw [alike.stack, user]
  -- Granted everything, the retirement succeeds before the failed call, and so after it.
  obtain ⟨after, _, ran, _⟩ : ∃ after newer, Raw.add cfg raw t s p f c = .ok after ∧
      after.log = newer ++ .retired raw.nextRid p f :: raw.log := Raw.add_granted p f grants valid
  obtain ⟨after', again, same⟩ := alike.add grants.slot ran
  refine ⟨?_, _, _, runCalls_add user ran, runCalls_add user' again, same⟩
  have grants'' : Grants c { raw' with nextRid := raw'.nextRid + 1 } :=
    ⟨grants'.slot, grants'.entries, grants'.box, grants'.grow, grants'.free⟩
  exact not_refused grants'' valid'

/-- Calling `reserve` again. -/
theorem reserve_again {refusing : Alloc} (alike : Alike raw raw') (absent : Absent raw)
    (user : Raw.userLevel (raw.stack t) = true)
    (err : refused (Raw.prepare cfg raw s refusing) = true) (grants : Grants c raw) :
    refused (Raw.prepare cfg raw' s c) = false ∧ ∃ after after',
      runCalls cfg t [.reserve s c] raw = .ok after ∧
        runCalls cfg t [.reserve s c] raw' = .ok after' ∧ after'.abstract = after.abstract := by
  obtain ⟨_, failed⟩ := refused_iff err
  have valid : Raw.Valid raw s := Raw.prepare_valid absent failed
  obtain ⟨grants', valid'⟩ := Alike.granted alike grants valid
  have user' : Raw.userLevel (raw'.stack t) = true := by rw [alike.stack, user]
  -- Granted everything, the reservation succeeds before the failed call, and so after it.
  obtain ⟨after, result, ran, _⟩ : ∃ after result,
      Raw.prepare cfg raw s c = .ok (after, result) ∧ result ≠ .failed :=
    Raw.prepare_granted grants valid
  obtain ⟨after', again, same⟩ := alike.prepare grants.slot ran
  exact ⟨not_refused grants' valid', _, _, runCalls_reserve user ran,
    runCalls_reserve user' again, same.abstract⟩

/-- Whether a call has to wait does not depend on the allocator. -/
theorem blocked_withMemory (err : returnsErr cfg st t action = true) :
    blocked st t (action.withMemory c) = blocked st t action := by
  cases action with
  | enterLocal | enterOwned | deferRetire | reserveRetire | retire | reserve =>
    simp [blocked, Action.withMemory, Action.inner]
  | _ => cases err

/-- A call of user code is made at user level. -/
theorem user_of_free (free : blocked st t action = false) (call : action.inner = none) :
    Raw.userLevel (st.raw.stack t) = true := by
  by_contra working
  simp [blocked, call, working] at free

/-- A guard that could be used can be used again. -/
theorem onBatch_again {g : Guard} {call : Raw.Action} {raw' : Raw.State} (ids' : Usage)
    (planned : Planned cfg st t action calls next) (is : action.onBatch = some (g, call))
    (stack : raw'.stack = st.raw.stack) :
    ∃ locks, ∀ again, onBatch st t g again = .ok ([again], { st with locks := locks }) ∧
      onBatch { st with raw := raw', ids := ids' } t g again =
        .ok ([again], { st with locks := locks, raw := raw', ids := ids' }) := by
  -- Whether a guard can be used depends on the guards and locks, which are the same.
  cases planned with
  | batchLocal is' member kind =>
    cases is.symm.trans is'
    have usable : st.usable t g = true := by simp [State.usable, member, kind]
    have usable' : ({ st with raw := raw', ids := ids' } : State).usable t g = true := usable
    exact ⟨st.locks, fun again => ⟨by simp [onBatch, usable, kind], by simp [onBatch, usable', kind]⟩⟩
  | batchOwned is' member kind free =>
    cases is.symm.trans is'
    have usable : st.usable t g = true := by simp [State.usable, member, kind]
    have usable' : ({ st with raw := raw', ids := ids' } : State).usable t g = true := usable
    have free' : ({ st with raw := raw', ids := ids' } : State).locked g.slot = false := free
    exact ⟨⟨t, (st.raw.stack t).length, g.slot⟩ :: st.locks, fun again =>
      ⟨by simp [onBatch, usable, kind, free], by simp [onBatch, usable', kind, free', stack]⟩⟩
  | nothing is' => rcases is' with rfl | ⟨reserved, rfl⟩ <;> cases is
  | thread is' =>
    cases action with
    | deferRetire | reserveRetire | flush => cases is'
    | _ => cases is
  | inner is' =>
    cases action with
    | deferRetire | reserveRetire | flush => cases is'
    | _ => cases is
  | _ => cases is

/-- Calling again with memory available succeeds, as if the call had been made at first. -/
theorem Spares.retry (spares : Spares cfg st st') (absent : Absent st.raw)
    (free : blocked st t action = false) (planned : Planned cfg st t action calls next)
    (recycled : action.recycles = true) (err : returnsErr cfg st t action = true)
    (grants : Grants c st.raw)
    (small : ∀ s alloc, action = .enterLocal alloc → st.thread t = some s →
      st.guards s + 1 < cfg.modulus)
    (back : ∀ s taken alloc reserved, action = .enterOwned alloc reserved →
      createThread cfg st.ids = some (s, taken) → st'.ids = freeThread taken true s) :
    returnsErr cfg st' t (action.withMemory c) = false ∧
      ∃ after after', step cfg st (t, action.withMemory c) = .ok after ∧
        step cfg st' (t, action.withMemory c) = .ok after' ∧ after'.abstract = after.abstract := by
  have free' : blocked st t (action.withMemory c) = false := by rw [blocked_withMemory err, free]
  obtain ⟨raw', ids', rfl⟩ : ∃ raw' ids', st' = { st with raw := raw', ids := ids' } :=
    ⟨_, _, spares.frame⟩
  have alike : Alike st.raw raw' := spares.alike
  have created : raw'.created = st.raw.created := spares.created
  have live : ids'.live = st.ids.live := congrArg Abstract.inUse spares.abstract
  have lost : ids'.lost = st.ids.lost := congrArg Abstract.lost spares.abstract
  have thread : ∀ {v}, st.thread t = some v →
      ({ st with raw := raw', ids := ids' } : State).thread t = some v := id
  cases action with
  | enterLocal alloc =>
    simp only [returnsErr] at err
    split at err
    · rename_i s mine
      have bounded := small s alloc rfl mine
      have first : plan cfg st t (.enterLocal true) =
          .ok (.create s :: (if st.guards s = 0 then [.enter s] else []), { st with
            guards := Function.update st.guards s (st.guards s + 1)
            live := ⟨st.nextName, .localTo t, s⟩ :: st.live
            nextName := st.nextName + 1 }) := by
        simp only [plan, mine, Bool.true_eq_false, and_false, if_false,
          if_neg (Nat.not_le.mpr bounded)]
      have second : plan cfg { st with raw := raw', ids := ids' } t (.enterLocal true) =
          .ok (.create s :: (if st.guards s = 0 then [.enter s] else []), { st with
            raw := raw'
            ids := ids'
            guards := Function.update st.guards s (st.guards s + 1)
            live := ⟨st.nextName, .localTo t, s⟩ :: st.live
            nextName := st.nextName + 1 }) := by
        simp only [plan, thread mine, Bool.true_eq_false, and_false, if_false,
          if_neg (Nat.not_le.mpr bounded)]
      obtain ⟨after, after', ran, again, same⟩ :=
        runCalls_enter alike created (user_of_free free rfl) (st.guards s = 0)
      refine ⟨by simp [returnsErr, Action.withMemory, thread mine], ?_⟩
      exact spares.again free' first second live lost ran again same
    · cases err
  | enterOwned alloc reserved =>
    simp only [returnsErr] at err
    split at err
    · rename_i s taken made
      -- The manager hands out the ID that went back.
      have made' : createThread cfg ids' = some (s, taken) := by
        rw [show ids' = freeThread taken true s from back s taken alloc reserved rfl made]
        exact createThread_again made
      have first : plan cfg st t (.enterOwned true reserved) =
          .ok ([.create s, .enter s], { st with
            ids := taken
            live := ⟨st.nextName, .owned, s⟩ :: st.live
            nextName := st.nextName + 1 }) := by
        simp only [plan, made, Bool.true_eq_false, and_false, if_false]
      have second : plan cfg { st with raw := raw', ids := ids' } t (.enterOwned true reserved) =
          .ok ([.create s, .enter s], { st with
            raw := raw'
            ids := taken
            live := ⟨st.nextName, .owned, s⟩ :: st.live
            nextName := st.nextName + 1 }) := by
        simp only [plan, made', Bool.true_eq_false, and_false, if_false]
      obtain ⟨after, after', ran, again, same⟩ :=
        runCalls_enter alike created (user_of_free free rfl) True
      refine ⟨by simp [returnsErr, Action.withMemory, made'], ?_⟩
      exact spares.again free' first second rfl rfl ran again same
    · cases err
  | retire p f refusing =>
    simp only [returnsErr] at err
    split at err
    · rename_i s mine
      obtain ⟨accepted, after, after', ran, again, same⟩ :=
        add_again p f alike absent (user_of_free free rfl) err grants
      have first : plan cfg st t (.retire p f c) = .ok ([.add s p f c], st) := by
        simp only [plan, mine]
      have second : plan cfg { st with raw := raw', ids := ids' } t (.retire p f c) =
          .ok ([.add s p f c], { st with raw := raw', ids := ids' }) := by
        simp only [plan, thread mine]
      refine ⟨by simp only [returnsErr, Action.withMemory, thread mine, accepted], ?_⟩
      exact spares.again free' first second live lost ran again same
    · cases err
  | reserve refusing =>
    simp only [returnsErr] at err
    split at err
    · rename_i s mine
      obtain ⟨accepted, after, after', ran, again, same⟩ :=
        reserve_again alike absent (user_of_free free rfl) err grants
      have first : plan cfg st t (.reserve c) = .ok ([.reserve s c], st) := by
        simp only [plan, mine]
      have second : plan cfg { st with raw := raw', ids := ids' } t (.reserve c) =
          .ok ([.reserve s c], { st with raw := raw', ids := ids' }) := by
        simp only [plan, thread mine]
      refine ⟨by simp only [returnsErr, Action.withMemory, thread mine, accepted], ?_⟩
      exact spares.again free' first second live lost ran again same
    · cases err
  | deferRetire g p f refusing =>
    obtain ⟨accepted, after, after', ran, again, same⟩ :=
      add_again p f alike absent (user_of_free free rfl) err grants
    obtain ⟨locks, both⟩ := onBatch_again ids' planned rfl alike.stack
    exact ⟨accepted, spares.again free' (both _).1 (both _).2 live lost ran again same⟩
  | reserveRetire g refusing =>
    obtain ⟨accepted, after, after', ran, again, same⟩ :=
      reserve_again alike absent (user_of_free free rfl) err grants
    obtain ⟨locks, both⟩ := onBatch_again ids' planned rfl alike.stack
    exact ⟨accepted, spares.again free' (both _).1 (both _).2 live lost ran again same⟩
  | _ => cases err

/-- An owned guard that could not be created gave its ID back. -/
theorem handed_back {alloc reserved : Bool} {taken : Usage}
    (recycled : (Action.enterOwned alloc reserved).recycles = true)
    (err : returnsErr cfg st t (.enterOwned alloc reserved) = true)
    (made : createThread cfg st.ids = some (s, taken))
    (ran : step cfg st (t, .enterOwned alloc reserved) = .ok st') :
    st'.ids = freeThread taken true s := by
  obtain ⟨calls, next, raw, _, _, planned, _, rfl⟩ := step_planned ran
  simp only at planned
  -- The call fails only if the reservation could not be allocated.
  cases planned with
  | refusedOwned made' =>
    cases made.symm.trans made'
    cases recycled
    rfl
  | enterOwned made' room =>
    cases made.symm.trans made'
    simp only [returnsErr, made, decide_eq_true_eq] at err
    rcases room with present | granted
    · exact absurd present err.1
    · rw [err.2] at granted
      cases granted
  | nothing is => simp at is
  | batchLocal is | batchOwned is | thread is | inner is => cases is

/-- An allocator that has a bucket and a vector to give, and then no box. -/
def unboxed : Alloc := ⟨true, true, false, true, 1, 0⟩

end Seize.Guards
