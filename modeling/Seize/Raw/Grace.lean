import Seize.Raw.Lives

/-!
Grace periods.

A slot whose activity period began before a scan is seen by that scan, then linked by the retirer,
and keeps the batch alive until the period ends.
-/

namespace Seize.Raw

variable {cfg : Config} {st st' : State} {t : Tid} {action : Action} {b : Addr} {batch : Batch}

/-- A slot is in an activity period that began before a given time. -/
def Old (st : State) (time : Nat) (v : SlotId) : Prop := st.Active v ∧ st.since v < time

/-- An entry is marked for a slot. -/
def MarkAt (mem : Addr → Option Batch) (b : Addr) (j : Nat) (v : SlotId) : Prop :=
  ∃ entry, entryIn mem ⟨b, j⟩ = some entry ∧ entry.state = .head (some v)

/-- Active slots are present, in range, and began their period in the past. -/
structure Periods (cfg : Config) (st : State) : Prop where
  present : ∀ v, st.Active v → v ∈ st.created
  past : ∀ v, st.Active v → st.since v < st.clock
  bounded : ∀ v ∈ st.created, v < cfg.slots

/-- What a linking loop has already done, or will still do, for a slot. -/
def LinkCover (st : State) (b : Addr) (marked i : Nat) (seen : Option (SlotId × Head))
    (v : SlotId) : Prop :=
  -- The slot's mark is still ahead, its head was just loaded, or an entry is on its list.
  (∃ j, (if seen.isSome then i + 1 else i) ≤ j ∧ j < marked ∧ MarkAt st.mem b j v) ∨
    (∃ first, seen = some (v, .list first)) ∨ ∃ j, (⟨b, j⟩ : EntryPtr) ∈ st.pushed v

/-- What a call in progress knows about the slots that were active when its scan began. -/
def FrameGrace (st : State) : Frame → Prop
  | .scan _ b start cursor marked => start < st.clock ∧
    ∀ v, Old st start v → v < cursor → ∃ j, j < marked ∧ MarkAt st.mem b j v
  | .link b marked i _ seen => ∀ batch time, st.mem b = some batch → batch.scanned = some time →
    time < st.clock ∧ ∀ v, Old st time v → LinkCover st b marked i seen v
  | _ => True

/-- What the stage of a batch says about the slots that were active when its scan began. -/
def StageGrace (st : State) (b : Addr) (batch : Batch) : Phase → Prop
  | .pending _ => batch.scanned = none
  | .retiring _ _ => ∃ time, batch.scanned = some time ∧ time < st.clock
  | .shared => ∃ time, batch.scanned = some time ∧ time < st.clock ∧
    ∀ v, Old st time v → ∃ j, (⟨b, j⟩ : EntryPtr) ∈ st.pushed v
  | .freeing _ _ => ∃ time, batch.scanned = some time ∧ time < st.clock ∧ ∀ v, ¬ Old st time v

/-- A reclaimer ran only after every slot that its scan could have seen has moved on. -/
def EventGrace (st : State) : Event → Prop
  | .reclaimed _ _ _ scanned => ∃ time, scanned = some time ∧ time < st.clock ∧ ∀ v, ¬ Old st time v
  | _ => True

/-- The grace-period invariant. -/
structure Grace (cfg : Config) (st : State) : Prop where
  periods : Periods cfg st
  frames : ∀ t height f, st.frame t height = some f → FrameGrace st f
  stages : ∀ b batch, st.mem b = some batch → StageGrace st b batch batch.phase
  events : ∀ event ∈ st.log, EventGrace st event
  /-- `reclaim_all` was never called. -/
  clear : ∀ s, st.batch s ≠ .drop
  outside : ∀ t height f, st.frame t height = some f → f.iteration = none

/-- From one state to the next, periods end or begin, and never grow older. -/
structure Older (st st' : State) : Prop where
  clock : st'.clock = st.clock + 1
  old : ∀ time v, time ≤ st.clock → Old st' time v → Old st time v
  /-- The list of a slot grows while its period lasts. -/
  lists : ∀ time v, time ≤ st.clock → Old st' time v → st.pushed v ⊆ st'.pushed v

/-- A step that leaves the slots alone. -/
theorem Older.same (clock : st'.clock = st.clock + 1) (head : st'.head = st.head)
    (since : st'.since = st.since) (pushed : st'.pushed = st.pushed) : Older st st' := by
  refine ⟨clock, ?_, ?_⟩
  · intro time v _ old
    simpa [Old, State.Active, head, since] using old
  · intro time v _ _
    rw [pushed]
    exact List.Subset.refl _

/-- A step that ends the period of one slot, or begins a new one there. -/
theorem Older.restart {s : SlotId} {head : Head} (clock : st'.clock = st.clock + 1)
    (heads : st'.head = Function.update st.head s head)
    (since : ∀ v, v ≠ s → st'.since v = st.since v)
    (begun : head = .inactive ∨ st'.since s = st.clock)
    (pushed : ∀ v, v ≠ s → st'.pushed v = st.pushed v) : Older st st' := by
  -- Whatever is old now is another slot.
  have other : ∀ time v, time ≤ st.clock → Old st' time v → v ≠ s := by
    intro time v early old same
    subst same
    obtain ⟨active, before⟩ := old
    rcases begun with inactive | now
    · rw [State.Active, heads, Function.update_self] at active
      exact active inactive
    · omega
  refine ⟨clock, ?_, ?_⟩
  · intro time v early old
    have differs := other time v early old
    simpa [Old, State.Active, heads, Function.update_of_ne differs, since v differs] using old
  · intro time v early old
    rw [pushed v (other time v early old)]
    exact List.Subset.refl _

/-- Linking an entry to an active slot. -/
theorem Older.publish {s : SlotId} {prev : Option EntryPtr} {e : EntryPtr}
    (clock : st'.clock = st.clock + 1) (active : st.head s = .list prev)
    (heads : st'.head = Function.update st.head s (.list (some e))) (since : st'.since = st.since)
    (pushed : st'.pushed = Function.update st.pushed s (e :: st.pushed s)) : Older st st' := by
  -- Linking an entry begins and ends no period.
  refine ⟨clock, ?_, ?_⟩
  · intro time v _ old
    by_cases here : v = s
    · subst here
      refine ⟨by simp [State.Active, active], ?_⟩
      rw [← since]
      exact old.2
    · simpa [Old, State.Active, heads, Function.update_of_ne here, since] using old
  · intro time v _ _
    rw [pushed]
    by_cases here : v = s
    · subst here
      simp
    · simp [Function.update_of_ne here]

/-- No step makes a slot older. -/
theorem Move.older (moved : Move cfg st t action st') : Older st (tick st') := by
  -- Preparations touch no period.
  have prepared : ∀ {s : SlotId} {st₁ st₂ : State},
      Prep cfg s { st with nextRid := st.nextRid + 1 } st₁ → st₂.clock = st₁.clock →
      st₂.head = st₁.head → st₂.since = st₁.since → st₂.pushed = st₁.pushed → Older st (tick st₂) := by
    intro s st₁ st₂ prep clock head since pushed
    obtain ⟨_, head₁, pushed₁, _, since₁, _, clock₁, _⟩ := prep.same
    refine .same ?_ (head.trans head₁) (since.trans since₁) (pushed.trans pushed₁)
    show st₂.clock + 1 = _
    rw [clock, clock₁]
  -- A period that begins is younger than everything so far.
  have begun : ∀ {s : SlotId} {st₂ : State}, st₂.clock = st.clock →
      st₂.head = Function.update st.head s (.list none) →
      st₂.since = Function.update st.since s st.clock →
      st₂.pushed = Function.update st.pushed s [] → Older st (tick st₂) := by
    intro s st₂ clock heads since pushed
    refine .restart (congrArg (· + 1) clock) heads (fun v other => ?_) (.inr ?_) fun v other => ?_
    · simp [tick, since, Function.update_of_ne other]
    · simp [tick, since]
    · simp [tick, pushed, Function.update_of_ne other]
  -- A slot whose period has ended has no old period.
  have ended : ∀ {s : SlotId} {st₂ : State}, st₂.clock = st.clock →
      st₂.head = Function.update st.head s .inactive → st₂.since = st.since →
      st₂.pushed = Function.update st.pushed s [] → Older st (tick st₂) := by
    intro s st₂ clock heads since pushed
    refine .restart (congrArg (· + 1) clock) heads (fun v _ => ?_) (.inl rfl) fun v other => ?_
    · simp [tick, since]
    · simp [tick, pushed, Function.update_of_ne other]
  cases moved with
  | enter => exact begun rfl rfl rfl rfl
  | leaveIdle => exact ended rfl rfl rfl rfl
  | leave => exact ended rfl rfl rfl rfl
  | refreshIdle => exact begun rfl rfl rfl rfl
  | refresh => exact begun rfl rfl rfl rfl
  | refused _ prep => exact prepared prep rfl rfl rfl rfl
  | immediate _ prep => exact prepared prep rfl rfl rfl rfl
  | pushed _ prep => exact prepared prep rfl rfl rfl rfl
  | filled _ prep => exact prepared prep rfl rfl rfl rfl
  | reserve _ prep =>
    obtain ⟨_, head, pushed, _, since, _, clock, _⟩ := prep.same
    exact .same (congrArg (· + 1) clock) head since pushed
  | publish _ _ _ active => exact .publish rfl active rfl rfl rfl
  | known | create | flushNone | flush | reclaimAll | access | ret | panic | skipScan | skipReclaim
  | commit | pass | mark | abort | addFree | addShare | load | gone | retry | done | releaseFree
  | releaseCount | invoke | dealloc | finish | next | take | takeWrong | reset =>
    exact .same rfl rfl rfl rfl

/-- The rule for steps after which a slot was active before, or begins its period now. -/
theorem Periods.keep (periods : Periods cfg st) (clock : st'.clock = st.clock + 1)
    (created : st'.created = st.created)
    (active : ∀ v, st'.Active v →
      (st.Active v ∧ st'.since v = st.since v) ∨ (v ∈ st.created ∧ st'.since v = st.clock)) :
    Periods cfg st' := by
  -- A slot was active before, or becomes active now.
  refine ⟨?_, ?_, ?_⟩
  · intro v now
    rw [created]
    rcases active v now with ⟨before, _⟩ | ⟨present, _⟩
    · exact periods.present v before
    · exact present
  · intro v now
    rcases active v now with ⟨before, same⟩ | ⟨_, same⟩
    · have := periods.past v before
      omega
    · omega
  · rw [created]
    exact periods.bounded

/-- Steps that leave heads and times alone. -/
theorem Periods.same (periods : Periods cfg st) (clock : st'.clock = st.clock + 1)
    (created : st'.created = st.created) (head : st'.head = st.head) (since : st'.since = st.since) :
    Periods cfg st' := by
  refine periods.keep clock created fun v now => .inl ⟨?_, by rw [since]⟩
  simpa [State.Active, head] using now

/-- The periods of slots after a permitted move. -/
theorem Move.periods (moved : Move cfg st t action st') (access : Access cfg st (t, action))
    (periods : Periods cfg st) : Periods cfg (tick st') := by
  have clock := moved.older.clock
  have prepared : ∀ {s : SlotId} {st₁ st₂ : State},
      Prep cfg s { st with nextRid := st.nextRid + 1 } st₁ → (tick st₂).clock = st.clock + 1 →
      st₂.created = st₁.created → st₂.head = st₁.head → st₂.since = st₁.since →
      Periods cfg (tick st₂) := by
    intro s st₁ st₂ prep now created head since
    obtain ⟨_, head₁, _, created₁, since₁, _⟩ := prep.same
    exact periods.same now (created.trans created₁) (head.trans head₁) (since.trans since₁)
  -- A slot that is entered or refreshed begins its period now.
  have begun : ∀ {s : SlotId} {head : Head} {st₂ : State}, (tick st₂).clock = st.clock + 1 →
      st₂.created = st.created → s ∈ st.created → st₂.head = Function.update st.head s head →
      st₂.since = Function.update st.since s st.clock → Periods cfg (tick st₂) := by
    intro s head st₂ now created present heads since
    refine periods.keep now created fun v active => ?_
    by_cases here : v = s
    · subst here
      exact .inr ⟨present, by simp [tick, since]⟩
    · refine .inl ⟨?_, by simp [tick, since, Function.update_of_ne here]⟩
      simpa [State.Active, tick, heads, Function.update_of_ne here] using active
  -- A slot that is left is not active.
  have ended : ∀ {s : SlotId} {st₂ : State}, (tick st₂).clock = st.clock + 1 →
      st₂.created = st.created → st₂.head = Function.update st.head s .inactive →
      st₂.since = st.since → Periods cfg (tick st₂) := by
    intro s st₂ now created heads since
    refine periods.keep now created fun v active => ?_
    by_cases here : v = s
    · subst here
      simp [State.Active, tick, heads] at active
    · refine .inl ⟨?_, by simp [tick, since]⟩
      simpa [State.Active, tick, heads, Function.update_of_ne here] using active
  cases moved with
  | @create s user absent =>
    refine ⟨?_, ?_, ?_⟩
    · intro v active
      exact List.mem_cons_of_mem _ (periods.present v active)
    · intro v active
      exact Nat.lt_succ_of_lt (periods.past v active)
    · intro v member
      rcases List.mem_cons.mp member with rfl | old
      · exact access
      · exact periods.bounded v old
  | enter => exact begun clock rfl access rfl rfl
  | leaveIdle => exact ended clock rfl rfl rfl
  | leave => exact ended clock rfl rfl rfl
  | refreshIdle => exact begun clock rfl access rfl rfl
  | refresh => exact begun clock rfl access rfl rfl
  | refused _ prep => exact prepared prep clock rfl rfl rfl
  | immediate _ prep => exact prepared prep clock rfl rfl rfl
  | pushed _ prep => exact prepared prep clock rfl rfl rfl
  | filled _ prep => exact prepared prep clock rfl rfl rfl
  | reserve _ prep =>
    obtain ⟨_, head, _, created, since, _⟩ := prep.same
    exact periods.same clock created head since
  | @publish b marked i active s prev below batch spurious top stored more same =>
    refine periods.keep clock rfl fun v now => .inl ⟨?_, rfl⟩
    by_cases here : v = s
    · subst here
      simp [State.Active, same]
    · simpa [State.Active, tick, State.setStack, State.setBatch, Function.update_of_ne here] using now
  | known | flushNone | flush | reclaimAll | access | ret | panic | skipScan | skipReclaim | commit
  | pass | mark | abort | addFree | addShare | load | gone | retry | done | releaseFree
  | releaseCount | invoke | dealloc | finish | next | take | takeWrong | reset =>
    exact periods.same clock rfl rfl rfl

/-- A batch keeps its marks and the time of its scan. -/
structure BatchKept (mem mem' : Addr → Option Batch) (b : Addr) : Prop where
  marks : ∀ j v, MarkAt mem b j v → MarkAt mem' b j v
  scanned : ∀ batch', mem' b = some batch' →
    ∃ batch, mem b = some batch ∧ batch'.scanned = batch.scanned

/-- A batch that is not written is kept. -/
theorem BatchKept.same {mem mem' : Addr → Option Batch} (same : mem' b = mem b) :
    BatchKept mem mem' b := by
  refine ⟨?_, fun batch' stored => ⟨batch', same ▸ stored, rfl⟩⟩
  intro j v mark
  obtain ⟨entry, read, state⟩ := mark
  exact ⟨entry, by simpa [entryIn, same] using read, state⟩

/-- A batch is kept when the union fields of its entries are. -/
theorem BatchKept.update {mem mem' : Addr → Option Batch} {batch' : Batch} {b₁ : Addr}
    (stored : mem b = some batch) (memory : mem' = Function.update mem b (some batch'))
    (scanned : batch'.scanned = batch.scanned)
    (states : ∀ (j : Nat) (entry : Entry), batch.entries[j]? = some entry →
      ∃ entry' : Entry, batch'.entries[j]? = some entry' ∧ entry'.state = entry.state) :
    BatchKept mem mem' b₁ := by
  -- Marks stay where they are, and so does the time of the scan.
  subst memory
  by_cases here : b₁ = b
  · subst here
    refine ⟨fun j v mark => ?_, fun batch₂ stored₂ => ?_⟩
    · obtain ⟨entry, read, state⟩ := mark
      rw [entryIn_eq (e := ⟨b₁, j⟩) stored] at read
      obtain ⟨entry', read', same⟩ := states j entry read
      refine ⟨entry', ?_, same.trans state⟩
      simpa [entryIn] using read'
    · rw [Function.update_self] at stored₂
      cases stored₂
      exact ⟨batch, stored, scanned⟩
  · exact .same (Function.update_of_ne here _ _)

/-- A write to a batch keeps the time of its scan. -/
theorem scanned_update {mem : Addr → Option Batch} {new : Batch} (stored : mem b = some batch)
    (scanned : new.scanned = batch.scanned) : ∀ batch', Function.update mem b (some new) b = some batch' →
      ∃ batch, mem b = some batch ∧ batch'.scanned = batch.scanned := by
  intro batch' stored'
  rw [Function.update_self] at stored'
  cases stored'
  exact ⟨batch, stored, scanned⟩

/-- Pushing entries to a batch keeps those that are there. -/
theorem BatchKept.push {mem : Addr → Option Batch} {more : List Entry} {b₁ : Addr}
    (stored : mem b = some batch) :
    BatchKept mem (Function.update mem b (some { batch with entries := batch.entries ++ more })) b₁ := by
  refine .update stored rfl rfl fun j entry read => ⟨entry, ?_, rfl⟩
  rw [List.getElem?_append_left (List.getElem?_eq_some_iff.mp read).1]
  exact read

/-- Releasing an entry writes no union field. -/
theorem release_states (batch : Batch) (i : Nat) (j : Nat) (entry : Entry)
    (read : batch.entries[j]? = some entry) :
    ∃ entry' : Entry, (batch.setLink i .released).entries[j]? = some entry' ∧
      entry'.state = entry.state := by
  rw [Batch.setLink_get, read]
  refine ⟨_, rfl, ?_⟩
  split <;> rfl

/-- Keeping composes. -/
theorem BatchKept.trans {mem mem₁ mem₂ : Addr → Option Batch} (first : BatchKept mem mem₁ b)
    (second : BatchKept mem₁ mem₂ b) : BatchKept mem mem₂ b := by
  refine ⟨fun j v mark => second.marks j v (first.marks j v mark), fun batch₂ stored₂ => ?_⟩
  obtain ⟨batch₁, stored₁, same₁⟩ := second.scanned batch₂ stored₂
  obtain ⟨batch, stored, same⟩ := first.scanned batch₁ stored₁
  exact ⟨batch, stored, same₁.trans same⟩

/-- Preparing a slot keeps the batches that are there. -/
theorem Grows.batchKept {s : SlotId} {mem mem' : Addr → Option Batch} (grows : Grows s mem mem')
    (stored : mem b = some batch) : BatchKept mem mem' b := by
  obtain ⟨batch', stored', same⟩ := grows.kept b batch stored
  refine ⟨fun j v mark => ?_, fun batch₂ stored₂ => ?_⟩
  · obtain ⟨entry, read, state⟩ := mark
    rw [entryIn_eq (e := ⟨b, j⟩) stored] at read
    exact ⟨entry, by rw [entryIn_eq (e := ⟨b, j⟩) stored', same.entries, read], state⟩
  · obtain rfl : batch' = batch₂ := Option.some.inj (stored'.symm.trans stored₂)
    exact ⟨batch, stored, same.scanned⟩

/-- What a frame knows survives a step that keeps its batch. -/
theorem FrameGrace.keep {f : Frame} (older : Older st st')
    (kept : ∀ b, f.batchOf = some b → BatchKept st.mem st'.mem b) (ok : FrameGrace st f) :
    FrameGrace st' f := by
  have clock := older.clock
  -- An old period is as old as before, and its mark stays in the batch.
  cases f with
  | scan s b start cursor marked =>
    obtain ⟨early, marks⟩ := ok
    refine ⟨by omega, fun v old lower => ?_⟩
    obtain ⟨j, small, mark⟩ := marks v (older.old start v (by omega) old) lower
    exact ⟨j, small, (kept b rfl).marks j v mark⟩
  | link b marked i active seen =>
    intro batch' time stored' scanned'
    obtain ⟨batch, stored, same⟩ := (kept b rfl).scanned batch' stored'
    obtain ⟨early, cover⟩ := ok batch time stored (same ▸ scanned')
    refine ⟨by omega, fun v old => ?_⟩
    have early : time ≤ st.clock := by omega
    rcases cover v (older.old time v early old) with ⟨j, low, high, mark⟩ | loaded | ⟨j, member⟩
    · exact .inl ⟨j, low, high, (kept b rfl).marks j v mark⟩
    · exact .inr (.inl loaded)
    · exact .inr (.inr ⟨j, older.lists time v early old member⟩)
  | reclaimer => trivial
  | traverse => trivial
  | freeBatch => trivial
  | reclaimAll => trivial
  | reclaimReset => trivial

/-- What a stage says survives a step that keeps the stage. -/
theorem StageGrace.keep {batch' : Batch} {phase : Phase} (older : Older st st')
    (scanned : batch'.scanned = batch.scanned) (ok : StageGrace st b batch phase) :
    StageGrace st' b batch' phase := by
  have clock := older.clock
  -- What is old now was old before.
  cases phase with
  | pending s => exact scanned.trans ok
  | retiring t height =>
    obtain ⟨time, at_, early⟩ := ok
    exact ⟨time, scanned.trans at_, by omega⟩
  | shared =>
    obtain ⟨time, at_, early, linked⟩ := ok
    refine ⟨time, scanned.trans at_, by omega, fun v old => ?_⟩
    have early : time ≤ st.clock := by omega
    obtain ⟨j, member⟩ := linked v (older.old time v early old)
    exact ⟨j, older.lists time v early old member⟩
  | freeing t height =>
    obtain ⟨time, at_, early, none_⟩ := ok
    refine ⟨time, scanned.trans at_, by omega, fun v old => ?_⟩
    exact none_ v (older.old time v (by omega) old)

/-- What an event says survives every step. -/
theorem EventGrace.keep {event : Event} (older : Older st st') (ok : EventGrace st event) :
    EventGrace st' event := by
  have clock := older.clock
  cases event with
  | reclaimed rid p f scanned =>
    obtain ⟨time, at_, early, none_⟩ := ok
    exact ⟨time, at_, by omega, fun v old => none_ v (older.old time v (by omega) old)⟩
  | retired => trivial
  | refused => trivial
  | committed => trivial
  | counted => trivial
  | freed => trivial

/-- The frames of a state are old ones whose batch is kept, or know what they have to. -/
def FramesGrace (st st' : State) : Prop :=
  ∀ t height f, st'.frame t height = some f →
    (st.frame t height = some f ∧ ∀ b, f.batchOf = some b → BatchKept st.mem st'.mem b) ∨
      (FrameGrace st' f ∧ f.iteration = none)

/-- Stages of a state that are old ones, or say what they have to. -/
def StagesGrace (st st' : State) : Prop :=
  ∀ b batch', st'.mem b = some batch' →
    (∃ batch, st.mem b = some batch ∧ batch'.scanned = batch.scanned ∧ batch'.phase = batch.phase) ∨
      StageGrace st' b batch' batch'.phase

/-- The events of a state are old ones, or say what they have to. -/
def EventsGrace (st st' : State) : Prop := ∀ event ∈ st'.log, event ∈ st.log ∨ EventGrace st' event

/-- The rule for a step: only new frames, new stages and new events have to be looked at. -/
theorem Grace.keep (grace : Grace cfg st) (older : Older st st') (periods : Periods cfg st')
    (frames : FramesGrace st st') (stages : StagesGrace st st') (events : EventsGrace st st')
    (clear : ∀ s, st'.batch s ≠ .drop) : Grace cfg st' where
  periods := periods
  -- What the step does not concern only grows older.
  frames := by
    intro t height f found
    rcases frames t height f found with ⟨old, kept⟩ | ⟨ok, _⟩
    · exact (grace.frames t height f old).keep older kept
    · exact ok
  stages := by
    intro b batch' stored'
    rcases stages b batch' stored' with ⟨batch, stored, scanned, phase⟩ | ok
    · rw [phase]
      exact (grace.stages b batch stored).keep older scanned
    · exact ok
  events := by
    intro event member
    rcases events event member with old | ok
    · exact (grace.events event old).keep older
    · exact ok
  clear := clear
  outside := by
    intro t height f found
    rcases frames t height f found with ⟨old, _⟩ | ⟨_, none_⟩
    · exact grace.outside t height f old
    · exact none_

/-- A state whose stacks are the same. -/
theorem FramesGrace.same (stack : st'.stack = st.stack)
    (kept : ∀ t height f b, st.frame t height = some f → f.batchOf = some b →
      BatchKept st.mem st'.mem b) : FramesGrace st st' := by
  intro t height f found
  rw [State.frame, stack] at found
  exact .inl ⟨found, fun b named => kept t height f b found named⟩

/-- A call. -/
theorem FramesGrace.call {f : Frame} (stack : st'.stack = Function.update st.stack t (f :: st.stack t))
    (kept : ∀ t height f b, st.frame t height = some f → f.batchOf = some b →
      BatchKept st.mem st'.mem b)
    (new : FrameGrace st' f) (plain : f.iteration = none) : FramesGrace st st' := by
  intro t' height g found
  rcases State.frame_call stack found with ⟨_, _, rfl⟩ | old
  · exact .inr ⟨new, plain⟩
  · exact .inl ⟨old, fun b named => kept t' height g b old named⟩

/-- A step of the innermost call. -/
theorem FramesGrace.top {f : Frame} (fs : List Frame) {below : List Frame}
    (top : st.stack t = f :: below)
    (stack : st'.stack = Function.update st.stack t (fs ++ below))
    (kept : ∀ t' height g b, st.frame t' height = some g → (t' = t → height < below.length) →
      g.batchOf = some b → BatchKept st.mem st'.mem b)
    (new : ∀ g ∈ fs, FrameGrace st' g ∧ g.iteration = none) : FramesGrace st st' := by
  intro t' height g found
  rcases State.frame_replace fs top stack found with ⟨rfl, high, there⟩ | ⟨old, low⟩
  · exact .inr (new g (mem_of_frameAt_high high there))
  · exact .inl ⟨old, fun b named => kept t' height g b old low named⟩

/-- Memory that is not written. -/
theorem StagesGrace.same (memory : st'.mem = st.mem) : StagesGrace st st' :=
  fun _ batch' stored => .inl ⟨batch', memory ▸ stored, rfl, rfl⟩

/-- A write to one batch that keeps its stage. -/
theorem StagesGrace.update {batch' : Batch} (stored : st.mem b = some batch)
    (memory : st'.mem = Function.update st.mem b (some batch'))
    (scanned : batch'.scanned = batch.scanned) (phase : batch'.phase = batch.phase) :
    StagesGrace st st' := by
  intro b₁ batch₁ stored₁
  rw [memory] at stored₁
  rcases stored_update stored₁ with ⟨rfl, new⟩ | ⟨_, old⟩
  · cases new
    exact .inl ⟨batch, stored, scanned, phase⟩
  · exact .inl ⟨batch₁, old, rfl, rfl⟩

/-- A batch moves to another stage. -/
theorem StagesGrace.restage {batch' : Batch}
    (memory : st'.mem = Function.update st.mem b (some batch'))
    (ok : StageGrace st' b batch' batch'.phase) : StagesGrace st st' := by
  intro b₁ batch₁ stored₁
  rw [memory] at stored₁
  rcases stored_update stored₁ with ⟨rfl, new⟩ | ⟨_, old⟩
  · cases new
    exact .inr ok
  · exact .inl ⟨batch₁, old, rfl, rfl⟩

/-- Preparing a slot and pushing an entry keep every stage. -/
theorem StagesGrace.prepared {s : SlotId} (grows : Grows s st.mem st'.mem) : StagesGrace st st' := by
  intro b batch' stored'
  rcases grows.new b batch' stored' with ⟨batch, stored, same⟩ | ⟨_, _, none_, phase⟩
  · exact .inl ⟨batch, stored, same.scanned, same.phase⟩
  · refine .inr ?_
    rw [phase]
    exact none_

/-- Pushing an entry after preparing a slot keeps every stage. -/
theorem StagesGrace.pushed {s : SlotId} {mem : Addr → Option Batch} {entries : List Entry}
    (grows : Grows s st.mem mem) (stored : mem b = some batch)
    (memory : st'.mem = Function.update mem b (some { batch with entries := entries })) :
    StagesGrace st st' := by
  intro b₁ batch₁ stored₁
  rw [memory] at stored₁
  -- Pushing an entry changes neither the time nor the phase.
  have middle : ∃ before, mem b₁ = some before ∧ batch₁.scanned = before.scanned ∧
      batch₁.phase = before.phase := by
    rcases stored_update stored₁ with ⟨rfl, new⟩ | ⟨_, old⟩
    · cases new
      exact ⟨batch, stored, rfl, rfl⟩
    · exact ⟨batch₁, old, rfl, rfl⟩
  obtain ⟨before, was, scanned, phase⟩ := middle
  rcases grows.new b₁ before was with ⟨first, atFirst, same⟩ | ⟨_, _, none_, pending⟩
  · exact .inl ⟨first, atFirst, scanned.trans same.scanned, phase.trans same.phase⟩
  · refine .inr ?_
    rw [phase, pending]
    exact scanned.trans none_

/-- A list that holds an entry of a batch keeps it from being freed. -/
theorem Inv.not_freeing (inv : Inv cfg st) {height j : Nat} {v : SlotId} {t' : Tid}
    (stored : st.mem b = some batch) (phase : batch.phase = .freeing t' height) :
    (⟨b, j⟩ : EntryPtr) ∉ st.pushed v := by
  intro member
  obtain ⟨entry, read, linked⟩ := inv.lists.listed (.slot v) _ member
  rw [entryIn_eq (e := ⟨b, j⟩) stored] at read
  have some_ := Batch.linkedNow_pos read linked
  have ok := inv.phases b batch stored
  rw [phase] at ok
  have none_ : batch.linkedNow = 0 := ok
  omega

/-- At its addition, a retirer has linked an entry to every slot that was active before its scan. -/
theorem Grace.linked (grace : Grace cfg st) (inv : Inv cfg st) {marked i active : Nat}
    {seen : Option (SlotId × Head)} {below : List Frame}
    (top : st.stack t = .link b marked i active seen :: below) (stored : st.mem b = some batch)
    (finished : marked ≤ i) :
    ∃ time, batch.scanned = some time ∧ time < st.clock ∧
      ∀ v, Old st time v → ∃ j, (⟨b, j⟩ : EntryPtr) ∈ st.pushed v := by
  obtain ⟨batch₀, stored₀, phase, linking⟩ := inv.frames t below.length _ (State.frame_top top)
  obtain rfl : batch = batch₀ := Option.some.inj (stored.symm.trans stored₀)
  have stage := grace.stages b batch stored
  rw [phase] at stage
  obtain ⟨time, scanned, early⟩ := stage
  refine ⟨time, scanned, early, fun v old => ?_⟩
  have cover := (grace.frames t below.length _ (State.frame_top top) batch time stored scanned).2 v old
  rcases cover with ⟨j, low, high, _⟩ | ⟨first, loaded⟩ | linked
  · -- No mark is ahead of a loop that has ended.
    split at low <;> omega
  · have := linking.inLoop (by simp [loaded])
    omega
  · exact linked

section Frames

variable {s v : SlotId} {start cursor marked i active : Nat}

/-- A scan that marks an entry for an active slot has marked one for every slot it has passed. -/
theorem scan_marks (stored : st.mem b = some batch) (room : marked < batch.entries.length)
    (memory : st'.mem = Function.update st.mem b (some (batch.setState marked (.head (some cursor)))))
    (marks : v < cursor → ∃ j, j < marked ∧ MarkAt st.mem b j v) (lower : v < cursor + 1) :
    ∃ j, j < marked + 1 ∧ MarkAt st'.mem b j v := by
  have stored' : st'.mem b = some (batch.setState marked (.head (some cursor))) := by
    rw [memory, Function.update_self]
  by_cases seen : v < cursor
  · -- Earlier marks are at smaller indices.
    obtain ⟨j, small, entry, read, state⟩ := marks seen
    rw [entryIn_eq (e := ⟨b, j⟩) stored] at read
    refine ⟨j, by omega, entry, ?_, state⟩
    rw [entryIn_eq (e := ⟨b, j⟩) stored', Batch.setState_get, read]
    simp [Nat.ne_of_gt small]
  · obtain rfl : v = cursor := Nat.le_antisymm (Nat.le_of_lt_succ lower) (Nat.le_of_not_lt seen)
    refine ⟨marked, by omega, { batch.entries[marked] with state := .head (some v) }, ?_, rfl⟩
    rw [entryIn_eq (e := ⟨b, marked⟩) stored', Batch.setState_get]
    simp [room]

/-- The head of an active slot is a list. -/
theorem State.Active.list (isActive : st.Active v) : ∃ first, st.head v = .list first := by
  cases value : st.head v with
  | inactive => exact absurd value isActive
  | list first => exact ⟨first, rfl⟩

/-- Writing the entry at hand spoils no mark that is still ahead. -/
theorem MarkAt.ahead {j : Nat} {batch' : Batch} (stored : st.mem b = some batch)
    (others : ∀ j, j ≠ i → batch'.entries[j]? = batch.entries[j]?) (ahead : i + 1 ≤ j)
    (mark : MarkAt st.mem b j v) : MarkAt (Function.update st.mem b (some batch')) b j v := by
  obtain ⟨entry, read, state⟩ := mark
  refine ⟨entry, ?_, state⟩
  rw [entryIn_eq (e := ⟨b, j⟩) stored] at read
  rw [entryIn_update, if_pos rfl]
  exact (others j (by omega)).trans read

/-- The linking loop loads the head of the slot that its next entry is marked for. -/
theorem LinkCover.load {entry : Entry} (memory : st'.mem = st.mem)
    (stored : st.mem b = some batch) (found : batch.entries[i]? = some entry)
    (state : entry.state = .head (some s)) (isActive : st.Active v)
    (lists : st.pushed v ⊆ st'.pushed v) (cover : LinkCover st b marked i none v) :
    LinkCover st' b marked i (some (s, st.head s)) v := by
  rcases cover with ⟨j, low, high, mark⟩ | ⟨first, loaded⟩ | ⟨j, member⟩
  · by_cases this : j = i
    · -- The mark that is being used names this slot, whose head is a list.
      subst this
      obtain ⟨entry', read, state'⟩ := mark
      rw [entryIn_eq (e := ⟨b, j⟩) stored, found] at read
      cases read
      rw [state] at state'
      cases state'
      obtain ⟨first, value⟩ := isActive.list
      exact .inr (.inl ⟨first, by rw [value]⟩)
    · refine .inl ⟨j, ?_, high, memory ▸ mark⟩
      simp only [Option.isSome_none, Option.isSome_some, if_true] at low ⊢
      have : i ≤ j := low
      omega
  · cases loaded
  · exact .inr (.inr ⟨j, lists member⟩)

/-- The linking loop leaves out a slot whose period has ended. -/
theorem LinkCover.gone (memory : st'.mem = st.mem) (lists : st.pushed v ⊆ st'.pushed v)
    (cover : LinkCover st b marked i (some (s, .inactive)) v) :
    LinkCover st' b marked (i + 1) none v := by
  rcases cover with ⟨j, low, high, mark⟩ | ⟨first, loaded⟩ | ⟨j, member⟩
  · exact .inl ⟨j, low, high, memory ▸ mark⟩
  · cases loaded
  · exact .inr (.inr ⟨j, lists member⟩)

/-- A published entry covers its slot. -/
theorem LinkCover.publish {prev : Option EntryPtr} {batch' : Batch}
    (stored : st.mem b = some batch) (memory : st'.mem = Function.update st.mem b (some batch'))
    (others : ∀ j, j ≠ i → batch'.entries[j]? = batch.entries[j]?)
    (linked : (⟨b, i⟩ : EntryPtr) ∈ st'.pushed s) (lists : st.pushed v ⊆ st'.pushed v)
    (cover : LinkCover st b marked i (some (s, .list prev)) v) :
    LinkCover st' b marked (i + 1) none v := by
  rcases cover with ⟨j, low, high, mark⟩ | ⟨first, loaded⟩ | ⟨j, member⟩
  · refine .inl ⟨j, low, high, ?_⟩
    rw [memory]
    exact mark.ahead stored others low
  · cases loaded
    exact .inr (.inr ⟨i, linked⟩)
  · exact .inr (.inr ⟨j, lists member⟩)

/-- A failed compare-exchange loads the head again. -/
theorem LinkCover.retry {prev : Option EntryPtr} {batch' : Batch}
    (stored : st.mem b = some batch) (memory : st'.mem = Function.update st.mem b (some batch'))
    (others : ∀ j, j ≠ i → batch'.entries[j]? = batch.entries[j]?) (isActive : st.Active v)
    (lists : st.pushed v ⊆ st'.pushed v)
    (cover : LinkCover st b marked i (some (s, .list prev)) v) :
    LinkCover st' b marked i (some (s, st.head s)) v := by
  rcases cover with ⟨j, low, high, mark⟩ | ⟨first, loaded⟩ | ⟨j, member⟩
  · refine .inl ⟨j, low, high, ?_⟩
    rw [memory]
    exact mark.ahead stored others low
  · -- The slot is still active, so its head is a list.
    cases loaded
    obtain ⟨first, value⟩ := isActive.list
    exact .inr (.inl ⟨first, by rw [value]⟩)
  · exact .inr (.inr ⟨j, lists member⟩)

/-- A scan may pass slots that are not active. -/
theorem scan_pass_grace {target : Nat} (older : Older st st') (kept : BatchKept st.mem st'.mem b)
    (idle : ∀ v, cursor ≤ v → v < target → ¬ st.Active v)
    (ok : FrameGrace st (.scan s b start cursor marked)) :
    FrameGrace st' (.scan s b start target marked) := by
  have clock := older.clock
  obtain ⟨early, marks⟩ := ok
  refine ⟨by omega, fun v old lower => ?_⟩
  have before := older.old start v (by omega) old
  by_cases seen : v < cursor
  · obtain ⟨j, small, mark⟩ := marks v before seen
    exact ⟨j, small, kept.marks j v mark⟩
  · exact absurd before.1 (idle v (Nat.le_of_not_lt seen) lower)

/-- A scan marks an entry for an active slot. -/
theorem scan_mark_grace (older : Older st st') (stored : st.mem b = some batch)
    (room : marked < batch.entries.length)
    (memory : st'.mem = Function.update st.mem b (some (batch.setState marked (.head (some cursor)))))
    (ok : FrameGrace st (.scan s b start cursor marked)) :
    FrameGrace st' (.scan s b start (cursor + 1) (marked + 1)) := by
  have clock := older.clock
  obtain ⟨early, marks⟩ := ok
  refine ⟨by omega, fun v old lower => ?_⟩
  exact scan_marks stored room memory (marks v (older.old start v (by omega) old)) lower

/-- A committed batch has a mark for every slot that was active before its scan. -/
theorem commit_grace {batch' : Batch} (older : Older st st') (periods : Periods cfg st)
    (stored : st.mem b = some batch) (finished : cfg.slots ≤ cursor)
    (memory : st'.mem = Function.update st.mem b (some batch'))
    (same : batch'.entries = batch.entries) (scanned : batch'.scanned = some start)
    (ok : FrameGrace st (.scan s b start cursor marked)) :
    FrameGrace st' (.link b marked 0 0 none) := by
  have clock := older.clock
  obtain ⟨early, marks⟩ := ok
  intro batch₁ time stored₁ scanned₁
  rw [memory, Function.update_self] at stored₁
  cases stored₁
  rw [scanned] at scanned₁
  cases scanned₁
  refine ⟨by omega, fun v old => .inl ?_⟩
  have before := older.old start v (by omega) old
  -- Every present slot lies in the range that was scanned.
  have inside := periods.bounded v (periods.present v before.1)
  obtain ⟨j, small, entry, read, state⟩ := marks v before (Nat.lt_of_lt_of_le inside finished)
  rw [entryIn_eq (e := ⟨b, j⟩) stored] at read
  refine ⟨j, Nat.zero_le j, small, entry, ?_, state⟩
  rw [memory, entryIn_update, if_pos rfl, same, read]

/-- What a linking loop has done for the old slots, it has done after a step for those still old. -/
theorem link_grace {marked' i' active' : Nat} {seen seen' : Option (SlotId × Head)}
    (older : Older st st')
    (scanned : ∀ batch', st'.mem b = some batch' →
      ∃ batch, st.mem b = some batch ∧ batch'.scanned = batch.scanned)
    (cover : ∀ v, st.Active v → st.pushed v ⊆ st'.pushed v → LinkCover st b marked i seen v →
      LinkCover st' b marked' i' seen' v)
    (ok : FrameGrace st (.link b marked i active seen)) :
    FrameGrace st' (.link b marked' i' active' seen') := by
  have clock := older.clock
  intro batch' time stored' scanned'
  obtain ⟨batch, stored, same⟩ := scanned batch' stored'
  obtain ⟨early, known⟩ := ok batch time stored (same ▸ scanned')
  refine ⟨by omega, fun v old => ?_⟩
  have soon : time ≤ st.clock := by omega
  have before := older.old time v soon old
  exact cover v before.1 (older.lists time v soon old) (known v before)

end Frames

/-- What a caller obeys besides the contract: `reclaim_all` is not called. -/
def Ordinary (cfg : Config) (st : State) (move : Tid × Action) : Prop :=
  Contract cfg st move ∧ move.2 ≠ .reclaimAll

/-- A run without `reclaim_all` is disciplined. -/
theorem Ordinary.disciplined {move : Tid × Action} (ordinary : Ordinary cfg st move) :
    Disciplined cfg st move :=
  ⟨ordinary.1.1, fun called => absurd called ordinary.2⟩

/-- A log without new events. -/
theorem EventsGrace.same (log : st'.log = st.log) : EventsGrace st st' := by
  intro event member
  rw [log] at member
  exact .inl member

/-- New events. -/
theorem EventsGrace.append (new : List Event) (log : st'.log = new ++ st.log)
    (ok : ∀ event ∈ new, EventGrace st' event) : EventsGrace st st' := by
  intro event member
  rw [log] at member
  rcases List.mem_append.mp member with added | old
  · exact .inr (ok event added)
  · exact .inl old

/-- The batch that a frame works on is there. -/
theorem Inv.allocated (inv : Inv cfg st) {t' : Tid} {height : Nat} {f : Frame}
    (found : st.frame t' height = some f) (named : f.batchOf = some b) :
    ∃ batch, st.mem b = some batch := by
  obtain ⟨batch, stored, _⟩ := inv.works found named
  exact ⟨batch, stored⟩

/-- Every permitted move keeps the grace-period invariant. -/
theorem Move.grace (moved : Move cfg st t action st') (sound : Sound cfg st)
    (permitted : Ordinary cfg st (t, action)) (grace : Grace cfg st) : Grace cfg (tick st') := by
  have inv := sound.inv
  have older := moved.older
  have periods := moved.periods permitted.1.1 grace.periods
  -- After the step, too, nothing that is on a list is being freed.
  have after := moved.inv inv permitted.disciplined sound.sentinel
  have untouched : ∀ {st₂ : State}, st₂.mem = st.mem → ∀ b, BatchKept st.mem st₂.mem b :=
    fun memory b => .same (by rw [memory])
  -- Steps that change neither stacks nor memory.
  have plain : ∀ {st₂ : State}, Older st st₂ → Periods cfg st₂ → st₂.stack = st.stack →
      st₂.mem = st.mem → st₂.log = st.log → st₂.batch = st.batch → Grace cfg st₂ := by
    intro st₂ older periods stack memory log batch
    refine grace.keep older periods (.same stack fun _ _ _ b _ _ => untouched memory b) (.same memory)
      (.same log) ?_
    rw [batch]
    exact grace.clear
  -- Steps of the innermost call that only change its frame.
  have framed : ∀ {f : Frame} (fs : List Frame) {below : List Frame} {st₂ : State},
      Older st st₂ → Periods cfg st₂ → st.stack t = f :: below →
      st₂.stack = Function.update st.stack t (fs ++ below) → st₂.mem = st.mem → st₂.log = st.log →
      st₂.batch = st.batch → (∀ g ∈ fs, FrameGrace st₂ g ∧ g.iteration = none) → Grace cfg st₂ := by
    intro f fs below st₂ older periods top stack memory log batch new
    refine grace.keep older periods (.top fs top stack (fun _ _ _ b _ _ _ => untouched memory b) new)
      (.same memory) (.same log) ?_
    rw [batch]
    exact grace.clear
  cases moved with
  | known => exact plain older periods rfl rfl rfl rfl
  | create => exact plain older periods rfl rfl rfl rfl
  | enter => exact plain older periods rfl rfl rfl rfl
  | flushNone => exact plain older periods rfl rfl rfl rfl
  | access => exact plain older periods rfl rfl rfl rfl
  | leaveIdle => exact plain older periods rfl rfl rfl rfl
  | leave =>
    exact grace.keep older periods (.call rfl (fun _ _ _ b _ _ => untouched rfl b) trivial rfl)
      (.same rfl) (.same rfl) grace.clear
  | refreshIdle => exact plain older periods rfl rfl rfl rfl
  | refresh =>
    exact grace.keep older periods (.call rfl (fun _ _ _ b _ _ => untouched rfl b) trivial rfl)
      (.same rfl) (.same rfl) grace.clear
  | flush =>
    refine grace.keep older periods (.call rfl (fun _ _ _ b _ _ => untouched rfl b) ⟨?_, ?_⟩ rfl)
      (.same rfl) (.same rfl) grace.clear
    · exact Nat.lt_succ_self _
    · intro v _ lower
      cases lower
  | reclaimAll => exact absurd rfl permitted.2
  | ret top => exact framed [] older periods top rfl rfl rfl rfl (by simp)
  | abort top => exact framed [] older periods top rfl rfl rfl rfl (by simp)
  | done top => exact framed [] older periods top rfl rfl rfl rfl (by simp)
  | skipReclaim top => cases grace.outside t _ _ (State.frame_top top)
  | finish top => cases grace.outside t _ _ (State.frame_top top)
  | next top => cases grace.outside t _ _ (State.frame_top top)
  | takeWrong top => cases grace.outside t _ _ (State.frame_top top)
  | take top => cases grace.outside t _ _ (State.frame_top top)
  | reset top => cases grace.outside t _ _ (State.frame_top top)
  | immediate _ prep held => exact absurd ((prep.drops _).mp held) (grace.clear _)
  | refused _ prep =>
    refine grace.keep older periods (.same prep.same.1 ?_) (.prepared prep.grows)
      (.append [.refused st.nextRid] ?_ (by simp [EventGrace]))
      fun v marked => grace.clear v ((prep.drops v).mp marked)
    · intro t' height f b found named
      obtain ⟨batch, stored⟩ := inv.allocated found named
      exact prep.grows.batchKept stored
    · exact congrArg _ prep.same.2.2.2.2.2.2.2.1
  | reserve _ prep =>
    refine grace.keep older periods (.same prep.same.1 ?_) (.prepared prep.grows) (.same ?_)
      fun v marked => grace.clear v ((prep.drops v).mp marked)
    · intro t' height f b found named
      obtain ⟨batch, stored⟩ := inv.allocated found named
      exact prep.grows.batchKept stored
    · exact prep.same.2.2.2.2.2.2.2.1
  | @pushed s p f c st₁ b batch _ prep _ stored =>
    refine grace.keep older periods (.same prep.same.1 ?_) (.pushed prep.grows stored rfl)
      (.append [.retired st.nextRid p f] ?_ (by simp [EventGrace]))
      fun v marked => grace.clear v ((prep.drops v).mp marked)
    · intro t' height f b found named
      obtain ⟨old, was⟩ := inv.allocated found named
      exact (prep.grows.batchKept was).trans (.push stored)
    · exact congrArg _ prep.same.2.2.2.2.2.2.2.1
  | @filled s p f c st₁ b batch _ prep _ stored =>
    refine grace.keep older periods (.call (f := .scan s b st.clock 0 0) (t := t) ?_ ?_ ⟨?_, ?_⟩ rfl)
      (.pushed prep.grows stored rfl) (.append [.retired st.nextRid p f] ?_ (by simp [EventGrace]))
      fun v marked => grace.clear v ((prep.drops v).mp marked)
    · simp [tick, State.call, State.setStack, pushEntry, State.record, State.setBatch, prep.same.1]
    · intro t' height f b found named
      obtain ⟨old, was⟩ := inv.allocated found named
      exact (prep.grows.batchKept was).trans (.push stored)
    · have := older.clock
      omega
    · intro v _ lower
      cases lower
    · exact congrArg _ prep.same.2.2.2.2.2.2.2.1
  | panic top =>
    refine grace.keep older periods ?_ (.same rfl) (.same rfl) grace.clear
    intro t' height f found
    exact .inl ⟨State.frame_suffix (suffix_of_top top (unwind_suffix _)) rfl found,
      fun b _ => untouched rfl b⟩
  | @skipScan s b start cursor marked below target top bounded forward absent =>
    refine framed [_] older periods top rfl rfl rfl rfl ?_
    intro g member
    rw [List.mem_singleton.mp member]
    refine ⟨scan_pass_grace older (untouched rfl b) ?_ (grace.frames t _ _ (State.frame_top top)), rfl⟩
    intro v low high active
    rcases absent v (grace.periods.present v active) with small | large
    · exact absurd low (Nat.not_le_of_lt small)
    · exact absurd high (Nat.not_lt_of_le large)
  | @pass s b start cursor marked below batch spurious top stored more idle =>
    refine framed [_] older periods top rfl rfl rfl rfl ?_
    intro g member
    rw [List.mem_singleton.mp member]
    refine ⟨scan_pass_grace older (untouched rfl b) ?_ (grace.frames t _ _ (State.frame_top top)), rfl⟩
    intro v low high active
    obtain rfl : v = cursor := Nat.le_antisymm (Nat.le_of_lt_succ high) low
    rcases idle with absent | inactive
    · exact absent (grace.periods.present v active)
    · exact active inactive
  | @mark s b start cursor marked below batch spurious top stored more present active room =>
    have held := (inv.frames t _ _ (State.frame_top top)).1
    refine grace.keep older periods (.top [_] top rfl ?_ ?_) (.update stored rfl rfl rfl) (.same rfl)
      grace.clear
    · intro t' height g b₁ found low named
      refine .same (Function.update_of_ne ?_ _ _)
      rintro rfl
      obtain ⟨rfl, rfl⟩ := inv.scan_alone top held (by simp [Frame.usesBatch]) found named
      exact absurd (low rfl) (Nat.lt_irrefl _)
    · intro g member
      rw [List.mem_singleton.mp member]
      exact ⟨scan_mark_grace older stored room rfl (grace.frames t _ _ (State.frame_top top)), rfl⟩
  | @commit s b start cursor marked below batch spurious top stored finished =>
    have held := (inv.frames t _ _ (State.frame_top top)).1
    have known := grace.frames t _ _ (State.frame_top top)
    refine grace.keep older periods (.top [_] top rfl ?_ ?_) (.restage rfl ?_)
      (.append [.committed batch.uid] rfl (by simp [EventGrace])) ?_
    · intro t' height g b₁ found low named
      refine .same (Function.update_of_ne ?_ _ _)
      rintro rfl
      obtain ⟨rfl, rfl⟩ := inv.scan_alone top held (by simp [Frame.usesBatch]) found named
      exact absurd (low rfl) (Nat.lt_irrefl _)
    · intro g member
      rw [List.mem_singleton.mp member]
      exact ⟨commit_grace older grace.periods stored finished rfl rfl rfl known, rfl⟩
    · exact ⟨start, rfl, Nat.lt_succ_of_lt known.1⟩
    · intro v marked
      exact grace.clear v ((drops_null (by simp [held]) v).mp marked)
  | @load b marked i active below batch entry s spurious top stored more found state =>
    refine framed [_] older periods top rfl rfl rfl rfl ?_
    intro g member
    rw [List.mem_singleton.mp member]
    refine ⟨link_grace older (fun batch' stored' => ⟨batch', stored', rfl⟩) ?_
      (grace.frames t _ _ (State.frame_top top)), rfl⟩
    exact fun v isActive lists cover => cover.load rfl stored found state isActive lists
  | gone top =>
    refine framed [_] older periods top rfl rfl rfl rfl ?_
    intro g member
    rw [List.mem_singleton.mp member]
    refine ⟨link_grace older (fun batch' stored' => ⟨batch', stored', rfl⟩) ?_
      (grace.frames t _ _ (State.frame_top top)), rfl⟩
    exact fun v _ lists cover => cover.gone rfl lists
  | @publish b marked i active s prev below batch spurious top stored more same =>
    obtain ⟨batch₀, stored₀, phase, linking⟩ := inv.frames t _ _ (State.frame_top top)
    cases stored.symm.trans stored₀
    refine grace.keep older periods (.top [_] top rfl ?_ ?_) (.update stored rfl rfl rfl) (.same rfl)
      grace.clear
    · intro t' height g b₁ found low named
      refine .same (Function.update_of_ne ?_ _ _)
      rintro rfl
      obtain ⟨rfl, rfl⟩ := inv.link_unique stored phase found named
      exact absurd (low rfl) (Nat.lt_irrefl _)
    · intro g member
      rw [List.mem_singleton.mp member]
      refine ⟨link_grace older ?_ (fun v _ lists cover => cover.publish stored rfl ?_ ?_ lists)
        (grace.frames t _ _ (State.frame_top top)), rfl⟩
      · exact scanned_update stored rfl
      · intro j other
        simp [Batch.setLink_get, Batch.setState_get, Ne.symm other]
      · simp [tick, State.setStack, State.setBatch]
  | @retry b marked i active s prev below batch spurious top stored more =>
    obtain ⟨batch₀, stored₀, phase, linking⟩ := inv.frames t _ _ (State.frame_top top)
    cases stored.symm.trans stored₀
    refine grace.keep older periods (.top [_] top rfl ?_ ?_) (.update stored rfl rfl rfl) (.same rfl)
      grace.clear
    · intro t' height g b₁ found low named
      refine .same (Function.update_of_ne ?_ _ _)
      rintro rfl
      obtain ⟨rfl, rfl⟩ := inv.link_unique stored phase found named
      exact absurd (low rfl) (Nat.lt_irrefl _)
    · intro g member
      rw [List.mem_singleton.mp member]
      refine ⟨link_grace older ?_ (fun v isActive lists cover =>
        cover.retry stored rfl ?_ isActive lists) (grace.frames t _ _ (State.frame_top top)), rfl⟩
      · exact scanned_update stored rfl
      · intro j other
        simp [Batch.setState_get, Ne.symm other]
  | @addShare b marked i active seen below batch spurious top stored finished =>
    obtain ⟨time, scanned, early, linked⟩ := grace.linked inv top stored finished
    refine grace.keep older periods (.top [] top rfl ?_ (by simp)) (.restage rfl ?_)
      (.append [.counted batch.uid] rfl (by simp [EventGrace])) grace.clear
    · intro t' height g b₁ _ _ _
      exact .update stored rfl rfl fun j entry read => ⟨entry, read, rfl⟩
    · exact ⟨time, scanned, Nat.lt_succ_of_lt early,
        fun v old => linked v (older.old time v (Nat.le_of_lt early) old)⟩
  | @addFree b marked i active seen below batch spurious top stored finished zero =>
    obtain ⟨time, scanned, early, linked⟩ := grace.linked inv top stored finished
    refine grace.keep older periods (.top [_] top rfl ?_ ?_) (.restage rfl ?_)
      (.append [.freed batch.uid .fetchAdd, .counted batch.uid] rfl (by simp [EventGrace])) grace.clear
    · intro t' height g b₁ _ _ _
      exact .update stored rfl rfl fun j entry read => ⟨entry, read, rfl⟩
    · intro g member
      rw [List.mem_singleton.mp member]
      exact ⟨trivial, rfl⟩
    · -- A count of zero leaves no slot with an entry.
      refine ⟨time, scanned, Nat.lt_succ_of_lt early, fun v old => ?_⟩
      obtain ⟨j, member⟩ := linked v (older.old time v (Nat.le_of_lt early) old)
      exact after.not_freeing (Function.update_self ..) rfl member
  | @releaseFree curr rest below entry next batch spurious top read state stored one =>
    obtain ⟨owner, tail, rfl, visit⟩ := inv.visit top read state stored
    have stage := grace.stages _ _ stored
    rw [(visit.last inv one).1] at stage
    obtain ⟨time, scanned, early, linked⟩ := stage
    refine grace.keep older periods (.top [_, _] top rfl ?_ ?_) (.restage rfl ?_)
      (.append [.freed batch.uid .fetchSub] rfl (by simp [EventGrace])) grace.clear
    · intro t' height g b₁ _ _ _
      exact .update stored rfl rfl (release_states batch curr.index)
    · intro g member
      simp only [List.mem_cons, List.not_mem_nil, or_false] at member
      rcases member with rfl | rfl <;> exact ⟨trivial, rfl⟩
    · refine ⟨time, scanned, Nat.lt_succ_of_lt early, fun v old => ?_⟩
      obtain ⟨j, member⟩ := linked v (older.old time v (Nat.le_of_lt early) old)
      exact after.not_freeing (Function.update_self ..) rfl member
  | @releaseCount curr rest below entry next batch spurious top read state stored more =>
    refine grace.keep older periods (.top [_] top rfl ?_ ?_) (.update stored rfl rfl rfl) (.same rfl)
      grace.clear
    · intro t' height g b₁ _ _ _
      exact .update stored rfl rfl (release_states batch curr.index)
    · intro g member
      rw [List.mem_singleton.mp member]
      exact ⟨trivial, rfl⟩
  | @invoke b i below batch entry spurious top stored found =>
    obtain ⟨b', batch₀, eq, stored₀, phase⟩ := inv.frames t _ _ (State.frame_top top)
    cases eq
    cases stored.symm.trans stored₀
    have stage := grace.stages b batch stored
    rw [phase] at stage
    obtain ⟨time, scanned, early, none_⟩ := stage
    refine grace.keep older periods (.top [_, _] top rfl (fun _ _ _ b _ _ _ => untouched rfl b) ?_)
      (.same rfl) (.append [.reclaimed entry.rid entry.ptr entry.reclaim batch.scanned] rfl ?_) grace.clear
    · intro g member
      simp only [List.mem_cons, List.not_mem_nil, or_false] at member
      rcases member with rfl | rfl <;> exact ⟨trivial, rfl⟩
    · intro event member
      rw [List.mem_singleton.mp member]
      exact ⟨time, scanned, Nat.lt_succ_of_lt early,
        fun v old => none_ v (older.old time v (Nat.le_of_lt early) old)⟩
  | @dealloc b i below batch spurious top stored =>
    obtain ⟨b', batch₀, eq, stored₀, phase⟩ := inv.frames t _ _ (State.frame_top top)
    cases eq
    cases stored.symm.trans stored₀
    refine grace.keep older periods (.top [] top rfl ?_ (by simp)) ?_ (.same rfl) grace.clear
    · intro t' height g b₁ found low named
      refine .same (Function.update_of_ne ?_ _ _)
      rintro rfl
      obtain ⟨rfl, rfl⟩ := inv.free_unique stored phase found named
      exact absurd (low rfl) (Nat.lt_irrefl _)
    · intro b₁ batch₁ stored₁
      rcases stored_update stored₁ with ⟨_, new⟩ | ⟨_, old⟩
      · cases new
      · exact .inl ⟨batch₁, old, rfl, rfl⟩

end Seize.Raw
