import Seize.Raw.Membarrier
import Seize.Raw.Reserve

/-!
Grace periods on a machine with store buffers.

The period of a slot begins when the store of `enter` is issued. While the store waits, every scan
of a batch that holds what the slot has loaded still has its barrier to pass, so the store arrives
before that scan looks at the slot.
-/

namespace Seize.Raw

variable {cfg : Config} {st st' : State} {t u : Tid} {s v : SlotId} {b : Addr} {batch : Batch}
  {action : Action} {time : Nat} {held : List Ptr}

/-- What was loaded since a time is in no batch that was scanned before, and is not reclaimed. -/
structure Loaded (st : State) (time : Nat) (held : List Ptr) : Prop where
  scans : ∀ t s start cursor marked e object, .scan s e.batch start cursor marked ∈ st.stack t →
    objectAt st.mem e = some object → object.ptr ∈ held → time < start
  scanned : ∀ e batch began object, st.mem e.batch = some batch → batch.scanned = some began →
    objectAt st.mem e = some object → object.ptr ∈ held → time < began
  unreclaimed : ∀ rid p f scanned, Event.reclaimed rid p f scanned ∈ st.log → p ∉ held

/-- Batches that were committed, and objects that were reclaimed, were scanned before a time. -/
structure Settled (st : State) (time : Nat) : Prop where
  commits : ∀ b batch began, st.mem b = some batch → batch.scanned = some began → began ≤ time
  events : ∀ rid p f began, Event.reclaimed rid p f (some began) ∈ st.log → began ≤ time

section Arrival

/-- Counting a step keeps the invariants. -/
theorem Guarded.tick (guarded : Guarded cfg st) : Guarded cfg (Raw.tick st) := by
  have older : Older st (Raw.tick st) := .same rfl rfl rfl rfl
  have shielded := guarded.shielded
  refine ⟨⟨guarded.sound.inv.congr rfl rfl rfl rfl rfl, ?_⟩, ?_, shielded.unlinked,
    shielded.stored, shielded.logged, shielded.scans, shielded.scanned, shielded.unreclaimed⟩
  · exact guarded.sound.sentinel.keep (fun _ _ f found _ => ⟨f, found, rfl⟩) fun _ => .rfl
  · exact guarded.grace.keep older (guarded.grace.periods.same rfl rfl rfl rfl)
      (.same rfl fun _ _ _ _ _ _ => .same rfl) (.same rfl) (.same rfl) guarded.grace.clear

/-- A period is old after a store has arrived if it was before, or if the store is old itself. -/
theorem Old.of_arrive {at_ : Nat} (old : Old (Buffered.arrive st s time held) at_ v) :
    (v = s ∧ time < at_) ∨ (v ≠ s ∧ Old st at_ v) := by
  obtain ⟨active, since⟩ := old
  by_cases here : v = s
  · subst here
    simp only [Buffered.arrive, Function.update_self] at since
    exact .inl ⟨rfl, since⟩
  · simp only [Buffered.arrive, Function.update_of_ne here] at since
    refine .inr ⟨here, ?_, since⟩
    simpa only [State.Active, Buffered.arrive, Raw.tick, Raw.enter, beginPeriod,
      Function.update_of_ne here] using active

/-- The list of another slot stays when a store arrives. -/
theorem pushed_arrive (other : v ≠ s) :
    (Buffered.arrive st s time held).pushed v = st.pushed v :=
  Function.update_of_ne other ..

/-- The store of a slot that no scan had to see arrives. -/
theorem Grace.arrive (grace : Grace cfg st) (present : s ∈ st.created) (past : time < st.clock)
    (settled : Settled st time)
    (scans : ∀ t v b start cursor marked, .scan v b start cursor marked ∈ st.stack t →
      start ≤ time ∨ cursor = 0) : Grace cfg (Buffered.arrive st s time held) := by
  -- For whatever was scanned before the store, the slots that count are the old ones.
  have before : ∀ {at_ v}, at_ ≤ time → Old (Buffered.arrive st s time held) at_ v →
      v ≠ s ∧ Old st at_ v := by
    intro at_ v early old
    rcases old.of_arrive with ⟨_, later⟩ | same
    · exact absurd early (Nat.not_le.mpr later)
    · exact same
  refine ⟨⟨?_, ?_, grace.periods.bounded⟩, ?_, ?_, ?_, grace.clear, grace.outside⟩
  · intro v active
    by_cases here : v = s
    · exact here ▸ present
    · refine grace.periods.present v ?_
      simpa only [State.Active, Buffered.arrive, Raw.tick, Raw.enter, beginPeriod,
        Function.update_of_ne here] using active
  · intro v active
    by_cases here : v = s
    · subst here
      simp only [Buffered.arrive, Function.update_self]
      exact Nat.lt_succ_of_lt past
    · simp only [Buffered.arrive, Function.update_of_ne here]
      refine Nat.lt_succ_of_lt (grace.periods.past v ?_)
      simpa only [State.Active, Buffered.arrive, Raw.tick, Raw.enter, beginPeriod,
        Function.update_of_ne here] using active
  · intro t height f found
    have ok := grace.frames t height f found
    cases f with
    | scan v b start cursor marked =>
      refine ⟨Nat.lt_succ_of_lt ok.1, fun v' old lower => ?_⟩
      rcases scans t v b start cursor marked (mem_of_frameAt found) with early | zero
      · exact ok.2 v' (before early old).2 lower
      · -- A scan that waits for its barrier has passed no slot.
        exact absurd lower (zero ▸ Nat.not_lt_zero v')
    | link b marked i active seen =>
      intro batch at_ stored scanned
      obtain ⟨early, cover⟩ := ok batch at_ stored scanned
      refine ⟨Nat.lt_succ_of_lt early, fun v old => ?_⟩
      obtain ⟨other, old⟩ := before (settled.commits b batch at_ stored scanned) old
      rcases cover v old with ahead | loaded | ⟨j, linked⟩
      · exact .inl ahead
      · exact .inr (.inl loaded)
      · exact .inr (.inr ⟨j, by rw [pushed_arrive other]; exact linked⟩)
    | reclaimer | traverse | freeBatch | reclaimAll | reclaimReset => trivial
  · intro b batch stored
    have ok := grace.stages b batch stored
    cases phase : batch.phase with
    | pending v =>
      rw [phase] at ok
      exact ok
    | retiring t' height =>
      rw [phase] at ok
      obtain ⟨at_, scanned, early⟩ := ok
      exact ⟨at_, scanned, Nat.lt_succ_of_lt early⟩
    | shared =>
      rw [phase] at ok
      obtain ⟨at_, scanned, early, linked⟩ := ok
      refine ⟨at_, scanned, Nat.lt_succ_of_lt early, fun v old => ?_⟩
      obtain ⟨other, old⟩ := before (settled.commits b batch at_ stored scanned) old
      obtain ⟨j, member⟩ := linked v old
      exact ⟨j, by rw [pushed_arrive other]; exact member⟩
    | freeing t' height =>
      rw [phase] at ok
      obtain ⟨at_, scanned, early, none_⟩ := ok
      refine ⟨at_, scanned, Nat.lt_succ_of_lt early, fun v old => none_ v ?_⟩
      exact (before (settled.commits b batch at_ stored scanned) old).2
  · intro event member
    have ok := grace.events event member
    cases event with
    | reclaimed rid p f scanned =>
      obtain ⟨at_, rfl, early, none_⟩ := ok
      refine ⟨at_, rfl, Nat.lt_succ_of_lt early, fun v old => none_ v ?_⟩
      exact (before (settled.events rid p f at_ member) old).2
    | retired | refused | committed | counted | freed => trivial

/-- What the slot has loaded while its store waited is protected once the store arrives. -/
theorem Shielded.arrive (shielded : Shielded st) (loaded : Loaded st time held) :
    Shielded (Buffered.arrive st s time held) := by
  -- Another slot protects what it did before.
  have protects : ∀ {v p}, Protects (Buffered.arrive st s time held) v p →
      (v = s ∧ p ∈ held) ∨ (v ≠ s ∧ Protects st v p) := by
    intro v p holds
    obtain ⟨active, member⟩ := holds
    by_cases here : v = s
    · subst here
      simp only [Buffered.arrive, Function.update_self] at member
      exact .inl ⟨rfl, member⟩
    · simp only [Buffered.arrive, Function.update_of_ne here] at member
      refine .inr ⟨here, ?_, member⟩
      simpa only [State.Active, Buffered.arrive, Raw.tick, Raw.enter, beginPeriod,
        Function.update_of_ne here] using active
  refine ⟨shielded.unlinked, shielded.stored, shielded.logged, ?_, ?_, ?_⟩
  · intro t height v start cursor marked e object v' found at_ holds
    rcases protects holds with ⟨rfl, member⟩ | ⟨other, before⟩
    · simp only [Buffered.arrive, Function.update_self]
      exact loaded.scans t v start cursor marked e object (mem_of_frameAt found) at_ member
    · simp only [Buffered.arrive, Function.update_of_ne other]
      exact shielded.scans t height v start cursor marked e object v' found at_ before
  · intro e batch began object v stored scanned at_ holds
    rcases protects holds with ⟨rfl, member⟩ | ⟨other, before⟩
    · simp only [Buffered.arrive, Function.update_self]
      exact loaded.scanned e batch began object stored scanned at_ member
    · simp only [Buffered.arrive, Function.update_of_ne other]
      exact shielded.scanned e batch began object v stored scanned at_ before
  · intro rid p f scanned v member holds
    rcases protects holds with ⟨rfl, inside⟩ | ⟨_, before⟩
    · exact loaded.unreclaimed rid p f scanned member inside
    · exact shielded.unreclaimed rid p f scanned v member before

/-- The arrival of a store keeps the invariants of the collector. -/
theorem Guarded.arrive (guarded : Guarded cfg st) (present : s ∈ st.created)
    (past : time < st.clock) (settled : Settled st time) (loaded : Loaded st time held)
    (scans : ∀ t v b start cursor marked, .scan v b start cursor marked ∈ st.stack t →
      start ≤ time ∨ cursor = 0) : Guarded cfg (Buffered.arrive st s time held) := by
  refine ⟨⟨guarded.sound.inv.mark (.inr rfl) rfl rfl rfl rfl rfl, ?_⟩,
    guarded.grace.arrive present past settled scans, guarded.shielded.arrive loaded⟩
  exact guarded.sound.sentinel.keep (fun _ _ f found _ => ⟨f, found, rfl⟩) fun _ => .rfl

end Arrival

section Scans

variable {start cursor marked : Nat}

/-- A scan is always the innermost call. -/
theorem scanning_of_mem {frames : List Frame} (tops : TopOnly frames)
    (member : .scan s b start cursor marked ∈ frames) : scanning frames = true := by
  cases frames with
  | nil => cases member
  | cons f below =>
    rcases List.mem_cons.mp member with rfl | lower
    · rfl
    · cases tops _ lower

/-- User code scans nothing. -/
theorem scanning_user {frames : List Frame} (user : userLevel frames) :
    scanning frames = false := by
  rw [scanning, scanOf_user user, Option.isSome_none]

/-- Where a scan comes from that is in progress after a move. -/
theorem Move.scan_origin (moved : Move cfg st t action st')
    (member : .scan s b start cursor marked ∈ st'.stack u) :
    .scan s b start cursor marked ∈ st.stack u ∨
      (u = t ∧ scanning (st.stack t) = true ∧
        ∃ cursor marked, .scan s b start cursor marked ∈ st.stack t) ∨
      (u = t ∧ scanning (st.stack t) = false ∧ start = st.clock ∧ cursor = 0) := by
  -- The stack of another thread is the same.
  by_cases mine : u = t
  swap
  · exact .inl (moved.stack_other mine ▸ member)
  subst mine
  have stay : ∀ {st₂ : State}, st₂.stack = st.stack →
      .scan s b start cursor marked ∈ st₂.stack u →
        .scan s b start cursor marked ∈ st.stack u := by
    intro st₂ stack member
    rwa [stack] at member
  have called : ∀ {k : Frame} {st₂ : State},
      st₂.stack = Function.update st.stack u (k :: st.stack u) →
      .scan s b start cursor marked ∈ st₂.stack u →
        k = .scan s b start cursor marked ∨ .scan s b start cursor marked ∈ st.stack u := by
    intro k st₂ stack member
    rw [stack, Function.update_self] at member
    exact (List.mem_cons.mp member).imp Eq.symm id
  have stepped : ∀ {k : Frame} (fs : List Frame) {below : List Frame} {st₂ : State},
      st.stack u = k :: below → st₂.stack = Function.update st.stack u (fs ++ below) →
      (∀ g ∈ fs, g.scanSlot = none) → .scan s b start cursor marked ∈ st₂.stack u →
        .scan s b start cursor marked ∈ st.stack u := by
    intro k fs below st₂ top stack new member
    rw [stack, Function.update_self] at member
    rcases List.mem_append.mp member with inside | old
    · cases new _ inside
    · exact top ▸ List.mem_cons_of_mem _ old
  -- A scan that goes on is the innermost call, with the cursor further on.
  have scans : ∀ {v b' start' c m c' m' below} {st₂ : State},
      st.stack u = .scan v b' start' c m :: below →
      st₂.stack = Function.update st.stack u (.scan v b' start' c' m' :: below) →
      .scan s b start cursor marked ∈ st₂.stack u →
        .scan s b start cursor marked ∈ st.stack u ∨ (scanning (st.stack u) = true ∧
          ∃ cursor marked, .scan s b start cursor marked ∈ st.stack u) := by
    intro v b' start' c m c' m' below st₂ top stack member
    rw [stack, Function.update_self] at member
    rcases List.mem_cons.mp member with same | old
    · cases same
      exact .inr ⟨by rw [top]; rfl, c, m, top ▸ List.mem_cons_self⟩
    · exact .inl (top ▸ List.mem_cons_of_mem _ old)
  cases moved with
  | known | create | enter | leaveIdle | refreshIdle | flushNone | access =>
    exact .inl (stay rfl member)
  | refused _ prep | pushed _ prep | reserve _ prep => exact .inl (stay prep.same.1 member)
  | leave | refresh | reclaimAll => exact .inl ((called rfl member).resolve_left (by simp))
  | @immediate s' p f c st₁ _ prep =>
    have stack : (((st₁.record (.retired st.nextRid p f)).record
        (.reclaimed st.nextRid p f none)).call u (.reclaimer st.nextRid p f)).stack =
          Function.update st.stack u (.reclaimer st.nextRid p f :: st.stack u) := by
      simp [State.call, State.setStack, State.record, prep.same.1]
    exact .inl ((called stack member).resolve_left (by simp))
  | @filled s' p f c st₁ b' batch user prep =>
    have stack : ((pushEntry st₁ b' batch p f st.nextRid).call u
        (.scan s' b' st.clock 0 0)).stack =
          Function.update st.stack u (.scan s' b' st.clock 0 0 :: st.stack u) := by
      simp [State.call, State.setStack, State.record, State.setBatch, pushEntry, prep.same.1]
    rcases called stack member with same | old
    · cases same
      exact .inr (.inr ⟨rfl, scanning_user user, rfl, rfl⟩)
    · exact .inl old
  | flush user =>
    rcases called rfl member with same | old
    · cases same
      exact .inr (.inr ⟨rfl, scanning_user user, rfl, rfl⟩)
    · exact .inl old
  | panic top =>
    simp only [State.setStack, Function.update_self] at member
    exact .inl ((suffix_of_top top (unwind_suffix _)).mem member)
  | skipScan top | pass top | mark top =>
    exact (scans top rfl member).imp id fun advanced => .inl ⟨rfl, advanced⟩
  | ret top | abort top | addShare top | done top | dealloc top | finish top =>
    exact .inl (stepped [] top rfl (by simp) member)
  | skipReclaim top | commit top | addFree top | load top | gone top | publish top | retry top
  | releaseCount top | next top | reset top =>
    exact .inl (stepped [_] top rfl (by simp [Frame.scanSlot]) member)
  | releaseFree top | invoke top | take top | takeWrong top =>
    exact .inl (stepped [_, _] top rfl (by simp [Frame.scanSlot]) member)

end Scans

/-- The step lemma for what a waiting slot has loaded. -/
theorem Move.loaded (moved : Move cfg st t action st') (guarded : Guarded cfg st)
    (permitted : Careful cfg st (t, action)) (past : time < st.clock) (settled : Settled st time)
    (loaded : Loaded st time held) : Loaded st' time held := by
  have change := moved.change
  have sound := guarded.sound
  have after := moved.inv sound.inv permitted.1.disciplined sound.sentinel
  have grace := moved.grace sound permitted.1 guarded.grace
  refine ⟨?_, ?_, ?_⟩
  · intro u s start cursor marked e object member at_ inside
    obtain ⟨height, found⟩ := exists_frameAt member
    rcases moved.scans found with ⟨cursor₀, marked₀, found₀⟩ | rfl
    · rcases change.old at_ with old | ⟨s', p, f, c, rfl, held_, _, _⟩
      · exact loaded.scans u s start cursor₀ marked₀ e object (mem_of_frameAt found₀) old inside
      · -- The owner of a batch does not push to it while it is being scanned.
        have scanning := sound.inv.frames u height _ found₀
        exact absurd (moved.add_batch rfl scanning.1)
          (scan_elsewhere sound.inv after (moved.user rfl) permitted.1.1.1.2 held_ found₀)
    · exact past
  · intro e batch began object stored scanned at_ inside
    rcases change.old at_ with old | ⟨s', p, f, c, rfl, held_, _, _⟩
    · rcases moved.stamps stored scanned with ⟨batch₀, stored₀, scanned₀⟩ | ⟨u, height, s, cursor,
        marked, found⟩
      · exact loaded.scanned e batch₀ began object stored₀ scanned₀ old inside
      · exact loaded.scans u s began cursor marked e object (mem_of_frameAt found) old inside
    · -- An object that was just pushed is in a batch without a scan.
      obtain ⟨batch', stored', pending⟩ := after.slots s' e.batch held_
      cases stored.symm.trans stored'
      have stage := grace.stages e.batch batch stored
      rw [pending] at stage
      have none_ : batch.scanned = none := stage
      rw [none_] at scanned
      cases scanned
  · intro rid p f scanned member inside
    rcases change.reclaimed_of member with old | ⟨s, dropped⟩ | ⟨e, batch, below, top, stored, at_, is⟩
    · exact loaded.unreclaimed rid p f scanned old inside
    · exact guarded.grace.clear s dropped
    · -- A batch that is being freed was scanned, and no later than the store was issued.
      obtain ⟨b', batch₀, eq, stored₀, phase⟩ := sound.inv.frames t _ _ (State.frame_top top)
      cases eq
      cases stored.symm.trans stored₀
      have stage := guarded.grace.stages e.batch batch stored
      rw [phase] at stage
      obtain ⟨began, scanned₀, _, _⟩ := stage
      have later := loaded.scanned e batch began _ stored scanned₀ at_ inside
      exact absurd (settled.commits e.batch batch began stored scanned₀) (Nat.not_le.mpr later)

/-- What is loaded from a cell is not retired. -/
theorem Loaded.more {more : List Ptr} (loaded : Loaded st time held) (shielded : Shielded st)
    (fresh : ∀ p ∈ more, ¬ Retired st p) : Loaded st time (more ++ held) := by
  -- What is loaded now is not retired, so it is none of those that were reclaimed.
  refine ⟨?_, ?_, ?_⟩
  · intro u s start cursor marked e object member at_ inside
    rcases List.mem_append.mp inside with new | old
    · exact absurd (shielded.stored e object at_) (fresh _ new)
    · exact loaded.scans u s start cursor marked e object member at_ old
  · intro e batch began object stored scanned at_ inside
    rcases List.mem_append.mp inside with new | old
    · exact absurd (shielded.stored e object at_) (fresh _ new)
    · exact loaded.scanned e batch began object stored scanned at_ old
  · intro rid p f scanned member inside
    rcases List.mem_append.mp inside with new | old
    · exact fresh p new (shielded.logged rid p f scanned member)
    · exact loaded.unreclaimed rid p f scanned member old

/--
The invariant of a machine with store buffers.

It says what the barriers in progress promise about the stores that wait.
-/
structure Fenced (platform : Platform) (cfg : Config) (bs : Buffered) : Prop where
  guarded : Guarded cfg bs.memory
  strong : lightStore platform bs.strategy = .seqCst → bs.stores = []
  once : (bs.stores.map Store.write).Nodup
  present : ∀ store ∈ bs.stores, store.write ∈ bs.memory.created
  idle : ∀ store ∈ bs.stores, bs.memory.head store.write = .inactive
  past : ∀ store ∈ bs.stores, store.time < bs.memory.clock
  /-- A scan whose barrier has not returned has looked at no slot. -/
  due : ∀ t s b start cursor marked, .scan s b start cursor marked ∈ bs.memory.stack t →
    bs.barrier t ≠ .passed → cursor = 0
  running : ∀ t kind began, bs.barrier t = .running kind began → began < bs.memory.clock
  begun : ∀ t kind began s b start cursor marked, bs.barrier t = .running kind began →
    .scan s b start cursor marked ∈ bs.memory.stack t → start ≤ began
  /-- When a fence was enough, no store was waiting. -/
  fence : ∀ t began, bs.barrier t = .running .fence began →
    ∀ store ∈ bs.stores, began ≤ store.time
  /-- A scan whose barrier has returned began before every store that still waits. -/
  passed : ∀ t s b start cursor marked, .scan s b start cursor marked ∈ bs.memory.stack t →
    bs.barrier t = .passed → ∀ store ∈ bs.stores, start ≤ store.time
  settled : ∀ store ∈ bs.stores, Settled bs.memory store.time
  loaded : ∀ store ∈ bs.stores, Loaded bs.memory store.time (bs.early store.write)

section Steps

variable {platform : Platform} {bs bs' : Buffered} {op : Op}

/-- A collector that nobody has used has no stores that wait. -/
theorem Fenced.init : Fenced platform cfg Buffered.init := by
  refine ⟨⟨Sound.init cfg, Grace.init cfg, Shielded.init⟩, fun _ => rfl, .nil, nofun, nofun, nofun,
    ?_, ?_, ?_, ?_, ?_, nofun, nofun⟩
  · intro t s b start cursor marked member
    cases member
  · intro t kind began running
    cases running
  · intro t kind began s b start cursor marked running
    cases running
  · intro t began running
    cases running
  · intro t s b start cursor marked member
    cases member

/-- A scan began in the past. -/
theorem Grace.start_lt {start cursor marked : Nat} (grace : Grace cfg st)
    (member : .scan s b start cursor marked ∈ st.stack t) : start < st.clock := by
  obtain ⟨height, found⟩ := exists_frameAt member
  exact (grace.frames t height _ found).1

/-- Whatever was scanned was scanned in the past. -/
theorem Grace.settled (grace : Grace cfg st) : Settled st st.clock := by
  -- Every scan that has committed began before now.
  refine ⟨fun b batch began stored scanned => ?_, fun rid p f began member => ?_⟩
  · have stage := grace.stages b batch stored
    cases phase : batch.phase with
    | pending s =>
      rw [phase] at stage
      have none_ : batch.scanned = none := stage
      rw [none_] at scanned
      cases scanned
    | retiring u height =>
      rw [phase] at stage
      obtain ⟨at_, is, early⟩ := stage
      cases scanned.symm.trans is
      exact Nat.le_of_lt early
    | shared | freeing u height =>
      rw [phase] at stage
      obtain ⟨at_, is, early, _⟩ := stage
      cases scanned.symm.trans is
      exact Nat.le_of_lt early
  · obtain ⟨at_, is, early, _⟩ := grace.events _ member
    cases is
    exact Nat.le_of_lt early

/-- A step after which all batches and all objects were scanned before a time, as they were. -/
theorem Move.settled (moved : Move cfg st t action st') (guarded : Guarded cfg st)
    (permitted : Careful cfg st (t, action))
    (scans : ∀ s b start cursor marked, .scan s b start cursor marked ∈ st.stack t → start ≤ time)
    (settled : Settled st time) : Settled st' time := by
  have sound := guarded.sound
  have after := moved.inv sound.inv permitted.1.disciplined sound.sentinel
  have grace := moved.grace sound permitted.1 guarded.grace
  refine ⟨fun b batch began stored scanned => ?_, fun rid p f began member => ?_⟩
  · rcases moved.stamps stored scanned with ⟨batch₀, stored₀, scanned₀⟩ | ⟨u, height, s, cursor,
      marked, found⟩
    · exact settled.commits b batch₀ began stored₀ scanned₀
    · by_cases mine : u = t
      · subst mine
        exact scans s b began cursor marked (mem_of_frameAt found)
      · -- The scan of another thread is still going on, so its batch is not committed.
        have still : st'.frame u height = some (.scan s b began cursor marked) := by
          rw [State.frame, moved.stack_other mine]
          exact found
        obtain ⟨batch₁, stored₁, pending⟩ := after.slots s b (after.frames u height _ still).1
        cases stored.symm.trans stored₁
        have stage := grace.stages b batch stored
        rw [pending] at stage
        have none_ : batch.scanned = none := stage
        rw [none_] at scanned
        cases scanned
  · rcases moved.change.reclaimed_of member with old | ⟨s, dropped⟩ | ⟨e, batch, below, _, stored, _,
      is⟩
    · exact settled.events rid p f began old
    · exact absurd dropped (guarded.grace.clear s)
    · exact settled.commits e.batch batch began stored is

/-- A step of the collector on what memory shows. -/
theorem Fenced.raw (fenced : Fenced platform cfg bs) {memory : State}
    (permitted : Careful cfg bs.memory (t, action))
    (ran : Raw.step cfg bs.memory (t, action) = .ok memory) (shows : bs'.memory = memory)
    (strategy : bs'.strategy = bs.strategy) (stores : bs'.stores = bs.stores)
    (gate : scanning (bs.memory.stack t) = true → bs.barrier t = .passed)
    (others : ∀ u, u ≠ t → bs'.barrier u = bs.barrier u)
    (kept : scanning (bs.memory.stack t) = true → bs'.barrier t = bs.barrier t)
    (fresh : bs'.barrier t = bs.barrier t ∨ bs'.barrier t = .due)
    (again : scanning (bs.memory.stack t) = false → scanning (memory.stack t) = true →
      bs'.barrier t = .due)
    (heads : ∀ store ∈ bs.stores, memory.head store.write = .inactive)
    (early : ∀ store ∈ bs.stores, Loaded bs.memory store.time (bs'.early store.write)) :
    Fenced platform cfg bs' := by
  have guarded := fenced.guarded.step permitted ran
  obtain ⟨st₁, moved, rfl⟩ := step_move ran
  have clock : (Raw.tick st₁).clock = bs.memory.clock + 1 := moved.older.clock
  -- A barrier that is not due any more was so before.
  have before : ∀ u barrier, bs'.barrier u = barrier → barrier ≠ .due → bs.barrier u = barrier := by
    intro u barrier is other
    by_cases mine : u = t
    · subst mine
      rcases fresh with same | due
      · exact same.symm.trans is
      · exact absurd (is.symm.trans due) other
    · exact (others u mine).symm.trans is
  -- The scans of a state were there before, or have their barrier before them.
  have origin : ∀ u s b start cursor marked, .scan s b start cursor marked ∈ st₁.stack u →
      .scan s b start cursor marked ∈ bs.memory.stack u ∨
        (u = t ∧ scanning (bs.memory.stack t) = true ∧
          ∃ cursor marked, .scan s b start cursor marked ∈ bs.memory.stack t) ∨
        (bs'.barrier u = .due ∧ cursor = 0) := by
    intro u s b start cursor marked member
    rcases moved.scan_origin member with old | advanced | ⟨rfl, user, _, zero⟩
    · exact .inl old
    · exact .inr (.inl advanced)
    · exact .inr (.inr ⟨again user (scanning_of_mem (guarded.sound.inv.tops u) member), zero⟩)
  refine ⟨shows ▸ guarded, ?_, ?_, ?_, ?_, ?_, ?_, ?_, ?_, ?_, ?_, ?_, ?_⟩
  · rw [strategy, stores]
    exact fenced.strong
  · rw [stores]
    exact fenced.once
  · rw [stores, shows]
    exact fun store waits => moved.created _ (fenced.present store waits)
  · rw [stores, shows]
    exact heads
  · rw [stores, shows]
    intro store waits
    exact clock ▸ Nat.lt_succ_of_lt (fenced.past store waits)
  · rw [shows]
    intro u s b start cursor marked member waits
    rcases origin u s b start cursor marked member with old | ⟨rfl, scans, _⟩ | ⟨_, zero⟩
    · refine fenced.due u s b start cursor marked old fun passed => ?_
      by_cases mine : u = t
      · subst mine
        exact waits ((kept (scanning_of_mem (fenced.guarded.sound.inv.tops u) old)).trans passed)
      · exact waits ((others u mine).trans passed)
    · exact absurd ((kept scans).trans (gate scans)) waits
    · exact zero
  · rw [shows]
    intro u kind began is
    exact clock ▸ Nat.lt_succ_of_lt (fenced.running u kind began (before u _ is nofun))
  · rw [shows]
    intro u kind began s b start cursor marked is member
    have was := before u _ is nofun
    rcases origin u s b start cursor marked member with old | ⟨rfl, scans, _⟩ | ⟨due, _⟩
    · exact fenced.begun u kind began s b start cursor marked was old
    · cases was.symm.trans (gate scans)
    · cases is.symm.trans due
  · rw [stores]
    exact fun u began is => fenced.fence u began (before u _ is nofun)
  · rw [shows, stores]
    intro u s b start cursor marked member is store waits
    have was := before u _ is nofun
    rcases origin u s b start cursor marked member with old | ⟨rfl, scans, c, m, old⟩ | ⟨due, _⟩
    · exact fenced.passed u s b start cursor marked old was store waits
    · exact fenced.passed u s b start c m old was store waits
    · cases is.symm.trans due
  · rw [shows, stores]
    intro store waits
    have settled := moved.settled fenced.guarded permitted (fun s b start cursor marked member =>
      fenced.passed t s b start cursor marked member
        (gate (scanning_of_mem (fenced.guarded.sound.inv.tops t) member)) store waits)
      (fenced.settled store waits)
    exact ⟨settled.commits, settled.events⟩
  · rw [shows, stores]
    intro store waits
    have loaded := moved.loaded fenced.guarded permitted (fenced.past store waits)
      (fenced.settled store waits) (early store waits)
    exact ⟨loaded.scans, loaded.scanned, loaded.unreclaimed⟩

/-- What a step of the collector asks for, and what it does. -/
theorem Buffered.run_spec (ran : bs.run cfg t action = .ok bs') :
    (locked bs.memory t action = true → Store.drained bs.stores t = true) ∧
    (scanning (bs.memory.stack t) = true → bs.barrier t = .passed) ∧ (∀ s, action ≠ .enter s) ∧
    ∃ memory, Raw.step cfg bs.memory (t, action) = .ok memory ∧ bs' = { bs with
      memory := memory
      barrier := if scanning (memory.stack t) && !scanning (bs.memory.stack t) then
        Function.update bs.barrier t .due else bs.barrier
      early := loadedBy bs.memory bs.early action } := by
  unfold Buffered.run at ran
  split at ran
  · cases ran
  · rename_i free
    split at ran
    · cases ran
    · rename_i open_
      split at ran
      · cases ran
      · rename_i other
        split at ran
        · cases ran
        · rename_i memory stepped
          cases ran
          refine ⟨fun lock => ?_, fun scans => ?_, fun s is => other s is, memory, stepped, rfl⟩
          · simpa [lock] using free
          · simpa [scans] using open_

/-- What a slot has loaded while its store waits is not retired. -/
theorem Fenced.early (fenced : Fenced platform cfg bs) {store : Store SlotId}
    (waits : store ∈ bs.stores) :
    Loaded bs.memory store.time (loadedBy bs.memory bs.early action store.write) := by
  have loaded := fenced.loaded store waits
  cases action with
  | access s x op =>
    by_cases here : store.write = s
    · -- The pointer was in a cell, so it is not retired.
      rw [loadedBy, ← here, Function.update_self]
      refine loaded.more fenced.guarded.shielded fun p inside retired => ?_
      exact fenced.guarded.shielded.unlinked p retired x (Option.mem_toList.mp inside)
    · rw [loadedBy, Function.update_of_ne here]
      exact loaded
  | _ => exact loaded

/-- A step of the collector keeps the invariant. -/
theorem Fenced.run (fenced : Fenced platform cfg bs)
    (permitted : Buffered.Careful cfg bs (t, .run action)) (ran : bs.run cfg t action = .ok bs') :
    Fenced platform cfg bs' := by
  obtain ⟨lock, gate, other, memory, stepped, rfl⟩ := Buffered.run_spec ran
  obtain ⟨careful, handed⟩ := permitted
  refine fenced.raw careful stepped rfl rfl rfl gate (fun u differs => ?_) (fun scans => ?_) ?_
    (fun user scans => ?_) (fun store waits => ?_) fun store waits => fenced.early waits
  · dsimp only
    split
    · exact Function.update_of_ne differs ..
    · rfl
  · dsimp only
    rw [scans, Bool.not_true, Bool.and_false]
    rfl
  · dsimp only
    split
    · exact .inr (Function.update_self ..)
    · exact .inl rfl
  · dsimp only
    rw [user, scans]
    exact Function.update_self ..
  · -- A slot whose store waits in the buffer of its thread is not refreshed.
    obtain ⟨st₁, moved, rfl⟩ := step_move stepped
    refine moved.head_other (other _) ?_ (fenced.idle store waits)
    rintro rfl
    exact Store.thread_ne_of_drained (lock rfl) waits (handed _ (.inr rfl) store waits rfl)

/-- A strong store of `enter` keeps the invariant. -/
theorem Fenced.strongEnter (fenced : Fenced platform cfg bs) {memory : State}
    (permitted : Buffered.Careful cfg bs (t, .enter s))
    (strong : lightStore platform bs.strategy = .seqCst)
    (ran : Raw.step cfg bs.memory (t, .enter s) = .ok memory) :
    Fenced platform cfg { bs with memory := memory } := by
  obtain ⟨present, inactive, _⟩ := permitted
  have none_ := fenced.strong strong
  have careful : Careful cfg bs.memory (t, .enter s) :=
    ⟨⟨⟨present, fun _ is => by cases is; exact inactive⟩, nofun⟩, trivial⟩
  obtain ⟨st₁, moved, rfl⟩ := step_move ran
  -- User code enters, and nothing waits.
  have user : scanning (bs.memory.stack t) = false := by
    cases moved with
    | enter user => exact scanning_user user
  have same : scanning ((Raw.tick st₁).stack t) = scanning (bs.memory.stack t) := by
    cases moved with
    | enter => rfl
  refine fenced.raw careful ran rfl rfl rfl (fun scans => ?_) (fun _ _ => rfl) (fun _ => rfl)
    (.inl rfl) (fun _ scans => ?_) (fun store waits => ?_) fun store waits => ?_
  · rw [user] at scans
    cases scans
  · rw [same, user] at scans
    cases scans
  · rw [none_] at waits
    cases waits
  · rw [none_] at waits
    cases waits

/-- A relaxed store of `enter` waits. -/
theorem Fenced.issue (fenced : Fenced platform cfg bs)
    (permitted : Buffered.Careful cfg bs (t, .enter s))
    (relaxed : lightStore platform bs.strategy = .relaxed) :
    Fenced platform cfg { bs with
      memory := tick bs.memory
      stores := bs.stores ++ [⟨t, bs.memory.clock, s⟩]
      early := Function.update bs.early s [] } := by
  obtain ⟨present, inactive, free⟩ := permitted
  have cases_ : ∀ store ∈ bs.stores ++ [⟨t, bs.memory.clock, s⟩],
      store ∈ bs.stores ∨ store = ⟨t, bs.memory.clock, s⟩ := by
    intro store waits
    exact (List.mem_append.mp waits).imp id List.mem_singleton.mp
  refine ⟨fenced.guarded.tick, fun strong => ?_, ?_, ?_, ?_, ?_, fenced.due, ?_, fenced.begun, ?_,
    ?_, ?_, ?_⟩
  · rw [relaxed] at strong
    cases strong
  · -- The slot has no other store that waits.
    rw [List.map_append, List.map_singleton]
    refine fenced.once.append (List.nodup_singleton _) ?_
    rw [List.disjoint_singleton]
    intro inside
    obtain ⟨store, waits, is⟩ := List.mem_map.mp inside
    exact free ⟨store, waits, is⟩
  · intro store waits
    rcases cases_ store waits with old | rfl
    · exact fenced.present store old
    · exact present
  · intro store waits
    rcases cases_ store waits with old | rfl
    · exact fenced.idle store old
    · exact inactive
  · intro store waits
    rcases cases_ store waits with old | rfl
    · exact Nat.lt_succ_of_lt (fenced.past store old)
    · exact Nat.lt_succ_self _
  · exact fun u kind began is => Nat.lt_succ_of_lt (fenced.running u kind began is)
  · intro u began is store waits
    rcases cases_ store waits with old | rfl
    · exact fenced.fence u began is store old
    · exact Nat.le_of_lt (fenced.running u .fence began is)
  · intro u v b start cursor marked member is store waits
    rcases cases_ store waits with old | rfl
    · exact fenced.passed u v b start cursor marked member is store old
    · exact Nat.le_of_lt (fenced.guarded.grace.start_lt member)
  · intro store waits
    rcases cases_ store waits with old | rfl
    · exact ⟨(fenced.settled store old).commits, (fenced.settled store old).events⟩
    · exact ⟨fenced.guarded.grace.settled.commits, fenced.guarded.grace.settled.events⟩
  · intro store waits
    rcases cases_ store waits with old | rfl
    · have other : store.write ≠ s := fun is => free ⟨store, old, is⟩
      have loaded := fenced.loaded store old
      dsimp only
      rw [Function.update_of_ne other]
      exact ⟨loaded.scans, loaded.scanned, loaded.unreclaimed⟩
    · -- Nothing has been loaded yet.
      dsimp only
      rw [Function.update_self]
      exact ⟨nofun, nofun, nofun⟩

/-- A store reaches memory. -/
theorem Fenced.drain (fenced : Fenced platform cfg bs) (ran : bs.drain t = .ok bs') :
    Fenced platform cfg bs' := by
  unfold Buffered.drain at ran
  split at ran
  · cases ran
  · rename_i store found
    cases ran
    have perm := Store.perm_drain found
    have first : store ∈ bs.stores := perm.mem_iff.mpr List.mem_cons_self
    have rest : ∀ other ∈ Store.drain bs.stores t, other ∈ bs.stores :=
      fun other waits => perm.mem_iff.mpr (List.mem_cons_of_mem _ waits)
    -- A slot has one store at most that waits, so the others that wait are for other slots.
    have once := (perm.map Store.write).nodup_iff.mp fenced.once
    rw [List.map_cons, List.nodup_cons] at once
    have differs : ∀ other ∈ Store.drain bs.stores t, other.write ≠ store.write :=
      fun other waits is => once.1 (List.mem_map.mpr ⟨other, waits, is⟩)
    refine ⟨?_, fun strong => ?_, once.2, ?_, ?_, ?_, fenced.due, ?_, fenced.begun, ?_, ?_, ?_, ?_⟩
    · refine fenced.guarded.arrive (fenced.present store first) (fenced.past store first)
        (fenced.settled store first) (fenced.loaded store first) ?_
      intro u v b start cursor marked member
      by_cases is : bs.barrier u = .passed
      · exact .inl (fenced.passed u v b start cursor marked member is store first)
      · exact .inr (fenced.due u v b start cursor marked member is)
    · have none_ := fenced.strong strong
      rw [none_] at first
      cases first
    · exact fun other waits => fenced.present other (rest other waits)
    · intro other waits
      exact (Function.update_of_ne (differs other waits) ..).trans
        (fenced.idle other (rest other waits))
    · exact fun other waits => Nat.lt_succ_of_lt (fenced.past other (rest other waits))
    · exact fun u kind began is => Nat.lt_succ_of_lt (fenced.running u kind began is)
    · exact fun u began is other waits => fenced.fence u began is other (rest other waits)
    · exact fun u v b start cursor marked member is other waits =>
        fenced.passed u v b start cursor marked member is other (rest other waits)
    · intro other waits
      have settled := fenced.settled other (rest other waits)
      exact ⟨settled.commits, settled.events⟩
    · intro other waits
      have loaded := fenced.loaded other (rest other waits)
      exact ⟨loaded.scans, loaded.scanned, loaded.unreclaimed⟩

/-- A barrier begins. -/
theorem Fenced.beginHeavy (fenced : Fenced platform cfg bs)
    (ran : bs.beginHeavy platform t = .ok bs') : Fenced platform cfg bs' := by
  unfold Buffered.beginHeavy at ran
  split at ran
  · rename_i ready
    simp only [Bool.and_eq_true, beq_iff_eq] at ready
    obtain ⟨⟨_, due⟩, _⟩ := ready
    cases ran
    have was : ∀ {u barrier}, Function.update bs.barrier t
        (.running (heavy platform bs.strategy) bs.memory.clock) u = barrier →
        (u = t ∧ barrier = .running (heavy platform bs.strategy) bs.memory.clock) ∨
          (u ≠ t ∧ bs.barrier u = barrier) := by
      intro u barrier is
      by_cases mine : u = t
      · subst mine
        rw [Function.update_self] at is
        exact .inl ⟨rfl, is.symm⟩
      · rw [Function.update_of_ne mine] at is
        exact .inr ⟨mine, is⟩
    refine ⟨fenced.guarded.tick, fenced.strong, fenced.once, fenced.present, fenced.idle,
      fun store waits => Nat.lt_succ_of_lt (fenced.past store waits), ?_, ?_, ?_, ?_, ?_, ?_, ?_⟩
    · intro u v b start cursor marked member open_
      refine fenced.due u v b start cursor marked member fun passed => ?_
      by_cases mine : u = t
      · subst mine
        cases due.symm.trans passed
      · exact open_ ((Function.update_of_ne mine ..).trans passed)
    · intro u kind began is
      rcases was is with ⟨_, same⟩ | ⟨_, old⟩
      · cases same
        exact Nat.lt_succ_self _
      · exact Nat.lt_succ_of_lt (fenced.running u kind began old)
    · intro u kind began v b start cursor marked is member
      rcases was is with ⟨_, same⟩ | ⟨_, old⟩
      · cases same
        exact Nat.le_of_lt (fenced.guarded.grace.start_lt member)
      · exact fenced.begun u kind began v b start cursor marked old member
    · intro u began is store waits
      rcases was is with ⟨_, same⟩ | ⟨_, old⟩
      · -- A fence is all there is only where no store ever waits.
        have kind : heavy platform bs.strategy = .fence := by
          injection same with kind _
          exact kind.symm
        have none_ := fenced.strong ((heavy_fence_iff _ _).mp kind)
        rw [none_] at waits
        cases waits
      · exact fenced.fence u began old store waits
    · intro u v b start cursor marked member is store waits
      rcases was is with ⟨_, same⟩ | ⟨_, old⟩
      · cases same
      · exact fenced.passed u v b start cursor marked member old store waits
    · intro store waits
      exact ⟨(fenced.settled store waits).commits, (fenced.settled store waits).events⟩
    · intro store waits
      have loaded := fenced.loaded store waits
      exact ⟨loaded.scans, loaded.scanned, loaded.unreclaimed⟩
  · cases ran

/-- A barrier returns. -/
theorem Fenced.endHeavy (fenced : Fenced platform cfg bs) (ran : bs.endHeavy t = .ok bs') :
    Fenced platform cfg bs' := by
  unfold Buffered.endHeavy at ran
  split at ran
  · rename_i kind began is
    split at ran
    · rename_i done
      cases ran
      -- Every store that still waits was issued after the barrier had begun.
      have younger : ∀ store ∈ bs.stores, began ≤ store.time := by
        rcases done with rfl | settled
        · exact fenced.fence t began is
        · exact fun store waits => Store.le_of_settled settled waits
      have was : ∀ {u barrier}, Function.update bs.barrier t .passed u = barrier →
          (u = t ∧ barrier = .passed) ∨ (u ≠ t ∧ bs.barrier u = barrier) := by
        intro u barrier same
        by_cases mine : u = t
        · subst mine
          rw [Function.update_self] at same
          exact .inl ⟨rfl, same.symm⟩
        · rw [Function.update_of_ne mine] at same
          exact .inr ⟨mine, same⟩
      refine ⟨fenced.guarded.tick, fenced.strong, fenced.once, fenced.present, fenced.idle,
        fun store waits => Nat.lt_succ_of_lt (fenced.past store waits), ?_, ?_, ?_, ?_, ?_, ?_, ?_⟩
      · intro u v b start cursor marked member open_
        by_cases mine : u = t
        · subst mine
          exact absurd (Function.update_self ..) open_
        · exact fenced.due u v b start cursor marked member fun passed =>
            open_ ((Function.update_of_ne mine ..).trans passed)
      · intro u kind began same
        rcases was same with ⟨_, other⟩ | ⟨_, old⟩
        · cases other
        · exact Nat.lt_succ_of_lt (fenced.running u kind began old)
      · intro u kind began v b start cursor marked same member
        rcases was same with ⟨_, other⟩ | ⟨_, old⟩
        · cases other
        · exact fenced.begun u kind began v b start cursor marked old member
      · intro u began same
        rcases was same with ⟨_, other⟩ | ⟨_, old⟩
        · cases other
        · exact fenced.fence u began old
      · intro u v b start cursor marked member same store waits
        rcases was same with ⟨rfl, _⟩ | ⟨_, old⟩
        · exact (fenced.begun u kind began v b start cursor marked is member).trans
            (younger store waits)
        · exact fenced.passed u v b start cursor marked member old store waits
      · intro store waits
        exact ⟨(fenced.settled store waits).commits, (fenced.settled store waits).events⟩
      · intro store waits
        have loaded := fenced.loaded store waits
        exact ⟨loaded.scans, loaded.scanned, loaded.unreclaimed⟩
    · cases ran
  · cases ran

/-- The step lemma: every careful step keeps the invariant. -/
theorem Fenced.step (fenced : Fenced platform cfg bs) {move : Tid × Op}
    (permitted : Buffered.Careful cfg bs move)
    (ran : Buffered.step platform cfg bs move = .ok bs') : Fenced platform cfg bs' := by
  obtain ⟨t, op⟩ := move
  cases op with
  | run action => exact fenced.run permitted ran
  -- A strong store is a step of memory, and a relaxed one is put in the buffer.
  | enter s =>
    simp only [Buffered.step, Buffered.enter] at ran
    split at ran
    · rename_i strong
      split at ran
      · cases stepped : Raw.step cfg bs.memory (t, .enter s) with
        | error stop =>
          rw [stepped] at ran
          cases ran
        | ok memory =>
          rw [stepped] at ran
          cases ran
          exact fenced.strongEnter permitted strong stepped
      · cases ran
    · rename_i relaxed
      split at ran
      · cases ran
        exact fenced.issue permitted relaxed
      · cases ran
  | drain => exact fenced.drain ran
  | heavy => exact fenced.beginHeavy ran
  | fenced => exact fenced.endHeavy ran
  | detect system =>
    cases ran
    exact { fenced with strong := fun strong => fenced.strong (detect_seqCst strong) }

/-- The run lemma: the invariant holds in every state of a careful run. -/
theorem reachable_fenced
    (run : Reachable (Buffered.step platform cfg) (Buffered.Careful cfg) Buffered.init bs) :
    Fenced platform cfg bs :=
  run.invariant (Fenced platform cfg) .init fun _ _ _ _ fenced permitted ran =>
    fenced.step permitted ran

end Steps

/-- A slot is in a period that began at a time, and has loaded some pointers since. -/
inductive Buffered.Period (bs : Buffered) : SlotId → Nat → List Ptr → Prop where
  /-- The store of `enter` was issued, and memory does not show it yet. -/
  | waiting {store : Store SlotId} (waits : store ∈ bs.stores) :
      Period bs store.write store.time (bs.early store.write)
  | shown {s : SlotId} (active : bs.memory.Active s) :
      Period bs s (bs.memory.since s) (bs.memory.protect s)

/--
No reclaimer runs within the grace period of its object, although stores wait in buffers.

The period of a slot begins with the store of `enter`, whether memory shows it or not. This holds
with every strategy, and while new collectors detect another one.
-/
theorem buffered_grace_period (platform : Platform) (cfg : Config) (bs : Buffered)
    (run : Reachable (Buffered.step platform cfg) (Buffered.Careful cfg) Buffered.init bs)
    {rid : Nat} {p : Ptr} {f : Reclaim} {scanned : Option Nat}
    (member : Event.reclaimed rid p f scanned ∈ bs.memory.log) :
    ∃ time, scanned = some time ∧ ∀ s began loaded, bs.Period s began loaded →
      time ≤ began ∧ p ∉ loaded := by
  have fenced := reachable_fenced run
  obtain ⟨time, rfl, _, none_⟩ := fenced.guarded.grace.events _ member
  refine ⟨time, rfl, fun s began loaded period => ?_⟩
  -- A period that is not visible yet is as old as the store that waits.
  cases period with
  | @waiting store waits =>
    exact ⟨(fenced.settled store waits).events rid p f time member,
      (fenced.loaded store waits).unreclaimed rid p f _ member⟩
  | shown active =>
    refine ⟨Nat.not_lt.mp fun early => none_ s ⟨active, early⟩, fun inside => ?_⟩
    exact fenced.guarded.shielded.unreclaimed rid p f _ s member ⟨active, inside⟩

/-- The rules of a careful run on such a machine, decided for the first `n` threads and slots. -/
def bufferedCheck (cfg : Config) (n : Nat) (bs : Buffered) (move : Tid × Op) : Bool :=
  match move.2 with
  | .run action => accessCheck cfg n bs.memory (move.1, action) &&
    carefulCheck n bs.memory (move.1, action) &&
      match action with
      | .leave s => bs.stores.all fun store => store.write != s || store.thread == move.1
      | .refresh s => bs.stores.all fun store => store.write != s || store.thread == move.1
      | _ => true
  | .enter s => accessCheck cfg n bs.memory (move.1, .enter s) &&
    decide (bs.memory.head s = .inactive) && bs.stores.all fun store => store.write != s
  | _ => true

/-- Only the first `n` threads, slots and cells are in use on such a machine. -/
structure Buffered.Within (n : Nat) (bs : Buffered) : Prop where
  memory : Raw.Within n bs.memory
  stores : ∀ store ∈ bs.stores, store.write < n

/-- A run that passes the check is careful. -/
theorem buffered_of_check {n : Nat} {bs : Buffered} (within : bs.Within n) {move : Tid × Op}
    (checked : bufferedCheck cfg n bs move = true) : Buffered.Careful cfg bs move := by
  obtain ⟨t, op⟩ := move
  cases op with
  | run action =>
    simp only [bufferedCheck, Bool.and_eq_true] at checked
    obtain ⟨⟨access, careful⟩, handed⟩ := checked
    refine ⟨careful_of_check within.memory access careful, ?_⟩
    rintro s (rfl | rfl) store waits is
    all_goals
      have own := List.all_eq_true.mp handed store waits
      simpa [is] using own
  | enter s =>
    simp only [bufferedCheck, Bool.and_eq_true, decide_eq_true_eq] at checked
    obtain ⟨⟨access, inactive⟩, free⟩ := checked
    refine ⟨accessCheck_sound within.memory (t, .enter s) access, inactive, ?_⟩
    rintro ⟨store, waits, is⟩
    have other := List.all_eq_true.mp free store waits
    simp [is] at other
  | drain | heavy | fenced | detect => trivial

/-- A checked step leaves the other threads, slots and cells idle. -/
theorem Buffered.Within.step {platform : Platform} {n : Nat} {bs bs' : Buffered}
    (within : bs.Within n) {move : Tid × Op} (checked : bufferedCheck cfg n bs move = true)
    (ran : Buffered.step platform cfg bs move = .ok bs') : bs'.Within n := by
  -- New slots and stores come from calls, whose slots the check has bounded.
  obtain ⟨t, op⟩ := move
  have ticked : Raw.Within n (tick bs.memory) :=
    ⟨within.memory.running, within.memory.batches, within.memory.heads, within.memory.cells⟩
  cases op with
  | run action =>
    simp only [bufferedCheck, Bool.and_eq_true] at checked
    obtain ⟨_, _, _, memory, stepped, rfl⟩ := Buffered.run_spec ran
    exact ⟨within.memory.step checked.1.1 stepped, within.stores⟩
  | enter s =>
    simp only [bufferedCheck, Bool.and_eq_true] at checked
    have small : s < n := by
      have access := checked.1.1
      simp only [accessCheck, Bool.and_eq_true, decide_eq_true_eq] at access
      exact access.2.1
    simp only [Buffered.step, Buffered.enter] at ran
    split at ran
    · split at ran
      · cases stepped : Raw.step cfg bs.memory (t, .enter s) with
        | error stop =>
          rw [stepped] at ran
          cases ran
        | ok memory =>
          rw [stepped] at ran
          cases ran
          exact ⟨within.memory.step checked.1.1 stepped, within.stores⟩
      · cases ran
    · split at ran
      · cases ran
        refine ⟨ticked, fun store waits => ?_⟩
        rcases List.mem_append.mp waits with old | new
        · exact within.stores store old
        · cases List.mem_singleton.mp new
          exact small
      · cases ran
  | drain =>
    simp only [Buffered.step, Buffered.drain] at ran
    split at ran
    · cases ran
    · rename_i store found
      cases ran
      -- The store that arrives is one of those that waited.
      have perm := Store.perm_drain found
      have small := within.stores store (perm.mem_iff.mpr List.mem_cons_self)
      refine ⟨⟨within.memory.running, within.memory.batches, fun v large => ?_,
        within.memory.cells⟩, fun other waits =>
          within.stores other (perm.mem_iff.mpr (List.mem_cons_of_mem _ waits))⟩
      have other : v ≠ store.write := Nat.ne_of_gt (Nat.lt_of_lt_of_le small large)
      exact (Function.update_of_ne other ..).trans (within.memory.heads v large)
  | heavy =>
    simp only [Buffered.step, Buffered.beginHeavy] at ran
    split at ran
    · cases ran
      exact ⟨ticked, within.stores⟩
    · cases ran
  | fenced =>
    simp only [Buffered.step, Buffered.endHeavy] at ran
    split at ran
    · split at ran
      · cases ran
        exact ⟨ticked, within.stores⟩
      · cases ran
    · cases ran
  | detect =>
    cases ran
    exact ⟨within.memory, within.stores⟩

/-- A computed run that passes the check reaches its final state. -/
theorem buffered_reachable_of_check (platform : Platform) (cfg : Config) (n : Nat)
    (final : Buffered → Bool) (moves : List (Tid × Op))
    (checked : checkRun (Buffered.step platform cfg) (bufferedCheck cfg n) final Buffered.init moves =
      true) :
    ∃ bs, Reachable (Buffered.step platform cfg) (Buffered.Careful cfg) Buffered.init bs ∧
      final bs = true := by
  have start : Buffered.init.Within n := by
    refine ⟨.init n, fun store waits => ?_⟩
    cases waits
  obtain ⟨bs, run, _, ended⟩ := Reachable.of_checkRun
    (fun bs _ (within : Buffered.Within n bs) approved => buffered_of_check within approved)
    (fun _ _ _ within approved ran => within.step approved ran) start checked
  exact ⟨bs, run, ended⟩

/-- Linux offers the system call. -/
def system : System := ⟨2 ^ 3 + 2 ^ 4, 0, true⟩

/--
Two readers load objects while their stores wait.

The barrier of the first scan waits for the store of the first reader, whose object is reclaimed
after it left. Then the second object is retired while the store of the second reader still waits.
-/
def waitingReaders : List (Tid × Op) :=
  [(0, .detect system), (0, .run (.access 0 0 (.swap (some 7)))),
    (0, .run (.access 0 1 (.swap (some 8)))), (1, .run (.create 1)), (2, .run (.create 2)),
    (1, .enter 1), (1, .run (.access 1 0 .load)), (0, .run (.access 0 0 (.swap none))),
    (0, .run (.add 0 7 9 (plenty 1))), (0, .heavy), (2, .enter 2), (1, .drain), (0, .fenced),
    (2, .run (.access 2 1 .load)), (0, .run (.skip 1)), (0, .run (.advance false)),
    (0, .run (.advance false)), (0, .run (.skip (2 ^ 64 - 32))), (0, .run (.advance false)),
    (0, .run (.advance false)), (0, .run (.advance false)), (0, .run (.advance false)),
    (1, .run (.leave 1)), (1, .run (.advance false)), (1, .run (.advance false)), (1, .run .ret),
    (1, .run (.advance false)), (0, .run (.access 0 1 (.swap none))),
    (0, .run (.add 0 8 9 (plenty 1))), (0, .heavy)]

/-- There an object was reclaimed, and the second reader has loaded the other one. -/
theorem buffered_grace_period_waitingReaders : ∃ bs : Buffered,
    ⟨2, 9, 2⟩ ∈ bs.stores ∧ bs.early 2 = [8] ∧ ∃ time,
      Event.reclaimed 0 7 9 (some time) ∈ bs.memory.log ∧
        ∀ s began loaded, bs.Period s began loaded → time ≤ began ∧ 7 ∉ loaded := by
  obtain ⟨bs, run, ended⟩ := buffered_reachable_of_check .linux ⟨64, 1⟩ 3
    (fun bs => decide (⟨2, 9, 2⟩ ∈ bs.stores ∧ bs.early 2 = [8] ∧
      Event.reclaimed 0 7 9 (some 7) ∈ bs.memory.log))
    waitingReaders (by decide)
  obtain ⟨waits, loaded, member⟩ := of_decide_eq_true ended
  obtain ⟨time, is, safe⟩ := buffered_grace_period .linux ⟨64, 1⟩ bs run member
  cases is
  exact ⟨bs, waits, loaded, 7, member, safe⟩

end Seize.Raw
