import Seize.Raw.Grace
import Seize.Raw.Objects
import Seize.Raw.Reserve
import Seize.Raw.Intact

/-!
Deferred retirement.

While a slot stays in one activity period, every scan of a batch marks an entry for it, every retirer
links that entry, and the slot's list keeps the batch from being freed.
-/

namespace Seize.Raw

variable {cfg : Config} {st st' : State} {t : Tid} {action : Action} {b : Addr} {batch : Batch}
  {s : SlotId} {rid : Nat}

/-- The batch at an address holds the object of a retirement. -/
def Holds (mem : Addr → Option Batch) (b : Addr) (rid : Nat) : Prop :=
  ∃ j object, objectAt mem ⟨b, j⟩ = some object ∧ object.rid = rid

/-- What a call in progress does for a slot, if it works on the batch of a retirement. -/
def FrameCover (s : SlotId) (rid : Nat) (st : State) : Frame → Prop
  | .scan _ b _ cursor marked => Holds st.mem b rid → s < cursor →
    ∃ j, j < marked ∧ MarkAt st.mem b j s
  | .link b marked i _ seen => Holds st.mem b rid → LinkCover st b marked i seen s
  | _ => True

/-- What the stage of the batch of a retirement says about a slot. -/
def StageCover (s : SlotId) (st : State) (b : Addr) : Phase → Prop
  | .shared => ∃ j, (⟨b, j⟩ : EntryPtr) ∈ st.pushed s
  | .freeing _ _ => False
  | _ => True

/-- A retirement waits for a slot to end its activity period. -/
structure Deferred (cfg : Config) (s : SlotId) (rid : Nat) (st : State) : Prop where
  active : st.Active s
  present : s ∈ st.created
  bounded : s < cfg.slots
  known : rid < st.nextRid
  frames : ∀ t height f, st.frame t height = some f → FrameCover s rid st f
  stages : ∀ b batch, st.mem b = some batch → Holds st.mem b rid → StageCover s st b batch.phase
  waiting : ∀ p f scanned, .reclaimed rid p f scanned ∉ st.log

/-- `reclaim_all` goes on only while no slot is active. -/
def Quiet (st : State) (move : Tid × Action) : Prop :=
  ∀ cursor below, st.stack move.1 = .reclaimAll cursor :: below →
    ∀ spurious, move.2 = .advance spurious → ∀ v, ¬ st.Active v

/-- A step that leaves a slot in its activity period. -/
structure Stays (s : SlotId) (st : State) (move : Tid × Action) : Prop where
  entered : move.2 ≠ .enter s
  left : move.2 ≠ .leave s
  refreshed : move.2 ≠ .refresh s
  quiet : Quiet st move

/-- The batch of a retirement was its batch before. -/
theorem Change.holds (change : Change st st' t action) (known : rid < st.nextRid)
    (holds : Holds st'.mem b rid) : Holds st.mem b rid := by
  obtain ⟨j, object, found, is⟩ := holds
  cases change with
  | plain _ _ _ _ objects | refused _ _ objects | immediate _ _ _ objects
  | invoke _ _ _ _ _ objects => exact ⟨j, object, by rw [← objects, found], is⟩
  | pushed _ _ _ _ objects =>
    rw [objects] at found
    split at found
    · -- The new object has a new number.
      cases found
      exact absurd is (Nat.ne_of_gt known)
    · exact ⟨j, object, found, is⟩
  | dealloc _ _ _ memory =>
    rw [memory, objectAt_dealloc] at found
    split at found
    · cases found
    · exact ⟨j, object, found, is⟩

/-- Retirement numbers are handed out in order. -/
theorem Change.nextRid (change : Change st st' t action) : st.nextRid ≤ st'.nextRid := by
  cases change with
  | plain _ _ _ next | refused _ next | pushed _ next | immediate _ next | invoke _ _ _ _ next
  | dealloc _ _ _ _ _ next => omega

/-- The frames of a state are old ones whose batch is kept, or do what they have to. -/
def FramesCover (s : SlotId) (rid : Nat) (st st' : State) : Prop :=
  ∀ t height f, st'.frame t height = some f →
    (st.frame t height = some f ∧ ∀ b, f.batchOf = some b → BatchKept st.mem st'.mem b) ∨
      FrameCover s rid st' f

/-- Stages of a state are old ones, or say what they have to. -/
def StagesCover (s : SlotId) (rid : Nat) (st st' : State) : Prop :=
  ∀ b batch', st'.mem b = some batch' → Holds st.mem b rid →
    (∃ batch, st.mem b = some batch ∧ batch'.phase = batch.phase) ∨
      StageCover s st' b batch'.phase

namespace FramesCover

/-- A state whose stacks are the same. -/
theorem same (stack : st'.stack = st.stack)
    (kept : ∀ t height f b, st.frame t height = some f → f.batchOf = some b →
      BatchKept st.mem st'.mem b) : FramesCover s rid st st' := by
  intro t height f found
  rw [State.frame, stack] at found
  exact .inl ⟨found, fun b named => kept t height f b found named⟩

/-- A call. -/
theorem call {f : Frame} (stack : st'.stack = Function.update st.stack t (f :: st.stack t))
    (kept : ∀ t height f b, st.frame t height = some f → f.batchOf = some b →
      BatchKept st.mem st'.mem b)
    (new : FrameCover s rid st' f) : FramesCover s rid st st' := by
  intro t' height g found
  rcases State.frame_call stack found with ⟨_, _, rfl⟩ | old
  · exact .inr new
  · exact .inl ⟨old, fun b named => kept t' height g b old named⟩

/-- A step of the innermost call. -/
theorem top {f : Frame} (fs : List Frame) {below : List Frame} (top : st.stack t = f :: below)
    (stack : st'.stack = Function.update st.stack t (fs ++ below))
    (kept : ∀ t' height g b, st.frame t' height = some g → (t' = t → height < below.length) →
      g.batchOf = some b → BatchKept st.mem st'.mem b)
    (new : ∀ g ∈ fs, FrameCover s rid st' g) : FramesCover s rid st st' := by
  intro t' height g found
  rcases State.frame_replace fs top stack found with ⟨rfl, high, there⟩ | ⟨old, low⟩
  · exact .inr (new g (mem_of_frameAt_high high there))
  · exact .inl ⟨old, fun b named => kept t' height g b old low named⟩

end FramesCover

namespace StagesCover

/-- Memory that is not written. -/
theorem same (memory : st'.mem = st.mem) : StagesCover s rid st st' :=
  fun _ batch' stored _ => .inl ⟨batch', memory ▸ stored, rfl⟩

/-- A write to one batch, which keeps its stage or moves it to one that says what it has to. -/
theorem update {batch' : Batch} (stored : st.mem b = some batch)
    (memory : st'.mem = Function.update st.mem b (some batch'))
    (phase : batch'.phase = batch.phase ∨ (Holds st.mem b rid → StageCover s st' b batch'.phase)) :
    StagesCover s rid st st' := by
  intro b₁ batch₁ stored₁ holds
  rw [memory] at stored₁
  rcases stored_update stored₁ with ⟨rfl, new⟩ | ⟨_, old⟩
  · cases new
    exact phase.imp (fun same => ⟨batch, stored, same⟩) fun ok => ok holds
  · exact .inl ⟨batch₁, old, rfl⟩

/-- Preparing a slot keeps every stage, and a new batch is pending. -/
theorem prepared {v : SlotId} (grows : Grows v st.mem st'.mem) : StagesCover s rid st st' := by
  intro b batch' stored' _
  rcases grows.new b batch' stored' with ⟨batch, stored, same⟩ | ⟨_, _, _, phase⟩
  · exact .inl ⟨batch, stored, same.phase⟩
  · refine .inr ?_
    rw [phase]
    trivial

/-- So does pushing an entry afterwards. -/
theorem pushed {v : SlotId} {mem : Addr → Option Batch} {entries : List Entry}
    (grows : Grows v st.mem mem) (stored : mem b = some batch)
    (memory : st'.mem = Function.update mem b (some { batch with entries := entries })) :
    StagesCover s rid st st' := by
  intro b₁ batch₁ stored₁ _
  rw [memory] at stored₁
  -- Pushing an entry does not change the phase.
  have middle : ∃ before, mem b₁ = some before ∧ batch₁.phase = before.phase := by
    rcases stored_update stored₁ with ⟨rfl, new⟩ | ⟨_, old⟩
    · cases new
      exact ⟨batch, stored, rfl⟩
    · exact ⟨batch₁, old, rfl⟩
  obtain ⟨before, was, phase⟩ := middle
  rcases grows.new b₁ before was with ⟨first, atFirst, same⟩ | ⟨_, _, _, pending⟩
  · exact .inl ⟨first, atFirst, phase.trans same.phase⟩
  · refine .inr ?_
    rw [phase, pending]
    trivial

end StagesCover

/-- The period of a slot lasts, and its list grows. -/
theorem Stays.lists (stays : Stays s st (t, action)) (moved : Move cfg st t action st')
    (inv : Inv cfg st) (active : st.Active s) : st'.Active s ∧ st.pushed s ⊆ st'.pushed s := by
  -- In its period, a slot only gets more entries.
  have list := moved.list inv s
  cases list with
  | kept head pushed =>
    refine ⟨?_, by rw [pushed]; exact List.Subset.refl _⟩
    rw [State.Active, head]
    exact active
  | entered => exact absurd rfl stays.entered
  | left => exact absurd rfl stays.left
  | refreshed => exact absurd rfl stays.refreshed
  | linked _ after pushed =>
    refine ⟨by simp [State.Active, after], ?_⟩
    rw [pushed]
    exact List.subset_cons_self _ _

/-- What a frame does survives a step that keeps its batch. -/
theorem FrameCover.keep {f : Frame} (lists : st.pushed s ⊆ st'.pushed s)
    (holds : ∀ b, Holds st'.mem b rid → Holds st.mem b rid)
    (kept : ∀ b, f.batchOf = some b → BatchKept st.mem st'.mem b) (ok : FrameCover s rid st f) :
    FrameCover s rid st' f := by
  -- The mark of the slot stays in the batch, and its list only grows.
  cases f with
  | scan v b start cursor marked =>
    intro held lower
    obtain ⟨j, small, mark⟩ := ok (holds b held) lower
    exact ⟨j, small, (kept b rfl).marks j s mark⟩
  | link b marked i active seen =>
    intro held
    rcases ok (holds b held) with ⟨j, low, high, mark⟩ | loaded | ⟨j, member⟩
    · exact .inl ⟨j, low, high, (kept b rfl).marks j s mark⟩
    · exact .inr (.inl loaded)
    · exact .inr (.inr ⟨j, lists member⟩)
  | _ => trivial

/-- What a stage says survives while the slot's list grows. -/
theorem StageCover.keep {phase : Phase} (lists : st.pushed s ⊆ st'.pushed s)
    (ok : StageCover s st b phase) : StageCover s st' b phase := by
  cases phase with
  | shared =>
    obtain ⟨j, member⟩ := ok
    exact ⟨j, lists member⟩
  | freeing => exact ok
  | pending | retiring => trivial

/-- At its addition, a retirer has linked an entry to the slot. -/
theorem Deferred.linked (deferred : Deferred cfg s rid st) (inv : Inv cfg st)
    {marked i active : Nat} {seen : Option (SlotId × Head)} {below : List Frame}
    (top : st.stack t = .link b marked i active seen :: below) (finished : marked ≤ i)
    (holds : Holds st.mem b rid) : ∃ j, (⟨b, j⟩ : EntryPtr) ∈ st.pushed s := by
  obtain ⟨batch, stored, phase, linking⟩ := inv.frames t below.length _ (State.frame_top top)
  rcases deferred.frames t below.length _ (State.frame_top top) holds with
    ⟨j, low, high, _⟩ | ⟨first, loaded⟩ | linked
  · -- No mark is ahead of a loop that has ended.
    split at low <;> omega
  · have := linking.inLoop (by simp [loaded])
    omega
  · exact linked

/-- A scan may pass other slots. -/
theorem scan_pass_cover {v : SlotId} {start cursor marked target : Nat} (memory : st'.mem = st.mem)
    (other : cursor ≤ s → target ≤ s) (ok : FrameCover s rid st (.scan v b start cursor marked)) :
    FrameCover s rid st' (.scan v b start target marked) := by
  intro held lower
  rw [memory] at held ⊢
  by_cases seen : s < cursor
  · exact ok held seen
  · exact absurd lower (Nat.not_lt_of_le (other (Nat.le_of_not_lt seen)))

/-- A committed batch has a mark for the slot. -/
theorem commit_cover {v : SlotId} {start cursor marked : Nat} {batch' : Batch}
    (deferred : Deferred cfg s rid st) (stored : st.mem b = some batch)
    (finished : cfg.slots ≤ cursor) (memory : st'.mem = Function.update st.mem b (some batch'))
    (same : batch'.entries = batch.entries) (holds : Holds st'.mem b rid → Holds st.mem b rid)
    (ok : FrameCover s rid st (.scan v b start cursor marked)) :
    FrameCover s rid st' (.link b marked 0 0 none) := by
  intro held
  obtain ⟨j, small, entry, read, state⟩ :=
    ok (holds held) (Nat.lt_of_lt_of_le deferred.bounded finished)
  rw [entryIn_eq (e := ⟨b, j⟩) stored] at read
  refine .inl ⟨j, Nat.zero_le j, small, entry, ?_, state⟩
  rw [memory, entryIn_update, if_pos rfl, same, read]

/-- Every move that leaves the slot in its period leaves the calls doing what they have to. -/
theorem Move.framesCover (moved : Move cfg st t action st') (sound : Sound cfg st)
    (deferred : Deferred cfg s rid st) (lists : st.pushed s ⊆ st'.pushed s)
    (holds : ∀ b, Holds st'.mem b rid → Holds st.mem b rid) : FramesCover s rid st st' := by
  have inv := sound.inv
  have untouched : ∀ {st₂ : State}, st₂.mem = st.mem → ∀ b, BatchKept st.mem st₂.mem b :=
    fun memory b => .same (by rw [memory])
  -- Steps that change neither stacks nor memory.
  have plain : ∀ {st₂ : State}, st₂.stack = st.stack → st₂.mem = st.mem →
      FramesCover s rid st st₂ :=
    fun stack memory => .same stack fun _ _ _ b _ _ => untouched memory b
  -- Steps of the innermost call that only change its frame.
  have framed : ∀ {f : Frame} (fs : List Frame) {below : List Frame} {st₂ : State},
      st.stack t = f :: below → st₂.stack = Function.update st.stack t (fs ++ below) →
      st₂.mem = st.mem → (∀ g ∈ fs, FrameCover s rid st₂ g) → FramesCover s rid st st₂ :=
    fun fs _ _ top stack memory new =>
      .top fs top stack (fun _ _ _ b _ _ _ => untouched memory b) new
  -- Preparing a slot keeps the batches of calls in progress.
  have prepared : ∀ {v : SlotId} {st₁ : State}, Prep cfg v { st with nextRid := st.nextRid + 1 } st₁ →
      ∀ t height f b, st.frame t height = some f → f.batchOf = some b →
        BatchKept st.mem st₁.mem b := by
    intro v st₁ prep t' height f b found named
    obtain ⟨batch, stored⟩ := inv.allocated found named
    exact prep.grows.batchKept stored
  cases moved with
  | known => exact plain rfl rfl
  | create => exact plain rfl rfl
  | enter => exact plain rfl rfl
  | flushNone => exact plain rfl rfl
  | access => exact plain rfl rfl
  | leaveIdle => exact plain rfl rfl
  | refreshIdle => exact plain rfl rfl
  | leave => exact .call rfl (fun _ _ _ b _ _ => untouched rfl b) trivial
  | refresh => exact .call rfl (fun _ _ _ b _ _ => untouched rfl b) trivial
  | reclaimAll => exact .call rfl (fun _ _ _ b _ _ => untouched rfl b) trivial
  | flush =>
    refine .call rfl (fun _ _ _ b _ _ => untouched rfl b) fun _ lower => ?_
    cases lower
  | refused _ prep =>
    have kept := prepared prep
    exact .same prep.same.1 kept
  | @immediate v p f c st₁ _ prep =>
    have kept := prepared prep
    refine .call (f := .reclaimer st.nextRid p f) (t := t) ?_ kept trivial
    simp [State.call, State.setStack, State.record, prep.same.1]
  | reserve _ prep =>
    refine .same prep.same.1 fun t' height f b found named => ?_
    obtain ⟨batch, stored⟩ := inv.allocated found named
    exact prep.grows.batchKept stored
  | pushed _ prep _ stored =>
    refine .same prep.same.1 fun t' height f b found named => ?_
    exact (prepared prep t' height f b found named).trans (.push stored)
  | @filled v p f c st₁ b batch _ prep _ stored =>
    refine .call (f := .scan v b st.clock 0 0) (t := t) ?_ (fun t' height f b found named => ?_)
      fun _ lower => ?_
    · simp [State.call, State.setStack, pushEntry, State.record, State.setBatch, prep.same.1]
    · exact (prepared prep t' height f b found named).trans (.push stored)
    · cases lower
  | ret top | abort top | done top | finish top => exact framed [] top rfl rfl (by simp)
  | panic top =>
    intro t' height f found
    exact .inl ⟨State.frame_suffix (suffix_of_top top (unwind_suffix _)) rfl found,
      fun b _ => untouched rfl b⟩
  | @skipScan v b start cursor marked below target top bounded forward absent =>
    refine framed [_] top rfl rfl fun g member => ?_
    rw [List.mem_singleton.mp member]
    refine scan_pass_cover rfl (fun low => ?_) (deferred.frames t _ _ (State.frame_top top))
    exact (absent s deferred.present).resolve_left (Nat.not_lt_of_le low)
  | @pass v b start cursor marked below batch spurious top stored more idle =>
    refine framed [_] top rfl rfl fun g member => ?_
    rw [List.mem_singleton.mp member]
    refine scan_pass_cover rfl (fun low => ?_) (deferred.frames t _ _ (State.frame_top top))
    -- The slot at the cursor is another one, which is absent or inactive.
    refine Nat.lt_of_le_of_ne low ?_
    rintro rfl
    rcases idle with absent | inactive
    · exact absent deferred.present
    · exact deferred.active inactive
  | @mark v b start cursor marked below batch spurious top stored more present active room =>
    have held := (inv.frames t _ _ (State.frame_top top)).1
    refine .top [_] top rfl (fun t' height g b₁ found low named => ?_) fun g member => ?_
    · refine .same (Function.update_of_ne ?_ _ _)
      rintro rfl
      obtain ⟨rfl, rfl⟩ := inv.scan_alone top held (by simp [Frame.usesBatch]) found named
      exact absurd (low rfl) (Nat.lt_irrefl _)
    · rw [List.mem_singleton.mp member]
      intro there lower
      have marks := deferred.frames t _ _ (State.frame_top top) (holds b there)
      exact scan_marks stored room rfl marks lower
  | @commit v b start cursor marked below batch spurious top stored finished =>
    have held := (inv.frames t _ _ (State.frame_top top)).1
    refine .top [_] top rfl (fun t' height g b₁ found low named => ?_) fun g member => ?_
    · refine .same (Function.update_of_ne ?_ _ _)
      rintro rfl
      obtain ⟨rfl, rfl⟩ := inv.scan_alone top held (by simp [Frame.usesBatch]) found named
      exact absurd (low rfl) (Nat.lt_irrefl _)
    · rw [List.mem_singleton.mp member]
      exact commit_cover deferred stored finished rfl rfl (holds b)
        (deferred.frames t _ _ (State.frame_top top))
  | @load b marked i active below batch entry v spurious top stored more found state =>
    refine framed [_] top rfl rfl fun g member => ?_
    rw [List.mem_singleton.mp member]
    intro there
    have cover := deferred.frames t _ _ (State.frame_top top) (holds b there)
    exact LinkCover.load rfl stored found state deferred.active lists cover
  | @gone b marked i active v below batch spurious top =>
    refine framed [_] top rfl rfl fun g member => ?_
    rw [List.mem_singleton.mp member]
    intro there
    exact (deferred.frames t _ _ (State.frame_top top) (holds b there)).gone rfl lists
  | @publish b marked i active v prev below batch spurious top stored more same =>
    obtain ⟨batch₀, stored₀, phase, linking⟩ := inv.frames t _ _ (State.frame_top top)
    cases stored.symm.trans stored₀
    refine .top [_] top rfl (fun t' height g b₁ found low named => ?_) fun g member => ?_
    · refine .same (Function.update_of_ne ?_ _ _)
      rintro rfl
      obtain ⟨rfl, rfl⟩ := inv.link_unique stored phase found named
      exact absurd (low rfl) (Nat.lt_irrefl _)
    · rw [List.mem_singleton.mp member]
      intro there
      have cover := deferred.frames t _ _ (State.frame_top top) (holds b there)
      refine LinkCover.publish stored rfl (fun j other => ?_) ?_ lists cover
      · simp [Batch.setLink_get, Batch.setState_get, Ne.symm other]
      · simp [State.setStack, State.setBatch]
  | @retry b marked i active v prev below batch spurious top stored more =>
    obtain ⟨batch₀, stored₀, phase, linking⟩ := inv.frames t _ _ (State.frame_top top)
    cases stored.symm.trans stored₀
    refine .top [_] top rfl (fun t' height g b₁ found low named => ?_) fun g member => ?_
    · refine .same (Function.update_of_ne ?_ _ _)
      rintro rfl
      obtain ⟨rfl, rfl⟩ := inv.link_unique stored phase found named
      exact absurd (low rfl) (Nat.lt_irrefl _)
    · rw [List.mem_singleton.mp member]
      intro there
      have cover := deferred.frames t _ _ (State.frame_top top) (holds b there)
      refine LinkCover.retry stored rfl (fun j other => ?_) deferred.active lists cover
      simp [Batch.setState_get, Ne.symm other]
  | addShare top stored =>
    refine .top [] top rfl (fun t' height g b₁ _ _ _ => ?_) (by simp)
    exact .update stored rfl rfl fun j entry read => ⟨entry, read, rfl⟩
  | addFree top stored =>
    refine .top [_] top rfl (fun t' height g b₁ _ _ _ => ?_) (by simp [FrameCover])
    exact .update stored rfl rfl fun j entry read => ⟨entry, read, rfl⟩
  | @releaseFree curr rest below entry next batch spurious top read state stored =>
    refine .top [_, _] top rfl (fun t' height g b₁ _ _ _ => ?_) (by simp [FrameCover])
    exact .update stored rfl rfl (release_states batch curr.index)
  | @releaseCount curr rest below entry next batch spurious top read state stored =>
    refine .top [_] top rfl (fun t' height g b₁ _ _ _ => ?_) (by simp [FrameCover])
    exact .update stored rfl rfl (release_states batch curr.index)
  | invoke top => exact framed [_, _] top rfl rfl (by simp [FrameCover])
  | @dealloc b i below batch spurious top stored =>
    obtain ⟨b', batch₀, eq, stored₀, phase⟩ := inv.frames t _ _ (State.frame_top top)
    cases eq
    cases stored.symm.trans stored₀
    refine .top [] top rfl (fun t' height g b₁ found low named => ?_) (by simp)
    refine .same (Function.update_of_ne ?_ _ _)
    rintro rfl
    obtain ⟨rfl, rfl⟩ := inv.free_unique stored phase found named
    exact absurd (low rfl) (Nat.lt_irrefl _)
  | skipReclaim top | next top | reset top => exact framed [_] top rfl rfl (by simp [FrameCover])
  | take top _ _ _ stored =>
    refine .top [_, _] top rfl (fun t' height g b₁ _ _ _ => ?_) (by simp [FrameCover])
    exact .update stored rfl rfl fun j entry read => ⟨entry, read, rfl⟩
  | takeWrong top => exact framed [_, _] top rfl rfl (by simp [FrameCover])

/-- Every move that leaves the slot in its period keeps the batch of the retirement from being freed. -/
theorem Move.stagesCover (moved : Move cfg st t action st') (sound : Sound cfg st)
    (permitted : Disciplined cfg st (t, action)) (deferred : Deferred cfg s rid st)
    (stays : Stays s st (t, action)) : StagesCover s rid st st' := by
  have inv := sound.inv
  -- After the step, too, nothing that is on a list is being freed.
  have after := moved.inv inv permitted sound.sentinel
  have lists := (stays.lists moved inv deferred.active).2
  cases moved with
  | refused _ prep | immediate _ prep | reserve _ prep => exact .prepared prep.grows
  | pushed _ prep _ stored | filled _ prep _ stored => exact .pushed prep.grows stored rfl
  | commit _ stored => exact .update stored rfl (.inr fun _ => trivial)
  | mark _ stored | publish _ stored | retry _ stored | releaseCount _ _ _ stored =>
    exact .update stored rfl (.inl rfl)
  | addShare top stored finished =>
    refine .update stored rfl (.inr fun holds => ?_)
    exact deferred.linked inv top finished holds
  | addFree top stored finished =>
    refine .update stored rfl (.inr fun holds => ?_)
    obtain ⟨j, member⟩ := deferred.linked inv top finished holds
    exact after.not_freeing (Function.update_self ..) rfl member
  | releaseFree top read state stored one =>
    obtain ⟨owner, tail, rfl, visit⟩ := inv.visit top read state stored
    refine .update stored rfl (.inr fun holds => ?_)
    have stage := deferred.stages _ _ stored holds
    rw [(visit.last inv one).1] at stage
    obtain ⟨j, member⟩ := stage
    exact after.not_freeing (Function.update_self ..) rfl member
  | @dealloc b i below batch spurious top stored =>
    intro b₁ batch₁ stored₁ _
    rcases stored_update stored₁ with ⟨_, new⟩ | ⟨_, old⟩
    · cases new
    · exact .inl ⟨batch₁, old, rfl⟩
  | take top =>
    -- While the slot is active, `reclaim_all` takes nothing.
    exact absurd deferred.active (stays.quiet _ _ top _ rfl s)
  | known | create | enter | leaveIdle | leave | refreshIdle | refresh | flushNone | flush
  | reclaimAll | access | ret | panic | skipScan | skipReclaim | pass | abort | load | gone | done
  | invoke | finish | next | takeWrong | reset => exact .same rfl

/-- The reclaimer of the retirement is not invoked. -/
theorem Change.waiting (change : Change st st' t action) (inv : Inv cfg st)
    (deferred : Deferred cfg s rid st) : ∀ p f scanned, .reclaimed rid p f scanned ∉ st'.log := by
  intro p f scanned member
  -- An event of another retirement is none of this one.
  have old : ∀ new : List Event, st'.log = new ++ st.log →
      (∀ event ∈ new, event ≠ .reclaimed rid p f scanned) → False := by
    intro new log other
    rw [log] at member
    rcases List.mem_append.mp member with added | before
    · exact other _ added rfl
    · exact deferred.waiting p f scanned before
  have known := deferred.known
  cases change with
  | plain new log silent =>
    refine old new log fun event inside is => ?_
    have none_ := silent event inside
    rw [is] at none_
    cases none_
  | refused log => exact old [_] log (by simp)
  | pushed log => exact old [_] log (by simp)
  | immediate log =>
    refine old [_, _] log ?_
    simp only [List.mem_cons, List.not_mem_nil, or_false, forall_eq_or_imp, forall_eq]
    refine ⟨?_, by simp⟩
    rintro ⟨⟩
    exact Nat.lt_irrefl _ known
  | @invoke e below batch object spurious top stored found log =>
    refine old [_] log fun event inside is => ?_
    rw [List.mem_singleton.mp inside] at is
    cases is
    -- The batch of an invoked reclaimer is being freed.
    obtain ⟨b, batch₀, eq, stored₀, phase⟩ := inv.frames t below.length _ (State.frame_top top)
    cases eq
    have stage := deferred.stages _ _ stored₀ ⟨e.index, object, found, rfl⟩
    rw [phase] at stage
    exact stage
  | dealloc _ _ _ _ log => exact old [] log (by simp)

/-- The step lemma: while its slot stays in its period, a retirement waits. -/
theorem Deferred.step {move : Tid × Action} (deferred : Deferred cfg s rid st)
    (sound : Sound cfg st) (permitted : Disciplined cfg st move) (stays : Stays s st move)
    (ran : Raw.step cfg st move = .ok st') : Deferred cfg s rid st' := by
  obtain ⟨st₁, moved, rfl⟩ := step_move ran
  have inv := sound.inv
  have change := moved.change
  obtain ⟨active, lists⟩ := stays.lists moved inv deferred.active
  -- No batch comes to hold an object that was retired before.
  have holds : ∀ b, Holds st₁.mem b rid → Holds st.mem b rid :=
    fun b => change.holds deferred.known
  have frames := moved.framesCover sound deferred lists holds
  have stages := moved.stagesCover sound permitted deferred stays
  refine ⟨active, moved.created s deferred.present, deferred.bounded,
    Nat.lt_of_lt_of_le deferred.known change.nextRid, ?_, ?_, change.waiting inv deferred⟩
  · intro t height f found
    rcases frames t height f found with ⟨old, kept⟩ | ok
    · exact (deferred.frames t height f old).keep lists holds kept
    · exact ok
  · intro b batch stored there
    rcases stages b batch stored (holds b there) with ⟨before, was, phase⟩ | ok
    · rw [phase]
      exact (deferred.stages b before was (holds b there)).keep lists
    · exact ok

/-- A disciplined run that leaves a slot in its activity period. -/
def Steady (cfg : Config) (s : SlotId) (st : State) (move : Tid × Action) : Prop :=
  Balanced cfg st move ∧ Stays s st move

/-- The run lemma: the retirement waits for as long as the period lasts. -/
theorem Deferred.run (sound : Sound cfg st) (deferred : Deferred cfg s rid st)
    (run : Reachable (Raw.step cfg) (Steady cfg s) st st') :
    Sound cfg st' ∧ Deferred cfg s rid st' := by
  refine run.invariant (fun st => Sound cfg st ∧ Deferred cfg s rid st) ⟨sound, deferred⟩ ?_
  rintro st move st' _ ⟨sound, deferred⟩ ⟨balanced, stays⟩ ran
  exact ⟨sound.step balanced.1 ran, deferred.step sound balanced.1 stays ran⟩

/-- Retirement numbers in use have been handed out. -/
structure Numbered (st : State) : Prop where
  logged : ∀ event ∈ st.log, ∀ rid, event.rid = some rid → rid < st.nextRid
  stored : ∀ e object, objectAt st.mem e = some object → object.rid < st.nextRid

/-- A step hands out at most the next number. -/
theorem Change.numbered (change : Change st st' t action) (numbered : Numbered st) :
    Numbered st' := by
  have next := change.nextRid
  -- Old events and objects have smaller numbers.
  have logged : ∀ new : List Event, st'.log = new ++ st.log →
      (∀ event ∈ new, ∀ rid, event.rid = some rid → rid < st'.nextRid) →
      ∀ event ∈ st'.log, ∀ rid, event.rid = some rid → rid < st'.nextRid := by
    intro new log fresh event member rid is
    rw [log] at member
    rcases List.mem_append.mp member with added | before
    · exact fresh event added rid is
    · exact Nat.lt_of_lt_of_le (numbered.logged event before rid is) next
  have stored : objectAt st'.mem = objectAt st.mem →
      ∀ e object, objectAt st'.mem e = some object → object.rid < st'.nextRid := by
    intro same e object found
    rw [same] at found
    exact Nat.lt_of_lt_of_le (numbered.stored e object found) next
  cases change with
  | plain new log silent _ objects =>
    refine ⟨logged new log fun event member rid is => ?_, stored objects⟩
    rw [silent event member] at is
    cases is
  | refused log after objects =>
    exact ⟨logged [_] log (by simp [Event.rid, after]), stored objects⟩
  | immediate log after _ objects =>
    exact ⟨logged [_, _] log (by simp [Event.rid, after]), stored objects⟩
  | pushed log after _ _ objects =>
    refine ⟨logged [_] log (by simp [Event.rid, after]), fun e object found => ?_⟩
    rw [objects] at found
    split at found
    · cases found
      rw [after]
      exact Nat.lt_succ_self _
    · exact Nat.lt_of_lt_of_le (numbered.stored e object found) next
  | invoke _ _ found log after objects =>
    have small := numbered.stored _ _ found
    exact ⟨logged [_] log (by simp [Event.rid, after, small]), stored objects⟩
  | dealloc _ _ _ memory log =>
    refine ⟨logged [] log (by simp), fun e object found => ?_⟩
    rw [memory, objectAt_dealloc] at found
    split at found
    · cases found
    · exact Nat.lt_of_lt_of_le (numbered.stored e object found) next

/-- The run lemma, for every run. -/
theorem reachable_numbered {allowed : State → Tid × Action → Prop}
    (run : Reachable (Raw.step cfg) allowed State.init st) : Numbered st := by
  have base : Numbered State.init := by
    refine ⟨fun event member => ?_, fun e object found => ?_⟩
    · cases member
    · cases found
  refine run.invariant Numbered base ?_
  intro st move st' _ numbered _ ran
  obtain ⟨st₁, moved, rfl⟩ := step_move ran
  have after := moved.change.numbered numbered
  exact ⟨after.logged, after.stored⟩

/-- No call works on the batch of a slot that nobody scans. -/
theorem Inv.batch_unused {t' : Tid} {height : Nat} {f : Frame} (inv : Inv cfg st)
    (held : st.batch s = .ptr b) (unused : f.scanSlot ≠ some s)
    (found : st.frame t' height = some f) : f.batchOf ≠ some b := by
  intro named
  have ok := inv.frames t' height f found
  obtain ⟨batch, stored, pending⟩ := inv.slots s b held
  cases f with
  | scan v b' start cursor marked =>
    cases named
    -- A scan of the batch is a scan of its slot.
    obtain rfl := inv.local_injective held ok.1
    exact unused rfl
  | link b' marked i active seen =>
    cases named
    obtain ⟨batch', stored', retiring, _⟩ := ok
    cases stored.symm.trans stored'
    rw [pending] at retiring
    cases retiring
  | freeBatch batchPtr i =>
    obtain ⟨b', batch', rfl, stored', freeing⟩ := ok
    cases named
    cases stored.symm.trans stored'
    rw [pending] at freeing
    cases freeing
  | reclaimer | traverse | reclaimAll | reclaimReset => cases named

/-- While its only user runs user code, the batch of a slot is not scanned. -/
theorem UniqueAccess.unscanned (unique : UniqueAccess st t s) (inv : Inv cfg st)
    (user : userLevel (st.stack t) = true) :
    ∀ t', ∀ f ∈ st.stack t', f.scanSlot ≠ some s := by
  intro t' f member is
  cases f with
  | scan v b start cursor marked =>
    cases is
    by_cases mine : t' = t
    · subst mine
      cases (inv.tops t').of_userLevel user _ member
    · have free := unique t' mine _ member
      simp [Frame.usesBatch] at free
  | _ => cases is

/-- The new frame of a thread that ran user code, if there is one, is a scan at its start. -/
def Begins (s : SlotId) (b : Addr) (st st' : State) (t : Tid) : Prop :=
  st'.stack = st.stack ∨ ∃ start,
    st'.stack = Function.update st.stack t (.scan s b start 0 0 :: st.stack t)

/-- A retirement that was just pushed waits for its slot. -/
theorem Deferred.begin {st₁ : State} (inv : Inv cfg st') (unscanned : ∀ t', ∀ f ∈ st.stack t',
      f.scanSlot ≠ some s) (active : st'.Active s) (present : s ∈ st'.created)
    (bounded : s < cfg.slots) (held : st'.batch s = .ptr b) (begins : Begins s b st st' t)
    (old : ∀ e object, objectAt st₁.mem e = some object → object.rid < rid)
    (stored : st₁.mem b = some batch) (p : Ptr) (f : Reclaim)
    (memory : st'.mem = Function.update st₁.mem b (some { batch with
      entries := batch.entries ++ [newEntry b p f rid] }))
    (known : rid < st'.nextRid) (waiting : ∀ p f scanned, .reclaimed rid p f scanned ∉ st'.log) :
    Deferred cfg s rid st' := by
  -- The retirement is in the batch of its slot only.
  have only : ∀ b', Holds st'.mem b' rid → b' = b := by
    rintro b' ⟨j, object, found, is⟩
    rw [memory, objectAt_push stored] at found
    split at found
    · rename_i here
      exact congrArg EntryPtr.batch here
    · exact absurd is (Nat.ne_of_lt (old _ _ found))
  obtain ⟨after, stored', pending⟩ := inv.slots s b held
  refine ⟨active, present, bounded, known, ?_, ?_, waiting⟩
  · intro t' height g found
    -- Calls that were in progress do not work on the batch, and a new one has passed no slot.
    have fresh : g.batchOf ≠ some b ∨ ∃ start, g = .scan s b start 0 0 := by
      rcases begins with stack | ⟨start, stack⟩
      · refine .inl (inv.batch_unused held (unscanned t' g ?_) found)
        rw [← stack]
        exact mem_of_frameAt found
      · rcases State.frame_call stack found with ⟨_, _, rfl⟩ | before
        · exact .inr ⟨start, rfl⟩
        · exact .inl (inv.batch_unused held (unscanned t' g (mem_of_frameAt before)) found)
    rcases fresh with other | ⟨start, rfl⟩
    · cases g with
      | scan v b' start cursor marked | link b' marked i active seen =>
        intro holds
        rw [only b' holds] at other
        exact absurd rfl other
      | _ => trivial
    · intro _ lower
      cases lower
  · intro b' batch' stored₂ holds
    rw [only b' holds] at stored₂
    cases stored'.symm.trans stored₂
    rw [pending]
    trivial

/-- A retirement that is accepted outside of `reclaim_all` waits for its slot. -/
theorem add_deferred {p : Ptr} {f : Reclaim} {c : Alloc} (sound : Sound cfg st)
    (numbered : Numbered st) (permitted : Disciplined cfg st (t, .add s p f c))
    (active : st.Active s) (present : s ∈ st.created) (notDrop : st.batch s ≠ .drop)
    (ran : Raw.step cfg st (t, .add s p f c) = .ok st')
    (accepted : .retired st.nextRid p f ∈ st'.log) : Deferred cfg s st.nextRid st' := by
  have after := (sound.step permitted ran).inv
  obtain ⟨st₁, moved, rfl⟩ := step_move ran
  have unscanned : userLevel (st.stack t) = true → ∀ t', ∀ f ∈ st.stack t', f.scanSlot ≠ some s :=
    permitted.1.2.unscanned sound.inv
  have waiting : ∀ {log : List Event}, log = .retired st.nextRid p f :: st.log →
      ∀ p f scanned, .reclaimed st.nextRid p f scanned ∉ log := by
    rintro log rfl p' f' scanned member
    have earlier : Event.reclaimed st.nextRid p' f' scanned ∈ st.log := by simpa using member
    exact Nat.lt_irrefl _ (numbered.logged _ earlier _ rfl)
  have objects : ∀ {st₂ : State}, Prep cfg s { st with nextRid := st.nextRid + 1 } st₂ →
      ∀ e object, objectAt st₂.mem e = some object → object.rid < st.nextRid := by
    intro st₂ prep e object found
    rw [prep.objects] at found
    exact numbered.stored e object found
  have isActive : ∀ {st₂ : State}, st₂.head = st.head → st₂.Active s := by
    intro st₂ heads
    rw [State.Active, heads]
    exact active
  cases moved with
  | refused _ prep =>
    -- The number of a retirement that returns an error is in no other event.
    obtain ⟨_, _, _, _, _, _, _, log, _⟩ := prep.same
    have logged : Event.retired st.nextRid p f ∈ Event.refused st.nextRid :: st.log :=
      (congrArg (Event.retired st.nextRid p f ∈ Event.refused st.nextRid :: ·) log).mp accepted
    have earlier : Event.retired st.nextRid p f ∈ st.log := by simpa using logged
    exact absurd (numbered.logged _ earlier _ rfl) (Nat.lt_irrefl _)
  | immediate _ prep held => exact absurd ((prep.drops s).mp held) notDrop
  | @pushed _ _ _ _ st₁ b batch user prep held stored =>
    obtain ⟨stack, head, _, created, _, _, _, log, next, _⟩ := prep.same
    refine Deferred.begin (t := t) after (unscanned user) (isActive head) ?_ permitted.1.1 held
      (.inl stack) (objects prep) stored p f rfl ?_ (waiting (congrArg _ log))
    · exact (congrArg (s ∈ ·) created).mpr present
    · exact Nat.lt_of_lt_of_eq (Nat.lt_succ_self _) next.symm
  | @filled _ _ _ _ st₁ b batch user prep held stored =>
    obtain ⟨stack, head, _, created, _, _, _, log, next, _⟩ := prep.same
    refine Deferred.begin (t := t) after (unscanned user) (isActive head) ?_ permitted.1.1 held
      (.inr ⟨st.clock, ?_⟩) (objects prep) stored p f rfl ?_ (waiting (congrArg _ log))
    · exact (congrArg (s ∈ ·) created).mpr present
    · simp [tick, State.call, State.setStack, pushEntry, State.record, State.setBatch, stack]
    · exact Nat.lt_of_lt_of_eq (Nat.lt_succ_self _) next.symm

end Seize.Raw
