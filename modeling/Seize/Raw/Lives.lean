import Seize.Raw.Check

/-! The life of a batch as the log tells it: committed, counted, and freed once. -/

namespace Seize.Raw

variable {cfg : Config} {st st' : State} {t : Tid} {action : Action} {b : Addr} {batch : Batch}

/-- The batch an event belongs to. -/
def Event.uid : Event → Option Nat
  | .committed uid => some uid
  | .counted uid => some uid
  | .freed uid _ => some uid
  | _ => none

/-- The events of one batch, newest first. -/
def history (log : List Event) (uid : Nat) : List Event := log.filter (·.uid = some uid)

/-- An event of a batch is added to the history of that batch. -/
@[simp] theorem history_cons (event : Event) (log : List Event) (uid : Nat) :
    history (event :: log) uid =
      if event.uid = some uid then event :: history log uid else history log uid := by
  simp only [history, List.filter_cons, decide_eq_true_eq]

/--
The three lives a batch can end with.

The retirer's addition reached zero, or a later decrement read one, or `reclaim_all` took it.
-/
def FreedLife (uid : Nat) (life : List Event) : Prop :=
  life = [.freed uid .fetchAdd, .counted uid, .committed uid] ∨
    life = [.freed uid .fetchSub, .counted uid, .committed uid] ∨
      life = [.freed uid .reclaimAll]

/-- The events of a batch, by its stage. -/
def LifeAt (uid : Nat) (life : List Event) : Phase → Prop
  | .pending _ => life = []
  | .retiring _ _ => life = [.committed uid]
  | .shared => life = [.counted uid, .committed uid]
  | .freeing _ _ => FreedLife uid life

/-- The log and the stages of the allocated batches agree. -/
structure Lives (st : State) : Prop where
  fresh : ∀ uid, st.nextUid ≤ uid → history st.log uid = []
  named : ∀ b batch, st.mem b = some batch → batch.uid < st.nextUid
  staged : ∀ b batch, st.mem b = some batch →
    LifeAt batch.uid (history st.log batch.uid) batch.phase
  distinct : ∀ b b' batch batch', st.mem b = some batch → st.mem b' = some batch' →
    batch.uid = batch'.uid → b = b'
  /-- What is not allocated any more has been freed. -/
  gone : ∀ uid, uid < st.nextUid → (∀ b batch, st.mem b = some batch → batch.uid ≠ uid) →
    FreedLife uid (history st.log uid)

/-- A change of memory in which every batch keeps its address, its name and its stage. -/
structure SameLives (mem mem' : Addr → Option Batch) : Prop where
  forth : ∀ b batch, mem b = some batch →
    ∃ batch', mem' b = some batch' ∧ batch'.uid = batch.uid ∧ batch'.phase = batch.phase
  back : ∀ b batch', mem' b = some batch' →
    ∃ batch, mem b = some batch ∧ batch'.uid = batch.uid ∧ batch'.phase = batch.phase

/-- Memory that is not written keeps its batches. -/
theorem SameLives.refl (mem : Addr → Option Batch) : SameLives mem mem :=
  ⟨fun _ batch stored => ⟨batch, stored, rfl, rfl⟩, fun _ batch stored => ⟨batch, stored, rfl, rfl⟩⟩

/-- Writing to the entries, the count or the capacity of a batch keeps its name and stage. -/
theorem SameLives.update {mem : Addr → Option Batch} {batch' : Batch} (stored : mem b = some batch)
    (uid : batch'.uid = batch.uid) (phase : batch'.phase = batch.phase) :
    SameLives mem (Function.update mem b (some batch')) := by
  refine ⟨fun b₁ batch₁ stored₁ => ?_, fun b₁ batch₁ stored₁ => ?_⟩
  · by_cases here : b₁ = b
    · subst here
      obtain rfl : batch = batch₁ := Option.some.inj (stored.symm.trans stored₁)
      exact ⟨batch', Function.update_self .., uid, phase⟩
    · exact ⟨batch₁, by rw [Function.update_of_ne here, stored₁], rfl, rfl⟩
  · rcases stored_update stored₁ with ⟨rfl, new⟩ | ⟨_, old⟩
    · cases new
      exact ⟨batch, stored, uid, phase⟩
    · exact ⟨batch₁, old, rfl, rfl⟩

/-- The rule for steps that neither restage a batch nor record anything about one. -/
theorem Lives.keep (lives : Lives st) (same : SameLives st.mem st'.mem)
    (next : st'.nextUid = st.nextUid) (log : ∀ uid, history st'.log uid = history st.log uid) :
    Lives st' where
  -- Batches keep their lives, so every statement is carried back to the old memory.
  fresh := by
    intro uid large
    rw [log]
    exact lives.fresh uid (next ▸ large)
  named := by
    intro b batch' stored'
    obtain ⟨batch, stored, uid, _⟩ := same.back b batch' stored'
    rw [uid, next]
    exact lives.named b batch stored
  staged := by
    intro b batch' stored'
    obtain ⟨batch, stored, uid, phase⟩ := same.back b batch' stored'
    rw [uid, phase, log]
    exact lives.staged b batch stored
  distinct := by
    intro b₁ b₂ batch₁ batch₂ stored₁ stored₂ eq
    obtain ⟨old₁, was₁, uid₁, _⟩ := same.back b₁ batch₁ stored₁
    obtain ⟨old₂, was₂, uid₂, _⟩ := same.back b₂ batch₂ stored₂
    exact lives.distinct b₁ b₂ old₁ old₂ was₁ was₂ (uid₁.symm.trans (eq.trans uid₂))
  gone := by
    intro uid small absent
    rw [log]
    refine lives.gone uid (next ▸ small) fun b batch stored => ?_
    obtain ⟨batch', stored', uid', _⟩ := same.forth b batch stored
    rw [← uid']
    exact absent b batch' stored'

/-- The rule for steps that move one batch to another stage and record it. -/
theorem Lives.restage {batch' : Batch} (lives : Lives st) (stored : st.mem b = some batch)
    (memory : st'.mem = Function.update st.mem b (some batch')) (uid : batch'.uid = batch.uid)
    (next : st'.nextUid = st.nextUid)
    (log : ∀ other, other ≠ batch.uid → history st'.log other = history st.log other)
    (life : LifeAt batch.uid (history st'.log batch.uid) batch'.phase) : Lives st' := by
  -- An allocated batch is the restaged one, or one that was there with another name.
  have inv : ∀ b₁ batch₁, st'.mem b₁ = some batch₁ → (b₁ = b ∧ batch₁ = batch') ∨
      (st.mem b₁ = some batch₁ ∧ batch₁.uid ≠ batch.uid) := by
    intro b₁ batch₁ stored₁
    rw [memory] at stored₁
    rcases stored_update stored₁ with ⟨rfl, new⟩ | ⟨other, old⟩
    · exact .inl ⟨rfl, (Option.some.inj new).symm⟩
    · exact .inr ⟨old, fun eq => other (lives.distinct b₁ b batch₁ batch old stored eq)⟩
  have small := lives.named b batch stored
  refine ⟨?_, ?_, ?_, ?_, ?_⟩
  · intro other large
    rw [next] at large
    rw [log other (by omega)]
    exact lives.fresh other large
  · intro b₁ batch₁ stored₁
    rw [next]
    rcases inv b₁ batch₁ stored₁ with ⟨_, rfl⟩ | ⟨old, _⟩
    · rw [uid]
      exact small
    · exact lives.named b₁ batch₁ old
  · intro b₁ batch₁ stored₁
    rcases inv b₁ batch₁ stored₁ with ⟨_, rfl⟩ | ⟨old, other⟩
    · rw [uid]
      exact life
    · rw [log _ other]
      exact lives.staged b₁ batch₁ old
  · intro b₁ b₂ batch₁ batch₂ stored₁ stored₂ eq
    rcases inv b₁ batch₁ stored₁ with ⟨rfl, rfl⟩ | ⟨old₁, other₁⟩
    · rcases inv b₂ batch₂ stored₂ with ⟨rfl, _⟩ | ⟨_, other₂⟩
      · rfl
      · exact absurd (eq.symm.trans uid) other₂
    · rcases inv b₂ batch₂ stored₂ with ⟨rfl, rfl⟩ | ⟨old₂, _⟩
      · exact absurd (eq.trans uid) other₁
      · exact lives.distinct b₁ b₂ batch₁ batch₂ old₁ old₂ eq
  · intro other below absent
    have differs : other ≠ batch.uid := by
      intro same
      refine absent b batch' (by rw [memory, Function.update_self]) ?_
      rw [uid, same]
    rw [log other differs]
    refine lives.gone other (next ▸ below) fun b₁ batch₁ stored₁ => ?_
    by_cases here : b₁ = b
    · subst here
      obtain rfl : batch = batch₁ := Option.some.inj (stored.symm.trans stored₁)
      exact differs.symm
    · exact absent b₁ batch₁ (by rw [memory, Function.update_of_ne here, stored₁])

/-- A fresh batch gets a fresh name. -/
theorem Lives.alloc (lives : Lives st) (free : st.mem b = none) (uid : batch.uid = st.nextUid)
    (pending : ∃ s, batch.phase = .pending s)
    (memory : st'.mem = Function.update st.mem b (some batch)) (next : st'.nextUid = st.nextUid + 1)
    (log : st'.log = st.log) : Lives st' := by
  have inv : ∀ b₁ batch₁, st'.mem b₁ = some batch₁ →
      (b₁ = b ∧ batch₁ = batch) ∨ st.mem b₁ = some batch₁ := by
    intro b₁ batch₁ stored₁
    rw [memory] at stored₁
    rcases stored_update stored₁ with ⟨rfl, new⟩ | ⟨_, old⟩
    · exact .inl ⟨rfl, (Option.some.inj new).symm⟩
    · exact .inr old
  refine ⟨?_, ?_, ?_, ?_, ?_⟩
  · intro other large
    rw [log]
    exact lives.fresh other (by omega)
  · intro b₁ batch₁ stored₁
    rcases inv b₁ batch₁ stored₁ with ⟨_, rfl⟩ | old
    · omega
    · have := lives.named b₁ batch₁ old
      omega
  · intro b₁ batch₁ stored₁
    rw [log]
    rcases inv b₁ batch₁ stored₁ with ⟨_, rfl⟩ | old
    · -- Nothing is recorded about a name that was not handed out.
      obtain ⟨s, phase⟩ := pending
      rw [phase, uid]
      exact lives.fresh _ (Nat.le_refl _)
    · exact lives.staged b₁ batch₁ old
  · intro b₁ b₂ batch₁ batch₂ stored₁ stored₂ eq
    rcases inv b₁ batch₁ stored₁ with ⟨rfl, rfl⟩ | old₁
    · rcases inv b₂ batch₂ stored₂ with ⟨rfl, _⟩ | old₂
      · rfl
      · have := lives.named b₂ batch₂ old₂
        omega
    · rcases inv b₂ batch₂ stored₂ with ⟨rfl, rfl⟩ | old₂
      · have := lives.named b₁ batch₁ old₁
        omega
      · exact lives.distinct b₁ b₂ batch₁ batch₂ old₁ old₂ eq
  · intro other below absent
    rw [log]
    have differs : other ≠ st.nextUid := by
      intro same
      exact absent b batch (by rw [memory, Function.update_self]) (uid.trans same.symm)
    refine lives.gone other (by omega) fun b₁ batch₁ stored₁ => ?_
    refine absent b₁ batch₁ ?_
    rw [memory, Function.update_of_ne, stored₁]
    rintro rfl
    rw [free] at stored₁
    cases stored₁

/-- A batch whose freeing was recorded may be deallocated. -/
theorem Lives.dealloc (lives : Lives st) (stored : st.mem b = some batch)
    (freeing : ∃ t height, batch.phase = .freeing t height)
    (memory : st'.mem = Function.update st.mem b none) (next : st'.nextUid = st.nextUid)
    (log : st'.log = st.log) : Lives st' := by
  have inv : ∀ b₁ batch₁, st'.mem b₁ = some batch₁ → st.mem b₁ = some batch₁ := by
    intro b₁ batch₁ stored₁
    rw [memory] at stored₁
    rcases stored_update stored₁ with ⟨_, new⟩ | ⟨_, old⟩
    · cases new
    · exact old
  refine ⟨?_, ?_, ?_, ?_, ?_⟩
  · rw [log, next]
    exact lives.fresh
  · intro b₁ batch₁ stored₁
    rw [next]
    exact lives.named b₁ batch₁ (inv b₁ batch₁ stored₁)
  · intro b₁ batch₁ stored₁
    rw [log]
    exact lives.staged b₁ batch₁ (inv b₁ batch₁ stored₁)
  · intro b₁ b₂ batch₁ batch₂ stored₁ stored₂ eq
    exact lives.distinct b₁ b₂ batch₁ batch₂ (inv _ _ stored₁) (inv _ _ stored₂) eq
  · intro other below absent
    rw [log]
    -- A batch that is gone now was being freed, or was gone before.
    by_cases mine : other = batch.uid
    · obtain ⟨t, height, phase⟩ := freeing
      have life := lives.staged b batch stored
      rw [phase] at life
      rw [mine]
      exact life
    · refine lives.gone other (next ▸ below) fun b₁ batch₁ stored₁ => ?_
      by_cases here : b₁ = b
      · subst here
        obtain rfl : batch = batch₁ := Option.some.inj (stored.symm.trans stored₁)
        exact fun same => mine same.symm
      · exact absent b₁ batch₁ (by rw [memory, Function.update_of_ne here, stored₁])

/-- Preparing a slot keeps the lives of all batches. -/
theorem Prep.lives {s : SlotId} (prep : Prep cfg s st st') (lives : Lives st) : Lives st' := by
  induction prep with
  | refl => exact lives
  | load _ _ ih => exact ih.keep (.refl _) rfl fun _ => rfl
  | unboxed _ _ _ ih => exact ih.keep (.refl _) rfl fun _ => rfl
  | fresh _ null free ih => exact ih.alloc free rfl ⟨s, rfl⟩ rfl rfl rfl
  | grow _ _ stored _ ih => exact ih.keep (.update stored rfl rfl) rfl fun _ => rfl

/-- A pending batch has no history, a retiring one has been committed. -/
theorem Lives.of_link (lives : Lives st) (inv : Inv cfg st) {marked i active : Nat}
    {seen : Option (SlotId × Head)} {below : List Frame}
    (top : st.stack t = .link b marked i active seen :: below) (stored : st.mem b = some batch) :
    history st.log batch.uid = [.committed batch.uid] := by
  obtain ⟨batch₀, stored₀, phase, _⟩ := inv.frames t below.length _ (State.frame_top top)
  obtain rfl : batch = batch₀ := Option.some.inj (stored.symm.trans stored₀)
  have life := lives.staged b batch stored
  rw [phase] at life
  exact life

/-- The local batch of a slot has no history. -/
theorem Lives.of_local (lives : Lives st) (inv : Inv cfg st) {s : SlotId}
    (held : st.batch s = .ptr b) (stored : st.mem b = some batch) : history st.log batch.uid = [] := by
  obtain ⟨batch₀, stored₀, phase⟩ := inv.slots s b held
  obtain rfl : batch = batch₀ := Option.some.inj (stored.symm.trans stored₀)
  have life := lives.staged b batch stored
  rw [phase] at life
  exact life

/-- Every permitted move keeps the lives of all batches. -/
theorem Move.lives (moved : Move cfg st t action st') (sound : Sound cfg st) (lives : Lives st) :
    Lives st' := by
  have inv := sound.inv
  have plain : ∀ {st₁ : State}, st₁.mem = st.mem → st₁.nextUid = st.nextUid → st₁.log = st.log →
      Lives st₁ := by
    intro st₁ memory next log
    exact lives.keep (memory ▸ .refl _) next (by simp [log])
  have prepared : ∀ {s : SlotId} {st₁ : State}, Prep cfg s { st with nextRid := st.nextRid + 1 } st₁ →
      Lives st₁ := by
    intro s st₁ prep
    have before : Lives { st with nextRid := st.nextRid + 1 } := plain rfl rfl rfl
    exact prep.lives before
  cases moved with
  | refused _ prep => exact (prepared prep).keep (.refl _) rfl (by simp [State.record, Event.uid])
  | immediate _ prep =>
    exact (prepared prep).keep (.refl _) rfl
      (by simp [State.record, State.call, State.setStack, Event.uid])
  | pushed _ prep held stored =>
    exact (prepared prep).keep (.update stored rfl rfl) rfl
      (by simp [pushEntry, State.record, State.setBatch, Event.uid])
  | filled _ prep held stored =>
    exact (prepared prep).keep (.update stored rfl rfl) rfl
      (by simp [pushEntry, State.record, State.setBatch, State.call, State.setStack, Event.uid])
  | reserve _ prep => exact prep.lives lives
  | commit top stored =>
    -- The commit is the first event of a batch.
    have held := (inv.frames t _ _ (State.frame_top top)).1
    have none_ := lives.of_local inv held stored
    refine lives.restage stored rfl rfl rfl ?_ ?_
    · intro other differs
      simp [State.record, State.setBatch, State.setStack, Event.uid, Ne.symm differs]
    · simp [State.record, State.setBatch, State.setStack, Event.uid, none_, LifeAt]
  | mark top stored => exact lives.keep (.update stored rfl rfl) rfl fun _ => rfl
  | addFree top stored =>
    have committed := lives.of_link inv top stored
    refine lives.restage stored rfl rfl rfl ?_ ?_
    · intro other differs
      simp [State.record, State.setBatch, State.setStack, Event.uid, Ne.symm differs]
    · simp [State.record, State.setBatch, State.setStack, Event.uid, committed, LifeAt, FreedLife]
  | addShare top stored =>
    have committed := lives.of_link inv top stored
    refine lives.restage stored rfl rfl rfl ?_ ?_
    · intro other differs
      simp [State.record, State.setBatch, State.setStack, Event.uid, Ne.symm differs]
    · simp [State.record, State.setBatch, State.setStack, Event.uid, committed, LifeAt]
  | publish top stored => exact lives.keep (.update stored rfl rfl) rfl fun _ => rfl
  | retry top stored => exact lives.keep (.update stored rfl rfl) rfl fun _ => rfl
  | releaseFree top read state stored one =>
    -- Only a counted batch can be freed by a decrement.
    obtain ⟨owner, tail, rfl, visit⟩ := inv.visit top read state stored
    have life := lives.staged _ _ stored
    rw [(visit.last inv one).1] at life
    have life : history st.log _ = _ := life
    refine lives.restage stored rfl rfl rfl ?_ ?_
    · intro other differs
      simp [State.record, State.setBatch, State.setStack, Event.uid, Ne.symm differs]
    · simp [State.record, State.setBatch, State.setStack, Event.uid, life, LifeAt, FreedLife]
  | releaseCount top read state stored =>
    exact lives.keep (.update stored rfl rfl) rfl fun _ => rfl
  | invoke => exact lives.keep (.refl _) rfl (by simp [State.record, State.setStack, Event.uid])
  | dealloc top stored =>
    obtain ⟨b', batch', eq, stored', phase⟩ := inv.frames t _ _ (State.frame_top top)
    cases eq
    cases stored.symm.trans stored'
    exact lives.dealloc stored ⟨_, _, phase⟩ rfl rfl rfl
  | takeWrong top _ _ held wrong => exact absurd wrong (sound.sentinel.not_wrong inv top held)
  | take top _ _ held stored =>
    have none_ := lives.of_local inv held stored
    refine lives.restage stored rfl rfl rfl ?_ ?_
    · intro other differs
      simp [State.record, State.setBatch, State.setStack, Event.uid, Ne.symm differs]
    · simp [State.record, State.setBatch, State.setStack, Event.uid, none_, LifeAt, FreedLife]
  | known | create | enter | leaveIdle | leave | refreshIdle | refresh | flushNone | flush
  | reclaimAll | access | ret | panic | skipScan | skipReclaim | pass | abort | load | gone | done
  | finish | next | reset => exact plain rfl rfl rfl

/-- No batch exists in a collector that nobody has used. -/
theorem Lives.init : Lives State.init := by
  refine ⟨fun _ _ => rfl, ?_, ?_, ?_, ?_⟩
  · intro b batch stored
    cases stored
  · intro b batch stored
    cases stored
  · intro b b' batch batch' stored
    cases stored
  · intro uid small
    cases small

/-- The log and the stages agree in every state of a disciplined run. -/
theorem reachable_lives (run : Reachable (Raw.step cfg) (Disciplined cfg) State.init st) :
    Lives st := by
  refine run.invariant Lives Lives.init fun st₀ move st₁ before lives permitted ran => ?_
  obtain ⟨st₂, moved, rfl⟩ := step_move ran
  exact (moved.lives (reachable_sound before) lives).keep (.refl _) rfl fun _ => rfl

end Seize.Raw
