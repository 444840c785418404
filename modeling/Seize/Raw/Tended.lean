import Seize.Raw.Lives

/-!
While no reclaimer panics, every batch that is being freed has its call of `free_batch`, every
sentinel its iteration, and every linked entry a list that leads to it.
-/

namespace Seize.Raw

variable {cfg : Config} {st st' : State} {t : Tid} {action : Action} {b : Addr} {batch : Batch}

/-- What a call in progress still has to clean up. -/
inductive Task where
  /-- A batch to be freed. -/
  | batch (b : Addr)
  /-- A sentinel to be removed. -/
  | sentinel (s : SlotId)
  deriving DecidableEq

/-- The task of a frame. -/
def Frame.task : Frame → Option Task
  | .freeBatch (.ptr b) _ => some (.batch b)
  | .reclaimReset cursor => some (.sentinel cursor)
  | _ => none

/-- The call at a height has a task. -/
def HasTask (st : State) (t : Tid) (height : Nat) (task : Task) : Prop :=
  ∃ f, st.frame t height = some f ∧ f.task = some task

/-- Everything that has to be cleaned up is the task of some call. -/
structure Tended (st : State) : Prop where
  freeing : ∀ b batch t height, st.mem b = some batch → batch.phase = .freeing t height →
    HasTask st t height (.batch b)
  dropping : ∀ s, st.batch s = .drop → ∃ t height, HasTask st t height (.sentinel s)

/-- Every task of a state is still one, apart from those that a step has done. -/
def TasksKept (st st' : State) (done : Task → Prop) : Prop :=
  ∀ t height task, HasTask st t height task → ¬ done task → HasTask st' t height task

/-- A state with the same stacks has the same tasks. -/
theorem TasksKept.same (stack : st'.stack = st.stack) (done : Task → Prop) :
    TasksKept st st' done := by
  intro t' height task had _
  obtain ⟨f, found, is⟩ := had
  exact ⟨f, by rw [← found, State.frame, State.frame, stack], is⟩

/-- A call leaves every task as it is. -/
theorem TasksKept.call {f : Frame} (stack : st'.stack = Function.update st.stack t (f :: st.stack t))
    (done : Task → Prop) : TasksKept st st' done := by
  intro t' height task had _
  obtain ⟨g, found, is⟩ := had
  exact ⟨g, State.frame_kept_call stack found, is⟩

/-- A step of the innermost call may only drop a task that it has done. -/
theorem TasksKept.top {f : Frame} (fs : List Frame) {below : List Frame} {done : Task → Prop}
    (top : st.stack t = f :: below)
    (stack : st'.stack = Function.update st.stack t (fs ++ below))
    (own : ∀ task, f.task = some task → ¬ done task →
      ∃ g, frameAt (fs ++ below) below.length = some g ∧ g.task = some task) :
    TasksKept st st' done := by
  intro t' height task had open_
  obtain ⟨g, found, is⟩ := had
  rcases State.frame_kept fs top stack found with ⟨rfl, rfl, rfl⟩ | kept
  · -- The innermost call itself: its new frame has the task.
    obtain ⟨g', found', is'⟩ := own task is open_
    exact ⟨g', by rw [State.frame, stack, Function.update_self, found'], is'⟩
  · exact ⟨g, kept, is⟩

/-- The rule for steps after which the things to clean up are old ones or have a task. -/
theorem Tended.keep (tended : Tended st) (done : Task → Prop) (kept : TasksKept st st' done)
    (freeing : ∀ b batch t height, st'.mem b = some batch → batch.phase = .freeing t height →
      HasTask st' t height (.batch b) ∨
        (¬ done (.batch b) ∧ ∃ old, st.mem b = some old ∧ old.phase = .freeing t height))
    (dropping : ∀ s, st'.batch s = .drop → (∃ t height, HasTask st' t height (.sentinel s)) ∨
      (¬ done (.sentinel s) ∧ st.batch s = .drop)) : Tended st' where
  freeing := by
    intro b batch t height stored phase
    rcases freeing b batch t height stored phase with has | ⟨open_, old, was, wasFreeing⟩
    · exact has
    · exact kept t height _ (tended.freeing b old t height was wasFreeing) open_
  dropping := by
    intro s marked
    rcases dropping s marked with has | ⟨open_, was⟩
    · exact has
    · obtain ⟨t, height, had⟩ := tended.dropping s was
      exact ⟨t, height, kept t height _ had open_⟩

/-- The rule for steps that keep every stage and every sentinel. -/
theorem Tended.same (tended : Tended st) (kept : TasksKept st st' fun _ => False)
    (lives : SameLives st.mem st'.mem) (drops : ∀ s, st'.batch s = .drop ↔ st.batch s = .drop) :
    Tended st' := by
  refine tended.keep (fun _ => False) kept ?_ ?_
  · intro b batch t height stored phase
    obtain ⟨old, was, _, same⟩ := lives.back b batch stored
    exact .inr ⟨not_false, old, was, same ▸ phase⟩
  · intro s marked
    exact .inr ⟨not_false, (drops s).mp marked⟩

/-- The rule for steps that start to free one batch. -/
theorem Tended.start {batch' : Batch} {height : Nat} (tended : Tended st)
    (kept : TasksKept st st' fun _ => False)
    (memory : st'.mem = Function.update st.mem b (some batch'))
    (phase : batch'.phase = .freeing t height) (has : HasTask st' t height (.batch b))
    (dropping : ∀ s, st'.batch s = .drop → (∃ t height, HasTask st' t height (.sentinel s)) ∨
      st.batch s = .drop) : Tended st' := by
  refine tended.keep (fun _ => False) kept ?_ fun s marked => (dropping s marked).imp id fun was => ⟨not_false, was⟩
  intro b₁ batch₁ t₁ height₁ stored phase₁
  rw [memory] at stored
  rcases stored_update stored with ⟨rfl, new⟩ | ⟨_, old⟩
  · cases new
    rw [phase] at phase₁
    cases phase₁
    exact .inl has
  · exact .inr ⟨not_false, batch₁, old, phase₁⟩

/-- Moving a batch to a stage before its freeing gives nobody a task. -/
theorem Tended.restage {batch' : Batch} (tended : Tended st) (kept : TasksKept st st' fun _ => False)
    (memory : st'.mem = Function.update st.mem b (some batch'))
    (phase : ∀ t height, batch'.phase ≠ .freeing t height)
    (drops : ∀ s, st'.batch s = .drop ↔ st.batch s = .drop) : Tended st' := by
  refine tended.keep (fun _ => False) kept ?_ fun s marked => .inr ⟨not_false, (drops s).mp marked⟩
  intro b₁ batch₁ t₁ height₁ stored phase₁
  rw [memory] at stored
  rcases stored_update stored with ⟨rfl, new⟩ | ⟨_, old⟩
  · cases new
    exact absurd phase₁ (phase t₁ height₁)
  · exact .inr ⟨not_false, batch₁, old, phase₁⟩

/-- Preparing a slot starts to free nothing. -/
theorem Prep.tended {s : SlotId} (prep : Prep cfg s st st') (tended : Tended st) : Tended st' := by
  induction prep with
  | refl => exact tended
  | load _ _ ih => exact ih.same (.same rfl _) (.refl _) fun _ => .rfl
  | unboxed _ _ _ ih => exact ih.same (.same rfl _) (.refl _) fun _ => .rfl
  | fresh _ null free ih =>
    refine ih.restage (.same rfl _) rfl (by simp [newBatch]) fun v => ?_
    by_cases here : v = s
    · subst here
      simp [null]
    · simp [Function.update_of_ne here]
  | grow _ _ stored _ ih => exact ih.same (.same rfl _) (.update stored rfl rfl) fun _ => .rfl

/-- Every permitted move without a panic leaves everything tended. -/
theorem Move.tended (moved : Move cfg st t action st') (sound : Sound cfg st)
    (calm : action ≠ .panic) (tended : Tended st) : Tended st' := by
  have inv := sound.inv
  have same : ∀ v, st.batch v = .drop ↔ st.batch v = .drop := fun _ => .rfl
  -- A call without a task may do anything with its frame.
  have idle : ∀ {f : Frame} {below : List Frame} (fs : List Frame) {st₁ : State},
      st.stack t = f :: below → f.task = none →
      st₁.stack = Function.update st.stack t (fs ++ below) → TasksKept st st₁ fun _ => False := by
    intro f below fs st₁ top none_ stack
    exact .top fs top stack (by simp [none_])
  have prepared : ∀ {s : SlotId} {st₁ : State}, Prep cfg s { st with nextRid := st.nextRid + 1 } st₁ →
      Tended st₁ := by
    intro s st₁ prep
    have before : Tended { st with nextRid := st.nextRid + 1 } :=
      tended.same (.same rfl _) (.refl _) same
    exact prep.tended before
  cases moved with
  | panic => exact absurd rfl calm
  | leave => exact tended.same (.call rfl _) (.refl _) same
  | refresh => exact tended.same (.call rfl _) (.refl _) same
  | refused _ prep => exact (prepared prep).same (.same rfl _) (.refl _) fun _ => .rfl
  | immediate _ prep => exact (prepared prep).same (.call rfl _) (.refl _) fun _ => .rfl
  | pushed _ prep _ stored =>
    exact (prepared prep).same (.same rfl _) (.update stored rfl rfl) fun _ => .rfl
  | filled _ prep _ stored =>
    exact (prepared prep).same (.call rfl _) (.update stored rfl rfl) fun _ => .rfl
  | reserve _ prep => exact prep.tended tended
  | flush => exact tended.same (.call rfl _) (.refl _) same
  | reclaimAll => exact tended.same (.call rfl _) (.refl _) same
  | ret top => exact tended.same (idle [] top rfl rfl) (.refl _) same
  | skipScan top => exact tended.same (idle [_] top rfl rfl) (.refl _) same
  | skipReclaim top => exact tended.same (idle [_] top rfl rfl) (.refl _) same
  | commit top stored =>
    have held := (inv.frames t _ _ (State.frame_top top)).1
    exact tended.restage (idle [_] top rfl rfl) rfl (by simp) (drops_null (by simp [held]))
  | pass top => exact tended.same (idle [_] top rfl rfl) (.refl _) same
  | mark top stored => exact tended.same (idle [_] top rfl rfl) (.update stored rfl rfl) same
  | abort top => exact tended.same (idle [] top rfl rfl) (.refl _) same
  | @addFree b marked i active seen below batch spurious top stored =>
    refine tended.start (idle [_] top rfl rfl) rfl rfl ⟨.freeBatch (.ptr b) 0, ?_, rfl⟩ fun s marked => .inr marked
    simp [State.record]
  | addShare top stored => exact tended.restage (idle [] top rfl rfl) rfl (by simp) same
  | load top => exact tended.same (idle [_] top rfl rfl) (.refl _) same
  | gone top => exact tended.same (idle [_] top rfl rfl) (.refl _) same
  | publish top stored => exact tended.same (idle [_] top rfl rfl) (.update stored rfl rfl) same
  | retry top stored => exact tended.same (idle [_] top rfl rfl) (.update stored rfl rfl) same
  | done top => exact tended.same (idle [] top rfl rfl) (.refl _) same
  | @releaseFree curr rest below entry next batch spurious top read state stored =>
    refine tended.start (idle [_, _] top rfl rfl) rfl rfl
      ⟨.freeBatch (.ptr entry.batch) 0, ?_, rfl⟩ fun s marked => .inr marked
    simp only [State.record, State.frame_setStack, if_true]
    exact frameAt_top _ (_ :: _)
  | releaseCount top read state stored =>
    exact tended.same (idle [_] top rfl rfl) (.update stored rfl rfl) same
  | @invoke b i below batch entry spurious top =>
    -- The same call of `free_batch` is still there, below the reclaimer.
    refine tended.same (.top [_, .freeBatch (.ptr b) (i + 1)] top rfl ?_) (.refl _) same
    intro task is _
    refine ⟨.freeBatch (.ptr b) (i + 1), ?_, is⟩
    rw [List.cons_append, frameAt_cons_of_lt (by simp)]
    simp
  | @dealloc b i below batch spurious top stored =>
    -- The batch is gone, and its call with it.
    refine tended.keep (fun task => task = .batch b) (.top [] top rfl ?_) ?_ ?_
    · intro task is open_
      cases is
      exact absurd rfl open_
    · intro b₁ batch₁ t₁ height₁ stored₁ phase₁
      rcases stored_update stored₁ with ⟨_, new⟩ | ⟨other, old⟩
      · cases new
      · refine .inr ⟨?_, batch₁, old, phase₁⟩
        rintro ⟨⟩
        exact other rfl
    · intro s marked
      exact .inr ⟨by simp, marked⟩
  | finish top => exact tended.same (idle [] top rfl rfl) (.refl _) same
  | next top => exact tended.same (idle [_] top rfl rfl) (.refl _) same
  | takeWrong top _ _ held wrong => exact absurd wrong (sound.sentinel.not_wrong inv top held)
  | @take cursor below b batch spurious top more present held stored =>
    refine tended.start (idle [_, _] top rfl rfl) rfl rfl ⟨.freeBatch (.ptr b) 0, ?_, rfl⟩
      fun s marked => ?_
    · simp only [State.record, State.frame_setStack, if_true]
      exact frameAt_top _ (_ :: _)
    · by_cases here : s = cursor
      · subst here
        refine .inl ⟨t, below.length, .reclaimReset s, ?_, rfl⟩
        simp only [State.record, State.frame_setStack, if_true]
        rw [frameAt_cons_of_lt (by simp)]
        simp
      · refine .inr ?_
        simpa [State.setBatch, State.setStack, State.record, Function.update_of_ne here] using marked
  | @reset cursor below spurious top =>
    refine tended.keep (fun task => task = .sentinel cursor) (.top [_] top rfl ?_) ?_ ?_
    · intro task is open_
      cases is
      exact absurd rfl open_
    · intro b₁ batch₁ t₁ height₁ stored₁ phase₁
      exact .inr ⟨by simp, batch₁, stored₁, phase₁⟩
    · intro s marked
      by_cases here : s = cursor
      · subst here
        simp [State.setStack] at marked
      · refine .inr ⟨by simp [here], ?_⟩
        simpa [State.setStack, Function.update_of_ne here] using marked
  | known | create | enter | leaveIdle | refreshIdle | flushNone | access =>
    exact tended.same (.same rfl _) (.refl _) same

end Seize.Raw
