import Seize.Raw.Failure
import Seize.Raw.Toll

/-!
What `reclaim_all` leaves behind.

A thread that iterates over the local batches empties every slot that it passes. Its reclaimers
retire into the slot of their own thread, and when that slot has been passed, whole batches are
retired and the rest of them stays.
-/

namespace Seize.Raw

variable {cfg : Config} {st st' : State} {t : Tid} {action : Action} {s k : SlotId}

/-- How far an iteration of `reclaim_all` has come. -/
def Frame.cursor : Frame → Option SlotId
  | .reclaimAll cursor => some cursor
  | .reclaimReset cursor => some cursor
  | _ => none

/-- The iteration at the bottom of a stack has passed a slot, as it has once it has returned. -/
def behind (s : SlotId) (frames : List Frame) : Bool :=
  match frameAt frames 0 with
  | some f => f.cursor.any (s < ·)
  | none => true

/-- Nothing is at the bottom of an empty stack. -/
@[simp] theorem behind_nil (s : SlotId) : behind s [] = true := rfl

/-- An iteration that stands alone. -/
@[simp] theorem behind_one (s : SlotId) (f : Frame) : behind s [f] = f.cursor.any (s < ·) := rfl

/-- The bottom of a stack decides. -/
theorem behind_congr {frames frames' : List Frame} (same : frameAt frames' 0 = frameAt frames 0)
    (s : SlotId) : behind s frames' = behind s frames := by
  rw [behind, behind, same]

/-- What stands above other frames is not at the bottom. -/
theorem frameAt_bottom (fs : List Frame) {below : List Frame} (more : below ≠ []) :
    frameAt (fs ++ below) 0 = frameAt below 0 := by
  have positive : 0 < below.length := List.length_pos_of_ne_nil more
  obtain ⟨f, found⟩ := exists_frameAt_of_lt positive
  rw [found]
  exact frameAt_of_suffix (List.suffix_append fs below) found

/-- Every slot that holds something is one that an iteration passes. -/
def Ranged (cfg : Config) (st : State) : Prop := ∀ s, cfg.slots ≤ s → st.batch s = .null

/-- A thread iterates, or has returned, and what is behind it is empty but for one slot. -/
structure Swept (t : Tid) (k : SlotId) (st : State) : Prop where
  bottom : ∀ f, frameAt (st.stack t) 0 = some f → f.iteration ≠ none
  cleared : ∀ s, s ≠ k → behind s (st.stack t) = true → st.batch s = .null

/-- A call that fills no other slot, and that returns. -/
def Fills (k : SlotId) : Action → Prop
  | .add v _ _ _ => v = k
  | .reserve v _ => v = k
  | .panic => False
  | _ => True

/-- A call that fills or activates no other slot, and that returns. -/
def OnSlot (k : SlotId) : Action → Prop
  | .add v _ _ _ => v = k
  | .reserve v _ => v = k
  | .enter v => v = k
  | .refresh v => v = k
  | .panic => False
  | _ => True

/-- A call that concerns the slot of its thread only fills no other one. -/
theorem OnSlot.fills (own : OnSlot k action) : Fills k action := by
  cases action <;> first | exact own | trivial

section Moves

variable {f : Frame} {below : List Frame}

/-- The iteration stands alone while it is innermost. -/
theorem Swept.alone (swept : Swept t k st) (sentinel : Sentinel st)
    (top : st.stack t = f :: below) (iterates : f.iteration ≠ none) : below = [] := by
  obtain ⟨bottom, found⟩ := exists_frameAt_of_lt
    (by simp [top] : 0 < (st.stack t).length)
  have same := sentinel.alone t below.length f t 0 bottom (State.frame_top top) found iterates
    (swept.bottom bottom found)
  exact List.eq_nil_of_length_eq_zero same.2.symm

/-- Under another innermost call the bottom of the stack stays. -/
theorem Swept.deep (swept : Swept t k st) (fs : List Frame) (top : st.stack t = f :: below)
    (other : f.iteration = none) (stack : st'.stack t = fs ++ below) :
    frameAt (st'.stack t) 0 = frameAt (st.stack t) 0 := by
  have more : below ≠ [] := by
    rintro rfl
    exact swept.bottom f (by rw [top]; rfl) other
  rw [stack, top, frameAt_bottom fs more, ← List.singleton_append, frameAt_bottom [f] more]

/-- A step that keeps the bottom, and empties slots at most. -/
theorem Swept.keep (swept : Swept t k st)
    (same : frameAt (st'.stack t) 0 = frameAt (st.stack t) 0)
    (batches : ∀ s, s ≠ k → st'.batch s = st.batch s ∨ st'.batch s = .null) : Swept t k st' := by
  refine ⟨fun f found => swept.bottom f (same ▸ found), fun s other passed => ?_⟩
  rw [behind_congr same] at passed
  rcases batches s other with eq | null
  · rw [eq]
    exact swept.cleared s other passed
  · exact null

/-- A step of the iteration, after which it stands alone again. -/
theorem Swept.moves {g : Frame} (stack : st'.stack t = [g]) (iterates : g.iteration ≠ none)
    (cleared : ∀ s, s ≠ k → behind s [g] = true → st'.batch s = .null) : Swept t k st' := by
  refine ⟨fun f found => ?_, fun s other passed => cleared s other (stack ▸ passed)⟩
  rw [stack] at found
  cases found
  exact iterates

/-- The step lemma: a thread that iterates leaves only its own slot filled behind it. -/
theorem Move.swept (moved : Move cfg st t action st') (sentinel : Sentinel st) (absent : Absent st)
    (ranged : Ranged cfg st) (own : Fills k action) (inside : st.stack t ≠ [])
    (swept : Swept t k st) : Swept t k st' := by
  have called : ∀ {g : Frame} {st₂ : State}, st₂.stack t = g :: st.stack t →
      frameAt (st₂.stack t) 0 = frameAt (st.stack t) 0 := by
    intro g st₂ stack
    rw [stack, ← List.singleton_append, frameAt_bottom [g] inside]
  have plain : ∀ {st₂ : State}, st₂.batch = st.batch → ∀ s, s ≠ k →
      st₂.batch s = st.batch s ∨ st₂.batch s = .null := by
    intro st₂ same s _
    rw [same]
    exact .inl rfl
  -- Preparing the slot of the thread concerns no other slot.
  have prepared : ∀ {v : SlotId} {st₁ : State}, v = k →
      Prep cfg v { st with nextRid := st.nextRid + 1 } st₁ → ∀ s, s ≠ k →
        st₁.batch s = st.batch s ∨ st₁.batch s = .null := by
    rintro v st₁ rfl prep s other
    exact .inl (prep.batch_other other)
  cases moved with
  | panic => exact own.elim
  | known | create | enter | leaveIdle | refreshIdle | flushNone | access =>
    exact swept.keep rfl (plain rfl)
  | leave | refresh | flush | reclaimAll =>
    exact swept.keep (called (Function.update_self ..)) (plain rfl)
  | refused _ prep | pushed _ prep =>
    have kept := prepared own prep
    exact swept.keep (by rw [← prep.silent.1]; rfl) kept
  | immediate _ prep | filled _ prep =>
    have kept := prepared own prep
    exact swept.keep (called ((Function.update_self ..).trans
      (congrArg (List.cons _) (congrFun prep.silent.1 t)))) kept
  | reserve _ prep =>
    have here := own
    subst here
    exact swept.keep (by rw [prep.same.1]) fun s other => .inl (prep.batch_other other)
  | ret top | abort top | addShare top | done top | dealloc top =>
    exact swept.keep (swept.deep [] top rfl (Function.update_self ..)) (plain rfl)
  | skipScan top | pass top | mark top | addFree top | load top | gone top | publish top | retry top
  | releaseCount top =>
    exact swept.keep (swept.deep [_] top rfl (Function.update_self ..)) (plain rfl)
  | releaseFree top | invoke top =>
    exact swept.keep (swept.deep [_, _] top rfl (Function.update_self ..)) (plain rfl)
  | @commit v b start cursor marked below batch spurious top =>
    refine swept.keep (swept.deep [_] top rfl (Function.update_self ..)) fun s _ => ?_
    by_cases here : s = v
    · subst here
      exact .inr (Function.update_self ..)
    · exact .inl (Function.update_of_ne here ..)
  | @skipReclaim cursor below target top _ _ missing =>
    obtain rfl := swept.alone sentinel top (by simp [Frame.iteration])
    refine .moves (Function.update_self ..) (by simp [Frame.iteration]) fun s other passed => ?_
    have before := swept.cleared s other
    rw [top] at before
    simp only [behind_one, Frame.cursor, Option.any_some, decide_eq_true_eq] at passed before
    by_cases old : s < cursor
    · exact before old
    · -- A slot that is passed at once is not there.
      refine absent s fun there => ?_
      rcases missing s there with small | large
      · exact old small
      · exact Nat.not_lt.mpr large passed
  | @finish cursor below spurious top ended =>
    obtain rfl := swept.alone sentinel top (by simp [Frame.iteration])
    have stack : (st.setStack t []).stack t = [] := Function.update_self ..
    refine ⟨fun f found => ?_, fun s other _ => ?_⟩
    · rw [stack] at found
      cases found
    · have before := swept.cleared s other
      rw [top] at before
      simp only [behind_one, Frame.cursor, Option.any_some, decide_eq_true_eq] at before
      by_cases small : s < cursor
      · exact before small
      · exact ranged s (Nat.le_trans ended (Nat.le_of_not_lt small))
  | @next cursor below spurious top _ null =>
    obtain rfl := swept.alone sentinel top (by simp [Frame.iteration])
    refine .moves (Function.update_self ..) (by simp [Frame.iteration]) fun s other passed => ?_
    have before := swept.cleared s other
    rw [top] at before
    simp only [behind_one, Frame.cursor, Option.any_some, decide_eq_true_eq] at passed before
    rcases Nat.lt_succ_iff_lt_or_eq.mp passed with old | rfl
    · exact before old
    · exact null.elim (absent s) id
  | @take cursor below b batch spurious top | @takeWrong cursor below spurious top =>
    -- The slot that is taken is not behind the iteration yet.
    obtain rfl := swept.alone sentinel top (by simp [Frame.iteration])
    have bottom : ∀ {g : Frame}, frameAt [g, .reclaimReset cursor] 0 =
        frameAt [Frame.reclaimReset cursor] 0 := fun {g} => frameAt_bottom [g] (by simp)
    have stack := Function.update_self (f := st.stack) t
    refine ⟨fun f found => ?_, fun s other passed => ?_⟩
    · have found := (congrArg (frameAt · 0) (stack _)).symm.trans found
      rw [bottom] at found
      cases found
      simp [Frame.iteration]
    · have passed := (congrArg (behind s) (stack _)).symm.trans passed
      rw [behind_congr bottom] at passed
      have before := swept.cleared s other
      rw [top] at before
      simp only [behind_one, Frame.cursor, Option.any_some, decide_eq_true_eq] at passed before
      exact (Function.update_of_ne (Nat.ne_of_lt passed) ..).trans (before passed)
  | @reset cursor below spurious top =>
    obtain rfl := swept.alone sentinel top (by simp [Frame.iteration])
    refine .moves (Function.update_self ..) (by simp [Frame.iteration]) fun s other passed => ?_
    have before := swept.cleared s other
    rw [top] at before
    simp only [behind_one, Frame.cursor, Option.any_some, decide_eq_true_eq] at passed before
    by_cases here : s = cursor
    · subst here
      exact Function.update_self ..
    · exact (Function.update_of_ne here ..).trans (before (Nat.lt_of_le_of_ne (Nat.le_of_lt_succ passed) here))

end Moves

/-- Counting a step changes nothing for an iteration. -/
theorem Swept.tick (swept : Swept t k st) : Swept t k (tick st) := ⟨swept.bottom, swept.cleared⟩

/-- Every step that has access keeps the filled slots in range. -/
theorem Move.ranged (moved : Move cfg st t action st') (access : Access cfg st (t, action))
    (ranged : Ranged cfg st) : Ranged cfg st' := by
  -- Preparations and iterations stay among the slots of thread IDs.
  have prepared : ∀ (st₀ : State) {v : SlotId} {st₁ : State}, v < cfg.slots →
      st₀.batch = st.batch → Prep cfg v st₀ st₁ → Ranged cfg st₁ := by
    intro st₀ v st₁ small same prep s large
    have other : s ≠ v := Nat.ne_of_gt (Nat.lt_of_lt_of_le small large)
    rw [prep.batch_other other, same]
    exact ranged s large
  have updated : ∀ {v : SlotId} {local_ : LocalBatch}, v < cfg.slots ∨ local_ = .null →
      ∀ s, cfg.slots ≤ s → Function.update st.batch v local_ s = .null := by
    intro v local_ fits s large
    by_cases here : s = v
    · subst here
      rw [Function.update_self]
      exact fits.resolve_left (Nat.not_lt.mpr large)
    · rw [Function.update_of_ne here]
      exact ranged s large
  cases moved with
  | refused _ prep | pushed _ prep | immediate _ prep | filled _ prep =>
    have kept := prepared { st with nextRid := st.nextRid + 1 } access.1 rfl prep
    exact kept
  | reserve _ prep => exact prepared st access.1 rfl prep
  | commit => exact updated (.inr rfl)
  | take _ more | takeWrong _ more => exact updated (.inl more)
  | reset => exact updated (.inr rfl)
  | _ => exact ranged

/-- The filled slots are in range in every state of a run with access. -/
theorem reachable_ranged (run : Reachable (Raw.step cfg) (Access cfg) State.init st) :
    Ranged cfg st := by
  refine run.invariant (Ranged cfg) (fun _ _ => rfl) fun st₀ move st₁ _ ranged access ran => ?_
  obtain ⟨st₂, moved, rfl⟩ := step_move ran
  exact moved.ranged access ranged

/-- The number of entries in the local batch of a slot. -/
def pendingIn (st : State) (s : SlotId) : Nat := (st.retirements s).length

/-- The number of retirements that have been accepted. -/
def acceptedIn (log : List Event) : Nat := log.countP (·.accepted.isSome)

/-- The scan that is innermost: its slot, its cursor and the entries it has marked. -/
def scanOf : List Frame → Option (SlotId × Nat × Nat)
  | .scan s _ _ cursor marked :: _ => some (s, cursor, marked)
  | _ => none

/-- User code scans nothing. -/
theorem scanOf_user {frames : List Frame} (user : userLevel frames) : scanOf frames = none := by
  cases frames with
  | nil => rfl
  | cons f below => cases f <;> first | rfl | cases user

section Pending

variable {b : Addr} {batch batch' : Batch}

/-- A slot that holds nothing has no entries. -/
theorem pendingIn_null (null : st.batch s = .null) : pendingIn st s = 0 := by
  simp only [pendingIn, State.retirements, null, List.length_nil]

/-- A slot that holds the sentinel has no entries. -/
theorem pendingIn_drop (marked : st.batch s = .drop) : pendingIn st s = 0 := by
  simp only [pendingIn, State.retirements, marked, List.length_nil]

/-- The entries of a slot are those of its batch. -/
theorem pendingIn_ptr {st : State} {batch : Batch} (held : st.batch s = .ptr b) (stored : st.mem b = some batch) :
    pendingIn st s = batch.entries.length := by
  simp only [pendingIn, State.retirements, held, stored, List.length_map]

/-- Only the batch of a slot matters. -/
theorem pendingIn_congr (local_ : st'.batch s = st.batch s)
    (lengths : ∀ b, st.batch s = .ptr b →
      (st'.mem b).map (·.entries.length) = (st.mem b).map (·.entries.length)) :
    pendingIn st' s = pendingIn st s := by
  simp only [pendingIn, State.retirements, local_]
  cases held : st.batch s with
  | ptr b =>
    have same := lengths b held
    cases stored : st.mem b with
    | none => cases stored' : st'.mem b <;> simp_all
    | some batch => cases stored' : st'.mem b <;> simp_all
  | null | drop => rfl

/-- A batch that is written keeps its length. -/
theorem pendingIn_write (local_ : st'.batch s = st.batch s) (stored : st.mem b = some batch)
    (memory : st'.mem = Function.update st.mem b (some batch'))
    (same : batch'.entries.length = batch.entries.length) : pendingIn st' s = pendingIn st s := by
  refine pendingIn_congr local_ fun b₁ _ => ?_
  rw [memory]
  by_cases here : b₁ = b
  · subst here
    rw [Function.update_self, stored]
    simp [same]
  · rw [Function.update_of_ne here]

/-- Preparing a slot pushes nothing. -/
theorem Prep.pendingIn (prep : Prep cfg s st st') : Raw.pendingIn st' s = Raw.pendingIn st s := by
  induction prep with
  | refl => rfl
  | load _ _ ih => exact ih
  | unboxed _ _ _ ih => exact ih
  | @fresh st₁ b _ null free ih =>
    -- The new batch is empty, as the slot was.
    rw [← ih, pendingIn_null null]
    simp [Raw.pendingIn, State.retirements, State.setBatch, newBatch]
  | grow _ held stored _ ih =>
    rw [← ih]
    exact pendingIn_write rfl stored rfl rfl

end Pending

/-- Retirements that were accepted while the slot of an iterating thread was behind it. -/
def late (t : Tid) (k : SlotId) (st st' : State) : Nat :=
  if behind k (st.stack t) then acceptedIn st'.log - acceptedIn st.log else 0

/-- A step that logs nothing accepts nothing. -/
theorem late_silent (same : st'.log = st.log) : late t k st st' = 0 := by
  simp [late, same]

/--
What the slot of an iterating thread holds when `n` retirements were accepted behind the iteration.

Only the slot of the thread is active, so a scan of its batch finds entries enough.
-/
structure Tally (cfg : Config) (t : Tid) (k : SlotId) (n : Nat) (st : State) : Prop where
  only : ∀ s, st.Active s → s = k
  early : behind k (st.stack t) = false → n = 0
  count : behind k (st.stack t) = true → pendingIn st k % cfg.batchSize = n % cfg.batchSize
  small : behind k (st.stack t) = true → scanOf (st.stack t) = none →
    pendingIn st k < cfg.batchSize
  scan : ∀ s cursor marked, scanOf (st.stack t) = some (s, cursor, marked) →
    s = k ∧ marked ≤ (if k < cursor then 1 else 0) ∧ 0 < pendingIn st k ∧
      (behind k (st.stack t) = true → pendingIn st k = cfg.batchSize)

section Tallies

variable {n : Nat} {f : Frame} {below : List Frame} {b : Addr} {batch : Batch}

/-- Steps outside of scans, which retire nothing. -/
theorem Tally.plain (tally : Tally cfg t k n st) (sized : 0 < cfg.batchSize)
    (idle : scanOf (st.stack t) = none) (idle' : scanOf (st'.stack t) = none)
    (active : ∀ s, st'.Active s → st.Active s ∨ s = k)
    (log : acceptedIn st'.log = acceptedIn st.log)
    (stays : behind k (st.stack t) = true →
      behind k (st'.stack t) = true ∧ pendingIn st' k = pendingIn st k)
    (joins : behind k (st.stack t) = false → behind k (st'.stack t) = true → pendingIn st' k = 0) :
    Tally cfg t k (n + late t k st st') st' := by
  -- Nothing is accepted late, so the number stays.
  have none_ : late t k st st' = 0 := by simp [late, log]
  rw [none_, Nat.add_zero]
  refine ⟨fun s on => (active s on).elim (tally.only s) id, fun front => ?_, fun passed => ?_,
    fun passed _ => ?_, fun s cursor marked scans => ?_⟩
  · refine tally.early ?_
    cases old : behind k (st.stack t) with
    | false => rfl
    | true => rw [(stays old).1] at front; cases front
  · cases old : behind k (st.stack t) with
    | false => rw [joins old passed, tally.early old]
    | true =>
      rw [(stays old).2]
      exact tally.count old
  · cases old : behind k (st.stack t) with
    | false =>
      rw [joins old passed]
      exact sized
    | true =>
      rw [(stays old).2]
      exact tally.small old idle
  · rw [idle'] at scans
    cases scans

/-- Steps outside of scans that also leave the iteration where it is. -/
theorem Tally.quiet (tally : Tally cfg t k n st) (sized : 0 < cfg.batchSize)
    (idle : scanOf (st.stack t) = none) (idle' : scanOf (st'.stack t) = none)
    (active : ∀ s, st'.Active s → st.Active s ∨ s = k)
    (log : acceptedIn st'.log = acceptedIn st.log)
    (same : frameAt (st'.stack t) 0 = frameAt (st.stack t) 0)
    (pending : pendingIn st' k = pendingIn st k) : Tally cfg t k (n + late t k st st') st' := by
  have where_ := behind_congr same k
  refine tally.plain sized idle idle' active log (fun passed => ⟨where_.trans passed, pending⟩) ?_
  intro front passed
  rw [where_, front] at passed
  cases passed

/-- Steps of a scan that goes on. -/
theorem Tally.scans {cursor marked : Nat} (tally : Tally cfg t k n st)
    (active : ∀ s, st'.Active s → st.Active s) (log : acceptedIn st'.log = acceptedIn st.log)
    (same : frameAt (st'.stack t) 0 = frameAt (st.stack t) 0)
    (pending : pendingIn st' k = pendingIn st k) {s : SlotId} {cursor' marked' : Nat}
    (was : scanOf (st.stack t) = some (s, cursor, marked))
    (now : scanOf (st'.stack t) = some (s, cursor', marked'))
    (few : marked' ≤ (if k < cursor' then 1 else 0)) :
    Tally cfg t k (n + late t k st st') st' := by
  -- A scan marks one slot at most, since no other slot is active.
  have none_ : late t k st st' = 0 := by simp [late, log]
  have where_ := behind_congr same k
  obtain ⟨here, _, positive, full⟩ := tally.scan s cursor marked was
  rw [none_, Nat.add_zero]
  refine ⟨fun s on => tally.only s (active s on), fun front => tally.early (where_ ▸ front),
    fun passed => ?_, fun _ idle => ?_, fun s' c m scans => ?_⟩
  · rw [pending]
    exact tally.count (where_ ▸ passed)
  · rw [now] at idle
    cases idle
  · rw [now] at scans
    cases scans
    rw [pending]
    exact ⟨here, few, positive, fun passed => full (where_ ▸ passed)⟩

/-- A call that returns does not return to a scan. -/
theorem scanOf_tail (tops : TopOnly (f :: below)) : scanOf below = none := by
  cases below with
  | nil => rfl
  | cons g rest =>
    have leaf := tops g List.mem_cons_self
    cases g with
    | scan => cases leaf
    | _ => rfl

/-- Counting a step changes no tally. -/
theorem Tally.tick (tally : Tally cfg t k n st) : Tally cfg t k n (Raw.tick st) :=
  ⟨tally.only, tally.early, tally.count, tally.small, tally.scan⟩

/-- An entry that is pushed is one more. -/
theorem pendingIn_pushed (p : Ptr) (g : Reclaim) (rid : Nat) {st₁ : State}
    (held : st₁.batch k = .ptr b) (stored : st₁.mem b = some batch) :
    Raw.pendingIn (pushEntry st₁ b batch p g rid) k = Raw.pendingIn st₁ k + 1 := by
  rw [pendingIn_ptr held stored]
  have pushed : (pushEntry st₁ b batch p g rid).mem b = _ := Function.update_self ..
  have held' : (pushEntry st₁ b batch p g rid).batch k = .ptr b := held
  rw [pendingIn_ptr held' pushed, List.length_append, List.length_singleton]

/-- The number of accepted retirements after one more event. -/
theorem acceptedIn_cons (event : Event) (log : List Event) :
    acceptedIn (event :: log) = acceptedIn log + (if event.accepted.isSome then 1 else 0) := by
  rw [acceptedIn, acceptedIn, List.countP_cons]

/-- A scan of an active slot does not run out of entries while only one slot is active. -/
theorem Tally.enough {v : SlotId} {start cursor marked : Nat} (tally : Tally cfg t k n st)
    (top : st.stack t = .scan v b start cursor marked :: below) (inv : Inv cfg st)
    (active : st.Active cursor) (stored : st.mem b = some batch) :
    marked < batch.entries.length := by
  obtain ⟨rfl, few, positive, _⟩ := tally.scan v cursor marked (by rw [top]; rfl)
  obtain rfl := tally.only cursor active
  have held : st.batch cursor = .ptr b := (inv.frames t below.length _ (State.frame_top top)).1
  rw [pendingIn_ptr held stored] at positive
  rw [if_neg (Nat.lt_irrefl _)] at few
  exact Nat.lt_of_le_of_lt few positive

/-- A retirement that is pushed, with the scan that it starts when it fills the batch. -/
theorem Tally.accept (tally : Tally cfg t k n st) (idle : scanOf (st.stack t) = none)
    (active : ∀ s, st'.Active s → st.Active s) (log : acceptedIn st'.log = acceptedIn st.log + 1)
    (same : frameAt (st'.stack t) 0 = frameAt (st.stack t) 0)
    (pending : pendingIn st' k = pendingIn st k + 1)
    (next : (scanOf (st'.stack t) = none ∧ pendingIn st' k < cfg.batchSize) ∨
      (scanOf (st'.stack t) = some (k, 0, 0) ∧ cfg.batchSize ≤ pendingIn st' k)) :
    Tally cfg t k (n + late t k st st') st' := by
  have where_ := behind_congr same k
  refine ⟨fun s on => tally.only s (active s on), fun front => ?_, fun passed => ?_,
    fun passed done => ?_, fun s cursor marked scans => ?_⟩
  · -- In front of the iteration nothing is counted.
    rw [where_] at front
    simp [late, front, tally.early front]
  · -- Behind it the batch and the count grow together.
    rw [where_] at passed
    have one : late t k st st' = 1 := by simp [late, passed, log]
    rw [pending, one, Nat.add_mod, tally.count passed, ← Nat.add_mod]
  · rcases next with ⟨_, few⟩ | ⟨scans, _⟩
    · exact few
    · rw [done] at scans
      cases scans
  · rcases next with ⟨none_, _⟩ | ⟨some_, many⟩
    · rw [none_] at scans
      cases scans
    · rw [some_] at scans
      cases scans
      refine ⟨rfl, Nat.zero_le _, by omega, fun passed => ?_⟩
      have before := tally.small (where_ ▸ passed) idle
      omega

/-- A scan that gives up has come to an active slot. -/
theorem abort_active {v : SlotId} {start cursor marked : Nat} {spurious : Bool}
    (top : st.stack t = .scan v b start cursor marked :: below) (stored : st.mem b = some batch)
    (ran : act cfg st t (.advance spurious) = .ok (st.setStack t below)) : st.Active cursor := by
  intro inactive
  -- The other steps of a scan leave a call above its caller.
  have higher : ∀ {f : Frame} {st₁ : State},
      Except.ok (st₁.setStack t (f :: below)) ≠ (Except.ok (st.setStack t below) : Result) := by
    intro f st₁ same
    have frames := congrFun (congrArg State.stack (Except.ok.inj same)) t
    simp only [State.setStack, Function.update_self] at frames
    exact List.cons_ne_self _ _ frames
  simp only [act, advance, top, scanStep, stored, inactive, or_true, if_true] at ran
  split at ran <;> exact higher ran

/-- The batch of the slot is committed: it leaves the slot, and was a whole one behind. -/
theorem Tally.committed {v : SlotId} {cursor marked : Nat} (tally : Tally cfg t k n st)
    (sized : 0 < cfg.batchSize) (was : scanOf (st.stack t) = some (v, cursor, marked))
    (idle' : scanOf (st'.stack t) = none) (active : ∀ s, st'.Active s → st.Active s)
    (log : acceptedIn st'.log = acceptedIn st.log)
    (same : frameAt (st'.stack t) 0 = frameAt (st.stack t) 0) (null : st'.batch v = .null) :
    Tally cfg t k (n + late t k st st') st' := by
  have none_ : late t k st st' = 0 := by simp [late, log]
  have where_ := behind_congr same k
  obtain ⟨rfl, _, _, whole⟩ := tally.scan v cursor marked was
  -- The batch is on its way, so the slot has none.
  have empty := pendingIn_null null
  rw [none_, Nat.add_zero]
  refine ⟨fun s on => tally.only s (active s on), fun front => tally.early (where_ ▸ front),
    fun passed => ?_, fun _ _ => empty ▸ sized, fun s cursor marked scans => ?_⟩
  · rw [where_] at passed
    rw [empty, ← tally.count passed, whole passed, Nat.mod_self, Nat.zero_mod]
  · rw [idle'] at scans
    cases scans

/-- What is marked up to a cursor is marked up to a later one. -/
theorem marked_mono {cursor cursor' marked : Nat} (forward : cursor ≤ cursor')
    (few : marked ≤ if k < cursor then 1 else 0) : marked ≤ if k < cursor' then 1 else 0 := by
  by_cases passed : k < cursor
  · rw [if_pos passed] at few
    rwa [if_pos (Nat.lt_of_lt_of_le passed forward)]
  · rw [if_neg passed] at few
    exact Nat.le_trans few (Nat.zero_le _)

/-- The iteration passes slots, and the slot of the thread is empty if it is one of them. -/
theorem Tally.passes {f : Frame} {cursor target : Nat} (tally : Tally cfg t k n st)
    (sized : 0 < cfg.batchSize) (was : st.stack t = [f]) (at_ : f.cursor = some cursor)
    (now : st'.stack t = [.reclaimAll target]) (forward : cursor ≤ target)
    (heads : st'.head = st.head) (log : st'.log = st.log)
    (kept : k < cursor → pendingIn st' k = pendingIn st k)
    (empty : cursor ≤ k → k < target → pendingIn st' k = 0) :
    Tally cfg t k (n + late t k st st') st' := by
  have idle : scanOf (st.stack t) = none := by
    rw [was]
    cases f <;> first | rfl | cases at_
  have old : behind k (st.stack t) = decide (k < cursor) := by
    rw [was, behind_one, at_, Option.any_some]
  have new : behind k (st'.stack t) = decide (k < target) := by
    rw [now, behind_one, Frame.cursor, Option.any_some]
  -- The slots that are passed have empty batches.
  refine tally.plain sized idle (by rw [now]; rfl) (fun s on => .inl ?_) (congrArg acceptedIn log)
    (fun passed => ?_) fun front passed => ?_
  · rw [State.Active, heads] at on
    exact on
  · rw [old, decide_eq_true_eq] at passed
    exact ⟨new.trans (decide_eq_true (Nat.lt_of_lt_of_le passed forward)), kept passed⟩
  · rw [old, decide_eq_false_iff_not] at front
    rw [new, decide_eq_true_eq] at passed
    exact empty (Nat.le_of_not_lt front) passed

/-- The step lemma: behind the iteration, whole batches are retired and the rest stays. -/
theorem Move.tally (moved : Move cfg st t action st') (ran : act cfg st t action = .ok st')
    (inv : Inv cfg st) (sentinel : Sentinel st) (absent : Absent st) (sized : 0 < cfg.batchSize)
    (small : k < cfg.slots) (own : OnSlot k action) (flushless : ∀ v, action ≠ .flush v)
    (inside : st.stack t ≠ []) (swept : Swept t k st) (tally : Tally cfg t k n st) :
    Tally cfg t k (n + late t k st st') st' := by
  have same : ∀ {s : SlotId}, st.Active s → st.Active s ∨ s = k := .inl
  have called : ∀ {g : Frame} {st₂ : State}, st₂.stack t = g :: st.stack t →
      frameAt (st₂.stack t) 0 = frameAt (st.stack t) 0 := by
    intro g st₂ stack
    rw [stack, ← List.singleton_append, frameAt_bottom [g] inside]
  -- Entering or refreshing the slot of the thread makes no other one active.
  have begun : ∀ {v s : SlotId} {list : Head}, v = k →
      Function.update st.head v list s ≠ .inactive → st.Active s ∨ s = k := by
    rintro v s list rfl on
    by_cases here : s = v
    · exact .inr here
    · rw [Function.update_of_ne here] at on
      exact .inl on
  -- Leaving a slot makes none active.
  have ended : ∀ {v s : SlotId}, Function.update st.head v .inactive s ≠ .inactive →
      st.Active s ∨ s = k := by
    intro v s on
    by_cases here : s = v
    · subst here
      exact absurd (Function.update_self ..) on
    · rw [Function.update_of_ne here] at on
      exact .inl on
  -- A batch that is written keeps its entries.
  have written : ∀ {b₁ : Addr} {old new : Batch} {st₂ : State}, st₂.batch k = st.batch k →
      st.mem b₁ = some old → st₂.mem = Function.update st.mem b₁ (some new) →
        new.entries.length = old.entries.length → Raw.pendingIn st₂ k = Raw.pendingIn st k :=
    fun local_ stored memory length => pendingIn_write local_ stored memory length
  have tops := inv.tops t
  -- Preparing the slot of the thread pushes nothing.
  have prepared : ∀ {v : SlotId} {st₁ : State}, v = k →
      Prep cfg v { st with nextRid := st.nextRid + 1 } st₁ → st₁.stack t = st.stack t ∧
        (∀ s, st₁.Active s → st.Active s) ∧ acceptedIn st₁.log = acceptedIn st.log ∧
          Raw.pendingIn st₁ k = Raw.pendingIn st k := by
    rintro v st₁ rfl prep
    obtain ⟨stack, heads, _, _, _, _, _, log, _⟩ := prep.same
    refine ⟨congrFun stack t, fun s on => ?_, congrArg acceptedIn log, prep.pendingIn⟩
    rw [State.Active, heads] at on
    exact on
  cases moved with
  | panic => exact own.elim
  | flushNone | flush => exact absurd rfl (flushless _)
  | known user | create user | access user =>
    exact tally.quiet sized (scanOf_user user) (scanOf_user user) (fun _ => same) rfl rfl rfl
  | enter user =>
    exact tally.quiet sized (scanOf_user user) (scanOf_user user)
      (fun _ => begun own) rfl rfl rfl
  | leaveIdle user =>
    exact tally.quiet sized (scanOf_user user) (scanOf_user user) (fun _ => ended) rfl rfl rfl
  | refreshIdle user =>
    exact tally.quiet sized (scanOf_user user) (scanOf_user user)
      (fun _ => begun own) rfl rfl rfl
  | leave user =>
    have stack := Function.update_self (f := st.stack) t
    exact tally.quiet sized (scanOf_user user) (congrArg scanOf (stack _)) (fun _ => ended) rfl
      (called (stack _)) rfl
  | refresh user =>
    have stack := Function.update_self (f := st.stack) t
    exact tally.quiet sized (scanOf_user user) (congrArg scanOf (stack _))
      (fun _ => begun own) rfl (called (stack _)) rfl
  | reclaimAll user =>
    have stack := Function.update_self (f := st.stack) t
    exact tally.quiet sized (scanOf_user user) (congrArg scanOf (stack _)) (fun _ => same) rfl
      (called (stack _)) rfl
  | @refused v p g c st₁ user prep =>
    obtain ⟨stack, active, log, pending⟩ := prepared own prep
    have stack : (st₁.record (.refused st.nextRid)).stack t = st.stack t := stack
    have idle := scanOf_user user
    exact tally.quiet sized idle (stack ▸ idle) (fun s on => .inl (active s on))
      ((acceptedIn_cons _ _).trans log) (by rw [stack]) pending
  | @pushed v p g c st₁ b batch user prep held stored few =>
    obtain rfl := own
    obtain ⟨stack, active, log, pending⟩ := prepared rfl prep
    have stack : (pushEntry st₁ b batch p g st.nextRid).stack t = st.stack t := stack
    have idle := scanOf_user user
    have more := pendingIn_pushed p g st.nextRid held stored
    refine tally.accept idle active ((acceptedIn_cons _ _).trans (congrArg (· + 1) log))
      (by rw [stack]) (more.trans (by rw [pending])) (.inl ⟨stack ▸ idle, ?_⟩)
    rw [more, pendingIn_ptr held stored]
    exact few
  | @filled v p g c st₁ b batch user prep held stored many =>
    obtain rfl := own
    obtain ⟨stack, active, log, pending⟩ := prepared rfl prep
    have more := pendingIn_pushed p g st.nextRid held stored
    have stack' := (Function.update_self (f := st₁.stack) t
      (.scan v b st.clock 0 0 :: st₁.stack t)).trans (by rw [stack])
    refine tally.accept (scanOf_user user) active ((acceptedIn_cons _ _).trans (congrArg (· + 1) log))
      (called stack') (more.trans (by rw [pending])) (.inr ⟨congrArg scanOf stack', ?_⟩)
    show _ ≤ Raw.pendingIn (pushEntry st₁ b batch p g st.nextRid) v
    rw [more, pendingIn_ptr held stored]
    exact many
  | @immediate v p g c st₁ user prep held =>
    obtain rfl := own
    obtain ⟨stack, active, _, _⟩ := prepared rfl prep
    have stack' : (((st₁.record (.retired st.nextRid p g)).record
        (.reclaimed st.nextRid p g none)).call t (.reclaimer st.nextRid p g)).stack t =
          .reclaimer st.nextRid p g :: st.stack t :=
      (Function.update_self ..).trans (congrArg (List.cons _) stack)
    -- Only the slot that the iteration is at holds the sentinel, and it is not behind.
    have front : behind v (st.stack t) = false := by
      obtain ⟨f, found⟩ := exists_frameAt_of_lt (List.length_pos_of_ne_nil inside)
      have iterates := swept.bottom f found
      have marked : st.batch v = .drop := (prep.drops v).mp held
      rw [behind, found]
      obtain ⟨current, is⟩ := Option.ne_none_iff_exists'.mp iterates
      have at_ := (sentinel.marks t 0 f current found is v).mp marked
      cases f <;> cases is <;> cases at_
      simp [Frame.cursor]
    have where_ := behind_congr (called stack') v
    refine ⟨fun s on => tally.only s (active s on), fun _ => ?_, fun passed => ?_, fun passed => ?_,
      fun s cursor marked scans => ?_⟩
    · simp [late, front, tally.early front]
    · rw [where_, front] at passed
      cases passed
    · rw [where_, front] at passed
      cases passed
    · rw [congrArg scanOf stack'] at scans
      cases scans
  | @reserve v c st₁ user prep =>
    obtain rfl := own
    obtain ⟨stack, heads, _, _, _, _, _, log, _⟩ := prep.same
    have idle := scanOf_user user
    refine tally.quiet sized idle ((congrArg scanOf (congrFun stack t)).trans idle)
      (fun s on => .inl ?_) (congrArg acceptedIn log) (by rw [stack]) prep.pendingIn
    rw [State.Active, heads] at on
    exact on
  -- The innermost call returns, and its caller scans nothing.
  | ret top | done top =>
    have stack := Function.update_self (f := st.stack) t
    exact tally.quiet sized (by rw [top]; rfl) ((congrArg scanOf (stack _)).trans
      (scanOf_tail (top ▸ tops))) (fun _ => same) rfl (swept.deep [] top rfl (stack _)) rfl
  | addShare top stored =>
    have stack := Function.update_self (f := st.stack) t
    exact tally.quiet sized (by rw [top]; rfl) ((congrArg scanOf (stack _)).trans
      (scanOf_tail (top ▸ tops))) (fun _ => same) (acceptedIn_cons _ _)
        (swept.deep [] top rfl (stack _)) (written rfl stored rfl rfl)
  | @dealloc b i below batch spurious top stored =>
    have stack := Function.update_self (f := st.stack) t
    refine tally.quiet sized (by rw [top]; rfl) ((congrArg scanOf (stack _)).trans
      (scanOf_tail (top ▸ tops))) (fun _ => same) rfl (swept.deep [] top rfl (stack _)) ?_
    refine pendingIn_congr rfl fun b₁ held => ?_
    -- The batch that is freed is not the one of a slot.
    have other : b₁ ≠ b := by
      rintro rfl
      obtain ⟨batch₁, stored₁, pending⟩ := inv.slots k b₁ held
      obtain ⟨_, batch₂, ⟨⟩, stored₂, freeing⟩ := inv.frames t _ _ (State.frame_top top)
      obtain rfl := Option.some.inj (stored₁.symm.trans stored₂)
      rw [pending] at freeing
      cases freeing
    exact congrArg _ (Function.update_of_ne other ..)
  -- The innermost call goes on outside of scans.
  | load top | gone top =>
    have stack := Function.update_self (f := st.stack) t
    exact tally.quiet sized (by rw [top]; rfl) (congrArg scanOf (stack _)) (fun _ => same) rfl
      (swept.deep [_] top rfl (stack _)) rfl
  | retry top stored | releaseCount top _ _ stored =>
    have stack := Function.update_self (f := st.stack) t
    exact tally.quiet sized (by rw [top]; rfl) (congrArg scanOf (stack _)) (fun _ => same) rfl
      (swept.deep [_] top rfl (stack _)) (written rfl stored rfl (by simp))
  | @addFree b marked i active seen below batch spurious top stored =>
    have stack := Function.update_self (f := st.stack) t
    exact tally.quiet sized (by rw [top]; rfl) (congrArg scanOf (stack _)) (fun _ => same)
      ((acceptedIn_cons _ _).trans (acceptedIn_cons (.counted batch.uid) _)) (swept.deep [_] top rfl (stack _))
        (written rfl stored rfl rfl)
  | releaseFree top _ _ stored =>
    have stack := Function.update_self (f := st.stack) t
    exact tally.quiet sized (by rw [top]; rfl) (congrArg scanOf (stack _)) (fun _ => same)
      (acceptedIn_cons _ _) (swept.deep [_, _] top rfl (stack _))
        (written rfl stored rfl (by simp))
  | invoke top =>
    have stack := Function.update_self (f := st.stack) t
    exact tally.quiet sized (by rw [top]; rfl) (congrArg scanOf (stack _)) (fun _ => same)
      (acceptedIn_cons _ _) (swept.deep [_, _] top rfl (stack _)) rfl
  | @publish b marked i active s prev below batch spurious top stored _ there =>
    have stack := Function.update_self (f := st.stack) t
    refine tally.quiet sized (by rw [top]; rfl) (congrArg scanOf (stack _)) (fun v on => .inl ?_) rfl
      (swept.deep [_] top rfl (stack _)) (written rfl stored rfl (by simp))
    by_cases here : v = s
    · subst here
      simp [State.Active, there]
    · exact fun off => on ((Function.update_of_ne here ..).trans off)
  -- A scan goes on.
  | @skipScan s b start cursor marked below target top _ forward =>
    have stack := Function.update_self (f := st.stack) t
    have was : scanOf (st.stack t) = some (s, cursor, marked) := by rw [top]; rfl
    obtain ⟨_, few, _⟩ := tally.scan s cursor marked was
    exact tally.scans (fun _ on => on) rfl (swept.deep [_] top rfl (stack _)) rfl was
      (congrArg scanOf (stack _)) (marked_mono forward few)
  | @pass s b start cursor marked below batch spurious top _ more idle =>
    have stack := Function.update_self (f := st.stack) t
    have was : scanOf (st.stack t) = some (s, cursor, marked) := by rw [top]; rfl
    obtain ⟨_, few, _⟩ := tally.scan s cursor marked was
    exact tally.scans (fun _ on => on) rfl (swept.deep [_] top rfl (stack _)) rfl was
      (congrArg scanOf (stack _)) (marked_mono (Nat.le_succ _) few)
  | @mark s b start cursor marked below batch spurious top stored _ _ active =>
    have stack := Function.update_self (f := st.stack) t
    have was : scanOf (st.stack t) = some (s, cursor, marked) := by rw [top]; rfl
    obtain ⟨_, few, _⟩ := tally.scan s cursor marked was
    refine tally.scans (fun _ on => on) rfl (swept.deep [_] top rfl (stack _))
      (written rfl stored rfl (by simp)) was (congrArg scanOf (stack _)) ?_
    -- The slot that is marked is the only active one, so it is marked once.
    obtain rfl := tally.only cursor active
    rw [if_neg (Nat.lt_irrefl _)] at few
    rw [if_pos (Nat.lt_succ_self _)]
    exact Nat.succ_le_succ few
  | @abort s b start cursor marked below batch spurious top stored full =>
    exact absurd (tally.enough top inv (abort_active top stored ran) stored) (Nat.not_lt.mpr full)
  | @commit s b start cursor marked below batch spurious top stored ended =>
    have stack := Function.update_self (f := st.stack) t
    exact tally.committed sized (by rw [top]; rfl) (congrArg scanOf (stack _)) (fun _ on => on)
      (acceptedIn_cons _ _) (swept.deep [_] top rfl (stack _)) (Function.update_self ..)
  -- The iteration moves on.
  | @skipReclaim cursor below target top _ forward missing =>
    obtain rfl := swept.alone sentinel top (by simp [Frame.iteration])
    refine tally.passes sized top rfl (Function.update_self ..) forward rfl rfl (fun _ => rfl)
      fun front passed => pendingIn_null (absent k fun there => ?_)
    -- A slot that is passed at once is not there, so it holds nothing.
    rcases missing k there with old | far
    · exact Nat.not_lt.mpr front old
    · exact Nat.not_lt.mpr far passed
  | @next cursor below spurious top _ null =>
    obtain rfl := swept.alone sentinel top (by simp [Frame.iteration])
    refine tally.passes sized top rfl (Function.update_self ..) (Nat.le_succ _) rfl rfl
      (fun _ => rfl) fun front passed => ?_
    obtain rfl := Nat.le_antisymm front (Nat.le_of_lt_succ passed)
    exact pendingIn_null (null.elim (absent cursor) id)
  | @reset cursor below spurious top =>
    obtain rfl := swept.alone sentinel top (by simp [Frame.iteration])
    refine tally.passes sized top rfl (Function.update_self ..) (Nat.le_succ _) rfl rfl
      (fun passed => ?_) fun front passed => ?_
    · exact pendingIn_congr (Function.update_of_ne (Nat.ne_of_lt passed) ..) fun _ _ => rfl
    · obtain rfl := Nat.le_antisymm front (Nat.le_of_lt_succ passed)
      exact pendingIn_null (Function.update_self ..)
  | @finish cursor below spurious top ended =>
    obtain rfl := swept.alone sentinel top (by simp [Frame.iteration])
    have stack := Function.update_self (f := st.stack) t []
    refine tally.plain sized (by rw [top]; rfl) (congrArg scanOf stack) (fun _ => same) rfl
      (fun _ => ⟨(congrArg (behind k) stack).trans rfl, rfl⟩) fun front _ => ?_
    rw [top, behind_one, Frame.cursor, Option.any_some, decide_eq_false_iff_not] at front
    exact absurd (Nat.lt_of_lt_of_le small ended) front
  | @take cursor below b batch spurious top _ _ held stored =>
    obtain rfl := swept.alone sentinel top (by simp [Frame.iteration])
    have stack := Function.update_self (f := st.stack) t
      [.freeBatch (.ptr b) 0, .reclaimReset cursor]
    have where_ : behind k [.freeBatch (.ptr b) 0, .reclaimReset cursor] =
        behind k (st.stack t) := by
      rw [top]
      rfl
    refine tally.plain sized (by rw [top]; rfl) (congrArg scanOf stack) (fun _ => same)
      (acceptedIn_cons _ _) (fun passed => ⟨(congrArg (behind k) stack).trans
        (where_.trans passed), ?_⟩) fun front passed => ?_
    · -- The slot of the thread is behind, so another one is taken.
      rw [top, behind_one, Frame.cursor, Option.any_some, decide_eq_true_eq] at passed
      exact written (Function.update_of_ne (Nat.ne_of_lt passed) ..) stored rfl rfl
    · have passed := (congrArg (behind k) stack).symm.trans passed
      rw [where_, front] at passed
      cases passed
  | takeWrong top _ _ held wrong => exact absurd wrong (sentinel.not_wrong inv top held)

end Tallies

end Seize.Raw
