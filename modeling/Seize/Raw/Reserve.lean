import Seize.Raw.Check

/-!
Reservations.

A slot whose batch has room keeps it until somebody retires or flushes on that slot, so a retirement
that was reserved does not allocate.
-/

namespace Seize.Raw

variable {cfg : Config} {st st' : State} {t t' : Tid} {s v : SlotId} {b : Addr} {batch : Batch}
  {action : Action}

/-- The slot whose batch a scan is about. -/
def Frame.scanSlot : Frame → Option SlotId
  | .scan s .. => some s
  | _ => none

/-- The slot whose batch an action may start to scan. -/
def Action.scans : Action → Option SlotId
  | .add s _ _ _ => some s
  | .flush s => some s
  | _ => none

/-- A scan of a slot was in progress before, or begins with the action. -/
theorem Move.scanSlot (moved : Move cfg st t action st') {f : Frame} (member : f ∈ st'.stack t')
    (is : f.scanSlot = some s) :
    (∃ g ∈ st.stack t', g.scanSlot = some s) ∨ action.scans = some s := by
  have stay : ∀ {st₂ : State}, st₂.stack = st.stack → f ∈ st₂.stack t' →
      (∃ g ∈ st.stack t', g.scanSlot = some s) ∨ action.scans = some s := by
    intro st₂ stack member
    rw [stack] at member
    exact .inl ⟨f, member, is⟩
  -- A call of user code is a new frame on top.
  have called : ∀ {k : Frame} {st₂ : State}, st₂.stack = Function.update st.stack t (k :: st.stack t) →
      (k.scanSlot = none ∨ action.scans = k.scanSlot) → f ∈ st₂.stack t' →
      (∃ g ∈ st.stack t', g.scanSlot = some s) ∨ action.scans = some s := by
    intro k st₂ stack new member
    rw [stack] at member
    by_cases here : t' = t
    · subst here
      rw [Function.update_self] at member
      rcases List.mem_cons.mp member with rfl | old
      · rcases new with none | begins
        · rw [none] at is
          cases is
        · exact .inr (begins.trans is)
      · exact .inl ⟨f, old, is⟩
    · rw [Function.update_of_ne here] at member
      exact .inl ⟨f, member, is⟩
  -- A step of a call replaces the innermost frame.
  have stepped : ∀ {k : Frame} (fs : List Frame) {below : List Frame} {st₂ : State},
      st.stack t = k :: below → st₂.stack = Function.update st.stack t (fs ++ below) →
      (∀ g ∈ fs, g.scanSlot = none ∨ g.scanSlot = k.scanSlot) → f ∈ st₂.stack t' →
      (∃ g ∈ st.stack t', g.scanSlot = some s) ∨ action.scans = some s := by
    intro k fs below st₂ top stack new member
    rw [stack] at member
    by_cases here : t' = t
    · subst here
      rw [Function.update_self] at member
      rw [top]
      rcases List.mem_append.mp member with inside | old
      · rcases new f inside with none | same
        · rw [none] at is
          cases is
        · exact .inl ⟨k, List.mem_cons_self, same.symm.trans is⟩
      · exact .inl ⟨f, List.mem_cons_of_mem _ old, is⟩
    · rw [Function.update_of_ne here] at member
      exact .inl ⟨f, member, is⟩
  cases moved with
  | known | create | enter | leaveIdle | refreshIdle | flushNone | access => exact stay rfl member
  | refused _ prep => exact stay prep.same.1 member
  | pushed _ prep => exact stay prep.same.1 member
  | reserve _ prep => exact stay prep.same.1 member
  | leave => exact called rfl (.inl rfl) member
  | refresh => exact called rfl (.inl rfl) member
  | reclaimAll => exact called rfl (.inl rfl) member
  | flush => exact called rfl (.inr rfl) member
  | @immediate s p g c st₁ _ prep =>
    refine called (k := .reclaimer st.nextRid p g) ?_ (.inl rfl) member
    simp [State.call, State.setStack, State.record, prep.same.1]
  | @filled s' p g c st₁ b' batch _ prep =>
    refine called (k := .scan s' b' st.clock 0 0) ?_ (.inr rfl) member
    simp [State.call, State.setStack, State.record, State.setBatch, pushEntry, prep.same.1]
  | panic top =>
    have kept : ∀ g ∈ unwind _, g ∈ st.stack t := fun g inside =>
      (suffix_of_top top (unwind_suffix _)).mem inside
    by_cases here : t' = t
    · subst here
      simp only [State.setStack, Function.update_self] at member
      exact .inl ⟨f, kept f member, is⟩
    · simp only [State.setStack, Function.update_of_ne here] at member
      exact .inl ⟨f, member, is⟩
  | ret top | abort top | addShare top | done top | dealloc top | finish top =>
    exact stepped [] top rfl (by simp) member
  | skipScan top | pass top | mark top => exact stepped [_] top rfl (by simp [Frame.scanSlot]) member
  | skipReclaim top | commit top | addFree top | load top | gone top | publish top | retry top
  | releaseCount top | next top | reset top =>
    exact stepped [_] top rfl (by simp [Frame.scanSlot]) member
  | releaseFree top | invoke top | take top | takeWrong top =>
    exact stepped [_, _] top rfl (by simp [Frame.scanSlot]) member

/-- The batch that a prepared slot holds is the one it held before, or a new one. -/
theorem Prep.held (prep : Prep cfg v st st') :
    ∀ b, st'.batch v = .ptr b → st.batch v = .ptr b ∨ st.mem b = none := by
  induction prep with
  | refl => exact fun b held => .inl held
  | load _ _ ih => exact ih
  | unboxed _ _ _ ih => exact ih
  | @fresh st₁ b₀ before _ free ih =>
    intro b held
    simp only [Function.update_self, LocalBatch.ptr.injEq] at held
    subst held
    -- An address that is free now was free at the start.
    refine .inr ?_
    cases stored : st.mem b₀ with
    | none => rfl
    | some batch =>
      obtain ⟨batch', stored', _⟩ := before.grows.kept b₀ batch stored
      rw [free] at stored'
      cases stored'
  | grow _ _ _ _ ih => exact ih

/-- Preparing a slot keeps the batches of other slots. -/
theorem Prep.mem_kept (prep : Prep cfg v st st') (other : st.batch v ≠ .ptr b)
    (stored : st.mem b = some batch) : st'.mem b = some batch := by
  -- A preparation writes at free addresses and in the batch of its own slot.
  induction prep with
  | refl => exact stored
  | load _ _ ih => exact ih
  | unboxed _ _ _ ih => exact ih
  | @fresh st₁ b₀ _ _ free ih =>
    refine (Function.update_of_ne ?_ _ _).trans ih
    rintro rfl
    rw [free] at ih
    cases ih
  | @grow st₁ b₀ batch₀ cap before held _ _ ih =>
    refine (Function.update_of_ne ?_ _ _).trans ih
    rintro rfl
    rcases before.held b held with same | free
    · exact other same
    · rw [free] at stored
      cases stored

/-- A slot with room still has room after it was prepared again. -/
theorem Prep.room (prep : Prep cfg s st st') (held : st.batch s = .ptr b)
    (stored : st.mem b = some batch) (space : batch.entries.length < batch.cap) :
    st'.batch s = .ptr b ∧ ∃ batch', st'.mem b = some batch' ∧
      batch'.entries.length < batch'.cap := by
  -- There is a batch, so none is made, and it only grows.
  induction prep with
  | refl => exact ⟨held, batch, stored, space⟩
  | load _ _ ih => exact ih
  | unboxed _ _ _ ih => exact ih
  | fresh _ null _ ih =>
    rw [ih.1] at null
    cases null
  | @grow st₁ b₀ batch₀ cap _ held₀ _ room ih =>
    have same : b₀ = b := by
      rw [ih.1] at held₀
      exact (LocalBatch.ptr.inj held₀).symm
    subst same
    exact ⟨held₀, _, Function.update_self .., room⟩

/-- Slots that are present stay present. -/
theorem Prep.present (prep : Prep cfg v st st') (present : s ∈ st.batchSlots) :
    s ∈ st'.batchSlots := by
  induction prep with
  | refl => exact present
  | load _ _ ih => exact List.mem_cons_of_mem _ ih
  | unboxed _ _ _ ih => exact ih
  | fresh _ _ _ ih => exact ih
  | grow _ _ _ _ ih => exact ih

/-- The slot whose local batch the next step of a call reads and writes. -/
def Frame.uses : Frame → Option SlotId
  | .scan s .. => some s
  | .reclaimAll cursor => some cursor
  | .reclaimReset cursor => some cursor
  | _ => none

/-- The slot whose local batch an action reads and writes. -/
def Action.uses (st : State) (t : Tid) : Action → Option SlotId
  | .add s _ _ _ => some s
  | .reserve s _ => some s
  | .advance _ => (st.stack t).head?.bind Frame.uses
  | _ => none

/-- A slot and its batch are left alone. -/
def LocalKept (st st' : State) (s : SlotId) : Prop :=
  st'.batch s = st.batch s ∧ (s ∈ st.batchSlots → s ∈ st'.batchSlots) ∧
    ∀ b batch, st.batch s = .ptr b → st.mem b = some batch → st'.mem b = some batch

/-- Two slots never hold the same batch. -/
theorem Inv.local_injective (inv : Inv cfg st) (first : st.batch s = .ptr b)
    (second : st.batch v = .ptr b) : s = v := by
  obtain ⟨batch, stored, phase⟩ := inv.slots s b first
  obtain ⟨batch', stored', phase'⟩ := inv.slots v b second
  rw [stored] at stored'
  cases stored'
  cases phase.symm.trans phase'
  rfl

/-- Changing one batch leaves the slots that do not hold it alone. -/
theorem LocalKept.update {after : Option Batch} (differ : st.batch s ≠ .ptr b)
    (batches : st'.batch s = st.batch s) (slots : st'.batchSlots = st.batchSlots)
    (memory : st'.mem = Function.update st.mem b after) : LocalKept st st' s := by
  refine ⟨batches, fun present => slots ▸ present, fun b' batch held stored => ?_⟩
  rw [memory]
  refine (Function.update_of_ne ?_ _ _).trans stored
  rintro rfl
  exact differ held

/-- Steps that change no batch leave every slot alone. -/
theorem LocalKept.same (batches : st'.batch s = st.batch s) (slots : st'.batchSlots = st.batchSlots)
    (memory : st'.mem = st.mem) : LocalKept st st' s :=
  ⟨batches, fun present => slots ▸ present, fun _ _ _ stored => memory ▸ stored⟩

/-- Preparing a slot, and pushing to its batch, leaves the others alone. -/
theorem Prep.local_kept {st₀ st₁ : State} (inv : Inv cfg st) (prep : Prep cfg v st₀ st₁)
    (batch₀ : st₀.batch = st.batch) (slots₀ : st₀.batchSlots = st.batchSlots)
    (mem₀ : st₀.mem = st.mem) (other : some v ≠ some s) (batch₁ : st'.batch = st₁.batch)
    (slots₁ : st'.batchSlots = st₁.batchSlots)
    (mem₁ : st'.mem = st₁.mem ∨ ∃ b after, st₁.batch v = .ptr b ∧
      st'.mem = Function.update st₁.mem b after) : LocalKept st st' s := by
  -- The two slots have different batches.
  have differ : ∀ b, st.batch s = .ptr b → st₀.batch v ≠ .ptr b := by
    intro b held same
    rw [batch₀] at same
    exact other (by rw [inv.local_injective held same])
  refine ⟨?_, fun present => ?_, fun b batch held stored => ?_⟩
  · rw [batch₁, prep.batch_other fun same => other (by rw [same]), batch₀]
  · rw [slots₁]
    exact prep.present (slots₀ ▸ present)
  · have kept := prep.mem_kept (differ b held) (mem₀ ▸ stored)
    rcases mem₁ with same | ⟨b', after, held', updated⟩
    · rw [same]
      exact kept
    · rw [updated]
      refine (Function.update_of_ne ?_ _ _).trans kept
      rintro rfl
      rcases prep.held b held' with same | free
      · exact differ b held same
      · rw [mem₀, stored] at free
        cases free

/-- The frame rule for local batches: an action on another slot leaves a slot and its batch alone. -/
theorem Move.local_kept (moved : Move cfg st t action st') (inv : Inv cfg st)
    (other : action.uses st t ≠ some s) : LocalKept st st' s := by
  -- A call that works on a batch without scanning the slot works on another batch.
  have frame : ∀ {f below b₀}, st.stack t = f :: below → f.batchOf = some b₀ →
      f.usesBatch s = false ∨ f.isLeaf = false → st.batch s ≠ .ptr b₀ := by
    intro f below b₀ top works free held
    obtain ⟨leaf, uses⟩ := inv.pending_frame held (State.frame_top top) works
    rcases free with not | not
    · rw [not] at uses
      cases uses
    · rw [not] at leaf
      cases leaf
  have elsewhere : ∀ {f below spurious v}, action = .advance spurious → st.stack t = f :: below →
      f.uses = some v → v ≠ s := by
    intro f below spurious v is top uses same
    subst is
    exact other (by simp [Action.uses, top, uses, same])
  cases moved with
  | known | create | enter | leaveIdle | leave | refreshIdle | refresh | flushNone | flush
  | reclaimAll | access | ret | panic | skipScan | skipReclaim | pass | abort | load | gone | done
  | invoke | finish | next => exact .same rfl rfl rfl
  | refused _ prep => exact prep.local_kept inv rfl rfl rfl other rfl rfl (.inl rfl)
  | immediate _ prep => exact prep.local_kept inv rfl rfl rfl other rfl rfl (.inl rfl)
  | reserve _ prep => exact prep.local_kept inv rfl rfl rfl other rfl rfl (.inl rfl)
  | pushed _ prep held =>
    exact prep.local_kept inv rfl rfl rfl other rfl rfl (.inr ⟨_, _, held, rfl⟩)
  | filled _ prep held =>
    exact prep.local_kept inv rfl rfl rfl other rfl rfl (.inr ⟨_, _, held, rfl⟩)
  | commit top =>
    have differ := elsewhere rfl top rfl
    exact .update (frame top rfl (.inl (by simp [Frame.usesBatch, differ])))
      (Function.update_of_ne differ.symm _ _) rfl rfl
  | mark top =>
    have differ := elsewhere rfl top rfl
    exact .update (frame top rfl (.inl (by simp [Frame.usesBatch, differ]))) rfl rfl rfl
  | addFree top => exact .update (frame top rfl (.inl rfl)) rfl rfl rfl
  | addShare top => exact .update (frame top rfl (.inl rfl)) rfl rfl rfl
  | publish top => exact .update (frame top rfl (.inl rfl)) rfl rfl rfl
  | retry top => exact .update (frame top rfl (.inl rfl)) rfl rfl rfl
  | dealloc top => exact .update (frame top rfl (.inl rfl)) rfl rfl rfl
  | releaseFree top read state stored =>
    -- The batch of an entry on a list is committed.
    obtain ⟨is, _, _, visit⟩ := inv.visit top read state stored
    exact .update (is ▸ visit.facts.notPending inv s) rfl rfl rfl
  | releaseCount top read state stored =>
    obtain ⟨is, _, _, visit⟩ := inv.visit top read state stored
    exact .update (is ▸ visit.facts.notPending inv s) rfl rfl rfl
  | take top more present held =>
    have differ := elsewhere rfl top rfl
    exact .update (fun same => differ (inv.local_injective held same))
      (Function.update_of_ne differ.symm _ _) rfl rfl
  | takeWrong top =>
    exact .same (Function.update_of_ne (elsewhere rfl top rfl).symm _ _) rfl rfl
  | reset top =>
    exact .same (Function.update_of_ne (elsewhere rfl top rfl).symm _ _) rfl rfl

/-- The next retirement on a slot needs no memory: the slot has room, or reclaims at once. -/
structure Fits (st : State) (s : SlotId) : Prop where
  present : s ∈ st.batchSlots
  room : st.batch s = .drop ∨ ∃ b batch, st.batch s = .ptr b ∧ st.mem b = some batch ∧
    batch.entries.length < batch.cap

/-- A slot with room that nobody is scanning. -/
structure Roomy (st : State) (s : SlotId) : Prop extends Fits st s where
  idle : ∀ t, ∀ f ∈ st.stack t, f.scanSlot ≠ some s

/--
What a slot does not see after a reservation.

Nobody retires or flushes on it, and `reclaim_all` neither starts nor reaches it.
-/
def Spares (s : SlotId) (st : State) (move : Tid × Action) : Prop :=
  move.2.scans ≠ some s ∧ move.2 ≠ .reclaimAll ∧ ∀ spurious, move.2 = .advance spurious →
    (st.stack move.1).head? ≠ some (.reclaimAll s) ∧ (st.stack move.1).head? ≠ some (.reclaimReset s)

/-- The step lemma: a slot that is spared keeps its room. -/
theorem Move.roomy (moved : Move cfg st t action st') (inv : Inv cfg st)
    (spared : Spares s st (t, action)) (roomy : Roomy st s) : Roomy st' s := by
  obtain ⟨noScan, _, noReclaim⟩ := spared
  have idle : ∀ t', ∀ f ∈ st'.stack t', f.scanSlot ≠ some s := by
    intro t' f member is
    rcases moved.scanSlot member is with ⟨g, old, same⟩ | begins
    · exact roomy.idle t' g old same
    · exact noScan begins
  by_cases other : action.uses st t = some s
  · -- Only another reservation on the slot remains.
    cases action with
    | add v p f c => exact absurd other noScan
    | reserve v c =>
      cases other
      cases moved with
      | reserve _ prep =>
        refine ⟨⟨prep.present roomy.present, ?_⟩, idle⟩
        rcases roomy.room with drop | ⟨b, batch, held, stored, space⟩
        · exact .inl ((prep.drops s).mpr drop)
        · obtain ⟨held', batch', stored', space'⟩ := prep.room held stored space
          exact .inr ⟨b, batch', held', stored', space'⟩
    | advance spurious =>
      obtain ⟨notAll, notReset⟩ := noReclaim spurious rfl
      cases stack : st.stack t with
      | nil => simp [Action.uses, stack] at other
      | cons f below =>
        have is : f.uses = some s := by simpa [Action.uses, stack] using other
        cases f with
        | scan v b start cursor marked =>
          have member : Frame.scan v b start cursor marked ∈ st.stack t := by
            rw [stack]
            exact List.mem_cons_self
          exact absurd is (roomy.idle t _ member)
        | reclaimAll cursor =>
          cases is
          simp [stack] at notAll
        | reclaimReset cursor =>
          cases is
          simp [stack] at notReset
        | _ => cases is
    | _ => cases other
  · obtain ⟨batches, slots, memory⟩ := moved.local_kept inv other
    refine ⟨⟨slots roomy.present, ?_⟩, idle⟩
    rw [batches]
    rcases roomy.room with drop | ⟨b, batch, held, stored, space⟩
    · exact .inl drop
    · exact .inr ⟨b, batch, held, memory b batch held stored, space⟩

/-- A slot that was prepared is present. -/
theorem prepare_present {c : Alloc} {result : Prepared} (ran : prepare cfg st s c = .ok (st', result))
    (ok : result ≠ .failed) : s ∈ st'.batchSlots := by
  have loaded : s ∈ (loadBatch st s).batchSlots := by
    unfold loadBatch
    split
    · assumption
    · exact List.mem_cons_self
  -- Nothing after the load removes a slot.
  unfold prepare at ran
  split at ran
  · cases ran
    exact absurd rfl ok
  · split at ran
    · cases ran
    · cases ran
      exact absurd rfl ok
    · cases ran
    · rename_i initialized
      cases ran
      exact (getOrInit_prep initialized).1.present loaded
    · rename_i initialized
      have present := (getOrInit_prep initialized).1.present loaded
      split at ran
      · cases ran
      · split at ran
        · cases ran
          exact absurd rfl ok
        · cases ran
          exact present

/-- A reservation that returns `Ok` leaves the slot with room. -/
theorem prepare_roomy {c : Alloc} {result : Prepared} (inv : Inv cfg st)
    (user : userLevel (st.stack t) = true) (unique : UniqueAccess st t s)
    (ran : prepare cfg st s c = .ok (st', result)) (ok : result ≠ .failed) : Roomy st' s := by
  obtain ⟨prep, promise⟩ := prepare_prep ran
  refine ⟨⟨prepare_present ran ok, ?_⟩, fun t' f member is => ?_⟩
  · cases result with
    | failed => exact absurd rfl ok
    | immediate => exact .inl promise
    | ready b =>
      obtain ⟨held, batch, stored, space⟩ := promise
      exact .inr ⟨b, batch, held, stored, space⟩
  · -- No scan of the slot is in progress: not below user code, and not on another thread.
    rw [prep.same.1] at member
    cases f with
    | scan v b start cursor marked =>
      cases is
      by_cases here : t' = t
      · subst here
        cases (inv.tops t').of_userLevel user _ member
      · have := unique t' here _ member
        simp [Frame.usesBatch] at this
    | _ => cases is

/-- A slot with room is prepared without a change, whatever the allocator answers. -/
theorem Fits.prepare (fits : Fits st s) (cfg : Config) : ∃ result, result ≠ .failed ∧ result.Ok st s ∧
    ∀ c, prepare cfg st s c = .ok (st, result) := by
  have loaded : loadBatch st s = st := if_pos fits.present
  have present : ∀ c : Alloc, ¬ (s ∉ st.batchSlots ∧ c.slot = false) := fun _ no => no.1 fits.present
  rcases fits.room with drop | ⟨b, batch, held, stored, space⟩
  · refine ⟨.immediate, by simp, drop, fun c => ?_⟩
    simp only [Raw.prepare, if_neg (present c), loaded, getOrInit, drop]
  · refine ⟨.ready b, by simp, ⟨held, batch, stored, space⟩, fun c => ?_⟩
    have same : st.setBatch b batch = st := by
      simp only [State.setBatch, ← stored, Function.update_eq_self]
    have silent : reserveCalls b batch.cap batch.cap = [] := if_pos rfl
    simp only [Raw.prepare, if_neg (present c), loaded, getOrInit, held, stored, tryReserve,
      if_pos space, silent, List.nil_append, same]

/-- A retirement that does not depend on the allocator: it returns `Ok` and allocates nothing. -/
def Infallible (cfg : Config) (st : State) (t : Tid) (s : SlotId) (p : Ptr) (f : Reclaim) : Prop :=
  ∃ st', (∀ c, step cfg st (t, .add s p f c) = .ok st') ∧
    (∃ newer, st'.log = newer ++ .retired st.nextRid p f :: st.log) ∧
      st'.ledger = st.ledger ∧ st'.batchSlots = st.batchSlots

/-- A retirement on a slot with room is infallible. -/
theorem Fits.infallible (fits : Fits st s) (user : userLevel (st.stack t) = true) (p : Ptr)
    (f : Reclaim) : Infallible cfg st t s p f := by
  -- With room, a preparation asks the allocator for nothing, so its answers do not matter.
  have fits' : Fits { st with nextRid := st.nextRid + 1 } s := ⟨fits.present, fits.room⟩
  obtain ⟨result, ok, promise, ran⟩ := fits'.prepare cfg
  cases result with
  | failed => exact absurd rfl ok
  | immediate =>
    refine ⟨tick (((({ st with nextRid := st.nextRid + 1 } : State).record
      (.retired st.nextRid p f)).record (.reclaimed st.nextRid p f none)).call t
        (.reclaimer st.nextRid p f)), fun c => ?_, ⟨[.reclaimed st.nextRid p f none], rfl⟩, rfl, rfl⟩
    simp only [step, act, user, add, ran c, Bool.true_eq_false, if_false]
    rfl
  | ready b =>
    obtain ⟨held, batch, stored, space⟩ := promise
    have stored : st.mem b = some batch := stored
    let pushed := pushEntry { st with nextRid := st.nextRid + 1 } b batch p f st.nextRid
    have held' : pushed.batch s = .ptr b := held
    have stored' : pushed.mem b = some { batch with
      entries := batch.entries ++ [newEntry b p f st.nextRid] } := Function.update_self ..
    by_cases large : cfg.batchSize ≤ batch.entries.length + 1
    · refine ⟨tick (pushed.call t (.scan s b pushed.clock 0 0)), fun c => ?_, ⟨[], rfl⟩, rfl, rfl⟩
      have many : (batch.entries ++ [newEntry b p f st.nextRid]).length ≥ cfg.batchSize := by
        simpa using large
      simp only [step, act, user, add, ran c, stored, if_pos many, Bool.true_eq_false, if_false]
      exact congrArg (Except.map tick) (tryRetire_ptr held' stored')
    · refine ⟨tick pushed, fun c => ?_, ⟨[], rfl⟩, rfl, rfl⟩
      have few : ¬ (batch.entries ++ [newEntry b p f st.nextRid]).length ≥ cfg.batchSize := by
        simpa using large
      simp only [step, act, user, add, ran c, stored, if_neg few, Bool.true_eq_false, if_false]
      rfl

/-- The run lemma: a slot that is spared keeps its room. -/
theorem spared_roomy {start : State} (sound : Sound cfg start) (roomy : Roomy start s)
    (run : Reachable (step cfg) (fun st move => Disciplined cfg st move ∧ Spares s st move) start st) :
    Sound cfg st ∧ Roomy st s := by
  refine run.invariant (fun st => Sound cfg st ∧ Roomy st s) ⟨sound, roomy⟩ ?_
  rintro st move st' _ ⟨sound, roomy⟩ ⟨permitted, spared⟩ ran
  refine ⟨sound.step permitted ran, ?_⟩
  obtain ⟨st₁, moved, rfl⟩ := step_move ran
  have roomy' := moved.roomy sound.inv spared roomy
  exact ⟨⟨roomy'.present, roomy'.room⟩, roomy'.idle⟩

/-- A reservation that returned `Ok` is a step that leaves the slot with room. -/
theorem reserve_roomy {c : Alloc} {result : Prepared} (sound : Sound cfg st)
    (user : userLevel (st.stack t) = true) (permitted : Disciplined cfg st (t, .reserve s c))
    (ran : prepare cfg st s c = .ok (st', result)) (ok : result ≠ .failed) :
    Sound cfg (tick st') ∧ Roomy (tick st') s := by
  have reserves : step cfg st (t, .reserve s c) = .ok (tick st') := by
    simp only [step, act, user, reserve, ran, Bool.true_eq_false, if_false]
    rfl
  have roomy := prepare_roomy sound.inv user permitted.1.2 ran ok
  exact ⟨sound.step permitted reserves, ⟨roomy.present, roomy.room⟩, roomy.idle⟩

/-- A run that makes a reservation and goes on, decided for the first slots. -/
def reserveThen (cfg : Config) (n : Nat) (t : Tid) (s : SlotId) (c : Alloc)
    (approve : State → Tid × Action → Bool) (final : State → Bool) (moves : List (Tid × Action))
    (st : State) : Bool :=
  userLevel (st.stack t) && accessCheck cfg n st (t, .reserve s c) &&
    match prepare cfg st s c with
    | .ok (reserved, result) => decide (result ≠ .failed) &&
      checkRun (step cfg) (fun st move => accessCheck cfg n st move && approve st move) final
        (tick reserved) moves
    | .error _ => false

/-- A computed run with a reservation is a run. -/
theorem reservation_of_check (cfg : Config) (n : Nat) (t : Tid) (s : SlotId) (c : Alloc)
    (allowed : State → Tid × Action → Prop) (approve : State → Tid × Action → Bool)
    (final : State → Bool) (first second : List (Tid × Action))
    (sound : ∀ st move, Within n st → accessCheck cfg n st move = true → approve st move = true →
      allowed st move)
    (checked : checkRun (step cfg) (fun st move => accessCheck cfg n st move && sentinelCheck n st move)
      (reserveThen cfg n t s c approve final second) State.init first = true) :
    ∃ st reserved later result, Reachable (step cfg) (Disciplined cfg) State.init st ∧
      userLevel (st.stack t) = true ∧ Disciplined cfg st (t, .reserve s c) ∧
        prepare cfg st s c = .ok (reserved, result) ∧ result ≠ .failed ∧
          Reachable (step cfg) allowed (tick reserved) later ∧ final later = true := by
  obtain ⟨st, run, within, ended⟩ := reachable_from_check cfg n (Disciplined cfg) (sentinelCheck n)
    (reserveThen cfg n t s c approve final second) first
    (fun _ _ within access checked => disciplined_of_check within access checked) (.init n) checked
  simp only [reserveThen, Bool.and_eq_true] at ended
  obtain ⟨⟨user, access⟩, ended⟩ := ended
  cases prepared : prepare cfg st s c with
  | error stop => simp [prepared] at ended
  | ok outcome =>
    obtain ⟨reserved, result⟩ := outcome
    simp only [prepared, Bool.and_eq_true, decide_eq_true_eq] at ended
    have permitted : Disciplined cfg st (t, .reserve s c) :=
      disciplined_of_check within access (by simp [sentinelCheck])
    -- The reservation itself is a step between the two runs.
    have reserves : step cfg st (t, .reserve s c) = .ok (tick reserved) := by
      simp only [step, act, user, reserve, prepared, Bool.true_eq_false, if_false]
      rfl
    obtain ⟨later, rest, _, final⟩ := reachable_from_check cfg n allowed approve final second sound
      (within.step access reserves) ended.2
    exact ⟨st, reserved, later, result, run, user, permitted, prepared, ended.1, rest, final⟩

/-- A slot is spared, decided for one action. -/
def sparesCheck (n : Nat) (s : SlotId) (st : State) (move : Tid × Action) : Bool :=
  sentinelCheck n st move && decide (move.2.scans ≠ some s ∧ move.2 ≠ .reclaimAll ∧
    (st.stack move.1).head? ≠ some (.reclaimAll s) ∧ (st.stack move.1).head? ≠ some (.reclaimReset s))

/-- An allocator that rejects every request. -/
def reject : Alloc := ⟨false, false, false, false, 0, 0⟩

/-- Without room, an allocator that rejects every request makes a retirement fail or stop. -/
theorem prepare_rejected (unfit : ¬ Fits st s) : ∀ st' result,
    prepare cfg st s reject = .ok (st', result) → result = .failed := by
  intro st' result ran
  unfold prepare at ran
  split at ran
  · cases ran
    rfl
  · rename_i present
    have present : s ∈ st.batchSlots := by
      by_contra absent
      exact present ⟨absent, rfl⟩
    have loaded : loadBatch st s = st := if_pos present
    rw [loaded] at ran
    unfold getOrInit at ran
    cases held : st.batch s with
    | null =>
      -- The slot has no batch, and none can be allocated.
      simp only [held] at ran
      by_cases used : (st.mem reject.addr).isSome = true
      · simp [used] at ran
      · simp only [if_neg used] at ran
        by_cases sized : cfg.batchSize ≠ 0 ∧ reject.entries = false
        · simp only [if_pos sized] at ran
          cases ran
          rfl
        · have noBox : reject.box = false := rfl
          simp only [if_neg sized, if_pos noBox] at ran
          cases ran
          rfl
    | drop => exact absurd ⟨present, .inl held⟩ unfit
    | ptr b =>
      simp only [held] at ran
      cases stored : st.mem b with
      | none => simp [stored] at ran
      | some batch =>
        have full : ¬ batch.entries.length < batch.cap :=
          fun space => unfit ⟨present, .inr ⟨b, batch, held, stored, space⟩⟩
        have noGrowth : ¬ reject.grow = true := by decide
        simp only [stored, tryReserve, if_neg full, if_neg noGrowth] at ran
        cases ran
        rfl

/-- A retirement is infallible exactly when its slot has room. -/
theorem infallible_iff (user : userLevel (st.stack t) = true) (p : Ptr) (f : Reclaim) :
    Infallible cfg st t s p f ↔ Fits st s := by
  refine ⟨fun infallible => ?_, fun fits => fits.infallible user p f⟩
  by_contra unfit
  obtain ⟨st', ran, ⟨newer, log⟩, _⟩ := infallible
  have ran := ran reject
  have unfit' : ¬ Fits { st with nextRid := st.nextRid + 1 } s :=
    fun fits => unfit ⟨fits.present, fits.room⟩
  simp only [step, act, user, add, Bool.true_eq_false, if_false] at ran
  cases prepared : prepare cfg { st with nextRid := st.nextRid + 1 } s reject with
  | error stop => simp [prepared, Except.map] at ran
  | ok outcome =>
    obtain ⟨st₁, result⟩ := outcome
    cases prepare_rejected unfit' st₁ result prepared
    simp only [prepared, Except.map, Except.ok.injEq] at ran
    -- The newest event is the refusal.
    have same : st₁.log = st.log := (prepare_prep prepared).1.same.2.2.2.2.2.2.2.1
    rw [← ran] at log
    simp only [tick, State.record, same] at log
    have short := congrArg List.length log
    simp only [List.length_cons, List.length_append] at short
    have none : newer = [] := List.length_eq_zero_iff.mp (by omega)
    subst none
    simp at log

/-- A thread performs no retirement, flush, refresh or `reclaim_all`. -/
def Abstains (t : Tid) (st : State) (move : Tid × Action) : Prop :=
  move.1 = t → move.2.scans = none ∧ (∀ s, move.2 ≠ .refresh s) ∧ move.2 ≠ .reclaimAll ∧
    ∀ spurious, move.2 = .advance spurious → ∀ f ∈ (st.stack t).head?, f.uses = none

/-- The two calls of a thread on a guard, with what happens between them. -/
structure SharedReservation (cfg : Config) (t : Tid) (s : SlotId) (c : Alloc)
    (st reserved later : State) : Prop where
  run : Reachable (step cfg) (Disciplined cfg) State.init st
  user : userLevel (st.stack t) = true
  permitted : Disciplined cfg st (t, .reserve s c)
  ok : ∃ result, prepare cfg st s c = .ok (reserved, result) ∧ result ≠ .failed
  rest : Reachable (step cfg) (fun st move => Disciplined cfg st move ∧ Abstains t st move)
    (tick reserved) later
  user' : userLevel (later.stack t) = true

/-- A thread abstains, decided for one action. -/
def abstainsCheck (n : Nat) (t : Tid) (st : State) (move : Tid × Action) : Bool :=
  sentinelCheck n st move && (decide (move.1 ≠ t) || decide (move.2 = .advance false ∧
    ∀ f ∈ (st.stack t).head?, f.uses = none))

/-- A run that passes the check is one in which the thread abstains. -/
theorem abstains_of_check {n : Nat} (within : Within n st) {move : Tid × Action}
    (access : accessCheck cfg n st move = true) (checked : abstainsCheck n t st move = true) :
    Disciplined cfg st move ∧ Abstains t st move := by
  simp only [abstainsCheck, Bool.and_eq_true, Bool.or_eq_true, decide_eq_true_eq] at checked
  refine ⟨disciplined_of_check within access checked.1, fun mine => ?_⟩
  rcases checked.2 with other | ⟨is, idle⟩
  · exact absurd mine other
  · rw [is]
    exact ⟨rfl, by simp, by simp, fun _ _ => idle⟩

/-- Another thread retires through the guard between the reservation and the retirement. -/
def intruder : List (Tid × Action) :=
  [(1, .add 0 8 9 (plenty 2)), (1, .advance false), (1, .skip (2 ^ 64 - 32)), (1, .advance false),
    (1, .advance false), (1, .advance false), (1, .advance false)]

end Seize.Raw
