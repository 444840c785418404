import Seize.Raw.Reach

/-!
What a failed allocation leaves behind.

A call that returns `Err` leaves at most a slot that is present and empty, and gives back the memory
it got. Calling again does what the first call would have done.
-/

namespace Seize.Raw

variable {cfg : Config} {st st' st₁ st₂ : State} {t : Tid} {s : SlotId} {c : Alloc}

/-- A frame without its ghosts. -/
def Frame.plain : Frame → Frame
  | .reclaimer _ p f => .reclaimer 0 p f
  | .scan s b _ cursor marked => .scan s b 0 cursor marked
  | .traverse list _ => .traverse list []
  | f => f

/-- What a collector is to its callers. -/
structure Abstract where
  /-- `INACTIVE`, or where the reservation list begins. -/
  head : SlotId → Head
  /-- The reservation lists. -/
  list : SlotId → List EntryPtr
  /-- What every slot holds as its local batch. -/
  batch : SlotId → LocalBatch
  /-- The retirements that are pending in the local batch of a slot. -/
  pending : SlotId → List (Ptr × Reclaim)
  /-- The reference count of every batch. -/
  counts : Addr → Option Nat
  /-- The calls in progress. -/
  calls : Tid → List Frame

/-- The retirements in the local batch of a slot. -/
def State.retirements (st : State) (s : SlotId) : List (Ptr × Reclaim) :=
  match st.batch s with
  | .ptr b =>
    match st.mem b with
    | some batch => batch.entries.map fun entry => (entry.ptr, entry.reclaim)
    | none => []
  | _ => []

/-- The abstract state. -/
def State.abstract (st : State) : Abstract where
  head := st.head
  list := st.pushed
  batch := st.batch
  pending := st.retirements
  counts b := (st.mem b).map (·.active)
  calls t := (st.stack t).map Frame.plain

/-- A slot that is absent from the table of batches reads as null. -/
def Absent (st : State) : Prop := ∀ s, s ∉ st.batchSlots → st.batch s = .null

/-- What a failing call leaves: the slot may be present now, and its memory was given back. -/
structure Spared (cfg : Config) (s : SlotId) (st st' : State) : Prop where
  same : st' = { st with batchSlots := st'.batchSlots, ledger := st'.ledger }
  /-- The bucket that was attached for the slot holds no batch. -/
  slots : st'.batchSlots = st.batchSlots ∨
    (s ∉ st.batchSlots ∧ st'.batchSlots = s :: st.batchSlots ∧ st.batch s = .null)
  /-- An entries vector whose box could not be allocated was given back at once. -/
  memory : st'.ledger = st.ledger ∨ ∃ b, st.mem b = none ∧
    st'.ledger = .dealloc (.entries b) (.entries cfg.batchSize) ::
      .alloc (.entries b) (.entries cfg.batchSize) :: st.ledger

/-- Loading the slot of a batch leaves at most the slot behind. -/
theorem Spared.load (absent : Absent st) : Spared cfg s st (loadBatch st s) := by
  unfold loadBatch
  split
  · exact ⟨rfl, .inl rfl, .inl rfl⟩
  · rename_i missing
    exact ⟨rfl, .inr ⟨missing, rfl, absent s missing⟩, .inl rfl⟩

/-- The outcomes of initializing a local batch. -/
theorem getOrInit_cases {found : Option LocalBatch}
    (ran : getOrInit cfg st s c = .ok (st', found)) :
    (found = none ∧ (st' = st ∨ (st.mem c.addr = none ∧ st' = { st with
      ledger := entriesDealloc c.addr cfg.batchSize ++
        (entriesAlloc c.addr cfg.batchSize ++ st.ledger) }))) ∨
    (found = some (.ptr c.addr) ∧ st'.mem c.addr = some (newBatch cfg st s) ∧
      st'.batch = Function.update st.batch s (.ptr c.addr) ∧ st'.batchSlots = st.batchSlots) ∨
    (found = some (st.batch s) ∧ st' = st) := by
  unfold getOrInit at ran
  split at ran
  · split at ran
    · cases ran
    · rename_i unused
      have free : st.mem c.addr = none := by simpa using unused
      split at ran
      · cases ran
        exact .inl ⟨rfl, .inl rfl⟩
      · split at ran
        · cases ran
          exact .inl ⟨rfl, .inr ⟨free, rfl⟩⟩
        · cases ran
          exact .inr (.inl ⟨rfl, Function.update_self .., rfl, rfl⟩)
  · cases ran
    exact .inr (.inr ⟨rfl, rfl⟩)

/-- A new batch has room, so only its allocation can fail. -/
theorem prepare_failed (sized : 0 < cfg.batchSize) (absent : Absent st)
    (ran : prepare cfg st s c = .ok (st', .failed)) : Spared cfg s st st' := by
  have loaded : Spared cfg s st (loadBatch st s) := .load absent
  have sameMem : (loadBatch st s).mem = st.mem := by rw [loaded.same]
  have sameLedger : (loadBatch st s).ledger = st.ledger := by
    unfold loadBatch
    split <;> rfl
  unfold prepare at ran
  split at ran
  · cases ran
    exact ⟨rfl, .inl rfl, .inl rfl⟩
  · split at ran
    · cases ran
    · rename_i st₂ initialized
      cases ran
      rcases getOrInit_cases initialized with ⟨_, rfl | ⟨free, rfl⟩⟩ | ⟨found, _⟩ | ⟨found, _⟩
      · exact loaded
      · -- The entries vector was there, and its box was not.
        refine ⟨?_, loaded.slots, .inr ⟨c.addr, sameMem ▸ free, ?_⟩⟩
        · conv_lhs => rw [loaded.same]
        · simp only [entriesDealloc, entriesAlloc, if_neg (Nat.ne_of_gt sized), sameLedger]
          rfl
      · cases found
      · cases found
    · cases ran
    · cases ran
    · rename_i st₂ b initialized
      split at ran
      · cases ran
      · rename_i batch stored
        split at ran
        · rename_i full
          cases ran
          rcases getOrInit_cases initialized with ⟨found, _⟩ | ⟨found, new, _⟩ | ⟨_, rfl⟩
          · cases found
          · -- A new batch is not full.
            cases found
            cases stored.symm.trans new
            have room : (newBatch cfg (loadBatch st s) s).entries.length <
                (newBatch cfg (loadBatch st s) s).cap := sized
            simp [tryReserve, room] at full
          · exact loaded
        · cases ran

/-- A slot that a batch is loaded for is present. -/
theorem loadBatch_present : s ∈ (loadBatch st s).batchSlots := by
  unfold loadBatch
  split
  · assumption
  · exact List.mem_cons_self

/-- Absent slots stay null when a batch is initialized. -/
theorem Absent.getOrInit {found : Option LocalBatch} (absent : Absent st)
    (present : s ∈ st.batchSlots) (ran : Raw.getOrInit cfg st s c = .ok (st', found)) :
    Absent st' := by
  intro v missing
  rcases getOrInit_cases ran with ⟨_, rfl | ⟨_, rfl⟩⟩ | ⟨_, _, batches, slots⟩ | ⟨_, rfl⟩
  · exact absent v missing
  · exact absent v missing
  · rw [slots] at missing
    have different : v ≠ s := by
      rintro rfl
      exact missing present
    rw [batches, Function.update_of_ne different]
    exact absent v missing
  · exact absent v missing

/-- Absent slots stay null when a slot is loaded. -/
theorem Absent.load (absent : Absent st) : Absent (loadBatch st s) := by
  unfold loadBatch
  split
  · exact absent
  · intro v missing
    exact absent v (fun present => missing (List.mem_cons_of_mem _ present))

/-- Absent slots stay null in the part that `add` and `reserve` share. -/
theorem Absent.prepare {result : Prepared} (absent : Absent st)
    (ran : Raw.prepare cfg st s c = .ok (st', result)) : Absent st' := by
  unfold Raw.prepare at ran
  split at ran
  · cases ran
    exact absent
  · split at ran
    · cases ran
    · rename_i initialized
      cases ran
      exact absent.load.getOrInit loadBatch_present initialized
    · cases ran
    · rename_i initialized
      cases ran
      exact absent.load.getOrInit loadBatch_present initialized
    · rename_i initialized
      have after := absent.load.getOrInit loadBatch_present initialized
      split at ran
      · cases ran
      · split at ran
        · cases ran
          exact after
        · cases ran
          exact after

/-- A change of a slot that is present, or its reset. -/
theorem Absent.update {local_ : LocalBatch} (absent : Absent st)
    (slots : st'.batchSlots = st.batchSlots)
    (batches : st'.batch = Function.update st.batch s local_)
    (fits : s ∈ st.batchSlots ∨ local_ = .null) : Absent st' := by
  intro v missing
  rw [slots] at missing
  rw [batches]
  by_cases here : v = s
  · subst here
    rw [Function.update_self]
    exact fits.resolve_left missing
  · rw [Function.update_of_ne here]
    exact absent v missing

/-- A retirement is made by user code, and counted as a step. -/
theorem step_add {p : Ptr} {f : Reclaim} (ran : step cfg st (t, .add s p f c) = .ok st') :
    userLevel (st.stack t) = true ∧ ∃ st₁, add cfg st t s p f c = .ok st₁ ∧ st' = tick st₁ := by
  obtain ⟨st₁, acted, rfl⟩ := step_acts ran
  cases user : userLevel (st.stack t) with
  | false => simp [act, user] at acted
  | true =>
    simp only [act, user, Bool.true_eq_false, if_false] at acted
    exact ⟨rfl, st₁, acted, rfl⟩

/-- A reservation is made by user code, and counted as a step. -/
theorem step_reserve (ran : step cfg st (t, .reserve s c) = .ok st') :
    userLevel (st.stack t) = true ∧ ∃ st₁ result, prepare cfg st s c = .ok (st₁, result) ∧
      st' = tick st₁ := by
  obtain ⟨after, acted, rfl⟩ := step_acts ran
  cases user : userLevel (st.stack t) with
  | false => simp [act, user] at acted
  | true =>
    simp only [act, user, Bool.true_eq_false, if_false, reserve] at acted
    cases prepared : prepare cfg st s c with
    | error stop => simp [prepared] at acted
    | ok pair =>
      obtain ⟨st₁, result⟩ := pair
      simp only [prepared, Except.ok.injEq] at acted
      exact ⟨rfl, st₁, result, rfl, congrArg tick acted.symm⟩

/-- The outcomes of a retirement, with the common part it began with. -/
theorem add_cases {p : Ptr} {f : Reclaim} (ran : add cfg st t s p f c = .ok st') :
    ∃ st₁ result, prepare cfg { st with nextRid := st.nextRid + 1 } s c = .ok (st₁, result) ∧
      st'.batch = st₁.batch ∧ st'.batchSlots = st₁.batchSlots ∧
        (result = .failed → st' = st₁.record (.refused st.nextRid)) := by
  unfold add at ran
  dsimp only at ran
  split at ran
  · cases ran
  · rename_i st₁ prepared
    cases ran
    exact ⟨st₁, _, prepared, rfl, rfl, fun _ => rfl⟩
  · rename_i st₁ prepared
    cases ran
    exact ⟨st₁, _, prepared, rfl, rfl, by simp⟩
  · rename_i st₁ b prepared
    refine ⟨st₁, _, prepared, ?_⟩
    split at ran
    · cases ran
    · split at ran
      · -- Starting to retire only adds a call.
        unfold tryRetire at ran
        split at ran
        · cases ran
          exact ⟨rfl, rfl, by simp⟩
        · cases ran
          exact ⟨rfl, rfl, by simp⟩
        · split at ran
          · cases ran
          · cases ran
            exact ⟨rfl, rfl, by simp⟩
      · cases ran
        exact ⟨rfl, rfl, by simp⟩

/-- The step lemma: absent slots are null after any step. -/
theorem Absent.step {move : Tid × Action} (absent : Absent st)
    (ran : step cfg st move = .ok st') : Absent st' := by
  -- Local batches are written in slots that are present only.
  obtain ⟨t, action⟩ := move
  cases action with
  | add s p f c =>
    obtain ⟨_, st₁, called, rfl⟩ := step_add ran
    obtain ⟨st₂, result, prepared, batches, slots, _⟩ := add_cases called
    have before : Absent { st with nextRid := st.nextRid + 1 } := absent
    have after := before.prepare prepared
    intro v missing
    have missing : v ∉ st₂.batchSlots := slots ▸ missing
    have null : st₁.batch v = .null := by
      rw [batches]
      exact after v missing
    exact null
  | reserve s c =>
    obtain ⟨_, st₁, result, prepared, rfl⟩ := step_reserve ran
    have after : Absent st₁ := absent.prepare prepared
    exact after
  | advance spurious =>
    obtain ⟨st₁, moved, rfl⟩ := step_move ran
    cases moved with
    | commit => exact absent.update rfl rfl (.inr rfl)
    | take _ _ present => exact absent.update rfl rfl (.inl present)
    | takeWrong _ _ present => exact absent.update rfl rfl (.inl present)
    | reset => exact absent.update rfl rfl (.inr rfl)
    | _ => exact absent
  | create | enter | leave | refresh | flush | reclaimAll | ret | panic | access | skip =>
    obtain ⟨st₁, moved, rfl⟩ := step_move ran
    cases moved <;> exact absent

/-- Two states that `add` and `reserve` cannot tell apart, except for the slots that are present. -/
structure Alike (st₁ st₂ : State) : Prop where
  head : st₂.head = st₁.head
  list : st₂.pushed = st₁.pushed
  batch : st₂.batch = st₁.batch
  mem : st₂.mem = st₁.mem
  stack : st₂.stack = st₁.stack
  nextUid : st₂.nextUid = st₁.nextUid

/-- A slot is loaded alike. -/
theorem Alike.load (alike : Alike st₁ st₂) : Alike (loadBatch st₁ s) (loadBatch st₂ s) := by
  obtain ⟨head, list, batch, mem, stack, nextUid⟩ := alike
  unfold loadBatch
  split <;> split <;> exact ⟨head, list, batch, mem, stack, nextUid⟩

/-- A batch is initialized alike. -/
theorem Alike.getOrInit {found : Option LocalBatch} (alike : Alike st₁ st₂)
    (ran : Raw.getOrInit cfg st₁ s c = .ok (st', found)) :
    ∃ after, Raw.getOrInit cfg st₂ s c = .ok (after, found) ∧ Alike st' after := by
  -- Both runs ask for the same, and the answers are the same.
  have sameBatch := alike.batch
  have sameMem := alike.mem
  unfold Raw.getOrInit at ran ⊢
  rw [alike.batch, alike.mem]
  split at ran
  · split at ran
    · cases ran
    · rename_i unused
      rw [if_neg unused]
      split at ran
      · rename_i refused
        cases ran
        rw [if_pos refused]
        exact ⟨st₂, rfl, alike⟩
      · rename_i granted
        rw [if_neg granted]
        split at ran
        · rename_i refused
          cases ran
          rw [if_pos refused]
          exact ⟨_, rfl, alike.head, alike.list, rfl, rfl, alike.stack, alike.nextUid⟩
        · rename_i boxed
          cases ran
          rw [if_neg boxed]
          have same : newBatch cfg st₂ s = newBatch cfg st₁ s := by
            rw [newBatch, newBatch, alike.nextUid]
          refine ⟨_, rfl, alike.head, alike.list, rfl, ?_, alike.stack, ?_⟩
          · simp only [State.setBatch, same, sameMem]
          · simp only [alike.nextUid]
  · cases ran
    exact ⟨st₂, rfl, alike⟩

/-- The common part of `add` and `reserve` runs alike, when the allocator has a bucket to give. -/
theorem Alike.prepare {result : Prepared} (alike : Alike st₁ st₂) (bucket : c.slot = true)
    (ran : Raw.prepare cfg st₁ s c = .ok (st', result)) :
    ∃ after, Raw.prepare cfg st₂ s c = .ok (after, result) ∧ Alike st' after := by
  -- The bucket of the slot is not refused, so both runs reach the batch.
  have allowed : ∀ st : State, ¬ (s ∉ st.batchSlots ∧ c.slot = false) := by
    intro st refused
    rw [bucket] at refused
    cases refused.2
  unfold Raw.prepare at ran ⊢
  rw [if_neg (allowed st₁)] at ran
  rw [if_neg (allowed st₂)]
  split at ran
  · cases ran
  · rename_i initialized
    obtain ⟨after, again, same⟩ := alike.load.getOrInit initialized
    cases ran
    exact ⟨after, by rw [again], same⟩
  · cases ran
  · rename_i initialized
    obtain ⟨after, again, same⟩ := alike.load.getOrInit initialized
    cases ran
    exact ⟨after, by rw [again], same⟩
  · rename_i initialized
    obtain ⟨after, again, same⟩ := alike.load.getOrInit initialized
    rw [again]
    simp only [same.mem]
    split at ran
    · cases ran
    · split at ran
      · cases ran
        exact ⟨after, rfl, same⟩
      · cases ran
        refine ⟨_, rfl, same.head, same.list, same.batch, ?_, same.stack, same.nextUid⟩
        simp only [State.setBatch, same.mem]

/-- States that are alike have the same abstract state. -/
theorem Alike.abstract (alike : Alike st₁ st₂) : st₂.abstract = st₁.abstract := by
  have waiting : st₂.retirements = st₁.retirements := by
    funext v
    simp only [State.retirements, alike.batch, alike.mem]
  simp only [State.abstract, waiting, alike.head, alike.list, alike.batch, alike.mem, alike.stack]

/-- The abstract state after a push does not depend on the number of the retirement. -/
theorem Alike.pushed {b : Addr} {batch : Batch} {p : Ptr} {f : Reclaim} {rid₁ rid₂ : Nat}
    (alike : Alike st₁ st₂) :
    (pushEntry st₂ b batch p f rid₂).abstract = (pushEntry st₁ b batch p f rid₁).abstract := by
  -- The entry is pushed on the same batch in both.
  have counts : ∀ a, ((pushEntry st₂ b batch p f rid₂).mem a).map (·.active) =
      ((pushEntry st₁ b batch p f rid₁).mem a).map (·.active) := by
    intro a
    by_cases here : a = b
    · subst here
      simp [pushEntry, State.setBatch, State.record]
    · simp [pushEntry, State.setBatch, State.record, here, alike.mem]
  have waiting : ∀ v, (pushEntry st₂ b batch p f rid₂).retirements v =
      (pushEntry st₁ b batch p f rid₁).retirements v := by
    intro v
    simp only [State.retirements, pushEntry, State.setBatch, State.record, alike.batch]
    split
    · rename_i a _
      by_cases here : a = b
      · subst here
        simp [newEntry]
      · simp [here, alike.mem]
    · rfl
  simp only [State.abstract, Abstract.mk.injEq]
  exact ⟨alike.head, alike.list, alike.batch, funext waiting, funext counts,
    by simp [pushEntry, State.setBatch, State.record, alike.stack]⟩

/-- The abstract state after a call into a frame. -/
theorem abstract_call {f₁ f₂ : Frame} (same : st₂.abstract = st₁.abstract)
    (plain : f₂.plain = f₁.plain) : (st₂.call t f₂).abstract = (st₁.call t f₁).abstract := by
  simp only [State.abstract, Abstract.mk.injEq] at same ⊢
  obtain ⟨head, list, batch, pending, counts, calls⟩ := same
  refine ⟨head, list, batch, ?_, counts, ?_⟩
  · exact pending
  · funext t'
    have before : ∀ t', (st₂.stack t').map Frame.plain = (st₁.stack t').map Frame.plain :=
      fun t' => congrFun calls t'
    by_cases here : t' = t
    · subst here
      simp [State.call, State.setStack, plain, before]
    · simp [State.call, State.setStack, here, before]

/-- A retirement has the same effect in states that are alike. -/
theorem Alike.add {p : Ptr} {f : Reclaim} (alike : Alike st₁ st₂) (bucket : c.slot = true)
    (ran : Raw.add cfg st₁ t s p f c = .ok st') :
    ∃ after, Raw.add cfg st₂ t s p f c = .ok after ∧ after.abstract = st'.abstract := by
  have alike' : Alike { st₁ with nextRid := st₁.nextRid + 1 } { st₂ with nextRid := st₂.nextRid + 1 } :=
    ⟨alike.head, alike.list, alike.batch, alike.mem, alike.stack, alike.nextUid⟩
  unfold Raw.add at ran ⊢
  dsimp only at ran ⊢
  split at ran
  · cases ran
  · rename_i prepared
    obtain ⟨after, again, same⟩ := alike'.prepare bucket prepared
    cases ran
    rw [again]
    exact ⟨_, rfl, same.abstract⟩
  · rename_i prepared
    obtain ⟨after, again, same⟩ := alike'.prepare bucket prepared
    cases ran
    rw [again]
    exact ⟨_, rfl, abstract_call same.abstract rfl⟩
  · rename_i prepared
    obtain ⟨after, again, same⟩ := alike'.prepare bucket prepared
    obtain ⟨_, held, batch, stored, _⟩ := prepare_prep prepared
    rw [again]
    simp only [same.mem, stored, List.length_append, List.length_singleton] at ran ⊢
    split at ran
    · rename_i large
      rw [if_pos large]
      -- Both slots hold the batch that was just pushed to.
      have first := ran.symm.trans (tryRetire_ptr held (Function.update_self ..))
      cases first
      refine ⟨_, tryRetire_ptr (same.batch ▸ held) (Function.update_self ..), ?_⟩
      exact abstract_call same.pushed rfl
    · rename_i small
      cases ran
      rw [if_neg small]
      exact ⟨_, rfl, same.pushed⟩

/-- The allocator has memory for every request a call can make. -/
structure Grants (c : Alloc) (st : State) : Prop where
  slot : c.slot = true
  entries : c.entries = true
  box : c.box = true
  grow : c.grow = true
  free : st.mem c.addr = none

/-- A slot holds no dangling batch. -/
def Valid (st : State) (s : SlotId) : Prop := ∀ b, st.batch s = .ptr b → ∃ batch, st.mem b = some batch

/-- A call that got past the slot has seen that its batch is allocated. -/
theorem prepare_valid {result : Prepared} (absent : Absent st)
    (ran : prepare cfg st s c = .ok (st', result)) : Valid st s := by
  intro b held
  have present : s ∈ st.batchSlots := by
    by_contra missing
    rw [absent s missing] at held
    cases held
  have loaded : loadBatch st s = st := if_pos present
  have allowed : ¬ (s ∉ st.batchSlots ∧ c.slot = false) := fun refused => refused.1 present
  cases stored : st.mem b with
  | some batch => exact ⟨batch, rfl⟩
  | none => simp [prepare, if_neg allowed, loaded, getOrInit, held, stored] at ran

/-- With memory available the common part of `add` and `reserve` does not fail. -/
theorem prepare_granted (grants : Grants c st) (valid : Valid st s) :
    ∃ after result, prepare cfg st s c = .ok (after, result) ∧ result ≠ .failed := by
  have allowed : ¬ (s ∉ st.batchSlots ∧ c.slot = false) := by
    rw [grants.slot]
    simp
  have batches : (loadBatch st s).batch s = st.batch s := by
    unfold loadBatch
    split <;> rfl
  have mems : (loadBatch st s).mem = st.mem := by
    unfold loadBatch
    split <;> rfl
  unfold prepare
  rw [if_neg allowed]
  cases held : st.batch s with
  | null =>
    -- The new batch may have to grow at once.
    have room : ∃ grown, tryReserve (newBatch cfg (loadBatch st s) s) c = some grown := by
      unfold tryReserve
      split
      · exact ⟨_, rfl⟩
      · exact ⟨_, if_pos grants.grow⟩
    obtain ⟨grown, room⟩ := room
    have initialized : ∃ fresh, getOrInit cfg (loadBatch st s) s c = .ok (fresh, some (.ptr c.addr)) ∧
        fresh.mem c.addr = some (newBatch cfg (loadBatch st s) s) := by
      simp only [getOrInit, batches, held, mems, grants.free, grants.entries, grants.box,
        Option.isSome_none, Bool.false_eq_true, if_false, Bool.true_eq_false, and_false]
      exact ⟨_, rfl, Function.update_self ..⟩
    obtain ⟨fresh, initialized, stored⟩ := initialized
    simp only [initialized, stored, room]
    exact ⟨_, .ready c.addr, rfl, by simp⟩
  | drop =>
    simp only [getOrInit, batches, held]
    exact ⟨_, .immediate, rfl, by simp⟩
  | ptr b =>
    obtain ⟨batch, stored⟩ := valid b held
    have room : ∃ grown, tryReserve batch c = some grown := by
      unfold tryReserve
      split
      · exact ⟨_, rfl⟩
      · exact ⟨_, if_pos grants.grow⟩
    obtain ⟨grown, room⟩ := room
    simp only [getOrInit, batches, held, mems, stored, room]
    exact ⟨_, .ready b, rfl, by simp⟩

/-- With memory available a retirement is accepted. -/
theorem add_granted (p : Ptr) (f : Reclaim) (grants : Grants c st) (valid : Valid st s) :
    ∃ after newer, add cfg st t s p f c = .ok after ∧
      after.log = newer ++ .retired st.nextRid p f :: st.log := by
  have grants' : Grants c { st with nextRid := st.nextRid + 1 } :=
    ⟨grants.slot, grants.entries, grants.box, grants.grow, grants.free⟩
  obtain ⟨mid, result, ran, ok⟩ : ∃ mid result,
      prepare cfg { st with nextRid := st.nextRid + 1 } s c = .ok (mid, result) ∧ result ≠ .failed :=
    prepare_granted grants' valid
  obtain ⟨prep, promise⟩ := prepare_prep ran
  have log : mid.log = st.log := prep.same.2.2.2.2.2.2.2.1
  -- The preparation succeeds, since everything it may ask for is granted.
  cases result with
  | failed => exact absurd rfl ok
  | immediate =>
    simp only [add, ran]
    refine ⟨_, [.reclaimed st.nextRid p f none], rfl, ?_⟩
    simp [State.call, State.setStack, State.record, log]
  | ready b =>
    obtain ⟨held, batch, stored, _⟩ := promise
    by_cases large : batch.entries.length + 1 ≥ cfg.batchSize
    · refine ⟨(pushEntry mid b batch p f st.nextRid).call t (.scan s b mid.clock 0 0), [], ?_, ?_⟩
      · simp only [add, ran, stored, List.length_append, List.length_singleton, if_pos large]
        exact tryRetire_ptr held (Function.update_self ..)
      · simp [State.call, State.setStack, pushEntry, State.setBatch, State.record, log]
    · refine ⟨pushEntry mid b batch p f st.nextRid, [], ?_, ?_⟩
      · simp only [add, ran, stored, List.length_append, List.length_singleton, if_neg large]
        rfl
      · simp [pushEntry, State.setBatch, State.record, log]

end Seize.Raw
