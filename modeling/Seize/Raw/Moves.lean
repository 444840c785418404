import Seize.Raw.Step

/-!
What a step can do, said once.

Every step of the collector is one of the moves below, and the invariants are proved by cases on
them rather than on the code.
-/

namespace Seize.Raw

/--
The moves that `add` and `reserve` make before they look at the entries.

They load a slot, allocate, give a slot its first batch, and grow its vector.
-/
inductive Prep (cfg : Config) (s : SlotId) (st : State) : State → Prop where
  /-- Nothing was done. -/
  | refl : Prep cfg s st st
  /-- The slot was made present in the table of batches. -/
  | load {st' : State} (before : Prep cfg s st st') (absent : s ∉ st'.batchSlots) :
      Prep cfg s st { st' with batchSlots := s :: st'.batchSlots }
  /-- A batch was given up because its box could not be allocated. -/
  | unboxed {st' : State} {b : Addr} (before : Prep cfg s st st') (null : st'.batch s = .null)
      (free : st'.mem b = none) :
      Prep cfg s st { st' with ledger := entriesDealloc b cfg.batchSize ++
        (entriesAlloc b cfg.batchSize ++ st'.ledger) }
  /-- The slot got its first batch. -/
  | fresh {st' : State} {b : Addr} (before : Prep cfg s st st') (null : st'.batch s = .null)
      (free : st'.mem b = none) :
      Prep cfg s st { st'.setBatch b (newBatch cfg st' s) with
        batch := Function.update st'.batch s (.ptr b)
        nextUid := st'.nextUid + 1
        ledger := .alloc (.box b) .batch :: (entriesAlloc b cfg.batchSize ++ st'.ledger) }
  /-- The vector of the slot's batch was given room. -/
  | grow {st' : State} {b : Addr} {batch : Batch} {cap : Nat} (before : Prep cfg s st st')
      (held : st'.batch s = .ptr b) (stored : st'.mem b = some batch)
      (room : batch.entries.length < cap) :
      Prep cfg s st { st'.setBatch b { batch with cap := cap } with
        ledger := reserveCalls b batch.cap cap ++ st'.ledger }

section Preparation

variable {cfg : Config} {st : State} {s : SlotId} {batch : Batch}

/-- What the common part of `add` and `reserve` promises with its result. -/
def Prepared.Ok (st : State) (s : SlotId) : Prepared → Prop
  | .failed => True
  | .immediate => st.batch s = .drop
  | .ready b => st.batch s = .ptr b ∧ ∃ batch, st.mem b = some batch ∧
    batch.entries.length < batch.cap

/-- Initializing a local batch is a sequence of those moves. -/
theorem getOrInit_prep {c : Alloc} {st' : State} {found : Option LocalBatch}
    (ran : getOrInit cfg st s c = .ok (st', found)) :
    Prep cfg s st st' ∧ ∀ held, found = some held → st'.batch s = held := by
  unfold getOrInit at ran
  split at ran
  · rename_i null
    split at ran
    · cases ran
    · rename_i unused
      have free : st.mem c.addr = none := by simpa using unused
      split at ran
      · cases ran
        exact ⟨.refl, by simp⟩
      · split at ran
        · cases ran
          exact ⟨.unboxed .refl null free, by simp⟩
        · cases ran
          exact ⟨.fresh .refl null free, by simp⟩
  · cases ran
    exact ⟨.refl, by rintro held ⟨⟩; rfl⟩

/-- Making room keeps the entries and leaves at least one place. -/
theorem tryReserve_spec {c : Alloc} {grown : Batch} (room : tryReserve batch c = some grown) :
    grown = { batch with cap := grown.cap } ∧ grown.entries.length < grown.cap := by
  unfold tryReserve at room
  split at room
  · rename_i enough
    cases room
    exact ⟨rfl, enough⟩
  · split at room
    · cases room
      exact ⟨rfl, Nat.lt_of_lt_of_le (Nat.lt_succ_self _) (Nat.le_max_right _ _)⟩
    · cases room

/-- The common part of `add` and `reserve` is a sequence of those moves. -/
theorem prepare_prep {c : Alloc} {st' : State} {result : Prepared}
    (ran : prepare cfg st s c = .ok (st', result)) : Prep cfg s st st' ∧ result.Ok st' s := by
  unfold prepare at ran
  split at ran
  · cases ran
    exact ⟨.refl, trivial⟩
  · have loaded : Prep cfg s st (loadBatch st s) := by
      unfold loadBatch
      split
      · exact .refl
      · rename_i absent
        exact .load .refl absent
    -- Moves after the load are moves of the whole part.
    have compose : ∀ st₂, Prep cfg s (loadBatch st s) st₂ → Prep cfg s st st₂ := by
      intro st₂ after
      induction after with
      | refl => exact loaded
      | load _ absent ih => exact .load ih absent
      | unboxed _ null free ih => exact .unboxed ih null free
      | fresh _ null free ih => exact .fresh ih null free
      | grow _ held stored room ih => exact .grow ih held stored room
    split at ran
    · cases ran
    · rename_i initialized
      cases ran
      exact ⟨compose _ (getOrInit_prep initialized).1, trivial⟩
    · cases ran
    · rename_i initialized
      cases ran
      obtain ⟨prep, held⟩ := getOrInit_prep initialized
      exact ⟨compose _ prep, held _ rfl⟩
    · rename_i st₂ b initialized
      obtain ⟨prep, held⟩ := getOrInit_prep initialized
      have held := held _ rfl
      split at ran
      · cases ran
      · rename_i batch stored
        split at ran
        · cases ran
          exact ⟨compose _ prep, trivial⟩
        · rename_i grown room
          cases ran
          obtain ⟨eq, space⟩ := tryReserve_spec room
          rw [eq] at space ⊢
          exact ⟨.grow (compose _ prep) held stored space, held, { batch with cap := grown.cap },
            by simp [State.setBatch], space⟩

/-- Preparing a slot concerns its batch only. -/
theorem Prep.same {st' : State} (prep : Prep cfg s st st') :
    st'.stack = st.stack ∧ st'.head = st.head ∧ st'.pushed = st.pushed ∧ st'.created = st.created ∧
      st'.since = st.since ∧ st'.protect = st.protect ∧ st'.clock = st.clock ∧ st'.log = st.log ∧
      st'.nextRid = st.nextRid ∧ st'.cells = st.cells := by
  induction prep with
  | refl => simp
  | load _ _ ih => exact ih
  | unboxed _ _ _ ih => exact ih
  | fresh _ _ _ ih => exact ih
  | grow _ _ _ _ ih => exact ih

/-- What preparing a slot does to a batch: at most its capacity changes. -/
structure SameBatch (batch batch' : Batch) : Prop where
  entries : batch'.entries = batch.entries
  active : batch'.active = batch.active
  phase : batch'.phase = batch.phase
  scanned : batch'.scanned = batch.scanned
  uid : batch'.uid = batch.uid

/-- Memory grows: batches stay what they are, and new ones are empty and belong to a slot. -/
structure Grows (s : SlotId) (mem mem' : Addr → Option Batch) : Prop where
  kept : ∀ b batch, mem b = some batch → ∃ batch', mem' b = some batch' ∧ SameBatch batch batch'
  new : ∀ b batch', mem' b = some batch' →
    (∃ batch, mem b = some batch ∧ SameBatch batch batch') ∨
      (mem b = none ∧ batch'.entries = [] ∧ batch'.scanned = none ∧ batch'.phase = .pending s)

/-- Preparing a slot makes memory grow. -/
theorem Prep.grows {st' : State} (prep : Prep cfg s st st') : Grows s st.mem st'.mem := by
  induction prep with
  | refl =>
    exact ⟨fun _ batch stored => ⟨batch, stored, rfl, rfl, rfl, rfl, rfl⟩,
      fun _ batch stored => .inl ⟨batch, stored, rfl, rfl, rfl, rfl, rfl⟩⟩
  | load _ _ ih => exact ih
  | unboxed _ _ _ ih => exact ih
  | @fresh st₁ b₀ _ _ free ih =>
    refine ⟨fun b batch stored => ?_, fun b batch' stored' => ?_⟩
    · obtain ⟨batch', stored', same⟩ := ih.kept b batch stored
      have other : b ≠ b₀ := by
        rintro rfl
        rw [free] at stored'
        cases stored'
      exact ⟨batch', by simp [State.setBatch, Function.update_of_ne other, stored'], same⟩
    · by_cases here : b = b₀
      · subst here
        simp only [State.setBatch, Function.update_self, Option.some.injEq] at stored'
        subst stored'
        -- The address was free before, so it was free at the start.
        have unused : st.mem b = none := by
          cases before : st.mem b with
          | none => rfl
          | some batch =>
            obtain ⟨batch', stored', _⟩ := ih.kept b batch before
            rw [free] at stored'
            cases stored'
        exact .inr ⟨unused, rfl, rfl, rfl⟩
      · simp only [State.setBatch, Function.update_of_ne here] at stored'
        exact ih.new b batch' stored'
  | @grow st₁ b₀ batch₀ cap _ _ stored₀ _ ih =>
    refine ⟨fun b batch stored => ?_, fun b batch' stored' => ?_⟩
    · obtain ⟨batch', stored', same⟩ := ih.kept b batch stored
      by_cases here : b = b₀
      · subst here
        obtain rfl : batch₀ = batch' := Option.some.inj (stored₀.symm.trans stored')
        exact ⟨{ batch₀ with cap := cap }, by simp [State.setBatch], same.entries, same.active,
          same.phase, same.scanned, same.uid⟩
      · exact ⟨batch', by simp [State.setBatch, Function.update_of_ne here, stored'], same⟩
    · by_cases here : b = b₀
      · subst here
        simp only [State.setBatch, Function.update_self, Option.some.injEq] at stored'
        subst stored'
        rcases ih.new b batch₀ stored₀ with ⟨batch, stored, same⟩ | ⟨unused, empty, none_, phase⟩
        · exact .inl ⟨batch, stored, same.entries, same.active, same.phase, same.scanned, same.uid⟩
        · exact .inr ⟨unused, empty, none_, phase⟩
      · simp only [State.setBatch, Function.update_of_ne here] at stored'
        exact ih.new b batch' stored'

end Preparation

/-- The state after `add` has pushed its entry to a batch that has room. -/
def pushEntry (st : State) (b : Addr) (batch : Batch) (p : Ptr) (f : Reclaim) (rid : Nat) : State :=
  (st.setBatch b { batch with entries := batch.entries ++ [newEntry b p f rid] }).record
    (.retired rid p f)

/-- The moves of a thread, with the action each belongs to. -/
inductive Move (cfg : Config) (st : State) (t : Tid) : Action → State → Prop where
  | known {s} (user : userLevel (st.stack t)) (present : s ∈ st.created) : Move cfg st t (.create s) st
  | create {s} (user : userLevel (st.stack t)) (absent : s ∉ st.created) :
      Move cfg st t (.create s) { st with created := s :: st.created }
  | enter {s} (user : userLevel (st.stack t)) : Move cfg st t (.enter s) (Raw.enter st s)
  /-- A slot that is not active is left. -/
  | leaveIdle {s} (user : userLevel (st.stack t)) (inactive : st.head s = .inactive) :
      Move cfg st t (.leave s) (endPeriod st s)
  | leave {s first} (user : userLevel (st.stack t)) (active : st.head s = .list first) :
      Move cfg st t (.leave s) ((endPeriod st s).call t (.traverse first (st.pushed s)))
  /-- A slot that is not active is refreshed. -/
  | refreshIdle {s} (user : userLevel (st.stack t)) (inactive : st.head s = .inactive) :
      Move cfg st t (.refresh s) (beginPeriod st s)
  | refresh {s first} (user : userLevel (st.stack t)) (active : st.head s = .list first) :
      Move cfg st t (.refresh s) ((beginPeriod st s).call t (.traverse first (st.pushed s)))
  /-- `add` returns `Err`. -/
  | refused {s p f c st₁} (user : userLevel (st.stack t))
      (prep : Prep cfg s { st with nextRid := st.nextRid + 1 } st₁) :
      Move cfg st t (.add s p f c) (st₁.record (.refused st.nextRid))
  /-- `add` reclaims at once. -/
  | immediate {s p f c st₁} (user : userLevel (st.stack t))
      (prep : Prep cfg s { st with nextRid := st.nextRid + 1 } st₁) (held : st₁.batch s = .drop) :
      Move cfg st t (.add s p f c) (((st₁.record (.retired st.nextRid p f)).record
        (.reclaimed st.nextRid p f none)).call t (.reclaimer st.nextRid p f))
  /-- `add` pushes an entry to a batch that stays below the batch size. -/
  | pushed {s p f c st₁ b batch} (user : userLevel (st.stack t))
      (prep : Prep cfg s { st with nextRid := st.nextRid + 1 } st₁) (held : st₁.batch s = .ptr b)
      (stored : st₁.mem b = some batch) (small : batch.entries.length + 1 < cfg.batchSize) :
      Move cfg st t (.add s p f c) (pushEntry st₁ b batch p f st.nextRid)
  /-- `add` pushes an entry and starts to retire the batch. -/
  | filled {s p f c st₁ b batch} (user : userLevel (st.stack t))
      (prep : Prep cfg s { st with nextRid := st.nextRid + 1 } st₁) (held : st₁.batch s = .ptr b)
      (stored : st₁.mem b = some batch) (large : cfg.batchSize ≤ batch.entries.length + 1) :
      Move cfg st t (.add s p f c)
        ((pushEntry st₁ b batch p f st.nextRid).call t (.scan s b st.clock 0 0))
  | reserve {s c st₁} (user : userLevel (st.stack t)) (prep : Prep cfg s st st₁) :
      Move cfg st t (.reserve s c) st₁
  /-- A flush finds nothing to retire. -/
  | flushNone {s} (user : userLevel (st.stack t)) : Move cfg st t (.flush s) st
  | flush {s b batch} (user : userLevel (st.stack t)) (held : st.batch s = .ptr b)
      (stored : st.mem b = some batch) :
      Move cfg st t (.flush s) (st.call t (.scan s b st.clock 0 0))
  | reclaimAll (user : userLevel (st.stack t)) : Move cfg st t .reclaimAll (st.call t (.reclaimAll 0))
  | access {s x op} (user : userLevel (st.stack t)) : Move cfg st t (.access s x op) (cellStep st s x op)
  | ret {rid p f below} (top : st.stack t = .reclaimer rid p f :: below) :
      Move cfg st t .ret (st.setStack t below)
  | panic {rid p f below} (top : st.stack t = .reclaimer rid p f :: below) :
      Move cfg st t .panic (st.setStack t (unwind below))
  /-- A scan passes a run of absent slots. -/
  | skipScan {s b start cursor marked below target} (top : st.stack t = .scan s b start cursor marked :: below)
      (bounded : target ≤ cfg.slots) (forward : cursor ≤ target)
      (absent : ∀ v ∈ st.created, v < cursor ∨ target ≤ v) :
      Move cfg st t (.skip target) (st.setStack t (.scan s b start target marked :: below))
  /-- `reclaim_all` passes a run of absent slots. -/
  | skipReclaim {cursor below target} (top : st.stack t = .reclaimAll cursor :: below)
      (bounded : target ≤ cfg.slots) (forward : cursor ≤ target)
      (absent : ∀ v ∈ st.batchSlots, v < cursor ∨ target ≤ v) :
      Move cfg st t (.skip target) (st.setStack t (.reclaimAll target :: below))
  /-- A scan is complete: the batch is committed. -/
  | commit {s b start cursor marked below batch spurious}
      (top : st.stack t = .scan s b start cursor marked :: below) (stored : st.mem b = some batch)
      (finished : cfg.slots ≤ cursor) :
      Move cfg st t (.advance spurious) ((({ st with
        batch := Function.update st.batch s .null }.setBatch b
          { batch with phase := .retiring t below.length, scanned := some start }).record
            (.committed batch.uid)).setStack t (.link b marked 0 0 none :: below))
  /-- A scan passes a slot that is absent or inactive. -/
  | pass {s b start cursor marked below batch spurious}
      (top : st.stack t = .scan s b start cursor marked :: below) (stored : st.mem b = some batch)
      (more : cursor < cfg.slots) (idle : cursor ∉ st.created ∨ st.head cursor = .inactive) :
      Move cfg st t (.advance spurious) (st.setStack t (.scan s b start (cursor + 1) marked :: below))
  /-- A scan marks an entry for an active slot. -/
  | mark {s b start cursor marked below batch spurious}
      (top : st.stack t = .scan s b start cursor marked :: below) (stored : st.mem b = some batch)
      (more : cursor < cfg.slots) (present : cursor ∈ st.created) (active : st.Active cursor)
      (room : marked < batch.entries.length) :
      Move cfg st t (.advance spurious)
        ((st.setBatch b (batch.setState marked (.head (some cursor)))).setStack t
          (.scan s b start (cursor + 1) (marked + 1) :: below))
  /-- A scan has too few entries and gives up. -/
  | abort {s b start cursor marked below batch spurious}
      (top : st.stack t = .scan s b start cursor marked :: below) (stored : st.mem b = some batch)
      (full : batch.entries.length ≤ marked) : Move cfg st t (.advance spurious) (st.setStack t below)
  /-- The retirer's addition reaches zero. -/
  | addFree {b marked i active seen below batch spurious}
      (top : st.stack t = .link b marked i active seen :: below) (stored : st.mem b = some batch)
      (finished : marked ≤ i) (zero : (batch.active + active) % cfg.modulus = 0) :
      Move cfg st t (.advance spurious) ((((st.setBatch b { batch with
        active := (batch.active + active) % cfg.modulus, phase := .freeing t below.length }).record
          (.counted batch.uid)).record (.freed batch.uid .fetchAdd)).setStack t
            (.freeBatch (.ptr b) 0 :: below))
  /-- The retirer's addition leaves the batch to the slots it is linked to. -/
  | addShare {b marked i active seen below batch spurious}
      (top : st.stack t = .link b marked i active seen :: below) (stored : st.mem b = some batch)
      (finished : marked ≤ i) (positive : (batch.active + active) % cfg.modulus ≠ 0) :
      Move cfg st t (.advance spurious) (((st.setBatch b
        { batch with active := (batch.active + active) % cfg.modulus, phase := .shared }).record
          (.counted batch.uid)).setStack t below)
  /-- The linking loop loads the head of the next marked slot. -/
  | load {b marked i active below batch entry s spurious}
      (top : st.stack t = .link b marked i active none :: below) (stored : st.mem b = some batch)
      (more : i < marked) (found : batch.entries[i]? = some entry)
      (state : entry.state = .head (some s)) :
      Move cfg st t (.advance spurious)
        (st.setStack t (.link b marked i active (some (s, st.head s)) :: below))
  /-- The linking loop skips a slot that became inactive. -/
  | gone {b marked i active s below batch spurious}
      (top : st.stack t = .link b marked i active (some (s, .inactive)) :: below)
      (stored : st.mem b = some batch) (more : i < marked) :
      Move cfg st t (.advance spurious) (st.setStack t (.link b marked (i + 1) active none :: below))
  /-- The compare-exchange succeeds. -/
  | publish {b marked i active s prev below batch spurious}
      (top : st.stack t = .link b marked i active (some (s, .list prev)) :: below)
      (stored : st.mem b = some batch) (more : i < marked) (same : st.head s = .list prev) :
      Move cfg st t (.advance spurious) (({ st with
        head := Function.update st.head s (.list (some ⟨b, i⟩))
        pushed := Function.update st.pushed s (⟨b, i⟩ :: st.pushed s) }.setBatch b
          ((batch.setState i (.next prev)).setLink i .linked)).setStack t
            (.link b marked (i + 1) (active + 1) none :: below))
  /-- The compare-exchange fails, because the head changed or spuriously. -/
  | retry {b marked i active s prev below batch spurious}
      (top : st.stack t = .link b marked i active (some (s, .list prev)) :: below)
      (stored : st.mem b = some batch) (more : i < marked)
      (failed : st.head s ≠ .list prev ∨ spurious = true) :
      Move cfg st t (.advance spurious) ((st.setBatch b (batch.setState i (.next prev))).setStack t
        (.link b marked i active (some (s, st.head s)) :: below))
  /-- `traverse` reaches the end of its list. -/
  | done {rest below spurious} (top : st.stack t = .traverse none rest :: below) :
      Move cfg st t (.advance spurious) (st.setStack t below)
  /-- A decrement reads one. -/
  | releaseFree {curr rest below entry next batch spurious}
      (top : st.stack t = .traverse (some curr) rest :: below)
      (read : entryIn st.mem curr = some entry) (state : entry.state = .next next)
      (stored : st.mem entry.batch = some batch) (one : batch.active = 1) :
      Move cfg st t (.advance spurious) (((st.setBatch entry.batch
        { batch.setLink curr.index .released with
          active := (batch.active + (cfg.modulus - 1)) % cfg.modulus
          phase := .freeing t (below.length + 1) }).record (.freed batch.uid .fetchSub)).setStack t
            (.freeBatch (.ptr entry.batch) 0 :: .traverse next rest.tail :: below))
  /-- A decrement reads another value. -/
  | releaseCount {curr rest below entry next batch spurious}
      (top : st.stack t = .traverse (some curr) rest :: below)
      (read : entryIn st.mem curr = some entry) (state : entry.state = .next next)
      (stored : st.mem entry.batch = some batch) (more : batch.active ≠ 1) :
      Move cfg st t (.advance spurious) ((st.setBatch entry.batch
        { batch.setLink curr.index .released with
          active := (batch.active + (cfg.modulus - 1)) % cfg.modulus }).setStack t
            (.traverse next rest.tail :: below))
  /-- `free_batch` invokes the reclaimer of an entry. -/
  | invoke {b i below batch entry spurious} (top : st.stack t = .freeBatch (.ptr b) i :: below)
      (stored : st.mem b = some batch) (found : batch.entries[i]? = some entry) :
      Move cfg st t (.advance spurious)
        ((st.record (.reclaimed entry.rid entry.ptr entry.reclaim batch.scanned)).setStack t
          (.reclaimer entry.rid entry.ptr entry.reclaim :: .freeBatch (.ptr b) (i + 1) :: below))
  /-- `free_batch` hands the batch back. -/
  | dealloc {b i below batch spurious} (top : st.stack t = .freeBatch (.ptr b) i :: below)
      (stored : st.mem b = some batch) (finished : batch.entries[i]? = none) :
      Move cfg st t (.advance spurious) ({ st with
        mem := Function.update st.mem b none
        ledger := .dealloc (.box b) .batch ::
          (entriesDealloc b batch.cap ++ st.ledger) }.setStack t below)
  /-- `reclaim_all` has passed every slot. -/
  | finish {cursor below spurious} (top : st.stack t = .reclaimAll cursor :: below)
      (finished : cfg.slots ≤ cursor) : Move cfg st t (.advance spurious) (st.setStack t below)
  /-- `reclaim_all` passes a slot that is absent or holds no batch. -/
  | next {cursor below spurious} (top : st.stack t = .reclaimAll cursor :: below)
      (more : cursor < cfg.slots) (null : cursor ∉ st.batchSlots ∨ st.batch cursor = .null) :
      Move cfg st t (.advance spurious) (st.setStack t (.reclaimAll (cursor + 1) :: below))
  /-- `reclaim_all` takes the batch of a slot. -/
  | take {cursor below b batch spurious} (top : st.stack t = .reclaimAll cursor :: below)
      (more : cursor < cfg.slots) (present : cursor ∈ st.batchSlots)
      (held : st.batch cursor = .ptr b) (stored : st.mem b = some batch) :
      Move cfg st t (.advance spurious)
        ((({ st with batch := Function.update st.batch cursor .drop }.setBatch b
          { batch with phase := .freeing t (below.length + 1) }).record
            (.freed batch.uid .reclaimAll)).setStack t
              (.freeBatch (.ptr b) 0 :: .reclaimReset cursor :: below))
  /-- `reclaim_all` takes what is no batch. -/
  | takeWrong {cursor below spurious} (top : st.stack t = .reclaimAll cursor :: below)
      (more : cursor < cfg.slots) (present : cursor ∈ st.batchSlots)
      (held : st.batch cursor ≠ .null)
      (wrong : ∀ b batch, st.batch cursor = .ptr b → st.mem b ≠ some batch) :
      Move cfg st t (.advance spurious)
        ({ st with batch := Function.update st.batch cursor .drop }.setStack t
          (.freeBatch (st.batch cursor) 0 :: .reclaimReset cursor :: below))
  /-- `reclaim_all` resets a slot. -/
  | reset {cursor below spurious} (top : st.stack t = .reclaimReset cursor :: below) :
      Move cfg st t (.advance spurious)
        ({ st with batch := Function.update st.batch cursor .null }.setStack t
          (.reclaimAll (cursor + 1) :: below))

section Inversion

variable {cfg : Config} {st : State} {t : Tid} {s : SlotId}

/-- Retiring a slot that holds a batch starts a scan. -/
theorem tryRetire_ptr {b : Addr} {batch : Batch} (held : st.batch s = .ptr b)
    (stored : st.mem b = some batch) :
    tryRetire st t s = .ok (st.call t (.scan s b st.clock 0 0)) := by
  unfold tryRetire
  simp only [held, stored]

/-- A call of `add` is one of its four moves. -/
theorem add_move {p : Ptr} {f : Reclaim} {c : Alloc} {st' : State} (user : userLevel (st.stack t))
    (ran : add cfg st t s p f c = .ok st') : Move cfg st t (.add s p f c) st' := by
  unfold add at ran
  dsimp only at ran
  split at ran
  · cases ran
  · rename_i prepared
    cases ran
    exact .refused user (prepare_prep prepared).1
  · rename_i prepared
    cases ran
    obtain ⟨prep, held⟩ := prepare_prep prepared
    exact .immediate user prep held
  · rename_i st₁ b prepared
    obtain ⟨prep, held, batch, stored, _⟩ := prepare_prep prepared
    simp only [stored] at ran
    split at ran
    · rename_i large
      -- The slot still holds the batch that was just pushed to.
      have same : (pushEntry st₁ b batch p f st.nextRid).batch s = .ptr b := held
      have started := ran.symm.trans (tryRetire_ptr same (Function.update_self ..))
      cases started
      have clock : st₁.clock = st.clock := prep.same.2.2.2.2.2.2.1
      have moved : Move cfg st t (.add s p f c) ((pushEntry st₁ b batch p f st.nextRid).call t
          (.scan s b st.clock 0 0)) := .filled user prep held stored (by simpa using large)
      rw [← clock] at moved
      exact moved
    · rename_i small
      cases ran
      exact .pushed user prep held stored (by simpa using small)

/-- A step of a scan is one of its four moves. -/
theorem scanStep_move {below : List Frame} {b : Addr} {start cursor marked : Nat} {spurious : Bool}
    {st' : State} (top : st.stack t = .scan s b start cursor marked :: below)
    (ran : scanStep cfg st t below s b start cursor marked = .ok st') :
    Move cfg st t (.advance spurious) st' := by
  unfold scanStep at ran
  split at ran
  · cases ran
  · rename_i batch stored
    split at ran
    · rename_i finished
      cases ran
      exact .commit top stored finished
    · rename_i more
      split at ran
      · rename_i idle
        cases ran
        exact .pass top stored (by omega) idle
      · rename_i busy
        obtain ⟨present, active⟩ := not_or.mp busy
        split at ran
        · rename_i room
          cases ran
          exact .mark top stored (by omega) (not_not.mp present) active room
        · rename_i full
          cases ran
          exact .abort top stored (by omega)

/-- A step of a linking loop is one of its six moves. -/
theorem linkStep_move {below : List Frame} {b : Addr} {marked i active : Nat}
    {seen : Option (SlotId × Head)} {spurious : Bool} {st' : State}
    (top : st.stack t = .link b marked i active seen :: below)
    (ran : linkStep cfg st t below b marked i active seen spurious = .ok st') :
    Move cfg st t (.advance spurious) st' := by
  -- Once every entry is passed the threshold is added, and before that an entry is linked.
  unfold linkStep at ran
  split at ran
  · cases ran
  · rename_i batch stored
    split at ran
    · rename_i finished
      dsimp only at ran
      split at ran
      · rename_i zero
        cases ran
        exact .addFree top stored finished zero
      · rename_i positive
        cases ran
        exact .addShare top stored finished positive
    · rename_i more
      split at ran
      · split at ran
        · rename_i found
          cases ran
          exact .load top stored (by omega) found rfl
        · cases ran
      · cases ran
        exact .gone top stored (by omega)
      · dsimp only at ran
        split at ran
        · rename_i same
          cases ran
          exact .publish top stored (by omega) same.1
        · rename_i failed
          cases ran
          refine .retry top stored (by omega) ?_
          rcases not_and_or.mp failed with changed | spurious
          · exact .inl changed
          · exact .inr (by simpa using spurious)

/-- A turn of `traverse` is one of its three moves. -/
theorem traverseStep_move {below : List Frame} {list : Option EntryPtr} {rest : List EntryPtr}
    {spurious : Bool} {st' : State} (top : st.stack t = .traverse list rest :: below)
    (ran : traverseStep cfg st t below list rest = .ok st') : Move cfg st t (.advance spurious) st' := by
  -- The count that reaches zero frees the batch.
  unfold traverseStep at ran
  split at ran
  · cases ran
    exact .done top
  · rename_i curr
    split at ran
    · rename_i p f next b rid link read
      split at ran
      · cases ran
      · rename_i batch stored
        dsimp only at ran
        split at ran
        · rename_i one
          cases ran
          exact .releaseFree top read rfl stored one
        · rename_i more
          cases ran
          exact .releaseCount top read rfl stored more
    · cases ran

/-- A turn of `free_batch` is one of its two moves. -/
theorem freeBatchStep_move {below : List Frame} {batchPtr : LocalBatch} {i : Nat} {spurious : Bool}
    {st' : State} (top : st.stack t = .freeBatch batchPtr i :: below)
    (ran : freeBatchStep st t below batchPtr i = .ok st') : Move cfg st t (.advance spurious) st' := by
  unfold freeBatchStep at ran
  split at ran
  · split at ran
    · cases ran
    · rename_i batch stored
      split at ran
      · rename_i entry found
        cases ran
        exact .invoke top stored found
      · rename_i finished
        cases ran
        exact .dealloc top stored finished
  · cases ran

/-- Taking what a slot holds is one of two moves. -/
theorem take_move {below : List Frame} {cursor : Nat} {spurious : Bool}
    (top : st.stack t = .reclaimAll cursor :: below) (more : cursor < cfg.slots)
    (present : cursor ∈ st.batchSlots) (held : st.batch cursor ≠ .null) :
    Move cfg st t (.advance spurious)
      ((startFree { st with batch := Function.update st.batch cursor .drop } (st.batch cursor) t
        (below.length + 1)).setStack t
          (.freeBatch (st.batch cursor) 0 :: .reclaimReset cursor :: below)) := by
  unfold startFree
  split
  · rename_i b eq
    split
    · rename_i batch stored
      rw [eq]
      exact .take top more present eq stored
    · rename_i missing
      refine .takeWrong top more present held fun b' batch eq' stored => ?_
      cases eq.symm.trans eq'
      rw [missing] at stored
      cases stored
  · rename_i other
    exact .takeWrong top more present held fun b batch eq _ => other b eq

/-- A turn of `reclaim_all` is one of its four moves. -/
theorem reclaimAllStep_move {below : List Frame} {cursor : Nat} {spurious : Bool} {st' : State}
    (top : st.stack t = .reclaimAll cursor :: below)
    (ran : reclaimAllStep cfg st t below cursor = .ok st') : Move cfg st t (.advance spurious) st' := by
  unfold reclaimAllStep at ran
  split at ran
  · rename_i finished
    cases ran
    exact .finish top finished
  · rename_i more
    split at ran
    · rename_i null
      cases ran
      exact .next top (by omega) null
    · rename_i busy
      cases ran
      obtain ⟨present, held⟩ := not_or.mp busy
      exact take_move top (by omega) (not_not.mp present) held

/-- A step inside a call is one of the moves of that call. -/
theorem advance_move {spurious : Bool} {st' : State} (ran : advance cfg st t spurious = .ok st') :
    Move cfg st t (.advance spurious) st' := by
  unfold advance at ran
  split at ran
  · rename_i top
    exact scanStep_move top ran
  · rename_i top
    exact linkStep_move top ran
  · rename_i top
    exact traverseStep_move top ran
  · rename_i top
    exact freeBatchStep_move top ran
  · rename_i top
    exact reclaimAllStep_move top ran
  · rename_i top
    cases ran
    exact .reset top
  · cases ran

/-- Passing absent slots is one of the two skips. -/
theorem skip_move {target : Nat} {st' : State} (ran : skip cfg st t target = .ok st') :
    Move cfg st t (.skip target) st' := by
  unfold skip at ran
  split at ran
  · rename_i top
    split at ran
    · rename_i ok
      cases ran
      exact .skipScan top ok.1 ok.2.1 ok.2.2
    · cases ran
  · rename_i top
    split at ran
    · rename_i ok
      cases ran
      exact .skipReclaim top ok.1 ok.2.1 ok.2.2
    · cases ran
  · cases ran

/-- A flush starts a scan when there is a batch, and does nothing otherwise. -/
theorem tryRetireBatch_move {st' : State} (user : userLevel (st.stack t))
    (ran : tryRetireBatch st t s = .ok st') : Move cfg st t (.flush s) st' := by
  unfold tryRetireBatch tryRetire at ran
  split at ran
  · split at ran
    · cases ran
      exact .flushNone user
    · cases ran
      exact .flushNone user
    · rename_i held
      split at ran
      · cases ran
      · rename_i stored
        cases ran
        exact .flush user held stored
  · cases ran
    exact .flushNone user

/-- Every action that succeeds is one of the moves. -/
theorem act_move {action : Action} {st' : State} (ran : act cfg st t action = .ok st') :
    Move cfg st t action st' := by
  -- There is one move for every branch, in the order of the source.
  unfold act at ran
  split at ran
  · exact advance_move ran
  · exact skip_move ran
  · split at ran
    · rename_i top
      cases ran
      exact .ret top
    · cases ran
  · split at ran
    · rename_i top
      cases ran
      exact .panic top
    · cases ran
  · split at ran
    · cases ran
    · rename_i busy
      have user : userLevel (st.stack t) = true := by simpa using busy
      split at ran
      · split at ran
        · rename_i present
          cases ran
          exact .known user present
        · rename_i absent
          cases ran
          exact .create user absent
      · cases ran; exact .enter user
      · cases ran
        unfold Raw.leave
        split
        · rename_i inactive
          exact .leaveIdle user inactive
        · rename_i active
          exact .leave user active
      · cases ran
        unfold Raw.refresh
        split
        · rename_i inactive
          exact .refreshIdle user inactive
        · rename_i active
          exact .refresh user active
      · exact add_move user ran
      · unfold Raw.reserve at ran
        split at ran
        · cases ran
        · rename_i prepared
          cases ran
          exact .reserve user (prepare_prep prepared).1
      · exact tryRetireBatch_move user ran
      · cases ran; exact .reclaimAll user
      · cases ran; exact .access user
      · cases ran

end Inversion

end Seize.Raw
