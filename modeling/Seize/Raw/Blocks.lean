import Seize.Raw.Reach

/-!
The memory of a collector.

A batch owns two blocks: its box, and the storage of its entries while that has a capacity. The
ledger of allocator calls agrees with the batches in memory after every step.
-/

namespace Seize.Raw

variable {cfg : Config} {st st' : State} {t : Tid} {action : Action} {s : SlotId} {b : Addr}
  {batch : Batch} {history : List (MemEvent Block Layout)} {live : Block → Option Layout}

/-- The layout of the storage of entries. A capacity of zero needs none. -/
def entriesLayout (cap : Nat) : Option Layout := if cap = 0 then none else some (.entries cap)

/-- The blocks that the batches in memory own, with their layouts. -/
def State.blocks (st : State) : Block → Option Layout
  | .box b => (st.mem b).map fun _ => .batch
  | .entries b => (st.mem b).bind fun batch => entriesLayout batch.cap

/-- The allocator has handed out exactly those blocks. -/
def Stocked (st : State) : Prop := liveBlocks st.ledger = some st.blocks

/-- Storage for entries is allocated. -/
theorem liveBlocks_entriesAlloc (cap : Nat) (known : liveBlocks history = some live)
    (free : live (.entries b) = none) : liveBlocks (entriesAlloc b cap ++ history) =
      some (Function.update live (.entries b) (entriesLayout cap)) := by
  rw [entriesAlloc, entriesLayout]
  split
  · rw [List.nil_append, known, ← free, Function.update_eq_self]
  · exact liveBlocks_alloc _ known free

/-- Storage for entries is handed back. -/
theorem liveBlocks_entriesDealloc {cap : Nat} (known : liveBlocks history = some live)
    (taken : live (.entries b) = entriesLayout cap) :
    liveBlocks (entriesDealloc b cap ++ history) =
      some (Function.update live (.entries b) none) := by
  rw [entriesLayout] at taken
  rw [entriesDealloc]
  split
  · rename_i empty
    rw [if_pos empty] at taken
    rw [List.nil_append, known, ← taken, Function.update_eq_self]
  · rename_i some_
    rw [if_neg some_] at taken
    exact liveBlocks_dealloc known taken

/-- Only the batches and their capacities matter. -/
theorem Stocked.keep (stocked : Stocked st) (ledger : st'.ledger = st.ledger)
    (caps : ∀ b, (st'.mem b).map Batch.cap = (st.mem b).map Batch.cap) : Stocked st' := by
  have same : st'.blocks = st.blocks := by
    funext block
    cases block with
    | box b =>
      have box := congrArg (Option.map fun _ => Layout.batch) (caps b)
      simpa only [State.blocks, Option.map_map, Function.comp_def] using box
    | entries b =>
      have storage := congrArg (Option.bind · entriesLayout) (caps b)
      simpa only [State.blocks, Option.bind_map, Function.comp_def] using storage
  rw [Stocked, ledger, same]
  exact stocked

/-- A batch that is written with its capacity. -/
theorem Stocked.write {new : Batch} (stocked : Stocked st) (ledger : st'.ledger = st.ledger)
    (stored : st.mem b = some batch) (memory : st'.mem = Function.update st.mem b (some new))
    (cap : new.cap = batch.cap) : Stocked st' := by
  refine stocked.keep ledger fun b' => ?_
  by_cases here : b' = b
  · subst here
    rw [memory, Function.update_self, stored, Option.map_some, Option.map_some, cap]
  · rw [memory, Function.update_of_ne here]

/-- The blocks of one batch follow what memory holds at its address. -/
theorem blocks_update {after : Option Batch} (memory : st'.mem = Function.update st.mem b after) :
    st'.blocks = Function.update
      (Function.update st.blocks (.entries b) (after.bind fun batch => entriesLayout batch.cap))
      (.box b) (after.map fun _ => .batch) := by
  funext block
  by_cases here : block = .box b
  · subst here
    rw [Function.update_self, State.blocks, memory, Function.update_self]
  · rw [Function.update_of_ne here]
    by_cases storage : block = .entries b
    · subst storage
      rw [Function.update_self, State.blocks, memory, Function.update_self]
    · rw [Function.update_of_ne storage]
      -- Blocks of other batches are those of other addresses.
      cases block with
      | box b' =>
        have other : b' ≠ b := fun same => here (congrArg _ same)
        rw [State.blocks, State.blocks, memory, Function.update_of_ne other]
      | entries b' =>
        have other : b' ≠ b := fun same => storage (congrArg _ same)
        rw [State.blocks, State.blocks, memory, Function.update_of_ne other]

/-- The blocks after a batch was stored. -/
theorem blocks_store {new : Batch} (memory : st'.mem = Function.update st.mem b (some new)) :
    st'.blocks = Function.update (Function.update st.blocks (.entries b) (entriesLayout new.cap))
      (.box b) (some .batch) :=
  blocks_update memory

/-- The blocks after a batch was handed back. -/
theorem blocks_drop (memory : st'.mem = Function.update st.mem b none) :
    st'.blocks = Function.update (Function.update st.blocks (.entries b) none) (.box b) none :=
  blocks_update memory

/-- Preparing a slot allocates what it stores, and gives back what it does not. -/
theorem Prep.stocked (prep : Prep cfg s st st') (stocked : Stocked st) : Stocked st' := by
  induction prep with
  | refl => exact stocked
  | load _ _ ih => exact ih
  | @unboxed st₁ b _ _ free ih =>
    -- The entries vector of a batch that has no box is dropped again.
    have vacant : st₁.blocks (.entries b) = none := by rw [State.blocks, free, Option.bind_none]
    have granted := liveBlocks_entriesAlloc cfg.batchSize ih vacant
    have back := liveBlocks_entriesDealloc granted (Function.update_self ..)
    rw [Function.update_idem, ← vacant, Function.update_eq_self] at back
    exact back
  | @fresh st₁ b _ _ free ih =>
    have vacant : st₁.blocks (.entries b) = none := by rw [State.blocks, free, Option.bind_none]
    have boxless : st₁.blocks (.box b) = none := by rw [State.blocks, free, Option.map_none]
    have granted := liveBlocks_entriesAlloc cfg.batchSize ih vacant
    have boxed := liveBlocks_alloc .batch granted
      ((Function.update_of_ne (by simp) ..).trans boxless)
    have stores := blocks_store (rfl : (st₁.setBatch b (newBatch cfg st₁ s)).mem = _)
    exact boxed.trans (congrArg some stores.symm)
  | @grow st₁ b batch cap _ held stored room ih =>
    have box : st₁.blocks (.box b) = some .batch := by rw [State.blocks, stored, Option.map_some]
    have storage : st₁.blocks (.entries b) = entriesLayout batch.cap := by
      rw [State.blocks, stored, Option.bind_some]
    have stores := blocks_store (rfl : (st₁.setBatch b { batch with cap := cap }).mem = _)
    -- The box stays as it is.
    have boxed : Function.update (Function.update st₁.blocks (.entries b) (entriesLayout cap))
        (.box b) (some .batch) = Function.update st₁.blocks (.entries b) (entriesLayout cap) := by
      rw [← box, ← Function.update_of_ne (by simp : Block.box b ≠ .entries b) (entriesLayout cap)
        st₁.blocks, Function.update_eq_self]
    rw [boxed] at stores
    refine Eq.trans ?_ (congrArg some stores.symm)
    show liveBlocks (reserveCalls b batch.cap cap ++ st₁.ledger) = _
    rw [reserveCalls]
    split
    · rename_i same
      rw [List.nil_append, ← same, ← storage, Function.update_eq_self]
      exact ih
    · -- The storage is handed back and allocated anew.
      have back := liveBlocks_entriesDealloc ih storage
      have granted := liveBlocks_entriesAlloc cap back (Function.update_self ..)
      rw [Function.update_idem] at granted
      rw [List.append_assoc]
      exact granted

/-- The step lemma: every move keeps the ledger and the batches together. -/
theorem Move.stocked (moved : Move cfg st t action st') (stocked : Stocked st) : Stocked st' := by
  cases moved with
  | refused _ prep | immediate _ prep =>
    have kept := prep.stocked (stocked : Stocked { st with nextRid := st.nextRid + 1 })
    exact kept
  | pushed _ prep held stored | filled _ prep held stored =>
    have kept := prep.stocked (stocked : Stocked { st with nextRid := st.nextRid + 1 })
    exact kept.write rfl stored rfl rfl
  | reserve _ prep => exact prep.stocked stocked
  | commit _ stored | mark _ stored | addFree _ stored | addShare _ stored | publish _ stored
  | retry _ stored | releaseFree _ _ _ stored | releaseCount _ _ _ stored | take _ _ _ _ stored =>
    exact stocked.write rfl stored rfl rfl
  -- The storage is handed back before the box.
  | @dealloc b i below batch spurious top stored =>
    have box : st.blocks (.box b) = some .batch := by rw [State.blocks, stored, Option.map_some]
    have storage : st.blocks (.entries b) = entriesLayout batch.cap := by
      rw [State.blocks, stored, Option.bind_some]
    have back := liveBlocks_entriesDealloc stocked storage
    have unboxed := liveBlocks_dealloc back ((Function.update_of_ne (by simp) ..).trans box)
    have drops := blocks_drop (rfl : ({ st with mem := Function.update st.mem b none }).mem = _)
    exact unboxed.trans (congrArg some drops.symm)
  | _ => exact stocked

/-- The run lemma, for every run of the raw collector. -/
theorem reachable_stocked {allowed : State → Tid × Action → Prop}
    (run : Reachable (Raw.step cfg) allowed State.init st) : Stocked st := by
  refine run.invariant Stocked ?_ fun st₀ move st₁ _ stocked _ ran => ?_
  · refine congrArg some (funext fun block => ?_)
    cases block <;> rfl
  · obtain ⟨st₂, moved, rfl⟩ := step_move ran
    exact moved.stocked stocked

end Seize.Raw
