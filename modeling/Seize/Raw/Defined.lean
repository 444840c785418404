import Seize.Raw.Check

/-! A disciplined run never touches a batch that is not there, the sentinel included. -/

namespace Seize.Raw

variable {cfg : Config} {st st' : State} {t : Tid} {s : SlotId}

/-- Every local batch that is a pointer addresses an allocated batch. -/
def Allocated (st : State) : Prop := ∀ s b, st.batch s = .ptr b → ∃ batch, st.mem b = some batch

/-- Initializing a slot never ends in undefined behaviour, and never answers null. -/
theorem getOrInit_defined (cfg : Config) (st : State) (s : SlotId) (c : Alloc) :
    getOrInit cfg st s c ≠ .error .undefinedBehaviour ∧
      ∀ st', getOrInit cfg st s c ≠ .ok (st', some .null) := by
  unfold getOrInit
  split
  · -- A null slot gets a batch, or an allocation fails.
    refine ⟨?_, fun st' => ?_⟩ <;> (repeat' split) <;> simp
  · rename_i _ other
    refine ⟨by simp, fun st' same => ?_⟩
    simp only [Except.ok.injEq, Prod.mk.injEq, Option.some.injEq] at same
    exact other same.2

/-- What initialization returns as a pointer is allocated. -/
theorem getOrInit_allocated {c : Alloc} {b : Addr} (allocated : Allocated st)
    (ran : getOrInit cfg st s c = .ok (st', some (.ptr b))) : ∃ batch, st'.mem b = some batch := by
  unfold getOrInit at ran
  split at ran
  · -- The fresh batch was just stored.
    split at ran
    · cases ran
    · split at ran
      · cases ran
      · split at ran
        · cases ran
        · cases ran
          exact ⟨_, Function.update_self ..⟩
  · simp only [Except.ok.injEq, Prod.mk.injEq, Option.some.injEq] at ran
    rw [← ran.1]
    exact allocated s b ran.2

/-- The common part of `add` and `reserve` never ends in undefined behaviour. -/
theorem prepare_defined (cfg : Config) (allocated : Allocated st) (s : SlotId) (c : Alloc) :
    prepare cfg st s c ≠ .error .undefinedBehaviour := by
  have loaded : Allocated (loadBatch st s) := by
    unfold loadBatch
    split
    · exact allocated
    · exact allocated
  have init := getOrInit_defined cfg (loadBatch st s) s c
  unfold prepare
  split
  · simp
  · split
    · rename_i stop failed
      rw [failed] at init
      intro same
      cases same
      exact init.1 rfl
    · simp
    · rename_i st₁ found
      exact absurd found (init.2 st₁)
    · simp
    · rename_i st₁ b found
      -- The batch that was found is there.
      obtain ⟨batch, stored⟩ := getOrInit_allocated loaded found
      simp only [stored]
      split <;> simp

/-- The start of `try_retire` never ends in undefined behaviour. -/
theorem tryRetire_defined (allocated : Allocated st) : tryRetire st t s ≠ .error .undefinedBehaviour := by
  unfold tryRetire
  split
  · simp
  · simp
  · rename_i b held
    obtain ⟨batch, stored⟩ := allocated s b held
    simp [stored]

/-- `add` never ends in undefined behaviour. -/
theorem add_defined (allocated : Allocated st) (p : Ptr) (f : Reclaim) (c : Alloc) :
    add cfg st t s p f c ≠ .error .undefinedBehaviour := by
  have same : Allocated { st with nextRid := st.nextRid + 1 } := allocated
  have prepared := prepare_defined cfg same s c
  unfold add
  dsimp only
  split
  · rename_i stop failed
    rw [failed] at prepared
    intro failed'
    cases failed'
    exact prepared rfl
  · simp
  · simp
  · rename_i st₁ b ready
    obtain ⟨_, held, batch, stored, _⟩ := prepare_prep ready
    simp only [stored]
    split
    · -- The slot still holds the batch that was pushed to, so the retirement finds it.
      have same : (pushEntry st₁ b batch p f st.nextRid).batch s = .ptr b := held
      intro failed
      have started := failed.symm.trans (tryRetire_ptr same (Function.update_self ..))
      cases started
    · simp

/-- A step inside a call never ends in undefined behaviour. -/
theorem advance_defined (inv : Inv cfg st) (spurious : Bool) :
    advance cfg st t spurious ≠ .error .undefinedBehaviour := by
  unfold advance
  split
  · -- A scan works on the batch of its slot.
    rename_i s b start cursor marked below top
    obtain ⟨_, _, _, batch, stored, _⟩ := inv.frames t below.length _ (State.frame_top top)
    unfold scanStep
    simp only [stored]
    repeat' split
    all_goals simp
  · -- A linking loop finds a mark in every entry it loads.
    rename_i b marked i active seen below top
    obtain ⟨batch, stored, _, linking⟩ := inv.frames t below.length _ (State.frame_top top)
    unfold linkStep
    simp only [stored]
    split
    · split <;> simp
    · rename_i more
      split
      · obtain ⟨entry, v, found, state⟩ := linking.marks i (Nat.le_refl i) (by omega)
        obtain ⟨p, f, _, owner, rid, link⟩ := entry
        cases state
        simp [found]
      · simp
      · split <;> simp
  · -- A traversal holds a list of linked entries, whose batches are allocated.
    rename_i list rest below top
    have chain : Chain st.mem list rest := inv.frames t below.length _ (State.frame_top top)
    unfold traverseStep
    cases list with
    | none => simp
    | some curr =>
      cases rest with
      | nil => cases chain
      | cons first tail =>
        obtain ⟨eq, entry, next, read, state, _⟩ := chain
        cases eq
        obtain ⟨entry₁, batch, read₁, facts⟩ := inv.released (.call t below.length)
          (show curr ∈ _ by simp [listAt, State.frame_top top, Frame.rest])
        obtain rfl : entry = entry₁ := Option.some.inj (read.symm.trans read₁)
        have stored : st.mem entry.batch = some batch := by
          rw [facts.owner]
          exact facts.stored
        obtain ⟨p, f, _, owner, rid, link⟩ := entry
        cases state
        simp only [read]
        dsimp only at stored
        simp only [stored]
        split <;> simp
  · -- A batch that is being freed is allocated.
    rename_i batchPtr i below top
    obtain ⟨b, batch, rfl, stored, _⟩ := inv.frames t below.length _ (State.frame_top top)
    unfold freeBatchStep
    simp only [stored]
    split <;> simp
  · unfold reclaimAllStep
    repeat' split
    all_goals simp
  · simp [reclaimResetStep]
  · simp

/-- No step from a sound state has undefined behaviour. -/
theorem Sound.defined (sound : Sound cfg st) (move : Tid × Action) :
    Raw.step cfg st move ≠ .error .undefinedBehaviour := by
  -- A step fails only where it looks up a batch, and the invariant says that the batch is there.
  have allocated : Allocated st := by
    intro s b held
    obtain ⟨batch, stored, _⟩ := sound.inv.slots s b held
    exact ⟨batch, stored⟩
  have acted : act cfg st move.1 move.2 ≠ .error .undefinedBehaviour := by
    unfold act
    split
    · exact advance_defined sound.inv _
    · unfold skip
      repeat' split
      all_goals simp
    · split <;> simp
    · split <;> simp
    · split
      · simp
      · split
        · simp
        · simp
        · simp
        · simp
        · exact add_defined allocated _ _ _
        · unfold Raw.reserve
          split
          · rename_i stop failed
            intro same
            cases same
            exact prepare_defined cfg allocated _ _ failed
          · simp
        · unfold tryRetireBatch
          split
          · exact tryRetire_defined allocated
          · simp
        · simp
        · simp
        · simp
  unfold Raw.step
  intro failed
  cases result : act cfg st move.1 move.2 with
  | error stop =>
    rw [result] at failed acted
    cases failed
    exact acted rfl
  | ok st₁ =>
    rw [result] at failed
    cases failed

/-- The batch a call in progress works on is allocated: neither null, nor `DROP`, nor freed. -/
def BatchesThere (st : State) : Prop :=
  ∀ t height f, st.frame t height = some f →
    match f with
    | .scan _ b .. => ∃ batch, st.mem b = some batch
    | .link b .. => ∃ batch, st.mem b = some batch
    | .freeBatch batchPtr _ => ∃ b batch, batchPtr = .ptr b ∧ st.mem b = some batch
    | _ => True

/--
Batch pointers are never null, never the sentinel, and never dangling.

Every pointer that `try_retire` and `free_batch` work on addresses an allocated batch, and no
operation reaches its undefined behaviour, in every run that starts `reclaim_all` only while no
slot holds the sentinel.
-/
theorem batches_never_dangle (cfg : Config) (st : State)
    (run : Reachable (Raw.step cfg) (Disciplined cfg) State.init st) :
    BatchesThere st ∧ ∀ move, Raw.step cfg st move ≠ .error .undefinedBehaviour := by
  have sound := reachable_sound run
  refine ⟨?_, sound.defined⟩
  intro t height f found
  have ok := sound.inv.frames t height f found
  cases f with
  | scan s b start cursor marked =>
    obtain ⟨_, _, _, batch, stored, _⟩ := ok
    exact ⟨batch, stored⟩
  | link b marked i active seen =>
    obtain ⟨batch, stored, _⟩ := ok
    exact ⟨batch, stored⟩
  | freeBatch batchPtr i =>
    obtain ⟨b, batch, same, stored, _⟩ := ok
    exact ⟨b, batch, same, stored⟩
  | reclaimer => trivial
  | traverse => trivial
  | reclaimAll => trivial
  | reclaimReset => trivial

/-- The condition is met while a reclaimer that `reclaim_all` started retires again. -/
theorem batches_never_dangle_recursive : ∃ st,
    Reachable (Raw.step ⟨64, 32⟩) (Disciplined ⟨64, 32⟩) State.init st ∧
      st.stack 0 = [.reclaimer 1 8 9, .reclaimer 0 7 9, .freeBatch (.ptr 1) 1, .reclaimReset 0] ∧
      BatchesThere st := by
  obtain ⟨st, run, ended⟩ := reachable_of_check ⟨64, 32⟩ 1 (Disciplined ⟨64, 32⟩)
    (sentinelCheck 1)
    (fun st => decide (st.stack 0 =
      [.reclaimer 1 8 9, .reclaimer 0 7 9, .freeBatch (.ptr 1) 1, .reclaimReset 0]))
    [(0, .add 0 7 9 (plenty 1)), (0, .reclaimAll), (0, .advance false), (0, .advance false),
      (0, .flush 0), (0, .add 0 8 9 (plenty 2))]
    (fun _ _ within access checked => disciplined_of_check within access checked) (by decide)
  exact ⟨st, run, of_decide_eq_true ended, (batches_never_dangle _ st run).1⟩

/--
A reclaimer panics out of `reclaim_all`, and the collector is dropped afterwards.

The slot still holds the sentinel, which the second iteration takes for a batch.
-/
def dropAfterPanic : List (Tid × Action) :=
  [(0, .add 0 7 9 (plenty 1)), (0, .reclaimAll), (0, .advance false), (0, .advance false),
    (0, .panic), (0, .reclaimAll), (0, .advance false)]

/-- Without the condition on the sentinel, `free_batch` is called on it. -/
theorem dropAfterPanic_dangles : ¬ ∀ cfg st, Reachable (Raw.step cfg) (Contract cfg) State.init st →
    BatchesThere st ∧ ∀ move, Raw.step cfg st move ≠ .error .undefinedBehaviour := by
  intro claim
  obtain ⟨st, run, ended⟩ := reachable_of_check ⟨64, 32⟩ 1 (Contract ⟨64, 32⟩) enterCheck
    (fun st => decide (st.frame 0 1 = some (.freeBatch .drop 0))) dropAfterPanic
    (fun _ _ within access checked => contract_of_check within access checked) (by decide)
  have there := (claim ⟨64, 32⟩ st run).1 0 1 _ (of_decide_eq_true ended)
  obtain ⟨b, batch, same, _⟩ := there
  cases same

end Seize.Raw
