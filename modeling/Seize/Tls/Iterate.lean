import Seize.Tls.Drop

/-!
Iteration over a `ThreadLocal`.

An iterator passes the slots in the order of their IDs. Every slot behind it that was present when it
was created has been yielded, whatever is installed behind it or ahead of it meanwhile.
-/

namespace Seize.Tls

variable {τ : Type}

/-- The ID of a slot. -/
def slotId (slot : Nat × Nat) : Nat := 2 ^ (slot.1 + 5) - 32 + slot.2

/-- The least ID that an iterator has not passed. -/
def Iter.position (iter : Iter) : Nat := slotId (iter.bucket, iter.index)

/-- What one step of an iterator does. -/
inductive IterMove (cfg : Config) (st : State τ) (iter : Iter) : Iter → Prop where
  /-- The bucket is installed. -/
  | load {a} (outside : iter.cursor = .outside) (within : iter.bucket < bucketCount cfg.width)
      (found : st.buckets iter.bucket = some a) :
      IterMove cfg st iter { iter with cursor := .inside a, steps := iter.steps + 1 }
  /-- The bucket is not installed. -/
  | null (outside : iter.cursor = .outside) (within : iter.bucket < bucketCount cfg.width)
      (null : st.buckets iter.bucket = none) :
      IterMove cfg st iter { iter.advance cfg with steps := iter.steps + 1 }
  /-- There is no other bucket. -/
  | finish (outside : iter.cursor = .outside) (beyond : ¬ iter.bucket < bucketCount cfg.width) :
      IterMove cfg st iter { iter with cursor := .finished, steps := iter.steps + 1 }
  /-- The entry is present, and `next` returns it. -/
  | yield {a bucket} (inside : iter.cursor = .inside a) (within : iter.index < iter.bucketSize)
      (stored : st.heap a = some bucket) (marked : (bucket.entries iter.index).present = true) :
      IterMove cfg st iter { iter with
        index := iter.index + 1
        cursor := .outside
        yielded := (iter.bucket, iter.index) :: iter.yielded
        steps := iter.steps + 1 }
  /-- The entry is not present. -/
  | skip {a bucket} (inside : iter.cursor = .inside a) (within : iter.index < iter.bucketSize)
      (stored : st.heap a = some bucket) (unmarked : (bucket.entries iter.index).present = false) :
      IterMove cfg st iter { iter with index := iter.index + 1, steps := iter.steps + 1 }
  /-- The bucket has no other entry. -/
  | exhaust {a} (inside : iter.cursor = .inside a) (beyond : ¬ iter.index < iter.bucketSize) :
      IterMove cfg st iter { iter.advance cfg with steps := iter.steps + 1 }

variable {cfg : Config} {answers : Nat → Option Addr} {st st' : State τ} {t : Tid}
  {thread : Thread} {action : Action τ} {a : Addr} {iter iter' : Iter} {i e : Nat}

/-- Every step of an iterator is one of the moves. -/
theorem iterStep_iterMove {i : Nat} (ran : iterStep cfg st i iter = .ok st') :
    ∃ iter', IterMove cfg st iter iter' ∧
      st' = { st with iters := Function.update st.iters i (some iter') } := by
  unfold iterStep at ran
  dsimp only at ran
  split at ran
  · cases ran
  · rename_i outside
    split at ran
    · rename_i within
      split at ran
      · rename_i a found
        cases ran
        exact ⟨_, .load outside within found, rfl⟩
      · rename_i null
        cases ran
        exact ⟨_, .null outside within null, rfl⟩
    · rename_i beyond
      cases ran
      exact ⟨_, .finish outside beyond, rfl⟩
  · rename_i a inside
    split at ran
    · rename_i within
      split at ran
      · cases ran
      · rename_i bucket read
        obtain ⟨stored, _⟩ := deref_ok read
        split at ran
        · rename_i marked
          split at ran
          · cases ran
          · cases ran
            exact ⟨_, .yield inside within stored marked, rfl⟩
        · rename_i unmarked
          cases ran
          exact ⟨_, .skip inside within stored (by simpa using unmarked), rfl⟩
    · rename_i beyond
      cases ran
      exact ⟨_, .exhaust inside beyond, rfl⟩

/-- A slot is present when its entry is marked. -/
theorem State.presentAt_iff : st.presentAt i e = true ↔
    ∃ entry, st.entryAt i e = some entry ∧ entry.present = true := by
  unfold State.presentAt
  cases st.entryAt i e <;> simp

/-- Steps that keep the entry of a slot keep it present. -/
theorem State.presentAt_same (same : st'.entryAt i e = st.entryAt i e)
    (present : st.presentAt i e = true) : st'.presentAt i e = true := by
  rw [State.presentAt_iff] at present ⊢
  rw [same]
  exact present

/-- Writes that do not clear a flag keep every slot present. -/
theorem State.presentAt_write {j k : Nat} {bucket : Bucket τ} {entry : Entry τ} (inv : Inv cfg st)
    (found : st.buckets j = some a) (stored : st.heap a = some bucket)
    (buckets : st'.buckets = st.buckets)
    (heap : st'.heap = Function.update st.heap a (some { bucket with
      entries := Function.update bucket.entries k entry }))
    (kept : (bucket.entries k).present = true → entry.present = true)
    (present : st.presentAt i e = true) : st'.presentAt i e = true := by
  have entries := State.entryAt_write inv found buckets heap stored i e
  -- The entry that is written stays present if it was.
  by_cases here : (i, e) = (j, k)
  · rw [if_pos here] at entries
    cases here
    obtain ⟨entry', read, marked⟩ := State.presentAt_iff.mp present
    rw [State.entryAt_eq found stored] at read
    cases read
    exact State.presentAt_iff.mpr ⟨entry, entries, kept marked⟩
  · rw [if_neg here] at entries
    exact State.presentAt_same entries present

/-- A slot that is present stays present. -/
theorem Move.present_mono (moved : Move cfg st action st') (inv : Inv cfg st)
    (present : st.presentAt i e = true) : st'.presentAt i e = true := by
  -- What is not installed yet holds no slot.
  have hidden : ∀ {a : Addr} {content : Option (Bucket τ)} {st₂ : State τ},
      st₂.buckets = st.buckets → st₂.heap = Function.update st.heap a content →
      (∀ j, st.buckets j ≠ some a) → st₂.presentAt i e = true := by
    intro a content st₂ buckets heap out
    refine State.presentAt_same ?_ present
    rw [State.entryAt_heap buckets heap out]
  cases moved with
  | allocate call sized fits free =>
    refine hidden rfl rfl fun j found => ?_
    obtain ⟨_, bucket, stored, _⟩ := inv.buckets j _ found
    rw [free] at stored
    cases stored
  | lose call taken => exact hidden rfl rfl (inv.calls _ _ call).2
  | @win t thread new call null =>
    refine State.presentAt_same ?_ present
    obtain ⟨entry, read, _⟩ := State.presentAt_iff.mp present
    have installed : i ≠ thread.bucket := by
      rintro rfl
      simp [State.entryAt, null] at read
    simp [State.entryAt, State.setCall, Function.update_of_ne installed]
  | write call stored =>
    exact State.presentAt_write inv (inv.calls _ _ call).1 stored rfl rfl (fun marked => marked) present
  | store call stored =>
    exact State.presentAt_write inv (inv.calls _ _ call).1 stored rfl rfl (fun _ => rfl) present
  | loadOr | get | loadNull | loadSome | allocateFail | present | absent | getNull | getSome | gotSome
  | gotNone | iterate => exact State.presentAt_same rfl present

/-- The progress of an iterator, as a number that each of its steps increases. -/
def Iter.progress (iter : Iter) : Nat :=
  2 * 2 ^ (iter.bucket + 5) + 2 * iter.bucket + 2 * iter.index +
    match iter.cursor with
    | .outside => 0
    | .inside _ => 1
    | .finished => 1

/-- The invariant of an iterator. -/
structure IterOk (cfg : Config) (st : State τ) (iter : Iter) : Prop where
  /-- The size that is doubled with every bucket is the capacity of the bucket. -/
  size : iter.bucket < bucketCount cfg.width → iter.bucketSize = 2 ^ (iter.bucket + 5)
  /-- The index does not leave the bucket. -/
  index : iter.bucket < bucketCount cfg.width → iter.index ≤ iter.bucketSize
  /-- After the last bucket there is nothing. -/
  last : ¬ iter.bucket < bucketCount cfg.width → iter.bucket = bucketCount cfg.width ∧ iter.index = 0
  /-- The bucket that an iterator has loaded is the one that is installed. -/
  bucket : ∀ a, iter.cursor = .inside a → iter.bucket < bucketCount cfg.width ∧
    st.buckets iter.bucket = some a
  /-- An iterator finishes after the last bucket. -/
  finished : iter.cursor = .finished → iter.bucket = bucketCount cfg.width
  /-- What was present at the start is present. -/
  initial : ∀ i e, iter.initial i e = true → st.presentAt i e = true
  /-- What was yielded is present, and has been passed. -/
  yielded : ∀ slot ∈ iter.yielded, slot.1 < bucketCount cfg.width ∧ slot.2 < 2 ^ (slot.1 + 5) ∧
    st.presentAt slot.1 slot.2 = true ∧ slotId slot < iter.position
  /-- The slots were yielded in the order of their IDs. -/
  ordered : iter.yielded.Pairwise fun newer older => slotId older < slotId newer
  /-- What was present at the start and has been passed was yielded. -/
  complete : ∀ i e, i < bucketCount cfg.width → e < 2 ^ (i + 5) → iter.initial i e = true →
    slotId (i, e) < iter.position → (i, e) ∈ iter.yielded
  /-- Every step made progress. -/
  progress : iter.steps + 64 ≤ iter.progress

/-- Steps of others keep the invariant of an iterator. -/
theorem IterOk.mono (ok : IterOk cfg st iter)
    (buckets : ∀ i a, st.buckets i = some a → st'.buckets i = some a)
    (present : ∀ i e, st.presentAt i e = true → st'.presentAt i e = true) : IterOk cfg st' iter := by
  refine ⟨ok.size, ok.index, ok.last, fun a inside => ?_, ok.finished, fun i e is => ?_,
    fun slot member => ?_, ok.ordered, ok.complete, ok.progress⟩
  · obtain ⟨within, found⟩ := ok.bucket a inside
    exact ⟨within, buckets _ a found⟩
  · exact present i e (ok.initial i e is)
  · obtain ⟨within, inside, there, passed⟩ := ok.yielded slot member
    exact ⟨within, inside, present _ _ there, passed⟩

/-- Slots are ordered by their bucket, and then by their entry. -/
theorem slotId_lt_iff {j k : Nat} (inside : e < 2 ^ (i + 5)) (room : k ≤ 2 ^ (j + 5)) :
    slotId (i, e) < slotId (j, k) ↔ i < j ∨ (i = j ∧ e < k) := by
  have first : 2 ^ 5 ≤ 2 ^ (i + 5) := Nat.pow_le_pow_right (by omega) (by omega)
  have second : 2 ^ 5 ≤ 2 ^ (j + 5) := Nat.pow_le_pow_right (by omega) (by omega)
  simp only [slotId]
  rcases Nat.lt_trichotomy i j with before | rfl | after
  · -- A later bucket starts beyond every entry of an earlier one.
    have beyond : 2 ^ (i + 5 + 1) ≤ 2 ^ (j + 5) := Nat.pow_le_pow_right (by omega) (by omega)
    have doubled : 2 ^ (i + 5 + 1) = 2 ^ (i + 5) * 2 := Nat.pow_succ ..
    omega
  · omega
  · have beyond : 2 ^ (j + 5 + 1) ≤ 2 ^ (i + 5) := Nat.pow_le_pow_right (by omega) (by omega)
    have doubled : 2 ^ (j + 5 + 1) = 2 ^ (j + 5) * 2 := Nat.pow_succ ..
    omega

/-- The end of a bucket is the start of the next. -/
theorem slotId_next : slotId (i, 2 ^ (i + 5)) = slotId (i + 1, 0) := by
  have first : 2 ^ 5 ≤ 2 ^ (i + 5) := Nat.pow_le_pow_right (by omega) (by omega)
  have next : i + 1 + 5 = i + 5 + 1 := by omega
  have doubled : 2 ^ (i + 5 + 1) = 2 ^ (i + 5) * 2 := Nat.pow_succ ..
  simp only [slotId, next, doubled]
  omega

/-- The size after an advance is the capacity of the next bucket. -/
theorem IterOk.advance_size (large : 6 ≤ cfg.width) (ok : IterOk cfg st iter)
    (within : iter.bucket < bucketCount cfg.width) :
    iter.bucket + 1 < bucketCount cfg.width →
      (iter.bucketSize <<< 1) % 2 ^ cfg.width = 2 ^ (iter.bucket + 1 + 5) := by
  intro next
  rw [bucketCount_eq (Nat.le_of_succ_le large)] at next
  have sum : iter.bucket + 1 + 5 = iter.bucket + 5 + 1 := by omega
  have doubled : 2 ^ (iter.bucket + 5 + 1) = 2 ^ (iter.bucket + 5) * 2 := Nat.pow_succ ..
  -- The shift does not overflow before the last bucket.
  have fits : 2 ^ (iter.bucket + 5 + 1) < 2 ^ cfg.width := Nat.pow_lt_pow_right (by omega) (by omega)
  rw [ok.size within, Nat.shiftLeft_eq, Nat.pow_one, sum, ← doubled]
  exact Nat.mod_eq_of_lt fits

/-- Passing the rest of a bucket that has no other slot of the start. -/
theorem IterOk.pass (large : 6 ≤ cfg.width) (ok : IterOk cfg st iter)
    (within : iter.bucket < bucketCount cfg.width)
    (none : ∀ e, iter.index ≤ e → e < 2 ^ (iter.bucket + 5) → iter.initial iter.bucket e = false) :
    IterOk cfg st { iter.advance cfg with steps := iter.steps + 1 } := by
  have size := ok.size within
  have index := ok.index within
  rw [size] at index
  have position : iter.position ≤ slotId (iter.bucket + 1, 0) := by
    rw [← slotId_next]
    simp only [Iter.position, slotId]
    omega
  refine ⟨ok.advance_size large within, fun _ => Nat.zero_le _, fun beyond => ?_, fun a inside => ?_,
    fun finished => ?_, ok.initial, fun slot member => ?_, ok.ordered,
    fun i e within' inside is passed => ?_, ?_⟩
  · exact ⟨Nat.le_antisymm within (Nat.le_of_not_lt beyond), rfl⟩
  · cases inside
  · cases finished
  · obtain ⟨within', inside, there, passed⟩ := ok.yielded slot member
    exact ⟨within', inside, there, Nat.lt_of_lt_of_le passed position⟩
  · -- A slot before the next bucket was passed already, or is in the rest of this one.
    by_cases old : slotId (i, e) < iter.position
    · exact ok.complete i e within' inside is old
    · have split := (slotId_lt_iff inside (Nat.zero_le _)).mp passed
      have notBefore : ¬ (i < iter.bucket ∨ (i = iter.bucket ∧ e < iter.index)) :=
        fun before => old ((slotId_lt_iff inside index).mpr before)
      have here : i = iter.bucket := by
        simp only [Iter.advance] at split
        omega
      subst here
      cases (none e (by omega) inside).symm.trans is
  · have progress := ok.progress
    have doubled : 2 ^ (iter.bucket + 5 + 1) = 2 ^ (iter.bucket + 5) * 2 := Nat.pow_succ ..
    have sum : iter.bucket + 1 + 5 = iter.bucket + 5 + 1 := by omega
    have most : iter.progress ≤ 2 * 2 ^ (iter.bucket + 5) + 2 * iter.bucket + 2 * iter.index + 1 := by
      unfold Iter.progress
      split <;> omega
    simp only [Iter.progress, Iter.advance, sum, doubled]
    omega

/-- Moving to the next entry of a bucket. -/
theorem IterOk.proceed {cursor : Cursor} {yielded : List (Nat × Nat)} (ok : IterOk cfg st iter)
    (inside : iter.cursor = .inside a) (within : iter.index < iter.bucketSize)
    (next : cursor = .inside a ∨ cursor = .outside)
    (grown : (yielded = iter.yielded ∧ iter.initial iter.bucket iter.index = false) ∨
      (yielded = (iter.bucket, iter.index) :: iter.yielded ∧
        st.presentAt iter.bucket iter.index = true)) :
    IterOk cfg st { iter with
      index := iter.index + 1, cursor := cursor, yielded := yielded, steps := iter.steps + 1 } := by
  obtain ⟨installed, found⟩ := ok.bucket a inside
  have size := ok.size installed
  rw [size] at within
  have step : slotId (iter.bucket, iter.index + 1) = iter.position + 1 := by
    simp only [Iter.position, slotId]
    omega
  refine ⟨ok.size, fun _ => ?_, fun beyond => absurd installed beyond, fun a' inside' => ?_,
    fun finished => ?_, ok.initial, fun slot member => ?_, ?_, fun i e within' inside' is passed => ?_, ?_⟩
  · simp only [size]
    omega
  · rcases next with rfl | rfl
    · cases inside'
      exact ⟨installed, found⟩
    · cases inside'
  · rcases next with rfl | rfl <;> cases finished
  · simp only [Iter.position, step]
    rcases grown with ⟨rfl, _⟩ | ⟨rfl, there⟩
    · obtain ⟨within', inside', there, passed⟩ := ok.yielded slot member
      exact ⟨within', inside', there, Nat.lt_succ_of_lt passed⟩
    · rcases List.mem_cons.mp member with rfl | member
      · exact ⟨installed, within, there, Nat.lt_succ_self _⟩
      · obtain ⟨within', inside', there, passed⟩ := ok.yielded slot member
        exact ⟨within', inside', there, Nat.lt_succ_of_lt passed⟩
  · rcases grown with ⟨rfl, _⟩ | ⟨rfl, _⟩
    · exact ok.ordered
    · -- Everything that was yielded before has been passed.
      exact List.pairwise_cons.mpr ⟨fun slot member => (ok.yielded slot member).2.2.2, ok.ordered⟩
  · simp only [Iter.position, step] at passed
    by_cases old : slotId (i, e) < iter.position
    · have member := ok.complete i e within' inside' is old
      rcases grown with ⟨rfl, _⟩ | ⟨rfl, _⟩
      · exact member
      · exact List.mem_cons_of_mem _ member
    · -- The one slot that is passed by this step is the one it looks at.
      have here : i = iter.bucket ∧ e = iter.index := by
        have notBefore : ¬ (i < iter.bucket ∨ (i = iter.bucket ∧ e < iter.index)) :=
          fun before => old ((slotId_lt_iff inside' (Nat.le_of_lt within)).mpr before)
        have before := (slotId_lt_iff inside' within).mp (step ▸ passed)
        omega
      obtain ⟨rfl, rfl⟩ := here
      rcases grown with ⟨_, absent⟩ | ⟨rfl, _⟩
      · rw [absent] at is
        cases is
      · exact List.mem_cons_self
  · have progress := ok.progress
    simp only [Iter.progress, inside] at progress
    rcases next with rfl | rfl
    · simp only [Iter.progress]
      omega
    · simp only [Iter.progress]
      omega

/-- The step lemma: every step of an iterator keeps its invariant. -/
theorem IterMove.ok (moved : IterMove cfg st iter iter') (large : 6 ≤ cfg.width)
    (ok : IterOk cfg st iter) : IterOk cfg st iter' := by
  cases moved with
  | load outside within found =>
    refine ⟨ok.size, ok.index, ok.last, fun a inside => ?_, fun finished => (by cases finished),
      ok.initial, ok.yielded, ok.ordered, ok.complete, ?_⟩
    · cases inside
      exact ⟨within, found⟩
    · have progress := ok.progress
      simp only [Iter.progress, outside] at progress ⊢
      omega
  | null outside within null =>
    refine ok.pass large within fun e _ _ => ?_
    -- A slot of the start would have a bucket.
    by_contra present
    obtain ⟨entry, read, _⟩ :=
      State.presentAt_iff.mp (ok.initial iter.bucket e (by simpa using present))
    simp [State.entryAt, null] at read
  | finish outside beyond =>
    refine ⟨ok.size, ok.index, ok.last, fun a inside => (by cases inside),
      fun _ => (ok.last beyond).1, ok.initial, ok.yielded, ok.ordered, ok.complete, ?_⟩
    have progress := ok.progress
    simp only [Iter.progress, outside] at progress ⊢
    omega
  | @yield a bucket inside within stored marked =>
    have found := (ok.bucket a inside).2
    exact ok.proceed inside within (.inr rfl) (.inr ⟨rfl, State.presentAt_iff.mpr
      ⟨_, State.entryAt_eq found stored, marked⟩⟩)
  | @skip a bucket inside within stored unmarked =>
    have found := (ok.bucket a inside).2
    refine ok.proceed inside within (.inl inside) (.inl ⟨rfl, ?_⟩)
    by_contra present
    obtain ⟨entry, read, marked⟩ :=
      State.presentAt_iff.mp (ok.initial iter.bucket iter.index (by simpa using present))
    rw [State.entryAt_eq found stored] at read
    cases read
    rw [unmarked] at marked
    cases marked
  | @exhaust a inside beyond =>
    have installed := (ok.bucket a inside).1
    refine ok.pass large installed fun e low high => ?_
    rw [ok.size installed] at beyond
    omega

/-- An iterator that has not finished can take a step. -/
theorem IterOk.enabled (ok : IterOk cfg st iter) (inv : Inv cfg st) (running : iter.cursor ≠ .finished) :
    ∃ st', iterStep cfg st i iter = .ok st' := by
  unfold iterStep
  dsimp only
  cases cursor : iter.cursor with
  | finished => exact absurd cursor running
  | outside =>
    by_cases within : iter.bucket < bucketCount cfg.width
    · simp only [if_pos within]
      cases st.buckets iter.bucket with
      | none => exact ⟨_, rfl⟩
      | some a => exact ⟨_, rfl⟩
    · simp only [if_neg within]
      exact ⟨_, rfl⟩
  | inside a =>
    by_cases within : iter.index < iter.bucketSize
    · obtain ⟨installed, found⟩ := ok.bucket a cursor
      obtain ⟨_, bucket, stored, sized⟩ := inv.buckets _ a found
      -- The size of the iterator is the capacity of the bucket, so the index is in bounds.
      have bounded : iter.index < bucket.capacity := by
        rw [sized, ← ok.size installed]
        exact within
      simp only [if_pos within, deref, stored, if_pos bounded]
      by_cases marked : (bucket.entries iter.index).present = true
      · have value := inv.values iter.bucket iter.index _ (State.entryAt_eq found stored) marked
        obtain ⟨v, held⟩ := Option.ne_none_iff_exists'.mp value
        simp only [if_pos marked, readEntry, held]
        exact ⟨_, rfl⟩
      · simp only [if_neg marked]
        exact ⟨_, rfl⟩
    · simp only [if_neg within]
      exact ⟨_, rfl⟩

/-- A new iterator has passed nothing. -/
theorem newIter_ok (large : 6 ≤ cfg.width) (sized : Thread.bucketCapacity cfg.width 0 = .ok i) :
    IterOk cfg st ⟨0, 0, i, .outside, [], st.presentAt, 0⟩ := by
  have count : bucketCount cfg.width = cfg.width - 5 := bucketCount_eq (by omega)
  rw [Thread.bucketCapacity_eq large (by omega)] at sized
  cases sized
  refine ⟨fun _ => rfl, fun _ => Nat.zero_le _, fun beyond => ?_, fun a inside => (by cases inside),
    fun finished => (by cases finished), fun _ _ is => is, fun slot member => (by cases member),
    List.Pairwise.nil, fun i e within inside is passed => ?_, ?_⟩
  · simp only at beyond
    omega
  · simp [Iter.position, slotId] at passed
  · simp [Iter.progress]

/-- All iterators keep their invariant. -/
def ItersOk (cfg : Config) (st : State τ) : Prop := ∀ i iter, st.iters i = some iter → IterOk cfg st iter

/-- The step lemma for the whole container. -/
theorem ItersOk.preserved (large : 6 ≤ cfg.width) (inv : Inv cfg st) (all : ItersOk cfg st)
    (ran : step cfg st action = .ok st') : ItersOk cfg st' := by
  have moved := step_move ran
  have buckets : ∀ i a, st.buckets i = some a → st'.buckets i = some a := by
    intro i a found
    rcases moved.buckets i with same | ⟨null, _⟩
    · rw [same]
      exact found
    · rw [found] at null
      cases null
  have mono : ∀ iter, IterOk cfg st iter → IterOk cfg st' iter :=
    fun iter ok => ok.mono buckets fun i e => moved.present_mono inv
  -- Only one iterator changes, and only when the action is its own.
  have one : ∀ {k : Nat} {new : Iter}, st'.iters = Function.update st.iters k (some new) →
      IterOk cfg st' new → ItersOk cfg st' := by
    intro k new iters ok i iter found
    rw [iters] at found
    by_cases here : i = k
    · rw [here, Function.update_self] at found
      cases found
      exact ok
    · rw [Function.update_of_ne here] at found
      exact mono iter (all i iter found)
  cases action with
  | iter k =>
    simp only [step, newIter] at ran
    split at ran
    · cases ran
    · rename_i capacity sized
      cases ran
      exact one rfl (mono _ (newIter_ok large sized))
  | next k =>
    simp only [step] at ran
    split at ran
    · rename_i iter found
      obtain ⟨iter', stepped, rfl⟩ := iterStep_iterMove ran
      exact one rfl (mono _ (stepped.ok large (all k iter found)))
    · cases ran
  | loadOr | get | step | allocate | create =>
    have same : st'.iters = st.iters := by
      cases moved with
      | iterate iters iterates => cases iterates
      | _ => rfl
    intro i iter found
    rw [same] at found
    exact mono iter (all i iter found)

/-- An upper bound on the steps of an iterator. -/
def iterBound (cfg : Config) : Nat := 2 * 2 ^ cfg.width + 2 * cfg.width

/-- An iterator takes a bounded number of steps. -/
theorem IterOk.bounded (large : 6 ≤ cfg.width) (ok : IterOk cfg st iter) :
    iter.steps ≤ iterBound cfg := by
  have count : bucketCount cfg.width = cfg.width - 5 := bucketCount_eq (by omega)
  have progress := ok.progress
  have most : iter.progress ≤ 2 * 2 ^ (iter.bucket + 5) + 2 * iter.bucket + 2 * iter.index + 1 := by
    unfold Iter.progress
    split <;> omega
  unfold iterBound
  -- Inside the buckets, the progress stays below the next power of two.
  by_cases within : iter.bucket < bucketCount cfg.width
  · have index := ok.index within
    rw [ok.size within] at index
    have next : 2 ^ (iter.bucket + 5 + 1) ≤ 2 ^ cfg.width :=
      Nat.pow_le_pow_right (by omega) (by omega)
    have doubled : 2 ^ (iter.bucket + 5 + 1) = 2 ^ (iter.bucket + 5) * 2 := Nat.pow_succ ..
    omega
  · obtain ⟨last, zero⟩ := ok.last within
    have power : 2 ^ (iter.bucket + 5) = 2 ^ cfg.width := by
      congr 1
      omega
    omega

/-- Left alone, an iterator finishes. -/
theorem ItersOk.finishes (large : 6 ≤ cfg.width) :
    ∀ {n : Nat} {st : State τ} {iter : Iter}, Inv cfg st → ItersOk cfg st → st.iters i = some iter →
      iterBound cfg - iter.steps = n →
      ∃ st' iter', Reachable (step cfg) UniqueAccess st st' ∧ st'.iters i = some iter' ∧
        iter'.cursor = .finished := by
  -- The induction is on the number of steps that remain below the bound.
  intro n
  induction n using Nat.strongRecOn with
  | ind n ih =>
    intro st iter inv all found rest
    by_cases finished : iter.cursor = .finished
    · exact ⟨st, iter, .refl, found, finished⟩
    · obtain ⟨st₁, ran⟩ := (all i iter found).enabled inv finished
      have stepped : step cfg st (.next i) = .ok st₁ := by
        simp only [step, found]
        exact ran
      obtain ⟨iter₁, moved, is⟩ := iterStep_iterMove ran
      have found₁ : st₁.iters i = some iter₁ := by
        rw [is]
        exact Function.update_self ..
      have counted : iter₁.steps = iter.steps + 1 := by
        cases moved <;> rfl
      have inv₁ := (step_move stepped).inv large trivial inv
      have all₁ := all.preserved large inv stepped
      have bound := (all₁ i iter₁ found₁).bounded large
      obtain ⟨st', iter', run, found', ended⟩ := ih (iterBound cfg - iter₁.steps) (by omega) inv₁ all₁
        found₁ rfl
      exact ⟨st', iter', (Reachable.tail .refl trivial stepped).trans run, found', ended⟩

/-- What an iterator promises in every state of a run. -/
structure Iterates (cfg : Config) (st : State τ) (i : Nat) (iter : Iter) : Prop where
  /-- The size that is doubled with every bucket is the capacity of the current one. -/
  size : iter.bucket < bucketCount cfg.width →
    Thread.bucketCapacity cfg.width iter.bucket = .ok iter.bucketSize
  /-- No read is out of bounds, and the iterator stops only after its last `None`. -/
  defined : ∀ stop, step cfg st (.next i) = .error stop → stop = .disabled ∧ iter.cursor = .finished
  /-- A step yields nothing, or one slot whose initialization has completed. -/
  yields : ∀ st' iter', step cfg st (.next i) = .ok st' → st'.iters i = some iter' →
    iter'.yielded = iter.yielded ∨ ∃ bucket entry id, iter'.yielded = (bucket, entry) :: iter.yielded ∧
      Thread.new cfg.width id = .ok ⟨id, entry, bucket⟩ ∧ st.map cfg id ≠ none
  /-- No slot is yielded twice. -/
  once : iter.yielded.Nodup
  /-- The slots are yielded by increasing ID. -/
  ordered : ∀ newer older id id', List.Sublist [newer, older] iter.yielded →
    Thread.new cfg.width id = .ok ⟨id, newer.2, newer.1⟩ →
      Thread.new cfg.width id' = .ok ⟨id', older.2, older.1⟩ → id' < id
  /-- An iterator that has finished has yielded every slot that was present when it was created. -/
  complete : iter.cursor = .finished → ∀ id thread, Thread.new cfg.width id = .ok thread →
    iter.initial thread.bucket thread.entry = true → (thread.bucket, thread.entry) ∈ iter.yielded
  /-- The number of steps is bounded. -/
  bounded : iter.steps ≤ iterBound cfg
  /-- The iterator ends with `None`. -/
  ends : ∃ st' iter', Reachable (step cfg) UniqueAccess st st' ∧ st'.iters i = some iter' ∧
    iter'.cursor = .finished

/-- The ID of a slot is computed from its bucket and its entry. -/
theorem slotId_new {id : Nat} (large : 6 ≤ cfg.width) (found : Thread.new cfg.width id = .ok thread) :
    slotId (thread.bucket, thread.entry) = id := by
  obtain ⟨_, _, _, sum⟩ := Thread.new_spec large (Thread.small_of_new found) found
  have first : 2 ^ 5 ≤ 2 ^ (thread.bucket + 5) := Nat.pow_le_pow_right (by omega) (by omega)
  simp only [slotId]
  omega

/-- A slot that is present has a value. -/
theorem Inv.map_present {id : Nat} (inv : Inv cfg st) (found : Thread.new cfg.width id = .ok thread)
    (present : st.presentAt thread.bucket thread.entry = true) : st.map cfg id ≠ none := by
  obtain ⟨entry, read, marked⟩ := State.presentAt_iff.mp present
  have value := inv.values _ _ entry read marked
  rw [State.map, State.slot_eq found, read]
  simpa [Entry.held, marked] using value

/--
Iteration misses no slot that was present.

The iterator and the calls of any number of threads interleave at every atomic access.
-/
theorem iteration_complete {start : State τ} (cfg : Config) (capacity i : Nat)
    (large : 6 ≤ cfg.width) (created : withCapacityIn τ cfg capacity answers = .ok (start, true))
    (run : Reachable (step cfg) UniqueAccess start st) (found : st.iters i = some iter) :
    Iterates cfg st i iter := by
  have inv := (reachable_sound large created run).inv
  have all : ItersOk cfg st := by
    refine run.invariant (ItersOk cfg) (fun i iter found => ?_) fun st action st' before all _ ran =>
      all.preserved large (reachable_sound large created before).inv ran
    obtain ⟨_, _, held, _⟩ := created_held large created
    rw [held.iters i] at found
    cases found
  have ok := all i iter found
  refine ⟨fun within => ?_, fun stop failed => ?_, fun st' iter' ran found' => ?_, ?_,
    fun newer older id id' both first second => ?_, fun finished id thread slot is => ?_,
    ok.bounded large, all.finishes large inv found rfl⟩
  · rw [ok.size within]
    exact Thread.bucketCapacity_eq large within
  · simp only [step, found] at failed
    by_cases finished : iter.cursor = .finished
    · simp only [iterStep, finished] at failed
      cases failed
      exact ⟨rfl, finished⟩
    · obtain ⟨st', ran⟩ := ok.enabled (i := i) inv finished
      rw [ran] at failed
      cases failed
  · simp only [step, found] at ran
    obtain ⟨next, moved, rfl⟩ := iterStep_iterMove ran
    simp only [Function.update_self, Option.some.injEq] at found'
    subst found'
    cases moved with
    | @yield a bucket inside within stored marked =>
      obtain ⟨installed, there⟩ := ok.bucket a inside
      rw [ok.size installed] at within
      obtain ⟨id, _, slot⟩ := Thread.new_surjective large installed within
      refine .inr ⟨iter.bucket, iter.index, id, rfl, slot, inv.map_present slot ?_⟩
      exact State.presentAt_iff.mpr ⟨_, State.entryAt_eq there stored, marked⟩
    | _ => exact .inl rfl
  · refine ok.ordered.imp fun less same => ?_
    rw [same] at less
    exact absurd less (Nat.lt_irrefl _)
  · have pair := ok.ordered.sublist both
    have less : slotId older < slotId newer := by simpa using pair
    rw [← slotId_new large first, ← slotId_new large second]
    exact less
  · obtain ⟨_, within, inside, _⟩ := Thread.new_spec large (Thread.small_of_new slot) slot
    refine ok.complete thread.bucket thread.entry within inside is ?_
    -- Every slot comes before the end of the last bucket.
    have last := ok.finished finished
    have zero : iter.index = 0 := (ok.last (by omega)).2
    refine (slotId_lt_iff inside ?_).mpr (.inl (by omega))
    rw [zero]
    exact Nat.zero_le _

/-- An iterator yields the one slot that was present, while another thread installs its own. -/
theorem iteration_complete_concurrent : ∃ start st : State Nat, ∃ iter,
    withCapacityIn Nat ⟨64, 256, 128⟩ 0 (fun _ => some 1) = .ok (start, true) ∧
      Reachable (step ⟨64, 256, 128⟩) UniqueAccess start st ∧ st.iters 0 = some iter ∧
        iter.yielded = [(0, 1)] ∧ Iterates ⟨64, 256, 128⟩ st 0 iter := by
  have created : ∃ start, withCapacityIn Nat ⟨64, 256, 128⟩ 0 (fun _ => some 1) = .ok (start, true) ∧
      (∀ t, 2 ≤ t → start.calls t = none) ∧ checkRun (step ⟨64, 256, 128⟩) (uniqueCheck 2)
        (fun st => (st.iters 0).map Iter.yielded = some [(0, 1)]) start
        [.loadOr 0 1, .step 0, .step 0, .create 0 10, .step 0, .iter 0, .next 0, .next 0,
          .loadOr 1 0, .step 1, .step 1, .create 1 20, .step 1, .next 0] = true :=
    ⟨_, rfl, fun _ _ => rfl, by decide⟩
  obtain ⟨start, created, idle, checked⟩ := created
  obtain ⟨st, run, ended⟩ := reachable_of_uniqueCheck 2 idle checked
  obtain ⟨iter, found, yielded⟩ := Option.map_eq_some_iff.mp (of_decide_eq_true ended)
  exact ⟨start, st, iter, created, run, found, yielded,
    iteration_complete _ 0 0 (by decide) created run found⟩

end Seize.Tls
