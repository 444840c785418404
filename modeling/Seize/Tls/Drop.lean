import Seize.Tls.Capacity

/-!
The memory of a `ThreadLocal`, and what dropping it does.

The buckets that are allocated are those that are installed and those that a thread is about to
install. When no call is in progress, dropping the container drops every value and frees them all.
-/

namespace Seize.Tls

variable {τ : Type} {cfg : Config} {answers : Nat → Option Addr} {addr : Nat → Addr}
  {st st' : State τ} {t : Tid} {thread : Thread} {action : Action τ} {a : Addr}

/-- The layout that a block of the heap was allocated with. -/
def State.layouts (cfg : Config) (st : State τ) (a : Addr) : Option Nat :=
  (st.heap a).bind fun bucket => bucketLayout cfg bucket.capacity

/-- The allocator agrees with the heap, and somebody holds every bucket. -/
structure Booked (cfg : Config) (st : State τ) : Prop where
  live : liveBlocks st.ledger = some (st.layouts cfg)
  fits : ∀ a bucket, st.heap a = some bucket → bucketLayout cfg bucket.capacity ≠ none
  owned : ∀ a, st.heap a ≠ none → (∃ i, st.buckets i = some a) ∨
    ∃ t thread, st.calls t = some (.exchange thread a)

/-- The ledger after a bucket was allocated. -/
theorem Booked.alloc {bucket : Bucket τ} {layout : Nat} (booked : Booked cfg st)
    (free : st.heap a = none) (fits : bucketLayout cfg bucket.capacity = some layout)
    (heap : st'.heap = Function.update st.heap a (some bucket)) :
    liveBlocks (.alloc a layout :: st.ledger) = some (st'.layouts cfg) := by
  have vacant : st.layouts cfg a = none := by simp [State.layouts, free]
  simp only [liveBlocks, booked.live, vacant, if_true, Option.some.injEq]
  funext a'
  by_cases here : a' = a
  · subst here
    simp [State.layouts, heap, fits]
  · simp [State.layouts, heap, Function.update_of_ne here]

/-- The ledger after a bucket was freed. -/
theorem Booked.dealloc {bucket : Bucket τ} {layout : Nat} (booked : Booked cfg st)
    (stored : st.heap a = some bucket) (fits : bucketLayout cfg bucket.capacity = some layout)
    (heap : st'.heap = Function.update st.heap a none) :
    liveBlocks (.dealloc a layout :: st.ledger) = some (st'.layouts cfg) := by
  have taken : st.layouts cfg a = some layout := by simp [State.layouts, stored, fits]
  simp only [liveBlocks, booked.live, taken, if_true, Option.some.injEq]
  funext a'
  by_cases here : a' = a
  · subst here
    simp [State.layouts, heap]
  · simp [State.layouts, heap, Function.update_of_ne here]

/-- The rule for moves of one thread that keep the heap. -/
theorem Booked.keep {next : Option Call} (booked : Booked cfg st)
    (calls : st'.calls = Function.update st.calls t next) (ledger : st'.ledger = st.ledger)
    (heap : st'.heap = st.heap) (buckets : ∀ i a, st.buckets i = some a → st'.buckets i = some a)
    (old : ∀ thread a, st.calls t = some (.exchange thread a) → ∃ i, st'.buckets i = some a) :
    Booked cfg st' := by
  -- The heap stays as it is, and with it what is owed to the allocator.
  have layouts : st'.layouts cfg = st.layouts cfg := by
    funext a
    simp only [State.layouts, heap]
  refine ⟨?_, fun a bucket stored => booked.fits a bucket (heap ▸ stored), fun a stored => ?_⟩
  · rw [ledger, layouts]
    exact booked.live
  · rw [heap] at stored
    rcases booked.owned a stored with ⟨i, found⟩ | ⟨t', thread, call⟩
    · exact .inl ⟨i, buckets i a found⟩
    · by_cases here : t' = t
      · subst here
        exact .inl (old thread a call)
      · refine .inr ⟨t', thread, ?_⟩
        rw [calls, Function.update_of_ne here]
        exact call

/-- The rule for moves of one thread that write an entry. -/
theorem Booked.write {next : Option Call} {bucket : Bucket τ} {old : Call}
    {entries : Nat → Entry τ} (booked : Booked cfg st)
    (called : st.calls t = some old) (no : ∀ thread a, old ≠ .exchange thread a)
    (stored : st.heap a = some bucket) (calls : st'.calls = Function.update st.calls t next)
    (ledger : st'.ledger = st.ledger) (buckets : st'.buckets = st.buckets)
    (heap : st'.heap = Function.update st.heap a (some { bucket with entries := entries })) :
    Booked cfg st' := by
  -- A bucket keeps its capacity, so the blocks and their layouts are the same.
  have same : ∀ a', (st'.heap a').map Bucket.capacity = (st.heap a').map Bucket.capacity := by
    intro a'
    by_cases here : a' = a
    · subst here
      simp [heap, stored]
    · rw [heap, Function.update_of_ne here]
  have layouts : st'.layouts cfg = st.layouts cfg := by
    funext a'
    have := congrArg (·.bind (bucketLayout cfg)) (same a')
    simpa only [State.layouts, Option.bind_map, Function.comp_def] using this
  refine ⟨?_, fun a' bucket' stored' => ?_, fun a' stored' => ?_⟩
  · rw [ledger, layouts]
    exact booked.live
  · have old := same a'
    rw [stored'] at old
    obtain ⟨before, found, capacity⟩ := Option.map_eq_some_iff.mp old.symm
    rw [← capacity]
    exact booked.fits a' before found
  · have before : st.heap a' ≠ none := by
      intro free
      have none := same a'
      rw [free] at none
      exact stored' (Option.map_eq_none_iff.mp none)
    rcases booked.owned a' before with ⟨i, found⟩ | ⟨t', thread, call⟩
    · exact .inl ⟨i, buckets ▸ found⟩
    · refine .inr ⟨t', thread, ?_⟩
      rw [calls, Function.update_of_ne]
      · exact call
      · rintro rfl
        rw [called] at call
        exact no _ _ (Option.some.inj call)

/-- The step lemma: the allocator keeps agreeing with the heap. -/
theorem Move.booked (moved : Move cfg st action st') (large : 6 ≤ cfg.width) (inv : Inv cfg st)
    (booked : Booked cfg st) : Booked cfg st' := by
  -- Most calls hold no bucket of their own before they move.
  have quiet : ∀ {t : Tid} {old next : Option Call} {st₂ : State τ}, st.calls t = old →
      (∀ thread a, old ≠ some (.exchange thread a)) →
      st₂.calls = Function.update st.calls t next → st₂.ledger = st.ledger → st₂.heap = st.heap →
      st₂.buckets = st.buckets → Booked cfg st₂ := by
    intro t old next st₂ called no calls ledger heap buckets
    refine booked.keep calls ledger heap (fun i a found => buckets ▸ found) fun thread a is => ?_
    exact absurd (called.symm.trans is) (no thread a)
  cases moved with
  | loadOr idle => exact quiet idle (by simp) rfl rfl rfl rfl
  | get idle => exact quiet idle (by simp) rfl rfl rfl rfl
  | loadNull call => exact quiet call (by simp) rfl rfl rfl rfl
  | loadSome call => exact quiet call (by simp) rfl rfl rfl rfl
  | allocateFail call => exact quiet call (by simp) rfl rfl rfl rfl
  | @allocate t thread a capacity layout call sized fits free =>
    refine ⟨booked.alloc free fits rfl, fun a' bucket stored => ?_, fun a' stored => ?_⟩
    · by_cases here : a' = a
      · subst here
        simp only [State.setCall, Function.update_self, Option.some.injEq] at stored
        rw [← stored]
        simp [emptyBucket, fits]
      · simp only [State.setCall, Function.update_of_ne here] at stored
        exact booked.fits a' bucket stored
    · by_cases here : a' = a
      · subst here
        exact .inr ⟨t, thread, Function.update_self ..⟩
      · simp only [State.setCall, Function.update_of_ne here] at stored
        rcases booked.owned a' stored with found | ⟨t', thread', call'⟩
        · exact .inl found
        · refine .inr ⟨t', thread', (Function.update_of_ne ?_ _ _).trans call'⟩
          rintro rfl
          rw [call] at call'
          cases call'
  | @win t thread new call null =>
    refine booked.keep (t := t) rfl rfl rfl (fun i a found => ?_) fun thread' a is => ?_
    · refine (Function.update_of_ne ?_ _ _).trans found
      rintro rfl
      rw [null] at found
      cases found
    · rw [call] at is
      cases is
      exact ⟨thread.bucket, Function.update_self ..⟩
  | @lose t thread new other capacity layout bucket call taken sized fits stored =>
    -- The bucket is freed with the capacity it was allocated with.
    have whole : st.heap new = some (emptyBucket τ (2 ^ (thread.bucket + 5))) := (inv.calls t _ call).1
    have room : capacity = 2 ^ (thread.bucket + 5) := (inv.capacity large call sized).2
    subst room
    refine ⟨booked.dealloc whole fits rfl, fun a' bucket' stored' => ?_, fun a' stored' => ?_⟩
    · by_cases here : a' = new
      · simp [State.setCall, here] at stored'
      · simp only [State.setCall, Function.update_of_ne here] at stored'
        exact booked.fits a' bucket' stored'
    · by_cases here : a' = new
      · simp [State.setCall, here] at stored'
      · simp only [State.setCall, Function.update_of_ne here] at stored'
        rcases booked.owned a' stored' with found | ⟨t', thread', call'⟩
        · exact .inl found
        · refine .inr ⟨t', thread', (Function.update_of_ne ?_ _ _).trans call'⟩
          rintro rfl
          rw [call] at call'
          cases call'
          exact here rfl
  | present call => exact quiet call (by simp) rfl rfl rfl rfl
  | absent call => exact quiet call (by simp) rfl rfl rfl rfl
  | write call stored => exact booked.write call (by simp) stored rfl rfl rfl rfl
  | store call stored => exact booked.write call (by simp) stored rfl rfl rfl rfl
  | getNull call => exact quiet call (by simp) rfl rfl rfl rfl
  | getSome call => exact quiet call (by simp) rfl rfl rfl rfl
  | gotSome call => exact quiet call (by simp) rfl rfl rfl rfl
  | gotNone call => exact quiet call (by simp) rfl rfl rfl rfl
  | iterate iters => exact ⟨booked.live, booked.fits, booked.owned⟩

/-- The values of a bucket are those of its entries that are present. -/
theorem Bucket.mem_values {bucket : Bucket τ} {e : Nat} {value : τ} :
    (e, value) ∈ bucket.values ↔ e < bucket.capacity ∧ (bucket.entries e).held = some value := by
  unfold Bucket.values Entry.held
  rw [List.mem_filterMap]
  constructor
  · rintro ⟨k, inside, read⟩
    split at read
    · rename_i marked
      obtain ⟨value', held, is⟩ := Option.map_eq_some_iff.mp read
      cases is
      rw [if_pos marked]
      exact ⟨List.mem_range.mp inside, held⟩
    · cases read
  · rintro ⟨inside, held⟩
    refine ⟨e, List.mem_range.mpr inside, ?_⟩
    split at held
    · rename_i marked
      simp [marked, held]
    · cases held

/-- No entry of a bucket has two values. -/
theorem Bucket.values_nodup (bucket : Bucket τ) : (bucket.values.map Prod.fst).Nodup := by
  -- The values are listed by increasing index.
  unfold Bucket.values
  generalize order : List.range bucket.capacity = indices
  have distinct : indices.Nodup := order ▸ List.nodup_range
  clear order
  induction indices with
  | nil => exact List.nodup_nil
  | cons k rest ih =>
    obtain ⟨out, tail⟩ := List.nodup_cons.mp distinct
    rw [List.filterMap_cons]
    split
    · exact ih tail
    · rename_i pair read
      have key : pair.1 = k := by
        split at read
        · obtain ⟨value, _, is⟩ := Option.map_eq_some_iff.mp read
          rw [← is]
        · cases read
      rw [List.map_cons, List.nodup_cons]
      refine ⟨fun again => out ?_, ih tail⟩
      obtain ⟨pair', member, same⟩ := List.mem_map.mp again
      obtain ⟨k', inside, read'⟩ := List.mem_filterMap.mp member
      have key' : pair'.1 = k' := by
        split at read'
        · obtain ⟨value, _, is⟩ := Option.map_eq_some_iff.mp read'
          rw [← is]
        · cases read'
      rw [← key, ← same, key']
      exact inside

/-- A bucket whose memory is accounted for, and that no other index has. -/
structure Droppable (cfg : Config) (i : Nat) (st : State τ) : Prop where
  live : liveBlocks st.ledger = some (st.layouts cfg)
  stored : ∀ j a, i ≤ j → st.buckets j = some a → ∃ bucket, st.heap a = some bucket ∧
    bucket.capacity = 2 ^ (j + 5) ∧ bucketLayout cfg bucket.capacity ≠ none
  injective : ∀ j k a, st.buckets j = some a → st.buckets k = some a → j = k

/-- What `Drop for ThreadLocal` does with the buckets from an index on. -/
structure Dropped (i n : Nat) (st st' : State τ) (values : List (Nat × Nat × τ)) : Prop where
  heap : ∀ a, st'.heap a = none ∨ (st'.heap a = st.heap a ∧ ∀ j, i ≤ j → j < i + n →
    st.buckets j ≠ some a)
  mem : ∀ j e value, (j, e, value) ∈ values ↔ i ≤ j ∧ j < i + n ∧ ∃ a bucket,
    st.buckets j = some a ∧ st.heap a = some bucket ∧ (e, value) ∈ bucket.values
  once : (values.map fun value => (value.1, value.2.1)).Nodup

/-- Freeing one bucket leaves the later ones. -/
theorem Droppable.free {i layout : Nat} {bucket : Bucket τ} (droppable : Droppable cfg i st)
    (found : st.buckets i = some a) (stored : st.heap a = some bucket)
    (fits : bucketLayout cfg bucket.capacity = some layout) :
    Droppable cfg (i + 1) { st with
      heap := Function.update st.heap a none
      ledger := .dealloc a layout :: st.ledger } := by
  refine ⟨?_, fun j a' later found' => ?_, droppable.injective⟩
  -- The bucket is freed with the layout it was allocated with.
  · have taken : st.layouts cfg a = some layout := by simp [State.layouts, stored, fits]
    simp only [liveBlocks, droppable.live, taken, if_true, Option.some.injEq]
    funext a'
    by_cases here : a' = a
    · subst here
      simp [State.layouts]
    · simp [State.layouts, Function.update_of_ne here]
  · obtain ⟨bucket', stored', sized⟩ := droppable.stored j a' (Nat.le_of_succ_le later) found'
    refine ⟨bucket', (Function.update_of_ne ?_ _ _).trans stored', sized⟩
    rintro rfl
    have := droppable.injective j i a' found' found
    omega

/-- Dropping the buckets from an index on frees them, and drops each of their values once. -/
theorem dropBuckets_dropped (large : 6 ≤ cfg.width) :
    ∀ {n i : Nat} {st : State τ}, i + n ≤ bucketCount cfg.width → Droppable cfg i st →
      ∃ st' values, dropBuckets cfg n i st = .ok (st', values) ∧ Droppable cfg (i + n) st' ∧
        Dropped i n st st' values := by
  -- The induction is on the number of buckets that remain.
  intro n
  induction n with
  | zero =>
    intro i st _ droppable
    refine ⟨st, [], rfl, droppable, fun a => .inr ⟨rfl, fun j low high => by omega⟩, ?_, ?_⟩
    · intro j e value
      refine ⟨fun member => absurd member (List.not_mem_nil), fun ⟨low, high, _⟩ => by omega⟩
    · exact List.nodup_nil
  | succ n ih =>
    intro i st within droppable
    have shifted : i + (n + 1) = i + 1 + n := by omega
    cases found : st.buckets i with
    | none =>
      have rest : Droppable cfg (i + 1) st :=
        ⟨droppable.live, fun j a later => droppable.stored j a (Nat.le_of_succ_le later),
          droppable.injective⟩
      obtain ⟨st', values, ran, final, dropped⟩ := ih (by omega) rest
      refine ⟨st', values, ?_, shifted ▸ final, fun a => ?_, fun j e value => ?_, dropped.once⟩
      · simp only [dropBuckets, found]
        exact ran
      · rcases dropped.heap a with gone | ⟨same, out⟩
        · exact .inl gone
        · refine .inr ⟨same, fun j low high is => ?_⟩
          rcases Nat.eq_or_lt_of_le low with rfl | later
          · rw [found] at is
            cases is
          · exact out j later (by omega) is
      · rw [dropped.mem]
        constructor
        · rintro ⟨low, high, there⟩
          exact ⟨by omega, by omega, there⟩
        · rintro ⟨low, high, a, bucket, is, there⟩
          refine ⟨?_, by omega, a, bucket, is, there⟩
          rcases Nat.eq_or_lt_of_le low with rfl | later
          · rw [found] at is
            cases is
          · exact later
    | some a =>
      obtain ⟨bucket, stored, capacity, fits⟩ := droppable.stored i a (Nat.le_refl i) found
      have room : i < bucketCount cfg.width := by omega
      have sized := Thread.bucketCapacity_eq large room
      obtain ⟨layout, size⟩ := Option.ne_none_iff_exists'.mp fits
      obtain ⟨st', values, ran, final, dropped⟩ := ih (by omega) (droppable.free found stored size)
      -- A later bucket is another block, so what it holds has not changed.
      have apart : ∀ j, i + 1 ≤ j → st.buckets j ≠ some a := by
        intro j later is
        have := droppable.injective j i a is found
        omega
      refine ⟨st', bucket.values.map (i, ·) ++ values, ?_, shifted ▸ final, fun a' => ?_,
        fun j e value => ?_, ?_⟩
      · rw [capacity] at size
        simp only [dropBuckets, found, stored, sized, freeBucket, size, ran]
      · rcases dropped.heap a' with gone | ⟨same, out⟩
        · exact .inl gone
        · by_cases here : a' = a
          · subst here
            exact .inl (same.trans (Function.update_self ..))
          · refine .inr ⟨same.trans (Function.update_of_ne here _ _), fun j low high is => ?_⟩
            rcases Nat.eq_or_lt_of_le low with rfl | later
            · rw [found] at is
              cases is
              exact here rfl
            · exact out j later (by omega) is
      · rw [List.mem_append, dropped.mem]
        constructor
        · rintro (member | ⟨low, high, a', bucket', is, stored', there⟩)
          · obtain ⟨pair, member, same⟩ := List.mem_map.mp member
            cases same
            exact ⟨Nat.le_refl i, by omega, a, bucket, found, stored, member⟩
          · refine ⟨by omega, by omega, a', bucket', is, ?_, there⟩
            rw [← stored']
            refine (Function.update_of_ne ?_ _ _).symm
            rintro rfl
            exact apart j low is
        · rintro ⟨low, high, a', bucket', is, stored', there⟩
          rcases Nat.eq_or_lt_of_le low with rfl | later
          · rw [found] at is
            cases is
            rw [stored] at stored'
            cases stored'
            exact .inl (List.mem_map.mpr ⟨_, there, rfl⟩)
          · refine .inr ⟨later, by omega, a', bucket', is, ?_, there⟩
            refine (Function.update_of_ne ?_ _ _).trans stored'
            rintro rfl
            exact apart j later is
      · rw [List.map_append, List.map_map]
        refine List.nodup_append.mpr ⟨?_, dropped.once, fun key first key' second same => ?_⟩
        · -- The keys of one bucket differ in their entry.
          have keys : bucket.values.map ((fun value : Nat × Nat × τ => (value.1, value.2.1)) ∘ (i, ·)) =
              (bucket.values.map Prod.fst).map (i, ·) := by
            rw [List.map_map]
            rfl
          rw [keys]
          exact List.Pairwise.map _ (fun _ _ differ same => differ (Prod.mk.inj same).2)
            bucket.values_nodup
        · obtain ⟨pair, _, key⟩ := List.mem_map.mp first
          obtain ⟨⟨j, e, value⟩, member, key'⟩ := List.mem_map.mp second
          have later := ((dropped.mem j e value).mp member).1
          have is : i = j := congrArg Prod.fst (key.trans (same.trans key'.symm))
          omega

/-- Allocating one more initial bucket. -/
theorem Booked.grow {count : Nat} (held : Held cfg addr 0 count st) (booked : Booked cfg st)
    (free : st.heap (addr count) = none) (fits : bucketLayout cfg (2 ^ (count + 5)) ≠ none) :
    Booked cfg { st with
      heap := Function.update st.heap (addr count) (some (emptyBucket τ (2 ^ (count + 5))))
      ledger := .alloc (addr count) (layoutOf cfg count) :: st.ledger
      buckets := Function.update st.buckets count (some (addr count)) } := by
  refine ⟨booked.alloc free (bucketLayout_eq fits) rfl, fun a bucket stored => ?_, fun a stored => ?_⟩
  · by_cases here : a = addr count
    · subst here
      simp only [Function.update_self, Option.some.injEq] at stored
      rw [← stored]
      exact fits
    · simp only [Function.update_of_ne here] at stored
      exact booked.fits a bucket stored
  · -- Every block is one of the initial buckets.
    obtain ⟨i, _, inside, is⟩ := (held.grow free).only a stored
    refine .inl ⟨i, ?_⟩
    rw [(held.grow free).buckets, if_pos inside, is]

/-- The loop that creates a container allocates every bucket. -/
theorem initBuckets_created (large : 6 ≤ cfg.width) :
    ∀ {n i : Nat} {st : State τ}, i + n ≤ bucketCount cfg.width →
      Held cfg (addrOf answers) 0 i st → Booked cfg st →
      initBuckets cfg answers n i st = .ok (st', true) →
      Held cfg (addrOf answers) 0 (i + n) st' ∧ Booked cfg st' := by
  intro n
  induction n with
  | zero =>
    intro i st _ held booked ran
    cases ran
    exact ⟨held, booked⟩
  | succ n ih =>
    intro i st within held booked ran
    have room : i < bucketCount cfg.width := by omega
    have shifted : i + (n + 1) = i + 1 + n := by omega
    simp only [initBuckets, Thread.bucketCapacity_eq large room] at ran
    unfold allocateBucket at ran
    -- A refused request ends the loop with `false`, so here every one is granted.
    cases fits : bucketLayout cfg (2 ^ (i + 5)) with
    | none =>
      simp only [fits] at ran
      split at ran <;> cases ran
    | some layout =>
      cases answer : answers i with
      | none =>
        simp only [fits, answer] at ran
        split at ran <;> cases ran
      | some a =>
        have named : a = addrOf answers i := by rw [addrOf, answer, Option.getD_some]
        subst named
        cases free : st.heap (addrOf answers i) with
        | some bucket => simp [fits, answer, free] at ran
        | none =>
          have known : bucketLayout cfg (2 ^ (i + 5)) ≠ none := by simp [fits]
          have size : layout = layoutOf cfg i :=
            Option.some.inj (fits.symm.trans (bucketLayout_eq known))
          subst size
          simp only [fits, answer, free] at ran
          rw [shifted]
          exact ih (by omega) (held.grow free) (booked.grow held free known) ran

/-- What holds of every state of a container between two steps. -/
structure Sound (cfg : Config) (st : State τ) : Prop where
  inv : Inv cfg st
  booked : Booked cfg st
  refined : Refined cfg st

/-- A new container has no values and no events. -/
theorem Held.refined {count : Nat} (held : Held cfg addr 0 count st) : Refined cfg st := by
  intro id
  -- No slot holds a value yet.
  have empty : (st.slot cfg id).held = none := by
    unfold State.slot
    split
    · rename_i thread found
      by_cases inside : thread.bucket < count
      · have stored := held.stored thread.bucket (Nat.zero_le _) inside
        simp [State.entryAt, held.buckets, inside, stored, emptyBucket, Entry.held]
      · simp [State.entryAt, held.buckets, inside, Entry.held]
    · rfl
  refine ⟨none, .idle none, fun t call found => ?_, ?_, .return empty⟩
  · rw [held.calls] at found
    cases found
  · rw [held.log]
    exact .nil

/-- A container that `with_capacity_in` returned has its initial buckets. -/
theorem created_held {n : Nat} (large : 6 ≤ cfg.width)
    (created : withCapacityIn τ cfg n answers = .ok (st, true)) :
    ∃ count ≤ bucketCount cfg.width, Held cfg (addrOf answers) 0 count st ∧ Booked cfg st := by
  -- An ID beyond the limit makes the call panic.
  cases found : Thread.new cfg.width n with
  | error fault =>
    have positive : n ≠ 0 := by
      rintro rfl
      rw [Thread.new_eq large (Nat.zero_le _)] at found
      cases found
    simp [withCapacityIn, positive, found] at created
  | ok thread =>
    have within := (Thread.new_spec large (Thread.small_of_new found) found).2.1
    rw [withCapacityIn_eq large found] at created
    have blank : Booked cfg (State.blank τ) := by
      refine ⟨?_, fun a bucket stored => ?_, fun a stored => absurd rfl stored⟩
      · rfl
      · cases stored
    exact ⟨0 + (thread.bucket + 1), by omega,
      initBuckets_created large (by omega) Held.blank blank created⟩

/-- A container that `with_capacity_in` returned is sound. -/
theorem created_sound {n : Nat} (large : 6 ≤ cfg.width)
    (created : withCapacityIn τ cfg n answers = .ok (st, true)) : Sound cfg st := by
  obtain ⟨count, within, held, booked⟩ := created_held large created
  exact ⟨held.inv within, booked, held.refined⟩

/-- The run lemma: every state of a container is sound. -/
theorem reachable_sound {n : Nat} {start : State τ} (large : 6 ≤ cfg.width)
    (created : withCapacityIn τ cfg n answers = .ok (start, true))
    (run : Reachable (step cfg) UniqueAccess start st) : Sound cfg st := by
  refine run.invariant (Sound cfg) (created_sound large created) ?_
  intro st action st' _ sound access ran
  have moved := step_move ran
  exact ⟨moved.inv large access sound.inv, moved.booked large sound.inv sound.booked,
    moved.refined large access sound.inv sound.refined⟩

/-- A slot that a call has loaded can be dereferenced. -/
theorem Inv.deref {call : Call} (large : 6 ≤ cfg.width) (inv : Inv cfg st)
    (called : st.calls t = some call) (found : st.buckets call.thread.bucket = some a) :
    ∃ bucket, deref st a call.thread.entry = .ok bucket ∧ st.heap a = some bucket := by
  have slot := inv.slots t call called
  have inside := (Thread.new_spec large (Thread.small_of_new slot) slot).2.2.1
  obtain ⟨_, bucket, stored, sized⟩ := inv.buckets _ a found
  rw [← sized] at inside
  exact ⟨bucket, by simp [Tls.deref, stored, inside], stored⟩

/-- No step of a call has undefined behaviour or panics. -/
theorem Sound.call_defined {stop : Stop} (large : 6 ≤ cfg.width) (sound : Sound cfg st)
    (call : ∀ i, action ≠ .iter i ∧ action ≠ .next i) (failed : step cfg st action = .error stop) :
    stop = .disabled := by
  have inv := sound.inv
  cases action with
  | loadOr t id =>
    simp only [step, begin] at failed
    split at failed <;> cases failed
    rfl
  | get t id =>
    simp only [step, begin] at failed
    split at failed <;> cases failed
    rfl
  | step t =>
    simp only [step] at failed
    split at failed
    · unfold loadStep at failed
      split at failed <;> cases failed
    · rename_i thread new called
      have slot : Thread.new cfg.width thread.id = .ok thread := inv.slots t _ called
      have within := (Thread.new_spec large (Thread.small_of_new slot) slot).2.1
      have stored : st.heap new = some (emptyBucket τ (2 ^ (thread.bucket + 5))) :=
        (inv.calls t _ called).1
      -- The layout was computed once before, when the bucket was allocated.
      have fits : bucketLayout cfg (2 ^ (thread.bucket + 5)) ≠ none := sound.booked.fits new _ stored
      unfold exchangeStep at failed
      split at failed
      · cases failed
      · simp [Thread.bucketCapacity_eq large within, freeBucket, stored, bucketLayout_eq fits] at failed
    · rename_i thread a called
      obtain ⟨bucket, read, stored⟩ := inv.deref large called (inv.calls t _ called)
      have found : st.buckets thread.bucket = some a := inv.calls t _ called
      have read : deref st a thread.entry = .ok bucket := read
      unfold checkStep at failed
      rw [read] at failed
      dsimp only at failed
      split at failed
      · rename_i marked
        have value := inv.values thread.bucket thread.entry _ (State.entryAt_eq found stored) marked
        obtain ⟨v, held⟩ := Option.ne_none_iff_exists'.mp value
        simp [readEntry, held] at failed
      · cases failed
    · rename_i thread a called
      obtain ⟨there, value, held⟩ := inv.calls t _ called
      obtain ⟨bucket, read, stored⟩ := inv.deref large called there
      have read : deref st a thread.entry = .ok bucket := read
      rw [State.entryAt_eq there stored] at held
      have entry : (bucket.entries thread.entry).value = some value := by
        rw [Option.some.inj held]
      simp [storeStep, read, readEntry, entry] at failed
    · unfold getStep at failed
      split at failed <;> cases failed
    · rename_i thread a called
      obtain ⟨bucket, read, stored⟩ := inv.deref large called (inv.calls t _ called)
      have found : st.buckets thread.bucket = some a := inv.calls t _ called
      have read : deref st a thread.entry = .ok bucket := read
      unfold getCheckStep at failed
      rw [read] at failed
      dsimp only at failed
      split at failed
      · rename_i marked
        have value := inv.values thread.bucket thread.entry _ (State.entryAt_eq found stored) marked
        obtain ⟨v, held⟩ := Option.ne_none_iff_exists'.mp value
        simp [readEntry, held] at failed
      · cases failed
    · cases failed
      rfl
  | allocate t answer =>
    simp only [step] at failed
    split at failed
    · rename_i thread called
      have slot : Thread.new cfg.width thread.id = .ok thread := inv.slots t _ called
      have within := (Thread.new_spec large (Thread.small_of_new slot) slot).2.1
      simp only [allocateStep, Thread.bucketCapacity_eq large within] at failed
      unfold allocateBucket at failed
      split at failed
      · rename_i stop' allocated
        cases failed
        split at allocated
        · split at allocated
          · cases allocated
            rfl
          · cases allocated
        · cases allocated
      · cases failed
      · cases failed
    · cases failed
      rfl
  | create t value =>
    simp only [step] at failed
    split at failed
    · rename_i thread a called
      obtain ⟨bucket, read, stored⟩ := inv.deref large called (inv.calls t _ called).1
      have read : deref st a thread.entry = .ok bucket := read
      simp [writeStep, read] at failed
    · cases failed
      rfl
  | iter i => exact absurd rfl (call i).1
  | next i => exact absurd rfl (call i).2

/-- A state without calls can be dropped, and nothing is left afterwards. -/
theorem Sound.drop (large : 6 ≤ cfg.width) (sound : Sound cfg st) (quiet : ∀ t, st.calls t = none) :
    ∃ st' values, dropBuckets cfg (bucketCount cfg.width) 0 st = .ok (st', values) ∧
      Dropped 0 (bucketCount cfg.width) st st' values ∧ (∀ a, st'.heap a = none) ∧
        liveBlocks st'.ledger = some fun _ => none := by
  have droppable : Droppable cfg 0 st := by
    refine ⟨sound.booked.live, fun j a _ found => ?_, sound.inv.injective⟩
    obtain ⟨_, bucket, stored, sized⟩ := sound.inv.buckets j a found
    exact ⟨bucket, stored, sized, sound.booked.fits a bucket stored⟩
  obtain ⟨st', values, ran, final, dropped⟩ :=
    dropBuckets_dropped (n := bucketCount cfg.width) large (by omega) droppable
  have empty : ∀ a, st'.heap a = none := by
    intro a
    rcases dropped.heap a with gone | ⟨same, out⟩
    · exact gone
    · -- A block that nobody is installing is installed.
      by_contra stored
      rw [same] at stored
      rcases sound.booked.owned a stored with ⟨i, found⟩ | ⟨t, thread, call⟩
      · have within := (sound.inv.buckets i a found).1
        exact out i (Nat.zero_le i) (by omega) found
      · rw [quiet t] at call
        cases call
  refine ⟨st', values, ran, dropped, empty, ?_⟩
  rw [final.live]
  congr 1
  funext a
  simp [State.layouts, empty a]

/-- A `ThreadLocal` behaves as one map from IDs to values. -/
structure RefinesMap (cfg : Config) (st : State τ) : Prop where
  /-- The calls on every ID are calls on a map, whose value is the one that the container holds. -/
  histories : ∀ id, ∃ cell, Accepts (history st.log id) cell ∧ cell.value = st.map cfg id
  /-- `get` returns a value if and only if `load_or` has installed it. -/
  gets : ∀ id later answer earlier, history st.log id = later ++ .got answer :: earlier →
    ∀ value, answer = some value ↔ .installed value ∈ earlier
  /-- A step changes the map at most at its own ID, by installing a value where there was none. -/
  values : ∀ action st' id, UniqueAccess st action → step cfg st action = .ok st' →
    st'.map cfg id = st.map cfg id ∨ (st.map cfg id = none ∧ ∃ t thread a, action = .step t ∧
      st.calls t = some (.store thread a) ∧ thread.id = id)
  /-- A bucket pointer changes only once, from null to the bucket of the winner. -/
  pointers : ∀ action st' i, step cfg st action = .ok st' → st'.buckets i = st.buckets i ∨
    (st.buckets i = none ∧ ∃ t thread new, action = .step t ∧
      st.calls t = some (.exchange thread new) ∧ st'.buckets i = some new)
  /-- Every thread uses the bucket of the winner. -/
  winner : ∀ t call a, st.calls t = some call → call.loaded = some a →
    st.buckets call.thread.bucket = some a
  /-- A bucket that loses the race contains no entry that is present. -/
  loser : ∀ t thread new, st.calls t = some (.exchange thread new) →
    ∃ bucket, st.heap new = some bucket ∧ ∀ e, (bucket.entries e).present = false
  /-- No step of a call has undefined behaviour or panics. -/
  defined : ∀ action stop, (∀ i, action ≠ .iter i ∧ action ≠ .next i) →
    step cfg st action = .error stop → stop = .disabled
  /-- Dropping the container drops each installed value exactly once. -/
  drop : (∀ t, st.calls t = none) → ∃ st' dropped,
    dropBuckets cfg (bucketCount cfg.width) 0 st = .ok (st', dropped) ∧
      (dropped.map fun value => (value.1, value.2.1)).Nodup ∧
      (∀ id thread value, Thread.new cfg.width id = .ok thread →
        ((thread.bucket, thread.entry, value) ∈ dropped ↔ st.map cfg id = some value)) ∧
      ∀ bucket entry value, (bucket, entry, value) ∈ dropped →
        ∃ id, Thread.new cfg.width id = .ok ⟨id, entry, bucket⟩

/-- A value is dropped if and only if the map has it. -/
theorem Sound.dropped_iff {st₁ : State τ} {values : List (Nat × Nat × τ)} {id : Nat} {value : τ}
    (large : 6 ≤ cfg.width) (dropped : Dropped 0 (bucketCount cfg.width) st st₁ values)
    (sound : Sound cfg st) (found : Thread.new cfg.width id = .ok thread) :
    (thread.bucket, thread.entry, value) ∈ values ↔ st.map cfg id = some value := by
  obtain ⟨_, within, inside, _⟩ := Thread.new_spec large (Thread.small_of_new found) found
  rw [dropped.mem, State.map, State.slot_eq found]
  -- Exactly the values of present entries are dropped.
  constructor
  · rintro ⟨_, _, a, bucket, installed, stored, member⟩
    rw [State.entryAt_eq installed stored]
    exact (Bucket.mem_values.mp member).2
  · intro held
    cases installed : st.buckets thread.bucket with
    | none => simp [State.entryAt, installed, Entry.held] at held
    | some a =>
      obtain ⟨_, bucket, stored, sized⟩ := sound.inv.buckets thread.bucket a installed
      rw [State.entryAt_eq installed stored] at held
      refine ⟨Nat.zero_le _, by omega, a, bucket, rfl, stored, Bucket.mem_values.mpr ⟨?_, held⟩⟩
      rw [sized]
      exact inside

/--
A `ThreadLocal` refines a map from thread IDs to values.

The owners of distinct IDs call `load_or` and `get` in any order, and their calls interleave at every
atomic access.
-/
theorem thread_local_refines_map {start : State τ} (cfg : Config) (capacity : Nat)
    (large : 6 ≤ cfg.width) (created : withCapacityIn τ cfg capacity answers = .ok (start, true))
    (run : Reachable (step cfg) UniqueAccess start st) : RefinesMap cfg st := by
  have sound := reachable_sound large created run
  have inv := sound.inv
  refine ⟨fun id => ?_, fun id later answer earlier split value => ?_,
    fun action st' id access ran => ?_, fun action st' i ran => ?_,
    fun t call a called loaded => ?_, fun t thread new called => ?_,
    fun action stop call => sound.call_defined large call, fun quiet => ?_⟩
  · obtain ⟨call, cell, _, accepted, stands⟩ := sound.refined id
    exact ⟨cell, accepted, stands.value⟩
  · -- The answer is the value of the map when `get` was called.
    obtain ⟨_, cell, _, accepted, _⟩ := sound.refined id
    rw [split] at accepted
    obtain ⟨before, after, accepted, stepped⟩ := accepted.step_of_mem
    cases stepped
    exact accepted.value_iff value
  · rcases (step_move ran).map_cases large inv id with same | ⟨t, thread, a, value, is, call, named, slot, _⟩
    · exact .inl same
    · refine .inr ⟨?_, t, thread, a, is, call, named⟩
      rw [State.map, slot]
      rfl
  · rcases (step_move ran).buckets i with same | ⟨null, t, thread, new, is, call, _, installed⟩
    · exact .inl same
    · exact .inr ⟨null, t, thread, new, is, call, installed⟩
  · have ok := inv.calls t call called
    cases call <;> cases loaded
    · exact ok
    · exact ok.1
    · exact ok.1
    · exact ok
  · exact ⟨_, (inv.calls t _ called).1, fun e => rfl⟩
  · obtain ⟨st', values, ran, dropped, _⟩ := sound.drop large quiet
    refine ⟨st', values, ran, dropped.once, fun id thread value found => ?_,
      fun bucket entry value member => ?_⟩
    · exact sound.dropped_iff large dropped found
    · obtain ⟨_, within, a, content, installed, stored, member⟩ := (dropped.mem _ _ _).mp member
      have inside := (Bucket.mem_values.mp member).1
      obtain ⟨_, content', stored', sized⟩ := inv.buckets bucket a installed
      cases stored.symm.trans stored'
      rw [sized] at inside
      obtain ⟨id, _, found⟩ := Thread.new_surjective large (by omega) inside
      exact ⟨id, found⟩

/-- A step changes the call of the thread that acts only. -/
theorem Move.calls_other (moved : Move cfg st action st') (other : action.tid ≠ some t) :
    st'.calls t = st.calls t := by
  cases moved with
  | iterate => rfl
  | _ => exact Function.update_of_ne (fun is => other (congrArg some is.symm)) _ _

/-- Unique access, decided for the first threads. -/
def uniqueCheck (threads : Nat) (st : State τ) (action : Action τ) : Bool :=
  let free (id : Nat) : Bool :=
    (List.range threads).all fun t => (st.calls t).all fun call => call.thread.id != id
  (action.tid.all fun t => t < threads) &&
    match action with
    | .loadOr _ id => free id
    | .get _ id => free id
    | _ => true

/-- A computed run of the first threads is a run. -/
theorem reachable_of_uniqueCheck {start : State τ} {final : State τ → Bool}
    {actions : List (Action τ)} (threads : Nat) (idle : ∀ t, threads ≤ t → start.calls t = none)
    (checked : checkRun (step cfg) (uniqueCheck threads) final start actions = true) :
    ∃ st, Reachable (step cfg) UniqueAccess start st ∧ final st = true := by
  -- Threads beyond the first ones never have a call, so the check sees every call.
  have sound : ∀ (st : State τ) action, (∀ t, threads ≤ t → st.calls t = none) →
      uniqueCheck threads st action = true → UniqueAccess st action := by
    intro st action idle approved
    simp only [uniqueCheck, Bool.and_eq_true] at approved
    have free : ∀ id, ((List.range threads).all fun t =>
        (st.calls t).all fun call => call.thread.id != id) = true →
        ∀ t call, st.calls t = some call → call.thread.id ≠ id := by
      intro id all t call found
      have inside : t < threads := by
        by_contra outside
        rw [idle t (Nat.le_of_not_lt outside)] at found
        cases found
      have one := List.all_eq_true.mp all t (List.mem_range.mpr inside)
      rw [found] at one
      simpa using one
    cases action with
    | loadOr t id => exact free id approved.2
    | get t id => exact free id approved.2
    | _ => trivial
  have kept : ∀ (st : State τ) action st', (∀ t, threads ≤ t → st.calls t = none) →
      uniqueCheck threads st action = true → step cfg st action = .ok st' →
        ∀ t, threads ≤ t → st'.calls t = none := by
    intro st action st' idle approved ran t beyond
    simp only [uniqueCheck, Bool.and_eq_true] at approved
    rw [(step_move ran).calls_other]
    · exact idle t beyond
    · intro is
      have inside := approved.1
      rw [is] at inside
      simp only [Option.all_some, decide_eq_true_eq] at inside
      omega
  obtain ⟨st, run, _, ended⟩ := Reachable.of_checkRun sound kept idle checked
  exact ⟨st, run, ended⟩

/-- Two threads race for one bucket, and both end up with their value in the bucket of the winner. -/
theorem thread_local_refines_map_race : ∃ start st : State Nat,
    withCapacityIn Nat ⟨64, 256, 128⟩ 0 (fun _ => some 1) = .ok (start, true) ∧
      Reachable (step ⟨64, 256, 128⟩) UniqueAccess start st ∧ RefinesMap ⟨64, 256, 128⟩ st ∧
        st.map ⟨64, 256, 128⟩ 32 = some 10 ∧ st.map ⟨64, 256, 128⟩ 33 = some 20 ∧
          st.buckets 1 = some 3 := by
  have created : ∃ start, withCapacityIn Nat ⟨64, 256, 128⟩ 0 (fun _ => some 1) = .ok (start, true) ∧
      (∀ t, 2 ≤ t → start.calls t = none) ∧ checkRun (step ⟨64, 256, 128⟩) (uniqueCheck 2)
        (fun st => st.map ⟨64, 256, 128⟩ 32 = some 10 ∧ st.map ⟨64, 256, 128⟩ 33 = some 20 ∧
          st.buckets 1 = some 3) start
        [.loadOr 0 32, .loadOr 1 33, .step 0, .step 1, .allocate 0 (some 2), .allocate 1 (some 3),
          .step 1, .step 0, .step 0, .step 1, .create 0 10, .create 1 20, .step 1, .step 0] = true :=
    ⟨_, rfl, fun _ _ => rfl, by decide⟩
  obtain ⟨start, created, idle, checked⟩ := created
  obtain ⟨st, run, ended⟩ := reachable_of_uniqueCheck 2 idle checked
  have ended := of_decide_eq_true ended
  exact ⟨start, st, created, run, thread_local_refines_map _ 0 (by decide) created run, ended⟩

end Seize.Tls
