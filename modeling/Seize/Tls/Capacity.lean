import Seize.Tls.Refine

/-!
Creating a `ThreadLocal` with an initial capacity.

Either all initial buckets are allocated, or the ones that were are handed back.
-/

namespace Seize.Tls

variable {τ : Type} {cfg : Config} {answers : Nat → Option Addr} {addr : Nat → Addr}
  {st st' : State τ} {t : Tid} {thread : Thread} {action : Action τ}

/-- The address of a bucket, where the allocator answers with one. -/
def addrOf (answers : Nat → Option Addr) (i : Nat) : Addr := (answers i).getD 0

/-- The size of the layout of a bucket. -/
def layoutOf (cfg : Config) (i : Nat) : Nat := 2 ^ (i + 5) * cfg.entrySize

/-- The allocation of a bucket fails, because of the allocator or because of the layout. -/
def FailsAt (cfg : Config) (answers : Nat → Option Addr) (i : Nat) : Prop :=
  answers i = none ∨ bucketLayout cfg (2 ^ (i + 5)) = none

/-- The calls that allocate the first buckets, newest first. -/
def allocations (cfg : Config) (addr : Nat → Addr) : Nat → List (MemEvent Addr Nat)
  | 0 => []
  | i + 1 => .alloc (addr i) (layoutOf cfg i) :: allocations cfg addr i

/-- The calls that free the first buckets, newest first. -/
def deallocations (cfg : Config) (addr : Nat → Addr) : Nat → List (MemEvent Addr Nat)
  | 0 => []
  | i + 1 => .dealloc (addr i) (layoutOf cfg i) :: deallocations cfg addr i

/-- The first buckets have been allocated, and a part of them has been freed again. -/
structure Held (cfg : Config) (addr : Nat → Addr) (freed count : Nat) (st : State τ) : Prop where
  buckets : ∀ i, st.buckets i = if i < count then some (addr i) else none
  stored : ∀ i, freed ≤ i → i < count → st.heap (addr i) = some (emptyBucket τ (2 ^ (i + 5)))
  only : ∀ a, st.heap a ≠ none → ∃ i, freed ≤ i ∧ i < count ∧ a = addr i
  calls : ∀ t, st.calls t = none
  iters : ∀ i, st.iters i = none
  log : st.log = []
  ledger : st.ledger = deallocations cfg addr freed ++ allocations cfg addr count

/-- Nothing has been allocated at the start. -/
theorem Held.blank : Held cfg addr 0 0 (State.blank τ) := by
  refine ⟨fun i => ?_, fun i _ inside => ?_, fun a stored => ?_, fun _ => rfl, fun _ => rfl, rfl, rfl⟩
  · simp [State.blank]
  · omega
  · exact absurd rfl stored

/-- The layout of a bucket, where it does not overflow. -/
theorem bucketLayout_eq {i : Nat} (fits : bucketLayout cfg (2 ^ (i + 5)) ≠ none) :
    bucketLayout cfg (2 ^ (i + 5)) = some (layoutOf cfg i) := by
  unfold bucketLayout at fits ⊢
  split
  · rfl
  · rename_i overflow
    exact absurd (if_neg overflow) fits

/-- One more bucket is allocated. -/
theorem Held.grow {count : Nat} (held : Held cfg addr 0 count st) (fresh : st.heap (addr count) = none) :
    Held cfg addr 0 (count + 1) { st with
      heap := Function.update st.heap (addr count) (some (emptyBucket τ (2 ^ (count + 5))))
      ledger := .alloc (addr count) (layoutOf cfg count) :: st.ledger
      buckets := Function.update st.buckets count (some (addr count)) } := by
  refine ⟨fun i => ?_, fun i _ inside => ?_, fun a stored => ?_, held.calls, held.iters, held.log, ?_⟩
  · by_cases here : i = count
    · simp [here]
    · have same : i < count + 1 ↔ i < count := by omega
      simp only [Function.update_of_ne here, held.buckets, same]
  · by_cases here : addr i = addr count
    · -- An address in use is not answered again.
      have is : i = count := by
        by_contra other
        have old := held.stored i (Nat.zero_le i) (by omega)
        rw [here, fresh] at old
        cases old
      subst is
      simp
    · have other : i ≠ count := fun is => here (by rw [is])
      simp only [Function.update_of_ne here]
      exact held.stored i (Nat.zero_le i) (by omega)
  · by_cases here : a = addr count
    · exact ⟨count, Nat.zero_le _, Nat.lt_succ_self _, here⟩
    · simp only [Function.update_of_ne here] at stored
      obtain ⟨i, low, inside, is⟩ := held.only a stored
      exact ⟨i, low, Nat.lt_succ_of_lt inside, is⟩
  · simp [held.ledger, deallocations, allocations]

/-- The buckets have different capacities, so they have different addresses. -/
theorem Held.distinct {count : Nat} (held : Held cfg addr 0 count st) {i j : Nat} (first : i < count)
    (second : j < count) (same : addr i = addr j) : i = j := by
  have stored := held.stored i (Nat.zero_le i) first
  rw [same, held.stored j (Nat.zero_le j) second] at stored
  have capacities : 2 ^ (j + 5) = 2 ^ (i + 5) := congrArg Bucket.capacity (Option.some.inj stored)
  have := Nat.pow_right_injective (Nat.le_refl 2) capacities
  omega

/-- One more bucket is freed. -/
theorem Held.shrink {freed count : Nat} (held : Held cfg addr freed count st)
    (distinct : ∀ i j, i < count → j < count → addr i = addr j → i = j) (inside : freed < count) :
    Held cfg addr (freed + 1) count { st with
      heap := Function.update st.heap (addr freed) none
      ledger := .dealloc (addr freed) (layoutOf cfg freed) :: st.ledger } := by
  -- The address that is freed is that of one bucket only.
  refine ⟨held.buckets, fun i low high => ?_, fun a stored => ?_, held.calls, held.iters, held.log, ?_⟩
  · have other : addr i ≠ addr freed := by
      intro same
      have := distinct i freed high inside same
      omega
    simp only [Function.update_of_ne other]
    exact held.stored i (by omega) high
  · by_cases here : a = addr freed
    · simp [here] at stored
    · simp only [Function.update_of_ne here] at stored
      obtain ⟨i, low, high, is⟩ := held.only a stored
      refine ⟨i, Nat.lt_of_le_of_ne low fun same => ?_, high, is⟩
      exact here (by rw [is, ← same])
  · simp [held.ledger, deallocations]

/-- The rollback frees every bucket that was allocated, in order. -/
theorem rollback_held {count : Nat} (large : 6 ≤ cfg.width) (within : count ≤ bucketCount cfg.width)
    (distinct : ∀ i j, i < count → j < count → addr i = addr j → i = j)
    (fits : ∀ i < count, bucketLayout cfg (2 ^ (i + 5)) ≠ none) :
    ∀ {n freed : Nat} {st : State τ}, Held cfg addr freed count st → freed + n = count →
      ∃ st', rollback cfg n freed st = .ok st' ∧ Held cfg addr count count st' := by
  -- The induction is on the number of buckets that remain to be freed.
  intro n
  induction n with
  | zero =>
    intro freed st held all
    cases all
    exact ⟨st, rfl, held⟩
  | succ n ih =>
    intro freed st held all
    have inside : freed < count := by omega
    have found : st.buckets freed = some (addr freed) := by rw [held.buckets, if_pos inside]
    have sized := Thread.bucketCapacity_eq large (Nat.lt_of_lt_of_le inside within)
    have stored := held.stored freed (Nat.le_refl _) inside
    obtain ⟨st', ran, held'⟩ := ih (held.shrink distinct inside) (by omega)
    refine ⟨st', ?_, held'⟩
    simp only [rollback, found, sized, freeBucket, stored, bucketLayout_eq (fits freed inside)]
    exact ran

/-- The loop allocates every bucket, or stops at the first that fails. -/
theorem initBuckets_held (large : 6 ≤ cfg.width)
    (fresh : ∀ i j a, answers i = some a → answers j = some a → i = j)
    (answered : ∀ i a, answers i = some a → a = addr i) :
    ∀ {n i : Nat} {st : State τ}, i + n ≤ bucketCount cfg.width → Held cfg addr 0 i st →
      (∀ j < i, ¬ FailsAt cfg answers j) →
      ((∀ j < i + n, ¬ FailsAt cfg answers j) →
        ∃ st', initBuckets cfg answers n i st = .ok (st', true) ∧ Held cfg addr 0 (i + n) st') ∧
      ∀ k, i ≤ k → k < i + n → FailsAt cfg answers k → (∀ j < k, ¬ FailsAt cfg answers j) →
        ∃ st', initBuckets cfg answers n i st = .ok (st', false) ∧ Held cfg addr k k st' := by
  -- A bucket that does not fail has an answer and a layout.
  have good : ∀ j, ¬ FailsAt cfg answers j →
      answers j = some (addr j) ∧ bucketLayout cfg (2 ^ (j + 5)) ≠ none := by
    intro j ok
    refine ⟨?_, fun overflow => ok (.inr overflow)⟩
    cases answer : answers j with
    | none => exact absurd (.inl answer) ok
    | some a => rw [answered j a answer]
  intro n
  induction n with
  | zero =>
    intro i st within held earlier
    exact ⟨fun _ => ⟨st, rfl, held⟩, fun k low high => by omega⟩
  | succ n ih =>
    intro i st within held earlier
    have room : i < bucketCount cfg.width := by omega
    have sized := Thread.bucketCapacity_eq large room
    by_cases failed : FailsAt cfg answers i
    · -- This is the bucket that fails, and everything before it is rolled back.
      obtain ⟨st', ran, held'⟩ := rollback_held large (by omega)
        (fun j k first second => held.distinct first second)
        (fun j before => (good j (earlier j before)).2) held (Nat.zero_add i)
      refine ⟨fun ok => absurd failed (ok i (by omega)), fun k low high isFailure first => ?_⟩
      have is : k = i := by
        by_contra other
        exact first i (by omega) failed
      subst is
      refine ⟨st', ?_, held'⟩
      have refused : allocateBucket cfg st (2 ^ (k + 5)) (answers k) = .ok none := by
        unfold allocateBucket
        rcases failed with refused | overflow
        · rw [refused]
          cases bucketLayout cfg (2 ^ (k + 5)) <;> rfl
        · rw [overflow]
      simp only [initBuckets, sized, refused, ran]
    · obtain ⟨answer, fits⟩ := good i failed
      have free : st.heap (addr i) = none := by
        by_contra stored
        obtain ⟨j, _, before, same⟩ := held.only _ stored
        rw [same] at answer
        have := fresh i j _ answer (good j (earlier j before)).1
        omega
      have next := ih (i := i + 1) (by omega) (held.grow free) fun j before => by
        rcases Nat.lt_succ_iff_lt_or_eq.mp before with old | rfl
        · exact earlier j old
        · exact failed
      have unrolled : initBuckets cfg answers (n + 1) i st = initBuckets cfg answers n (i + 1)
          { st with
            heap := Function.update st.heap (addr i) (some (emptyBucket τ (2 ^ (i + 5))))
            ledger := .alloc (addr i) (layoutOf cfg i) :: st.ledger
            buckets := Function.update st.buckets i (some (addr i)) } := by
        simp only [initBuckets, sized, allocateBucket, bucketLayout_eq fits, answer, free]
      have shifted : i + 1 + n = i + (n + 1) := by omega
      rw [unrolled]
      rw [shifted] at next
      refine ⟨next.1, fun k low high isFailure first => ?_⟩
      have later : i + 1 ≤ k := by
        rcases Nat.eq_or_lt_of_le low with rfl | later
        · exact absurd isFailure failed
        · exact later
      exact next.2 k later high isFailure first

/-- What `with_capacity_in` returns when no allocation fails. -/
structure Preallocated (cfg : Config) (addr : Nat → Addr) (last : Nat) (st : State τ) : Prop where
  /-- Exactly the first buckets are allocated. -/
  buckets : ∀ i, st.buckets i = if i ≤ last then some (addr i) else none
  /-- Each has its own capacity, and no entry is present. -/
  stored : ∀ i ≤ last, ∃ capacity, Thread.bucketCapacity cfg.width i = .ok capacity ∧
    st.heap (addr i) = some (emptyBucket τ capacity)
  /-- Nothing else is allocated. -/
  only : ∀ a, st.heap a ≠ none → ∃ i ≤ last, a = addr i
  /-- Each was allocated once. -/
  ledger : st.ledger = allocations cfg addr (last + 1)

/-- What `with_capacity_in` leaves behind when the allocation of a bucket fails. -/
structure RolledBack (cfg : Config) (addr : Nat → Addr) (failed : Nat) (st : State τ) : Prop where
  /-- Nothing is allocated. -/
  empty : ∀ a, st.heap a = none
  /-- The buckets before the failed one were allocated, and each was freed with the same layout. -/
  ledger : st.ledger = deallocations cfg addr failed ++ allocations cfg addr failed

/-- A container with its initial buckets. -/
theorem Held.preallocated {last : Nat} (large : 6 ≤ cfg.width) (within : last < bucketCount cfg.width)
    (held : Held cfg addr 0 (last + 1) st) : Preallocated cfg addr last st := by
  refine ⟨fun i => ?_, fun i inside => ?_, fun a stored => ?_, held.ledger⟩
  · rw [held.buckets]
    simp only [Nat.lt_succ_iff]
  · exact ⟨_, Thread.bucketCapacity_eq large (Nat.lt_of_le_of_lt inside within),
      held.stored i (Nat.zero_le i) (Nat.lt_succ_of_le inside)⟩
  · obtain ⟨i, _, inside, is⟩ := held.only a stored
    exact ⟨i, Nat.le_of_lt_succ inside, is⟩

/-- A container that was rolled back. -/
theorem Held.rolledBack {failed : Nat} (held : Held cfg addr failed failed st) :
    RolledBack cfg addr failed st := by
  refine ⟨fun a => ?_, held.ledger⟩
  by_contra stored
  obtain ⟨i, low, high, _⟩ := held.only a stored
  omega

/-- A new container has no calls and no values. -/
theorem Held.inv {count : Nat} (within : count ≤ bucketCount cfg.width)
    (held : Held cfg addr 0 count st) : Inv cfg st := by
  -- A bucket that is installed is one of the first.
  have installed : ∀ i a, st.buckets i = some a → i < count ∧ a = addr i := by
    intro i a found
    rw [held.buckets] at found
    split at found
    · rename_i inside
      exact ⟨inside, (Option.some.inj found).symm⟩
    · cases found
  have none : ∀ t call, st.calls t ≠ some call := by
    intro t call found
    rw [held.calls] at found
    cases found
  refine ⟨fun t call found => absurd found (none t call), fun t call found => absurd found (none t call),
    fun t _ call _ found => absurd found (none t call), fun t _ _ _ _ found => absurd found (none t _),
    fun i a found => ?_, fun i j a first second => ?_, fun i e entry read marked => ?_⟩
  · obtain ⟨inside, rfl⟩ := installed i a found
    exact ⟨Nat.lt_of_lt_of_le inside within, _, held.stored i (Nat.zero_le i) inside, rfl⟩
  · obtain ⟨inside, rfl⟩ := installed i a first
    obtain ⟨inside', same⟩ := installed j _ second
    exact held.distinct inside inside' same
  · cases found : st.buckets i with
    | none =>
      simp [State.entryAt, found] at read
    | some a =>
      obtain ⟨inside, rfl⟩ := installed i a found
      rw [State.entryAt_eq found (held.stored i (Nat.zero_le i) inside)] at read
      cases read
      cases marked

/-- The first ID is in the first bucket. -/
theorem Thread.bucket_zero (large : 6 ≤ cfg.width) (found : Thread.new cfg.width 0 = .ok thread) :
    thread.bucket = 0 := by
  obtain ⟨_, _, _, sum⟩ := Thread.new_spec large (Nat.zero_le _) found
  by_contra later
  have : 2 ^ 6 ≤ 2 ^ (thread.bucket + 5) := Nat.pow_le_pow_right (by omega) (by omega)
  omega

/-- The capacity zero needs no case of its own: it initializes the bucket of the first ID. -/
theorem withCapacityIn_eq {n : Nat} (large : 6 ≤ cfg.width)
    (found : Thread.new cfg.width n = .ok thread) :
    withCapacityIn τ cfg n answers = initBuckets cfg answers (thread.bucket + 1) 0 (.blank τ) := by
  unfold withCapacityIn
  split
  · rename_i zero
    rw [zero] at found
    rw [Thread.bucket_zero large found]
  · rw [found]

/-- No call is about to allocate one of the first buckets, which are all there. -/
structure Covered (last : Nat) (st : State τ) : Prop where
  installed : ∀ i ≤ last, st.buckets i ≠ none
  calls : ∀ t thread, st.calls t = some (.allocate thread) → last < thread.bucket

/-- A bucket that is installed stays, so a call that finds none is for a later one. -/
theorem Move.covered {last : Nat} (moved : Move cfg st action st') (covered : Covered last st) :
    Covered last st' := by
  -- Only the call of the thread that moves changes.
  have keep : ∀ {t : Tid} {next : Option Call} {st₂ : State τ}, st₂.buckets = st.buckets →
      st₂.calls = Function.update st.calls t next →
      (∀ thread, next = some (.allocate thread) → last < thread.bucket) → Covered last st₂ := by
    intro t next st₂ buckets calls own
    refine ⟨fun i inside => buckets ▸ covered.installed i inside, fun t' thread found => ?_⟩
    rw [calls] at found
    by_cases here : t' = t
    · rw [here, Function.update_self] at found
      exact own thread found
    · rw [Function.update_of_ne here] at found
      exact covered.calls t' thread found
  cases moved with
  | @loadNull t thread call null =>
    refine keep rfl rfl fun thread' is => ?_
    cases is
    by_contra inside
    exact covered.installed thread.bucket (Nat.le_of_not_lt inside) null
  | @win t thread new call null =>
    refine ⟨fun i inside => ?_, fun t' thread' found => ?_⟩
    · by_cases here : i = thread.bucket
      · simp [State.setCall, here]
      · simpa [State.setCall, Function.update_of_ne here] using covered.installed i inside
    · by_cases here : t' = t
      · simp [State.setCall, here] at found
      · simp only [State.setCall, Function.update_of_ne here] at found
        exact covered.calls t' thread' found
  | iterate iters => exact ⟨covered.installed, covered.calls⟩
  | loadOr => exact keep rfl rfl fun _ is => by cases is
  | get => exact keep rfl rfl fun _ is => by cases is
  | loadSome => exact keep rfl rfl fun _ is => by cases is
  | allocateFail => exact keep rfl rfl fun _ is => by cases is
  | allocate => exact keep rfl rfl fun _ is => by cases is
  | lose => exact keep rfl rfl fun _ is => by cases is
  | present => exact keep rfl rfl fun _ is => by cases is
  | absent => exact keep rfl rfl fun _ is => by cases is
  | write => exact keep rfl rfl fun _ is => by cases is
  | store => exact keep rfl rfl fun _ is => by cases is
  | getNull => exact keep rfl rfl fun _ is => by cases is
  | getSome => exact keep rfl rfl fun _ is => by cases is
  | gotSome => exact keep rfl rfl fun _ is => by cases is
  | gotNone => exact keep rfl rfl fun _ is => by cases is

/-- The invariant holds in every state of a run from a new container. -/
theorem reachable_inv {start : State τ} (large : 6 ≤ cfg.width) (base : Inv cfg start)
    (run : Reachable (step cfg) UniqueAccess start st) : Inv cfg st :=
  run.invariant (Inv cfg) base fun _ _ _ _ inv access ran => (step_move ran).inv large access inv

/-- No ID up to the initial capacity ever makes a call allocate. -/
theorem Held.never_allocates {n : Nat} {start : State τ} (large : 6 ≤ cfg.width)
    (found : Thread.new cfg.width n = .ok thread) (held : Held cfg addr 0 (thread.bucket + 1) start)
    (run : Reachable (step cfg) UniqueAccess start st) :
    ∀ t thread', st.calls t = some (.allocate thread') → n < thread'.id := by
  have small := Thread.small_of_new found
  have within := (Thread.new_spec large small found).2.1
  have inv : Inv cfg st := reachable_inv large (held.inv within) run
  have covered : Covered thread.bucket st := by
    refine run.invariant (Covered thread.bucket) ⟨fun i inside => ?_, fun t thread' called => ?_⟩
      fun _ _ _ _ covered _ ran => (step_move ran).covered covered
    · rw [held.buckets, if_pos (Nat.lt_succ_of_le inside)]
      exact Option.some_ne_none _
    · rw [held.calls] at called
      cases called
  intro t thread' called
  have slot : Thread.new cfg.width thread'.id = .ok thread' := inv.slots t _ called
  have later := covered.calls t thread' called
  -- IDs up to the capacity are in its bucket or an earlier one.
  by_contra atMost
  rcases Nat.lt_or_eq_of_le (Nat.le_of_not_lt atMost) with less | same
  · have := Thread.new_monotone large (Thread.small_of_new slot) small slot found less
    omega
  · rw [same, found] at slot
    cases slot
    omega

/--
Creating a container either allocates the initial buckets or nothing.

An allocator that works never answers with a block it has handed out before.
-/
theorem with_capacity_in_all_or_nothing (τ : Type) (cfg : Config) (n : Nat) (large : 6 ≤ cfg.width)
    (small : n ≤ maxIndex cfg.width)
    (fresh : ∀ i j a, answers i = some a → answers j = some a → i = j) :
    ∃ thread, Thread.new cfg.width n = .ok thread ∧
      ((∀ i ≤ thread.bucket, ¬ FailsAt cfg answers i) →
        ∃ st, withCapacityIn τ cfg n answers = .ok (st, true) ∧
          Preallocated cfg (addrOf answers) thread.bucket st ∧
            ∀ st', Reachable (step cfg) UniqueAccess st st' →
              ∀ t thread', st'.calls t = some (.allocate thread') → n < thread'.id) ∧
      ∀ i ≤ thread.bucket, FailsAt cfg answers i → (∀ j < i, ¬ FailsAt cfg answers j) →
        ∃ st : State τ, withCapacityIn τ cfg n answers = .ok (st, false) ∧
          RolledBack cfg (addrOf answers) i st := by
  have found := Thread.new_eq large small
  generalize slot : (⟨n, n + 32 - 2 ^ logOf n, logOf n - 5⟩ : Thread) = thread at found
  have within := (Thread.new_spec large small found).2.1
  have answered : ∀ i a, answers i = some a → a = addrOf answers i := by
    intro i a answer
    rw [addrOf, answer, Option.getD_some]
  obtain ⟨succeeds, fails⟩ := initBuckets_held (τ := τ) (n := thread.bucket + 1) large fresh answered
    (by omega) Held.blank (fun j before => absurd before (Nat.not_lt_zero j))
  rw [Nat.zero_add] at succeeds fails
  refine ⟨thread, found, fun ok => ?_, fun i inside failed first => ?_⟩
  · obtain ⟨st, ran, held⟩ := succeeds fun j before => ok j (Nat.le_of_lt_succ before)
    exact ⟨st, (withCapacityIn_eq large found).trans ran, held.preallocated large within,
      fun st' run => held.never_allocates large found run⟩
  · obtain ⟨st, ran, held⟩ := fails i (Nat.zero_le i) (Nat.lt_succ_of_le inside) failed first
    exact ⟨st, (withCapacityIn_eq large found).trans ran, held.rolledBack⟩

/-- An allocator that refuses the second bucket gets the first one back. -/
theorem with_capacity_in_all_or_nothing_secondRefused : ∃ st : State Nat,
    withCapacityIn Nat ⟨64, 256, 128⟩ 33 (fun i => if i = 0 then some 7 else none) = .ok (st, false) ∧
      RolledBack ⟨64, 256, 128⟩ (addrOf fun i => if i = 0 then some 7 else none) 1 st := by
  have fresh : ∀ i j a, (if i = 0 then some 7 else none) = some a →
      (if j = 0 then some 7 else none) = some a → i = j := by
    intro i j a first second
    split at first
    · split at second
      · omega
      · cases second
    · cases first
  obtain ⟨thread, found, _, fails⟩ := with_capacity_in_all_or_nothing Nat ⟨64, 256, 128⟩ 33
    (by decide) (by decide) fresh
  have slot : Thread.new 64 33 = .ok ⟨33, 1, 1⟩ := by decide
  cases slot.symm.trans found
  refine fails 1 (Nat.le_refl 1) (.inl rfl) fun j before failed => ?_
  have zero : j = 0 := by omega
  subst zero
  rcases failed with refused | overflow
  · cases refused
  · revert overflow
    decide

end Seize.Tls
