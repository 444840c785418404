import Seize.Lib.Run
import Mathlib.Algebra.Group.Nat.Defs
import Mathlib.Data.Nat.Log
import Mathlib.Data.List.Perm.Subperm
import Mathlib.Data.List.MinMax

/-! Thread IDs: the manager that hands them out, and the slots of a triangular vector they name. -/

namespace Seize.Tls

/-- An allocator for thread IDs. The free list stands for the heap, whose `pop` takes the least ID. -/
structure ThreadIdManager where
  freeFrom : Nat
  freeList : List Nat
  deriving DecidableEq, Repr

namespace ThreadIdManager

/-- A manager that has handed out nothing. -/
def new : ThreadIdManager := ⟨0, []⟩

/--
Allocate a new thread ID, for a `usize` of the given width.

There is no result when `free_from` overflows, where the code panics.
-/
def alloc (width : Nat) (manager : ThreadIdManager) : Option (Nat × ThreadIdManager) :=
  match manager.freeList.min? with
  | some id => some (id, { manager with freeList := manager.freeList.erase id })
  | none =>
    if manager.freeFrom + 1 < 2 ^ width then
      some (manager.freeFrom, { manager with freeFrom := manager.freeFrom + 1 })
    else none

/-- Free a thread ID for reuse. The ID is lost when the heap cannot reserve space for it. -/
def free (manager : ThreadIdManager) (reserved : Bool) (id : Nat) : ThreadIdManager :=
  if reserved then { manager with freeList := id :: manager.freeList } else manager

end ThreadIdManager

/-- A manager together with the IDs that are in use, and those that could not be recycled. -/
structure Usage where
  manager : ThreadIdManager
  live : List Nat
  lost : List Nat
  deriving DecidableEq, Repr

/-- What the owners of IDs ask of the manager. -/
inductive Request where
  | alloc
  | free (id : Nat) (reserved : Bool)
  deriving DecidableEq, Repr

namespace Usage

/-- Nothing has been handed out. -/
def init : Usage := ⟨.new, [], []⟩

/-- Serve a request. Only IDs in use are freed, and an allocation may run out of IDs. -/
def serve (width : Nat) (st : Usage) : Request → Except Unit Usage
  | .alloc =>
    match st.manager.alloc width with
    | some (id, manager) => .ok { st with manager := manager, live := id :: st.live }
    | none => .error ()
  | .free id reserved =>
    if id ∈ st.live then
      .ok {
        manager := st.manager.free reserved id
        live := st.live.erase id
        lost := if reserved then st.lost else id :: st.lost }
    else .error ()

/-- Every ID below `free_from` is in use, free or lost, and only one of these. -/
def Partitioned (st : Usage) : Prop :=
  (st.live ++ st.manager.freeList ++ st.lost).Perm (List.range st.manager.freeFrom)

variable {width : Nat} {st st' : Usage}

/-- The IDs that are in use, free and lost, as one list without duplicates. -/
theorem Partitioned.nodup (parts : Partitioned st) :
    (st.live ++ st.manager.freeList ++ st.lost).Nodup :=
  parts.nodup_iff.mpr List.nodup_range

/-- An ID below `free_from` is in one of the lists. -/
theorem Partitioned.mem_iff (parts : Partitioned st) (n : Nat) :
    n ∈ st.live ++ st.manager.freeList ++ st.lost ↔ n < st.manager.freeFrom := by
  rw [List.Perm.mem_iff parts, List.mem_range]

/-- An allocation takes the least free ID, or a new one when there is none. -/
theorem alloc_cases {manager manager' : ThreadIdManager} {id : Nat}
    (taken : manager.alloc width = some (id, manager')) :
    (id ∈ manager.freeList ∧ (∀ n ∈ manager.freeList, id ≤ n) ∧
      manager' = { manager with freeList := manager.freeList.erase id }) ∨
    (manager.freeList = [] ∧ id = manager.freeFrom ∧
      manager' = { manager with freeFrom := manager.freeFrom + 1 }) := by
  -- A freed ID is taken first, and the least of them.
  unfold ThreadIdManager.alloc at taken
  cases least : manager.freeList.min? with
  | some least' =>
    simp only [least, Option.some.injEq, Prod.mk.injEq] at taken
    obtain ⟨rfl, rfl⟩ := taken
    obtain ⟨member, bound⟩ := List.min?_eq_some_iff.mp least
    exact .inl ⟨member, bound, rfl⟩
  | none =>
    simp only [least] at taken
    split at taken
    · cases taken
      exact .inr ⟨List.min?_eq_none_iff.mp least, rfl, rfl⟩
    · cases taken

/-- The step lemma: a request moves IDs between the lists. -/
theorem Partitioned.serve {request : Request} (parts : Partitioned st)
    (served : Usage.serve width st request = .ok st') : Partitioned st' := by
  unfold Partitioned at parts ⊢
  cases request with
  | alloc =>
    simp only [Usage.serve] at served
    cases taken : st.manager.alloc width with
    | none => simp [taken] at served
    | some result =>
      obtain ⟨id, manager⟩ := result
      simp only [taken, Except.ok.injEq] at served
      subst served
      rcases alloc_cases taken with ⟨member, _, rfl⟩ | ⟨empty, rfl, rfl⟩
      · -- The ID moves from the free list to those in use.
        refine List.Perm.trans ?_ parts
        have moved := (List.perm_cons_erase member).symm
        have between : (id :: st.live ++ st.manager.freeList.erase id).Perm
            (st.live ++ id :: st.manager.freeList.erase id) := List.perm_middle.symm
        exact List.Perm.append_right _ (between.trans (List.Perm.append_left _ moved))
      · -- The ID is new.
        rw [List.range_succ]
        exact (List.Perm.cons _ parts).trans (List.perm_append_singleton _ _).symm
  | free id reserved =>
    simp only [Usage.serve] at served
    split at served
    · rename_i inUse
      cases served
      have moved := (List.perm_cons_erase inUse).symm
      cases reserved with
      | true =>
        refine List.Perm.trans ?_ parts
        have between : (st.live.erase id ++ id :: st.manager.freeList).Perm
            (id :: st.live.erase id ++ st.manager.freeList) := List.perm_middle
        exact List.Perm.append_right _ (between.trans (List.Perm.append_right _ moved))
      | false =>
        refine List.Perm.trans ?_ parts
        have between : (st.live.erase id ++ st.manager.freeList ++ id :: st.lost).Perm
            (id :: st.live.erase id ++ st.manager.freeList ++ st.lost) := List.perm_middle
        exact between.trans (List.Perm.append_right _ (List.Perm.append_right _ moved))
    · cases served

/-- The run lemma: the lists are a partition after every sequence of requests. -/
theorem reachable_partitioned (run : Reachable (Usage.serve width) (fun _ _ => True) init st) :
    Partitioned st := by
  have start : Partitioned init := List.Perm.refl []
  exact run.invariant Partitioned start fun _ _ _ _ parts _ served => parts.serve served

/-- An allocation takes the least ID that is neither in use nor lost. -/
theorem Partitioned.least (parts : Partitioned st) {id : Nat} {manager : ThreadIdManager}
    (taken : st.manager.alloc width = some (id, manager)) :
    id ∉ st.live ∧ id ∉ st.lost ∧ ∀ n < id, n ∈ st.live ∨ n ∈ st.lost := by
  have nodup := parts.nodup
  simp only [List.nodup_append, List.mem_append] at nodup
  obtain ⟨⟨_, _, live_free⟩, _, other_lost⟩ := nodup
  rcases alloc_cases taken with ⟨member, least, _⟩ | ⟨empty, rfl, _⟩
  · refine ⟨fun inUse => live_free id inUse id member rfl,
      fun lost => other_lost id (.inr member) id lost rfl, fun n less => ?_⟩
    -- A smaller ID is not free, and below `free_from`.
    have bound := (parts.mem_iff id).mp (by simp [member])
    have somewhere := (parts.mem_iff n).mpr (Nat.lt_trans less bound)
    simp only [List.mem_append] at somewhere
    rcases somewhere with (inUse | free) | lost
    · exact .inl inUse
    · exact absurd (least n free) (Nat.not_le.mpr less)
    · exact .inr lost
  · have absent : st.manager.freeFrom ∉ st.live ++ st.manager.freeList ++ st.lost := by
      rw [parts.mem_iff]
      exact Nat.lt_irrefl _
    simp only [List.mem_append, not_or] at absent
    refine ⟨absent.1.1, absent.2, fun n less => ?_⟩
    have somewhere := (parts.mem_iff n).mpr less
    simpa [empty] using somewhere

/-- IDs are unique, and as dense as lost IDs allow. -/
structure Dense (width : Nat) (st : Usage) : Prop where
  /-- The IDs in use, free and lost are disjoint and have no duplicates. -/
  nodup : (st.live ++ st.manager.freeList ++ st.lost).Nodup
  /-- Together they are the numbers below `free_from`. -/
  covers : ∀ n, n ∈ st.live ++ st.manager.freeList ++ st.lost ↔ n < st.manager.freeFrom
  /-- The next ID is the least that is neither in use nor lost. -/
  least : ∀ id manager, st.manager.alloc width = some (id, manager) →
    id ∉ st.live ∧ id ∉ st.lost ∧ ∀ n < id, n ∈ st.live ∨ n ∈ st.lost
  /-- It is bounded by the number of IDs in use and of failed recyclings. -/
  bounded : ∀ id manager, st.manager.alloc width = some (id, manager) →
    id ≤ st.live.length + st.lost.length

/-- Thread IDs are unique and dense, whichever recyclings fail. -/
theorem thread_ids_dense (width : Nat) (st : Usage)
    (run : Reachable (Usage.serve width) (fun _ _ => True) init st) : Dense width st := by
  have parts := reachable_partitioned run
  refine ⟨parts.nodup, parts.mem_iff, fun id manager taken => parts.least taken, ?_⟩
  intro id manager taken
  obtain ⟨_, _, below⟩ := parts.least taken
  -- All numbers below the ID are in the two lists.
  have subset : List.range id ⊆ st.live ++ st.lost := by
    intro n member
    exact List.mem_append.mpr (below n (List.mem_range.mp member))
  have := (List.subperm_of_subset List.nodup_range subset).length_le
  simpa using this

/-- Two threads start, the first exits without its ID being recycled, and a third one starts. -/
theorem thread_ids_dense_lost : ∃ st, Reachable (Usage.serve 64) (fun _ _ => True) init st ∧
    st.live = [2, 1] ∧ st.lost = [0] ∧ Dense 64 st := by
  have run : Reachable (Usage.serve 64) (fun _ _ => True) init ⟨⟨3, []⟩, [2, 1], [0]⟩ :=
    .tail (a := .alloc) (.tail (a := .free 0 false) (.tail (a := .alloc) (.tail (a := .alloc) .refl
      trivial rfl) trivial rfl) trivial rfl) trivial rfl
  exact ⟨_, run, rfl, rfl, thread_ids_dense 64 _ run⟩

end Usage

/-- Why the slot of an ID could not be computed. -/
inductive Fault where
  /-- The ID exceeds the maximum index. -/
  | exceeded
  /-- An addition, subtraction or shift left the range of `usize`. -/
  | overflow
  deriving DecidableEq, Repr

section Arithmetic

variable (width a b : Nat)

/-- An addition of `usize` values. -/
def checkedAdd : Except Fault Nat := if a + b < 2 ^ width then .ok (a + b) else .error .overflow

/-- A subtraction of `usize` values. -/
def checkedSub : Except Fault Nat := if b ≤ a then .ok (a - b) else .error .overflow

/-- A left shift of one, by less than the width. -/
def checkedShift : Except Fault Nat := if a < width then .ok (1 <<< a) else .error .overflow

/-- The leading zero bits of a `usize`. -/
def leadingZeros : Nat := if a = 0 then width else width - 1 - Nat.log2 a

end Arithmetic

/-- A slot in a triangular vector. -/
structure Thread where
  id : Nat
  entry : Nat
  bucket : Nat
  deriving DecidableEq, Repr

/-- The number of entries that are skipped from the start of a vector. -/
def zeroEntry : Nat := 31

/-- The number of buckets that are skipped from the start of a vector. -/
def zeroBucket (width : Nat) : Nat := width - leadingZeros width zeroEntry

/-- The number of buckets in a vector. -/
def bucketCount (width : Nat) : Nat := width - zeroBucket width

/-- The maximum index of an element in the vector. -/
def maxIndex (width : Nat) : Nat := 2 ^ width - 1 - zeroEntry - 1

namespace Thread

/-- The capacity of the bucket at an index. -/
def bucketCapacity (width bucket : Nat) : Except Fault Nat := do
  checkedShift width (← checkedAdd width bucket (zeroBucket width))

/-- The slot of a thread ID, which must not exceed the maximum index. -/
def new (width id : Nat) : Except Fault Thread :=
  if id > maxIndex width then .error .exceeded
  else do
    -- Offset the ID based on the number of entries that are skipped.
    let index ← checkedAdd width id zeroEntry
    -- The bucket is the logarithm of the index.
    let zeros := leadingZeros width (← checkedAdd width index 1)
    let bucket ← checkedSub (← checkedSub (bucketCount width) zeros) 1
    -- Offset the absolute index by the capacity of the preceding buckets.
    let entry ← checkedSub index (← checkedSub (← bucketCapacity width bucket) 1)
    return ⟨id, entry, bucket⟩

end Thread

section Slots

variable {width id : Nat}

/-- Five buckets are skipped. -/
theorem zeroBucket_eq (large : 5 ≤ width) : zeroBucket width = 5 := by
  have log : Nat.log2 zeroEntry = 4 := by decide
  have nonzero : zeroEntry ≠ 0 := by decide
  simp only [zeroBucket, leadingZeros, log, if_neg nonzero]
  omega

/-- All buckets but those five remain. -/
theorem bucketCount_eq (large : 5 ≤ width) : bucketCount width = width - 5 := by
  rw [bucketCount, zeroBucket_eq large]

/-- The first entry index of a `usize` beyond every permitted ID. -/
theorem maxIndex_eq (large : 5 ≤ width) : maxIndex width + 33 = 2 ^ width ∨
    (maxIndex width = 0 ∧ width = 5) := by
  -- The smallest width leaves no room for a second entry.
  rcases Nat.eq_or_lt_of_le large with rfl | larger
  · exact .inr ⟨by decide, rfl⟩
  · have : 2 ^ 6 ≤ 2 ^ width := Nat.pow_le_pow_right (by omega) larger
    simp only [maxIndex, zeroEntry]
    omega

/-- The capacities of the buckets are powers of two. -/
theorem Thread.bucketCapacity_eq {bucket : Nat} (large : 6 ≤ width)
    (small : bucket < bucketCount width) :
    Thread.bucketCapacity width bucket = .ok (2 ^ (bucket + 5)) := by
  rw [bucketCount_eq (by omega)] at small
  have fits : bucket + 5 < 2 ^ width := Nat.lt_trans (by omega) Nat.lt_two_pow_self
  have shift : bucket + 5 < width := by omega
  simp only [bucketCapacity, checkedAdd, checkedShift, zeroBucket_eq (Nat.le_of_succ_le large),
    if_pos fits, bind, Except.bind, if_pos shift, Nat.shiftLeft_eq, Nat.one_mul]

/-- The logarithm of the offset index of a permitted ID. -/
def logOf (id : Nat) : Nat := Nat.log2 (id + 32)

/-- That logarithm lies between five and the width, and brackets the index. -/
theorem logOf_bounds (large : 6 ≤ width) (small : id ≤ maxIndex width) :
    5 ≤ logOf id ∧ logOf id < width ∧ 2 ^ logOf id ≤ id + 32 ∧ id + 32 < 2 ^ (logOf id + 1) := by
  have nonzero : id + 32 ≠ 0 := by omega
  have high : id + 32 < 2 ^ width := by
    rcases maxIndex_eq (Nat.le_of_succ_le large) with max | ⟨_, five⟩
    · omega
    · omega
  refine ⟨?_, ?_, Nat.log2_self_le nonzero, Nat.lt_log2_self⟩
  · exact (Nat.le_log2 nonzero).mpr (by omega)
  · exact (Nat.log2_lt nonzero).mpr high

/-- The slot of a permitted ID, without the checks. -/
theorem Thread.new_eq (large : 6 ≤ width) (small : id ≤ maxIndex width) :
    Thread.new width id = .ok ⟨id, id + 32 - 2 ^ logOf id, logOf id - 5⟩ := by
  obtain ⟨low, high, below, above⟩ := logOf_bounds large small
  have room : id + 32 < 2 ^ width := Nat.lt_of_lt_of_le above (Nat.pow_le_pow_right (by omega) high)
  -- No check fails on the way.
  have index : id + zeroEntry < 2 ^ width := by simp only [zeroEntry]; omega
  have next : id + zeroEntry + 1 < 2 ^ width := by simp only [zeroEntry]; omega
  have zeros : leadingZeros width (id + zeroEntry + 1) = width - 1 - logOf id := by
    rw [leadingZeros, if_neg (by omega)]
    rfl
  have count : bucketCount width = width - 5 := bucketCount_eq (by omega)
  have first : width - 1 - logOf id ≤ bucketCount width := by omega
  have second : 1 ≤ bucketCount width - (width - 1 - logOf id) := by omega
  have bucket : bucketCount width - (width - 1 - logOf id) - 1 = logOf id - 5 := by omega
  have capacity : Thread.bucketCapacity width (logOf id - 5) = .ok (2 ^ logOf id) := by
    rw [bucketCapacity_eq large (by omega), Nat.sub_add_cancel low]
  have positive : 1 ≤ 2 ^ logOf id := Nat.one_le_two_pow
  have offset : 2 ^ logOf id - 1 ≤ id + zeroEntry := by simp only [zeroEntry]; omega
  have entry : id + zeroEntry - (2 ^ logOf id - 1) = id + 32 - 2 ^ logOf id := by
    simp only [zeroEntry]
    omega
  simp only [Thread.new, if_neg (Nat.not_lt.mpr small), checkedAdd, if_pos index, if_pos next, bind,
    Except.bind, zeros, checkedSub, if_pos first, if_pos second, bucket, capacity, if_pos positive,
    if_pos offset, entry, pure, Except.pure]

/-- An ID is the number of entries in the preceding buckets plus the index of its entry. -/
theorem Thread.new_spec {thread : Thread} (large : 6 ≤ width) (small : id ≤ maxIndex width)
    (found : Thread.new width id = .ok thread) :
    thread.id = id ∧ thread.bucket < bucketCount width ∧ thread.entry < 2 ^ (thread.bucket + 5) ∧
      id + 32 = 2 ^ (thread.bucket + 5) + thread.entry := by
  obtain ⟨low, high, below, above⟩ := logOf_bounds large small
  rw [new_eq large small] at found
  cases found
  rw [Nat.pow_succ] at above
  simp only [Nat.sub_add_cancel low, bucketCount_eq (Nat.le_of_succ_le large)]
  refine ⟨trivial, by omega, by omega, by omega⟩

/-- Smaller IDs have slots that come first. -/
theorem Thread.new_monotone {id' : Nat} {thread thread' : Thread} (large : 6 ≤ width)
    (small : id ≤ maxIndex width) (small' : id' ≤ maxIndex width)
    (found : Thread.new width id = .ok thread) (found' : Thread.new width id' = .ok thread')
    (less : id < id') :
    thread.bucket < thread'.bucket ∨ (thread.bucket = thread'.bucket ∧ thread.entry < thread'.entry) := by
  obtain ⟨_, _, inside, sum⟩ := new_spec large small found
  obtain ⟨_, _, inside', sum'⟩ := new_spec large small' found'
  rcases Nat.lt_trichotomy thread.bucket thread'.bucket with before | same | after
  · exact .inl before
  · rw [same] at sum
    exact .inr ⟨same, by omega⟩
  · -- A later bucket starts beyond every entry of an earlier one.
    have doubled : 2 ^ (thread'.bucket + 5 + 1) ≤ 2 ^ (thread.bucket + 5) :=
      Nat.pow_le_pow_right (by omega) (by omega)
    rw [Nat.pow_succ] at doubled
    omega

/-- Every slot of every bucket belongs to an ID. -/
theorem Thread.new_surjective {bucket entry : Nat} (large : 6 ≤ width)
    (within : bucket < bucketCount width) (inside : entry < 2 ^ (bucket + 5)) :
    ∃ id, id ≤ maxIndex width ∧ Thread.new width id = .ok ⟨id, entry, bucket⟩ := by
  rw [bucketCount_eq (Nat.le_of_succ_le large)] at within
  have first : 2 ^ 5 ≤ 2 ^ (bucket + 5) := Nat.pow_le_pow_right (by omega) (by omega)
  have last : 2 ^ (bucket + 5 + 1) ≤ 2 ^ width := Nat.pow_le_pow_right (by omega) (by omega)
  have doubled : 2 ^ (bucket + 5 + 1) = 2 ^ (bucket + 5) * 2 := Nat.pow_succ ..
  have max : maxIndex width + 33 = 2 ^ width := by
    rcases maxIndex_eq (Nat.le_of_succ_le large) with eq | ⟨_, five⟩
    · exact eq
    · omega
  have index : 2 ^ (bucket + 5) - 32 + entry + 32 = 2 ^ (bucket + 5) + entry := by omega
  -- The ID that lies so far into the bucket has the bucket as its logarithm.
  have log : logOf (2 ^ (bucket + 5) - 32 + entry) = bucket + 5 := by
    have nonzero : 2 ^ (bucket + 5) + entry ≠ 0 := by omega
    have above : 2 ^ (bucket + 5) + entry < 2 ^ (bucket + 5 + 1) := by omega
    have upper := (Nat.log2_lt nonzero).mpr above
    have lower := (Nat.le_log2 nonzero).mpr (Nat.le_add_right (2 ^ (bucket + 5)) entry)
    rw [logOf, index]
    omega
  have permitted : 2 ^ (bucket + 5) - 32 + entry ≤ maxIndex width := by omega
  refine ⟨_, permitted, ?_⟩
  rw [new_eq large permitted, log, index]
  simp

/-- Two IDs with one slot are the same. -/
theorem Thread.new_injective {id' : Nat} {thread thread' : Thread} (large : 6 ≤ width)
    (small : id ≤ maxIndex width) (small' : id' ≤ maxIndex width)
    (found : Thread.new width id = .ok thread) (found' : Thread.new width id' = .ok thread')
    (bucket : thread.bucket = thread'.bucket) (entry : thread.entry = thread'.entry) : id = id' := by
  obtain ⟨_, _, _, sum⟩ := new_spec large small found
  obtain ⟨_, _, _, sum'⟩ := new_spec large small' found'
  rw [bucket, entry] at sum
  omega

end Slots

/-- The IDs of a vector are its slots, in the order of buckets and entries. -/
structure SlotOrder (width : Nat) : Prop where
  /-- No operation faults, and the slot of an ID is inside its bucket. -/
  slots : ∀ id ≤ maxIndex width, ∃ thread capacity, Thread.new width id = .ok thread ∧
    thread.id = id ∧ thread.bucket < bucketCount width ∧
      Thread.bucketCapacity width thread.bucket = .ok capacity ∧ thread.entry < capacity ∧
        id = 2 ^ (thread.bucket + 5) - 32 + thread.entry
  /-- Distinct IDs have distinct slots. -/
  distinct : ∀ id id' thread thread', id ≤ maxIndex width → id' ≤ maxIndex width →
    Thread.new width id = .ok thread → Thread.new width id' = .ok thread' → id ≠ id' →
      (thread.bucket, thread.entry) ≠ (thread'.bucket, thread'.entry)
  /-- Smaller IDs have lexicographically smaller slots. -/
  ordered : ∀ id id' thread thread', id ≤ maxIndex width → id' ≤ maxIndex width →
    Thread.new width id = .ok thread → Thread.new width id' = .ok thread' → id < id' →
      thread.bucket < thread'.bucket ∨
        (thread.bucket = thread'.bucket ∧ thread.entry < thread'.entry)
  /-- Every slot is the image of exactly one ID. -/
  onto : ∀ bucket entry capacity, bucket < bucketCount width →
    Thread.bucketCapacity width bucket = .ok capacity → entry < capacity →
      ∃! id, id ≤ maxIndex width ∧ ∃ thread, Thread.new width id = .ok thread ∧
        thread.bucket = bucket ∧ thread.entry = entry

/-- The slots of thread IDs are computed without a fault, and in order. -/
theorem thread_new_isomorphism (width : Nat) (large : 6 ≤ width) : SlotOrder width := by
  refine ⟨?_, ?_, ?_, ?_⟩
  · intro id small
    have found := Thread.new_eq large small
    obtain ⟨same, within, inside, sum⟩ := Thread.new_spec large small found
    refine ⟨_, _, found, same, within, Thread.bucketCapacity_eq large within, inside, ?_⟩
    -- Bucket zero is as large as the number of skipped entries and one more.
    have first : 2 ^ 5 ≤ 2 ^ (logOf id - 5 + 5) := Nat.pow_le_pow_right (by omega) (by omega)
    simp only at sum ⊢
    omega
  · intro id id' thread thread' small small' found found' differ same
    obtain ⟨bucket, entry⟩ := Prod.mk.inj same
    exact differ (Thread.new_injective large small small' found found' bucket entry)
  · intro id id' thread thread' small small' found found' less
    exact Thread.new_monotone large small small' found found' less
  · intro bucket entry capacity within sized inside
    rw [Thread.bucketCapacity_eq large within] at sized
    cases sized
    obtain ⟨id, small, found⟩ := Thread.new_surjective large within inside
    refine ⟨id, ⟨small, _, found, rfl, rfl⟩, ?_⟩
    rintro id' ⟨small', thread', found', rfl, rfl⟩
    exact Thread.new_injective large small' small found' found rfl rfl

/-- A `usize` of either width is large enough. -/
theorem thread_new_isomorphism_usize : SlotOrder 32 ∧ SlotOrder 64 :=
  ⟨thread_new_isomorphism 32 (by decide), thread_new_isomorphism 64 (by decide)⟩

end Seize.Tls
