import Seize.Tls.ThreadId
import Seize.Lib.Ledger

/-! Per-object thread local storage: lazily allocated buckets, their entries, and iteration. -/

namespace Seize.Tls

/-- A flow of control. -/
abbrev Tid := Nat

/-- The address of a bucket. -/
abbrev Addr := Nat

/-- The width of `usize`, and the size and alignment of an `Entry<T>`. -/
structure Config where
  width : Nat
  entrySize : Nat
  align : Nat

/-- An entry in a `ThreadLocal`. The value is uninitialized until it is written. -/
structure Entry (τ : Type) where
  present : Bool
  value : Option τ

/-- A bucket of entries. Only indices below the capacity are storage. -/
structure Bucket (τ : Type) where
  capacity : Nat
  entries : Nat → Entry τ

/-- A call of `load_or` or `get` in progress. -/
inductive Call where
  /-- `load_or`, about to load the bucket pointer. -/
  | load (thread : Thread)
  /-- `initialize`, about to allocate. -/
  | allocate (thread : Thread)
  /-- `initialize`, about to exchange the bucket pointer. -/
  | exchange (thread : Thread) (new : Addr)
  /-- `load_or`, about to load the `present` flag. -/
  | check (thread : Thread) (bucket : Addr)
  /-- `write`, about to call `create` and write its result. -/
  | write (thread : Thread) (bucket : Addr)
  /-- `write`, about to store the `present` flag. -/
  | store (thread : Thread) (bucket : Addr)
  /-- `get`, about to load the bucket pointer. -/
  | get (thread : Thread)
  /-- `get`, about to load the `present` flag. -/
  | getCheck (thread : Thread) (bucket : Addr)
  deriving DecidableEq, Repr

/-- The slot a call is about. -/
def Call.thread : Call → Thread
  | .load thread => thread
  | .allocate thread => thread
  | .exchange thread _ => thread
  | .check thread _ => thread
  | .write thread _ => thread
  | .store thread _ => thread
  | .get thread => thread
  | .getCheck thread _ => thread

/-- The bucket that a call has loaded and goes on to access. -/
def Call.loaded : Call → Option Addr
  | .check _ a => some a
  | .write _ a => some a
  | .store _ a => some a
  | .getCheck _ a => some a
  | _ => none

/-- Ghost: what happens to the value of one ID. -/
inductive Event (τ : Type) where
  /-- `load_or` was called. -/
  | called
  /-- `create` was called, and returned a value. -/
  | created (value : τ)
  /-- The entry was marked as present. -/
  | installed (value : τ)
  /-- `load_or` returned a value. -/
  | returned (value : τ)
  /-- `load_or` failed. -/
  | failed
  /-- `get` was called. -/
  | asked
  /-- `get` returned. -/
  | got (value : Option τ)
  deriving DecidableEq, Repr

/-- Where an iterator is between two of its atomic loads. -/
inductive Cursor where
  /-- About to load the pointer of its bucket. -/
  | outside
  /-- In the loop over the entries of a bucket. -/
  | inside (bucket : Addr)
  /-- `next` has returned `None`. -/
  | finished
  deriving DecidableEq, Repr

/-- An iterator over a `ThreadLocal`. -/
structure Iter where
  bucket : Nat
  index : Nat
  bucketSize : Nat
  cursor : Cursor
  /-- Ghost: the slots it has yielded, newest first. -/
  yielded : List (Nat × Nat)
  /-- Ghost: the slots that were present when it was created. -/
  initial : Nat → Nat → Bool
  /-- Ghost: the number of steps it has taken. -/
  steps : Nat

/-- A `ThreadLocal` together with the calls in progress and the iterators over it. -/
structure State (τ : Type) where
  buckets : Nat → Option Addr
  heap : Addr → Option (Bucket τ)
  calls : Tid → Option Call
  iters : Nat → Option Iter
  /-- Ghost: the events of every ID, newest first. -/
  log : List (Nat × Event τ)
  /-- Ghost: the calls to the allocator, newest first. A layout is the size of a bucket. -/
  ledger : List (MemEvent Addr Nat)

/-- How a step can fail to happen. -/
inductive Stop where
  /-- The thread or the iterator has no such step. -/
  | disabled
  /-- The step has undefined behaviour. -/
  | undefinedBehaviour
  /-- An `unwrap` panics. -/
  | unwrapped
  deriving DecidableEq, Repr

variable {τ : Type}

/-- Calls succeed with a new state. -/
abbrev Result (τ : Type) := Except Stop (State τ)

/-- Size of the layout of a bucket, if the layout does not overflow. -/
def bucketLayout (cfg : Config) (capacity : Nat) : Option Nat :=
  if capacity * cfg.entrySize ≤ 2 ^ (cfg.width - 1) - cfg.align then some (capacity * cfg.entrySize)
  else none

/-- A bucket without values. -/
def emptyBucket (τ : Type) (capacity : Nat) : Bucket τ := ⟨capacity, fun _ => ⟨false, none⟩⟩

namespace State

/-- Record an event of an ID. -/
def record (st : State τ) (id : Nat) (event : Event τ) : State τ :=
  { st with log := (id, event) :: st.log }

/-- Set the call in progress of a thread. -/
def setCall (st : State τ) (t : Tid) (call : Option Call) : State τ :=
  { st with calls := Function.update st.calls t call }

/-- The entry of a slot, through the bucket pointer. -/
def entryAt (st : State τ) (bucket entry : Nat) : Option (Entry τ) :=
  match st.buckets bucket with
  | some a => (st.heap a).map (·.entries entry)
  | none => none

/-- A slot is present. -/
def presentAt (st : State τ) (bucket entry : Nat) : Bool :=
  match st.entryAt bucket entry with
  | some e => e.present
  | none => false

end State

/--
`allocate_bucket`.

It fails when the layout overflows or the allocator has no memory. An answer of the allocator is
the address of a block that is not in use.
-/
def allocateBucket (cfg : Config) (st : State τ) (capacity : Nat) (answer : Option Addr) :
    Except Stop (Option (Addr × State τ)) :=
  match bucketLayout cfg capacity, answer with
  | some layout, some a =>
    match st.heap a with
    | some _ => .error .disabled
    | none =>
      .ok (some (a, { st with
        heap := Function.update st.heap a (some (emptyBucket τ capacity))
        ledger := .alloc a layout :: st.ledger }))
  | _, _ => .ok none

/-- `free_bucket`, which computes the layout again and unwraps it. -/
def freeBucket (cfg : Config) (st : State τ) (a : Addr) (capacity : Nat) : Result τ :=
  match st.heap a with
  | none => .error .undefinedBehaviour
  | some _ =>
    match bucketLayout cfg capacity with
    | none => .error .unwrapped
    | some layout =>
      .ok { st with
        heap := Function.update st.heap a none
        ledger := .dealloc a layout :: st.ledger }

/-- Nothing has been allocated. -/
def State.blank (τ : Type) : State τ where
  buckets _ := none
  heap _ := none
  calls _ := none
  iters _ := none
  log := []
  ledger := []

/-- The loop of `with_capacity_in` that frees the first buckets again. -/
def rollback (cfg : Config) : Nat → Nat → State τ → Result τ
  | 0, _, st => .ok st
  | n + 1, j, st =>
    match st.buckets j, Thread.bucketCapacity cfg.width j with
    | some a, .ok capacity =>
      match freeBucket cfg st a capacity with
      | .error stop => .error stop
      | .ok st => rollback cfg n (j + 1) st
    | _, _ => .error .undefinedBehaviour

/--
The loop of `with_capacity_in` that allocates the initial buckets.

The flag says whether the container was created.
-/
def initBuckets (cfg : Config) (answers : Nat → Option Addr) :
    Nat → Nat → State τ → Except Stop (State τ × Bool)
  | 0, _, st => .ok (st, true)
  | n + 1, i, st =>
    match Thread.bucketCapacity cfg.width i with
    | .error _ => .error .undefinedBehaviour
    | .ok capacity =>
      match allocateBucket cfg st capacity (answers i) with
      | .error stop => .error stop
      | .ok (some (a, st)) =>
        initBuckets cfg answers n (i + 1)
          { st with buckets := Function.update st.buckets i (some a) }
      | .ok none =>
        match rollback cfg i 0 st with
        | .error stop => .error stop
        | .ok st => .ok (st, false)

/-- `ThreadLocal::with_capacity_in`, with the answers of the allocator. -/
def withCapacityIn (τ : Type) (cfg : Config) (capacity : Nat) (answers : Nat → Option Addr) :
    Except Stop (State τ × Bool) :=
  if capacity = 0 then initBuckets cfg answers 1 0 (.blank τ)
  else
    match Thread.new cfg.width capacity with
    | .error _ => .error .disabled
    | .ok thread => initBuckets cfg answers (thread.bucket + 1) 0 (.blank τ)

/-- The values in a bucket, with their indices. -/
def Bucket.values (bucket : Bucket τ) : List (Nat × τ) :=
  (List.range bucket.capacity).filterMap fun e =>
    if (bucket.entries e).present then (bucket.entries e).value.map (e, ·) else none

/-- `Drop for ThreadLocal`, from one bucket on: the final state, and the values that were dropped. -/
def dropBuckets (cfg : Config) : Nat → Nat → State τ → Except Stop (State τ × List (Nat × Nat × τ))
  | 0, _, st => .ok (st, [])
  | n + 1, i, st =>
    match st.buckets i with
    | none => dropBuckets cfg n (i + 1) st
    | some a =>
      match st.heap a, Thread.bucketCapacity cfg.width i with
      | some bucket, .ok capacity =>
        match freeBucket cfg st a capacity with
        | .error stop => .error stop
        | .ok st =>
          match dropBuckets cfg n (i + 1) st with
          | .error stop => .error stop
          | .ok (st, rest) => .ok (st, bucket.values.map (i, ·) ++ rest)
      | _, _ => .error .undefinedBehaviour

/-- Read the value of an entry that is present. -/
def readEntry (bucket : Bucket τ) (entry : Nat) : Except Stop τ :=
  match (bucket.entries entry).value with
  | some value => .ok value
  | none => .error .undefinedBehaviour

/-- The entry of a slot in a bucket that was loaded, which must be in bounds. -/
def deref (st : State τ) (a : Addr) (entry : Nat) : Except Stop (Bucket τ) :=
  match st.heap a with
  | some bucket => if entry < bucket.capacity then .ok bucket else .error .undefinedBehaviour
  | none => .error .undefinedBehaviour

/-- The bucket load of `load_or`. -/
def loadStep (st : State τ) (t : Tid) (thread : Thread) : Result τ :=
  match st.buckets thread.bucket with
  | none => .ok (st.setCall t (some (.allocate thread)))
  | some a => .ok (st.setCall t (some (.check thread a)))

/-- The allocation in `initialize`, whose failure is the failure of `load_or`. -/
def allocateStep (cfg : Config) (st : State τ) (t : Tid) (thread : Thread) (answer : Option Addr) :
    Result τ :=
  match Thread.bucketCapacity cfg.width thread.bucket with
  | .error _ => .error .undefinedBehaviour
  | .ok capacity =>
    match allocateBucket cfg st capacity answer with
    | .error stop => .error stop
    | .ok none => .ok ((st.setCall t none).record thread.id .failed)
    | .ok (some (a, st)) => .ok (st.setCall t (some (.exchange thread a)))

/-- The compare-exchange in `initialize`. A bucket that lost the race is freed. -/
def exchangeStep (cfg : Config) (st : State τ) (t : Tid) (thread : Thread) (new : Addr) : Result τ :=
  match st.buckets thread.bucket with
  | none =>
    .ok ({ st with buckets := Function.update st.buckets thread.bucket (some new) }.setCall t
      (some (.check thread new)))
  | some other =>
    match Thread.bucketCapacity cfg.width thread.bucket with
    | .error _ => .error .undefinedBehaviour
    | .ok capacity =>
      match freeBucket cfg st new capacity with
      | .error stop => .error stop
      | .ok st => .ok (st.setCall t (some (.check thread other)))

/-- The load of the `present` flag in `load_or`, which returns the value if there is one. -/
def checkStep (st : State τ) (t : Tid) (thread : Thread) (a : Addr) : Result τ :=
  match deref st a thread.entry with
  | .error stop => .error stop
  | .ok bucket =>
    if (bucket.entries thread.entry).present then
      match readEntry bucket thread.entry with
      | .error stop => .error stop
      | .ok value => .ok ((st.setCall t none).record thread.id (.returned value))
    else .ok (st.setCall t (some (.write thread a)))

/-- The call of `create` and the write of its result. -/
def writeStep (st : State τ) (t : Tid) (thread : Thread) (a : Addr) (value : τ) : Result τ :=
  match deref st a thread.entry with
  | .error stop => .error stop
  | .ok bucket =>
    let entry := { bucket.entries thread.entry with value := some value }
    .ok (({ st with
      heap := Function.update st.heap a (some { bucket with
        entries := Function.update bucket.entries thread.entry entry }) }.setCall t
          (some (.store thread a))).record thread.id (.created value))

/-- The store of the `present` flag, after which `load_or` returns the value. -/
def storeStep (st : State τ) (t : Tid) (thread : Thread) (a : Addr) : Result τ :=
  match deref st a thread.entry with
  | .error stop => .error stop
  | .ok bucket =>
    match readEntry bucket thread.entry with
    | .error stop => .error stop
    | .ok value =>
      let entry := { bucket.entries thread.entry with present := true }
      .ok ((({ st with
        heap := Function.update st.heap a (some { bucket with
          entries := Function.update bucket.entries thread.entry entry }) }.setCall t none).record
            thread.id (.installed value)).record thread.id (.returned value))

/-- The bucket load of `get`. -/
def getStep (st : State τ) (t : Tid) (thread : Thread) : Result τ :=
  match st.buckets thread.bucket with
  | none => .ok ((st.setCall t none).record thread.id (.got none))
  | some a => .ok (st.setCall t (some (.getCheck thread a)))

/-- The load of the `present` flag in `get`. -/
def getCheckStep (st : State τ) (t : Tid) (thread : Thread) (a : Addr) : Result τ :=
  match deref st a thread.entry with
  | .error stop => .error stop
  | .ok bucket =>
    if (bucket.entries thread.entry).present then
      match readEntry bucket thread.entry with
      | .error stop => .error stop
      | .ok value => .ok ((st.setCall t none).record thread.id (.got (some value)))
    else .ok ((st.setCall t none).record thread.id (.got none))

/-- `ThreadLocal::iter`. -/
def newIter (cfg : Config) (st : State τ) (i : Nat) : Result τ :=
  match Thread.bucketCapacity cfg.width 0 with
  | .error _ => .error .undefinedBehaviour
  | .ok capacity =>
    .ok { st with iters := Function.update st.iters i (some
      ⟨0, 0, capacity, .outside, [], st.presentAt, 0⟩) }

/-- Advance an iterator to the next bucket. -/
def Iter.advance (cfg : Config) (iter : Iter) : Iter :=
  { iter with
    index := 0
    bucket := iter.bucket + 1
    bucketSize := (iter.bucketSize <<< 1) % 2 ^ cfg.width
    cursor := .outside }

/-- One step of `Iter::next`: the load of a bucket pointer, or the check of one entry. -/
def iterStep (cfg : Config) (st : State τ) (i : Nat) (iter : Iter) : Result τ :=
  let set (iter : Iter) : State τ :=
    { st with iters := Function.update st.iters i (some { iter with steps := iter.steps + 1 }) }
  match iter.cursor with
  | .finished => .error .disabled
  | .outside =>
    if iter.bucket < bucketCount cfg.width then
      match st.buckets iter.bucket with
      | some a => .ok (set { iter with cursor := .inside a })
      | none => .ok (set (iter.advance cfg))
    else .ok (set { iter with cursor := .finished })
  | .inside a =>
    if iter.index < iter.bucketSize then
      match deref st a iter.index with
      | .error stop => .error stop
      | .ok bucket =>
        if (bucket.entries iter.index).present then
          match readEntry bucket iter.index with
          | .error stop => .error stop
          | .ok _ =>
            -- The next call of `next` loads the bucket pointer again.
            .ok (set { iter with
              index := iter.index + 1
              cursor := .outside
              yielded := (iter.bucket, iter.index) :: iter.yielded })
        else .ok (set { iter with index := iter.index + 1 })
    else .ok (set (iter.advance cfg))

/-- What can happen next. -/
inductive Action (τ : Type) where
  /-- A thread calls `load_or` for an ID. -/
  | loadOr (t : Tid) (id : Nat)
  /-- A thread calls `get` for an ID. -/
  | get (t : Tid) (id : Nat)
  /-- The call of a thread takes its next step. -/
  | step (t : Tid)
  /-- The call of a thread allocates, with the answer of the allocator. -/
  | allocate (t : Tid) (answer : Option Addr)
  /-- The call of a thread calls `create`, with the value it returns. -/
  | create (t : Tid) (value : τ)
  /-- An iterator is created. -/
  | iter (i : Nat)
  /-- An iterator takes its next step. -/
  | next (i : Nat)
  deriving DecidableEq, Repr

/-- The thread that acts, if it is not an iterator. -/
def Action.tid : Action τ → Option Tid
  | .loadOr t _ => some t
  | .get t _ => some t
  | .step t => some t
  | .allocate t _ => some t
  | .create t _ => some t
  | _ => none

/-- Start a call for an ID. -/
def begin (cfg : Config) (st : State τ) (t : Tid) (id : Nat) (call : Thread → Call)
    (event : Event τ) : Result τ :=
  match st.calls t, Thread.new cfg.width id with
  | none, .ok thread => .ok ((st.setCall t (some (call thread))).record id event)
  | _, _ => .error .disabled

/-- The effect of an action. -/
def step (cfg : Config) (st : State τ) : Action τ → Result τ
  | .loadOr t id => begin cfg st t id .load .called
  | .get t id => begin cfg st t id .get .asked
  | .step t =>
    match st.calls t with
    | some (.load thread) => loadStep st t thread
    | some (.exchange thread new) => exchangeStep cfg st t thread new
    | some (.check thread a) => checkStep st t thread a
    | some (.store thread a) => storeStep st t thread a
    | some (.get thread) => getStep st t thread
    | some (.getCheck thread a) => getCheckStep st t thread a
    | _ => .error .disabled
  | .allocate t answer =>
    match st.calls t with
    | some (.allocate thread) => allocateStep cfg st t thread answer
    | _ => .error .disabled
  | .create t value =>
    match st.calls t with
    | some (.write thread a) => writeStep st t thread a value
    | _ => .error .disabled
  | .iter i => newIter cfg st i
  | .next i =>
    match st.iters i with
    | some iter => iterStep cfg st i iter
    | none => .error .disabled

/-- The current thread must have unique access to the slot for the given ID. -/
def UniqueAccess (st : State τ) : Action τ → Prop
  | .loadOr _ id => ∀ t call, st.calls t = some call → call.thread.id ≠ id
  | .get _ id => ∀ t call, st.calls t = some call → call.thread.id ≠ id
  | _ => True

end Seize.Tls
