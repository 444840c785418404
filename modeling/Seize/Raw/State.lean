import Seize.Lib.Run
import Seize.Lib.CallStack
import Seize.Lib.Ledger
import Mathlib.Algebra.Group.Nat.Defs

/-! The data of the raw collector: reservations, batches, entries, and the calls in progress. -/

namespace Seize.Raw

/-- A thread ID, which names one reservation and one local batch. -/
abbrev SlotId := Nat

/-- A flow of control that executes collector calls. -/
abbrev Tid := Nat

/-- The address of a batch. Addresses of freed batches are handed out again. -/
abbrev Addr := Nat

/-- The address of a retired object. -/
abbrev Ptr := Nat

/-- A reclaimer function. -/
abbrev Reclaim := Nat

/-- A shared location of the data structure that holds pointers to objects. -/
abbrev Cell := Nat

/-- The parameters of a collector: the width of `usize` and the batch size. -/
structure Config where
  /-- Bits of a `usize`. -/
  width : Nat
  /-- Entries a batch needs before retirement is attempted. -/
  batchSize : Nat

/-- Counters of type `usize` wrap at this value. -/
def Config.modulus (cfg : Config) : Nat := 2 ^ cfg.width

/-- `MAX_INDEX + 1`, the number of thread IDs an iteration over a `ThreadLocal` passes. -/
def Config.slots (cfg : Config) : Nat := 2 ^ cfg.width - 32

/-- A pointer to an entry, given by the batch that owns its storage and its index there. -/
structure EntryPtr where
  batch : Addr
  index : Nat
  deriving DecidableEq, Repr

/-- The value of `Reservation::head`: `INACTIVE`, or a list that is null when it is empty. -/
inductive Head where
  | inactive
  | list (first : Option EntryPtr)
  deriving DecidableEq, Repr

/-- The value of `LocalBatch::batch`: null, a batch, or the `DROP` sentinel. -/
inductive LocalBatch where
  | null
  | ptr (batch : Addr)
  | drop
  deriving DecidableEq, Repr

/-- The `EntryState` union, tagged with the field that was last written. -/
inductive EntryState where
  /-- A reservation list to link to, null in a fresh entry. -/
  | head (slot : Option SlotId)
  /-- The next entry of the reservation list. -/
  | next (entry : Option EntryPtr)
  deriving DecidableEq, Repr

/-- Ghost: where an entry is in its life as a list node. -/
inductive Link where
  /-- Not published to any reservation list. -/
  | unlinked
  /-- Published, and its decrement has not happened. -/
  | linked
  /-- Its decrement has happened. -/
  | released
  deriving DecidableEq, Repr

/-- A retired object. -/
structure Entry where
  ptr : Ptr
  reclaim : Reclaim
  state : EntryState
  batch : Addr
  /-- Ghost: the retirement this entry stands for. -/
  rid : Nat
  /-- Ghost: the entry's life as a list node. -/
  link : Link
  deriving DecidableEq, Repr

/-- Ghost: the stages of a batch, with the call in progress that owns it. -/
inductive Phase where
  /-- The local batch of a slot. -/
  | pending (slot : SlotId)
  /-- Committed, while the retirer has not added its count. -/
  | retiring (thread : Tid) (height : Nat)
  /-- Committed and counted. -/
  | shared
  /-- `free_batch` has been called. -/
  | freeing (thread : Tid) (height : Nat)
  deriving DecidableEq, Repr

/-- A batch of nodes waiting to be retired. -/
structure Batch where
  entries : List Entry
  /-- The reference count, below the `usize` modulus. -/
  active : Nat
  /-- The capacity of the entries vector. -/
  cap : Nat
  /-- Ghost: the stage of the batch. -/
  phase : Phase
  /-- Ghost: when the scan that committed the batch began. -/
  scanned : Option Nat
  /-- Ghost: a name that is never used again, unlike the address. -/
  uid : Nat
  deriving DecidableEq, Repr

/-- A call in progress, with the local variables it still reads. -/
inductive Frame where
  /-- A reclaimer, whose code may call the collector. -/
  | reclaimer (rid : Nat) (ptr : Ptr) (reclaim : Reclaim)
  /-- The marking scan of `try_retire`, with the ghost time at which it began. -/
  | scan (slot : SlotId) (batch : Addr) (start cursor marked : Nat)
  /--
  The linking loop of `try_retire` and the addition that ends it.

  Once the loop has loaded a head, it holds that reservation and the value it saw.
  -/
  | link (batch : Addr) (marked i active : Nat) (seen : Option (SlotId × Head))
  /-- `traverse`, with the ghost list of the entries still to be visited. -/
  | traverse (list : Option EntryPtr) (rest : List EntryPtr)
  /-- `free_batch`, about to reclaim the entry at an index. -/
  | freeBatch (batch : LocalBatch) (index : Nat)
  /-- `reclaim_all`, about to look at a slot. -/
  | reclaimAll (cursor : Nat)
  /-- `reclaim_all`, after the batch of a slot was freed. -/
  | reclaimReset (cursor : Nat)
  deriving DecidableEq, Repr

/-- Which test led to a call of `free_batch`. -/
inductive Cause where
  /-- The retirer's `fetch_add` reached zero. -/
  | fetchAdd
  /-- A `fetch_sub` read one. -/
  | fetchSub
  /-- `reclaim_all` took a local batch. -/
  | reclaimAll
  deriving DecidableEq, Repr

/-- Ghost: the observable events of a run. -/
inductive Event where
  /-- A retirement was accepted, so its call returns `Ok`. -/
  | retired (rid : Nat) (ptr : Ptr) (reclaim : Reclaim)
  /-- A retirement returned `Err`. -/
  | refused (rid : Nat)
  /-- A reclaimer was invoked, with the time its batch's scan began if it was committed. -/
  | reclaimed (rid : Nat) (ptr : Ptr) (reclaim : Reclaim) (scanned : Option Nat)
  /-- A scan ended and its slot forgot the batch. -/
  | committed (uid : Nat)
  /-- The retirer added its links to the count of a batch. -/
  | counted (uid : Nat)
  /-- `free_batch` was called on a batch. -/
  | freed (uid : Nat) (cause : Cause)
  deriving DecidableEq, Repr

/-- Blocks a collector allocates for its batches. -/
inductive Block where
  | box (batch : Addr)
  | entries (batch : Addr)
  deriving DecidableEq, Repr

/-- Layouts of those blocks. -/
inductive Layout where
  | batch
  | entries (cap : Nat)
  deriving DecidableEq, Repr

/-- The state of a collector together with its callers. -/
structure State where
  /-- Reservation heads, meaningful for the slots in `created`. -/
  head : SlotId → Head
  /-- Slots whose reservation is present in the `ThreadLocal`. -/
  created : List SlotId
  /-- Local batches. An absent slot reads as null. -/
  batch : SlotId → LocalBatch
  /-- Slots whose local batch is present in the `ThreadLocal`. -/
  batchSlots : List SlotId
  /-- Allocated batches. -/
  mem : Addr → Option Batch
  /-- The calls in progress on every thread, innermost first. -/
  stack : Tid → List Frame
  /-- The shared cells of the data structure, where `none` is null. -/
  cells : Cell → Option Ptr
  /-- Ghost: the number of steps taken. -/
  clock : Nat
  /-- Ghost: when a slot's current activity period began. -/
  since : SlotId → Nat
  /-- Ghost: the entries linked to a slot since it was last entered or refreshed, newest first. -/
  pushed : SlotId → List EntryPtr
  /-- Ghost: the pointers a slot has loaded in its current activity period. -/
  protect : SlotId → List Ptr
  /-- Ghost: the next retirement number. -/
  nextRid : Nat
  /-- Ghost: the next batch name. -/
  nextUid : Nat
  /-- Ghost: the events so far, newest first. -/
  log : List Event
  /-- Ghost: the allocator calls so far, newest first. -/
  ledger : List (MemEvent Block Layout)

/-- A collector that nobody has used. -/
def State.init : State where
  head _ := .inactive
  created := []
  batch _ := .null
  batchSlots := []
  mem _ := none
  stack _ := []
  cells _ := none
  clock := 0
  since _ := 0
  pushed _ := []
  protect _ := []
  nextRid := 0
  nextUid := 0
  log := []
  ledger := []

/-- The entry a pointer addresses, if its batch is allocated. -/
def entryIn (mem : Addr → Option Batch) (e : EntryPtr) : Option Entry :=
  match mem e.batch with
  | some batch => batch.entries[e.index]?
  | none => none

namespace State

/-- A slot is active when its head is anything but `INACTIVE`. -/
def Active (st : State) (s : SlotId) : Prop := st.head s ≠ .inactive

instance (st : State) (s : SlotId) : Decidable (st.Active s) :=
  inferInstanceAs (Decidable (st.head s ≠ .inactive))

/-- The call in progress at a height of a thread's stack. -/
def frame (st : State) (t : Tid) (height : Nat) : Option Frame := frameAt (st.stack t) height

/-- Replace a thread's stack. -/
def setStack (st : State) (t : Tid) (frames : List Frame) : State :=
  { st with stack := Function.update st.stack t frames }

/-- Store a batch at an address. -/
def setBatch (st : State) (b : Addr) (batch : Batch) : State :=
  { st with mem := Function.update st.mem b (some batch) }

/-- Call into a frame. -/
def call (st : State) (t : Tid) (f : Frame) : State := st.setStack t (f :: st.stack t)

/-- Add an event to the log. -/
def record (st : State) (event : Event) : State := { st with log := event :: st.log }

end State

/-- A thread runs user code when no collector call is in progress, or inside a reclaimer. -/
def userLevel : List Frame → Bool
  | [] => true
  | .reclaimer .. :: _ => true
  | _ => false

/-- Why a thread takes no step: the action does not apply, or the code has undefined behaviour. -/
inductive Stop where
  | disabled
  | undefinedBehaviour
  deriving DecidableEq, Repr

/-- The outcome of a step. -/
abbrev Result := Except Stop State

end Seize.Raw
