import Seize.Raw.State

/-!
The operations of the raw collector, cut at their atomic accesses.

Barriers and fences are steps of their own only in the source: the steps here are sequentially
consistent, which is the order those barriers establish.
-/

namespace Seize.Raw

/-- Mark a slot active with an empty list, which begins an activity period. -/
def beginPeriod (st : State) (s : SlotId) : State :=
  { st with
    head := Function.update st.head s (.list none)
    since := Function.update st.since s st.clock
    pushed := Function.update st.pushed s []
    protect := Function.update st.protect s [] }

/-- Mark a slot inactive, which ends its activity period. -/
def endPeriod (st : State) (s : SlotId) : State :=
  { st with
    head := Function.update st.head s .inactive
    pushed := Function.update st.pushed s []
    protect := Function.update st.protect s [] }

/-- `Collector::enter`: the light store that marks a slot active. -/
def enter (st : State) (s : SlotId) : State := beginPeriod st s

/-- `Collector::leave`: the swap to `INACTIVE`, then the call of `traverse` on what was there. -/
def leave (st : State) (t : Tid) (s : SlotId) : State :=
  match st.head s with
  | .inactive => endPeriod st s
  | .list first => (endPeriod st s).call t (.traverse first (st.pushed s))

/-- `Collector::refresh`: the swap to an empty list, then the call of `traverse`. -/
def refresh (st : State) (t : Tid) (s : SlotId) : State :=
  match st.head s with
  | .inactive => beginPeriod st s
  | .list first => (beginPeriod st s).call t (.traverse first (st.pushed s))

/-- What the allocator answers to the requests a call may make, and the values it picks. -/
structure Alloc where
  /-- The bucket behind a slot of the `batches` table. -/
  slot : Bool
  /-- The entries vector of a new batch. -/
  entries : Bool
  /-- The box of a new batch. -/
  box : Bool
  /-- The growth of an entries vector. -/
  grow : Bool
  /-- The address of a new batch. -/
  addr : Addr
  /-- The capacity a grown vector asks for, beyond the one entry it needs. -/
  cap : Nat
  deriving DecidableEq, Repr

/-- `self.batches.load(thread)` for a slot whose bucket is there or was just allocated. -/
def loadBatch (st : State) (s : SlotId) : State :=
  if s ∈ st.batchSlots then st else { st with batchSlots := s :: st.batchSlots }

/-- `Batch::new`, boxed: an empty batch of a slot. -/
def newBatch (cfg : Config) (st : State) (s : SlotId) : Batch where
  entries := []
  active := 0
  cap := cfg.batchSize
  phase := .pending s
  scanned := none
  uid := st.nextUid

/-- The allocator calls of a new entries vector. A capacity of zero allocates nothing. -/
def entriesAlloc (b : Addr) (cap : Nat) : List (MemEvent Block Layout) :=
  if cap = 0 then [] else [.alloc (.entries b) (.entries cap)]

/-- The allocator calls of a dropped entries vector. -/
def entriesDealloc (b : Addr) (cap : Nat) : List (MemEvent Block Layout) :=
  if cap = 0 then [] else [.dealloc (.entries b) (.entries cap)]

/--
`LocalBatch::get_or_init`, with `none` where it returns `Err`.

A batch whose box could not be allocated is dropped, and its entries vector with it.
-/
def getOrInit (cfg : Config) (st : State) (s : SlotId) (c : Alloc) :
    Except Stop (State × Option LocalBatch) :=
  match st.batch s with
  | .null =>
    -- An allocator never hands out a block that is in use.
    if (st.mem c.addr).isSome then .error .disabled
    else if cfg.batchSize ≠ 0 ∧ c.entries = false then .ok (st, none)
    else if c.box = false then
      .ok ({ st with ledger := entriesDealloc c.addr cfg.batchSize ++
        (entriesAlloc c.addr cfg.batchSize ++ st.ledger) }, none)
    else
      .ok ({ st.setBatch c.addr (newBatch cfg st s) with
        batch := Function.update st.batch s (.ptr c.addr)
        nextUid := st.nextUid + 1
        ledger := .alloc (.box c.addr) .batch ::
          (entriesAlloc c.addr cfg.batchSize ++ st.ledger) }, some (.ptr c.addr))
  | held => .ok (st, some held)

/-- `Vec::try_reserve(1)`: a full vector has to grow, every other one has room. -/
def tryReserve (batch : Batch) (c : Alloc) : Option Batch :=
  if batch.entries.length < batch.cap then some batch
  else if c.grow then some { batch with cap := max c.cap (batch.entries.length + 1) }
  else none

/-- The allocator calls of `try_reserve`, which reallocates when the capacity changes. -/
def reserveCalls (b : Addr) (old new : Nat) : List (MemEvent Block Layout) :=
  if old = new then [] else entriesAlloc b new ++ entriesDealloc b old

/-- What the common part of `add` and `reserve` found. -/
inductive Prepared where
  /-- An allocation failed. -/
  | failed
  /-- The slot holds the `DROP` sentinel. -/
  | immediate
  /-- The batch at this address has room for one more entry. -/
  | ready (batch : Addr)
  deriving DecidableEq, Repr

/-- The part that `add` and `reserve` share: load the batch, initialize it, and make room. -/
def prepare (cfg : Config) (st : State) (s : SlotId) (c : Alloc) :
    Except Stop (State × Prepared) :=
  if s ∉ st.batchSlots ∧ c.slot = false then .ok (st, .failed)
  else
    match getOrInit cfg (loadBatch st s) s c with
    | .error stop => .error stop
    | .ok (st, none) => .ok (st, .failed)
    | .ok (_, some .null) => .error .undefinedBehaviour
    | .ok (st, some .drop) => .ok (st, .immediate)
    | .ok (st, some (.ptr b)) =>
      match st.mem b with
      | none => .error .undefinedBehaviour
      | some batch =>
        match tryReserve batch c with
        | none => .ok (st, .failed)
        | some grown =>
          .ok ({ st.setBatch b grown with
            ledger := reserveCalls b batch.cap grown.cap ++ st.ledger }, .ready b)

/-- The start of `Collector::try_retire`, up to the first load of its scan. -/
def tryRetire (st : State) (t : Tid) (s : SlotId) : Result :=
  match st.batch s with
  | .null => .ok st
  | .drop => .ok st
  | .ptr b =>
    match st.mem b with
    | none => .error .undefinedBehaviour
    | some _ => .ok (st.call t (.scan s b st.clock 0 0))

/-- The entry that `add` pushes. -/
def newEntry (b : Addr) (p : Ptr) (f : Reclaim) (rid : Nat) : Entry where
  ptr := p
  reclaim := f
  state := .head none
  batch := b
  rid := rid
  link := .unlinked

/--
`Collector::add`.

Its result is decided before `try_retire` runs, so it is recorded here.
-/
def add (cfg : Config) (st : State) (t : Tid) (s : SlotId) (p : Ptr) (f : Reclaim) (c : Alloc) :
    Result :=
  let rid := st.nextRid
  match prepare cfg { st with nextRid := rid + 1 } s c with
  | .error stop => .error stop
  | .ok (st, .failed) => .ok (st.record (.refused rid))
  | .ok (st, .immediate) =>
    -- During `reclaim_all` the object is reclaimed at once.
    .ok (((st.record (.retired rid p f)).record (.reclaimed rid p f none)).call t
      (.reclaimer rid p f))
  | .ok (st, .ready b) =>
    match st.mem b with
    | none => .error .undefinedBehaviour
    | some batch =>
      let entries := batch.entries ++ [newEntry b p f rid]
      let st := (st.setBatch b { batch with entries := entries }).record (.retired rid p f)
      if entries.length ≥ cfg.batchSize then tryRetire st t s else .ok st

/-- `Collector::reserve`. -/
def reserve (cfg : Config) (st : State) (s : SlotId) (c : Alloc) : Result :=
  match prepare cfg st s c with
  | .error stop => .error stop
  | .ok (st, _) => .ok st

/-- `Collector::try_retire_batch`, which never initializes a slot. -/
def tryRetireBatch (st : State) (t : Tid) (s : SlotId) : Result :=
  if s ∈ st.batchSlots then tryRetire st t s else .ok st

/-- Write the union field of an entry of a batch. -/
def Batch.setState (batch : Batch) (i : Nat) (state : EntryState) : Batch :=
  { batch with entries := batch.entries.modify i ({ · with state := state }) }

/-- Ghost: move an entry of a batch along in its life as a list node. -/
def Batch.setLink (batch : Batch) (i : Nat) (link : Link) : Batch :=
  { batch with entries := batch.entries.modify i ({ · with link := link }) }

/--
One step of the marking scan: the iterator looks at one slot.

Past the last slot the batch is committed, and the local batch reset before anything is linked.
-/
def scanStep (cfg : Config) (st : State) (t : Tid) (below : List Frame) (s : SlotId) (b : Addr)
    (start cursor marked : Nat) : Result :=
  match st.mem b with
  | none => .error .undefinedBehaviour
  | some batch =>
    if cursor ≥ cfg.slots then
      .ok ((({ st with batch := Function.update st.batch s .null }.setBatch b
        { batch with phase := .retiring t below.length, scanned := some start }).record
          (.committed batch.uid)).setStack t (.link b marked 0 0 none :: below))
    else if cursor ∉ st.created ∨ st.head cursor = .inactive then
      .ok (st.setStack t (.scan s b start (cursor + 1) marked :: below))
    else if marked < batch.entries.length then
      .ok ((st.setBatch b (batch.setState marked (.head (some cursor)))).setStack t
        (.scan s b start (cursor + 1) (marked + 1) :: below))
    else
      -- Too few entries for the active slots: try again later.
      .ok (st.setStack t below)

/-- One step of the linking loop: a head load, a compare-exchange, or the final addition. -/
def linkStep (cfg : Config) (st : State) (t : Tid) (below : List Frame) (b : Addr)
    (marked i active : Nat) (seen : Option (SlotId × Head)) (spurious : Bool) : Result :=
  match st.mem b with
  | none => .error .undefinedBehaviour
  | some batch =>
    if i ≥ marked then
      let count := (batch.active + active) % cfg.modulus
      if count = 0 then
        .ok ((((st.setBatch b
          { batch with active := count, phase := .freeing t below.length }).record
            (.counted batch.uid)).record (.freed batch.uid .fetchAdd)).setStack t
              (.freeBatch (.ptr b) 0 :: below))
      else
        .ok (((st.setBatch b { batch with active := count, phase := .shared }).record
          (.counted batch.uid)).setStack t below)
    else
      match seen with
      | none =>
        match batch.entries[i]? with
        | some { state := .head (some s), .. } =>
          .ok (st.setStack t (.link b marked i active (some (s, st.head s)) :: below))
        | _ => .error .undefinedBehaviour
      | some (_, .inactive) =>
        -- The slot became inactive, so its entry is not linked.
        .ok (st.setStack t (.link b marked (i + 1) active none :: below))
      | some (s, .list prev) =>
        let linking := batch.setState i (.next prev)
        if st.head s = .list prev ∧ spurious = false then
          .ok (({ st with
            head := Function.update st.head s (.list (some ⟨b, i⟩))
            pushed := Function.update st.pushed s (⟨b, i⟩ :: st.pushed s) }.setBatch b
              (linking.setLink i .linked)).setStack t
                (.link b marked (i + 1) (active + 1) none :: below))
        else
          .ok ((st.setBatch b linking).setStack t
            (.link b marked i active (some (s, st.head s)) :: below))

/-- One turn of the loop of `traverse`: advance the cursor and decrement the batch's count. -/
def traverseStep (cfg : Config) (st : State) (t : Tid) (below : List Frame)
    (list : Option EntryPtr) (rest : List EntryPtr) : Result :=
  match list with
  | none => .ok (st.setStack t below)
  | some curr =>
    match entryIn st.mem curr with
    | some { state := .next next, batch := b, .. } =>
      match st.mem b with
      | none => .error .undefinedBehaviour
      | some batch =>
        let released := { batch.setLink curr.index .released with
          active := (batch.active + (cfg.modulus - 1)) % cfg.modulus }
        if batch.active = 1 then
          .ok (((st.setBatch b { released with phase := .freeing t (below.length + 1) }).record
            (.freed batch.uid .fetchSub)).setStack t
              (.freeBatch (.ptr b) 0 :: .traverse next rest.tail :: below))
        else
          .ok ((st.setBatch b released).setStack t (.traverse next rest.tail :: below))
    | _ => .error .undefinedBehaviour

/-- One turn of the loop of `free_batch`, or the deallocation after the last entry. -/
def freeBatchStep (st : State) (t : Tid) (below : List Frame) (batchPtr : LocalBatch) (i : Nat) :
    Result :=
  match batchPtr with
  | .ptr b =>
    match st.mem b with
    | none => .error .undefinedBehaviour
    | some batch =>
      match batch.entries[i]? with
      | some entry =>
        .ok ((st.record (.reclaimed entry.rid entry.ptr entry.reclaim batch.scanned)).setStack t
          (.reclaimer entry.rid entry.ptr entry.reclaim :: .freeBatch batchPtr (i + 1) :: below))
      | none =>
        .ok ({ st with
          mem := Function.update st.mem b none
          ledger := .dealloc (.box b) .batch ::
            (entriesDealloc b batch.cap ++ st.ledger) }.setStack t below)
  | _ => .error .undefinedBehaviour

/-- Ghost: `free_batch` was called on a batch by `reclaim_all`. -/
def startFree (st : State) (batchPtr : LocalBatch) (t : Tid) (height : Nat) : State :=
  match batchPtr with
  | .ptr b =>
    match st.mem b with
    | some batch =>
      (st.setBatch b { batch with phase := .freeing t height }).record (.freed batch.uid .reclaimAll)
    | none => st
  | _ => st

/--
One turn of the loop of `reclaim_all`.

Only a null batch is skipped, and every other one is replaced by the sentinel and freed.
-/
def reclaimAllStep (cfg : Config) (st : State) (t : Tid) (below : List Frame) (cursor : Nat) :
    Result :=
  if cursor ≥ cfg.slots then .ok (st.setStack t below)
  else if cursor ∉ st.batchSlots ∨ st.batch cursor = .null then
    .ok (st.setStack t (.reclaimAll (cursor + 1) :: below))
  else
    let marked := { st with batch := Function.update st.batch cursor .drop }
    .ok ((startFree marked (st.batch cursor) t (below.length + 1)).setStack t
      (.freeBatch (st.batch cursor) 0 :: .reclaimReset cursor :: below))

/-- The reset of a slot after `reclaim_all` has freed its batch. -/
def reclaimResetStep (st : State) (t : Tid) (below : List Frame) (cursor : Nat) : Result :=
  .ok ({ st with batch := Function.update st.batch cursor .null }.setStack t
    (.reclaimAll (cursor + 1) :: below))

/-- The next step of the innermost call of a thread. -/
def advance (cfg : Config) (st : State) (t : Tid) (spurious : Bool) : Result :=
  match st.stack t with
  | .scan s b start cursor marked :: below => scanStep cfg st t below s b start cursor marked
  | .link b marked i active seen :: below => linkStep cfg st t below b marked i active seen spurious
  | .traverse list rest :: below => traverseStep cfg st t below list rest
  | .freeBatch batchPtr i :: below => freeBatchStep st t below batchPtr i
  | .reclaimAll cursor :: below => reclaimAllStep cfg st t below cursor
  | .reclaimReset cursor :: below => reclaimResetStep st t below cursor
  | _ => .error .disabled

/-- An iterator passes a whole run of absent slots when their bucket is not allocated. -/
def skip (cfg : Config) (st : State) (t : Tid) (target : Nat) : Result :=
  match st.stack t with
  | .scan s b start cursor marked :: below =>
    if target ≤ cfg.slots ∧ cursor ≤ target ∧ ∀ s ∈ st.created, s < cursor ∨ target ≤ s then
      .ok (st.setStack t (.scan s b start target marked :: below))
    else .error .disabled
  | .reclaimAll cursor :: below =>
    if target ≤ cfg.slots ∧ cursor ≤ target ∧ ∀ s ∈ st.batchSlots, s < cursor ∨ target ≤ s then
      .ok (st.setStack t (.reclaimAll target :: below))
    else .error .disabled
  | _ => .error .disabled

/-- A reclaimer panics: its caller's frames are gone up to the next frame of user code. -/
def unwind : List Frame → List Frame
  | [] => []
  | .reclaimer rid p f :: below => .reclaimer rid p f :: below
  | _ :: below => unwind below

/-- An access of a shared cell through `protect`, `swap` or `compare_exchange`. -/
inductive CellOp where
  | load
  | swap (value : Option Ptr)
  | compareExchange (current new : Option Ptr) (spurious : Bool)
  deriving DecidableEq, Repr

/-- The value an access leaves in the cell. -/
def CellOp.apply : CellOp → Option Ptr → Option Ptr
  | .load, old => old
  | .swap value, _ => value
  | .compareExchange current new spurious, old =>
    if old = current ∧ spurious = false then new else old

/-- The atomic access behind `Guard::protect` and its siblings, made by the owner of a slot. -/
def cellStep (st : State) (s : SlotId) (x : Cell) (op : CellOp) : State :=
  { st with
    cells := Function.update st.cells x (op.apply (st.cells x))
    protect := Function.update st.protect s ((st.cells x).toList ++ st.protect s) }

/-- What a thread can do next. -/
inductive Action where
  /-- `self.reservations.load(thread)` makes a slot present. -/
  | create (s : SlotId)
  | enter (s : SlotId)
  | leave (s : SlotId)
  | refresh (s : SlotId)
  | add (s : SlotId) (p : Ptr) (f : Reclaim) (c : Alloc)
  | reserve (s : SlotId) (c : Alloc)
  /-- `try_retire_batch`. -/
  | flush (s : SlotId)
  /-- `reclaim_all`, which is also all that `Drop for Collector` does before its fields are dropped. -/
  | reclaimAll
  /-- A reclaimer returns. -/
  | ret
  /-- A reclaimer panics. -/
  | panic
  /-- A guarded access of a shared cell. -/
  | access (s : SlotId) (x : Cell) (op : CellOp)
  /-- The innermost call takes its next step. -/
  | advance (spurious : Bool)
  /-- An iterator passes absent slots up to a target. -/
  | skip (target : Nat)
  deriving DecidableEq, Repr

/-- The effect of an action. -/
def act (cfg : Config) (st : State) (t : Tid) : Action → Result
  | .advance spurious => advance cfg st t spurious
  | .skip target => skip cfg st t target
  | .ret =>
    match st.stack t with
    | .reclaimer .. :: below => .ok (st.setStack t below)
    | _ => .error .disabled
  | .panic =>
    match st.stack t with
    | .reclaimer .. :: below => .ok (st.setStack t (unwind below))
    | _ => .error .disabled
  -- Every other action is a call made by user code.
  | action =>
    if userLevel (st.stack t) = false then .error .disabled
    else
      match action with
      | .create s => .ok (if s ∈ st.created then st else { st with created := s :: st.created })
      | .enter s => .ok (Raw.enter st s)
      | .leave s => .ok (Raw.leave st t s)
      | .refresh s => .ok (Raw.refresh st t s)
      | .add s p f c => Raw.add cfg st t s p f c
      | .reserve s c => Raw.reserve cfg st s c
      | .flush s => tryRetireBatch st t s
      | .reclaimAll => .ok (st.call t (.reclaimAll 0))
      | .access s x op => .ok (cellStep st s x op)
      | _ => .error .disabled

/-- Count a step. -/
def tick (st : State) : State := { st with clock := st.clock + 1 }

/-- One step of one thread. -/
def step (cfg : Config) (st : State) (move : Tid × Action) : Result :=
  (act cfg st move.1 move.2).map tick

/-- The calls that read or write the local batch of a slot between two of their steps. -/
def Frame.usesBatch : Frame → SlotId → Bool
  | .scan slot .., s => slot = s
  | .reclaimAll _, _ => true
  | .reclaimReset _, _ => true
  | _, _ => false

/-- The current thread has unique access to the local batch of a slot. -/
def UniqueAccess (st : State) (t : Tid) (s : SlotId) : Prop :=
  ∀ t', t' ≠ t → ∀ f ∈ st.stack t', f.usesBatch s = false

/--
What the safety sections of the raw collector ask about access.

Slots are those of thread IDs, reservations are loaded before they are used, and a local batch has
one user at a time.
-/
def Access (cfg : Config) (st : State) (move : Tid × Action) : Prop :=
  match move.2 with
  | .create s => s < cfg.slots
  | .enter s => s ∈ st.created
  | .leave s => s ∈ st.created
  | .refresh s => s ∈ st.created
  | .add s _ _ _ => s < cfg.slots ∧ UniqueAccess st move.1 s
  | .reserve s _ => s < cfg.slots ∧ UniqueAccess st move.1 s
  | .flush s => UniqueAccess st move.1 s
  | .reclaimAll => ∀ s, UniqueAccess st move.1 s
  | _ => True

/-- The whole contract: in addition, a slot is entered only while it is inactive. -/
def Contract (cfg : Config) (st : State) (move : Tid × Action) : Prop :=
  Access cfg st move ∧ ∀ s, move.2 = .enter s → st.head s = .inactive

end Seize.Raw
