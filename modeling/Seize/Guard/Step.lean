import Seize.Raw.Step
import Seize.Tls.ThreadId

/-!
The guard layer: local and owned guards, the threads that use them, and the IDs they share.

A guard function decides which functions of the raw collector to call, and the steps below make
those calls on the raw collector's own model.
-/

namespace Seize.Guards

open Seize.Raw (Config SlotId Tid Ptr Reclaim Alloc Cell CellOp Stop)
open Seize.Tls (Usage)

/-- The two types of guards. -/
inductive Kind where
  /-- A `LocalGuard`, which never leaves its thread. -/
  | localTo (thread : Tid)
  /-- An `OwnedGuard`, which any thread may use. -/
  | owned
  deriving DecidableEq, Repr

/-- A guard. -/
structure Guard where
  /-- Ghost: a name of its own. -/
  name : Nat
  kind : Kind
  /-- The ID of `Guard::thread`, which also names the reservation. -/
  slot : SlotId
  deriving DecidableEq, Repr

/-- An owned guard whose `drop` is inside `leave`, called at a height of a thread's stack. -/
structure Dropping where
  thread : Tid
  height : Nat
  slot : SlotId
  deriving DecidableEq, Repr

/-- The lock of a reservation, held by a call that was made at a height of a thread's stack. -/
structure Lock where
  thread : Tid
  height : Nat
  slot : SlotId
  deriving DecidableEq, Repr

/-- A collector, its guards, and the threads of the program. -/
structure State where
  /-- The raw collector. -/
  raw : Raw.State
  /-- The thread IDs. -/
  ids : Usage
  /-- `THREAD` of every thread that has an ID. -/
  threads : List (Tid × SlotId)
  /-- `Reservation::guards`. -/
  guards : SlotId → Nat
  /-- Guards that were created and neither dropped nor leaked. -/
  live : List Guard
  /-- Guards that were leaked. -/
  leaked : List Guard
  /-- Calls of `OwnedGuard::drop` in progress, innermost first. -/
  drops : List Dropping
  /-- Reservation locks that are held. -/
  locks : List Lock
  /-- Ghost: the next name of a guard. -/
  nextName : Nat

/-- A new collector in a program whose threads have no IDs. -/
def State.init : State where
  raw := Raw.State.init
  ids := Usage.init
  threads := []
  guards _ := 0
  live := []
  leaked := []
  drops := []
  locks := []
  nextName := 0

/-- `THREAD` of a thread. -/
def State.thread (st : State) (t : Tid) : Option SlotId := st.threads.lookup t

/-- A reservation lock is held. -/
def State.locked (st : State) (s : SlotId) : Bool := st.locks.any (·.slot = s)

/-- The innermost `OwnedGuard::drop` of a thread. -/
def State.dropping (st : State) (t : Tid) : Option Dropping := st.drops.find? (·.thread = t)

/-- The `leave` of an `OwnedGuard::drop` has returned, and the ID is to be freed next. -/
def State.due (st : State) (t : Tid) : Bool :=
  match st.dropping t with
  | some d => (st.raw.stack t).length = d.height
  | none => false

/-- A thread can use a guard that it owns or shares. -/
def State.usable (st : State) (t : Tid) (g : Guard) : Bool :=
  g ∈ st.live ∧ (g.kind = .localTo t ∨ g.kind = .owned)

/-- `Thread::create`, which panics when the IDs are exhausted. -/
def createThread (cfg : Config) (ids : Usage) : Option (SlotId × Usage) :=
  match ids.manager.alloc cfg.width with
  | some (id, manager) =>
    if id < cfg.slots then some (id, { ids with manager := manager, live := id :: ids.live })
    else none
  | none => none

/-- `Thread::free`. The ID is lost when the heap of free IDs cannot grow. -/
def freeThread (ids : Usage) (reserved : Bool) (id : SlotId) : Usage where
  manager := ids.manager.free reserved id
  live := ids.live.erase id
  lost := if reserved then ids.lost else id :: ids.lost

/-- What a thread can do next. -/
inductive Action where
  /-- `Thread::current`, which every function below that uses the current thread begins with. -/
  | current
  /-- `LocalGuard::enter`, with the answer of the allocator if the reservation is absent. -/
  | enterLocal (alloc : Bool)
  /-- `OwnedGuard::enter`. -/
  | enterOwned (alloc reserved : Bool)
  /-- `Guard::refresh`. -/
  | refresh (g : Guard)
  /-- `drop` of a guard, up to the call of `leave`. -/
  | drop (g : Guard)
  /-- The end of `OwnedGuard::drop`. -/
  | finish (reserved : Bool)
  /-- `mem::forget` of a guard. -/
  | forget (g : Guard)
  /-- A thread exits, and its `ThreadGuard` is dropped. -/
  | exit (reserved : Bool)
  /-- `Guard::defer_retire`. -/
  | deferRetire (g : Guard) (p : Ptr) (f : Reclaim) (c : Alloc)
  /-- `Guard::reserve_retire`. -/
  | reserveRetire (g : Guard) (c : Alloc)
  /-- `Guard::flush`. -/
  | flush (g : Guard)
  /-- `Guard::protect` and its siblings. -/
  | access (g : Guard) (x : Cell) (op : CellOp)
  /-- `Collector::retire`. -/
  | retire (p : Ptr) (f : Reclaim) (c : Alloc)
  /-- `Collector::reserve_retire`. -/
  | reserve (c : Alloc)
  /-- `Collector::reclaim_all`. -/
  | reclaimAll
  /-- A reclaimer returns. -/
  | ret
  /-- A reclaimer panics. -/
  | panic
  /-- The innermost call takes its next step. -/
  | advance (spurious : Bool)
  /-- An iterator passes absent slots up to a target. -/
  | skip (target : Nat)
  deriving DecidableEq, Repr

/-- The steps of the raw collector that are not calls of user code. -/
def Action.inner : Action → Option Raw.Action
  | .ret => some .ret
  | .panic => some .panic
  | .advance spurious => some (.advance spurious)
  | .skip target => some (.skip target)
  | _ => none

/-- A call through a guard that works on the guard's batch, which an owned guard locks. -/
def onBatch (st : State) (t : Tid) (g : Guard) (call : Raw.Action) :
    Except Stop (List Raw.Action × State) :=
  if st.usable t g = false then .error .disabled
  else
    match g.kind with
    | .localTo _ => .ok ([call], st)
    | .owned =>
      if st.locked g.slot then .error .disabled
      else .ok ([call], { st with
        locks := ⟨t, (st.raw.stack t).length, g.slot⟩ :: st.locks })

/-- The calls an action makes of the raw collector, and what it changes in the guard layer. -/
def plan (cfg : Config) (st : State) (t : Tid) : Action → Except Stop (List Raw.Action × State)
  | .current =>
    match st.thread t with
    | some _ => .ok ([], st)
    | none =>
      match createThread cfg st.ids with
      | some (s, ids) => .ok ([], { st with ids := ids, threads := (t, s) :: st.threads })
      | none => .error .disabled
  | .enterLocal alloc =>
    match st.thread t with
    | none => .error .disabled
    | some s =>
      -- The reservation could not be allocated.
      if s ∉ st.raw.created ∧ alloc = false then .ok ([], st)
      else
        let guards := st.guards s
        if cfg.modulus ≤ guards + 1 then .error .disabled
        else .ok (.create s :: (if guards = 0 then [.enter s] else []), { st with
          guards := Function.update st.guards s (guards + 1)
          live := ⟨st.nextName, .localTo t, s⟩ :: st.live
          nextName := st.nextName + 1 })
  | .enterOwned alloc reserved =>
    match createThread cfg st.ids with
    | none => .error .disabled
    | some (s, ids) =>
      -- The thread slot is released if its reservation could not be allocated.
      if s ∉ st.raw.created ∧ alloc = false then
        .ok ([], { st with ids := freeThread ids reserved s })
      else .ok ([.create s, .enter s], { st with
        ids := ids
        live := ⟨st.nextName, .owned, s⟩ :: st.live
        nextName := st.nextName + 1 })
  | .refresh g =>
    if st.usable t g = false then .error .disabled
    else
      match g.kind with
      | .localTo _ => .ok (if st.guards g.slot = 1 then [.refresh g.slot] else [], st)
      -- A mutable reference excludes every shared use of the guard.
      | .owned => if st.locked g.slot then .error .disabled else .ok ([.refresh g.slot], st)
  | .drop g =>
    if st.usable t g = false then .error .disabled
    else
      match g.kind with
      | .localTo _ =>
        let guards := st.guards g.slot
        if guards = 0 then .error .disabled
        else .ok (if guards = 1 then [.leave g.slot] else [], { st with
          guards := Function.update st.guards g.slot (guards - 1)
          live := st.live.erase g })
      | .owned =>
        if st.locked g.slot then .error .disabled
        else .ok ([.leave g.slot], { st with
          live := st.live.erase g
          drops := ⟨t, (st.raw.stack t).length, g.slot⟩ :: st.drops })
  | .finish reserved =>
    match st.dropping t with
    | some d =>
      if (st.raw.stack t).length = d.height then
        .ok ([], { st with
          drops := st.drops.erase d
          ids := freeThread st.ids reserved d.slot })
      else .error .disabled
    | none => .error .disabled
  | .forget g =>
    if st.usable t g = false ∨ st.locked g.slot then .error .disabled
    else .ok ([], { st with live := st.live.erase g, leaked := g :: st.leaked })
  | .exit reserved =>
    if st.raw.stack t ≠ [] then .error .disabled
    else
      match st.thread t with
      | some s => .ok ([], { st with
        threads := st.threads.filter (·.1 ≠ t)
        ids := freeThread st.ids reserved s })
      | none => .ok ([], st)
  | .deferRetire g p f c => onBatch st t g (.add g.slot p f c)
  | .reserveRetire g c => onBatch st t g (.reserve g.slot c)
  | .flush g => onBatch st t g (.flush g.slot)
  | .access g x op =>
    if st.usable t g = false then .error .disabled else .ok ([.access g.slot x op], st)
  | .retire p f c =>
    match st.thread t with
    | some s => .ok ([.add s p f c], st)
    | none => .error .disabled
  | .reserve c =>
    match st.thread t with
    | some s => .ok ([.reserve s c], st)
    | none => .error .disabled
  | .reclaimAll => .ok ([.reclaimAll], st)
  | .ret => .ok ([.ret], st)
  | .panic => .ok ([.panic], st)
  | .advance spurious => .ok ([.advance spurious], st)
  | .skip target => .ok ([.skip target], st)

/-- Calls of the raw collector, one after the other. -/
def runCalls (cfg : Config) (t : Tid) : List Raw.Action → Raw.State → Raw.Result
  | [], raw => .ok raw
  | call :: rest, raw =>
    match Raw.step cfg raw (t, call) with
    | .ok raw => runCalls cfg t rest raw
    | .error stop => .error stop

/--
What happens as calls return: locks are released, and an unwound `OwnedGuard::drop` ends.

Such a `drop` never frees its ID.
-/
def settle (st : State) (t : Tid) (action : Action) : State :=
  { st with
    locks := st.locks.filter fun l => l.thread ≠ t ∨ l.height < (st.raw.stack t).length
    drops := if action = .panic then
        st.drops.filter fun d => d.thread ≠ t ∨ d.height < (st.raw.stack t).length
      else st.drops }

/--
An action has to wait.

User code runs only while no collector call is in progress or inside a reclaimer, and the end of an
`OwnedGuard::drop` comes before anything else its thread does.
-/
def blocked (st : State) (t : Tid) (action : Action) : Bool :=
  (action.inner = none ∧ Raw.userLevel (st.raw.stack t) = false) ∨
    (st.due t = true ∧ ∀ reserved, action ≠ .finish reserved)

/-- One step of one thread. -/
def step (cfg : Config) (st : State) (move : Tid × Action) : Except Stop State :=
  if blocked st move.1 move.2 then .error .disabled
  else
    match plan cfg st move.1 move.2 with
    | .error stop => .error stop
    | .ok (calls, next) =>
      match runCalls cfg move.1 calls st.raw with
      | .error stop => .error stop
      | .ok raw => .ok (settle { next with raw := raw } move.1 move.2)

end Seize.Guards
