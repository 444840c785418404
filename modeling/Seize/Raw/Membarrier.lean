import Seize.Lib.StoreBuffer
import Seize.Raw.Protect
import Seize.Raw.Sweep

/-!
The barriers of the collector, on a machine with store buffers.

The store of `enter` is the only plain store that other threads look for. It may wait in the buffer
of its thread while the thread already loads pointers, and `try_retire` makes up for that with a
barrier in all threads.
-/

namespace Seize.Raw

/-- The orderings that the light barriers use. -/
inductive MemOrdering where
  | relaxed
  | seqCst
  deriving DecidableEq, Repr

/-- `STRATEGY`: what Linux was found to offer. -/
inductive Strategy where
  | membarrier
  | mprotect
  | fallback
  deriving DecidableEq, Repr

/-- The modules that `membarrier` may be built from. -/
inductive Platform where
  /-- `default`, which is also used when fast barriers are not asked for. -/
  | default
  | linux
  | windows
  deriving DecidableEq, Repr

/-- What a heavy barrier does. -/
inductive Heavy where
  /-- A fence of the thread that issues it. -/
  | fence
  /-- A barrier in all threads of the process. -/
  | processWide
  deriving DecidableEq, Repr

/-- What the system answers to `detect`. -/
structure System where
  /-- The result of `MEMBARRIER_CMD_QUERY`. -/
  query : Int
  /-- The result of `MEMBARRIER_CMD_REGISTER_PRIVATE_EXPEDITED`. -/
  register : Int
  /-- The architecture is x86 or x86-64. -/
  x86 : Bool
  deriving DecidableEq, Repr

/-- `membarrier::is_supported`: both commands are there, and the process could be registered. -/
def membarrierSupported (system : System) : Bool :=
  if system.query < 0 ∨ system.query.toNat &&& 2 ^ 3 = 0 ∨ system.query.toNat &&& 2 ^ 4 = 0 then
    false
  else if system.register < 0 then false
  else true

/-- `detect`, which every new collector calls. -/
def detect : Platform → System → Strategy → Strategy
  | .linux, system, strategy =>
    if membarrierSupported system then .membarrier
    else if system.x86 then .mprotect
    else strategy
  | _, _, strategy => strategy

/-- `light_store`: the ordering of the store in `enter`. -/
def lightStore : Platform → Strategy → MemOrdering
  | .default, _ => .seqCst
  | .linux, .fallback => .seqCst
  | .linux, _ => .relaxed
  | .windows, _ => .relaxed

/-- `heavy`: the barrier in `try_retire`. -/
def heavy : Platform → Strategy → Heavy
  | .default, _ => .fence
  | .linux, .membarrier => .processWide
  | .linux, .mprotect => .processWide
  | .linux, .fallback => .fence
  | .windows, _ => .processWide

/-- A barrier that is a fence only goes with stores that are visible at once. -/
theorem heavy_fence_iff (platform : Platform) (strategy : Strategy) :
    heavy platform strategy = .fence ↔ lightStore platform strategy = .seqCst := by
  cases platform <;> cases strategy <;> decide

/-- Detection never gives up a strategy that lets stores wait. -/
theorem detect_seqCst {platform : Platform} {system : System} {strategy : Strategy}
    (strong : lightStore platform (detect platform system strategy) = .seqCst) :
    lightStore platform strategy = .seqCst := by
  cases platform with
  | default => rfl
  | windows => exact strong
  | linux =>
    simp only [detect] at strong
    split at strong
    · cases strong
    · split at strong
      · cases strong
      · exact strong

/-- How far a thread is with the barrier of its scan. -/
inductive Barrier where
  /-- Not begun. -/
  | due
  /-- Begun at a time, and waiting. -/
  | running (kind : Heavy) (began : Nat)
  | passed
  deriving DecidableEq, Repr

/-- A collector on a machine with store buffers. -/
structure Buffered where
  /-- What memory shows, together with the calls in progress. -/
  memory : State
  strategy : Strategy
  /-- The stores of `enter` that memory does not show yet, in the order of issue. -/
  stores : List (Store SlotId)
  barrier : Tid → Barrier
  /-- Ghost: the pointers that a slot has loaded since its waiting store was issued. -/
  early : SlotId → List Ptr

/-- A collector that nobody has used. -/
def Buffered.init : Buffered where
  memory := State.init
  strategy := .fallback
  stores := []
  barrier _ := .due
  early _ := []

/-- A scan is the innermost call. -/
def scanning (frames : List Frame) : Bool := (scanOf frames).isSome

/-- The steps that a thread makes only with an empty buffer: atomic updates and full fences. -/
def locked (st : State) (t : Tid) : Action → Bool
  | .leave _ => true
  | .refresh _ => true
  -- A slot that is written to a `ThreadLocal` is followed by a fence.
  | .create s => decide (s ∉ st.created)
  | .add s _ _ c => decide (s ∉ st.batchSlots) && c.slot
  | .reserve s c => decide (s ∉ st.batchSlots) && c.slot
  | .access _ _ op => decide (op ≠ .load)
  | .advance _ =>
    match st.stack t with
    | .link _ marked i _ none :: _ => decide (marked ≤ i)
    | .link _ _ _ _ (some (_, .list _)) :: _ => true
    | .traverse (some _) _ :: _ => true
    | _ => false
  | _ => false

/-- Ghost: the pointers that slots have loaded after a step. -/
def loadedBy (st : State) (early : SlotId → List Ptr) : Action → SlotId → List Ptr
  | .access s x _ => Function.update early s ((st.cells x).toList ++ early s)
  | _ => early

/-- What a thread can do next on a machine with store buffers. -/
inductive Op where
  /-- A step of the collector other than `enter`, on what memory shows. -/
  | run (action : Action)
  /-- `enter`, up to the light store. -/
  | enter (s : SlotId)
  /-- The oldest store of the thread reaches memory. -/
  | drain
  /-- The heavy barrier before a scan begins. -/
  | heavy
  /-- The heavy barrier returns. -/
  | fenced
  /-- A new collector is made. -/
  | detect (system : System)
  deriving DecidableEq, Repr

namespace Buffered

/-- A step of the collector. A scan loads no head before its barrier has returned. -/
def run (cfg : Config) (bs : Buffered) (t : Tid) (action : Action) : Except Stop Buffered :=
  if locked bs.memory t action && !Store.drained bs.stores t then .error .disabled
  else if scanning (bs.memory.stack t) && bs.barrier t != .passed then .error .disabled
  else
    match action with
    | .enter _ => .error .disabled
    | action =>
      match Raw.step cfg bs.memory (t, action) with
      | .error stop => .error stop
      | .ok memory =>
        .ok { bs with
          memory := memory
          barrier := if scanning (memory.stack t) && !scanning (bs.memory.stack t) then
            Function.update bs.barrier t .due else bs.barrier
          early := loadedBy bs.memory bs.early action }

/-- The light store of `enter`: a strong one waits for the buffer, a relaxed one waits in it. -/
def enter (platform : Platform) (cfg : Config) (bs : Buffered) (t : Tid) (s : SlotId) :
    Except Stop Buffered :=
  match lightStore platform bs.strategy with
  | .seqCst =>
    if Store.drained bs.stores t then
      (Raw.step cfg bs.memory (t, .enter s)).map fun memory => { bs with memory := memory }
    else .error .disabled
  | .relaxed =>
    if userLevel (bs.memory.stack t) then
      .ok { bs with
        memory := tick bs.memory
        stores := bs.stores ++ [⟨t, bs.memory.clock, s⟩]
        early := Function.update bs.early s [] }
    else .error .disabled

/-- Memory after a store of `enter`, whose period began when the store was issued. -/
def arrive (st : State) (s : SlotId) (time : Nat) (held : List Ptr) : State :=
  { tick (Raw.enter st s) with
    since := Function.update st.since s time
    protect := Function.update st.protect s held }

/-- The oldest store of a thread reaches memory. -/
def drain (bs : Buffered) (t : Tid) : Except Stop Buffered :=
  match Store.oldest bs.stores t with
  | none => .error .disabled
  | some store =>
    .ok { bs with
      memory := arrive bs.memory store.write store.time (bs.early store.write)
      stores := Store.drain bs.stores t }

/-- Both kinds of barrier begin with a fence of the thread itself. -/
def beginHeavy (platform : Platform) (bs : Buffered) (t : Tid) : Except Stop Buffered :=
  if scanning (bs.memory.stack t) && bs.barrier t == .due && Store.drained bs.stores t then
    .ok { bs with
      memory := tick bs.memory
      barrier := Function.update bs.barrier t
        (.running (Raw.heavy platform bs.strategy) bs.memory.clock) }
  else .error .disabled

/-- A process-wide barrier returns when all stores issued before it have reached memory. -/
def endHeavy (bs : Buffered) (t : Tid) : Except Stop Buffered :=
  match bs.barrier t with
  | .running kind began =>
    if kind = .fence ∨ Store.settled bs.stores began then
      .ok { bs with memory := tick bs.memory, barrier := Function.update bs.barrier t .passed }
    else .error .disabled
  | _ => .error .disabled

/-- One step of one thread, or of its buffer. -/
def step (platform : Platform) (cfg : Config) (bs : Buffered) (move : Tid × Op) :
    Except Stop Buffered :=
  match move.2 with
  | .run action => bs.run cfg move.1 action
  | .enter s => bs.enter platform cfg move.1 s
  | .drain => bs.drain move.1
  | .heavy => bs.beginHeavy platform move.1
  | .fenced => bs.endHeavy move.1
  | .detect system => .ok { bs with strategy := Raw.detect platform system bs.strategy }

/-- A slot whose store still waits. -/
def Waits (bs : Buffered) (s : SlotId) : Prop := ∃ store ∈ bs.stores, store.write = s

/--
The rules of a careful run, for a machine with store buffers.

A slot that is left or refreshed by another thread than the one that entered it was handed over, so
its store has reached memory.
-/
def Careful (cfg : Config) (bs : Buffered) (move : Tid × Op) : Prop :=
  match move.2 with
  | .run action => Raw.Careful cfg bs.memory (move.1, action) ∧
    ∀ s, action = .leave s ∨ action = .refresh s →
      ∀ store ∈ bs.stores, store.write = s → store.thread = move.1
  | .enter s => s ∈ bs.memory.created ∧ bs.memory.head s = .inactive ∧ ¬ bs.Waits s
  | _ => True

end Buffered

end Seize.Raw
