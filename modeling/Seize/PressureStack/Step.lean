import Seize.Raw.Step
import Seize.Lib.Linearize

/-!
A lock-free stack whose nodes a collector reclaims: `PressureStack` of the test suite.

Pointers carry the name of the node they were made for and its address. A comparison of pointers
sees addresses, which the allocator hands out again, and an access through a pointer needs the node
itself.
-/

namespace Seize.PressureStack

open Seize.Raw (Config Tid Ptr Reclaim Alloc Event)

variable {V : Type}

/-- A node, with `next` null at the bottom of the stack. -/
structure Node (V : Type) where
  data : V
  next : Option Ptr
  deriving DecidableEq, Repr

/-- The operations of a stack. -/
inductive Op (V : Type) where
  | push (value : V)
  | pop
  deriving DecidableEq, Repr

/-- What the operations return. -/
inductive Reply (V : Type) where
  | pushed
  | popped (value : Option V)
  deriving DecidableEq, Repr

/-- The stack as its users think of it, the top first. -/
def apply : List V → Op V → List V × Reply V
  | values, .push value => (value :: values, .pushed)
  | [], .pop => ([], .popped none)
  | value :: values, .pop => (values, .popped (some value))

/-- A call of `push` or `pop`, about to make its next access. -/
inductive Call (V : Type) where
  /-- `push` loads the head and stores it in its node. -/
  | pushLoad (new : Ptr)
  /-- `push` tries to replace the head by its node. -/
  | pushSwap (new : Ptr) (head : Option Ptr)
  /-- `pop` loads the head. -/
  | popLoad
  /-- `pop` reads `next` of the node it loaded. -/
  | popNext (head : Ptr)
  /-- `pop` reserves the retirement. -/
  | popReserve (head : Ptr) (next : Option Ptr)
  /-- `pop` tries to unlink the node. -/
  | popSwap (head : Ptr) (next : Option Ptr) (reserved : Bool)
  /-- `pop` reads the data of the node it unlinked. -/
  | popRead (head : Ptr) (reserved : Bool)
  /-- `pop` retires the node. -/
  | popRetire (head : Ptr) (data : V) (reserved : Bool)
  /-- `pop` puts the node it could not retire on the list of stashed nodes. -/
  | popStash (head : Ptr) (data : V)
  /-- The call returns. -/
  | returning (reply : Reply V)
  deriving DecidableEq, Repr

/-- Ghost: the life of a node. -/
inductive Place where
  /-- The name has not been used. -/
  | unborn
  /-- The call of `push` that allocated it has yet to publish it. -/
  | fresh (thread : Tid)
  | linked
  /-- The call of `pop` that unlinked it has yet to dispose of it. -/
  | unlinked (thread : Tid)
  | stashed
  | retired
  /-- Freed by `free_stashed`. -/
  | freed
  deriving DecidableEq, Repr

/-- A stack, its nodes, and the threads that use it. -/
structure State (V : Type) where
  /-- The collector. Its cell 0 is the head of the stack, and thread `t` has the thread ID `t`. -/
  raw : Raw.State
  /-- Nodes that are allocated. -/
  nodes : Ptr → Option (Node V)
  /-- The addresses of nodes, which pointers keep when their node has been freed. -/
  address : Ptr → Nat
  /-- The name of the next node. -/
  next : Ptr
  /-- The calls of `push` and `pop`. -/
  calls : Tid → Option (Call V)
  /-- Whether a thread has a guard. -/
  guarded : Tid → Bool
  /-- Nodes that could not be retired. -/
  stashed : List Ptr
  /-- Ghost: where every node is in its life. -/
  place : Ptr → Place
  /-- Ghost: the calls and returns so far, newest first. -/
  history : List (Seen (Op V) (Reply V))

/-- An empty stack that nobody has used. -/
def State.init (V : Type) : State V where
  raw := .init
  nodes _ := none
  address _ := 0
  next := 0
  calls _ := none
  guarded _ := false
  stashed := []
  place _ := .unborn
  history := []

/-- Why a thread takes no step. -/
inductive Fault where
  /-- The action does not apply. -/
  | disabled
  /-- An access to a node that is not allocated, a double free, or one of the collector's own. -/
  | undefinedBehaviour
  /-- `assert!(!reserved)` fails. -/
  | assertion
  deriving DecidableEq, Repr

/-- The outcome of a step. -/
abbrev Result (V : Type) := Except Fault (State V)

/-- `reclaim::boxed`, the only reclaimer of the stack. -/
def boxed : Reclaim := 0

/-- The object whose reclaimer a step of the collector has just called. -/
def invokedBy (before after : Raw.State) : Option Ptr :=
  if before.log.length < after.log.length then
    match after.log with
    | .reclaimed _ p _ _ :: _ => some p
    | _ => none
  else none

/--
A step of the collector.

A reclaimer that it calls frees the node at once, since it reads nothing but the node.
-/
def collect (cfg : Config) (st : State V) (t : Tid) (action : Raw.Action) : Result V :=
  match Raw.step cfg st.raw (t, action) with
  | .error .disabled => .error .disabled
  | .error .undefinedBehaviour => .error .undefinedBehaviour
  | .ok raw =>
    match invokedBy st.raw raw with
    | none => .ok { st with raw := raw }
    | some p =>
      match st.nodes p with
      | none => .error .undefinedBehaviour
      | some _ => .ok { st with raw := raw, nodes := Function.update st.nodes p none }

namespace State

/-- Go on with a call. -/
def goOn (st : State V) (t : Tid) (call : Call V) : State V :=
  { st with calls := Function.update st.calls t (some call) }

/-- Ghost: move a node along in its life. -/
def moveTo (st : State V) (p : Ptr) (place : Place) : State V :=
  { st with place := Function.update st.place p place }

/-- The head of the stack. -/
def head (st : State V) : Option Ptr := st.raw.cells 0

/-- Whether a compare-exchange of the head succeeds: the addresses are the same. -/
def headIs (st : State V) (current : Option Ptr) : Bool :=
  decide (st.head.map st.address = current.map st.address)

/-- An address that the allocator may give to a new node. -/
def vacant (st : State V) (address : Nat) : Bool :=
  (List.range st.next).all fun p => (st.nodes p).isNone || decide (st.address p ≠ address)

end State

/-- Whether `reserve_retire` is going to return `Ok`. -/
def reserves (cfg : Config) (st : State V) (t : Tid) (c : Alloc) : Bool :=
  match Raw.prepare cfg st.raw t c with
  | .ok (_, .failed) => false
  | .ok _ => true
  | .error _ => false

/-- `push` is called: the node is allocated. -/
def push (st : State V) (t : Tid) (value : V) (address : Nat) : Result V :=
  if st.vacant address then
    .ok { st.goOn t (.pushLoad st.next) with
      nodes := Function.update st.nodes st.next (some ⟨value, none⟩)
      address := Function.update st.address st.next address
      next := st.next + 1
      place := Function.update st.place st.next (.fresh t)
      history := .call t (.push value) :: st.history }
  else .error .disabled

/-- `pop` is called. -/
def pop (st : State V) (t : Tid) : Result V :=
  .ok { st.goOn t .popLoad with history := .call t .pop :: st.history }

/-- The load of a turn of the loop of `push`, and the store to its own node. -/
def pushLoad (cfg : Config) (st : State V) (t : Tid) (new : Ptr) : Result V :=
  match collect cfg st t (.access t 0 .load) with
  | .error fault => .error fault
  | .ok st' =>
    match st'.nodes new with
    | none => .error .undefinedBehaviour
    | some node =>
      .ok ({ st' with
        nodes := Function.update st'.nodes new (some { node with next := st.head }) }.goOn t
          (.pushSwap new st.head))

/-- The compare-exchange of `push`. -/
def pushSwap (cfg : Config) (st : State V) (t : Tid) (new : Ptr) (head : Option Ptr) : Result V :=
  if st.headIs head then
    match collect cfg st t (.access t 0 (.swap (some new))) with
    | .error fault => .error fault
    | .ok st' => .ok ((st'.moveTo new .linked).goOn t (.returning .pushed))
  else .ok (st.goOn t (.pushLoad new))

/-- The load of a turn of the loop of `pop`. -/
def popLoad (cfg : Config) (st : State V) (t : Tid) : Result V :=
  match collect cfg st t (.access t 0 .load) with
  | .error fault => .error fault
  | .ok st' =>
    match st.head with
    | none => .ok (st'.goOn t (.returning (.popped none)))
    | some head => .ok (st'.goOn t (.popNext head))

/-- The read of `next` through the pointer that `pop` has loaded. -/
def popNext (st : State V) (t : Tid) (head : Ptr) : Result V :=
  match st.nodes head with
  | none => .error .undefinedBehaviour
  | some node => .ok (st.goOn t (.popReserve head node.next))

/-- The reservation of `pop`. -/
def popReserve (cfg : Config) (st : State V) (t : Tid) (c : Alloc) (head : Ptr)
    (next : Option Ptr) : Result V :=
  match collect cfg st t (.reserve t c) with
  | .error fault => .error fault
  | .ok st' => .ok (st'.goOn t (.popSwap head next (reserves cfg st t c)))

/-- The compare-exchange of `pop`. -/
def popSwap (cfg : Config) (st : State V) (t : Tid) (head : Ptr) (next : Option Ptr)
    (reserved : Bool) : Result V :=
  if st.headIs (some head) then
    match collect cfg st t (.access t 0 (.swap next)) with
    | .error fault => .error fault
    | .ok st' => .ok ((st'.moveTo head (.unlinked t)).goOn t (.popRead head reserved))
  else .ok (st.goOn t .popLoad)

/-- The read of the data of the node that `pop` has unlinked. -/
def popRead (st : State V) (t : Tid) (head : Ptr) (reserved : Bool) : Result V :=
  match st.nodes head with
  | none => .error .undefinedBehaviour
  | some node => .ok (st.goOn t (.popRetire head node.data reserved))

/-- The retirement of the node that `pop` has unlinked, and the assertion where it fails. -/
def popRetire (cfg : Config) (st : State V) (t : Tid) (c : Alloc) (head : Ptr) (data : V)
    (reserved : Bool) : Result V :=
  match collect cfg st t (.add t head boxed c) with
  | .error fault => .error fault
  | .ok st' =>
    if st'.raw.log.head? = some (.refused st.raw.nextRid) then
      if reserved then .error .assertion else .ok (st'.goOn t (.popStash head data))
    else .ok ((st'.moveTo head .retired).goOn t (.returning (.popped (some data))))

/-- `self.stashed.lock().unwrap().push(..)`. -/
def popStash (st : State V) (t : Tid) (head : Ptr) (data : V) : Result V :=
  .ok ({ st.moveTo head .stashed with stashed := head :: st.stashed }.goOn t
    (.returning (.popped (some data))))

/-- A call returns. -/
def finish (st : State V) (t : Tid) (reply : Reply V) : Result V :=
  .ok { st with
    calls := Function.update st.calls t none
    history := .ret t reply :: st.history }

/-- The next step of a call, which is not inside the collector. -/
def advance (cfg : Config) (st : State V) (t : Tid) (c : Alloc) : Call V → Result V
  | .pushLoad new => pushLoad cfg st t new
  | .pushSwap new head => pushSwap cfg st t new head
  | .popLoad => popLoad cfg st t
  | .popNext head => popNext st t head
  | .popReserve head next => popReserve cfg st t c head next
  | .popSwap head next reserved => popSwap cfg st t head next reserved
  | .popRead head reserved => popRead st t head reserved
  | .popRetire head data reserved => popRetire cfg st t c head data reserved
  | .popStash head data => popStash st t head data
  | .returning reply => finish st t reply

/-- Free nodes, each of which has to be allocated. -/
def freeAll : List Ptr → (Ptr → Option (Node V)) → Option (Ptr → Option (Node V))
  | [], nodes => some nodes
  | p :: rest, nodes =>
    match nodes p with
    | none => none
    | some _ => freeAll rest (Function.update nodes p none)

/-- `free_stashed`. -/
def freeStashed (st : State V) : Result V :=
  match freeAll st.stashed st.nodes with
  | none => .error .undefinedBehaviour
  | some nodes => .ok { st with
      nodes := nodes
      stashed := []
      place := fun p => if st.place p = .stashed then .freed else st.place p }

/-- What a thread can do next. -/
inductive Action (V : Type) where
  /-- `enter` loads the reservation of the thread. -/
  | attach
  /-- `enter` marks the reservation active and returns the guard. -/
  | enter
  /-- The guard is dropped. -/
  | leave
  /-- `push` is called, and its node gets an address. -/
  | push (value : V) (address : Nat)
  | pop
  /-- The call of the thread takes its next step. -/
  | advance (c : Alloc)
  /-- The innermost call inside the collector takes its next step. -/
  | inner (spurious : Bool)
  /-- An iterator inside the collector passes absent slots. -/
  | skip (target : Nat)
  /-- A reclaimer returns. -/
  | ret
  | freeStashed
  deriving DecidableEq, Repr

/-- The actions of a thread that is not inside the collector. -/
def act (cfg : Config) (st : State V) (t : Tid) : Action V → Result V
  | .attach => if st.guarded t then .error .disabled else collect cfg st t (.create t)
  | .enter =>
    if st.guarded t = false ∧ t ∈ st.raw.created then
      match collect cfg st t (.enter t) with
      | .error fault => .error fault
      | .ok st' => .ok { st' with guarded := Function.update st'.guarded t true }
    else .error .disabled
  | .leave =>
    if st.guarded t ∧ st.calls t = none then
      match collect cfg st t (.leave t) with
      | .error fault => .error fault
      | .ok st' => .ok { st' with guarded := Function.update st'.guarded t false }
    else .error .disabled
  | .push value address =>
    if st.guarded t ∧ st.calls t = none then PressureStack.push st t value address
    else .error .disabled
  | .pop => if st.guarded t ∧ st.calls t = none then PressureStack.pop st t else .error .disabled
  | .advance c =>
    match st.calls t with
    | none => .error .disabled
    | some call => advance cfg st t c call
  | .freeStashed => PressureStack.freeStashed st
  | _ => .error .disabled

/-- One step of one thread. -/
def step (cfg : Config) (st : State V) (move : Tid × Action V) : Result V :=
  match move.2 with
  | .inner spurious => collect cfg st move.1 (.advance spurious)
  | .skip target => collect cfg st move.1 (.skip target)
  | .ret => collect cfg st move.1 .ret
  | action => if st.raw.stack move.1 = [] then act cfg st move.1 action else .error .disabled

/--
What the users of a stack obey.

Threads have thread IDs, and stashed nodes are freed while nobody holds a guard.
-/
def Permitted (cfg : Config) (st : State V) (move : Tid × Action V) : Prop :=
  move.1 < cfg.slots ∧ (move.2 = .freeStashed → ∀ t, st.guarded t = false)

end Seize.PressureStack
