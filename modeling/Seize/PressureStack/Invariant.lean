import Seize.PressureStack.Step
import Seize.Raw.Client

/-!
What the stack relies on from one step to the next.

Every node is in one place, the nodes of the list are allocated, and whatever a call has loaded is
protected by its guard. The invariant also says how far an atomic stack has come in the meantime.
-/

namespace Seize.PressureStack

open Seize.Raw (Config Tid Ptr Alloc)

variable {V : Type}

namespace Call

/-- The node that a call has yet to publish. -/
def fresh : Call V → Option Ptr
  | .pushLoad new => some new
  | .pushSwap new _ => some new
  | _ => none

/-- The node that a call has unlinked and not disposed of. -/
def unlinked : Call V → Option Ptr
  | .popRead head _ => some head
  | .popRetire head _ _ => some head
  | .popStash head _ => some head
  | _ => none

/-- The call has a reservation, and has not retired anything since. -/
def reserved : Call V → Bool
  | .popSwap _ _ reserved => reserved
  | .popRead _ reserved => reserved
  | .popRetire _ _ reserved => reserved
  | _ => false

/-- What a call has loaded is protected, and what it has read or written is still there. -/
def Loaded (nodes : Ptr → Option (Node V)) (protect : List Ptr) : Call V → Prop
  | .pushSwap new head => (∀ p, head = some p → p ∈ protect) ∧ ∃ data, nodes new = some ⟨data, head⟩
  | .popNext head => head ∈ protect
  | .popReserve head next => head ∈ protect ∧ ∃ data, nodes head = some ⟨data, next⟩
  | .popSwap head next _ => head ∈ protect ∧ ∃ data, nodes head = some ⟨data, next⟩
  | _ => True

/-- How far an atomic stack is with the operation of a call. -/
def Follows (nodes : Ptr → Option (Node V)) : Call V → Status (Op V) (Reply V) → Prop
  | .pushLoad new, status => ∃ node, nodes new = some node ∧ status = .called (.push node.data)
  | .pushSwap new _, status => ∃ node, nodes new = some node ∧ status = .called (.push node.data)
  | .popLoad, status => status = .called .pop
  | .popNext _, status => status = .called .pop
  | .popReserve _ _, status => status = .called .pop
  | .popSwap _ _ _, status => status = .called .pop
  | .popRead head _, status =>
    ∃ node, nodes head = some node ∧ status = .done (.popped (some node.data))
  | .popRetire _ data _, status => status = .done (.popped (some data))
  | .popStash _ data, status => status = .done (.popped (some data))
  | .returning reply, status => status = .done reply

variable {nodes nodes' : Ptr → Option (Node V)} {protect protect' : List Ptr} {call : Call V}
  {status : Status (Op V) (Reply V)}

/-- A call relies on its own node and on what it protects. -/
theorem Loaded.keep (loaded : call.Loaded nodes protect) (more : protect ⊆ protect')
    (same : ∀ p, call.fresh = some p ∨ p ∈ protect → nodes' p = nodes p) :
    call.Loaded nodes' protect' := by
  -- Only calls between a load and a compare-exchange rely on anything.
  cases call with
  | pushSwap new head =>
    obtain ⟨member, data, stored⟩ := loaded
    exact ⟨fun p is => more (member p is), data, (same new (.inl rfl)).trans stored⟩
  | popNext head => exact more loaded
  | popReserve head next =>
    obtain ⟨member, data, stored⟩ := loaded
    exact ⟨more member, data, (same head (.inr member)).trans stored⟩
  | popSwap head next reserved =>
    obtain ⟨member, data, stored⟩ := loaded
    exact ⟨more member, data, (same head (.inr member)).trans stored⟩
  | _ => trivial

/-- How far a call is depends on the data of its own node. -/
theorem Follows.keep (follows : call.Follows nodes status)
    (same : ∀ p, call.fresh = some p ∨ call.unlinked = some p →
      (nodes' p).map Node.data = (nodes p).map Node.data) : call.Follows nodes' status := by
  -- The node may have got another successor, but its data is that of the operation.
  have moved : ∀ {p node}, (call.fresh = some p ∨ call.unlinked = some p) → nodes p = some node →
      ∃ node', nodes' p = some node' ∧ node'.data = node.data := by
    intro p node own stored
    have eq := same p own
    rw [stored, Option.map_some, Option.map_eq_some_iff] at eq
    exact eq
  cases call with
  | pushLoad new =>
    obtain ⟨node, stored, rfl⟩ := follows
    obtain ⟨node', stored', data⟩ := moved (.inl rfl) stored
    exact ⟨node', stored', by rw [data]⟩
  | pushSwap new head =>
    obtain ⟨node, stored, rfl⟩ := follows
    obtain ⟨node', stored', data⟩ := moved (.inl rfl) stored
    exact ⟨node', stored', by rw [data]⟩
  | popRead head reserved =>
    obtain ⟨node, stored, rfl⟩ := follows
    obtain ⟨node', stored', data⟩ := moved (.inr rfl) stored
    exact ⟨node', stored', by rw [data]⟩
  | _ => exact follows

end Call

/-- The list of nodes that begins with a pointer, with their data. -/
def Chain (nodes : Ptr → Option (Node V)) : Option Ptr → List (Ptr × V) → Prop
  | first, [] => first = none
  | first, (p, data) :: rest => first = some p ∧ ∃ next, nodes p = some ⟨data, next⟩ ∧
    Chain nodes next rest

/-- A list depends on its own nodes only. -/
theorem Chain.congr {nodes nodes' : Ptr → Option (Node V)} {items : List (Ptr × V)} :
    ∀ {first : Option Ptr}, Chain nodes first items →
      (∀ p ∈ items.map Prod.fst, nodes' p = nodes p) → Chain nodes' first items := by
  induction items with
  | nil => exact fun chain _ => chain
  -- The first node leads to the same next one.
  | cons item rest ih =>
    rintro first ⟨head, next, stored, chain⟩ same
    have here : nodes' item.1 = nodes item.1 := same item.1 (by simp)
    exact ⟨head, next, here.trans stored,
      ih chain fun p member => same p (List.mem_cons_of_mem _ member)⟩

/-- The places of nodes that other threads may have seen. -/
def Place.published : Place → Bool
  | .linked => true
  | .unlinked _ => true
  | .stashed => true
  | .retired => true
  | _ => false

/-- Nodes are freed once, after their retirement or by `free_stashed`, and never earlier. -/
structure Heap (st : State V) : Prop where
  live : ∀ p, (st.nodes p).isSome ↔
    st.place p ≠ .unborn ∧ st.place p ≠ .freed ∧ ¬ Raw.Reclaimed st.raw p
  retired : ∀ p, st.place p = .retired ↔ Raw.Retired st.raw p
  single : ∀ rid rid' p f f', .retired rid p f ∈ st.raw.log → .retired rid' p f' ∈ st.raw.log →
    rid = rid'
  /-- Nodes that are allocated at the same time have different addresses. -/
  apart : ∀ p q, (st.nodes p).isSome → (st.nodes q).isSome → st.address p = st.address q → p = q

/-- The list is what the atomic stack holds. -/
structure Contents (st : State V) (values : List V) (items : List (Ptr × V)) : Prop where
  chain : Chain st.nodes st.head items
  distinct : (items.map Prod.fst).Nodup
  linked : ∀ p, p ∈ items.map Prod.fst ↔ st.place p = .linked
  data : values = items.map Prod.snd

/-- The invariant, with the atomic stack that has followed so far. -/
structure Valid (cfg : Config) (st : State V) (a : Atomic (List V) (Op V) (Reply V)) : Prop where
  run : Reachable (Raw.step cfg) (Raw.Client cfg) .init st.raw
  heap : Heap st
  born : ∀ p, st.place p = .unborn ↔ st.next ≤ p
  fresh : ∀ t p, st.place p = .fresh t ↔ (st.calls t).bind Call.fresh = some p
  unlinked : ∀ t p, st.place p = .unlinked t ↔ (st.calls t).bind Call.unlinked = some p
  stashed : ∀ p, p ∈ st.stashed ↔ st.place p = .stashed
  once : st.stashed.Nodup
  /-- The head of the stack is the only cell. -/
  cells : ∀ x, x ≠ 0 → st.raw.cells x = none
  guards : ∀ t, st.guarded t = true ↔ st.raw.Active t
  inside : ∀ t, st.calls t ≠ none → st.guarded t = true
  scans : ∀ t, ∀ f ∈ st.raw.stack t, ∀ s, f.scanSlot = some s → s = t
  roomy : ∀ t call, st.calls t = some call → call.reserved = true → Raw.Roomy st.raw t
  published : ∀ t p, Raw.Protects st.raw t p → (st.place p).published = true
  loaded : ∀ t call, st.calls t = some call → call.Loaded st.nodes (st.raw.protect t)
  contents : ∃ items, Contents st a.object items
  idle : ∀ t, st.calls t = none → a.status t = .idle
  follows : ∀ t call, st.calls t = some call → call.Follows st.nodes (a.status t)

variable {cfg : Config} {st : State V} {a : Atomic (List V) (Op V) (Reply V)} {t : Tid} {p q : Ptr}

namespace Valid

/-- The invariants of the collector. -/
theorem collector (valid : Valid cfg st a) : Raw.Guarded cfg st.raw ∧ Raw.Audited cfg st.raw :=
  Raw.reachable_client valid.run

/-- Only retired nodes are reclaimed. -/
theorem retired_of (valid : Valid cfg st a) (reclaimed : Raw.Reclaimed st.raw p) :
    st.place p = .retired := by
  obtain ⟨rid, f, scanned, member⟩ := reclaimed
  exact (valid.heap.retired p).mpr (valid.collector.1.shielded.logged rid p f scanned member)

/-- Nodes in the other places are allocated. -/
theorem live_of (valid : Valid cfg st a) (unretired : st.place p ≠ .retired)
    (born : st.place p ≠ .unborn) (unfreed : st.place p ≠ .freed) : (st.nodes p).isSome :=
  (valid.heap.live p).mpr ⟨born, unfreed, fun reclaimed => unretired (valid.retired_of reclaimed)⟩

/-- A pointer that a guard protects may be read through. -/
theorem live_of_protects (valid : Valid cfg st a) (protects : Raw.Protects st.raw t p) :
    (st.nodes p).isSome := by
  -- It was published, so it is in use, and what a guard protects is not reclaimed.
  have published := valid.published t p protects
  refine (valid.heap.live p).mpr ⟨?_, ?_, ?_⟩
  · intro is
    rw [is] at published
    cases published
  · intro is
    rw [is] at published
    cases published
  · rintro ⟨rid, f, scanned, member⟩
    exact valid.collector.1.shielded.unreclaimed rid p f scanned t member protects

/-- A thread inside a call is active, so it protects what it has loaded. -/
theorem active (valid : Valid cfg st a) {call : Call V} (calling : st.calls t = some call) :
    st.raw.Active t :=
  (valid.guards t).mp (valid.inside t (by rw [calling]; simp))

/-- The head of the stack is in its list. -/
theorem head_linked (valid : Valid cfg st a) (head : st.head = some p) : st.place p = .linked := by
  obtain ⟨items, contents⟩ := valid.contents
  have chain := contents.chain
  rw [head] at chain
  cases items with
  | nil => cases chain
  | cons item rest =>
    obtain ⟨same, _⟩ := chain
    cases same
    exact (contents.linked _).mp (by simp)

/-- The head of the stack is allocated. -/
theorem head_live (valid : Valid cfg st a) (head : st.head = some p) : (st.nodes p).isSome := by
  have linked := valid.head_linked head
  exact valid.live_of (by simp [linked]) (by simp [linked]) (by simp [linked])

/--
No ABA.

A head that has the address of an allocated node is that node, and one that is null was null.
-/
theorem head_is (valid : Valid cfg st a) {current : Option Ptr}
    (live : ∀ p, current = some p → (st.nodes p).isSome) (same : st.headIs current = true) :
    st.head = current := by
  -- The comparison is of addresses, and two allocated nodes with one address are the same.
  have same : st.head.map st.address = current.map st.address := of_decide_eq_true same
  cases head : st.head with
  | none =>
    rw [head, Option.map_none, eq_comm, Option.map_eq_none_iff] at same
    exact same.symm
  | some p =>
    rw [head, Option.map_some, eq_comm, Option.map_eq_some_iff] at same
    obtain ⟨q, rfl, addresses⟩ := same
    rw [valid.heap.apart q p (live q rfl) (valid.head_live head) addresses]

end Valid

/-- An empty stack that nobody has used. -/
theorem Valid.init (cfg : Config) : Valid cfg (State.init V) (Atomic.init []) where
  run := .refl
  heap := by
    refine ⟨fun p => by simp [State.init], fun p => ?_, ?_, ?_⟩
    · constructor
      · intro is
        cases is
      · rintro ⟨rid, f, member⟩
        cases member
    · intro rid rid' p f f' member
      cases member
    · intro p q live
      cases live
  born p := by simp [State.init]
  fresh t p := by simp [State.init]
  unlinked t p := by simp [State.init]
  stashed p := by simp [State.init]
  once := .nil
  cells _ _ := rfl
  guards t := by simp [State.init, Raw.State.init, Raw.State.Active]
  inside t calling := absurd rfl calling
  scans t f member := by cases member
  roomy t call calling := by cases calling
  published t p protects := by cases protects.2
  loaded t call calling := by cases calling
  contents := ⟨[], rfl, .nil, fun p => by simp [State.init], rfl⟩
  idle _ _ := rfl
  follows t call calling := by cases calling

end Seize.PressureStack
