import Seize.PressureStack.Collect

/-!
What each kind of step keeps.

Steps inside the collector, loads, and steps that only move a call on keep the invariant with the
same atomic stack. The steps in which a node changes its place follow one by one.
-/

namespace Seize.PressureStack

open Seize.Raw (Config Tid Ptr Alloc Event)

variable {V : Type} {cfg : Config} {st : State V} {a : Atomic (List V) (Op V) (Reply V)} {t : Tid}
  {action : Raw.Action} {raw : Raw.State} {nodes : Ptr → Option (Node V)} {p : Ptr}

namespace Valid

/-- A node that is not retired is neither retired nor freed by a step that retires nothing. -/
theorem same_of (valid : Valid cfg st a) (collected : Collected cfg st t action raw nodes)
    (same : ∀ rid p f, .retired rid p f ∈ raw.log ↔ .retired rid p f ∈ st.raw.log)
    (place : st.place p ≠ .retired) : nodes p = st.nodes p := by
  refine collected.same_of fun retired => place ?_
  rw [valid.heap.retired]
  obtain ⟨rid, f, member⟩ := retired
  exact ⟨rid, f, (same rid p f).mp member⟩

/-- The node a call has yet to publish. -/
theorem fresh_of (valid : Valid cfg st a) {call : Call V} (calling : st.calls t = some call)
    (own : call.fresh = some p) : st.place p = .fresh t :=
  (valid.fresh t p).mpr (by rw [calling]; exact own)

/-- The node a call has unlinked. -/
theorem unlinked_of (valid : Valid cfg st a) {call : Call V} (calling : st.calls t = some call)
    (own : call.unlinked = some p) : st.place p = .unlinked t :=
  (valid.unlinked t p).mpr (by rw [calling]; exact own)

/-- The nodes in the list are linked. -/
theorem linked_of (_ : Valid cfg st a) {values : List V} {items : List (Ptr × V)}
    (contents : Contents st values items) (member : p ∈ items.map Prod.fst) :
    st.place p ≠ .retired := by
  rw [(contents.linked p).mp member]
  simp

/--
A step of the collector that retires nothing and writes no cell.

It may begin or end the period of a thread that is in no call, and load linked nodes.
-/
theorem collected (valid : Valid cfg st a) (collected : Collected cfg st t action raw nodes)
    (same : ∀ rid p f, .retired rid p f ∈ raw.log ↔ .retired rid p f ∈ st.raw.log)
    (mine : ∀ s, action.scans = some s → s = t)
    (roomy : ∀ t call, st.calls t = some call → call.reserved = true → Raw.Roomy raw t)
    (cells : raw.cells = st.raw.cells) {guarded : Tid → Bool}
    (guards : ∀ t, guarded t = true ↔ raw.Active t)
    (inside : ∀ t, st.calls t ≠ none → guarded t = true)
    (kept : ∀ t, st.calls t ≠ none → st.raw.protect t ⊆ raw.protect t)
    (loads : ∀ t p, Raw.Protects raw t p → Raw.Protects st.raw t p ∨ st.place p = .linked) :
    Valid cfg { st with raw := raw, nodes := nodes, guarded := guarded } a := by
  have calls : ∀ {t call}, st.calls t = some call → st.calls t ≠ none := by
    intro t call calling
    rw [calling]
    simp
  have heap := collected.heap valid.heap same
  have same := fun {p} => valid.same_of (p := p) collected same
  have head : raw.cells 0 = st.raw.cells 0 := congrFun cells 0
  refine
    { run := collected.run
      heap := ⟨heap.live, heap.retired, heap.single, heap.apart⟩
      born := valid.born
      fresh := valid.fresh
      unlinked := valid.unlinked
      stashed := valid.stashed
      once := valid.once
      cells := fun x different => (congrFun cells x).trans (valid.cells x different)
      guards := guards
      inside := inside
      scans := collected.scans valid mine
      roomy := roomy
      published := fun t' p protects => ?_
      loaded := fun t' call calling => ?_
      contents := ?_
      idle := valid.idle
      follows := fun t' call calling => ?_ }
  · rcases loads t' p protects with before | linked
    · exact valid.published t' p before
    · show (st.place p).published = true
      rw [linked]
      rfl
  · -- What the call protects is not freed, and nobody else knows its own node.
    have still := kept t' (calls calling)
    refine (valid.loaded t' call calling).keep still ?_
    rintro p (own | member)
    · exact same (by rw [valid.fresh_of calling own]; simp)
    · exact collected.same_of_protects ⟨(guards t').mp (inside t' (calls calling)), still member⟩
  · obtain ⟨items, contents⟩ := valid.contents
    refine ⟨items, ?_, contents.distinct, contents.linked, contents.data⟩
    have first : Chain st.nodes (raw.cells 0) items := head ▸ contents.chain
    exact first.congr fun p member => same (valid.linked_of contents member)
  · refine (valid.follows t' call calling).keep ?_
    rintro p (own | own)
    · exact congrArg _ (same (by rw [valid.fresh_of calling own]; simp))
    · exact congrArg _ (same (by rw [valid.unlinked_of calling own]; simp))

/-- Reservations outlast what retires nothing. -/
theorem roomy_after (valid : Valid cfg st a) (collected : Collected cfg st t action raw nodes)
    (scans : action.scans = none) (t' : Tid) (call : Call V) (calling : st.calls t' = some call)
    (reserved : call.reserved = true) : Raw.Roomy raw t' :=
  collected.roomy valid.collector.1 (by simp [scans]) (valid.roomy t' call calling reserved)

/-- A step of the collector that retires nothing and concerns no thread's period. -/
theorem untouched (valid : Valid cfg st a) (collected : Collected cfg st t action raw nodes)
    (touches : action.touches = none)
    (same : ∀ rid p f, .retired rid p f ∈ raw.log ↔ .retired rid p f ∈ st.raw.log)
    (mine : ∀ s, action.scans = some s → s = t)
    (roomy : ∀ t call, st.calls t = some call → call.reserved = true → Raw.Roomy raw t) :
    Valid cfg { st with raw := raw, nodes := nodes } a := by
  -- Every slot protects what it protected, in the same period.
  have kept := fun s => collected.slot_kept (s := s) (by simp [touches])
  have cells := collected.cells fun s x op is => by simp [is, Raw.Action.touches] at touches
  refine valid.collected collected same mine roomy cells (fun t' => ?_) valid.inside
    (fun t' _ => ?_) fun t' p protects => ?_
  · rw [(kept t').2]
    exact valid.guards t'
  · rw [(kept t').1]
    exact List.Subset.refl _
  · exact .inl ⟨(kept t').2.mp protects.1, (kept t').1 ▸ protects.2⟩

/-- A step inside the collector. -/
theorem passive (valid : Valid cfg st a) (collected : Collected cfg st t action raw nodes)
    (scans : action.scans = none) (touches : action.touches = none) :
    Valid cfg { st with raw := raw, nodes := nodes } a :=
  valid.untouched collected touches (collected.retired_iff scans) (by simp [scans])
    (valid.roomy_after collected scans)

/-- A retirement that is refused, by a call without a reservation. -/
theorem refused (valid : Valid cfg st a) {f : Raw.Reclaim} {c : Alloc} {call : Call V}
    (collected : Collected cfg st t (.add t p f c) raw nodes)
    (log : raw.log = .refused st.raw.nextRid :: st.raw.log) (calling : st.calls t = some call)
    (unreserved : call.reserved = false) : Valid cfg { st with raw := raw, nodes := nodes } a := by
  refine valid.untouched collected rfl (by simp [log]) (by simp [Raw.Action.scans])
    fun t' call' calling' reserved => ?_
  -- A call that has a reservation is one of another thread.
  have other : t' ≠ t := by
    rintro rfl
    cases calling.symm.trans calling'
    rw [unreserved] at reserved
    cases reserved
  exact collected.roomy valid.collector.1 (by simpa [Raw.Action.scans] using Ne.symm other)
    (valid.roomy t' call' calling' reserved)

/-- A thread in no call begins or ends its period, in which nothing is loaded yet, or any more. -/
theorem turned (valid : Valid cfg st a) (collected : Collected cfg st t action raw nodes)
    (touches : action.touches = some t) (scans : action.scans = none)
    (accesses : ∀ s x op, action ≠ .access s x op) (calls : st.calls t = none) {guarded : Bool}
    (active : guarded = true ↔ raw.Active t) (empty : ∀ p, ¬ Raw.Protects raw t p) :
    Valid cfg { st with
      raw := raw
      nodes := nodes
      guarded := Function.update st.guarded t guarded } a := by
  -- The slots of all others stay as they are, and this thread is in no call that could notice.
  have kept : ∀ t', t' ≠ t → _ := fun t' other =>
    collected.slot_kept (s := t') (by simp [touches, Ne.symm other])
  have other : ∀ {t'}, st.calls t' ≠ none → t' ≠ t := by
    rintro t' calling rfl
    exact calling calls
  refine valid.collected collected (collected.retired_iff scans) (by simp [scans])
    (valid.roomy_after collected scans) (collected.cells accesses) (fun t' => ?_)
    (fun t' calling => ?_) (fun t' calling => ?_) fun t' p protects => ?_
  · by_cases here : t' = t
    · rw [here, Function.update_self]
      exact active
    · rw [Function.update_of_ne here, (kept t' here).2]
      exact valid.guards t'
  · rw [Function.update_of_ne (other calling)]
    exact valid.inside t' calling
  · rw [(kept t' (other calling)).1]
    exact List.Subset.refl _
  · by_cases here : t' = t
    · exact absurd (here ▸ protects) (empty p)
    · exact .inl ⟨(kept t' here).2.mp protects.1, (kept t' here).1 ▸ protects.2⟩

/-- The guard of a thread begins a period. -/
theorem enter (valid : Valid cfg st a) (collected : Collected cfg st t (.enter t) raw nodes)
    (unguarded : st.guarded t = false) :
    Valid cfg { st with raw := raw, nodes := nodes, guarded := Function.update st.guarded t true }
      a := by
  have calls : st.calls t = none := by
    by_contra calling
    rw [valid.inside t calling] at unguarded
    cases unguarded
  refine valid.turned collected rfl rfl (by simp) calls ?_ fun p => ?_
  all_goals
    obtain ⟨after, moved, rfl⟩ := collected.moved
    cases moved with
    | enter =>
      simp [Raw.Protects, Raw.tick, Raw.enter, Raw.beginPeriod, Raw.State.Active]

/-- A period ends when the guard of its thread is dropped. -/
theorem leave (valid : Valid cfg st a) (collected : Collected cfg st t (.leave t) raw nodes)
    (calls : st.calls t = none) :
    Valid cfg { st with raw := raw, nodes := nodes, guarded := Function.update st.guarded t false }
      a := by
  -- A slot that is not active protects nothing, whatever was loaded.
  have ended : raw.head t = .inactive := by
    obtain ⟨after, moved, rfl⟩ := collected.moved
    cases moved with
    | leaveIdle => exact Function.update_self ..
    | leave => exact Function.update_self ..
  refine valid.turned collected rfl rfl (by simp) calls ?_ fun p protects => ?_
  · simp [Raw.State.Active, ended]
  · exact absurd ended protects.1

end Valid

/-- The collector after a thread has accessed the head of the stack. -/
def accessed (st : State V) (t : Tid) (op : Raw.CellOp) : Raw.State :=
  Raw.tick (Raw.cellStep st.raw t 0 op)

/-- The head of the stack after an access. -/
theorem accessed_cells (op : Raw.CellOp) : (accessed st t op).cells 0 = op.apply st.head := by
  simp only [accessed, Raw.tick, Raw.cellStep, State.head, Function.update_self]

/-- The guard protects what the thread has just loaded. -/
theorem accessed_protects {op : Raw.CellOp} (head : st.head = some p) :
    p ∈ (accessed st t op).protect t := by
  simp only [accessed, Raw.tick, Raw.cellStep, Function.update_self]
  exact List.mem_append_left _ (Option.mem_toList.mpr head)

/-- What was protected stays protected. -/
theorem accessed_subset (op : Raw.CellOp) (t' : Tid) :
    st.raw.protect t' ⊆ (accessed st t op).protect t' := by
  show st.raw.protect t' ⊆
    Function.update st.raw.protect t (st.head.toList ++ st.raw.protect t) t'
  by_cases here : t' = t
  · rw [here, Function.update_self]
    exact List.subset_append_right _ _
  · rw [Function.update_of_ne here]
    exact List.Subset.refl _

/-- Only the head is protected anew. -/
theorem accessed_loads {op : Raw.CellOp} {t' : Tid}
    (protects : Raw.Protects (accessed st t op) t' p) : Raw.Protects st.raw t' p ∨ st.head = some p := by
  obtain ⟨active, member⟩ := protects
  have protect : (accessed st t op).protect =
      Function.update st.raw.protect t (st.head.toList ++ st.raw.protect t) := rfl
  rw [protect] at member
  by_cases here : t' = t
  · subst here
    rw [Function.update_self, List.mem_append] at member
    rcases member with loaded | old
    · exact .inr (Option.mem_toList.mp loaded)
    · exact .inl ⟨active, old⟩
  · rw [Function.update_of_ne here] at member
    exact .inl ⟨active, member⟩

namespace Valid

/-- An access of the head is a step of the collector that frees nothing. -/
theorem access (valid : Valid cfg st a) (op : Raw.CellOp) (outside : st.raw.stack t = [])
    (writes : ∀ p, op.writes = some p → st.place p ≠ .retired) :
    collect cfg st t (.access t 0 op) = .ok { st with raw := accessed st t op } ∧
      Collected cfg st t (.access t 0 op) (accessed st t op) st.nodes := by
  -- The access is possible, since the thread is outside of the collector.
  have stepped : Raw.step cfg st.raw (t, .access t 0 op) = .ok (accessed st t op) := by
    simp only [Raw.step, Raw.act, outside, Raw.userLevel]
    rfl
  have permitted : Raw.Client cfg st.raw (t, .access t 0 op) := by
    refine ⟨⟨⟨⟨trivial, by simp⟩, by simp⟩, fun p is retired => ?_⟩, by simp⟩
    exact writes p is ((valid.heap.retired p).mpr retired)
  rcases valid.collects permitted with failed | ⟨raw, nodes, ran, stepped', collected⟩
  · have quiet : invokedBy st.raw (accessed st t op) = none := invokedBy_quiet [] rfl (by simp)
    rw [collect, stepped] at failed
    simp only [quiet, reduceCtorEq] at failed
  · cases stepped.symm.trans stepped'
    -- The log is the same, so no node is freed.
    have same : nodes = st.nodes := funext fun p => collected.kept p id
    subst same
    exact ⟨ran, collected⟩

/-- A load of the head keeps the invariant, and protects the head. -/
theorem load (valid : Valid cfg st a)
    (collected : Collected cfg st t (.access t 0 .load) (accessed st t .load) st.nodes) :
    Valid cfg { st with raw := accessed st t .load } a := by
  have cells : (accessed st t .load).cells = st.raw.cells :=
    Function.update_eq_self 0 st.raw.cells
  exact valid.collected collected (fun _ _ _ => .rfl) (by simp [Raw.Action.scans])
    (valid.roomy_after collected rfl) cells valid.guards valid.inside
    (fun t' _ => accessed_subset .load t')
    fun t' p protects => (accessed_loads protects).imp_right valid.head_linked

/-- A call moves on, begins or returns, while no node changes its place. -/
theorem switch (valid : Valid cfg st a) (next : Option (Call V)) (status : Status (Op V) (Reply V))
    (history : List (Seen (Op V) (Reply V)))
    (fresh : next.bind Call.fresh = (st.calls t).bind Call.fresh)
    (unlinked : next.bind Call.unlinked = (st.calls t).bind Call.unlinked)
    (inside : next ≠ none → st.guarded t = true)
    (roomy : ∀ call, next = some call → call.reserved = true → Raw.Roomy st.raw t)
    (loaded : ∀ call, next = some call → call.Loaded st.nodes (st.raw.protect t))
    (idle : next = none → status = .idle)
    (follows : ∀ call, next = some call → call.Follows st.nodes status) :
    Valid cfg { st with calls := Function.update st.calls t next, history := history }
      (a.become t status) := by
  -- What holds of the new call and of every other one.
  have every : ∀ {P : Tid → Option (Call V) → Status (Op V) (Reply V) → Prop}, P t next status →
      (∀ t', t' ≠ t → P t' (st.calls t') (a.status t')) →
      ∀ t', P t' (Function.update st.calls t next t') ((a.become t status).status t') := by
    intro P mine others t'
    by_cases here : t' = t
    · subst here
      simpa [Atomic.become] using mine
    · simpa [Atomic.become, Function.update_of_ne here] using others t' here
  have owns : ∀ {own : Call V → Option Ptr}, next.bind own = (st.calls t).bind own →
      ∀ t', (Function.update st.calls t next t').bind own = (st.calls t').bind own := by
    intro own same t'
    by_cases here : t' = t
    · subst here
      rw [Function.update_self, same]
    · rw [Function.update_of_ne here]
  exact
    { run := valid.run
      heap := ⟨valid.heap.live, valid.heap.retired, valid.heap.single, valid.heap.apart⟩
      born := valid.born
      fresh := fun t' p => by rw [owns fresh t']; exact valid.fresh t' p
      unlinked := fun t' p => by rw [owns unlinked t']; exact valid.unlinked t' p
      stashed := valid.stashed
      once := valid.once
      cells := valid.cells
      guards := valid.guards
      inside := every (P := fun t' call _ => call ≠ none → st.guarded t' = true) inside
        fun t' _ => valid.inside t'
      scans := valid.scans
      roomy := every (P := fun t' next _ => ∀ call, next = some call → call.reserved = true →
        Raw.Roomy st.raw t') roomy fun t' _ => valid.roomy t'
      published := valid.published
      loaded := every (P := fun t' next _ => ∀ call, next = some call →
        call.Loaded st.nodes (st.raw.protect t')) loaded fun t' _ => valid.loaded t'
      contents := by
        obtain ⟨items, contents⟩ := valid.contents
        exact ⟨items, contents.chain, contents.distinct, contents.linked, contents.data⟩
      idle := every (P := fun _ next status => next = none → status = .idle) idle
        fun t' _ => valid.idle t'
      follows := every (P := fun _ next status => ∀ call, next = some call →
        call.Follows st.nodes status) follows fun t' _ => valid.follows t' }

/-- A call moves on, and its operation is as far as before. -/
theorem goOn (valid : Valid cfg st a) {old call : Call V} (calling : st.calls t = some old)
    (fresh : call.fresh = old.fresh) (unlinked : call.unlinked = old.unlinked)
    (roomy : call.reserved = true → Raw.Roomy st.raw t)
    (loaded : call.Loaded st.nodes (st.raw.protect t))
    (follows : call.Follows st.nodes (a.status t)) : Valid cfg (st.goOn t call) a := by
  -- The atomic stack waits.
  have same : a.become t (a.status t) = a := by simp [Atomic.become]
  have next := valid.switch (t := t) (some call) (a.status t) st.history
    (by simp [calling, fresh]) (by simp [calling, unlinked])
    (fun _ => valid.inside t (by simp [calling]))
    (by rintro _ ⟨⟩; exact roomy) (by rintro _ ⟨⟩; exact loaded) (by simp)
    (by rintro _ ⟨⟩; exact follows)
  rw [same] at next
  exact next

/-- A call of `push` stores a pointer in its own node. -/
theorem write (valid : Valid cfg st a) {new : Ptr} {node : Node V} (head : Option Ptr)
    (calling : st.calls t = some (.pushLoad new)) (stored : st.nodes new = some node) :
    Valid cfg { st with
      nodes := Function.update st.nodes new (some { node with next := head }) } a := by
  have place : st.place new = .fresh t := valid.fresh_of calling rfl
  -- Every other node is as it was, and this one keeps its data.
  have same : ∀ {p}, st.place p ≠ .fresh t →
      Function.update st.nodes new (some { node with next := head }) p = st.nodes p := by
    intro p elsewhere
    refine Function.update_of_ne ?_ _ _
    rintro rfl
    exact elsewhere place
  have live : ∀ p, (Function.update st.nodes new (some { node with next := head }) p).isSome ↔
      (st.nodes p).isSome := by
    intro p
    by_cases here : p = new
    · subst here
      simp [stored]
    · rw [Function.update_of_ne here]
  have data : ∀ p,
      (Function.update st.nodes new (some { node with next := head }) p).map Node.data =
        (st.nodes p).map Node.data := by
    intro p
    by_cases here : p = new
    · subst here
      simp [stored]
    · rw [Function.update_of_ne here]
  refine { valid with
    heap := ?_
    loaded := fun t' call calling' => ?_
    contents := ?_
    follows := fun t' call calling' => (valid.follows t' call calling').keep fun p _ => data p }
  · exact ⟨fun p => (live p).trans (valid.heap.live p), valid.heap.retired, valid.heap.single,
      fun p q liveP liveQ => valid.heap.apart p q ((live p).mp liveP) ((live q).mp liveQ)⟩
  · by_cases here : t' = t
    · subst here
      cases calling.symm.trans calling'
      trivial
    · refine (valid.loaded t' call calling').keep (List.Subset.refl _) ?_
      rintro p (own | member)
      · refine same fun is => here ?_
        rw [valid.fresh_of calling' own] at is
        exact Place.fresh.inj is
      · -- Nobody else knows the node.
        have published := valid.published t' p ⟨valid.active calling', member⟩
        refine same fun is => ?_
        rw [is] at published
        cases published
  · obtain ⟨items, contents⟩ := valid.contents
    refine ⟨items, contents.chain.congr fun p member => same ?_, contents.distinct, contents.linked,
      contents.data⟩
    rw [(contents.linked p).mp member]
    simp

end Valid

end Seize.PressureStack
