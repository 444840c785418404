import Seize.PressureStack.Preserve

/-!
The steps in which a node changes its place: it is allocated, linked, unlinked, and disposed of.
-/

namespace Seize.PressureStack

open Seize.Raw (Config Tid Ptr Alloc Event)

variable {V : Type} {cfg : Config} {st : State V} {a : Atomic (List V) (Op V) (Reply V)} {t : Tid}
  {raw : Raw.State} {nodes : Ptr → Option (Node V)} {p : Ptr} {new : Place} {next : Option (Call V)}

/-- A place that a node neither leaves nor enters is that of the same nodes as before. -/
theorem place_same {place : Ptr → Place} {other : Place} (before : place p ≠ other)
    (after : new ≠ other) (q : Ptr) : Function.update place p new q = other ↔ place q = other := by
  by_cases here : q = p
  · rw [here, Function.update_self]
    exact iff_of_false after before
  · rw [Function.update_of_ne here]

/-- Whose a node is changes with the call that moves it, and for no other node. -/
theorem owner_move {own : Call V → Option Ptr} {mark : Tid → Place} {place : Ptr → Place}
    {calls : Tid → Option (Call V)}
    (owner : ∀ t p, place p = mark t ↔ (calls t).bind own = some p)
    (before : ∀ t', t' ≠ t → place p ≠ mark t') (after : ∀ t', t' ≠ t → new ≠ mark t')
    (mine : new = mark t ↔ next.bind own = some p)
    (rest : ∀ q, q ≠ p → (next.bind own = some q ↔ (calls t).bind own = some q)) (t' : Tid)
    (q : Ptr) :
    Function.update place p new q = mark t' ↔
      (Function.update calls t next t').bind own = some q := by
  -- Two updates are compared, of the places of nodes and of the calls of threads.
  by_cases here : t' = t
  · subst here
    by_cases same : q = p
    · subst same
      simpa using mine
    · rw [Function.update_of_ne same, Function.update_self, rest q same]
      exact owner t' q
  · rw [Function.update_of_ne here]
    by_cases same : q = p
    · -- The node belonged to no other call, and does not now.
      subst same
      rw [Function.update_self, ← owner t' q]
      exact iff_of_false (after t' here) (before t' here)
    · rw [Function.update_of_ne same]
      exact owner t' q

/-- The places in which a node is allocated whatever the collector has done. -/
def Place.held : Place → Bool
  | .fresh _ => true
  | .linked => true
  | .unlinked _ => true
  | .stashed => true
  | _ => false

/-- A node that is held is neither unused nor gone. -/
theorem Place.held_ne {place : Place} (held : place.held = true) :
    place ≠ .unborn ∧ place ≠ .freed ∧ place ≠ .retired := by
  cases place <;> simp [Place.held] at held ⊢

/-- A call has moved a node, with what the collector and the list of stashed nodes are then. -/
def State.moved (st : State V) (t : Tid) (p : Ptr) (new : Place) (call : Call V) (raw : Raw.State)
    (stashed : List Ptr) : State V :=
  { st with
    raw := raw
    place := Function.update st.place p new
    calls := Function.update st.calls t (some call)
    stashed := stashed }

/-- A node moves from one such place to another. -/
theorem Heap.move (heap : Heap st) (raw : Raw.State) (log : raw.log = st.raw.log)
    (before : (st.place p).held = true) (after : new.held = true) (t : Tid) (call : Call V)
    (stashed : List Ptr) :
    Heap (st.moved t p new call raw stashed) := by
  obtain ⟨born, unfreed, unretired⟩ := Place.held_ne before
  obtain ⟨born', unfreed', unretired'⟩ := Place.held_ne after
  -- The collector has recorded nothing, so all other nodes live on as before.
  have reclaimed : ∀ q, Raw.Reclaimed raw q ↔ Raw.Reclaimed st.raw q := by
    intro q
    simp only [Raw.Reclaimed, log]
  refine ⟨fun q => ?_, fun q => ?_, ?_, heap.apart⟩
  · simp only [State.moved, reclaimed]
    by_cases here : q = p
    · subst here
      rw [Function.update_self, heap.live]
      simp [born, unfreed, born', unfreed']
    · rw [Function.update_of_ne here]
      exact heap.live q
  · simp only [State.moved, Raw.Retired, log]
    by_cases here : q = p
    · subst here
      rw [Function.update_self]
      exact iff_of_false unretired' fun is => unretired ((heap.retired q).mpr is)
    · rw [Function.update_of_ne here]
      exact heap.retired q
  · simp only [State.moved, log]
    exact heap.single

/-- What holds of the call that moves a node and of every other one. -/
theorem calls_move {P : Tid → Call V → Prop} {calls : Tid → Option (Call V)} {call : Call V}
    (mine : P t call) (others : ∀ t' call', t' ≠ t → calls t' = some call' → P t' call') :
    ∀ t' call', Function.update calls t (some call) t' = some call' → P t' call' := by
  intro t' call' calling
  by_cases here : t' = t
  · subst here
    rw [Function.update_self] at calling
    cases calling
    exact mine
  · rw [Function.update_of_ne here] at calling
    exact others t' call' here calling

/-- The allocator gives a new node an address that no allocated node has. -/
theorem Heap.alloc (heap : Heap st) {node : Node V} {address : Nat} (unborn : st.place p = .unborn)
    (unretired : ¬ Raw.Retired st.raw p) (unreclaimed : ¬ Raw.Reclaimed st.raw p)
    (away : ∀ q, (st.nodes q).isSome → st.address q ≠ address) {next : Ptr}
    {calls : Tid → Option (Call V)} {history : List (Seen (Op V) (Reply V))} :
    Heap { st with
      nodes := Function.update st.nodes p (some node)
      address := Function.update st.address p address
      next := next
      calls := calls
      place := Function.update st.place p (.fresh t)
      history := history } := by
  refine ⟨fun q => ?_, fun q => ?_, heap.single, fun q r liveQ liveR same => ?_⟩
  · by_cases here : q = p
    · subst here
      simp [unreclaimed]
    · simp only [Function.update_of_ne here]
      exact heap.live q
  · by_cases here : q = p
    · subst here
      simp [unretired]
    · simp only [Function.update_of_ne here]
      exact heap.retired q
  -- The new node is apart from the others, since the address was vacant.
  · by_cases hereQ : q = p
    · by_cases hereR : r = p
      · rw [hereQ, hereR]
      · subst hereQ
        simp only [Function.update_of_ne hereR, Function.update_self] at liveR same
        exact absurd same.symm (away r liveR)
    · by_cases hereR : r = p
      · subst hereR
        simp only [Function.update_of_ne hereQ, Function.update_self] at liveQ same
        exact absurd same (away q liveQ)
      · simp only [Function.update_of_ne hereQ, Function.update_of_ne hereR] at liveQ liveR same
        exact heap.apart q r liveQ liveR same

namespace Valid

/-- `push` is called: a node is allocated at a vacant address. -/
theorem push (valid : Valid cfg st a) {value : V} {address : Nat} (guarded : st.guarded t = true)
    (calls : st.calls t = none) (vacant : st.vacant address = true)
    (history : List (Seen (Op V) (Reply V))) :
    Valid cfg { st with
      nodes := Function.update st.nodes st.next (some ⟨value, none⟩)
      address := Function.update st.address st.next address
      next := st.next + 1
      calls := Function.update st.calls t (some (.pushLoad st.next))
      place := Function.update st.place st.next (.fresh t)
      history := history } (a.become t (.called (.push value))) := by
  have unborn : st.place st.next = .unborn := (valid.born _).mpr (Nat.le_refl _)
  -- The name has not been used, so it is none of those in use.
  have other : ∀ {q}, st.place q ≠ .unborn → q ≠ st.next := by
    rintro q used rfl
    exact used unborn
  have same : ∀ {q}, st.place q ≠ .unborn →
      Function.update st.nodes st.next (some ⟨value, none⟩) q = st.nodes q :=
    fun used => Function.update_of_ne (other used) _ _
  have alive : ∀ {q}, (st.nodes q).isSome → st.place q ≠ .unborn :=
    fun live => ((valid.heap.live _).mp live).1
  have away : ∀ q, (st.nodes q).isSome → st.address q ≠ address := by
    intro q live
    have small : q < st.next := by
      by_contra large
      exact alive live ((valid.born q).mpr (Nat.le_of_not_lt large))
    have checked := List.all_eq_true.mp vacant q (List.mem_range.mpr small)
    rw [Option.isSome_iff_exists] at live
    obtain ⟨node, stored⟩ := live
    simpa [stored] using checked
  have unretired : ¬ Raw.Retired st.raw st.next := by
    rw [← valid.heap.retired, unborn]
    simp
  have unreclaimed : ¬ Raw.Reclaimed st.raw st.next := by
    intro reclaimed
    rw [valid.retired_of reclaimed] at unborn
    cases unborn
  -- Stashed and linked nodes are the ones they were.
  have place : ∀ {place : Place} (q : Ptr), place ≠ .unborn → place ≠ .fresh t →
      (Function.update st.place st.next (.fresh t) q = place ↔ st.place q = place) :=
    fun q used old => place_same (unborn ▸ used.symm) old.symm q
  refine
    { run := valid.run
      heap := valid.heap.alloc unborn unretired unreclaimed away
      born := fun q => ?_
      fresh := owner_move valid.fresh (by simp [unborn]) ?_ (by simp [Call.fresh]) ?_
      unlinked := owner_move valid.unlinked (by simp [unborn]) (by simp) (by simp [Call.unlinked])
        (by simp [calls, Call.unlinked])
      stashed := fun q => (valid.stashed q).trans (place q (by simp) (by simp)).symm
      once := valid.once
      cells := valid.cells
      guards := valid.guards
      inside := fun t' calling => ?_
      scans := valid.scans
      roomy := calls_move (by simp [Call.reserved]) fun t' call' _ => valid.roomy t' call'
      published := fun t' q protects => ?_
      loaded := calls_move trivial fun t' call' _ calling => ?_
      contents := ?_
      idle := fun t' calling => ?_
      follows := calls_move ⟨⟨value, none⟩, Function.update_self .., by simp [Atomic.become]⟩
        fun t' call' different calling => ?_ }
  · by_cases here : q = st.next
    · subst here
      simp
    · simp only [Function.update_of_ne here]
      rw [valid.born q]
      exact ⟨fun low => Nat.lt_of_le_of_ne low (Ne.symm here), Nat.le_of_lt⟩
  · intro t' different is
    exact different (Place.fresh.inj is).symm
  · intro q different
    simp [calls, Call.fresh, Ne.symm different]
  · by_cases here : t' = t
    · rw [here]
      exact guarded
    · exact valid.inside t' (by simpa [Function.update_of_ne here] using calling)
  · have published := valid.published t' q protects
    have used : q ≠ st.next := other fun is => by simp [is, Place.published] at published
    simpa only [Function.update_of_ne used] using published
  · refine (valid.loaded t' call' calling).keep (List.Subset.refl _) ?_
    rintro q (own | member)
    · exact same (by rw [valid.fresh_of calling own]; simp)
    · exact same (alive (valid.live_of_protects ⟨valid.active calling, member⟩))
  · obtain ⟨items, contents⟩ := valid.contents
    refine ⟨items, contents.chain.congr fun q member => same ?_, contents.distinct,
      fun q => (contents.linked q).trans (place q (by simp) (by simp)).symm, contents.data⟩
    rw [(contents.linked q).mp member]
    simp
  · have different : t' ≠ t := by
      rintro rfl
      simp at calling
    simp only [Function.update_of_ne different] at calling
    simpa [Atomic.become, Function.update_of_ne different] using valid.idle t' calling
  · have status : (a.become t (.called (.push value))).status t' = a.status t' :=
      Function.update_of_ne different _ _
    rw [status]
    refine (valid.follows t' call' calling).keep ?_
    rintro q (own | own)
    · exact congrArg _ (same (by rw [valid.fresh_of calling own]; simp))
    · exact congrArg _ (same (by rw [valid.unlinked_of calling own]; simp))

end Valid

/-- What the stack asks of a step of the collector while a call moves a node. -/
structure Gentle (cfg : Config) (st : State V) (t : Tid) (raw : Raw.State) : Prop where
  run : Reachable (Raw.step cfg) (Raw.Client cfg) .init raw
  active : ∀ t', raw.Active t' ↔ st.raw.Active t'
  protect : ∀ t', st.raw.protect t' ⊆ raw.protect t'
  loads : ∀ t' q, Raw.Protects raw t' q → Raw.Protects st.raw t' q ∨ st.head = some q
  scans : ∀ t', ∀ f ∈ raw.stack t', ∀ s, f.scanSlot = some s → s = t'
  roomy : ∀ t', t' ≠ t → Raw.Roomy st.raw t' → Raw.Roomy raw t'
  cells : ∀ x, x ≠ 0 → raw.cells x = none

namespace Gentle

/-- No step. -/
theorem refl (valid : Valid cfg st a) (t : Tid) : Gentle cfg st t st.raw where
  run := valid.run
  active _ := .rfl
  protect _ := List.Subset.refl _
  loads _ _ := .inl
  scans := valid.scans
  roomy _ _ := id
  cells := valid.cells

/-- An access of the head. -/
theorem access {op : Raw.CellOp} (valid : Valid cfg st a)
    (collected : Collected cfg st t (.access t 0 op) (accessed st t op) st.nodes) :
    Gentle cfg st t (accessed st t op) where
  run := collected.run
  active _ := .rfl
  protect := accessed_subset op
  loads _ _ := accessed_loads
  scans := collected.scans valid (by simp [Raw.Action.scans])
  roomy _ _ := collected.roomy valid.collector.1 (by simp [Raw.Action.scans])
  cells x other := (Function.update_of_ne other _ _).trans (valid.cells x other)

/-- A retirement of the thread. -/
theorem add {f : Raw.Reclaim} {c : Alloc} (valid : Valid cfg st a)
    (collected : Collected cfg st t (.add t p f c) raw nodes) : Gentle cfg st t raw := by
  have kept := fun s => collected.slot_kept (s := s) (by simp [Raw.Action.touches])
  have cells := collected.cells (by simp)
  exact
    { run := collected.run
      active := fun t' => (kept t').2
      protect := fun t' => (kept t').1 ▸ List.Subset.refl _
      loads := fun t' q protects =>
        .inl ⟨(kept t').2.mp protects.1, (kept t').1 ▸ protects.2⟩
      scans := collected.scans valid (by simp [Raw.Action.scans])
      roomy := fun t' other => collected.roomy valid.collector.1
        (by simpa [Raw.Action.scans] using Ne.symm other)
      cells := fun x other => (congrFun cells x).trans (valid.cells x other) }

end Gentle

/-- The place of a node that a call moves is a place of its own, or belongs to nobody. -/
def Place.ofThread (t : Tid) : Place → Prop
  | .fresh t' => t' = t
  | .unlinked t' => t' = t
  | .unborn => False
  | _ => True

/-- Such a place is in use, and is that of no other thread. -/
theorem Place.ofThread.ne {place : Place} (mine : place.ofThread t) : place ≠ .unborn ∧
    (∀ t', t' ≠ t → place ≠ .fresh t') ∧ ∀ t', t' ≠ t → place ≠ .unlinked t' := by
  refine ⟨?_, fun t' different => ?_, fun t' different => ?_⟩
  · rintro rfl
    cases mine
  · rintro rfl
    exact different mine
  · rintro rfl
    exact different mine

namespace Valid

/-- A call moves one node from its place to another, where it stays published. -/
theorem move (valid : Valid cfg st a) (gentle : Gentle cfg st t raw) {old call : Call V}
    {stashed : List Ptr} {values : List V} {status : Status (Op V) (Reply V)}
    (calling : st.calls t = some old)
    (before : (st.place p).ofThread t) (after : new.ofThread t) (published : new.published = true)
    (unlinks : new = .unlinked t ↔ call.unlinked = some p) (quiet : call.fresh = none)
    (olds : ∀ q, q ≠ p → old.fresh ≠ some q ∧ old.unlinked ≠ some q)
    (news : ∀ q, q ≠ p → call.unlinked ≠ some q)
    (heap : Heap (st.moved t p new call raw stashed))
    (stash : ∀ q, q ∈ stashed ↔ Function.update st.place p new q = .stashed) (once : stashed.Nodup)
    (roomy : call.reserved = true → Raw.Roomy raw t) (loaded : call.Loaded st.nodes (raw.protect t))
    (contents : ∃ items, Contents (st.moved t p new call raw stashed) values items)
    (follows : call.Follows st.nodes status) :
    Valid cfg (st.moved t p new call raw stashed)
      ({ a with object := values }.become t status) := by
  -- The new place is published, so it is nobody's own fresh node.
  have mine : new ≠ .fresh t := by
    rintro rfl
    cases published
  obtain ⟨born, notFresh, notUnlinked⟩ := before.ne
  obtain ⟨born', notFresh', notUnlinked'⟩ := after.ne
  have otherStatus : ∀ t', t' ≠ t →
      ({ a with object := values }.become t status).status t' = a.status t' :=
    fun t' different => Function.update_of_ne different _ _
  refine
    { run := gentle.run
      heap := heap
      born := fun q => (place_same born born' q).trans (valid.born q)
      fresh := owner_move valid.fresh notFresh notFresh' (by simp [mine, quiet]) ?_
      unlinked := owner_move valid.unlinked notUnlinked notUnlinked' (by simpa using unlinks) ?_
      stashed := stash
      once := once
      cells := gentle.cells
      guards := fun t' => (valid.guards t').trans (gentle.active t').symm
      inside := fun t' calling' => ?_
      scans := gentle.scans
      roomy := calls_move roomy fun t' call' different calling' reserved =>
        gentle.roomy t' different (valid.roomy t' call' calling' reserved)
      published := fun t' q protects => ?_
      loaded := calls_move loaded fun t' call' _ calling' =>
        (valid.loaded t' call' calling').keep (gentle.protect t') fun _ _ => rfl
      contents := contents
      idle := fun t' calling' => ?_
      follows := calls_move ?_ fun t' call' different calling' => by
        rw [otherStatus t' different]
        exact valid.follows t' call' calling' }
  · intro q different
    simp [calling, quiet, (olds q different).1]
  · intro q different
    simp [calling, news q different, (olds q different).2]
  · by_cases here : t' = t
    · subst here
      exact valid.inside t' (by simp [calling])
    · exact valid.inside t' (by simpa [State.moved, Function.update_of_ne here] using calling')
  · show (Function.update st.place p new q).published = true
    by_cases here : q = p
    · subst here
      rw [Function.update_self]
      exact published
    · rw [Function.update_of_ne here]
      rcases gentle.loads t' q protects with old | head
      · exact valid.published t' q old
      · rw [valid.head_linked head]
        rfl
  · have different : t' ≠ t := by
      rintro rfl
      simp [State.moved] at calling'
    rw [otherStatus t' different]
    exact valid.idle t' (by simpa [State.moved, Function.update_of_ne different] using calling')
  · show call.Follows st.nodes (Function.update a.status t status t)
    rw [Function.update_self]
    exact follows

/--
The compare-exchange of `push` succeeds: its node is linked on top of the list.

The atomic stack pushes at the same moment.
-/
theorem link (valid : Valid cfg st a) {top : Ptr}
    (calling : st.calls t = some (.pushSwap top st.head))
    (collected : Collected cfg st t (.access t 0 (.swap (some top)))
      (accessed st t (.swap (some top))) st.nodes) :
    ∃ value, a.status t = .called (.push value) ∧
      Valid cfg
        (st.moved t top .linked (.returning .pushed) (accessed st t (.swap (some top))) st.stashed)
        ({ a with object := value :: a.object }.become t (.done .pushed)) := by
  have fresh : st.place top = .fresh t := valid.fresh_of calling rfl
  obtain ⟨_, value, stored⟩ := valid.loaded t _ calling
  obtain ⟨node, stored', status⟩ := valid.follows t _ calling
  cases stored.symm.trans stored'
  refine ⟨value, status, valid.move (.access valid collected) calling (by rw [fresh]; rfl) trivial
    rfl (by simp [Call.unlinked]) rfl ?_ (by simp [Call.unlinked])
    (valid.heap.move (accessed st t (.swap (some top))) rfl (by rw [fresh]; rfl) rfl ..)
    (fun q => (valid.stashed q).trans (place_same (by simp [fresh]) (by simp) q).symm) valid.once
    (by simp [Call.reserved]) trivial ?_ rfl⟩
  · intro q different
    simp [Call.fresh, Call.unlinked, Ne.symm different]
  · -- The new node is above all others.
    obtain ⟨items, contents⟩ := valid.contents
    have unlinked : top ∉ items.map Prod.fst := by
      rw [contents.linked, fresh]
      simp
    refine ⟨(top, value) :: items, ?_, ?_, fun q => ?_, ?_⟩
    · exact ⟨accessed_cells _, st.head, stored, contents.chain⟩
    · exact List.nodup_cons.mpr ⟨unlinked, contents.distinct⟩
    · simp only [List.map_cons, List.mem_cons, State.moved]
      by_cases here : q = top
      · subst here
        simp
      · rw [Function.update_of_ne here, contents.linked]
        simp [here]
    · simp [contents.data]

/--
The compare-exchange of `pop` succeeds: the top node is unlinked.

The atomic stack pops at the same moment.
-/
theorem unlink (valid : Valid cfg st a) {top : Ptr} {next : Option Ptr} {reserved : Bool}
    (calling : st.calls t = some (.popSwap top next reserved)) (head : st.head = some top)
    (collected : Collected cfg st t (.access t 0 (.swap next)) (accessed st t (.swap next))
      st.nodes) :
    ∃ value rest, a.status t = .called .pop ∧ a.object = value :: rest ∧
      Valid cfg
        (st.moved t top (.unlinked t) (.popRead top reserved) (accessed st t (.swap next))
          st.stashed)
        ({ a with object := rest }.become t (.done (.popped (some value)))) := by
  have linked : st.place top = .linked := valid.head_linked head
  obtain ⟨_, value, stored⟩ := valid.loaded t _ calling
  obtain ⟨items, contents⟩ := valid.contents
  have chain := contents.chain
  rw [head] at chain
  -- The node that was loaded is still the first one, with the same successor.
  cases items with
  | nil => cases chain
  | cons item rest =>
    obtain ⟨same, next', stored', chain⟩ := chain
    cases same
    cases stored.symm.trans stored'
    have distinct := List.nodup_cons.mp contents.distinct
    refine ⟨item.2, rest.map Prod.snd, valid.follows t _ calling, contents.data, valid.move
      (.access valid collected) calling (by rw [linked]; trivial) rfl rfl
      (by simp [Call.unlinked]) rfl (by simp [Call.fresh, Call.unlinked]) ?_
      (valid.heap.move (accessed st t (.swap next)) rfl (by rw [linked]; rfl) rfl ..)
      (fun q => (valid.stashed q).trans (place_same (by simp [linked]) (by simp) q).symm)
      valid.once ?_ trivial ?_ ⟨_, stored, rfl⟩⟩
    · intro q different
      simp [Call.unlinked, Ne.symm different]
    · intro room
      exact collected.roomy valid.collector.1 (by simp [Raw.Action.scans])
        (valid.roomy t _ calling room)
    · refine ⟨rest, ?_, distinct.2, fun q => ?_, rfl⟩
      · have cells : (accessed st t (.swap next)).cells 0 = next := accessed_cells _
        exact cells ▸ chain
      · have linked' := contents.linked q
        simp only [List.map_cons, List.mem_cons] at linked'
        simp only [State.moved]
        by_cases here : q = item.1
        · subst here
          simpa using distinct.1
        · rw [Function.update_of_ne here, ← linked']
          simp [here]

/-- The retirement of the node that a call has unlinked is accepted. -/
theorem retire (valid : Valid cfg st a) {top : Ptr} {data : V} {reserved : Bool} {f : Raw.Reclaim}
    {c : Alloc} (calling : st.calls t = some (.popRetire top data reserved))
    (collected : Collected cfg st t (.add t top f c) raw nodes)
    (log : raw.log = .retired st.raw.nextRid top f :: st.raw.log) :
    nodes = st.nodes ∧
      Valid cfg (st.moved t top .retired (.returning (.popped (some data))) raw st.stashed) a := by
  have unlinked : st.place top = .unlinked t := valid.unlinked_of calling rfl
  -- The node has not been retired before, and retiring it does not free anything at once.
  have unretired : ¬ Raw.Retired st.raw top := by
    rw [← valid.heap.retired, unlinked]
    simp
  have reclaimed : ∀ q, Raw.Reclaimed raw q ↔ Raw.Reclaimed st.raw q :=
    Raw.reclaimed_quiet [.retired st.raw.nextRid top f] log (by simp [Raw.Event.invokes])
  have retired : ∀ q, Raw.Retired raw q ↔ q = top ∨ Raw.Retired st.raw q := by
    intro q
    simp only [Raw.Retired, log, List.mem_cons, Event.retired.injEq]
    constructor
    · rintro ⟨rid, f', ⟨_, same, _⟩ | old⟩
      · exact .inl same
      · exact .inr ⟨rid, f', old⟩
    · rintro (rfl | ⟨rid, f', old⟩)
      · exact ⟨_, f, .inl ⟨rfl, rfl, rfl⟩⟩
      · exact ⟨rid, f', .inr old⟩
  have same : nodes = st.nodes := funext fun q => collected.kept q (reclaimed q).mp
  subst same
  refine ⟨rfl, ?_⟩
  have status : ({ a with object := a.object }.become t (a.status t)) = a := by simp [Atomic.become]
  have follows := valid.follows t _ calling
  rw [← status]
  refine valid.move (.add valid collected) calling (by rw [unlinked]; rfl) trivial rfl
    (by simp [Call.unlinked]) rfl ?_ (by simp [Call.unlinked]) ?_
    (fun q => (valid.stashed q).trans (place_same (by simp [unlinked]) (by simp) q).symm) valid.once
    (by simp [Call.reserved]) trivial ?_ follows
  · intro q different
    simp [Call.fresh, Call.unlinked, Ne.symm different]
  · refine ⟨fun q => ?_, fun q => ?_, fun rid rid' q f₁ f₂ first second => ?_, valid.heap.apart⟩
    · simp only [State.moved, reclaimed]
      by_cases here : q = top
      · subst here
        rw [Function.update_self, valid.heap.live]
        simp [unlinked]
      · rw [Function.update_of_ne here]
        exact valid.heap.live q
    · simp only [State.moved, retired]
      by_cases here : q = top
      · subst here
        simp
      · rw [Function.update_of_ne here, valid.heap.retired]
        simp [here]
    · -- A node is retired for the first time.
      simp only [State.moved, log, List.mem_cons, Event.retired.injEq] at first second
      rcases first with ⟨rfl, rfl, rfl⟩ | old
      · rcases second with ⟨rfl, _⟩ | old'
        · rfl
        · exact absurd ⟨_, _, old'⟩ unretired
      · rcases second with ⟨_, rfl, _⟩ | old'
        · exact absurd ⟨_, _, old⟩ unretired
        · exact valid.heap.single rid rid' q f₁ f₂ old old'
  · obtain ⟨items, contents⟩ := valid.contents
    have cells := congrFun (collected.cells (by simp)) 0
    refine ⟨items, ?_, contents.distinct, fun q => ?_, contents.data⟩
    · have head : (st.moved t top .retired (.returning (.popped (some data))) raw st.stashed).head =
          st.head := cells
      rw [head]
      exact contents.chain
    · rw [contents.linked]
      exact (place_same (by simp [unlinked]) (by simp) q).symm

/-- The node that a call has unlinked is put on the list of stashed nodes. -/
theorem stash (valid : Valid cfg st a) {top : Ptr} {data : V}
    (calling : st.calls t = some (.popStash top data)) :
    Valid cfg
      (st.moved t top .stashed (.returning (.popped (some data))) st.raw (top :: st.stashed)) a := by
  have unlinked : st.place top = .unlinked t := valid.unlinked_of calling rfl
  have status : ({ a with object := a.object }.become t (a.status t)) = a := by simp [Atomic.become]
  have follows := valid.follows t _ calling
  rw [← status]
  refine valid.move (.refl valid t) calling (by rw [unlinked]; rfl) trivial rfl
    (by simp [Call.unlinked]) rfl ?_ (by simp [Call.unlinked])
    (valid.heap.move st.raw rfl (by rw [unlinked]; rfl) rfl ..) ?_ ?_ (by simp [Call.reserved])
    trivial ?_ follows
  · intro q different
    simp [Call.fresh, Call.unlinked, Ne.symm different]
  · intro q
    rw [List.mem_cons, valid.stashed]
    by_cases here : q = top
    · subst here
      simp
    · rw [Function.update_of_ne here]
      simp [here]
  · refine List.nodup_cons.mpr ⟨?_, valid.once⟩
    rw [valid.stashed, unlinked]
    simp
  · obtain ⟨items, contents⟩ := valid.contents
    refine ⟨items, contents.chain, contents.distinct, fun q => ?_, contents.data⟩
    rw [contents.linked]
    exact (place_same (by simp [unlinked]) (by simp) q).symm

end Valid

/-- Distinct nodes that are allocated can all be freed. -/
theorem freeAll_spec {ps : List Ptr} : ∀ {nodes : Ptr → Option (Node V)}, ps.Nodup →
    (∀ p ∈ ps, (nodes p).isSome) → ∃ nodes', freeAll ps nodes = some nodes' ∧
      ∀ q, nodes' q = if q ∈ ps then none else nodes q := by
  induction ps with
  | nil => exact fun _ _ => ⟨_, rfl, fun q => by simp⟩
  | cons p rest ih =>
    intro nodes distinct live
    obtain ⟨absent, distinct⟩ := List.nodup_cons.mp distinct
    obtain ⟨node, stored⟩ := Option.isSome_iff_exists.mp (live p List.mem_cons_self)
    -- Freeing one node leaves the others allocated.
    have others : ∀ q ∈ rest, (Function.update nodes p none q).isSome := by
      intro q member
      have other : q ≠ p := by
        rintro rfl
        exact absent member
      rw [Function.update_of_ne other]
      exact live q (List.mem_cons_of_mem _ member)
    obtain ⟨nodes', freed, after⟩ := ih distinct others
    refine ⟨nodes', by simp only [freeAll, stored, freed], fun q => ?_⟩
    rw [after]
    by_cases here : q = p
    · subst here
      simp
    · simp [here]

/-- While nobody has a guard, `free_stashed` frees every stashed node, and nobody notices. -/
theorem Valid.freeStashed (valid : Valid cfg st a) (alone : ∀ t, st.guarded t = false) :
    ∃ nodes', freeAll st.stashed st.nodes = some nodes' ∧ Valid cfg { st with
      nodes := nodes'
      stashed := []
      place := fun p => if st.place p = .stashed then .freed else st.place p } a := by
  have live : ∀ p ∈ st.stashed, (st.nodes p).isSome := by
    intro p member
    have place := (valid.stashed p).mp member
    exact valid.live_of (by simp [place]) (by simp [place]) (by simp [place])
  obtain ⟨nodes', freed, after⟩ := freeAll_spec valid.once live
  refine ⟨nodes', freed, ?_⟩
  -- Without a guard no thread is in a call.
  have calls : ∀ t, st.calls t = none := by
    intro t
    by_contra calling
    have guarded := valid.inside t calling
    rw [alone t] at guarded
    cases guarded
  have kept : ∀ q, st.place q ≠ .stashed → nodes' q = st.nodes q := by
    intro q elsewhere
    rw [after, if_neg fun member => elsewhere ((valid.stashed q).mp member)]
  have gone : ∀ q, st.place q = .stashed → nodes' q = none := by
    intro q place
    rw [after, if_pos ((valid.stashed q).mpr place)]
  -- Every other place is the one it was.
  have place : ∀ {place : Place} (q : Ptr), place ≠ .stashed → place ≠ .freed →
      ((if st.place q = .stashed then .freed else st.place q) = place ↔ st.place q = place) := by
    intro place q other unfreed
    by_cases here : st.place q = .stashed
    · rw [if_pos here, here]
      exact iff_of_false unfreed.symm other.symm
    · rw [if_neg here]
  refine { valid with
    heap := ⟨fun q => ?_, fun q => ?_, valid.heap.single, fun q r liveQ liveR => ?_⟩
    born := fun q => (place q (by simp) (by simp)).trans (valid.born q)
    fresh := fun t q => (place q (by simp) (by simp)).trans (valid.fresh t q)
    unlinked := fun t q => (place q (by simp) (by simp)).trans (valid.unlinked t q)
    stashed := fun q => ?_
    once := .nil
    published := fun t q protects => ?_
    loaded := fun t call calling => ?_
    contents := ?_
    follows := fun t call calling => ?_ }
  · by_cases here : st.place q = .stashed
    · simp [gone q here, here]
    · simp only [kept q here, if_neg here]
      exact valid.heap.live q
  · exact (place q (by simp) (by simp)).trans (valid.heap.retired q)
  · have before : ∀ {r}, (nodes' r).isSome → (st.nodes r).isSome := by
      intro r live
      by_cases here : st.place r = .stashed
      · simp [gone r here] at live
      · rwa [kept r here] at live
    exact valid.heap.apart q r (before liveQ) (before liveR)
  · by_cases here : st.place q = .stashed
    · simp [here]
    · simp [here]
  · -- Nothing is protected while nobody has a guard.
    have guarded := (valid.guards t).mpr protects.1
    rw [alone t] at guarded
    cases guarded
  · cases (calls t).symm.trans calling
  · obtain ⟨items, contents⟩ := valid.contents
    refine ⟨items, contents.chain.congr fun q member => kept q ?_, contents.distinct,
      fun q => (contents.linked q).trans (place q (by simp) (by simp)).symm, contents.data⟩
    rw [(contents.linked q).mp member]
    simp
  · cases (calls t).symm.trans calling

end Seize.PressureStack
