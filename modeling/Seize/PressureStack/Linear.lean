import Seize.PressureStack.Nodes
import Seize.Raw.Failure

/-!
The stack is linearizable, and its memory is safe.

Every step is followed by an atomic stack, whose operations take effect at the successful
compare-exchanges and where `pop` finds null.
-/

namespace Seize.PressureStack

open Seize.Raw (Config Tid Ptr Alloc Event)

variable {V : Type} {cfg : Config} {st : State V} {a : Atomic (List V) (Op V) (Reply V)} {t : Tid}
  {c : Alloc} {call : Call V}

/-- A step that goes well: it has no fault, and an atomic stack follows it. -/
def Good (cfg : Config) (st : State V) (a : Atomic (List V) (Op V) (Reply V)) : Result V → Prop
  | .error fault => fault = .disabled
  | .ok st' => ∃ new a',
    Atomic.Run apply a new a' ∧ st'.history = new ++ st.history ∧ Valid cfg st' a'

/-- A step in which the atomic stack waits. -/
theorem Good.same {st' : State V} (history : st'.history = st.history) (valid : Valid cfg st' a) :
    Good cfg st a (.ok st') :=
  ⟨[], a, .refl, history, valid⟩

/-- A step in which the operation of a call takes effect. -/
theorem Good.commit {st' : State V} {op : Op V} (history : st'.history = st.history)
    (called : a.status t = .called op)
    (valid : Valid cfg st' ({ a with object := (apply a.object op).1 }.become t
      (.done (apply a.object op).2))) : Good cfg st a (.ok st') :=
  ⟨[], _, (Atomic.Step.commit called).run, history, valid⟩

namespace Valid

/-- Accesses to the collector by a thread on its own slot. -/
theorem unique (valid : Valid cfg st a) (t : Tid) : Raw.UniqueAccess st.raw t t :=
  valid.collector.1.unique_own valid.scans

/-- A step inside the collector. -/
theorem inner (valid : Valid cfg st a) {action : Raw.Action}
    (permitted : Raw.Client cfg st.raw (t, action)) (scans : action.scans = none)
    (touches : action.touches = none) : Good cfg st a (collect cfg st t action) := by
  rcases valid.collects permitted with failed | ⟨raw, nodes, ran, _, collected⟩
  · rw [failed]
    rfl
  · rw [ran]
    exact .same rfl (valid.passive collected scans touches)

/-- The load and the store of a turn of `push`. -/
theorem pushLoad (valid : Valid cfg st a) (outside : st.raw.stack t = []) {new : Ptr}
    (calling : st.calls t = some (.pushLoad new)) :
    Good cfg st a (PressureStack.pushLoad cfg st t new) := by
  -- The call's own node is allocated, so the store into it is defined.
  have place := valid.fresh_of calling rfl
  have live := valid.live_of (p := new) (by simp [place]) (by simp [place]) (by simp [place])
  obtain ⟨node, stored⟩ := Option.isSome_iff_exists.mp live
  obtain ⟨ran, collected⟩ := valid.access .load outside (by simp [Raw.CellOp.writes])
  obtain ⟨node', stored', status⟩ := valid.follows t _ calling
  cases stored.symm.trans stored'
  simp only [PressureStack.pushLoad, ran, stored]
  refine .same rfl ?_
  have written := (valid.load collected).write st.head calling stored
  -- The head that was loaded is protected, and it is in the node.
  have own := Function.update_self new (some { node with next := st.head }) st.nodes
  exact written.goOn calling rfl rfl (by simp [Call.reserved])
    ⟨fun p head => accessed_protects head, node.data, own⟩ ⟨_, own, status⟩

/-- The compare-exchange of a turn of `push`. -/
theorem pushSwap (valid : Valid cfg st a) (outside : st.raw.stack t = []) {new : Ptr}
    {head : Option Ptr} (calling : st.calls t = some (.pushSwap new head)) :
    Good cfg st a (PressureStack.pushSwap cfg st t new head) := by
  have place := valid.fresh_of calling rfl
  have loaded := valid.loaded t _ calling
  unfold PressureStack.pushSwap
  split
  · rename_i same
    -- The head that was loaded is protected, so only itself has its address.
    have is : st.head = head := valid.head_is
      (fun p eq => valid.live_of_protects ⟨valid.active calling, loaded.1 p eq⟩) same
    subst is
    obtain ⟨ran, collected⟩ := valid.access (.swap (some new)) outside fun p writes => by
      cases writes
      simp [place]
    obtain ⟨value, status, linked⟩ := valid.link calling collected
    simp only [ran]
    exact .commit rfl status linked
  -- A turn that fails starts again, and the atomic stack has not moved.
  · obtain ⟨node, stored, status⟩ := valid.follows t _ calling
    exact .same rfl
      (valid.goOn calling rfl rfl (by simp [Call.reserved]) trivial ⟨node, stored, status⟩)

/-- The load of a turn of `pop`, which takes effect when it finds null. -/
theorem popLoad (valid : Valid cfg st a) (outside : st.raw.stack t = [])
    (calling : st.calls t = some .popLoad) : Good cfg st a (PressureStack.popLoad cfg st t) := by
  obtain ⟨ran, collected⟩ := valid.access .load outside (by simp [Raw.CellOp.writes])
  have after := valid.load collected
  have status := valid.follows t _ calling
  simp only [PressureStack.popLoad, ran]
  cases head : st.head with
  | none =>
    -- The list is empty, and so is the atomic stack.
    obtain ⟨items, contents⟩ := valid.contents
    have chain := contents.chain
    have empty : a.object = [] := by
      cases items with
      | nil => exact contents.data
      | cons item rest =>
        rw [head] at chain
        cases chain.1
    have popped : apply a.object .pop = (a.object, .popped none) := by rw [empty]; rfl
    refine .commit rfl status ?_
    rw [popped]
    exact after.switch _ _ st.history (by simp [calling, Call.fresh])
      (by simp [calling, Call.unlinked])
      (fun _ => valid.inside t (by simp [calling])) (by rintro _ ⟨⟩; simp [Call.reserved])
      (by rintro _ ⟨⟩; trivial) (by simp) (by rintro _ ⟨⟩; rfl)
  | some top =>
    exact .same rfl
      (after.goOn calling rfl rfl (by simp [Call.reserved]) (accessed_protects head) status)

/-- The read of `next`, whose node the guard keeps alive. -/
theorem popNext (valid : Valid cfg st a) {head : Ptr}
    (calling : st.calls t = some (.popNext head)) : Good cfg st a (PressureStack.popNext st t head) := by
  have member := valid.loaded t _ calling
  have live := valid.live_of_protects ⟨valid.active calling, member⟩
  obtain ⟨node, stored⟩ := Option.isSome_iff_exists.mp live
  have status := valid.follows t _ calling
  simp only [PressureStack.popNext, stored]
  exact .same rfl
    (valid.goOn calling rfl rfl (by simp [Call.reserved]) ⟨member, node.data, stored⟩ status)

/-- The reservation of `pop`. -/
theorem popReserve (valid : Valid cfg st a) (small : t < cfg.slots) {head : Ptr}
    {next : Option Ptr} (calling : st.calls t = some (.popReserve head next)) :
    Good cfg st a (PressureStack.popReserve cfg st t c head next) := by
  have permitted : Raw.Client cfg st.raw (t, .reserve t c) :=
    ⟨⟨⟨⟨⟨small, valid.unique t⟩, by simp⟩, by simp⟩, trivial⟩, by simp⟩
  unfold PressureStack.popReserve
  rcases valid.collects permitted with failed | ⟨raw, nodes, ran, stepped, collected⟩
  · rw [failed]
    rfl
  · rw [ran]
    have after := valid.passive collected rfl rfl
    have loaded := after.loaded t _ calling
    have status := after.follows t _ calling
    refine .same rfl (after.goOn calling rfl rfl (fun reserved => ?_) loaded status)
    -- A reservation that returns `Ok` leaves room.
    obtain ⟨user, st₁, result, prepared, rfl⟩ := Raw.step_reserve stepped
    have ok : result ≠ .failed := by
      rintro rfl
      simp [Call.reserved, reserves, prepared] at reserved
    have roomy := Raw.prepare_roomy valid.collector.1.sound.inv user (valid.unique t) prepared ok
    exact ⟨⟨roomy.present, roomy.room⟩, roomy.idle⟩

/-- The compare-exchange of a turn of `pop`. -/
theorem popSwap (valid : Valid cfg st a) (outside : st.raw.stack t = []) {head : Ptr}
    {next : Option Ptr} {reserved : Bool}
    (calling : st.calls t = some (.popSwap head next reserved)) :
    Good cfg st a (PressureStack.popSwap cfg st t head next reserved) := by
  obtain ⟨member, data, stored⟩ := valid.loaded t _ calling
  have status := valid.follows t _ calling
  unfold PressureStack.popSwap
  split
  · rename_i same
    have is : st.head = some head := valid.head_is (by rintro p ⟨⟩; simp [stored]) same
    -- What is written is in the list, below the head.
    have writes : ∀ p, next = some p → st.place p ≠ .retired := by
      rintro p rfl
      obtain ⟨items, contents⟩ := valid.contents
      have chain := contents.chain
      rw [is] at chain
      cases items with
      | nil => cases chain
      | cons item rest =>
        obtain ⟨first, next', stored', chain⟩ := chain
        cases first
        cases stored.symm.trans stored'
        cases rest with
        | nil => cases chain
        | cons second rest =>
          cases chain.1
          exact valid.linked_of contents (by simp)
    obtain ⟨ran, collected⟩ := valid.access (.swap next) outside writes
    obtain ⟨value, rest, _, object, unlinked⟩ := valid.unlink calling is collected
    have popped : apply a.object .pop = (rest, .popped (some value)) := by rw [object]; rfl
    simp only [ran]
    refine .commit rfl status ?_
    rw [popped]
    exact unlinked
  -- A turn that fails starts again.
  · exact .same rfl (valid.goOn calling rfl rfl (by simp [Call.reserved]) trivial status)

/-- The read of the data of an unlinked node. -/
theorem popRead (valid : Valid cfg st a) {head : Ptr} {reserved : Bool}
    (calling : st.calls t = some (.popRead head reserved)) :
    Good cfg st a (PressureStack.popRead st t head reserved) := by
  obtain ⟨node, stored, status⟩ := valid.follows t _ calling
  have roomy := valid.roomy t _ calling
  simp only [PressureStack.popRead, stored]
  exact .same rfl (valid.goOn calling rfl rfl roomy trivial status)

/-- The retirement of an unlinked node, which does not fail after a reservation. -/
theorem popRetire (valid : Valid cfg st a) (small : t < cfg.slots) (outside : st.raw.stack t = [])
    {head : Ptr} {data : V} {reserved : Bool}
    (calling : st.calls t = some (.popRetire head data reserved)) :
    Good cfg st a (PressureStack.popRetire cfg st t c head data reserved) := by
  -- A node that is unlinked is in no cell, as the collector asks of what is retired.
  have place := valid.unlinked_of calling rfl
  have hidden : ∀ x, st.raw.cells x ≠ some head := by
    intro x is
    by_cases first : x = 0
    · subst first
      rw [valid.head_linked is] at place
      cases place
    · rw [valid.cells x first] at is
      cases is
  have permitted : Raw.Client cfg st.raw (t, .add t head boxed c) :=
    ⟨⟨⟨⟨⟨small, valid.unique t⟩, by simp⟩, by simp⟩, hidden⟩, by simp⟩
  unfold PressureStack.popRetire
  rcases valid.collects permitted with failed | ⟨raw, nodes, ran, stepped, collected⟩
  · rw [failed]
    rfl
  · rw [ran]
    obtain ⟨after, moved, rfl⟩ := collected.moved
    rcases moved.add_log valid.collector.1.grace.clear with refused | retired
    · -- The retirement is refused, so nothing had been reserved.
      have head? : (Raw.tick after).log.head? = some (.refused st.raw.nextRid) := by
        rw [show (Raw.tick after).log = _ from refused]
        rfl
      simp only [head?, if_true]
      cases reserved with
      | true =>
        have user : Raw.userLevel (st.raw.stack t) = true := by rw [outside]; rfl
        have accepted := (valid.roomy t _ calling rfl).accepts user stepped
        exact absurd refused accepted
      | false =>
        have status := valid.follows t _ calling
        exact .same rfl ((valid.refused collected refused calling rfl).goOn calling rfl rfl
          (by simp [Call.reserved]) trivial status)
    · have head? : (Raw.tick after).log.head? ≠ some (.refused st.raw.nextRid) := by
        rw [show (Raw.tick after).log = _ from retired]
        simp
      obtain ⟨rfl, retired⟩ := valid.retire calling collected retired
      simp only [head?, if_false]
      exact .same rfl retired

/-- A node is stashed. -/
theorem popStash (valid : Valid cfg st a) {head : Ptr} {data : V}
    (calling : st.calls t = some (.popStash head data)) :
    Good cfg st a (PressureStack.popStash st t head data) :=
  .same rfl (valid.stash calling)

/-- A call returns. -/
theorem finish (valid : Valid cfg st a) {reply : Reply V}
    (calling : st.calls t = some (.returning reply)) :
    Good cfg st a (PressureStack.finish st t reply) := by
  have status := valid.follows t _ calling
  refine ⟨[.ret t reply], _, (Atomic.Step.ret status).run, rfl, ?_⟩
  exact valid.switch none .idle (.ret t reply :: st.history) (by simp [calling, Call.fresh])
    (by simp [calling, Call.unlinked]) (by simp) (by simp) (by simp) (by simp) (by simp)

/-- The next step of a call. -/
theorem advance (valid : Valid cfg st a) (small : t < cfg.slots) (outside : st.raw.stack t = [])
    (calling : st.calls t = some call) : Good cfg st a (PressureStack.advance cfg st t c call) := by
  cases call with
  | pushLoad new => exact valid.pushLoad outside calling
  | pushSwap new head => exact valid.pushSwap outside calling
  | popLoad => exact valid.popLoad outside calling
  | popNext head => exact valid.popNext calling
  | popReserve head next => exact valid.popReserve small calling
  | popSwap head next reserved => exact valid.popSwap outside calling
  | popRead head reserved => exact valid.popRead calling
  | popRetire head data reserved => exact valid.popRetire small outside calling
  | popStash head data => exact valid.popStash calling
  | returning reply => exact valid.finish calling

/-- The actions of a thread that is not inside the collector. -/
theorem act (valid : Valid cfg st a) {action : Action V} (permitted : Permitted cfg st (t, action))
    (outside : st.raw.stack t = []) : Good cfg st a (PressureStack.act cfg st t action) := by
  have idle := valid.idle t
  cases action with
  | attach =>
    simp only [PressureStack.act]
    split
    · rfl
    · have client : Raw.Client cfg st.raw (t, .create t) :=
        ⟨⟨⟨⟨permitted.1, by simp⟩, by simp⟩, trivial⟩, by simp⟩
      exact valid.inner client rfl rfl
  | enter =>
    simp only [PressureStack.act]
    split
    · rename_i fresh
      have inactive : st.raw.head t = .inactive := by
        by_contra active
        rw [(valid.guards t).mpr active] at fresh
        cases fresh.1
      have careful : Raw.Client cfg st.raw (t, .enter t) := by
        refine ⟨⟨⟨⟨fresh.2, fun s is => ?_⟩, by simp⟩, trivial⟩, by simp⟩
        cases is
        exact inactive
      rcases valid.collects careful with failed | ⟨raw, nodes, ran, _, collected⟩
      · rw [failed]
        rfl
      · rw [ran]
        exact .same rfl (valid.enter collected fresh.1)
    · rfl
  | leave =>
    simp only [PressureStack.act]
    split
    · rename_i ready
      have present := valid.collector.1.grace.periods.present t ((valid.guards t).mp ready.1)
      have careful : Raw.Client cfg st.raw (t, .leave t) :=
        ⟨⟨⟨⟨present, by simp⟩, by simp⟩, trivial⟩, by simp⟩
      rcases valid.collects careful with failed | ⟨raw, nodes, ran, _, collected⟩
      · rw [failed]
        rfl
      · rw [ran]
        exact .same rfl (valid.leave collected ready.2)
    · rfl
  | push value address =>
    simp only [PressureStack.act]
    split
    · rename_i ready
      unfold PressureStack.push
      split
      · rename_i vacant
        exact ⟨[.call t (.push value)], _, (Atomic.Step.call (idle ready.2)).run, rfl,
          valid.push ready.1 ready.2 vacant _⟩
      · rfl
    · rfl
  | pop =>
    simp only [PressureStack.act]
    split
    · rename_i ready
      refine ⟨[.call t .pop], _, (Atomic.Step.call (idle ready.2)).run, rfl, ?_⟩
      exact valid.switch _ _ _ (by simp [ready.2, Call.fresh]) (by simp [ready.2, Call.unlinked])
        (fun _ => ready.1) (by rintro _ ⟨⟩; simp [Call.reserved]) (by rintro _ ⟨⟩; trivial)
        (by simp) (by rintro _ ⟨⟩; rfl)
    · rfl
  | advance c =>
    simp only [PressureStack.act]
    split
    · rfl
    · rename_i call calling
      exact valid.advance permitted.1 outside calling
  | freeStashed =>
    obtain ⟨nodes, freed, after⟩ := valid.freeStashed (permitted.2 rfl)
    simp only [PressureStack.act, PressureStack.freeStashed, freed]
    exact .same rfl after
  | inner => rfl
  | skip => rfl
  | ret => rfl

/-- The step lemma: every permitted step goes well. -/
theorem step (valid : Valid cfg st a) {move : Tid × Action V} (permitted : Permitted cfg st move) :
    Good cfg st a (PressureStack.step cfg st move) := by
  -- A step inside the collector has nothing to obey, except that it is no panic.
  have client : ∀ {action : Raw.Action}, Raw.Access cfg st.raw (move.1, action) →
      (∀ s, action ≠ .enter s) → action ≠ .reclaimAll → Raw.Unlinks st.raw (move.1, action) →
      action ≠ .panic → Raw.Client cfg st.raw (move.1, action) :=
    fun access enters all unlinks calm =>
      ⟨⟨⟨⟨access, fun s is => absurd is (enters s)⟩, all⟩, unlinks⟩, calm⟩
  unfold PressureStack.step
  split
  · exact valid.inner (client trivial (by simp) (by simp) trivial (by simp)) rfl rfl
  · exact valid.inner (client trivial (by simp) (by simp) trivial (by simp)) rfl rfl
  · exact valid.inner (client trivial (by simp) (by simp) trivial (by simp)) rfl rfl
  · split
    · rename_i outside
      exact valid.act permitted outside
    · rfl

end Valid

/-- The atomic stack follows what goes well. -/
theorem Good.follows {result : Result V} (good : Good cfg st a result) :
    Follows apply State.history (Valid cfg) st a result := by
  intro st' ran
  rw [ran] at good
  exact good

/-- The run lemma: an atomic stack has followed every run. -/
theorem reachable_valid (run : Reachable (step cfg) (Permitted cfg) (State.init V) st) :
    ∃ a, Atomic.Run apply (Atomic.init []) st.history a ∧ Valid cfg st a :=
  run.followed State.history (Valid cfg) rfl (Valid.init cfg)
    fun _ _ _ valid permitted => (valid.step permitted).follows

/--
The stack is linearizable.

Its pushes and pops, by any number of threads in any interleaving, return what those of a stack that
handles one operation at a time would.
-/
theorem stack_linearizable (cfg : Config) (st : State V)
    (run : Reachable (step cfg) (Permitted cfg) (State.init V) st) :
    Linearizable apply [] st.history :=
  run.linearizable State.history (Valid cfg) rfl (Valid.init cfg)
    fun _ _ _ valid permitted => (valid.step permitted).follows

/-- Permission, decided for actions other than `free_stashed`. -/
def permittedCheck (cfg : Config) (move : Tid × Action V) : Bool :=
  decide (move.1 < cfg.slots) &&
    match move.2 with
    | .freeStashed => false
    | _ => true

/-- A move that passes the check is permitted. -/
theorem permitted_of_check {move : Tid × Action V} (approved : permittedCheck cfg move = true) :
    Permitted cfg st move := by
  simp only [permittedCheck, Bool.and_eq_true, decide_eq_true_eq] at approved
  refine ⟨approved.1, fun is => ?_⟩
  rw [is] at approved
  cases approved.2

/-- A computed run that passes the check reaches its final state. -/
theorem stack_reachable_of_check (cfg : Config) (final : State V → Bool)
    (moves : List (Tid × Action V))
    (checked : checkRun (step cfg) (fun _ move => permittedCheck cfg move) final (State.init V)
      moves = true) :
    ∃ st, Reachable (step cfg) (Permitted cfg) (State.init V) st ∧ final st = true := by
  obtain ⟨st, run, _, ended⟩ := Reachable.of_checkRun
    (fun _ _ _ approved => permitted_of_check approved) (fun _ _ _ _ _ _ => trivial) trivial checked
  exact ⟨st, run, ended⟩

/-- Several steps of the call of a thread. -/
def goOn (t : Tid) (n : Nat) : List (Tid × Action Nat) :=
  List.replicate n (t, .advance (Raw.plenty (t + 1)))

/-- A thread pushes, pops and retires a node, and its guard frees the node when it is dropped. -/
def reuse : List (Tid × Action Nat) :=
  [(0, .attach), (0, .enter), (0, .push 5 100)] ++ goOn 0 3 ++ [(0, .pop)] ++ goOn 0 6 ++
    [(0, .inner false), (0, .skip (2 ^ 64 - 32)), (0, .inner false), (0, .inner false),
      (0, .inner false), (0, .inner false)] ++ goOn 0 1 ++
    [(0, .leave), (0, .inner false), (0, .inner false), (0, .ret), (0, .inner false),
      (0, .inner false)]

/--
The address of the freed node is used again, and two threads pop the new node at once.

The one that fails finds the stack empty, and returns first.
-/
def race : List (Tid × Action Nat) :=
  reuse ++ [(0, .enter), (0, .push 6 100)] ++ goOn 0 3 ++ [(1, .attach), (1, .enter), (1, .pop)] ++
    goOn 1 3 ++ [(0, .pop)] ++ goOn 0 5 ++ goOn 1 3

/-- What the two threads see. -/
def raceHistory : List (Seen (Op Nat) (Reply Nat)) :=
  [.ret 1 (.popped none), .call 0 .pop, .call 1 .pop, .ret 0 .pushed, .call 0 (.push 6),
    .ret 0 (.popped (some 5)), .call 0 .pop, .ret 0 .pushed, .call 0 (.push 5)]

/-- That run is possible. -/
theorem race_reachable : ∃ st, Reachable (step ⟨64, 1⟩) (Permitted ⟨64, 1⟩) (State.init Nat) st ∧
    st.history = raceHistory ∧ .reclaimed 0 0 0 (some 7) ∈ st.raw.log ∧
      st.address 1 = st.address 0 ∧ st.calls 0 = some (.popRetire 1 6 true) := by
  obtain ⟨st, run, ended⟩ := stack_reachable_of_check ⟨64, 1⟩
    (fun st => decide (st.history = raceHistory ∧ Event.reclaimed 0 0 0 (some 7) ∈ st.raw.log ∧
      st.address 1 = st.address 0 ∧ st.calls 0 = some (.popRetire 1 6 true))) race (by decide)
  exact ⟨st, run, of_decide_eq_true ended⟩

/-- There the history is linearizable, although the operations overlap. -/
theorem stack_linearizable_race : ∃ st,
    Reachable (step ⟨64, 1⟩) (Permitted ⟨64, 1⟩) (State.init Nat) st ∧ st.history = raceHistory ∧
      Linearizable apply [] raceHistory := by
  obtain ⟨st, run, history, _⟩ := race_reachable
  have linear := stack_linearizable _ st run
  rw [history] at linear
  exact ⟨st, run, history, linear⟩

/-- What the collector is for. -/
structure Safe (cfg : Config) (st : State V) : Prop where
  /-- No step reads or frees a node that is not allocated, and no assertion fails. -/
  defined : ∀ move, Permitted cfg st move → step cfg st move ≠ .error .undefinedBehaviour ∧
    step cfg st move ≠ .error .assertion
  /-- A node that `pop` unlinks is the one it loaded, with the successor it read. -/
  same : ∀ t head next reserved, st.calls t = some (.popSwap head next reserved) →
    st.headIs (some head) = true → st.head = some head ∧ ∃ data, st.nodes head = some ⟨data, next⟩
  /-- Once the stack is empty and idle, its nodes are freed, stashed, or with the collector. -/
  kept : (∀ t, st.calls t = none) → st.head = none → ∀ p, (st.nodes p).isSome →
    p ∈ st.stashed ∨ Raw.Retired st.raw p ∧ ¬ Raw.Reclaimed st.raw p

/-- Nodes are neither used after they were freed, nor freed twice, nor lost. -/
theorem stack_memory_safe (cfg : Config) (st : State V)
    (run : Reachable (step cfg) (Permitted cfg) (State.init V) st) : Safe cfg st := by
  obtain ⟨a, _, valid⟩ := reachable_valid run
  refine ⟨fun move permitted => ?_, fun t head next reserved calling same => ?_,
    fun idle empty p live => ?_⟩
  -- Steps that go well have no fault but that they are disabled.
  · have good := valid.step permitted
    constructor
    · intro failed
      rw [failed] at good
      cases good
    · intro failed
      rw [failed] at good
      cases good
  -- The guard protects what was loaded, so nobody else can have its address.
  · obtain ⟨_, data, stored⟩ := valid.loaded t _ calling
    exact ⟨valid.head_is (by rintro p ⟨⟩; simp [stored]) same, data, stored⟩
  -- A node in one of the other places is in the list or belongs to a call, and there are none.
  · obtain ⟨born, unfreed, unreclaimed⟩ := (valid.heap.live p).mp live
    cases place : st.place p with
    | unborn => exact absurd place born
    | freed => exact absurd place unfreed
    | stashed => exact .inl ((valid.stashed p).mpr place)
    | retired => exact .inr ⟨(valid.heap.retired p).mp place, unreclaimed⟩
    | linked =>
      obtain ⟨items, contents⟩ := valid.contents
      have member := (contents.linked p).mpr place
      have chain := contents.chain
      rw [empty] at chain
      cases items with
      | nil => cases member
      | cons item rest => cases chain.1
    | fresh t =>
      have owned := (valid.fresh t p).mp place
      simp [idle t] at owned
    | unlinked t =>
      have owned := (valid.unlinked t p).mp place
      simp [idle t] at owned

/-- There memory is safe, although the address of a freed node was given to a later one. -/
theorem stack_memory_safe_race : ∃ st : State Nat, .reclaimed 0 0 0 (some 7) ∈ st.raw.log ∧
    st.address 1 = st.address 0 ∧ st.calls 0 = some (.popRetire 1 6 true) ∧ Safe ⟨64, 1⟩ st := by
  obtain ⟨st, run, _, freed, reused, calling⟩ := race_reachable
  exact ⟨st, freed, reused, calling, stack_memory_safe _ st run⟩

end Seize.PressureStack
