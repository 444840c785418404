import Seize.Guard.Step
import Seize.Raw.Check

/-! What a step of the guard layer can do, said once, and what its raw calls do to a slot. -/

namespace Seize.Guards

open Seize.Raw (Config SlotId Tid Ptr Reclaim Alloc Cell CellOp Stop)
open Seize.Tls (Usage)

/-- The call that an action through a guard makes on the guard's batch. -/
def Action.onBatch : Action → Option (Guard × Raw.Action)
  | .deferRetire g p f c => some (g, .add g.slot p f c)
  | .reserveRetire g c => some (g, .reserve g.slot c)
  | .flush g => some (g, .flush g.slot)
  | _ => none

/-- The call that an action makes on the batch of the current thread. -/
def Action.onThread (s : SlotId) : Action → Option Raw.Action
  | .retire p f c => some (.add s p f c)
  | .reserve c => some (.reserve s c)
  | _ => none

/-- The raw calls that only continue a call in progress, and the call of `reclaim_all`. -/
def solitary : Raw.Action → Bool
  | .ret => true
  | .panic => true
  | .advance _ => true
  | .skip _ => true
  | .reclaimAll => true
  | _ => false

/-- The outcomes of an action, with the raw calls it makes and the next state of the guard layer. -/
inductive Planned (cfg : Config) (st : State) (t : Tid) :
    Action → List Raw.Action → State → Prop where
  /-- A thread that has an ID asks for it, or one without an ID exits. -/
  | nothing {action : Action} (is : action = .current ∨ ∃ reserved, action = .exit reserved) :
      Planned cfg st t action [] st
  | current {s : SlotId} {ids : Usage} (absent : st.thread t = none)
      (created : createThread cfg st.ids = some (s, ids)) :
      Planned cfg st t .current [] { st with ids := ids, threads := (t, s) :: st.threads }
  /-- `LocalGuard::enter` returns `Err`. -/
  | refusedLocal {s : SlotId} (mine : st.thread t = some s) (missing : s ∉ st.raw.created) :
      Planned cfg st t (.enterLocal false) [] st
  | enterLocal {alloc : Bool} {s : SlotId} (mine : st.thread t = some s)
      (small : st.guards s + 1 < cfg.modulus) (room : s ∈ st.raw.created ∨ alloc = true) :
      Planned cfg st t (.enterLocal alloc)
        (.create s :: (if st.guards s = 0 then [.enter s] else [])) { st with
          guards := Function.update st.guards s (st.guards s + 1)
          live := ⟨st.nextName, .localTo t, s⟩ :: st.live
          nextName := st.nextName + 1 }
  /-- `OwnedGuard::enter` returns `Err`. -/
  | refusedOwned {reserved : Bool} {s : SlotId} {ids : Usage}
      (created : createThread cfg st.ids = some (s, ids)) (missing : s ∉ st.raw.created) :
      Planned cfg st t (.enterOwned false reserved) []
        { st with ids := freeThread ids reserved s }
  | enterOwned {alloc reserved : Bool} {s : SlotId} {ids : Usage}
      (created : createThread cfg st.ids = some (s, ids))
      (room : s ∈ st.raw.created ∨ alloc = true) :
      Planned cfg st t (.enterOwned alloc reserved) [.create s, .enter s] { st with
        ids := ids
        live := ⟨st.nextName, .owned, s⟩ :: st.live
        nextName := st.nextName + 1 }
  | refreshLocal {g : Guard} (member : g ∈ st.live) (kind : g.kind = .localTo t) :
      Planned cfg st t (.refresh g) (if st.guards g.slot = 1 then [.refresh g.slot] else []) st
  | refreshOwned {g : Guard} (member : g ∈ st.live) (kind : g.kind = .owned)
      (free : st.locked g.slot = false) : Planned cfg st t (.refresh g) [.refresh g.slot] st
  | dropLocal {g : Guard} (member : g ∈ st.live) (kind : g.kind = .localTo t)
      (positive : st.guards g.slot ≠ 0) :
      Planned cfg st t (.drop g) (if st.guards g.slot = 1 then [.leave g.slot] else []) { st with
        guards := Function.update st.guards g.slot (st.guards g.slot - 1)
        live := st.live.erase g }
  | dropOwned {g : Guard} (member : g ∈ st.live) (kind : g.kind = .owned)
      (free : st.locked g.slot = false) :
      Planned cfg st t (.drop g) [.leave g.slot] { st with
        live := st.live.erase g
        drops := ⟨t, (st.raw.stack t).length, g.slot⟩ :: st.drops }
  | finish {reserved : Bool} {d : Dropping} (found : st.dropping t = some d)
      (done : (st.raw.stack t).length = d.height) :
      Planned cfg st t (.finish reserved) [] { st with
        drops := st.drops.erase d
        ids := freeThread st.ids reserved d.slot }
  | forget {g : Guard} (member : g ∈ st.live) (kind : g.kind = .localTo t ∨ g.kind = .owned)
      (free : st.locked g.slot = false) :
      Planned cfg st t (.forget g) [] { st with
        live := st.live.erase g
        leaked := g :: st.leaked }
  | exit {reserved : Bool} {s : SlotId} (mine : st.thread t = some s)
      (empty : st.raw.stack t = []) :
      Planned cfg st t (.exit reserved) [] { st with
        threads := st.threads.filter (·.1 ≠ t)
        ids := freeThread st.ids reserved s }
  | batchLocal {action : Action} {g : Guard} {call : Raw.Action}
      (is : action.onBatch = some (g, call)) (member : g ∈ st.live)
      (kind : g.kind = .localTo t) : Planned cfg st t action [call] st
  | batchOwned {action : Action} {g : Guard} {call : Raw.Action}
      (is : action.onBatch = some (g, call)) (member : g ∈ st.live) (kind : g.kind = .owned)
      (free : st.locked g.slot = false) :
      Planned cfg st t action [call] { st with
        locks := ⟨t, (st.raw.stack t).length, g.slot⟩ :: st.locks }
  | access {g : Guard} {x : Cell} {op : CellOp} (member : g ∈ st.live)
      (kind : g.kind = .localTo t ∨ g.kind = .owned) :
      Planned cfg st t (.access g x op) [.access g.slot x op] st
  | thread {action : Action} {s : SlotId} {call : Raw.Action}
      (is : action.onThread s = some call) (mine : st.thread t = some s) :
      Planned cfg st t action [call] st
  | reclaimAll : Planned cfg st t .reclaimAll [.reclaimAll] st
  | inner {action : Action} {call : Raw.Action} (is : action.inner = some call) :
      Planned cfg st t action [call] st

variable {cfg : Config} {st st' : State} {t : Tid} {action : Action} {calls : List Raw.Action}
  {next : State} {raw raw' : Raw.State}

/-- A guard that a thread can use. -/
theorem State.usable_iff {g : Guard} (usable : ¬ st.usable t g = false) :
    g ∈ st.live ∧ (g.kind = .localTo t ∨ g.kind = .owned) := by
  rw [Bool.not_eq_false, State.usable] at usable
  exact of_decide_eq_true usable

/-- A call on the batch of a guard is one of two outcomes. -/
theorem onBatch_planned {g : Guard} {call : Raw.Action} (is : action.onBatch = some (g, call))
    (planned : onBatch st t g call = .ok (calls, next)) : Planned cfg st t action calls next := by
  unfold onBatch at planned
  split at planned
  · cases planned
  · rename_i usable
    obtain ⟨member, kind⟩ := State.usable_iff usable
    split at planned
    · rename_i t' isLocal
      cases planned
      refine .batchLocal is member (kind.resolve_right ?_)
      rw [isLocal]
      simp
    · rename_i isOwned
      split at planned
      · cases planned
      · rename_i free
        cases planned
        exact .batchOwned is member isOwned (by simpa using free)

/-- The inversion of a plan. -/
theorem plan_planned (planned : plan cfg st t action = .ok (calls, next)) :
    Planned cfg st t action calls next := by
  -- Which kind of guard a thread can use says which branch was taken.
  have ofLocal : ∀ {g : Guard} {t' : Tid}, ¬ st.usable t g = false → g.kind = .localTo t' →
      g ∈ st.live ∧ g.kind = .localTo t := by
    intro g t' usable isLocal
    obtain ⟨member, kind⟩ := State.usable_iff usable
    refine ⟨member, kind.resolve_right ?_⟩
    rw [isLocal]
    simp
  cases action with
  | current =>
    simp only [plan] at planned
    split at planned
    · cases planned
      exact .nothing (.inl rfl)
    · rename_i absent
      split at planned
      · rename_i created
        cases planned
        exact .current absent created
      · cases planned
  | enterLocal alloc =>
    simp only [plan] at planned
    split at planned
    · cases planned
    · rename_i s mine
      split at planned
      · rename_i missing
        cases planned
        obtain ⟨absent, rfl⟩ := missing
        exact .refusedLocal mine absent
      · rename_i room
        split at planned
        · cases planned
        · rename_i small
          cases planned
          refine .enterLocal mine (by omega) ?_
          by_contra neither
          simp only [not_or, Bool.not_eq_true] at neither
          exact room neither
  | enterOwned alloc reserved =>
    simp only [plan] at planned
    split at planned
    · cases planned
    · rename_i s ids created
      split at planned
      · rename_i missing
        cases planned
        obtain ⟨absent, rfl⟩ := missing
        exact .refusedOwned created absent
      · rename_i room
        cases planned
        refine .enterOwned created ?_
        by_contra neither
        simp only [not_or, Bool.not_eq_true] at neither
        exact room neither
  | refresh g =>
    simp only [plan] at planned
    split at planned
    · cases planned
    · rename_i usable
      split at planned
      · rename_i isLocal
        cases planned
        obtain ⟨member, kind⟩ := ofLocal usable isLocal
        exact .refreshLocal member kind
      · rename_i isOwned
        split at planned
        · cases planned
        · rename_i free
          cases planned
          exact .refreshOwned (State.usable_iff usable).1 isOwned (by simpa using free)
  | drop g =>
    simp only [plan] at planned
    split at planned
    · cases planned
    · rename_i usable
      split at planned
      · rename_i isLocal
        obtain ⟨member, kind⟩ := ofLocal usable isLocal
        split at planned
        · cases planned
        · rename_i positive
          cases planned
          exact .dropLocal member kind positive
      · rename_i isOwned
        split at planned
        · cases planned
        · rename_i free
          cases planned
          exact .dropOwned (State.usable_iff usable).1 isOwned (by simpa using free)
  | finish reserved =>
    simp only [plan] at planned
    split at planned
    · rename_i d found
      split at planned
      · rename_i done
        cases planned
        exact .finish found done
      · cases planned
    · cases planned
  | forget g =>
    simp only [plan] at planned
    split at planned
    · cases planned
    · rename_i free
      cases planned
      obtain ⟨usable, unlocked⟩ := not_or.mp free
      obtain ⟨member, kind⟩ := State.usable_iff usable
      exact .forget member kind (by simpa using unlocked)
  | exit reserved =>
    simp only [plan] at planned
    split at planned
    · cases planned
    · rename_i empty
      split at planned
      · rename_i s mine
        cases planned
        exact .exit mine (by simpa using empty)
      · cases planned
        exact .nothing (.inr ⟨reserved, rfl⟩)
  | deferRetire g p f c => exact onBatch_planned rfl planned
  | reserveRetire g c => exact onBatch_planned rfl planned
  | flush g => exact onBatch_planned rfl planned
  | access g x op =>
    simp only [plan] at planned
    split at planned
    · cases planned
    · rename_i usable
      cases planned
      obtain ⟨member, kind⟩ := State.usable_iff usable
      exact .access member kind
  | retire p f c =>
    simp only [plan] at planned
    split at planned
    · rename_i s mine
      cases planned
      exact .thread rfl mine
    · cases planned
  | reserve c =>
    simp only [plan] at planned
    split at planned
    · rename_i s mine
      cases planned
      exact .thread rfl mine
    · cases planned
  | reclaimAll =>
    cases planned
    exact .reclaimAll
  | ret | panic | advance | skip =>
    cases planned
    exact .inner rfl

/-- The inversion of a step: its plan, its raw calls, and what settles afterwards. -/
theorem step_planned {move : Tid × Action} (ran : step cfg st move = .ok st') :
    ∃ calls next raw, blocked st move.1 move.2 = false ∧
      plan cfg st move.1 move.2 = .ok (calls, next) ∧ Planned cfg st move.1 move.2 calls next ∧
        runCalls cfg move.1 calls st.raw = .ok raw ∧
          st' = settle { next with raw := raw } move.1 move.2 := by
  unfold step at ran
  split at ran
  · cases ran
  · rename_i free
    split at ran
    · cases ran
    · rename_i calls next planned
      split at ran
      · cases ran
      · rename_i raw called
        cases ran
        exact ⟨calls, next, raw, by simpa using free, planned, plan_planned planned, called, rfl⟩

/-- Such a raw call is the only one of its plan. -/
theorem Planned.sole {call : Raw.Action} (planned : Planned cfg st t action calls next)
    (made : call ∈ calls) (alone : solitary call = true) :
    calls = [call] ∧ (action.inner = some call ∨ (action = .reclaimAll ∧ call = .reclaimAll)) := by
  cases planned with
  | inner is =>
    cases List.mem_singleton.mp made
    exact ⟨rfl, .inl is⟩
  | reclaimAll =>
    cases List.mem_singleton.mp made
    exact ⟨rfl, .inr ⟨rfl, rfl⟩⟩
  -- Every other plan calls functions of the collector on a slot.
  | batchLocal is | batchOwned is | thread is =>
    cases List.mem_singleton.mp made
    cases action <;> cases is <;> cases alone
  | enterLocal =>
    rcases List.mem_cons.mp made with rfl | later
    · cases alone
    · split at later
      · cases List.mem_singleton.mp later
        cases alone
      · cases later
  | enterOwned =>
    rcases List.mem_cons.mp made with rfl | later
    · cases alone
    · cases List.mem_singleton.mp later
      cases alone
  | refreshLocal | dropLocal =>
    split at made
    · cases List.mem_singleton.mp made
      cases alone
    · cases made
  | refreshOwned | dropOwned | access =>
    cases List.mem_singleton.mp made
    cases alone
  | nothing | current | refusedLocal | refusedOwned | finish | forget | exit => cases made

end Seize.Guards
