import Seize.Guard.ReclaimAll
import Seize.Raw.Blocks

/-!
The memory of a collector that is dropped.

Dropping a collector calls `reclaim_all`, and the blocks of batches that it leaves are leaked.
-/

namespace Seize.Guards

open Seize.Raw (Config SlotId Tid Ptr Reclaim Addr Block Layout Swept)

variable {cfg : Config} {script : Script} {t : Tid} {k : SlotId} {c c' : Cascade}
  {st st' : State} {action : Action} {calls : List Raw.Action} {next : State}

/-- No reclaimer retires. -/
def Retireless (script : Script) : Prop := ∀ p f q g, .retire q g ∉ script p f

/-- Only retirements fill slots. -/
theorem Planned.commandFills {command : Command} (planned : Planned cfg st t action calls next)
    (is : action.command t = some command) :
    ∀ call ∈ calls, (∃ p f, command = .retire p f) ∨ ∀ k, Raw.Fills k call := by
  cases planned with
  | refusedLocal => simp
  | enterLocal own =>
    intro call made
    refine .inr fun k => ?_
    rcases List.mem_cons.mp made with rfl | later
    · trivial
    · split at later
      · obtain rfl := List.mem_singleton.mp later
        trivial
      · cases later
  | refreshLocal | dropLocal =>
    intro call made
    refine .inr fun k => ?_
    split at made
    · obtain rfl := List.mem_singleton.mp made
      trivial
    · cases made
  | @batchLocal action g call onBatch member kind =>
    intro call' made
    obtain rfl := List.mem_singleton.mp made
    cases action with
    | deferRetire =>
      cases onBatch
      simp only [Action.command, kind, if_pos, Option.some.injEq] at is
      exact .inl ⟨_, _, is.symm⟩
    | flush =>
      cases onBatch
      exact .inr fun _ => trivial
    | reserveRetire => cases is
    | _ => cases onBatch
  | @thread action s call onThread own =>
    intro call' made
    obtain rfl := List.mem_singleton.mp made
    cases action with
    | retire =>
      cases onThread
      exact .inl ⟨_, _, (Option.some.inj is).symm⟩
    | reserve => cases is
    | _ => cases onThread
  -- A reclaimer uses no owned guards.
  | refreshOwned _ kind | dropOwned _ kind => simp [Action.command, kind] at is
  | @batchOwned action g call onBatch member kind =>
    cases action <;> cases onBatch <;> simp [Action.command, kind] at is
  | inner inside => cases action <;> first | cases inside; done | cases is
  | nothing same => rcases same with rfl | ⟨_, rfl⟩ <;> cases is
  | _ => cases is

/-- A thread inside `reclaim_all` whose reclaimers retire nothing: what is passed stays empty. -/
structure Clearing (cfg : Config) (t : Tid) (c : Cascade) : Prop where
  cascading : Cascading cfg t c
  retireless : ∀ q g, ∀ commands ∈ c.todo, .retire q g ∉ commands
  swept : ∀ k, Swept t k c.guards.raw

/-- The step lemma. -/
theorem Clearing.step (never : Retireless script) (clearing : Clearing cfg t c)
    (ran : c.step cfg script t action = .ok c') : Clearing cfg t c' := by
  obtain ⟨todo, spent, stepped, listed⟩ := Cascade.step_inv ran
  have taken := Cascade.spend_taken spent
  have cascading := clearing.cascading
  obtain ⟨calls, next, raw, _, planned, called, eq, allowed⟩ :=
    (cascading.calm taken).facts cascading.run stepped
  -- Without retirements no call fills a slot.
  have fills : ∀ k, ∀ call ∈ calls, Raw.Fills k call := by
    intro k call made
    rcases planned.sorts taken with rfl | ⟨call, is, rfl⟩ | ⟨command, commands, _, is, _, todo, member⟩
    · cases made
    · obtain rfl := List.mem_singleton.mp made
      have returns := taken.plain.2.1
      cases action <;> cases is <;> first | exact absurd rfl returns | trivial
    · refine (planned.commandFills is call made).resolve_left ?_ k
      rintro ⟨p, f, rfl⟩
      exact clearing.retireless p f commands (todo ▸ List.mem_cons_self) member
  have after : c'.guards.raw = raw := by rw [eq, settle]
  refine ⟨cascading.step ran, fun q g => ?_, fun k => ?_⟩
  · exact listed ▸ taken.without (fun p f => never p f q g) (clearing.retireless q g) _ _
  · rw [after]
    exact swept_calls (reachable_peaceful cascading.run).2 (reachable_absent cascading.run) allowed
      (fills k) (planned.shape taken) (planned.within taken called) (clearing.swept k) called

/-- What a collector that is dropped has done with its memory. -/
structure Released (script : Script) (t : Tid) (c : Cascade) : Prop where
  /-- No block was handed back twice, or with another layout, and the batches own the live ones. -/
  live : liveBlocks c.guards.raw.ledger = some c.guards.raw.blocks
  /-- A block is live only if it is one of the batch that the thread has filled anew. -/
  left : ∀ b, c.guards.raw.blocks (.box b) ≠ none ∨ c.guards.raw.blocks (.entries b) ≠ none →
    ∃ k, c.guards.thread t = some k ∧ c.guards.raw.batch k = .ptr b
  /-- If no reclaimer retires, every block was handed back as often as it was handed out. -/
  matched : Retireless script → ∀ block layout,
    c.guards.raw.ledger.countP (·.hands block layout) =
      c.guards.raw.ledger.countP (·.takes block layout)

end Seize.Guards
