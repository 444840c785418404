import Seize.Raw.Step
import Seize.Lib.Count
import Seize.Lib.DisjointLists

/-! What holds between any two steps of the collector: who owns a batch, and what the lists hold. -/

namespace Seize.Raw

/-- A pointer reaches exactly the entries of a list through the `next` fields. -/
def Chain (mem : Addr → Option Batch) : Option EntryPtr → List EntryPtr → Prop
  | first, [] => first = none
  | first, e :: rest => first = some e ∧
    ∃ entry next, entryIn mem e = some entry ∧ entry.state = .next next ∧ Chain mem next rest

/-- An allocated entry that is published and not decremented. -/
def Linked (mem : Addr → Option Batch) (e : EntryPtr) : Prop :=
  ∃ entry, entryIn mem e = some entry ∧ entry.link = .linked

/-- A place that holds a list of linked entries. -/
inductive Place where
  /-- The reservation list of a slot. -/
  | slot (s : SlotId)
  /-- A detached list that a call of `traverse` is working on. -/
  | call (t : Tid) (height : Nat)
  deriving DecidableEq

/-- The entries a frame still has to visit. -/
def Frame.rest : Frame → List EntryPtr
  | .traverse _ rest => rest
  | _ => []

/-- The linked entries at a place. -/
def listAt (st : State) : Place → List EntryPtr
  | .slot s => st.pushed s
  | .call t height =>
    match st.frame t height with
    | some f => f.rest
    | none => []

namespace Batch

/-- Entries whose decrement has happened. -/
def released (batch : Batch) : Nat := batch.entries.countP (·.link = .released)

/-- Entries that are linked and not decremented. -/
def linkedNow (batch : Batch) : Nat := batch.entries.countP (·.link = .linked)

/-- Entries that were linked at some time. -/
def everLinked (batch : Batch) : Nat := batch.entries.countP (·.link ≠ .unlinked)

/-- The entries in a range of indices hold the reservation they were marked for. -/
def Marked (batch : Batch) (low high : Nat) : Prop :=
  ∀ j, low ≤ j → j < high → ∃ entry s, batch.entries[j]? = some entry ∧ entry.state = .head (some s)

/-- The entries from an index on have not been linked. -/
def UnlinkedFrom (batch : Batch) (low : Nat) : Prop :=
  ∀ j entry, low ≤ j → batch.entries[j]? = some entry → entry.link = .unlinked

end Batch

/-- A retirer between its commit and its addition. -/
structure Linking (cfg : Config) (batch : Batch) (marked i active : Nat)
    (seen : Option (SlotId × Head)) : Prop where
  enough : marked ≤ batch.entries.length
  bounded : marked ≤ cfg.slots
  within : i ≤ marked
  counted : active ≤ i
  inLoop : seen.isSome → i < marked
  exact : active = batch.everLinked
  fresh : batch.UnlinkedFrom i
  marks : batch.Marked (if seen.isSome then i + 1 else i) marked

/-- What the frame of a call in progress promises about the memory it works on. -/
def FrameOk (cfg : Config) (local_ : SlotId → LocalBatch) (mem : Addr → Option Batch) (t : Tid)
    (height : Nat) : Frame → Prop
  | .scan s b _ cursor marked =>
    local_ s = .ptr b ∧ marked ≤ cursor ∧ cursor ≤ cfg.slots ∧
      ∃ batch, mem b = some batch ∧ marked ≤ batch.entries.length ∧ batch.Marked 0 marked
  | .link b marked i active seen =>
    ∃ batch, mem b = some batch ∧ batch.phase = .retiring t height ∧
      Linking cfg batch marked i active seen
  | .traverse list rest => Chain mem list rest
  | .freeBatch batchPtr _ =>
    ∃ b batch, batchPtr = .ptr b ∧ mem b = some batch ∧ batch.phase = .freeing t height
  | _ => True

/-- What the stage of a batch says about its owner, its entries and its count. -/
def PhaseOk (cfg : Config) (st : State) (b : Addr) (batch : Batch) : Phase → Prop
  | .pending s => st.batch s = .ptr b ∧ batch.active = 0 ∧ batch.UnlinkedFrom 0
  | .retiring t height =>
    (∃ marked i active seen, st.frame t height = some (.link b marked i active seen)) ∧
      (batch.active + batch.released = 0 ∨ batch.active + batch.released = cfg.modulus)
  | .shared =>
    batch.active + batch.released = batch.everLinked ∧ batch.released < batch.everLinked ∧
      batch.everLinked ≤ cfg.slots
  | .freeing _ _ => batch.linkedNow = 0

/-- Nothing is called from scans, linking loops and the iteration of `reclaim_all`. -/
def Frame.isLeaf : Frame → Bool
  | .scan .. => true
  | .link .. => true
  | .reclaimAll _ => true
  | _ => false

/-- Only the innermost call of a thread can be a leaf. -/
def TopOnly : List Frame → Prop
  | [] => True
  | _ :: below => ∀ f ∈ below, f.isLeaf = false

/-- Two threads never work on the same local batch. -/
def AccessOk (stack : Tid → List Frame) : Prop :=
  ∀ s t t', ∀ f ∈ stack t, ∀ f' ∈ stack t', f.usesBatch s → f'.usesBatch s → t = t'

/-- The collector's invariant. -/
structure Inv (cfg : Config) (st : State) : Prop where
  frames : ∀ t height f, st.frame t height = some f → FrameOk cfg st.batch st.mem t height f
  phases : ∀ b batch, st.mem b = some batch → PhaseOk cfg st b batch batch.phase
  owners : ∀ b batch, st.mem b = some batch → ∀ entry ∈ batch.entries, entry.batch = b
  slots : ∀ s b, st.batch s = .ptr b → ∃ batch, st.mem b = some batch ∧ batch.phase = .pending s
  idle : ∀ s, st.head s = .inactive → st.pushed s = []
  heads : ∀ s first, st.head s = .list first → Chain st.mem first (st.pushed s)
  lists : DisjointLists (Linked st.mem) (listAt st)
  access : AccessOk st.stack
  tops : ∀ t, TopOnly (st.stack t)

/-- The batch a frame works on. -/
def Frame.batchOf : Frame → Option Addr
  | .scan _ b .. => some b
  | .link b .. => some b
  | .freeBatch (.ptr b) _ => some b
  | _ => none

/-- A change of memory that rewrites the union field of no linked entry. -/
def States (mem mem' : Addr → Option Batch) : Prop :=
  ∀ e entry, entryIn mem e = some entry → entry.link = .linked →
    ∃ entry', entryIn mem' e = some entry' ∧ entry'.state = entry.state

/-- A chain of linked entries survives every change that leaves their union fields alone. -/
theorem Chain.keep {mem mem' : Addr → Option Batch} (states : States mem mem') :
    ∀ {list : List EntryPtr} {first : Option EntryPtr}, (∀ e ∈ list, Linked mem e) →
      Chain mem first list → Chain mem' first list := by
  intro list
  induction list with
  | nil => exact fun _ chain => chain
  | cons e rest ih =>
    intro first linked chain
    obtain ⟨eq, entry, next, found, state, tail⟩ := chain
    obtain ⟨entry', found', state'⟩ := linked e (by simp)
    -- The chain and the link status speak of the same entry.
    obtain rfl : entry' = entry := Option.some.inj (found'.symm.trans found)
    obtain ⟨after, foundAfter, same⟩ := states e entry' found state'
    exact ⟨eq, after, next, foundAfter, same.trans state,
      ih (fun e' member => linked e' (by simp [member])) tail⟩

/-- What a frame promises depends only on its own batch, its slot and the lists it walks. -/
theorem FrameOk.keep {cfg : Config} {local_ local' : SlotId → LocalBatch}
    {mem mem' : Addr → Option Batch} {t : Tid} {height : Nat} {f : Frame}
    (sameMem : ∀ b, f.batchOf = some b → mem' b = mem b)
    (sameLocal : ∀ s b, f.batchOf = some b → local_ s = .ptr b → local' s = .ptr b)
    (states : States mem mem') (linked : ∀ e ∈ f.rest, Linked mem e)
    (ok : FrameOk cfg local_ mem t height f) : FrameOk cfg local' mem' t height f := by
  cases f with
  | scan s b start cursor marked =>
    obtain ⟨held, small, bounded, batch, found, rest⟩ := ok
    exact ⟨sameLocal s b rfl held, small, bounded, batch, (sameMem b rfl).trans found, rest⟩
  | link b marked i active seen =>
    obtain ⟨batch, found, rest⟩ := ok
    exact ⟨batch, (sameMem b rfl).trans found, rest⟩
  | traverse list rest => exact Chain.keep states linked ok
  | freeBatch batchPtr i =>
    obtain ⟨b, batch, rfl, found, phase⟩ := ok
    exact ⟨b, batch, rfl, (sameMem b rfl).trans found, phase⟩
  | reclaimer rid p f => trivial
  | reclaimAll cursor => trivial
  | reclaimReset cursor => trivial

/-- What a stage says depends only on its slot, or on the retirer's frame. -/
theorem PhaseOk.keep {cfg : Config} {st st' : State} {b : Addr} {batch : Batch} {phase : Phase}
    (sameLocal : ∀ s, st.batch s = .ptr b → st'.batch s = .ptr b)
    (kept : ∀ t height marked i active seen, st.frame t height = some (.link b marked i active seen) →
      ∃ marked i active seen, st'.frame t height = some (.link b marked i active seen))
    (ok : PhaseOk cfg st b batch phase) : PhaseOk cfg st' b batch phase := by
  cases phase with
  | pending s => exact ⟨sameLocal s ok.1, ok.2⟩
  | retiring t height =>
    obtain ⟨⟨marked, i, active, seen, found⟩, count⟩ := ok
    exact ⟨kept t height marked i active seen found, count⟩
  | shared => exact ok
  | freeing t height => exact ok

/--
The frame rule: a step that touches some batches keeps everything it says nothing about.

What remains to be shown concerns the touched batches, the new frames and the new lists.
-/
theorem Inv.transfer {cfg : Config} {st st' : State} (inv : Inv cfg st) (touched : Addr → Prop)
    (mem : ∀ b, ¬ touched b → st'.mem b = st.mem b)
    (batch : ∀ s b, ¬ touched b → (st'.batch s = .ptr b ↔ st.batch s = .ptr b))
    (frames : ∀ t height f, st'.frame t height = some f →
      (st.frame t height = some f ∧ ∀ b, f.batchOf = some b → ¬ touched b) ∨
        FrameOk cfg st'.batch st'.mem t height f)
    (kept : ∀ t height b marked i active seen, ¬ touched b →
      st.frame t height = some (.link b marked i active seen) →
        ∃ marked i active seen, st'.frame t height = some (.link b marked i active seen))
    (phases : ∀ b batch, touched b → st'.mem b = some batch → PhaseOk cfg st' b batch batch.phase)
    (owners : ∀ b batch, touched b → st'.mem b = some batch → ∀ entry ∈ batch.entries, entry.batch = b)
    (slots : ∀ s b, touched b → st'.batch s = .ptr b →
      ∃ batch, st'.mem b = some batch ∧ batch.phase = .pending s)
    (states : States st.mem st'.mem)
    (idle : ∀ s, st'.head s = .inactive → st'.pushed s = [])
    (heads : ∀ s first, st'.head s = .list first →
      (st.head s = .list first ∧ st'.pushed s = st.pushed s) ∨ Chain st'.mem first (st'.pushed s))
    (lists : DisjointLists (Linked st'.mem) (listAt st'))
    (access : AccessOk st'.stack) (tops : ∀ t, TopOnly (st'.stack t)) : Inv cfg st' where
  -- What names no touched batch is as before, and the rest is given.
  frames := by
    intro t height f found
    rcases frames t height f found with ⟨old, untouched⟩ | ok
    · refine FrameOk.keep (fun b named => mem b (untouched b named))
        (fun s b named held => (batch s b (untouched b named)).mpr held) states ?_
        (inv.frames t height f old)
      intro e member
      exact inv.lists.listed (.call t height) e (by simpa [listAt, old] using member)
    · exact ok
  phases := by
    intro b found stored
    by_cases touch : touched b
    · exact phases b found touch stored
    · rw [mem b touch] at stored
      exact PhaseOk.keep (fun s held => (batch s b touch).mpr held)
        (fun t height marked i active seen => kept t height b marked i active seen touch)
        (inv.phases b found stored)
  owners := by
    intro b found stored
    by_cases touch : touched b
    · exact owners b found touch stored
    · exact inv.owners b found (mem b touch ▸ stored)
  slots := by
    intro s b held
    by_cases touch : touched b
    · exact slots s b touch held
    · rw [mem b touch]
      exact inv.slots s b ((batch s b touch).mp held)
  idle := idle
  heads := by
    intro s first active
    rcases heads s first active with ⟨old, same⟩ | chain
    · rw [same]
      exact Chain.keep states (fun e => inv.lists.listed (.slot s) e) (inv.heads s first old)
    · exact chain
  lists := lists
  access := access
  tops := tops

end Seize.Raw
