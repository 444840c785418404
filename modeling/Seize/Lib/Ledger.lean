import Mathlib.Logic.Function.Basic

/-! Allocation histories, and the blocks that are live after one. -/

namespace Seize

/-- One call that an allocator has granted. -/
inductive MemEvent (β lay : Type) where
  /-- A block was handed out with a layout. -/
  | alloc (block : β) (layout : lay)
  /-- A block was handed back with a layout. -/
  | dealloc (block : β) (layout : lay)

variable {β lay : Type} [DecidableEq β] [DecidableEq lay]

/--
The live blocks after a history, which lists its newest call first.

A history has no live blocks to speak of once it hands out a live block, hands back a block
that is not live, or hands one back with another layout than it was allocated with.
-/
def liveBlocks : List (MemEvent β lay) → Option (β → Option lay)
  | [] => some fun _ => none
  | .alloc block layout :: earlier =>
    match liveBlocks earlier with
    | some live => if live block = none then some (Function.update live block (some layout)) else none
    | none => none
  | .dealloc block layout :: earlier =>
    match liveBlocks earlier with
    | some live => if live block = some layout then some (Function.update live block none) else none
    | none => none

/-- The event that hands out a block with a layout. -/
def MemEvent.hands (block : β) (layout : lay) : MemEvent β lay → Bool
  | .alloc block' layout' => block' = block ∧ layout' = layout
  | .dealloc .. => false

/-- The event that takes a block back with a layout. -/
def MemEvent.takes (block : β) (layout : lay) : MemEvent β lay → Bool
  | .alloc .. => false
  | .dealloc block' layout' => block' = block ∧ layout' = layout

variable {history : List (MemEvent β lay)} {live : β → Option lay} {block : β} {layout : lay}

/-- A block that is not live can be handed out. -/
theorem liveBlocks_alloc (layout : lay) (known : liveBlocks history = some live)
    (free : live block = none) :
    liveBlocks (.alloc block layout :: history) =
      some (Function.update live block (some layout)) := by
  simp only [liveBlocks, known, free, if_true]

/-- A live block can be handed back with its layout. -/
theorem liveBlocks_dealloc (known : liveBlocks history = some live)
    (taken : live block = some layout) :
    liveBlocks (.dealloc block layout :: history) = some (Function.update live block none) := by
  simp only [liveBlocks, known, taken, if_true]

/-- Every block was handed back as often as it was handed out, but for once if it is live. -/
theorem liveBlocks_count (known : liveBlocks history = some live) (block : β) (layout : lay) :
    history.countP (·.hands block layout) =
      history.countP (·.takes block layout) + if live block = some layout then 1 else 0 := by
  -- An event changes both sides for its own block and layout, and neither side for any other.
  induction history generalizing live with
  | nil =>
    cases known
    simp
  | cons event earlier ih =>
    cases event with
    | alloc block' layout' =>
      simp only [liveBlocks] at known
      split at known
      · rename_i before found
        split at known
        · rename_i free
          cases known
          have old := ih found
          by_cases here : block' = block
          · subst here
            by_cases same : layout' = layout
            · simp_all [MemEvent.hands, MemEvent.takes]
            · simp_all [MemEvent.hands, MemEvent.takes]
          · have other : block ≠ block' := Ne.symm here
            simp_all [MemEvent.hands, MemEvent.takes]
        · cases known
      · cases known
    | dealloc block' layout' =>
      simp only [liveBlocks] at known
      split at known
      · rename_i before found
        split at known
        · rename_i taken
          cases known
          have old := ih found
          by_cases here : block' = block
          · subst here
            by_cases same : layout' = layout
            · simp_all [MemEvent.hands, MemEvent.takes]
            · simp_all [MemEvent.hands, MemEvent.takes]
          · have other : block ≠ block' := Ne.symm here
            simp_all [MemEvent.hands, MemEvent.takes]
        · cases known
      · cases known

end Seize
