import Mathlib.Data.List.Basic

/-! Positions in a call stack, counted from the bottom so that calls and returns keep them. -/

namespace Seize

variable {φ : Type}

/-- The frame at a height, where the bottom frame has height zero and the list starts at the top. -/
def frameAt : List φ → Nat → Option φ
  | [], _ => none
  | f :: below, height => if height = below.length then some f else frameAt below height

/-- An empty stack has no frame at any height. -/
@[simp] theorem frameAt_nil (height : Nat) : frameAt ([] : List φ) height = none := rfl

/-- The top frame stands at the height of what is below it. -/
@[simp] theorem frameAt_top (f : φ) (below : List φ) : frameAt (f :: below) below.length = some f := by
  simp [frameAt]

/-- Only heights inside the stack carry a frame. -/
theorem frameAt_lt {stack : List φ} {height : Nat} {f : φ} (found : frameAt stack height = some f) :
    height < stack.length := by
  induction stack with
  | nil => simp at found
  | cons g below ih =>
    simp only [frameAt] at found
    split at found
    · simp_all
    · have := ih found
      simp only [List.length_cons]
      omega

/-- Every height inside the stack carries a frame. -/
theorem exists_frameAt_of_lt {stack : List φ} {height : Nat} (inside : height < stack.length) :
    ∃ f, frameAt stack height = some f := by
  induction stack with
  | nil => simp at inside
  | cons g below ih =>
    by_cases top : height = below.length
    · exact ⟨g, by simp [frameAt, top]⟩
    · obtain ⟨f, found⟩ := ih (by simp only [List.length_cons] at inside; omega)
      exact ⟨f, by simp only [frameAt, if_neg top, found]⟩

/-- Calling and returning leave every lower frame in place. -/
theorem frameAt_cons_of_lt {f : φ} {below : List φ} {height : Nat} (lower : height < below.length) :
    frameAt (f :: below) height = frameAt below height := by
  simp [frameAt, Nat.ne_of_lt lower]

/-- A frame of a stack is the top one or a frame of the rest. -/
theorem frameAt_cons {f g : φ} {below : List φ} {height : Nat}
    (found : frameAt (f :: below) height = some g) :
    (height = below.length ∧ g = f) ∨ (height < below.length ∧ frameAt below height = some g) := by
  simp only [frameAt] at found
  split at found
  · rename_i atTop
    exact .inl ⟨atTop, (Option.some.inj found).symm⟩
  · exact .inr ⟨frameAt_lt found, found⟩

/-- Nothing stands above a stack. -/
theorem frameAt_high_nil {below : List φ} {height : Nat} {g : φ} (high : below.length ≤ height) :
    frameAt below height ≠ some g :=
  fun found => absurd (frameAt_lt found) (by omega)

/-- One call above a stack is the frame on top. -/
theorem frameAt_high_one {f g : φ} {below : List φ} {height : Nat} (high : below.length ≤ height)
    (found : frameAt (f :: below) height = some g) : height = below.length ∧ g = f := by
  rcases frameAt_cons found with same | ⟨_, lower⟩
  · exact same
  · exact absurd lower (frameAt_high_nil high)

/-- Two calls above a stack are the frame on top and its caller. -/
theorem frameAt_high_two {f g k : φ} {below : List φ} {height : Nat} (high : below.length ≤ height)
    (found : frameAt (f :: g :: below) height = some k) :
    (height = below.length ∧ k = g) ∨ (height = below.length + 1 ∧ k = f) := by
  rcases frameAt_cons found with ⟨atTop, same⟩ | ⟨_, lower⟩
  · exact .inr ⟨by simpa using atTop, same⟩
  · exact .inl (frameAt_high_one high lower)

/-- A frame that stands anywhere in a stack has a height. -/
theorem exists_frameAt {stack : List φ} {f : φ} (member : f ∈ stack) :
    ∃ height, frameAt stack height = some f := by
  induction stack with
  | nil => simp at member
  | cons g below ih =>
    rcases List.mem_cons.mp member with same | lower
    · exact ⟨below.length, by simp [same]⟩
    · obtain ⟨height, found⟩ := ih lower
      exact ⟨height, by rw [frameAt_cons_of_lt (frameAt_lt found), found]⟩

/-- A frame found at a height is a member of the stack. -/
theorem mem_of_frameAt {stack : List φ} {height : Nat} {f : φ}
    (found : frameAt stack height = some f) : f ∈ stack := by
  induction stack with
  | nil => simp at found
  | cons g below ih =>
    rcases frameAt_cons found with ⟨_, rfl⟩ | ⟨_, lower⟩
    · simp
    · exact List.mem_cons_of_mem _ (ih lower)

/-- Above a common part there are only the frames that were put on it. -/
theorem mem_of_frameAt_high {fs below : List φ} {height : Nat} {g : φ}
    (high : below.length ≤ height) (found : frameAt (fs ++ below) height = some g) : g ∈ fs := by
  induction fs with
  | nil => exact absurd found (frameAt_high_nil high)
  | cons f fs ih =>
    rcases frameAt_cons found with ⟨_, rfl⟩ | ⟨_, lower⟩
    · simp
    · exact List.mem_cons_of_mem _ (ih lower)

/-- Dropping frames from the top keeps exactly the lower ones. -/
theorem frameAt_of_suffix {rest stack : List φ} (suffix : rest <:+ stack) {height : Nat} {f : φ}
    (found : frameAt rest height = some f) : frameAt stack height = some f := by
  obtain ⟨dropped, rfl⟩ := suffix
  induction dropped with
  | nil => simpa using found
  | cons g dropped ih =>
    rw [List.cons_append, frameAt_cons_of_lt (frameAt_lt ih), ih]

end Seize
