import Mathlib.Data.List.Basic

/-! Counting the elements of a list when one of them changes. -/

namespace Seize

variable {α : Type}

/-- Changing one element moves a count by the difference that element makes. -/
theorem countP_modify (p : α → Bool) (f : α → α) :
    ∀ {l : List α} {i : Nat} {a : α}, l[i]? = some a →
      (l.modify i f).countP p + (if p a then 1 else 0) =
        l.countP p + (if p (f a) then 1 else 0) := by
  intro l
  induction l with
  | nil => intro i a found; simp at found
  | cons x rest ih =>
    intro i a found
    cases i with
    | zero =>
      -- The changed element is the first, and the rest counts the same on both sides.
      simp only [List.getElem?_cons_zero, Option.some.injEq] at found
      subst found
      simp only [List.modify_zero_cons, List.countP_cons]
      omega
    | succ i =>
      have tail := ih (i := i) (a := a) (by simpa using found)
      simp only [List.modify_succ_cons, List.countP_cons]
      omega

end Seize
