import Mathlib.Data.List.Nodup

/-! Families of lists that share no node, as a heap holds them, and the ways they change. -/

namespace Seize

variable {π ν : Type} {good good' : ν → Prop} {lists lists' : π → List ν}

/-- Every place holds a list of distinct good nodes, and no node stands at two places. -/
structure DisjointLists (good : ν → Prop) (lists : π → List ν) : Prop where
  listed : ∀ place node, node ∈ lists place → good node
  nodup : ∀ place, (lists place).Nodup
  disjoint : ∀ place other node, node ∈ lists place → node ∈ lists other → place = other

namespace DisjointLists

/-- Lists may lose nodes, as long as what is left stays good. -/
theorem shrink (held : DisjointLists good lists)
    (smaller : ∀ place, (lists' place).Sublist (lists place))
    (still : ∀ place node, node ∈ lists' place → good' node) : DisjointLists good' lists' where
  listed := still
  nodup place := (held.nodup place).sublist (smaller place)
  disjoint place other node here there :=
    held.disjoint place other node ((smaller place).subset here) ((smaller other).subset there)

/-- A node that is nowhere yet may be put at the front of one list. -/
theorem push (held : DisjointLists good lists) (place : π) (node : ν)
    (absent : ∀ other, node ∉ lists other) (front : lists' place = node :: lists place)
    (others : ∀ other, other ≠ place → lists' other = lists other)
    (fresh : good' node) (still : ∀ other, good other → good' other) :
    DisjointLists good' lists' := by
  -- A node of the new family is the new one at its place, or an old one at its old place.
  have cases : ∀ other n, n ∈ lists' other → (other = place ∧ n = node) ∨ n ∈ lists other := by
    intro other n member
    by_cases same : other = place
    · subst same
      rw [front, List.mem_cons] at member
      exact member.imp_left fun eq => ⟨rfl, eq⟩
    · exact .inr (others other same ▸ member)
  refine ⟨?_, ?_, ?_⟩
  · intro other n member
    rcases cases other n member with ⟨_, rfl⟩ | old
    · exact fresh
    · exact still n (held.listed other n old)
  · intro other
    by_cases same : other = place
    · subst same
      rw [front]
      exact List.nodup_cons.mpr ⟨absent other, held.nodup other⟩
    · rw [others other same]
      exact held.nodup other
  · intro p q n here there
    rcases cases p n here with ⟨rfl, rfl⟩ | oldHere
    · rcases cases q n there with ⟨rfl, _⟩ | oldThere
      · rfl
      · exact absurd oldThere (absent q)
    · rcases cases q n there with ⟨rfl, rfl⟩ | oldThere
      · exact absurd oldHere (absent p)
      · exact held.disjoint p q n oldHere oldThere

/-- A whole list may move to a place that held none. -/
theorem move (held : DisjointLists good lists) (source target : π)
    (empty : lists' source = []) (moved : lists' target = lists source)
    (others : ∀ other, other ≠ source → other ≠ target → lists' other = lists other) :
    DisjointLists good lists' := by
  -- A node at the target came from the source, and every other node stayed where it was.
  have cases : ∀ other n, n ∈ lists' other →
      (other = target ∧ n ∈ lists source) ∨ (other ≠ target ∧ other ≠ source ∧ n ∈ lists other) := by
    intro other n member
    by_cases atTarget : other = target
    · exact .inl ⟨atTarget, by rw [← moved, ← atTarget]; exact member⟩
    · by_cases atSource : other = source
      · rw [atSource, empty] at member
        cases member
      · exact .inr ⟨atTarget, atSource, others other atSource atTarget ▸ member⟩
  refine ⟨?_, ?_, ?_⟩
  · intro other n member
    rcases cases other n member with ⟨_, old⟩ | ⟨_, _, old⟩
    · exact held.listed source n old
    · exact held.listed other n old
  · intro other
    by_cases atTarget : other = target
    · rw [atTarget, moved]
      exact held.nodup source
    · by_cases atSource : other = source
      · rw [atSource, empty]
        exact List.nodup_nil
      · rw [others other atSource atTarget]
        exact held.nodup other
  · intro p q n here there
    rcases cases p n here with ⟨rfl, oldHere⟩ | ⟨pTarget, pSource, oldHere⟩
    · rcases cases q n there with ⟨rfl, _⟩ | ⟨_, qSource, oldThere⟩
      · rfl
      · exact absurd (held.disjoint source q n oldHere oldThere).symm qSource
    · rcases cases q n there with ⟨rfl, oldThere⟩ | ⟨_, _, oldThere⟩
      · exact absurd (held.disjoint p source n oldHere oldThere) pSource
      · exact held.disjoint p q n oldHere oldThere

end DisjointLists

end Seize
