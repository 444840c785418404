import Seize.Raw.Objects

/-!
Bookkeeping of retirements.

A set of live objects, wherever they are kept, and a log of events agree about which retirements
wait for their reclaimer and which have been handed to it.
-/

namespace Seize.Raw

/-- The retirement whose reclaimer an event records. -/
def Event.invokes : Event → Option Nat
  | .reclaimed rid _ _ _ => some rid
  | _ => none

/-- An invocation belongs to a retirement. -/
theorem Event.rid_of_invokes {event : Event} {rid : Nat} (is : event.invokes = some rid) :
    event.rid = some rid := by
  cases event with
  | reclaimed rid' p f scanned => exact is
  | _ => cases is

variable {π : Type} {live live' : π → Object → Prop} {log : List Event} {next : Nat}

/-- The books of the live objects and of the log agree. -/
structure Books (live : π → Object → Prop) (log : List Event) (next : Nat) : Prop where
  bounded : ∀ event ∈ log, ∀ rid, event.rid = some rid → rid < next
  single : ∀ e object object', live e object → live e object' → object = object'
  stored : ∀ e object, live e object → .retired object.rid object.ptr object.reclaim ∈ log
  invoked : ∀ rid p f scanned, .reclaimed rid p f scanned ∈ log → .retired rid p f ∈ log
  placed : ∀ e e' object object', live e object → live e' object' → object.rid = object'.rid → e = e'
  waiting : ∀ e object p f scanned, live e object → .reclaimed object.rid p f scanned ∉ log
  once : log.Pairwise fun new old => ∀ rid, new.invokes = some rid → old.invokes ≠ some rid
  kept : ∀ rid p f, .retired rid p f ∈ log →
    (∃ e, live e ⟨rid, p, f⟩) ∨ ∃ scanned, .reclaimed rid p f scanned ∈ log
  unique : ∀ rid p f p' f', .retired rid p f ∈ log → .retired rid p' f' ∈ log → p = p' ∧ f = f'
  refused : ∀ rid p f, .refused rid ∈ log → .retired rid p f ∉ log

namespace Books

/-- Nothing has been retired. -/
theorem init (none_ : ∀ e object, ¬ live e object) : Books live [] 0 where
  bounded := by simp
  single e object _ found _ := absurd found (none_ e object)
  stored e object found := absurd found (none_ e object)
  invoked := by simp
  placed e _ object _ found _ _ := absurd found (none_ e object)
  waiting := by simp
  once := .nil
  kept := by simp
  unique := by simp
  refused := by simp

/-- Only what is live matters, not how it is described. -/
theorem congr (books : Books live log next) (same : ∀ e object, live' e object ↔ live e object) :
    Books live' log next := by
  have : live' = live := by
    funext e object
    exact propext (same e object)
  rw [this]
  exact books

/-- Retirement numbers that have not been handed out are nowhere in the log. -/
theorem fresh (books : Books live log next) {event : Event} (member : event ∈ log) :
    event.rid ≠ some next :=
  fun is => Nat.lt_irrefl _ (books.bounded event member _ is)

/-- Nor are they the numbers of live objects. -/
theorem fresh_live (books : Books live log next) {e : π} {object : Object} (found : live e object) :
    object.rid ≠ next := by
  intro same
  exact books.fresh (books.stored e object found) (congrArg some same)

/-- One more event concerns numbers up to the next one only. -/
theorem bounded_cons {event : Event} {next' : Nat} (books : Books live log next)
    (new : ∀ rid, event.rid = some rid → rid < next') (larger : next ≤ next') :
    ∀ event' ∈ event :: log, ∀ rid, event'.rid = some rid → rid < next' := by
  intro event' member rid is
  rcases List.mem_cons.mp member with rfl | old
  · exact new rid is
  · exact Nat.lt_of_lt_of_le (books.bounded event' old rid is) larger

/-- An event that invokes nothing. -/
theorem once_cons {event : Event} (books : Books live log next) (silent : event.invokes = none) :
    (event :: log).Pairwise fun new old => ∀ rid, new.invokes = some rid → old.invokes ≠ some rid := by
  refine List.pairwise_cons.mpr ⟨fun _ _ rid is => ?_, books.once⟩
  rw [silent] at is
  cases is

/-- An event that concerns no retirement changes nothing. -/
theorem silent_cons {event : Event} (books : Books live log next) (silent : event.rid = none) :
    Books live (event :: log) next := by
  -- What the books speak of is something else.
  have old : ∀ {event' : Event}, event'.rid ≠ none → (event' ∈ event :: log ↔ event' ∈ log) := by
    intro event' named
    rw [List.mem_cons, or_iff_right]
    rintro rfl
    exact named silent
  have retired : ∀ {rid p f}, .retired rid p f ∈ event :: log ↔ .retired rid p f ∈ log :=
    old (by simp [Event.rid])
  have reclaimed : ∀ {rid p f scanned}, .reclaimed rid p f scanned ∈ event :: log ↔
      .reclaimed rid p f scanned ∈ log := old (by simp [Event.rid])
  have refused : ∀ {rid}, .refused rid ∈ event :: log ↔ .refused rid ∈ log :=
    old (by simp [Event.rid])
  refine ⟨?_, books.single, ?_, ?_, books.placed, ?_, ?_, ?_, ?_, ?_⟩
  · exact books.bounded_cons (by simp [silent]) (Nat.le_refl _)
  · simpa only [retired] using books.stored
  · simpa only [reclaimed, retired] using books.invoked
  · simpa only [reclaimed] using books.waiting
  · refine books.once_cons ?_
    cases invokes : event.invokes with
    | none => rfl
    | some rid =>
      rw [Event.rid_of_invokes invokes] at silent
      cases silent
  · simpa only [retired, reclaimed] using books.kept
  · simpa only [retired] using books.unique
  · simpa only [retired, refused] using books.refused

/-- Nor do several. -/
theorem silent_append (books : Books live log next) {new : List Event}
    (silent : ∀ event ∈ new, event.rid = none) : Books live (new ++ log) next := by
  induction new with
  | nil => exact books
  | cons event rest ih =>
    exact silent_cons (ih fun event' member => silent event' (List.mem_cons_of_mem _ member))
      (silent event List.mem_cons_self)

/-- A retirement that failed takes a number and nothing else. -/
theorem refuse (books : Books live log next) : Books live (.refused next :: log) (next + 1) := by
  -- A refusal uses up a number and is no retirement.
  have retired : ∀ {rid p f}, .retired rid p f ∈ Event.refused next :: log ↔
      .retired rid p f ∈ log := by simp
  have reclaimed : ∀ {rid p f scanned}, .reclaimed rid p f scanned ∈ Event.refused next :: log ↔
      .reclaimed rid p f scanned ∈ log := by simp
  refine ⟨?_, books.single, ?_, ?_, books.placed, ?_, books.once_cons rfl, ?_, ?_, ?_⟩
  · exact books.bounded_cons (by simp [Event.rid]) (Nat.le_succ _)
  · simpa only [retired] using books.stored
  · simpa only [reclaimed, retired] using books.invoked
  · simpa only [reclaimed] using books.waiting
  · simpa only [retired, reclaimed] using books.kept
  · simpa only [retired] using books.unique
  · intro rid p f member
    rw [retired]
    rcases List.mem_cons.mp member with new | old
    · cases new
      exact fun taken => books.fresh taken rfl
    · exact books.refused rid p f old

/-- A retirement puts its object into a place that held none. -/
theorem push (books : Books live log next) {e : π} {p : Ptr} {f : Reclaim}
    (empty : ∀ object, ¬ live e object)
    (change : ∀ e' object, live' e' object ↔ live e' object ∨ (e' = e ∧ object = ⟨next, p, f⟩)) :
    Books live' (.retired next p f :: log) (next + 1) := by
  have reclaimed : ∀ {rid p' f' scanned}, .reclaimed rid p' f' scanned ∈ Event.retired next p f :: log ↔
      .reclaimed rid p' f' scanned ∈ log := by simp
  have retired : ∀ {rid p' f'}, .retired rid p' f' ∈ Event.retired next p f :: log ↔
      (rid = next ∧ p' = p ∧ f' = f) ∨ .retired rid p' f' ∈ log := by simp
  refine ⟨?_, ?_, ?_, ?_, ?_, ?_, books.once_cons rfl, ?_, ?_, ?_⟩
  · exact books.bounded_cons (by simp [Event.rid]) (Nat.le_succ _)
  · intro e' object object' first second
    rcases (change _ _).mp first with old | ⟨rfl, rfl⟩
    · rcases (change _ _).mp second with old' | ⟨rfl, rfl⟩
      · exact books.single e' object object' old old'
      · exact absurd old (empty object)
    · rcases (change _ _).mp second with old' | ⟨_, rfl⟩
      · exact absurd old' (empty object')
      · rfl
  · intro e' object now
    rw [retired]
    rcases (change e' object).mp now with before | ⟨_, rfl⟩
    · exact .inr (books.stored e' object before)
    · exact .inl ⟨rfl, rfl, rfl⟩
  · intro rid p' f' scanned member
    exact retired.mpr (.inr (books.invoked rid p' f' scanned (reclaimed.mp member)))
  · -- The new number is not the number of a live object.
    intro e₁ e₂ object₁ object₂ first second same
    rcases (change _ _).mp first with old₁ | ⟨rfl, rfl⟩
    · rcases (change _ _).mp second with old₂ | ⟨rfl, rfl⟩
      · exact books.placed e₁ e₂ object₁ object₂ old₁ old₂ same
      · exact absurd same (books.fresh_live old₁)
    · rcases (change _ _).mp second with old₂ | ⟨rfl, rfl⟩
      · exact absurd same.symm (books.fresh_live old₂)
      · rfl
  · intro e' object p' f' scanned now
    rw [reclaimed]
    rcases (change _ _).mp now with old | ⟨_, rfl⟩
    · exact books.waiting e' object p' f' scanned old
    · exact fun member => books.fresh member rfl
  · intro rid p' f' member
    simp only [reclaimed]
    rcases retired.mp member with ⟨rfl, rfl, rfl⟩ | old
    · exact .inl ⟨e, (change _ _).mpr (.inr ⟨rfl, rfl⟩)⟩
    · rcases books.kept rid p' f' old with ⟨e', was⟩ | ran
      · exact .inl ⟨e', (change _ _).mpr (.inl was)⟩
      · exact .inr ran
  · intro rid p₁ f₁ p₂ f₂ first second
    rcases retired.mp first with ⟨rfl, rfl, rfl⟩ | old₁
    · rcases retired.mp second with ⟨_, rfl, rfl⟩ | old₂
      · exact ⟨rfl, rfl⟩
      · exact absurd rfl (books.fresh old₂)
    · rcases retired.mp second with ⟨rfl, rfl, rfl⟩ | old₂
      · exact absurd rfl (books.fresh old₁)
      · exact books.unique rid p₁ f₁ p₂ f₂ old₁ old₂
  · intro rid p' f' member taken
    have earlier : .refused rid ∈ log := by simpa using member
    rcases retired.mp taken with ⟨rfl, _, _⟩ | old
    · exact absurd rfl (books.fresh earlier)
    · exact books.refused rid p' f' earlier old

/-- Invoking the reclaimer of a live object ends its life. -/
theorem invoke (books : Books live log next) {e : π} {object : Object} {scanned : Option Nat}
    (was : live e object) (change : ∀ e' object', live' e' object' ↔ live e' object' ∧ e' ≠ e) :
    Books live' (.reclaimed object.rid object.ptr object.reclaim scanned :: log) next := by
  have known := books.stored e object was
  have retired : ∀ {rid p f}, .retired rid p f ∈
      Event.reclaimed object.rid object.ptr object.reclaim scanned :: log ↔
        .retired rid p f ∈ log := by simp
  refine ⟨?_, ?_, ?_, ?_, ?_, ?_, ?_, ?_, ?_, ?_⟩
  · exact books.bounded_cons (fun rid is => books.bounded _ known rid is) (Nat.le_refl _)
  · intro e' object₁ object₂ first second
    exact books.single e' object₁ object₂ ((change _ _).mp first).1 ((change _ _).mp second).1
  · intro e' object' now
    exact retired.mpr (books.stored e' object' ((change _ _).mp now).1)
  · intro rid p f scanned' member
    rw [retired]
    rcases List.mem_cons.mp member with new | old
    · cases new
      exact known
    · exact books.invoked rid p f scanned' old
  · intro e₁ e₂ object₁ object₂ first second same
    exact books.placed e₁ e₂ object₁ object₂ ((change _ _).mp first).1 ((change _ _).mp second).1 same
  · intro e' object' p f scanned' now member
    obtain ⟨before, other⟩ := (change _ _).mp now
    rcases List.mem_cons.mp member with new | old
    · -- Another live object has another number.
      injection new with same
      exact other (books.placed e' e object' object before was same)
    · exact books.waiting e' object' p f scanned' before old
  · refine List.pairwise_cons.mpr ⟨fun old member rid is again => ?_, books.once⟩
    cases is
    cases old with
    | reclaimed rid p f scanned' =>
      injection again with same
      subst same
      exact books.waiting e object p f scanned' was member
    | _ => cases again
  · intro rid p f member
    rcases books.kept rid p f (retired.mp member) with ⟨e', before⟩ | ⟨scanned', old⟩
    · by_cases here : e' = e
      · subst here
        cases books.single _ _ _ before was
        exact .inr ⟨scanned, List.mem_cons_self⟩
      · exact .inl ⟨e', (change _ _).mpr ⟨before, here⟩⟩
    · exact .inr ⟨scanned', List.mem_cons_of_mem _ old⟩
  · simpa only [retired] using books.unique
  · intro rid p f member
    rw [retired]
    exact books.refused rid p f (by simpa using member)

/-- A retirement whose reclaimer runs at once is never live. -/
theorem immediate (books : Books live log next) {e : π} {p : Ptr} {f : Reclaim}
    (empty : ∀ object, ¬ live e object) :
    Books live (.reclaimed next p f none :: .retired next p f :: log) (next + 1) := by
  -- Put it into a place that holds nothing, and invoke it there.
  have pushed : Books (fun e' object => live e' object ∨ (e' = e ∧ object = ⟨next, p, f⟩))
      (.retired next p f :: log) (next + 1) := books.push empty fun _ _ => .rfl
  refine pushed.invoke (.inr ⟨rfl, rfl⟩) fun e' object => ?_
  by_cases here : e' = e
  · subst here
    simp [empty]
  · simp [here]

end Books

end Seize.Raw
