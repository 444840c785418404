import Seize.Raw.Conserve
import Seize.Raw.Protect
import Seize.Raw.Reserve
import Seize.Raw.Defined

/-!
What a data structure sees of the steps of its collector.

Its cells and the pointers its threads protect change only at its own accesses, retirements are its
own, and a step calls at most one reclaimer.
-/

namespace Seize.Raw

variable {cfg : Config} {st st' : State} {t : Tid} {s v : SlotId} {action : Action}

/-- A careful user whose reclaimers do not panic. -/
def Client (cfg : Config) (st : State) (move : Tid × Action) : Prop :=
  Careful cfg st move ∧ move.2 ≠ .panic

/-- Both groups of invariants hold in the runs of such a user. -/
theorem reachable_client (run : Reachable (Raw.step cfg) (Client cfg) State.init st) :
    Guarded cfg st ∧ Audited cfg st := by
  refine ⟨reachable_guarded (run.mono fun _ _ _ permitted => permitted.1), ?_⟩
  refine reachable_audited (run.mono fun _ _ _ permitted => ?_)
  exact ⟨permitted.1.1.1.1, permitted.2, fun called => absurd called permitted.1.1.2⟩

/-- The slot whose activity an action begins or ends, or for which it loads a pointer. -/
def Action.touches : Action → Option SlotId
  | .enter s => some s
  | .leave s => some s
  | .refresh s => some s
  | .access s _ _ => some s
  | _ => none

/-- A slot that an action does not touch stays active or inactive, and protects what it did. -/
theorem Move.slot_kept (moved : Move cfg st t action st') (other : action.touches ≠ some v) :
    st'.protect v = st.protect v ∧ (st'.Active v ↔ st.Active v) := by
  have same : ∀ {st₂ : State}, st₂.protect = st.protect → st₂.head = st.head →
      st₂.protect v = st.protect v ∧ (st₂.Active v ↔ st.Active v) := by
    intro st₂ protect head
    simp only [State.Active, protect, head, and_self]
  -- The periods of other slots begin and end here.
  have elsewhere : ∀ {s : SlotId} {head : Head} {st₂ : State}, some s ≠ some v →
      st₂.protect = Function.update st.protect s [] → st₂.head = Function.update st.head s head →
      st₂.protect v = st.protect v ∧ (st₂.Active v ↔ st.Active v) := by
    intro s head st₂ differs protect heads
    have apart : v ≠ s := fun eq => differs (by rw [eq])
    simp only [State.Active, protect, heads, Function.update_of_ne apart, and_self]
  -- Apart from these, only the linking of an entry writes a head.
  cases moved with
  | enter => exact elsewhere other rfl rfl
  | leaveIdle => exact elsewhere other rfl rfl
  | leave => exact elsewhere other rfl rfl
  | refreshIdle => exact elsewhere other rfl rfl
  | refresh => exact elsewhere other rfl rfl
  | @access s x op =>
    have apart : v ≠ s := fun eq => other (by rw [eq]; rfl)
    exact ⟨Function.update_of_ne apart _ _, .rfl⟩
  | refused _ prep => exact same prep.same.2.2.2.2.2.1 prep.same.2.1
  | immediate _ prep => exact same prep.same.2.2.2.2.2.1 prep.same.2.1
  | pushed _ prep => exact same prep.same.2.2.2.2.2.1 prep.same.2.1
  | filled _ prep => exact same prep.same.2.2.2.2.2.1 prep.same.2.1
  | reserve _ prep => exact same prep.same.2.2.2.2.2.1 prep.same.2.1
  | @publish b marked i active s prev below batch spurious top stored more active_ =>
    refine ⟨rfl, ?_⟩
    by_cases here : v = s
    · -- An entry is linked to an active slot, which stays active.
      subst here
      simp [State.Active, State.setStack, State.setBatch, active_]
    · simp [State.Active, State.setStack, State.setBatch, Function.update_of_ne here]
  | known | create | flushNone | flush | reclaimAll | ret | panic | skipScan | skipReclaim | commit
  | pass | mark | abort | addFree | addShare | load | gone | retry | done | releaseFree
  | releaseCount | invoke | dealloc | finish | next | take | takeWrong | reset => exact same rfl rfl

/-- The reclaimer of an object has been called. -/
def Reclaimed (st : State) (p : Ptr) : Prop :=
  ∃ rid f scanned, Event.reclaimed rid p f scanned ∈ st.log

/-- A log that grows without a call of a reclaimer. -/
theorem reclaimed_quiet (new : List Event) (log : st'.log = new ++ st.log)
    (silent : ∀ event ∈ new, event.invokes = none) (p : Ptr) :
    Reclaimed st' p ↔ Reclaimed st p := by
  simp only [Reclaimed, log, List.mem_append]
  constructor
  · rintro ⟨rid, f, scanned, added | old⟩
    · cases silent _ added
    · exact ⟨rid, f, scanned, old⟩
  · rintro ⟨rid, f, scanned, old⟩
    exact ⟨rid, f, scanned, .inr old⟩

/-- A log that grows by a call of a reclaimer. -/
theorem reclaimed_call {rid : Nat} {p : Ptr} {f : Reclaim} {scanned : Option Nat}
    (log : st'.log = .reclaimed rid p f scanned :: st.log) (q : Ptr) :
    Reclaimed st' q ↔ Reclaimed st q ∨ q = p := by
  simp only [Reclaimed, log, List.mem_cons, Event.reclaimed.injEq]
  constructor
  · rintro ⟨rid', f', scanned', ⟨_, same, _⟩ | old⟩
    · exact .inr same
    · exact .inl ⟨rid', f', scanned', old⟩
  · rintro (⟨rid', f', scanned', old⟩ | rfl)
    · exact ⟨rid', f', scanned', .inr old⟩
    · exact ⟨rid, f, scanned, .inl ⟨rfl, rfl, rfl, rfl⟩⟩

/-- What a step records of retirements and of calls of reclaimers. -/
inductive Recorded (st st' : State) : Action → Prop where
  | nothing {action : Action} (new : List Event) (log : st'.log = new ++ st.log)
      (silent : ∀ event ∈ new, event.rid = none) : Recorded st st' action
  | refused {s : SlotId} {p : Ptr} {f : Reclaim} {c : Alloc}
      (log : st'.log = .refused st.nextRid :: st.log) : Recorded st st' (.add s p f c)
  | retired {s : SlotId} {p : Ptr} {f : Reclaim} {c : Alloc}
      (log : st'.log = .retired st.nextRid p f :: st.log) : Recorded st st' (.add s p f c)
  | reclaimed {rid : Nat} {p : Ptr} {f : Reclaim} {scanned : Option Nat} {spurious : Bool}
      (log : st'.log = .reclaimed rid p f scanned :: st.log)
      (known : .retired rid p f ∈ st.log)
      (first : ∀ f' scanned', .reclaimed rid p f' scanned' ∉ st.log) :
      Recorded st st' (.advance spurious)

/-- Every step records one of these. -/
theorem Move.recorded (moved : Move cfg st t action st') (guarded : Guarded cfg st)
    (audited : Audited cfg st) : Recorded st (tick st') action := by
  -- Without `reclaim_all` there is no sentinel, so a retirement is refused or put in a batch.
  cases moved.change with
  | plain new log silent => exact .nothing new log silent
  | refused log => exact .refused log
  | pushed log => exact .retired log
  | immediate _ _ held => exact absurd held (guarded.grace.clear _)
  | dealloc _ _ _ _ log => exact .nothing [] log (by simp)
  | @invoke e below batch object spurious top stored found log =>
    -- The object was live until now, so its reclaimer was not called before.
    have unpassed : ¬ Reached st e := by
      rw [audited.sound.inv.reached (State.frame_top top)]
      exact Nat.lt_irrefl _
    have live : Live st e object := ⟨found, unpassed⟩
    have books : Books (Live st) st.log st.nextRid := audited.conserved
    exact .reclaimed log (books.stored e object live)
      fun f' scanned' => books.waiting e object object.ptr f' scanned' live

namespace Recorded

variable {rid : Nat} {p : Ptr} {f : Reclaim}

/-- A retirement is recorded before, or it is the one that is made. -/
theorem retired_iff (recorded : Recorded st st' action)
    (other : ∀ s p f c, action ≠ .add s p f c) :
    .retired rid p f ∈ st'.log ↔ .retired rid p f ∈ st.log := by
  cases recorded with
  | nothing new log silent =>
    rw [log, List.mem_append, or_iff_right]
    intro member
    cases silent _ member
  | refused => exact absurd rfl (other _ _ _ _)
  | retired => exact absurd rfl (other _ _ _ _)
  | reclaimed log => simp [log]

/-- At most one reclaimer is called, and never twice for the same retirement. -/
theorem calls (recorded : Recorded st st' action) :
    (∃ new, st'.log = new ++ st.log ∧ ∀ event ∈ new, event.invokes = none) ∨
      ∃ rid p f scanned, st'.log = .reclaimed rid p f scanned :: st.log ∧
        .retired rid p f ∈ st.log ∧ ∀ f' scanned', .reclaimed rid p f' scanned' ∉ st.log := by
  cases recorded with
  | nothing new log silent =>
    refine .inl ⟨new, log, fun event member => ?_⟩
    cases event with
    | reclaimed => cases silent _ member
    | _ => rfl
  | refused log => exact .inl ⟨[_], log, by simp [Event.invokes]⟩
  | retired log => exact .inl ⟨[_], log, by simp [Event.invokes]⟩
  | reclaimed log known first => exact .inr ⟨_, _, _, _, log, known, first⟩

end Recorded

/-- A retirement is refused or accepted, and no reclaimer runs at once without `reclaim_all`. -/
theorem Move.add_log {p : Ptr} {f : Reclaim} {c : Alloc} (moved : Move cfg st t (.add s p f c) st')
    (clear : ∀ s, st.batch s ≠ .drop) :
    st'.log = .refused st.nextRid :: st.log ∨ st'.log = .retired st.nextRid p f :: st.log := by
  have logs : ∀ {st₁ : State}, Prep cfg s { st with nextRid := st.nextRid + 1 } st₁ →
      st₁.log = st.log := fun prep => prep.same.2.2.2.2.2.2.2.1
  cases moved with
  | refused _ prep => exact .inl (congrArg _ (logs prep))
  | immediate _ prep held => exact absurd ((prep.drops s).mp held) (clear s)
  | pushed _ prep => exact .inr (congrArg _ (logs prep))
  | filled _ prep => exact .inr (congrArg _ (logs prep))

/-- A retirement on a slot with room is not refused. -/
theorem Roomy.accepts {p : Ptr} {f : Reclaim} {c : Alloc} (roomy : Roomy st s)
    (user : userLevel (st.stack t) = true) (ran : step cfg st (t, .add s p f c) = .ok st') :
    st'.log ≠ .refused st.nextRid :: st.log := by
  have sure : Infallible cfg st t s p f := roomy.infallible user p f
  obtain ⟨after, same, ⟨newer, log⟩, _⟩ := sure
  cases ran.symm.trans (same c)
  intro refused
  rw [log] at refused
  -- The log has grown by the retirement, so by nothing else.
  have lengths := congrArg List.length refused
  simp only [List.length_append, List.length_cons] at lengths
  have none_ : newer = [] := List.eq_nil_of_length_eq_zero (by omega)
  simp [none_] at refused

/-- A scan belongs to the slot of its thread, where every thread retires on its own slot only. -/
theorem Move.scans_own {t' : Tid} (moved : Move cfg st t action st')
    (own : ∀ t', ∀ f ∈ st.stack t', ∀ s, f.scanSlot = some s → s = t')
    (mine : ∀ s, action.scans = some s → s = t) :
    ∀ f ∈ st'.stack t', ∀ s, f.scanSlot = some s → s = t' := by
  intro f member s is
  rcases moved.scanSlot member is with ⟨g, old, same⟩ | begins
  · exact own t' g old s same
  · by_cases here : t' = t
    · exact (mine s begins).trans here.symm
    · rw [moved.stack_other here] at member
      exact own t' f member s is

/-- Then no other thread uses the local batch of a slot. -/
theorem Guarded.unique_own (guarded : Guarded cfg st)
    (own : ∀ t', ∀ f ∈ st.stack t', ∀ s, f.scanSlot = some s → s = t') : UniqueAccess st t t := by
  intro t' other f member
  -- Scans are on the slots of their threads, and no `reclaim_all` is in progress.
  obtain ⟨height, found⟩ := exists_frameAt member
  have outside := guarded.grace.outside t' height f found
  cases f with
  | scan s b start cursor marked =>
    have is : s = t' := own t' _ member s rfl
    rw [Frame.usesBatch, is]
    exact decide_eq_false other
  | reclaimAll => cases outside
  | reclaimReset => cases outside
  | _ => rfl

end Seize.Raw
