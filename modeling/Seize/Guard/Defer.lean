import Seize.Guard.Lawful
import Seize.Raw.Defer

/-!
Deferred retirement through a guard.

While a guard is neither dropped nor refreshed, its slot stays in one activity period, whatever other
guards and threads do.
-/

namespace Seize.Guards

open Seize.Raw (Config SlotId Tid Ptr Reclaim Alloc Cell CellOp Stop Event)
open Seize.Tls (Usage)

variable {cfg : Config} {st st' : State} {t t' : Tid} {s : SlotId} {g g' : Guard}
  {action : Action} {calls : List Raw.Action} {next : State} {raw raw' : Raw.State}

/-- A lawful program that goes on with `reclaim_all` only while no slot is active. -/
def Considerate (cfg : Config) (st : State) (move : Tid × Action) : Prop :=
  Lawful cfg st move ∧ ∀ cursor below, st.raw.stack move.1 = .reclaimAll cursor :: below →
    ∀ spurious, move.2 = .advance spurious → ∀ v, ¬ st.raw.Active v

/-- Such a program, while it neither drops nor refreshes a guard. -/
def Retains (cfg : Config) (g : Guard) (st : State) (move : Tid × Action) : Prop :=
  Considerate cfg st move ∧ move.2 ≠ .drop g ∧ move.2 ≠ .refresh g

/-- Two guards share a slot only if both are local, and both are counted. -/
theorem Counted.sharing (counted : Counted st) (owners : Owners st) (activity : Activity st)
    (member : g ∈ st.live ++ st.leaked) (member' : g' ∈ st.live) (differ : g ≠ g')
    (same : g'.slot = g.slot) : g'.isLocal = true ∧ 2 ≤ st.guards g.slot := by
  have count := counted g.slot
  cases kind' : g'.kind with
  | owned =>
    -- An owned guard is alone on its slot.
    exfalso
    cases kind : g.kind with
    | owned =>
      refine owners.only member' kind' ⟨g, ?_, kind, same.symm⟩
      rcases List.mem_append.mp member with live | leaked
      · exact List.mem_append_left _ ((List.mem_erase_of_ne differ).mpr live)
      · exact List.mem_append_right _ leaked
    | localTo t =>
      have zero := activity.solo g.slot ⟨g', List.mem_append_left _ member', kind', same⟩
      have mine : g.isLocalOn g.slot = true := by simp [Guard.isLocalOn_of_kind kind]
      rcases List.mem_append.mp member with live | leaked
      · have positive : 0 < localsOn g.slot st.live := List.countP_pos_iff.mpr ⟨g, live, mine⟩
        omega
      · have positive : 0 < localsOn g.slot st.leaked := List.countP_pos_iff.mpr ⟨g, leaked, mine⟩
        omega
  | localTo t' =>
    have theirs : g'.isLocalOn g.slot = true := by simp [Guard.isLocalOn_of_kind kind', same]
    have erased := localsOn_erase (s := g.slot) member'
    rw [if_pos theirs] at erased
    cases kind : g.kind with
    | owned =>
      have zero := activity.solo g.slot ⟨g, member, kind, rfl⟩
      omega
    | localTo t =>
      have mine : g.isLocalOn g.slot = true := by simp [Guard.isLocalOn_of_kind kind]
      refine ⟨by simp [Guard.isLocal, kind'], ?_⟩
      rcases List.mem_append.mp member with live | leaked
      · have still := (List.mem_erase_of_ne differ).mpr live
        have positive : 0 < localsOn g.slot (st.live.erase g') :=
          List.countP_pos_iff.mpr ⟨g, still, mine⟩
        omega
      · have positive : 0 < localsOn g.slot st.leaked := List.countP_pos_iff.mpr ⟨g, leaked, mine⟩
        omega

/-- A call that neither begins nor ends an activity period of a slot. -/
def spares (s : SlotId) (call : Raw.Action) : Prop :=
  call ≠ .enter s ∧ call ≠ .leave s ∧ call ≠ .refresh s

/-- A call on a batch spares every slot. -/
theorem spares_onBatch {call : Raw.Action} (is : action.onBatch = some (g, call)) :
    spares s call := by
  cases action with
  | deferRetire | reserveRetire | flush =>
    cases is
    exact ⟨by simp, by simp, by simp⟩
  | _ => cases is

/-- So does one on the batch of the current thread. -/
theorem spares_onThread {v : SlotId} {call : Raw.Action} (is : action.onThread v = some call) :
    spares s call := by
  cases action with
  | retire | reserve =>
    cases is
    exact ⟨by simp, by simp, by simp⟩
  | _ => cases is

/-- And a step inside a call. -/
theorem spares_inner {call : Raw.Action} (is : action.inner = some call) : spares s call := by
  cases action with
  | ret | panic | advance | skip =>
    cases is
    exact ⟨by simp, by simp, by simp⟩
  | _ => cases is

/-- While a guard is there, nothing is done to its slot except through the guard. -/
theorem Planned.spares (planned : Planned cfg st t action calls next) (counted : Counted st)
    (owners : Owners st) (activity : Activity st) (fresh : OwnedFresh cfg st (t, action))
    (member : g ∈ st.live ++ st.leaked) (drop : action ≠ .drop g) (refresh : action ≠ .refresh g) :
    ∀ call ∈ calls, spares g.slot call := by
  -- The slot has a guard.
  have occupied : 0 < st.guards g.slot ∨ st.Owned g.slot := by
    cases kind : g.kind with
    | owned => exact .inr ⟨g, member, kind, rfl⟩
    | localTo t' =>
      left
      have mine : g.isLocalOn g.slot = true := by simp [Guard.isLocalOn_of_kind kind]
      have positive : 0 < localsOn g.slot (st.live ++ st.leaked) :=
        List.countP_pos_iff.mpr ⟨g, member, mine⟩
      rw [localsOn, List.countP_append] at positive
      rw [counted g.slot]
      exact positive
  -- A call for another guard of the slot is made for its only one, and there are two.
  have other : ∀ {g' : Guard}, g' ∈ st.live → g ≠ g' → g'.slot = g.slot →
      (g'.isLocal = true → st.guards g'.slot = 1) → False := by
    intro g' member' differ same one
    obtain ⟨isLocal, two⟩ := counted.sharing owners activity member member' differ same
    have := one isLocal
    rw [same] at this
    omega
  have create : ∀ s, Guards.spares g.slot (.create s) := fun s => ⟨by simp, by simp, by simp⟩
  intro call made
  cases planned with
  | nothing | current | refusedLocal | refusedOwned | finish | forget | exit => cases made
  | @enterLocal alloc s mine =>
    split at made
    · rename_i first
      rcases List.mem_cons.mp made with rfl | later
      · exact create s
      · cases List.mem_singleton.mp later
        refine ⟨?_, by simp, by simp⟩
        rintro ⟨⟩
        rcases occupied with counted | owned
        · omega
        · exact owners.thread_unowned mine owned
    · cases List.mem_singleton.mp made
      exact create s
  | @enterOwned alloc reserved s ids created room =>
    rcases List.mem_cons.mp made with rfl | later
    · exact create s
    · cases List.mem_singleton.mp later
      refine ⟨?_, by simp, by simp⟩
      rintro ⟨⟩
      rcases occupied with counted | owned
      · have := fresh alloc reserved _ ids rfl created room
        omega
      · exact owners.fresh_unowned created owned
  | @refreshLocal g' member' kind =>
    split at made
    · rename_i one
      cases List.mem_singleton.mp made
      refine ⟨by simp, by simp, ?_⟩
      intro is
      injection is with same
      refine other member' ?_ same fun _ => one
      rintro rfl
      exact refresh rfl
    · cases made
  | @refreshOwned g' member' kind =>
    cases List.mem_singleton.mp made
    refine ⟨by simp, by simp, ?_⟩
    intro is
    injection is with same
    refine other member' ?_ same fun isLocal => ?_
    · rintro rfl
      exact refresh rfl
    · simp [Guard.isLocal, kind] at isLocal
  | @dropLocal g' member' kind =>
    split at made
    · rename_i one
      cases List.mem_singleton.mp made
      refine ⟨by simp, ?_, by simp⟩
      intro is
      injection is with same
      refine other member' ?_ same fun _ => one
      rintro rfl
      exact drop rfl
    · cases made
  | @dropOwned g' member' kind =>
    cases List.mem_singleton.mp made
    refine ⟨by simp, ?_, by simp⟩
    intro is
    injection is with same
    refine other member' ?_ same fun isLocal => ?_
    · rintro rfl
      exact drop rfl
    · simp [Guard.isLocal, kind] at isLocal
  | batchLocal is | batchOwned is =>
    cases List.mem_singleton.mp made
    exact spares_onBatch is
  | access | reclaimAll =>
    cases List.mem_singleton.mp made
    exact ⟨by simp, by simp, by simp⟩
  | thread is =>
    cases List.mem_singleton.mp made
    exact spares_onThread is
  | inner is =>
    cases List.mem_singleton.mp made
    exact spares_inner is

/-- The steps inside a call are raw steps of their own. -/
theorem Planned.advances (planned : Planned cfg st t action calls next) {spurious : Bool}
    (made : .advance spurious ∈ calls) : action = .advance spurious ∧ calls = [.advance spurious] := by
  obtain ⟨alone, is | ⟨_, is⟩⟩ := planned.sole made rfl
  · refine ⟨?_, alone⟩
    cases action with
    | advance =>
      cases is
      rfl
    | _ => cases is
  · cases is

/-- A guard that is neither dropped nor refreshed stays, and so does its slot's activity period. -/
theorem Planned.retained (planned : Planned cfg st t action calls next)
    (member : g ∈ st.live ++ st.leaked) (drop : action ≠ .drop g) :
    g ∈ next.live ++ next.leaked := by
  -- Another guard may go.
  have kept : ∀ {g' : Guard}, g ≠ g' → g ∈ st.live.erase g' ++ st.leaked := by
    intro g' differ
    rcases List.mem_append.mp member with live | leaked
    · exact List.mem_append_left _ ((List.mem_erase_of_ne differ).mpr live)
    · exact List.mem_append_right _ leaked
  cases planned with
  | enterLocal | enterOwned => exact List.mem_cons_of_mem _ member
  | @dropLocal g' | @dropOwned g' =>
    refine kept ?_
    rintro rfl
    exact drop rfl
  | @forget g' =>
    by_cases same : g = g'
    · subst same
      exact List.mem_append_right _ List.mem_cons_self
    · rcases List.mem_append.mp (kept same) with live | leaked
      · exact List.mem_append_left _ live
      · exact List.mem_append_right _ (List.mem_cons_of_mem _ leaked)
  | _ => exact member

/-- Calls that are no steps of a call in progress are steady when they spare the slot. -/
theorem Allowed.steady (allowed : Allowed cfg (Raw.Balanced cfg) t calls raw)
    (spared : ∀ call ∈ calls, spares s call) (outer : ∀ spurious, .advance spurious ∉ calls) :
    Allowed cfg (Raw.Steady cfg s) t calls raw := by
  induction calls generalizing raw with
  | nil => trivial
  | cons call rest ih =>
    obtain ⟨entered, left, refreshed⟩ := spared call List.mem_cons_self
    refine ⟨⟨allowed.1, entered, left, refreshed, ?_⟩, fun raw' ran => ?_⟩
    · intro cursor below _ spurious is
      refine absurd ?_ (outer spurious)
      rw [← is]
      exact List.mem_cons_self
    · exact ih (allowed.2 raw' ran) (fun call later => spared call (List.mem_cons_of_mem _ later))
        fun spurious later => outer spurious (List.mem_cons_of_mem _ later)

/-- The raw calls of a step leave the slot of a guard that stays in its activity period. -/
theorem Planned.steady (planned : Planned cfg st t action calls next) (counted : Counted st)
    (owners : Owners st) (activity : Activity st) (housed : Housed cfg st)
    (member : g ∈ st.live ++ st.leaked) (retains : Retains cfg g st (t, action)) :
    Allowed cfg (Raw.Steady cfg g.slot) t calls st.raw := by
  obtain ⟨⟨lawful, quiet⟩, drop, refresh⟩ := retains
  have allowed := planned.allowed owners activity housed lawful
  have spared := planned.spares counted owners activity lawful.fresh member drop refresh
  by_cases inner : ∃ spurious, .advance spurious ∈ calls
  · obtain ⟨spurious, made⟩ := inner
    obtain ⟨rfl, rfl⟩ := planned.advances made
    obtain ⟨entered, left, refreshed⟩ := spared _ List.mem_cons_self
    refine .one ⟨allowed.1, entered, left, refreshed, ?_⟩
    exact fun cursor below top _ _ => quiet cursor below top spurious rfl
  · exact allowed.steady spared fun spurious made => inner ⟨spurious, made⟩

/-- A program that retains a guard is lawful. -/
theorem retains_lawful {start : State} (run : Reachable (step cfg) (Retains cfg g) start st) :
    Reachable (step cfg) (Lawful cfg) start st :=
  run.mono fun _ _ _ retains => retains.1.1

/-- The run lemma: the raw collector leaves the slot of a retained guard in its period. -/
theorem retained_steady {start : State} (before : Reachable (step cfg) (Lawful cfg) State.init start)
    (member : g ∈ start.live ++ start.leaked)
    (run : Reachable (step cfg) (Retains cfg g) start st) :
    g ∈ st.live ++ st.leaked ∧
      Reachable (Raw.step cfg) (Raw.Steady cfg g.slot) start.raw st.raw := by
  -- The calls of such a step leave the slot of the guard in its period.
  refine run.invariant (fun st => g ∈ st.live ++ st.leaked ∧
    Reachable (Raw.step cfg) (Raw.Steady cfg g.slot) start.raw st.raw) ⟨member, .refl⟩ ?_
  rintro mid move st' reached ⟨there, steady⟩ retains ran
  have whole := before.trans (retains_lawful reached)
  have kept := reachable_kept whole
  have owners := reachable_owners whole
  have activity := reachable_activity (lawful_fresh whole)
  obtain ⟨calls, next, raw, _, _, planned, called, rfl⟩ := step_planned ran
  refine ⟨planned.retained there retains.2.1, ?_⟩
  exact (planned.steady (reachable_counted whole) owners activity kept.housed there retains).run
    called steady

/-- A retirement through a guard is one call of `add` on the guard's slot. -/
theorem deferRetire_add {p : Ptr} {f : Reclaim} {c : Alloc}
    (ran : step cfg st (t, .deferRetire g p f c) = .ok st') :
    g ∈ st.live ∧ g ∈ st'.live ∧ Raw.step cfg st.raw (t, .add g.slot p f c) = .ok st'.raw := by
  obtain ⟨calls, next, raw, _, _, planned, called, rfl⟩ := step_planned ran
  cases planned with
  | batchLocal is member | batchOwned is member =>
    cases is
    exact ⟨member, member, runCalls_one called⟩
  | nothing is => rcases is with is | ⟨_, is⟩ <;> cases is
  | thread is | inner is => cases is

/-- An accepted retirement in a slot that holds the sentinel is reclaimed in the same step. -/
theorem immediate_reclaimed {p : Ptr} {f : Reclaim} {c : Alloc} (numbered : Raw.Numbered raw)
    (held : raw.batch s = .drop) (ran : Raw.step cfg raw (t, .add s p f c) = .ok raw')
    (accepted : .retired raw.nextRid p f ∈ raw'.log) :
    .reclaimed raw.nextRid p f none ∈ raw'.log := by
  -- Under a sentinel, a retirement that is accepted is carried out at once.
  obtain ⟨raw₁, moved, rfl⟩ := Raw.step_move ran
  cases moved with
  | immediate => exact List.mem_cons_self
  | refused _ prep =>
    obtain ⟨_, _, _, _, _, _, _, log, _⟩ := prep.same
    have logged : Event.retired raw.nextRid p f ∈ Event.refused raw.nextRid :: raw.log :=
      (congrArg (Event.retired raw.nextRid p f ∈ Event.refused raw.nextRid :: ·) log).mp accepted
    have earlier : Event.retired raw.nextRid p f ∈ raw.log := by simpa using logged
    exact absurd (numbered.logged _ earlier _ rfl) (Nat.lt_irrefl _)
  | pushed _ prep notDrop | filled _ prep notDrop =>
    have still := (prep.drops s).mpr held
    rw [notDrop] at still
    cases still

/-- The retirements of the raw collector are numbered, in a lawful run. -/
theorem Kept.numbered (kept : Kept cfg st) : Raw.Numbered st.raw := Raw.reachable_numbered kept.raw

/-- The rules for a step that retains a guard, decided for the first `n` threads. -/
def retainsCheck (cfg : Config) (n : Nat) (g : Guard) (st : State) (move : Tid × Action) : Bool :=
  lawfulCheck cfg n st move && decide (move.2 ≠ .drop g ∧ move.2 ≠ .refresh g) &&
    decide ((st.raw.stack move.1).head?.bind Raw.Frame.iteration = none)

/-- A step that passes the check retains the guard. -/
theorem retains_of_check {n : Nat} {move : Tid × Action} (few : Few n st)
    (checked : retainsCheck cfg n g st move = true) : Retains cfg g st move := by
  simp only [retainsCheck, Bool.and_eq_true, decide_eq_true_eq] at checked
  obtain ⟨⟨lawful, kept⟩, outside⟩ := checked
  refine ⟨⟨lawful_of_check few lawful, fun cursor below top => ?_⟩, kept⟩
  rw [top] at outside
  cases outside

/-- Such a step is one of the first `n` threads. -/
theorem Few.retains {n : Nat} {move : Tid × Action} (few : Few n st)
    (checked : retainsCheck cfg n g st move = true) (ran : Guards.step cfg st move = .ok st') :
    Few n st' := by
  simp only [retainsCheck, lawfulCheck, Bool.and_eq_true, decide_eq_true_eq] at checked
  exact few.step checked.1.1.1.1.1.1 ran

/-- A thread retires through a guard, and a run follows that retains the guard. -/
def deferThen (cfg : Config) (n : Nat) (g : Guard) (p : Ptr) (f : Reclaim) (c : Alloc)
    (rest : List (Tid × Action)) (final : State → Bool) (st : State) : Bool :=
  match step cfg st (0, .deferRetire g p f c) with
  | .ok st' => retainsCheck cfg n g st (0, .deferRetire g p f c) &&
    decide (Event.retired st.raw.nextRid p f ∈ st'.raw.log ∧ st.raw.batch g.slot ≠ .drop) &&
      checkRun (step cfg) (retainsCheck cfg n g) final st' rest
  | .error _ => false

/-- What such a computation shows. -/
theorem deferThen_runs {n : Nat} {p : Ptr} {f : Reclaim} {c : Alloc} {rest : List (Tid × Action)}
    {final : State → Bool} (few : Few n st) (checked : deferThen cfg n g p f c rest final st = true) :
    ∃ st' st'', step cfg st (0, .deferRetire g p f c) = .ok st' ∧
      Considerate cfg st (0, .deferRetire g p f c) ∧
        Event.retired st.raw.nextRid p f ∈ st'.raw.log ∧ st.raw.batch g.slot ≠ .drop ∧
          Reachable (step cfg) (Retains cfg g) st' st'' ∧ final st'' = true := by
  simp only [deferThen] at checked
  split at checked
  · rename_i st' ran
    simp only [Bool.and_eq_true, decide_eq_true_eq] at checked
    obtain ⟨⟨retains, accepted, notDrop⟩, checked⟩ := checked
    have sound : ∀ st move, Few n st → retainsCheck cfg n g st move = true → Retains cfg g st move :=
      fun _ _ few checked => retains_of_check few checked
    obtain ⟨st'', later, _, ended⟩ := Reachable.of_checkRun sound
      (fun _ _ _ few checked ran => few.retains checked ran) (few.retains retains ran) checked
    exact ⟨st', st'', ran, (sound _ _ few retains).1, accepted, notDrop, later, ended⟩
  · cases checked

/-- One thread makes all the calls, and calls `reclaim_all` while it is in no call and has no guard. -/
def Solitary (st : State) (move : Tid × Action) : Prop :=
  move.1 = 0 ∧ (move.2 = .reclaimAll → st.raw.stack 0 = [] ∧ st.live = [])

instance (st : State) (move : Tid × Action) : Decidable (Solitary st move) :=
  inferInstanceAs (Decidable (_ ∧ _))

end Seize.Guards
