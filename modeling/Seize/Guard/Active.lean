import Seize.Guard.Reentrant

/-!
Which slots are active.

A slot is active while it has a guard, as long as no owned guard is given the ID of a slot that still
counts local guards.
-/

namespace Seize.Guards

open Seize.Raw (Config SlotId Tid Ptr Reclaim Alloc Cell CellOp Stop)
open Seize.Tls (Usage)

variable {cfg : Config} {st st' : State} {t : Tid} {s v : SlotId} {action : Action}
  {calls : List Raw.Action} {next : State} {raw raw' : Raw.State}

/-- Whether a slot is active after a raw call, given whether it was before. -/
def activeAfter (v : SlotId) : Raw.Action → Prop → Prop
  | .enter s, before => s = v ∨ before
  | .refresh s, before => s = v ∨ before
  | .leave s, before => s ≠ v ∧ before
  | _, before => before

/-- Only an enter, a leave and a refresh change whether a slot is active. -/
theorem active_step {call : Raw.Action} (ran : Raw.step cfg raw (t, call) = .ok raw') :
    raw'.Active v ↔ activeAfter v call (raw.Active v) := by
  obtain ⟨raw₁, moved, rfl⟩ := Raw.step_move ran
  -- A write to a head decides about its own slot.
  have begun : ∀ {s : SlotId} {raw₂ : Raw.State},
      raw₂.head = Function.update raw.head s (.list none) →
      (raw₂.Active v ↔ (s = v ∨ raw.Active v)) := by
    intro s raw₂ heads
    rw [Raw.State.Active, heads]
    by_cases here : v = s
    · subst here
      simp
    · rw [Function.update_of_ne here]
      simp [Raw.State.Active, Ne.symm here]
  have ended : ∀ {s : SlotId} {raw₂ : Raw.State},
      raw₂.head = Function.update raw.head s .inactive →
      (raw₂.Active v ↔ (s ≠ v ∧ raw.Active v)) := by
    intro s raw₂ heads
    rw [Raw.State.Active, heads]
    by_cases here : v = s
    · subst here
      simp
    · rw [Function.update_of_ne here]
      simp [Raw.State.Active, Ne.symm here]
  have plain : ∀ {raw₂ : Raw.State}, raw₂.head = raw.head → (raw₂.Active v ↔ raw.Active v) := by
    intro raw₂ heads
    rw [Raw.State.Active, heads, Raw.State.Active]
  cases moved with
  | enter => exact begun rfl
  | refreshIdle => exact begun rfl
  | refresh => exact begun rfl
  | leaveIdle => exact ended rfl
  | leave => exact ended rfl
  | refused _ prep => exact plain prep.same.2.1
  | immediate _ prep => exact plain prep.same.2.1
  | pushed _ prep => exact plain prep.same.2.1
  | filled _ prep => exact plain prep.same.2.1
  | reserve _ prep => exact plain prep.same.2.1
  | @publish b marked i active s prev below batch spurious top stored more same =>
    -- An entry is linked to a slot that is active before and after.
    have moved : ∀ {raw₂ : Raw.State},
        raw₂.head = Function.update raw.head s (.list (some ⟨b, i⟩)) →
        (raw₂.Active v ↔ raw.Active v) := by
      intro raw₂ heads
      rw [Raw.State.Active, heads, Raw.State.Active]
      by_cases here : v = s
      · subst here
        simp [same]
      · rw [Function.update_of_ne here]
    exact moved rfl
  | known | create | flushNone | flush | reclaimAll | access | ret | panic | skipScan | skipReclaim
  | commit | pass | mark | abort | addFree | addShare | load | gone | retry | done | releaseFree
  | releaseCount | invoke | dealloc | finish | next | take | takeWrong | reset => exact plain rfl

/-- One call. -/
theorem runCalls_one {call : Raw.Action} (ran : runCalls cfg t [call] raw = .ok raw') :
    Raw.step cfg raw (t, call) = .ok raw' := by
  simp only [runCalls] at ran
  split at ran
  · rename_i called
    cases ran
    exact called
  · cases ran

/-- A call and those after it. -/
theorem runCalls_cons {call : Raw.Action} {rest : List Raw.Action}
    (ran : runCalls cfg t (call :: rest) raw = .ok raw') :
    ∃ mid, Raw.step cfg raw (t, call) = .ok mid ∧ runCalls cfg t rest mid = .ok raw' := by
  simp only [runCalls] at ran
  split at ran
  · rename_i mid called
    exact ⟨mid, called, ran⟩
  · cases ran

/-- Whether a slot is active after some raw calls. -/
theorem active_runCalls (ran : runCalls cfg t calls raw = .ok raw') :
    raw'.Active v ↔ calls.foldl (fun before call => activeAfter v call before) (raw.Active v) := by
  induction calls generalizing raw with
  | nil =>
    cases ran
    rfl
  | cons call rest ih =>
    obtain ⟨mid, called, ran⟩ := runCalls_cons ran
    rw [ih ran, List.foldl_cons, propext (active_step called)]

/-- The slots whose IDs are in somebody's hands: a thread's, an owned guard's, or a drop's. -/
def State.holders (st : State) : List SlotId :=
  st.threads.map (·.2) ++ (((st.live ++ st.leaked).filter (·.kind = .owned)).map (·.slot) ++
    st.drops.map (·.slot))

/-- IDs are held by one holder each. -/
structure Owners (st : State) : Prop where
  parts : st.ids.Partitioned
  alone : st.holders.Nodup
  inUse : ∀ s ∈ st.holders, s ∈ st.ids.live

/-- A thread that has an ID is listed with it. -/
theorem State.thread_mem (mine : st.thread t = some s) : (t, s) ∈ st.threads := by
  obtain ⟨front, back, eq, _⟩ := List.lookup_eq_some_iff.mp mine
  rw [eq]
  simp

/-- A new ID was not in use. -/
theorem createThread_spec {ids ids' : Usage} (parts : ids.Partitioned)
    (created : createThread cfg ids = some (s, ids')) :
    s < cfg.slots ∧ s ∉ ids.live ∧ ids'.live = s :: ids.live ∧ ids'.Partitioned := by
  unfold createThread at created
  split at created
  · rename_i id manager taken
    split at created
    · rename_i small
      cases created
      -- A thread ID is one request to the manager.
      have served : Usage.serve cfg.width ids .alloc =
          .ok { ids with manager := manager, live := s :: ids.live } := by
        simp [Usage.serve, taken]
      exact ⟨small, (parts.least taken).1, rfl, parts.serve served⟩
    · cases created
  · cases created

/-- A freed ID was in use. -/
theorem freeThread_spec {ids : Usage} {reserved : Bool} (parts : ids.Partitioned)
    (member : s ∈ ids.live) : (freeThread ids reserved s).Partitioned := by
  have served : Usage.serve 0 ids (.free s reserved) = .ok (freeThread ids reserved s) := by
    simp [Usage.serve, member, freeThread]
  exact parts.serve served

/-- Holders that are the same up to their order. -/
theorem Owners.perm (owners : Owners st) (ids : st'.ids = st.ids)
    (holders : st'.holders.Perm st.holders) : Owners st' where
  parts := ids ▸ owners.parts
  alone := holders.nodup_iff.mpr owners.alone
  inUse := by
    intro s member
    rw [ids]
    exact owners.inUse s (holders.mem_iff.mp member)

/-- Somebody gets a new ID. -/
theorem Owners.create {ids : Usage} (owners : Owners st)
    (created : createThread cfg st.ids = some (s, ids)) (after : st'.ids = ids)
    (holders : st'.holders.Perm (s :: st.holders)) : Owners st' := by
  obtain ⟨_, fresh, live, parts⟩ := createThread_spec owners.parts created
  refine ⟨after ▸ parts, holders.nodup_iff.mpr (List.nodup_cons.mpr ⟨?_, owners.alone⟩), ?_⟩
  · exact fun held => fresh (owners.inUse s held)
  · intro v member
    rw [after, live]
    rcases List.mem_cons.mp (holders.mem_iff.mp member) with rfl | old
    · exact List.mem_cons_self
    · exact List.mem_cons_of_mem _ (owners.inUse v old)

/-- A holder gives its ID back. -/
theorem Owners.free {reserved : Bool} (owners : Owners st) (held : s ∈ st.holders)
    (ids : st'.ids = freeThread st.ids reserved s) (fewer : st'.holders.Sublist st.holders)
    (gone : s ∉ st'.holders) : Owners st' := by
  refine ⟨ids ▸ freeThread_spec owners.parts (owners.inUse s held), owners.alone.sublist fewer, ?_⟩
  intro v member
  rw [ids]
  have different : v ≠ s := by
    rintro rfl
    exact gone member
  exact (List.mem_erase_of_ne different).mpr (owners.inUse v (fewer.subset member))

/-- The owned guards among live and leaked ones, when one of the live ones is taken out. -/
theorem owned_erase {g : Guard} {live : List Guard} (leaked : List Guard) (member : g ∈ live) :
    ((live ++ leaked).filter (·.kind = .owned)).Perm
      ((g :: (live.erase g ++ leaked)).filter (·.kind = .owned)) := by
  have taken : live.Perm (g :: live.erase g) := List.perm_cons_erase member
  exact (taken.append_right leaked).filter _

/-- The step lemma: IDs change hands, and are never in two. -/
theorem Planned.owners (planned : Planned cfg st t action calls next) (owners : Owners st) :
    Owners next := by
  cases planned with
  | nothing | refusedLocal | refreshLocal | refreshOwned | batchLocal | batchOwned | access
  | thread | reclaimAll | inner => exact owners.perm rfl (List.Perm.refl _)
  | current absent created => exact owners.create created rfl (List.Perm.refl _)
  | enterLocal =>
    refine owners.perm rfl (List.Perm.of_eq ?_)
    simp [State.holders]
  | @refusedOwned reserved s ids created =>
    -- The new ID goes back at once.
    obtain ⟨_, fresh, live, parts⟩ := createThread_spec owners.parts created
    have member : s ∈ ids.live := by
      rw [live]
      exact List.mem_cons_self
    refine ⟨freeThread_spec parts member, owners.alone, fun v held => ?_⟩
    simp only [freeThread, live, List.erase_cons_head]
    exact owners.inUse v held
  | @enterOwned alloc reserved s ids created =>
    refine owners.create created rfl ?_
    simp only [State.holders, List.cons_append, List.filter_cons, decide_true, if_true, List.map_cons]
    exact List.perm_middle
  | @dropLocal g member kind =>
    refine owners.perm rfl (List.Perm.append_left _ (List.Perm.append_right _ ?_))
    have same := owned_erase st.leaked member
    rw [List.filter_cons, if_neg (by simp [kind])] at same
    exact (same.map _).symm
  | @dropOwned g member kind =>
    -- The ID passes from the guard to the call that drops it.
    have same := owned_erase st.leaked member
    rw [List.filter_cons, if_pos (by simp [kind])] at same
    refine owners.perm rfl (List.Perm.append_left _ ?_)
    refine List.Perm.trans ?_ (List.Perm.append_right _ (same.map (·.slot)).symm)
    exact List.perm_middle
  | @forget g member =>
    refine owners.perm rfl (List.Perm.append_left _ (List.Perm.append_right _ ?_))
    have same := owned_erase st.leaked member
    refine (List.Perm.trans ?_ same.symm).map _
    exact List.Perm.filter _ List.perm_middle
  | @finish reserved d found =>
    have member : d ∈ st.drops := List.mem_of_find?_eq_some found
    have order : (d :: st.drops.erase d).Perm st.drops := (List.perm_cons_erase member).symm
    -- The slot was listed once, for this drop.
    have whole : (d.slot :: ({ st with drops := st.drops.erase d } : State).holders).Perm
        st.holders := by
      refine List.Perm.trans ?_ (List.Perm.append_left _ (List.Perm.append_left _ (order.map (·.slot))))
      rw [List.map_cons]
      exact List.perm_middle.symm.trans (List.Perm.append_left _ List.perm_middle.symm)
    have nodup := whole.nodup_iff.mpr owners.alone
    refine owners.free (whole.mem_iff.mp List.mem_cons_self) rfl ?_ (List.nodup_cons.mp nodup).1
    refine List.Sublist.append (List.Sublist.refl _) (List.Sublist.append (List.Sublist.refl _) ?_)
    exact List.erase_sublist.map _
  | @exit reserved s mine =>
    have member := State.thread_mem mine
    have alone := List.nodup_append.mp owners.alone
    have listed : s ∈ st.threads.map (·.2) := List.mem_map.mpr ⟨_, member, rfl⟩
    refine owners.free (List.mem_append_left _ listed) rfl ?_ ?_
    · exact List.Sublist.append (List.filter_sublist.map _) (List.Sublist.refl _)
    · intro held
      rcases List.mem_append.mp held with still | elsewhere
      · -- Another thread with the same ID would be listed twice.
        obtain ⟨⟨t', s'⟩, kept, same⟩ := List.mem_map.mp still
        obtain ⟨inside, different⟩ := List.mem_filter.mp kept
        have equal := List.inj_on_of_nodup_map alone.1 inside member same
        simp [Prod.ext_iff] at equal different
        exact different equal.1
      · exact alone.2.2 s listed s elsewhere rfl

/-- The step lemma for whole steps: an unwound drop lets go of its ID. -/
theorem Owners.step {move : Tid × Action} (owners : Owners st)
    (ran : step cfg st move = .ok st') : Owners st' := by
  obtain ⟨calls, next, raw, _, _, planned, _, rfl⟩ := step_planned ran
  have after := planned.owners owners
  have fewer : (settle { next with raw := raw } move.1 move.2).holders.Sublist next.holders := by
    refine List.Sublist.append (List.Sublist.refl _) (List.Sublist.append (List.Sublist.refl _) ?_)
    simp only [settle]
    split
    · exact List.filter_sublist.map _
    · exact List.Sublist.refl _
  exact ⟨after.parts, after.alone.sublist fewer, fun s member => after.inUse s (fewer.subset member)⟩

/-- The run lemma, for every run of the guard layer. -/
theorem reachable_owners {allowed : State → Tid × Action → Prop}
    (run : Reachable (Guards.step cfg) allowed State.init st) : Owners st := by
  have base : Owners State.init := by
    refine ⟨List.Perm.refl [], List.nodup_nil, ?_⟩
    intro s member
    cases member
  refine run.invariant Owners base ?_
  intro st move st' _ owners _ ran
  exact owners.step ran

/-- A slot has an owned guard, live or leaked. -/
def State.Owned (st : State) (s : SlotId) : Prop :=
  ∃ g ∈ st.live ++ st.leaked, g.kind = .owned ∧ g.slot = s

/-- A slot with an owned guard is listed for it. -/
theorem State.Owned.listed (owned : st.Owned s) :
    s ∈ ((st.live ++ st.leaked).filter (·.kind = .owned)).map (·.slot) := by
  obtain ⟨g, member, kind, rfl⟩ := owned
  exact List.mem_map.mpr ⟨g, List.mem_filter.mpr ⟨member, by simpa using kind⟩, rfl⟩

/-- A thread does not share its slot with an owned guard. -/
theorem Owners.thread_unowned (owners : Owners st) (mine : st.thread t = some s) :
    ¬ st.Owned s := by
  intro owned
  have listed : s ∈ st.threads.map (·.2) := List.mem_map.mpr ⟨_, State.thread_mem mine, rfl⟩
  exact (List.nodup_append.mp owners.alone).2.2 s listed s
    (List.mem_append_left _ owned.listed) rfl

/-- A new ID is that of no owned guard. -/
theorem Owners.fresh_unowned {ids : Usage} (owners : Owners st)
    (created : createThread cfg st.ids = some (s, ids)) : ¬ st.Owned s := by
  intro owned
  refine (createThread_spec owners.parts created).2.1 (owners.inUse s ?_)
  exact List.mem_append_right _ (List.mem_append_left _ owned.listed)

/-- An owned guard is the only one of its slot. -/
theorem Owners.only {g : Guard} (owners : Owners st) (member : g ∈ st.live)
    (kind : g.kind = .owned) :
    ¬ ∃ g' ∈ st.live.erase g ++ st.leaked, g'.kind = .owned ∧ g'.slot = g.slot := by
  rintro ⟨g', member', kind', same⟩
  have alone := (List.nodup_append.mp (List.nodup_append.mp owners.alone).2.1).1
  have order := (owned_erase st.leaked member).map (·.slot)
  rw [List.filter_cons, if_pos (by simp [kind]), List.map_cons] at order
  -- Another one would be listed with the same slot.
  refine (List.nodup_cons.mp (order.nodup_iff.mp alone)).1 ?_
  exact List.mem_map.mpr ⟨g', List.mem_filter.mpr ⟨member', by simpa using kind'⟩, same⟩

/-- A guard is created on no slot that still counts local guards, when it is an owned one. -/
def OwnedFresh (cfg : Config) (st : State) (move : Tid × Action) : Prop :=
  ∀ alloc reserved s ids, move.2 = .enterOwned alloc reserved →
    createThread cfg st.ids = some (s, ids) → (s ∈ st.raw.created ∨ alloc = true) →
      st.guards s = 0

/-- A slot is active exactly while it has a guard. -/
structure Activity (st : State) : Prop where
  active : ∀ s, st.raw.Active s ↔ 0 < st.guards s ∨ st.Owned s
  /-- The slot of an owned guard counts no local guards. -/
  solo : ∀ s, st.Owned s → st.guards s = 0

/-- The owned guards of a slot when there is one guard more. -/
theorem owned_cons {g : Guard} (live : st'.live = g :: st.live) (leaked : st'.leaked = st.leaked) :
    st'.Owned v ↔ (g.kind = .owned ∧ g.slot = v) ∨ st.Owned v := by
  simp [State.Owned, live, leaked]

/-- The owned guards of a slot when a live guard goes. -/
theorem owned_dropped {g : Guard} (member : g ∈ st.live) (live : st'.live = st.live.erase g)
    (leaked : st'.leaked = st.leaked) :
    st.Owned v ↔ (g.kind = .owned ∧ g.slot = v) ∨ st'.Owned v := by
  have order : (st.live ++ st.leaked).Perm (g :: (st'.live ++ st'.leaked)) := by
    rw [live, leaked, ← List.cons_append]
    exact (List.perm_cons_erase member).append_right _
  unfold State.Owned
  simp only [order.mem_iff, List.mem_cons, or_and_right, exists_or, exists_eq_left]

/-- A step that neither enters, leaves nor refreshes, and keeps the guards. -/
theorem Activity.keep (activity : Activity st)
    (plain : ∀ v p, (calls.foldl (fun before call => activeAfter v call before) p) = p)
    (called : runCalls cfg t calls st.raw = .ok raw) (guards : st'.guards = st.guards)
    (owned : ∀ s, st'.Owned s ↔ st.Owned s) (after : st'.raw = raw) : Activity st' where
  active := by
    intro s
    rw [after, active_runCalls called, plain, activity.active s, guards, owned]
  solo := by
    intro s
    rw [guards, owned]
    exact activity.solo s

/-- A call on a batch does not concern which slots are active. -/
theorem activeAfter_onBatch {g : Guard} {call : Raw.Action} (is : action.onBatch = some (g, call))
    (p : Prop) : activeAfter v call p = p := by
  cases action with
  | deferRetire | reserveRetire | flush =>
    cases is
    rfl
  | _ => cases is

/-- A call on the batch of the current thread does not either. -/
theorem activeAfter_onThread {call : Raw.Action} (is : action.onThread s = some call) (p : Prop) :
    activeAfter v call p = p := by
  cases action with
  | retire | reserve =>
    cases is
    rfl
  | _ => cases is

/-- Neither does a step inside a call. -/
theorem activeAfter_inner {call : Raw.Action} (is : action.inner = some call) (p : Prop) :
    activeAfter v call p = p := by
  cases action with
  | ret | panic | advance | skip =>
    cases is
    rfl
  | _ => cases is

/-- A local guard enters its slot when it is the first one there. -/
theorem Activity.enterLocal {g : Guard} (activity : Activity st) (unowned : ¬ st.Owned g.slot)
    (kind : g.kind = .localTo t)
    (called : runCalls cfg t (.create g.slot :: if st.guards g.slot = 0 then [.enter g.slot] else [])
      st.raw = .ok st'.raw)
    (guards : st'.guards = Function.update st.guards g.slot (st.guards g.slot + 1))
    (live : st'.live = g :: st.live) (leaked : st'.leaked = st.leaked) : Activity st' := by
  -- The new guard is not an owned one.
  have owned : ∀ v, st'.Owned v ↔ st.Owned v := by
    intro v
    rw [owned_cons live leaked]
    simp [kind]
  refine ⟨fun v => ?_, fun v held => ?_⟩
  · rw [active_runCalls called, owned, guards]
    by_cases here : v = g.slot
    · subst here
      rw [Function.update_self]
      by_cases first : st.guards g.slot = 0
      · simp [first, activeAfter]
      · simp only [first, if_false, List.foldl_cons, List.foldl_nil, activeAfter, activity.active]
        exact iff_of_true (.inl (Nat.pos_of_ne_zero first)) (.inl (Nat.succ_pos _))
    · rw [Function.update_of_ne here, ← activity.active v]
      split
      · simp [activeAfter, Ne.symm here]
      · rfl
  · have different : v ≠ g.slot := by
      rintro rfl
      exact unowned ((owned _).mp held)
    rw [guards, Function.update_of_ne different]
    exact activity.solo v ((owned v).mp held)

/-- A local guard leaves its slot when it is the last one there. -/
theorem Activity.dropLocal {g : Guard} (activity : Activity st) (member : g ∈ st.live)
    (kind : g.kind = .localTo t) (positive : st.guards g.slot ≠ 0)
    (called : runCalls cfg t (if st.guards g.slot = 1 then [.leave g.slot] else []) st.raw =
      .ok st'.raw)
    (guards : st'.guards = Function.update st.guards g.slot (st.guards g.slot - 1))
    (live : st'.live = st.live.erase g) (leaked : st'.leaked = st.leaked) : Activity st' := by
  have owned : ∀ v, st'.Owned v ↔ st.Owned v := by
    intro v
    rw [owned_dropped member live leaked]
    simp [kind]
  -- A slot with local guards has no owned one.
  have unowned : ¬ st.Owned g.slot := fun held => positive (activity.solo _ held)
  refine ⟨fun v => ?_, fun v held => ?_⟩
  · rw [active_runCalls called, owned, guards]
    by_cases here : v = g.slot
    · subst here
      rw [Function.update_self]
      by_cases last : st.guards g.slot = 1
      · simp [last, activeAfter, unowned]
      · simp only [last, if_false, List.foldl_nil, activity.active]
        exact iff_of_true (.inl (by omega)) (.inl (by omega))
    · rw [Function.update_of_ne here, ← activity.active v]
      split
      · simp [activeAfter, Ne.symm here]
      · rfl
  · have different : v ≠ g.slot := by
      rintro rfl
      exact unowned ((owned _).mp held)
    rw [guards, Function.update_of_ne different]
    exact activity.solo v ((owned v).mp held)

/-- An owned guard enters a slot that counts no local guards. -/
theorem Activity.enterOwned {g : Guard} (activity : Activity st) (zero : st.guards g.slot = 0)
    (kind : g.kind = .owned)
    (called : runCalls cfg t [.create g.slot, .enter g.slot] st.raw = .ok st'.raw)
    (guards : st'.guards = st.guards) (live : st'.live = g :: st.live)
    (leaked : st'.leaked = st.leaked) : Activity st' := by
  -- The slot has an owned guard now, and nothing else has changed.
  have owned : ∀ v, st'.Owned v ↔ g.slot = v ∨ st.Owned v := by
    intro v
    rw [owned_cons live leaked]
    simp [kind]
  refine ⟨fun v => ?_, fun v held => ?_⟩
  · rw [active_runCalls called, owned, guards]
    simp only [List.foldl_cons, List.foldl_nil, activeAfter, activity.active v]
    exact or_left_comm
  · rw [guards]
    rcases (owned v).mp held with rfl | before
    · exact zero
    · exact activity.solo v before

/-- An owned guard leaves its slot to nobody. -/
theorem Activity.dropOwned {g : Guard} (activity : Activity st) (owners : Owners st)
    (member : g ∈ st.live) (kind : g.kind = .owned)
    (called : runCalls cfg t [.leave g.slot] st.raw = .ok st'.raw)
    (guards : st'.guards = st.guards) (live : st'.live = st.live.erase g)
    (leaked : st'.leaked = st.leaked) : Activity st' := by
  have owned : ∀ v, st.Owned v ↔ g.slot = v ∨ st'.Owned v := by
    intro v
    rw [owned_dropped member live leaked]
    simp [kind]
  -- A reservation with an owned guard has no local ones.
  have zero : st.guards g.slot = 0 := activity.solo _ ((owned _).mpr (.inl rfl))
  refine ⟨fun v => ?_, fun v held => ?_⟩
  · rw [active_runCalls called, guards]
    simp only [List.foldl_cons, List.foldl_nil, activeAfter, activity.active v, owned]
    by_cases here : g.slot = v
    · subst here
      have none : ¬ st'.Owned g.slot := by
        rw [State.Owned, live, leaked]
        exact owners.only member kind
      simp [zero, none]
    · simp [here]
  · rw [guards]
    exact activity.solo v ((owned v).mpr (.inr held))

/-- A refresh of a slot that is active already. -/
theorem Activity.refresh {refreshed : SlotId} (activity : Activity st)
    (held : 0 < st.guards refreshed ∨ st.Owned refreshed)
    (called : runCalls cfg t [.refresh refreshed] st.raw = .ok st'.raw)
    (guards : st'.guards = st.guards) (owned : ∀ v, st'.Owned v ↔ st.Owned v) : Activity st' := by
  refine ⟨fun v => ?_, fun v before => ?_⟩
  · rw [active_runCalls called, owned, guards]
    simp only [List.foldl_cons, List.foldl_nil, activeAfter, activity.active v]
    constructor
    · rintro (rfl | before)
      · exact held
      · exact before
    · exact .inr
  · rw [guards]
    exact activity.solo v ((owned v).mp before)

/-- The step lemma, for what an action plans. -/
theorem Planned.activity (planned : Planned cfg st t action calls next) (owners : Owners st)
    (activity : Activity st) (fresh : OwnedFresh cfg st (t, action))
    (called : runCalls cfg t calls st.raw = .ok raw) : Activity { next with raw := raw } := by
  have same : next.guards = st.guards → (∀ s, next.Owned s ↔ st.Owned s) →
      (∀ v p, (calls.foldl (fun before call => activeAfter v call before) p) = p) →
      Activity { next with raw := raw } :=
    fun guards owned plain => activity.keep plain called guards owned rfl
  cases planned with
  | nothing | current | refusedLocal | refusedOwned | finish | exit | access | reclaimAll =>
    exact same rfl (fun s => .rfl) (fun v p => rfl)
  | batchLocal is | batchOwned is =>
    exact same rfl (fun s => .rfl) (fun v p => activeAfter_onBatch is p)
  | thread is => exact same rfl (fun s => .rfl) (fun v p => activeAfter_onThread is p)
  | inner is => exact same rfl (fun s => .rfl) (fun v p => activeAfter_inner is p)
  | @forget g member =>
    -- A leaked guard still has its slot.
    refine same rfl (fun s => ?_) (fun v p => rfl)
    have order : (st.live.erase g ++ g :: st.leaked).Perm (st.live ++ st.leaked) :=
      List.perm_middle.trans ((List.perm_cons_erase member).symm.append_right _)
    simp only [State.Owned, order.mem_iff]
  | @enterLocal alloc s mine =>
    exact activity.enterLocal (g := ⟨st.nextName, .localTo t, s⟩) (owners.thread_unowned mine) rfl
      called rfl rfl rfl
  | @enterOwned alloc reserved s ids created room =>
    have zero : st.guards s = 0 := fresh alloc reserved s ids rfl created room
    exact activity.enterOwned (g := ⟨st.nextName, .owned, s⟩) zero rfl called rfl rfl rfl
  | @refreshLocal g member kind =>
    split at called
    · rename_i one
      exact activity.refresh (.inl (by omega)) called rfl (fun v => .rfl)
    · exact activity.keep (fun v p => rfl) called rfl (fun v => .rfl) rfl
  | @refreshOwned g member kind =>
    have held : st.Owned g.slot := ⟨g, List.mem_append_left _ member, kind, rfl⟩
    exact activity.refresh (.inr held) called rfl (fun v => .rfl)
  | dropLocal member kind positive =>
    exact activity.dropLocal member kind positive called rfl rfl rfl
  | dropOwned member kind => exact activity.dropOwned owners member kind called rfl rfl rfl

/-- The run lemma, for runs in which no owned guard gets a slot with local guards. -/
theorem reachable_activity (run : Reachable (step cfg) (OwnedFresh cfg) State.init st) :
    Activity st := by
  have base : Activity State.init := by
    refine ⟨fun s => ?_, fun s _ => rfl⟩
    simp [Raw.State.Active, State.init, Raw.State.init, State.Owned]
  refine run.invariant Activity base ?_
  intro st move st' before activity fresh ran
  obtain ⟨calls, next, raw, _, _, planned, called, rfl⟩ := step_planned ran
  have after := planned.activity (reachable_owners before) activity fresh called
  exact ⟨after.active, after.solo⟩

/-- The calls of the raw collector that a step makes, one after the other. -/
def rawCalls (cfg : Config) (st : State) (move : Tid × Action) : List Raw.Action :=
  match plan cfg st move.1 move.2 with
  | .ok (calls, _) => calls
  | .error _ => []

/-- Every call of the raw `enter` in a step finds the slot inactive. -/
def EntersInactive (cfg : Config) (st : State) (move : Tid × Action) : Prop :=
  ∀ before s rest raw, rawCalls cfg st move = before ++ .enter s :: rest →
    runCalls cfg move.1 before st.raw = .ok raw → raw.head s = .inactive

/-- No call is the raw `enter`. -/
theorem no_enter {before rest : List Raw.Action} (none : Raw.Action.enter v ∉ calls) :
    calls ≠ before ++ .enter v :: rest := by
  rintro rfl
  exact none (List.mem_append_right _ List.mem_cons_self)

/-- The raw `enter` comes right after the reservation is there. -/
theorem enter_after_create {before rest : List Raw.Action}
    (same : [.create s, .enter s] = before ++ .enter v :: rest) : before = [.create s] ∧ v = s := by
  match before, same with
  | [], same => simp at same
  | [call], same =>
    simp only [List.singleton_append, List.cons.injEq, Raw.Action.enter.injEq] at same
    exact ⟨by rw [same.1], same.2.1.symm⟩
  | call :: call' :: more, same => simp at same

/-- The raw `enter` is called for a first local guard or for an owned guard. -/
theorem Planned.enters {before rest : List Raw.Action}
    (planned : Planned cfg st t action calls next) (enters : calls = before ++ .enter v :: rest) :
    before = [.create v] ∧ ((st.thread t = some v ∧ st.guards v = 0) ∨
      ∃ alloc reserved ids, action = .enterOwned alloc reserved ∧
        createThread cfg st.ids = some (v, ids) ∧ (v ∈ st.raw.created ∨ alloc = true)) := by
  -- Only the two `enter` functions call `enter`, and they create the reservation first.
  cases planned with
  | @enterLocal alloc s mine =>
    split at enters
    · rename_i first
      obtain ⟨rfl, rfl⟩ := enter_after_create enters
      exact ⟨rfl, .inl ⟨mine, first⟩⟩
    · exact absurd enters (no_enter (by simp))
  | @enterOwned alloc reserved s ids created room =>
    obtain ⟨rfl, rfl⟩ := enter_after_create enters
    exact ⟨rfl, .inr ⟨alloc, reserved, ids, rfl, created, room⟩⟩
  | refreshLocal | dropLocal =>
    refine absurd enters (no_enter ?_)
    split <;> simp
  | batchLocal is | batchOwned is | thread is | inner is =>
    refine absurd enters (no_enter ?_)
    cases action <;> cases is <;> simp
  | nothing | current | refusedLocal | refusedOwned | refreshOwned | dropOwned | finish | forget
  | exit | access | reclaimAll => exact absurd enters (no_enter (by simp))

/-- A step enters inactive slots only exactly when it gives no owned guard a slot in use. -/
theorem entersInactive_iff {move : Tid × Action} (owners : Owners st) (activity : Activity st)
    (ran : step cfg st move = .ok st') :
    EntersInactive cfg st move ↔ OwnedFresh cfg st move := by
  obtain ⟨calls, next, raw, _, plan, planned, called, _⟩ := step_planned ran
  have made : rawCalls cfg st move = calls := by simp only [rawCalls, plan]
  -- Allocating the reservation does not make the slot active.
  have kept : ∀ {v : SlotId} {raw : Raw.State}, runCalls cfg move.1 [.create v] st.raw = .ok raw →
      (raw.Active v ↔ st.raw.Active v) := fun created => active_runCalls created
  constructor
  · intro enters alloc reserved s ids is created room
    have calls_eq : calls = [.create s] ++ .enter s :: [] := by
      rw [is] at planned
      cases planned with
      | nothing is => simp at is
      | refusedOwned created' missing =>
        cases created.symm.trans created'
        exact absurd (room.resolve_right (by simp)) missing
      | enterOwned created' =>
        cases created.symm.trans created'
        rfl
      | batchLocal is | batchOwned is | thread is | inner is => cases is
    obtain ⟨mid, first, _⟩ := runCalls_cons (calls_eq ▸ called)
    have alone : runCalls cfg move.1 [.create s] st.raw = .ok mid := by simp only [runCalls, first]
    have inactive := enters [.create s] s [] mid (made.trans calls_eq) alone
    have idle : ¬ st.raw.Active s := fun active => (kept alone).mpr active inactive
    rw [activity.active s] at idle
    omega
  · intro fresh before s rest mid enters ran
    obtain ⟨rfl, why⟩ := planned.enters (made.symm.trans enters)
    have idle : ¬ st.raw.Active s := by
      rw [activity.active s]
      rcases why with ⟨mine, first⟩ | ⟨alloc, reserved, ids, is, created, room⟩
      · -- The thread of a first local guard shares its slot with nobody.
        rintro (counted | owned)
        · omega
        · exact owners.thread_unowned mine owned
      · rintro (counted | owned)
        · exact absurd (fresh alloc reserved s ids is created room) (by omega)
        · exact owners.fresh_unowned created owned
    by_contra active
    exact idle ((kept ran).mp active)

/-- The slot of a live guard has a guard. -/
theorem Counted.occupied {g : Guard} (counted : Counted st) (member : g ∈ st.live) :
    0 < st.guards g.slot ∨ st.Owned g.slot := by
  cases kind : g.kind with
  | localTo t =>
    left
    rw [counted g.slot]
    refine Nat.add_pos_left (List.countP_pos_iff.mpr ⟨g, member, ?_⟩) _
    simp [Guard.isLocalOn_of_kind kind]
  | owned => exact .inr ⟨g, List.mem_append_left _ member, kind, rfl⟩

/--
Live guards are active, in every run that gives no owned guard a slot with local guards.

A step after such a run enters inactive slots only exactly when it keeps to this as well.
-/
theorem live_guards_active (cfg : Config) {st : State}
    (run : Reachable (step cfg) (OwnedFresh cfg) State.init st) :
    (∀ g ∈ st.live, st.raw.Active g.slot) ∧
      ∀ move st', step cfg st move = .ok st' →
        (EntersInactive cfg st move ↔ OwnedFresh cfg st move) := by
  have activity := reachable_activity run
  refine ⟨fun g member => ?_, fun move st' ran => ?_⟩
  · exact (activity.active g.slot).mpr ((reachable_counted run).occupied member)
  · exact entersInactive_iff (reachable_owners run) activity ran

/-- The condition on owned guards, decided. -/
def ownedFreshCheck (cfg : Config) (st : State) (move : Tid × Action) : Bool :=
  match move.2, createThread cfg st.ids with
  | .enterOwned _ _, some (s, _) => decide (st.guards s = 0)
  | _, _ => true

/-- A run that passes the check keeps to the condition. -/
theorem ownedFresh_of_check {move : Tid × Action} (checked : ownedFreshCheck cfg st move = true) :
    OwnedFresh cfg st move := by
  intro alloc reserved s ids is created _
  simp only [ownedFreshCheck, is, created] at checked
  exact of_decide_eq_true checked

/-- A computed run of the guard layer is a run. -/
theorem reachable_of_moves (cfg : Config) (allowed : State → Tid × Action → Prop)
    (approve : State → Tid × Action → Bool) (final : State → Bool) (moves : List (Tid × Action))
    (sound : ∀ st move, approve st move = true → allowed st move)
    (checked : checkRun (step cfg) approve final State.init moves = true) :
    ∃ st, Reachable (step cfg) allowed State.init st ∧ final st = true := by
  have permitted : ∀ st move, True → approve st move = true → allowed st move :=
    fun st move _ approved => sound st move approved
  obtain ⟨st, run, _, ended⟩ := Reachable.of_checkRun permitted (fun _ _ _ _ _ _ => trivial)
    trivial checked
  exact ⟨st, run, ended⟩

/-- A slot that a local guard has left goes to an owned guard. -/
theorem live_guards_active_handedOn : ∃ st, ⟨2, .owned, 0⟩ ∈ st.live ∧
    Reachable (step ⟨64, 32⟩) (OwnedFresh ⟨64, 32⟩) State.init st ∧ st.raw.Active 0 := by
  obtain ⟨st, run, ended⟩ := reachable_of_moves ⟨64, 32⟩ (OwnedFresh ⟨64, 32⟩)
    (ownedFreshCheck ⟨64, 32⟩) (fun st => decide (⟨2, .owned, 0⟩ ∈ st.live))
    [(0, .current), (0, .enterLocal true), (1, .enterOwned true true), (1, .drop ⟨1, .owned, 1⟩),
      (1, .advance false), (1, .finish true), (0, .drop ⟨0, .localTo 0, 0⟩), (0, .advance false),
      (0, .exit true), (1, .enterOwned true true)]
    (fun _ _ checked => ownedFresh_of_check checked) (by decide)
  have member := of_decide_eq_true ended
  exact ⟨st, member, run, (live_guards_active ⟨64, 32⟩ run).1 _ member⟩

/--
A thread leaks a local guard and exits, an owned guard gets its ID, and then another thread does.

The owned guard enters a slot that is active, and leaves it inactive with a counter of one, so the
local guard of the last thread enters nothing.
-/
theorem live_guard_inactive :
    (∃ st move st', Reachable (step ⟨64, 32⟩) (fun _ _ => True) State.init st ∧
      step ⟨64, 32⟩ st move = .ok st' ∧ ¬ EntersInactive ⟨64, 32⟩ st move) ∧
    ∃ st, Reachable (step ⟨64, 32⟩) (fun _ _ => True) State.init st ∧
      ∃ g ∈ st.live, ¬ st.raw.Active g.slot := by
  constructor
  · obtain ⟨st, run, ended⟩ := reachable_of_moves ⟨64, 32⟩ (fun _ _ => True) (fun _ _ => true)
      (fun st => decide (rawCalls ⟨64, 32⟩ st (1, .enterOwned true true) = [.create 0, .enter 0]) &&
        match step ⟨64, 32⟩ st (1, .enterOwned true true),
          runCalls ⟨64, 32⟩ 1 [.create 0] st.raw with
        | .ok _, .ok raw => decide (raw.Active 0)
        | _, _ => false)
      [(0, .current), (0, .enterLocal true), (0, .forget ⟨0, .localTo 0, 0⟩), (0, .exit true)]
      (fun _ _ _ => trivial) (by decide)
    rw [Bool.and_eq_true, decide_eq_true_eq] at ended
    obtain ⟨calls, found⟩ := ended
    split at found
    · rename_i st' raw ran created
      have active := of_decide_eq_true found
      exact ⟨st, _, st', run, ran, fun enters => active (enters [.create 0] 0 [] raw calls created)⟩
    · cases found
  · obtain ⟨st, run, ended⟩ := reachable_of_moves ⟨64, 32⟩ (fun _ _ => True) (fun _ _ => true)
      (fun st => decide (⟨2, .localTo 2, 0⟩ ∈ st.live ∧ ¬ st.raw.Active 0))
      [(0, .current), (0, .enterLocal true), (0, .forget ⟨0, .localTo 0, 0⟩), (0, .exit true),
        (1, .enterOwned true true), (1, .drop ⟨1, .owned, 0⟩), (1, .advance false),
        (1, .finish true), (2, .current), (2, .enterLocal true)]
      (fun _ _ _ => trivial) (by decide)
    obtain ⟨member, inactive⟩ := of_decide_eq_true ended
    exact ⟨st, run, _, member, inactive⟩

end Seize.Guards
