import Seize.Guard.Failure
import Seize.Raw.Intact
import Seize.Raw.Reserve

/-!
Guards keep the contract of the raw collector.

Thread IDs, locks and the borrows of guards make sure that reservations are there when they are
used, and that a local batch has one user at a time.
-/

namespace Seize.Guards

open Seize.Raw (Config SlotId Tid Ptr Reclaim Alloc Cell CellOp Stop)
open Seize.Tls (Usage)

variable {cfg : Config} {st st' : State} {t t' : Tid} {s : SlotId} {action : Action}
  {calls : List Raw.Action} {next : State} {raw raw' : Raw.State}

/--
What is asked of a program beyond what the types of guards enforce.

The caller of `reclaim_all` has the collector for itself until it returns, and a thread drops its
local guards before it exits.
-/
structure Lawful (cfg : Config) (st : State) (move : Tid × Action) : Prop where
  fresh : OwnedFresh cfg st move
  /-- Nobody else is inside `reclaim_all`. -/
  apart : ∀ t', t' ≠ move.1 → ∀ f ∈ st.raw.stack t', f.iteration = none
  /-- Nobody else is inside a call when `reclaim_all` begins, and no slot holds the sentinel. -/
  alone : move.2 = .reclaimAll →
    (∀ t', t' ≠ move.1 → st.raw.stack t' = []) ∧ ∀ s, st.raw.batch s ≠ .drop
  exits : ∀ reserved, move.2 = .exit reserved → ∀ g ∈ st.live, g.kind ≠ .localTo move.1

/-- Who may use which slot. -/
structure Housed (cfg : Config) (st : State) : Prop where
  bounded : ∀ s ∈ st.ids.live, s < cfg.slots
  /-- A local guard is one of the slot of its thread. -/
  homes : ∀ g ∈ st.live, ∀ t, g.kind = .localTo t → st.thread t = some g.slot
  present : ∀ g ∈ st.live, g.slot ∈ st.raw.created
  /-- A lock belongs to an owned guard that its holder borrows. -/
  locked : ∀ l ∈ st.locks, ∃ g ∈ st.live, g.kind = .owned ∧ g.slot = l.slot
  /-- A thread that scans the batch of a slot owns the slot or holds its lock. -/
  scans : ∀ t s, (∃ f ∈ st.raw.stack t, f.scanSlot = some s) →
    st.thread t = some s ∨ ∃ l ∈ st.locks, l.thread = t ∧ l.slot = s

/-- Raw calls keep every reservation that is there. -/
theorem created_runCalls (ran : runCalls cfg t calls raw = .ok raw') :
    ∀ s ∈ raw.created, s ∈ raw'.created := by
  induction calls generalizing raw with
  | nil =>
    cases ran
    exact fun s member => member
  | cons call rest ih =>
    obtain ⟨mid, called, ran⟩ := runCalls_cons ran
    obtain ⟨raw₁, moved, rfl⟩ := Raw.step_move called
    exact fun s member => ih ran s (moved.created s member)

/-- The reservation of a slot is there after `create`. -/
theorem created_self (ran : Raw.step cfg raw (t, .create s) = .ok raw') : s ∈ raw'.created := by
  obtain ⟨raw₁, moved, rfl⟩ := Raw.step_move ran
  cases moved with
  | known _ present => exact present
  | create => exact List.mem_cons_self

/-- A scan in progress after some raw calls was in progress before, or one of the calls began it. -/
theorem scanSlot_runCalls {f : Raw.Frame} (ran : runCalls cfg t calls raw = .ok raw')
    (member : f ∈ raw'.stack t') (is : f.scanSlot = some s) :
    (∃ g ∈ raw.stack t', g.scanSlot = some s) ∨ ∃ call ∈ calls, call.scans = some s := by
  -- The calls are made one after the other, and each may begin a scan.
  induction calls generalizing raw with
  | nil =>
    cases ran
    exact .inl ⟨f, member, is⟩
  | cons call rest ih =>
    obtain ⟨mid, called, ran⟩ := runCalls_cons ran
    obtain ⟨raw₁, moved, rfl⟩ := Raw.step_move called
    rcases ih ran with ⟨g, inside, same⟩ | ⟨call', later, scans⟩
    · rcases moved.scanSlot inside same with old | begins
      · exact .inl old
      · exact .inr ⟨call, List.mem_cons_self, begins⟩
    · exact .inr ⟨call', List.mem_cons_of_mem _ later, scans⟩

/-- Calls that a contract of the raw collector allows, one after the other. -/
def Allowed (cfg : Config) (permitted : Raw.State → Tid × Raw.Action → Prop) (t : Tid) :
    List Raw.Action → Raw.State → Prop
  | [], _ => True
  | call :: rest, raw => permitted raw (t, call) ∧
    ∀ raw', Raw.step cfg raw (t, call) = .ok raw' → Allowed cfg permitted t rest raw'

/-- Such calls continue a run of the raw collector. -/
theorem Allowed.run {permitted : Raw.State → Tid × Raw.Action → Prop} {start : Raw.State}
    (allowed : Allowed cfg permitted t calls raw) (ran : runCalls cfg t calls raw = .ok raw')
    (before : Reachable (Raw.step cfg) permitted start raw) :
    Reachable (Raw.step cfg) permitted start raw' := by
  induction calls generalizing raw with
  | nil =>
    cases ran
    exact before
  | cons call rest ih =>
    obtain ⟨mid, called, ran⟩ := runCalls_cons ran
    exact ih (allowed.2 mid called) ran (before.tail allowed.1 called)

/-- One call. -/
theorem Allowed.one {permitted : Raw.State → Tid × Raw.Action → Prop} {call : Raw.Action}
    (first : permitted raw (t, call)) : Allowed cfg permitted t [call] raw :=
  ⟨first, fun _ _ => trivial⟩

/-- Access is all that is asked of most calls. -/
theorem balanced_of_access {call : Raw.Action} (access : Raw.Access cfg raw (t, call))
    (noEnter : ∀ s, call ≠ .enter s) (noReclaim : call ≠ .reclaimAll) :
    Raw.Balanced cfg raw (t, call) :=
  ⟨⟨access, fun is => absurd is noReclaim⟩, fun s is => absurd is (noEnter s)⟩

/-- The ID of a thread is in use. -/
theorem Owners.thread_live (owners : Owners st) (mine : st.thread t = some s) :
    s ∈ st.ids.live :=
  owners.inUse s (List.mem_append_left _ (List.mem_map.mpr ⟨_, State.thread_mem mine, rfl⟩))

/-- Threads have different IDs. -/
theorem Owners.thread_unique (owners : Owners st) (mine : st.thread t = some s)
    (other : st.thread t' = some s) : t = t' := by
  have alone := (List.nodup_append.mp owners.alone).1
  have same := List.inj_on_of_nodup_map alone (State.thread_mem mine) (State.thread_mem other) rfl
  exact congrArg Prod.fst same

/-- A thread may use the batch of its own slot, and of an owned guard that nobody has locked. -/
theorem Housed.unique (housed : Housed cfg st) (owners : Owners st)
    (apart : ∀ t', t' ≠ t → ∀ f ∈ st.raw.stack t', f.iteration = none)
    (mine : st.thread t = some s ∨ (st.Owned s ∧ st.locked s = false)) :
    Raw.UniqueAccess st.raw t s := by
  intro t' other f member
  have plain := apart t' other f member
  cases f with
  | scan slot b start cursor marked =>
    rw [Raw.Frame.usesBatch, decide_eq_false_iff_not]
    rintro rfl
    -- Whoever scans the batch owns the slot or holds its lock.
    rcases housed.scans t' slot ⟨_, member, rfl⟩ with theirs | ⟨l, held, _, same⟩
    · rcases mine with mine | ⟨owned, _⟩
      · exact other (owners.thread_unique theirs mine)
      · exact owners.thread_unowned theirs owned
    · rcases mine with mine | ⟨_, free⟩
      · obtain ⟨g, live, kind, at_⟩ := housed.locked l held
        refine owners.thread_unowned mine ⟨g, List.mem_append_left _ live, kind, ?_⟩
        rw [at_, same]
      · rw [State.locked, List.any_eq_false] at free
        exact free l held (by simpa using same)
  | reclaimAll | reclaimReset => cases plain
  | _ => rfl

/-- A call on the batch of a slot that the thread may use. -/
theorem balanced_onBatch {g : Guard} {call : Raw.Action} (is : action.onBatch = some (g, call))
    (small : g.slot < cfg.slots) (unique : Raw.UniqueAccess raw t g.slot) :
    Raw.Balanced cfg raw (t, call) := by
  cases action with
  | deferRetire | reserveRetire =>
    cases is
    exact balanced_of_access ⟨small, unique⟩ (by simp) (by simp)
  | flush =>
    cases is
    exact balanced_of_access unique (by simp) (by simp)
  | _ => cases is

/-- A call on the batch of the current thread. -/
theorem balanced_onThread {call : Raw.Action} (is : action.onThread s = some call)
    (small : s < cfg.slots) (unique : Raw.UniqueAccess raw t s) :
    Raw.Balanced cfg raw (t, call) := by
  cases action with
  | retire | reserve =>
    cases is
    exact balanced_of_access ⟨small, unique⟩ (by simp) (by simp)
  | _ => cases is

/-- A slot is created and entered while it is inactive. -/
theorem allowed_enter (small : s < cfg.slots) (inactive : ¬ raw.Active s) :
    Allowed cfg (Raw.Balanced cfg) t [.create s, .enter s] raw := by
  refine ⟨balanced_of_access small (by simp) (by simp), fun raw' created => ?_⟩
  refine Allowed.one ⟨⟨created_self created, by simp⟩, ?_⟩
  rintro v ⟨⟩
  by_contra active
  exact inactive ((active_step created).mp active)

/-- The contract lemma: the raw calls of a lawful step keep the contract of the raw collector. -/
theorem Planned.allowed (planned : Planned cfg st t action calls next) (owners : Owners st)
    (activity : Activity st) (housed : Housed cfg st) (lawful : Lawful cfg st (t, action)) :
    Allowed cfg (Raw.Balanced cfg) t calls st.raw := by
  have usable : ∀ {s}, st.thread t = some s ∨ (st.Owned s ∧ st.locked s = false) →
      Raw.UniqueAccess st.raw t s := fun mine => housed.unique owners lawful.apart mine
  -- A call that only needs the reservation of a live guard.
  have marked : ∀ {g : Guard}, g ∈ st.live →
      Allowed cfg (Raw.Balanced cfg) t [.refresh g.slot] st.raw ∧
        Allowed cfg (Raw.Balanced cfg) t [.leave g.slot] st.raw := by
    intro g member
    have there : g.slot ∈ st.raw.created := housed.present g member
    exact ⟨.one (balanced_of_access there (by simp) (by simp)),
      .one (balanced_of_access there (by simp) (by simp))⟩
  cases planned with
  | nothing | current | refusedLocal | refusedOwned | finish | forget | exit => trivial
  | @enterLocal alloc s mine =>
    have small : s < cfg.slots := housed.bounded s (owners.thread_live mine)
    split
    · rename_i first
      refine allowed_enter small fun active => ?_
      rcases (activity.active s).mp active with counted | owned
      · omega
      · exact owners.thread_unowned mine owned
    · exact .one (balanced_of_access small (by simp) (by simp))
  | @enterOwned alloc reserved s ids created room =>
    refine allowed_enter (createThread_spec owners.parts created).1 fun active => ?_
    have zero : st.guards s = 0 := lawful.fresh alloc reserved s ids rfl created room
    rcases (activity.active s).mp active with counted | owned
    · omega
    · exact owners.fresh_unowned created owned
  | @refreshLocal g member =>
    split
    · exact (marked member).1
    · trivial
  | refreshOwned member => exact (marked member).1
  | dropLocal member =>
    split
    · exact (marked member).2
    · trivial
  | dropOwned member => exact (marked member).2
  | @batchLocal action g call is member kind =>
    have mine := housed.homes g member t kind
    exact .one (balanced_onBatch is (housed.bounded _ (owners.thread_live mine)) (usable (.inl mine)))
  | @batchOwned action g call is member kind free =>
    have owned : st.Owned g.slot := ⟨g, List.mem_append_left _ member, kind, rfl⟩
    have inUse := owners.inUse g.slot (List.mem_append_right _ (List.mem_append_left _ owned.listed))
    exact .one (balanced_onBatch is (housed.bounded _ inUse) (usable (.inr ⟨owned, free⟩)))
  | access => exact .one (balanced_of_access trivial (by simp) (by simp))
  | thread is mine =>
    exact .one (balanced_onThread is (housed.bounded _ (owners.thread_live mine)) (usable (.inl mine)))
  | reclaimAll =>
    obtain ⟨idle, clear⟩ := lawful.alone rfl
    refine .one ⟨⟨fun s t' other f member => ?_, fun _ => clear⟩, by simp⟩
    rw [idle t' other] at member
    cases member
  | inner is =>
    cases action with
    | ret | panic | advance | skip =>
      cases is
      exact .one (balanced_of_access trivial (by simp) (by simp))
    | _ => cases is

/-- A call on a batch is one of user code, and returns at once or adds to the stack. -/
theorem stack_scans {call : Raw.Action} (ran : Raw.step cfg raw (t, call) = .ok raw')
    (scans : call.scans = some s) : Raw.userLevel (raw.stack t) = true ∧
      (raw'.stack t = raw.stack t ∨ ∃ f, raw'.stack t = f :: raw.stack t) := by
  obtain ⟨raw₁, moved, rfl⟩ := Raw.step_move ran
  have called : ∀ {f : Raw.Frame} {raw₂ : Raw.State}, raw₂.stack t = f :: raw.stack t →
      raw₂.stack t = raw.stack t ∨ ∃ f, raw₂.stack t = f :: raw.stack t :=
    fun stack => .inr ⟨_, stack⟩
  cases moved with
  | refused user prep | pushed user prep => exact ⟨user, .inl (congrFun prep.same.1 t)⟩
  | immediate user prep | filled user prep =>
    exact ⟨user, called ((Function.update_self ..).trans
      (congrArg (List.cons _) (congrFun prep.same.1 t)))⟩
  | flushNone user => exact ⟨user, .inl rfl⟩
  | flush user => exact ⟨user, called (Function.update_self ..)⟩
  | _ => cases scans

/-- User code runs while its thread scans nothing. -/
theorem no_scan {f : Raw.Frame} (inv : Raw.Inv cfg raw) (user : Raw.userLevel (raw.stack t) = true)
    (member : f ∈ raw.stack t) : f.scanSlot = none := by
  have leaf := (inv.tops t).of_userLevel user f member
  cases f with
  | scan => cases leaf
  | _ => rfl

/-- A step inside a call keeps the call of a scan where it is. -/
theorem scan_length {call : Raw.Action} {f : Raw.Frame} (inv : Raw.Inv cfg raw)
    (ran : Raw.step cfg raw (t, call) = .ok raw')
    (member : f ∈ raw'.stack t) (is : f.scanSlot = some s) :
    (raw.stack t).length ≤ (raw'.stack t).length := by
  obtain ⟨raw₁, moved, rfl⟩ := Raw.step_move ran
  have tops := inv.tops t
  cases stack : raw.stack t with
  | nil => exact Nat.zero_le _
  | cons k below =>
    rw [stack] at tops
    -- A scan never lies below another call.
    have upper : f ∉ below := by
      intro inside
      have leaf := tops f inside
      cases f with
      | scan => cases leaf
      | _ => cases is
    have mine := moved.stack_mine
    rw [stack, List.tail_cons] at mine
    rcases mine with ⟨fs, eq⟩ | suffix
    · have member' : f ∈ fs ++ below := eq ▸ member
      have inside := (List.mem_append.mp member').resolve_right upper
      have positive := List.length_pos_of_mem inside
      show _ ≤ (raw₁.stack t).length
      rw [eq, List.length_append, List.length_cons]
      omega
    · exact absurd (suffix.mem member) upper

/-- Looking up a key that was not filtered out. -/
theorem lookup_filter {threads : List (Tid × SlotId)} (other : t' ≠ t) :
    (threads.filter (·.1 ≠ t)).lookup t' = threads.lookup t' := by
  induction threads with
  | nil => rfl
  | cons entry rest ih =>
    obtain ⟨key, value⟩ := entry
    rw [List.filter_cons]
    split
    · rw [List.lookup_cons, List.lookup_cons, ih]
    · rename_i gone
      obtain rfl : key = t := by simpa using gone
      have differ : (t' == key) = false := by simpa using other
      rw [ih, List.lookup_cons, differ]

/-- Threads keep their IDs while another thread acts. -/
theorem Planned.thread_other (planned : Planned cfg st t action calls next) (other : t' ≠ t) :
    next.thread t' = st.thread t' := by
  cases planned with
  | current =>
    have differ : (t' == t) = false := by simpa using other
    simp only [State.thread, List.lookup_cons, differ]
  | exit => exact lookup_filter other
  | _ => rfl

/-- A thread that has an ID keeps it until it exits. -/
theorem Planned.thread_kept (planned : Planned cfg st t action calls next)
    (mine : st.thread t = some s) (stays : ∀ reserved, action ≠ .exit reserved) :
    next.thread t = some s := by
  cases planned with
  | current absent =>
    rw [absent] at mine
    cases mine
  | @exit reserved => exact absurd rfl (stays reserved)
  | _ => exact mine

/-- IDs in use are those of the table. -/
theorem Planned.bounded (planned : Planned cfg st t action calls next) (owners : Owners st)
    (bounded : ∀ s ∈ st.ids.live, s < cfg.slots) : ∀ s ∈ next.ids.live, s < cfg.slots := by
  -- A new ID is below the bound, and an ID that is handed back leaves the others.
  have taken : ∀ {s : SlotId} {ids : Usage}, createThread cfg st.ids = some (s, ids) →
      ∀ v ∈ ids.live, v < cfg.slots := by
    intro s ids created v member
    obtain ⟨small, _, live, _⟩ := createThread_spec owners.parts created
    rw [live] at member
    rcases List.mem_cons.mp member with rfl | old
    · exact small
    · exact bounded v old
  cases planned with
  | current _ created => exact taken created
  | enterOwned created => exact taken created
  | refusedOwned created =>
    exact fun v member => taken created v (List.mem_of_mem_erase member)
  | finish | exit => exact fun v member => bounded v (List.mem_of_mem_erase member)
  | _ => exact bounded

/-- Local guards stay with the slots of their threads. -/
theorem Planned.homes (planned : Planned cfg st t action calls next) (housed : Housed cfg st)
    (lawful : Lawful cfg st (t, action)) :
    ∀ g ∈ next.live, ∀ t', g.kind = .localTo t' → next.thread t' = some g.slot := by
  -- A guard that was there before: its thread is another one, or has not exited.
  have old : ∀ g ∈ st.live, ∀ t', g.kind = .localTo t' → next.thread t' = some g.slot := by
    intro g member t' kind
    have home := housed.homes g member t' kind
    by_cases mine : t' = t
    · subst mine
      refine planned.thread_kept home fun reserved is => ?_
      exact lawful.exits reserved is g member kind
    · rw [planned.thread_other mine]
      exact home
  intro g member t' kind
  cases planned with
  | @enterLocal alloc s mine =>
    rcases List.mem_cons.mp member with rfl | before
    · cases kind
      exact mine
    · exact old g before t' kind
  | enterOwned =>
    rcases List.mem_cons.mp member with rfl | before
    · cases kind
    · exact old g before t' kind
  | dropLocal | dropOwned | forget => exact old g (List.mem_of_mem_erase member) t' kind
  | _ => exact old g member t' kind

/-- Guards are created on slots whose reservation is there. -/
theorem Planned.present (planned : Planned cfg st t action calls next) (housed : Housed cfg st)
    (called : runCalls cfg t calls st.raw = .ok raw) : ∀ g ∈ next.live, g.slot ∈ raw.created := by
  have old : ∀ g ∈ st.live, g.slot ∈ raw.created :=
    fun g member => created_runCalls called _ (housed.present g member)
  -- The first call creates the reservation, and no later one removes it.
  have first : ∀ {s rest}, calls = .create s :: rest → s ∈ raw.created := by
    rintro s rest rfl
    obtain ⟨mid, created, ran⟩ := runCalls_cons called
    exact created_runCalls ran _ (created_self created)
  intro g member
  cases planned with
  | enterLocal | enterOwned =>
    rcases List.mem_cons.mp member with rfl | before
    · exact first rfl
    · exact old g before
  | dropLocal | dropOwned | forget => exact old g (List.mem_of_mem_erase member)
  | _ => exact old g member

/-- Guards whose slots are locked are neither dropped nor leaked. -/
theorem Planned.locked (planned : Planned cfg st t action calls next) (housed : Housed cfg st) :
    ∀ l ∈ next.locks, ∃ g ∈ next.live, g.kind = .owned ∧ g.slot = l.slot := by
  intro l member
  -- A guard other than the one that goes is still there.
  have kept : ∀ {gone : Guard}, (gone.kind = .owned → st.locked gone.slot = false) → l ∈ st.locks →
      ∃ g ∈ st.live.erase gone, g.kind = .owned ∧ g.slot = l.slot := by
    intro gone free held
    obtain ⟨g, live, kind, same⟩ := housed.locked l held
    refine ⟨g, (List.mem_erase_of_ne ?_).mpr live, kind, same⟩
    rintro rfl
    have unlocked := free kind
    rw [State.locked, List.any_eq_false] at unlocked
    exact unlocked l held (by simpa using same.symm)
  cases planned with
  | enterLocal | enterOwned =>
    obtain ⟨g, live, kind, same⟩ := housed.locked l member
    exact ⟨g, List.mem_cons_of_mem _ live, kind, same⟩
  | dropLocal _ kind => exact kept (by simp [kind]) member
  | dropOwned _ _ free => exact kept (fun _ => free) member
  | forget _ _ free => exact kept (fun _ => free) member
  | @batchOwned action g call is live kind =>
    rcases List.mem_cons.mp member with rfl | old
    · exact ⟨g, live, kind, rfl⟩
    · exact housed.locked l old
  | _ => exact housed.locked l member

/-- A plan gives up no lock. -/
theorem Planned.locks_kept (planned : Planned cfg st t action calls next) :
    ∀ l ∈ st.locks, l ∈ next.locks := by
  intro l member
  cases planned with
  | batchOwned => exact List.mem_cons_of_mem _ member
  | _ => exact member

/-- Which actions start a scan, and by what right. -/
theorem Planned.begins {call : Raw.Action} (planned : Planned cfg st t action calls next)
    (housed : Housed cfg st) (made : call ∈ calls) (scans : call.scans = some s) :
    calls = [call] ∧ (st.thread t = some s ∨
      ⟨t, (st.raw.stack t).length, s⟩ ∈ next.locks) := by
  -- The slot of a call on a batch is the slot of its guard.
  have slotOf : ∀ {g : Guard} {call : Raw.Action}, action.onBatch = some (g, call) →
      call.scans = some s → g.slot = s := by
    intro g call is scans
    cases action with
    | deferRetire | flush =>
      cases is
      exact Option.some.inj scans
    | reserveRetire =>
      cases is
      cases scans
    | _ => cases is
  have threadOf : ∀ {v : SlotId} {call : Raw.Action}, action.onThread v = some call →
      call.scans = some s → v = s := by
    intro v call is scans
    cases action with
    | retire =>
      cases is
      exact Option.some.inj scans
    | reserve =>
      cases is
      cases scans
    | _ => cases is
  cases planned with
  | @batchLocal action g call' is member kind =>
    cases List.mem_singleton.mp made
    obtain rfl := slotOf is scans
    exact ⟨rfl, .inl (housed.homes g member t kind)⟩
  | @batchOwned action g call' is =>
    cases List.mem_singleton.mp made
    obtain rfl := slotOf is scans
    exact ⟨rfl, .inr List.mem_cons_self⟩
  | thread is mine =>
    cases List.mem_singleton.mp made
    obtain rfl := threadOf is scans
    exact ⟨rfl, .inl mine⟩
  | enterLocal =>
    split at made
    · rcases List.mem_cons.mp made with rfl | later
      · cases scans
      · cases List.mem_singleton.mp later
        cases scans
    · cases List.mem_singleton.mp made
      cases scans
  | enterOwned =>
    rcases List.mem_cons.mp made with rfl | later
    · cases scans
    · cases List.mem_singleton.mp later
      cases scans
  | refreshLocal | dropLocal =>
    split at made
    · cases List.mem_singleton.mp made
      cases scans
    · cases made
  | refreshOwned | dropOwned | access | reclaimAll =>
    cases List.mem_singleton.mp made
    cases scans
  | inner is =>
    cases List.mem_singleton.mp made
    cases action with
    | ret | panic | advance | skip =>
      cases is
      cases scans
    | _ => cases is
  | nothing | current | refusedLocal | refusedOwned | finish | forget | exit => cases made

/-- A thread that exits calls nothing. -/
theorem Planned.calls_exit {reserved : Bool}
    (planned : Planned cfg st t (.exit reserved) calls next) : calls = [] := by
  cases planned with
  | nothing | exit => rfl
  | batchLocal is | batchOwned is | thread is | inner is => cases is

/-- A step inside a call is one raw call. -/
theorem Planned.inner_call (planned : Planned cfg st t action calls next)
    (inside : action.inner ≠ none) : ∃ call, calls = [call] := by
  cases planned with
  | nothing is => rcases is with rfl | ⟨reserved, rfl⟩ <;> exact absurd rfl inside
  | batchLocal | batchOwned | thread | inner => exact ⟨_, rfl⟩
  | _ => exact absurd rfl inside

/-- Scans are made by right, after a step as before it. -/
theorem Planned.scans (planned : Planned cfg st t action calls next) (housed : Housed cfg st)
    (inv : Raw.Inv cfg st.raw) (settled : Settled st) (free : blocked st t action = false)
    (called : runCalls cfg t calls st.raw = .ok raw) :
    ∀ t' s, (∃ f ∈ raw.stack t', f.scanSlot = some s) → next.thread t' = some s ∨
      ∃ l ∈ (settle { next with raw := raw } t action).locks, l.thread = t' ∧ l.slot = s := by
  rintro t' s ⟨f, member, is⟩
  -- A lock is kept when it is another thread's, or when its call has not returned.
  have kept : ∀ {l : Lock}, l ∈ next.locks → l.slot = s → l.thread = t' →
      (t' ≠ t ∨ l.height < (raw.stack t).length) →
      ∃ l ∈ (settle { next with raw := raw } t action).locks, l.thread = t' ∧ l.slot = s := by
    rintro l held slot rfl still
    exact ⟨l, List.mem_filter.mpr ⟨held, by simpa using still⟩, rfl, slot⟩
  by_cases mine : t' = t
  · subst mine
    rcases scanSlot_runCalls called member is with old | ⟨call, made, scans⟩
    · -- The scan was in progress, so this is a step of it.
      have inside : action.inner ≠ none := by
        intro outside
        obtain ⟨g, there, same⟩ := old
        rw [no_scan inv (user_of_free free outside) there] at same
        cases same
      obtain ⟨call, rfl⟩ := planned.inner_call inside
      have taller := scan_length inv (runCalls_one called) member is
      rcases housed.scans t' s old with home | ⟨l, held, whose, slot⟩
      · refine .inl (planned.thread_kept home ?_)
        rintro reserved rfl
        exact inside rfl
      · have low := settled l held
        rw [whose] at low
        exact .inr (kept (planned.locks_kept l held) slot whose (.inr (by omega)))
    · obtain ⟨rfl, home | held⟩ := planned.begins housed made scans
      · refine .inl (planned.thread_kept home ?_)
        rintro reserved rfl
        cases planned.calls_exit
      · -- The call of the scan stands above the height of the lock.
        obtain ⟨user, same | ⟨k, longer⟩⟩ := stack_scans (runCalls_one called) scans
        · rw [same] at member
          rw [no_scan inv user member] at is
          cases is
        · refine .inr (kept held rfl rfl (.inr ?_))
          rw [longer]
          exact Nat.lt_succ_self _
  · rw [stack_runCalls mine called] at member
    rw [planned.thread_other mine]
    rcases housed.scans t' s ⟨f, member, is⟩ with home | ⟨l, held, whose, slot⟩
    · exact .inl home
    · exact .inr (kept (planned.locks_kept l held) slot whose (.inl mine))

/-- The step lemma: lawful steps keep everybody in their own slots. -/
theorem Housed.step {move : Tid × Action} (housed : Housed cfg st) (owners : Owners st)
    (inv : Raw.Inv cfg st.raw) (settled : Settled st) (lawful : Lawful cfg st move)
    (ran : Guards.step cfg st move = .ok st') : Housed cfg st' := by
  obtain ⟨calls, next, raw, free, _, planned, called, rfl⟩ := step_planned ran
  refine ⟨planned.bounded owners housed.bounded, planned.homes housed lawful,
    planned.present housed called, ?_, planned.scans housed inv settled free called⟩
  intro l member
  exact planned.locked housed l (List.mem_filter.mp member).1

/-- What holds in every state of a lawful run. -/
structure Kept (cfg : Config) (st : State) : Prop where
  housed : Housed cfg st
  /-- The raw collector is used as its contract asks. -/
  raw : Reachable (Raw.step cfg) (Raw.Balanced cfg) Raw.State.init st.raw

/-- A balanced run of the raw collector is a disciplined one. -/
theorem Kept.sound (kept : Kept cfg st) : Raw.Sound cfg st.raw :=
  Raw.reachable_sound (kept.raw.mono fun _ _ _ balanced => balanced.1)

/-- A lawful run gives no owned guard a slot that counts local guards. -/
theorem lawful_fresh (run : Reachable (step cfg) (Lawful cfg) State.init st) :
    Reachable (step cfg) (OwnedFresh cfg) State.init st :=
  run.mono fun _ _ _ lawful => lawful.fresh

/-- The run lemma: a lawful run of the guards is a run of the raw collector under its contract. -/
theorem reachable_kept (run : Reachable (step cfg) (Lawful cfg) State.init st) : Kept cfg st := by
  have base : Kept cfg State.init := by
    refine ⟨⟨?_, ?_, ?_, ?_, ?_⟩, .refl⟩
    · intro s member
      cases member
    · intro g member
      cases member
    · intro g member
      cases member
    · intro l member
      cases member
    · rintro t s ⟨f, member, _⟩
      cases member
  -- A lawful step makes only calls that the raw collector allows.
  refine run.invariant (Kept cfg) base ?_
  intro st move st' before kept lawful ran
  have owners := reachable_owners before
  have activity := reachable_activity (lawful_fresh before)
  have after := kept.housed.step owners kept.sound.inv (reachable_settled before) lawful ran
  obtain ⟨calls, next, raw, _, _, planned, called, rfl⟩ := step_planned ran
  exact ⟨after, (planned.allowed owners activity kept.housed lawful).run called kept.raw⟩

/-- Threads beyond the first `n` make no calls. -/
def Few (n : Nat) (st : State) : Prop := ∀ t, n ≤ t → st.raw.stack t = []

/-- The rules for a step of a run without `reclaim_all`, decided for the first `n` threads. -/
def lawfulCheck (cfg : Config) (n : Nat) (st : State) (move : Tid × Action) : Bool :=
  decide (move.1 < n) && ownedFreshCheck cfg st move && decide (move.2 ≠ .reclaimAll) &&
    (List.range n).all (fun t => decide (t = move.1) ||
      (st.raw.stack t).all fun f => decide (f.iteration = none)) &&
    (decide (∀ g ∈ st.live, g.kind ≠ .localTo move.1) ||
      decide (move.2 ≠ .exit true ∧ move.2 ≠ .exit false))

/-- A step that passes the check is lawful. -/
theorem lawful_of_check {n : Nat} {move : Tid × Action} (few : Few n st)
    (checked : lawfulCheck cfg n st move = true) : Lawful cfg st move := by
  simp only [lawfulCheck, Bool.and_eq_true, Bool.or_eq_true, decide_eq_true_eq,
    List.all_eq_true, List.mem_range] at checked
  obtain ⟨⟨⟨⟨_, fresh⟩, outside⟩, plain⟩, home⟩ := checked
  -- What is checked of the first threads holds of all, as the others are idle.
  refine ⟨ownedFresh_of_check fresh, fun t' other f member => ?_, fun is => absurd is outside, ?_⟩
  · by_cases small : t' < n
    · exact (plain t' small).resolve_left other f member
    · rw [few t' (Nat.le_of_not_lt small)] at member
      cases member
  · intro reserved is
    refine home.resolve_right fun stays => ?_
    cases reserved with
    | true => exact stays.1 is
    | false => exact stays.2 is

/-- Threads that make no calls go on making none. -/
theorem Few.step {n : Nat} {move : Tid × Action} (few : Few n st) (small : move.1 < n)
    (ran : step cfg st move = .ok st') : Few n st' := by
  obtain ⟨calls, next, raw, _, _, _, called, rfl⟩ := step_planned ran
  intro t large
  have other : t ≠ move.1 := Nat.ne_of_gt (Nat.lt_of_lt_of_le small large)
  exact (stack_runCalls other called).trans (few t large)

/-- A computed run that passes the check is a run. -/
theorem reachable_lawful_of_check (cfg : Config) (n : Nat)
    (allowed : State → Tid × Action → Prop) (approve : State → Tid × Action → Bool)
    (final : State → Bool) (moves : List (Tid × Action))
    (sound : ∀ st move, Lawful cfg st move → approve st move = true → allowed st move)
    (checked : checkRun (step cfg) (fun st move => lawfulCheck cfg n st move && approve st move)
      final State.init moves = true) :
    ∃ st, Reachable (step cfg) allowed State.init st ∧ Few n st ∧ final st = true := by
  refine Reachable.of_checkRun ?_ ?_ (fun _ _ => rfl) checked
  · intro st move few approved
    rw [Bool.and_eq_true] at approved
    exact sound st move (lawful_of_check few approved.1) approved.2
  · intro st move st' few approved ran
    simp only [Bool.and_eq_true, lawfulCheck, decide_eq_true_eq] at approved
    exact few.step approved.1.1.1.1.1 ran

end Seize.Guards
