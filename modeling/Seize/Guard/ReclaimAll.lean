import Seize.Guard.Cascade
import Seize.Guard.Failure
import Seize.Raw.Sweep

/-!
What a call of `reclaim_all` leaves behind.

Its reclaimers may retire more objects, into the local batch of their own thread. The iteration
passes that batch only once.
-/

namespace Seize.Guards

open Seize.Raw (Config SlotId Tid Ptr Reclaim OnSlot Swept Tally)

variable {cfg : Config} {script : Script} {t : Tid} {k : SlotId} {n : Nat} {c c' : Cascade}
  {st st' : State} {action : Action} {calls : List Raw.Action} {next : State}
  {raw raw' : Raw.State}

/-- No reclaimer flushes. -/
def Flushless (script : Script) : Prop := ∀ p f, .flush ∉ script p f

/-- Retirements that a step of a cascade accepts when its iteration has passed a slot. -/
def Cascade.late (t : Tid) (k : SlotId) (c c' : Cascade) : Nat :=
  Raw.late t k c.guards.raw c'.guards.raw

/-- Retirements that several steps of a cascade accept when its iteration has passed a slot. -/
def lateAlong (cfg : Config) (script : Script) (t : Tid) (k : SlotId) (path : List Action)
    (c : Cascade) : Nat :=
  runSum (Cascade.step cfg script t) (Cascade.late t k) path c

/--
A thread inside `reclaim_all`, seen from a slot that is its own if it has one.

Nobody else is inside a call. The count needs reclaimers that do not flush.
-/
structure Sweeping (cfg : Config) (script : Script) (t : Tid) (k : SlotId) (n : Nat)
    (c : Cascade) : Prop where
  cascading : Cascading cfg t c
  others : ∀ t', t' ≠ t → c.guards.raw.stack t' = []
  swept : Swept t k c.guards.raw
  counted : Flushless script → k < cfg.slots → 0 < cfg.batchSize →
    (∀ commands ∈ c.todo, .flush ∉ commands) ∧ Tally cfg t k n c.guards.raw

/-- What a step of a cascade calls: nothing, a step of the innermost call, or a command. -/
theorem Planned.sorts {todo : List (List Command)} (taken : Taken c t action todo)
    (planned : Planned cfg c.guards t action calls next) :
    calls = [] ∨ (∃ call, action.inner = some call ∧ calls = [call]) ∨
      ∃ command commands rest, action.command t = some command ∧ c.guards.raw.stack t ≠ [] ∧
        c.todo = commands :: rest ∧ command ∈ commands := by
  -- A step goes on with a call, follows a script, or makes no call.
  cases taken with
  | advance | skip | ret => exact .inr (.inl ⟨_, rfl, (planned.inside rfl).1⟩)
  | command is inside listed member => exact .inr (.inr ⟨_, _, _, is, inside, listed, member⟩)
  | finish =>
    cases planned with
    | nothing | finish => exact .inl rfl
    | batchLocal is | batchOwned is | thread is | inner is => cases is
  | current =>
    cases planned with
    | nothing | current => exact .inl rfl
    | batchLocal is | batchOwned is | thread is | inner is => cases is

/-- The calls of a command work on the slot of the thread. -/
theorem Planned.commandOn {command : Command} (planned : Planned cfg st t action calls next)
    (is : action.command t = some command) (housed : Housed cfg st)
    (mine : ∀ s, st.thread t = some s → s = k) :
    ∀ call ∈ calls, OnSlot k call ∧ ((∃ v, call = .flush v) → command = .flush) := by
  cases planned with
  | refusedLocal => simp
  | enterLocal own =>
    obtain rfl := mine _ own
    intro call made
    rcases List.mem_cons.mp made with rfl | later
    · simp [OnSlot]
    · split at later
      · obtain rfl := List.mem_singleton.mp later
        simp [OnSlot]
      · cases later
  | @refreshLocal g member kind | @dropLocal g member kind =>
    have here := mine _ (housed.homes g member t kind)
    intro call made
    split at made
    · obtain rfl := List.mem_singleton.mp made
      simp [OnSlot, here]
    · cases made
  | @batchLocal action g call onBatch member kind =>
    have here := mine _ (housed.homes g member t kind)
    intro call' made
    obtain rfl := List.mem_singleton.mp made
    cases action <;> cases onBatch <;> simp_all [OnSlot, Action.command]
  | @thread action s call onThread own =>
    obtain rfl := mine _ own
    intro call' made
    obtain rfl := List.mem_singleton.mp made
    cases action <;> cases onThread <;> simp [OnSlot]
  -- A reclaimer uses no owned guards.
  | refreshOwned _ kind | dropOwned _ kind => simp [Action.command, kind] at is
  | @batchOwned action g call onBatch member kind =>
    cases action <;> cases onBatch <;> simp [Action.command, kind] at is
  | inner inside => cases action <;> first | cases inside; done | cases is
  | nothing same => rcases same with rfl | ⟨_, rfl⟩ <;> cases is
  | _ => cases is

/-- The calls of a cascade work on the slot of its thread, and a flush is a command. -/
theorem Planned.onSlot {todo : List (List Command)} (taken : Taken c t action todo)
    (planned : Planned cfg c.guards t action calls next) (housed : Housed cfg c.guards)
    (mine : ∀ s, c.guards.thread t = some s → s = k) :
    ∀ call ∈ calls, OnSlot k call ∧
      ((∃ v, call = .flush v) → ∃ commands ∈ c.todo, .flush ∈ commands) := by
  rcases planned.sorts taken with rfl | ⟨call, is, rfl⟩ | ⟨command, commands, rest, is, _, todo, member⟩
  · simp
  · -- A step inside the innermost call names no slot.
    intro call' made
    obtain rfl := List.mem_singleton.mp made
    have returns := taken.plain.2.1
    cases action <;> cases is <;> first | exact absurd rfl returns | simp [OnSlot]
  · intro call made
    obtain ⟨own, flushes⟩ := planned.commandOn is housed mine call made
    refine ⟨own, fun flush => ⟨commands, todo ▸ List.mem_cons_self, ?_⟩⟩
    exact flushes flush ▸ member

/-- A thread that continues a call is inside one. -/
theorem inside_call {call : Raw.Action} (is : action.inner = some call)
    (ran : Raw.step cfg raw (t, call) = .ok raw') : raw.stack t ≠ [] := by
  intro empty
  cases action <;> cases is <;>
    simp [Raw.step, Raw.act, Raw.advance, Raw.skip, empty, Except.map] at ran

/-- One raw call while `reclaim_all` is in progress, which fills one slot at most. -/
theorem swept_call {call : Raw.Action}
    (reached : Reachable (Raw.step cfg) (Peaceful cfg) Raw.State.init raw)
    (absent : Raw.Absent raw) (fills : Raw.Fills k call) (inside : raw.stack t ≠ [])
    (swept : Swept t k raw)
    (ran : Raw.step cfg raw (t, call) = .ok raw') : Swept t k raw' := by
  have ranged : Raw.Ranged cfg raw :=
    Raw.reachable_ranged (reached.mono fun _ _ _ peaceful => peaceful.balanced.1.1)
  obtain ⟨raw₁, moved, rfl⟩ := Raw.step_move ran
  exact (moved.swept (reachable_consistent reached).sound.sentinel absent ranged fills inside
    swept).tick

/-- One raw call while `reclaim_all` is in progress, which uses one slot at most. -/
theorem tally_call {call : Raw.Action}
    (reached : Reachable (Raw.step cfg) (Peaceful cfg) Raw.State.init raw)
    (absent : Raw.Absent raw) (own : OnSlot k call) (flushless : ∀ v, call ≠ .flush v)
    (small : k < cfg.slots) (sized : 0 < cfg.batchSize) (inside : raw.stack t ≠ [])
    (swept : Swept t k raw) (tally : Tally cfg t k n raw)
    (ran : Raw.step cfg raw (t, call) = .ok raw') :
    Tally cfg t k (n + Raw.late t k raw raw') raw' := by
  have consistent := reachable_consistent reached
  obtain ⟨raw₁, acted, rfl⟩ := Raw.step_acts ran
  exact ((Raw.act_move acted).tally acted consistent.sound.inv consistent.sound.sentinel absent
    sized small own flushless inside swept tally).tick

/-- The raw calls of a cascade: none, one, or those of a first guard. -/
theorem Planned.shape {todo : List (List Command)} (taken : Taken c t action todo)
    (planned : Planned cfg c.guards t action calls next) :
    calls = [] ∨ (∃ call, calls = [call]) ∨ ∃ s, calls = [.create s, .enter s] := by
  rcases planned.sorts taken with none_ | ⟨call, _, one⟩ | ⟨command, _, _, is, _⟩
  · exact .inl none_
  · exact .inr (.inl ⟨call, one⟩)
  · obtain ⟨_, _, none_ | ⟨call, one, _⟩ | ⟨s, two, _⟩⟩ := planned.carries (fun _ _ => 0) is
    · exact .inl none_
    · exact .inr (.inl ⟨call, one⟩)
    · exact .inr (.inr ⟨s, two⟩)

/-- The raw collector is called only inside the call that began a cascade. -/
theorem Planned.within {todo : List (List Command)} (taken : Taken c t action todo)
    (planned : Planned cfg c.guards t action calls next)
    (called : runCalls cfg t calls c.guards.raw = .ok raw) (some_ : calls ≠ []) :
    c.guards.raw.stack t ≠ [] := by
  rcases planned.sorts taken with none_ | ⟨call, is, rfl⟩ | ⟨_, _, _, _, inside, _⟩
  · exact absurd none_ some_
  · exact inside_call is (runCalls_one called)
  · exact inside

/-- Creating or entering a reservation is no event. -/
theorem log_enter {s : SlotId} {call : Raw.Action} (is : call = .create s ∨ call = .enter s)
    (ran : Raw.step cfg raw (t, call) = .ok raw') : raw'.log = raw.log := by
  obtain ⟨raw₁, moved, rfl⟩ := Raw.step_move ran
  rcases is with rfl | rfl
  · cases moved <;> rfl
  · cases moved with
    | enter => rfl

/-- The raw calls of a step while `reclaim_all` is in progress, which fill one slot at most. -/
theorem swept_calls (reached : Reachable (Raw.step cfg) (Peaceful cfg) Raw.State.init raw)
    (absent : Raw.Absent raw) (allowed : Allowed cfg (Peaceful cfg) t calls raw)
    (fills : ∀ call ∈ calls, Raw.Fills k call)
    (shape : calls = [] ∨ (∃ call, calls = [call]) ∨ ∃ s, calls = [.create s, .enter s])
    (inside : calls ≠ [] → raw.stack t ≠ []) (swept : Swept t k raw)
    (ran : runCalls cfg t calls raw = .ok raw') : Swept t k raw' := by
  -- There is one call at most, apart from the two of `enter`.
  rcases shape with rfl | ⟨call, rfl⟩ | ⟨s, rfl⟩
  · cases ran
    exact swept
  · exact swept_call reached absent (fills call List.mem_cons_self) (inside (by simp)) swept
      (runCalls_one ran)
  · obtain ⟨mid, created, ran⟩ := runCalls_cons ran
    have within := inside (by simp)
    have swept' := swept_call reached absent (fills _ List.mem_cons_self) within swept created
    exact swept_call (reached.tail allowed.1 created) (absent.step created) (fills _ (by simp))
      (stack_enter (.inl rfl) created ▸ within) swept' (runCalls_one ran)

/-- The raw calls of a step while `reclaim_all` is in progress, which use one slot at most. -/
theorem tally_calls (reached : Reachable (Raw.step cfg) (Peaceful cfg) Raw.State.init raw)
    (absent : Raw.Absent raw) (allowed : Allowed cfg (Peaceful cfg) t calls raw)
    (own : ∀ call ∈ calls, OnSlot k call) (flushless : ∀ v, .flush v ∉ calls)
    (shape : calls = [] ∨ (∃ call, calls = [call]) ∨ ∃ s, calls = [.create s, .enter s])
    (small : k < cfg.slots) (sized : 0 < cfg.batchSize) (inside : calls ≠ [] → raw.stack t ≠ [])
    (swept : Swept t k raw) (tally : Tally cfg t k n raw)
    (ran : runCalls cfg t calls raw = .ok raw') :
    Tally cfg t k (n + Raw.late t k raw raw') raw' := by
  rcases shape with rfl | ⟨call, rfl⟩ | ⟨s, rfl⟩
  · cases ran
    rwa [Raw.late_silent rfl]
  · refine tally_call reached absent (own call List.mem_cons_self) (fun v is => flushless v ?_) small
      sized (inside (by simp)) swept tally (runCalls_one ran)
    rw [is]
    exact List.mem_cons_self
  · -- A first guard creates the reservation and enters it, which retires nothing.
    obtain ⟨mid, created, ran⟩ := runCalls_cons ran
    have entered := runCalls_one ran
    have within := inside (by simp)
    have swept' := swept_call reached absent (own _ List.mem_cons_self).fills within swept created
    have first := tally_call reached absent (own _ List.mem_cons_self) (by simp) small sized within
      swept tally created
    have second := tally_call (reached.tail allowed.1 created) (absent.step created)
      (own _ (by simp)) (by simp) small sized (stack_enter (.inl rfl) created ▸ within) swept' first
        entered
    have log₁ := log_enter (.inl rfl) created
    have log₂ := log_enter (.inr rfl) entered
    rw [Raw.late_silent (log₂.trans log₁)]
    rwa [Raw.late_silent log₁, Raw.late_silent log₂] at second

/-- A command that no reclaimer makes is never left to do. -/
theorem Taken.without {todo : List (List Command)} {command : Command} (taken : Taken c t action todo)
    (never : ∀ p f, command ∉ script p f) (before : ∀ commands ∈ c.todo, command ∉ commands)
    (old new : List Raw.Frame) :
    ∀ commands ∈ newly script old new ++ todo, command ∉ commands := by
  -- A command comes from a script, or has been waiting.
  intro commands member
  rcases List.mem_append.mp member with opened | listed
  · obtain ⟨o, _, rfl⟩ := List.mem_map.mp opened
    exact never o.1 o.2
  · cases taken with
    | advance | skip | finish | current => exact before commands listed
    | ret => exact before commands (List.mem_of_mem_tail listed)
    | @command _ command' commands' rest _ _ todo =>
      rw [todo] at before
      rcases List.mem_cons.mp listed with rfl | later
      · exact fun made => before commands' List.mem_cons_self (List.mem_of_mem_erase made)
      · exact before commands (List.mem_cons_of_mem _ later)

/-- The step lemma, for a slot that is the thread's own after the step. -/
theorem Sweeping.step (sweeping : (∀ s, c.guards.thread t = some s → s = k) →
      Sweeping cfg script t k n c) (ran : c.step cfg script t action = .ok c')
    (mine' : ∀ s, c'.guards.thread t = some s → s = k) :
    Sweeping cfg script t k (n + Cascade.late t k c c') c' := by
  obtain ⟨todo, spent, stepped, listed⟩ := Cascade.step_inv ran
  have taken := Cascade.spend_taken spent
  -- The thread has kept the ID it had.
  have mine : ∀ s, c.guards.thread t = some s → s = k := by
    intro s own
    obtain ⟨_, _, _, _, _, planned, _, eq⟩ := step_planned stepped
    refine mine' s ?_
    rw [eq]
    exact planned.thread_kept own taken.plain.2.2.1
  have sweeping := sweeping mine
  have cascading := sweeping.cascading
  obtain ⟨lawfully, peacefully⟩ := reachable_peaceful cascading.run
  obtain ⟨calls, next, raw, _, planned, called, eq, allowed⟩ :=
    (cascading.calm taken).facts cascading.run stepped
  have own := planned.onSlot taken (reachable_kept lawfully).housed mine
  have inside := planned.within taken called
  have after : c'.guards.raw = raw := by rw [eq, settle]
  have absent := reachable_absent cascading.run
  have shape := planned.shape taken
  refine ⟨cascading.step ran, fun t' other => ?_, ?_, fun flushless small sized => ?_⟩
  · rw [after, stack_runCalls other called]
    exact sweeping.others t' other
  · rw [after]
    exact swept_calls peacefully absent allowed (fun call made => (own call made).1.fills) shape inside
      sweeping.swept called
  · obtain ⟨before, tally⟩ := sweeping.counted flushless small sized
    refine ⟨listed ▸ taken.without flushless before _ _, ?_⟩
    rw [Cascade.late, after]
    refine tally_calls peacefully absent allowed (fun call made => (own call made).1) ?_ shape small
      sized inside sweeping.swept tally called
    -- A flush would be a command that is still to be made.
    intro v made
    obtain ⟨commands, member, flushes⟩ := (own _ made).2 ⟨v, rfl⟩
    exact before commands member flushes

/-- The call of `reclaim_all` begins an iteration, and nothing else changes. -/
theorem reclaimAll_spec (script : Script) (idle : st.raw.stack t = [])
    (ran : Guards.step cfg st (t, .reclaimAll) = .ok st') :
    st'.raw.stack t = [.reclaimAll 0] ∧ (∀ t', t' ≠ t → st'.raw.stack t' = st.raw.stack t') ∧
      st'.raw.head = st.raw.head ∧ (Cascade.start script t st').todo = [] := by
  obtain ⟨calls, next, raw, _, planned, _, called, eq⟩ := step_planned ran
  cases planned
  obtain ⟨raw₁, moved, rfl⟩ := Raw.step_move (runCalls_one called)
  cases moved with
  | reclaimAll =>
    have stack : st'.raw.stack t = [.reclaimAll 0] := by
      rw [eq]
      exact (Function.update_self ..).trans (congrArg _ idle)
    refine ⟨stack, fun t' other => ?_, ?_, ?_⟩
    · rw [eq]
      exact Function.update_of_ne other ..
    · rw [eq]
      rfl
    · rw [Cascade.start, stack]
      rfl

/-- The call of `reclaim_all` begins a sweep, and no slot has been passed. -/
theorem Sweeping.start (run : Reachable (Guards.step cfg) (Calm cfg) State.init st)
    (calm : Calm cfg st (t, .reclaimAll)) (ran : Guards.step cfg st (t, .reclaimAll) = .ok st')
    (k : SlotId) : Sweeping cfg script t k 0 (Cascade.start script t st') := by
  obtain ⟨idle, inactive⟩ := calm.alone rfl
  obtain ⟨stack, others, heads, todo⟩ := reclaimAll_spec script (idle t) ran
  have front : Raw.behind k (st'.raw.stack t) = false := by
    rw [stack]
    rfl
  refine ⟨.start run (idle t) calm ran, fun t' other => (others t' other).trans (idle t'),
    .moves stack (by simp [Raw.Frame.iteration]) (fun _ _ passed => by cases passed),
    fun _ _ _ => ⟨by rw [todo]; simp, fun s on => ?_, fun _ => rfl, fun passed => ?_, fun passed => ?_,
      fun s cursor marked scans => ?_⟩⟩
  · refine absurd ?_ (inactive s)
    rwa [Raw.State.Active, ← heads]
  · exact absurd (front.symm.trans passed) (by simp)
  · exact absurd (front.symm.trans passed) (by simp)
  · rw [Cascade.start, stack] at scans
    cases scans

/-- The run lemma, for a slot that is the thread's own at the end. -/
theorem Sweeping.run {path : List Action} (run : Reachable (Guards.step cfg) (Calm cfg) State.init st)
    (calm : Calm cfg st (t, .reclaimAll)) (ran : Guards.step cfg st (t, .reclaimAll) = .ok st')
    (went : runAll (Cascade.step cfg script t) path (Cascade.start script t st') = .ok c)
    (mine : ∀ s, c.guards.thread t = some s → s = k) :
    Sweeping cfg script t k (lateAlong cfg script t k path (Cascade.start script t st')) c := by
  have kept := runAll_sum (Cascade.late t k) (fun n c =>
    (∀ s, c.guards.thread t = some s → s = k) → Sweeping cfg script t k n c)
    (fun _ _ _ _ before ran mine' => Sweeping.step before ran mine')
    (fun _ => Sweeping.start run calm ran k) went mine
  rwa [Nat.zero_add] at kept

/-- Afterwards nothing is in progress, and every slot is empty but that of the thread. -/
theorem Sweeping.slots {path : List Action}
    (run : Reachable (Guards.step cfg) (Calm cfg) State.init st)
    (calm : Calm cfg st (t, .reclaimAll)) (ran : Guards.step cfg st (t, .reclaimAll) = .ok st')
    (went : runAll (Cascade.step cfg script t) path (Cascade.start script t st') = .ok c)
    (returned : c.Returned t) :
    Cascading cfg t c ∧ (∀ t', c.guards.raw.stack t' = []) ∧
      ∀ s, c.guards.thread t ≠ some s → c.guards.raw.batch s = .null := by
  -- Some slot stands for that of the thread, also if it has none.
  have stands : ∀ s, c.guards.thread t ≠ some s →
      ∃ k, s ≠ k ∧ ∀ s', c.guards.thread t = some s' → s' = k := by
    intro s other
    cases own : c.guards.thread t with
    | none => exact ⟨s + 1, Nat.ne_of_lt (Nat.lt_succ_self s), by simp⟩
    | some k =>
      rw [own] at other
      exact ⟨k, fun same => other (by rw [same]), fun s' same => (Option.some.inj same).symm⟩
  obtain ⟨k₀, mine₀⟩ : ∃ k, ∀ s, c.guards.thread t = some s → s = k := by
    cases own : c.guards.thread t with
    | none => exact ⟨0, by simp⟩
    | some k => exact ⟨k, fun s same => (Option.some.inj same).symm⟩
  have sweeping := Sweeping.run run calm ran went mine₀
  refine ⟨sweeping.cascading, fun t' => ?_, fun s other => ?_⟩
  · by_cases same : t' = t
    · rw [same, returned.1]
    · exact sweeping.others t' same
  · obtain ⟨k, apart, mine⟩ := stands s other
    exact (Sweeping.run run calm ran went mine).swept.cleared s apart
      (by rw [returned.1, Raw.behind_nil])

/-- What waits in the batch of a slot has not been handed to its reclaimer. -/
theorem Consistent.waits (consistent : Consistent cfg raw) (some_ : 0 < Raw.pendingIn raw k) :
    ∃ rid p f, Raw.Event.retired rid p f ∈ raw.log ∧
      ∀ scanned, Raw.Event.reclaimed rid p f scanned ∉ raw.log := by
  have inv := consistent.sound.inv
  cases held : raw.batch k with
  | null | drop => simp [Raw.pendingIn, Raw.State.retirements, held] at some_
  | ptr b =>
    obtain ⟨batch, stored, pending⟩ := inv.slots k b held
    rw [Raw.pendingIn_ptr held stored] at some_
    -- The first entry of the batch is a live object.
    have found : Raw.objectAt raw.mem ⟨b, 0⟩ = some (batch.entries[0]).object := by
      rw [Raw.objectAt_eq (e := ⟨b, 0⟩) stored, List.getElem?_eq_getElem some_, Option.map_some]
    have live : Raw.Live raw ⟨b, 0⟩ (batch.entries[0]).object :=
      ⟨found, inv.unreached (e := ⟨b, 0⟩) stored (by simp [pending])⟩
    exact ⟨_, _, _, consistent.conserved.stored _ _ live,
      fun scanned => consistent.conserved.waiting _ _ _ _ scanned live⟩

/-- A batch that holds an object is not empty. -/
theorem Consistent.holds {e : Raw.EntryPtr} {object : Raw.Object} (held : raw.batch k = .ptr e.batch)
    (found : Raw.objectAt raw.mem e = some object) : 0 < Raw.pendingIn raw k := by
  obtain ⟨entry, read, _⟩ := Option.map_eq_some_iff.mp found
  obtain ⟨batch, stored, member⟩ := Raw.exists_of_entryIn read
  rw [Raw.pendingIn_ptr held stored]
  exact Nat.zero_lt_of_lt (List.getElem?_eq_some_iff.mp member).1

/-- What `reclaim_all` promises when it has returned. -/
structure Emptied (cfg : Config) (script : Script) (t : Tid) (path : List Action)
    (first last : Cascade) : Prop where
  /-- Every batch is gone but that of the thread. -/
  cleared : ∀ s, last.guards.thread t ≠ some s → last.guards.raw.batch s = .null
  /-- Whole batches of what was retired too late are gone as well. -/
  count : Flushless script → 0 < cfg.batchSize → ∀ k, last.guards.thread t = some k →
    Raw.pendingIn last.guards.raw k = lateAlong cfg script t k path first % cfg.batchSize
  /-- If nothing is active, all that is not reclaimed is in the batch of the thread. -/
  rest : (∀ s, ¬ last.guards.raw.Active s) → ∀ rid p f,
    Raw.Event.retired rid p f ∈ last.guards.raw.log →
      (∃ scanned, Raw.Event.reclaimed rid p f scanned ∈ last.guards.raw.log) ∨
        ∃ k e, last.guards.thread t = some k ∧ last.guards.raw.batch k = .ptr e.batch ∧
          Raw.objectAt last.guards.raw.mem e = some ⟨rid, p, f⟩
  /-- Everything is reclaimed exactly if what was retired too late fills whole batches. -/
  complete : (∀ s, ¬ last.guards.raw.Active s) → Flushless script → 0 < cfg.batchSize →
    ((∀ rid p f, Raw.Event.retired rid p f ∈ last.guards.raw.log →
        ∃ scanned, Raw.Event.reclaimed rid p f scanned ∈ last.guards.raw.log) ↔
      ∀ k, last.guards.thread t = some k → cfg.batchSize ∣ lateAlong cfg script t k path first)

/--
`reclaim_all` reclaims everything but the objects that its own reclaimers retire too late.

Reclaimers retire into the batch of the thread. When the iteration has passed that batch, only whole
batches of them are retired.
-/
theorem reclaim_all_empties (cfg : Config) (script : Script) {st st' : State} {t : Tid}
    (run : Reachable (Guards.step cfg) (Calm cfg) State.init st)
    (calm : Calm cfg st (t, .reclaimAll)) (ran : Guards.step cfg st (t, .reclaimAll) = .ok st')
    {path : List Action} {c : Cascade}
    (went : runAll (Cascade.step cfg script t) path (Cascade.start script t st') = .ok c)
    (returned : c.Returned t) :
    Emptied cfg script t path (Cascade.start script t st') c := by
  obtain ⟨cascading, idle, cleared⟩ := Sweeping.slots run calm ran went returned
  obtain ⟨lawfully, peacefully⟩ := reachable_peaceful cascading.run
  have consistent := reachable_consistent peacefully
  have count : Flushless script → 0 < cfg.batchSize → ∀ k, c.guards.thread t = some k →
      Raw.pendingIn c.guards.raw k =
        lateAlong cfg script t k path (Cascade.start script t st') % cfg.batchSize := by
    intro flushless sized k own
    have small := (reachable_kept lawfully).housed.bounded k
      ((reachable_owners lawfully).thread_live own)
    have sweeping := Sweeping.run run calm ran went fun s is => Option.some.inj (is.symm.trans own)
    obtain ⟨_, tally⟩ := sweeping.counted flushless small sized
    have passed : Raw.behind k (c.guards.raw.stack t) = true := by
      rw [returned.1, Raw.behind_nil]
    have few := tally.small passed (by rw [returned.1]; rfl)
    rw [← tally.count passed, Nat.mod_eq_of_lt few]
  have rest : (∀ s, ¬ c.guards.raw.Active s) → ∀ rid p f,
      Raw.Event.retired rid p f ∈ c.guards.raw.log →
        (∃ scanned, Raw.Event.reclaimed rid p f scanned ∈ c.guards.raw.log) ∨
          ∃ k e, c.guards.thread t = some k ∧ c.guards.raw.batch k = .ptr e.batch ∧
            Raw.objectAt c.guards.raw.mem e = some ⟨rid, p, f⟩ := by
    intro inactive rid p f retired
    rcases consistent.remains returned.1 inactive retired with ran | ⟨e, found, held | works⟩
    · exact .inl ran
    · obtain ⟨s, held⟩ := held
      -- Only the slot of the thread holds anything.
      refine .inr ⟨s, e, ?_, held, found⟩
      by_contra other
      rw [cleared s other] at held
      cases held
    · obtain ⟨t', _, frame, member, _⟩ := works
      rw [idle t'] at member
      cases member
  refine ⟨cleared, count, rest, fun inactive flushless sized => ⟨fun all k own => ?_, ?_⟩⟩
  · -- If something were left in the slot, it would not have been reclaimed.
    rw [Nat.dvd_iff_mod_eq_zero, ← count flushless sized k own]
    by_contra left
    obtain ⟨rid, p, f, retired, waits⟩ := consistent.waits (Nat.pos_of_ne_zero left)
    obtain ⟨scanned, ran⟩ := all rid p f retired
    exact waits scanned ran
  · intro whole rid p f retired
    rcases rest inactive rid p f retired with ran | ⟨k, e, own, held, found⟩
    · exact ran
    · have left := Consistent.holds held found
      rw [count flushless sized k own, Nat.mod_eq_zero_of_dvd (whole k own)] at left
      exact absurd left (Nat.lt_irrefl _)

/-- A check of a call of `reclaim_all` and of its reclaimers. -/
def reclaimThen (cfg : Config) (n : Nat) (script : Script) (t : Tid) (path : List Action)
    (final : Cascade → Bool) (st : State) : Bool :=
  (List.range n).all (fun t => decide (st.raw.stack t = [])) &&
    decide (∀ s ∈ st.raw.created, st.raw.head s = .inactive) &&
      startThen cfg script t .reclaimAll path final st

/-- Only reservations that are there can be active. -/
theorem inactive_of_created (run : Reachable (Guards.step cfg) (Calm cfg) State.init st)
    (inactive : ∀ s ∈ st.raw.created, st.raw.head s = .inactive) : ∀ s, ¬ st.raw.Active s := by
  have spanned : Raw.Spanned cfg st.raw := Raw.reachable_spanned
    ((reachable_peaceful run).2.mono fun _ _ _ peaceful => peaceful.balanced.1.1)
  exact fun s on => on (inactive s (spanned.active s on))

/-- A checked call of `reclaim_all` is calm. -/
theorem reclaimThen_runs {n : Nat} {path : List Action} {final : Cascade → Bool}
    (run : Reachable (Guards.step cfg) (Calm cfg) State.init st) (few : Few n st)
    (checked : reclaimThen cfg n script t path final st = true) :
    Calm cfg st (t, .reclaimAll) ∧ ∃ st' c, Guards.step cfg st (t, .reclaimAll) = .ok st' ∧
      runAll (Cascade.step cfg script t) path (Cascade.start script t st') = .ok c ∧
        final c = true := by
  simp only [reclaimThen, Bool.and_eq_true, decide_eq_true_eq, List.all_eq_true,
    List.mem_range] at checked
  obtain ⟨⟨outside, inactive⟩, checked⟩ := checked
  -- The check looks at the first threads, and all others are idle.
  have idle : ∀ t, st.raw.stack t = [] := by
    intro t
    by_cases small : t < n
    · exact outside t small
    · exact few t (Nat.le_of_not_lt small)
  refine ⟨⟨?_, ?_, fun _ => ⟨idle, inactive_of_created run inactive⟩, ?_, by simp⟩,
    startThen_runs checked⟩
  · intro alloc reserved s ids is
    cases is
  · intro t' _ f member
    rw [idle t'] at member
    cases member
  · intro reserved is
    cases is

/-- The other thread's object is reclaimed, and the one its reclaimer retires stays. -/
theorem reclaim_all_empties_chain : ∃ (path : List Action) (first last : Cascade),
    last.guards.raw.retirements 0 = [(8, 9)] ∧
      Raw.Event.reclaimed 0 7 9 none ∈ last.guards.raw.log ∧
        Emptied ⟨64, 2⟩ chain 0 path first last := by
  obtain ⟨st, run, few, ended⟩ := reachable_lawful_of_check ⟨64, 2⟩ 2 (Calm ⟨64, 2⟩)
    (fun _ move => decide (move.2 ≠ .reclaimAll ∧ move.2 ≠ .panic))
    (reclaimThen ⟨64, 2⟩ 2 chain 0
      [.advance false, .advance false, .advance false, .retire 8 9 (Raw.plenty 2), .ret,
        .advance false, .advance false, .skip (2 ^ 64 - 32), .advance false]
      fun c => decide (c.guards.raw.stack 0 = [] ∧ c.guards.due 0 = false ∧
        c.guards.raw.retirements 0 = [(8, 9)] ∧
          Raw.Event.reclaimed 0 7 9 none ∈ c.guards.raw.log))
    [(0, .current), (1, .current), (1, .retire 7 9 (Raw.plenty 1))]
    (fun _ _ lawful checked => calm_of_lawful lawful checked) (by decide)
  obtain ⟨calm, st', c, ran, went, final⟩ := reclaimThen_runs run few ended
  obtain ⟨empty, notDue, left, reclaimed⟩ := of_decide_eq_true final
  exact ⟨_, _, c, left, reclaimed,
    reclaim_all_empties ⟨64, 2⟩ chain run calm ran went ⟨empty, notDue⟩⟩

end Seize.Guards
