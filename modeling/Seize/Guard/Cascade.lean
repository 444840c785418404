import Seize.Guard.Calm
import Seize.Lib.Potential
import Seize.Raw.Defined
import Seize.Raw.Toll

/-!
Cascades: a call of a thread that runs reclaimers, which call the collector again.

The other threads do nothing meanwhile. A reclaimer makes finitely many calls, and no object leads
back to itself.
-/

namespace Seize.Guards

open Seize.Raw (Config SlotId Tid Ptr Reclaim Addr Alloc Stop Frame EntryPtr)

/-- A call that a reclaimer makes. -/
inductive Command where
  /-- `Collector::retire`, or `Guard::defer_retire` through a local guard. -/
  | retire (p : Ptr) (f : Reclaim)
  /-- `Collector::enter`. -/
  | enter
  /-- `Guard::flush` of a local guard. -/
  | flush
  /-- `Guard::refresh` of a local guard. -/
  | refresh
  /-- `drop` of a local guard. -/
  | drop
  deriving DecidableEq, Repr

/-- The calls that the reclaimer of an object may make, each as often as it is listed. -/
abbrev Script := Ptr → Reclaim → List Command

/-- The command that an action of a thread carries out. -/
def Action.command (t : Tid) : Action → Option Command
  | .retire p f _ => some (.retire p f)
  | .deferRetire g p f _ => if g.kind = .localTo t then some (.retire p f) else none
  | .enterLocal _ => some .enter
  | .flush g => if g.kind = .localTo t then some .flush else none
  | .refresh g => if g.kind = .localTo t then some .refresh else none
  | .drop g => if g.kind = .localTo t then some .drop else none
  | _ => none

/-- A thread in the middle of a cascade. -/
structure Cascade where
  /-- The program. -/
  guards : State
  /-- The calls that the reclaimers in progress may still make, innermost first. -/
  todo : List (List Command)

/-- The innermost call is about to make a weak compare-exchange. -/
def exchanging : List Frame → Bool
  | .link _ marked i _ (some (_, .list _)) :: _ => i < marked
  | _ => false

/--
The commands that are left after an action, or `none` if the cascade does not take it.

A reclaimer may make its calls in any order and may leave some of them out.
-/
def Cascade.spend (c : Cascade) (t : Tid) : Action → Option (List (List Command))
  | .advance spurious =>
    if spurious = false ∨ exchanging (c.guards.raw.stack t) then some c.todo else none
  | .skip target => if Raw.before target (c.guards.raw.stack t) then some c.todo else none
  | .ret => some c.todo.tail
  | .finish _ => some c.todo
  | .current => if c.guards.thread t = none then some c.todo else none
  | action =>
    match action.command t, c.todo with
    | some command, commands :: rest =>
      if c.guards.raw.stack t ≠ [] ∧ command ∈ commands then some (commands.erase command :: rest)
      else none
    | _, _ => none

/-- The commands of the reclaimer that a step has called. -/
def newly (script : Script) (old new : List Frame) : List (List Command) :=
  (Raw.opened old new).toList.map fun o => script o.1 o.2

/-- One step of a cascade of a thread. -/
def Cascade.step (cfg : Config) (script : Script) (t : Tid) (c : Cascade) (action : Action) :
    Except Stop Cascade :=
  match c.spend t action with
  | none => .error .disabled
  | some todo =>
    match Guards.step cfg c.guards (t, action) with
    | .error stop => .error stop
    | .ok next =>
      .ok ⟨next, newly script (c.guards.raw.stack t) (next.raw.stack t) ++ todo⟩

/-- The cascade that a step of a thread outside of every call begins. -/
def Cascade.start (script : Script) (t : Tid) (st : State) : Cascade :=
  ⟨st, newly script [] (st.raw.stack t)⟩

/-- The call that began the cascade has returned. -/
def Cascade.Returned (c : Cascade) (t : Tid) : Prop :=
  c.guards.raw.stack t = [] ∧ c.guards.due t = false

/-- Reclaiming one object may retire another one. -/
def Retires (script : Script) (a b : Ptr × Reclaim) : Prop :=
  .retire a.1 a.2 ∈ script b.1 b.2

variable {cfg : Config} {script : Script} {t : Tid} {c c' : Cascade} {st st' : State}
  {action : Action} {calls : List Raw.Action} {next : State}

/-- The inversion of a step of a cascade. -/
theorem Cascade.step_inv (ran : c.step cfg script t action = .ok c') :
    ∃ todo, c.spend t action = some todo ∧ Guards.step cfg c.guards (t, action) = .ok c'.guards ∧
      c'.todo = newly script (c.guards.raw.stack t) (c'.guards.raw.stack t) ++ todo := by
  unfold Cascade.step at ran
  split at ran
  · cases ran
  · rename_i todo spent
    split at ran
    · cases ran
    · rename_i next stepped
      cases ran
      exact ⟨todo, spent, stepped, rfl⟩

/-- What an action of a cascade is, and what it leaves of the commands. -/
inductive Taken (c : Cascade) (t : Tid) : Action → List (List Command) → Prop where
  /-- The innermost call of the collector goes on. -/
  | advance {spurious : Bool} (weak : spurious = true → exchanging (c.guards.raw.stack t)) :
      Taken c t (.advance spurious) c.todo
  | skip {target : SlotId} (ahead : Raw.before target (c.guards.raw.stack t)) :
      Taken c t (.skip target) c.todo
  /-- A reclaimer returns, and leaves out the calls it has not made. -/
  | ret : Taken c t .ret c.todo.tail
  | finish {reserved : Bool} : Taken c t (.finish reserved) c.todo
  | current (absent : c.guards.thread t = none) : Taken c t .current c.todo
  /-- A reclaimer makes a call. -/
  | command {action : Action} {command : Command} {commands : List Command}
      {rest : List (List Command)} (is : action.command t = some command)
      (inside : c.guards.raw.stack t ≠ []) (listed : c.todo = commands :: rest)
      (member : command ∈ commands) :
      Taken c t action (commands.erase command :: rest)

/-- The inversion of what a cascade takes. -/
theorem Cascade.spend_taken {todo : List (List Command)} (spent : c.spend t action = some todo) :
    Taken c t action todo := by
  -- A call of a reclaimer is one of its commands.
  have call : ∀ {command : Option Command}, action.command t = command →
      (match command, c.todo with
        | some command, commands :: rest =>
          if c.guards.raw.stack t ≠ [] ∧ command ∈ commands then
            some (commands.erase command :: rest)
          else none
        | _, _ => none) = some todo → Taken c t action todo := by
    intro command is spent
    split at spent
    · rename_i command commands rest listed
      split at spent
      · rename_i may
        cases spent
        exact .command is may.1 listed may.2
      · cases spent
    · cases spent
  cases action with
  | advance spurious =>
    simp only [Cascade.spend] at spent
    split at spent
    · rename_i may
      cases spent
      exact .advance fun weak => may.resolve_left (by simp [weak])
    · cases spent
  | skip target =>
    simp only [Cascade.spend] at spent
    split at spent
    · rename_i ahead
      cases spent
      exact .skip ahead
    · cases spent
  | ret =>
    cases spent
    exact .ret
  | finish =>
    cases spent
    exact .finish
  | current =>
    simp only [Cascade.spend] at spent
    split at spent
    · rename_i absent
      cases spent
      exact .current absent
    · cases spent
  | _ => exact call rfl spent

section Costs

variable {work : Ptr → Reclaim → Nat}

/-- The cost of a command. A retirement also costs the work of its object. -/
def Command.cost (cfg : Config) (work : Ptr → Reclaim → Nat) : Command → Nat
  | .retire p f => work p f + 5 * cfg.slots + 5
  | .enter => 2
  | .flush => 5 * cfg.slots + 5
  | .refresh => 2
  | .drop => 2

/-- The cost of several commands. -/
def costs (cfg : Config) (work : Ptr → Reclaim → Nat) (commands : List Command) : Nat :=
  (commands.map (Command.cost cfg work)).sum

/-- A command that was made is paid by what it cost. -/
theorem costs_erase (cfg : Config) (work : Ptr → Reclaim → Nat) {command : Command}
    {commands : List Command} (member : command ∈ commands) :
    costs cfg work commands = command.cost cfg work + costs cfg work (commands.erase command) := by
  have order := (List.perm_cons_erase member).map (Command.cost cfg work)
  rw [costs, order.sum_eq, List.map_cons, List.sum_cons, costs]

/-- The object that a command retires. -/
def Command.object : Command → Option (Ptr × Reclaim)
  | .retire p f => some (p, f)
  | _ => none

/-- The objects that the reclaimer of an object may retire. -/
def leads (script : Script) (o : Ptr × Reclaim) : List (Ptr × Reclaim) :=
  (script o.1 o.2).filterMap Command.object

/-- A retirement is a command of the script. -/
theorem mem_leads {a b : Ptr × Reclaim} : a ∈ leads script b ↔ Retires script a b := by
  obtain ⟨p, f⟩ := a
  rw [leads, List.mem_filterMap, Retires]
  constructor
  · rintro ⟨command, member, is⟩
    cases command <;> cases is
    exact member
  · exact fun member => ⟨.retire p f, member, rfl⟩

/-- Objects that do not lead back to themselves have a weight. -/
theorem leads_founded (founded : WellFounded (Retires script)) :
    WellFounded fun a b => a ∈ leads script b :=
  Subrelation.wf (fun member => mem_leads.mp member) founded

/-- The work of an object: its reclaimer, and all that it leads to. -/
noncomputable def workOf (cfg : Config) (script : Script) (founded : WellFounded (Retires script))
    (p : Ptr) (f : Reclaim) : Nat :=
  weight (leads script) (fun o => 2 + costs cfg (fun _ _ => 0) (script o.1 o.2))
    (leads_founded founded) (p, f)

/-- Commands cost what they cost by themselves and the work of the objects they retire. -/
theorem costs_eq (commands : List Command) : costs cfg work commands =
    costs cfg (fun _ _ => 0) commands +
      ((commands.filterMap Command.object).map fun o => work o.1 o.2).sum := by
  induction commands with
  | nil => rfl
  | cons command rest ih =>
    simp only [costs, List.map_cons, List.sum_cons] at ih ⊢
    cases command <;>
      simp only [List.filterMap_cons, Command.object, Command.cost, List.map_cons, List.sum_cons] <;>
      omega

/-- The work of an object pays for the commands of its reclaimer. -/
theorem workOf_heavy (founded : WellFounded (Retires script)) (p : Ptr) (f : Reclaim) :
    costs cfg (workOf cfg script founded) (script p f) + 2 = workOf cfg script founded p f := by
  have unfolded : workOf cfg script founded p f = 2 + costs cfg (fun _ _ => 0) (script p f) +
      (((script p f).filterMap Command.object).map fun o =>
        workOf cfg script founded o.1 o.2).sum :=
    weight_eq (leads script) _ (leads_founded founded) (p, f)
  rw [unfolded, costs_eq]
  omega

end Costs

/-- The raw calls of a command, with what they cost, and what stays as it is. -/
theorem Planned.carries {command : Command} (work : Ptr → Reclaim → Nat)
    (planned : Planned cfg st t action calls next) (is : action.command t = some command) :
    next.threads = st.threads ∧ next.drops = st.drops ∧
      (calls = [] ∨
        (∃ call, calls = [call] ∧ solitary call = false ∧
          Raw.price cfg work call ≤ command.cost cfg work) ∨
        ∃ s, calls = [.create s, .enter s] ∧ command = .enter) := by
  have single : ∀ {call : Raw.Action}, solitary call = false →
      Raw.price cfg work call ≤ command.cost cfg work →
        ([call] = [] ∨ (∃ call', [call] = [call'] ∧ solitary call' = false ∧
          Raw.price cfg work call' ≤ command.cost cfg work) ∨
          ∃ s, [call] = [.create s, .enter s] ∧ command = .enter) :=
    fun other cheap => .inr (.inl ⟨_, rfl, other, cheap⟩)
  cases planned with
  | refusedLocal => exact ⟨rfl, rfl, .inl rfl⟩
  | enterLocal =>
    cases is
    refine ⟨rfl, rfl, ?_⟩
    split
    · exact .inr (.inr ⟨_, rfl, rfl⟩)
    · exact single rfl (by simp [Raw.price, Command.cost])
  | refreshLocal _ kind | dropLocal _ kind =>
    simp only [Action.command, kind, if_pos] at is
    cases is
    refine ⟨rfl, rfl, ?_⟩
    split
    · exact single rfl (Nat.le_refl _)
    · exact .inl rfl
  | @batchLocal action g call onBatch member kind =>
    refine ⟨rfl, rfl, ?_⟩
    cases action with
    | deferRetire | flush =>
      cases onBatch
      simp only [Action.command, kind, if_pos] at is
      cases is
      exact single rfl (Nat.le_refl _)
    | reserveRetire => cases is
    | _ => cases onBatch
  | @thread action s call onThread =>
    refine ⟨rfl, rfl, ?_⟩
    cases action with
    | retire =>
      cases onThread
      cases is
      exact single rfl (Nat.le_refl _)
    | reserve => cases is
    | _ => cases onThread
  -- A reclaimer uses no owned guards.
  | refreshOwned _ kind | dropOwned _ kind =>
    simp [Action.command, kind] at is
  | @batchOwned action g call onBatch member kind =>
    cases action with
    | deferRetire | flush =>
      cases onBatch
      simp [Action.command, kind] at is
    | reserveRetire => cases is
    | _ => cases onBatch
  | inner inside => cases action <;> first | cases inside; done | cases is
  | nothing same => rcases same with rfl | ⟨_, rfl⟩ <;> cases is
  | _ => cases is

/-- What holds at every step of a cascade of a thread. -/
structure Cascading (cfg : Config) (t : Tid) (c : Cascade) : Prop where
  run : Reachable (step cfg) (Calm cfg) State.init c.guards
  unraced : Raw.Unraced c.guards.raw t
  /-- Nobody else is inside `reclaim_all`. -/
  apart : ∀ t', t' ≠ t → ∀ f ∈ c.guards.raw.stack t', f.iteration = none
  /-- The thread drops owned guards outside of every other call only. -/
  shallow : ∀ d ∈ c.guards.drops, d.thread = t → d.height = 0

/-- A cascade takes no action that its rules would have to restrict. -/
theorem Taken.plain {todo : List (List Command)} (taken : Taken c t action todo) :
    action ≠ .reclaimAll ∧ action ≠ .panic ∧ (∀ reserved, action ≠ .exit reserved) ∧
      ∀ alloc reserved, action ≠ .enterOwned alloc reserved := by
  cases taken with
  | command is =>
    refine ⟨?_, ?_, ?_, ?_⟩
    · rintro rfl
      cases is
    · rintro rfl
      cases is
    · rintro reserved rfl
      cases is
    · rintro alloc reserved rfl
      cases is
  | _ => simp

/-- A step of a cascade is calm. -/
theorem Cascading.calm {todo : List (List Command)} (cascading : Cascading cfg t c)
    (taken : Taken c t action todo) : Calm cfg c.guards (t, action) := by
  obtain ⟨all, panic, exit, owned⟩ := taken.plain
  refine ⟨?_, cascading.apart, fun is => absurd is all, fun r is => absurd is (exit r), panic⟩
  intro alloc reserved s ids is
  exact absurd is (owned alloc reserved)

/-- Raw calls of a thread leave its linking loop unraced. -/
theorem unraced_runCalls {raw raw' : Raw.State}
    (reached : Reachable (Raw.step cfg) (Peaceful cfg) Raw.State.init raw)
    (allowed : Allowed cfg (Peaceful cfg) t calls raw) (unraced : Raw.Unraced raw t)
    (ran : runCalls cfg t calls raw = .ok raw') : Raw.Unraced raw' t := by
  induction calls generalizing raw with
  | nil =>
    cases ran
    exact unraced
  | cons call rest ih =>
    obtain ⟨mid, called, ran⟩ := runCalls_cons ran
    have tops := (reachable_consistent reached).sound.inv.tops t
    obtain ⟨raw₁, moved, rfl⟩ := Raw.step_move called
    exact ih (reached.tail allowed.1 called) (allowed.2 _ called)
      (moved.unraced tops allowed.1.returns) ran

/-- The raw collector during a calm run, and the raw calls of the next step. -/
theorem Calm.facts {move : Tid × Action} (calm : Calm cfg st move)
    (run : Reachable (step cfg) (Calm cfg) State.init st) (ran : step cfg st move = .ok st') :
    ∃ calls next raw, blocked st move.1 move.2 = false ∧
      Planned cfg st move.1 move.2 calls next ∧ runCalls cfg move.1 calls st.raw = .ok raw ∧
        st' = settle { next with raw := raw } move.1 move.2 ∧
          Allowed cfg (Peaceful cfg) move.1 calls st.raw := by
  obtain ⟨lawfully, peacefully⟩ := reachable_peaceful run
  have owners := reachable_owners lawfully
  have activity := reachable_activity (lawful_fresh lawfully)
  have kept := reachable_kept lawfully
  have lawful := calm.lawful (reachable_consistent peacefully)
  obtain ⟨calls, next, raw, free, _, planned, called, eq⟩ := step_planned ran
  exact ⟨calls, next, raw, free, planned, called, eq,
    planned.peaceful owners activity kept.housed calm lawful⟩

/-- The drops in progress that a step of a cascade leaves. -/
theorem Planned.drops_taken {todo : List (List Command)} (taken : Taken c t action todo)
    (planned : Planned cfg c.guards t action calls next) :
    next.drops = c.guards.drops ∨ ∃ d, c.guards.dropping t = some d ∧
      next.drops = c.guards.drops.erase d := by
  -- Only the end of a `drop` takes one off the list.
  cases taken with
  | command is => exact .inl (planned.carries (fun _ _ => 0) is).2.1
  | finish =>
    cases planned with
    | finish found => exact .inr ⟨_, found, rfl⟩
    | nothing is => rcases is with is | ⟨_, is⟩ <;> cases is
    | batchLocal is | batchOwned is | thread is | inner is => cases is
  | current =>
    cases planned with
    | nothing | current => exact .inl rfl
    | batchLocal is | batchOwned is | thread is | inner is => cases is
  | advance | skip | ret =>
    cases planned with
    | inner => exact .inl rfl
    | nothing is => rcases is with is | ⟨_, is⟩ <;> cases is
    | batchLocal is | batchOwned is | thread is => cases is

/-- The step lemma: a cascade goes on as it began. -/
theorem Cascading.step (cascading : Cascading cfg t c)
    (ran : c.step cfg script t action = .ok c') : Cascading cfg t c' := by
  obtain ⟨todo, spent, stepped, _⟩ := Cascade.step_inv ran
  have taken := Cascade.spend_taken spent
  have calm := cascading.calm taken
  obtain ⟨calls, next, raw, _, planned, called, eq, allowed⟩ := calm.facts cascading.run stepped
  have peacefully := (reachable_peaceful cascading.run).2
  refine ⟨cascading.run.tail calm stepped, ?_, ?_, ?_⟩
  · rw [eq]
    exact unraced_runCalls peacefully allowed cascading.unraced called
  · intro t' other f member
    rw [eq] at member
    have same : f ∈ c.guards.raw.stack t' := stack_runCalls other called ▸ member
    exact cascading.apart t' other f same
  · intro d member mine
    -- Without a panic, settling ends no drop.
    rw [eq, settle, if_neg taken.plain.2.1] at member
    rcases planned.drops_taken taken with same | ⟨d', _, same⟩
    · exact cascading.shallow d (same ▸ member) mine
    · exact cascading.shallow d (List.mem_of_mem_erase (same ▸ member)) mine

section Payment

variable {work extra : Ptr → Reclaim → Nat} {raw raw' : Raw.State}

variable (work) in
/-- What one raw call is paid for. -/
theorem paid_call {call : Raw.Action}
    (reached : Reachable (Raw.step cfg) (Peaceful cfg) Raw.State.init raw)
    (peaceful : Peaceful cfg raw (t, call)) (unraced : Raw.Unraced raw t)
    (forward : ∀ target, call = .skip target → raw'.stack t ≠ raw.stack t)
    (heavy : ∀ p f, extra p f + 2 ≤ work p f) (ran : Raw.step cfg raw (t, call) = .ok raw') :
    Raw.gained cfg work raw' t + Raw.spent work raw +
        Raw.openedWork extra (raw.stack t) (raw'.stack t) + 1 ≤
      Raw.gained cfg work raw t + Raw.spent work raw' + Raw.price cfg work call := by
  have inv := (reachable_consistent reached).sound.inv
  have spanned : Raw.Spanned cfg raw :=
    Raw.reachable_spanned (reached.mono fun _ _ _ peaceful => peaceful.balanced.1.1)
  obtain ⟨raw₁, moved, rfl⟩ := Raw.step_move ran
  exact moved.toll inv spanned unraced.not_retried peaceful.returns forward heavy

/-- Creating or entering a reservation leaves the calls in progress alone. -/
theorem stack_enter {s : SlotId} {call : Raw.Action} (is : call = .create s ∨ call = .enter s)
    (ran : Raw.step cfg raw (t, call) = .ok raw') : raw'.stack t = raw.stack t := by
  obtain ⟨raw₁, moved, rfl⟩ := Raw.step_move ran
  rcases is with rfl | rfl
  · cases moved <;> rfl
  · cases moved with
    | enter => rfl

/-- The raw calls of a command are paid by what the command costs. -/
theorem paid_command {command : Command}
    (reached : Reachable (Raw.step cfg) (Peaceful cfg) Raw.State.init raw)
    (allowed : Allowed cfg (Peaceful cfg) t calls raw) (unraced : Raw.Unraced raw t)
    (shape : calls = [] ∨ (∃ call, calls = [call] ∧ solitary call = false ∧
        Raw.price cfg work call ≤ command.cost cfg work) ∨
      ∃ s, calls = [.create s, .enter s] ∧ command = .enter)
    (heavy : ∀ p f, extra p f + 2 ≤ work p f) (ran : runCalls cfg t calls raw = .ok raw') :
    Raw.gained cfg work raw' t + Raw.spent work raw +
        Raw.openedWork extra (raw.stack t) (raw'.stack t) + 1 ≤
      Raw.gained cfg work raw t + Raw.spent work raw' + command.cost cfg work := by
  have still : ∀ {frames : List Frame}, Raw.openedWork extra frames frames = 0 := by
    intro frames
    rw [Raw.openedWork, Raw.opened_of_le (Nat.le_refl _), Option.elim_none]
  rcases shape with rfl | ⟨call, rfl, other, cheap⟩ | ⟨s, rfl, rfl⟩
  · cases ran
    have positive : 1 ≤ command.cost cfg work := by
      cases command <;> simp only [Command.cost] <;> omega
    rw [still]
    omega
  · have paid := paid_call work reached allowed.1 unraced ?_ heavy (runCalls_one ran)
    · omega
    · rintro target rfl
      cases other
  · -- A first guard creates the reservation and enters it.
    obtain ⟨mid, created, ran⟩ := runCalls_cons ran
    have entered := runCalls_one ran
    have reached' := reached.tail allowed.1 created
    have unraced' : Raw.Unraced mid t := by
      obtain ⟨raw₁, moved, rfl⟩ := Raw.step_move created
      exact moved.unraced ((reachable_consistent reached).sound.inv.tops t) (by simp)
    have first := paid_call work reached allowed.1 unraced (by simp) heavy created
    have second := paid_call work reached' (allowed.2 mid created).1 unraced' (by simp)
      heavy entered
    have same := stack_enter (.inl rfl) created
    have same' := stack_enter (.inr rfl) entered
    rw [same, still] at first
    rw [same', same, still] at second
    rw [same', same, still]
    simp only [Raw.price, Command.cost] at first second ⊢
    omega

/-- What a cascade has gained for the steps still to come. -/
def Cascade.gained (cfg : Config) (work : Ptr → Reclaim → Nat) (t : Tid) (c : Cascade) : Nat :=
  Raw.gained cfg work c.guards.raw t + (c.todo.map (costs cfg work)).sum +
    (c.guards.thread t).elim 1 (fun _ => 0) + c.guards.drops.countP (·.thread = t)

/-- What a cascade has spent on reclaimers. -/
def Cascade.spent (work : Ptr → Reclaim → Nat) (c : Cascade) : Nat := Raw.spent work c.guards.raw

variable (cfg script work) in
/-- The commands of a new reclaimer cost the work it has been opened with. -/
theorem costs_newly (old new : List Frame) :
    ((newly script old new).map (costs cfg work)).sum =
      Raw.openedWork (fun p f => costs cfg work (script p f)) old new := by
  rw [newly, Raw.openedWork]
  cases Raw.opened old new <;> simp

/-- A thread without an ID gets one, and nothing else happens. -/
theorem current_spec (absent : st.thread t = none)
    (ran : Guards.step cfg st (t, .current) = .ok st') :
    st'.raw = st.raw ∧ st'.thread t ≠ none ∧ st'.drops = st.drops := by
  obtain ⟨calls, next, raw, _, planned, _, called, rfl⟩ := step_planned ran
  simp only [plan, absent] at planned
  split at planned
  · cases planned
    cases called
    exact ⟨rfl, by simp [settle, State.thread], rfl⟩
  · cases planned

/-- The end of a drop ends one drop of its thread, and nothing else happens to the collector. -/
theorem finish_spec {reserved : Bool} (ran : Guards.step cfg st (t, .finish reserved) = .ok st') :
    st'.raw = st.raw ∧ st'.threads = st.threads ∧
      st'.drops.countP (·.thread = t) + 1 = st.drops.countP (·.thread = t) := by
  obtain ⟨calls, next, raw, _, _, planned, called, rfl⟩ := step_planned ran
  cases planned with
  | @finish _ d found done =>
    cases called
    have mine : d.thread = t := by simpa using List.find?_some found
    have order := (List.perm_cons_erase (List.mem_of_find?_eq_some found)).countP_eq
      fun d => decide (d.thread = t)
    rw [List.countP_cons, if_pos (decide_eq_true mine)] at order
    exact ⟨rfl, rfl, order.symm⟩
  | nothing is => rcases is with is | ⟨_, is⟩ <;> cases is
  | batchLocal is | batchOwned is | thread is | inner is => cases is

/-- A step inside a call is one raw call, and plans nothing else. -/
theorem Planned.inside {call : Raw.Action} (planned : Planned cfg st t action calls next)
    (is : action.inner = some call) : calls = [call] ∧ next = st := by
  cases action with
  | ret | panic | advance | skip =>
    cases is
    cases planned with
    | inner same =>
      cases same
      exact ⟨rfl, rfl⟩
    | nothing same => rcases same with same | ⟨_, same⟩ <;> cases same
    | batchLocal same | batchOwned same | thread same => cases same
  | _ => cases is

/-- The steps of a cascade that are not paid for: weak compare-exchanges that fail. -/
def fails (action : Action) : Bool := action = .advance true

/-- What is not free of charge is paid from what was gained, by every step of a cascade. -/
theorem Cascading.paid (cascading : Cascading cfg t c)
    (heavy : ∀ p f, costs cfg work (script p f) + 2 ≤ work p f)
    (ran : c.step cfg script t action = .ok c') :
    c'.gained cfg work t + c.spent work + (if fails action then 0 else 1) ≤
      c.gained cfg work t + c'.spent work := by
  obtain ⟨todo, spent, stepped, listed⟩ := Cascade.step_inv ran
  have taken := Cascade.spend_taken spent
  have reached := (reachable_peaceful cascading.run).2
  have bill := costs_newly cfg script work (c.guards.raw.stack t) (c'.guards.raw.stack t)
  -- One raw call inside the innermost call, which leaves the guard layer alone.
  have inside : ∀ {call : Raw.Action}, action.inner = some call →
      (∀ target, call = .skip target → Raw.before target (c.guards.raw.stack t) = true) →
      (todo.map (costs cfg work)).sum ≤ (c.todo.map (costs cfg work)).sum →
      c'.gained cfg work t + c.spent work + 1 ≤
        c.gained cfg work t + c'.spent work + Raw.price cfg work call := by
    intro call is ahead fewer
    have calm := cascading.calm taken
    obtain ⟨calls, next, raw, _, planned, called, eq, allowed⟩ := calm.facts cascading.run stepped
    obtain ⟨rfl, rfl⟩ := planned.inside is
    have one : Raw.step cfg c.guards.raw (t, call) = .ok c'.guards.raw := by
      rw [eq]
      exact runCalls_one called
    have paid := paid_call work reached allowed.1 cascading.unraced ?_ heavy one
    · have threads : c'.guards.threads = c.guards.threads := by rw [eq, settle]
      have drops : c'.guards.drops = c.guards.drops := by
        rw [eq, settle, if_neg taken.plain.2.1]
      simp only [Cascade.gained, Cascade.spent, State.thread, threads, drops, listed,
        List.map_append, List.sum_append, bill] at paid ⊢
      omega
    · rintro target rfl
      obtain ⟨raw₁, moved, after⟩ := Raw.step_move one
      rw [after]
      exact moved.skip_moves (ahead target rfl)
  cases taken with
  | @advance spurious weak =>
    have paid := inside rfl (by simp) (Nat.le_refl _)
    cases spurious <;> simpa [fails, Raw.price] using paid
  | skip ahead =>
    have paid := inside rfl (by rintro target ⟨⟩; exact ahead) (Nat.le_refl _)
    simpa [fails, Raw.price] using paid
  | ret =>
    -- The calls that the reclaimer has left out are not paid for any more.
    have fewer : (c.todo.tail.map (costs cfg work)).sum ≤ (c.todo.map (costs cfg work)).sum := by
      cases c.todo <;> simp
    have paid := inside rfl (by simp) fewer
    simpa [fails, Raw.price] using paid
  | finish =>
    obtain ⟨raw, threads, drops⟩ := finish_spec stepped
    rw [raw, Raw.openedWork, Raw.opened_of_le (Nat.le_refl _), Option.elim_none] at bill
    simp only [Cascade.gained, Cascade.spent, State.thread, raw, threads, listed, List.map_append,
      List.sum_append, bill, fails, reduceCtorEq, decide_false, Bool.false_eq_true, if_false]
    omega
  | current absent =>
    obtain ⟨raw, present, drops⟩ := current_spec absent stepped
    rw [raw, Raw.openedWork, Raw.opened_of_le (Nat.le_refl _), Option.elim_none] at bill
    obtain ⟨s, named⟩ := Option.ne_none_iff_exists'.mp present
    simp only [Cascade.gained, Cascade.spent, raw, drops, listed, List.map_append, named, absent,
      Option.elim_some, Option.elim_none, List.sum_append, bill, fails, reduceCtorEq, decide_false,
      Bool.false_eq_true, if_false]
    omega
  | @command _ command commands rest is within todo member =>
    have calm := cascading.calm (.command is within todo member)
    obtain ⟨calls, next, raw, _, planned, called, eq, allowed⟩ := calm.facts cascading.run stepped
    obtain ⟨threads, drops, shape⟩ := planned.carries work is
    have paid := paid_command reached allowed cascading.unraced shape heavy called
    have panic : action ≠ .panic := by
      rintro rfl
      cases is
    have costly : fails action = false := by
      rw [fails, decide_eq_false_iff_not]
      rintro rfl
      cases is
    have bought := costs_erase cfg work member
    have threads' : c'.guards.threads = c.guards.threads := by rw [eq, settle, ← threads]
    have drops' : c'.guards.drops = c.guards.drops := by
      rw [eq, settle, if_neg panic, ← drops]
    have raw' : c'.guards.raw = raw := by rw [eq, settle]
    simp only [Cascade.gained, Cascade.spent, State.thread, threads', drops', raw', listed, todo,
      List.map_append, List.map_cons, List.sum_append, List.sum_cons, costly, Bool.false_eq_true,
      if_false] at bill paid ⊢
    omega

end Payment

/-- The run lemma: a cascade is no longer than what it has gained, but for failed exchanges. -/
theorem Cascading.bounded (cascading : Cascading cfg t c)
    (founded : WellFounded (Retires script)) {path : List Action}
    (ran : runAll (Cascade.step cfg script t) path c = .ok c') :
    path.length ≤ c.gained cfg (workOf cfg script founded) t + path.countP fails := by
  have heavy : ∀ p f, costs cfg (workOf cfg script founded) (script p f) + 2 ≤
      workOf cfg script founded p f := fun p f => Nat.le_of_eq (workOf_heavy founded p f)
  -- What has been spent was gained before, since every retirement is accounted for.
  have solvent : ∀ c : Cascade, Cascading cfg t c →
      c.spent (workOf cfg script founded) ≤ c.gained cfg (workOf cfg script founded) t := by
    intro c cascading
    have conserved := (reachable_consistent (reachable_peaceful cascading.run).2).conserved
    have raw : Raw.spent (workOf cfg script founded) c.guards.raw ≤
      Raw.gained cfg (workOf cfg script founded) c.guards.raw t := conserved.solvent _ t
    simp only [Cascade.spent, Cascade.gained]
    omega
  have bound := length_le_of_potential (Cascading cfg t) (fun _ _ _ before ran => before.step ran)
    fails (Cascade.gained cfg (workOf cfg script founded) t)
    (Cascade.spent (workOf cfg script founded)) solvent
    (fun _ _ _ before ran => before.paid heavy ran) cascading ran
  omega

/-- A cascade whose call has not returned goes on, and no exchange has to fail for it. -/
theorem Cascading.progress (cascading : Cascading cfg t c) (open_ : ¬ c.Returned t) :
    ∃ action c', fails action = false ∧ c.step cfg script t action = .ok c' := by
  have inv := (reachable_consistent (reachable_peaceful cascading.run).2).sound.inv
  -- A step that the guard layer takes and whose commands are there is one of the cascade.
  have steps : ∀ {action : Action} {todo : List (List Command)} {next : State},
      fails action = false → c.spend t action = some todo →
      Guards.step cfg c.guards (t, action) = .ok next →
      ∃ action c', fails action = false ∧ c.step cfg script t action = .ok c' := by
    intro action todo next plain spent stepped
    refine ⟨action, ⟨next, newly script (c.guards.raw.stack t) (next.raw.stack t) ++ todo⟩, plain, ?_⟩
    simp only [Cascade.step, spent, stepped]
  cases stack : c.guards.raw.stack t with
  | nil =>
    -- Only the end of a drop can be left to do.
    have due : c.guards.due t = true := by
      cases is : c.guards.due t with
      | true => rfl
      | false => exact absurd ⟨stack, is⟩ open_
    rw [State.due] at due
    split at due
    · rename_i d found
      have low : (c.guards.raw.stack t).length = d.height := of_decide_eq_true due
      have free : blocked c.guards t (.finish true) = false := by
        simp [blocked, Action.inner, stack, Raw.userLevel]
      have planned : plan cfg c.guards t (.finish true) = .ok ([], { c.guards with
          drops := c.guards.drops.erase d
          ids := freeThread c.guards.ids true d.slot }) := by
        simp only [plan, found, if_pos low]
      exact steps rfl rfl (step_of_plan free planned rfl)
    · cases due
  | cons f below =>
    -- Inside a call nothing is due.
    have idle : c.guards.due t = false := by
      rw [State.due]
      split
      · rename_i d found
        have mine : d.thread = t := by simpa using List.find?_some found
        have zero := cascading.shallow d (List.mem_of_find?_eq_some found) mine
        rw [decide_eq_false_iff_not, zero, stack]
        simp
      · rfl
    -- A step inside a call is taken when the raw collector takes it.
    have inner : ∀ (action : Action) (call : Raw.Action) {todo : List (List Command)}
        {raw₁ : Raw.State}, action.inner = some call → plan cfg c.guards t action =
        .ok ([call], c.guards) → fails action = false → c.spend t action = some todo →
        Raw.act cfg c.guards.raw t call = .ok raw₁ →
        ∃ action c', fails action = false ∧ c.step cfg script t action = .ok c' := by
      intro action call todo raw₁ is planned plain spent acted
      have free : blocked c.guards t action = false := by simp [blocked, is, idle]
      have ran : runCalls cfg t [call] c.guards.raw = .ok (Raw.tick raw₁) := by
        simp [runCalls, Raw.step, acted, Except.map]
      exact steps plain spent (step_of_plan free planned ran)
    cases user : Raw.userLevel (c.guards.raw.stack t) with
    | true =>
      -- A reclaimer may return at any time.
      cases f with
      | reclaimer rid p reclaim =>
        have acted : Raw.act cfg c.guards.raw t .ret =
            .ok (c.guards.raw.setStack t below) := by
          simp only [Raw.act, stack]
        exact inner .ret .ret rfl rfl rfl rfl acted
      | _ => simp [stack, Raw.userLevel] at user
    | false =>
      obtain ⟨raw₁, advanced⟩ := Raw.advance_ok inv user false
      have spent : c.spend t (.advance false) = some c.todo := by simp [Cascade.spend]
      exact inner (.advance false) (.advance false) rfl rfl rfl spent advanced

/-- A call made by user code leaves the calls in progress below it. -/
theorem stack_grows {call : Raw.Action} {raw raw' : Raw.State}
    (outside : solitary call = false ∨ call = .reclaimAll)
    (ran : Raw.step cfg raw (t, call) = .ok raw') : raw.stack t <:+ raw'.stack t := by
  -- User code puts one call on the stack at most.
  obtain ⟨raw₁, moved, rfl⟩ := Raw.step_move ran
  have called : ∀ {f : Frame} {raw₂ : Raw.State}, raw₂.stack t = f :: raw.stack t →
      raw.stack t <:+ raw₂.stack t := fun stack => stack ▸ List.suffix_cons _ _
  cases moved with
  | refused _ prep | pushed _ prep | reserve _ prep =>
    exact ⟨[], (congrFun prep.same.1 t).symm⟩
  | immediate _ prep | filled _ prep =>
    exact called ((Function.update_self ..).trans
      (congrArg (List.cons _) (congrFun prep.same.1 t)))
  | leave | refresh | flush | reclaimAll => exact called (Function.update_self ..)
  | known | create | enter | leaveIdle | refreshIdle | flushNone | access =>
    exact List.suffix_refl _
  | _ => simp [solitary] at outside

/-- A step inside a call ends at most that call, unless it unwinds. -/
theorem stack_shrinks {call : Raw.Action} {raw raw' : Raw.State} (calm : call ≠ .panic)
    (ran : Raw.step cfg raw (t, call) = .ok raw') :
    (raw.stack t).length ≤ (raw'.stack t).length + 1 := by
  -- Only `panic` unwinds more than one frame.
  by_cases outside : solitary call = false ∨ call = .reclaimAll
  · exact Nat.le_succ_of_le (stack_grows outside ran).length_le
  · obtain ⟨raw₁, moved, rfl⟩ := Raw.step_move ran
    have stepped : ∀ (fs : List Frame) {f : Frame} {below : List Frame} {raw₂ : Raw.State},
        raw.stack t = f :: below → raw₂.stack t = fs ++ below →
          (raw.stack t).length ≤ (raw₂.stack t).length + 1 := by
      intro fs f below raw₂ top stack
      rw [top, stack, List.length_cons, List.length_append]
      omega
    cases moved with
    | panic => exact absurd rfl calm
    | ret top | abort top | addShare top | done top | dealloc top | finish top =>
      exact stepped [] top (Function.update_self ..)
    | releaseFree top | invoke top | take top | takeWrong top =>
      exact stepped [_, _] top (Function.update_self ..)
    | skipScan top | skipReclaim top | commit top | pass top | mark top | addFree top | load top
    | gone top | publish top | retry top | releaseCount top | next top | reset top =>
      exact stepped [_] top (Function.update_self ..)
    | _ => simp [solitary] at outside

/-- Drops in progress are calls of their threads, and the innermost one is listed first. -/
structure Nested (st : State) : Prop where
  low : ∀ d ∈ st.drops, d.height ≤ (st.raw.stack d.thread).length
  sorted : st.drops.Pairwise fun inner outer =>
    inner.thread = outer.thread → outer.height ≤ inner.height

/-- The raw calls of an action of user code leave the calls in progress below them. -/
theorem Planned.grows {raw : Raw.State} (planned : Planned cfg st t action calls next)
    (outside : action.inner = none) (ran : runCalls cfg t calls st.raw = .ok raw) :
    st.raw.stack t <:+ raw.stack t := by
  -- None of the calls takes a step of a call that is there already.
  have user : ∀ call ∈ calls, solitary call = false ∨ call = .reclaimAll := by
    intro call made
    cases alone : solitary call with
    | false => exact .inl rfl
    | true =>
      obtain ⟨_, is | ⟨_, is⟩⟩ := planned.sole made alone
      · rw [outside] at is
        cases is
      · exact .inr is
  clear planned
  generalize st.raw = raw₀ at ran ⊢
  induction calls generalizing raw₀ with
  | nil =>
    cases ran
    exact List.suffix_refl _
  | cons call rest ih =>
    obtain ⟨mid, called, ran⟩ := runCalls_cons ran
    have first := stack_grows (user call List.mem_cons_self) called
    exact first.trans (ih (fun call made => user call (List.mem_cons_of_mem _ made)) mid ran)

/-- The innermost drop of a thread, if it has any in progress. -/
theorem Nested.innermost (nested : Nested st) {d : Dropping} (member : d ∈ st.drops)
    (mine : d.thread = t) : ∃ d', st.dropping t = some d' ∧ d'.thread = t ∧ d.height ≤ d'.height := by
  have sorted := nested.sorted
  rw [State.dropping]
  generalize st.drops = drops at member sorted ⊢
  -- The first one of the thread is found, and those behind it are lower.
  induction drops with
  | nil => cases member
  | cons first rest ih =>
    obtain ⟨ahead, sorted⟩ := List.pairwise_cons.mp sorted
    by_cases its : first.thread = t
    · refine ⟨first, by simp [its], its, ?_⟩
      rcases List.mem_cons.mp member with rfl | later
      · exact Nat.le_refl _
      · exact ahead d later (its.trans mine.symm)
    · rcases List.mem_cons.mp member with rfl | later
      · exact absurd mine its
      · rw [List.find?_cons_of_neg (by simpa using its)]
        exact ih later sorted

/-- What a plan does to the drops in progress. -/
theorem Planned.drops (planned : Planned cfg st t action calls next) :
    next.drops = st.drops ∨
      (∃ s, next.drops = ⟨t, (st.raw.stack t).length, s⟩ :: st.drops) ∨
      ∃ d, next.drops = st.drops.erase d := by
  cases planned with
  | dropOwned => exact .inr (.inl ⟨_, rfl⟩)
  | finish => exact .inr (.inr ⟨_, rfl⟩)
  | _ => exact .inl rfl

/-- While a thread takes another step than the end of a drop, its drops are below its calls. -/
theorem Nested.below (nested : Nested st) (free : blocked st t action = false)
    (other : ∀ reserved, action ≠ .finish reserved) {d : Dropping} (member : d ∈ st.drops)
    (mine : d.thread = t) : d.height < (st.raw.stack t).length := by
  obtain ⟨inner, found, its, higher⟩ := nested.innermost member mine
  have low := nested.low inner (List.mem_of_find?_eq_some found)
  have notDue : st.due t = false := by
    simp only [blocked, decide_eq_false_iff_not, not_or, not_and] at free
    cases due : st.due t with
    | false => rfl
    | true => exact absurd other (free.2 due)
  -- The innermost drop is not at the top, or it would have to end first.
  have apart : (st.raw.stack t).length ≠ inner.height := by
    simpa only [State.due, found, decide_eq_false_iff_not] using notDue
  rw [its] at low
  omega

/-- The step lemma: drops stay nested. -/
theorem Nested.step {move : Tid × Action} (nested : Nested st)
    (ran : Guards.step cfg st move = .ok st') : Nested st' := by
  obtain ⟨calls, next, raw, free, _, planned, called, rfl⟩ := step_planned ran
  obtain ⟨t, action⟩ := move
  dsimp only at free planned called ⊢
  have inside : ∀ d ∈ (settle { next with raw := raw } t action).drops, d ∈ next.drops ∧
      (action = .panic → d.thread = t → d.height < (raw.stack t).length) := by
    intro d member
    rw [settle] at member
    split at member
    · obtain ⟨there, kept⟩ := List.mem_filter.mp member
      refine ⟨there, fun _ mine => ?_⟩
      simpa [mine] using kept
    · rename_i calm
      exact ⟨member, fun is => absurd is calm⟩
  constructor
  · intro d member
    obtain ⟨there, unwound⟩ := inside d member
    show d.height ≤ (raw.stack d.thread).length
    have old : d ∈ st.drops → d.height ≤ (raw.stack d.thread).length := by
      intro before
      by_cases mine : d.thread = t
      · rw [mine]
        cases inner : action.inner with
        | none =>
          have low := nested.low d before
          rw [mine] at low
          exact low.trans (planned.grows inner called).length_le
        | some call =>
          by_cases calm : action = .panic
          · exact Nat.le_of_lt (unwound calm mine)
          · -- The call that goes on stands above the drop.
            have deep := nested.below free (by rintro reserved rfl; cases inner) before mine
            obtain ⟨rfl, _⟩ := planned.inside inner
            have shrinks := stack_shrinks ?_ (runCalls_one called)
            · omega
            · rintro rfl
              cases action <;> cases inner
              exact calm rfl
      · rw [stack_runCalls mine called]
        exact nested.low d before
    rcases planned.drops with same | ⟨s, added⟩ | ⟨d', ended⟩
    · exact old (same ▸ there)
    · rw [added] at there
      rcases List.mem_cons.mp there with rfl | before
      · have outside : action.inner = none := by
          cases inner : action.inner with
          | none => rfl
          | some call =>
            obtain ⟨_, rfl⟩ := planned.inside inner
            exact absurd added (by simp)
        exact (planned.grows outside called).length_le
      · exact old before
    · exact old (List.mem_of_mem_erase (ended ▸ there))
  · have sorted : next.drops.Pairwise fun inner outer =>
        inner.thread = outer.thread → outer.height ≤ inner.height := by
      rcases planned.drops with same | ⟨s, added⟩ | ⟨d', ended⟩
      · rw [same]
        exact nested.sorted
      · rw [added]
        refine List.pairwise_cons.mpr ⟨fun outer member mine => ?_, nested.sorted⟩
        have low := nested.low outer member
        rw [← mine] at low
        exact low
      · rw [ended]
        exact nested.sorted.sublist List.erase_sublist
    rw [settle]
    split
    · exact sorted.sublist List.filter_sublist
    · exact sorted

/-- The run lemma, for every run of the guard layer. -/
theorem reachable_nested {allowed : State → Tid × Action → Prop}
    (run : Reachable (Guards.step cfg) allowed State.init st) : Nested st := by
  refine run.invariant Nested ⟨?_, .nil⟩ fun _ _ _ _ nested _ ran => nested.step ran
  intro d member
  cases member

/-- A call that a thread makes outside of every other call begins a cascade. -/
theorem Cascading.start (run : Reachable (Guards.step cfg) (Calm cfg) State.init st)
    (outside : st.raw.stack t = []) (calm : Calm cfg st (t, action))
    (ran : Guards.step cfg st (t, action) = .ok st') :
    Cascading cfg t (Cascade.start script t st') := by
  obtain ⟨calls, next, raw, _, planned, called, rfl, allowed⟩ := calm.facts run ran
  have peacefully := (reachable_peaceful run).2
  refine ⟨run.tail calm ran, ?_, ?_, ?_⟩
  · refine unraced_runCalls peacefully allowed (.of_user ?_) called
    rw [outside]
    rfl
  · intro t' other f member
    exact calm.apart t' other f (stack_runCalls other called ▸ member)
  · intro d member mine
    have there : d ∈ next.drops := by
      rw [Cascade.start, settle, if_neg calm.returns] at member
      exact member
    -- Earlier drops of the thread stood below its empty stack.
    have old : d ∈ st.drops → d.height = 0 := by
      intro before
      have low := (reachable_nested run).low d before
      rw [mine, outside] at low
      exact Nat.le_zero.mp low
    rcases planned.drops with same | ⟨s, added⟩ | ⟨d', ended⟩
    · exact old (same ▸ there)
    · rw [added] at there
      rcases List.mem_cons.mp there with rfl | before
      · show (st.raw.stack t).length = 0
        rw [outside]
        rfl
      · exact old before
    · exact old (List.mem_of_mem_erase (ended ▸ there))

/-- A call works on a batch, or on a list with an entry of the batch. -/
def WorksOn (b : Addr) (f : Frame) : Prop := f.batchOf = some b ∨ ∃ e ∈ f.rest, e.batch = b

/-- A shared batch has an entry on a list. -/
theorem Consistent.shared {raw : Raw.State} {b : Addr} {batch : Raw.Batch}
    (consistent : Consistent cfg raw) (stored : raw.mem b = some batch)
    (shared : batch.phase = .shared) : ∃ place, ∃ e ∈ Raw.listAt raw place, e.batch = b := by
  have phase := consistent.sound.inv.phases b batch stored
  rw [shared] at phase
  -- Fewer entries have been released than were linked, so one is linked still.
  have positive : 0 < batch.linkedNow := by
    have total := Raw.Batch.everLinked_eq batch
    have fewer := phase.2.1
    omega
  obtain ⟨entry, member, isLinked⟩ := List.countP_pos_iff.mp positive
  obtain ⟨i, found⟩ := List.mem_iff_getElem?.mp member
  have linked : Raw.Linked raw.mem ⟨b, i⟩ :=
    ⟨entry, by rw [Raw.entryIn_eq (e := ⟨b, i⟩) stored, found], by simpa using isLinked⟩
  obtain ⟨place, onList⟩ := consistent.covered ⟨b, i⟩ linked
  exact ⟨place, _, onList, rfl⟩

/-- While nothing is active, what is not pending is held by a call in progress. -/
theorem Consistent.held {raw : Raw.State} {b : Addr} {batch : Raw.Batch}
    (consistent : Consistent cfg raw) (inactive : ∀ s, ¬ raw.Active s)
    (stored : raw.mem b = some batch) :
    (∃ s, raw.batch s = .ptr b) ∨ ∃ t, ∃ f ∈ raw.stack t, WorksOn b f := by
  have phase := consistent.sound.inv.phases b batch stored
  cases stage : batch.phase with
  | pending s =>
    rw [stage] at phase
    exact .inl ⟨s, phase.1⟩
  | retiring t height =>
    rw [stage] at phase
    obtain ⟨⟨marked, i, active, seen, found⟩, _⟩ := phase
    exact .inr ⟨t, _, mem_of_frameAt found, .inl rfl⟩
  | shared =>
    obtain ⟨place, e, member, same⟩ := consistent.shared stored stage
    cases place with
    | slot s =>
      -- An inactive slot has an empty list.
      have idle := consistent.sound.inv.idle s (not_not.mp (inactive s))
      rw [Raw.listAt, idle] at member
      cases member
    | call t height =>
      rw [Raw.listAt] at member
      split at member
      · rename_i f found
        exact .inr ⟨t, f, mem_of_frameAt found, .inr ⟨e, member, same⟩⟩
      · cases member
  | freeing t height =>
    obtain ⟨f, found, task⟩ := consistent.tended.freeing b batch t height stored stage
    refine .inr ⟨t, f, mem_of_frameAt found, .inl ?_⟩
    cases f with
    | freeBatch batchPtr i =>
      cases batchPtr with
      | ptr b' =>
        cases task
        rfl
      | null | drop => cases task
    | _ => cases task

/-- Where an object can be that was retired, once a thread has returned and nothing is active. -/
def Remains (raw : Raw.State) (t : Tid) (rid : Nat) (p : Ptr) (f : Reclaim) : Prop :=
  (∃ scanned, Raw.Event.reclaimed rid p f scanned ∈ raw.log) ∨
    ∃ e, Raw.objectAt raw.mem e = some ⟨rid, p, f⟩ ∧
      ((∃ s, raw.batch s = .ptr e.batch) ∨
        ∃ t', t' ≠ t ∧ ∃ frame ∈ raw.stack t', WorksOn e.batch frame)

/-- What is not reclaimed is pending, or held by a call that another thread has not finished. -/
theorem Consistent.remains {raw : Raw.State} {rid : Nat} {p : Ptr} {f : Reclaim}
    (consistent : Consistent cfg raw) (returned : raw.stack t = [])
    (inactive : ∀ s, ¬ raw.Active s) (retired : Raw.Event.retired rid p f ∈ raw.log) :
    Remains raw t rid p f := by
  -- Its reclaimer has run, or its batch is pending or in the hands of another thread.
  rcases consistent.conserved.kept rid p f retired with ⟨e, found, _⟩ | ran
  · obtain ⟨entry, read, _⟩ := Option.map_eq_some_iff.mp found
    obtain ⟨batch, stored, _⟩ := Raw.exists_of_entryIn read
    refine .inr ⟨e, found, ?_⟩
    rcases consistent.held inactive stored with pending | ⟨t', frame, member, works⟩
    · exact .inl pending
    · refine .inr ⟨t', ?_, frame, member, works⟩
      rintro rfl
      rw [returned] at member
      cases member
  · exact .inl ran

/-- What a cascade promises after any of its steps, where `bound` was known before the first. -/
structure Settling (cfg : Config) (script : Script) (t : Tid) (bound : Nat) (path : List Action)
    (c : Cascade) : Prop where
  /-- The cascade ends, unless weak exchanges fail again and again. -/
  bounded : path.length ≤ bound + path.countP fails
  /-- It ends by returning: until then some step can be taken, and no exchange has to fail. -/
  goesOn : c.Returned t ∨
    ∃ action c', fails action = false ∧ c.step cfg script t action = .ok c'
  /-- No reclaimer is invoked twice for one retirement. -/
  once : c.guards.raw.log.Pairwise fun new old =>
    ∀ rid, new.invokes = some rid → old.invokes ≠ some rid
  left : c.Returned t → (∀ s, ¬ c.guards.raw.Active s) → ∀ rid p f,
    Raw.Event.retired rid p f ∈ c.guards.raw.log → Remains c.guards.raw t rid p f

/--
Cascades terminate.

The bound covers all that the reclaimers lead to. Afterwards, if nothing is active, an object that
was retired is reclaimed or pending, or another thread has stopped in the middle of a call with it.
-/
theorem cascades_settle (cfg : Config) {script : Script} (founded : WellFounded (Retires script))
    {st st' : State} {t : Tid} {action : Action}
    (run : Reachable (Guards.step cfg) (Calm cfg) State.init st) (outside : st.raw.stack t = [])
    (calm : Calm cfg st (t, action))
    (ran : Guards.step cfg st (t, action) = .ok st') :
    ∃ bound, ∀ path c,
      runAll (Cascade.step cfg script t) path (Cascade.start script t st') = .ok c →
        Settling cfg script t bound path c := by
  have start : Cascading cfg t (Cascade.start script t st') :=
    Cascading.start run outside calm ran
  -- The potential at the start bounds the steps of every cascade.
  refine ⟨(Cascade.start script t st').gained cfg (workOf cfg script founded) t,
    fun path c went => ?_⟩
  have cascading : Cascading cfg t c :=
    runAll_invariant (Cascading cfg t) (fun _ _ _ before ran => before.step ran) start went
  have consistent := reachable_consistent (reachable_peaceful cascading.run).2
  refine ⟨start.bounded founded went, ?_, consistent.conserved.once, ?_⟩
  · by_cases returned : c.Returned t
    · exact .inl returned
    · exact .inr (cascading.progress returned)
  · exact fun returned inactive rid p f retired =>
      consistent.remains returned.1 inactive retired

/-- A computed run in which nobody calls `reclaim_all` is calm. -/
theorem calm_of_lawful {move : Tid × Action} (lawful : Lawful cfg st move)
    (checked : decide (move.2 ≠ .reclaimAll ∧ move.2 ≠ .panic) = true) : Calm cfg st move := by
  obtain ⟨away, returns⟩ := of_decide_eq_true checked
  exact ⟨lawful.fresh, lawful.apart, fun is => absurd is away, lawful.exits, returns⟩

/-- A check of the cascade that a step begins. -/
def startThen (cfg : Config) (script : Script) (t : Tid) (action : Action) (path : List Action)
    (final : Cascade → Bool) (st : State) : Bool :=
  (Guards.step cfg st (t, action)).toOption.any fun st' : State =>
    (runAll (Cascade.step cfg script t) path (Cascade.start script t st')).toOption.any final

/-- A computed result is one. -/
theorem exists_of_toOption {α ε : Type} {result : Except ε α} {check : α → Bool}
    (checked : result.toOption.any check = true) : ∃ a, result = .ok a ∧ check a = true := by
  cases result with
  | error stop => cases checked
  | ok a => exact ⟨a, rfl, checked⟩

/-- A checked cascade is one. -/
theorem startThen_runs {path : List Action} {final : Cascade → Bool}
    (checked : startThen cfg script t action path final st = true) :
    ∃ st' c, Guards.step cfg st (t, action) = .ok st' ∧
      runAll (Cascade.step cfg script t) path (Cascade.start script t st') = .ok c ∧
        final c = true := by
  obtain ⟨st', ran, checked⟩ := exists_of_toOption checked
  obtain ⟨c, went, ended⟩ := exists_of_toOption checked
  exact ⟨st', c, ran, went, ended⟩

/-- A check of a call other than `reclaim_all`, and of the cascade that it begins. -/
def cascadeThen (cfg : Config) (n : Nat) (script : Script) (t : Tid) (action : Action)
    (path : List Action) (final : Cascade → Bool) (st : State) : Bool :=
  lawfulCheck cfg n st (t, action) && decide (action ≠ .reclaimAll ∧ action ≠ .panic) &&
    decide (st.raw.stack t = []) && startThen cfg script t action path final st

/-- A checked call is calm, and its cascade is one. -/
theorem cascadeThen_runs {n : Nat} {path : List Action} {final : Cascade → Bool} (few : Few n st)
    (checked : cascadeThen cfg n script t action path final st = true) :
    Calm cfg st (t, action) ∧ st.raw.stack t = [] ∧
      ∃ st' c, Guards.step cfg st (t, action) = .ok st' ∧
        runAll (Cascade.step cfg script t) path (Cascade.start script t st') = .ok c ∧
          final c = true := by
  simp only [cascadeThen, Bool.and_eq_true, decide_eq_true_eq] at checked
  obtain ⟨⟨⟨rules, away⟩, outside⟩, checked⟩ := checked
  exact ⟨calm_of_lawful (lawful_of_check few rules) (decide_eq_true away), outside,
    startThen_runs checked⟩

/-- The reclaimer of one object retires another one. -/
def chain : Script := fun p _ => if p = 7 then [.retire 8 9] else []

/-- The other one leads nowhere. -/
theorem chain_founded : WellFounded (Retires chain) := by
  refine Subrelation.wf ?_ (measure fun o : Ptr × Reclaim => if o.1 = 7 then 1 else 0).wf
  intro a b retires
  obtain ⟨p, f⟩ := a
  obtain ⟨q, g⟩ := b
  simp only [Retires, chain] at retires
  split at retires
  · rename_i first
    rw [List.mem_singleton] at retires
    cases retires
    simp [InvImage, WellFoundedRelation.rel, first]
  · cases retires

/-- A retirement whose reclaimer retires another object, with a batch size of one. -/
theorem cascades_settle_chain : ∃ (bound : Nat) (path : List Action) (c : Cascade),
    c.Returned 0 ∧ Raw.Event.reclaimed 1 8 9 (some 5) ∈ c.guards.raw.log ∧
      Settling ⟨64, 1⟩ chain 0 bound path c := by
  obtain ⟨st, run, few, ended⟩ := reachable_lawful_of_check ⟨64, 1⟩ 1 (Calm ⟨64, 1⟩)
    (fun _ move => decide (move.2 ≠ .reclaimAll ∧ move.2 ≠ .panic))
    (cascadeThen ⟨64, 1⟩ 1 chain 0 (.retire 7 9 (Raw.plenty 1))
      [.skip (2 ^ 64 - 32), .advance false, .advance false, .advance false,
        .retire 8 9 (Raw.plenty 2), .skip (2 ^ 64 - 32), .advance false, .advance false,
        .advance false, .ret, .advance false, .ret, .advance false]
      fun c => decide (c.guards.raw.stack 0 = [] ∧ c.guards.due 0 = false ∧
        Raw.Event.reclaimed 1 8 9 (some 5) ∈ c.guards.raw.log))
    [(0, .current)] (fun _ _ lawful checked => calm_of_lawful lawful checked) (by decide)
  obtain ⟨calm, outside, st', c, ran, went, final⟩ := cascadeThen_runs few ended
  obtain ⟨empty, notDue, reclaimed⟩ := of_decide_eq_true final
  obtain ⟨bound, settles⟩ := cascades_settle ⟨64, 1⟩ chain_founded run outside calm ran
  exact ⟨bound, _, c, ⟨empty, notDue⟩, reclaimed, settles _ c went⟩

end Seize.Guards
