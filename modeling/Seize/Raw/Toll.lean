import Seize.Raw.Conserve
import Seize.Raw.Counts
import Seize.Raw.Defined
import Mathlib.Algebra.GroupWithZero.Nat
import Mathlib.Algebra.Order.BigOperators.Group.Finset
import Mathlib.Algebra.Order.BigOperators.Group.List

/-!
What the calls in progress still cost.

A frame costs the steps it may still take, a linked entry the step of the traversal that will visit
it, and a retired object all the work that its reclaimer leads to. An object is paid for when it is
retired, and gives its weight back when its reclaimer is invoked.
-/

namespace Seize.Raw

variable {cfg : Config} {st st' : State} {t : Tid} {action : Action} {s : SlotId}

/--
The steps that a frame may still take.

A scan also pays for the linking loop it leads to, and a link for the visit of its entry.
-/
def Frame.toll (cfg : Config) : Frame → Nat
  | .reclaimer .. => 1
  | .scan _ _ _ cursor marked => 5 * (cfg.slots - cursor) + 4 * marked + 4
  | .link _ marked i _ seen => 4 * (marked - i) + (if seen.isSome then 2 else 3)
  | .traverse _ rest => 2 * rest.length + 1
  | .freeBatch .. => 1
  | .reclaimAll cursor => 3 * (cfg.slots - cursor) + 1
  | .reclaimReset cursor => 3 * (cfg.slots - (cursor + 1)) + 2

/-- The steps of a whole stack. -/
def tolls (cfg : Config) (frames : List Frame) : Nat := (frames.map (Frame.toll cfg)).sum

/-- The tolls of a stack, from the top. -/
@[simp] theorem tolls_cons (f : Frame) (below : List Frame) :
    tolls cfg (f :: below) = f.toll cfg + tolls cfg below := by
  simp [tolls]

/-- The number of entries on the reservation lists. -/
def listed (cfg : Config) (pushed : SlotId → List EntryPtr) : Nat :=
  ∑ s ∈ Finset.range cfg.slots, (pushed s).length

/-- A reservation list is replaced. -/
theorem listed_update (pushed : SlotId → List EntryPtr) (list : List EntryPtr)
    (small : s < cfg.slots) :
    listed cfg (Function.update pushed s list) + (pushed s).length =
      listed cfg pushed + list.length := by
  have member : s ∈ Finset.range cfg.slots := Finset.mem_range.mpr small
  -- The summand of the slot is taken out, and the others stay.
  have split (list' : SlotId → List EntryPtr) : listed cfg list' =
      (list' s).length + ∑ v ∈ (Finset.range cfg.slots).erase s, (list' v).length :=
    (Finset.add_sum_erase _ (fun v => (list' v).length) member).symm
  have others : ∑ v ∈ (Finset.range cfg.slots).erase s, (Function.update pushed s list v).length =
      ∑ v ∈ (Finset.range cfg.slots).erase s, (pushed v).length := by
    refine Finset.sum_congr rfl fun v inside => ?_
    rw [Function.update_of_ne (Finset.ne_of_mem_erase inside)]
  rw [split, split pushed, others, Function.update_self]
  omega

/-- The work that an event adds when it is a retirement. -/
def Event.added (work : Ptr → Reclaim → Nat) : Event → Nat
  | .retired _ p f => work p f
  | _ => 0

/-- The work that an event takes up when it is a call of a reclaimer. -/
def Event.taken (work : Ptr → Reclaim → Nat) : Event → Nat
  | .reclaimed _ p f _ => work p f
  | _ => 0

/-- What has been gained for the steps still to come. -/
def gained (cfg : Config) (work : Ptr → Reclaim → Nat) (st : State) (t : Tid) : Nat :=
  (st.log.map (Event.added work)).sum + 2 * listed cfg st.pushed + tolls cfg (st.stack t)

/-- What has been spent on reclaimers. -/
def spent (work : Ptr → Reclaim → Nat) (st : State) : Nat := (st.log.map (Event.taken work)).sum

/-- The reclaimer that a step has called. -/
def opened (old new : List Frame) : Option (Ptr × Reclaim) :=
  match new with
  | .reclaimer _ p f :: _ => if old.length < new.length then some (p, f) else none
  | _ => none

/-- Only slots of thread IDs are active. -/
structure Spanned (cfg : Config) (st : State) : Prop where
  created : ∀ s ∈ st.created, s < cfg.slots
  active : ∀ s, st.Active s → s ∈ st.created

/-- An active slot is one that an iteration passes. -/
theorem Spanned.bounded (spanned : Spanned cfg st) (active : st.Active s) : s < cfg.slots :=
  spanned.created s (spanned.active s active)

/-- Steps that change neither the heads nor the table keep the slots in range. -/
theorem Spanned.same (spanned : Spanned cfg st) (head : st'.head = st.head)
    (created : st'.created = st.created) : Spanned cfg st' := by
  refine ⟨fun s member => spanned.created s (created ▸ member), fun s active => ?_⟩
  rw [created]
  refine spanned.active s ?_
  rw [State.Active, ← head]
  exact active

/-- Steps that write the head of a slot that is there keep the slots in range. -/
theorem Spanned.update {head : Head} (spanned : Spanned cfg st)
    (heads : st'.head = Function.update st.head s head) (created : st'.created = st.created)
    (there : s ∈ st.created ∨ head = .inactive) : Spanned cfg st' := by
  refine ⟨fun v member => spanned.created v (created ▸ member), fun v active => ?_⟩
  rw [State.Active, heads] at active
  rw [created]
  by_cases here : v = s
  · subst here
    rw [Function.update_self] at active
    exact there.resolve_right active
  · rw [Function.update_of_ne here] at active
    exact spanned.active v active

/-- Every step that has access keeps the slots in range. -/
theorem Move.spanned (moved : Move cfg st t action st') (access : Access cfg st (t, action))
    (spanned : Spanned cfg st) : Spanned cfg st' := by
  cases moved with
  | @create s =>
    refine ⟨fun v member => ?_, fun v active => List.mem_cons_of_mem _ (spanned.active v active)⟩
    rcases List.mem_cons.mp member with rfl | old
    · exact access
    · exact spanned.created v old
  | enter | refreshIdle | refresh => exact spanned.update rfl rfl (.inl access)
  | leaveIdle | leave => exact spanned.update rfl rfl (.inr rfl)
  | refused _ prep | immediate _ prep | pushed _ prep | filled _ prep =>
    exact spanned.same prep.same.2.1 prep.same.2.2.2.1
  | reserve _ prep => exact spanned.same prep.same.2.1 prep.same.2.2.2.1
  | @publish b marked i active s prev below batch spurious _ _ _ same =>
    -- The slot was active, so it is there.
    have there : s ∈ st.created := spanned.active s (by rw [State.Active, same]; simp)
    exact spanned.update rfl rfl (.inl there)
  | _ => exact spanned.same rfl rfl

/-- Only slots of thread IDs are active in every state of a run with access. -/
theorem reachable_spanned (run : Reachable (Raw.step cfg) (Access cfg) State.init st) :
    Spanned cfg st := by
  refine run.invariant (Spanned cfg) ⟨?_, ?_⟩ ?_
  · intro s member
    cases member
  · intro s active
    exact absurd rfl active
  · intro st₀ move st₁ _ spanned access ran
    obtain ⟨st₂, moved, rfl⟩ := step_move ran
    exact (moved.spanned access spanned).same rfl rfl

/-- The linking loop of a thread, if it is in one, has seen the head that is there now. -/
def Unraced (st : State) (t : Tid) : Prop :=
  ∀ b marked i active s head below,
    st.stack t = .link b marked i active (some (s, head)) :: below → st.head s = head

/-- No linking loop is on top of the stack. -/
theorem Unraced.of_top {f : Frame} {below : List Frame} (top : st.stack t = f :: below)
    (other : ∀ b marked i active seen, f = .link b marked i active seen → seen = none) :
    Unraced st t := by
  intro b marked i active s head below' top'
  rw [top] at top'
  cases top'
  cases other _ _ _ _ _ rfl

/-- User code is in no linking loop. -/
theorem Unraced.of_user (user : userLevel (st.stack t)) : Unraced st t := by
  intro b marked i active s head below top
  rw [top] at user
  cases user

/-- A call that returns does not return to a linking loop. -/
theorem Unraced.of_tail {f : Frame} {below : List Frame} (top : TopOnly (f :: below))
    (stack : st.stack t = below) : Unraced st t := by
  intro b marked i active s head below' top'
  have leaf := top (.link b marked i active (some (s, head))) (by rw [← stack, top']; simp)
  cases leaf

/-- While the other threads do nothing, a linking loop is never raced. -/
theorem Move.unraced (moved : Move cfg st t action st') (tops : TopOnly (st.stack t))
    (calm : action ≠ .panic) : Unraced st' t := by
  have pushed {f : Frame} {frames : List Frame} {st₁ : State}
      (other : ∀ b marked i active seen, f = .link b marked i active seen → seen = none) :
      Unraced (st₁.setStack t (f :: frames)) t := .of_top (Function.update_self ..) other
  have popped {f : Frame} {below : List Frame} {st₁ : State} (top : st.stack t = f :: below) :
      Unraced (st₁.setStack t below) t := .of_tail (top ▸ tops) (Function.update_self ..)
  cases moved with
  | panic => exact absurd rfl calm
  | known user | create user | enter user | leaveIdle user | refreshIdle user | flushNone user
  | access user => exact .of_user user
  | refused user prep | pushed user prep | reserve user prep =>
    exact .of_user (by rw [← prep.same.1] at user; exact user)
  | ret top | abort top | addShare top | done top | dealloc top | finish top => exact popped top
  | load | retry =>
    -- The head that the loop holds was read in this step.
    intro b' marked' i' active' s' head' below' top'
    have same := (Function.update_self ..).symm.trans top'
    cases same
    rfl
  | commit | gone | publish =>
    refine pushed ?_
    rintro b marked i active seen ⟨⟩
    rfl
  | _ => exact pushed (by simp)

/-- A step that has lost a race: its linking loop now holds the head that another thread has left. -/
def Retried (st : State) (t : Tid) (st' : State) : Prop :=
  ∃ b marked i active s prev below,
    st.stack t = .link b marked i active (some (s, .list prev)) :: below ∧ st.head s ≠ .list prev ∧
      st'.stack t = .link b marked i active (some (s, st.head s)) :: below ∧ st'.head = st.head ∧
        st'.log = st.log ∧ st'.pushed = st.pushed

/-- A loop that nobody has raced loses no race. -/
theorem Unraced.not_retried (unraced : Unraced st t) : ¬ Retried st t st' := by
  rintro ⟨b, marked, i, active, s, prev, below, top, differs, _⟩
  exact differs (unraced _ _ _ _ _ _ _ top)

/-- What an action is paid for, beyond what its thread has gained before. -/
def price (cfg : Config) (work : Ptr → Reclaim → Nat) : Action → Nat
  | .add _ p f _ => work p f + 5 * cfg.slots + 5
  | .flush _ => 5 * cfg.slots + 5
  | .leave _ => 2
  | .refresh _ => 2
  | .reclaimAll => 3 * cfg.slots + 2
  | .ret => 0
  | .panic => 0
  | .advance spurious => if spurious then 1 else 0
  | .skip _ => 0
  | _ => 1

/-- The innermost call is an iteration that has not passed a slot yet. -/
def before (target : SlotId) : List Frame → Bool
  | .scan _ _ _ cursor _ :: _ => cursor < target
  | .reclaimAll cursor :: _ => cursor < target
  | _ => false

/-- An iteration that has not passed the target of a skip moves. -/
theorem Move.skip_moves {target : SlotId} (moved : Move cfg st t (.skip target) st')
    (ahead : before target (st.stack t) = true) : st'.stack t ≠ st.stack t := by
  cases moved with
  | skipScan top | skipReclaim top =>
    rw [top, before, decide_eq_true_eq] at ahead
    have stack := Function.update_self (f := st.stack) t
    -- The same stack would have the cursor at its target.
    intro same
    have eq := (stack _).symm.trans (same.trans top)
    cases eq
    exact Nat.lt_irrefl _ ahead

/-- A return calls no reclaimer. -/
theorem opened_of_le {old new : List Frame} (shorter : new.length ≤ old.length) :
    opened old new = none := by
  unfold opened
  split
  · rw [if_neg (Nat.not_lt.mpr shorter)]
  · rfl

/-- Only a reclaimer on top has been called. -/
theorem opened_of_top {old below : List Frame} {f : Frame}
    (other : ∀ rid p reclaim, f ≠ .reclaimer rid p reclaim) : opened old (f :: below) = none := by
  cases f with
  | reclaimer rid p reclaim => exact absurd rfl (other rid p reclaim)
  | _ => rfl

section Tolls

variable {work extra : Ptr → Reclaim → Nat}

/-- The work of the reclaimer that a step has called. -/
def openedWork (extra : Ptr → Reclaim → Nat) (old new : List Frame) : Nat :=
  (opened old new).elim 0 fun o => extra o.1 o.2

/-- A step that retires and reclaims nothing, and leaves the reservation lists alone. -/
theorem toll_quiet {cost : Nat}
    (added : (st'.log.map (Event.added work)).sum = (st.log.map (Event.added work)).sum)
    (taken : (st'.log.map (Event.taken work)).sum = (st.log.map (Event.taken work)).sum)
    (pushed : listed cfg st'.pushed ≤ listed cfg st.pushed)
    (none_ : opened (st.stack t) (st'.stack t) = none)
    (cheaper : tolls cfg (st'.stack t) + 1 ≤ tolls cfg (st.stack t) + cost) :
    gained cfg work st' t + spent work st + openedWork extra (st.stack t) (st'.stack t) + 1 ≤
      gained cfg work st t + spent work st' + cost := by
  simp only [gained, spent, openedWork, none_, Option.elim_none, added, taken]
  omega

/-- Emptying a reservation list adds nothing to the lists. -/
theorem listed_clear (pushed : SlotId → List EntryPtr) (s : SlotId) :
    listed cfg (Function.update pushed s []) ≤ listed cfg pushed := by
  refine Finset.sum_le_sum fun v _ => ?_
  by_cases here : v = s
  · subst here
    simp
  · rw [Function.update_of_ne here]

/-- A list that is swapped out of its slot is paid for by the traversal that gets it. -/
theorem toll_swapped {first : Option EntryPtr} (small : s < cfg.slots) (log : st'.log = st.log)
    (pushed : st'.pushed = Function.update st.pushed s [])
    (stack : st'.stack t = .traverse first (st.pushed s) :: st.stack t) :
    gained cfg work st' t + spent work st + openedWork extra (st.stack t) (st'.stack t) + 1 ≤
      gained cfg work st t + spent work st' + 2 := by
  have moved := listed_update st.pushed [] small
  have none_ : opened (st.stack t) (st'.stack t) = none := by
    rw [stack]
    exact opened_of_top (by simp)
  rw [List.length_nil] at moved
  simp only [gained, spent, openedWork, none_, Option.elim_none, log, pushed]
  rw [stack, tolls_cons, Frame.toll]
  omega

/-- A published entry pays for its visit. -/
theorem toll_published {cost : Nat} {b : Addr} {marked i active : Nat} {prev : Option EntryPtr} {e : EntryPtr}
    {below : List Frame} (small : s < cfg.slots) (more : i < marked)
    (top : st.stack t = .link b marked i active (some (s, .list prev)) :: below)
    (log : st'.log = st.log)
    (pushed : st'.pushed = Function.update st.pushed s (e :: st.pushed s))
    (stack : st'.stack t = .link b marked (i + 1) (active + 1) none :: below) :
    gained cfg work st' t + spent work st + openedWork extra (st.stack t) (st'.stack t) + 1 ≤
      gained cfg work st t + spent work st' + cost := by
  have moved := listed_update st.pushed (e :: st.pushed s) small
  have none_ : opened (st.stack t) (st'.stack t) = none := by
    rw [stack]
    exact opened_of_top (by simp)
  rw [List.length_cons] at moved
  simp only [gained, spent, openedWork, none_, Option.elim_none, log, pushed]
  simp only [stack, top, tolls_cons, Frame.toll, Option.isSome_some, Option.isSome_none, if_pos,
    Bool.false_eq_true, if_false]
  omega

/-- Preparing a retirement changes neither stacks, nor lists, nor the log. -/
theorem Prep.silent {st₁ : State} (prep : Prep cfg s { st with nextRid := st.nextRid + 1 } st₁) :
    st₁.stack = st.stack ∧ st₁.pushed = st.pushed ∧ st₁.log = st.log := by
  obtain ⟨stack, _, pushed, _, _, _, _, log, _⟩ := prep.same
  exact ⟨stack, pushed, log⟩

/-- A step of the innermost call that only records what is neither gained nor spent. -/
theorem toll_stepped (events : List Event) {f : Frame} {below new : List Frame} {cost : Nat}
    (top : st.stack t = f :: below) (stack : st'.stack t = new) (log : st'.log = events ++ st.log)
    (quiet : ∀ event ∈ events, event.rid = none) (pushed : st'.pushed = st.pushed)
    (none_ : opened (f :: below) new = none)
    (cheaper : tolls cfg new + 1 ≤ f.toll cfg + tolls cfg below + cost) :
    gained cfg work st' t + spent work st + openedWork extra (st.stack t) (st'.stack t) + 1 ≤
      gained cfg work st t + spent work st' + cost := by
  -- Such events neither add work nor take it up.
  have idle : (events.map (Event.added work)).sum = 0 ∧ (events.map (Event.taken work)).sum = 0 := by
    clear log
    induction events with
    | nil => simp
    | cons event rest ih =>
      obtain ⟨added, taken⟩ := ih fun later member => quiet later (List.mem_cons_of_mem _ member)
      have plain := quiet event List.mem_cons_self
      cases event with
      | retired | refused | reclaimed => cases plain
      | _ => simp [Event.added, Event.taken, added, taken]
  refine toll_quiet ?_ ?_ (by rw [pushed]) (by rw [top, stack]; exact none_) ?_
  · rw [log, List.map_append, List.sum_append, idle.1, Nat.zero_add]
  · rw [log, List.map_append, List.sum_append, idle.2, Nat.zero_add]
  · rw [top, stack, tolls_cons]
    exact cheaper

/-- The inversion of what a move costs: it is paid by its price, or by what was gained before. -/
theorem Move.toll (moved : Move cfg st t action st') (inv : Inv cfg st) (spanned : Spanned cfg st)
    (unraced : ¬ Retried st t st') (calm : action ≠ .panic)
    (forward : ∀ target, action = .skip target → st'.stack t ≠ st.stack t)
    (heavy : ∀ p f, extra p f + 2 ≤ work p f) :
    gained cfg work st' t + spent work st + openedWork extra (st.stack t) (st'.stack t) + 1 ≤
      gained cfg work st t + spent work st' + price cfg work action := by
  have same {frames : List Frame} : opened frames frames = none := opened_of_le (Nat.le_refl _)
  cases moved with
  | panic => exact absurd rfl calm
  | known | create | access => exact toll_quiet rfl rfl (Nat.le_refl _) same (Nat.le_refl _)
  | flushNone => exact toll_quiet rfl rfl (Nat.le_refl _) same (by simp [price])
  | enter => exact toll_quiet rfl rfl (listed_clear _ _) same (Nat.le_refl _)
  | leaveIdle | refreshIdle =>
    exact toll_quiet rfl rfl (listed_clear _ _) same (Nat.add_le_add_left (Nat.le_succ 1) _)
  | @leave s first _ active | @refresh s first _ active =>
    have small : s < cfg.slots := spanned.bounded (by rw [State.Active, active]; simp)
    exact toll_swapped small rfl rfl (Function.update_self ..)
  | reserve _ prep =>
    obtain ⟨stack, _, pushed, _, _, _, _, log, _⟩ := prep.same
    exact toll_quiet (by rw [log]) (by rw [log]) (by rw [pushed]) (by rw [stack]; exact same)
      (by rw [stack]; exact Nat.le_refl _)
  | refused _ prep =>
    obtain ⟨stack, pushed, log⟩ := prep.silent
    refine toll_quiet ?_ ?_ (by rw [State.record, pushed]) ?_ ?_
    · simp [State.record, log, Event.added]
    · simp [State.record, log, Event.taken]
    · rw [State.record, stack]
      exact same
    · rw [State.record, stack, price]
      omega
  | @pushed s p f c st₁ b batch _ prep =>
    -- The retirement pays for the work of its reclaimer.
    obtain ⟨stack, pushed, log⟩ := prep.silent
    simp only [gained, spent, openedWork, pushEntry, State.record, State.setBatch, stack, pushed,
      log, same, Option.elim_none, List.map_cons, List.sum_cons, Event.added, Event.taken, price]
    omega
  | @filled s p f c st₁ b batch _ prep =>
    obtain ⟨stack, pushed, log⟩ := prep.silent
    have none_ {below : List Frame} {start : Nat} :
        opened (st.stack t) (.scan s b start 0 0 :: below) = none := opened_of_top (by simp)
    simp only [gained, spent, openedWork, pushEntry, State.record, State.setBatch, State.call,
      State.setStack, Function.update_self, stack, pushed, log, none_, Option.elim_none,
      List.map_cons, List.sum_cons, Event.added, Event.taken, price, tolls_cons, Frame.toll]
    omega
  | @immediate s p f c st₁ _ prep =>
    -- The object gives its weight back at once, which pays for its reclaimer.
    obtain ⟨stack, pushed, log⟩ := prep.silent
    have enough := heavy p f
    have some_ : opened (st.stack t) (.reclaimer st.nextRid p f :: st.stack t) = some (p, f) := by
      simp [opened]
    simp only [gained, spent, openedWork, State.record, State.call, State.setStack,
      Function.update_self, stack, pushed, log, some_, Option.elim_some, List.map_cons,
      List.sum_cons, Event.added, Event.taken, price, tolls_cons, Frame.toll]
    omega
  | reclaimAll =>
    have none_ : opened (st.stack t) (.reclaimAll 0 :: st.stack t) = none := opened_of_top (by simp)
    refine toll_quiet rfl rfl (Nat.le_refl _) ?_ ?_
    · simpa only [State.call, State.setStack, Function.update_self] using none_
    · simp only [State.call, State.setStack, Function.update_self, tolls_cons, Frame.toll, price]
      omega
  | @flush s b batch =>
    have none_ : opened (st.stack t) (.scan s b st.clock 0 0 :: st.stack t) = none :=
      opened_of_top (by simp)
    refine toll_quiet rfl rfl (Nat.le_refl _) ?_ ?_
    · simpa only [State.call, State.setStack, Function.update_self] using none_
    · simp only [State.call, State.setStack, Function.update_self, tolls_cons, Frame.toll, price]
      omega
  | ret top | abort top | done top | dealloc top | finish top =>
    -- The call returns, which costs nothing more.
    refine toll_stepped [] top (Function.update_self ..) rfl (by simp) rfl
      (opened_of_le (by simp)) ?_
    simp only [Frame.toll, price]
    omega
  | addShare top =>
    refine toll_stepped [_] top (Function.update_self ..) rfl (by simp [Event.rid]) rfl
      (opened_of_le (by simp)) ?_
    simp only [Frame.toll]
    split <;> omega
  | @skipScan s b start cursor marked below target top bounded ahead =>
    have further : cursor < target := by
      refine Nat.lt_of_le_of_ne ahead ?_
      rintro rfl
      exact forward cursor rfl ((Function.update_self ..).trans top.symm)
    refine toll_stepped [] top (Function.update_self ..) rfl (by simp) rfl
      (opened_of_top (by simp)) ?_
    simp only [tolls_cons, Frame.toll, price]
    omega
  | @skipReclaim cursor below target top bounded ahead =>
    have further : cursor < target := by
      refine Nat.lt_of_le_of_ne ahead ?_
      rintro rfl
      exact forward cursor rfl ((Function.update_self ..).trans top.symm)
    refine toll_stepped [] top (Function.update_self ..) rfl (by simp) rfl
      (opened_of_top (by simp)) ?_
    simp only [tolls_cons, Frame.toll, price]
    omega
  | commit top =>
    refine toll_stepped [_] top (Function.update_self ..) rfl (by simp [Event.rid]) rfl
      (opened_of_top (by simp)) ?_
    simp only [tolls_cons, Frame.toll, Option.isSome_none, Bool.false_eq_true, if_false]
    omega
  | pass top _ more | mark top _ more =>
    refine toll_stepped [] top (Function.update_self ..) rfl (by simp) rfl
      (opened_of_top (by simp)) ?_
    simp only [tolls_cons, Frame.toll]
    omega
  | addFree top =>
    refine toll_stepped [_, _] top (Function.update_self ..) rfl (by simp [Event.rid]) rfl
      (opened_of_top (by simp)) ?_
    simp only [tolls_cons, Frame.toll]
    split <;> omega
  | load top _ more | gone top _ more =>
    refine toll_stepped [] top (Function.update_self ..) rfl (by simp) rfl
      (opened_of_top (by simp)) ?_
    simp only [tolls_cons, Frame.toll, Option.isSome_some, Option.isSome_none, if_pos,
      Bool.false_eq_true, if_false]
    omega
  | @publish b marked i active s prev below batch spurious top _ more there =>
    have small : s < cfg.slots := spanned.bounded (by rw [State.Active, there]; simp)
    exact toll_published small more top rfl rfl (Function.update_self ..)
  | @retry b marked i active s prev below batch spurious top _ more failed =>
    -- Nobody has changed the head, so the exchange failed spuriously.
    have weak : spurious = true := failed.resolve_left fun differs => unraced
      ⟨b, marked, i, active, s, prev, below, top, differs, Function.update_self .., rfl, rfl, rfl⟩
    refine toll_stepped [] top (Function.update_self ..) rfl (by simp) rfl
      (opened_of_top (by simp)) ?_
    simp only [tolls_cons, Frame.toll, Option.isSome_some, if_pos, price, weak]
    omega
  | releaseFree top read state stored =>
    -- The list is not empty, so a visit of it was paid for.
    obtain ⟨_, tail, rfl, _⟩ := inv.visit top read state stored
    refine toll_stepped [_] top (Function.update_self ..) rfl (by simp [Event.rid]) rfl
      (opened_of_top (by simp)) ?_
    simp only [tolls_cons, Frame.toll, List.tail_cons, List.length_cons]
    omega
  | releaseCount top read state stored =>
    obtain ⟨_, tail, rfl, _⟩ := inv.visit top read state stored
    refine toll_stepped [] top (Function.update_self ..) rfl (by simp) rfl
      (opened_of_top (by simp)) ?_
    simp only [tolls_cons, Frame.toll, List.tail_cons, List.length_cons]
    omega
  | @invoke b i below batch entry spurious top =>
    -- The weight of the object pays for its reclaimer.
    have enough := heavy entry.ptr entry.reclaim
    have some_ : opened (st.stack t) (.reclaimer entry.rid entry.ptr entry.reclaim ::
        .freeBatch (.ptr b) (i + 1) :: below) = some (entry.ptr, entry.reclaim) := by
      simp [opened, top]
    simp only [gained, spent, openedWork, State.record, State.setStack, Function.update_self, some_,
      Option.elim_some, List.map_cons, List.sum_cons, Event.added, Event.taken, tolls_cons,
      Frame.toll]
    rw [top, tolls_cons, Frame.toll]
    omega
  | next top more | reset top =>
    refine toll_stepped [] top (Function.update_self ..) rfl (by simp) rfl
      (opened_of_top (by simp)) ?_
    simp only [tolls_cons, Frame.toll]
    omega
  | take top more =>
    refine toll_stepped [_] top (Function.update_self ..) rfl (by simp [Event.rid]) rfl
      (opened_of_top (by simp)) ?_
    simp only [tolls_cons, Frame.toll]
    omega
  | takeWrong top more =>
    refine toll_stepped [] top (Function.update_self ..) rfl (by simp) rfl
      (opened_of_top (by simp)) ?_
    simp only [tolls_cons, Frame.toll]
    omega

end Tolls

/-- The object that an event hands to its reclaimer. -/
def Event.invoked : Event → Option Object
  | .reclaimed rid p f _ => some ⟨rid, p, f⟩
  | _ => none

/-- The object that an event retires. -/
def Event.accepted : Event → Option Object
  | .retired rid p f => some ⟨rid, p, f⟩
  | _ => none

/-- What was spent is the work of the objects that were handed to their reclaimers. -/
theorem taken_eq (work : Ptr → Reclaim → Nat) (log : List Event) :
    (log.map (Event.taken work)).sum =
      ((log.filterMap Event.invoked).map fun o => work o.ptr o.reclaim).sum := by
  induction log with
  | nil => rfl
  | cons event rest ih =>
    cases event <;> simp [List.filterMap_cons, Event.taken, Event.invoked, ih]

/-- What was gained from the log is the work of the objects that were retired. -/
theorem added_eq (work : Ptr → Reclaim → Nat) (log : List Event) :
    (log.map (Event.added work)).sum =
      ((log.filterMap Event.accepted).map fun o => work o.ptr o.reclaim).sum := by
  induction log with
  | nil => rfl
  | cons event rest ih =>
    cases event <;> simp [List.filterMap_cons, Event.added, Event.accepted, ih]

/-- Only what was gained is spent: a reclaimer is invoked once, and for a retired object. -/
theorem Conserved.solvent (conserved : Conserved st) (work : Ptr → Reclaim → Nat) (t : Tid) :
    spent work st ≤ gained cfg work st t := by
  have distinct : (st.log.filterMap Event.invoked).Nodup := by
    rw [List.Nodup, List.pairwise_filterMap]
    refine conserved.once.imp fun {new old} apart object is object' is' same => ?_
    subst same
    cases new <;> cases is
    cases old <;> cases is'
    exact apart _ rfl rfl
  have known : st.log.filterMap Event.invoked ⊆ st.log.filterMap Event.accepted := by
    intro object member
    obtain ⟨event, logged, is⟩ := List.mem_filterMap.mp member
    cases event <;> cases is
    exact List.mem_filterMap.mpr ⟨_, conserved.invoked _ _ _ _ logged, rfl⟩
  -- Distinct members of a list add up to no more than the list.
  obtain ⟨kept, order, inside⟩ := List.subperm_of_subset distinct known
  have less := (inside.map fun o => work o.ptr o.reclaim).sum_le_sum (by simp)
  rw [(order.map fun o => work o.ptr o.reclaim).sum_eq] at less
  rw [spent, gained, taken_eq, added_eq]
  omega

/-- A call of the collector that is in progress takes its next step. -/
theorem advance_ok (inv : Inv cfg st) (inside : userLevel (st.stack t) = false) (spurious : Bool) :
    ∃ st', advance cfg st t spurious = .ok st' := by
  -- Only user code has no next step of its own.
  have enabled : advance cfg st t spurious ≠ .error .disabled := by
    cases stack : st.stack t with
    | nil => simp [stack, userLevel] at inside
    | cons f below =>
      rw [stack] at inside
      cases f with
      | reclaimer => cases inside
      | scan =>
        simp only [advance, stack, scanStep]
        repeat' split
        all_goals simp
      | link =>
        simp only [advance, stack, linkStep]
        repeat' split
        all_goals simp
      | traverse =>
        simp only [advance, stack, traverseStep]
        repeat' split
        all_goals simp
      | freeBatch =>
        simp only [advance, stack, freeBatchStep]
        repeat' split
        all_goals simp
      | reclaimAll =>
        simp only [advance, stack, reclaimAllStep]
        repeat' split
        all_goals simp
      | reclaimReset => simp [advance, stack, reclaimResetStep]
  cases ran : advance cfg st t spurious with
  | ok st' => exact ⟨st', rfl⟩
  | error stop =>
    cases stop with
    | undefinedBehaviour => exact absurd ran (advance_defined inv spurious)
    | disabled => exact absurd ran enabled

end Seize.Raw
