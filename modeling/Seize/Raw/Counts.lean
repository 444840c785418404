import Seize.Raw.Tended

/-! The reference count of a batch counts the entries that are linked, and frees it exactly once. -/

namespace Seize.Raw

variable {cfg : Config} {st st' : State} {t : Tid} {action : Action} {b : Addr} {batch : Batch}

/-- Every linked entry is on a reservation list or on a list that a call is traversing. -/
def Covered (st : State) : Prop := ∀ e, Linked st.mem e → ∃ place, e ∈ listAt st place

/-- Every entry of a list is still on one, apart from those that a step has released. -/
def ListsKept (st st' : State) (released : EntryPtr → Prop) : Prop :=
  ∀ place e, e ∈ listAt st place → ¬ released e → ∃ place', e ∈ listAt st' place'

/-- The lists depend on the stacks and the reservation lists alone. -/
theorem ListsKept.same (stack : st'.stack = st.stack) (pushed : st'.pushed = st.pushed)
    (released : EntryPtr → Prop) : ListsKept st st' released := by
  intro place e member _
  refine ⟨place, ?_⟩
  cases place with
  | slot s =>
    simp only [listAt, pushed]
    exact member
  | call t height =>
    simp only [listAt, State.frame, stack]
    exact member

/-- A call leaves every list where it was. -/
theorem ListsKept.call {f : Frame} (stack : st'.stack = Function.update st.stack t (f :: st.stack t))
    (pushed : st'.pushed = st.pushed) (released : EntryPtr → Prop) : ListsKept st st' released := by
  intro place e member _
  refine ⟨place, ?_⟩
  -- The new call is above all others, which stay where they are.
  cases place with
  | slot s =>
    simp only [listAt, pushed]
    exact member
  | call t' height =>
    simp only [listAt] at member ⊢
    cases found : st.frame t' height with
    | none => simp [found] at member
    | some g =>
      rw [found] at member
      rw [State.frame_kept_call stack found]
      exact member

/-- A step of the innermost call may only drop entries that it has released. -/
theorem ListsKept.top {f : Frame} (fs : List Frame) {below : List Frame} {released : EntryPtr → Prop}
    (top : st.stack t = f :: below)
    (stack : st'.stack = Function.update st.stack t (fs ++ below))
    (pushed : ∀ s, (st.pushed s).Sublist (st'.pushed s))
    (own : ∀ e ∈ f.rest, ¬ released e → ∃ g, frameAt (fs ++ below) below.length = some g ∧ e ∈ g.rest) :
    ListsKept st st' released := by
  intro place e member linked
  refine ⟨place, ?_⟩
  cases place with
  | slot s => exact (pushed s).subset member
  | call t' height =>
    simp only [listAt] at member ⊢
    cases found : st.frame t' height with
    | none => simp [found] at member
    | some g =>
      simp only [found] at member
      rcases State.frame_kept fs top stack found with ⟨rfl, rfl, rfl⟩ | kept
      · -- The innermost call itself: what it has not released, it still holds.
        obtain ⟨g', found', still⟩ := own e member linked
        simp only [State.frame, stack, Function.update_self, found']
        exact still
      · rw [kept]
        exact member

/-- The rule for steps that link nothing. -/
theorem Covered.keep (covered : Covered st) (released : EntryPtr → Prop)
    (kept : ListsKept st st' released)
    (links : ∀ e, Linked st'.mem e → Linked st.mem e ∧ ¬ released e) : Covered st' := by
  intro e linked
  obtain ⟨was, still⟩ := links e linked
  obtain ⟨place, member⟩ := covered e was
  exact kept place e member still

/-- A write to one batch that links no entry. -/
theorem Linked.of_update {mem : Addr → Option Batch} {after : Option Batch} {e : EntryPtr}
    (stored : mem b = some batch)
    (links : ∀ (batch' : Batch) (i : Nat) (entry' : Entry), after = some batch' →
      batch'.entries[i]? = some entry' → entry'.link = .linked →
        ∃ entry : Entry, batch.entries[i]? = some entry ∧ entry.link = .linked)
    (linked : Linked (Function.update mem b after) e) : Linked mem e := by
  obtain ⟨entry', read, isLinked⟩ := linked
  obtain ⟨batch', stored', found⟩ := exists_of_entryIn read
  rcases stored_update stored' with ⟨here, new⟩ | ⟨_, old⟩
  · obtain ⟨entry, read', isLinked'⟩ := links batch' e.index entry' new found isLinked
    exact ⟨entry, by rw [entryIn_eq (here ▸ stored), read'], isLinked'⟩
  · exact ⟨entry', by rw [entryIn_eq old, found], isLinked⟩

/-- Preparing a slot links nothing. -/
theorem Prep.covered {s : SlotId} (prep : Prep cfg s st st') (covered : Covered st) : Covered st' := by
  induction prep with
  | refl => exact covered
  | load _ _ ih => exact ih
  | unboxed _ _ _ ih => exact ih
  | @fresh st₁ b _ _ free ih =>
    -- The new batch has no entries.
    refine ih.keep (fun _ => False) (.same rfl rfl _) fun e linked => ⟨?_, not_false⟩
    obtain ⟨entry, read, isLinked⟩ := linked
    obtain ⟨batch, stored, found⟩ := exists_of_entryIn read
    rcases stored_update stored with ⟨_, new⟩ | ⟨_, old⟩
    · cases new
      simp [newBatch] at found
    · exact ⟨entry, by rw [entryIn_eq old, found], isLinked⟩
  | @grow st₁ b batch cap _ _ stored _ ih =>
    refine ih.keep (fun _ => False) (.same rfl rfl _) fun e linked => ⟨?_, not_false⟩
    refine Linked.of_update stored ?_ linked
    rintro batch' i entry' ⟨⟩ read isLinked
    exact ⟨entry', read, isLinked⟩

/-- A batch with the same entries has the same links. -/
theorem Linked.of_restage {mem : Addr → Option Batch} {batch' : Batch} {e : EntryPtr}
    (stored : mem b = some batch) (same : batch'.entries = batch.entries)
    (linked : Linked (Function.update mem b (some batch')) e) : Linked mem e := by
  refine Linked.of_update stored ?_ linked
  intro batch₁ i entry' eq read isLinked
  cases eq
  rw [same] at read
  exact ⟨entry', read, isLinked⟩

/-- An entry that is pushed to a batch is not linked. -/
theorem Linked.of_push {mem : Addr → Option Batch} {e : EntryPtr} {p : Ptr} {f : Reclaim} {rid : Nat}
    (stored : mem b = some batch)
    (linked : Linked (Function.update mem b (some { batch with
      entries := batch.entries ++ [newEntry b p f rid] })) e) : Linked mem e := by
  refine Linked.of_update stored ?_ linked
  intro batch₁ i entry' eq read isLinked
  cases eq
  by_cases small : i < batch.entries.length
  · rw [List.getElem?_append_left small] at read
    exact ⟨entry', read, isLinked⟩
  · rw [List.getElem?_append_right (Nat.le_of_not_lt small)] at read
    -- Beyond the old entries there is only the new one.
    have member := List.mem_of_getElem? read
    rw [List.mem_singleton.mp member] at isLinked
    cases isLinked

/-- Writing a union field links nothing. -/
theorem Linked.of_setState {mem : Addr → Option Batch} {e : EntryPtr} {i : Nat} {state : EntryState}
    (stored : mem b = some batch)
    (linked : Linked (Function.update mem b (some (batch.setState i state))) e) : Linked mem e := by
  refine Linked.of_update stored ?_ linked
  intro batch₁ j entry' eq read isLinked
  cases eq
  rw [Batch.setState_get] at read
  obtain ⟨old, was, rfl⟩ := Option.map_eq_some_iff.mp read
  refine ⟨old, was, ?_⟩
  split at isLinked <;> exact isLinked

/-- After one entry changed its link, another entry is linked only if it was. -/
theorem Linked.of_setLink {mem : Addr → Option Batch} {batch' : Batch} {e : EntryPtr} {i : Nat}
    {link : Link} (stored : mem b = some batch) (same : batch'.entries = (batch.setLink i link).entries)
    (other : e = ⟨b, i⟩ → link ≠ .linked)
    (linked : Linked (Function.update mem b (some batch')) e) : Linked mem e ∧ e ≠ ⟨b, i⟩ := by
  obtain ⟨entry', read, isLinked⟩ := linked
  obtain ⟨batch₁, stored₁, found⟩ := exists_of_entryIn read
  rcases stored_update stored₁ with ⟨here, new⟩ | ⟨elsewhere, old⟩
  · cases new
    rw [same, Batch.setLink_get] at found
    obtain ⟨entry, was, rfl⟩ := Option.map_eq_some_iff.mp found
    -- The entry that was written is not linked now.
    have differs : i ≠ e.index := by
      intro eq
      simp only [eq, if_true] at isLinked
      exact other (by cases e; simp_all) isLinked
    rw [if_neg differs] at isLinked
    refine ⟨⟨entry, by rw [entryIn_eq (here ▸ stored), was], isLinked⟩, fun eq => differs (by rw [eq])⟩
  · exact ⟨⟨entry', by rw [entryIn_eq old, found], isLinked⟩, fun eq => elsewhere (by rw [eq])⟩

/-- Steps that touch neither links nor lists. -/
theorem Covered.plain (covered : Covered st) (memory : st'.mem = st.mem) (stack : st'.stack = st.stack)
    (pushed : st'.pushed = st.pushed) : Covered st' :=
  covered.keep (fun _ => False) (.same stack pushed _) fun _ linked => ⟨memory ▸ linked, not_false⟩

/-- A slot that was inactive has no list to lose. -/
theorem Covered.marked {s : SlotId} (covered : Covered st) (inv : Inv cfg st)
    (inactive : st.head s = .inactive) (memory : st'.mem = st.mem) (stack : st'.stack = st.stack)
    (pushed : st'.pushed = Function.update st.pushed s []) : Covered st' := by
  refine covered.plain memory stack ?_
  rw [pushed, ← inv.idle s inactive, Function.update_eq_self]

/-- Swapping a list out of a slot hands it to the call of `traverse`. -/
theorem Covered.swapped {s : SlotId} {first : Option EntryPtr} (covered : Covered st)
    (memory : st'.mem = st.mem)
    (stack : st'.stack = Function.update st.stack t (.traverse first (st.pushed s) :: st.stack t))
    (pushed : st'.pushed = Function.update st.pushed s []) : Covered st' := by
  intro e linked
  rw [memory] at linked
  obtain ⟨place, member⟩ := covered e linked
  -- What was listed at the slot is now listed at the call that traverses it.
  cases place with
  | slot s' =>
    by_cases here : s' = s
    · subst here
      refine ⟨.call t (st.stack t).length, ?_⟩
      simp only [listAt, State.frame, stack, Function.update_self, frameAt_top]
      exact member
    · refine ⟨.slot s', ?_⟩
      simp only [listAt, pushed, Function.update_of_ne here]
      exact member
  | call t' height =>
    refine ⟨.call t' height, ?_⟩
    simp only [listAt] at member ⊢
    cases found : st.frame t' height with
    | none => simp [found] at member
    | some g =>
      rw [found] at member
      rw [State.frame_kept_call stack found]
      exact member

/-- A step of a call that holds no list and links nothing. -/
theorem Covered.stepped {f : Frame} (fs : List Frame) {below : List Frame} (covered : Covered st)
    (top : st.stack t = f :: below) (empty : f.rest = [])
    (stack : st'.stack = Function.update st.stack t (fs ++ below)) (pushed : st'.pushed = st.pushed)
    (links : ∀ e, Linked st'.mem e → Linked st.mem e) : Covered st' := by
  refine covered.keep (fun _ => False) (.top fs top stack ?_ ?_) fun e linked =>
    ⟨links e linked, not_false⟩
  · intro s
    rw [pushed]
  · simp [empty]

/-- A step of a call that holds no list and leaves the entries of its batch alone. -/
theorem Covered.restaged {f : Frame} (fs : List Frame) {below : List Frame} {batch' : Batch}
    (covered : Covered st) (top : st.stack t = f :: below) (empty : f.rest = [])
    (stored : st.mem b = some batch) (memory : st'.mem = Function.update st.mem b (some batch'))
    (same : batch'.entries = batch.entries)
    (stack : st'.stack = Function.update st.stack t (fs ++ below))
    (pushed : st'.pushed = st.pushed) : Covered st' := by
  refine covered.stepped fs top empty stack pushed fun e linked => ?_
  rw [memory] at linked
  exact linked.of_restage stored same

/-- A call links nothing. -/
theorem Covered.called {f : Frame} (covered : Covered st)
    (stack : st'.stack = Function.update st.stack t (f :: st.stack t))
    (pushed : st'.pushed = st.pushed) (links : ∀ e, Linked st'.mem e → Linked st.mem e) :
    Covered st' :=
  covered.keep (fun _ => False) (.call stack pushed _) fun e linked => ⟨links e linked, not_false⟩

/-- A published entry is on the list of its slot. -/
theorem Covered.published {s : SlotId} {i : Nat} {state : EntryState} {f : Frame} (fs : List Frame)
    {below : List Frame} (covered : Covered st) (top : st.stack t = f :: below) (empty : f.rest = [])
    (stored : st.mem b = some batch)
    (memory : st'.mem = Function.update st.mem b (some ((batch.setState i state).setLink i .linked)))
    (stack : st'.stack = Function.update st.stack t (fs ++ below))
    (pushed : st'.pushed = Function.update st.pushed s (⟨b, i⟩ :: st.pushed s)) : Covered st' := by
  have kept : ListsKept st st' fun _ => False := by
    refine .top fs top stack ?_ (by simp [empty])
    intro s'
    rw [pushed]
    by_cases here : s' = s
    · subst here
      simp
    · simp [Function.update_of_ne here]
  intro e linked
  by_cases new : e = ⟨b, i⟩
  · refine ⟨.slot s, ?_⟩
    simp [listAt, pushed, new]
  · -- Every other entry was linked before, in a batch with the same union fields.
    rw [memory] at linked
    have here : Function.update st.mem b (some (batch.setState i state)) b =
        some (batch.setState i state) := Function.update_self ..
    have written := Linked.of_setLink here rfl (fun eq => absurd eq new)
      (by rw [Function.update_idem]; exact linked)
    obtain ⟨place, member⟩ := covered e (Linked.of_setState stored written.1)
    exact kept place e member not_false

/-- A released entry leaves the list that is being traversed. -/
theorem Covered.released {curr : EntryPtr} {tail : List EntryPtr} {next : Option EntryPtr}
    {entry : Entry} {below : List Frame} {batch' : Batch} (fs : List Frame) (covered : Covered st)
    (visit : Visit cfg st t below curr tail next entry batch)
    (memory : st'.mem = Function.update st.mem curr.batch (some batch'))
    (same : batch'.entries = (batch.setLink curr.index .released).entries)
    (stack : st'.stack = Function.update st.stack t (fs ++ below)) (pushed : st'.pushed = st.pushed)
    (rest : frameAt (fs ++ below) below.length = some (.traverse next tail)) : Covered st' := by
  -- The traversal goes on behind the entry that it has released.
  refine covered.keep (· = curr) (.top fs visit.top stack ?_ ?_) ?_
  · intro s
    rw [pushed]
  · intro e member still
    refine ⟨_, rest, ?_⟩
    rcases List.mem_cons.mp member with same | later
    · exact absurd same still
    · exact later
  · intro e linked
    rw [memory] at linked
    exact Linked.of_setLink visit.facts.stored same (by simp) linked

/-- Every permitted move without a panic keeps the linked entries on lists. -/
theorem Move.covered (moved : Move cfg st t action st') (sound : Sound cfg st)
    (entered : ∀ s, action = .enter s → st.head s = .inactive) (calm : action ≠ .panic)
    (covered : Covered st) : Covered st' := by
  have inv := sound.inv
  have prepared : ∀ {s : SlotId} {st₁ : State}, Prep cfg s { st with nextRid := st.nextRid + 1 } st₁ →
      Covered st₁ := by
    intro s st₁ prep
    have before : Covered { st with nextRid := st.nextRid + 1 } := covered.plain rfl rfl rfl
    exact prep.covered before
  cases moved with
  | panic => exact absurd rfl calm
  | @enter s => exact covered.marked inv (entered s rfl) rfl rfl rfl
  | leaveIdle _ inactive => exact covered.marked inv inactive rfl rfl rfl
  | leave => exact covered.swapped rfl rfl rfl
  | refreshIdle _ inactive => exact covered.marked inv inactive rfl rfl rfl
  | refresh => exact covered.swapped rfl rfl rfl
  | refused _ prep => exact (prepared prep).plain rfl rfl rfl
  | immediate _ prep =>
    exact (prepared prep).called rfl rfl fun _ linked => linked
  | pushed _ prep _ stored =>
    exact (prepared prep).keep (fun _ => False) (.same rfl rfl _)
      fun _ linked => ⟨linked.of_push stored, not_false⟩
  | filled _ prep _ stored =>
    exact (prepared prep).called rfl rfl fun _ linked => linked.of_push stored
  | reserve _ prep => exact prep.covered covered
  | flush => exact covered.called rfl rfl fun _ => id
  | reclaimAll => exact covered.called rfl rfl fun _ => id
  | ret top => exact covered.stepped [] top rfl rfl rfl fun _ => id
  | skipScan top => exact covered.stepped [_] top rfl rfl rfl fun _ => id
  | skipReclaim top => exact covered.stepped [_] top rfl rfl rfl fun _ => id
  | commit top stored =>
    exact covered.restaged [_] top rfl stored rfl rfl rfl rfl
  | pass top => exact covered.stepped [_] top rfl rfl rfl fun _ => id
  | mark top stored =>
    exact covered.stepped [_] top rfl rfl rfl fun _ linked => linked.of_setState stored
  | abort top => exact covered.stepped [] top rfl rfl rfl fun _ => id
  | addFree top stored =>
    exact covered.restaged [_] top rfl stored rfl rfl rfl rfl
  | addShare top stored =>
    exact covered.restaged [] top rfl stored rfl rfl rfl rfl
  | load top => exact covered.stepped [_] top rfl rfl rfl fun _ => id
  | gone top => exact covered.stepped [_] top rfl rfl rfl fun _ => id
  | publish top stored => exact covered.published [_] top rfl stored rfl rfl rfl
  | retry top stored =>
    exact covered.stepped [_] top rfl rfl rfl fun _ linked => linked.of_setState stored
  | @done rest below spurious top =>
    -- The end of a list is the end of the ghost list too.
    have chain : Chain st.mem none rest := inv.frames t below.length _ (State.frame_top top)
    have empty : rest = [] := by
      cases rest with
      | nil => rfl
      | cons e tail => cases chain.1
    exact covered.stepped [] top empty rfl rfl fun _ => id
  | releaseFree top read state stored =>
    obtain ⟨owner, tail, rfl, visit⟩ := inv.visit top read state stored
    rw [owner]
    refine covered.released [_, _] visit rfl rfl rfl rfl ?_
    rw [List.cons_append, frameAt_cons_of_lt (by simp)]
    exact frameAt_top _ _
  | releaseCount top read state stored =>
    obtain ⟨owner, tail, rfl, visit⟩ := inv.visit top read state stored
    rw [owner]
    exact covered.released [_] visit rfl rfl rfl rfl (frameAt_top _ _)
  | invoke top => exact covered.stepped [_, _] top rfl rfl rfl fun _ => id
  | dealloc top stored =>
    refine covered.stepped [] top rfl rfl rfl fun e linked => linked.of_update stored ?_
    intro batch' i entry' eq
    cases eq
  | finish top => exact covered.stepped [] top rfl rfl rfl fun _ => id
  | next top => exact covered.stepped [_] top rfl rfl rfl fun _ => id
  | takeWrong top _ _ held wrong => exact absurd wrong (sound.sentinel.not_wrong inv top held)
  | take top _ _ held stored =>
    exact covered.restaged [_, _] top rfl stored rfl rfl rfl rfl
  | reset top => exact covered.stepped [_] top rfl rfl rfl fun _ => id
  | known | create | flushNone | access => exact covered.plain rfl rfl rfl

/-- A disciplined run whose slots are entered while inactive and whose reclaimers never panic. -/
def Calm (cfg : Config) (st : State) (move : Tid × Action) : Prop :=
  Disciplined cfg st move ∧ (∀ s, move.2 = .enter s → st.head s = .inactive) ∧ move.2 ≠ .panic

/-- Everything is tended and covered in every state of a calm run. -/
theorem reachable_calm (run : Reachable (Raw.step cfg) (Calm cfg) State.init st) :
    Sound cfg st ∧ Lives st ∧ Tended st ∧ Covered st := by
  have disciplined : Reachable (Raw.step cfg) (Disciplined cfg) State.init st :=
    run.mono fun _ _ _ calm => calm.1
  refine ⟨reachable_sound disciplined, reachable_lives disciplined, ?_⟩
  refine run.invariant (fun st => Tended st ∧ Covered st) ⟨⟨?_, ?_⟩, ?_⟩ ?_
  · intro b batch t height stored
    cases stored
  · intro s marked
    cases marked
  · intro e linked
    obtain ⟨entry, read, _⟩ := linked
    cases read
  · intro st₀ move st₁ before kept calm ran
    obtain ⟨st₂, moved, rfl⟩ := step_move ran
    have sound : Sound cfg st₀ := reachable_sound (before.mono fun _ _ _ calm => calm.1)
    refine ⟨?_, ?_⟩
    · exact (moved.tended sound calm.2.2 kept.1).same (.same rfl _) (.refl _) fun _ => .rfl
    · exact (moved.covered sound calm.2.1 calm.2.2 kept.2).plain rfl rfl rfl

/-- The links a retirer has made and not yet added to the count. -/
def Batch.unadded (batch : Batch) : Nat :=
  match batch.phase with
  | .retiring _ _ => batch.everLinked
  | _ => 0

/-- Nobody has started to free a batch. -/
def Unfreed (st : State) (batch : Batch) : Prop := ∀ cause, Event.freed batch.uid cause ∉ st.log

/-- Nothing is active and no call is in progress. -/
def Quiescent (st : State) : Prop := (∀ s, ¬ st.Active s) ∧ ∀ t, st.stack t = []

/-- What reference counting promises about a state. -/
structure Accounting (cfg : Config) (st : State) : Prop where
  /-- A committed batch counts its linked entries, up to the links that are not added yet. -/
  count : ∀ b batch, st.mem b = some batch → Event.committed batch.uid ∈ st.log → Unfreed st batch →
    (batch.active + batch.unadded) % cfg.modulus = batch.linkedNow % cfg.modulus
  /-- A committed batch is freed at most once, and by a decrement only after it was counted. -/
  once : ∀ uid, Event.committed uid ∈ st.log →
    history st.log uid = [.committed uid] ∨ history st.log uid = [.counted uid, .committed uid] ∨
      history st.log uid = [.freed uid .fetchAdd, .counted uid, .committed uid] ∨
        history st.log uid = [.freed uid .fetchSub, .counted uid, .committed uid]
  /-- No retirer links entries of a batch that somebody started to free. -/
  linking : ∀ t height b marked i active seen,
    st.frame t height = some (.link b marked i active seen) →
      ∃ batch, st.mem b = some batch ∧ Unfreed st batch
  /-- No call of `traverse` reads or decrements in such a batch. -/
  reading : ∀ t height curr rest, st.frame t height = some (.traverse (some curr) rest) →
    ∃ batch, st.mem curr.batch = some batch ∧ Unfreed st batch
  /-- Once everything is quiet, every committed batch has been freed and is not allocated. -/
  settled : Quiescent st → ∀ uid, Event.committed uid ∈ st.log →
    (∃ cause, Event.freed uid cause ∈ st.log) ∧ ∀ b batch, st.mem b = some batch → batch.uid ≠ uid

/-- An event of a batch is in the log when it is in the history of the batch. -/
theorem mem_history {log : List Event} (event : Event) {uid : Nat} (mine : event.uid = some uid) :
    event ∈ history log uid ↔ event ∈ log := by
  simp [history, List.mem_filter, mine]

/-- A batch whose stage comes before its freeing is unfreed. -/
theorem Lives.unfreed (lives : Lives st) (stored : st.mem b = some batch)
    (early : (∃ t height, batch.phase = .retiring t height) ∨ batch.phase = .shared) :
    Unfreed st batch := by
  intro cause member
  have life := lives.staged b batch stored
  rw [← mem_history (.freed batch.uid cause) rfl] at member
  rcases early with ⟨t, height, phase⟩ | phase
  · rw [phase] at life
    have life : history st.log batch.uid = _ := life
    simp [life] at member
  · rw [phase] at life
    have life : history st.log batch.uid = _ := life
    simp [life] at member

/-- A batch that was committed and not freed is retiring or shared. -/
theorem Lives.committed (lives : Lives st) (stored : st.mem b = some batch)
    (committed : Event.committed batch.uid ∈ st.log) (unfreed : Unfreed st batch) :
    (∃ t height, batch.phase = .retiring t height) ∨ batch.phase = .shared := by
  have life := lives.staged b batch stored
  rw [← mem_history (.committed batch.uid) rfl] at committed
  cases phase : batch.phase with
  | pending s =>
    rw [phase] at life
    have life : history st.log batch.uid = [] := life
    simp [life] at committed
  | retiring t height => exact .inl ⟨t, height, rfl⟩
  | shared => exact .inr rfl
  | freeing t height =>
    -- Every way to be freed has been recorded.
    rw [phase] at life
    have freed : ∃ cause, Event.freed batch.uid cause ∈ history st.log batch.uid := by
      rcases life with eq | eq | eq <;> simp [eq]
    obtain ⟨cause, member⟩ := freed
    exact absurd ((mem_history _ rfl).mp member) (unfreed cause)

/-- The history of any name is a part of one of the lives. -/
theorem Lives.any (lives : Lives st) (uid : Nat) : history st.log uid = [] ∨
    history st.log uid = [.committed uid] ∨ history st.log uid = [.counted uid, .committed uid] ∨
      FreedLife uid (history st.log uid) := by
  -- A batch is not made yet, allocated in one of four phases, or gone.
  by_cases used : uid < st.nextUid
  · by_cases allocated : ∃ b batch, st.mem b = some batch ∧ batch.uid = uid
    · obtain ⟨b, batch, stored, rfl⟩ := allocated
      have life := lives.staged b batch stored
      cases phase : batch.phase with
      | pending s =>
        rw [phase] at life
        exact .inl life
      | retiring t height =>
        rw [phase] at life
        exact .inr (.inl life)
      | shared =>
        rw [phase] at life
        exact .inr (.inr (.inl life))
      | freeing t height =>
        rw [phase] at life
        exact .inr (.inr (.inr life))
    · refine .inr (.inr (.inr (lives.gone uid used ?_)))
      intro b batch stored same
      exact allocated ⟨b, batch, stored, same⟩
  · exact .inl (lives.fresh uid (by omega))

/-- The count of a batch that is retiring or shared. -/
theorem Inv.counted (inv : Inv cfg st) (stored : st.mem b = some batch)
    (early : (∃ t height, batch.phase = .retiring t height) ∨ batch.phase = .shared) :
    (batch.active + batch.unadded) % cfg.modulus = batch.linkedNow % cfg.modulus := by
  have phase := inv.phases b batch stored
  have total := Batch.everLinked_eq batch
  rcases early with ⟨t, height, stage⟩ | stage
  · rw [stage] at phase
    have links : batch.unadded = batch.everLinked := by simp [Batch.unadded, stage]
    obtain ⟨_, zero | wrapped⟩ := phase
    · -- No decrement has happened, so nothing was released.
      rw [links]
      congr 1
      omega
    · -- The decrements have wrapped the count below zero.
      have : batch.active + batch.unadded = batch.linkedNow + cfg.modulus := by omega
      rw [this, Nat.add_mod_right]
  · rw [stage] at phase
    have links : batch.unadded = 0 := by simp [Batch.unadded, stage]
    obtain ⟨sum, _, _⟩ := phase
    congr 1
    omega

/-- In a quiet state every allocated batch is still the local batch of a slot. -/
theorem quiescent_pending (inv : Inv cfg st) (tended : Tended st) (covered : Covered st)
    (quiet : Quiescent st) (stored : st.mem b = some batch) : ∃ s, batch.phase = .pending s := by
  have noFrame : ∀ t height f, st.frame t height ≠ some f := by
    intro t height f found
    rw [State.frame, quiet.2 t] at found
    cases found
  have phase := inv.phases b batch stored
  cases stage : batch.phase with
  | pending s => exact ⟨s, rfl⟩
  | retiring t height =>
    rw [stage] at phase
    obtain ⟨⟨marked, i, active, seen, found⟩, _⟩ := phase
    exact absurd found (noFrame _ _ _)
  | shared =>
    -- A shared batch has a linked entry, and no list could hold it.
    rw [stage] at phase
    have some_ : 0 < batch.linkedNow := by
      have total := Batch.everLinked_eq batch
      have := phase.2.1
      omega
    obtain ⟨entry, member, isLinked⟩ := List.countP_pos_iff.mp some_
    obtain ⟨i, found⟩ := List.mem_iff_getElem?.mp member
    have linked : Linked st.mem ⟨b, i⟩ :=
      ⟨entry, by rw [entryIn_eq (e := ⟨b, i⟩) stored, found], by simpa using isLinked⟩
    obtain ⟨place, onList⟩ := covered ⟨b, i⟩ linked
    cases place with
    | slot s =>
      have idle : st.head s = .inactive := not_not.mp (quiet.1 s)
      simp [listAt, inv.idle s idle] at onList
    | call t height =>
      have none_ : st.frame t height = none := Option.eq_none_iff_forall_ne_some.mpr (noFrame t height)
      simp [listAt, none_] at onList
  | freeing t height =>
    obtain ⟨f, found, _⟩ := tended.freeing b batch t height stored stage
    exact absurd found (noFrame _ _ _)

/-- Reference counts account for every link, and every committed batch is freed exactly once. -/
theorem counts_account (cfg : Config) (st : State)
    (run : Reachable (Raw.step cfg) (Calm cfg) State.init st) : Accounting cfg st := by
  obtain ⟨sound, lives, tended, covered⟩ := reachable_calm run
  have inv := sound.inv
  refine ⟨?_, ?_, ?_, ?_, ?_⟩
  · intro b batch stored committed unfreed
    exact inv.counted stored (lives.committed stored committed unfreed)
  · intro uid committed
    rw [← mem_history (.committed uid) rfl] at committed
    rcases lives.any uid with eq | eq | eq | eq | eq | eq
    · simp [eq] at committed
    · exact .inl eq
    · exact .inr (.inl eq)
    · exact .inr (.inr (.inl eq))
    · exact .inr (.inr (.inr eq))
    · simp [eq] at committed
  · intro t height b marked i active seen found
    obtain ⟨batch, stored, phase, _⟩ := inv.frames t height _ found
    exact ⟨batch, stored, lives.unfreed stored (.inl ⟨t, height, phase⟩)⟩
  · intro t height curr rest found
    have chain : Chain st.mem (some curr) rest := inv.frames t height _ found
    have first : curr ∈ listAt st (.call t height) := by
      cases rest with
      | nil => cases chain
      | cons e tail =>
        cases chain.1
        simp [listAt, found, Frame.rest]
    obtain ⟨entry, batch, _, facts⟩ := inv.released (.call t height) first
    exact ⟨batch, facts.stored, lives.unfreed facts.stored facts.committed⟩
  · intro quiet uid committed
    rw [← mem_history (.committed uid) rfl] at committed
    -- A batch that is still allocated is pending, and a pending batch has no history.
    have absent : ∀ b batch, st.mem b = some batch → batch.uid ≠ uid := by
      intro b batch stored same
      obtain ⟨s, phase⟩ := quiescent_pending inv tended covered quiet stored
      have life := lives.staged b batch stored
      rw [phase, same] at life
      have life : history st.log uid = [] := life
      simp [life] at committed
    refine ⟨?_, absent⟩
    have small : uid < st.nextUid := by
      by_contra large
      rw [lives.fresh uid (by omega)] at committed
      cases committed
    have freed : ∃ cause, Event.freed uid cause ∈ history st.log uid := by
      rcases lives.gone uid small absent with eq | eq | eq <;> simp [eq]
    obtain ⟨cause, member⟩ := freed
    exact ⟨cause, (mem_history _ rfl).mp member⟩

/-- A run that passes all checks is calm. -/
def calmCheck (n : Nat) (st : State) (move : Tid × Action) : Bool :=
  sentinelCheck n st move && enterCheck st move && decide (move.2 ≠ .panic)

/-- The check is right. -/
theorem calm_of_check {n : Nat} (within : Within n st) {move : Tid × Action}
    (access : accessCheck cfg n st move = true) (checked : calmCheck n st move = true) :
    Calm cfg st move := by
  simp only [calmCheck, Bool.and_eq_true, decide_eq_true_eq] at checked
  obtain ⟨⟨clear, entered⟩, calm⟩ := checked
  exact ⟨disciplined_of_check within access clear, (contract_of_check within access entered).2, calm⟩

/-- A thread leaves after the retirer has linked an entry to its slot and before the addition. -/
def earlyDecrement : List (Tid × Action) :=
  [(1, .create 1), (1, .enter 1), (0, .add 0 7 9 (plenty 1)), (0, .skip 1), (0, .advance false),
    (0, .skip (2 ^ 64 - 32)), (0, .advance false), (0, .advance false), (0, .advance false),
    (1, .leave 1), (1, .advance false)]

/-- There the count has wrapped below zero, and is still accounted for. -/
theorem counts_account_earlyDecrement : ∃ st batch,
    Reachable (Raw.step ⟨64, 1⟩) (Calm ⟨64, 1⟩) State.init st ∧ st.mem 1 = some batch ∧
      batch.active = 2 ^ 64 - 1 ∧ batch.unadded = 1 ∧ Accounting ⟨64, 1⟩ st := by
  obtain ⟨st, run, ended⟩ := reachable_of_check ⟨64, 1⟩ 2 (Calm ⟨64, 1⟩) (calmCheck 2)
    (fun st => (st.mem 1).any fun batch : Batch =>
      decide (batch.active = 2 ^ 64 - 1 ∧ batch.unadded = 1))
    earlyDecrement (fun _ _ within access checked => calm_of_check within access checked) (by decide)
  obtain ⟨batch, stored, counted⟩ := (Option.any_eq_true _ _).mp ended
  obtain ⟨wrapped, unadded⟩ := of_decide_eq_true counted
  exact ⟨st, batch, run, stored, wrapped, unadded, counts_account _ st run⟩

end Seize.Raw
