import Seize.Raw.Tended

/-!
The retired objects that batches hold, and what a move does to them.

An object stays at its place in memory from the retirement that pushed it until its batch is
handed back, whatever happens to its entry as a list node.
-/

namespace Seize.Raw

variable {cfg : Config} {st st' : State} {t : Tid} {action : Action} {b : Addr} {batch : Batch}

/-- A retirement: its number, the pointer that was retired, and the reclaimer. -/
structure Object where
  rid : Nat
  ptr : Ptr
  reclaim : Reclaim
  deriving DecidableEq, Repr

/-- The object of an entry. -/
def Entry.object (entry : Entry) : Object := ⟨entry.rid, entry.ptr, entry.reclaim⟩

/-- The object at a place in memory. -/
def objectAt (mem : Addr → Option Batch) (e : EntryPtr) : Option Object :=
  (entryIn mem e).map Entry.object

/-- A place of an allocated batch. -/
theorem objectAt_eq {mem : Addr → Option Batch} {e : EntryPtr} (stored : mem e.batch = some batch) :
    objectAt mem e = (batch.entries[e.index]?).map Entry.object := by
  rw [objectAt, entryIn_eq stored]

/-- What happens to list nodes leaves the objects alone. -/
theorem objectAt_update {mem : Addr → Option Batch} {batch' : Batch} (stored : mem b = some batch)
    (same : ∀ j : Nat,
      (batch'.entries[j]?).map Entry.object = (batch.entries[j]?).map Entry.object) :
    objectAt (Function.update mem b (some batch')) = objectAt mem := by
  funext e
  by_cases here : e.batch = b
  · rw [objectAt, entryIn_update, if_pos here, same, objectAt_eq (here ▸ stored)]
  · rw [objectAt, entryIn_update, if_neg here, objectAt]

/-- Writing a union field leaves the objects alone. -/
theorem object_setState (batch : Batch) (i : Nat) (state : EntryState) (j : Nat) :
    ((batch.setState i state).entries[j]?).map Entry.object =
      (batch.entries[j]?).map Entry.object := by
  rw [Batch.setState_get, Option.map_map]
  congr 1
  funext entry
  simp only [Function.comp]
  split <;> rfl

/-- Changing a link leaves the objects alone. -/
theorem object_setLink (batch : Batch) (i : Nat) (link : Link) (j : Nat) :
    ((batch.setLink i link).entries[j]?).map Entry.object =
      (batch.entries[j]?).map Entry.object := by
  rw [Batch.setLink_get, Option.map_map]
  congr 1
  funext entry
  simp only [Function.comp]
  split <;> rfl

/-- Pushing an entry puts one object at a place that was empty. -/
theorem objectAt_push {mem : Addr → Option Batch} {p : Ptr} {f : Reclaim} {rid : Nat}
    (stored : mem b = some batch) (e : EntryPtr) :
    objectAt (Function.update mem b (some { batch with
      entries := batch.entries ++ [newEntry b p f rid] })) e =
        if e = ⟨b, batch.entries.length⟩ then some ⟨rid, p, f⟩ else objectAt mem e := by
  by_cases here : e.batch = b
  · rw [objectAt, entryIn_update, if_pos here, objectAt_eq (here ▸ stored)]
    by_cases last : e.index = batch.entries.length
    · have is : e = ⟨b, batch.entries.length⟩ := by cases e; simp_all
      rw [if_pos is, last]
      simp [Entry.object, newEntry]
    · have differs : e ≠ ⟨b, batch.entries.length⟩ := fun eq => last (by rw [eq])
      rw [if_neg differs]
      by_cases small : e.index < batch.entries.length
      · rw [List.getElem?_append_left small]
      · -- Beyond the new entry there was nothing and there is nothing.
        rw [List.getElem?_eq_none (by simp; omega), List.getElem?_eq_none (by omega)]
  · have differs : e ≠ ⟨b, batch.entries.length⟩ := fun eq => here (by rw [eq])
    rw [objectAt, entryIn_update, if_neg here, if_neg differs, objectAt]

/-- Handing a batch back empties its places. -/
theorem objectAt_dealloc (mem : Addr → Option Batch) (b : Addr) (e : EntryPtr) :
    objectAt (Function.update mem b none) e = if e.batch = b then none else objectAt mem e := by
  by_cases here : e.batch = b
  · simp [objectAt, entryIn, here]
  · simp [objectAt, entryIn, here]

/-- Preparing a slot leaves the objects alone. -/
theorem Prep.objects {s : SlotId} (prep : Prep cfg s st st') :
    objectAt st'.mem = objectAt st.mem := by
  funext e
  have grows := prep.grows
  cases stored : st.mem e.batch with
  | some batch =>
    obtain ⟨batch', stored', same⟩ := grows.kept e.batch batch stored
    rw [objectAt_eq stored, objectAt_eq stored', same.entries]
  | none =>
    have before : objectAt st.mem e = none := by simp [objectAt, entryIn, stored]
    rw [before]
    cases stored' : st'.mem e.batch with
    | none => simp [objectAt, entryIn, stored']
    | some batch' =>
      -- A batch that was not there before is empty.
      rcases grows.new e.batch batch' stored' with ⟨batch, was, _⟩ | ⟨_, empty, _⟩
      · rw [stored] at was
        cases was
      · rw [objectAt_eq stored', empty]
        rfl

/-- A call of `free_batch` has passed an entry. -/
def Frame.passed : Frame → EntryPtr → Prop
  | .freeBatch (.ptr b) i, e => e.batch = b ∧ e.index < i
  | _, _ => False

/-- Some call in progress has passed an entry. -/
def Reached (st : State) (e : EntryPtr) : Prop := ∃ t f, f ∈ st.stack t ∧ f.passed e

/-- What is reached, seen from one thread. -/
theorem reached_iff {e : EntryPtr} {fs below : List Frame} (stack : st.stack t = fs ++ below) :
    Reached st e ↔ (∃ f ∈ fs, f.passed e) ∨ (∃ f ∈ below, f.passed e) ∨
      ∃ t' f, t' ≠ t ∧ f ∈ st.stack t' ∧ f.passed e := by
  -- The stack of the thread is split in two.
  constructor
  · rintro ⟨t', f, member, passed⟩
    by_cases here : t' = t
    · subst here
      rw [stack] at member
      rcases List.mem_append.mp member with high | low
      · exact .inl ⟨f, high, passed⟩
      · exact .inr (.inl ⟨f, low, passed⟩)
    · exact .inr (.inr ⟨t', f, here, member, passed⟩)
  · rintro (⟨f, high, passed⟩ | ⟨f, low, passed⟩ | ⟨t', f, _, member, passed⟩)
    · exact ⟨t, f, stack ▸ List.mem_append_left _ high, passed⟩
    · exact ⟨t, f, stack ▸ List.mem_append_right _ low, passed⟩
    · exact ⟨t', f, member, passed⟩

/-- A change of one stack changes what is reached only through the frames it replaces. -/
theorem Reached.update {e : EntryPtr} {below : List Frame} (old new : List Frame)
    (more : Prop) (was : st.stack t = old ++ below)
    (stack : st'.stack = Function.update st.stack t (new ++ below))
    (changed : (∃ f ∈ new, f.passed e) ↔ (∃ f ∈ old, f.passed e) ∨ more) :
    Reached st' e ↔ Reached st e ∨ more := by
  have now : st'.stack t = new ++ below := by rw [stack, Function.update_self]
  have others : ∀ t' f, t' ≠ t ∧ f ∈ st'.stack t' ∧ f.passed e ↔
      t' ≠ t ∧ f ∈ st.stack t' ∧ f.passed e := by
    intro t' f
    refine and_congr_right fun other => ?_
    rw [stack, Function.update_of_ne other]
  rw [reached_iff now, reached_iff was, changed]
  simp only [others]
  exact or_right_comm

/-- A step of the innermost call that passes nothing. -/
theorem Reached.quiet {e : EntryPtr} {f : Frame} {below : List Frame} (fs : List Frame)
    (top : st.stack t = f :: below) (stack : st'.stack = Function.update st.stack t (fs ++ below))
    (old : ¬ f.passed e) (new : ∀ g ∈ fs, ¬ g.passed e) : Reached st' e ↔ Reached st e := by
  rw [Reached.update [f] fs False top stack, or_false]
  simp only [List.mem_singleton, exists_eq_left, old, or_self, iff_false, not_exists, not_and]
  exact new

/-- A call passes nothing. -/
theorem Reached.call {e : EntryPtr} {f : Frame}
    (stack : st'.stack = Function.update st.stack t (f :: st.stack t)) (new : ¬ f.passed e) :
    Reached st' e ↔ Reached st e := by
  rw [Reached.update [] [f] False rfl stack, or_false]
  simpa using new

/-- The retirement an event belongs to. -/
def Event.rid : Event → Option Nat
  | .retired rid _ _ => some rid
  | .refused rid => some rid
  | .reclaimed rid _ _ _ => some rid
  | _ => none

/--
What a move does to the objects in memory, and what it records about retirements.

A panic makes calls of `free_batch` vanish, so what they have passed is described for other moves.
-/
inductive Change (st st' : State) (t : Tid) : Action → Prop where
  /-- Nothing. -/
  | plain {action : Action} (new : List Event) (log : st'.log = new ++ st.log)
      (silent : ∀ event ∈ new, event.rid = none) (next : st'.nextRid = st.nextRid)
      (objects : objectAt st'.mem = objectAt st.mem)
      (reached : action ≠ .panic → ∀ e, Reached st' e ↔ Reached st e) : Change st st' t action
  /-- A retirement returned `Err`. -/
  | refused {s : SlotId} {p : Ptr} {f : Reclaim} {c : Alloc}
      (log : st'.log = .refused st.nextRid :: st.log) (next : st'.nextRid = st.nextRid + 1)
      (objects : objectAt st'.mem = objectAt st.mem)
      (reached : ∀ e, Reached st' e ↔ Reached st e) : Change st st' t (.add s p f c)
  /-- A retirement pushed its object to the local batch of its slot. -/
  | pushed {s : SlotId} {p : Ptr} {f : Reclaim} {c : Alloc} {e : EntryPtr}
      (log : st'.log = .retired st.nextRid p f :: st.log) (next : st'.nextRid = st.nextRid + 1)
      (held : st'.batch s = .ptr e.batch) (empty : objectAt st.mem e = none)
      (objects : ∀ e', objectAt st'.mem e' =
        if e' = e then some ⟨st.nextRid, p, f⟩ else objectAt st.mem e')
      (reached : ∀ e, Reached st' e ↔ Reached st e) : Change st st' t (.add s p f c)
  /-- A retirement in a slot with the sentinel was reclaimed at once. -/
  | immediate {s : SlotId} {p : Ptr} {f : Reclaim} {c : Alloc}
      (log : st'.log = .reclaimed st.nextRid p f none :: .retired st.nextRid p f :: st.log)
      (next : st'.nextRid = st.nextRid + 1) (held : st.batch s = .drop)
      (objects : objectAt st'.mem = objectAt st.mem)
      (reached : ∀ e, Reached st' e ↔ Reached st e) : Change st st' t (.add s p f c)
  /-- `free_batch` passed an entry, and invoked its reclaimer. -/
  | invoke {e : EntryPtr} {below : List Frame} {batch : Batch} {object : Object} {spurious : Bool}
      (top : st.stack t = .freeBatch (.ptr e.batch) e.index :: below)
      (stored : st.mem e.batch = some batch) (found : objectAt st.mem e = some object)
      (log : st'.log = .reclaimed object.rid object.ptr object.reclaim batch.scanned :: st.log)
      (next : st'.nextRid = st.nextRid) (objects : objectAt st'.mem = objectAt st.mem)
      (reached : ∀ e', Reached st' e' ↔ Reached st e' ∨ e' = e) :
      Change st st' t (.advance spurious)
  /-- `free_batch` handed a batch back after its last entry. -/
  | dealloc {b : Addr} {i : Nat} {below : List Frame} {batch : Batch} {spurious : Bool}
      (top : st.stack t = .freeBatch (.ptr b) i :: below) (stored : st.mem b = some batch)
      (finished : batch.entries[i]? = none) (memory : st'.mem = Function.update st.mem b none)
      (log : st'.log = st.log) (next : st'.nextRid = st.nextRid)
      (reached : ∀ e, e.batch ≠ b → (Reached st' e ↔ Reached st e)) :
      Change st st' t (.advance spurious)

/-- A retirement that pushes its object. -/
theorem pushed_change {s : SlotId} {p : Ptr} {f : Reclaim} {c : Alloc} {st₁ : State}
    (prep : Prep cfg s { st with nextRid := st.nextRid + 1 } st₁) (held : st₁.batch s = .ptr b)
    (stored : st₁.mem b = some batch) (local_ : st'.batch = st₁.batch)
    (memory : st'.mem = Function.update st₁.mem b (some { batch with
      entries := batch.entries ++ [newEntry b p f st.nextRid] }))
    (log : st'.log = .retired st.nextRid p f :: st₁.log) (next : st'.nextRid = st₁.nextRid)
    (reached : ∀ e, Reached st' e ↔ Reached st e) : Change st st' t (.add s p f c) := by
  have before : objectAt st₁.mem = objectAt st.mem := prep.objects
  obtain ⟨_, _, _, _, _, _, _, log₁, next₁, _⟩ := prep.same
  refine .pushed (e := ⟨b, batch.entries.length⟩) (by rw [log, log₁]) (next.trans next₁)
    (by rw [local_, held]) ?_ (fun e' => ?_) reached
  · rw [← before, objectAt_eq (e := ⟨b, batch.entries.length⟩) stored]
    simp
  · rw [memory, objectAt_push stored, before]

/-- Every move is one of these changes. -/
theorem Move.change (moved : Move cfg st t action st') : Change st st' t action := by
  have same : ∀ {st₂ : State}, st₂.stack = st.stack → ∀ e, Reached st₂ e ↔ Reached st e := by
    intro st₂ stack e
    simp only [Reached, stack]
  -- User code that only changes slots.
  have stay : ∀ {action : Action} {st₂ : State}, st₂.stack = st.stack → st₂.log = st.log →
      st₂.nextRid = st.nextRid → objectAt st₂.mem = objectAt st.mem → Change st st₂ t action :=
    fun stack log next objects => .plain [] log (by simp) next objects fun _ => same stack
  -- A call.
  have called : ∀ {f : Frame} {action : Action} {st₂ : State},
      st₂.stack = Function.update st.stack t (f :: st.stack t) → (∀ e, ¬ f.passed e) →
      st₂.log = st.log → st₂.nextRid = st.nextRid → st₂.mem = st.mem → Change st st₂ t action :=
    fun stack new log next memory => .plain [] log (by simp) next (congrArg objectAt memory)
      fun _ e => Reached.call stack (new e)
  -- A step of a call that passes nothing.
  have stepped : ∀ {f : Frame} {below : List Frame} {action : Action} {st₂ : State}
      (fs : List Frame) (new : List Event), st.stack t = f :: below →
      st₂.stack = Function.update st.stack t (fs ++ below) → st₂.log = new ++ st.log →
      st₂.nextRid = st.nextRid → (∀ event ∈ new, event.rid = none) → (∀ e, ¬ f.passed e) →
      (∀ e, ∀ g ∈ fs, ¬ g.passed e) → objectAt st₂.mem = objectAt st.mem → Change st st₂ t action :=
    fun fs new top stack log next silent old passed objects => .plain new log silent next objects
      fun _ e => Reached.quiet fs top stack (old e) (passed e)
  -- The frames that pass nothing.
  have quiet : ∀ {s b start cursor marked} (e : EntryPtr),
      ¬ (Frame.scan s b start cursor marked).passed e := fun _ => id
  have linking : ∀ {b marked i active seen} (e : EntryPtr),
      ¬ (Frame.link b marked i active seen).passed e := fun _ => id
  have visiting : ∀ {list rest} (e : EntryPtr), ¬ (Frame.traverse list rest).passed e := fun _ => id
  have iterating : ∀ {cursor} (e : EntryPtr), ¬ (Frame.reclaimAll cursor).passed e := fun _ => id
  cases moved with
  | known => exact stay rfl rfl rfl rfl
  | create => exact stay rfl rfl rfl rfl
  | enter => exact stay rfl rfl rfl rfl
  | leaveIdle => exact stay rfl rfl rfl rfl
  | refreshIdle => exact stay rfl rfl rfl rfl
  | flushNone => exact stay rfl rfl rfl rfl
  | access => exact stay rfl rfl rfl rfl
  | reserve _ prep =>
    obtain ⟨stack, _, _, _, _, _, _, log, next, _⟩ := prep.same
    exact stay stack log next prep.objects
  | refused _ prep =>
    obtain ⟨stack, _, _, _, _, _, _, log, next, _⟩ := prep.same
    exact .refused (congrArg _ log) next prep.objects (same stack)
  | @immediate s p f c st₁ _ prep held =>
    obtain ⟨stack, _, _, _, _, _, _, log, next, _⟩ := prep.same
    refine .immediate ?_ next ((prep.drops _).mp held) prep.objects fun e => ?_
    · simp [State.call, State.setStack, State.record, log]
    · refine Reached.call (t := t) (f := .reclaimer st.nextRid p f) ?_ id
      simp [State.call, State.setStack, State.record, stack]
  | pushed _ prep held stored =>
    exact pushed_change prep held stored rfl rfl rfl rfl (same prep.same.1)
  | @filled s p f c st₁ b batch _ prep held stored =>
    refine pushed_change prep held stored rfl rfl rfl rfl fun e => ?_
    refine Reached.call (t := t) (f := .scan s b st.clock 0 0) ?_ id
    simp [State.call, State.setStack, State.record, State.setBatch, pushEntry, prep.same.1]
  | leave => exact called rfl visiting rfl rfl rfl
  | refresh => exact called rfl visiting rfl rfl rfl
  | flush => exact called rfl quiet rfl rfl rfl
  | reclaimAll => exact called rfl iterating rfl rfl rfl
  | panic top => exact .plain [] rfl (by simp) rfl rfl fun calm => absurd rfl calm
  | ret top => exact stepped [] [] top rfl rfl rfl (by simp) (fun _ => id) (by simp) rfl
  | abort top => exact stepped [] [] top rfl rfl rfl (by simp) quiet (by simp) rfl
  | done top => exact stepped [] [] top rfl rfl rfl (by simp) visiting (by simp) rfl
  | finish top => exact stepped [] [] top rfl rfl rfl (by simp) iterating (by simp) rfl
  | skipScan top => exact stepped [_] [] top rfl rfl rfl (by simp) quiet (by simp [Frame.passed]) rfl
  | pass top => exact stepped [_] [] top rfl rfl rfl (by simp) quiet (by simp [Frame.passed]) rfl
  | mark top stored =>
    exact stepped [_] [] top rfl rfl rfl (by simp) quiet (by simp [Frame.passed])
      (objectAt_update stored (object_setState _ _ _))
  | commit top stored =>
    exact stepped [_] [_] top rfl rfl rfl (by simp [Event.rid]) quiet (by simp [Frame.passed])
      (objectAt_update stored fun _ => rfl)
  | addFree top stored =>
    exact stepped [_] [_, _] top rfl rfl rfl (by simp [Event.rid]) linking (by simp [Frame.passed])
      (objectAt_update stored fun _ => rfl)
  | addShare top stored =>
    exact stepped [] [_] top rfl rfl rfl (by simp [Event.rid]) linking (by simp)
      (objectAt_update stored fun _ => rfl)
  | load top => exact stepped [_] [] top rfl rfl rfl (by simp) linking (by simp [Frame.passed]) rfl
  | gone top => exact stepped [_] [] top rfl rfl rfl (by simp) linking (by simp [Frame.passed]) rfl
  | publish top stored =>
    exact stepped [_] [] top rfl rfl rfl (by simp) linking (by simp [Frame.passed])
      (objectAt_update stored fun j => (object_setLink _ _ _ j).trans (object_setState _ _ _ j))
  | retry top stored =>
    exact stepped [_] [] top rfl rfl rfl (by simp) linking (by simp [Frame.passed])
      (objectAt_update stored (object_setState _ _ _))
  | releaseFree top _ _ stored =>
    exact stepped [_, _] [_] top rfl rfl rfl (by simp [Event.rid]) visiting (by simp [Frame.passed])
      (objectAt_update stored (object_setLink _ _ _))
  | releaseCount top _ _ stored =>
    exact stepped [_] [] top rfl rfl rfl (by simp) visiting (by simp [Frame.passed])
      (objectAt_update stored (object_setLink _ _ _))
  | skipReclaim top =>
    exact stepped [_] [] top rfl rfl rfl (by simp) iterating (by simp [Frame.passed]) rfl
  | next top => exact stepped [_] [] top rfl rfl rfl (by simp) iterating (by simp [Frame.passed]) rfl
  | reset top => exact stepped [_] [] top rfl rfl rfl (by simp) (fun _ => id) (by simp [Frame.passed]) rfl
  | take top _ _ _ stored =>
    exact stepped [_, _] [_] top rfl rfl rfl (by simp [Event.rid]) iterating (by simp [Frame.passed])
      (objectAt_update stored fun _ => rfl)
  | @takeWrong cursor below spurious top =>
    refine stepped [_, _] [] top rfl rfl rfl (by simp) iterating ?_ rfl
    intro e g member
    simp only [List.mem_cons, List.not_mem_nil, or_false] at member
    rcases member with rfl | rfl
    · cases st.batch cursor <;> simp [Frame.passed]
    · exact id
  | @invoke b i below batch entry spurious top stored found =>
    have there : objectAt st.mem ⟨b, i⟩ = some entry.object := by
      rw [objectAt_eq (e := ⟨b, i⟩) stored, found]
      rfl
    refine .invoke (e := ⟨b, i⟩) top stored there rfl rfl rfl fun e => ?_
    refine Reached.update [_] [_, _] _ top rfl ?_
    -- One more entry is passed.
    cases e with
    | mk batch' index =>
      simp only [List.mem_cons, List.not_mem_nil, or_false, exists_eq_or_imp, exists_eq_left,
        Frame.passed, false_or, EntryPtr.mk.injEq]
      rw [Nat.lt_succ_iff_lt_or_eq, and_or_left]
  | @dealloc b i below batch spurious top stored finished =>
    refine .dealloc top stored finished rfl rfl rfl fun e other => Reached.quiet [] top rfl ?_ (by simp)
    simp [Frame.passed, other]

end Seize.Raw
