import Seize.Tls.Invariant

/-!
A `ThreadLocal` is a map from thread IDs to values.

Seen from one ID, every run is a sequence of complete calls on one optional value, whatever happens
to other IDs that share its bucket.
-/

namespace Seize.Tls

variable {τ : Type}

/-- What a caller sees of the map at one ID, between two events there. -/
inductive Cell (τ : Type) where
  /-- No call is in progress. -/
  | idle (value : Option τ)
  /-- `load_or` has been called. -/
  | loading (value : Option τ)
  /-- `load_or` has called `create`. -/
  | creating (value : τ)
  /-- `load_or` has installed what `create` returned. -/
  | created (value : τ)
  /-- `get` has been called. -/
  | getting (value : Option τ)

/-- The value of the map at an ID. -/
def Cell.value : Cell τ → Option τ
  | .idle value => value
  | .loading value => value
  | .creating _ => none
  | .created value => some value
  | .getting value => value

/--
The calls on one ID of a map.

A `load_or` on an absent ID calls `create` once and installs its result, or fails and changes
nothing. On a present ID it returns the value that was installed.
-/
inductive MapStep : Cell τ → Event τ → Cell τ → Prop where
  | called (value : Option τ) : MapStep (.idle value) .called (.loading value)
  | found (value : τ) : MapStep (.loading (some value)) (.returned value) (.idle (some value))
  | failed : MapStep (.loading none) .failed (.idle none)
  | create (value : τ) : MapStep (.loading none) (.created value) (.creating value)
  | install (value : τ) : MapStep (.creating value) (.installed value) (.created value)
  | returned (value : τ) : MapStep (.created value) (.returned value) (.idle (some value))
  | asked (value : Option τ) : MapStep (.idle value) .asked (.getting value)
  | got (value : Option τ) : MapStep (.getting value) (.got value) (.idle value)

/-- The map takes an ID from nothing to a cell by a history of events, newest first. -/
inductive Accepts : List (Event τ) → Cell τ → Prop where
  | nil : Accepts [] (.idle none)
  | cons {log : List (Event τ)} {event : Event τ} {cell cell' : Cell τ} (before : Accepts log cell)
      (stepped : MapStep cell event cell') : Accepts (event :: log) cell'

/-- The events of one ID. -/
def history (log : List (Nat × Event τ)) (id : Nat) : List (Event τ) :=
  (log.filter (·.1 = id)).map (·.2)

/-- The value of an entry that is present. -/
def Entry.held (entry : Entry τ) : Option τ := if entry.present then entry.value else none

/-- The entry of an ID. One whose bucket is not installed is empty. -/
def State.slot (cfg : Config) (st : State τ) (id : Nat) : Entry τ :=
  match Thread.new cfg.width id with
  | .ok thread => (st.entryAt thread.bucket thread.entry).getD ⟨false, none⟩
  | .error _ => ⟨false, none⟩

/-- The map that a `ThreadLocal` stands for. -/
def State.map (cfg : Config) (st : State τ) (id : Nat) : Option τ := (st.slot cfg id).held

/--
The cell that a call in progress and the entry of its ID stand for.

A call that goes on to initialize has seen that its entry is not present, and nobody else writes it.
-/
inductive Stands (entry : Entry τ) : Option Call → Cell τ → Prop where
  | idle : Stands entry none (.idle entry.held)
  | load (thread : Thread) : Stands entry (some (.load thread)) (.loading entry.held)
  | check (thread : Thread) (a : Addr) :
      Stands entry (some (.check thread a)) (.loading entry.held)
  | allocate (thread : Thread) (absent : entry.present = false) :
      Stands entry (some (.allocate thread)) (.loading none)
  | exchange (thread : Thread) (new : Addr) (absent : entry.present = false) :
      Stands entry (some (.exchange thread new)) (.loading none)
  | write (thread : Thread) (a : Addr) (absent : entry.present = false) :
      Stands entry (some (.write thread a)) (.loading none)
  | store (thread : Thread) (a : Addr) {value : τ} (written : entry = ⟨false, some value⟩) :
      Stands entry (some (.store thread a)) (.creating value)
  | get (thread : Thread) : Stands entry (some (.get thread)) (.getting entry.held)
  | getCheck (thread : Thread) (a : Addr) :
      Stands entry (some (.getCheck thread a)) (.getting entry.held)

/-- The call in progress for an ID, if there is one. -/
def CallOn (st : State τ) (id : Nat) : Option Call → Prop
  | none => ∀ t call, st.calls t = some call → call.thread.id ≠ id
  | some call => call.thread.id = id ∧ ∃ t, st.calls t = some call

/-- Every ID has gone through a history of the map, up to the call in progress. -/
def Refined (cfg : Config) (st : State τ) : Prop :=
  ∀ id, ∃ call cell, CallOn st id call ∧ Accepts (history st.log id) cell ∧
    Stands (st.slot cfg id) call cell

variable {cfg : Config} {st st' : State τ} {t t' : Tid} {thread thread' : Thread}
  {action : Action τ} {a : Addr} {id : Nat}

/-- The entry of an ID whose slot is known. -/
theorem State.slot_eq (found : Thread.new cfg.width id = .ok thread) :
    st.slot cfg id = (st.entryAt thread.bucket thread.entry).getD ⟨false, none⟩ := by
  simp [State.slot, found]

/-- Steps that keep the buckets and their contents keep every entry. -/
theorem State.slot_same (buckets : st'.buckets = st.buckets) (heap : st'.heap = st.heap) (id : Nat) :
    st'.slot cfg id = st.slot cfg id := by
  simp only [State.slot, State.entryAt, buckets, heap]

/-- Steps that change what is not installed keep every entry. -/
theorem State.slot_hidden {content : Option (Bucket τ)} (buckets : st'.buckets = st.buckets)
    (heap : st'.heap = Function.update st.heap a content) (out : ∀ i, st.buckets i ≠ some a)
    (id : Nat) : st'.slot cfg id = st.slot cfg id := by
  simp only [State.slot, State.entryAt_heap buckets heap out]

/-- Installing a bucket without values keeps every entry. -/
theorem win_slot {new : Addr} (inv : Inv cfg st) (call : st.calls t = some (.exchange thread new))
    (null : st.buckets thread.bucket = none)
    (buckets : st'.buckets = Function.update st.buckets thread.bucket (some new))
    (heap : st'.heap = st.heap) (id : Nat) : st'.slot cfg id = st.slot cfg id := by
  -- The row was missing before, and holds nothing now.
  have same : ∀ i e, (st'.entryAt i e).getD ⟨false, none⟩ = (st.entryAt i e).getD ⟨false, none⟩ := by
    intro i e
    simp only [State.entryAt, buckets, heap]
    by_cases here : i = thread.bucket
    · subst here
      simp [null, (inv.calls t _ call).1, emptyBucket]
    · rw [Function.update_of_ne here]
  simp only [State.slot, same]

/-- Writing an entry changes the entry of one ID only. -/
theorem write_slot {bucket : Bucket τ} (entry : Entry τ) (large : 6 ≤ cfg.width) (inv : Inv cfg st)
    (slot : Thread.new cfg.width thread.id = .ok thread)
    (found : st.buckets thread.bucket = some a) (stored : st.heap a = some bucket)
    (buckets : st'.buckets = st.buckets)
    (heap : st'.heap = Function.update st.heap a (some { bucket with
      entries := Function.update bucket.entries thread.entry entry })) (id : Nat) :
    st'.slot cfg id = if id = thread.id then entry else st.slot cfg id := by
  -- Different IDs have different entries.
  have entries := State.entryAt_write inv found buckets heap stored
  by_cases here : id = thread.id
  · subst here
    rw [if_pos rfl, State.slot_eq slot, entries, if_pos rfl]
    rfl
  · rw [if_neg here]
    cases other : Thread.new cfg.width id with
    | error fault => simp [State.slot, other]
    | ok thread' =>
      have named := (Thread.new_spec large (Thread.small_of_new other) other).1
      rw [State.slot_eq other, State.slot_eq other, entries, if_neg]
      rw [← named] at other here
      exact Thread.entry_ne large other slot here

/-- The entry that a call reads through its bucket is the entry of its ID. -/
theorem Inv.slot_read {bucket : Bucket τ} {call : Call} (inv : Inv cfg st)
    (called : st.calls t = some call) (found : st.buckets call.thread.bucket = some a)
    (stored : st.heap a = some bucket) :
    st.slot cfg call.thread.id = bucket.entries call.thread.entry := by
  rw [State.slot_eq (inv.slots t call called), State.entryAt_eq found stored]
  rfl

/-- An ID has no entry that is present while its bucket is not installed. -/
theorem Inv.slot_null {call : Call} (inv : Inv cfg st) (called : st.calls t = some call)
    (null : st.buckets call.thread.bucket = none) : st.slot cfg call.thread.id = ⟨false, none⟩ := by
  rw [State.slot_eq (inv.slots t call called)]
  simp [State.entryAt, null]

/-- Events of one ID extend its own history only. -/
theorem history_append (events : List (Event τ)) (log : List (Nat × Event τ)) (id id' : Nat) :
    history (events.map (id, ·) ++ log) id' =
      (if id = id' then events else []) ++ history log id' := by
  by_cases here : id = id'
  · simp [history, here, List.filter_map, Function.comp_def]
  · simp [history, here, List.filter_map, Function.comp_def]

/--
The rule for a step of one call.

What a step does to the calls on other IDs follows from the calls it leaves alone, so each step only
has to say how it continues the history of its own ID.
-/
theorem Refined.turn {old next : Option Call} (id : Nat) (events : List (Event τ)) (inv : Inv cfg st)
    (refined : Refined cfg st) (called : st.calls t = old) (here : CallOn st id old)
    (named : ∀ call, next = some call → call.thread.id = id)
    (calls : st'.calls = Function.update st.calls t next)
    (log : st'.log = events.map (id, ·) ++ st.log)
    (others : ∀ id', id' ≠ id → st'.slot cfg id' = st.slot cfg id')
    (own : ∀ log cell, Accepts log cell → Stands (st.slot cfg id) old cell →
      ∃ cell', Accepts (events ++ log) cell' ∧ Stands (st'.slot cfg id) next cell') :
    Refined cfg st' := by
  intro id'
  obtain ⟨call, cell, on, accepted, stands⟩ := refined id'
  by_cases same : id' = id
  · subst same
    -- There is at most one call for an ID, so it is the one that moves.
    have is : call = old := by
      cases call with
      | none =>
        cases old with
        | none => rfl
        | some old => exact absurd here.1 (on t old called)
      | some call =>
        obtain ⟨is, t₁, found⟩ := on
        cases old with
        | none => exact absurd is (here t₁ call found)
        | some old =>
          cases inv.unique t₁ t call old found called (is.trans here.1.symm)
          exact found.symm.trans called
    subst is
    obtain ⟨cell', accepted', stands'⟩ := own _ cell accepted stands
    refine ⟨next, cell', ?_, ?_, stands'⟩
    · cases next with
      | some new => exact ⟨named new rfl, t, by rw [calls, Function.update_self]⟩
      | none =>
        intro t₁ other found
        rw [calls] at found
        by_cases mine : t₁ = t
        · rw [mine, Function.update_self] at found
          cases found
        · rw [Function.update_of_ne mine] at found
          cases call with
          | none => exact here t₁ other found
          | some call =>
            intro is
            exact mine (inv.unique t₁ t other call found called (is.trans here.1.symm))
    · rw [log, history_append, if_pos rfl]
      exact accepted'
  · refine ⟨call, cell, ?_, ?_, ?_⟩
    · -- The thread that moves had no call on this ID, and has none now.
      cases call with
      | none =>
        intro t₁ other found
        rw [calls] at found
        by_cases mine : t₁ = t
        · rw [mine, Function.update_self] at found
          rw [named other found]
          exact fun is => same is.symm
        · rw [Function.update_of_ne mine] at found
          exact on t₁ other found
      | some call =>
        obtain ⟨is, t₁, found⟩ := on
        refine ⟨is, t₁, ?_⟩
        rw [calls, Function.update_of_ne]
        · exact found
        · rintro rfl
          rw [found] at called
          subst called
          exact same (is.symm.trans here.1)
    · rw [log, history_append, if_neg (fun is => same is.symm)]
      exact accepted
    · rw [others id' same]
      exact stands

/-- The rule for a step of one call that keeps the entries. -/
theorem Refined.quiet {old : Call} {next : Option Call} (id : Nat) (events : List (Event τ))
    (inv : Inv cfg st) (refined : Refined cfg st) (called : st.calls t = some old)
    (named : old.thread.id = id) (same : ∀ call, next = some call → call.thread = old.thread)
    (calls : st'.calls = Function.update st.calls t next)
    (log : st'.log = events.map (id, ·) ++ st.log)
    (slots : ∀ id, st'.slot cfg id = st.slot cfg id)
    (own : ∀ log cell, Accepts log cell → Stands (st.slot cfg id) (some old) cell →
      ∃ cell', Accepts (events ++ log) cell' ∧ Stands (st.slot cfg id) next cell') :
    Refined cfg st' := by
  refine refined.turn id events inv called ⟨named, t, called⟩
    (fun call is => by rw [same call is, named]) calls log (fun id' _ => slots id') ?_
  rw [slots]
  exact own

/-- The rule for a step of one call that writes the entry of its ID. -/
theorem Refined.written {next : Option Call} {old : Call} {bucket : Bucket τ} (entry : Entry τ)
    (events : List (Event τ)) (large : 6 ≤ cfg.width) (inv : Inv cfg st) (refined : Refined cfg st)
    (called : st.calls t = some old) (found : st.buckets old.thread.bucket = some a)
    (stored : st.heap a = some bucket) (same : ∀ call, next = some call → call.thread = old.thread)
    (calls : st'.calls = Function.update st.calls t next)
    (log : st'.log = events.map (old.thread.id, ·) ++ st.log) (buckets : st'.buckets = st.buckets)
    (heap : st'.heap = Function.update st.heap a (some { bucket with
      entries := Function.update bucket.entries old.thread.entry entry }))
    (own : ∀ log cell, Accepts log cell → Stands (bucket.entries old.thread.entry) (some old) cell →
      ∃ cell', Accepts (events ++ log) cell' ∧ Stands entry next cell') : Refined cfg st' := by
  -- Only the slot of the ID that was called for changes.
  have slots := write_slot entry large inv (inv.slots t old called) found stored buckets heap
  refine refined.turn old.thread.id events inv called ⟨rfl, t, called⟩
    (fun call is => by rw [same call is]) calls log (fun id' other => ?_) ?_
  · rw [slots, if_neg other]
  · rw [slots, if_pos rfl, inv.slot_read called found stored]
    exact own

/-- The start of a call. -/
theorem Refined.begin {call : Call} {event : Event τ} (large : 6 ≤ cfg.width) (inv : Inv cfg st)
    (refined : Refined cfg st) (idle : st.calls t = none)
    (found : Thread.new cfg.width id = .ok call.thread)
    (access : ∀ t call, st.calls t = some call → call.thread.id ≠ id)
    (calls : st'.calls = Function.update st.calls t (some call))
    (log : st'.log = (id, event) :: st.log) (slots : ∀ id, st'.slot cfg id = st.slot cfg id)
    (own : ∃ cell, MapStep (.idle (st.slot cfg id).held) event cell ∧
      Stands (st.slot cfg id) (some call) cell) : Refined cfg st' := by
  -- Nobody else is at work on the slot.
  have named := (Thread.new_spec large (Thread.small_of_new found) found).1
  refine refined.turn id [event] inv idle access (fun _ is => by cases is; exact named) calls log
    (fun id' _ => slots id') fun log cell accepted stands => ?_
  obtain ⟨cell', stepped, stands'⟩ := own
  cases stands
  rw [slots]
  exact ⟨cell', .cons accepted stepped, stands'⟩

/-- An ID whose entry is not present is absent from the map. -/
theorem Entry.held_absent {entry : Entry τ} (absent : entry.present = false) : entry.held = none := by
  simp [Entry.held, absent]

/-- An ID whose entry is present has the value that was written. -/
theorem Entry.held_present {entry : Entry τ} {value : τ} (marked : entry.present = true)
    (read : entry.value = some value) : entry.held = some value := by
  simp [Entry.held, marked, read]

/-- A call that returned leaves what the entry holds. -/
theorem Stands.return {entry : Entry τ} {value : Option τ} (held : entry.held = value) :
    Stands entry none (.idle value) :=
  held ▸ .idle

/-- The step lemma: every step continues the history of its ID as the map allows. -/
theorem Move.refined (moved : Move cfg st action st') (large : 6 ≤ cfg.width)
    (access : UniqueAccess st action) (inv : Inv cfg st) (refined : Refined cfg st) :
    Refined cfg st' := by
  cases moved with
  | @loadOr t id thread idle found =>
    exact refined.begin large inv idle found access rfl rfl (State.slot_same rfl rfl)
      ⟨_, .called _, .load thread⟩
  | @get t id thread idle found =>
    exact refined.begin large inv idle found access rfl rfl (State.slot_same rfl rfl)
      ⟨_, .asked _, .get thread⟩
  | @loadNull t thread call null =>
    refine refined.quiet thread.id [] inv call rfl (fun _ is => by cases is; rfl) rfl rfl
      (State.slot_same rfl rfl) fun log cell accepted stands => ?_
    have empty : st.slot cfg thread.id = ⟨false, none⟩ := inv.slot_null call null
    have absent : (st.slot cfg thread.id).present = false := by rw [empty]
    cases stands
    rw [Entry.held_absent absent] at accepted
    exact ⟨_, accepted, .allocate thread absent⟩
  | @loadSome t thread a call found =>
    refine refined.quiet thread.id [] inv call rfl (fun _ is => by cases is; rfl) rfl rfl
      (State.slot_same rfl rfl) fun log cell accepted stands => ?_
    cases stands
    exact ⟨_, accepted, .check thread a⟩
  | @allocateFail t thread answer call =>
    refine refined.quiet thread.id [.failed] inv call rfl (fun _ is => by cases is) rfl rfl
      (State.slot_same rfl rfl) fun log cell accepted stands => ?_
    cases stands with
    | allocate _ absent =>
      exact ⟨_, .cons accepted .failed, .return (Entry.held_absent absent)⟩
  | @allocate t thread a capacity layout call sized fits free =>
    have out : ∀ i, st.buckets i ≠ some a := by
      intro i found
      obtain ⟨_, bucket, stored, _⟩ := inv.buckets i _ found
      rw [free] at stored
      cases stored
    refine refined.quiet thread.id [] inv call rfl (fun _ is => by cases is; rfl) rfl rfl
      (State.slot_hidden rfl rfl out) fun log cell accepted stands => ?_
    cases stands with
    | allocate _ absent => exact ⟨_, accepted, .exchange thread a absent⟩
  | @win t thread new call null =>
    refine refined.quiet thread.id [] inv call rfl (fun _ is => by cases is; rfl) rfl rfl
      (win_slot inv call null rfl rfl) fun log cell accepted stands => ?_
    cases stands with
    | exchange _ _ absent =>
      rw [← Entry.held_absent absent] at accepted
      exact ⟨_, accepted, .check thread new⟩
  | @lose t thread new other capacity layout bucket call taken =>
    refine refined.quiet thread.id [] inv call rfl (fun _ is => by cases is; rfl) rfl rfl
      (State.slot_hidden rfl rfl (inv.calls _ _ call).2) fun log cell accepted stands => ?_
    cases stands with
    | exchange _ _ absent =>
      rw [← Entry.held_absent absent] at accepted
      exact ⟨_, accepted, .check thread other⟩
  | @present t thread a bucket value call stored inside marked read =>
    have entry : st.slot cfg thread.id = bucket.entries thread.entry :=
      inv.slot_read call (inv.calls _ _ call) stored
    refine refined.quiet thread.id [.returned value] inv call rfl (fun _ is => by cases is) rfl rfl
      (State.slot_same rfl rfl) fun log cell accepted stands => ?_
    have held : (st.slot cfg thread.id).held = some value := by
      rw [entry]
      exact Entry.held_present marked read
    cases stands
    rw [held] at accepted
    exact ⟨_, .cons accepted (.found value), .return held⟩
  | @absent t thread a bucket call stored inside unmarked =>
    have entry : st.slot cfg thread.id = bucket.entries thread.entry :=
      inv.slot_read call (inv.calls _ _ call) stored
    refine refined.quiet thread.id [] inv call rfl (fun _ is => by cases is; rfl) rfl rfl
      (State.slot_same rfl rfl) fun log cell accepted stands => ?_
    have absent : (st.slot cfg thread.id).present = false := by
      rw [entry]
      exact unmarked
    cases stands
    rw [Entry.held_absent absent] at accepted
    exact ⟨_, accepted, .write thread a absent⟩
  | @write t thread a bucket value call stored inside =>
    refine refined.written { bucket.entries thread.entry with value := some value } [.created value]
      large inv call (inv.calls _ _ call).1 stored (fun _ is => by cases is; rfl) rfl rfl rfl rfl
        fun log cell accepted stands => ?_
    cases stands with
    | write _ _ absent =>
      refine ⟨_, .cons accepted (.create value), .store thread a ?_⟩
      rw [← absent]
      rfl
  | @store t thread a bucket value call stored inside read =>
    refine refined.written { bucket.entries thread.entry with present := true }
      [.returned value, .installed value] large inv call (inv.calls _ _ call).1 stored
        (fun _ is => by cases is) rfl rfl rfl rfl fun log cell accepted stands => ?_
    cases stands with
    | @store _ _ value' written =>
      -- The value that was read is the one that `create` returned.
      have is : value' = value := by
        have held : (bucket.entries thread.entry).value = some value' := congrArg Entry.value written
        exact Option.some.inj (held.symm.trans read)
      subst is
      exact ⟨_, .cons (.cons accepted (.install value')) (.returned value'),
        .return (Entry.held_present rfl read)⟩
  | @getNull t thread call null =>
    refine refined.quiet thread.id [.got none] inv call rfl (fun _ is => by cases is) rfl rfl
      (State.slot_same rfl rfl) fun log cell accepted stands => ?_
    have empty : st.slot cfg thread.id = ⟨false, none⟩ := inv.slot_null call null
    have held : (st.slot cfg thread.id).held = none := by rw [empty]; rfl
    cases stands
    rw [held] at accepted
    exact ⟨_, .cons accepted (.got none), .return held⟩
  | @getSome t thread a call found =>
    refine refined.quiet thread.id [] inv call rfl (fun _ is => by cases is; rfl) rfl rfl
      (State.slot_same rfl rfl) fun log cell accepted stands => ?_
    cases stands
    exact ⟨_, accepted, .getCheck thread a⟩
  | @gotSome t thread a bucket value call stored inside marked read =>
    have entry : st.slot cfg thread.id = bucket.entries thread.entry :=
      inv.slot_read call (inv.calls _ _ call) stored
    refine refined.quiet thread.id [.got (some value)] inv call rfl (fun _ is => by cases is) rfl rfl
      (State.slot_same rfl rfl) fun log cell accepted stands => ?_
    have held : (st.slot cfg thread.id).held = some value := by
      rw [entry]
      exact Entry.held_present marked read
    cases stands
    rw [held] at accepted
    exact ⟨_, .cons accepted (.got (some value)), .return held⟩
  | @gotNone t thread a bucket call stored inside unmarked =>
    have entry : st.slot cfg thread.id = bucket.entries thread.entry :=
      inv.slot_read call (inv.calls _ _ call) stored
    refine refined.quiet thread.id [.got none] inv call rfl (fun _ is => by cases is) rfl rfl
      (State.slot_same rfl rfl) fun log cell accepted stands => ?_
    have held : (st.slot cfg thread.id).held = none := by
      rw [entry]
      exact Entry.held_absent unmarked
    cases stands
    rw [held] at accepted
    exact ⟨_, .cons accepted (.got none), .return held⟩
  | iterate iters => exact refined

/-- The value of a cell is what the entry holds. -/
theorem Stands.value {entry : Entry τ} {call : Option Call} {cell : Cell τ}
    (stands : Stands entry call cell) : cell.value = entry.held := by
  cases stands with
  | allocate _ absent => exact (Entry.held_absent absent).symm
  | exchange _ _ absent => exact (Entry.held_absent absent).symm
  | write _ _ absent => exact (Entry.held_absent absent).symm
  | store _ _ written =>
    rw [written]
    rfl
  | _ => rfl

/-- A map has the value that was installed last, and nothing is installed twice. -/
theorem Accepts.value_iff {log : List (Event τ)} {cell : Cell τ} (accepted : Accepts log cell)
    (value : τ) : cell.value = some value ↔ .installed value ∈ log := by
  induction accepted with
  | nil => simp [Cell.value]
  | cons before stepped ih =>
    rw [List.mem_cons]
    cases stepped with
    | install value' =>
      -- Before the value was installed there was none.
      simp only [Cell.value, Event.installed.injEq, Option.some.injEq] at ih ⊢
      constructor
      · rintro rfl
        exact .inl rfl
      · rintro (rfl | old)
        · rfl
        · cases ih.mpr old
    | _ => simpa [Cell.value] using ih

/-- Every event of a history is a step of the map from what came before. -/
theorem Accepts.step_of_mem {cell : Cell τ} {event : Event τ} :
    ∀ {later earlier : List (Event τ)}, Accepts (later ++ event :: earlier) cell →
      ∃ before after, Accepts earlier before ∧ MapStep before event after := by
  intro later
  induction later generalizing cell with
  | nil =>
    intro earlier accepted
    cases accepted with
    | cons before stepped => exact ⟨_, _, before, stepped⟩
  | cons newest rest ih =>
    intro earlier accepted
    cases accepted with
    | cons before stepped => exact ih before

/-- Only the store of a `present` flag changes the map, and only at the ID of its call. -/
theorem Move.map_cases (moved : Move cfg st action st') (large : 6 ≤ cfg.width) (inv : Inv cfg st)
    (id : Nat) :
    st'.map cfg id = st.map cfg id ∨
      ∃ t thread a value, action = .step t ∧ st.calls t = some (.store thread a) ∧
        thread.id = id ∧ st.slot cfg id = ⟨false, some value⟩ ∧ st'.map cfg id = some value := by
  -- Where the entries are the same, so are the values.
  have same : ∀ {st₂ : State τ}, (∀ id, st₂.slot cfg id = st.slot cfg id) →
      st₂.map cfg id = st.map cfg id := fun slots => congrArg Entry.held (slots id)
  cases moved with
  | allocate call sized fits free =>
    refine .inl (same (State.slot_hidden rfl rfl fun i found => ?_))
    obtain ⟨_, bucket, stored, _⟩ := inv.buckets i _ found
    rw [free] at stored
    cases stored
  | win call null => exact .inl (same (win_slot inv call null rfl rfl))
  | lose call taken =>
    exact .inl (same (State.slot_hidden rfl rfl (inv.calls _ _ call).2))
  | @write t thread a bucket value call stored inside =>
    -- The entry is not marked as present yet.
    obtain ⟨there, entry, read, unmarked⟩ := inv.calls _ _ call
    rw [State.entryAt_eq there stored] at read
    cases read
    have slot : Thread.new cfg.width thread.id = .ok thread := inv.slots _ _ call
    refine .inl ((congrArg Entry.held (write_slot { bucket.entries thread.entry with
      value := some value } large inv slot there stored ?_ ?_ id)).trans ?_)
    · rfl
    · rfl
    · split
      · rename_i here
        have entry : st.slot cfg thread.id = bucket.entries thread.entry :=
          inv.slot_read call there stored
        rw [State.map, here, entry, Entry.held_absent unmarked]
        exact Entry.held_absent unmarked
      · rfl
  | @store t thread a bucket value call stored inside read =>
    obtain ⟨there, value', held⟩ := inv.calls _ _ call
    have slot : Thread.new cfg.width thread.id = .ok thread := inv.slots _ _ call
    have entry : bucket.entries thread.entry = ⟨false, some value'⟩ := by
      rw [State.entryAt_eq there stored] at held
      exact Option.some.inj held
    by_cases here : id = thread.id
    · have before : st.slot cfg thread.id = ⟨false, some value'⟩ :=
        (inv.slot_read call there stored).trans entry
      refine .inr ⟨t, thread, a, value', rfl, call, here.symm, here ▸ before, ?_⟩
      refine (congrArg Entry.held (write_slot { bucket.entries thread.entry with present := true }
        large inv slot there stored ?_ ?_ id)).trans ?_
      · rfl
      · rfl
      · rw [if_pos here, entry]
        rfl
    · refine .inl ((congrArg Entry.held (write_slot { bucket.entries thread.entry with
        present := true } large inv slot there stored ?_ ?_ id)).trans ?_)
      · rfl
      · rfl
      · rw [if_neg here]
        rfl
  | loadOr | get | loadNull | loadSome | allocateFail | present | absent | getNull | getSome | gotSome
  | gotNone | iterate => exact .inl (same (State.slot_same rfl rfl))

/-- A bucket pointer changes once, when a bucket is installed where there was none. -/
theorem Move.buckets (moved : Move cfg st action st') (i : Nat) :
    st'.buckets i = st.buckets i ∨ (st.buckets i = none ∧ ∃ t thread new, action = .step t ∧
      st.calls t = some (.exchange thread new) ∧ thread.bucket = i ∧ st'.buckets i = some new) := by
  cases moved with
  | @win t thread new call null =>
    by_cases here : i = thread.bucket
    · subst here
      exact .inr ⟨null, t, thread, new, rfl, call, rfl, Function.update_self ..⟩
    · exact .inl (Function.update_of_ne here _ _)
  | _ => exact .inl rfl

end Seize.Tls
