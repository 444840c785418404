import Seize.Raw.Defer
import Seize.Raw.Sweep

/-!
How much waits in a local batch.

A scan gives up only when it meets more active slots than its batch has entries. So a batch that is
not being scanned stays below the batch size, or below the number of reservations.
-/

namespace Seize.Raw

variable {cfg : Config} {st st' : State} {t u : Tid} {s v : SlotId} {action : Action} {b : Addr}
  {batch : Batch}

/-- Somebody scans for the batch of a slot. -/
def Scanned (st : State) (s : SlotId) : Prop := ∃ t, ∃ f ∈ st.stack t, f.scanSlot = some s

/-- The reservations in front of a cursor. -/
def State.reserved (st : State) (cursor : Nat) : Nat :=
  st.created.countP fun s => decide (s < cursor)

/-- What no batch has to exceed. -/
def State.limit (cfg : Config) (st : State) : Nat := max cfg.batchSize st.created.length

/-- What waits in the local batch of a slot is little. -/
def Little (cfg : Config) (st : State) (s : SlotId) : Prop :=
  pendingIn st s = 0 ∨ pendingIn st s < st.limit cfg

/-- The bounds on scans, local batches and all batches. -/
structure Backlog (cfg : Config) (st : State) : Prop where
  scans : ∀ t s b start cursor marked, .scan s b start cursor marked ∈ st.stack t →
    marked ≤ st.reserved cursor
  waiting : ∀ s, ¬ Scanned st s → Little cfg st s
  batches : ∀ b batch, st.mem b = some batch → batch.entries.length ≤ max 1 (st.limit cfg)

/-- More reservations are in front of a later cursor. -/
theorem reserved_mono {cursor cursor' : Nat} (forward : cursor ≤ cursor') :
    st.reserved cursor ≤ st.reserved cursor' := by
  refine List.countP_mono_left fun s _ front => ?_
  exact decide_eq_true (Nat.lt_of_lt_of_le (of_decide_eq_true front) forward)

/-- A reservation at the cursor is one more when it is passed. -/
theorem reserved_succ {cursor : Nat} (present : cursor ∈ st.created) :
    st.reserved cursor + 1 ≤ st.reserved (cursor + 1) := by
  -- Take the reservation out of the list: it counts for the later cursor only.
  have order := List.perm_cons_erase present
  rw [State.reserved, State.reserved, order.countP_eq, order.countP_eq, List.countP_cons,
    List.countP_cons, if_neg (by simp), if_pos (by simp)]
  have rest : (st.created.erase cursor).countP (fun s => decide (s < cursor)) ≤
      (st.created.erase cursor).countP fun s => decide (s < cursor + 1) :=
    List.countP_mono_left fun s _ front =>
      decide_eq_true (Nat.lt_succ_of_lt (of_decide_eq_true front))
  omega

/-- A reservation at the cursor is not in front of it. -/
theorem reserved_lt {cursor : Nat} (present : cursor ∈ st.created) :
    st.reserved cursor < st.created.length :=
  Nat.lt_of_lt_of_le (reserved_succ present) List.countP_le_length

/-- The rule for steps: what they do to reservations, scans, local batches and batches. -/
theorem Backlog.keep (backlog : Backlog cfg st)
    (fronts : ∀ cursor, st.reserved cursor ≤ st'.reserved cursor)
    (more : st.created.length ≤ st'.created.length)
    (scans : ∀ t s b start cursor marked, .scan s b start cursor marked ∈ st'.stack t →
      .scan s b start cursor marked ∈ st.stack t ∨ marked ≤ st'.reserved cursor)
    (waiting : ∀ s, ¬ Scanned st' s →
      (¬ Scanned st s ∧ pendingIn st' s = pendingIn st s) ∨ Little cfg st' s)
    (batches : ∀ b batch', st'.mem b = some batch' →
      (∃ batch, st.mem b = some batch ∧ batch'.entries.length = batch.entries.length) ∨
        batch'.entries.length ≤ max 1 (st'.limit cfg)) : Backlog cfg st' := by
  -- With more reservations all bounds are larger.
  have larger : st.limit cfg ≤ st'.limit cfg := by
    rw [State.limit, State.limit]
    omega
  refine ⟨fun t s b start cursor marked member => ?_, fun s unscanned => ?_,
    fun b batch' stored => ?_⟩
  · rcases scans t s b start cursor marked member with old | new
    · exact (backlog.scans t s b start cursor marked old).trans (fronts cursor)
    · exact new
  · rcases waiting s unscanned with ⟨before, same⟩ | little
    · rcases backlog.waiting s before with none_ | few
      · exact .inl (same.trans none_)
      · exact .inr (same ▸ Nat.lt_of_lt_of_le few larger)
    · exact little
  · rcases batches b batch' stored with ⟨batch, old, same⟩ | small
    · have before := backlog.batches b batch old
      omega
    · exact small

/-- The rule for steps that change neither reservations nor what the batches hold. -/
theorem Backlog.still (backlog : Backlog cfg st) (created : st'.created = st.created)
    (local_ : st'.batch = st.batch)
    (lengths : ∀ b, (st'.mem b).map (·.entries.length) = (st.mem b).map (·.entries.length))
    (scans : ∀ t s b start cursor marked, .scan s b start cursor marked ∈ st'.stack t →
      .scan s b start cursor marked ∈ st.stack t ∨ marked ≤ st'.reserved cursor)
    (scanned : ∀ s, Scanned st s → Scanned st' s) : Backlog cfg st' := by
  refine backlog.keep (fun cursor => ?_) (by rw [created]) scans (fun s unscanned => .inl ⟨?_, ?_⟩)
    fun b batch' stored => .inl ?_
  · rw [State.reserved, State.reserved, created]
  · exact fun before => unscanned (scanned s before)
  · exact pendingIn_congr (by rw [local_]) fun b _ => lengths b
  · have same := lengths b
    rw [stored] at same
    obtain ⟨batch, old, length⟩ := Option.map_eq_some_iff.mp same.symm
    exact ⟨batch, old, length.symm⟩

/-- A batch that is written keeps all lengths. -/
theorem lengths_write {batch' : Batch} (stored : st.mem b = some batch)
    (memory : st'.mem = Function.update st.mem b (some batch'))
    (same : batch'.entries.length = batch.entries.length) (b₁ : Addr) :
    (st'.mem b₁).map (·.entries.length) = (st.mem b₁).map (·.entries.length) := by
  by_cases here : b₁ = b
  · subst here
    rw [memory, Function.update_self, stored, Option.map_some, Option.map_some, same]
  · rw [memory, Function.update_of_ne here]

section Frames

variable {f k : Frame} {below : List Frame}

/-- A call leaves the scans alone, and is none that has marked too much. -/
theorem scans_called (stack : st'.stack = Function.update st.stack t (k :: st.stack t))
    (few : ∀ s b start cursor marked, k = .scan s b start cursor marked →
      marked ≤ st'.reserved cursor) :
    (∀ u s b start cursor marked, .scan s b start cursor marked ∈ st'.stack u →
      .scan s b start cursor marked ∈ st.stack u ∨ marked ≤ st'.reserved cursor) ∧
        ∀ s, Scanned st s → Scanned st' s := by
  -- The stack of the thread grows by one call.
  constructor
  · intro u s b start cursor marked member
    rw [stack] at member
    by_cases here : u = t
    · subst here
      rw [Function.update_self] at member
      rcases List.mem_cons.mp member with rfl | old
      · exact .inr (few s b start cursor marked rfl)
      · exact .inl old
    · rw [Function.update_of_ne here] at member
      exact .inl member
  · rintro s ⟨u, g, member, is⟩
    refine ⟨u, g, ?_, is⟩
    rw [stack]
    by_cases here : u = t
    · subst here
      rw [Function.update_self]
      exact List.mem_cons_of_mem _ member
    · rw [Function.update_of_ne here]
      exact member

/-- A step of a call replaces it, and leaves the other calls alone. -/
theorem scans_stepped (fs : List Frame) (top : st.stack t = f :: below)
    (stack : st'.stack = Function.update st.stack t (fs ++ below)) :
    (∀ u g, g ∈ st'.stack u → g ∈ st.stack u ∨ g ∈ fs) ∧
      ∀ s, Scanned st s → f.scanSlot ≠ some s → Scanned st' s := by
  -- Below the top, the stack of the thread is as before.
  constructor
  · intro u g member
    rw [stack] at member
    by_cases here : u = t
    · subst here
      rw [Function.update_self] at member
      rcases List.mem_append.mp member with new | old
      · exact .inr new
      · exact .inl (top ▸ List.mem_cons_of_mem _ old)
    · rw [Function.update_of_ne here] at member
      exact .inl member
  · rintro s ⟨u, g, member, is⟩ other
    refine ⟨u, g, ?_, is⟩
    rw [stack]
    by_cases here : u = t
    · subst here
      rw [top] at member
      rw [Function.update_self]
      rcases List.mem_cons.mp member with rfl | old
      · exact absurd is other
      · exact List.mem_append_right _ old
    · rw [Function.update_of_ne here]
      exact member

/-- A step of a call that is no scan, and that leads to none. -/
theorem Backlog.stepped (backlog : Backlog cfg st) (fs : List Frame) (top : st.stack t = f :: below)
    (stack : st'.stack = Function.update st.stack t (fs ++ below)) (old : f.scanSlot = none)
    (new : ∀ g ∈ fs, g.scanSlot = none) (created : st'.created = st.created)
    (local_ : st'.batch = st.batch)
    (lengths : ∀ b, (st'.mem b).map (·.entries.length) = (st.mem b).map (·.entries.length)) :
    Backlog cfg st' := by
  obtain ⟨frames, scanned⟩ := scans_stepped fs top stack
  refine backlog.still created local_ lengths (fun u s b start cursor marked member => ?_)
    fun s before => scanned s before (by simp [old])
  rcases frames u _ member with kept | made
  · exact .inl kept
  · cases new _ made

/-- The step of a scan that goes on. -/
theorem Backlog.scanned {start cursor marked cursor' marked' : Nat} (backlog : Backlog cfg st)
    (top : st.stack t = .scan s b start cursor marked :: below)
    (stack : st'.stack = Function.update st.stack t (.scan s b start cursor' marked' :: below))
    (few : marked ≤ st.reserved cursor → marked' ≤ st.reserved cursor')
    (created : st'.created = st.created) (local_ : st'.batch = st.batch)
    (lengths : ∀ b, (st'.mem b).map (·.entries.length) = (st.mem b).map (·.entries.length)) :
    Backlog cfg st' := by
  obtain ⟨frames, scanned⟩ := scans_stepped [_] top stack
  have before := backlog.scans t s b start cursor marked (top ▸ List.mem_cons_self)
  refine backlog.still created local_ lengths (fun u v b' start' c m member => ?_) fun v old => ?_
  · -- The new frame has marked no more than the reservations that it has passed.
    rcases frames u _ member with kept | made
    · exact .inl kept
    · cases List.mem_singleton.mp made
      refine .inr ?_
      rw [State.reserved, created]
      exact few before
  · by_cases here : s = v
    · subst here
      refine ⟨t, .scan s b start cursor' marked', ?_, rfl⟩
      rw [stack, Function.update_self]
      exact List.mem_cons_self
    · exact scanned v old fun same => here (Option.some.inj same)

/-- A step of a call that works on one slot, and leaves little there. -/
theorem Backlog.ended (backlog : Backlog cfg st) (fs : List Frame) (top : st.stack t = f :: below)
    (stack : st'.stack = Function.update st.stack t (fs ++ below))
    (about : ∀ v, f.scanSlot = some v → v = s) (new : ∀ g ∈ fs, g.scanSlot = none)
    (created : st'.created = st.created) (others : ∀ v, v ≠ s → st'.batch v = st.batch v)
    (lengths : ∀ b, (st'.mem b).map (·.entries.length) = (st.mem b).map (·.entries.length))
    (little : Little cfg st' s) : Backlog cfg st' := by
  -- The slot of the scan is the only one that is not scanned any more.
  obtain ⟨frames, scanned⟩ := scans_stepped fs top stack
  refine backlog.keep (fun c => ?_) (by rw [created]) (fun u v b' start' c m member => ?_)
    (fun v unscanned => ?_) fun b' batch' stored => .inl ?_
  · rw [State.reserved, State.reserved, created]
  · rcases frames u _ member with kept | made
    · exact .inl kept
    · cases new _ made
  · by_cases here : v = s
    · subst here
      exact .inr little
    · refine .inl ⟨fun old => unscanned (scanned v old fun same => here (about v same)), ?_⟩
      exact pendingIn_congr (others v here) fun b' _ => lengths b'
  · have same := lengths b'
    rw [stored] at same
    obtain ⟨batch, old, length⟩ := Option.map_eq_some_iff.mp same.symm
    exact ⟨batch, old, length.symm⟩

/-- A call hands back a batch that is the local batch of no slot. -/
theorem Backlog.freed (backlog : Backlog cfg st) (top : st.stack t = f :: below)
    (stack : st'.stack = Function.update st.stack t below) (old : f.scanSlot = none)
    (created : st'.created = st.created) (local_ : st'.batch = st.batch)
    (memory : st'.mem = Function.update st.mem b none) (loose : ∀ v, st.batch v ≠ .ptr b) :
    Backlog cfg st' := by
  -- The batch belonged to no slot, so nothing that waits is lost.
  obtain ⟨frames, scanned⟩ := scans_stepped [] top stack
  refine backlog.keep (fun c => ?_) (by rw [created])
    (fun u v b' start c m member => .inl ?_) (fun v unscanned => .inl ⟨fun before => ?_, ?_⟩)
    fun b' batch' stored => .inl ⟨batch', ?_, rfl⟩
  · rw [State.reserved, State.reserved, created]
  · exact (frames u _ member).resolve_right (by simp)
  · exact unscanned (scanned v before (by simp [old]))
  · refine pendingIn_congr (by rw [local_]) fun b' held => ?_
    have other : b' ≠ b := by
      rintro rfl
      exact loose v held
    rw [memory, Function.update_of_ne other]
  · rw [memory] at stored
    by_cases here : b' = b
    · subst here
      rw [Function.update_self] at stored
      cases stored
    · rw [Function.update_of_ne here] at stored
      exact stored

/-- Calls that are no scans are given up. -/
theorem Backlog.unwound {fs : List Frame} (backlog : Backlog cfg st) (suffix : fs <:+ st.stack t)
    (stack : st'.stack = Function.update st.stack t fs) (created : st'.created = st.created)
    (local_ : st'.batch = st.batch) (memory : st'.mem = st.mem)
    (plain : ∀ g ∈ st.stack t, g.scanSlot = none) : Backlog cfg st' := by
  -- None of the frames that go is a scan.
  refine backlog.still created local_ (fun _ => by rw [memory])
    (fun u v b start c m member => .inl ?_) fun v before => ?_
  · rw [stack] at member
    by_cases here : u = t
    · subst here
      rw [Function.update_self] at member
      exact suffix.mem member
    · rw [Function.update_of_ne here] at member
      exact member
  · obtain ⟨u, g, member, is⟩ := before
    have other : u ≠ t := by
      rintro rfl
      rw [plain g member] at is
      cases is
    refine ⟨u, g, ?_, is⟩
    rw [stack, Function.update_of_ne other]
    exact member

end Frames

/-- Preparing a slot changes what waits nowhere. -/
theorem Prep.pendingIn_all (prep : Prep cfg s st st') (inv : Inv cfg st) (v : SlotId) :
    Raw.pendingIn st' v = Raw.pendingIn st v := by
  by_cases here : v = s
  · subst here
    exact prep.pendingIn
  · refine pendingIn_congr (prep.batch_other here) fun b held => ?_
    -- The batch of another slot is in memory, and stays what it is.
    obtain ⟨batch, stored, _⟩ := inv.slots v b held
    obtain ⟨batch', stored', same⟩ := prep.grows.kept b batch stored
    rw [stored, stored', Option.map_some, Option.map_some, same.entries]

/-- Preparing a slot stores nothing but empty batches. -/
theorem Prep.sizes (prep : Prep cfg s st st') {batch' : Batch} (stored : st'.mem b = some batch') :
    (∃ batch, st.mem b = some batch ∧ batch'.entries.length = batch.entries.length) ∨
      batch'.entries.length = 0 := by
  rcases prep.grows.new b batch' stored with ⟨batch, old, same⟩ | ⟨_, empty, _⟩
  · exact .inl ⟨batch, old, by rw [same.entries]⟩
  · exact .inr (by rw [empty, List.length_nil])

/-- Only the stacks tell what is scanned. -/
theorem Scanned.congr (scanned : Scanned st s) (stack : st'.stack = st.stack) : Scanned st' s := by
  obtain ⟨u, g, member, is⟩ := scanned
  exact ⟨u, g, stack ▸ member, is⟩

/-- Preparing a slot keeps the bounds. -/
theorem Prep.backlog (prep : Prep cfg s st st') (inv : Inv cfg st) (backlog : Backlog cfg st) :
    Backlog cfg st' := by
  obtain ⟨stack, _, _, created, _⟩ := prep.same
  refine backlog.keep (fun cursor => ?_) (by rw [created])
    (fun u v b start cursor marked member => .inl (stack ▸ member))
    (fun v unscanned => .inl ⟨fun old => unscanned (old.congr stack), prep.pendingIn_all inv v⟩)
    fun b batch' stored => ?_
  · rw [State.reserved, State.reserved, created]
  · rcases prep.sizes stored with old | empty
    · exact .inl old
    · exact .inr (empty ▸ Nat.zero_le _)

/-- An entry is pushed to the batch of a slot that nobody scans. -/
theorem Backlog.push {st₁ : State} {k : List Frame} (backlog : Backlog cfg st)
    (held : st.batch s = .ptr b) (stored : st.mem b = some batch) (inv : Inv cfg st)
    (free : ¬ Scanned st s) (p : Ptr) (g : Reclaim) (rid : Nat)
    (same : st₁ = (pushEntry st b batch p g rid).setStack t (k ++ st.stack t))
    (start : ∀ f ∈ k, ∃ start, f = .scan s b start 0 0)
    (small : k = [] → batch.entries.length + 1 < cfg.batchSize) : Backlog cfg st₁ := by
  subst same
  have stack : ((pushEntry st b batch p g rid).setStack t (k ++ st.stack t)).stack =
      Function.update st.stack t (k ++ st.stack t) := rfl
  have memory : ((pushEntry st b batch p g rid).setStack t (k ++ st.stack t)).mem =
      Function.update st.mem b
        (some { batch with entries := batch.entries ++ [newEntry b p g rid] }) := rfl
  have limit : ((pushEntry st b batch p g rid).setStack t (k ++ st.stack t)).limit cfg =
      st.limit cfg := rfl
  have pushed : pendingIn ((pushEntry st b batch p g rid).setStack t (k ++ st.stack t)) s =
      batch.entries.length + 1 := by
    rw [← pendingIn_ptr held stored]
    exact pendingIn_pushed p g rid held stored
  refine backlog.keep (fun _ => Nat.le_refl _) (Nat.le_refl _)
    (fun u v b' start' c m member => ?_) (fun v unscanned => ?_) fun b' batch' stored' => ?_
  · rw [stack] at member
    by_cases here : u = t
    · subst here
      rw [Function.update_self] at member
      rcases List.mem_append.mp member with new | old
      · obtain ⟨_, is⟩ := start _ new
        cases is
        exact .inr (Nat.zero_le _)
      · exact .inl old
    · rw [Function.update_of_ne here] at member
      exact .inl member
  · by_cases here : v = s
    · subst here
      -- A scan begins unless the batch stays small.
      cases k with
      | nil =>
        refine .inr (.inr ?_)
        rw [pushed, limit]
        exact Nat.lt_of_lt_of_le (small rfl) (Nat.le_max_left _ _)
      | cons f fs =>
        obtain ⟨_, is⟩ := start f List.mem_cons_self
        refine absurd ⟨t, f, ?_, by rw [is]; rfl⟩ unscanned
        rw [stack, Function.update_self]
        exact List.mem_cons_self
    · refine .inl ⟨fun old => unscanned ?_, pendingIn_congr rfl fun b' held' => ?_⟩
      · obtain ⟨u, f, member, is⟩ := old
        refine ⟨u, f, ?_, is⟩
        rw [stack]
        by_cases mine : u = t
        · subst mine
          rw [Function.update_self]
          exact List.mem_append_right _ member
        · rw [Function.update_of_ne mine]
          exact member
      · -- Two slots never hold one batch.
        have other : b' ≠ b := by
          rintro rfl
          exact here (inv.local_injective held' held)
        rw [memory, Function.update_of_ne other]
  · by_cases here : b' = b
    · subst here
      rw [memory, Function.update_self] at stored'
      cases stored'
      refine .inr ?_
      have little := backlog.waiting s free
      rw [Little, pendingIn_ptr held stored] at little
      rw [limit, List.length_append, List.length_singleton]
      omega
    · rw [memory, Function.update_of_ne here] at stored'
      exact .inl ⟨batch', stored', rfl⟩

/-- A scan that gives up has come to a reservation. -/
theorem abort_present {start cursor marked : Nat} {spurious : Bool} {below : List Frame}
    (top : st.stack t = .scan v b start cursor marked :: below) (stored : st.mem b = some batch)
    (spanned : Spanned cfg st)
    (ran : act cfg st t (.advance spurious) = .ok (st.setStack t below)) : cursor ∈ st.created :=
  spanned.active cursor (abort_active top stored ran)

/-- The step lemma: the bounds are kept by every step that the discipline permits. -/
theorem Move.backlog (moved : Move cfg st t action st') (ran : act cfg st t action = .ok st')
    (inv : Inv cfg st) (spanned : Spanned cfg st) (access : Access cfg st (t, action))
    (backlog : Backlog cfg st) : Backlog cfg st' := by
  have called : ∀ {k : Frame} {st₁ st₂ : State}, Backlog cfg st₁ → st₂.created = st₁.created →
      st₂.batch = st₁.batch → st₂.mem = st₁.mem →
      st₂.stack = Function.update st₁.stack t (k :: st₁.stack t) →
      (∀ s b start cursor marked, k = .scan s b start cursor marked → marked = 0) →
      Backlog cfg st₂ := by
    intro k st₁ st₂ before created local_ memory stack fresh
    obtain ⟨scans, scanned⟩ := scans_called stack fun s b start cursor marked is =>
      fresh s b start cursor marked is ▸ Nat.zero_le _
    exact before.still created local_ (fun _ => by rw [memory]) scans scanned
  have quiet : ∀ {st₂ : State}, st₂.created = st.created → st₂.batch = st.batch →
      st₂.mem = st.mem → st₂.stack = st.stack → Backlog cfg st₂ := by
    intro st₂ created local_ memory stack
    exact backlog.still created local_ (fun _ => by rw [memory])
      (fun u v b start cursor marked member => .inl (stack ▸ member))
      fun v old => old.congr stack
  -- Retiring a slot asks that nobody else works on its batch.
  have free : ∀ {v : SlotId}, userLevel (st.stack t) = true → UniqueAccess st t v →
      ¬ Scanned st v := by
    rintro v user unique ⟨u, f, member, is⟩
    exact unique.unscanned inv user u f member is
  have prepared : ∀ {v : SlotId} {st₁ : State},
      Prep cfg v { st with nextRid := st.nextRid + 1 } st₁ → Backlog cfg st₁ := by
    intro v st₁ prep
    have kept := prep.backlog (inv.congr rfl rfl rfl rfl rfl)
      (⟨backlog.scans, backlog.waiting, backlog.batches⟩ :
        Backlog cfg { st with nextRid := st.nextRid + 1 })
    exact kept
  have lengthened : ∀ {b₀ : Addr} {batch₀ new : Batch} {st₂ : State}, st.mem b₀ = some batch₀ →
      st₂.mem = Function.update st.mem b₀ (some new) →
      new.entries.length = batch₀.entries.length →
      ∀ b, (st₂.mem b).map (·.entries.length) = (st.mem b).map (·.entries.length) :=
    fun stored memory same => lengths_write stored memory same
  have outside := fun user => (inv.tops t).of_userLevel user
  cases moved with
  | known | flushNone => exact backlog
  | create user absent =>
    -- One reservation more is in front of every cursor, or not.
    refine backlog.keep (fun cursor => ?_) (Nat.le_succ _)
      (fun u v b start cursor marked member => .inl member)
      (fun v unscanned => .inl ⟨unscanned, rfl⟩) fun b batch stored => .inl ⟨batch, stored, rfl⟩
    rw [State.reserved, State.reserved, List.countP_cons]
    exact Nat.le_add_right _ _
  | enter | leaveIdle | refreshIdle | access => exact quiet rfl rfl rfl rfl
  | leave | refresh | reclaimAll => exact called backlog rfl rfl rfl rfl nofun
  | refused _ prep =>
    have kept := prepared prep
    exact ⟨kept.scans, kept.waiting, kept.batches⟩
  | immediate _ prep => exact called (prepared prep) rfl rfl rfl rfl nofun
  | @pushed v p f c st₁ b batch user prep held stored small =>
    have before : Inv cfg { st with nextRid := st.nextRid + 1 } := inv.congr rfl rfl rfl rfl rfl
    have after := prep.inv before access.2 (outside user)
    refine (prepared prep).push held stored after (t := t) (k := [])
      (fun old => free user access.2 (old.congr prep.same.1.symm)) p f st.nextRid ?_ (by simp)
      fun _ => small
    rw [List.nil_append, State.setStack]
    exact (congrArg (fun stack => { pushEntry st₁ b batch p f st.nextRid with stack := stack })
      (Function.update_eq_self t st₁.stack)).symm
  | @filled v p f c st₁ b batch user prep held stored large =>
    have before : Inv cfg { st with nextRid := st.nextRid + 1 } := inv.congr rfl rfl rfl rfl rfl
    have after := prep.inv before access.2 (outside user)
    exact (prepared prep).push held stored after (t := t) (k := [.scan v b st.clock 0 0])
      (fun old => free user access.2 (old.congr prep.same.1.symm)) p f st.nextRid rfl
      (by simp) (by simp)
  | reserve _ prep => exact prep.backlog inv backlog
  | flush =>
    refine called backlog rfl rfl rfl rfl ?_
    rintro s b start cursor marked ⟨⟩
    rfl
  | ret top | done top => exact backlog.stepped [] top rfl rfl (by simp) rfl rfl fun _ => rfl
  | skipReclaim top | load top | gone top =>
    exact backlog.stepped [_] top rfl rfl (by simp [Frame.scanSlot]) rfl rfl fun _ => rfl
  | finish top => exact backlog.stepped [] top rfl rfl (by simp) rfl rfl fun _ => rfl
  | next top => exact backlog.stepped [_] top rfl rfl (by simp [Frame.scanSlot]) rfl rfl fun _ => rfl
  | invoke top =>
    exact backlog.stepped [_, _] top rfl rfl (by simp [Frame.scanSlot]) rfl rfl fun _ => rfl
  | addShare top stored =>
    exact backlog.stepped [] top rfl rfl (by simp) rfl rfl (lengthened stored rfl rfl)
  | addFree top stored =>
    exact backlog.stepped [_] top rfl rfl (by simp [Frame.scanSlot]) rfl rfl
      (lengthened stored rfl rfl)
  | publish top stored | retry top stored | releaseCount top _ _ stored =>
    exact backlog.stepped [_] top rfl rfl (by simp [Frame.scanSlot]) rfl rfl
      (lengthened stored rfl (by simp))
  | releaseFree top _ _ stored =>
    exact backlog.stepped [_, _] top rfl rfl (by simp [Frame.scanSlot]) rfl rfl
      (lengthened stored rfl (by simp))
  | skipScan top _ forward =>
    exact backlog.scanned top rfl (fun few => few.trans (reserved_mono forward)) rfl rfl fun _ => rfl
  | pass top =>
    exact backlog.scanned top rfl (fun few => few.trans (reserved_mono (Nat.le_succ _))) rfl rfl
      fun _ => rfl
  | mark top stored _ present =>
    -- The slot that is marked is a reservation that is passed.
    exact backlog.scanned top rfl
      (fun few => (Nat.succ_le_succ few).trans (reserved_succ present)) rfl rfl
      (lengthened stored rfl (by simp))
  | @commit v b start cursor marked below batch spurious top stored =>
    refine backlog.ended [_] top rfl (by simp [Frame.scanSlot]) (by simp [Frame.scanSlot]) rfl
      (fun v' other => Function.update_of_ne other ..) (lengthened stored rfl rfl) (.inl ?_)
    exact pendingIn_null (Function.update_self ..)
  | @abort v b start cursor marked below batch spurious top stored full =>
    refine backlog.ended [] top rfl (by simp [Frame.scanSlot]) (by simp) rfl (fun _ _ => rfl)
      (fun _ => rfl) (.inr ?_) (s := v)
    -- What is pending was marked, and the slot at the cursor was not.
    have held : st.batch v = .ptr b := (inv.frames t below.length _ (State.frame_top top)).1
    have few := backlog.scans t v b start cursor marked (top ▸ List.mem_cons_self)
    have room := reserved_lt (abort_present top stored spanned ran)
    have pending : pendingIn (st.setStack t below) v = batch.entries.length :=
      pendingIn_ptr held stored
    have limit : (st.setStack t below).limit cfg = st.limit cfg := rfl
    rw [pending, limit, State.limit]
    omega
  | @take cursor below b batch spurious top _ _ held stored =>
    refine backlog.ended [_, _] top rfl (by simp [Frame.scanSlot]) (by simp [Frame.scanSlot]) rfl
      (fun v other => Function.update_of_ne other ..) (lengthened stored rfl rfl) (.inl ?_)
    exact pendingIn_drop (Function.update_self ..)
  | @takeWrong cursor below spurious top =>
    refine backlog.ended [_, _] top rfl (by simp [Frame.scanSlot]) (by simp [Frame.scanSlot]) rfl
      (fun v other => Function.update_of_ne other ..) (fun _ => rfl) (.inl ?_)
    exact pendingIn_drop (Function.update_self ..)
  | @reset cursor below spurious top =>
    refine backlog.ended [_] top rfl (by simp [Frame.scanSlot]) (by simp [Frame.scanSlot]) rfl
      (fun v other => Function.update_of_ne other ..) (fun _ => rfl) (.inl ?_)
    exact pendingIn_null (Function.update_self ..)
  | @dealloc b i below batch spurious top stored =>
    -- The batch that is handed back is the local batch of no slot.
    obtain ⟨b', batch', same, stored', freeing⟩ :=
      inv.frames t below.length _ (State.frame_top top)
    cases same
    have loose : ∀ v, st.batch v ≠ .ptr b := by
      intro v held
      obtain ⟨batch'', stored'', pending⟩ := inv.slots v b held
      cases stored'.symm.trans stored''
      rw [freeing] at pending
      cases pending
    exact backlog.freed top rfl rfl rfl rfl rfl loose
  | @panic rid p f below top =>
    -- Scans are never below the reclaimer that panics.
    have none_ : ∀ g ∈ st.stack t, g.scanSlot = none := by
      intro g member
      have leaf := outside (by rw [top]; rfl) g member
      cases g with
      | scan => cases leaf
      | _ => rfl
    exact backlog.unwound (suffix_of_top top (unwind_suffix _)) rfl rfl rfl rfl none_

/-- Nothing waits in a collector that nobody has used. -/
theorem Backlog.init : Backlog cfg State.init := by
  refine ⟨fun t s b start cursor marked member => ?_, fun s _ => .inl rfl, fun b batch stored => ?_⟩
  · cases member
  · cases stored

/-- The run lemma: the bounds hold in every state of a disciplined run. -/
theorem reachable_backlog (run : Reachable (Raw.step cfg) (Disciplined cfg) State.init st) :
    Backlog cfg st := by
  refine run.invariant (Backlog cfg) .init fun st₀ move st₁ run backlog permitted ran => ?_
  have spanned := reachable_spanned (run.mono fun _ _ _ disciplined => disciplined.1)
  obtain ⟨st₂, acted, rfl⟩ := step_acts ran
  have kept := (act_move acted).backlog acted (reachable_sound run).inv spanned permitted.1 backlog
  exact ⟨kept.scans, kept.waiting, kept.batches⟩

/--
What waits is bounded, however retirements, scans and failed attempts interleave.

A batch that nobody scans is empty or stays below the batch size or the number of reservations. No
batch is larger, and one with an entry for every reservation never makes a scan give up.
-/
theorem pending_bounded (cfg : Config) {st : State}
    (run : Reachable (Raw.step cfg) (Disciplined cfg) State.init st) :
    (∀ s, ¬ Scanned st s →
      pendingIn st s = 0 ∨ pendingIn st s < max cfg.batchSize st.created.length) ∧
    (∀ b batch, st.mem b = some batch →
      batch.entries.length ≤ max 1 (max cfg.batchSize st.created.length)) ∧
    ∀ t s b start cursor marked batch, .scan s b start cursor marked ∈ st.stack t →
      st.mem b = some batch → st.created.length ≤ batch.entries.length → cursor ∈ st.created →
        marked < batch.entries.length := by
  have backlog := reachable_backlog run
  refine ⟨backlog.waiting, backlog.batches, ?_⟩
  intro t s b start cursor marked batch member stored whole present
  -- Everything that was marked is in front of the cursor, and the slot at the cursor is not.
  calc marked ≤ st.reserved cursor := backlog.scans t s b start cursor marked member
    _ < st.created.length := reserved_lt present
    _ ≤ batch.entries.length := whole

/-- With batches of one entry, two retirements give up on three active slots. -/
def crowded : List (Tid × Action) :=
  [(0, .create 0), (0, .create 1), (0, .create 2), (0, .enter 0), (0, .enter 1), (0, .enter 2),
    (0, .add 0 7 9 (plenty 1)), (0, .advance false), (0, .advance false),
    (0, .add 0 8 9 (plenty 2)), (0, .advance false), (0, .advance false), (0, .advance false)]

/-- Two entries wait, which is all that can wait while there are three reservations. -/
theorem pending_bounded_crowded : ∃ st : State, pendingIn st 0 = 2 ∧ st.created.length = 3 ∧
    (pendingIn st 0 = 0 ∨ pendingIn st 0 < max 1 st.created.length) := by
  obtain ⟨st, run, within, ended⟩ := reachable_from_check ⟨64, 1⟩ 3 (Disciplined ⟨64, 1⟩)
    (sentinelCheck 3)
    (fun st => decide (pendingIn st 0 = 2 ∧ st.created.length = 3 ∧
      ∀ t ∈ List.range 3, st.stack t = []))
    crowded (fun _ _ within access checked => disciplined_of_check within access checked)
    (.init 3) (by decide)
  obtain ⟨two, three, idle⟩ := of_decide_eq_true ended
  refine ⟨st, two, three, (pending_bounded ⟨64, 1⟩ run).1 0 ?_⟩
  rintro ⟨t, f, member, _⟩
  -- No thread is in a call.
  have none_ : st.stack t = [] := by
    by_cases small : t < 3
    · exact idle t (List.mem_range.mpr small)
    · exact within.running t (Nat.le_of_not_lt small)
  rw [none_] at member
  cases member

end Seize.Raw
