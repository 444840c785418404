import Seize.Raw.Preserve

/-!
Every permitted step keeps the invariant, so it holds in every reachable state.

The one condition beyond access is about the `DROP` sentinel: `reclaim_all` must not be
started while some slot still holds it.
-/

namespace Seize.Raw

variable {cfg : Config} {st st' : State} {t : Tid} {action : Action}

/-- The iteration of `reclaim_all`, with the slot whose batch it is freeing. -/
def Frame.iteration : Frame → Option (Option SlotId)
  | .reclaimAll _ => some none
  | .reclaimReset cursor => some (some cursor)
  | _ => none

/--
Where the sentinel can be while `reclaim_all` is in progress.

A reclaimer that panicked may leave it behind, so nothing is said when no iteration is.
-/
structure Sentinel (st : State) : Prop where
  /-- At most one iteration is in progress. -/
  alone : ∀ t height f t' height' f', st.frame t height = some f → st.frame t' height' = some f' →
    f.iteration ≠ none → f'.iteration ≠ none → t' = t ∧ height' = height
  /-- It marks exactly the slot whose batch is being freed. -/
  marks : ∀ t height f current, st.frame t height = some f → f.iteration = some current →
    ∀ s, st.batch s = .drop ↔ current = some s

/-- Access as it is asked for, and no `reclaim_all` while a slot holds the sentinel. -/
def Disciplined (cfg : Config) (st : State) (move : Tid × Action) : Prop :=
  Access cfg st move ∧ (move.2 = .reclaimAll → ∀ s, st.batch s ≠ .drop)

/-- Every iteration of a state was there before, in the same stage. -/
def IterationsFrom (st st' : State) : Prop :=
  ∀ t height f, st'.frame t height = some f → f.iteration ≠ none →
    ∃ f', st.frame t height = some f' ∧ f'.iteration = f.iteration

/-- The sentinel rule: iterations stay where they are, and no slot gains or loses the mark. -/
theorem Sentinel.keep (sentinel : Sentinel st) (frames : IterationsFrom st st')
    (drops : ∀ s, st'.batch s = .drop ↔ st.batch s = .drop) : Sentinel st' where
  alone := by
    intro t height f t' height' f' found found' is is'
    -- Both iterations were there before.
    obtain ⟨g, old, same⟩ := frames t height f found is
    obtain ⟨g', old', same'⟩ := frames t' height' f' found' is'
    exact sentinel.alone t height g t' height' g' old old' (same ▸ is) (same' ▸ is')
  marks := by
    intro t height f current found is s
    obtain ⟨g, old, same⟩ := frames t height f found (by simp [is])
    rw [drops s]
    exact sentinel.marks t height g current old (same.trans is) s

/-- Preparing a slot puts no sentinel anywhere and removes none. -/
theorem Prep.drops {s : SlotId} (prep : Prep cfg s st st') :
    ∀ v, st'.batch v = .drop ↔ st.batch v = .drop := by
  induction prep with
  | refl => exact fun _ => .rfl
  | load _ _ ih => exact ih
  | unboxed _ _ _ ih => exact ih
  | fresh _ null _ ih =>
    intro v
    rw [← ih v]
    by_cases here : v = s
    · subst here
      simp [null]
    · simp [Function.update_of_ne here]
  | grow _ _ _ _ ih => exact ih

/-- A call that is no iteration brings none. -/
theorem IterationsFrom.call {f : Frame} (plain : f.iteration = none)
    (stack : st'.stack = Function.update st.stack t (f :: st.stack t)) : IterationsFrom st st' := by
  intro t' height g found is
  rcases State.frame_call stack found with ⟨_, _, rfl⟩ | old
  · exact absurd plain is
  · exact ⟨g, old, rfl⟩

/-- Returns and unwinding bring none. -/
theorem IterationsFrom.suffix {fs : List Frame} (suffix : fs <:+ st.stack t)
    (stack : st'.stack = Function.update st.stack t fs) : IterationsFrom st st' :=
  fun _ _ g found _ => ⟨g, State.frame_suffix suffix stack found, rfl⟩

/-- The innermost call may change its frame within the same stage. -/
theorem IterationsFrom.one {f g : Frame} {below : List Frame} (top : st.stack t = f :: below)
    (same : g.iteration = none ∨ g.iteration = f.iteration)
    (stack : st'.stack = Function.update st.stack t (g :: below)) : IterationsFrom st st' := by
  intro t' height k found is
  rcases State.frame_replace [g] top stack found with ⟨rfl, high, there⟩ | ⟨old, _⟩
  · obtain ⟨rfl, rfl⟩ := frameAt_high_one high there
    exact ⟨f, State.frame_top top, (same.resolve_left is).symm⟩
  · exact ⟨k, old, rfl⟩

/-- The innermost call may make a call when neither frame is an iteration. -/
theorem IterationsFrom.two {f g h : Frame} {below : List Frame} (top : st.stack t = f :: below)
    (upper : h.iteration = none) (lower : g.iteration = none)
    (stack : st'.stack = Function.update st.stack t (h :: g :: below)) : IterationsFrom st st' := by
  intro t' height k found is
  rcases State.frame_replace [h, g] top stack found with ⟨rfl, high, there⟩ | ⟨old, _⟩
  · rcases frameAt_high_two high there with ⟨_, rfl⟩ | ⟨_, rfl⟩
    · exact absurd lower is
    · exact absurd upper is
  · exact ⟨k, old, rfl⟩

/-- Unwinding only drops frames. -/
theorem unwind_suffix (fs : List Frame) : unwind fs <:+ fs := by
  induction fs with
  | nil => exact List.suffix_refl _
  | cons f below ih =>
    cases f with
    | reclaimer rid p f => exact List.suffix_refl _
    | scan => exact ih.trans (List.suffix_cons _ _)
    | link => exact ih.trans (List.suffix_cons _ _)
    | traverse => exact ih.trans (List.suffix_cons _ _)
    | freeBatch => exact ih.trans (List.suffix_cons _ _)
    | reclaimAll => exact ih.trans (List.suffix_cons _ _)
    | reclaimReset => exact ih.trans (List.suffix_cons _ _)

/-- What returns and panics leave behind is a part of the stack. -/
theorem suffix_of_top {f : Frame} {below fs : List Frame} (top : st.stack t = f :: below)
    (suffix : fs <:+ below) : fs <:+ st.stack t := by
  rw [top]
  exact suffix.trans (List.suffix_cons _ _)

/-- An iteration of `reclaim_all` that starts alone finds no sentinel and stays alone. -/
theorem Sentinel.start (inv : Inv cfg st) (user : userLevel (st.stack t))
    (unique : ∀ s, UniqueAccess st t s) (sentinel : Sentinel st) (clear : ∀ s, st.batch s ≠ .drop) :
    Sentinel (st.call t (.reclaimAll 0)) := by
  -- A frame that iterates would either hold the sentinel, be a leaf below user code, or be foreign.
  have none_ : ∀ t' height f, st.frame t' height = some f → f.iteration = none := by
    intro t' height f found
    cases is : f.iteration with
    | none => rfl
    | some current =>
      cases f with
      | reclaimAll cursor =>
        by_cases here : t' = t
        · subst here
          have leaf := (inv.tops t').of_userLevel user _ (mem_of_frameAt found)
          cases leaf
        · have used := unique 0 t' here _ (mem_of_frameAt found)
          cases used
      | reclaimReset cursor =>
        have marked := (sentinel.marks t' height _ (some cursor) found rfl cursor).mpr rfl
        exact absurd marked (clear cursor)
      | reclaimer => cases is
      | scan => cases is
      | link => cases is
      | traverse => cases is
      | freeBatch => cases is
  refine ⟨?_, ?_⟩
  · intro t₁ height₁ f₁ t₂ height₂ f₂ found₁ found₂ is₁ is₂
    rcases State.frame_call rfl found₁ with ⟨rfl, rfl, rfl⟩ | old₁
    · rcases State.frame_call rfl found₂ with ⟨rfl, rfl, rfl⟩ | old₂
      · exact ⟨rfl, rfl⟩
      · exact absurd (none_ _ _ _ old₂) is₂
    · exact absurd (none_ _ _ _ old₁) is₁
  · intro t₁ height₁ f₁ current found₁ is s
    rcases State.frame_call rfl found₁ with ⟨rfl, rfl, rfl⟩ | old₁
    · cases is
      have := clear s
      simpa [State.call, State.setStack] using this
    · rw [none_ _ _ _ old₁] at is
      cases is

/-- An iteration that moves to its other stage is still the only one. -/
theorem Sentinel.restage {f g : Frame} {below : List Frame} (sentinel : Sentinel st)
    (fs : List Frame) (top : st.stack t = f :: below) (iterates : f.iteration ≠ none)
    (stack : st'.stack = Function.update st.stack t (fs ++ below))
    (new : ∀ height k, below.length ≤ height → frameAt (fs ++ below) height = some k →
      k.iteration ≠ none → height = below.length ∧ k = g)
    (marks : ∀ current, g.iteration = some current → ∀ s, st'.batch s = .drop ↔ current = some s) :
    Sentinel st' := by
  -- The only iteration of the new state is the new frame.
  have only : ∀ t' height k, st'.frame t' height = some k → k.iteration ≠ none →
      t' = t ∧ height = below.length ∧ k = g := by
    intro t' height k found is
    rcases State.frame_replace fs top stack found with ⟨rfl, high, there⟩ | ⟨old, low⟩
    · exact ⟨rfl, new height k high there is⟩
    · obtain ⟨rfl, rfl⟩ := sentinel.alone _ _ _ _ _ _ (State.frame_top top) old iterates is
      exact absurd (low rfl) (by omega)
  refine ⟨?_, ?_⟩
  · intro t₁ height₁ f₁ t₂ height₂ f₂ found₁ found₂ is₁ is₂
    obtain ⟨rfl, rfl, _⟩ := only t₁ height₁ f₁ found₁ is₁
    obtain ⟨rfl, rfl, _⟩ := only t₂ height₂ f₂ found₂ is₂
    exact ⟨rfl, rfl⟩
  · intro t₁ height₁ f₁ current found₁ is
    obtain ⟨rfl, rfl, rfl⟩ := only t₁ height₁ f₁ found₁ (by simp [is])
    exact marks current is

/-- Before a slot is taken no slot holds the sentinel, and then exactly this one does. -/
theorem Sentinel.taken {held : LocalBatch} {cursor : Nat} {below : List Frame}
    (sentinel : Sentinel st) (top : st.stack t = .reclaimAll cursor :: below)
    (batch : st'.batch = Function.update st.batch cursor .drop)
    (stack : st'.stack = Function.update st.stack t
      (.freeBatch held 0 :: .reclaimReset cursor :: below)) : Sentinel st' := by
  -- The call had not marked a slot.
  have clear := sentinel.marks t below.length _ none (State.frame_top top) rfl
  refine sentinel.restage (g := .reclaimReset cursor)
    [.freeBatch held 0, .reclaimReset cursor] top (by simp [Frame.iteration]) stack ?_ ?_
  · intro height k high there is
    rcases frameAt_high_two high there with same | ⟨_, rfl⟩
    · exact same
    · exact absurd rfl is
  · rintro current ⟨⟩ s
    rw [batch]
    by_cases here : s = cursor
    · subst here
      simp
    · simp [Function.update_of_ne here, clear s, Ne.symm here]

/-- A local batch other than the sentinel may be forgotten. -/
theorem drops_null {s : SlotId} (held : st.batch s ≠ .drop) :
    ∀ v, Function.update st.batch s .null v = .drop ↔ st.batch v = .drop := by
  intro v
  by_cases here : v = s
  · subst here
    simp [held]
  · rw [Function.update_of_ne here]

/-- Every permitted move keeps the sentinel where it belongs. -/
theorem Move.sentinel (moved : Move cfg st t action st') (inv : Inv cfg st)
    (permitted : Disciplined cfg st (t, action)) (sentinel : Sentinel st) : Sentinel st' := by
  -- The sentinel is written and removed by `reclaim_all` alone.
  have same : ∀ v, st.batch v = .drop ↔ st.batch v = .drop := fun _ => .rfl
  have stay : ∀ {st₁ : State}, st₁.stack = st.stack → IterationsFrom st st₁ := by
    intro st₁ stack t' height g found _
    exact ⟨g, by rw [← found, State.frame, State.frame, stack], rfl⟩
  cases moved with
  | known => exact sentinel
  | create => exact sentinel.keep (stay rfl) same
  | enter => exact sentinel.keep (stay rfl) same
  | leaveIdle => exact sentinel.keep (stay rfl) same
  | leave => exact sentinel.keep (.call rfl rfl) same
  | refreshIdle => exact sentinel.keep (stay rfl) same
  | refresh => exact sentinel.keep (.call rfl rfl) same
  | refused user prep => exact sentinel.keep (stay prep.same.1) prep.drops
  | @immediate s p f c st₁ user prep held =>
    refine sentinel.keep (.call (f := .reclaimer st.nextRid p f) (t := t) rfl ?_) prep.drops
    simp [State.call, State.setStack, State.record, prep.same.1]
  | pushed user prep => exact sentinel.keep (stay prep.same.1) prep.drops
  | @filled s p f c st₁ b batch user prep =>
    refine sentinel.keep (.call (f := .scan s b st.clock 0 0) (t := t) rfl ?_) prep.drops
    simp [State.call, State.setStack, State.record, State.setBatch, pushEntry, prep.same.1]
  | reserve user prep => exact sentinel.keep (stay prep.same.1) prep.drops
  | flushNone => exact sentinel
  | flush => exact sentinel.keep (.call rfl rfl) same
  | reclaimAll user => exact sentinel.start inv user permitted.1 (permitted.2 rfl)
  | access => exact sentinel.keep (stay rfl) same
  | ret top => exact sentinel.keep (.suffix (suffix_of_top top (List.suffix_refl _)) rfl) same
  | panic top => exact sentinel.keep (.suffix (suffix_of_top top (unwind_suffix _)) rfl) same
  | skipScan top => exact sentinel.keep (.one top (.inl rfl) rfl) same
  | @skipReclaim cursor below target top =>
    exact sentinel.keep (.one (g := .reclaimAll target) top (.inr rfl) rfl) same
  | @commit s b start cursor marked below batch spurious top stored finished =>
    have held := (inv.frames t below.length _ (State.frame_top top)).1
    exact sentinel.keep (.one top (.inl rfl) rfl) (drops_null (by simp [held]))
  | pass top => exact sentinel.keep (.one top (.inl rfl) rfl) same
  | mark top => exact sentinel.keep (.one top (.inl rfl) rfl) same
  | abort top => exact sentinel.keep (.suffix (suffix_of_top top (List.suffix_refl _)) rfl) same
  | addFree top => exact sentinel.keep (.one top (.inl rfl) rfl) same
  | addShare top => exact sentinel.keep (.suffix (suffix_of_top top (List.suffix_refl _)) rfl) same
  | load top => exact sentinel.keep (.one top (.inl rfl) rfl) same
  | gone top => exact sentinel.keep (.one top (.inl rfl) rfl) same
  | publish top => exact sentinel.keep (.one top (.inl rfl) rfl) same
  | retry top => exact sentinel.keep (.one top (.inl rfl) rfl) same
  | done top => exact sentinel.keep (.suffix (suffix_of_top top (List.suffix_refl _)) rfl) same
  | releaseFree top => exact sentinel.keep (.two top rfl rfl rfl) same
  | releaseCount top => exact sentinel.keep (.one top (.inl rfl) rfl) same
  | invoke top => exact sentinel.keep (.two top rfl rfl rfl) same
  | dealloc top => exact sentinel.keep (.suffix (suffix_of_top top (List.suffix_refl _)) rfl) same
  | finish top => exact sentinel.keep (.suffix (suffix_of_top top (List.suffix_refl _)) rfl) same
  | @next cursor below spurious top =>
    exact sentinel.keep (.one (g := .reclaimAll (cursor + 1)) top (.inr rfl) rfl) same
  | take top => exact sentinel.taken top rfl rfl
  | takeWrong top => exact sentinel.taken top rfl rfl
  | @reset cursor below spurious top =>
    have marks := sentinel.marks t below.length _ (some cursor) (State.frame_top top) rfl
    refine sentinel.restage (g := .reclaimAll (cursor + 1)) [.reclaimAll (cursor + 1)] top
      (by simp [Frame.iteration]) rfl (fun height k high there _ => frameAt_high_one high there) ?_
    rintro current ⟨⟩ s
    simp only [State.setStack]
    by_cases here : s = cursor
    · subst here
      simp
    · simp [Function.update_of_ne here, marks s, Ne.symm here]

/-- The log is not part of the invariant. -/
theorem Inv.record (inv : Inv cfg st) (event : Event) : Inv cfg (st.record event) :=
  inv.congr rfl rfl rfl rfl rfl

/-- Unique access depends on the stacks alone. -/
theorem UniqueAccess.congr {s : SlotId} (unique : UniqueAccess st t s) (stack : st'.stack = st.stack) :
    UniqueAccess st' t s := by
  unfold UniqueAccess
  rw [stack]
  exact unique

/-- `add` keeps the invariant while it pushes its entry. -/
theorem pushEntry_inv {s : SlotId} {b : Addr} {batch : Batch} (inv : Inv cfg st)
    (held : st.batch s = .ptr b) (stored : st.mem b = some batch) (unique : UniqueAccess st t s)
    (outside : ∀ f ∈ st.stack t, f.isLeaf = false) (p : Ptr) (f : Reclaim) (rid : Nat) :
    Inv cfg (pushEntry st b batch p f rid) := by
  have fresh : ∀ entry ∈ [newEntry b p f rid], entry.link = .unlinked ∧ entry.batch = b := by
    intro entry member
    rw [List.mem_singleton.mp member]
    exact ⟨rfl, rfl⟩
  have grown := pending_inv inv held stored unique outside [newEntry b p f rid] batch.cap fresh
  exact grown.record _

/-- A scan may be started on the local batch of a slot. -/
theorem scan_inv {s : SlotId} {b : Addr} (inv : Inv cfg st) (held : st.batch s = .ptr b)
    (unique : UniqueAccess st t s) (outside : ∀ f ∈ st.stack t, f.isLeaf = false) (clock : Nat) :
    Inv cfg (st.call t (.scan s b clock 0 0)) := by
  obtain ⟨batch, stored, _⟩ := inv.slots s b held
  refine inv.call outside ⟨held, Nat.le_refl _, Nat.zero_le _, batch, stored, Nat.zero_le _, ?_⟩ rfl ?_
  · -- Nothing is marked yet.
    intro j _ below
    omega
  · intro s' used
    obtain rfl : s = s' := by simpa [Frame.usesBatch] using used
    exact .inr unique

/-- While no slot holds the sentinel, `reclaim_all` takes batches only. -/
theorem Sentinel.not_wrong (sentinel : Sentinel st) (inv : Inv cfg st) {cursor : Nat}
    {below : List Frame} (top : st.stack t = .reclaimAll cursor :: below)
    (held : st.batch cursor ≠ .null) :
    ¬ ∀ b batch, st.batch cursor = .ptr b → st.mem b ≠ some batch := by
  intro wrong
  have clear := sentinel.marks t below.length _ none (State.frame_top top) rfl cursor
  cases local_ : st.batch cursor with
  | null => exact held local_
  | drop => simp [local_] at clear
  | ptr b =>
    obtain ⟨batch, stored, _⟩ := inv.slots cursor b local_
    exact wrong b batch local_ stored

/-- Every permitted move keeps the invariant. -/
theorem Move.inv (moved : Move cfg st t action st') (inv : Inv cfg st)
    (permitted : Disciplined cfg st (t, action)) (sentinel : Sentinel st) : Inv cfg st' := by
  have outside := fun user => (inv.tops t).of_userLevel user
  -- A call that returns is no linking loop, and none lies below it.
  have returns : ∀ {f : Frame} {below fs : List Frame}, st.stack t = f :: below → fs <:+ below →
      (∀ b marked i active seen, f ≠ .link b marked i active seen) → Inv cfg (st.setStack t fs) := by
    intro f below fs top suffix other
    refine inv.drop (suffix_of_top top suffix) ?_
    intro b marked i active seen member
    rw [top] at member
    rcases List.mem_cons.mp member with same | lower
    · exact other b marked i active seen same.symm
    · have := inv.tops_below top _ lower
      cases this
  cases moved with
  | known => exact inv
  | create => exact inv.congr rfl rfl rfl rfl rfl
  | enter => exact inv.mark (.inr rfl) rfl rfl rfl rfl rfl
  | leaveIdle => exact inv.mark (.inl rfl) rfl rfl rfl rfl rfl
  | leave user active => exact inv.detach active (.inl rfl) (outside user) rfl rfl rfl rfl rfl
  | refreshIdle => exact inv.mark (.inr rfl) rfl rfl rfl rfl rfl
  | refresh user active => exact inv.detach active (.inr rfl) (outside user) rfl rfl rfl rfl rfl
  | refused user prep =>
    have before : Inv cfg { st with nextRid := st.nextRid + 1 } := inv.congr rfl rfl rfl rfl rfl
    exact (prep.inv before permitted.1.2 (outside user)).record _
  | @immediate s p f c st₁ user prep held =>
    have before : Inv cfg { st with nextRid := st.nextRid + 1 } := inv.congr rfl rfl rfl rfl rfl
    have after := ((prep.inv before permitted.1.2 (outside user)).record (.retired st.nextRid p f)).record
      (.reclaimed st.nextRid p f none)
    refine after.call ?_ trivial rfl (by simp [Frame.usesBatch])
    show ∀ g ∈ st₁.stack t, _
    rw [prep.same.1]
    exact outside user
  | @pushed s p f c st₁ b batch user prep held stored =>
    have before : Inv cfg { st with nextRid := st.nextRid + 1 } := inv.congr rfl rfl rfl rfl rfl
    have after := prep.inv before permitted.1.2 (outside user)
    exact pushEntry_inv after held stored (permitted.1.2.congr prep.same.1)
      (by rw [prep.same.1]; exact outside user) p f st.nextRid
  | @filled s p f c st₁ b batch user prep held stored =>
    have before : Inv cfg { st with nextRid := st.nextRid + 1 } := inv.congr rfl rfl rfl rfl rfl
    have after := prep.inv before permitted.1.2 (outside user)
    have unique : UniqueAccess st₁ t s := permitted.1.2.congr prep.same.1
    have free : ∀ g ∈ st₁.stack t, g.isLeaf = false := by
      rw [prep.same.1]
      exact outside user
    exact scan_inv (pushEntry_inv after held stored unique free p f st.nextRid) held unique free _
  | reserve user prep => exact prep.inv inv permitted.1.2 (outside user)
  | flushNone => exact inv
  | flush user held => exact scan_inv inv held permitted.1 (outside user) _
  | reclaimAll user =>
    exact inv.call (outside user) trivial rfl (fun s _ => .inr (permitted.1 s))
  | access => exact inv.congr rfl rfl rfl rfl rfl
  | ret top => exact returns top (List.suffix_refl _) (by simp)
  | panic top => exact returns top (unwind_suffix _) (by simp)
  | @skipScan s b start cursor marked below target top bounded forward =>
    obtain ⟨held, small, _, rest⟩ := inv.frames t below.length _ (State.frame_top top)
    exact inv.replace top ⟨held, by omega, bounded, rest⟩ rfl (by simp) (by simp [Frame.usesBatch])
  | skipReclaim top => exact inv.replace top trivial rfl (by simp) (by simp [Frame.usesBatch])
  | commit top stored =>
    exact (commit_inv inv top stored).congr rfl rfl rfl rfl rfl
  | @pass s b start cursor marked below batch spurious top stored more =>
    obtain ⟨held, small, _, rest⟩ := inv.frames t below.length _ (State.frame_top top)
    exact inv.replace top ⟨held, by omega, by omega, rest⟩ rfl (by simp) (by simp [Frame.usesBatch])
  | mark top stored more _ _ room => exact mark_inv inv top stored room more
  | abort top => exact returns top (List.suffix_refl _) (by simp)
  | addFree top stored _ zero => exact ((addition_inv inv top stored).1 zero).congr rfl rfl rfl rfl rfl
  | addShare top stored _ more => exact ((addition_inv inv top stored).2 more).congr rfl rfl rfl rfl rfl
  | @load b marked i active below batch entry s spurious top stored more =>
    obtain ⟨batch₀, stored₀, phase, linking⟩ := inv.frames t below.length _ (State.frame_top top)
    refine inv.replace top ⟨batch₀, stored₀, phase, linking.enough, linking.bounded, linking.within,
      linking.counted, fun _ => more, linking.exact, linking.fresh, ?_⟩ rfl ?_ (by simp [Frame.usesBatch])
    · -- The entry whose head is loaded no longer has to be marked.
      intro j low high
      exact linking.marks j (Nat.le_of_succ_le low) high
    · rintro _ _ _ _ _ ⟨⟩
      exact ⟨_, _, _, _, rfl⟩
  | @gone b marked i active s below batch spurious top stored more =>
    obtain ⟨batch₀, stored₀, phase, linking⟩ := inv.frames t below.length _ (State.frame_top top)
    refine inv.replace top ⟨batch₀, stored₀, phase, linking.enough, linking.bounded, more,
      Nat.le_succ_of_le linking.counted, by simp, linking.exact, ?_, linking.marks⟩ rfl ?_
      (by simp [Frame.usesBatch])
    · intro j entry low read
      exact linking.fresh j entry (Nat.le_of_succ_le low) read
    · rintro _ _ _ _ _ ⟨⟩
      exact ⟨_, _, _, _, rfl⟩
  | publish top stored _ same => exact publish_inv inv top stored same
  | retry top stored => exact retry_inv inv top stored
  | done top => exact returns top (List.suffix_refl _) (by simp)
  | releaseFree top read state stored one =>
    obtain ⟨owner, tail, rfl, visit⟩ := inv.visit top read state stored
    rw [owner]
    exact (release_free_inv inv visit one _).congr rfl rfl rfl rfl rfl
  | releaseCount top read state stored more =>
    obtain ⟨owner, tail, rfl, visit⟩ := inv.visit top read state stored
    rw [owner]
    exact release_count_inv inv visit more
  | invoke top => exact (invoke_inv inv top).congr rfl rfl rfl rfl rfl
  | dealloc top => exact free_inv inv top _
  | finish top => exact returns top (List.suffix_refl _) (by simp)
  | next top => exact inv.replace top trivial rfl (by simp) (by simp [Frame.usesBatch])
  | take top _ _ held stored => exact (take_inv inv top held stored).congr rfl rfl rfl rfl rfl
  | takeWrong top _ _ held wrong => exact absurd wrong (sentinel.not_wrong inv top held)
  | @reset cursor below spurious top =>
    have marked := (sentinel.marks t below.length _ (some cursor) (State.frame_top top) rfl cursor).mpr rfl
    have cleared := inv.setLocal (s := cursor) .null (by simp [marked]) (by simp)
    exact cleared.replace top trivial rfl (by simp) (by simp [Frame.usesBatch])

/-- What holds in every state of a disciplined run. -/
structure Sound (cfg : Config) (st : State) : Prop where
  inv : Inv cfg st
  sentinel : Sentinel st

/-- A collector that nobody has used satisfies the invariant. -/
theorem Sound.init (cfg : Config) : Sound cfg State.init := by
  refine ⟨⟨?_, ?_, ?_, ?_, fun _ _ => rfl, ?_, ?_, ?_, fun _ => trivial⟩, ?_⟩
  · intro t height f found
    cases found
  · intro b batch stored
    cases stored
  · intro b batch stored
    cases stored
  · intro s b held
    cases held
  · intro s first active
    cases active
  · -- Every list is empty.
    have empty : ∀ place, listAt State.init place = [] := by
      intro place
      cases place <;> rfl
    refine ⟨?_, ?_, ?_⟩ <;> intros <;> simp_all
  · intro s t t' f member
    cases member
  · refine ⟨?_, ?_⟩
    · intro t height f t' height' f' found
      cases found
    · intro t height f current found
      cases found

/-- A step is an action that is counted. -/
theorem step_acts {move : Tid × Action} (ran : step cfg st move = .ok st') :
    ∃ st₁, act cfg st move.1 move.2 = .ok st₁ ∧ st' = tick st₁ := by
  unfold step at ran
  cases acted : act cfg st move.1 move.2 with
  | error stop =>
    rw [acted] at ran
    cases ran
  | ok st₁ =>
    rw [acted] at ran
    cases ran
    exact ⟨st₁, rfl, rfl⟩

/-- A step that succeeds is a move, followed by a tick of the clock. -/
theorem step_move {move : Tid × Action} (ran : step cfg st move = .ok st') :
    ∃ st₁, Move cfg st move.1 move.2 st₁ ∧ st' = tick st₁ := by
  obtain ⟨st₁, acted, rfl⟩ := step_acts ran
  exact ⟨st₁, act_move acted, rfl⟩

/-- The step lemma: a disciplined step keeps the invariant. -/
theorem Sound.step {move : Tid × Action} (sound : Sound cfg st) (permitted : Disciplined cfg st move)
    (ran : Raw.step cfg st move = .ok st') : Sound cfg st' := by
  obtain ⟨st₁, moved, rfl⟩ := step_move ran
  have inv := moved.inv sound.inv permitted sound.sentinel
  have sentinel := moved.sentinel sound.inv permitted sound.sentinel
  refine ⟨inv.congr rfl rfl rfl rfl rfl, sentinel.keep ?_ fun _ => .rfl⟩
  intro t height f found _
  exact ⟨f, found, rfl⟩

/-- The run lemma: the invariant holds in every state of a disciplined run. -/
theorem reachable_sound (run : Reachable (Raw.step cfg) (Disciplined cfg) State.init st) :
    Sound cfg st :=
  run.invariant (Sound cfg) (Sound.init cfg) fun _ _ _ _ sound permitted ran => sound.step permitted ran

end Seize.Raw
