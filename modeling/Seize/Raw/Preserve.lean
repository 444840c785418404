import Seize.Raw.Retire
import Seize.Raw.Moves

/-! Every permitted step keeps the invariant, so it holds in every reachable state. -/

namespace Seize.Raw

variable {cfg : Config} {st : State} {t : Tid} {s : SlotId} {b : Addr} {batch : Batch}
  {below : List Frame}

/-- A frame that works on a batch being freed is the call that frees it. -/
theorem Inv.free_unique (inv : Inv cfg st) {t' : Tid} {height height' : Nat} {g : Frame}
    (stored : st.mem b = some batch) (phase : batch.phase = .freeing t height)
    (found : st.frame t' height' = some g) (named : g.batchOf = some b) :
    t' = t ∧ height' = height := by
  cases inv.works_on stored found named with
  | scan _ pending => cases phase.symm.trans pending
  | link retiring => cases phase.symm.trans retiring
  | free freeing =>
    cases phase.symm.trans freeing
    exact ⟨rfl, rfl⟩

/-- The memory of a batch none of whose entries is linked may be handed back. -/
theorem free_inv {i : Nat} (inv : Inv cfg st) (top : st.stack t = .freeBatch (.ptr b) i :: below)
    (ledger : List (MemEvent Block Layout)) :
    Inv cfg ({ st with mem := Function.update st.mem b none, ledger := ledger }.setStack t below) := by
  obtain ⟨b', batch, eq, stored, phase⟩ := inv.frames t below.length _ (State.frame_top top)
  cases eq
  have empty := inv.phases b batch stored
  rw [phase] at empty
  have empty : batch.linkedNow = 0 := empty
  -- No linked entry lives in this batch.
  have elsewhere : ∀ e entry, entryIn st.mem e = some entry → entry.link = .linked → e.batch ≠ b := by
    intro e entry read linked here
    rw [entryIn_eq (here ▸ stored)] at read
    have := Batch.linkedNow_pos read linked
    omega
  have same : ∀ e : EntryPtr, e.batch ≠ b → entryIn (Function.update st.mem b none) e = entryIn st.mem e := by
    intro e other
    simp [entryIn, Function.update_of_ne other]
  refine inv.moveTop (b := b) top [] rfl rfl rfl rfl (fun _ _ _ => .rfl) ?_
    (fun height g high found => absurd found (frameAt_high_nil high)) (by rintro _ _ _ _ _ _ ⟨⟩)
    (by simp) ?_ ?_ ?_ (by simp) ((inv.tops t).suffix ⟨[_], top.symm⟩)
  · intro t' height g found named low
    obtain ⟨rfl, rfl⟩ := inv.free_unique stored phase found named
    exact absurd (low rfl) (by omega)
  · intro s' held
    obtain ⟨other, stored', pending⟩ := inv.slots s' b held
    obtain rfl : batch = other := Option.some.inj (stored.symm.trans stored')
    rw [phase] at pending
    cases pending
  · intro e entry read linked
    exact ⟨entry, by rw [← read]; exact same e (elsewhere e entry read linked), rfl⟩
  · rintro place e - ⟨entry, read, linked⟩
    exact ⟨entry, by rw [← read]; exact same e (elsewhere e entry read linked), linked⟩

/-- `reclaim_all` takes a local batch and starts to free it. -/
theorem take_inv {cursor : Nat} (inv : Inv cfg st) (top : st.stack t = .reclaimAll cursor :: below)
    (held : st.batch cursor = .ptr b) (stored : st.mem b = some batch) :
    Inv cfg (({ st with batch := Function.update st.batch cursor .drop }.setBatch b
      { batch with phase := .freeing t (below.length + 1) }).setStack t
        (.freeBatch (.ptr b) 0 :: .reclaimReset cursor :: below)) := by
  -- The batch is pending at this slot only, and none of its entries has been linked.
  obtain ⟨batch₀, stored₀, pending⟩ := inv.slots cursor b held
  obtain rfl : batch = batch₀ := Option.some.inj (stored.symm.trans stored₀)
  have phase := inv.phases b batch stored
  rw [pending] at phase
  have none_ := Batch.UnlinkedFrom.everLinked_zero phase.2.2
  refine inv.moveTop top [.freeBatch (.ptr b) 0, .reclaimReset cursor] rfl rfl rfl rfl ?_ ?_ ?_
    (by rintro _ _ _ _ _ _ ⟨⟩) ?_ ?_ (States.restage stored rfl)
    (fun _ _ _ => Linked.restage stored rfl) ?_ ?_
  · intro s' b' other
    by_cases here : s' = cursor
    · subst here
      simp [State.setBatch, State.setStack, held, Ne.symm other]
    · simp [State.setBatch, State.setStack, Function.update_of_ne here]
  · intro t' height g found named lower
    obtain ⟨rfl, atTop⟩ := inv.scan_alone top held rfl found named
    exact absurd (lower rfl) (by omega)
  · intro height g high found
    rcases frameAt_high_two high found with ⟨rfl, rfl⟩ | ⟨rfl, rfl⟩
    · exact ⟨trivial, .inl rfl⟩
    · exact ⟨⟨b, _, rfl, Function.update_self .., rfl⟩, .inl rfl⟩
  · rintro batch' ⟨⟩
    refine ⟨?_, inv.owners b batch stored⟩
    have := Batch.everLinked_eq batch
    show batch.linkedNow = 0
    omega
  · intro s' atSlot
    by_cases here : s' = cursor
    · subst here
      simp [State.setBatch, State.setStack] at atSlot
    · have atSlot : st.batch s' = .ptr b := by
        simpa [State.setBatch, State.setStack, Function.update_of_ne here] using atSlot
      obtain ⟨batch₂, stored₂, pending₂⟩ := inv.slots s' b atSlot
      obtain rfl : batch = batch₂ := Option.some.inj (stored.symm.trans stored₂)
      rw [pending] at pending₂
      cases pending₂
      exact absurd rfl here
  · intro g member s' used
    rfl
  · intro g member
    rcases List.mem_cons.mp member with rfl | lower
    · rfl
    · exact inv.tops_below top g lower

/-- A slot that holds no batch may change to another value that is no batch. -/
theorem Inv.setLocal (inv : Inv cfg st) (local_ : LocalBatch) (was : ∀ b, st.batch s ≠ .ptr b)
    (is : ∀ b, local_ ≠ .ptr b) :
    Inv cfg { st with batch := Function.update st.batch s local_ } := by
  -- The slot names no batch, neither before nor after.
  have same : ∀ s' b, Function.update st.batch s local_ s' = .ptr b ↔ st.batch s' = .ptr b := by
    intro s' b
    by_cases here : s' = s
    · subst here
      simp [was b, is b]
    · rw [Function.update_of_ne here]
  exact inv.transfer (fun _ => False) (fun _ _ => rfl) (fun s' b _ => same s' b)
    (fun t' height f found => .inl ⟨found, by simp⟩)
    (fun t' height b marked i active seen _ found => ⟨marked, i, active, seen, found⟩)
    (fun _ _ touch => touch.elim) (fun _ _ touch => touch.elim) (fun _ _ touch => touch.elim)
    (fun e entry found _ => ⟨entry, found, rfl⟩) inv.idle (fun s' first active => .inl ⟨active, rfl⟩)
    inv.lists inv.access inv.tops

/-- A slot without a batch may be given a fresh one. -/
theorem newBatch_inv (inv : Inv cfg st) (null : st.batch s = .null) (free : st.mem b = none) :
    Inv cfg { st.setBatch b (newBatch cfg st s) with
      batch := Function.update st.batch s (.ptr b) } := by
  have elsewhere : ∀ e entry, entryIn st.mem e = some entry → e.batch ≠ b := by
    intro e entry read here
    obtain ⟨batch, stored, _⟩ := exists_of_entryIn read
    rw [here, free] at stored
    cases stored
  have same : ∀ e entry, entryIn st.mem e = some entry →
      entryIn (Function.update st.mem b (some (newBatch cfg st s))) e = some entry := by
    intro e entry read
    rw [entryIn_update, if_neg (elsewhere e entry read), read]
  refine inv.transfer (· = b) (fun b' other => by simp [State.setBatch, Function.update_of_ne other])
    ?_ ?_ (fun t' height b' marked i active seen _ found => ⟨marked, i, active, seen, found⟩)
    ?_ ?_ ?_ (fun e entry read _ => ⟨entry, same e entry read, rfl⟩) inv.idle
    (fun s' first active => .inl ⟨active, rfl⟩) ?_ inv.access inv.tops
  · intro s' b' other
    by_cases here : s' = s
    · subst here
      simp [null, Ne.symm other]
    · simp [Function.update_of_ne here]
  · -- No call works at an address that is not allocated.
    intro t' height f found
    refine .inl ⟨found, fun b' named here => ?_⟩
    subst here
    obtain ⟨_, stored, _⟩ := inv.works found named
    rw [free] at stored
    cases stored
  · rintro b' batch' rfl stored
    simp only [State.setBatch, Function.update_self, Option.some.injEq] at stored
    subst stored
    exact ⟨by simp, rfl, by intro j entry _ read; simp [newBatch] at read⟩
  · rintro b' batch' rfl stored
    simp only [State.setBatch, Function.update_self, Option.some.injEq] at stored
    subst stored
    simp [newBatch]
  · rintro s' b' rfl held
    refine ⟨_, by simp [State.setBatch]; rfl, ?_⟩
    by_cases here : s' = s
    · rw [here]; rfl
    · simp only [Function.update_of_ne here] at held
      obtain ⟨_, stored, _⟩ := inv.slots s' b' held
      rw [free] at stored
      cases stored
  · refine inv.lists.shrink (fun place => .refl _) fun place e member => ?_
    obtain ⟨entry, read, linked⟩ := inv.lists.listed place e member
    exact ⟨entry, same e entry read, linked⟩

/-- While its owner runs user code alone, no call works on a local batch. -/
theorem Inv.pending_idle (inv : Inv cfg st) (held : st.batch s = .ptr b)
    (unique : UniqueAccess st t s) (outside : ∀ f ∈ st.stack t, f.isLeaf = false)
    {t' : Tid} {height : Nat} {g : Frame} (found : st.frame t' height = some g) :
    g.batchOf ≠ some b := by
  intro named
  obtain ⟨leaf, used⟩ := inv.pending_frame held found named
  by_cases same : t' = t
  · subst same
    rw [outside g (mem_of_frameAt found)] at leaf
    cases leaf
  · rw [unique t' same g (mem_of_frameAt found)] at used
    cases used

/-- The owner of a local batch may grow it or push an entry to it. -/
theorem pending_inv (inv : Inv cfg st) (held : st.batch s = .ptr b) (stored : st.mem b = some batch)
    (unique : UniqueAccess st t s) (outside : ∀ f ∈ st.stack t, f.isLeaf = false)
    (entries : List Entry) (cap : Nat)
    (fresh : ∀ entry ∈ entries, entry.link = .unlinked ∧ entry.batch = b) :
    Inv cfg (st.setBatch b { batch with entries := batch.entries ++ entries, cap := cap }) := by
  obtain ⟨batch₀, stored₀, pending⟩ := inv.slots s b held
  obtain rfl : batch = batch₀ := Option.some.inj (stored.symm.trans stored₀)
  have phase := inv.phases b batch stored
  rw [pending] at phase
  -- Nobody reads a pending batch but its own slot, and its entries are unlinked.
  refine inv.rebatch stored rfl ?_ ?_ ?_
    (fun t' height f found named => absurd named (inv.pending_idle held unique outside found))
  · intro i entry read linked
    rw [phase.2.2 i entry (Nat.zero_le i) read] at linked
    cases linked
  · intro entry member
    rcases List.mem_append.mp member with old | new
    · exact inv.owners b batch stored entry old
    · exact (fresh entry new).2
  · rw [pending]
    refine ⟨phase.1, phase.2.1, fun j entry _ read => ?_⟩
    rcases List.mem_append.mp (List.mem_of_getElem? read) with old | new
    · obtain ⟨k, found⟩ := List.mem_iff_getElem?.mp old
      exact phase.2.2 k entry (Nat.zero_le k) found
    · exact (fresh entry new).1

/-- A scan may write its mark into the next entry. -/
theorem mark_inv {start cursor marked slot : Nat} (inv : Inv cfg st)
    (top : st.stack t = .scan s b start cursor marked :: below) (stored : st.mem b = some batch)
    (room : marked < batch.entries.length) (more : cursor < cfg.slots) :
    Inv cfg ((st.setBatch b (batch.setState marked (.head (some slot)))).setStack t
      (.scan s b start (cursor + 1) (marked + 1) :: below)) := by
  obtain ⟨held, small, bounded, batch₀, stored₀, enough, marks⟩ :=
    inv.frames t below.length _ (State.frame_top top)
  obtain rfl : batch = batch₀ := Option.some.inj (stored.symm.trans stored₀)
  obtain ⟨batch₁, stored₁, pending⟩ := inv.slots s b held
  obtain rfl : batch = batch₁ := Option.some.inj (stored.symm.trans stored₁)
  have phase := inv.phases b batch stored
  rw [pending] at phase
  -- The new mark extends the marks by one and spoils none of them.
  have extended : ∀ high, high ≤ marked + 1 →
      (batch.setState marked (.head (some slot))).Marked 0 high := by
    intro high limit j _ below_
    by_cases same : marked = j
    · subst same
      exact ⟨{ batch.entries[marked] with state := .head (some slot) }, slot,
        by rw [Batch.setState_get]; simp [room], rfl⟩
    · obtain ⟨entry, v, read, state⟩ := marks j (Nat.zero_le j) (by omega)
      exact ⟨entry, v, by simp [Batch.setState_get, read, same], state⟩
  have written : Inv cfg (st.setBatch b (batch.setState marked (.head (some slot)))) := by
    refine inv.rebatch stored rfl ?_ ?_ ?_ ?_
    · intro i entry read linked
      rw [phase.2.2 i entry (Nat.zero_le i) read] at linked
      cases linked
    · intro entry member
      obtain ⟨old, member', eq, _⟩ := Batch.mem_setState member
      rw [eq]
      exact inv.owners b batch stored old member'
    · rw [pending]
      refine ⟨phase.1, phase.2.1, fun j entry _ read => ?_⟩
      obtain ⟨old, member, _, eq⟩ := Batch.mem_setState (List.mem_of_getElem? read)
      obtain ⟨k, found⟩ := List.mem_iff_getElem?.mp member
      rw [eq]
      exact phase.2.2 k old (Nat.zero_le k) found
    · intro t' height f found named
      obtain ⟨rfl, rfl⟩ := inv.scan_alone top held (by simp [Frame.usesBatch]) found named
      rw [State.frame_top top] at found
      cases found
      exact ⟨held, small, bounded, _, Function.update_self .., by simpa using enough,
        extended marked (by omega)⟩
  refine written.replace top ⟨held, by omega, by omega, _, Function.update_self .., ?_,
    extended (marked + 1) (Nat.le_refl _)⟩ rfl (by rintro _ _ _ _ _ ⟨⟩) (by simp [Frame.usesBatch])
  rw [Batch.setState_length]
  omega

/-- A compare-exchange that fails has only written to an entry that nobody can reach. -/
theorem retry_inv {marked i active : Nat} {seen seen' : SlotId × Head} {state : EntryState}
    (inv : Inv cfg st) (top : st.stack t = .link b marked i active (some seen) :: below)
    (stored : st.mem b = some batch) :
    Inv cfg ((st.setBatch b (batch.setState i state)).setStack t
      (.link b marked i active (some seen') :: below)) := by
  obtain ⟨batch₀, stored₀, phase, linking⟩ := inv.frames t below.length _ (State.frame_top top)
  obtain rfl : batch = batch₀ := Option.some.inj (stored.symm.trans stored₀)
  obtain ⟨entry, found, fresh⟩ := linking.entry
  have written : Inv cfg (st.setBatch b (batch.setState i state)) := by
    refine inv.rebatch stored rfl ?_ ?_ ?_ ?_
    · -- A linked entry is not the one being written.
      intro j old read linked
      have other : i ≠ j := by
        intro same
        rw [← same, found] at read
        cases read
        rw [fresh] at linked
        cases linked
      exact ⟨old, by simp [Batch.setState_get, read, other], linked, rfl⟩
    · intro entry' member
      obtain ⟨old, member', eq, _⟩ := Batch.mem_setState member
      rw [eq]
      exact inv.owners b batch stored old member'
    · have retiring := inv.phases b batch stored
      rw [phase] at retiring ⊢
      refine ⟨retiring.1, ?_⟩
      rw [Batch.setState_released]
      exact retiring.2
    · intro t' height f atFrame named
      obtain ⟨rfl, rfl⟩ := inv.link_unique stored phase atFrame named
      rw [State.frame_top top] at atFrame
      cases atFrame
      exact ⟨_, Function.update_self .., phase, linking.write⟩
  refine written.replace top ⟨_, Function.update_self .., phase, linking.write⟩ rfl ?_
    (by simp [Frame.usesBatch])
  rintro _ _ _ _ _ ⟨⟩
  exact ⟨_, _, _, _, rfl⟩

/-- `free_batch` may invoke a reclaimer. -/
theorem invoke_inv {i rid : Nat} {p : Ptr} {f : Reclaim} (inv : Inv cfg st)
    (top : st.stack t = .freeBatch (.ptr b) i :: below) :
    Inv cfg (st.setStack t (.reclaimer rid p f :: .freeBatch (.ptr b) (i + 1) :: below)) := by
  have ok := inv.frames t below.length _ (State.frame_top top)
  refine inv.restack _ ?_ ?_ ?_ ?_
  · intro height g found
    rcases frameAt_cons found with ⟨_, rfl⟩ | ⟨_, lower⟩
    · exact .inr ⟨trivial, rfl⟩
    · rcases frameAt_cons lower with ⟨rfl, rfl⟩ | ⟨low, old⟩
      · exact .inr ⟨ok, rfl⟩
      · exact .inl (by rw [State.frame, top, frameAt_cons_of_lt low, old])
  · -- This thread has no linking loop, since that would be its innermost call.
    intro height b' marked i' active seen found
    have := (inv.below_leaf top found rfl).2
    cases this
  · intro g member s' used
    simp only [List.mem_cons] at member
    rcases member with rfl | rfl | old
    · simp [Frame.usesBatch] at used
    · simp [Frame.usesBatch] at used
    · exact .inl ⟨g, by simp [top, old], used⟩
  · intro g member
    rcases List.mem_cons.mp member with rfl | lower
    · rfl
    · exact inv.tops_below top g lower

/-- Preparing a slot keeps the invariant. -/
theorem Prep.inv {st' : State} (prep : Prep cfg s st st') (inv : Inv cfg st)
    (unique : UniqueAccess st t s) (outside : ∀ f ∈ st.stack t, f.isLeaf = false) : Inv cfg st' := by
  induction prep with
  | refl => exact inv
  | load _ _ ih => exact ih.congr rfl rfl rfl rfl rfl
  | unboxed _ _ _ ih => exact ih.congr rfl rfl rfl rfl rfl
  | fresh _ null free ih => exact (newBatch_inv ih null free).congr rfl rfl rfl rfl rfl
  | @grow st₁ b batch cap before held stored room ih =>
    have stack := before.same.1
    have grown := pending_inv ih held stored (by unfold UniqueAccess; rw [stack]; exact unique)
      (by rw [stack]; exact outside) [] cap (by simp)
    rw [List.append_nil] at grown
    exact grown.congr rfl rfl rfl rfl rfl

end Seize.Raw
