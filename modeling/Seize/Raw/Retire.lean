import Seize.Raw.Lists

/-! The steps of `try_retire`, `traverse` and `free_batch` keep the invariant. -/

namespace Seize.Raw

variable {cfg : Config} {st : State} {t : Tid} {s : SlotId} {b : Addr} {batch : Batch}
  {below : List Frame}

/-- There are fewer slots than values of a counter. -/
theorem Config.slots_lt (cfg : Config) : cfg.slots + 1 < cfg.modulus ∨ cfg.slots = 0 := by
  unfold Config.slots Config.modulus
  omega

/-- The frame of the innermost call stands at the height of the rest of the stack. -/
theorem State.frame_top {f : Frame} (top : st.stack t = f :: below) :
    st.frame t below.length = some f := by
  simp [State.frame, top]

/-- Below a leaf nothing else is a leaf. -/
theorem Inv.below_leaf (inv : Inv cfg st) {f g : Frame} {height : Nat}
    (top : st.stack t = f :: below) (found : st.frame t height = some g) (leaf : g.isLeaf = true) :
    height = below.length ∧ g = f := by
  rw [State.frame, top] at found
  rcases frameAt_cons found with same | ⟨_, lower⟩
  · exact same
  · have tops := inv.tops t
    rw [top] at tops
    rw [tops g (mem_of_frameAt lower)] at leaf
    cases leaf

/-- Nothing below the innermost call is a leaf. -/
theorem Inv.tops_below (inv : Inv cfg st) {f : Frame} (top : st.stack t = f :: below) :
    ∀ g ∈ below, g.isLeaf = false := by
  have tops := inv.tops t
  rw [top] at tops
  exact tops

/-- The frames of a stack after the innermost call changed. -/
theorem State.frame_replace {f : Frame} (fs : List Frame) {t' : Tid} {height : Nat} {g : Frame}
    (top : st.stack t = f :: below) {stack : Tid → List Frame}
    (pushed : stack = Function.update st.stack t (fs ++ below))
    (found : frameAt (stack t') height = some g) :
    (t' = t ∧ below.length ≤ height ∧ frameAt (fs ++ below) height = some g) ∨
      (st.frame t' height = some g ∧ (t' = t → height < below.length)) := by
  subst pushed
  by_cases same : t' = t
  · subst same
    rw [Function.update_self] at found
    by_cases low : height < below.length
    · refine .inr ⟨?_, fun _ => low⟩
      rw [State.frame, top, frameAt_cons_of_lt low]
      -- Frames above the common part do not matter at a lower height.
      clear top
      induction fs with
      | nil => exact found
      | cons g' fs ih =>
        rw [List.cons_append, frameAt_cons_of_lt (by simp; omega)] at found
        exact ih found
    · exact .inl ⟨rfl, by omega, found⟩
  · rw [Function.update_of_ne same] at found
    exact .inr ⟨found, fun eq => absurd eq same⟩

/-- A frame that a step of the innermost call leaves behind, and the list it holds. -/
def NewFrame (cfg : Config) (st' : State) (t : Tid) (f : Frame) (base height : Nat) (g : Frame) : Prop :=
  FrameOk cfg st'.batch st'.mem t height g ∧
    (g.rest = [] ∨ (height = base ∧ g.rest.Sublist f.rest))

/-- The invariant rule for a step of the innermost call that works on one batch. -/
theorem Inv.moveTop {st' : State} {f : Frame} {after : Option Batch} (inv : Inv cfg st)
    (top : st.stack t = f :: below) (fs : List Frame)
    (stack : st'.stack = Function.update st.stack t (fs ++ below))
    (memory : st'.mem = Function.update st.mem b after)
    (head : st'.head = st.head) (pushed : st'.pushed = st.pushed)
    (batch : ∀ s b', b' ≠ b → (st'.batch s = .ptr b' ↔ st.batch s = .ptr b'))
    (others : ∀ t' height g, st.frame t' height = some g → g.batchOf = some b →
      (t' = t → height < below.length) → FrameOk cfg st'.batch st'.mem t' height g)
    (own : ∀ height g, below.length ≤ height → frameAt (fs ++ below) height = some g →
      NewFrame cfg st' t f below.length height g)
    (notLink : ∀ b' marked i active seen, b' ≠ b → f ≠ .link b' marked i active seen)
    (phases : ∀ batch', after = some batch' → PhaseOk cfg st' b batch' batch'.phase ∧
      ∀ entry ∈ batch'.entries, entry.batch = b)
    (slots : ∀ s, st'.batch s = .ptr b → ∃ batch', after = some batch' ∧ batch'.phase = .pending s)
    (states : States st.mem st'.mem)
    (linked : ∀ place e, e ∈ listAt st' place → Linked st.mem e → Linked st'.mem e)
    (uses : ∀ g ∈ fs, ∀ s, g.usesBatch s → f.usesBatch s) (tops : TopOnly (fs ++ below)) :
    Inv cfg st' := by
  have here : st'.mem b = after := by rw [memory, Function.update_self]
  refine inv.transfer (· = b) (fun b' other => by rw [memory, Function.update_of_ne other]) batch
    ?_ ?_ (fun b' batch' touch found => ?_) (fun b' batch' touch found => ?_)
    (fun s b' touch held => ?_) states (fun s inactive => ?_) (fun s first active => .inl ⟨?_, ?_⟩)
    ?_ ?_ ?_
  · intro t' height g found
    rcases State.frame_replace fs top stack found with ⟨rfl, high, new⟩ | ⟨old, low⟩
    · exact .inr (own height g high new).1
    · by_cases named : g.batchOf = some b
      · exact .inr (others t' height g old named low)
      · exact .inl ⟨old, fun b' at_ same => named (same ▸ at_)⟩
  · intro t' height b' marked i active seen other found
    refine ⟨marked, i, active, seen, ?_⟩
    rw [State.frame, stack]
    by_cases same : t' = t
    · subst same
      -- A linking loop of this thread would be the innermost call, which works on another batch.
      exact absurd (inv.below_leaf top found rfl).2.symm (notLink b' marked i active seen other)
    · rw [Function.update_of_ne same]
      exact found
  · subst touch
    exact (phases batch' (here ▸ found)).1
  · subst touch
    exact (phases batch' (here ▸ found)).2
  · subst touch
    rw [here]
    exact slots s held
  · rw [pushed]
    exact inv.idle s (head ▸ inactive)
  · rw [← head, active]
  · rw [pushed]
  · -- Lists outside the innermost call are the same, and its own can only have shrunk.
    have smaller : ∀ place, (listAt st' place).Sublist (listAt st place) := by
      intro place
      cases place with
      | slot s => simp [listAt, pushed]
      | call t' height =>
        simp only [listAt]
        cases found : st'.frame t' height with
        | none => simp
        | some g =>
          rcases State.frame_replace fs top stack found with ⟨rfl, high, new⟩ | ⟨old, _⟩
          · rcases (own height g high new).2 with empty | ⟨rfl, sub⟩
            · simp [empty]
            · simpa [State.frame_top top] using sub
          · simp [old]
    exact inv.lists.shrink smaller fun place e member =>
      linked place e member (inv.lists.listed place e ((smaller place).subset member))
  · rw [stack]
    refine inv.access.update fun g member s used => .inl ?_
    rcases List.mem_append.mp member with new | old
    · exact ⟨f, by simp [top], uses g new s used⟩
    · exact ⟨g, by simp [top, old], used⟩
  · intro t'
    rw [stack]
    by_cases same : t' = t
    · subst same
      rw [Function.update_self]
      exact tops
    · rw [Function.update_of_ne same]
      exact inv.tops t'

/-- Frames that work on a pending batch are scans of its slot. -/
theorem Inv.pending_frame (inv : Inv cfg st) {t' : Tid} {height : Nat} {g : Frame}
    (held : st.batch s = .ptr b) (found : st.frame t' height = some g) (named : g.batchOf = some b) :
    g.isLeaf = true ∧ g.usesBatch s = true := by
  obtain ⟨batch, stored, pending⟩ := inv.slots s b held
  -- A pending batch is neither being linked nor being freed.
  cases inv.works_on stored found named with
  | scan _ pending' =>
    cases pending.symm.trans pending'
    exact ⟨rfl, by simp [Frame.usesBatch]⟩
  | link retiring => cases pending.symm.trans retiring
  | free freeing => cases pending.symm.trans freeing

/-- The innermost call is the only user of the batch it scans. -/
theorem Inv.scan_alone (inv : Inv cfg st) {f g : Frame} {t' : Tid} {height : Nat}
    (top : st.stack t = f :: below) (held : st.batch s = .ptr b) (uses : f.usesBatch s = true)
    (found : st.frame t' height = some g) (named : g.batchOf = some b) :
    t' = t ∧ height = below.length := by
  obtain ⟨leaf, used⟩ := inv.pending_frame held found named
  obtain rfl : t' = t := inv.access s t' t g (mem_of_frameAt found) f (by simp [top]) used uses
  exact ⟨rfl, (inv.below_leaf top found leaf).1⟩

/-- Restaging a batch without touching its entries keeps what is linked. -/
theorem Linked.restage {mem : Addr → Option Batch} {batch' : Batch} {e : EntryPtr}
    (stored : mem b = some batch) (same : batch'.entries = batch.entries) (linked : Linked mem e) :
    Linked (Function.update mem b (some batch')) e := by
  obtain ⟨entry, found, isLinked⟩ := linked
  refine ⟨entry, ?_, isLinked⟩
  rw [entryIn_update]
  split
  · rename_i here
    rw [same, ← entryIn_eq (here ▸ stored), found]
  · exact found

/-- Restaging a batch writes no union field. -/
theorem States.restage {mem : Addr → Option Batch} {batch' : Batch} (stored : mem b = some batch)
    (same : batch'.entries = batch.entries) : States mem (Function.update mem b (some batch')) := by
  intro e entry found isLinked
  obtain ⟨entry', found', _⟩ := Linked.restage stored same ⟨entry, found, isLinked⟩
  refine ⟨entry', found', ?_⟩
  rw [entryIn_update] at found'
  split at found'
  · rename_i here
    rw [same, ← entryIn_eq (here ▸ stored), found] at found'
    rw [Option.some.inj found']
  · rw [Option.some.inj (found'.symm.trans found)]

/-- The commit of a batch: its slot forgets it, and its retirer owns it. -/
theorem commit_inv {start cursor marked : Nat} (inv : Inv cfg st)
    (top : st.stack t = .scan s b start cursor marked :: below) (stored : st.mem b = some batch) :
    Inv cfg (({ st with batch := Function.update st.batch s .null }.setBatch b
      { batch with phase := .retiring t below.length, scanned := some start }).setStack t
        (.link b marked 0 0 none :: below)) := by
  obtain ⟨held, small, bounded, batch₀, stored₀, enough, marks⟩ :=
    inv.frames t below.length _ (State.frame_top top)
  obtain rfl : batch = batch₀ := Option.some.inj (stored.symm.trans stored₀)
  obtain ⟨batch₁, stored₁, pending⟩ := inv.slots s b held
  obtain rfl : batch = batch₁ := Option.some.inj (stored.symm.trans stored₁)
  have phase := inv.phases b batch stored
  rw [pending] at phase
  obtain ⟨-, zero, fresh⟩ := phase
  have none_ := Batch.UnlinkedFrom.everLinked_zero fresh
  refine inv.moveTop top [.link b marked 0 0 none] rfl rfl rfl rfl ?_ ?_ ?_
    (by rintro _ _ _ _ _ _ ⟨⟩) ?_ ?_ (States.restage stored rfl)
    (fun _ _ _ => Linked.restage stored rfl) ?_ (inv.tops_below top)
  · intro s' b' other
    by_cases here : s' = s
    · subst here
      simp [State.setBatch, State.setStack, held, Ne.symm other]
    · simp [State.setBatch, State.setStack, Function.update_of_ne here]
  · intro t' height g found named lower
    obtain ⟨rfl, atTop⟩ := inv.scan_alone top held (by simp [Frame.usesBatch]) found named
    exact absurd (lower rfl) (by omega)
  · intro height g high found
    obtain ⟨rfl, rfl⟩ := frameAt_high_one high found
    exact ⟨⟨_, Function.update_self .., rfl, enough, by omega, Nat.zero_le _, Nat.le_refl _, by simp,
      none_.symm, fresh, marks⟩, .inl rfl⟩
  · rintro batch' ⟨⟩
    refine ⟨⟨⟨marked, 0, 0, none, by simp [State.frame, State.setStack]⟩, .inl ?_⟩,
      inv.owners b batch stored⟩
    have := Batch.everLinked_eq batch
    simp only [zero, Batch.released] at this ⊢
    omega
  · intro s' atSlot
    by_cases here : s' = s
    · subst here
      simp [State.setBatch, State.setStack] at atSlot
    · -- Another slot with this batch would make it pending twice.
      have atSlot : st.batch s' = .ptr b := by
        simpa [State.setBatch, State.setStack, Function.update_of_ne here] using atSlot
      obtain ⟨batch₂, stored₂, pending₂⟩ := inv.slots s' b atSlot
      obtain rfl : batch = batch₂ := Option.some.inj (stored.symm.trans stored₂)
      rw [pending] at pending₂
      cases pending₂
      exact absurd rfl here
  · intro g member s' used
    simp only [List.mem_singleton] at member
    subst member
    simp [Frame.usesBatch] at used

/-- The head that a linking loop last loaded is there to be compared. -/
theorem Linking.entry {marked i active : Nat} {seen : SlotId × Head}
    (linking : Linking cfg batch marked i active (some seen)) :
    ∃ entry, batch.entries[i]? = some entry ∧ entry.link = .unlinked := by
  have bound : i < batch.entries.length := Nat.lt_of_lt_of_le (linking.inLoop rfl) linking.enough
  exact ⟨batch.entries[i], by simp [bound],
    linking.fresh i _ (Nat.le_refl i) (by simp [bound])⟩

/-- A successful compare-exchange puts the entry at the front of the slot's list. -/
theorem publish_inv {marked i active : Nat} {prev : Option EntryPtr} {seen : Head} (inv : Inv cfg st)
    (top : st.stack t = .link b marked i active (some (s, seen)) :: below)
    (stored : st.mem b = some batch) (same : st.head s = .list prev) :
    Inv cfg (({ st with
      head := Function.update st.head s (.list (some ⟨b, i⟩))
      pushed := Function.update st.pushed s (⟨b, i⟩ :: st.pushed s) }.setBatch b
        ((batch.setState i (.next prev)).setLink i .linked)).setStack t
          (.link b marked (i + 1) (active + 1) none :: below)) := by
  obtain ⟨batch₀, stored₀, phase, linking⟩ := inv.frames t below.length _ (State.frame_top top)
  obtain rfl : batch = batch₀ := Option.some.inj (stored.symm.trans stored₀)
  obtain ⟨entry, found, fresh⟩ := linking.entry
  have retiring := inv.phases b batch stored
  rw [phase] at retiring
  have read : (batch.setState i (.next prev)).entries[i]? =
      some { entry with state := .next prev } := by simp [Batch.setState_get, found]
  have counted := Batch.setLink_linked (batch.setState i (.next prev)) i read fresh
  -- Every other entry of the batch is as it was.
  have rest : ∀ j, j ≠ i →
      ((batch.setState i (.next prev)).setLink i .linked).entries[j]? = batch.entries[j]? := by
    intro j other
    simp [Batch.setLink_get, Batch.setState_get, Ne.symm other]
  -- An unlinked entry is on no list.
  have absent : ∀ place, (⟨b, i⟩ : EntryPtr) ∉ listAt st place := by
    intro place member
    obtain ⟨other, read, isLinked⟩ := inv.lists.listed place _ member
    rw [entryIn_eq (e := ⟨b, i⟩) stored, found] at read
    cases read
    rw [fresh] at isLinked
    cases isLinked
  have keeps : ∀ e, Linked st.mem e → Linked (Function.update st.mem b
      (some ((batch.setState i (.next prev)).setLink i .linked))) e := by
    intro e linked
    refine Linked.of_ne stored rest ?_ linked
    rintro rfl
    obtain ⟨other, read, isLinked⟩ := linked
    rw [entryIn_eq (e := ⟨b, i⟩) stored, found] at read
    cases read
    rw [fresh] at isLinked
    cases isLinked
  have states : States st.mem (Function.update st.mem b
      (some ((batch.setState i (.next prev)).setLink i .linked))) := by
    intro e old read isLinked
    rw [entryIn_update]
    split
    · rename_i here
      rw [entryIn_eq (here ▸ stored)] at read
      have other : e.index ≠ i := by
        intro eq
        rw [eq, found] at read
        cases read
        rw [fresh] at isLinked
        cases isLinked
      exact ⟨old, by rw [rest e.index other, read], rfl⟩
    · exact ⟨old, read, rfl⟩
  refine inv.transfer (· = b) ?_ (fun _ _ _ => .rfl) ?_ ?_ ?_ ?_ ?_ states ?_ ?_ ?_ ?_ ?_
  · intro b' other
    simp [State.setBatch, State.setStack, Function.update_of_ne other]
  · intro t' height g atFrame
    rcases State.frame_replace [.link b marked (i + 1) (active + 1) none] top rfl atFrame with
      ⟨rfl, high, new⟩ | ⟨old, low⟩
    · obtain ⟨rfl, rfl⟩ := frameAt_high_one high new
      exact .inr ⟨_, Function.update_self .., phase, linking.link found⟩
    · refine .inl ⟨old, fun b' named here => ?_⟩
      subst here
      obtain ⟨rfl, rfl⟩ := inv.link_unique stored phase old named
      exact absurd (low rfl) (by omega)
  · intro t' height b' marked' i' active' seen' other atFrame
    by_cases here : t' = t
    · subst here
      obtain ⟨_, eq⟩ := inv.below_leaf top atFrame rfl
      cases eq
      exact absurd rfl other
    · exact ⟨marked', i', active', seen', by rw [State.frame_setStack, if_neg here]; exact atFrame⟩
  · rintro b' batch' rfl found'
    simp only [State.setBatch, State.setStack, Function.update_self, Option.some.injEq] at found'
    subst found'
    have phase' : ((batch.setState i (.next prev)).setLink i .linked).phase =
      .retiring t below.length := phase
    rw [phase']
    refine ⟨⟨marked, i + 1, active + 1, none, by simp⟩, ?_⟩
    rw [counted.2, Batch.setState_released]
    exact retiring.2
  · rintro b' batch' rfl found' entry' member
    simp only [State.setBatch, State.setStack, Function.update_self, Option.some.injEq] at found'
    subst found'
    obtain ⟨old, member₁, eq₁⟩ := Batch.mem_setLink member
    obtain ⟨old', member₂, eq₂, _⟩ := Batch.mem_setState member₁
    rw [eq₁, eq₂]
    exact inv.owners b' batch stored old' member₂
  · rintro s' b' rfl held
    obtain ⟨batch₁, stored₁, pending⟩ := inv.slots s' b' held
    obtain rfl : batch = batch₁ := Option.some.inj (stored.symm.trans stored₁)
    rw [phase] at pending
    cases pending
  · intro s' inactive
    by_cases here : s' = s
    · subst here
      simp [State.setBatch, State.setStack] at inactive
    · have inactive : st.head s' = .inactive := by
        simpa [State.setBatch, State.setStack, Function.update_of_ne here] using inactive
      simpa [State.setBatch, State.setStack, Function.update_of_ne here] using inv.idle s' inactive
  · intro s' first active'
    by_cases here : s' = s
    · subst here
      simp only [State.setBatch, State.setStack, Function.update_self, Head.list.injEq] at active' ⊢
      subst active'
      -- The new front points at the old list, which is as it was.
      refine .inr ⟨rfl, { entry with state := .next prev, link := .linked }, prev, ?_, rfl, ?_⟩
      · simp [entryIn_update, Batch.setLink_get, Batch.setState_get, found]
      · exact Chain.keep states (fun e => inv.lists.listed (.slot s') e) (inv.heads s' prev same)
    · refine .inl ⟨?_, ?_⟩
      · simpa [State.setBatch, State.setStack, Function.update_of_ne here] using active'
      · simp [State.setBatch, State.setStack, Function.update_of_ne here]
  · refine inv.lists.push (.slot s) ⟨b, i⟩ absent ?_ ?_ ?_ keeps
    · simp [listAt, State.setBatch, State.setStack]
    · intro place other
      cases place with
      | slot s' =>
        have here : s' ≠ s := fun eq => other (by rw [eq])
        simp [listAt, State.setBatch, State.setStack, Function.update_of_ne here]
      | call t' height =>
        simp only [listAt, State.frame_setStack]
        by_cases here : t' = t
        · subst here
          simp only [if_true, State.frame, top, frameAt]
          by_cases atTop : height = below.length
          · simp [atTop, Frame.rest]
          · simp [atTop]
        · simp only [if_neg here]
          rfl
    · exact ⟨{ entry with state := .next prev, link := .linked },
        by simp [State.setBatch, State.setStack, entryIn_update, Batch.setLink_get,
          Batch.setState_get, found], rfl⟩
  · refine inv.access.update fun g member s' used => ?_
    rcases List.mem_cons.mp member with rfl | old
    · simp [Frame.usesBatch] at used
    · exact .inl ⟨g, by simp [top, old], used⟩
  · intro t'
    by_cases here : t' = t
    · subst here
      simpa [State.setStack, TopOnly] using inv.tops_below top
    · simpa [State.setBatch, State.setStack, Function.update_of_ne here] using inv.tops t'

/-- Adding the links of a retirer to a count that holds only decrements. -/
theorem fetch_add_count {cfg : Config} {count released linked : Nat} (bound : linked ≤ cfg.slots)
    (fewer : released ≤ linked) (before : count + released = 0 ∨ count + released = cfg.modulus) :
    (count + linked) % cfg.modulus + released = linked := by
  have slots := cfg.slots_lt
  have small : linked - released < cfg.modulus := by
    have : 0 < cfg.modulus := Nat.two_pow_pos _
    omega
  rcases before with zero | wrapped
  · -- Nothing was decremented yet.
    have : count + linked = linked - released := by omega
    rw [this, Nat.mod_eq_of_lt small]
    omega
  · -- The count had wrapped below zero, and the addition brings it back.
    have : count + linked = linked - released + cfg.modulus := by omega
    rw [this, Nat.add_mod_right, Nat.mod_eq_of_lt small]
    omega

/-- The retirer adds its links: the batch is shared, or nothing is left to wait for. -/
theorem addition_inv {marked i active : Nat} {seen : Option (SlotId × Head)} (inv : Inv cfg st)
    (top : st.stack t = .link b marked i active seen :: below) (stored : st.mem b = some batch) :
    let count := (batch.active + active) % cfg.modulus
    (count = 0 → Inv cfg ((st.setBatch b
      { batch with active := count, phase := .freeing t below.length }).setStack t
        (.freeBatch (.ptr b) 0 :: below))) ∧
    (count ≠ 0 → Inv cfg ((st.setBatch b
      { batch with active := count, phase := .shared }).setStack t below)) := by
  intro count
  obtain ⟨batch₀, stored₀, phase, linking⟩ := inv.frames t below.length _ (State.frame_top top)
  obtain rfl : batch = batch₀ := Option.some.inj (stored.symm.trans stored₀)
  have retiring := inv.phases b batch stored
  rw [phase] at retiring
  have total := Batch.everLinked_eq batch
  have bound : batch.everLinked ≤ cfg.slots := by
    have := linking.counted
    have := linking.within
    have := linking.bounded
    rw [← linking.exact]
    omega
  -- With the threshold added, the count is that of the entries still to be released.
  have after : count + batch.released = batch.everLinked :=
    linking.exact ▸ fetch_add_count (linking.exact ▸ bound) (by rw [linking.exact]; omega) retiring.2
  have notPending : ∀ s', st.batch s' ≠ .ptr b := by
    intro s' held
    obtain ⟨batch₁, stored₁, pending⟩ := inv.slots s' b held
    obtain rfl : batch = batch₁ := Option.some.inj (stored.symm.trans stored₁)
    rw [phase] at pending
    cases pending
  -- This call is the only one at work on the batch.
  have alone : ∀ t' height g, st.frame t' height = some g → g.batchOf = some b →
      (t' = t → height < below.length) → False := by
    intro t' height g found named low
    obtain ⟨rfl, rfl⟩ := inv.link_unique stored phase found named
    exact absurd (low rfl) (by omega)
  have notLink : ∀ b' marked' i' active' seen', b' ≠ b →
      Frame.link b marked i active seen ≠ .link b' marked' i' active' seen' := by
    rintro b' _ _ _ _ other ⟨⟩
    exact other rfl
  constructor
  · intro zero
    refine inv.moveTop top [.freeBatch (.ptr b) 0] rfl rfl rfl rfl (fun _ _ _ => .rfl)
      (fun t' height g found named low => (alone t' height g found named low).elim) ?_ notLink ?_
      (fun s' held => absurd held (notPending s')) (States.restage stored rfl)
      (fun _ _ _ => Linked.restage stored rfl) ?_ (inv.tops_below top)
    · intro height g high found
      obtain ⟨rfl, rfl⟩ := frameAt_high_one high found
      exact ⟨⟨b, _, rfl, Function.update_self .., rfl⟩, .inl rfl⟩
    · rintro batch' ⟨⟩
      refine ⟨?_, inv.owners b batch stored⟩
      show batch.linkedNow = 0
      omega
    · intro g member s' used
      simp only [List.mem_singleton] at member
      subst member
      simp [Frame.usesBatch] at used
  · intro positive
    refine inv.moveTop top [] rfl rfl rfl rfl (fun _ _ _ => .rfl)
      (fun t' height g found named low => (alone t' height g found named low).elim)
      (fun height g high found => absurd found (frameAt_high_nil high)) notLink ?_
      (fun s' held => absurd held (notPending s')) (States.restage stored rfl)
      (fun _ _ _ => Linked.restage stored rfl) (by simp)
      ((inv.tops t).suffix ⟨[_], top.symm⟩)
    rintro batch' ⟨⟩
    refine ⟨⟨after, ?_, bound⟩, inv.owners b batch stored⟩
    show batch.released < batch.everLinked
    omega

/-- A decrement before the retirer's addition wraps, and counts as one more release. -/
theorem fetch_sub_count {cfg : Config} {count released : Nat} (small : released + 1 < cfg.modulus)
    (before : count + released = 0 ∨ count + released = cfg.modulus) :
    (count + (cfg.modulus - 1)) % cfg.modulus + (released + 1) = cfg.modulus ∧ count ≠ 1 := by
  refine ⟨?_, by omega⟩
  rcases before with zero | wrapped
  · rw [show count + (cfg.modulus - 1) = cfg.modulus - 1 by omega, Nat.mod_eq_of_lt (by omega)]
    omega
  · rw [show count + (cfg.modulus - 1) = (cfg.modulus - released - 1) + cfg.modulus by omega,
      Nat.add_mod_right, Nat.mod_eq_of_lt (by omega)]
    omega

/-- What a list that is being traversed says about its first entry and that entry's batch. -/
structure Released (cfg : Config) (st : State) (curr : EntryPtr) (entry : Entry) (batch : Batch) :
    Prop where
  stored : st.mem curr.batch = some batch
  found : batch.entries[curr.index]? = some entry
  linked : entry.link = .linked
  owner : entry.batch = curr.batch
  /-- The batch has been committed and its freeing has not begun. -/
  committed : (∃ t height, batch.phase = .retiring t height) ∨ batch.phase = .shared
  /-- Before the addition the count cannot be one. -/
  early : ∀ t height, batch.phase = .retiring t height → batch.active ≠ 1 ∧
    batch.released + 1 < cfg.modulus

/-- Every entry of a list belongs to a committed batch that nobody has started to free. -/
theorem Inv.released (inv : Inv cfg st) (place : Place) {curr : EntryPtr}
    (member : curr ∈ listAt st place) :
    ∃ entry batch, entryIn st.mem curr = some entry ∧ Released cfg st curr entry batch := by
  obtain ⟨entry, read, linked⟩ := inv.lists.listed place curr member
  obtain ⟨batch, stored, found⟩ := exists_of_entryIn read
  have phase := inv.phases curr.batch batch stored
  have positive := Batch.linkedNow_pos found linked
  have total := Batch.everLinked_eq batch
  refine ⟨entry, batch, read, stored, found, linked,
    inv.owners _ batch stored entry (List.mem_of_getElem? found), ?_, ?_⟩
  · cases stage : batch.phase with
    | pending s =>
      -- A pending batch has no linked entry.
      rw [stage] at phase
      have := phase.2.2 curr.index entry (Nat.zero_le _) found
      rw [linked] at this
      cases this
    | retiring t height => exact .inl ⟨t, height, rfl⟩
    | shared => exact .inr rfl
    | freeing t height =>
      rw [stage] at phase
      have : batch.linkedNow = 0 := phase
      omega
  · intro t height stage
    rw [stage] at phase
    obtain ⟨⟨marked, i, active, seen, frame⟩, count⟩ := phase
    obtain ⟨batch₀, stored₀, _, linking⟩ := inv.frames t height _ frame
    obtain rfl : batch = batch₀ := Option.some.inj (stored.symm.trans stored₀)
    have := linking.counted
    have := linking.within
    have := linking.bounded
    have := linking.exact
    have slots := cfg.slots_lt
    omega

/-- Releasing an entry keeps the retirer's bookkeeping. -/
theorem Linking.release {marked i active index count : Nat} {seen : Option (SlotId × Head)}
    {entry : Entry} (linking : Linking cfg batch marked i active seen)
    (found : batch.entries[index]? = some entry) (linked : entry.link = .linked) :
    Linking cfg { batch.setLink index .released with active := count } marked i active seen := by
  have counted := Batch.setLink_released found linked
  refine ⟨by simpa using linking.enough, linking.bounded, linking.within, linking.counted,
    linking.inLoop, linking.exact.trans counted.1.symm, ?_, ?_⟩
  · intro j other after read
    rw [show ({ batch.setLink index .released with active := count } : Batch).entries[j]? =
      (batch.setLink index .released).entries[j]? from rfl, Batch.setLink_get] at read
    obtain ⟨old, readOld, rfl⟩ := Option.map_eq_some_iff.mp read
    have unlinked := linking.fresh j old after readOld
    split
    · -- A linked entry is not among the unlinked ones.
      rename_i same
      subst same
      rw [found] at readOld
      cases readOld
      rw [linked] at unlinked
      cases unlinked
    · exact unlinked
  · intro j low high
    obtain ⟨old, slot, readOld, state⟩ := linking.marks j low high
    refine ⟨_, slot, by
      rw [show ({ batch.setLink index .released with active := count } : Batch).entries[j]? =
        (batch.setLink index .released).entries[j]? from rfl, Batch.setLink_get, readOld]
      rfl, ?_⟩
    split <;> exact state

/-- A call of `traverse` that is about to release the first entry of its list. -/
structure Visit (cfg : Config) (st : State) (t : Tid) (below : List Frame) (curr : EntryPtr)
    (tail : List EntryPtr) (next : Option EntryPtr) (entry : Entry) (batch : Batch) : Prop where
  top : st.stack t = .traverse (some curr) (curr :: tail) :: below
  chain : Chain st.mem next tail
  facts : Released cfg st curr entry batch

variable {curr : EntryPtr} {tail : List EntryPtr} {next : Option EntryPtr} {entry : Entry}

/-- What a call of `traverse` reads is the first entry of its list. -/
theorem Inv.visit {rest : List EntryPtr} (inv : Inv cfg st)
    (top : st.stack t = .traverse (some curr) rest :: below)
    (read : entryIn st.mem curr = some entry) (state : entry.state = .next next)
    (stored : st.mem entry.batch = some batch) :
    entry.batch = curr.batch ∧ ∃ tail, rest = curr :: tail ∧
      Visit cfg st t below curr tail next entry batch := by
  have chain : Chain st.mem (some curr) rest := inv.frames t below.length _ (State.frame_top top)
  -- The chain says what the first entry is, and what follows it.
  cases rest with
  | nil => cases chain
  | cons first tail =>
    obtain ⟨eq, entry₀, next₀, read₀, state₀, chainTail⟩ := chain
    cases eq
    obtain rfl : entry = entry₀ := Option.some.inj (read.symm.trans read₀)
    obtain rfl : next = next₀ := by
      rw [state] at state₀
      exact EntryState.next.inj state₀
    obtain ⟨entry₁, batch₁, read₁, facts⟩ := inv.released (.call t below.length)
      (show curr ∈ _ by simp [listAt, State.frame_top top, Frame.rest])
    obtain rfl : entry = entry₁ := Option.some.inj (read.symm.trans read₁)
    obtain rfl : batch = batch₁ := Option.some.inj (stored.symm.trans (facts.owner ▸ facts.stored))
    exact ⟨facts.owner, tail, rfl, top, chainTail, facts⟩

/-- A committed batch is nobody's local batch. -/
theorem Released.notPending (inv : Inv cfg st) (facts : Released cfg st curr entry batch) (s : SlotId) :
    st.batch s ≠ .ptr curr.batch := by
  intro held
  obtain ⟨other, stored, pending⟩ := inv.slots s curr.batch held
  obtain rfl : batch = other := Option.some.inj (facts.stored.symm.trans stored)
  rcases facts.committed with ⟨_, _, retiring⟩ | shared
  · rw [pending] at retiring
    cases retiring
  · rw [pending] at shared
    cases shared

/-- Only its retirer has a frame that works on a committed batch. -/
theorem Released.link_frame (inv : Inv cfg st) (facts : Released cfg st curr entry batch)
    {t' : Tid} {height : Nat} {g : Frame} (found : st.frame t' height = some g)
    (named : g.batchOf = some curr.batch) :
    ∃ marked i active seen, g = .link curr.batch marked i active seen ∧
      batch.phase = .retiring t' height ∧ Linking cfg batch marked i active seen := by
  cases inv.works_on facts.stored found named with
  | scan held => exact absurd held (facts.notPending inv _)
  | link retiring linking => exact ⟨_, _, _, _, rfl, retiring, linking⟩
  | free freeing =>
    -- A batch is freed when its last entry is released.
    rcases facts.committed with ⟨_, _, retiring⟩ | shared
    · cases freeing.symm.trans retiring
    · cases freeing.symm.trans shared

/-- Releasing an entry writes no union field. -/
theorem States.release {mem : Addr → Option Batch} {batch' : Batch} {index : Nat}
    (stored : mem b = some batch) (same : batch'.entries = (batch.setLink index .released).entries) :
    States mem (Function.update mem b (some batch')) := by
  intro e old readOld _
  rw [entryIn_update]
  split
  · rename_i here
    rw [entryIn_eq (here ▸ stored)] at readOld
    rw [same, Batch.setLink_get, readOld]
    exact ⟨_, rfl, by split <;> rfl⟩
  · exact ⟨old, readOld, rfl⟩

/-- Entries other than the released one stay linked. -/
theorem Visit.linked (inv : Inv cfg st) (visit : Visit cfg st t below curr tail next entry batch)
    {batch' : Batch} (fs : List Frame) {st' : State}
    (memory : st'.mem = Function.update st.mem curr.batch (some batch'))
    (same : batch'.entries = (batch.setLink curr.index .released).entries)
    (stack : st'.stack = Function.update st.stack t (fs ++ below)) (pushed : st'.pushed = st.pushed)
    (new : ∀ height g, below.length ≤ height → frameAt (fs ++ below) height = some g →
      g.rest = [] ∨ (height = below.length ∧ g.rest = tail)) (place : Place) (e : EntryPtr)
    (member : e ∈ listAt st' place) (linked : Linked st.mem e) : Linked st'.mem e := by
  rw [memory]
  have others : ∀ j, j ≠ curr.index → batch'.entries[j]? = batch.entries[j]? := by
    intro j other
    rw [same, Batch.setLink_get]
    simp [Ne.symm other]
  refine Linked.of_ne visit.facts.stored others ?_ linked
  · -- The released entry was only on the list being traversed, and only once.
    rintro rfl
    have here : listAt st (.call t below.length) = curr :: tail := by
      simp [listAt, State.frame_top visit.top, Frame.rest]
    have nodup := inv.lists.nodup (.call t below.length)
    rw [here] at nodup
    have only : ∀ other, curr ∈ listAt st other → other = .call t below.length :=
      fun other there => inv.lists.disjoint other _ curr there (by simp [here])
    cases place with
    | slot s' =>
      have := only (.slot s') (by simpa [listAt, pushed] using member)
      cases this
    | call t' height =>
      simp only [listAt] at member
      cases atFrame : st'.frame t' height with
      | none => simp [atFrame] at member
      | some g =>
        simp only [atFrame] at member
        rcases State.frame_replace fs visit.top stack atFrame with ⟨rfl, high, newFrame⟩ | ⟨old, low⟩
        · rcases new height g high newFrame with empty | ⟨_, isTail⟩
          · simp [empty] at member
          · rw [isTail] at member
            exact (List.nodup_cons.mp nodup).1 member
        · have := only (.call t' height) (by simpa [listAt, old] using member)
          cases this
          exact absurd (low rfl) (by omega)

/-- The rest of a traversed list is as it was after its first entry was released. -/
theorem Visit.frame (inv : Inv cfg st) (visit : Visit cfg st t below curr tail next entry batch)
    {batch' : Batch} {st' : State}
    (memory : st'.mem = Function.update st.mem curr.batch (some batch'))
    (same : batch'.entries = (batch.setLink curr.index .released).entries) :
    NewFrame cfg st' t (.traverse (some curr) (curr :: tail)) below.length below.length
      (.traverse next tail) := by
  refine ⟨?_, .inr ⟨rfl, by simp [Frame.rest]⟩⟩
  show Chain st'.mem next tail
  rw [memory]
  refine Chain.keep (States.release visit.facts.stored same) (fun e member => ?_) visit.chain
  exact inv.lists.listed (.call t below.length) e
    (by simp [listAt, State.frame_top visit.top, Frame.rest, member])

/-- Releasing an entry keeps the owners of a batch. -/
theorem Visit.owners (inv : Inv cfg st) (visit : Visit cfg st t below curr tail next entry batch) :
    ∀ entry' ∈ (batch.setLink curr.index .released).entries, entry'.batch = curr.batch := by
  intro entry' member
  obtain ⟨old, member', eq⟩ := Batch.mem_setLink member
  rw [eq]
  exact inv.owners _ batch visit.facts.stored old member'

/-- A decrement that reads one finds the last linked entry of a counted batch. -/
theorem Visit.last (inv : Inv cfg st) (visit : Visit cfg st t below curr tail next entry batch)
    (one : batch.active = 1) :
    batch.phase = .shared ∧ (batch.setLink curr.index .released).linkedNow = 0 := by
  have counted := Batch.setLink_released visit.facts.found visit.facts.linked
  have total := Batch.everLinked_eq (batch.setLink curr.index .released)
  have shared : batch.phase = .shared := by
    rcases visit.facts.committed with ⟨t', height, retiring⟩ | shared
    · exact absurd one (visit.facts.early t' height retiring).1
    · exact shared
  have phase := inv.phases curr.batch batch visit.facts.stored
  rw [shared] at phase
  obtain ⟨sum, _, _⟩ := phase
  exact ⟨shared, by omega⟩

/-- A turn of `traverse` that reads one starts to free the batch. -/
theorem release_free_inv (inv : Inv cfg st)
    (visit : Visit cfg st t below curr tail next entry batch) (one : batch.active = 1) (count : Nat) :
    Inv cfg ((st.setBatch curr.batch
      { batch.setLink curr.index .released with
        active := count, phase := .freeing t (below.length + 1) }).setStack t
          (.freeBatch (.ptr curr.batch) 0 :: .traverse next tail :: below)) := by
  -- The count was one, so this entry is the last that has not been released.
  obtain ⟨shared, empty⟩ := visit.last inv one
  refine inv.moveTop visit.top [.freeBatch (.ptr curr.batch) 0, .traverse next tail] rfl rfl rfl rfl
    (fun _ _ _ => .rfl) ?_ ?_ (by rintro _ _ _ _ _ _ ⟨⟩) ?_
    (fun s held => absurd held (visit.facts.notPending inv s))
    (States.release visit.facts.stored rfl)
    (visit.linked inv [.freeBatch (.ptr curr.batch) 0, .traverse next tail] rfl rfl rfl rfl ?_)
    ?_ ?_
  · intro t' height g found named _
    obtain ⟨_, _, _, _, _, retiring, _⟩ := visit.facts.link_frame inv found named
    rw [shared] at retiring
    cases retiring
  · intro height g high found
    rcases frameAt_high_two high found with ⟨rfl, rfl⟩ | ⟨rfl, rfl⟩
    · exact visit.frame inv rfl rfl
    · exact ⟨⟨_, _, rfl, Function.update_self .., rfl⟩, .inl rfl⟩
  · rintro batch' ⟨⟩
    exact ⟨empty, visit.owners inv⟩
  · intro height g high found
    rcases frameAt_high_two high found with ⟨rfl, rfl⟩ | ⟨rfl, rfl⟩
    · exact .inr ⟨rfl, rfl⟩
    · exact .inl rfl
  · intro g member s' used
    simp only [List.mem_cons, List.not_mem_nil, or_false] at member
    rcases member with rfl | rfl <;> simp [Frame.usesBatch] at used
  · intro g member
    rcases List.mem_cons.mp member with rfl | lower
    · rfl
    · exact inv.tops_below visit.top g lower

/-- The count after a decrement of a counted batch that did not read one. -/
theorem shared_release_count {cfg : Config} {count released linked : Nat}
    (sum : count + released = linked) (fewer : released < linked) (bound : linked ≤ cfg.slots) :
    (count + (cfg.modulus - 1)) % cfg.modulus + (released + 1) = linked := by
  have slots := cfg.slots_lt
  have modulus : 0 < cfg.modulus := Nat.two_pow_pos _
  rw [show count + (cfg.modulus - 1) = count - 1 + cfg.modulus by omega, Nat.add_mod_right,
    Nat.mod_eq_of_lt (by omega)]
  omega

/-- A turn of `traverse` that does not read one only counts its release. -/
theorem release_count_inv (inv : Inv cfg st)
    (visit : Visit cfg st t below curr tail next entry batch) (more : batch.active ≠ 1) :
    Inv cfg ((st.setBatch curr.batch
      { batch.setLink curr.index .released with
        active := (batch.active + (cfg.modulus - 1)) % cfg.modulus }).setStack t
          (.traverse next tail :: below)) := by
  have counted := Batch.setLink_released visit.facts.found visit.facts.linked
  have phase := inv.phases curr.batch batch visit.facts.stored
  refine inv.moveTop visit.top [.traverse next tail] rfl rfl rfl rfl (fun _ _ _ => .rfl) ?_ ?_
    (by rintro _ _ _ _ _ _ ⟨⟩) ?_ (fun s held => absurd held (visit.facts.notPending inv s))
    (States.release visit.facts.stored rfl)
    (visit.linked inv [.traverse next tail] rfl rfl rfl rfl ?_) ?_ (inv.tops_below visit.top)
  · intro t' height g found named _
    obtain ⟨marked, i, active, seen, rfl, retiring, linking⟩ := visit.facts.link_frame inv found named
    exact ⟨_, Function.update_self .., retiring, linking.release visit.facts.found visit.facts.linked⟩
  · intro height g high found
    obtain ⟨rfl, rfl⟩ := frameAt_high_one high found
    exact visit.frame inv rfl rfl
  · rintro batch' ⟨⟩
    refine ⟨?_, visit.owners inv⟩
    rcases visit.facts.committed with ⟨t', height, retiring⟩ | shared
    · rw [retiring] at phase
      obtain ⟨⟨marked, i, active, seen, frame⟩, count⟩ := phase
      show PhaseOk cfg _ _ _ batch.phase
      rw [retiring]
      refine ⟨⟨marked, i, active, seen, ?_⟩, .inr ?_⟩
      · -- The retirer is another call, since this one is in `traverse`.
        rw [State.frame_setStack]
        split
        · rename_i same
          subst same
          cases (inv.below_leaf visit.top frame rfl).2
        · exact frame
      · show _ % _ + (batch.setLink curr.index .released).released = _
        rw [counted.2]
        exact (fetch_sub_count (visit.facts.early t' height retiring).2 count).1
    · rw [shared] at phase
      obtain ⟨sum, fewer, bound⟩ := phase
      show PhaseOk cfg _ _ _ batch.phase
      rw [shared]
      show _ % _ + (batch.setLink curr.index .released).released =
          (batch.setLink curr.index .released).everLinked ∧
        (batch.setLink curr.index .released).released <
          (batch.setLink curr.index .released).everLinked ∧
        (batch.setLink curr.index .released).everLinked ≤ cfg.slots
      rw [counted.1, counted.2]
      exact ⟨shared_release_count sum fewer bound, by omega, bound⟩
  · intro height g high found
    obtain ⟨rfl, rfl⟩ := frameAt_high_one high found
    exact .inr ⟨rfl, rfl⟩
  · intro g member s' used
    simp only [List.mem_singleton] at member
    subst member
    simp [Frame.usesBatch] at used

end Seize.Raw
