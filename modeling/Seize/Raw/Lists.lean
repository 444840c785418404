import Seize.Raw.Batches

/-! Entering, leaving, refreshing, linking and releasing keep the reservation lists intact. -/

namespace Seize.Raw

variable {cfg : Config} {st : State} {t : Tid} {s : SlotId}

/-- A batch with one entry released keeps every other entry. -/
theorem Linked.of_ne {mem : Addr → Option Batch} {b : Addr} {batch batch' : Batch} {i : Nat}
    {e : EntryPtr} (stored : mem b = some batch)
    (others : ∀ j, j ≠ i → batch'.entries[j]? = batch.entries[j]?) (other : e ≠ ⟨b, i⟩)
    (linked : Linked mem e) : Linked (Function.update mem b (some batch')) e := by
  obtain ⟨entry, found, isLinked⟩ := linked
  refine ⟨entry, ?_, isLinked⟩
  rw [entryIn_update]
  split
  · rename_i same
    -- In the same batch the index must differ.
    have index : e.index ≠ i := by
      intro eq
      exact other (by cases e; simp_all)
    rw [others e.index index, ← entryIn_eq (same ▸ stored), found]
  · exact found

/-- A slot may be marked active or inactive, even over a list, which is then lost. -/
theorem Inv.mark (inv : Inv cfg st) {head : Head} (fresh : head = .inactive ∨ head = .list none)
    {st' : State} (heads : st'.head = Function.update st.head s head)
    (pushed : st'.pushed = Function.update st.pushed s []) (mem : st'.mem = st.mem)
    (batch : st'.batch = st.batch) (stack : st'.stack = st.stack) : Inv cfg st' := by
  have frame : ∀ t height, st'.frame t height = st.frame t height := by
    intro t height
    rw [State.frame, State.frame, stack]
  have empty : st'.pushed s = [] := by rw [pushed, Function.update_self]
  have same : ∀ s', s' ≠ s → st'.pushed s' = st.pushed s' := by
    intro s' other
    rw [pushed, Function.update_of_ne other]
  -- The list of the slot is gone, and every other list is as it was.
  have smaller : ∀ place, (listAt st' place).Sublist (listAt st place) := by
    intro place
    cases place with
    | slot s' =>
      by_cases here : s' = s
      · subst here
        simp [listAt, empty]
      · simp [listAt, same s' here]
    | call t height => simp [listAt, frame]
  refine inv.transfer (fun _ => False) (fun b _ => by rw [mem]) (fun s b _ => by rw [batch])
    (fun t height f found => .inl ⟨frame t height ▸ found, by simp⟩)
    (fun t height b marked i active seen _ found => ⟨marked, i, active, seen, by rw [frame, found]⟩)
    (fun _ _ touch => touch.elim) (fun _ _ touch => touch.elim) (fun _ _ touch => touch.elim)
    (fun e entry found _ => ⟨entry, by rw [mem, found], rfl⟩) ?_ ?_ ?_ ?_ ?_
  · intro s' inactive
    by_cases here : s' = s
    · rw [here, empty]
    · rw [same s' here]
      exact inv.idle s' (by simpa [heads, Function.update_of_ne here] using inactive)
  · intro s' first active
    by_cases here : s' = s
    · subst here
      rw [heads, Function.update_self] at active
      rcases fresh with rfl | rfl
      · cases active
      · cases active
        exact .inr (by rw [empty]; rfl)
    · exact .inl ⟨by simpa [heads, Function.update_of_ne here] using active, same s' here⟩
  · rw [mem]
    exact inv.lists.shrink smaller fun place e member =>
      inv.lists.listed place e ((smaller place).subset member)
  · rw [stack]
    exact inv.access
  · rw [stack]
    exact inv.tops

/-- Swapping a list out of a slot hands it to `traverse`, and leaves the slot without one. -/
theorem Inv.detach (inv : Inv cfg st) {head : Head} {first : Option EntryPtr}
    (active : st.head s = .list first) (fresh : head = .inactive ∨ head = .list none)
    (outside : ∀ f ∈ st.stack t, f.isLeaf = false) {st' : State}
    (heads : st'.head = Function.update st.head s head)
    (pushed : st'.pushed = Function.update st.pushed s []) (mem : st'.mem = st.mem)
    (batch : st'.batch = st.batch)
    (stack : st'.stack = Function.update st.stack t (.traverse first (st.pushed s) :: st.stack t)) :
    Inv cfg st' := by
  have frame : ∀ t' height, st'.frame t' height =
      if t' = t then frameAt (.traverse first (st.pushed s) :: st.stack t) height
      else st.frame t' height := by
    intro t' height
    rw [State.frame, State.frame, stack, Function.update_apply]
    split <;> rfl
  refine inv.transfer (fun _ => False) (fun b _ => by rw [mem]) (fun s b _ => by rw [batch]) ?_ ?_
    (fun _ _ touch => touch.elim) (fun _ _ touch => touch.elim) (fun _ _ touch => touch.elim)
    (fun e entry found _ => ⟨entry, by rw [mem, found], rfl⟩) ?_ ?_ ?_ ?_ ?_
  · intro t' height f found
    rw [frame] at found
    split at found
    · rename_i same
      subst same
      rcases frameAt_cons found with ⟨rfl, rfl⟩ | ⟨_, old⟩
      · -- The detached list is the chain that hung off the head.
        exact .inr (by rw [mem]; exact inv.heads s first active)
      · exact .inl ⟨old, by simp⟩
    · exact .inl ⟨found, by simp⟩
  · intro t' height b marked i count seen _ found
    rw [frame]
    split
    · rename_i same
      subst same
      exact absurd (outside _ (mem_of_frameAt found)) (by simp [Frame.isLeaf])
    · exact ⟨marked, i, count, seen, found⟩
  · intro s' inactive
    rw [pushed]
    by_cases here : s' = s
    · rw [here, Function.update_self]
    · rw [Function.update_of_ne here]
      exact inv.idle s' (by simpa [heads, Function.update_of_ne here] using inactive)
  · intro s' first' active'
    by_cases here : s' = s
    · subst here
      rw [heads, Function.update_self] at active'
      rcases fresh with rfl | rfl
      · cases active'
      · cases active'
        exact .inr (by rw [pushed, Function.update_self]; rfl)
    · exact .inl ⟨by simpa [heads, Function.update_of_ne here] using active',
        by rw [pushed, Function.update_of_ne here]⟩
  · rw [mem]
    refine inv.lists.move (.slot s) (.call t (st.stack t).length) ?_ ?_ ?_
    · simp [listAt, pushed]
    · simp [listAt, frame, Frame.rest]
    · intro place notSlot notCall
      cases place with
      | slot s' =>
        have other : s' ≠ s := fun eq => notSlot (by rw [eq])
        simp [listAt, pushed, Function.update_of_ne other]
      | call t' height =>
        by_cases same : t' = t
        · subst same
          have lower : height ≠ (st.stack t').length := fun eq => notCall (by rw [eq])
          simp only [listAt, frame, if_true, frameAt, if_neg lower]
          rfl
        · simp [listAt, frame, same]
  · rw [stack]
    refine inv.access.update fun f member s' uses => .inl ?_
    rcases List.mem_cons.mp member with rfl | old
    · simp [Frame.usesBatch] at uses
    · exact ⟨f, old, uses⟩
  · intro t'
    rw [stack]
    by_cases same : t' = t
    · subst same
      rw [Function.update_self]
      exact outside
    · rw [Function.update_of_ne same]
      exact inv.tops t'

/-- What a frame that names a batch does with it, and the phase the batch is in. -/
inductive Works (cfg : Config) (st : State) (t : Tid) (height : Nat) (b : Addr) (batch : Batch) :
    Frame → Prop where
  | scan {s : SlotId} {start cursor marked : Nat} (held : st.batch s = .ptr b)
      (phase : batch.phase = .pending s) : Works cfg st t height b batch (.scan s b start cursor marked)
  | link {marked i active : Nat} {seen : Option (SlotId × Head)}
      (phase : batch.phase = .retiring t height) (linking : Linking cfg batch marked i active seen) :
      Works cfg st t height b batch (.link b marked i active seen)
  | free {i : Nat} (phase : batch.phase = .freeing t height) :
      Works cfg st t height b batch (.freeBatch (.ptr b) i)

/-- The batch that a frame names is there, and the frame does one of these with it. -/
theorem Inv.works (inv : Inv cfg st) {b : Addr} {height : Nat} {f : Frame}
    (found : st.frame t height = some f) (named : f.batchOf = some b) :
    ∃ batch, st.mem b = some batch ∧ Works cfg st t height b batch f := by
  have ok := inv.frames t height f found
  cases f with
  | scan s b' start cursor marked =>
    -- A scanned batch is still that of its slot, so it is pending.
    cases named
    obtain ⟨batch, stored, pending⟩ := inv.slots s b ok.1
    exact ⟨batch, stored, .scan ok.1 pending⟩
  | link b' marked i active seen =>
    cases named
    obtain ⟨batch, stored, retiring, linking⟩ := ok
    exact ⟨batch, stored, .link retiring linking⟩
  | freeBatch batchPtr i =>
    obtain ⟨b', batch, rfl, stored, freeing⟩ := ok
    cases named
    exact ⟨batch, stored, .free freeing⟩
  | traverse list rest => cases named
  | reclaimer rid p f => cases named
  | reclaimAll cursor => cases named
  | reclaimReset cursor => cases named

/-- A batch that is known to be there is the one the frame works on. -/
theorem Inv.works_on (inv : Inv cfg st) {b : Addr} {batch : Batch} {height : Nat} {f : Frame}
    (stored : st.mem b = some batch) (found : st.frame t height = some f)
    (named : f.batchOf = some b) : Works cfg st t height b batch f := by
  obtain ⟨other, stored', works⟩ := inv.works found named
  obtain rfl : batch = other := Option.some.inj (stored.symm.trans stored')
  exact works

/-- A frame inside a retirer's own batch is the retirer's. -/
theorem Inv.link_unique (inv : Inv cfg st) {b : Addr} {batch : Batch} {height height' : Nat}
    {t' : Tid} {f : Frame} (stored : st.mem b = some batch) (phase : batch.phase = .retiring t height)
    (found : st.frame t' height' = some f) (named : f.batchOf = some b) :
    t' = t ∧ height' = height := by
  cases inv.works_on stored found named with
  | scan _ pending => cases phase.symm.trans pending
  | link retiring =>
    cases phase.symm.trans retiring
    exact ⟨rfl, rfl⟩
  | free freeing => cases phase.symm.trans freeing

/-- Linking the next entry after the compare-exchange succeeded. -/
theorem Linking.link {batch : Batch} {marked i active : Nat} {seen : SlotId × Head}
    {entry : Entry} {prev : Option EntryPtr} (linking : Linking cfg batch marked i active (some seen))
    (found : batch.entries[i]? = some entry) :
    Linking cfg ((batch.setState i (.next prev)).setLink i .linked) marked (i + 1) (active + 1) none := by
  have fresh : entry.link = .unlinked := linking.fresh i entry (Nat.le_refl i) found
  have read : (batch.setState i (.next prev)).entries[i]? =
      some { entry with state := .next prev } := by simp [Batch.setState_get, found]
  have counted := Batch.setLink_linked (batch.setState i (.next prev)) i read fresh
  refine ⟨by simpa using linking.enough, linking.bounded, linking.inLoop rfl, ?_, by simp, ?_, ?_, ?_⟩
  · have := linking.counted
    omega
  · rw [counted.1, Batch.setState_everLinked, linking.exact]
  · -- Only the entry at the old index changed its status.
    intro j other after readAfter
    simp only [Batch.setLink_get, Batch.setState_get, Option.map_map] at readAfter
    obtain ⟨old, readOld, rfl⟩ := Option.map_eq_some_iff.mp readAfter
    have different : i ≠ j := by omega
    simpa [different] using linking.fresh j old (by omega) readOld
  · intro j low high
    obtain ⟨old, slot, readOld, state⟩ := linking.marks j (by simpa using low) high
    have different : i ≠ j := by simp at low; omega
    exact ⟨old, slot, by simp [Batch.setLink_get, Batch.setState_get, readOld, different], state⟩

/-- Writing the union field of the entry being linked keeps the retirer's bookkeeping. -/
theorem Linking.write {batch : Batch} {marked i active : Nat} {seen seen' : SlotId × Head}
    {state : EntryState} (linking : Linking cfg batch marked i active (some seen)) :
    Linking cfg (batch.setState i state) marked i active (some seen') := by
  refine ⟨by simpa using linking.enough, linking.bounded, linking.within, linking.counted,
    fun _ => linking.inLoop rfl, by simpa using linking.exact, ?_, ?_⟩
  · intro j other after read
    rw [Batch.setState_get] at read
    obtain ⟨old, readOld, rfl⟩ := Option.map_eq_some_iff.mp read
    have := linking.fresh j old after readOld
    split <;> exact this
  · intro j low high
    obtain ⟨old, slot, readOld, marked⟩ := linking.marks j low high
    have different : i ≠ j := by simp at low; omega
    exact ⟨old, slot, by simp [Batch.setState_get, readOld, different], marked⟩

end Seize.Raw
