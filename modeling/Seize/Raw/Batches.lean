import Seize.Raw.Stacks

/-! Writes to the entries of a batch, what they count, and what they keep. -/

namespace Seize.Raw

variable {cfg : Config} {st : State}

/-- Storing a batch changes the entries of its own address only. -/
theorem entryIn_update (mem : Addr → Option Batch) (b : Addr) (batch : Batch) (e : EntryPtr) :
    entryIn (Function.update mem b (some batch)) e =
      if e.batch = b then batch.entries[e.index]? else entryIn mem e := by
  by_cases same : e.batch = b
  · simp [entryIn, same]
  · simp [entryIn, same]

/-- An entry of an allocated batch is found at its index. -/
theorem entryIn_eq {mem : Addr → Option Batch} {e : EntryPtr} {batch : Batch}
    (stored : mem e.batch = some batch) : entryIn mem e = batch.entries[e.index]? := by
  simp [entryIn, stored]

/-- An addressed entry belongs to an allocated batch. -/
theorem exists_of_entryIn {mem : Addr → Option Batch} {e : EntryPtr} {entry : Entry}
    (found : entryIn mem e = some entry) :
    ∃ batch, mem e.batch = some batch ∧ batch.entries[e.index]? = some entry := by
  simp only [entryIn] at found
  split at found
  · rename_i batch stored
    exact ⟨batch, stored, found⟩
  · cases found

namespace Batch

variable {batch : Batch} {i j : Nat}

/-- Reading an entry after a union field was written. -/
theorem setState_get (state : EntryState) :
    (batch.setState i state).entries[j]? =
      (batch.entries[j]?).map fun entry => if i = j then { entry with state := state } else entry := by
  simp [setState, List.getElem?_modify]

/-- Reading an entry after its link status changed. -/
theorem setLink_get (link : Link) :
    (batch.setLink i link).entries[j]? =
      (batch.entries[j]?).map fun entry => if i = j then { entry with link := link } else entry := by
  simp [setLink, List.getElem?_modify]

/-- Every entry of a batch whose union fields were written is an old entry up to that field. -/
theorem mem_setState {state : EntryState} {entry : Entry}
    (member : entry ∈ (batch.setState i state).entries) :
    ∃ old ∈ batch.entries, entry.batch = old.batch ∧ entry.link = old.link := by
  obtain ⟨j, found⟩ := List.mem_iff_getElem?.mp member
  rw [setState_get] at found
  obtain ⟨old, read, rfl⟩ := Option.map_eq_some_iff.mp found
  exact ⟨old, List.mem_of_getElem? read, by split <;> rfl, by split <;> rfl⟩

/-- Every entry of a batch with a changed link status is an old entry up to that status. -/
theorem mem_setLink {link : Link} {entry : Entry}
    (member : entry ∈ (batch.setLink i link).entries) :
    ∃ old ∈ batch.entries, entry.batch = old.batch := by
  obtain ⟨j, found⟩ := List.mem_iff_getElem?.mp member
  rw [setLink_get] at found
  obtain ⟨old, read, rfl⟩ := Option.map_eq_some_iff.mp found
  exact ⟨old, List.mem_of_getElem? read, by split <;> rfl⟩

@[simp] theorem setState_length (state : EntryState) :
    (batch.setState i state).entries.length = batch.entries.length := by
  simp [setState]

@[simp] theorem setLink_length (link : Link) :
    (batch.setLink i link).entries.length = batch.entries.length := by
  simp [setLink]

/-- Writing a union field changes no count of links. -/
theorem setState_count (p : Link → Bool) (state : EntryState) :
    (batch.setState i state).entries.countP (fun entry => p entry.link) =
      batch.entries.countP fun entry => p entry.link := by
  cases found : batch.entries[i]? with
  | none => simp [setState, List.modify_eq_self (List.getElem?_eq_none_iff.mp found)]
  | some entry =>
    have moved := countP_modify (fun entry : Entry => p entry.link)
      (fun entry => { entry with state := state }) found
    simpa [setState] using moved

@[simp] theorem setState_everLinked (state : EntryState) :
    (batch.setState i state).everLinked = batch.everLinked :=
  setState_count (· ≠ .unlinked) state

@[simp] theorem setState_released (state : EntryState) :
    (batch.setState i state).released = batch.released :=
  setState_count (· = .released) state

/-- Linking an entry adds one to the entries ever linked, and releases nothing. -/
theorem setLink_linked (batch : Batch) (i : Nat) {entry : Entry} (found : batch.entries[i]? = some entry)
    (fresh : entry.link = .unlinked) :
    (batch.setLink i .linked).everLinked = batch.everLinked + 1 ∧
      (batch.setLink i .linked).released = batch.released := by
  constructor
  · have moved := countP_modify (fun entry : Entry => decide (entry.link ≠ .unlinked))
      (fun entry => { entry with link := .linked }) found
    simpa [setLink, everLinked, fresh] using moved
  · have moved := countP_modify (fun entry : Entry => decide (entry.link = .released))
      (fun entry => { entry with link := .linked }) found
    simpa [setLink, released, fresh] using moved

/-- Releasing a linked entry keeps the entries ever linked and counts one more as released. -/
theorem setLink_released {entry : Entry} (found : batch.entries[i]? = some entry)
    (linked : entry.link = .linked) :
    (batch.setLink i .released).everLinked = batch.everLinked ∧
      (batch.setLink i .released).released = batch.released + 1 := by
  constructor
  · have moved := countP_modify (fun entry : Entry => decide (entry.link ≠ .unlinked))
      (fun entry => { entry with link := .released }) found
    simpa [setLink, everLinked, linked] using moved
  · have moved := countP_modify (fun entry : Entry => decide (entry.link = .released))
      (fun entry => { entry with link := .released }) found
    simpa [setLink, released, linked] using moved

/-- Every entry that was linked is still linked or has been released. -/
theorem everLinked_eq (batch : Batch) : batch.everLinked = batch.linkedNow + batch.released := by
  simp only [everLinked, linkedNow, released]
  induction batch.entries with
  | nil => rfl
  | cons entry rest ih =>
    simp only [List.countP_cons, ih]
    cases entry.link <;> simp <;> omega

/-- A linked entry is counted. -/
theorem linkedNow_pos {entry : Entry} (found : batch.entries[i]? = some entry)
    (linked : entry.link = .linked) : 0 < batch.linkedNow :=
  List.countP_pos_iff.mpr ⟨entry, List.mem_of_getElem? found, by simp [linked]⟩

/-- A batch none of whose entries was linked counts none. -/
theorem UnlinkedFrom.everLinked_zero (fresh : batch.UnlinkedFrom 0) : batch.everLinked = 0 := by
  refine List.countP_eq_zero.mpr fun entry member => ?_
  obtain ⟨j, found⟩ := List.mem_iff_getElem?.mp member
  simp [fresh j entry (Nat.zero_le j) found]

end Batch

/-- After a write to one address, an allocated batch is the one written or one from elsewhere. -/
theorem stored_update {mem : Addr → Option Batch} {b b' : Addr} {after : Option Batch} {batch : Batch}
    (stored : Function.update mem b after b' = some batch) :
    (b' = b ∧ after = some batch) ∨ (b' ≠ b ∧ mem b' = some batch) := by
  by_cases here : b' = b
  · subst here
    rw [Function.update_self] at stored
    exact .inl ⟨rfl, stored⟩
  · rw [Function.update_of_ne here] at stored
    exact .inr ⟨here, stored⟩

/-- The invariant rule for writes to one batch that keep its stage. -/
theorem Inv.rebatch (inv : Inv cfg st) {b : Addr} {batch batch' : Batch}
    (stored : st.mem b = some batch) (samePhase : batch'.phase = batch.phase)
    (links : ∀ (i : Nat) (entry : Entry), batch.entries[i]? = some entry → entry.link = .linked →
      ∃ entry', batch'.entries[i]? = some entry' ∧ entry'.link = .linked ∧ entry'.state = entry.state)
    (owners : ∀ entry ∈ batch'.entries, entry.batch = b)
    (phase : PhaseOk cfg st b batch' batch.phase)
    (frames : ∀ t height f, st.frame t height = some f → f.batchOf = some b →
      FrameOk cfg st.batch (Function.update st.mem b (some batch')) t height f) :
    Inv cfg (st.setBatch b batch') := by
  -- A linked entry stays where it is, with the same union field.
  have linked : ∀ (e : EntryPtr) (entry : Entry), entryIn st.mem e = some entry → entry.link = .linked →
      ∃ entry', entryIn (st.setBatch b batch').mem e = some entry' ∧ entry'.link = .linked ∧
        entry'.state = entry.state := by
    intro e entry found isLinked
    simp only [State.setBatch, entryIn_update]
    split
    · rename_i same
      rw [entryIn_eq (same ▸ stored)] at found
      exact links e.index entry found isLinked
    · exact ⟨entry, found, isLinked, rfl⟩
  refine inv.transfer (· = b) ?_ (fun _ _ _ => .rfl) ?_
    (fun t height b marked i active seen _ found => ⟨marked, i, active, seen, found⟩) ?_ ?_ ?_
    (fun e entry found isLinked => ?_) inv.idle (fun s first active => .inl ⟨active, rfl⟩) ?_
    inv.access inv.tops
  · intro b' other
    simp [State.setBatch, Function.update_of_ne other]
  · intro t height f found
    by_cases same : f.batchOf = some b
    · exact .inr (frames t height f found same)
    · refine .inl ⟨found, fun b' named eq => same (eq ▸ named)⟩
  · rintro b' found rfl stored'
    simp only [State.setBatch, Function.update_self, Option.some.injEq] at stored'
    subst stored'
    rw [samePhase]
    exact PhaseOk.keep (fun s held => held)
      (fun t height marked i active seen found => ⟨marked, i, active, seen, found⟩) phase
  · rintro b' found rfl stored'
    simp only [State.setBatch, Function.update_self, Option.some.injEq] at stored'
    subst stored'
    exact owners
  · rintro s b' rfl held
    obtain ⟨batch₀, stored₀, pending⟩ := inv.slots s b' held
    obtain rfl : batch = batch₀ := Option.some.inj (stored.symm.trans stored₀)
    exact ⟨batch', by simp [State.setBatch], samePhase.trans pending⟩
  · obtain ⟨entry', found', _, state⟩ := linked e entry found isLinked
    exact ⟨entry', found', state⟩
  · refine inv.lists.shrink (fun place => .refl _) fun place e member => ?_
    obtain ⟨entry, found, isLinked⟩ := inv.lists.listed place e member
    obtain ⟨entry', found', isLinked', _⟩ := linked e entry found isLinked
    exact ⟨entry', found', isLinked'⟩

end Seize.Raw
