import Seize.Raw.Lives

/-!
Reservation lists as lock-free stacks.

An entry is linked once in its life and its union field is left alone from then on, so a traversal
visits exactly the entries that were linked since the period began.
-/

namespace Seize.Raw

variable {cfg : Config} {st st' : State} {t : Tid} {s : SlotId} {b : Addr} {batch batch' : Batch}
  {action : Action} {n : Nat}

/-- An entry that was ever linked holds its next pointer. -/
def Entry.NextOk (entry : Entry) : Prop := entry.link ≠ .unlinked → ∃ next, entry.state = .next next

/-- What a step may do to an entry: one that was linked keeps its union field. -/
structure Aged (entry entry' : Entry) : Prop where
  next : entry.NextOk → entry'.NextOk
  kept : entry.link ≠ .unlinked → entry'.link ≠ .unlinked ∧ entry'.state = entry.state

/-- An entry that is left alone. -/
theorem Aged.refl (entry : Entry) : Aged entry entry := ⟨id, fun linked => ⟨linked, rfl⟩⟩

/-- Steps compose. -/
theorem Aged.trans {entry entry' entry'' : Entry} (first : Aged entry entry')
    (second : Aged entry' entry'') : Aged entry entry'' := by
  refine ⟨second.next ∘ first.next, fun linked => ?_⟩
  obtain ⟨linked', same⟩ := first.kept linked
  obtain ⟨linked'', same'⟩ := second.kept linked'
  exact ⟨linked'', same'.trans same⟩

/-- What a step may do at the address of a batch, where names below `n` are taken. -/
inductive AgedAt (n : Nat) : Option Batch → Option Batch → Prop where
  | absent : AgedAt n none none
  /-- The batch was deallocated. -/
  | gone {batch : Batch} : AgedAt n (some batch) none
  /-- The address was handed out for a new batch. -/
  | fresh {batch' : Batch} (new : n ≤ batch'.uid) (nexts : ∀ entry ∈ batch'.entries, entry.NextOk) :
      AgedAt n none (some batch')
  /-- The batch is still there, with its entries and perhaps more of them. -/
  | same {batch batch' : Batch} (uid : batch'.uid = batch.uid)
      (kept : ∀ (i : Nat) entry, batch.entries[i]? = some entry →
        ∃ entry', batch'.entries[i]? = some entry' ∧ Aged entry entry')
      (grown : ∀ (i : Nat) entry', batch'.entries[i]? = some entry' →
        batch.entries[i]? = none → entry'.NextOk) : AgedAt n (some batch) (some batch')

/-- A batch whose entries change one by one. -/
theorem AgedAt.map (uid : batch'.uid = batch.uid) (change : Nat → Entry → Entry)
    (read : ∀ i : Nat, batch'.entries[i]? = (batch.entries[i]?).map (change i))
    (aged : ∀ (i : Nat) entry, batch.entries[i]? = some entry → Aged entry (change i entry)) :
    AgedAt n (some batch) (some batch') := by
  refine .same uid (fun i entry found => ?_) (fun i entry' found none => ?_)
  · exact ⟨change i entry, by rw [read, found]; rfl, aged i entry found⟩
  · -- No entry is added by a change of the entries that are there.
    rw [read, none] at found
    cases found

/-- A batch whose entries are left alone. -/
theorem AgedAt.plain (uid : batch'.uid = batch.uid) (entries : batch'.entries = batch.entries) :
    AgedAt n (some batch) (some batch') :=
  .map uid (fun _ entry => entry) (by simp [entries]) fun _ entry _ => .refl entry

/-- Nothing happens at an address. -/
theorem AgedAt.refl (found : Option Batch) : AgedAt n found found := by
  cases found with
  | none => exact .absent
  | some batch => exact .plain rfl rfl

/-- A change of a batch after the step that may have created it. -/
theorem AgedAt.andThen {found : Option Batch} {m : Nat} {after : Batch}
    (first : AgedAt n found (some batch)) (second : AgedAt m (some batch) (some after)) :
    AgedAt n found (some after) := by
  cases second with
  | same uid kept grown =>
    cases first with
    | fresh new nexts =>
      refine .fresh (uid ▸ new) fun entry' member => ?_
      obtain ⟨i, found'⟩ := List.mem_iff_getElem?.mp member
      -- An entry of the new batch was created with it or pushed to it.
      cases found : batch.entries[i]? with
      | none => exact grown i entry' found' found
      | some entry =>
        obtain ⟨entry'', found'', aged⟩ := kept i entry found
        obtain rfl : entry' = entry'' := Option.some.inj (found'.symm.trans found'')
        exact aged.next (nexts entry (List.mem_of_getElem? found))
    | @same before _ uid' kept' grown' =>
      refine .same (uid.trans uid') (fun i entry found => ?_) (fun i entry'' found'' none => ?_)
      · obtain ⟨entry', found', aged⟩ := kept' i entry found
        obtain ⟨entry'', found'', aged'⟩ := kept i entry' found'
        exact ⟨entry'', found'', aged.trans aged'⟩
      · cases found : batch.entries[i]? with
        | none => exact grown i entry'' found'' found
        | some entry' =>
          obtain ⟨other, foundOther, aged⟩ := kept i entry' found
          obtain rfl : entry'' = other := Option.some.inj (found''.symm.trans foundOther)
          exact aged.next (grown' i entry' found none)

/-- What a step may do to memory. -/
def Ages (st st' : State) : Prop := ∀ b, AgedAt st.nextUid (st.mem b) (st'.mem b)

/-- Memory that is not written. -/
theorem Ages.of_eq (memory : st'.mem = st.mem) : Ages st st' := by
  intro b
  rw [memory]
  exact .refl _

/-- One batch is written. -/
theorem Ages.update {after : Option Batch} (stored : st.mem b = some batch)
    (memory : st'.mem = Function.update st.mem b after)
    (aged : AgedAt st.nextUid (some batch) after) : Ages st st' := by
  intro b'
  rw [memory]
  by_cases here : b' = b
  · subst here
    rw [stored, Function.update_self]
    exact aged
  · rw [Function.update_of_ne here]
    exact .refl _

/-- Writing the union field of an entry that is not linked. -/
theorem AgedAt.write {i : Nat} (state : EntryState) (unlinked : batch.UnlinkedFrom i) :
    AgedAt n (some batch) (some (batch.setState i state)) := by
  refine .map rfl (fun j entry => if i = j then { entry with state := state } else entry)
    (fun j => Batch.setState_get state) fun j entry found => ?_
  by_cases here : i = j
  · subst here
    have fresh := unlinked i entry (Nat.le_refl i) found
    simp only [if_pos]
    exact ⟨fun _ linked => absurd fresh linked, fun linked => absurd fresh linked⟩
  · simp only [if_neg here]
    exact .refl entry

/-- Publishing an entry that is not linked. -/
theorem AgedAt.publish {i : Nat} (prev : Option EntryPtr) (unlinked : batch.UnlinkedFrom i) :
    AgedAt n (some batch) (some ((batch.setState i (.next prev)).setLink i .linked)) := by
  -- Only the entry at the index changes, and it was not linked before.
  refine .map rfl
    (fun j entry => if i = j then { entry with state := .next prev, link := .linked } else entry)
    (fun j => ?_) fun j entry found => ?_
  · rw [Batch.setLink_get, Batch.setState_get, Option.map_map]
    congr 1
    funext entry
    by_cases here : i = j
    · simp [here]
    · simp [here]
  · by_cases here : i = j
    · subst here
      have fresh := unlinked i entry (Nat.le_refl i) found
      simp only [if_pos]
      exact ⟨fun _ _ => ⟨prev, rfl⟩, fun linked => absurd fresh linked⟩
    · simp only [if_neg here]
      exact .refl entry

/-- Releasing a linked entry. -/
theorem AgedAt.release {i : Nat} {entry : Entry} (uid : batch'.uid = batch.uid)
    (entries : batch'.entries = (batch.setLink i .released).entries)
    (found : batch.entries[i]? = some entry) (linked : entry.link = .linked) :
    AgedAt n (some batch) (some batch') := by
  refine .map uid (fun j entry => if i = j then { entry with link := .released } else entry)
    (fun j => by rw [entries]; exact Batch.setLink_get .released) fun j other read => ?_
  by_cases here : i = j
  · subst here
    obtain rfl : entry = other := Option.some.inj (found.symm.trans read)
    simp only [if_pos]
    -- The union field is not part of what a decrement writes.
    exact ⟨fun ok _ => ok (by simp [linked]), fun _ => ⟨by simp, rfl⟩⟩
  · simp only [if_neg here]
    exact .refl other

/-- Pushing an entry to a batch. -/
theorem AgedAt.push (p : Ptr) (f : Reclaim) (rid : Nat) : AgedAt n (some batch)
    (some { batch with entries := batch.entries ++ [newEntry b p f rid] }) := by
  refine .same rfl (fun i entry found => ?_) (fun i entry' found none => ?_)
  · have inside : i < batch.entries.length := (List.getElem?_eq_some_iff.mp found).1
    exact ⟨entry, by rw [List.getElem?_append_left inside, found], .refl entry⟩
  · -- What is new is the pushed entry, and it is not linked.
    rw [List.getElem?_append_right (List.getElem?_eq_none_iff.mp none)] at found
    obtain rfl := List.mem_singleton.mp (List.mem_of_getElem? found)
    exact fun linked => absurd rfl linked

/-- Preparing a slot writes no entry. -/
theorem Prep.ages (prep : Prep cfg s st st') : Ages st st' ∧ st.nextUid ≤ st'.nextUid := by
  induction prep with
  | refl => exact ⟨.of_eq rfl, Nat.le_refl _⟩
  | load _ _ ih => exact ih
  | unboxed _ _ _ ih => exact ih
  | @fresh st₁ b₀ before _ free ih =>
    refine ⟨fun b => ?_, Nat.le_succ_of_le ih.2⟩
    by_cases here : b = b₀
    · subst here
      -- An address that is free now was free at the start.
      have unused : st.mem b = none := by
        cases stored : st.mem b with
        | none => rfl
        | some batch =>
          obtain ⟨batch', stored', _⟩ := before.grows.kept b batch stored
          rw [free] at stored'
          cases stored'
      simp only [State.setBatch, Function.update_self, unused]
      exact .fresh ih.2 (by simp [newBatch])
    · simp only [State.setBatch, Function.update_of_ne here]
      exact ih.1 b
  | @grow st₁ b₀ batch₀ cap _ _ stored _ ih =>
    refine ⟨fun b => ?_, ih.2⟩
    by_cases here : b = b₀
    · subst here
      have before := ih.1 b
      rw [stored] at before
      simp only [State.setBatch, Function.update_self]
      have grown : AgedAt st.nextUid (some batch₀) (some { batch₀ with cap := cap }) :=
        .plain rfl rfl
      exact before.andThen grown
    · simp only [State.setBatch, Function.update_of_ne here]
      exact ih.1 b

/-- Nothing of a batch that a slot still holds has been linked. -/
theorem Inv.local_unlinked (inv : Inv cfg st) (held : st.batch s = .ptr b)
    (stored : st.mem b = some batch) : batch.UnlinkedFrom 0 := by
  obtain ⟨other, stored', phase⟩ := inv.slots s b held
  obtain rfl : batch = other := Option.some.inj (stored.symm.trans stored')
  have ok := inv.phases b batch stored
  rw [phase] at ok
  exact ok.2.2

/-- What the retirer at the top of a stack knows about its batch. -/
theorem Inv.linking {marked i active : Nat} {seen : Option (SlotId × Head)} {below : List Frame}
    (inv : Inv cfg st) (top : st.stack t = .link b marked i active seen :: below)
    (stored : st.mem b = some batch) : Linking cfg batch marked i active seen := by
  obtain ⟨other, stored', _, linking⟩ := inv.frames t below.length _ (State.frame_top top)
  obtain rfl : batch = other := Option.some.inj (stored.symm.trans stored')
  exact linking

/-- Every move lets memory age: linked entries keep their union field. -/
theorem Move.ages (moved : Move cfg st t action st') (sound : Sound cfg st) : Ages st st' := by
  have inv := sound.inv
  have prepared : ∀ {s : SlotId} {st₁ : State},
      Prep cfg s { st with nextRid := st.nextRid + 1 } st₁ → Ages st st₁ :=
    fun prep => prep.ages.1
  -- Pushing an entry comes after the batch was prepared.
  have pushes : ∀ {s : SlotId} {st₁ st₂ : State} {b : Addr} {batch : Batch} {p : Ptr} {f : Reclaim},
      Prep cfg s { st with nextRid := st.nextRid + 1 } st₁ → st₁.mem b = some batch →
      st₂.mem = Function.update st₁.mem b
        (some { batch with entries := batch.entries ++ [newEntry b p f st.nextRid] }) →
      Ages st st₂ := by
    intro s st₁ st₂ b batch p f prep stored memory b'
    have before := prepared prep b'
    rw [memory]
    by_cases here : b' = b
    · subst here
      rw [stored] at before
      rw [Function.update_self]
      exact before.andThen (.push p f st.nextRid (n := st.nextUid))
    · rw [Function.update_of_ne here]
      exact before
  cases moved with
  | known | create | enter | leaveIdle | leave | refreshIdle | refresh | flushNone | flush
  | reclaimAll | access | ret | panic | skipScan | skipReclaim | pass | abort | load | gone
  | done | invoke | finish | next | reset => exact .of_eq rfl
  | refused _ prep => exact fun b => prepared prep b
  | immediate _ prep => exact fun b => prepared prep b
  | reserve _ prep => exact prep.ages.1
  | pushed _ prep _ stored => exact pushes prep stored rfl
  | filled _ prep _ stored => exact pushes prep stored rfl
  | commit _ stored => exact .update stored rfl (.plain rfl rfl)
  | @mark s b start cursor marked below batch spurious top stored =>
    -- A scan writes to a batch that is still pending.
    have held : st.batch s = .ptr b := (inv.frames t below.length _ (State.frame_top top)).1
    have unlinked := inv.local_unlinked held stored
    refine .update stored rfl (.write _ ?_)
    exact fun j entry _ found => unlinked j entry (Nat.zero_le j) found
  | addFree _ stored => exact .update stored rfl (.plain rfl rfl)
  | addShare _ stored => exact .update stored rfl (.plain rfl rfl)
  | publish top stored => exact .update stored rfl (.publish _ (inv.linking top stored).fresh)
  | retry top stored => exact .update stored rfl (.write _ (inv.linking top stored).fresh)
  | releaseFree top read state stored =>
    obtain ⟨_, tail, rfl, visit⟩ := inv.visit top read state stored
    exact .update stored rfl (.release rfl rfl visit.facts.found visit.facts.linked)
  | releaseCount top read state stored =>
    obtain ⟨_, tail, rfl, visit⟩ := inv.visit top read state stored
    exact .update stored rfl (.release rfl rfl visit.facts.found visit.facts.linked)
  | dealloc _ stored => exact .update stored rfl .gone
  | take _ _ _ _ stored => exact .update stored rfl (.plain rfl rfl)
  | takeWrong top _ _ held wrong => exact absurd wrong (sound.sentinel.not_wrong inv top held)

/-- Names are handed out in order. -/
theorem Move.nextUid (moved : Move cfg st t action st') : st.nextUid ≤ st'.nextUid := by
  cases moved with
  | refused _ prep => exact prep.ages.2
  | immediate _ prep => exact prep.ages.2
  | pushed _ prep => exact prep.ages.2
  | filled _ prep => exact prep.ages.2
  | reserve _ prep => exact prep.ages.2
  | _ => exact Nat.le_refl _

/-- Every entry that was linked holds its next pointer. -/
def Nexts (st : State) : Prop :=
  ∀ b batch, st.mem b = some batch → ∀ entry ∈ batch.entries, entry.NextOk

/-- Next pointers stay. -/
theorem Ages.nexts (ages : Ages st st') (nexts : Nexts st) : Nexts st' := by
  intro b batch' stored' entry' member
  have aged := ages b
  rw [stored'] at aged
  obtain ⟨i, found'⟩ := List.mem_iff_getElem?.mp member
  generalize stored : st.mem b = before at aged
  cases aged with
  | fresh _ nexts => exact nexts entry' member
  | @same batch _ _ kept grown =>
    cases found : batch.entries[i]? with
    | none => exact grown i entry' found' found
    | some entry =>
      obtain ⟨entry'', found'', aged⟩ := kept i entry found
      obtain rfl : entry' = entry'' := Option.some.inj (found'.symm.trans found'')
      exact aged.next (nexts b batch stored entry (List.mem_of_getElem? found))

/-- An entry of a batch, known by its name, has been linked at some time. -/
structure Spent (uid : Nat) (e : EntryPtr) (st : State) : Prop where
  named : uid < st.nextUid
  linked : ∀ batch, st.mem e.batch = some batch → batch.uid = uid →
    ∃ entry, batch.entries[e.index]? = some entry ∧ entry.link ≠ .unlinked

/-- An entry that has been linked stays so, even when its address is handed out again. -/
theorem Ages.spent {uid : Nat} {e : EntryPtr} (ages : Ages st st') (later : st.nextUid ≤ st'.nextUid)
    (spent : Spent uid e st) : Spent uid e st' := by
  refine ⟨Nat.lt_of_lt_of_le spent.named later, fun batch' stored' mine => ?_⟩
  have aged := ages e.batch
  rw [stored'] at aged
  generalize stored : st.mem e.batch = before at aged
  cases aged with
  | fresh new =>
    -- A new batch has a new name.
    have := spent.named
    omega
  | @same batch _ uid' kept =>
    obtain ⟨entry, found, linked⟩ := spent.linked batch stored (uid'.symm.trans mine)
    obtain ⟨entry', found', aged⟩ := kept e.index entry found
    exact ⟨entry', found', (aged.kept linked).1⟩

/-- A disciplined run whose slots are entered while they are inactive. -/
def Balanced (cfg : Config) (st : State) (move : Tid × Action) : Prop :=
  Disciplined cfg st move ∧ ∀ s, move.2 = .enter s → st.head s = .inactive

/-- The entry a step links to a slot, if it links one. -/
def linkedBy (s : SlotId) (st st' : State) : List EntryPtr :=
  match st'.head s with
  | .list (some e) => if st.head s = st'.head s then [] else [e]
  | _ => []

/-- What a step can do to the list of a slot. -/
inductive ListMove (s : SlotId) (st st' : State) : Action → Prop where
  | kept {act : Action} (head : st'.head s = st.head s) (pushed : st'.pushed s = st.pushed s) :
      ListMove s st st' act
  | entered (after : st'.head s = .list none) : ListMove s st st' (.enter s)
  | left (after : st'.head s = .inactive) : ListMove s st st' (.leave s)
  | refreshed (after : st'.head s = .list none) : ListMove s st st' (.refresh s)
  /-- An entry that was never linked becomes the first one. -/
  | linked {act : Action} {e : EntryPtr} {prev : Option EntryPtr} {old new : Batch}
      {entry entry' : Entry} (before : st.head s = .list prev)
      (after : st'.head s = .list (some e)) (pushed : st'.pushed s = e :: st.pushed s)
      (stored : st.mem e.batch = some old) (stored' : st'.mem e.batch = some new)
      (uid : new.uid = old.uid) (found : old.entries[e.index]? = some entry)
      (found' : new.entries[e.index]? = some entry') (fresh : entry.link = .unlinked)
      (done : entry'.link = .linked) : ListMove s st st' act

/-- Only an enter, a leave, a refresh and a successful compare-exchange write a head. -/
theorem Move.list (moved : Move cfg st t action st') (inv : Inv cfg st) (s : SlotId) :
    ListMove s st st' action := by
  -- A write to another slot's head leaves this one alone.
  have other : ∀ {s' : SlotId} {head : Head} {pushed : List EntryPtr}, s ≠ s' →
      st'.head = Function.update st.head s' head → st'.pushed = Function.update st.pushed s' pushed →
      ListMove s st st' action := by
    intro s' head pushed different heads lists
    refine .kept ?_ ?_
    · rw [heads, Function.update_of_ne different]
    · rw [lists, Function.update_of_ne different]
  have plain : st'.head = st.head → st'.pushed = st.pushed → ListMove s st st' action :=
    fun heads lists => .kept (by rw [heads]) (by rw [lists])
  cases moved with
  | @enter v =>
    by_cases here : s = v
    · subst here
      exact .entered (Function.update_self ..)
    · exact other here rfl rfl
  | @leaveIdle v =>
    by_cases here : s = v
    · subst here
      exact .left (Function.update_self ..)
    · exact other here rfl rfl
  | @leave v =>
    by_cases here : s = v
    · subst here
      exact .left (Function.update_self ..)
    · exact other here rfl rfl
  | @refreshIdle v =>
    by_cases here : s = v
    · subst here
      exact .refreshed (Function.update_self ..)
    · exact other here rfl rfl
  | @refresh v =>
    by_cases here : s = v
    · subst here
      exact .refreshed (Function.update_self ..)
    · exact other here rfl rfl
  | @publish b marked i active v prev below batch spurious top stored more same =>
    by_cases here : s = v
    · subst here
      have linking := inv.linking top stored
      -- The entry is there because the marks do not exceed the batch.
      have inside : i < batch.entries.length := Nat.lt_of_lt_of_le more linking.enough
      have found : batch.entries[i]? = some batch.entries[i] := List.getElem?_eq_getElem inside
      have fresh := linking.fresh i _ (Nat.le_refl i) found
      have found' : ((batch.setState i (.next prev)).setLink i .linked).entries[i]? =
          some { batch.entries[i] with state := .next prev, link := .linked } := by
        simp [Batch.setLink_get, Batch.setState_get, found]
      exact .linked (e := ⟨b, i⟩) same (Function.update_self ..) (Function.update_self ..) stored
        (Function.update_self ..) rfl found found' fresh rfl
    · exact other here rfl rfl
  | refused _ prep => exact plain prep.same.2.1 prep.same.2.2.1
  | immediate _ prep => exact plain prep.same.2.1 prep.same.2.2.1
  | pushed _ prep => exact plain prep.same.2.1 prep.same.2.2.1
  | filled _ prep => exact plain prep.same.2.1 prep.same.2.2.1
  | reserve _ prep => exact plain prep.same.2.1 prep.same.2.2.1
  | known | create | flushNone | flush | reclaimAll | access | ret | panic | skipScan | skipReclaim
  | commit | pass | mark | abort | addFree | addShare | load | gone | retry | done | releaseFree
  | releaseCount | invoke | dealloc | finish | next | take | takeWrong | reset => exact plain rfl rfl

/-- The first entry of a list is linked. -/
theorem Inv.first_linked {e : EntryPtr} (inv : Inv cfg st) (first : st.head s = .list (some e)) :
    Linked st.mem e := by
  have chain := inv.heads s (some e) first
  have member : e ∈ st.pushed s := by
    cases list : st.pushed s with
    | nil =>
      rw [list] at chain
      cases chain
    | cons e' rest =>
      rw [list] at chain
      cases chain.1
      exact List.mem_cons_self
  exact inv.lists.listed (.slot s) e member

/-- A first entry that was not linked is the one that the step links. -/
theorem linkedBy_new {e : EntryPtr} {entry : Entry} (inv : Inv cfg st)
    (stored : st.mem e.batch = some batch) (found : batch.entries[e.index]? = some entry)
    (fresh : entry.link = .unlinked) (after : st'.head s = .list (some e)) :
    linkedBy s st st' = [e] := by
  -- The old first entry is linked, so it is another one.
  have changed : st.head s ≠ .list (some e) := by
    intro first
    obtain ⟨entry', read, isLinked⟩ := inv.first_linked first
    rw [entryIn_eq stored, found] at read
    cases read
    rw [fresh] at isLinked
    cases isLinked
  simp only [linkedBy, after, if_neg changed]

/-- An entry that a step links was never linked before. -/
theorem ListMove.fresh {e : EntryPtr} (list : ListMove s st st' action)
    (links : e ∈ linkedBy s st st') :
    ∃ old new entry entry', st.mem e.batch = some old ∧ st'.mem e.batch = some new ∧
      new.uid = old.uid ∧ old.entries[e.index]? = some entry ∧
        new.entries[e.index]? = some entry' ∧ entry.link = .unlinked ∧ entry'.link = .linked := by
  cases list with
  | kept head =>
    simp only [linkedBy, head, if_true] at links
    split at links
    · cases links
    · cases links
  | entered after => simp [linkedBy, after] at links
  | left after => simp [linkedBy, after] at links
  | refreshed after => simp [linkedBy, after] at links
  | @linked _ first prev old new entry entry' _ after _ stored stored' uid found found' fresh done =>
    -- The only entry that can be meant is the new first one.
    simp only [linkedBy, after] at links
    split at links
    · cases links
    · obtain rfl := List.mem_singleton.mp links
      exact ⟨old, new, entry, entry', stored, stored', uid, found, found', fresh, done⟩

/-- A period of a slot, with the entries linked to the slot since it was entered or refreshed. -/
inductive Period (cfg : Config) (s : SlotId) : List EntryPtr → State → Prop where
  | begins {st st' : State} {move : Tid × Action}
      (run : Reachable (step cfg) (Balanced cfg) State.init st) (permitted : Balanced cfg st move)
      (stepped : step cfg st move = .ok st') (opens : move.2 = .enter s ∨ move.2 = .refresh s) :
      Period cfg s [] st'
  | goes {st st' : State} {move : Tid × Action} {linked : List EntryPtr}
      (before : Period cfg s linked st) (permitted : Balanced cfg st move)
      (stepped : step cfg st move = .ok st')
      (inside : move.2 ≠ .enter s ∧ move.2 ≠ .leave s ∧ move.2 ≠ .refresh s) :
      Period cfg s (linkedBy s st st' ++ linked) st'

/-- Every state of a period is reached. -/
theorem Period.run {linked : List EntryPtr} (period : Period cfg s linked st) :
    Reachable (step cfg) (Balanced cfg) State.init st := by
  induction period with
  | begins run permitted stepped => exact run.tail permitted stepped
  | goes _ permitted stepped _ ih => exact ih.tail permitted stepped

/-- Balanced runs are sound. -/
theorem balanced_sound (run : Reachable (step cfg) (Balanced cfg) State.init st) : Sound cfg st :=
  reachable_sound (run.mono fun _ _ _ permitted => permitted.1)

/-- Within a period the slot is active, and its list holds what was linked. -/
theorem Period.pushed {linked : List EntryPtr} (period : Period cfg s linked st) :
    st.Active s ∧ st.pushed s = linked := by
  induction period with
  | @begins st st' move run permitted stepped opens =>
    -- An enter and a refresh both leave an empty list.
    obtain ⟨st₁, moved, rfl⟩ := step_move stepped
    obtain ⟨t, action⟩ := move
    have fresh : ∀ {st₂ : State}, st₂.head = Function.update st.head s (.list none) →
        st₂.pushed = Function.update st.pushed s [] → st₂.Active s ∧ st₂.pushed s = [] := by
      intro st₂ heads lists
      rw [State.Active, heads, lists, Function.update_self, Function.update_self]
      exact ⟨by simp, rfl⟩
    simp only at opens moved
    rcases opens with rfl | rfl
    · cases moved with
      | enter => exact fresh rfl rfl
    · cases moved with
      | refreshIdle => exact fresh rfl rfl
      | refresh => exact fresh rfl rfl
  | @goes st st' move linked before permitted stepped inside ih =>
    obtain ⟨st₁, moved, rfl⟩ := step_move stepped
    obtain ⟨t, action⟩ := move
    simp only at inside
    have list := moved.list (balanced_sound before.run).inv s
    obtain ⟨active, held⟩ := ih
    cases list with
    | entered => exact absurd rfl inside.1
    | left => exact absurd rfl inside.2.1
    | refreshed => exact absurd rfl inside.2.2
    | kept head pushed =>
      have none : linkedBy s st (tick st₁) = [] := by
        unfold linkedBy
        split
        · exact if_pos head.symm
        · rfl
      rw [none, List.nil_append]
      exact ⟨by simpa [State.Active, tick, head] using active, pushed.trans held⟩
    | @linked _ e prev old new entry entry' at_ after pushed stored _ _ found _ fresh _ =>
      have one : linkedBy s st (tick st₁) = [e] :=
        linkedBy_new (balanced_sound before.run).inv stored found fresh after
      rw [one]
      refine ⟨?_, by rw [List.singleton_append, ← held]; exact pushed⟩
      intro gone
      exact absurd (after.symm.trans gone) (by simp)

/-- The entry that a step of a call of `traverse` visits. -/
def visit (t : Tid) (height : Nat) (st : State) (move : Tid × Action) : List EntryPtr :=
  match st.stack t with
  | .traverse (some curr) _ :: below => if move.1 = t ∧ below.length = height then [curr] else []
  | _ => []

/-- The run of a call of `traverse`, with the entries it has visited. -/
inductive Walk (cfg : Config) (t : Tid) (height : Nat) (start : State) :
    List EntryPtr → State → Prop where
  | begins : Walk cfg t height start [] start
  | goes {st st' : State} {move : Tid × Action} {visited : List EntryPtr}
      (before : Walk cfg t height start visited st) (running : height < (st.stack t).length)
      (permitted : Balanced cfg st move) (stepped : step cfg st move = .ok st') :
      Walk cfg t height start (visited ++ visit t height st move) st'

/-- Everything a walk does is part of a run. -/
theorem Walk.run {height : Nat} {start : State} {visited : List EntryPtr}
    (walk : Walk cfg t height start visited st)
    (run : Reachable (step cfg) (Balanced cfg) State.init start) :
    Reachable (step cfg) (Balanced cfg) State.init st := by
  induction walk with
  | begins => exact run
  | goes _ _ permitted stepped ih => exact ih.tail permitted stepped

/-- A step of any thread visits the first entry of a detached list, or leaves the list alone. -/
theorem Move.visits {t' : Tid} {height : Nat} {list : Option EntryPtr} {rest : List EntryPtr}
    (moved : Move cfg st t' action st') (inv : Inv cfg st)
    (found : st.frame t height = some (.traverse list rest))
    (running : height < (st'.stack t).length) :
    ∃ list' rest', st'.frame t height = some (.traverse list' rest') ∧
      visit t height st (t', action) ++ rest' = rest := by
  by_cases mine : t' = t
  · subst mine
    by_cases inner : height + 1 < (st.stack t').length
    · -- The call waits for another one that it has started.
      refine ⟨list, rest, moved.frame_below found inner running, ?_⟩
      have silent : visit t' height st (t', action) = [] := by
        unfold visit
        split
        · rename_i curr rest' below stack
          rw [stack, List.length_cons] at inner
          exact if_neg fun both => by omega
        · rfl
      rw [silent, List.nil_append]
    · -- The call is the innermost one.
      obtain ⟨below, top, tall⟩ := State.frame_innermost found inner
      have working : ∀ {p : Prop}, userLevel (st.stack t') = true → p := by
        intro p user
        rw [top] at user
        cases user
      have other : ∀ {k : Frame} {below' : List Frame} {p : Prop}, st.stack t' = k :: below' →
          (∀ list rest, k ≠ .traverse list rest) → p := by
        intro k below' p top' different
        rw [top] at top'
        cases top'
        exact absurd rfl (different _ _)
      cases moved with
      | done top' =>
        -- The call returns, so it is not running any more.
        rw [top] at top'
        cases top'
        simp [State.setStack, tall] at running
      | @releaseFree curr _ _ entry next batch spurious top' read state stored =>
        rw [top] at top'
        cases top'
        obtain ⟨_, tail, rfl, _⟩ := inv.visit top read state stored
        refine ⟨next, tail, ?_, ?_⟩
        · rw [State.frame_setStack, if_pos rfl, ← tall, frameAt_cons_of_lt (by simp), frameAt_top,
            List.tail_cons]
        · simp [visit, top, tall]
      | @releaseCount curr _ _ entry next batch spurious top' read state stored =>
        rw [top] at top'
        cases top'
        obtain ⟨_, tail, rfl, _⟩ := inv.visit top read state stored
        refine ⟨next, tail, ?_, ?_⟩
        · rw [State.frame_setStack, if_pos rfl, ← tall, frameAt_top, List.tail_cons]
        · simp [visit, top, tall]
      | known user | create user | enter user | leaveIdle user | leave user | refreshIdle user
      | refresh user | refused user | immediate user | pushed user | filled user | reserve user
      | flushNone user | flush user | reclaimAll user | access user => exact working user
      | ret top' | panic top' | skipScan top' | skipReclaim top' | commit top' | pass top'
      | mark top' | abort top' | addFree top' | addShare top' | load top' | gone top'
      | publish top' | retry top' | invoke top' | dealloc top' | finish top' | next top'
      | take top' | takeWrong top' | reset top' => exact other top' (by simp)
  · -- Another thread neither sees nor changes the detached list.
    refine ⟨list, rest, ?_, ?_⟩
    · rw [State.frame, moved.stack_other (Ne.symm mine)]
      exact found
    · have silent : visit t height st (t', action) = [] := by
        unfold visit
        split
        · exact if_neg fun both => mine both.1
        · rfl
      rw [silent, List.nil_append]

/-- The run lemma: what was visited and what is left make up the list that was handed over. -/
theorem Walk.exactly {height : Nat} {start : State} {visited handed : List EntryPtr}
    {first : Option EntryPtr} (walk : Walk cfg t height start visited st)
    (run : Reachable (step cfg) (Balanced cfg) State.init start)
    (handing : start.frame t height = some (.traverse first handed))
    (running : height < (st.stack t).length) :
    ∃ list rest, st.frame t height = some (.traverse list rest) ∧ visited ++ rest = handed := by
  induction walk with
  | begins => exact ⟨first, handed, handing, rfl⟩
  | @goes st st' move visited before running' _ stepped ih =>
    obtain ⟨list, rest, found, whole⟩ := ih running'
    obtain ⟨st₁, moved, rfl⟩ := step_move stepped
    obtain ⟨list', rest', found', split⟩ :=
      moved.visits (balanced_sound (before.run run)).inv found running
    exact ⟨list', rest', found', by rw [List.append_assoc, ← whole, ← split]⟩

/-- No entry is linked twice in its life, whoever uses its address afterwards. -/
theorem linked_once {move move' : Tid × Action} {later later' : State} {v : SlotId} {e : EntryPtr}
    (run : Reachable (step cfg) (Balanced cfg) State.init st) (permitted : Balanced cfg st move)
    (stepped : step cfg st move = .ok st') (links : e ∈ linkedBy s st st')
    (stored : st'.mem e.batch = some batch)
    (rest : Reachable (step cfg) (Balanced cfg) st' later)
    (stepped' : step cfg later move' = .ok later') (links' : e ∈ linkedBy v later later')
    (stored' : later'.mem e.batch = some batch') : batch'.uid ≠ batch.uid := by
  intro same
  have run' := run.tail permitted stepped
  -- From its link on, the entry counts as spent under the name of its batch.
  have spent : Spent batch.uid e st' := by
    obtain ⟨st₁, moved, rfl⟩ := step_move stepped
    obtain ⟨old, new, entry, entry', _, stored₁, _, _, found, _, done⟩ :=
      (moved.list (balanced_sound run).inv s).fresh links
    obtain rfl : batch = new := Option.some.inj (stored.symm.trans stored₁)
    have lives := reachable_lives (run'.mono fun _ _ _ permitted => permitted.1)
    refine ⟨lives.named e.batch batch stored, fun other storedOther _ => ?_⟩
    obtain rfl : batch = other := Option.some.inj (stored.symm.trans storedOther)
    exact ⟨entry', found, by simp [done]⟩
  have spentLater : Spent batch.uid e later := by
    refine rest.invariant (Spent batch.uid e) spent ?_
    intro st₁ move₁ st₂ before spent permitted stepped
    obtain ⟨st₃, moved, rfl⟩ := step_move stepped
    have kept := (moved.ages (balanced_sound (run'.trans before))).spent moved.nextUid spent
    exact ⟨kept.named, kept.linked⟩
  -- A second link would need an entry that was never linked.
  obtain ⟨st₁, moved, rfl⟩ := step_move stepped'
  obtain ⟨old, new, entry, entry', storedOld, storedNew, uid, found, _, fresh, _⟩ :=
    (moved.list (balanced_sound (run'.trans rest)).inv v).fresh links'
  obtain rfl : batch' = new := Option.some.inj (stored'.symm.trans storedNew)
  obtain ⟨entry₁, found₁, linked⟩ := spentLater.linked old storedOld (uid.symm.trans same)
  obtain rfl : entry = entry₁ := Option.some.inj (found.symm.trans found₁)
  exact linked fresh

/-- What the reservation lists look like in a state. -/
structure Intact (st : State) : Prop where
  /-- The head of an active slot starts a finite list that ends with null. -/
  heads : ∀ s first, st.head s = .list first → Chain st.mem first (st.pushed s)
  /-- So does the list of a call of `traverse`. -/
  detached : ∀ t height list rest, st.frame t height = some (.traverse list rest) →
    Chain st.mem list rest
  /-- Their entries are linked, and no entry is reached twice. -/
  disjoint : DisjointLists (Linked st.mem) (listAt st)
  /-- What a retirer has still to link is unlinked, on no list, and nobody else's. -/
  linking : ∀ t height b marked i active seen,
    st.frame t height = some (.link b marked i active seen) →
      (∀ j, i ≤ j → ¬ Linked st.mem ⟨b, j⟩ ∧ ∀ place, ⟨b, j⟩ ∉ listAt st place) ∧
        ∀ t' height' marked' i' active' seen',
          st.frame t' height' = some (.link b marked' i' active' seen') →
            t' = t ∧ height' = height
  /-- An entry that was linked holds its next pointer. -/
  nexts : ∀ b batch, st.mem b = some batch → ∀ entry ∈ batch.entries, entry.link ≠ .unlinked →
    ∃ next, entry.state = .next next

/-- Every balanced run keeps the lists intact. -/
theorem reachable_intact (run : Reachable (step cfg) (Balanced cfg) State.init st) : Intact st := by
  have inv := (balanced_sound run).inv
  refine ⟨inv.heads, fun t height list rest found => inv.frames t height _ found, inv.lists, ?_, ?_⟩
  · intro t height b marked i active seen found
    obtain ⟨batch, stored, phase, linking⟩ := inv.frames t height _ found
    -- The entries from the index on have not been linked yet.
    have unlinked : ∀ j, i ≤ j → ¬ Linked st.mem ⟨b, j⟩ := by
      rintro j later ⟨entry, read, linked⟩
      rw [entryIn_eq stored] at read
      rw [linking.fresh j entry later read] at linked
      cases linked
    refine ⟨fun j later => ⟨unlinked j later, fun place member => ?_⟩, ?_⟩
    · exact unlinked j later (inv.lists.listed place _ member)
    · intro t' height' marked' i' active' seen' found'
      exact inv.link_unique stored phase found' rfl
  · refine run.invariant Nexts ?_ ?_
    · intro b batch stored
      cases stored
    · intro st₁ move st₂ before nexts permitted stepped
      obtain ⟨st₃, moved, rfl⟩ := step_move stepped
      exact (moved.ages (balanced_sound before)).nexts nexts

/-- A step writes no union field of an entry that was ever linked. -/
def Unwritten (st st' : State) : Prop :=
  ∀ b batch batch', st.mem b = some batch → st'.mem b = some batch' → ∀ (i : Nat) entry,
    batch.entries[i]? = some entry → entry.link ≠ .unlinked →
      ∃ entry', batch'.entries[i]? = some entry' ∧ entry'.state = entry.state

/-- A thread ends a period: the entries linked in it are visited, each of them once. -/
structure Visited (cfg : Config) (t : Tid) (st st' : State) (linked : List EntryPtr) : Prop where
  once : linked.Nodup
  /-- While the call runs, what it has visited and what it will visit make up the list. -/
  running : ∀ visited later, Walk cfg t (st.stack t).length st' visited later →
    (st.stack t).length < (later.stack t).length → ∃ list rest,
      later.frame t (st.stack t).length = some (.traverse list rest) ∧
        Chain later.mem list rest ∧ visited ++ rest = linked
  /-- When it is about to return, it has visited everything. -/
  returning : ∀ visited later rest below, Walk cfg t (st.stack t).length st' visited later →
    later.stack t = .traverse none rest :: below → below.length = (st.stack t).length →
      visited = linked

/-- The call of `traverse` that ends a period. -/
theorem visited_of_handed {linked : List EntryPtr} {first : Option EntryPtr}
    (run : Reachable (step cfg) (Balanced cfg) State.init st') (once : linked.Nodup)
    (handed : st'.frame t (st.stack t).length = some (.traverse first linked)) :
    Visited cfg t st st' linked := by
  refine ⟨once, fun visited later walk running => ?_, fun visited later rest below walk top tall => ?_⟩
  · obtain ⟨list, rest, found, whole⟩ := walk.exactly run handed running
    exact ⟨list, rest, found, (balanced_sound (walk.run run)).inv.frames t _ _ found, whole⟩
  · have running : (st.stack t).length < (later.stack t).length := by
      rw [top, List.length_cons]
      omega
    obtain ⟨list, rest', found, whole⟩ := walk.exactly run handed running
    have here : later.frame t below.length = some (.traverse none rest) := State.frame_top top
    rw [tall, found] at here
    cases here
    -- A list that ends here has no entries left.
    have chain : Chain later.mem none rest :=
      (balanced_sound (walk.run run)).inv.frames t _ _ found
    cases rest with
    | nil => rw [← whole, List.append_nil]
    | cons e tail => cases chain.1

/-- Reservation lists are intact lock-free stacks, in a state and in what follows it. -/
structure StacksIntact (cfg : Config) (st : State) : Prop where
  lists : Intact st
  unwritten : ∀ move st', Balanced cfg st move → step cfg st move = .ok st' → Unwritten st st'
  /-- An entry that is linked now is not linked again as long as its batch lives. -/
  once : ∀ move st' s e batch, Balanced cfg st move → step cfg st move = .ok st' →
    e ∈ linkedBy s st st' → st'.mem e.batch = some batch →
      ∀ later move' later' v batch', Reachable (step cfg) (Balanced cfg) st' later →
        step cfg later move' = .ok later' → e ∈ linkedBy v later later' →
          later'.mem e.batch = some batch' → batch'.uid ≠ batch.uid
  /-- A leave or refresh hands over exactly what was linked in the period it ends. -/
  visited : ∀ s linked t action st', Period cfg s linked st →
    (action = .leave s ∨ action = .refresh s) → Balanced cfg st (t, action) →
      step cfg st (t, action) = .ok st' → Visited cfg t st st' linked

/-- A run is balanced, decided for one action. -/
def balancedCheck (n : Nat) (st : State) (move : Tid × Action) : Bool :=
  sentinelCheck n st move && enterCheck st move

/-- The check is right. -/
theorem balanced_of_check (within : Within n st) {move : Tid × Action}
    (access : accessCheck cfg n st move = true) (checked : balancedCheck n st move = true) :
    Balanced cfg st move := by
  simp only [balancedCheck, Bool.and_eq_true] at checked
  exact ⟨disciplined_of_check within access checked.1, (contract_of_check within access checked.2).2⟩

/-- Retire one object on a slot while slot 1 is the only one that is active, up to the head load. -/
def retireSeeing (t : Tid) (s : SlotId) (p : Ptr) (addr : Addr) : List (Tid × Action) :=
  [(t, .add s p 9 (plenty addr)), (t, .skip 1), (t, .advance false), (t, .skip (2 ^ 64 - 32)),
    (t, .advance false), (t, .advance false)]

/--
A retirer holds an old head while the batch behind it is freed and its address used again.

Its compare-exchange then succeeds on the new entry at the old address.
-/
def addressReuse : List (Tid × Action) :=
  [(1, .create 1), (1, .enter 1)] ++ retireSeeing 0 0 7 1 ++ [(0, .advance false), (0, .advance false)] ++
    retireSeeing 2 2 6 2 ++
    [(1, .leave 1), (1, .advance false), (1, .advance false), (1, .ret), (1, .advance false),
      (1, .advance false), (1, .enter 1)] ++
    retireSeeing 0 0 8 1 ++ [(0, .advance false), (0, .advance false)] ++ [(2, .advance false)]

end Seize.Raw
