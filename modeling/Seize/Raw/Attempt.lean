import Seize.Raw.Intact
import Seize.Raw.Reserve

/-!
Attempts to retire a batch.

A call of `try_retire` marks one entry for every active slot it sees, gives up when the entries run
out, and otherwise links every marked entry unless its slot has become inactive.
-/

namespace Seize.Raw

variable {cfg : Config} {st st' start : State} {t t' : Tid} {s v : SlotId} {b : Addr}
  {batch batch' : Batch} {action : Action} {below : List Frame}

/-- What a call of `try_retire` observes and does. -/
inductive Deed where
  /-- The marking scan observes a slot that is not `INACTIVE`. -/
  | sees (slot : SlotId)
  /-- The scan is over and the local batch is reset. -/
  | commits
  /-- An entry is linked to its slot. -/
  | links (index : Nat) (slot : SlotId)
  /-- The linking loop observes that the slot of an entry is `INACTIVE`. -/
  | skips (index : Nat) (slot : SlotId)
  /-- A number of links is added to the count. -/
  | counts (links : Nat)
  deriving DecidableEq

/-- A deed that links an entry. -/
def Deed.isLink : Deed → Bool
  | .links .. => true
  | _ => false

/-- What the call at a height of a thread's stack does in a step. -/
def deeds (cfg : Config) (t : Tid) (height : Nat) (st : State) (move : Tid × Action) : List Deed :=
  match move.2, st.stack t with
  | .advance _, .scan _ _ _ cursor _ :: below =>
    if move.1 = t ∧ below.length = height then
      if cursor ≥ cfg.slots then [.commits]
      else if cursor ∉ st.created ∨ st.head cursor = .inactive then []
      else [.sees cursor]
    else []
  | .advance spurious, .link b marked i active seen :: below =>
    if move.1 = t ∧ below.length = height then
      if i ≥ marked then [.counts active]
      else
        match seen with
        | none =>
          match entryIn st.mem ⟨b, i⟩ with
          | some { state := .head (some s), .. } =>
            if st.head s = .inactive then [.skips i s] else []
          | _ => []
        | some (_, .inactive) => []
        | some (s, .list prev) =>
          if st.head s = .list prev ∧ spurious = false then [.links i s]
          else if st.head s = .inactive then [.skips i s] else []
    else []
  | _, _ => []

/-- The run of a call, up to its end, with what the call has done. -/
inductive Attempt (cfg : Config) (allowed : State → Tid × Action → Prop) (t : Tid) (height : Nat)
    (start : State) : List Deed → State → Prop where
  | begins : Attempt cfg allowed t height start [] start
  | goes {st st' : State} {move : Tid × Action} {done : List Deed}
      (before : Attempt cfg allowed t height start done st)
      (running : height < (st.stack t).length) (permitted : allowed st move)
      (stepped : step cfg st move = .ok st') :
      Attempt cfg allowed t height start (done ++ deeds cfg t height st move) st'

/-- An entry without its scratch field. -/
def Entry.erase (entry : Entry) : Entry := { entry with state := .head none }

/-- Each of some slots has an entry that is marked for it, from an index on. -/
def MarkedFor (entries : List Entry) (low : Nat) (seen : List SlotId) : Prop :=
  ∀ (j : Nat) v, low ≤ j → seen[j]? = some v →
    ∃ entry, entries[j]? = some entry ∧ entry.state = .head (some v)

/-- The entry of each index is linked to the slot marked there, or skipped. -/
def Resolves (seen : List SlotId) (resolved : List Deed) : Prop :=
  ∀ (j : Nat) deed, resolved[j]? = some deed →
    ∃ v, seen[j]? = some v ∧ (deed = .links j v ∨ deed = .skips j v)

/-- The indices a linking loop has dealt with. -/
def resolvedUpTo (i : Nat) : Option (SlotId × Head) → Nat
  | some (_, .inactive) => i + 1
  | _ => i

/--
How far a call of `try_retire` has come, and what it has done.

The call works on the batch of a slot, which had some entries when the call began.
-/
inductive Progress (t : Tid) (height : Nat) (s : SlotId) (b : Addr) (es : List Entry) (st : State) :
    List Deed → Prop where
  /-- The scan has seen at most as many slots as there are entries, and has marked one for each. -/
  | scanning {seen : List SlotId} {time cursor : Nat} {batch : Batch}
      (frame : st.frame t height = some (.scan s b time cursor seen.length))
      (enough : seen.length ≤ es.length) (once : seen.Nodup) (passed : ∀ v ∈ seen, v < cursor)
      (held : st.batch s = .ptr b) (stored : st.mem b = some batch) (idle : batch.active = 0)
      (same : batch.entries.map Entry.erase = es.map Entry.erase)
      (marks : MarkedFor batch.entries 0 seen) :
      Progress t height s b es st (seen.map .sees)
  /-- The scan saw more slots than there are entries, and the call left everything as it was. -/
  | aborted {seen : List SlotId} {batch : Batch} (ended : (st.stack t).length = height)
      (many : es.length < seen.length) (held : st.batch s = .ptr b) (stored : st.mem b = some batch)
      (idle : batch.active = 0) (same : batch.entries.map Entry.erase = es.map Entry.erase) :
      Progress t height s b es st (seen.map .sees)
  /-- The call has committed, and has dealt with the first indices in their order. -/
  | linking {seen : List SlotId} {resolved : List Deed} {i active : Nat}
      {loaded : Option (SlotId × Head)} {batch : Batch}
      (frame : st.frame t height = some (.link b seen.length i active loaded))
      (enough : seen.length ≤ es.length) (once : seen.Nodup)
      (far : resolved.length = resolvedUpTo i loaded) (resolves : Resolves seen resolved)
      (counted : active = resolved.countP Deed.isLink) (stored : st.mem b = some batch)
      (marks : MarkedFor batch.entries (if loaded.isSome then i + 1 else i) seen)
      (at_ : ∀ v head, loaded = some (v, head) → seen[i]? = some v) :
      Progress t height s b es st (seen.map .sees ++ .commits :: resolved)
  /-- Every marked slot was dealt with, and the links were added to the count. -/
  | finished {seen : List SlotId} {resolved : List Deed} (enough : seen.length ≤ es.length)
      (once : seen.Nodup) (far : resolved.length = seen.length) (resolves : Resolves seen resolved)
      (rest : ∀ f, st.frame t height = some f → ∃ k, f = .freeBatch (.ptr b) k) :
      Progress t height s b es st (seen.map .sees ++ .commits :: resolved ++
        [.counts (resolved.countP Deed.isLink)])

/-- A slot whose scan is in progress is left alone by the other threads. -/
theorem Move.scan_kept {time cursor marked : Nat} (moved : Move cfg st t' action st')
    (inv : Inv cfg st) (permitted : Disciplined cfg st (t', action)) (other : t' ≠ t)
    (top : st.stack t = .scan s b time cursor marked :: below) : LocalKept st st' s := by
  -- The scan has unique access to the batch of its slot.
  have scans : ∀ f : Frame, f = .scan s b time cursor marked → f.usesBatch s = true := by
    rintro f rfl
    simp [Frame.usesBatch]
  have member : Frame.scan s b time cursor marked ∈ st.stack t := by simp [top]
  have alone : UniqueAccess st t' s → False := by
    intro unique
    have := unique t (Ne.symm other) _ member
    rw [scans _ rfl] at this
    cases this
  refine moved.local_kept inv fun uses => ?_
  cases action with
  | add v p f c =>
    obtain rfl : v = s := Option.some.inj uses
    exact alone permitted.1.2
  | reserve v c =>
    obtain rfl : v = s := Option.some.inj uses
    exact alone permitted.1.2
  | advance spurious =>
    obtain ⟨f, found, used⟩ := Option.bind_eq_some_iff.mp uses
    have mem : f ∈ st.stack t' := List.mem_of_mem_head? found
    have busy : f.usesBatch s = true := by
      cases f with
      | scan v _ _ _ _ =>
        obtain rfl : v = s := Option.some.inj used
        simp [Frame.usesBatch]
      | reclaimAll => rfl
      | reclaimReset => rfl
      | _ => cases used
    exact other (inv.access s t' t f mem _ member busy (scans _ rfl))
  | _ => cases uses

/-- The entries of a batch that are not linked are still there. -/
def UnlinkedKept (batch : Batch) (after : Option Batch) : Prop :=
  ∃ batch', after = some batch' ∧ ∀ (j : Nat) entry, batch.entries[j]? = some entry →
    entry.link = .unlinked → batch'.entries[j]? = some entry

/-- A decrement concerns an entry that is linked. -/
theorem UnlinkedKept.release {i : Nat} {entry : Entry} (found : batch.entries[i]? = some entry)
    (linked : entry.link = .linked)
    (entries : batch'.entries = (batch.setLink i .released).entries) :
    UnlinkedKept batch (some batch') := by
  refine ⟨batch', rfl, fun j other read unlinked => ?_⟩
  have differ : i ≠ j := by
    rintro rfl
    rw [found] at read
    cases read
    rw [linked] at unlinked
    cases unlinked
  rw [entries, Batch.setLink_get, read, Option.map_some, if_neg differ]

/-- What a retirer has not linked yet is left alone by the other threads. -/
theorem Move.unlinked_kept {height : Nat} (moved : Move cfg st t' action st') (inv : Inv cfg st)
    (other : t' ≠ t) (stored : st.mem b = some batch) (phase : batch.phase = .retiring t height) :
    UnlinkedKept batch (st'.mem b) := by
  have plain : ∀ {st₂ : State}, st₂.mem = st.mem → UnlinkedKept batch (st₂.mem b) :=
    fun memory => ⟨batch, by rw [memory, stored], fun _ _ found _ => found⟩
  -- Writes to another batch do not matter.
  have elsewhere : ∀ {st₂ : State} {b' : Addr} {after : Option Batch}, b ≠ b' →
      st₂.mem = Function.update st.mem b' after → UnlinkedKept batch (st₂.mem b) := by
    intro st₂ b' after differ memory
    exact ⟨batch, by rw [memory, Function.update_of_ne differ, stored], fun _ _ found _ => found⟩
  have frame : ∀ {f : Frame} {below : List Frame} {b' : Addr}, st.stack t' = f :: below →
      f.batchOf = some b' → b ≠ b' := by
    rintro f below b' top works rfl
    exact other (inv.link_unique stored phase (State.frame_top top) works).1
  -- The batch is committed, so no slot holds it.
  have pending : ∀ {v : SlotId}, st.batch v ≠ .ptr b := by
    intro v held
    obtain ⟨batch', stored', phase'⟩ := inv.slots v b held
    obtain rfl : batch = batch' := Option.some.inj (stored.symm.trans stored')
    rw [phase] at phase'
    cases phase'
  have prepared : ∀ {v : SlotId} {st₀ st₁ : State}, Prep cfg v st₀ st₁ → st₀.mem = st.mem →
      UnlinkedKept batch (st₁.mem b) := by
    intro v st₀ st₁ prep memory
    obtain ⟨batch', stored', same⟩ := prep.grows.kept b batch (memory ▸ stored)
    exact ⟨batch', stored', fun j entry found _ => same.entries ▸ found⟩
  have pushed : ∀ {v : SlotId} {st₁ st₂ : State} {b' : Addr} {after : Option Batch},
      Prep cfg v { st with nextRid := st.nextRid + 1 } st₁ → st₁.batch v = .ptr b' →
      st₂.mem = Function.update st₁.mem b' after → UnlinkedKept batch (st₂.mem b) := by
    intro v st₁ st₂ b' after prep held memory
    have differ : b ≠ b' := by
      rintro rfl
      rcases prep.held b held with same | free
      · exact pending same
      · rw [show st.mem b = none from free] at stored
        cases stored
    rw [memory, Function.update_of_ne differ]
    exact prepared prep rfl
  -- A decrement may be about this batch, but then about an entry that is linked.
  have released : ∀ {st₂ : State} {b' : Addr} {batch₀ after : Batch} {i : Nat} {entry : Entry},
      st.mem b' = some batch₀ → st₂.mem = Function.update st.mem b' (some after) →
      batch₀.entries[i]? = some entry → entry.link = .linked →
      after.entries = (batch₀.setLink i .released).entries → UnlinkedKept batch (st₂.mem b) := by
    intro st₂ b' batch₀ after i entry stored₀ memory found linked entries
    by_cases here : b = b'
    · subst here
      obtain rfl : batch = batch₀ := Option.some.inj (stored.symm.trans stored₀)
      rw [memory, Function.update_self]
      exact .release found linked entries
    · exact elsewhere here memory
  cases moved with
  | known | create | enter | leaveIdle | leave | refreshIdle | refresh | flushNone | flush
  | reclaimAll | access | ret | panic | skipScan | skipReclaim | pass | abort | load | gone
  | done | invoke | finish | next | reset | takeWrong => exact plain rfl
  | @refused v p f c st₁ _ prep =>
    have kept := prepared prep rfl
    exact kept
  | @immediate v p f c st₁ _ prep =>
    have kept := prepared prep rfl
    exact kept
  | reserve _ prep => exact prepared prep rfl
  | pushed _ prep held => exact pushed prep held rfl
  | filled _ prep held => exact pushed prep held rfl
  | commit top => exact elsewhere (frame top rfl) rfl
  | mark top => exact elsewhere (frame top rfl) rfl
  | addFree top => exact elsewhere (frame top rfl) rfl
  | addShare top => exact elsewhere (frame top rfl) rfl
  | publish top => exact elsewhere (frame top rfl) rfl
  | retry top => exact elsewhere (frame top rfl) rfl
  | dealloc top => exact elsewhere (frame top rfl) rfl
  | take _ _ _ held =>
    refine elsewhere (fun same => ?_) rfl
    subst same
    exact pending held
  | releaseFree top read state stored' =>
    obtain ⟨_, tail, rfl, visit⟩ := inv.visit top read state stored'
    exact released stored' rfl visit.facts.found visit.facts.linked rfl
  | releaseCount top read state stored' =>
    obtain ⟨_, tail, rfl, visit⟩ := inv.visit top read state stored'
    exact released stored' rfl visit.facts.found visit.facts.linked rfl

/-- A call that waits does nothing. -/
theorem deeds_waits {height : Nat} {move : Tid × Action}
    (waits : move.1 ≠ t ∨ height + 1 < (st.stack t).length) : deeds cfg t height st move = [] := by
  -- A call that waits is not on top of its stack.
  have apart : ∀ {f : Frame} {below : List Frame}, st.stack t = f :: below →
      ¬ (move.1 = t ∧ below.length = height) := by
    rintro f below stack ⟨mine, tall⟩
    rcases waits with other | inner
    · exact other mine
    · rw [stack, List.length_cons, tall] at inner
      omega
  unfold deeds
  split
  · rename_i stack
    exact if_neg (apart stack)
  · rename_i stack
    exact if_neg (apart stack)
  · rfl

/-- A scan and a linking loop are the innermost call of their thread. -/
theorem Inv.leaf_top {height : Nat} {f : Frame} (inv : Inv cfg st)
    (found : st.frame t height = some f) (leaf : f.isLeaf = true) :
    ∃ below, st.stack t = f :: below ∧ below.length = height := by
  cases stack : st.stack t with
  | nil => simp [State.frame, stack] at found
  | cons k below =>
    rw [State.frame, stack] at found
    rcases frameAt_cons found with ⟨tall, rfl⟩ | ⟨_, lower⟩
    · exact ⟨below, rfl, tall.symm⟩
    · -- Nothing below the innermost call is a leaf.
      have tops := inv.tops t
      rw [stack] at tops
      rw [tops f (mem_of_frameAt lower)] at leaf
      cases leaf

/-- Writing a union field is writing scratch. -/
theorem Batch.setState_erase (i : Nat) (state : EntryState) :
    (batch.setState i state).entries.map Entry.erase = batch.entries.map Entry.erase := by
  refine List.ext_getElem? fun j => ?_
  rw [List.getElem?_map, List.getElem?_map, Batch.setState_get, Option.map_map]
  congr 1
  funext entry
  by_cases here : i = j
  · simp [here, Entry.erase]
  · simp [here]

/-- The element at an index of a list with one more element. -/
theorem getElem?_concat {α : Type} {l : List α} {x y : α} {j : Nat}
    (found : (l ++ [x])[j]? = some y) :
    (j < l.length ∧ l[j]? = some y) ∨ (j = l.length ∧ y = x) := by
  rcases Nat.lt_trichotomy j l.length with inside | at_ | beyond
  · rw [List.getElem?_append_left inside] at found
    exact .inl ⟨inside, found⟩
  · subst at_
    rw [List.getElem?_append_right (Nat.le_refl _)] at found
    exact .inr ⟨rfl, by simpa using found.symm⟩
  · rw [List.getElem?_append_right (Nat.le_of_lt beyond)] at found
    have := (List.getElem?_eq_some_iff.mp found).1
    simp only [List.length_singleton] at this
    omega

/-- Marking the next entry for the slot that was just seen. -/
theorem MarkedFor.mark {seen : List SlotId} {entry : Entry}
    (marks : MarkedFor batch.entries 0 seen)
    (found : batch.entries[seen.length]? = some entry) :
    MarkedFor (batch.setState seen.length (.head (some v))).entries 0 (seen ++ [v]) := by
  intro j w _ marked
  rcases getElem?_concat marked with ⟨inside, old⟩ | ⟨rfl, rfl⟩
  · obtain ⟨entry', read, state⟩ := marks j w (Nat.zero_le j) old
    have differ : seen.length ≠ j := by omega
    exact ⟨entry', by rw [Batch.setState_get, read, Option.map_some, if_neg differ], state⟩
  · exact ⟨{ entry with state := .head (some w) },
      by rw [Batch.setState_get, found, Option.map_some, if_pos rfl], rfl⟩

/-- The marks of entries that are left alone. -/
theorem MarkedFor.kept {entries entries' : List Entry} {low low' : Nat} {seen : List SlotId}
    (marks : MarkedFor entries low seen) (later : low ≤ low')
    (same : ∀ (j : Nat) entry, low' ≤ j → entries[j]? = some entry → entries'[j]? = some entry) :
    MarkedFor entries' low' seen := by
  intro j v high marked
  obtain ⟨entry, found, state⟩ := marks j v (Nat.le_trans later high) marked
  exact ⟨entry, same j entry high found, state⟩

/-- The next index is dealt with. -/
theorem Resolves.concat {seen : List SlotId} {resolved : List Deed} {deed : Deed} {i : Nat}
    (resolves : Resolves seen resolved) (far : resolved.length = i) (found : seen[i]? = some v)
    (is : deed = .links i v ∨ deed = .skips i v) : Resolves seen (resolved ++ [deed]) := by
  intro j other read
  rcases getElem?_concat read with ⟨_, old⟩ | ⟨at_, rfl⟩
  · exact resolves j other old
  · rw [far] at at_
    subst at_
    exact ⟨v, found, is⟩

/-- The steps that a scan takes itself. -/
theorem scan_own {time cursor marked : Nat}
    (top : st.stack t = .scan s b time cursor marked :: below)
    (ran : step cfg st (t, action) = .ok st') :
    ∃ st₁, st' = tick st₁ ∧
      ((∃ target, action = .skip target ∧ cursor ≤ target ∧
          st₁ = st.setStack t (.scan s b time target marked :: below)) ∨
        ∃ spurious, action = .advance spurious ∧
          scanStep cfg st t below s b time cursor marked = .ok st₁) := by
  obtain ⟨st₁, acted, rfl⟩ := step_acts ran
  refine ⟨st₁, rfl, ?_⟩
  have working : userLevel (st.stack t) = false := by rw [top]; rfl
  -- Inside a scan, a thread can do nothing else.
  cases action with
  | advance spurious =>
    simp only [act, advance, top] at acted
    exact .inr ⟨spurious, rfl, acted⟩
  | skip target =>
    simp only [act, skip, top] at acted
    split at acted
    · rename_i bounds
      cases acted
      exact .inl ⟨target, rfl, bounds.2.1, rfl⟩
    · cases acted
  | ret => simp [act, top] at acted
  | panic => simp [act, top] at acted
  | _ => simp [act, working] at acted

/-- The steps that a linking loop takes itself. -/
theorem link_own {marked i active : Nat} {loaded : Option (SlotId × Head)}
    (top : st.stack t = .link b marked i active loaded :: below)
    (ran : step cfg st (t, action) = .ok st') :
    ∃ st₁ spurious, st' = tick st₁ ∧ action = .advance spurious ∧
      linkStep cfg st t below b marked i active loaded spurious = .ok st₁ := by
  obtain ⟨st₁, acted, rfl⟩ := step_acts ran
  have working : userLevel (st.stack t) = false := by rw [top]; rfl
  -- Nor inside a linking loop.
  cases action with
  | advance spurious =>
    simp only [act, advance, top] at acted
    exact ⟨st₁, spurious, rfl, rfl, acted⟩
  | skip target => simp [act, skip, top] at acted
  | ret => simp [act, top] at acted
  | panic => simp [act, top] at acted
  | _ => simp [act, working] at acted

variable {es : List Entry} {height : Nat}

/-- The next step of a scan makes progress. -/
theorem Progress.scan_step {seen : List SlotId} {time cursor : Nat} {spurious : Bool}
    (top : st.stack t = .scan s b time cursor seen.length :: below)
    (enough : seen.length ≤ es.length) (once : seen.Nodup) (passed : ∀ v ∈ seen, v < cursor)
    (held : st.batch s = .ptr b) (stored : st.mem b = some batch) (idle : batch.active = 0)
    (same : batch.entries.map Entry.erase = es.map Entry.erase)
    (marks : MarkedFor batch.entries 0 seen)
    (ran : scanStep cfg st t below s b time cursor seen.length = .ok st') :
    Progress t below.length s b es (tick st')
      (seen.map .sees ++ deeds cfg t below.length st (t, .advance spurious)) := by
  have size : batch.entries.length = es.length := by
    simpa using congrArg List.length same
  have done : deeds cfg t below.length st (t, .advance spurious) =
      if cursor ≥ cfg.slots then [.commits]
      else if cursor ∉ st.created ∨ st.head cursor = .inactive then [] else [.sees cursor] := by
    simp [deeds, top]
  rw [done]
  simp only [scanStep, stored] at ran
  by_cases ended : cursor ≥ cfg.slots
  · -- The last slot has been passed, and nothing is linked yet.
    rw [if_pos ended] at ran ⊢
    cases ran
    refine .linking (State.frame_top (Function.update_self ..)) enough once rfl ?_ rfl
      (Function.update_self ..) ?_ ?_
    · intro j deed found
      cases found
    · exact marks.kept (Nat.le_refl _) fun j entry _ found => found
    · intro v head loaded
      cases loaded
  · rw [if_neg ended] at ran ⊢
    by_cases quiet : cursor ∉ st.created ∨ st.head cursor = .inactive
    · rw [if_pos quiet] at ran ⊢
      cases ran
      rw [List.append_nil]
      exact .scanning (State.frame_top (Function.update_self ..)) enough once
        (fun v member => Nat.lt_succ_of_lt (passed v member)) held stored idle same marks
    · rw [if_neg quiet] at ran ⊢
      have more : seen.map Deed.sees ++ [.sees cursor] = (seen ++ [cursor]).map .sees := by simp
      rw [more]
      by_cases room : seen.length < batch.entries.length
      · -- One more slot is seen, and there is an entry for it.
        rw [if_pos room] at ran
        cases ran
        have found : batch.entries[seen.length]? = some batch.entries[seen.length] :=
          List.getElem?_eq_getElem room
        have longer : (seen ++ [cursor]).length = seen.length + 1 := by simp
        have frame : ∀ st₂ : State,
            st₂.stack t = .scan s b time (cursor + 1) (seen.length + 1) :: below →
              st₂.frame t below.length =
                some (.scan s b time (cursor + 1) (seen ++ [cursor]).length) := by
          intro st₂ stack
          rw [longer]
          exact State.frame_top stack
        refine .scanning (frame _ (Function.update_self ..)) ?_ ?_ ?_ held (Function.update_self ..)
          idle ?_ (marks.mark found)
        · rw [longer]
          omega
        · refine List.nodup_append.mpr ⟨once, by simp, ?_⟩
          rintro v member w here rfl
          have := passed v member
          rw [List.mem_singleton.mp here] at this
          exact Nat.lt_irrefl _ this
        · intro v member
          rcases List.mem_append.mp member with old | new
          · exact Nat.lt_succ_of_lt (passed v old)
          · rw [List.mem_singleton.mp new]
            exact Nat.lt_succ_self _
        · rw [Batch.setState_erase]
          exact same
      · -- There are fewer entries than slots.
        rw [if_neg room] at ran
        cases ran
        refine .aborted ?_ ?_ held stored idle same
        · simp [tick, State.setStack]
        · rw [List.length_append, List.length_singleton]
          omega

/-- A linking loop has loaded the head of the slot it deals with. -/
theorem Progress.loads {seen : List SlotId} {resolved : List Deed} {i active : Nat} {head : Head}
    (stack : st.stack t = .link b seen.length i active (some (v, head)) :: below)
    (enough : seen.length ≤ es.length) (once : seen.Nodup) (far : resolved.length = i)
    (resolves : Resolves seen resolved) (counted : active = resolved.countP Deed.isLink)
    (stored : st.mem b = some batch) (marks : MarkedFor batch.entries (i + 1) seen)
    (found : seen[i]? = some v) :
    Progress t below.length s b es st (seen.map .sees ++ .commits :: resolved ++
      if head = .inactive then [.skips i v] else []) := by
  have at_ : ∀ w head', some (v, head) = some (w, head') → seen[i]? = some w := by
    rintro w head' same
    cases same
    exact found
  cases head with
  | inactive =>
    -- An inactive slot is dealt with by the observation alone.
    rw [if_pos rfl, List.append_assoc, List.cons_append]
    refine .linking (State.frame_top stack) enough once ?_ (resolves.concat far found (.inr rfl)) ?_
      stored marks at_
    · rw [List.length_append, far]
      rfl
    · rw [List.countP_append, counted]
      rfl
  | list first =>
    rw [if_neg (by simp), List.append_nil]
    exact .linking (State.frame_top stack) enough once far resolves counted stored marks at_

/-- The next step of a linking loop makes progress. -/
theorem Progress.link_step {seen : List SlotId} {resolved : List Deed} {i active : Nat}
    {loaded : Option (SlotId × Head)} {spurious : Bool}
    (top : st.stack t = .link b seen.length i active loaded :: below)
    (enough : seen.length ≤ es.length) (once : seen.Nodup)
    (far : resolved.length = resolvedUpTo i loaded) (resolves : Resolves seen resolved)
    (counted : active = resolved.countP Deed.isLink) (stored : st.mem b = some batch)
    (marks : MarkedFor batch.entries (if loaded.isSome then i + 1 else i) seen)
    (at_ : ∀ v head, loaded = some (v, head) → seen[i]? = some v)
    (linking : Linking cfg batch seen.length i active loaded)
    (ran : linkStep cfg st t below b seen.length i active loaded spurious = .ok st') :
    Progress t below.length s b es (tick st')
      (seen.map .sees ++ .commits :: resolved ++
        deeds cfg t below.length st (t, .advance spurious)) := by
  have read : entryIn st.mem ⟨b, i⟩ = batch.entries[i]? := entryIn_eq stored
  simp only [linkStep, stored] at ran
  by_cases ended : i ≥ seen.length
  · -- Every marked slot has been dealt with.
    have none : loaded = none := by
      cases loaded with
      | none => rfl
      | some pair => exact absurd (linking.inLoop rfl) (by omega)
    subst none
    have done : deeds cfg t below.length st (t, .advance spurious) = [.counts active] := by
      simp [deeds, top, ended]
    have all : resolved.length = seen.length := by
      have := linking.within
      have far : resolved.length = i := far
      omega
    rw [done, counted]
    rw [if_pos ended] at ran
    split at ran
    · cases ran
      refine .finished enough once all resolves fun f found => ⟨0, ?_⟩
      simpa [tick, State.frame, State.setStack] using found.symm
    · cases ran
      refine .finished enough once all resolves fun f found => ?_
      simp only [tick, State.frame, State.setStack, Function.update_self] at found
      exact absurd found (frameAt_high_nil (Nat.le_refl _))
  · rw [if_neg ended] at ran
    have more : i < seen.length := by omega
    cases loaded with
    | none =>
      -- The head of the slot that the entry is marked for is loaded.
      have found : seen[i]? = some seen[i] := List.getElem?_eq_getElem more
      obtain ⟨entry, there, state⟩ := marks i _ (Nat.le_refl i) found
      obtain ⟨ptr, reclaim, state', owner, rid, link⟩ := entry
      cases state
      simp only [there] at ran
      cases ran
      have done : deeds cfg t below.length st (t, .advance spurious) =
          if st.head seen[i] = .inactive then [.skips i seen[i]] else [] := by
        simp [deeds, top, ended, read, there]
      rw [done]
      exact .loads (Function.update_self ..) enough once far resolves counted stored
        (marks.kept (Nat.le_succ i) fun _ _ _ found => found) found
    | some pair =>
      obtain ⟨v, head⟩ := pair
      have found : seen[i]? = some v := at_ v head rfl
      cases head with
      | inactive =>
        -- The index was dealt with when its slot was observed.
        have done : deeds cfg t below.length st (t, .advance spurious) = [] := by
          simp [deeds, top, ended]
        simp only at ran
        cases ran
        rw [done, List.append_nil]
        refine .linking (State.frame_top (Function.update_self ..)) enough once far resolves counted
          stored marks ?_
        intro w head same
        cases same
      | list prev =>
        have done : deeds cfg t below.length st (t, .advance spurious) =
            if st.head v = .list prev ∧ spurious = false then [.links i v]
            else if st.head v = .inactive then [.skips i v] else [] := by
          simp [deeds, top, ended]
        rw [done]
        simp only at ran
        by_cases wins : st.head v = .list prev ∧ spurious = false
        · -- The entry is linked.
          rw [if_pos wins] at ran ⊢
          cases ran
          rw [List.append_assoc, List.cons_append]
          refine .linking (State.frame_top (Function.update_self ..)) enough once ?_
            (resolves.concat far found (.inl rfl)) ?_ (Function.update_self ..) ?_ ?_
          · rw [List.length_append, show resolved.length = i from far]
            rfl
          · rw [List.countP_append, counted]
            rfl
          · refine MarkedFor.kept marks (Nat.le_refl _) fun j entry later there => ?_
            have differ : i ≠ j := by
              have later : i + 1 ≤ j := later
              omega
            simp [Batch.setLink_get, Batch.setState_get, there, differ]
          · intro w head same
            cases same
        · -- The compare-exchange fails, and the loop goes on with the head it saw.
          rw [if_neg wins] at ran ⊢
          cases ran
          refine .loads (Function.update_self ..) enough once far resolves counted
            (Function.update_self ..) ?_ found
          refine MarkedFor.kept marks (Nat.le_refl _) fun j entry later there => ?_
          have differ : i ≠ j := by
            have later : i + 1 ≤ j := later
            omega
          simp [Batch.setState_get, there, differ]

/-- After its addition a call only frees its batch. -/
theorem Move.freeing_kept {f : Frame} (moved : Move cfg st t' action st')
    (rest : ∀ f, st.frame t height = some f → ∃ k, f = .freeBatch (.ptr b) k)
    (running : height < (st.stack t).length) (found : st'.frame t height = some f) :
    ∃ k, f = .freeBatch (.ptr b) k := by
  have still := frameAt_lt found
  obtain ⟨g, was⟩ : ∃ g, st.frame t height = some g := exists_frameAt_of_lt running
  obtain ⟨k, rfl⟩ := rest g was
  by_cases waits : t' ≠ t ∨ height + 1 < (st.stack t).length
  · have same := moved.frame_waits was waits still
    rw [found] at same
    exact ⟨k, Option.some.inj same⟩
  · -- The call of `free_batch` takes a step itself.
    obtain ⟨rfl, short⟩ : t' = t ∧ ¬ height + 1 < (st.stack t).length := by
      simpa [not_or] using waits
    obtain ⟨below, top, tall⟩ := State.frame_innermost was short
    have working : ∀ {p : Prop}, userLevel (st.stack t') = true → p := by
      intro p user
      rw [top] at user
      cases user
    have other : ∀ {g : Frame} {below' : List Frame} {p : Prop}, st.stack t' = g :: below' →
        (∀ batchPtr k, g ≠ .freeBatch batchPtr k) → p := by
      intro g below' p top' different
      rw [top] at top'
      cases top'
      exact absurd rfl (different _ _)
    cases moved with
    | @invoke b' i below' batch entry spurious top' stored here =>
      rw [top] at top'
      cases top'
      rw [State.frame_setStack, if_pos rfl, ← tall, frameAt_cons_of_lt (by simp), frameAt_top] at found
      exact ⟨k + 1, (Option.some.inj found).symm⟩
    | dealloc top' =>
      rw [top] at top'
      cases top'
      simp [State.setStack, tall] at still
    | known user | create user | enter user | leaveIdle user | leave user | refreshIdle user
    | refresh user | refused user | immediate user | pushed user | filled user | reserve user
    | flushNone user | flush user | reclaimAll user | access user => exact working user
    | ret top' | panic top' | skipScan top' | skipReclaim top' | commit top' | pass top'
    | mark top' | abort top' | addFree top' | addShare top' | load top' | gone top'
    | publish top' | retry top' | done top' | releaseFree top' | releaseCount top' | finish top'
    | next top' | take top' | takeWrong top' | reset top' => exact other top' (by simp)

/-- The step lemma: whatever thread takes a step, the call makes progress or waits. -/
theorem Progress.step {done : List Deed} {move : Tid × Action}
    (progress : Progress t height s b es st done) (sound : Sound cfg st)
    (running : height < (st.stack t).length) (permitted : Disciplined cfg st move)
    (stepped : step cfg st move = .ok st') :
    Progress t height s b es st' (done ++ deeds cfg t height st move) := by
  have inv := sound.inv
  obtain ⟨t', action⟩ := move
  by_cases mine : t' = t
  · subst mine
    cases progress with
    | scanning frame enough once passed held stored idle same marks =>
      obtain ⟨below, top, rfl⟩ := inv.leaf_top frame rfl
      obtain ⟨st₁, rfl, ⟨target, rfl, forward, rfl⟩ | ⟨spurious, rfl, ran⟩⟩ := scan_own top stepped
      · -- Absent slots are passed without being looked at.
        have none : deeds cfg t' below.length st (t', .skip target) = [] := rfl
        rw [none, List.append_nil]
        exact .scanning (State.frame_top (Function.update_self ..)) enough once
          (fun v member => Nat.lt_of_lt_of_le (passed v member) forward) held stored idle same marks
      · exact .scan_step top enough once passed held stored idle same marks ran
    | aborted ended => omega
    | linking frame enough once far resolves counted stored marks at_ =>
      obtain ⟨below, top, rfl⟩ := inv.leaf_top frame rfl
      obtain ⟨st₁, spurious, rfl, rfl, ran⟩ := link_own top stepped
      exact .link_step top enough once far resolves counted stored marks at_
        (inv.linking top stored) ran
    | finished enough once far resolves rest =>
      -- A call that frees its batch is neither scanning nor linking.
      have none : deeds cfg t' height st (t', action) = [] := by
        by_cases waits : height + 1 < (st.stack t').length
        · exact deeds_waits (.inr waits)
        · obtain ⟨f, found⟩ : ∃ f, st.frame t' height = some f := exists_frameAt_of_lt running
          obtain ⟨k, rfl⟩ := rest f found
          obtain ⟨below, top, _⟩ := State.frame_innermost found waits
          unfold deeds
          rw [top]
          cases action <;> rfl
      rw [none, List.append_nil]
      obtain ⟨st₁, moved, rfl⟩ := step_move stepped
      exact .finished enough once far resolves fun f found => moved.freeing_kept rest running found
  · rw [deeds_waits (.inl mine), List.append_nil]
    obtain ⟨st₁, moved, rfl⟩ := step_move stepped
    have stack : (tick st₁).stack t = st.stack t := moved.stack_other (Ne.symm mine)
    have kept : ∀ {f : Frame}, st.frame t height = some f → (tick st₁).frame t height = some f := by
      intro f found
      rw [State.frame, stack]
      exact found
    cases progress with
    | scanning frame enough once passed held stored idle same marks =>
      obtain ⟨below, top, rfl⟩ := inv.leaf_top frame rfl
      obtain ⟨batches, _, memory⟩ := moved.scan_kept inv permitted mine top
      exact .scanning (kept frame) enough once passed (batches.trans held) (memory b _ held stored)
        idle same marks
    | aborted ended => omega
    | @linking seen resolved i active loaded batch frame enough once far resolves counted stored
        marks at_ =>
      obtain ⟨other, stored', phase, linking⟩ := inv.frames t height _ frame
      obtain rfl : batch = other := Option.some.inj (stored.symm.trans stored')
      obtain ⟨batch', after, unlinked⟩ := moved.unlinked_kept inv mine stored phase
      refine .linking (kept frame) enough once far resolves counted after ?_ at_
      refine marks.kept (Nat.le_refl _) fun j entry later found => unlinked j entry found ?_
      refine linking.fresh j entry (Nat.le_trans ?_ later) found
      split
      · exact Nat.le_succ i
      · exact Nat.le_refl i
    | finished enough once far resolves rest =>
      refine .finished enough once far resolves fun f found => rest f ?_
      rw [State.frame, stack] at found
      exact found

/-- Attempts are parts of runs. -/
theorem Attempt.run {allowed : State → Tid × Action → Prop} {done : List Deed}
    (attempt : Attempt cfg allowed t height start done st) :
    Reachable (Raw.step cfg) allowed start st := by
  induction attempt with
  | begins => exact .refl
  | goes _ _ permitted stepped ih => exact ih.tail permitted stepped

/-- The run lemma: every attempt makes progress, in every interleaving. -/
theorem Attempt.progress {time : Nat} {done : List Deed}
    (run : Reachable (Raw.step cfg) (Disciplined cfg) State.init start)
    (top : start.stack t = .scan s b time 0 0 :: below) (stored : start.mem b = some batch)
    (attempt : Attempt cfg (Disciplined cfg) t below.length start done st) :
    Progress t below.length s b batch.entries st done := by
  induction attempt with
  | begins =>
    -- At the start nothing has been seen and nothing is marked.
    have inv := (reachable_sound run).inv
    obtain ⟨held, _⟩ := inv.frames t below.length _ (State.frame_top top)
    obtain ⟨other, stored', phase⟩ := inv.slots s b held
    obtain rfl : batch = other := Option.some.inj (stored.symm.trans stored')
    have pending := inv.phases b batch stored
    rw [phase] at pending
    have none : Progress t below.length s b batch.entries start (([] : List SlotId).map .sees) := by
      refine .scanning (State.frame_top top) (Nat.zero_le _) List.nodup_nil ?_ held stored
        pending.2.1 rfl ?_
      · intro v member
        cases member
      · intro j v _ found
        cases found
    exact none
  | goes before running permitted stepped ih =>
    exact ih.step (reachable_sound (run.trans before.run)) running permitted stepped

/-- A step of a thread that writes nothing but the scratch field of the entries of a batch. -/
def OnlyScratch (t : Tid) (b : Addr) (st st' : State) : Prop :=
  ∃ batch frames, st.mem b = some batch ∧ ∃ entries,
    entries.map Entry.erase = batch.entries.map Entry.erase ∧
      st' = tick ((st.setBatch b { batch with entries := entries }).setStack t frames)

/-- A scan writes only scratch, up to the step that commits and resets the local batch. -/
theorem scan_own_scratch {time cursor marked : Nat}
    (top : st.stack t = .scan s b time cursor marked :: below) (stored : st.mem b = some batch)
    (stepped : step cfg st (t, action) = .ok st') :
    (.commits ∉ deeds cfg t below.length st (t, action) ∧ OnlyScratch t b st st') ∨
      (deeds cfg t below.length st (t, action) = [.commits] ∧
        st'.batch = Function.update st.batch s .null ∧ st'.head = st.head ∧
          st'.pushed = st.pushed) := by
  -- A step that only moves the cursor stores the batch unchanged.
  have unwritten : ∀ frames, OnlyScratch t b st (tick (st.setStack t frames)) := by
    intro frames
    refine ⟨batch, frames, stored, batch.entries, rfl, ?_⟩
    have same : st.setBatch b batch = st := by
      simp only [State.setBatch, ← stored, Function.update_eq_self]
    exact congrArg (fun st : State => tick (st.setStack t frames)) same.symm
  obtain ⟨st₁, rfl, ⟨target, rfl, _, rfl⟩ | ⟨spurious, rfl, ran⟩⟩ := scan_own top stepped
  · exact .inl ⟨by simp [deeds], unwritten _⟩
  · simp only [scanStep, stored] at ran
    by_cases ended : cursor ≥ cfg.slots
    · rw [if_pos ended] at ran
      cases ran
      exact .inr ⟨by simp [deeds, top, ended], rfl, rfl, rfl⟩
    · rw [if_neg ended] at ran
      have early : .commits ∉ deeds cfg t below.length st (t, .advance spurious) := by
        simp only [deeds, top, and_self, if_true, if_neg ended]
        split
        · simp
        · simp
      refine .inl ⟨early, ?_⟩
      split at ran
      · cases ran
        exact unwritten _
      · split at ran
        · cases ran
          exact ⟨batch, _, stored, _, Batch.setState_erase _ _, rfl⟩
        · cases ran
          exact unwritten _

/-- The number of entries that wait in the local batch of a slot. -/
def pending (st : State) (s : SlotId) : Nat :=
  match st.batch s with
  | .ptr b =>
    match st.mem b with
    | some batch => batch.entries.length
    | none => 0
  | _ => 0

/-- A slot that holds a batch. -/
theorem pending_ptr (held : st.batch s = .ptr b) (stored : st.mem b = some batch) :
    pending st s = batch.entries.length := by
  simp only [pending, held, stored]

/-- A slot that holds no batch. -/
theorem pending_none (free : ∀ b, st.batch s ≠ .ptr b) : pending st s = 0 := by
  unfold pending
  split
  · rename_i b held
    exact absurd held (free b)
  · rfl

/-- Only `add` on a slot makes the slot's batch longer. -/
theorem Move.pending (moved : Move cfg st t action st') (sound : Sound cfg st)
    (quiet : ∀ p f c, action ≠ .add s p f c) : pending st' s ≤ pending st s := by
  have inv := sound.inv
  by_cases uses : action.uses st t = some s
  · have freed : (∀ b, st'.batch s ≠ .ptr b) → Raw.pending st' s ≤ Raw.pending st s := by
      intro free
      rw [pending_none free]
      exact Nat.zero_le _
    -- A call in progress uses the slot only through its innermost frame.
    have used : ∀ {f : Frame} {below : List Frame} {spurious : Bool}, st.stack t = f :: below →
        action = .advance spurious → f.uses = some s := by
      intro f below spurious top is
      subst is
      simpa [Action.uses, top] using uses
    cases moved with
    | @reserve v c st₁ _ prep =>
      obtain rfl : v = s := Option.some.inj uses
      -- A batch that was there keeps its entries, and a new one is empty.
      cases held' : st'.batch v with
      | ptr b =>
        cases stored' : st'.mem b with
        | none => simp [Raw.pending, held', stored']
        | some batch' =>
          rw [pending_ptr held' stored']
          rcases prep.held b held' with held | free
          · rcases prep.grows.new b batch' stored' with ⟨batch, stored, same⟩ | ⟨_, empty, _⟩
            · exact Nat.le_of_eq (by rw [pending_ptr held stored, same.entries])
            · simp [empty]
          · rcases prep.grows.new b batch' stored' with ⟨batch, stored, _⟩ | ⟨_, empty, _⟩
            · rw [free] at stored
              cases stored
            · simp [empty]
      | null => exact freed (by simp [held'])
      | drop => exact freed (by simp [held'])
    | refused | immediate | pushed | filled =>
      obtain rfl := Option.some.inj uses
      exact absurd rfl (quiet _ _ _)
    | commit top =>
      obtain rfl := Option.some.inj (used top rfl)
      exact freed (by simp [State.setStack, State.setBatch, State.record])
    | @mark v b time cursor marked below batch spurious top stored =>
      obtain rfl := Option.some.inj (used top rfl)
      have held : st.batch v = .ptr b := (inv.frames t below.length _ (State.frame_top top)).1
      -- Marking an entry keeps the number of entries.
      have same : ∀ {st₂ : State} {marked : Batch}, st₂.batch = st.batch →
          st₂.mem b = some marked → marked.entries.length = batch.entries.length →
            Raw.pending st₂ v ≤ Raw.pending st v := by
        intro st₂ marked batches stored' length
        exact Nat.le_of_eq (by
          rw [pending_ptr held stored, pending_ptr (batches ▸ held) stored', length])
      exact same rfl (Function.update_self ..) (Batch.setState_length _)
    | take top =>
      obtain rfl := Option.some.inj (used top rfl)
      exact freed (by simp [State.setStack, State.setBatch, State.record])
    | takeWrong top _ _ held wrong => exact absurd wrong (sound.sentinel.not_wrong inv top held)
    | reset top =>
      obtain rfl := Option.some.inj (used top rfl)
      exact freed (by simp [State.setStack])
    | pass | abort | finish | next => exact Nat.le_refl _
    | addFree top | addShare top | load top | gone top | publish top | retry top | done top
    | releaseFree top | releaseCount top | invoke top | dealloc top => cases used top rfl
    | known | create | enter | leaveIdle | leave | refreshIdle | refresh | flushNone | flush
    | reclaimAll | access | ret | panic | skipScan | skipReclaim => cases uses
  · obtain ⟨batches, _, memory⟩ := moved.local_kept inv uses
    cases held : st.batch s with
    | ptr b =>
      obtain ⟨batch, stored, _⟩ := inv.slots s b held
      have after := pending_ptr (batches.trans held) (memory b batch held stored)
      exact Nat.le_of_eq (after.trans (pending_ptr held stored).symm)
    | null =>
      rw [pending_none (by simp [batches, held])]
      exact Nat.zero_le _
    | drop =>
      rw [pending_none (by simp [batches, held])]
      exact Nat.zero_le _

/-- The slots that the scan of a call has observed as not `INACTIVE`. -/
def seenBy (done : List Deed) : List SlotId :=
  done.filterMap fun
    | .sees v => some v
    | _ => none

/-- A scan has observed what it has seen. -/
theorem seenBy_sees (seen : List SlotId) : seenBy (seen.map .sees) = seen := by
  induction seen with
  | nil => rfl
  | cons v seen ih => simp [seenBy]

/-- Steps of a run in which nobody retires on a slot. -/
def Unretired (cfg : Config) (s : SlotId) (st : State) (move : Tid × Action) : Prop :=
  Disciplined cfg st move ∧ ∀ p f c, move.2 ≠ .add s p f c

/-- An attempt under a stronger permission is one under the weaker. -/
theorem Attempt.mono {allowed permitted : State → Tid × Action → Prop} {done : List Deed}
    (weaker : ∀ st move, allowed st move → permitted st move)
    (attempt : Attempt cfg allowed t height start done st) :
    Attempt cfg permitted t height start done st := by
  induction attempt with
  | begins => exact .begins
  | goes _ running ok stepped ih => exact .goes ih running (weaker _ _ ok) stepped

/-- A call that is over at once does nothing more. -/
theorem Attempt.stays {allowed : State → Tid × Action → Prop} {done : List Deed}
    (attempt : Attempt cfg allowed t height start done st)
    (ended : (start.stack t).length ≤ height) : done = [] ∧ st = start := by
  induction attempt with
  | begins => exact ⟨rfl, rfl⟩
  | goes _ running _ _ ih =>
    obtain ⟨_, rfl⟩ := ih
    omega

/-- A slot whose batch was committed has nothing pending until somebody retires on it. -/
theorem Attempt.committed {time : Nat} {done : List Deed}
    (run : Reachable (Raw.step cfg) (Disciplined cfg) State.init start)
    (top : start.stack t = .scan s b time 0 0 :: below) (stored : start.mem b = some batch)
    (attempt : Attempt cfg (Unretired cfg s) t below.length start done st)
    (committed : .commits ∈ done) : pending st s = 0 := by
  induction attempt with
  | begins => cases committed
  | @goes st st' move done before running permitted stepped ih =>
    have attempt := before.mono fun _ _ (ok : Unretired cfg s _ _) => ok.1
    have sound := reachable_sound (run.trans attempt.run)
    by_cases earlier : .commits ∈ done
    · -- The slot had nothing pending, and only `add` could change that.
      obtain ⟨st₁, moved, rfl⟩ := step_move stepped
      have shorter := moved.pending sound permitted.2
      rw [ih earlier] at shorter
      exact Nat.le_zero.mp shorter
    · -- The call commits now, so it was scanning before.
      have now := (List.mem_append.mp committed).resolve_left earlier
      have progress := attempt.progress run top stored
      obtain ⟨t', action⟩ := move
      by_cases mine : t' = t
      · subst mine
        generalize below.length = height at progress running now
        cases progress with
        | scanning frame enough once passed held stored =>
          obtain ⟨below', top', rfl⟩ := sound.inv.leaf_top frame rfl
          rcases scan_own_scratch top' stored stepped with ⟨still, _⟩ | ⟨_, batches, _⟩
          · exact absurd now still
          · refine pending_none fun b => ?_
            rw [batches, Function.update_self]
            simp
        | aborted ended => omega
        | linking => exact absurd (by simp) earlier
        | finished => exact absurd (by simp) earlier
      · rw [deeds_waits (.inl mine)] at now
        cases now

/-- After a retirement has returned `Ok`, few entries are pending. -/
theorem add_bounded {p : Ptr} {f : Reclaim} {c : Alloc} {done : List Deed} {later : State}
    (run : Reachable (Raw.step cfg) (Disciplined cfg) State.init st)
    (permitted : Disciplined cfg st (t, .add s p f c))
    (stepped : step cfg st (t, .add s p f c) = .ok start)
    (ok : start.log.head? ≠ some (.refused st.nextRid)) (outside : st.batch s ≠ .drop)
    (attempt : Attempt cfg (Unretired cfg s) t (st.stack t).length start done later)
    (returned : (later.stack t).length ≤ (st.stack t).length) :
    pending later s < max 1 (max cfg.batchSize (seenBy done).length) := by
  have run' := run.tail permitted stepped
  obtain ⟨st₁, moved, rfl⟩ := step_move stepped
  cases moved with
  | refused => exact absurd rfl ok
  | immediate _ prep held => exact absurd ((prep.drops s).mp held) outside
  | @pushed _ _ _ _ st₂ b batch user prep held stored small =>
    -- The entry was pushed without an attempt, so the call was over at once.
    have stack : (tick (pushEntry st₂ b batch p f st.nextRid)).stack t = st.stack t :=
      congrFun prep.same.1 t
    obtain ⟨rfl, rfl⟩ := attempt.stays (Nat.le_of_eq (congrArg List.length stack))
    have length : pending (tick (pushEntry st₂ b batch p f st.nextRid)) s =
        batch.entries.length + 1 := by
      have stored' : (tick (pushEntry st₂ b batch p f st.nextRid)).mem b =
          some { batch with entries := batch.entries ++ [newEntry b p f st.nextRid] } :=
        Function.update_self ..
      have held' : (tick (pushEntry st₂ b batch p f st.nextRid)).batch s = .ptr b := held
      rw [pending_ptr held' stored', List.length_append, List.length_singleton]
    rw [length]
    omega
  | @filled _ _ _ _ st₂ b batch user prep held stored large =>
    have stack : (tick ((pushEntry st₂ b batch p f st.nextRid).call t
        (.scan s b st.clock 0 0))).stack t = .scan s b st.clock 0 0 :: st.stack t :=
      (Function.update_self ..).trans (congrArg (List.cons _) (congrFun prep.same.1 t))
    have stored' : (tick ((pushEntry st₂ b batch p f st.nextRid).call t
        (.scan s b st.clock 0 0))).mem b =
          some { batch with entries := batch.entries ++ [newEntry b p f st.nextRid] } :=
      Function.update_self ..
    have progress := (attempt.mono fun _ _ (ok : Unretired cfg s _ _) => ok.1).progress run' stack
      stored'
    have committed := attempt.committed run' stack stored'
    -- The call has returned, so it has aborted or linked everything.
    have gone : ∀ f, later.frame t (st.stack t).length ≠ some f :=
      fun f found => absurd (frameAt_lt found) (by omega)
    generalize (st.stack t).length = height at progress gone
    cases progress with
    | scanning frame => exact absurd frame (gone _)
    | linking frame => exact absurd frame (gone _)
    | @aborted seen final ended many held stored idle same =>
      have size := congrArg List.length same
      rw [List.length_map, List.length_map] at size
      rw [pending_ptr held stored, size, seenBy_sees]
      omega
    | finished =>
      rw [committed (by simp)]
      omega

/-- What a call of `try_retire` does, whatever other threads do, from a state on. -/
structure RetiresExactly (cfg : Config) (st : State) : Prop where
  /-- A call that begins here commits exactly when it sees no more slots than it has entries. -/
  progress : ∀ t s b time below batch, st.stack t = .scan s b time 0 0 :: below →
    st.mem b = some batch → ∀ done later,
      Attempt cfg (Disciplined cfg) t below.length st done later →
        Progress t below.length s b batch.entries later done
  /-- Until it commits it writes only scratch, and when it commits the slot is reset first. -/
  scratch : ∀ t s b time cursor marked below batch action st',
    st.stack t = .scan s b time cursor marked :: below → st.mem b = some batch →
      step cfg st (t, action) = .ok st' →
        (.commits ∉ deeds cfg t below.length st (t, action) ∧ OnlyScratch t b st st') ∨
          (deeds cfg t below.length st (t, action) = [.commits] ∧
            st'.batch = Function.update st.batch s .null ∧ st'.head = st.head ∧
              st'.pushed = st.pushed)
  /-- A retirement that returns `Ok` leaves few entries pending. -/
  bounded : ∀ t s p f c start, Disciplined cfg st (t, .add s p f c) →
    step cfg st (t, .add s p f c) = .ok start →
      start.log.head? ≠ some (.refused st.nextRid) → st.batch s ≠ .drop → ∀ done later,
        Attempt cfg (Unretired cfg s) t (st.stack t).length start done later →
          (later.stack t).length ≤ (st.stack t).length →
            pending later s < max 1 (max cfg.batchSize (seenBy done).length)

/-- A thread retires one object while two slots are active, and its scan begins. -/
def tooFew : List (Tid × Action) :=
  [(1, .create 1), (1, .enter 1), (2, .create 2), (2, .enter 2), (0, .add 0 7 9 (plenty 1))]

end Seize.Raw
