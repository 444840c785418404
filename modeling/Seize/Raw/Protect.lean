import Seize.Raw.Grace
import Seize.Raw.Objects
import Seize.Raw.Check

/-!
What a slot loads from a shared cell stays valid for the rest of its activity period.

This rests on the grace periods, and on callers who unlink an object before they retire it.
-/

namespace Seize.Raw

variable {cfg : Config} {st st' : State} {t : Tid} {action : Action} {b : Addr} {batch : Batch}

/-- A pointer has been retired. -/
def Retired (st : State) (p : Ptr) : Prop := ∃ rid f, Event.retired rid p f ∈ st.log

/-- An active slot has loaded a pointer in its current period. -/
def Protects (st : State) (v : SlotId) (p : Ptr) : Prop := st.Active v ∧ p ∈ st.protect v

/-- The pointer that an access may leave in a cell. -/
def CellOp.writes : CellOp → Option Ptr
  | .load => none
  | .swap value => value
  | .compareExchange _ new _ => new

/-- A pointer is in no cell when it is retired, and is never put into one afterwards. -/
def Unlinks (st : State) (move : Tid × Action) : Prop :=
  match move.2 with
  | .add _ p _ _ => ∀ x, st.cells x ≠ some p
  | .access _ _ op => ∀ p, op.writes = some p → ¬ Retired st p
  | _ => True

/-- The contract, the rule for shared cells, and no call of `reclaim_all`. -/
def Careful (cfg : Config) (st : State) (move : Tid × Action) : Prop :=
  Ordinary cfg st move ∧ Unlinks st move

/-- No protected pointer can have been reclaimed, or can be before the period ends. -/
structure Shielded (st : State) : Prop where
  unlinked : ∀ p, Retired st p → ∀ x, st.cells x ≠ some p
  stored : ∀ e object, objectAt st.mem e = some object → Retired st object.ptr
  logged : ∀ rid p f scanned, Event.reclaimed rid p f scanned ∈ st.log → Retired st p
  /-- A scan of the batch of a protected object began after the period. -/
  scans : ∀ t height s start cursor marked e object v,
    st.frame t height = some (.scan s e.batch start cursor marked) →
      objectAt st.mem e = some object → Protects st v object.ptr → st.since v < start
  /-- So did the scan that committed its batch. -/
  scanned : ∀ e batch time object v, st.mem e.batch = some batch → batch.scanned = some time →
    objectAt st.mem e = some object → Protects st v object.ptr → st.since v < time
  unreclaimed : ∀ rid p f scanned v, Event.reclaimed rid p f scanned ∈ st.log → ¬ Protects st v p

/-- Only guarded accesses protect more pointers, and a period protects what it loaded itself. -/
theorem Move.protects (moved : Move cfg st t action st') (other : ∀ s x op, action ≠ .access s x op)
    {v : SlotId} {p : Ptr} (protects : Protects st' v p) :
    Protects st v p ∧ st'.since v = st.since v := by
  have same : ∀ {st₂ : State}, st₂.head = st.head → st₂.protect = st.protect → st₂.since = st.since →
      Protects st₂ v p → Protects st v p ∧ st₂.since v = st.since v := by
    intro st₂ head protect since holds
    refine ⟨?_, by rw [since]⟩
    simpa [Protects, State.Active, head, protect] using holds
  -- A slot whose period begins or ends protects nothing.
  have reset : ∀ {s : SlotId} {head : Head} {st₂ : State}, st₂.head = Function.update st.head s head →
      st₂.protect = Function.update st.protect s [] → (∀ v, v ≠ s → st₂.since v = st.since v) →
      Protects st₂ v p → Protects st v p ∧ st₂.since v = st.since v := by
    intro s head st₂ heads protect since holds
    by_cases here : v = s
    · subst here
      simp [Protects, protect] at holds
    · refine ⟨?_, since v here⟩
      simpa [Protects, State.Active, heads, protect, Function.update_of_ne here] using holds
  have prepared : ∀ {s : SlotId} {st₀ st₁ st₂ : State}, Prep cfg s st₀ st₁ → st₀.head = st.head →
      st₀.protect = st.protect → st₀.since = st.since → st₂.head = st₁.head →
      st₂.protect = st₁.protect → st₂.since = st₁.since → Protects st₂ v p →
      Protects st v p ∧ st₂.since v = st.since v := by
    intro s st₀ st₁ st₂ prep head₀ protect₀ since₀ head₂ protect₂ since₂ holds
    obtain ⟨_, head, _, _, since, protect, _⟩ := prep.same
    exact same (head₂.trans (head.trans head₀)) (protect₂.trans (protect.trans protect₀))
      (since₂.trans (since.trans since₀)) holds
  cases moved with
  | access => exact absurd rfl (other _ _ _)
  | enter => exact reset rfl rfl (fun _ other => Function.update_of_ne other _ _) protects
  | leaveIdle => exact reset rfl rfl (fun _ _ => rfl) protects
  | leave => exact reset rfl rfl (fun _ _ => rfl) protects
  | refreshIdle => exact reset rfl rfl (fun _ other => Function.update_of_ne other _ _) protects
  | refresh => exact reset rfl rfl (fun _ other => Function.update_of_ne other _ _) protects
  | refused _ prep => exact prepared prep rfl rfl rfl rfl rfl rfl protects
  | immediate _ prep => exact prepared prep rfl rfl rfl rfl rfl rfl protects
  | pushed _ prep => exact prepared prep rfl rfl rfl rfl rfl rfl protects
  | filled _ prep => exact prepared prep rfl rfl rfl rfl rfl rfl protects
  | reserve _ prep => exact prepared prep rfl rfl rfl rfl rfl rfl protects
  | @publish b marked i active s prev below batch spurious top stored more active_ =>
    refine ⟨⟨?_, protects.2⟩, rfl⟩
    by_cases here : v = s
    · subst here
      simp [State.Active, active_]
    · have now := protects.1
      simpa [State.Active, State.setStack, State.setBatch, Function.update_of_ne here] using now
  | known | create | flushNone | flush | reclaimAll | ret | panic | skipScan | skipReclaim | commit
  | pass | mark | abort | addFree | addShare | load | gone | retry | done | releaseFree
  | releaseCount | invoke | dealloc | finish | next | take | takeWrong | reset =>
    exact same rfl rfl rfl protects

/-- A scan that is in progress after a move was in progress before, or begins with it. -/
theorem Move.scans (moved : Move cfg st t action st') {t' : Tid} {height : Nat} {s : SlotId}
    {start cursor marked : Nat} (found : st'.frame t' height = some (.scan s b start cursor marked)) :
    (∃ cursor marked, st.frame t' height = some (.scan s b start cursor marked)) ∨
      start = st.clock := by
  have stay : ∀ {st₂ : State}, st₂.stack = st.stack →
      st₂.frame t' height = some (.scan s b start cursor marked) →
      (∃ cursor marked, st.frame t' height = some (.scan s b start cursor marked)) ∨
        start = st.clock := by
    intro st₂ stack found
    rw [State.frame, stack] at found
    exact .inl ⟨cursor, marked, found⟩
  have called : ∀ {f : Frame} {st₂ : State},
      st₂.stack = Function.update st.stack t (f :: st.stack t) →
      (∀ s b start cursor marked, f = .scan s b start cursor marked → start = st.clock) →
      st₂.frame t' height = some (.scan s b start cursor marked) →
      (∃ cursor marked, st.frame t' height = some (.scan s b start cursor marked)) ∨
        start = st.clock := by
    intro f st₂ stack new found
    rcases State.frame_call stack found with ⟨_, _, eq⟩ | old
    · exact .inr (new _ _ _ _ _ eq.symm)
    · exact .inl ⟨cursor, marked, old⟩
  have stepped : ∀ {f : Frame} (fs : List Frame) {below : List Frame} {st₂ : State},
      st.stack t = f :: below → st₂.stack = Function.update st.stack t (fs ++ below) →
      (∀ s b start cursor marked, .scan s b start cursor marked ∈ fs → fs.length = 1 ∧
        ∃ cursor marked, f = .scan s b start cursor marked) →
      st₂.frame t' height = some (.scan s b start cursor marked) →
      (∃ cursor marked, st.frame t' height = some (.scan s b start cursor marked)) ∨
        start = st.clock := by
    intro f fs below st₂ top stack new found
    rcases State.frame_replace fs top stack found with ⟨rfl, high, there⟩ | ⟨old, _⟩
    · -- The new frame of the same scan stands where the old one stood.
      obtain ⟨one, cursor₀, marked₀, rfl⟩ := new _ _ _ _ _ (mem_of_frameAt_high high there)
      obtain ⟨g, rfl⟩ := List.length_eq_one_iff.mp one
      obtain ⟨rfl, _⟩ := frameAt_high_one high there
      exact .inl ⟨cursor₀, marked₀, State.frame_top top⟩
    · exact .inl ⟨cursor, marked, old⟩
  have again : ∀ {s₀ b₀ start₀ cursor₀ marked₀ cursor₁ marked₁},
      ∀ s b start cursor marked, Frame.scan s b start cursor marked ∈
        [Frame.scan s₀ b₀ start₀ cursor₁ marked₁] →
        [Frame.scan s₀ b₀ start₀ cursor₁ marked₁].length = 1 ∧ ∃ cursor marked,
          Frame.scan s₀ b₀ start₀ cursor₀ marked₀ = .scan s b start cursor marked := by
    intro s₀ b₀ start₀ cursor₀ marked₀ cursor₁ marked₁ s b start cursor marked member
    cases List.mem_singleton.mp member
    exact ⟨rfl, cursor₀, marked₀, rfl⟩
  cases moved with
  | known => exact stay rfl found
  | create => exact stay rfl found
  | enter => exact stay rfl found
  | leaveIdle => exact stay rfl found
  | refreshIdle => exact stay rfl found
  | flushNone => exact stay rfl found
  | access => exact stay rfl found
  | refused _ prep => exact stay prep.same.1 found
  | pushed _ prep => exact stay prep.same.1 found
  | reserve _ prep => exact stay prep.same.1 found
  | leave => exact called rfl (by simp) found
  | refresh => exact called rfl (by simp) found
  | @immediate s p f c st₁ _ prep =>
    refine called (f := .reclaimer st.nextRid p f) ?_ (by simp) found
    simp [State.call, State.setStack, State.record, prep.same.1]
  | @filled s' p f c st₁ b' batch _ prep =>
    refine called (f := .scan s' b' st.clock 0 0) ?_ ?_ found
    · simp [State.call, State.setStack, State.record, State.setBatch, pushEntry, prep.same.1]
    · intro s b start cursor marked eq
      cases eq
      rfl
  | flush =>
    refine called rfl ?_ found
    intro s b start cursor marked eq
    cases eq
    rfl
  | reclaimAll => exact called rfl (by simp) found
  | panic top => exact .inl ⟨cursor, marked,
      State.frame_suffix (suffix_of_top top (unwind_suffix _)) rfl found⟩
  | skipScan top => exact stepped [_] top rfl again found
  | pass top => exact stepped [_] top rfl again found
  | mark top => exact stepped [_] top rfl again found
  | ret top => exact stepped [] top rfl (by simp) found
  | abort top => exact stepped [] top rfl (by simp) found
  | addShare top => exact stepped [] top rfl (by simp) found
  | done top => exact stepped [] top rfl (by simp) found
  | dealloc top => exact stepped [] top rfl (by simp) found
  | finish top => exact stepped [] top rfl (by simp) found
  | skipReclaim top => exact stepped [_] top rfl (by simp) found
  | commit top => exact stepped [_] top rfl (by simp) found
  | addFree top => exact stepped [_] top rfl (by simp) found
  | load top => exact stepped [_] top rfl (by simp) found
  | gone top => exact stepped [_] top rfl (by simp) found
  | publish top => exact stepped [_] top rfl (by simp) found
  | retry top => exact stepped [_] top rfl (by simp) found
  | releaseCount top => exact stepped [_] top rfl (by simp) found
  | next top => exact stepped [_] top rfl (by simp) found
  | reset top => exact stepped [_] top rfl (by simp) found
  | releaseFree top => exact stepped [_, _] top rfl (by simp) found
  | invoke top => exact stepped [_, _] top rfl (by simp) found
  | take top => exact stepped [_, _] top rfl (by simp) found
  | takeWrong top => exact stepped [_, _] top rfl (by simp) found

/-- A batch with a scan had it before, or its scan is being completed. -/
theorem Move.stamps (moved : Move cfg st t action st') {batch' : Batch} {time : Nat}
    (stored' : st'.mem b = some batch') (scanned' : batch'.scanned = some time) :
    (∃ batch, st.mem b = some batch ∧ batch.scanned = some time) ∨
      ∃ t' height s cursor marked, st.frame t' height = some (.scan s b time cursor marked) := by
  -- A batch gets its time when its scan commits, and keeps it.
  have kept : ∀ {b₀ batch₀} {after : Batch}, st.mem b₀ = some batch₀ →
      Function.update st.mem b₀ (some after) b = some batch' → after.scanned = batch₀.scanned →
      ∃ batch, st.mem b = some batch ∧ batch.scanned = some time := by
    intro b₀ batch₀ after stored found same
    rcases stored_update found with ⟨rfl, new⟩ | ⟨_, old⟩
    · cases new
      exact ⟨batch₀, stored, same ▸ scanned'⟩
    · exact ⟨batch', old, scanned'⟩
  have grown : ∀ {s : SlotId} {mem : Addr → Option Batch} {before : Batch}, Grows s st.mem mem →
      mem b = some before → before.scanned = some time →
      ∃ batch, st.mem b = some batch ∧ batch.scanned = some time := by
    intro s mem before grows found at_
    rcases grows.new b before found with ⟨batch, was, same⟩ | ⟨_, _, none_, _⟩
    · exact ⟨batch, was, same.scanned ▸ at_⟩
    · rw [none_] at at_
      cases at_
  have pushed : ∀ {s : SlotId} {mem : Addr → Option Batch} {b₀ batch₀ entries}, Grows s st.mem mem →
      mem b₀ = some batch₀ →
      Function.update mem b₀ (some { batch₀ with entries := entries }) b = some batch' →
      ∃ batch, st.mem b = some batch ∧ batch.scanned = some time := by
    intro s mem b₀ batch₀ entries grows stored found
    rcases stored_update found with ⟨rfl, new⟩ | ⟨_, old⟩
    · cases new
      exact grown grows stored scanned'
    · exact grown grows old scanned'
  cases moved with
  | refused _ prep => exact .inl (grown prep.grows stored' scanned')
  | immediate _ prep => exact .inl (grown prep.grows stored' scanned')
  | reserve _ prep => exact .inl (grown prep.grows stored' scanned')
  | pushed _ prep _ stored => exact .inl (pushed prep.grows stored stored')
  | filled _ prep _ stored => exact .inl (pushed prep.grows stored stored')
  | @commit s b₀ start cursor marked below batch₀ spurious top stored =>
    rcases stored_update stored' with ⟨rfl, new⟩ | ⟨_, old⟩
    · cases new
      cases scanned'
      exact .inr ⟨t, below.length, s, cursor, marked, State.frame_top top⟩
    · exact .inl ⟨batch', old, scanned'⟩
  | mark _ stored => exact .inl (kept stored stored' rfl)
  | addFree _ stored => exact .inl (kept stored stored' rfl)
  | addShare _ stored => exact .inl (kept stored stored' rfl)
  | publish _ stored => exact .inl (kept stored stored' rfl)
  | retry _ stored => exact .inl (kept stored stored' rfl)
  | releaseFree _ _ _ stored => exact .inl (kept stored stored' rfl)
  | releaseCount _ _ _ stored => exact .inl (kept stored stored' rfl)
  | take _ _ _ _ stored => exact .inl (kept stored stored' rfl)
  | dealloc =>
    rcases stored_update stored' with ⟨_, new⟩ | ⟨_, old⟩
    · cases new
    · exact .inl ⟨batch', old, scanned'⟩
  | known | create | enter | leaveIdle | leave | refreshIdle | refresh | flushNone | flush
  | reclaimAll | access | ret | panic | skipScan | skipReclaim | pass | abort | load | gone | done
  | invoke | finish | next | takeWrong | reset => exact .inl ⟨batch', stored', scanned'⟩

/-- Nothing that was recorded is forgotten. -/
theorem Change.mono (change : Change st st' t action) {event : Event} (member : event ∈ st.log) :
    event ∈ st'.log := by
  cases change with
  | plain new log => simp [log, member]
  | refused log => simp [log, member]
  | pushed log => simp [log, member]
  | immediate log => simp [log, member]
  | invoke _ _ _ log => simp [log, member]
  | dealloc _ _ _ _ log => simp [log, member]

/-- A pointer is retired by a retirement. -/
theorem Change.retired_of (change : Change st st' t action) {p : Ptr} (is : Retired st' p) :
    Retired st p ∨ ∃ s f c, action = .add s p f c := by
  -- The log grows by the retirement of this step at most.
  obtain ⟨rid, f, member⟩ := is
  cases change with
  | plain new log silent =>
    rw [log] at member
    rcases List.mem_append.mp member with added | old
    · cases silent _ added
    · exact .inl ⟨rid, f, old⟩
  | refused log =>
    rw [log] at member
    exact .inl ⟨rid, f, by simpa using member⟩
  | @pushed s p' f' c e log =>
    rw [log] at member
    rcases List.mem_cons.mp member with new | old
    · cases new
      exact .inr ⟨s, f, c, rfl⟩
    · exact .inl ⟨rid, f, old⟩
  | @immediate s p' f' c log =>
    rw [log] at member
    simp only [List.mem_cons, reduceCtorEq, Event.retired.injEq, false_or] at member
    rcases member with ⟨rfl, rfl, rfl⟩ | old
    · exact .inr ⟨s, f, c, rfl⟩
    · exact .inl ⟨rid, f, old⟩
  | invoke _ _ _ log =>
    rw [log] at member
    exact .inl ⟨rid, f, by simpa using member⟩
  | dealloc _ _ _ _ log =>
    rw [log] at member
    exact .inl ⟨rid, f, member⟩

/-- An access leaves the old value in the cell, or the one it writes. -/
theorem CellOp.apply_cases (op : CellOp) (old : Option Ptr) :
    op.apply old = old ∨ op.apply old = op.writes := by
  cases op with
  | load => exact .inl rfl
  | swap value => exact .inr rfl
  | compareExchange current new spurious =>
    simp only [CellOp.apply, CellOp.writes]
    split
    · exact .inr rfl
    · exact .inl rfl

/-- A guarded access protects what it read, which cannot have been retired. -/
theorem Shielded.access {s : SlotId} {x : Cell} {op : CellOp} (shielded : Shielded st)
    (unlinks : ∀ p, op.writes = some p → ¬ Retired st p) : Shielded (cellStep st s x op) := by
  -- What is newly protected was in the cell.
  have protects : ∀ v p, Protects (cellStep st s x op) v p → Protects st v p ∨ ¬ Retired st p := by
    intro v p holds
    obtain ⟨active, member⟩ := holds
    simp only [cellStep] at member
    by_cases here : v = s
    · subst here
      rw [Function.update_self] at member
      rcases List.mem_append.mp member with loaded | old
      · right
        intro retired
        exact shielded.unlinked p retired x (Option.mem_toList.mp loaded)
      · exact .inl ⟨active, old⟩
    · rw [Function.update_of_ne here] at member
      exact .inl ⟨active, member⟩
  refine ⟨?_, shielded.stored, shielded.logged, ?_, ?_, ?_⟩
  · intro p retired x'
    have retired : Retired st p := retired
    simp only [cellStep]
    by_cases here : x' = x
    · subst here
      rw [Function.update_self]
      rcases op.apply_cases (st.cells x') with old | new
      · rw [old]
        exact shielded.unlinked p retired x'
      · intro written
        exact unlinks p (new.symm.trans written) retired
    · rw [Function.update_of_ne here]
      exact shielded.unlinked p retired x'
  · intro t height s' start cursor marked e object v found at_ holds
    rcases protects v object.ptr holds with before | fresh
    · exact shielded.scans t height s' start cursor marked e object v found at_ before
    · exact absurd (shielded.stored e object at_) fresh
  · intro e batch time object v stored scanned at_ holds
    rcases protects v object.ptr holds with before | fresh
    · exact shielded.scanned e batch time object v stored scanned at_ before
    · exact absurd (shielded.stored e object at_) fresh
  · intro rid p f scanned v member holds
    rcases protects v p holds with before | fresh
    · exact shielded.unreclaimed rid p f scanned v member before
    · exact fresh (shielded.logged rid p f scanned member)

/-- An object that is there after a move was there before, or is pushed by it. -/
theorem Change.old (change : Change st st' t action) {e : EntryPtr} {object : Object}
    (at_ : objectAt st'.mem e = some object) :
    objectAt st.mem e = some object ∨
      (∃ s p f c, action = .add s p f c ∧ st'.batch s = .ptr e.batch ∧
        object = ⟨st.nextRid, p, f⟩ ∧ .retired st.nextRid p f ∈ st'.log) := by
  -- Only a retirement adds an object.
  cases change with
  | plain _ _ _ _ objects => exact .inl (objects ▸ at_)
  | refused _ _ objects => exact .inl (objects ▸ at_)
  | immediate _ _ _ objects => exact .inl (objects ▸ at_)
  | invoke _ _ _ _ _ objects => exact .inl (objects ▸ at_)
  | @pushed s p f c e₀ log _ held _ objects =>
    rw [objects] at at_
    split at at_
    · rename_i here
      subst here
      cases at_
      exact .inr ⟨s, p, f, c, rfl, held, rfl, by simp [log]⟩
    · exact .inl at_
  | dealloc _ _ _ memory =>
    rw [memory, objectAt_dealloc] at at_
    split at at_
    · cases at_
    · exact .inl at_

/-- No scan is in progress on a batch that its owner pushes to. -/
theorem scan_elsewhere {s s' : SlotId} {t' : Tid} {height start cursor marked : Nat}
    (inv : Inv cfg st) (after : Inv cfg st') (user : userLevel (st.stack t) = true)
    (unique : UniqueAccess st t s) (held : st'.batch s = .ptr b)
    (found : st.frame t' height = some (.scan s' b start cursor marked))
    (kept : st'.batch s' = .ptr b) : False := by
  -- A batch belongs to one slot only.
  obtain ⟨batch, stored, pending⟩ := after.slots s b held
  obtain ⟨batch', stored', pending'⟩ := after.slots s' b kept
  cases stored.symm.trans stored'
  rw [pending] at pending'
  cases pending'
  by_cases here : t' = t
  · subst here
    have leaf := (inv.tops t').of_userLevel user _ (mem_of_frameAt found)
    cases leaf
  · have used := unique t' here _ (mem_of_frameAt found)
    simp [Frame.usesBatch] at used

/-- A retirement is made by user code. -/
theorem Move.user (moved : Move cfg st t action st') {s : SlotId} {p : Ptr} {f : Reclaim} {c : Alloc}
    (is : action = .add s p f c) : userLevel (st.stack t) = true := by
  cases moved <;> cases is <;> assumption

/-- A slot keeps its batch while it retires. -/
theorem Move.add_batch (moved : Move cfg st t action st') {s v : SlotId} {p : Ptr} {f : Reclaim}
    {c : Alloc} (is : action = .add s p f c) (held : st.batch v = .ptr b) : st'.batch v = .ptr b := by
  -- A preparation makes a batch only where there is none.
  have prepared : ∀ {st₁ : State}, Prep cfg s { st with nextRid := st.nextRid + 1 } st₁ →
      st₁.batch v = .ptr b := by
    intro st₁ prep
    have before : ({ st with nextRid := st.nextRid + 1 } : State).batch v = .ptr b := held
    induction prep with
    | refl => exact before
    | load _ _ ih => exact ih
    | unboxed _ _ _ ih => exact ih
    | fresh _ null _ ih =>
      have other : v ≠ s := by
        rintro rfl
        rw [ih] at null
        cases null
      exact (Function.update_of_ne other _ _).trans ih
    | grow _ _ _ _ ih => exact ih
  cases moved with
  | refused _ prep =>
    cases is
    have := prepared prep
    exact this
  | immediate _ prep =>
    cases is
    have := prepared prep
    exact this
  | pushed _ prep =>
    cases is
    have := prepared prep
    exact this
  | filled _ prep =>
    cases is
    have := prepared prep
    exact this
  | _ => cases is

/-- A reclaimer that has run was run before, or runs now for one of two reasons. -/
theorem Change.reclaimed_of (change : Change st st' t action) {rid : Nat} {p : Ptr} {f : Reclaim}
    {scanned : Option Nat} (member : Event.reclaimed rid p f scanned ∈ st'.log) :
    Event.reclaimed rid p f scanned ∈ st.log ∨ (∃ s, st.batch s = .drop) ∨
      ∃ e batch below, st.stack t = .freeBatch (.ptr e.batch) e.index :: below ∧
        st.mem e.batch = some batch ∧ objectAt st.mem e = some ⟨rid, p, f⟩ ∧
        batch.scanned = scanned := by
  -- A reclaimer is called at once under a sentinel, and otherwise by `free_batch`.
  cases change with
  | plain new log silent =>
    rw [log] at member
    rcases List.mem_append.mp member with added | old
    · cases silent _ added
    · exact .inl old
  | refused log =>
    rw [log] at member
    exact .inl (by simpa using member)
  | pushed log =>
    rw [log] at member
    exact .inl (by simpa using member)
  | immediate _ _ held => exact .inr (.inl ⟨_, held⟩)
  | @invoke e below batch object _ top stored found log =>
    rw [log] at member
    rcases List.mem_cons.mp member with new | old
    · cases new
      exact .inr (.inr ⟨e, batch, below, top, stored, found, rfl⟩)
    · exact .inl old
  | dealloc _ _ _ _ log =>
    rw [log] at member
    exact .inl member

/-- Every permitted move keeps protected pointers valid. -/
theorem Move.shielded (moved : Move cfg st t action st') (sound : Sound cfg st)
    (permitted : Careful cfg st (t, action)) (grace : Grace cfg st) (shielded : Shielded st) :
    Shielded st' := by
  by_cases isAccess : ∃ s x op, action = .access s x op
  · obtain ⟨s, x, op, rfl⟩ := isAccess
    cases moved with
    | access => exact shielded.access permitted.2
  have other : ∀ s x op, action ≠ .access s x op := fun s x op is => isAccess ⟨s, x, op, is⟩
  have change := moved.change
  have after := moved.inv sound.inv permitted.1.disciplined sound.sentinel
  have grace' := moved.grace sound permitted.1 grace
  refine ⟨?_, ?_, ?_, ?_, ?_, ?_⟩
  · intro p retired x
    rw [moved.cells other]
    rcases change.retired_of retired with old | ⟨s, f, c, rfl⟩
    · exact shielded.unlinked p old x
    · exact permitted.2 x
  · intro e object at_
    rcases change.old at_ with old | ⟨s, p, f, c, _, _, rfl, logged⟩
    · obtain ⟨rid, f, member⟩ := shielded.stored e object old
      exact ⟨rid, f, change.mono member⟩
    · exact ⟨_, f, logged⟩
  · intro rid p f scanned member
    rcases change.reclaimed_of member with old | ⟨s, dropped⟩ | ⟨e, batch, below, _, _, at_, _⟩
    · obtain ⟨rid', f', earlier⟩ := shielded.logged rid p f scanned old
      exact ⟨rid', f', change.mono earlier⟩
    · exact absurd dropped (grace.clear s)
    · obtain ⟨rid', f', earlier⟩ := shielded.stored e _ at_
      exact ⟨rid', f', change.mono earlier⟩
  · intro t' height s start cursor marked e object v found at_ protects
    obtain ⟨before, since⟩ := moved.protects other protects
    rw [since]
    rcases moved.scans found with ⟨cursor₀, marked₀, found₀⟩ | rfl
    · rcases change.old at_ with old | ⟨s', p, f, c, rfl, held, _, _⟩
      · exact shielded.scans t' height s start cursor₀ marked₀ e object v found₀ old before
      · -- The owner of a batch does not push to it while it is being scanned.
        have scanning := sound.inv.frames t' height _ found₀
        exact absurd (moved.add_batch rfl scanning.1)
          (scan_elsewhere sound.inv after (moved.user rfl) permitted.1.1.1.2 held found₀)
    · exact grace.periods.past v before.1
  · intro e batch time object v stored scanned at_ protects
    obtain ⟨before, since⟩ := moved.protects other protects
    rw [since]
    rcases change.old at_ with old | ⟨s', p, f, c, rfl, held, _, _⟩
    · rcases moved.stamps stored scanned with ⟨batch₀, stored₀, scanned₀⟩ | ⟨t', height, s, cursor,
        marked, found⟩
      · exact shielded.scanned e batch₀ time object v stored₀ scanned₀ old before
      · exact shielded.scans t' height s time cursor marked e object v found old before
    · -- An object that was just pushed is in a batch without a scan.
      obtain ⟨batch', stored', pending⟩ := after.slots s' e.batch held
      cases stored.symm.trans stored'
      have stage := grace'.stages e.batch batch stored
      rw [pending] at stage
      have none_ : batch.scanned = none := stage
      rw [none_] at scanned
      cases scanned
  · intro rid p f scanned v member protects
    obtain ⟨before, _⟩ := moved.protects other protects
    rcases change.reclaimed_of member with old | ⟨s, dropped⟩ | ⟨e, batch, below, top, stored, at_, _⟩
    · exact shielded.unreclaimed rid p f scanned v old before
    · exact grace.clear s dropped
    · -- The batch is freed only after every slot that its scan could have seen has moved on.
      obtain ⟨b', batch₀, eq, stored₀, phase⟩ := sound.inv.frames t _ _ (State.frame_top top)
      cases eq
      cases stored.symm.trans stored₀
      have stage := grace.stages e.batch batch stored
      rw [phase] at stage
      obtain ⟨time, at_time, _, none_⟩ := stage
      exact none_ v ⟨before.1, shielded.scanned e batch time _ v stored at_time at_ before⟩

/-- The invariants behind grace-period safety. -/
structure Guarded (cfg : Config) (st : State) : Prop where
  sound : Sound cfg st
  grace : Grace cfg st
  shielded : Shielded st

/-- In a collector that nobody has used no slot is in a period. -/
theorem Grace.init (cfg : Config) : Grace cfg State.init := by
  refine ⟨⟨?_, ?_, ?_⟩, ?_, ?_, ?_, ?_, ?_⟩
  · intro v active
    exact absurd rfl active
  · intro v active
    exact absurd rfl active
  · intro v member
    cases member
  · intro t height f found
    cases found
  · intro b batch stored
    cases stored
  · intro event member
    cases member
  · intro s held
    cases held
  · intro t height f found
    cases found

/-- In a collector that nobody has used nothing is protected. -/
theorem Shielded.init : Shielded State.init := by
  refine ⟨?_, ?_, ?_, ?_, ?_, ?_⟩
  · rintro p ⟨rid, f, member⟩
    cases member
  · intro e object at_
    cases at_
  · intro rid p f scanned member
    cases member
  · intro t height s start cursor marked e object v found
    cases found
  · intro e batch time object v stored
    cases stored
  · intro rid p f scanned v member
    cases member

/-- The step lemma: a careful step keeps the invariants. -/
theorem Guarded.step {move : Tid × Action} (guarded : Guarded cfg st)
    (permitted : Careful cfg st move) (ran : Raw.step cfg st move = .ok st') : Guarded cfg st' := by
  have sound := guarded.sound.step permitted.1.disciplined ran
  obtain ⟨st₁, moved, rfl⟩ := step_move ran
  have shielded := moved.shielded guarded.sound permitted guarded.grace guarded.shielded
  -- Counting the step changes nothing that protection is about.
  exact ⟨sound, moved.grace guarded.sound permitted.1 guarded.grace, shielded.unlinked,
    shielded.stored, shielded.logged, shielded.scans, shielded.scanned, shielded.unreclaimed⟩

/-- The run lemma: the invariants hold in every state of a careful run. -/
theorem reachable_guarded (run : Reachable (Raw.step cfg) (Careful cfg) State.init st) :
    Guarded cfg st :=
  run.invariant (Guarded cfg) ⟨Sound.init cfg, Grace.init cfg, Shielded.init⟩
    fun _ _ _ _ guarded permitted ran => guarded.step permitted ran

/-- Nothing that a slot could still use has been reclaimed. -/
structure GraceSafe (st : State) : Prop where
  /--
  An object whose reclaimer has run was in a batch that a scan committed.

  No slot is still in a period that began before that scan.
  -/
  period : ∀ rid p f scanned, Event.reclaimed rid p f scanned ∈ st.log →
    ∃ time, scanned = some time ∧ ∀ v, st.Active v → ¬ st.since v < time
  /-- No reclaimer has run on a pointer that a slot loaded in its current period. -/
  unreclaimed : ∀ rid p f scanned v, Event.reclaimed rid p f scanned ∈ st.log → st.Active v →
    p ∉ st.protect v

/-- No reclaimer runs within the grace period of its object. -/
theorem grace_period (cfg : Config) (st : State)
    (run : Reachable (Raw.step cfg) (Careful cfg) State.init st) : GraceSafe st := by
  have guarded := reachable_guarded run
  refine ⟨?_, ?_⟩
  · intro rid p f scanned member
    obtain ⟨time, at_time, _, none_⟩ := guarded.grace.events _ member
    exact ⟨time, at_time, fun v active early => none_ v ⟨active, early⟩⟩
  · intro rid p f scanned v member active loaded
    exact guarded.shielded.unreclaimed rid p f scanned v member ⟨active, loaded⟩

/-- A pointer has been retired, decided. -/
def retiredCheck (st : State) (p : Ptr) : Bool :=
  st.log.any fun
    | .retired _ p' _ => p' == p
    | _ => false

/-- The rules of a careful run that speak of one action, decided for the first `n` cells. -/
def carefulCheck (n : Nat) (st : State) (move : Tid × Action) : Bool :=
  enterCheck st move &&
    match move.2 with
    | .reclaimAll => false
    | .add _ p _ _ => (List.range n).all fun x => st.cells x != some p
    | .access _ _ op => op.writes.all fun p => !retiredCheck st p
    | _ => true

/-- A run that passes both checks is careful. -/
theorem careful_of_check {n : Nat} (within : Within n st) {move : Tid × Action}
    (access : accessCheck cfg n st move = true) (checked : carefulCheck n st move = true) :
    Careful cfg st move := by
  obtain ⟨t, action⟩ := move
  simp only [carefulCheck, Bool.and_eq_true] at checked
  obtain ⟨entered, checked⟩ := checked
  refine ⟨⟨contract_of_check within access entered, ?_⟩, ?_⟩
  · rintro rfl
    cases checked
  -- The check looks at the first cells, and all others are null.
  · cases action with
    | add s p f c =>
      intro x
      by_cases small : x < n
      · simpa using List.all_eq_true.mp checked x (List.mem_range.mpr small)
      · rw [within.cells x (Nat.le_of_not_lt small)]
        simp
    | access s x op =>
      intro p writes retired
      obtain ⟨rid, f, member⟩ := retired
      simp only [writes, Option.all_some, Bool.not_eq_true'] at checked
      have := List.any_eq_false.mp checked _ member
      simp at this
    | _ => trivial

/--
A reader holds an object that is retired under it, and a later reader another one.

The first reader leaves, and its object is reclaimed while the second one still reads.
-/
def twoReaders : List (Tid × Action) :=
  [(0, .access 0 0 (.swap (some 7))), (0, .access 0 1 (.swap (some 8))), (1, .create 1),
    (1, .enter 1), (1, .access 1 0 .load), (0, .access 0 0 (.swap none)),
    -- Object 7 is retired and linked to slot 1.
    (0, .add 0 7 9 (plenty 1)), (0, .skip 1), (0, .advance false), (0, .skip (2 ^ 64 - 32)),
    (0, .advance false), (0, .advance false), (0, .advance false), (0, .advance false),
    (2, .create 2), (2, .enter 2), (2, .access 2 1 .load), (0, .access 0 1 (.swap none)),
    -- Object 8 is retired and linked to slots 1 and 2, for which one entry is too few.
    (0, .add 0 8 9 (plenty 2)), (0, .skip 1), (0, .advance false), (0, .advance false),
    (1, .leave 1), (1, .advance false), (1, .advance false)]

/-- There the safety of the second reader is not vacuous. -/
theorem grace_period_twoReaders : ∃ st, Reachable (Raw.step ⟨64, 1⟩) (Careful ⟨64, 1⟩) State.init st ∧
    Event.reclaimed 0 7 9 (some 6) ∈ st.log ∧ st.Active 2 ∧ 8 ∈ st.protect 2 ∧ Retired st 8 ∧
      GraceSafe st := by
  obtain ⟨st, run, ended⟩ := reachable_of_check ⟨64, 1⟩ 3 (Careful ⟨64, 1⟩) (carefulCheck 3)
    (fun st => decide (Event.reclaimed 0 7 9 (some 6) ∈ st.log ∧ st.Active 2 ∧ 8 ∈ st.protect 2 ∧
      Event.retired 1 8 9 ∈ st.log))
    twoReaders (fun _ _ within access checked => careful_of_check within access checked) (by decide)
  rw [decide_eq_true_eq] at ended
  exact ⟨st, run, ended.1, ended.2.1, ended.2.2.1, ⟨1, 9, ended.2.2.2⟩, grace_period _ st run⟩

end Seize.Raw
