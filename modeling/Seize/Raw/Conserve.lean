import Seize.Raw.Books
import Seize.Raw.Check

/-!
Conservation of retired objects.

An object is live from the retirement that pushed it until `free_batch` passes it. Every move
either leaves the live objects alone, adds one that was just retired, or turns one into a call of
its reclaimer.
-/

namespace Seize.Raw

variable {cfg : Config} {st st' : State} {t : Tid} {action : Action} {b : Addr} {batch : Batch}

/-- An object in memory whose reclaimer has not been invoked. -/
def Live (st : State) (e : EntryPtr) (object : Object) : Prop :=
  objectAt st.mem e = some object ∧ ¬ Reached st e

/-- Nobody frees a batch that a slot holds. -/
theorem Inv.unreached (inv : Inv cfg st) {e : EntryPtr} (stored : st.mem e.batch = some batch)
    (early : ∀ t height, batch.phase ≠ .freeing t height) : ¬ Reached st e := by
  rintro ⟨t, f, member, passed⟩
  obtain ⟨height, found⟩ := exists_frameAt member
  have ok := inv.frames t height f found
  cases f with
  | freeBatch batchPtr i =>
    obtain ⟨b, batch', rfl, stored', phase⟩ := ok
    obtain ⟨rfl, _⟩ := passed
    cases stored.symm.trans stored'
    exact early t height phase
  | _ => exact passed

/-- The entries that `free_batch` has passed are those before its index. -/
theorem Inv.reached (inv : Inv cfg st) {e : EntryPtr} {i height : Nat}
    (found : st.frame t height = some (.freeBatch (.ptr e.batch) i)) : Reached st e ↔ e.index < i := by
  constructor
  · rintro ⟨t', f, member, passed⟩
    obtain ⟨height', found'⟩ := exists_frameAt member
    obtain ⟨b, batch, eq, stored, phase⟩ := inv.frames t height _ found
    cases eq
    cases f with
    | freeBatch batchPtr j =>
      obtain ⟨b', _, rfl, _, _⟩ := inv.frames t' height' _ found'
      obtain ⟨rfl, small⟩ := passed
      -- One call frees the batch, so both frames are the same.
      obtain ⟨rfl, rfl⟩ := inv.free_unique stored phase found' rfl
      cases found.symm.trans found'
      exact small
    | _ => exact absurd passed id
  · intro small
    exact ⟨t, _, mem_of_frameAt found, rfl, small⟩

/-- Some place holds no object. -/
theorem exists_empty (st : State) : ∃ e, objectAt st.mem e = none := by
  cases stored : st.mem 0 with
  | none => exact ⟨⟨0, 0⟩, by simp [objectAt, entryIn, stored]⟩
  | some batch => exact ⟨⟨0, batch.entries.length⟩, by simp [objectAt, entryIn, stored]⟩

/-- The books of a state. -/
def Conserved (st : State) : Prop := Books (Live st) st.log st.nextRid

/-- Every move without a panic keeps the books. -/
theorem Move.conserved (moved : Move cfg st t action st') (inv : Inv cfg st) (after : Inv cfg st')
    (calm : action ≠ .panic) (conserved : Conserved st) : Conserved st' := by
  have same : objectAt st'.mem = objectAt st.mem → (∀ e, Reached st' e ↔ Reached st e) →
      ∀ e object, Live st' e object ↔ Live st e object := by
    intro objects reached e object
    simp only [Live, objects, reached]
  have unused : ∀ {e}, objectAt st.mem e = none → ∀ object, ¬ Live st e object := by
    intro e empty object live
    rw [live.1] at empty
    cases empty
  have books : Books (Live st) st.log st.nextRid := conserved
  show Books (Live st') st'.log st'.nextRid
  cases moved.change with
  | plain new log silent next objects reached =>
    rw [log, next]
    exact (books.silent_append silent).congr (same objects (reached calm))
  | refused log next objects reached =>
    rw [log, next]
    exact books.refuse.congr (same objects reached)
  | immediate log next _ objects reached =>
    rw [log, next]
    obtain ⟨e, empty⟩ := exists_empty st
    exact (books.immediate (unused empty)).congr (same objects reached)
  | @pushed s p f c e log next held empty objects reached =>
    rw [log, next]
    refine books.push (unused empty) fun e' object => ?_
    -- The slot holds the batch, so nobody frees it.
    have fresh : ¬ Reached st e := by
      obtain ⟨batch, stored, pending⟩ := after.slots s e.batch held
      rw [← reached]
      exact after.unreached stored (by simp [pending])
    simp only [Live, objects, reached]
    by_cases here : e' = e
    · subst here
      simp [empty, fresh, eq_comm]
    · simp [here]
  | @invoke e below batch object spurious top stored found log next objects reached =>
    rw [log, next]
    have unpassed : ¬ Reached st e := by
      rw [inv.reached (State.frame_top top)]
      exact Nat.lt_irrefl _
    refine books.invoke ⟨found, unpassed⟩ fun e' object' => ?_
    simp only [Live, objects, reached, not_or, and_assoc]
  | @dealloc b i below batch spurious top stored finished memory log next reached =>
    rw [log, next]
    refine books.congr fun e object => ?_
    simp only [Live, memory, objectAt_dealloc]
    by_cases here : e.batch = b
    · -- Every object of the batch has been passed.
      subst here
      simp only [if_pos, reduceCtorEq, false_and, false_iff, not_and, not_not]
      intro at_
      rw [inv.reached (State.frame_top top)]
      rw [objectAt_eq stored] at at_
      obtain ⟨entry, read, _⟩ := Option.map_eq_some_iff.mp at_
      have small := (List.getElem?_eq_some_iff.mp read).1
      have large := List.getElem?_eq_none_iff.mp finished
      omega
    · simp only [if_neg here, reached e here]

/--
Reclaimers neither panic nor call `reclaim_all`.

Everybody else calls `reclaim_all` only while no slot is active.
-/
def Orderly (cfg : Config) (st : State) (move : Tid × Action) : Prop :=
  Access cfg st move ∧ move.2 ≠ .panic ∧
    (move.2 = .reclaimAll → st.stack move.1 = [] ∧ ∀ s, ¬ st.Active s)

/-- A sentinel belongs to a call of `reclaim_all` in progress, so nobody else may call it. -/
theorem Orderly.disciplined {move : Tid × Action} (orderly : Orderly cfg st move)
    (tended : Tended st) : Disciplined cfg st move := by
  obtain ⟨access, _, alone⟩ := orderly
  refine ⟨access, fun called s marked => ?_⟩
  obtain ⟨t, action⟩ := move
  cases called
  -- A sentinel belongs to a call of `reclaim_all` that some thread is in.
  obtain ⟨t', height, f, found, is⟩ := tended.dropping s marked
  have member := mem_of_frameAt found
  by_cases here : t' = t
  · subst here
    rw [(alone rfl).1] at member
    cases member
  · have avoids := access s t' here f member
    cases f with
    | reclaimReset cursor => cases avoids
    | freeBatch batchPtr i => cases batchPtr <;> cases is
    | _ => cases is

/-- The invariants behind conservation. -/
structure Audited (cfg : Config) (st : State) : Prop where
  sound : Sound cfg st
  tended : Tended st
  conserved : Conserved st

/-- The step lemma: an orderly step keeps the invariants. -/
theorem Audited.step {move : Tid × Action} (audited : Audited cfg st) (permitted : Orderly cfg st move)
    (ran : Raw.step cfg st move = .ok st') : Audited cfg st' := by
  have disciplined := permitted.disciplined audited.tended
  have sound := audited.sound.step disciplined ran
  obtain ⟨st₁, moved, rfl⟩ := step_move ran
  have after := moved.inv audited.sound.inv disciplined audited.sound.sentinel
  have tended := moved.tended audited.sound permitted.2.1 audited.tended
  exact ⟨sound, tended.same (.same rfl _) (.refl _) fun _ => .rfl,
    moved.conserved audited.sound.inv after permitted.2.1 audited.conserved⟩

/-- The run lemma: the invariants hold in every state of an orderly run. -/
theorem reachable_audited (run : Reachable (Raw.step cfg) (Orderly cfg) State.init st) :
    Audited cfg st := by
  refine run.invariant (Audited cfg) ⟨Sound.init cfg, ⟨?_, ?_⟩, ?_⟩
    fun _ _ _ _ audited permitted ran => audited.step permitted ran
  · intro b batch t height stored
    cases stored
  · intro s marked
    cases marked
  · refine Books.init fun e object live => ?_
    cases live.1

/-- The places where a retirement can be. -/
inductive Whereabouts where
  /-- An entry of the local batch of a slot. -/
  | pending (s : SlotId) (e : EntryPtr)
  /-- An entry of a batch that was committed and is not being freed. -/
  | committed (e : EntryPtr)
  /-- An entry that a call of `free_batch` has yet to reach. -/
  | unreached (e : EntryPtr)
  /-- Handed to its reclaimer, by an event of the log. -/
  | invoked (k : Nat)
  deriving DecidableEq

/-- A retirement is in a place. -/
def LiesIn (st : State) (object : Object) : Whereabouts → Prop
  | .pending s e => objectAt st.mem e = some object ∧ st.batch s = .ptr e.batch
  | .committed e => objectAt st.mem e = some object ∧ ∃ batch, st.mem e.batch = some batch ∧
    ((∃ t height, batch.phase = .retiring t height) ∨ batch.phase = .shared)
  | .unreached e => objectAt st.mem e = some object ∧
    ∃ t i, .freeBatch (.ptr e.batch) i ∈ st.stack t ∧ i ≤ e.index
  | .invoked k => ∃ scanned,
    st.log[k]? = some (.reclaimed object.rid object.ptr object.reclaim scanned)

/-- Every accepted retirement is in exactly one place, as it was given, and no other one is in any. -/
structure Accounted (st : State) : Prop where
  accepted : ∀ rid p f, Event.retired rid p f ∈ st.log →
    ∃ place, LiesIn st ⟨rid, p, f⟩ place ∧
      ∀ place' p' f', LiesIn st ⟨rid, p', f'⟩ place' → place' = place ∧ p' = p ∧ f' = f
  refused : ∀ rid, Event.refused rid ∈ st.log → ∀ p f place, ¬ LiesIn st ⟨rid, p, f⟩ place

/-- Where the stage of its batch puts the object of an entry. -/
def Phase.place (e : EntryPtr) : Phase → Whereabouts
  | .pending s => .pending s e
  | .retiring _ _ => .committed e
  | .shared => .committed e
  | .freeing _ _ => .unreached e

/-- An object is handed to its reclaimer, or it is live and the stage of its batch says where. -/
theorem LiesIn.cases {object : Object} {place : Whereabouts} (inv : Inv cfg st)
    (lies : LiesIn st object place) :
    (∃ e batch, Live st e object ∧ st.mem e.batch = some batch ∧ place = batch.phase.place e) ∨
      ∃ k scanned, place = .invoked k ∧
        st.log[k]? = some (.reclaimed object.rid object.ptr object.reclaim scanned) := by
  -- Each place but the last is one phase of the batch.
  cases place with
  | pending s e =>
    obtain ⟨batch, stored, pending⟩ := inv.slots s _ lies.2
    exact .inl ⟨e, batch, ⟨lies.1, inv.unreached stored (by simp [pending])⟩, stored,
      by rw [pending, Phase.place]⟩
  | committed e =>
    obtain ⟨found, batch, stored, ⟨t, height, retiring⟩ | shared⟩ := lies
    · exact .inl ⟨e, batch, ⟨found, inv.unreached stored (by simp [retiring])⟩, stored,
        by rw [retiring, Phase.place]⟩
    · exact .inl ⟨e, batch, ⟨found, inv.unreached stored (by simp [shared])⟩, stored,
        by rw [shared, Phase.place]⟩
  | unreached e =>
    obtain ⟨found, t, i, member, ahead⟩ := lies
    obtain ⟨height, frame⟩ := exists_frameAt member
    obtain ⟨b, batch, eq, stored, freeing⟩ := inv.frames t height _ frame
    cases eq
    refine .inl ⟨e, batch, ⟨found, ?_⟩, stored, by rw [freeing, Phase.place]⟩
    rw [inv.reached frame]
    omega
  | invoked k =>
    obtain ⟨scanned, logged⟩ := lies
    exact .inr ⟨k, scanned, rfl, logged⟩

/-- A live object is in the place that the stage of its batch says. -/
theorem Live.lies {e : EntryPtr} {object : Object} (inv : Inv cfg st) (tended : Tended st)
    (live : Live st e object) : ∃ place, LiesIn st object place := by
  obtain ⟨found, unpassed⟩ := live
  obtain ⟨entry, read, _⟩ := Option.map_eq_some_iff.mp found
  obtain ⟨batch, stored, _⟩ := exists_of_entryIn read
  have phase := inv.phases e.batch batch stored
  cases stage : batch.phase with
  | pending s =>
    rw [stage] at phase
    exact ⟨.pending s e, found, phase.1⟩
  | retiring t height => exact ⟨.committed e, found, batch, stored, .inl ⟨t, height, stage⟩⟩
  | shared => exact ⟨.committed e, found, batch, stored, .inr stage⟩
  | freeing t height =>
    -- The call that frees the batch has not passed the entry.
    obtain ⟨f, frame, is⟩ := tended.freeing e.batch batch t height stored stage
    cases f with
    | freeBatch batchPtr i =>
      cases batchPtr with
      | ptr b =>
        cases is
        rw [inv.reached frame] at unpassed
        exact ⟨.unreached e, found, t, i, mem_of_frameAt frame, by omega⟩
      | _ => cases is
    | _ => cases is

/-- Reclaimers of one retirement were invoked by one event. -/
theorem Conserved.same_event (conserved : Conserved st) {rid k k' : Nat} {p p' : Ptr}
    {f f' : Reclaim} {scanned scanned' : Option Nat}
    (first : st.log[k]? = some (.reclaimed rid p f scanned))
    (second : st.log[k']? = some (.reclaimed rid p' f' scanned')) : k = k' := by
  obtain ⟨small, is⟩ := List.getElem?_eq_some_iff.mp first
  obtain ⟨small', is'⟩ := List.getElem?_eq_some_iff.mp second
  have once := List.pairwise_iff_getElem.mp conserved.once
  rcases Nat.lt_trichotomy k k' with before | same | after
  · exact absurd (by rw [is']; rfl) (once k k' small small' before rid (by rw [is]; rfl))
  · exact same
  · exact absurd (by rw [is]; rfl) (once k' k small' small after rid (by rw [is']; rfl))

/-- Whatever is in a place has been retired as it is there. -/
theorem LiesIn.retired {object : Object} {place : Whereabouts} (inv : Inv cfg st)
    (conserved : Conserved st) (lies : LiesIn st object place) :
    .retired object.rid object.ptr object.reclaim ∈ st.log := by
  rcases lies.cases inv with ⟨e, batch, live, _⟩ | ⟨k, scanned, _, logged⟩
  · exact conserved.stored e object live
  · exact conserved.invoked _ _ _ scanned (List.mem_of_getElem? logged)

/-- A retirement is in one place only. -/
theorem LiesIn.unique {object object' : Object} {place place' : Whereabouts} (inv : Inv cfg st)
    (conserved : Conserved st) (lies : LiesIn st object place) (lies' : LiesIn st object' place')
    (same : object.rid = object'.rid) : place = place' := by
  -- A live object is in one entry, and one that was reclaimed has one event.
  rcases lies.cases inv with ⟨e, batch, live, stored, rfl⟩ | ⟨k, scanned, rfl, logged⟩
  · rcases lies'.cases inv with ⟨e', batch', live', stored', rfl⟩ | ⟨k', scanned', rfl, logged'⟩
    · cases conserved.placed e e' object object' live live' same
      cases stored.symm.trans stored'
      rfl
    · rw [← same] at logged'
      exact absurd (List.mem_of_getElem? logged') (conserved.waiting e object _ _ _ live)
  · rcases lies'.cases inv with ⟨e', batch', live', _, rfl⟩ | ⟨k', scanned', rfl, logged'⟩
    · rw [same] at logged
      exact absurd (List.mem_of_getElem? logged) (conserved.waiting e' object' _ _ _ live')
    · rw [← same] at logged'
      rw [conserved.same_event logged logged']

/-- Retired objects are conserved. -/
theorem retirements_conserved (cfg : Config) (st : State)
    (run : Reachable (Raw.step cfg) (Orderly cfg) State.init st) : Accounted st := by
  obtain ⟨sound, tended, conserved⟩ := reachable_audited run
  have inv := sound.inv
  refine ⟨?_, ?_⟩
  · intro rid p f retired
    -- An object stays in its batch until its reclaimer is called.
    have somewhere : ∃ place, LiesIn st ⟨rid, p, f⟩ place := by
      rcases conserved.kept rid p f retired with ⟨e, live⟩ | ⟨scanned, ran⟩
      · exact live.lies inv tended
      · obtain ⟨k, logged⟩ := List.mem_iff_getElem?.mp ran
        exact ⟨.invoked k, scanned, logged⟩
    obtain ⟨place, lies⟩ := somewhere
    refine ⟨place, lies, fun place' p' f' lies' => ?_⟩
    obtain ⟨samePtr, sameReclaim⟩ :=
      conserved.unique rid p' f' p f (lies'.retired inv conserved) retired
    exact ⟨lies'.unique inv conserved lies rfl, samePtr, sameReclaim⟩
  · intro rid refused p f place lies
    exact conserved.refused rid p f refused (lies.retired inv conserved)

/-- The rules of an orderly run that speak of one action, decided for the first `n` slots. -/
def orderlyCheck (n : Nat) (st : State) (move : Tid × Action) : Bool :=
  match move.2 with
  | .panic => false
  | .reclaimAll => decide (st.stack move.1 = []) &&
    (List.range n).all fun s => decide (st.head s = .inactive)
  | _ => true

/-- A run that passes both checks is orderly. -/
theorem orderly_of_check {n : Nat} (within : Within n st) {move : Tid × Action}
    (access : accessCheck cfg n st move = true) (checked : orderlyCheck n st move = true) :
    Orderly cfg st move := by
  obtain ⟨t, action⟩ := move
  refine ⟨accessCheck_sound within _ access, ?_, ?_⟩
  · rintro rfl
    cases checked
  · rintro rfl
    simp only [orderlyCheck, Bool.and_eq_true, decide_eq_true_eq, List.all_eq_true] at checked
    refine ⟨checked.1, fun s active => active ?_⟩
    by_cases small : s < n
    · exact checked.2 s (List.mem_range.mpr small)
    · exact within.heads s (Nat.le_of_not_lt small)

/--
One retirement fails and two succeed, in two slots.

Then `reclaim_all` runs the reclaimer of the first of them, which retires another object.
-/
def reclaimWhileRetiring : List (Tid × Action) :=
  [(0, .add 0 6 9 { plenty 1 with box := false }), (0, .add 0 7 9 (plenty 1)),
    (1, .add 1 8 9 (plenty 2)), (0, .reclaimAll), (0, .advance false), (0, .advance false),
    (0, .add 0 5 9 (plenty 3))]

/-- There retirements are refused, pending and invoked, and all of them accounted for. -/
theorem retirements_conserved_reclaimWhileRetiring : ∃ st,
    Reachable (Raw.step ⟨64, 4⟩) (Orderly ⟨64, 4⟩) State.init st ∧ Event.refused 0 ∈ st.log ∧
      Event.retired 1 7 9 ∈ st.log ∧ Event.retired 2 8 9 ∈ st.log ∧ Event.retired 3 5 9 ∈ st.log ∧
        Accounted st := by
  obtain ⟨st, run, ended⟩ := reachable_of_check ⟨64, 4⟩ 2 (Orderly ⟨64, 4⟩) (orderlyCheck 2)
    (fun st => decide (Event.refused 0 ∈ st.log ∧ Event.retired 1 7 9 ∈ st.log ∧
      Event.retired 2 8 9 ∈ st.log ∧ Event.retired 3 5 9 ∈ st.log))
    reclaimWhileRetiring (fun _ _ within access checked => orderly_of_check within access checked)
    (by decide)
  obtain ⟨refused, first, second, third⟩ := of_decide_eq_true ended
  exact ⟨st, run, refused, first, second, third, retirements_conserved _ st run⟩

end Seize.Raw
