import Seize.PressureStack.Invariant

/-!
The steps of the collector, as the stack sees them.

A step either has nothing to do with the nodes or frees one that was retired, and no thread protects
that one.
-/

namespace Seize.PressureStack

open Seize.Raw (Config Tid Ptr Alloc Event)

variable {V : Type} {cfg : Config} {st : State V} {a : Atomic (List V) (Op V) (Reply V)} {t : Tid}
  {action : Raw.Action} {raw : Raw.State} {nodes : Ptr → Option (Node V)} {p : Ptr}

/-- No reclaimer was called. -/
theorem invokedBy_quiet {before after : Raw.State} (new : List Event)
    (log : after.log = new ++ before.log) (silent : ∀ event ∈ new, event.invokes = none) :
    invokedBy before after = none := by
  unfold invokedBy
  rw [log]
  cases new with
  | nil => simp
  | cons event rest =>
    -- The newest event is a new one.
    have quiet := silent event List.mem_cons_self
    cases event with
    | reclaimed => cases quiet
    | _ => simp

/-- A reclaimer was called. -/
theorem invokedBy_call {before after : Raw.State} {rid : Nat} {f : Raw.Reclaim}
    {scanned : Option Nat} (log : after.log = .reclaimed rid p f scanned :: before.log) :
    invokedBy before after = some p := by
  unfold invokedBy
  simp [log]

/-- What a step of the collector leaves. -/
structure Collected (cfg : Config) (st : State V) (t : Tid) (action : Raw.Action) (raw : Raw.State)
    (nodes : Ptr → Option (Node V)) : Prop where
  permitted : Raw.Client cfg st.raw (t, action)
  run : Reachable (Raw.step cfg) (Raw.Client cfg) .init raw
  moved : ∃ after, Raw.Move cfg st.raw t action after ∧ raw = Raw.tick after
  recorded : Raw.Recorded st.raw raw action
  kept : ∀ p, (Raw.Reclaimed raw p → Raw.Reclaimed st.raw p) → nodes p = st.nodes p
  gone : ∀ p, Raw.Reclaimed raw p → ¬ Raw.Reclaimed st.raw p → nodes p = none

/-- The collector has no undefined behaviour, and frees only nodes that are allocated. -/
theorem Valid.collects (valid : Valid cfg st a) (permitted : Raw.Client cfg st.raw (t, action)) :
    collect cfg st t action = .error .disabled ∨ ∃ raw nodes,
      collect cfg st t action = .ok { st with raw := raw, nodes := nodes } ∧
        Raw.step cfg st.raw (t, action) = .ok raw ∧ Collected cfg st t action raw nodes := by
  -- The collector's own invariants hold, since the stack is one of its clients.
  obtain ⟨guarded, audited⟩ := valid.collector
  unfold collect
  cases stepped : Raw.step cfg st.raw (t, action) with
  | error stop =>
    cases stop with
    | disabled => exact .inl rfl
    | undefinedBehaviour => exact absurd stepped (guarded.sound.defined _)
  | ok raw =>
    right
    obtain ⟨after, moved, same⟩ := Raw.step_move stepped
    have run := valid.run.tail permitted stepped
    have recorded : Raw.Recorded st.raw raw action := same ▸ moved.recorded guarded audited
    rcases recorded.calls with ⟨new, log, silent⟩ | ⟨rid, p, f, scanned, log, known, first⟩
    · -- Nothing is freed.
      refine ⟨raw, st.nodes, by simp only [invokedBy_quiet new log silent], rfl, permitted, run,
        ⟨after, moved, same⟩, recorded, fun _ _ => rfl, fun p now before => ?_⟩
      exact absurd ((Raw.reclaimed_quiet new log silent p).mp now) before
    · -- The node was retired once, and its reclaimer has not run before.
      have unreclaimed : ¬ Raw.Reclaimed st.raw p := by
        rintro ⟨rid', f', scanned', earlier⟩
        have books : Raw.Books (Raw.Live st.raw) st.raw.log st.raw.nextRid := audited.conserved
        have known' := books.invoked rid' p f' scanned' earlier
        cases valid.heap.single rid rid' p f f' known known'
        exact first f' scanned' earlier
      have place : st.place p = .retired := (valid.heap.retired p).mpr ⟨rid, f, known⟩
      have live : (st.nodes p).isSome :=
        (valid.heap.live p).mpr ⟨by simp [place], by simp [place], unreclaimed⟩
      obtain ⟨node, stored⟩ := Option.isSome_iff_exists.mp live
      refine ⟨raw, Function.update st.nodes p none, by simp only [invokedBy_call log, stored], rfl,
        permitted, run, ⟨after, moved, same⟩, recorded, fun q still => ?_, fun q now before => ?_⟩
      · refine Function.update_of_ne ?_ _ _
        rintro rfl
        exact unreclaimed (still ((Raw.reclaimed_call log q).mpr (.inr rfl)))
      · rcases (Raw.reclaimed_call log q).mp now with old | rfl
        · exact absurd old before
        · exact Function.update_self ..

namespace Collected

/-- The invariants of the collector afterwards. -/
theorem collector (collected : Collected cfg st t action raw nodes) :
    Raw.Guarded cfg raw ∧ Raw.Audited cfg raw :=
  Raw.reachable_client collected.run

/-- A node that is not retired afterwards stays. -/
theorem same_of (collected : Collected cfg st t action raw nodes)
    (unretired : ¬ Raw.Retired raw p) : nodes p = st.nodes p := by
  refine collected.kept p fun reclaimed => absurd ?_ unretired
  obtain ⟨rid, f, scanned, member⟩ := reclaimed
  exact collected.collector.1.shielded.logged rid p f scanned member

/-- So does a node that somebody protects afterwards. -/
theorem same_of_protects (collected : Collected cfg st t action raw nodes) {t' : Tid}
    (protects : Raw.Protects raw t' p) : nodes p = st.nodes p := by
  refine collected.kept p fun reclaimed => ?_
  obtain ⟨rid, f, scanned, member⟩ := reclaimed
  exact absurd protects (collected.collector.1.shielded.unreclaimed rid p f scanned t' member)

/-- What is reclaimed stays reclaimed. -/
theorem reclaimed_mono (collected : Collected cfg st t action raw nodes)
    (reclaimed : Raw.Reclaimed st.raw p) : Raw.Reclaimed raw p := by
  obtain ⟨rid, f, scanned, member⟩ := reclaimed
  rcases collected.recorded.calls with ⟨new, log, _⟩ | ⟨_, _, _, _, log, _⟩
  · exact ⟨rid, f, scanned, by rw [log]; exact List.mem_append_right _ member⟩
  · exact ⟨rid, f, scanned, by rw [log]; exact List.mem_cons_of_mem _ member⟩

/-- The allocated nodes are those that were allocated and have not been reclaimed now. -/
theorem live_iff (collected : Collected cfg st t action raw nodes) (heap : Heap st) (p : Ptr) :
    (nodes p).isSome ↔ st.place p ≠ .unborn ∧ st.place p ≠ .freed ∧ ¬ Raw.Reclaimed raw p := by
  -- A node is gone if its reclaimer has been called, in this step or before.
  by_cases now : Raw.Reclaimed raw p
  · by_cases before : Raw.Reclaimed st.raw p
    · rw [collected.kept p fun _ => before, heap.live]
      simp [now, before]
    · rw [collected.gone p now before]
      simp [now]
  · have before : ¬ Raw.Reclaimed st.raw p := fun earlier => now (collected.reclaimed_mono earlier)
    rw [collected.kept p fun is => absurd is now, heap.live]
    simp [now, before]

/-- Without a retirement, the heap is as it should be. -/
theorem heap (collected : Collected cfg st t action raw nodes) (heap : Heap st)
    (same : ∀ rid p f, .retired rid p f ∈ raw.log ↔ .retired rid p f ∈ st.raw.log) :
    Heap { st with raw := raw, nodes := nodes } where
  live := collected.live_iff heap
  retired p := by
    rw [heap.retired]
    simp only [Raw.Retired, same]
  single rid rid' p f f' first second :=
    heap.single rid rid' p f f' ((same _ _ _).mp first) ((same _ _ _).mp second)
  apart p q liveP liveQ same := by
    -- What is allocated now was allocated before.
    have before : ∀ {r}, (nodes r).isSome → (st.nodes r).isSome := by
      intro r live
      obtain ⟨born, unfreed, unreclaimed⟩ := (collected.live_iff heap r).mp live
      exact (heap.live r).mpr
        ⟨born, unfreed, fun earlier => unreclaimed (collected.reclaimed_mono earlier)⟩
    exact heap.apart p q (before liveP) (before liveQ) same

/-- A slot with room that belongs to a thread keeps it, unless the thread retires. -/
theorem roomy (collected : Collected cfg st t action raw nodes) (guarded : Raw.Guarded cfg st.raw)
    {s : Raw.SlotId} (other : action.scans ≠ some s) (roomy : Raw.Roomy st.raw s) :
    Raw.Roomy raw s := by
  obtain ⟨after, moved, rfl⟩ := collected.moved
  have spared : Raw.Spares s st.raw (t, action) := by
    refine ⟨other, collected.permitted.1.1.2, fun spurious _ => ?_⟩
    -- No `reclaim_all` is in progress.
    have outside : ∀ f : Raw.Frame, (st.raw.stack t).head? = some f → f.iteration = none := by
      intro f top
      obtain ⟨height, found⟩ := exists_frameAt (List.mem_of_mem_head? top)
      exact guarded.grace.outside t height f found
    refine ⟨fun top => ?_, fun top => ?_⟩
    · cases outside _ top
    · cases outside _ top
  have after := moved.roomy guarded.sound.inv spared roomy
  exact ⟨⟨after.present, after.room⟩, after.idle⟩

/-- Slots the action does not touch are as active as before, and protect the same pointers. -/
theorem slot_kept (collected : Collected cfg st t action raw nodes) {s : Raw.SlotId}
    (other : action.touches ≠ some s) :
    raw.protect s = st.raw.protect s ∧ (raw.Active s ↔ st.raw.Active s) := by
  obtain ⟨after, moved, rfl⟩ := collected.moved
  exact moved.slot_kept other

/-- Cells change only when they are accessed. -/
theorem cells (collected : Collected cfg st t action raw nodes)
    (other : ∀ s x op, action ≠ .access s x op) : raw.cells = st.raw.cells := by
  obtain ⟨after, moved, rfl⟩ := collected.moved
  exact moved.cells other

/-- A step that scans no batch retires nothing. -/
theorem retired_iff (collected : Collected cfg st t action raw nodes)
    (scans : action.scans = none) (rid : Nat) (p : Ptr) (f : Raw.Reclaim) :
    .retired rid p f ∈ raw.log ↔ .retired rid p f ∈ st.raw.log := by
  refine collected.recorded.retired_iff ?_
  rintro s p f c rfl
  cases scans

/-- Scans stay on the slots of their threads. -/
theorem scans (collected : Collected cfg st t action raw nodes) (valid : Valid cfg st a)
    (mine : ∀ s, action.scans = some s → s = t) (t' : Tid) :
    ∀ f ∈ raw.stack t', ∀ s, f.scanSlot = some s → s = t' := by
  obtain ⟨after, moved, rfl⟩ := collected.moved
  exact moved.scans_own valid.scans mine

end Collected

end Seize.PressureStack
