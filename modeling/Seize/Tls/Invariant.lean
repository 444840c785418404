import Seize.Tls.Moves

/-!
What holds between any two steps on a `ThreadLocal`.

Every call uses the bucket that was installed, and no two calls share a slot.
-/

namespace Seize.Tls

variable {τ : Type} {cfg : Config} {st st' : State τ} {t t' : Tid} {thread thread' : Thread}
  {action : Action τ} {a : Addr}

/-- What a call in progress knows about the bucket it uses. -/
def CallOk (st : State τ) : Call → Prop
  | .exchange thread new =>
    st.heap new = some (emptyBucket τ (2 ^ (thread.bucket + 5))) ∧ ∀ i, st.buckets i ≠ some new
  | .check thread a => st.buckets thread.bucket = some a
  | .write thread a => st.buckets thread.bucket = some a ∧
    ∃ entry, st.entryAt thread.bucket thread.entry = some entry ∧ entry.present = false
  | .store thread a => st.buckets thread.bucket = some a ∧
    ∃ value, st.entryAt thread.bucket thread.entry = some ⟨false, some value⟩
  | .getCheck thread a => st.buckets thread.bucket = some a
  | _ => True

/-- The invariant of a `ThreadLocal`. -/
structure Inv (cfg : Config) (st : State τ) : Prop where
  slots : ∀ t call, st.calls t = some call → Thread.new cfg.width call.thread.id = .ok call.thread
  calls : ∀ t call, st.calls t = some call → CallOk st call
  unique : ∀ t t' call call', st.calls t = some call → st.calls t' = some call' →
    call.thread.id = call'.thread.id → t = t'
  apart : ∀ t t' thread thread' new, st.calls t = some (.exchange thread new) →
    st.calls t' = some (.exchange thread' new) → t = t'
  buckets : ∀ i a, st.buckets i = some a → i < bucketCount cfg.width ∧
    ∃ bucket, st.heap a = some bucket ∧ bucket.capacity = 2 ^ (i + 5)
  injective : ∀ i j a, st.buckets i = some a → st.buckets j = some a → i = j
  values : ∀ i e entry, st.entryAt i e = some entry → entry.present = true → entry.value ≠ none

/-- The permitted IDs are those that have a slot. -/
theorem Thread.small_of_new {width id : Nat} (found : Thread.new width id = .ok thread) :
    id ≤ maxIndex width := by
  by_contra large
  rw [Thread.new, if_pos (Nat.lt_of_not_le large)] at found
  cases found

/-- Distinct IDs with the same bucket have distinct entries. -/
theorem Thread.entry_ne {width : Nat} (large : 6 ≤ width)
    (found : Thread.new width thread.id = .ok thread)
    (found' : Thread.new width thread'.id = .ok thread') (differ : thread.id ≠ thread'.id) :
    (thread.bucket, thread.entry) ≠ (thread'.bucket, thread'.entry) := by
  intro same
  obtain ⟨bucket, entry⟩ := Prod.mk.inj same
  exact differ (Thread.new_injective large (small_of_new found) (small_of_new found') found found'
    bucket entry)

/-- The entry of a slot whose bucket is known. -/
theorem State.entryAt_eq {i e : Nat} {bucket : Bucket τ} (found : st.buckets i = some a)
    (stored : st.heap a = some bucket) : st.entryAt i e = some (bucket.entries e) := by
  simp [State.entryAt, found, stored]

/-- What is not installed can change without changing any entry. -/
theorem State.entryAt_heap {content : Option (Bucket τ)} (buckets : st'.buckets = st.buckets)
    (heap : st'.heap = Function.update st.heap a content) (out : ∀ i, st.buckets i ≠ some a) :
    st'.entryAt = st.entryAt := by
  funext i e
  simp only [State.entryAt, buckets, heap]
  cases found : st.buckets i with
  | none => rfl
  | some a' =>
    have other : a' ≠ a := by
      rintro rfl
      exact out i found
    simp [Function.update_of_ne other]

/-- Writing one entry of an installed bucket. -/
theorem State.entryAt_write {i : Nat} {bucket : Bucket τ} {k : Nat} {entry : Entry τ}
    (inv : Inv cfg st) (found : st.buckets i = some a) (buckets : st'.buckets = st.buckets)
    (heap : st'.heap = Function.update st.heap a (some { bucket with
      entries := Function.update bucket.entries k entry }))
    (stored : st.heap a = some bucket) (j e : Nat) :
    st'.entryAt j e = if (j, e) = (i, k) then some entry else st.entryAt j e := by
  -- Buckets of different indices are at different addresses.
  by_cases row : j = i
  · subst row
    by_cases column : e = k
    · subst column
      simp [State.entryAt, buckets, heap, found]
    · simp [State.entryAt, buckets, heap, found, stored, column]
  · rw [if_neg fun same => row (Prod.mk.inj same).1]
    simp only [State.entryAt, buckets, heap]
    cases other : st.buckets j with
    | none => rfl
    | some a' =>
      have differ : a' ≠ a := by
        rintro rfl
        exact row (inv.injective j i a' other found)
      simp [Function.update_of_ne differ]

/-- A call still knows what it knew when its own slot and its bucket are as they were. -/
theorem CallOk.keep {call : Call} (ok : CallOk st call)
    (buckets : ∀ i a, st.buckets i = some a → st'.buckets i = some a)
    (entry : st'.entryAt call.thread.bucket call.thread.entry =
      st.entryAt call.thread.bucket call.thread.entry)
    (exchange : ∀ thread new, call = .exchange thread new →
      st'.heap new = st.heap new ∧ ∀ i, st'.buckets i = some new → st.buckets i = some new) :
    CallOk st' call := by
  -- A call relies on its bucket and on its own entry.
  cases call with
  | exchange thread new =>
    obtain ⟨same, out⟩ := exchange thread new rfl
    exact ⟨same.trans ok.1, fun i found => ok.2 i (out i found)⟩
  | check thread a => exact buckets _ _ ok
  | write thread a =>
    obtain ⟨found, e, read, unmarked⟩ := ok
    exact ⟨buckets _ _ found, e, entry.trans read, unmarked⟩
  | store thread a =>
    obtain ⟨found, value, read⟩ := ok
    exact ⟨buckets _ _ found, value, entry.trans read⟩
  | getCheck thread a => exact buckets _ _ ok
  | _ => trivial

/-- The rule for moves of one thread. -/
theorem Inv.keep {call : Option Call} (inv : Inv cfg st)
    (calls : st'.calls = Function.update st.calls t call)
    (others : ∀ t' old, t' ≠ t → st.calls t' = some old → CallOk st' old)
    (own : ∀ new, call = some new → Thread.new cfg.width new.thread.id = .ok new.thread ∧
      CallOk st' new ∧ (∀ t' old, t' ≠ t → st.calls t' = some old → old.thread.id ≠ new.thread.id) ∧
        ∀ thread a, new = .exchange thread a → ∀ t' thread', t' ≠ t →
          st.calls t' ≠ some (.exchange thread' a))
    (buckets : ∀ i a, st'.buckets i = some a → i < bucketCount cfg.width ∧
      ∃ bucket, st'.heap a = some bucket ∧ bucket.capacity = 2 ^ (i + 5))
    (injective : ∀ i j a, st'.buckets i = some a → st'.buckets j = some a → i = j)
    (values : ∀ i e entry, st'.entryAt i e = some entry → entry.present = true →
      entry.value ≠ none) : Inv cfg st' := by
  -- A call of the new state is the new one, or one of another thread.
  have split : ∀ t' new, st'.calls t' = some new →
      (t' = t ∧ call = some new) ∨ (t' ≠ t ∧ st.calls t' = some new) := by
    intro t' new found
    rw [calls] at found
    by_cases here : t' = t
    · subst here
      rw [Function.update_self] at found
      exact .inl ⟨rfl, found⟩
    · rw [Function.update_of_ne here] at found
      exact .inr ⟨here, found⟩
  refine ⟨?_, ?_, ?_, ?_, buckets, injective, values⟩
  · intro t' new found
    rcases split t' new found with ⟨_, is⟩ | ⟨_, old⟩
    · exact (own new is).1
    · exact inv.slots t' new old
  · intro t' new found
    rcases split t' new found with ⟨_, is⟩ | ⟨other, old⟩
    · exact (own new is).2.1
    · exact others t' new other old
  · intro t₁ t₂ call₁ call₂ found₁ found₂ same
    rcases split t₁ call₁ found₁ with ⟨rfl, is₁⟩ | ⟨other₁, old₁⟩
    · rcases split t₂ call₂ found₂ with ⟨rfl, _⟩ | ⟨other₂, old₂⟩
      · rfl
      · exact absurd same.symm ((own call₁ is₁).2.2.1 t₂ call₂ other₂ old₂)
    · rcases split t₂ call₂ found₂ with ⟨rfl, is₂⟩ | ⟨_, old₂⟩
      · exact absurd same ((own call₂ is₂).2.2.1 t₁ call₁ other₁ old₁)
      · exact inv.unique t₁ t₂ call₁ call₂ old₁ old₂ same
  · intro t₁ t₂ thread₁ thread₂ new found₁ found₂
    rcases split t₁ _ found₁ with ⟨rfl, is₁⟩ | ⟨other₁, old₁⟩
    · rcases split t₂ _ found₂ with ⟨rfl, _⟩ | ⟨other₂, old₂⟩
      · rfl
      · exact absurd old₂ ((own _ is₁).2.2.2 thread₁ new rfl t₂ thread₂ other₂)
    · rcases split t₂ _ found₂ with ⟨rfl, is₂⟩ | ⟨_, old₂⟩
      · exact absurd old₁ ((own _ is₂).2.2.2 thread₂ new rfl t₁ thread₁ other₁)
      · exact inv.apart t₁ t₂ thread₁ thread₂ new old₁ old₂

/-- Nobody else has a call for the ID of a call in progress. -/
theorem Inv.alone {call : Call} (inv : Inv cfg st) (found : st.calls t = some call) :
    ∀ t' old, t' ≠ t → st.calls t' = some old → old.thread.id ≠ call.thread.id :=
  fun t' old other old_ same => other (inv.unique t' t old call old_ found same)

/-- The rule for moves that leave the buckets alone and do not hold a new one. -/
theorem Inv.quiet {call : Option Call} (inv : Inv cfg st)
    (calls : st'.calls = Function.update st.calls t call) (buckets : st'.buckets = st.buckets)
    (heap : st'.heap = st.heap)
    (own : ∀ new, call = some new → Thread.new cfg.width new.thread.id = .ok new.thread ∧
      CallOk st new ∧ (∀ t' old, t' ≠ t → st.calls t' = some old → old.thread.id ≠ new.thread.id) ∧
        ∀ thread a, new ≠ .exchange thread a) : Inv cfg st' := by
  -- No bucket changes, so the entries are the same.
  have entries : st'.entryAt = st.entryAt := by
    funext i e
    simp only [State.entryAt, buckets, heap]
  have kept : ∀ call, CallOk st call → CallOk st' call := by
    intro call ok
    refine ok.keep (fun i a found => ?_) (by rw [entries]) fun _ new _ => ⟨by rw [heap], ?_⟩
    · rw [buckets]
      exact found
    · intro i found
      rw [← buckets]
      exact found
  refine inv.keep calls (fun t' old _ found => kept old (inv.calls t' old found)) ?_ ?_ ?_ ?_
  · intro new is
    obtain ⟨slot, ok, alone, no⟩ := own new is
    exact ⟨slot, kept new ok, alone, fun thread a isExchange => absurd isExchange (no thread a)⟩
  · rw [buckets, heap]
    exact inv.buckets
  · rw [buckets]
    exact inv.injective
  · rw [entries]
    exact inv.values

/-- The rule for calls that go on with the same slot. -/
theorem Inv.proceed {old new : Call} (inv : Inv cfg st) (call : st.calls t = some old)
    (same : new.thread = old.thread) (ok : CallOk st new)
    (no : ∀ thread a, new ≠ .exchange thread a) : Inv cfg (st.setCall t (some new)) := by
  refine inv.quiet rfl rfl rfl fun new' is => ?_
  cases is
  rw [same]
  exact ⟨inv.slots t old call, ok, inv.alone call, no⟩

/-- The rule for calls that return. -/
theorem Inv.return (inv : Inv cfg st) (calls : st'.calls = Function.update st.calls t none)
    (buckets : st'.buckets = st.buckets) (heap : st'.heap = st.heap) : Inv cfg st' :=
  inv.quiet calls buckets heap fun _ is => by cases is

/-- Writing an entry through a call that owns it. -/
theorem Inv.setEntry {old : Call} {next : Option Call} {bucket : Bucket τ} {entry : Entry τ}
    (large : 6 ≤ cfg.width) (inv : Inv cfg st) (call : st.calls t = some old)
    (found : st.buckets old.thread.bucket = some a) (stored : st.heap a = some bucket)
    (calls : st'.calls = Function.update st.calls t next) (buckets : st'.buckets = st.buckets)
    (heap : st'.heap = Function.update st.heap a (some { bucket with
      entries := Function.update bucket.entries old.thread.entry entry }))
    (valued : entry.present = true → entry.value ≠ none)
    (own : ∀ new, next = some new → new.thread = old.thread ∧
      (∀ thread a, new ≠ .exchange thread a) ∧
        (st'.entryAt old.thread.bucket old.thread.entry = some entry →
          st'.buckets old.thread.bucket = some a → CallOk st' new)) : Inv cfg st' := by
  have entries := State.entryAt_write inv found buckets heap stored
  have there : st'.entryAt old.thread.bucket old.thread.entry = some entry := by
    rw [entries, if_pos rfl]
  refine inv.keep calls ?_ ?_ ?_ ?_ ?_
  · intro t' other differ found'
    have ok := inv.calls t' other found'
    refine ok.keep (fun i a' is => buckets ▸ is) ?_ fun thread' new is => ⟨?_, fun i is' => buckets ▸ is'⟩
    · -- Another ID has another slot.
      rw [entries, if_neg]
      exact Thread.entry_ne large (inv.slots t' other found') (inv.slots t old call)
        (inv.alone call t' other differ found')
    · subst is
      rw [heap, Function.update_of_ne]
      rintro rfl
      exact ok.2 _ found
  · intro new is
    obtain ⟨same, no, ok⟩ := own new is
    rw [same]
    exact ⟨inv.slots t old call, ok there (buckets ▸ found), inv.alone call,
      fun thread a' isExchange => absurd isExchange (no thread a')⟩
  · intro i a' is
    rw [buckets] at is
    obtain ⟨bound, bucket', stored', sized⟩ := inv.buckets i a' is
    refine ⟨bound, ?_⟩
    rw [heap]
    by_cases here : a' = a
    · subst here
      rw [Function.update_self]
      cases stored.symm.trans stored'
      exact ⟨_, rfl, sized⟩
    · rw [Function.update_of_ne here]
      exact ⟨bucket', stored', sized⟩
  · rw [buckets]
    exact inv.injective
  · intro i e entry' read marked
    rw [entries] at read
    split at read
    · cases read
      exact valued marked
    · exact inv.values i e entry' read marked

/-- The capacity of the bucket of a call in progress. -/
theorem Inv.capacity {call : Call} {capacity : Nat} (large : 6 ≤ cfg.width) (inv : Inv cfg st)
    (found : st.calls t = some call)
    (sized : Thread.bucketCapacity cfg.width call.thread.bucket = .ok capacity) :
    call.thread.bucket < bucketCount cfg.width ∧ capacity = 2 ^ (call.thread.bucket + 5) := by
  have slot := inv.slots t call found
  have within := (Thread.new_spec large (Thread.small_of_new slot) slot).2.1
  rw [Thread.bucketCapacity_eq large within] at sized
  cases sized
  exact ⟨within, rfl⟩

/-- Allocating a bucket that nobody uses yet. -/
theorem allocate_inv {capacity : Nat} (large : 6 ≤ cfg.width) (inv : Inv cfg st)
    (call : st.calls t = some (.allocate thread))
    (sized : Thread.bucketCapacity cfg.width thread.bucket = .ok capacity) (free : st.heap a = none)
    (calls : st'.calls = Function.update st.calls t (some (.exchange thread a)))
    (buckets : st'.buckets = st.buckets)
    (heap : st'.heap = Function.update st.heap a (some (emptyBucket τ capacity))) : Inv cfg st' := by
  have slot : Thread.new cfg.width thread.id = .ok thread := inv.slots t _ call
  have room : capacity = 2 ^ (thread.bucket + 5) := (inv.capacity large call sized).2
  -- A fresh address is not installed, and no other thread holds it.
  have out : ∀ i, st.buckets i ≠ some a := by
    intro i found
    obtain ⟨_, bucket, stored, _⟩ := inv.buckets i a found
    rw [free] at stored
    cases stored
  have entries := State.entryAt_heap buckets heap out
  have elsewhere : ∀ a', st.heap a' ≠ none → st'.heap a' = st.heap a' := by
    intro a' stored
    rw [heap]
    refine Function.update_of_ne ?_ _ _
    rintro rfl
    exact stored free
  refine inv.keep calls ?_ ?_ ?_ ?_ ?_
  · intro t' other differ found
    have ok := inv.calls t' other found
    refine ok.keep (fun _ _ is => buckets ▸ is) (by rw [entries])
      fun thread' new is => ⟨?_, fun _ is => buckets ▸ is⟩
    subst is
    exact elsewhere new (by simp [ok.1])
  · intro new is
    cases is
    refine ⟨slot, ⟨?_, fun i => buckets ▸ out i⟩,
      fun t' old other there => inv.alone call t' old other there, ?_⟩
    · rw [heap, Function.update_self, room]
    · intro thread' a' isExchange t' other differ found
      cases isExchange
      have ok := (inv.calls t' _ found).1
      rw [free] at ok
      cases ok
  · intro i a' found
    obtain ⟨bound, bucket, stored, sized⟩ := inv.buckets i a' (buckets ▸ found)
    exact ⟨bound, bucket, (elsewhere a' (by simp [stored])).trans stored, sized⟩
  · rw [buckets]
    exact inv.injective
  · rw [entries]
    exact inv.values

/-- Installing a bucket. -/
theorem win_inv {new : Addr} (large : 6 ≤ cfg.width) (inv : Inv cfg st)
    (call : st.calls t = some (.exchange thread new)) (null : st.buckets thread.bucket = none) :
    Inv cfg ({ st with
      buckets := Function.update st.buckets thread.bucket (some new) }.setCall t
        (some (.check thread new))) := by
  obtain ⟨stored, out⟩ := inv.calls t _ call
  have slot := inv.slots t _ call
  have within := (Thread.new_spec large (Thread.small_of_new slot) slot).2.1
  have grown : ∀ i a, st.buckets i = some a →
      Function.update st.buckets thread.bucket (some new) i = some a := by
    intro i a found
    rw [Function.update_of_ne]
    · exact found
    · rintro rfl
      rw [null] at found
      cases found
  -- A bucket that is installed now was installed before, or is the new one.
  have split : ∀ i a, Function.update st.buckets thread.bucket (some new) i = some a →
      (i = thread.bucket ∧ a = new) ∨ st.buckets i = some a := by
    intro i a found
    by_cases here : i = thread.bucket
    · subst here
      rw [Function.update_self] at found
      exact .inl ⟨rfl, (Option.some.inj found).symm⟩
    · rw [Function.update_of_ne here] at found
      exact .inr found
  refine inv.keep (t := t) rfl ?_ ?_ ?_ ?_ ?_
  · intro t' other differ found
    have ok := inv.calls t' other found
    cases other with
    | exchange thread' new' =>
      refine ⟨ok.1, fun i is => ?_⟩
      rcases split i new' is with ⟨_, rfl⟩ | old
      · exact differ (inv.apart t' t thread' thread new' found call)
      · exact ok.2 i old
    | check thread' a => exact grown _ _ ok
    | getCheck thread' a => exact grown _ _ ok
    | write thread' a =>
      obtain ⟨there, entry, read, unmarked⟩ := ok
      refine ⟨grown _ _ there, entry, ?_, unmarked⟩
      rw [← read]
      simp [State.entryAt, State.setCall, grown _ _ there, there]
    | store thread' a =>
      obtain ⟨there, value, read⟩ := ok
      refine ⟨grown _ _ there, value, ?_⟩
      rw [← read]
      simp [State.entryAt, State.setCall, grown _ _ there, there]
    | load => trivial
    | allocate => trivial
    | get => trivial
  · intro new' is
    cases is
    exact ⟨slot, Function.update_self .., fun t' old other there => inv.alone call t' old other there,
      fun _ _ isExchange => by cases isExchange⟩
  · intro i a found
    rcases split i a found with ⟨rfl, rfl⟩ | old
    · exact ⟨within, _, stored, rfl⟩
    · exact inv.buckets i a old
  · intro i j a first second
    rcases split i a first with ⟨rfl, rfl⟩ | old
    · rcases split j a second with ⟨rfl, _⟩ | old'
      · rfl
      · exact absurd old' (out j)
    · rcases split j a second with ⟨rfl, rfl⟩ | old'
      · exact absurd old (out i)
      · exact inv.injective i j a old old'
  · intro i e entry read marked
    simp only [State.entryAt, State.setCall] at read
    split at read
    · rename_i a found
      rcases split i a found with ⟨rfl, rfl⟩ | old
      · -- The new bucket has no value.
        simp only [stored, Option.map_some, Option.some.injEq] at read
        rw [← read] at marked
        cases marked
      · refine inv.values i e entry ?_ marked
        simpa [State.entryAt, old] using read
    · cases read

/-- Freeing a bucket that lost the race. -/
theorem lose_inv {new other : Addr} (inv : Inv cfg st)
    (call : st.calls t = some (.exchange thread new)) (taken : st.buckets thread.bucket = some other)
    (calls : st'.calls = Function.update st.calls t (some (.check thread other)))
    (buckets : st'.buckets = st.buckets) (heap : st'.heap = Function.update st.heap new none) :
    Inv cfg st' := by
  -- The bucket that loses was never published, so freeing it leaves all that is.
  obtain ⟨stored, out⟩ := inv.calls t _ call
  have slot : Thread.new cfg.width thread.id = .ok thread := inv.slots t _ call
  have there : CallOk st' (.check thread other) := by
    rw [CallOk, buckets]
    exact taken
  have entries := State.entryAt_heap buckets heap out
  refine inv.keep calls ?_ ?_ ?_ ?_ ?_
  · intro t' old differ found
    have ok := inv.calls t' old found
    refine ok.keep (fun _ _ is => buckets ▸ is) (by rw [entries])
      fun thread' new' is => ⟨?_, fun _ is => buckets ▸ is⟩
    subst is
    rw [heap]
    refine Function.update_of_ne ?_ _ _
    rintro rfl
    exact differ (inv.apart t' t thread' thread new' found call)
  · intro new' is
    cases is
    exact ⟨slot, there, fun t' old other there => inv.alone call t' old other there,
      fun _ _ isExchange => by cases isExchange⟩
  · intro i a found
    rw [buckets] at found
    obtain ⟨bound, bucket, stored', sized⟩ := inv.buckets i a found
    refine ⟨bound, bucket, ?_, sized⟩
    rw [heap]
    refine (Function.update_of_ne ?_ _ _).trans stored'
    rintro rfl
    exact out i found
  · rw [buckets]
    exact inv.injective
  · rw [entries]
    exact inv.values

/-- The step lemma: every move of a thread with unique access keeps the invariant. -/
theorem Move.inv (moved : Move cfg st action st') (large : 6 ≤ cfg.width)
    (access : UniqueAccess st action) (inv : Inv cfg st) : Inv cfg st' := by
  -- The start of a call.
  have begun : ∀ {t id thread} (call : Call) {st₂ : State τ}, Thread.new cfg.width id = .ok thread →
      (∀ t call, st.calls t = some call → call.thread.id ≠ id) → call.thread = thread →
      CallOk st call → (∀ thread a, call ≠ .exchange thread a) →
      st₂.calls = Function.update st.calls t (some call) → st₂.buckets = st.buckets →
      st₂.heap = st.heap → Inv cfg st₂ := by
    intro t id thread call st₂ found unused is ok no calls buckets heap
    have named : thread.id = id :=
      (Thread.new_spec large (Thread.small_of_new found) found).1
    refine inv.quiet calls buckets heap fun new eq => ?_
    cases eq
    rw [is, named]
    exact ⟨found, ok, fun t' old _ there => unused t' old there, no⟩
  cases moved with
  | @loadOr t id thread idle found =>
    exact begun (.load thread) found access rfl trivial (by simp) rfl rfl rfl
  | @get t id thread idle found =>
    exact begun (.get thread) found access rfl trivial (by simp) rfl rfl rfl
  | loadNull call => exact inv.proceed call rfl trivial (by simp)
  | loadSome call found => exact inv.proceed call rfl found (by simp)
  | allocateFail call => exact inv.return rfl rfl rfl
  | allocate call sized fits free => exact allocate_inv large inv call sized free rfl rfl rfl
  | win call null => exact win_inv large inv call null
  | lose call taken => exact lose_inv inv call taken rfl rfl rfl
  | present call => exact inv.return rfl rfl rfl
  | absent call stored inside unmarked =>
    have there := inv.calls _ _ call
    exact inv.proceed call rfl ⟨there, _, State.entryAt_eq there stored, unmarked⟩ (by simp)
  | @write t thread a bucket value call stored inside =>
    obtain ⟨there, entry, read, unmarked⟩ := inv.calls _ _ call
    rw [State.entryAt_eq there stored] at read
    cases read
    refine inv.setEntry large call there stored rfl rfl rfl (by simp) fun new is => ?_
    cases is
    refine ⟨rfl, by simp, fun read found => ⟨found, value, read.trans ?_⟩⟩
    simp [unmarked]
  | @store t thread a bucket value call stored inside read =>
    have there := (inv.calls _ _ call).1
    exact inv.setEntry large call there stored rfl rfl rfl (by simp [read]) fun new is => by cases is
  | getNull call => exact inv.return rfl rfl rfl
  | getSome call found => exact inv.proceed call rfl found (by simp)
  | gotSome call => exact inv.return rfl rfl rfl
  | gotNone call => exact inv.return rfl rfl rfl
  | iterate iters =>
    exact ⟨inv.slots, fun t call found => by
      have ok := inv.calls t call found
      cases call <;> exact ok, inv.unique, inv.apart, inv.buckets, inv.injective, inv.values⟩

end Seize.Tls
