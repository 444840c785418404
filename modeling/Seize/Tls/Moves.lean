import Seize.Tls.Local

/-! What each action on a `ThreadLocal` does when it succeeds. -/

namespace Seize.Tls

variable {τ : Type}

/-- What an action does when it succeeds. -/
inductive Move (cfg : Config) (st : State τ) : Action τ → State τ → Prop where
  | loadOr {t id thread} (idle : st.calls t = none) (found : Thread.new cfg.width id = .ok thread) :
      Move cfg st (.loadOr t id) ((st.setCall t (some (.load thread))).record id .called)
  | get {t id thread} (idle : st.calls t = none) (found : Thread.new cfg.width id = .ok thread) :
      Move cfg st (.get t id) ((st.setCall t (some (.get thread))).record id .asked)
  /-- `load_or` finds no bucket. -/
  | loadNull {t thread} (call : st.calls t = some (.load thread))
      (null : st.buckets thread.bucket = none) :
      Move cfg st (.step t) (st.setCall t (some (.allocate thread)))
  /-- `load_or` finds a bucket. -/
  | loadSome {t thread a} (call : st.calls t = some (.load thread))
      (found : st.buckets thread.bucket = some a) :
      Move cfg st (.step t) (st.setCall t (some (.check thread a)))
  /-- The allocation fails. -/
  | allocateFail {t thread answer} (call : st.calls t = some (.allocate thread)) :
      Move cfg st (.allocate t answer) ((st.setCall t none).record thread.id .failed)
  /-- The allocation succeeds. -/
  | allocate {t thread a capacity layout} (call : st.calls t = some (.allocate thread))
      (sized : Thread.bucketCapacity cfg.width thread.bucket = .ok capacity)
      (fits : bucketLayout cfg capacity = some layout) (free : st.heap a = none) :
      Move cfg st (.allocate t (some a)) ({ st with
        heap := Function.update st.heap a (some (emptyBucket τ capacity))
        ledger := .alloc a layout :: st.ledger }.setCall t (some (.exchange thread a)))
  /-- The compare-exchange installs the new bucket. -/
  | win {t thread new} (call : st.calls t = some (.exchange thread new))
      (null : st.buckets thread.bucket = none) :
      Move cfg st (.step t) ({ st with
        buckets := Function.update st.buckets thread.bucket (some new) }.setCall t
          (some (.check thread new)))
  /-- The compare-exchange finds another bucket, and the new one is freed. -/
  | lose {t thread new other capacity layout bucket}
      (call : st.calls t = some (.exchange thread new))
      (taken : st.buckets thread.bucket = some other)
      (sized : Thread.bucketCapacity cfg.width thread.bucket = .ok capacity)
      (fits : bucketLayout cfg capacity = some layout) (stored : st.heap new = some bucket) :
      Move cfg st (.step t) ({ st with
        heap := Function.update st.heap new none
        ledger := .dealloc new layout :: st.ledger }.setCall t (some (.check thread other)))
  /-- `load_or` finds a value. -/
  | present {t thread a bucket value} (call : st.calls t = some (.check thread a))
      (stored : st.heap a = some bucket) (inside : thread.entry < bucket.capacity)
      (marked : (bucket.entries thread.entry).present = true)
      (read : (bucket.entries thread.entry).value = some value) :
      Move cfg st (.step t) ((st.setCall t none).record thread.id (.returned value))
  /-- `load_or` finds no value. -/
  | absent {t thread a bucket} (call : st.calls t = some (.check thread a))
      (stored : st.heap a = some bucket) (inside : thread.entry < bucket.capacity)
      (unmarked : (bucket.entries thread.entry).present = false) :
      Move cfg st (.step t) (st.setCall t (some (.write thread a)))
  | write {t thread a bucket value} (call : st.calls t = some (.write thread a))
      (stored : st.heap a = some bucket) (inside : thread.entry < bucket.capacity) :
      Move cfg st (.create t value) (({ st with
        heap := Function.update st.heap a (some { bucket with
          entries := Function.update bucket.entries thread.entry
            { bucket.entries thread.entry with value := some value } }) }.setCall t
              (some (.store thread a))).record thread.id (.created value))
  | store {t thread a bucket value} (call : st.calls t = some (.store thread a))
      (stored : st.heap a = some bucket) (inside : thread.entry < bucket.capacity)
      (read : (bucket.entries thread.entry).value = some value) :
      Move cfg st (.step t) ((({ st with
        heap := Function.update st.heap a (some { bucket with
          entries := Function.update bucket.entries thread.entry
            { bucket.entries thread.entry with present := true } }) }.setCall t none).record
              thread.id (.installed value)).record thread.id (.returned value))
  /-- `get` finds no bucket. -/
  | getNull {t thread} (call : st.calls t = some (.get thread))
      (null : st.buckets thread.bucket = none) :
      Move cfg st (.step t) ((st.setCall t none).record thread.id (.got none))
  /-- `get` finds a bucket. -/
  | getSome {t thread a} (call : st.calls t = some (.get thread))
      (found : st.buckets thread.bucket = some a) :
      Move cfg st (.step t) (st.setCall t (some (.getCheck thread a)))
  /-- `get` finds a value. -/
  | gotSome {t thread a bucket value} (call : st.calls t = some (.getCheck thread a))
      (stored : st.heap a = some bucket) (inside : thread.entry < bucket.capacity)
      (marked : (bucket.entries thread.entry).present = true)
      (read : (bucket.entries thread.entry).value = some value) :
      Move cfg st (.step t) ((st.setCall t none).record thread.id (.got (some value)))
  /-- `get` finds no value. -/
  | gotNone {t thread a bucket} (call : st.calls t = some (.getCheck thread a))
      (stored : st.heap a = some bucket) (inside : thread.entry < bucket.capacity)
      (unmarked : (bucket.entries thread.entry).present = false) :
      Move cfg st (.step t) ((st.setCall t none).record thread.id (.got none))
  /-- An iterator is created or takes a step. -/
  | iterate {action : Action τ} (iters : Nat → Option Iter) (iterates : action.tid = none) :
      Move cfg st action { st with iters := iters }

variable {cfg : Config} {st st' : State τ} {t t' : Tid} {thread thread' : Thread}
  {action : Action τ} {a : Addr}

/-- A bucket that can be dereferenced is allocated and large enough. -/
theorem deref_ok {bucket : Bucket τ} {entry : Nat} (read : deref st a entry = .ok bucket) :
    st.heap a = some bucket ∧ entry < bucket.capacity := by
  unfold deref at read
  split at read
  · rename_i stored
    split at read
    · rename_i inside
      cases read
      exact ⟨stored, inside⟩
    · cases read
  · cases read

/-- An entry that can be read holds a value. -/
theorem readEntry_ok {bucket : Bucket τ} {entry : Nat} {value : τ}
    (read : readEntry bucket entry = .ok value) : (bucket.entries entry).value = some value := by
  unfold readEntry at read
  split at read
  · rename_i held
    cases read
    exact held
  · cases read

/-- A step of an iterator changes nothing but the iterator. -/
theorem iterStep_move {i : Nat} {iter : Iter} (ran : iterStep cfg st i iter = .ok st') :
    ∃ iters, st' = { st with iters := iters } := by
  unfold iterStep at ran
  dsimp only at ran
  split at ran
  · cases ran
  · split at ran
    · split at ran
      · cases ran
        exact ⟨_, rfl⟩
      · cases ran
        exact ⟨_, rfl⟩
    · cases ran
      exact ⟨_, rfl⟩
  · split at ran
    · split at ran
      · cases ran
      · split at ran
        · split at ran
          · cases ran
          · cases ran
            exact ⟨_, rfl⟩
        · cases ran
          exact ⟨_, rfl⟩
    · cases ran
      exact ⟨_, rfl⟩

/-- The start of a call. -/
theorem begin_ok {id : Nat} {call : Thread → Call} {event : Event τ}
    (ran : begin cfg st t id call event = .ok st') : ∃ thread, st.calls t = none ∧
      Thread.new cfg.width id = .ok thread ∧
        st' = (st.setCall t (some (call thread))).record id event := by
  unfold begin at ran
  split at ran
  · rename_i thread idle found
    cases ran
    exact ⟨thread, idle, found, rfl⟩
  · cases ran

/-- An allocation in `initialize` is one of two moves. -/
theorem allocateStep_move {answer : Option Addr} (call : st.calls t = some (.allocate thread))
    (ran : allocateStep cfg st t thread answer = .ok st') : Move cfg st (.allocate t answer) st' := by
  unfold allocateStep at ran
  split at ran
  · cases ran
  · rename_i capacity sized
    unfold allocateBucket at ran
    split at ran
    · cases ran
    · cases ran
      exact .allocateFail call
    · rename_i a st₁ allocated
      cases ran
      split at allocated
      · rename_i layout a' fits
        split at allocated
        · cases allocated
        · rename_i free
          cases allocated
          exact .allocate call sized fits free
      · cases allocated

/-- A compare-exchange in `initialize` is one of two moves. -/
theorem exchangeStep_move {new : Addr} (call : st.calls t = some (.exchange thread new))
    (ran : exchangeStep cfg st t thread new = .ok st') : Move cfg st (.step t) st' := by
  unfold exchangeStep at ran
  split at ran
  · rename_i null
    cases ran
    exact .win call null
  · rename_i other taken
    split at ran
    · cases ran
    · rename_i capacity sized
      unfold freeBucket at ran
      cases stored : st.heap new with
      | none => simp [stored] at ran
      | some bucket =>
        cases fits : bucketLayout cfg capacity with
        | none => simp [stored, fits] at ran
        | some layout =>
          simp only [stored, fits] at ran
          cases ran
          exact .lose call taken sized fits stored

/-- A check of the `present` flag is one of two moves. -/
theorem checkStep_move (call : st.calls t = some (.check thread a))
    (ran : checkStep st t thread a = .ok st') : Move cfg st (.step t) st' := by
  unfold checkStep at ran
  split at ran
  · cases ran
  · rename_i bucket read
    obtain ⟨stored, inside⟩ := deref_ok read
    split at ran
    · rename_i marked
      split at ran
      · cases ran
      · rename_i value held
        cases ran
        exact .present call stored inside marked (readEntry_ok held)
    · rename_i unmarked
      cases ran
      exact .absent call stored inside (by simpa using unmarked)

/-- A check in `get` is one of two moves. -/
theorem getCheckStep_move (call : st.calls t = some (.getCheck thread a))
    (ran : getCheckStep st t thread a = .ok st') : Move cfg st (.step t) st' := by
  unfold getCheckStep at ran
  split at ran
  · cases ran
  · rename_i bucket read
    obtain ⟨stored, inside⟩ := deref_ok read
    split at ran
    · rename_i marked
      split at ran
      · cases ran
      · rename_i value held
        cases ran
        exact .gotSome call stored inside marked (readEntry_ok held)
    · rename_i unmarked
      cases ran
      exact .gotNone call stored inside (by simpa using unmarked)

/-- The store of the `present` flag. -/
theorem storeStep_move (call : st.calls t = some (.store thread a))
    (ran : storeStep st t thread a = .ok st') : Move cfg st (.step t) st' := by
  unfold storeStep at ran
  split at ran
  · cases ran
  · rename_i bucket read
    obtain ⟨stored, inside⟩ := deref_ok read
    split at ran
    · cases ran
    · rename_i value held
      cases ran
      exact .store call stored inside (readEntry_ok held)

/-- Every action that succeeds is one of the moves. -/
theorem step_move (ran : step cfg st action = .ok st') : Move cfg st action st' := by
  cases action with
  | loadOr t id =>
    obtain ⟨thread, idle, found, rfl⟩ := begin_ok ran
    exact .loadOr idle found
  | get t id =>
    obtain ⟨thread, idle, found, rfl⟩ := begin_ok ran
    exact .get idle found
  -- The next step of a call depends on where the call is.
  | step t =>
    simp only [step] at ran
    split at ran
    · rename_i thread call
      unfold loadStep at ran
      split at ran
      · rename_i null
        cases ran
        exact .loadNull call null
      · rename_i found
        cases ran
        exact .loadSome call found
    · rename_i call
      exact exchangeStep_move call ran
    · rename_i call
      exact checkStep_move call ran
    · rename_i call
      exact storeStep_move call ran
    · rename_i thread call
      unfold getStep at ran
      split at ran
      · rename_i null
        cases ran
        exact .getNull call null
      · rename_i found
        cases ran
        exact .getSome call found
    · rename_i call
      exact getCheckStep_move call ran
    · cases ran
  | allocate t answer =>
    simp only [step] at ran
    split at ran
    · rename_i call
      exact allocateStep_move call ran
    · cases ran
  | create t value =>
    simp only [step] at ran
    split at ran
    · rename_i thread a call
      unfold writeStep at ran
      split at ran
      · cases ran
      · rename_i bucket read
        obtain ⟨stored, inside⟩ := deref_ok read
        cases ran
        exact .write call stored inside
    · cases ran
  | iter i =>
    simp only [step, newIter] at ran
    split at ran
    · cases ran
    · cases ran
      exact .iterate _ rfl
  | next i =>
    simp only [step] at ran
    split at ran
    · obtain ⟨iters, rfl⟩ := iterStep_move ran
      exact .iterate iters rfl
    · cases ran

end Seize.Tls
