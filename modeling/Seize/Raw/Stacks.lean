import Seize.Raw.Invariant

/-! Calls, returns and unwinding keep the invariant, and so does the bookkeeping of a step. -/

namespace Seize.Raw

variable {cfg : Config} {st : State} {t : Tid}

/-- After replacing one thread's stack, frames are found in the new stack or where they were. -/
@[simp] theorem State.frame_setStack (st : State) (t t' : Tid) (fs : List Frame) (height : Nat) :
    (st.setStack t fs).frame t' height = if t' = t then frameAt fs height else st.frame t' height := by
  simp only [State.frame, State.setStack, Function.update_apply]
  split <;> rfl

/-- After a call, a frame is the new one or stands where it was. -/
theorem State.frame_call {st' : State} {f g : Frame} {t' : Tid} {height : Nat}
    (stack : st'.stack = Function.update st.stack t (f :: st.stack t))
    (found : st'.frame t' height = some g) :
    (t' = t ∧ height = (st.stack t).length ∧ g = f) ∨ st.frame t' height = some g := by
  rw [State.frame, stack] at found
  by_cases here : t' = t
  · subst here
    rw [Function.update_self] at found
    rcases frameAt_cons found with ⟨atTop, same⟩ | ⟨_, old⟩
    · exact .inl ⟨rfl, atTop, same⟩
    · exact .inr old
  · rw [Function.update_of_ne here] at found
    exact .inr found

/-- After returns, a frame stands where it was. -/
theorem State.frame_suffix {st' : State} {fs : List Frame} {g : Frame} {t' : Tid} {height : Nat}
    (suffix : fs <:+ st.stack t) (stack : st'.stack = Function.update st.stack t fs)
    (found : st'.frame t' height = some g) : st.frame t' height = some g := by
  rw [State.frame, stack] at found
  by_cases here : t' = t
  · subst here
    rw [Function.update_self] at found
    exact frameAt_of_suffix suffix found
  · rw [Function.update_of_ne here] at found
    exact found

/-- A call leaves every frame where it was. -/
theorem State.frame_kept_call {st' : State} {f g : Frame} {t' : Tid} {height : Nat}
    (stack : st'.stack = Function.update st.stack t (f :: st.stack t))
    (found : st.frame t' height = some g) : st'.frame t' height = some g := by
  rw [State.frame, stack]
  by_cases here : t' = t
  · subst here
    rw [Function.update_self, frameAt_cons_of_lt (frameAt_lt found)]
    exact found
  · rw [Function.update_of_ne here]
    exact found

/-- A step of the innermost call leaves every other frame where it was. -/
theorem State.frame_kept {st' : State} {f g : Frame} (fs : List Frame) {below : List Frame}
    {t' : Tid} {height : Nat} (top : st.stack t = f :: below)
    (stack : st'.stack = Function.update st.stack t (fs ++ below))
    (found : st.frame t' height = some g) :
    (t' = t ∧ height = below.length ∧ g = f) ∨ st'.frame t' height = some g := by
  rw [State.frame, stack]
  by_cases here : t' = t
  · subst here
    rw [State.frame, top] at found
    rcases frameAt_cons found with ⟨atTop, same⟩ | ⟨lower, old⟩
    · exact .inl ⟨rfl, atTop, same⟩
    · right
      rw [Function.update_self]
      -- Whatever was put on top stands higher.
      clear top stack
      induction fs with
      | nil => exact old
      | cons k fs ih =>
        rw [List.cons_append, frameAt_cons_of_lt (by simp; omega)]
        exact ih
  · rw [Function.update_of_ne here]
    exact .inr found

/-- Unique access survives a stack whose batch users are old ones or alone. -/
theorem AccessOk.update {stack : Tid → List Frame} {fs : List Frame} (ok : AccessOk stack)
    (alone : ∀ f ∈ fs, ∀ s, f.usesBatch s → (∃ f' ∈ stack t, f'.usesBatch s) ∨
      ∀ t', t' ≠ t → ∀ f' ∈ stack t', f'.usesBatch s = false) :
    AccessOk (Function.update stack t fs) := by
  -- A user in the new stack stands for one in the old stack, or meets no other user at all.
  have lifted : ∀ s t', ∀ f ∈ fs, ∀ f' ∈ stack t', f.usesBatch s → f'.usesBatch s → t' = t := by
    intro s t' f member f' member' uses uses'
    rcases alone f member s uses with ⟨g, inStack, usesG⟩ | free
    · exact ok s t' t f' member' g inStack uses' usesG
    · by_contra other
      rw [free t' other f' member'] at uses'
      cases uses'
  intro s t₁ t₂ f₁ member₁ f₂ member₂ uses₁ uses₂
  by_cases first : t₁ = t <;> by_cases second : t₂ = t
  · rw [first, second]
  · subst first
    rw [Function.update_self] at member₁
    rw [Function.update_of_ne second] at member₂
    exact (lifted s t₂ f₁ member₁ f₂ member₂ uses₁ uses₂).symm
  · subst second
    rw [Function.update_self] at member₂
    rw [Function.update_of_ne first] at member₁
    exact lifted s t₁ f₂ member₂ f₁ member₁ uses₂ uses₁
  · rw [Function.update_of_ne first] at member₁
    rw [Function.update_of_ne second] at member₂
    exact ok s t₁ t₂ f₁ member₁ f₂ member₂ uses₁ uses₂

/-- What is left after returns has leaves at most on top. -/
theorem TopOnly.suffix {fs rest : List Frame} (tops : TopOnly fs) (suffix : rest <:+ fs) :
    TopOnly rest := by
  cases rest with
  | nil => trivial
  | cons f below =>
    intro g member
    obtain ⟨dropped, eq⟩ := suffix
    cases dropped with
    | nil =>
      simp only [List.nil_append] at eq
      subst eq
      exact tops g member
    | cons d dropped =>
      subst eq
      exact tops g (by simp [member])

/-- User code never runs above a leaf. -/
theorem TopOnly.of_userLevel {fs : List Frame} (tops : TopOnly fs) (user : userLevel fs = true) :
    ∀ g ∈ fs, g.isLeaf = false := by
  cases fs with
  | nil => simp
  | cons f below =>
    cases f <;> simp_all [userLevel]
    exact ⟨rfl, tops⟩

/-- The invariant rule for steps that only change one thread's stack. -/
theorem Inv.restack (inv : Inv cfg st) (fs : List Frame)
    (frames : ∀ height f, frameAt fs height = some f →
      st.frame t height = some f ∨ (FrameOk cfg st.batch st.mem t height f ∧ f.rest = []))
    (kept : ∀ height b marked i active seen, st.frame t height = some (.link b marked i active seen) →
      ∃ marked i active seen, frameAt fs height = some (.link b marked i active seen))
    (alone : ∀ f ∈ fs, ∀ s, f.usesBatch s →
      (∃ f' ∈ st.stack t, f'.usesBatch s) ∨ UniqueAccess st t s)
    (tops : TopOnly fs) : Inv cfg (st.setStack t fs) := by
  refine inv.transfer (fun _ => False) (fun _ _ => rfl) (fun _ _ _ => .rfl) ?_ ?_
    (fun _ _ touch => touch.elim) (fun _ _ touch => touch.elim) (fun _ _ touch => touch.elim)
    (fun e entry found _ => ⟨entry, found, rfl⟩) inv.idle (fun s first active => .inl ⟨active, rfl⟩)
    ?_ (inv.access.update alone) ?_
  · intro t' height f found
    rw [State.frame_setStack] at found
    split at found
    · rename_i same
      subst same
      exact (frames height f found).imp (fun old => ⟨old, by simp⟩) (·.1)
    · exact .inl ⟨found, by simp⟩
  · intro t' height b marked i active seen _ found
    rw [State.frame_setStack]
    split
    · rename_i same
      subst same
      exact kept height b marked i active seen found
    · exact ⟨marked, i, active, seen, found⟩
  · -- The new frames hold no list, and the old ones hold theirs.
    have smaller : ∀ place, (listAt (st.setStack t fs) place).Sublist (listAt st place) := by
      intro place
      cases place with
      | slot s => exact .refl _
      | call t' height =>
        simp only [listAt, State.frame_setStack]
        split
        · rename_i f found
          split at found
          · rename_i same
            subst same
            rcases frames height f found with old | ⟨_, empty⟩
            · simp [old]
            · simp [empty]
          · simp [found]
        · simp
    exact inv.lists.shrink smaller fun place e member => inv.lists.listed place e
      ((smaller place).subset member)
  · intro t'
    by_cases same : t' = t
    · subst same
      simpa [State.setStack] using tops
    · simpa [State.setStack, Function.update_of_ne same] using inv.tops t'

/-- Returning from calls keeps the invariant, except out of a linking loop. -/
theorem Inv.drop (inv : Inv cfg st) {fs : List Frame} (suffix : fs <:+ st.stack t)
    (outside : ∀ b marked i active seen, Frame.link b marked i active seen ∉ st.stack t) :
    Inv cfg (st.setStack t fs) := by
  refine inv.restack fs (fun height f found => .inl (frameAt_of_suffix suffix found)) ?_ ?_
    ((inv.tops t).suffix suffix)
  · intro height b marked i active seen found
    exact absurd (mem_of_frameAt found) (outside b marked i active seen)
  · intro f member s uses
    exact .inl ⟨f, suffix.subset member, uses⟩

/-- A call keeps the invariant if its frame is right and nothing below it is a leaf. -/
theorem Inv.call (inv : Inv cfg st) {f : Frame} (outside : ∀ g ∈ st.stack t, g.isLeaf = false)
    (ok : FrameOk cfg st.batch st.mem t (st.stack t).length f) (empty : f.rest = [])
    (alone : ∀ s, f.usesBatch s → (∃ f' ∈ st.stack t, f'.usesBatch s) ∨ UniqueAccess st t s) :
    Inv cfg (st.call t f) := by
  -- The new call is the only frame that was not there.
  refine inv.restack (f :: st.stack t) ?_ ?_ ?_ outside
  · intro height g found
    rcases frameAt_cons found with ⟨rfl, rfl⟩ | ⟨_, old⟩
    · exact .inr ⟨ok, empty⟩
    · exact .inl old
  · intro height b marked i active seen found
    exact absurd (outside _ (mem_of_frameAt found)) (by simp [Frame.isLeaf])
  · intro g member s uses
    rcases List.mem_cons.mp member with rfl | old
    · exact alone s uses
    · exact .inl ⟨g, old, uses⟩

/-- The innermost call may change its own frame as long as it stays the same kind of call. -/
theorem Inv.replace (inv : Inv cfg st) {f g : Frame} {below : List Frame}
    (top : st.stack t = f :: below) (ok : FrameOk cfg st.batch st.mem t below.length g)
    (empty : g.rest = []) (linking : ∀ b marked i active seen, f = .link b marked i active seen →
      ∃ marked i active seen, g = .link b marked i active seen)
    (uses : ∀ s, g.usesBatch s → f.usesBatch s) : Inv cfg (st.setStack t (g :: below)) := by
  refine inv.restack (g :: below) ?_ ?_ ?_ ?_
  · intro height k found
    rcases frameAt_cons found with ⟨rfl, rfl⟩ | ⟨lower, old⟩
    · exact .inr ⟨ok, empty⟩
    · exact .inl (by rw [State.frame, top, frameAt_cons_of_lt lower, old])
  · intro height b marked i active seen found
    rw [State.frame, top] at found
    rcases frameAt_cons found with ⟨rfl, eq⟩ | ⟨lower, old⟩
    · obtain ⟨m, j, a, s, rfl⟩ := linking b marked i active seen eq.symm
      exact ⟨m, j, a, s, by simp⟩
    · exact ⟨marked, i, active, seen, by rw [frameAt_cons_of_lt lower, old]⟩
  · intro k member s used
    rcases List.mem_cons.mp member with rfl | old
    · exact .inl ⟨f, by simp [top], uses s used⟩
    · exact .inl ⟨k, by simp [top, old], used⟩
  · have tops := inv.tops t
    rw [top] at tops
    exact tops

/-- The invariant reads only these components of a state. -/
theorem Inv.congr {st' : State} (inv : Inv cfg st) (mem : st'.mem = st.mem)
    (batch : st'.batch = st.batch) (stack : st'.stack = st.stack) (head : st'.head = st.head)
    (pushed : st'.pushed = st.pushed) : Inv cfg st' := by
  have frame : ∀ t height, st'.frame t height = st.frame t height := by
    intro t height
    rw [State.frame, State.frame, stack]
  have same : listAt st' = listAt st := by
    funext place
    cases place <;> simp [listAt, pushed, frame]
  -- No batch is touched.
  refine inv.transfer (fun _ => False) (fun b _ => by rw [mem]) (fun s b _ => by rw [batch])
    (fun t height f found => .inl ⟨frame t height ▸ found, by simp⟩)
    (fun t height b marked i active seen _ found => ⟨marked, i, active, seen, by rw [frame, found]⟩)
    (fun _ _ touch => touch.elim) (fun _ _ touch => touch.elim) (fun _ _ touch => touch.elim)
    (fun e entry found _ => ⟨entry, by rw [mem, found], rfl⟩) ?_ ?_ ?_ ?_ ?_
  · intro s inactive
    rw [pushed]
    exact inv.idle s (head ▸ inactive)
  · intro s first active
    exact .inl ⟨head ▸ active, by rw [pushed]⟩
  · rw [mem, same]
    exact inv.lists
  · rw [stack]
    exact inv.access
  · rw [stack]
    exact inv.tops

end Seize.Raw
