import D3OS.Process.Preemption

/-! The scheduler lock never waits for a preempted thread, as long as
`switch_thread` and the drop of a process begin under the right conditions. -/
namespace D3OS.Process.Processor

/-- Does the code in this context hold the lock? -/
def Holds (self : Processor) (lock : AllocatorLock) : Context → Prop
  | ⟨id, .thread⟩ => (self.activity id).holds lock = true
  | ⟨id, .interrupt⟩ => id = self.running ∧ ∃ work ∈ self.handler, work.held = some lock

/-- The invariant of all runs: only the code that runs holds `ready_state`. -/
structure Sound (cpu : Processor) : Prop where
  alone : ∀ id, (cpu.activity id).holdsReadyState = true → id = cpu.running ∧ cpu.handler = none
  locked : cpu.readyStateLocked = cpu.executing.holdsReadyState
  fits : cpu.scheduler.readyState.readyQueue.length ≤ cpu.capacity
  owned : ∀ lock owner, cpu.holder lock = some owner → cpu.Holds lock owner

section Steps

variable {self later : Processor}

theorem executing_of_handler {work : Work} (hHandler : self.handler = some work) :
    self.executing = .performing work := by
  simp only [executing, hHandler]

theorem executing_of_no_handler (hHandler : self.handler = none) :
    self.executing = self.activity self.running := by
  simp only [executing, hHandler]

theorem running_congr (hScheduler : later.scheduler = self.scheduler) :
    later.running = self.running := by
  simp only [running, hScheduler]

variable {lock : AllocatorLock} {place : Activity} {capacity count length : Nat}
  {operation : Operation}

/-- Code that holds nothing is not the owner of a lock that is held. -/
theorem Sound.owner_ne_context (h : Sound self) {owner : Context}
    (hOwner : self.holder lock = some owner) (hFree : self.executing.holds lock = false) :
    owner ≠ self.context := by
  rintro rfl
  have hHolds := h.owned lock _ hOwner
  unfold context at hHolds
  cases hHandler : self.handler with
  | none =>
    rw [executing_of_no_handler hHandler] at hFree
    simp [Holds, hHandler, hFree] at hHolds
  | some work =>
    rw [executing_of_handler hHandler] at hFree
    simp_all [Holds, Activity.holds]

/-- The owners after a step of the running code to another place. -/
def OwnersFollow (self later : Processor) (place : Activity) : Prop :=
  ∀ lock owner, later.holder lock = some owner →
    (owner = later.context ∧ place.holds lock = true) ∨
      (owner ≠ later.context ∧ self.holder lock = some owner)

theorem Sound.of_thread (h : Sound self) (place : Activity) (hBefore : self.handler = none)
    (hHandler : later.handler = none) (hScheduler : later.scheduler = self.scheduler)
    (hCapacity : later.capacity = self.capacity)
    (hActivity : later.activity = Function.update self.activity self.running place)
    (hLocked : later.readyStateLocked = place.holdsReadyState)
    (hOwners : OwnersFollow self later place) : Sound later where
  alone := by
    intro id hHolds
    refine ⟨?_, hHandler⟩
    rw [running_congr hScheduler]
    by_cases hId : id = self.running
    · exact hId
    · rw [hActivity, Function.update_of_ne hId] at hHolds
      exact (h.alone id hHolds).1
  locked := by
    rw [hLocked, executing_of_no_handler hHandler, running_congr hScheduler, hActivity,
      Function.update_self]
  fits := by
    rw [hScheduler, hCapacity]
    exact h.fits
  owned := by
    intro lock owner hOwner
    have hContext : later.context = ⟨self.running, .thread⟩ := by
      simp [context, hHandler, running_congr hScheduler]
    rcases hOwners lock owner hOwner with ⟨rfl, hPlace⟩ | ⟨hOther, hOwner⟩
    · rw [hContext]
      simpa [Holds, hActivity] using hPlace
    · have hHolds := h.owned lock owner hOwner
      obtain ⟨id, level⟩ := owner
      cases level with
      | thread =>
        have hId : id ≠ self.running := by
          rintro rfl
          exact hOther hContext.symm
        simpa [Holds, hActivity, Function.update_of_ne hId] using hHolds
      | interrupt => simp [Holds, hBefore] at hHolds

theorem Sound.of_handler (h : Sound self) {work : Work} (hHandler : later.handler = some work)
    (hScheduler : later.scheduler = self.scheduler) (hCapacity : later.capacity = self.capacity)
    (hActivity : later.activity = self.activity) (hLocked : later.readyStateLocked = true)
    (hQuiet : ∀ id, (self.activity id).holdsReadyState = false)
    (hOwners : OwnersFollow self later (.performing work)) : Sound later where
  alone := by
    intro id hHolds
    rw [hActivity, hQuiet id] at hHolds
    cases hHolds
  locked := by
    rw [hLocked, executing_of_handler hHandler]
    rfl
  fits := by
    rw [hScheduler, hCapacity]
    exact h.fits
  owned := by
    intro lock owner hOwner
    have hContext : later.context = ⟨self.running, .interrupt⟩ := by
      simp [context, hHandler, running_congr hScheduler]
    rcases hOwners lock owner hOwner with ⟨rfl, hPlace⟩ | ⟨hOther, hOwner⟩
    · rw [hContext]
      exact ⟨(running_congr hScheduler).symm, work, hHandler, of_decide_eq_true hPlace⟩
    · have hHolds := h.owned lock owner hOwner
      obtain ⟨id, level⟩ := owner
      cases level with
      | thread => simpa [Holds, hActivity] using hHolds
      | interrupt => exact absurd (by rw [hContext, hHolds.1]) hOther

theorem no_handler (hExec : self.executing = place) (hPlace : ∀ work, place ≠ .performing work) :
    self.handler = none := by
  cases hHandler : self.handler with
  | none => rfl
  | some work => exact absurd (hExec.symm.trans (executing_of_handler hHandler)) (hPlace work)

theorem executing_goto (place : Activity) (hHandler : self.handler = none) :
    (self.goto place).executing = place := by
  rw [executing_of_no_handler (by exact hHandler)]
  exact Function.update_self ..

@[simp] theorem work_holder (after : Work) : (self.work after).holder = self.holder := by
  unfold work
  split <;> rfl

@[simp] theorem work_context (after : Work) : (self.work after).context = self.context := by
  unfold work
  split
  · simp_all [context, running]
  · rfl

theorem executing_work (after : Work) : (self.work after).executing = .performing after := by
  unfold work
  split
  · rfl
  · exact executing_goto _ (by simp_all)

section

variable (h : Sound self)

include h

theorem Sound.owners_kept (hHolder : later.holder = self.holder)
    (hContext : later.context = self.context) (hFree : ∀ lock, self.executing.holds lock = false) :
    OwnersFollow self later place := by
  intro lock owner hOwner
  rw [hHolder] at hOwner
  rw [hContext]
  exact .inr ⟨h.owner_ne_context hOwner (hFree lock), hOwner⟩

theorem Sound.owners_hold (lock : AllocatorLock)
    (hHolder : later.holder = Function.update self.holder lock (some later.context))
    (hContext : later.context = self.context) (hFree : ∀ other, self.executing.holds other = false)
    (hPlace : place.holds lock = true) : OwnersFollow self later place := by
  intro other owner hOwner
  by_cases hOther : other = lock
  · subst hOther
    rw [hHolder, Function.update_self] at hOwner
    exact .inl ⟨(Option.some.inj hOwner).symm, hPlace⟩
  · rw [hHolder, Function.update_of_ne hOther] at hOwner
    rw [hContext]
    exact .inr ⟨h.owner_ne_context hOwner (hFree other), hOwner⟩

theorem Sound.owners_release (lock : AllocatorLock)
    (hHolder : later.holder = Function.update self.holder lock none)
    (hContext : later.context = self.context)
    (hFree : ∀ other, other ≠ lock → self.executing.holds other = false) :
    OwnersFollow self later place := by
  intro other owner hOwner
  by_cases hOther : other = lock
  · subst hOther
    rw [hHolder, Function.update_self] at hOwner
    cases hOwner
  · rw [hHolder, Function.update_of_ne hOther] at hOwner
    rw [hContext]
    exact .inr ⟨h.owner_ne_context hOwner (hFree other hOther), hOwner⟩

/-- An operation under way goes on, with the owners that `holder` names. -/
theorem Sound.work {before after : Work} {holder : AllocatorLock → Option Context}
    (hExec : self.executing = .performing before)
    (hOwners : OwnersFollow self { self.work after with holder } (.performing after)) :
    Sound { self.work after with holder } := by
  have hLocked : self.readyStateLocked = true := by
    rw [h.locked, hExec]
    rfl
  unfold Processor.work at hOwners ⊢
  cases hHandler : self.handler with
  | none =>
    simp only [hHandler, Option.isSome_none, Bool.false_eq_true, if_false] at hOwners ⊢
    exact h.of_thread (.performing after) hHandler hHandler rfl rfl rfl hLocked hOwners
  | some _ =>
    simp only [hHandler, Option.isSome_some, if_true] at hOwners ⊢
    refine h.of_handler rfl rfl rfl rfl hLocked ?_ hOwners
    intro id
    by_cases hHolds : (self.activity id).holdsReadyState = true
    · rw [(h.alone id hHolds).2] at hHandler
      cases hHandler
    · exact Bool.eq_false_iff.mpr hHolds

theorem Sound.locked_of (hExec : self.executing = place) :
    self.readyStateLocked = place.holdsReadyState := by
  rw [h.locked, hExec]

theorem Sound.advance (hStep : self.advance = some later) : Sound later := by
  unfold Processor.advance at hStep
  split at hStep
  case h_1 lock hExec =>
    have hNone := no_handler hExec (by simp)
    have hLocked := h.locked_of hExec
    obtain ⟨-, hLater⟩ := Option.ite_none_right_eq_some.mp hStep
    obtain rfl := Option.some.inj hLater
    exact h.of_thread (.inside lock) hNone hNone rfl rfl rfl hLocked
      (h.owners_hold lock rfl rfl (by simp [hExec, Activity.holds]) (by simp [Activity.holds]))
  case h_2 lock hExec =>
    have hNone := no_handler hExec (by simp)
    have hLocked := h.locked_of hExec
    obtain rfl := Option.some.inj hStep
    refine h.of_thread .outside hNone hNone rfl rfl rfl hLocked
      (h.owners_release lock rfl rfl ?_)
    intro other hOther
    simp [hExec, Activity.holds, hOther.symm]
  case h_3 operation hExec =>
    have hNone := no_handler hExec (by simp)
    have hFree : ∀ lock, self.executing.holds lock = false := by simp [hExec, Activity.holds]
    obtain ⟨-, hStep⟩ := Option.ite_none_left_eq_some.mp hStep
    split at hStep
    · obtain rfl := Option.some.inj hStep
      exact h.of_thread (.checking operation) hNone hNone rfl rfl rfl rfl
        (h.owners_kept rfl rfl hFree)
    · obtain rfl := Option.some.inj hStep
      exact h.of_thread (.performing _) hNone hNone rfl rfl rfl rfl (h.owners_kept rfl rfl hFree)
  case h_4 operation hExec =>
    have hNone := no_handler hExec (by simp)
    obtain ⟨-, hLater⟩ := Option.ite_none_left_eq_some.mp hStep
    obtain rfl := Option.some.inj hLater
    exact h.of_thread (.entering operation) hNone hNone rfl rfl rfl rfl
      (h.owners_kept rfl rfl (by simp [hExec, Activity.holds]))
  case h_5 operation lock rest hExec =>
    obtain ⟨-, hLater⟩ := Option.ite_none_right_eq_some.mp hStep
    obtain rfl := Option.some.inj hLater
    have hFree : ∀ other, self.executing.holds other = false := by simp [hExec, Activity.holds]
    refine h.work hExec (h.owners_hold lock ?_ (work_context _) hFree (by simp [Activity.holds]))
    exact congrArg (fun holder => Function.update holder lock _) (work_holder _)
  case h_6 operation lock rest hExec =>
    obtain rfl := Option.some.inj hStep
    refine h.work hExec (h.owners_release lock ?_ (work_context _) ?_)
    · exact congrArg (fun holder => Function.update holder lock _) (work_holder _)
    · intro other hOther
      simp [hExec, Activity.holds, hOther.symm]
  case h_7 => cases hStep

/-- No code holds `ready_state` after the end of an operation. -/
theorem Sound.leave_quiet {scheduler : Scheduler} (id : Nat) :
    ((self.leave scheduler capacity).activity id).holdsReadyState = false := by
  refine Bool.eq_false_iff.mpr fun hHolds => ?_
  unfold leave at hHolds
  cases hHandler : self.handler with
  | some work =>
    simp only [hHandler, Option.isSome_some, if_true] at hHolds
    simp [(h.alone id hHolds).2] at hHandler
  | none =>
    simp only [hHandler, Option.isSome_none, Bool.false_eq_true, if_false] at hHolds
    by_cases hId : id = self.running
    · simp [hId, Activity.holdsReadyState] at hHolds
    · rw [Function.update_of_ne hId] at hHolds
      exact hId (h.alone id hHolds).1

theorem Sound.leave {scheduler : Scheduler}
    (hExec : self.executing = .performing ⟨operation, none, []⟩)
    (hFits : scheduler.readyState.readyQueue.length ≤ capacity) :
    Sound (self.leave scheduler capacity) where
  alone id hHolds := by
    rw [h.leave_quiet id] at hHolds
    cases hHolds
  locked := (h.leave_quiet _).symm
  fits := hFits
  owned := by
    intro lock owner hOwner
    have hHolds := h.owned lock owner hOwner
    have hOther := h.owner_ne_context hOwner (by simp [hExec, Activity.holds])
    obtain ⟨id, level⟩ := owner
    cases level with
    | interrupt =>
      obtain ⟨hId, work, hWork, -⟩ := hHolds
      exact absurd (by simp [context, hId, Option.mem_def.mp hWork]) hOther
    | thread =>
      cases hHandler : self.handler with
      | some _ => simpa [Holds, Processor.leave, hHandler] using hHolds
      | none =>
        have hId : id ≠ self.running := by
          rintro rfl
          exact hOther (by simp [context, hHandler])
        simpa [Holds, Processor.leave, hHandler, Function.update_of_ne hId] using hHolds

theorem Sound.step {profile : BuildProfile} {move : Move}
    (hStep : self.step profile move = some later) : Sound later := by
  unfold Processor.step at hStep
  split at hStep
  case h_1 lock hExec =>
    have hNone := no_handler hExec (by simp)
    have hLocked := h.locked_of hExec
    obtain rfl := Option.some.inj hStep
    exact h.of_thread (.waiting lock) hNone hNone rfl rfl rfl hLocked
      (h.owners_kept rfl rfl (by simp [hExec, Activity.holds]))
  case h_2 thread sole hExec =>
    obtain rfl := Option.some.inj hStep
    exact ⟨h.alone, h.locked, h.fits, h.owned⟩
  case h_3 operation hExec =>
    have hNone := no_handler hExec (by simp)
    have hLocked := h.locked_of hExec
    obtain ⟨-, hLater⟩ := Option.ite_none_left_eq_some.mp hStep
    obtain rfl := Option.some.inj hLater
    exact h.of_thread (.entering operation) hNone hNone rfl rfl rfl hLocked
      (h.owners_kept rfl rfl (by simp [hExec, Activity.holds]))
  case h_4 => exact h.advance hStep
  case h_5 locks operation hExec =>
    have hNone := no_handler hExec (by simp)
    have hLocked := h.locked_of hExec
    obtain ⟨-, hLater⟩ := Option.ite_none_right_eq_some.mp hStep
    obtain rfl := Option.some.inj hLater
    exact h.of_thread (.performing _) hNone hNone rfl rfl rfl hLocked
      (h.owners_kept rfl rfl (by simp [hExec, Activity.holds]))
  case h_6 tried time hExec =>
    have hNone := no_handler hExec (by simp)
    obtain ⟨-, hLater⟩ := Option.ite_none_right_eq_some.mp hStep
    obtain rfl := Option.some.inj hLater
    exact h.of_thread (.performing _) hNone hNone rfl rfl rfl rfl
      (h.owners_kept rfl rfl (by simp [hExec, Activity.holds]))
  case h_7 tried time =>
    obtain ⟨⟨hNone, hUnlocked, -⟩, hLater⟩ := Option.ite_none_right_eq_some.mp hStep
    obtain rfl := Option.some.inj hLater
    refine h.of_handler rfl rfl rfl rfl rfl ?_ ?_
    · intro id
      refine Bool.eq_false_iff.mpr fun hHolds => ?_
      have hLocked := h.locked_of (executing_of_no_handler hNone)
      rw [← (h.alone id hHolds).1, hHolds, hUnlocked] at hLocked
      cases hLocked
    · intro lock owner hOwner
      refine .inr ⟨?_, hOwner⟩
      rintro rfl
      obtain ⟨-, work, hWork, -⟩ := h.owned lock _ hOwner
      simp [hNone] at hWork
  case h_8 operation rest hExec =>
    obtain ⟨⟨hNone, -⟩, hLater⟩ := Option.ite_none_right_eq_some.mp hStep
    obtain rfl := Option.some.inj hLater
    exact h.of_thread (.entering operation) hNone hNone rfl rfl rfl rfl
      (h.owners_kept rfl rfl (by simp [hExec, Activity.holds]))
  case h_9 capacity operation hExec =>
    split at hStep
    · obtain ⟨⟨hFits, -⟩, hLater⟩ := Option.ite_none_right_eq_some.mp hStep
      obtain rfl := Option.some.inj hLater
      exact h.leave hExec hFits
    · cases hStep
  case h_10 => cases hStep

end

/-- The locks that the operation under way still takes are free, or it holds
them itself. -/
def Unhindered (self : Processor) : Prop :=
  ∀ work, self.executing = .performing work →
    ∀ lock ∈ work.rest, self.holder lock = none ∨ work.held = some lock

theorem Sound.not_stuck (h : Sound self) (hFree : self.Unhindered) : ¬ self.Stuck := by
  rintro ⟨hLocked, lock, owner, hAwaits, hOwner, -⟩
  rw [h.locked] at hLocked
  cases hExec : self.executing with
  | outside => simp [hExec, Activity.awaits] at hAwaits
  | waiting _ => simp [hExec, Activity.holdsReadyState] at hLocked
  | inside _ => simp [hExec, Activity.awaits] at hAwaits
  | entering _ => simp [hExec, Activity.awaits] at hAwaits
  | checking _ => simp [hExec, Activity.awaits] at hAwaits
  | performing work =>
    have hNext : work.held = none ∧ work.rest.head? = some lock := by
      simpa [hExec, Activity.awaits] using hAwaits
    rcases hFree work hExec lock (List.mem_of_head? hNext.2) with hNone | hHeld
    · simp [hNone] at hOwner
    · simp [hNext.1] at hHeld

theorem pushLocks_eq_nil (hRoom : length + count ≤ capacity) :
    pushLocks count length capacity = [] := by
  induction count generalizing length with
  | zero => rfl
  | succ count ih =>
    unfold pushLocks
    rw [if_neg (by omega)]
    exact ih (by omega)

theorem mem_pushLocks (hMem : lock ∈ pushLocks count length capacity) : lock = .heap := by
  induction count generalizing length capacity with
  | zero => simp [pushLocks] at hMem
  | succ count ih =>
    unfold pushLocks at hMem
    split at hMem
    · rcases List.mem_append.mp hMem with hGrow | hRest
      · unfold regrow at hGrow
        split at hGrow <;> simpa using hGrow
      · exact ih hRest
    · exact ih hMem

/-- A queue without room for all takes the heap lock. -/
theorem heap_mem_pushLocks (hLength : length ≤ capacity) (hFull : capacity < length + count) :
    .heap ∈ pushLocks count length capacity := by
  induction count generalizing length with
  | zero => omega
  | succ count ih =>
    unfold pushLocks
    split
    case isTrue hEq =>
      refine List.mem_append_left _ ?_
      unfold regrow
      split <;> simp
    case isFalse hNe => exact ih (by omega) (by omega)

theorem switchLocks_free {tried : SwitchLocks} {time : Nat}
    (hSpared : self.Spared (.yield tried time)) (hMem : lock ∈ self.switchLocks tried time) :
    self.holder lock = none := by
  unfold switchLocks at hMem
  split at hMem
  case isFalse => cases hMem
  case isTrue hChecked =>
    rcases hSpared hChecked.1 hChecked.2 with hRoom | hHeap
    · rw [pushLocks_eq_nil hRoom] at hMem
      cases hMem
    · rw [mem_pushLocks hMem]
      exact hHeap

theorem switchLocks_held (h : Sound self) {tried : SwitchLocks} {time : Nat}
    (hSpared : ¬ self.Spared (.yield tried time)) :
    ∃ lock ∈ self.switchLocks tried time, self.holder lock ≠ none := by
  simp only [Spared, Classical.not_imp, not_or, Nat.not_le] at hSpared
  obtain ⟨hInit, hSleep, hFull, hHeap⟩ := hSpared
  refine ⟨.heap, ?_, hHeap⟩
  rw [switchLocks, if_pos ⟨hInit, hSleep⟩]
  exact heap_mem_pushLocks h.fits hFull

theorem Unhindered.of_place (hExec : later.executing = place)
    (hPlace : ∀ work, place ≠ .performing work) : later.Unhindered :=
  fun work hWork => absurd (hExec.symm.trans hWork) (hPlace work)

theorem Unhindered.of_free {locks : List AllocatorLock}
    (hExec : later.executing = .performing ⟨operation, none, locks⟩)
    (hFree : ∀ lock ∈ locks, later.holder lock = none) : later.Unhindered := by
  intro work hWork lock hMem
  obtain rfl := Activity.performing.inj (hExec.symm.trans hWork)
  exact .inl (hFree lock hMem)

theorem Unhindered.advance (hFree : self.Unhindered) (hStep : self.advance = some later) :
    later.Unhindered := by
  unfold Processor.advance at hStep
  split at hStep
  case h_1 lock hExec =>
    obtain ⟨-, hLater⟩ := Option.ite_none_right_eq_some.mp hStep
    obtain rfl := Option.some.inj hLater
    exact .of_place (executing_goto (.inside lock) (no_handler hExec (by simp))) (by simp)
  case h_2 lock hExec =>
    obtain rfl := Option.some.inj hStep
    exact .of_place (executing_goto .outside (no_handler hExec (by simp))) (by simp)
  case h_3 operation hExec =>
    have hNone := no_handler hExec (by simp)
    obtain ⟨-, hStep⟩ := Option.ite_none_left_eq_some.mp hStep
    split at hStep
    · obtain rfl := Option.some.inj hStep
      exact .of_place (executing_goto (.checking operation) hNone) (by simp)
    · obtain rfl := Option.some.inj hStep
      exact .of_free (executing_goto (.performing ⟨operation, none, []⟩) hNone) (by simp)
  case h_4 operation hExec =>
    obtain ⟨-, hLater⟩ := Option.ite_none_left_eq_some.mp hStep
    obtain rfl := Option.some.inj hLater
    exact .of_place (executing_goto (.entering operation) (no_handler hExec (by simp))) (by simp)
  case h_5 operation lock rest hExec =>
    obtain ⟨-, hLater⟩ := Option.ite_none_right_eq_some.mp hStep
    obtain rfl := Option.some.inj hLater
    intro work hWork other hMem
    obtain rfl := Activity.performing.inj ((executing_work _).symm.trans hWork)
    by_cases hOther : other = lock
    · exact .inr (congrArg some hOther.symm)
    · refine .inl ?_
      have := hFree _ hExec other (List.mem_cons_of_mem _ hMem)
      simpa [hold, Function.update_of_ne hOther] using this
  case h_6 operation lock rest hExec =>
    obtain rfl := Option.some.inj hStep
    refine .of_free (executing_work ⟨operation, none, rest⟩) fun other hMem => ?_
    by_cases hOther : other = lock
    · simp [release, hOther]
    · have := hFree _ hExec other hMem
      simpa [release, Function.update_of_ne hOther, Ne.symm hOther] using this
  case h_7 => cases hStep

theorem Unhindered.step {profile : BuildProfile} {move : Move} (h : Sound self)
    (hFree : self.Unhindered) (hSpared : self.Spared move)
    (hStep : self.step profile move = some later) : later.Unhindered := by
  have hSound := h.step hStep
  unfold Processor.step at hStep
  split at hStep
  case h_1 lock hExec =>
    obtain rfl := Option.some.inj hStep
    exact .of_place (executing_goto (.waiting lock) (no_handler hExec (by simp))) (by simp)
  case h_2 thread sole hExec =>
    obtain rfl := Option.some.inj hStep
    exact .of_place hExec (by simp)
  case h_3 operation hExec =>
    obtain ⟨-, hLater⟩ := Option.ite_none_left_eq_some.mp hStep
    obtain rfl := Option.some.inj hLater
    exact .of_place (executing_goto (.entering operation) (no_handler hExec (by simp))) (by simp)
  case h_4 => exact hFree.advance hStep
  case h_5 locks operation hExec =>
    obtain ⟨⟨hHeap, hPerforms⟩, hLater⟩ := Option.ite_none_right_eq_some.mp hStep
    obtain rfl := Option.some.inj hLater
    simp only [Spared, hExec] at hSpared
    refine .of_free (executing_goto _ (no_handler hExec (by simp))) fun lock hMem => ?_
    cases lock with
    | heap => exact hHeap
    | frames => exact hSpared (hPerforms.2.mp hMem)
  case h_6 tried time hExec =>
    obtain ⟨-, hLater⟩ := Option.ite_none_right_eq_some.mp hStep
    obtain rfl := Option.some.inj hLater
    exact .of_free
      (executing_goto (.performing (self.switchWork tried time)) (no_handler hExec (by simp)))
      fun lock hMem => switchLocks_free hSpared hMem
  case h_7 tried time =>
    obtain ⟨-, hLater⟩ := Option.ite_none_right_eq_some.mp hStep
    obtain rfl := Option.some.inj hLater
    exact .of_free rfl fun lock hMem => switchLocks_free hSpared hMem
  case h_8 operation rest hExec =>
    obtain ⟨⟨hNone, -⟩, hLater⟩ := Option.ite_none_right_eq_some.mp hStep
    obtain rfl := Option.some.inj hLater
    exact .of_place (executing_goto (.entering operation) hNone) (by simp)
  case h_9 capacity operation hExec =>
    split at hStep
    · obtain ⟨-, hLater⟩ := Option.ite_none_right_eq_some.mp hStep
      obtain rfl := Option.some.inj hLater
      intro work hWork
      have hLocked := hSound.locked_of hWork
      cases hLocked
    · cases hStep
  case h_10 => cases hStep

/-- Taking a free lock and releasing it again. -/
theorem advance_twice {rest : List AllocatorLock}
    (hExec : self.executing = .performing ⟨operation, none, lock :: rest⟩)
    (hFree : self.holder lock = none) :
    ∃ middle later, self.advance = some middle ∧ middle.advance = some later ∧
      later.executing = .performing ⟨operation, none, rest⟩ ∧ later.holder = self.holder := by
  let middle := (self.work ⟨operation, some lock, rest⟩).hold lock
  have hMiddle : middle.executing = .performing ⟨operation, some lock, rest⟩ := executing_work _
  refine ⟨middle, (middle.work ⟨operation, none, rest⟩).release lock, ?_, ?_, executing_work _, ?_⟩
  · unfold advance
    rw [hExec]
    exact if_pos hFree
  · unfold advance
    rw [hMiddle]
  · simp [release, middle, hold, ← hFree]

/-- An operation that needs a lock which other code holds goes on until it
waits for such a lock. -/
theorem Sound.stuck_of_held (h : Sound self) (profile : BuildProfile) {locks : List AllocatorLock}
    (hExec : self.executing = .performing ⟨operation, none, locks⟩)
    (hHeld : ∃ lock ∈ locks, self.holder lock ≠ none) : self.GetsStuck profile := by
  induction locks generalizing self with
  | nil =>
    obtain ⟨_, hMem, _⟩ := hHeld
    cases hMem
  | cons lock rest ih =>
    cases hOwner : self.holder lock with
    | some owner =>
      refine ⟨0, self, rfl, ?_, lock, owner, ?_, hOwner, ?_⟩
      · rw [h.locked, hExec]
        rfl
      · simp [hExec, Activity.awaits]
      · exact h.owner_ne_context hOwner (by simp [hExec, Activity.holds])
    | none =>
      obtain ⟨middle, later, hFirst, hSecond, hLater, hHolder⟩ := advance_twice hExec hOwner
      obtain ⟨other, hMem, hOther⟩ := hHeld
      have hRest : other ∈ rest := by grind
      obtain ⟨count, last, hRun, hStuck⟩ := ih ((h.advance hFirst).advance hSecond) hLater
        ⟨other, hRest, hHolder ▸ hOther⟩
      refine ⟨count + 2, last, ?_, hStuck⟩
      simpa [List.replicate_succ, Processor.run, Processor.step, hFirst, hSecond] using hRun

/-- A move that is not spared begins an operation which gets stuck. -/
theorem Sound.stuck_of_not_spared (h : Sound self) {profile : BuildProfile} {move : Move}
    (hSpared : ¬ self.Spared move) (hStep : self.step profile move = some later) :
    later.GetsStuck profile := by
  have hSound := h.step hStep
  unfold Processor.step at hStep
  split at hStep
  case h_5 locks operation hExec =>
    obtain ⟨⟨-, hPerforms⟩, hLater⟩ := Option.ite_none_right_eq_some.mp hStep
    obtain rfl := Option.some.inj hLater
    simp only [Spared, hExec, Classical.not_imp] at hSpared
    exact hSound.stuck_of_held profile (executing_goto _ (no_handler hExec (by simp)))
      ⟨.frames, hPerforms.2.mpr hSpared.1, hSpared.2⟩
  case h_6 tried time hExec =>
    obtain ⟨-, hLater⟩ := Option.ite_none_right_eq_some.mp hStep
    obtain rfl := Option.some.inj hLater
    exact hSound.stuck_of_held profile
      (executing_goto (.performing (self.switchWork tried time)) (no_handler hExec (by simp)))
      (switchLocks_held h hSpared)
  case h_7 tried time =>
    obtain ⟨-, hLater⟩ := Option.ite_none_right_eq_some.mp hStep
    obtain rfl := Option.some.inj hLater
    exact hSound.stuck_of_held profile rfl (switchLocks_held h hSpared)
  case h_10 => cases hStep
  all_goals exact absurd trivial hSpared

end Steps

section Runs

variable {profile : BuildProfile} {meets : Processor → Move → Prop} {cpu : Processor}

theorem Reaches.sound (h : Reaches profile meets cpu) : Sound cpu := by
  induction h with
  | start sole hStart hFits =>
    exact ⟨fun _ hHolds => (Bool.false_ne_true hHolds).elim, rfl, hFits,
      fun _ _ hOwner => by cases hOwner⟩
  | step move _ _ hStep ih => exact ih.step hStep

theorem Reaches.unhindered (h : Reaches profile Spared cpu) : cpu.Unhindered := by
  induction h with
  | start => exact .of_place (show _ = Activity.outside from rfl) (by simp)
  | step move hReach hMeets hStep ih => exact ih.step hReach.sound hMeets hStep

theorem Reaches.run [∀ self, DecidablePred (meets self)] {moves : List Move} {last : Processor}
    (h : Reaches profile meets cpu) (hRun : cpu.run profile meets moves = some last) :
    Reaches profile meets last := by
  induction moves generalizing cpu with
  | nil =>
    obtain rfl := Option.some.inj hRun
    exact h
  | cons move rest ih =>
    obtain ⟨hMeets, hRun⟩ := Option.ite_none_right_eq_some.mp hRun
    obtain ⟨later, hStep, hRest⟩ := Option.bind_eq_some_iff.mp hRun
    exact ih (h.step move hMeets hStep) hRest

end Runs

/-- No run gets stuck in which every move is spared. Any other move that
begins an operation gets stuck if the operation goes on. -/
theorem spared_never_stuck (profile : BuildProfile) :
    (∀ cpu, Reaches profile Spared cpu → ¬ cpu.Stuck) ∧
    ∀ cpu move later, Reaches profile (fun _ _ => True) cpu → ¬ cpu.Spared move →
      cpu.step profile move = some later → later.GetsStuck profile :=
  ⟨fun _ hReach => hReach.sound.not_stuck hReach.unhindered,
    fun _ _ _ hReach hSpared hStep => hReach.sound.stuck_of_not_spared hSpared hStep⟩

/-- The moves of an operation behind `get_ready_state` that nothing disturbs. -/
def undisturbed (operation : Operation) (locks : List AllocatorLock) (capacity : Nat) : List Move :=
  [.call operation, .advance, .begin locks] ++ List.replicate (2 * locks.length) .advance ++
    [.finish capacity]

/-- Four threads just after `start`, with a ready queue for as many. -/
def fourThreads : Processor :=
  started ⟨⟨false, some ⟨1, 1⟩, [⟨4, 4⟩, ⟨3, 3⟩, ⟨2, 2⟩]⟩, [],
    unjoined [1, 2, 3, 4]⟩ 4 (fun _ => false)

theorem fourThreads_reached (profile : BuildProfile) (meets : Processor → Move → Prop) :
    Reaches profile meets fourThreads := by
  have hStart : (World.boot [⟨1, 1⟩, ⟨2, 2⟩, ⟨3, 3⟩, ⟨4, 4⟩]).start =
      .ok fourThreads.scheduler := by
    decide +kernel
  exact .start _ hStart (by decide)

/-- The locks that `switch_thread` tries are free. -/
def allFree : SwitchLocks := ⟨true, true, false, false⟩

/-- The first thread sleeps until time 15, and the second one makes two more
threads ready, which fill the queue. -/
def fillQueue : List Move :=
  undisturbed (.action .setInit) [] 4 ++ undisturbed (.action (.sleep 5 10 [])) [.heap] 4 ++
    undisturbed (.action (.ready ⟨5, 5⟩)) [.heap] 4 ++
    undisturbed (.action (.ready ⟨6, 6⟩)) [.heap] 4

/-- The queue grows in the interrupt that wakes the sleeper. -/
theorem not_stuck_with_free_heap :
    ∃ cpu, Reaches .production Spared cpu ∧ cpu.holder .heap = some ⟨2, .interrupt⟩ ∧
      ¬ cpu.Stuck := by
  have hRun : (fourThreads.run .production Spared
      (fillQueue ++ [.interrupt allFree 15, .advance])).any
      (fun cpu => cpu.holder .heap = some ⟨2, .interrupt⟩) = true := by
    decide +kernel
  obtain ⟨cpu, hCpu, hHolder⟩ := (Option.any_eq_true _ _).mp hRun
  have hReach := (fourThreads_reached .production Spared).run hCpu
  exact ⟨cpu, hReach, of_decide_eq_true hHolder, (spared_never_stuck .production).1 cpu hReach⟩

/-- The second thread is preempted in the heap, and the interrupt that wakes
the sleeper has to grow the queue. In another run the first thread is preempted
in the page frame allocator, and the second one exits as the last of its process. -/
theorem stuck_on_preempted_thread :
    (∃ cpu, Reaches .production (fun _ _ => True) cpu ∧ cpu.Stuck ∧ cpu.running = 3 ∧
      cpu.executing = .performing ⟨.action (.switchThread allFree 15), none, [.heap, .heap]⟩ ∧
      cpu.holder .heap = some ⟨2, .thread⟩) ∧
    ∃ cpu, Reaches .production (fun _ _ => True) cpu ∧ cpu.Stuck ∧ cpu.running = 2 ∧
      cpu.executing = .performing ⟨.action (.exit []), none, [.frames, .heap]⟩ ∧
      cpu.holder .frames = some ⟨1, .thread⟩ := by
  refine ⟨?_, ?_⟩
  · have hRun : (fourThreads.run .production (fun _ _ => True) (fillQueue ++
        [.request .heap, .advance, .interrupt allFree 12, .finish 4, .interrupt allFree 15])).any
        (fun cpu => cpu.readyStateLocked = true ∧ cpu.running = 3 ∧ cpu.handler.isSome ∧
          cpu.executing = .performing ⟨.action (.switchThread allFree 15), none, [.heap, .heap]⟩ ∧
          cpu.holder .heap = some ⟨2, .thread⟩) = true := by
      decide +kernel
    obtain ⟨cpu, hCpu, hState⟩ := (Option.any_eq_true _ _).mp hRun
    obtain ⟨hLocked, hRunning, hHandler, hExec, hHolder⟩ := of_decide_eq_true hState
    refine ⟨cpu, (fourThreads_reached .production _).run hCpu, ?_, hRunning, hExec, hHolder⟩
    refine ⟨hLocked, .heap, _, ?_, hHolder, ?_⟩
    · simp [hExec, Activity.awaits]
    · simp [context, hHandler]
  · have hRun : (fourThreads.run .production (fun _ _ => True)
        (undisturbed (.action .setInit) [] 4 ++ [.request .frames, .advance, .interrupt allFree 12, .finish 4, .refer ⟨2, 2⟩ true,
          .call (.action (.exit [])), .advance, .begin [.frames, .heap]])).any
        (fun cpu => cpu.readyStateLocked = true ∧ cpu.running = 2 ∧
          cpu.executing = .performing ⟨.action (.exit []), none, [.frames, .heap]⟩ ∧
          cpu.holder .frames = some ⟨1, .thread⟩) = true := by
      decide +kernel
    obtain ⟨cpu, hCpu, hState⟩ := (Option.any_eq_true _ _).mp hRun
    obtain ⟨hLocked, hRunning, hExec, hHolder⟩ := of_decide_eq_true hState
    refine ⟨cpu, (fourThreads_reached .production _).run hCpu, ?_, hRunning, hExec, hHolder⟩
    refine ⟨hLocked, .frames, _, ?_, hHolder, ?_⟩
    · simp [hExec, Activity.awaits]
    · simp [context, hRunning]

end D3OS.Process.Processor
