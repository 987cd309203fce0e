import D3OS.Process.Runs

/-! The references to thread records at a context switch. `block` and
`switch_thread` take raw pointers to the two threads and give up their own
references before `Thread::switch` reads and writes the records. The sections
of the scheduler that switch are stated again here with the references in
local variables: a clone adds one, a move or a drop takes one away. -/
namespace D3OS.Process

open Outcome

/-- A call `Thread::switch(current_ptr, next_ptr)` with the references that
exist at that moment, in the scheduler and in the local variables of all
threads. -/
structure SwitchCall where
  current : Thread
  next : Thread
  scheduler : Scheduler
  locals : List Thread
  deriving DecidableEq

/-- The reference count of a thread record at the call. -/
def SwitchCall.refs (call : SwitchCall) (thread : Thread) : Nat :=
  call.scheduler.occurrences.count thread + call.locals.count thread

/-- Both records the call reads and writes are alive. -/
def SwitchCall.Alive (call : SwitchCall) : Prop :=
  1 ≤ call.refs call.current ∧ 1 ≤ call.refs call.next

instance (call : SwitchCall) : Decidable call.Alive := inferInstanceAs (Decidable (_ ∧ _))

/-- What a section leaves behind, and the switch it ends with if there is one. -/
abbrev Switching := Except Halt (Scheduler × Option SwitchCall)

variable {profile : BuildProfile} {action : Action}

namespace Referenced

open Scheduler (checkSleepList nextThread)

/-- `block`. The thread that comes next is moved out of the ready queue, and
`Scheduler::current` makes a clone. -/
def block (self : Scheduler) (locals : List Thread) (times : List Nat) : Switching := do
  let (next, state, sleepList) ← nextThread times self.readyState self.sleepList
  let locals := next :: locals
  let current ← state.current
  let locals := current :: locals
  if current.id = next.id then return ({ self with readyState := state, sleepList }, none)
  else
    -- `next` is moved into `current_thread`, whose old value is dropped.
    let self := { self with readyState := { state with currentThread := some next }, sleepList }
    let locals := locals.erase next
    -- `drop(current)`
    let locals := locals.erase current
    return (self, some ⟨current, next, self, locals⟩)

/-- `sleep`: the clone of the caller is moved into the sleep list. -/
def sleep (profile : BuildProfile) (self : Scheduler) (locals : List Thread) (ms systime : Nat)
    (times : List Nat) : Switching :=
  if self.readyState.initialized then do
    let thread ← self.readyState.current
    let locals := thread :: locals
    let wakeupTime ← (profile.word (systime + ms)).mapError .panicked
    let locals := locals.erase thread
    block { self with sleepList := self.sleepList ++ [(thread, wakeupTime)] } locals times
  else return (self, none)

/-- `switch_thread`: the clone of the caller is moved into the ready queue. -/
def switchThread (self : Scheduler) (locals : List Thread) (locks : SwitchLocks) (time : Nat) :
    Switching :=
  if !locks.readyStateFree || !self.readyState.initialized then return (self, none)
  else do
    let (state, sleepList) :=
      if locks.sleepListFree then checkSleepList time self.readyState self.sleepList
      else (self.readyState, self.sleepList)
    let current ← state.current
    let locals := current :: locals
    if locks.stacksLocked || locks.tssLocked then
      return ({ self with readyState := state, sleepList }, none)
    else
      match popBack state.readyQueue with
      | none => return ({ self with readyState := state, sleepList }, none)
      | some (next, queue) =>
        let locals := next :: locals
        let self := { self with
          readyState := { state with currentThread := some next, readyQueue := current :: queue }
          sleepList }
        let locals := (locals.erase next).erase current
        return (self, some ⟨current, next, self, locals⟩)

/-- `join`: the clone of the caller is moved into the join list. -/
def join (self : Scheduler) (locals : List Thread) (threadId : Nat) (times : List Nat) :
    Switching := do
  let thread ← self.readyState.current
  let locals := thread :: locals
  match self.joinMap.get? threadId with
  | none => return (self, none)
  | some joinList =>
    let joinMap := self.joinMap.insert threadId (joinList ++ [thread])
    let locals := locals.erase thread
    block { self with joinMap } locals times

/-- `exit`: the clone of the caller is dropped, since `block` does not return. -/
def exit (self : Scheduler) (locals : List Thread) (times : List Nat) : Switching := do
  let current ← self.readyState.current
  let locals := current :: locals
  match self.joinMap.get? current.id with
  | none => .error (.panicked .missingJoinMapEntry)
  | some joinList =>
    let woken := { self with
      readyState := self.readyState.wake joinList
      joinMap := self.joinMap.erase current.id }
    let locals := locals.erase current
    let (self, call) ← block woken locals times
    if call.isSome then return (self, call) else .error (.panicked .unreachableCode)

/-- The sections of the current thread. `ready`, `set_init` and `kill` never switch. -/
def perform (profile : BuildProfile) (self : Scheduler) (locals : List Thread) :
    Action → Switching
  | .ready thread => .ok (self.ready thread, none)
  | .setInit => .ok (self.setInit, none)
  | .switchThread locks time => switchThread self locals locks time
  | .sleep ms systime times => sleep profile self locals ms systime times
  | .join threadId times => join self locals threadId times
  | .exit times => exit self locals times
  | .kill threadId => do
    let self ← self.kill threadId
    return (self, none)

/-- How a section without the references and the same section with them fit
together: they end in the same scheduler, and a switch leads from the caller
to the new current thread with no reference of its own in a local variable.
Either the ids have been compared or the next thread was waiting. -/
structure Matches (before : Scheduler) (held : List Thread) (later : Scheduler)
    (call : SwitchCall) : Prop where
  current : before.readyState.currentThread = some call.current
  next : later.readyState.currentThread = some call.next
  scheduler : call.scheduler = later
  locals : call.locals = held
  other : call.current.id ≠ call.next.id ∨ call.next ∈ before.parked

/-- Moving `next` and dropping `current` takes their two references away. -/
theorem locals_after_switch (current next : Thread) (locals : List Thread) :
    ((current :: next :: locals).erase next).erase current = locals := by
  by_cases hEq : current = next
  · subst hEq
    simp
  · rw [List.erase_cons_tail (by simpa using hEq)]
    simp

variable {self later : Scheduler} {locals : List Thread} {times : List Nat}
  {outcome : Option SwitchCall}

theorem block_ok (h : block self locals times = .ok (later, outcome)) :
    self.block times = .ok (later, outcome.isSome) ∧
      ∀ call ∈ outcome, Matches self locals later call ∧ call.current.id ≠ call.next.id := by
  obtain ⟨⟨next, state, sleepList⟩, hNext, h⟩ := bind_ok h
  obtain ⟨current, hCurrent, h⟩ := bind_ok h
  have hSame := (Scheduler.nextThread_ok hNext).1
  unfold Scheduler.block
  rw [hNext, bind_of_ok]
  dsimp only at h ⊢
  rw [hCurrent, bind_of_ok]
  split at h
  · rename_i hId
    obtain ⟨rfl, rfl⟩ := Prod.mk.inj (pure_ok h)
    rw [if_pos hId]
    exact ⟨rfl, by simp⟩
  · rename_i hId
    obtain ⟨rfl, rfl⟩ := Prod.mk.inj (pure_ok h)
    rw [if_neg hId]
    refine ⟨rfl, ?_⟩
    rintro _ ⟨⟩
    exact ⟨⟨hSame ▸ ReadyState.current_ok.mp hCurrent, rfl, rfl,
      locals_after_switch current next locals, Or.inl hId⟩, hId⟩

/-- The sections that end in `block` have moved or dropped their clone of the
caller before. -/
theorem Matches.of_block {before : Scheduler} {thread : Thread}
    (h : block self ((thread :: locals).erase thread) times = .ok (later, outcome))
    (hCurrent : self.readyState.currentThread = before.readyState.currentThread) :
    ∀ call ∈ outcome, Matches before locals later call := by
  intro call hMem
  obtain ⟨hMatches, hId⟩ := (block_ok h).2 call hMem
  exact ⟨hCurrent ▸ hMatches.current, hMatches.next, hMatches.scheduler,
    hMatches.locals.trans (List.erase_cons_head thread locals), Or.inl hId⟩

theorem sleep_ok {ms systime : Nat}
    (h : sleep profile self locals ms systime times = .ok (later, outcome)) :
    self.sleep profile ms systime times = .ok later ∧
      ∀ call ∈ outcome, Matches self locals later call := by
  unfold sleep at h
  unfold Scheduler.sleep
  split at h
  · rename_i hInit
    obtain ⟨thread, hThread, h⟩ := bind_ok h
    obtain ⟨wakeupTime, hTime, h⟩ := bind_ok h
    rw [if_pos hInit, hThread, bind_of_ok, hTime, bind_of_ok, (block_ok h).1]
    exact ⟨rfl, .of_block h rfl⟩
  · rename_i hInit
    obtain ⟨rfl, rfl⟩ := Prod.mk.inj (pure_ok h)
    rw [if_neg hInit]
    exact ⟨rfl, by simp⟩

theorem join_ok {threadId : Nat} (h : join self locals threadId times = .ok (later, outcome)) :
    self.join threadId times = .ok later ∧ ∀ call ∈ outcome, Matches self locals later call := by
  obtain ⟨thread, hThread, h⟩ := bind_ok h
  unfold Scheduler.join
  rw [hThread, bind_of_ok]
  dsimp only at h
  cases hList : self.joinMap.get? threadId with
  | none =>
    rw [hList] at h
    obtain ⟨rfl, rfl⟩ := Prod.mk.inj (pure_ok h)
    exact ⟨rfl, by simp⟩
  | some joinList =>
    rw [hList] at h
    dsimp only at h ⊢
    rw [(block_ok h).1]
    exact ⟨rfl, .of_block h rfl⟩

theorem exit_ok (h : exit self locals times = .ok (later, outcome)) :
    self.exit times = .ok later ∧ ∀ call ∈ outcome, Matches self locals later call := by
  obtain ⟨current, hCurrent, h⟩ := bind_ok h
  unfold Scheduler.exit
  rw [hCurrent, bind_of_ok]
  dsimp only at h
  cases hList : self.joinMap.get? current.id with
  | none =>
    rw [hList] at h
    cases h
  | some joinList =>
    rw [hList] at h
    obtain ⟨⟨ended, call⟩, hEnded, h⟩ := bind_ok h
    dsimp only at h ⊢
    rw [(block_ok hEnded).1, bind_of_ok]
    dsimp only
    obtain ⟨hSwitched, h⟩ := ite_ok h
    obtain ⟨rfl, rfl⟩ := Prod.mk.inj (pure_ok h)
    rw [if_pos hSwitched]
    exact ⟨rfl, .of_block hEnded (ReadyState.wake_currentThread _ _)⟩

/-- Whether the sleep list is checked or not, the caller stays the current
thread and the threads in the ready queue were waiting before. -/
theorem checked_state (self : Scheduler) (checks : Bool) (time : Nat) :
    (if checks then checkSleepList time self.readyState self.sleepList
      else (self.readyState, self.sleepList)).1.currentThread = self.readyState.currentThread ∧
    ∀ thread ∈ (if checks then checkSleepList time self.readyState self.sleepList
      else (self.readyState, self.sleepList)).1.readyQueue, thread ∈ self.parked := by
  split
  · obtain ⟨hCurrent, hPerm⟩ := Scheduler.checkSleepList_perm time self.readyState self.sleepList
    refine ⟨hCurrent, fun thread hMem => ?_⟩
    exact List.mem_append_left _ (hPerm.mem_iff.mp (List.mem_append_left _ hMem))
  · refine ⟨rfl, fun thread hMem => ?_⟩
    exact List.mem_append_left _ (List.mem_append_left _ hMem)

theorem switchThread_ok {locks : SwitchLocks} {time : Nat}
    (h : switchThread self locals locks time = .ok (later, outcome)) :
    self.switchThread locks time = .ok later ∧
      ∀ call ∈ outcome, Matches self locals later call := by
  unfold switchThread at h
  unfold Scheduler.switchThread
  split at h
  · rename_i hIdle
    obtain ⟨rfl, rfl⟩ := Prod.mk.inj (pure_ok h)
    rw [if_pos hIdle]
    exact ⟨rfl, by simp⟩
  · rename_i hBusy
    rw [if_neg hBusy]
    obtain ⟨hSame, hQueue⟩ := checked_state self locks.sleepListFree time
    revert hSame hQueue h
    generalize (if locks.sleepListFree then checkSleepList time self.readyState self.sleepList
        else (self.readyState, self.sleepList)) = checked
    intro h hSame hQueue
    obtain ⟨state, sleepList⟩ := checked
    obtain ⟨current, hCurrent, h⟩ := bind_ok h
    dsimp only at hSame h ⊢
    rw [hCurrent, bind_of_ok]
    split at h
    · rename_i hLocked
      obtain ⟨rfl, rfl⟩ := Prod.mk.inj (pure_ok h)
      rw [if_pos hLocked]
      exact ⟨rfl, by simp⟩
    · rename_i hUnlocked
      rw [if_neg hUnlocked]
      cases hNext : popBack state.readyQueue with
      | none =>
        rw [hNext] at h
        obtain ⟨rfl, rfl⟩ := Prod.mk.inj (pure_ok h)
        exact ⟨rfl, by simp⟩
      | some found =>
        obtain ⟨next, queue⟩ := found
        rw [hNext] at h
        obtain ⟨rfl, rfl⟩ := Prod.mk.inj (pure_ok h)
        refine ⟨rfl, ?_⟩
        rintro _ ⟨⟩
        refine ⟨hSame ▸ ReadyState.current_ok.mp hCurrent, rfl, rfl, by simp, Or.inr ?_⟩
        apply hQueue
        dsimp only
        rw [popBack_eq_some.mp hNext]
        exact List.mem_append_right _ List.mem_cons_self

/-- The sections with references are those without them. -/
theorem perform_ok (h : perform profile self locals action = .ok (later, outcome)) :
    self.perform profile action = .ok later ∧ ∀ call ∈ outcome, Matches self locals later call := by
  cases action with
  | ready thread =>
    obtain ⟨rfl, rfl⟩ := Prod.mk.inj (Except.ok.inj h)
    exact ⟨rfl, by simp⟩
  | setInit =>
    obtain ⟨rfl, rfl⟩ := Prod.mk.inj (Except.ok.inj h)
    exact ⟨rfl, by simp⟩
  | switchThread locks time => exact switchThread_ok h
  | sleep ms systime times => exact sleep_ok h
  | join threadId times => exact join_ok h
  | exit times => exact exit_ok h
  | kill threadId =>
    obtain ⟨killed, hKill, h⟩ := bind_ok h
    obtain ⟨rfl, rfl⟩ := Prod.mk.inj (pure_ok h)
    exact ⟨hKill, by simp⟩

end Referenced

/-- A run of the scheduler with the references in local variables. -/
structure Holdings where
  world : World
  locals : List Thread
  deriving DecidableEq

namespace Holdings

/-- The steps of a run. Outside of the scheduler a thread can create a thread
record, clone a reference it can get at, and drop one. -/
inductive Event where
  | scheduler (action : Action)
  | create (thread : Thread)
  | clone (thread : Thread)
  | drop (thread : Thread)
  deriving DecidableEq, Repr

/-- The reference count of a thread record between two steps. -/
def refs (self : Holdings) (thread : Thread) : Nat :=
  self.world.scheduler.occurrences.count thread + self.locals.count thread

/-- The local variables after a section: `ready` takes the reference it is given. -/
def given (locals : List Thread) : Action → List Thread
  | .ready thread => locals.erase thread
  | _ => locals

/-- A step, with the switch that a section ends with. A thread is made ready
once, from a local variable. -/
def Step (profile : BuildProfile) (self : Holdings) :
    Event → Option SwitchCall → Holdings → Prop
  | .scheduler action, outcome, later =>
    (∀ thread, action = .ready thread →
      thread.id ∉ self.world.readied.map Thread.id ∧ thread ∈ self.locals) ∧
    ∃ scheduler,
      Referenced.perform profile self.world.scheduler self.locals action =
        .ok (scheduler, outcome) ∧
      later = ⟨self.world.record scheduler action, given self.locals action⟩
  | .create thread, outcome, later =>
    outcome = none ∧ thread.id ∉ self.world.readied.map Thread.id ∧
      thread.id ∉ self.locals.map Thread.id ∧
      later = { self with locals := thread :: self.locals }
  | .clone thread, outcome, later =>
    outcome = none ∧ 1 ≤ self.refs thread ∧ later = { self with locals := thread :: self.locals }
  | .drop thread, outcome, later =>
    outcome = none ∧ thread ∈ self.locals ∧
      later = { self with locals := self.locals.erase thread }

/-- The states of all runs. The code that starts the scheduler can hold
references to the threads it has made ready. -/
inductive Reachable (profile : BuildProfile) : Holdings → Prop where
  | start {threads locals : List Thread} {scheduler : Scheduler}
      (distinct : (threads.map Thread.id).Nodup) (held : ∀ thread ∈ locals, thread ∈ threads)
      (started : (World.boot threads).start = .ok scheduler) :
      Reachable profile ⟨⟨scheduler, threads, [], []⟩, locals⟩
  | step {self later : Holdings} {event : Event} {outcome : Option SwitchCall}
      (prior : Reachable profile self) (last : Step profile self event outcome later) :
      Reachable profile later

/-- Before a thread exits, a local variable that outlives it holds a reference to it. -/
def Retained (self : Holdings) : Event → Prop
  | .scheduler (.exit _) => ∀ current, self.world.scheduler.readyState.currentThread = some current →
      current ∈ self.locals
  | _ => True

variable {self later : Holdings} {event : Event} {call : SwitchCall}

theorem Step.world {outcome : Option SwitchCall}
    (h : Step profile self (.scheduler action) outcome later) :
    World.Step profile self.world action later.world := by
  obtain ⟨hReady, scheduler, hPerform, rfl⟩ := h
  exact ⟨fun thread hEq => (hReady thread hEq).1, scheduler,
    (Referenced.perform_ok hPerform).1, rfl⟩

theorem Reachable.consistent (h : Reachable profile self) : self.world.Consistent := by
  induction h with
  | start distinct _ started => exact World.start_consistent distinct started
  | @step self later event outcome _ last ih =>
    cases event with
    | scheduler action => exact ih.step last.world
    | create thread =>
      obtain ⟨-, -, -, rfl⟩ := last
      exact ih
    | clone thread =>
      obtain ⟨-, -, rfl⟩ := last
      exact ih
    | drop thread =>
      obtain ⟨-, -, rfl⟩ := last
      exact ih

/-- A switch is the end of a section, which says where it leads from and to. -/
theorem Step.switch (h : Step profile self event (some call) later) :
    ∃ action, event = .scheduler action ∧
      Referenced.Matches self.world.scheduler self.locals later.world.scheduler call := by
  cases event with
  | scheduler action =>
    obtain ⟨-, scheduler, hPerform, rfl⟩ := h
    have hMatches := (Referenced.perform_ok hPerform).2 call rfl
    refine ⟨action, rfl, ?_⟩
    cases action <;> exact hMatches
  | create thread => cases h.1
  | clone thread => cases h.1
  | drop thread => cases h.1

/-- The new current thread is held by `current_thread`. -/
theorem refs_next_pos (h : Step profile self event (some call) later) :
    1 ≤ call.refs call.next := by
  obtain ⟨action, -, hMatches⟩ := h.switch
  have hMem := Scheduler.mem_occurrences_of_current hMatches.next
  have hCount : 0 < call.scheduler.occurrences.count call.next := by
    rw [hMatches.scheduler]
    exact List.count_pos_iff.mpr hMem
  unfold SwitchCall.refs
  omega

/-- A thread that exits is in no container any more when it is switched away from. -/
theorem count_exited {times : List Nat} (hConsistent : self.world.Consistent)
    (h : Step profile self (.scheduler (.exit times)) (some call) later) :
    call.scheduler.occurrences.count call.current = 0 := by
  obtain ⟨action, -, hMatches⟩ := h.switch
  obtain ⟨-, scheduler, hExit, hLater⟩ := h.world
  have hScheduler : later.world.scheduler = scheduler := by rw [hLater]; rfl
  obtain ⟨-, hPerm, -⟩ := Scheduler.exit_occurrences hMatches.current hExit
  have hOnce := hPerm.nodup_iff.mpr hConsistent.once
  rw [hMatches.scheduler, hScheduler]
  exact List.count_eq_zero.mpr (List.nodup_cons.mp hOnce).1

/-- Every section but `exit` leaves the caller in a container. -/
theorem occurs_of_not_exit (hConsistent : self.world.Consistent)
    (h : Step profile self (.scheduler action) (some call) later)
    (hExit : ∀ times, action ≠ .exit times) : call.current ∈ call.scheduler.occurrences := by
  obtain ⟨_, -, hMatches⟩ := h.switch
  have hMem := Scheduler.mem_occurrences_of_current hMatches.current
  rw [hMatches.scheduler]
  refine (hConsistent.occurs_after h.world hMem).resolve_left ?_
  cases action with
  | exit times => exact absurd rfl (hExit times)
  | kill threadId =>
    obtain ⟨-, scheduler, hPerform, -⟩ := h
    obtain ⟨killed, -, hEnd⟩ := bind_ok hPerform
    cases pure_ok hEnd
  | _ => exact id

/-- In every run, a switch finds both thread records alive exactly if a thread
that exits is still held by a local variable: `exit` and `block` drop the last
references of the scheduler before the switch. -/
theorem switch_alive_iff {profile : BuildProfile} {self later : Holdings} {event : Event}
    {call : SwitchCall} (hReach : Reachable profile self)
    (hStep : Step profile self event (some call) later) :
    call.Alive ↔ self.Retained event := by
  have hNext := refs_next_pos hStep
  have hConsistent := hReach.consistent
  obtain ⟨action, rfl, hMatches⟩ := hStep.switch
  by_cases hExit : ∃ times, action = .exit times
  · obtain ⟨times, rfl⟩ := hExit
    have hRefs : call.refs call.current = self.locals.count call.current := by
      rw [SwitchCall.refs, count_exited hConsistent hStep, hMatches.locals, Nat.zero_add]
    have hRetained : self.Retained (.scheduler (.exit times)) ↔ call.current ∈ self.locals := by
      simp [Retained, hMatches.current]
    rw [SwitchCall.Alive, hRefs, hRetained, and_iff_left hNext]
    exact List.count_pos_iff
  · have hMem := occurs_of_not_exit hConsistent hStep (fun times hEq => hExit ⟨times, hEq⟩)
    have hCurrent : 1 ≤ call.refs call.current := by
      have hCount := List.count_pos_iff.mpr hMem
      unfold SwitchCall.refs
      omega
    have hRetained : self.Retained (.scheduler action) := by
      cases action with
      | exit times => exact absurd ⟨times, rfl⟩ hExit
      | _ => trivial
    exact iff_of_true ⟨hCurrent, hNext⟩ hRetained

/-- Two threads after `start`, with these references in local variables. -/
def twoHeld (locals : List Thread) : Holdings := ⟨World.twoThreads, locals⟩

theorem twoHeld_reachable (profile : BuildProfile) {locals : List Thread}
    (hHeld : ∀ thread ∈ locals, thread ∈ World.twoThreads.readied) :
    Reachable profile (twoHeld locals) :=
  .start (by decide) hHeld (by decide +kernel)

/-- The first of the two threads exits and the second one goes on. -/
theorem twoHeld_exit (profile : BuildProfile) (locals : List Thread) :
    ∃ later, Step profile (twoHeld locals) (.scheduler (.exit []))
      (some ⟨⟨1, 1⟩, ⟨2, 1⟩, ⟨⟨false, some ⟨2, 1⟩, []⟩, [], unjoined [2]⟩, locals⟩) later := by
  have hPerform : Referenced.perform profile (twoHeld locals).world.scheduler locals (.exit []) =
      .ok (⟨⟨false, some ⟨2, 1⟩, []⟩, [], unjoined [2]⟩,
        some ⟨⟨1, 1⟩, ⟨2, 1⟩, ⟨⟨false, some ⟨2, 1⟩, []⟩, [], unjoined [2]⟩, locals⟩) := rfl
  exact ⟨_, by simp, _, hPerform, rfl⟩

/-- A join handle keeps the record of an exiting thread alive. -/
theorem switch_alive_with_handle :
    ∃ call later, Reachable .development (twoHeld [⟨1, 1⟩]) ∧
      Step .development (twoHeld [⟨1, 1⟩]) (.scheduler (.exit [])) (some call) later ∧
      call.Alive := by
  have hReach : Reachable .development (twoHeld [⟨1, 1⟩]) :=
    twoHeld_reachable .development (by decide)
  obtain ⟨later, hStep⟩ := twoHeld_exit .development [⟨1, 1⟩]
  refine ⟨_, later, hReach, hStep, (switch_alive_iff hReach hStep).mpr ?_⟩
  rintro _ ⟨⟩
  exact List.mem_cons_self

/-- A thread that nobody holds exits: `Thread::switch` writes its `old_rsp0`
into a record that has been freed. -/
theorem switch_from_freed_record :
    ∃ call later, Reachable .development (twoHeld []) ∧
      Step .development (twoHeld []) (.scheduler (.exit [])) (some call) later ∧
      call.current = ⟨1, 1⟩ ∧ call.refs call.current = 0 := by
  obtain ⟨later, hStep⟩ := twoHeld_exit .development []
  exact ⟨_, later, twoHeld_reachable .development (by simp), hStep, rfl, rfl⟩

/-- In every run, the scheduler never switches from a thread to itself. -/
theorem switch_to_other {profile : BuildProfile} {self later : Holdings} {event : Event}
    {call : SwitchCall} (hReach : Reachable profile self)
    (hStep : Step profile self event (some call) later) : call.current ≠ call.next := by
  obtain ⟨action, -, hMatches⟩ := hStep.switch
  intro hEq
  rcases hMatches.other with hId | hParked
  · exact hId (congrArg Thread.id hEq)
  · exact hReach.consistent.not_current_of_parked hParked (hEq ▸ hMatches.current)

theorem exit_switches_to_other :
    ∃ call later, Reachable .production (twoHeld []) ∧
      Step .production (twoHeld []) (.scheduler (.exit [])) (some call) later ∧
      call.current ≠ call.next := by
  have hReach : Reachable .production (twoHeld []) := twoHeld_reachable .production (by simp)
  obtain ⟨later, hStep⟩ := twoHeld_exit .production []
  exact ⟨_, later, hReach, hStep, switch_to_other hReach hStep⟩

end Holdings

end D3OS.Process
