import D3OS.Process.ProcessExit

/-! Which thread releases the last reference to a process. Dropping a process
frees its page tables and unmaps its kernel stacks, so the thread that does it
must not belong to the process. A thread that exits gives back its thread
record in `block`, before `Thread::switch` leaves it; the reference that keeps
the process alive is then the one in the list of exited processes. -/
namespace D3OS.Process.System

open Outcome

/-- The step from `self` to `later` releases the last reference to the process. -/
def ReleasesLast (self later : System) (process : Nat) : Prop :=
  0 < self.processRefs process ∧ later.processRefs process = 0

/-- The state before each event that lets threads outlive the list of exited
processes: when the cleanup thread clears it, no thread in the scheduler
belongs to one of them. -/
def Quiet (self : System) : Event → Prop
  | .dropExited => ∀ thread ∈ self.world.scheduler.occurrences,
      thread.process ∉ self.manager.exitedProcesses
  | _ => True

instance (self : System) : (event : Event) → Decidable (self.Quiet event)
  | .dropExited => inferInstanceAs (Decidable (∀ thread ∈ self.world.scheduler.occurrences, _))
  | .scheduler _ | .createProcess _ | .beginExit | .advanceExit | .cloneThread _ | .dropThread _
  | .cloneProcess _ | .dropProcess _ => inferInstanceAs (Decidable True)

/-- The invariant of quiet runs: the process manager knows the process of
every thread in the scheduler. -/
structure Owned (system : System) : Prop where
  consistent : system.world.Consistent
  listed : ∀ thread ∈ system.world.scheduler.occurrences,
    thread.process ∈ system.manager.activeProcesses ∨
      thread.process ∈ system.manager.exitedProcesses
  pending : ∀ process ∈ system.pending, process ∈ system.manager.activeProcesses ∧
    ∀ thread ∈ system.world.scheduler.occurrences, thread.process ≠ process
  caller : ∀ call, system.writer = some call →
    call.caller ∈ system.world.scheduler.occurrences ∧ call.caller.process = call.process
  owner : ∀ call, system.writer = some call →
    system.manager.activeProcesses[call.index]? = some call.process

variable {self later : System} {profile : BuildProfile}

/-- A thread in the scheduler keeps its process alive. -/
theorem processRefs_pos_of_occurs {thread : Thread} (h : thread ∈ self.world.scheduler.occurrences) :
    0 < self.processRefs thread.process := by
  have hRecord : thread ∈ self.records := by
    rw [records, List.mem_dedup]
    exact List.mem_append_left _ h
  have hCount : 0 < (self.records.map Thread.process).count thread.process :=
    List.count_pos_iff.mpr (List.mem_map_of_mem hRecord)
  unfold processRefs
  omega

theorem processRefs_pos_of_listed {process : Nat}
    (h : process ∈ self.manager.activeProcesses ∨ process ∈ self.manager.exitedProcesses) :
    0 < self.processRefs process := by
  unfold processRefs
  rcases h with h | h <;> have hCount := List.count_pos_iff.mpr h <;> omega

/-- What one section of `ProcessManager::exit` can change: its stage, the
threads by a kill, or the process lists at the end. -/
theorem advance_cases {call : ExitCall} (h : self.advance call = .ok later) :
    (∃ stage, later = { self with writer := some { call with stage } }) ∨
    (∃ stage threadId scheduler, self.world.scheduler.kill threadId = .ok scheduler ∧
      later = { self with
        world := self.world.record scheduler (.kill threadId)
        writer := some { call with stage } }) ∨
    later = { self with
      manager := self.manager.retire call.index call.process
      writer := none
      leaving := call.caller :: self.leaving } := by
  unfold advance at h
  split at h
  · exact Or.inl ⟨_, (Except.ok.inj h).symm⟩
  · exact Or.inl ⟨_, (Except.ok.inj h).symm⟩
  · exact Or.inl ⟨_, (Except.ok.inj h).symm⟩
  · exact Or.inr (Or.inr (Except.ok.inj h).symm)
  · obtain ⟨current, -, h⟩ := bind_ok h
    split at h
    · exact Or.inl ⟨_, (pure_ok h).symm⟩
    · obtain ⟨scheduler, hKill, h⟩ := bind_ok h
      exact Or.inr (Or.inl ⟨_, _, scheduler, hKill, (pure_ok h).symm⟩)

theorem Owned.scheduler {action : Action} (h : Owned self)
    (hStep : Step profile self (.scheduler action) later) : Owned later := by
  obtain ⟨current, hCurrent, hMay, hWorld, hPending, hLater⟩ := hStep.scheduler_ok
  have hManager : later.manager = self.manager := by rw [hLater]
  have hWriter : later.writer = self.writer := by rw [hLater]
  have hMem := Scheduler.mem_occurrences_of_current hCurrent
  refine ⟨h.consistent.step hWorld, ?_, ?_, ?_, ?_⟩
  · intro thread hThread
    rw [hManager]
    rcases h.consistent.occurs_before hWorld hThread with rfl | hOld
    · rcases hMay.2.2.2 with hSame | hNew | hKernel
      · exact hSame ▸ h.listed current hMem
      · exact Or.inl (h.pending _ hNew).1
      · exact Or.inl (List.mem_of_head? hKernel)
    · exact h.listed thread hOld
  · intro process hProcess
    obtain ⟨hOld, hNe⟩ := hPending process hProcess
    refine ⟨hManager ▸ (h.pending process hOld).1, fun thread hThread => ?_⟩
    rcases h.consistent.occurs_before hWorld hThread with hNew | hBefore
    · exact (hNe thread hNew).symm
    · exact (h.pending process hOld).2 thread hBefore
  · intro call hCall
    rw [hWriter] at hCall
    refine ⟨?_, (h.caller call hCall).2⟩
    exact (h.consistent.occurs_after hWorld (h.caller call hCall).1).resolve_left
      (not_leaves_of_inCall hCurrent hMay ⟨call, hCall, rfl⟩)
  · exact fun call hCall => hManager ▸ h.owner call (hWriter ▸ hCall)

/-- A kill is an action of the world that takes out other threads only. -/
theorem kill_step {profile : BuildProfile} {world : World} {threadId : Nat} {scheduler : Scheduler}
    (hKill : world.scheduler.kill threadId = .ok scheduler) :
    World.Step profile world (.kill threadId) (world.record scheduler (.kill threadId)) :=
  ⟨fun _ hEq => (nomatch hEq), scheduler, hKill, rfl⟩

theorem not_killed_of_current {self : Scheduler} {later : Scheduler} {threadId : Nat} {current : Thread}
    (hCurrent : self.readyState.currentThread = some current)
    (hKill : self.kill threadId = .ok later) : current.id ≠ threadId := by
  obtain ⟨other, -, hOther, hNe, -⟩ := Scheduler.kill_ok hKill
  exact Option.some.inj (hCurrent.symm.trans hOther) ▸ hNe

theorem Owned.advance {call : ExitCall} (h : Owned self) (hCall : self.writer = some call)
    (hCurrent : self.current = some call.caller) (hAdvance : self.advance call = .ok later) :
    Owned later := by
  obtain ⟨hCaller, hProcess⟩ := h.caller call hCall
  rcases advance_cases hAdvance with ⟨stage, rfl⟩ | ⟨stage, threadId, scheduler, hKill, rfl⟩ | rfl
  · refine ⟨h.consistent, h.listed, h.pending, ?_, ?_⟩ <;> rintro _ ⟨rfl⟩
    · exact ⟨hCaller, hProcess⟩
    · exact h.owner call hCall
  · have hStep := @kill_step .development self.world threadId scheduler hKill
    have hBefore : ∀ thread ∈ scheduler.occurrences, thread ∈ self.world.scheduler.occurrences := by
      intro thread hMem
      rcases h.consistent.occurs_before hStep hMem with hNew | hOld
      · cases hNew
      · exact hOld
    refine ⟨h.consistent.kill hKill, fun thread hMem => h.listed thread (hBefore thread hMem), ?_, ?_, ?_⟩
    · intro process hPending
      obtain ⟨hActive, hNone⟩ := h.pending process hPending
      exact ⟨hActive, fun thread hMem => hNone thread (hBefore thread hMem)⟩
    · rintro _ ⟨rfl⟩
      refine ⟨?_, hProcess⟩
      exact (h.consistent.occurs_after hStep hCaller).resolve_left
        (not_killed_of_current hCurrent hKill)
    · rintro _ ⟨rfl⟩
      exact h.owner call hCall
  · have hPerm := swapRemove_perm (h.owner call hCall)
    have hKeeps : ∀ process ∈ self.manager.activeProcesses,
        process = call.process ∨ process ∈ swapRemove self.manager.activeProcesses call.index :=
      fun process hMem => List.mem_cons.mp (hPerm.mem_iff.mpr hMem)
    refine ⟨h.consistent, ?_, ?_, ?_, ?_⟩
    · intro thread hMem
      rcases h.listed thread hMem with hActive | hExited
      · rcases hKeeps _ hActive with hEq | hStays
        · exact Or.inr (List.mem_append_right _ (List.mem_singleton.mpr hEq))
        · exact Or.inl hStays
      · exact Or.inr (List.mem_append_left _ hExited)
    · intro process hPending
      obtain ⟨hActive, hNone⟩ := h.pending process hPending
      refine ⟨(hKeeps process hActive).resolve_left fun hEq => ?_, hNone⟩
      exact hNone call.caller hCaller (hProcess.trans hEq.symm)
    all_goals
      intro other hOther
      cases hOther

theorem Owned.step {profile : BuildProfile} {self later : System} {event : Event} (h : Owned self)
    (hQuiet : self.Quiet event) (hStep : Step profile self event later) : Owned later := by
  cases event with
  | scheduler action => exact h.scheduler hStep
  | createProcess process =>
    obtain ⟨⟨hLock, -, -, hUnused⟩, hPerform⟩ := hStep
    obtain rfl := Except.ok.inj hPerform
    refine ⟨h.consistent, ?_, ?_, ?_, ?_⟩
    · exact fun thread hMem => (h.listed thread hMem).imp_left (List.mem_append_left _)
    · intro other hOther
      rcases List.mem_cons.mp hOther with rfl | hOld
      · refine ⟨List.mem_append_right _ (List.mem_singleton.mpr rfl), fun thread hMem hEq => ?_⟩
        exact hUnused (hEq ▸ List.mem_map_of_mem (h.consistent.known thread hMem).1)
      · exact ⟨List.mem_append_left _ (h.pending other hOld).1, (h.pending other hOld).2⟩
    · exact fun call hCall => by simp [hLock] at hCall
    · exact fun call hCall => by simp [hLock] at hCall
  | beginExit =>
    obtain ⟨-, hPerform⟩ := hStep
    obtain ⟨caller, hCaller, hPerform⟩ := bind_ok hPerform
    obtain ⟨index, hIndex, hPerform⟩ := bind_ok hPerform
    obtain rfl := pure_ok hPerform
    refine ⟨h.consistent, h.listed, h.pending, ?_, ?_⟩ <;> rintro _ ⟨rfl⟩
    · exact ⟨Scheduler.mem_occurrences_of_current (ReadyState.current_ok.mp hCaller), rfl⟩
    · exact ProcessManager.position_ok hIndex
  | advanceExit =>
    obtain ⟨⟨call, hCall, hCurrent⟩, hPerform⟩ := hStep
    rw [Option.mem_def] at hCall
    simp only [perform, hCall] at hPerform
    exact h.advance hCall hCurrent hPerform
  | dropExited =>
    obtain ⟨-, hPerform⟩ := hStep
    obtain rfl := Except.ok.inj hPerform
    refine ⟨h.consistent, fun thread hMem => ?_, h.pending, h.caller, h.owner⟩
    exact Or.inl ((h.listed thread hMem).resolve_right (hQuiet thread hMem))
  | cloneThread | dropThread | cloneProcess | dropProcess =>
    obtain ⟨-, hPerform⟩ := hStep
    obtain rfl := Except.ok.inj hPerform
    exact ⟨h.consistent, h.listed, h.pending, h.caller, h.owner⟩

theorem Reachable.owned (h : Reachable profile Quiet self) : Owned self := by
  induction h with
  | start distinct processes owned started =>
    have hConsistent := World.start_consistent distinct started
    refine ⟨hConsistent, fun thread hMem => Or.inl (owned thread (hConsistent.known thread hMem).1),
      by simp, ?_, ?_⟩
    all_goals
      intro call hCall
      cases hCall
  | step _ quiet last ih => exact ih.step quiet last

/-- After each event the process of the thread that executed it is still
referenced: by the thread's record, or by the process manager if it exited. -/
theorem Owned.processRefs_pos {event : Event} {thread : Thread} (h : Owned self)
    (hCurrent : self.current = some thread) (hStep : Step profile self event later) :
    0 < later.processRefs thread.process := by
  have hMem := Scheduler.mem_occurrences_of_current hCurrent
  have hSame : later.world = self.world → 0 < later.processRefs thread.process := fun hWorld =>
    processRefs_pos_of_occurs (hWorld ▸ hMem)
  cases event with
  | scheduler action =>
    obtain ⟨current, hThread, hMay, hWorld, -, hLater⟩ := hStep.scheduler_ok
    obtain rfl : thread = current := Option.some.inj (hCurrent.symm.trans hThread)
    rcases h.consistent.occurs_after hWorld hMem with hLeaves | hStays
    · cases action with
      | exit times =>
        rw [hLater]
        exact processRefs_pos_of_listed (h.listed thread hMem)
      | kill threadId => exact hMay.elim
      | _ => exact hLeaves.elim
    · exact processRefs_pos_of_occurs hStays
  | advanceExit =>
    obtain ⟨⟨call, hCall, hCaller⟩, hPerform⟩ := hStep
    rw [Option.mem_def] at hCall
    simp only [perform, hCall] at hPerform
    rcases advance_cases hPerform with ⟨stage, rfl⟩ | ⟨stage, threadId, scheduler, hKill, rfl⟩ | rfl
    · exact hSame rfl
    · have hStays := h.consistent.occurs_after (@kill_step profile _ _ _ hKill) hMem
      exact processRefs_pos_of_occurs
        (hStays.resolve_left (not_killed_of_current hCurrent hKill))
    · exact hSame rfl
  | beginExit =>
    obtain ⟨-, hPerform⟩ := hStep
    obtain ⟨caller, -, hPerform⟩ := bind_ok hPerform
    obtain ⟨index, -, hPerform⟩ := bind_ok hPerform
    obtain rfl := pure_ok hPerform
    exact hSame rfl
  | createProcess | dropExited | cloneThread | dropThread | cloneProcess | dropProcess =>
    obtain ⟨-, hPerform⟩ := hStep
    obtain rfl := Except.ok.inj hPerform
    exact hSame rfl

/-- In every quiet run, the last reference to a process is never released by
a thread of that process while it is executing. -/
theorem last_reference_released_elsewhere {profile : BuildProfile} {self later : System}
    {event : Event} {process : Nat} {thread : Thread} (h : Reachable profile Quiet self)
    (hCurrent : self.current = some thread) (hStep : Step profile self event later)
    (hLast : self.ReleasesLast later process) : thread.process ≠ process := by
  rintro rfl
  have hPos := h.owned.processRefs_pos hCurrent hStep
  exact absurd hLast.2 (by omega)

/-- A process with one thread and the cleanup thread, just after `start`. -/
def oneProcess : System where
  world :=
    { scheduler := ⟨⟨false, some ⟨2, 2⟩, [⟨1, 1⟩]⟩, [], unjoined [1, 2]⟩
      readied := [⟨2, 2⟩, ⟨1, 1⟩]
      exited := []
      killed := [] }
  manager := ⟨[1, 2], []⟩
  writer := none
  leaving := []
  pending := []
  threadHandles := []
  processHandles := []
  cleanup := 1

theorem oneProcess_reachable (profile : BuildProfile) (Orderly : System → Event → Prop) :
    Reachable profile Orderly oneProcess :=
  .start (by decide) (by decide) (by decide) (by decide +kernel)

/-- The cleanup thread goes to sleep and the other thread exits its process,
with its references to thread and process held during the call. -/
def exitEvents : List Event :=
  [.scheduler .setInit, preempt, .scheduler (.sleep 100 0 []), .cloneThread ⟨2, 2⟩, .cloneProcess 2,
    .beginExit, .advanceExit, .advanceExit, .advanceExit, .advanceExit, .dropProcess 2,
    .dropThread ⟨2, 2⟩]

/-- The thread has exited before the cleanup thread wakes up. -/
def exitedFirst : System :=
  { oneProcess with
    world := { oneProcess.world with
      scheduler := ⟨⟨true, some ⟨1, 1⟩, []⟩, [], unjoined [1]⟩
      exited := [⟨2, 2⟩] }
    manager := ⟨[1], [2]⟩
    leaving := [⟨2, 2⟩] }

/-- Then it is the cleanup thread that releases the process. -/
theorem last_reference_released_by_cleanup :
    exitedFirst.ReleasesLast { exitedFirst with manager := ⟨[1], []⟩ } 2 ∧
      (⟨1, 1⟩ : Thread).process ≠ 2 := by
  have hRun : oneProcess.run .development Quiet (exitEvents ++ [.scheduler (.exit [100])]) =
      some exitedFirst := by
    decide +kernel
  have hReachable := (oneProcess_reachable .development Quiet).run hRun
  have hCurrent : exitedFirst.current = some ⟨1, 1⟩ := rfl
  have hStep : Step .development exitedFirst .dropExited { exitedFirst with manager := ⟨[1], []⟩ } :=
    ⟨by decide +kernel, rfl⟩
  have hLast : exitedFirst.ReleasesLast { exitedFirst with manager := ⟨[1], []⟩ } 2 := by
    constructor <;> decide +kernel
  exact ⟨hLast, last_reference_released_elsewhere hReachable hCurrent hStep hLast⟩

/-- The thread is preempted on its way from `ProcessManager::exit` to
`Scheduler::exit`, and the cleanup thread runs in between. -/
def cleanedFirst : System :=
  { oneProcess with
    world := { oneProcess.world with
      scheduler := ⟨⟨true, some ⟨2, 2⟩, [⟨1, 1⟩]⟩, [], unjoined [1, 2]⟩ }
    manager := ⟨[1], []⟩
    leaving := [⟨2, 2⟩] }

/-- Then the exiting thread releases its own process, before the switch to
the next thread. -/
theorem last_reference_released_by_itself :
    Reachable .development (fun _ _ => True) cleanedFirst ∧
    cleanedFirst.current = some ⟨2, 2⟩ ∧
    ∃ later, Step .development cleanedFirst (.scheduler (.exit [])) later ∧
      cleanedFirst.ReleasesLast later 2 := by
  have hRun : oneProcess.run .development (fun _ _ => True) (exitEvents ++
      [.scheduler (.switchThread ⟨true, true, false, false⟩ 100), .dropExited, preempt]) =
      some cleanedFirst := by
    decide +kernel
  refine ⟨(oneProcess_reachable .development _).run hRun, rfl,
    { cleanedFirst with world := { cleanedFirst.world with
      scheduler := ⟨⟨true, some ⟨1, 1⟩, []⟩, [], unjoined [1]⟩
      exited := [⟨2, 2⟩] } }, ⟨by decide +kernel, by decide +kernel⟩, ?_⟩
  constructor <;> decide +kernel

end D3OS.Process.System
