import D3OS.Process.Runs
import Mathlib.Data.List.Dedup
import Mathlib.Data.Option.Basic

/-! The process manager on top of the scheduler. `ProcessManager::exit` holds
the write lock of the process manager but takes the scheduler locks anew for
every lookup and every kill, so other threads run in between. One event is one
locked section, or the change of a reference count by the running thread. -/
namespace D3OS.Process

open Outcome

/-- The processes by their ids. The kernel process comes first. -/
structure ProcessManager where
  activeProcesses : List Nat
  exitedProcesses : List Nat
  deriving DecidableEq, Repr

/-- `Vec::swap_remove`: the last element takes the place of the removed one. -/
def swapRemove (list : List Nat) (index : Nat) : List Nat :=
  match list.getLast? with
  | some last => (list.set index last).dropLast
  | none => []

namespace ProcessManager

variable (self : ProcessManager)

def kernelProcess : Option Nat := self.activeProcesses.head?

/-- The position of an active process. -/
def position (process : Nat) : Except Halt Nat :=
  match self.activeProcesses.findIdx? (fun active => active = process) with
  | some index => .ok index
  | none => .error (.panicked .processNotFound)

theorem position_ok {self : ProcessManager} {process index : Nat}
    (h : self.position process = .ok index) : self.activeProcesses[index]? = some process := by
  unfold position at h
  split at h
  · rename_i found hFound
    obtain rfl := Except.ok.inj h
    obtain ⟨hLength, hEq, -⟩ := List.findIdx?_eq_some_iff_getElem.mp hFound
    simpa [List.getElem?_eq_getElem hLength] using hEq
  · cases h

/-- `create_process`, with the id drawn from the counter. -/
def createProcess (process : Nat) : ProcessManager :=
  { self with activeProcesses := self.activeProcesses ++ [process] }

/-- The end of `exit`: the process moves to the exited ones. -/
def retire (index process : Nat) : ProcessManager where
  activeProcesses := swapRemove self.activeProcesses index
  exitedProcesses := self.exitedProcesses ++ [process]

/-- `drop_exited_process`. -/
def dropExitedProcess : ProcessManager := { self with exitedProcesses := [] }

end ProcessManager

/-- How far a call of `ProcessManager::exit` has come. -/
inductive ExitStage where
  /-- About to read `active_thread_ids`. -/
  | enumerate
  /-- Filtering the ids in `thread_ids`, one lookup for each. -/
  | lookUp (rest kept : List Nat)
  /-- Killing the threads, one by one. -/
  | killAll (rest : List Nat)
  deriving DecidableEq, Repr

/-- A call of `ProcessManager::exit`, which holds the write lock. -/
structure ExitCall where
  caller : Thread
  process : Nat
  index : Nat
  stage : ExitStage
  deriving DecidableEq, Repr

/-- The scheduler and the process manager. Clones of references to threads
and processes that threads keep in local variables are counted apart. -/
structure System where
  world : World
  manager : ProcessManager
  /-- The call that holds the write lock of the process manager. -/
  writer : Option ExitCall
  /-- The threads that have returned from `ProcessManager::exit` and are
  about to call `Scheduler::exit`. -/
  leaving : List Thread
  /-- The processes whose first thread is not made ready yet. -/
  pending : List Nat
  threadHandles : List Thread
  processHandles : List Nat
  /-- The id of the cleanup thread. -/
  cleanup : Nat
  deriving DecidableEq

inductive Event where
  /-- A section of the scheduler. -/
  | scheduler (action : Action)
  /-- `create_process` by `load_application`. -/
  | createProcess (process : Nat)
  /-- `sys_process_exit` gets the write lock and looks up its process. -/
  | beginExit
  /-- The next section of the call that holds the lock. -/
  | advanceExit
  /-- `drop_exited_process` by the cleanup thread. -/
  | dropExited
  | cloneThread (thread : Thread)
  | dropThread (thread : Thread)
  | cloneProcess (process : Nat)
  | dropProcess (process : Nat)
  deriving DecidableEq, Repr

namespace System

variable (self : System)

/-- The thread that executes the next event. -/
def current : Option Thread := self.world.scheduler.readyState.currentThread

/-- One section of `ProcessManager::exit`. -/
def advance (call : ExitCall) : Except Halt System :=
  let resume stage := { self with writer := some { call with stage } }
  match call.stage with
  | .enumerate => .ok (resume (.lookUp self.world.scheduler.activeThreadIds []))
  | .lookUp [] kept => .ok (resume (.killAll kept))
  | .lookUp (threadId :: rest) kept =>
    let isMember := (self.world.scheduler.thread threadId).any (fun thread =>
      thread.process = call.process)
    .ok (resume (.lookUp rest (if isMember then kept ++ [threadId] else kept)))
  | .killAll [] =>
    .ok { self with
      manager := self.manager.retire call.index call.process
      writer := none
      leaving := call.caller :: self.leaving }
  | .killAll (threadId :: rest) => do
    let current ← self.world.scheduler.readyState.current
    if threadId = current.id then return resume (.killAll rest)
    else
      let scheduler ← self.world.scheduler.kill threadId
      return { resume (.killAll rest) with world := self.world.record scheduler (.kill threadId) }

def perform (profile : BuildProfile) (self : System) : Event → Except Halt System
  | .scheduler action => do
    let scheduler ← self.world.scheduler.perform profile action
    let pending := match action with
      | .ready thread => self.pending.filter (fun process => process ≠ thread.process)
      | _ => self.pending
    return { self with world := self.world.record scheduler action, pending }
  | .createProcess process =>
    .ok { self with
      manager := self.manager.createProcess process
      pending := process :: self.pending }
  | .beginExit => do
    let caller ← self.world.scheduler.readyState.current
    let index ← self.manager.position caller.process
    return { self with writer := some ⟨caller, caller.process, index, .enumerate⟩ }
  | .advanceExit =>
    match self.writer with
    | some call => self.advance call
    | none => .ok self
  | .dropExited => .ok { self with manager := self.manager.dropExitedProcess }
  | .cloneThread thread => .ok { self with threadHandles := thread :: self.threadHandles }
  | .dropThread thread => .ok { self with threadHandles := self.threadHandles.erase thread }
  | .cloneProcess process => .ok { self with processHandles := process :: self.processHandles }
  | .dropProcess process => .ok { self with processHandles := self.processHandles.erase process }

/-- The number of references to a thread record. -/
def threadRefs (thread : Thread) : Nat :=
  self.world.scheduler.occurrences.count thread + self.threadHandles.count thread

/-- The thread records that are still referenced. Each of them holds a
reference to its process. -/
def records : List Thread :=
  (self.world.scheduler.occurrences ++ self.threadHandles).dedup

/-- The number of references to a process. -/
def processRefs (process : Nat) : Nat :=
  self.manager.activeProcesses.count process + self.manager.exitedProcesses.count process +
    self.processHandles.count process + (self.records.map Thread.process).count process

/-- Is the thread inside `ProcessManager::exit`? -/
def InCall (thread : Thread) : Prop :=
  ∃ call ∈ self.writer, call.caller = thread

/-- The sections of the scheduler that the running thread can call where it
is. Inside `ProcessManager::exit` it can only be preempted, and afterwards
`Scheduler::exit` comes next. A new thread belongs to the process of the
caller, to one that the caller has just created, or to the kernel. -/
def MayPerform (thread : Thread) : Action → Prop
  | .switchThread _ _ => True
  | .exit _ => ¬self.InCall thread
  | .kill _ => False
  | .ready new => ¬self.InCall thread ∧ thread ∉ self.leaving ∧
      new.id ∉ self.world.readied.map Thread.id ∧
      (new.process = thread.process ∨ new.process ∈ self.pending ∨
        self.manager.kernelProcess = some new.process)
  | _ => ¬self.InCall thread ∧ thread ∉ self.leaving

/-- The events that can happen next. Only user threads make system calls. -/
def Enabled : Event → Prop
  | .scheduler action => ∃ thread ∈ self.current, self.MayPerform thread action
  | .createProcess process => self.writer = none ∧
      process ∉ self.manager.activeProcesses ∧ process ∉ self.manager.exitedProcesses ∧
      process ∉ self.world.readied.map Thread.process
  | .beginExit => self.writer = none ∧ ∃ thread ∈ self.current,
      self.manager.kernelProcess ≠ some thread.process ∧ thread ∉ self.leaving
  | .advanceExit => ∃ call ∈ self.writer, self.current = some call.caller
  | .dropExited => self.writer = none ∧ ∃ thread ∈ self.current, thread.id = self.cleanup
  | .cloneThread thread => 0 < self.threadRefs thread
  | .dropThread thread => thread ∈ self.threadHandles
  | .cloneProcess process => 0 < self.processRefs process
  | .dropProcess process => process ∈ self.processHandles

instance (self : System) (thread : Thread) : Decidable (self.InCall thread) :=
  inferInstanceAs (Decidable (∃ call ∈ self.writer, call.caller = thread))

instance (self : System) (thread : Thread) : (action : Action) → Decidable (self.MayPerform thread action)
  | .switchThread _ _ => inferInstanceAs (Decidable True)
  | .exit _ => inferInstanceAs (Decidable (¬_))
  | .kill _ => inferInstanceAs (Decidable False)
  | .ready _ => inferInstanceAs (Decidable (_ ∧ _ ∧ _ ∧ (_ ∨ _ ∨ _)))
  | .setInit | .sleep _ _ _ | .join _ _ => inferInstanceAs (Decidable (_ ∧ _))

instance (self : System) : (event : Event) → Decidable (self.Enabled event)
  | .scheduler action => inferInstanceAs (Decidable (∃ thread ∈ self.current, self.MayPerform thread action))
  | .createProcess _ => inferInstanceAs (Decidable (_ ∧ _ ∧ _ ∧ _))
  | .beginExit => inferInstanceAs (Decidable (self.writer = none ∧ ∃ thread ∈ self.current,
      self.manager.kernelProcess ≠ some thread.process ∧ thread ∉ self.leaving))
  | .advanceExit => inferInstanceAs (Decidable (∃ call ∈ self.writer, self.current = some call.caller))
  | .dropExited => inferInstanceAs (Decidable (self.writer = none ∧
      ∃ thread ∈ self.current, thread.id = self.cleanup))
  | .cloneThread _ | .cloneProcess _ => inferInstanceAs (Decidable (_ < _))
  | .dropThread _ | .dropProcess _ => inferInstanceAs (Decidable (_ ∈ _))

def Step (profile : BuildProfile) (self : System) (event : Event) (later : System) : Prop :=
  self.Enabled event ∧ self.perform profile event = .ok later

/-- Perform events one after the other, each of which has to be enabled and
to meet a condition. -/
def run (profile : BuildProfile) (Orderly : System → Event → Prop)
    [∀ self event, Decidable (Orderly self event)] : System → List Event → Option System
  | self, [] => some self
  | self, event :: rest =>
    if self.Enabled event ∧ Orderly self event then
      match self.perform profile event with
      | .ok later => run profile Orderly later rest
      | .error _ => none
    else none

/-- The systems that events lead to which all meet a condition. The scheduler
is started on threads of active processes. -/
inductive Reachable (profile : BuildProfile) (Orderly : System → Event → Prop) : System → Prop where
  | start {threads : List Thread} {active : List Nat} {cleanup : Nat} {scheduler : Scheduler}
      (distinct : (threads.map Thread.id).Nodup) (processes : active.Nodup)
      (owned : ∀ thread ∈ threads, thread.process ∈ active)
      (started : (World.boot threads).start = .ok scheduler) :
      Reachable profile Orderly
        ⟨⟨scheduler, threads, [], []⟩, ⟨active, []⟩, none, [], [], [], [], cleanup⟩
  | step {self later : System} {event : Event} (prior : Reachable profile Orderly self)
      (orderly : Orderly self event) (last : Step profile self event later) :
      Reachable profile Orderly later

theorem Reachable.run {profile : BuildProfile} {Orderly : System → Event → Prop}
    [∀ self event, Decidable (Orderly self event)] {self later : System} {events : List Event}
    (h : Reachable profile Orderly self) (hRun : self.run profile Orderly events = some later) :
    Reachable profile Orderly later := by
  induction events generalizing self with
  | nil =>
    obtain rfl := Option.some.inj hRun
    exact h
  | cons event rest ih =>
    unfold System.run at hRun
    obtain ⟨hEnabled, hRun⟩ := Option.ite_none_right_eq_some.mp hRun
    split at hRun
    · rename_i next hPerform
      exact ih (h.step hEnabled.2 ⟨hEnabled.1, hPerform⟩) hRun
    · cases hRun

/-- A section of the scheduler changes the threads and, when it makes the
first thread of a process ready, the pending processes. -/
theorem Step.scheduler_ok {profile : BuildProfile} {self later : System} {action : Action}
    (h : Step profile self (.scheduler action) later) :
    ∃ thread, self.current = some thread ∧ self.MayPerform thread action ∧
      World.Step profile self.world action later.world ∧
      (∀ process ∈ later.pending, process ∈ self.pending ∧
        ∀ new, action = .ready new → process ≠ new.process) ∧
      later = { self with world := later.world, pending := later.pending } := by
  obtain ⟨⟨thread, hCurrent, hMay⟩, hPerform⟩ := h
  obtain ⟨scheduler, hScheduler, hLater⟩ := bind_ok hPerform
  obtain rfl := pure_ok hLater
  have hStep : World.Step profile self.world action (self.world.record scheduler action) := by
    refine ⟨?_, scheduler, hScheduler, rfl⟩
    rintro new rfl
    exact hMay.2.2.1
  refine ⟨thread, hCurrent, hMay, hStep, ?_, rfl⟩
  intro process hMem
  cases action with
  | ready new => grind
  | _ => exact ⟨hMem, fun new hEq => by cases hEq⟩

/-- The thread inside `ProcessManager::exit` is not taken out by a section of
the scheduler. -/
theorem not_leaves_of_inCall {self : System} {current thread : Thread} {action : Action}
    (hCurrent : self.current = some current) (hMay : self.MayPerform current action)
    (hCall : self.InCall thread) : ¬self.world.Leaves thread action := by
  intro hLeaves
  cases action with
  | exit times => exact hMay (Option.some.inj (hCurrent.symm.trans hLeaves) ▸ hCall)
  | kill threadId => exact hMay
  | _ => exact hLeaves

end System

end D3OS.Process
