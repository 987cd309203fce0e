import D3OS.Process.Runs
import Mathlib.Logic.Function.Basic

/-! Preemption and the scheduler lock. On one processor every thread stands
somewhere in its kernel code, and the timer interrupt comes wherever interrupts
are enabled. The model goes from one lock operation to the next, for the locks
of the ready state, of the kernel heap and of the page frame allocator. What a
section does to the scheduler happens at its end, which nobody can observe
before, because the ready state is locked. Interrupts of devices are left out. -/
namespace D3OS.Process

inductive AllocatorLock where
  | heap
  | frames
  deriving DecidableEq, Repr

/-- What the scheduler does while `ready_state` is locked. -/
inductive Operation where
  | activeThreadIds
  | currentThread
  | thread (threadId : Nat)
  | action (act : Action)
  deriving DecidableEq, Repr

namespace Operation

def perform (profile : BuildProfile) (scheduler : Scheduler) : Operation → Except Halt Scheduler
  | .action act => scheduler.perform profile act
  | _ => .ok scheduler

def isSwitchThread : Operation → Bool
  | .action (.switchThread _ _) => true
  | _ => false

/-- Is `ready_state` taken by `get_ready_state`, which looks at the heap lock?
`thread` calls `lock` itself. -/
def checksAllocator : Operation → Bool
  | .thread _ => false
  | _ => true

/-- The operations with a container that grows or is built. -/
def allocates : Operation → Bool
  | .currentThread | .thread _ | .action .setInit => false
  | _ => true

/-- The operations that try the lock of the join map in a loop. -/
def triesJoinMap : Operation → Bool
  | .action (.ready _) | .action (.exit _) | .action (.kill _) => true
  | _ => false

end Operation

/-- An operation under way: the allocator lock that it holds, and those it
still takes and releases in turn. -/
structure Work where
  operation : Operation
  held : Option AllocatorLock
  rest : List AllocatorLock
  deriving DecidableEq, Repr

/-- Where a thread stands in its code. -/
inductive Activity where
  | outside
  | waiting (lock : AllocatorLock)
  | inside (lock : AllocatorLock)
  /-- Before the lock of `ready_state`. -/
  | entering (operation : Operation)
  /-- With `ready_state` locked, before `allocator().is_locked()`. -/
  | checking (operation : Operation)
  | performing (work : Work)
  deriving DecidableEq, Repr

namespace Activity

def holdsReadyState : Activity → Bool
  | .checking _ | .performing _ => true
  | _ => false

def holds (lock : AllocatorLock) : Activity → Bool
  | .inside held => held = lock
  | .performing work => work.held = some lock
  | _ => false

def awaits (lock : AllocatorLock) : Activity → Bool
  | .waiting wanted => wanted = lock
  | .performing work => work.held = none ∧ work.rest.head? = some lock
  | _ => false

end Activity

inductive Level where
  | thread
  | interrupt
  deriving DecidableEq, Repr

/-- The code of a thread, or an interrupt handler on its stack. -/
structure Context where
  thread : Nat
  level : Level
  deriving DecidableEq, Repr

/-- The processor with its one interrupt handler. `capacity` is the room of
the ready queue's buffer. `sole` marks the threads whose last reference is the
scheduler's and which hold the last reference to their process. -/
structure Processor where
  scheduler : Scheduler
  capacity : Nat
  sole : Thread → Bool
  activity : Nat → Activity
  handler : Option Work
  readyStateLocked : Bool
  holder : AllocatorLock → Option Context

/-- The allocator calls of `RawVec` when a buffer grows: the new buffer is
allocated, and the old one is freed if there was one. -/
def regrow (capacity : Nat) : List AllocatorLock :=
  if capacity = 0 then [.heap] else [.heap, .heap]

/-- The allocator calls of `push_front` for so many threads. -/
def pushLocks : Nat → Nat → Nat → List AllocatorLock
  | 0, _, _ => []
  | count + 1, length, capacity =>
    if length = capacity then
      regrow capacity ++ pushLocks count (length + 1) (max (2 * capacity) 4)
    else pushLocks count (length + 1) capacity

/-- The threads that `check_sleep_list` moves to the ready queue. -/
def due (sleepList : SleepList) (time : Nat) : Nat :=
  sleepList.countP (fun entry => entry.2 ≤ time)

/-- What may happen next. -/
inductive Move where
  /-- The running thread allocates or frees, outside the scheduler. -/
  | request (lock : AllocatorLock)
  /-- It changes which references there are to a thread and its process. -/
  | refer (thread : Thread) (sole : Bool)
  | call (operation : Operation)
  /-- The code that runs goes to its next lock operation. -/
  | advance
  /-- `get_ready_state` returns. -/
  | begin (locks : List AllocatorLock)
  | yield (tried : SwitchLocks) (time : Nat)
  | interrupt (tried : SwitchLocks) (time : Nat)
  | joinMapBusy
  | finish (capacity : Nat)
  deriving DecidableEq, Repr

namespace Processor

variable (self : Processor)

def running : Nat :=
  match self.scheduler.readyState.currentThread with
  | some thread => thread.id
  | none => 0

/-- A handler runs before the thread that it interrupted. -/
def executing : Activity :=
  match self.handler with
  | some work => .performing work
  | none => self.activity self.running

def context : Context :=
  ⟨self.running, if self.handler.isSome then .interrupt else .thread⟩

/-- The running thread goes on. -/
def goto (activity : Activity) : Processor :=
  { self with activity := Function.update self.activity self.running activity }

/-- The operation under way goes on, in the handler or in the thread. -/
def work (self : Processor) (work : Work) : Processor :=
  if self.handler.isSome then { self with handler := some work } else self.goto (.performing work)

def hold (lock : AllocatorLock) : Processor :=
  { self with holder := Function.update self.holder lock (some self.context) }

def release (lock : AllocatorLock) : Processor :=
  { self with holder := Function.update self.holder lock none }

def lockReadyState : Processor := { self with readyStateLocked := true }

def unlockReadyState : Processor := { self with readyStateLocked := false }

/-- Does the operation drop the last reference to a process? `exit` drops the
current thread, `kill` those it takes from the ready queue. -/
def Ends : Operation → Prop
  | .action (.exit _) => ∃ thread ∈ self.scheduler.readyState.currentThread, self.sole thread = true
  | .action (.kill threadId) =>
    ∃ thread ∈ self.scheduler.readyState.readyQueue ++
        (self.scheduler.joinMap.get? threadId).getD [],
      thread.id = threadId ∧ self.sole thread = true
  | _ => False

instance (self : Processor) : DecidablePred self.Ends
  | .action (.exit _) => inferInstanceAs (Decidable (∃ _ ∈ _, _))
  | .action (.kill _) => inferInstanceAs (Decidable (∃ _ ∈ _, _))
  | .activeThreadIds | .currentThread | .thread _ | .action (.ready _) | .action .setInit
  | .action (.switchThread _ _) | .action (.sleep _ _ _) | .action (.join _ _) =>
    inferInstanceAs (Decidable False)

/-- The allocator calls that an operation behind `get_ready_state` makes. An
address space is freed exactly when the last reference to its process is. -/
def Performs (operation : Operation) (locks : List AllocatorLock) : Prop :=
  (.heap ∈ locks → operation.allocates = true) ∧ (.frames ∈ locks ↔ self.Ends operation)

instance (self : Processor) (operation : Operation) : DecidablePred (self.Performs operation) :=
  fun _ => inferInstanceAs (Decidable (_ ∧ _))

/-- The allocator calls of `switch_thread`, all of them in `check_sleep_list`.
The current thread is put into the queue after another one has left it. -/
def switchLocks (tried : SwitchLocks) (time : Nat) : List AllocatorLock :=
  if self.scheduler.readyState.initialized ∧ tried.sleepListFree then
    pushLocks (due self.scheduler.sleepList time) self.scheduler.readyState.readyQueue.length
      self.capacity
  else []

def switchWork (tried : SwitchLocks) (time : Nat) : Work :=
  ⟨.action (.switchThread tried time), none, self.switchLocks tried time⟩

/-- The end of an operation. If it has switched threads, the new thread
unlocks the ready state and returns to where it was. -/
def leave (scheduler : Scheduler) (capacity : Nat) : Processor :=
  { self with
    scheduler
    capacity
    activity :=
      if self.handler.isSome then self.activity
      else Function.update self.activity self.running .outside
    handler := none
    readyStateLocked := false }

/-- The next lock operation of the code that runs; none if it has to wait or
if a choice is open. -/
def advance : Option Processor :=
  match self.executing with
  | .waiting lock =>
    if self.holder lock = none then some ((self.goto (.inside lock)).hold lock) else none
  | .inside lock => some ((self.goto .outside).release lock)
  | .entering operation =>
    if self.readyStateLocked then none
    else if operation.checksAllocator then some (self.goto (.checking operation)).lockReadyState
    else some (self.goto (.performing ⟨operation, none, []⟩)).lockReadyState
  | .checking operation =>
    -- `is_locked` asks for the heap only
    if self.holder .heap = none then none
    else some (self.goto (.entering operation)).unlockReadyState
  | .performing ⟨operation, none, lock :: rest⟩ =>
    if self.holder lock = none then some ((self.work ⟨operation, some lock, rest⟩).hold lock)
    else none
  | .performing ⟨operation, some lock, rest⟩ =>
    some ((self.work ⟨operation, none, rest⟩).release lock)
  | _ => none

/-- One step. An interrupt that finds the ready state locked returns at once,
and the handler itself is not interrupted. -/
def step (profile : BuildProfile) (self : Processor) (move : Move) : Option Processor :=
  match move, self.executing with
  | .request lock, .outside => some (self.goto (.waiting lock))
  | .refer thread sole, .outside => some { self with sole := Function.update self.sole thread sole }
  | .call operation, .outside =>
    if operation.isSwitchThread then none else some (self.goto (.entering operation))
  | .advance, _ => self.advance
  | .begin locks, .checking operation =>
    if self.holder .heap = none ∧ self.Performs operation locks then
      some (self.goto (.performing ⟨operation, none, locks⟩))
    else none
  | .yield tried time, .outside =>
    if self.readyStateLocked = false ∧ tried.readyStateFree = true then
      some (self.goto (.performing (self.switchWork tried time))).lockReadyState
    else none
  | .interrupt tried time, _ =>
    if self.handler = none ∧ self.readyStateLocked = false ∧ tried.readyStateFree = true then
      some { self with handler := some (self.switchWork tried time) }.lockReadyState
    else none
  | .joinMapBusy, .performing ⟨operation, none, _⟩ =>
    if self.handler = none ∧ operation.triesJoinMap = true then
      some (self.goto (.entering operation)).unlockReadyState
    else none
  | .finish capacity, .performing ⟨operation, none, []⟩ =>
    match operation.perform profile self.scheduler with
    | .ok scheduler =>
      if scheduler.readyState.readyQueue.length ≤ capacity ∧ self.capacity ≤ capacity then
        some (self.leave scheduler capacity)
      else none
    | .error _ => none
  | _, _ => none

/-- The running code waits, with `ready_state` locked, for an allocator lock
that code holds which does not run. -/
def Stuck : Prop :=
  self.readyStateLocked = true ∧
  ∃ lock owner, self.executing.awaits lock = true ∧ self.holder lock = some owner ∧
    owner ≠ self.context

/-- When a move does not begin an operation that gets stuck. `switch_thread`
has room in the ready queue for the threads it wakes, or finds the heap
unlocked; the page frame allocator is unlocked if the last reference to a
process is dropped. -/
def Spared : Move → Prop
  | .begin _ =>
    match self.executing with
    | .checking operation => self.Ends operation → self.holder .frames = none
    | _ => True
  | .yield tried time | .interrupt tried time =>
    self.scheduler.readyState.initialized = true → tried.sleepListFree = true →
      self.scheduler.readyState.readyQueue.length + due self.scheduler.sleepList time ≤
        self.capacity ∨ self.holder .heap = none
  | _ => True

instance (self : Processor) : DecidablePred self.Spared
  | .begin _ => by unfold Spared; dsimp only; split <;> infer_instance
  | .yield _ _ | .interrupt _ _ => inferInstanceAs (Decidable (_ → _ → _ ∨ _))
  | .request _ | .refer _ _ | .call _ | .advance | .joinMapBusy | .finish _ =>
    inferInstanceAs (Decidable True)

/-- Just after `start`. -/
def started (scheduler : Scheduler) (capacity : Nat) (sole : Thread → Bool) : Processor :=
  ⟨scheduler, capacity, sole, fun _ => .outside, none, false, fun _ => none⟩

/-- The states that moves lead to which all meet a condition. -/
inductive Reaches (profile : BuildProfile) (meets : Processor → Move → Prop) :
    Processor → Prop where
  | start {threads : List Thread} {scheduler : Scheduler} {capacity : Nat} (sole : Thread → Bool)
      (hStart : (World.boot threads).start = .ok scheduler)
      (hFits : scheduler.readyState.readyQueue.length ≤ capacity) :
      Reaches profile meets (started scheduler capacity sole)
  | step {self later : Processor} (move : Move) (hReach : Reaches profile meets self)
      (hMeets : meets self move) (hStep : self.step profile move = some later) :
      Reaches profile meets later

/-- Make moves that all meet a condition. -/
def run (profile : BuildProfile) (meets : Processor → Move → Prop)
    [∀ self, DecidablePred (meets self)] : Processor → List Move → Option Processor
  | self, [] => some self
  | self, move :: rest =>
    if meets self move then
      (self.step profile move).bind fun later => run profile meets later rest
    else none

/-- The code that runs goes on and waits for code that does not run. -/
def GetsStuck (profile : BuildProfile) (self : Processor) : Prop :=
  ∃ count last, self.run profile (fun _ _ => True) (List.replicate count .advance) = some last ∧
    last.Stuck

end Processor

end D3OS.Process
