import D3OS.Kernel.Arithmetic
import D3OS.Library.Outcome
import D3OS.Library.SortedMap
import Mathlib.Order.Nat

/-! The thread scheduler. Every function is one section under the scheduler
locks. The times that `check_sleep_list` reads and the outcomes of the other
locks are arguments. The end-of-interrupt message to the APIC is left out. -/
namespace D3OS.Process

/-- What the scheduler uses of an `Arc<Thread>`: its id and its process. -/
structure Thread where
  id : Nat
  process : Nat
  deriving DecidableEq, Repr

/-- Why a section does not come to its end. -/
inductive Halt where
  | panicked (panic : Panic)
  /-- The times run out before a thread becomes ready. -/
  | spinning
  deriving DecidableEq, Repr

/-- The front of the ready queue stands first in the list. -/
structure ReadyState where
  initialized : Bool
  currentThread : Option Thread
  readyQueue : List Thread
  deriving DecidableEq, Repr

abbrev SleepList := List (Thread × Nat)

structure Scheduler where
  readyState : ReadyState
  sleepList : SleepList
  joinMap : SortedMap Nat (List Thread)
  deriving DecidableEq

def popBack (queue : List Thread) : Option (Thread × List Thread) :=
  queue.getLast?.map fun thread => (thread, queue.dropLast)

namespace ReadyState

def pushFront (state : ReadyState) (thread : Thread) : ReadyState :=
  { state with readyQueue := thread :: state.readyQueue }

/-- The loop over a join list, which puts every waiter into the ready queue. -/
def wake (state : ReadyState) (waiters : List Thread) : ReadyState :=
  waiters.foldl pushFront state

def current (state : ReadyState) : Except Halt Thread :=
  match state.currentThread with
  | some thread => .ok thread
  | none => .error (.panicked .noCurrentThread)

end ReadyState

/-- The outcomes of the locks that `switch_thread` tries. -/
structure SwitchLocks where
  readyStateFree : Bool
  sleepListFree : Bool
  stacksLocked : Bool
  tssLocked : Bool
  deriving DecidableEq, Repr

namespace Scheduler

def new : Scheduler := ⟨⟨false, none, []⟩, [], SortedMap.empty⟩

variable (self : Scheduler)

def setInit : Scheduler :=
  { self with readyState := { self.readyState with initialized := true } }

def activeThreadIds : List Nat :=
  self.readyState.readyQueue.map Thread.id ++ self.sleepList.map (fun entry => entry.1.id)

/-- `Scheduler::thread`: only the ready queue is searched. -/
def thread (self : Scheduler) (threadId : Nat) : Option Thread :=
  self.readyState.readyQueue.find? (fun thread => thread.id = threadId)

def start : Except Halt Scheduler :=
  match popBack self.readyState.readyQueue with
  | some (first, queue) =>
    .ok { self with readyState :=
      { self.readyState with currentThread := some first, readyQueue := queue } }
  | none => .error (.panicked .noFirstThread)

def ready (thread : Thread) : Scheduler :=
  { self with
    readyState := self.readyState.pushFront thread
    joinMap := self.joinMap.insert thread.id [] }

/-- `check_sleep_list`: threads whose time has come move to the ready queue. -/
def checkSleepList (time : Nat) : ReadyState → SleepList → ReadyState × SleepList
  | state, [] => (state, [])
  | state, (thread, wakeupTime) :: rest =>
    if wakeupTime ≤ time then checkSleepList time (state.pushFront thread) rest
    else
      let (state, kept) := checkSleepList time state rest
      (state, (thread, wakeupTime) :: kept)

/-- The first part of `block`: take a thread from the ready queue, checking
the sleep list until there is one. -/
def nextThread : List Nat → ReadyState → SleepList → Except Halt (Thread × ReadyState × SleepList)
  | times, state, sleepList =>
    match popBack state.readyQueue with
    | some (next, queue) => .ok (next, { state with readyQueue := queue }, sleepList)
    | none =>
      match times with
      | [] => .error .spinning
      | time :: times =>
        let (state, sleepList) := checkSleepList time state sleepList
        nextThread times state sleepList

/-- `block`. The flag tells whether the processor was switched to another
thread; without a switch the call returns to the same thread. -/
def block (times : List Nat) : Except Halt (Scheduler × Bool) := do
  let (next, state, sleepList) ← nextThread times self.readyState self.sleepList
  let current ← state.current
  if current.id = next.id then return ({ self with readyState := state, sleepList }, false)
  else
    return ({ self with readyState := { state with currentThread := some next }, sleepList }, true)

/-- `sleep`. Before initialization the caller waits actively. -/
def sleep (profile : BuildProfile) (self : Scheduler) (ms systime : Nat) (times : List Nat) :
    Except Halt Scheduler :=
  if self.readyState.initialized then do
    let thread ← self.readyState.current
    let wakeupTime ← (profile.word (systime + ms)).mapError .panicked
    let (self, _) ← { self with sleepList := self.sleepList ++ [(thread, wakeupTime)] }.block times
    return self
  else return self

/-- `switch_thread` at the given time. -/
def switchThread (locks : SwitchLocks) (time : Nat) : Except Halt Scheduler :=
  if !locks.readyStateFree || !self.readyState.initialized then return self
  else do
    let (state, sleepList) :=
      if locks.sleepListFree then checkSleepList time self.readyState self.sleepList
      else (self.readyState, self.sleepList)
    let current ← state.current
    if locks.stacksLocked || locks.tssLocked then return { self with readyState := state, sleepList }
    else
      match popBack state.readyQueue with
      | none => return { self with readyState := state, sleepList }
      | some (next, queue) =>
        return { self with
          readyState := { state with currentThread := some next, readyQueue := current :: queue }
          sleepList }

/-- `join`. Joining a thread that is not in the join map has no effect. -/
def join (threadId : Nat) (times : List Nat) : Except Halt Scheduler := do
  let thread ← self.readyState.current
  match self.joinMap.get? threadId with
  | none => return self
  | some joinList =>
    let joinMap := self.joinMap.insert threadId (joinList ++ [thread])
    let (self, _) ← { self with joinMap }.block times
    return self

/-- `exit`: wake the waiters of the current thread, forget it and block. -/
def exit (times : List Nat) : Except Halt Scheduler := do
  let current ← self.readyState.current
  match self.joinMap.get? current.id with
  | none => .error (.panicked .missingJoinMapEntry)
  | some joinList =>
    let woken := { self with
      readyState := self.readyState.wake joinList
      joinMap := self.joinMap.erase current.id }
    let (self, switched) ← woken.block times
    if switched then return self else .error (.panicked .unreachableCode)

/-- `kill`: only the ready queue is searched for the thread. -/
def kill (threadId : Nat) : Except Halt Scheduler := do
  let current ← self.readyState.current
  if current.id = threadId then .error (.panicked .killsItself)
  else
    match self.joinMap.get? threadId with
    | none => .error (.panicked .missingJoinMapEntry)
    | some joinList =>
      let state := self.readyState.wake joinList
      return { self with
        readyState :=
          { state with readyQueue := state.readyQueue.filter (fun thread => thread.id ≠ threadId) }
        joinMap := self.joinMap.erase threadId }

end Scheduler

end D3OS.Process
