import D3OS.Library.Fifo
import D3OS.Process.Runs

/-! Bounded waiting. Whatever a section does, threads enter the ready queue at
its front and at most one thread leaves it, at its back. So every dispatch
brings a ready thread one place forward, and no thread overtakes another one. -/
namespace D3OS.Process

open Outcome

variable {profile : BuildProfile} {action : Action}

namespace Scheduler

/-- How many threads `switch_thread` takes from the ready queue. -/
def switchDispatches (self : Scheduler) (locks : SwitchLocks) (time : Nat) : Nat :=
  if !locks.readyStateFree || !self.readyState.initialized then 0
  else
    let (state, _) :=
      if locks.sleepListFree then checkSleepList time self.readyState self.sleepList
      else (self.readyState, self.sleepList)
    if locks.stacksLocked || locks.tssLocked then 0
    else
      match popBack state.readyQueue with
      | none => 0
      | some _ => 1

/-- How many threads a section takes from the ready queue when it comes to its
end. `block` does not end before it has taken one. -/
def dispatches (self : Scheduler) : Action → Nat
  | .switchThread locks time => self.switchDispatches locks time
  | .sleep _ _ _ => if self.readyState.initialized then 1 else 0
  | .join threadId _ => if (self.joinMap.get? threadId).isSome then 1 else 0
  | .exit _ => 1
  | .ready _ | .setInit | .kill _ => 0

/-- What a section does to the ready queue, and which thread runs after it if
it takes one. A thread may also take itself. -/
structure Serves (before : Scheduler) (count : Nat) (later : Scheduler) (taken : Option Thread) :
    Prop where
  queue : Fifo.Step before.readyState.readyQueue taken later.readyState.readyQueue
  counted : taken.toList.length = count
  runs : ∀ next ∈ taken, later.readyState.currentThread = some next ∨
    ∃ current, before.readyState.currentThread = some current ∧ current.id = next.id

variable {self later : Scheduler}

/-- A section that takes no thread may let threads enter. -/
theorem Serves.of_entered (entered : List Thread)
    (h : later.readyState.readyQueue = entered ++ self.readyState.readyQueue) :
    Serves self 0 later none where
  queue := h ▸ Fifo.Step.enter entered self.readyState.readyQueue
  counted := rfl
  runs := nofun

theorem nextThread_served {times : List Nat} {state later : ReadyState}
    {sleepList rest : SleepList} {next : Thread}
    (h : nextThread times state sleepList = .ok (next, later, rest)) :
    ∃ entered, entered ++ state.readyQueue = later.readyQueue ++ [next] := by
  induction times generalizing state sleepList with
  | nil =>
    unfold nextThread at h
    cases hPop : popBack state.readyQueue with
    | none =>
      rw [hPop] at h
      cases h
    | some popped =>
      rw [hPop] at h
      cases h
      exact ⟨[], popBack_eq_some.mp hPop⟩
  | cons time times ih =>
    unfold nextThread at h
    cases hPop : popBack state.readyQueue with
    | none =>
      rw [hPop] at h
      obtain ⟨entered, hEntered⟩ := ih h
      rw [checkSleepList_eq, ReadyState.wake_readyQueue, ← List.append_assoc] at hEntered
      exact ⟨_, hEntered⟩
    | some popped =>
      rw [hPop] at h
      cases h
      exact ⟨[], popBack_eq_some.mp hPop⟩

theorem block_served {times : List Nat} {switched : Bool}
    (h : self.block times = .ok (later, switched)) : ∃ next, Serves self 1 later (some next) := by
  obtain ⟨⟨next, state, sleepList⟩, hNext, h⟩ := bind_ok h
  obtain ⟨current, hCurrent, h⟩ := bind_ok h
  obtain ⟨entered, hEntered⟩ := nextThread_served hNext
  have hQueue := Fifo.Step.take hEntered []
  have hSame := ReadyState.current_ok.mp hCurrent
  rw [(nextThread_ok hNext).1] at hSame
  refine ⟨next, ?_⟩
  split at h
  · rename_i hId
    obtain ⟨rfl, -⟩ := Prod.mk.inj (pure_ok h)
    exact ⟨hQueue, rfl, fun _ hTaken => Or.inr ⟨current, hSame, Option.some.inj hTaken ▸ hId⟩⟩
  · obtain ⟨rfl, -⟩ := Prod.mk.inj (pure_ok h)
    exact ⟨hQueue, rfl, fun _ hTaken => Or.inl hTaken⟩

theorem switchThread_served {locks : SwitchLocks} {time : Nat}
    (h : self.switchThread locks time = .ok later) :
    ∃ taken, Serves self (self.switchDispatches locks time) later taken := by
  unfold switchThread at h
  unfold switchDispatches
  by_cases hBusy : (!locks.readyStateFree || !self.readyState.initialized) = true
  · rw [if_pos hBusy] at h ⊢
    obtain rfl := pure_ok h
    exact ⟨none, .of_entered [] rfl⟩
  rw [if_neg hBusy] at h ⊢
  obtain ⟨state, sleepList, hDrained⟩ : ∃ state sleepList,
      (if locks.sleepListFree then checkSleepList time self.readyState self.sleepList
        else (self.readyState, self.sleepList)) = (state, sleepList) := ⟨_, _, rfl⟩
  obtain ⟨entered, hEntered⟩ :
      ∃ entered, entered ++ self.readyState.readyQueue = state.readyQueue := by
    split at hDrained
    · rw [checkSleepList_eq] at hDrained
      obtain ⟨rfl, -⟩ := Prod.mk.inj hDrained
      exact ⟨_, (ReadyState.wake_readyQueue ..).symm⟩
    · obtain ⟨rfl, -⟩ := Prod.mk.inj hDrained
      exact ⟨[], rfl⟩
  rw [hDrained] at h ⊢
  obtain ⟨current, -, h⟩ := bind_ok h
  dsimp only
  by_cases hLocked : (locks.stacksLocked || locks.tssLocked) = true
  · rw [if_pos hLocked] at h ⊢
    obtain rfl := pure_ok h
    exact ⟨none, .of_entered entered hEntered.symm⟩
  rw [if_neg hLocked] at h ⊢
  cases hPop : popBack state.readyQueue with
  | none =>
    rw [hPop] at h
    obtain rfl := pure_ok h
    exact ⟨none, .of_entered entered hEntered.symm⟩
  | some popped =>
    rw [hPop] at h
    obtain rfl := pure_ok h
    rw [popBack_eq_some.mp hPop] at hEntered
    exact ⟨some popped.1, Fifo.Step.take hEntered [current], rfl, fun _ hTaken => Or.inl hTaken⟩

/-- The ready queue is first in, first out in every section but `kill`. -/
theorem perform_served (hNotKill : action.NotKill) (h : self.perform profile action = .ok later) :
    ∃ taken, Serves self (self.dispatches action) later taken := by
  cases action with
  | ready thread =>
    cases h
    exact ⟨none, .of_entered [thread] rfl⟩
  | setInit =>
    cases h
    exact ⟨none, .of_entered [] rfl⟩
  | switchThread locks time => exact switchThread_served h
  | sleep ms systime times =>
    rcases sleep_ok h with ⟨hInit, rfl⟩ | ⟨current, wakeupTime, switched, hInit, -, -, hBlock⟩
    · have hCount : later.dispatches (.sleep ms systime times) = 0 := if_neg (by simp [hInit])
      exact ⟨none, hCount ▸ .of_entered [] rfl⟩
    · have hCount : self.dispatches (.sleep ms systime times) = 1 := if_pos hInit
      obtain ⟨next, hQueue, hLength, hRuns⟩ := block_served hBlock
      exact ⟨some next, hQueue, hCount ▸ hLength, hRuns⟩
  | join threadId times =>
    rcases join_ok h with ⟨hNone, rfl⟩ | ⟨current, joinList, switched, -, hList, hBlock⟩
    · have hCount : later.dispatches (.join threadId times) = 0 := if_neg (by simp [hNone])
      exact ⟨none, hCount ▸ .of_entered [] rfl⟩
    · have hCount : self.dispatches (.join threadId times) = 1 := if_pos (by simp [hList])
      obtain ⟨next, hQueue, hLength, hRuns⟩ := block_served hBlock
      exact ⟨some next, hQueue, hCount ▸ hLength, hRuns⟩
  | exit times =>
    obtain ⟨current, joinList, -, -, hBlock⟩ := exit_ok h
    obtain ⟨next, hQueue, hLength, hRuns⟩ := block_served hBlock
    rw [ReadyState.wake_readyQueue] at hQueue
    rw [ReadyState.wake_currentThread] at hRuns
    exact ⟨some next, hQueue.of_entered, hLength, hRuns⟩
  | kill threadId => exact absurd rfl (hNotKill threadId)

end Scheduler

namespace World

/-- A run of the given actions, none of which is `kill`, with the number of
threads it takes from the ready queue. -/
inductive Runs (profile : BuildProfile) : World → List Action → Nat → World → Prop where
  | nil (world : World) : Runs profile world [] 0 world
  | cons {world next later : World} {action : Action} {actions : List Action} {count : Nat}
      (notKill : action.NotKill) (first : Step profile world action next)
      (rest : Runs profile next actions count later) :
      Runs profile world (action :: actions) (world.scheduler.dispatches action + count) later

theorem record_scheduler (world : World) (later : Scheduler) (action : Action) :
    (world.record later action).scheduler = later := by
  cases action <;> rfl

variable {later world : World}

theorem Step.served (h : Step profile world action later) (hNotKill : action.NotKill) :
    ∃ taken, Scheduler.Serves world.scheduler (world.scheduler.dispatches action) later.scheduler
      taken := by
  obtain ⟨-, scheduler, hPerform, rfl⟩ := h
  rw [record_scheduler]
  exact Scheduler.perform_served hNotKill hPerform

/-- A step that takes a thread brings a ready thread one place forward, and the
first of the ready threads runs after it. -/
theorem Step.waits (h : Step profile world action later) (hNotKill : action.NotKill)
    (hConsistent : Consistent world) {thread : Thread} {ahead : Nat}
    (hWaits : Fifo.Waits world.scheduler.readyState.readyQueue thread ahead) :
    (∃ left, ahead = left + world.scheduler.dispatches action ∧
      Fifo.Waits later.scheduler.readyState.readyQueue thread left) ∨
    (ahead + 1 = world.scheduler.dispatches action ∧
      later.scheduler.readyState.currentThread = some thread) := by
  obtain ⟨taken, hQueue, hCount, hRuns⟩ := h.served hNotKill
  rcases hWaits.step hQueue with ⟨rfl, hLater⟩ | ⟨other, left, rfl, hAhead, hLater⟩ | ⟨rfl, rfl⟩
  · exact Or.inl ⟨ahead, hCount ▸ rfl, hLater⟩
  · exact Or.inl ⟨left, hCount ▸ hAhead, hLater⟩
  · refine Or.inr ⟨hCount, ?_⟩
    rcases hRuns thread rfl with hRuns | ⟨current, hCurrent, hId⟩
    · exact hRuns
    · -- A ready thread is not the current one, so it cannot be taken by itself.
      have hParked : thread ∈ world.scheduler.parked :=
        List.mem_append_left _ (List.mem_append_left _ hWaits.mem)
      exact absurd hId (hConsistent.id_ne_of_parked hCurrent hParked)

theorem Runs.waits {actions : List Action} {count : Nat}
    (h : Runs profile world actions count later) (hConsistent : Consistent world) {thread : Thread}
    {ahead : Nat} (hWaits : Fifo.Waits world.scheduler.readyState.readyQueue thread ahead)
    (hCount : ahead < count) :
    ∃ before after middle, actions = before ++ after ∧ Runs profile world before (ahead + 1) middle ∧
      middle.scheduler.readyState.currentThread = some thread := by
  induction h generalizing ahead with
  | nil => cases hCount
  | @cons world next later action actions count notKill first rest ih =>
    rcases first.waits notKill hConsistent hWaits with ⟨left, hAhead, hLeft⟩ | ⟨hAhead, hRuns⟩
    · obtain ⟨before, after, middle, hActions, hBefore, hMiddle⟩ :=
        ih (hConsistent.step first) hLeft (by omega)
      have hDispatches : world.scheduler.dispatches action + (left + 1) = ahead + 1 := by omega
      refine ⟨action :: before, after, middle, congrArg (action :: ·) hActions, ?_, hMiddle⟩
      exact hDispatches ▸ .cons notKill first hBefore
    · refine ⟨[action], actions, next, rfl, ?_, hRuns⟩
      rw [hAhead]
      exact .cons notKill first (.nil next)

/-- A ready thread with threads ahead of it is current once a run has taken
one thread more than those from the ready queue. -/
theorem bounded_waiting {profile : BuildProfile} {world later : World} {thread : Thread}
    {behind ahead : List Thread} {actions : List Action} {count : Nat}
    (hWorld : Reachable profile Action.NotKill world)
    (hQueue : world.scheduler.readyState.readyQueue = behind ++ thread :: ahead)
    (hRun : Runs profile world actions count later) (hCount : ahead.length < count) :
    ∃ before after middle, actions = before ++ after ∧
      Runs profile world before (ahead.length + 1) middle ∧
      middle.scheduler.readyState.currentThread = some thread :=
  hRun.waits hWorld.consistent ⟨behind, ahead, hQueue, rfl⟩ hCount

/-- Three threads, of which the first runs. -/
def threeThreads (initialized : Bool) : World where
  scheduler := ⟨⟨initialized, some ⟨1, 1⟩, [⟨3, 1⟩, ⟨2, 1⟩]⟩, [], unjoined [1, 2, 3]⟩
  readied := [⟨1, 1⟩, ⟨2, 1⟩, ⟨3, 1⟩]
  exited := []
  killed := []

theorem threeThreads_reachable (profile : BuildProfile) :
    Reachable profile Action.NotKill (threeThreads true) := by
  have hStart : Reachable profile Action.NotKill (threeThreads false) :=
    .start (by decide) (by decide +kernel)
  have hStep : Step profile (threeThreads false) .setInit (threeThreads true) :=
    ⟨fun _ hEq => (nomatch hEq), _, rfl, rfl⟩
  exact hStart.step (by simp [Action.NotKill]) hStep

def secondRuns : World :=
  { threeThreads true with scheduler :=
    ⟨⟨true, some ⟨2, 1⟩, [⟨1, 1⟩, ⟨3, 1⟩]⟩, [], unjoined [1, 2, 3]⟩ }

def fourthArrives : World where
  scheduler := ⟨⟨true, some ⟨2, 1⟩, [⟨4, 1⟩, ⟨1, 1⟩, ⟨3, 1⟩]⟩, [], unjoined [1, 2, 3, 4]⟩
  readied := [⟨4, 1⟩, ⟨1, 1⟩, ⟨2, 1⟩, ⟨3, 1⟩]
  exited := []
  killed := []

def thirdRuns : World :=
  { fourthArrives with
    scheduler := ⟨⟨true, some ⟨3, 1⟩, [⟨4, 1⟩, ⟨1, 1⟩]⟩, [], unjoined [1, 3, 4]⟩
    exited := [⟨2, 1⟩] }

/-- The second thread is preferred to the third one, a fourth one arrives, and
the second one exits. -/
theorem third_waits :
    ∃ before after middle,
      [.switchThread ⟨true, true, false, false⟩ 5, .ready ⟨4, 1⟩, .exit []] = before ++ after ∧
      Runs .development (threeThreads true) before 2 middle ∧
      middle.scheduler.readyState.currentThread = some ⟨3, 1⟩ := by
  have hSwitch : Step .development (threeThreads true)
      (.switchThread ⟨true, true, false, false⟩ 5) secondRuns :=
    ⟨fun _ hEq => (nomatch hEq), secondRuns.scheduler, by decide +kernel, rfl⟩
  have hReady : Step .development secondRuns (.ready ⟨4, 1⟩) fourthArrives :=
    ⟨fun thread hEq => by cases hEq; decide, fourthArrives.scheduler, by decide +kernel, rfl⟩
  have hExit : Step .development fourthArrives (.exit []) thirdRuns :=
    ⟨fun _ hEq => (nomatch hEq), thirdRuns.scheduler, by decide +kernel, rfl⟩
  have hRun := Runs.cons (by simp [Action.NotKill]) hSwitch
    (.cons (by simp [Action.NotKill]) hReady (.cons (by simp [Action.NotKill]) hExit (.nil _)))
  have hQueue : (threeThreads true).scheduler.readyState.readyQueue =
      [] ++ (⟨3, 1⟩ : Thread) :: [⟨2, 1⟩] := rfl
  exact bounded_waiting (threeThreads_reachable _) hQueue hRun (by decide +kernel)

end World

end D3OS.Process
