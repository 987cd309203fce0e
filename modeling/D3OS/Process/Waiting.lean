import D3OS.Process.Kill
import Mathlib.Data.List.Induction

/-! Threads that wait. A thread that joins another one is in the join list of
that thread until it exits, and in no other place. A sleeping thread is in the
sleep list until a section reads a time at which it is due. -/
namespace D3OS.Process

open Outcome

variable {threadId : Nat} {waiter current : Thread} {times : List Nat} {later : Scheduler}

namespace Scheduler

theorem get?_insert_self (map : SortedMap Nat (List Thread)) (threadId : Nat)
    (joinList : List Thread) : (map.insert threadId joinList).get? threadId = some joinList :=
  SortedMap.get?_eq_some.mpr (SortedMap.mem_insert.mpr (Or.inl rfl))

/-- A join list is kept, and can only grow, until its thread exits. -/
theorem At.waiting_insert {map : SortedMap Nat (List Thread)} {other : Nat}
    {joinList old : List Thread} (hOld : map.get? threadId = some old)
    (hGrows : other = threadId → old ⊆ joinList) (hWaiter : waiter ∈ old) :
    ∃ later, (map.insert other joinList).get? threadId = some later ∧ waiter ∈ later := by
  by_cases hId : other = threadId
  · subst hId
    exact ⟨joinList, get?_insert_self _ _ _, hGrows rfl hWaiter⟩
  · refine ⟨old, SortedMap.get?_eq_some.mpr (SortedMap.mem_insert.mpr (Or.inr ⟨?_, ?_⟩)), hWaiter⟩
    · exact SortedMap.get?_eq_some.mp hOld
    · exact Ne.symm hId

variable {queue : List Thread} {next : Thread} {self : Scheduler}

/-- With a thread in the ready queue, `block` does not look at the sleep list. -/
theorem nextThread_of_ready {state : ReadyState} (h : state.readyQueue = queue ++ [next])
    (times : List Nat) (sleepList : SleepList) :
    nextThread times state sleepList =
      .ok (next, { state with readyQueue := queue }, sleepList) := by
  unfold nextThread
  rw [popBack_eq_some.mpr h]

/-- An exit with waiters, or with a thread in the ready queue. -/
theorem exit_of_ready {joinList : List Thread}
    (hCurrent : self.readyState.currentThread = some current)
    (hList : self.joinMap.get? current.id = some joinList)
    (hQueue : joinList.reverse ++ self.readyState.readyQueue = queue ++ [next])
    (hNext : current.id ≠ next.id) (times : List Nat) :
    self.exit times = .ok { self with
      readyState := { self.readyState with currentThread := some next, readyQueue := queue }
      joinMap := self.joinMap.erase current.id } := by
  have hWoken : (self.readyState.wake joinList).readyQueue = queue ++ [next] := by
    rw [ReadyState.wake_readyQueue, hQueue]
  have hState : ReadyState.current { self.readyState with readyQueue := queue } = .ok current :=
    ReadyState.current_ok.mpr hCurrent
  unfold exit block
  rw [ReadyState.current_ok.mpr hCurrent, bind_of_ok, hList]
  dsimp only
  rw [nextThread_of_ready hWoken, bind_of_ok, ReadyState.wake_eq]
  dsimp only
  rw [hState, bind_of_ok, if_neg hNext]
  rfl

/-! ### The sleep list -/

/-- Entries leave the sleep list only at a time they are due. -/
def WokenBy (times : List Nat) (before after : SleepList) : Prop :=
  ∀ entry ∈ before, entry ∈ after ∨ ∃ time ∈ times, entry.2 ≤ time

theorem WokenBy.refl (times : List Nat) (sleepList : SleepList) :
    WokenBy times sleepList sleepList := fun _ hEntry => Or.inl hEntry

theorem WokenBy.trans {first second : List Nat} {before middle after : SleepList}
    (hFirst : WokenBy first before middle) (hSecond : WokenBy second middle after) :
    WokenBy (first ++ second) before after := by
  intro entry hEntry
  rcases hFirst entry hEntry with hKept | ⟨time, hTime, hDue⟩
  · refine (hSecond entry hKept).imp_right ?_
    rintro ⟨time, hTime, hDue⟩
    exact ⟨time, List.mem_append_right _ hTime, hDue⟩
  · exact Or.inr ⟨time, List.mem_append_left _ hTime, hDue⟩

theorem checkSleepList_wokenBy (time : Nat) (state : ReadyState) (sleepList : SleepList) :
    WokenBy [time] sleepList (checkSleepList time state sleepList).2 := by
  intro entry hEntry
  rw [checkSleepList_eq]
  by_cases hDue : entry.2 ≤ time
  · exact Or.inr ⟨time, List.mem_cons_self, hDue⟩
  · exact Or.inl (List.mem_filter.mpr ⟨hEntry, by simpa using hDue⟩)

theorem checkSleepList_subset (time : Nat) (state : ReadyState) (sleepList : SleepList) :
    (checkSleepList time state sleepList).2 ⊆ sleepList := by
  rw [checkSleepList_eq]
  exact List.filter_subset_self _

theorem nextThread_drains {state later : ReadyState} {sleepList rest : SleepList}
    (h : nextThread times state sleepList = .ok (next, later, rest)) :
    WokenBy times sleepList rest ∧ rest ⊆ sleepList ∧ later.initialized = state.initialized := by
  induction times generalizing state sleepList with
  | nil =>
    unfold nextThread at h
    split at h
    · simp only [Except.ok.injEq, Prod.mk.injEq] at h
      obtain ⟨-, rfl, rfl⟩ := h
      exact ⟨.refl _ _, List.Subset.refl _, rfl⟩
    · cases h
  | cons time times ih =>
    unfold nextThread at h
    split at h
    · simp only [Except.ok.injEq, Prod.mk.injEq] at h
      obtain ⟨-, rfl, rfl⟩ := h
      exact ⟨.refl _ _, List.Subset.refl _, rfl⟩
    · obtain ⟨hWoken, hSubset, hInit⟩ := ih h
      refine ⟨(checkSleepList_wokenBy time state sleepList).trans hWoken,
        List.Subset.trans hSubset (checkSleepList_subset time state sleepList), hInit.trans ?_⟩
      rw [checkSleepList_eq, ReadyState.wake_eq]

theorem block_drains {switched : Bool} (h : self.block times = .ok (later, switched)) :
    WokenBy times self.sleepList later.sleepList ∧ later.sleepList ⊆ self.sleepList ∧
      later.readyState.initialized = self.readyState.initialized := by
  obtain ⟨⟨next, state, sleepList⟩, hNext, h⟩ := bind_ok h
  obtain ⟨current, -, h⟩ := bind_ok h
  have hDrains := nextThread_drains hNext
  split at h <;> obtain ⟨rfl, -⟩ := Prod.mk.inj (pure_ok h) <;> exact hDrains

theorem switchThread_wokenBy {locks : SwitchLocks} {time : Nat}
    (h : self.switchThread locks time = .ok later) :
    WokenBy [time] self.sleepList later.sleepList := by
  rcases switchThread_ok h with rfl | ⟨state, sleepList, hDrained, hLater⟩
  · exact .refl _ _
  have hWoken : WokenBy [time] self.sleepList sleepList := by
    rcases hDrained with hDrained | hSame
    · have hCheck := checkSleepList_wokenBy time self.readyState self.sleepList
      rwa [hDrained] at hCheck
    · obtain ⟨-, rfl⟩ := Prod.mk.inj hSame
      exact .refl _ _
  rcases hLater with rfl | ⟨current, next, queue, -, -, rfl⟩ <;> exact hWoken

theorem exit_wokenBy (h : self.exit times = .ok later) :
    WokenBy times self.sleepList later.sleepList := by
  obtain ⟨current, joinList, -, -, hBlock⟩ := exit_ok h
  exact (block_drains hBlock).1

/-- A switch that cannot get the sleep list. -/
theorem switchThread_rotates (hInit : self.readyState.initialized = true)
    (hCurrent : self.readyState.currentThread = some current)
    (hQueue : self.readyState.readyQueue = queue ++ [next]) (time : Nat) :
    self.switchThread ⟨true, false, false, false⟩ time = .ok { self with readyState :=
      { self.readyState with currentThread := some next, readyQueue := current :: queue } } := by
  simp only [switchThread, hInit, Bool.not_true, Bool.or_false, Bool.false_eq_true, if_false,
    ReadyState.current_ok.mpr hCurrent, bind_of_ok, popBack_eq_some.mpr hQueue]
  rfl

/-- A switch while the stacks of the current thread are locked. -/
theorem switchThread_drains (hInit : self.readyState.initialized = true)
    (hCurrent : self.readyState.currentThread = some current) (time : Nat) :
    self.switchThread ⟨true, true, true, false⟩ time = .ok { self with
      readyState := (checkSleepList time self.readyState self.sleepList).1
      sleepList := (checkSleepList time self.readyState self.sleepList).2 } := by
  have hState : (checkSleepList time self.readyState self.sleepList).1.current = .ok current := by
    rw [ReadyState.current_ok, checkSleepList_eq, ReadyState.wake_currentThread, hCurrent]
  simp only [switchThread, hInit, Bool.not_true, Bool.or_false, Bool.false_eq_true, if_false,
    if_true, hState, bind_of_ok]
  rfl

end Scheduler

namespace World

variable {profile : BuildProfile} {action : Action} {target : Thread} {world : World}
  {before after : World × Nat}

namespace Consistent

variable {world : World}

/-- A thread in a join list is neither current nor in the ready queue. -/
theorem not_running_of_waiting (h : Consistent world)
    (hWaits : world.scheduler.At waiter (.waiting threadId)) :
    world.scheduler.readyState.currentThread ≠ some waiter ∧
      waiter ∉ world.scheduler.readyState.readyQueue := by
  refine ⟨h.not_current_of_parked (Scheduler.mem_parked.mpr (Or.inr (Or.inr ⟨_, hWaits⟩))), ?_⟩
  exact fun hReady => (h.not_elsewhere hReady).2.2 (Scheduler.mem_waiting.mpr ⟨_, hWaits⟩)

/-- A waiting thread stays in its join list in every step but the exit of the
thread it waits for. -/
theorem waiting_step (h : Consistent world) {later : World}
    (hStep : Step profile world action later) (hNotKill : action.NotKill)
    (hKnown : target ∈ world.readied) (hExited : target ∉ later.exited)
    (hWaits : world.scheduler.At waiter (.waiting target.id)) :
    later.scheduler.At waiter (.waiting target.id) := by
  obtain ⟨hFresh, scheduler, hPerform, rfl⟩ := hStep
  obtain ⟨current, hCurrent⟩ := h.running
  obtain ⟨joinList, hList, hMem⟩ := hWaits
  have hSame : scheduler.joinMap = world.scheduler.joinMap →
      scheduler.At waiter (.waiting target.id) := fun hMap => ⟨joinList, hMap ▸ hList, hMem⟩
  cases action with
  | ready thread =>
    obtain rfl := Except.ok.inj hPerform
    refine Scheduler.At.waiting_insert hList (fun hId => absurd ?_ (hFresh thread rfl)) hMem
    exact hId ▸ List.mem_map_of_mem hKnown
  | setInit =>
    obtain rfl := Except.ok.inj hPerform
    exact hSame rfl
  | switchThread locks time =>
    exact hSame (Scheduler.switchThread_occurrences hCurrent hPerform).2.1
  | sleep ms systime times =>
    exact hSame (Scheduler.sleep_occurrences h.idsDistinct hCurrent hPerform).2.1
  | join threadId times =>
    rcases Scheduler.join_ok hPerform with ⟨-, rfl⟩ | ⟨caller, old, switched, -, hOld, hBlock⟩
    · exact hSame rfl
    · obtain ⟨-, -, -, -, hMap, -⟩ := Scheduler.block_ok hBlock
      have hGrows : threadId = target.id → joinList ⊆ old ++ [caller] := by grind
      obtain ⟨after, hAfter, hIn⟩ := Scheduler.At.waiting_insert hList hGrows hMem
      exact ⟨after, hMap ▸ hAfter, hIn⟩
  | exit times =>
    obtain ⟨-, -, hMap, -⟩ := Scheduler.exit_occurrences hCurrent hPerform
    have hOther : target.id ≠ current.id := by
      intro hId
      have hCurrentKnown := h.known current (Scheduler.mem_occurrences_of_current hCurrent)
      obtain rfl := h.eq_of_id_eq hKnown hCurrentKnown.1 hId
      exact hExited (by simp [record, hCurrent])
    refine ⟨joinList, ?_, hMem⟩
    rw [show (record world scheduler (.exit times)).scheduler.joinMap = _ from hMap,
      SortedMap.get?_erase_of_ne hOther, hList]
  | kill threadId => exact absurd rfl (hNotKill threadId)

/-- The exit of a thread puts its waiters into the ready queue and takes one
thread from its other end. -/
theorem exit_wakes (h : Consistent world)
    (hCurrent : world.scheduler.readyState.currentThread = some target)
    (hWaits : world.scheduler.At waiter (.waiting target.id)) (times : List Nat) :
    ∃ later, world.scheduler.exit times = .ok later ∧
      (waiter ∈ later.readyState.readyQueue ∨
        world.scheduler.readyState.readyQueue = [] ∧
          later.readyState.currentThread = some waiter) := by
  obtain ⟨-, hNotReady⟩ := h.not_running_of_waiting hWaits
  obtain ⟨joinList, hList, hMem⟩ := hWaits
  have hWoken : waiter ∈ joinList.reverse ++ world.scheduler.readyState.readyQueue :=
    List.mem_append_left _ (List.mem_reverse.mpr hMem)
  obtain ⟨queue, next, hQueue⟩ :=
    (List.eq_nil_or_concat' _).resolve_left (List.ne_nil_of_mem hWoken)
  have hParked : next ∈ world.scheduler.parked := by
    have hNext : next ∈ joinList.reverse ++ world.scheduler.readyState.readyQueue :=
      hQueue ▸ List.mem_append_right _ List.mem_cons_self
    rcases List.mem_append.mp hNext with hNext | hNext
    · exact Scheduler.mem_parked.mpr (Or.inr (Or.inr ⟨_, _, hList, List.mem_reverse.mp hNext⟩))
    · exact Scheduler.mem_parked.mpr (Or.inl hNext)
  have hOther := h.id_ne_of_parked hCurrent hParked
  refine ⟨_, Scheduler.exit_of_ready hCurrent hList hQueue hOther times, ?_⟩
  rcases List.mem_append.mp (hQueue ▸ hWoken) with hIn | hIn
  · exact Or.inl hIn
  · -- The waiter is taken at once, which cannot happen behind a thread that was ready before.
    obtain rfl := List.mem_singleton.mp hIn
    refine Or.inr ⟨?_, rfl⟩
    rcases List.eq_nil_or_concat' world.scheduler.readyState.readyQueue with
      hNil | ⟨rest, last, hLast⟩
    · exact hNil
    · rw [hLast, ← List.append_assoc] at hQueue
      obtain ⟨-, hEq⟩ := List.append_inj' hQueue rfl
      rw [hLast, List.singleton_inj.mp hEq] at hNotReady
      exact absurd (List.mem_append_right _ List.mem_cons_self) hNotReady

/-- Nobody waits for a thread before it is made ready or after it has left. -/
theorem join_of_not_live (h : Consistent world)
    (hNone : ∀ target, world.Live target → target.id ≠ threadId) (times : List Nat) :
    world.scheduler.join threadId times = .ok world.scheduler := by
  obtain ⟨current, hCurrent⟩ := h.running
  have hList : world.scheduler.joinMap.get? threadId = none := by
    by_contra hSome
    obtain ⟨joinList, hList⟩ := Option.ne_none_iff_exists'.mp hSome
    obtain ⟨target, hLive, hId⟩ := (h.joinable threadId).mp (SortedMap.mem_keys.mpr ⟨_, hList⟩)
    exact hNone target hLive hId
  unfold Scheduler.join
  rw [ReadyState.current_ok.mpr hCurrent, bind_of_ok, hList]
  rfl

/-- A call of `join` that blocks leaves the caller in the join list. -/
theorem join_waits (h : Consistent world)
    (hWaiter : world.scheduler.readyState.currentThread = some waiter) (hLive : world.Live target)
    (hJoin : world.scheduler.join target.id times = .ok later) :
    later.At waiter (.waiting target.id) := by
  rcases Scheduler.join_ok hJoin with ⟨hNone, -⟩ | ⟨caller, joinList, switched, hCaller, -, hBlock⟩
  · obtain ⟨joinList, hList⟩ := SortedMap.mem_keys.mp ((h.joinable _).mpr ⟨target, hLive, rfl⟩)
    cases hNone.symm.trans hList
  · obtain rfl : waiter = caller := Option.some.inj (hWaiter.symm.trans hCaller)
    obtain ⟨-, -, -, -, hMap, -⟩ := Scheduler.block_ok hBlock
    refine ⟨joinList ++ [waiter], ?_, List.mem_append_right _ List.mem_cons_self⟩
    rw [hMap]
    exact Scheduler.get?_insert_self _ _ _

end Consistent

theorem Step.exited_subset {later : World} (h : Step profile world action later) :
    world.exited ⊆ later.exited := by
  obtain ⟨-, scheduler, -, rfl⟩ := h
  cases action with
  | exit times => exact List.subset_append_right _ _
  | _ => exact List.Subset.refl _

/-- A waiting thread stays in its join list in every run before the exit of
the thread it waits for. -/
theorem Continues.waiting {later : World} (h : Continues profile Action.NotKill world later)
    (hConsistent : Consistent world) (hKnown : target ∈ world.readied)
    (hExited : target ∉ later.exited) (hWaits : world.scheduler.At waiter (.waiting target.id)) :
    Consistent later ∧ target ∈ later.readied ∧ later.scheduler.At waiter (.waiting target.id) := by
  induction h with
  | refl => exact ⟨hConsistent, hKnown, hWaits⟩
  | @tail middle later _ hLast ih =>
    obtain ⟨action, hNotKill, hStep⟩ := hLast
    obtain ⟨hMiddle, hMiddleKnown, hMiddleWaits⟩ := ih fun hMem =>
      hExited (hStep.exited_subset hMem)
    exact ⟨hMiddle.step hStep, hStep.readied_mono hMiddleKnown,
      hMiddle.waiting_step hStep hNotKill hMiddleKnown hExited hMiddleWaits⟩

/-- A thread that joins a live thread runs again, or is ready to, only after
that thread has exited. The exit puts it into the ready queue; if this was
empty, one of the waiters becomes current at once. A call for a thread that is
not live has no effect. -/
theorem join_ordered {profile : BuildProfile} {world : World} {waiter : Thread}
    (hWorld : Reachable profile Action.NotKill world)
    (hWaiter : world.scheduler.readyState.currentThread = some waiter) (threadId : Nat)
    (times : List Nat) :
    (∀ target, world.Live target → target.id = threadId → target ≠ waiter →
      ∀ joined later, Step profile world (.join threadId times) joined →
        Continues profile Action.NotKill joined later →
        (target ∉ later.exited → later.scheduler.readyState.currentThread ≠ some waiter ∧
          waiter ∉ later.scheduler.readyState.readyQueue) ∧
        (later.scheduler.readyState.currentThread = some target → ∀ exitTimes,
          ∃ after, later.scheduler.exit exitTimes = .ok after ∧
            (waiter ∈ after.readyState.readyQueue ∨
              later.scheduler.readyState.readyQueue = [] ∧
                after.readyState.currentThread = some waiter))) ∧
    ((∀ target, world.Live target → target.id ≠ threadId) →
      world.scheduler.join threadId times = .ok world.scheduler) := by
  have hConsistent := hWorld.consistent
  refine ⟨?_, fun hNone => hConsistent.join_of_not_live hNone times⟩
  rintro target hLive rfl - joined later hStep hRun
  have hJoined := hConsistent.step hStep
  have hKnown := hStep.readied_mono hLive.1
  have hWaits : joined.scheduler.At waiter (.waiting target.id) := by
    obtain ⟨-, scheduler, hJoin, rfl⟩ := hStep
    exact hConsistent.join_waits hWaiter hLive hJoin
  refine ⟨fun hExited => ?_, fun hCurrent exitTimes => ?_⟩
  · obtain ⟨hLater, -, hStill⟩ := hRun.waiting hJoined hKnown hExited hWaits
    exact hLater.not_running_of_waiting hStill
  · have hLater := ((hWorld.step (by simp [Action.NotKill]) hStep).continues hRun).consistent
    have hExited := (hLater.known target (Scheduler.mem_occurrences_of_current hCurrent)).2
    obtain ⟨-, -, hStill⟩ := hRun.waiting hJoined hKnown hExited hWaits
    exact hLater.exit_wakes hCurrent hStill exitTimes

/-- The two threads once the first one has joined the second. -/
def firstJoined : World :=
  { twoThreads with scheduler := ⟨⟨false, some ⟨2, 1⟩, []⟩, [],
    (unjoined [1, 2]).insert 2 [⟨1, 1⟩]⟩ }

theorem firstJoined_step (profile : BuildProfile) :
    Step profile twoThreads (.join 2 []) firstJoined :=
  ⟨fun _ hEq => (nomatch hEq), firstJoined.scheduler, by cases profile <;> decide +kernel, rfl⟩

theorem join_ordered_first :
    firstJoined.scheduler.readyState.currentThread ≠ some ⟨1, 1⟩ ∧
      ∃ after, firstJoined.scheduler.exit [] = .ok after ∧
        (⟨1, 1⟩ ∈ after.readyState.readyQueue ∨
          firstJoined.scheduler.readyState.readyQueue = [] ∧
            after.readyState.currentThread = some ⟨1, 1⟩) := by
  have hWorld := twoThreads_reachable .development Action.NotKill
  obtain ⟨hBefore, hAfter⟩ := (@join_ordered _ _ ⟨1, 1⟩ hWorld rfl 2 []).1 ⟨2, 1⟩ (by decide) rfl
    (by decide) firstJoined firstJoined (firstJoined_step _) Relation.ReflTransGen.refl
  exact ⟨(hBefore (by decide)).1, hAfter rfl []⟩

/-- When the second thread exits, the first one is current and not in the
ready queue. -/
theorem joiner_runs_at_once :
    Reachable .development Action.NotKill twoThreads ∧
    Step .development twoThreads (.join 2 []) firstJoined ∧
    ∃ later, Step .development firstJoined (.exit []) later ∧ later.exited = [⟨2, 1⟩] ∧
      ⟨1, 1⟩ ∉ later.scheduler.readyState.readyQueue ∧
      later.scheduler.readyState.currentThread = some ⟨1, 1⟩ := by
  refine ⟨twoThreads_reachable _ _, firstJoined_step _,
    firstJoined.record ⟨⟨false, some ⟨1, 1⟩, []⟩, [], unjoined [1]⟩ (.exit []),
    ⟨fun _ hEq => (nomatch hEq), _, by decide +kernel, rfl⟩, rfl, by decide, rfl⟩

/-! ### Runs with a clock -/

/-- The times a section reads, one after the other. -/
def readings : Action → List Nat
  | .switchThread _ time => [time]
  | .sleep _ systime times => systime :: times
  | .join _ times => times
  | .exit times => times
  | _ => []

/-- A step, with the clock before and after it. The clock is a `usize` and does
not go back. -/
def TimedStep (profile : BuildProfile) (before : World × Nat) (action : Action)
    (after : World × Nat) : Prop :=
  Step profile before.1 action after.1 ∧
    (before.2 :: readings action ++ [after.2]).Pairwise (· ≤ ·) ∧ after.2 < 2 ^ 64

def TimedContinues (profile : BuildProfile) : World × Nat → World × Nat → Prop :=
  Relation.ReflTransGen fun before after => ∃ action, action.NotKill ∧
    TimedStep profile before action after

theorem TimedStep.clock (h : TimedStep profile before action after) :
    before.2 ≤ after.2 ∧ ∀ time ∈ readings action, time ≤ after.2 := by
  obtain ⟨-, hClock, -⟩ := h
  rw [List.cons_append, List.pairwise_cons, List.pairwise_append] at hClock
  obtain ⟨hFirst, -, -, hLast⟩ := hClock
  exact ⟨hFirst _ (List.mem_append_right _ List.mem_cons_self),
    fun time hTime => hLast time hTime _ List.mem_cons_self⟩

theorem TimedContinues.continues (h : TimedContinues profile before after) :
    Continues profile Action.NotKill before.1 after.1 :=
  Relation.ReflTransGen.lift Prod.fst (fun _ _ ⟨action, hAction, hStep⟩ =>
    ⟨action, hAction, hStep.1⟩) _ _ h

theorem Step.wokenBy {later : World} (h : Step profile world action later) :
    Scheduler.WokenBy (readings action) world.scheduler.sleepList later.scheduler.sleepList := by
  obtain ⟨-, scheduler, hPerform, rfl⟩ := h
  cases action with
  | ready thread =>
    obtain rfl := Except.ok.inj hPerform
    exact .refl _ _
  | setInit =>
    obtain rfl := Except.ok.inj hPerform
    exact .refl _ _
  | switchThread locks time => exact Scheduler.switchThread_wokenBy hPerform
  | sleep ms systime times =>
    rcases Scheduler.sleep_ok hPerform with ⟨-, rfl⟩ | ⟨current, wakeupTime, _, -, -, -, hBlock⟩
    · exact .refl _ _
    · intro entry hEntry
      have hWoken := (Scheduler.block_drains hBlock).1 entry (List.mem_append_left _ hEntry)
      refine hWoken.imp_right ?_
      rintro ⟨time, hTime, hDue⟩
      exact ⟨time, List.mem_cons_of_mem _ hTime, hDue⟩
  | join threadId times =>
    rcases Scheduler.join_ok hPerform with ⟨-, rfl⟩ | ⟨current, joinList, switched, -, -, hBlock⟩
    · exact .refl _ _
    · exact (Scheduler.block_drains hBlock).1
  | exit times => exact Scheduler.exit_wokenBy hPerform
  | kill threadId =>
    obtain ⟨-, -, -, -, -, -, -, hSleep, -⟩ := Scheduler.kill_ok hPerform
    exact hSleep ▸ .refl _ _

/-- A thread is asleep until the clock shows its wake-up time. -/
theorem TimedContinues.asleep {thread : Thread} {wakeupTime : Nat}
    (h : TimedContinues profile before after)
    (hAsleep : before.1.scheduler.At thread (.sleeping wakeupTime) ∨ wakeupTime ≤ before.2) :
    after.1.scheduler.At thread (.sleeping wakeupTime) ∨ wakeupTime ≤ after.2 := by
  induction h with
  | refl => exact hAsleep
  | tail _ hLast ih =>
    obtain ⟨action, -, hStep⟩ := hLast
    obtain ⟨hClock, hReadings⟩ := hStep.clock
    rcases ih with hEntry | hDue
    · refine (hStep.1.wokenBy _ hEntry).imp_right ?_
      rintro ⟨time, hTime, hDue⟩
      exact hDue.trans (hReadings time hTime)
    · exact Or.inr (hDue.trans hClock)

theorem TimedContinues.switchThread {start : World × Nat} {clock : Nat} {locks : SwitchLocks}
    (hRun : TimedContinues profile start (world, clock)) (hClock : clock < 2 ^ 64)
    (h : world.scheduler.switchThread locks clock = .ok later) :
    TimedContinues profile start ({ world with scheduler := later }, clock) := by
  have hStep : Step profile world (.switchThread locks clock) { world with scheduler := later } :=
    ⟨by simp, later, h, rfl⟩
  exact Relation.ReflTransGen.tail hRun ⟨.switchThread locks clock, by simp [Action.NotKill],
    hStep, by simp [readings], hClock⟩

/-- A thread in the ready queue becomes current after as many switches as there
are threads behind it, however little time passes. -/
theorem TimedContinues.run_ready {profile : BuildProfile} {start : World × Nat} {world : World}
    {clock : Nat} {thread current : Thread} {front back : List Thread}
    (hRun : TimedContinues profile start (world, clock)) (hClock : clock < 2 ^ 64)
    (hInit : world.scheduler.readyState.initialized = true)
    (hCurrent : world.scheduler.readyState.currentThread = some current)
    (hQueue : world.scheduler.readyState.readyQueue = front ++ thread :: back) :
    ∃ later, TimedContinues profile start (later, clock) ∧
      later.scheduler.readyState.currentThread = some thread := by
  induction back using List.reverseRecOn generalizing world front current with
  | nil =>
    have hSwitch := Scheduler.switchThread_rotates hInit hCurrent hQueue clock
    exact ⟨_, hRun.switchThread hClock hSwitch, rfl⟩
  | append_singleton back last ih =>
    have hLast : world.scheduler.readyState.readyQueue = front ++ thread :: back ++ [last] := by
      rw [hQueue, List.append_assoc, List.cons_append]
    have hSwitch := Scheduler.switchThread_rotates hInit hCurrent hLast clock
    exact @ih _ last (current :: front) (hRun.switchThread hClock hSwitch) hInit rfl rfl

/-- A thread that is due becomes current without waiting any longer. -/
theorem TimedContinues.run_due {start : World × Nat} {clock wakeupTime : Nat} {thread : Thread}
    (hRun : TimedContinues profile start (world, clock)) (hClock : clock < 2 ^ 64)
    (hInit : world.scheduler.readyState.initialized = true)
    (hCurrent : world.scheduler.readyState.currentThread = some current)
    (hAsleep : world.scheduler.At thread (.sleeping wakeupTime)) (hDue : wakeupTime ≤ clock) :
    ∃ later, TimedContinues profile start (later, clock) ∧
      later.scheduler.readyState.currentThread = some thread := by
  have hDrain := Scheduler.switchThread_drains hInit hCurrent clock
  rw [Scheduler.checkSleepList_eq, ReadyState.wake_eq] at hDrain
  have hReady : thread ∈ ((world.scheduler.sleepList.filter
      (fun entry => entry.2 ≤ clock)).map Prod.fst).reverse ++
      world.scheduler.readyState.readyQueue := by
    have hEntry : (thread, wakeupTime) ∈ world.scheduler.sleepList.filter
        (fun entry => entry.2 ≤ clock) := List.mem_filter.mpr ⟨hAsleep, by simpa using hDue⟩
    exact List.mem_append_left _ (List.mem_reverse.mpr (List.mem_map_of_mem hEntry))
  obtain ⟨front, back, hSplit⟩ := List.append_of_mem hReady
  exact (hRun.switchThread hClock hDrain).run_ready hClock hInit hCurrent hSplit

/-- Where a thread is right after it has called `sleep`. -/
theorem Consistent.sleep_places (h : Consistent world) {sleeper : Thread} {ms systime : Nat}
    {slept : Scheduler} (hInit : world.scheduler.readyState.initialized = true)
    (hSleeper : world.scheduler.readyState.currentThread = some sleeper)
    (hSleep : world.scheduler.sleep profile ms systime times = .ok slept) :
    ∃ wakeupTime, profile.word (systime + ms) = .ok wakeupTime ∧
      slept.readyState.initialized = true ∧
      (slept.At sleeper (.sleeping wakeupTime) ∨ ∃ time ∈ times, wakeupTime ≤ time) ∧
      (slept.At sleeper .current ∨ slept.At sleeper .ready ∨
        slept.At sleeper (.sleeping wakeupTime)) := by
  obtain ⟨hPerm, hMap, next, hNext⟩ := Scheduler.sleep_occurrences h.idsDistinct hSleeper hSleep
  have hMem : sleeper ∈ slept.occurrences :=
    hPerm.mem_iff.mpr (Scheduler.mem_occurrences_of_current hSleeper)
  have hNotParked : sleeper ∉ world.scheduler.parked := fun hParked =>
    h.not_current_of_parked hParked hSleeper
  rcases Scheduler.sleep_ok hSleep with ⟨hNot, -⟩ | ⟨caller, wakeupTime, switched, -, hCaller,
    hWord, hBlock⟩
  · cases hInit.symm.trans hNot
  obtain rfl : sleeper = caller := Option.some.inj (hSleeper.symm.trans hCaller)
  obtain ⟨hWoken, hSubset, hStill⟩ := Scheduler.block_drains hBlock
  refine ⟨wakeupTime, hWord, hStill.trans hInit,
    hWoken (sleeper, wakeupTime) (List.mem_append_right _ List.mem_cons_self), ?_⟩
  rw [Scheduler.occurrences_of_current hNext] at hMem
  rcases List.mem_cons.mp hMem with rfl | hParked
  · exact Or.inl hNext
  rcases Scheduler.mem_parked.mp hParked with hReady | ⟨time, hTime⟩ | ⟨threadId, hWaits⟩
  · exact Or.inr (Or.inl hReady)
  · rcases List.mem_append.mp (hSubset hTime) with hOld | hNew
    · exact absurd (Scheduler.mem_parked.mpr (Or.inr (Or.inl ⟨time, hOld⟩))) hNotParked
    · obtain rfl := (Prod.mk.inj (List.mem_singleton.mp hNew)).2
      exact Or.inr (Or.inr hTime)
  · have hBefore : world.scheduler.At sleeper (.waiting threadId) := by
      obtain ⟨joinList, hList, hIn⟩ := hWaits
      exact ⟨joinList, hMap ▸ hList, hIn⟩
    exact absurd (Scheduler.mem_parked.mpr (Or.inr (Or.inr ⟨threadId, hBefore⟩))) hNotParked

/-- A thread that calls `sleep` is not current again before the clock shows the
sum of the time of the call and the duration, if and only if this sum is a
`usize`. Otherwise it wraps around, and the thread is due at once. -/
theorem sleep_not_early_iff {profile : BuildProfile} {world slept : World} {sleeper : Thread}
    {clock after ms systime : Nat} {times : List Nat}
    (hWorld : Reachable profile Action.NotKill world)
    (hInit : world.scheduler.readyState.initialized = true)
    (hSleeper : world.scheduler.readyState.currentThread = some sleeper) (hMs : ms < 2 ^ 64)
    (hStep : TimedStep profile (world, clock) (.sleep ms systime times) (slept, after)) :
    (∀ later, TimedContinues profile (slept, after) later →
      later.1.scheduler.readyState.currentThread = some sleeper → systime + ms ≤ later.2) ↔
    systime + ms < 2 ^ 64 := by
  have hConsistent := hWorld.consistent
  have hSlept := hWorld.step (by simp [Action.NotKill]) hStep.1
  obtain ⟨-, hReadings⟩ := hStep.clock
  obtain ⟨⟨-, scheduler, hSleep, hRecord⟩, -, hClock⟩ := hStep
  obtain rfl : scheduler = slept.scheduler := congrArg World.scheduler hRecord.symm
  obtain ⟨wakeupTime, hWord, hStill, hAsleep, hPlace⟩ :=
    hConsistent.sleep_places hInit hSleeper hSleep
  constructor
  · intro hNever
    by_contra hOverflow
    have hDue : wakeupTime ≤ after := by
      cases profile with
      | development => cases (BuildProfile.word_development_of_not_lt hOverflow).symm.trans hWord
      | production =>
        obtain rfl := Except.ok.inj ((BuildProfile.word_production _).symm.trans hWord)
        have hSystime := hReadings systime List.mem_cons_self
        simp only at hSystime hClock
        omega
    obtain ⟨current, hCurrent⟩ := hSlept.consistent.running
    obtain ⟨later, hRun, hThread⟩ : ∃ later,
        TimedContinues profile (slept, after) (later, after) ∧
          later.scheduler.readyState.currentThread = some sleeper := by
      rcases hPlace with hAgain | hReady | hSleeping
      · exact ⟨_, Relation.ReflTransGen.refl, hAgain⟩
      · obtain ⟨front, back, hSplit⟩ := List.append_of_mem hReady
        exact TimedContinues.run_ready Relation.ReflTransGen.refl hClock hStill hCurrent hSplit
      · exact TimedContinues.run_due Relation.ReflTransGen.refl hClock hStill hCurrent hSleeping
          hDue
    exact hOverflow ((hNever _ hRun hThread).trans_lt hClock)
  · intro hLt later hRun hThread
    obtain rfl := Except.ok.inj ((BuildProfile.word_of_lt profile hLt).symm.trans hWord)
    have hFirst : slept.scheduler.At sleeper (.sleeping (systime + ms)) ∨ systime + ms ≤ after := by
      refine hAsleep.imp_right ?_
      rintro ⟨time, hTime, hDue⟩
      exact hDue.trans (hReadings time (List.mem_cons_of_mem _ hTime))
    refine (hRun.asleep hFirst).resolve_left fun hSleeping => ?_
    have hLater := (hSlept.continues hRun.continues).consistent
    refine hLater.not_current_of_parked ?_ hThread
    exact Scheduler.mem_parked.mpr (Or.inr (Or.inl ⟨_, hSleeping⟩))

/-- The two threads with the scheduler initialized. -/
def twoInitialized : World := { twoThreads with scheduler := twoThreads.scheduler.setInit }

theorem twoInitialized_reachable (profile : BuildProfile) :
    Reachable profile Action.NotKill twoInitialized := by
  have hStep : Step profile twoThreads .setInit twoInitialized :=
    ⟨fun _ hEq => (nomatch hEq), _, rfl, rfl⟩
  exact (twoThreads_reachable profile _).step (by simp [Action.NotKill]) hStep

/-- The first thread sleeps and the second one runs. -/
def firstAsleep (wakeupTime : Nat) : World :=
  { twoThreads with
    scheduler := ⟨⟨true, some ⟨2, 1⟩, []⟩, [(⟨1, 1⟩, wakeupTime)], unjoined [1, 2]⟩ }

theorem sleep_five_not_early :
    TimedStep .development (twoInitialized, 10) (.sleep 5 10 []) (firstAsleep 15, 10) ∧
    ∀ later, TimedContinues .development (firstAsleep 15, 10) later →
      later.1.scheduler.readyState.currentThread = some ⟨1, 1⟩ → 15 ≤ later.2 := by
  have hStep : TimedStep .development (twoInitialized, 10) (.sleep 5 10 []) (firstAsleep 15, 10) :=
    ⟨⟨fun _ hEq => (nomatch hEq), _, by decide +kernel, rfl⟩, by decide, by decide⟩
  exact ⟨hStep, (sleep_not_early_iff (twoInitialized_reachable _) rfl rfl (by decide) hStep).mpr
    (by decide)⟩

/-- The longest duration, in the production profile: the thread runs again one
millisecond later. -/
theorem sleep_longest_returns :
    Reachable .production Action.NotKill twoInitialized ∧
    TimedStep .production (twoInitialized, 10) (.sleep (2 ^ 64 - 1) 10 []) (firstAsleep 9, 10) ∧
    ∃ later, TimedContinues .production (firstAsleep 9, 10) (later, 11) ∧
      later.scheduler.readyState.currentThread = some ⟨1, 1⟩ ∧ 11 < 10 + (2 ^ 64 - 1) := by
  refine ⟨twoInitialized_reachable _,
    ⟨⟨fun _ hEq => (nomatch hEq), _, by decide +kernel, rfl⟩, by decide, by decide⟩,
    { twoThreads with scheduler := ⟨⟨true, some ⟨1, 1⟩, [⟨2, 1⟩]⟩, [], unjoined [1, 2]⟩ },
    Relation.ReflTransGen.single ⟨.switchThread ⟨true, true, false, false⟩ 11,
      by simp [Action.NotKill], ⟨fun _ hEq => (nomatch hEq), _, by decide +kernel, rfl⟩,
      by decide, by decide⟩, rfl, by decide⟩

end World

end D3OS.Process
