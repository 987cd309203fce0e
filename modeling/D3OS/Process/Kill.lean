import D3OS.Process.Runs

/-! What `kill` does to its victim. It takes the victim from the ready queue
and drops its join list. A victim that sleeps, or that waits in a join list,
stays where it is and is scheduled again later. -/
namespace D3OS.Process

/-- The places of the scheduler. -/
inductive Location where
  | current
  | ready
  | sleeping (wakeupTime : Nat)
  | waiting (threadId : Nat)
  deriving DecidableEq, Repr

variable {thread : Thread} {later : Scheduler}

namespace Scheduler

def At (self : Scheduler) (thread : Thread) : Location → Prop
  | .current => self.readyState.currentThread = some thread
  | .ready => thread ∈ self.readyState.readyQueue
  | .sleeping wakeupTime => (thread, wakeupTime) ∈ self.sleepList
  | .waiting threadId => ∃ joinList, self.joinMap.get? threadId = some joinList ∧ thread ∈ joinList

variable {self : Scheduler}

theorem mem_waiting : thread ∈ self.waiting ↔ ∃ threadId, self.At thread (.waiting threadId) := by
  simp only [waiting, List.mem_flatMap, At, SortedMap.get?_eq_some, Prod.exists]

theorem mem_parked :
    thread ∈ self.parked ↔ self.At thread .ready ∨ (∃ time, self.At thread (.sleeping time)) ∨
      ∃ threadId, self.At thread (.waiting threadId) := by
  simp [parked, At, mem_waiting]

/-- Threads other than the victim and its waiters stay where they are. -/
theorem kill_at {threadId : Nat} (h : self.kill threadId = .ok later) {other : Thread}
    (hOther : other.id ≠ threadId) (hNot : ¬self.At other (.waiting threadId)) (location : Location) :
    later.At other location ↔ self.At other location := by
  obtain ⟨current, joinList, hCurrent, -, hList, hLater, hQueue, hSleep, hMap⟩ := kill_ok h
  cases location with
  | current => simp only [At, hCurrent, hLater]
  | ready =>
    have hAbsent : other ∉ joinList := fun hMem => hNot ⟨joinList, hList, hMem⟩
    simp [At, hQueue, hAbsent, hOther]
  | sleeping wakeupTime => simp only [At, hSleep]
  | waiting id =>
    by_cases hId : id = threadId
    · subst hId
      simp only [hNot, iff_false]
      rintro ⟨list, hGet, -⟩
      rw [hMap, SortedMap.get?_erase_self] at hGet
      cases hGet
    · simp only [At, hMap, SortedMap.get?_erase_of_ne hId]

end Scheduler

namespace World

variable {profile : BuildProfile} {world : World} {victim : Thread}

theorem Step.readied_mono {later : World} {action : Action} (h : Step profile world action later) :
    world.readied ⊆ later.readied := by
  obtain ⟨-, scheduler, -, rfl⟩ := h
  cases action with
  | ready thread => exact List.subset_cons_self _ _
  | _ => exact List.Subset.refl _

theorem Step.readied_subset {later : World} {action : Action} (h : Step profile world action later)
    {id : Nat} (hUsed : id ∈ world.readied.map Thread.id) :
    id ∈ later.readied.map Thread.id :=
  List.map_subset _ h.readied_mono hUsed

/-- A thread that is in no place stays so, since its id is not used again. -/
theorem Continues.absent {Allowed : Action → Prop} {later : World} {threadId : Nat}
    (h : Continues profile Allowed world later) (hConsistent : Consistent world)
    (hUsed : threadId ∈ world.readied.map Thread.id)
    (hAbsent : ∀ thread ∈ world.scheduler.occurrences, thread.id ≠ threadId) :
    ∀ thread ∈ later.scheduler.occurrences, thread.id ≠ threadId := by
  suffices hAll : Consistent later ∧ threadId ∈ later.readied.map Thread.id ∧
      ∀ thread ∈ later.scheduler.occurrences, thread.id ≠ threadId from hAll.2.2
  induction h with
  | refl => exact ⟨hConsistent, hUsed, hAbsent⟩
  | @tail middle later _ hLast ih =>
    obtain ⟨action, -, hStep⟩ := hLast
    obtain ⟨hMiddle, hMiddleUsed, hMiddleAbsent⟩ := ih
    refine ⟨hMiddle.step hStep, hStep.readied_subset hMiddleUsed, ?_⟩
    intro thread hMem hId
    rcases hMiddle.occurs_before hStep hMem with hNew | hOld
    · exact hStep.1 thread hNew (hId ▸ hMiddleUsed)
    · exact hMiddleAbsent thread hOld hId

/-- Killing the thread with this id ends it: it is in none of the lists, never
becomes current again, every thread that waited for it is in the ready queue
exactly once, and all other threads are where they were. -/
def KillEnds (profile : BuildProfile) (world : World) (threadId : Nat) : Prop :=
  ∃ later, world.scheduler.kill threadId = .ok later ∧
    (∀ thread ∈ later.parked, thread.id ≠ threadId) ∧
    (∀ final, Continues profile (fun _ => True) (world.record later (.kill threadId)) final →
      ∀ current, final.scheduler.readyState.currentThread = some current → current.id ≠ threadId) ∧
    (∀ waiter, world.scheduler.At waiter (.waiting threadId) →
      later.readyState.readyQueue.count waiter = 1) ∧
    ∀ other, other.id ≠ threadId → ¬world.scheduler.At other (.waiting threadId) →
      ∀ location, later.At other location ↔ world.scheduler.At other location

namespace Consistent

variable {world : World}

theorem kill_succeeds (h : Consistent world) {current : Thread} (hVictim : world.Live victim)
    (hCurrent : world.scheduler.readyState.currentThread = some current)
    (hOther : current.id ≠ victim.id) : ∃ later, world.scheduler.kill victim.id = .ok later := by
  obtain ⟨joinList, hList⟩ := SortedMap.mem_keys.mp ((h.joinable _).mpr ⟨victim, hVictim, rfl⟩)
  unfold Scheduler.kill
  rw [ReadyState.current_ok.mpr hCurrent, Outcome.bind_of_ok, if_neg hOther, hList]
  exact ⟨_, rfl⟩

/-- A thread in the ready queue is in no other place. -/
theorem not_elsewhere (h : Consistent world)
    (hReady : thread ∈ world.scheduler.readyState.readyQueue) :
    world.scheduler.readyState.currentThread ≠ some thread ∧
      thread ∉ world.scheduler.sleepList.map Prod.fst ∧ thread ∉ world.scheduler.waiting := by
  have hOnce := h.once
  rw [Scheduler.occurrences, Scheduler.parked, List.append_assoc] at hOnce
  obtain ⟨-, hParked, hCurrent⟩ := List.nodup_append.mp hOnce
  obtain ⟨-, -, hRest⟩ := List.nodup_append.mp hParked
  refine ⟨fun hSome => ?_, fun hMem => ?_, fun hMem => ?_⟩
  · exact hCurrent thread (by simp [hSome]) thread (List.mem_append_left _ hReady) rfl
  · exact hRest thread hReady thread (List.mem_append_left _ hMem) rfl
  · exact hRest thread hReady thread (List.mem_append_right _ hMem) rfl

/-- After killing a thread of the ready queue, its id is in no place. -/
theorem kill_absent (h : Consistent world) (hReady : victim ∈ world.scheduler.readyState.readyQueue)
    (hKill : world.scheduler.kill victim.id = .ok later) :
    ∀ thread ∈ later.occurrences, thread.id ≠ victim.id := by
  obtain ⟨current, joinList, hCurrent, hOther, hList, hLater, hQueue, hSleep, hMap⟩ :=
    Scheduler.kill_ok hKill
  obtain ⟨gone, -, hPerm⟩ := Scheduler.kill_occurrences hKill
  have hVictim : victim ∈ world.scheduler.occurrences := by
    simp [Scheduler.occurrences, Scheduler.parked, hReady]
  obtain ⟨-, hNotSleeping, hNotWaiting⟩ := h.not_elsewhere hReady
  intro thread hMem hId
  obtain rfl : thread = victim := h.idsDistinct thread
    (hPerm.mem_iff.mp (List.mem_append_right _ hMem)) victim hVictim hId
  rw [Scheduler.occurrences_of_current hLater] at hMem
  rcases List.mem_cons.mp hMem with rfl | hMem
  · exact hOther rfl
  rw [Scheduler.parked, hQueue, hSleep, List.mem_append, List.mem_append] at hMem
  rcases hMem with (hMem | hMem) | hMem
  · simpa using (List.mem_filter.mp hMem).2
  · exact hNotSleeping hMem
  · refine hNotWaiting ((Scheduler.waiting_erase hList).mem_iff.mp (List.mem_append_right _ ?_))
    rwa [← hMap]

end Consistent

/-- A kill of a thread in the ready queue ends it. -/
theorem Consistent.killEnds_of_ready (h : Consistent world)
    (hReady : victim ∈ world.scheduler.readyState.readyQueue)
    (hKill : world.scheduler.kill victim.id = .ok later) :
    KillEnds profile world victim.id := by
  obtain ⟨-, -, hNotWaiting⟩ := h.not_elsewhere hReady
  have hAbsent := h.kill_absent hReady hKill
  have hVictim : victim ∈ world.scheduler.occurrences := by
    simp [Scheduler.occurrences, Scheduler.parked, hReady]
  have hLater : Consistent (world.record later (.kill victim.id)) := h.kill hKill
  refine ⟨later, hKill, ?_, ?_, ?_, fun other => Scheduler.kill_at hKill⟩
  · exact fun thread hMem => hAbsent thread (List.mem_append_right _ hMem)
  · intro final hFinal current hCurrent
    refine hFinal.absent hLater ?_ hAbsent current ?_
    · exact List.mem_map_of_mem (h.known victim hVictim).1
    · exact Scheduler.mem_occurrences_of_current hCurrent
  · intro waiter hWaiter
    obtain ⟨-, joinList, -, -, hList, -, hQueue, -, -⟩ := Scheduler.kill_ok hKill
    have hMem : waiter ∈ joinList := by
      obtain ⟨list, hGet, hMem⟩ := hWaiter
      rwa [Option.some.inj (hList.symm.trans hGet)]
    have hWaiting : waiter ∈ world.scheduler.waiting := Scheduler.mem_waiting.mpr ⟨_, hWaiter⟩
    have hNe : waiter.id ≠ victim.id := by
      intro hId
      have hOccurs : waiter ∈ world.scheduler.occurrences := by
        simp [Scheduler.occurrences, Scheduler.parked, hWaiting]
      exact hNotWaiting (h.idsDistinct waiter hOccurs victim hVictim hId ▸ hWaiting)
    refine List.count_eq_one_of_mem ?_ ?_
    · have hOnce := hLater.once
      change later.occurrences.Nodup at hOnce
      rw [Scheduler.occurrences, Scheduler.parked, List.append_assoc] at hOnce
      exact hOnce.of_append_right.of_append_left
    · simp [hQueue, hMem, hNe]

/-- A kill of a thread that sleeps or waits does not end it. -/
theorem Consistent.ready_of_killEnds {current : Thread} (h : Consistent world)
    (hVictim : world.Live victim)
    (hCurrent : world.scheduler.readyState.currentThread = some current)
    (hOther : current.id ≠ victim.id) (hEnds : KillEnds profile world victim.id) :
    victim ∈ world.scheduler.readyState.readyQueue := by
  obtain ⟨later, hKill, hGone, -, hWaiters, -⟩ := hEnds
  obtain ⟨-, joinList, -, -, hList, -, hQueue, hSleep, hMap⟩ := Scheduler.kill_ok hKill
  have hPlaced := h.placed victim hVictim
  rw [Scheduler.occurrences_of_current hCurrent, List.mem_cons, Scheduler.mem_parked] at hPlaced
  rcases hPlaced with rfl | hReady | ⟨time, hSleeping⟩ | ⟨threadId, hWaiting⟩
  · exact absurd rfl hOther
  · exact hReady
  · refine absurd rfl (hGone victim (Scheduler.mem_parked.mpr (Or.inr (Or.inl ⟨time, ?_⟩))))
    simpa only [Scheduler.At, hSleep] using hSleeping
  · by_cases hSelf : threadId = victim.id
    · subst hSelf
      have hNone : later.readyState.readyQueue.count victim = 0 := by
        rw [List.count_eq_zero, hQueue]
        simp
      exact absurd (hWaiters victim hWaiting) (by omega)
    · refine absurd rfl (hGone victim (Scheduler.mem_parked.mpr (Or.inr (Or.inr ⟨threadId, ?_⟩))))
      simpa only [Scheduler.At, hMap, SortedMap.get?_erase_of_ne hSelf] using hWaiting

/-- In every reachable state, killing a live thread other than the current one
ends it exactly when it is in the ready queue. -/
theorem killEnds_iff_ready {profile : BuildProfile} {world : World} {victim current : Thread}
    (h : Reachable profile (fun _ => True) world) (hVictim : world.Live victim)
    (hCurrent : world.scheduler.readyState.currentThread = some current)
    (hOther : current.id ≠ victim.id) :
    KillEnds profile world victim.id ↔ victim ∈ world.scheduler.readyState.readyQueue := by
  have hConsistent := h.consistent
  obtain ⟨later, hKill⟩ := hConsistent.kill_succeeds hVictim hCurrent hOther
  exact ⟨hConsistent.ready_of_killEnds hVictim hCurrent hOther,
    fun hReady => hConsistent.killEnds_of_ready hReady hKill⟩

/-- The second thread is killed while it is ready. -/
theorem killEnds_of_ready_thread : KillEnds .development twoThreads 2 := by
  have hReachable := twoThreads_reachable .development (fun _ => True)
  have hLive : twoThreads.Live ⟨2, 1⟩ := by decide
  have hCurrent : twoThreads.scheduler.readyState.currentThread = some ⟨1, 1⟩ := rfl
  exact (killEnds_iff_ready hReachable hLive hCurrent (by decide)).mpr (by decide)

/-- The second of the two threads sleeps until time 15. -/
def secondSleeps : World :=
  { twoThreads with
    scheduler := ⟨⟨true, some ⟨1, 1⟩, []⟩, [(⟨2, 1⟩, 15)], unjoined [1, 2]⟩ }

/-- The scheduler after the second thread was killed in its sleep. -/
def secondKilled : Scheduler := ⟨⟨true, some ⟨1, 1⟩, []⟩, [(⟨2, 1⟩, 15)], unjoined [1]⟩

theorem secondSleeps_reachable : Reachable .development (fun _ => True) secondSleeps := by
  have hRun : twoThreads.run .development
      [.setInit, .switchThread ⟨true, true, false, false⟩ 0, .sleep 5 10 []] = .ok secondSleeps := by
    decide +kernel
  exact (twoThreads_reachable .development _).continues (.of_run (by simp) hRun)

/-- A sleeping thread is killed. It stays in the sleep list, and is scheduled
again when the first thread sleeps past its time. -/
theorem killed_sleeper_resumes :
    Reachable .development (fun _ => True) secondSleeps ∧ secondSleeps.Live ⟨2, 1⟩ ∧
    secondSleeps.scheduler.readyState.currentThread = some ⟨1, 1⟩ ∧
    ¬KillEnds .development secondSleeps 2 ∧
    secondSleeps.scheduler.kill 2 = .ok secondKilled ∧ ⟨2, 1⟩ ∈ secondKilled.parked ∧
    ∃ final, Continues .development (fun _ => True) (secondSleeps.record secondKilled (.kill 2)) final ∧
      final.scheduler.readyState.currentThread = some ⟨2, 1⟩ := by
  have hKill : secondSleeps.scheduler.kill 2 = .ok secondKilled := by decide +kernel
  have hRun : (secondSleeps.record secondKilled (.kill 2)).run .development [.sleep 20 12 [16]] =
      .ok ⟨⟨⟨true, some ⟨2, 1⟩, []⟩, [(⟨1, 1⟩, 32)], unjoined [1]⟩,
        [⟨1, 1⟩, ⟨2, 1⟩], [], [2]⟩ := by
    decide +kernel
  refine ⟨secondSleeps_reachable, by decide, rfl, ?_, hKill, by decide +kernel, _,
    .of_run (by simp) hRun, rfl⟩
  rintro ⟨later, hLater, hGone, -⟩
  obtain rfl := Except.ok.inj (hKill.symm.trans hLater)
  exact hGone ⟨2, 1⟩ (by decide +kernel) rfl

end World

end D3OS.Process
