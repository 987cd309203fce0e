import D3OS.Process.Scheduler
import Mathlib.Data.List.Count
import Mathlib.Data.List.Nodup
import Mathlib.Data.List.Perm.Basic

/-! Where threads are. Each operation of the scheduler is specified by the
threads it adds to or takes from the current slot, the ready queue, the sleep
list and the join lists taken together. Which threads there are, and that each
is in one place only, then follows for runs of any length. -/
namespace D3OS.Process

open Outcome

namespace Scheduler

/-- The threads in the join lists. -/
def waiting (self : Scheduler) : List Thread := self.joinMap.entries.flatMap Prod.snd

/-- The threads that are in one of the lists. -/
def parked (self : Scheduler) : List Thread :=
  self.readyState.readyQueue ++ self.sleepList.map Prod.fst ++ self.waiting

/-- The current thread and the threads in the lists. -/
def occurrences (self : Scheduler) : List Thread :=
  self.readyState.currentThread.toList ++ self.parked

end Scheduler

theorem popBack_eq_some {queue rest : List Thread} {last : Thread} :
    popBack queue = some (last, rest) ↔ queue = rest ++ [last] := by
  unfold popBack
  constructor
  · intro h
    obtain ⟨thread, hLast, hPair⟩ := Option.map_eq_some_iff.mp h
    obtain ⟨before, rfl⟩ := List.getLast?_eq_some_iff.mp hLast
    simp only [List.dropLast_concat, Prod.mk.injEq] at hPair
    rw [hPair.1, hPair.2]
  · rintro rfl
    simp

variable {state : ReadyState}

namespace ReadyState

theorem wake_eq (state : ReadyState) (waiters : List Thread) :
    state.wake waiters = { state with readyQueue := waiters.reverse ++ state.readyQueue } := by
  unfold wake
  induction waiters generalizing state with
  | nil => rfl
  | cons waiter rest ih => simp [ih, pushFront]

@[simp] theorem wake_currentThread (state : ReadyState) (waiters : List Thread) :
    (state.wake waiters).currentThread = state.currentThread := by
  rw [wake_eq]

@[simp] theorem wake_readyQueue (state : ReadyState) (waiters : List Thread) :
    (state.wake waiters).readyQueue = waiters.reverse ++ state.readyQueue := by
  rw [wake_eq]

theorem current_ok {thread : Thread} :
    state.current = .ok thread ↔ state.currentThread = some thread := by
  unfold current
  cases state.currentThread <;> simp

end ReadyState

namespace Scheduler

/-- The threads whose time has come are woken in the order of the sleep list. -/
theorem checkSleepList_eq (time : Nat) (state : ReadyState) (sleepList : SleepList) :
    checkSleepList time state sleepList =
      (state.wake ((sleepList.filter (fun entry => entry.2 ≤ time)).map Prod.fst),
        sleepList.filter (fun entry => !decide (entry.2 ≤ time))) := by
  induction sleepList generalizing state with
  | nil => rfl
  | cons entry rest ih =>
    obtain ⟨thread, wakeupTime⟩ := entry
    unfold checkSleepList
    by_cases hDue : wakeupTime ≤ time
    · rw [if_pos hDue, ih]
      simp [hDue, ReadyState.wake]
    · rw [if_neg hDue, ih]
      simp [hDue]

/-- The sleep list is only drained into the ready queue. -/
theorem checkSleepList_perm (time : Nat) (state : ReadyState) (sleepList : SleepList) :
    (checkSleepList time state sleepList).1.currentThread = state.currentThread ∧
    ((checkSleepList time state sleepList).1.readyQueue ++
        (checkSleepList time state sleepList).2.map Prod.fst).Perm
      (state.readyQueue ++ sleepList.map Prod.fst) := by
  have hSplit := (List.filter_append_perm (fun entry => decide (entry.2 ≤ time)) sleepList).map
    Prod.fst
  rw [checkSleepList_eq, ReadyState.wake_currentThread, ReadyState.wake_readyQueue]
  refine ⟨rfl, List.perm_iff_count.mpr fun thread => ?_⟩
  have hCount := hSplit.count_eq thread
  simp only [List.map_append, List.count_append, List.count_reverse] at hCount ⊢
  omega

theorem perm_of_popBack {queue : List Thread} {next : Thread} (sleepList : SleepList)
    (h : popBack state.readyQueue = some (next, queue)) :
    (next :: (queue ++ sleepList.map Prod.fst)).Perm
      (state.readyQueue ++ sleepList.map Prod.fst) := by
  rw [popBack_eq_some.mp h, List.append_assoc]
  exact List.perm_middle.symm

variable {times : List Nat} {later self : Scheduler} {current : Thread}
  {map : SortedMap Nat (List Thread)} {threadId : Nat} {joinList : List Thread}

theorem nextThread_ok {later : ReadyState} {sleepList rest : SleepList} {next : Thread}
    (h : nextThread times state sleepList = .ok (next, later, rest)) :
    later.currentThread = state.currentThread ∧
    (next :: (later.readyQueue ++ rest.map Prod.fst)).Perm
      (state.readyQueue ++ sleepList.map Prod.fst) := by
  induction times generalizing state sleepList with
  | nil =>
    unfold nextThread at h
    split at h
    · rename_i thread queue hPop
      simp only [Except.ok.injEq, Prod.mk.injEq] at h
      obtain ⟨rfl, rfl, rfl⟩ := h
      exact ⟨rfl, perm_of_popBack _ hPop⟩
    · cases h
  | cons time times ih =>
    unfold nextThread at h
    split at h
    · rename_i thread queue hPop
      simp only [Except.ok.injEq, Prod.mk.injEq] at h
      obtain ⟨rfl, rfl, rfl⟩ := h
      exact ⟨rfl, perm_of_popBack _ hPop⟩
    · obtain ⟨hCurrent, hPerm⟩ := checkSleepList_perm time state sleepList
      obtain ⟨hLater, hNext⟩ := ih h
      exact ⟨hLater.trans hCurrent, hNext.trans hPerm⟩

/-- `block` takes one thread from the lists. It becomes current unless it
has the id of the calling thread. -/
theorem block_ok {switched : Bool} (h : self.block times = .ok (later, switched)) :
    ∃ current next, self.readyState.currentThread = some current ∧
      (next :: later.parked).Perm self.parked ∧ later.joinMap = self.joinMap ∧
      ((switched = true ∧ current.id ≠ next.id ∧ later.readyState.currentThread = some next) ∨
        (switched = false ∧ current.id = next.id ∧ later.readyState.currentThread = some current)) := by
  obtain ⟨⟨next, state, sleepList⟩, hNext, h⟩ := bind_ok h
  obtain ⟨current, hCurrent, h⟩ := bind_ok h
  obtain ⟨hSame, hPerm⟩ := nextThread_ok hNext
  have hParked := hPerm.append_right self.waiting
  rw [ReadyState.current_ok] at hCurrent
  refine ⟨current, next, hSame ▸ hCurrent, ?_⟩
  split at h
  · rename_i hId
    simp only [pure_ok_iff, Prod.mk.injEq] at h
    obtain ⟨rfl, rfl⟩ := h
    exact ⟨hParked, rfl, Or.inr ⟨rfl, hId, hCurrent⟩⟩
  · rename_i hId
    simp only [pure_ok_iff, Prod.mk.injEq] at h
    obtain ⟨rfl, rfl⟩ := h
    exact ⟨hParked, rfl, Or.inl ⟨rfl, hId, rfl⟩⟩

theorem nextThread_error {sleepList : SleepList} {halt : Halt}
    (h : nextThread times state sleepList = .error halt) : halt = .spinning := by
  induction times generalizing state sleepList with
  | nil =>
    unfold nextThread at h
    split at h
    · cases h
    · exact (Except.error.inj h).symm
  | cons time times ih =>
    unfold nextThread at h
    split at h
    · cases h
    · exact ih h

/-- With a current thread, `block` can fail to return only by spinning. -/
theorem block_error {halt : Halt} (hCurrent : self.readyState.currentThread = some current)
    (h : self.block times = .error halt) : halt = .spinning := by
  unfold block at h
  cases hNext : nextThread times self.readyState self.sleepList with
  | error reason =>
    rw [hNext, bind_of_error] at h
    exact Except.error.inj h ▸ nextThread_error hNext
  | ok outcome =>
    obtain ⟨next, state, sleepList⟩ := outcome
    have hState := (nextThread_ok hNext).1.trans hCurrent
    rw [hNext, bind_of_ok] at h
    dsimp only at h
    rw [ReadyState.current_ok.mpr hState, bind_of_ok] at h
    split at h <;> cases h

/-- Removing a join list takes exactly its threads from the waiting ones. -/
theorem waiting_erase (h : map.get? threadId = some joinList) :
    (joinList ++ (map.erase threadId).entries.flatMap Prod.snd).Perm (map.entries.flatMap Prod.snd) :=
  ((SortedMap.perm_erase h).flatMap_right Prod.snd).symm

/-- A join list that replaces another one, or an absent one. -/
theorem waiting_insert (map : SortedMap Nat (List Thread)) (threadId : Nat) (joinList : List Thread) :
    ((map.insert threadId joinList).entries.flatMap Prod.snd).Perm
      (joinList ++ (map.erase threadId).entries.flatMap Prod.snd) :=
  (map.insert_perm threadId joinList).flatMap_right Prod.snd

theorem waiting_insert_nil (h : threadId ∉ map.keys) :
    ((map.insert threadId []).entries.flatMap Prod.snd).Perm (map.entries.flatMap Prod.snd) := by
  have hInsert := waiting_insert map threadId []
  rwa [SortedMap.erase_of_not_mem h] at hInsert

theorem waiting_insert_snoc (h : map.get? threadId = some joinList) (thread : Thread) :
    ((map.insert threadId (joinList ++ [thread])).entries.flatMap Prod.snd).Perm
      (thread :: map.entries.flatMap Prod.snd) := by
  refine (waiting_insert map threadId _).trans ?_
  rw [List.append_assoc]
  exact List.perm_middle.trans ((waiting_erase h).cons thread)

theorem keys_insert_of_get? (h : map.get? threadId = some joinList) (other : Nat)
    (value : List Thread) : other ∈ (map.insert threadId value).keys ↔ other ∈ map.keys := by
  rw [SortedMap.mem_keys_insert]
  constructor
  · rintro (rfl | hOther)
    · exact SortedMap.mem_keys.mpr ⟨_, h⟩
    · exact hOther
  · exact Or.inr

/-- Threads are told apart by their ids. -/
def IdsDistinct (self : Scheduler) : Prop :=
  ∀ a ∈ self.occurrences, ∀ b ∈ self.occurrences, a.id = b.id → a = b

theorem occurrences_of_current (h : self.readyState.currentThread = some current) :
    self.occurrences = current :: self.parked := by
  simp [occurrences, h]

theorem mem_occurrences_of_current (h : self.readyState.currentThread = some current) :
    current ∈ self.occurrences := by
  simp [occurrences, h]

/-- A call of `block` by a thread that has put itself into one of the lists,
in a state that was `before`, moves threads around but loses none. -/
theorem block_occurrences {before : Scheduler} {switched : Bool}
    (h : self.block times = .ok (later, switched))
    (hCurrent : self.readyState.currentThread = some current)
    (hBefore : before.readyState.currentThread = some current) (hIds : IdsDistinct before)
    (hParked : self.parked.Perm before.occurrences) :
    later.occurrences.Perm before.occurrences ∧ later.joinMap = self.joinMap ∧
      ∃ next, later.readyState.currentThread = some next := by
  obtain ⟨caller, next, hCaller, hPerm, hMap, hOutcome⟩ := block_ok h
  obtain rfl : current = caller := Option.some.inj (hCurrent.symm.trans hCaller)
  replace hPerm := hPerm.trans hParked
  rcases hOutcome with ⟨-, -, hNext⟩ | ⟨-, hId, hNext⟩
  · exact ⟨occurrences_of_current hNext ▸ hPerm, hMap, next, hNext⟩
  · have hEq : next = current := hIds next (hPerm.mem_iff.mp List.mem_cons_self) current
      (mem_occurrences_of_current hBefore) hId.symm
    exact ⟨occurrences_of_current hNext ▸ hEq ▸ hPerm, hMap, current, hNext⟩

@[simp] theorem ready_joinMap (self : Scheduler) (thread : Thread) :
    (self.ready thread).joinMap = self.joinMap.insert thread.id [] := rfl

theorem ready_occurrences {thread : Thread} (h : thread.id ∉ self.joinMap.keys) :
    (self.ready thread).occurrences.Perm (thread :: self.occurrences) := by
  have hWaiting := waiting_insert_nil h
  simp only [occurrences, parked, ready, ReadyState.pushFront, waiting, List.cons_append]
  refine List.perm_middle.trans (List.Perm.cons _ ?_)
  exact (hWaiting.append_left _).append_left _

/-- Once initialized, `sleep` enters the caller into the sleep list and blocks. -/
theorem sleep_ok {profile : BuildProfile} {ms systime : Nat}
    (h : self.sleep profile ms systime times = .ok later) :
    (self.readyState.initialized = false ∧ later = self) ∨
    ∃ current wakeupTime switched, self.readyState.initialized = true ∧
      self.readyState.currentThread = some current ∧
      profile.word (systime + ms) = .ok wakeupTime ∧
      block { self with sleepList := self.sleepList ++ [(current, wakeupTime)] } times =
        .ok (later, switched) := by
  unfold sleep at h
  split at h
  · rename_i hInit
    obtain ⟨current, hCurrent, h⟩ := bind_ok h
    obtain ⟨wakeupTime, hTime, h⟩ := bind_ok h
    obtain ⟨⟨after, switched⟩, hBlock, h⟩ := bind_ok h
    obtain rfl := pure_ok h
    refine Or.inr ⟨current, wakeupTime, switched, hInit, ReadyState.current_ok.mp hCurrent, ?_,
      hBlock⟩
    cases hWord : profile.word (systime + ms) with
    | error panic =>
      rw [hWord] at hTime
      cases hTime
    | ok value =>
      rw [hWord] at hTime
      exact congrArg Except.ok (Except.ok.inj hTime)
  · rename_i hInit
    obtain rfl := pure_ok h
    exact Or.inl ⟨by simpa using hInit, rfl⟩

theorem sleep_occurrences {profile : BuildProfile} {ms systime : Nat} (hIds : IdsDistinct self)
    (hCurrent : self.readyState.currentThread = some current)
    (h : self.sleep profile ms systime times = .ok later) :
    later.occurrences.Perm self.occurrences ∧ later.joinMap = self.joinMap ∧
      ∃ next, later.readyState.currentThread = some next := by
  rcases sleep_ok h with ⟨-, rfl⟩ | ⟨thread, wakeupTime, switched, -, hThread, -, hBlock⟩
  · exact ⟨List.Perm.refl _, rfl, current, hCurrent⟩
  · obtain rfl : current = thread := Option.some.inj (hCurrent.symm.trans hThread)
    have hParked : (parked { self with sleepList := self.sleepList ++ [(current, wakeupTime)] }).Perm
        self.occurrences := by
      rw [occurrences_of_current hCurrent]
      simp only [parked, waiting, List.map_append, List.map_cons, List.map_nil, List.append_assoc,
        List.singleton_append]
      rw [← List.append_assoc, ← List.append_assoc]
      exact List.perm_middle
    obtain ⟨hPerm, hMap, hNext⟩ := block_occurrences hBlock hCurrent hCurrent hIds hParked
    exact ⟨hPerm, hMap, hNext⟩

/-- `join` enters the caller into the join list, if there is one, and blocks. -/
theorem join_ok (h : self.join threadId times = .ok later) :
    (self.joinMap.get? threadId = none ∧ later = self) ∨
    ∃ current joinList switched, self.readyState.currentThread = some current ∧
      self.joinMap.get? threadId = some joinList ∧
      block { self with joinMap := self.joinMap.insert threadId (joinList ++ [current]) } times =
        .ok (later, switched) := by
  obtain ⟨current, hCurrent, h⟩ := bind_ok h
  split at h
  · rename_i hNone
    obtain rfl := pure_ok h
    exact Or.inl ⟨hNone, rfl⟩
  · rename_i joinList hList
    obtain ⟨⟨after, switched⟩, hBlock, h⟩ := bind_ok h
    obtain rfl := pure_ok h
    exact Or.inr ⟨current, joinList, switched, ReadyState.current_ok.mp hCurrent, hList, hBlock⟩

theorem join_occurrences (hIds : IdsDistinct self)
    (hCurrent : self.readyState.currentThread = some current)
    (h : self.join threadId times = .ok later) :
    later.occurrences.Perm self.occurrences ∧
      (∀ id, id ∈ later.joinMap.keys ↔ id ∈ self.joinMap.keys) ∧
      ∃ next, later.readyState.currentThread = some next := by
  rcases join_ok h with ⟨-, rfl⟩ | ⟨thread, joinList, switched, hThread, hList, hBlock⟩
  · exact ⟨List.Perm.refl _, fun _ => Iff.rfl, current, hCurrent⟩
  · obtain rfl : current = thread := Option.some.inj (hCurrent.symm.trans hThread)
    have hParked : (parked
        { self with joinMap := self.joinMap.insert threadId (joinList ++ [current]) }).Perm
        self.occurrences := by
      rw [occurrences_of_current hCurrent]
      exact ((waiting_insert_snoc hList current).append_left _).trans List.perm_middle
    obtain ⟨hPerm, hMap, hNext⟩ := block_occurrences hBlock hCurrent hCurrent hIds hParked
    refine ⟨hPerm, fun id => ?_, hNext⟩
    rw [hMap]
    exact keys_insert_of_get? hList id _

/-- `switch_thread` drains the sleep list, if it can, and then puts the current
thread behind the others, if it may. -/
theorem switchThread_ok {locks : SwitchLocks} {time : Nat}
    (h : self.switchThread locks time = .ok later) :
    later = self ∨ ∃ state sleepList,
      (checkSleepList time self.readyState self.sleepList = (state, sleepList) ∨
        (self.readyState, self.sleepList) = (state, sleepList)) ∧
      (later = { self with readyState := state, sleepList } ∨
        ∃ current next queue, state.currentThread = some current ∧
          popBack state.readyQueue = some (next, queue) ∧
          later = { self with
            readyState := { state with currentThread := some next, readyQueue := current :: queue }
            sleepList }) := by
  unfold switchThread at h
  split at h
  · exact Or.inl (pure_ok h).symm
  · obtain ⟨state, sleepList, hDrained⟩ : ∃ state sleepList,
        (if locks.sleepListFree then checkSleepList time self.readyState self.sleepList
          else (self.readyState, self.sleepList)) = (state, sleepList) := ⟨_, _, rfl⟩
    rw [hDrained] at h
    refine Or.inr ⟨state, sleepList, ?_, ?_⟩
    · split at hDrained
      · exact Or.inl hDrained
      · exact Or.inr hDrained
    · obtain ⟨current, hCurrent, h⟩ := bind_ok h
      split at h
      · exact Or.inl (pure_ok h).symm
      · split at h
        · exact Or.inl (pure_ok h).symm
        · rename_i next queue hPop
          exact Or.inr ⟨current, next, queue, ReadyState.current_ok.mp hCurrent, hPop,
            (pure_ok h).symm⟩

theorem switchThread_occurrences {locks : SwitchLocks} {time : Nat}
    (hCurrent : self.readyState.currentThread = some current)
    (h : self.switchThread locks time = .ok later) :
    later.occurrences.Perm self.occurrences ∧ later.joinMap = self.joinMap ∧
      ∃ next, later.readyState.currentThread = some next := by
  rcases switchThread_ok h with rfl | ⟨state, sleepList, hDrained, hLater⟩
  · exact ⟨List.Perm.refl _, rfl, current, hCurrent⟩
  have hPerm : state.currentThread = some current ∧
      (state.readyQueue ++ sleepList.map Prod.fst).Perm
        (self.readyState.readyQueue ++ self.sleepList.map Prod.fst) := by
    rcases hDrained with hDrained | hSame
    · obtain ⟨hSame, hPerm⟩ := checkSleepList_perm time self.readyState self.sleepList
      rw [hDrained] at hSame hPerm
      exact ⟨hSame.trans hCurrent, hPerm⟩
    · obtain ⟨rfl, rfl⟩ := Prod.mk.inj hSame
      exact ⟨hCurrent, List.Perm.refl _⟩
  obtain ⟨hState, hPerm⟩ := hPerm
  replace hPerm := hPerm.append_right self.waiting
  rw [occurrences_of_current hCurrent]
  rcases hLater with rfl | ⟨thread, next, queue, hThread, hPop, rfl⟩
  · refine ⟨?_, rfl, current, hState⟩
    rw [occurrences_of_current hState]
    exact hPerm.cons current
  · obtain rfl : current = thread := Option.some.inj (hState.symm.trans hThread)
    have hNext := ((perm_of_popBack sleepList hPop).append_right self.waiting).trans hPerm
    exact ⟨(List.Perm.swap current next _).trans (hNext.cons current), rfl, next, rfl⟩

/-- Waking the threads of a join list and removing the list moves them from
the waiting threads into the ready queue. -/
theorem wake_parked (h : self.joinMap.get? threadId = some joinList) :
    (parked { self with
      readyState := self.readyState.wake joinList
      joinMap := self.joinMap.erase threadId }).Perm self.parked := by
  rw [List.perm_iff_count]
  intro thread
  have hCount := (waiting_erase h).count_eq thread
  simp only [parked, waiting, ReadyState.wake_readyQueue, List.count_append,
    List.count_reverse] at hCount ⊢
  omega

/-- `exit` moves the waiters of the caller to the ready queue, drops its join
list and switches to another thread. -/
theorem exit_ok (h : self.exit times = .ok later) :
    ∃ current joinList, self.readyState.currentThread = some current ∧
      self.joinMap.get? current.id = some joinList ∧
      block { self with
        readyState := self.readyState.wake joinList
        joinMap := self.joinMap.erase current.id } times = .ok (later, true) := by
  obtain ⟨current, hCurrent, h⟩ := bind_ok h
  split at h
  · cases h
  · rename_i joinList hList
    obtain ⟨⟨after, switched⟩, hBlock, h⟩ := bind_ok h
    cases switched with
    | false => cases h
    | true =>
      obtain rfl : after = later := pure_ok h
      exact ⟨current, joinList, ReadyState.current_ok.mp hCurrent, hList, hBlock⟩

/-- The exiting thread is the only one that leaves the lists. -/
theorem exit_occurrences (hCurrent : self.readyState.currentThread = some current)
    (h : self.exit times = .ok later) :
    current.id ∈ self.joinMap.keys ∧ (current :: later.occurrences).Perm self.occurrences ∧
      later.joinMap = self.joinMap.erase current.id ∧
      ∃ next, later.readyState.currentThread = some next := by
  obtain ⟨thread, joinList, hThread, hList, hBlock⟩ := exit_ok h
  obtain rfl : current = thread := Option.some.inj (hCurrent.symm.trans hThread)
  obtain ⟨caller, next, hCaller, hPerm, hMap, hOutcome⟩ := block_ok hBlock
  rcases hOutcome with ⟨-, -, hNext⟩ | ⟨hNot, -, -⟩
  · refine ⟨SortedMap.mem_keys.mpr ⟨_, hList⟩, ?_, hMap, next, hNext⟩
    rw [occurrences_of_current hNext, occurrences_of_current hCurrent]
    exact (hPerm.trans (wake_parked hList)).cons current
  · cases hNot

theorem kill_ok (h : self.kill threadId = .ok later) :
    ∃ current joinList, self.readyState.currentThread = some current ∧ current.id ≠ threadId ∧
      self.joinMap.get? threadId = some joinList ∧
      later.readyState.currentThread = some current ∧
      later.readyState.readyQueue = (joinList.reverse ++ self.readyState.readyQueue).filter
        (fun thread => thread.id ≠ threadId) ∧
      later.sleepList = self.sleepList ∧ later.joinMap = self.joinMap.erase threadId := by
  obtain ⟨current, hCurrent, h⟩ := bind_ok h
  rw [ReadyState.current_ok] at hCurrent
  obtain ⟨hOther, h⟩ := ite_error_ok h
  split at h
  · cases h
  · rename_i joinList hList
    obtain rfl := pure_ok h
    refine ⟨current, joinList, hCurrent, hOther, hList, ?_, ?_, rfl, rfl⟩
    · simpa using hCurrent
    · simp

/-- Only threads with the killed id leave the lists, and only those that are
in the ready queue once the waiters have been woken. -/
theorem kill_occurrences (h : self.kill threadId = .ok later) :
    ∃ gone, (∀ thread ∈ gone, thread.id = threadId) ∧
      (gone ++ later.occurrences).Perm self.occurrences := by
  obtain ⟨current, joinList, hCurrent, -, hList, hLater, hQueue, hSleep, hMap⟩ := kill_ok h
  refine ⟨(joinList.reverse ++ self.readyState.readyQueue).filter
    (fun thread => thread.id = threadId), fun thread hMem => ?_, ?_⟩
  · simpa using (List.mem_filter.mp hMem).2
  have hWoken := wake_parked hList
  rw [List.perm_iff_count] at hWoken ⊢
  intro thread
  have hCount := hWoken thread
  have hSplit := (List.filter_append_perm (fun thread => decide (thread.id = threadId))
    (joinList.reverse ++ self.readyState.readyQueue)).count_eq thread
  simp only [parked, waiting, occurrences, ReadyState.wake_readyQueue, List.count_append,
    decide_not, ne_eq, hCurrent, hLater, hQueue, hSleep, hMap] at hCount hSplit ⊢
  omega

end Scheduler

end D3OS.Process
