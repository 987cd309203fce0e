import D3OS.Process.Kill
import D3OS.Process.ProcessManager

/-! When `ProcessManager::exit` ends its process. The threads to kill are
enumerated from the ready queue and the sleep list, looked up again in the
ready queue only, and killed one by one. A sibling that waits, sleeps or exits
at the wrong moment is missed or makes the call panic. -/
namespace D3OS.Process

open Outcome

/-- `swap_remove` takes out exactly the element at the index. -/
theorem swapRemove_perm {list : List Nat} {index value : Nat} (h : list[index]? = some value) :
    (value :: swapRemove list index).Perm list := by
  rcases List.eq_nil_or_concat list with rfl | ⟨init, last, rfl⟩
  · simp at h
  · rw [List.concat_eq_append] at h ⊢
    simp only [swapRemove, List.getLast?_append, List.getLast?_singleton, Option.some_or]
    by_cases hIndex : index < init.length
    · grind
    · grind

namespace System

/-- What keeps one section of `ProcessManager::exit` from missing a thread. No
thread of the process waits when the ids are enumerated, a thread that is
looked up is in the ready queue unless it is gone, and a thread that is killed
is still in the ready queue. -/
def OrderlyStage (self : System) (process : Nat) : ExitStage → Prop
  | .enumerate => ∀ thread ∈ self.world.scheduler.waiting, thread.process ≠ process
  | .lookUp (threadId :: _) _ => ∀ thread ∈ self.world.scheduler.occurrences,
      thread.id = threadId → thread.process = process →
        thread ∈ self.world.scheduler.readyState.readyQueue
  | .killAll (threadId :: _) =>
    ∃ thread ∈ self.world.scheduler.readyState.readyQueue, thread.id = threadId
  | _ => True

/-- The state before an event in an orderly run. After the enumeration, no
thread of the exiting process is made ready. -/
def Orderly (self : System) : Event → Prop
  | .advanceExit => ∀ call ∈ self.writer, self.OrderlyStage call.process call.stage
  | .scheduler (.ready thread) => ∀ call ∈ self.writer, call.stage ≠ .enumerate →
      thread.process ≠ call.process
  | _ => True

instance (self : System) (process : Nat) : (stage : ExitStage) →
    Decidable (self.OrderlyStage process stage)
  | .enumerate => inferInstanceAs (Decidable (∀ thread ∈ self.world.scheduler.waiting, _))
  | .lookUp (_ :: _) _ => inferInstanceAs (Decidable (∀ thread ∈ self.world.scheduler.occurrences, _))
  | .killAll (_ :: _) =>
    inferInstanceAs (Decidable (∃ thread ∈ self.world.scheduler.readyState.readyQueue, _))
  | .lookUp [] _ | .killAll [] => inferInstanceAs (Decidable True)

instance (self : System) : (event : Event) → Decidable (self.Orderly event)
  | .advanceExit => inferInstanceAs (Decidable (∀ call ∈ self.writer, _))
  | .scheduler (.ready thread) => inferInstanceAs (Decidable (∀ call ∈ self.writer,
      call.stage ≠ .enumerate → thread.process ≠ call.process))
  | .scheduler .setInit | .scheduler (.switchThread _ _) | .scheduler (.sleep _ _ _)
  | .scheduler (.join _ _) | .scheduler (.exit _) | .scheduler (.kill _) | .createProcess _
  | .beginExit | .dropExited | .cloneThread _ | .dropThread _ | .cloneProcess _ | .dropProcess _ =>
    inferInstanceAs (Decidable True)

/-- The ids belong to threads of the process. -/
def OfProcess (self : System) (process : Nat) (ids : List Nat) : Prop :=
  ∀ id ∈ ids, ∃ thread ∈ self.world.readied, thread.id = id ∧ thread.process = process

/-- Every other thread of the process is among these ids. -/
def Covers (self : System) (call : ExitCall) (ids : List Nat) : Prop :=
  call.caller.id ∉ ids ∧ ∀ thread ∈ self.world.scheduler.occurrences,
    thread.process = call.process → thread ≠ call.caller → thread.id ∈ ids

/-- What a call knows about the threads of its process. -/
def StageSound (self : System) (call : ExitCall) : Prop :=
  match call.stage with
  | .enumerate => True
  | .lookUp rest kept => self.Covers call (rest ++ kept) ∧ self.OfProcess call.process kept
  | .killAll rest => self.Covers call rest ∧ self.OfProcess call.process rest

/-- The invariant of orderly runs. A thread of an active process that is in
some place has not been killed. -/
structure Sound (system : System) : Prop where
  consistent : system.world.Consistent
  processes : system.manager.activeProcesses.Nodup
  unkilled : ∀ thread ∈ system.world.scheduler.occurrences,
    thread.process ∈ system.manager.activeProcesses → thread.id ∉ system.world.killed
  caller : ∀ call, system.writer = some call → call.caller ∈ system.world.scheduler.occurrences
  owner : ∀ call, system.writer = some call →
    system.manager.activeProcesses[call.index]? = some call.process
  stage : ∀ call, system.writer = some call → system.StageSound call

variable {self later : System} {call : ExitCall} {profile : BuildProfile}

theorem OfProcess.mono {process : Nat} {ids : List Nat} (h : self.OfProcess process ids)
    (hReadied : ∀ thread ∈ self.world.readied, thread ∈ later.world.readied) :
    later.OfProcess process ids := by
  intro id hId
  obtain ⟨thread, hThread, hRest⟩ := h id hId
  exact ⟨thread, hReadied thread hThread, hRest⟩

theorem Covers.mono {ids : List Nat} (h : self.Covers call ids)
    (hOccurs : ∀ thread ∈ later.world.scheduler.occurrences,
      thread.process = call.process → thread ∈ self.world.scheduler.occurrences) :
    later.Covers call ids :=
  ⟨h.1, fun thread hMem hProcess => h.2 thread (hOccurs thread hMem hProcess) hProcess⟩

/-- After the enumeration, what a call knows stays true as long as no thread
of its process comes in. -/
theorem StageSound.mono (h : self.StageSound call)
    (hReadied : ∀ thread ∈ self.world.readied, thread ∈ later.world.readied)
    (hOccurs : call.stage ≠ .enumerate → ∀ thread ∈ later.world.scheduler.occurrences,
      thread.process = call.process → thread ∈ self.world.scheduler.occurrences) :
    later.StageSound call := by
  unfold StageSound at h ⊢
  split
  · trivial
  · rename_i rest kept hStage
    rw [hStage] at h hOccurs
    exact ⟨h.1.mono (hOccurs (by simp)), h.2.mono hReadied⟩
  · rename_i rest hStage
    rw [hStage] at h hOccurs
    exact ⟨h.1.mono (hOccurs (by simp)), h.2.mono hReadied⟩

section

variable (h : Sound self)

include h

theorem Sound.scheduler {action : Action} (hOrderly : self.Orderly (.scheduler action))
    (hStep : Step profile self (.scheduler action) later) : Sound later := by
  obtain ⟨current, hCurrent, hMay, hWorld, -, hLater⟩ := hStep.scheduler_ok
  have hReadied : ∀ thread ∈ self.world.readied, thread ∈ later.world.readied := by
    obtain ⟨-, scheduler, -, hRecord⟩ := hWorld
    rw [hRecord]
    cases action with
    | ready new => exact fun thread hMem => List.mem_cons_of_mem _ hMem
    | _ => exact fun thread hMem => hMem
  have hKilled : later.world.killed = self.world.killed := by
    obtain ⟨-, scheduler, -, hRecord⟩ := hWorld
    rw [hRecord]
    cases action with
    | kill threadId => exact hMay.elim
    | _ => rfl
  have hManager : later.manager = self.manager := by rw [hLater]
  have hWriter : later.writer = self.writer := by rw [hLater]
  refine ⟨h.consistent.step hWorld, hManager ▸ h.processes, ?_, ?_, ?_, ?_⟩
  · intro thread hMem hActive
    rw [hKilled]
    rcases h.consistent.occurs_before hWorld hMem with hNew | hOld
    · exact fun hId => hWorld.1 thread hNew (h.consistent.killedKnown _ hId)
    · exact h.unkilled thread hOld (hManager ▸ hActive)
  · intro call hCall
    rw [hWriter] at hCall
    exact (h.consistent.occurs_after hWorld (h.caller call hCall)).resolve_left
      (not_leaves_of_inCall hCurrent hMay ⟨call, hCall, rfl⟩)
  · exact fun call hCall => hManager ▸ h.owner call (hWriter ▸ hCall)
  · intro call hCall
    rw [hWriter] at hCall
    refine (h.stage call hCall).mono hReadied fun hStage thread hMem hProcess => ?_
    rcases h.consistent.occurs_before hWorld hMem with hNew | hOld
    · subst hNew
      exact absurd hProcess (hOrderly call hCall hStage)
    · exact hOld

/-- Events that change neither the threads nor the active processes. -/
theorem Sound.of_same (hWorld : later.world = self.world)
    (hActive : later.manager.activeProcesses = self.manager.activeProcesses)
    (hWriter : ∀ call, later.writer = some call →
      call.caller ∈ self.world.scheduler.occurrences ∧
      self.manager.activeProcesses[call.index]? = some call.process ∧ self.StageSound call) :
    Sound later := by
  refine ⟨hWorld ▸ h.consistent, hActive ▸ h.processes, ?_, ?_, ?_, ?_⟩
  · rw [hWorld, hActive]
    exact h.unkilled
  · exact fun call hCall => hWorld ▸ (hWriter call hCall).1
  · exact fun call hCall => hActive ▸ (hWriter call hCall).2.1
  · intro call hCall
    refine (hWriter call hCall).2.2.mono ?_ fun _ => ?_
    · exact fun thread hMem => hWorld ▸ hMem
    · exact fun thread hMem _ => hWorld ▸ hMem

theorem Sound.writer (hCall : self.writer = some call) :
    call.caller ∈ self.world.scheduler.occurrences ∧
      self.manager.activeProcesses[call.index]? = some call.process ∧ self.StageSound call :=
  ⟨h.caller call hCall, h.owner call hCall, h.stage call hCall⟩

theorem Sound.createProcess {process : Nat} (hEnabled : self.Enabled (.createProcess process)) :
    Sound { self with
      manager := self.manager.createProcess process
      pending := process :: self.pending } := by
  obtain ⟨hLock, hActive, -, hUnused⟩ := hEnabled
  refine ⟨h.consistent, ?_, ?_, ?_, ?_, ?_⟩
  · exact List.nodup_append.mpr ⟨h.processes, by simp, by
      intro a ha b hb hEq
      exact hActive (List.mem_singleton.mp hb ▸ hEq ▸ ha)⟩
  · intro thread hMem hProcess
    rcases List.mem_append.mp hProcess with hOld | hNew
    · exact h.unkilled thread hMem hOld
    · have hUsed : thread.process ∈ self.world.readied.map Thread.process :=
        List.mem_map_of_mem (h.consistent.known thread hMem).1
      exact absurd (List.mem_singleton.mp hNew ▸ hUsed) hUnused
  · exact fun call hCall => by simp [hLock] at hCall
  · exact fun call hCall => by simp [hLock] at hCall
  · exact fun call hCall => by simp [hLock] at hCall

/-- The enumeration finds every other thread of the process, if none waits. -/
theorem Sound.covers_activeThreadIds (hCurrent : self.current = some call.caller)
    (hWaiting : ∀ thread ∈ self.world.scheduler.waiting, thread.process ≠ call.process) :
    self.Covers call self.world.scheduler.activeThreadIds := by
  have hOnce := h.consistent.once
  have hOccurs := Scheduler.occurrences_of_current hCurrent
  have hMemIds : ∀ id, id ∈ self.world.scheduler.activeThreadIds →
      ∃ thread ∈ self.world.scheduler.parked, thread.id = id := by
    intro id hId
    simp only [Scheduler.activeThreadIds, List.mem_append, List.mem_map] at hId
    rcases hId with ⟨thread, hThread, rfl⟩ | ⟨entry, hEntry, rfl⟩
    · exact ⟨thread, by simp [Scheduler.parked, hThread], rfl⟩
    · refine ⟨entry.1, ?_, rfl⟩
      simp only [Scheduler.parked, List.mem_append]
      exact Or.inl (Or.inr (List.mem_map_of_mem hEntry))
  rw [hOccurs, List.nodup_cons] at hOnce
  refine ⟨fun hId => ?_, fun thread hMem hProcess hOther => ?_⟩
  · obtain ⟨thread, hThread, hEq⟩ := hMemIds _ hId
    have hSame : thread = call.caller := h.consistent.idsDistinct thread (by simp [hOccurs, hThread])
      call.caller (by simp [hOccurs]) hEq
    exact hOnce.1 (hSame ▸ hThread)
  · rw [hOccurs, List.mem_cons, Scheduler.parked, List.mem_append, List.mem_append] at hMem
    rcases hMem with hCaller | (hReady | hSleeps) | hWaits
    · exact absurd hCaller hOther
    · exact List.mem_append_left _ (List.mem_map_of_mem hReady)
    · refine List.mem_append_right _ ?_
      rw [List.mem_map] at hSleeps ⊢
      obtain ⟨entry, hEntry, rfl⟩ := hSleeps
      exact ⟨entry, hEntry, rfl⟩
    · exact absurd hProcess (hWaiting thread hWaits)

/-- A thread of the process that is in the ready queue passes the lookup. -/
theorem Sound.lookUp_finds {thread : Thread}
    (hReady : thread ∈ self.world.scheduler.readyState.readyQueue) :
    self.world.scheduler.thread thread.id = some thread := by
  unfold Scheduler.thread
  cases hFind : self.world.scheduler.readyState.readyQueue.find? (fun other => other.id = thread.id) with
  | none => exact absurd (List.find?_eq_none.mp hFind thread hReady) (by simp)
  | some found =>
    have hFound := List.mem_of_find?_eq_some hFind
    have hId : found.id = thread.id := by simpa using List.find?_some hFind
    have hOccurs : ∀ other ∈ self.world.scheduler.readyState.readyQueue,
        other ∈ self.world.scheduler.occurrences := by
      intro other hOther
      simp [Scheduler.occurrences, Scheduler.parked, hOther]
    rw [h.consistent.idsDistinct found (hOccurs found hFound) thread (hOccurs thread hReady) hId]

/-- One lookup keeps every thread of the process among the ids. -/
theorem Sound.lookUp {threadId : Nat} {rest kept : List Nat}
    (hCovers : self.Covers call (threadId :: rest ++ kept))
    (hKept : self.OfProcess call.process kept)
    (hOrderly : ∀ thread ∈ self.world.scheduler.occurrences, thread.id = threadId →
      thread.process = call.process → thread ∈ self.world.scheduler.readyState.readyQueue)
    {isMember : Bool} (hMember : isMember = (self.world.scheduler.thread threadId).any
      (fun thread => thread.process = call.process)) :
    self.Covers call (rest ++ if isMember then kept ++ [threadId] else kept) ∧
      self.OfProcess call.process (if isMember then kept ++ [threadId] else kept) := by
  obtain ⟨hCaller, hAll⟩ := hCovers
  cases isMember with
  | true =>
    obtain ⟨found, hFound, hProcess⟩ := (Option.any_eq_true _ _).mp hMember.symm
    have hReady := List.mem_of_find?_eq_some hFound
    have hId : found.id = threadId := by simpa using List.find?_some hFound
    refine ⟨⟨?_, fun thread hMem hThread hOther => ?_⟩, fun id hId' => ?_⟩
    · simp only [↓reduceIte, List.mem_append, List.mem_cons, List.not_mem_nil, not_or] at hCaller ⊢
      tauto
    · grind
    · rcases List.mem_append.mp hId' with hOld | hNew
      · exact hKept id hOld
      · refine ⟨found, (h.consistent.known found ?_).1, ?_, by simpa using hProcess⟩
        · simp [Scheduler.occurrences, Scheduler.parked, hReady]
        · rw [hId, List.mem_singleton.mp hNew]
  | false =>
    refine ⟨⟨?_, fun thread hMem hThread hOther => ?_⟩, hKept⟩
    · simp only [Bool.false_eq_true, ↓reduceIte, List.mem_append, List.mem_cons, not_or] at hCaller ⊢
      tauto
    · have hIds := hAll thread hMem hThread hOther
      simp only [Bool.false_eq_true, ↓reduceIte, List.cons_append, List.mem_cons] at hIds ⊢
      refine hIds.resolve_left fun hId => ?_
      subst hId
      rw [h.lookUp_finds (hOrderly thread hMem rfl hThread)] at hMember
      simp [hThread] at hMember

/-- A kill of a thread in the ready queue succeeds, and removes its id. -/
theorem Sound.kill {threadId : Nat} {rest : List Nat} (hCall : self.writer = some call)
    (hCurrent : self.current = some call.caller) (hCovers : self.Covers call (threadId :: rest))
    (hOf : self.OfProcess call.process (threadId :: rest))
    (hReady : ∃ thread ∈ self.world.scheduler.readyState.readyQueue, thread.id = threadId) :
    ∃ scheduler, self.world.scheduler.kill threadId = .ok scheduler ∧
      Sound { self with
        world := self.world.record scheduler (.kill threadId)
        writer := some { call with stage := .killAll rest } } := by
  obtain ⟨victim, hVictim, rfl⟩ := hReady
  have hOther : call.caller.id ≠ victim.id := fun hEq => hCovers.1 (hEq ▸ List.mem_cons_self)
  have hOccurs : victim ∈ self.world.scheduler.occurrences := by
    simp [Scheduler.occurrences, Scheduler.parked, hVictim]
  have hKnown := h.consistent.known victim hOccurs
  have hProcess : victim.process = call.process := by
    obtain ⟨thread, hThread, hId, hProcess⟩ := hOf victim.id List.mem_cons_self
    exact h.consistent.eq_of_id_eq hThread hKnown.1 hId ▸ hProcess
  have hActive : victim.process ∈ self.manager.activeProcesses :=
    hProcess ▸ List.mem_of_getElem? (h.owner call hCall)
  have hLive : self.world.Live victim := ⟨hKnown.1, hKnown.2, h.unkilled victim hOccurs hActive⟩
  obtain ⟨scheduler, hKill⟩ := h.consistent.kill_succeeds hLive hCurrent hOther
  have hStep : World.Step .development self.world (.kill victim.id)
      (self.world.record scheduler (.kill victim.id)) :=
    ⟨by simp, scheduler, hKill, rfl⟩
  have hAbsent := h.consistent.kill_absent hVictim hKill
  have hBefore : ∀ thread ∈ scheduler.occurrences, thread ∈ self.world.scheduler.occurrences := by
    intro thread hMem
    rcases h.consistent.occurs_before hStep hMem with hNew | hOld
    · cases hNew
    · exact hOld
  refine ⟨scheduler, hKill, h.consistent.kill hKill, h.processes, ?_, ?_, ?_, ?_⟩
  · intro thread hMem hProcess hKilled
    rcases List.mem_cons.mp hKilled with hId | hOld
    · exact hAbsent thread hMem hId
    · exact h.unkilled thread (hBefore thread hMem) hProcess hOld
  · rintro _ ⟨rfl⟩
    exact (h.consistent.occurs_after hStep (h.caller call hCall)).resolve_left hOther
  · rintro _ ⟨rfl⟩
    exact h.owner call hCall
  · rintro _ ⟨rfl⟩
    refine ⟨⟨fun hMem => hCovers.1 (List.mem_cons_of_mem _ hMem), ?_⟩, ?_⟩
    · intro thread hMem hThread hNe
      rcases List.mem_cons.mp (hCovers.2 thread (hBefore thread hMem) hThread hNe) with hId | hRest
      · exact absurd hId (hAbsent thread hMem)
      · exact hRest
    · exact fun id hId => hOf id (List.mem_cons_of_mem _ hId)

theorem Sound.retire (hCall : self.writer = some call) :
    Sound { self with
      manager := self.manager.retire call.index call.process
      writer := none
      leaving := call.caller :: self.leaving } := by
  have hPerm := swapRemove_perm (h.owner call hCall)
  refine ⟨h.consistent, (List.nodup_cons.mp (hPerm.nodup_iff.mpr h.processes)).2, ?_, ?_, ?_, ?_⟩
  · intro thread hMem hActive
    exact h.unkilled thread hMem (hPerm.mem_iff.mp (List.mem_cons_of_mem _ hActive))
  all_goals
    intro other hOther
    cases hOther

/-- In an orderly state, every section of `ProcessManager::exit` comes to its
end, and the last one leaves no other thread of the process behind. -/
theorem Sound.advance (hCall : self.writer = some call) (hCurrent : self.current = some call.caller)
    (hOrderly : self.Orderly .advanceExit) :
    ∃ later, self.advance call = .ok later ∧ Sound later ∧
      (later.writer = none → ∀ thread ∈ later.world.scheduler.parked,
        thread.process = call.process → thread = call.caller) := by
  obtain ⟨hCaller, hOwner, hStage⟩ := h.writer hCall
  replace hOrderly := hOrderly call hCall
  have hResume : ∀ stage, self.StageSound { call with stage } →
      Sound { self with writer := some { call with stage } } := by
    intro stage hNew
    refine h.of_same rfl rfl ?_
    rintro _ ⟨rfl⟩
    exact ⟨hCaller, hOwner, hNew⟩
  unfold System.advance
  unfold StageSound at hStage
  split <;> rename_i hNow <;> rw [hNow] at hStage hOrderly
  · refine ⟨_, rfl, hResume _ ?_, fun hNone => by cases hNone⟩
    refine ⟨?_, fun id hId => by cases hId⟩
    rw [List.append_nil]
    exact h.covers_activeThreadIds hCurrent hOrderly
  · exact ⟨_, rfl, hResume _ hStage, fun hNone => by cases hNone⟩
  · refine ⟨_, rfl, hResume _ ?_, fun hNone => by cases hNone⟩
    exact h.lookUp hStage.1 hStage.2 hOrderly rfl
  · refine ⟨_, rfl, h.retire hCall, fun _ thread hMem hProcess => ?_⟩
    by_contra hOther
    have hIds := hStage.1.2 thread (List.mem_append_right _ hMem) hProcess hOther
    cases hIds
  · rename_i threadId rest
    obtain ⟨scheduler, hKill, hSound⟩ := h.kill hCall hCurrent hStage.1 hStage.2 hOrderly
    have hNotCaller : threadId ≠ call.caller.id := fun hEq => hStage.1.1 (hEq ▸ List.mem_cons_self)
    refine ⟨_, ?_, hSound, fun hNone => by cases hNone⟩
    rw [ReadyState.current_ok.mpr hCurrent, bind_of_ok, if_neg hNotCaller, hKill,
      bind_of_ok]
    rfl

theorem Sound.beginExit (hBegin : self.perform profile .beginExit = .ok later) : Sound later := by
  obtain ⟨caller, hCaller, hBegin⟩ := bind_ok hBegin
  obtain ⟨index, hIndex, hBegin⟩ := bind_ok hBegin
  obtain rfl := pure_ok hBegin
  refine h.of_same rfl rfl ?_
  rintro _ ⟨rfl⟩
  exact ⟨Scheduler.mem_occurrences_of_current (ReadyState.current_ok.mp hCaller),
    ProcessManager.position_ok hIndex, trivial⟩

end

/-- Every event of an orderly run keeps the invariant. -/
theorem Sound.step {profile : BuildProfile} {self later : System} {event : Event} (h : Sound self)
    (hOrderly : self.Orderly event) (hStep : Step profile self event later) : Sound later := by
  cases event with
  | scheduler action => exact h.scheduler hOrderly hStep
  | createProcess process =>
    obtain ⟨hEnabled, hPerform⟩ := hStep
    obtain rfl := Except.ok.inj hPerform
    exact h.createProcess hEnabled
  | beginExit => exact h.beginExit hStep.2
  | advanceExit =>
    obtain ⟨⟨call, hCall, hCurrent⟩, hPerform⟩ := hStep
    rw [Option.mem_def] at hCall
    obtain ⟨after, hAdvance, hSound, -⟩ := h.advance hCall hCurrent hOrderly
    simp only [perform, hCall] at hPerform
    exact Except.ok.inj (hAdvance.symm.trans hPerform) ▸ hSound
  | dropExited | cloneThread | dropThread | cloneProcess | dropProcess =>
    obtain ⟨-, hPerform⟩ := hStep
    obtain rfl := Except.ok.inj hPerform
    exact h.of_same rfl rfl fun call hCall => h.writer hCall

theorem Reachable.sound (h : Reachable profile Orderly self) : Sound self := by
  induction h with
  | start distinct processes owned started =>
    refine ⟨World.start_consistent distinct started, processes, ?_, ?_, ?_, ?_⟩
    · simp
    all_goals
      intro call hCall
      cases hCall
  | step _ orderly last ih => exact ih.step orderly last

/-- In every orderly run, no section of `ProcessManager::exit` panics, and when
the call returns no other thread of the process is in any list. -/
theorem exit_ends_process {profile : BuildProfile} {self : System} {call : ExitCall}
    (h : Reachable profile Orderly self) (hCall : self.writer = some call)
    (hCurrent : self.current = some call.caller) (hOrderly : self.Orderly .advanceExit) :
    ∃ later, self.perform profile .advanceExit = .ok later ∧
      (later.writer = none → ∀ thread ∈ later.world.scheduler.parked,
        thread.process = call.process → thread = call.caller) := by
  obtain ⟨later, hAdvance, -, hEnds⟩ := h.sound.advance hCall hCurrent hOrderly
  refine ⟨later, ?_, hEnds⟩
  simp only [perform, hCall, hAdvance]

/-- Two threads of process 2 and the cleanup thread of the kernel, just after
`start`. -/
def twoSiblings : System where
  world :=
    { scheduler := ⟨⟨false, some ⟨2, 2⟩, [⟨1, 1⟩, ⟨3, 2⟩]⟩, [], unjoined [1, 2, 3]⟩
      readied := [⟨2, 2⟩, ⟨3, 2⟩, ⟨1, 1⟩]
      exited := []
      killed := [] }
  manager := ⟨[1, 2], []⟩
  writer := none
  leaving := []
  pending := []
  threadHandles := []
  processHandles := []
  cleanup := 1

theorem twoSiblings_reachable (profile : BuildProfile) (Orderly : System → Event → Prop) :
    Reachable profile Orderly twoSiblings :=
  .start (by decide) (by decide) (by decide) (by decide +kernel)

def preempt : Event := .scheduler (.switchThread ⟨true, true, false, false⟩ 0)

/-- Both threads are ready when the first one exits the process. -/
def siblingKilled : System :=
  { twoSiblings with
    world := { twoSiblings.world with
      scheduler := ⟨⟨true, some ⟨2, 2⟩, [⟨1, 1⟩]⟩, [], unjoined [1, 2]⟩
      killed := [3] }
    writer := some ⟨⟨2, 2⟩, 2, 1, .killAll []⟩ }

theorem exit_ends_process_with_sibling :
    ∃ later, siblingKilled.perform .development .advanceExit = .ok later ∧
      (later.writer = none → ∀ thread ∈ later.world.scheduler.parked,
        thread.process = 2 → thread = ⟨2, 2⟩) := by
  have hRun : twoSiblings.run .development Orderly [.scheduler .setInit, .beginExit, .advanceExit,
      .advanceExit, .advanceExit, .advanceExit, .advanceExit] = some siblingKilled := by
    decide +kernel
  have hReachable := (twoSiblings_reachable .development Orderly).run hRun
  exact exit_ends_process hReachable rfl rfl (by decide +kernel)

/-- The second thread sleeps while the first one exits the process. -/
def siblingSleeps : System :=
  { twoSiblings with
    world := { twoSiblings.world with
      scheduler := ⟨⟨true, some ⟨2, 2⟩, [⟨1, 1⟩]⟩, [(⟨3, 2⟩, 50)],
        unjoined [1, 2, 3]⟩ }
    writer := some ⟨⟨2, 2⟩, 2, 1, .killAll []⟩ }

/-- The second thread exits after the first one has looked it up. -/
def siblingExits : System :=
  { twoSiblings with
    world := { twoSiblings.world with
      scheduler := ⟨⟨true, some ⟨2, 2⟩, [⟨1, 1⟩]⟩, [], unjoined [1, 2]⟩
      exited := [⟨3, 2⟩] }
    writer := some ⟨⟨2, 2⟩, 2, 1, .killAll [3]⟩ }

/-- A sleeping thread survives the exit of its process, and a thread that
exits by itself in the meantime makes the call panic. -/
theorem exit_misses_sibling :
    (Reachable .development (fun _ _ => True) siblingSleeps ∧
      ∃ later, siblingSleeps.perform .development .advanceExit = .ok later ∧ later.writer = none ∧
        ⟨3, 2⟩ ∈ later.world.scheduler.sleepList.map Prod.fst) ∧
    Reachable .development (fun _ _ => True) siblingExits ∧
      siblingExits.perform .development .advanceExit = .error (.panicked .missingJoinMapEntry) := by
  have hSleeps : twoSiblings.run .development (fun _ _ => True) [.scheduler .setInit, preempt,
      .scheduler (.sleep 50 0 []), preempt, .beginExit, .advanceExit, .advanceExit, .advanceExit,
      .advanceExit] = some siblingSleeps := by
    decide +kernel
  have hExits : twoSiblings.run .development (fun _ _ => True) [.scheduler .setInit, .beginExit,
      .advanceExit, .advanceExit, .advanceExit, .advanceExit, preempt, .scheduler (.exit []),
      preempt] = some siblingExits := by
    decide +kernel
  have hStart := twoSiblings_reachable .development (fun _ _ => True)
  exact ⟨⟨hStart.run hSleeps, _, rfl, rfl, by decide +kernel⟩, hStart.run hExits, by decide +kernel⟩

end System

end D3OS.Process
