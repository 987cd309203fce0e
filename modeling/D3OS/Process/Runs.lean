import D3OS.Process.Conservation
import Mathlib.Logic.Relation

/-! Runs of the scheduler. A run starts with `start` on threads that were made
ready before, and performs any actions of the current thread in any order.
Beside the scheduler it keeps the threads that were made ready, that exited
and whose ids were killed. -/
namespace D3OS.Process

open Outcome

/-- The sections the current thread can perform, with the times they read. -/
inductive Action where
  | ready (thread : Thread)
  | setInit
  | switchThread (locks : SwitchLocks) (time : Nat)
  | sleep (ms systime : Nat) (times : List Nat)
  | join (threadId : Nat) (times : List Nat)
  | exit (times : List Nat)
  | kill (threadId : Nat)
  deriving DecidableEq, Repr

def Action.NotKill (action : Action) : Prop := ∀ threadId, action ≠ .kill threadId

def Scheduler.perform (profile : BuildProfile) (self : Scheduler) : Action → Except Halt Scheduler
  | .ready thread => .ok (self.ready thread)
  | .setInit => .ok self.setInit
  | .switchThread locks time => self.switchThread locks time
  | .sleep ms systime times => self.sleep profile ms systime times
  | .join threadId times => self.join threadId times
  | .exit times => self.exit times
  | .kill threadId => self.kill threadId

/-- The join map of threads that nobody waits for. -/
def unjoined (ids : List Nat) : SortedMap Nat (List Thread) :=
  ids.foldl (fun joinMap id => joinMap.insert id []) SortedMap.empty

structure World where
  scheduler : Scheduler
  readied : List Thread
  exited : List Thread
  killed : List Nat
  deriving DecidableEq

namespace World

/-- The threads that were made ready and have neither exited nor been killed. -/
def Live (world : World) (thread : Thread) : Prop :=
  thread ∈ world.readied ∧ thread ∉ world.exited ∧ thread.id ∉ world.killed

instance (world : World) (thread : Thread) : Decidable (world.Live thread) :=
  inferInstanceAs (Decidable (_ ∧ _ ∧ _))

/-- Enter an action and the scheduler it leads to. -/
def record (world : World) (later : Scheduler) : Action → World
  | .ready thread => { world with scheduler := later, readied := thread :: world.readied }
  | .exit _ =>
    { world with
      scheduler := later
      exited := world.scheduler.readyState.currentThread.toList ++ world.exited }
  | .kill threadId => { world with scheduler := later, killed := threadId :: world.killed }
  | _ => { world with scheduler := later }

/-- An action that comes to its end. A thread is made ready under a new id. -/
def Step (profile : BuildProfile) (world : World) (action : Action) (later : World) : Prop :=
  (∀ thread, action = .ready thread → thread.id ∉ world.readied.map Thread.id) ∧
  ∃ scheduler, world.scheduler.perform profile action = .ok scheduler ∧
    later = world.record scheduler action

def run (profile : BuildProfile) : World → List Action → Except Halt World
  | world, [] => .ok world
  | world, action :: rest => do
    let later ← world.scheduler.perform profile action
    run profile (world.record later action) rest

/-- The threads an action brings into the scheduler. -/
def entering : Action → List Thread
  | .ready thread => [thread]
  | _ => []

/-- Can the action take this thread out of the scheduler? -/
def Leaves (world : World) (thread : Thread) : Action → Prop
  | .exit _ => world.scheduler.readyState.currentThread = some thread
  | .kill threadId => thread.id = threadId
  | _ => False

/-- The scheduler before `start`, with these threads made ready in order. -/
def boot (threads : List Thread) : Scheduler := threads.foldl Scheduler.ready Scheduler.new

/-- The worlds that allowed actions lead to. -/
inductive Reachable (profile : BuildProfile) (Allowed : Action → Prop) : World → Prop where
  | start {threads : List Thread} {scheduler : Scheduler}
      (distinct : (threads.map Thread.id).Nodup) (started : (boot threads).start = .ok scheduler) :
      Reachable profile Allowed ⟨scheduler, threads, [], []⟩
  | step {world later : World} {action : Action} (prior : Reachable profile Allowed world)
      (allowed : Allowed action) (last : Step profile world action later) :
      Reachable profile Allowed later

/-- Any number of further allowed actions. -/
def Continues (profile : BuildProfile) (Allowed : Action → Prop) : World → World → Prop :=
  Relation.ReflTransGen fun world later => ∃ action, Allowed action ∧ Step profile world action later

/-- The invariant of all runs. Every live thread is in one place, and has a
join list; a killed thread may still be in a place of its own. -/
structure Consistent (world : World) : Prop where
  running : ∃ current, world.scheduler.readyState.currentThread = some current
  distinct : (world.readied.map Thread.id).Nodup
  exitedKnown : ∀ thread ∈ world.exited, thread ∈ world.readied
  killedKnown : ∀ id ∈ world.killed, id ∈ world.readied.map Thread.id
  once : world.scheduler.occurrences.Nodup
  known : ∀ thread ∈ world.scheduler.occurrences, thread ∈ world.readied ∧ thread ∉ world.exited
  placed : ∀ thread, world.Live thread → thread ∈ world.scheduler.occurrences
  joinable : ∀ id, id ∈ world.scheduler.joinMap.keys ↔ ∃ thread, world.Live thread ∧ thread.id = id

variable {later world : World} {profile : BuildProfile} {Allowed : Action → Prop}

namespace Consistent

variable {world : World}

theorem eq_of_id_eq (h : Consistent world) {a b : Thread} (ha : a ∈ world.readied)
    (hb : b ∈ world.readied) (hId : a.id = b.id) : a = b :=
  List.inj_on_of_nodup_map h.distinct ha hb hId

theorem idsDistinct (h : Consistent world) : world.scheduler.IdsDistinct :=
  fun a ha b hb hId => h.eq_of_id_eq (h.known a ha).1 (h.known b hb).1 hId

variable {thread : Thread}

section

variable (h : Consistent world)

include h

theorem not_current_of_parked (hParked : thread ∈ world.scheduler.parked) :
    world.scheduler.readyState.currentThread ≠ some thread := by
  intro hCurrent
  have hOnce := h.once
  rw [Scheduler.occurrences_of_current hCurrent, List.nodup_cons] at hOnce
  exact hOnce.1 hParked

/-- The threads in the lists have other ids than the current one. -/
theorem id_ne_of_parked {current next : Thread}
    (hCurrent : world.scheduler.readyState.currentThread = some current)
    (hNext : next ∈ world.scheduler.parked) : current.id ≠ next.id := by
  intro hId
  obtain rfl : current = next := h.idsDistinct current
    (Scheduler.mem_occurrences_of_current hCurrent) next (List.mem_append_right _ hNext) hId
  exact h.not_current_of_parked hNext hCurrent

/-- Actions that leave the set of threads alone keep the invariant. -/
theorem of_perm {later : Scheduler} (hPerm : later.occurrences.Perm world.scheduler.occurrences)
    (hKeys : ∀ id, id ∈ later.joinMap.keys ↔ id ∈ world.scheduler.joinMap.keys)
    (hRunning : ∃ next, later.readyState.currentThread = some next) :
    Consistent { world with scheduler := later } where
  running := hRunning
  distinct := h.distinct
  exitedKnown := h.exitedKnown
  killedKnown := h.killedKnown
  once := hPerm.nodup_iff.mpr h.once
  known := fun thread hMem => h.known thread (hPerm.mem_iff.mp hMem)
  placed := fun thread hLive => hPerm.mem_iff.mpr (h.placed thread hLive)
  joinable := fun id => (hKeys id).trans (h.joinable id)

theorem fresh_not_key {id : Nat} (hFresh : id ∉ world.readied.map Thread.id) :
    id ∉ world.scheduler.joinMap.keys := by
  intro hKey
  obtain ⟨thread, hLive, hId⟩ := (h.joinable id).mp hKey
  exact hFresh (hId ▸ List.mem_map_of_mem hLive.1)

theorem ready (hFresh : thread.id ∉ world.readied.map Thread.id) :
    Consistent { world with
      scheduler := world.scheduler.ready thread
      readied := thread :: world.readied } := by
  have hNew : thread ∉ world.readied := fun hMem => hFresh (List.mem_map_of_mem hMem)
  have hPerm := Scheduler.ready_occurrences (h.fresh_not_key hFresh)
  have hLive : ∀ other, Live { world with
      scheduler := world.scheduler.ready thread
      readied := thread :: world.readied } other ↔ other = thread ∨ world.Live other := by
    intro other
    simp only [Live, List.mem_cons]
    constructor
    · rintro ⟨rfl | hMem, hRest⟩
      · exact Or.inl rfl
      · exact Or.inr ⟨hMem, hRest⟩
    · rintro (rfl | ⟨hMem, hRest⟩)
      · exact ⟨Or.inl rfl, fun hMem => hNew (h.exitedKnown _ hMem),
          fun hMem => hFresh (h.killedKnown _ hMem)⟩
      · exact ⟨Or.inr hMem, hRest⟩
  refine ⟨h.running, List.nodup_cons.mpr ⟨hFresh, h.distinct⟩,
    fun other hMem => List.mem_cons_of_mem _ (h.exitedKnown other hMem),
    fun id hMem => List.mem_cons_of_mem _ (h.killedKnown id hMem), ?_, ?_, ?_, ?_⟩
  · refine hPerm.nodup_iff.mpr (List.nodup_cons.mpr ⟨fun hMem => ?_, h.once⟩)
    exact hNew (h.known thread hMem).1
  · intro other hMem
    rcases List.mem_cons.mp (hPerm.mem_iff.mp hMem) with rfl | hOld
    · exact ⟨List.mem_cons_self, fun hMem => hNew (h.exitedKnown _ hMem)⟩
    · exact ⟨List.mem_cons_of_mem _ (h.known other hOld).1, (h.known other hOld).2⟩
  · intro other hOther
    refine hPerm.mem_iff.mpr (List.mem_cons.mpr ?_)
    exact ((hLive other).mp hOther).imp_right (h.placed other)
  · intro id
    simp only [Scheduler.ready_joinMap, SortedMap.mem_keys_insert, h.joinable, hLive]
    constructor
    · grind
    · rintro ⟨other, rfl | hOther, rfl⟩
      · exact Or.inl rfl
      · exact Or.inr ⟨other, hOther, rfl⟩

theorem exit {times : List Nat} {later : Scheduler} (hExit : world.scheduler.exit times = .ok later)
    :
    Consistent { world with
      scheduler := later
      exited := world.scheduler.readyState.currentThread.toList ++ world.exited } := by
  obtain ⟨current, hCurrent⟩ := h.running
  obtain ⟨hKey, hPerm, hMap, hNext⟩ := Scheduler.exit_occurrences hCurrent hExit
  have hMem : current ∈ world.scheduler.occurrences := hPerm.mem_iff.mp List.mem_cons_self
  obtain ⟨hNotLater, hOnce⟩ := List.nodup_cons.mp (hPerm.nodup_iff.mpr h.once)
  rw [hCurrent, Option.toList_some, List.singleton_append]
  have hLive : ∀ other, Live ⟨later, world.readied, current :: world.exited, world.killed⟩ other ↔
      world.Live other ∧ other ≠ current := by
    intro other
    simp only [Live, List.mem_cons, not_or]
    tauto
  refine ⟨hNext, h.distinct, ?_, h.killedKnown, hOnce, ?_, ?_, ?_⟩
  · intro other hOther
    rcases List.mem_cons.mp hOther with rfl | hOther
    · exact (h.known _ hMem).1
    · exact h.exitedKnown other hOther
  · intro other hOther
    have hKnown := h.known other (hPerm.mem_iff.mp (List.mem_cons_of_mem _ hOther))
    refine ⟨hKnown.1, fun hExited => ?_⟩
    rcases List.mem_cons.mp hExited with rfl | hExited
    · exact hNotLater hOther
    · exact hKnown.2 hExited
  · intro other hOther
    obtain ⟨hOther, hNe⟩ := (hLive other).mp hOther
    rcases List.mem_cons.mp (hPerm.mem_iff.mpr (h.placed other hOther)) with rfl | hLater
    · exact absurd rfl hNe
    · exact hLater
  · intro id
    simp only [hMap, SortedMap.mem_keys_erase, h.joinable, hLive]
    constructor
    · rintro ⟨⟨other, hOther, rfl⟩, hNe⟩
      exact ⟨other, ⟨hOther, fun hEq => hNe (hEq ▸ rfl)⟩, rfl⟩
    · rintro ⟨other, ⟨hOther, hNe⟩, rfl⟩
      refine ⟨⟨other, hOther, rfl⟩, fun hId => hNe ?_⟩
      exact h.eq_of_id_eq hOther.1 (h.known current hMem).1 hId

theorem kill {threadId : Nat} {later : Scheduler}
    (hKill : world.scheduler.kill threadId = .ok later) :
    Consistent { world with scheduler := later, killed := threadId :: world.killed } := by
  obtain ⟨current, joinList, hCurrent, hOther, hList, hLater, -, -, hMap⟩ := Scheduler.kill_ok hKill
  obtain ⟨gone, hGone, hPerm⟩ := Scheduler.kill_occurrences hKill
  have hLive : ∀ other, Live ⟨later, world.readied, world.exited, threadId :: world.killed⟩ other ↔
      world.Live other ∧ other.id ≠ threadId := by
    intro other
    simp only [Live, List.mem_cons, not_or]
    tauto
  have hOld : ∀ other ∈ later.occurrences, other ∈ world.scheduler.occurrences := fun other hMem =>
    hPerm.mem_iff.mp (List.mem_append_right _ hMem)
  refine ⟨⟨current, hLater⟩, h.distinct, h.exitedKnown, ?_, ?_, ?_, ?_, ?_⟩
  · intro id hMem
    rcases List.mem_cons.mp hMem with rfl | hMem
    · obtain ⟨victim, hVictim, rfl⟩ := (h.joinable _).mp (SortedMap.mem_keys.mpr ⟨_, hList⟩)
      exact List.mem_map_of_mem hVictim.1
    · exact h.killedKnown id hMem
  · exact (hPerm.nodup_iff.mpr h.once).of_append_right
  · exact fun other hMem => h.known other (hOld other hMem)
  · intro other hOther
    obtain ⟨hOther, hNe⟩ := (hLive other).mp hOther
    rcases List.mem_append.mp (hPerm.mem_iff.mpr (h.placed other hOther)) with hMem | hMem
    · exact absurd (hGone other hMem) hNe
    · exact hMem
  · intro id
    simp only [hMap, SortedMap.mem_keys_erase, h.joinable, hLive]
    constructor
    · rintro ⟨⟨other, hOther, rfl⟩, hNe⟩
      exact ⟨other, ⟨hOther, hNe⟩, rfl⟩
    · rintro ⟨other, ⟨hOther, hNe⟩, rfl⟩
      exact ⟨⟨other, hOther, rfl⟩, hNe⟩

/-- An action moves threads around, up to the one it makes ready and those
it takes out. -/
theorem effect {profile : BuildProfile} {action : Action} {later : World}
    (hStep : Step profile world action later) :
    ∃ gone, (gone ++ later.scheduler.occurrences).Perm
        (entering action ++ world.scheduler.occurrences) ∧
      ∀ thread ∈ gone, world.Leaves thread action := by
  obtain ⟨hFresh, scheduler, hPerform, rfl⟩ := hStep
  obtain ⟨current, hCurrent⟩ := h.running
  cases action with
  | ready thread =>
    obtain rfl := Except.ok.inj hPerform
    exact ⟨[], Scheduler.ready_occurrences (h.fresh_not_key (hFresh thread rfl)), by simp⟩
  | setInit =>
    obtain rfl := Except.ok.inj hPerform
    exact ⟨[], List.Perm.refl _, by simp⟩
  | switchThread locks time =>
    exact ⟨[], (Scheduler.switchThread_occurrences hCurrent hPerform).1, by simp⟩
  | sleep ms systime times =>
    exact ⟨[], (Scheduler.sleep_occurrences h.idsDistinct hCurrent hPerform).1, by simp⟩
  | join threadId times =>
    exact ⟨[], (Scheduler.join_occurrences h.idsDistinct hCurrent hPerform).1, by simp⟩
  | exit times =>
    refine ⟨[current], (Scheduler.exit_occurrences hCurrent hPerform).2.1, ?_⟩
    simpa [Leaves] using hCurrent
  | kill threadId =>
    obtain ⟨gone, hGone, hPerm⟩ := Scheduler.kill_occurrences hPerform
    exact ⟨gone, hPerm, hGone⟩

theorem occurs_before {action : Action} (hStep : Step profile world action later)
    (hMem : thread ∈ later.scheduler.occurrences) :
    action = .ready thread ∨ thread ∈ world.scheduler.occurrences := by
  obtain ⟨gone, hPerm, -⟩ := h.effect hStep
  rcases List.mem_append.mp (hPerm.mem_iff.mp (List.mem_append_right _ hMem)) with hNew | hOld
  · cases action with
    | ready other => exact Or.inl (List.mem_singleton.mp hNew ▸ rfl)
    | _ => cases hNew
  · exact Or.inr hOld

theorem occurs_after {action : Action} (hStep : Step profile world action later)
    (hMem : thread ∈ world.scheduler.occurrences) :
    world.Leaves thread action ∨ thread ∈ later.scheduler.occurrences := by
  obtain ⟨gone, hPerm, hGone⟩ := h.effect hStep
  exact (List.mem_append.mp (hPerm.mem_iff.mpr (List.mem_append_right _ hMem))).imp_left
    (hGone thread)

/-- Every action of the current thread keeps the invariant. -/
theorem step {profile : BuildProfile} {action : Action} {later : World}
    (hStep : Step profile world action later) : Consistent later := by
  obtain ⟨hFresh, scheduler, hPerform, rfl⟩ := hStep
  obtain ⟨current, hCurrent⟩ := h.running
  cases action with
  | ready thread =>
    obtain rfl := Except.ok.inj hPerform
    exact h.ready (hFresh thread rfl)
  | setInit =>
    obtain rfl := Except.ok.inj hPerform
    exact h.of_perm (List.Perm.refl _) (fun _ => Iff.rfl) ⟨current, hCurrent⟩
  | switchThread locks time =>
    obtain ⟨hPerm, hMap, hNext⟩ := Scheduler.switchThread_occurrences hCurrent hPerform
    exact h.of_perm hPerm (fun id => by rw [hMap]) hNext
  | sleep ms systime times =>
    obtain ⟨hPerm, hMap, hNext⟩ := Scheduler.sleep_occurrences h.idsDistinct hCurrent hPerform
    exact h.of_perm hPerm (fun id => by rw [hMap]) hNext
  | join threadId times =>
    obtain ⟨hPerm, hKeys, hNext⟩ := Scheduler.join_occurrences h.idsDistinct hCurrent hPerform
    exact h.of_perm hPerm hKeys hNext
  | exit times => exact h.exit hPerform
  | kill threadId => exact h.kill hPerform

end

end Consistent

/-- Threads that are made ready one after the other under new ids. -/
theorem ready_all {threads : List Thread} {scheduler : Scheduler}
    (hDistinct : (threads.map Thread.id).Nodup)
    (hFresh : ∀ thread ∈ threads, thread.id ∉ scheduler.joinMap.keys) :
    (threads.foldl Scheduler.ready scheduler).occurrences.Perm (threads ++ scheduler.occurrences) ∧
    (∀ id, id ∈ (threads.foldl Scheduler.ready scheduler).joinMap.keys ↔
      id ∈ threads.map Thread.id ∨ id ∈ scheduler.joinMap.keys) ∧
    (threads.foldl Scheduler.ready scheduler).readyState.currentThread =
      scheduler.readyState.currentThread := by
  induction threads generalizing scheduler with
  | nil => exact ⟨List.Perm.refl _, by simp, rfl⟩
  | cons thread rest ih =>
    obtain ⟨hHead, hRest⟩ := List.nodup_cons.mp hDistinct
    have hFreshRest : ∀ other ∈ rest, other.id ∉ (scheduler.ready thread).joinMap.keys := by
      intro other hOther hKey
      rcases SortedMap.mem_keys_insert.mp hKey with hId | hKey
      · exact hHead (hId ▸ List.mem_map_of_mem hOther)
      · exact hFresh other (List.mem_cons_of_mem _ hOther) hKey
    obtain ⟨hPerm, hKeys, hCurrent⟩ := ih hRest hFreshRest
    have hReady := Scheduler.ready_occurrences (hFresh thread List.mem_cons_self)
    refine ⟨?_, ?_, hCurrent⟩
    · exact hPerm.trans ((hReady.append_left rest).trans List.perm_middle)
    · intro id
      rw [List.foldl_cons, hKeys, Scheduler.ready_joinMap, SortedMap.mem_keys_insert,
        List.map_cons, List.mem_cons]
      tauto

theorem start_consistent {threads : List Thread} {scheduler : Scheduler}
    (hDistinct : (threads.map Thread.id).Nodup) (hStart : (boot threads).start = .ok scheduler) :
    Consistent ⟨scheduler, threads, [], []⟩ := by
  obtain ⟨hPerm, hKeys, hCurrent⟩ := @ready_all threads Scheduler.new hDistinct (by
    intro thread _ hKey
    cases hKey)
  unfold Scheduler.start at hStart
  split at hStart
  · rename_i first queue hPop
    obtain rfl := Except.ok.inj hStart
    have hOccurrences : (Scheduler.occurrences { boot threads with readyState :=
        { (boot threads).readyState with currentThread := some first, readyQueue := queue } }).Perm
        threads := by
      have hNext := (Scheduler.perm_of_popBack (boot threads).sleepList hPop).append_right
        (boot threads).waiting
      refine hNext.trans ?_
      have hNone : (boot threads).occurrences = (boot threads).parked := by
        rw [Scheduler.occurrences, boot, hCurrent]
        rfl
      have hAll : (boot threads).parked.Perm (threads ++ Scheduler.new.occurrences) := hNone ▸ hPerm
      rwa [show Scheduler.new.occurrences = [] from rfl, List.append_nil] at hAll
    refine ⟨⟨first, rfl⟩, hDistinct, by simp, by simp, ?_, ?_, ?_, ?_⟩
    · exact hOccurrences.nodup_iff.mpr hDistinct.of_map
    · exact fun thread hMem => ⟨hOccurrences.mem_iff.mp hMem, List.not_mem_nil⟩
    · exact fun thread hLive => hOccurrences.mem_iff.mpr hLive.1
    · intro id
      refine (hKeys id).trans ?_
      simp [Live, Scheduler.new, SortedMap.keys, SortedMap.empty]
  · cases hStart

theorem Reachable.consistent (h : Reachable profile Allowed world) : Consistent world := by
  induction h with
  | start distinct started => exact start_consistent distinct started
  | step _ _ last ih => exact ih.step last

theorem Continues.of_run {actions : List Action}
    (hAllowed : ∀ action ∈ actions, Allowed action ∧ ∀ thread, action ≠ .ready thread)
    (hRun : world.run profile actions = .ok later) : Continues profile Allowed world later := by
  induction actions generalizing world with
  | nil =>
    obtain rfl := Except.ok.inj hRun
    exact Relation.ReflTransGen.refl
  | cons action rest ih =>
    obtain ⟨scheduler, hPerform, hRest⟩ := bind_ok hRun
    obtain ⟨hAction, hReady⟩ := hAllowed action List.mem_cons_self
    have hStep : Step profile world action (world.record scheduler action) :=
      ⟨fun thread hEq => absurd hEq (hReady thread), scheduler, hPerform, rfl⟩
    exact Relation.ReflTransGen.head ⟨action, hAction, hStep⟩
      (ih (fun other hOther => hAllowed other (List.mem_cons_of_mem _ hOther)) hRest)

theorem Reachable.continues (h : Reachable profile Allowed world)
    (hRun : Continues profile Allowed world later) :
    Reachable profile Allowed later := by
  induction hRun with
  | refl => exact h
  | tail _ hLast ih =>
    obtain ⟨action, hAction, hStep⟩ := hLast
    exact ih.step hAction hStep

/-- A live thread that exits is switched away from: it finds its join list,
and no copy of it is left to be scheduled next. -/
theorem Consistent.exit_error (h : Consistent world) {current : Thread}
    (hCurrent : world.scheduler.readyState.currentThread = some current)
    (hLive : world.Live current) {times : List Nat} {halt : Halt}
    (hExit : world.scheduler.exit times = .error halt) :
    halt = .spinning := by
  obtain ⟨joinList, hList⟩ := SortedMap.mem_keys.mp ((h.joinable _).mpr ⟨current, hLive, rfl⟩)
  unfold Scheduler.exit at hExit
  rw [ReadyState.current_ok.mpr hCurrent, bind_of_ok, hList] at hExit
  dsimp only at hExit
  cases hBlock : Scheduler.block { world.scheduler with
      readyState := world.scheduler.readyState.wake joinList
      joinMap := world.scheduler.joinMap.erase current.id } times with
  | error reason =>
    rw [hBlock, bind_of_error] at hExit
    obtain rfl := Except.error.inj hExit
    exact Scheduler.block_error (by simpa using hCurrent) hBlock
  | ok outcome =>
    obtain ⟨later, switched⟩ := outcome
    rw [hBlock, bind_of_ok] at hExit
    obtain ⟨caller, next, hCaller, hPerm, -, ⟨rfl, -, -⟩ | ⟨-, hId, -⟩⟩ := Scheduler.block_ok hBlock
    · cases hExit
    · obtain rfl : current = caller := by simpa [hCurrent] using hCaller
      have hNext : next ∈ world.scheduler.parked :=
        (Scheduler.wake_parked hList).mem_iff.mp (hPerm.mem_iff.mp List.mem_cons_self)
      exact absurd hId (h.id_ne_of_parked hCurrent hNext)

theorem Reachable.not_killed (hAllowed : ∀ threadId, ¬Allowed (.kill threadId))
    (h : Reachable profile Allowed world) :
    world.killed = [] := by
  induction h with
  | start => rfl
  | @step world later action _ allowed last ih =>
    obtain ⟨-, scheduler, -, rfl⟩ := last
    cases action with
    | kill threadId => exact absurd allowed (hAllowed threadId)
    | _ => exact ih

/-- Without `kill`, each thread that was made ready and has not exited is in
exactly one place and no exited thread is in any. The join map has exactly the
ids of these threads, so the only way an exiting thread is not left is that no
other thread becomes ready. -/
theorem threads_conserved {profile : BuildProfile} {world : World}
    (h : Reachable profile Action.NotKill world) :
    (∀ thread ∈ world.readied, thread ∉ world.exited →
      world.scheduler.occurrences.count thread = 1) ∧
    (∀ thread ∈ world.exited, thread ∉ world.scheduler.occurrences) ∧
    (∀ thread ∈ world.scheduler.occurrences, thread ∈ world.readied) ∧
    (∀ id, id ∈ world.scheduler.joinMap.keys ↔
      ∃ thread ∈ world.readied, thread ∉ world.exited ∧ thread.id = id) ∧
    ∀ times halt, world.scheduler.exit times = .error halt → halt = .spinning := by
  have hConsistent := h.consistent
  have hKilled := h.not_killed fun threadId hNot => hNot threadId rfl
  have hLive : ∀ thread, world.Live thread ↔ thread ∈ world.readied ∧ thread ∉ world.exited := by
    intro thread
    simp [Live, hKilled]
  refine ⟨?_, ?_, ?_, ?_, ?_⟩
  · intro thread hReadied hExited
    exact List.count_eq_one_of_mem hConsistent.once
      (hConsistent.placed thread ((hLive thread).mpr ⟨hReadied, hExited⟩))
  · exact fun thread hExited hMem => (hConsistent.known thread hMem).2 hExited
  · exact fun thread hMem => (hConsistent.known thread hMem).1
  · intro id
    simp only [hConsistent.joinable, hLive, and_assoc]
  · intro times halt hExit
    obtain ⟨current, hCurrent⟩ := hConsistent.running
    have hKnown := hConsistent.known current (Scheduler.mem_occurrences_of_current hCurrent)
    exact hConsistent.exit_error hCurrent ((hLive current).mpr hKnown) hExit

/-- Two threads of one process, just after `start`. -/
def twoThreads : World where
  scheduler := ⟨⟨false, some ⟨1, 1⟩, [⟨2, 1⟩]⟩, [], unjoined [1, 2]⟩
  readied := [⟨1, 1⟩, ⟨2, 1⟩]
  exited := []
  killed := []

theorem twoThreads_reachable (profile : BuildProfile) (Allowed : Action → Prop) :
    Reachable profile Allowed twoThreads :=
  .start (by decide) (by decide +kernel)

/-- The first thread waits for the second one, which sleeps and then exits. -/
theorem threads_conserved_after_join :
    ∃ world, Reachable .development Action.NotKill world ∧ world.exited = [⟨2, 1⟩] ∧
      world.scheduler.occurrences.count ⟨1, 1⟩ = 1 := by
  have hRun : twoThreads.run .development [.setInit, .join 2 [], .sleep 5 10 [12, 15], .exit []] =
      .ok ⟨⟨⟨true, some ⟨1, 1⟩, []⟩, [], unjoined [1]⟩, [⟨1, 1⟩, ⟨2, 1⟩], [⟨2, 1⟩], []⟩ := by
    decide +kernel
  have hWorld := (twoThreads_reachable .development Action.NotKill).continues
    (.of_run (by simp [Action.NotKill]) hRun)
  exact ⟨_, hWorld, rfl, (threads_conserved hWorld).1 ⟨1, 1⟩ (by decide) (by decide)⟩

end World

end D3OS.Process
