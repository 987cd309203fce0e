import Mathlib
import D3OS.Device.Ide
import D3OS.Library.Recorded
import D3OS.VirtIO.Hal

/-! `perform_ata_dma` with the memory of the bus master: the table of physical
regions and the buffer are allocated, made uncached and given back by each
call. What the function does to them and to the registers of the bus master is
recorded in order. The bytes of the buffers are left out. -/
namespace D3OS.Device.Ide

open Outcome hiding bind_of_ok
open Frames (PhysFrameRange)
open Memory (Machine Paging)
open Recorded

/-- The two regions of a transfer, `prd_frames` and `dma_frames`. -/
inductive DmaMemory where
  | prd
  | dma
  deriving DecidableEq, Repr

inductive DmaAction where
  | allocate (memory : DmaMemory) (frames : PhysFrameRange)
  | fill (table : List PrdEntry)
  | address (value : Nat)
  | command (value : Nat)
  | status (value : Nat)
  | free (memory : DmaMemory) (frames : PhysFrameRange)
  deriving DecidableEq, Repr

abbrev DmaRun := Recorded DmaAction Panic

def allocUncached (profile : BuildProfile) (kernel : Paging) (memory : DmaMemory) (count : Nat)
    (m : Machine) : DmaRun (PhysFrameRange × Machine) := do
  let (frames, m) ← silently (m.alloc count)
  record (.allocate memory frames)
  let start ← silently (Memory.pageFromU64 (PAGE_SIZE * frames.start))
  let stop ← silently (Memory.pageFromU64 (PAGE_SIZE * frames.stop))
  let m ← silently (kernel.setFlags profile m ⟨start, stop⟩ Hal.dmaFlags)
  return (frames, m)

def freeDma (prdFrames dmaFrames : PhysFrameRange) (m : Machine) : DmaRun Machine := do
  record (.free .dma dmaFrames)
  let m ← silently (m.free dmaFrames)
  record (.free .prd prdFrames)
  silently (m.free prdFrames)

/-- A transfer whose command has been written, and whether the drive has
answered it. -/
structure DmaStart where
  prdFrames : PhysFrameRange
  dmaFrames : PhysFrameRange
  ready : Bool
  channel : IdeChannel
  machine : Machine

/-- The number of pages of the table, with an entry of eight bytes per page. -/
def prdPages (pages : Nat) : Nat := pagesFor (pages * 8)

/-- The course of a transfer, once its memory is allocated. -/
def DmaCourse.within (course : DmaCourse) (prdFrames dmaFrames : PhysFrameRange) : DmaCourse :=
  { course with
    prdFrames := PAGE_SIZE * prdFrames.start
    dmaFrames := PAGE_SIZE * dmaFrames.start }

/-- `perform_ata_dma` up to the answer of the drive. -/
def startDma (profile : BuildProfile) (kernel : Paging) (bus : Bus) (info : DriveInfo)
    (mode : TransferMode) (sector count : Nat) (channel : IdeChannel) (m : Machine) :
    DmaRun DmaStart := do
  let pages := pagesFor (count * info.sectorSize)
  let (prdFrames, m) ← allocUncached profile kernel .prd (prdPages pages) m
  let (dmaFrames, m) ← allocUncached profile kernel .dma pages m
  let course := (bus.courses channel.transfers).within prdFrames dmaFrames
  let channel ← silently (prepareDma profile course info mode count
    { channel with transfers := channel.transfers + 1 })
  record (.fill channel.dma.prd)
  record (.address channel.dma.address)
  record (.command channel.dma.command)
  record (.status channel.dma.status)
  let channel ← silently
    (startCommand bus info (dmaCommand info.addressing mode) sector count channel)
  let (ready, channel) := channel.wait bus Status.dataRequest
  return ⟨prdFrames, dmaFrames, ready, channel, m⟩

/-- The loop of `awaitDma`, recorded. -/
def pollDma : (command : Nat) → List (Bool × Nat) → DmaRun (Bool × Nat)
  | command, [] => pure (false, command)
  | command, (received, status) :: rest =>
    if !received then pollDma command rest
    else do
      record (.command 0x00)
      if status &&& unknownDmaStatus ≠ 0 then silently (.error .unwrapFailed)
      else if status &&& DmaStatus.interrupt = DmaStatus.interrupt then
        if status &&& DmaStatus.busMasterActive = DmaStatus.busMasterActive then do
          record (.command DmaCommand.enable)
          pollDma DmaCommand.enable rest
        else pure (true, 0x00)
      else pollDma 0x00 rest

def finishDma (course : DmaCourse) (mode : TransferMode) (count : Nat) (buffer : List UInt8)
    (start : DmaStart) : DmaRun (Nat × Transferred × Machine) :=
  if !start.ready then do
    let m ← freeDma start.prdFrames start.dmaFrames start.machine
    return (0, (buffer, start.channel), m)
  else do
    record (.command DmaCommand.enable)
    let (finished, command) ← pollDma DmaCommand.enable course.observed
    let channel := { start.channel with
      receivedInterrupt := false
      dma := { start.channel.dma with command } }
    if !finished || course.late then do
      let m ← freeDma start.prdFrames start.dmaFrames start.machine
      return (0, (buffer, channel), m)
    else do
      let buffer := if mode = .read then (List.range buffer.length).map course.contents else buffer
      let m ← freeDma start.prdFrames start.dmaFrames start.machine
      return (count, (buffer, channel), m)

def performAtaDmaRecorded (profile : BuildProfile) (kernel : Paging) (bus : Bus) (info : DriveInfo)
    (mode : TransferMode) (sector count : Nat) (buffer : List UInt8) (channel : IdeChannel)
    (m : Machine) : DmaRun (Nat × Transferred × Machine) := do
  let start ← startDma profile kernel bus info mode sector count channel m
  finishDma (bus.courses channel.transfers) mode count buffer start

/-- Neither gives memory back nor starts the bus master. -/
def DmaAction.Harmless : DmaAction → Prop
  | .free _ _ => False
  | .command value => value &&& DmaCommand.enable = 0
  | _ => True

theorem allocUncached_holds (profile : BuildProfile) (kernel : Paging) (memory : DmaMemory)
    (count : Nat) (m : Machine) :
    Holds (allocUncached profile kernel memory count m) DmaAction.Harmless
      fun events (frames, m') => events = [.allocate memory frames] ∧
        Frames.alloc m.frames count = .ok (frames, m'.frames) := by
  refine .silently_bind ?_
  rintro ⟨frames, m₁⟩ hAlloc
  refine .record_bind trivial ?_
  refine .silently_bind fun start _ => ?_
  refine .silently_bind fun stop _ => ?_
  refine .silently_bind fun m₂ hFlags => ?_
  refine .pure ⟨rfl, ?_⟩
  obtain ⟨⟨range, allocator⟩, hFrames, hEq⟩ := bind_ok hAlloc
  obtain ⟨rfl, rfl⟩ := Prod.mk.inj (pure_ok hEq)
  rw [hFrames, Paging.setFlags_frames hFlags, Machine.frames_install]

/-- The regions that a transfer gets in a state of the allocator. -/
def dmaRegions (allocator : Frames.Allocator) (pages : Nat) :
    Except Panic (PhysFrameRange × PhysFrameRange) := do
  let (prdFrames, allocator) ← Frames.alloc allocator (prdPages pages)
  let (dmaFrames, _) ← Frames.alloc allocator pages
  return (prdFrames, dmaFrames)

/-- What a transfer does before the command is written to the drive. -/
def startActions (prdFrames dmaFrames : PhysFrameRange) (mode : TransferMode) (pages : Nat) :
    List DmaAction :=
  [.allocate .prd prdFrames, .allocate .dma dmaFrames,
    .fill (fillPrd (PAGE_SIZE * dmaFrames.start) (pages - 1)),
    .address (PAGE_SIZE * prdFrames.start % 2 ^ 32),
    .command (if mode = .read then 0x00 else DmaCommand.direction), .status 0xf9]

variable {mode : TransferMode} {actions : List DmaAction} {command last pages : Nat}
  {observed : List (Bool × Nat)} {prdFrames dmaFrames : PhysFrameRange}

theorem prepareDma_ok {profile : BuildProfile} {course : DmaCourse} {info : DriveInfo} {count : Nat}
    {channel later : IdeChannel}
    (h : prepareDma profile course info mode count channel = .ok later) :
    0 < pagesFor (count * info.sectorSize) ∧ later = { channel with dma :=
      { address := course.prdFrames % 2 ^ 32
        command := if mode = .read then 0x00 else DmaCommand.direction
        status := 0xf9
        prd := fillPrd course.dmaFrames (pagesFor (count * info.sectorSize) - 1) } } := by
  obtain ⟨last, hLast, h⟩ := bind_ok h
  obtain ⟨hInside, h⟩ := ite_error_ok h
  have hPages : 1 ≤ pagesFor (count * info.sectorSize) := by omega
  rw [profile.unsignedSub_of_le 64 hPages] at hLast
  obtain rfl := Except.ok.inj hLast
  exact ⟨hPages, (pure_ok h).symm⟩

section

variable {profile : BuildProfile} {kernel : Paging} {bus : Bus} {info : DriveInfo}
  {mode : TransferMode} {sector count : Nat} {channel : IdeChannel} {m : Machine}

theorem startDma_holds :
    Holds (startDma profile kernel bus info mode sector count channel m) DmaAction.Harmless
      fun events start => 0 < pagesFor (count * info.sectorSize) ∧
        dmaRegions m.frames (pagesFor (count * info.sectorSize)) =
          .ok (start.prdFrames, start.dmaFrames) ∧
        events = startActions start.prdFrames start.dmaFrames mode
          (pagesFor (count * info.sectorSize)) := by
  refine (allocUncached_holds profile kernel .prd _ m).bind ?_
  rintro _ ⟨prdFrames, m₁⟩ ⟨rfl, hPrd⟩
  refine (allocUncached_holds profile kernel .dma _ m₁).bind ?_
  rintro _ ⟨dmaFrames, m₂⟩ ⟨rfl, hDma⟩
  have hRegions : dmaRegions m.frames (pagesFor (count * info.sectorSize)) =
      .ok (prdFrames, dmaFrames) := by
    simp only [dmaRegions, hPrd, hDma, Outcome.bind_of_ok]
    rfl
  refine .silently_bind fun prepared hPrepare => ?_
  obtain ⟨hPages, rfl⟩ := prepareDma_ok hPrepare
  refine .record_bind trivial (.record_bind trivial (.record_bind ?_ (.record_bind trivial ?_)))
  · show (if mode = .read then 0x00 else DmaCommand.direction) &&& DmaCommand.enable = 0
    split <;> rfl
  · refine .silently_bind fun started _ => ?_
    exact .pure ⟨hPages, hRegions, rfl⟩

/-- The recorded loop is the loop. -/
theorem pollDma_result (command : Nat) (observed : List (Bool × Nat)) :
    (pollDma command observed).result = awaitDma command observed := by
  induction observed generalizing command with
  | nil => rfl
  | cons seen rest ih =>
    obtain ⟨received, status⟩ := seen
    unfold pollDma awaitDma
    split
    · exact ih command
    · rw [bind_result]
      show Recorded.result _ = _
      split
      · rfl
      · split
        · split
          · exact ih DmaCommand.enable
          · rfl
        · exact ih 0x00

/-- The hardware, once the memory of one transfer is allocated. -/
def Bus.within (bus : Bus) (transfer : Nat) (prdFrames dmaFrames : PhysFrameRange) : Bus :=
  let course := (bus.courses transfer).within prdFrames dmaFrames
  { bus with courses := Function.update bus.courses transfer course }

theorem startDma_result {start : DmaStart}
    (h : (startDma profile kernel bus info mode sector count channel m).result = .ok start) :
    ∃ prepared started,
      prepareDma profile ((bus.courses channel.transfers).within start.prdFrames start.dmaFrames)
        info mode count { channel with transfers := channel.transfers + 1 } = .ok prepared ∧
      startCommand bus info (dmaCommand info.addressing mode) sector count prepared = .ok started ∧
      started.wait bus Status.dataRequest = (start.ready, start.channel) := by
  unfold startDma at h
  simp only [bind_result, result_silently, result_record, Outcome.bind_of_ok] at h
  obtain ⟨⟨prdFrames, m₁⟩, -, h⟩ := bind_ok h
  obtain ⟨⟨dmaFrames, m₂⟩, -, h⟩ := bind_ok h
  obtain ⟨prepared, hPrepare, h⟩ := bind_ok h
  obtain ⟨started, hStarted, h⟩ := bind_ok h
  obtain rfl := Except.ok.inj h
  exact ⟨prepared, started, hPrepare, hStarted, rfl⟩

/-- A call that returns has done what it does without its memory, on the
hardware with the frames it got. -/
theorem performAtaDmaRecorded_ok {buffer : List UInt8} {done : Nat} {transferred : Transferred}
    {m' : Machine}
    (h : (performAtaDmaRecorded profile kernel bus info mode sector count buffer channel m).result =
      .ok (done, transferred, m')) :
    ∃ prdFrames dmaFrames, performAtaDma profile (bus.within channel.transfers prdFrames dmaFrames)
      info mode sector count buffer channel = .ok (done, transferred) := by
  unfold performAtaDmaRecorded at h
  rw [bind_result] at h
  obtain ⟨start, hStart, hFinish⟩ := bind_ok h
  obtain ⟨prepared, started, hPrepare, hStarted, hWait⟩ := startDma_result hStart
  let used := bus.within channel.transfers start.prdFrames start.dmaFrames
  have hCourse : used.courses channel.transfers =
      (bus.courses channel.transfers).within start.prdFrames start.dmaFrames :=
    Function.update_self _ _ _
  have hUsed : startCommand used info (dmaCommand info.addressing mode) sector count prepared =
      .ok started := hStarted
  have hReady : started.wait used Status.dataRequest = (start.ready, start.channel) := hWait
  refine ⟨start.prdFrames, start.dmaFrames, ?_⟩
  show performAtaDma profile used info mode sector count buffer channel = _
  unfold performAtaDma
  simp only [hCourse, hPrepare, hUsed, hReady, Outcome.bind_of_ok]
  unfold finishDma at hFinish
  split at hFinish
  · rename_i hSilent
    rw [if_pos hSilent]
    rw [bind_result] at hFinish
    obtain ⟨m₁, -, hEq⟩ := bind_ok hFinish
    obtain ⟨rfl, rfl, -⟩ := Prod.mk.inj (Except.ok.inj hEq)
    rfl
  · rename_i hAnswered
    rw [if_neg hAnswered]
    rw [record_bind_result, bind_result, pollDma_result] at hFinish
    obtain ⟨⟨finished, command⟩, hAwait, hFinish⟩ := bind_ok hFinish
    have hObserved : awaitDma DmaCommand.enable ((bus.courses channel.transfers).within
        start.prdFrames start.dmaFrames).observed = .ok (finished, command) := hAwait
    rw [hObserved, Outcome.bind_of_ok]
    dsimp only at hFinish
    split at hFinish
    all_goals
      rename_i hEnd
      rw [bind_result] at hFinish
      obtain ⟨m₁, -, hEq⟩ := bind_ok hFinish
      obtain ⟨rfl, rfl, -⟩ := Prod.mk.inj (Except.ok.inj hEq)
    · exact if_pos hEnd
    · exact if_neg hEnd

end

def lastCommand : List DmaAction → Option Nat
  | [] => none
  | .command value :: rest => some ((lastCommand rest).getD value)
  | _ :: rest => lastCommand rest

def DmaAction.allocated (memory : DmaMemory) : DmaAction → Option PhysFrameRange
  | .allocate other frames => if other = memory then some frames else none
  | _ => none

def DmaAction.freed (memory : DmaMemory) : DmaAction → Option PhysFrameRange
  | .free other frames => if other = memory then some frames else none
  | _ => none

/-- Whenever memory is given back, the bus master has been stopped. -/
def FreedStopped (actions : List DmaAction) : Prop :=
  ∀ before memory frames after, actions = before ++ .free memory frames :: after →
    ∃ value, lastCommand before = some value ∧ value &&& DmaCommand.enable = 0

/-- Both regions are allocated once and given back once. -/
def FreedOnce (actions : List DmaAction) : Prop :=
  ∀ memory, ∃ frames, actions.filterMap (DmaAction.allocated memory) = [frames] ∧
    actions.filterMap (DmaAction.freed memory) = [frames]

theorem lastCommand_append (first second : List DmaAction) :
    lastCommand (first ++ second) = (lastCommand second).or (lastCommand first) := by
  induction first with
  | nil => simp [lastCommand]
  | cons action rest ih =>
    cases action with
    | command value =>
      rw [List.cons_append, lastCommand, lastCommand, ih]
      cases lastCommand second <;> rfl
    | _ => exact ih

/-- Starts or stops the bus master. -/
def DmaAction.Switches (action : DmaAction) : Prop :=
  action = .command DmaCommand.enable ∨ action = .command 0x00

/-- The loop only writes commands, the last one of which it returns. -/
theorem pollDma_holds (command : Nat) (observed : List (Bool × Nat)) :
    Holds (pollDma command observed) DmaAction.Switches
      fun events (_, last) => lastCommand (.command command :: events) = some last := by
  induction observed generalizing command with
  | nil => exact .pure rfl
  | cons seen rest ih =>
    obtain ⟨received, status⟩ := seen
    unfold pollDma
    split
    · exact ih command
    · refine .record_bind (Or.inr rfl) ?_
      split
      · exact .silently nofun
      · split
        · split
          · refine .record_bind (Or.inl rfl) ?_
            exact ih DmaCommand.enable
          · exact .pure rfl
        · exact ih 0x00

/-- The first region is given back, and the second one if that succeeds. -/
theorem freeDma_events (prdFrames dmaFrames : PhysFrameRange) (m : Machine) :
    ∃ rest, (freeDma prdFrames dmaFrames m).events = .free .dma dmaFrames :: rest ∧
      (∀ action ∈ rest, ∃ memory frames, action = .free memory frames) ∧
      ∀ m', (freeDma prdFrames dmaFrames m).result = .ok m' → rest = [.free .prd prdFrames] := by
  unfold freeDma
  cases m.free dmaFrames with
  | error stop => exact ⟨[], rfl, nofun, nofun⟩
  | ok m₁ =>
    refine ⟨[.free .prd prdFrames], rfl, ?_, fun _ _ => rfl⟩
    intro action hMem
    exact ⟨.prd, prdFrames, List.mem_singleton.mp hMem⟩

theorem freedStopped_of_harmless
    (h : ∀ action ∈ actions, ∀ memory frames, action ≠ .free memory frames) :
    FreedStopped actions := by
  intro before memory frames after hSplit
  have hMem : .free memory frames ∈ actions := by simp [hSplit]
  exact absurd rfl (h _ hMem memory frames)

/-- Memory that is given back at the end is given back in the state before. -/
theorem freedStopped_append_iff {frees : List DmaAction}
    (h : ∀ action ∈ actions, ∀ memory frames, action ≠ .free memory frames) (hNonempty : frees ≠ [])
    (hFrees : ∀ action ∈ frees, ∃ memory frames, action = .free memory frames) :
    FreedStopped (actions ++ frees) ↔
      ∃ value, lastCommand actions = some value ∧ value &&& DmaCommand.enable = 0 := by
  have hSilent : ∀ part, (∀ action ∈ part, ∃ memory frames, action = .free memory frames) →
      lastCommand part = none := by
    intro part hPart
    induction part with
    | nil => rfl
    | cons action rest ih =>
      obtain ⟨memory, frames, rfl⟩ := hPart action List.mem_cons_self
      exact ih fun other hMem => hPart other (List.mem_cons_of_mem _ hMem)
  constructor
  · intro hStopped
    obtain ⟨first, rest, rfl⟩ := List.exists_cons_of_ne_nil hNonempty
    obtain ⟨memory, frames, rfl⟩ := hFrees first List.mem_cons_self
    exact hStopped actions memory frames rest rfl
  · rintro ⟨value, hLast, hStops⟩ before memory frames after hSplit
    obtain ⟨part, rfl, hPart⟩ | ⟨part, rfl, hPart⟩ := List.append_eq_append_iff.mp hSplit
    · have hPartFrees : ∀ action ∈ part, ∃ memory frames, action = .free memory frames :=
        fun action hMem => hFrees action (hPart ▸ List.mem_append_left _ hMem)
      rw [lastCommand_append, hSilent part hPartFrees]
      exact ⟨value, hLast, hStops⟩
    · cases part with
      | nil =>
        rw [List.append_nil] at hLast
        exact ⟨value, hLast, hStops⟩
      | cons action rest => grind

/-- An iteration of the loop neither panics nor ends it. -/
def Continues (seen : Bool × Nat) : Prop :=
  seen.1 = true → seen.2 &&& unknownDmaStatus = 0 ∧
    (seen.2 &&& DmaStatus.interrupt = DmaStatus.interrupt →
      seen.2 &&& DmaStatus.busMasterActive = DmaStatus.busMasterActive)

/-- An interrupt has been received while the bus master was active, and none
since then. -/
def StartedAgain (observed : List (Bool × Nat)) : Prop :=
  ∃ before status after, observed = before ++ (true, status) :: after ∧
    (∀ seen ∈ before, Continues seen) ∧ status &&& unknownDmaStatus = 0 ∧
    status &&& DmaStatus.interrupt = DmaStatus.interrupt ∧
    status &&& DmaStatus.busMasterActive = DmaStatus.busMasterActive ∧
    ∀ seen ∈ after, seen.1 = false

/-- The time is over while the bus master runs: no interrupt has been received
since it was started, or started again. -/
def TimesOutActive (observed : List (Bool × Nat)) : Prop :=
  (∀ seen ∈ observed, seen.1 = false) ∨ StartedAgain observed

theorem StartedAgain.cons {seen : Bool × Nat} {rest : List (Bool × Nat)} (hFirst : Continues seen)
    (h : StartedAgain rest) : StartedAgain (seen :: rest) := by
  obtain ⟨before, status, after, rfl, hBefore, hRest⟩ := h
  exact ⟨seen :: before, status, after, rfl, List.forall_mem_cons.mpr ⟨hFirst, hBefore⟩, hRest⟩

theorem awaitDma_silent (h : ∀ seen ∈ observed, seen.1 = false) :
    awaitDma command observed = .ok (false, command) := by
  induction observed with
  | nil => rfl
  | cons seen rest ih =>
    obtain ⟨received, status⟩ := seen
    obtain rfl : received = false := h _ List.mem_cons_self
    exact ih fun other hMem => h other (List.mem_cons_of_mem _ hMem)

theorem awaitDma_continues {before : List (Bool × Nat)} (rest : List (Bool × Nat))
    (h : ∀ seen ∈ before, Continues seen) :
    ∃ later, awaitDma command (before ++ rest) = awaitDma later rest := by
  induction before generalizing command with
  | nil => exact ⟨command, rfl⟩
  | cons seen before ih =>
    obtain ⟨received, status⟩ := seen
    have hBefore : ∀ command, ∃ later, awaitDma command (before ++ rest) = awaitDma later rest :=
      fun command => ih fun other hMem => h other (List.mem_cons_of_mem _ hMem)
    rw [List.cons_append, awaitDma]
    cases received with
    | false => exact hBefore command
    | true =>
      obtain ⟨hKnown, hActive⟩ := h _ List.mem_cons_self rfl
      rw [if_neg (by decide), if_neg (fun hUnknown => hUnknown hKnown)]
      split
      · rename_i hInterrupt
        rw [if_pos (hActive hInterrupt)]
        exact hBefore _
      · exact hBefore _

theorem awaitDma_command {finished : Bool} (h : awaitDma command observed = .ok (finished, last)) :
    last = 0x00 ∨ (finished = false ∧ (last = command ∨ last = DmaCommand.enable)) := by
  induction observed generalizing command with
  | nil =>
    obtain ⟨rfl, rfl⟩ := Prod.mk.inj (Except.ok.inj h)
    exact Or.inr ⟨rfl, Or.inl rfl⟩
  | cons seen rest ih =>
    obtain ⟨received, status⟩ := seen
    rw [awaitDma] at h
    split at h
    · exact ih h
    · grind

/-- If the loop ends with the bus master running, that was so from the start,
or it was started again and no interrupt was received since. -/
theorem awaitDma_active (h : awaitDma command observed = .ok (false, DmaCommand.enable)) :
    (command = DmaCommand.enable ∧ ∀ seen ∈ observed, seen.1 = false) ∨ StartedAgain observed := by
  induction observed generalizing command with
  | nil =>
    obtain ⟨-, rfl⟩ := Prod.mk.inj (Except.ok.inj h)
    exact Or.inl ⟨rfl, nofun⟩
  | cons seen rest ih =>
    obtain ⟨received, status⟩ := seen
    rw [awaitDma] at h
    split at h
    · rename_i hSilent
      obtain rfl : received = false := by simpa using hSilent
      obtain ⟨hCommand, hRest⟩ | hRest := ih h
      · exact Or.inl ⟨hCommand, List.forall_mem_cons.mpr ⟨rfl, hRest⟩⟩
      · exact Or.inr (hRest.cons nofun)
    · rename_i hReceived
      obtain rfl : received = true := by simpa using hReceived
      obtain ⟨hKnown, h⟩ := ite_error_ok h
      have hKnown : status &&& unknownDmaStatus = 0 := Decidable.not_not.mp hKnown
      split at h
      · rename_i hInterrupt
        split at h
        · rename_i hActive
          obtain ⟨-, hRest⟩ | hRest := ih h
          · exact Or.inr ⟨[], status, rest, rfl, nofun, hKnown, hInterrupt, hActive, hRest⟩
          · exact Or.inr (hRest.cons fun _ => ⟨hKnown, fun _ => hActive⟩)
        · cases h
      · rename_i hNone
        obtain ⟨hCommand, -⟩ | hRest := ih h
        · cases hCommand
        · exact Or.inr (hRest.cons fun _ => ⟨hKnown, fun hInterrupt => absurd hInterrupt hNone⟩)

/-- The loop leaves the bus master running if and only if the time is over then. -/
theorem awaitDma_active_iff (observed : List (Bool × Nat)) :
    awaitDma DmaCommand.enable observed = .ok (false, DmaCommand.enable) ↔
      TimesOutActive observed := by
  constructor
  · intro h
    exact (awaitDma_active h).imp_left And.right
  · rintro (hSilent | ⟨before, status, after, rfl, hBefore, hKnown, hInterrupt, hActive, hAfter⟩)
    · exact awaitDma_silent hSilent
    · obtain ⟨later, hLater⟩ := awaitDma_continues ((true, status) :: after) hBefore
      rw [hLater, awaitDma, if_neg (by decide), if_neg (fun hUnknown => hUnknown hKnown),
        if_pos hInterrupt, if_pos hActive]
      exact awaitDma_silent hAfter

section

variable {course : DmaCourse} {mode : TransferMode} {count : Nat} {buffer : List UInt8}
  {start : DmaStart}

theorem finishDma_refused (hReady : start.ready = false) :
    (finishDma course mode count buffer start).events =
        (freeDma start.prdFrames start.dmaFrames start.machine).events ∧
      ∀ r, (finishDma course mode count buffer start).result = .ok r →
        ∃ m', (freeDma start.prdFrames start.dmaFrames start.machine).result = .ok m' := by
  unfold finishDma
  rw [hReady, if_pos (by decide)]
  refine ⟨bind_events_of_silent _ fun _ => rfl, ?_⟩
  intro r hOk
  rw [bind_result] at hOk
  obtain ⟨m', hFree, -⟩ := bind_ok hOk
  exact ⟨m', hFree⟩

/-- After the loop has panicked, nothing is given back. -/
theorem finishDma_panicked {stop : Panic} (hReady : start.ready = true)
    (hPoll : awaitDma DmaCommand.enable course.observed = .error stop) :
    (finishDma course mode count buffer start).events =
        .command DmaCommand.enable :: (pollDma DmaCommand.enable course.observed).events ∧
      (finishDma course mode count buffer start).result = .error stop := by
  rw [← pollDma_result] at hPoll
  unfold finishDma
  rw [hReady, if_neg (by decide), record_bind_events, record_bind_result,
    (bind_of_error hPoll _).1, (bind_of_error hPoll _).2]
  exact ⟨rfl, rfl⟩

/-- After the loop, both regions are given back on either path. -/
theorem finishDma_polled {finished : Bool} (hReady : start.ready = true)
    (hPoll : awaitDma DmaCommand.enable course.observed = .ok (finished, last)) :
    (finishDma course mode count buffer start).events =
        .command DmaCommand.enable :: (pollDma DmaCommand.enable course.observed).events ++
          (freeDma start.prdFrames start.dmaFrames start.machine).events ∧
      ∀ r, (finishDma course mode count buffer start).result = .ok r →
        ∃ m', (freeDma start.prdFrames start.dmaFrames start.machine).result = .ok m' := by
  rw [← pollDma_result] at hPoll
  unfold finishDma
  rw [hReady, if_neg (by decide), record_bind_events, record_bind_result,
    (bind_of_ok hPoll _).1, (bind_of_ok hPoll _).2]
  dsimp only
  split
  all_goals
    refine ⟨congrArg _ (congrArg _ (bind_events_of_silent _ fun _ => rfl)), ?_⟩
    intro r hOk
    rw [bind_result] at hOk
    obtain ⟨m', hFree, -⟩ := bind_ok hOk
    exact ⟨m', hFree⟩

end

section

variable {profile : BuildProfile} {kernel : Paging} {bus : Bus} {info : DriveInfo}
  {mode : TransferMode} {sector count : Nat} {buffer : List UInt8} {channel : IdeChannel}
  {m : Machine}

variable {commands : List DmaAction}

/-- A transfer that has been started is given back once, if it returns. -/
theorem freedOnce_of_start (hCommands : ∀ action ∈ commands, action.Switches) :
    FreedOnce (startActions prdFrames dmaFrames mode pages ++ commands ++
      [.free .dma dmaFrames, .free .prd prdFrames]) := by
  have hNone : ∀ memory, commands.filterMap (DmaAction.allocated memory) = [] ∧
      commands.filterMap (DmaAction.freed memory) = [] := by
    intro memory
    rw [List.filterMap_eq_nil_iff, List.filterMap_eq_nil_iff]
    refine ⟨?_, ?_⟩
    all_goals
      intro action hMem
      obtain rfl | rfl := hCommands action hMem <;> rfl
  intro memory
  rw [List.filterMap_append, List.filterMap_append, List.filterMap_append, List.filterMap_append,
    (hNone memory).1, (hNone memory).2]
  cases memory with
  | prd => exact ⟨prdFrames, rfl, rfl⟩
  | dma => exact ⟨dmaFrames, rfl, rfl⟩

/-- Neither the start of a transfer nor the loop gives memory back. -/
theorem not_free_of_start (hCommands : ∀ action ∈ commands, action.Switches) :
    ∀ action ∈ startActions prdFrames dmaFrames mode pages ++ commands,
      ∀ memory frames, action ≠ .free memory frames := by
  rintro action hMem memory frames rfl
  obtain hStart | hCommand := List.mem_append.mp hMem
  · simp [startActions] at hStart
  · obtain hValue | hValue := hCommands _ hCommand <;> cases hValue

def Answered (profile : BuildProfile) (kernel : Paging) (bus : Bus) (info : DriveInfo)
    (mode : TransferMode) (sector count : Nat) (channel : IdeChannel) (m : Machine) : Prop :=
  ∃ start, (startDma profile kernel bus info mode sector count channel m).result = .ok start ∧
    start.ready = true

/-- Memory that is given back after the start and the loop. -/
theorem freed_after_commands (machine : Machine) (hCommands : ∀ action ∈ commands, action.Switches)
    (hLast : lastCommand (startActions prdFrames dmaFrames mode pages ++ commands) = some last) :
    (FreedStopped (startActions prdFrames dmaFrames mode pages ++ commands ++
        (freeDma prdFrames dmaFrames machine).events) ↔ last &&& DmaCommand.enable = 0) ∧
      ∀ m', (freeDma prdFrames dmaFrames machine).result = .ok m' →
        FreedOnce (startActions prdFrames dmaFrames mode pages ++ commands ++
          (freeDma prdFrames dmaFrames machine).events) := by
  obtain ⟨rest, hEvents, hRest, hReturns⟩ := freeDma_events prdFrames dmaFrames machine
  have hFrees : ∀ action ∈ DmaAction.free .dma dmaFrames :: rest, ∃ memory frames,
      action = .free memory frames := List.forall_mem_cons.mpr ⟨⟨_, _, rfl⟩, hRest⟩
  rw [hEvents]
  constructor
  · rw [freedStopped_append_iff (not_free_of_start hCommands) (List.cons_ne_nil _ _) hFrees, hLast]
    simp
  · intro m' hOk
    rw [hReturns m' hOk]
    exact freedOnce_of_start hCommands

/-- In every run, both regions are given back exactly once if it returns, and
never while the bus master runs, if and only if the time is not over with the
bus master running after the drive has answered. -/
theorem dma_memory_freed_stopped_iff (profile : BuildProfile) (kernel : Paging) (bus : Bus)
    (info : DriveInfo) (mode : TransferMode) (sector count : Nat) (buffer : List UInt8)
    (channel : IdeChannel) (m : Machine) :
    (FreedStopped (performAtaDmaRecorded profile kernel bus info mode sector count buffer channel
        m).events ∧
      ∀ r, (performAtaDmaRecorded profile kernel bus info mode sector count buffer channel
          m).result = .ok r →
        FreedOnce (performAtaDmaRecorded profile kernel bus info mode sector count buffer channel
          m).events) ↔
    (Answered profile kernel bus info mode sector count channel m →
      ¬ TimesOutActive (bus.courses channel.transfers).observed) := by
  have hHolds := @startDma_holds profile kernel bus info mode sector count channel m
  unfold performAtaDmaRecorded Answered
  cases hStart : (startDma profile kernel bus info mode sector count channel m).result with
  | error stop =>
    rw [(bind_of_error hStart _).1, (bind_of_error hStart _).2]
    refine iff_of_true ⟨freedStopped_of_harmless ?_, nofun⟩ nofun
    rintro action hMem memory frames rfl
    exact hHolds.every _ hMem
  | ok start =>
    obtain ⟨-, -, hEvents⟩ := hHolds.post start hStart
    rw [(bind_of_ok hStart _).1, (bind_of_ok hStart _).2, hEvents]
    cases hReady : start.ready with
    | false =>
      obtain ⟨hFree, hReturns⟩ := finishDma_refused hReady
      have hNone : ∀ action ∈ ([] : List DmaAction), action.Switches := nofun
      have hLast : lastCommand (startActions start.prdFrames start.dmaFrames mode
          (pagesFor (count * info.sectorSize)) ++ []) =
          some (if mode = .read then 0x00 else DmaCommand.direction) := rfl
      obtain ⟨hStopped, hOnce⟩ := freed_after_commands start.machine hNone hLast
      rw [List.append_nil] at hStopped hOnce
      rw [hFree]
      refine iff_of_true ⟨hStopped.mpr ?_, ?_⟩ ?_
      · split <;> rfl
      · intro r hOk
        obtain ⟨m', hOk⟩ := hReturns r hOk
        exact hOnce m' hOk
      · grind
    | true =>
      have hAnswered : ∃ start', Except.ok start = (.ok start' : Except Panic DmaStart) ∧
          start'.ready = true := ⟨start, rfl, hReady⟩
      rw [← awaitDma_active_iff]
      have hPoll := pollDma_holds DmaCommand.enable (bus.courses channel.transfers).observed
      have hCommands : ∀ action ∈ DmaAction.command DmaCommand.enable ::
          (pollDma DmaCommand.enable (bus.courses channel.transfers).observed).events,
          action.Switches :=
        List.forall_mem_cons.mpr ⟨Or.inl rfl, hPoll.every⟩
      cases hAwait : awaitDma DmaCommand.enable (bus.courses channel.transfers).observed with
      | error stop =>
        obtain ⟨hFinish, hStop⟩ := finishDma_panicked hReady hAwait
        rw [hFinish, hStop]
        exact iff_of_true ⟨freedStopped_of_harmless (not_free_of_start hCommands), nofun⟩ nofun
      | ok polled =>
        obtain ⟨finished, last⟩ := polled
        obtain ⟨hFinish, hReturns⟩ := finishDma_polled hReady hAwait
        have hLast : lastCommand (startActions start.prdFrames start.dmaFrames mode
            (pagesFor (count * info.sectorSize)) ++ .command DmaCommand.enable ::
            (pollDma DmaCommand.enable (bus.courses channel.transfers).observed).events) =
            some last := by
          rw [lastCommand_append, hPoll.post _ ((pollDma_result _ _).trans hAwait)]
          rfl
        obtain ⟨hStopped, hOnce⟩ := freed_after_commands start.machine hCommands hLast
        rw [hFinish, ← List.append_assoc, hStopped]
        constructor
        · rintro ⟨hZero, -⟩ - hRuns
          obtain ⟨-, rfl⟩ := Prod.mk.inj (Except.ok.inj hRuns)
          cases hZero
        · intro hNot
          refine ⟨?_, ?_⟩
          · obtain rfl | ⟨rfl, hEnable⟩ := awaitDma_command hAwait
            · rfl
            · obtain rfl : last = DmaCommand.enable := hEnable.elim id id
              exact absurd rfl (hNot hAnswered)
          · intro r hOk
            obtain ⟨m', hOk⟩ := hReturns r hOk
            exact hOnce m' hOk

/-- One sector is transferred with the page tables that `Paging::new` builds in a
machine, over drives that are always ready but never raise an interrupt. -/
def singleTransfer (mode : TransferMode) (m : Machine) : Except Panic (List DmaAction) := do
  let (kernel, m) ← Paging.new m 4
  return (performAtaDmaRecorded .development kernel (.readyBut [] fun _ => 0) (.large 512) mode 0 1
    (List.replicate 512 0) .fresh m).events

/-- Without an interrupt, the bus master runs when its memory is given back. -/
theorem dma_memory_freed_running : ∃ actions,
    singleTransfer .read Memory.smallMachine = .ok actions ∧ ¬ FreedStopped actions := by
  have hRun : ((singleTransfer .read Memory.smallMachine).map id).toOption =
      some (startActions ⟨2, 3⟩ ⟨3, 4⟩ .read 1 ++
        [.command 0x01, .free .dma ⟨3, 4⟩, .free .prd ⟨2, 3⟩]) := by decide +kernel
  obtain ⟨actions, hOk, rfl⟩ := exists_ok_of_toOption hRun
  refine ⟨_, hOk, fun hStopped => ?_⟩
  obtain ⟨value, hLast, hZero⟩ := hStopped (startActions ⟨2, 3⟩ ⟨3, 4⟩ .read 1 ++ [.command 0x01])
    .dma ⟨3, 4⟩ [.free .prd ⟨2, 3⟩] rfl
  obtain rfl : 0x01 = value := Option.some.inj hLast
  cases hZero

end

def DmaAction.table : DmaAction → Option (List PrdEntry)
  | .fill table => some table
  | _ => none

def DmaAction.tableAddress : DmaAction → Option Nat
  | .address value => some value
  | _ => none

/-- What the bus master has been told when a command is written: where the
table lies, the pages of the buffer in their order, of which the last one ends
the transfer, enough bytes, and the direction that was chosen. -/
structure Programmed (prdFrames dmaFrames : PhysFrameRange) (mode : TransferMode) (size : Nat)
    (table : List PrdEntry) (before : List DmaAction) (command : Nat) : Prop where
  address : (before.filterMap DmaAction.tableAddress).getLast? = some (PAGE_SIZE * prdFrames.start)
  filled : (before.filterMap DmaAction.table).getLast? = some table
  pages : table.map PrdEntry.baseAddress =
    (List.range' dmaFrames.start (dmaFrames.stop - dmaFrames.start)).map (PAGE_SIZE * ·)
  bytes : size ≤ (table.map PrdEntry.byteCount).sum
  ending : table.map PrdEntry.endOfTransmission = List.replicate (table.length - 1) false ++ [true]
  direction : command &&& DmaCommand.direction =
    if mode = .read then 0x00 else DmaCommand.direction

/-- Whenever the bus master is started, it has been told the request. -/
def ProgrammedWhenStarted (mode : TransferMode) (size : Nat) (actions : List DmaAction) : Prop :=
  ∀ before command after, actions = before ++ .command command :: after →
    command &&& DmaCommand.enable ≠ 0 → ∃ prdFrames dmaFrames table,
      before.filterMap (DmaAction.allocated .prd) = [prdFrames] ∧
      before.filterMap (DmaAction.allocated .dma) = [dmaFrames] ∧
      Programmed prdFrames dmaFrames mode size table before command

def BelowFourGiB (prdFrames dmaFrames : PhysFrameRange) : Prop :=
  PAGE_SIZE * prdFrames.start < 2 ^ 32 ∧ PAGE_SIZE * dmaFrames.stop ≤ 2 ^ 32

theorem fillPrd_length (base last : Nat) : (fillPrd base last).length = last + 1 := by
  simp [fillPrd]

theorem fillPrd_ending (base last : Nat) :
    (fillPrd base last).map PrdEntry.endOfTransmission = List.replicate last false ++ [true] := by
  simp [fillPrd, Function.comp_def]

theorem fillPrd_bytes (base last : Nat) :
    ((fillPrd base last).map PrdEntry.byteCount).sum = (last + 1) * PAGE_SIZE := by
  simp [fillPrd, Function.comp_def, Nat.add_mul]

theorem fillPrd_addresses (base last : Nat) :
    (fillPrd base last).map PrdEntry.baseAddress =
      (List.range (last + 1)).map fun i => (base + i * PAGE_SIZE) % 2 ^ 32 := by
  simp [fillPrd, Function.comp_def, List.range_succ]

/-- No bit of an address is lost if and only if the last page ends at 4 GiB or
before. -/
theorem fillPrd_pages_iff (start last : Nat) :
    (fillPrd (PAGE_SIZE * start) last).map PrdEntry.baseAddress =
        (List.range' start (last + 1)).map (PAGE_SIZE * ·) ↔
      PAGE_SIZE * (start + (last + 1)) ≤ 2 ^ 32 := by
  rw [fillPrd_addresses, List.range'_eq_map_range, List.map_map, List.map_inj_left]
  simp only [List.mem_range, Function.comp_apply, PAGE_SIZE]
  constructor
  · intro h
    have hLast := h last (Nat.lt_succ_self last)
    omega
  · intro hBelow i hi
    rw [Nat.mod_eq_of_lt (by omega)]
    omega

/-- The pages hold the bytes. -/
theorem le_pagesFor_mul (size : Nat) : size ≤ pagesFor size * PAGE_SIZE := by
  unfold pagesFor PAGE_SIZE
  split <;> omega

/-- After the start, the bus master is started and stopped, and memory is given
back. -/
def DmaAction.Later (action : DmaAction) : Prop :=
  action.Switches ∨ ∃ memory frames, action = .free memory frames

theorem DmaAction.Later.filterMap_eq {β : Type} {select : DmaAction → Option β}
    (h : ∀ action ∈ actions, action.Later) (hCommand : ∀ value, select (.command value) = none)
    (hFree : ∀ memory frames, select (.free memory frames) = none) :
    actions.filterMap select = [] := by
  rw [List.filterMap_eq_nil_iff]
  intro action hMem
  obtain (rfl | rfl) | ⟨memory, frames, rfl⟩ := h action hMem
  · exact hCommand _
  · exact hCommand _
  · exact hFree memory frames

section

variable {prdFrames dmaFrames : PhysFrameRange} {mode : TransferMode} {pages size : Nat}
  {table : List PrdEntry} {rest : List DmaAction}

/-- A run that is started is started after the first part. -/
theorem startActions_split {before after : List DmaAction}
    (hSplit : startActions prdFrames dmaFrames mode pages ++ rest = before ++ .command command :: after)
    (hEnable : command &&& DmaCommand.enable ≠ 0) :
    ∃ middle, before = startActions prdFrames dmaFrames mode pages ++ middle ∧
      rest = middle ++ .command command :: after := by
  obtain ⟨middle, hBefore, hRest⟩ | ⟨middle, hStart, hAfter⟩ := List.append_eq_append_iff.mp hSplit
  · exact ⟨middle, hBefore, hRest⟩
  · cases middle with
    | nil => exact ⟨[], by rw [hStart, List.append_nil, List.append_nil], hAfter.symm⟩
    | cons action actions =>
      obtain ⟨rfl, -⟩ := List.cons.inj hAfter
      have hMem : .command command ∈ startActions prdFrames dmaFrames mode pages := by
        simp [hStart]
      have hCommand : command = if mode = .read then 0x00 else DmaCommand.direction := by
        simpa [startActions] using hMem
      rw [hCommand] at hEnable
      split at hEnable <;> exact absurd rfl hEnable

/-- The first part programs the bus master for a read in the low memory. -/
theorem programmed_start_iff (hLater : ∀ action ∈ rest, action.Later) (hPages : 0 < pages)
    (hStop : dmaFrames.stop = dmaFrames.start + pages) (hSize : size ≤ pages * PAGE_SIZE) :
    (∃ table, Programmed prdFrames dmaFrames mode size table
        (startActions prdFrames dmaFrames mode pages ++ rest) DmaCommand.enable) ↔
      mode = .read ∧ BelowFourGiB prdFrames dmaFrames := by
  have hAddress : ((startActions prdFrames dmaFrames mode pages ++ rest).filterMap
      DmaAction.tableAddress) = [PAGE_SIZE * prdFrames.start % 2 ^ 32] := by
    rw [List.filterMap_append, DmaAction.Later.filterMap_eq hLater (fun _ => rfl) fun _ _ => rfl]
    rfl
  have hTable : ((startActions prdFrames dmaFrames mode pages ++ rest).filterMap
      DmaAction.table) = [fillPrd (PAGE_SIZE * dmaFrames.start) (pages - 1)] := by
    rw [List.filterMap_append, DmaAction.Later.filterMap_eq hLater (fun _ => rfl) fun _ _ => rfl]
    rfl
  have hCount : dmaFrames.stop - dmaFrames.start = pages - 1 + 1 := by omega
  have hLast : dmaFrames.start + (pages - 1 + 1) = dmaFrames.stop := by omega
  constructor
  · rintro ⟨table, hProgrammed⟩
    have hFirst := hProgrammed.address
    have hFilled := hProgrammed.filled
    rw [hAddress] at hFirst
    rw [hTable] at hFilled
    obtain rfl : fillPrd (PAGE_SIZE * dmaFrames.start) (pages - 1) = table := Option.some.inj hFilled
    have hBelow := hProgrammed.pages
    rw [hCount, fillPrd_pages_iff, hLast] at hBelow
    refine ⟨?_, ?_, hBelow⟩
    · by_contra hWrite
      have hDirection := hProgrammed.direction
      rw [if_neg hWrite] at hDirection
      cases hDirection
    · grind
  · rintro ⟨rfl, hPrd, hDma⟩
    refine ⟨fillPrd (PAGE_SIZE * dmaFrames.start) (pages - 1), ?_, ?_, ?_, ?_, ?_, rfl⟩
    · rw [hAddress, Nat.mod_eq_of_lt hPrd]
      rfl
    · rw [hTable]
      rfl
    · rw [hCount, fillPrd_pages_iff, hLast]
      exact hDma
    · rw [fillPrd_bytes, Nat.sub_add_cancel hPages]
      exact hSize
    · rw [fillPrd_ending, fillPrd_length, Nat.add_sub_cancel]

/-- A transfer that is started has been programmed if and only if it reads into
the low memory. -/
theorem programmedWhenStarted_iff (hLater : ∀ action ∈ rest, action.Later) (hPages : 0 < pages)
    (hStop : dmaFrames.stop = dmaFrames.start + pages) (hSize : size ≤ pages * PAGE_SIZE) :
    ProgrammedWhenStarted mode size (startActions prdFrames dmaFrames mode pages ++
        .command DmaCommand.enable :: rest) ↔
      mode = .read ∧ BelowFourGiB prdFrames dmaFrames := by
  have hAllocated : ∀ middle : List DmaAction, (∀ action ∈ middle, action.Later) →
      (startActions prdFrames dmaFrames mode pages ++ middle).filterMap
          (DmaAction.allocated .prd) = [prdFrames] ∧
        (startActions prdFrames dmaFrames mode pages ++ middle).filterMap
          (DmaAction.allocated .dma) = [dmaFrames] := by
    intro middle hMiddle
    rw [List.filterMap_append, List.filterMap_append,
      DmaAction.Later.filterMap_eq hMiddle (fun _ => rfl) fun _ _ => rfl,
      DmaAction.Later.filterMap_eq hMiddle (fun _ => rfl) fun _ _ => rfl]
    exact ⟨rfl, rfl⟩
  constructor
  · intro h
    obtain ⟨prdFrames', dmaFrames', table, hPrd, hDma, hProgrammed⟩ :=
      h (startActions prdFrames dmaFrames mode pages) _ rest rfl (by decide)
    obtain rfl : prdFrames = prdFrames' := List.singleton_inj.mp hPrd
    obtain rfl : dmaFrames = dmaFrames' := List.singleton_inj.mp hDma
    have hNone : ∀ action ∈ ([] : List DmaAction), action.Later := nofun
    apply (programmed_start_iff hNone hPages hStop hSize).mp
    exact ⟨table, (List.append_nil _).symm ▸ hProgrammed⟩
  · intro hCondition before command after hSplit hEnable
    obtain ⟨middle, rfl, hRest⟩ := startActions_split hSplit hEnable
    have hAll : ∀ action ∈ middle ++ .command command :: after, action.Later := by
      rw [← hRest]
      exact List.forall_mem_cons.mpr ⟨Or.inl (Or.inl rfl), hLater⟩
    have hMiddle : ∀ action ∈ middle, action.Later :=
      fun action hMem => hAll action (List.mem_append_left _ hMem)
    obtain rfl : command = DmaCommand.enable := by
      obtain (hValue | hValue) | ⟨memory, frames, hValue⟩ := hAll (.command command) (by simp)
      · exact DmaAction.command.inj hValue
      · rw [DmaAction.command.inj hValue] at hEnable
        exact absurd rfl hEnable
      · cases hValue
    obtain ⟨table, hProgrammed⟩ := (programmed_start_iff hMiddle hPages hStop hSize).mpr hCondition
    obtain ⟨hPrd, hDma⟩ := hAllocated middle hMiddle
    exact ⟨prdFrames, dmaFrames, table, hPrd, hDma, hProgrammed⟩

end

/-- Once the drive has answered, the bus master is started, and then only
switched before the memory is given back. -/
theorem finishDma_answered {course : DmaCourse} {count : Nat} {buffer : List UInt8}
    {start : DmaStart} (hReady : start.ready = true) :
    ∃ rest, (finishDma course mode count buffer start).events = .command DmaCommand.enable :: rest ∧
      ∀ action ∈ rest, action.Later := by
  have hPoll := (pollDma_holds DmaCommand.enable course.observed).every
  cases hAwait : awaitDma DmaCommand.enable course.observed with
  | error stop =>
    exact ⟨_, (finishDma_panicked hReady hAwait).1, fun action hMem => Or.inl (hPoll action hMem)⟩
  | ok polled =>
    refine ⟨_, (finishDma_polled hReady hAwait).1, fun action hMem => ?_⟩
    obtain ⟨frees, hFree, hFrees, -⟩ := freeDma_events start.prdFrames start.dmaFrames start.machine
    rw [hFree] at hMem
    obtain hPolled | hGiven := List.mem_append.mp hMem
    · exact Or.inl (hPoll action hPolled)
    · exact Or.inr (List.forall_mem_cons.mpr ⟨⟨_, _, rfl⟩, hFrees⟩ action hGiven)

theorem programmedWhenStarted_of_stopped {size : Nat}
    (h : ∀ command, .command command ∈ actions → command &&& DmaCommand.enable = 0) :
    ProgrammedWhenStarted mode size actions := by
  rintro before command after rfl hEnable
  exact absurd (h command (by simp)) hEnable

theorem dmaRegions_ok {allocator : Frames.Allocator}
    (h : dmaRegions allocator pages = .ok (prdFrames, dmaFrames)) :
    dmaFrames.stop = dmaFrames.start + pages := by
  obtain ⟨⟨prd, later⟩, -, h⟩ := bind_ok h
  obtain ⟨⟨dma, last⟩, hDma, h⟩ := bind_ok h
  obtain ⟨-, rfl⟩ := Prod.mk.inj (pure_ok h)
  exact Frames.alloc_stop hDma

/-- In every run, the bus master is only started with the request it was made
for, if and only if the request is a read and the regions that the allocator has
for it lie below 4 GiB, or the bus master is not started at all. Starting it
clears the direction of a write, and the addresses are cut to 32 bits. -/
theorem dma_programmed_iff (profile : BuildProfile) (kernel : Paging) (bus : Bus)
    (info : DriveInfo) (mode : TransferMode) (sector count : Nat) (buffer : List UInt8)
    (channel : IdeChannel) (m : Machine) :
    ProgrammedWhenStarted mode (count * info.sectorSize)
        (performAtaDmaRecorded profile kernel bus info mode sector count buffer channel m).events ↔
      (Answered profile kernel bus info mode sector count channel m → mode = .read ∧
        ∀ prdFrames dmaFrames, dmaRegions m.frames (pagesFor (count * info.sectorSize)) =
          .ok (prdFrames, dmaFrames) → BelowFourGiB prdFrames dmaFrames) := by
  have hHolds := @startDma_holds profile kernel bus info mode sector count channel m
  unfold performAtaDmaRecorded Answered
  cases hStart : (startDma profile kernel bus info mode sector count channel m).result with
  | error stop =>
    rw [(bind_of_error hStart _).1]
    exact iff_of_true (programmedWhenStarted_of_stopped fun _ hMem => hHolds.every _ hMem) nofun
  | ok start =>
    obtain ⟨hPages, hRegions, hEvents⟩ := hHolds.post start hStart
    rw [(bind_of_ok hStart _).1]
    cases hReady : start.ready with
    | false =>
      obtain ⟨hFree, -⟩ := finishDma_refused hReady
      obtain ⟨frees, hGiven, hFrees, -⟩ :=
        freeDma_events start.prdFrames start.dmaFrames start.machine
      rw [hFree, hGiven]
      refine iff_of_true (programmedWhenStarted_of_stopped ?_) ?_
      · intro command hMem
        obtain hBefore | hAfter := List.mem_append.mp hMem
        · exact hHolds.every _ hBefore
        · grind
      · grind
    | true =>
      obtain ⟨rest, hFinish, hLater⟩ := finishDma_answered hReady
      rw [hEvents, hFinish, programmedWhenStarted_iff hLater hPages (dmaRegions_ok hRegions)
        (le_pagesFor_mul _)]
      constructor
      · grind
      · intro h
        obtain ⟨hRead, hBelow⟩ := h ⟨start, rfl, hReady⟩
        exact ⟨hRead, hBelow _ _ hRegions⟩

/-- The free memory of this machine starts at 4 GiB. -/
def highMachine : Machine := ⟨SparseMap.empty, ⟨[⟨2 ^ 20, 16⟩], some (2 ^ 20 + 16)⟩⟩

/-- Starting a write clears its direction, and a table above 4 GiB is
looked for below. -/
theorem dma_started_unprogrammed :
    (∃ actions, singleTransfer .write Memory.smallMachine = .ok actions ∧
      ¬ ProgrammedWhenStarted .write 512 actions) ∧
    ∃ actions, singleTransfer .read highMachine = .ok actions ∧
      ¬ ProgrammedWhenStarted .read 512 actions := by
  have hWrite : ((singleTransfer .write Memory.smallMachine).map id).toOption =
      some (startActions ⟨2, 3⟩ ⟨3, 4⟩ .write 1 ++
        [.command 0x01, .free .dma ⟨3, 4⟩, .free .prd ⟨2, 3⟩]) := by decide +kernel
  have hHigh : ((singleTransfer .read highMachine).map id).toOption =
      some (startActions ⟨2 ^ 20 + 1, 2 ^ 20 + 2⟩ ⟨2 ^ 20 + 2, 2 ^ 20 + 3⟩ .read 1 ++
        [.command 0x01, .free .dma ⟨2 ^ 20 + 2, 2 ^ 20 + 3⟩,
          .free .prd ⟨2 ^ 20 + 1, 2 ^ 20 + 2⟩]) := by decide +kernel
  obtain ⟨written, hWriteOk, rfl⟩ := exists_ok_of_toOption hWrite
  obtain ⟨read, hReadOk, rfl⟩ := exists_ok_of_toOption hHigh
  refine ⟨⟨_, hWriteOk, fun hAll => ?_⟩, ⟨_, hReadOk, fun hAll => ?_⟩⟩
  · obtain ⟨prdFrames, dmaFrames, table, -, -, hProgrammed⟩ := hAll _ _ _ rfl (by decide)
    cases hProgrammed.direction
  · obtain ⟨prdFrames, dmaFrames, table, hPrd, -, hProgrammed⟩ := hAll _ _ _ rfl (by decide)
    obtain rfl : ⟨2 ^ 20 + 1, 2 ^ 20 + 2⟩ = prdFrames := List.singleton_inj.mp hPrd
    cases hProgrammed.address

end D3OS.Device.Ide
