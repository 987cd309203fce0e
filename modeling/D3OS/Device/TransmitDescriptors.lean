import D3OS.Device.Rtl8139

/-! The steps of `consume` one by one, and the descriptors they go through: a
call programs a descriptor only while it holds the mutex and the device has
fetched the packet before. -/
namespace D3OS.Device.Rtl8139

open Outcome
open Frames (Allocator PhysFrameRange)

/-- How far a packet has come: its call has no frame yet, has one, has queued it
for deallocation, or has handed it to the device. -/
inductive Phase where
  | idle
  | allocated
  | queued
  | sent
  deriving DecidableEq

def Stage.phase : Stage → Phase
  | .checkLength | .allocate => .idle
  | .setFlags | .enqueue => .allocated
  | .fill | .nextTransmitDescriptor | .lock _ | .awaitAvailable _ | .writeAddress _
  | .writeStatus _ => .queued
  | .unlock _ | .done => .sent

/-- The descriptor whose mutex a call holds. -/
def Stage.holds : Stage → Option (Fin 4)
  | .awaitAvailable index | .writeAddress index | .writeStatus index | .unlock index => some index
  | _ => none

/-- The descriptor that a call has found available. -/
def Stage.programs : Stage → Option (Fin 4)
  | .writeAddress index | .writeStatus index => some index
  | _ => none

namespace State

def stage (s : State) (packet : Nat) : Stage := (s.calls packet).stage

def phase (s : State) (packet : Nat) : Phase := (s.stage packet).phase

def buffer (s : State) (packet : Nat) : PhysFrameRange := (s.calls packet).physBuffer

def lockedBy (s : State) (index : Fin 4) : Option Nat := (s.descriptors index).lockedBy

def transmitting (s : State) (index : Fin 4) : Option Nat := (s.descriptors index).transmitting

section Updates

variable (s : State) (packet other : Nat) (index index' : Fin 4) (stage' : Stage)
  (physBuffer : PhysFrameRange) (descriptor : TransmitDescriptor)

@[simp] theorem stage_setStage : (s.setStage packet stage').stage other =
    if other = packet then stage' else s.stage other := by
  simp only [stage, setStage, Function.update_apply]
  split <;> rfl

theorem phase_setStage : (s.setStage packet stage').phase other =
    if other = packet then stage'.phase else s.phase other := by
  simp only [phase, stage_setStage]
  split <;> rfl

@[simp] theorem buffer_setStage : (s.setStage packet stage').buffer other = s.buffer other := by
  simp only [buffer, setStage, Function.update_apply]
  split
  case isTrue hEq => rw [hEq]
  case isFalse => rfl

@[simp] theorem stage_setBuffer : (s.setBuffer packet physBuffer).stage other = s.stage other := by
  simp only [stage, setBuffer, Function.update_apply]
  split
  case isTrue hEq => rw [hEq]
  case isFalse => rfl

@[simp] theorem buffer_setBuffer : (s.setBuffer packet physBuffer).buffer other =
    if other = packet then physBuffer else s.buffer other := by
  simp only [buffer, setBuffer, Function.update_apply]
  split <;> rfl

@[simp] theorem transmitting_setDescriptor :
    (s.setDescriptor index descriptor).transmitting index' =
      if index' = index then descriptor.transmitting else s.transmitting index' := by
  simp only [transmitting, setDescriptor, Function.update_apply]
  split <;> rfl

@[simp] theorem lockedBy_setDescriptor : (s.setDescriptor index descriptor).lockedBy index' =
    if index' = index then descriptor.lockedBy else s.lockedBy index' := by
  simp only [lockedBy, setDescriptor, Function.update_apply]
  split <;> rfl

end Updates

/-- What one step of a call does. Most steps only go on to the next statement of
the same phase. -/
inductive Moves (s : State) (packet : Nat) : State → Prop where
  | wait : Moves s packet s
  | next (stage' : Stage) (transmitIndex : Nat) (hPhase : stage'.phase = s.phase packet)
      (hHolds : stage'.holds = (s.stage packet).holds)
      (hPrograms : ∀ index, stage'.programs = some index → s.transmitting index = none) :
      Moves s packet { s.setStage packet stage' with transmitIndex }
  | allocate (physBuffer : PhysFrameRange) (allocator : Allocator)
      (hStage : s.stage packet = .allocate)
      (hAlloc : Frames.alloc s.allocator 1 = .ok (physBuffer, allocator)) :
      Moves s packet (({ s with allocator }.setBuffer packet physBuffer).setStage packet .setFlags)
  | enqueue (hStage : s.stage packet = .enqueue) :
      Moves s packet { s.setStage packet .fill with
        sendQueue := s.sendQueue ++ [s.buffer packet] }
  | lock (index : Fin 4) (hStage : s.stage packet = .lock index) (hFree : s.lockedBy index = none) :
      Moves s packet ((s.setDescriptor index
        { s.descriptors index with lockedBy := some packet }).setStage packet
        (.awaitAvailable index))
  | writeAddress (index : Fin 4) (address : Nat) (hStage : s.stage packet = .writeAddress index) :
      Moves s packet ((s.setDescriptor index { s.descriptors index with address }).setStage packet
        (.writeStatus index))
  | writeStatus (index : Fin 4) (hStage : s.stage packet = .writeStatus index) :
      Moves s packet ((s.setDescriptor index
        { s.descriptors index with transmitting := some packet }).setStage packet (.unlock index))
  | unlock (index : Fin 4) (hStage : s.stage packet = .unlock index) :
      Moves s packet ((s.setDescriptor index
        { s.descriptors index with lockedBy := none }).setStage packet .done)

theorem advance_moves {s s' : State} {packet : Nat} (h : s.advance packet = .ok s') :
    Moves s packet s' := by
  unfold State.advance at h
  simp only at h
  cases hStage : (s.calls packet).stage with
  | checkLength =>
    rw [hStage] at h
    simp only at h
    obtain ⟨-, h⟩ := ite_error_ok h
    obtain rfl := Except.ok.inj h
    exact .next .allocate s.transmitIndex (by simp [phase, stage, hStage, Stage.phase])
      (by simp [stage, hStage, Stage.holds]) (by simp [Stage.programs])
  | allocate =>
    rw [hStage] at h
    obtain ⟨⟨physBuffer, allocator⟩, hAlloc, h⟩ := bind_ok h
    obtain rfl := pure_ok h
    exact .allocate physBuffer allocator hStage hAlloc
  | setFlags =>
    rw [hStage] at h
    obtain ⟨_, -, h⟩ := bind_ok h
    obtain ⟨_, -, h⟩ := bind_ok h
    obtain rfl := pure_ok h
    exact .next .enqueue s.transmitIndex (by simp [phase, stage, hStage, Stage.phase])
      (by simp [stage, hStage, Stage.holds]) (by simp [Stage.programs])
  | enqueue =>
    rw [hStage] at h
    obtain rfl := Except.ok.inj h
    exact .enqueue hStage
  | fill =>
    rw [hStage] at h
    obtain rfl := Except.ok.inj h
    exact .next .nextTransmitDescriptor s.transmitIndex
      (by simp [phase, stage, hStage, Stage.phase]) (by simp [stage, hStage, Stage.holds])
      (by simp [Stage.programs])
  | nextTransmitDescriptor =>
    rw [hStage] at h
    obtain rfl := Except.ok.inj h
    exact .next (.lock _) _ (by simp [phase, stage, hStage, Stage.phase])
      (by simp [stage, hStage, Stage.holds]) (by simp [Stage.programs])
  | lock index =>
    rw [hStage] at h
    simp only at h
    split at h
    · obtain rfl := Except.ok.inj h
      exact .wait
    case isFalse hFree =>
      obtain rfl := Except.ok.inj h
      exact .lock index hStage (by simpa [lockedBy] using hFree)
  | awaitAvailable index =>
    rw [hStage] at h
    simp only at h
    split at h
    case isTrue hAvailable =>
      obtain rfl := Except.ok.inj h
      refine .next (.writeAddress index) s.transmitIndex
        (by simp [phase, stage, hStage, Stage.phase]) (by simp [stage, hStage, Stage.holds]) ?_
      intro index' hPrograms
      obtain rfl : index = index' := by simpa [Stage.programs] using hPrograms
      simpa [TransmitDescriptor.available, transmitting] using hAvailable
    · obtain rfl := Except.ok.inj h
      exact .wait
  | writeAddress index =>
    rw [hStage] at h
    obtain rfl := Except.ok.inj h
    exact .writeAddress index _ hStage
  | writeStatus index =>
    rw [hStage] at h
    obtain rfl := Except.ok.inj h
    exact .writeStatus index hStage
  | unlock index =>
    rw [hStage] at h
    obtain rfl := Except.ok.inj h
    exact .unlock index hStage
  | done =>
    rw [hStage] at h
    obtain rfl := Except.ok.inj h
    exact .wait

/-- A call changes no other call. -/
theorem Moves.stage_of_ne {s s' : State} {packet other : Nat} (h : Moves s packet s')
    (hNe : other ≠ packet) : s'.stage other = s.stage other := by
  have hStage : ∀ (m : State) (stage' : Stage),
      (m.setStage packet stage').stage other = m.stage other := by
    intro m stage'
    rw [stage_setStage, if_neg hNe]
  cases h with
  | wait => rfl
  | next stage' transmitIndex => exact hStage s stage'
  | allocate physBuffer allocator =>
    rw [hStage, stage_setBuffer]
    rfl
  | enqueue => exact hStage s .fill
  | lock index => exact hStage _ _
  | writeAddress index => exact hStage _ _
  | writeStatus index => exact hStage _ _
  | unlock index => exact hStage _ _

/-! ### The descriptors -/

/-- The mutex of a descriptor keeps others out, and a descriptor that was found
available stays so until it is programmed. -/
structure Exclusive (s : State) : Prop where
  locked : ∀ packet index, (s.stage packet).holds = some index → s.lockedBy index = some packet
  ready : ∀ packet index, (s.stage packet).programs = some index → s.transmitting index = none

namespace Exclusive

variable {s s' : State} {packet : Nat}

theorem congr (h : s.Exclusive) (hStage : s'.stage = s.stage) (hLocked : s'.lockedBy = s.lockedBy)
    (hTransmitting : s'.transmitting = s.transmitting) : s'.Exclusive := by
  refine ⟨?_, ?_⟩
  · rw [hStage, hLocked]
    exact h.locked
  · rw [hStage, hTransmitting]
    exact h.ready

theorem setStage (h : s.Exclusive) {stage : Stage}
    (hHolds : ∀ index, stage.holds = some index → s.lockedBy index = some packet)
    (hPrograms : ∀ index, stage.programs = some index → s.transmitting index = none) :
    (s.setStage packet stage).Exclusive := by
  refine ⟨fun other index hStage => ?_, fun other index hStage => ?_⟩
  all_goals
    rw [stage_setStage] at hStage
    split at hStage
  · subst other
    exact hHolds index hStage
  · exact h.locked other index hStage
  · exact hPrograms index hStage
  · exact h.ready other index hStage

theorem setDescriptor (h : s.Exclusive) {index : Fin 4} {descriptor : TransmitDescriptor}
    (hHolds : ∀ other, (s.stage other).holds = some index → descriptor.lockedBy = some other)
    (hPrograms : ∀ other, (s.stage other).programs = some index →
      descriptor.transmitting = none) :
    (s.setDescriptor index descriptor).Exclusive := by
  refine ⟨fun other index' hStage => ?_, fun other index' hStage => ?_⟩
  · rw [lockedBy_setDescriptor]
    split
    case isTrue hEq => exact hHolds other (hEq ▸ hStage)
    case isFalse => exact h.locked other index' hStage
  · rw [transmitting_setDescriptor]
    split
    case isTrue hEq => exact hPrograms other (hEq ▸ hStage)
    case isFalse => exact h.ready other index' hStage

theorem holds_of_programs {stage : Stage} {index : Fin 4} (h : stage.programs = some index) :
    stage.holds = some index := by
  cases stage <;> simp_all [Stage.programs, Stage.holds]

/-- Only one call is past the mutex of a descriptor. -/
theorem unique (h : s.Exclusive) {other : Nat} {index : Fin 4}
    (hStage : (s.stage packet).holds = some index) (hOther : (s.stage other).holds = some index) :
    other = packet :=
  Option.some.inj ((h.locked other index hOther).symm.trans (h.locked packet index hStage))

theorem moves (h : s.Exclusive) (hMove : Moves s packet s') : s'.Exclusive := by
  cases hMove with
  | wait => exact h
  | next stage' transmitIndex hPhase hHolds hPrograms =>
    have hStage : (s.setStage packet stage').Exclusive :=
      h.setStage (fun index hIndex => h.locked packet index (hHolds ▸ hIndex)) hPrograms
    exact hStage.congr rfl rfl rfl
  | allocate physBuffer allocator hStage hAlloc =>
    have hBuffer : ({ s with allocator }.setBuffer packet physBuffer).Exclusive :=
      h.congr (by funext other; simp; rfl) rfl rfl
    exact hBuffer.setStage (by simp [Stage.holds]) (by simp [Stage.programs])
  | enqueue hStage =>
    have hFill : (s.setStage packet .fill).Exclusive :=
      h.setStage (by simp [Stage.holds]) (by simp [Stage.programs])
    exact hFill.congr rfl rfl rfl
  | lock index hStage hFree =>
    refine Exclusive.setStage (h.setDescriptor ?_ ?_) ?_ (by simp [Stage.programs])
    · intro other hHolds
      rw [h.locked other index hHolds] at hFree
      cases hFree
    · exact fun other hPrograms => h.ready other index hPrograms
    · intro index' hHolds
      obtain rfl : index = index' := by simpa [Stage.holds] using hHolds
      simp
  | writeAddress index address hStage =>
    have hReady := h.ready packet index (by simp [hStage, Stage.programs])
    have hLocked := h.locked packet index (by simp [hStage, Stage.holds])
    refine Exclusive.setStage (h.setDescriptor ?_ ?_) ?_ ?_
    · exact fun other hHolds => h.locked other index hHolds
    · exact fun other hPrograms => h.ready other index hPrograms
    · intro index' hHolds
      obtain rfl : index = index' := by simpa [Stage.holds] using hHolds
      rw [lockedBy_setDescriptor, if_pos rfl]
      exact hLocked
    · intro index' hPrograms
      obtain rfl : index = index' := by simpa [Stage.programs] using hPrograms
      rw [transmitting_setDescriptor, if_pos rfl]
      exact hReady
  | writeStatus index hStage =>
    have hHolds : (s.stage packet).holds = some index := by simp [hStage, Stage.holds]
    have hUnlock : (s.setStage packet (.unlock index)).Exclusive := by
      refine h.setStage ?_ (by simp [Stage.programs])
      intro index' hIndex
      obtain rfl : index = index' := by simpa [Stage.holds] using hIndex
      exact h.locked packet index hHolds
    -- No other call programs the descriptor while this one holds its mutex.
    refine Exclusive.setDescriptor hUnlock (fun other hOther => hUnlock.locked other index hOther) ?_
    intro other hOther
    obtain rfl : other = packet :=
      hUnlock.unique (by simp [Stage.holds]) (holds_of_programs hOther)
    simp [Stage.programs] at hOther
  | unlock index hStage =>
    have hHolds : (s.stage packet).holds = some index := by simp [hStage, Stage.holds]
    have hDone : (s.setStage packet .done).Exclusive :=
      h.setStage (by simp [Stage.holds]) (by simp [Stage.programs])
    refine Exclusive.setDescriptor hDone ?_ (fun other hOther => hDone.ready other index hOther)
    intro other hOther
    rw [stage_setStage] at hOther
    split at hOther
    · simp [Stage.holds] at hOther
    case isFalse hNe => exact absurd (h.unique hHolds hOther) hNe

theorem fetch (h : s.Exclusive) (index : Fin 4) : (s.fetch index).Exclusive := by
  unfold State.fetch
  split
  · exact h
  · have hTaken : (s.setDescriptor index
        { s.descriptors index with transmitting := none }).Exclusive :=
      h.setDescriptor (fun other hOther => h.locked other index hOther) fun _ _ => rfl
    exact hTaken.congr rfl rfl rfl

theorem complete (h : s.Exclusive) (packet : Nat) : (s.complete packet).Exclusive := by
  unfold State.complete
  split
  · exact h.congr rfl rfl rfl
  · exact h

end Exclusive

end State

end D3OS.Device.Rtl8139
