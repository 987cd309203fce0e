import D3OS.Device.TransmitDescriptors

/-! The frames of packets. A call of `consume` queues its frame for deallocation
before it fills it and hands it to the device, and one interrupt frees all
queued frames. The frames outlive their transmission exactly in those runs in
which every such interrupt finds no packet between the two. -/
namespace D3OS.Device.Rtl8139

open Outcome
open Frames (Allocator PhysFrameRange WellFormed freeFrames)

namespace State

/-! ### The phases of packets -/

/-- Two states that differ neither in the frames of packets nor in the device. -/
structure Same (s s' : State) : Prop where
  allocator : s'.allocator = s.allocator
  sendQueue : s'.sendQueue = s.sendQueue
  fifo : s'.fifo = s.fifo
  completed : s'.completed = s.completed
  transmitting : s'.transmitting = s.transmitting
  buffer : s'.buffer = s.buffer
  phase : s'.phase = s.phase

/-- A step of a call, as far as frames and the device are concerned: it takes a
packet at most one phase further. -/
inductive Effect (s : State) (packet : Nat) (s' : State) : Prop where
  | same (hSame : Same s s')
  | allocate (hPhase : s.phase packet = .idle)
      (hAlloc : Frames.alloc s.allocator 1 = .ok (s'.buffer packet, s'.allocator))
      (hBuffer : ∀ other ≠ packet, s'.buffer other = s.buffer other)
      (hAfter : s'.phase = Function.update s.phase packet .allocated)
      (hQueue : s'.sendQueue = s.sendQueue) (hTransmitting : s'.transmitting = s.transmitting)
      (hFifo : s'.fifo = s.fifo) (hCompleted : s'.completed = s.completed)
  | enqueue (hPhase : s.phase packet = .allocated)
      (hQueue : s'.sendQueue = s.sendQueue ++ [s.buffer packet])
      (hAfter : s'.phase = Function.update s.phase packet .queued)
      (hAllocator : s'.allocator = s.allocator) (hBuffer : s'.buffer = s.buffer)
      (hTransmitting : s'.transmitting = s.transmitting) (hFifo : s'.fifo = s.fifo)
      (hCompleted : s'.completed = s.completed)
  | handOver (index : Fin 4) (hPhase : s.phase packet = .queued)
      (hReady : s.transmitting index = none)
      (hTransmitting : s'.transmitting = Function.update s.transmitting index (some packet))
      (hAfter : s'.phase = Function.update s.phase packet .sent)
      (hAllocator : s'.allocator = s.allocator) (hQueue : s'.sendQueue = s.sendQueue)
      (hBuffer : s'.buffer = s.buffer) (hFifo : s'.fifo = s.fifo)
      (hCompleted : s'.completed = s.completed)

section Effects

variable {s s' : State} {packet : Nat}

theorem phase_setStage_eq (s : State) (packet : Nat) (stage' : Stage) :
    (s.setStage packet stage').phase = Function.update s.phase packet stage'.phase := by
  funext other
  rw [phase_setStage, Function.update_apply]

theorem buffer_setStage_eq (s : State) (packet : Nat) (stage' : Stage) :
    (s.setStage packet stage').buffer = s.buffer := funext fun _ => buffer_setStage ..

/-- Going on within a phase. -/
theorem same_setStage (s : State) {stage' : Stage} (hPhase : stage'.phase = s.phase packet) :
    Same s (s.setStage packet stage') := by
  refine ⟨rfl, rfl, rfl, rfl, rfl, buffer_setStage_eq .., ?_⟩
  rw [phase_setStage_eq, hPhase, Function.update_eq_self]

/-- The same with a change to a descriptor that does not concern its packet. -/
theorem same_setDescriptor (s : State) {index : Fin 4} {descriptor : TransmitDescriptor}
    {stage' : Stage} (hTransmitting : descriptor.transmitting = s.transmitting index)
    (hPhase : stage'.phase = s.phase packet) :
    Same s ((s.setDescriptor index descriptor).setStage packet stage') := by
  obtain ⟨hAllocator, hQueue, hFifo, hCompleted, -, hBuffer, hAfter⟩ := same_setStage s hPhase
  refine ⟨hAllocator, hQueue, hFifo, hCompleted, ?_, hBuffer, hAfter⟩
  funext index'
  change (s.setDescriptor index descriptor).transmitting index' = _
  rw [transmitting_setDescriptor]
  split
  case isTrue hEq => rw [hTransmitting, hEq]
  case isFalse => rfl

theorem Moves.effect (h : s.Exclusive) (hMove : Moves s packet s') : Effect s packet s' := by
  cases hMove with
  | wait => exact .same ⟨rfl, rfl, rfl, rfl, rfl, rfl, rfl⟩
  | next stage' transmitIndex hPhase hHolds hPrograms =>
    obtain ⟨hAllocator, hQueue, hFifo, hCompleted, hTransmitting, hBuffer, hAfter⟩ :=
      same_setStage s hPhase
    exact .same ⟨hAllocator, hQueue, hFifo, hCompleted, hTransmitting, hBuffer, hAfter⟩
  | allocate physBuffer allocator hStage hAlloc =>
    refine .allocate (by rw [phase, hStage]; rfl) ?_ ?_ ?_ rfl rfl rfl rfl
    · rw [buffer_setStage, buffer_setBuffer, if_pos rfl]
      exact hAlloc
    · intro other hNe
      rw [buffer_setStage, buffer_setBuffer, if_neg hNe]
      rfl
    · rw [phase_setStage_eq]
      congr 1
      funext other
      simp only [phase, stage_setBuffer]
      rfl
  | enqueue hStage =>
    exact .enqueue (by rw [phase, hStage]; rfl) rfl (phase_setStage_eq s packet .fill) rfl
      (buffer_setStage_eq ..) rfl rfl rfl
  | lock index hStage hFree =>
    exact .same (same_setDescriptor s rfl (by rw [phase, hStage]; rfl))
  | writeAddress index address hStage =>
    exact .same (same_setDescriptor s rfl (by rw [phase, hStage]; rfl))
  | writeStatus index hStage =>
    refine .handOver index (by rw [phase, hStage]; rfl)
      (h.ready packet index (by rw [hStage]; rfl)) ?_ (phase_setStage_eq ..) rfl rfl
      (buffer_setStage_eq ..) rfl rfl
    funext index'
    rw [Function.update_apply]
    exact transmitting_setDescriptor ..
  | unlock index hStage =>
    exact .same (same_setDescriptor s rfl (by rw [phase, hStage]; rfl))

end Effects

/-! ### What the device has -/

/-- The packets that the device has are those that were handed to it and are not
completed, and it has each of them once. -/
structure Tracked (s : State) : Prop where
  in_flight : ∀ packet, s.phase packet = .sent → packet ∉ s.completed →
    (∃ index, s.transmitting index = some packet) ∨ packet ∈ s.fifo
  transmitting_sent : ∀ packet index, s.transmitting index = some packet →
    s.phase packet = .sent ∧ packet ∉ s.fifo ∧ packet ∉ s.completed
  transmitting_once : ∀ packet index index', s.transmitting index = some packet →
    s.transmitting index' = some packet → index = index'
  fifo_sent : ∀ packet ∈ s.fifo, s.phase packet = .sent ∧ packet ∉ s.completed
  completed_sent : ∀ packet ∈ s.completed, s.phase packet = .sent

namespace Tracked

variable {s s' : State} {packet : Nat}

theorem congr (h : s.Tracked) (hSent : ∀ other, s'.phase other = .sent ↔ s.phase other = .sent)
    (hTransmitting : s'.transmitting = s.transmitting) (hFifo : s'.fifo = s.fifo)
    (hCompleted : s'.completed = s.completed) : s'.Tracked := by
  refine ⟨?_, ?_, ?_, ?_, ?_⟩
  all_goals simp only [hSent, hTransmitting, hFifo, hCompleted]
  · exact h.in_flight
  · exact h.transmitting_sent
  · exact h.transmitting_once
  · exact h.fifo_sent
  · exact h.completed_sent

/-- A packet that has not been handed over is unknown to the device. -/
theorem fresh (h : s.Tracked) (hPhase : s.phase packet ≠ .sent) :
    (∀ index, s.transmitting index ≠ some packet) ∧ packet ∉ s.fifo ∧ packet ∉ s.completed :=
  ⟨fun index hAt => hPhase (h.transmitting_sent packet index hAt).1,
    fun hMem => hPhase (h.fifo_sent packet hMem).1, fun hMem => hPhase (h.completed_sent packet hMem)⟩

/-- A packet is handed to the device through an available descriptor. -/
theorem handOver (h : s.Tracked) {index : Fin 4} (hPhase : s.phase packet ≠ .sent)
    (hReady : s.transmitting index = none)
    (hTransmitting : ∀ index', s'.transmitting index' =
      if index' = index then some packet else s.transmitting index')
    (hSent : ∀ other, s'.phase other = .sent ↔ other = packet ∨ s.phase other = .sent)
    (hFifo : s'.fifo = s.fifo) (hCompleted : s'.completed = s.completed) : s'.Tracked := by
  obtain ⟨hNowhere, hNotFetched, hNotDone⟩ := h.fresh hPhase
  refine ⟨?_, ?_, ?_, ?_, ?_⟩
  all_goals simp only [hSent, hTransmitting, hFifo, hCompleted]
  · rintro other (rfl | hBefore) hPending
    · exact .inl ⟨index, if_pos rfl⟩
    · refine (h.in_flight other hBefore hPending).imp_left ?_
      rintro ⟨index', hAt⟩
      refine ⟨index', ?_⟩
      rwa [if_neg]
      rintro rfl
      simp [hReady] at hAt
  · intro other index' hAt
    split at hAt
    · obtain rfl := Option.some.inj hAt
      exact ⟨.inl rfl, hNotFetched, hNotDone⟩
    · obtain ⟨hBefore, hRest⟩ := h.transmitting_sent other index' hAt
      exact ⟨.inr hBefore, hRest⟩
  · intro other first second hFirst hSecond
    split at hFirst
    case isTrue => grind
    case isFalse =>
      split at hSecond
      case isTrue =>
        obtain rfl := Option.some.inj hSecond
        exact absurd hFirst (hNowhere first)
      case isFalse => exact h.transmitting_once other first second hFirst hSecond
  · intro other hMem
    obtain ⟨hBefore, hPending⟩ := h.fifo_sent other hMem
    exact ⟨.inr hBefore, hPending⟩
  · exact fun other hMem => .inr (h.completed_sent other hMem)

theorem effect (h : s.Tracked) (hEffect : Effect s packet s') : s'.Tracked := by
  -- Up to the hand-over no packet becomes or ceases to be a sent one.
  have hUnsent : ∀ phase', s'.phase = Function.update s.phase packet phase' → phase' ≠ .sent →
      s.phase packet ≠ .sent → ∀ other, s'.phase other = .sent ↔ s.phase other = .sent := by
    intro phase' hAfter hNext hNow other
    rw [hAfter, Function.update_apply]
    split
    case isTrue hEq =>
      subst other
      exact iff_of_false hNext hNow
    case isFalse => rfl
  cases hEffect with
  | same hSame =>
    exact h.congr (fun other => by rw [hSame.phase]) hSame.transmitting hSame.fifo hSame.completed
  | allocate hPhase _ _ hAfter _ hTransmitting hFifo hCompleted =>
    exact h.congr (hUnsent _ hAfter (by simp) (by simp [hPhase])) hTransmitting hFifo hCompleted
  | enqueue hPhase _ hAfter _ _ hTransmitting hFifo hCompleted =>
    exact h.congr (hUnsent _ hAfter (by simp) (by simp [hPhase])) hTransmitting hFifo hCompleted
  | handOver index hPhase hReady hTransmitting hAfter _ _ _ hFifo hCompleted =>
    have hBefore : s.phase packet ≠ .sent := by simp [hPhase]
    refine h.handOver hBefore hReady
      (fun index' => by rw [hTransmitting, Function.update_apply]) (fun other => ?_) hFifo hCompleted
    rw [hAfter, Function.update_apply]
    split
    case isTrue hEq => exact iff_of_true rfl (.inl hEq)
    case isFalse hNe => exact (or_iff_right hNe).symm

theorem fetch (h : s.Tracked) (index : Fin 4) : (s.fetch index).Tracked := by
  unfold State.fetch
  split
  · exact h
  case h_2 packet hAt =>
    obtain ⟨hSent, hNotFetched, hPending⟩ := h.transmitting_sent packet index hAt
    -- The packet leaves the descriptor, the others stay in theirs.
    have hLeft : ∀ other index',
        (s.setDescriptor index { s.descriptors index with transmitting := none }).transmitting
          index' = some other ↔ s.transmitting index' = some other ∧ other ≠ packet := by
      intro other index'
      rw [transmitting_setDescriptor]
      split
      case isTrue hEq =>
        subst index'
        rw [show s.transmitting index = some packet from hAt]
        simp [eq_comm]
      case isFalse hNe =>
        refine (and_iff_left_of_imp fun hOther => ?_).symm
        rintro rfl
        exact hNe (h.transmitting_once other index' index hOther hAt)
    refine ⟨fun other hOther hOpen => ?_, fun other index' hOther => ?_,
      fun other first second hFirst hSecond => ?_, fun other hOther => ?_, h.completed_sent⟩
    · by_cases hEq : other = packet
      · exact .inr (by simp [hEq])
      · refine (h.in_flight other hOther hOpen).imp ?_ (List.mem_append_left _)
        rintro ⟨index', hIn⟩
        exact ⟨index', (hLeft other index').mpr ⟨hIn, hEq⟩⟩
    · obtain ⟨hIn, hNe⟩ := (hLeft other index').mp hOther
      obtain ⟨hBefore, hNot, hOpen⟩ := h.transmitting_sent other index' hIn
      exact ⟨hBefore, by simp [hNot, hNe], hOpen⟩
    · exact h.transmitting_once other first second ((hLeft other first).mp hFirst).1
        ((hLeft other second).mp hSecond).1
    · rcases List.mem_append.mp hOther with hIn | hIn
      · exact h.fifo_sent other hIn
      · obtain rfl := List.mem_singleton.mp hIn
        exact ⟨hSent, hPending⟩

theorem complete (h : s.Tracked) (packet : Nat) : (s.complete packet).Tracked := by
  unfold State.complete
  split
  case isFalse => exact h
  case isTrue hMem =>
    obtain ⟨hSent, hPending⟩ := h.fifo_sent packet hMem
    refine ⟨fun other hOther hOpen => ?_, fun other index hAt => ?_, h.transmitting_once,
      fun other hOther => ?_, fun other hOther => ?_⟩
    · obtain ⟨hNe, hOpen⟩ := not_or.mp (mt List.mem_cons.mpr hOpen)
      exact (h.in_flight other hOther hOpen).imp_right fun hFetched =>
        List.mem_filter.mpr ⟨hFetched, by simpa using hNe⟩
    · obtain ⟨hBefore, hNotFetched, hOpen⟩ := h.transmitting_sent other index hAt
      refine ⟨hBefore, fun hIn => hNotFetched (List.mem_filter.mp hIn).1, ?_⟩
      rintro (_ | ⟨_, hIn⟩)
      · exact hNotFetched hMem
      · exact hOpen hIn
    · obtain ⟨hOther, hNe⟩ := List.mem_filter.mp hOther
      obtain ⟨hBefore, hOpen⟩ := h.fifo_sent other hOther
      refine ⟨hBefore, ?_⟩
      rintro (_ | ⟨_, hIn⟩)
      · simp at hNe
      · exact hOpen hIn
    · rcases List.mem_cons.mp hOther with rfl | hIn
      · exact hSent
      · exact h.completed_sent other hIn

end Tracked

/-! ### The frames -/

/-- The frames of packets are in use, and no two packets share one. Those of
packets that were queued for deallocation and are not completed are still in
the queue. -/
structure Buffered (s : State) : Prop where
  wellFormed : WellFormed s.allocator.blocks
  queue_apart : s.sendQueue.Pairwise fun first second => Disjoint first.frames second.frames
  queue_used : ∀ range ∈ s.sendQueue, range.start < range.stop ∧
    Disjoint range.frames (freeFrames s.allocator.blocks)
  allocated_used : ∀ packet, s.phase packet = .allocated →
    (s.buffer packet).start < (s.buffer packet).stop ∧
      Disjoint (s.buffer packet).frames (freeFrames s.allocator.blocks)
  allocated_unqueued : ∀ packet, s.phase packet = .allocated → ∀ range ∈ s.sendQueue,
    Disjoint (s.buffer packet).frames range.frames
  allocated_apart : ∀ packet other, packet ≠ other → s.phase packet = .allocated →
    s.phase other = .allocated → Disjoint (s.buffer packet).frames (s.buffer other).frames
  in_queue : ∀ packet, s.phase packet = .queued ∨ s.phase packet = .sent →
    packet ∉ s.completed → s.buffer packet ∈ s.sendQueue

namespace Buffered

variable {s s' : State} {packet : Nat}

theorem congr (h : s.Buffered) (hAllocator : s'.allocator = s.allocator)
    (hQueue : s'.sendQueue = s.sendQueue) (hBuffer : s'.buffer = s.buffer)
    (hAllocated : ∀ other, s'.phase other = .allocated ↔ s.phase other = .allocated)
    (hQueued : ∀ other, s'.phase other = .queued ∨ s'.phase other = .sent ↔
      s.phase other = .queued ∨ s.phase other = .sent)
    (hCompleted : s.completed ⊆ s'.completed) : s'.Buffered := by
  refine ⟨?_, ?_, ?_, ?_, ?_, ?_, fun other hOther hOpen => ?_⟩
  all_goals simp only [hAllocator, hQueue, hBuffer, hAllocated]
  · exact h.wellFormed
  · exact h.queue_apart
  · exact h.queue_used
  · exact h.allocated_used
  · exact h.allocated_unqueued
  · exact h.allocated_apart
  · exact h.in_queue other ((hQueued other).mp hOther) fun hMem => hOpen (hCompleted hMem)

/-- A call takes a frame that was free. -/
theorem allocate (h : s.Buffered)
    (hAlloc : Frames.alloc s.allocator 1 = .ok (s'.buffer packet, s'.allocator))
    (hBuffer : ∀ other ≠ packet, s'.buffer other = s.buffer other)
    (hAfter : s'.phase = Function.update s.phase packet .allocated)
    (hQueue : s'.sendQueue = s.sendQueue) (hCompleted : s'.completed = s.completed) :
    s'.Buffered := by
  obtain ⟨hStop, hFree, hWell, hSet, -⟩ := Frames.alloc_ok h.wellFormed hAlloc
  have hLess : freeFrames s'.allocator.blocks ⊆ freeFrames s.allocator.blocks := by
    rw [hSet]
    exact Set.sdiff_subset
  have hOther : ∀ other ≠ packet, s'.phase other = s.phase other := by
    intro other hNe
    rw [hAfter, Function.update_of_ne hNe]
  refine ⟨hWell, ?_, ?_, ?_, ?_, ?_, ?_⟩
  · rw [hQueue]
    exact h.queue_apart
  · rw [hQueue]
    intro range hMem
    obtain ⟨hNonempty, hUsed⟩ := h.queue_used range hMem
    exact ⟨hNonempty, hUsed.mono_right hLess⟩
  · intro other hPhase
    by_cases hEq : other = packet
    · subst other
      rw [hSet]
      exact ⟨by omega, Set.disjoint_sdiff_right⟩
    · rw [hOther other hEq] at hPhase
      rw [hBuffer other hEq]
      obtain ⟨hNonempty, hUsed⟩ := h.allocated_used other hPhase
      exact ⟨hNonempty, hUsed.mono_right hLess⟩
  · rw [hQueue]
    intro other hPhase range hMem
    by_cases hEq : other = packet
    · subst other
      exact ((h.queue_used range hMem).2.mono_right hFree).symm
    · rw [hOther other hEq] at hPhase
      rw [hBuffer other hEq]
      exact h.allocated_unqueued other hPhase range hMem
  · intro first second hNe hFirst hSecond
    by_cases hEq : first = packet
    · subst first
      rw [hOther second hNe.symm] at hSecond
      rw [hBuffer second hNe.symm]
      exact ((h.allocated_used second hSecond).2.mono_right hFree).symm
    · rw [hOther first hEq] at hFirst
      rw [hBuffer first hEq]
      by_cases hEq' : second = packet
      · subst second
        exact (h.allocated_used first hFirst).2.mono_right hFree
      · rw [hOther second hEq'] at hSecond
        rw [hBuffer second hEq']
        exact h.allocated_apart first second hNe hFirst hSecond
  · rw [hQueue, hCompleted]
    intro other hPhase hOpen
    have hNe : other ≠ packet := by
      rintro rfl
      simp [hAfter] at hPhase
    rw [hOther other hNe] at hPhase
    rw [hBuffer other hNe]
    exact h.in_queue other hPhase hOpen

/-- A call queues its frame for deallocation. -/
theorem enqueue (h : s.Buffered) (hPhase : s.phase packet = .allocated)
    (hQueue : s'.sendQueue = s.sendQueue ++ [s.buffer packet])
    (hAfter : s'.phase = Function.update s.phase packet .queued)
    (hAllocator : s'.allocator = s.allocator) (hBuffer : s'.buffer = s.buffer)
    (hCompleted : s'.completed = s.completed) : s'.Buffered := by
  have hAllocated : ∀ other, s'.phase other = .allocated →
      other ≠ packet ∧ s.phase other = .allocated := by
    intro other hOther
    have hNe : other ≠ packet := by
      rintro rfl
      simp [hAfter] at hOther
    rw [hAfter, Function.update_of_ne hNe] at hOther
    exact ⟨hNe, hOther⟩
  refine ⟨?_, ?_, ?_, ?_, ?_, ?_, ?_⟩
  all_goals simp only [hAllocator, hQueue, hBuffer, hCompleted]
  · exact h.wellFormed
  · refine List.pairwise_append.mpr ⟨h.queue_apart, List.pairwise_singleton _ _, ?_⟩
    intro range hMem last hLast
    obtain rfl := List.mem_singleton.mp hLast
    exact (h.allocated_unqueued packet hPhase range hMem).symm
  · intro range hMem
    rcases List.mem_append.mp hMem with hMem | hMem
    · exact h.queue_used range hMem
    · obtain rfl := List.mem_singleton.mp hMem
      exact h.allocated_used packet hPhase
  · exact fun other hOther => h.allocated_used other (hAllocated other hOther).2
  · intro other hOther range hMem
    obtain ⟨hNe, hOther⟩ := hAllocated other hOther
    rcases List.mem_append.mp hMem with hMem | hMem
    · exact h.allocated_unqueued other hOther range hMem
    · obtain rfl := List.mem_singleton.mp hMem
      exact h.allocated_apart other packet hNe hOther hPhase
  · exact fun first second hNe hFirst hSecond =>
      h.allocated_apart first second hNe (hAllocated first hFirst).2 (hAllocated second hSecond).2
  · intro other hOther hOpen
    by_cases hEq : other = packet
    · simp [hEq]
    · rw [hAfter, Function.update_of_ne hEq] at hOther
      exact List.mem_append_left _ (h.in_queue other hOther hOpen)

theorem effect (h : s.Buffered) (hEffect : Effect s packet s') : s'.Buffered := by
  cases hEffect with
  | same hSame =>
    exact h.congr hSame.allocator hSame.sendQueue hSame.buffer (by simp [hSame.phase])
      (by simp [hSame.phase]) (by rw [hSame.completed]; exact List.Subset.refl _)
  | allocate hPhase hAlloc hBuffer hAfter hQueue hTransmitting hFifo hCompleted =>
    exact h.allocate hAlloc hBuffer hAfter hQueue hCompleted
  | enqueue hPhase hQueue hAfter hAllocator hBuffer hTransmitting hFifo hCompleted =>
    exact h.enqueue hPhase hQueue hAfter hAllocator hBuffer hCompleted
  | handOver index hPhase hReady hTransmitting hAfter hAllocator hQueue hBuffer hFifo hCompleted =>
    refine h.congr hAllocator hQueue hBuffer (fun other => ?_) (fun other => ?_)
      (by rw [hCompleted]; exact List.Subset.refl _)
    all_goals
      rw [hAfter, Function.update_apply]
      split
    case refine_1.isTrue hEq => simp [hEq, hPhase]
    case refine_2.isTrue hEq => simp [hEq, hPhase]
    · rfl
    · rfl

theorem fetch (h : s.Buffered) (index : Fin 4) : (s.fetch index).Buffered := by
  unfold State.fetch
  split
  · exact h
  · exact h.congr rfl rfl rfl (fun _ => Iff.rfl) (fun _ => Iff.rfl) (List.Subset.refl _)

theorem complete (h : s.Buffered) (packet : Nat) : (s.complete packet).Buffered := by
  unfold State.complete
  split
  · exact h.congr rfl rfl rfl (fun _ => Iff.rfl) (fun _ => Iff.rfl) (List.subset_cons_self _ _)
  · exact h

end Buffered

theorem freeAll_ok {allocator : Allocator} {queue : List PhysFrameRange}
    (hWell : WellFormed allocator.blocks)
    (hApart : queue.Pairwise fun first second => Disjoint first.frames second.frames)
    (hUsed : ∀ range ∈ queue, range.start < range.stop ∧
      Disjoint range.frames (freeFrames allocator.blocks)) :
    ∃ allocator', freeAll allocator queue = .ok allocator' ∧ WellFormed allocator'.blocks ∧
      ∀ frame, frame ∈ freeFrames allocator'.blocks ↔
        (∃ range ∈ queue, frame ∈ range.frames) ∨ frame ∈ freeFrames allocator.blocks := by
  induction queue generalizing allocator with
  | nil => exact ⟨allocator, rfl, hWell, by simp⟩
  | cons range queue ih =>
    obtain ⟨hFirst, hRest⟩ := List.pairwise_cons.mp hApart
    obtain ⟨hNonempty, hNotFree⟩ := hUsed range (List.mem_cons_self ..)
    obtain ⟨allocator₁, hFree, hWell₁, hSet, -⟩ := Frames.free_ok hWell hNonempty hNotFree
    obtain ⟨allocator', hAll, hWell', hMem⟩ := ih hWell₁ hRest (by
      intro other hOther
      obtain ⟨hSome, hOff⟩ := hUsed other (List.mem_cons_of_mem range hOther)
      refine ⟨hSome, ?_⟩
      rw [hSet, Set.disjoint_union_right]
      exact ⟨(hFirst other hOther).symm, hOff⟩)
    refine ⟨allocator', by simp [freeAll, hFree, hAll], hWell', fun frame => ?_⟩
    rw [hMem, hSet]
    simp only [List.mem_cons, exists_eq_or_imp, Set.mem_union]
    rw [or_left_comm, or_assoc]

/-! ### Interrupts -/

/-- All that is known of a state in a run whose interrupts came at good times. -/
structure Consistent (s : State) : Prop where
  exclusive : s.Exclusive
  tracked : s.Tracked
  buffered : s.Buffered

/-- No frame of a packet is free before the device has completed the packet. -/
def Outlives (s : State) : Prop :=
  ∀ packet, s.phase packet ≠ .idle → packet ∉ s.completed →
    Disjoint (s.buffer packet).frames (freeFrames s.allocator.blocks)

/-- The next event is an interrupt whose handler empties the send queue. -/
def Drains (s : State) : Event → Prop
  | .interrupt frameAllocatorLocked => s.interruptStatus.transmitOk = true ∧
      frameAllocatorLocked = false ∧ s.interruptStatus.transmitError = false ∧
      s.interruptStatus.receiveError = false
  | _ => False

variable {s s' : State}

/-- What the handler does. -/
theorem trigger_ok {locked : Bool} (h : s.trigger locked = .ok s') :
    (s.Drains (.interrupt locked) ∧ ∃ allocator,
      s' = { s with interruptStatus := .clear, allocator, sendQueue := [] }) ∨
    (¬ s.Drains (.interrupt locked) ∧ s' = { s with interruptStatus := .clear }) := by
  unfold trigger at h
  simp only at h
  obtain ⟨hTransmit, h⟩ := ite_error_ok h
  obtain ⟨hReceive, h⟩ := ite_error_ok h
  split at h
  case isTrue hOk =>
    obtain ⟨allocator, -, h⟩ := bind_ok h
    obtain rfl := pure_ok h
    exact .inl ⟨⟨hOk.1, by simpa using hOk.2, by simpa using hTransmit,
      by simpa using hReceive⟩, allocator, rfl⟩
  case isFalse hNot =>
    obtain rfl := Except.ok.inj h
    exact .inr ⟨fun hDrains => hNot ⟨hDrains.1, by simp [hDrains.2.1]⟩, rfl⟩

/-- No call is between the statement that queues its frame and the one that
hands it to the device, and the device has completed all packets it was given. -/
def Quiet (s : State) : Prop :=
  (∀ packet, s.phase packet ≠ .queued) ∧ (∀ index, s.transmitting index = none) ∧ s.fifo = []

namespace Consistent

variable {s s' : State} {event : Event}

theorem outlives (h : s.Consistent) : s.Outlives := by
  intro packet hPhase hOpen
  by_cases hAllocated : s.phase packet = .allocated
  · exact (h.buffered.allocated_used packet hAllocated).2
  · have hQueued : s.phase packet = .queued ∨ s.phase packet = .sent := by
      cases hCase : s.phase packet <;> simp_all
    exact (h.buffered.queue_used _ (h.buffered.in_queue packet hQueued hOpen)).2

/-- The handler frees the frames in the queue, and no others. -/
theorem drain (h : s.Consistent) (hDrains : s.Drains event) :
    ∃ allocator, s.step event =
        .ok { s with interruptStatus := .clear, allocator, sendQueue := [] } ∧
      WellFormed allocator.blocks ∧ ∀ frame, frame ∈ freeFrames allocator.blocks ↔
        (∃ range ∈ s.sendQueue, frame ∈ range.frames) ∨ frame ∈ freeFrames s.allocator.blocks := by
  obtain ⟨allocator, hFree, hWell, hMem⟩ :=
    freeAll_ok h.buffered.wellFormed h.buffered.queue_apart h.buffered.queue_used
  cases event with
  | interrupt locked =>
    obtain ⟨hOk, rfl, hTransmit, hReceive⟩ := hDrains
    exact ⟨allocator, by simp [step, trigger, hOk, hTransmit, hReceive, hFree], hWell, hMem⟩
  | advance packet => exact hDrains.elim
  | fetch index => exact hDrains.elim
  | complete packet => exact hDrains.elim
  | report status => exact hDrains.elim

theorem quiet_of_outlives (h : s.Consistent) (hDrains : s.Drains event)
    (hStep : s.step event = .ok s') (hOutlives : s'.Outlives) : s.Quiet := by
  obtain ⟨allocator, hRun, -, hMem⟩ := h.drain hDrains
  obtain rfl := Except.ok.inj (hRun.symm.trans hStep)
  have hNone : ∀ packet, s.phase packet = .queued ∨ s.phase packet = .sent →
      packet ∈ s.completed := by
    refine fun packet hPhase => Decidable.byContradiction fun hOpen => ?_
    have hQueued := h.buffered.in_queue packet hPhase hOpen
    have hNonempty := (h.buffered.queue_used _ hQueued).1
    have hFirst : (s.buffer packet).start ∈ (s.buffer packet).frames := ⟨le_rfl, hNonempty⟩
    refine Set.disjoint_left.mp (hOutlives packet ?_ hOpen) hFirst
      ((hMem _).mpr (.inl ⟨_, hQueued, hFirst⟩))
    change s.phase packet ≠ .idle
    rcases hPhase with hPhase | hPhase <;> simp [hPhase]
  refine ⟨fun packet hPhase => ?_, fun index => ?_, ?_⟩
  · exact (h.tracked.fresh (by simp [hPhase])).2.2 (hNone packet (.inl hPhase))
  · cases hAt : s.transmitting index with
    | none => rfl
    | some packet =>
      obtain ⟨hSent, -, hOpen⟩ := h.tracked.transmitting_sent packet index hAt
      exact absurd (hNone packet (.inr hSent)) hOpen
  · refine List.eq_nil_iff_forall_not_mem.mpr fun packet hIn => ?_
    obtain ⟨hSent, hOpen⟩ := h.tracked.fifo_sent packet hIn
    exact hOpen (hNone packet (.inr hSent))

/-- In a quiet state all queued frames belong to completed packets. -/
theorem drained (h : s.Consistent) (hQuiet : s.Quiet) (hDrains : s.Drains event)
    (hStep : s.step event = .ok s') : s'.Consistent := by
  obtain ⟨allocator, hRun, hWell, hMem⟩ := h.drain hDrains
  obtain rfl := Except.ok.inj (hRun.symm.trans hStep)
  obtain ⟨hNoneQueued, hNoneTransmitting, hNoneFetched⟩ := hQuiet
  have hDone : ∀ packet, s.phase packet = .queued ∨ s.phase packet = .sent →
      packet ∈ s.completed := by
    rintro packet (hPhase | hPhase)
    · exact absurd hPhase (hNoneQueued packet)
    · refine Decidable.byContradiction fun hOpen => ?_
      rcases h.tracked.in_flight packet hPhase hOpen with ⟨index, hAt⟩ | hIn
      · simp [hNoneTransmitting] at hAt
      · simp [hNoneFetched] at hIn
  refine ⟨h.exclusive.congr rfl rfl rfl, h.tracked.congr (fun _ => Iff.rfl) rfl rfl rfl, hWell,
    List.Pairwise.nil, by simp, fun packet hPhase => ?_, by simp, h.buffered.allocated_apart,
    fun packet hPhase hOpen => absurd (hDone packet hPhase) hOpen⟩
  obtain ⟨hNonempty, hUsed⟩ := h.buffered.allocated_used packet hPhase
  refine ⟨hNonempty, Set.disjoint_left.mpr fun frame hIn hFree => ?_⟩
  rcases (hMem frame).mp hFree with ⟨range, hRange, hIn'⟩ | hFree
  · exact Set.disjoint_left.mp (h.buffered.allocated_unqueued packet hPhase range hRange) hIn hIn'
  · exact Set.disjoint_left.mp hUsed hIn hFree

theorem step (h : s.Consistent) (hQuiet : s.Drains event → s.Quiet)
    (hStep : s.step event = .ok s') : s'.Consistent := by
  by_cases hDrains : s.Drains event
  · exact h.drained (hQuiet hDrains) hDrains hStep
  obtain ⟨hExclusive, hTracked, hBuffered⟩ := h
  cases event with
  | advance packet =>
    have hMove := advance_moves hStep
    have hEffect := hMove.effect hExclusive
    exact ⟨hExclusive.moves hMove, hTracked.effect hEffect, hBuffered.effect hEffect⟩
  | fetch index =>
    obtain rfl := Except.ok.inj hStep
    exact ⟨hExclusive.fetch index, hTracked.fetch index, hBuffered.fetch index⟩
  | complete packet =>
    obtain rfl := Except.ok.inj hStep
    exact ⟨hExclusive.complete packet, hTracked.complete packet, hBuffered.complete packet⟩
  | report status =>
    obtain rfl := Except.ok.inj hStep
    exact ⟨hExclusive.congr rfl rfl rfl, hTracked.congr (fun _ => Iff.rfl) rfl rfl rfl,
      hBuffered.congr rfl rfl rfl (fun _ => Iff.rfl) (fun _ => Iff.rfl) (List.Subset.refl _)⟩
  | interrupt locked =>
    rcases trigger_ok hStep with ⟨hIs, -⟩ | ⟨-, rfl⟩
    · exact absurd hIs hDrains
    · exact ⟨hExclusive.congr rfl rfl rfl, hTracked.congr (fun _ => Iff.rfl) rfl rfl rfl,
        hBuffered.congr rfl rfl rfl (fun _ => Iff.rfl) (fun _ => Iff.rfl) (List.Subset.refl _)⟩

end Consistent

/-- The driver before the first packet. -/
structure Initial (s : State) : Prop where
  wellFormed : WellFormed s.allocator.blocks
  calls : ∀ packet, s.stage packet = .checkLength
  sendQueue : s.sendQueue = []
  transmitting : ∀ index, s.transmitting index = none
  fifo : s.fifo = []
  completed : s.completed = []

theorem Initial.consistent (h : s.Initial) : s.Consistent := by
  have hPhase : ∀ packet, s.phase packet = .idle := by
    intro packet
    rw [phase, h.calls]
    rfl
  refine ⟨⟨?_, ?_⟩, ⟨?_, ?_, ?_, ?_, ?_⟩, ⟨h.wellFormed, ?_, ?_, ?_, ?_, ?_, ?_⟩⟩
  all_goals
    simp [hPhase, h.calls, h.sendQueue, h.transmitting, h.fifo, h.completed, Stage.holds,
      Stage.programs]

/-- A property holds in every state of a run. -/
def Always (P : State → Prop) : State → List Event → Prop
  | s, [] => P s
  | s, event :: events => P s ∧ ∀ s', s.step event = .ok s' → Always P s' events

/-- Every interrupt of a run that empties the send queue comes in a quiet state. -/
def Undisturbed : State → List Event → Prop
  | _, [] => True
  | s, event :: events =>
    (s.Drains event → s.Quiet) ∧ ∀ s', s.step event = .ok s' → Undisturbed s' events

theorem Consistent.outlives_iff (h : s.Consistent) (events : List Event) :
    Always Outlives s events ↔ Undisturbed s events := by
  induction events generalizing s with
  | nil => exact iff_of_true h.outlives trivial
  | cons event events ih =>
    constructor
    · rintro ⟨-, hRest⟩
      have hQuiet : s.Drains event → s.Quiet := by
        intro hDrains
        obtain ⟨allocator, hRun, -⟩ := h.drain hDrains
        have hAfter := hRest _ hRun
        refine h.quiet_of_outlives hDrains hRun ?_
        cases events with
        | nil => exact hAfter
        | cons _ _ => exact hAfter.1
      exact ⟨hQuiet, fun s' hStep => (ih (h.step hQuiet hStep)).mp (hRest s' hStep)⟩
    · rintro ⟨hQuiet, hRest⟩
      exact ⟨h.outlives, fun s' hStep => (ih (h.step hQuiet hStep)).mpr (hRest s' hStep)⟩

/-- Transmit buffers outlive their transmission in exactly those runs, of any
number of calls with the device and its interrupts, in which every interrupt that
empties the send queue finds it quiet. -/
theorem buffers_outlive_iff {s : State} (h : s.Initial) (events : List Event) :
    Always Outlives s events ↔ Undisturbed s events :=
  h.consistent.outlives_iff events

theorem stage_step {event : Event} {packet : Nat} (hOther : event ≠ .advance packet)
    (h : s.step event = .ok s') :
    s'.stage packet = s.stage packet := by
  cases event with
  | advance other =>
    exact (advance_moves h).stage_of_ne fun hEq => hOther (by rw [hEq])
  | fetch index =>
    obtain rfl := Except.ok.inj h
    unfold State.fetch
    split <;> rfl
  | complete other =>
    obtain rfl := Except.ok.inj h
    unfold State.complete
    split <;> rfl
  | report status =>
    obtain rfl := Except.ok.inj h
    rfl
  | interrupt locked =>
    rcases trigger_ok h with ⟨-, allocator, rfl⟩ | ⟨-, rfl⟩
    · rfl
    · rfl

theorem stage_run {events : List Event} {packet : Nat}
    (hOther : ∀ event ∈ events, event ≠ .advance packet) (h : s.run events = .ok s') :
    s'.stage packet = s.stage packet := by
  induction events generalizing s with
  | nil =>
    obtain rfl := Except.ok.inj h
    rfl
  | cons event events ih =>
    obtain ⟨s₁, hStep, hRun⟩ := bind_ok h
    rw [ih (fun other hMem => hOther other (List.mem_cons_of_mem event hMem)) hRun,
      stage_step (hOther event (List.mem_cons_self ..)) hStep]

theorem Always.of_run {P : State → Prop} {events : List Event} (h : Always P s events)
    (hRun : s.run events = .ok s') : P s' := by
  induction events generalizing s with
  | nil =>
    obtain rfl := Except.ok.inj hRun
    exact h
  | cons event events ih =>
    obtain ⟨s₁, hStep, hRun⟩ := bind_ok hRun
    exact ih (h.2 s₁ hStep) hRun

/-- Nothing disturbs a run before its first interrupt. -/
theorem undisturbed_append {first second : List Event}
    (hFirst : ∀ event ∈ first, ∀ locked, event ≠ .interrupt locked)
    (hSecond : ∀ s', s.run first = .ok s' → Undisturbed s' second) :
    Undisturbed s (first ++ second) := by
  induction first generalizing s with
  | nil => exact hSecond s rfl
  | cons event first ih =>
    refine ⟨fun hDrains => ?_, fun s' hStep => ?_⟩
    · cases event with
      | interrupt locked => exact absurd rfl (hFirst _ (List.mem_cons_self ..) locked)
      | advance packet => exact hDrains.elim
      | fetch index => exact hDrains.elim
      | complete packet => exact hDrains.elim
      | report status => exact hDrains.elim
    · refine ih (fun other hMem => hFirst other (List.mem_cons_of_mem event hMem)) ?_
      intro s'' hRun
      exact hSecond s'' ((bind_ok_iff _ _ _).mpr ⟨s', hStep, hRun⟩)

/-- Eight free frames, and packets of 60 bytes. -/
def start : State where
  allocator := ⟨[⟨1, 8⟩], some 9⟩
  calls := fun _ => ⟨60, ⟨0, 0⟩, .checkLength⟩
  transmitIndex := 0
  sendQueue := []
  descriptors := fun _ => ⟨none, 0, none⟩
  interruptStatus := .clear
  fifo := []
  completed := []

theorem start_initial : start.Initial where
  wellFormed := ⟨by simp [start, Frames.PageFrameNode.stop], List.pairwise_singleton _ _⟩
  calls _ := rfl
  sendQueue := rfl
  transmitting _ := rfl
  fifo := rfl
  completed := rfl

/-- A whole call of `consume`, and the device completes the packet. -/
def sendFirst : List Event := List.replicate 11 (.advance 0) ++ [.fetch ⟨0, by decide⟩, .complete 0]

/-- The frame of a packet is freed once the packet is completed. -/
theorem buffers_outlive_of_first : Always Outlives start (sendFirst ++ [.interrupt false]) := by
  refine (buffers_outlive_iff start_initial _).mpr (undisturbed_append ?_ fun s hRun => ?_)
  · simp [sendFirst]
  · have hEnd : ((start.run sendFirst).map fun s =>
        (s.phase 0, decide (∀ index, s.transmitting index = none), s.fifo)).toOption =
        some (.sent, true, []) := by decide +kernel
    obtain ⟨s', hRun', hState⟩ := exists_ok_of_toOption hEnd
    obtain rfl := Except.ok.inj (hRun'.symm.trans hRun)
    simp only [Prod.mk.injEq, decide_eq_true_eq] at hState
    obtain ⟨hSent, hNone, hFifo⟩ := hState
    refine ⟨fun _ => ⟨fun packet hPhase => ?_, hNone, hFifo⟩, fun _ _ => trivial⟩
    by_cases hFirst : packet = 0
    · rw [hFirst, hSent] at hPhase
      cases hPhase
    · have hOther : ∀ event ∈ sendFirst, event ≠ .advance packet := by
        simp [sendFirst, Ne.symm hFirst]
      rw [phase, stage_run hOther hRun] at hPhase
      cases hPhase

/-- The interrupt for the first packet comes when the second call has queued its
frame: the frame is free while the call fills it. -/
theorem frame_freed_before_sending : ∃ events s', start.Initial ∧ start.run events = .ok s' ∧
    s'.stage 1 = .fill ∧ s'.buffer 1 = ⟨2, 3⟩ ∧ s'.completed = [0] ∧
    s'.allocator.blocks = [⟨1, 8⟩] ∧ ¬ Always Outlives start events := by
  have hEnd : ((start.run (sendFirst ++ List.replicate 4 (.advance 1) ++
      [.interrupt false])).map fun s =>
        (s.stage 1, s.buffer 1, s.completed, s.allocator.blocks)).toOption =
      some (.fill, ⟨2, 3⟩, [0], [⟨1, 8⟩]) := by decide +kernel
  obtain ⟨s', hRun, hState⟩ := exists_ok_of_toOption hEnd
  simp only [Prod.mk.injEq] at hState
  obtain ⟨hStage, hBuffer, hCompleted, hBlocks⟩ := hState
  refine ⟨_, s', start_initial, hRun, hStage, hBuffer, hCompleted, hBlocks, fun hAlways => ?_⟩
  have hApart := hAlways.of_run hRun 1 (by rw [phase, hStage]; decide) (by rw [hCompleted]; decide)
  rw [hBuffer, hBlocks] at hApart
  have hFree : 2 ∈ freeFrames [⟨1, 8⟩] := ⟨⟨1, 8⟩, List.mem_cons_self .., by decide, by decide⟩
  exact Set.disjoint_left.mp hApart (show 2 ∈ Set.Ico 2 3 from ⟨by decide, by decide⟩) hFree

/-- The frames of packets have no part in where the packets are, so that this
goes on whenever interrupts come. -/
theorem Tracked.step {event : Event} (hExclusive : s.Exclusive) (h : s.Tracked)
    (hStep : s.step event = .ok s') : s'.Exclusive ∧ s'.Tracked := by
  cases event with
  | advance packet =>
    have hMove := advance_moves hStep
    exact ⟨hExclusive.moves hMove, h.effect (hMove.effect hExclusive)⟩
  | fetch index =>
    obtain rfl := Except.ok.inj hStep
    exact ⟨hExclusive.fetch index, h.fetch index⟩
  | complete packet =>
    obtain rfl := Except.ok.inj hStep
    exact ⟨hExclusive.complete packet, h.complete packet⟩
  | report status =>
    obtain rfl := Except.ok.inj hStep
    exact ⟨hExclusive.congr rfl rfl rfl, h.congr (fun _ => Iff.rfl) rfl rfl rfl⟩
  | interrupt locked =>
    rcases trigger_ok hStep with ⟨-, allocator, rfl⟩ | ⟨-, rfl⟩
    all_goals exact ⟨hExclusive.congr rfl rfl rfl, h.congr (fun _ => Iff.rfl) rfl rfl rfl⟩

/-- In every run, whatever the order of calls, device and interrupts, a descriptor
is programmed by one call at a time and only if its last packet was fetched, and
every packet handed over is in one descriptor, in the FIFO or completed. -/
theorem packets_tracked {s s' : State} {events : List Event} (h : s.Initial)
    (hRun : s.run events = .ok s') : s'.Exclusive ∧ s'.Tracked := by
  suffices hKept : ∀ s : State, s.Exclusive → s.Tracked → s.run events = .ok s' →
      s'.Exclusive ∧ s'.Tracked
    from hKept s h.consistent.exclusive h.consistent.tracked hRun
  clear h hRun
  induction events with
  | nil =>
    rintro s hExclusive hTracked ⟨⟩
    exact ⟨hExclusive, hTracked⟩
  | cons event events ih =>
    intro s hExclusive hTracked hRun
    obtain ⟨s₁, hStep, hRest⟩ := bind_ok hRun
    obtain ⟨hExclusive₁, hTracked₁⟩ := hTracked.step hExclusive hStep
    exact ih s₁ hExclusive₁ hTracked₁ hRest

theorem packets_tracked_of_first :
    ∃ s, start.run (sendFirst ++ [.interrupt false]) = .ok s ∧ s.completed = [0] ∧ s.Tracked := by
  have hEnd : ((start.run (sendFirst ++ [.interrupt false])).map completed).toOption =
    some [0] := by decide +kernel
  obtain ⟨s, hRun, hCompleted⟩ := exists_ok_of_toOption hEnd
  exact ⟨s, hRun, hCompleted, (packets_tracked start_initial hRun).2⟩

end State

end D3OS.Device.Rtl8139
