import D3OS.Device.ReceiveRing
import Mathlib.Data.List.Perm.Basic

/-! The way of packets from the ring to the closures given to `consume`. The
handler processes one packet per interrupt, and the closure gets a whole page. -/
namespace D3OS.Device.Rtl8139

open Outcome
open RecordRing
open Memory (PAGE_SIZE)

def Packet.isOk (self : Packet) : Bool := self.status &&& ReceiveStatus.OK = ReceiveStatus.OK

namespace Receiver

/-- The buffers that hold a packet, in the order in which they are consumed. -/
def inFlight (self : Receiver) : List Message := self.token.toList ++ self.recvMessages

/-- The frames of all packet buffers. -/
def frames (self : Receiver) : List Nat :=
  self.recvBuffersEmpty.map PacketBuffer.frame ++ self.inFlight.map fun message => message.buffer.frame

/-- Packets have been seen in the order of their arrival, each at most once and
with its bytes; those that were processed but are neither seen nor in flight
were dropped for want of an empty buffer; and no packet buffer is lost. -/
structure Faithful (frames : List Nat) (s : Receiver) : Prop where
  inOrder : (s.seen.map Prod.fst).Pairwise (· < ·)
  unchanged : ∀ number bytes, (number, bytes) ∈ s.seen →
    (s.arrived[number]?).map Packet.contents = some bytes
  kept : ∀ number < s.processed, number ∈ s.seen.map Prod.fst ∨
    number ∈ s.inFlight.map Message.number ∨ (number, 0) ∈ s.dropped
  conserved : s.frames.Perm frames

/-- A run without a panic that is faithful in every state and leaves no packet
in the ring after a `RECEIVE_OK` interrupt. -/
def Delivers (frames : List Nat) : Receiver → List ReceiveEvent → Prop
  | s, [] => Faithful frames s
  | s, event :: events => Faithful frames s ∧ ∃ s', s.step event = .ok s' ∧
      (event = .interrupt → s.interruptStatus.receiveOk = true → s'.pending = []) ∧
      Delivers frames s' events

/-- The message of a packet at the index lies in the buffer and fits into a
page. -/
def Fits (s : Receiver) (packet : Packet) : Prop :=
  s.recvBuffer.index + PacketHeader.SIZE + packet.contents.length ≤ BUFFER_SIZE ∧
    packet.contents.length ≤ PAGE_SIZE

/-- What a step needs: the interrupt stands for one packet, which is valid and
fits, and a packet that is consumed fills its buffer. -/
def Meets (s : Receiver) : ReceiveEvent → Prop
  | .arrive _ => True
  | .interrupt => s.interruptStatus.receiveOk = true → ∃ packet, s.pending = [packet] ∧
      packet.isOk = true ∧ (s.recvBuffersEmpty ≠ [] → s.Fits packet)
  | .receive => True
  | .consume => ∀ message, s.token = some message →
      (s.arrived[message.number]?).map (fun packet => packet.contents.length) = some PAGE_SIZE

/-- A run all of whose steps get what they need. -/
def Orderly : Receiver → List ReceiveEvent → Prop
  | _, [] => True
  | s, event :: events => s.Meets event ∧ ∀ s', s.step event = .ok s' → Orderly s' events

/-! ### What holds in every run -/

end Receiver

/-- The ring holds these packets between the index and the place that the device
writes to next. -/
structure InRing (buffer : ReceiveBuffer) (writeAddress : Nat) (packets : List Packet) : Prop where
  aligned : buffer.index % 4 = 0
  wrapped : buffer.index < 8192
  holds : Holds 8192 buffer.data buffer.index (packets.map Packet.record)
  room : used (packets.map Packet.record) ≤ 8192
  next : writeAddress = (buffer.index + used (packets.map Packet.record)) % 8192

namespace InRing

variable {buffer : ReceiveBuffer} {writeAddress : Nat} {packets : List Packet} {packet : Packet}

theorem add (h : InRing buffer writeAddress packets)
    (hRoom : used (packets.map Packet.record) + packet.record.stride ≤ 8192) :
    InRing { buffer with data := store buffer.data writeAddress packet.record.cells }
      ((writeAddress + packet.record.stride) % 8192) (packets ++ [packet]) := by
  have hUsed : used ((packets ++ [packet]).map Packet.record) =
      used (packets.map Packet.record) + packet.record.stride := by
    simp
  refine ⟨h.aligned, h.wrapped, ?_, hUsed ▸ hRoom, ?_⟩
  · rw [List.map_append, h.next]
    exact h.holds.add packet.record h.wrapped hRoom
  · rw [hUsed, h.next, Nat.mod_add_mod, Nat.add_assoc]

/-- What the driver reads is the first packet. -/
theorem first (h : InRing buffer writeAddress (packet :: packets)) :
    buffer.header = ⟨packet.status, packet.contents.length⟩ ∧
      load buffer.data buffer.msgStart packet.contents.length = packet.contents :=
  ReceiveBuffer.read_record h.holds.1

/-- Moving the index takes the first packet out of the ring. -/
theorem process (h : InRing buffer writeAddress (packet :: packets)) (hOk : packet.isOk = true) :
    InRing buffer.process writeAddress packets := by
  have hValid : buffer.header.isOk = true := by
    rw [h.first.1]
    exact hOk
  have hProcess : buffer.process =
      { buffer with index := (buffer.index + packet.record.stride) % 8192 } := by
    rw [ReceiveBuffer.process_of_ok hValid, h.first.1,
      nextIndex_eq h.aligned h.wrapped packet.length_lt]
    rfl
  obtain ⟨hNext, hNextLt⟩ := ReceiveBuffer.process_index h.aligned h.wrapped
  have hRoom := h.room
  have hWrite := h.next
  rw [List.map_cons, used_cons] at hRoom hWrite
  refine ⟨hNext, hNextLt, ?_, by omega, ?_⟩
  · rw [hProcess]
    exact h.holds.2
  · rw [hProcess, hWrite, Nat.mod_add_mod, Nat.add_assoc]

end InRing

namespace Receiver

/-- The ring holds the packets that are pending, and the buffers in flight start
with the bytes of their packets. -/
structure Sound (frames : List Nat) (s : Receiver) : Prop where
  ring : InRing s.recvBuffer s.writeAddress s.pending
  counted : s.processed ≤ s.arrived.length
  reported : s.interruptStatus.receiveOk = true → s.pending ≠ []
  noError : s.interruptStatus.transmitError = false ∧ s.interruptStatus.receiveError = false
  copied : ∀ message ∈ s.inFlight, ∃ packet, s.arrived[message.number]? = some packet ∧
    packet.contents <+: message.buffer.bytes
  inOrder : (s.seen.map Prod.fst ++ s.inFlight.map Message.number).Pairwise (· < ·)
  below : ∀ number ∈ s.seen.map Prod.fst ++ s.inFlight.map Message.number, number < s.processed
  kept : ∀ number < s.processed, number ∈ s.seen.map Prod.fst ∨
    number ∈ s.inFlight.map Message.number ∨ (number, 0) ∈ s.dropped
  conserved : s.frames.Perm frames

variable (buffers : Fin RECV_QUEUE_CAP → PacketBuffer)

theorem sound_new (data : Nat → UInt8) :
    Sound ((List.ofFn buffers).map PacketBuffer.frame) (new buffers data) where
  ring := ⟨rfl, Nat.succ_pos _, trivial, Nat.zero_le _, rfl⟩
  counted := Nat.le_refl _
  reported := nofun
  noError := ⟨rfl, rfl⟩
  copied := nofun
  inOrder := List.Pairwise.nil
  below := nofun
  kept := nofun
  conserved := by
    unfold frames
    exact (List.append_nil _).symm ▸ List.Perm.refl _

section

variable {frames : List Nat} {s s' : Receiver}

theorem Sound.faithful_iff (h : Sound frames s) : Faithful frames s ↔
    ∀ number bytes, (number, bytes) ∈ s.seen →
      (s.arrived[number]?).map Packet.contents = some bytes :=
  ⟨fun hFaithful => hFaithful.unchanged, fun hUnchanged =>
    ⟨(List.pairwise_append.mp h.inOrder).1, hUnchanged, h.kept, h.conserved⟩⟩

/-- All buffers fit into either queue. -/
theorem Sound.count (h : Sound frames s) :
    s.recvBuffersEmpty.length + s.token.toList.length + s.recvMessages.length = frames.length := by
  have hLength := h.conserved.length_eq
  simp only [Receiver.frames, inFlight, List.length_append, List.length_map] at hLength
  omega

/-! ### Arrival -/

theorem pending_concat (h : s.processed ≤ s.arrived.length) (packet : Packet) :
    (s.arrived ++ [packet]).drop s.processed = s.pending ++ [packet] :=
  List.drop_append_of_le_length h

variable {packet : Packet} {rest : List Packet}

theorem getElem?_concat {arrived : List Packet} {number : Nat} (h : arrived[number]? = some packet)
    (later : Packet) :
    (arrived ++ [later])[number]? = some packet := by
  rw [List.getElem?_append_left (List.getElem?_eq_some_iff.mp h).1]
  exact h

theorem Sound.arrive (h : Sound frames s) (packet : Packet) : Sound frames (s.arrive packet) := by
  unfold Receiver.arrive
  split
  · rename_i hRoom
    have hPending := pending_concat h.counted packet
    refine
      { ring := ?_
        counted := ?_
        reported := fun _ => ?_
        noError := h.noError
        copied := ?_
        inOrder := h.inOrder
        below := h.below
        kept := h.kept
        conserved := h.conserved }
    · show InRing _ _ ((s.arrived ++ [packet]).drop s.processed)
      rw [hPending]
      exact h.ring.add hRoom
    · show s.processed ≤ (s.arrived ++ [packet]).length
      rw [List.length_append]
      exact Nat.le_add_right_of_le h.counted
    · show (s.arrived ++ [packet]).drop s.processed ≠ []
      rw [hPending]
      exact List.append_ne_nil_of_right_ne_nil _ (List.cons_ne_nil _ _)
    · intro message hMem
      obtain ⟨first, hFirst, hBytes⟩ := h.copied message hMem
      exact ⟨first, getElem?_concat hFirst packet, hBytes⟩
  · exact h

/-! ### Interrupts -/

/-- The interrupt is acknowledged and the index moved. -/
def advanced (s : Receiver) : Receiver :=
  { s with
    interruptStatus := .clear
    recvBuffer := s.recvBuffer.process
    currentReadAddress := s.recvBuffer.process.index % 2 ^ 32
    processed := s.processed + 1 }

/-- What the handler may do with the first packet in the ring. -/
inductive Handled (s : Receiver) (packet : Packet) : Except Panic Receiver → Prop where
  | refused (hStatus : packet.isOk = false) :
      Handled s packet (.ok { s with interruptStatus := .clear })
  | dropped (hOk : packet.isOk = true) (hNone : s.recvBuffersEmpty = []) :
      Handled s packet (.ok { s.advanced with dropped := s.dropped ++ [(s.processed, 0)] })
  | copied (hOk : packet.isOk = true) (hFits : s.Fits packet) {target filled : PacketBuffer}
      {rest : List PacketBuffer} (hEmpty : s.recvBuffersEmpty = target :: rest)
      (hFrame : filled.frame = target.frame) (hBytes : packet.contents <+: filled.bytes) :
      Handled s packet (.ok { s.advanced with
        recvBuffersEmpty := rest
        recvMessages := s.recvMessages ++ [⟨s.processed, filled⟩] })
  | panicked (hOk : packet.isOk = true) (hSome : s.recvBuffersEmpty ≠ [])
      (hLong : ¬ s.Fits packet) (stop : Panic) : Handled s packet (.error stop)

theorem slice_eq {buffer : ReceiveBuffer}
    (hHeader : buffer.header = ⟨packet.status, packet.contents.length⟩)
    (hLoad : load buffer.data buffer.msgStart packet.contents.length = packet.contents) :
    buffer.slice buffer.msgStart buffer.msgEnd =
      if buffer.index + PacketHeader.SIZE + packet.contents.length ≤ BUFFER_SIZE then
        .ok packet.contents
      else .error .sliceIndex := by
  have hEnd : buffer.msgEnd = buffer.msgStart + packet.contents.length := by
    unfold ReceiveBuffer.msgEnd
    rw [hHeader]
  have hLow : buffer.msgStart ≤ buffer.msgStart + packet.contents.length := Nat.le_add_right _ _
  unfold ReceiveBuffer.slice
  rw [hEnd, Nat.add_sub_cancel_left, hLoad]
  simp only [hLow, true_and]
  rfl

theorem copyMessage_of_none (h : s.recvBuffersEmpty = []) (buffer : ReceiveBuffer) (number : Nat) :
    s.copyMessage buffer number = .ok { s with dropped := s.dropped ++ [(number, 0)] } := by
  unfold copyMessage
  simp only [h]

theorem copyMessage_of_some {target : PacketBuffer} {others : List PacketBuffer}
    (h : s.recvBuffersEmpty = target :: others) (hRoom : s.recvMessages.length < RECV_QUEUE_CAP)
    (buffer : ReceiveBuffer) (number : Nat) :
    s.copyMessage buffer number = (do
      let src ← buffer.slice buffer.msgStart buffer.msgEnd
      let target ← target.copyFromSlice src
      return { s with
        recvBuffersEmpty := others, recvMessages := s.recvMessages ++ [⟨number, target⟩] }) := by
  unfold copyMessage
  simp only [h, if_pos hRoom]

/-- The only things that an interrupt does. -/
theorem Sound.handled (h : Sound frames s) (hCap : frames.length = RECV_QUEUE_CAP)
    (hReceive : s.interruptStatus.receiveOk = true) (hPending : s.pending = packet :: rest) :
    Handled s packet s.trigger := by
  obtain ⟨hHeader, hLoad⟩ := (hPending ▸ h.ring).first
  have hStatus : s.recvBuffer.header.isOk = packet.isOk := by rw [hHeader]; rfl
  have hSlice := slice_eq hHeader hLoad
  unfold trigger
  rw [if_neg (by simp [h.noError.1]), if_neg (by simp [h.noError.2]), if_pos hReceive]
  unfold processReceivedPacket
  dsimp only
  rw [hStatus]
  cases hOk : packet.isOk with
  | false => exact .refused hOk
  | true =>
    rw [if_pos rfl]
    show Handled s packet (s.advanced.copyMessage s.recvBuffer s.processed)
    obtain hEmpty | hSome := eq_or_ne s.recvBuffersEmpty []
    · rw [copyMessage_of_none (s := s.advanced) hEmpty]
      exact .dropped hOk hEmpty
    · obtain ⟨target, others, hEmpty⟩ := List.exists_cons_of_ne_nil hSome
      have hCount := h.count
      rw [hEmpty, List.length_cons, hCap] at hCount
      have hRoom : s.recvMessages.length < RECV_QUEUE_CAP := by omega
      rw [copyMessage_of_some (s := s.advanced) hEmpty hRoom, hSlice]
      by_cases hEnd : s.recvBuffer.index + PacketHeader.SIZE + packet.contents.length ≤ BUFFER_SIZE
      · rw [if_pos hEnd, bind_of_ok]
        unfold PacketBuffer.copyFromSlice
        by_cases hPage : packet.contents.length ≤ PAGE_SIZE
        · rw [dif_pos hPage, bind_of_ok]
          exact .copied hOk ⟨hEnd, hPage⟩ hEmpty rfl (List.prefix_append _ _)
        · rw [dif_neg hPage]
          exact .panicked hOk hSome (fun hFits => hPage hFits.2) _
      · rw [if_neg hEnd]
        exact .panicked hOk hSome (fun hFits => hEnd hFits.1) _

theorem processed_of_pending (hPending : s.pending = packet :: rest) :
    s.arrived[s.processed]? = some packet ∧ s.arrived.drop (s.processed + 1) = rest := by
  constructor
  · have hHead := congrArg List.head? hPending
    rwa [pending, List.head?_drop] at hHead
  · rw [← List.tail_drop]
    exact congrArg List.tail hPending

theorem Sound.drop (h : Sound frames s) (hPending : s.pending = packet :: rest)
    (hOk : packet.isOk = true) :
    Sound frames { s.advanced with dropped := s.dropped ++ [(s.processed, 0)] } := by
  obtain ⟨hFirst, hRest⟩ := processed_of_pending hPending
  refine
    { ring := ?_
      counted := (List.getElem?_eq_some_iff.mp hFirst).1
      reported := nofun
      noError := ⟨rfl, rfl⟩
      copied := h.copied
      inOrder := h.inOrder
      below := fun number hMem => Nat.lt_succ_of_lt (h.below number hMem)
      kept := fun number hNumber => ?_
      conserved := h.conserved }
  · show InRing _ _ (s.arrived.drop (s.processed + 1))
    rw [hRest]
    exact (hPending ▸ h.ring).process hOk
  · obtain hBefore | rfl := Nat.lt_succ_iff_lt_or_eq.mp hNumber
    · exact (h.kept number hBefore).imp_right (Or.imp_right (List.mem_append_left _))
    · exact Or.inr (Or.inr (List.mem_append_right _ List.mem_cons_self))

theorem Sound.copy (h : Sound frames s) (hPending : s.pending = packet :: rest)
    (hOk : packet.isOk = true) {target filled : PacketBuffer} {others : List PacketBuffer}
    (hEmpty : s.recvBuffersEmpty = target :: others) (hFrame : filled.frame = target.frame)
    (hBytes : packet.contents <+: filled.bytes) :
    Sound frames { s.advanced with
      recvBuffersEmpty := others
      recvMessages := s.recvMessages ++ [⟨s.processed, filled⟩] } := by
  obtain ⟨hFirst, hRest⟩ := processed_of_pending hPending
  let message : Message := ⟨s.processed, filled⟩
  have hFlight : s.token.toList ++ (s.recvMessages ++ [message]) = s.inFlight ++ [message] :=
    (List.append_assoc _ _ _).symm
  have hNumbers : s.seen.map Prod.fst ++ (s.inFlight ++ [message]).map Message.number =
      s.seen.map Prod.fst ++ s.inFlight.map Message.number ++ [s.processed] := by grind
  refine
    { ring := ?_
      counted := (List.getElem?_eq_some_iff.mp hFirst).1
      reported := nofun
      noError := ⟨rfl, rfl⟩
      copied := ?_
      inOrder := ?_
      below := ?_
      kept := fun number hNumber => ?_
      conserved := ?_ }
  · show InRing _ _ (s.arrived.drop (s.processed + 1))
    rw [hRest]
    exact (hPending ▸ h.ring).process hOk
  · show ∀ other ∈ s.token.toList ++ (s.recvMessages ++ [message]), _
    rw [hFlight]
    intro other hMem
    obtain hBefore | hLast := List.mem_append.mp hMem
    · exact h.copied other hBefore
    · obtain rfl := List.mem_singleton.mp hLast
      exact ⟨packet, hFirst, hBytes⟩
  · show (s.seen.map Prod.fst ++ (s.token.toList ++ (s.recvMessages ++ [message])).map
      Message.number).Pairwise (· < ·)
    rw [hFlight, hNumbers, List.pairwise_append]
    refine ⟨h.inOrder, List.pairwise_singleton _ _, fun number hMem last hLast => ?_⟩
    obtain rfl := List.mem_singleton.mp hLast
    exact h.below number hMem
  · show ∀ number ∈ s.seen.map Prod.fst ++ (s.token.toList ++ (s.recvMessages ++ [message])).map
      Message.number, number < s.processed + 1
    rw [hFlight, hNumbers]
    intro number hMem
    obtain hBefore | hLast := List.mem_append.mp hMem
    · exact Nat.lt_succ_of_lt (h.below number hBefore)
    · exact List.mem_singleton.mp hLast ▸ Nat.lt_succ_self _
  · show number ∈ s.seen.map Prod.fst ∨ number ∈ (s.token.toList ++
      (s.recvMessages ++ [message])).map Message.number ∨ _
    rw [hFlight, List.map_append]
    obtain hBefore | rfl := Nat.lt_succ_iff_lt_or_eq.mp hNumber
    · exact (h.kept number hBefore).imp_right (Or.imp_left (List.mem_append_left _))
    · exact Or.inr (Or.inl (List.mem_append_right _ List.mem_cons_self))
  · refine List.Perm.trans ?_ h.conserved
    show (others.map PacketBuffer.frame ++ (s.token.toList ++
      (s.recvMessages ++ [message])).map fun message => message.buffer.frame).Perm s.frames
    have hTaken : (target :: others).map PacketBuffer.frame =
        filled.frame :: others.map PacketBuffer.frame := by
      rw [List.map_cons, hFrame]
    unfold Receiver.frames
    rw [hFlight, hEmpty, List.map_append, hTaken, ← List.append_assoc]
    exact List.perm_append_singleton _ _

/-- A processed packet is in flight or dropped. -/
theorem Sound.trigger (h : Sound frames s) (hCap : frames.length = RECV_QUEUE_CAP)
    (hStep : s.trigger = .ok s') : Sound frames s' := by
  have hClear : Sound frames { s with interruptStatus := .clear } :=
    { h with reported := nofun, noError := ⟨rfl, rfl⟩ }
  cases hReceive : s.interruptStatus.receiveOk with
  | false =>
    unfold Receiver.trigger at hStep
    rw [if_neg (by simp [h.noError.1]), if_neg (by simp [h.noError.2]), hReceive] at hStep
    obtain rfl := Except.ok.inj hStep
    exact hClear
  | true =>
    obtain ⟨packet, rest, hPending⟩ := List.exists_cons_of_ne_nil (h.reported hReceive)
    have hHandled := h.handled hCap hReceive hPending
    rw [hStep] at hHandled
    cases hHandled with
    | refused hStatus => exact hClear
    | dropped hOk hNone => exact h.drop hPending hOk
    | copied hOk hFits hEmpty hFrame hBytes => exact h.copy hPending hOk hEmpty hFrame hBytes

/-! ### Receive and consume -/

theorem Sound.receive (h : Sound frames s) : Sound frames s.receive := by
  unfold Receiver.receive
  split
  · rename_i message messages hToken hMessages
    let received : Receiver := { s with token := some message, recvMessages := messages }
    have hFlight : s.inFlight = received.inFlight := by
      unfold inFlight
      rw [hToken, hMessages]
      rfl
    have hFrames : s.frames = received.frames := congrArg (_ ++ List.map _ ·) hFlight
    exact
      { h with
        copied := hFlight ▸ h.copied
        inOrder := hFlight ▸ h.inOrder
        below := hFlight ▸ h.below
        kept := hFlight ▸ h.kept
        conserved := hFrames ▸ h.conserved }
  · exact h

/-- The state after the closure has seen a message. -/
def consumed (s : Receiver) (message : Message) : Receiver :=
  { s with
    token := none
    seen := s.seen ++ [(message.number, message.buffer.bytes)]
    recvBuffersEmpty := s.recvBuffersEmpty ++ [message.buffer] }

theorem Sound.consume_of_some (h : Sound frames s) (hCap : frames.length = RECV_QUEUE_CAP)
    {message : Message} (hToken : s.token = some message) :
    s.consume = .ok (s.consumed message) ∧ Sound frames (s.consumed message) := by
  have hRoom : s.recvBuffersEmpty.length < RECV_QUEUE_CAP := by
    have hCount := h.count
    rw [hToken, hCap] at hCount
    simp only [Option.toList_some, List.length_cons, List.length_nil] at hCount
    omega
  have hFlight : s.inFlight = message :: s.recvMessages := by
    rw [inFlight, hToken]
    rfl
  have hNumbers : s.seen.map Prod.fst ++ s.inFlight.map Message.number =
      (s.seen ++ [(message.number, message.buffer.bytes)]).map Prod.fst ++
        s.recvMessages.map Message.number := by
    rw [hFlight, List.map_append, List.append_assoc]
    rfl
  constructor
  · unfold Receiver.consume
    simp only [hToken, if_pos hRoom]
    rfl
  · refine
      { h with
        copied := fun other hMem => h.copied other (hFlight ▸ List.mem_cons_of_mem _ hMem)
        inOrder := hNumbers ▸ h.inOrder
        below := hNumbers ▸ h.below
        kept := fun number hNumber => ?_
        conserved := ?_ }
    · show number ∈ (s.seen ++ [(message.number, message.buffer.bytes)]).map Prod.fst ∨
        number ∈ s.recvMessages.map Message.number ∨ _
      rw [List.map_append]
      obtain hSeen | hFlying | hDropped := h.kept number hNumber
      · exact Or.inl (List.mem_append_left _ hSeen)
      · grind
      · exact Or.inr (Or.inr hDropped)
    · have hFrames := h.conserved
      rw [Receiver.frames, hFlight, List.map_cons] at hFrames
      refine List.Perm.trans ?_ hFrames
      show ((s.recvBuffersEmpty ++ [message.buffer]).map PacketBuffer.frame ++
        s.recvMessages.map fun message => message.buffer.frame).Perm _
      rw [List.map_append, List.append_assoc]
      exact List.Perm.refl _

theorem consume_of_none (hToken : s.token = none) : s.consume = .ok s := by
  unfold Receiver.consume
  simp only [hToken]

/-- Every step keeps the invariant. -/
theorem Sound.step (h : Sound frames s) (hCap : frames.length = RECV_QUEUE_CAP)
    {event : ReceiveEvent} (hStep : s.step event = .ok s') : Sound frames s' := by
  cases event with
  | arrive packet => exact Except.ok.inj hStep ▸ h.arrive packet
  | interrupt => exact h.trigger hCap hStep
  | receive => exact Except.ok.inj hStep ▸ h.receive
  | consume =>
    cases hToken : s.token with
    | none => exact Except.ok.inj ((consume_of_none hToken).symm.trans hStep) ▸ h
    | some message =>
      obtain ⟨hConsume, hSound⟩ := h.consume_of_some hCap hToken
      exact Except.ok.inj (hConsume.symm.trans hStep) ▸ hSound

/-! ### Which runs deliver the packets -/

/-- The closure sees the bytes of the packet if and only if they fill the page. -/
theorem Sound.exact_iff (h : Sound frames s) {message : Message} (hToken : s.token = some message) :
    (s.arrived[message.number]?).map Packet.contents = some message.buffer.bytes ↔
      (s.arrived[message.number]?).map (fun packet => packet.contents.length) = some PAGE_SIZE := by
  have hMem : message ∈ s.inFlight := by
    rw [inFlight, hToken]
    exact List.mem_cons_self
  obtain ⟨packet, hPacket, hBytes⟩ := h.copied message hMem
  rw [hPacket, Option.map_some, Option.map_some, Option.some_inj, Option.some_inj]
  constructor
  · intro hEq
    rw [hEq, message.buffer.size]
  · intro hLength
    exact hBytes.eq_of_length (by rw [hLength, message.buffer.size])

/-- What has been seen stays faithful. -/
theorem Faithful.later (h : Faithful frames s) (hSound : Sound frames s') (hSeen : s'.seen = s.seen)
    (hArrived : s.arrived <+: s'.arrived) : Faithful frames s' := by
  rw [hSound.faithful_iff, hSeen]
  intro number bytes hMem
  have hBytes := h.unchanged number bytes hMem
  obtain ⟨packet, hPacket, rfl⟩ := Option.map_eq_some_iff.mp hBytes
  obtain ⟨later, hLater⟩ := hArrived
  rw [← hLater, List.getElem?_append_left (List.getElem?_eq_some_iff.mp hPacket).1, hPacket]
  rfl

theorem arrived_arrive (s : Receiver) (packet : Packet) :
    (s.arrive packet).seen = s.seen ∧ s.arrived <+: (s.arrive packet).arrived := by
  unfold Receiver.arrive
  split
  · exact ⟨rfl, List.prefix_append _ _⟩
  · exact ⟨rfl, List.prefix_refl _⟩

theorem arrived_receive (s : Receiver) :
    s.receive.seen = s.seen ∧ s.receive.arrived = s.arrived := by
  unfold Receiver.receive
  split <;> exact ⟨rfl, rfl⟩

/-- The first packet is the only one. -/
theorem meets_interrupt_iff (hReceive : s.interruptStatus.receiveOk = true)
    (hPending : s.pending = packet :: rest) :
    s.Meets .interrupt ↔
      rest = [] ∧ packet.isOk = true ∧ (s.recvBuffersEmpty ≠ [] → s.Fits packet) := by
  constructor
  · intro hMeets
    obtain ⟨only, hOnly, hOk, hFits⟩ := hMeets hReceive
    obtain ⟨rfl, rfl⟩ := List.cons.inj (hPending.symm.trans hOnly)
    exact ⟨rfl, hOk, hFits⟩
  · rintro ⟨rfl, hOk, hFits⟩ -
    exact ⟨packet, hPending, hOk, hFits⟩

section

variable (h : Sound frames s) (hCap : frames.length = RECV_QUEUE_CAP)
  (hFaithful : Faithful frames s)

include h hCap hFaithful

theorem Sound.interrupt_iff (hReceive : s.interruptStatus.receiveOk = true) :
    s.Meets .interrupt ↔ ∃ s', s.trigger = .ok s' ∧ s'.pending = [] ∧ Faithful frames s' := by
  obtain ⟨packet, rest, hPending⟩ := List.exists_cons_of_ne_nil (h.reported hReceive)
  obtain ⟨-, hRest⟩ := processed_of_pending hPending
  rw [meets_interrupt_iff hReceive hPending]
  have hHandled := h.handled hCap hReceive hPending
  generalize hResult : s.trigger = result at hHandled
  cases hHandled with
  | refused hStatus =>
    refine iff_of_false (fun hMeets => ?_) ?_
    · rw [hStatus] at hMeets
      cases hMeets.2.1
    · rintro ⟨s', hEq, hNone, -⟩
      obtain rfl := Except.ok.inj hEq
      exact absurd (hPending.symm.trans hNone) (List.cons_ne_nil _ _)
  | dropped hOk hNone =>
    constructor
    · rintro ⟨rfl, -, -⟩
      exact ⟨_, rfl, hRest, hFaithful.later (h.drop hPending hOk) rfl (List.prefix_refl _)⟩
    · rintro ⟨s', hEq, hDrained, -⟩
      obtain rfl := Except.ok.inj hEq
      exact ⟨hRest.symm.trans hDrained, hOk, fun hSome => absurd hNone hSome⟩
  | copied hOk hFits hEmpty hFrame hBytes =>
    constructor
    · rintro ⟨rfl, -, -⟩
      exact ⟨_, rfl, hRest, hFaithful.later (h.copy hPending hOk hEmpty hFrame hBytes) rfl
        (List.prefix_refl _)⟩
    · rintro ⟨s', hEq, hDrained, -⟩
      obtain rfl := Except.ok.inj hEq
      exact ⟨hRest.symm.trans hDrained, hOk, fun _ => hFits⟩
  | panicked hOk hSome hLong stop => grind

/-- A step from a faithful state does what it should if and only if it gets what
it needs. -/
theorem Sound.meets_iff (event : ReceiveEvent) :
    s.Meets event ↔ ∃ s', s.step event = .ok s' ∧
      (event = .interrupt → s.interruptStatus.receiveOk = true → s'.pending = []) ∧
      Faithful frames s' := by
  cases event with
  | arrive packet =>
    obtain ⟨hSeen, hArrived⟩ := arrived_arrive s packet
    exact iff_of_true trivial
      ⟨_, rfl, nofun, hFaithful.later (h.arrive packet) hSeen hArrived⟩
  | receive =>
    obtain ⟨hSeen, hArrived⟩ := arrived_receive s
    exact iff_of_true trivial
      ⟨_, rfl, nofun, hFaithful.later h.receive hSeen (hArrived ▸ List.prefix_refl _)⟩
  | interrupt =>
    cases hReceive : s.interruptStatus.receiveOk with
    | true =>
      rw [h.interrupt_iff hCap hFaithful hReceive]
      simp only [forall_const]
      rfl
    | false =>
      have hTrigger : s.trigger = .ok { s with interruptStatus := .clear } := by
        unfold Receiver.trigger
        rw [if_neg (by simp [h.noError.1]), if_neg (by simp [h.noError.2]), hReceive]
        rfl
      refine iff_of_true (fun hOk => ?_) ⟨_, hTrigger, fun _ => nofun, ?_⟩
      · rw [hReceive] at hOk
        cases hOk
      · exact hFaithful.later (h.trigger hCap hTrigger) rfl (List.prefix_refl _)
  | consume =>
    cases hToken : s.token with
    | none =>
      refine iff_of_true (fun message hSome => ?_) ⟨s, consume_of_none hToken, nofun, hFaithful⟩
      rw [hToken] at hSome
      cases hSome
    | some message =>
      obtain ⟨hConsume, hSound⟩ := h.consume_of_some hCap hToken
      constructor
      · intro hMeets
        refine ⟨_, hConsume, nofun, hSound.faithful_iff.mpr fun number bytes hMem => ?_⟩
        obtain hBefore | hLast := List.mem_append.mp hMem
        · exact hFaithful.unchanged number bytes hBefore
        · obtain ⟨rfl, rfl⟩ := Prod.mk.inj (List.mem_singleton.mp hLast)
          exact (h.exact_iff hToken).mpr (hMeets message hToken)
      · rintro ⟨s', hStep, -, hAfter⟩ other hOther
        obtain rfl := Option.some.inj (hToken.symm.trans hOther)
        obtain rfl := Except.ok.inj (hConsume.symm.trans hStep)
        exact (h.exact_iff hToken).mp
          (hAfter.unchanged _ _ (List.mem_append_right _ List.mem_cons_self))

theorem Sound.delivers_iff (events : List ReceiveEvent) :
    Delivers frames s events ↔ s.Orderly events := by
  induction events generalizing s with
  | nil => exact iff_of_true hFaithful trivial
  | cons event events ih =>
    constructor
    · rintro ⟨-, s', hStep, hDrained, hRest⟩
      have hAfter : Faithful frames s' := by
        cases events with
        | nil => exact hRest
        | cons next later => exact hRest.1
      refine ⟨(h.meets_iff hCap hFaithful event).mpr ⟨s', hStep, hDrained, hAfter⟩, ?_⟩
      intro other hOther
      obtain rfl := Except.ok.inj (hStep.symm.trans hOther)
      exact (ih (h.step hCap hStep) hAfter).mp hRest
    · rintro ⟨hMeets, hRest⟩
      obtain ⟨s', hStep, hDrained, hAfter⟩ := (h.meets_iff hCap hFaithful event).mp hMeets
      exact ⟨hFaithful, s', hStep, hDrained,
        (ih (h.step hCap hStep) hAfter).mpr (hRest s' hStep)⟩

end

end

theorem faithful_new (data : Nat → UInt8) :
    Faithful ((List.ofFn buffers).map PacketBuffer.frame) (new buffers data) :=
  (sound_new buffers data).faithful_iff.mpr nofun

/-- Packets are delivered in exactly those runs in which every interrupt stands
for one packet, which is valid and lies in the buffer, and every packet that is
consumed has the length of a page. -/
theorem packets_delivered_iff (data : Nat → UInt8) (events : List ReceiveEvent) :
    Delivers ((List.ofFn buffers).map PacketBuffer.frame) (new buffers data) events ↔
      (new buffers data).Orderly events :=
  (sound_new buffers data).delivers_iff (by simp) (faithful_new buffers data) events

theorem Delivers.run {frames : List Nat} {s : Receiver} {events : List ReceiveEvent}
    (h : Delivers frames s events) : ∃ s', s.run events = .ok s' ∧ Faithful frames s' := by
  induction events generalizing s with
  | nil => exact ⟨s, rfl, h⟩
  | cons event events ih =>
    obtain ⟨-, s₁, hStep, -, hRest⟩ := h
    obtain ⟨s', hRun, hFaithful⟩ := ih hRest
    refine ⟨s', ?_, hFaithful⟩
    rw [Receiver.run, hStep]
    exact hRun

/-- A page of zeros in each of the frames from 1 on. -/
def zeroPages (i : Fin RECV_QUEUE_CAP) : PacketBuffer :=
  ⟨i + 1, List.replicate PAGE_SIZE 0, List.length_replicate⟩

/-- A packet of 60 bytes is consumed as a whole page, and one interrupt after two
such packets leaves the second one in the ring. -/
theorem packets_not_delivered : ∃ packet : Packet, packet.contents.length = 60 ∧
    (¬ Delivers ((List.ofFn zeroPages).map PacketBuffer.frame) (new zeroPages fun _ => 0)
      [.arrive packet, .interrupt, .receive, .consume]) ∧
    ¬ Delivers ((List.ofFn zeroPages).map PacketBuffer.frame) (new zeroPages fun _ => 0)
      [.arrive packet, .arrive packet, .interrupt] := by
  let packet := Packet.zeros 60 (by decide)
  have hSeen : (((new zeroPages fun _ => 0).run [.arrive packet, .interrupt, .receive,
      .consume]).map fun s => (s.seen.map fun entry => (entry.1, entry.2.length),
        s.arrived.map fun packet => packet.contents.length)).toOption =
      some ([(0, PAGE_SIZE)], [60]) := by decide +kernel
  let reported := ((new zeroPages fun _ => 0).arrive packet).arrive packet
  have hReported : reported.interruptStatus.receiveOk = true := by decide +kernel
  have hLeft : (reported.trigger.map fun s => s.pending.length).toOption = some 1 := by
    decide +kernel
  refine ⟨packet, rfl, fun hRun => ?_, fun hRun => ?_⟩
  · obtain ⟨s, hOk, hFaithful⟩ := hRun.run
    obtain ⟨s', hOk', hView⟩ := exists_ok_of_toOption hSeen
    obtain rfl := Except.ok.inj (hOk.symm.trans hOk')
    obtain ⟨hEntries, hArrived⟩ := Prod.mk.inj hView
    obtain ⟨⟨number, bytes⟩, hSeen, hEntry⟩ := List.map_eq_singleton_iff.mp hEntries
    obtain ⟨first, hFirst, hLength⟩ := List.map_eq_singleton_iff.mp hArrived
    obtain ⟨rfl, hPage⟩ := Prod.mk.inj hEntry
    have hBytes := hFaithful.unchanged 0 bytes (hSeen ▸ List.mem_cons_self)
    rw [hFirst] at hBytes
    rw [← Option.some.inj hBytes, hLength] at hPage
    cases hPage
  · obtain ⟨-, s₁, hFirst, -, -, s₂, hSecond, -, -, s₃, hThird, hDrained, -⟩ := hRun
    obtain rfl := Except.ok.inj hFirst
    obtain rfl := Except.ok.inj hSecond
    obtain ⟨s', hOk, hPending⟩ := exists_ok_of_toOption hLeft
    obtain rfl := Except.ok.inj (hOk.symm.trans hThird)
    rw [hDrained rfl hReported] at hPending
    cases hPending

end Receiver

end D3OS.Device.Rtl8139
