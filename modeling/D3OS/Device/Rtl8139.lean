import D3OS.Memory.Basic
import D3OS.Memory.FrameConservation
import Mathlib.Logic.Function.Basic

/-! The transmit side of the RTL8139 driver, `device/rtl8139.rs`: any number of
calls of `TxToken::consume`, the four transmit descriptors of the device, and
the interrupt handler. A packet is named after the call that sends it. Every
statement of `consume` is a step of its own, so that interrupts and other calls
may come between any two of them. The contents of packets and the receive side
are left out. -/
namespace D3OS.Device.Rtl8139

open Frames (Allocator PhysFrameRange)
open Memory (PAGE_SIZE VirtAddr.new)

/-- The next statement of a call of `consume`. -/
inductive Stage where
  | checkLength
  | allocate
  | setFlags
  | enqueue
  | fill
  | nextTransmitDescriptor
  | lock (index : Fin 4)
  | awaitAvailable (index : Fin 4)
  | writeAddress (index : Fin 4)
  | writeStatus (index : Fin 4)
  | unlock (index : Fin 4)
  | done
  deriving DecidableEq, Repr

/-- A call of `consume`: its argument and its local variables. -/
structure Call where
  len : Nat
  physBuffer : PhysFrameRange
  stage : Stage

/-- A transmit descriptor: which call holds its mutex, the address register, and
the packet that the device has yet to fetch. -/
structure TransmitDescriptor where
  lockedBy : Option Nat
  address : Nat
  transmitting : Option Nat

/-- `available`: the device clears `OWN` when the status register is written and
sets it once it has fetched the packet. -/
def TransmitDescriptor.available (self : TransmitDescriptor) : Bool := self.transmitting.isNone

/-- The bits of the interrupt status register that the handler looks at. -/
structure Interrupt where
  receiveOk : Bool
  receiveError : Bool
  transmitOk : Bool
  transmitError : Bool

def Interrupt.clear : Interrupt := ⟨false, false, false, false⟩

/-- The device sets bits; only a write of the register clears them. -/
def Interrupt.or (self status : Interrupt) : Interrupt :=
  ⟨self.receiveOk || status.receiveOk, self.receiveError || status.receiveError,
    self.transmitOk, self.transmitError || status.transmitError⟩

/-- The driver, the device and the frame allocator. The packets in `fifo` have
been fetched, those in `completed` have been sent. -/
structure State where
  allocator : Allocator
  calls : Nat → Call
  transmitIndex : Nat
  sendQueue : List PhysFrameRange
  descriptors : Fin 4 → TransmitDescriptor
  interruptStatus : Interrupt
  fifo : List Nat
  completed : List Nat

namespace State

variable (s : State)

def setStage (packet : Nat) (stage : Stage) : State :=
  { s with calls := Function.update s.calls packet { s.calls packet with stage } }

def setBuffer (packet : Nat) (physBuffer : PhysFrameRange) : State :=
  { s with calls := Function.update s.calls packet { s.calls packet with physBuffer } }

def setDescriptor (index : Fin 4) (descriptor : TransmitDescriptor) : State :=
  { s with descriptors := Function.update s.descriptors index descriptor }

/-- The next statement of a call. A call that waits for a mutex or for a
descriptor stays where it is. -/
def advance (packet : Nat) : Except Panic State :=
  let call := s.calls packet
  match call.stage with
  | .checkLength =>
    if call.len > PAGE_SIZE then .error .packetTooLong else .ok (s.setStage packet .allocate)
  | .allocate => do
    let (physBuffer, allocator) ← Frames.alloc s.allocator 1
    return ({ s with allocator }.setBuffer packet physBuffer).setStage packet .setFlags
  | .setFlags => do
    -- The flags in the page tables of the kernel are not part of the state.
    let _ ← VirtAddr.new (PAGE_SIZE * call.physBuffer.start)
    let _ ← VirtAddr.new (PAGE_SIZE * call.physBuffer.stop)
    return s.setStage packet .enqueue
  | .enqueue => .ok { s.setStage packet .fill with sendQueue := s.sendQueue ++ [call.physBuffer] }
  | .fill => .ok (s.setStage packet .nextTransmitDescriptor)
  | .nextTransmitDescriptor =>
    .ok { s.setStage packet (.lock (Fin.ofNat 4 s.transmitIndex)) with
      transmitIndex := (s.transmitIndex + 1) % 256 }
  | .lock index =>
    let descriptor := s.descriptors index
    if descriptor.lockedBy.isSome then .ok s
    else .ok ((s.setDescriptor index { descriptor with lockedBy := some packet }).setStage packet
      (.awaitAvailable index))
  | .awaitAvailable index =>
    if (s.descriptors index).available then .ok (s.setStage packet (.writeAddress index))
    else .ok s
  | .writeAddress index =>
    let address := PAGE_SIZE * call.physBuffer.start % 2 ^ 32
    .ok ((s.setDescriptor index { s.descriptors index with address }).setStage packet
      (.writeStatus index))
  | .writeStatus index =>
    .ok ((s.setDescriptor index { s.descriptors index with transmitting := some packet }).setStage
      packet (.unlock index))
  | .unlock index =>
    .ok ((s.setDescriptor index { s.descriptors index with lockedBy := none }).setStage packet
      .done)
  | .done => .ok s

/-- The device has read the packet of a descriptor and sets `OWN`. -/
def fetch (index : Fin 4) : State :=
  match (s.descriptors index).transmitting with
  | none => s
  | some packet =>
    { s.setDescriptor index { s.descriptors index with transmitting := none } with
      fifo := s.fifo ++ [packet] }

/-- The device has sent a packet that it had fetched. -/
def complete (packet : Nat) : State :=
  if packet ∈ s.fifo then
    { s with
      fifo := s.fifo.filter (· ≠ packet)
      completed := packet :: s.completed
      interruptStatus := { s.interruptStatus with transmitOk := true } }
  else s

/-- The loop that takes all buffers off the queue and frees them. -/
def freeAll : Allocator → List PhysFrameRange → Except Panic Allocator
  | allocator, [] => .ok allocator
  | allocator, buffer :: queue => do
    let allocator ← Frames.free allocator buffer
    freeAll allocator queue

/-- `Rtl8139InterruptHandler::trigger`. The frame allocator is locked if the
interrupt has come while a thread was allocating. -/
def trigger (frameAllocatorLocked : Bool) : Except Panic State :=
  let status := s.interruptStatus
  if status.transmitError then .error .transmitFailed
  else if status.receiveError then .error .receiveFailed
  else if status.transmitOk ∧ ¬ frameAllocatorLocked then do
    let allocator ← freeAll s.allocator s.sendQueue
    return { s with interruptStatus := .clear, allocator, sendQueue := [] }
  else .ok { s with interruptStatus := .clear }

end State

/-- Who takes the next step: a call of `consume`, the device, or the handler. -/
inductive Event where
  | advance (packet : Nat)
  | fetch (index : Fin 4)
  | complete (packet : Nat)
  | report (status : Interrupt)
  | interrupt (frameAllocatorLocked : Bool)

def State.step (s : State) : Event → Except Panic State
  | .advance packet => s.advance packet
  | .fetch index => .ok (s.fetch index)
  | .complete packet => .ok (s.complete packet)
  | .report status => .ok { s with interruptStatus := s.interruptStatus.or status }
  | .interrupt frameAllocatorLocked => s.trigger frameAllocatorLocked

def State.run (s : State) : List Event → Except Panic State
  | [] => .ok s
  | event :: events => do
    let s ← s.step event
    s.run events

end D3OS.Device.Rtl8139
