import D3OS.Device.Rtl8139
import D3OS.Library.LittleEndian
import D3OS.Library.RecordRing

/-! The receive side of the RTL8139 driver, `device/rtl8139.rs`: the ring that
the device writes packets to, `process_received_packet`, and the two queues
between which the packet buffers circulate. -/
namespace D3OS.Device.Rtl8139

open LittleEndian RecordRing
open Memory (PAGE_SIZE)

def BUFFER_SIZE : Nat := 8 * 1024 + 16 + 1500

def RECV_QUEUE_CAP : Nat := 16

def ReceiveStatus.OK : Nat := 0x0001

structure PacketHeader where
  status : Nat
  length : Nat
  deriving DecidableEq, Repr

def PacketHeader.SIZE : Nat := 4

def PacketHeader.isOk (self : PacketHeader) : Bool :=
  self.status &&& ReceiveStatus.OK = ReceiveStatus.OK

/-- `ReceiveBuffer`. `data` is the memory from the start of the buffer on; the
vector has its first `BUFFER_SIZE` bytes. -/
structure ReceiveBuffer where
  index : Nat
  data : Nat → UInt8

/-- The index behind a packet: the next multiple of 4, within the ring. -/
def nextIndex (index length : Nat) : Nat :=
  let index := index + (length + PacketHeader.SIZE)
  let index := index + 3 &&& 2 ^ 64 - 1 - 3
  if index ≥ 8192 then index % 8192 else index

namespace ReceiveBuffer

variable (self : ReceiveBuffer)

/-- The header at the index, two numbers of two bytes. -/
def header : PacketHeader :=
  ⟨ofBytes (load self.data self.index 2), ofBytes (load self.data (self.index + 2) 2)⟩

def msgStart : Nat := self.index + PacketHeader.SIZE

def msgEnd : Nat := self.msgStart + self.header.length

/-- The index is moved behind a packet that is valid. -/
def process : ReceiveBuffer :=
  if self.header.isOk then { self with index := nextIndex self.index self.header.length } else self

def slice (start stop : Nat) : Except Panic (List UInt8) :=
  if start ≤ stop ∧ stop ≤ BUFFER_SIZE then .ok (load self.data start (stop - start))
  else .error .sliceIndex

end ReceiveBuffer

/-- One of the vectors that packets are copied to. It always has the length of
a page. -/
structure PacketBuffer where
  frame : Nat
  bytes : List UInt8
  size : bytes.length = PAGE_SIZE

def PacketBuffer.copyFromSlice (target : PacketBuffer) (src : List UInt8) :
    Except Panic PacketBuffer :=
  if h : src.length ≤ PAGE_SIZE then
    .ok
      { target with
        bytes := src ++ target.bytes.drop src.length
        size := by rw [List.length_append, List.length_drop, target.size]; omega }
  else .error .sliceIndex

/-- A buffer with the number of the packet that was copied to it. -/
structure Message where
  number : Nat
  buffer : PacketBuffer

/-- A packet as the device writes it to the ring. -/
structure Packet where
  status : Nat
  contents : List UInt8
  status_lt : status < 2 ^ 16
  length_lt : contents.length < 2 ^ 16

/-- Status, length and contents. The next packet starts at a multiple of 4. -/
def Packet.record (self : Packet) : Record UInt8 where
  cells := toBytes 2 self.status ++ toBytes 2 self.contents.length ++ self.contents
  stride := (self.contents.length + PacketHeader.SIZE + 3) / 4 * 4
  fits := by
    simp only [List.length_append, length_toBytes, PacketHeader.SIZE]
    omega

/-- The receive side of `Rtl8139`, with the token that `receive` has returned
and the place that the device writes to next. The rest is history: the packets
written to the ring, how many of them were processed, what the closures given to
`consume` saw, and the packets for which no buffer was found, with the number of
empty ones at that time. -/
structure Receiver where
  recvBuffer : ReceiveBuffer
  currentReadAddress : Nat
  interruptStatus : Interrupt
  recvBuffersEmpty : List PacketBuffer
  recvMessages : List Message
  token : Option Message
  writeAddress : Nat
  arrived : List Packet
  processed : Nat
  seen : List (Nat × List UInt8)
  dropped : List (Nat × Nat)

namespace Receiver

def new (buffers : Fin RECV_QUEUE_CAP → PacketBuffer) (data : Nat → UInt8) : Receiver where
  recvBuffer := ⟨0, data⟩
  currentReadAddress := 0
  interruptStatus := .clear
  recvBuffersEmpty := List.ofFn buffers
  recvMessages := []
  token := none
  writeAddress := 0
  arrived := []
  processed := 0
  seen := []
  dropped := []

variable (self : Receiver)

def pending : List Packet := self.arrived.drop self.processed

/-- The device writes a packet to the ring and sets `RECEIVE_OK`, unless there
is no room. -/
def arrive (packet : Packet) : Receiver :=
  if used (self.pending.map Packet.record) + packet.record.stride ≤ 8192 then
    { self with
      recvBuffer := { self.recvBuffer with
        data := store self.recvBuffer.data self.writeAddress packet.record.cells }
      writeAddress := (self.writeAddress + packet.record.stride) % 8192
      interruptStatus := { self.interruptStatus with receiveOk := true }
      arrived := self.arrived ++ [packet] }
  else self

/-- The rest of `process_received_packet`: copy the message and enqueue it. A
message that does not fit into the queue is dropped together with its buffer. -/
def copyMessage (recvBuffer : ReceiveBuffer) (number : Nat) : Except Panic Receiver :=
  match self.recvBuffersEmpty with
  | [] => .ok { self with dropped := self.dropped ++ [(number, 0)] }
  | target :: recvBuffersEmpty => do
    let src ← recvBuffer.slice recvBuffer.msgStart recvBuffer.msgEnd
    let target ← target.copyFromSlice src
    if self.recvMessages.length < RECV_QUEUE_CAP then
      return { self with
        recvBuffersEmpty, recvMessages := self.recvMessages ++ [⟨number, target⟩] }
    else
      return { self with
        recvBuffersEmpty, dropped := self.dropped ++ [(number, recvBuffersEmpty.length + 1)] }

/-- `process_received_packet`. The handler runs to its end before the next
interrupt, so that it always gets the locks. -/
def processReceivedPacket : Except Panic Receiver :=
  let recvBuffer := self.recvBuffer
  if recvBuffer.header.isOk then
    { self with
      recvBuffer := recvBuffer.process
      currentReadAddress := recvBuffer.process.index % 2 ^ 32
      processed := self.processed + 1 }.copyMessage recvBuffer self.processed
  else .ok self

/-- `Rtl8139InterruptHandler::trigger` without the transmit queue. -/
def trigger : Except Panic Receiver :=
  let status := self.interruptStatus
  if status.transmitError then .error .transmitFailed
  else if status.receiveError then .error .receiveFailed
  else
    let self := { self with interruptStatus := .clear }
    if status.receiveOk then self.processReceivedPacket else .ok self

/-- `receive`. The token borrows the device, so that there is no second call
until it is consumed. -/
def receive : Receiver :=
  match self.token, self.recvMessages with
  | none, message :: recvMessages => { self with token := some message, recvMessages }
  | _, _ => self

/-- `RxToken::consume`. The closure gets the whole buffer. -/
def consume : Except Panic Receiver :=
  match self.token with
  | none => .ok self
  | some message =>
    let self := { self with
      token := none
      seen := self.seen ++ [(message.number, message.buffer.bytes)] }
    if self.recvBuffersEmpty.length < RECV_QUEUE_CAP then
      .ok { self with recvBuffersEmpty := self.recvBuffersEmpty ++ [message.buffer] }
    else .error .unwrapFailed

end Receiver

/-- Who takes the next step: the device, the handler, or the network stack. -/
inductive ReceiveEvent where
  | arrive (packet : Packet)
  | interrupt
  | receive
  | consume

def Receiver.step (self : Receiver) : ReceiveEvent → Except Panic Receiver
  | .arrive packet => .ok (self.arrive packet)
  | .interrupt => self.trigger
  | .receive => .ok self.receive
  | .consume => self.consume

def Receiver.run (self : Receiver) : List ReceiveEvent → Except Panic Receiver
  | [] => .ok self
  | event :: events => do
    let self ← self.step event
    self.run events

end D3OS.Device.Rtl8139
