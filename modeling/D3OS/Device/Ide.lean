import D3OS.Storage.Block

/-! The driver of IDE channels. What the hardware answers is a `Bus`: the
status bytes that each wait reads before it times out, the words read from the
data port, and the course of each DMA transfer. The times, log messages and
page frames are left out, and so is the identification of drives. -/
namespace D3OS.Device.Ide

inductive TransferMode where
  | read
  | write
  deriving DecidableEq, Repr

inductive AddressType where
  | chs
  | lba28
  | lba48
  deriving DecidableEq, Repr

/-- What the transfers use of a `DriveInfo`. -/
structure DriveInfo where
  drive : Nat
  cylinders : Nat
  heads : Nat
  sectorsPerTrack : Nat
  multiwordDma : Nat
  ultraDma : Nat
  maxSectorsLba48 : Nat
  maxSectorsLba28 : Nat
  addressing : AddressType
  sectorSize : Nat
  deriving DecidableEq, Repr

namespace DriveInfo

def supportsDma (info : DriveInfo) : Bool := info.ultraDma ≠ 0 || info.multiwordDma ≠ 0

def sectorCount (info : DriveInfo) : Nat :=
  match info.addressing with
  | .chs => info.cylinders * info.heads * info.sectorsPerTrack
  | .lba28 => info.maxSectorsLba28
  | .lba48 => info.maxSectorsLba48

def large (sectorSize : Nat) : DriveInfo := ⟨0, 0, 0, 0, 0, 0, 0, 2 ^ 28 - 1, .lba28, sectorSize⟩

end DriveInfo

namespace Status

def none : Nat := 0x00
def error : Nat := 0x01
def dataRequest : Nat := 0x08
def driveReady : Nat := 0x40
def busy : Nat := 0x80

end Status

inductive Command where
  | readPioLba28 | readPioLba48 | readDmaLba28 | readDmaLba48
  | writePioLba28 | writePioLba48 | writeDmaLba28 | writeDmaLba48
  deriving DecidableEq, Repr

/-- A register of the command block. It keeps the value written before the
last one, which 48-bit commands use as well. -/
structure Latch where
  current : Nat
  previous : Nat
  deriving DecidableEq, Repr

def Latch.write (latch : Latch) (value : Nat) : Latch := ⟨value, latch.current⟩

/-- The registers that address a sector. `sector_number`, `cylinder_low` and
`cylinder_high` are the ports `lba_low`, `lba_mid` and `lba_high`. -/
structure CommandRegisters where
  sectorCount : Latch
  lbaLow : Latch
  lbaMid : Latch
  lbaHigh : Latch
  driveHead : Nat
  deriving DecidableEq, Repr

/-- Write the count and the three address registers, in the order of the source. -/
def CommandRegisters.write (registers : CommandRegisters) (count low mid high : Nat) :
    CommandRegisters :=
  { registers with
    sectorCount := registers.sectorCount.write count
    lbaLow := registers.lbaLow.write low
    lbaMid := registers.lbaMid.write mid
    lbaHigh := registers.lbaHigh.write high }

structure PrdEntry where
  baseAddress : Nat
  byteCount : Nat
  endOfTransmission : Bool
  deriving DecidableEq, Repr

/-- The registers of the bus master, with the table that `address` points to. -/
structure DmaRegisters where
  address : Nat
  command : Nat
  status : Nat
  prd : List PrdEntry
  deriving DecidableEq, Repr

/-- The course of one DMA transfer: the frames it gets, what the loop that
waits for its end sees (whether an interrupt was received, and the status of
the bus master) before the timeout, whether the time is over after the loop,
and the bytes that end up in the DMA buffer. -/
structure DmaCourse where
  prdFrames : Nat
  dmaFrames : Nat
  observed : List (Bool × Nat)
  late : Bool
  contents : Nat → UInt8

/-- The answers of the hardware, counted from the start of the system. -/
structure Bus where
  polls : Nat → List Nat
  words : Nat → Nat
  courses : Nat → DmaCourse

/-- `IdeChannel`, with what it has written to its ports. `issued` are the
commands and the registers at that moment, `sent` the words written to the
data port, and the counters tell which answers of the bus come next. -/
structure IdeChannel where
  supportsDma : Bool
  receivedInterrupt : Bool
  lastDeviceControl : Nat
  interruptsDisabled : Bool
  deviceControl : Nat
  registers : CommandRegisters
  dma : DmaRegisters
  issued : List (Command × CommandRegisters)
  sent : List Nat
  polled : Nat
  taken : Nat
  transfers : Nat

/-- `IdeChannel::new`. The registers hold anything then. -/
def IdeChannel.new (supportsDma : Bool) (registers : CommandRegisters) : IdeChannel where
  supportsDma
  receivedInterrupt := false
  lastDeviceControl := 255
  interruptsDisabled := false
  deviceControl := 0
  registers
  dma := ⟨0, 0, 0, []⟩
  issued := []
  sent := []
  polled := 0
  taken := 0
  transfers := 0

/-- A channel on which nothing has been selected. -/
def IdeChannel.fresh : IdeChannel := .new false ⟨⟨0, 0⟩, ⟨0, 0⟩, ⟨0, 0⟩, ⟨0, 0⟩, 0⟩

/-- Drives that are ready at every wait but those with these numbers, and
send these words. -/
def Bus.readyBut (silent : List Nat) (words : Nat → Nat) : Bus where
  polls n := if n ∈ silent then [] else [Status.driveReady ||| Status.dataRequest]
  words
  courses _ := ⟨0, 0, [], false, fun _ => 0⟩

/-- `wait_status`, given the status bytes that are read before the timeout. -/
def waitStatus (status : Nat) : List Nat → Bool
  | [] => false
  | current :: rest =>
    if current &&& Status.busy = Status.busy then waitStatus status rest
    else if current &&& Status.error = Status.error then false
    else if current &&& status = status then true
    else waitStatus status rest

namespace IdeChannel

def wait (bus : Bus) (channel : IdeChannel) (status : Nat) : Bool × IdeChannel :=
  (waitStatus status (bus.polls channel.polled), { channel with polled := channel.polled + 1 })

/-- The byte that selects a drive, and for LBA the highest bits of the address. -/
def selector (drive : Nat) (prepareLba : Bool) (lbaHead : Nat) : Nat :=
  0xa0 ||| (if prepareLba then 0x40 else 0) ||| drive <<< 4 ||| lbaHead

def selectDrive (bus : Bus) (channel : IdeChannel) (drive : Nat) (prepareLba : Bool)
    (lbaHead : Nat) : Bool × IdeChannel :=
  if !prepareLba && channel.lastDeviceControl ≠ 255 &&
      channel.lastDeviceControl >>> 4 &&& 0x01 = drive then
    (true, channel)
  else if selector drive prepareLba lbaHead = channel.lastDeviceControl then (true, channel)
  else
    let (idle, channel) := channel.wait bus Status.none
    if !idle then (false, channel)
    else
      let channel := { channel with
        registers := { channel.registers with driveHead := selector drive prepareLba lbaHead } }
      let (idle, channel) := channel.wait bus Status.none
      if !idle then (false, channel)
      else (true, { channel with lastDeviceControl := selector drive prepareLba lbaHead })

def writeSector (channel : IdeChannel) (count low mid high : Nat) : IdeChannel :=
  { channel with registers := channel.registers.write count low mid high }

/-- `prepare_ata_io`. The results of `select_drive` are not looked at. -/
def prepareAtaIo (bus : Bus) (info : DriveInfo) (sector count : Nat) (channel : IdeChannel) :
    Except Panic IdeChannel :=
  match info.addressing with
  | .chs => do
    let (cylinder, head, sector) ←
      Storage.lbaToChs sector (info.heads % 256) (info.sectorsPerTrack % 256)
    let (_, channel) := channel.selectDrive bus info.drive false head
    return channel.writeSector (count % 256) sector (cylinder % 256) (cylinder >>> 8 % 256)
  | .lba28 =>
    let (_, channel) := channel.selectDrive bus info.drive true (sector >>> 24 % 256)
    return channel.writeSector (count % 256) (sector % 256) (sector >>> 8 % 256)
      (sector >>> 16 % 256)
  | .lba48 =>
    let (_, channel) := channel.selectDrive bus info.drive true 0
    let channel := channel.writeSector (count >>> 8 % 256) (sector >>> 24 % 256)
      (sector >>> 32 % 256) (sector >>> 40 % 256)
    return channel.writeSector (count % 256) (sector % 256) (sector >>> 8 % 256)
      (sector >>> 16 % 256)

def writeCommand (channel : IdeChannel) (command : Command) : IdeChannel :=
  { channel with issued := channel.issued ++ [(command, channel.registers)] }

end IdeChannel

def pioCommand (addressing : AddressType) : TransferMode → Command
  | .read => if addressing = .lba48 then .readPioLba48 else .readPioLba28
  | .write => if addressing = .lba48 then .writePioLba48 else .writePioLba28

def dmaCommand (addressing : AddressType) : TransferMode → Command
  | .read => if addressing = .lba48 then .readDmaLba48 else .readDmaLba28
  | .write => if addressing = .lba48 then .writeDmaLba48 else .writeDmaLba28

variable (profile : BuildProfile) (bus : Bus) (info : DriveInfo)

def startCommand (command : Command) (sector count : Nat) (channel : IdeChannel)
    : Except Panic IdeChannel := do
  let channel ← channel.prepareAtaIo bus info sector count
  return channel.writeCommand command

/-- The index `done * sector_size + j * 2`, in 16 bits. -/
def wordIndex (sectorSize done j : Nat) : Except Panic Nat := do
  let base ← profile.unsigned 16 (done * sectorSize)
  let offset ← profile.unsigned 16 (j * 2)
  profile.unsigned 16 (base + offset)

/-- The index `done * sector_size + j * 2 + 1`. -/
def highIndex (sectorSize done j : Nat) : Except Panic Nat := do
  let index ← wordIndex profile sectorSize done j
  profile.unsigned 16 (index + 1)

def setByte (buffer : List UInt8) (index : Nat) (value : UInt8) : Except Panic (List UInt8) :=
  if index < buffer.length then .ok (buffer.set index value) else .error .indexOutOfBounds

def getByte (buffer : List UInt8) (index : Nat) : Except Panic UInt8 :=
  match buffer[index]? with
  | some value => .ok value
  | none => .error .indexOutOfBounds

/-- The words of one sector, from the drive to the buffer. -/
def readWords (profile : BuildProfile) (bus : Bus) (sectorSize done : Nat) :
    List Nat → List UInt8 × IdeChannel → Except Panic (List UInt8 × IdeChannel)
  | [], state => .ok state
  | j :: rest, (buffer, channel) => do
    let word := bus.words channel.taken
    let channel := { channel with taken := channel.taken + 1 }
    let low ← wordIndex profile sectorSize done j
    let buffer ← setByte buffer low (UInt8.ofNat word)
    let high ← highIndex profile sectorSize done j
    let buffer ← setByte buffer high (UInt8.ofNat (word >>> 8))
    readWords profile bus sectorSize done rest (buffer, channel)

/-- The words of one sector, from the buffer to the drive. -/
def writeWords (profile : BuildProfile) (sectorSize done : Nat) (buffer : List UInt8) :
    List Nat → IdeChannel → Except Panic IdeChannel
  | [], channel => .ok channel
  | j :: rest, channel => do
    let low ← wordIndex profile sectorSize done j
    let lowByte ← getByte buffer low
    let high ← highIndex profile sectorSize done j
    let highByte ← getByte buffer high
    let word := lowByte.toNat ||| highByte.toNat <<< 8
    writeWords profile sectorSize done buffer rest { channel with sent := channel.sent ++ [word] }

abbrev Transferred := List UInt8 × IdeChannel

/-- The transfer of sector number `done` of a request. -/
def transferSector (sectorSize : Nat) (mode : TransferMode) (done : Nat) (state : Transferred)
    : Except Panic Transferred :=
  match mode with
  | .read => readWords profile bus sectorSize done (List.range (sectorSize / 2)) state
  | .write => do
    let channel ← writeWords profile sectorSize done state.1 (List.range (sectorSize / 2)) state.2
    return (state.1, channel)

/-- The loop over the sectors, when `done` of them have been transferred and
`left` are left. Before every sector but the first one it waits for the drive. -/
def transferSectors (bus : Bus) (transfer : (done : Nat) → Transferred → Except Panic Transferred) :
    (left done : Nat) → Transferred → Except Panic (Nat × Transferred)
  | 0, done, state => .ok (done, state)
  | left + 1, done, (buffer, channel) => do
    let (ready, channel) :=
      if done = 0 then (true, channel) else channel.wait bus Status.driveReady
    if !ready then return (done, buffer, channel)
    else
      let state ← transfer done (buffer, channel)
      transferSectors bus transfer left (done + 1) state

def performAtaPio (mode : TransferMode) (sector count : Nat) (buffer : List UInt8)
    (channel : IdeChannel) :
    Except Panic (Nat × Transferred) := do
  let channel ← startCommand bus info (pioCommand info.addressing mode) sector count channel
  let (ready, channel) := channel.wait bus Status.dataRequest
  if !ready then return (0, buffer, channel)
  else transferSectors bus (transferSector profile bus info.sectorSize mode) count 0 (buffer, channel)

def PAGE_SIZE : Nat := 4096

/-- Bits 3 and 4 are unknown to `DmaStatus`, and `from_bits` refuses them. -/
def unknownDmaStatus : Nat := 0x18

def DmaStatus.busMasterActive : Nat := 0x01
def DmaStatus.interrupt : Nat := 0x04

def DmaCommand.enable : Nat := 0x01
def DmaCommand.direction : Nat := 0x08

/-- The loop that waits for the end of a DMA transfer: whether it has ended,
and what was written to the command register last. An interrupt stops the bus
master, and it is started again if it is still active. -/
def awaitDma : (command : Nat) → List (Bool × Nat) → Except Panic (Bool × Nat)
  | command, [] => .ok (false, command)
  | command, (received, status) :: rest =>
    if !received then awaitDma command rest
    else if status &&& unknownDmaStatus ≠ 0 then .error .unwrapFailed
    else if status &&& DmaStatus.interrupt = DmaStatus.interrupt then
      if status &&& DmaStatus.busMasterActive = DmaStatus.busMasterActive then
        awaitDma DmaCommand.enable rest
      else .ok (true, 0x00)
    else awaitDma 0x00 rest

/-- The table of physical regions for this many pages. -/
def fillPrd (dmaFrames last : Nat) : List PrdEntry :=
  (List.range last).map (fun i => ⟨(dmaFrames + i * PAGE_SIZE) % 2 ^ 32, PAGE_SIZE, false⟩) ++
    [⟨(dmaFrames + last * PAGE_SIZE) % 2 ^ 32, PAGE_SIZE, true⟩]

def pagesFor (size : Nat) : Nat := size / PAGE_SIZE + if size % PAGE_SIZE = 0 then 0 else 1

/-- The first part of `perform_ata_dma`: fill the table and set up the bus
master. Without a page this panics: the number of the last page overflows, or
the first entry lies outside of the table. -/
def prepareDma (course : DmaCourse) (info : DriveInfo) (mode : TransferMode) (count : Nat)
    (channel : IdeChannel) : Except Panic IdeChannel := do
  let pages := pagesFor (count * info.sectorSize)
  let last ← profile.unsignedSub 64 pages 1
  if pages ≤ last then .error .indexOutOfBounds
  else return { channel with dma :=
    { address := course.prdFrames % 2 ^ 32
      command := if mode = .read then 0x00 else DmaCommand.direction
      status := 0xf9
      prd := fillPrd course.dmaFrames last } }

def performAtaDma (mode : TransferMode) (sector count : Nat) (buffer : List UInt8)
    (channel : IdeChannel) :
    Except Panic (Nat × Transferred) := do
  let course := bus.courses channel.transfers
  let channel ← prepareDma profile course info mode count
    { channel with transfers := channel.transfers + 1 }
  let channel ← startCommand bus info (dmaCommand info.addressing mode) sector count channel
  let (ready, channel) := channel.wait bus Status.dataRequest
  if !ready then return (0, buffer, channel)
  else
    let (finished, command) ← awaitDma DmaCommand.enable course.observed
    let channel := { channel with
      receivedInterrupt := false
      dma := { channel.dma with command } }
    if !finished || course.late then return (0, buffer, channel)
    else
      let buffer := if mode = .read then (List.range buffer.length).map course.contents else buffer
      return (count, buffer, channel)

/-- One chunk of a request: where it starts, its length, its part of the
buffer, and the number of sectors that were acknowledged. -/
structure Chunk where
  start : Nat
  count : Nat
  bufferIndex : Nat
  bufferEnd : Nat
  sectors : Nat
  deriving DecidableEq, Repr

/-- The transfer of one chunk, given its start, its length and its part of the
buffer. -/
abbrev ChunkTransfer := (start count : Nat) → List UInt8 → IdeChannel → Except Panic (Nat × Transferred)

def maxSectors (addressing : AddressType) : Nat := if addressing = .lba48 then 65535 else 255

/-- The loop of `perform_ata_io`, which also tells the chunks it has made. -/
def transferChunks (profile : BuildProfile) (info : DriveInfo) (transfer : ChunkTransfer)
    (sector count processed : Nat) (buffer : List UInt8) (channel : IdeChannel) :
    Except Panic (Nat × Transferred × List Chunk) :=
  if _ : processed < count then do
    let start ← profile.word (sector + processed)
    let chunk := min (count - processed) (maxSectors info.addressing)
    let bufferIndex ← profile.word (processed * info.sectorSize)
    let bufferEnd ← profile.word (bufferIndex + chunk * info.sectorSize)
    if bufferIndex ≤ bufferEnd ∧ bufferEnd ≤ buffer.length then
      let part := (buffer.drop bufferIndex).take (bufferEnd - bufferIndex)
      let (sectors, part, channel) ← transfer start chunk part channel
      let buffer := buffer.take bufferIndex ++ part ++ buffer.drop bufferEnd
      let made : Chunk := ⟨start, chunk, bufferIndex, bufferEnd, sectors⟩
      if _ : sectors = 0 then return (processed, (buffer, channel), [made])
      else
        let (processed, state, chunks) ← transferChunks profile info transfer sector count
          (processed + sectors) buffer channel
        return (processed, state, made :: chunks)
    else .error .sliceIndex
  else return (processed, (buffer, channel), [])
termination_by count - processed

/-- The part of `perform_ata_io` that enables the interrupts of the channel. -/
def IdeChannel.enableInterrupts (channel : IdeChannel) : IdeChannel :=
  if channel.interruptsDisabled then
    { channel with deviceControl := 0x00, interruptsDisabled := false }
  else channel

/-- `perform_ata_io`, with the transfer of the chunks as an argument. -/
def performAtaIoBy (transfer : ChunkTransfer) (sector count : Nat) (buffer : List UInt8)
    (channel : IdeChannel) : Except Panic (Nat × Transferred × List Chunk) :=
  let (selected, channel) := channel.selectDrive bus info.drive false 0
  if !selected then .ok (0, (buffer, channel), [])
  else
    let channel := { channel with receivedInterrupt := false }.enableInterrupts
    let (ready, channel) := channel.wait bus Status.driveReady
    if !ready then .ok (0, (buffer, channel), [])
    else transferChunks profile info transfer sector count 0 buffer channel

def performAtaIo (mode : TransferMode) (sector count : Nat) (buffer : List UInt8)
    (channel : IdeChannel) : Except Panic (Nat × Transferred × List Chunk) :=
  if channel.supportsDma && info.supportsDma then
    performAtaIoBy profile bus info (performAtaDma profile bus info mode) sector count buffer channel
  else
    performAtaIoBy profile bus info (performAtaPio profile bus info mode) sector count buffer channel

def ideDrive : Storage.BlockDevice IdeChannel where
  read sector count buffer channel := do
    let (sectors, state, _) ← performAtaIo profile bus info .read sector count buffer channel
    return (sectors, state)
  write sector count buffer channel := do
    let (sectors, state, _) ← performAtaIo profile bus info .write sector count buffer channel
    return (sectors, state.2)
  sectorCount := info.sectorCount
  sectorSize := info.sectorSize

end D3OS.Device.Ide
