import D3OS.Device.Ide

/-! Which sectors the commands of an IDE channel address. The byte in the
drive/head register is remembered in `last_device_control` and written again
only if it differs; a drive that does not answer after the byte was written
leaves the two different. -/
namespace D3OS.Device.Ide

open Outcome

namespace CommandRegisters

variable (registers : CommandRegisters)

/-- Bit 4 selects one of the two drives of the channel. -/
def drive : Nat := registers.driveHead / 16 % 2

/-- Bit 6 tells whether the address is an LBA. -/
def isLba : Prop := registers.driveHead / 64 % 2 = 1

instance (registers : CommandRegisters) : Decidable registers.isLba :=
  inferInstanceAs (Decidable (_ = _))

/-- The low bits are the head, or the highest bits of an LBA of 28 bits. -/
def head : Nat := registers.driveHead % 16

def lba28 : Nat :=
  registers.head * 2 ^ 24 + registers.lbaHigh.current * 2 ^ 16 + registers.lbaMid.current * 2 ^ 8 +
    registers.lbaLow.current

def lba48 : Nat :=
  registers.lbaHigh.previous * 2 ^ 40 + registers.lbaMid.previous * 2 ^ 32 +
    registers.lbaLow.previous * 2 ^ 24 + registers.lbaHigh.current * 2 ^ 16 +
    registers.lbaMid.current * 2 ^ 8 + registers.lbaLow.current

def cylinder : Nat :=
  registers.lbaHigh.current * 2 ^ 8 + registers.lbaMid.current

/-- A count of zero stands for 256 sectors. -/
def count28 : Nat :=
  if registers.sectorCount.current = 0 then 256 else registers.sectorCount.current

/-- A count of zero stands for 65536 sectors. -/
def count48 : Nat :=
  let count := registers.sectorCount.previous * 2 ^ 8 + registers.sectorCount.current
  if count = 0 then 65536 else count

/-- The registers select the drive and address exactly these sectors. The
sectors of a track are numbered from one. -/
def Addresses (info : DriveInfo) (sector count : Nat) : Prop :=
  registers.drive = info.drive ∧
  match info.addressing with
  | .chs => ¬ registers.isLba ∧ registers.head < info.heads ∧
      1 ≤ registers.lbaLow.current ∧ registers.lbaLow.current ≤ info.sectorsPerTrack ∧
      (registers.cylinder * info.heads + registers.head) * info.sectorsPerTrack +
        (registers.lbaLow.current - 1) = sector ∧
      registers.count28 = count
  | .lba28 => registers.isLba ∧ registers.lba28 = sector ∧ registers.count28 = count
  | .lba48 => registers.isLba ∧ registers.lba48 = sector ∧ registers.count48 = count

end CommandRegisters

/-- The sectors of a request exist, and its length can be encoded. -/
def InRange (info : DriveInfo) (sector count : Nat) : Prop :=
  info.drive < 2 ∧ 1 ≤ count ∧
  match info.addressing with
  | .chs => sector + count ≤ info.cylinders * info.heads * info.sectorsPerTrack ∧ count ≤ 256
  | .lba28 => sector + count ≤ 2 ^ 28 ∧ count ≤ 256
  | .lba48 => sector + count ≤ 2 ^ 48 ∧ count ≤ 65535

namespace IdeChannel

/-- `select_drive` returns at once: the drive is selected already. -/
def AlreadySelected (channel : IdeChannel) (drive : Nat) (prepareLba : Bool) (lbaHead : Nat) : Prop :=
  (prepareLba = false ∧ channel.lastDeviceControl ≠ 255 ∧
    channel.lastDeviceControl >>> 4 &&& 0x01 = drive) ∨
  selector drive prepareLba lbaHead = channel.lastDeviceControl

/-- Does the next wait for an idle drive come to its end? `later` skips waits. -/
def Idle (bus : Bus) (channel : IdeChannel) (later : Nat) : Prop :=
  waitStatus Status.none (bus.polls (channel.polled + later)) = true

instance (bus : Bus) (channel : IdeChannel) (later : Nat) : Decidable (channel.Idle bus later) :=
  inferInstanceAs (Decidable (_ = _))

/-- The drive does not answer after its selection has been written. -/
def Late (bus : Bus) (channel : IdeChannel) (drive : Nat) (prepareLba : Bool) (lbaHead : Nat) : Prop :=
  ¬ channel.AlreadySelected drive prepareLba lbaHead ∧ channel.Idle bus 0 ∧ ¬ channel.Idle bus 1

/-- Everything that `select_drive` can do to the channel. -/
inductive Selects (bus : Bus) (channel : IdeChannel) (drive : Nat) (prepareLba : Bool)
    (lbaHead : Nat) : IdeChannel → Prop where
  | already (same : channel.AlreadySelected drive prepareLba lbaHead) :
      Selects bus channel drive prepareLba lbaHead channel
  | refused (other : ¬ channel.AlreadySelected drive prepareLba lbaHead)
      (busy : ¬ channel.Idle bus 0) :
      Selects bus channel drive prepareLba lbaHead { channel with polled := channel.polled + 1 }
  | late (other : ¬ channel.AlreadySelected drive prepareLba lbaHead) (idle : channel.Idle bus 0)
      (silent : ¬ channel.Idle bus 1) :
      Selects bus channel drive prepareLba lbaHead { channel with
        registers := { channel.registers with driveHead := selector drive prepareLba lbaHead }
        polled := channel.polled + 2 }
  | made (other : ¬ channel.AlreadySelected drive prepareLba lbaHead) (idle : channel.Idle bus 0)
      (answered : channel.Idle bus 1) :
      Selects bus channel drive prepareLba lbaHead { channel with
        registers := { channel.registers with driveHead := selector drive prepareLba lbaHead }
        lastDeviceControl := selector drive prepareLba lbaHead
        polled := channel.polled + 2 }

theorem selectDrive_selects (bus : Bus) (channel : IdeChannel) (drive : Nat) (prepareLba : Bool)
    (lbaHead : Nat) :
    Selects bus channel drive prepareLba lbaHead
      (channel.selectDrive bus drive prepareLba lbaHead).2 := by
  unfold selectDrive
  split
  · rename_i hSame
    simp only [Bool.and_eq_true, Bool.not_eq_true', decide_eq_true_eq] at hSame
    exact .already (Or.inl ⟨hSame.1.1, hSame.1.2, hSame.2⟩)
  · rename_i hOther
    split
    · rename_i hEqual
      exact .already (Or.inr hEqual)
    · rename_i hUnequal
      have hNew : ¬ channel.AlreadySelected drive prepareLba lbaHead := by
        rintro (⟨hLba, hNever, hDrive⟩ | hEqual)
        · exact hOther (by simp [hLba, hNever, hDrive])
        · exact hUnequal hEqual
      cases hFirst : waitStatus Status.none (bus.polls channel.polled) with
      | false =>
        simp only [wait, hFirst]
        exact .refused hNew (by simp [Idle, hFirst])
      | true =>
        cases hSecond : waitStatus Status.none (bus.polls (channel.polled + 1)) with
        | false =>
          simp only [wait, hFirst, hSecond]
          exact .late hNew hFirst (by simp [Idle, hSecond])
        | true =>
          simp only [wait, hFirst, hSecond]
          exact .made hNew hFirst hSecond

variable {bus : Bus} {channel later : IdeChannel} {drive : Nat} {prepareLba : Bool} {lbaHead : Nat}

/-- The byte that is remembered is the one in the register, unless nothing has
been selected yet. -/
def Coherent (channel : IdeChannel) : Prop :=
  channel.lastDeviceControl = 255 ∨ channel.lastDeviceControl = channel.registers.driveHead

/-- A selection that is not late keeps the memory of the channel right. -/
theorem Coherent.selects (h : channel.Coherent) (hLate : ¬ channel.Late bus drive prepareLba lbaHead)
    (hSelects : Selects bus channel drive prepareLba lbaHead later) : later.Coherent := by
  cases hSelects with
  | already => exact h
  | refused => exact h
  | late other idle silent => exact absurd ⟨other, idle, silent⟩ hLate
  | made => exact Or.inr rfl

/-- The selection of an LBA reaches the drive: it is not refused, and it is
not mistaken for the mark of a channel on which nothing is selected. -/
def Effective (bus : Bus) (channel : IdeChannel) (drive lbaHead : Nat) : Prop :=
  (selector drive true lbaHead ≠ channel.lastDeviceControl → channel.Idle bus 0) ∧
  (selector drive true lbaHead = 255 → channel.lastDeviceControl = 255 →
    channel.registers.driveHead = 255)

theorem Effective.driveHead (h : channel.Effective bus drive lbaHead) (hCoherent : channel.Coherent)
    (hSelects : Selects bus channel drive true lbaHead later) :
    later.registers.driveHead = selector drive true lbaHead := by
  cases hSelects with
  | already same =>
    obtain ⟨hLba, -⟩ | hEqual := same
    · cases hLba
    · rcases hCoherent with hNever | hSame
      · rw [hEqual, hNever, h.2 (hEqual.trans hNever) hNever]
      · rw [hEqual, hSame]
  | refused other busy => exact absurd (h.1 fun hEqual => other (Or.inr hEqual)) busy
  | late => rfl
  | made => rfl

theorem selector_lba {drive lbaHead : Nat} (hDrive : drive < 2) (hHead : lbaHead < 16) :
    selector drive true lbaHead = 0xe0 + 16 * drive + lbaHead := by
  have hAll : ∀ drive < 2, ∀ lbaHead < 16,
      selector drive true lbaHead = 0xe0 + 16 * drive + lbaHead := by decide
  exact hAll drive hDrive lbaHead hHead

end IdeChannel

/-- The head, or the highest bits of the address, with which the drive is selected. -/
def DriveInfo.lbaHead (info : DriveInfo) (sector : Nat) : Nat :=
  match info.addressing with
  | .chs => sector % (info.heads % 256 * (info.sectorsPerTrack % 256)) % 256
  | .lba28 => sector >>> 24 % 256
  | .lba48 => 0

/-- The registers when `prepare_ata_io` has written the count and the address. -/
def DriveInfo.addressed (info : DriveInfo) (sector count : Nat) (registers : CommandRegisters) :
    CommandRegisters :=
  match info.addressing with
  | .chs =>
    let cylinder := sector / (info.heads % 256 * (info.sectorsPerTrack % 256)) % 2 ^ 16
    registers.write (count % 256) (sector % (info.sectorsPerTrack % 256) % 256) (cylinder % 256)
      (cylinder >>> 8 % 256)
  | .lba28 =>
    registers.write (count % 256) (sector % 256) (sector >>> 8 % 256) (sector >>> 16 % 256)
  | .lba48 =>
    (registers.write (count >>> 8 % 256) (sector >>> 24 % 256) (sector >>> 32 % 256)
      (sector >>> 40 % 256)).write (count % 256) (sector % 256) (sector >>> 8 % 256)
      (sector >>> 16 % 256)

namespace IdeChannel

variable {bus : Bus} {channel later : IdeChannel} {info : DriveInfo} {sector count : Nat}

/-- `prepare_ata_io` selects the drive and then writes the other registers. -/
theorem prepareAtaIo_ok (h : channel.prepareAtaIo bus info sector count = .ok later) :
    ∃ selected,
      channel.Selects bus info.drive (info.addressing ≠ .chs) (info.lbaHead sector) selected ∧
      later = { selected with registers := info.addressed sector count selected.registers } := by
  have hSelects := channel.selectDrive_selects bus info.drive (info.addressing ≠ .chs)
    (info.lbaHead sector)
  unfold prepareAtaIo at h
  unfold DriveInfo.lbaHead at *
  unfold DriveInfo.addressed
  cases hAddressing : info.addressing with
  | chs =>
    rw [hAddressing] at h hSelects
    obtain ⟨⟨cylinder, head, number⟩, hChs, h⟩ := bind_ok h
    unfold Storage.lbaToChs at hChs
    obtain ⟨-, hChs⟩ := ite_error_ok hChs
    obtain ⟨rfl, hRest⟩ := Prod.mk.inj (Except.ok.inj hChs)
    obtain ⟨rfl, rfl⟩ := Prod.mk.inj hRest
    exact ⟨_, hSelects, (pure_ok h).symm⟩
  | lba28 =>
    rw [hAddressing] at h hSelects
    exact ⟨_, hSelects, (pure_ok h).symm⟩
  | lba48 =>
    rw [hAddressing] at h hSelects
    exact ⟨_, hSelects, (pure_ok h).symm⟩

end IdeChannel

variable {info : DriveInfo} {sector count : Nat}

/-- With the drive selected, the registers of an LBA decode to the request. -/
theorem DriveInfo.addressed_lba {registers : CommandRegisters} (hRange : InRange info sector count)
    (hLba : info.addressing ≠ .chs)
    (hHead : registers.driveHead = IdeChannel.selector info.drive true (info.lbaHead sector)) :
    (info.addressed sector count registers).Addresses info sector count := by
  obtain ⟨hDrive, hCount, hRange⟩ := hRange
  unfold DriveInfo.lbaHead at hHead
  unfold CommandRegisters.Addresses DriveInfo.addressed
  cases hAddressing : info.addressing with
  | chs => exact absurd hAddressing hLba
  | lba28 =>
    rw [hAddressing] at hHead hRange
    simp only [Nat.shiftRight_eq_div_pow] at hHead hRange ⊢
    rw [IdeChannel.selector_lba hDrive (by omega)] at hHead
    simp only [CommandRegisters.write, CommandRegisters.drive, CommandRegisters.isLba,
      CommandRegisters.lba28, CommandRegisters.head, CommandRegisters.count28, Latch.write, hHead]
    refine ⟨by omega, by omega, by omega, ?_⟩
    split <;> omega
  | lba48 =>
    rw [hAddressing] at hHead hRange
    simp only [Nat.shiftRight_eq_div_pow] at hHead hRange ⊢
    rw [IdeChannel.selector_lba hDrive (by omega)] at hHead
    simp only [CommandRegisters.write, CommandRegisters.drive, CommandRegisters.isLba,
      CommandRegisters.lba48, CommandRegisters.count48, Latch.write, hHead]
    refine ⟨by omega, by omega, by omega, ?_⟩
    split <;> omega

/-- The sector numbers of CHS are counted from zero, so that no request is
addressed as it should be. -/
theorem DriveInfo.addressed_chs {registers : CommandRegisters} (hChs : info.addressing = .chs)
    (hTrack : info.sectorsPerTrack ≤ 255) :
    ¬ (info.addressed sector count registers).Addresses info sector count := by
  unfold CommandRegisters.Addresses DriveInfo.addressed
  rw [hChs]
  rintro ⟨-, -, -, hLow, hHigh, hSector, -⟩
  simp only [CommandRegisters.write, Latch.write] at hLow hHigh hSector
  have hTrack' : info.sectorsPerTrack % 256 = info.sectorsPerTrack := Nat.mod_eq_of_lt (by omega)
  have hNumber : sector % info.sectorsPerTrack % 256 = sector % info.sectorsPerTrack := by
    apply Nat.mod_eq_of_lt
    have hLt := Nat.mod_lt sector (by omega : 0 < info.sectorsPerTrack)
    omega
  rw [hTrack', hNumber] at hLow hHigh hSector
  -- Modulo the length of a track, the address is the number and one less than the number.
  have hMod := congrArg (· % info.sectorsPerTrack) hSector
  simp only [Nat.mul_add_mod_self_right] at hMod
  rw [Nat.mod_eq_of_lt (by omega)] at hMod
  omega

inductive TransferKind where
  | pio
  | dma
  deriving DecidableEq, Repr

def IdeChannel.Keeps (channel later : IdeChannel) : Prop :=
  later.registers = channel.registers ∧ later.lastDeviceControl = channel.lastDeviceControl

/-- The part of a transfer up to the write of its command. -/
def startTransfer (profile : BuildProfile) (bus : Bus) (info : DriveInfo) (mode : TransferMode)
    (sector count : Nat) (channel : IdeChannel) : TransferKind → Except Panic IdeChannel
  | .pio => startCommand bus info (pioCommand info.addressing mode) sector count channel
  | .dma => do
    let channel ← prepareDma profile (bus.courses channel.transfers) info mode count
      { channel with transfers := channel.transfers + 1 }
    startCommand bus info (dmaCommand info.addressing mode) sector count channel

def performAta (profile : BuildProfile) (bus : Bus) (info : DriveInfo) (mode : TransferMode)
    (sector count : Nat) (buffer : List UInt8) (channel : IdeChannel) :
    TransferKind → Except Panic (Nat × Transferred)
  | .pio => performAtaPio profile bus info mode sector count buffer channel
  | .dma => performAtaDma profile bus info mode sector count buffer channel

section

variable {profile : BuildProfile} {bus : Bus} {sectorSize done : Nat}

variable {state later : Transferred} {channel : IdeChannel} {mode : TransferMode}

theorem readWords_keeps {js : List Nat}
    (h : readWords profile bus sectorSize done js state = .ok later) : state.2.Keeps later.2 := by
  induction js generalizing state with
  | nil =>
    obtain rfl := Except.ok.inj h
    exact ⟨rfl, rfl⟩
  | cons j rest ih =>
    obtain ⟨low, -, h⟩ := bind_ok h
    obtain ⟨buffer, -, h⟩ := bind_ok h
    obtain ⟨high, -, h⟩ := bind_ok h
    obtain ⟨buffer, -, h⟩ := bind_ok h
    have hRest := ih h
    exact hRest

theorem writeWords_keeps {js : List Nat} {buffer : List UInt8} {later : IdeChannel}
    (h : writeWords profile sectorSize done buffer js channel = .ok later) :
    channel.Keeps later := by
  induction js generalizing channel with
  | nil =>
    obtain rfl := Except.ok.inj h
    exact ⟨rfl, rfl⟩
  | cons j rest ih =>
    obtain ⟨low, -, h⟩ := bind_ok h
    obtain ⟨lowByte, -, h⟩ := bind_ok h
    obtain ⟨high, -, h⟩ := bind_ok h
    obtain ⟨highByte, -, h⟩ := bind_ok h
    have hRest := ih h
    exact hRest

theorem transferSector_keeps
    (h : transferSector profile bus sectorSize mode done state = .ok later) :
    state.2.Keeps later.2 := by
  cases mode with
  | read => exact readWords_keeps h
  | write =>
    obtain ⟨channel, hWords, h⟩ := bind_ok h
    obtain rfl := pure_ok h
    exact writeWords_keeps hWords

theorem transferSectors_keeps {left sectors : Nat}
    (h : transferSectors bus (transferSector profile bus sectorSize mode) left done state =
      .ok (sectors, later)) : state.2.Keeps later.2 := by
  induction left generalizing done state with
  | zero =>
    obtain ⟨rfl, rfl⟩ := Prod.mk.inj (Except.ok.inj h)
    exact ⟨rfl, rfl⟩
  | succ left ih =>
    obtain ⟨buffer, channel⟩ := state
    unfold transferSectors at h
    -- Waiting changes only the number of waits.
    have hWait : channel.Keeps (if done = 0 then (true, channel)
        else channel.wait bus Status.driveReady).2 := by
      split <;> exact ⟨rfl, rfl⟩
    revert hWait h
    generalize (if done = 0 then (true, channel) else channel.wait bus Status.driveReady) = waited
    intro h hWait
    obtain ⟨ready, waiting⟩ := waited
    dsimp only at h hWait
    split at h
    · obtain ⟨-, rfl⟩ := Prod.mk.inj (pure_ok h)
      exact hWait
    · obtain ⟨state, hTransfer, h⟩ := bind_ok h
      have hSector := transferSector_keeps hTransfer
      have hRest := ih h
      exact ⟨hRest.1.trans (hSector.1.trans hWait.1), hRest.2.trans (hSector.2.trans hWait.2)⟩

/-- After the command has been written, a transfer leaves the registers alone. -/
theorem performAta_ok {sectors : Nat} {buffer : List UInt8} {kind : TransferKind}
    (h : performAta profile bus info mode sector count buffer channel kind = .ok (sectors, later)) :
    ∃ started, startTransfer profile bus info mode sector count channel kind = .ok started ∧
      started.Keeps later.2 := by
  cases kind with
  | pio =>
    obtain ⟨started, hStart, h⟩ := bind_ok h
    refine ⟨started, hStart, ?_⟩
    dsimp only [IdeChannel.wait] at h
    split at h
    · obtain ⟨-, rfl⟩ := Prod.mk.inj (pure_ok h)
      exact ⟨rfl, rfl⟩
    · exact transferSectors_keeps h
  | dma =>
    obtain ⟨prepared, hPrepare, h⟩ := bind_ok h
    obtain ⟨started, hStart, h⟩ := bind_ok h
    refine ⟨started, ?_, ?_⟩
    · unfold startTransfer
      rw [hPrepare, bind_of_ok, hStart]
    · dsimp only [IdeChannel.wait] at h
      split at h
      · obtain ⟨-, rfl⟩ := Prod.mk.inj (pure_ok h)
        exact ⟨rfl, rfl⟩
      · obtain ⟨finished, -, h⟩ := bind_ok h
        split at h
        · obtain ⟨-, rfl⟩ := Prod.mk.inj (pure_ok h)
          exact ⟨rfl, rfl⟩
        · obtain ⟨-, rfl⟩ := Prod.mk.inj (pure_ok h)
          exact ⟨rfl, rfl⟩

/-- The channels answer a selection in the same way, and have issued the same
commands. -/
structure IdeChannel.Alike (channel other : IdeChannel) : Prop where
  registers : other.registers = channel.registers
  lastDeviceControl : other.lastDeviceControl = channel.lastDeviceControl
  polled : other.polled = channel.polled
  issued : other.issued = channel.issued

/-- Setting up the bus master comes before the selection. -/
theorem startTransfer_ok {started : IdeChannel} {kind : TransferKind}
    (h : startTransfer profile bus info mode sector count channel kind = .ok started) :
    ∃ before command, channel.Alike before ∧
      startCommand bus info command sector count before = .ok started := by
  cases kind with
  | pio => exact ⟨channel, _, ⟨rfl, rfl, rfl, rfl⟩, h⟩
  | dma =>
    obtain ⟨prepared, hPrepare, hStart⟩ := bind_ok h
    refine ⟨prepared, _, ?_, hStart⟩
    obtain ⟨last, -, hPrepare⟩ := bind_ok hPrepare
    dsimp only at hPrepare
    obtain ⟨-, hPrepare⟩ := ite_error_ok hPrepare
    obtain rfl := pure_ok hPrepare
    exact ⟨rfl, rfl, rfl, rfl⟩

/-- The command is written with the registers as they are then. -/
theorem startCommand_ok {command : Command} {started : IdeChannel}
    (h : startCommand bus info command sector count channel = .ok started) :
    ∃ selected,
      channel.Selects bus info.drive (info.addressing ≠ .chs) (info.lbaHead sector) selected ∧
      started.lastDeviceControl = selected.lastDeviceControl ∧
      started.registers = info.addressed sector count selected.registers ∧
      started.issued = channel.issued ++ [(command, started.registers)] := by
  obtain ⟨prepared, hPrepare, h⟩ := bind_ok h
  obtain ⟨selected, hSelects, rfl⟩ := IdeChannel.prepareAtaIo_ok hPrepare
  obtain rfl := pure_ok h
  refine ⟨selected, hSelects, rfl, rfl, ?_⟩
  cases hSelects <;> rfl

end

namespace IdeChannel

/-- What can happen on a channel. -/
inductive Event where
  | select (drive : Nat) (prepareLba : Bool) (lbaHead : Nat)
  | prepare (info : DriveInfo) (sector count : Nat)
  | transfer (kind : TransferKind) (info : DriveInfo) (mode : TransferMode) (sector count : Nat)
      (buffer : List UInt8)

def Step (profile : BuildProfile) (bus : Bus) (channel : IdeChannel) : Event → IdeChannel → Prop
  | .select drive prepareLba lbaHead, later =>
    later = (channel.selectDrive bus drive prepareLba lbaHead).2
  | .prepare info sector count, later => channel.prepareAtaIo bus info sector count = .ok later
  | .transfer kind info mode sector count buffer, later => ∃ sectors after,
      performAta profile bus info mode sector count buffer channel kind = .ok (sectors, after, later)

/-- The selection of this event is answered if it is written at all. -/
def Timely (bus : Bus) (channel : IdeChannel) : Event → Prop
  | .select drive prepareLba lbaHead => ¬ channel.Late bus drive prepareLba lbaHead
  | .prepare info sector _ | .transfer _ info _ sector _ _ =>
    ¬ channel.Late bus info.drive (info.addressing ≠ .chs) (info.lbaHead sector)

def Initial (channel : IdeChannel) : Prop :=
  ∃ supportsDma registers, channel = .new supportsDma registers

inductive Reachable (profile : BuildProfile) (bus : Bus) (Allowed : IdeChannel → Event → Prop) :
    IdeChannel → Prop where
  | initial {channel : IdeChannel} (fresh : channel.Initial) : Reachable profile bus Allowed channel
  | step {channel later : IdeChannel} {event : Event} (prior : Reachable profile bus Allowed channel)
      (allowed : Allowed channel event) (last : Step profile bus channel event later) :
      Reachable profile bus Allowed later

variable {profile : BuildProfile} {bus : Bus} {channel other later : IdeChannel}

theorem Alike.coherent (h : channel.Alike other) (hCoherent : channel.Coherent) : other.Coherent := by
  unfold Coherent
  rw [h.lastDeviceControl, h.registers]
  exact hCoherent

theorem Alike.late {drive : Nat} {prepareLba : Bool} {lbaHead : Nat} (h : channel.Alike other)
    (hLate : other.Late bus drive prepareLba lbaHead) : channel.Late bus drive prepareLba lbaHead := by
  unfold Late AlreadySelected Idle at *
  rw [h.lastDeviceControl, h.polled] at hLate
  exact hLate

theorem Alike.effective {drive lbaHead : Nat} (h : channel.Alike other)
    (hEffective : channel.Effective bus drive lbaHead) : other.Effective bus drive lbaHead := by
  unfold Effective Idle at *
  rw [h.lastDeviceControl, h.polled, h.registers]
  exact hEffective

theorem addressed_driveHead (info : DriveInfo) (sector count : Nat) (registers : CommandRegisters) :
    (info.addressed sector count registers).driveHead = registers.driveHead := by
  unfold DriveInfo.addressed
  split <;> rfl

/-- The other registers and the rest of a transfer do not matter to the selection. -/
theorem Coherent.addressed {selected : IdeChannel} (h : selected.Coherent)
    (hLast : later.lastDeviceControl = selected.lastDeviceControl)
    (hRegisters : later.registers = info.addressed sector count selected.registers) :
    later.Coherent := by
  unfold Coherent
  rw [hLast, hRegisters, addressed_driveHead]
  exact h

theorem Coherent.step {event : Event} (h : channel.Coherent) (hTimely : channel.Timely bus event)
    (hStep : channel.Step profile bus event later) : later.Coherent := by
  cases event with
  | select drive prepareLba lbaHead =>
    obtain rfl := hStep
    exact h.selects hTimely (channel.selectDrive_selects bus drive prepareLba lbaHead)
  | prepare info sector count =>
    obtain ⟨selected, hSelects, rfl⟩ := prepareAtaIo_ok hStep
    exact (h.selects hTimely hSelects).addressed rfl rfl
  | transfer kind info mode sector count buffer =>
    obtain ⟨sectors, after, hPerform⟩ := hStep
    obtain ⟨started, hStart, hKeeps⟩ := performAta_ok hPerform
    obtain ⟨before, command, hAlike, hCommand⟩ := startTransfer_ok hStart
    obtain ⟨selected, hSelects, hLast, hRegisters, -⟩ := startCommand_ok hCommand
    have hSelected := (hAlike.coherent h).selects (fun hLate => hTimely (hAlike.late hLate)) hSelects
    exact hSelected.addressed (hKeeps.2.trans hLast) (hKeeps.1.trans hRegisters)

theorem Reachable.coherent (h : Reachable profile bus (Timely bus) channel) : channel.Coherent := by
  induction h with
  | initial fresh =>
    obtain ⟨supportsDma, registers, rfl⟩ := fresh
    exact Or.inl rfl
  | step _ allowed last ih => exact ih.step allowed last

/-- In every history without late selections, a command that addresses its
sectors by LBA and whose own selection reaches the drive is written with
registers that select the drive and decode to the request. Commands that
address by CHS never are. -/
theorem commands_address_requested (hReach : Reachable profile bus (Timely bus) channel)
    (kind : TransferKind) (info : DriveInfo) (mode : TransferMode) {sector count : Nat}
    {started : IdeChannel}
    (hStart : startTransfer profile bus info mode sector count channel kind = .ok started) :
    ∃ command registers, started.issued = channel.issued ++ [(command, registers)] ∧
      (InRange info sector count → info.addressing ≠ .chs →
        channel.Effective bus info.drive (info.lbaHead sector) →
        registers.Addresses info sector count) ∧
      (info.addressing = .chs → info.sectorsPerTrack ≤ 255 →
        ¬ registers.Addresses info sector count) := by
  obtain ⟨before, command, hAlike, hCommand⟩ := startTransfer_ok hStart
  obtain ⟨selected, hSelects, -, hRegisters, hIssued⟩ := startCommand_ok hCommand
  refine ⟨command, started.registers, hAlike.issued ▸ hIssued, ?_, ?_⟩
  · intro hRange hLba hEffective
    have hCoherent := hAlike.coherent hReach.coherent
    have hLba' : decide (info.addressing ≠ .chs) = true := decide_eq_true hLba
    rw [hLba'] at hSelects
    rw [hRegisters]
    exact DriveInfo.addressed_lba hRange hLba ((hAlike.effective hEffective).driveHead hCoherent hSelects)
  · intro hChs hTrack
    rw [hRegisters]
    exact DriveInfo.addressed_chs hChs hTrack

/-- Drives that send zeros and are silent at these waits. -/
def silentAt (waits : List Nat) : Bus := .readyBut waits fun _ => 0

def smallDrive (drive : Nat) (addressing : AddressType) : DriveInfo :=
  ⟨drive, 1024, 16, 63, 0, 0, 1032192, 1032192, addressing, 512⟩

/-- The second drive of a new channel reads eight sectors. -/
theorem commands_address_requested_first :
    ∃ started command registers,
      startTransfer .development (silentAt []) (smallDrive 1 .lba28) .read 0x56789 8 fresh .pio =
        .ok started ∧
      started.issued = [(command, registers)] ∧
      registers.Addresses (smallDrive 1 .lba28) 0x56789 8 := by
  have hReach : Reachable .development (silentAt []) (Timely (silentAt [])) fresh :=
    .initial ⟨_, _, rfl⟩
  have hStart : ∃ started, startTransfer .development (silentAt []) (smallDrive 1 .lba28) .read
      0x56789 8 fresh .pio = .ok started := ⟨_, rfl⟩
  obtain ⟨started, hStart⟩ := hStart
  obtain ⟨command, registers, hIssued, hAddresses, -⟩ :=
    commands_address_requested hReach .pio (smallDrive 1 .lba28) .read hStart
  exact ⟨started, command, registers, hStart, hIssued,
    hAddresses ⟨by decide, by decide, by decide, by decide⟩ (by decide)
      ⟨fun _ => by decide, by decide⟩⟩

/-- The channel after the first drive has been selected, and the second one
has not answered its selection. -/
def misled : IdeChannel :=
  ((fresh.selectDrive (silentAt [3]) 0 true 0).2.selectDrive (silentAt [3]) 1 true 0).2

/-- A CHS request to the first drive selects the second one and sector zero of
a track. After a late selection, a request to the first drive is sent to the
second one. -/
theorem commands_reach_other_drive :
    (∃ started command registers,
      startTransfer .development (silentAt []) (smallDrive 0 .chs) .read 63 1 fresh .pio =
        .ok started ∧
      started.issued = [(command, registers)] ∧ registers.drive = 1 ∧
      registers.lbaLow.current = 0) ∧
    Reachable .development (silentAt [3]) (fun _ _ => True) misled ∧
    ∃ started command registers,
      startTransfer .development (silentAt [3]) (smallDrive 0 .lba28) .read 0 1 misled .pio =
        .ok started ∧
      started.issued = [(command, registers)] ∧ registers.drive = 1 := by
  refine ⟨⟨_, _, _, rfl, rfl, by decide, by decide⟩, ?_, ⟨_, _, _, rfl, rfl, by decide⟩⟩
  have hFresh : fresh.Initial := ⟨_, _, rfl⟩
  have hFirst : Step .development (silentAt [3]) fresh (.select 0 true 0)
      (fresh.selectDrive (silentAt [3]) 0 true 0).2 := rfl
  have hSecond : Step .development (silentAt [3])
      (fresh.selectDrive (silentAt [3]) 0 true 0).2 (.select 1 true 0) misled := rfl
  exact .step (.step (.initial hFresh) trivial hFirst) trivial hSecond

end IdeChannel

end D3OS.Device.Ide
