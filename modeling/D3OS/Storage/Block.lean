import D3OS.Kernel.Arithmetic
import D3OS.Library.Outcome

/-! Block devices and their partitions. A device is given by what `read` and
`write` do to its state; a partition passes its requests on to the device it
lies on. `mbrs::Mbr::try_from_bytes` is an argument. -/
namespace D3OS.Storage

open Outcome

/-- The trait `BlockDevice`, for devices with this state. -/
structure BlockDevice (State : Type) where
  read : (sector count : Nat) → List UInt8 → State → Except Panic (Nat × List UInt8 × State)
  write : (sector count : Nat) → List UInt8 → State → Except Panic (Nat × State)
  sectorCount : Nat
  sectorSize : Nat

/-- `lba_to_chs`. The heads and the sectors per cylinder are bytes. -/
def lbaToChs (lba heads sectorsPerCylinder : Nat) : Except Panic (Nat × Nat × Nat) :=
  if heads * sectorsPerCylinder = 0 then .error .divisionByZero
  else
    let cylinder := lba / (heads * sectorsPerCylinder) % 2 ^ 16
    let head := lba % (heads * sectorsPerCylinder) % 2 ^ 8
    let sector := lba % sectorsPerCylinder % 2 ^ 8
    .ok (cylinder, head, sector)

structure Partition (State : Type) where
  device : BlockDevice State
  startSector : Nat
  sectorCount : Nat

/-- An entry of the partition table, with its fields `start_sector_lba` and
`sector_count_lba`. -/
structure PartitionEntry where
  startSectorLba : UInt32
  sectorCountLba : UInt32
  deriving DecidableEq

variable {State : Type}

namespace Partition

/-- The common body of `read` and `write`. The end of the partition is
compared with the sector counted from the start of the device. -/
def pass {Result : Type} (profile : BuildProfile) (self : Partition State) (sector count : Nat)
    (refused : Result) (transfer : (sector count : Nat) → Except Panic Result) :
    Except Panic Result :=
  if self.sectorCount ≤ sector then .ok refused
  else do
    let sector ← profile.word (sector + self.startSector)
    let rest ← profile.unsignedSub 64 self.sectorCount sector
    transfer sector (min count rest)

def read (profile : BuildProfile) (self : Partition State) (sector count : Nat)
    (buffer : List UInt8) (state : State) : Except Panic (Nat × List UInt8 × State) :=
  self.pass profile sector count (0, buffer, state) fun sector count =>
    self.device.read sector count buffer state

def write (profile : BuildProfile) (self : Partition State) (sector count : Nat)
    (buffer : List UInt8) (state : State) : Except Panic (Nat × State) :=
  self.pass profile sector count (0, state) fun sector count =>
    self.device.write sector count buffer state

/-- A partition is a block device itself. -/
def toBlockDevice (profile : BuildProfile) (self : Partition State) : BlockDevice State where
  read := self.read profile
  write := self.write profile
  sectorCount := self.sectorCount
  sectorSize := self.device.sectorSize

end Partition

/-- `scan_partitions`, with the parser of the master boot record. -/
def scanPartitions (parse : List UInt8 → Option (List (Option PartitionEntry)))
    (device : BlockDevice State) (state : State) :
    Except Panic (List (Partition State) × State) := do
  let (_, buffer, state) ← device.read 0 1 (List.replicate 512 0) state
  match parse buffer with
  | none => return ([], state)
  | some entries =>
    return (entries.reduceOption.map fun entry =>
      ⟨device, entry.startSectorLba.toNat, entry.sectorCountLba.toNat⟩, state)

/-- The fields of a partition table have 32 bits, so that no partition found
there ends beyond the last sector number. -/
theorem scanPartitions_fits {parse : List UInt8 → Option (List (Option PartitionEntry))}
    {device : BlockDevice State} {state later : State} {partitions : List (Partition State)}
    (h : scanPartitions parse device state = .ok (partitions, later)) :
    ∀ partition ∈ partitions, partition.startSector + partition.sectorCount < 2 ^ 64 := by
  obtain ⟨⟨_, buffer, after⟩, -, h⟩ := bind_ok h
  dsimp only at h
  split at h
  · obtain ⟨rfl, -⟩ := Prod.mk.inj (pure_ok h)
    simp
  · obtain ⟨rfl, -⟩ := Prod.mk.inj (pure_ok h)
    intro partition hMem
    obtain ⟨entry, -, rfl⟩ := List.mem_map.mp hMem
    have hStart := entry.startSectorLba.toNat_lt
    have hCount := entry.sectorCountLba.toNat_lt
    dsimp only
    omega

/-- What a partition is for: a request from a sector below its end is cut off
at its end and moved to its start. -/
def confine {Result : Type} (startSector sectorCount sector count : Nat) (refused : Result)
    (transfer : (sector count : Nat) → Except Panic Result) : Except Panic Result :=
  if sector < sectorCount then transfer (startSector + sector) (min count (sectorCount - sector))
  else .ok refused

variable (profile : BuildProfile)

/-- A request to a partition reaches every device as the request that the
partition is for. -/
def Confines (startSector sectorCount sector count : Nat) : Prop :=
  ∀ (State : Type) (device : BlockDevice State) (buffer : List UInt8) (state : State),
    (Partition.mk device startSector sectorCount).read profile sector count buffer state =
      confine startSector sectorCount sector count (0, buffer, state)
        (fun sector count => device.read sector count buffer state) ∧
    (Partition.mk device startSector sectorCount).write profile sector count buffer state =
      confine startSector sectorCount sector count (0, state)
        (fun sector count => device.write sector count buffer state)

/-- The requests that are passed on as they should be: those past the end,
all requests to a partition at the start of the device, and those that end
early enough for the comparison with the wrong sector. In a production build
the difference wraps around, and then nothing is cut off. -/
def Admits (startSector sectorCount sector count : Nat) : Prop :=
  sectorCount ≤ sector ∨ startSector = 0 ∨ startSector + sector + count ≤ sectorCount ∨
    (profile = .production ∧ sectorCount < startSector + sector ∧ sector + count ≤ sectorCount)

/-- The length of the request that `pass` hands over. -/
theorem Partition.pass_eq {Result : Type} (self : Partition State) {sector : Nat} (count : Nat)
    (refused : Result) (transfer : (sector count : Nat) → Except Panic Result)
    (hFits : self.startSector + self.sectorCount < 2 ^ 64) (hSector : sector < self.sectorCount) :
    self.pass profile sector count refused transfer =
      profile.unsignedSub 64 self.sectorCount (self.startSector + sector) >>= fun rest =>
        transfer (self.startSector + sector) (min count rest) := by
  have hWord : sector + self.startSector < 2 ^ 64 := by omega
  rw [pass, if_neg (Nat.not_le.mpr hSector), profile.word_of_lt hWord, bind_of_ok,
    Nat.add_comm sector]

theorem Partition.pass_of_past_end {Result : Type} (self : Partition State) {sector : Nat}
    (count : Nat) (refused : Result) (transfer : (sector count : Nat) → Except Panic Result)
    (h : self.sectorCount ≤ sector) :
    self.pass profile sector count refused transfer = .ok refused :=
  if_pos h

/-- An admitted request is cut off where it should be. -/
theorem Partition.pass_of_admits {Result : Type} {profile : BuildProfile} {self : Partition State}
    {sector count : Nat} (refused : Result) (transfer : (sector count : Nat) → Except Panic Result)
    (hFits : self.startSector + self.sectorCount < 2 ^ 64)
    (h : Admits profile self.startSector self.sectorCount sector count) :
    self.pass profile sector count refused transfer =
      confine self.startSector self.sectorCount sector count refused transfer := by
  by_cases hPast : self.sectorCount ≤ sector
  · rw [pass_of_past_end _ _ _ _ _ hPast, confine, if_neg (Nat.not_lt.mpr hPast)]
  · have hSector : sector < self.sectorCount := Nat.lt_of_not_le hPast
    rw [pass_eq _ _ _ _ _ hFits hSector, confine, if_pos hSector]
    by_cases hBelow : self.startSector + sector ≤ self.sectorCount
    · have hCut : min count (self.sectorCount - (self.startSector + sector)) =
          min count (self.sectorCount - sector) := by
        unfold Admits at h
        omega
      rw [profile.unsignedSub_of_le _ hBelow, bind_of_ok, hCut]
    · -- Only a production build goes on, with a difference that is too large.
      obtain ⟨rfl, hEnd⟩ : profile = .production ∧ sector + count ≤ self.sectorCount := by
        rcases h with hPast' | hZero | hEarly | ⟨hProfile, -, hEnd⟩
        · exact absurd hPast' hPast
        · omega
        · omega
        · exact ⟨hProfile, hEnd⟩
      have hRest : BuildProfile.production.unsignedSub 64 self.sectorCount (self.startSector + sector) =
          .ok (self.sectorCount + 2 ^ 64 - (self.startSector + sector)) := if_neg hBelow
      have hCut : min count (self.sectorCount + 2 ^ 64 - (self.startSector + sector)) =
          min count (self.sectorCount - sector) := by omega
      rw [hRest, bind_of_ok, hCut]

/-- A device that keeps a list of the requests it gets. -/
def recorder : BlockDevice (List (Nat × Nat)) where
  read sector count buffer requests := .ok (count, buffer, requests ++ [(sector, count)])
  write sector count _ requests := .ok (count, requests ++ [(sector, count)])
  sectorCount := 2 ^ 64 - 1
  sectorSize := 512

/-- What the device is asked for tells whether the request was admitted. -/
theorem Admits.of_recorded {profile : BuildProfile} {startSector sectorCount sector count : Nat}
    (hFits : startSector + sectorCount < 2 ^ 64)
    (h : (Partition.mk recorder startSector sectorCount).read profile sector count [] [] =
      confine startSector sectorCount sector count (0, [], [])
        (fun sector count => recorder.read sector count [] [])) :
    Admits profile startSector sectorCount sector count := by
  by_cases hPast : sectorCount ≤ sector
  · exact Or.inl hPast
  · have hSector : sector < sectorCount := Nat.lt_of_not_le hPast
    rw [Partition.read, Partition.pass_eq _ _ _ _ _ hFits hSector, confine, if_pos hSector] at h
    obtain ⟨rest, hRest, hRead⟩ := bind_ok h
    have hCut : min count rest = min count (sectorCount - sector) :=
      congrArg Prod.fst (Except.ok.inj hRead)
    unfold Admits
    by_cases hBelow : startSector + sector ≤ sectorCount
    · rw [profile.unsignedSub_of_le _ hBelow] at hRest
      have hEq := Except.ok.inj hRest
      omega
    · cases profile with
      | development =>
        rw [BuildProfile.unsignedSub_development_of_lt (Nat.lt_of_not_le hBelow)] at hRest
        cases hRest
      | production =>
        have hEq : sectorCount + 2 ^ 64 - (startSector + sector) = rest :=
          Except.ok.inj ((if_neg hBelow).symm.trans hRest)
        exact Or.inr (Or.inr (Or.inr ⟨rfl, by omega, by omega⟩))

/-- Reads and writes of a partition are confined to it, for every device,
exactly if the request is admitted. -/
theorem partition_confines_iff {startSector sectorCount : Nat} (sector count : Nat)
    (hFits : startSector + sectorCount < 2 ^ 64) :
    Confines profile startSector sectorCount sector count ↔
      Admits profile startSector sectorCount sector count := by
  constructor
  · intro hConfines
    exact .of_recorded hFits (hConfines _ recorder [] []).1
  · intro hAdmits State device buffer state
    constructor
    · exact Partition.pass_of_admits _ _ hFits hAdmits
    · exact Partition.pass_of_admits _ _ hFits hAdmits

/-- The first sectors of a partition that is larger than what lies before it. -/
theorem partition_confines_first_sectors :
    2048 + 1000000 < 2 ^ 64 ∧ Confines .development 2048 1000000 0 8 :=
  ⟨by decide, (partition_confines_iff .development 0 8 (by decide)).mpr
    (Or.inr (Or.inr (Or.inl (by decide))))⟩

/-- A partition that starts beyond its own length: a development build panics
and a production build reads past the end of the partition. -/
theorem partition_reads_past_end :
    (Partition.mk recorder 100 50).read .development 0 60 [] [] = .error .arithmeticOverflow ∧
    (Partition.mk recorder 100 50).read .production 0 60 [] [] = .ok (60, [], [(100, 60)]) ∧
    (Partition.mk recorder 10 50).read .development 0 50 [] [] = .ok (40, [], [(10, 40)]) :=
  ⟨rfl, rfl, rfl⟩

end D3OS.Storage
