import D3OS.Device.Receiver

/-! The read index of the receive ring. It stays a multiple of 4 within the
ring, but the buffer is two bytes too short for the longest packet at the last
index. -/
namespace D3OS.Device.Rtl8139

open LittleEndian RecordRing

/-- Clearing the two lowest bits. -/
theorem and_not_three {x : Nat} (h : x < 2 ^ 64) : x &&& 2 ^ 64 - 1 - 3 = x / 4 * 4 := by
  have hShift : x / 4 * 4 = x >>> 2 <<< 2 := by
    rw [Nat.shiftLeft_eq, Nat.shiftRight_eq_div_pow]
  rw [hShift]
  apply Nat.eq_of_testBit_eq
  intro i
  have hThree : ∀ i, Nat.testBit 3 i = decide (i < 2) := Nat.testBit_two_pow_sub_one 2
  rw [Nat.testBit_and, show 2 ^ 64 - 1 - 3 = 2 ^ 64 - (3 + 1) by rfl,
    Nat.testBit_two_pow_sub_succ (by decide), hThree, Nat.testBit_shiftLeft,
    Nat.testBit_shiftRight]
  by_cases hLow : i < 2
  · simp [hLow]
  · rw [show 2 + (i - 2) = i by omega]
    by_cases hHigh : i < 64
    · simp [hLow, hHigh, Nat.not_lt.mp hLow]
    · rw [Nat.testBit_lt_two_pow (Nat.lt_of_lt_of_le h (Nat.pow_le_pow_right (by decide) (by omega)))]
      simp

/-- The index is moved by the stride of the packet. -/
theorem nextIndex_eq {index length : Nat} (hIndex : index % 4 = 0) (hLt : index < 8192)
    (hLength : length < 2 ^ 16) :
    nextIndex index length = (index + (length + PacketHeader.SIZE + 3) / 4 * 4) % 8192 := by
  unfold nextIndex
  dsimp only [PacketHeader.SIZE]
  rw [and_not_three (by omega)]
  split <;> omega

namespace ReceiveBuffer

theorem header_length_lt (self : ReceiveBuffer) : self.header.length < 2 ^ 16 := by
  have hLt := ofBytes_lt (load self.data (self.index + 2) 2)
  rwa [length_load] at hLt

/-- What is read at the index if the device has written a packet there. -/
theorem read_record {self : ReceiveBuffer} {packet : Packet}
    (h : load self.data self.index packet.record.cells.length = packet.record.cells) :
    self.header = ⟨packet.status, packet.contents.length⟩ ∧
      load self.data self.msgStart packet.contents.length = packet.contents := by
  have hCells : load self.data self.index (2 + 2 + packet.contents.length) =
      toBytes 2 packet.status ++ toBytes 2 packet.contents.length ++ packet.contents := by
    have hLength : packet.record.cells.length = 2 + 2 + packet.contents.length := by
      simp only [Packet.record, List.length_append, length_toBytes]
    rwa [hLength] at h
  rw [load_append, load_append] at hCells
  obtain ⟨hHeader, hContents⟩ := List.append_inj hCells (by simp)
  obtain ⟨hStatus, hSize⟩ := List.append_inj hHeader (by simp)
  refine ⟨?_, hContents⟩
  have hTwo : ∀ value < 2 ^ 16, ofBytes (toBytes 2 value) = value := by
    intro value hLt
    rw [ofBytes_toBytes]
    exact Nat.mod_eq_of_lt hLt
  unfold header
  rw [hStatus, hSize, hTwo _ packet.status_lt, hTwo _ packet.length_lt]

theorem process_of_ok {self : ReceiveBuffer} (h : self.header.isOk = true) :
    self.process = { self with index := nextIndex self.index self.header.length } := if_pos h

/-- Any sequence of packets with this bound on the length in their headers. What
the device writes between two calls is arbitrary. -/
inductive Reachable (longest : Nat) : ReceiveBuffer → Prop where
  | new (data : Nat → UInt8) : Reachable longest ⟨0, data⟩
  | write {self : ReceiveBuffer} (h : Reachable longest self) (data : Nat → UInt8) :
      Reachable longest { self with data }
  | process {self : ReceiveBuffer} (h : Reachable longest self)
      (hLength : self.header.length ≤ longest) : Reachable longest self.process

theorem process_index {self : ReceiveBuffer} (hIndex : self.index % 4 = 0)
    (hLt : self.index < 8192) : self.process.index % 4 = 0 ∧ self.process.index < 8192 := by
  unfold process
  split
  · rw [nextIndex_eq hIndex hLt self.header_length_lt]
    refine ⟨?_, Nat.mod_lt _ (by decide)⟩
    dsimp only
    omega
  · exact ⟨hIndex, hLt⟩

theorem Reachable.index {longest : Nat} {self : ReceiveBuffer} (h : Reachable longest self) :
    self.index % 4 = 0 ∧ self.index < 8192 := by
  induction h with
  | new data => exact ⟨rfl, Nat.succ_pos _⟩
  | write h data ih => exact ih
  | process h hLength ih => exact process_index ih.1 ih.2

end ReceiveBuffer

/-- A packet of zeros. -/
def Packet.zeros (length : Nat) (h : length < 2 ^ 16) : Packet where
  status := ReceiveStatus.OK
  contents := List.replicate length 0
  status_lt := by decide
  length_lt := by rwa [List.length_replicate]

namespace ReceiveBuffer

/-- The device has written a packet of zeros at the index. -/
def withZeros (index length : Nat) (h : length < 2 ^ 16) : ReceiveBuffer :=
  ⟨index, store (fun _ => 0) index (Packet.zeros length h).record.cells⟩

theorem withZeros_header (index length : Nat) (h : length < 2 ^ 16) :
    (withZeros index length h).header = ⟨ReceiveStatus.OK, length⟩ := by
  have hHeader := (@read_record (withZeros index length h) (Packet.zeros length h)
    (load_store _ _ _)).1
  rwa [show (Packet.zeros length h).contents.length = length from List.length_replicate] at hHeader

theorem withZeros_isOk (index length : Nat) (h : length < 2 ^ 16) :
    (withZeros index length h).header.isOk = true := by
  rw [withZeros_header]
  exact decide_eq_true (Nat.and_self _)

/-- Every packet of admissible length may come next. -/
theorem Reachable.zeros {longest index length : Nat} {data : Nat → UInt8}
    (h : Reachable longest ⟨index, data⟩) (hLength : length ≤ longest) (hLt : length < 2 ^ 16) :
    Reachable longest (withZeros index length hLt) ∧
      ∃ data', Reachable longest ⟨nextIndex index length, data'⟩ := by
  have hWritten : Reachable longest (withZeros index length hLt) := h.write _
  have hHeader := withZeros_header index length hLt
  have hNext := hWritten.process (by rw [hHeader]; exact hLength)
  rw [process_of_ok (withZeros_isOk index length hLt), hHeader] at hNext
  exact ⟨hWritten, _, hNext⟩

end ReceiveBuffer

end D3OS.Device.Rtl8139
