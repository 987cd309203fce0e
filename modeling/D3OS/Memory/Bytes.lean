import D3OS.Library.LittleEndian
import D3OS.Memory.Physical

/-! Physical memory byte by byte. A word holds its eight bytes with the least
significant one first; copies and fills write one byte after the other. -/
namespace D3OS.Memory.Machine

open LittleEndian (toBytes ofBytes)

/-- The bytes of the word that holds an address. -/
def wordBytesAt (m : Machine) (addr : Nat) : List UInt8 :=
  toBytes 8 (m.read (addr / PAGE_SIZE) (addr % PAGE_SIZE / 8)).toNat

def readByte (m : Machine) (addr : Nat) : UInt8 := (m.wordBytesAt addr).getD (addr % 8) 0

def writeByte (m : Machine) (addr : Nat) (byte : UInt8) : Machine :=
  m.write (addr / PAGE_SIZE) (addr % PAGE_SIZE / 8)
    (PageTableEntry.ofNat (ofBytes ((m.wordBytesAt addr).set (addr % 8) byte)))

def writeBytes (m : Machine) (addr : Nat) : List UInt8 → Machine
  | [] => m
  | byte :: rest => (m.writeByte addr byte).writeBytes (addr + 1) rest

theorem readByte_writeByte (m : Machine) (addr other : Nat) (byte : UInt8) :
    (m.writeByte addr byte).readByte other = if other = addr then byte else m.readByte other := by
  have hLength : ((m.wordBytesAt addr).set (addr % 8) byte).length = 8 := by
    rw [List.length_set, wordBytesAt, LittleEndian.length_toBytes]
  by_cases hWord : other / PAGE_SIZE = addr / PAGE_SIZE ∧
      other % PAGE_SIZE / 8 = addr % PAGE_SIZE / 8
  · -- The changed word has the old bytes with one of them replaced.
    have hBytes : (m.writeByte addr byte).wordBytesAt other =
        (m.wordBytesAt addr).set (addr % 8) byte := by
      have hLt := LittleEndian.ofBytes_lt ((m.wordBytesAt addr).set (addr % 8) byte)
      rw [hLength] at hLt
      rw [wordBytesAt, writeByte, read_write, if_pos hWord, PageTableEntry.toNat_ofNat hLt,
        LittleEndian.toBytes_ofBytes hLength]
    have hSame : m.wordBytesAt other = m.wordBytesAt addr := by
      rw [wordBytesAt, wordBytesAt, hWord.1, hWord.2]
    rw [readByte, hBytes, readByte, hSame, List.getD_eq_getElem?_getD, List.getElem?_set,
      List.getD_eq_getElem?_getD]
    unfold PAGE_SIZE at hWord
    have hEq : addr % 8 = other % 8 ↔ other = addr := by omega
    rw [List.length_set] at hLength
    simp only [hEq, hLength, Nat.mod_lt _ (show 8 > 0 by decide), if_true]
    by_cases h : other = addr
    · rw [if_pos h, if_pos h]
      rfl
    · rw [if_neg h, if_neg h]
  · have hNe : other ≠ addr := by
      rintro rfl
      exact hWord ⟨rfl, rfl⟩
    rw [if_neg hNe, readByte, readByte, wordBytesAt, wordBytesAt, writeByte, read_write, if_neg hWord]

/-- What a byte is after a copy: the byte of the copy if there is one. -/
theorem readByte_writeBytes (m : Machine) (addr other : Nat) (bytes : List UInt8) :
    (m.writeBytes addr bytes).readByte other =
      if addr ≤ other then (bytes[other - addr]?).getD (m.readByte other) else m.readByte other := by
  induction bytes generalizing m addr with
  | nil => simp [writeBytes]
  | cons byte rest ih =>
    rw [writeBytes, ih, readByte_writeByte]
    rcases lt_trichotomy other addr with hLt | rfl | hGt
    · rw [if_neg (by omega), if_neg (by omega), if_neg (by omega)]
    · rw [if_neg (by omega), if_pos rfl, if_pos le_rfl, Nat.sub_self]
      rfl
    · grind

variable {m : Machine} {addr index : Nat} {bytes : List UInt8}

theorem readByte_writeBytes_outside {other : Nat} (h : other < addr ∨ addr + bytes.length ≤ other) :
    (m.writeBytes addr bytes).readByte other = m.readByte other := by
  rw [readByte_writeBytes]
  split
  · rw [List.getElem?_eq_none (by omega)]
    rfl
  · rfl

theorem readByte_writeBytes_inside (h : index < bytes.length) :
    (m.writeBytes addr bytes).readByte (addr + index) = bytes[index] := by
  rw [readByte_writeBytes, if_pos (Nat.le_add_right _ _), Nat.add_sub_cancel_left,
    List.getElem?_eq_getElem h]
  rfl

/-- What a byte is after a fill with zeroes. -/
theorem readByte_fill (m : Machine) (addr count other : Nat) :
    (m.writeBytes addr (List.replicate count 0)).readByte other =
      if addr ≤ other ∧ other < addr + count then 0 else m.readByte other := by
  split
  case isTrue hIn =>
    obtain ⟨index, rfl⟩ := Nat.exists_eq_add_of_le hIn.1
    rw [readByte_writeBytes_inside (by rw [List.length_replicate]; omega), List.getElem_replicate]
  case isFalse hOut =>
    exact readByte_writeBytes_outside (by rw [List.length_replicate]; omega)

@[simp] theorem frames_writeBytes (m : Machine) (addr : Nat) (bytes : List UInt8) :
    (m.writeBytes addr bytes).frames = m.frames := by
  induction bytes generalizing m addr with
  | nil => rfl
  | cons byte rest ih => exact ih _ _

/-- A copy into one frame leaves the words of the other frames alone. -/
theorem read_writeBytes_other {frame : Nat}
    (h : PAGE_SIZE * (frame + 1) ≤ addr ∨ addr + bytes.length ≤ PAGE_SIZE * frame) :
    (m.writeBytes addr bytes).read frame index = m.read frame index := by
  induction bytes generalizing m addr with
  | nil => rfl
  | cons byte rest ih =>
    have hNe : frame ≠ addr / PAGE_SIZE := by
      unfold PAGE_SIZE at h ⊢
      simp only [List.length_cons] at h
      omega
    rw [writeBytes, ih (by simp only [List.length_cons] at h; omega), writeByte, read_write,
      if_neg fun hSame => hNe hSame.1]

/-- Several blocks of bytes, one after the other. -/
def writeAll (m : Machine) : List (Nat × List UInt8) → Machine
  | [] => m
  | (addr, bytes) :: rest => (m.writeBytes addr bytes).writeAll rest

/-- These bytes stand at the address. -/
def HasBytes (m : Machine) (addr : Nat) (bytes : List UInt8) : Prop :=
  ∀ i (hi : i < bytes.length), m.readByte (addr + i) = bytes[i]

theorem hasBytes_writeBytes (m : Machine) (addr : Nat) (bytes : List UInt8) :
    (m.writeBytes addr bytes).HasBytes addr bytes :=
  fun _ hi => readByte_writeBytes_inside hi

theorem HasBytes.congr {m' : Machine} (h : m.HasBytes addr bytes)
    (hSame : ∀ i < bytes.length, m'.readByte (addr + i) = m.readByte (addr + i)) :
    m'.HasBytes addr bytes :=
  fun i hi => (hSame i hi).trans (h i hi)

/-- Bytes written elsewhere. -/
theorem HasBytes.writeBytes {other : Nat} {more : List UInt8} (h : m.HasBytes addr bytes)
    (hApart : addr + bytes.length ≤ other ∨ other + more.length ≤ addr) :
    (m.writeBytes other more).HasBytes addr bytes :=
  h.congr fun _ _ => readByte_writeBytes_outside (by omega)

theorem HasBytes.append {more : List UInt8} (h : m.HasBytes addr bytes)
    (h' : m.HasBytes (addr + bytes.length) more) :
    m.HasBytes addr (bytes ++ more) := by
  intro i hi
  by_cases hFirst : i < bytes.length
  · rw [List.getElem_append_left hFirst, h i hFirst]
  · obtain ⟨rest, rfl⟩ := Nat.exists_eq_add_of_le (not_lt.mp hFirst)
    have hRest : rest < more.length := by
      rw [List.length_append] at hi
      omega
    rw [List.getElem_append_right (by omega), ← Nat.add_assoc, h' rest hRest]
    simp only [Nat.add_sub_cancel_left]

@[simp] theorem frames_writeAll (m : Machine) (writes : List (Nat × List UInt8)) :
    (m.writeAll writes).frames = m.frames := by
  induction writes generalizing m with
  | nil => rfl
  | cons write rest ih =>
    rw [writeAll, ih, frames_writeBytes]

theorem read_writeAll_other {frame : Nat} {writes : List (Nat × List UInt8)}
    (h : ∀ write ∈ writes, PAGE_SIZE * (frame + 1) ≤ write.1 ∨
      write.1 + write.2.length ≤ PAGE_SIZE * frame) :
    (m.writeAll writes).read frame index = m.read frame index := by
  induction writes generalizing m with
  | nil => rfl
  | cons write rest ih =>
    rw [writeAll, ih fun other hMem => h other (List.mem_cons_of_mem _ hMem),
      read_writeBytes_other (h write (List.mem_cons_self ..))]

theorem readByte_writeAll_outside {writes : List (Nat × List UInt8)}
    (h : ∀ write ∈ writes, addr < write.1 ∨ write.1 + write.2.length ≤ addr) :
    (m.writeAll writes).readByte addr = m.readByte addr := by
  induction writes generalizing m with
  | nil => rfl
  | cons write rest ih =>
    rw [writeAll, ih fun other hMem => h other (List.mem_cons_of_mem _ hMem),
      readByte_writeBytes_outside (h write (List.mem_cons_self ..))]

end D3OS.Memory.Machine
