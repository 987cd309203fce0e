import Mathlib.Algebra.Group.Nat.Defs

/-! A kernel panic stops the machine. Every function of the model that can
reach `panic!`, `expect`, `unwrap` or a checked arithmetic operation returns
in `Except Panic`; each constructor names the site it comes from. -/
namespace D3OS

inductive Panic where
  /-- `PageFrameAllocator: Out of memory!` -/
  | outOfMemory
  /-- `free_block: Double-free or overlapping free detected!` -/
  | overlappingFree
  /-- Subtraction of a larger address from a smaller one. -/
  | addressUnderflow
  /-- `attempt to add resulted in overflow` on an address. -/
  | addressOverflow
  /-- `attempt to add resulted in non-canonical virtual address` -/
  | nonCanonicalAddress
  /-- A checked integer operation overflows in a development build. -/
  | arithmeticOverflow
  /-- `BTreeMap::range` from a greater to a smaller key. -/
  | reversedRange
  /-- `Failed to dequeue first thread!` -/
  | noFirstThread
  /-- `Trying to access current thread before initialization!` -/
  | noCurrentThread
  /-- `Missing join_map entry!` in `exit`, `Missing join map entry!` in `kill`. -/
  | missingJoinMapEntry
  /-- `A thread cannot kill itself!` -/
  | killsItself
  /-- `unreachable!()` -/
  | unreachableCode
  /-- `Process: Trying to exit a non-existent process!` -/
  | processNotFound
  /-- `PageTableEntry::set_frame` with the flag of a huge page. -/
  | hugePageFlag
  /-- `PhysAddr::new` with an address of more than 52 bits. -/
  | invalidPhysAddr
  /-- A failed `assert!` or `assert_eq!`. -/
  | assertionFailed
  /-- `unwrap` or `expect` on `None` or `Err`. -/
  | unwrapFailed
  /-- `Page Fault!`: no stack or heap area holds the address. -/
  | pageFault
  /-- `Environment size exceeds one page, which is not supported yet` -/
  | environmentTooLarge
  /-- A slice is taken outside of its vector, or ends before it starts. -/
  | sliceIndex
  /-- `capacity overflow`: a vector of more than `isize::MAX` bytes. -/
  | capacityOverflow
  /-- The kernel heap has no room for a vector. -/
  | allocationFailed
  /-- `Packet length may not exceed page size!` -/
  | packetTooLong
  /-- `Transmit failed!` -/
  | transmitFailed
  /-- `Receive failed!` -/
  | receiveFailed
  /-- `attempt to divide by zero`, or to take a remainder. -/
  | divisionByZero
  /-- `index out of bounds` -/
  | indexOutOfBounds
  /-- `Trying to mask a non-maskable interrupt` -/
  | nonMaskable
  deriving DecidableEq, Repr

end D3OS
