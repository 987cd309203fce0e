import D3OS.Memory.Basic
import Mathlib.Data.Set.Lattice
import Mathlib.Order.CompletePartialOrder
import Mathlib.Order.Interval.Set.Basic

/-! Virtual memory areas. -/
namespace D3OS.Memory

inductive VmaType where
  | code
  | heap
  | environment
  | deviceMemory
  | userStack
  | kernelStack
  | kernelBuffer
  | anonymous
  deriving DecidableEq, Repr

def TAG_SIZE : Nat := 16

structure VirtualMemoryArea where
  space : MemorySpace
  range : PageRange
  typ : VmaType
  tag : List UInt8
  deriving DecidableEq, Repr

namespace VirtualMemoryArea

/-- A tag is cut off after `TAG_SIZE` bytes and padded with dashes. -/
def newWithTag (space : MemorySpace) (range : PageRange) (typ : VmaType) (tagStr : List UInt8) :
    VirtualMemoryArea :=
  let tagBytes := tagStr.take TAG_SIZE
  { space, range, typ, tag := tagBytes ++ List.replicate (TAG_SIZE - tagBytes.length) 0x2d }

variable (self : VirtualMemoryArea)

def start : Nat := Page.startAddress self.range.start

/-- `end()`: the address behind the last page. -/
def stop : Nat := Page.startAddress self.range.stop

def overlapsWith (other : VirtualMemoryArea) : Bool :=
  self.range.stop > other.range.start ∧ self.range.start < other.range.stop

def isEquivalentTo (other : VirtualMemoryArea) : Bool :=
  self.start = other.start ∧ self.stop = other.stop ∧ self.typ = other.typ ∧
    self.space = other.space ∧ self.tag = other.tag

def pages : Set Nat := Set.Ico self.range.start self.range.stop

end VirtualMemoryArea

end D3OS.Memory
