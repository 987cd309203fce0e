import D3OS.Library.SortedMap
import D3OS.Memory.Vma

/-! The areas of a virtual address space. `alloc_vma` places a new area at a
given page or in the first gap that is large enough; no frames are allocated
and no page tables are touched here. -/
namespace D3OS.Memory

open Outcome

/-- The areas are sorted by their start address. -/
structure VirtualAddressSpace where
  virtualMemoryAreas : SortedMap Nat VirtualMemoryArea
  pageTables : Paging
  firstUsableUserAddr : Nat
  lastUsableUserAddr : Nat
  deriving DecidableEq

/-- The last usable address for a CPU with this many linear address bits. -/
def lastUsableVirtualAddress (virtualBits : Nat) : Nat := 2 ^ (virtualBits - 1) - 1

namespace VirtualAddressSpace

def new (pageTables : Paging) (virtualBits : Nat) : Except Panic VirtualAddressSpace := do
  let firstUsableUserAddr ← VirtAddr.new USER_SPACE_START
  let lastUsableUserAddr ← VirtAddr.new (lastUsableVirtualAddress virtualBits)
  return { virtualMemoryAreas := SortedMap.empty, pageTables, firstUsableUserAddr, lastUsableUserAddr }

variable (self : VirtualAddressSpace)

/-- Does the closest area at or below `addr` reach beyond it? -/
def previousOverlaps (addr : Nat) : Bool :=
  match self.virtualMemoryAreas.lastAtMost addr with
  | some (_, prev) => prev.stop > addr
  | none => false

/-- Store a new area under its start address. -/
def store (vma : VirtualMemoryArea) : VirtualAddressSpace :=
  { self with virtualMemoryAreas := self.virtualMemoryAreas.insert vma.start vma }

/-- The bounds check of `alloc_at`. -/
def outOfBounds (space : MemorySpace) (start stop : Nat) : Bool :=
  match space with
  | .user => start < self.firstUsableUserAddr ∨ stop > self.lastUsableUserAddr
  | .kernel => stop > self.lastUsableUserAddr

/-- `alloc_at`: only the previous area is checked for overlap. -/
def allocAt (profile : BuildProfile) (self : VirtualAddressSpace) (firstPage numPages : Nat)
    (space : MemorySpace) (typ : VmaType) (tag : List UInt8) :
    Except Panic (Option VirtualMemoryArea × VirtualAddressSpace) := do
  let endPage ← Page.add profile firstPage numPages
  let vma := VirtualMemoryArea.newWithTag space ⟨firstPage, endPage⟩ typ tag
  if self.outOfBounds space vma.start vma.stop then return (none, self)
  else if self.previousOverlaps vma.start then return (none, self)
  else return (some vma, self.store vma)

/-- A call of `alloc_at` leaves the areas alone, or stores the new area after
the bounds check and the check against the previous area. -/
theorem allocAt_cases {profile : BuildProfile} {self later : VirtualAddressSpace}
    {firstPage numPages : Nat} {space : MemorySpace} {typ : VmaType} {tag : List UInt8}
    {result : Option VirtualMemoryArea}
    (h : self.allocAt profile firstPage numPages space typ tag = .ok (result, later)) :
    (result = none ∧ later = self) ∨
    ∃ endPage, Page.add profile firstPage numPages = .ok endPage ∧
      self.outOfBounds space (Page.startAddress firstPage) (Page.startAddress endPage) = false ∧
      self.previousOverlaps (Page.startAddress firstPage) = false ∧
      later = self.store (VirtualMemoryArea.newWithTag space ⟨firstPage, endPage⟩ typ tag) ∧
      result = some (VirtualMemoryArea.newWithTag space ⟨firstPage, endPage⟩ typ tag) := by
  obtain ⟨endPage, hEnd, h⟩ := bind_ok h
  dsimp only at h
  split at h
  · left
    simp only [pure_ok_iff, Prod.mk.injEq] at h
    exact ⟨h.1.symm, h.2.symm⟩
  · rename_i hBounds
    split at h
    · left
      simp only [pure_ok_iff, Prod.mk.injEq] at h
      exact ⟨h.1.symm, h.2.symm⟩
    · rename_i hPrevious
      right
      refine ⟨endPage, hEnd, Bool.eq_false_iff.mpr hBounds, Bool.eq_false_iff.mpr hPrevious, ?_⟩
      simp only [pure_ok_iff, Prod.mk.injEq] at h
      exact ⟨h.2.symm, h.1.symm⟩

/-- The addresses `alloc` searches for the given space. -/
def searchRange : MemorySpace → Nat × Nat
  | .user => (self.firstUsableUserAddr, self.lastUsableUserAddr)
  | .kernel => (0, self.firstUsableUserAddr)

/-- The areas that start in the search range. -/
def areasIn (first stop : Nat) : Except Panic (List (Nat × VirtualMemoryArea)) :=
  if stop < first then .error .reversedRange else .ok (self.virtualMemoryAreas.range first stop)

/-- The search loop of `alloc` over the areas of the range, starting at
`current`. The flag tells whether a gap in front of an area was found. -/
def findGap (size stop : Nat) :
    Nat → List (Nat × VirtualMemoryArea) → Except Panic (Nat × Bool)
  | current, [] => .ok (current, false)
  | current, (_, vma) :: rest => do
    let reach ← VirtAddr.add current size
    if reach ≤ vma.start ∧ vma.start ≤ stop then return (current, true)
    else if vma.stop > stop then return (vma.stop, false)
    else findGap size stop vma.stop rest

/-- `alloc`: first fit from the start of the search range. -/
def alloc (profile : BuildProfile) (self : VirtualAddressSpace) (numPages : Nat)
    (space : MemorySpace) (typ : VmaType) (tag : List UInt8) :
    Except Panic (Option VirtualMemoryArea × VirtualAddressSpace) := do
  let (first, stop) := self.searchRange space
  let size ← profile.word (numPages * PAGE_SIZE)
  let areas ← self.areasIn first stop
  let (current, found) ← findGap size stop first areas
  if found then self.allocAt profile (Page.containingAddress current) numPages space typ tag
  else
    let reach ← VirtAddr.add current size
    if reach ≤ stop then
      self.allocAt profile (Page.containingAddress current) numPages space typ tag
    else return (none, self)

def allocVma (profile : BuildProfile) (self : VirtualAddressSpace) (startPage : Option Nat)
    (numPages : Nat) (space : MemorySpace) (typ : VmaType) (tag : List UInt8) :
    Except Panic (Option VirtualMemoryArea × VirtualAddressSpace) :=
  match startPage with
  | some startPage => self.allocAt profile startPage numPages space typ tag
  | none => self.alloc profile numPages space typ tag

end VirtualAddressSpace

end D3OS.Memory
