import D3OS.Memory.AddressSpace
import D3OS.Memory.Pages

/-! The operations of a virtual address space that change its page tables:
areas with frames behind them, page faults, and the end of an address space.
A failed `expect` is a panic, so a caller never sees an area without its
frames. -/
namespace D3OS.Memory

open PageTableFlags (PRESENT WRITABLE USER_ACCESSIBLE)

/-- `expect` on an `Option`. -/
def expectSome {α : Type} : Option α → Except Panic α
  | some value => .ok value
  | none => .error .unwrapFailed

/-- `expect` on a `Result`. -/
def expectOk {ε α : Type} : Except ε α → Except Panic α
  | .ok value => .ok value
  | .error _ => .error .unwrapFailed

theorem expectSome_ok {α : Type} {option : Option α} {value : α}
    (h : expectSome option = .ok value) : option = some value := by
  cases option with
  | none => cases h
  | some found => exact congrArg some (Except.ok.inj h)

theorem expectOk_ok {α : Type} {result : Except Int α} {value : α}
    (h : expectOk result = .ok value) : result = .ok value := by
  cases result with
  | error code => cases h
  | ok found => exact congrArg Except.ok (Except.ok.inj h)

def EUNKN : Int := -1

def KERNEL_STACK_PAGES : Nat := 64

def MAX_USER_STACK_SIZE : Nat := 0x40000000

def tagBytes (tag : String) : List UInt8 := tag.toUTF8.data.toList

/-- `frame_from_u64`, which rounds up to the next frame. -/
def frameFromU64 (addr : Nat) : Except Panic Nat :=
  let frame := (addr + (PAGE_SIZE - 1)) / PAGE_SIZE
  if addr < 2 ^ 52 ∧ PAGE_SIZE * frame < 2 ^ 52 then .ok frame else .error .invalidPhysAddr

/-- `page_from_u64` followed by `expect`. -/
def pageFromU64 (addr : Nat) : Except Panic Nat := do
  let addr ← VirtAddr.new addr
  if addr % PAGE_SIZE = 0 then return Page.containingAddress addr else .error .unwrapFailed

def VirtualMemoryArea.checkAndEnforceConsistency (self : VirtualMemoryArea)
    (flags : PageTableFlags) : PageTableFlags :=
  match self.space with
  | .user => flags ||| USER_ACCESSIBLE
  | .kernel => flags &&& ~~~USER_ACCESSIBLE

/-- The flags of every page that is mapped for a process. -/
def USER_PAGE_FLAGS : PageTableFlags := PRESENT ||| WRITABLE ||| USER_ACCESSIBLE

def cloneAddressSpace (m : Machine) (other : VirtualAddressSpace) :
    Except Panic (Paging × Machine) :=
  Paging.fromOther m other.pageTables

/-- `create_kernel_address_space`: all physical memory is mapped 1:1. -/
def createKernelAddressSpace (profile : BuildProfile) (m : Machine) :
    Except Panic (Paging × Machine) := do
  let (addressSpace, m) ← Paging.new m 4
  let limit ← expectSome m.frames.physLimit
  let maxAddr ← VirtAddr.new (PAGE_SIZE * limit)
  let m ← addressSpace.map profile m ⟨0, Page.containingAddress maxAddr⟩ .kernel (PRESENT ||| WRITABLE)
  return (addressSpace, m)

namespace VirtualAddressSpace

variable (profile : BuildProfile) (self : VirtualAddressSpace) (m : Machine)
  (vma : VirtualMemoryArea)

def mapPfrForPartialVma (frames : Frames.PhysFrameRange) (pages : PageRange)
    (flags : PageTableFlags) : Except Panic (Except Int Machine) := do
  let numFrames ← frames.len
  let numPages ← pages.count
  if numFrames ≠ numPages then return .error (-1)
  else
    let flags := vma.checkAndEnforceConsistency flags ||| PRESENT
    if pages.start < vma.range.start ∨ pages.stop > vma.range.stop then return .error (-1)
    else
      let m ← self.pageTables.mapPhysical profile m frames pages vma.space flags
      return .ok m

def mapPfrForVma (frames : Frames.PhysFrameRange) (flags : PageTableFlags)
    : Except Panic (Except Int Machine) :=
  self.mapPfrForPartialVma profile m vma frames vma.range flags

def mapPartialVma (pages : PageRange) (space : MemorySpace) (flags : PageTableFlags) :
    Except Panic Machine := do
  let found ← expectSome (self.virtualMemoryAreas.get? vma.start)
  if ¬ vma.isEquivalentTo found then .error .unwrapFailed
  else if ¬ (Page.startAddress pages.start ≥ vma.start) then .error .assertionFailed
  else if ¬ (Page.startAddress pages.stop ≤ vma.stop) then .error .assertionFailed
  else self.pageTables.map profile m pages space flags

def alignUp (addr : Nat) : Except Panic Nat := do
  let sum ← profile.word (addr + PAGE_SIZE)
  return (sum + (2 ^ 64 - 1)) % 2 ^ 64 / PAGE_SIZE * PAGE_SIZE

/-- `kernel_map_devm_identity`. No frames are allocated. -/
def kernelMapDevmIdentity (startPhysAddr endPhysAddr : Nat) (flags : PageTableFlags) (typ : VmaType)
    (tag : List UInt8) : Except Panic (Nat × VirtualAddressSpace × Machine) :=
  if ¬ (endPhysAddr > startPhysAddr) then .error .assertionFailed
  else do
    let startFrame ← frameFromU64 startPhysAddr
    let endAddr ← alignUp profile endPhysAddr
    let endFrame ← frameFromU64 endAddr
    let startPage ← pageFromU64 startPhysAddr
    let endPage ← pageFromU64 endAddr
    let pages : PageRange := ⟨startPage, endPage⟩
    let (vma, self) ← self.allocVma profile (some startPage) pages.len .kernel typ tag
    let vma ← expectSome vma
    let mapped ← self.mapPfrForVma profile m vma ⟨startFrame, endFrame⟩ flags
    let m ← expectOk mapped
    return (startPage, self, m)

def kernelAllocMapIdentity (numPf : Nat) (flags : PageTableFlags) (typ : VmaType) (tag : List UInt8)
    :
    Except Panic (PageRange × VirtualAddressSpace × Machine) := do
  let (frames, m) ← m.alloc numPf
  let startPage ← pageFromU64 (PAGE_SIZE * frames.start)
  let (vma, self) ←
    self.allocVma profile (some startPage) (frames.stop - frames.start) .kernel typ tag
  let vma ← expectSome vma
  let mapped ← self.mapPfrForVma profile m vma frames flags
  let m ← expectOk mapped
  let endPage ← Page.add profile startPage numPf
  return (⟨startPage, endPage⟩, self, m)

def userAllocMapFull (startPage : Option Nat) (numPages : Nat) (typ : VmaType) (tag : List UInt8) :
    Except Panic (Option VirtualMemoryArea × VirtualAddressSpace × Machine) := do
  let (vma, self) ← self.allocVma profile startPage numPages .user typ tag
  match vma with
  | none => return (none, self, m)
  | some vma =>
    let m ← self.pageTables.map profile m vma.range .user USER_PAGE_FLAGS
    return (some vma, self, m)

/-- The pages that `user_alloc_map_partial` maps. Nothing keeps them inside
the area. -/
def allocPageRange (allocNumPages : Nat) (allocDownwards : Bool) : Except Panic PageRange :=
  if allocDownwards then do
    let startPage ← Page.sub profile vma.range.stop allocNumPages
    return ⟨startPage, vma.range.stop⟩
  else do
    let endPage ← Page.add profile vma.range.start allocNumPages
    return ⟨vma.range.start, endPage⟩

def userAllocMapPartial (startPage : Option Nat) (numPages : Nat) (typ : VmaType) (tag : List UInt8)
    (allocNumPages : Nat) (allocDownwards : Bool) :
    Except Panic (Option VirtualMemoryArea × VirtualAddressSpace × Machine) := do
  let (vma, self) ← self.allocVma profile startPage numPages .user typ tag
  match vma with
  | none => return (none, self, m)
  | some vma =>
    let pages ← allocPageRange profile vma allocNumPages allocDownwards
    let m ← self.pageTables.map profile m pages .user USER_PAGE_FLAGS
    return (some vma, self, m)

def getPhys (virtAddr : Nat) :
    Except Panic (Option Nat) := do
  let addr ← VirtAddr.new virtAddr
  return self.pageTables.translate m addr

def isAddressWithinVma (address : Nat) (typ : VmaType) :
    Except Panic (Option VirtualMemoryArea) := do
  let addr ← VirtAddr.new address
  match self.virtualMemoryAreas.lastAtMost addr with
  | some (_, vma) => if addr < vma.stop ∧ vma.typ = typ then return some vma else return none
  | none => return none

/-- `handle_page_fault`, for a user thread of the process. -/
def handlePageFault (faultAddr : Nat) : Except Panic Machine := do
  let faultPage := Page.containingAddress faultAddr
  match ← self.isAddressWithinVma faultAddr .userStack with
  | some stack =>
    let endPage ← Page.add profile faultPage 1
    self.mapPartialVma profile m stack ⟨faultPage, endPage⟩ .user USER_PAGE_FLAGS
  | none =>
    match ← self.isAddressWithinVma faultAddr .heap with
    | some heap =>
      let endPage ← Page.add profile faultPage 1
      self.mapPartialVma profile m heap ⟨faultPage, endPage⟩ .user USER_PAGE_FLAGS
    | none => .error .pageFault

def sysMapMemory (start size : Nat) :
    Except Panic (Int × VirtualAddressSpace) := do
  let startAddr ← VirtAddr.new start
  let numPages := (size + (PAGE_SIZE - 1)) / PAGE_SIZE
  let (vma, self) ← self.allocVma profile (some (Page.containingAddress startAddr)) numPages .user
    .heap (tagBytes "heap")
  match vma with
  | none => return (EUNKN, self)
  | some _ => return (0, self)

def allocKernelStack (tag : List UInt8)
    : Except Panic (PageRange × VirtualAddressSpace × Machine) :=
  self.kernelAllocMapIdentity profile m KERNEL_STACK_PAGES (PRESENT ||| WRITABLE) .kernelStack tag

/-- The memory of `new_user_thread`: a kernel stack, and a user stack with
its last page mapped. -/
def newUserThread :
    Except Panic (VirtualAddressSpace × Machine) := do
  let (_, self, m) ← self.allocKernelStack profile m (tagBytes "userthread")
  let (vma, self, m) ← self.userAllocMapPartial profile m none (MAX_USER_STACK_SIZE / PAGE_SIZE)
    .userStack (tagBytes "usrstack") 1 true
  let _ ← expectSome vma
  return (self, m)

/-- `Drop for VirtualAddressSpace`: the areas are unmapped in ascending
order. -/
def drop : Except Panic Machine :=
  self.virtualMemoryAreas.entries.foldlM
    (fun m entry => self.pageTables.unmap profile m entry.2.range true) m

end VirtualAddressSpace

end D3OS.Memory
