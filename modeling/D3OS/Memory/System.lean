import D3OS.Memory.DropWalk
import D3OS.Memory.Mapping
import D3OS.Memory.UnmapWalk
import Mathlib.Logic.Relation

/-! The memory of the whole system: the machine, the address space of the
kernel and those of the processes. Processes are created from the page tables
of the kernel, their address spaces change by the calls below, and they end
area by area. -/
namespace D3OS.Memory

open PageTableFlags (PRESENT WRITABLE USER_ACCESSIBLE)

/-- How far the end of an address space has come: `drop` still has to unmap
the remaining areas, then the page tables go. -/
inductive Phase where
  | running
  | unmapping (remaining : List VirtualMemoryArea)
  deriving DecidableEq

/-- The memory of a process. -/
structure ProcessMemory where
  space : VirtualAddressSpace
  phase : Phase
  deriving DecidableEq

/-- The areas of a process that are not yet given up. -/
def ProcessMemory.areas (process : ProcessMemory) : List VirtualMemoryArea :=
  match process.phase with
  | .running => process.space.virtualMemoryAreas.entries.map Prod.snd
  | .unmapping remaining => remaining

structure System where
  machine : Machine
  kernel : VirtualAddressSpace
  processes : Nat → Option ProcessMemory
  nextProcessId : Nat

/-- The calls on the address space of a running process. -/
inductive SpaceCall where
  | userAllocMapFull (startPage : Option Nat) (numPages : Nat) (typ : VmaType) (tag : List UInt8)
  | userAllocMapPartial (startPage : Option Nat) (numPages : Nat) (typ : VmaType)
      (tag : List UInt8) (allocNumPages : Nat) (allocDownwards : Bool)
  | sysMapMemory (start size : Nat)
  | kernelAllocMapIdentity (numPf : Nat) (flags : PageTableFlags) (typ : VmaType)
      (tag : List UInt8)
  | newUserThread
  | handlePageFault (faultAddr : Nat)

def SpaceCall.run (profile : BuildProfile) (call : SpaceCall) (space : VirtualAddressSpace)
    (m : Machine) : Except Panic (VirtualAddressSpace × Machine) :=
  match call with
  | .userAllocMapFull startPage numPages typ tag => do
    let (_, space, m) ← space.userAllocMapFull profile m startPage numPages typ tag
    return (space, m)
  | .userAllocMapPartial startPage numPages typ tag allocNumPages allocDownwards => do
    let (_, space, m) ← space.userAllocMapPartial profile m startPage numPages typ tag
      allocNumPages allocDownwards
    return (space, m)
  | .sysMapMemory start size => do
    let (_, space) ← space.sysMapMemory profile start size
    return (space, m)
  | .kernelAllocMapIdentity numPf flags typ tag => do
    let (_, space, m) ← space.kernelAllocMapIdentity profile m numPf flags typ tag
    return (space, m)
  | .newUserThread => space.newUserThread profile m
  | .handlePageFault faultAddr => do
    let m ← space.handlePageFault profile m faultAddr
    return (space, m)

/-- A thread of the process can write to the page: it is user accessible, or
part of a kernel area of the process such as a kernel stack. -/
def VirtualAddressSpace.Writes (space : VirtualAddressSpace) (m : Machine) (page : Nat) : Prop :=
  page < 512 ^ 4 ∧ entryAt m space.pageTables.rootTable page ≠ PageTableEntry.unused ∧
    ((entryAt m space.pageTables.rootTable page).flags &&& USER_ACCESSIBLE ≠ 0 ∨
      ∃ entry ∈ space.virtualMemoryAreas.entries, entry.2.space = .kernel ∧ page ∈ entry.2.pages)

/-- `create_kernel_process`: the kernel image and the initial heap get areas,
which need no mapping of their own. -/
def createKernelProcess (profile : BuildProfile) (virtualBits : Nat) (m : Machine)
    (kernelImage heap : Frames.PhysFrameRange) :
    Except Panic (VirtualAddressSpace × Machine) := do
  let (paging, m) ← createKernelAddressSpace profile m
  let space ← VirtualAddressSpace.new paging virtualBits
  let heapPage ← pageFromU64 (PAGE_SIZE * heap.start)
  let (vma, space) ← space.allocVma profile (some heapPage) (heap.stop - heap.start) .kernel .heap
    (tagBytes "heap")
  let _ ← expectSome vma
  let imagePage ← pageFromU64 (PAGE_SIZE * kernelImage.start)
  let (vma, space) ← space.allocVma profile (some imagePage)
    (kernelImage.stop - kernelImage.start) .kernel .code (tagBytes "code")
  let _ ← expectSome vma
  return (space, m)

namespace System

/-- A new state of the machine, in which the process with this id has the
given memory, or is gone. -/
def setProcess (s : System) (machine : Machine) (id : Nat) (process : Option ProcessMemory) :
    System :=
  { s with machine, processes := fun id' => if id' = id then process else s.processes id' }

/-- A new state of the machine and of the address space of the kernel. -/
def setKernel (s : System) (machine : Machine) (kernel : VirtualAddressSpace) : System :=
  { s with machine, kernel }

/-- The address space of the kernel, or of a process. -/
def spaceOf (s : System) : Option Nat → Option VirtualAddressSpace
  | none => some s.kernel
  | some id => (s.processes id).map ProcessMemory.space

/-- The areas of all address spaces that are not yet given up. -/
def LiveArea (s : System) (area : VirtualMemoryArea) : Prop :=
  (∃ entry ∈ s.kernel.virtualMemoryAreas.entries, entry.2 = area) ∨
    ∃ id process, s.processes id = some process ∧ area ∈ process.areas

/-- The frames of the kernel stacks, which are identity mapped. -/
def stackFrames (s : System) : Set Nat :=
  {frame | ∃ area, s.LiveArea area ∧ area.space = .kernel ∧ area.typ = .kernelStack ∧
    frame ∈ area.pages}

end System

/-- Physical memory at the start: the free frames form a proper list, frame 0
is not one of them, and everything lies below user space. -/
structure BootMemory (m : Machine) : Prop where
  sound : m.Sound
  below : ∀ frame ∈ m.freeSet, frame < USER_SPACE_PAGE
  limit : ∀ limit, m.frames.physLimit = some limit → limit ≤ USER_SPACE_PAGE

/-- The system once the kernel process exists; it is the process with id 1. -/
inductive Boots (profile : BuildProfile) (virtualBits : Nat) : System → Prop where
  | kernel {m m' : Machine} {space : VirtualAddressSpace} {kernelImage heap : Frames.PhysFrameRange}
      (hMemory : BootMemory m)
      (hCreate : createKernelProcess profile virtualBits m kernelImage heap = .ok (space, m')) :
      Boots profile virtualBits ⟨m', space, fun _ => none, 2⟩

namespace System

/-- One step of the system. Device memory lies below user space. -/
inductive Step (profile : BuildProfile) (virtualBits : Nat) : System → System → Prop where
  | createProcess {s : System} {paging : Paging} {m : Machine} {space : VirtualAddressSpace}
      (hClone : cloneAddressSpace s.machine s.kernel = .ok (paging, m))
      (hNew : VirtualAddressSpace.new paging virtualBits = .ok space) :
      Step profile virtualBits s
        { (s.setProcess m s.nextProcessId (some ⟨space, .running⟩)) with
          nextProcessId := s.nextProcessId + 1 }
  | call {s : System} {id : Nat} {call : SpaceCall} {space space' : VirtualAddressSpace}
      {m : Machine} (hProcess : s.processes id = some ⟨space, .running⟩)
      (hRun : call.run profile space s.machine = .ok (space', m)) :
      Step profile virtualBits s (s.setProcess m id (some ⟨space', .running⟩))
  | store {s : System} {id page index : Nat} {space : VirtualAddressSpace} (word : PageTableEntry)
      (hProcess : s.processes id = some ⟨space, .running⟩) (hWrites : space.Writes s.machine page)
      (hIndex : index < 512) :
      Step profile virtualBits s (s.setKernel (s.machine.write
        (entryAt s.machine space.pageTables.rootTable page).frame index word) s.kernel)
  | beginDrop {s : System} {id : Nat} {space : VirtualAddressSpace}
      (hProcess : s.processes id = some ⟨space, .running⟩) :
      Step profile virtualBits s (s.setProcess s.machine id
        (some ⟨space, .unmapping (space.virtualMemoryAreas.entries.map Prod.snd)⟩))
  | unmapArea {s : System} {id : Nat} {space : VirtualAddressSpace} {area : VirtualMemoryArea}
      {rest : List VirtualMemoryArea} {m : Machine}
      (hProcess : s.processes id = some ⟨space, .unmapping (area :: rest)⟩)
      (hUnmap : space.pageTables.unmap profile s.machine area.range true = .ok m) :
      Step profile virtualBits s (s.setProcess m id (some ⟨space, .unmapping rest⟩))
  | dropTables {s : System} {id : Nat} {space : VirtualAddressSpace} {m : Machine}
      (hProcess : s.processes id = some ⟨space, .unmapping []⟩)
      (hDrop : space.pageTables.drop s.machine = .ok m) :
      Step profile virtualBits s (s.setProcess m id none)
  | newKernelThread {s : System} {tag : List UInt8} {pages : PageRange}
      {space : VirtualAddressSpace} {m : Machine}
      (hStack : s.kernel.allocKernelStack profile s.machine tag = .ok (pages, space, m)) :
      Step profile virtualBits s (s.setKernel m space)
  | mapDevice {s : System} {startPhysAddr endPhysAddr page : Nat} {flags : PageTableFlags}
      {tag : List UInt8} {space : VirtualAddressSpace} {m : Machine}
      (hBelow : endPhysAddr ≤ USER_SPACE_START)
      (hMap : s.kernel.kernelMapDevmIdentity profile s.machine startPhysAddr endPhysAddr flags
        .deviceMemory tag = .ok (page, space, m)) :
      Step profile virtualBits s (s.setKernel m space)

def Runs (profile : BuildProfile) (virtualBits : Nat) : System → System → Prop :=
  Relation.ReflTransGen (Step profile virtualBits)

/-- The states the system can be in. -/
def Reachable (profile : BuildProfile) (virtualBits : Nat) (s : System) : Prop :=
  ∃ s₀, Boots profile virtualBits s₀ ∧ Runs profile virtualBits s₀ s

end System

end D3OS.Memory
