import D3OS.Memory.Clone
import D3OS.Memory.Ownership

/-! Processes do not share memory. One ledger fits the kernel and all processes
at once, in every state the system can reach, and a frame has one entry in it
at most. -/
namespace D3OS.Memory

open Outcome
open Paging

variable {m : Machine} {ledger : Ledger} {frame : Nat} {use : Use}
  {kernel space : VirtualAddressSpace}

/-- Data in a frame that has a use is seen in no page table. -/
theorem Ledger.Fits.write_spares (h : ledger.Fits m) (hUse : ledger.use frame = some use)
    (index : Nat) (word : PageTableEntry) (root : Nat) :
    Spares root m ledger (m.write frame index word) ledger := by
  obtain ⟨hFits, hEntries⟩ := h.write hUse index word
  exact ⟨hFits, fun _ => id, fun _ => id, fun _ hOther => hEntries hOther⟩

/-- A new process has the entries of the kernel and no areas. -/
theorem ProcessFits.cloned {m' : Machine} {ledger' : Ledger} {virtualBits : Nat}
    (hBits : virtualBits ≤ 64) {paging : Paging} (h : KernelFits m ledger kernel)
    (hDepth : paging.depth = 4)
    (hCloned : ClonedFrom kernel.pageTables.rootTable paging.rootTable m ledger m' ledger')
    (hNew : VirtualAddressSpace.new paging virtualBits = .ok space) :
    ProcessFits m' ledger' ⟨space, .running⟩ := by
  obtain ⟨hPlaced, rfl, hEmpty⟩ := VirtualAddressSpace.new_placed hBits hNew
  refine .of_space hPlaced hDepth ⟨hCloned.root_own, ?_, ?_⟩
  · intro page hPage hUsed
    rw [hCloned.view page hPage] at hUsed ⊢
    exact .inr (h.view page hPage hUsed)
  · simp [ProcessMemory.areas, hEmpty, SortedMap.empty]

/-- What a thread of a process writes to belongs to the process. -/
theorem ProcessFits.use_of_writes {page : Nat} (h : ProcessFits m ledger ⟨space, .running⟩)
    (hWrites : space.Writes m page) :
    ∃ use, ledger.use (entryAt m space.pageTables.rootTable page).frame = some use := by
  obtain ⟨hPage, hUsed, hUser | ⟨entry, hMem, hKernel, hIn⟩⟩ := hWrites
  · exact ⟨_, h.use_of_isUser hPage hUser⟩
  · have hArea := ProcessFits.mem_areas_running.mpr ⟨entry, hMem, rfl⟩
    rcases h.view page hPage hUsed with ⟨-, hUse⟩ | ⟨-, hFrame, -⟩
    · exact ⟨_, hUse⟩
    · rw [hFrame]
      exact ⟨_, (h.stack _ hArea hKernel page hIn).1⟩

namespace System

/-- The ledger fits the whole system: the kernel and the processes have
different roots, and the ledger says what each of them uses. -/
structure Fits (s : System) (ledger : Ledger) : Prop where
  ledger_fits : ledger.Fits s.machine
  kernel_fits : KernelFits s.machine ledger s.kernel
  process_fits : ∀ {id process}, s.processes id = some process →
    ProcessFits s.machine ledger process
  apart : ∀ {owner owner' space space'}, s.spaceOf owner = some space →
    s.spaceOf owner' = some space' →
    space.pageTables.rootTable = space'.pageTables.rootTable → owner = owner'

variable {owner : Option Nat}

namespace Fits

variable {profile : BuildProfile} {virtualBits : Nat} {s s' : System} {ledger ledger' : Ledger}
  {m : Machine}

theorem spaceOf_kernel (s : System) : s.spaceOf none = some s.kernel := rfl

variable {id : Nat}

theorem spaceOf_process {process : ProcessMemory} (hProcess : s.processes id = some process) :
    s.spaceOf (some id) = some process.space := by
  simp [spaceOf, hProcess]

theorem root_own (h : s.Fits ledger) (hSpace : s.spaceOf owner = some space) :
    ledger.own space.pageTables.rootTable = some ⟨space.pageTables.rootTable, 4, 0⟩ := by
  cases owner with
  | none =>
    obtain rfl := Option.some.inj hSpace
    exact h.kernel_fits.root_own
  | some id =>
    obtain ⟨process, hProcess, rfl⟩ := Option.map_eq_some_iff.mp hSpace
    exact (h.process_fits hProcess).root_own

/-- A process changes, comes or goes, and no other address space has its
root. -/
theorem setProcess (h : s.Fits ledger) {root : Nat} {process : Option ProcessMemory}
    (hSpares : Spares root s.machine ledger m ledger')
    (hOthers : ∀ {owner space}, s.spaceOf owner = some space → owner ≠ some id →
      space.pageTables.rootTable ≠ root) (hProcess : ∀ {new}, process = some new →
      new.space.pageTables.rootTable = root ∧ ProcessFits m ledger' new) :
    (s.setProcess m id process).Fits ledger' := by
  have hSpaceOf : ∀ {owner space}, (s.setProcess m id process).spaceOf owner = some space →
      owner = some id ∧ space.pageTables.rootTable = root ∨
        owner ≠ some id ∧ s.spaceOf owner = some space := by
    rintro (_ | id') space hSpace
    · exact .inr ⟨by simp, hSpace⟩
    · obtain ⟨new, hNew, rfl⟩ := Option.map_eq_some_iff.mp hSpace
      by_cases hEq : id' = id
      · subst hEq
        exact .inl ⟨rfl, (hProcess (by simpa [System.setProcess] using hNew)).1⟩
      · exact .inr ⟨by simpa using hEq, spaceOf_process (by simpa [System.setProcess, hEq] using hNew)⟩
  refine ⟨hSpares.fits, h.kernel_fits.spared hSpares (hOthers (spaceOf_kernel s) (by simp)), ?_, ?_⟩
  · intro id' new hNew
    by_cases hEq : id' = id
    · subst hEq
      exact (hProcess (by simpa [System.setProcess] using hNew)).2
    · have hOld : s.processes id' = some new := by simpa [System.setProcess, hEq] using hNew
      exact (h.process_fits hOld).spared hSpares
        (hOthers (spaceOf_process hOld) (by simpa using hEq)) h.ledger_fits
  · intro owner owner' space space' hSpace hSpace' hRoot
    rcases hSpaceOf hSpace with ⟨rfl, hEq⟩ | ⟨hNe, hOld⟩ <;>
      rcases hSpaceOf hSpace' with ⟨rfl, hEq'⟩ | ⟨hNe', hOld'⟩
    · rfl
    · exact absurd (hRoot ▸ hEq) (hOthers hOld' hNe')
    · exact absurd (hRoot.symm ▸ hEq') (hOthers hOld hNe)
    · exact h.apart hOld hOld' hRoot

/-- A process that is there changes, and keeps its root. -/
theorem updateProcess (h : s.Fits ledger) {old : ProcessMemory} {process : Option ProcessMemory}
    (hOld : s.processes id = some old)
    (hSpares : Spares old.space.pageTables.rootTable s.machine ledger m ledger')
    (hProcess : ∀ {new}, process = some new →
      new.space.pageTables.rootTable = old.space.pageTables.rootTable ∧
        ProcessFits m ledger' new) :
    (s.setProcess m id process).Fits ledger' := by
  refine h.setProcess hSpares ?_ hProcess
  intro owner space hSpace hNe hRoot
  exact hNe (h.apart hSpace (spaceOf_process hOld) hRoot)

/-- The kernel changes, and keeps its root. -/
theorem setKernel (h : s.Fits ledger)
    (hSpares : Spares s.kernel.pageTables.rootTable s.machine ledger m ledger')
    (hSame : kernel.pageTables = s.kernel.pageTables) (hKernel : KernelFits m ledger' kernel) :
    (s.setKernel m kernel).Fits ledger' := by
  have hSpaceOf : ∀ {owner space}, (s.setKernel m kernel).spaceOf owner = some space →
      ∃ space', s.spaceOf owner = some space' ∧ space'.pageTables = space.pageTables := by
    rintro (_ | id) space hSpace
    · obtain rfl := Option.some.inj hSpace
      exact ⟨_, rfl, hSame.symm⟩
    · exact ⟨space, hSpace, rfl⟩
  refine ⟨hSpares.fits, hKernel, ?_, ?_⟩
  · intro id process hProcess
    refine (h.process_fits hProcess).spared hSpares (fun hRoot => ?_) h.ledger_fits
    exact Option.some_ne_none id (h.apart (spaceOf_process hProcess) (spaceOf_kernel s) hRoot)
  · intro owner owner' space space' hSpace hSpace' hRoot
    obtain ⟨old, hOld, hEq⟩ := hSpaceOf hSpace
    obtain ⟨old', hOld', hEq'⟩ := hSpaceOf hSpace'
    exact h.apart hOld hOld' (by rw [hEq, hEq', hRoot])

/-- A process stores a word in one of its pages. -/
theorem store (h : s.Fits ledger) (hUse : ledger.use frame = some use) (index : Nat)
    (word : PageTableEntry) :
    (s.setKernel (s.machine.write frame index word) s.kernel).Fits ledger := by
  have hSpares := h.ledger_fits.write_spares hUse index word
  -- No root is affected, so any other one may stand for the one that is.
  exact h.setKernel (hSpares _) rfl
    (h.kernel_fits.spared (hSpares (s.kernel.pageTables.rootTable + 1)) (Nat.ne_of_lt (by omega)))

/-- `create_process`. The new root comes from the free frames. -/
theorem createProcess (hBits : virtualBits ≤ 64) (h : s.Fits ledger) {paging : Paging}
    (hClone : cloneAddressSpace s.machine s.kernel = .ok (paging, m))
    (hNew : VirtualAddressSpace.new paging virtualBits = .ok space) :
    ∃ ledger', (s.setProcess m id (some ⟨space, .running⟩)).Fits ledger' := by
  obtain ⟨hDepth, ledger', hCloned⟩ :=
    (clone_spec h.ledger_fits h.kernel_fits.depth_eq h.kernel_fits.root_own).of_ok hClone
  have hProcess := ProcessFits.cloned hBits h.kernel_fits hDepth hCloned hNew
  obtain ⟨-, rfl, -⟩ := VirtualAddressSpace.new_placed hBits hNew
  refine ⟨ledger', h.setProcess hCloned.toSpares ?_ ?_⟩
  · rintro owner other hOther - hRoot
    exact h.ledger_fits.tables.not_free (h.root_own hOther) (hRoot ▸ hCloned.root_free)
  · rintro new ⟨⟩
    exact ⟨rfl, hProcess⟩

theorem step (hBits : virtualBits ≤ 64) (h : s.Fits ledger)
    (hStep : Step profile virtualBits s s') : ∃ ledger', s'.Fits ledger' := by
  cases hStep with
  | createProcess hClone hNew =>
    obtain ⟨ledger', h'⟩ := h.createProcess hBits hClone hNew
    exact ⟨ledger', h'.ledger_fits, h'.kernel_fits, h'.process_fits, h'.apart⟩
  | call hProcess hRun =>
    have hFits := h.process_fits hProcess
    obtain ⟨ledger', hSpares, hSame, hFits'⟩ :=
      hFits.parts h.ledger_fits (SpaceCall.run_parts hFits.placed hRun)
    refine ⟨ledger', h.updateProcess hProcess hSpares ?_⟩
    rintro new ⟨⟩
    exact ⟨congrArg Paging.rootTable hSame, hFits'⟩
  | store word hProcess hWrites hIndex =>
    obtain ⟨use, hUse⟩ := (h.process_fits hProcess).use_of_writes hWrites
    exact ⟨ledger, h.store hUse _ word⟩
  | beginDrop hProcess =>
    have hFits := h.process_fits hProcess
    refine ⟨ledger, h.updateProcess hProcess (.refl _ h.ledger_fits) ?_⟩
    rintro new ⟨⟩
    exact ⟨rfl, hFits.toSpaceFits, hFits.depth_eq, hFits.placed, hFits.known, hFits.distinct⟩
  | unmapArea hProcess hUnmap =>
    obtain ⟨ledger', hReleased, hFits⟩ :=
      ((h.process_fits hProcess).unmapArea profile h.ledger_fits).of_ok hUnmap
    refine ⟨ledger', h.updateProcess hProcess hReleased.toSpares ?_⟩
    rintro new ⟨⟩
    exact ⟨rfl, hFits⟩
  | dropTables hProcess hDrop =>
    have hFits := h.process_fits hProcess
    obtain ⟨ledger', hEnded⟩ :=
      (drop_spec h.ledger_fits hFits.depth_eq hFits.root_own).of_ok hDrop
    exact ⟨ledger', h.updateProcess hProcess hEnded.toSpares (by simp)⟩
  | newKernelThread hStack =>
    obtain ⟨ledger', hSpares, hSame, hKernel⟩ := h.kernel_fits.newStack h.ledger_fits hStack
    exact ⟨ledger', h.setKernel hSpares hSame hKernel⟩
  | mapDevice hBelow hMap =>
    obtain ⟨ledger', hSpares, hSame, hKernel⟩ :=
      h.kernel_fits.newDevice h.ledger_fits hBelow hMap
    exact ⟨ledger', h.setKernel hSpares hSame hKernel⟩

theorem boots (hBits : virtualBits ≤ 64) (hBoots : Boots profile virtualBits s) :
    ∃ ledger, s.Fits ledger := by
  obtain ⟨hMemory, hCreate⟩ := hBoots
  obtain ⟨ledger, hFits, hKernel⟩ := KernelFits.created hBits hMemory hCreate
  refine ⟨ledger, hFits, hKernel, by simp, ?_⟩
  rintro (_ | id) (_ | id') space space' hSpace hSpace' -
  · rfl
  all_goals simp_all [spaceOf]

theorem reachable (hBits : virtualBits ≤ 64) (hReach : s.Reachable profile virtualBits) :
    ∃ ledger, s.Fits ledger := by
  obtain ⟨s₀, hBoots, hRuns⟩ := hReach
  induction hRuns with
  | refl => exact boots hBits hBoots
  | tail _ hStep ih =>
    obtain ⟨ledger, h⟩ := ih
    exact h.step hBits hStep

/-- No page table lies in a frame that has a use. -/
theorem not_mem_tables (h : s.Fits ledger) (hUse : ledger.use frame = some use)
    (hSpace : s.spaceOf owner = some space) : frame ∉ space.pageTables.tables s.machine := by
  have hDepth : space.pageTables.depth = 4 := by
    cases owner with
    | none =>
      obtain rfl := Option.some.inj hSpace
      exact h.kernel_fits.depth_eq
    | some id =>
      obtain ⟨process, hProcess, rfl⟩ := Option.map_eq_some_iff.mp hSpace
      exact (h.process_fits hProcess).depth_eq
  unfold Paging.tables
  rw [hDepth, mem_tablesBelow h.ledger_fits.tables 3 (h.root_own hSpace)]
  rintro ⟨node, hOwn, -⟩
  simp [(h.ledger_fits.taken hUse).2.1] at hOwn

/-- The frames of kernel stacks belong to kernel areas. -/
theorem use_of_stackFrame (h : s.Fits ledger) (hMem : frame ∈ s.stackFrames) :
    ∃ root start, ledger.use frame = some (.area root start) := by
  obtain ⟨area, hLive, hKernel, hTyp, hIn⟩ := hMem
  rcases hLive with ⟨entry, hEntry, rfl⟩ | ⟨id, process, hProcess, hArea⟩
  · exact ⟨_, h.kernel_fits.stack entry hEntry hTyp frame hIn⟩
  · exact ⟨_, _, ((h.process_fits hProcess).stack area hArea hKernel frame hIn).1⟩

end Fits

/-- The page of the address space leads to the frame, by a user-accessible
leaf entry. -/
def UserFrame (s : System) (owner : Option Nat) (page frame : Nat) : Prop :=
  ∃ space, s.spaceOf owner = some space ∧ page < 512 ^ 4 ∧
    (entryAt s.machine space.pageTables.rootTable page).IsUser ∧
    (entryAt s.machine space.pageTables.rootTable page).frame = frame

theorem Fits.use_of_userFrame {s : System} (h : s.Fits ledger) {page : Nat}
    (hUser : s.UserFrame owner page frame) :
    ∃ space, s.spaceOf owner = some space ∧
      ledger.use frame = some (.page space.pageTables.rootTable page) := by
  obtain ⟨space, hSpace, hPage, hIsUser, rfl⟩ := hUser
  refine ⟨space, hSpace, ?_⟩
  cases owner with
  | none =>
    obtain rfl := Option.some.inj hSpace
    exact absurd hIsUser (h.kernel_fits.view page hPage (ne_unused_of_isUser hIsUser)).1
  | some id =>
    obtain ⟨process, hProcess, rfl⟩ := Option.map_eq_some_iff.mp hSpace
    exact (h.process_fits hProcess).use_of_isUser hPage hIsUser

/-- In every state the system can reach, a frame that user code can access at
some page of some address space is accessible nowhere else, and it is neither
free nor a page table nor part of a kernel stack. -/
theorem user_frames_isolated {profile : BuildProfile} {virtualBits : Nat}
    (hBits : virtualBits ≤ 64) {s : System} (hReach : s.Reachable profile virtualBits)
    {owner : Option Nat} {page frame : Nat} (hUser : s.UserFrame owner page frame) :
    (∀ owner' page', s.UserFrame owner' page' frame → owner' = owner ∧ page' = page) ∧
      frame ∉ s.machine.freeSet ∧
      (∀ owner' space, s.spaceOf owner' = some space →
        frame ∉ space.pageTables.tables s.machine) ∧
      frame ∉ s.stackFrames := by
  obtain ⟨ledger, h⟩ := Fits.reachable hBits hReach
  obtain ⟨space, hSpace, hUse⟩ := h.use_of_userFrame hUser
  refine ⟨?_, (h.ledger_fits.taken hUse).1, fun _ _ hOther => h.not_mem_tables hUse hOther, ?_⟩
  · intro owner' page' hUser'
    obtain ⟨space', hSpace', hUse'⟩ := h.use_of_userFrame hUser'
    rw [hUse] at hUse'
    obtain ⟨hRoot, hPage⟩ : space.pageTables.rootTable = space'.pageTables.rootTable ∧
        page = page' := by simpa using hUse'
    exact ⟨h.apart hSpace' hSpace hRoot.symm, hPage.symm⟩
  · intro hStack
    obtain ⟨root, start, hUse'⟩ := h.use_of_stackFrame hStack
    simp [hUse] at hUse'

/-- Two processes, each with one page of heap. -/
def twoProcesses : Except Panic (VirtualAddressSpace × VirtualAddressSpace × VirtualAddressSpace ×
    Machine) := do
  let (kernel, m) ← createKernelProcess .development 48 smallMachine ⟨0, 1⟩ ⟨1, 2⟩
  let (paging, m) ← cloneAddressSpace m kernel
  let first ← VirtualAddressSpace.new paging 48
  let (paging, m) ← cloneAddressSpace m kernel
  let second ← VirtualAddressSpace.new paging 48
  let (first, m) ← SpaceCall.run .development (.userAllocMapFull none 1 .heap []) first m
  let (second, m) ← SpaceCall.run .development (.userAllocMapFull none 1 .heap []) second m
  return (kernel, first, second, m)

theorem twoProcesses_frames : (twoProcesses.map fun r =>
    (entryAt r.2.2.2 r.2.1.pageTables.rootTable 0x10000000,
      entryAt r.2.2.2 r.2.2.1.pageTables.rootTable 0x10000000)).toOption =
    some (⟨16, USER_PAGE_FLAGS⟩, ⟨20, USER_PAGE_FLAGS⟩) := by
  decide +kernel

theorem Reachable.booted {profile : BuildProfile} {virtualBits : Nat} {m' : Machine}
    {kernelImage heap : Frames.PhysFrameRange} (hMemory : BootMemory m)
    (hCreate : createKernelProcess profile virtualBits m kernelImage heap = .ok (kernel, m')) :
    Reachable profile virtualBits ⟨m', kernel, fun _ => none, 2⟩ :=
  ⟨_, .kernel hMemory hCreate, .refl⟩

theorem Reachable.step {profile : BuildProfile} {virtualBits : Nat} {s s' : System}
    (hReach : s.Reachable profile virtualBits) (hStep : Step profile virtualBits s s') :
    s'.Reachable profile virtualBits :=
  ⟨_, hReach.choose_spec.1, hReach.choose_spec.2.tail hStep⟩

theorem smallMachine_boots : BootMemory smallMachine where
  sound := smallMachine_sound
  below := by
    intro frame hFrame
    simp only [smallMachine, Machine.freeSet, Frames.freeFrames, Spans.covered,
      Frames.PageFrameNode.stop, Set.mem_ofPred_eq, List.mem_singleton, exists_eq_left] at hFrame
    exact Nat.lt_of_lt_of_le hFrame.2 (by decide)
  limit := by
    rintro limit ⟨⟩
    decide

/-- The two pages have the same number, but different frames. -/
theorem heap_frames_isolated : ∃ s : System, s.Reachable .development 48 ∧
    s.UserFrame (some 2) 0x10000000 16 ∧ s.UserFrame (some 3) 0x10000000 20 ∧
    16 ∉ s.machine.freeSet ∧ 16 ∉ s.stackFrames := by
  obtain ⟨r, hRun, hFrames⟩ := exists_ok_of_toOption twoProcesses_frames
  obtain ⟨⟨kernel, m₀⟩, hCreate, hRest⟩ := bind_ok hRun
  obtain ⟨⟨paging₁, m₁⟩, hClone₁, hRest⟩ := bind_ok hRest
  obtain ⟨first, hNew₁, hRest⟩ := bind_ok hRest
  obtain ⟨⟨paging₂, m₂⟩, hClone₂, hRest⟩ := bind_ok hRest
  obtain ⟨second, hNew₂, hRest⟩ := bind_ok hRest
  obtain ⟨⟨first', m₃⟩, hCall₁, hRest⟩ := bind_ok hRest
  obtain ⟨⟨second', m₄⟩, hCall₂, hRest⟩ := bind_ok hRest
  obtain rfl : (kernel, first', second', m₄) = r := by simpa using hRest
  obtain ⟨hFirst, hSecond⟩ := Prod.mk.inj hFrames
  obtain ⟨s₁, hReach₁, hKernel₁, hMachine₁, hNext₁, hFirst₁⟩ : ∃ s : System,
      s.Reachable .development 48 ∧ s.kernel = kernel ∧ s.machine = m₁ ∧
        s.nextProcessId = 3 ∧ s.processes 2 = some ⟨first, .running⟩ :=
    ⟨_, (Reachable.booted smallMachine_boots hCreate).step (.createProcess hClone₁ hNew₁),
      rfl, rfl, rfl, rfl⟩
  subst hKernel₁ hMachine₁
  obtain ⟨s₂, hReach₂, hMachine₂, hFirst₂, hSecond₂⟩ : ∃ s : System,
      s.Reachable .development 48 ∧ s.machine = m₂ ∧
        s.processes 2 = some ⟨first, .running⟩ ∧ s.processes 3 = some ⟨second, .running⟩ :=
    ⟨_, hReach₁.step (.createProcess hClone₂ hNew₂), rfl, by simp [setProcess, hNext₁, hFirst₁],
      by simp [setProcess, hNext₁]⟩
  subst hMachine₂
  have hReach : Reachable .development 48
      ((s₂.setProcess m₃ 2 (some ⟨first', .running⟩)).setProcess m₄ 3
        (some ⟨second', .running⟩)) :=
    (hReach₂.step (.call hFirst₂ hCall₁)).step (.call hSecond₂ hCall₂)
  have hUser : UserFrame ((s₂.setProcess m₃ 2 (some ⟨first', .running⟩)).setProcess m₄ 3
      (some ⟨second', .running⟩)) (some 2) 0x10000000 16 :=
    ⟨first', rfl, by decide, hFirst.symm ▸ isUser_userPage 16,
      congrArg PageTableEntry.frame hFirst⟩
  obtain ⟨-, hFree, -, hStack⟩ := user_frames_isolated (by decide) hReach hUser
  exact ⟨_, hReach, hUser, ⟨second', rfl, by decide, hSecond.symm ▸ isUser_userPage 20,
    congrArg PageTableEntry.frame hSecond⟩, hFree, hStack⟩

/-- The address space is the same in both states, and all its pages lead where
they led. -/
def Retains (s s' : System) (owner : Option Nat) : Prop :=
  ∀ space, s.spaceOf owner = some space → s'.spaceOf owner = some space ∧
    ∀ page < 512 ^ 4, entryAt s'.machine space.pageTables.rootTable page =
      entryAt s.machine space.pageTables.rootTable page

section Retains

variable {profile : BuildProfile} {virtualBits id : Nat} {s s' : System} {ledger ledger' : Ledger}
  {process : Option ProcessMemory}

theorem spaceOf_eq (hNe : owner ≠ some id) (hKernel : s'.kernel = s.kernel)
    (hProcesses : ∀ {other}, other ≠ id → s'.processes other = s.processes other) :
    s'.spaceOf owner = s.spaceOf owner := by
  cases owner with
  | none => exact congrArg some hKernel
  | some other =>
    exact congrArg (Option.map ProcessMemory.space) (hProcesses (by simpa using hNe))

theorem Fits.retains {root : Nat} (h : s.Fits ledger)
    (hSpares : Spares root s.machine ledger s'.machine ledger')
    (hSame : s'.spaceOf owner = s.spaceOf owner)
    (hOther : ∀ {space}, s.spaceOf owner = some space → space.pageTables.rootTable ≠ root) :
    s.Retains s' owner := by
  intro space hSpace
  exact ⟨hSame.trans hSpace, hSpares.entries (hOther hSpace) (h.root_own hSpace)⟩

theorem Fits.retains_update {old : ProcessMemory} (h : s.Fits ledger)
    (hOld : s.processes id = some old)
    (hSpares : Spares old.space.pageTables.rootTable s.machine ledger m ledger')
    (hNe : owner ≠ some id) : s.Retains (s.setProcess m id process) owner := by
  refine h.retains hSpares (spaceOf_eq hNe rfl (if_neg ·)) ?_
  intro space hSpace hRoot
  exact hNe (h.apart hSpace (Fits.spaceOf_process hOld) hRoot)

theorem Fits.retains_kernel (h : s.Fits ledger)
    (hSpares : Spares s.kernel.pageTables.rootTable s.machine ledger m ledger')
    (hNe : owner ≠ none) : s.Retains (s.setKernel m kernel) owner := by
  obtain ⟨id, rfl⟩ := Option.ne_none_iff_exists'.mp hNe
  refine h.retains hSpares rfl ?_
  intro space hSpace hRoot
  exact hNe (h.apart hSpace (Fits.spaceOf_kernel s) hRoot)

/-- A step of the system, be it a system call, a store, the creation or a stage of
the removal of a process or new memory of the kernel, changes at most one address
space: all others keep their areas, and every page of them leads where it led. -/
theorem step_retains_others (hBits : virtualBits ≤ 64) (hReach : s.Reachable profile virtualBits)
    (hStep : Step profile virtualBits s s') : ∃ actor, ∀ owner ≠ actor, s.Retains s' owner := by
  obtain ⟨ledger, h⟩ := Fits.reachable hBits hReach
  cases hStep with
  | createProcess hClone hNew =>
    obtain ⟨-, ledger', hCloned⟩ :=
      (clone_spec h.ledger_fits h.kernel_fits.depth_eq h.kernel_fits.root_own).of_ok hClone
    refine ⟨some s.nextProcessId, fun owner hNe =>
      h.retains hCloned.toSpares (spaceOf_eq hNe rfl (if_neg ·)) ?_⟩
    intro other hOther hRoot
    exact h.ledger_fits.tables.not_free (h.root_own hOther) (hRoot ▸ hCloned.root_free)
  | call hProcess hRun =>
    have hFits := h.process_fits hProcess
    obtain ⟨ledger', hSpares, -⟩ :=
      hFits.parts h.ledger_fits (SpaceCall.run_parts hFits.placed hRun)
    exact ⟨some _, fun owner => h.retains_update hProcess hSpares⟩
  | store word hProcess hWrites hIndex =>
    obtain ⟨use, hUse⟩ := (h.process_fits hProcess).use_of_writes hWrites
    refine ⟨none, fun owner _ space hSpace => ⟨?_, ?_⟩⟩
    · cases owner <;> exact hSpace
    · exact (h.ledger_fits.write_spares hUse _ word (space.pageTables.rootTable + 1)).entries
        (Nat.ne_of_lt (by omega)) (h.root_own hSpace)
  | beginDrop hProcess =>
    exact ⟨some _, fun owner => h.retains_update hProcess (.refl _ h.ledger_fits)⟩
  | unmapArea hProcess hUnmap =>
    obtain ⟨ledger', hReleased, -⟩ :=
      ((h.process_fits hProcess).unmapArea profile h.ledger_fits).of_ok hUnmap
    exact ⟨some _, fun owner => h.retains_update hProcess hReleased.toSpares⟩
  | dropTables hProcess hDrop =>
    have hFits := h.process_fits hProcess
    obtain ⟨ledger', hEnded⟩ :=
      (drop_spec h.ledger_fits hFits.depth_eq hFits.root_own).of_ok hDrop
    exact ⟨some _, fun owner => h.retains_update hProcess hEnded.toSpares⟩
  | newKernelThread hStack =>
    obtain ⟨ledger', hSpares, -⟩ := h.kernel_fits.newStack h.ledger_fits hStack
    exact ⟨none, fun owner => h.retains_kernel hSpares⟩
  | mapDevice hBelow hMap =>
    obtain ⟨ledger', hSpares, -⟩ := h.kernel_fits.newDevice h.ledger_fits hBelow hMap
    exact ⟨none, fun owner => h.retains_kernel hSpares⟩

theorem createProcess_retains : ∃ s s' : System, s.Reachable .development 48 ∧
    Step .development 48 s s' ∧ ∃ actor, ∀ owner ≠ actor, s.Retains s' owner := by
  obtain ⟨r, hRun, -⟩ := exists_ok_of_toOption twoProcesses_frames
  obtain ⟨⟨kernel, m₀⟩, hCreate, hRest⟩ := bind_ok hRun
  obtain ⟨⟨paging, m₁⟩, hClone, hRest⟩ := bind_ok hRest
  obtain ⟨first, hNew, -⟩ := bind_ok hRest
  have hReach := Reachable.booted smallMachine_boots hCreate
  exact ⟨_, _, hReach, .createProcess hClone hNew,
    step_retains_others (by decide) hReach (.createProcess hClone hNew)⟩

end Retains

end System

end D3OS.Memory
