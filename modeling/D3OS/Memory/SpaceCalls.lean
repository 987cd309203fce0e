import D3OS.Memory.Ledger

/-! The calls on an address space in terms of areas, entries and the ledger.
All of them are made of three parts: an area is stored, frames are provided
for user pages, or a block of frames becomes a kernel area. -/
namespace D3OS.Memory

open PageTableEntry (unused)
open PageTableFlags (PRESENT WRITABLE USER_ACCESSIBLE)
open Outcome
open VirtualAddressSpace
open Paging

variable {addr page numPages allocNumPages : Nat} {vma : VirtualMemoryArea} {profile : BuildProfile}
  {space space' : VirtualAddressSpace} {m m' : Machine} {frames : Frames.PhysFrameRange}
  {pages : PageRange} {flags : PageTableFlags} {own : Nat → Option Node} {typ : VmaType}
  {tag : List UInt8} {startPage : Option Nat} {kind : MemorySpace}
  {result : Option VirtualMemoryArea} {allocDownwards : Bool}

theorem pageFromU64_ok (h : pageFromU64 addr = .ok page) :
    Page.startAddress page = addr ∧ Page.Valid page := by
  obtain ⟨addr', hNew, h⟩ := bind_ok h
  unfold VirtAddr.new at hNew
  obtain ⟨hCanonical, hNew⟩ := ite_ok hNew
  obtain rfl := Except.ok.inj hNew
  obtain ⟨hAligned, h⟩ := ite_ok h
  obtain rfl := pure_ok h
  have hStart := Page.startAddress_containing hAligned
  exact ⟨hStart, by unfold Page.Valid; rwa [hStart]⟩

theorem pageFromU64_of_valid (h : Page.Valid page) : pageFromU64 (PAGE_SIZE * page) = .ok page := by
  have hAddr : VirtAddr.new (PAGE_SIZE * page) = .ok (PAGE_SIZE * page) := if_pos h
  rw [pageFromU64, hAddr, bind_of_ok, if_pos (Nat.mul_mod_right _ _),
    Page.containingAddress, Nat.mul_div_cancel_left _ (by decide)]
  rfl

/-- The flags of kernel pages. -/
theorem kernel_flags (hKernel : vma.space = .kernel) (flags : PageTableFlags) :
    (vma.checkAndEnforceConsistency flags ||| PRESENT) &&& USER_ACCESSIBLE = 0 ∧
      vma.checkAndEnforceConsistency flags ||| PRESENT ≠ 0 := by
  simp only [VirtualMemoryArea.checkAndEnforceConsistency, hKernel]
  constructor
  · rw [BitVec.and_or_distrib_right, BitVec.and_assoc]
    have hMask : ~~~USER_ACCESSIBLE &&& USER_ACCESSIBLE = 0 := by decide
    have hPresent : PRESENT &&& USER_ACCESSIBLE = 0 := by decide
    rw [hMask, hPresent]
    simp
  · intro hZero
    have hPresent := (BitVec.or_eq_zero_iff.mp hZero).2
    exact absurd hPresent (by decide)

theorem mapPfrForPartialVma_ok
    (h : space.mapPfrForPartialVma profile m vma frames pages flags = .ok (.ok m')) :
    Supplies frames pages.start pages.stop ∧ pages.start ≤ pages.stop ∧
      frames.stop - frames.start = pages.stop - pages.start ∧
      ∃ count, Paging.mapInTable profile space.pageTables.depth m space.pageTables.rootTable frames
        pages vma.space (vma.checkAndEnforceConsistency flags ||| PRESENT) = .ok (m', count) := by
  obtain ⟨numFrames, hFrames, h⟩ := bind_ok h
  obtain ⟨numPages, hPages, h⟩ := bind_ok h
  have hLen : frames.start ≤ frames.stop ∧ frames.stop - frames.start = numFrames := by
    unfold Frames.PhysFrameRange.len at hFrames
    split at hFrames
    · cases hFrames
    · exact ⟨by omega, Except.ok.inj hFrames⟩
  have hCount : pages.start ≤ pages.stop ∧ pages.stop - pages.start = numPages := by
    unfold PageRange.count at hPages
    split at hPages
    · cases hPages
    · exact ⟨by omega, Except.ok.inj hPages⟩
  split at h
  case isTrue => simp at h
  case isFalse hSame =>
    dsimp only at h
    split at h
    case isTrue => simp at h
    case isFalse =>
      obtain ⟨m₁, hMap, h⟩ := bind_ok h
      obtain rfl : m₁ = m' := by simpa using h
      unfold Paging.mapPhysical at hMap
      rw [hFrames, hPages, bind_of_ok, bind_of_ok, if_pos (by omega)] at hMap
      obtain ⟨⟨m₂, count⟩, hWalk, hEq⟩ := bind_ok hMap
      obtain rfl : m₂ = m₁ := by simpa using hEq
      refine ⟨?_, hCount.1, by omega, count, hWalk⟩
      unfold Supplies
      omega

theorem mapPfrForVma_ok (h : space.mapPfrForVma profile m vma frames flags = .ok (.ok m')) :
    Supplies frames vma.range.start vma.range.stop ∧ vma.range.start ≤ vma.range.stop ∧
      frames.stop - frames.start = vma.range.stop - vma.range.start ∧
      ∃ count, Paging.mapInTable profile space.pageTables.depth m space.pageTables.rootTable frames
        vma.range vma.space (vma.checkAndEnforceConsistency flags ||| PRESENT) = .ok (m', count) :=
  mapPfrForPartialVma_ok h

/-- Frames put behind a kernel area, whether they were allocated for it or
not. -/
theorem mapPfrForVma_kernel (hTables : Tables m own) (hDepth : space.pageTables.depth = 4)
    (hRoot : own space.pageTables.rootTable = some ⟨space.pageTables.rootTable, 4, 0⟩)
    (hKernel : vma.space = .kernel) (hStop : vma.range.stop < 2 ^ 35)
    (h : space.mapPfrForVma profile m vma frames flags = .ok (.ok m')) :
    frames.stop - frames.start = vma.range.stop - vma.range.start ∧
      ∃ flags' own', flags' &&& USER_ACCESSIBLE = 0 ∧ flags' ≠ 0 ∧
        Grows space.pageTables.rootTable m own m' own' ∧
        IdentityMapped space.pageTables.rootTable m vma.range.start
          (vma.range.stop - vma.range.start) flags' m' ∧
        ∀ {frame}, frame ∈ m.freeSet → frame ∉ m'.freeSet → own' frame ≠ none := by
  obtain ⟨hSupplies, hForward, hLength, count, hMap⟩ := mapPfrForVma_ok h
  obtain ⟨hUser, hUsed⟩ := kernel_flags hKernel flags
  rw [hDepth, hKernel] at hMap
  have hValid : Page.Valid vma.range.start := valid_of_lt (by omega)
  obtain ⟨-, own', hGrows, hIdentity, hSpent⟩ :=
    (map_kernel_spec profile _ hTables hRoot hValid hSupplies (by omega)).of_ok hMap
  exact ⟨hLength, _, own', hUser, hUsed, hGrows, hIdentity, hSpent⟩

/-- `kernel_alloc_map_identity`. -/
theorem kernelAllocMapIdentity_ok {ledger : Ledger} {numPf : Nat} (h : ledger.Fits m)
    (hPlaced : space.Placed) (hDepth : space.pageTables.depth = 4)
    (hRoot : ledger.own space.pageTables.rootTable = some ⟨space.pageTables.rootTable, 4, 0⟩)
    (hRun : space.kernelAllocMapIdentity profile m numPf flags typ tag = .ok (pages, space', m')) :
    ∃ vma ledger', Stored space .kernel typ vma space' ∧
      vma.range.stop = vma.range.start + numPf ∧
      AreaAllocated space.pageTables.rootTable m ledger vma.range.start numPf m' ledger' := by
  obtain ⟨⟨frames, m₁⟩, hAlloc, hRun⟩ := bind_ok hRun
  obtain ⟨startPage, hPage, hRun⟩ := bind_ok hRun
  obtain ⟨⟨result, later⟩, hVma, hRun⟩ := bind_ok hRun
  obtain ⟨vma, hSome, hRun⟩ := bind_ok hRun
  obtain ⟨mapped, hMapped, hRun⟩ := bind_ok hRun
  obtain ⟨m₂, hOk, hRun⟩ := bind_ok hRun
  obtain ⟨endPage, -, hRun⟩ := bind_ok hRun
  obtain ⟨-, rfl, rfl⟩ : _ ∧ later = space' ∧ m₂ = m' := by simpa using hRun
  obtain rfl := expectSome_ok hSome
  obtain rfl := expectOk_ok hOk
  obtain ⟨hStop, hAllocated⟩ := Machine.alloc_allocated h.tables.sound hAlloc
  obtain ⟨hStored, hStart⟩ := hPlaced.allocVma hVma
  have hFirst : vma.range.start = frames.start := by
    rw [hStart startPage rfl]
    have hAddr := (pageFromU64_ok hPage).1
    simp only [Page.startAddress, PAGE_SIZE] at hAddr
    omega
  have hVma' : (vma.start, vma) ∈ later.virtualMemoryAreas.entries := hStored.mem.mpr (.inl rfl)
  have hForward := hStored.placed.forward hVma'
  have hTables := (Grows.of_allocated h.tables space.pageTables.rootTable hAllocated).tables
  rw [← hStored.pageTables_eq] at hDepth hRoot ⊢
  obtain ⟨hLength, flags', own', hUser, hUsed, hGrows, hIdentity, hSpent⟩ :=
    mapPfrForVma_kernel hTables hDepth hRoot hStored.space_eq (hStored.placed.bound hVma') hMapped
  have hCount : vma.range.stop - vma.range.start = numPf := by omega
  rw [hCount] at hIdentity
  have hTaken : Machine.Allocated m (Set.Ico vma.range.start (vma.range.start + numPf)) m₁ := by
    rwa [hFirst, ← hStop]
  simp only at hForward
  obtain ⟨ledger', hArea⟩ :=
    hGrows.areaAllocated h hRoot hTaken hIdentity hSpent hUser hUsed
  exact ⟨vma, ledger', hStored, by omega, hArea⟩

/-- An area found by `alloc_vma` is stored. Without one nothing changes. -/
theorem allocVma_ok (hPlaced : space.Placed)
    (hRun : space.allocVma profile startPage numPages kind typ tag = .ok (result, space')) :
    match result with
    | none => space' = space
    | some vma => Stored space kind typ vma space' := by
  cases result with
  | some vma => exact (hPlaced.allocVma hRun).1
  | none =>
    rcases allocVma_cases hRun with ⟨-, rfl⟩ | ⟨firstPage, -, hAt⟩
    · rfl
    · rcases allocAt_cases hAt with ⟨-, rfl⟩ | ⟨endPage, -, -, -, -, hSome⟩
      · rfl
      · cases hSome

/-- What the calls on an address space are made of. -/
inductive Part (profile : BuildProfile) :
    VirtualAddressSpace × Machine → VirtualAddressSpace × Machine → Prop where
  /-- A user area is stored. -/
  | stored {space space' : VirtualAddressSpace} {m : Machine} {typ : VmaType}
      {vma : VirtualMemoryArea} (hStored : Stored space .user typ vma space') :
      Part profile (space, m) (space', m)
  /-- Frames are provided for pages of user space. -/
  | provided {space : VirtualAddressSpace} {m m' : Machine} {pages : PageRange}
      (hValid : Page.Valid pages.start)
      (hMap : space.pageTables.map profile m pages .user USER_PAGE_FLAGS = .ok m') :
      Part profile (space, m) (space, m')
  /-- A block of frames becomes a kernel area. -/
  | area {space space' : VirtualAddressSpace} {m m' : Machine} {numPf : Nat}
      {flags : PageTableFlags} {typ : VmaType} {tag : List UInt8} {pages : PageRange}
      (hRun : space.kernelAllocMapIdentity profile m numPf flags typ tag = .ok (pages, space', m')) :
      Part profile (space, m) (space', m')

def Parts (profile : BuildProfile) :
    VirtualAddressSpace × Machine → VirtualAddressSpace × Machine → Prop :=
  Relation.ReflTransGen (Part profile)

theorem VirtualAddressSpace.Stored.valid_start (h : Stored space kind typ vma space') :
    Page.Valid vma.range.start := by
  have hMem : (vma.start, vma) ∈ space'.virtualMemoryAreas.entries := h.mem.mpr (.inl rfl)
  have hForward := h.placed.forward hMem
  have hBound := h.placed.bound hMem
  simp only at hForward hBound
  exact valid_of_lt (by omega)

/-- `user_alloc_map_full` finds no place, or maps all pages of a new area. -/
theorem userAllocMapFull_ok (hPlaced : space.Placed)
    (hRun : space.userAllocMapFull profile m startPage numPages typ tag = .ok (result, space', m')) :
    (space' = space ∧ m' = m) ∨ ∃ vma, Stored space .user typ vma space' ∧
      space'.pageTables.map profile m vma.range .user USER_PAGE_FLAGS = .ok m' := by
  obtain ⟨⟨found, later⟩, hVma, hRun⟩ := bind_ok hRun
  have hFound := allocVma_ok hPlaced hVma
  cases found with
  | none =>
    obtain ⟨-, rfl, rfl⟩ : none = result ∧ later = space' ∧ m = m' := by
      simpa using pure_ok hRun
    exact .inl ⟨hFound, rfl⟩
  | some vma =>
    obtain ⟨m₁, hMap, hEq⟩ := bind_ok hRun
    obtain ⟨-, rfl, rfl⟩ : _ ∧ later = space' ∧ m₁ = m' := by simpa using hEq
    exact .inr ⟨vma, hFound, hMap⟩

/-- `user_alloc_map_partial` finds no place, or maps some pages for a new
area. -/
theorem userAllocMapPartial_ok (hPlaced : space.Placed)
    (hRun : space.userAllocMapPartial profile m startPage numPages typ tag allocNumPages
      allocDownwards = .ok (result, space', m')) :
    (space' = space ∧ m' = m) ∨ ∃ vma pages, Stored space .user typ vma space' ∧
      Page.add profile vma.range.start numPages = .ok vma.range.stop ∧
      allocPageRange profile vma allocNumPages allocDownwards = .ok pages ∧
      space'.pageTables.map profile m pages .user USER_PAGE_FLAGS = .ok m' := by
  obtain ⟨⟨found, later⟩, hVma, hRun⟩ := bind_ok hRun
  have hFound := allocVma_ok hPlaced hVma
  cases found with
  | none =>
    obtain ⟨-, rfl, rfl⟩ : none = result ∧ later = space' ∧ m = m' := by
      simpa using pure_ok hRun
    exact .inl ⟨hFound, rfl⟩
  | some vma =>
    obtain ⟨pages, hPages, hRun⟩ := bind_ok hRun
    obtain ⟨m₁, hMap, hEq⟩ := bind_ok hRun
    obtain ⟨-, rfl, rfl⟩ : _ ∧ later = space' ∧ m₁ = m' := by simpa using hEq
    exact .inr ⟨vma, pages, hFound, allocVma_range hVma, hPages, hMap⟩

theorem allocPageRange_valid (hStart : Page.Valid vma.range.start)
    (hPages : allocPageRange profile vma allocNumPages allocDownwards = .ok pages) :
    Page.Valid pages.start := by
  unfold allocPageRange at hPages
  split at hPages
  · obtain ⟨first, hFirst, hEq⟩ := bind_ok hPages
    obtain rfl := pure_ok hEq
    exact (Page.startAddress_of_sub hFirst).1
  · obtain ⟨last, -, hEq⟩ := bind_ok hPages
    obtain rfl := pure_ok hEq
    exact hStart

theorem userAllocMapPartial_parts (hPlaced : space.Placed)
    (hRun : space.userAllocMapPartial profile m startPage numPages typ tag allocNumPages
      allocDownwards = .ok (result, space', m')) : Parts profile (space, m) (space', m') := by
  rcases userAllocMapPartial_ok hPlaced hRun with ⟨rfl, rfl⟩ | ⟨vma, pages, hStored, -, hPages, hMap⟩
  · exact .refl
  · exact .tail (.single (.stored hStored))
      (.provided (allocPageRange_valid hStored.valid_start hPages) hMap)

theorem kernelAllocMapIdentity_stored {numPf : Nat} (hPlaced : space.Placed)
    (hRun : space.kernelAllocMapIdentity profile m numPf flags typ tag = .ok (pages, space', m')) :
    ∃ vma, Stored space .kernel typ vma space' := by
  obtain ⟨⟨frames, m₁⟩, hAlloc, hRun⟩ := bind_ok hRun
  obtain ⟨startPage, hPage, hRun⟩ := bind_ok hRun
  obtain ⟨⟨result, later⟩, hVma, hRun⟩ := bind_ok hRun
  obtain ⟨vma, hSome, hRun⟩ := bind_ok hRun
  obtain ⟨mapped, -, hRun⟩ := bind_ok hRun
  obtain ⟨m₂, -, hRun⟩ := bind_ok hRun
  obtain ⟨endPage, -, hRun⟩ := bind_ok hRun
  obtain ⟨-, rfl, -⟩ : _ ∧ later = space' ∧ m₂ = m' := by simpa using hRun
  obtain rfl := expectSome_ok hSome
  exact ⟨vma, (hPlaced.allocVma hVma).1⟩

/-- `new_user_thread` allocates a kernel stack and a user stack. -/
theorem newUserThread_ok (hRun : space.newUserThread profile m = .ok (space', m')) :
    ∃ pages space₁ m₁ vma,
      space.allocKernelStack profile m (tagBytes "userthread") = .ok (pages, space₁, m₁) ∧
      space₁.userAllocMapPartial profile m₁ none (MAX_USER_STACK_SIZE / PAGE_SIZE) .userStack
        (tagBytes "usrstack") 1 true = .ok (vma, space', m') := by
  obtain ⟨⟨pages, space₁, m₁⟩, hStack, hRun⟩ := bind_ok hRun
  obtain ⟨⟨vma, space₂, m₂⟩, hUser, hRun⟩ := bind_ok hRun
  obtain ⟨_, -, hRun⟩ := bind_ok hRun
  obtain ⟨rfl, rfl⟩ : space₂ = space' ∧ m₂ = m' := by simpa using hRun
  exact ⟨pages, space₁, m₁, vma, hStack, hUser⟩

theorem mapPartialVma_map (hRun : space.mapPartialVma profile m vma pages kind flags = .ok m') :
    vma.start ≤ Page.startAddress pages.start ∧ Page.startAddress pages.stop ≤ vma.stop ∧
      space.pageTables.map profile m pages kind flags = .ok m' := by
  obtain ⟨found, -, hRun⟩ := bind_ok hRun
  obtain ⟨-, hRun⟩ := ite_error_ok hRun
  grind

theorem isAddressWithinVma_ok {address : Nat} {found : Option VirtualMemoryArea}
    (hRun : space.isAddressWithinVma address typ = .ok found) :
    Canonical address ∧ ∀ vma, found = some vma →
      ∃ entry ∈ space.virtualMemoryAreas.entries, entry.2 = vma := by
  obtain ⟨addr, hNew, hRun⟩ := bind_ok hRun
  unfold VirtAddr.new at hNew
  obtain ⟨hCanonical, hNew⟩ := ite_ok hNew
  refine ⟨hCanonical, ?_⟩
  rintro vma rfl
  split at hRun
  case h_2 => cases hRun
  case h_1 key prev hLast =>
    split at hRun
    case isFalse => cases hRun
    case isTrue =>
      obtain rfl : prev = vma := by simpa using hRun
      exact ⟨_, (SortedMap.lastAtMost_some hLast).1, rfl⟩

/-- A page fault is handled by mapping its page, which lies in an area. -/
theorem handlePageFault_ok {faultAddr : Nat}
    (hRun : space.handlePageFault profile m faultAddr = .ok m') :
    ∃ entry ∈ space.virtualMemoryAreas.entries,
      Page.containingAddress faultAddr ∈ entry.2.pages ∧
      Page.Valid (Page.containingAddress faultAddr) ∧
      space.pageTables.map profile m
        ⟨Page.containingAddress faultAddr, Page.containingAddress faultAddr + 1⟩ .user
        USER_PAGE_FLAGS = .ok m' := by
  obtain ⟨typ, vma, hWithin, hRun⟩ : ∃ typ vma,
      space.isAddressWithinVma faultAddr typ = .ok (some vma) ∧ (do
        let endPage ← Page.add profile (Page.containingAddress faultAddr) 1
        space.mapPartialVma profile m vma ⟨Page.containingAddress faultAddr, endPage⟩ .user
          USER_PAGE_FLAGS) = .ok m' := by
    unfold handlePageFault at hRun
    obtain ⟨stack, hStack, hRun⟩ := bind_ok hRun
    cases stack with
    | some vma => exact ⟨_, vma, hStack, hRun⟩
    | none =>
      obtain ⟨heap, hHeap, hRun⟩ := bind_ok hRun
      cases heap with
      | some vma => exact ⟨_, vma, hHeap, hRun⟩
      | none => cases hRun
  obtain ⟨hCanonical, hMem⟩ := isAddressWithinVma_ok hWithin
  obtain ⟨entry, hEntry, rfl⟩ := hMem vma rfl
  have hValid : Page.Valid (Page.containingAddress faultAddr) := by
    simp only [Page.Valid, Canonical, Page.startAddress, Page.containingAddress, PAGE_SIZE]
      at hCanonical ⊢
    omega
  obtain ⟨endPage, hEnd, hRun⟩ := bind_ok hRun
  obtain ⟨rfl, -⟩ := (Page.add_spec profile hValid (by decide)).of_ok hEnd
  obtain ⟨hStart, hStop, hMap⟩ := mapPartialVma_map hRun
  simp only [VirtualMemoryArea.start, VirtualMemoryArea.stop, Page.startAddress, PAGE_SIZE]
    at hStart hStop
  exact ⟨entry, hEntry, ⟨by omega, by omega⟩, hValid, hMap⟩

/-- `sys_map_memory` stores an area at most. -/
theorem sysMapMemory_ok {start size : Nat} {code : Int} (hPlaced : space.Placed)
    (hRun : space.sysMapMemory profile start size = .ok (code, space')) :
    space' = space ∨ ∃ vma, Stored space .user .heap vma space' := by
  obtain ⟨addr, -, hRun⟩ := bind_ok hRun
  obtain ⟨⟨found, later⟩, hVma, hRun⟩ := bind_ok hRun
  have hFound := allocVma_ok hPlaced hVma
  cases found with
  | none =>
    obtain ⟨-, rfl⟩ : EUNKN = code ∧ later = space' := by simpa using hRun
    exact .inl hFound
  | some vma =>
    obtain ⟨-, rfl⟩ : 0 = code ∧ later = space' := by simpa using hRun
    exact .inr ⟨vma, hFound⟩

/-- Every call is made of parts. -/
theorem SpaceCall.run_parts {call : SpaceCall} (hPlaced : space.Placed)
    (hRun : call.run profile space m = .ok (space', m')) :
    Parts profile (space, m) (space', m') := by
  cases call with
  | userAllocMapFull startPage numPages typ tag =>
    obtain ⟨⟨result, space₁, m₁⟩, hCall, hEq⟩ := bind_ok hRun
    obtain ⟨rfl, rfl⟩ : space₁ = space' ∧ m₁ = m' := by simpa using hEq
    rcases userAllocMapFull_ok hPlaced hCall with ⟨rfl, rfl⟩ | ⟨vma, hStored, hMap⟩
    · exact .refl
    · exact .tail (.single (.stored hStored)) (.provided hStored.valid_start hMap)
  | userAllocMapPartial startPage numPages typ tag allocNumPages allocDownwards =>
    obtain ⟨⟨result, space₁, m₁⟩, hCall, hEq⟩ := bind_ok hRun
    obtain ⟨rfl, rfl⟩ : space₁ = space' ∧ m₁ = m' := by simpa using hEq
    exact userAllocMapPartial_parts hPlaced hCall
  | sysMapMemory start size =>
    obtain ⟨⟨code, space₁⟩, hCall, hEq⟩ := bind_ok hRun
    obtain ⟨rfl, rfl⟩ : space₁ = space' ∧ m = m' := by simpa using hEq
    rcases sysMapMemory_ok hPlaced hCall with rfl | ⟨vma, hStored⟩
    · exact .refl
    · exact .single (.stored hStored)
  | kernelAllocMapIdentity numPf flags typ tag =>
    obtain ⟨⟨pages, space₁, m₁⟩, hCall, hEq⟩ := bind_ok hRun
    obtain ⟨rfl, rfl⟩ : space₁ = space' ∧ m₁ = m' := by simpa using hEq
    exact .single (.area hCall)
  | newUserThread =>
    obtain ⟨pages, space₁, m₁, vma, hStack, hUser⟩ := newUserThread_ok hRun
    obtain ⟨stack, hStored⟩ := kernelAllocMapIdentity_stored hPlaced hStack
    exact .trans (.single (.area hStack)) (userAllocMapPartial_parts hStored.placed hUser)
  | handlePageFault faultAddr =>
    obtain ⟨m₁, hCall, hEq⟩ := bind_ok hRun
    obtain ⟨rfl, rfl⟩ : space = space' ∧ m₁ = m' := by simpa using hEq
    obtain ⟨entry, -, -, hValid, hMap⟩ := handlePageFault_ok hCall
    exact .single (.provided hValid hMap)

/-- A new tree takes its root from the free frames. -/
theorem new_grows {depth : Nat} {paging : Paging} (h : Tables m own)
    (hNew : Paging.new m depth = .ok (paging, m')) :
    paging.depth = depth ∧ Grows paging.rootTable m own m'
      (Function.update own paging.rootTable (some ⟨paging.rootTable, 4, 0⟩)) := by
  obtain ⟨⟨range, m₁⟩, hAlloc, hNew⟩ := bind_ok hNew
  obtain ⟨rfl, rfl⟩ := Prod.mk.inj (pure_ok hNew)
  have hAlloc : Machine.Allocated m {range.start} m₁ := (Machine.alloc_one h.sound).of_ok hAlloc
  have hFrame : range.start ∈ m.freeSet := hAlloc.free rfl
  have hNe : ∀ {table node}, own table = some node → table ≠ range.start :=
    fun hOwn hEq => h.not_free hOwn (hEq ▸ hFrame)
  refine ⟨rfl, h.newRoot hAlloc, fun hOwn => ?_, fun hOwn hNone => ?_, ?_, fun hOwn _ index => ?_,
    hAlloc.physLimit_eq⟩
  · rwa [Function.update_of_ne (hNe hOwn)]
  · grind
  · rw [Machine.freeSet_zero, hAlloc.freeSet_eq]
    exact Set.sdiff_subset
  · rw [Machine.read_zero, if_neg (hNe hOwn), hAlloc.read_eq _ (h.not_free hOwn)]

/-- A tree without tables below its root translates nothing. -/
theorem entryAt_newRoot {root : Nat} (h : Tables m (Function.update own root (some ⟨root, 4, 0⟩)))
    (hNone : ∀ {table node}, own table = some node → node.root ≠ root) (hPage : page < 512 ^ 4) :
    entryAt m root page = unused := by
  refine h.entryAt_of_absent (Function.update_self ..) hPage fun leaf hLeaf => ?_
  rw [Function.update_apply] at hLeaf
  split at hLeaf
  · simp at hLeaf
  · exact hNone hLeaf rfl

/-- `create_kernel_address_space` maps all memory below the limit to itself. -/
theorem createKernelAddressSpace_ok {kernel : Paging} (hSound : m.Sound)
    (hCreate : createKernelAddressSpace profile m = .ok (kernel, m')) :
    ∃ own limit, m.frames.physLimit = some limit ∧ limit < 2 ^ 35 ∧ kernel.depth = 4 ∧
      own kernel.rootTable = some ⟨kernel.rootTable, 4, 0⟩ ∧
      Grows kernel.rootTable m (fun _ => none) m' own ∧
      ∀ page < 512 ^ 4, entryAt m' kernel.rootTable page =
        if page < limit then ⟨page, PRESENT ||| WRITABLE⟩ else unused := by
  obtain ⟨⟨paging, m₁⟩, hNew, hCreate⟩ := bind_ok hCreate
  obtain ⟨limit, hLimit, hCreate⟩ := bind_ok hCreate
  obtain ⟨maxAddr, hMax, hCreate⟩ := bind_ok hCreate
  obtain ⟨m₂, hMap, hCreate⟩ := bind_ok hCreate
  obtain ⟨rfl, rfl⟩ := Prod.mk.inj (pure_ok hCreate)
  obtain ⟨⟨m₃, count⟩, hWalk, hEq⟩ := bind_ok hMap
  obtain rfl := pure_ok hEq
  obtain ⟨hDepth, hGrows₁⟩ := new_grows (Tables.ofSound hSound) hNew
  rw [hDepth] at hWalk
  have hLimit : m₁.frames.physLimit = some limit := expectSome_ok hLimit
  obtain ⟨hCanonical, rfl⟩ : Canonical (PAGE_SIZE * limit) ∧ PAGE_SIZE * limit = maxAddr := by
    unfold VirtAddr.new at hMax
    obtain ⟨hCanonical, hMax⟩ := ite_ok hMax
    exact ⟨hCanonical, Except.ok.inj hMax⟩
  have hStop : Page.containingAddress (PAGE_SIZE * limit) = limit :=
    Nat.mul_div_cancel_left limit (by decide)
  rw [hStop] at hWalk
  have hRoot := Function.update_self paging.rootTable (some (Node.mk paging.rootTable 4 0))
    (fun _ => none)
  have hValid : Page.Valid 0 := by decide
  -- The walk panics at the address gap, so the limit lies in the lower half.
  have hEnd := ((mapInTable_root_spec profile .kernel _ hGrows₁.tables hRoot hValid
    (.inl rfl)).of_ok hWalk).2.1
  have hLt : limit < 2 ^ 35 := by
    simp only [Canonical, PAGE_SIZE] at hCanonical hEnd
    omega
  obtain ⟨-, own, hGrows₂, hIdentity, -⟩ := (map_kernel_spec profile _ hGrows₁.tables hRoot hValid
    (.inl rfl) (show limit < 512 ^ 4 by omega)).of_ok hWalk
  refine ⟨own, limit, hGrows₁.physLimit_eq.symm.trans hLimit, hLt, hDepth, hGrows₂.keeps hRoot,
    hGrows₁.trans hGrows₂, fun page hPage => ?_⟩
  split
  case isTrue hBelow => exact hIdentity.mapped (Nat.zero_le page) (by simpa using hBelow)
  case isFalse hAbove =>
    rw [hIdentity.other hPage (by simpa using hAbove)]
    exact entryAt_newRoot hGrows₁.tables (by simp) hPage

theorem alignUp_ok {result : Nat} (hAddr : addr ≤ USER_SPACE_START)
    (h : alignUp profile addr = .ok result) :
    result % PAGE_SIZE = 0 ∧ addr ≤ result ∧ result ≤ USER_SPACE_START := by
  simp only [USER_SPACE_START] at hAddr ⊢
  have hSum : addr + PAGE_SIZE < 2 ^ 64 := by
    unfold PAGE_SIZE
    omega
  obtain ⟨sum, hWord, h⟩ := bind_ok h
  obtain rfl := pure_ok h
  obtain rfl := Except.ok.inj ((profile.word_of_lt hSum).symm.trans hWord)
  unfold PAGE_SIZE
  omega

theorem frameFromU64_ok {frame : Nat} (hAligned : addr % PAGE_SIZE = 0)
    (h : frameFromU64 addr = .ok frame) : frame = addr / PAGE_SIZE := by
  unfold frameFromU64 at h
  simp only at h
  obtain ⟨-, h⟩ := ite_ok h
  obtain rfl := Except.ok.inj h
  unfold PAGE_SIZE at hAligned ⊢
  omega

/-- `kernel_map_devm_identity`, for device memory below user space. -/
theorem kernelMapDevmIdentity_ok {ledger : Ledger} {startPhysAddr endPhysAddr : Nat}
    (h : ledger.Fits m) (hPlaced : space.Placed) (hDepth : space.pageTables.depth = 4)
    (hRoot : ledger.own space.pageTables.rootTable = some ⟨space.pageTables.rootTable, 4, 0⟩)
    (hBelow : endPhysAddr ≤ USER_SPACE_START)
    (hRun : space.kernelMapDevmIdentity profile m startPhysAddr endPhysAddr flags typ tag =
      .ok (page, space', m')) :
    ∃ vma flags' own', Stored space .kernel typ vma space' ∧
      vma.range.stop ≤ USER_SPACE_PAGE ∧ flags' &&& USER_ACCESSIBLE = 0 ∧
      Provides space.pageTables.rootTable m ledger m' ⟨own', ledger.use⟩ ∧
      IdentityMapped space.pageTables.rootTable m vma.range.start
        (vma.range.stop - vma.range.start) flags' m' := by
  unfold kernelMapDevmIdentity at hRun
  split at hRun
  · cases hRun
  rename_i hOrder
  obtain ⟨startFrame, hStartFrame, hRun⟩ := bind_ok hRun
  obtain ⟨endAddr, hEndAddr, hRun⟩ := bind_ok hRun
  obtain ⟨endFrame, hEndFrame, hRun⟩ := bind_ok hRun
  obtain ⟨startPage, hStartPage, hRun⟩ := bind_ok hRun
  obtain ⟨endPage, -, hRun⟩ := bind_ok hRun
  obtain ⟨⟨result, later⟩, hVma, hRun⟩ := bind_ok hRun
  obtain ⟨vma, hSome, hRun⟩ := bind_ok hRun
  obtain ⟨mapped, hMapped, hRun⟩ := bind_ok hRun
  obtain ⟨m₂, hOk, hRun⟩ := bind_ok hRun
  obtain ⟨-, rfl, rfl⟩ : startPage = page ∧ later = space' ∧ m₂ = m' := by simpa using hRun
  obtain rfl := expectSome_ok hSome
  obtain rfl := expectOk_ok hOk
  obtain ⟨hStored, hStart⟩ := hPlaced.allocVma hVma
  obtain ⟨hAligned, hEndGe, hEndLe⟩ := alignUp_ok hBelow hEndAddr
  have hStartAddr := (pageFromU64_ok hStartPage).1
  have hFirst := hStart startPage rfl
  have hEnd := frameFromU64_ok hAligned hEndFrame
  have hBegin : startFrame = startPage := by
    rw [frameFromU64_ok ?_ hStartFrame, ← hStartAddr]
    · exact Nat.mul_div_cancel_left _ (by decide)
    · rw [← hStartAddr]
      exact Nat.mul_mod_right _ _
  have hVma' : (vma.start, vma) ∈ later.virtualMemoryAreas.entries := hStored.mem.mpr (.inl rfl)
  have hBound := hStored.placed.bound hVma'
  rw [← hStored.pageTables_eq] at hDepth hRoot ⊢
  obtain ⟨hLength, flags', own', hUser, -, hGrows, hIdentity, hSpent⟩ :=
    mapPfrForVma_kernel h.tables hDepth hRoot hStored.space_eq hBound hMapped
  refine ⟨vma, flags', own', hStored, ?_, hUser, ?_, hIdentity⟩
  · have hForward := hStored.placed.forward hVma'
    simp only [USER_SPACE_START, PAGE_SIZE] at hEndLe hEnd hAligned
    simp only [Page.startAddress, PAGE_SIZE] at hStartAddr
    simp only [USER_SPACE_PAGE, Page.containingAddress, USER_SPACE_START, PAGE_SIZE]
    simp only at hLength hForward
    omega
  · exact hGrows.provides h (hGrows.keeps hRoot) id .inl fun hFree hTaken =>
      .inl (hSpent hFree hTaken)

end D3OS.Memory
