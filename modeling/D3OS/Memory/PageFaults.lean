import D3OS.Memory.AreaBounds
import D3OS.Memory.AreaDisjointness
import D3OS.Memory.Mapping

/-! Heap memory on demand. `sys_map_memory` only stores an area; the pages come
with the page faults on it. The area starts at the page of the requested
address but has as many pages as the size alone needs, and the handler looks at
one area only, the last one that begins at or below the address. -/
namespace D3OS.Memory

open Outcome

/-- A machine without memory to give away. -/
def Machine.exhausted : Machine := ⟨SparseMap.empty, ⟨[], none⟩⟩

theorem Paging.nextLevelTable_exhausted (table index : Nat) (flags : PageTableFlags) :
    nextLevelTable .exhausted table index flags = .error .outOfMemory := by
  have hAlloc : Machine.exhausted.alloc 1 = .error .outOfMemory := rfl
  have hUnused : (Machine.exhausted.read table index).isUnused = true := by
    simp only [Machine.exhausted, Machine.read, SparseMap.get_empty]
    rfl
  unfold nextLevelTable
  rw [if_pos hUnused, hAlloc]
  rfl

/-- Mapping a page takes a frame, if only for the page itself. -/
theorem Paging.map_exhausted (self : Paging) (profile : BuildProfile) {page stop : Nat}
    (hSome : page < stop) (flags : PageTableFlags) :
    self.map profile .exhausted ⟨page, stop⟩ .user flags = .error .outOfMemory := by
  have hLeaves : mapLeaves .exhausted self.rootTable ⟨0, 0⟩ ⟨page, stop⟩ .user flags =
      .error .outOfMemory := by
    have hAlloc : Machine.exhausted.alloc 1 = .error .outOfMemory := rfl
    obtain ⟨count, hCount⟩ : ∃ count, countInTable ⟨page, stop⟩ = .ok (count + 1) := by
      refine ⟨min (stop - page) (512 - pageTableIndex page 1) - 1, ?_⟩
      have hIndex : pageTableIndex page 1 < 512 := Nat.mod_lt _ (by decide)
      unfold countInTable PageRange.count
      rw [if_neg (by simp only; omega), bind_of_ok]
      exact congrArg Except.ok (by simp only; omega)
    unfold mapLeaves mapUser
    rw [if_pos rfl, hCount, bind_of_ok, List.range'_succ, List.forIn_cons, hAlloc]
    rfl
  unfold map
  rcases self.depth with _ | _ | level
  · rw [mapInTable, hLeaves]
    · rfl
    · simp
  · rw [mapInTable, hLeaves]
    · rfl
    · simp
  · have hIndex : pageTableIndex page (level + 2) < 512 := Nat.mod_lt _ (by decide)
    obtain ⟨count, hCount⟩ := Nat.exists_eq_add_of_lt hIndex
    have hRange : 512 - pageTableIndex page (level + 2) = count + 1 := by omega
    rw [mapInTable]
    simp only
    rw [hRange, List.range'_succ, List.forIn_cons, nextLevelTable_exhausted]
    rfl

namespace VirtualAddressSpace

/-- The address lies in a heap area. -/
def InHeap (self : VirtualAddressSpace) (addr : Nat) : Prop :=
  ∃ entry ∈ self.virtualMemoryAreas.entries,
    entry.2.typ = .heap ∧ entry.2.start ≤ addr ∧ addr < entry.2.stop

instance (self : VirtualAddressSpace) (addr : Nat) : Decidable (self.InHeap addr) :=
  inferInstanceAs (Decidable (∃ _ ∈ _, _))

/-- A page fault at the address is answered by mapping its page. -/
def Resolves (self : VirtualAddressSpace) (addr : Nat) : Prop :=
  ∀ profile m, self.handlePageFault profile m addr =
    self.pageTables.map profile m
      ⟨Page.containingAddress addr, Page.containingAddress addr + 1⟩ .user USER_PAGE_FLAGS

/-- The bounds of the area that `sys_map_memory` stores. -/
def mappedStart (start : Nat) : Nat := Page.startAddress (Page.containingAddress start)

def mappedStop (start size : Nat) : Nat :=
  mappedStart start + PAGE_SIZE * ((size + (PAGE_SIZE - 1)) / PAGE_SIZE % 2 ^ 52)

/-- The handler gets to a heap or stack area for the address once the new area
is stored. An area that begins behind the start of the new one goes before it. -/
def Reached (self : VirtualAddressSpace) (start size addr : Nat) : Prop :=
  match self.virtualMemoryAreas.lastAtMost addr with
  | some (key, vma) =>
    if mappedStart start < key then
      addr < vma.stop ∧ (vma.typ = .heap ∨ vma.typ = .userStack ∧ addr < mappedStop start size)
    else addr < mappedStop start size
  | none => addr < mappedStop start size

/-! ### The handler -/

variable {self : VirtualAddressSpace} {addr : Nat} {vma : VirtualMemoryArea}

theorem isAddressWithinVma_of_last {key : Nat} (hCanonical : Canonical addr)
    (hLast : self.virtualMemoryAreas.lastAtMost addr = some (key, vma)) (typ : VmaType) :
    self.isAddressWithinVma addr typ =
      .ok (if addr < vma.stop ∧ vma.typ = typ then some vma else none) := by
  have hNew : VirtAddr.new addr = .ok addr := if_pos hCanonical
  unfold isAddressWithinVma
  rw [hNew, bind_of_ok, hLast]
  by_cases hIn : addr < vma.stop ∧ vma.typ = typ
  · simp only [hIn, and_self, if_true]
    rfl
  · simp only [hIn, if_false]
    rfl

/-- A page of a stored area can be mapped. -/
theorem mapPartialVma_of_mem (hPlaced : self.Placed) {entry : Nat × VirtualMemoryArea}
    (hEntry : entry ∈ self.virtualMemoryAreas.entries) (hStart : entry.2.start ≤ addr)
    (hStop : addr < entry.2.stop) (profile : BuildProfile) (m : Machine) :
    (do let endPage ← Page.add profile (Page.containingAddress addr) 1
        self.mapPartialVma profile m entry.2 ⟨Page.containingAddress addr, endPage⟩ .user
          USER_PAGE_FLAGS) =
      self.pageTables.map profile m
        ⟨Page.containingAddress addr, Page.containingAddress addr + 1⟩ .user USER_PAGE_FLAGS := by
  have hBound := hPlaced.bound hEntry
  simp only [VirtualMemoryArea.start, VirtualMemoryArea.stop, Page.startAddress, PAGE_SIZE]
    at hStart hStop
  have hPage : Page.Valid (Page.containingAddress addr) ∧
      Page.Valid (Page.containingAddress addr + 1) := by
    constructor <;> apply valid_of_lt <;> simp only [Page.containingAddress, PAGE_SIZE] <;> omega
  have hEnd : Page.add profile (Page.containingAddress addr) 1 =
      .ok (Page.containingAddress addr + 1) := by
    obtain ⟨endPage, hAdd, rfl, -⟩ :=
      (Page.add_spec profile hPage.1 (show 1 ≤ 512 ^ 4 by decide)).exists_ok hPage.2
    exact hAdd
  have hFound : self.virtualMemoryAreas.get? entry.2.start = some entry.2 := by
    rw [SortedMap.get?_eq_some, ← hPlaced.key hEntry]
    exact hEntry
  rw [hEnd, bind_of_ok, mapPartialVma, hFound, expectSome, bind_of_ok,
    if_neg (by simp [VirtualMemoryArea.isEquivalentTo]), if_neg, if_neg]
  · simp only [VirtualMemoryArea.stop, Page.startAddress, Page.containingAddress, PAGE_SIZE]
    omega
  · simp only [VirtualMemoryArea.start, Page.startAddress, Page.containingAddress, PAGE_SIZE]
    omega

/-- The handler resolves a fault if and only if the last area at or below the
address is a heap or a stack that holds it. -/
theorem resolves_iff (hPlaced : self.Placed) {key : Nat}
    (hLast : self.virtualMemoryAreas.lastAtMost addr = some (key, vma)) :
    self.Resolves addr ↔ addr < vma.stop ∧ (vma.typ = .heap ∨ vma.typ = .userStack) := by
  obtain ⟨hMem, hBelow, -⟩ := SortedMap.lastAtMost_some hLast
  have hStart : vma.start ≤ addr := hPlaced.key hMem ▸ hBelow
  have hBound := hPlaced.bound hMem
  constructor
  · intro hResolves
    have hMap := hResolves .development .exhausted
    rw [Paging.map_exhausted _ _ (Nat.lt_succ_self _)] at hMap
    by_cases hCanonical : Canonical addr
    case neg =>
      have hNew : VirtAddr.new addr = .error .nonCanonicalAddress := if_neg hCanonical
      unfold handlePageFault isAddressWithinVma at hMap
      rw [hNew] at hMap
      cases hMap
    by_contra hNone
    unfold handlePageFault at hMap
    rw [isAddressWithinVma_of_last hCanonical hLast, bind_of_ok,
      if_neg fun h => hNone ⟨h.1, Or.inr h.2⟩] at hMap
    simp only at hMap
    rw [isAddressWithinVma_of_last hCanonical hLast, bind_of_ok,
      if_neg fun h => hNone ⟨h.1, Or.inl h.2⟩] at hMap
    cases hMap
  · rintro ⟨hStop, hType⟩ profile m
    have hCanonical : Canonical addr := by
      left
      simp only [VirtualMemoryArea.stop, Page.startAddress, PAGE_SIZE] at hStop hBound
      omega
    have hMapped := mapPartialVma_of_mem hPlaced hMem hStart hStop profile m
    unfold handlePageFault
    rw [isAddressWithinVma_of_last hCanonical hLast, bind_of_ok]
    by_cases hStack : vma.typ = .userStack
    · rw [if_pos ⟨hStop, hStack⟩]
      exact hMapped
    · rw [if_neg fun h => hStack h.2]
      simp only
      rw [isAddressWithinVma_of_last hCanonical hLast, bind_of_ok,
        if_pos ⟨hStop, hType.resolve_right hStack⟩]
      exact hMapped

/-! ### The new area -/

/-- A successful `sys_map_memory` stores a heap from the page of the start on,
with as many pages as the size needs. -/
theorem sysMapMemory_stores {later : VirtualAddressSpace} {profile : BuildProfile}
    {start size : Nat} (hPlaced : self.Placed)
    (hRun : self.sysMapMemory profile start size = .ok (0, later)) :
    ∃ vma, Stored self .user .heap vma later ∧ vma.start = mappedStart start ∧
      vma.stop = mappedStop start size := by
  obtain ⟨addr, hAddr, hRest⟩ := bind_ok hRun
  obtain ⟨⟨found, self'⟩, hVma, hEq⟩ := bind_ok hRest
  obtain rfl : start = addr := by
    unfold VirtAddr.new at hAddr
    obtain ⟨-, hAddr⟩ := ite_ok hAddr
    exact Except.ok.inj hAddr
  cases found with
  | none =>
    obtain ⟨hCode, -⟩ : EUNKN = 0 ∧ self' = later := by simpa using hEq
    exact absurd hCode (by decide)
  | some vma =>
    obtain rfl : self' = later := by simpa using hEq
    obtain ⟨hStored, -⟩ := hPlaced.allocVma hVma
    refine ⟨vma, hStored, ?_⟩
    rcases allocAt_cases hVma with ⟨hNone, -⟩ | ⟨endPage, hEnd, -, -, -, hResult⟩
    · cases hNone
    · obtain rfl := Option.some.inj hResult
      obtain ⟨offset, hOffset, hStop⟩ := Page.startAddress_of_add hEnd
      rw [word_mul_pageSize hOffset] at hStop
      exact ⟨rfl, hStop⟩

/-- One address of the request, after a successful call. -/
theorem covered_iff {later : VirtualAddressSpace} {start size : Nat} (hPlaced : self.Placed)
    (hDisjoint : self.AreasDisjoint) (hStored : Stored self .user .heap vma later)
    (hStart : vma.start = mappedStart start) (hStop : vma.stop = mappedStop start size)
    (hAddr : start ≤ addr) :
    later.InHeap addr ∧ later.Resolves addr ↔ self.Reached start size addr := by
  have hBelow : mappedStart start ≤ addr := (Nat.mul_div_le start PAGE_SIZE).trans hAddr
  have hMem := fun entry => @Stored.mem _ _ _ _ _ hStored entry
  have hLast := @SortedMap.lastAtMost_insert _ _ _ self.virtualMemoryAreas vma.start addr vma
    (hStart ▸ hBelow)
  -- The new area is the last one at or below the address.
  have hNew : later.virtualMemoryAreas.lastAtMost addr = some (vma.start, vma) →
      (later.InHeap addr ∧ later.Resolves addr ↔ addr < mappedStop start size) := by
    intro hFound
    rw [resolves_iff hStored.placed hFound, hStored.typ_eq, hStop]
    refine ⟨fun h => h.2.1, fun h => ⟨⟨_, (hMem _).mpr (Or.inl rfl), ?_⟩, h, Or.inl rfl⟩⟩
    exact ⟨hStored.typ_eq, hStart.trans_le hBelow, hStop ▸ h⟩
  have hLater : later.virtualMemoryAreas = self.virtualMemoryAreas.insert vma.start vma := by
    rw [hStored.later_eq]
    rfl
  rw [← hLater] at hLast
  unfold Reached
  cases hOld : self.virtualMemoryAreas.lastAtMost addr with
  | none =>
    rw [hOld] at hLast
    exact hNew hLast
  | some last =>
    obtain ⟨key, other⟩ := last
    rw [hOld] at hLast
    simp only at hLast ⊢
    by_cases hAbove : mappedStart start < key
    case neg =>
      rw [if_neg hAbove]
      rw [if_neg (by rwa [hStart])] at hLast
      exact hNew hLast
    rw [if_pos hAbove]
    rw [if_pos (by rwa [hStart])] at hLast
    obtain ⟨hOther, hOtherBelow, -⟩ := SortedMap.lastAtMost_some hOld
    have hOtherStart : other.start ≤ addr := hPlaced.key hOther ▸ hOtherBelow
    rw [resolves_iff hStored.placed hLast]
    constructor
    · rintro ⟨⟨entry, hEntry, hHeap, hEntryStart, hEntryStop⟩, hIn, hType⟩
      refine ⟨hIn, hType.imp_right fun hStack => ⟨hStack, ?_⟩⟩
      -- The heap around the address is the new one: an older area would overlap the stack.
      rcases (hMem entry).mp hEntry with rfl | ⟨hEntryOld, -⟩
      · exact hStop ▸ hEntryStop
      · have hNe : entry ≠ (key, other) := by
          rintro rfl
          rw [hStack] at hHeap
          cases hHeap
        simp only [VirtualMemoryArea.start, VirtualMemoryArea.stop, Page.startAddress, PAGE_SIZE]
          at hEntryStart hEntryStop hOtherStart hIn
        have hPages := hDisjoint entry hEntryOld _ hOther hNe (by omega) (by simp only; omega)
        exact absurd (Set.disjoint_left.mp hPages (show addr / 0x1000 ∈ _ by
          constructor <;> omega)) (not_not.mpr (by constructor <;> simp only <;> omega))
    · rintro ⟨hIn, hType⟩
      refine ⟨?_, hIn, hType.imp_right And.left⟩
      rcases hType with hHeap | ⟨-, hInside⟩
      · exact ⟨(key, other), (SortedMap.lastAtMost_some hLast).1, hHeap, hOtherStart, hIn⟩
      · exact ⟨_, (hMem _).mpr (Or.inl rfl), hStored.typ_eq, hStart.trans_le hBelow,
          hStop ▸ hInside⟩

/-- After a successful call, every byte of the request lies in a heap area and a
page fault on it is resolved, if and only if each of its addresses is `Reached`. -/
theorem sysMapMemory_covers_iff {self later : VirtualAddressSpace} {profile : BuildProfile}
    {start size : Nat} (hPlaced : self.Placed) (hDisjoint : self.AreasDisjoint)
    (hRun : self.sysMapMemory profile start size = .ok (0, later)) :
    (∀ addr, start ≤ addr → addr < start + size → later.InHeap addr ∧ later.Resolves addr) ↔
      ∀ addr, start ≤ addr → addr < start + size → self.Reached start size addr := by
  obtain ⟨vma, hStored, hStart, hStop⟩ := sysMapMemory_stores hPlaced hRun
  refine forall_congr' fun addr => forall_congr' fun hAddr => imp_congr_right fun _ => ?_
  exact covered_iff hPlaced hDisjoint hStored hStart hStop hAddr

/-- The area of `sys_map_memory` at the start of user space. -/
def mappedHeap (numPages : Nat) : VirtualMemoryArea :=
  .newWithTag .user ⟨firstUserPage, firstUserPage + numPages⟩ .heap (tagBytes "heap")

/-- A heap of 8000 bytes that starts inside of a page. -/
theorem sysMapMemory_covers_8000 :
    freshSpace.sysMapMemory .development (USER_SPACE_START + 100) 8000 =
        .ok (0, freshSpace.store (mappedHeap 2)) ∧
      ∀ addr, USER_SPACE_START + 100 ≤ addr → addr < USER_SPACE_START + 100 + 8000 →
        (freshSpace.store (mappedHeap 2)).InHeap addr ∧
          (freshSpace.store (mappedHeap 2)).Resolves addr := by
  have hNew : new ⟨1, 4⟩ 48 = .ok freshSpace := by decide +kernel
  have hRun : freshSpace.sysMapMemory .development (USER_SPACE_START + 100) 8000 =
      .ok (0, freshSpace.store (mappedHeap 2)) := by decide +kernel
  refine ⟨hRun, (sysMapMemory_covers_iff (new_placed (by decide) hNew).1
    (fun _ h => absurd h List.not_mem_nil) hRun).mpr fun addr _ hBelow => ?_⟩
  show addr < mappedStop (USER_SPACE_START + 100) 8000
  exact hBelow.trans (by decide +kernel)

/-- A page of code, two pages into user space. -/
def codeBehindFirst : VirtualMemoryArea :=
  .newWithTag .user ⟨firstUserPage + 2, firstUserPage + 3⟩ .code []

/-- The last byte of a page and the first one of the next are two bytes, and the
area has one page. Four pages over an area of code are promised as well, and a
fault on the code panics. -/
theorem sysMapMemory_promises_too_much :
    (freshSpace.AreasDisjoint ∧
      freshSpace.sysMapMemory .development (USER_SPACE_START + 4095) 2 =
        .ok (0, freshSpace.store (mappedHeap 1)) ∧
      ¬(freshSpace.store (mappedHeap 1)).InHeap (USER_SPACE_START + 4096) ∧
      ∀ m, (freshSpace.store (mappedHeap 1)).handlePageFault .development m
        (USER_SPACE_START + 4096) = .error .pageFault) ∧
    (freshSpace.store codeBehindFirst).AreasDisjoint ∧
      (freshSpace.store codeBehindFirst).sysMapMemory .development USER_SPACE_START 0x4000 =
        .ok (0, (freshSpace.store codeBehindFirst).store (mappedHeap 4)) ∧
      ∀ m, ((freshSpace.store codeBehindFirst).store (mappedHeap 4)).handlePageFault .development m
        (USER_SPACE_START + 0x2000) = .error .pageFault := by
  refine ⟨⟨fun _ h => absurd h List.not_mem_nil, by decide +kernel, by decide +kernel,
    fun m => rfl⟩, areasDisjoint_of_singleton rfl, by decide +kernel, fun m => rfl⟩

end VirtualAddressSpace

end D3OS.Memory
