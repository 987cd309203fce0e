import D3OS.Memory.AddressSpace

/-! Where areas lie. Every stored area ends below the last usable address,
and those of user space start at or above `USER_SPACE_START`. -/
namespace D3OS.Memory.VirtualAddressSpace

open Outcome

/-- The areas stand under their own start address and keep to the bounds
that `alloc_at` checks. -/
structure Placed (space : VirtualAddressSpace) : Prop where
  first : space.firstUsableUserAddr = USER_SPACE_START
  last : space.lastUsableUserAddr < 2 ^ 47
  key : ∀ {entry}, entry ∈ space.virtualMemoryAreas.entries → entry.1 = entry.2.start
  forward : ∀ {entry}, entry ∈ space.virtualMemoryAreas.entries →
    entry.2.range.start ≤ entry.2.range.stop
  bound : ∀ {entry}, entry ∈ space.virtualMemoryAreas.entries → entry.2.range.stop < 2 ^ 35
  user : ∀ {entry}, entry ∈ space.virtualMemoryAreas.entries → entry.2.space = .user →
    USER_SPACE_PAGE ≤ entry.2.range.start

theorem new_placed {paging : Paging} {virtualBits : Nat} {space : VirtualAddressSpace}
    (hBits : virtualBits ≤ 64) (h : new paging virtualBits = .ok space) :
    Placed space ∧ space.pageTables = paging ∧ space.virtualMemoryAreas = SortedMap.empty := by
  obtain ⟨first, hFirst, h⟩ := bind_ok h
  obtain ⟨last, hLast, h⟩ := bind_ok h
  obtain rfl := pure_ok h
  have hNone : ∀ {entry}, entry ∉ (SortedMap.empty : SortedMap Nat VirtualMemoryArea).entries := by
    simp [SortedMap.empty]
  refine ⟨⟨?_, ?_, fun hMem => absurd hMem hNone, fun hMem => absurd hMem hNone,
    fun hMem => absurd hMem hNone, fun hMem => absurd hMem hNone⟩, rfl, rfl⟩
  · exact (Except.ok.inj hFirst).symm
  · unfold VirtAddr.new at hLast
    obtain ⟨hCanonical, hLast⟩ := ite_ok hLast
    obtain rfl := Except.ok.inj hLast
    have hPow : 2 ^ (virtualBits - 1) ≤ 2 ^ 63 := Nat.pow_le_pow_right (by decide) (by omega)
    unfold lastUsableVirtualAddress Canonical at *
    change 2 ^ (virtualBits - 1) - 1 < 2 ^ 47
    omega

variable {space : MemorySpace} {self later : VirtualAddressSpace} {typ : VmaType}
  {vma : VirtualMemoryArea}

/-- `alloc_vma` finds no place, or leaves the rest to `alloc_at`. -/
theorem allocVma_cases {profile : BuildProfile} {startPage : Option Nat} {numPages : Nat}
    {tag : List UInt8} {result : Option VirtualMemoryArea}
    (h : self.allocVma profile startPage numPages space typ tag = .ok (result, later)) :
    (result = none ∧ later = self) ∨
      ∃ firstPage, (∀ page, startPage = some page → firstPage = page) ∧
        self.allocAt profile firstPage numPages space typ tag = .ok (result, later) := by
  cases startPage with
  | some page => exact .inr ⟨page, fun _ hEq => Option.some.inj hEq, h⟩
  | none =>
    have hNone : ∀ {firstPage : Nat} page, none = some page → firstPage = page :=
      fun _ hEq => nomatch hEq
    unfold allocVma alloc at h
    obtain ⟨first, stop, hRange⟩ : ∃ first stop, self.searchRange space = (first, stop) :=
      ⟨_, _, rfl⟩
    rw [hRange] at h
    obtain ⟨size, -, h⟩ := bind_ok h
    obtain ⟨areas, -, h⟩ := bind_ok h
    obtain ⟨⟨position, found⟩, -, h⟩ := bind_ok h
    cases found with
    | true => exact .inr ⟨_, hNone, h⟩
    | false =>
      obtain ⟨reach, -, h⟩ := bind_ok h
      split at h
      · exact .inr ⟨_, hNone, h⟩
      · simp only [pure_ok_iff, Prod.mk.injEq] at h
        exact .inl ⟨h.1.symm, h.2.symm⟩

/-- What is known of an area that was just stored. -/
structure Stored (before : VirtualAddressSpace) (space : MemorySpace) (typ : VmaType)
    (vma : VirtualMemoryArea) (later : VirtualAddressSpace) : Prop where
  later_eq : later = before.store vma
  space_eq : vma.space = space
  typ_eq : vma.typ = typ
  placed : Placed later
  free : before.previousOverlaps vma.start = false

theorem Stored.mem {self later : VirtualAddressSpace} {space : MemorySpace} {typ : VmaType}
    {vma : VirtualMemoryArea} (h : Stored self space typ vma later) {entry : Nat × VirtualMemoryArea} :
    entry ∈ later.virtualMemoryAreas.entries ↔
      entry = (vma.start, vma) ∨ entry ∈ self.virtualMemoryAreas.entries ∧ entry.1 ≠ vma.start := by
  rw [h.later_eq, store, SortedMap.mem_insert]

theorem Stored.pageTables_eq (h : Stored self space typ vma later) :
    later.pageTables = self.pageTables := by
  rw [h.later_eq]
  rfl

theorem Placed.allocVma {profile : BuildProfile} {self later : VirtualAddressSpace}
    {startPage : Option Nat} {numPages : Nat} {space : MemorySpace} {typ : VmaType}
    {tag : List UInt8} {vma : VirtualMemoryArea} (hPlaced : Placed self)
    (h : self.allocVma profile startPage numPages space typ tag = .ok (some vma, later)) :
    Stored self space typ vma later ∧ (∀ page, startPage = some page → vma.range.start = page) := by
  rcases allocVma_cases h with ⟨hNone, -⟩ | ⟨firstPage, hFirst, hAt⟩
  · cases hNone
  rcases allocAt_cases hAt with ⟨hNone, -⟩ | ⟨endPage, hEnd, hBounds, hFree, hLater, hResult⟩
  · cases hNone
  · obtain rfl := Option.some.inj hResult
    obtain ⟨offset, -, hStop⟩ := Page.startAddress_of_add hEnd
    have hLast := hPlaced.last
    have hBound : Page.startAddress endPage ≤ self.lastUsableUserAddr ∧
        (space = .user → USER_SPACE_START ≤ Page.startAddress firstPage) := by
      cases space with
      | user => simp only [outOfBounds, hPlaced.first, decide_eq_false_iff_not, not_or] at hBounds
                exact ⟨by omega, fun _ => by omega⟩
      | kernel => simp only [outOfBounds, decide_eq_false_iff_not] at hBounds
                  exact ⟨by omega, fun hEq => nomatch hEq⟩
    simp only [Page.startAddress, PAGE_SIZE, USER_SPACE_START] at hStop hBound
    have hMem : ∀ {entry}, entry ∈ later.virtualMemoryAreas.entries →
        entry = (Page.startAddress firstPage,
          VirtualMemoryArea.newWithTag space ⟨firstPage, endPage⟩ typ tag) ∨
          entry ∈ self.virtualMemoryAreas.entries := by
      intro entry hEntry
      rw [hLater, store, SortedMap.mem_insert] at hEntry
      exact hEntry.imp_right And.left
    refine ⟨⟨hLater, rfl, rfl, ⟨?_, ?_, ?_, ?_, ?_, ?_⟩, hFree⟩, hFirst⟩
    · rw [hLater]; exact hPlaced.first
    · rw [hLater]; exact hPlaced.last
    · intro entry hEntry
      rcases hMem hEntry with rfl | hEntry
      · rfl
      · exact hPlaced.key hEntry
    · intro entry hEntry
      rcases hMem hEntry with rfl | hEntry
      · simp only [VirtualMemoryArea.newWithTag]
        omega
      · exact hPlaced.forward hEntry
    · intro entry hEntry
      rcases hMem hEntry with rfl | hEntry
      · simp only [VirtualMemoryArea.newWithTag]
        omega
      · exact hPlaced.bound hEntry
    · intro entry hEntry hUser
      rcases hMem hEntry with rfl | hEntry
      · simp only [VirtualMemoryArea.newWithTag] at hUser ⊢
        have hStart := hBound.2 hUser
        simp only [USER_SPACE_PAGE, Page.containingAddress, USER_SPACE_START, PAGE_SIZE]
        omega
      · exact hPlaced.user hEntry hUser

/-- A stored area has the requested number of pages. -/
theorem allocVma_range {profile : BuildProfile} {startPage : Option Nat} {numPages : Nat}
    {tag : List UInt8}
    (h : self.allocVma profile startPage numPages space typ tag = .ok (some vma, later)) :
    Page.add profile vma.range.start numPages = .ok vma.range.stop := by
  rcases allocVma_cases h with ⟨hNone, -⟩ | ⟨firstPage, -, hAt⟩
  · cases hNone
  rcases allocAt_cases hAt with ⟨hNone, -⟩ | ⟨endPage, hEnd, -, -, -, hResult⟩
  · cases hNone
  · obtain rfl := Option.some.inj hResult
    exact hEnd

/-- Only an empty area gives way to a new one. -/
theorem Stored.key_ne (h : Stored self space typ vma later) (hPlaced : Placed self)
    {entry : Nat × VirtualMemoryArea} (hMem : entry ∈ self.virtualMemoryAreas.entries) {page : Nat}
    (hPage : page ∈ entry.2.pages) : entry.1 ≠ vma.start := by
  intro hKey
  have hFree := h.free
  unfold previousOverlaps at hFree
  cases hLast : self.virtualMemoryAreas.lastAtMost vma.start with
  | none =>
    exact absurd (SortedMap.lastAtMost_none hLast entry hMem) (by simp [hKey])
  | some previous =>
    obtain ⟨hPrevious, hLe, hGreatest⟩ := SortedMap.lastAtMost_some hLast
    have hSame : entry = previous := self.virtualMemoryAreas.eq_of_key_eq hMem hPrevious
      (Nat.le_antisymm (hGreatest entry hMem (Nat.le_of_eq hKey)) (hKey ▸ hLe))
    have hStop : entry.2.stop ≤ entry.2.start := by
      rw [← hPlaced.key hMem, hKey]
      simpa [hLast, ← hSame] using hFree
    have hFirst := hPage.1
    have hBefore := hPage.2
    simp only [VirtualMemoryArea.start, VirtualMemoryArea.stop, Page.startAddress, PAGE_SIZE]
      at hStop
    omega

end D3OS.Memory.VirtualAddressSpace
