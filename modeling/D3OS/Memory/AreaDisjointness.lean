import D3OS.Memory.AddressSpace
import Mathlib.Logic.Relation

/-! When the areas of an address space stay disjoint. `alloc_at` looks at the
closest area below the new one only. An area above it that starts inside the
new range is not seen, and an empty area at the same address is overwritten.
Runs in which neither occurs keep all non-empty areas disjoint. -/
namespace D3OS.Memory.VirtualAddressSpace

open Outcome

structure AllocCall where
  startPage : Option Nat
  numPages : Nat
  space : MemorySpace
  typ : VmaType
  tag : List UInt8
  deriving DecidableEq, Repr

def AllocCall.run (profile : BuildProfile) (call : AllocCall) (self : VirtualAddressSpace) :
    Except Panic (Option VirtualMemoryArea × VirtualAddressSpace) :=
  self.allocVma profile call.startPage call.numPages call.space call.typ call.tag

/-- All non-empty areas are pairwise disjoint as sets of pages. -/
def AreasDisjoint (self : VirtualAddressSpace) : Prop :=
  ∀ a ∈ self.virtualMemoryAreas.entries, ∀ b ∈ self.virtualMemoryAreas.entries, a ≠ b →
    a.2.range.start < a.2.range.stop → b.2.range.start < b.2.range.stop →
      Disjoint a.2.pages b.2.pages

/-- Every area stored in `self` is still stored in `later`. -/
def KeptIn (self later : VirtualAddressSpace) : Prop :=
  ∀ entry ∈ self.virtualMemoryAreas.entries, entry ∈ later.virtualMemoryAreas.entries

/-- Areas stand under their own start address, none is reversed, and each
ends at or below the start of every later one, empty areas included. -/
structure Ordered (addressSpace : VirtualAddressSpace) : Prop where
  first : addressSpace.firstUsableUserAddr = USER_SPACE_START
  key : ∀ entry ∈ addressSpace.virtualMemoryAreas.entries, entry.1 = entry.2.start
  forward : ∀ entry ∈ addressSpace.virtualMemoryAreas.entries, entry.2.start ≤ entry.2.stop
  apart : ∀ a ∈ addressSpace.virtualMemoryAreas.entries, ∀ b ∈ addressSpace.virtualMemoryAreas.entries,
    a.1 < b.1 → a.2.stop ≤ b.1

variable {self later : VirtualAddressSpace} {profile : BuildProfile}

theorem Ordered.areasDisjoint (h : Ordered self) : AreasDisjoint self := by
  intro a ha b hb hNe _ _
  have hKeyA := h.key a ha
  have hKeyB := h.key b hb
  have hOrder : a.2.stop ≤ b.2.start ∨ b.2.stop ≤ a.2.start := by
    rcases lt_trichotomy a.1 b.1 with hLt | hEq | hGt
    · exact Or.inl (hKeyB ▸ h.apart a ha b hb hLt)
    · exact absurd (self.virtualMemoryAreas.eq_of_key_eq ha hb hEq) hNe
    · exact Or.inr (hKeyA ▸ h.apart b hb a ha hGt)
  rw [Set.disjoint_left]
  intro page hPageA hPageB
  have hA := hPageA.2
  have hA' := hPageA.1
  have hB := hPageB.2
  have hB' := hPageB.1
  simp only [VirtualMemoryArea.stop, VirtualMemoryArea.start, Page.startAddress, PAGE_SIZE] at hOrder
  omega

theorem new_ordered {pageTables : Paging} {virtualBits : Nat}
    (h : new pageTables virtualBits = .ok self) : Ordered self := by
  obtain ⟨first, hFirst, h⟩ := bind_ok h
  obtain ⟨last, -, h⟩ := bind_ok h
  have hStart : first = USER_SPACE_START := by
    have : VirtAddr.new USER_SPACE_START = .ok USER_SPACE_START := rfl
    rw [this] at hFirst
    simpa [eq_comm] using hFirst
  obtain rfl := pure_ok h
  exact ⟨hStart, by simp [SortedMap.empty], by simp [SortedMap.empty], by simp [SortedMap.empty]⟩

/-- An area that lies strictly between its neighbours can be stored without
disturbing any other. -/
theorem Ordered.store {vma : VirtualMemoryArea} (h : Ordered self) (hForward : vma.start ≤ vma.stop)
    (hBetween : ∀ entry ∈ self.virtualMemoryAreas.entries,
      (entry.1 < vma.start ∧ entry.2.stop ≤ vma.start) ∨ (vma.start < entry.1 ∧ vma.stop ≤ entry.1)) :
    Ordered (self.store vma) ∧ KeptIn self (self.store vma) := by
  have hMem : ∀ entry, entry ∈ (self.store vma).virtualMemoryAreas.entries ↔
      entry = (vma.start, vma) ∨ entry ∈ self.virtualMemoryAreas.entries := by
    intro entry
    rw [VirtualAddressSpace.store, SortedMap.mem_insert]
    refine or_congr_right ⟨And.left, fun hEntry => ⟨hEntry, ?_⟩⟩
    rcases hBetween entry hEntry with hBelow | hAbove
    · exact hBelow.1.ne
    · exact hAbove.1.ne'
  refine ⟨⟨h.first, ?_, ?_, ?_⟩, fun entry hEntry => (hMem entry).mpr (Or.inr hEntry)⟩
  · intro entry hEntry
    rcases (hMem entry).mp hEntry with rfl | hEntry
    · rfl
    · exact h.key entry hEntry
  · intro entry hEntry
    rcases (hMem entry).mp hEntry with rfl | hEntry
    · exact hForward
    · exact h.forward entry hEntry
  · intro a ha b hb hLt
    rcases (hMem a).mp ha with rfl | ha <;> rcases (hMem b).mp hb with rfl | hb
    · exact absurd hLt (lt_irrefl _)
    · rcases hBetween b hb with hBelow | hAbove
      · exact absurd hLt (not_lt_of_gt hBelow.1)
      · exact hAbove.2
    · rcases hBetween a ha with hBelow | hAbove
      · exact hBelow.2
      · exact absurd hLt (not_lt_of_gt hAbove.1)
    · exact h.apart a ha b hb hLt

/-- What the check against the previous area establishes. -/
theorem Ordered.stop_le_of_not_previousOverlaps (h : Ordered self) {addr : Nat}
    (hPrevious : self.previousOverlaps addr = false) :
    ∀ entry ∈ self.virtualMemoryAreas.entries, entry.1 ≤ addr → entry.2.stop ≤ addr := by
  intro entry hEntry hBelow
  unfold previousOverlaps at hPrevious
  split at hPrevious
  · rename_i key prev hLast
    obtain ⟨hPrev, -, hGreatest⟩ := SortedMap.lastAtMost_some hLast
    have hPrevStop : prev.stop ≤ addr := by simpa using hPrevious
    rcases (hGreatest entry hEntry hBelow).lt_or_eq with hLt | hEq
    · have hGap := h.apart entry hEntry _ hPrev hLt
      have hKey := h.key _ hPrev
      have hForward := h.forward _ hPrev
      simp only at hGap hKey hForward
      omega
    · rwa [self.virtualMemoryAreas.eq_of_key_eq hEntry hPrev hEq]
  · rename_i hLast
    exact absurd (SortedMap.lastAtMost_none hLast entry hEntry) (not_lt_of_ge hBelow)

/-- No area starts strictly inside the new range, and none that starts where
it starts is empty: then `alloc_at` keeps the areas ordered. -/
theorem Ordered.allocAt {firstPage numPages : Nat} {space : MemorySpace} {typ : VmaType}
    {tag : List UInt8} {result : Option VirtualMemoryArea} (hOrdered : Ordered self)
    (hInside : ∀ entry ∈ self.virtualMemoryAreas.entries, ∀ endPage,
      Page.add profile firstPage numPages = .ok endPage →
        Page.startAddress firstPage < entry.1 → Page.startAddress endPage ≤ entry.1)
    (hSame : ∀ entry ∈ self.virtualMemoryAreas.entries, entry.1 = Page.startAddress firstPage →
      entry.2.range.start < entry.2.range.stop)
    (h : self.allocAt profile firstPage numPages space typ tag = .ok (result, later)) :
    Ordered later ∧ KeptIn self later := by
  rcases allocAt_cases h with ⟨-, rfl⟩ | ⟨endPage, hEnd, -, hPrevious, rfl, -⟩
  · exact ⟨hOrdered, fun _ hEntry => hEntry⟩
  · obtain ⟨offset, -, hStop⟩ := Page.startAddress_of_add hEnd
    apply hOrdered.store
    · simp only [VirtualMemoryArea.start, VirtualMemoryArea.stop, VirtualMemoryArea.newWithTag]
      omega
    · intro entry hEntry
      change (entry.1 < Page.startAddress firstPage ∧ _ ≤ Page.startAddress firstPage) ∨
        (Page.startAddress firstPage < entry.1 ∧ Page.startAddress endPage ≤ entry.1)
      rcases lt_or_ge (Page.startAddress firstPage) entry.1 with hAbove | hBelow
      · exact Or.inr ⟨hAbove, hInside entry hEntry endPage hEnd hAbove⟩
      · have hEntryStop := hOrdered.stop_le_of_not_previousOverlaps hPrevious entry hEntry hBelow
        refine Or.inl ⟨lt_of_le_of_ne hBelow fun hEq => ?_, hEntryStop⟩
        have hNonempty := hSame entry hEntry hEq
        have hKey := hOrdered.key entry hEntry
        simp only [VirtualMemoryArea.start, VirtualMemoryArea.stop, Page.startAddress,
          PAGE_SIZE] at hEntryStop hKey hEq
        omega

/-- The search loop ends at a page boundary at or above its start. A gap it
reports lies between the areas; without one, everything in the range starts
at or below the end position, unless that lies behind the range. -/
theorem findGap_ok {size stop current position : Nat} {found : Bool}
    {areas : List (Nat × VirtualMemoryArea)}
    (hKey : ∀ entry ∈ areas, entry.1 = entry.2.start)
    (hForward : ∀ entry ∈ areas, entry.2.start ≤ entry.2.stop)
    (hApart : areas.Pairwise (fun a b => a.2.stop ≤ b.1))
    (hCurrent : ∀ entry ∈ areas, current ≤ entry.1) (hAligned : current % PAGE_SIZE = 0)
    (h : findGap size stop current areas = .ok (position, found)) :
    current ≤ position ∧ position % PAGE_SIZE = 0 ∧
    (found = true → position + size ≤ stop ∧
      ∀ entry ∈ areas, entry.1 ≤ position ∨ position + size ≤ entry.1) ∧
    (found = false → stop < position ∨ ∀ entry ∈ areas, entry.1 ≤ position) := by
  induction areas generalizing current with
  | nil =>
    obtain ⟨rfl, rfl⟩ : current = position ∧ false = found := by simpa [findGap] using h
    exact ⟨le_rfl, hAligned, by simp, by simp⟩
  | cons head rest ih =>
    obtain ⟨key, vma⟩ := head
    obtain ⟨hAfter, hRest⟩ := List.pairwise_cons.mp hApart
    replace hAfter : ∀ entry ∈ rest, vma.stop ≤ entry.1 := hAfter
    have hHeadKey := hKey (key, vma) (by simp)
    have hHeadForward := hForward (key, vma) (by simp)
    have hHeadCurrent := hCurrent (key, vma) (by simp)
    simp only at hHeadKey hHeadForward hHeadCurrent
    obtain ⟨reach, hReach, h⟩ := bind_ok h
    obtain rfl := VirtAddr.add_ok hReach
    split at h
    · rename_i hGap
      obtain ⟨rfl, rfl⟩ : current = position ∧ true = found := by simpa using h
      refine ⟨le_rfl, hAligned, fun _ => ⟨hGap.1.trans hGap.2, ?_⟩, by simp⟩
      intro entry hEntry
      rcases List.mem_cons.mp hEntry with rfl | hEntry
      · exact Or.inr (hHeadKey ▸ hGap.1)
      · have hEntryAfter := hAfter entry hEntry
        exact Or.inr (by omega)
    · have hStopAligned : vma.stop % PAGE_SIZE = 0 := by
        simp [VirtualMemoryArea.stop, Page.startAddress]
      split at h
      · rename_i hBehind
        obtain ⟨rfl, rfl⟩ : vma.stop = position ∧ false = found := by simpa using h
        exact ⟨by omega, hStopAligned, by simp, fun _ => Or.inl hBehind⟩
      · obtain ⟨hLe, hPosition, hFound, hNotFound⟩ := ih
          (fun entry hEntry => hKey entry (List.mem_cons_of_mem _ hEntry))
          (fun entry hEntry => hForward entry (List.mem_cons_of_mem _ hEntry)) hRest
          hAfter hStopAligned h
        refine ⟨by omega, hPosition, fun hf => ⟨(hFound hf).1, ?_⟩, fun hf => ?_⟩
        · grind
        · grind

theorem areasIn_ok {first stop : Nat} {areas : List (Nat × VirtualMemoryArea)}
    (h : self.areasIn first stop = .ok areas) :
    areas = self.virtualMemoryAreas.range first stop := by
  unfold areasIn at h
  obtain ⟨-, h⟩ := ite_error_ok h
  simpa [eq_comm] using h

/-- The place `alloc` hands to `alloc_at` lies in the search range, and no
area that is stored begins inside the new one. -/
theorem Ordered.alloc_cases {numPages : Nat} {space : MemorySpace} {typ : VmaType}
    {tag : List UInt8} {result : Option VirtualMemoryArea} (hOrdered : Ordered self)
    (h : self.alloc profile numPages space typ tag = .ok (result, later)) :
    later = self ∨
    ∃ firstPage, self.allocAt profile firstPage numPages space typ tag = .ok (result, later) ∧
      (self.searchRange space).1 ≤ Page.startAddress firstPage ∧
      Page.startAddress firstPage ≤ (self.searchRange space).2 ∧
      ∀ entry ∈ self.virtualMemoryAreas.entries, ∀ endPage,
        Page.add profile firstPage numPages = .ok endPage →
          Page.startAddress firstPage < entry.1 → Page.startAddress endPage ≤ entry.1 := by
  unfold alloc at h
  obtain ⟨first, stop, hRange⟩ : ∃ first stop, self.searchRange space = (first, stop) := ⟨_, _, rfl⟩
  have hAligned : first % PAGE_SIZE = 0 := by
    cases space <;> simp only [searchRange, hOrdered.first, Prod.mk.injEq] at hRange <;>
      rw [← hRange.1] <;> rfl
  rw [hRange] at h ⊢
  obtain ⟨size, hSize, h⟩ := bind_ok h
  obtain ⟨areas, hAreas, h⟩ := bind_ok h
  obtain ⟨⟨position, found⟩, hGap, h⟩ := bind_ok h
  obtain rfl := areasIn_ok hAreas
  have hMem := fun entry => @SortedMap.mem_range _ _ _ self.virtualMemoryAreas first stop entry
  obtain ⟨hFirst, hPosition, hFound, hNotFound⟩ := findGap_ok
    (fun entry hEntry => hOrdered.key entry ((hMem entry).mp hEntry).1)
    (fun entry hEntry => hOrdered.forward entry ((hMem entry).mp hEntry).1)
    ((self.virtualMemoryAreas.range_sorted first stop).imp_of_mem fun ha hb hLt =>
      hOrdered.apart _ ((hMem _).mp ha).1 _ ((hMem _).mp hb).1 hLt)
    (fun entry hEntry => ((hMem entry).mp hEntry).2.1) hAligned hGap
  have hStart := Page.startAddress_containing hPosition
  -- Both calls of `alloc_at` go to a position whose range ends within the search range.
  have hInside : position + size ≤ stop → ∀ entry ∈ self.virtualMemoryAreas.entries, ∀ endPage,
      Page.add profile (Page.containingAddress position) numPages = .ok endPage →
        position < entry.1 → Page.startAddress endPage ≤ entry.1 := by
    intro hFits entry hEntry endPage hEnd hAbove
    obtain ⟨offset, hOffset, hStop⟩ := Page.startAddress_of_add hEnd
    obtain rfl : size = offset := by simpa [hSize] using hOffset
    rw [hStop, hStart]
    by_cases hIn : entry.1 < stop
    · grind
    · omega
  have hOutcome : later = self ∨ (position + size ≤ stop ∧
      self.allocAt profile (Page.containingAddress position) numPages space typ tag =
        .ok (result, later)) := by
    cases found with
    | true => exact Or.inr ⟨(hFound rfl).1, h⟩
    | false =>
      obtain ⟨reach, hReach, h⟩ := bind_ok h
      obtain rfl := VirtAddr.add_ok hReach
      split at h
      · exact Or.inr ⟨‹_›, h⟩
      · simp only [pure_ok_iff, Prod.mk.injEq] at h
        exact Or.inl h.2.symm
  rcases hOutcome with hSame | ⟨hFits, hAlloc⟩
  · exact Or.inl hSame
  · grind

/-- The calls whose outcome the check against the previous area gets right. At
a fixed address, no area begins inside the requested range and none that
begins at the same page is empty; for a search, the search range has no empty
areas. -/
def AllocCall.Clear (profile : BuildProfile) (self : VirtualAddressSpace) (call : AllocCall) : Prop :=
  match call.startPage with
  | some startPage => ∀ entry ∈ self.virtualMemoryAreas.entries,
      (∀ endPage, Page.add profile startPage call.numPages = .ok endPage →
        ¬(Page.startAddress startPage < entry.1 ∧ entry.1 < Page.startAddress endPage)) ∧
      (entry.1 = Page.startAddress startPage → entry.2.range.start < entry.2.range.stop)
  | none => ∀ entry ∈ self.virtualMemoryAreas.entries,
      (self.searchRange call.space).1 ≤ entry.1 → entry.1 ≤ (self.searchRange call.space).2 →
        entry.2.range.start < entry.2.range.stop

theorem Ordered.run {profile : BuildProfile} {self later : VirtualAddressSpace} {call : AllocCall}
    {result : Option VirtualMemoryArea} (hOrdered : Ordered self)
    (hClear : call.Clear profile self) (h : call.run profile self = .ok (result, later)) :
    Ordered later ∧ KeptIn self later := by
  obtain ⟨startPage, numPages, space, typ, tag⟩ := call
  cases startPage with
  | some startPage =>
    refine hOrdered.allocAt (fun entry hEntry endPage hEnd hAbove => ?_)
      (fun entry hEntry => (hClear entry hEntry).2) h
    exact not_lt.mp fun hInside => (hClear entry hEntry).1 endPage hEnd ⟨hAbove, hInside⟩
  | none =>
    rcases hOrdered.alloc_cases h with rfl | ⟨firstPage, hAlloc, hFirst, hStop, hInside⟩
    · exact ⟨hOrdered, fun _ hEntry => hEntry⟩
    · refine hOrdered.allocAt hInside (fun entry hEntry hEq => ?_) hAlloc
      exact hClear entry hEntry (hEq ▸ hFirst) (hEq ▸ hStop)

/-- One returning call of `alloc_vma`. -/
def Allocates (profile : BuildProfile) (self later : VirtualAddressSpace) : Prop :=
  ∃ (call : AllocCall) (result : Option VirtualMemoryArea), call.run profile self = .ok (result, later)

/-- One returning call of `alloc_vma` that is clear of the areas above it. -/
def AllocatesClear (profile : BuildProfile) (self later : VirtualAddressSpace) : Prop :=
  ∃ (call : AllocCall) (result : Option VirtualMemoryArea),
    call.Clear profile self ∧ call.run profile self = .ok (result, later)

theorem Ordered.runs (hOrdered : Ordered self)
    (h : Relation.ReflTransGen (AllocatesClear profile) self later) :
    Ordered later ∧ KeptIn self later := by
  induction h with
  | refl => exact ⟨hOrdered, fun _ hEntry => hEntry⟩
  | tail _ hStep ih =>
    obtain ⟨call, result, hClear, hRun⟩ := hStep
    obtain ⟨hLater, hKept⟩ := ih.1.run hClear hRun
    exact ⟨hLater, fun entry hEntry => hKept entry (ih.2 entry hEntry)⟩

/-- In every run of calls that are clear of the areas above them, the areas of
a fresh address space stay disjoint and no area is ever replaced. -/
theorem areas_disjoint_of_clear {profile : BuildProfile} {pageTables : Paging} {virtualBits : Nat}
    {fresh middle later : VirtualAddressSpace} (hNew : new pageTables virtualBits = .ok fresh)
    (hMiddle : Relation.ReflTransGen (AllocatesClear profile) fresh middle)
    (hLater : Relation.ReflTransGen (AllocatesClear profile) middle later) :
    AreasDisjoint later ∧ KeptIn middle later := by
  have hOrdered := ((new_ordered hNew).runs hMiddle).1
  obtain ⟨hOrderedLater, hKept⟩ := hOrdered.runs hLater
  exact ⟨hOrderedLater.areasDisjoint, hKept⟩

theorem areasDisjoint_of_singleton {entry : Nat × VirtualMemoryArea}
    (h : self.virtualMemoryAreas.entries = [entry]) : self.AreasDisjoint := by
  intro a ha b hb hNe
  rw [h, List.mem_singleton] at ha hb
  exact absurd (ha.trans hb.symm) hNe

def firstUserPage : Nat := Page.containingAddress USER_SPACE_START

def freshSpace : VirtualAddressSpace :=
  ⟨SortedMap.empty, ⟨1, 4⟩, USER_SPACE_START, lastUsableVirtualAddress 48⟩

/-- A user heap of the given number of pages, `offset` pages into user space. -/
def heapArea (offset numPages : Nat) : VirtualMemoryArea :=
  .newWithTag .user ⟨firstUserPage + offset, firstUserPage + offset + numPages⟩ .heap []

def heapCall (offset numPages : Nat) : AllocCall :=
  ⟨some (firstUserPage + offset), numPages, .user, .heap, []⟩

/-- Two heaps at fixed addresses, the second one below the first: both calls
succeed although the second range runs into the first. A non-empty heap at
the page of an empty one takes its place. -/
theorem areas_overlap :
    new ⟨1, 4⟩ 48 = .ok freshSpace ∧
    (∃ later, Relation.ReflTransGen (Allocates .development) freshSpace later ∧
      ¬AreasDisjoint later) ∧
    ∃ middle later, Relation.ReflTransGen (Allocates .development) freshSpace middle ∧
      Relation.ReflTransGen (Allocates .development) middle later ∧ ¬KeptIn middle later := by
  refine ⟨by decide +kernel, ⟨(freshSpace.store (heapArea 16 16)).store (heapArea 8 16), ?_, ?_⟩,
    freshSpace.store (heapArea 8 0), (freshSpace.store (heapArea 8 0)).store (heapArea 8 4),
    ?_, ?_, ?_⟩
  · have hFirst : Allocates .development freshSpace (freshSpace.store (heapArea 16 16)) :=
      ⟨heapCall 16 16, some (heapArea 16 16), by decide +kernel⟩
    have hSecond : Allocates .development (freshSpace.store (heapArea 16 16))
        ((freshSpace.store (heapArea 16 16)).store (heapArea 8 16)) :=
      ⟨heapCall 8 16, some (heapArea 8 16), by decide +kernel⟩
    exact (Relation.ReflTransGen.single hFirst).tail hSecond
  · intro hDisjoint
    have hHeaps := hDisjoint ((heapArea 16 16).start, heapArea 16 16) (by decide +kernel)
      ((heapArea 8 16).start, heapArea 8 16) (by decide +kernel) (by decide +kernel)
      (by decide +kernel) (by decide +kernel)
    exact Set.disjoint_left.mp hHeaps (show firstUserPage + 16 ∈ _ by constructor <;> decide +kernel)
      (by constructor <;> decide +kernel)
  · exact .single ⟨heapCall 8 0, some (heapArea 8 0), by decide +kernel⟩
  · exact .single ⟨heapCall 8 4, some (heapArea 8 4), by decide +kernel⟩
  · intro hKept
    have hEmpty := hKept ((heapArea 8 0).start, heapArea 8 0) (by decide +kernel)
    exact absurd hEmpty (by decide +kernel)

/-- A heap at a fixed page, and an area that the search puts in front of it. -/
theorem areas_disjoint_of_clear_search :
    AreasDisjoint ((freshSpace.store (heapArea 16 16)).store (heapArea 0 16)) ∧
    KeptIn (freshSpace.store (heapArea 16 16))
      ((freshSpace.store (heapArea 16 16)).store (heapArea 0 16)) := by
  have hFixed : AllocatesClear .development freshSpace (freshSpace.store (heapArea 16 16)) :=
    ⟨heapCall 16 16, some (heapArea 16 16), fun _ hEntry => absurd hEntry List.not_mem_nil,
      by decide +kernel⟩
  have hSearch : AllocatesClear .development (freshSpace.store (heapArea 16 16))
      ((freshSpace.store (heapArea 16 16)).store (heapArea 0 16)) := by
    refine ⟨⟨none, 16, .user, .heap, []⟩, some (heapArea 0 16), ?_, by decide +kernel⟩
    intro entry hEntry _ _
    obtain rfl : entry = ((heapArea 16 16).start, heapArea 16 16) := List.mem_singleton.mp hEntry
    decide +kernel
  exact areas_disjoint_of_clear (show new ⟨1, 4⟩ 48 = .ok freshSpace by decide +kernel)
    (.single hFixed) (.single hSearch)

end D3OS.Memory.VirtualAddressSpace
