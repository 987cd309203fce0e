import D3OS.Library.Spans
import D3OS.Memory.AreaBounds
import D3OS.Memory.AreaDisjointness
import Mathlib.Order.Bounds.Basic

/-! The gap search of `alloc` in user space. The loop visits the first usable
address and then the end of each area that begins in the search range, and
takes the first of these positions with enough room. An area that begins below
the search range is not visited, although it may reach into the range: the
position in front of the first visited area is then refused by `alloc_at`, and
the search is over. The end of the candidate is computed before it is compared,
so a request that fits nowhere can leave the canonical addresses instead of
being declined. -/
namespace D3OS.Memory.VirtualAddressSpace

open Outcome

/-- `numPages` pages from `page` on lie between the usable addresses and meet
no stored area. -/
def FitsAt (self : VirtualAddressSpace) (numPages page : Nat) : Prop :=
  self.firstUsableUserAddr ≤ Page.startAddress page ∧
  Page.startAddress (page + numPages) ≤ self.lastUsableUserAddr ∧
  ∀ entry ∈ self.virtualMemoryAreas.entries,
    entry.2.range.stop ≤ page ∨ page + numPages ≤ entry.2.range.start

instance (self : VirtualAddressSpace) (numPages page : Nat) : Decidable (self.FitsAt numPages page) :=
  inferInstanceAs (Decidable (_ ∧ _ ∧ ∀ _ ∈ _, _))

/-- The search returns: an area at the lowest page where it fits, or nothing
because it fits nowhere, with all areas as before. -/
def FirstFit (profile : BuildProfile) (self : VirtualAddressSpace) (numPages : Nat)
    (typ : VmaType) (tag : List UInt8) : Prop :=
  (∃ page, IsLeast {page | self.FitsAt numPages page} page ∧
    self.allocVma profile none numPages .user typ tag =
      .ok (some (.newWithTag .user ⟨page, page + numPages⟩ typ tag),
        self.store (.newWithTag .user ⟨page, page + numPages⟩ typ tag))) ∨
  (¬∃ page, self.FitsAt numPages page) ∧
    self.allocVma profile none numPages .user typ tag = .ok (none, self)

/-- An area reaches over the first usable address, and going by the areas that
begin behind this address alone, the pages would fit there. -/
def HeadBlocked (self : VirtualAddressSpace) (numPages : Nat) : Prop :=
  (∃ entry ∈ self.virtualMemoryAreas.entries, entry.2.start ≤ self.firstUsableUserAddr ∧
    self.firstUsableUserAddr < entry.2.stop) ∧
  self.firstUsableUserAddr + PAGE_SIZE * numPages ≤ self.lastUsableUserAddr ∧
  ∀ entry ∈ self.virtualMemoryAreas.entries, self.firstUsableUserAddr ≤ entry.2.start →
    self.firstUsableUserAddr + PAGE_SIZE * numPages ≤ entry.2.start

instance (self : VirtualAddressSpace) (numPages : Nat) : Decidable (self.HeadBlocked numPages) :=
  inferInstanceAs (Decidable ((∃ _ ∈ _, _) ∧ _ ∧ ∀ _ ∈ _, _))

/-- The pages end at a canonical address from the first usable address on and
from the end of every area that begins in the search range. -/
def EndsCanonical (self : VirtualAddressSpace) (numPages : Nat) : Prop :=
  Canonical (self.firstUsableUserAddr + PAGE_SIZE * numPages) ∧
  ∀ entry ∈ self.virtualMemoryAreas.entries, self.firstUsableUserAddr ≤ entry.2.start →
    entry.2.start < self.lastUsableUserAddr → Canonical (entry.2.stop + PAGE_SIZE * numPages)

/-- The requests the search answers correctly. The search range is not
reversed, the size of the request does not overflow with checks on, and a
request that fits nowhere ends at a canonical address from everywhere. The
area over the first usable address is not in the way; a request whose size
wraps around, on the other hand, must find nothing. -/
structure Searchable (profile : BuildProfile) (space : VirtualAddressSpace) (numPages : Nat) :
    Prop where
  range : space.firstUsableUserAddr ≤ space.lastUsableUserAddr
  size : profile = .development → numPages < 2 ^ 52
  ends : (∃ page, space.FitsAt (numPages % 2 ^ 52) page) ∨ space.HeadBlocked (numPages % 2 ^ 52) ∨
    space.EndsCanonical (numPages % 2 ^ 52)
  head : numPages < 2 ^ 52 → (∃ page, space.FitsAt numPages page) → ¬space.HeadBlocked numPages
  wrapped : 2 ^ 52 ≤ numPages → (∃ page, space.FitsAt (numPages % 2 ^ 52) page) →
    space.HeadBlocked (numPages % 2 ^ 52)

/-! ### The loop over the areas of the range -/

/-- The `size` bytes from `addr` on meet none of these areas. -/
def ClearOf (areas : List (Nat × VirtualMemoryArea)) (size addr : Nat) : Prop :=
  ∀ entry ∈ areas, entry.2.stop ≤ addr ∨ addr + size ≤ entry.2.start

/-- The areas follow each other between `current` and `stop`, and none is
empty. -/
structure Spread (current stop : Nat) (areas : List (Nat × VirtualMemoryArea)) : Prop where
  above : ∀ entry ∈ areas, current ≤ entry.2.start
  below : ∀ entry ∈ areas, entry.2.start < stop
  nonempty : ∀ entry ∈ areas, entry.2.start < entry.2.stop
  apart : areas.Pairwise (fun a b => a.2.stop ≤ b.2.start)

/-- The search up to the decision whether there is a candidate. -/
def searchGap (size stop current : Nat) (areas : List (Nat × VirtualMemoryArea)) :
    Except Panic (Option Nat) := do
  let (current, found) ← findGap size stop current areas
  if found then return some current
  else
    let reach ← VirtAddr.add current size
    if reach ≤ stop then return some current else return none

theorem searchGap_nil {size stop current : Nat} (hCanonical : Canonical (current + size)) :
    searchGap size stop current [] =
      .ok (if current + size ≤ stop then some current else none) := by
  unfold searchGap findGap
  simp only [bind_of_ok, Bool.false_eq_true, if_false, VirtAddr.add_of_canonical hCanonical]
  by_cases hFits : current + size ≤ stop
  · rw [if_pos hFits, if_pos hFits]
    rfl
  · rw [if_neg hFits, if_neg hFits]
    rfl

theorem searchGap_cons {size stop current key : Nat} {vma : VirtualMemoryArea}
    {rest : List (Nat × VirtualMemoryArea)} (hCanonical : Canonical (current + size)) :
    searchGap size stop current ((key, vma) :: rest) =
      if current + size ≤ vma.start ∧ vma.start ≤ stop then .ok (some current)
      else searchGap size stop vma.stop (if vma.stop > stop then [] else rest) := by
  have hHead : findGap size stop current ((key, vma) :: rest) =
      if current + size ≤ vma.start ∧ vma.start ≤ stop then .ok (current, true)
      else findGap size stop vma.stop (if vma.stop > stop then [] else rest) := by
    rw [findGap, VirtAddr.add_of_canonical hCanonical, bind_of_ok]
    by_cases hFits : current + size ≤ vma.start ∧ vma.start ≤ stop
    · rw [if_pos hFits, if_pos hFits]
      rfl
    · rw [if_neg hFits, if_neg hFits]
      by_cases hBehind : vma.stop > stop
      · rw [if_pos hBehind, if_pos hBehind]
        rfl
      · rw [if_neg hBehind, if_neg hBehind]
  unfold searchGap
  rw [hHead]
  by_cases hFits : current + size ≤ vma.start ∧ vma.start ≤ stop
  · rw [if_pos hFits, if_pos hFits]
    rfl
  · rw [if_neg hFits, if_neg hFits]

theorem searchGap_error {size stop current : Nat} {areas : List (Nat × VirtualMemoryArea)}
    (hCanonical : ¬Canonical (current + size)) :
    ∃ panic, searchGap size stop current areas = .error panic := by
  obtain ⟨panic, hAdd⟩ := VirtAddr.add_of_not_canonical hCanonical
  refine ⟨panic, ?_⟩
  cases areas with
  | nil =>
    unfold searchGap findGap
    simp only [bind_of_ok, Bool.false_eq_true, if_false, hAdd]
    rfl
  | cons head rest =>
    obtain ⟨key, vma⟩ := head
    unfold searchGap findGap
    rw [hAdd]
    rfl

section Loop

variable {size stop current key : Nat} {vma : VirtualMemoryArea}
  {areas rest : List (Nat × VirtualMemoryArea)}

section

variable (h : Spread current stop ((key, vma) :: rest))

include h

theorem Spread.tail : Spread vma.stop stop rest := by
  obtain ⟨hAfter, hRest⟩ := List.pairwise_cons.mp h.apart
  exact ⟨hAfter, fun entry hEntry => h.below entry (List.mem_cons_of_mem _ hEntry),
    fun entry hEntry => h.nonempty entry (List.mem_cons_of_mem _ hEntry), hRest⟩

/-- The area that ends behind the range is the last one of it. -/
theorem Spread.rest_eq : (if vma.stop > stop then [] else rest) = rest := by
  split
  case isFalse => rfl
  case isTrue hBehind =>
    cases rest with
    | nil => rfl
    | cons next rest =>
      have hNext := h.tail.above next (by simp)
      have hBelow := h.tail.below next (by simp)
      omega

theorem Spread.clear_of_fits (hFits : current + size ≤ vma.start)
    : ClearOf ((key, vma) :: rest) size current := by
  intro entry hEntry
  right
  rcases List.mem_cons.mp hEntry with rfl | hEntry
  · exact hFits
  · have hNonempty := h.nonempty (key, vma) (by simp)
    have hAfter := h.tail.above entry hEntry
    simp only at hNonempty
    omega

/-- Where the room in front of an area is too small, the clear positions are
those behind it. -/
theorem Spread.clear_cons_iff (hShort : ¬current + size ≤ vma.start) (addr : Nat) :
    current ≤ addr ∧ ClearOf ((key, vma) :: rest) size addr ↔
      vma.stop ≤ addr ∧ ClearOf rest size addr := by
  have hAbove := h.above (key, vma) (by simp)
  have hNonempty := h.nonempty (key, vma) (by simp)
  simp only at hAbove hNonempty
  constructor
  · rintro ⟨hCurrent, hClear⟩
    have hHead := hClear (key, vma) (by simp)
    simp only at hHead
    exact ⟨by omega, fun entry hEntry => hClear entry (List.mem_cons_of_mem _ hEntry)⟩
  · rintro ⟨hStop, hClear⟩
    refine ⟨by omega, fun entry hEntry => ?_⟩
    rcases List.mem_cons.mp hEntry with rfl | hEntry
    · exact Or.inl hStop
    · exact hClear entry hEntry

end

/-- If some position in the range is clear, the search ends at the lowest one. -/
theorem searchGap_of_clear (hSpread : Spread current stop areas) (hStop : stop < 2 ^ 47)
    {addr : Nat} (hCurrent : current ≤ addr) (hClear : ClearOf areas size addr)
    (hFits : addr + size ≤ stop) :
    ∃ position, searchGap size stop current areas = .ok (some position) ∧
      IsLeast {addr | current ≤ addr ∧ ClearOf areas size addr} position := by
  have hCanonical : Canonical (current + size) := Or.inl (by omega)
  induction areas generalizing current with
  | nil =>
    refine ⟨current, ?_, ⟨le_rfl, by simp [ClearOf]⟩, fun _ hAddr => hAddr.1⟩
    rw [searchGap_nil hCanonical, if_pos (by omega)]
  | cons head rest ih =>
    obtain ⟨key, vma⟩ := head
    rw [searchGap_cons hCanonical, hSpread.rest_eq]
    by_cases hRoom : current + size ≤ vma.start
    · have hBelow := hSpread.below (key, vma) (by simp)
      simp only at hBelow
      rw [if_pos ⟨hRoom, by omega⟩]
      exact ⟨current, rfl, ⟨le_rfl, hSpread.clear_of_fits hRoom⟩, fun _ hAddr => hAddr.1⟩
    · rw [if_neg fun h => hRoom h.1]
      obtain ⟨hBehind, hClearRest⟩ := (hSpread.clear_cons_iff hRoom addr).mp ⟨hCurrent, hClear⟩
      have hRest := ih hSpread.tail hBehind hClearRest (Or.inl (by omega))
      simpa only [hSpread.clear_cons_iff hRoom] using hRest

/-- If no position in the range is clear, every position is tried. -/
theorem searchGap_of_not_clear (hSpread : Spread current stop areas)
    (hNone : ∀ addr, current ≤ addr → ClearOf areas size addr → stop < addr + size) :
    if Canonical (current + size) ∧ ∀ entry ∈ areas, Canonical (entry.2.stop + size) then
      searchGap size stop current areas = .ok none
    else ∃ panic, searchGap size stop current areas = .error panic := by
  by_cases hCanonical : Canonical (current + size)
  case neg =>
    rw [if_neg fun h => hCanonical h.1]
    exact searchGap_error hCanonical
  induction areas generalizing current with
  | nil =>
    have hFull := hNone current le_rfl (by simp [ClearOf])
    rw [if_pos ⟨hCanonical, by simp⟩, searchGap_nil hCanonical, if_neg (by omega)]
  | cons head rest ih =>
    obtain ⟨key, vma⟩ := head
    have hRoom : ¬current + size ≤ vma.start := by
      intro hRoom
      have hFull := hNone current le_rfl (hSpread.clear_of_fits hRoom)
      have hBelow := hSpread.below (key, vma) (by simp)
      simp only at hBelow
      omega
    have hNoneRest : ∀ addr, vma.stop ≤ addr → ClearOf rest size addr → stop < addr + size := by
      intro addr hBehind hClear
      obtain ⟨hCurrent, hClear⟩ := (hSpread.clear_cons_iff hRoom addr).mpr ⟨hBehind, hClear⟩
      exact hNone addr hCurrent hClear
    have hSearch : searchGap size stop current ((key, vma) :: rest) =
        searchGap size stop vma.stop rest := by
      rw [searchGap_cons hCanonical, hSpread.rest_eq, if_neg fun h => hRoom h.1]
    simp only [hSearch, hCanonical, true_and, List.forall_mem_cons]
    by_cases hNext : Canonical (vma.stop + size)
    · exact ih hSpread.tail hNoneRest hNext
    · rw [if_neg fun h => hNext h.1]
      exact searchGap_error hNext

end Loop

/-! ### From the range to the whole address space -/

/-- What the search needs of an address space: its areas are non-empty and
follow each other. -/
structure Tiled (space : VirtualAddressSpace) : Prop extends Placed space where
  nonempty : ∀ entry ∈ space.virtualMemoryAreas.entries, entry.2.range.start < entry.2.range.stop
  apart : ∀ a ∈ space.virtualMemoryAreas.entries, ∀ b ∈ space.virtualMemoryAreas.entries,
    a.1 < b.1 → a.2.range.stop ≤ b.2.range.start

theorem Placed.tiled {self : VirtualAddressSpace} (hPlaced : self.Placed)
    (hDisjoint : self.AreasDisjoint)
    (hNonempty : ∀ entry ∈ self.virtualMemoryAreas.entries,
      entry.2.range.start < entry.2.range.stop) : self.Tiled := by
  refine ⟨hPlaced, hNonempty, fun a ha b hb hLt => ?_⟩
  have hNe : a ≠ b := by
    rintro rfl
    exact absurd hLt (lt_irrefl _)
  have hKeyA := hPlaced.key ha
  have hKeyB := hPlaced.key hb
  have hPages := hDisjoint a ha b hb hNe (hNonempty a ha) (hNonempty b hb)
  rcases Spans.apart_of_disjoint (hNonempty a ha) (hNonempty b hb) hPages with hOrder | hOrder
  · exact hOrder
  · have hForward := hNonempty b hb
    simp only [VirtualMemoryArea.start, Page.startAddress, PAGE_SIZE] at hKeyA hKeyB
    omega

section Whole

variable {self : VirtualAddressSpace} {numPages position : Nat}

/-- The areas the search visits. -/
def visited (self : VirtualAddressSpace) : List (Nat × VirtualMemoryArea) :=
  self.virtualMemoryAreas.range self.firstUsableUserAddr self.lastUsableUserAddr

section

variable (h : self.Tiled)

include h

theorem Tiled.mem_visited {entry : Nat × VirtualMemoryArea} :
    entry ∈ self.visited ↔ entry ∈ self.virtualMemoryAreas.entries ∧
      self.firstUsableUserAddr ≤ entry.2.start ∧ entry.2.start < self.lastUsableUserAddr := by
  unfold visited
  rw [SortedMap.mem_range]
  refine and_congr_right fun hEntry => ?_
  rw [h.key hEntry]

theorem Tiled.start_lt_stop {entry : Nat × VirtualMemoryArea}
    (hEntry : entry ∈ self.virtualMemoryAreas.entries) : entry.2.start < entry.2.stop :=
  Nat.mul_lt_mul_of_pos_left (h.nonempty entry hEntry) (by decide)

theorem Tiled.stop_le_start {a b : Nat × VirtualMemoryArea}
    (ha : a ∈ self.virtualMemoryAreas.entries) (hb : b ∈ self.virtualMemoryAreas.entries)
    (hLt : a.2.start < b.2.start) : a.2.stop ≤ b.2.start :=
  Nat.mul_le_mul_left _ (h.apart a ha b hb (by rw [h.key ha, h.key hb]; exact hLt))

theorem Tiled.spread : Spread self.firstUsableUserAddr self.lastUsableUserAddr self.visited := by
  refine ⟨fun entry hEntry => (h.mem_visited.mp hEntry).2.1,
    fun entry hEntry => (h.mem_visited.mp hEntry).2.2,
    fun entry hEntry => h.start_lt_stop (h.mem_visited.mp hEntry).1, ?_⟩
  refine (self.virtualMemoryAreas.range_sorted _ _).imp_of_mem fun ha hb hLt => ?_
  have ha := (h.mem_visited.mp ha).1
  have hb := (h.mem_visited.mp hb).1
  exact h.stop_le_start ha hb (by rwa [← h.key ha, ← h.key hb])

/-- The check against the previous area sees every area around the address. -/
theorem Tiled.previousOverlaps_iff {addr : Nat} :
    self.previousOverlaps addr = true ↔
      ∃ entry ∈ self.virtualMemoryAreas.entries, entry.2.start ≤ addr ∧ addr < entry.2.stop := by
  constructor
  · intro hOverlaps
    unfold previousOverlaps at hOverlaps
    cases hLast : self.virtualMemoryAreas.lastAtMost addr with
    | none => simp [hLast] at hOverlaps
    | some previous =>
      obtain ⟨hMem, hBelow, -⟩ := SortedMap.lastAtMost_some hLast
      refine ⟨previous, hMem, h.key hMem ▸ hBelow, ?_⟩
      simpa [hLast] using hOverlaps
  · rintro ⟨entry, hMem, hBelow, hAbove⟩
    have hOrdered : self.Ordered := by
      refine ⟨h.first, fun entry hEntry => h.key hEntry,
        fun entry hEntry => (h.start_lt_stop hEntry).le, fun a ha b hb hLt => ?_⟩
      rw [h.key ha, h.key hb] at hLt
      exact h.key hb ▸ h.stop_le_start ha hb hLt
    by_contra hOverlaps
    have hStop := hOrdered.stop_le_of_not_previousOverlaps (Bool.eq_false_iff.mpr hOverlaps) entry
      hMem (h.key hMem ▸ hBelow)
    omega

theorem Tiled.clear_of_fits {page : Nat} (hFits : self.FitsAt numPages page) :
    self.firstUsableUserAddr ≤ Page.startAddress page ∧
    ClearOf self.visited (PAGE_SIZE * numPages) (Page.startAddress page) ∧
    Page.startAddress page + PAGE_SIZE * numPages ≤ self.lastUsableUserAddr := by
  obtain ⟨hFirst, hLast, hClear⟩ := hFits
  have hEnd : Page.startAddress (page + numPages) = Page.startAddress page + PAGE_SIZE * numPages :=
    Nat.mul_add _ _ _
  refine ⟨hFirst, fun entry hEntry => ?_, hEnd ▸ hLast⟩
  refine (hClear entry (h.mem_visited.mp hEntry).1).imp (Nat.mul_le_mul_left _) fun hBelow => ?_
  rw [← hEnd]
  exact Nat.mul_le_mul_left _ hBelow

/-- The lowest clear position is the start of a page. -/
theorem Tiled.least_aligned (hLeast : IsLeast {addr | self.firstUsableUserAddr ≤ addr ∧
      ClearOf self.visited (PAGE_SIZE * numPages) addr} position) :
    Page.startAddress (Page.containingAddress position) = position := by
  obtain ⟨⟨hFirst, hClear⟩, hLower⟩ := hLeast
  -- Rounding down keeps the distance to everything that is aligned itself.
  have hDown : Page.startAddress (Page.containingAddress position) ≤ position :=
    Nat.mul_div_le _ _
  refine le_antisymm hDown (hLower ⟨?_, fun entry hEntry => (hClear entry hEntry).imp ?_ ?_⟩)
  · rw [h.first] at hFirst ⊢
    simp only [USER_SPACE_START, Page.startAddress, Page.containingAddress, PAGE_SIZE] at hFirst ⊢
    omega
  · simp only [VirtualMemoryArea.stop, Page.startAddress, Page.containingAddress, PAGE_SIZE]
    omega
  · intro hBelow
    omega

/-- The candidate of the search is the lowest page that fits, unless the area
over the first usable address is in the way. -/
theorem Tiled.fits_of_least (hLeast : IsLeast {addr | self.firstUsableUserAddr ≤ addr ∧
      ClearOf self.visited (PAGE_SIZE * numPages) addr} position)
    (hEnd : position + PAGE_SIZE * numPages ≤ self.lastUsableUserAddr)
    (hHead : ¬self.HeadBlocked numPages) :
    IsLeast {page | self.FitsAt numPages page} (Page.containingAddress position) ∧
      self.previousOverlaps position = false := by
  have hAligned := h.least_aligned hLeast
  obtain ⟨⟨hFirst, hClear⟩, hLower⟩ := hLeast
  have hLow : ∀ entry ∈ self.virtualMemoryAreas.entries,
      entry.2.start ≤ self.firstUsableUserAddr → entry.2.stop ≤ position := by
    intro entry hEntry hStart
    by_contra hOver
    refine hHead ⟨⟨entry, hEntry, hStart, by omega⟩, by omega, fun other hOther hAbove => ?_⟩
    -- An area that begins too close behind the first usable address has pushed the search on.
    by_contra hClose
    have hIn : other ∈ self.visited := h.mem_visited.mpr ⟨hOther, hAbove, by omega⟩
    have hOtherStop : other.2.stop ≤ position := (hClear other hIn).resolve_right (by omega)
    rcases hStart.trans hAbove |>.lt_or_eq with hLt | hEq
    · have hGap := h.stop_le_start hEntry hOther hLt
      have hForward := h.start_lt_stop hOther
      omega
    · have hSame : entry = other := self.virtualMemoryAreas.eq_of_key_eq hEntry hOther
        (by rw [h.key hEntry, h.key hOther, hEq])
      exact hOver (hSame ▸ hOtherStop)
  have hApart : ∀ entry ∈ self.virtualMemoryAreas.entries, entry.2.stop ≤ position ∨
      position + PAGE_SIZE * numPages ≤ entry.2.start ∧ self.firstUsableUserAddr < entry.2.start := by
    intro entry hEntry
    by_cases hStart : entry.2.start ≤ self.firstUsableUserAddr
    · exact Or.inl (hLow entry hEntry hStart)
    · by_cases hIn : entry.2.start < self.lastUsableUserAddr
      · exact (hClear entry (h.mem_visited.mpr ⟨hEntry, by omega, hIn⟩)).imp_right
          fun hBelow => ⟨hBelow, by omega⟩
      · exact Or.inr ⟨by omega, by omega⟩
  refine ⟨⟨⟨by rwa [hAligned], ?_, fun entry hEntry => ?_⟩, fun page hPage => ?_⟩, ?_⟩
  · simp only [Page.startAddress] at hAligned ⊢
    rwa [Nat.mul_add, hAligned]
  · have hEntryApart := hApart entry hEntry
    simp only [VirtualMemoryArea.stop, VirtualMemoryArea.start, Page.startAddress,
      Page.containingAddress, PAGE_SIZE] at hEntryApart hAligned ⊢
    omega
  · obtain ⟨hPageFirst, hPageClear, -⟩ := h.clear_of_fits hPage
    have hLe := hLower ⟨hPageFirst, hPageClear⟩
    simp only [Page.startAddress, Page.containingAddress, PAGE_SIZE] at hLe ⊢
    omega
  · rw [Bool.eq_false_iff, ne_eq, h.previousOverlaps_iff]
    rintro ⟨entry, hEntry, hBelow, hAbove⟩
    obtain ⟨hRoom, hBehind⟩ := (hApart entry hEntry).resolve_left (by omega)
    -- A request without pages is always clear at the first usable address.
    have hZero : PAGE_SIZE * numPages = 0 := by omega
    have hLe := hLower ⟨le_rfl, fun entry hEntry =>
      Or.inr (by rw [hZero]; exact (h.mem_visited.mp hEntry).2.1)⟩
    omega

end

variable {profile : BuildProfile} {count : Nat} {typ : VmaType} {tag : List UInt8}

theorem alloc_eq (hRange : self.firstUsableUserAddr ≤ self.lastUsableUserAddr)
    (hSize : profile.word (count * PAGE_SIZE) = .ok (PAGE_SIZE * numPages)) :
    self.allocVma profile none count .user typ tag =
      searchGap (PAGE_SIZE * numPages) self.lastUsableUserAddr self.firstUsableUserAddr self.visited >>=
        fun
        | some position =>
          self.allocAt profile (Page.containingAddress position) count .user typ tag
        | none => .ok (none, self) := by
  have hAreas : self.areasIn self.firstUsableUserAddr self.lastUsableUserAddr = .ok self.visited :=
    if_neg (not_lt_of_ge hRange)
  have hSearch : self.searchRange .user = (self.firstUsableUserAddr, self.lastUsableUserAddr) := rfl
  unfold allocVma alloc searchGap
  rw [hSearch]
  simp only [hSize, hAreas, bind_of_ok]
  cases findGap (PAGE_SIZE * numPages) self.lastUsableUserAddr self.firstUsableUserAddr
    self.visited with
  | error panic => rfl
  | ok outcome =>
    obtain ⟨current, found⟩ := outcome
    cases found with
    | true => rfl
    | false =>
      simp only [bind_of_ok, Bool.false_eq_true, if_false]
      cases VirtAddr.add current (PAGE_SIZE * numPages) with
      | error panic => rfl
      | ok reach =>
        simp only [bind_of_ok]
        by_cases hFits : reach ≤ self.lastUsableUserAddr
        · rw [if_pos hFits, if_pos hFits]
          rfl
        · rw [if_neg hFits, if_neg hFits]
          rfl

/-- `alloc_at` in user space, at a position whose end stays in the range. -/
theorem allocAt_eq (hSize : profile.word (count * PAGE_SIZE) = .ok (PAGE_SIZE * numPages))
    {page : Nat} (hFirst : self.firstUsableUserAddr ≤ Page.startAddress page)
    (hEnd : Page.startAddress page + PAGE_SIZE * numPages ≤ self.lastUsableUserAddr)
    (hLast : self.lastUsableUserAddr < 2 ^ 47) :
    self.allocAt profile page count .user typ tag =
      .ok (if self.previousOverlaps (Page.startAddress page) = true then (none, self)
        else (some (.newWithTag .user ⟨page, page + numPages⟩ typ tag),
          self.store (.newWithTag .user ⟨page, page + numPages⟩ typ tag))) := by
  have hStop : Page.startAddress page + PAGE_SIZE * numPages = Page.startAddress (page + numPages) :=
    (Nat.mul_add _ _ _).symm
  have hAdd : Page.add profile page count = .ok (page + numPages) := by
    unfold Page.add
    rw [hSize, bind_of_ok, VirtAddr.add_of_canonical (Or.inl (by omega)),
      bind_of_ok, hStop]
    exact congrArg Except.ok (Nat.mul_div_cancel_left _ (by decide))
  have hBounds : self.outOfBounds .user (Page.startAddress page)
      (Page.startAddress (page + numPages)) = false := by
    simp only [outOfBounds, decide_eq_false_iff_not]
    omega
  unfold allocAt
  rw [hAdd, bind_of_ok]
  refine (if_neg (Bool.eq_false_iff.mp hBounds)).trans ?_
  change (if self.previousOverlaps (Page.startAddress page) = true then _ else _) = _
  by_cases hOverlaps : self.previousOverlaps (Page.startAddress page) = true
  · rw [if_pos hOverlaps, if_pos hOverlaps]
    rfl
  · rw [if_neg hOverlaps, if_neg hOverlaps]
    rfl

section

variable (h : self.Tiled) (hRange : self.firstUsableUserAddr ≤ self.lastUsableUserAddr)
  (hSize : profile.word (count * PAGE_SIZE) = .ok (PAGE_SIZE * numPages))

include h hRange hSize

/-- Behind the first usable address there is room, but an area reaches over
this address: the search gives up. -/
theorem Tiled.alloc_of_headBlocked (hHead : self.HeadBlocked numPages) :
    self.allocVma profile none count .user typ tag = .ok (none, self) := by
  obtain ⟨hOver, hEnd, hBehind⟩ := hHead
  have hClear : ClearOf self.visited (PAGE_SIZE * numPages) self.firstUsableUserAddr := by
    intro entry hEntry
    obtain ⟨hMem, hAbove, -⟩ := h.mem_visited.mp hEntry
    exact Or.inr (hBehind entry hMem hAbove)
  obtain ⟨position, hSearch, hLeast⟩ := searchGap_of_clear h.spread h.last le_rfl hClear hEnd
  have hAligned := h.least_aligned hLeast
  obtain rfl : position = self.firstUsableUserAddr :=
    le_antisymm (hLeast.2 ⟨le_rfl, hClear⟩) hLeast.1.1
  rw [alloc_eq hRange hSize, hSearch, bind_of_ok]
  refine (allocAt_eq hSize hAligned.ge (hAligned.symm ▸ hEnd) h.last).trans ?_
  rw [hAligned, if_pos (h.previousOverlaps_iff.mpr hOver)]

theorem Tiled.alloc_of_fits (hHead : ¬self.HeadBlocked numPages)
    (hFits : ∃ page, self.FitsAt numPages page) :
    ∃ page, IsLeast {page | self.FitsAt numPages page} page ∧
      self.allocVma profile none count .user typ tag =
        .ok (some (.newWithTag .user ⟨page, page + numPages⟩ typ tag),
          self.store (.newWithTag .user ⟨page, page + numPages⟩ typ tag)) := by
  obtain ⟨page, hPage⟩ := hFits
  obtain ⟨hFirst, hClear, hEnd⟩ := h.clear_of_fits hPage
  obtain ⟨position, hSearch, hLeast⟩ := searchGap_of_clear h.spread h.last hFirst hClear hEnd
  have hLe : position ≤ Page.startAddress page := hLeast.2 ⟨hFirst, hClear⟩
  obtain ⟨hFitsLeast, hFree⟩ := h.fits_of_least hLeast (by omega) hHead
  have hAligned := h.least_aligned hLeast
  refine ⟨Page.containingAddress position, hFitsLeast, ?_⟩
  rw [alloc_eq hRange hSize, hSearch, bind_of_ok]
  refine (allocAt_eq hSize (hAligned.symm ▸ hLeast.1.1) (by omega) h.last).trans ?_
  rw [hAligned, if_neg (by simp [hFree])]

/-- Without room anywhere every candidate is tried, and the call returns if
none of them ends between the canonical halves. -/
theorem Tiled.alloc_of_full (hHead : ¬self.HeadBlocked numPages)
    (hFull : ¬∃ page, self.FitsAt numPages page) :
    (self.EndsCanonical numPages →
      self.allocVma profile none count .user typ tag = .ok (none, self)) ∧
    (¬self.EndsCanonical numPages →
      ∃ panic, self.allocVma profile none count .user typ tag = .error panic) := by
  have hNone : ∀ addr, self.firstUsableUserAddr ≤ addr →
      ClearOf self.visited (PAGE_SIZE * numPages) addr →
        self.lastUsableUserAddr < addr + PAGE_SIZE * numPages := by
    intro addr hFirst hClear
    by_contra hEnd
    obtain ⟨position, -, hLeast⟩ :=
      searchGap_of_clear h.spread h.last hFirst hClear (not_lt.mp hEnd)
    have hLe : position ≤ addr := hLeast.2 ⟨hFirst, hClear⟩
    exact hFull ⟨_, (h.fits_of_least hLeast (by omega) hHead).1.1⟩
  have hSearch := searchGap_of_not_clear h.spread hNone
  have hEnds : self.EndsCanonical numPages ↔
      Canonical (self.firstUsableUserAddr + PAGE_SIZE * numPages) ∧
        ∀ entry ∈ self.visited, Canonical (entry.2.stop + PAGE_SIZE * numPages) := by
    refine and_congr_right fun _ => forall_congr' fun entry => ?_
    rw [h.mem_visited, and_imp, and_imp]
  rw [hEnds, alloc_eq hRange hSize]
  constructor
  · intro hCanonical
    rw [if_pos hCanonical] at hSearch
    rw [hSearch]
    rfl
  · intro hCanonical
    rw [if_neg hCanonical] at hSearch
    obtain ⟨panic, hSearch⟩ := hSearch
    exact ⟨panic, by rw [hSearch]; rfl⟩

end

theorem Placed.not_fits_of_large (h : self.Placed) (hLarge : 2 ^ 52 ≤ count) :
    ¬∃ page, self.FitsAt count page := by
  rintro ⟨page, -, hEnd, -⟩
  have hLast := h.last
  simp only [Page.startAddress, PAGE_SIZE] at hEnd
  omega

/-- A returning search had a proper range, and its size went through the
checks of the profile. -/
theorem word_of_alloc {result : Option VirtualMemoryArea} {later : VirtualAddressSpace}
    (h : self.allocVma profile none count .user typ tag = .ok (result, later)) :
    self.firstUsableUserAddr ≤ self.lastUsableUserAddr ∧
      profile.word (count * PAGE_SIZE) = .ok (PAGE_SIZE * (count % 2 ^ 52)) := by
  obtain ⟨size, hSize, h⟩ := bind_ok h
  obtain ⟨areas, hAreas, h⟩ := bind_ok h
  refine ⟨?_, word_mul_pageSize hSize ▸ hSize⟩
  by_contra hReversed
  unfold areasIn at hAreas
  rw [if_pos (not_le.mp hReversed)] at hAreas
  cases hAreas

theorem Searchable.word (h : Searchable profile self count) :
    profile.word (count * PAGE_SIZE) = .ok (PAGE_SIZE * (count % 2 ^ 52)) := by
  cases profile with
  | development =>
    have hSize := h.size rfl
    rw [BuildProfile.word_of_lt _ (by unfold PAGE_SIZE; omega), Nat.mod_eq_of_lt hSize, Nat.mul_comm]
  | production =>
    rw [BuildProfile.word_production]
    unfold PAGE_SIZE
    exact congrArg Except.ok (by omega)

end Whole

/-- For every address space with non-empty, disjoint areas and every number of
pages, the search is first fit, complete and total exactly for the requests
described by `Searchable`. -/
theorem alloc_firstFit_iff {self : VirtualAddressSpace} (hPlaced : self.Placed)
    (hDisjoint : self.AreasDisjoint)
    (hNonempty : ∀ entry ∈ self.virtualMemoryAreas.entries,
      entry.2.range.start < entry.2.range.stop)
    (profile : BuildProfile) (numPages : Nat) (typ : VmaType) (tag : List UInt8) :
    self.FirstFit profile numPages typ tag ↔ Searchable profile self numPages := by
  have hTiled := hPlaced.tiled hDisjoint hNonempty
  by_cases hReturns : self.firstUsableUserAddr ≤ self.lastUsableUserAddr ∧
      profile.word (numPages * PAGE_SIZE) = .ok (PAGE_SIZE * (numPages % 2 ^ 52))
  case neg =>
    refine iff_of_false ?_ fun h => hReturns ⟨h.range, h.word⟩
    rintro (⟨page, -, hAlloc⟩ | ⟨-, hAlloc⟩) <;> exact hReturns (word_of_alloc hAlloc)
  obtain ⟨hRange, hSize⟩ := hReturns
  have hDevelopment : profile = .development → numPages < 2 ^ 52 := by
    rintro rfl
    by_contra hLarge
    rw [BuildProfile.word_development_of_not_lt (by unfold PAGE_SIZE; omega)] at hSize
    cases hSize
  by_cases hHead : self.HeadBlocked (numPages % 2 ^ 52)
  · have hAlloc := @Tiled.alloc_of_headBlocked _ _ _ _ typ tag hTiled hRange hSize hHead
    constructor
    · rintro (⟨page, -, hSome⟩ | ⟨hFull, -⟩)
      · rw [hAlloc] at hSome
        cases hSome
      · exact ⟨hRange, hDevelopment, Or.inr (Or.inl hHead), fun _ hFits => absurd hFits hFull,
          fun _ _ => hHead⟩
    · intro h
      refine Or.inr ⟨fun hFits => ?_, hAlloc⟩
      by_cases hSmall : numPages < 2 ^ 52
      · exact h.head hSmall hFits (Nat.mod_eq_of_lt hSmall ▸ hHead)
      · exact hPlaced.not_fits_of_large (not_lt.mp hSmall) hFits
  by_cases hFits : ∃ page, self.FitsAt (numPages % 2 ^ 52) page
  · obtain ⟨page, hLeast, hAlloc⟩ :=
      @Tiled.alloc_of_fits _ _ _ _ typ tag hTiled hRange hSize hHead hFits
    by_cases hSmall : numPages < 2 ^ 52
    · rw [Nat.mod_eq_of_lt hSmall] at hHead hFits hLeast hAlloc
      exact iff_of_true (Or.inl ⟨page, hLeast, hAlloc⟩)
        ⟨hRange, hDevelopment, Or.inl (by rwa [Nat.mod_eq_of_lt hSmall]), fun _ _ => hHead,
          fun hLarge => absurd hSmall (not_lt.mpr hLarge)⟩
    · have hNone := hPlaced.not_fits_of_large (not_lt.mp hSmall)
      refine iff_of_false ?_ fun h => hHead (h.wrapped (not_lt.mp hSmall) hFits)
      rintro (⟨other, hOther, -⟩ | ⟨-, hSome⟩)
      · exact hNone ⟨other, hOther.1⟩
      · rw [hAlloc] at hSome
        cases hSome
  · obtain ⟨hCanonical, hPanic⟩ :=
      @Tiled.alloc_of_full _ _ _ _ typ tag hTiled hRange hSize hHead hFits
    have hFull : ¬∃ page, self.FitsAt numPages page := by
      by_cases hSmall : numPages < 2 ^ 52
      · rwa [Nat.mod_eq_of_lt hSmall] at hFits
      · exact hPlaced.not_fits_of_large (not_lt.mp hSmall)
    by_cases hEnds : self.EndsCanonical (numPages % 2 ^ 52)
    · exact iff_of_true (Or.inr ⟨hFull, hCanonical hEnds⟩)
        ⟨hRange, hDevelopment, Or.inr (Or.inr hEnds), fun _ h => absurd h hFull,
          fun _ h => absurd h hFits⟩
    · obtain ⟨panic, hError⟩ := hPanic hEnds
      refine iff_of_false ?_ fun h => ?_
      · rintro (⟨page, -, hSome⟩ | ⟨-, hSome⟩) <;> rw [hError] at hSome <;> cases hSome
      · rcases h.ends with h | h | h
        · exact hFits h
        · exact hHead h
        · exact hEnds h

/-- One heap of four pages, one page behind the start of user space. -/
def heapBehindFirst : VirtualAddressSpace := freshSpace.store (heapArea 1 4)

theorem heapBehindFirst_entries :
    heapBehindFirst.virtualMemoryAreas.entries = [((heapArea 1 4).start, heapArea 1 4)] := rfl

/-- Two pages do not fit in front of the heap and are put behind it. -/
theorem heapBehindFirst_firstFit : heapBehindFirst.FirstFit .development 2 .heap [] := by
  have hEntry : ∀ {entry}, entry ∈ heapBehindFirst.virtualMemoryAreas.entries →
      entry = ((heapArea 1 4).start, heapArea 1 4) := by
    intro entry hEntry
    exact List.mem_singleton.mp (heapBehindFirst_entries ▸ hEntry)
  have hPlaced : heapBehindFirst.Placed := by
    refine ⟨rfl, by decide, fun h => ?_, fun h => ?_, fun h => ?_, fun h _ => ?_⟩ <;>
      rw [hEntry h] <;> decide
  refine (alloc_firstFit_iff hPlaced (areasDisjoint_of_singleton heapBehindFirst_entries)
    (fun _ h => by rw [hEntry h]; decide) .development 2 .heap []).mpr ?_
  have hFits : ∃ page, heapBehindFirst.FitsAt 2 page := ⟨firstUserPage + 5, by decide +kernel⟩
  exact ⟨by decide +kernel, fun _ => by decide, Or.inl hFits, fun _ _ => by decide +kernel,
    fun h => absurd h (by decide)⟩

/-- A kernel buffer of two pages over the start of user space. -/
def bufferOverFirst : VirtualMemoryArea :=
  .newWithTag .kernel ⟨firstUserPage - 1, firstUserPage + 1⟩ .kernelBuffer []

/-- A request for more than the whole of user space panics. With a kernel area
over the start of user space, a request for one page is declined although
the page behind this area is free. -/
theorem alloc_panics_or_gives_up :
    ((¬∃ page, freshSpace.FitsAt (2 ^ 35) page) ∧
      freshSpace.allocVma .development none (2 ^ 35) .user .heap [] =
        .error .nonCanonicalAddress) ∧
    freshSpace.allocVma .development (some (firstUserPage - 1)) 2 .kernel .kernelBuffer [] =
      .ok (some bufferOverFirst, freshSpace.store bufferOverFirst) ∧
    (freshSpace.store bufferOverFirst).FitsAt 1 (firstUserPage + 1) ∧
    (freshSpace.store bufferOverFirst).allocVma .development none 1 .user .heap [] =
      .ok (none, freshSpace.store bufferOverFirst) := by
  refine ⟨⟨?_, by decide +kernel⟩, by decide +kernel, by decide +kernel, by decide +kernel⟩
  rintro ⟨page, -, hEnd, -⟩
  simp only [Page.startAddress, PAGE_SIZE, freshSpace, lastUsableVirtualAddress] at hEnd
  omega

end D3OS.Memory.VirtualAddressSpace
