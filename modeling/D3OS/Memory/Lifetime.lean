import D3OS.Memory.AreaDisjointness
import D3OS.Memory.Isolation

/-! The frames of a process from its creation to its end. The free frames and
those that the process holds are together always the same; the process accounts
for what it holds by its areas, and `drop` gives up area by area. It reaches
the mapped pages of an area as long as no table is missing in front of them. -/
namespace D3OS.Memory

open PageTableEntry (unused)
open Paging
open VirtualAddressSpace (Stored)
open Outcome

/-- The tables of a root and the frames in use for it. -/
def Ledger.heldBy (ledger : Ledger) (root : Nat) : Set Nat :=
  {frame | (∃ node, ledger.own frame = some node ∧ node.root = root) ∨
    ∃ use, ledger.use frame = some use ∧ use.root = root}

section Conserved

variable {root : Nat} {m m' : Machine} {ledger ledger' : Ledger}

theorem Ledger.Fits.heldBy_of_free (h : ledger.Fits m) (hFree : root ∈ m.freeSet) :
    ledger.heldBy root = ∅ := by
  refine Set.eq_empty_of_forall_notMem ?_
  rintro frame (⟨node, hOwn, rfl⟩ | ⟨use, hUse, rfl⟩)
  · exact h.tables.not_free (h.tables.root_own hOwn).1 hFree
  · exact h.tables.not_free (h.live hUse) hFree

theorem Provides.conserves (h : Provides root m ledger m' ledger') :
    m'.freeSet ∪ ledger'.heldBy root = m.freeSet ∪ ledger.heldBy root := by
  ext frame
  constructor
  · rintro (hFree | ⟨node, hOwn, hRoot⟩ | ⟨use, hUse, hRoot⟩)
    · exact .inl (h.shrinks hFree)
    · rcases h.own_cases hOwn with hOld | ⟨-, hFree⟩
      · exact .inr (.inl ⟨node, hOld, hRoot⟩)
      · exact .inl hFree
    · rcases h.use_cases hUse with hOld | ⟨-, hFree⟩
      · exact .inr (.inr ⟨use, hOld, hRoot⟩)
      · exact .inl hFree
  · rintro (hFree | ⟨node, hOwn, hRoot⟩ | ⟨use, hUse, hRoot⟩)
    · by_cases hStill : frame ∈ m'.freeSet
      · exact .inl hStill
      · exact .inr (h.spent hFree hStill)
    · exact .inr (.inl ⟨node, h.keeps_own hOwn, hRoot⟩)
    · exact .inr (.inr ⟨use, h.keeps_use hUse, hRoot⟩)

theorem Released.conserves {pages : List Nat} (h : Released root m ledger pages m' ledger')
    (hHeld : ∀ page ∈ pages, entryAt m root page ≠ unused →
      ∃ use, ledger.use (entryAt m root page).frame = some use ∧ use.root = root) :
    m'.freeSet ∪ ledger'.heldBy root = m.freeSet ∪ ledger.heldBy root := by
  ext frame
  constructor
  · rintro (hFree | ⟨node, hOwn, hRoot⟩ | ⟨use, hUse, hRoot⟩)
    · rcases h.freed hFree with hFree | hOwn | ⟨page, hMem, hUsed, rfl⟩
      · exact .inl hFree
      · exact .inr (.inl hOwn)
      · exact .inr (.inr (hHeld page hMem hUsed))
    · exact .inr (.inl ⟨node, h.below_own hOwn, hRoot⟩)
    · exact .inr (.inr ⟨use, (h.use_iff.mp hUse).1, hRoot⟩)
  · rintro (hFree | ⟨node, hOwn, hRoot⟩ | ⟨use, hUse, hRoot⟩)
    · exact .inl (h.given_back (.inl hFree))
    · cases hAfter : ledger'.own frame with
      | none => exact .inl (h.given_back (.inr (.inl ⟨by simp [hOwn], hAfter⟩)))
      | some node' =>
        obtain rfl := Option.some.inj (hOwn.symm.trans (h.below_own hAfter))
        exact .inr (.inl ⟨node, hAfter, hRoot⟩)
    · by_cases hFree : frame ∈ m'.freeSet
      · exact .inl hFree
      · exact .inr (.inr ⟨use, h.use_iff.mpr ⟨hUse, hFree⟩, hRoot⟩)

end Conserved

/-- Every frame in use for the process lies behind a page of an area that is
not yet given up, and the free frames and those of the process are `total`. -/
structure Accounts (total : Set Nat) (m : Machine) (ledger : Ledger) (process : ProcessMemory) :
    Prop extends ProcessFits m ledger process where
  fits : ledger.Fits m
  total_eq : m.freeSet ∪ ledger.heldBy process.space.pageTables.rootTable = total
  page_of_use : ∀ {frame page},
    ledger.use frame = some (.page process.space.pageTables.rootTable page) →
      entryAt m process.space.pageTables.rootTable page ≠ unused ∧
      (entryAt m process.space.pageTables.rootTable page).frame = frame ∧
      ∃ area ∈ process.areas, area.space = .user ∧ page ∈ area.pages
  area_of_use : ∀ {frame start},
    ledger.use frame = some (.area process.space.pageTables.rootTable start) →
      ∃ area ∈ process.areas, area.space = .kernel ∧ frame ∈ area.pages

variable {pages : PageRange} {page : Nat} {profile : BuildProfile} {typ : VmaType}

namespace Accounts

variable {profile : BuildProfile} {total : Set Nat} {m m' : Machine} {ledger ledger' : Ledger}
  {space space' : VirtualAddressSpace} {typ : VmaType} {vma : VirtualMemoryArea}

/-- A new process has no frames but its tables. -/
theorem cloned {source : Nat} (hFits : ledger.Fits m)
    (hCloned : ClonedFrom source space.pageTables.rootTable m ledger m' ledger')
    (hProcess : ProcessFits m' ledger' ⟨space, .running⟩) :
    Accounts m.freeSet m' ledger' ⟨space, .running⟩ := by
  have hNone := hFits.heldBy_of_free hCloned.root_free
  have hUnused : ∀ {frame use}, ledger'.use frame = some use →
      use.root ≠ space.pageTables.rootTable := by
    intro frame use hUse hRoot
    rw [hCloned.use_eq] at hUse
    exact Set.notMem_empty frame (hNone ▸ .inr ⟨use, hUse, hRoot⟩)
  refine ⟨hProcess, hCloned.fits, ?_, fun hUse => absurd rfl (hUnused hUse),
    fun hUse => absurd rfl (hUnused hUse)⟩
  rw [hCloned.conserves, hNone, Set.union_empty]

variable {area : VirtualMemoryArea}

/-- No area of a process is lost when a new one is stored. -/
theorem area_kept {kind : MemorySpace} (hPlaced : space.Placed)
    (hStored : space.Stored kind typ vma space')
    (hArea : area ∈ (ProcessMemory.mk space .running).areas) (hPage : page ∈ area.pages) :
    area ∈ (ProcessMemory.mk space' .running).areas := by
  obtain ⟨entry, hMem, rfl⟩ := ProcessFits.mem_areas_running.mp hArea
  have hKept := hStored.mem.mpr (.inr ⟨hMem, hStored.key_ne hPlaced hMem hPage⟩)
  exact ProcessFits.mem_areas_running.mpr ⟨entry, hKept, rfl⟩

theorem stored (h : Accounts total m ledger ⟨space, .running⟩)
    (hStored : space.Stored .user typ vma space') :
    Accounts total m ledger ⟨space', .running⟩ := by
  have hSame := hStored.pageTables_eq
  refine ⟨h.toProcessFits.stored hStored, h.fits, hSame ▸ h.total_eq, ?_, ?_⟩
  · rw [hSame]
    intro frame page hUse
    obtain ⟨hUsed, hFrame, area, hArea, hUser, hPage⟩ := h.page_of_use hUse
    exact ⟨hUsed, hFrame, area, area_kept h.placed hStored hArea hPage, hUser, hPage⟩
  · rw [hSame]
    intro frame start hUse
    obtain ⟨area, hArea, hKernel, hPage⟩ := h.area_of_use hUse
    exact ⟨area, area_kept h.placed hStored hArea hPage, hKernel, hPage⟩

/-- Frames for pages of a user area that had none. -/
theorem provided (h : Accounts total m ledger ⟨space, .running⟩) {first count : Nat}
    (hMapped : UserMapped space.pageTables.rootTable m ledger first count m' ledger')
    (hArea : area ∈ (ProcessMemory.mk space .running).areas) (hUser : area.space = .user)
    (hNew : ∀ page, first ≤ page → page < first + count →
      page ∈ area.pages ∧ entryAt m space.pageTables.rootTable page = unused) :
    Accounts total m' ledger' ⟨space, .running⟩ := by
  refine ⟨h.toProcessFits.provided h.fits hMapped, hMapped.fits,
    hMapped.conserves.trans h.total_eq, ?_, ?_⟩
  · intro frame page hUse
    cases hOld : ledger.use frame with
    | none =>
      obtain ⟨page', hFirst, hLast, hEq, hFrame⟩ := hMapped.new_use hUse hOld
      obtain rfl : page = page' := by simpa using hEq
      obtain ⟨frame', -, hEntry, -⟩ := hMapped.mapped hFirst hLast
      refine ⟨?_, hFrame, area, hArea, hUser, (hNew page hFirst hLast).1⟩
      simp only [hEntry]
      exact ne_unused_of_isUser (isUser_userPage frame')
    | some use =>
      obtain rfl := Option.some.inj ((hMapped.keeps_use hOld).symm.trans hUse)
      obtain ⟨hUsed, hFrame, other, hOther, hUser', hPage⟩ := h.page_of_use hOld
      have hBound := h.placed.bound (h.known other hOther)
      have hBefore := hPage.2
      have hSame : entryAt m' space.pageTables.rootTable page =
          entryAt m space.pageTables.rootTable page :=
        hMapped.other (by simp only at hBound; omega)
          fun hIn => hUsed (hNew page hIn.1 hIn.2).2
      simp only [hSame]
      exact ⟨hUsed, hFrame, other, hOther, hUser', hPage⟩
  · intro frame start hUse
    cases hOld : ledger.use frame with
    | none =>
      obtain ⟨page, -, -, hEq, -⟩ := hMapped.new_use hUse hOld
      cases hEq
    | some use =>
      obtain rfl := Option.some.inj ((hMapped.keeps_use hOld).symm.trans hUse)
      exact h.area_of_use hOld

/-- User pages lie in user space. -/
theorem le_of_page_use {process : ProcessMemory} (h : Accounts total m ledger process) {frame : Nat}
    (hUse : ledger.use frame = some (.page process.space.pageTables.rootTable page)) :
    USER_SPACE_PAGE ≤ page ∧ page < 512 ^ 4 := by
  obtain ⟨-, -, area, hArea, hUser, hPage⟩ := h.page_of_use hUse
  have hStart := h.placed.user (h.known area hArea) hUser
  have hBound := h.placed.bound (h.known area hArea)
  have hFirst := hPage.1
  have hLast := hPage.2
  simp only at hStart hBound
  omega

section

variable (h : Accounts total m ledger ⟨space, .running⟩)

include h

/-- A block of frames for a kernel area. -/
theorem areaAllocated {count : Nat} (hStored : space.Stored .kernel typ vma space')
    (hStop : vma.range.stop = vma.range.start + count)
    (hAllocated : AreaAllocated space.pageTables.rootTable m ledger vma.range.start count m'
      ledger') : Accounts total m' ledger' ⟨space', .running⟩ := by
  have hSame := hStored.pageTables_eq
  refine ⟨h.toProcessFits.areaAllocated h.fits hStored hStop hAllocated, hAllocated.fits,
    hSame ▸ hAllocated.conserves.trans h.total_eq, ?_, ?_⟩
  · rw [hSame]
    intro frame page hUse
    cases hOld : ledger.use frame with
    | none => cases (hAllocated.new_use hUse hOld).2.2
    | some use =>
      obtain rfl := Option.some.inj ((hAllocated.keeps_use hOld).symm.trans hUse)
      obtain ⟨hUsed, hFrame, area, hArea, hUser, hPage⟩ := h.page_of_use hOld
      obtain ⟨hAbove, hLt⟩ := h.le_of_page_use hOld
      have hEntry : entryAt m' space.pageTables.rootTable page =
          entryAt m space.pageTables.rootTable page := by
        refine hAllocated.other hLt fun hIn => ?_
        exact absurd (h.fits.below (.inl (hAllocated.mapped hIn.1 hIn.2).1)) (by omega)
      rw [hEntry]
      exact ⟨hUsed, hFrame, area, area_kept h.placed hStored hArea hPage, hUser, hPage⟩
  · rw [hSame]
    intro frame start hUse
    cases hOld : ledger.use frame with
    | none =>
      obtain ⟨hFirst, hLast, -⟩ := hAllocated.new_use hUse hOld
      exact ⟨vma, ProcessFits.mem_areas_running.mpr ⟨_, hStored.mem.mpr (.inl rfl), rfl⟩,
        hStored.space_eq, hFirst, hStop ▸ hLast⟩
    | some use =>
      obtain rfl := Option.some.inj ((hAllocated.keeps_use hOld).symm.trans hUse)
      obtain ⟨area, hArea, hKernel, hPage⟩ := h.area_of_use hOld
      exact ⟨area, area_kept h.placed hStored hArea hPage, hKernel, hPage⟩

/-- The pages of a new user area are unmapped, if it is disjoint from the
others. -/
theorem unused_of_stored (hStored : space.Stored .user typ vma space')
    (hDisjoint : space'.AreasDisjoint) (hPage : page ∈ vma.pages)
    : entryAt m space.pageTables.rootTable page = unused := by
  have hNew : (vma.start, vma) ∈ space'.virtualMemoryAreas.entries := hStored.mem.mpr (.inl rfl)
  have hStart := hStored.placed.user hNew hStored.space_eq
  have hBound := hStored.placed.bound hNew
  have hFirst := hPage.1
  have hLast := hPage.2
  simp only at hStart hBound
  refine Decidable.byContradiction fun hUsed => ?_
  rcases h.view page (by omega) hUsed with ⟨-, hUse⟩ | ⟨-, -, hBelow⟩
  · obtain ⟨-, -, area, hArea, -, hIn⟩ := h.page_of_use hUse
    obtain ⟨entry, hMem, rfl⟩ := ProcessFits.mem_areas_running.mp hArea
    have hNe := hStored.key_ne h.placed hMem hIn
    have hKept := hStored.mem.mpr (.inr ⟨hMem, hNe⟩)
    have hApart := hDisjoint entry hKept _ hNew (fun hEq => hNe (congrArg Prod.fst hEq))
      (Nat.lt_of_le_of_lt hIn.1 hIn.2) (Nat.lt_of_le_of_lt hFirst hLast)
    exact Set.disjoint_left.mp hApart hIn hPage
  · omega

/-- Pages of a user area are mapped that were not. -/
theorem mapped (hArea : area ∈ (ProcessMemory.mk space .running).areas) (hUser : area.space = .user)
    (hValid : Page.Valid pages.start) (hStart : area.range.start ≤ pages.start)
    (hStop : pages.stop ≤ area.range.stop)
    (hUnused : ∀ page, pages.start ≤ page → page < pages.stop →
      entryAt m space.pageTables.rootTable page = unused)
    (hMap : space.pageTables.map profile m pages .user USER_PAGE_FLAGS = .ok m') :
    ∃ ledger', Accounts total m' ledger' ⟨space, .running⟩ := by
  obtain ⟨hForward, -, ledger', hMapped⟩ :=
    (map_user_spec profile h.fits h.depth_eq h.root_own hValid).of_ok hMap
  have hBound := h.placed.bound (h.known area hArea)
  simp only at hBound
  rw [Nat.mod_eq_of_lt (by omega : pages.start < 512 ^ 4)] at hMapped
  refine ⟨ledger', h.provided hMapped hArea hUser fun page hFirst hLast => ?_⟩
  exact ⟨⟨by omega, by omega⟩, hUnused page hFirst (by omega)⟩

/-- Pages of a new user area are mapped. -/
theorem filled (hStored : space.Stored .user typ vma space') (hDisjoint : space'.AreasDisjoint)
    (hValid : Page.Valid pages.start) (hStart : vma.range.start ≤ pages.start)
    (hStop : pages.stop ≤ vma.range.stop)
    (hMap : space'.pageTables.map profile m pages .user USER_PAGE_FLAGS = .ok m') :
    ∃ ledger', Accounts total m' ledger' ⟨space', .running⟩ := by
  have hArea : vma ∈ (ProcessMemory.mk space' .running).areas :=
    ProcessFits.mem_areas_running.mpr ⟨_, hStored.mem.mpr (.inl rfl), rfl⟩
  refine (h.stored hStored).mapped hArea hStored.space_eq hValid hStart hStop ?_ hMap
  intro page hFirst hLast
  rw [hStored.pageTables_eq]
  exact h.unused_of_stored hStored hDisjoint ⟨by omega, by omega⟩

end

end Accounts

/-- The pages that `user_alloc_map_partial` maps lie in its area, unless more
are requested than the area has. Numbers of pages wrap around at `2 ^ 52`. -/
theorem allocPageRange_inside {vma : VirtualMemoryArea} {numPages allocNumPages : Nat}
    {allocDownwards : Bool} (hSize : Page.add profile vma.range.start numPages = .ok vma.range.stop)
    (hPages : VirtualAddressSpace.allocPageRange profile vma allocNumPages allocDownwards =
      .ok pages) (hLe : allocNumPages % 2 ^ 52 ≤ numPages % 2 ^ 52) :
    vma.range.start ≤ pages.start ∧ pages.stop ≤ vma.range.stop := by
  obtain ⟨size, hWord, hStop⟩ := Page.startAddress_of_add hSize
  rw [word_mul_pageSize hWord] at hStop
  unfold VirtualAddressSpace.allocPageRange at hPages
  split at hPages
  · obtain ⟨first, hFirst, hEq⟩ := bind_ok hPages
    obtain rfl := pure_ok hEq
    obtain ⟨-, offset, hWord', hOffset, hStart⟩ := Page.startAddress_of_sub hFirst
    rw [word_mul_pageSize hWord'] at hStart
    simp only [Page.startAddress, PAGE_SIZE] at hStop hStart
    exact ⟨by dsimp only; omega, Nat.le_refl _⟩
  · obtain ⟨last, hLast, hEq⟩ := bind_ok hPages
    obtain rfl := pure_ok hEq
    obtain ⟨offset, hWord', hEnd⟩ := Page.startAddress_of_add hLast
    rw [word_mul_pageSize hWord'] at hEnd
    simp only [Page.startAddress, PAGE_SIZE] at hStop hEnd
    exact ⟨Nat.le_refl _, by dsimp only; omega⟩

/-- A partial mapping does not ask for more pages than its area has, and a
page fault is caused by a page that is not mapped. -/
def SpaceCall.Proper (call : SpaceCall) (space : VirtualAddressSpace) (m : Machine) : Prop :=
  match call with
  | .userAllocMapPartial _ numPages _ _ allocNumPages _ =>
    allocNumPages % 2 ^ 52 ≤ numPages % 2 ^ 52
  | .handlePageFault faultAddr =>
    entryAt m space.pageTables.rootTable (Page.containingAddress faultAddr) = unused
  | _ => True

namespace Accounts

variable {profile : BuildProfile} {total : Set Nat} {m m' : Machine} {ledger : Ledger}
  {space space' : VirtualAddressSpace}

section

variable (h : Accounts total m ledger ⟨space, .running⟩)

include h

theorem userAllocMapPartial {startPage : Option Nat} {numPages : Nat} {tag : List UInt8}
    {allocNumPages : Nat} {allocDownwards : Bool} {result : Option VirtualMemoryArea}
    (hLe : allocNumPages % 2 ^ 52 ≤ numPages % 2 ^ 52)
    (hRun : space.userAllocMapPartial profile m startPage numPages typ tag allocNumPages
      allocDownwards = .ok (result, space', m')) (hDisjoint : space'.AreasDisjoint) :
    ∃ ledger', Accounts total m' ledger' ⟨space', .running⟩ := by
  rcases userAllocMapPartial_ok h.placed hRun with
    ⟨rfl, rfl⟩ | ⟨vma, pages, hStored, hSize, hPages, hMap⟩
  · exact ⟨ledger, h⟩
  · obtain ⟨hStart, hStop⟩ := allocPageRange_inside hSize hPages hLe
    exact h.filled hStored hDisjoint (allocPageRange_valid hStored.valid_start hPages) hStart hStop
      hMap

theorem kernelAllocMapIdentity {numPf : Nat} {flags : PageTableFlags} {tag : List UInt8}
    (hRun : space.kernelAllocMapIdentity profile m numPf flags typ tag = .ok (pages, space', m')) :
    ∃ ledger', Accounts total m' ledger' ⟨space', .running⟩ := by
  obtain ⟨vma, ledger', hStored, hStop, hAllocated⟩ :=
    kernelAllocMapIdentity_ok h.fits h.placed h.depth_eq h.root_own hRun
  exact ⟨ledger', h.areaAllocated hStored hStop hAllocated⟩

/-- The page lies in an area of user space, since all pages of the others are
mapped. -/
theorem handlePageFault {faultAddr : Nat}
    (hUnused : entryAt m space.pageTables.rootTable (Page.containingAddress faultAddr) = unused)
    (hRun : space.handlePageFault profile m faultAddr = .ok m') :
    ∃ ledger', Accounts total m' ledger' ⟨space, .running⟩ := by
  obtain ⟨entry, hMem, hIn, hValid, hMap⟩ := handlePageFault_ok hRun
  have hArea := ProcessFits.mem_areas_running.mpr ⟨entry, hMem, rfl⟩
  cases hSpace : entry.2.space with
  | kernel => exact absurd hUnused (h.stack _ hArea hSpace _ hIn).2
  | user =>
    refine h.mapped hArea hSpace hValid hIn.1 (Nat.succ_le_of_lt hIn.2) ?_ hMap
    intro page hFirst hLast
    obtain rfl : page = Page.containingAddress faultAddr := by
      simp only at hFirst hLast
      omega
    exact hUnused

/-- Every call keeps the frames accounted for. -/
theorem call {call : SpaceCall} (hProper : call.Proper space m)
    (hRun : call.run profile space m = .ok (space', m')) (hDisjoint : space'.AreasDisjoint) :
    ∃ ledger', Accounts total m' ledger' ⟨space', .running⟩ := by
  cases call with
  | userAllocMapFull startPage numPages typ tag =>
    obtain ⟨⟨result, space₁, m₁⟩, hCall, hEq⟩ := bind_ok hRun
    obtain ⟨rfl, rfl⟩ : space₁ = space' ∧ m₁ = m' := by simpa using hEq
    rcases userAllocMapFull_ok h.placed hCall with ⟨rfl, rfl⟩ | ⟨vma, hStored, hMap⟩
    · exact ⟨ledger, h⟩
    · exact h.filled hStored hDisjoint hStored.valid_start (Nat.le_refl _) (Nat.le_refl _) hMap
  | userAllocMapPartial startPage numPages typ tag allocNumPages allocDownwards =>
    obtain ⟨⟨result, space₁, m₁⟩, hCall, hEq⟩ := bind_ok hRun
    obtain ⟨rfl, rfl⟩ : space₁ = space' ∧ m₁ = m' := by simpa using hEq
    exact h.userAllocMapPartial hProper hCall hDisjoint
  | sysMapMemory start size =>
    obtain ⟨⟨code, space₁⟩, hCall, hEq⟩ := bind_ok hRun
    obtain ⟨rfl, rfl⟩ : space₁ = space' ∧ m = m' := by simpa using hEq
    rcases sysMapMemory_ok h.placed hCall with rfl | ⟨vma, hStored⟩
    · exact ⟨ledger, h⟩
    · exact ⟨ledger, h.stored hStored⟩
  | kernelAllocMapIdentity numPf flags typ tag =>
    obtain ⟨⟨pages, space₁, m₁⟩, hCall, hEq⟩ := bind_ok hRun
    obtain ⟨rfl, rfl⟩ : space₁ = space' ∧ m₁ = m' := by simpa using hEq
    exact h.kernelAllocMapIdentity hCall
  | newUserThread =>
    obtain ⟨pages, space₁, m₁, vma, hStack, hUser⟩ := newUserThread_ok hRun
    obtain ⟨ledger₁, h₁⟩ := h.kernelAllocMapIdentity hStack
    exact h₁.userAllocMapPartial (by decide) hUser hDisjoint
  | handlePageFault faultAddr =>
    obtain ⟨m₁, hCall, hEq⟩ := bind_ok hRun
    obtain ⟨rfl, rfl⟩ : space = space' ∧ m₁ = m' := by simpa using hEq
    exact h.handlePageFault hProper hCall

end

end Accounts

/-- Disjoint areas were disjoint before the last one came. -/
theorem VirtualAddressSpace.Stored.disjoint_before {space space' : VirtualAddressSpace}
    {kind : MemorySpace} {vma : VirtualMemoryArea} (h : space.Stored kind typ vma space')
    (hPlaced : space.Placed) (hDisjoint : space'.AreasDisjoint) : space.AreasDisjoint := by
  have hKept : ∀ entry ∈ space.virtualMemoryAreas.entries,
      entry.2.range.start < entry.2.range.stop → entry ∈ space'.virtualMemoryAreas.entries :=
    fun entry hMem hPages =>
      h.mem.mpr (.inr ⟨hMem, h.key_ne hPlaced hMem ⟨Nat.le_refl _, hPages⟩⟩)
  intro a hA b hB hNe hPagesA hPagesB
  exact hDisjoint a (hKept a hA hPagesA) b (hKept b hB hPagesB) hNe hPagesA hPagesB

/-- The areas of an address space only become more. -/
theorem Parts.areas {state next : VirtualAddressSpace × Machine} (hPlaced : state.1.Placed)
    (hParts : Parts profile state next) :
    next.1.Placed ∧ (next.1.AreasDisjoint → state.1.AreasDisjoint) := by
  induction hParts with
  | refl => exact ⟨hPlaced, id⟩
  | tail _ hPart ih =>
    obtain ⟨hMiddle, hBefore⟩ := ih
    cases hPart with
    | stored hStored =>
      exact ⟨hStored.placed, fun hAfter => hBefore (hStored.disjoint_before hMiddle hAfter)⟩
    | provided _ _ => exact ⟨hMiddle, hBefore⟩
    | area hRun =>
      obtain ⟨vma, hStored⟩ := kernelAllocMapIdentity_stored hMiddle hRun
      exact ⟨hStored.placed, fun hAfter => hBefore (hStored.disjoint_before hMiddle hAfter)⟩

/-- Proper calls on an address space, one after the other. -/
def ProperCalls (profile : BuildProfile) :
    VirtualAddressSpace × Machine → VirtualAddressSpace × Machine → Prop :=
  Relation.ReflTransGen fun state next =>
    ∃ call : SpaceCall, call.Proper state.1 state.2 ∧ call.run profile state.1 state.2 = .ok next

/-- A run that ends with disjoint areas has kept the frames accounted for. -/
theorem Accounts.calls {total : Set Nat} {ledger : Ledger}
    {state next : VirtualAddressSpace × Machine}
    (h : Accounts total state.2 ledger ⟨state.1, .running⟩)
    (hCalls : ProperCalls profile state next) :
    next.1.Placed ∧
      (next.1.AreasDisjoint → ∃ ledger', Accounts total next.2 ledger' ⟨next.1, .running⟩) := by
  induction hCalls with
  | refl => exact ⟨h.placed, fun _ => ⟨ledger, h⟩⟩
  | tail _ hCall ih =>
    obtain ⟨call, hProper, hRun⟩ := hCall
    obtain ⟨hPlaced, hBefore⟩ := Parts.areas ih.1 (SpaceCall.run_parts ih.1 hRun)
    refine ⟨hPlaced, fun hDisjoint => ?_⟩
    obtain ⟨ledger', h'⟩ := ih.2 (hBefore hDisjoint)
    exact h'.call hProper hRun hDisjoint

/-- No level 1 table is missing between the start of the area and a mapped
page of it. -/
def Unbroken (m : Machine) (root : Nat) (area : VirtualMemoryArea) : Prop :=
  ∀ page ∈ area.pages, entryAt m root page ≠ unused →
    ∀ page', area.range.start ≤ page' → page' ≤ page → hasTable m 4 root page' = true

/-- The areas are unbroken, each one when its turn has come. -/
def UnbrokenInTurn (profile : BuildProfile) (paging : Paging) :
    List VirtualMemoryArea → Machine → Prop
  | [], _ => True
  | area :: rest, m => Unbroken m paging.rootTable area ∧
      ∀ m', paging.unmap profile m area.range true = .ok m' →
        UnbrokenInTurn profile paging rest m'

namespace Accounts

variable {total : Set Nat} {m m' : Machine} {ledger ledger' : Ledger} {space : VirtualAddressSpace}
  {area : VirtualMemoryArea} {rest : List VirtualMemoryArea}

/-- A walk for an unbroken area visits its mapped pages. -/
theorem visited_of_unbroken (h : Accounts total m ledger ⟨space, .unmapping (area :: rest)⟩)
    (hUnbroken : Unbroken m space.pageTables.rootTable area) (hPage : page ∈ area.pages)
    (hUsed : entryAt m space.pageTables.rootTable page ≠ unused) :
    page ∈ (visited m area.range.stop 4 space.pageTables.rootTable 0 area.range.start).1 := by
  have hBound := h.placed.bound (h.known area List.mem_cons_self)
  simp only at hBound
  exact mem_visited_of_tables (by omega) hPage.1 hPage.2 (hUnbroken page hPage hUsed)

/-- The frame of a kernel area lies behind the page with its own number. -/
theorem entryAt_of_kernel {process : ProcessMemory} (h : Accounts total m ledger process)
    (hArea : area ∈ process.areas) (hKernel : area.space = .kernel) (hPage : page ∈ area.pages) :
    entryAt m process.space.pageTables.rootTable page ≠ unused ∧
      (entryAt m process.space.pageTables.rootTable page).frame = page := by
  have hUsed := (h.stack area hArea hKernel page hPage).2
  have hLt := h.lt_of_stack h.fits hArea hKernel hPage
  refine ⟨hUsed, ?_⟩
  rcases h.view page (Nat.lt_trans hLt (by decide)) hUsed with ⟨-, hUse⟩ | ⟨-, hFrame, -⟩
  · exact absurd (h.le_of_page_use hUse).1 (by omega)
  · exact hFrame

/-- Unmapping an unbroken area gives up all its frames. -/
theorem unmapArea (profile : BuildProfile)
    (h : Accounts total m ledger ⟨space, .unmapping (area :: rest)⟩)
    (hUnbroken : Unbroken m space.pageTables.rootTable area) :
    Yields True (space.pageTables.unmap profile m area.range true) fun m' =>
      ∃ ledger', Accounts total m' ledger' ⟨space, .unmapping rest⟩ := by
  refine (h.toProcessFits.unmapArea profile h.fits).mono ?_
  rintro m' ⟨ledger', hReleased, hProcess⟩
  have hOwned := (h.visited_owned h.fits).1
  have hGone : ∀ {frame use page}, ledger'.use frame = some use →
      entryAt m space.pageTables.rootTable page ≠ unused →
      (entryAt m space.pageTables.rootTable page).frame = frame →
      page ∉ (visited m area.range.stop 4 space.pageTables.rootTable 0 area.range.start).1 := by
    intro frame use page hUse hUsed hFrame hVisited
    exact (hReleased.use_iff.mp hUse).2
      (hReleased.given_back (.inr (.inr ⟨page, hVisited, hUsed, hFrame⟩)))
  refine ⟨ledger', hProcess, hReleased.fits, ?_, ?_, ?_⟩
  · rw [← h.total_eq]
    exact hReleased.conserves fun page hPage hUsed => h.exists_use hOwned hPage hUsed
  · intro frame page hUse
    have hOld := (hReleased.use_iff.mp hUse).1
    obtain ⟨hUsed, hFrame, other, hOther, hUser, hPage⟩ := h.page_of_use hOld
    have hNot := hGone hUse hUsed hFrame
    have hEntry : entryAt m' space.pageTables.rootTable page =
        entryAt m space.pageTables.rootTable page := by
      rw [hReleased.view page (h.le_of_page_use hOld).2, if_neg hNot]
    simp only [hEntry]
    refine ⟨hUsed, hFrame, other, ?_, hUser, hPage⟩
    rcases List.mem_cons.mp hOther with rfl | hRest
    · exact absurd (h.visited_of_unbroken hUnbroken hPage hUsed) hNot
    · exact hRest
  · intro frame start hUse
    obtain ⟨other, hOther, hKernel, hPage⟩ := h.area_of_use (hReleased.use_iff.mp hUse).1
    refine ⟨other, ?_, hKernel, hPage⟩
    rcases List.mem_cons.mp hOther with rfl | hRest
    · obtain ⟨hUsed, hFrame⟩ := h.entryAt_of_kernel hOther hKernel hPage
      exact absurd (h.visited_of_unbroken hUnbroken hPage hUsed) (hGone hUse hUsed hFrame)
    · exact hRest

/-- `drop` for an address space whose areas are unbroken. -/
theorem unmapAreas (profile : BuildProfile) {areas : List VirtualMemoryArea}
    (h : Accounts total m ledger ⟨space, .unmapping areas⟩)
    (hUnbroken : UnbrokenInTurn profile space.pageTables areas m) :
    Yields True (areas.foldlM (fun m area => space.pageTables.unmap profile m area.range true) m)
      fun m' => ∃ ledger', Accounts total m' ledger' ⟨space, .unmapping []⟩ := by
  induction areas generalizing m ledger with
  | nil => exact Yields.pure ⟨ledger, h⟩
  | cons area rest ih =>
    rw [List.foldlM_cons]
    obtain ⟨m₁, hUnmap, ledger₁, h₁⟩ := (h.unmapArea profile hUnbroken.1).exists_ok trivial
    rw [hUnmap, bind_of_ok]
    exact ih h₁ (hUnbroken.2 m₁ hUnmap)

/-- Without areas a process holds its tables only, and they go with it. -/
theorem dropTables (h : Accounts total m ledger ⟨space, .unmapping []⟩) :
    Yields True (space.pageTables.drop m) fun m' => m'.Sound ∧ m'.freeSet = total := by
  refine (drop_spec h.fits h.depth_eq h.root_own).mono ?_
  rintro m' ⟨ledger', hEnded⟩
  refine ⟨hEnded.fits.tables.sound, ?_⟩
  rw [← h.total_eq]
  ext frame
  rw [hEnded.mem_freeSet]
  refine or_congr_right ⟨.inl, ?_⟩
  rintro (hOwn | ⟨use, hUse, hRoot⟩)
  · exact hOwn
  · cases use with
    | page root page =>
      obtain rfl : root = space.pageTables.rootTable := hRoot
      obtain ⟨-, -, area, hArea, -⟩ := h.page_of_use hUse
      cases hArea
    | area root start =>
      obtain rfl : root = space.pageTables.rootTable := hRoot
      obtain ⟨area, hArea, -⟩ := h.area_of_use hUse
      cases hArea

end Accounts

/-- The free list of a machine is known by its free frames. -/
theorem Machine.Sound.blocks_eq {m m' : Machine} (h : m.Sound) (h' : m'.Sound)
    (hFree : m.freeSet = m'.freeSet) : m.frames.blocks = m'.frames.blocks := by
  refine Spans.Ascending.eq_of_covered_eq ?_ h.wellFormed h'.wellFormed hFree
  intro block block' hStart hStop
  cases block
  cases block'
  simp only [Frames.PageFrameNode.stop] at hStart hStop
  simp only [Frames.PageFrameNode.mk.injEq]
  omega

/-- A process was created and has made proper calls since. -/
def Lived (profile : BuildProfile) (virtualBits : Nat) (s : System) (space : VirtualAddressSpace)
    (m : Machine) : Prop :=
  ∃ paging m₀ space₀, cloneAddressSpace s.machine s.kernel = .ok (paging, m₀) ∧
    VirtualAddressSpace.new paging virtualBits = .ok space₀ ∧
    ProperCalls profile (space₀, m₀) (space, m)

/-- The end of a process whose areas are disjoint, and unbroken when they are
unmapped, leaves the free list that was there before the process: every frame
that was allocated for it is free again, and none of them twice. -/
theorem frames_returned {profile : BuildProfile} {virtualBits : Nat} (hBits : virtualBits ≤ 64)
    {s : System} (hReach : s.Reachable profile virtualBits) {space : VirtualAddressSpace}
    {m : Machine} (hLived : Lived profile virtualBits s space m) (hDisjoint : space.AreasDisjoint)
    (hUnbroken : UnbrokenInTurn profile space.pageTables
      (space.virtualMemoryAreas.entries.map Prod.snd) m) :
    ∃ m₁ m₂, space.drop profile m = .ok m₁ ∧ space.pageTables.drop m₁ = .ok m₂ ∧
      m₂.frames.blocks = s.machine.frames.blocks := by
  obtain ⟨paging, m₀, space₀, hClone, hNew, hCalls⟩ := hLived
  obtain ⟨ledger, h⟩ := System.Fits.reachable hBits hReach
  obtain ⟨hDepth, ledger₀, hCloned⟩ :=
    (clone_spec h.ledger_fits h.kernel_fits.depth_eq h.kernel_fits.root_own).of_ok hClone
  have hProcess := ProcessFits.cloned hBits h.kernel_fits hDepth hCloned hNew
  obtain ⟨-, rfl, -⟩ := VirtualAddressSpace.new_placed hBits hNew
  obtain ⟨ledger₁, h₁⟩ := ((Accounts.cloned h.ledger_fits hCloned hProcess).calls hCalls).2 hDisjoint
  have hBegun : Accounts s.machine.freeSet m ledger₁
      ⟨space, .unmapping (space.virtualMemoryAreas.entries.map Prod.snd)⟩ :=
    ⟨⟨h₁.toSpaceFits, h₁.depth_eq, h₁.placed, h₁.known, h₁.distinct⟩, h₁.fits, h₁.total_eq,
      h₁.page_of_use, h₁.area_of_use⟩
  obtain ⟨m₁, hDrop, ledger₂, h₂⟩ := (hBegun.unmapAreas profile hUnbroken).exists_ok trivial
  obtain ⟨m₂, hTables, hSound, hFree⟩ := h₂.dropTables.exists_ok trivial
  refine ⟨m₁, m₂, ?_, hTables, hSound.blocks_eq h.ledger_fits.tables.sound hFree⟩
  rw [List.foldlM_map] at hDrop
  exact hDrop

/-- The kernel, and a process with one page of heap. -/
def onePageProcess : Except Panic (VirtualAddressSpace × Machine × VirtualAddressSpace × Machine) := do
  let (kernel, m) ← createKernelProcess .development 48 smallMachine ⟨0, 1⟩ ⟨1, 2⟩
  let (paging, m₀) ← cloneAddressSpace m kernel
  let space ← VirtualAddressSpace.new paging 48
  let (space, m₀) ← SpaceCall.run .development (.userAllocMapFull none 1 .heap []) space m₀
  return (kernel, m, space, m₀)

theorem onePageProcess_areas : (onePageProcess.map fun r =>
    r.2.2.1.virtualMemoryAreas.entries.map fun entry => entry.2.range).toOption =
    some [⟨0x10000000, 0x10000001⟩] := by
  decide +kernel

theorem frames_returned_of_one_page : ∃ (s : System) (space : VirtualAddressSpace) (m m₁ m₂ : Machine),
    s.Reachable .development 48 ∧ Lived .development 48 s space m ∧
      space.drop .development m = .ok m₁ ∧ space.pageTables.drop m₁ = .ok m₂ ∧
      m₂.frames.blocks = s.machine.frames.blocks := by
  obtain ⟨r, hRun, hAreas⟩ := exists_ok_of_toOption onePageProcess_areas
  obtain ⟨⟨kernel, m⟩, hCreate, hRest⟩ := bind_ok hRun
  obtain ⟨⟨paging, m₀⟩, hClone, hRest⟩ := bind_ok hRest
  obtain ⟨space₀, hNew, hRest⟩ := bind_ok hRest
  obtain ⟨⟨space, m'⟩, hCall, hRest⟩ := bind_ok hRest
  obtain rfl : (kernel, m, space, m') = r := by simpa using hRest
  have hReach := System.Reachable.booted System.smallMachine_boots hCreate
  have hLived : Lived .development 48 ⟨m, kernel, fun _ => none, 2⟩ space m' :=
    ⟨paging, m₀, space₀, hClone, hNew, .single ⟨.userAllocMapFull none 1 .heap [], trivial, hCall⟩⟩
  obtain ⟨entry, hEntry, hRange⟩ : ∃ entry, space.virtualMemoryAreas.entries = [entry] ∧
      entry.2.range = ⟨0x10000000, 0x10000001⟩ := by
    simpa [List.map_eq_singleton_iff] using hAreas
  have hUnbroken : Unbroken m' space.pageTables.rootTable entry.2 := by
    intro page hPage hUsed page' hFirst hLast
    have hStart := hPage.1
    have hStop := hPage.2
    simp only [hRange] at hStart hStop hFirst
    obtain rfl : page' = page := by omega
    exact hasTable_of_used hUsed
  obtain ⟨m₁, m₂, hDrop, hTables, hBlocks⟩ := frames_returned (by decide) hReach hLived
    (VirtualAddressSpace.areasDisjoint_of_singleton hEntry)
    (by rw [hEntry]; exact ⟨hUnbroken, fun _ _ => trivial⟩)
  exact ⟨_, space, m', m₁, m₂, hReach, hLived, hDrop, hTables, hBlocks⟩

/-- The kernel, and a process with a heap that does not start with a level 1
table of its own, from whose second table one page was used. At its end the
process drops its memory. -/
def sparseHeap : Except Panic (VirtualAddressSpace × Machine × VirtualAddressSpace × Machine ×
    Machine × Machine × Machine) := do
  let (kernel, m) ← createKernelProcess .development 48 smallMachine ⟨0, 1⟩ ⟨1, 2⟩
  let (paging, m₀) ← cloneAddressSpace m kernel
  let space ← VirtualAddressSpace.new paging 48
  let (space, m₀) ← SpaceCall.run .development (.sysMapMemory 0x10000005000 0x400000) space m₀
  let (space, m₁) ← SpaceCall.run .development (.handlePageFault 0x10000202000) space m₀
  let m₂ ← space.drop .development m₁
  let m₃ ← space.pageTables.drop m₂
  return (kernel, m, space, m₀, m₁, m₂, m₃)

theorem sparseHeap_frames : (sparseHeap.map fun r => (r.2.1.frames.blocks,
    r.2.2.1.virtualMemoryAreas.entries.length,
    entryAt r.2.2.2.1 r.2.2.1.pageTables.rootTable 0x10000202,
    r.2.2.2.2.2.2.frames.blocks)).toOption =
    some ([⟨5, 59⟩], 1, unused, [⟨5, 7⟩, ⟨13, 51⟩]) := by
  decide +kernel

/-- The walk for the heap looks for the page behind the sixth entry of the
second table, but it is the third. Its frame stays allocated for ever. -/
theorem page_lost_in_sparse_heap : ∃ (s : System) (space : VirtualAddressSpace) (m m₁ m₂ : Machine),
    s.Reachable .development 48 ∧ Lived .development 48 s space m ∧ space.AreasDisjoint ∧
      space.drop .development m = .ok m₁ ∧ space.pageTables.drop m₁ = .ok m₂ ∧
      s.machine.frames.blocks = [⟨5, 59⟩] ∧ m₂.frames.blocks = [⟨5, 7⟩, ⟨13, 51⟩] := by
  obtain ⟨r, hRun, hFrames⟩ := exists_ok_of_toOption sparseHeap_frames
  obtain ⟨⟨kernel, m⟩, hCreate, hRest⟩ := bind_ok hRun
  obtain ⟨⟨paging, m₀⟩, hClone, hRest⟩ := bind_ok hRest
  obtain ⟨space₀, hNew, hRest⟩ := bind_ok hRest
  obtain ⟨⟨space₁, m₁⟩, hMap, hRest⟩ := bind_ok hRest
  obtain ⟨⟨space₂, m₂⟩, hFault, hRest⟩ := bind_ok hRest
  obtain ⟨m₃, hDrop, hRest⟩ := bind_ok hRest
  obtain ⟨m₄, hTables, hRest⟩ := bind_ok hRest
  obtain rfl : (kernel, m, space₂, m₁, m₂, m₃, m₄) = r := by simpa using hRest
  obtain rfl : space₁ = space₂ := by
    obtain ⟨m', -, hEq⟩ := bind_ok hFault
    simpa using congrArg Prod.fst (pure_ok hEq)
  obtain ⟨hBefore, hAreas, hUnused, hAfter⟩ : m.frames.blocks = [⟨5, 59⟩] ∧
      space₁.virtualMemoryAreas.entries.length = 1 ∧
      entryAt m₁ space₁.pageTables.rootTable 0x10000202 = unused ∧
      m₄.frames.blocks = [⟨5, 7⟩, ⟨13, 51⟩] := by
    simpa using hFrames
  have hLived : Lived .development 48 ⟨m, kernel, fun _ => none, 2⟩ space₁ m₂ :=
    ⟨paging, m₀, space₀, hClone, hNew, .tail
      (.single ⟨.sysMapMemory 0x10000005000 0x400000, trivial, hMap⟩)
      ⟨.handlePageFault 0x10000202000, hUnused, hFault⟩⟩
  obtain ⟨area, hArea⟩ := List.length_eq_one_iff.mp hAreas
  exact ⟨_, space₁, m₂, m₃, m₄, System.Reachable.booted System.smallMachine_boots hCreate, hLived,
    VirtualAddressSpace.areasDisjoint_of_singleton hArea, hDrop, hTables, hBefore, hAfter⟩

end D3OS.Memory
