import D3OS.Memory.SpaceCalls

/-! What the entries of an address space lead to, in terms of the ledger: a
user page has a frame of its own, and all other pages lead to the frames with
their own numbers, which user code cannot reach. The calls of a process, the
steps of its end and the growth of the kernel keep it that way. -/
namespace D3OS.Memory

open Outcome
open PageTableEntry (unused)
open PageTableFlags (PRESENT WRITABLE USER_ACCESSIBLE)
open Paging

/-- User code can reach the frame of the entry. -/
def PageTableEntry.IsUser (entry : PageTableEntry) : Prop := entry.flags &&& USER_ACCESSIBLE ≠ 0

instance (entry : PageTableEntry) : Decidable entry.IsUser := inferInstanceAs (Decidable (_ ≠ _))

theorem not_isUser_unused : ¬ unused.IsUser := by decide

theorem ne_unused_of_isUser {entry : PageTableEntry} (h : entry.IsUser) : entry ≠ unused := by
  rintro rfl
  exact not_isUser_unused h

theorem isUser_userPage (frame : Nat) : (PageTableEntry.mk frame USER_PAGE_FLAGS).IsUser := by
  show USER_PAGE_FLAGS &&& USER_ACCESSIBLE ≠ 0
  decide

/-- The frame of a kernel page is the one with the number of the page. -/
def IdentityEntry (page : Nat) (entry : PageTableEntry) : Prop :=
  ¬ entry.IsUser ∧ entry.frame = page ∧ page < USER_SPACE_PAGE

/-- What the entries of a process lead to, and which areas of it are backed by
frames of its own. -/
structure SpaceFits (m : Machine) (ledger : Ledger) (root : Nat) (areas : List VirtualMemoryArea) :
    Prop where
  root_own : ledger.own root = some ⟨root, 4, 0⟩
  view : ∀ page < 512 ^ 4, entryAt m root page ≠ unused →
    (entryAt m root page).IsUser ∧
        ledger.use (entryAt m root page).frame = some (.page root page) ∨
      IdentityEntry page (entryAt m root page)
  stack : ∀ area ∈ areas, area.space = .kernel → ∀ page ∈ area.pages,
    ledger.use page = some (.area root area.range.start) ∧ entryAt m root page ≠ unused

namespace Spares

variable {root : Nat} {m m₁ m₂ : Machine} {ledger ledger₁ ledger₂ : Ledger}

theorem refl (root : Nat) (h : ledger.Fits m) : Spares root m ledger m ledger :=
  ⟨h, fun _ => id, fun _ => id, fun _ _ _ _ => rfl⟩

theorem trans (h₁ : Spares root m ledger m₁ ledger₁) (h₂ : Spares root m₁ ledger₁ m₂ ledger₂) :
    Spares root m ledger m₂ ledger₂ where
  fits := h₂.fits
  roots hNe hOwn := h₂.roots hNe (h₁.roots hNe hOwn)
  uses hNe hUse := h₂.uses hNe (h₁.uses hNe hUse)
  entries hNe hOwn page hPage :=
    (h₂.entries hNe (h₁.roots hNe hOwn) page hPage).trans (h₁.entries hNe hOwn page hPage)

end Spares

variable {page other count : Nat} {area vma : VirtualMemoryArea} {rest : List VirtualMemoryArea}
  {typ : VmaType}

namespace SpaceFits

variable {m m' : Machine} {ledger ledger' : Ledger} {root : Nat} {areas : List VirtualMemoryArea}

section

variable (h : SpaceFits m ledger root areas)

include h

/-- A user page has a frame of its own. -/
theorem use_of_isUser (hPage : page < 512 ^ 4) (hUser : (entryAt m root page).IsUser) :
    ledger.use (entryAt m root page).frame = some (.page root page) := by
  rcases h.view page hPage (ne_unused_of_isUser hUser) with ⟨-, hUse⟩ | hIdentity
  · exact hUse
  · exact absurd hUser hIdentity.1

/-- The pages of kernel areas can be translated. -/
theorem lt_of_stack (hFits : ledger.Fits m) (hArea : area ∈ areas) (hKernel : area.space = .kernel)
    (hPage : page ∈ area.pages) : page < USER_SPACE_PAGE :=
  hFits.below (.inr (.inr (by simp [(h.stack area hArea hKernel page hPage).1])))

/-- What happens in other address spaces does no harm. -/
theorem spared (hSpares : Spares other m ledger m' ledger') (hNe : root ≠ other)
    (hFits : ledger.Fits m) : SpaceFits m' ledger' root areas where
  root_own := hSpares.roots hNe h.root_own
  view := by
    intro page hPage hUsed
    rw [hSpares.entries hNe h.root_own page hPage] at hUsed ⊢
    refine (h.view page hPage hUsed).imp_left fun hOwn => ⟨hOwn.1, ?_⟩
    exact hSpares.uses hNe hOwn.2
  stack := by
    intro area hArea hKernel page hPage
    obtain ⟨hUse, hUsed⟩ := h.stack area hArea hKernel page hPage
    have hLt := h.lt_of_stack hFits hArea hKernel hPage
    refine ⟨hSpares.uses hNe hUse, ?_⟩
    rwa [hSpares.entries hNe h.root_own page (Nat.lt_trans hLt (by decide))]

/-- Frames for user pages. -/
theorem provided (hFits : ledger.Fits m) {first : Nat}
    (hMapped : UserMapped root m ledger first count m' ledger') :
    SpaceFits m' ledger' root areas where
  root_own := hMapped.keeps_own h.root_own
  view := by
    intro page hPage hUsed
    by_cases hIn : first ≤ page ∧ page < first + count
    · obtain ⟨frame, -, hEntry, hUse⟩ := hMapped.mapped hIn.1 hIn.2
      rw [hEntry]
      exact .inl ⟨isUser_userPage frame, hUse⟩
    · rw [hMapped.other hPage hIn] at hUsed ⊢
      exact (h.view page hPage hUsed).imp_left fun hOwn => ⟨hOwn.1, hMapped.keeps_use hOwn.2⟩
  stack := by
    intro area hArea hKernel page hPage
    obtain ⟨hUse, hUsed⟩ := h.stack area hArea hKernel page hPage
    have hLt := h.lt_of_stack hFits hArea hKernel hPage
    refine ⟨hMapped.keeps_use hUse, ?_⟩
    by_cases hIn : first ≤ page ∧ page < first + count
    · obtain ⟨frame, -, hEntry, -⟩ := hMapped.mapped hIn.1 hIn.2
      rw [hEntry]
      exact ne_unused_of_isUser (isUser_userPage frame)
    · rwa [hMapped.other (Nat.lt_trans hLt (by decide)) hIn]

/-- A block of frames for a kernel area. -/
theorem areaAllocated (hFits : ledger.Fits m) {areas' : List VirtualMemoryArea}
    (hStop : vma.range.stop = vma.range.start + count)
    (hAllocated : AreaAllocated root m ledger vma.range.start count m' ledger')
    (hAreas : ∀ area ∈ areas', area = vma ∨ area ∈ areas) : SpaceFits m' ledger' root areas' where
  root_own := hAllocated.keeps_own h.root_own
  view := by
    intro page hPage hUsed
    by_cases hIn : vma.range.start ≤ page ∧ page < vma.range.start + count
    · obtain ⟨hFree, -, flags, hEntry, hUser, -⟩ := hAllocated.mapped hIn.1 hIn.2
      rw [hEntry]
      exact .inr ⟨fun hIs => hIs hUser, rfl, hFits.below (.inl hFree)⟩
    · rw [hAllocated.other hPage hIn] at hUsed ⊢
      exact (h.view page hPage hUsed).imp_left fun hOwn => ⟨hOwn.1, hAllocated.keeps_use hOwn.2⟩
  stack := by
    intro area hArea hKernel page hPage
    rcases hAreas area hArea with rfl | hOld
    · obtain ⟨-, hUse, flags, hEntry, -, hFlags⟩ := hAllocated.mapped hPage.1 (hStop ▸ hPage.2)
      refine ⟨hUse, ?_⟩
      rw [hEntry]
      exact fun hUnused => hFlags (congrArg PageTableEntry.flags hUnused)
    · obtain ⟨hUse, hUsed⟩ := h.stack area hOld hKernel page hPage
      have hLt := h.lt_of_stack hFits hOld hKernel hPage
      refine ⟨hAllocated.keeps_use hUse, ?_⟩
      rwa [hAllocated.other (Nat.lt_trans hLt (by decide))]
      rintro ⟨hFirst, hLast⟩
      exact (hFits.taken hUse).1 (hAllocated.mapped hFirst hLast).1

end

/-- Pages whose frames belong to the process: those of user space, and those
of its kernel areas. -/
def Owned (ledger : Ledger) (root : Nat) (pages : List Nat) : Prop :=
  ∀ page ∈ pages, page < 512 ^ 4 ∧
    (page < USER_SPACE_PAGE → ∃ start, ledger.use page = some (.area root start))

variable {pages : List Nat}

section

variable (h : SpaceFits m ledger root areas)

include h

/-- The frame behind an owned page, and what it is used for. -/
theorem use_of_owned (hOwned : Owned ledger root pages) (hMem : page ∈ pages)
    (hUsed : entryAt m root page ≠ unused) :
    ledger.use (entryAt m root page).frame = some (.page root page) ∨
      (entryAt m root page).frame = page ∧ ∃ start, ledger.use page = some (.area root start) := by
  obtain ⟨hLt, hArea⟩ := hOwned page hMem
  rcases h.view page hLt hUsed with ⟨-, hUse⟩ | ⟨-, hFrame, hBelow⟩
  · exact .inl hUse
  · exact .inr ⟨hFrame, hArea hBelow⟩

theorem exists_use (hOwned : Owned ledger root pages) (hMem : page ∈ pages)
    (hUsed : entryAt m root page ≠ unused) :
    ∃ use, ledger.use (entryAt m root page).frame = some use ∧ use.root = root := by
  rcases h.use_of_owned hOwned hMem hUsed with hUse | ⟨hFrame, start, hUse⟩
  · exact ⟨_, hUse, rfl⟩
  · exact ⟨_, hFrame.symm ▸ hUse, rfl⟩

theorem releasable (hFits : ledger.Fits m) (hOwned : Owned ledger root pages)
    : Releasable m ledger.own root pages where
  lt page hMem := (hOwned page hMem).1
  allocated page hMem hUsed := by
    obtain ⟨use, hUse, -⟩ := h.exists_use hOwned hMem hUsed
    exact hFits.taken hUse
  distinct := by
    intro page hMem page' hMem' hUsed hUsed' hEq
    rcases h.use_of_owned hOwned hMem hUsed with hUse | ⟨hFrame, start, hUse⟩ <;>
      rcases h.use_of_owned hOwned hMem' hUsed' with hUse' | ⟨hFrame', start', hUse'⟩
    · rw [hEq, hUse'] at hUse
      simpa [eq_comm] using hUse
    · rw [hEq, hFrame', hUse'] at hUse
      simp at hUse
    · rw [← hFrame, hEq, hUse'] at hUse
      simp at hUse
    · exact hFrame.symm.trans (hEq.trans hFrame')

/-- Owned pages are released, and no page of the areas that are left is one
of them. -/
theorem released (hFits : ledger.Fits m) (hOwned : Owned ledger root pages)
    (hReleased : Released root m ledger pages m' ledger') (hRest : ∀ area ∈ rest, area ∈ areas)
    (hApart : ∀ area ∈ rest, area.space = .kernel → ∀ page ∈ area.pages, page ∉ pages) :
    SpaceFits m' ledger' root rest := by
  -- A frame goes back only from behind one of the pages.
  have hKeep : ∀ {frame use}, ledger.use frame = some use →
      (∀ page ∈ pages, entryAt m root page ≠ unused → (entryAt m root page).frame ≠ frame) →
      ledger'.use frame = some use := by
    intro frame use hUse hNot
    refine hReleased.use_iff.mpr ⟨hUse, fun hFree => ?_⟩
    rcases hReleased.freed hFree with hFree | ⟨node, hOwn, -⟩ | ⟨page, hMem, hUsed, hFrame⟩
    · exact (hFits.taken hUse).1 hFree
    · simp [(hFits.taken hUse).2.1] at hOwn
    · exact hNot page hMem hUsed hFrame
  refine ⟨hReleased.root_own, ?_, ?_⟩
  · intro page hPage hUsed
    have hNot : page ∉ pages := by
      intro hMem
      rw [hReleased.view page hPage, if_pos hMem] at hUsed
      exact hUsed rfl
    rw [hReleased.view page hPage, if_neg hNot] at hUsed ⊢
    refine (h.view page hPage hUsed).imp_left fun hOwn => ⟨hOwn.1, hKeep hOwn.2 ?_⟩
    intro page' hMem hUsed' hFrame
    rcases h.use_of_owned hOwned hMem hUsed' with hUse | ⟨hFrame', start, hUse⟩
    · rw [hFrame, hOwn.2] at hUse
      exact hNot (by simp_all)
    · rw [← hFrame', hFrame, hOwn.2] at hUse
      simp at hUse
  · intro area hArea hKernel page hPage
    have hNot := hApart area hArea hKernel page hPage
    obtain ⟨hUse, hUsed⟩ := h.stack area (hRest area hArea) hKernel page hPage
    have hLt := h.lt_of_stack hFits (hRest area hArea) hKernel hPage
    refine ⟨hKeep hUse ?_, ?_⟩
    · intro page' hMem hUsed' hFrame
      rcases h.use_of_owned hOwned hMem hUsed' with hUse' | ⟨hFrame', -⟩
      · rw [hFrame, hUse] at hUse'
        simp at hUse'
      · exact hNot (hFrame ▸ hFrame'.symm ▸ hMem)
    · rw [hReleased.view page (Nat.lt_trans hLt (by decide)), if_neg hNot]
      exact hUsed

end

end SpaceFits

/-- The memory of a process fits the ledger. -/
structure ProcessFits (m : Machine) (ledger : Ledger) (process : ProcessMemory) : Prop
    extends SpaceFits m ledger process.space.pageTables.rootTable process.areas where
  depth_eq : process.space.pageTables.depth = 4
  placed : process.space.Placed
  known : ∀ area ∈ process.areas, (area.start, area) ∈ process.space.virtualMemoryAreas.entries
  distinct : process.areas.Pairwise fun area other => area.range.start ≠ other.range.start

namespace ProcessFits

variable {profile : BuildProfile} {m m' : Machine} {ledger ledger' : Ledger}

variable {space space' : VirtualAddressSpace}

theorem mem_areas_running :
    area ∈ (ProcessMemory.mk space .running).areas ↔
      ∃ entry ∈ space.virtualMemoryAreas.entries, entry.2 = area :=
  List.mem_map

theorem known_running (hPlaced : space.Placed) :
    ∀ area ∈ (ProcessMemory.mk space .running).areas,
      (area.start, area) ∈ space.virtualMemoryAreas.entries := by
  intro area hArea
  obtain ⟨entry, hMem, rfl⟩ := mem_areas_running.mp hArea
  rw [← hPlaced.key hMem]
  exact hMem

/-- The areas are stored under different addresses. -/
theorem distinct_running (hPlaced : space.Placed) :
    (ProcessMemory.mk space .running).areas.Pairwise
      fun area other => area.range.start ≠ other.range.start := by
  refine List.pairwise_map.mpr (space.virtualMemoryAreas.sorted.imp_of_mem ?_)
  intro entry other hMem hMem' hLt hEq
  rw [hPlaced.key hMem, hPlaced.key hMem', VirtualMemoryArea.start, VirtualMemoryArea.start, hEq]
    at hLt
  exact Nat.lt_irrefl _ hLt

theorem of_space (hPlaced : space.Placed) (hDepth : space.pageTables.depth = 4)
    (h : SpaceFits m ledger space.pageTables.rootTable (ProcessMemory.mk space .running).areas) :
    ProcessFits m ledger ⟨space, .running⟩ :=
  ⟨h, hDepth, hPlaced, known_running hPlaced, distinct_running hPlaced⟩

theorem spared {process : ProcessMemory} (h : ProcessFits m ledger process)
    (hSpares : Spares other m ledger m' ledger') (hNe : process.space.pageTables.rootTable ≠ other)
    (hFits : ledger.Fits m) : ProcessFits m' ledger' process :=
  ⟨h.toSpaceFits.spared hSpares hNe hFits, h.depth_eq, h.placed, h.known, h.distinct⟩

/-- A new area, and those that were there before. -/
theorem mem_areas_of_stored {kind : MemorySpace} (hStored : space.Stored kind typ vma space')
    (hArea : area ∈ (ProcessMemory.mk space' .running).areas) :
    area = vma ∨ area ∈ (ProcessMemory.mk space .running).areas := by
  obtain ⟨entry, hMem, rfl⟩ := mem_areas_running.mp hArea
  rcases hStored.mem.mp hMem with rfl | ⟨hOld, -⟩
  · exact .inl rfl
  · exact .inr (mem_areas_running.mpr ⟨entry, hOld, rfl⟩)

/-- A user area needs no frames by itself. -/
theorem stored (h : ProcessFits m ledger ⟨space, .running⟩)
    (hStored : space.Stored .user typ vma space') :
    ProcessFits m ledger ⟨space', .running⟩ := by
  have hSame := hStored.pageTables_eq
  refine of_space hStored.placed (hSame ▸ h.depth_eq) ?_
  rw [hSame]
  refine ⟨h.root_own, h.view, fun area hArea hKernel => ?_⟩
  rcases mem_areas_of_stored hStored hArea with rfl | hOld
  · simp [hStored.space_eq] at hKernel
  · exact h.stack area hOld hKernel

section

variable (hFits : ledger.Fits m) (h : ProcessFits m ledger ⟨space, .running⟩)

include hFits h

theorem provided {first : Nat}
    (hMapped : UserMapped space.pageTables.rootTable m ledger first count m' ledger') :
    ProcessFits m' ledger' ⟨space, .running⟩ :=
  of_space h.placed h.depth_eq (h.toSpaceFits.provided hFits hMapped)

theorem areaAllocated (hStored : space.Stored .kernel typ vma space')
    (hStop : vma.range.stop = vma.range.start + count)
    (hAllocated : AreaAllocated space.pageTables.rootTable m ledger vma.range.start count m'
      ledger') : ProcessFits m' ledger' ⟨space', .running⟩ := by
  have hSame := hStored.pageTables_eq
  refine of_space hStored.placed (hSame ▸ h.depth_eq) ?_
  rw [hSame]
  exact h.toSpaceFits.areaAllocated hFits hStop hAllocated
    fun area hArea => mem_areas_of_stored hStored hArea

/-- A part of a call changes nothing in other address spaces. -/
theorem part (hPart : Part profile (space, m) (space', m')) :
    ∃ ledger', Spares space.pageTables.rootTable m ledger m' ledger' ∧
      space'.pageTables = space.pageTables ∧ ProcessFits m' ledger' ⟨space', .running⟩ := by
  cases hPart with
  | stored hStored => exact ⟨ledger, .refl _ hFits, hStored.pageTables_eq, h.stored hStored⟩
  | provided hValid hMap =>
    obtain ⟨-, -, ledger', hMapped⟩ :=
      (map_user_spec profile hFits h.depth_eq h.root_own hValid).of_ok hMap
    exact ⟨ledger', hMapped.toSpares, rfl, h.provided hFits hMapped⟩
  | area hRun =>
    obtain ⟨vma, ledger', hStored, hStop, hAllocated⟩ :=
      kernelAllocMapIdentity_ok hFits h.placed h.depth_eq h.root_own hRun
    exact ⟨ledger', hAllocated.toSpares, hStored.pageTables_eq,
      h.areaAllocated hFits hStored hStop hAllocated⟩

theorem parts (hParts : Parts profile (space, m) (space', m')) :
    ∃ ledger', Spares space.pageTables.rootTable m ledger m' ledger' ∧
      space'.pageTables = space.pageTables ∧ ProcessFits m' ledger' ⟨space', .running⟩ := by
  generalize hEnd : (space', m') = state at hParts
  induction hParts generalizing space' m' with
  | refl =>
    obtain ⟨rfl, rfl⟩ := Prod.mk.inj hEnd
    exact ⟨ledger, .refl _ hFits, rfl, h⟩
  | tail _ hPart ih =>
    rename_i middle last
    obtain ⟨space₁, m₁⟩ := middle
    obtain ⟨ledger₁, hSpares, hSame, hFits₁⟩ := ih rfl
    obtain ⟨ledger₂, hSpares₂, hSame₂, hFits₂⟩ := hFits₁.part hSpares.fits (hEnd ▸ hPart)
    rw [hSame] at hSpares₂
    exact ⟨ledger₂, hSpares.trans hSpares₂, hSame₂.trans hSame, hFits₂⟩

end

/-- The pages that `drop` visits for an area belong to the process. -/
theorem visited_owned (hFits : ledger.Fits m)
    (h : ProcessFits m ledger ⟨space, .unmapping (area :: rest)⟩) :
    SpaceFits.Owned ledger space.pageTables.rootTable
        (visited m area.range.stop 4 space.pageTables.rootTable 0 area.range.start).1 ∧
      ∀ other ∈ rest, other.space = .kernel → ∀ page ∈ other.pages,
        page ∉ (visited m area.range.stop 4 space.pageTables.rootTable 0 area.range.start).1 := by
  have hMem : area ∈ (ProcessMemory.mk space (.unmapping (area :: rest))).areas :=
    List.mem_cons_self
  have hForward := h.placed.forward (h.known area hMem)
  have hBound := h.placed.bound (h.known area hMem)
  have hUser := h.placed.user (h.known area hMem)
  simp only at hForward hBound hUser
  cases hSpace : area.space with
  | user =>
    -- A walk that starts in user space stays there.
    have hAbove : ∀ page ∈ (visited m area.range.stop 4 space.pageTables.rootTable 0
        area.range.start).1, USER_SPACE_PAGE ≤ page ∧ page < 512 ^ 4 := by
      intro page hPage
      have hTop := visited_top (by omega) hPage
      have hStart := hUser hSpace
      simp only [USER_SPACE_PAGE, Page.containingAddress, USER_SPACE_START, PAGE_SIZE] at hStart ⊢
      omega
    refine ⟨fun page hPage => ⟨(hAbove page hPage).2, fun hBelow => ?_⟩, ?_⟩
    · exact absurd (hAbove page hPage).1 (by omega)
    · intro other hOther hKernel page hPage hVisited
      have hLt := h.lt_of_stack hFits (List.mem_cons_of_mem _ hOther) hKernel hPage
      exact absurd (hAbove page hVisited).1 (by omega)
  | kernel =>
    -- All pages of a kernel area are mapped, so the walk keeps to them.
    have hTables : ∀ page, area.range.start ≤ page → page < area.range.stop →
        hasTable m 4 space.pageTables.rootTable page = true := fun page hFirst hLast =>
      hasTable_of_used (h.stack area hMem hSpace page ⟨hFirst, hLast⟩).2
    have hIff := mem_visited_iff (by omega) hTables
    refine ⟨fun page hPage => ?_, ?_⟩
    · have hIn := (hIff page).mp hPage
      exact ⟨by omega, fun _ => ⟨_, (h.stack area hMem hSpace page hIn).1⟩⟩
    · intro other hOther hKernel page hPage hVisited
      have hUse := (h.stack area hMem hSpace page ((hIff page).mp hVisited)).1
      rw [(h.stack other (List.mem_cons_of_mem _ hOther) hKernel page hPage).1] at hUse
      have hStart : other.range.start = area.range.start := by simpa using hUse
      exact (List.pairwise_cons.mp h.distinct).1 other hOther hStart.symm

/-- One step of `drop`. -/
theorem unmapArea (profile : BuildProfile) (hFits : ledger.Fits m)
    (h : ProcessFits m ledger ⟨space, .unmapping (area :: rest)⟩) :
    Yields True (space.pageTables.unmap profile m area.range true) fun m' =>
      ∃ ledger', Released space.pageTables.rootTable m ledger
          (visited m area.range.stop 4 space.pageTables.rootTable 0 area.range.start).1 m' ledger' ∧
        ProcessFits m' ledger' ⟨space, .unmapping rest⟩ := by
  obtain ⟨hOwned, hApart⟩ := h.visited_owned hFits
  have hMem : area ∈ (ProcessMemory.mk space (.unmapping (area :: rest))).areas :=
    List.mem_cons_self
  have hForward := h.placed.forward (h.known area hMem)
  have hBound := h.placed.bound (h.known area hMem)
  simp only at hForward hBound
  have hWalkable : Walkable area.range := ⟨hForward, fun page _ hLast => valid_of_lt (by omega)⟩
  refine ((unmap_spec profile hFits h.depth_eq h.root_own (valid_of_lt (by omega))
    (h.releasable hFits hOwned) fun page hPage hUsed =>
      h.exists_use hOwned hPage hUsed).weaken fun _ => hWalkable).mono ?_
  rintro m' ⟨ledger', hReleased⟩
  refine ⟨ledger', hReleased, ?_, h.depth_eq, h.placed, ?_, ?_⟩
  · exact h.toSpaceFits.released hFits hOwned hReleased
      (fun other hOther => List.mem_cons_of_mem _ hOther) hApart
  · exact fun other hOther => h.known other (List.mem_cons_of_mem _ hOther)
  · exact (List.pairwise_cons.mp h.distinct).2

end ProcessFits

/-- The address space of the kernel fits the ledger: all its entries are
those of kernel pages. -/
structure KernelFits (m : Machine) (ledger : Ledger) (space : VirtualAddressSpace) : Prop where
  root_own : ledger.own space.pageTables.rootTable = some ⟨space.pageTables.rootTable, 4, 0⟩
  depth_eq : space.pageTables.depth = 4
  placed : space.Placed
  view : ∀ page < 512 ^ 4, entryAt m space.pageTables.rootTable page ≠ unused →
    IdentityEntry page (entryAt m space.pageTables.rootTable page)
  stack : ∀ entry ∈ space.virtualMemoryAreas.entries, entry.2.typ = .kernelStack →
    ∀ page ∈ entry.2.pages, ∃ start,
      ledger.use page = some (.area space.pageTables.rootTable start)

namespace KernelFits

variable {profile : BuildProfile} {m m' : Machine} {ledger ledger' : Ledger}
  {space space' : VirtualAddressSpace}

theorem spared (h : KernelFits m ledger space) (hSpares : Spares other m ledger m' ledger')
    (hNe : space.pageTables.rootTable ≠ other) :
    KernelFits m' ledger' space where
  root_own := hSpares.roots hNe h.root_own
  depth_eq := h.depth_eq
  placed := h.placed
  view := by
    intro page hPage
    rw [hSpares.entries hNe h.root_own page hPage]
    exact h.view page hPage
  stack := by
    intro entry hMem hTyp page hPage
    obtain ⟨start, hUse⟩ := h.stack entry hMem hTyp page hPage
    exact ⟨start, hSpares.uses hNe hUse⟩

/-- A kernel area for a stack of a kernel thread. -/
theorem newStack {tag : List UInt8} {pages : PageRange} (hFits : ledger.Fits m)
    (h : KernelFits m ledger space)
    (hRun : space.allocKernelStack profile m tag = .ok (pages, space', m')) :
    ∃ ledger', Spares space.pageTables.rootTable m ledger m' ledger' ∧
      space'.pageTables = space.pageTables ∧ KernelFits m' ledger' space' := by
  obtain ⟨vma, ledger', hStored, hStop, hAllocated⟩ :=
    kernelAllocMapIdentity_ok hFits h.placed h.depth_eq h.root_own hRun
  have hSame := hStored.pageTables_eq
  refine ⟨ledger', hAllocated.toSpares, hSame, ?_, hSame ▸ h.depth_eq, hStored.placed, ?_, ?_⟩
  · rw [hSame]
    exact hAllocated.keeps_own h.root_own
  · rw [hSame]
    intro page hPage hUsed
    by_cases hIn : vma.range.start ≤ page ∧ page < vma.range.start + KERNEL_STACK_PAGES
    · obtain ⟨hFree, -, flags, hEntry, hUser, -⟩ := hAllocated.mapped hIn.1 hIn.2
      rw [hEntry]
      exact ⟨fun hIs => hIs hUser, rfl, hFits.below (.inl hFree)⟩
    · rw [hAllocated.other hPage hIn] at hUsed ⊢
      exact h.view page hPage hUsed
  · rw [hSame]
    intro entry hMem hTyp page hPage
    rcases hStored.mem.mp hMem with rfl | ⟨hOld, -⟩
    · exact ⟨_, (hAllocated.mapped hPage.1 (hStop ▸ hPage.2)).2.1⟩
    · obtain ⟨start, hUse⟩ := h.stack entry hOld hTyp page hPage
      exact ⟨start, hAllocated.keeps_use hUse⟩

/-- Device memory, which is no frame of the allocator. -/
theorem newDevice {startPhysAddr endPhysAddr : Nat} {flags : PageTableFlags} {tag : List UInt8}
    (hFits : ledger.Fits m) (h : KernelFits m ledger space)
    (hBelow : endPhysAddr ≤ USER_SPACE_START)
    (hRun : space.kernelMapDevmIdentity profile m startPhysAddr endPhysAddr flags .deviceMemory
      tag = .ok (page, space', m')) :
    ∃ ledger', Spares space.pageTables.rootTable m ledger m' ledger' ∧
      space'.pageTables = space.pageTables ∧ KernelFits m' ledger' space' := by
  obtain ⟨vma, flags', own', hStored, hStop, hUser, hProvides, hIdentity⟩ :=
    kernelMapDevmIdentity_ok hFits h.placed h.depth_eq h.root_own hBelow hRun
  have hSame := hStored.pageTables_eq
  refine ⟨_, hProvides.toSpares, hSame, ?_, hSame ▸ h.depth_eq, hStored.placed, ?_, ?_⟩
  · rw [hSame]
    exact hProvides.keeps_own h.root_own
  · rw [hSame]
    intro page hPage hUsed
    by_cases hIn : vma.range.start ≤ page ∧
        page < vma.range.start + (vma.range.stop - vma.range.start)
    · rw [hIdentity.mapped hIn.1 hIn.2]
      exact ⟨fun hIs => hIs hUser, rfl, by omega⟩
    · rw [hIdentity.other hPage hIn] at hUsed ⊢
      exact h.view page hPage hUsed
  · rw [hSame]
    intro entry hMem hTyp page hPage
    rcases hStored.mem.mp hMem with rfl | ⟨hOld, -⟩
    · simp [hStored.typ_eq] at hTyp
    · obtain ⟨start, hUse⟩ := h.stack entry hOld hTyp page hPage
      exact ⟨start, hUse⟩

/-- An area of the kernel that needs no frames. -/
theorem stored (h : KernelFits m ledger space) (hStored : space.Stored .kernel typ vma space')
    (hTyp : typ ≠ .kernelStack) :
    KernelFits m ledger space' := by
  have hSame := hStored.pageTables_eq
  refine ⟨hSame ▸ h.root_own, hSame ▸ h.depth_eq, hStored.placed, hSame ▸ h.view, ?_⟩
  rw [hSame]
  intro entry hMem hStack
  rcases hStored.mem.mp hMem with rfl | ⟨hOld, -⟩
  · exact absurd (hStored.typ_eq.symm.trans hStack) hTyp
  · exact h.stack entry hOld hStack

/-- `create_kernel_process`. -/
theorem created {virtualBits : Nat} (hBits : virtualBits ≤ 64) (hMemory : BootMemory m)
    {kernelImage heap : Frames.PhysFrameRange}
    (hCreate : createKernelProcess profile virtualBits m kernelImage heap = .ok (space, m')) :
    ∃ ledger, ledger.Fits m' ∧ KernelFits m' ledger space := by
  obtain ⟨⟨paging, m₁⟩, hPaging, hCreate⟩ := bind_ok hCreate
  obtain ⟨space₁, hNew, hCreate⟩ := bind_ok hCreate
  obtain ⟨heapPage, -, hCreate⟩ := bind_ok hCreate
  obtain ⟨⟨heapArea, space₂⟩, hHeap, hCreate⟩ := bind_ok hCreate
  obtain ⟨heapVma, hHeapVma, hCreate⟩ := bind_ok hCreate
  obtain ⟨imagePage, -, hCreate⟩ := bind_ok hCreate
  obtain ⟨⟨imageArea, space₃⟩, hImage, hCreate⟩ := bind_ok hCreate
  obtain ⟨imageVma, hImageVma, hCreate⟩ := bind_ok hCreate
  obtain ⟨rfl, rfl⟩ : space₃ = space ∧ m₁ = m' := by simpa using hCreate
  obtain rfl := expectSome_ok hHeapVma
  obtain rfl := expectSome_ok hImageVma
  obtain ⟨own, limit, hLimit, -, hDepth, hRoot, hGrows, hView⟩ :=
    createKernelAddressSpace_ok hMemory.sound hPaging
  obtain ⟨hPlaced, rfl, hEmpty⟩ := VirtualAddressSpace.new_placed hBits hNew
  have hBelow : ∀ {frame}, frame ∈ m₁.freeSet ∨ own frame ≠ none ∨ (none : Option Use) ≠ none →
      frame < USER_SPACE_PAGE := by
    rintro frame (hFree | hSome | hSome)
    · exact hMemory.below frame (hGrows.shrinks hFree)
    · obtain ⟨node, hNode⟩ := Option.ne_none_iff_exists'.mp hSome
      exact hMemory.below frame (hGrows.attached hNode rfl).2
    · exact absurd rfl hSome
  have hFirst : KernelFits m₁ ⟨own, fun _ => none⟩ space₁ := by
    refine ⟨hRoot, hDepth, hPlaced, ?_, ?_⟩
    · intro page hPage hUsed
      rw [hView page hPage] at hUsed ⊢
      split at hUsed
      case isFalse => exact absurd rfl hUsed
      case isTrue hLt =>
        rw [if_pos hLt]
        exact ⟨fun hIs => hIs (by show (PRESENT ||| WRITABLE) &&& USER_ACCESSIBLE = 0; decide), rfl,
          Nat.lt_of_lt_of_le hLt (hMemory.limit limit hLimit)⟩
    · simp [hEmpty, SortedMap.empty]
  have hHeapStored := (hPlaced.allocVma hHeap).1
  have hImageStored := (hHeapStored.placed.allocVma hImage).1
  exact ⟨⟨own, fun _ => none⟩, ⟨hGrows.tables, by simp, by simp, hBelow⟩,
    (hFirst.stored hHeapStored (by decide)).stored hImageStored (by decide)⟩

end KernelFits

end D3OS.Memory
