import D3OS.Memory.SpaceCalls

/-! The kernel reaches physical memory through the identity mapping that
`create_kernel_address_space` builds. Every frame that the allocator can hand
out lies below the limit up to which memory is mapped, and no mapping of user
space touches that part of a tree, so every frame stays reachable in the tree of
the kernel and in all its clones. -/
namespace D3OS.Memory

open Outcome
open Paging
open PageTableEntry (unused)
open PageTableFlags (PRESENT WRITABLE)

/-! ### Boot -/

/-- The allocator while the memory map is inserted, and all frames that it has
handed out so far. -/
inductive BootRun : Frames.History → Set Nat → Prop where
  | initial : BootRun Frames.History.initial ∅
  | step {s t : Frames.History} {returned : Set Nat} (hRun : BootRun s returned)
      (hStep : Frames.Step s t) : BootRun t (returned ∪ t.allocated)

/-- The limit lies above all frames that were inserted, except for frame 0. -/
def LimitAbove (s : Frames.History) : Prop :=
  ∀ frame ∈ s.inserted, frame ≠ 0 → frame < s.allocator.physLimit.getD 0

theorem LimitAbove.step {s t : Frames.History} (h : LimitAbove s) (hStep : Frames.Step s t) :
    LimitAbove t := by
  cases hStep with
  | insert region hRegion hNew hCall =>
    obtain ⟨limit, hLimit, hLe, hAbove⟩ := Frames.insert_limit hCall
    intro frame hFrame hZero
    simp only [hLimit, Option.getD_some]
    rcases hFrame with hOld | hInserted
    · exact Nat.lt_of_lt_of_le (h frame hOld hZero) hLe
    · exact hAbove frame hInserted hZero
  | alloc frameCount hCall =>
    obtain ⟨_, _, hCall⟩ := bind_ok hCall
    obtain ⟨rfl, rfl⟩ := Prod.mk.inj (pure_ok hCall)
    exact h
  | free range hRange hOwned hCall =>
    obtain ⟨_, _, hCall⟩ := bind_ok hCall
    obtain rfl := pure_ok hCall
    exact h

variable {m : Machine}

namespace BootRun

variable {s : Frames.History} {returned : Set Nat}

theorem reachable (h : BootRun s returned) : Frames.Reachable s := by
  induction h with
  | initial => exact .refl
  | step _ hStep ih => exact ih.tail hStep

theorem limitAbove (h : BootRun s returned) : LimitAbove s := by
  induction h with
  | initial => exact fun frame hFrame => absurd hFrame (Set.notMem_empty frame)
  | step _ hStep ih => exact ih.step hStep

theorem inserted_subset {s t : Frames.History} (hStep : Frames.Step s t) :
    s.inserted ⊆ t.inserted := by
  cases hStep with
  | insert => exact Set.subset_union_left
  | alloc | free => exact subset_rfl

theorem returned_subset (h : BootRun s returned) : returned ⊆ s.inserted \ {0} := by
  induction h with
  | initial => exact Set.empty_subset _
  | step hRun hStep ih =>
    refine Set.union_subset (ih.trans ?_) (hRun.reachable.conserves.step hStep).allocated
    exact Set.sdiff_subset_sdiff_left (inserted_subset hStep)

theorem freeSet_eq (h : BootRun s returned) (hFrames : m.frames = s.allocator) :
    m.freeSet = (s.inserted \ {0}) \ s.allocated := by
  rw [Machine.freeSet, hFrames]
  exact h.reachable.conserves.free

theorem sound (h : BootRun s returned) (hFrames : m.frames = s.allocator) : m.Sound := by
  refine ⟨hFrames ▸ h.reachable.conserves.wellFormed, ?_⟩
  rw [h.freeSet_eq hFrames]
  exact fun hZero => hZero.1.2 rfl

end BootRun

/-! ### Runs -/

/-- Physical memory with the tree of the kernel and its clones, the frames that
callers of `alloc` hold, and all frames that `alloc` has ever returned. -/
structure KernelMemory where
  machine : Machine
  trees : List Paging
  held : Set Nat
  returned : Set Nat

namespace KernelMemory

/-- After a call that allocates frames for itself: those that left the free
list were returned by `alloc`. -/
def after (s : KernelMemory) (m : Machine) (trees : List Paging) : KernelMemory :=
  { s with
    machine := m
    trees := trees
    returned := s.returned ∪ (s.machine.freeSet \ m.freeSet) }

/-- One call that returns. Only frames that are held are freed, and pages of
user space lie above physical memory. -/
inductive Step (profile : BuildProfile) : KernelMemory → KernelMemory → Prop where
  | alloc {s : KernelMemory} {m : Machine} {range : Frames.PhysFrameRange} (frameCount : Nat)
      (hCall : s.machine.alloc frameCount = .ok (range, m)) :
      Step profile s ⟨m, s.trees, s.held ∪ range.frames, s.returned ∪ range.frames⟩
  | free {s : KernelMemory} {m : Machine} (range : Frames.PhysFrameRange)
      (hRange : range.start < range.stop) (hOwned : range.frames ⊆ s.held)
      (hCall : s.machine.free range = .ok m) :
      Step profile s ⟨m, s.trees, s.held \ range.frames, s.returned⟩
  | fromOther {s : KernelMemory} {m : Machine} {other paging : Paging} (hTree : other ∈ s.trees)
      (hCall : Paging.fromOther s.machine other = .ok (paging, m)) :
      Step profile s (s.after m (s.trees ++ [paging]))
  | map {s : KernelMemory} {m : Machine} {tree : Paging} (pages : PageRange)
      (flags : PageTableFlags) (hTree : tree ∈ s.trees) (hValid : Page.Valid pages.start)
      (hAbove : s.machine.frames.physLimit.getD 0 ≤ pages.start)
      (hCall : tree.map profile s.machine pages .user flags = .ok m) :
      Step profile s (s.after m s.trees)
  | mapPhysical {s : KernelMemory} {m : Machine} {tree : Paging} (frames : Frames.PhysFrameRange)
      (pages : PageRange) (flags : PageTableFlags) (hTree : tree ∈ s.trees)
      (hValid : Page.Valid pages.start)
      (hAbove : s.machine.frames.physLimit.getD 0 ≤ pages.start)
      (hCall : tree.mapPhysical profile s.machine frames pages .user flags = .ok m) :
      Step profile s (s.after m s.trees)

/-- The states from `create_kernel_address_space` on, which runs when the memory
map is inserted. What the frames hold at that time does not matter. -/
inductive Reaches (profile : BuildProfile) : KernelMemory → Prop where
  | created {history : Frames.History} {returned : Set Nat} {m m' : Machine} {kernel : Paging}
      (hBoot : BootRun history returned) (hFrames : m.frames = history.allocator)
      (hCreate : createKernelAddressSpace profile m = .ok (kernel, m')) :
      Reaches profile (after ⟨m, [], history.allocated, returned⟩ m' [kernel])
  | step {s s' : KernelMemory} (hReach : Reaches profile s) (hStep : Step profile s s') :
      Reaches profile s'

/-! ### The invariant -/

/-- The tree maps every page below the limit to the frame with its number. -/
def IdentityBelow (limit : Nat) (m : Machine) (root : Nat) : Prop :=
  ∀ page < limit, entryAt m root page ≠ unused ∧ (entryAt m root page).frame = page

/-- Everything that can be allocated lies below the limit, and every tree maps
it to itself. The limit is a number of pages in the lower half of the address
space. -/
structure Covers (s : KernelMemory) (own : Nat → Option Node) (limit : Nat) : Prop where
  tables : Tables s.machine own
  physLimit_eq : s.machine.frames.physLimit = some limit
  limit_lt : limit < 2 ^ 35
  free_lt : ∀ frame ∈ s.machine.freeSet, frame < limit
  returned_lt : ∀ frame ∈ s.returned, frame < limit
  held : ∀ frame ∈ s.held, frame ∉ s.machine.freeSet ∧ own frame = none ∧ frame ≠ 0 ∧
    frame < limit
  trees : ∀ tree ∈ s.trees, tree.depth = 4 ∧
    own tree.rootTable = some ⟨tree.rootTable, 4, 0⟩ ∧
    IdentityBelow limit s.machine tree.rootTable

variable {limit : Nat} {tree : Paging} {profile : BuildProfile}

theorem IdentityBelow.congr {root : Nat} {m' : Machine} (h : IdentityBelow limit m root)
    (hSame : ∀ page < limit, entryAt m' root page = entryAt m root page) :
    IdentityBelow limit m' root := by
  intro page hPage
  rw [hSame page hPage]
  exact h page hPage

theorem IdentityBelow.translate {frame : Nat} (h : IdentityBelow limit m tree.rootTable)
    (hDepth : tree.depth = 4) (hFrame : frame < limit) :
    tree.translate m (PAGE_SIZE * frame) = some (PAGE_SIZE * frame) := by
  obtain ⟨hUsed, hEntry⟩ := h frame hFrame
  have hPage : PAGE_SIZE * frame / PAGE_SIZE = frame := Nat.mul_div_cancel_left _ (by decide)
  unfold Paging.translate
  rw [translateInTable_eq, hDepth, hPage, Nat.mul_mod_right]
  unfold entryAt at hUsed hEntry
  rw [if_neg (by simpa using hUsed), hEntry]
  rfl

namespace Covers

variable {s : KernelMemory} {own own' : Nat → Option Node} {limit root : Nat} {m : Machine}

section

variable (h : Covers s own limit)

include h

theorem page_lt {page : Nat} (hPage : page < limit) : page < 512 ^ 4 := by
  have hLimit := h.limit_lt
  omega

/-- The tables stay as they are, so all trees do. -/
theorem same_trees (hTables : Tables m own) (hRead : ∀ table node, own table = some node → ∀ index,
      m.read table index = s.machine.read table index) (tree : Paging) (hTree : tree ∈ s.trees) :
    tree.depth = 4 ∧ own tree.rootTable = some ⟨tree.rootTable, 4, 0⟩ ∧
      IdentityBelow limit m tree.rootTable := by
  obtain ⟨hDepth, hRoot, hIdentity⟩ := h.trees tree hTree
  refine ⟨hDepth, hRoot, hIdentity.congr fun page hPage => ?_⟩
  exact h.tables.entryAt_congr hTables hRoot hRoot (h.page_lt hPage)
    (fun leaf hLeaf => ⟨hLeaf, hRead leaf _ hLeaf _⟩) fun leaf hLeaf => .inl hLeaf

/-- A call takes free frames for tables below one root. -/
theorem grow (hGrows : Grows root s.machine own m own') {trees : List Paging}
    (hTrees : ∀ tree ∈ trees, tree.depth = 4 ∧
      own' tree.rootTable = some ⟨tree.rootTable, 4, 0⟩ ∧ IdentityBelow limit m tree.rootTable) :
    Covers (s.after m trees) own' limit where
  tables := hGrows.tables
  physLimit_eq := hGrows.physLimit_eq.trans h.physLimit_eq
  limit_lt := h.limit_lt
  free_lt frame hFrame := h.free_lt frame (hGrows.shrinks hFrame)
  returned_lt frame hFrame :=
    hFrame.elim (h.returned_lt frame) fun hTaken => h.free_lt frame hTaken.1
  held frame hFrame := by
    obtain ⟨hUsed, hNone, hRest⟩ := h.held frame hFrame
    refine ⟨fun hFree => hUsed (hGrows.shrinks hFree), ?_, hRest⟩
    cases hOwn : own' frame with
    | none => rfl
    | some node => exact absurd (hGrows.attached hOwn hNone).2 hUsed
  trees := hTrees

/-- The trees below other roots stay as they are. -/
theorem other_tree (hGrows : Grows root s.machine own m own')
    (hRoot : own' root = some ⟨root, 4, 0⟩) (hTree : tree ∈ s.trees) (hNe : tree.rootTable ≠ root) :
    tree.depth = 4 ∧ own' tree.rootTable = some ⟨tree.rootTable, 4, 0⟩ ∧
      IdentityBelow limit m tree.rootTable := by
  obtain ⟨hDepth, hOwn, hIdentity⟩ := h.trees tree hTree
  refine ⟨hDepth, hGrows.keeps hOwn, hIdentity.congr fun page hPage => ?_⟩
  exact (hGrows.contained hRoot).entryAt_other h.tables hOwn hNe (h.page_lt hPage)

theorem alloc {range : Frames.PhysFrameRange} {frameCount : Nat}
    (hCall : s.machine.alloc frameCount = .ok (range, m)) :
    Covers ⟨m, s.trees, s.held ∪ range.frames, s.returned ∪ range.frames⟩ own limit := by
  obtain ⟨-, hAlloc⟩ := Machine.alloc_allocated h.tables.sound hCall
  have hTables : Tables m own := (Grows.of_allocated h.tables 0 hAlloc).tables
  have hShrinks : m.freeSet ⊆ s.machine.freeSet := by
    rw [hAlloc.freeSet_eq]
    exact Set.sdiff_subset
  refine ⟨hTables, hAlloc.physLimit_eq.trans h.physLimit_eq, h.limit_lt,
    fun frame hFrame => h.free_lt frame (hShrinks hFrame), ?_, ?_, ?_⟩
  · rintro frame (hOld | hNew)
    · exact h.returned_lt frame hOld
    · exact h.free_lt frame (hAlloc.free hNew)
  · rintro frame (hOld | hNew)
    · obtain ⟨hUsed, hRest⟩ := h.held frame hOld
      exact ⟨fun hFree => hUsed (hShrinks hFree), hRest⟩
    · have hFree := hAlloc.free hNew
      refine ⟨?_, h.tables.none_of_free hFree, ?_, h.free_lt frame hFree⟩
      · rw [hAlloc.freeSet_eq]
        exact fun hMem => hMem.2 hNew
      · rintro rfl
        exact h.tables.sound.zero_not_free hFree
  · exact h.same_trees hTables fun table node hOwn index =>
      hAlloc.read_eq table (h.tables.not_free hOwn) index

theorem free {range : Frames.PhysFrameRange} (hRange : range.start < range.stop)
    (hOwned : range.frames ⊆ s.held) (hCall : s.machine.free range = .ok m) :
    Covers ⟨m, s.trees, s.held \ range.frames, s.returned⟩ own limit := by
  have hUsed : Disjoint range.frames s.machine.freeSet :=
    Set.disjoint_left.mpr fun frame hFrame => (h.held frame (hOwned hFrame)).1
  have hZero : 0 ∉ range.frames := fun hFrame => (h.held 0 (hOwned hFrame)).2.2.1 rfl
  obtain ⟨m', hOk, hFreed⟩ := Machine.free_freed h.tables.sound hRange hUsed hZero
  obtain rfl := Except.ok.inj (hOk.symm.trans hCall)
  have hNotFree : ∀ table node, own table = some node → table ∉ m'.freeSet := by
    intro table node hOwn
    rw [hFreed.freeSet_eq]
    rintro (hFrame | hFree)
    · simp [(h.held table (hOwned hFrame)).2.1] at hOwn
    · exact h.tables.not_free hOwn hFree
  have hRead : ∀ table node, own table = some node → ∀ index,
      m'.read table index = s.machine.read table index :=
    fun table node hOwn index => hFreed.read_eq table (hNotFree table node hOwn) index
  have hTables : Tables m' own :=
    h.tables.congr hFreed.sound hNotFree fun table node hOwn _ => hRead table node hOwn
  refine ⟨hTables, hFreed.physLimit_eq.trans h.physLimit_eq, h.limit_lt, ?_, h.returned_lt, ?_,
    h.same_trees hTables hRead⟩
  · rw [hFreed.freeSet_eq]
    rintro frame (hFrame | hFree)
    · exact (h.held frame (hOwned hFrame)).2.2.2
    · exact h.free_lt frame hFree
  · rintro frame ⟨hFrame, hKept⟩
    obtain ⟨hNot, hRest⟩ := h.held frame hFrame
    refine ⟨?_, hRest⟩
    rw [hFreed.freeSet_eq]
    exact fun hMem => hMem.elim hKept hNot

theorem fromOther {other paging : Paging} (hTree : other ∈ s.trees)
    (hCall : Paging.fromOther s.machine other = .ok (paging, m)) :
    ∃ own', Covers (s.after m (s.trees ++ [paging])) own' limit := by
  obtain ⟨hDepth, hOther, hIdentity⟩ := h.trees other hTree
  obtain ⟨hDepth', own', hCloned⟩ := (fromOther_spec h.tables hDepth hOther).of_ok hCall
  refine ⟨own', h.grow hCloned.toGrows fun tree hMem => ?_⟩
  rcases List.mem_append.mp hMem with hOld | hNew
  · refine h.other_tree hCloned.toGrows hCloned.root_own hOld fun hEq => ?_
    exact h.tables.not_free (h.trees tree hOld).2.1 (hEq ▸ hCloned.root_free)
  · obtain rfl := List.mem_singleton.mp hNew
    refine ⟨hDepth', hCloned.root_own, fun page hPage => ?_⟩
    rw [hCloned.view page (h.page_lt hPage)]
    exact hIdentity page hPage

/-- A page of user space lies above the limit in the 512 ^ 4 pages of a tree,
also when it belongs to the upper half of the address space. -/
theorem limit_le_mod {page : Nat} (hValid : Page.Valid page) (hAbove : limit ≤ page)
    : limit ≤ page % 512 ^ 4 := by
  have hLimit := h.limit_lt
  simp only [Page.Valid, Canonical, Page.startAddress, PAGE_SIZE] at hValid
  omega

end

variable {pages : PageRange} {flags : PageTableFlags}

theorem mapInTable (h : Covers s own limit) {frames : Frames.PhysFrameRange} {count : Nat}
    (hTree : tree ∈ s.trees) (hValid : Page.Valid pages.start) (hAbove : limit ≤ pages.start)
    (hFrames : Supplies frames pages.start pages.stop)
    (hCall : Paging.mapInTable profile 4 s.machine tree.rootTable frames pages .user flags =
      .ok (m, count)) : ∃ own', Covers (s.after m s.trees) own' limit := by
  obtain ⟨hDepth, hRoot, hIdentity⟩ := h.trees tree hTree
  obtain ⟨-, -, own', entries, fresh, hMapped, -, -⟩ :=
    (mapInTable_root_spec profile .user flags h.tables hRoot hValid hFrames).of_ok hCall
  have hRoot' := hMapped.keeps hRoot
  refine ⟨own', h.grow hMapped.toGrows fun other hOther => ?_⟩
  by_cases hSame : other.rootTable = tree.rootTable
  · obtain ⟨hDepth', -, -⟩ := h.trees other hOther
    rw [hSame]
    refine ⟨hDepth', hRoot', hIdentity.congr fun page hPage => ?_⟩
    rw [hMapped.view page (h.page_lt hPage)]
    have hBelow := h.limit_le_mod hValid hAbove
    exact if_neg (by omega)
  · exact h.other_tree hMapped.toGrows hRoot' hOther hSame

theorem map (h : Covers s own limit) (hTree : tree ∈ s.trees) (hValid : Page.Valid pages.start)
    (hAbove : limit ≤ pages.start) (hCall : tree.map profile s.machine pages .user flags = .ok m) :
    ∃ own', Covers (s.after m s.trees) own' limit := by
  obtain ⟨⟨m', count⟩, hMap, hCall⟩ := bind_ok hCall
  obtain rfl := pure_ok hCall
  rw [(h.trees tree hTree).1] at hMap
  exact h.mapInTable hTree hValid hAbove (.inl rfl) hMap

theorem mapPhysical (h : Covers s own limit) {frames : Frames.PhysFrameRange}
    (hTree : tree ∈ s.trees) (hValid : Page.Valid pages.start) (hAbove : limit ≤ pages.start)
    (hCall : tree.mapPhysical profile s.machine frames pages .user flags = .ok m) :
    ∃ own', Covers (s.after m s.trees) own' limit := by
  obtain ⟨⟨count, hMap⟩, hSupplies, -⟩ := Paging.mapPhysical_ok (h.trees tree hTree).1 hCall
  exact h.mapInTable hTree hValid hAbove hSupplies hMap

theorem step (h : Covers s own limit) {profile : BuildProfile} {s' : KernelMemory}
    (hStep : Step profile s s') : ∃ own', Covers s' own' limit := by
  have hLimit (page : Nat) (hAbove : s.machine.frames.physLimit.getD 0 ≤ page) : limit ≤ page := by
    rwa [h.physLimit_eq] at hAbove
  cases hStep with
  | alloc frameCount hCall => exact ⟨own, h.alloc hCall⟩
  | free range hRange hOwned hCall => exact ⟨own, h.free hRange hOwned hCall⟩
  | fromOther hTree hCall => exact h.fromOther hTree hCall
  | map pages flags hTree hValid hAbove hCall => exact h.map hTree hValid (hLimit _ hAbove) hCall
  | mapPhysical frames pages flags hTree hValid hAbove hCall =>
    exact h.mapPhysical hTree hValid (hLimit _ hAbove) hCall

end Covers

/-- Before the first tree is built. -/
theorem boot_covers {history : Frames.History} {returned : Set Nat}
    (hBoot : BootRun history returned) (hFrames : m.frames = history.allocator)
    (hLimit : m.frames.physLimit = some limit) (hLt : limit < 2 ^ 35) :
    Covers ⟨m, [], history.allocated, returned⟩ (fun _ => none) limit := by
  have hFree := hBoot.freeSet_eq hFrames
  have hBelow : ∀ frame ∈ history.inserted \ {0}, frame < limit := by
    intro frame hFrame
    have hAbove := hBoot.limitAbove frame hFrame.1 hFrame.2
    rwa [← hFrames, hLimit] at hAbove
  refine ⟨Tables.ofSound (hBoot.sound hFrames), hLimit, hLt, ?_, fun frame hFrame =>
    hBelow frame (hBoot.returned_subset hFrame), ?_, nofun⟩
  · rw [hFree]
    exact fun frame hFrame => hBelow frame hFrame.1
  · intro frame hHeld
    have hInserted := hBoot.reachable.conserves.allocated hHeld
    refine ⟨?_, rfl, hInserted.2, hBelow frame hInserted⟩
    rw [hFree]
    exact fun hMem => hMem.2 hHeld

theorem created_covers {history : Frames.History} {returned : Set Nat} {m' : Machine}
    {kernel : Paging} (hBoot : BootRun history returned) (hFrames : m.frames = history.allocator)
    (hCreate : createKernelAddressSpace profile m = .ok (kernel, m')) :
    ∃ own limit, Covers (after ⟨m, [], history.allocated, returned⟩ m' [kernel]) own limit := by
  obtain ⟨own, limit, hLimit, hLt, hDepth, hRoot, hGrows, hView⟩ :=
    createKernelAddressSpace_ok (hBoot.sound hFrames) hCreate
  have hCovers := boot_covers hBoot hFrames hLimit hLt
  refine ⟨own, limit, hCovers.grow hGrows fun tree hTree => ?_⟩
  obtain rfl := List.mem_singleton.mp hTree
  refine ⟨hDepth, hRoot, fun page hPage => ?_⟩
  rw [hView page (by omega), if_pos hPage]
  refine ⟨fun hUnused => ?_, rfl⟩
  cases hUnused

/-- Every frame that `alloc` has ever returned translates to itself in the tree
of the kernel and in every tree that was cloned from it. -/
theorem returned_identity_mapped {profile : BuildProfile} {s : KernelMemory}
    (hReach : Reaches profile s) :
    ∀ frame ∈ s.returned, ∀ tree ∈ s.trees,
      tree.translate s.machine (PAGE_SIZE * frame) = some (PAGE_SIZE * frame) := by
  obtain ⟨own, limit, hCovers⟩ : ∃ own limit, Covers s own limit := by
    induction hReach with
    | created hBoot hFrames hCreate => exact created_covers hBoot hFrames hCreate
    | step _ hStep ih =>
      obtain ⟨own, limit, hCovers⟩ := ih
      obtain ⟨own', hCovers'⟩ := hCovers.step hStep
      exact ⟨own', limit, hCovers'⟩
  intro frame hFrame tree hTree
  obtain ⟨hDepth, -, hIdentity⟩ := hCovers.trees tree hTree
  exact hIdentity.translate hDepth (hCovers.returned_lt frame hFrame)

/-- Memory with 64 frames, after its map was inserted. -/
def bootHistory : Frames.History :=
  ⟨⟨[⟨1, 63⟩], some 64⟩, ∅ ∪ Frames.PhysFrameRange.frames ⟨0, 64⟩, ∅⟩

theorem bootHistory_run : BootRun bootHistory (∅ ∪ ∅) := by
  have hInsert : Frames.Step Frames.History.initial bootHistory :=
    .insert ⟨0, 64⟩ (by decide) (Set.disjoint_empty _) rfl
  exact .step .initial hInsert

/-- The kernel's tree is built and cloned, and the clone gets a user page. -/
def cloneAndMap : Except Panic (Paging × Machine × Paging × Machine × Machine) := do
  let (kernel, m₁) ← createKernelAddressSpace .development ⟨SparseMap.empty, bootHistory.allocator⟩
  let (clone, m₂) ← Paging.fromOther m₁ kernel
  let m₃ ← clone.map .development m₂ ⟨0x10000000, 0x10000001⟩ .user USER_PAGE_FLAGS
  return (kernel, m₁, clone, m₂, m₃)

/-- Frame 12 is the user page's, and the kernel reaches it in both trees. -/
theorem user_page_identity_mapped : ∃ s, Reaches .development s ∧ s.trees.length = 2 ∧
    12 ∈ s.returned ∧ ∀ tree ∈ s.trees, tree.translate s.machine 0xC000 = some 0xC000 := by
  have hBlocks : (cloneAndMap.map fun r => (r.2.2.2.1.frames, r.2.2.2.2.frames)).toOption =
      some (⟨[⟨9, 55⟩], some 64⟩, ⟨[⟨13, 51⟩], some 64⟩) := by decide +kernel
  obtain ⟨r, hRun, hBlocks⟩ := exists_ok_of_toOption hBlocks
  obtain ⟨⟨kernel, m₁⟩, hCreate, hRest⟩ := bind_ok hRun
  obtain ⟨⟨clone, m₂⟩, hClone, hRest⟩ := bind_ok hRest
  obtain ⟨m₃, hMap, hRest⟩ := bind_ok hRest
  obtain rfl : (kernel, m₁, clone, m₂, m₃) = r := by simpa using hRest
  obtain ⟨hBefore, hAfter⟩ : m₂.frames = ⟨[⟨9, 55⟩], some 64⟩ ∧ m₃.frames = ⟨[⟨13, 51⟩], some 64⟩ :=
    Prod.mk.inj hBlocks
  have hCreated : Reaches .development _ := .created bootHistory_run rfl hCreate
  have hCloned : Reaches .development _ :=
    hCreated.step (.fromOther (List.mem_singleton_self kernel) hClone)
  have hMapped : Reaches .development _ :=
    hCloned.step (.map ⟨0x10000000, 0x10000001⟩ USER_PAGE_FLAGS (List.mem_append_right _
      (List.mem_singleton_self clone)) (by decide) (by simp [after, hBefore]) hMap)
  have hReturned : 12 ∈ m₂.freeSet \ m₃.freeSet := by
    simp [Machine.freeSet, hBefore, hAfter, Frames.freeFrames, Spans.covered,
      Frames.PageFrameNode.stop]
  refine ⟨_, hMapped, rfl, .inr hReturned, ?_⟩
  exact returned_identity_mapped hMapped 12 (.inr hReturned)

end KernelMemory

end D3OS.Memory
