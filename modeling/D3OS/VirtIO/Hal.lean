import D3OS.Library.LittleEndian
import D3OS.Memory.Permissions
import D3OS.Memory.SpaceCalls

/-! DMA memory for the VirtIO drivers: `kernel/src/dma/mod.rs` and the
implementation of `Hal` in `kernel/src/hal.rs`. The drivers expect contiguous
frames of their own, and zeroed ones. The frames come from the frame allocator
as they are, and the allocator keeps its list in them while they are free. -/
namespace D3OS.Hal

open Outcome
open Memory Memory.Paging
open Frames (PhysFrameRange)
open Frames.PageFrameListAllocator (runStarts)

/-- `Dma`, the kernel's description of a buffer. -/
structure Dma where
  paddr : Nat
  vaddr : Nat
  size : Nat
  pages : Nat

/-- Bit 4 of a page table entry. -/
def NO_CACHE : PageTableFlags := 0x10

namespace Dma

/-- `Dma::new`, with the page tables of the kernel process. -/
def new (profile : BuildProfile) (kernel : Paging) (m : Machine) (pages : Nat) :
    Except Panic (Dma × Machine) := do
  if pages = 0 then .error .assertionFailed
  let (physFrames, m) ← m.alloc pages
  let paddr := PAGE_SIZE * physFrames.start
  let start ← pageFromU64 (PAGE_SIZE * physFrames.start)
  let stop ← pageFromU64 (PAGE_SIZE * physFrames.stop)
  let m ← kernel.setFlags profile m ⟨start, stop⟩
    (PageTableFlags.PRESENT ||| PageTableFlags.WRITABLE ||| NO_CACHE)
  -- `NonNull::new`; the test for address 0 that follows it is never reached.
  if paddr = 0 then .error .unwrapFailed
  let size ← profile.word (pages * PAGE_SIZE)
  return (⟨paddr, paddr, size, pages⟩, m)

/-- `Dma::vaddr`. -/
def vaddrAt (self : Dma) (offset : Nat) : Except Panic Nat :=
  if offset < self.size then .ok (self.vaddr + offset) else .error .assertionFailed

end Dma

/-- `HalImpl::dma_alloc`: the physical and the virtual address. -/
def dmaAlloc (profile : BuildProfile) (kernel : Paging) (m : Machine) (pages : Nat) :
    Except Panic ((Nat × Nat) × Machine) := do
  let (dmaBuffer, m) ← Dma.new profile kernel m pages
  let vaddr ← dmaBuffer.vaddrAt 0
  return ((dmaBuffer.paddr, vaddr), m)

/-- `PhysFrame::from_start_address(PhysAddr::new(..)).unwrap()`. -/
def frameFromStartAddress (paddr : Nat) : Except Panic Nat :=
  if paddr ≥ 2 ^ 52 then .error .invalidPhysAddr
  else if paddr % PAGE_SIZE = 0 then .ok (paddr / PAGE_SIZE) else .error .unwrapFailed

/-- `HalImpl::dma_dealloc`. -/
def dmaDealloc (m : Machine) (paddr pages : Nat) : Except Panic (Nat × Machine) := do
  let startFrame ← frameFromStartAddress paddr
  if PAGE_SIZE * (startFrame + pages) ≥ 2 ^ 52 then .error .invalidPhysAddr
  let m ← m.free ⟨startFrame, startFrame + pages⟩
  return (0, m)

section Calls

variable {profile : BuildProfile} {kernel : Paging} {m m' : Machine} {pages paddr vaddr : Nat}

/-- The flags that `Dma::new` gives the pages. -/
abbrev dmaFlags : PageTableFlags :=
  PageTableFlags.PRESENT ||| PageTableFlags.WRITABLE ||| NO_CACHE

theorem pageFromU64_frame {frame page : Nat} (h : pageFromU64 (PAGE_SIZE * frame) = .ok page) :
    page = frame ∧ Page.Valid frame := by
  obtain ⟨hStart, hValid⟩ := pageFromU64_ok h
  obtain rfl : page = frame := Nat.eq_of_mul_eq_mul_left (by decide) hStart
  exact ⟨rfl, hValid⟩

theorem dmaAlloc_ok (h : dmaAlloc profile kernel m pages = .ok ((paddr, vaddr), m')) :
    0 < pages ∧ ∃ range m₁, m.alloc pages = .ok (range, m₁) ∧ paddr = PAGE_SIZE * range.start ∧
      vaddr = paddr ∧ Page.Valid range.stop ∧
      kernel.setFlags profile m₁ ⟨range.start, range.stop⟩ dmaFlags = .ok m' := by
  obtain ⟨⟨dma, m₂⟩, hNew, hRest⟩ := bind_ok h
  obtain ⟨addr, hAddr, hRest⟩ := bind_ok hRest
  obtain ⟨⟨rfl, rfl⟩, rfl⟩ : (dma.paddr = paddr ∧ addr = vaddr) ∧ m₂ = m' := by simpa using hRest
  unfold Dma.new at hNew
  split at hNew
  · simp at hNew
  case isFalse hPages =>
    obtain ⟨⟨range, m₁⟩, hAlloc, hNew⟩ := bind_ok hNew
    obtain ⟨start, hStart, hNew⟩ := bind_ok hNew
    obtain ⟨stop, hStop, hNew⟩ := bind_ok hNew
    obtain ⟨m₃, hSet, hNew⟩ := bind_ok hNew
    split at hNew
    · simp at hNew
    · obtain ⟨size, -, hNew⟩ := bind_ok hNew
      obtain ⟨rfl, rfl⟩ : ⟨_, _, size, pages⟩ = dma ∧ m₃ = m₂ := by simpa using hNew
      obtain ⟨rfl, -⟩ := pageFromU64_frame hStart
      obtain ⟨rfl, hLast⟩ := pageFromU64_frame hStop
      unfold Dma.vaddrAt at hAddr
      split at hAddr
      · obtain rfl := Except.ok.inj hAddr
        exact ⟨Nat.pos_of_ne_zero hPages, range, m₁, hAlloc, rfl, rfl, hLast, hSet⟩
      · simp at hAddr

theorem dmaAlloc_of_alloc {m₁ : Machine} {range : PhysFrameRange} (hPages : 0 < pages)
    (hSize : pages < 2 ^ 52) (hAlloc : m.alloc pages = .ok (range, m₁)) (hStart : range.start ≠ 0)
    (hFirst : Page.Valid range.start) (hLast : Page.Valid range.stop)
    (hSet : kernel.setFlags profile m₁ ⟨range.start, range.stop⟩ dmaFlags = .ok m') :
    dmaAlloc profile kernel m pages =
      .ok ((PAGE_SIZE * range.start, PAGE_SIZE * range.start), m') := by
  have hWord : profile.word (pages * PAGE_SIZE) = .ok (pages * PAGE_SIZE) :=
    profile.word_of_lt (by unfold PAGE_SIZE; omega)
  have hZero : PAGE_SIZE * range.start ≠ 0 := Nat.mul_ne_zero (by decide) hStart
  have hNew : Dma.new profile kernel m pages =
      .ok (⟨PAGE_SIZE * range.start, PAGE_SIZE * range.start, pages * PAGE_SIZE, pages⟩, m') := by
    simp only [Dma.new, if_neg hPages.ne', if_neg hZero, hAlloc, pageFromU64_of_valid hFirst,
      pageFromU64_of_valid hLast, hSet, hWord, bind_of_ok]
    rfl
  have hOffset : 0 < pages * PAGE_SIZE := Nat.mul_pos hPages (by decide)
  simp [dmaAlloc, hNew, Dma.vaddrAt, hOffset]

theorem dmaDealloc_ok {code : Nat} (h : dmaDealloc m paddr pages = .ok (code, m')) :
    m.free ⟨paddr / PAGE_SIZE, paddr / PAGE_SIZE + pages⟩ = .ok m' := by
  obtain ⟨frame, hFrame, h⟩ := bind_ok h
  obtain rfl : paddr / PAGE_SIZE = frame := by
    unfold frameFromStartAddress at hFrame
    split at hFrame
    · simp at hFrame
    · split at hFrame
      · simpa using hFrame
      · simp at hFrame
  split at h
  · simp at h
  · obtain ⟨m₁, hFree, h⟩ := bind_ok h
    obtain ⟨-, rfl⟩ : 0 = code ∧ m₁ = m' := by simpa using h
    exact hFree

end Calls

/-! ### Histories of allocations, frees and writes -/

/-- Memory between two calls, and the frames of the live allocations. -/
structure State where
  machine : Machine
  live : Set Nat

/-- The frames of a region of DMA memory. -/
def region (paddr pages : Nat) : Set Nat :=
  Set.Ico (paddr / PAGE_SIZE) (paddr / PAGE_SIZE + pages)

/-- What may happen to memory: frames are allocated for DMA or anything else,
allocated frames are given back, and their owners write to them. -/
inductive Step (profile : BuildProfile) (kernel : Paging) : State → State → Prop where
  | alloc {s : State} {m' : Machine} {range : PhysFrameRange} (count : Nat)
      (hCall : s.machine.alloc count = .ok (range, m')) :
      Step profile kernel s ⟨m', s.live ∪ range.frames⟩
  | free {s : State} {m' : Machine} (range : PhysFrameRange) (hRange : range.start < range.stop)
      (hLive : range.frames ⊆ s.live) (hCall : s.machine.free range = .ok m') :
      Step profile kernel s ⟨m', s.live \ range.frames⟩
  | dmaAlloc {s : State} {m' : Machine} {paddr vaddr : Nat} (pages : Nat)
      (hCall : dmaAlloc profile kernel s.machine pages = .ok ((paddr, vaddr), m')) :
      Step profile kernel s ⟨m', s.live ∪ region paddr pages⟩
  | dmaDealloc {s : State} {m' : Machine} {code : Nat} (paddr pages : Nat) (hPages : 0 < pages)
      (hLive : region paddr pages ⊆ s.live)
      (hCall : dmaDealloc s.machine paddr pages = .ok (code, m')) :
      Step profile kernel s ⟨m', s.live \ region paddr pages⟩
  | write {s : State} (frame index : Nat) (word : PageTableEntry) (hLive : frame ∈ s.live) :
      Step profile kernel s ⟨s.machine.write frame index word, s.live⟩

/-- Memory before the first call: the kernel has its page tables, the list of
the allocator is in the free frames, and physical addresses have 52 bits. -/
structure Booted (kernel : Paging) (m : Machine) : Prop where
  tree : ∃ own, IsTree m own kernel
  stored : m.Stored
  bounded : ∀ frame ∈ m.freeSet, frame < 2 ^ 40

def Reachable (profile : BuildProfile) (kernel : Paging) (s : State) : Prop :=
  ∃ m, Booted kernel m ∧ Relation.ReflTransGen (Step profile kernel) ⟨m, ∅⟩ s

/-- The live frames are neither free nor tables of the kernel. -/
structure Sound (kernel : Paging) (own : Nat → Option Node) (s : State) : Prop where
  tree : IsTree s.machine own kernel
  stored : s.machine.Stored
  live_used : Disjoint s.live s.machine.freeSet
  live_data : ∀ frame ∈ s.live, own frame = none
  zero_not_live : 0 ∉ s.live
  bounded : ∀ frame ∈ s.live ∪ s.machine.freeSet, frame < 2 ^ 40

namespace Sound

variable {profile : BuildProfile} {kernel : Paging} {own : Nat → Option Node} {s s' : State}
  {m' : Machine}

theorem alloc (h : Sound kernel own s) {count : Nat} {range : PhysFrameRange}
    (hCall : s.machine.alloc count = .ok (range, m')) :
    Sound kernel own ⟨m', s.live ∪ range.frames⟩ := by
  obtain ⟨-, hAllocated⟩ := Machine.alloc_allocated h.tree.tables.sound hCall
  have hTables := (Grows.of_allocated h.tree.tables kernel.rootTable hAllocated).tables
  refine ⟨⟨hTables, h.tree.depth_eq, h.tree.root_own⟩,
    Machine.alloc_stored h.tree.tables.sound hCall, ?_, ?_, ?_, ?_⟩
  · rw [hAllocated.freeSet_eq, Set.disjoint_union_left]
    exact ⟨h.live_used.mono_right Set.sdiff_subset, Set.disjoint_sdiff_right⟩
  · rintro frame (hLive | hTaken)
    · exact h.live_data frame hLive
    · exact h.tree.tables.none_of_free (hAllocated.free hTaken)
  · rintro (hLive | hTaken)
    · exact h.zero_not_live hLive
    · exact h.tree.tables.sound.zero_not_free (hAllocated.free hTaken)
  · rintro frame ((hLive | hTaken) | hFree)
    · exact h.bounded frame (.inl hLive)
    · exact h.bounded frame (.inr (hAllocated.free hTaken))
    · rw [hAllocated.freeSet_eq] at hFree
      exact h.bounded frame (.inr hFree.1)

theorem free (h : Sound kernel own s) {range : PhysFrameRange} (hRange : range.start < range.stop)
    (hLive : range.frames ⊆ s.live) (hCall : s.machine.free range = .ok m') :
    Sound kernel own ⟨m', s.live \ range.frames⟩ := by
  obtain ⟨m₁, hFree, hFreed⟩ := Machine.free_freed h.tree.tables.sound hRange
    (h.live_used.mono_left hLive) fun hZero => h.zero_not_live (hLive hZero)
  obtain rfl := Except.ok.inj (hFree.symm.trans hCall)
  have hNotFree : ∀ table node, own table = some node → table ∉ m₁.freeSet := by
    intro table node hOwn hMem
    rw [hFreed.freeSet_eq] at hMem
    rcases hMem with hGiven | hMem
    · simp [h.live_data table (hLive hGiven)] at hOwn
    · exact h.tree.tables.not_free hOwn hMem
  have hTables := h.tree.tables.congr hFreed.sound hNotFree
    fun table node hOwn _ index => hFreed.read_eq table (hNotFree table node hOwn) index
  refine ⟨⟨hTables, h.tree.depth_eq, h.tree.root_own⟩, Machine.free_stored hFreed.sound hCall,
    ?_, fun frame hMem => h.live_data frame hMem.1, fun hZero => h.zero_not_live hZero.1, ?_⟩
  · rw [hFreed.freeSet_eq, Set.disjoint_union_right]
    exact ⟨Set.disjoint_sdiff_left, h.live_used.mono_left Set.sdiff_subset⟩
  · rintro frame (hMem | hMem)
    · exact h.bounded frame (.inl hMem.1)
    · rw [hFreed.freeSet_eq] at hMem
      exact h.bounded frame (hMem.imp_left fun hGiven => hLive hGiven)

theorem write (h : Sound kernel own s) {frame : Nat} (hLive : frame ∈ s.live) (index : Nat)
    (word : PageTableEntry) : Sound kernel own ⟨s.machine.write frame index word, s.live⟩ := by
  have hOther : ∀ other, other ∉ s.live → ∀ i,
      (s.machine.write frame index word).read other i = s.machine.read other i := by
    intro other hNot i
    have hNe : other ≠ frame := fun hEq => hNot (hEq ▸ hLive)
    rw [Machine.read_write, if_neg (by simp [hNe])]
  have hTables := h.tree.tables.congr (h.tree.tables.sound.write frame index word)
    (fun table node hOwn => h.tree.tables.not_free hOwn)
    fun table node hOwn _ => hOther table fun hMem => by simp [h.live_data table hMem] at hOwn
  refine ⟨⟨hTables, h.tree.depth_eq, h.tree.root_own⟩, ?_, h.live_used, h.live_data,
    h.zero_not_live, h.bounded⟩
  intro block hMem
  have hFree : block.start ∈ s.machine.freeSet :=
    ⟨block, hMem, le_rfl, h.tree.tables.sound.wellFormed.nonempty block hMem⟩
  rw [hOther _ fun hLive => Set.disjoint_left.mp h.live_used hLive hFree]
  exact h.stored block hMem

/-- `set_flags` writes to the tables of the kernel only. -/
theorem reflagged (h : Sound kernel own s) {flags : PageTableFlags} {pages : List Nat}
    (hFlags : Reflagged kernel.rootTable s.machine own flags pages m') :
    Sound kernel own ⟨m', s.live⟩ := by
  have hFreeSet : m'.freeSet = s.machine.freeSet := by simp only [Machine.freeSet, hFlags.frames_eq]
  refine ⟨⟨hFlags.tables, h.tree.depth_eq, h.tree.root_own⟩, ?_, by rw [hFreeSet]; exact h.live_used,
    h.live_data, h.zero_not_live, by rw [hFreeSet]; exact h.bounded⟩
  intro block hMem
  rw [hFlags.frames_eq] at hMem
  have hFree : block.start ∈ s.machine.freeSet :=
    ⟨block, hMem, le_rfl, h.tree.tables.sound.wellFormed.nonempty block hMem⟩
  rw [hFlags.untouched _ (h.tree.tables.none_of_free hFree)]
  exact h.stored block hMem

end Sound

/-- Pages below an address of 52 bits that is canonical are in the lower half. -/
theorem stop_lt_of_valid {stop : Nat} (hBound : stop ≤ 2 ^ 40) (h : Page.Valid stop) :
    stop < 2 ^ 35 := by
  unfold Page.Valid Canonical Page.startAddress PAGE_SIZE at h
  omega

theorem walkable_of_lt {start stop : Nat} (hLe : start ≤ stop) (hStop : stop < 2 ^ 35) :
    Walkable ⟨start, stop⟩ :=
  ⟨hLe, fun _ _ hLast => valid_of_lt (Nat.lt_of_le_of_lt hLast hStop)⟩

section Histories

variable {profile : BuildProfile} {kernel : Paging} {own : Nat → Option Node} {s s' : State}
  {m' : Machine} {pages paddr vaddr : Nat}

theorem Sound.range_le (h : Sound kernel own s) {m₁ : Machine} {range : PhysFrameRange}
    (hPages : 0 < pages) (hAlloc : s.machine.alloc pages = .ok (range, m₁)) :
    range.stop = range.start + pages ∧ range.stop ≤ 2 ^ 40 := by
  obtain ⟨hStop, hAllocated⟩ := Machine.alloc_allocated h.tree.tables.sound hAlloc
  have hLast : range.stop - 1 ∈ range.frames := ⟨by omega, by omega⟩
  have hBound := h.bounded _ (.inr (hAllocated.free hLast))
  exact ⟨hStop, by omega⟩

/-- A buffer as the frame allocator hands it out, up to the flags of its pages
in the tables of the kernel. -/
theorem Sound.dmaAlloc_split (h : Sound kernel own s)
    (hCall : dmaAlloc profile kernel s.machine pages = .ok ((paddr, vaddr), m')) :
    ∃ range m₁, s.machine.alloc pages = .ok (range, m₁) ∧ paddr = PAGE_SIZE * range.start ∧
      region paddr pages = range.frames ∧ range.start + pages < 2 ^ 35 ∧
      Sound kernel own ⟨m₁, s.live ∪ range.frames⟩ ∧
      ∃ walked, Reflagged kernel.rootTable m₁ own dmaFlags walked m' := by
  obtain ⟨hPages, range, m₁, hAlloc, rfl, -, hLast, hSet⟩ := dmaAlloc_ok hCall
  obtain ⟨hStop, hBound⟩ := h.range_le hPages hAlloc
  have hLt := stop_lt_of_valid hBound hLast
  have hAfter := h.alloc hAlloc
  obtain ⟨m₂, hRun, hFlags⟩ := hAfter.tree.setFlags_reflagged profile dmaFlags
    (walkable_of_lt (by omega : range.start ≤ range.stop) hLt)
  obtain rfl := Except.ok.inj (hRun.symm.trans hSet)
  refine ⟨range, m₁, hAlloc, rfl, ?_, by omega, hAfter, _, hFlags⟩
  rw [region, Nat.mul_div_cancel_left _ (by decide), ← hStop]
  rfl

theorem Sound.step (h : Sound kernel own s) (hStep : Step profile kernel s s') :
    Sound kernel own s' := by
  cases hStep with
  | alloc count hCall => exact h.alloc hCall
  | free range hRange hLive hCall => exact h.free hRange hLive hCall
  | dmaAlloc pages hCall =>
    obtain ⟨range, m₁, -, -, hRegion, -, hAfter, walked, hFlags⟩ := h.dmaAlloc_split hCall
    rw [hRegion]
    exact hAfter.reflagged hFlags
  | dmaDealloc paddr pages hPages hLive hCall =>
    have hRange : paddr / PAGE_SIZE < paddr / PAGE_SIZE + pages := by omega
    exact @Sound.free _ _ _ _ h ⟨_, _⟩ hRange hLive (dmaDealloc_ok hCall)
  | write frame index word hLive => exact h.write hLive index word

theorem Reachable.sound (h : Reachable profile kernel s) : ∃ own, Sound kernel own s := by
  obtain ⟨m, hBooted, hRun⟩ := h
  obtain ⟨own, hTree⟩ := hBooted.tree
  refine ⟨own, ?_⟩
  induction hRun with
  | refl =>
    exact ⟨hTree, hBooted.stored, Set.empty_disjoint _, fun _ hMem => hMem.elim, fun hMem => hMem,
      fun frame hMem => hBooted.bounded frame (hMem.resolve_left fun hMem => hMem)⟩
  | tail _ hStep ih => exact ih.step hStep

/-- All bytes of a frame are zero. -/
def Zeroed (m : Machine) (frame : Nat) : Prop :=
  ∀ index < 512, ∀ byte ∈ LittleEndian.toBytes 8 (m.read frame index).toNat, byte = 0

/-- The contract of `Hal::dma_alloc` for one call: if it returns, then contiguous
frames that belong to no other live allocation, all zero. -/
def Honours (profile : BuildProfile) (kernel : Paging) (s : State) (pages : Nat) : Prop :=
  ∀ paddr vaddr m', dmaAlloc profile kernel s.machine pages = .ok ((paddr, vaddr), m') →
    paddr % PAGE_SIZE = 0 ∧ region paddr pages ⊆ s.machine.freeSet \ m'.freeSet ∧
      Disjoint (region paddr pages) s.live ∧ ∀ frame ∈ region paddr pages, Zeroed m' frame

/-- The first frame of a returned region holds the node of the block it is from. -/
theorem Sound.not_zeroed (h : Sound kernel own s) (hPages : 0 < pages)
    (hCall : dmaAlloc profile kernel s.machine pages = .ok ((paddr, vaddr), m')) :
    ¬ Zeroed m' (paddr / PAGE_SIZE) := by
  intro hZeroed
  obtain ⟨range, m₁, hAlloc, rfl, -, -, hAfter, walked, hFlags⟩ := h.dmaAlloc_split hCall
  obtain ⟨hStop, -⟩ := h.range_le hPages hAlloc
  obtain ⟨block, hMem, hSize, hWord⟩ :=
    Machine.alloc_first_word h.tree.tables.sound h.stored hPages hAlloc
  have hLast : block.stop - 1 ∈ s.machine.freeSet :=
    ⟨block, hMem, by unfold Frames.PageFrameNode.stop; omega,
      by unfold Frames.PageFrameNode.stop; omega⟩
  have hBound := h.bounded _ (.inr hLast)
  unfold Frames.PageFrameNode.stop at hBound
  have hOwn : own range.start = none :=
    hAfter.live_data range.start (.inr ⟨le_rfl, by omega⟩)
  have hBytes := LittleEndian.ofBytes_eq_zero (hZeroed 0 (by decide))
  rw [Nat.mul_div_cancel_left _ (by decide), hFlags.untouched _ hOwn, hWord,
    LittleEndian.ofBytes_toBytes, PageTableEntry.toNat_ofNat (by omega),
    Nat.mod_eq_of_lt (by omega)] at hBytes
  omega

/-- `dma_alloc` honours its contract in no case in which it returns. It does not
return if no region is large enough, or the lowest one that is has no canonical
address. -/
theorem dmaAlloc_honours_iff (hRun : Reachable profile kernel s) (hPages : 0 < pages) :
    Honours profile kernel s pages ↔
      ¬ ∃ start, IsLeast (runStarts s.machine.frames.blocks pages) start ∧
        start + pages < 2 ^ 35 := by
  obtain ⟨own, hSound⟩ := hRun.sound
  have hTables := hSound.tree.tables
  constructor
  · rintro hHonours ⟨start, hLeast, hLower⟩
    obtain ⟨range, m₁, hAlloc⟩ := Machine.alloc_of_run hTables.sound hPages hLeast.1
    obtain rfl := hLeast.unique (Machine.alloc_isLeast hTables.sound hPages hAlloc)
    obtain ⟨hStop, -⟩ := hSound.range_le hPages hAlloc
    obtain ⟨-, hAllocated⟩ := Machine.alloc_allocated hTables.sound hAlloc
    have hNonzero : range.start ≠ 0 := fun hZero =>
      hTables.sound.zero_not_free (hAllocated.free ⟨by omega, by omega⟩)
    have hLt : range.stop < 2 ^ 35 := by omega
    obtain ⟨m', hSet, -⟩ := (hSound.alloc hAlloc).tree.setFlags_reflagged profile dmaFlags
      (walkable_of_lt (by omega : range.start ≤ range.stop) hLt)
    have hCall := dmaAlloc_of_alloc hPages (by omega) hAlloc hNonzero (valid_of_lt (by omega))
      (valid_of_lt hLt) hSet
    obtain ⟨-, -, -, hZeroed⟩ := hHonours _ _ _ hCall
    exact hSound.not_zeroed hPages hCall (hZeroed _ ⟨le_rfl, by omega⟩)
  · intro hNone paddr vaddr m' hCall
    obtain ⟨range, m₁, hAlloc, -, -, hLower, -⟩ := hSound.dmaAlloc_split hCall
    exact absurd ⟨range.start, Machine.alloc_isLeast hTables.sound hPages hAlloc, hLower⟩ hNone

/-- In every history, a region that `dma_alloc` returns is page aligned, and its
frames come out of the free ones and belong to no other live allocation. -/
theorem dmaAlloc_exclusive (hRun : Reachable profile kernel s)
    (hCall : dmaAlloc profile kernel s.machine pages = .ok ((paddr, vaddr), m')) :
    paddr % PAGE_SIZE = 0 ∧ region paddr pages ⊆ s.machine.freeSet \ m'.freeSet ∧
      Disjoint (region paddr pages) s.live := by
  obtain ⟨own, hSound⟩ := hRun.sound
  obtain ⟨range, m₁, hAlloc, rfl, hRegion, -, -, walked, hFlags⟩ := hSound.dmaAlloc_split hCall
  obtain ⟨-, hAllocated⟩ := Machine.alloc_allocated hSound.tree.tables.sound hAlloc
  rw [hRegion]
  refine ⟨Nat.mul_mod_right _ _, fun frame hMem => ⟨hAllocated.free hMem, fun hFree => ?_⟩,
    (hSound.live_used.mono_right hAllocated.free).symm⟩
  rw [Machine.freeSet, hFlags.frames_eq] at hFree
  have hAfter : frame ∈ m₁.freeSet := hFree
  rw [hAllocated.freeSet_eq] at hAfter
  exact hAfter.2 hMem

end Histories

/-- The small machine once the kernel has its (empty) page tables. -/
theorem booted_small : ∃ kernel m, Paging.new smallMachine 4 = .ok (kernel, m) ∧
    Booted kernel m ∧ m.frames.blocks = [⟨2, 62⟩] := by
  have hNew : ((Paging.new smallMachine 4).map fun r =>
      (r.2.frames.blocks, r.2.read 2 0)).toOption =
      some ([⟨2, 62⟩], PageTableEntry.ofNat 62) := by decide +kernel
  obtain ⟨⟨kernel, m⟩, hRun, hState⟩ := exists_ok_of_toOption hNew
  obtain ⟨hBlocks, hNode⟩ := Prod.mk.inj hState
  refine ⟨kernel, m, hRun, ⟨new_tree hRun, ?_, ?_⟩, hBlocks⟩
  · intro block hMem
    obtain rfl := List.mem_singleton.mp (hBlocks ▸ hMem)
    exact hNode
  · rintro frame ⟨block, hMem, -, hLt⟩
    obtain rfl := List.mem_singleton.mp (hBlocks ▸ hMem)
    exact Nat.lt_trans hLt (by decide)

theorem dmaAlloc_exclusive_first : ∃ kernel s m', Reachable .development kernel s ∧
    dmaAlloc .development kernel s.machine 1 = .ok ((0x2000, 0x2000), m') ∧ 2 ∉ m'.freeSet := by
  have hWalk : ((Paging.new smallMachine 4 >>= fun r =>
      dmaAlloc .development r.1 r.2 1).map Prod.fst).toOption = some (0x2000, 0x2000) := by
    decide +kernel
  obtain ⟨⟨addresses, m'⟩, hBoth, rfl⟩ := exists_ok_of_toOption hWalk
  obtain ⟨⟨kernel, m⟩, hNew, hCall⟩ := bind_ok hBoth
  obtain ⟨kernel', m₁, hNew', hBooted, -⟩ := booted_small
  obtain ⟨rfl, rfl⟩ := Prod.mk.inj (Except.ok.inj (hNew'.symm.trans hNew))
  have hRun : Reachable .development kernel' ⟨m₁, ∅⟩ := ⟨m₁, hBooted, .refl⟩
  obtain ⟨-, hTaken, -⟩ := dmaAlloc_exclusive hRun hCall
  exact ⟨kernel', _, m', hRun, hCall, (hTaken ⟨by decide, by decide⟩).2⟩

/-- A request for more frames than there are is refused. -/
theorem dmaAlloc_honours_too_large : ∃ kernel s,
    Reachable .development kernel s ∧ Honours .development kernel s 100 := by
  obtain ⟨kernel, m, -, hBooted, hBlocks⟩ := booted_small
  have hRun : Reachable .development kernel ⟨m, ∅⟩ := ⟨m, hBooted, .refl⟩
  refine ⟨kernel, ⟨m, ∅⟩, hRun, (dmaAlloc_honours_iff hRun (by decide)).mpr ?_⟩
  rintro ⟨start, ⟨hFree, -⟩, -⟩
  have hBounds : ∀ frame ∈ Set.Ico start (start + 100), 2 ≤ frame ∧ frame < 64 := by
    intro frame hMem
    obtain ⟨block, hBlock, hBoth⟩ := hFree hMem
    obtain rfl := List.mem_singleton.mp (hBlocks ▸ hBlock)
    exact hBoth
  have hFirst := hBounds start ⟨le_rfl, by omega⟩
  have hLast := hBounds (start + 99) ⟨by omega, by omega⟩
  omega

/-- The first buffer after the kernel has its page tables: its first word is
the size of the free block that it was cut off from. -/
theorem dma_buffer_holds_node : ∃ kernel s m', Reachable .development kernel s ∧
    dmaAlloc .development kernel s.machine 1 = .ok ((0x2000, 0x2000), m') ∧
    (m'.read 2 0).toNat = 62 ∧ ¬ Honours .development kernel s 1 := by
  have hWalk : ((Paging.new smallMachine 4 >>= fun r =>
      dmaAlloc .development r.1 r.2 1).map fun r => (r.1, (r.2.read 2 0).toNat)).toOption =
      some ((0x2000, 0x2000), 62) := by decide +kernel
  obtain ⟨⟨addresses, m'⟩, hBoth, hResult⟩ := exists_ok_of_toOption hWalk
  obtain ⟨⟨kernel, m⟩, hNew, hCall⟩ := bind_ok hBoth
  obtain ⟨rfl, hWord⟩ := Prod.mk.inj hResult
  obtain ⟨kernel', m₁, hNew', hBooted, -⟩ := booted_small
  obtain ⟨rfl, rfl⟩ := Prod.mk.inj (Except.ok.inj (hNew'.symm.trans hNew))
  refine ⟨kernel', ⟨m₁, ∅⟩, m', ⟨m₁, hBooted, .refl⟩, hCall, hWord, fun hHonours => ?_⟩
  obtain ⟨-, -, -, hZeroed⟩ := hHonours _ _ _ hCall
  have hBytes := LittleEndian.ofBytes_eq_zero (hZeroed 2 ⟨by decide, by decide⟩ 0 (by decide))
  simp only at hWord
  rw [hWord] at hBytes
  exact absurd hBytes (by decide)

end D3OS.Hal
