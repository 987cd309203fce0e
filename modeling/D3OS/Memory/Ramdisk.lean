import D3OS.Memory.FreeList

/-! The initial ramdisk during boot. The memory map counts its frames among
the available ones; `start` reserves the kernel image first, allocates
frames for the heap, page tables, stacks and drivers, and reserves the
ramdisk only in `init_initrd`. -/
namespace D3OS.Frames

open Outcome

variable {reserved : PhysFrameRange}

namespace PageFrameListAllocator

/-- What reserving a region does to the list: frames of the region leave it,
though perhaps not all of them. -/
structure Reserves (blocks : PageFrameListAllocator) (reserved : PhysFrameRange)
    (blocks' : PageFrameListAllocator) : Prop where
  wellFormed : WellFormed blocks'
  subset : freeFrames blocks' ⊆ freeFrames blocks
  kept : freeFrames blocks \ reserved.frames ⊆ freeFrames blocks'

theorem reserveBlock_reserves (hReserved : reserved.start < reserved.stop)
    {blocks blocks' : PageFrameListAllocator} (h : WellFormed blocks)
    (hRun : reserveBlock reserved blocks = .ok blocks') :
    Reserves blocks reserved blocks' := by
  have hTrims :=
    reserveBlock_trims Spans.isGap_lt hReserved (Spans.ascending_iff_spaced.mp h) hRun
  exact ⟨Spans.ascending_iff_spaced.mpr hTrims.spaced, hTrims.subset, hTrims.kept⟩

/-- A region of free frames that does not lie above the first block lies in
it: behind it comes a frame that is not free. -/
theorem not_mem_reserved_of_tail {block : PageFrameNode} {rest : PageFrameListAllocator}
    (h : WellFormed (block :: rest))
    (hFree : ∀ x ∈ reserved.frames, x ≠ 0 → x ∈ freeFrames (block :: rest))
    (hTouches : reserved.start ≤ block.stop) {x : Nat} (hx : x ∈ freeFrames rest) :
    x ∉ reserved.frames := by
  intro hReserved
  have hBlock := h.nonempty block (by simp)
  have hBehind := h.lt_of_mem_tail hx
  have hGap : block.stop ∈ freeFrames (block :: rest) :=
    hFree block.stop ⟨hTouches, Nat.lt_trans hBehind hReserved.2⟩ (by omega)
  rcases Spans.mem_covered_cons.mp hGap with hIn | hIn
  · exact Nat.lt_irrefl _ hIn.2
  · exact Nat.lt_irrefl _ (h.lt_of_mem_tail hIn)

/-- A region of free frames is reserved as a whole. -/
theorem reserveBlock_clears (hReserved : reserved.start < reserved.stop)
    {blocks blocks' : PageFrameListAllocator} (h : WellFormed blocks)
    (hRun : reserveBlock reserved blocks = .ok blocks')
    (hFree : ∀ x ∈ reserved.frames, x ≠ 0 → x ∈ freeFrames blocks) :
    ∀ x ∈ freeFrames blocks', x ∉ reserved.frames := by
  fun_induction reserveBlock reserved blocks generalizing blocks' with
  | case1 =>
    cases hRun
    rintro x ⟨node, hNode, -⟩
    cases hNode
  | case2 block rest hAbove =>
    cases hRun
    intro x hx hIn
    have hStart : block.start ≤ x := by
      rcases Spans.mem_covered_cons.mp hx with hx | hx
      · exact hx.1
      · exact Nat.le_trans (h.nonempty block (by simp)).le (h.lt_of_mem_tail hx).le
    exact absurd hIn.2 (by omega)
  | case3 block rest hAbove hBelow hEnds overlapping =>
    obtain ⟨rest', hRest, rfl⟩ := (map_ok_iff _ _ _).mp hRun
    intro x hx
    rcases Spans.mem_covered_cons.mp hx with hx | hx
    · simp only [Set.mem_Ico, PhysFrameRange.frames, PageFrameNode.stop, overlapping] at *
      omega
    · exact not_mem_reserved_of_tail h hFree hBelow.2
        ((reserveBlock_reserves hReserved h.tail hRest).subset hx)
  | case4 block rest hAbove hBelow hEnds below above =>
    obtain ⟨rest', hRest, rfl⟩ := (map_ok_iff _ _ _).mp hRun
    intro x hx
    rcases Spans.mem_covered_cons.mp hx with hx | hx
    · simp only [Set.mem_Ico, PhysFrameRange.frames, PageFrameNode.stop, below] at *
      omega
    · rcases Spans.mem_covered_cons.mp hx with hx | hx
      · exact fun hIn => absurd hIn.2 (Nat.not_lt.mpr hx.1)
      · exact not_mem_reserved_of_tail h hFree hBelow.2
          ((reserveBlock_reserves hReserved h.tail hRest).subset hx)
  | case5 block hAbove hBelow hTouches hInside => cases hRun
  | case6 block hAbove hBelow hTouches hInside next rest ih =>
    obtain ⟨rest', hRest, rfl⟩ := (map_ok_iff _ _ _).mp hRun
    intro x hx
    refine not_mem_reserved_of_tail h hFree hTouches.2 ?_
    rcases Spans.mem_covered_cons.mp hx with hx | hx
    · exact Spans.mem_covered_cons.mpr (.inl hx)
    · exact Spans.mem_covered_cons.mpr
        (.inr ((reserveBlock_reserves hReserved h.tail.tail hRest).subset hx))
  | case7 block rest hAbove hBelow hTouches hInside overlapping =>
    obtain ⟨rest', hRest, rfl⟩ := (map_ok_iff _ _ _).mp hRun
    intro x hx
    rcases Spans.mem_covered_cons.mp hx with hx | hx
    · simp only [Set.mem_Ico, PhysFrameRange.frames, overlapping] at hx ⊢
      omega
    · exact not_mem_reserved_of_tail h hFree hTouches.2
        ((reserveBlock_reserves hReserved h.tail hRest).subset hx)
  | case8 block rest hAbove hBelow hTouches ih =>
    obtain ⟨rest', hRest, rfl⟩ := (map_ok_iff _ _ _).mp hRun
    have hBefore : block.stop < reserved.start := by omega
    intro x hx
    rcases Spans.mem_covered_cons.mp hx with hx | hx
    · exact fun hIn => absurd (Nat.lt_trans hx.2 hBefore) (Nat.not_lt.mpr hIn.1)
    · refine ih h.tail hRest ?_ x hx
      intro y hy hNe
      rcases Spans.mem_covered_cons.mp (hFree y hy hNe) with hIn | hIn
      · exact absurd (Nat.lt_trans hIn.2 hBefore) (Nat.not_lt.mpr hy.1)
      · exact hIn

end PageFrameListAllocator

/-- First fit: the block that an allocation cuts, and the frames that it
returns. -/
theorem alloc_first_fit {self self' : Allocator} {count : Nat} {range : PhysFrameRange}
    (hAlloc : alloc self count = .ok (range, self')) :
    ∃ block, self.blocks.find? (fun block => count ≤ block.frameCount) = some block ∧
      range = ⟨block.start, block.start + count⟩ := by
  obtain ⟨⟨range', blocks'⟩, hBlock, hEq⟩ := bind_ok hAlloc
  obtain ⟨rfl, -⟩ : range' = range ∧ _ := by simpa using hEq
  unfold PageFrameListAllocator.allocBlock at hBlock
  split at hBlock
  · cases hBlock
  · rename_i found rest hFind
    obtain ⟨pre, post, hBlocks, -, hFits, hPre⟩ := PageFrameListAllocator.findFreeBlock_split hFind
    obtain ⟨left, -, hBlock⟩ := bind_ok hBlock
    obtain rfl : ⟨found.start, found.start + count⟩ = range' := by
      dsimp only at hBlock
      split at hBlock
      · obtain ⟨blocks'', -, hBlock⟩ := bind_ok hBlock
        exact (Prod.mk.inj (pure_ok hBlock)).1
      · obtain ⟨blocks'', -, hBlock⟩ := bind_ok hBlock
        exact (Prod.mk.inj (pure_ok hBlock)).1
    refine ⟨found, ?_, rfl⟩
    rw [hBlocks, List.find?_append, List.find?_eq_none.mpr]
    · simp [hFits]
    · intro block hMem
      simpa using hPre block hMem

/-- How far `start` has got. -/
inductive BootPhase where
  /-- The memory map is being inserted. -/
  | scanning
  /-- The kernel image is reserved, the ramdisk is not. -/
  | running
  /-- `init_initrd` has returned. -/
  | loaded
  deriving DecidableEq, Repr

/-- The frames that the memory map has inserted, those that are allocated,
and all those that an allocation has ever returned. -/
structure Boot where
  allocator : Allocator
  inserted : Set Nat
  held : Set Nat
  returned : Set Nat
  phase : BootPhase

namespace Boot

def initial : Boot := ⟨Allocator.new, ∅, ∅, ∅, .scanning⟩

/-- `insert` of a region of the memory map, `reserve` of the kernel image,
`alloc`, `free`, and `init_initrd`. -/
inductive Call where
  | insert (region : PhysFrameRange)
  | reserveKernelImage
  | alloc (frameCount : Nat)
  | free (range : PhysFrameRange)
  | initInitrd

variable (kernelImage initrd : PhysFrameRange)

/-- One call of `start` that returns. The regions of the memory map are
disjoint and contain the ramdisk; only allocated frames are freed. -/
inductive Step : Boot → Call → Boot → Prop where
  | insert {s : Boot} {allocator : Allocator} (region : PhysFrameRange)
      (hPhase : s.phase = .scanning) (hRegion : region.start < region.stop)
      (hNew : Disjoint region.frames s.inserted)
      (hCall : Frames.insert s.allocator region = .ok allocator) :
      Step s (.insert region) { s with allocator, inserted := s.inserted ∪ region.frames }
  | reserveKernelImage {s : Boot} {allocator : Allocator} (hPhase : s.phase = .scanning)
      (hMap : initrd.frames ⊆ s.inserted)
      (hCall : Frames.reserve s.allocator kernelImage = .ok allocator) :
      Step s .reserveKernelImage { s with allocator, phase := .running }
  | alloc {s : Boot} {allocator : Allocator} {range : PhysFrameRange} (frameCount : Nat)
      (hPhase : s.phase ≠ .scanning)
      (hCall : Frames.alloc s.allocator frameCount = .ok (range, allocator)) :
      Step s (.alloc frameCount)
        { s with allocator, held := s.held ∪ range.frames, returned := s.returned ∪ range.frames }
  | free {s : Boot} {allocator : Allocator} (range : PhysFrameRange) (hPhase : s.phase ≠ .scanning)
      (hRange : range.start < range.stop) (hOwned : range.frames ⊆ s.held)
      (hCall : Frames.free s.allocator range = .ok allocator) :
      Step s (.free range) { s with allocator, held := s.held \ range.frames }
  | initInitrd {s : Boot} {allocator : Allocator} (hPhase : s.phase = .running)
      (hCall : Frames.reserve s.allocator initrd = .ok allocator) :
      Step s .initInitrd { s with allocator, phase := .loaded }

/-- The states of boots in which every call meets a condition. -/
inductive Reaches (meets : Boot → Call → Prop) : Boot → Prop where
  | initial : Reaches meets initial
  | step {s s' : Boot} {call : Call} (hReach : Reaches meets s) (hMeets : meets s call)
      (hStep : Step kernelImage initrd s call s') : Reaches meets s'

/-- The kernel image does not overlap the ramdisk, and as long as the ramdisk
is not reserved, the first block that is large enough for an allocation lies
above it or has enough frames below it. -/
def AvoidsInitrd (s : Boot) : Call → Prop
  | .reserveKernelImage => Disjoint kernelImage.frames initrd.frames
  | .alloc frameCount => s.phase = .running → 0 < frameCount → ∀ block,
      s.allocator.blocks.find? (fun block => frameCount ≤ block.frameCount) = some block →
        initrd.stop ≤ block.start ∨ block.start + frameCount ≤ initrd.start
  | _ => True

/-- The ramdisk is free until it is reserved, and no longer free afterwards. -/
structure Spares (s : Boot) : Prop where
  wellFormed : WellFormed s.allocator.blocks
  taken : Disjoint s.held (freeFrames s.allocator.blocks)
  held : s.held ⊆ s.returned
  spared : Disjoint s.returned initrd.frames
  scanning : s.phase = .scanning →
    freeFrames s.allocator.blocks = s.inserted \ {0} ∧ s.held = ∅
  running : s.phase = .running →
    ∀ x ∈ initrd.frames, x ≠ 0 → x ∈ freeFrames s.allocator.blocks
  loaded : s.phase = .loaded → Disjoint (freeFrames s.allocator.blocks) initrd.frames

variable {kernelImage initrd}

theorem reserve_ok {self self' : Allocator} (h : Frames.reserve self reserved = .ok self') :
    self.blocks.reserveBlock reserved = .ok self'.blocks := by
  obtain ⟨blocks, hBlocks, hEq⟩ := bind_ok h
  obtain rfl := pure_ok hEq
  exact hBlocks

/-- An allocation that meets the condition returns no frame of the ramdisk. -/
theorem Spares.alloc_avoids {s : Boot} (h : Spares initrd s) {frameCount : Nat}
    {range : PhysFrameRange} {allocator : Allocator} (hPhase : s.phase ≠ .scanning)
    (hMeets : AvoidsInitrd kernelImage initrd s (.alloc frameCount))
    (hCall : Frames.alloc s.allocator frameCount = .ok (range, allocator)) :
    Disjoint range.frames initrd.frames := by
  obtain ⟨hStop, hFree, -⟩ := alloc_ok h.wellFormed hCall
  cases hNow : s.phase with
  | scanning => exact absurd hNow hPhase
  | running =>
    obtain ⟨block, hBlock, rfl⟩ := alloc_first_fit hCall
    refine Set.disjoint_left.mpr fun x hx hIn => ?_
    simp only [PhysFrameRange.frames, Set.mem_Ico] at hx hIn
    have hAway := hMeets hNow (by omega) block hBlock
    omega
  | loaded => exact (h.loaded hNow).mono_left hFree

theorem Spares.step {s s' : Boot} {call : Call} (hKernel : kernelImage.start < kernelImage.stop)
    (hInitrd : initrd.start < initrd.stop) (h : Spares initrd s)
    (hMeets : AvoidsInitrd kernelImage initrd s call) (hStep : Step kernelImage initrd s call s') :
    Spares initrd s' := by
  cases hStep with
  | @insert allocator region hPhase hRegion hNew hCall =>
    obtain ⟨hFree, hHeld⟩ := h.scanning hPhase
    have hDisjoint : Disjoint (region.frames \ {0}) (freeFrames s.allocator.blocks) := by grind
    obtain ⟨allocator', hInsert, hWell, hFrames⟩ := insert_ok h.wellFormed hRegion hDisjoint
    obtain rfl : allocator' = allocator := by simpa [hInsert] using hCall
    refine ⟨hWell, ?_, h.held, h.spared, fun _ => ⟨?_, hHeld⟩, ?_, ?_⟩
    · rw [hHeld]
      exact Set.empty_disjoint _
    · rw [hFrames, hFree, Set.union_comm, Set.union_sdiff_distrib]
    · intro hRunning
      cases hPhase.symm.trans hRunning
    · intro hLoaded
      cases hPhase.symm.trans hLoaded
  | @reserveKernelImage allocator hPhase hMap hCall =>
    obtain ⟨hFree, hHeld⟩ := h.scanning hPhase
    have hReserves := PageFrameListAllocator.reserveBlock_reserves hKernel h.wellFormed
      (reserve_ok hCall)
    refine ⟨hReserves.wellFormed, h.taken.mono_right hReserves.subset, h.held, h.spared,
      nofun, ?_, nofun⟩
    intro _ x hx hNe
    refine hReserves.kept ⟨?_, Set.disjoint_right.mp hMeets hx⟩
    rw [hFree]
    exact ⟨hMap hx, hNe⟩
  | @alloc allocator range frameCount hPhase hCall =>
    obtain ⟨-, hFree, hWell, hFrames, -⟩ := alloc_ok h.wellFormed hCall
    have hAvoids := h.alloc_avoids hPhase hMeets hCall
    refine ⟨hWell, ?_, Set.union_subset_union_left _ h.held,
      Set.disjoint_union_left.mpr ⟨h.spared, hAvoids⟩, ?_, ?_, ?_⟩
    · rw [hFrames]
      exact Set.disjoint_union_left.mpr
        ⟨h.taken.mono_right Set.sdiff_subset, Set.disjoint_sdiff_right⟩
    · exact fun hScanning => absurd hScanning hPhase
    · intro hRunning x hx hNe
      rw [hFrames]
      exact ⟨h.running hRunning x hx hNe, Set.disjoint_right.mp hAvoids hx⟩
    · intro hLoaded
      rw [hFrames]
      exact (h.loaded hLoaded).mono_left Set.sdiff_subset
  | @free allocator range hPhase hRange hOwned hCall =>
    obtain ⟨allocator', hFreed, hWell, hFrames, -⟩ :=
      free_ok h.wellFormed hRange (h.taken.mono_left hOwned)
    obtain rfl : allocator' = allocator := by simpa [hFreed] using hCall
    have hAway : Disjoint range.frames initrd.frames :=
      h.spared.mono_left (hOwned.trans h.held)
    refine ⟨hWell, ?_, Set.sdiff_subset.trans h.held, h.spared, ?_, ?_, ?_⟩
    · rw [hFrames]
      exact Set.disjoint_union_right.mpr
        ⟨Set.disjoint_sdiff_left, h.taken.mono_left Set.sdiff_subset⟩
    · exact fun hScanning => absurd hScanning hPhase
    · intro hRunning x hx hNe
      rw [hFrames]
      exact .inr (h.running hRunning x hx hNe)
    · intro hLoaded
      rw [hFrames]
      exact Set.disjoint_union_left.mpr ⟨hAway, h.loaded hLoaded⟩
  | @initInitrd allocator hPhase hCall =>
    have hReserves := PageFrameListAllocator.reserveBlock_reserves hInitrd h.wellFormed
      (reserve_ok hCall)
    refine ⟨hReserves.wellFormed, h.taken.mono_right hReserves.subset, h.held, h.spared,
      nofun, nofun, fun _ => Set.disjoint_left.mpr ?_⟩
    exact PageFrameListAllocator.reserveBlock_clears hInitrd h.wellFormed (reserve_ok hCall)
      (h.running hPhase)

/-- The available memory, and what lies in it, of two boots. -/
def memory : PhysFrameRange := ⟨256, 4096⟩

end Boot

end D3OS.Frames
