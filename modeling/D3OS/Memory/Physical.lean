import D3OS.Library.SparseMap
import D3OS.Memory.Basic
import D3OS.Memory.FrameConservation

/-! Physical memory as the kernel sees it through its identity mapping: every
frame holds 512 words. The same words serve as page table entries, as the
nodes of the frame allocator's list, and as data. -/
namespace D3OS.Memory

open Outcome

/-- `PageTableFlags`: the bits 0 to 11 and 52 to 63 of a word, in this order. -/
abbrev PageTableFlags := BitVec 24

namespace PageTableFlags

def PRESENT : PageTableFlags := 0x1

def WRITABLE : PageTableFlags := 0x2

def USER_ACCESSIBLE : PageTableFlags := 0x4

def HUGE_PAGE : PageTableFlags := 0x80

end PageTableFlags

/-- A 64-bit word, taken apart as a `PageTableEntry`: the frame number in the
bits 12 to 51, and the flags. -/
structure PageTableEntry where
  frame : Nat
  flags : PageTableFlags
  deriving DecidableEq, Repr

variable {frame : Nat}

namespace PageTableEntry

def unused : PageTableEntry := ⟨0, 0⟩

instance : Inhabited PageTableEntry := ⟨unused⟩

def isUnused (entry : PageTableEntry) : Bool := entry = unused

@[simp] theorem isUnused_iff {entry : PageTableEntry} : entry.isUnused = true ↔ entry = unused := by
  simp [isUnused]

def ofNat (value : Nat) : PageTableEntry :=
  ⟨value / 2 ^ 12 % 2 ^ 40, BitVec.ofNat 24 (value % 2 ^ 12 + 2 ^ 12 * (value / 2 ^ 52 % 2 ^ 12))⟩

def toNat (word : PageTableEntry) : Nat :=
  word.flags.toNat % 2 ^ 12 + 2 ^ 12 * word.frame + 2 ^ 52 * (word.flags.toNat / 2 ^ 12)

theorem toNat_ofNat {value : Nat} (h : value < 2 ^ 64) : (ofNat value).toNat = value := by
  simp only [ofNat, toNat, BitVec.toNat_ofNat]
  omega

/-- `set_frame`, which refuses the flag of a huge page. -/
def setFrame (frame : Nat) (flags : PageTableFlags) : Except Panic PageTableEntry :=
  if flags &&& PageTableFlags.HUGE_PAGE = 0 then .ok ⟨frame, flags⟩ else .error .hugePageFlag

theorem setFrame_spec (frame : Nat) (flags : PageTableFlags) :
    Yields False (setFrame frame flags) fun entry => entry = ⟨frame, flags⟩ := by
  unfold setFrame
  split
  · exact Yields.ok rfl
  · exact Yields.error not_false

end PageTableEntry

/-- The contents of one frame. -/
abbrev FrameContents := SparseMap PageTableEntry

instance : Inhabited FrameContents := ⟨SparseMap.empty⟩

/-- Physical memory together with the frame allocator whose list lies in it. -/
structure Machine where
  memory : SparseMap FrameContents
  frames : Frames.Allocator
  deriving DecidableEq

namespace Machine

/-- The word at an index of a frame. -/
def read (m : Machine) (frame index : Nat) : PageTableEntry := (m.memory.get frame).get index

def write (m : Machine) (frame index : Nat) (word : PageTableEntry) : Machine :=
  { m with memory := m.memory.set frame ((m.memory.get frame).set index word) }

/-- `PageTable::zero`: every entry of the table becomes unused. -/
def zero (m : Machine) (frame : Nat) : Machine :=
  { m with memory := m.memory.set frame SparseMap.empty }

/-- The nodes of the free list, each in the first two words of its block. -/
def storeChain (m : Machine) : List Frames.PageFrameNode → Machine
  | [] => m
  | block :: rest =>
    let next := (rest.head?.map fun node => ⟨node.start, 0⟩).getD PageTableEntry.unused
    ((m.write block.start 0 (PageTableEntry.ofNat block.frameCount)).write
      block.start 1 next).storeChain rest

/-- A node that leaves the list has its `next` taken. -/
def takeNext (m : Machine) : List Frames.PageFrameNode → Machine
  | [] => m
  | block :: rest => (m.write block.start 1 PageTableEntry.unused).takeNext rest

/-- Install a new state of the allocator, with its list in memory. -/
def install (m : Machine) (frames : Frames.Allocator) : Machine :=
  ({ m with frames }.takeNext m.frames.blocks).storeChain frames.blocks

def alloc (m : Machine) (frameCount : Nat) : Except Panic (Frames.PhysFrameRange × Machine) := do
  let (range, frames) ← Frames.alloc m.frames frameCount
  return (range, m.install frames)

def free (m : Machine) (range : Frames.PhysFrameRange) : Except Panic Machine := do
  let frames ← Frames.free m.frames range
  return m.install frames

/-- The frames the allocator considers free. -/
def freeSet (m : Machine) : Set Nat := Frames.freeFrames m.frames.blocks

@[simp] theorem read_write (m : Machine) (frame index : Nat) (word : PageTableEntry)
    (frame' index' : Nat) :
    (m.write frame index word).read frame' index' =
      if frame' = frame ∧ index' = index then word else m.read frame' index' := by
  by_cases hFrame : frame' = frame
  · subst hFrame
    by_cases hIndex : index' = index <;> simp [read, write, hIndex]
  · simp [read, write, hFrame]

@[simp] theorem read_zero (m : Machine) (frame frame' index : Nat) :
    (m.zero frame).read frame' index =
      if frame' = frame then PageTableEntry.unused else m.read frame' index := by
  by_cases hFrame : frame' = frame
  · simp only [read, zero, hFrame, SparseMap.get_set, if_true, SparseMap.get_empty]
    rfl
  · simp [read, zero, hFrame]

@[simp] theorem freeSet_write (m : Machine) (frame index : Nat) (word : PageTableEntry) :
    (m.write frame index word).freeSet = m.freeSet := rfl

@[simp] theorem freeSet_zero (m : Machine) (frame : Nat) : (m.zero frame).freeSet = m.freeSet := rfl

@[simp] theorem frames_storeChain (m : Machine) (blocks : List Frames.PageFrameNode) :
    (m.storeChain blocks).frames = m.frames := by
  induction blocks generalizing m with
  | nil => rfl
  | cons block rest ih => exact ih _

@[simp] theorem frames_takeNext (m : Machine) (blocks : List Frames.PageFrameNode) :
    (m.takeNext blocks).frames = m.frames := by
  induction blocks generalizing m with
  | nil => rfl
  | cons block rest ih => exact ih _

@[simp] theorem frames_install (m : Machine) (frames : Frames.Allocator) :
    (m.install frames).frames = frames := by
  simp [install]

variable {m m' : Machine} {blocks : List Frames.PageFrameNode} {count : Nat}
  {range : Frames.PhysFrameRange}

theorem read_storeChain (h : ∀ block ∈ blocks, frame ≠ block.start) (index : Nat) :
    (m.storeChain blocks).read frame index = m.read frame index := by
  induction blocks generalizing m with
  | nil => rfl
  | cons block rest ih =>
    rw [storeChain, ih fun block' hMem => h block' (List.mem_cons_of_mem block hMem)]
    simp [h block]

theorem read_takeNext (h : ∀ block ∈ blocks, frame ≠ block.start) (index : Nat) :
    (m.takeNext blocks).read frame index = m.read frame index := by
  induction blocks generalizing m with
  | nil => rfl
  | cons block rest ih =>
    rw [takeNext, ih fun block' hMem => h block' (List.mem_cons_of_mem block hMem)]
    simp [h block]

/-- A frame outside a well-formed free list is not the first of a block. -/
theorem ne_start_of_not_free (hWell : Frames.WellFormed blocks)
    (hFrame : frame ∉ Frames.freeFrames blocks) (block : Frames.PageFrameNode)
    (hMem : block ∈ blocks) : frame ≠ block.start := by
  rintro rfl
  exact hFrame ⟨block, hMem, le_rfl, hWell.nonempty block hMem⟩

/-- The allocator writes to free frames only. -/
theorem read_install {frames : Frames.Allocator} (hBefore : Frames.WellFormed m.frames.blocks)
    (hAfter : Frames.WellFormed frames.blocks) (hNotBefore : frame ∉ m.freeSet)
    (hNotAfter : frame ∉ Frames.freeFrames frames.blocks) (index : Nat) :
    (m.install frames).read frame index = m.read frame index := by
  unfold install
  rw [read_storeChain (ne_start_of_not_free hAfter hNotAfter),
    read_takeNext (ne_start_of_not_free hBefore hNotBefore)]
  rfl

/-- The state of the allocator on which its specification rests. Frame 0 is
never handed out. -/
structure Sound (m : Machine) : Prop where
  wellFormed : Frames.WellFormed m.frames.blocks
  zero_not_free : 0 ∉ m.freeSet

theorem Sound.write (h : m.Sound) (frame index : Nat) (word : PageTableEntry) :
    (m.write frame index word).Sound := ⟨h.wellFormed, h.zero_not_free⟩

theorem Sound.zero (h : m.Sound) (frame : Nat) : (m.zero frame).Sound :=
  ⟨h.wellFormed, h.zero_not_free⟩

/-- What the machine looks like once a set of free frames is handed out. -/
structure Allocated (m : Machine) (taken : Set Nat) (m' : Machine) : Prop where
  sound : m'.Sound
  free : taken ⊆ m.freeSet
  freeSet_eq : m'.freeSet = m.freeSet \ taken
  physLimit_eq : m'.frames.physLimit = m.frames.physLimit
  read_eq : ∀ frame ∉ m.freeSet, ∀ index, m'.read frame index = m.read frame index

theorem alloc_allocated (h : m.Sound) (hAlloc : m.alloc count = .ok (range, m')) :
    range.stop = range.start + count ∧ Allocated m range.frames m' := by
  obtain ⟨⟨range', frames⟩, hFrames, hEq⟩ := bind_ok hAlloc
  obtain ⟨rfl, rfl⟩ : range' = range ∧ m.install frames = m' := by simpa using hEq
  obtain ⟨hStop, hFree, hWell, hSet, hLimit⟩ := Frames.alloc_ok h.wellFormed hFrames
  have hSubset : Frames.freeFrames frames.blocks ⊆ m.freeSet := by
    rw [hSet]
    exact Set.sdiff_subset
  refine ⟨hStop, ⟨?_, ?_⟩, hFree, ?_, ?_, ?_⟩
  · rwa [frames_install]
  · intro hZero
    exact h.zero_not_free (hSubset (by simpa [freeSet] using hZero))
  · simpa [freeSet] using hSet
  · rwa [frames_install]
  · intro frame hNot index
    exact read_install h.wellFormed hWell hNot (fun hMem => hNot (hSubset hMem)) index

/-- `frames::alloc` hands out the lowest run of free frames. -/
theorem alloc_isLeast (h : m.Sound) (hCount : 0 < count)
    (hAlloc : m.alloc count = .ok (range, m')) :
    IsLeast (Frames.PageFrameListAllocator.runStarts m.frames.blocks count) range.start := by
  obtain ⟨⟨range', frames⟩, hFrames, hEq⟩ := bind_ok hAlloc
  obtain ⟨rfl, -⟩ : range' = range ∧ m.install frames = m' := by simpa using hEq
  obtain ⟨⟨taken, blocks⟩, hBlock, hEq⟩ := bind_ok hFrames
  obtain ⟨rfl, -⟩ : taken = range' ∧ { m.frames with blocks } = frames := by simpa using hEq
  exact Frames.PageFrameListAllocator.allocBlock_isLeast h.wellFormed hCount hBlock

/-- It finds one if there is one. -/
theorem alloc_of_run {start : Nat} (h : m.Sound) (hCount : 0 < count)
    (hRun : start ∈ Frames.PageFrameListAllocator.runStarts m.frames.blocks count) :
    ∃ range m', m.alloc count = .ok (range, m') := by
  cases hBlock : m.frames.blocks.allocBlock count with
  | ok result => exact ⟨result.1, _, by simp [alloc, Frames.alloc, hBlock]; rfl⟩
  | error panic =>
    have hNone := (Frames.PageFrameListAllocator.allocBlock_error_iff h.wellFormed hCount).mp
      ⟨panic, hBlock⟩
    simp [hNone] at hRun

theorem alloc_one (h : m.Sound) :
    Yields False (m.alloc 1) fun (range, m') => Allocated m {range.start} m' := by
  refine Yields.of_forall ?_
  rintro ⟨range, m'⟩ hAlloc
  obtain ⟨hStop, hAllocated⟩ := alloc_allocated h hAlloc
  have hRange : range.frames = {range.start} :=
    Set.ext fun x => by simp [Frames.PhysFrameRange.frames, hStop]; omega
  rwa [hRange] at hAllocated

/-- What the machine looks like once a set of frames is given back. -/
structure Freed (m : Machine) (given : Set Nat) (m' : Machine) : Prop where
  sound : m'.Sound
  freeSet_eq : m'.freeSet = given ∪ m.freeSet
  physLimit_eq : m'.frames.physLimit = m.frames.physLimit
  read_eq : ∀ frame ∉ m'.freeSet, ∀ index, m'.read frame index = m.read frame index

/-- Frames that are in use, and frame 0 is not one of them, are given back. -/
theorem free_freed (h : m.Sound) (hRange : range.start < range.stop)
    (hUsed : Disjoint range.frames m.freeSet) (hZero : 0 ∉ range.frames) :
    ∃ m', m.free range = .ok m' ∧ Freed m range.frames m' := by
  obtain ⟨frames, hFree, hWell, hSet, hLimit⟩ := Frames.free_ok h.wellFormed hRange hUsed
  have hFreeSet : (m.install frames).freeSet = range.frames ∪ m.freeSet := by
    simpa [freeSet] using hSet
  refine ⟨m.install frames, by simp [free, hFree], ⟨?_, ?_⟩, hFreeSet, ?_, ?_⟩
  · rwa [frames_install]
  · rw [hFreeSet]
    exact fun hMem => hMem.elim hZero h.zero_not_free
  · rwa [frames_install]
  · intro other hNot index
    rw [hFreeSet] at hNot
    refine read_install h.wellFormed hWell (fun hMem => hNot (.inr hMem)) ?_ index
    rwa [hSet]

theorem free_one (h : m.Sound) (hFrame : frame ∉ m.freeSet) (hZero : frame ≠ 0) :
    ∃ m', m.free ⟨frame, frame + 1⟩ = .ok m' ∧ Freed m {frame} m' := by
  have hRange : Frames.PhysFrameRange.frames ⟨frame, frame + 1⟩ = {frame} :=
    Set.ext fun x => by simp [Frames.PhysFrameRange.frames]; omega
  rw [← hRange]
  refine free_freed h (Nat.lt_succ_self frame) ?_ ?_
  · rw [hRange]
    exact Set.disjoint_singleton_left.mpr hFrame
  · rw [hRange]
    exact hZero.symm

/-- The nodes of the free list are in memory, each with the size of its block
in the first word. -/
def Stored (m : Machine) : Prop :=
  ∀ block ∈ m.frames.blocks, m.read block.start 0 = PageTableEntry.ofNat block.frameCount

theorem read_storeChain_first (h : Frames.WellFormed blocks) (block : Frames.PageFrameNode)
    (hMem : block ∈ blocks) :
    (m.storeChain blocks).read block.start 0 = PageTableEntry.ofNat block.frameCount := by
  induction blocks generalizing m with
  | nil => cases hMem
  | cons first rest ih =>
    obtain ⟨hNonempty, hOrder⟩ := h
    obtain ⟨hFirst, hRest⟩ := List.pairwise_cons.mp hOrder
    rcases List.mem_cons.mp hMem with rfl | hMem
    · rw [storeChain, read_storeChain]
      · simp
      · grind
    · exact ih ⟨fun other hOther => hNonempty other (List.mem_cons_of_mem _ hOther), hRest⟩ hMem

theorem stored_install {frames : Frames.Allocator} (h : Frames.WellFormed frames.blocks) :
    (m.install frames).Stored := by
  intro block hMem
  rw [frames_install] at hMem
  exact read_storeChain_first h block hMem

theorem read_takeNext_first (m : Machine) (blocks : List Frames.PageFrameNode) (frame : Nat) :
    (m.takeNext blocks).read frame 0 = m.read frame 0 := by
  induction blocks generalizing m with
  | nil => rfl
  | cons block rest ih =>
    rw [takeNext, ih]
    simp

/-- The allocator leaves the node of the block that it takes the frames from in
the first of them. -/
theorem alloc_first_word (h : m.Sound) (hStored : m.Stored) (hCount : 0 < count)
    (hAlloc : m.alloc count = .ok (range, m')) :
    ∃ block ∈ m.frames.blocks, count ≤ block.frameCount ∧
      m'.read range.start 0 = PageTableEntry.ofNat block.frameCount := by
  obtain ⟨hStop, hAllocated⟩ := alloc_allocated h hAlloc
  obtain ⟨⟨range', frames⟩, hFrames, hEq⟩ := bind_ok hAlloc
  obtain ⟨rfl, rfl⟩ : range' = range ∧ m.install frames = m' := by simpa using hEq
  obtain ⟨⟨taken, blocks⟩, hBlock, hEq⟩ := bind_ok hFrames
  obtain ⟨rfl, rfl⟩ : taken = range' ∧ { m.frames with blocks } = frames := by simpa using hEq
  cases hFind : Frames.PageFrameListAllocator.findFreeBlock count m.frames.blocks with
  | none => simp [Frames.PageFrameListAllocator.allocBlock, hFind] at hBlock
  | some found =>
    obtain ⟨block, rest⟩ := found
    obtain ⟨blocks', hTaken⟩ := Frames.PageFrameListAllocator.allocBlock_of_find hFind
    rw [hTaken] at hBlock
    obtain ⟨rfl, rfl⟩ := Prod.mk.inj (Except.ok.inj hBlock)
    obtain ⟨before, after, hBlocks, -, hSize, -⟩ :=
      Frames.PageFrameListAllocator.findFreeBlock_split hFind
    have hMem : block ∈ m.frames.blocks := by simp [hBlocks]
    refine ⟨block, hMem, hSize, ?_⟩
    -- The block has left the list, so that no node is stored over it.
    have hNotFree : block.start ∉ (m.install { m.frames with blocks := blocks' }).freeSet := by
      rw [hAllocated.freeSet_eq]
      exact fun hIn => hIn.2 ⟨le_rfl, by simp only; omega⟩
    rw [freeSet, frames_install] at hNotFree
    have hWell := hAllocated.sound.wellFormed
    rw [frames_install] at hWell
    rw [install, read_storeChain (ne_start_of_not_free hWell hNotFree), read_takeNext_first]
    exact hStored block hMem

theorem alloc_stored (h : m.Sound) (hAlloc : m.alloc count = .ok (range, m')) : m'.Stored := by
  have hWell := (alloc_allocated h hAlloc).2.sound.wellFormed
  obtain ⟨⟨range', frames⟩, -, hEq⟩ := bind_ok hAlloc
  obtain ⟨-, rfl⟩ : range' = range ∧ m.install frames = m' := by simpa using hEq
  rw [frames_install] at hWell
  exact stored_install hWell

theorem free_stored (hSound : m'.Sound) (hFree : m.free range = .ok m') : m'.Stored := by
  have hWell := hSound.wellFormed
  obtain ⟨frames, -, hEq⟩ := bind_ok hFree
  obtain rfl : m.install frames = m' := by simpa using hEq
  rw [frames_install] at hWell
  exact stored_install hWell

end Machine

end D3OS.Memory
