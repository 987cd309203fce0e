import D3OS.Memory.FreeList
import D3OS.Memory.Mapping

/-! The Multiboot2 memory map at boot. Every available area is rounded inwards
to frames and inserted into the frame allocator. An area without a whole frame
becomes an empty or a reversed region: the one leaves a node without frames in
the list, the other stops the boot. -/
namespace D3OS.Memory

open Outcome
open Frames (Allocator PhysFrameRange PageFrameNode PageFrameListAllocator freeFrames)
open Frames.PageFrameListAllocator

inductive MemoryAreaType where
  | available
  | reserved
  | acpiAvailable
  | reservedHibernate
  | defective
  | custom (typ : Nat)
  deriving DecidableEq, Repr

/-- An entry of the memory map: 64-bit numbers of any size. -/
structure MemoryArea where
  baseAddr : Nat
  length : Nat
  typ : MemoryAreaType
  baseAddr_lt : baseAddr < 2 ^ 64
  length_lt : length < 2 ^ 64
  deriving DecidableEq

namespace MemoryArea

def endAddress (area : MemoryArea) (profile : BuildProfile) : Except Panic Nat :=
  profile.word (area.baseAddr + area.length)

/-- The frames of an area, rounded inwards on both sides. -/
def region (area : MemoryArea) (profile : BuildProfile) : Except Panic PhysFrameRange := do
  let start ← frameFromU64 area.baseAddr
  let endAddr ← area.endAddress profile
  if endAddr < 2 ^ 52 then return ⟨start, endAddr / PAGE_SIZE⟩ else .error .invalidPhysAddr

end MemoryArea

/-- One round of the loop of `scan_multiboot2_memory_map`. -/
def insertArea (profile : BuildProfile) (self : Allocator) (area : MemoryArea) :
    Except Panic Allocator := do
  let region ← area.region profile
  Frames.insert self region

def insertAreas (profile : BuildProfile) (self : Allocator) (areas : List MemoryArea) :
    Except Panic Allocator :=
  areas.foldlM (insertArea profile) self

def available (areas : List MemoryArea) : List MemoryArea :=
  areas.filter fun area => area.typ = .available

def scanMultiboot2MemoryMap (profile : BuildProfile) (self : Allocator) (areas : List MemoryArea) :
    Except Panic Allocator :=
  insertAreas profile self (available areas)

namespace MemoryArea

/-- The first frame that starts in the area. -/
def firstFrame (area : MemoryArea) : Nat := (area.baseAddr + (PAGE_SIZE - 1)) / PAGE_SIZE

/-- The first frame that does not end in the area. -/
def lastFrame (area : MemoryArea) : Nat := (area.baseAddr + area.length) / PAGE_SIZE

/-- Neither of the two areas reaches into the other. -/
def Apart (area other : MemoryArea) : Prop :=
  area.baseAddr + area.length ≤ other.baseAddr ∨ other.baseAddr + other.length ≤ area.baseAddr

end MemoryArea

/-- The frame is not frame 0 and lies entirely inside one of the areas. -/
def Whole (areas : List MemoryArea) (frame : Nat) : Prop :=
  frame ≠ 0 ∧ ∃ area ∈ areas, area.baseAddr ≤ PAGE_SIZE * frame ∧
    PAGE_SIZE * frame + PAGE_SIZE ≤ area.baseAddr + area.length

/-- A node of the free list that is stored in the frame, with its frame count
and its link, lies inside the areas. -/
def NodeInside (areas : List MemoryArea) (frame : Nat) : Prop :=
  ∀ byte, PAGE_SIZE * frame ≤ byte → byte < PAGE_SIZE * frame + 16 →
    ∃ area ∈ areas, area.baseAddr ≤ byte ∧ byte < area.baseAddr + area.length

/-- All nodes of the list lie inside the areas. A step of the allocator writes
to nodes that are in the list before it or behind it. -/
def NodesInside (areas : List MemoryArea) (blocks : PageFrameListAllocator) : Prop :=
  ∀ node ∈ blocks, NodeInside areas node.start

/-- The memory map is taken over exactly: no insertion panics or leaves a node
outside of the available areas, and in the end the free frames are the whole
frames of the available areas. -/
def TakenOver (profile : BuildProfile) (areas : List MemoryArea) : Prop :=
  (∀ done, done <+: available areas → ∃ self, insertAreas profile Allocator.new done = .ok self ∧
    NodesInside (available areas) self.blocks) ∧
  ∃ self, scanMultiboot2MemoryMap profile Allocator.new areas = .ok self ∧
    ∀ frame, frame ∈ freeFrames self.blocks ↔ Whole (available areas) frame

/-- The conditions on an area, given the available areas and those before it:
it lies below the limit of physical addresses, it reaches over the start of a
frame, and if it has no whole frame, that frame is not between two whole frames
of the areas before, and it is next to one or has room for a node. -/
structure Suits (areas before : List MemoryArea) (area : MemoryArea) : Prop where
  start_lt : PAGE_SIZE * area.firstFrame < 2 ^ 52
  end_lt : area.baseAddr + area.length < 2 ^ 52
  forward : area.firstFrame ≤ area.lastFrame
  not_between : area.firstFrame = area.lastFrame → area.firstFrame ≠ 0 →
    ¬ (Whole before (area.firstFrame - 1) ∧ Whole before area.firstFrame)
  room : area.firstFrame = area.lastFrame → area.firstFrame ≠ 0 →
    Whole before (area.firstFrame - 1) ∨ Whole before area.firstFrame ∨
      NodeInside areas area.firstFrame

variable {frame : Nat} {area : MemoryArea} {profile : BuildProfile} {self : Allocator}

theorem whole_iff {areas : List MemoryArea} :
    Whole areas frame ↔
      frame ≠ 0 ∧ ∃ area ∈ areas, area.firstFrame ≤ frame ∧ frame < area.lastFrame := by
  refine and_congr_right fun _ => exists_congr fun area => and_congr_right fun _ => ?_
  simp only [MemoryArea.firstFrame, MemoryArea.lastFrame, PAGE_SIZE]
  omega

theorem whole_append {before : List MemoryArea} :
    Whole (before ++ [area]) frame ↔
      Whole before frame ∨ frame ≠ 0 ∧ area.firstFrame ≤ frame ∧ frame < area.lastFrame := by
  simp only [whole_iff, List.mem_append, List.mem_singleton, or_and_right, exists_or, exists_eq_left,
    and_or_left]

/-- A whole frame of an area has room for a node. -/
theorem nodeInside_of_whole {areas : List MemoryArea} (hMem : area ∈ areas)
    (hFirst : area.firstFrame ≤ frame) (hLast : frame < area.lastFrame) :
    NodeInside areas frame := by
  intro byte hLow hHigh
  refine ⟨area, hMem, ?_⟩
  simp only [MemoryArea.firstFrame, MemoryArea.lastFrame, PAGE_SIZE] at *
  omega

/-! #### The region of an area -/

theorem MemoryArea.region_of_lt (profile : BuildProfile)
    (hStart : PAGE_SIZE * area.firstFrame < 2 ^ 52) (hEnd : area.baseAddr + area.length < 2 ^ 52) :
    area.region profile = .ok ⟨area.firstFrame, area.lastFrame⟩ := by
  have hBase : area.baseAddr < 2 ^ 52 ∧ PAGE_SIZE * area.firstFrame < 2 ^ 52 := ⟨by omega, hStart⟩
  have hWord : area.endAddress profile = .ok (area.baseAddr + area.length) :=
    profile.word_of_lt (by omega)
  have hFrame : frameFromU64 area.baseAddr = .ok area.firstFrame := if_pos hBase
  rw [region, hFrame, hWord, bind_of_ok, bind_of_ok, if_pos hEnd]
  rfl

/-- An area that reaches beyond the physical addresses stops the boot, if need
be because its end has wrapped around to an address below its start. -/
theorem MemoryArea.region_ok {region : PhysFrameRange} (h : area.region profile = .ok region) :
    PAGE_SIZE * area.firstFrame < 2 ^ 52 ∧
      (area.baseAddr + area.length < 2 ^ 52 ∧ region = ⟨area.firstFrame, area.lastFrame⟩ ∨
        region.stop < region.start) := by
  obtain ⟨start, hStart, hRest⟩ := bind_ok h
  obtain ⟨endAddr, hEnd, hRest⟩ := bind_ok hRest
  have hLength := area.length_lt
  change (if area.baseAddr < 2 ^ 52 ∧ PAGE_SIZE * area.firstFrame < 2 ^ 52 then
    Except.ok area.firstFrame else .error Panic.invalidPhysAddr) = .ok start at hStart
  obtain ⟨hBase, hStart⟩ := ite_ok hStart
  obtain rfl : area.firstFrame = start := Except.ok.inj hStart
  refine ⟨hBase.2, ?_⟩
  obtain ⟨hLt, hRest⟩ := ite_ok hRest
  obtain rfl := pure_ok hRest
  by_cases hFits : area.baseAddr + area.length < 2 ^ 64
  · obtain rfl : area.baseAddr + area.length = endAddr :=
      Except.ok.inj ((profile.word_of_lt hFits).symm.trans hEnd)
    exact .inl ⟨hLt, rfl⟩
  · cases profile with
    | development =>
      rw [endAddress, BuildProfile.word_development_of_not_lt hFits] at hEnd
      cases hEnd
    | production =>
      rw [endAddress, BuildProfile.word_production] at hEnd
      obtain rfl := Except.ok.inj hEnd
      right
      simp only [firstFrame, PAGE_SIZE] at hBase ⊢
      omega

/-- What `insert` does to the list for a region that is not reversed. -/
def joinArea (blocks : PageFrameListAllocator) (area : MemoryArea) :
    Except Panic PageFrameListAllocator :=
  if area.firstFrame = 0 ∧ area.lastFrame ≤ 1 then .ok blocks
  else blocks.freeBlock ⟨max area.firstFrame 1, area.lastFrame⟩

theorem insert_blocks :
    (Frames.insert self ⟨area.firstFrame, area.lastFrame⟩).map Allocator.blocks =
      joinArea self.blocks area := by
  unfold Frames.insert joinArea
  simp only
  split
  · rfl
  · have hCut : (if area.firstFrame = 0 then (⟨1, area.lastFrame⟩ : PhysFrameRange)
        else ⟨area.firstFrame, area.lastFrame⟩) = ⟨max area.firstFrame 1, area.lastFrame⟩ := by
      grind
    rw [hCut]
    unfold Frames.free
    cases self.blocks.freeBlock ⟨max area.firstFrame 1, area.lastFrame⟩ <;> rfl

/-! #### The list in between -/

/-- The list holds the whole frames of the areas so far, and its nodes without
frames come from areas without a whole frame. -/
structure Collected (before : List MemoryArea) (blocks : PageFrameListAllocator) : Prop where
  separated : Separated (· < ·) blocks
  free : ∀ frame, frame ∈ freeFrames blocks ↔ Whole before frame
  empty : ∀ node ∈ blocks, node.frameCount = 0 →
    ∃ area ∈ before, area.firstFrame = node.start ∧ area.lastFrame = node.start

theorem collected_nil : Collected [] [] :=
  ⟨List.Pairwise.nil, by simp [whole_iff, freeFrames], by simp⟩

namespace Collected

variable {areas before : List MemoryArea} {area : MemoryArea} {blocks blocks' : PageFrameListAllocator}
  {frame : Nat}

/-- Two nodes that are both next to a frame boundary are one. -/
theorem node_unique (h : Collected before blocks) {node other : PageFrameNode} (hNode : node ∈ blocks)
    (hOther : other ∈ blocks) (hStart : node.start ≤ frame) (hStop : frame ≤ node.stop)
    (hStart' : other.start ≤ frame) (hStop' : frame ≤ other.stop) : node = other := by
  by_contra hNe
  have hApart : blocks.Pairwise fun a b => a.stop < b.start ∨ b.stop < a.start :=
    h.separated.imp .inl
  have : Std.Symm fun a b : PageFrameNode => a.stop < b.start ∨ b.stop < a.start :=
    ⟨fun _ _ => Or.symm⟩
  rcases hApart.forall hNode hOther hNe with hLt | hLt <;> omega

theorem inside_iff (h : Collected before blocks) :
    (∃ node ∈ blocks, node.start < frame ∧ frame < node.stop) ↔
      Whole before (frame - 1) ∧ Whole before frame := by
  rw [← h.free, ← h.free]
  constructor
  · rintro ⟨node, hNode, hStart, hStop⟩
    exact ⟨⟨node, hNode, by omega, by omega⟩, ⟨node, hNode, by omega, hStop⟩⟩
  · rintro ⟨⟨node, hNode, hStart, hStop⟩, ⟨other, hOther, hStart', hStop'⟩⟩
    have hPos : frame ≠ 0 := ((h.free frame).mp ⟨other, hOther, hStart', hStop'⟩).1
    obtain rfl := h.node_unique hNode hOther (by omega) (by omega) hStart' hStop'.le
    exact ⟨node, hNode, by omega, hStop'⟩

/-- A node with frames that begins or ends at the frame. -/
theorem whole_of_touches (h : Collected before blocks) {node : PageFrameNode} (hNode : node ∈ blocks)
    (hSize : node.frameCount ≠ 0) (hTouches : node.start = frame ∨ node.stop = frame) :
    Whole before (frame - 1) ∨ Whole before frame := by
  rw [← h.free, ← h.free]
  have hStop : node.stop = node.start + node.frameCount := rfl
  rcases hTouches with hStart | hEnd
  · exact .inr ⟨node, hNode, by omega, by omega⟩
  · exact .inl ⟨node, hNode, by omega, by omega⟩

theorem apart_of_not_touching
    (hBetween : ¬ ∃ node ∈ blocks, node.start < frame ∧ frame < node.stop)
    (hTouches : ¬ ∃ node ∈ blocks, node.start = frame ∨ node.stop = frame) (node : PageFrameNode)
    (hNode : node ∈ blocks) : frame < node.start ∨ node.stop < frame := by
  by_contra hNear
  have hStart : node.start ≠ frame := fun hEq => hTouches ⟨node, hNode, .inl hEq⟩
  have hStop : node.stop ≠ frame := fun hEq => hTouches ⟨node, hNode, .inr hEq⟩
  exact hBetween ⟨node, hNode, by omega, by omega⟩

section

variable (h : Collected before blocks)

include h

/-- An area without a whole frame. -/
theorem insert_empty_iff (hInside : NodesInside areas blocks) :
    (∃ blocks', blocks.freeBlock ⟨frame, frame⟩ = .ok blocks' ∧ NodesInside areas blocks') ↔
      ¬ (Whole before (frame - 1) ∧ Whole before frame) ∧
        (Whole before (frame - 1) ∨ Whole before frame ∨ NodeInside areas frame) := by
  by_cases hBetween : ∃ node ∈ blocks, node.start < frame ∧ frame < node.stop
  · obtain ⟨panic, hPanic⟩ := freeBlock_empty_inside h.separated hBetween
    refine iff_of_false ?_ fun hRight => hRight.1 (h.inside_iff.mp hBetween)
    rintro ⟨blocks', hFree, -⟩
    cases hPanic.symm.trans hFree
  rw [← h.inside_iff, and_iff_right hBetween]
  by_cases hTouches : ∃ node ∈ blocks, node.start = frame ∨ node.stop = frame
  · refine iff_of_true ⟨blocks, freeBlock_empty_touching h.separated hTouches, hInside⟩ ?_
    obtain ⟨node, hNode, hEnd⟩ := hTouches
    by_cases hSize : node.frameCount = 0
    · -- the node without frames lies at the frame itself
      have hStart : node.start = frame := by
        simp only [PageFrameNode.stop] at hEnd
        omega
      exact .inr (.inr (hStart ▸ hInside node hNode))
    · exact (h.whole_of_touches hNode hSize hEnd).imp_right .inl
  · have hApart := apart_of_not_touching hBetween hTouches
    have hNotWhole : ∀ other, frame - 1 ≤ other → other ≤ frame → ¬ Whole before other := by
      intro other hLow hHigh hWhole
      obtain ⟨node, hNode, hStart, hStop⟩ := (h.free other).mpr hWhole
      have := hApart node hNode
      have := hWhole.1
      omega
    rw [freeBlock_empty_apart hApart]
    constructor
    · rintro ⟨blocks', hFree, hInside'⟩
      obtain rfl := Except.ok.inj hFree
      exact .inr (.inr (hInside' ⟨frame, 0⟩ (mem_link.mpr (.inl rfl))))
    · intro hRoom
      have hNode : NodeInside areas frame :=
        (hRoom.resolve_left (hNotWhole _ le_rfl (Nat.sub_le _ _))).resolve_left
          (hNotWhole _ (Nat.sub_le _ _) le_rfl)
      refine ⟨_, rfl, ?_⟩
      intro node hMem
      rcases mem_link.mp hMem with rfl | hMem
      · exact hNode
      · exact hInside node hMem

/-- The nodes lie on one side of the frames of a new area. -/
theorem apart_of_apart (hApart : ∀ other ∈ before, other.Apart area)
    (hWhole : max area.firstFrame 1 < area.lastFrame) (node : PageFrameNode) (hNode : node ∈ blocks)
    :
    area.lastFrame ≤ node.start ∨ node.stop ≤ max area.firstFrame 1 := by
  by_contra hMeets
  rw [not_or, Nat.not_le, Nat.not_le] at hMeets
  by_cases hSize : node.frameCount = 0
  · -- a node without frames comes from an area that reaches over its frame
    obtain ⟨other, hOther, hFirst, hLast⟩ := h.empty node hNode hSize
    have hOrder := hApart other hOther
    simp only [MemoryArea.Apart, MemoryArea.firstFrame, MemoryArea.lastFrame, PAGE_SIZE,
      PageFrameNode.stop] at *
    omega
  · have hFrame : max node.start (max area.firstFrame 1) ∈ freeFrames blocks := by
      refine ⟨node, hNode, Nat.le_max_left _ _, ?_⟩
      simp only [PageFrameNode.stop] at hMeets ⊢
      omega
    obtain ⟨-, other, hOther, hFirst, hLast⟩ := whole_iff.mp ((h.free _).mp hFrame)
    have hOrder := hApart other hOther
    simp only [MemoryArea.Apart, MemoryArea.firstFrame, MemoryArea.lastFrame, PAGE_SIZE] at *
    omega

/-- An area with a whole frame other than frame 0. -/
theorem insert_whole (hApart : ∀ other ∈ before, other.Apart area)
    (hWhole : max area.firstFrame 1 < area.lastFrame) :
    ∃ blocks', blocks.freeBlock ⟨max area.firstFrame 1, area.lastFrame⟩ = .ok blocks' ∧
      (∀ node ∈ blocks', node.start = max area.firstFrame 1 ∨
        ∃ old ∈ blocks, old.start = node.start) ∧ Collected (before ++ [area]) blocks' := by
  obtain ⟨blocks', hFree, hJoins⟩ :=
    @freeBlock_joins _ _ ⟨max area.firstFrame 1, area.lastFrame⟩ Spans.isGap_lt h.separated
      hWhole.le (.inr Nat.lt_irrefl) (h.apart_of_apart hApart hWhole)
  refine ⟨blocks', hFree, fun node hNode => hJoins.start_cases hNode, hJoins.separated, ?_, ?_⟩
  · intro frame
    rw [hJoins.frames, whole_append, Set.mem_union, h.free, or_comm]
    refine or_congr_right ?_
    simp only [PhysFrameRange.frames, Set.mem_Ico]
    omega
  · intro node hNode hSize
    rcases hJoins.nodes node hNode with hOld | ⟨-, hLarge⟩
    · obtain ⟨other, hOther, hEnds⟩ := h.empty node hOld hSize
      exact ⟨other, List.mem_append_left _ hOther, hEnds⟩
    · simp only at hLarge
      omega

/-- An area without a whole frame adds none. -/
theorem append_of_empty
    (hEmpty : ∀ frame, area.firstFrame ≤ frame → frame < area.lastFrame → frame = 0) :
    Collected (before ++ [area]) blocks := by
  refine ⟨h.separated, ?_, ?_⟩
  · intro frame
    rw [h.free, whole_append]
    exact (or_iff_left fun hNew => hNew.1 (hEmpty frame hNew.2.1 hNew.2.2)).symm
  · intro node hNode hSize
    obtain ⟨other, hOther, hEnds⟩ := h.empty node hNode hSize
    exact ⟨other, List.mem_append_left _ hOther, hEnds⟩

theorem insert_empty (hFirst : area.firstFrame = frame) (hLast : area.lastFrame = frame)
    (hFree : blocks.freeBlock ⟨frame, frame⟩ = .ok blocks') :
    Collected (before ++ [area]) blocks' := by
  have hEmpty : ∀ other, area.firstFrame ≤ other → other < area.lastFrame → other = 0 := by omega
  by_cases hBetween : ∃ node ∈ blocks, node.start < frame ∧ frame < node.stop
  · obtain ⟨panic, hPanic⟩ := freeBlock_empty_inside h.separated hBetween
    cases hPanic.symm.trans hFree
  by_cases hTouches : ∃ node ∈ blocks, node.start = frame ∨ node.stop = frame
  · obtain rfl := Except.ok.inj ((freeBlock_empty_touching h.separated hTouches).symm.trans hFree)
    exact h.append_of_empty hEmpty
  have hApart := apart_of_not_touching hBetween hTouches
  obtain rfl := Except.ok.inj ((freeBlock_empty_apart hApart).symm.trans hFree)
  have hJoins := @link_joins _ _ ⟨frame, frame⟩ Spans.isGap_lt h.separated le_rfl hApart
  have hAppend := h.append_of_empty hEmpty
  simp only [Nat.sub_self] at hJoins
  refine ⟨hJoins.separated, ?_, ?_⟩
  · intro other
    rw [hJoins.frames, ← hAppend.free]
    simp [PhysFrameRange.frames]
  · intro node hNode hSize
    rcases mem_link.mp hNode with rfl | hOld
    · exact ⟨area, List.mem_append_right _ (List.mem_singleton_self _), hFirst, hLast⟩
    · exact hAppend.empty node hOld hSize

/-- One area that is not reversed. -/
theorem join_iff (hInside : NodesInside areas blocks) (hMem : area ∈ areas)
    (hApart : ∀ other ∈ before, other.Apart area) (hForward : area.firstFrame ≤ area.lastFrame) :
    (∃ blocks', joinArea blocks area = .ok blocks' ∧ NodesInside areas blocks') ↔
      (area.firstFrame = area.lastFrame → area.firstFrame ≠ 0 →
        ¬ (Whole before (area.firstFrame - 1) ∧ Whole before area.firstFrame) ∧
          (Whole before (area.firstFrame - 1) ∨ Whole before area.firstFrame ∨
            NodeInside areas area.firstFrame)) := by
  unfold joinArea
  by_cases hSkip : area.firstFrame = 0 ∧ area.lastFrame ≤ 1
  · rw [if_pos hSkip]
    exact iff_of_true ⟨blocks, rfl, hInside⟩ fun _ hPos => absurd hSkip.1 hPos
  rw [if_neg hSkip]
  by_cases hEmpty : area.firstFrame = area.lastFrame
  · have hPos : area.firstFrame ≠ 0 := by omega
    rw [Nat.max_eq_left (Nat.pos_of_ne_zero hPos), ← hEmpty, h.insert_empty_iff hInside]
    exact ⟨fun hRight _ _ => hRight, fun hRight => hRight rfl hPos⟩
  · have hWhole : max area.firstFrame 1 < area.lastFrame := by omega
    obtain ⟨blocks', hFree, hStarts, -⟩ := h.insert_whole hApart hWhole
    refine iff_of_true ⟨blocks', hFree, ?_⟩ fun hEq => absurd hEq hEmpty
    intro node hNode
    rcases hStarts node hNode with hStart | ⟨old, hOld, hStart⟩
    · exact hStart ▸ nodeInside_of_whole hMem (Nat.le_max_left _ _) hWhole
    · exact hStart ▸ hInside old hOld

theorem join (hApart : ∀ other ∈ before, other.Apart area)
    (hForward : area.firstFrame ≤ area.lastFrame) (hJoin : joinArea blocks area = .ok blocks') :
    Collected (before ++ [area]) blocks' := by
  unfold joinArea at hJoin
  by_cases hSkip : area.firstFrame = 0 ∧ area.lastFrame ≤ 1
  · rw [if_pos hSkip] at hJoin
    obtain rfl := Except.ok.inj hJoin
    exact h.append_of_empty (by omega)
  rw [if_neg hSkip] at hJoin
  by_cases hEmpty : area.firstFrame = area.lastFrame
  · have hPos : area.firstFrame ≠ 0 := by omega
    rw [Nat.max_eq_left (Nat.pos_of_ne_zero hPos), ← hEmpty] at hJoin
    exact h.insert_empty rfl hEmpty.symm hJoin
  · obtain ⟨joined, hFree, -, hCollected⟩ := h.insert_whole hApart (by omega)
    obtain rfl := Except.ok.inj (hFree.symm.trans hJoin)
    exact hCollected

end

end Collected

theorem insert_reversed {self : Allocator} {region : PhysFrameRange}
    (h : region.stop < region.start) : ∃ panic, Frames.insert self region = .error panic := by
  have hStart : region.start ≠ 0 := by omega
  obtain ⟨panic, hFree⟩ := @freeBlock_reversed self.blocks _ h
  refine ⟨panic, ?_⟩
  unfold Frames.insert Frames.free
  simp only [hStart, false_and, if_false]
  rw [hFree]
  rfl

/-- The region of an area that is inserted without a panic. -/
theorem insertArea_ok {self' : Allocator} (h : insertArea profile self area = .ok self') :
    PAGE_SIZE * area.firstFrame < 2 ^ 52 ∧ area.baseAddr + area.length < 2 ^ 52 ∧
      area.firstFrame ≤ area.lastFrame ∧ joinArea self.blocks area = .ok self'.blocks := by
  obtain ⟨region, hRegion, hInsert⟩ := bind_ok h
  have hForward : ¬ region.stop < region.start := by
    intro hReversed
    obtain ⟨panic, hPanic⟩ := @insert_reversed self _ hReversed
    cases hPanic.symm.trans hInsert
  obtain ⟨hStart, ⟨hEnd, rfl⟩ | hReversed⟩ := MemoryArea.region_ok hRegion
  · refine ⟨hStart, hEnd, Nat.not_lt.mp hForward, ?_⟩
    rw [← insert_blocks, hInsert]
    rfl
  · exact absurd hReversed hForward

theorem insertArea_of_join {blocks : PageFrameListAllocator}
    (hStart : PAGE_SIZE * area.firstFrame < 2 ^ 52) (hEnd : area.baseAddr + area.length < 2 ^ 52)
    (hJoin : joinArea self.blocks area = .ok blocks) :
    ∃ self', insertArea profile self area = .ok self' ∧ self'.blocks = blocks := by
  unfold insertArea
  rw [MemoryArea.region_of_lt profile hStart hEnd, bind_of_ok]
  rw [← insert_blocks] at hJoin
  cases hInsert : Frames.insert self ⟨area.firstFrame, area.lastFrame⟩ with
  | error panic =>
    rw [hInsert] at hJoin
    cases hJoin
  | ok self' =>
    rw [hInsert] at hJoin
    exact ⟨self', rfl, Except.ok.inj hJoin⟩

theorem Collected.step_iff {profile : BuildProfile} {areas before : List MemoryArea} {area : MemoryArea}
    {self : Allocator} (h : Collected before self.blocks) (hInside : NodesInside areas self.blocks)
    (hMem : area ∈ areas) (hApart : ∀ other ∈ before, other.Apart area) :
    (∃ self', insertArea profile self area = .ok self' ∧ NodesInside areas self'.blocks) ↔
      Suits areas before area := by
  constructor
  · rintro ⟨self', hInsert, hInside'⟩
    obtain ⟨hStart, hEnd, hForward, hJoin⟩ := insertArea_ok hInsert
    have hRoom := (h.join_iff hInside hMem hApart hForward).mp ⟨self'.blocks, hJoin, hInside'⟩
    exact ⟨hStart, hEnd, hForward, fun hEq hPos => (hRoom hEq hPos).1,
      fun hEq hPos => (hRoom hEq hPos).2⟩
  · rintro ⟨hStart, hEnd, hForward, hBetween, hRoom⟩
    obtain ⟨blocks', hJoin, hInside'⟩ := (h.join_iff hInside hMem hApart hForward).mpr
      fun hEq hPos => ⟨hBetween hEq hPos, hRoom hEq hPos⟩
    obtain ⟨self', hInsert, rfl⟩ := insertArea_of_join hStart hEnd hJoin
    exact ⟨self', hInsert, hInside'⟩

theorem Collected.step {profile : BuildProfile} {before : List MemoryArea} {area : MemoryArea}
    {self self' : Allocator} (h : Collected before self.blocks)
    (hApart : ∀ other ∈ before, other.Apart area)
    (hInsert : insertArea profile self area = .ok self') :
    Collected (before ++ [area]) self'.blocks := by
  obtain ⟨-, -, hForward, hJoin⟩ := insertArea_ok hInsert
  exact h.join hApart hForward hJoin

theorem insertAreas_cons (profile : BuildProfile) (self : Allocator) (area : MemoryArea)
    (rest : List MemoryArea) :
    insertAreas profile self (area :: rest) =
      insertArea profile self area >>= fun self => insertAreas profile self rest :=
  List.foldlM_cons

theorem Collected.run {profile : BuildProfile} {before rest : List MemoryArea} {self self' : Allocator}
    (h : Collected before self.blocks) (hApart : (before ++ rest).Pairwise MemoryArea.Apart)
    (hRun : insertAreas profile self rest = .ok self') : Collected (before ++ rest) self'.blocks := by
  induction rest generalizing before self with
  | nil =>
    obtain rfl := pure_ok hRun
    rwa [List.append_nil]
  | cons area rest ih =>
    rw [insertAreas_cons] at hRun
    obtain ⟨next, hInsert, hRest⟩ := bind_ok hRun
    have hBefore : ∀ other ∈ before, other.Apart area :=
      fun other hOther => (List.pairwise_append.mp hApart).2.2 other hOther area (by simp)
    rw [List.append_cons] at hApart ⊢
    exact ih (h.step hBefore hInsert) hApart hRest

/-- The areas that are still to come are inserted one after the other, if and
only if each of them suits those before it. -/
theorem Collected.run_iff {profile : BuildProfile} {areas before rest : List MemoryArea}
    {self : Allocator} (h : Collected before self.blocks) (hInside : NodesInside areas self.blocks)
    (hMem : ∀ area ∈ rest, area ∈ areas) (hApart : (before ++ rest).Pairwise MemoryArea.Apart) :
    (∀ done, done <+: rest → ∃ self', insertAreas profile self done = .ok self' ∧
      NodesInside areas self'.blocks) ↔
      ∀ done area after, rest = done ++ area :: after → Suits areas (before ++ done) area := by
  induction rest generalizing before self with
  | nil =>
    refine iff_of_true ?_ (by simp)
    intro done hDone
    obtain rfl := List.prefix_nil.mp hDone
    exact ⟨self, rfl, hInside⟩
  | cons area rest ih =>
    have hBefore : ∀ other ∈ before, other.Apart area :=
      fun other hOther => (List.pairwise_append.mp hApart).2.2 other hOther area (by simp)
    have hHere := @Collected.step_iff profile _ _ _ _ h hInside (hMem area (by simp)) hBefore
    have hApart' := hApart
    rw [List.append_cons] at hApart'
    have hRest := fun {next : Allocator} (hInsert : insertArea profile self area = .ok next)
      (hInside' : NodesInside areas next.blocks) =>
        ih (h.step hBefore hInsert) hInside' (fun a ha => hMem a (by simp [ha])) hApart'
    constructor
    · intro hRun
      obtain ⟨next, hNext, hInside'⟩ := hRun [area] ⟨rest, rfl⟩
      rw [insertAreas_cons] at hNext
      obtain ⟨next', hInsert, hEnd⟩ := bind_ok hNext
      obtain rfl := pure_ok hEnd
      intro done other after hSplit
      cases done with
      | nil => grind
      | cons first done =>
        obtain ⟨rfl, rfl⟩ := List.cons.inj hSplit
        rw [List.append_cons]
        refine (hRest hInsert hInside').mp ?_ done other after rfl
        intro done' hDone'
        obtain ⟨last, hLast, hInsideLast⟩ := hRun (area :: done') (List.cons_prefix_cons.mpr
          ⟨rfl, hDone'⟩)
        rw [insertAreas_cons, hInsert] at hLast
        exact ⟨last, hLast, hInsideLast⟩
    · intro hSuits
      have hFirst := hSuits [] area rest rfl
      rw [List.append_nil] at hFirst
      obtain ⟨next, hInsert, hInside'⟩ := hHere.mpr hFirst
      have hTail := (hRest hInsert hInside').mpr fun done other after hSplit => by
        rw [← List.append_cons]
        exact hSuits (area :: done) other after (by rw [hSplit]; rfl)
      intro done hDone
      cases done with
      | nil => exact ⟨self, rfl, hInside⟩
      | cons first done =>
        obtain ⟨rfl, hPrefix⟩ := List.cons_prefix_cons.mp hDone
        obtain ⟨last, hLast, hInsideLast⟩ := hTail done hPrefix
        refine ⟨last, ?_, hInsideLast⟩
        rw [insertAreas_cons, hInsert]
        exact hLast

/-- The memory map is taken over exactly, if and only if every available area
suits those before it. -/
theorem takenOver_iff (profile : BuildProfile) {areas : List MemoryArea}
    (hApart : (available areas).Pairwise MemoryArea.Apart) :
    TakenOver profile areas ↔ ∀ before area after, available areas = before ++ area :: after →
      Suits (available areas) before area := by
  have hRun := @Collected.run_iff profile (available areas) [] (available areas) Allocator.new collected_nil
    (by simp [NodesInside, Allocator.new]) (fun _ => id) hApart
  simp only [List.nil_append] at hRun
  rw [← hRun]
  refine ⟨And.left, fun hSteps => ⟨hSteps, ?_⟩⟩
  obtain ⟨self, hScan, -⟩ := hSteps (available areas) (List.prefix_refl _)
  exact ⟨self, hScan, (@Collected.run profile [] _ Allocator.new _ collected_nil hApart hScan).free⟩

/-- Conventional memory below 640 KiB, the area behind it, and 7 MiB of memory
from 1 MiB on. -/
def smallMap : List MemoryArea :=
  [⟨0, 0x9fc00, .available, by decide, by decide⟩, ⟨0x9fc00, 0x400, .reserved, by decide, by decide⟩,
    ⟨0x100000, 0x700000, .available, by decide, by decide⟩]

theorem smallMap_takenOver : TakenOver .development smallMap := by
  refine (takenOver_iff .development (by unfold MemoryArea.Apart; decide)).mpr ?_
  intro before area after hSplit
  have hArea : area ∈ available smallMap := by simp [hSplit]
  have hWhole : ∀ area ∈ available smallMap, PAGE_SIZE * area.firstFrame < 2 ^ 52 ∧
      area.baseAddr + area.length < 2 ^ 52 ∧ area.firstFrame < area.lastFrame := by decide
  obtain ⟨hStart, hEnd, hLt⟩ := hWhole area hArea
  exact ⟨hStart, hEnd, hLt.le, fun hEq => absurd hEq hLt.ne, fun hEq => absurd hEq hLt.ne⟩

def shortArea : MemoryArea := ⟨0x1100, 0x100, .available, by decide, by decide⟩

theorem shortArea_stops_boot : [shortArea].Pairwise MemoryArea.Apart ∧
    scanMultiboot2MemoryMap .development Allocator.new [shortArea] = .error .addressUnderflow ∧
    scanMultiboot2MemoryMap .production Allocator.new [shortArea] = .error .addressUnderflow ∧
    ¬ TakenOver .development [shortArea] ∧ ¬ TakenOver .production [shortArea] := by
  have hDevelopment : scanMultiboot2MemoryMap .development Allocator.new [shortArea] =
      .error .addressUnderflow := by decide
  have hProduction : scanMultiboot2MemoryMap .production Allocator.new [shortArea] =
      .error .addressUnderflow := by decide
  refine ⟨List.pairwise_singleton _ _, hDevelopment, hProduction, ?_, ?_⟩
  · rintro ⟨-, self, hScan, -⟩
    cases hDevelopment.symm.trans hScan
  · rintro ⟨-, self, hScan, -⟩
    cases hProduction.symm.trans hScan

end D3OS.Memory
