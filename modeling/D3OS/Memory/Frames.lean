import D3OS.Kernel.Panic
import D3OS.Library.Outcome

/-! The page frame allocator: a list of free blocks, each stored in its own
first frame and sorted by address. Frames are numbered; the address of frame
`n` is `4096 * n`. A list of nodes stands for the chain of `next` references
behind the allocator's `head`. -/
namespace D3OS.Frames

/-- `PhysFrameRange`: the frames from `start` up to but excluding `stop`. -/
structure PhysFrameRange where
  start : Nat
  stop : Nat
  deriving DecidableEq, Repr

/-- A free block. The start is the address the node is stored at. -/
structure PageFrameNode where
  start : Nat
  frameCount : Nat
  deriving DecidableEq, Repr

def PageFrameNode.stop (block : PageFrameNode) : Nat := block.start + block.frameCount

/-- The chain of free blocks behind the (empty) `head` node. -/
abbrev PageFrameListAllocator := List PageFrameNode

/-- `frames.end - frames.start`, which panics on a reversed range. -/
def PhysFrameRange.len (frames : PhysFrameRange) : Except Panic Nat :=
  if frames.stop < frames.start then .error .addressUnderflow
  else .ok (frames.stop - frames.start)

namespace PageFrameListAllocator

/-- Search for the position of a new node and link it in, ascending by address. -/
def link (newBlock : PageFrameNode) : PageFrameListAllocator → PageFrameListAllocator
  | [] => [newBlock]
  | block :: rest =>
    if block.start > newBlock.start then newBlock :: block :: rest
    else block :: link newBlock rest

variable (self : PageFrameListAllocator)

def insert (frames : PhysFrameRange) :
    Except Panic PageFrameListAllocator := do
  let frameCount ← frames.len
  return link ⟨frames.start, frameCount⟩ self

/-- Unlink the first block with at least `frameCount` frames. -/
def findFreeBlock (frameCount : Nat) :
    PageFrameListAllocator → Option (PageFrameNode × PageFrameListAllocator)
  | [] => none
  | block :: rest =>
    if block.frameCount ≥ frameCount then some (block, rest)
    else (findFreeBlock frameCount rest).map fun (found, rest) => (found, block :: rest)

/-- `alloc_block`: first fit; the remainder of the block goes back through
`insert`, which does not fuse. -/
def allocBlock (frameCount : Nat) : Except Panic (PhysFrameRange × PageFrameListAllocator) :=
  match findFreeBlock frameCount self with
  | none => .error .outOfMemory
  | some (block, self) => do
    let remaining : PhysFrameRange := ⟨block.start + frameCount, block.stop⟩
    let left ← remaining.len
    let self ← if left > 0 then insert self remaining else pure self
    return (⟨block.start, remaining.start⟩, self)

/-- The top extension of `block` by `count` frames, which may in turn close
the gap to its successor. -/
def extend (block : PageFrameNode) (count : Nat) :
    PageFrameListAllocator → PageFrameListAllocator
  | [] => [⟨block.start, block.frameCount + count⟩]
  | next :: rest =>
    if block.start + (block.frameCount + count) = next.start then
      ⟨block.start, block.frameCount + count + next.frameCount⟩ :: rest
    else ⟨block.start, block.frameCount + count⟩ :: next :: rest

/-- The walk of `free_block`. The result is the fused list, or `none` when
no block could be extended and the caller has to insert a new node. -/
def fuse (frames : PhysFrameRange) :
    PageFrameListAllocator → Except Panic (Option PageFrameListAllocator)
  | [] => .ok none
  | block :: rest =>
    if ¬ (frames.stop ≤ block.start ∨ frames.start ≥ block.stop) then
      .error .overlappingFree
    else if frames.stop = block.start then do
      let count ← frames.len
      return some (⟨frames.start, block.frameCount + count⟩ :: rest)
    else if block.stop = frames.start then do
      let count ← frames.len
      return some (extend block count rest)
    else if block.stop > frames.start then .ok none
    else (Option.map (block :: ·)) <$> fuse frames rest

def freeBlock (frames : PhysFrameRange) :
    Except Panic PageFrameListAllocator := do
  match ← fuse frames self with
  | some fused => return fused
  | none => insert self frames

/-- `reserve_block`, for a region that does not end before it starts. After a
block was unlinked the walk goes on behind its successor, which it does not
look at. A block that is cut off at `reserved.stop` is visited once more and
stays as it is. -/
def reserveBlock (reserved : PhysFrameRange) :
    PageFrameListAllocator → Except Panic PageFrameListAllocator
  | [] => .ok []
  | block :: rest =>
    if block.start > reserved.stop then .ok (block :: rest)
    else if block.start < reserved.start ∧ block.stop ≥ reserved.start then
      if block.stop ≤ reserved.stop then
        let overlapping := block.stop - reserved.start
        (⟨block.start, block.frameCount - overlapping⟩ :: ·) <$> reserveBlock reserved rest
      else
        let below := ⟨block.start, reserved.start - block.start⟩
        let above := ⟨reserved.stop, block.stop - reserved.stop⟩
        (fun rest => below :: above :: rest) <$> reserveBlock reserved rest
    else if block.start ≤ reserved.stop ∧ block.stop ≥ reserved.start then
      if block.stop ≤ reserved.stop then
        match rest with
        | [] => .error .unwrapFailed
        | next :: rest => (next :: ·) <$> reserveBlock reserved rest
      else
        let overlapping := reserved.stop - block.start
        (⟨block.start + overlapping, block.frameCount - overlapping⟩ :: ·) <$>
          reserveBlock reserved rest
    else (block :: ·) <$> reserveBlock reserved rest

end PageFrameListAllocator

/-- The two statics of the module. `physLimit` is unset until the first
region is inserted. -/
structure Allocator where
  blocks : PageFrameListAllocator
  physLimit : Option Nat
  deriving DecidableEq, Repr

def Allocator.new : Allocator := ⟨[], none⟩

def alloc (self : Allocator) (frameCount : Nat) : Except Panic (PhysFrameRange × Allocator) := do
  let (frames, blocks) ← self.blocks.allocBlock frameCount
  return (frames, { self with blocks })

def free (self : Allocator) (frames : PhysFrameRange) : Except Panic Allocator := do
  let blocks ← self.blocks.freeBlock frames
  return { self with blocks }

def reserve (self : Allocator) (frames : PhysFrameRange) : Except Panic Allocator := do
  let blocks ← self.blocks.reserveBlock frames
  return { self with blocks }

/-- `frames::insert`: frame 0 is cut off the region, the limit is raised, and
the rest of the region is freed. -/
def insert (self : Allocator) (region : PhysFrameRange) : Except Panic Allocator :=
  let limit := self.physLimit.getD 0
  let self := { self with physLimit := some limit }
  if region.start = 0 ∧ region.stop ≤ 1 then .ok self
  else
    let region := if region.start = 0 then { region with start := 1 } else region
    free { self with physLimit := some (if region.stop > limit then region.stop else limit) } region

end D3OS.Frames
