import D3OS.Library.Spans
import D3OS.Memory.Frames
import Mathlib.Logic.Relation
import Mathlib.Order.Interval.Set.LinearOrder

/-! The free list as a set of frames. Each operation of the allocator is
specified by the frames it adds to or takes from that set; the representation
invariant and the conservation of frames follow for runs of any length. -/
namespace D3OS.Frames

open Outcome

def PhysFrameRange.frames (range : PhysFrameRange) : Set Nat := Set.Ico range.start range.stop

/-- The frames of all blocks of the list. -/
def freeFrames (blocks : PageFrameListAllocator) : Set Nat :=
  Spans.covered PageFrameNode.start PageFrameNode.stop blocks

/-- Blocks are non-empty and each ends strictly below the start of the next. -/
def WellFormed (blocks : PageFrameListAllocator) : Prop :=
  Spans.Ascending PageFrameNode.start PageFrameNode.stop blocks

theorem PhysFrameRange.len_ok {range : PhysFrameRange} (h : range.start ≤ range.stop) :
    range.len = .ok (range.stop - range.start) := by
  simp [PhysFrameRange.len, Nat.not_lt.mpr h]

variable {range : PhysFrameRange} {count : Nat} {self self' : Allocator}

namespace PageFrameListAllocator

theorem freeFrames_cons (block : PageFrameNode) (rest : PageFrameListAllocator) :
    freeFrames (block :: rest) = Set.Ico block.start block.stop ∪ freeFrames rest :=
  Spans.covered_cons _ _

theorem freeFrames_singleton (node : PageFrameNode) :
    freeFrames [node] = Set.Ico node.start node.stop := by
  rw [freeFrames_cons, freeFrames, Spans.covered_nil, Set.union_empty]

/-- Each block keeps the distance to the later ones; blocks may be empty. -/
def Separated (gap : Nat → Nat → Prop) (blocks : PageFrameListAllocator) : Prop :=
  blocks.Pairwise fun block next => gap block.stop next.start

/-- What adding a range does to a list with a given distance between its
blocks: a node that is not there before has at least the size of the range, and
lies at the start of the range or where a node was. -/
structure Joins (gap : Nat → Nat → Prop) (blocks : PageFrameListAllocator)
    (range : PhysFrameRange) (blocks' : PageFrameListAllocator) : Prop where
  separated : Separated gap blocks'
  frames : freeFrames blocks' = range.frames ∪ freeFrames blocks
  nodes : ∀ node ∈ blocks', node ∈ blocks ∨
    (node.start = range.start ∨ ∃ block ∈ blocks, block.start = node.start) ∧
      range.stop - range.start ≤ node.frameCount

section Joins

variable {gap : Nat → Nat → Prop} {block : PageFrameNode}
  {blocks blocks' rest rest' : PageFrameListAllocator} {range : PhysFrameRange}

theorem Joins.start_cases (h : Joins gap blocks range blocks') {node : PageFrameNode}
    (hNode : node ∈ blocks') :
    node.start = range.start ∨ ∃ block ∈ blocks, block.start = node.start := by
  rcases h.nodes node hNode with hOld | hNew
  · exact .inr ⟨node, hOld, rfl⟩
  · exact hNew.1

/-- The walk passes a block that lies below the range. -/
theorem Joins.cons (hGap : Spans.IsGap gap) (h : Separated gap (block :: rest))
    (hBelow : block.stop < range.start) (hRest : Joins gap rest range rest') :
    Joins gap (block :: rest) range (block :: rest') := by
  obtain ⟨hBlock, -⟩ := List.pairwise_cons.mp h
  refine ⟨List.pairwise_cons.mpr ⟨?_, hRest.separated⟩, ?_, ?_⟩
  · intro node hNode
    rcases hRest.start_cases hNode with hStart | ⟨other, hOther, hStart⟩
    · exact hStart ▸ hGap.of_lt hBelow
    · exact hStart ▸ hBlock other hOther
  · rw [freeFrames_cons, freeFrames_cons, hRest.frames, Set.union_left_comm]
  · intro node hNode
    rcases List.mem_cons.mp hNode with rfl | hNode
    · exact .inl (List.mem_cons_self ..)
    · rcases hRest.nodes node hNode with hOld | ⟨hStart, hSize⟩
      · exact .inl (List.mem_cons_of_mem _ hOld)
      · refine .inr ⟨hStart.imp_right ?_, hSize⟩
        exact fun ⟨other, hOther, hEq⟩ => ⟨other, List.mem_cons_of_mem _ hOther, hEq⟩

/-- A range that keeps its distance from every block gets a node of its own. -/
theorem link_joins (hGap : Spans.IsGap gap) (h : Separated gap blocks)
    (hRange : range.start ≤ range.stop)
    (hApart : ∀ block ∈ blocks, range.stop < block.start ∨ block.stop < range.start) :
    Joins gap blocks range (link ⟨range.start, range.stop - range.start⟩ blocks) := by
  have hStop : (⟨range.start, range.stop - range.start⟩ : PageFrameNode).stop = range.stop :=
    Nat.add_sub_of_le hRange
  have hFirst : ∀ {blocks : PageFrameListAllocator}, Separated gap blocks →
      (∀ block ∈ blocks, range.stop < block.start) →
      Joins gap blocks range (⟨range.start, range.stop - range.start⟩ :: blocks) := by
    intro blocks h hAbove
    refine ⟨List.pairwise_cons.mpr ⟨fun block hBlock => ?_, h⟩, ?_, ?_⟩
    · rw [hStop]
      exact hGap.of_lt (hAbove block hBlock)
    · rw [freeFrames_cons, hStop]
      rfl
    · grind
  induction blocks with
  | nil => exact hFirst h (by simp)
  | cons block rest ih =>
    obtain ⟨hBlock, hRest⟩ := List.pairwise_cons.mp h
    have hLe : block.start ≤ block.stop := Nat.le_add_right _ _
    have hHere := hApart block (by simp)
    by_cases hOrder : block.start > range.start
    · rw [link, if_pos hOrder]
      refine hFirst h ?_
      intro other hOther
      have hThere := hApart other hOther
      have hLe' : other.start ≤ other.stop := Nat.le_add_right _ _
      rcases List.mem_cons.mp hOther with rfl | hOther
      · omega
      · have := hGap.le (hBlock other hOther)
        omega
    · rw [link, if_neg hOrder]
      refine (ih hRest fun other hOther => hApart other (by simp [hOther])).cons hGap h ?_
      omega

/-- A range at the top of the first block extends it, up to at most the start
of the second. Closing the gap merges the two blocks. -/
theorem extend_joins (hGap : Spans.IsGap gap) (h : Separated gap (block :: rest))
    (hRange : range.start ≤ range.stop) (hTop : block.stop = range.start)
    (hBelow : ∀ next ∈ rest, range.stop ≤ next.start) :
    Joins gap (block :: rest) range (extend block (range.stop - range.start) rest) := by
  obtain ⟨hBlock, hRest⟩ := List.pairwise_cons.mp h
  have hStop : block.start + (block.frameCount + (range.stop - range.start)) = range.stop := by
    simp only [PageFrameNode.stop] at hTop
    omega
  have hStart : ∃ old ∈ block :: rest, old.start = block.start := ⟨block, by simp, rfl⟩
  -- what the extended block covers
  have hExtended : Set.Ico block.start range.stop =
      range.frames ∪ Set.Ico block.start block.stop := by
    ext x
    simp only [Set.mem_union, Set.mem_Ico, PageFrameNode.stop, PhysFrameRange.frames] at hTop ⊢
    omega
  cases rest with
  | nil =>
    refine ⟨List.pairwise_singleton _ _, ?_, ?_⟩
    · rw [extend, freeFrames_singleton, freeFrames_singleton, PageFrameNode.stop, hStop, hExtended]
    · rintro node hNode
      obtain rfl := List.mem_singleton.mp hNode
      exact .inr ⟨.inr hStart, Nat.le_add_left _ _⟩
  | cons next rest =>
    have hNext := hBelow next (by simp)
    by_cases hTouch : block.start + (block.frameCount + (range.stop - range.start)) = next.start
    · rw [extend, if_pos hTouch]
      have hMerged : block.start + (block.frameCount + (range.stop - range.start) +
          next.frameCount) = next.stop := by
        simp only [PageFrameNode.stop]
        omega
      refine ⟨List.pairwise_cons.mpr ⟨?_, (List.pairwise_cons.mp hRest).2⟩, ?_, ?_⟩
      · intro other hOther
        rw [PageFrameNode.stop, hMerged]
        exact (List.pairwise_cons.mp hRest).1 other hOther
      · have hJoined : Set.Ico block.start next.stop =
            Set.Ico block.start range.stop ∪ Set.Ico next.start next.stop := by grind
        rw [freeFrames_cons, freeFrames_cons, freeFrames_cons, PageFrameNode.stop, hMerged,
          hJoined, hExtended]
        simp only [Set.union_assoc]
      · grind
    · rw [extend, if_neg hTouch]
      refine ⟨List.pairwise_cons.mpr ⟨?_, hRest⟩, ?_, ?_⟩
      · intro other hOther
        rw [PageFrameNode.stop, hStop]
        rcases List.mem_cons.mp hOther with rfl | hOther
        · exact hGap.of_lt (by omega)
        · have hLe : next.start ≤ next.stop := Nat.le_add_right _ _
          exact hGap.mono (hNext.trans hLe) ((List.pairwise_cons.mp hRest).1 other hOther) le_rfl
      · rw [freeFrames_cons, freeFrames_cons block, PageFrameNode.stop, hStop, hExtended,
          Set.union_assoc]
      · grind

/-- The walk of `free_block` on a range without a free frame either fuses the
range with its neighbours or finds that it touches no block at all. Where
blocks may touch, none of them is empty. -/
theorem fuse_joins (hGap : Spans.IsGap gap) (h : Separated gap blocks)
    (hRange : range.start ≤ range.stop)
    (hProper : (∀ block ∈ blocks, block.start < block.stop) ∨ ∀ x, ¬ gap x x)
    (hApart : ∀ block ∈ blocks, range.stop ≤ block.start ∨ block.stop ≤ range.start) :
    (∃ blocks', fuse range blocks = .ok (some blocks') ∧ Joins gap blocks range blocks') ∨
    (fuse range blocks = .ok none ∧
      ∀ block ∈ blocks, range.stop < block.start ∨ block.stop < range.start) := by
  induction blocks with
  | nil => exact .inr ⟨rfl, by simp⟩
  | cons block rest ih =>
    obtain ⟨hBlock, hRest⟩ := List.pairwise_cons.mp h
    have hHere := hApart block (by simp)
    have hLe : block.start ≤ block.stop := Nat.le_add_right _ _
    unfold fuse
    rw [if_neg (not_not_intro hHere), PhysFrameRange.len_ok hRange]
    by_cases hBottom : range.stop = block.start
    · -- the range extends the block from below
      have hStop : (⟨range.start, block.frameCount + (range.stop - range.start)⟩ :
          PageFrameNode).stop = block.stop := by
        simp only [PageFrameNode.stop]
        omega
      refine .inl ⟨_, if_pos hBottom, List.pairwise_cons.mpr ⟨?_, hRest⟩, ?_, ?_⟩
      · rw [hStop]
        exact hBlock
      · rw [freeFrames_cons, freeFrames_cons, hStop, ← Set.union_assoc, PhysFrameRange.frames,
          hBottom, Set.Ico_union_Ico_eq_Ico (hBottom ▸ hRange) hLe]
      · grind
    rw [if_neg hBottom]
    by_cases hTop : block.stop = range.start
    · -- the range extends the block from above, and lies below the next one
      refine .inl ⟨_, if_pos hTop, extend_joins hGap h hRange hTop ?_⟩
      intro next hNext
      refine (hApart next (by simp [hNext])).resolve_right fun hUnder => ?_
      have hDistance := hBlock next hNext
      rcases hProper with hNonempty | hStrict
      · have := hNonempty next (by simp [hNext])
        have := hGap.le hDistance
        omega
      · have hEmpty : next.start ≤ next.stop := Nat.le_add_right _ _
        exact hStrict range.start (hGap.mono hTop.ge hDistance (hEmpty.trans hUnder))
    rw [if_neg hTop]
    by_cases hBefore : block.stop > range.start
    · -- the range lies strictly between two blocks
      refine .inr ⟨if_pos hBefore, ?_⟩
      intro other hOther
      rcases List.mem_cons.mp hOther with rfl | hOther
      · omega
      · have := hGap.le (hBlock other hOther)
        omega
    rw [if_neg hBefore]
    rcases ih hRest (hProper.imp_left fun hNonempty b hb => hNonempty b (by simp [hb]))
      (fun b hb => hApart b (by simp [hb])) with ⟨fused, hFuse, hJoins⟩ | ⟨hFuse, hStrict⟩
    · exact .inl ⟨block :: fused, by simp [hFuse], hJoins.cons hGap h (by omega)⟩
    · refine .inr ⟨by simp [hFuse], ?_⟩
      intro other hOther
      rcases List.mem_cons.mp hOther with rfl | hOther
      · omega
      · exact hStrict other hOther

theorem freeBlock_joins (hGap : Spans.IsGap gap) (h : Separated gap blocks)
    (hRange : range.start ≤ range.stop)
    (hProper : (∀ block ∈ blocks, block.start < block.stop) ∨ ∀ x, ¬ gap x x)
    (hApart : ∀ block ∈ blocks, range.stop ≤ block.start ∨ block.stop ≤ range.start) :
    ∃ blocks', freeBlock blocks range = .ok blocks' ∧ Joins gap blocks range blocks' := by
  rcases fuse_joins hGap h hRange hProper hApart with ⟨fused, hFuse, hJoins⟩ | ⟨hFuse, hStrict⟩
  · exact ⟨fused, by simp [freeBlock, hFuse], hJoins⟩
  · exact ⟨_, by simp [freeBlock, hFuse, insert, PhysFrameRange.len_ok hRange],
      link_joins hGap h hRange hStrict⟩

/-- Non-empty blocks stay non-empty when a non-empty range is added. -/
theorem Joins.wellFormed (h : WellFormed blocks) (hRange : range.start < range.stop)
    (hJoins : Joins (· < ·) blocks range blocks') : WellFormed blocks' := by
  refine ⟨?_, hJoins.separated⟩
  intro node hNode
  rcases hJoins.nodes node hNode with hOld | ⟨-, hSize⟩
  · exact h.nonempty node hOld
  · simp only [PageFrameNode.stop]
    omega

end Joins

theorem insert_ok {blocks : PageFrameListAllocator} {range : PhysFrameRange}
    (h : WellFormed blocks) (hRange : range.start < range.stop)
    (hApart : ∀ block ∈ blocks, range.stop < block.start ∨ block.stop < range.start) :
    ∃ blocks', insert blocks range = .ok blocks' ∧ WellFormed blocks' ∧
      freeFrames blocks' = range.frames ∪ freeFrames blocks := by
  have hJoins := link_joins Spans.isGap_lt h.gaps hRange.le hApart
  exact ⟨_, by simp [insert, PhysFrameRange.len_ok hRange.le], hJoins.wellFormed h hRange,
    hJoins.frames⟩

variable {blocks rest : PageFrameListAllocator} {found : PageFrameNode}

/-- A non-empty block that shares no frame with a non-empty range lies on one
side of it. -/
theorem apart_of_disjoint (hNonempty : ∀ block ∈ blocks, block.start < block.stop)
    (hRange : range.start < range.stop) (hDisjoint : Disjoint range.frames (freeFrames blocks))
    (block : PageFrameNode) (hBlock : block ∈ blocks) :
    range.stop ≤ block.start ∨ block.stop ≤ range.start := by
  have hIn : Set.Ico block.start block.stop ⊆ freeFrames blocks := fun x hx => ⟨block, hBlock, hx⟩
  exact Spans.apart_of_disjoint hRange (hNonempty block hBlock) (hDisjoint.mono_right hIn)

/-- Freeing a non-empty range of frames none of which is free succeeds, adds
exactly these frames, and keeps the list well formed. -/
theorem freeBlock_ok (h : WellFormed blocks) (hRange : range.start < range.stop)
    (hDisjoint : Disjoint range.frames (freeFrames blocks)) :
    ∃ blocks', freeBlock blocks range = .ok blocks' ∧ WellFormed blocks' ∧
      freeFrames blocks' = range.frames ∪ freeFrames blocks := by
  obtain ⟨blocks', hFree, hJoins⟩ := freeBlock_joins Spans.isGap_lt h.gaps hRange.le
    (.inl h.nonempty) (apart_of_disjoint h.nonempty hRange hDisjoint)
  exact ⟨blocks', hFree, hJoins.wellFormed h hRange, hJoins.frames⟩

theorem findFreeBlock_split (h : findFreeBlock count blocks = some (found, rest)) :
    ∃ pre post, blocks = pre ++ found :: post ∧ rest = pre ++ post ∧
      count ≤ found.frameCount ∧ ∀ block ∈ pre, block.frameCount < count := by
  induction blocks generalizing rest with
  | nil => simp [findFreeBlock] at h
  | cons block tail ih =>
    unfold findFreeBlock at h
    split at h
    · rename_i hFits
      obtain ⟨rfl, rfl⟩ : block = found ∧ tail = rest := by simpa using h
      exact ⟨[], tail, rfl, rfl, hFits, by simp⟩
    · rename_i hSmall
      obtain ⟨⟨found', rest'⟩, hFound, hEq⟩ := Option.map_eq_some_iff.mp h
      obtain ⟨rfl, rfl⟩ : found' = found ∧ block :: rest' = rest := by simpa using hEq
      obtain ⟨pre, post, rfl, rfl, hFits, hPre⟩ := ih hFound
      refine ⟨block :: pre, post, rfl, rfl, hFits, ?_⟩
      intro other hOther
      rcases List.mem_cons.mp hOther with rfl | hOther
      · exact Nat.not_le.mp hSmall
      · exact hPre other hOther

/-- A successful allocation returns `count` free frames, and exactly these
leave the free list. -/
theorem allocBlock_ok {blocks' : PageFrameListAllocator} (h : WellFormed blocks)
    (hAlloc : allocBlock blocks count = .ok (range, blocks')) :
    range.stop = range.start + count ∧ range.frames ⊆ freeFrames blocks ∧
      WellFormed blocks' ∧ freeFrames blocks' = freeFrames blocks \ range.frames := by
  unfold allocBlock at hAlloc
  split at hAlloc
  · simp at hAlloc
  · rename_i found rest hFind
    obtain ⟨pre, post, rfl, rfl, hFits, -⟩ := findFreeBlock_split hFind
    obtain ⟨hRest, hApart, hCovered⟩ := Spans.Ascending.remove h
    have hLen : (⟨found.start + count, found.stop⟩ : PhysFrameRange).len =
        .ok (found.frameCount - count) := by
      rw [PhysFrameRange.len_ok (by simp only [PageFrameNode.stop]; omega)]
      simp only [PageFrameNode.stop]
      congr 1
      omega
    have hOther : ∀ x ∈ freeFrames (pre ++ post), ¬ (found.start ≤ x ∧ x < found.stop) := by
      rintro x ⟨other, hMem, hx⟩ ⟨hLow, hHigh⟩
      have hLow' := hx.1
      have hHigh' := hx.2
      rcases hApart other hMem with hGap | hGap <;> omega
    dsimp only at hAlloc
    rw [hLen, bind_of_ok] at hAlloc
    change Spans.covered _ _ _ = _ at hCovered
    by_cases hLeft : found.frameCount - count > 0
    · -- the remainder of the block goes back into the list
      rw [if_pos hLeft] at hAlloc
      obtain ⟨linked, hInsert, hWell, hFrames⟩ :=
        @insert_ok _ ⟨found.start + count, found.stop⟩ hRest
        (by simp only [PageFrameNode.stop]; omega)
        (by
          intro other hMem
          have := hApart other hMem
          simp only [PageFrameNode.stop] at this ⊢
          omega)
      rw [hInsert] at hAlloc
      obtain ⟨rfl, rfl⟩ : (⟨found.start, found.start + count⟩ : PhysFrameRange) = range ∧
          linked = blocks' := by simpa using hAlloc
      refine ⟨rfl, ?_, hWell, ?_⟩
      · intro x hx
        rw [freeFrames, hCovered]
        left
        simp only [PhysFrameRange.frames, Set.mem_Ico, PageFrameNode.stop] at hx ⊢
        omega
      · ext x
        have := hOther x
        simp only [freeFrames, hCovered, Set.mem_sdiff, Set.mem_union] at hFrames this ⊢
        rw [hFrames]
        simp only [PhysFrameRange.frames, Set.mem_Ico, Set.mem_union, PageFrameNode.stop] at this ⊢
        constructor
        · grind
        · rintro ⟨hx | hx, hOut⟩
          · exact Or.inl (by omega)
          · exact Or.inr hx
    · -- the whole block is handed out
      rw [if_neg hLeft] at hAlloc
      obtain ⟨rfl, rfl⟩ : (⟨found.start, found.start + count⟩ : PhysFrameRange) = range ∧
          pre ++ post = blocks' := by simpa using hAlloc
      have hStop : found.stop = found.start + count := by
        simp only [PageFrameNode.stop]
        omega
      refine ⟨rfl, ?_, hRest, ?_⟩
      · intro x hx
        rw [freeFrames, hCovered, hStop]
        exact Or.inl hx
      · ext x
        have := hOther x
        rw [hStop] at this
        simp only [freeFrames, hCovered, hStop, Set.mem_sdiff, Set.mem_union, PhysFrameRange.frames,
          Set.mem_Ico] at this ⊢
        tauto

/-! #### First fit -/

/-- The starts at which `count` contiguous frames are free. -/
def runStarts (blocks : PageFrameListAllocator) (count : Nat) : Set Nat :=
  {start | Set.Ico start (start + count) ⊆ freeFrames blocks}

/-- The search only fails if every block is too small. -/
theorem findFreeBlock_none (h : findFreeBlock count blocks = none) :
    ∀ block ∈ blocks, block.frameCount < count := by
  induction blocks with
  | nil => simp
  | cons block rest ih =>
    unfold findFreeBlock at h
    split at h
    case isTrue hFits => simp at h
    case isFalse hSmall =>
      intro other hOther
      rcases List.mem_cons.mp hOther with rfl | hOther
      · exact Nat.not_le.mp hSmall
      · exact ih (Option.map_eq_none_iff.mp h) other hOther

/-- A run of free frames lies in one block, which is then large enough. -/
theorem exists_block_of_run {start : Nat} (h : WellFormed blocks) (hCount : 0 < count)
    (hRun : start ∈ runStarts blocks count) :
    ∃ block ∈ blocks, block.start ≤ start ∧ start + count ≤ block.stop ∧
      count ≤ block.frameCount := by
  obtain ⟨block, hBlock, hLow, hHigh⟩ :=
    Spans.Ascending.exists_span_of_subset h (Nat.lt_add_of_pos_right hCount) hRun
  refine ⟨block, hBlock, hLow, hHigh, ?_⟩
  simp only [PageFrameNode.stop] at hHigh
  omega

/-- What the search finds is handed out from its start on. -/
theorem allocBlock_of_find (h : findFreeBlock count blocks = some (found, rest)) :
    ∃ blocks', allocBlock blocks count = .ok (⟨found.start, found.start + count⟩, blocks') := by
  obtain ⟨-, -, -, -, hFits, -⟩ := findFreeBlock_split h
  have hOrder : found.start + count ≤ found.stop := by
    simp only [PageFrameNode.stop]
    omega
  have hLen := @PhysFrameRange.len_ok ⟨found.start + count, found.stop⟩ hOrder
  unfold allocBlock insert
  rw [h]
  simp only [hLen, bind_of_ok]
  split
  · exact ⟨_, rfl⟩
  · exact ⟨_, rfl⟩

/-- The blocks before the one that is found are too small for a run, and the
blocks behind it lie above it. -/
theorem findFreeBlock_lowest (hWell : WellFormed blocks) (hCount : 0 < count)
    (h : findFreeBlock count blocks = some (found, rest)) :
    found.start ∈ lowerBounds (runStarts blocks count) := by
  obtain ⟨pre, post, rfl, -, -, hSmall⟩ := findFreeBlock_split h
  intro start hRun
  obtain ⟨block, hBlock, hLow, -, hLarge⟩ := exists_block_of_run hWell hCount hRun
  rcases List.mem_append.mp hBlock with hPre | hPost
  · have := hSmall block hPre
    omega
  · obtain ⟨-, hFrom, -⟩ := List.pairwise_append.mp hWell.gaps
    have hHead := hWell.nonempty found (by simp)
    rcases List.mem_cons.mp hPost with rfl | hBehind
    · exact hLow
    · have := (List.pairwise_cons.mp hFrom).1 block hBehind
      omega

/-- The allocation fails exactly if the frames are too scattered. -/
theorem allocBlock_error_iff (h : WellFormed blocks) (hCount : 0 < count) :
    (∃ panic, allocBlock blocks count = .error panic) ↔ runStarts blocks count = ∅ := by
  cases hFind : findFreeBlock count blocks with
  | none =>
    have hSmall := findFreeBlock_none hFind
    refine iff_of_true ⟨.outOfMemory, by simp [allocBlock, hFind]⟩ ?_
    refine Set.eq_empty_of_forall_notMem fun start hRun => ?_
    obtain ⟨block, hBlock, -, -, hLarge⟩ := exists_block_of_run h hCount hRun
    exact absurd (hSmall block hBlock) (Nat.not_lt.mpr hLarge)
  | some result =>
    obtain ⟨blocks', hAlloc⟩ := allocBlock_of_find hFind
    obtain ⟨-, hFree, -⟩ := allocBlock_ok h hAlloc
    refine iff_of_false (by simp [hAlloc]) fun hNone => ?_
    have hRun : result.1.start ∈ runStarts blocks count := hFree
    simp [hNone] at hRun

theorem allocBlock_isLeast {blocks' : PageFrameListAllocator} (h : WellFormed blocks)
    (hCount : 0 < count) (hAlloc : allocBlock blocks count = .ok (range, blocks')) :
    IsLeast (runStarts blocks count) range.start := by
  obtain ⟨hStop, hFree, -⟩ := allocBlock_ok h hAlloc
  refine ⟨show Set.Ico range.start (range.start + count) ⊆ freeFrames blocks from hStop ▸ hFree, ?_⟩
  cases hFind : findFreeBlock count blocks with
  | none => simp [allocBlock, hFind] at hAlloc
  | some result =>
    obtain ⟨blocks'', hFound⟩ := allocBlock_of_find hFind
    rw [hFound] at hAlloc
    obtain ⟨rfl, -⟩ := Prod.mk.inj (Except.ok.inj hAlloc)
    exact findFreeBlock_lowest h hCount hFind

/-- `alloc_block` is first fit and complete. It panics exactly if no `count`
contiguous frames are free. Otherwise it hands out the free run with the lowest
start, and exactly these frames leave the free list. -/
theorem allocBlock_firstFit {blocks : PageFrameListAllocator} {count : Nat}
    (h : WellFormed blocks) (hCount : 0 < count) :
    ((∃ panic, allocBlock blocks count = .error panic) ↔
      ¬ ∃ start, Set.Ico start (start + count) ⊆ freeFrames blocks) ∧
    ∀ range blocks', allocBlock blocks count = .ok (range, blocks') →
      range.stop = range.start + count ∧ range.frames ⊆ freeFrames blocks ∧
      IsLeast {start | Set.Ico start (start + count) ⊆ freeFrames blocks} range.start ∧
      freeFrames blocks' = freeFrames blocks \ range.frames := by
  refine ⟨?_, fun range blocks' hAlloc => ?_⟩
  · rw [allocBlock_error_iff h hCount, Set.eq_empty_iff_forall_notMem, not_exists]
    rfl
  · obtain ⟨hStop, hFree, -, hLeft⟩ := allocBlock_ok h hAlloc
    exact ⟨hStop, hFree, allocBlock_isLeast h hCount hAlloc, hLeft⟩

/-- The first block is too small, so the run comes from the second one. -/
theorem allocBlock_firstFit_second :
    allocBlock [⟨1, 1⟩, ⟨4, 3⟩] 2 = .ok (⟨4, 6⟩, [⟨1, 1⟩, ⟨6, 1⟩]) ∧
      IsLeast {start | Set.Ico start (start + 2) ⊆ freeFrames [⟨1, 1⟩, ⟨4, 3⟩]} 4 := by
  have hWell : WellFormed [⟨1, 1⟩, ⟨4, 3⟩] :=
    ⟨by simp [PageFrameNode.stop], by simp [PageFrameNode.stop]⟩
  have hAlloc : allocBlock [⟨1, 1⟩, ⟨4, 3⟩] 2 = .ok (⟨4, 6⟩, [⟨1, 1⟩, ⟨6, 1⟩]) := by decide
  exact ⟨hAlloc, ((allocBlock_firstFit hWell (by decide)).2 _ _ hAlloc).2.2.1⟩

end PageFrameListAllocator

/-- The range is as long as requested in every state of the list. -/
theorem alloc_stop (h : alloc self count = .ok (range, self')) :
    range.stop = range.start + count := by
  obtain ⟨⟨range', blocks'⟩, hBlock, hEq⟩ := bind_ok h
  obtain ⟨rfl, -⟩ := Prod.mk.inj (pure_ok hEq)
  unfold PageFrameListAllocator.allocBlock at hBlock
  split at hBlock
  · cases hBlock
  · obtain ⟨left, -, hBlock⟩ := bind_ok hBlock
    split at hBlock
    · obtain ⟨inserted, -, hBlock⟩ := bind_ok hBlock
      obtain ⟨rfl, -⟩ := Prod.mk.inj (Except.ok.inj hBlock)
      rfl
    · obtain ⟨rfl, -⟩ := Prod.mk.inj (Except.ok.inj hBlock)
      rfl

/-- Allocating through the module's static keeps the limit. -/
theorem alloc_ok (h : WellFormed self.blocks) (hAlloc : alloc self count = .ok (range, self')) :
    range.stop = range.start + count ∧ range.frames ⊆ freeFrames self.blocks ∧
      WellFormed self'.blocks ∧ freeFrames self'.blocks = freeFrames self.blocks \ range.frames ∧
      self'.physLimit = self.physLimit := by
  obtain ⟨⟨range', blocks'⟩, hBlock, hEq⟩ := bind_ok hAlloc
  obtain ⟨rfl, rfl⟩ : range' = range ∧ { self with blocks := blocks' } = self' := by
    simpa using hEq
  obtain ⟨hStop, hFree, hWell, hFrames⟩ := PageFrameListAllocator.allocBlock_ok h hBlock
  exact ⟨hStop, hFree, hWell, hFrames, rfl⟩

theorem free_ok {self : Allocator} {range : PhysFrameRange} (h : WellFormed self.blocks)
    (hRange : range.start < range.stop)
    (hDisjoint : Disjoint range.frames (freeFrames self.blocks)) :
    ∃ self', free self range = .ok self' ∧ WellFormed self'.blocks ∧
      freeFrames self'.blocks = range.frames ∪ freeFrames self.blocks ∧
      self'.physLimit = self.physLimit := by
  obtain ⟨blocks', hFree, hWell, hFrames⟩ := PageFrameListAllocator.freeBlock_ok h hRange hDisjoint
  exact ⟨{ self with blocks := blocks' }, by simp [free, hFree], hWell, hFrames, rfl⟩

/-- Inserting a boot region frees all of it except frame 0. -/
theorem insert_ok {self : Allocator} {region : PhysFrameRange} (h : WellFormed self.blocks)
    (hRegion : region.start < region.stop)
    (hDisjoint : Disjoint (region.frames \ {0}) (freeFrames self.blocks)) :
    ∃ self', insert self region = .ok self' ∧ WellFormed self'.blocks ∧
      freeFrames self'.blocks = (region.frames \ {0}) ∪ freeFrames self.blocks := by
  by_cases hFirst : region.start = 0
  · by_cases hOnly : region.stop ≤ 1
    · refine ⟨{ self with physLimit := some (self.physLimit.getD 0) }, ?_, h, ?_⟩
      · simp [insert, hFirst, hOnly]
      · have hEmpty : region.frames \ {0} = ∅ := by
          ext x
          simp only [PhysFrameRange.frames, Set.mem_sdiff, Set.mem_Ico, Set.mem_singleton_iff,
            Set.mem_empty_iff_false, iff_false]
          omega
        rw [hEmpty, Set.empty_union]
    · have hCut : region.frames \ {0} = (⟨1, region.stop⟩ : PhysFrameRange).frames := by
        ext x
        simp only [PhysFrameRange.frames, Set.mem_sdiff, Set.mem_Ico, Set.mem_singleton_iff]
        omega
      rw [hCut] at hDisjoint ⊢
      obtain ⟨self', hFree, hWell, hFrames, -⟩ := @free_ok
        { self with physLimit := some (if region.stop > self.physLimit.getD 0 then
          region.stop else self.physLimit.getD 0) } _ h (by simp only; omega) hDisjoint
      refine ⟨self', ?_, hWell, hFrames⟩
      simpa [insert, hFirst, hOnly] using hFree
  · have hCut : region.frames \ {0} = region.frames := by
      ext x
      simp only [PhysFrameRange.frames, Set.mem_sdiff, Set.mem_Ico, Set.mem_singleton_iff]
      omega
    rw [hCut] at hDisjoint ⊢
    obtain ⟨self', hFree, hWell, hFrames, -⟩ := @free_ok
      { self with physLimit := some (if region.stop > self.physLimit.getD 0 then
        region.stop else self.physLimit.getD 0) } _ h hRegion hDisjoint
    refine ⟨self', ?_, hWell, hFrames⟩
    simpa [insert, hFirst] using hFree

/-! ### Runs -/

/-- The limit lies above every frame that is inserted, and never sinks. -/
theorem insert_limit {region : PhysFrameRange} (h : insert self region = .ok self') :
    ∃ limit, self'.physLimit = some limit ∧ self.physLimit.getD 0 ≤ limit ∧
      ∀ x ∈ region.frames, x ≠ 0 → x < limit := by
  unfold insert at h
  dsimp only at h
  split at h
  case isTrue hFirst =>
    obtain rfl := Except.ok.inj h
    exact ⟨_, rfl, le_rfl, fun x hx hZero => by have := hx.2; omega⟩
  case isFalse =>
    obtain ⟨blocks, -, h⟩ := bind_ok h
    obtain rfl := pure_ok h
    have hStop : (if region.start = 0 then { region with start := 1 } else region).stop =
        region.stop := by split <;> rfl
    rw [hStop]
    refine ⟨_, rfl, ?_, fun x hx _ => ?_⟩
    · split <;> omega
    · have hLast := hx.2
      split <;> omega

/-- The allocator together with what its callers know: the frames inserted
during boot and the frames currently handed out. -/
structure History where
  allocator : Allocator
  inserted : Set Nat
  allocated : Set Nat

def History.initial : History := ⟨Allocator.new, ∅, ∅⟩

/-- One completed call. A boot region is non-empty and new; only allocated
frames are freed. -/
inductive Step : History → History → Prop where
  | insert {s : History} {allocator : Allocator} (region : PhysFrameRange)
      (hRegion : region.start < region.stop) (hNew : Disjoint region.frames s.inserted)
      (hCall : Frames.insert s.allocator region = .ok allocator) :
      Step s { s with allocator, inserted := s.inserted ∪ region.frames }
  | alloc {s : History} {allocator : Allocator} {range : PhysFrameRange} (frameCount : Nat)
      (hCall : Frames.alloc s.allocator frameCount = .ok (range, allocator)) :
      Step s { s with allocator, allocated := s.allocated ∪ range.frames }
  | free {s : History} {allocator : Allocator} (range : PhysFrameRange)
      (hRange : range.start < range.stop) (hOwned : range.frames ⊆ s.allocated)
      (hCall : Frames.free s.allocator range = .ok allocator) :
      Step s { s with allocator, allocated := s.allocated \ range.frames }

/-- The histories reached from the empty allocator by any number of calls. -/
def Reachable : History → Prop := Relation.ReflTransGen Step History.initial

/-- The list is well formed, only inserted frames other than frame 0 are
handed out, and the free frames are exactly the others. -/
structure Conserves (s : History) : Prop where
  wellFormed : WellFormed s.allocator.blocks
  allocated : s.allocated ⊆ s.inserted \ {0}
  free : freeFrames s.allocator.blocks = (s.inserted \ {0}) \ s.allocated

theorem initial_conserves : Conserves History.initial where
  wellFormed := Spans.ascending_nil
  allocated := by simp [History.initial]
  free := by simp [History.initial, Allocator.new, freeFrames]

variable {s : History}

theorem Conserves.insert_disjoint (h : Conserves s) {region : PhysFrameRange}
    (hNew : Disjoint region.frames s.inserted) :
    Disjoint (region.frames \ {0}) (freeFrames s.allocator.blocks) := by
  rw [h.free]
  exact hNew.mono Set.sdiff_subset (fun x hx => hx.1.1)

theorem Conserves.free_disjoint (h : Conserves s) (hOwned : range.frames ⊆ s.allocated) :
    Disjoint range.frames (freeFrames s.allocator.blocks) := by
  rw [h.free]
  exact Set.disjoint_left.mpr fun x hx hFree => hFree.2 (hOwned hx)

theorem Conserves.step {s t : History} (h : Conserves s) (hStep : Step s t) : Conserves t := by
  cases hStep with
  | @insert allocator region hRegion hNew hCall =>
    obtain ⟨allocator', hInsert, hWell, hFrames⟩ :=
      insert_ok h.wellFormed hRegion (h.insert_disjoint hNew)
    obtain rfl : allocator' = allocator := by simpa [hInsert] using hCall
    have hOwned := h.allocated
    refine ⟨hWell, ?_, ?_⟩
    · intro x hx
      exact ⟨Or.inl (hOwned hx).1, (hOwned hx).2⟩
    · simp only [hFrames, h.free]
      ext x
      have hDisjoint : x ∈ region.frames → x ∉ s.inserted := fun hx => Set.disjoint_left.mp hNew hx
      have hIn := @hOwned x
      simp only [Set.mem_union, Set.mem_sdiff, Set.mem_singleton_iff] at hIn ⊢
      tauto
  | @alloc allocator range frameCount hCall =>
    obtain ⟨-, hFree, hWell, hFrames, -⟩ := alloc_ok h.wellFormed hCall
    rw [h.free] at hFree
    refine ⟨hWell, ?_, ?_⟩
    · rintro x (hx | hx)
      · exact h.allocated hx
      · exact (hFree hx).1
    · simp only [hFrames, h.free]
      exact Set.sdiff_sdiff
  | @free allocator range hRange hOwned hCall =>
    obtain ⟨allocator', hFree, hWell, hFrames, -⟩ :=
      free_ok h.wellFormed hRange (h.free_disjoint hOwned)
    obtain rfl : allocator' = allocator := by simpa [hFree] using hCall
    refine ⟨hWell, fun x hx => h.allocated hx.1, ?_⟩
    simp only [hFrames, h.free]
    ext x
    have hAllocated := @hOwned x
    have hIn := @h.allocated x
    simp only [Set.mem_union, Set.mem_sdiff, Set.mem_singleton_iff] at hIn ⊢
    tauto

theorem Reachable.conserves (h : Reachable s) : Conserves s := by
  induction h with
  | refl => exact initial_conserves
  | tail _ hStep ih => exact ih.step hStep

/-- Along every run the free list is strictly ascending with a gap between
neighbours, and the free frames are exactly the inserted ones that are not
handed out. Inserting a new region and freeing allocated frames never panic;
an allocation only returns frames that nobody holds. -/
theorem frames_conserved {s : History} (hRun : Reachable s) :
    s.allocator.blocks.Pairwise (fun block next => block.start < next.start ∧ block.stop < next.start) ∧
    (∀ block ∈ s.allocator.blocks, 1 ≤ block.frameCount) ∧
    freeFrames s.allocator.blocks = (s.inserted \ {0}) \ s.allocated ∧
    s.allocated ⊆ s.inserted \ {0} ∧
    (∀ region : PhysFrameRange, region.start < region.stop → Disjoint region.frames s.inserted →
      ∃ allocator, insert s.allocator region = .ok allocator) ∧
    (∀ range : PhysFrameRange, range.start < range.stop → range.frames ⊆ s.allocated →
      ∃ allocator, free s.allocator range = .ok allocator) ∧
    (∀ frameCount range allocator, alloc s.allocator frameCount = .ok (range, allocator) →
      range.stop = range.start + frameCount ∧ Disjoint range.frames s.allocated ∧
        range.frames ⊆ s.inserted \ {0}) := by
  have h := hRun.conserves
  refine ⟨?_, ?_, h.free, h.allocated, ?_, ?_, ?_⟩
  · refine List.Pairwise.imp ?_ h.wellFormed.gaps
    intro block next hGap
    exact ⟨lt_of_le_of_lt (Nat.le_add_right _ _) hGap, hGap⟩
  · intro block hBlock
    have := h.wellFormed.nonempty block hBlock
    simp only [PageFrameNode.stop] at this
    omega
  · intro region hRegion hNew
    obtain ⟨allocator, hInsert, -⟩ := insert_ok h.wellFormed hRegion (h.insert_disjoint hNew)
    exact ⟨allocator, hInsert⟩
  · intro range hRange hOwned
    obtain ⟨allocator, hFree, -⟩ := free_ok h.wellFormed hRange (h.free_disjoint hOwned)
    exact ⟨allocator, hFree⟩
  · intro frameCount range allocator hCall
    obtain ⟨hStop, hFree, -⟩ := alloc_ok h.wellFormed hCall
    rw [h.free] at hFree
    exact ⟨hStop, Set.disjoint_left.mpr fun x hx => (hFree hx).2, fun x hx => (hFree hx).1⟩

/-- Eight frames are inserted, three handed out and the middle one returned:
it forms a block of its own between the two that stay allocated. -/
theorem frames_conserved_after_split :
    ∃ s : History, Reachable s ∧ s.allocator.blocks = [⟨2, 1⟩, ⟨4, 4⟩] ∧
      freeFrames s.allocator.blocks = (s.inserted \ {0}) \ s.allocated := by
  have hInsert : Step History.initial
      ⟨⟨[⟨1, 7⟩], some 8⟩, ∅ ∪ (⟨0, 8⟩ : PhysFrameRange).frames, ∅⟩ :=
    Step.insert ⟨0, 8⟩ (by decide) (by simp [History.initial]) rfl
  have hAlloc : Step ⟨⟨[⟨1, 7⟩], some 8⟩, ∅ ∪ (⟨0, 8⟩ : PhysFrameRange).frames, ∅⟩
      ⟨⟨[⟨4, 4⟩], some 8⟩, ∅ ∪ (⟨0, 8⟩ : PhysFrameRange).frames,
        ∅ ∪ (⟨1, 4⟩ : PhysFrameRange).frames⟩ :=
    Step.alloc 3 rfl
  have hFree : Step ⟨⟨[⟨4, 4⟩], some 8⟩, ∅ ∪ (⟨0, 8⟩ : PhysFrameRange).frames,
        ∅ ∪ (⟨1, 4⟩ : PhysFrameRange).frames⟩
      ⟨⟨[⟨2, 1⟩, ⟨4, 4⟩], some 8⟩, ∅ ∪ (⟨0, 8⟩ : PhysFrameRange).frames,
        (∅ ∪ (⟨1, 4⟩ : PhysFrameRange).frames) \ (⟨2, 3⟩ : PhysFrameRange).frames⟩ := by
    refine Step.free ⟨2, 3⟩ (by decide) ?_ rfl
    intro x hx
    simp only [PhysFrameRange.frames, Set.mem_Ico, Set.empty_union] at hx ⊢
    omega
  have hRun : Reachable _ := ((Relation.ReflTransGen.single hInsert).tail hAlloc).tail hFree
  exact ⟨_, hRun, rfl, (frames_conserved hRun).2.2.1⟩

end D3OS.Frames
