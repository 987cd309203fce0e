import D3OS.Memory.FrameConservation

/-! The walks over the free list: `reserve_block`, which goes on behind the
successor of a block it has unlinked, and `free_block`, which returns at the
first block it can extend. Both are described for lists whose blocks may also
touch. -/
namespace D3OS.Frames

open Outcome

/-- Non-empty disjoint blocks in ascending order. -/
def Sorted (blocks : PageFrameListAllocator) : Prop :=
  Spans.Spaced PageFrameNode.start PageFrameNode.stop (· ≤ ·) blocks

variable {block : PageFrameNode} {rest : PageFrameListAllocator}

theorem Sorted.start_ge (h : Sorted (block :: rest)) {next : PageFrameNode} (hNext : next ∈ rest) :
    block.stop ≤ next.start :=
  (List.pairwise_cons.mp h.gaps).1 next hNext

namespace PageFrameListAllocator

/-! #### Reserving -/

/-- What reserving a region does to a list with a given distance between its
blocks: frames of the region leave it, though perhaps not all of them. -/
structure Trims (gap : Nat → Nat → Prop) (blocks : PageFrameListAllocator)
    (reserved : PhysFrameRange) (blocks' : PageFrameListAllocator) : Prop where
  spaced : Spans.Spaced PageFrameNode.start PageFrameNode.stop gap blocks'
  subset : freeFrames blocks' ⊆ freeFrames blocks
  kept : freeFrames blocks \ reserved.frames ⊆ freeFrames blocks'

section Trims

variable {gap : Nat → Nat → Prop} {block : PageFrameNode}
  {blocks blocks' rest rest' : PageFrameListAllocator} {reserved : PhysFrameRange}

theorem Trims.refl (h : Spans.Spaced PageFrameNode.start PageFrameNode.stop gap blocks) :
    Trims gap blocks reserved blocks :=
  ⟨h, subset_rfl, Set.sdiff_subset⟩

/-- The first block is replaced by what is left of it, and the region is
reserved in the others. -/
theorem Trims.replace (hGap : Spans.IsGap gap) {left : PageFrameListAllocator}
    (h : Spans.Spaced PageFrameNode.start PageFrameNode.stop gap (block :: rest))
    (hRest : Trims gap rest reserved rest')
    (hLeft : Spans.Spaced PageFrameNode.start PageFrameNode.stop gap left)
    (hInside : freeFrames left ⊆ Set.Ico block.start block.stop)
    (hCut : Set.Ico block.start block.stop \ freeFrames left ⊆ reserved.frames) :
    Trims gap (block :: rest) reserved (left ++ rest') := by
  have hCovered : freeFrames (left ++ rest') = freeFrames left ∪ freeFrames rest' :=
    Spans.covered_append left rest'
  refine ⟨hLeft.append hRest.spaced ?_, ?_, ?_⟩
  · intro node hNode next hNext
    -- the last frame of `node` lies in the block, the first of `next` behind it
    have hNodePos := hLeft.nonempty node hNode
    have hLast : node.stop - 1 ∈ freeFrames left := ⟨node, hNode, by omega, by omega⟩
    have hFirst : next.start ∈ freeFrames rest' :=
      ⟨next, hNext, le_rfl, hRest.spaced.nonempty next hNext⟩
    have hBefore := (hInside hLast).2
    exact hGap.mono (by omega) (h.gap_of_mem_tail hGap (hRest.subset hFirst)) le_rfl
  · rw [hCovered, freeFrames_cons]
    exact Set.union_subset_union hInside hRest.subset
  · rintro x ⟨hx, hOut⟩
    rw [hCovered]
    rcases Spans.mem_covered_cons.mp hx with hx | hx
    · by_contra hLost
      exact hOut (hCut ⟨hx, fun hIn => hLost (.inl hIn)⟩)
    · exact .inr (hRest.kept ⟨hx, hOut⟩)

/-- The first block is replaced by one part of it. -/
theorem Trims.shrink (hGap : Spans.IsGap gap) {part : PageFrameNode}
    (h : Spans.Spaced PageFrameNode.start PageFrameNode.stop gap (block :: rest))
    (hRest : Trims gap rest reserved rest') (hPart : part.start < part.stop)
    (hStart : block.start ≤ part.start) (hStop : part.stop ≤ block.stop)
    (hCut : ∀ x, block.start ≤ x → x < block.stop → x < part.start ∨ part.stop ≤ x →
      reserved.start ≤ x ∧ x < reserved.stop) :
    Trims gap (block :: rest) reserved (part :: rest') := by
  refine hRest.replace hGap h (.singleton hPart) ?_ ?_
  · rw [freeFrames_singleton]
    exact Set.Ico_subset_Ico hStart hStop
  · rw [freeFrames_singleton]
    rintro x ⟨⟨hLow, hHigh⟩, hOut⟩
    refine hCut x hLow hHigh ?_
    rw [Set.mem_Ico, not_and_or, Nat.not_le, Nat.not_lt] at hOut
    exact hOut

/-- A block that reaches over the region on both sides is split. -/
theorem Trims.split (hGap : Spans.IsGap gap) (hReserved : reserved.start < reserved.stop)
    (h : Spans.Spaced PageFrameNode.start PageFrameNode.stop gap (block :: rest))
    (hRest : Trims gap rest reserved rest') {below above : PageFrameNode}
    (hBelow : below.start = block.start ∧ below.stop = reserved.start)
    (hAbove : above.start = reserved.stop ∧ above.stop = block.stop)
    (hLow : block.start < reserved.start) (hHigh : reserved.stop < block.stop) :
    Trims gap (block :: rest) reserved (below :: above :: rest') := by
  have hSplit : freeFrames [below, above] =
      Set.Ico block.start reserved.start ∪ Set.Ico reserved.stop block.stop := by
    rw [freeFrames_cons, freeFrames_singleton, hBelow.1, hBelow.2, hAbove.1, hAbove.2]
  have hLeft : Spans.Spaced PageFrameNode.start PageFrameNode.stop gap ([below] ++ [above]) := by
    refine .append (.singleton (by omega)) (.singleton (by omega)) ?_
    intro node hNode next hNext
    rw [List.mem_singleton.mp hNode, List.mem_singleton.mp hNext]
    exact hGap.of_lt (by omega)
  refine hRest.replace hGap h hLeft ?_ ?_
  · grind
  · change _ \ freeFrames [below, above] ⊆ _
    rw [hSplit]
    rintro x ⟨hIn, hOut⟩
    simp only [Set.mem_union, Set.mem_Ico, PhysFrameRange.frames] at *
    omega

theorem reserveBlock_trims (hGap : Spans.IsGap gap) (hReserved : reserved.start < reserved.stop)
    (h : Spans.Spaced PageFrameNode.start PageFrameNode.stop gap blocks)
    (hRun : reserveBlock reserved blocks = .ok blocks') : Trims gap blocks reserved blocks' := by
  fun_induction reserveBlock reserved blocks generalizing blocks' with
  | case1 =>
    cases hRun
    exact .refl h
  | case2 block rest hAbove =>
    cases hRun
    exact .refl h
  | case3 block rest hAbove hBelow hEnds overlapping =>
    rename_i ih
    obtain ⟨rest', hRest, rfl⟩ := (map_ok_iff _ _ _).mp hRun
    have hBlock := h.nonempty block (by simp)
    simp only [PageFrameNode.stop] at hBelow hEnds hBlock
    refine (ih h.tail hRest).shrink hGap h ?_ ?_ ?_ ?_ <;>
      simp only [PageFrameNode.stop, overlapping] <;> omega
  | case4 block rest hAbove hBelow hEnds below above =>
    rename_i ih
    obtain ⟨rest', hRest, rfl⟩ := (map_ok_iff _ _ _).mp hRun
    simp only [PageFrameNode.stop] at hBelow hEnds
    refine (ih h.tail hRest).split hGap hReserved h ⟨rfl, ?_⟩ ⟨rfl, ?_⟩ hBelow.1 ?_ <;>
      simp only [PageFrameNode.stop, below, above] <;> omega
  | case5 block hAbove hBelow hTouches hInside => cases hRun
  | case6 block hAbove hBelow hTouches hInside next rest ih =>
    obtain ⟨rest', hRest, rfl⟩ := (map_ok_iff _ _ _).mp hRun
    have hNext := h.tail.nonempty next (by simp)
    have hKeep : Trims gap (next :: rest) reserved (next :: rest') := by
      refine (ih h.tail.tail hRest).shrink hGap h.tail hNext le_rfl le_rfl ?_
      omega
    refine hKeep.replace hGap h Spans.spaced_nil ?_ ?_
    · simp [freeFrames]
    · rintro x ⟨⟨hLow, hHigh⟩, -⟩
      simp only [PhysFrameRange.frames, Set.mem_Ico]
      omega
  | case7 block rest hAbove hBelow hTouches hInside overlapping =>
    rename_i ih
    obtain ⟨rest', hRest, rfl⟩ := (map_ok_iff _ _ _).mp hRun
    have hBlock := h.nonempty block (by simp)
    simp only [PageFrameNode.stop] at hBelow hTouches hInside hBlock
    refine (ih h.tail hRest).shrink hGap h ?_ ?_ ?_ ?_ <;>
      simp only [PageFrameNode.stop, overlapping] <;> omega
  | case8 block rest hAbove hBelow hTouches ih =>
    obtain ⟨rest', hRest, rfl⟩ := (map_ok_iff _ _ _).mp hRun
    refine (ih h.tail hRest).shrink hGap h (h.nonempty block (by simp)) le_rfl le_rfl ?_
    omega

end Trims

/-- Every block that lies in the region is followed by one that begins at the
end of the region or above. -/
def SuccessorAbove (reserved : PhysFrameRange) (blocks : PageFrameListAllocator) : Prop :=
  ∀ before block after, blocks = before ++ block :: after → reserved.start ≤ block.start →
    block.stop ≤ reserved.stop → ∃ next, after.head? = some next ∧ reserved.stop ≤ next.start

@[simp] theorem successorAbove_nil (reserved : PhysFrameRange) : SuccessorAbove reserved [] := by
  intro before block after hNil
  simp at hNil

variable {reserved range : PhysFrameRange} {blocks : PageFrameListAllocator}

theorem successorAbove_cons :
    SuccessorAbove reserved (block :: rest) ↔
      (reserved.start ≤ block.start → block.stop ≤ reserved.stop →
        ∃ next, rest.head? = some next ∧ reserved.stop ≤ next.start) ∧
      SuccessorAbove reserved rest := by
  constructor
  · intro h
    refine ⟨h [] block rest rfl, ?_⟩
    rintro before node after rfl
    exact h (block :: before) node after rfl
  · rintro ⟨hBlock, hRest⟩ before node after hSplit
    cases before with
    | nil =>
      obtain ⟨rfl, rfl⟩ := List.cons.inj hSplit
      exact hBlock
    | cons first before =>
      obtain ⟨-, rfl⟩ := List.cons.inj hSplit
      exact hRest before node after rfl

/-- Nothing lies in the region behind a block that reaches its end. -/
theorem successorAbove_of_above (h : Sorted blocks)
    (hAbove : ∀ block ∈ blocks, reserved.stop ≤ block.start) :
    SuccessorAbove reserved blocks := by
  rintro before block after rfl - hStop
  have hMem : block ∈ before ++ block :: after := by simp
  have hNonempty := h.nonempty block hMem
  have hStart := hAbove block hMem
  omega

/-- The region has left the list once it has left the first blocks and the
rest. -/
theorem disjoint_cons (hBlock : block.stop ≤ reserved.start ∨ reserved.stop ≤ block.start)
    (hRest : Disjoint reserved.frames (freeFrames rest)) :
    Disjoint reserved.frames (freeFrames (block :: rest)) := by
  rw [freeFrames_cons, Set.disjoint_union_right]
  refine ⟨Set.disjoint_left.mpr ?_, hRest⟩
  intro x hReserved hIn
  simp only [PhysFrameRange.frames, Set.mem_Ico] at hReserved hIn
  omega

/-- The walk comes to its end and takes the whole region out of the list, if
no block of the region stands before another one or at the end. -/
theorem reserveBlock_clears_of_successorAbove (h : Sorted blocks)
    (hAbove : SuccessorAbove reserved blocks) :
    ∃ blocks', reserveBlock reserved blocks = .ok blocks' ∧
      Disjoint reserved.frames (freeFrames blocks') := by
  fun_induction reserveBlock reserved blocks with
  | case1 => exact ⟨[], rfl, by simp [freeFrames]⟩
  | case2 block rest hStart =>
    refine ⟨block :: rest, rfl, Set.disjoint_left.mpr ?_⟩
    rintro x hx ⟨node, hNode, hIn⟩
    have hBlock := h.nonempty block (by simp)
    have hNodeStart : block.start ≤ node.start := by
      rcases List.mem_cons.mp hNode with rfl | hNode
      · exact le_rfl
      · exact Nat.le_trans hBlock.le (Sorted.start_ge h hNode)
    simp only [PhysFrameRange.frames, Set.mem_Ico] at hx hIn
    omega
  | case3 block rest hStart hBelow hEnds overlapping =>
    rename_i ih
    obtain ⟨rest', hRest, hDisjoint⟩ := ih h.tail (successorAbove_cons.mp hAbove).2
    refine ⟨_, (map_ok_iff _ _ _).mpr ⟨rest', hRest, rfl⟩, disjoint_cons (.inl ?_) hDisjoint⟩
    simp only [PageFrameNode.stop, overlapping] at hBelow hEnds ⊢
    omega
  | case4 block rest hStart hBelow hEnds below above =>
    rename_i ih
    obtain ⟨rest', hRest, hDisjoint⟩ := ih h.tail (successorAbove_cons.mp hAbove).2
    refine ⟨_, (map_ok_iff _ _ _).mpr ⟨rest', hRest, rfl⟩, ?_⟩
    refine disjoint_cons (.inl ?_) (disjoint_cons (.inr le_rfl) hDisjoint)
    simp only [PageFrameNode.stop, below]
    omega
  | case5 block hStart hBelow hTouches hInside =>
    have hBlock := h.nonempty block (by simp)
    obtain ⟨next, hNext, -⟩ :=
      (successorAbove_cons.mp hAbove).1 (by omega) hInside
    cases hNext
  | case6 block hStart hBelow hTouches hInside next rest ih =>
    obtain ⟨hBlock, hRest⟩ := successorAbove_cons.mp hAbove
    have hNonempty := h.nonempty block (by simp)
    obtain ⟨next', hHead, hNext⟩ := hBlock (by omega) hInside
    obtain rfl : next = next' := Option.some.inj hHead
    obtain ⟨rest', hRun, hDisjoint⟩ := ih h.tail.tail (successorAbove_cons.mp hRest).2
    exact ⟨_, (map_ok_iff _ _ _).mpr ⟨rest', hRun, rfl⟩, disjoint_cons (.inr hNext) hDisjoint⟩
  | case7 block rest hStart hBelow hTouches hInside overlapping =>
    rename_i ih
    obtain ⟨rest', hRest, hDisjoint⟩ := ih h.tail (successorAbove_cons.mp hAbove).2
    refine ⟨_, (map_ok_iff _ _ _).mpr ⟨rest', hRest, rfl⟩, disjoint_cons (.inr ?_) hDisjoint⟩
    simp only [overlapping]
    omega
  | case8 block rest hStart hBelow hTouches ih =>
    obtain ⟨rest', hRest, hDisjoint⟩ := ih h.tail (successorAbove_cons.mp hAbove).2
    refine ⟨_, (map_ok_iff _ _ _).mpr ⟨rest', hRest, rfl⟩, disjoint_cons (.inl ?_) hDisjoint⟩
    omega

theorem disjoint_of_cons (h : Disjoint reserved.frames (freeFrames (block :: rest))) :
    Disjoint reserved.frames (freeFrames rest) := by
  rw [freeFrames_cons, Set.disjoint_union_right] at h
  exact h.2

/-- A block that the walk unlinks costs it the look at the next one. -/
theorem successorAbove_of_clears {blocks' : PageFrameListAllocator} (h : Sorted blocks)
    (hReserved : reserved.start < reserved.stop) (hRun : reserveBlock reserved blocks = .ok blocks')
    (hClear : Disjoint reserved.frames (freeFrames blocks')) : SuccessorAbove reserved blocks := by
  fun_induction reserveBlock reserved blocks generalizing blocks' with
  | case1 => exact successorAbove_nil reserved
  | case2 block rest hStart =>
    refine successorAbove_of_above h ?_
    intro node hNode
    have hBlock := h.nonempty block (by simp)
    rcases List.mem_cons.mp hNode with rfl | hNode
    · exact hStart.le
    · have := Sorted.start_ge h hNode
      omega
  | case3 block rest hStart hBelow hEnds overlapping =>
    rename_i ih
    obtain ⟨rest', hRest, rfl⟩ := (map_ok_iff _ _ _).mp hRun
    refine successorAbove_cons.mpr ⟨?_, ih h.tail hRest (disjoint_of_cons hClear)⟩
    omega
  | case4 block rest hStart hBelow hEnds below above =>
    rename_i ih
    obtain ⟨rest', hRest, rfl⟩ := (map_ok_iff _ _ _).mp hRun
    refine successorAbove_cons.mpr
      ⟨?_, ih h.tail hRest (disjoint_of_cons (disjoint_of_cons hClear))⟩
    omega
  | case5 block hStart hBelow hTouches hInside => cases hRun
  | case6 block hStart hBelow hTouches hInside next rest ih =>
    obtain ⟨rest', hRest, rfl⟩ := (map_ok_iff _ _ _).mp hRun
    have hNonempty := h.nonempty block (by simp)
    have hNext := h.tail.nonempty next (by simp)
    have hBehind := Sorted.start_ge h (List.mem_cons_self (a := next) (l := rest))
    -- the next block stays as it is, so it lies outside of the region
    have hNextAbove : reserved.stop ≤ next.start := by
      rw [freeFrames_cons, Set.disjoint_union_right] at hClear
      have := Spans.apart_of_disjoint hReserved hNext hClear.1
      omega
    refine successorAbove_cons.mpr ⟨fun _ _ => ⟨next, rfl, hNextAbove⟩, ?_⟩
    refine successorAbove_of_above h.tail ?_
    intro node hNode
    rcases List.mem_cons.mp hNode with rfl | hNode
    · exact hNextAbove
    · have := Sorted.start_ge h.tail hNode
      omega
  | case7 block rest hStart hBelow hTouches hInside overlapping =>
    rename_i ih
    obtain ⟨rest', hRest, rfl⟩ := (map_ok_iff _ _ _).mp hRun
    refine successorAbove_cons.mpr ⟨?_, ih h.tail hRest (disjoint_of_cons hClear)⟩
    omega
  | case8 block rest hStart hBelow hTouches ih =>
    obtain ⟨rest', hRest, rfl⟩ := (map_ok_iff _ _ _).mp hRun
    refine successorAbove_cons.mpr ⟨?_, ih h.tail hRest (disjoint_of_cons hClear)⟩
    have hBlock := h.nonempty block (by simp)
    omega

/-- `reserve_block` takes exactly the region out of the list, if and only if
every block that lies in the region has a successor that lies above it. -/
theorem reserveBlock_exact_iff {reserved : PhysFrameRange} {blocks : PageFrameListAllocator}
    (h : Sorted blocks) (hReserved : reserved.start < reserved.stop) :
    (∃ blocks', reserveBlock reserved blocks = .ok blocks' ∧ Sorted blocks' ∧
      freeFrames blocks' = freeFrames blocks \ reserved.frames) ↔
      SuccessorAbove reserved blocks := by
  constructor
  · rintro ⟨blocks', hRun, -, hFrames⟩
    refine successorAbove_of_clears h hReserved hRun ?_
    rw [hFrames]
    exact Set.disjoint_sdiff_right
  · intro hAbove
    obtain ⟨blocks', hRun, hClear⟩ := reserveBlock_clears_of_successorAbove h hAbove
    have hTrims := reserveBlock_trims Spans.isGap_le hReserved h hRun
    refine ⟨blocks', hRun, hTrims.spaced, subset_antisymm ?_ hTrims.kept⟩
    exact fun x hx => ⟨hTrims.subset hx, fun hIn => Set.disjoint_left.mp hClear hIn hx⟩

/-- The region cuts off the first block and swallows the second; the third
begins at its end. -/
theorem reserveBlock_exact_cut : ∃ blocks',
    reserveBlock ⟨8, 20⟩ [⟨1, 9⟩, ⟨12, 2⟩, ⟨20, 5⟩] = .ok blocks' ∧ Sorted blocks' ∧
      freeFrames blocks' =
        freeFrames [⟨1, 9⟩, ⟨12, 2⟩, ⟨20, 5⟩] \ PhysFrameRange.frames ⟨8, 20⟩ := by
  refine (reserveBlock_exact_iff ⟨by decide, by decide⟩ (by decide)).mpr ?_
  simp [successorAbove_cons, PageFrameNode.stop]

/-- The second of two blocks in the region is never looked at. -/
theorem reserveBlock_skips_successor : Sorted [⟨2, 1⟩, ⟨4, 1⟩] ∧
    reserveBlock ⟨1, 8⟩ [⟨2, 1⟩, ⟨4, 1⟩] = .ok [⟨4, 1⟩] ∧
    ¬ ∃ blocks', reserveBlock ⟨1, 8⟩ [⟨2, 1⟩, ⟨4, 1⟩] = .ok blocks' ∧ Sorted blocks' ∧
      freeFrames blocks' = freeFrames [⟨2, 1⟩, ⟨4, 1⟩] \ PhysFrameRange.frames ⟨1, 8⟩ := by
  have hRun : reserveBlock ⟨1, 8⟩ [⟨2, 1⟩, ⟨4, 1⟩] = .ok [⟨4, 1⟩] := rfl
  refine ⟨⟨by decide, by decide⟩, hRun, ?_⟩
  rintro ⟨blocks', hRun', -, hFrames⟩
  obtain rfl := Except.ok.inj (hRun.symm.trans hRun')
  have hFree : 4 ∈ freeFrames [⟨4, 1⟩] := ⟨⟨4, 1⟩, by simp, by decide⟩
  rw [hFrames] at hFree
  exact hFree.2 ⟨by decide, by decide⟩

/-! #### Freeing -/

/-- No frame occurs in two blocks. -/
def Exclusive (blocks : PageFrameListAllocator) : Prop :=
  blocks.Pairwise fun block other =>
    Disjoint (Set.Ico block.start block.stop) (Set.Ico other.start other.stop)

theorem Separated.exclusive (h : Separated (· ≤ ·) blocks) : Exclusive blocks := by
  refine h.imp ?_
  intro block other hLe
  refine Set.disjoint_left.mpr ?_
  intro x hx hOther
  exact absurd (hx.2.trans_le (hLe.trans hOther.1)) (Nat.lt_irrefl x)

/-- The walk stops with a panic, if and only if a frame of the range is free
and no block ends where the range starts. -/
theorem fuse_error_iff (h : Sorted blocks) (hRange : range.start < range.stop) :
    (∃ panic, fuse range blocks = .error panic) ↔
      ¬ Disjoint range.frames (freeFrames blocks) ∧ ∀ block ∈ blocks, block.stop ≠ range.start := by
  induction blocks with
  | nil => simp [fuse, freeFrames]
  | cons block rest ih =>
    have hBlock := h.nonempty block (by simp)
    have hAfter : ∀ next ∈ rest, block.stop ≤ next.start ∧ next.start < next.stop :=
      fun next hNext => ⟨Sorted.start_ge h hNext, h.nonempty next (List.mem_cons_of_mem _ hNext)⟩
    unfold fuse
    rw [PhysFrameRange.len_ok hRange.le]
    by_cases hApart : range.stop ≤ block.start ∨ range.start ≥ block.stop
    case neg =>
      rw [if_pos hApart]
      refine iff_of_true ⟨_, rfl⟩ ⟨?_, ?_⟩
      · intro hDisjoint
        rw [freeFrames_cons, Set.disjoint_union_right] at hDisjoint
        exact hApart (Spans.apart_of_disjoint hRange hBlock hDisjoint.1)
      · grind
    rw [if_neg (not_not_intro hApart)]
    -- a range that ends at the first block or below meets no block
    have hBelow : range.stop ≤ block.start →
        Disjoint range.frames (freeFrames (block :: rest)) := by
      intro hLe
      refine Set.disjoint_left.mpr ?_
      rintro x hx ⟨node, hNode, hIn⟩
      simp only [PhysFrameRange.frames, Set.mem_Ico] at hx hIn
      rcases List.mem_cons.mp hNode with rfl | hNode
      · omega
      · have := hAfter node hNode
        omega
    by_cases hBottom : range.stop = block.start
    · rw [if_pos hBottom]
      exact iff_of_false (by rintro ⟨_, ⟨⟩⟩) fun hRight => hRight.1 (hBelow hBottom.le)
    rw [if_neg hBottom]
    by_cases hTop : block.stop = range.start
    · rw [if_pos hTop]
      exact iff_of_false (by rintro ⟨_, ⟨⟩⟩) fun hRight => hRight.2 block (by simp) hTop
    rw [if_neg hTop]
    by_cases hBefore : block.stop > range.start
    · rw [if_pos hBefore]
      exact iff_of_false (by rintro ⟨_, ⟨⟩⟩) fun hRight => hRight.1 (hBelow (by omega))
    rw [if_neg hBefore, map_error_iff, ih h.tail]
    refine and_congr (not_congr ⟨?_, disjoint_of_cons⟩) ?_
    · exact disjoint_cons (.inl (by omega))
    · simp [hTop]

theorem freeBlock_error_iff (hRange : range.start < range.stop) :
    (∃ panic, freeBlock blocks range = .error panic) ↔ ∃ panic, fuse range blocks = .error panic := by
  unfold freeBlock insert
  rw [PhysFrameRange.len_ok hRange.le]
  cases fuse range blocks with
  | error panic => simp
  | ok fused => cases fused <;> exact iff_of_false nofun nofun

/-- Freeing frames of which none is free keeps the blocks apart. -/
theorem freeBlock_exclusive {blocks' : PageFrameListAllocator} (h : Sorted blocks)
    (hRange : range.start < range.stop) (hDisjoint : Disjoint range.frames (freeFrames blocks))
    (hFree : freeBlock blocks range = .ok blocks') : Exclusive blocks' := by
  obtain ⟨joined, hJoined, hJoins⟩ := freeBlock_joins Spans.isGap_le h.gaps hRange.le
    (.inl h.nonempty) (apart_of_disjoint h.nonempty hRange hDisjoint)
  obtain rfl := Except.ok.inj (hJoined.symm.trans hFree)
  exact hJoins.separated.exclusive

/-- `free_block` detects a double free, and puts no frame into two blocks, if
and only if no block ends where a range with a free frame starts. -/
theorem freeBlock_detects_iff {blocks : PageFrameListAllocator} {range : PhysFrameRange}
    (h : Sorted blocks) (hRange : range.start < range.stop) :
    (((∃ panic, freeBlock blocks range = .error panic) ↔
        ∃ frame ∈ range.frames, frame ∈ freeFrames blocks) ∧
      ∀ blocks', freeBlock blocks range = .ok blocks' → Exclusive blocks') ↔
      ((∃ block ∈ blocks, block.stop = range.start) →
        ∀ frame ∈ range.frames, frame ∉ freeFrames blocks) := by
  rw [freeBlock_error_iff hRange, fuse_error_iff h hRange, Set.not_disjoint_iff]
  constructor
  · rintro ⟨hDetects, -⟩ ⟨block, hBlock, hEnd⟩ frame hFrame hFree
    exact (hDetects.mpr ⟨frame, hFrame, hFree⟩).2 block hBlock hEnd
  · intro hCondition
    refine ⟨⟨And.left, fun hOverlap => ⟨hOverlap, ?_⟩⟩, ?_⟩
    · obtain ⟨frame, hFrame, hFree⟩ := hOverlap
      intro block hBlock hEnd
      exact hCondition ⟨block, hBlock, hEnd⟩ frame hFrame hFree
    · intro blocks' hFreed
      refine freeBlock_exclusive h hRange ?_ hFreed
      by_contra hOverlap
      have hPanics := (freeBlock_error_iff hRange).mpr ((fuse_error_iff h hRange).mpr
        ⟨hOverlap, ?_⟩)
      · obtain ⟨panic, hPanic⟩ := hPanics
        simp [hPanic] at hFreed
      · grind

/-- A range that reaches from a gap into a block. -/
theorem freeBlock_detects_overlap : ∃ panic,
    freeBlock [⟨2, 2⟩, ⟨8, 4⟩] ⟨6, 10⟩ = .error panic := by
  have hDetects := (@freeBlock_detects_iff [⟨2, 2⟩, ⟨8, 4⟩] ⟨6, 10⟩ ⟨by decide, by decide⟩
    (by decide)).mpr (by simp [PageFrameNode.stop])
  exact hDetects.1.mpr ⟨8, ⟨by decide, by decide⟩, ⟨8, 4⟩, by simp, by decide⟩

/-- Frame 3 is free already, but the range starts at the end of the first
block. -/
theorem freeBlock_misses_overlap : Sorted [⟨1, 1⟩, ⟨3, 2⟩] ∧
    freeBlock [⟨1, 1⟩, ⟨3, 2⟩] ⟨2, 4⟩ = .ok [⟨1, 3⟩, ⟨3, 2⟩] ∧
    ¬ (((∃ panic, freeBlock [⟨1, 1⟩, ⟨3, 2⟩] ⟨2, 4⟩ = .error panic) ↔
        ∃ frame ∈ PhysFrameRange.frames ⟨2, 4⟩, frame ∈ freeFrames [⟨1, 1⟩, ⟨3, 2⟩]) ∧
      ∀ blocks', freeBlock [⟨1, 1⟩, ⟨3, 2⟩] ⟨2, 4⟩ = .ok blocks' → Exclusive blocks') := by
  have hFree : freeBlock [⟨1, 1⟩, ⟨3, 2⟩] ⟨2, 4⟩ = .ok [⟨1, 3⟩, ⟨3, 2⟩] := rfl
  refine ⟨⟨by decide, by decide⟩, hFree, ?_⟩
  rintro ⟨hDetects, -⟩
  obtain ⟨panic, hPanic⟩ := hDetects.mpr
    ⟨3, ⟨by decide, by decide⟩, ⟨3, 2⟩, by simp, by decide⟩
  simp [hFree] at hPanic

/-! #### Degenerate ranges -/

/-- A range that ends before it starts is never freed. -/
theorem freeBlock_reversed {blocks : PageFrameListAllocator} {range : PhysFrameRange}
    (h : range.stop < range.start) : ∃ panic, freeBlock blocks range = .error panic := by
  have hLen : range.len = .error .addressUnderflow := if_pos h
  have hFuse : (∃ panic, fuse range blocks = .error panic) ∨ fuse range blocks = .ok none := by
    induction blocks with
    | nil => exact .inr rfl
    | cons block rest ih =>
      unfold fuse
      rw [hLen]
      split
      · exact .inl ⟨_, rfl⟩
      split
      · exact .inl ⟨_, rfl⟩
      split
      · exact .inl ⟨_, rfl⟩
      split
      · exact .inr rfl
      · refine ih.imp (map_error_iff _ _).mpr fun hNone => ?_
        rw [hNone]
        rfl
  unfold freeBlock insert
  rw [hLen]
  rcases hFuse with ⟨panic, hFuse⟩ | hFuse
  · exact ⟨panic, by rw [hFuse]; rfl⟩
  · exact ⟨.addressUnderflow, by rw [hFuse]; rfl⟩

section Empty

variable {blocks : PageFrameListAllocator} {frame : Nat}

theorem freeBlock_empty_inside (h : Separated (· < ·) blocks)
    (hInside : ∃ block ∈ blocks, block.start < frame ∧ frame < block.stop) :
    ∃ panic, freeBlock blocks ⟨frame, frame⟩ = .error panic := by
  have hFuse : ∃ panic, fuse ⟨frame, frame⟩ blocks = .error panic := by
    induction blocks with
    | nil => simp at hInside
    | cons block rest ih =>
      obtain ⟨hBlock, hRest⟩ := List.pairwise_cons.mp h
      obtain ⟨inner, hMem, hLow, hHigh⟩ := hInside
      unfold fuse
      rcases List.mem_cons.mp hMem with rfl | hMem
      · exact ⟨_, if_pos (by simp only; omega)⟩
      · have hBefore := hBlock inner hMem
        have hLe : block.start ≤ block.stop := Nat.le_add_right _ _
        simp only
        rw [if_neg (by omega), if_neg (by omega), if_neg (by omega), if_neg (by omega)]
        exact (map_error_iff _ _).mpr (ih hRest ⟨inner, hMem, hLow, hHigh⟩)
  obtain ⟨panic, hFuse⟩ := hFuse
  exact ⟨panic, by rw [freeBlock, hFuse]; rfl⟩

/-- An empty range next to a block changes nothing. -/
theorem freeBlock_empty_touching (h : Separated (· < ·) blocks)
    (hTouches : ∃ block ∈ blocks, block.start = frame ∨ block.stop = frame) :
    freeBlock blocks ⟨frame, frame⟩ = .ok blocks := by
  have hFuse : fuse ⟨frame, frame⟩ blocks = .ok (some blocks) := by
    induction blocks with
    | nil => simp at hTouches
    | cons block rest ih =>
      obtain ⟨hBlock, hRest⟩ := List.pairwise_cons.mp h
      obtain ⟨other, hMem, hEnd⟩ := hTouches
      have hLe : block.start ≤ block.stop := Nat.le_add_right _ _
      have hLen : (⟨frame, frame⟩ : PhysFrameRange).len = .ok 0 := by
        rw [PhysFrameRange.len_ok le_rfl, Nat.sub_self]
      unfold fuse
      rw [hLen]
      simp only
      by_cases hStart : frame = block.start
      · rw [if_neg (by omega), if_pos hStart, hStart]
        rfl
      by_cases hStop : block.stop = frame
      · rw [if_neg (by omega), if_neg hStart, if_pos hStop]
        have hSame : extend block 0 rest = block :: rest := by
          cases rest with
          | nil => rfl
          | cons next rest =>
            have hNext := hBlock next (by simp)
            simp only [PageFrameNode.stop] at hNext
            exact if_neg (by omega)
        rw [bind_of_ok, hSame]
        rfl
      · rcases List.mem_cons.mp hMem with rfl | hMem
        · omega
        · have hBefore := hBlock other hMem
          have hLe' : other.start ≤ other.stop := Nat.le_add_right _ _
          rw [if_neg (by omega), if_neg hStart, if_neg hStop, if_neg (by omega),
            ih hRest ⟨other, hMem, hEnd⟩]
          rfl
  rw [freeBlock, hFuse]
  rfl

/-- An empty range away from every block leaves a node without frames. -/
theorem freeBlock_empty_apart (hApart : ∀ block ∈ blocks, frame < block.start ∨ block.stop < frame) :
    freeBlock blocks ⟨frame, frame⟩ = .ok (link ⟨frame, 0⟩ blocks) := by
  have hFuse : fuse ⟨frame, frame⟩ blocks = .ok none := by
    induction blocks with
    | nil => rfl
    | cons block rest ih =>
      have hBlock := hApart block (by simp)
      have hLe : block.start ≤ block.stop := Nat.le_add_right _ _
      unfold fuse
      simp only
      rw [if_neg (by omega), if_neg (by omega), if_neg (by omega)]
      split
      · rfl
      · rw [ih fun other hOther => hApart other (by simp [hOther])]
        rfl
  rw [freeBlock, hFuse, bind_of_ok, insert, PhysFrameRange.len_ok le_rfl, Nat.sub_self]
  rfl

theorem mem_link {node other : PageFrameNode} :
    other ∈ link node blocks ↔ other = node ∨ other ∈ blocks := by
  induction blocks with
  | nil => simp [link]
  | cons block rest ih =>
    unfold link
    split
    · exact List.mem_cons
    · rw [List.mem_cons, ih, List.mem_cons]
      exact or_left_comm

end Empty

end PageFrameListAllocator

end D3OS.Frames
