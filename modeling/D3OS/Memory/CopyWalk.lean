import D3OS.Memory.DropWalk
import D3OS.Memory.MapWalk

/-! What `copy_table` does: every table of the source gets a copy in a frame
that was free, with the entries above level 1 leading to the copies. -/
namespace D3OS.Memory

open PageTableEntry (unused)
open Outcome (Yields)
open Paging

/-- An entry of a table of the given level, once the tables are moved. -/
def moveEntry (move : Nat → Nat) (level : Nat) (entry : PageTableEntry) : PageTableEntry :=
  if level ≤ 1 ∨ entry = unused then entry else ⟨move entry.frame, entry.flags⟩

/-- The tables in `sources` are copied to the free frames that `move` gives
for them. Apart from these frames and `target`, memory in use is as before. -/
structure Copied (m₀ : Machine) (own : Nat → Option Node) (sources : Set Nat) (move : Nat → Nat)
    (target : Nat) (m m' : Machine) : Prop where
  sound : m'.Sound
  taken : ∀ table ∈ sources, move table ∈ m.freeSet
  distinct : ∀ table ∈ sources, ∀ table' ∈ sources, move table = move table' → table = table'
  mem_freeSet : ∀ frame, frame ∈ m'.freeSet ↔
    frame ∈ m.freeSet ∧ ∀ table ∈ sources, move table ≠ frame
  copy : ∀ table ∈ sources, ∀ node, own table = some node → ∀ index < 512,
    m'.read (move table) index = moveEntry move node.level (m₀.read table index)
  elsewhere : ∀ frame ∉ m.freeSet, frame ≠ target → ∀ index,
    m'.read frame index = m.read frame index
  physLimit_eq : m'.frames.physLimit = m.frames.physLimit

/-- A set of tables that holds the tables behind the entries of its members. -/
def Closed (m : Machine) (own : Nat → Option Node) (tables : Set Nat) : Prop :=
  ∀ table ∈ tables, ∀ node, own table = some node → 2 ≤ node.level → ∀ index < 512,
    m.read table index ≠ unused → (m.read table index).frame ∈ tables

variable {m m₀ : Machine} {own : Nat → Option Node} {frame target region : Nat} {node : Node}

theorem Tables.subtree_closed (h : Tables m own) (root level region : Nat) :
    Closed m own (subtree own root level region) := by
  rintro table ⟨node', hOwn', hUnder⟩ ⟨root', level', region'⟩ hOwn hLevel index hIndex hUsed
  obtain rfl : node' = ⟨root', level', region'⟩ := by simpa [hOwn'] using hOwn
  obtain ⟨rfl, hLe, hRegion⟩ := hUnder
  simp only at hLevel hLe hRegion
  obtain ⟨below, rfl⟩ : ∃ below, level' = below + 2 := ⟨level' - 2, by omega⟩
  refine ⟨_, h.down hOwn hIndex hUsed, rfl, by simp only; omega, ?_⟩
  simp only
  rw [show level - (below + 1) = level - (below + 2) + 1 by omega, Nat.pow_succ',
    ← Nat.div_div_eq_div_mul, show (region' * 512 + index) / 512 = region' by omega, hRegion]

/-- Entries of a closed set only depend on where its members are moved. -/
theorem moveEntry_congr {m : Machine} {own : Nat → Option Node} {tables : Set Nat}
    (hClosed : Closed m own tables) {move move' : Nat → Nat}
    (h : ∀ table ∈ tables, move table = move' table) {table index : Nat} {node : Node}
    (hTable : table ∈ tables) (hOwn : own table = some node) (hIndex : index < 512) :
    moveEntry move node.level (m.read table index) =
      moveEntry move' node.level (m.read table index) := by
  unfold moveEntry
  split
  · rfl
  case isFalse hNot =>
    rw [not_or] at hNot
    rw [h _ (hClosed table hTable node hOwn (by omega) index hIndex hNot.2)]

namespace Copied

variable {m₀ m m₁ m₂ : Machine} {own : Nat → Option Node} {sources more : Set Nat}
  {move move' : Nat → Nat} {target : Nat}

/-- Nothing is copied yet. -/
theorem start (hSound : m.Sound) (move : Nat → Nat) (target : Nat) :
    Copied m₀ own ∅ move target m m where
  sound := hSound
  taken := by simp
  distinct := by simp
  mem_freeSet := by simp
  copy := by simp
  elsewhere _ _ _ _ := rfl
  physLimit_eq := rfl

/-- Writing to the target changes nothing else. -/
theorem write (h : Copied m₀ own sources move target m m₁) (hTarget : target ∉ m.freeSet)
    (index : Nat) (entry : PageTableEntry) :
    Copied m₀ own sources move target m (m₁.write target index entry) where
  sound := h.sound.write _ _ _
  taken := h.taken
  distinct := h.distinct
  mem_freeSet := h.mem_freeSet
  copy table hTable node hOwn i hi := by
    have hNe : move table ≠ target := fun hEq => hTarget (hEq ▸ h.taken table hTable)
    rw [Machine.read_write, if_neg (by simp [hNe]), h.copy table hTable node hOwn i hi]
  elsewhere frame hFrame hNe i := by
    rw [Machine.read_write, if_neg (by simp [hNe]), h.elsewhere frame hFrame hNe]
  physLimit_eq := h.physLimit_eq

/-- A further subtree is copied to a new frame and its successors. -/
theorem extend (h : Copied m₀ own sources move target m m₁) (hTarget : target ∉ m.freeSet)
    {index child : Nat} {entry : PageTableEntry} {mₐ : Machine}
    (hAlloc : Machine.Allocated m₁ {frame} mₐ)
    (hBelow : Copied m₀ own (more \ {child}) move' frame (mₐ.write target index entry) m₂)
    (hChild : child ∈ more) (hMove : move' child = frame) (hOwn : own child = some node)
    (hRead : ∀ i < 512, m₂.read frame i = moveEntry move' node.level (m₀.read child i))
    (hDisjoint : ∀ table ∈ sources, table ∉ more) (hClosed : Closed m₀ own sources)
    (hMore : Closed m₀ own more) [DecidablePred (· ∈ more)] :
    Copied m₀ own (sources ∪ more) (fun table => if table ∈ more then move' table else move table)
      target m m₂ := by
  have hFreeₐ : ∀ other, other ∈ (mₐ.write target index entry).freeSet ↔
      other ∈ m₁.freeSet ∧ other ≠ frame := by
    intro other
    rw [Machine.freeSet_write, hAlloc.freeSet_eq, Set.mem_sdiff, Set.mem_singleton_iff]
  have hFrame : frame ∈ m₁.freeSet := hAlloc.free rfl
  have hSubset : ∀ other, other ∈ m₁.freeSet → other ∈ m.freeSet :=
    fun other hMem => ((h.mem_freeSet other).mp hMem).1
  have hTaken : ∀ table ∈ more, move' table ∈ m₁.freeSet := by
    intro table hTable
    by_cases hEq : table = child
    · rwa [hEq, hMove]
    · exact ((hFreeₐ _).mp (hBelow.taken table ⟨hTable, hEq⟩)).1
  have hOut : ∀ table ∈ sources, move table ∉ m₁.freeSet :=
    fun table hTable hMem => ((h.mem_freeSet _).mp hMem).2 table hTable rfl
  have hFrameₐ : ∀ other, other ∉ m₁.freeSet → other ≠ target → ∀ i,
      m₂.read other i = m₁.read other i := by
    intro other hNot hNe i
    rw [hBelow.elsewhere other (fun hMem => hNot ((hFreeₐ other).mp hMem).1)
      (fun hEq => hNot (hEq ▸ hFrame)), Machine.read_write, if_neg (by simp [hNe]),
      hAlloc.read_eq other hNot]
  refine ⟨hBelow.sound, ?_, ?_, ?_, ?_, ?_, ?_⟩
  · rintro table hTable
    by_cases hIn : table ∈ more
    · simp only [hIn, if_true]
      exact hSubset _ (hTaken table hIn)
    · simp only [hIn, if_false]
      exact h.taken table (hTable.resolve_right hIn)
  · intro table hTable table' hTable' hEq
    by_cases hIn : table ∈ more <;> by_cases hIn' : table' ∈ more <;>
      simp only [hIn, hIn', if_true, if_false] at hEq
    · by_cases hC : table = child <;> by_cases hC' : table' = child
      · rw [hC, hC']
      · rw [hC, hMove] at hEq
        exact absurd hEq.symm ((hFreeₐ _).mp (hBelow.taken table' ⟨hIn', hC'⟩)).2
      · rw [hC', hMove] at hEq
        exact absurd hEq ((hFreeₐ _).mp (hBelow.taken table ⟨hIn, hC⟩)).2
      · exact hBelow.distinct table ⟨hIn, hC⟩ table' ⟨hIn', hC'⟩ hEq
    · exact absurd (hEq ▸ hTaken table hIn) (hOut table' (hTable'.resolve_right hIn'))
    · exact absurd (hEq ▸ hTaken table' hIn') (hOut table (hTable.resolve_right hIn))
    · exact h.distinct table (hTable.resolve_right hIn) table' (hTable'.resolve_right hIn') hEq
  · intro other
    rw [hBelow.mem_freeSet, hFreeₐ, h.mem_freeSet]
    constructor
    · grind
    · grind
  · intro table hTable node' hOwn' i hi
    by_cases hIn : table ∈ more
    · have hSame := @moveEntry_congr m₀ own more hMore move'
        (fun table => if table ∈ more then move' table else move table)
        (fun table' hTable' => by simp [hTable']) table i node' hIn hOwn' hi
      rw [← hSame]
      simp only [hIn, if_true]
      by_cases hEq : table = child
      · obtain rfl : node = node' := by simpa [hEq, hOwn] using hOwn'
        rw [hEq, hMove, hRead i hi]
      · exact hBelow.copy table ⟨hIn, hEq⟩ node' hOwn' i hi
    · have hOld := hTable.resolve_right hIn
      have hSame := @moveEntry_congr m₀ own sources hClosed move
        (fun table => if table ∈ more then move' table else move table)
        (fun table' hTable' => by simp [hDisjoint table' hTable']) table i node' hOld hOwn' hi
      rw [← hSame]
      simp only [hIn, if_false]
      rw [hFrameₐ _ (hOut table hOld) (fun hEq => hTarget (hEq ▸ h.taken table hOld)),
        h.copy table hOld node' hOwn' i hi]
  · intro other hNot hNe i
    rw [hFrameₐ other (fun hMem => hNot (hSubset other hMem)) hNe, h.elsewhere other hNot hNe]
  · exact hBelow.physLimit_eq.trans (hAlloc.physLimit_eq.trans h.physLimit_eq)

end Copied

/-- The tables of `m₀` are still there in `m`. -/
def Intact (m₀ : Machine) (own : Nat → Option Node) (m : Machine) : Prop :=
  ∀ table node, own table = some node →
    table ∉ m.freeSet ∧ ∀ index, m.read table index = m₀.read table index

theorem Copied.intact {m' : Machine} {sources : Set Nat} {move : Nat → Nat}
    (h : Copied m₀ own sources move target m m') (hIntact : Intact m₀ own m)
    (hTarget : own target = none) : Intact m₀ own m' := by
  intro table node hOwn
  obtain ⟨hNot, hRead⟩ := hIntact table node hOwn
  have hNe : table ≠ target := by
    rintro rfl
    simp [hTarget] at hOwn
  refine ⟨fun hMem => hNot ((h.mem_freeSet table).mp hMem).1, fun index => ?_⟩
  rw [h.elsewhere table hNot hNe, hRead]

/-- A table for the copy is allocated and entered in the target. -/
theorem Intact.allocate {mₐ : Machine} (h : Intact m₀ own m) {frames : Set Nat}
    (hAlloc : Machine.Allocated m frames mₐ) (hNone : own target = none) (index : Nat)
    (entry : PageTableEntry) :
    Intact m₀ own (mₐ.write target index entry) := by
  intro table node hOwn
  obtain ⟨hNot, hRead⟩ := h table node hOwn
  have hNe : table ≠ target := by
    rintro rfl
    simp [hNone] at hOwn
  refine ⟨?_, fun i => ?_⟩
  · rw [Machine.freeSet_write, hAlloc.freeSet_eq]
    exact fun hMem => hNot hMem.1
  · rw [Machine.read_write, if_neg (by simp [hNe]), hAlloc.read_eq table hNot, hRead]

/-- The first entries of a table of level `level + 2` are copied, with the
tables behind them. -/
def CopiedEntries (m₀ : Machine) (own : Nat → Option Node) (source target root level region : Nat)
    (m : Machine) (count : Nat) (m' : Machine) : Prop :=
  ∃ move, Copied m₀ own (behind own root (level + 1) region count) move target m m' ∧
    move source = target ∧
    ∀ j < count, m'.read target j = moveEntry move (level + 2) (m₀.read source j)

section

variable {m₀ m m₁ m₂ mₐ : Machine} {own : Nat → Option Node}
  {source target root level region index : Nat}

theorem Tables.behind_closed (h : Tables m₀ own) (root level region count : Nat) :
    Closed m₀ own (behind own root level region count) := by
  rintro table ⟨j, hj, hTable⟩ node hOwn hLevel i hi hUsed
  exact ⟨j, hj, h.subtree_closed _ _ _ table hTable node hOwn hLevel i hi hUsed⟩

theorem CopiedEntries.skip (hCopied : CopiedEntries m₀ own source target root level region m index m₁)
    (h : Tables m₀ own) (hOwn : own source = some ⟨root, level + 2, region⟩) (hIndex : index < 512)
    (hUnused : m₀.read source index = unused) (hTarget : target ∉ m.freeSet) :
    CopiedEntries m₀ own source target root level region m (index + 1)
      (m₁.write target index PageTableEntry.unused) := by
  obtain ⟨move, hCopied, hMove, hDone⟩ := hCopied
  refine ⟨move, ?_, hMove, ?_⟩
  · rw [h.behind_succ_of_unused hIndex hOwn hUnused]
    exact hCopied.write hTarget index _
  · intro j hj
    rw [Machine.read_write]
    split
    case isTrue hEq => simp [hEq.2, hUnused, moveEntry]
    case isFalse hNot => exact hDone j (by simp only [true_and] at hNot; omega)

/-- The table behind a used entry is copied to a new frame. -/
theorem CopiedEntries.child
    (hCopied : CopiedEntries m₀ own source target root level region m index m₁) (h : Tables m₀ own)
    (hOwn : own source = some ⟨root, level + 2, region⟩) (hIndex : index < 512)
    (hUsed : m₀.read source index ≠ unused) (hTarget : target ∉ m.freeSet)
    (hAlloc : Machine.Allocated m₁ {frame} mₐ) {move' : Nat → Nat} (hBelow : Copied m₀ own
      (subtree own root (level + 1) (region * 512 + index) \ {(m₀.read source index).frame}) move'
      frame (mₐ.write target index ⟨frame, (m₀.read source index).flags⟩) m₂)
    (hMove' : move' (m₀.read source index).frame = frame) (hRead : ∀ i < 512, m₂.read frame i =
      moveEntry move' (level + 1) (m₀.read (m₀.read source index).frame i)) :
    CopiedEntries m₀ own source target root level region m (index + 1) m₂ := by
  classical
  obtain ⟨move, hCopied, hMove, hDone⟩ := hCopied
  have hChild := h.down hOwn hIndex hUsed
  have hChildMem : (m₀.read source index).frame ∈
      subtree own root (level + 1) (region * 512 + index) := ⟨_, hChild, Node.under_self _ _ _⟩
  have hDisjoint : ∀ table ∈ behind own root (level + 1) region index,
      table ∉ subtree own root (level + 1) (region * 512 + index) :=
    fun table hBehind hMem => not_mem_behind_of_subtree hMem hBehind
  have hSource : source ∉ subtree own root (level + 1) (region * 512 + index) :=
    fun hMem => not_mem_behind hOwn ⟨index, Nat.lt_succ_self index, hMem⟩
  have hTarget₁ : target ∉ m₁.freeSet := fun hMem => hTarget ((hCopied.mem_freeSet target).mp hMem).1
  have hTargetₐ : target ∉ (mₐ.write target index
      ⟨frame, (m₀.read source index).flags⟩).freeSet := by
    rw [Machine.freeSet_write, hAlloc.freeSet_eq]
    exact fun hMem => hTarget₁ hMem.1
  have hTargetNe : target ≠ frame := fun hEq => hTarget₁ (hEq ▸ hAlloc.free rfl)
  have hExtended := hCopied.extend hTarget hAlloc hBelow hChildMem hMove' hChild hRead hDisjoint
    (h.behind_closed _ _ _ _) (h.subtree_closed _ _ _)
  rw [← behind_succ] at hExtended
  refine ⟨_, hExtended, ?_, ?_⟩
  · rw [if_neg hSource, hMove]
  · intro j hj
    rw [hBelow.elsewhere target hTargetₐ hTargetNe, Machine.read_write]
    by_cases hEq : j = index
    · rw [if_pos ⟨rfl, hEq⟩, hEq]
      simp [moveEntry, hUsed, hChildMem, hMove']
    · rw [if_neg (by simp [hEq]), hAlloc.read_eq target hTarget₁, hDone j (by omega)]
      unfold moveEntry
      split
      · rfl
      case isFalse hNot =>
        rw [not_or] at hNot
        have hBehind : (m₀.read source j).frame ∈ behind own root (level + 1) region index :=
          ⟨j, by omega, _, h.down hOwn (by omega) hNot.2, Node.under_self _ _ _⟩
        simp only [hDisjoint _ hBehind, if_false]

end

/-- `copy_table` copies the tables below the source and fills the target. -/
theorem copyTable_spec (level : Nat) (h : Tables m₀ own) (hSound : m.Sound)
    (hIntact : Intact m₀ own m) {source root : Nat}
    (hOwn : own source = some ⟨root, level + 1, region⟩) (hTarget : target ∉ m.freeSet)
    (hNone : own target = none) :
    Yields False (copyTable (level + 1) m source target) fun m' => ∃ move,
      Copied m₀ own (subtree own root (level + 1) region \ {source}) move target m m' ∧
        move source = target ∧
        ∀ i < 512, m'.read target i = moveEntry move (level + 1) (m₀.read source i) := by
  induction level generalizing m source target region with
  | zero =>
    let inv (i : Nat) (mᵢ : Machine) : Prop :=
      Copied m₀ own ∅ (fun _ => target) target m mᵢ ∧
        ∀ j < i, mᵢ.read target j = m₀.read source j
    rw [h.subtree_one hOwn, Set.sdiff_self]
    refine (Yields.forIn_range' inv (inv 512) ⟨Copied.start hSound _ _, by simp⟩ ?_ ?_).mono ?_
    · rintro i mᵢ - hi ⟨hCopied, hDone⟩
      refine Yields.pure ⟨hCopied.write hTarget i _, fun j hj => ?_⟩
      rw [Machine.read_write]
      split
      case isTrue hEq => rw [hEq.2, (hCopied.intact hIntact hNone source _ hOwn).2]
      case isFalse hNot => exact hDone j (by simp only [true_and] at hNot; omega)
    · exact fun m' hInv => by rwa [Nat.zero_add] at hInv
    · rintro m' ⟨hCopied, hDone⟩
      refine ⟨fun _ => target, hCopied, rfl, fun i hi => ?_⟩
      rw [hDone i hi]
      simp [moveEntry]
  | succ level ih =>
    rw [h.subtree_succ hOwn, Set.insert_sdiff_of_mem _ (Set.mem_singleton source),
      Set.sdiff_singleton_eq_self (not_mem_behind hOwn)]
    -- Before entry `i` the subtrees behind the entries before it are copied.
    refine Yields.forIn_range' (CopiedEntries m₀ own source target root level region m) _ ?_ ?_ ?_
    · refine ⟨fun _ => target, ?_, rfl, by simp⟩
      rw [behind_zero]
      exact Copied.start hSound _ _
    · intro i mᵢ _ hi hInv
      rw [Nat.zero_add] at hi
      obtain ⟨move, hCopied, -⟩ := id hInv
      have hIntactᵢ := hCopied.intact hIntact hNone
      simp only [(hIntactᵢ source _ hOwn).2 i]
      by_cases hUsed : m₀.read source i = unused
      · rw [if_pos (by simpa using hUsed)]
        exact Yields.pure (hInv.skip h hOwn hi hUsed hTarget)
      · rw [if_neg (by simpa using hUsed)]
        refine (Machine.alloc_one hCopied.sound).bind ?_
        rintro ⟨range, mₐ⟩ hAlloc
        refine (PageTableEntry.setFrame_spec _ _).bind ?_
        rintro _ rfl
        have hFrameNone : own range.start = none := by
          cases hOwn' : own range.start with
          | none => rfl
          | some node => exact absurd (hAlloc.free rfl) (hIntactᵢ _ node hOwn').1
        have hFrameFree : range.start ∉ (mₐ.write target i
            ⟨range.start, (m₀.read source i).flags⟩).freeSet := by
          simp [hAlloc.freeSet_eq]
        refine (ih (hAlloc.sound.write _ _ _) (hIntactᵢ.allocate hAlloc hNone _ _)
          (h.down hOwn hi hUsed) hFrameFree hFrameNone).bind ?_
        rintro m' ⟨move', hBelow, hMove', hRead⟩
        exact Yields.pure (hInv.child h hOwn hi hUsed hTarget hAlloc hBelow hMove' hRead)
    · rintro m' ⟨move, hCopied, hMove, hDone⟩
      exact ⟨move, hCopied, hMove, hDone⟩

/-- The places of the copies, in a tree of their own. -/
noncomputable def withCopies (own : Nat → Option Node) (source root : Nat) (move : Nat → Nat) :
    Nat → Option Node :=
  open Classical in fun frame =>
    if own frame ≠ none then own frame
    else if h : ∃ place : Nat × Nat, ∃ table,
        own table = some ⟨source, place.1, place.2⟩ ∧ move table = frame then
      some ⟨root, h.choose.1, h.choose.2⟩
    else none

section

variable {own : Nat → Option Node} {source root : Nat} {move : Nat → Nat}

theorem withCopies_of_own (hOwn : own frame = some node) :
    withCopies own source root move frame = some node := by
  simp [withCopies, hOwn]

theorem withCopies_of_none (hNone : own frame = none)
    (hSome : withCopies own source root move frame = some node) :
    ∃ table level region, own table = some ⟨source, level, region⟩ ∧ move table = frame ∧
      node = ⟨root, level, region⟩ := by
  unfold withCopies at hSome
  rw [if_neg (by simp [hNone])] at hSome
  split at hSome
  case isTrue => grind
  case isFalse => cases hSome

theorem withCopies_move {table level : Nat} (hOwn : own table = some ⟨source, level, region⟩)
    (hNone : own (move table) = none)
    (hDistinct : ∀ table' level' region', own table' = some ⟨source, level', region'⟩ →
      move table' = move table → table' = table) :
    withCopies own source root move (move table) = some ⟨root, level, region⟩ := by
  unfold withCopies
  rw [if_neg (by simp [hNone])]
  have hSome : ∃ place : Nat × Nat, ∃ table',
      own table' = some ⟨source, place.1, place.2⟩ ∧ move table' = move table :=
    ⟨(level, region), table, hOwn, rfl⟩
  rw [dif_pos hSome]
  obtain ⟨table', hOwn', hMove⟩ := hSome.choose_spec
  obtain rfl := hDistinct table' _ _ hOwn' hMove
  rw [hOwn] at hOwn'
  simp only [Option.some.injEq, Node.mk.injEq, true_and] at hOwn' ⊢
  exact ⟨hOwn'.1.symm, hOwn'.2.symm⟩

end

/-- A tree has been copied: the copy translates as its source, consists of
frames that were free, and these are all that was allocated. -/
structure Cloned (source root : Nat) (m : Machine) (own : Nat → Option Node) (m' : Machine)
    (own' : Nat → Option Node) : Prop extends Grows root m own m' own' where
  root_free : root ∈ m.freeSet
  root_own : own' root = some ⟨root, 4, 0⟩
  spent : ∀ frame ∈ m.freeSet, frame ∉ m'.freeSet → own' frame ≠ none
  view : ∀ page < 512 ^ 4, entryAt m' root page = entryAt m source page

/-- Every table of a tree has a copy in a frame that was free; these frames
are all that was allocated. -/
structure Moved (source root : Nat) (m : Machine) (own : Nat → Option Node) (move : Nat → Nat)
    (m' : Machine) : Prop where
  sound : m'.Sound
  shrinks : m'.freeSet ⊆ m.freeSet
  move_source : move source = root
  taken : ∀ {table level region}, own table = some ⟨source, level, region⟩ →
    move table ∈ m.freeSet ∧ move table ∉ m'.freeSet
  distinct : ∀ {table level region table' level' region'},
    own table = some ⟨source, level, region⟩ → own table' = some ⟨source, level', region'⟩ →
    move table' = move table → table' = table
  copy : ∀ {table level region}, own table = some ⟨source, level, region⟩ → ∀ index < 512,
    m'.read (move table) index = moveEntry move level (m.read table index)
  same : ∀ {table node}, own table = some node → ∀ index,
    m'.read table index = m.read table index
  spent : ∀ frame ∈ m.freeSet, frame ∉ m'.freeSet →
    ∃ table level region, own table = some ⟨source, level, region⟩ ∧ move table = frame
  physLimit_eq : m'.frames.physLimit = m.frames.physLimit

theorem Copied.moved {m₁ m' : Machine} {source root : Nat} {move : Nat → Nat} (h : Tables m own)
    (hSource : own source = some ⟨source, 4, 0⟩) (hAlloc : Machine.Allocated m {root} m₁)
    (hCopied : Copied m own (subtree own source 4 0 \ {source}) move root (m₁.zero root) m')
    (hMove : move source = root)
    (hRead : ∀ i < 512, m'.read root i = moveEntry move 4 (m.read source i)) :
    Moved source root m own move m' := by
  have hRootFree : root ∈ m.freeSet := hAlloc.free rfl
  have hFree₁ : ∀ frame, frame ∈ (m₁.zero root).freeSet ↔ frame ∈ m.freeSet ∧ frame ≠ root := by
    intro frame
    rw [Machine.freeSet_zero, hAlloc.freeSet_eq, Set.mem_sdiff, Set.mem_singleton_iff]
  have hIn : ∀ {table level region}, own table = some ⟨source, level, region⟩ → table ≠ source →
      table ∈ subtree own source 4 0 \ {source} :=
    fun hOwn hNe => ⟨⟨_, hOwn, (h.root_own hOwn).2⟩, hNe⟩
  refine ⟨hCopied.sound, ?_, hMove, ?_, ?_, ?_, ?_, ?_,
    hCopied.physLimit_eq.trans hAlloc.physLimit_eq⟩
  · intro frame hMem
    exact ((hFree₁ frame).mp ((hCopied.mem_freeSet frame).mp hMem).1).1
  · intro table level region hOwn
    by_cases hEq : table = source
    · rw [hEq, hMove]
      refine ⟨hRootFree, fun hMem => ?_⟩
      exact ((hFree₁ root).mp ((hCopied.mem_freeSet root).mp hMem).1).2 rfl
    · exact ⟨((hFree₁ _).mp (hCopied.taken table (hIn hOwn hEq))).1,
        fun hMem => ((hCopied.mem_freeSet _).mp hMem).2 table (hIn hOwn hEq) rfl⟩
  · intro table level region table' level' region' hOwn hOwn' hEq
    by_cases hS : table = source <;> by_cases hS' : table' = source
    · rw [hS, hS']
    · rw [hS, hMove] at hEq
      exact absurd hEq ((hFree₁ _).mp (hCopied.taken table' (hIn hOwn' hS'))).2
    · rw [hS', hMove] at hEq
      exact absurd hEq.symm ((hFree₁ _).mp (hCopied.taken table (hIn hOwn hS))).2
    · exact hCopied.distinct table' (hIn hOwn' hS') table (hIn hOwn hS) hEq
  · intro table level region hOwn i hi
    by_cases hEq : table = source
    · grind
    · exact hCopied.copy table (hIn hOwn hEq) _ hOwn i hi
  · intro table node hOwn i
    have hNe : table ≠ root := by
      rintro rfl
      exact h.not_free hOwn hRootFree
    rw [hCopied.elsewhere table (fun hMem => h.not_free hOwn ((hFree₁ table).mp hMem).1) hNe,
      Machine.read_zero, if_neg hNe, hAlloc.read_eq table (h.not_free hOwn)]
  · intro frame hFree hNot
    by_cases hEq : frame = root
    · exact ⟨source, 4, 0, hSource, by rw [hMove, hEq]⟩
    · rw [hCopied.mem_freeSet, hFree₁] at hNot
      simp only [hFree, hEq, ne_eq, not_false_eq_true, and_self, true_and, not_forall,
        not_not] at hNot
      obtain ⟨table, ⟨⟨node, hOwn, hUnder⟩, -⟩, hMoved⟩ := hNot
      exact ⟨table, node.level, node.region, by rw [hOwn, ← hUnder.1], hMoved⟩

namespace Moved

variable {source root : Nat} {m m' : Machine} {own : Nat → Option Node} {move : Nat → Nat}

theorem place (h : Tables m own) (hMoved : Moved source root m own move m') {table level : Nat}
    (hOwn : own table = some ⟨source, level, region⟩) :
    withCopies own source root move (move table) = some ⟨root, level, region⟩ :=
  withCopies_move hOwn (h.none_of_free (hMoved.taken hOwn).1)
    fun _ _ _ hOwn' hEq => hMoved.distinct hOwn hOwn' hEq

/-- The copies form a tree. -/
theorem tables (h : Tables m own) (hMoved : Moved source root m own move m') :
    Tables m' (withCopies own source root move) := by
  -- A table is either an old one or the copy of one.
  have hCases : ∀ {table node}, withCopies own source root move table = some node →
      own table = some node ∨ ∃ original level region,
        own original = some ⟨source, level, region⟩ ∧ move original = table ∧
          node = ⟨root, level, region⟩ := by
    intro table node hSome
    cases hOwn : own table with
    | none => exact .inr (withCopies_of_none hOwn hSome)
    | some node' =>
      rw [withCopies_of_own hOwn] at hSome
      exact .inl hSome
  refine ⟨hMoved.sound, ?_, ?_, ?_, ?_, ?_, ?_, ?_⟩
  · intro table node hSome
    rcases hCases hSome with hOwn | ⟨original, level, region, hOwn, rfl, rfl⟩
    · exact fun hMem => h.not_free hOwn (hMoved.shrinks hMem)
    · exact (hMoved.taken hOwn).2
  · intro table node hSome
    rcases hCases hSome with hOwn | ⟨original, level, region, hOwn, rfl, rfl⟩
    · exact h.nonzero hOwn
    · exact fun hZero => h.sound.zero_not_free (hZero ▸ (hMoved.taken hOwn).1)
  · intro table node hSome
    rcases hCases hSome with hOwn | ⟨original, level, region, hOwn, rfl, rfl⟩
    · exact h.level_pos hOwn
    · have hPos := h.level_pos hOwn
      exact hPos
  · intro table node hSome
    rcases hCases hSome with hOwn | ⟨original, level, region, hOwn, rfl, rfl⟩
    · exact h.level_le hOwn
    · have hLe := h.level_le hOwn
      exact hLe
  · intro table root' region' hSome
    rcases hCases hSome with hOwn | ⟨original, level, region, hOwn, rfl, hNode⟩
    · exact h.top hOwn
    · obtain ⟨rfl, rfl, rfl⟩ : root' = root ∧ 4 = level ∧ region' = region := by simpa using hNode
      obtain ⟨hEq, hRegion⟩ := h.top hOwn
      exact ⟨by rw [hEq, hMoved.move_source], hRegion⟩
  · intro table root' level' region' i hSome hi hUsed
    rcases hCases hSome with hOwn | ⟨original, level, region, hOwn, rfl, hNode⟩
    · rw [hMoved.same hOwn] at hUsed ⊢
      exact withCopies_of_own (h.down hOwn hi hUsed)
    · obtain ⟨rfl, rfl, rfl⟩ : root' = root ∧ level' + 2 = level ∧ region' = region := by
        simpa using hNode
      rw [hMoved.copy hOwn i hi] at hUsed ⊢
      have hUsed' : m.read original i ≠ unused := by
        intro hEq
        simp [moveEntry, hEq] at hUsed
      have hEntry : moveEntry move (level' + 2) (m.read original i) =
          ⟨move (m.read original i).frame, (m.read original i).flags⟩ := by
        simp [moveEntry, hUsed']
      rw [hEntry]
      exact hMoved.place h (h.down hOwn hi hUsed')
  · intro table root' level' region' hSome hLevel
    rcases hCases hSome with hOwn | ⟨original, level, region, hOwn, rfl, hNode⟩
    · obtain ⟨parent, hParent, hUsed, hFrame⟩ := h.up hOwn hLevel
      exact ⟨parent, withCopies_of_own hParent, by rwa [hMoved.same hParent],
        by rwa [hMoved.same hParent]⟩
    · obtain ⟨rfl, rfl, rfl⟩ : root' = root ∧ level' = level ∧ region' = region := by
        simpa using hNode
      obtain ⟨parent, hParent, hUsed, hFrame⟩ := h.up hOwn hLevel
      have hPos := h.level_pos hOwn
      simp only at hPos
      have hEntry : m'.read (move parent) (region' % 512) =
          ⟨move (m.read parent (region' % 512)).frame, (m.read parent (region' % 512)).flags⟩ := by
        rw [hMoved.copy hParent _ (Nat.mod_lt _ (by decide)), moveEntry,
          if_neg (by simp [hUsed]; omega)]
      refine ⟨move parent, hMoved.place h hParent, ?_, by rw [hEntry, hFrame]⟩
      rw [hEntry, hFrame]
      intro hEq
      have hZero : move original = 0 := congrArg PageTableEntry.frame hEq
      exact h.sound.zero_not_free (hZero ▸ (hMoved.taken hOwn).1)

/-- The copy of a tree translates as its source. -/
theorem cloned (h : Tables m own) (hSource : own source = some ⟨source, 4, 0⟩)
    (hMoved : Moved source root m own move m') :
    Cloned source root m own m' (withCopies own source root move) := by
  have hTables := hMoved.tables h
  have hRoot : withCopies own source root move root = some ⟨root, 4, 0⟩ := by
    have hPlace := hMoved.place h hSource
    rwa [hMoved.move_source] at hPlace
  have hRootFree : root ∈ m.freeSet := by
    have hTaken := (hMoved.taken hSource).1
    rwa [hMoved.move_source] at hTaken
  refine ⟨⟨hTables, withCopies_of_own, ?_, hMoved.shrinks, fun hOwn _ => hMoved.same hOwn,
    hMoved.physLimit_eq⟩, hRootFree, hRoot, ?_, ?_⟩
  · intro table node hSome hNone
    obtain ⟨original, level, region, hOwn, rfl, rfl⟩ := withCopies_of_none hNone hSome
    exact ⟨rfl, (hMoved.taken hOwn).1⟩
  · intro frame hFree hNot
    obtain ⟨table, level, region, hOwn, rfl⟩ := hMoved.spent frame hFree hNot
    simp [hMoved.place h hOwn]
  · intro page hPage
    by_cases hLeaf : ∃ leaf, own leaf = some ⟨source, 1, page / 512⟩
    · obtain ⟨leaf, hLeaf⟩ := hLeaf
      rw [h.entryAt_of_own hLeaf, hTables.entryAt_of_own (hMoved.place h hLeaf),
        hMoved.copy hLeaf _ (Nat.mod_lt _ (by decide))]
      simp [moveEntry]
    · have hAbsent := not_exists.mp hLeaf
      rw [h.entryAt_of_absent hSource hPage hAbsent]
      refine hTables.entryAt_of_absent hRoot hPage fun leaf hSome => ?_
      cases hOwn : own leaf with
      | some node =>
        rw [withCopies_of_own hOwn, Option.some.injEq] at hSome
        subst hSome
        exact h.not_free (h.root_own hOwn).1 hRootFree
      | none =>
        obtain ⟨original, level, region, hOwn', -, hNode⟩ := withCopies_of_none hOwn hSome
        obtain ⟨rfl, rfl⟩ : 1 = level ∧ page / 512 = region := by simpa using hNode
        exact hAbsent original hOwn'

end Moved

/-- `Paging::from_other`. -/
theorem fromOther_spec (h : Tables m own) {other : Paging} (hDepth : other.depth = 4)
    (hOther : own other.rootTable = some ⟨other.rootTable, 4, 0⟩) :
    Yields False (fromOther m other) fun (paging, m') => paging.depth = 4 ∧
      ∃ own', Cloned other.rootTable paging.rootTable m own m' own' := by
  unfold fromOther Paging.new
  rw [hDepth]
  simp only [bind_assoc, pure_bind]
  refine (Machine.alloc_one h.sound).bind ?_
  rintro ⟨range, m₁⟩ hAlloc
  have hFrame : range.start ∈ m.freeSet := hAlloc.free rfl
  have hIntact : Intact m own (m₁.zero range.start) := by
    intro table node hOwn
    have hNe : table ≠ range.start := fun hEq => h.not_free hOwn (hEq ▸ hFrame)
    refine ⟨?_, fun index => ?_⟩
    · rw [Machine.freeSet_zero, hAlloc.freeSet_eq]
      exact fun hMem => h.not_free hOwn hMem.1
    · rw [Machine.read_zero, if_neg hNe, hAlloc.read_eq table (h.not_free hOwn)]
  refine (copyTable_spec 3 h (hAlloc.sound.zero _) hIntact hOther (by simp [hAlloc.freeSet_eq])
    (h.none_of_free hFrame)).bind ?_
  rintro m' ⟨move, hCopied, hMove, hRead⟩
  exact Yields.pure ⟨rfl, _, (hCopied.moved h hOther hAlloc hMove hRead).cloned h hOther⟩

end D3OS.Memory
