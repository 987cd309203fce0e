import D3OS.Memory.Pages
import Mathlib.Logic.Function.Basic

/-! Which frames are page tables, and of which tree. A table is named by the
root of its tree, its level and the number of the region it translates: page
`p` lies in region `p / 512 ^ level`. `Tables` says that such an assignment
fits the contents of memory: entries lead down to the tables of the regions
below, and every table is reached from the one above. -/
namespace D3OS.Memory

open Outcome
open PageTableEntry (unused)

/-- The place of a table in a tree. -/
structure Node where
  root : Nat
  level : Nat
  region : Nat
  deriving DecidableEq

/-- The place lies in the subtree of the table for a region. -/
def Node.Under (node : Node) (root level region : Nat) : Prop :=
  node.root = root ∧ node.level ≤ level ∧ node.region / 512 ^ (level - node.level) = region

theorem Node.under_self (root level region : Nat) :
    Node.Under ⟨root, level, region⟩ root level region := by
  simp [Node.Under]

variable {node : Node} {root level region index page : Nat} {m₁ : Machine}

theorem Node.Under.parent (hIndex : index < 512) (h : node.Under root level (region * 512 + index)) :
    node.Under root (level + 1) region := by
  obtain ⟨hRoot, hLevel, hRegion⟩ := h
  refine ⟨hRoot, by omega, ?_⟩
  rw [show level + 1 - node.level = level - node.level + 1 by omega, Nat.pow_succ,
    ← Nat.div_div_eq_div_mul, hRegion]
  omega

/-- The subtrees behind two entries of a table have nothing in common. -/
theorem Node.Under.index_eq {other : Nat} (h : node.Under root level (region * 512 + index))
    (h' : node.Under root level (region * 512 + other)) : index = other := by
  have hEq := h.2.2.symm.trans h'.2.2
  omega

/-- The assignment of frames to places fits the machine. -/
structure Tables (m : Machine) (own : Nat → Option Node) : Prop where
  sound : m.Sound
  not_free : ∀ {table node}, own table = some node → table ∉ m.freeSet
  nonzero : ∀ {table node}, own table = some node → table ≠ 0
  level_pos : ∀ {table node}, own table = some node → 1 ≤ node.level
  level_le : ∀ {table node}, own table = some node → node.level ≤ 4
  top : ∀ {table root region}, own table = some ⟨root, 4, region⟩ → table = root ∧ region = 0
  down : ∀ {table root level region index}, own table = some ⟨root, level + 2, region⟩ →
    index < 512 → m.read table index ≠ unused →
    own (m.read table index).frame = some ⟨root, level + 1, region * 512 + index⟩
  up : ∀ {table root level region}, own table = some ⟨root, level, region⟩ → level < 4 →
    ∃ parent, own parent = some ⟨root, level + 1, region / 512⟩ ∧
      m.read parent (region % 512) ≠ unused ∧ (m.read parent (region % 512)).frame = table

namespace Paging

/-- The level 1 entry that a walk for `page` ends at, unused if a table on
the way is missing. -/
def leafEntry (m : Machine) : Nat → Nat → Nat → PageTableEntry
  | level + 2, table, page =>
    let entry := m.read table (pageTableIndex page (level + 2))
    if entry.isUnused then unused else leafEntry m (level + 1) entry.frame page
  | _, table, page => m.read table (pageTableIndex page 1)

theorem translateInTable_eq (m : Machine) (level table addr : Nat) :
    translateInTable m level table addr =
      if (leafEntry m level table (addr / PAGE_SIZE)).isUnused then none
      else some (PAGE_SIZE * (leafEntry m level table (addr / PAGE_SIZE)).frame +
        addr % PAGE_SIZE) := by
  fun_induction translateInTable m level table addr with
  | case1 level table addr entry hUnused => simp_all [leafEntry, entry]
  | case2 level table addr entry hUsed ih => simp_all [leafEntry, entry]
  | case3 level table addr entry hUnused hLevel => simp_all [leafEntry, entry]
  | case4 level table addr entry hUsed hLevel => simp_all [leafEntry, entry]

theorem pageTableIndex_lt (page level : Nat) : pageTableIndex page level < 512 :=
  Nat.mod_lt _ (by decide)

@[simp] theorem pageTableIndex_one (page : Nat) : pageTableIndex page 1 = page % 512 := by
  simp [pageTableIndex]

end Paging

open Paging

theorem region_succ (page level : Nat) : page / 512 ^ level / 512 = page / 512 ^ (level + 1) := by
  rw [Nat.div_div_eq_div_mul, ← Nat.pow_succ]

/-- The region of a page one level down follows from its region and index. -/
theorem region_eq (page level : Nat) :
    page / 512 ^ (level + 1) * 512 + pageTableIndex page (level + 1) = page / 512 ^ level := by
  have h := Nat.div_add_mod (page / 512 ^ level) 512
  rw [region_succ] at h
  simp only [pageTableIndex, Nat.add_sub_cancel]
  omega

namespace Tables

variable {m m' : Machine} {own own' : Nat → Option Node}

variable {table : Nat}

section

variable (h : Tables m own)

include h

/-- Every place is taken by one table at most. -/
theorem unique {table' : Nat} (hOwn : own table = some node) (hOwn' : own table' = some node)
    : table = table' := by
  obtain ⟨root, level, region⟩ := node
  have hLe := h.level_le hOwn
  simp only at hLe
  -- The induction goes up to the root, whose frame its place names.
  induction hGap : 4 - level generalizing table table' level region with
  | zero =>
    obtain rfl : level = 4 := by omega
    exact (h.top hOwn).1.trans (h.top hOwn').1.symm
  | succ gap ih =>
    obtain ⟨parent, hParent, -, hFrame⟩ := h.up hOwn (by omega)
    obtain ⟨parent', hParent', -, hFrame'⟩ := h.up hOwn' (by omega)
    obtain rfl := ih (level + 1) (region / 512) hParent hParent' (by omega) (by omega)
    exact hFrame.symm.trans hFrame'

/-- Above every table stand the tables of the larger regions around its own. -/
theorem ancestor (hOwn : own table = some ⟨root, level, region⟩) (above : Nat)
    (hAbove : level + above ≤ 4) :
    ∃ table', own table' = some ⟨root, level + above, region / 512 ^ above⟩ := by
  induction above with
  | zero => exact ⟨table, by simpa using hOwn⟩
  | succ above ih =>
    obtain ⟨table', hOwn'⟩ := ih (by omega)
    obtain ⟨parent, hParent, -⟩ := h.up hOwn' (by omega)
    exact ⟨parent, by rwa [region_succ] at hParent⟩

/-- All tables of a tree lie below its root, which is one of them. -/
theorem root_own (hOwn : own table = some node) :
    own node.root = some ⟨node.root, 4, 0⟩ ∧ node.Under node.root 4 0 := by
  obtain ⟨root, level, region⟩ := node
  have hLe := h.level_le hOwn
  simp only at hLe ⊢
  obtain ⟨top, hTop⟩ := h.ancestor hOwn (4 - level) (by omega)
  rw [show level + (4 - level) = 4 by omega] at hTop
  obtain ⟨hEq, hRegion⟩ := h.top hTop
  rw [hEq, hRegion] at hTop
  exact ⟨hTop, rfl, hLe, hRegion⟩

/-- The region of a table of a page can only be reached through the entries
for the page. -/
theorem child {child : Nat} (hOwn : own table = some ⟨root, level + 2, page / 512 ^ (level + 2)⟩)
    (hChild : own child = some ⟨root, level + 1, page / 512 ^ (level + 1)⟩) :
    m.read table (pageTableIndex page (level + 2)) ≠ unused ∧
      (m.read table (pageTableIndex page (level + 2))).frame = child := by
  have hLe := h.level_le hOwn
  simp only at hLe
  obtain ⟨parent, hParent, hUsed, hFrame⟩ := h.up hChild (by omega)
  rw [region_succ] at hParent
  obtain rfl := h.unique hOwn hParent
  exact ⟨hUsed, hFrame⟩

theorem leafEntry_of_own {leaf : Nat}
    (hOwn : own table = some ⟨root, level + 1, page / 512 ^ (level + 1)⟩)
    (hLeaf : own leaf = some ⟨root, 1, page / 512⟩) :
    leafEntry m (level + 1) table page = m.read leaf (page % 512) := by
  induction level generalizing table with
  | zero =>
    obtain rfl := h.unique hOwn (by simpa using hLeaf)
    simp [leafEntry]
  | succ level ih =>
    have hLe := h.level_le hOwn
    simp only at hLe
    obtain ⟨child, hChild⟩ : ∃ child, own child = some ⟨root, level + 1, page / 512 ^ (level + 1)⟩ := by
      obtain ⟨child, hChild⟩ := h.ancestor hLeaf level (by omega)
      rw [Nat.div_div_eq_div_mul, ← Nat.pow_succ', Nat.add_comm 1 level] at hChild
      exact ⟨child, hChild⟩
    obtain ⟨hUsed, hFrame⟩ := h.child hOwn hChild
    simp only [leafEntry, hFrame, ih hChild]
    simp [hUsed]

theorem leafEntry_of_absent (hOwn : own table = some ⟨root, level + 1, page / 512 ^ (level + 1)⟩)
    (hAbsent : ∀ leaf, own leaf ≠ some ⟨root, 1, page / 512⟩) :
    leafEntry m (level + 1) table page = unused := by
  induction level generalizing table with
  | zero => exact absurd (by simpa using hOwn) (hAbsent table)
  | succ level ih =>
    simp only [leafEntry]
    split
    · rfl
    case isFalse hUsed =>
      refine ih ?_
      have hDown := h.down hOwn (pageTableIndex_lt page (level + 2)) (by simpa using hUsed)
      rwa [region_eq] at hDown

/-- A change that spares the tables above level 1 keeps the assignment. -/
theorem congr (hSound : m'.Sound) (hFree : ∀ table node, own table = some node → table ∉ m'.freeSet)
    (hRead : ∀ table node, own table = some node → 2 ≤ node.level → ∀ index,
      m'.read table index = m.read table index) : Tables m' own where
  sound := hSound
  not_free hOwn := hFree _ _ hOwn
  nonzero := h.nonzero
  level_pos := h.level_pos
  level_le := h.level_le
  top := h.top
  down hOwn hIndex hUsed := by
    rw [hRead _ _ hOwn (by simp)] at hUsed ⊢
    exact h.down hOwn hIndex hUsed
  up hOwn hLevel := by
    obtain ⟨parent, hParent, hUsed, hFrame⟩ := h.up hOwn hLevel
    have hPos := h.level_pos hOwn
    simp only at hPos
    refine ⟨parent, hParent, ?_⟩
    rw [hRead _ _ hParent (by simp only; omega)]
    exact ⟨hUsed, hFrame⟩

/-- A new, cleared table behind an unused entry. -/
theorem attach {frame : Nat} (flags : PageTableFlags)
    (hOwn : own table = some ⟨root, level + 2, region⟩) (hIndex : index < 512)
    (hUnused : m.read table index = unused) (hAlloc : Machine.Allocated m {frame} m₁) :
    Tables ((m₁.write table index ⟨frame, flags⟩).zero frame)
      (Function.update own frame (some ⟨root, level + 1, region * 512 + index⟩)) := by
  have hFrame : frame ∈ m.freeSet := hAlloc.free rfl
  have hNone : own frame = none := by
    cases hOwn' : own frame with
    | none => rfl
    | some node => exact absurd hFrame (h.not_free hOwn')
  have hNonzero : frame ≠ 0 := fun hEq => h.sound.zero_not_free (hEq ▸ hFrame)
  have hLe := h.level_le hOwn
  simp only at hLe
  have hRead : ∀ {table' node}, own table' = some node → ∀ i,
      ((m₁.write table index ⟨frame, flags⟩).zero frame).read table' i =
        if table' = table ∧ i = index then ⟨frame, flags⟩ else m.read table' i := by
    intro table' node hOwn' i
    have hNe : table' ≠ frame := fun hEq => by simp [hEq, hNone] at hOwn'
    simp [hNe, hAlloc.read_eq table' (h.not_free hOwn')]
  refine ⟨(hAlloc.sound.write _ _ _).zero _, ?_, ?_, ?_, ?_, ?_, ?_, ?_⟩
  · intro table' node hOwn'
    simp only [Machine.freeSet_zero, Machine.freeSet_write, hAlloc.freeSet_eq]
    rw [Function.update_apply] at hOwn'
    split at hOwn'
    case isTrue hEq => simp [hEq]
    case isFalse hNe => exact fun hMem => h.not_free hOwn' hMem.1
  · intro table' node hOwn'
    rw [Function.update_apply] at hOwn'
    split at hOwn'
    case isTrue hEq => rwa [hEq]
    case isFalse hNe => exact h.nonzero hOwn'
  · intro table' node hOwn'
    rw [Function.update_apply] at hOwn'
    split at hOwn'
    case isTrue hEq => simp [← Option.some.inj hOwn']
    case isFalse hNe => exact h.level_pos hOwn'
  · intro table' node hOwn'
    rw [Function.update_apply] at hOwn'
    split at hOwn'
    case isTrue hEq => simp only [← Option.some.inj hOwn']; omega
    case isFalse hNe => exact h.level_le hOwn'
  · intro table' root' region' hOwn'
    rw [Function.update_apply] at hOwn'
    split at hOwn'
    case isTrue hEq => simp only [Option.some.injEq, Node.mk.injEq] at hOwn'; omega
    case isFalse hNe => exact h.top hOwn'
  · intro table' root' level' region' i hOwn' hi hUsed
    rw [Function.update_apply] at hOwn'
    split at hOwn'
    case isTrue hEq => simp [hEq] at hUsed
    case isFalse hNe =>
      rw [hRead hOwn'] at hUsed ⊢
      split
      case isTrue => grind
      case isFalse hSlot =>
        rw [if_neg hSlot] at hUsed
        have hDown := h.down hOwn' hi hUsed
        rw [Function.update_of_ne]
        · exact hDown
        · intro hEq
          simp [hEq, hNone] at hDown
  · intro table' root' level' region' hOwn' hLevel
    rw [Function.update_apply] at hOwn'
    split at hOwn'
    case isTrue hEq =>
      simp only [Option.some.injEq, Node.mk.injEq] at hOwn'
      obtain ⟨rfl, rfl, rfl⟩ := hOwn'
      have hNe : table ≠ frame := fun hEq' => by simp [hEq', hNone] at hOwn
      refine ⟨table, ?_, ?_⟩
      · rw [Function.update_of_ne hNe, hOwn]
        congr 2
        omega
      · rw [hRead hOwn, if_pos ⟨rfl, by omega⟩]
        exact ⟨fun hZero => hNonzero (congrArg PageTableEntry.frame hZero), hEq.symm⟩
    case isFalse hNe =>
      obtain ⟨parent, hParent, hUsed, hFrame'⟩ := h.up hOwn' hLevel
      have hNe : parent ≠ frame := fun hEq' => by simp [hEq', hNone] at hParent
      refine ⟨parent, by rwa [Function.update_of_ne hNe], ?_⟩
      rw [hRead hParent, if_neg]
      · exact ⟨hUsed, hFrame'⟩
      · rintro ⟨rfl, hSlot⟩
        exact hUsed (hSlot ▸ hUnused)

/-- An empty table is taken out of the tree and given back. -/
theorem detach {child : Nat} (hOwn : own table = some ⟨root, level + 2, region⟩)
    (hIndex : index < 512) (hChild : own child = some ⟨root, level + 1, region * 512 + index⟩)
    (hEmpty : ∀ i < 512, m.read child i = unused) (hFreed : Machine.Freed m {child} m₁) :
    Tables (m₁.write table index unused) (Function.update own child none) := by
  have hOwn' : ∀ {table' node}, Function.update own child none table' = some node →
      table' ≠ child ∧ own table' = some node := by grind
  have hNotFree : ∀ {table' node}, table' ≠ child → own table' = some node →
      table' ∉ m₁.freeSet := by
    intro table' node hNe hSome
    rw [hFreed.freeSet_eq]
    exact fun hMem => hMem.elim hNe (h.not_free hSome)
  have hRead : ∀ {table' node}, table' ≠ child → own table' = some node → ∀ i,
      (m₁.write table index unused).read table' i =
        if table' = table ∧ i = index then unused else m.read table' i := by
    intro table' node hNe hSome i
    simp [hFreed.read_eq table' (hNotFree hNe hSome)]
  refine ⟨hFreed.sound.write _ _ _, ?_, ?_, ?_, ?_, ?_, ?_, ?_⟩
  · intro table' node hSome
    exact hNotFree (hOwn' hSome).1 (hOwn' hSome).2
  · intro table' node hSome
    exact h.nonzero (hOwn' hSome).2
  · intro table' node hSome
    exact h.level_pos (hOwn' hSome).2
  · intro table' node hSome
    exact h.level_le (hOwn' hSome).2
  · intro table' root' region' hSome
    exact h.top (hOwn' hSome).2
  · intro table' root' level' region' i hSome hi hUsed
    obtain ⟨hNe, hSome⟩ := hOwn' hSome
    rw [hRead hNe hSome] at hUsed ⊢
    split at hUsed
    · exact absurd rfl hUsed
    case isFalse hSlot =>
      rw [if_neg hSlot]
      have hDown := h.down hSome hi hUsed
      rw [Function.update_of_ne]
      · exact hDown
      · -- Only one entry leads to the child.
        intro hEq
        rw [hEq, hChild] at hDown
        simp only [Option.some.injEq, Node.mk.injEq] at hDown
        obtain ⟨rfl, hLevel, hRegion⟩ := hDown
        obtain rfl : level = level' := by omega
        obtain rfl : region = region' := by omega
        exact hSlot ⟨h.unique hSome hOwn, by omega⟩
  · intro table' root' level' region' hSome hLevel
    obtain ⟨hNe, hSome⟩ := hOwn' hSome
    obtain ⟨parent, hParent, hUsed, hFrame⟩ := h.up hSome hLevel
    have hParentNe : parent ≠ child := by
      rintro rfl
      exact hUsed (hEmpty _ (Nat.mod_lt _ (by decide)))
    refine ⟨parent, by rwa [Function.update_of_ne hParentNe], ?_⟩
    rw [hRead hParentNe hParent, if_neg]
    · exact ⟨hUsed, hFrame⟩
    · rintro ⟨rfl, hSlot⟩
      have hDown := h.down hOwn hIndex (hSlot ▸ hUsed)
      rw [← hSlot, hFrame] at hDown
      rw [← hSlot] at hChild
      exact hNe (h.unique hDown hChild)

end

end Tables

/-- The entry for a page in the tree below a root. -/
def entryAt (m : Machine) (root page : Nat) : PageTableEntry := leafEntry m 4 root page

namespace Tables

variable {m m' : Machine} {own own' : Nat → Option Node}

theorem entryAt_of_own (h : Tables m own) {leaf : Nat}
    (hLeaf : own leaf = some ⟨root, 1, page / 512⟩) :
    entryAt m root page = m.read leaf (page % 512) := by
  obtain ⟨top, hTop⟩ := h.ancestor hLeaf 3 (by decide)
  obtain ⟨rfl, -⟩ := h.top hTop
  rw [Nat.div_div_eq_div_mul, ← Nat.pow_succ'] at hTop
  exact h.leafEntry_of_own hTop hLeaf

theorem entryAt_of_absent (h : Tables m own) (hRoot : own root = some ⟨root, 4, 0⟩)
    (hPage : page < 512 ^ 4) (hAbsent : ∀ leaf, own leaf ≠ some ⟨root, 1, page / 512⟩) :
    entryAt m root page = unused :=
  h.leafEntry_of_absent (by rwa [Nat.div_eq_of_lt hPage]) hAbsent

/-- Two states agree on a page if they agree on its level 1 table, where a
table that only one of them has holds no entry for it. -/
theorem entryAt_congr (h : Tables m own) (h' : Tables m' own')
    (hRoot : own root = some ⟨root, 4, 0⟩) (hRoot' : own' root = some ⟨root, 4, 0⟩)
    (hPage : page < 512 ^ 4) (hOld : ∀ leaf, own leaf = some ⟨root, 1, page / 512⟩ →
      own' leaf = some ⟨root, 1, page / 512⟩ ∧
        m'.read leaf (page % 512) = m.read leaf (page % 512))
    (hNew : ∀ leaf, own' leaf = some ⟨root, 1, page / 512⟩ →
      own leaf = some ⟨root, 1, page / 512⟩ ∨ m'.read leaf (page % 512) = unused) :
    entryAt m' root page = entryAt m root page := by
  by_cases hLeaf : ∃ leaf, own leaf = some ⟨root, 1, page / 512⟩
  · obtain ⟨leaf, hLeaf⟩ := hLeaf
    rw [h.entryAt_of_own hLeaf, h'.entryAt_of_own (hOld leaf hLeaf).1, (hOld leaf hLeaf).2]
  · have hAbsent := not_exists.mp hLeaf
    rw [h.entryAt_of_absent hRoot hPage hAbsent]
    by_cases hLeaf' : ∃ leaf, own' leaf = some ⟨root, 1, page / 512⟩
    · obtain ⟨leaf, hLeaf'⟩ := hLeaf'
      rw [h'.entryAt_of_own hLeaf']
      exact (hNew leaf hLeaf').resolve_left (hAbsent leaf)
    · exact h'.entryAt_of_absent hRoot' hPage (not_exists.mp hLeaf')

/-- There are no tables yet. -/
theorem ofSound (h : m.Sound) : Tables m fun _ => none := by
  refine ⟨h, ?_, ?_, ?_, ?_, ?_, ?_, ?_⟩ <;> simp

/-- A new root: an empty tree of its own. -/
theorem newRoot (h : Tables m own) {frame : Nat} (hAlloc : Machine.Allocated m {frame} m₁) :
    Tables (m₁.zero frame) (Function.update own frame (some ⟨frame, 4, 0⟩)) := by
  have hFrame : frame ∈ m.freeSet := hAlloc.free rfl
  have hCases : ∀ {table node}, Function.update own frame (some ⟨frame, 4, 0⟩) table = some node →
      table = frame ∧ node = ⟨frame, 4, 0⟩ ∨ table ≠ frame ∧ own table = some node := by grind
  have hNe : ∀ {table node}, own table = some node → table ≠ frame :=
    fun hOwn hEq => h.not_free hOwn (hEq ▸ hFrame)
  have hKeep : ∀ {table node}, own table = some node →
      Function.update own frame (some ⟨frame, 4, 0⟩) table = some node :=
    fun hOwn => by rwa [Function.update_of_ne (hNe hOwn)]
  have hRead : ∀ {table node}, own table = some node → ∀ index,
      (m₁.zero frame).read table index = m.read table index := by
    intro table node hOwn index
    rw [Machine.read_zero, if_neg (hNe hOwn), hAlloc.read_eq table (h.not_free hOwn)]
  refine ⟨hAlloc.sound.zero _, ?_, ?_, ?_, ?_, ?_, ?_, ?_⟩
  · intro table node hSome
    rw [Machine.freeSet_zero, hAlloc.freeSet_eq]
    rcases hCases hSome with ⟨rfl, -⟩ | ⟨-, hOwn⟩
    · simp
    · exact fun hMem => h.not_free hOwn hMem.1
  · intro table node hSome
    rcases hCases hSome with ⟨rfl, -⟩ | ⟨-, hOwn⟩
    · exact fun hZero => h.sound.zero_not_free (hZero ▸ hFrame)
    · exact h.nonzero hOwn
  · intro table node hSome
    rcases hCases hSome with ⟨-, rfl⟩ | ⟨-, hOwn⟩
    · simp
    · exact h.level_pos hOwn
  · intro table node hSome
    rcases hCases hSome with ⟨-, rfl⟩ | ⟨-, hOwn⟩
    · simp
    · exact h.level_le hOwn
  · intro table root region hSome
    rcases hCases hSome with ⟨rfl, hNode⟩ | ⟨-, hOwn⟩
    · obtain ⟨rfl, rfl⟩ : root = table ∧ region = 0 := by simpa using hNode
      exact ⟨rfl, rfl⟩
    · exact h.top hOwn
  · intro table root level region index hSome hIndex hUsed
    rcases hCases hSome with ⟨rfl, -⟩ | ⟨-, hOwn⟩
    · simp at hUsed
    · rw [hRead hOwn] at hUsed ⊢
      exact hKeep (h.down hOwn hIndex hUsed)
  · intro table root level region hSome hLevel
    rcases hCases hSome with ⟨-, hNode⟩ | ⟨-, hOwn⟩
    · simp only [Node.mk.injEq] at hNode
      omega
    · obtain ⟨parent, hParent, hRest⟩ := h.up hOwn hLevel
      exact ⟨parent, hKeep hParent, by rwa [hRead hParent]⟩

end Tables

/-- `Paging::new`: a root of its own. -/
theorem new_spec {m : Machine} {own : Nat → Option Node} (h : Tables m own) (depth : Nat) :
    Yields False (Paging.new m depth) fun (paging, m') => paging.depth = depth ∧
      paging.rootTable ∈ m.freeSet ∧ Tables m' (Function.update own paging.rootTable
        (some ⟨paging.rootTable, 4, 0⟩)) := by
  refine (Machine.alloc_one h.sound).bind ?_
  rintro ⟨range, m₁⟩ hAlloc
  exact Yields.pure ⟨rfl, hAlloc.free rfl, h.newRoot hAlloc⟩

end D3OS.Memory
