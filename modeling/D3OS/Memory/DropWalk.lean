import D3OS.Memory.Tables

/-! What `drop_table` does: the tables of the subtree are given back, each
once, and nothing else is. The tree as it is before the call stays the
reference throughout, since a table is read before it is given back. -/
namespace D3OS.Memory

open PageTableEntry (unused)
open Outcome (Yields)
open Paging

/-- The tables in `gone` have been given back; those that are left hold what
they held in `m`. -/
structure Dropped (m : Machine) (own : Nat → Option Node) (gone : Set Nat) (m' : Machine) :
    Prop where
  sound : m'.Sound
  mem_freeSet : ∀ frame, frame ∈ m'.freeSet ↔ frame ∈ m.freeSet ∨ frame ∈ gone
  read_eq : ∀ table node, own table = some node → table ∉ gone → ∀ index,
    m'.read table index = m.read table index
  physLimit_eq : m'.frames.physLimit = m.frames.physLimit

/-- The tables of a subtree. -/
def subtree (own : Nat → Option Node) (root level region : Nat) : Set Nat :=
  {table | ∃ node, own table = some node ∧ node.Under root level region}

variable {m : Machine} {own : Nat → Option Node} {first root region table : Nat}

/-- The tables of a subtree are those of the subtrees behind the entries of
its first table, and that table. -/
theorem Tables.mem_subtree_succ (h : Tables m own) {level : Nat}
    (hOwn : own first = some ⟨root, level + 2, region⟩) :
    table ∈ subtree own root (level + 2) region ↔ table = first ∨
      ∃ index < 512, table ∈ subtree own root (level + 1) (region * 512 + index) := by
  constructor
  · rintro ⟨⟨root', level', region'⟩, hTable, rfl, hLevel, hRegion⟩
    simp only at hLevel hRegion hTable
    by_cases hEq : level' = level + 2
    · subst hEq
      rw [Nat.sub_self, Nat.pow_zero, Nat.div_one] at hRegion
      subst hRegion
      exact .inl (h.unique hTable hOwn)
    · refine .inr ⟨region' / 512 ^ (level + 1 - level') % 512, Nat.mod_lt _ (by decide), _, hTable,
        rfl, by simp only; omega, ?_⟩
      simp only
      rw [show level + 2 - level' = level + 1 - level' + 1 by omega, ← region_succ] at hRegion
      omega
  · rintro (rfl | ⟨index, hIndex, node, hTable, hUnder⟩)
    · exact ⟨_, hOwn, Node.under_self _ _ _⟩
    · exact ⟨node, hTable, hUnder.parent hIndex⟩

theorem Tables.mem_subtree_one (h : Tables m own) (hOwn : own first = some ⟨root, 1, region⟩) :
    table ∈ subtree own root 1 region ↔ table = first := by
  constructor
  · rintro ⟨⟨root', level', region'⟩, hTable, rfl, hLevel, hRegion⟩
    have hPos := h.level_pos hTable
    simp only at hPos hLevel hRegion
    obtain rfl : level' = 1 := by omega
    rw [Nat.sub_self, Nat.pow_zero, Nat.div_one] at hRegion
    subst hRegion
    exact h.unique hTable hOwn
  · rintro rfl
    exact ⟨_, hOwn, Node.under_self _ _ _⟩

/-- A subtree behind an entry exists only if the entry is used. -/
theorem Tables.used_of_subtree (h : Tables m own) {level index : Nat} (hIndex : index < 512)
    (hOwn : own first = some ⟨root, level + 2, region⟩)
    (hTable : table ∈ subtree own root (level + 1) (region * 512 + index)) :
    m.read first index ≠ unused := by
  obtain ⟨⟨root', level', region'⟩, hTable, rfl, hLevel, hRegion⟩ := hTable
  have hLe := h.level_le hOwn
  simp only at hLevel hRegion hTable hLe
  obtain ⟨child, hChild⟩ := h.ancestor hTable (level + 1 - level') (by omega)
  rw [show level' + (level + 1 - level') = level + 1 by omega, hRegion] at hChild
  obtain ⟨parent, hParent, hUsed, -⟩ := h.up hChild (by omega)
  rw [show (region * 512 + index) / 512 = region by omega] at hParent
  obtain rfl := h.unique hOwn hParent
  rwa [show (region * 512 + index) % 512 = index by omega] at hUsed

/-- The tables in the subtrees behind the first entries of a table. -/
def behind (own : Nat → Option Node) (root level region count : Nat) : Set Nat :=
  {table | ∃ index < count, table ∈ subtree own root level (region * 512 + index)}

section

variable {own : Nat → Option Node} {root level region : Nat}

theorem behind_zero : behind own root level region 0 = ∅ := by
  simp [behind]

theorem behind_succ (count : Nat) :
    behind own root level region (count + 1) =
      behind own root level region count ∪ subtree own root level (region * 512 + count) := by
  ext table
  constructor
  · rintro ⟨index, hIndex, hMem⟩
    obtain hLt | rfl := Nat.lt_succ_iff_lt_or_eq.mp hIndex
    · exact .inl ⟨index, hLt, hMem⟩
    · exact .inr hMem
  · rintro (⟨index, hIndex, hMem⟩ | hMem)
    · exact ⟨index, Nat.lt_succ_of_lt hIndex, hMem⟩
    · exact ⟨count, Nat.lt_succ_self count, hMem⟩

theorem not_mem_behind {count : Nat} (hOwn : own table = some ⟨root, level + 1, region⟩) :
    table ∉ behind own root level region count := by
  rintro ⟨index, -, node, hOwn', -, hLevel, -⟩
  obtain rfl : node = ⟨root, level + 1, region⟩ := by simpa [hOwn] using hOwn'.symm
  exact absurd hLevel (Nat.not_succ_le_self level)

theorem not_mem_behind_of_subtree {count : Nat}
    (hMem : table ∈ subtree own root level (region * 512 + count)) :
    table ∉ behind own root level region count := by
  obtain ⟨node, hOwn, hUnder⟩ := hMem
  rintro ⟨index, hIndex, node', hOwn', hUnder'⟩
  obtain rfl : node = node' := by simpa [hOwn] using hOwn'
  exact absurd (hUnder'.index_eq hUnder) (Nat.ne_of_lt hIndex)

/-- Nothing lies behind an unused entry. -/
theorem Tables.behind_succ_of_unused (h : Tables m own) {index : Nat} (hIndex : index < 512)
    (hOwn : own first = some ⟨root, level + 2, region⟩) (hUnused : m.read first index = unused) :
    behind own root (level + 1) region (index + 1) = behind own root (level + 1) region index := by
  rw [behind_succ, Set.union_eq_left]
  intro table hMem
  exact absurd hUnused (h.used_of_subtree hIndex hOwn hMem)

theorem Tables.subtree_succ (h : Tables m own) (hOwn : own first = some ⟨root, level + 2, region⟩) :
    subtree own root (level + 2) region = insert first (behind own root (level + 1) region 512) :=
  Set.ext fun _ => h.mem_subtree_succ hOwn

theorem Tables.subtree_one (h : Tables m own) (hOwn : own first = some ⟨root, 1, region⟩) :
    subtree own root 1 region = {first} :=
  Set.ext fun _ => h.mem_subtree_one hOwn

end

namespace Dropped

variable {m m' : Machine} {own : Nat → Option Node} {gone : Set Nat}

/-- One more table is cleared and given back. -/
theorem freeTable (h : Tables m own) (hDropped : Dropped m own gone m') {node : Node}
    (hOwn : own table = some node) (hHere : table ∉ gone) :
    Yields True ((m'.zero table).free ⟨table, table + 1⟩) fun m'' =>
      Dropped m own (insert table gone) m'' := by
  have hNotFree : table ∉ (m'.zero table).freeSet := by
    rw [Machine.freeSet_zero, hDropped.mem_freeSet]
    exact fun hMem => hMem.elim (h.not_free hOwn) hHere
  obtain ⟨m'', hOk, hFreed⟩ :=
    Machine.free_one (hDropped.sound.zero table) hNotFree (h.nonzero hOwn)
  have hMem : ∀ frame, frame ∈ m''.freeSet ↔ frame ∈ m.freeSet ∨ frame ∈ insert table gone := by
    intro frame
    rw [hFreed.freeSet_eq, Set.mem_union, Machine.freeSet_zero, hDropped.mem_freeSet,
      Set.mem_insert_iff, Set.mem_singleton_iff]
    tauto
  rw [hOk]
  refine Yields.ok ⟨hFreed.sound, hMem, ?_, hFreed.physLimit_eq.trans hDropped.physLimit_eq⟩
  intro table' node' hOwn' hNot index
  have hNe : table' ≠ table := fun hEq => hNot (hEq ▸ Set.mem_insert _ _)
  rw [hFreed.read_eq table' fun hFree =>
    ((hMem table').mp hFree).elim (h.not_free hOwn') hNot, Machine.read_zero, if_neg hNe]
  exact hDropped.read_eq table' node' hOwn' (fun hGone => hNot (Set.mem_insert_of_mem _ hGone)) index

end Dropped

/-- `drop_table` gives back the tables of the subtree. -/
theorem dropTable_spec (level : Nat) {m' : Machine} (h : Tables m own) {gone : Set Nat}
    (hDropped : Dropped m own gone m') (hOwn : own table = some ⟨root, level + 1, region⟩)
    (hHere : ∀ table' ∈ subtree own root (level + 1) region, table' ∉ gone) :
    Yields True (dropTable (level + 1) m' table) fun m'' =>
      Dropped m own (gone ∪ subtree own root (level + 1) region) m'' := by
  have hTable : table ∉ gone := hHere table ⟨_, hOwn, Node.under_self _ _ _⟩
  induction level generalizing m' gone table region with
  | zero =>
    rw [h.subtree_one hOwn, Set.union_singleton]
    exact hDropped.freeTable h hOwn hTable
  | succ level ih =>
    -- Before entry `i` the subtrees behind the entries before it are gone.
    have hTableHere : ∀ i, table ∉ gone ∪ behind own root (level + 1) region i :=
      fun i hMem => hMem.elim hTable (not_mem_behind hOwn)
    rw [h.subtree_succ hOwn, Set.union_insert]
    refine (Yields.forIn_range' (fun i => Dropped m own (gone ∪ behind own root (level + 1) region i))
      (Dropped m own (gone ∪ behind own root (level + 1) region 512)) ?_ ?_ ?_).bind ?_
    · rwa [behind_zero, Set.union_empty]
    · intro i mᵢ _ hi hInv
      rw [Nat.zero_add] at hi
      simp only [hInv.read_eq table _ hOwn (hTableHere i)]
      by_cases hUsed : m.read table i = unused
      · rw [if_pos (by rw [hUsed]; rfl)]
        refine Yields.pure ?_
        rwa [h.behind_succ_of_unused hi hOwn hUsed]
      · have hChild := h.down hOwn hi hUsed
        have hChildHere : ∀ table' ∈ subtree own root (level + 1) (region * 512 + i),
            table' ∉ gone ∪ behind own root (level + 1) region i := by
          rintro table' hMem (hGone | hBehind)
          · exact hHere table' ((h.mem_subtree_succ hOwn).mpr (.inr ⟨i, hi, hMem⟩)) hGone
          · exact not_mem_behind_of_subtree hMem hBehind
        rw [if_neg (h.nonzero hChild)]
        refine (ih hInv hChild hChildHere (hChildHere _ ⟨_, hChild, Node.under_self _ _ _⟩)).bind ?_
        intro m'' hBelow
        refine Yields.pure ?_
        rwa [behind_succ, ← Set.union_assoc]
    · exact fun m'' hInv => by rwa [Nat.zero_add] at hInv
    · exact fun m'' hInv => hInv.freeTable h hOwn (hTableHere 512)

/-- An assignment without the tables of one tree. -/
def without (own : Nat → Option Node) (root : Nat) : Nat → Option Node :=
  fun table => (own table).filter fun node => node.root ≠ root

theorem without_eq_some {node : Node} :
    without own root table = some node ↔ own table = some node ∧ node.root ≠ root := by
  simp [without, Option.filter_eq_some_iff]

/-- The other trees survive when a whole tree is given back. -/
theorem Dropped.tables {m' : Machine} (h : Tables m own)
    (hDropped : Dropped m own (subtree own root 4 0) m') : Tables m' (without own root) := by
  have hHere : ∀ {table node}, without own root table = some node →
      own table = some node ∧ table ∉ subtree own root 4 0 := by
    intro table node hSome
    obtain ⟨hOwn, hRoot⟩ := without_eq_some.mp hSome
    refine ⟨hOwn, ?_⟩
    rintro ⟨node', hOwn', hUnder⟩
    obtain rfl : node = node' := by simpa [hOwn] using hOwn'
    exact hRoot hUnder.1
  have hRead : ∀ {table node}, without own root table = some node → ∀ index,
      m'.read table index = m.read table index :=
    fun hSome index => hDropped.read_eq _ _ (hHere hSome).1 (hHere hSome).2 index
  refine ⟨hDropped.sound, ?_, fun hSome => h.nonzero (hHere hSome).1,
    fun hSome => h.level_pos (hHere hSome).1, fun hSome => h.level_le (hHere hSome).1,
    fun hSome => h.top (hHere hSome).1, ?_, ?_⟩
  · intro table node hSome hFree
    exact ((hDropped.mem_freeSet table).mp hFree).elim (h.not_free (hHere hSome).1) (hHere hSome).2
  · intro table root' level region index hSome hIndex hUsed
    rw [hRead hSome] at hUsed ⊢
    exact without_eq_some.mpr ⟨h.down (hHere hSome).1 hIndex hUsed, (without_eq_some.mp hSome).2⟩
  · intro table root' level region hSome hLevel
    obtain ⟨parent, hParent, hRest⟩ := h.up (hHere hSome).1 hLevel
    have hParent' := without_eq_some.mpr ⟨hParent, (without_eq_some.mp hSome).2⟩
    exact ⟨parent, hParent', by rwa [hRead hParent']⟩

namespace Paging

/-- The frames of a table and of all tables below it. -/
def tablesBelow (m : Machine) : Nat → Nat → List Nat
  | level + 2, table =>
    table :: (List.range 512).flatMap fun index =>
      let entry := m.read table index
      if entry.isUnused then [] else tablesBelow m (level + 1) entry.frame
  | _, table => [table]

/-- The frames that hold the tables of an address space. -/
def tables (self : Paging) (m : Machine) : List Nat := tablesBelow m self.depth self.rootTable

end Paging

theorem mem_tablesBelow (h : Tables m own) (level : Nat)
    (hOwn : own table = some ⟨root, level + 1, region⟩) (frame : Nat) :
    frame ∈ tablesBelow m (level + 1) table ↔ frame ∈ subtree own root (level + 1) region := by
  induction level generalizing table region with
  | zero => simp [tablesBelow, h.mem_subtree_one hOwn]
  | succ level ih =>
    rw [h.mem_subtree_succ hOwn]
    simp only [tablesBelow, List.mem_cons, List.mem_flatMap, List.mem_range]
    refine or_congr_right (exists_congr fun index => and_congr_right fun hIndex => ?_)
    by_cases hUsed : m.read table index = unused
    · simp only [hUsed, PageTableEntry.isUnused_iff, if_true, List.not_mem_nil, false_iff]
      exact fun hMem => h.used_of_subtree hIndex hOwn hMem hUsed
    · simp only [PageTableEntry.isUnused_iff, hUsed, if_false]
      exact ih (h.down hOwn hIndex hUsed)

end D3OS.Memory
