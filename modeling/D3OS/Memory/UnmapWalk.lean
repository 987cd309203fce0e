import D3OS.Memory.MapWalk

/-! What `unmap_in_table` does to the tree it works on. The pages whose
entries the walk reaches are computed from the tree as it is before the call,
the way the walk goes on with a stale `pages.start` behind unused entries.
Their entries become unused, their frames are given back if that is asked
for, and so are the tables that run empty. -/
namespace D3OS.Memory

open PageTableEntry (unused)
open Outcome
open Paging

/-- The pages visited behind a list of entries, and their number. `visit`
tells what lies behind an entry, if it is used. -/
def visitEntries (visit : Nat → Nat → Option (List Nat × Nat)) (stop : Nat) :
    List Nat → Nat → List Nat × Nat
  | [], _ => ([], 0)
  | index :: rest, start =>
    match visit index start with
    | none => visitEntries visit stop rest start
    | some (pages, count) =>
      if start + count ≥ stop then (pages, count)
      else
        let (more, count') := visitEntries visit stop rest (start + count)
        (pages ++ more, count + count')

/-- The pages whose entries a walk of `unmap_in_table` or
`set_flags_in_table` reaches below a table, and the number it returns. -/
def visited (m : Machine) (stop : Nat) : Nat → Nat → Nat → Nat → List Nat × Nat
  | level + 2, table, region, start =>
    let startIndex := pageTableIndex start (level + 2)
    visitEntries
      (fun index start =>
        let entry := m.read table index
        if entry.isUnused then none
        else some (visited m stop (level + 1) entry.frame (region * 512 + index) start))
      stop (List.range' startIndex (512 - startIndex)) start
  | _, _, region, start =>
    let count := min (stop - start) (512 - pageTableIndex start 1)
    (List.range' (region * 512 + pageTableIndex start 1) count, count)

/-- What lies behind an entry of a table above level 1. -/
def visitEntry (m : Machine) (stop level table region index start : Nat) :
    Option (List Nat × Nat) :=
  let entry := m.read table index
  if entry.isUnused then none
  else some (visited m stop (level + 1) entry.frame (region * 512 + index) start)

theorem visited_succ (m : Machine) (stop level table region start : Nat) :
    visited m stop (level + 2) table region start =
      visitEntries (visitEntry m stop level table region) stop
        (List.range' (pageTableIndex start (level + 2)) (512 - pageTableIndex start (level + 2)))
        start := rfl

variable {stop index start count table root level region child : Nat} {pages : List Nat}
  {m m' m₂ : Machine} {own own₂ : Nat → Option Node} {freePhysical : Bool}

/-- An unused entry is passed over. -/
theorem visitEntries_skip {visit : Nat → Nat → Option (List Nat × Nat)} (hIndex : index < 512)
    (h : visit index start = none) :
    visitEntries visit stop (List.range' index (512 - index)) start =
      visitEntries visit stop (List.range' (index + 1) (512 - (index + 1))) start := by
  rw [show 512 - index = 512 - (index + 1) + 1 by omega, List.range'_succ, visitEntries, h]

/-- Behind a used entry the walk goes on unless the range is through. -/
theorem visitEntries_used {visit : Nat → Nat → Option (List Nat × Nat)} (hIndex : index < 512)
    (h : visit index start = some (pages, count)) :
    visitEntries visit stop (List.range' index (512 - index)) start =
      if start + count ≥ stop then (pages, count)
      else
        (pages ++ (visitEntries visit stop (List.range' (index + 1) (512 - (index + 1)))
            (start + count)).1,
          count + (visitEntries visit stop (List.range' (index + 1) (512 - (index + 1)))
            (start + count)).2) := by
  rw [show 512 - index = 512 - (index + 1) + 1 by omega, List.range'_succ, visitEntries, h]

theorem visitEntries_count_le {visit : Nat → Nat → Option (List Nat × Nat)} {stop size : Nat}
    (h : ∀ index start found, visit index start = some found →
      found.2 ≤ stop - start ∧ found.2 ≤ size) (indices : List Nat) (start : Nat) :
    (visitEntries visit stop indices start).2 ≤ stop - start ∧
      (visitEntries visit stop indices start).2 ≤ size * indices.length := by
  induction indices generalizing start with
  | nil => simp [visitEntries]
  | cons index rest ih =>
    have hMul : size * (rest.length + 1) = size * rest.length + size := Nat.mul_succ _ _
    simp only [visitEntries, List.length_cons]
    split
    case h_1 =>
      obtain ⟨hStop, hSize⟩ := ih start
      omega
    case h_2 => grind

/-- A walk never counts beyond the end of its range, nor beyond a region. -/
theorem visited_count_le (m : Machine) (stop level table region start : Nat) :
    (visited m stop (level + 1) table region start).2 ≤ stop - start ∧
      (visited m stop (level + 1) table region start).2 ≤ 512 ^ (level + 1) := by
  induction level generalizing table region start with
  | zero =>
    simp only [visited]
    omega
  | succ level ih =>
    rw [visited_succ]
    have hEntries := @visitEntries_count_le (visitEntry m stop level table region) stop
      (512 ^ (level + 1)) (by
        intro index start found hFound
        unfold visitEntry at hFound
        simp only at hFound
        obtain ⟨-, hFound⟩ := Option.ite_none_left_eq_some.mp hFound
        rw [← Option.some.inj hFound]
        exact ih _ _ _)
      (List.range' (pageTableIndex start (level + 2)) (512 - pageTableIndex start (level + 2)))
      start
    refine ⟨hEntries.1, hEntries.2.trans ?_⟩
    rw [List.length_range', Nat.pow_succ 512 (level + 1)]
    exact Nat.mul_le_mul_left _ (Nat.sub_le _ _)

/-- A walk from a table of the tree counts at most the pages of a space. -/
theorem Tables.visited_count_le (h : Tables m own)
    (hOwn : own table = some ⟨root, level + 1, region⟩) (stop start : Nat) :
    (visited m stop (level + 1) table region start).2 ≤ 512 ^ 4 :=
  (Memory.visited_count_le m stop level table region start).2.trans
    (Nat.pow_le_pow_right (by decide) (h.level_le hOwn))

theorem mem_visitEntries {visit : Nat → Nat → Option (List Nat × Nat)} {page : Nat}
    {indices : List Nat} (h : page ∈ (visitEntries visit stop indices start).1) :
    ∃ index ∈ indices, ∃ start' found, visit index start' = some found ∧ page ∈ found.1 := by
  induction indices generalizing start with
  | nil => simp [visitEntries] at h
  | cons index rest ih =>
    have hRest : ∀ {start'}, page ∈ (visitEntries visit stop rest start').1 →
        ∃ index' ∈ index :: rest, ∃ start' found,
          visit index' start' = some found ∧ page ∈ found.1 := by grind
    simp only [visitEntries] at h
    split at h
    case h_1 => exact hRest h
    case h_2 => grind

/-- Every visited page lies in the region of the table. -/
theorem visited_region {page : Nat} (h : page ∈ (visited m stop (level + 1) table region start).1) :
    page / 512 ^ (level + 1) = region := by
  induction level generalizing table region start with
  | zero =>
    have hIndex := pageTableIndex_lt start 1
    simp only [visited, List.mem_range'_1] at h
    omega
  | succ level ih =>
    rw [visited_succ] at h
    obtain ⟨index, hIndex, start', found, hVisit, hMem⟩ := mem_visitEntries h
    unfold visitEntry at hVisit
    simp only at hVisit
    obtain ⟨-, hVisit⟩ := Option.ite_none_left_eq_some.mp hVisit
    rw [← Option.some.inj hVisit] at hMem
    rw [← region_succ, ih hMem]
    simp only [List.mem_range'_1] at hIndex
    omega

theorem visitEntries_congr {visit visit' : Nat → Nat → Option (List Nat × Nat)} {indices : List Nat}
    (h : ∀ index ∈ indices, ∀ start, visit' index start = visit index start) (start : Nat) :
    visitEntries visit' stop indices start = visitEntries visit stop indices start := by
  induction indices generalizing start with
  | nil => rfl
  | cons index rest ih =>
    have hRest := ih fun index' hMem => h index' (List.mem_cons_of_mem index hMem)
    simp only [visitEntries, h index (by simp), hRest]

/-- A walk only depends on the tables above level 1 in its subtree. -/
theorem visited_congr (h : Tables m own) (stop level : Nat) (start : Nat)
    (hOwn : own table = some ⟨root, level + 1, region⟩)
    (hRead : ∀ table' node, own table' = some node → node.Under root (level + 1) region →
      2 ≤ node.level → ∀ index < 512, m'.read table' index = m.read table' index) :
    visited m' stop (level + 1) table region start =
      visited m stop (level + 1) table region start := by
  induction level generalizing table region start with
  | zero => rfl
  | succ level ih =>
    rw [visited_succ, visited_succ]
    refine visitEntries_congr ?_ start
    intro index hMem start'
    have hIndex : index < 512 := by
      simp only [List.mem_range'_1] at hMem
      omega
    unfold visitEntry
    rw [hRead table _ hOwn (Node.under_self _ _ _) (by simp) index hIndex]
    by_cases hUsed : m.read table index = unused
    · simp [hUsed]
    · have hChild := h.down hOwn hIndex hUsed
      simp only [PageTableEntry.isUnused_iff, hUsed, if_false]
      rw [ih start' hChild fun table' node hOwn' hUnder =>
        hRead table' node hOwn' (hUnder.parent hIndex)]

/-- The frames that the entries of some pages hold. -/
def released (m : Machine) (root : Nat) (pages : List Nat) : Set Nat :=
  {frame | ∃ page ∈ pages, entryAt m root page ≠ unused ∧ (entryAt m root page).frame = frame}

/-- The frames of these pages may be given back: each is allocated, is no
table, and is held for one of the pages only. -/
structure Releasable (m : Machine) (own : Nat → Option Node) (root : Nat) (pages : List Nat) :
    Prop where
  lt : ∀ page ∈ pages, page < 512 ^ 4
  allocated : ∀ page ∈ pages, entryAt m root page ≠ unused →
    (entryAt m root page).frame ∉ m.freeSet ∧ own (entryAt m root page).frame = none ∧
      (entryAt m root page).frame ≠ 0
  distinct : ∀ page ∈ pages, ∀ page' ∈ pages, entryAt m root page ≠ unused →
    entryAt m root page' ≠ unused →
    (entryAt m root page).frame = (entryAt m root page').frame → page = page'

/-- In the subtree for a region the entries of some pages are cleared and
empty tables are given back; `freePhysical` tells whether the frames of the
pages are given back, too. -/
structure Unmapped (root level region : Nat) (m : Machine) (own : Nat → Option Node)
    (pages : List Nat) (freePhysical : Bool) (m' : Machine) (own' : Nat → Option Node) :
    Prop where
  tables : Tables m' own'
  pages_lt : ∀ page ∈ pages, page < 512 ^ 4
  below : ∀ {table node}, own' table = some node → own table = some node
  dropped : ∀ {table node}, own table = some node → own' table = none →
    node.Under root level region ∧ node.level < level
  elsewhere : ∀ {table node}, own table = some node → ¬ node.Under root level region →
    ∀ index, m'.read table index = m.read table index
  view : ∀ page < 512 ^ 4,
    entryAt m' root page = if page ∈ pages then unused else entryAt m root page
  mem_freeSet : ∀ frame, frame ∈ m'.freeSet ↔ frame ∈ m.freeSet ∨
    (own frame ≠ none ∧ own' frame = none) ∨ (freePhysical = true ∧ frame ∈ released m root pages)
  physLimit_eq : m'.frames.physLimit = m.frames.physLimit

namespace Unmapped

variable {root level region : Nat} {m m₁ m₂ : Machine} {own own₁ own₂ : Nat → Option Node}
  {pages pages₂ : List Nat} {freePhysical : Bool}

theorem refl (root level region : Nat) (freePhysical : Bool) (h : Tables m own) :
    Unmapped root level region m own [] freePhysical m own where
  tables := h
  pages_lt := by simp
  below hOwn := hOwn
  dropped hOwn hNone := by simp [hOwn] at hNone
  elsewhere _ _ _ := rfl
  view := by simp
  mem_freeSet := by simp [released]
  physLimit_eq := rfl

theorem trans (h : Unmapped root level region m own pages freePhysical m₁ own₁)
    (h' : Unmapped root level region m₁ own₁ pages₂ freePhysical m₂ own₂) :
    Unmapped root level region m own (pages ++ pages₂) freePhysical m₂ own₂ where
  tables := h'.tables
  pages_lt := by
    intro page hMem
    exact (List.mem_append.mp hMem).elim (h.pages_lt page) (h'.pages_lt page)
  below hOwn := h.below (h'.below hOwn)
  dropped := by
    intro table node hOwn hNone
    cases hMid : own₁ table with
    | none => exact h.dropped hOwn hMid
    | some node' =>
      obtain rfl : node = node' := by simpa [hOwn] using h.below hMid
      exact h'.dropped hMid hNone
  elsewhere := by
    intro table node hOwn hUnder index
    cases hMid : own₁ table with
    | none => exact absurd (h.dropped hOwn hMid).1 hUnder
    | some node' =>
      obtain rfl : node = node' := by simpa [hOwn] using h.below hMid
      exact (h'.elsewhere hMid hUnder index).trans (h.elsewhere hOwn hUnder index)
  view := by
    intro page hPage
    rw [h'.view page hPage, h.view page hPage]
    by_cases hMem : page ∈ pages <;> simp [hMem]
  mem_freeSet := by
    intro frame
    have hReleased : frame ∈ released m root (pages ++ pages₂) ↔
        frame ∈ released m root pages ∨ frame ∈ released m₁ root pages₂ := by
      constructor
      · rintro ⟨page, hMem, hUsed, rfl⟩
        by_cases hPage : page ∈ pages
        · exact .inl ⟨page, hPage, hUsed, rfl⟩
        · have hMem₂ := (List.mem_append.mp hMem).resolve_left hPage
          have hView := h.view page (h'.pages_lt page hMem₂)
          rw [if_neg hPage] at hView
          exact .inr ⟨page, hMem₂, by rwa [hView], by rw [hView]⟩
      · rintro (⟨page, hMem, hUsed, rfl⟩ | ⟨page, hMem, hUsed, rfl⟩)
        · exact ⟨page, List.mem_append_left _ hMem, hUsed, rfl⟩
        · have hView := h.view page (h'.pages_lt page hMem)
          split at hView
          · exact absurd hView hUsed
          · rw [hView] at hUsed ⊢
            exact ⟨page, List.mem_append_right _ hMem, hUsed, rfl⟩
    have hOwn : (own frame ≠ none ∧ own₂ frame = none) ↔
        (own frame ≠ none ∧ own₁ frame = none) ∨ (own₁ frame ≠ none ∧ own₂ frame = none) := by
      have hBelow : own₁ frame ≠ none → own frame ≠ none := by
        intro hSome
        obtain ⟨node, hNode⟩ := Option.ne_none_iff_exists'.mp hSome
        simp [h.below hNode]
      have hBelow₂ : own₂ frame ≠ none → own₁ frame ≠ none := by
        intro hSome
        obtain ⟨node, hNode⟩ := Option.ne_none_iff_exists'.mp hSome
        simp [h'.below hNode]
      tauto
    rw [h'.mem_freeSet, h.mem_freeSet, hReleased, hOwn, and_or_left]
    simp only [or_assoc, or_left_comm]
  physLimit_eq := h'.physLimit_eq.trans h.physLimit_eq

/-- What happens below an entry happens below the table. -/
theorem widen (hIndex : index < 512)
    (h : Unmapped root level (region * 512 + index) m own pages freePhysical m₁ own₁) :
    Unmapped root (level + 1) region m own pages freePhysical m₁ own₁ where
  tables := h.tables
  pages_lt := h.pages_lt
  below := h.below
  dropped hOwn hNone := by
    obtain ⟨hUnder, hLevel⟩ := h.dropped hOwn hNone
    exact ⟨hUnder.parent hIndex, by omega⟩
  elsewhere hOwn hUnder := h.elsewhere hOwn fun hUnder' => hUnder (hUnder'.parent hIndex)
  view := h.view
  mem_freeSet := h.mem_freeSet
  physLimit_eq := h.physLimit_eq

/-- A table outside the subtree, or at its top, stays. -/
theorem keeps (h : Unmapped root level region m own pages freePhysical m₁ own₁) {node : Node}
    (hOwn : own table = some node)
    (hUnder : ¬ (node.Under root level region ∧ node.level < level)) :
    own₁ table = some node := by
  cases hMid : own₁ table with
  | none => exact absurd (h.dropped hOwn hMid) hUnder
  | some node' => simpa [hOwn] using (h.below hMid).symm

/-- The frames of the remaining pages may still be given back. -/
theorem releasable (h : Unmapped root level region m own pages true m₁ own₁)
    (hRelease : Releasable m own root (pages ++ pages₂)) : Releasable m₁ own₁ root pages₂ := by
  have hRight : ∀ {page}, page ∈ pages₂ → page ∈ pages ++ pages₂ := List.mem_append_right _
  have hSame : ∀ page ∈ pages₂, entryAt m₁ root page ≠ unused →
      entryAt m₁ root page = entryAt m root page ∧ page ∉ pages := by
    intro page hMem hUsed
    have hView := h.view page (hRelease.lt page (hRight hMem))
    split at hView
    · exact absurd hView hUsed
    case isFalse hNot => exact ⟨hView, hNot⟩
  refine ⟨fun page hMem => hRelease.lt page (hRight hMem), ?_, ?_⟩
  · intro page hMem hUsed
    obtain ⟨hEq, hNot⟩ := hSame page hMem hUsed
    rw [hEq] at hUsed ⊢
    obtain ⟨hFree, hOwn, hZero⟩ := hRelease.allocated page (hRight hMem) hUsed
    refine ⟨?_, ?_, hZero⟩
    · rw [h.mem_freeSet]
      rintro (hMem' | ⟨hSome, -⟩ | ⟨-, page', hMem', hUsed', hFrame⟩)
      · exact hFree hMem'
      · exact hSome hOwn
      · exact hNot (hRelease.distinct page' (List.mem_append_left _ hMem') page (hRight hMem)
          hUsed' hUsed hFrame ▸ hMem')
    · cases hOwn₁ : own₁ (entryAt m root page).frame with
      | none => rfl
      | some node => simp [h.below hOwn₁] at hOwn
  · intro page hMem page' hMem' hUsed hUsed' hFrame
    obtain ⟨hEq, -⟩ := hSame page hMem hUsed
    obtain ⟨hEq', -⟩ := hSame page' hMem' hUsed'
    rw [hEq] at hUsed hFrame
    rw [hEq'] at hUsed' hFrame
    exact hRelease.distinct page (hRight hMem) page' (hRight hMem') hUsed hUsed' hFrame

end Unmapped

theorem Unmapped.contained {own' : Nat → Option Node}
    (h : Unmapped root 4 0 m own pages freePhysical m' own') (hRoot : own root = some ⟨root, 4, 0⟩) :
    Contained root m own m' own' where
  tables := h.tables
  root_own := h.keeps hRoot fun hBoth => by simp at hBoth
  others hNe := ⟨h.below, fun hOwn => h.keeps hOwn fun hBoth => hNe hBoth.1.1⟩
  elsewhere hOwn hNe := h.elsewhere hOwn fun hUnder => hNe hUnder.1

theorem Releasable.mono {pages' : List Nat} (h : Releasable m own root pages)
    (hSubset : pages' ⊆ pages) :
    Releasable m own root pages' where
  lt page hMem := h.lt page (hSubset hMem)
  allocated page hMem := h.allocated page (hSubset hMem)
  distinct page hMem page' hMem' := h.distinct page (hSubset hMem) page' (hSubset hMem')

section

variable (h : Tables m own) (hOwn : own table = some ⟨root, 1, region⟩) (hIndex : index < 512)

include h hOwn hIndex

/-- The page of an entry of a level 1 table. -/
theorem Tables.entryAt_leaf :
    region * 512 + index < 512 ^ 4 ∧ entryAt m root (region * 512 + index) = m.read table index := by
  have hLeaf : own table = some ⟨root, 1, (region * 512 + index) / 512⟩ := by
    rw [hOwn, show (region * 512 + index) / 512 = region by omega]
  have hEntry := h.entryAt_of_own hLeaf
  rw [show (region * 512 + index) % 512 = index by omega] at hEntry
  obtain ⟨top, hTop⟩ := h.ancestor hOwn 3 (by decide)
  have hZero := (h.top hTop).2
  exact ⟨by omega, hEntry⟩

/-- A cleared entry of a level 1 table, once its frame is given back. -/
theorem Unmapped.clear {m₁ : Machine} (hSound : m₁.Sound)
    (hFree : ∀ frame, frame ∈ m₁.freeSet ↔ frame ∈ m.freeSet ∨
      (freePhysical = true ∧ frame ∈ released m root [region * 512 + index]))
    (hNotFree : ∀ table' node, own table' = some node → table' ∉ m₁.freeSet)
    (hRead : ∀ table' node, own table' = some node → ∀ i, m₁.read table' i = m.read table' i)
    (hLimit : m₁.frames.physLimit = m.frames.physLimit) :
    Unmapped root 1 region m own [region * 512 + index] freePhysical
      (m₁.write table index unused) own := by
  have hTables : Tables m₁ own := h.congr hSound hNotFree fun table' node hOwn' _ =>
    hRead table' node hOwn'
  have hRoot := (h.root_own hOwn).1
  have hWrite := Mapped.write hTables hOwn hIndex unused
  refine ⟨hWrite.tables, ?_, id, ?_, ?_, ?_, ?_, hLimit⟩
  · simpa using (h.entryAt_leaf hOwn hIndex).1
  · intro table' node hOwn' hNone
    simp [hOwn'] at hNone
  · intro table' node hOwn' hUnder i
    have hNe : table' ≠ table := by
      rintro rfl
      obtain rfl : node = ⟨root, 1, region⟩ := by simpa [hOwn] using hOwn'.symm
      exact hUnder (Node.under_self _ _ _)
    rw [Machine.read_write, if_neg (by simp [hNe]), hRead table' node hOwn']
  · intro page hPage
    have hSame : entryAt m₁ root page = entryAt m root page :=
      h.entryAt_congr hTables hRoot hRoot hPage (fun leaf hLeaf => ⟨hLeaf, hRead leaf _ hLeaf _⟩)
        (fun leaf hLeaf => .inl hLeaf)
    rw [hWrite.view page hPage]
    by_cases hEq : page = region * 512 + index
    · simp [overwrite, hEq]
    · simp only [overwrite, List.mem_singleton, hEq, if_false, hSame]
      split
      · rw [List.getElem?_eq_none (by simp; omega)]
        rfl
      · rfl
  · intro frame
    rw [Machine.freeSet_write, hFree]
    simp only [ne_eq, not_and_self, false_or]

/-- One entry of a level 1 table. -/
theorem unmapEntry_spec
    (hRelease : freePhysical = true → Releasable m own root [region * 512 + index]) :
    Yields True (unmapEntry m table index freePhysical) fun m' =>
      Unmapped root 1 region m own [region * 512 + index] freePhysical m' own := by
  obtain ⟨hPage, hEntry⟩ := h.entryAt_leaf hOwn hIndex
  unfold unmapEntry
  by_cases hUsed : m.read table index = unused
  · rw [if_pos (by simpa using hUsed)]
    refine Yields.pure ⟨h, by simpa using hPage, id, ?_, fun _ _ _ => rfl, ?_, ?_, rfl⟩
    · intro table' node hOwn' hNone
      simp [hOwn'] at hNone
    · intro page _
      by_cases hEq : page = region * 512 + index
      · simp [hEq, hEntry, hUsed]
      · simp [hEq]
    · intro frame
      simp [released, hEntry, hUsed]
  · rw [if_neg (by simpa using hUsed)]
    cases freePhysical with
    | false =>
      exact Yields.pure (Unmapped.clear h hOwn hIndex h.sound (by simp)
        (fun table' node => h.not_free) (fun _ _ _ _ => rfl) rfl)
    | true =>
      obtain ⟨hFree, hNone, hZero⟩ := (hRelease rfl).allocated (region * 512 + index) (by simp)
        (by rwa [hEntry])
      rw [hEntry] at hFree hNone hZero
      obtain ⟨m₁, hOk, hFreed⟩ := Machine.free_one h.sound hFree hZero
      have hNotFree : ∀ table' node, own table' = some node → table' ∉ m₁.freeSet := by
        intro table' node hOwn' hMem
        rw [hFreed.freeSet_eq] at hMem
        rcases hMem with hEq | hMem
        · rw [Set.mem_singleton_iff] at hEq
          simp [hEq, hNone] at hOwn'
        · exact h.not_free hOwn' hMem
      simp only [if_true, hOk, bind_of_ok]
      refine Yields.pure (Unmapped.clear h hOwn hIndex hFreed.sound ?_ hNotFree
        (fun table' node hOwn' => hFreed.read_eq table' (hNotFree table' node hOwn'))
        hFreed.physLimit_eq)
      intro frame
      simp only [hFreed.freeSet_eq, released, List.mem_singleton, exists_eq_left, hEntry,
        Set.mem_union, Set.mem_singleton_iff, Set.mem_ofPred_eq, true_and]
      constructor
      · rintro (rfl | hMem)
        · exact .inr ⟨hUsed, rfl⟩
        · exact .inl hMem
      · rintro (hMem | ⟨-, rfl⟩)
        · exact .inr hMem
        · exact .inl rfl

end

theorem isTableEmpty_iff :
    isTableEmpty m table = true ↔ ∀ index < 512, m.read table index = unused := by
  simp [isTableEmpty]

/-- Some entry of the table is in use. -/
def HasEntry (m : Machine) (table : Nat) : Prop := ∃ index < 512, m.read table index ≠ unused

theorem hasEntry_of_not_empty (h : isTableEmpty m table = false) : HasEntry m table := by
  simpa [isTableEmpty, HasEntry] using h

/-- A table below another is given back if it has run empty; only it and its
entry are touched. -/
theorem freeIfEmpty_spec (freePhysical : Bool) (h : Tables m own)
    (hOwn : own table = some ⟨root, level + 2, region⟩) (hIndex : index < 512)
    (hChild : own child = some ⟨root, level + 1, region * 512 + index⟩) :
    Yields True (freeIfEmpty m table index child) fun m' => ∃ own',
      Unmapped root (level + 2) region m own [] freePhysical m' own' ∧
        (∀ table' node, own table' = some node → table' ≠ child → own' table' = some node ∧
          ∀ i, ¬ (table' = table ∧ i = index) → m'.read table' i = m.read table' i) ∧
        (own' child = none ∨ HasEntry m' child) := by
  unfold freeIfEmpty
  generalize hEmpty : isTableEmpty m child = empty
  cases empty with
  | true =>
    rw [if_pos rfl]
    rw [isTableEmpty_iff] at hEmpty
    obtain ⟨m₁, hOk, hFreed⟩ := Machine.free_one h.sound (h.not_free hChild) (h.nonzero hChild)
    have hTables := h.detach hOwn hIndex hChild hEmpty hFreed
    have hRoot := (h.root_own hOwn).1
    have hNotFree : ∀ {table' node}, own table' = some node → table' ≠ child →
        table' ∉ m₁.freeSet := by
      intro table' node hOwn' hNe hMem
      rw [hFreed.freeSet_eq] at hMem
      exact hMem.elim hNe (h.not_free hOwn')
    have hRead : ∀ {table' node}, own table' = some node → table' ≠ child → ∀ i,
        ¬ (table' = table ∧ i = index) →
        (m₁.write table index unused).read table' i = m.read table' i := by
      intro table' node hOwn' hNe i hSlot
      rw [Machine.read_write, if_neg hSlot, hFreed.read_eq table' (hNotFree hOwn' hNe)]
    have hRootNe : root ≠ child := by
      rintro rfl
      have hLe := h.level_le hOwn
      simp only [hRoot, Option.some.injEq, Node.mk.injEq] at hChild
      simp only at hLe
      omega
    rw [hOk, bind_of_ok]
    refine Yields.pure ⟨Function.update own child none, ⟨hTables, by simp, ?_, ?_, ?_, ?_, ?_,
      hFreed.physLimit_eq⟩, fun table' node hOwn' hNe =>
        ⟨by rwa [Function.update_of_ne hNe], hRead hOwn' hNe⟩, .inl (Function.update_self ..)⟩
    · grind
    · intro table' node hOwn' hNone
      rw [Function.update_apply] at hNone
      split at hNone
      case isTrue hEq =>
        obtain rfl : node = ⟨root, level + 1, region * 512 + index⟩ := by
          simpa [hEq, hChild] using hOwn'.symm
        exact ⟨(Node.under_self _ _ _).parent hIndex, by simp⟩
      case isFalse => simp [hOwn'] at hNone
    · intro table' node hOwn' hUnder i
      refine hRead hOwn' ?_ i ?_
      · rintro rfl
        obtain rfl : node = ⟨root, level + 1, region * 512 + index⟩ := by
          simpa [hChild] using hOwn'.symm
        exact hUnder ((Node.under_self _ _ _).parent hIndex)
      · rintro ⟨rfl, -⟩
        obtain rfl : node = ⟨root, level + 2, region⟩ := by simpa [hOwn] using hOwn'.symm
        exact hUnder (Node.under_self _ _ _)
    · intro page hPage
      simp only [List.not_mem_nil, if_false]
      refine (hTables.entryAt_congr h (by rwa [Function.update_of_ne hRootNe]) hRoot hPage
        ?_ ?_).symm
      · grind
      · grind
    · intro frame
      rw [Machine.freeSet_write, hFreed.freeSet_eq]
      by_cases hEq : frame = child
      · simp [hEq, hChild]
      · cases hOwn' : own frame with
        | none => simp [hEq, released]
        | some node => simp [hEq, released, hOwn']
  | false =>
    refine Yields.pure ⟨own, Unmapped.refl root _ region freePhysical h,
      fun table' node hOwn' _ => ⟨hOwn', fun _ _ => rfl⟩, .inr ?_⟩
    exact hasEntry_of_not_empty hEmpty

/-- A table that has lost its last entry is a table no longer. Only the one at
`top` may be left empty. -/
def Tidy (top : Node) (m m' : Machine) (own' : Nat → Option Node) : Prop :=
  ∀ table node, own' table = some node → node ≠ top → HasEntry m table → HasEntry m' table

theorem Tidy.refl (top : Node) (m : Machine) (own : Nat → Option Node) : Tidy top m m own :=
  fun _ _ _ _ hEntry => hEntry

theorem Tidy.trans {top : Node} {m₁ : Machine} {own₁ : Nat → Option Node} (h : Tidy top m m₁ own₁)
    (hBelow : ∀ {table node}, own₂ table = some node → own₁ table = some node)
    (h' : Tidy top m₁ m₂ own₂) : Tidy top m m₂ own₂ :=
  fun table node hOwn hNe hEntry => h' table node hOwn hNe (h table node (hBelow hOwn) hNe hEntry)

/-- Below a level 1 table there is no other. -/
theorem Unmapped.tidy_leaf (h : Tables m own)
    (hUnmapped : Unmapped root 1 region m own pages freePhysical m' own) :
    Tidy ⟨root, 1, region⟩ m m' own := by
  rintro table ⟨root', level, region'⟩ hOwn hNe ⟨index, hIndex, hUsed⟩
  refine ⟨index, hIndex, ?_⟩
  rwa [hUnmapped.elsewhere hOwn]
  rintro ⟨rfl, hLevel, hRegion⟩
  have hPos := h.level_pos hOwn
  simp only at hLevel hRegion hPos
  obtain rfl : level = 1 := by omega
  exact hNe (by simpa using hRegion)

/-- The check of the table behind an entry leaves only the table above open. -/
theorem Tidy.checked {m₃ : Machine} {own₃ : Nat → Option Node} (hTables : Tables m₂ own₂)
    (h : Tidy ⟨root, level + 1, region * 512 + index⟩ m m₂ own₂)
    (hOwn : own₂ table = some ⟨root, level + 2, region⟩)
    (hChild : own₂ child = some ⟨root, level + 1, region * 512 + index⟩)
    (hBelow : ∀ {table node}, own₃ table = some node → own₂ table = some node)
    (hRest : ∀ table' node, own₂ table' = some node → table' ≠ child → own₃ table' = some node ∧
      ∀ i, ¬ (table' = table ∧ i = index) → m₃.read table' i = m₂.read table' i)
    (hEmpty : own₃ child = none ∨ HasEntry m₃ child) :
    Tidy ⟨root, level + 2, region⟩ m m₃ own₃ := by
  intro table' node hOwn₃ hTop hEntry
  have hOwn₂ := hBelow hOwn₃
  by_cases hEq : table' = child
  · subst hEq
    exact hEmpty.resolve_left (by simp [hOwn₃])
  · have hNe : node ≠ ⟨root, level + 1, region * 512 + index⟩ :=
      fun hNode => hEq (hTables.unique hOwn₂ (hNode ▸ hChild))
    obtain ⟨i, hi, hUsed⟩ := h table' node hOwn₂ hNe hEntry
    refine ⟨i, hi, ?_⟩
    rwa [(hRest table' node hOwn₂ hEq).2 i]
    rintro ⟨rfl, -⟩
    exact hTop (Option.some.inj (hOwn₂.symm.trans hOwn))

/-- The address arithmetic of a walk over these pages cannot panic. -/
def Walkable (pages : PageRange) : Prop :=
  pages.start ≤ pages.stop ∧ ∀ page, pages.start ≤ page → page ≤ pages.stop → Page.Valid page

theorem Walkable.advance {pages : PageRange} (h : Walkable pages)
    (hCount : pages.start + count ≤ pages.stop) : Walkable ⟨pages.start + count, pages.stop⟩ :=
  ⟨hCount, fun page hStart hStop => h.2 page (by simp only at hStart; omega) hStop⟩

/-- A loop over the visited entries of a level 1 table. -/
theorem visitLeaves_spec {pages : PageRange} (inv : List Nat → Machine → Prop)
    {body : Nat → Machine → Except Panic (ForInStep Machine)} (hInit : inv [] m)
    (hBody : ∀ i mᵢ done, pageTableIndex pages.start 1 + i < 512 →
      done ++ [region * 512 + (pageTableIndex pages.start 1 + i)] ⊆
        (visited m pages.stop 1 table region pages.start).1 → inv done mᵢ →
      Yields True (body i mᵢ) fun
        | .yield m' => inv (done ++ [region * 512 + (pageTableIndex pages.start 1 + i)]) m'
        | .done _ => False) :
    Yields (Walkable pages) (do
      let count ← countInTable pages
      let m ← forIn (List.range' 0 count) m body
      return (m, count)) fun (m', count) =>
        count = (visited m pages.stop 1 table region pages.start).2 ∧
          inv (visited m pages.stop 1 table region pages.start).1 m' := by
  let done (i : Nat) := List.range' (region * 512 + pageTableIndex pages.start 1) i
  refine (leafLoop_spec (fun i => inv (done i)) (fun hWalk : Walkable pages => hWalk.1) hInit
    fun i mᵢ hStop hi hInv => ?_).mono ?_
  · have hNext : done (i + 1) = done i ++ [region * 512 + (pageTableIndex pages.start 1 + i)] := by
      simp only [done, List.range'_concat, Nat.one_mul, Nat.add_assoc]
    simp only [hNext]
    refine (hBody i mᵢ (done i) hi ?_ hInv).weaken fun _ => trivial
    intro page hMem
    simp only [← hNext, done, visited, List.mem_range'_1] at hMem ⊢
    omega
  · rintro ⟨m', count⟩ ⟨-, hCount, hInv⟩
    rw [← pageTableIndex_one] at hCount
    simp only [visited, ← hCount]
    exact ⟨trivial, hInv⟩

variable (profile : BuildProfile)

/-- `unmap_in_table` on a level 1 table. -/
theorem unmapLeaves_spec (h : Tables m own) {pages : PageRange}
    (hOwn : own table = some ⟨root, 1, region⟩) (hRelease : freePhysical = true →
      Releasable m own root (visited m pages.stop 1 table region pages.start).1) :
    Yields (Walkable pages) (unmapInTable profile freePhysical 1 m table pages)
      fun (m', count) => count = (visited m pages.stop 1 table region pages.start).2 ∧
        Unmapped root 1 region m own (visited m pages.stop 1 table region pages.start).1
          freePhysical m' own := by
  refine visitLeaves_spec (fun done mᵢ => Unmapped root 1 region m own done freePhysical mᵢ own)
    (Unmapped.refl root 1 region freePhysical h) fun i mᵢ done hi hSubset hInv => ?_
  refine (unmapEntry_spec hInv.tables hOwn hi ?_).bind fun m' hUnmapped =>
    Yields.pure (hInv.trans hUnmapped)
  rintro rfl
  exact hInv.releasable ((hRelease rfl).mono hSubset)

/-- The state of the walk at an entry of a table above level 1. The pages
behind the entries before it are dealt with; what lies behind it and the
later entries is as at the start. -/
structure UnmapState (stop root level region table : Nat) (m : Machine)
    (own : Nat → Option Node) (start : Nat) (freePhysical : Bool) (index : Nat) (mᵢ : Machine)
    (ownᵢ : Nat → Option Node) (done : List Nat) (total : Nat) : Prop where
  unmapped : Unmapped root (level + 2) region m own done freePhysical mᵢ ownᵢ
  valid : Page.Valid (start + total)
  visited_eq : visited m stop (level + 2) table region start =
    (done ++ (visitEntries (visitEntry m stop level table region) stop
        (List.range' index (512 - index)) (start + total)).1,
      total + (visitEntries (visitEntry m stop level table region) stop
        (List.range' index (512 - index)) (start + total)).2)
  ahead : ∀ table' node, own table' = some node →
    (∀ i < index, ¬ node.Under root (level + 1) (region * 512 + i)) →
    ownᵢ table' = some node ∧
      ∀ i, (table' = table → index ≤ i) → mᵢ.read table' i = m.read table' i

namespace UnmapState

variable {stop root level region table start index total : Nat} {m mᵢ : Machine}
  {own ownᵢ : Nat → Option Node} {freePhysical : Bool} {done : List Nat}

/-- The table itself is none of those behind its entries. -/
theorem not_under (root level region index : Nat) :
    ¬ Node.Under ⟨root, level + 2, region⟩ root (level + 1) (region * 512 + index) := by
  rintro ⟨-, hLevel, -⟩
  simp only at hLevel
  omega

section

variable
  (h : UnmapState stop root level region table m own start freePhysical index mᵢ ownᵢ done total)

include h

theorem table_ahead (hOwn : own table = some ⟨root, level + 2, region⟩) :
    ownᵢ table = some ⟨root, level + 2, region⟩ ∧
      ∀ i, index ≤ i → mᵢ.read table i = m.read table i :=
  (h.ahead table _ hOwn fun i _ => not_under root level region i).imp_right
    fun hRead i hi => hRead i fun _ => hi

/-- An unused entry is passed over. -/
theorem skip (hIndex : index < 512) (hUnused : m.read table index = unused) :
    UnmapState stop root level region table m own start freePhysical (index + 1) mᵢ ownᵢ done
      total where
  unmapped := h.unmapped
  valid := h.valid
  visited_eq := by
    rw [h.visited_eq, visitEntries_skip hIndex (by simp [visitEntry, hUnused])]
  ahead table' node hOwn hUnder :=
    (h.ahead table' node hOwn fun i hi => hUnder i (by omega)).imp_right
      fun hRead i hi => hRead i fun hEq => by have := hi hEq; omega

/-- The list of visited pages at a used entry. -/
theorem visited_used (hIndex : index < 512) (hUsed : m.read table index ≠ unused)
    (hVisit : visited m stop (level + 1) (m.read table index).frame
      (region * 512 + index) (start + total) = (pages, count)) :
    visited m stop (level + 2) table region start =
      if start + total + count ≥ stop then (done ++ pages, total + count)
      else
        (done ++ pages ++ (visitEntries (visitEntry m stop level table region) stop
            (List.range' (index + 1) (512 - (index + 1))) (start + (total + count))).1,
          total + count + (visitEntries (visitEntry m stop level table region) stop
            (List.range' (index + 1) (512 - (index + 1))) (start + (total + count))).2) := by
  have hSome : visitEntry m stop level table region index (start + total) =
      some (pages, count) := by
    simp [visitEntry, hUsed, hVisit]
  rw [h.visited_eq, visitEntries_used hIndex hSome]
  split
  · rfl
  · simp only [List.append_assoc, Nat.add_assoc]

/-- What lies behind the next entry is as at the start. -/
theorem behind (hTables : Tables m own) (hOwn : own table = some ⟨root, level + 2, region⟩)
    (hChild : own child = some ⟨root, level + 1, region * 512 + index⟩) :
    ownᵢ child = some ⟨root, level + 1, region * 512 + index⟩ ∧
      visited mᵢ stop (level + 1) child (region * 512 + index) (start + total) =
        visited m stop (level + 1) child (region * 512 + index) (start + total) := by
  have hAhead : ∀ {node : Node}, node.Under root (level + 1) (region * 512 + index) →
      ∀ i < index, ¬ node.Under root (level + 1) (region * 512 + i) :=
    fun hUnder i hi hUnder' => by have := hUnder.index_eq hUnder'; omega
  refine ⟨(h.ahead child _ hChild (hAhead (Node.under_self _ _ _))).1, ?_⟩
  refine visited_congr hTables stop level (start + total) hChild ?_
  intro table' node hOwn' hUnder _ i _
  refine (h.ahead table' node hOwn' (hAhead hUnder)).2 i ?_
  rintro rfl
  obtain rfl : node = ⟨root, level + 2, region⟩ := by simpa [hOwn] using hOwn'.symm
  exact absurd hUnder (not_under root level region index)

/-- The walk below a used entry, then the check whether the table behind it
has run empty. -/
theorem visit {m₃ : Machine} {own₃ : Nat → Option Node} (hIndex : index < 512)
    (hChild : own child = some ⟨root, level + 1, region * 512 + index⟩)
    (hBelow : Unmapped root (level + 1) (region * 512 + index) mᵢ ownᵢ pages freePhysical m₂ own₂)
    (hEmpty : Unmapped root (level + 2) region m₂ own₂ [] freePhysical m₃ own₃)
    (hRest : ∀ table' node, own₂ table' = some node → table' ≠ child → own₃ table' = some node ∧
      ∀ i, ¬ (table' = table ∧ i = index) → m₃.read table' i = m₂.read table' i) :
    Unmapped root (level + 2) region m own (done ++ pages) freePhysical m₃ own₃ ∧
      ∀ table' node, own table' = some node →
        (∀ i < index + 1, ¬ node.Under root (level + 1) (region * 512 + i)) →
        own₃ table' = some node ∧
          ∀ i, (table' = table → index + 1 ≤ i) → m₃.read table' i = m.read table' i := by
  constructor
  · have hBoth := (h.unmapped.trans (hBelow.widen hIndex)).trans hEmpty
    rwa [List.append_nil] at hBoth
  · intro table' node hOwn' hUnder
    obtain ⟨hOwnᵢ, hReadᵢ⟩ := h.ahead table' node hOwn' fun i hi => hUnder i (by omega)
    have hNotUnder := hUnder index (by omega)
    have hOwn₂ := hBelow.keeps hOwnᵢ fun hBoth => hNotUnder hBoth.1
    have hNe : table' ≠ child := by
      rintro rfl
      obtain rfl : node = ⟨root, level + 1, region * 512 + index⟩ := by
        simpa [hChild] using hOwn'.symm
      exact hNotUnder (Node.under_self _ _ _)
    obtain ⟨hOwn₃, hRead₃⟩ := hRest table' node hOwn₂ hNe
    refine ⟨hOwn₃, ?_⟩
    intro i hi
    rw [hRead₃ i (by rintro ⟨hEq, rfl⟩; have := hi hEq; omega),
      hBelow.elsewhere hOwnᵢ hNotUnder, hReadᵢ i fun hEq => by have := hi hEq; omega]

end

end UnmapState

/-- `unmap_in_table` clears the entries of the visited pages and gives back the
tables below that run empty. It can only panic where the address arithmetic
does. -/
theorem unmapInTable_spec {freePhysical : Bool} (level : Nat) {m : Machine}
    {own : Nat → Option Node} (h : Tables m own) {table root region : Nat} {pages : PageRange}
    (hOwn : own table = some ⟨root, level + 1, region⟩) (hValid : Page.Valid pages.start)
    (hRelease : freePhysical = true →
      Releasable m own root (visited m pages.stop (level + 1) table region pages.start).1) :
    Yields (Walkable pages) (unmapInTable profile freePhysical (level + 1) m table pages)
      fun (m', count) =>
        count = (visited m pages.stop (level + 1) table region pages.start).2 ∧
          ∃ own', Unmapped root (level + 1) region m own
            (visited m pages.stop (level + 1) table region pages.start).1 freePhysical m' own' ∧
            Tidy ⟨root, level + 1, region⟩ m m' own' := by
  induction level generalizing m own table region pages with
  | zero =>
    refine (unmapLeaves_spec profile h hOwn hRelease).mono ?_
    rintro ⟨m', count⟩ ⟨hCount, hUnmapped⟩
    exact ⟨hCount, own, hUnmapped, hUnmapped.tidy_leaf h⟩
  | succ level ih =>
    have hIndex := pageTableIndex_lt pages.start (level + 2)
    obtain ⟨hCountLe, -⟩ := visited_count_le m pages.stop (level + 1) table region pages.start
    let inv (i : Nat) (s : Machine × Nat × Nat) : Prop :=
      s.2.1 = pages.start + s.2.2 ∧ ∃ own' done, UnmapState pages.stop root level region table m
        own pages.start freePhysical i s.1 own' done s.2.2 ∧
        Tidy ⟨root, level + 2, region⟩ m s.1 own'
    let post (s : Machine × Nat × Nat) : Prop :=
      s.2.2 = (visited m pages.stop (level + 2) table region pages.start).2 ∧
        ∃ own', Unmapped root (level + 2) region m own
          (visited m pages.stop (level + 2) table region pages.start).1 freePhysical s.1 own' ∧
          Tidy ⟨root, level + 2, region⟩ m s.1 own'
    have hInit : inv (pageTableIndex pages.start (level + 2)) (m, pages.start, 0) := by
      refine ⟨rfl, own, [], ⟨Unmapped.refl root _ region freePhysical h, hValid, ?_,
        fun table' node hOwn' _ => ⟨hOwn', fun _ _ => rfl⟩⟩, Tidy.refl _ m own⟩
      rw [visited_succ]
      simp
    refine (Yields.forIn_range' inv post hInit ?_ ?_).bind fun s hPost => Yields.pure hPost
    · rintro i ⟨mᵢ, start, total⟩ hFirst hi ⟨hStart, ownᵢ, done, hState, hTidy⟩
      simp only at hStart hState hTidy
      subst hStart
      have hi : i < 512 := by omega
      obtain ⟨hOwnᵢ, hReadᵢ⟩ := hState.table_ahead hOwn
      simp only [hReadᵢ i le_rfl]
      by_cases hUsed : m.read table i = unused
      · rw [if_pos (by simpa using hUsed)]
        exact Yields.pure ⟨rfl, ownᵢ, done, hState.skip hi hUsed, hTidy⟩
      · rw [if_neg (by simpa using hUsed)]
        have hChild := h.down hOwn hi hUsed
        obtain ⟨hChildᵢ, hSame⟩ := hState.behind h hOwn hChild
        obtain ⟨found, count, hFound⟩ : ∃ found count, visited m pages.stop (level + 1)
          (m.read table i).frame (region * 512 + i) (pages.start + total) = (found, count) :=
          ⟨_, _, rfl⟩
        have hVisited := hState.visited_used hi hUsed hFound
        rw [hFound] at hSame
        have hTotal : total + count ≤ pages.stop - pages.start := by grind
        have hSubset : done ++ found ⊆
            (visited m pages.stop (level + 2) table region pages.start).1 := by grind
        have hRelease' : freePhysical = true → Releasable mᵢ ownᵢ root
            (visited mᵢ pages.stop (level + 1) (m.read table i).frame (region * 512 + i)
              (pages.start + total)).1 := by
          intro hTrue
          rw [hSame]
          subst hTrue
          exact hState.unmapped.releasable ((hRelease rfl).mono hSubset)
        refine ((@ih mᵢ ownᵢ hState.unmapped.tables _ _ ⟨pages.start + total, pages.stop⟩ hChildᵢ
          hState.valid hRelease').weaken fun hWalk =>
            hWalk.advance (by have := hWalk.1; omega)).bind ?_
        rintro ⟨m₂, freed⟩ ⟨hFreed, own₂, hBelow, hTidy₂⟩
        simp only [hSame] at hFreed hBelow
        subst hFreed
        have hBound : freed ≤ 512 ^ 4 := by
          have hLe := h.visited_count_le hChild pages.stop (pages.start + total)
          rwa [hFound] at hLe
        refine ((Page.add_spec profile hState.valid hBound).weaken fun hWalk =>
          hWalk.2 _ (by omega) (by have := hWalk.1; omega)).bind ?_
        rintro _ ⟨rfl, hValid', -⟩
        have hOwn₂ := hBelow.keeps hOwnᵢ fun hBoth =>
          UnmapState.not_under root level region i hBoth.1
        have hChild₂ := hBelow.keeps hChildᵢ fun hBoth => by simp at hBoth
        refine ((freeIfEmpty_spec freePhysical hBelow.tables hOwn₂ hi hChild₂).weaken
          fun _ => trivial).bind ?_
        rintro m₃ ⟨own₃, hEmpty, hRest, hChecked⟩
        obtain ⟨hUnmapped, hAhead⟩ := hState.visit hi hChild hBelow hEmpty hRest
        have hTidy₃ := hTidy.trans (fun hOwn' => hBelow.below (hEmpty.below hOwn'))
          (Tidy.checked hBelow.tables hTidy₂ hOwn₂ hChild₂ hEmpty.below hRest hChecked)
        split
        case isTrue hDone =>
          rw [if_pos hDone] at hVisited
          exact Yields.pure ⟨by rw [hVisited], own₃, by rw [hVisited]; exact hUnmapped, hTidy₃⟩
        case isFalse hGoOn =>
          rw [if_neg hGoOn] at hVisited
          rw [Nat.add_assoc] at hValid' ⊢
          exact Yields.pure
            ⟨rfl, own₃, done ++ found, ⟨hUnmapped, hValid', hVisited, hAhead⟩, hTidy₃⟩
    · rintro ⟨m', start, total⟩ ⟨hStart, own', done, hState, hTidy⟩
      have hVisited := hState.visited_eq
      simp only at hVisited
      rw [show 512 - (pageTableIndex pages.start (level + 2) +
        (512 - pageTableIndex pages.start (level + 2))) = 0 by omega] at hVisited
      simp only [List.range'_zero, visitEntries, List.append_nil, Nat.add_zero] at hVisited
      exact ⟨by rw [hVisited], own', by rw [hVisited]; exact hState.unmapped, hTidy⟩

/-- What the writes of `set_flags_in_table` to level 1 tables keep, the call
keeps. `reached` tells which tables its walk can come to. -/
theorem setFlagsInTable_keeps {flags : PageTableFlags} (inv : Machine → Prop)
    (reached : Nat → Nat → Prop)
    (hDown : ∀ {m level table}, inv m → reached (level + 2) table → ∀ index < 512,
      m.read table index ≠ unused → reached (level + 1) (m.read table index).frame)
    (hWrite : ∀ {m level table}, inv m → level ≤ 1 → reached level table → ∀ index < 512,
      inv (m.write table index ⟨(m.read table index).frame, flags⟩)) (level : Nat) {m : Machine}
    {table : Nat} {pages : PageRange} (hInv : inv m) (hTable : reached level table) :
    Yields False (setFlagsInTable profile flags level m table pages) fun (m', _) => inv m' := by
  induction level using Nat.twoStepInduction generalizing m table pages with
  | zero | one =>
    refine (leafLoop_spec (fun _ => inv) False.elim hInv fun i mᵢ _ hi hInv => ?_).mono
      fun _ hPost => hPost.2.2
    exact Yields.pure (hWrite hInv (by omega) hTable _ hi)
  | more level _ ih =>
    refine (Yields.forIn_range' (fun _ s => inv s.1) (fun s => inv s.1) hInv ?_
      fun _ hInv => hInv).bind fun s hInv => Yields.pure hInv
    rintro i ⟨mᵢ, start, total⟩ hFirst hi hInv
    have hIndex := pageTableIndex_lt pages.start (level + 2)
    by_cases hUsed : mᵢ.read table i = unused
    · simp only [hUsed, PageTableEntry.isUnused_iff, if_true]
      exact Yields.pure hInv
    · simp only [PageTableEntry.isUnused_iff, hUsed, if_false]
      refine (ih hInv (hDown hInv hTable i (by omega) hUsed)).bind ?_
      rintro ⟨m₂, edited⟩ hBelow
      refine (Yields.any _).bind fun start' _ => ?_
      split
      · exact Yields.pure hBelow
      · exact Yields.pure hBelow

/-- `set_flags_in_table` only writes to level 1 tables of its tree. -/
theorem setFlagsInTable_spec (flags : PageTableFlags) (h : Tables m own) {pages : PageRange}
    (hOwn : own table = some ⟨root, level, region⟩) :
    Yields False (setFlagsInTable profile flags level m table pages)
      fun (m', _) => Grows root m own m' own := by
  refine setFlagsInTable_keeps profile (Grows root m own · own)
    (fun level table => ∃ region, own table = some ⟨root, level, region⟩) ?_ ?_ level
    (Grows.refl root h) ⟨region, hOwn⟩
  · rintro mᵢ level table hGrows ⟨region, hOwn⟩ index hIndex hUsed
    exact ⟨_, hGrows.tables.down hOwn hIndex hUsed⟩
  · rintro mᵢ level table hGrows hLevel ⟨region, hOwn⟩ index hIndex
    obtain rfl : level = 1 := Nat.le_antisymm hLevel (hGrows.tables.level_pos hOwn)
    exact hGrows.trans (Mapped.write hGrows.tables hOwn hIndex _).toGrows

end D3OS.Memory
