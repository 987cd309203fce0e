import D3OS.Memory.UnmapWalk

/-! How far a walk of `unmap_in_table` gets. As long as no level 1 table is
missing it visits the pages of its range one after the other. Behind a
missing table `pages.start` lags behind the entries, and the walk looks at
other pages than those of its range. -/
namespace D3OS.Memory

open PageTableEntry (unused)
open Paging

/-- Does the walk for a page reach a level 1 table? -/
def Paging.hasTable (m : Machine) : Nat → Nat → Nat → Bool
  | level + 2, table, page =>
    let entry := m.read table (pageTableIndex page (level + 2))
    !entry.isUnused && hasTable m (level + 1) entry.frame page
  | _, _, _ => true

variable {m : Machine} {level table page stop start region root : Nat}

theorem hasTable_succ {index : Nat} (hIndex : pageTableIndex page (level + 2) = index) :
    hasTable m (level + 2) table page = true ↔ m.read table index ≠ unused ∧
      hasTable m (level + 1) (m.read table index).frame page = true := by
  simp only [hasTable, hIndex, Bool.and_eq_true, Bool.not_eq_true', ne_eq]
  rw [← PageTableEntry.isUnused_iff, Bool.not_eq_true]

theorem visitEntries_of_stop_le {visit : Nat → Nat → Option (List Nat × Nat)} (hStop : stop ≤ start)
    (h : ∀ index found, visit index start = some found → found = ([], 0)) (indices : List Nat) :
    visitEntries visit stop indices start = ([], 0) := by
  induction indices with
  | nil => rfl
  | cons index rest ih =>
    simp only [visitEntries]
    split
    case h_1 => exact ih
    case h_2 => grind

/-- Nothing is visited for an empty range. -/
theorem visited_of_stop_le (m : Machine) (hStop : stop ≤ start) (level table region : Nat) :
    visited m stop (level + 1) table region start = ([], 0) := by
  induction level generalizing table region with
  | zero => simp [visited, show stop - start = 0 by omega]
  | succ level ih =>
    refine visitEntries_of_stop_le hStop ?_ _
    intro index found hFound
    simp only at hFound
    obtain ⟨-, hFound⟩ := Option.ite_none_left_eq_some.mp hFound
    rw [← Option.some.inj hFound, ih]

/-- The first position behind a region. -/
def regionEnd (region level : Nat) : Nat := (region + 1) * 512 ^ level

theorem lt_regionEnd {position : Nat} (h : position / 512 ^ level = region) :
    position < regionEnd region level := by
  rw [← h]
  exact Nat.lt_mul_of_div_lt (Nat.lt_succ_self _) (Nat.pow_pos (by decide))

theorem regionEnd_div (region level : Nat) : regionEnd region level / 512 ^ level = region + 1 :=
  Nat.mul_div_cancel _ (Nat.pow_pos (by decide))

theorem regionEnd_le {index : Nat} (hIndex : index < 512) :
    regionEnd (region * 512 + index) level ≤ regionEnd region (level + 1) := by
  unfold regionEnd
  rw [Nat.pow_succ', ← Nat.mul_assoc]
  exact Nat.mul_le_mul_right _ (by omega)

theorem regionEnd_last (region level : Nat) :
    (region * 512 + 512) * 512 ^ level = regionEnd region (level + 1) := by
  unfold regionEnd
  rw [Nat.pow_succ', ← Nat.mul_assoc, Nat.add_mul region 1 512, Nat.one_mul]

/-- What a walk below a table has visited: all pages from `start` up to
`reach`, and if that takes it to the end of its range or of the region, no
others. -/
structure Covers (walk : List Nat × Nat) (start stop reach last : Nat) : Prop where
  covered : ∀ page, start ≤ page → page < reach → page < last → page ∈ walk.1
  exact : min stop last ≤ reach →
    (∀ page ∈ walk.1, start ≤ page ∧ page < stop) ∧ walk.2 = min stop last - start

theorem visitEntries_covers {m : Machine} {first stop reach level table region : Nat}
    (hReach : reach ≤ stop)
    (hBelow : ∀ index start, index < 512 → start / 512 ^ (level + 1) = region * 512 + index →
      first ≤ start → start < reach → ∃ walk, visitEntry m stop level table region index start = some walk ∧
        Covers walk start stop reach (regionEnd (region * 512 + index) (level + 1)))
    (count : Nat) {index start : Nat} (hCount : index + count = 512)
    (hStart : start / 512 ^ (level + 1) = region * 512 + index) (hFrom : first ≤ start) :
    Covers (visitEntries (visitEntry m stop level table region) stop (List.range' index count) start)
      start stop reach (regionEnd region (level + 2)) := by
  induction count generalizing index start with
  | zero =>
    obtain rfl : index = 512 := by omega
    have hEnd : regionEnd region (level + 2) ≤ start := by
      rw [← regionEnd_last, ← hStart]
      exact Nat.div_mul_le_self _ _
    refine ⟨fun page hFirst _ hLast => absurd hLast (by omega), fun _ => ⟨?_, ?_⟩⟩
    · simp [visitEntries]
    · simp only [List.range'_zero, visitEntries]
      omega
  | succ count ih =>
    have hIndex : index < 512 := by omega
    have hEnd := lt_regionEnd hStart
    have hEndLe : regionEnd (region * 512 + index) (level + 1) ≤ regionEnd region (level + 2) :=
      regionEnd_le hIndex
    rw [List.range'_succ]
    by_cases hNear : start < reach
    · obtain ⟨⟨pages, visits⟩, hVisit, hCovers⟩ := hBelow index start hIndex hStart hFrom hNear
      simp only [visitEntries, hVisit]
      by_cases hWhole : min stop (regionEnd (region * 512 + index) (level + 1)) ≤ reach
      · obtain ⟨hPages, hVisits⟩ := hCovers.exact hWhole
        simp only at hPages hVisits
        split
        case isTrue hDone =>
          refine ⟨fun page hFirst hBefore _ => hCovers.covered page hFirst hBefore (by omega),
            fun _ => ⟨hPages, ?_⟩⟩
          simp only
          omega
        case isFalse hGoOn =>
          have hNext : start + visits = regionEnd (region * 512 + index) (level + 1) := by omega
          have hRest := @ih (index + 1) (start + visits) (by omega) (by
            rw [hNext, regionEnd_div, Nat.add_assoc]) (by omega)
          refine ⟨?_, fun hAll => ⟨?_, ?_⟩⟩
          · intro page hFirst hBefore hLast
            by_cases hHere : page < start + visits
            · exact List.mem_append_left _ (hCovers.covered page hFirst hBefore (by omega))
            · exact List.mem_append_right _ (hRest.covered page (by omega) hBefore hLast)
          · intro page hMem
            rcases List.mem_append.mp hMem with hMem | hMem
            · exact hPages page hMem
            · have hBounds := (hRest.exact hAll).1 page hMem
              omega
          · have hMore := (hRest.exact hAll).2
            simp only
            omega
      · refine ⟨?_, fun hAll => absurd hAll (by omega)⟩
        intro page hFirst hBefore _
        have hMem := hCovers.covered page hFirst hBefore (by omega)
        split
        · exact hMem
        · exact List.mem_append_left _ hMem
    · refine ⟨fun page hFirst hBefore _ => absurd hBefore (by omega), fun hAll => ?_⟩
      have hStop : stop ≤ start := by omega
      rw [← List.range'_succ, visitEntries_of_stop_le hStop ?_]
      · exact ⟨by simp, by simp only; omega⟩
      · intro index' found hFound
        unfold visitEntry at hFound
        simp only at hFound
        obtain ⟨-, hFound⟩ := Option.ite_none_left_eq_some.mp hFound
        rw [← Option.some.inj hFound, visited_of_stop_le m hStop]

/-- A walk visits the pages of its range up to the first missing table. -/
theorem visited_covers (m : Machine) {reach : Nat} (hReach : reach ≤ stop) (level : Nat)
    (hStart : start / 512 ^ (level + 1) = region)
    (hTables : ∀ page, start ≤ page → page < reach → page / 512 ^ (level + 1) = region →
      hasTable m (level + 1) table page = true) :
    Covers (visited m stop (level + 1) table region start) start stop reach
      (regionEnd region (level + 1)) := by
  induction level generalizing table region start with
  | zero =>
    simp only [visited, pageTableIndex_one, regionEnd, Nat.zero_add, Nat.pow_one] at hStart ⊢
    refine ⟨?_, fun _ => ⟨?_, ?_⟩⟩
    · intro page hFirst hBefore hLast
      rw [List.mem_range'_1]
      omega
    · intro page hMem
      rw [List.mem_range'_1] at hMem
      omega
    · simp only
      omega
  | succ level ih =>
    rw [visited_succ]
    have hPart : ∀ {page index}, index < 512 → page / 512 ^ (level + 1) = region * 512 + index →
        page / 512 ^ (level + 2) = region ∧ pageTableIndex page (level + 2) = index := by
      intro page index hIndex hPage
      refine ⟨?_, ?_⟩
      · rw [← region_succ, hPage]
        omega
      · simp only [pageTableIndex, show level + 2 - 1 = level + 1 by omega, hPage]
        omega
    refine visitEntries_covers hReach ?_ _ (Nat.add_sub_of_le (pageTableIndex_lt _ _).le) ?_
      (Nat.le_refl start)
    · intro index position hIndex hPosition hFrom hNear
      have hHere : ∀ page, position ≤ page → page < reach →
          page / 512 ^ (level + 1) = region * 512 + index → m.read table index ≠ unused ∧
            hasTable m (level + 1) (m.read table index).frame page = true := by
        intro page hFirst hBefore hPage
        obtain ⟨hRegion, hSlot⟩ := hPart hIndex hPage
        exact (hasTable_succ hSlot).mp (hTables page (by omega) hBefore hRegion)
      obtain ⟨hUsed, -⟩ := hHere position (Nat.le_refl _) hNear hPosition
      refine ⟨_, by simp only [visitEntry, PageTableEntry.isUnused_iff, hUsed, if_false],
        ih hPosition fun page hFirst hBefore hPage => (hHere page hFirst hBefore hPage).2⟩
    · rw [← hStart, region_eq]

/-- A used entry is reached through a level 1 table. -/
theorem hasTable_of_used (h : leafEntry m (level + 1) table page ≠ unused) :
    hasTable m (level + 1) table page = true := by
  induction level generalizing table with
  | zero => rfl
  | succ level ih =>
    simp only [leafEntry] at h
    split at h
    · exact absurd rfl h
    case isFalse hUsed => exact (hasTable_succ rfl).mpr ⟨by simpa using hUsed, ih h⟩

/-- A range whose pages all have a level 1 table is visited, and nothing
else is. -/
theorem mem_visited_iff (hStop : stop < 512 ^ 4)
    (hTables : ∀ page, start ≤ page → page < stop → hasTable m 4 root page = true) (page : Nat) :
    page ∈ (visited m stop 4 root 0 start).1 ↔ start ≤ page ∧ page < stop := by
  by_cases hEmpty : stop ≤ start
  · rw [visited_of_stop_le m hEmpty]
    simp only [List.not_mem_nil, false_iff]
    omega
  · have hCovers := visited_covers m (Nat.le_refl stop) 3
      (Nat.div_eq_of_lt (by omega : start < 512 ^ 4))
      fun page hFirst hBefore _ => hTables page hFirst hBefore
    exact ⟨(hCovers.exact (by omega)).1 page, fun hPage =>
      hCovers.covered page hPage.1 hPage.2 (by simp only [regionEnd]; omega)⟩

/-- The pages up to the first missing table are visited. -/
theorem mem_visited_of_tables (hStop : stop < 512 ^ 4) (hFirst : start ≤ page) (hLast : page < stop)
    (hTables : ∀ page', start ≤ page' → page' ≤ page → hasTable m 4 root page' = true) :
    page ∈ (visited m stop 4 root 0 start).1 :=
  (visited_covers m hLast 3 (Nat.div_eq_of_lt (by omega : start < 512 ^ 4))
    fun page' hFirst' hBefore _ => hTables page' hFirst' (by omega)).covered page hFirst
      (Nat.lt_succ_self page) (by simp only [regionEnd]; omega)

/-- A walk never goes back behind the entry of the root it started at. -/
theorem visited_top (hStart : start < 512 ^ 4) (h : page ∈ (visited m stop 4 root 0 start).1) :
    start / 512 ^ 3 ≤ page / 512 ^ 3 ∧ page < 512 ^ 4 := by
  have hRegion := visited_region h
  rw [visited_succ] at h
  obtain ⟨index, hIndex, start', found, hVisit, hMem⟩ := mem_visitEntries h
  unfold visitEntry at hVisit
  simp only at hVisit
  obtain ⟨-, hVisit⟩ := Option.ite_none_left_eq_some.mp hVisit
  rw [← Option.some.inj hVisit] at hMem
  rw [visited_region hMem]
  simp only [List.mem_range'_1, pageTableIndex] at hIndex
  omega

end D3OS.Memory
