import D3OS.Memory.Translation

/-! The flags of page table entries. `set_flags` rewrites the flags of every
level 1 entry its walk visits, used or not. `map` gives its flags to the level 1
entries and to the tables it adds; a table that is there already keeps the flags
of the call that added it. -/
namespace D3OS.Memory

open PageTableEntry (unused)
open Outcome
open Paging

/-- The flags of the entries for these pages have been rewritten, and nothing
else in memory has changed. -/
structure Reflagged (root : Nat) (m : Machine) (own : Nat → Option Node) (flags : PageTableFlags)
    (pages : List Nat) (m' : Machine) : Prop extends Grows root m own m' own where
  frames_eq : m'.frames = m.frames
  untouched : ∀ frame, own frame = none → ∀ index, m'.read frame index = m.read frame index
  above : ∀ table node, own table = some node → 2 ≤ node.level → ∀ index,
    m'.read table index = m.read table index
  view : ∀ page < 512 ^ 4, entryAt m' root page =
    if page ∈ pages then ⟨(entryAt m root page).frame, flags⟩ else entryAt m root page

variable {table region index root : Nat} {profile : BuildProfile}

namespace Reflagged

variable {root : Nat} {m m₁ m₂ : Machine} {own : Nat → Option Node} {flags : PageTableFlags}
  {pages pages₂ : List Nat}

theorem refl (root : Nat) (flags : PageTableFlags) (h : Tables m own) :
    Reflagged root m own flags [] m where
  toGrows := Grows.refl root h
  frames_eq := rfl
  untouched _ _ _ := rfl
  above _ _ _ _ _ := rfl
  view page _ := by simp

theorem trans (h : Reflagged root m own flags pages m₁)
    (h' : Reflagged root m₁ own flags pages₂ m₂) :
    Reflagged root m own flags (pages ++ pages₂) m₂ where
  toGrows := h.toGrows.trans h'.toGrows
  frames_eq := h'.frames_eq.trans h.frames_eq
  untouched frame hNone index :=
    (h'.untouched frame hNone index).trans (h.untouched frame hNone index)
  above table node hOwn hLevel index :=
    (h'.above table node hOwn hLevel index).trans (h.above table node hOwn hLevel index)
  view page hPage := by
    rw [h'.view page hPage, h.view page hPage]
    by_cases hFirst : page ∈ pages <;> by_cases hSecond : page ∈ pages₂ <;> simp [hFirst, hSecond]

/-- One level 1 entry. -/
theorem write (h : Tables m own) (hOwn : own table = some ⟨root, 1, region⟩)
    (hIndex : index < 512) :
    Reflagged root m own flags [region * 512 + index]
      (m.write table index ⟨(m.read table index).frame, flags⟩) := by
  obtain ⟨hPage, hEntry⟩ := h.entryAt_leaf hOwn hIndex
  have hWrite := Mapped.write h hOwn hIndex ⟨(m.read table index).frame, flags⟩
  refine ⟨hWrite.toGrows, rfl, ?_, ?_, ?_⟩
  · intro frame hNone i
    have hNe : frame ≠ table := by
      rintro rfl
      simp [hOwn] at hNone
    rw [Machine.read_write, if_neg (by simp [hNe])]
  · intro table' node hOwn' hLevel i
    have hNe : table' ≠ table := by grind
    rw [Machine.read_write, if_neg (by simp [hNe])]
  · intro page hLt
    rw [hWrite.view page hLt]
    by_cases hEq : page = region * 512 + index
    · subst hEq
      rw [overwrite_of_lt le_rfl (by simp), if_pos (by simp), hEntry]
      simp
    · rw [overwrite_of_outside (by simp; omega), if_neg (by simpa using hEq)]

end Reflagged

/-- The allocator keeps its state whatever the tables look like. -/
theorem Paging.setFlags_frames {paging : Paging} {m m' : Machine} {pages : PageRange}
    {flags : PageTableFlags} (h : paging.setFlags profile m pages flags = .ok m') :
    m'.frames = m.frames := by
  obtain ⟨⟨m₁, count⟩, hTable, hEq⟩ := bind_ok h
  obtain rfl := pure_ok hEq
  exact (setFlagsInTable_keeps profile (·.frames = m.frames) (fun _ _ => True)
    (fun _ _ _ _ _ => trivial) (fun hFrames _ _ _ _ => hFrames) paging.depth rfl trivial).of_ok
    hTable

/-- `set_flags_in_table` on a level 1 table. -/
theorem setFlagsLeaves_spec (profile : BuildProfile) (flags : PageTableFlags) {m : Machine}
    {own : Nat → Option Node} (h : Tables m own) {pages : PageRange}
    (hOwn : own table = some ⟨root, 1, region⟩) :
    Yields (Walkable pages) (setFlagsInTable profile flags 1 m table pages)
      fun (m', count) => count = (visited m pages.stop 1 table region pages.start).2 ∧
        Reflagged root m own flags (visited m pages.stop 1 table region pages.start).1 m' :=
  visitLeaves_spec (Reflagged root m own flags) (Reflagged.refl root flags h)
    fun _ _ _ hi _ hInv => Yields.pure (hInv.trans (Reflagged.write hInv.tables hOwn hi))

/-- `set_flags_in_table` rewrites the flags of the visited pages. It can only
panic where the address arithmetic does. -/
theorem setFlagsInTable_reflagged (profile : BuildProfile) (flags : PageTableFlags) (level : Nat)
    {m : Machine} {own : Nat → Option Node} (h : Tables m own) {table root region : Nat}
    {pages : PageRange} (hOwn : own table = some ⟨root, level + 1, region⟩)
    (hValid : Page.Valid pages.start) :
    Yields (Walkable pages) (setFlagsInTable profile flags (level + 1) m table pages)
      fun (m', count) =>
        count = (visited m pages.stop (level + 1) table region pages.start).2 ∧
          Reflagged root m own flags
            (visited m pages.stop (level + 1) table region pages.start).1 m' := by
  induction level generalizing m table region pages with
  | zero => exact setFlagsLeaves_spec profile flags h hOwn
  | succ level ih =>
    have hIndex := pageTableIndex_lt pages.start (level + 2)
    obtain ⟨hCountLe, -⟩ := visited_count_le m pages.stop (level + 1) table region pages.start
    let ahead (i start : Nat) := visitEntries (visitEntry m pages.stop level table region)
      pages.stop (List.range' i (512 - i)) start
    let walk := visited m pages.stop (level + 2) table region pages.start
    let inv (i : Nat) (s : Machine × Nat × Nat) : Prop :=
      s.2.1 = pages.start + s.2.2 ∧ Page.Valid s.2.1 ∧ ∃ done,
        Reflagged root m own flags done s.1 ∧
        walk = (done ++ (ahead i s.2.1).1, s.2.2 + (ahead i s.2.1).2)
    let post (s : Machine × Nat × Nat) : Prop :=
      s.2.2 = walk.2 ∧ Reflagged root m own flags walk.1 s.1
    have hInit : inv (pageTableIndex pages.start (level + 2)) (m, pages.start, 0) := by
      refine ⟨rfl, hValid, [], Reflagged.refl root flags h, ?_⟩
      simp only [walk, ahead, visited_succ, List.nil_append, Nat.zero_add]
    refine (Yields.forIn_range' inv post hInit ?_ ?_).bind fun s hPost => Yields.pure hPost
    · rintro i ⟨mᵢ, start, total⟩ hFirst hi ⟨hStart, hValidᵢ, done, hDone, hWalk⟩
      simp only at hStart hValidᵢ hDone hWalk
      subst hStart
      have hi : i < 512 := by omega
      have hRead := hDone.above table _ hOwn (by simp)
      simp only [hRead]
      by_cases hUsed : m.read table i = unused
      · rw [if_pos (by simpa using hUsed)]
        refine Yields.pure ⟨rfl, hValidᵢ, done, hDone, ?_⟩
        rw [hWalk]
        simp only [ahead]
        rw [visitEntries_skip hi (by simp [visitEntry, hUsed])]
      · rw [if_neg (by simpa using hUsed)]
        have hChild := h.down hOwn hi hUsed
        obtain ⟨found, count, hFound⟩ : ∃ found count, visited m pages.stop (level + 1)
          (m.read table i).frame (region * 512 + i) (pages.start + total) = (found, count) :=
          ⟨_, _, rfl⟩
        -- the tables above level 1 are as at the start, so the walk below is, too
        have hSame := visited_congr h pages.stop level (pages.start + total) hChild
          fun table' node hOwn' _ hAbove index _ => hDone.above table' node hOwn' hAbove index
        rw [hFound] at hSame
        have hAhead : ahead i (pages.start + total) =
            if pages.start + total + count ≥ pages.stop then (found, count)
            else (found ++ (ahead (i + 1) (pages.start + total + count)).1,
              count + (ahead (i + 1) (pages.start + total + count)).2) :=
          visitEntries_used hi (by simp [visitEntry, hUsed, hFound])
        rw [hAhead] at hWalk
        have hTotal : total + count ≤ pages.stop - pages.start := by grind
        refine ((@ih mᵢ hDone.tables _ _ ⟨pages.start + total, pages.stop⟩ hChild
          hValidᵢ).weaken fun hWalk => hWalk.advance (by have := hWalk.1; omega)).bind ?_
        rintro ⟨m₂, edited⟩ ⟨hEdited, hBelow⟩
        simp only [hSame] at hEdited hBelow
        subst hEdited
        have hBound : edited ≤ 512 ^ 4 := by
          have hLe := h.visited_count_le hChild pages.stop (pages.start + total)
          rwa [hFound] at hLe
        refine ((Page.add_spec profile hValidᵢ hBound).weaken fun hWalk =>
          hWalk.2 _ (by omega) (by have := hWalk.1; omega)).bind ?_
        rintro _ ⟨rfl, hValid', -⟩
        split
        case isTrue hEnd =>
          rw [if_pos hEnd] at hWalk
          exact Yields.pure ⟨by rw [hWalk], by rw [hWalk]; exact hDone.trans hBelow⟩
        case isFalse hGoOn =>
          rw [if_neg hGoOn] at hWalk
          refine Yields.pure ⟨Nat.add_assoc .., hValid', done ++ found, hDone.trans hBelow, ?_⟩
          rw [hWalk]
          simp only [List.append_assoc, Nat.add_assoc]
    · rintro ⟨m', start, total⟩ ⟨-, -, done, hDone, hWalk⟩
      simp only at hDone hWalk
      rw [show pageTableIndex pages.start (level + 2) +
        (512 - pageTableIndex pages.start (level + 2)) = 512 by omega] at hWalk
      have hEmpty : ahead 512 start = ([], 0) := rfl
      rw [hEmpty, List.append_nil, Nat.add_zero] at hWalk
      exact ⟨by rw [hWalk], by rw [hWalk]; exact hDone⟩

namespace Paging

variable {m m' : Machine} {own own' : Nat → Option Node} {self : Paging}

/-- The pages whose level 1 entries a call of `set_flags` visits, as the tree
numbers them. -/
def walked (self : Paging) (m : Machine) (pages : PageRange) : List Nat :=
  (visited m pages.stop self.depth self.rootTable 0 pages.start).1

theorem IsTree.setFlags_reflagged (h : IsTree m own self) (profile : BuildProfile)
    (flags : PageTableFlags) {pages : PageRange} (hWalkable : Walkable pages) :
    ∃ m', self.setFlags profile m pages flags = .ok m' ∧
      Reflagged self.rootTable m own flags (self.walked m pages) m' := by
  have hValid : Page.Valid pages.start := hWalkable.2 _ le_rfl hWalkable.1
  obtain ⟨⟨m', count⟩, hRun, -, hReflagged⟩ :=
    (setFlagsInTable_reflagged profile flags 3 h.tables h.root_own hValid).exists_ok hWalkable
  refine ⟨m', ?_, ?_⟩
  · unfold setFlags
    rw [h.depth_eq, hRun]
    rfl
  · unfold walked
    rwa [h.depth_eq]

/-- The entry of the given level that a walk for `page` comes through, unused if
the walk ends before. -/
def entryOnPath (m : Machine) (target : Nat) : Nat → Nat → Nat → PageTableEntry
  | level + 2, table, page =>
    let entry := m.read table (pageTableIndex page (level + 2))
    if level + 2 = target then entry
    else if entry.isUnused then unused
    else entryOnPath m target (level + 1) entry.frame page
  | _, table, page => m.read table (pageTableIndex page 1)

/-- The lowest entry on the path is the one that translates the page. -/
theorem entryOnPath_one (m : Machine) (level table page : Nat) :
    entryOnPath m 1 level table page = leafEntry m level table page := by
  fun_induction entryOnPath m 1 level table page with
  | case1 level table page entry hTarget => omega
  | case2 level table page entry hTarget hUnused => simp_all [leafEntry, entry]
  | case3 level table page entry hTarget hUsed ih => simp_all [leafEntry, entry]
  | case4 level table page hLevel => simp_all [leafEntry]

variable {level page : Nat}

theorem entryOnPath_mod (m : Machine) (target : Nat) (hLevel : level + 1 ≤ 4) (table page : Nat) :
    entryOnPath m target (level + 1) table (page % 512 ^ 4) =
      entryOnPath m target (level + 1) table page := by
  induction level generalizing table with
  | zero => simp only [entryOnPath, pageTableIndex_mod page hLevel]
  | succ level ih =>
    simp only [entryOnPath, pageTableIndex_mod page hLevel]
    rw [ih (by omega)]

/-- The entry is found in the table for its level, if there is one. -/
theorem entryOnPath_of_own (h : Tables m own) {top target : Nat}
    (hTop : own top = some ⟨root, level + 1, page / 512 ^ (level + 1)⟩)
    (hTable : own table = some ⟨root, target + 2, page / 512 ^ (target + 2)⟩)
    (hTarget : target + 2 ≤ level + 1) :
    entryOnPath m (target + 2) (level + 1) top page =
      m.read table (pageTableIndex page (target + 2)) := by
  induction level generalizing top with
  | zero => omega
  | succ level ih =>
    have hLe := h.level_le hTop
    simp only at hLe
    simp only [entryOnPath]
    split
    case isTrue hEq =>
      obtain rfl : level = target := by omega
      rw [h.unique hTop hTable]
    case isFalse hNe =>
      obtain ⟨child, hChild⟩ := h.ancestor hTable (level + 1 - (target + 2)) (by omega)
      rw [Nat.div_div_eq_div_mul, ← Nat.pow_add,
        show target + 2 + (level + 1 - (target + 2)) = level + 1 by omega] at hChild
      obtain ⟨hUsed, hFrame⟩ := h.child hTop hChild
      rw [if_neg (by simpa using hUsed), hFrame]
      exact ih hChild (by omega)

theorem exists_own_of_entryOnPath (h : Tables m own) {top target : Nat}
    (hTop : own top = some ⟨root, level + 1, page / 512 ^ (level + 1)⟩)
    (hTarget : target + 2 ≤ level + 1)
    (hUsed : entryOnPath m (target + 2) (level + 1) top page ≠ unused) :
    ∃ table, own table = some ⟨root, target + 2, page / 512 ^ (target + 2)⟩ := by
  induction level generalizing top with
  | zero => omega
  | succ level ih =>
    simp only [entryOnPath] at hUsed
    split at hUsed
    case isTrue hEq =>
      obtain rfl : level = target := by omega
      exact ⟨top, hTop⟩
    case isFalse hNe =>
      split at hUsed
      · exact absurd rfl hUsed
      case isFalse hEntry =>
        have hDown := h.down hTop (pageTableIndex_lt page (level + 2)) (by simpa using hEntry)
        rw [region_eq] at hDown
        exact ih hDown (by omega) hUsed

/-- A page whose level 1 entry is used has all entries on its path in use. -/
theorem leafEntry_of_entryOnPath (m : Machine) (target level table page : Nat)
    (hUnused : entryOnPath m (target + 1) level table page = unused) (hTarget : target + 1 ≤ level) :
    leafEntry m level table page = unused := by
  fun_induction entryOnPath m (target + 1) level table page with
  | case1 level table page entry hEq => simp_all [leafEntry, entry]
  | case2 level table page entry hNe hEntry => simp_all [leafEntry, entry]
  | case3 level table page entry hNe hEntry ih =>
    simp only [leafEntry, entry] at hEntry ⊢
    rw [if_neg hEntry]
    exact ih hUnused (by omega)
  | case4 level table page hLevel =>
    cases level with
    | zero => omega
    | succ level =>
      cases level with
      | zero => exact hUnused
      | succ level => exact absurd rfl (hLevel level)

/-! ### The flags that a mapping leaves on the path -/

/-- The tables above level 1 keep their used entries, and an entry that is new
in them has the given flags. -/
structure KeepsAbove (flags : PageTableFlags) (m : Machine) (own : Nat → Option Node)
    (m' : Machine) (own' : Nat → Option Node) : Prop where
  kept : ∀ table node, own table = some node → 2 ≤ node.level → ∀ index,
    m.read table index ≠ unused → m'.read table index = m.read table index
  added : ∀ table node, own' table = some node → 2 ≤ node.level → ∀ index,
    m'.read table index ≠ unused →
    own table = some node ∧ m'.read table index = m.read table index ∨
      (m'.read table index).flags = flags

theorem KeepsAbove.of_same (flags : PageTableFlags)
    (h : ∀ table node, own table = some node → 2 ≤ node.level → ∀ index,
      m'.read table index = m.read table index) : KeepsAbove flags m own m' own where
  kept table node hOwn hLevel index _ := h table node hOwn hLevel index
  added table node hOwn hLevel index _ := .inl ⟨hOwn, h table node hOwn hLevel index⟩

theorem KeepsAbove.trans {flags : PageTableFlags} {m₁ m₂ : Machine}
    {own₁ own₂ : Nat → Option Node} (h : KeepsAbove flags m own m₁ own₁)
    (hKeeps : ∀ {table node}, own table = some node → own₁ table = some node)
    (h' : KeepsAbove flags m₁ own₁ m₂ own₂) : KeepsAbove flags m own m₂ own₂ where
  kept table node hOwn hLevel index hUsed := by
    have hFirst := h.kept table node hOwn hLevel index hUsed
    rw [h'.kept table node (hKeeps hOwn) hLevel index (by rwa [hFirst]), hFirst]
  added table node hOwn hLevel index hUsed := by
    rcases h'.added table node hOwn hLevel index hUsed with ⟨hOwn₁, hSame⟩ | hFlags
    · rw [hSame] at hUsed ⊢
      exact h.added table node hOwn₁ hLevel index hUsed
    · exact .inr hFlags

/-- A table for the next level: the one that is there, or a new one whose entry
has the flags of the call. -/
theorem nextLevelTable_above (h : Tables m own) (flags : PageTableFlags)
    (hOwn : own table = some ⟨root, level + 2, region⟩) (hIndex : index < 512) :
    Yields False (nextLevelTable m table index flags) fun (child, m') =>
      ∃ own', Grows root m own m' own' ∧ KeepsAbove flags m own m' own' ∧
        own' child = some ⟨root, level + 1, region * 512 + index⟩ := by
  unfold nextLevelTable
  by_cases hUnused : m.read table index = unused
  · rw [if_pos (by simpa using hUnused)]
    refine (Machine.alloc_one h.sound).bind ?_
    rintro ⟨range, m₁⟩ hAlloc
    refine (PageTableEntry.setFrame_spec _ _).bind ?_
    rintro _ rfl
    have hMapped := Mapped.attach 0 h flags hOwn hIndex hUnused hAlloc
    have hFree : range.start ∈ m.freeSet := hAlloc.free rfl
    have hRead : ∀ table' node, own table' = some node → ∀ i,
        ((m₁.write table index ⟨range.start, flags⟩).zero range.start).read table' i =
          if table' = table ∧ i = index then ⟨range.start, flags⟩ else m.read table' i := by
      intro table' node hOwn' i
      have hNe : table' ≠ range.start := fun hEq => h.not_free hOwn' (hEq ▸ hFree)
      rw [Machine.read_zero, if_neg hNe, Machine.read_write, hAlloc.read_eq _ (h.not_free hOwn')]
    refine Yields.pure ⟨_, hMapped.toGrows, ⟨?_, ?_⟩, Function.update_self ..⟩
    · grind
    · intro table' node hOwn' _ i hUsed
      rw [Function.update_apply] at hOwn'
      split at hOwn'
      case isTrue hNew => simp [hNew] at hUsed
      case isFalse => grind
  · rw [if_neg (by simpa using hUnused)]
    exact Yields.pure ⟨own, Grows.refl root h, KeepsAbove.of_same flags fun _ _ _ _ _ => rfl,
      h.down hOwn hIndex hUnused⟩

/-- The machine has changed in level 1 tables of the tree and in free frames
only. -/
structure OnlyLeaves (root : Nat) (m : Machine) (own : Nat → Option Node) (m' : Machine) :
    Prop extends Grows root m own m' own where
  same : ∀ table node, own table = some node → 2 ≤ node.level → ∀ index,
    m'.read table index = m.read table index

theorem OnlyLeaves.write {m₁ : Machine} (h : OnlyLeaves root m own m₁)
    (hOwn : own table = some ⟨root, 1, region⟩) (hIndex : index < 512) (entry : PageTableEntry) :
    OnlyLeaves root m own (m₁.write table index entry) where
  toGrows := h.toGrows.trans (Mapped.write h.tables hOwn hIndex entry).toGrows
  same table' node hOwn' hLevel i := by
    have hNe : table' ≠ table := by grind
    rw [Machine.read_write, if_neg (by simp [hNe]), h.same table' node hOwn' hLevel]

theorem OnlyLeaves.alloc {root : Nat} {m₁ m₂ : Machine} {taken : Set Nat}
    (h : OnlyLeaves root m own m₁) (hAlloc : Machine.Allocated m₁ taken m₂) :
    OnlyLeaves root m own m₂ where
  toGrows := h.toGrows.trans (Grows.of_allocated h.tables root hAlloc)
  same table node hOwn hLevel index := by
    rw [hAlloc.read_eq table (h.tables.not_free hOwn), h.same table node hOwn hLevel]

theorem mapLeaves_onlyLeaves (h : Tables m own) {frames : Frames.PhysFrameRange} {pages : PageRange}
    (space : MemorySpace) (flags : PageTableFlags) (hOwn : own table = some ⟨root, 1, region⟩) :
    Yields False (mapLeaves m table frames pages space flags) fun (m', _) =>
      OnlyLeaves root m own m' := by
  refine (mapLeaves_loop (fun _ => OnlyLeaves root m own)
    ⟨Grows.refl root h, fun _ _ _ _ _ => rfl⟩ ?_ ?_ ?_).mono fun _ hPost => hPost.2.2
  · exact fun _ _ hInv => hInv.tables.sound
  · exact fun _ _ _ hi hInv _ => hInv.write hOwn hi _
  · exact fun _ _ _ _ hi hInv _ _ hAlloc => (hInv.alloc hAlloc).write hOwn hi _

/-- `map_in_table` leaves the entries above level 1 alone that are in use. -/
theorem mapInTable_above (profile : BuildProfile) (space : MemorySpace) (flags : PageTableFlags)
    (level : Nat) (h : Tables m own) {table root region : Nat} {frames : Frames.PhysFrameRange}
    {pages : PageRange} (hOwn : own table = some ⟨root, level + 1, region⟩) :
    Yields False (mapInTable profile (level + 1) m table frames pages space flags)
      fun (m', _) => ∃ own', Grows root m own m' own' ∧ KeepsAbove flags m own m' own' := by
  induction level generalizing m own table region frames pages with
  | zero =>
    refine (mapLeaves_onlyLeaves h space flags hOwn).mono ?_
    rintro ⟨m', count⟩ hLeaves
    exact ⟨own, hLeaves.toGrows, KeepsAbove.of_same flags hLeaves.same⟩
  | succ level ih =>
    have hIndex := pageTableIndex_lt pages.start (level + 2)
    let inv (_ : Nat) (s : Machine × Frames.PhysFrameRange × Nat × Nat) : Prop :=
      ∃ own', Grows root m own s.1 own' ∧ KeepsAbove flags m own s.1 own'
    have hInit : inv 0 (m, frames, pages.start, 0) :=
      ⟨own, Grows.refl root h, KeepsAbove.of_same flags fun _ _ _ _ _ => rfl⟩
    refine (Yields.forIn_range' inv (inv 0) hInit ?_ fun _ hInv => hInv).bind
      fun s hInv => Yields.pure hInv
    rintro i ⟨mᵢ, framesᵢ, start, total⟩ hFirst hi ⟨ownᵢ, hGrows, hKeeps⟩
    refine (nextLevelTable_above hGrows.tables flags (hGrows.keeps hOwn)
      (show i < 512 by omega)).bind ?_
    rintro ⟨child, m₂⟩ ⟨own₂, hGrows₂, hKeeps₂, hChild⟩
    refine (@ih m₂ own₂ hGrows₂.tables _ _ framesᵢ ⟨start, pages.stop⟩ hChild).bind ?_
    rintro ⟨m₃, count⟩ ⟨own₃, hGrows₃, hKeeps₃⟩
    have hAll : inv (i + 1) (m₃, framesᵢ, start, total) :=
      ⟨own₃, (hGrows.trans hGrows₂).trans hGrows₃,
        (hKeeps.trans hGrows.keeps hKeeps₂).trans (hGrows.trans hGrows₂).keeps hKeeps₃⟩
    refine (Yields.any _).bind ?_
    rintro start' -
    split
    · exact Yields.pure hAll
    · exact Yields.pure hAll

/-- A call of `map` or `map_physical`. -/
inductive MapCall where
  | map (pages : PageRange) (space : MemorySpace) (flags : PageTableFlags)
  | mapPhysical (frames : Frames.PhysFrameRange) (pages : PageRange) (space : MemorySpace)
      (flags : PageTableFlags)

variable {call : MapCall}

namespace MapCall

def pages : MapCall → PageRange
  | map pages _ _ => pages
  | mapPhysical _ pages _ _ => pages

def flags : MapCall → PageTableFlags
  | map _ _ flags => flags
  | mapPhysical _ _ _ flags => flags

def run (profile : BuildProfile) (self : Paging) (m : Machine) : MapCall → Except Panic Machine
  | map pages space flags => self.map profile m pages space flags
  | mapPhysical frames pages space flags => self.mapPhysical profile m frames pages space flags

theorem run_ok (hDepth : self.depth = 4) (h : call.run profile self m = .ok m') :
    ∃ frames space count,
      mapInTable profile 4 m self.rootTable frames call.pages space call.flags = .ok (m', count) ∧
        Supplies frames call.pages.start call.pages.stop := by
  cases call with
  | map pages space flags =>
    obtain ⟨count, hWalk⟩ := map_ok hDepth h
    exact ⟨_, space, count, hWalk, .inl rfl⟩
  | mapPhysical frames pages space flags =>
    obtain ⟨⟨count, hWalk⟩, hSupplies, -⟩ := mapPhysical_ok hDepth h
    exact ⟨frames, space, count, hWalk, hSupplies⟩

end MapCall

/-- The level 1 entries of the range get the flags of the call. -/
theorem IsTree.mapCall_leaf (h : IsTree m own self) (hValid : Page.Valid call.pages.start)
    (hRun : call.run profile self m = .ok m') (hHas : call.pages.Has page) :
    (entryAt m' self.rootTable page).flags = call.flags := by
  obtain ⟨frames, space, count, hWalk, hSupplies⟩ := MapCall.run_ok h.depth_eq hRun
  obtain ⟨-, hEnd, own', entries, fresh, hMapped, hLength, hFilling⟩ :=
    (mapInTable_root_spec profile space call.flags h.tables h.root_own hValid hSupplies).of_ok hWalk
  have hSlot : page % 512 ^ 4 = call.pages.start % 512 ^ 4 + (page - call.pages.start) := by
    unfold PageRange.Has at hHas
    omega
  have hIn : page % 512 ^ 4 - call.pages.start % 512 ^ 4 < entries.length := by
    unfold PageRange.Has at hHas
    omega
  rw [← entryAt_mod, hMapped.view _ (Nat.mod_lt _ (by decide)),
    overwrite_of_lt (by omega) hIn]
  exact hFilling.flags_eq _ (List.getElem_mem hIn)

theorem IsTree.mapCall (h : IsTree m own self) (hRun : call.run profile self m = .ok m') :
    ∃ own', IsTree m' own' self ∧
      (∀ {table node}, own table = some node → own' table = some node) ∧
      KeepsAbove call.flags m own m' own' := by
  obtain ⟨frames, space, count, hWalk, -⟩ := MapCall.run_ok h.depth_eq hRun
  obtain ⟨own', hGrows, hKeeps⟩ :=
    (mapInTable_above profile space call.flags 3 h.tables h.root_own).of_ok hWalk
  exact ⟨own', ⟨hGrows.tables, h.depth_eq, hGrows.keeps h.root_own⟩, hGrows.keeps, hKeeps⟩

/-- The flags contain all bits of `bit`. -/
def Contains (flags bit : PageTableFlags) : Prop := flags &&& bit = bit

instance (flags bit : PageTableFlags) : Decidable (Contains flags bit) :=
  inferInstanceAs (Decidable (_ = _))

/-- The bits that the processor asks of all entries on the path. -/
def accessBits : List PageTableFlags := [PageTableFlags.WRITABLE, PageTableFlags.USER_ACCESSIBLE]

/-- All four entries on the way to a page of the call have the access bits that
the call asked for. -/
def Accessible (self : Paging) (m : Machine) (call : MapCall) : Prop :=
  ∀ page, call.pages.Has page → ∀ bit ∈ accessBits, Contains call.flags bit →
    ∀ level, 1 ≤ level → level ≤ 4 →
      Contains (entryOnPath m level 4 self.rootTable page).flags bit

/-- The tables that are there on the way to a page of the call have these bits. -/
def PathOpen (self : Paging) (m : Machine) (call : MapCall) : Prop :=
  ∀ page, call.pages.Has page → ∀ bit ∈ accessBits, Contains call.flags bit →
    ∀ level, 2 ≤ level → level ≤ 4 → entryOnPath m level 4 self.rootTable page ≠ unused →
      Contains (entryOnPath m level 4 self.rootTable page).flags bit

/-- A sequence of such calls on one tree. -/
def MapCalls (profile : BuildProfile) (self : Paging) : Machine → Machine → Prop :=
  Relation.ReflTransGen fun m m' => ∃ call : MapCall, call.run profile self m = .ok m'

theorem IsTree.mapCalls (h : IsTree m own self) (hCalls : MapCalls profile self m m') :
    ∃ own', IsTree m' own' self := by
  induction hCalls with
  | refl => exact ⟨own, h⟩
  | tail _ hStep ih =>
    obtain ⟨own₁, hTree⟩ := ih
    obtain ⟨call, hRun⟩ := hStep
    obtain ⟨own₂, hTree₂, -⟩ := hTree.mapCall hRun
    exact ⟨own₂, hTree₂⟩

section Path

variable {profile : BuildProfile} {call : MapCall} {page target : Nat}

theorem IsTree.top_own (h : IsTree m own self) (page : Nat) :
    own self.rootTable = some ⟨self.rootTable, 3 + 1, page % 512 ^ 4 / 512 ^ (3 + 1)⟩ := by
  rw [Nat.div_eq_of_lt (Nat.mod_lt _ (by decide))]
  exact h.root_own

/-- An entry above level 1 that is in use is left as it is. -/
theorem IsTree.entryOnPath_kept (h : IsTree m own self) (hRun : call.run profile self m = .ok m')
    (hTarget : target + 2 ≤ 4)
    (hUsed : entryOnPath m (target + 2) 4 self.rootTable page ≠ unused) :
    entryOnPath m' (target + 2) 4 self.rootTable page =
      entryOnPath m (target + 2) 4 self.rootTable page := by
  obtain ⟨own', hTree, hOwn, hKeeps⟩ := h.mapCall hRun
  rw [← entryOnPath_mod m (target + 2) (by decide)] at hUsed ⊢
  rw [← entryOnPath_mod m' (target + 2) (by decide)]
  obtain ⟨table, hTable⟩ := exists_own_of_entryOnPath h.tables (h.top_own page) hTarget hUsed
  rw [entryOnPath_of_own h.tables (h.top_own page) hTable hTarget] at hUsed ⊢
  rw [entryOnPath_of_own hTree.tables (hTree.top_own page) (hOwn hTable) hTarget]
  exact hKeeps.kept _ _ hTable (by simp) _ hUsed

/-- An entry above level 1 that is in use after the call was so before or has
the flags of the call. -/
theorem IsTree.entryOnPath_added (h : IsTree m own self) (hRun : call.run profile self m = .ok m')
    (hTarget : target + 2 ≤ 4)
    (hUsed : entryOnPath m' (target + 2) 4 self.rootTable page ≠ unused) :
    entryOnPath m (target + 2) 4 self.rootTable page ≠ unused ∨
      (entryOnPath m' (target + 2) 4 self.rootTable page).flags = call.flags := by
  obtain ⟨own', hTree, hOwn, hKeeps⟩ := h.mapCall hRun
  rw [← entryOnPath_mod m (target + 2) (by decide)]
  rw [← entryOnPath_mod m' (target + 2) (by decide)] at hUsed ⊢
  obtain ⟨table, hTable⟩ := exists_own_of_entryOnPath hTree.tables (hTree.top_own page) hTarget hUsed
  rw [entryOnPath_of_own hTree.tables (hTree.top_own page) hTable hTarget] at hUsed ⊢
  rcases hKeeps.added _ _ hTable (by simp) _ hUsed with ⟨hBefore, hSame⟩ | hFlags
  · rw [entryOnPath_of_own h.tables (h.top_own page) hBefore hTarget, ← hSame]
    exact .inl hUsed
  · exact .inr hFlags

end Path

theorem accessBits_ne_zero {bit : PageTableFlags} (hBit : bit ∈ accessBits) : bit ≠ 0 := by
  simp only [accessBits, List.mem_cons, List.not_mem_nil, or_false] at hBit
  rcases hBit with rfl | rfl
  · decide
  · decide

/-- In every sequence of calls of `map` and `map_physical`, the pages of a call
get the access that it asks for exactly if the upper tables that are already
there on the way to them allow it: the flags of a table are those of the call
that made it, and no later call adds to them. -/
theorem mapped_accessible_iff {m₀ : Machine} {profile : BuildProfile} {call : MapCall}
    (h : IsTree m₀ own self) (hCalls : MapCalls profile self m₀ m)
    (hValid : Page.Valid call.pages.start) (hRun : call.run profile self m = .ok m') :
    Accessible self m' call ↔ PathOpen self m call := by
  obtain ⟨own₁, hTree⟩ := h.mapCalls hCalls
  constructor
  · intro hAccess page hHas bit hBit hFlags level hTwo hFour hUsed
    obtain ⟨target, rfl⟩ : ∃ target, level = target + 2 := ⟨level - 2, by omega⟩
    rw [← hTree.entryOnPath_kept hRun hFour hUsed]
    exact hAccess page hHas bit hBit hFlags _ (by omega) hFour
  · intro hOpen page hHas bit hBit hFlags level hOne hFour
    have hLeaf := hTree.mapCall_leaf hValid hRun hHas
    -- The flags of the call are not empty, so that its level 1 entries are in use.
    have hLeafUsed : leafEntry m' 4 self.rootTable page ≠ unused := by
      intro hUnused
      rw [entryAt, hUnused] at hLeaf
      rw [← hLeaf] at hFlags
      exact accessBits_ne_zero hBit (by simpa [Contains, unused] using hFlags.symm)
    obtain rfl | hTwo : level = 1 ∨ 2 ≤ level := by omega
    · rw [entryOnPath_one]
      exact (congrArg (Contains · bit) hLeaf).mpr hFlags
    · obtain ⟨target, rfl⟩ : ∃ target, level = target + 2 := ⟨level - 2, by omega⟩
      have hUsed : entryOnPath m' (target + 2) 4 self.rootTable page ≠ unused :=
        fun hUnused => hLeafUsed (leafEntry_of_entryOnPath m' (target + 1) 4 _ page hUnused hFour)
      rcases hTree.entryOnPath_added hRun hFour hUsed with hBefore | hNew
      · rw [hTree.entryOnPath_kept hRun hFour hBefore]
        exact hOpen page hHas bit hBit hFlags _ hTwo hFour hBefore
      · rw [hNew]
        exact hFlags

/-- A user page is mapped next to another one. -/
def userNeighbour : MapCall := .map ⟨513, 514⟩ .user USER_PAGE_FLAGS

theorem userNeighbour_open (hFlags : [2, 3, 4].map (fun level =>
    (entryOnPath m level 4 self.rootTable 513).flags) =
      [USER_PAGE_FLAGS, USER_PAGE_FLAGS, USER_PAGE_FLAGS]) : PathOpen self m userNeighbour := by
  intro page hHas bit _ hBit level hTwo hFour _
  obtain rfl : page = 513 := by
    simp only [userNeighbour, MapCall.pages, PageRange.Has] at hHas
    omega
  simp only [List.map_cons, List.map_nil, List.cons.injEq, and_true] at hFlags
  obtain ⟨hSecond, hThird, hFourth⟩ := hFlags
  obtain rfl | rfl | rfl : level = 2 ∨ level = 3 ∨ level = 4 := by omega
  · rwa [hSecond]
  · rwa [hThird]
  · rwa [hFourth]

/-- Next to a user page, a second one is accessible. -/
theorem mapped_accessible_of_neighbour : ∃ self m m', onePage = .ok (self, m) ∧
    userNeighbour.run .development self m = .ok m' ∧ Accessible self m' userNeighbour := by
  have hWalk : ((andThen onePage fun self m => userNeighbour.run .development self m).map fun r =>
        [2, 3, 4].map fun level => (entryOnPath r.2.1 level 4 r.1.rootTable 513).flags).toOption =
      some [USER_PAGE_FLAGS, USER_PAGE_FLAGS, USER_PAGE_FLAGS] := by decide +kernel
  obtain ⟨self, m, m', hPage, hMap, hFlags⟩ := andThen_ok hWalk
  obtain ⟨own, hTree, -⟩ := onePage_tree hPage
  have hIff : Accessible self m' userNeighbour ↔ PathOpen self m userNeighbour :=
    mapped_accessible_iff hTree .refl (show Page.Valid 513 by decide) hMap
  exact ⟨self, m, m', hPage, hMap, hIff.mpr (userNeighbour_open hFlags)⟩

/-- A kernel page first: the tables made for it have neither bit, and the user
page behind it cannot be reached from user mode. -/
theorem user_page_behind_kernel_tables : ∃ self m₀ own m m',
    Paging.new smallMachine 4 = .ok (self, m₀) ∧ IsTree m₀ own self ∧
    (MapCall.map ⟨512, 513⟩ .user PageTableFlags.PRESENT).run .development self m₀ = .ok m ∧
    userNeighbour.run .development self m = .ok m' ∧ ¬ Accessible self m' userNeighbour := by
  have hWalk : ((andThen (Paging.new smallMachine 4) fun self m₀ =>
      (MapCall.map ⟨512, 513⟩ .user PageTableFlags.PRESENT).run .development self m₀ >>=
        fun m => userNeighbour.run .development self m).map fun r =>
        decide (Contains (entryOnPath r.2.2 2 4 r.1.rootTable 513).flags
          PageTableFlags.USER_ACCESSIBLE)).toOption = some false := by decide +kernel
  obtain ⟨self, m₀, m', hNew, hBoth, hBits⟩ := andThen_ok hWalk
  obtain ⟨m, hFirst, hMap⟩ := bind_ok hBoth
  obtain ⟨own, hTree⟩ := new_tree hNew
  refine ⟨self, m₀, own, m, m', hNew, hTree, hFirst, hMap, fun hAccess => ?_⟩
  exact of_decide_eq_false hBits
    (hAccess 513 (by decide) _ (by simp [accessBits]) (by decide) 2 (by decide) (by decide))

end Paging

end D3OS.Memory
