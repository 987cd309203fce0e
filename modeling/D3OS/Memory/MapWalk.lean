import D3OS.Memory.Tables
import Mathlib.Data.List.Nodup

/-! What `map_in_table` does to the tree it works on. New tables come from
the free frames and are cleared; the entries of the mapped pages are
overwritten one after the other; nothing else changes. -/
namespace D3OS.Memory

open PageTableEntry (unused)
open Outcome
open Paging

/-- Pages from `first` on are given new entries. -/
def overwrite (first : Nat) (entries : List PageTableEntry) (view : Nat → PageTableEntry) :
    Nat → PageTableEntry :=
  fun page => if first ≤ page then (entries[page - first]?).getD (view page) else view page

@[simp] theorem overwrite_nil (first : Nat) (view : Nat → PageTableEntry) :
    overwrite first [] view = view := by
  funext page
  simp [overwrite]

theorem overwrite_append (first : Nat) (entries more : List PageTableEntry)
    (view : Nat → PageTableEntry) :
    overwrite (first + entries.length) more (overwrite first entries view) =
      overwrite first (entries ++ more) view := by
  funext page
  unfold overwrite
  by_cases hFirst : first ≤ page
  · grind
  · rw [if_neg (by omega), if_neg hFirst, if_neg hFirst]

/-- The state `m'` extends the tree below `root` by tables that were free;
the other trees are as in `m`. -/
structure Grows (root : Nat) (m : Machine) (own : Nat → Option Node) (m' : Machine)
    (own' : Nat → Option Node) : Prop where
  tables : Tables m' own'
  keeps : ∀ {table node}, own table = some node → own' table = some node
  attached : ∀ {table node}, own' table = some node → own table = none →
    node.root = root ∧ table ∈ m.freeSet
  shrinks : m'.freeSet ⊆ m.freeSet
  elsewhere : ∀ {table node}, own table = some node → node.root ≠ root → ∀ index,
    m'.read table index = m.read table index
  physLimit_eq : m'.frames.physLimit = m.frames.physLimit

/-- The tree below `root` grows, its pages from `first` on get the given
entries, and the free frames it takes for pages are `fresh`. -/
structure Mapped (root : Nat) (m : Machine) (own : Nat → Option Node) (first : Nat)
    (entries : List PageTableEntry) (fresh : List Nat) (m' : Machine)
    (own' : Nat → Option Node) : Prop extends Grows root m own m' own' where
  view : ∀ page < 512 ^ 4, entryAt m' root page = overwrite first entries (entryAt m root) page
  fresh_nodup : fresh.Nodup
  fresh_taken : ∀ frame ∈ fresh, frame ∈ m.freeSet ∧ frame ∉ m'.freeSet ∧ own' frame = none
  spent : ∀ frame ∈ m.freeSet, frame ∉ m'.freeSet → frame ∈ fresh ∨ own' frame ≠ none

variable {m m' : Machine} {own : Nat → Option Node}
  {frame root table region index level start stop count more : Nat} {frames : Frames.PhysFrameRange}
  {space : MemorySpace} {flags : PageTableFlags} {entries : List PageTableEntry} {fresh : List Nat}
  {pages : PageRange}

theorem Tables.none_of_free (h : Tables m own) (hFree : frame ∈ m.freeSet) : own frame = none := by
  cases hOwn : own frame with
  | none => rfl
  | some node => exact absurd hFree (h.not_free hOwn)

namespace Grows

variable {root : Nat} {m m₁ m₂ : Machine} {own own₁ own₂ : Nat → Option Node}

theorem refl (root : Nat) (h : Tables m own) : Grows root m own m own where
  tables := h
  keeps hOwn := hOwn
  attached hOwn hNone := absurd hOwn (by simp [hNone])
  shrinks := Set.Subset.rfl
  elsewhere _ _ _ := rfl
  physLimit_eq := rfl

theorem trans (h : Grows root m own m₁ own₁) (h' : Grows root m₁ own₁ m₂ own₂) :
    Grows root m own m₂ own₂ where
  tables := h'.tables
  keeps hOwn := h'.keeps (h.keeps hOwn)
  attached := by
    intro table node hOwn hNone
    cases hMid : own₁ table with
    | none => exact (h'.attached hOwn hMid).imp_right fun hMem => h.shrinks hMem
    | some node' =>
      obtain rfl : node' = node := by simpa [hOwn] using (h'.keeps hMid).symm
      exact h.attached hMid hNone
  shrinks := h'.shrinks.trans h.shrinks
  elsewhere hOwn hRoot index :=
    (h'.elsewhere (h.keeps hOwn) hRoot index).trans (h.elsewhere hOwn hRoot index)
  physLimit_eq := h'.physLimit_eq.trans h.physLimit_eq

end Grows

/-- Only the tree below `root` has changed. -/
structure Contained (root : Nat) (m : Machine) (own : Nat → Option Node) (m' : Machine)
    (own' : Nat → Option Node) : Prop where
  tables : Tables m' own'
  root_own : own' root = some ⟨root, 4, 0⟩
  others : ∀ {table node}, node.root ≠ root → (own' table = some node ↔ own table = some node)
  elsewhere : ∀ {table node}, own table = some node → node.root ≠ root → ∀ index,
    m'.read table index = m.read table index

theorem Grows.contained {own' : Nat → Option Node} (h : Grows root m own m' own')
    (hRoot : own' root = some ⟨root, 4, 0⟩) :
    Contained root m own m' own' where
  tables := h.tables
  root_own := hRoot
  others := by
    intro table node hNe
    refine ⟨fun hOwn' => ?_, h.keeps⟩
    cases hOwn : own table with
    | none => exact absurd (h.attached hOwn' hOwn).1 hNe
    | some node' => rw [← hOwn', h.keeps hOwn]
  elsewhere := h.elsewhere

/-- The other trees translate as before. -/
theorem Contained.entryAt_other {other page : Nat} {own' : Nat → Option Node} (h : Tables m own)
    (hContained : Contained root m own m' own') (hOther : own other = some ⟨other, 4, 0⟩)
    (hNe : other ≠ root) (hPage : page < 512 ^ 4) :
    entryAt m' other page = entryAt m other page := by
  refine h.entryAt_congr hContained.tables hOther ((hContained.others hNe).mpr hOther) hPage ?_ ?_
  · intro leaf hLeaf
    exact ⟨(hContained.others hNe).mpr hLeaf, hContained.elsewhere hLeaf hNe _⟩
  · intro leaf hLeaf
    exact .inl ((hContained.others hNe).mp hLeaf)

namespace Mapped

variable {root first : Nat} {m m₁ m₂ : Machine} {own own₁ own₂ : Nat → Option Node}
  {entries entries₂ : List PageTableEntry} {fresh fresh₂ : List Nat}

theorem refl (root first : Nat) (h : Tables m own) : Mapped root m own first [] [] m own where
  toGrows := Grows.refl root h
  view := by simp
  fresh_nodup := List.nodup_nil
  fresh_taken := by simp
  spent frame hFree hNot := absurd hFree hNot

theorem trans (h : Mapped root m own first entries fresh m₁ own₁)
    (h' : Mapped root m₁ own₁ (first + entries.length) entries₂ fresh₂ m₂ own₂) :
    Mapped root m own first (entries ++ entries₂) (fresh ++ fresh₂) m₂ own₂ where
  toGrows := h.toGrows.trans h'.toGrows
  view := by
    intro page hPage
    rw [h'.view page hPage, ← overwrite_append]
    simp only [overwrite, h.view page hPage]
  fresh_nodup := by
    refine List.Nodup.append h.fresh_nodup h'.fresh_nodup ?_
    intro frame hMem hMem'
    exact (h.fresh_taken frame hMem).2.1 (h'.fresh_taken frame hMem').1
  fresh_taken := by
    intro frame hMem
    rcases List.mem_append.mp hMem with hMem | hMem
    · obtain ⟨hFree, hTaken, hNone⟩ := h.fresh_taken frame hMem
      refine ⟨hFree, fun hFree' => hTaken (h'.shrinks hFree'), ?_⟩
      cases hOwn : own₂ frame with
      | none => rfl
      | some node => exact absurd (h'.attached hOwn hNone).2 hTaken
    · obtain ⟨hFree, hRest⟩ := h'.fresh_taken frame hMem
      exact ⟨h.shrinks hFree, hRest⟩
  spent := by
    intro frame hFree hNot
    by_cases hMid : frame ∈ m₁.freeSet
    · exact (h'.spent frame hMid hNot).imp_left (List.mem_append_right fresh)
    · refine (h.spent frame hFree hMid).imp (List.mem_append_left fresh₂) ?_
      intro hSome hNone
      obtain ⟨node, hOwn⟩ := Option.ne_none_iff_exists'.mp hSome
      rw [h'.keeps hOwn] at hNone
      cases hNone

/-- A frame is allocated, not yet used for anything. -/
theorem alloc (first : Nat) (h : Tables m own) {frame : Nat} (hRoot : own root = some ⟨root, 4, 0⟩)
    (hAlloc : Machine.Allocated m {frame} m₁) : Mapped root m own first [] [frame] m₁ own := by
  have hRead : ∀ {table node}, own table = some node → ∀ index,
      m₁.read table index = m.read table index :=
    fun hOwn index => hAlloc.read_eq _ (h.not_free hOwn) index
  have hSubset : m₁.freeSet ⊆ m.freeSet := by
    rw [hAlloc.freeSet_eq]
    exact Set.sdiff_subset
  have hTables : Tables m₁ own :=
    h.congr hAlloc.sound (fun table node hOwn hMem => h.not_free hOwn (hSubset hMem))
      (fun table node hOwn _ => hRead hOwn)
  refine ⟨⟨hTables, id, ?_, hSubset, fun hOwn _ => hRead hOwn, hAlloc.physLimit_eq⟩, ?_, ?_, ?_, ?_⟩
  · intro table node hOwn hNone
    simp [hNone] at hOwn
  · intro page hPage
    rw [overwrite_nil]
    exact h.entryAt_congr hTables hRoot hRoot hPage (fun leaf hLeaf => ⟨hLeaf, hRead hLeaf _⟩)
      (fun leaf hLeaf => .inl hLeaf)
  · simp
  · intro other hMem
    obtain rfl := List.mem_singleton.mp hMem
    have hFree : other ∈ m.freeSet := hAlloc.free rfl
    exact ⟨hFree, by simp [hAlloc.freeSet_eq], h.none_of_free hFree⟩
  · intro other hFree hNot
    rw [hAlloc.freeSet_eq] at hNot
    simp only [Set.mem_sdiff, hFree, true_and, not_not, Set.mem_singleton_iff] at hNot
    exact .inl (by simp [hNot])

/-- An entry of a level 1 table is written. -/
theorem write (h : Tables m own) (hOwn : own table = some ⟨root, 1, region⟩) (hIndex : index < 512)
    (entry : PageTableEntry) :
    Mapped root m own (region * 512 + index) [entry] [] (m.write table index entry) own := by
  have hRoot := (h.root_own hOwn).1
  have hTables : Tables (m.write table index entry) own := by
    refine h.congr (h.sound.write _ _ _)
      (fun table' node hOwn' => h.not_free hOwn') ?_
    intro table' node hOwn' hLevel i
    have hNe : table' ≠ table := by grind
    simp [hNe]
  refine ⟨⟨hTables, id, ?_, Set.Subset.rfl, ?_, rfl⟩, ?_, List.nodup_nil, by simp, ?_⟩
  · intro table' node hOwn' hNone
    simp [hNone] at hOwn'
  · intro table' node hOwn' hNe i
    have hNe : table' ≠ table := by grind
    simp [hNe]
  · intro page hPage
    by_cases hEq : page = region * 512 + index
    · have hLeaf : own table = some ⟨root, 1, page / 512⟩ := by
        rw [hOwn, hEq, show (region * 512 + index) / 512 = region by omega]
      rw [hTables.entryAt_of_own hLeaf, hEq]
      simp [overwrite, show (region * 512 + index) % 512 = index by omega]
    · have hSame : overwrite (region * 512 + index) [entry] (entryAt m root) page =
          entryAt m root page := by
        unfold overwrite
        split
        · rw [List.getElem?_eq_none (by simp; omega)]
          rfl
        · rfl
      rw [hSame]
      refine h.entryAt_congr hTables hRoot hRoot hPage ?_ (fun leaf hLeaf => .inl hLeaf)
      intro leaf hLeaf
      refine ⟨hLeaf, ?_⟩
      rw [Machine.read_write, if_neg]
      rintro ⟨rfl, hSlot⟩
      simp only [hOwn, Option.some.injEq, Node.mk.injEq, true_and] at hLeaf
      omega
  · intro frame hFree hNot
    exact absurd hFree hNot

/-- A cleared table is put behind an unused entry. -/
theorem attach (first : Nat) (h : Tables m own) (flags : PageTableFlags)
    (hOwn : own table = some ⟨root, level + 2, region⟩) (hIndex : index < 512)
    (hUnused : m.read table index = unused) (hAlloc : Machine.Allocated m {frame} m₁) :
    Mapped root m own first [] [] ((m₁.write table index ⟨frame, flags⟩).zero frame)
      (Function.update own frame (some ⟨root, level + 1, region * 512 + index⟩)) := by
  have hTables := h.attach flags hOwn hIndex hUnused hAlloc
  have hNone : own frame = none := h.none_of_free (hAlloc.free rfl)
  have hNe : ∀ {table' node}, own table' = some node → table' ≠ frame := by grind
  have hKeep : ∀ {table' node}, own table' = some node → Function.update own frame
      (some ⟨root, level + 1, region * 512 + index⟩) table' = some node := by grind
  have hRead : ∀ {table' node}, own table' = some node → table' ≠ table → ∀ i,
      ((m₁.write table index ⟨frame, flags⟩).zero frame).read table' i = m.read table' i := by
    intro table' node hOwn' hNe' i
    simp [hNe hOwn', hNe', hAlloc.read_eq table' (h.not_free hOwn')]
  have hRoot := (h.root_own hOwn).1
  refine ⟨⟨hTables, hKeep, ?_, ?_, ?_, hAlloc.physLimit_eq⟩, ?_, List.nodup_nil, by simp, ?_⟩
  · intro table' node hOwn' hNone'
    rw [Function.update_apply] at hOwn'
    split at hOwn'
    case isTrue hEq =>
      obtain rfl := Option.some.inj hOwn'
      exact ⟨rfl, hEq ▸ hAlloc.free rfl⟩
    case isFalse => simp [hNone'] at hOwn'
  · simp [hAlloc.freeSet_eq]
  · grind
  · intro page hPage
    rw [overwrite_nil]
    refine h.entryAt_congr hTables hRoot (hKeep hRoot) hPage ?_ ?_
    · intro leaf hLeaf
      refine ⟨hKeep hLeaf, hRead hLeaf ?_ _⟩
      rintro rfl
      simp [hOwn] at hLeaf
    · intro leaf hLeaf
      rw [Function.update_apply] at hLeaf
      split at hLeaf
      case isTrue hEq => exact .inr (by simp [hEq])
      case isFalse => exact .inl hLeaf
  · intro other hFree hNot
    refine .inr ?_
    obtain rfl : other = frame := by simpa [hAlloc.freeSet_eq, hFree] using hNot
    simp

end Mapped

/-- The table behind an entry, whether it was there or not. -/
theorem nextLevelTable_spec (h : Tables m own) (first : Nat) (flags : PageTableFlags)
    (hOwn : own table = some ⟨root, level + 2, region⟩) (hIndex : index < 512) :
    Yields False (nextLevelTable m table index flags) fun (child, m') =>
      ∃ own', Mapped root m own first [] [] m' own' ∧
        own' child = some ⟨root, level + 1, region * 512 + index⟩ := by
  unfold nextLevelTable
  by_cases hUnused : m.read table index = unused
  · rw [if_pos (by simpa using hUnused)]
    refine (Machine.alloc_one h.sound).bind ?_
    rintro ⟨range, m₁⟩ hAlloc
    refine (PageTableEntry.setFrame_spec _ _).bind ?_
    rintro _ rfl
    exact Yields.pure ⟨_, Mapped.attach first h flags hOwn hIndex hUnused hAlloc, by simp⟩
  · rw [if_neg (by simpa using hUnused)]
    exact Yields.pure ⟨own, Mapped.refl root first h, h.down hOwn hIndex hUnused⟩

/-- Entries for consecutive frames. -/
def entriesFrom (first count : Nat) (flags : PageTableFlags) : List PageTableEntry :=
  (List.range' first count).map fun frame => ⟨frame, flags⟩

@[simp] theorem entriesFrom_length (first count : Nat) (flags : PageTableFlags) :
    (entriesFrom first count flags).length = count := by
  simp [entriesFrom]

theorem entriesFrom_append (first count more : Nat) (flags : PageTableFlags) :
    entriesFrom first count flags ++ entriesFrom (first + count) more flags =
      entriesFrom first (count + more) flags := by
  simp only [entriesFrom, ← List.map_append]
  rw [← List.range'_append_1]

/-- Which frames the entries of a mapping hold: in kernel space those with
the numbers of the pages from `start` on, in user space new ones or, if they
are given, consecutive ones. -/
def Filling (space : MemorySpace) (frames : Frames.PhysFrameRange) (start : Nat)
    (flags : PageTableFlags) (entries : List PageTableEntry) (fresh : List Nat) : Prop :=
  match space with
  | .kernel => entries = entriesFrom start entries.length flags ∧ fresh = []
  | .user =>
    if frames.start = frames.stop then entries = fresh.map fun frame => ⟨frame, flags⟩
    else entries = entriesFrom frames.start entries.length flags ∧ fresh = []

theorem Filling.nil (space : MemorySpace) (frames : Frames.PhysFrameRange) (start : Nat)
    (flags : PageTableFlags) : Filling space frames start flags [] [] := by
  cases space <;> simp [Filling, entriesFrom]

/-- The frames given for a range of pages: none, or one for each page. -/
def Supplies (frames : Frames.PhysFrameRange) (start stop : Nat) : Prop :=
  frames.start = frames.stop ∨
    (frames.start < frames.stop ∧ frames.stop - frames.start = stop - start)

theorem Supplies.advance (h : Supplies frames start stop) (hCount : start + count < stop) :
    Supplies (advance frames count) (start + count) stop := by
  unfold Supplies Paging.advance at *
  by_cases hEmpty : frames.stop > frames.start
  · rw [if_pos hEmpty]
    simp only
    omega
  · rw [if_neg hEmpty]
    omega

theorem Filling.append {entries' : List PageTableEntry} {fresh' : List Nat}
    (h : Filling space frames start flags entries fresh) (hFrames : Supplies frames start stop)
    (hStop : start + entries.length < stop ∨ entries' = [] ∧ fresh' = [])
    (h' : Filling space (advance frames entries.length) (start + entries.length) flags
      entries' fresh') :
    Filling space frames start flags (entries ++ entries') (fresh ++ fresh') := by
  rcases hStop with hStop | ⟨rfl, rfl⟩
  · cases space with
    | kernel =>
      obtain ⟨hEntries, rfl⟩ := h
      obtain ⟨hEntries', rfl⟩ := h'
      refine ⟨?_, rfl⟩
      rw [List.length_append, ← entriesFrom_append, ← hEntries, ← hEntries']
    | user =>
      unfold Filling Paging.advance Supplies at *
      by_cases hEmpty : frames.start = frames.stop
      · grind
      · rw [if_pos (by omega : frames.stop > frames.start), if_neg (by simp only; omega)] at h'
        rw [if_neg hEmpty] at h ⊢
        obtain ⟨hEntries, rfl⟩ := h
        obtain ⟨hEntries', rfl⟩ := h'
        refine ⟨?_, rfl⟩
        rw [List.length_append, ← entriesFrom_append, ← hEntries, ← hEntries']
  · simpa using h

/-- One more page of a level 1 table, the one behind those already mapped. -/
theorem Mapped.snoc {first : Nat} {m₁ : Machine} (h : Mapped root m own first entries fresh m₁ own)
    (hOwn : own table = some ⟨root, 1, region⟩) (hFirst : first = region * 512 + index)
    (hIndex : index + entries.length < 512) (entry : PageTableEntry) :
    Mapped root m own first (entries ++ [entry]) fresh
      (m₁.write table (index + entries.length) entry) own := by
  have hWrite := Mapped.write h.tables hOwn hIndex entry
  rw [← Nat.add_assoc, ← hFirst] at hWrite
  simpa using h.trans hWrite

theorem Filling.snoc_kernel (h : Filling .kernel frames start flags entries fresh) :
    Filling .kernel frames start flags (entries ++ [⟨start + entries.length, flags⟩]) fresh := by
  obtain ⟨hEntries, hFresh⟩ := h
  refine ⟨?_, hFresh⟩
  rw [List.length_append, List.length_singleton, ← entriesFrom_append, ← hEntries]
  rfl

theorem Filling.snoc_given (hFrames : frames.start ≠ frames.stop)
    (h : Filling .user frames start flags entries fresh) :
    Filling .user frames start flags (entries ++ [⟨frames.start + entries.length, flags⟩])
      fresh := by
  unfold Filling at h ⊢
  rw [if_neg hFrames] at h ⊢
  obtain ⟨hEntries, hFresh⟩ := h
  refine ⟨?_, hFresh⟩
  rw [List.length_append, List.length_singleton, ← entriesFrom_append, ← hEntries]
  rfl

theorem Filling.snoc_fresh (hFrames : frames.start = frames.stop)
    (h : Filling .user frames start flags entries fresh) :
    Filling .user frames start flags (entries ++ [⟨frame, flags⟩]) (fresh ++ [frame]) := by
  unfold Filling at h ⊢
  rw [if_pos hFrames] at h ⊢
  simp [h]

theorem countInTable_spec (pages : PageRange) :
    Yields (pages.start ≤ pages.stop) (countInTable pages) fun count =>
      pages.start ≤ pages.stop ∧
        count = min (pages.stop - pages.start) (512 - pages.start % 512) := by
  unfold countInTable PageRange.count
  split
  case isTrue hStop => exact Yields.error (by omega)
  case isFalse hStop =>
    refine Yields.ok ⟨by omega, ?_⟩
    simp

/-- What is known once `count` pages from `pages.start` on are mapped. -/
def MapsPages (space : MemorySpace) (frames : Frames.PhysFrameRange) (flags : PageTableFlags)
    (root : Nat) (m : Machine) (own : Nat → Option Node) (start count : Nat) (m' : Machine)
    (own' : Nat → Option Node) : Prop :=
  ∃ entries fresh, Mapped root m own (start % 512 ^ 4) entries fresh m' own' ∧
    entries.length = count ∧ Filling space frames start flags entries fresh

/-- The loop over the entries of a level 1 table that belong to a range. -/
theorem leafLoop_spec {total : Prop} {body : Nat → Machine → Except Panic (ForInStep Machine)}
    (inv : Nat → Machine → Prop) (hTotal : total → pages.start ≤ pages.stop) (hInit : inv 0 m)
    (hBody : ∀ i mᵢ, i < pages.stop - pages.start → pageTableIndex pages.start 1 + i < 512 →
      inv i mᵢ → Yields total (body i mᵢ) fun
        | .yield m' => inv (i + 1) m'
        | .done _ => False) :
    Yields total (do
      let count ← countInTable pages
      let m ← forIn (List.range' 0 count) m body
      return (m, count)) fun (m', count) => pages.start ≤ pages.stop ∧
        count = min (pages.stop - pages.start) (512 - pages.start % 512) ∧ inv count m' := by
  refine ((countInTable_spec pages).weaken hTotal).bind ?_
  rintro count ⟨hStop, hCount⟩
  refine (Yields.forIn_range' inv (inv count) hInit ?_ ?_).bind fun m' hInv =>
    Yields.pure ⟨hStop, hCount, hInv⟩
  · intro i mᵢ _ hi hInv
    refine (hBody i mᵢ (by omega) (by rw [pageTableIndex_one]; omega) hInv).mono ?_
    rintro (m' | m') hStep
    · exact hStep.elim
    · exact hStep
  · intro m' hInv
    rwa [Nat.zero_add] at hInv

/-- `map_in_table` on a level 1 table writes one entry after the other. The
frame for an entry is its own number, a given or a free one. -/
theorem mapLeaves_loop (inv : Nat → Machine → Prop) (hInit : inv 0 m)
    (hSound : ∀ i mᵢ, inv i mᵢ → mᵢ.Sound)
    (hGiven : ∀ i mᵢ frame, pageTableIndex pages.start 1 + i < 512 → inv i mᵢ →
      space = .kernel ∧ frame = pages.start + i ∨
        space = .user ∧ frames.start ≠ frames.stop ∧ frame = frames.start + i →
      inv (i + 1) (mᵢ.write table (pageTableIndex pages.start 1 + i) ⟨frame, flags⟩))
    (hFresh : ∀ i mᵢ frame m₁, pageTableIndex pages.start 1 + i < 512 → inv i mᵢ →
      space = .user → frames.start = frames.stop → Machine.Allocated mᵢ {frame} m₁ →
      inv (i + 1) (m₁.write table (pageTableIndex pages.start 1 + i) ⟨frame, flags⟩)) :
    Yields False (mapLeaves m table frames pages space flags) fun (m', count) =>
      pages.start ≤ pages.stop ∧
        count = min (pages.stop - pages.start) (512 - pages.start % 512) ∧ inv count m' := by
  cases space with
  | kernel =>
    by_cases hLimit : pages.start < 2 ^ 40
    · simp only [mapLeaves, identityMapKernel, if_pos hLimit]
      exact leafLoop_spec inv False.elim hInit fun i mᵢ _ hi hInv =>
        Yields.pure (hGiven i mᵢ _ hi hInv (.inl ⟨rfl, rfl⟩))
    · simp only [mapLeaves, identityMapKernel, if_neg hLimit]
      exact (Yields.any _).bind fun _ _ => Yields.error not_false
  | user =>
    unfold mapLeaves
    simp only
    split
    case isTrue hFrames =>
      refine leafLoop_spec inv False.elim hInit fun i mᵢ _ hi hInv => ?_
      refine (Machine.alloc_one (hSound i mᵢ hInv)).bind ?_
      rintro ⟨range, m₁⟩ hAlloc
      refine (PageTableEntry.setFrame_spec _ _).bind ?_
      rintro _ rfl
      exact Yields.pure (hFresh i mᵢ _ m₁ hi hInv rfl hFrames hAlloc)
    case isFalse hFrames =>
      refine leafLoop_spec inv False.elim hInit fun i mᵢ _ hi hInv => ?_
      split
      case isFalse => exact Yields.error not_false
      case isTrue =>
        refine (PageTableEntry.setFrame_spec _ _).bind ?_
        rintro _ rfl
        exact Yields.pure (hGiven i mᵢ _ hi hInv (.inr ⟨rfl, hFrames, rfl⟩))

theorem mapLeaves_spec (h : Tables m own) (space : MemorySpace) (flags : PageTableFlags)
    (hOwn : own table = some ⟨root, 1, pages.start % 512 ^ 4 / 512⟩) :
    Yields False (mapLeaves m table frames pages space flags) fun (m', count) =>
      pages.start ≤ pages.stop ∧
        count = min (pages.stop - pages.start) (512 - pages.start % 512) ∧
        MapsPages space frames flags root m own pages.start count m' own := by
  have hRoot := (h.root_own hOwn).1
  have hFirst : pages.start % 512 ^ 4 =
      pages.start % 512 ^ 4 / 512 * 512 + pageTableIndex pages.start 1 := by
    rw [pageTableIndex_one]
    omega
  refine mapLeaves_loop (fun i mᵢ => MapsPages space frames flags root m own pages.start i mᵢ own)
    ⟨[], [], Mapped.refl root _ h, rfl, Filling.nil space frames _ flags⟩ ?_ ?_ ?_
  · rintro i mᵢ ⟨entries, fresh, hMapped, -⟩
    exact hMapped.tables.sound
  · rintro i mᵢ frame hi ⟨entries, fresh, hMapped, rfl, hFilling⟩ hFrame
    refine ⟨_, fresh, hMapped.snoc hOwn hFirst hi _, by simp, ?_⟩
    rcases hFrame with ⟨rfl, rfl⟩ | ⟨rfl, hFrames, rfl⟩
    · exact hFilling.snoc_kernel
    · exact hFilling.snoc_given hFrames
  · rintro i mᵢ frame m₁ hi ⟨entries, fresh, hMapped, rfl, hFilling⟩ rfl hFrames hAlloc
    have hTaken := hMapped.trans (Mapped.alloc _ hMapped.tables hRoot hAlloc)
    rw [List.append_nil] at hTaken
    exact ⟨_, _, hTaken.snoc hOwn hFirst hi _, by simp, hFilling.snoc_fresh hFrames⟩

section Regions

variable {size position region count : Nat}

/-- The rest of a region leads to the start of the next. -/
theorem next_region (hSize : 0 < size) (hRegion : position / size = region)
    (hCount : count = size - position % size) :
    (position + count) / size = region + 1 ∧ (position + count) % size = 0 := by
  have hPosition := Nat.div_add_mod position size
  have hLt := Nat.mod_lt position hSize
  have hNext : position + count = size * (region + 1) := by
    rw [hRegion] at hPosition
    rw [Nat.mul_add]
    omega
  rw [hNext]
  exact ⟨Nat.mul_div_cancel_left _ hSize, Nat.mul_mod_right _ _⟩

/-- A position in one of the 512 parts of a region lies in the region. -/
theorem region_of_part (hRegion : position / size = region * 512 + index) (hIndex : index < 512) :
    position / (size * 512) = region := by
  rw [← Nat.div_div_eq_div_mul, hRegion]
  omega

/-- What is left of a part is left of the region. -/
theorem rest_le_rest (hRegion : position / size = region * 512 + index) (hIndex : index < 512) :
    size - position % size ≤ size * 512 - position % (size * 512) := by
  have hPart := Nat.div_add_mod position size
  have hWhole := Nat.div_add_mod position (size * 512)
  rw [region_of_part hRegion hIndex] at hWhole
  rw [hRegion] at hPart
  have hSplit : size * (region * 512 + index) = size * 512 * region + size * index := by
    rw [Nat.mul_add, Nat.mul_assoc, Nat.mul_comm 512 region]
  have hBound : size * index + size ≤ size * 512 := by
    rw [← Nat.mul_succ]
    exact Nat.mul_le_mul_left size hIndex
  omega

/-- Two positions in one region differ by as much as their offsets in it. -/
theorem mod_add_of_region {count : Nat} (h : (position + count) / size = position / size) :
    (position + count) % size = position % size + count := by
  have hPosition := Nat.div_add_mod position size
  have hSum := Nat.div_add_mod (position + count) size
  rw [h] at hSum
  omega

end Regions

theorem pageTableIndex_mod (page : Nat) (hLevel : level + 1 ≤ 4) :
    pageTableIndex (page % 512 ^ 4) (level + 1) = pageTableIndex page (level + 1) := by
  unfold pageTableIndex
  rw [Nat.add_sub_cancel]
  have hPow : 512 ^ 4 = 512 ^ level * 512 ^ (4 - level) := by
    rw [← Nat.pow_add, show level + (4 - level) = 4 by omega]
  rw [hPow, Nat.mod_mul_right_div_self]
  refine Nat.mod_mod_of_dvd _ ⟨512 ^ (3 - level), ?_⟩
  rw [Nat.mul_comm, ← Nat.pow_succ, show (3 - level).succ = 4 - level by omega]

/-- A walk only looks at the lower 36 bits of a page number. -/
theorem leafEntry_mod (m : Machine) (hLevel : level + 1 ≤ 4) (table page : Nat) :
    leafEntry m (level + 1) table (page % 512 ^ 4) = leafEntry m (level + 1) table page := by
  induction level generalizing table with
  | zero => simp only [leafEntry, pageTableIndex_mod page hLevel]
  | succ level ih =>
    simp only [leafEntry, pageTableIndex_mod page hLevel, ih (by omega)]

theorem entryAt_mod (m : Machine) (root page : Nat) :
    entryAt m root (page % 512 ^ 4) = entryAt m root page :=
  leafEntry_mod m (by decide) root page

theorem Filling.fresh_nil (h : Filling space frames start flags [] fresh) : fresh = [] := by
  cases space with
  | kernel => exact h.2
  | user =>
    simp only [Filling] at h
    split at h
    · exact List.map_eq_nil_iff.mp h.symm
    · exact h.2

/-- Pages that get given frames take none from the free ones. -/
theorem Filling.fresh_eq_nil (h : Filling space frames start flags entries fresh)
    (hFrames : frames.stop - frames.start = stop - start)
    (hLength : entries.length = stop - start) :
    fresh = [] := by
  cases space with
  | kernel => exact h.2
  | user =>
    simp only [Filling] at h
    split at h
    · subst h
      rw [List.length_map] at hLength
      exact List.length_eq_zero_iff.mp (by omega)
    · exact h.2

/-- All entries of a mapping have the flags of the call. -/
theorem Filling.flags_eq (h : Filling space frames start flags entries fresh) :
    ∀ entry ∈ entries, entry.flags = flags := by
  have hMap : ∀ numbers : List Nat, entries = numbers.map (fun frame => ⟨frame, flags⟩) →
      ∀ entry ∈ entries, entry.flags = flags := by grind
  cases space with
  | kernel => exact hMap _ h.1
  | user =>
    simp only [Filling] at h
    split at h
    · exact hMap _ h
    · exact hMap _ h.1

/-- Mapping on from where the last part of the mapping ended. -/
theorem MapsPages.append {m₁ m₂ m₃ : Machine} {own₁ own₂ own₃ : Nat → Option Node}
    (h : MapsPages space frames flags root m own start count m₁ own₁)
    (hTable : Mapped root m₁ own₁ (start % 512 ^ 4 + count) [] [] m₂ own₂)
    (h' : MapsPages space (advance frames count) flags root m₂ own₂ (start + count) more m₃ own₃)
    (hFrames : Supplies frames start stop) (hMore : start + count + more ≤ stop)
    (hStart : (start + count) % 512 ^ 4 = start % 512 ^ 4 + count) :
    MapsPages space frames flags root m own start (count + more) m₃ own₃ := by
  obtain ⟨entries, fresh, hMapped, rfl, hFilling⟩ := h
  obtain ⟨entries', fresh', hMapped', rfl, hFilling'⟩ := h'
  refine ⟨entries ++ entries', fresh ++ fresh', ?_, by simp, ?_⟩
  · rw [hStart] at hMapped'
    have hMid := hMapped.trans hTable
    simp only [List.append_nil] at hMid
    exact hMid.trans hMapped'
  · refine hFilling.append hFrames ?_ hFilling'
    cases entries' with
    | nil => exact .inr ⟨rfl, hFilling'.fresh_nil⟩
    | cons entry rest =>
      simp only [List.length_cons] at hMore
      exact .inl (by omega)

theorem advance_zero (frames : Frames.PhysFrameRange) : advance frames 0 = frames := by
  unfold advance
  split <;> rfl

theorem advance_add (hFrames : Supplies frames start stop) (hCount : start + count < stop)
    (more : Nat) :
    advance (advance frames count) more = advance frames (count + more) := by
  unfold Supplies at hFrames
  unfold advance
  by_cases hEmpty : frames.stop > frames.start
  · rw [if_pos hEmpty, if_pos hEmpty, if_pos (by simp only; omega), Nat.add_assoc]
  · rw [if_neg hEmpty, if_neg hEmpty, if_neg hEmpty]

/-- How many pages of a range lie in the region of one table of the given
level, the one of its first page. -/
def countInRegion (pages : PageRange) (level : Nat) : Nat :=
  min (pages.stop - pages.start) (512 ^ level - pages.start % 512 ^ 4 % 512 ^ level)

/-- Where a walk over the entries of a table stands: at the entry for its
first page, or at the start of the region of a later entry. -/
structure Position (pages : PageRange) (level region index count : Nat) : Prop where
  valid : Page.Valid (pages.start + count)
  start_mod : (pages.start + count) % 512 ^ 4 = pages.start % 512 ^ 4 + count
  region_eq : (pages.start + count) % 512 ^ 4 / 512 ^ (level + 1) = region * 512 + index
  aligned : index = pageTableIndex pages.start (level + 2) ∧ count = 0 ∨
    (pages.start + count) % 512 ^ 4 % 512 ^ (level + 1) = 0 ∧ pages.start + count < pages.stop

namespace Position

variable {pages : PageRange} {level region index count : Nat}

theorem first (hLevel : level + 2 ≤ 4) (hValid : Page.Valid pages.start)
    (hRegion : pages.start % 512 ^ 4 / 512 ^ (level + 2) = region) :
    Position pages level region (pageTableIndex pages.start (level + 2)) 0 where
  valid := hValid
  start_mod := rfl
  region_eq := by
    rw [← Memory.region_eq, Nat.add_zero, hRegion, pageTableIndex_mod _ hLevel]
  aligned := .inl ⟨rfl, rfl⟩

theorem next (h : Position pages level region index count)
    (hMore : more = countInRegion ⟨pages.start + count, pages.stop⟩ (level + 1))
    (hValid : Page.Valid (pages.start + count + more))
    (hMod : (pages.start + count + more) % 512 ^ 4 = (pages.start + count) % 512 ^ 4 + more)
    (hStop : pages.start + count + more < pages.stop) :
    Position pages level region (index + 1) (count + more) := by
  have hRest : more = 512 ^ (level + 1) - (pages.start + count) % 512 ^ 4 % 512 ^ (level + 1) := by
    simp only [countInRegion] at hMore
    omega
  obtain ⟨hRegion, hAligned⟩ := next_region (Nat.pow_pos (by decide)) h.region_eq hRest
  have hStart := h.start_mod
  rw [← hMod] at hRegion hAligned
  simp only [Nat.add_assoc] at *
  exact ⟨hValid, by omega, hRegion, .inr ⟨hAligned, hStop⟩⟩

/-- The pages up to the end of the range lie in the region of the table. -/
theorem count_of_stop (h : Position pages level region index count) (hIndex : index < 512)
    (hRegion : pages.start % 512 ^ 4 / 512 ^ (level + 2) = region)
    (hMore : more = countInRegion ⟨pages.start + count, pages.stop⟩ (level + 1))
    (hStart : pages.start + count ≤ pages.stop) (hStop : pages.stop ≤ pages.start + count + more) :
    count + more = countInRegion pages (level + 2) := by
  have hRest := rest_le_rest h.region_eq hIndex
  have hWhole := region_of_part h.region_eq hIndex
  rw [show 512 ^ (level + 1) * 512 = 512 ^ (level + 2) from rfl] at hRest hWhole
  rw [← hRegion, h.start_mod] at hWhole
  have hOffset := mod_add_of_region hWhole
  rw [h.start_mod] at hRest
  simp only [countInRegion, h.start_mod] at hMore ⊢
  omega

/-- Behind the last entry the whole region is done. -/
theorem count_of_end (h : Position pages level region 512 count)
    (hRegion : pages.start % 512 ^ 4 / 512 ^ (level + 2) = region) :
    count = countInRegion pages (level + 2) := by
  have hLt := pageTableIndex_lt pages.start (level + 2)
  rcases h.aligned with ⟨hIndex, -⟩ | ⟨hAligned, hStop⟩
  · omega
  · have hPosition := Nat.div_add_mod ((pages.start + count) % 512 ^ 4) (512 ^ (level + 1))
    rw [h.region_eq, hAligned, h.start_mod] at hPosition
    have hStart := Nat.div_add_mod (pages.start % 512 ^ 4) (512 ^ (level + 2))
    rw [hRegion] at hStart
    have hSplit : 512 ^ (level + 1) * (region * 512 + 512) =
        512 ^ (level + 2) * region + 512 ^ (level + 2) := by
      rw [Nat.pow_succ 512 (level + 1), Nat.mul_add, Nat.mul_assoc, Nat.mul_comm 512 region]
    simp only [countInRegion]
    omega

end Position

/-- `map_in_table` maps the pages of the range that lie in the region of the
table, one after the other. Above level 1 it also steps to the page behind
them, which fails at the end of the address space. -/
theorem mapInTable_spec (profile : BuildProfile) (space : MemorySpace) (flags : PageTableFlags)
    (level : Nat) {m : Machine} {own : Nat → Option Node} (h : Tables m own) {table root : Nat}
    {frames : Frames.PhysFrameRange} {pages : PageRange}
    (hOwn : own table = some ⟨root, level + 1, pages.start % 512 ^ 4 / 512 ^ (level + 1)⟩)
    (hValid : Page.Valid pages.start) (hFrames : Supplies frames pages.start pages.stop) :
    Yields False (mapInTable profile (level + 1) m table frames pages space flags)
      fun (m', count) => pages.start ≤ pages.stop ∧ count = countInRegion pages (level + 1) ∧
        (0 < level → (pages.start + count) % 512 ^ 4 = pages.start % 512 ^ 4 + count) ∧
        ∃ own', MapsPages space frames flags root m own pages.start count m' own' := by
  induction level generalizing m own table frames pages with
  | zero =>
    refine (mapLeaves_spec h space flags (by simpa using hOwn)).mono ?_
    rintro ⟨m', count⟩ ⟨hStop, hCount, hMaps⟩
    refine ⟨hStop, ?_, fun hPos => absurd hPos (lt_irrefl 0), own, hMaps⟩
    simp only [countInRegion]
    omega
  | succ level ih =>
    have hLevel := h.level_le hOwn
    simp only at hLevel
    -- At entry `i` the pages of the regions before it are mapped.
    let inv (i : Nat) (s : Machine × Frames.PhysFrameRange × Nat × Nat) : Prop :=
      Position pages level (pages.start % 512 ^ 4 / 512 ^ (level + 2)) i s.2.2.2 ∧
        s.2.2.1 = pages.start + s.2.2.2 ∧ s.2.1 = advance frames s.2.2.2 ∧
        ∃ own', MapsPages space frames flags root m own pages.start s.2.2.2 s.1 own'
    have hInit : inv (pageTableIndex pages.start (level + 2)) (m, frames, pages.start, 0) :=
      ⟨Position.first hLevel hValid rfl, rfl, (advance_zero frames).symm, own, [], [],
        Mapped.refl root _ h, rfl, Filling.nil space frames _ flags⟩
    let post (s : Machine × Frames.PhysFrameRange × Nat × Nat) : Prop :=
      pages.start ≤ pages.stop ∧ s.2.2.2 = countInRegion pages (level + 2) ∧
        (0 < level + 1 →
          (pages.start + s.2.2.2) % 512 ^ 4 = pages.start % 512 ^ 4 + s.2.2.2) ∧
        ∃ own', MapsPages space frames flags root m own pages.start s.2.2.2 s.1 own'
    have hIndex := pageTableIndex_lt pages.start (level + 2)
    refine (Yields.forIn_range' inv post hInit ?_ ?_).bind fun s hPost => Yields.pure hPost
    · rintro i ⟨m₁, frames₁, start, total⟩ - hi ⟨hPosition, hStart, hFrames₁, own₁, hMaps⟩
      simp only at hPosition hStart hFrames₁ hMaps
      subst hStart hFrames₁
      have hSupplies : Supplies (advance frames total) (pages.start + total) pages.stop := by
        rcases hPosition.aligned with ⟨-, rfl⟩ | ⟨-, hStop⟩
        · rwa [advance_zero]
        · exact hFrames.advance hStop
      obtain ⟨entries, fresh, hMapped, -, -⟩ := id hMaps
      refine (nextLevelTable_spec hMapped.tables (pages.start % 512 ^ 4 + total) flags
        (hMapped.keeps hOwn) (by omega)).bind ?_
      rintro ⟨child, m₂⟩ ⟨own₂, hTable, hChild⟩
      rw [← hPosition.region_eq] at hChild
      refine (@ih m₂ own₂ hTable.tables child (advance frames total)
        ⟨pages.start + total, pages.stop⟩ hChild hPosition.valid hSupplies).bind ?_
      rintro ⟨m₃, more⟩ ⟨hStop, hMore, -, own₃, hMaps'⟩
      simp only at hStop hMore hMaps'
      have hBound : more ≤ 512 ^ 4 := by
        have hPow : 512 ^ (level + 1) ≤ 512 ^ 4 := Nat.pow_le_pow_right (by decide) (by omega)
        simp only [countInRegion] at hMore
        omega
      refine ((Page.add_spec profile hPosition.valid hBound).weaken False.elim).bind ?_
      rintro _ ⟨rfl, hValid', hMod⟩
      have hNext := hMaps.append hTable hMaps' hFrames
        (by simp only [countInRegion] at hMore; omega) hPosition.start_mod
      split
      case isTrue hDone =>
        have hStart := hPosition.start_mod
        exact Yields.pure ⟨by omega, hPosition.count_of_stop (by omega) rfl hMore hStop hDone,
          fun _ => by simp only [← Nat.add_assoc]; omega, own₃, hNext⟩
      case isFalse hGoOn =>
        refine Yields.pure ⟨hPosition.next hMore hValid' hMod (by omega), by simp only; omega,
          advance_add hFrames (by omega) more, own₃, hNext⟩
    · rintro ⟨m', frames', start, total⟩ ⟨hPosition, hStart, -, hMaps⟩
      rw [show pageTableIndex pages.start (level + 2) + (512 - pageTableIndex pages.start (level + 2)) =
        512 by omega] at hPosition
      refine ⟨?_, hPosition.count_of_end rfl, fun _ => hPosition.start_mod, hMaps⟩
      rcases hPosition.aligned with ⟨hEq, -⟩ | ⟨-, hStop⟩ <;> omega

/-- `Paging::map_physical` and, with an empty range of frames, `Paging::map`:
all pages of the range are mapped. -/
theorem mapInTable_root_spec (profile : BuildProfile) (space : MemorySpace) (flags : PageTableFlags)
    (h : Tables m own) (hRoot : own root = some ⟨root, 4, 0⟩) (hValid : Page.Valid pages.start)
    (hFrames : Supplies frames pages.start pages.stop) :
    Yields False (mapInTable profile 4 m root frames pages space flags) fun (m', _) =>
      pages.start ≤ pages.stop ∧
        pages.start % 512 ^ 4 + (pages.stop - pages.start) < 512 ^ 4 ∧
        ∃ own', MapsPages space frames flags root m own pages.start (pages.stop - pages.start)
          m' own' := by
  have hOwn : own root = some ⟨root, 4, pages.start % 512 ^ 4 / 512 ^ 4⟩ := by
    rwa [Nat.div_eq_of_lt (Nat.mod_lt _ (by decide))]
  refine (mapInTable_spec profile space flags 3 h hOwn hValid hFrames).mono ?_
  rintro ⟨m', count⟩ ⟨hStop, hCount, hMod, hMaps⟩
  have hEnd := hMod (by decide)
  have hLt := Nat.mod_lt (pages.start + count) (show 512 ^ 4 > 0 by decide)
  simp only [countInRegion] at hCount
  obtain rfl : count = pages.stop - pages.start := by omega
  exact ⟨hStop, by omega, hMaps⟩

theorem Paging.map_ok {profile : BuildProfile} {self : Paging} (hDepth : self.depth = 4)
    (h : self.map profile m pages space flags = .ok m') :
    ∃ count, mapInTable profile 4 m self.rootTable ⟨0, 0⟩ pages space flags = .ok (m', count) := by
  obtain ⟨⟨m₁, count⟩, hWalk, hEq⟩ := bind_ok h
  obtain rfl := pure_ok hEq
  exact ⟨count, by rwa [hDepth] at hWalk⟩

/-- The assertion of `map_physical`: there are as many frames as pages. -/
theorem Paging.mapPhysical_ok {profile : BuildProfile} {self : Paging} (hDepth : self.depth = 4)
    (h : self.mapPhysical profile m frames pages space flags = .ok m') :
    (∃ count, mapInTable profile 4 m self.rootTable frames pages space flags = .ok (m', count)) ∧
      Supplies frames pages.start pages.stop ∧
      frames.stop - frames.start = pages.stop - pages.start := by
  obtain ⟨frameCount, hFrames, h⟩ := bind_ok h
  obtain ⟨pageCount, hPages, h⟩ := bind_ok h
  obtain ⟨hCount, h⟩ := ite_ok h
  obtain ⟨⟨m₁, count⟩, hWalk, hEq⟩ := bind_ok h
  obtain rfl := pure_ok hEq
  refine ⟨⟨count, by rwa [hDepth] at hWalk⟩, ?_⟩
  unfold Frames.PhysFrameRange.len at hFrames
  unfold PageRange.count at hPages
  split at hFrames
  · cases hFrames
  · obtain ⟨-, hPages⟩ := ite_error_ok hPages
    simp only [Except.ok.injEq] at hFrames hPages
    unfold Supplies
    omega

end D3OS.Memory
