import D3OS.Memory.Clone
import D3OS.Memory.Ledger

/-! What `map` and `unmap` do to `translate`. A mapped range translates to the
frames it was given, and the rest of the tree as before. `unmap` is exact as
long as the pages its walk reaches are those of the range; it keeps its place in
the range by the number of pages it has seen, and loses it at a missing table. -/
namespace D3OS.Memory

open PageTableEntry (unused)
open Outcome

def PageRange.Has (pages : PageRange) (page : Nat) : Prop :=
  pages.start ≤ page ∧ page < pages.stop

instance (pages : PageRange) (page : Nat) : Decidable (pages.Has page) :=
  inferInstanceAs (Decidable (_ ∧ _))

namespace Paging

/-- Page tables of depth 4 with a root in memory. -/
structure IsTree (m : Machine) (own : Nat → Option Node) (paging : Paging) : Prop where
  tables : Tables m own
  depth_eq : paging.depth = 4
  root_own : own paging.rootTable = some ⟨paging.rootTable, 4, 0⟩

variable {m m' : Machine} {own own' : Nat → Option Node} {self : Paging}

theorem IsTree.translate_eq (h : IsTree m own self) (m' : Machine) (addr : Nat) :
    self.translate m' addr =
      if (entryAt m' self.rootTable (addr / PAGE_SIZE)).isUnused then none
      else some (PAGE_SIZE * (entryAt m' self.rootTable (addr / PAGE_SIZE)).frame +
        addr % PAGE_SIZE) := by
  unfold translate entryAt
  rw [h.depth_eq]
  exact translateInTable_eq m' 4 self.rootTable addr

variable {addr page root table region level : Nat} {freePhysical : Bool} {pages : PageRange}

/-- A used entry is all that a translation needs. -/
theorem IsTree.translate_eq_some (h : IsTree m own self) {m' : Machine} {frame offset : Nat}
    {flags : PageTableFlags} (hEntry : entryAt m' self.rootTable page = ⟨frame, flags⟩)
    (hUsed : flags ≠ 0 ∨ frame ≠ 0) (hOffset : offset < PAGE_SIZE) :
    self.translate m' (PAGE_SIZE * page + offset) = some (PAGE_SIZE * frame + offset) := by
  have hPage : (PAGE_SIZE * page + offset) / PAGE_SIZE = page := by
    unfold PAGE_SIZE at hOffset ⊢
    omega
  have hRest : (PAGE_SIZE * page + offset) % PAGE_SIZE = offset := by
    unfold PAGE_SIZE at hOffset ⊢
    omega
  have hNe : (⟨frame, flags⟩ : PageTableEntry) ≠ unused := by
    simp only [unused, ne_eq, PageTableEntry.mk.injEq, not_and]
    tauto
  rw [h.translate_eq, hPage, hRest, hEntry, if_neg (by simpa using hNe)]

/-- Two states of the tree that agree on the entry of a page agree on its
addresses. -/
theorem IsTree.translate_congr_page (h : IsTree m own self) {m₁ m₂ : Machine}
    (hEntry : entryAt m₂ self.rootTable (addr / PAGE_SIZE % 512 ^ 4) =
      entryAt m₁ self.rootTable (addr / PAGE_SIZE % 512 ^ 4)) :
    self.translate m₂ addr = self.translate m₁ addr := by
  rw [entryAt_mod, entryAt_mod] at hEntry
  rw [h.translate_eq, h.translate_eq, hEntry]

theorem new_tree (h : Paging.new smallMachine 4 = .ok (self, m)) : ∃ own, IsTree m own self := by
  obtain ⟨hDepth, -, hTables⟩ := (new_spec (Tables.ofSound smallMachine_sound) 4).of_ok h
  exact ⟨_, hTables, hDepth, Function.update_self ..⟩

/-- New page tables with the page 512, in the second level 1 table. -/
def onePage : Except Panic (Paging × Machine) := do
  let (paging, m) ← Paging.new smallMachine 4
  let m ← paging.map .development m ⟨512, 513⟩ .user USER_PAGE_FLAGS
  return (paging, m)

theorem onePage_tree (h : onePage = .ok (self, m)) : ∃ own, IsTree m own self ∧
    Holds m own [(entryAt m self.rootTable 512).frame] := by
  obtain ⟨⟨paging, m₁⟩, hNew, hRest⟩ := bind_ok h
  obtain ⟨m₂, hMap, hEq⟩ := bind_ok hRest
  obtain ⟨rfl, rfl⟩ : paging = self ∧ m₂ = m := by simpa using hEq
  obtain ⟨own₁, hTree⟩ := new_tree hNew
  have hEffect : CallEffect m₁ own₁ ⟨paging, []⟩ m₂
      ((PagingCall.map ⟨512, 513⟩ .user USER_PAGE_FLAGS).heldAfter ⟨paging, []⟩ m₁ m₂) :=
    map_effect hTree.tables hTree.depth_eq hTree.root_own (by simp [Holds]) (by decide) hMap
  obtain ⟨own, hContained, hHeld⟩ := hEffect
  refine ⟨own, ⟨hContained.tables, hTree.depth_eq, hContained.root_own⟩, ?_⟩
  simpa [PagingCall.heldAfter, hTree.depth_eq, entryAt] using hHeld.holds

/-- One more call on the tables that a run has made. -/
def andThen (run : Except Panic (Paging × Machine))
    (call : Paging → Machine → Except Panic Machine) :
    Except Panic (Paging × Machine × Machine) := do
  let (paging, m) ← run
  let m' ← call paging m
  return (paging, m, m')

theorem andThen_ok {run : Except Panic (Paging × Machine)}
    {call : Paging → Machine → Except Panic Machine} {α : Type}
    {f : Paging × Machine × Machine → α} {x : α}
    (h : ((andThen run call).map f).toOption = some x) :
    ∃ paging m m', run = .ok (paging, m) ∧ call paging m = .ok m' ∧ f (paging, m, m') = x := by
  obtain ⟨r, hRun, hResult⟩ := exists_ok_of_toOption h
  obtain ⟨⟨paging, m⟩, hFirst, hRest⟩ := bind_ok hRun
  obtain ⟨m', hCall, hRest⟩ := bind_ok hRest
  obtain rfl : (paging, m, m') = r := by simpa using hRest
  exact ⟨paging, m, m', hFirst, hCall, hResult⟩

/-- Addresses outside the range translate as before. -/
def SameOutside (self : Paging) (m : Machine) (pages : PageRange) (m' : Machine) : Prop :=
  ∀ addr, Canonical addr → ¬ pages.Has (addr / PAGE_SIZE) →
    self.translate m' addr = self.translate m addr

theorem getElem_of_entriesFrom {first count i : Nat} {flags : PageTableFlags}
    {entries : List PageTableEntry} (h : entries = entriesFrom first count flags)
    (hi : i < entries.length) : entries[i] = ⟨first + i, flags⟩ := by
  subst h
  simp [entriesFrom]

/-- What is entered for a range of pages is found there, and only there. -/
theorem IsTree.mapped (h : IsTree m own self) {entries : List PageTableEntry} {fresh : List Nat}
    (hStart : Page.Valid pages.start) (hStop : Page.Valid pages.stop)
    (hForward : pages.start ≤ pages.stop)
    (hEnd : pages.start % 512 ^ 4 + (pages.stop - pages.start) < 512 ^ 4)
    (hLength : entries.length = pages.stop - pages.start)
    (hMapped : Mapped self.rootTable m own (pages.start % 512 ^ 4) entries fresh m' own') :
    (∀ i (hi : i < entries.length), entryAt m' self.rootTable (pages.start + i) = entries[i]) ∧
      SameOutside self m pages m' := by
  constructor
  · intro i hi
    have hPage : (pages.start + i) % 512 ^ 4 = pages.start % 512 ^ 4 + i := by omega
    rw [← entryAt_mod, hPage, hMapped.view _ (by omega), overwrite_of_lt (by omega) (by omega)]
    simp
  · intro addr hCanonical hOut
    refine h.translate_congr_page ?_
    rw [hMapped.view _ (Nat.mod_lt _ (by decide))]
    refine overwrite_of_outside ?_
    unfold Page.Valid Canonical Page.startAddress PAGE_SIZE at hStart hStop
    unfold Canonical at hCanonical
    unfold PageRange.Has PAGE_SIZE at hOut
    unfold PAGE_SIZE
    omega

/-- `map` and `map_physical` agree with `translate`. After a successful call on
a range of the lower half, page `i` of the range translates to the given frame
`i`, to a frame of its own that was allocated during the call, or to itself; the
offset is kept, and addresses outside the range translate as before. Only an
entry for frame 0 without any flag does not count as one. -/
theorem map_translate_agree (h : IsTree m own self) (profile : BuildProfile) {pages : PageRange}
    (hSome : pages.start < pages.stop) (hLower : pages.stop < 2 ^ 35) (flags : PageTableFlags) :
    (∀ frames m', self.mapPhysical profile m frames pages .user flags = .ok m' →
      (∀ i < pages.stop - pages.start, flags ≠ 0 ∨ frames.start + i ≠ 0 → ∀ offset < PAGE_SIZE,
        self.translate m' (PAGE_SIZE * (pages.start + i) + offset) =
          some (PAGE_SIZE * (frames.start + i) + offset)) ∧
      SameOutside self m pages m') ∧
    (∀ m', self.map profile m pages .user flags = .ok m' →
      (∃ allocated : List Nat, allocated.length = pages.stop - pages.start ∧ allocated.Nodup ∧
        (∀ frame ∈ allocated, frame ∈ m.freeSet ∧ frame ∉ m'.freeSet) ∧
        ∀ i (hi : i < allocated.length), ∀ offset < PAGE_SIZE,
          self.translate m' (PAGE_SIZE * (pages.start + i) + offset) =
            some (PAGE_SIZE * allocated[i] + offset)) ∧
      SameOutside self m pages m') ∧
    ∀ m', self.map profile m pages .kernel flags = .ok m' →
      (∀ addr, pages.Has (addr / PAGE_SIZE) → flags ≠ 0 ∨ addr / PAGE_SIZE ≠ 0 →
        self.translate m' addr = some addr) ∧
      SameOutside self m pages m' := by
  have hValid : Page.Valid pages.start := valid_of_lt (by omega)
  have hStop : Page.Valid pages.stop := valid_of_lt hLower
  refine ⟨fun frames m' hRun => ?_, fun m' hRun => ?_, fun m' hRun => ?_⟩
  · obtain ⟨⟨count, hWalk⟩, hSupplies, hCount⟩ := mapPhysical_ok h.depth_eq hRun
    obtain ⟨hForward, hEnd, own', entries, fresh, hMapped, hLength, hFilling⟩ :=
      (mapInTable_root_spec profile .user flags h.tables h.root_own hValid hSupplies).of_ok hWalk
    obtain ⟨hEntries, hOutside⟩ := h.mapped hValid hStop hForward hEnd hLength hMapped
    refine ⟨fun i hi hUsed offset hOffset => ?_, hOutside⟩
    simp only [Filling, show frames.start ≠ frames.stop by omega, if_false] at hFilling
    have hEntry : entryAt m' self.rootTable (pages.start + i) = ⟨frames.start + i, flags⟩ := by
      rw [hEntries i (by omega), getElem_of_entriesFrom hFilling.1]
    exact h.translate_eq_some hEntry hUsed hOffset
  · obtain ⟨count, hWalk⟩ := map_ok h.depth_eq hRun
    obtain ⟨hForward, hEnd, own', entries, fresh, hMapped, hLength, hFilling⟩ :=
      (mapInTable_root_spec profile .user flags h.tables h.root_own hValid (.inl rfl)).of_ok hWalk
    obtain ⟨hEntries, hOutside⟩ := h.mapped hValid hStop hForward hEnd hLength hMapped
    simp only [Filling, if_true] at hFilling
    have hTaken := hMapped.fresh_taken
    refine ⟨⟨fresh, by rw [← hLength, hFilling, List.length_map], hMapped.fresh_nodup,
      fun frame hMem => ⟨(hTaken frame hMem).1, (hTaken frame hMem).2.1⟩, ?_⟩, hOutside⟩
    intro i hi offset hOffset
    have hEntry : entryAt m' self.rootTable (pages.start + i) = ⟨fresh[i], flags⟩ := by grind
    have hNonzero : fresh[i] ≠ 0 := fun hZero =>
      h.tables.sound.zero_not_free (hZero ▸ (hTaken _ (List.getElem_mem hi)).1)
    exact h.translate_eq_some hEntry (.inr hNonzero) hOffset
  · obtain ⟨count, hWalk⟩ := map_ok h.depth_eq hRun
    obtain ⟨hForward, hEnd, own', entries, fresh, hMapped, hLength, hFilling⟩ :=
      (mapInTable_root_spec profile .kernel flags h.tables h.root_own hValid (.inl rfl)).of_ok hWalk
    obtain ⟨hEntries, hOutside⟩ := h.mapped hValid hStop hForward hEnd hLength hMapped
    refine ⟨fun addr hHas hUsed => ?_, hOutside⟩
    obtain ⟨hFirst, hLast⟩ := hHas
    have hEntry : entryAt m' self.rootTable (addr / PAGE_SIZE) = ⟨addr / PAGE_SIZE, flags⟩ := by
      have hAt := hEntries (addr / PAGE_SIZE - pages.start) (by omega)
      rwa [getElem_of_entriesFrom hFilling.1, Nat.add_sub_of_le hFirst] at hAt
    have hAddr := h.translate_eq_some hEntry hUsed (Nat.mod_lt addr (show PAGE_SIZE > 0 by decide))
    rwa [Nat.div_add_mod] at hAddr

/-- A page that is mapped into new tables translates to a frame that was free. -/
theorem map_translate_agree_of_page : ∃ self m own m' frame, IsTree m own self ∧
    self.map .development m ⟨512, 513⟩ .user USER_PAGE_FLAGS = .ok m' ∧ frame ∈ m.freeSet ∧
    self.translate m' (PAGE_SIZE * 512 + 42) = some (PAGE_SIZE * frame + 42) := by
  have hEnds : (onePage.map fun _ => ()).toOption = some () := by decide +kernel
  obtain ⟨⟨self, m'⟩, hRun, -⟩ := exists_ok_of_toOption hEnds
  obtain ⟨⟨paging, m⟩, hNew, hRest⟩ := bind_ok hRun
  obtain ⟨m₂, hMap, hEq⟩ := bind_ok hRest
  obtain ⟨rfl, rfl⟩ : paging = self ∧ m₂ = m' := by simpa using hEq
  obtain ⟨own, hTree⟩ := new_tree hNew
  obtain ⟨allocated, hLength, -, hFree, hTranslate⟩ := ((map_translate_agree hTree .development
    (by decide) (by decide) USER_PAGE_FLAGS).2.1 m₂ hMap).1
  have hFirst : 0 < allocated.length := by
    rw [hLength]
    decide
  exact ⟨paging, m, own, m₂, allocated[0], hTree, hMap, (hFree _ (List.getElem_mem hFirst)).1,
    hTranslate 0 hFirst 42 (by decide)⟩

/-- Frame 0 without a flag is the entry of a page that is not mapped. -/
theorem frame_zero_not_mapped : ∃ self m own m', IsTree m own self ∧
    self.mapPhysical .development m ⟨0, 1⟩ ⟨512, 513⟩ .user 0 = .ok m' ∧
    self.translate m' (PAGE_SIZE * 512) = none := by
  have hWalk : ((andThen (Paging.new smallMachine 4) fun self m =>
      self.mapPhysical .development m ⟨0, 1⟩ ⟨512, 513⟩ .user 0).map
      fun r => r.1.translate r.2.2 (PAGE_SIZE * 512)).toOption = some none := by decide +kernel
  obtain ⟨self, m, m', hNew, hMap, hTranslate⟩ := andThen_ok hWalk
  obtain ⟨own, hTree⟩ := new_tree hNew
  exact ⟨self, m, own, m', hTree, hMap, hTranslate⟩

end Paging

/-- An address space on these page tables, without areas. -/
def VirtualAddressSpace.onTables (pageTables : Paging) : VirtualAddressSpace :=
  ⟨SortedMap.empty, pageTables, USER_SPACE_START, lastUsableVirtualAddress 48⟩

end D3OS.Memory
