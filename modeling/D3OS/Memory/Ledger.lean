import D3OS.Memory.AreaBounds
import D3OS.Memory.System
import D3OS.Memory.UnmapRange
import D3OS.Memory.CopyWalk

/-! Who uses which frame. The ledger assigns frames to page tables, to pages
of user space and to kernel areas; a frame has one use at most, since an
assignment is a function. The lemmas say how the entries of one address space
and the ledger change together when frames are provided for pages and when
they are released. -/
namespace D3OS.Memory

open PageTableEntry (unused)
open PageTableFlags (PRESENT WRITABLE USER_ACCESSIBLE)
open Outcome (Yields)
open Paging

/-- The use of a frame that is no page table: a page of user space, or part
of a kernel area, which is named by its first page. -/
inductive Use where
  | page (root page : Nat)
  | area (root start : Nat)
  deriving DecidableEq

def Use.root : Use → Nat
  | .page root _ => root
  | .area root _ => root

structure Ledger where
  own : Nat → Option Node
  use : Nat → Option Use

/-- The ledger is true of the machine. -/
structure Ledger.Fits (ledger : Ledger) (m : Machine) : Prop where
  tables : Tables m ledger.own
  taken : ∀ {frame use}, ledger.use frame = some use →
    frame ∉ m.freeSet ∧ ledger.own frame = none ∧ frame ≠ 0
  live : ∀ {frame use}, ledger.use frame = some use →
    ledger.own use.root = some ⟨use.root, 4, 0⟩
  below : ∀ {frame}, frame ∈ m.freeSet ∨ ledger.own frame ≠ none ∨ ledger.use frame ≠ none →
    frame < USER_SPACE_PAGE

/-- A change to the address space of one root that the others do not see. -/
structure Spares (root : Nat) (m : Machine) (ledger : Ledger) (m' : Machine) (ledger' : Ledger) :
    Prop where
  fits : ledger'.Fits m'
  roots : ∀ {other}, other ≠ root → ledger.own other = some ⟨other, 4, 0⟩ →
    ledger'.own other = some ⟨other, 4, 0⟩
  uses : ∀ {frame use}, use.root ≠ root → ledger.use frame = some use →
    ledger'.use frame = some use
  entries : ∀ {other}, other ≠ root → ledger.own other = some ⟨other, 4, 0⟩ →
    ∀ page < 512 ^ 4, entryAt m' other page = entryAt m other page

/-- Frames that were free become tables of the root or get a use for it;
nothing is given up. -/
structure Provides (root : Nat) (m : Machine) (ledger : Ledger) (m' : Machine)
    (ledger' : Ledger) : Prop extends Spares root m ledger m' ledger' where
  keeps_own : ∀ {table node}, ledger.own table = some node → ledger'.own table = some node
  keeps_use : ∀ {frame use}, ledger.use frame = some use → ledger'.use frame = some use
  own_cases : ∀ {table node}, ledger'.own table = some node →
    ledger.own table = some node ∨ node.root = root ∧ table ∈ m.freeSet
  use_cases : ∀ {frame use}, ledger'.use frame = some use →
    ledger.use frame = some use ∨ use.root = root ∧ frame ∈ m.freeSet
  shrinks : m'.freeSet ⊆ m.freeSet
  spent : ∀ {frame}, frame ∈ m.freeSet → frame ∉ m'.freeSet →
    (∃ node, ledger'.own frame = some node ∧ node.root = root) ∨
      ∃ use, ledger'.use frame = some use ∧ use.root = root

variable {m m' : Machine} {ledger : Ledger} {own' : Nat → Option Node} {first : Nat}
  {paging : Paging} {pages : PageRange}

/-- A tree grows, and some of the frames it took from the free ones get a
use. -/
theorem Grows.provides {root : Nat} {use' : Nat → Option Use} (h : ledger.Fits m)
    (hGrows : Grows root m ledger.own m' own') (hRoot : own' root = some ⟨root, 4, 0⟩)
    (hKeep : ∀ {frame use}, ledger.use frame = some use → use' frame = some use)
    (hNew : ∀ {frame use}, use' frame = some use → ledger.use frame = some use ∨
      use.root = root ∧ frame ∈ m.freeSet ∧ frame ∉ m'.freeSet ∧ own' frame = none)
    (hSpent : ∀ {frame}, frame ∈ m.freeSet → frame ∉ m'.freeSet →
      own' frame ≠ none ∨ ∃ use, use' frame = some use ∧ use.root = root) :
    Provides root m ledger m' ⟨own', use'⟩ := by
  have hOwn : ∀ {table node}, own' table = some node →
      ledger.own table = some node ∨ node.root = root ∧ table ∈ m.freeSet := by
    intro table node hSome
    cases hBefore : ledger.own table with
    | none => exact .inr (hGrows.attached hSome hBefore)
    | some node' => exact .inl (by rw [← hSome, hGrows.keeps hBefore])
  have hTaken : ∀ {frame use}, use' frame = some use →
      frame ∉ m'.freeSet ∧ own' frame = none ∧ frame ≠ 0 := by
    intro frame use hUse
    rcases hNew hUse with hOld | ⟨-, hFree, hTaken, hNone⟩
    · obtain ⟨hFree, hNone, hZero⟩ := h.taken hOld
      refine ⟨fun hMem => hFree (hGrows.shrinks hMem), ?_, hZero⟩
      cases hSome : own' frame with
      | none => rfl
      | some node => exact absurd (hGrows.attached hSome hNone).2 hFree
    · exact ⟨hTaken, hNone, fun hZero => h.tables.sound.zero_not_free (hZero ▸ hFree)⟩
  have hLive : ∀ {frame use}, use' frame = some use →
      own' use.root = some ⟨use.root, 4, 0⟩ := by
    intro frame use hUse
    rcases hNew hUse with hOld | ⟨rfl, -⟩
    · exact hGrows.keeps (h.live hOld)
    · exact hRoot
  have hBelow : ∀ {frame}, frame ∈ m'.freeSet ∨ own' frame ≠ none ∨ use' frame ≠ none →
      frame < USER_SPACE_PAGE := by
    rintro frame (hFree | hSome | hSome)
    · exact h.below (.inl (hGrows.shrinks hFree))
    · obtain ⟨node, hNode⟩ := Option.ne_none_iff_exists'.mp hSome
      rcases hOwn hNode with hOld | ⟨-, hFree⟩
      · exact h.below (.inr (.inl (by simp [hOld])))
      · exact h.below (.inl hFree)
    · obtain ⟨use, hUse⟩ := Option.ne_none_iff_exists'.mp hSome
      rcases hNew hUse with hOld | ⟨-, hFree, -⟩
      · exact h.below (.inr (.inr (by simp [hOld])))
      · exact h.below (.inl hFree)
  exact {
    fits := ⟨hGrows.tables, hTaken, hLive, hBelow⟩
    roots := fun _ hOther => hGrows.keeps hOther
    uses := fun _ hUse => hKeep hUse
    entries := fun hNe hOther page hPage =>
      (hGrows.contained hRoot).entryAt_other h.tables hOther hNe hPage
    keeps_own := hGrows.keeps
    keeps_use := hKeep
    own_cases := hOwn
    use_cases := fun hUse => (hNew hUse).imp_right fun hNew => ⟨hNew.1, hNew.2.1⟩
    shrinks := hGrows.shrinks
    spent := by
      intro frame hFree hTaken
      refine (hSpent hFree hTaken).imp_left fun hSome => ?_
      obtain ⟨node, hNode⟩ := Option.ne_none_iff_exists'.mp hSome
      refine ⟨node, hNode, ?_⟩
      rcases hOwn hNode with hOld | ⟨hEq, -⟩
      · exact absurd hFree (h.tables.not_free hOld)
      · exact hEq }

/-- Pages from `first` on get user pages of their own; the other pages of the
root keep their entries. -/
structure UserMapped (root : Nat) (m : Machine) (ledger : Ledger) (first count : Nat)
    (m' : Machine) (ledger' : Ledger) : Prop extends Provides root m ledger m' ledger' where
  mapped : ∀ {page}, first ≤ page → page < first + count → ∃ frame ∈ m.freeSet,
    entryAt m' root page = ⟨frame, USER_PAGE_FLAGS⟩ ∧ ledger'.use frame = some (.page root page)
  other : ∀ {page}, page < 512 ^ 4 → ¬ (first ≤ page ∧ page < first + count) →
    entryAt m' root page = entryAt m root page
  new_use : ∀ {frame use}, ledger'.use frame = some use → ledger.use frame = none →
    ∃ page, first ≤ page ∧ page < first + count ∧ use = .page root page ∧
      (entryAt m' root page).frame = frame

/-- The uses of frames that are given to consecutive pages. -/
def pageUses (use : Nat → Option Use) (root first : Nat) (fresh : List Nat) : Nat → Option Use :=
  fun frame => if frame ∈ fresh then some (.page root (first + fresh.idxOf frame)) else use frame

theorem overwrite_of_lt {page : Nat} {entries : List PageTableEntry} {view : Nat → PageTableEntry}
    (hFirst : first ≤ page) (hLast : page - first < entries.length) :
    overwrite first entries view page = entries[page - first] := by
  simp [overwrite, hFirst, hLast]

theorem overwrite_of_outside {page : Nat} {entries : List PageTableEntry}
    {view : Nat → PageTableEntry} (h : ¬ (first ≤ page ∧ page < first + entries.length)) :
    overwrite first entries view page = view page := by
  unfold overwrite
  split
  · rw [List.getElem?_eq_none (by omega)]
    rfl
  · rfl

theorem Mapped.userMapped {root : Nat} {fresh : List Nat} (h : ledger.Fits m)
    (hRoot : ledger.own root = some ⟨root, 4, 0⟩) (hLast : first + fresh.length < 512 ^ 4)
    (hMapped : Mapped root m ledger.own first (fresh.map fun frame => ⟨frame, USER_PAGE_FLAGS⟩)
      fresh m' own') :
    UserMapped root m ledger first fresh.length m'
      ⟨own', pageUses ledger.use root first fresh⟩ := by
  have hEntry : ∀ {page}, first ≤ page → (hPage : page - first < fresh.length) →
      entryAt m' root page = ⟨fresh[page - first], USER_PAGE_FLAGS⟩ := by
    intro page hFirst hPage
    rw [hMapped.view page (by omega), overwrite_of_lt hFirst (by simpa using hPage)]
    simp
  have hProvides : Provides root m ledger m' ⟨own', pageUses ledger.use root first fresh⟩ := by
    refine hMapped.toGrows.provides h (hMapped.keeps hRoot) ?_ ?_ ?_
    · intro frame use hUse
      have hNot : frame ∉ fresh := fun hMem =>
        (h.taken hUse).1 (hMapped.fresh_taken frame hMem).1
      rwa [pageUses, if_neg hNot]
    · intro frame use hUse
      unfold pageUses at hUse
      split at hUse
      case isTrue hMem =>
        obtain rfl := Option.some.inj hUse
        exact .inr ⟨rfl, hMapped.fresh_taken frame hMem⟩
      case isFalse => exact .inl hUse
    · intro frame hFree hTaken
      refine (hMapped.spent frame hFree hTaken).symm.imp_right fun hMem => ?_
      exact ⟨_, if_pos hMem, rfl⟩
  refine ⟨hProvides, ?_, ?_, ?_⟩
  · intro page hFirst hPage
    have hIndex : page - first < fresh.length := by omega
    refine ⟨fresh[page - first], (hMapped.fresh_taken _ (List.getElem_mem hIndex)).1,
      hEntry hFirst hIndex, ?_⟩
    simp only [pageUses, List.getElem_mem, if_true, hMapped.fresh_nodup.idxOf_getElem]
    rw [Nat.add_sub_of_le hFirst]
  · intro page hPage hOutside
    rw [hMapped.view page hPage, overwrite_of_outside (by simpa using hOutside)]
  · intro frame use hUse hNone
    simp only [pageUses] at hUse
    split at hUse
    case isTrue => grind
    case isFalse => simp [hNone] at hUse

/-- `Paging::map` in user space. -/
theorem map_user_spec (profile : BuildProfile) (h : ledger.Fits m) (hDepth : paging.depth = 4)
    (hRoot : ledger.own paging.rootTable = some ⟨paging.rootTable, 4, 0⟩)
    (hValid : Page.Valid pages.start) :
    Yields False (paging.map profile m pages .user USER_PAGE_FLAGS) fun m' =>
      pages.start ≤ pages.stop ∧ pages.start % 512 ^ 4 + (pages.stop - pages.start) < 512 ^ 4 ∧
        ∃ ledger', UserMapped paging.rootTable m ledger (pages.start % 512 ^ 4)
          (pages.stop - pages.start) m' ledger' := by
  unfold Paging.map
  rw [hDepth]
  refine (mapInTable_root_spec profile .user USER_PAGE_FLAGS h.tables hRoot hValid (.inl rfl)).bind ?_
  rintro ⟨m', count⟩ ⟨hForward, hEnd, own', entries, fresh, hMapped, hLength, hFilling⟩
  simp only [Filling, if_true] at hFilling
  subst hFilling
  rw [List.length_map] at hLength
  rw [← hLength] at hEnd ⊢
  exact Yields.pure ⟨hForward, hEnd, _, hMapped.userMapped h hRoot hEnd⟩

/-- Pages from `first` on get entries for the frames with their own numbers;
the other pages of the root keep their entries. -/
structure IdentityMapped (root : Nat) (m : Machine) (first count : Nat) (flags : PageTableFlags)
    (m' : Machine) : Prop where
  mapped : ∀ {page}, first ≤ page → page < first + count → entryAt m' root page = ⟨page, flags⟩
  other : ∀ {page}, page < 512 ^ 4 → ¬ (first ≤ page ∧ page < first + count) →
    entryAt m' root page = entryAt m root page

/-- `map_in_table` in kernel space. -/
theorem map_kernel_spec (profile : BuildProfile) {own : Nat → Option Node} {root : Nat}
    {frames : Frames.PhysFrameRange} (flags : PageTableFlags) (h : Tables m own)
    (hRoot : own root = some ⟨root, 4, 0⟩) (hValid : Page.Valid pages.start)
    (hFrames : Supplies frames pages.start pages.stop) (hStop : pages.stop < 512 ^ 4) :
    Yields False (mapInTable profile 4 m root frames pages .kernel flags) fun (m', _) =>
      pages.start ≤ pages.stop ∧ ∃ own', Grows root m own m' own' ∧
        IdentityMapped root m pages.start (pages.stop - pages.start) flags m' ∧
        ∀ {frame}, frame ∈ m.freeSet → frame ∉ m'.freeSet → own' frame ≠ none := by
  refine (mapInTable_root_spec profile .kernel flags h hRoot hValid hFrames).mono ?_
  rintro ⟨m', count⟩ ⟨hForward, -, own', entries, fresh, hMapped, hLength, hEntries, rfl⟩
  rw [Nat.mod_eq_of_lt (by omega), hEntries] at hMapped
  rw [← hLength]
  refine ⟨hForward, own', hMapped.toGrows, ⟨?_, ?_⟩, ?_⟩
  · intro page hFirst hPage
    rw [hMapped.view page (by omega), overwrite_of_lt hFirst (by simp; omega)]
    simp only [entriesFrom, List.getElem_map, List.getElem_range', Nat.one_mul]
    rw [Nat.add_sub_of_le hFirst]
  · intro page hPage hOutside
    rw [hMapped.view page hPage, overwrite_of_outside (by simpa using hOutside)]
  · intro frame hFree hTaken
    exact (hMapped.spent frame hFree hTaken).resolve_left (by simp)

/-- A block of free frames becomes a kernel area of the root. -/
structure AreaAllocated (root : Nat) (m : Machine) (ledger : Ledger) (start count : Nat)
    (m' : Machine) (ledger' : Ledger) : Prop extends Provides root m ledger m' ledger' where
  mapped : ∀ {page}, start ≤ page → page < start + count → page ∈ m.freeSet ∧
    ledger'.use page = some (.area root start) ∧
    ∃ flags, entryAt m' root page = ⟨page, flags⟩ ∧ flags &&& USER_ACCESSIBLE = 0 ∧ flags ≠ 0
  other : ∀ {page}, page < 512 ^ 4 → ¬ (start ≤ page ∧ page < start + count) →
    entryAt m' root page = entryAt m root page
  new_use : ∀ {frame use}, ledger'.use frame = some use → ledger.use frame = none →
    start ≤ frame ∧ frame < start + count ∧ use = .area root start

/-- Allocated frames that are not used for anything yet. -/
theorem Grows.of_allocated {m₁ : Machine} {own : Nat → Option Node} (h : Tables m own) (root : Nat)
    {taken : Set Nat} (hAlloc : Machine.Allocated m taken m₁) :
    Grows root m own m₁ own := by
  have hSubset : m₁.freeSet ⊆ m.freeSet := by
    rw [hAlloc.freeSet_eq]
    exact Set.sdiff_subset
  have hRead : ∀ {table node}, own table = some node → ∀ index,
      m₁.read table index = m.read table index :=
    fun hOwn index => hAlloc.read_eq _ (h.not_free hOwn) index
  refine ⟨h.congr hAlloc.sound (fun table node hOwn hMem => h.not_free hOwn (hSubset hMem))
    (fun table node hOwn _ => hRead hOwn), id, ?_, hSubset, fun hOwn _ => hRead hOwn,
    hAlloc.physLimit_eq⟩
  intro table node hOwn hNone
  simp [hNone] at hOwn

theorem Grows.areaAllocated {root start count : Nat} {m₁ : Machine} {flags : PageTableFlags}
    (h : ledger.Fits m) (hRoot : ledger.own root = some ⟨root, 4, 0⟩)
    (hAlloc : Machine.Allocated m (Set.Ico start (start + count)) m₁)
    (hGrows : Grows root m₁ ledger.own m' own')
    (hIdentity : IdentityMapped root m₁ start count flags m')
    (hSpent : ∀ {frame}, frame ∈ m₁.freeSet → frame ∉ m'.freeSet → own' frame ≠ none)
    (hUser : flags &&& USER_ACCESSIBLE = 0) (hUsed : flags ≠ 0) :
    ∃ ledger', AreaAllocated root m ledger start count m' ledger' := by
  have hTaken := Grows.of_allocated h.tables root hAlloc
  have hArea : ∀ {frame}, start ≤ frame ∧ frame < start + count →
      frame ∈ m.freeSet ∧ frame ∉ m₁.freeSet := by
    intro frame hMem
    rw [hAlloc.freeSet_eq]
    exact ⟨hAlloc.free hMem, fun hRest => hRest.2 hMem⟩
  let use' (frame : Nat) : Option Use :=
    if start ≤ frame ∧ frame < start + count then some (.area root start) else ledger.use frame
  have hProvides : Provides root m ledger m' ⟨own', use'⟩ := by
    refine (hTaken.trans hGrows).provides h (hGrows.keeps hRoot) ?_ ?_ ?_
    · intro frame use hUse
      rwa [show use' frame = ledger.use frame from
        if_neg fun hMem => (h.taken hUse).1 (hArea hMem).1]
    · intro frame use hUse
      simp only [use'] at hUse
      split at hUse
      case isTrue hMem =>
        obtain ⟨hFree, hGone⟩ := hArea hMem
        obtain rfl := Option.some.inj hUse
        refine .inr ⟨rfl, hFree, fun hBack => hGone (hGrows.shrinks hBack), ?_⟩
        cases hOwn : own' frame with
        | none => rfl
        | some node => exact absurd (hGrows.attached hOwn (h.tables.none_of_free hFree)).2 hGone
      case isFalse => exact .inl hUse
    · intro frame hFree hGone
      by_cases hMem : start ≤ frame ∧ frame < start + count
      · exact .inr ⟨_, if_pos hMem, rfl⟩
      · refine .inl (hSpent ?_ hGone)
        rw [hAlloc.freeSet_eq]
        exact ⟨hFree, hMem⟩
  have hSame : ∀ {page}, page < 512 ^ 4 → entryAt m₁ root page = entryAt m root page := by
    intro page hPage
    refine h.tables.entryAt_congr hTaken.tables hRoot hRoot hPage ?_ fun leaf hLeaf => .inl hLeaf
    exact fun leaf hLeaf => ⟨hLeaf, hAlloc.read_eq _ (h.tables.not_free hLeaf) _⟩
  refine ⟨_, hProvides, ?_, ?_, ?_⟩
  · intro page hFirst hPage
    exact ⟨(hArea ⟨hFirst, hPage⟩).1, if_pos ⟨hFirst, hPage⟩, flags, hIdentity.mapped hFirst hPage,
      hUser, hUsed⟩
  · intro page hPage hOutside
    rw [hIdentity.other hPage hOutside, hSame hPage]
  · grind

/-- The entries of some pages of the root are cleared; their frames and the
tables that have run empty are free again, and nothing else is. -/
structure Released (root : Nat) (m : Machine) (ledger : Ledger) (pages : List Nat) (m' : Machine)
    (ledger' : Ledger) : Prop extends Spares root m ledger m' ledger' where
  root_own : ledger'.own root = some ⟨root, 4, 0⟩
  view : ∀ page < 512 ^ 4,
    entryAt m' root page = if page ∈ pages then unused else entryAt m root page
  below_own : ∀ {table node}, ledger'.own table = some node → ledger.own table = some node
  use_iff : ∀ {frame use}, ledger'.use frame = some use ↔
    ledger.use frame = some use ∧ frame ∉ m'.freeSet
  freed : ∀ {frame}, frame ∈ m'.freeSet → frame ∈ m.freeSet ∨
    (∃ node, ledger.own frame = some node ∧ node.root = root) ∨ frame ∈ released m root pages
  given_back : ∀ {frame}, frame ∈ m.freeSet ∨
    (ledger.own frame ≠ none ∧ ledger'.own frame = none) ∨ frame ∈ released m root pages →
    frame ∈ m'.freeSet

open scoped Classical in
/-- The uses that are left. -/
noncomputable def usesWithout (use : Nat → Option Use) (free : Set Nat) : Nat → Option Use :=
  fun frame => if frame ∈ free then none else use frame

theorem usesWithout_eq_some {uses : Nat → Option Use} {free : Set Nat} {frame : Nat} {use : Use} :
    usesWithout uses free frame = some use ↔ uses frame = some use ∧ frame ∉ free := by
  unfold usesWithout
  split
  case isTrue hMem => simp [hMem]
  case isFalse hNot => simp [hNot]

theorem Unmapped.released_spec {root : Nat} {pages : List Nat} (h : ledger.Fits m)
    (hRoot : ledger.own root = some ⟨root, 4, 0⟩)
    (hUse : ∀ page ∈ pages, entryAt m root page ≠ unused →
      ∃ use, ledger.use (entryAt m root page).frame = some use ∧ use.root = root)
    (hUnmapped : Unmapped root 4 0 m ledger.own pages true m' own') :
    Released root m ledger pages m' ⟨own', usesWithout ledger.use m'.freeSet⟩ := by
  have hContained := hUnmapped.contained hRoot
  have hRoots : ∀ {other}, ledger.own other = some ⟨other, 4, 0⟩ →
      own' other = some ⟨other, 4, 0⟩ :=
    fun hOther => hUnmapped.keeps hOther fun hBoth => by simp at hBoth
  have hReleased : ∀ {frame}, frame ∈ released m root pages →
      ∃ use, ledger.use frame = some use ∧ use.root = root := by
    rintro frame ⟨page, hMem, hUsed, rfl⟩
    exact hUse page hMem hUsed
  have hFreed : ∀ {frame}, frame ∈ m'.freeSet → frame ∈ m.freeSet ∨
      (∃ node, ledger.own frame = some node ∧ node.root = root) ∨
        frame ∈ released m root pages := by
    intro frame hFree
    rcases (hUnmapped.mem_freeSet frame).mp hFree with hFree | ⟨hSome, hNone⟩ | ⟨-, hMem⟩
    · exact .inl hFree
    · obtain ⟨node, hNode⟩ := Option.ne_none_iff_exists'.mp hSome
      exact .inr (.inl ⟨node, hNode, (hUnmapped.dropped hNode hNone).1.1⟩)
    · exact .inr (.inr hMem)
  refine ⟨⟨⟨hUnmapped.tables, ?_, ?_, ?_⟩, fun _ => hRoots, ?_, ?_⟩, hContained.root_own,
    hUnmapped.view, hUnmapped.below, usesWithout_eq_some, hFreed, ?_⟩
  · intro frame use hSome
    obtain ⟨hOld, hFree⟩ := usesWithout_eq_some.mp hSome
    obtain ⟨-, hNone, hZero⟩ := h.taken hOld
    refine ⟨hFree, ?_, hZero⟩
    cases hOwn : own' frame with
    | none => exact hOwn
    | some node => simp [hUnmapped.below hOwn] at hNone
  · intro frame use hSome
    exact hRoots (h.live (usesWithout_eq_some.mp hSome).1)
  · rintro frame (hFree | hSome | hSome)
    · rcases hFreed hFree with hFree | ⟨node, hNode, -⟩ | hMem
      · exact h.below (.inl hFree)
      · exact h.below (.inr (.inl (by simp [hNode])))
      · obtain ⟨use, hOld, -⟩ := hReleased hMem
        exact h.below (.inr (.inr (by simp [hOld])))
    · obtain ⟨node, hNode⟩ := Option.ne_none_iff_exists'.mp hSome
      exact h.below (.inr (.inl (by simp [hUnmapped.below hNode])))
    · obtain ⟨use, hUse'⟩ := Option.ne_none_iff_exists'.mp hSome
      exact h.below (.inr (.inr (by simp [(usesWithout_eq_some.mp hUse').1])))
  · intro frame use hNe hOld
    refine usesWithout_eq_some.mpr ⟨hOld, fun hFree => ?_⟩
    rcases hFreed hFree with hFree | ⟨node, hNode, -⟩ | hMem
    · exact (h.taken hOld).1 hFree
    · simp [(h.taken hOld).2.1] at hNode
    · grind
  · exact fun hNe hOther page hPage => hContained.entryAt_other h.tables hOther hNe hPage
  · rintro frame (hFree | hDropped | hMem)
    · exact (hUnmapped.mem_freeSet frame).mpr (.inl hFree)
    · exact (hUnmapped.mem_freeSet frame).mpr (.inr (.inl hDropped))
    · exact (hUnmapped.mem_freeSet frame).mpr (.inr (.inr ⟨rfl, hMem⟩))

/-- `Paging::unmap` with the frames of the pages given back. -/
theorem unmap_spec (profile : BuildProfile) (h : ledger.Fits m) (hDepth : paging.depth = 4)
    (hRoot : ledger.own paging.rootTable = some ⟨paging.rootTable, 4, 0⟩)
    (hValid : Page.Valid pages.start) (hRelease : Releasable m ledger.own paging.rootTable
      (visited m pages.stop 4 paging.rootTable 0 pages.start).1)
    (hUse : ∀ page ∈ (visited m pages.stop 4 paging.rootTable 0 pages.start).1,
      entryAt m paging.rootTable page ≠ unused → ∃ use,
        ledger.use (entryAt m paging.rootTable page).frame = some use ∧
          use.root = paging.rootTable) :
    Yields (Walkable pages) (paging.unmap profile m pages true) fun m' =>
      ∃ ledger', Released paging.rootTable m ledger
        (visited m pages.stop 4 paging.rootTable 0 pages.start).1 m' ledger' := by
  unfold Paging.unmap
  rw [hDepth]
  refine (unmapInTable_spec profile 3 h.tables hRoot hValid fun _ => hRelease).bind ?_
  rintro ⟨m', count⟩ ⟨-, own', hUnmapped, -⟩
  exact Yields.pure ⟨_, hUnmapped.released_spec h hRoot hUse⟩

/-- A new root that translates like the source. -/
structure ClonedFrom (source root : Nat) (m : Machine) (ledger : Ledger) (m' : Machine)
    (ledger' : Ledger) : Prop extends Provides root m ledger m' ledger' where
  root_free : root ∈ m.freeSet
  root_own : ledger'.own root = some ⟨root, 4, 0⟩
  use_eq : ledger'.use = ledger.use
  view : ∀ page < 512 ^ 4, entryAt m' root page = entryAt m source page

theorem clone_spec {other : Paging} (h : ledger.Fits m) (hDepth : other.depth = 4)
    (hOther : ledger.own other.rootTable = some ⟨other.rootTable, 4, 0⟩) :
    Yields False (fromOther m other) fun (paging, m') => paging.depth = 4 ∧
      ∃ ledger', ClonedFrom other.rootTable paging.rootTable m ledger m' ledger' := by
  refine (fromOther_spec h.tables hDepth hOther).mono ?_
  rintro ⟨paging, m'⟩ ⟨hDepth', own', hCloned⟩
  refine ⟨hDepth', ⟨own', ledger.use⟩, ?_, hCloned.root_free, hCloned.root_own, rfl, hCloned.view⟩
  exact hCloned.toGrows.provides h hCloned.root_own id .inl
    fun hFree hTaken => .inl (hCloned.spent _ hFree hTaken)

/-- A root is gone, with all its tables and uses. -/
structure Ended (root : Nat) (m : Machine) (ledger : Ledger) (m' : Machine) (ledger' : Ledger) :
    Prop extends Spares root m ledger m' ledger' where
  mem_freeSet : ∀ frame, frame ∈ m'.freeSet ↔
    frame ∈ m.freeSet ∨ ∃ node, ledger.own frame = some node ∧ node.root = root

theorem drop_spec (h : ledger.Fits m) (hDepth : paging.depth = 4)
    (hRoot : ledger.own paging.rootTable = some ⟨paging.rootTable, 4, 0⟩) :
    Yields True (paging.drop m) fun m' => ∃ ledger', Ended paging.rootTable m ledger m' ledger' := by
  have hStart : Dropped m ledger.own ∅ m :=
    ⟨h.tables.sound, by simp, fun _ _ _ _ _ => rfl, rfl⟩
  unfold Paging.drop
  rw [hDepth]
  refine (dropTable_spec 3 h.tables hStart hRoot (by simp)).mono ?_
  intro m' hDropped
  rw [Set.empty_union] at hDropped
  have hTables := hDropped.tables h.tables
  have hSubtree : ∀ {frame}, frame ∈ subtree ledger.own paging.rootTable 4 0 ↔
      ∃ node, ledger.own frame = some node ∧ node.root = paging.rootTable := by
    intro frame
    refine ⟨fun ⟨node, hOwn, hUnder⟩ => ⟨node, hOwn, hUnder.1⟩, ?_⟩
    rintro ⟨node, hOwn, hEq⟩
    exact ⟨node, hOwn, hEq ▸ (h.tables.root_own hOwn).2⟩
  have hFree : ∀ frame, frame ∈ m'.freeSet ↔
      frame ∈ m.freeSet ∨ ∃ node, ledger.own frame = some node ∧ node.root = paging.rootTable :=
    fun frame => by rw [hDropped.mem_freeSet, hSubtree]
  have hUse : ∀ {frame use}, (ledger.use frame).filter (fun use => use.root ≠ paging.rootTable) =
      some use ↔ ledger.use frame = some use ∧ use.root ≠ paging.rootTable := by simp
  have hOther : ∀ {other}, other ≠ paging.rootTable → ledger.own other = some ⟨other, 4, 0⟩ →
      without ledger.own paging.rootTable other = some ⟨other, 4, 0⟩ :=
    fun hNe hOwn => without_eq_some.mpr ⟨hOwn, hNe⟩
  refine ⟨⟨without ledger.own paging.rootTable, fun frame =>
    (ledger.use frame).filter fun use => use.root ≠ paging.rootTable⟩,
    ⟨⟨hTables, ?_, ?_, ?_⟩, hOther, fun hNe hOld => hUse.mpr ⟨hOld, hNe⟩, ?_⟩, hFree⟩
  · intro frame use hSome
    obtain ⟨hOld, -⟩ := hUse.mp hSome
    obtain ⟨hNotFree, hNone, hZero⟩ := h.taken hOld
    refine ⟨?_, by simp [without, hNone], hZero⟩
    rw [hFree]
    rintro (hMem | ⟨node, hOwn, -⟩)
    · exact hNotFree hMem
    · simp [hNone] at hOwn
  · intro frame use hSome
    obtain ⟨hOld, hNe⟩ := hUse.mp hSome
    exact hOther hNe (h.live hOld)
  · rintro frame (hMem | hSome | hSome)
    · rcases (hFree frame).mp hMem with hMem | ⟨node, hOwn, -⟩
      · exact h.below (.inl hMem)
      · exact h.below (.inr (.inl (by simp [hOwn])))
    · obtain ⟨node, hNode⟩ := Option.ne_none_iff_exists'.mp hSome
      exact h.below (.inr (.inl (by simp [(without_eq_some.mp hNode).1])))
    · obtain ⟨use, hSome⟩ := Option.ne_none_iff_exists'.mp hSome
      exact h.below (.inr (.inr (by simp [(hUse.mp hSome).1])))
  · intro other hNe hOwn page hPage
    refine h.tables.entryAt_congr hTables hOwn (hOther hNe hOwn) hPage ?_ ?_
    · intro leaf hLeaf
      refine ⟨without_eq_some.mpr ⟨hLeaf, hNe⟩, hDropped.read_eq leaf _ hLeaf ?_ _⟩
      rintro ⟨node, hOwn', hUnder⟩
      obtain rfl := Option.some.inj (hLeaf.symm.trans hOwn')
      exact hNe hUnder.1
    · exact fun leaf hLeaf => .inl (without_eq_some.mp hLeaf).1

/-- Data in a frame that has a use is no part of any page table. -/
theorem Ledger.Fits.write (h : ledger.Fits m) {frame : Nat} {use : Use}
    (hUse : ledger.use frame = some use) (index : Nat) (word : PageTableEntry) :
    ledger.Fits (m.write frame index word) ∧
      ∀ {root}, ledger.own root = some ⟨root, 4, 0⟩ → ∀ page < 512 ^ 4,
        entryAt (m.write frame index word) root page = entryAt m root page := by
  have hRead : ∀ {table node}, ledger.own table = some node → ∀ i,
      (m.write frame index word).read table i = m.read table i := by
    intro table node hOwn i
    have hNe : table ≠ frame := by
      rintro rfl
      simp [(h.taken hUse).2.1] at hOwn
    simp [hNe]
  have hTables : Tables (m.write frame index word) ledger.own :=
    h.tables.congr (h.tables.sound.write _ _ _) (fun table node hOwn => h.tables.not_free hOwn)
      fun table node hOwn _ => hRead hOwn
  refine ⟨⟨hTables, h.taken, h.live, h.below⟩, ?_⟩
  intro root hRoot page hPage
  exact h.tables.entryAt_congr hTables hRoot hRoot hPage
    (fun leaf hLeaf => ⟨hLeaf, hRead hLeaf _⟩) fun leaf hLeaf => .inl hLeaf

end D3OS.Memory
