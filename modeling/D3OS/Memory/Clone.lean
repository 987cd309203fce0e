import D3OS.Memory.CopyWalk
import D3OS.Memory.UnmapWalk
import Mathlib.Logic.Relation

/-! Cloned page tables. `from_other` gives a tree that translates like its
source and shares no table with it. Whatever is called on one of the two
afterwards leaves the other alone, and dropping the clone gives back its
tables and nothing else. -/
namespace D3OS.Memory

open PageTableEntry (unused)
open Outcome

namespace Paging

/-- The mapped pages among those a call of `unmap` or `set_flags` reaches. -/
def reached (self : Paging) (m : Machine) (pages : PageRange) : List Nat :=
  (visited m pages.stop self.depth self.rootTable 0 pages.start).1.filter fun page =>
    !(leafEntry m self.depth self.rootTable page).isUnused

/-- The frames that `unmap` gives back if it is asked to. -/
def freedFrames (self : Paging) (m : Machine) (pages : PageRange) : List Nat :=
  (self.reached m pages).map fun page => (leafEntry m self.depth self.rootTable page).frame

end Paging

open Paging

/-- The calls on page tables. -/
inductive PagingCall where
  | map (pages : PageRange) (space : MemorySpace) (flags : PageTableFlags)
  | mapPhysical (frames : Frames.PhysFrameRange) (pages : PageRange) (space : MemorySpace)
      (flags : PageTableFlags)
  | unmap (pages : PageRange) (freePhysical : Bool)
  | setFlags (pages : PageRange) (flags : PageTableFlags)

/-- Page tables, with the frames that were allocated for pages mapped in
them and are not yet given back. -/
structure Tree where
  paging : Paging
  held : List Nat

namespace PagingCall

def pages : PagingCall → PageRange
  | map pages _ _ => pages
  | mapPhysical _ pages _ _ => pages
  | unmap pages _ => pages
  | setFlags pages _ => pages

def run (profile : BuildProfile) (self : Paging) (m : Machine) :
    PagingCall → Except Panic Machine
  | map pages space flags => self.map profile m pages space flags
  | mapPhysical frames pages space flags => self.mapPhysical profile m frames pages space flags
  | unmap pages freePhysical => self.unmap profile m pages freePhysical
  | setFlags pages flags => self.setFlags profile m pages flags

/-- The range starts at a page, and `unmap` frees only frames that were
allocated for this tree, none of them twice. -/
def Allowed (call : PagingCall) (m : Machine) (tree : Tree) : Prop :=
  Page.Valid call.pages.start ∧
    match call with
    | unmap pages true =>
      (tree.paging.freedFrames m pages).Nodup ∧
        ∀ frame ∈ tree.paging.freedFrames m pages, frame ∈ tree.held
    | _ => True

/-- The frames held after a call that leads from `m` to `m'`. -/
def heldAfter (call : PagingCall) (tree : Tree) (m m' : Machine) : List Nat :=
  match call with
  | map pages .user _ =>
    tree.held ++ (List.range' pages.start (pages.stop - pages.start)).map fun page =>
      (leafEntry m' tree.paging.depth tree.paging.rootTable page).frame
  | unmap pages true =>
    tree.held.filter fun frame => frame ∉ tree.paging.freedFrames m pages
  | _ => tree.held

end PagingCall

/-- An allowed call on a tree returns. -/
def Called (profile : BuildProfile) (s s' : Machine × Tree) : Prop :=
  ∃ call : PagingCall, call.Allowed s.1 s.2 ∧ call.run profile s.2.paging s.1 = .ok s'.1 ∧
    s'.2 = ⟨s.2.paging, call.heldAfter s.2 s.1 s'.1⟩

/-- Any number of such calls. -/
def Calls (profile : BuildProfile) : Machine × Tree → Machine × Tree → Prop :=
  Relation.ReflTransGen (Called profile)

/-- Two trees in one memory. -/
structure Pair where
  machine : Machine
  a : Tree
  b : Tree

namespace Pair

def OnA (profile : BuildProfile) (s s' : Pair) : Prop :=
  Called profile (s.machine, s.a) (s'.machine, s'.a) ∧ s'.b = s.b

def OnB (profile : BuildProfile) (s s' : Pair) : Prop :=
  Called profile (s.machine, s.b) (s'.machine, s'.b) ∧ s'.a = s.a

/-- Calls on the two trees in any order. -/
def Runs (profile : BuildProfile) : Pair → Pair → Prop :=
  Relation.ReflTransGen fun s s' => OnA profile s s' ∨ OnB profile s s'

end Pair

/-- Frames in use that are no tables. -/
def Holds (m : Machine) (own : Nat → Option Node) (frames : List Nat) : Prop :=
  ∀ frame ∈ frames, frame ∉ m.freeSet ∧ own frame = none ∧ frame ≠ 0

/-- What a call does to the frames in use outside the tables: those it gives
back were held for the tree, those it adds were free. -/
structure HeldEffect (m : Machine) (own : Nat → Option Node) (held : List Nat) (m' : Machine)
    (own' : Nat → Option Node) (held' : List Nat) : Prop where
  holds : Holds m' own' held'
  others : ∀ frame ∉ held, frame ∉ m.freeSet → own frame = none →
    frame ∉ m'.freeSet ∧ own' frame = none ∧ frame ∉ held'

theorem Mapped.heldEffect {root first : Nat} {m m' : Machine} {own own' : Nat → Option Node}
    {entries : List PageTableEntry} {fresh held : List Nat} (h : Tables m own)
    (hHeld : Holds m own held) (hMapped : Mapped root m own first entries fresh m' own') :
    HeldEffect m own held m' own' (held ++ fresh) := by
  have hKeep : ∀ frame, frame ∉ m.freeSet → own frame = none →
      frame ∉ m'.freeSet ∧ own' frame = none := by
    intro frame hFree hNone
    refine ⟨fun hMem => hFree (hMapped.shrinks hMem), ?_⟩
    cases hOwn : own' frame with
    | none => rfl
    | some node => exact absurd (hMapped.attached hOwn hNone).2 hFree
  refine ⟨fun frame hMem => ?_, fun frame hNot hFree hNone => ?_⟩
  · rcases List.mem_append.mp hMem with hMem | hMem
    · obtain ⟨hFree, hNone, hZero⟩ := hHeld frame hMem
      exact ⟨(hKeep frame hFree hNone).1, (hKeep frame hFree hNone).2, hZero⟩
    · obtain ⟨hFree, hTaken, hNone⟩ := hMapped.fresh_taken frame hMem
      exact ⟨hTaken, hNone, fun hZero => h.sound.zero_not_free (hZero ▸ hFree)⟩
  · refine ⟨(hKeep frame hFree hNone).1, (hKeep frame hFree hNone).2, fun hMem => ?_⟩
    rcases List.mem_append.mp hMem with hMem | hMem
    · exact hNot hMem
    · exact hFree (hMapped.fresh_taken frame hMem).1

variable {m m' : Machine} {own : Nat → Option Node} {flags : PageTableFlags}

/-- The frames of freshly mapped user pages can be read off the tables. -/
theorem Mapped.fresh_eq {root start count : Nat} {own' : Nat → Option Node} {fresh : List Nat}
    (hCount : fresh.length = count) (hEnd : start % 512 ^ 4 + count < 512 ^ 4)
    (hMapped : Mapped root m own (start % 512 ^ 4) (fresh.map fun frame => ⟨frame, flags⟩) fresh
      m' own') :
    ((List.range' start count).map fun page => (leafEntry m' 4 root page).frame) = fresh := by
  refine List.ext_getElem (by simp [hCount]) ?_
  intro i hi hi'
  rw [List.getElem_map, List.getElem_range', Nat.one_mul]
  have hPage : (start + i) % 512 ^ 4 = start % 512 ^ 4 + i := by omega
  have hView := hMapped.view (start % 512 ^ 4 + i) (by omega)
  rw [← hPage, entryAt_mod, hPage] at hView
  rw [show leafEntry m' 4 root (start + i) = entryAt m' root (start + i) from rfl, hView]
  simp [overwrite, hi']

/-- The clearing of entries whose frames were held for the tree. -/
theorem Unmapped.heldEffect {root level region : Nat} {m m' : Machine}
    {own own' : Nat → Option Node} {pages held freed : List Nat} {freePhysical : Bool}
    (hHeld : Holds m own held) (hUnmapped : Unmapped root level region m own pages freePhysical m' own')
    (hFreed : ∀ frame, frame ∈ freed ↔ freePhysical = true ∧ frame ∈ released m root pages)
    (hSubset : ∀ frame ∈ freed, frame ∈ held) :
    HeldEffect m own held m' own' (held.filter fun frame => frame ∉ freed) := by
  have hKeep : ∀ frame, frame ∉ freed → frame ∉ m.freeSet → own frame = none →
      frame ∉ m'.freeSet ∧ own' frame = none := by
    intro frame hNot hFree hNone
    refine ⟨?_, ?_⟩
    · rw [hUnmapped.mem_freeSet, ← hFreed]
      rintro (hMem | ⟨hSome, -⟩ | hMem)
      · exact hFree hMem
      · exact hSome hNone
      · exact hNot hMem
    · cases hOwn : own' frame with
      | none => rfl
      | some node => simp [hUnmapped.below hOwn] at hNone
  refine ⟨fun frame hMem => ?_, fun frame hNot hFree hNone => ?_⟩
  · rw [List.mem_filter, decide_eq_true_eq] at hMem
    obtain ⟨hFree, hNone, hZero⟩ := hHeld frame hMem.1
    obtain ⟨hFree', hNone'⟩ := hKeep frame hMem.2 hFree hNone
    exact ⟨hFree', hNone', hZero⟩
  · obtain ⟨hFree', hNone'⟩ := hKeep frame (fun hMem => hNot (hSubset frame hMem)) hFree hNone
    exact ⟨hFree', hNone', fun hMem => hNot (List.mem_filter.mp hMem).1⟩

section Calls

variable {profile : BuildProfile} {m m' : Machine} {own : Nat → Option Node} {tree : Tree}

/-- The effect of a call on its tree. -/
def CallEffect (m : Machine) (own : Nat → Option Node) (tree : Tree) (m' : Machine)
    (held' : List Nat) : Prop :=
  ∃ own', Contained tree.paging.rootTable m own m' own' ∧ HeldEffect m own tree.held m' own' held'

theorem map_effect (h : Tables m own) (hDepth : tree.paging.depth = 4)
    (hRoot : own tree.paging.rootTable = some ⟨tree.paging.rootTable, 4, 0⟩)
    (hHeld : Holds m own tree.held) {pages : PageRange} {space : MemorySpace}
    (hValid : Page.Valid pages.start)
    (hRun : tree.paging.map profile m pages space flags = .ok m') :
    CallEffect m own tree m' ((PagingCall.map pages space flags).heldAfter tree m m') := by
  obtain ⟨count, hWalk⟩ := map_ok hDepth hRun
  obtain ⟨hStop, hEnd, own', entries, fresh, hMapped, hLength, hFilling⟩ :=
    (mapInTable_root_spec profile space flags h hRoot hValid (.inl rfl)).of_ok hWalk
  refine ⟨own', hMapped.toGrows.contained (hMapped.keeps hRoot), ?_⟩
  have hEffect := hMapped.heldEffect h hHeld
  cases space with
  | kernel =>
    obtain ⟨-, rfl⟩ := hFilling
    rwa [List.append_nil] at hEffect
  | user =>
    simp only [Filling, if_true] at hFilling
    subst hFilling
    rw [← hMapped.fresh_eq (by simpa using hLength) hEnd] at hEffect
    simpa only [PagingCall.heldAfter, hDepth] using hEffect

theorem mapPhysical_effect (h : Tables m own) (hDepth : tree.paging.depth = 4)
    (hRoot : own tree.paging.rootTable = some ⟨tree.paging.rootTable, 4, 0⟩)
    (hHeld : Holds m own tree.held) {frames : Frames.PhysFrameRange} {pages : PageRange}
    {space : MemorySpace} (hValid : Page.Valid pages.start)
    (hRun : tree.paging.mapPhysical profile m frames pages space flags = .ok m') :
    CallEffect m own tree m' tree.held := by
  obtain ⟨⟨count, hWalk⟩, hSupplies, hCount⟩ := mapPhysical_ok hDepth hRun
  obtain ⟨hStop, -, own', entries, fresh, hMapped, hLength, hFilling⟩ :=
    (mapInTable_root_spec profile space flags h hRoot hValid hSupplies).of_ok hWalk
  refine ⟨own', hMapped.toGrows.contained (hMapped.keeps hRoot), ?_⟩
  have hEffect := hMapped.heldEffect h hHeld
  obtain rfl : fresh = [] := hFilling.fresh_eq_nil hCount hLength
  rwa [List.append_nil] at hEffect

/-- The frames a call gives back, and that it may do so. -/
theorem mem_freedFrames (hDepth : tree.paging.depth = 4) (m : Machine) (pages : PageRange)
    (frame : Nat) :
    frame ∈ tree.paging.freedFrames m pages ↔ frame ∈ released m tree.paging.rootTable
      (visited m pages.stop 4 tree.paging.rootTable 0 pages.start).1 := by
  simp only [freedFrames, reached, hDepth, List.mem_map, List.mem_filter, released,
    Set.mem_ofPred_eq, entryAt, and_assoc, Bool.not_eq_true', PageTableEntry.isUnused,
    decide_eq_false_iff_not, ne_eq]

theorem releasable_of_allowed (hDepth : tree.paging.depth = 4) (hHeld : Holds m own tree.held)
    {pages : PageRange} (hAllowed : (PagingCall.unmap pages true).Allowed m tree) :
    Releasable m own tree.paging.rootTable
      (visited m pages.stop 4 tree.paging.rootTable 0 pages.start).1 := by
  obtain ⟨-, hNodup, hSubset⟩ := hAllowed
  refine ⟨fun page hMem => ?_, fun page hMem hUsed => ?_, ?_⟩
  · have hRegion := visited_region hMem
    omega
  · exact hHeld _ (hSubset _ ((mem_freedFrames hDepth m pages _).mpr ⟨page, hMem, hUsed, rfl⟩))
  · intro page hMem page' hMem' hUsed hUsed' hFrame
    have hReached : ∀ {page}, page ∈ (visited m pages.stop 4 tree.paging.rootTable 0 pages.start).1 →
        entryAt m tree.paging.rootTable page ≠ unused → page ∈ tree.paging.reached m pages := by
      intro page hMem hUsed
      simp only [reached, hDepth, List.mem_filter, hMem, true_and, Bool.not_eq_true',
        PageTableEntry.isUnused, decide_eq_false_iff_not]
      exact hUsed
    refine List.inj_on_of_nodup_map hNodup (hReached hMem hUsed) (hReached hMem' hUsed') ?_
    simp only [hDepth]
    exact hFrame

section

variable (h : Tables m own) (hDepth : tree.paging.depth = 4)
  (hRoot : own tree.paging.rootTable = some ⟨tree.paging.rootTable, 4, 0⟩)
  (hHeld : Holds m own tree.held)

include h hDepth hRoot hHeld

theorem unmap_effect {pages : PageRange} {freePhysical : Bool}
    (hAllowed : (PagingCall.unmap pages freePhysical).Allowed m tree)
    (hRun : tree.paging.unmap profile m pages freePhysical = .ok m') :
    CallEffect m own tree m' ((PagingCall.unmap pages freePhysical).heldAfter tree m m') := by
  obtain ⟨⟨_, count⟩, hWalk, hEq⟩ := bind_ok hRun
  obtain rfl : _ = m' := by simpa using hEq
  rw [hDepth] at hWalk
  have hRelease : freePhysical = true → Releasable m own tree.paging.rootTable
      (visited m pages.stop 4 tree.paging.rootTable 0 pages.start).1 := by
    rintro rfl
    exact releasable_of_allowed hDepth hHeld hAllowed
  obtain ⟨-, own', hUnmapped, -⟩ :=
    (unmapInTable_spec profile 3 h hRoot hAllowed.1 hRelease).of_ok hWalk
  refine ⟨own', hUnmapped.contained hRoot, ?_⟩
  cases freePhysical with
  | true =>
    exact hUnmapped.heldEffect hHeld
      (fun frame => (mem_freedFrames hDepth m pages frame).trans (and_iff_right rfl).symm)
      hAllowed.2.2
  | false =>
    have hEffect := @Unmapped.heldEffect _ _ _ _ _ _ _ _ _ [] _ hHeld hUnmapped
      (fun frame => by simp) (by simp)
    simpa [PagingCall.heldAfter] using hEffect

theorem setFlags_effect {pages : PageRange}
    (hRun : tree.paging.setFlags profile m pages flags = .ok m') :
    CallEffect m own tree m' tree.held := by
  obtain ⟨⟨_, count⟩, hWalk, hEq⟩ := bind_ok hRun
  obtain rfl : _ = m' := by simpa using hEq
  rw [hDepth] at hWalk
  have hGrows := (setFlagsInTable_spec profile flags h hRoot).of_ok hWalk
  have hKeep : ∀ {frame}, frame ∉ m.freeSet → frame ∉ Machine.freeSet _ :=
    fun hFree hMem => hFree (hGrows.shrinks hMem)
  refine ⟨own, hGrows.contained (hGrows.keeps hRoot), fun frame hMem => ?_,
    fun frame hNot hFree hNone => ⟨hKeep hFree, hNone, hNot⟩⟩
  exact ⟨hKeep (hHeld frame hMem).1, (hHeld frame hMem).2⟩

theorem Called.effect {tree' : Tree} (hCalled : Called profile (m, tree) (m', tree')) :
    tree'.paging = tree.paging ∧ CallEffect m own tree m' tree'.held := by
  obtain ⟨call, hAllowed, hRun, hTree⟩ := hCalled
  simp only at hAllowed hRun hTree
  subst hTree
  refine ⟨rfl, ?_⟩
  cases call with
  | map pages space flags => exact map_effect h hDepth hRoot hHeld hAllowed.1 hRun
  | mapPhysical frames pages space flags =>
    exact mapPhysical_effect h hDepth hRoot hHeld hAllowed.1 hRun
  | unmap pages freePhysical => exact unmap_effect h hDepth hRoot hHeld hAllowed hRun
  | setFlags pages flags => exact setFlags_effect h hDepth hRoot hHeld hRun

end

end Calls

/-- No table occurs twice below another. -/
theorem tablesBelow_nodup (h : Tables m own) (level : Nat) {table root region : Nat}
    (hOwn : own table = some ⟨root, level + 1, region⟩) :
    (tablesBelow m (level + 1) table).Nodup := by
  induction level generalizing table region with
  | zero => simp [tablesBelow]
  | succ level ih =>
    have hBehind : ∀ index < 512, ∀ frame, (frame ∈ if (m.read table index).isUnused then []
        else tablesBelow m (level + 1) (m.read table index).frame) →
        frame ∈ subtree own root (level + 1) (region * 512 + index) := by
      intro index hIndex frame hMem
      split at hMem
      · cases hMem
      case isFalse hUsed =>
        exact (mem_tablesBelow h level (h.down hOwn hIndex (by simpa using hUsed)) frame).mp hMem
    refine List.nodup_cons.mpr ⟨?_, List.nodup_flatMap.mpr ⟨?_, ?_⟩⟩
    · intro hMem
      obtain ⟨index, hIndex, hMem⟩ := List.mem_flatMap.mp hMem
      obtain ⟨node, hOwn', hUnder⟩ := hBehind index (List.mem_range.mp hIndex) table hMem
      obtain rfl : node = ⟨root, level + 2, region⟩ := by simpa [hOwn] using hOwn'.symm
      exact UnmapState.not_under root level region index hUnder
    · intro index hIndex
      dsimp only
      split
      · exact List.nodup_nil
      case isFalse hUsed =>
        exact ih (h.down hOwn (List.mem_range.mp hIndex) (by simpa using hUsed))
    · refine List.Pairwise.imp_of_mem ?_ (List.nodup_range (n := 512))
      intro index index' hIndex hIndex' hNe frame hMem hMem'
      obtain ⟨node, hOwn', hUnder⟩ := hBehind index (List.mem_range.mp hIndex) frame hMem
      obtain ⟨node', hOwn'', hUnder'⟩ := hBehind index' (List.mem_range.mp hIndex') frame hMem'
      obtain rfl : node = node' := by simpa [hOwn'] using hOwn''
      exact hNe (hUnder.index_eq hUnder')

/-- Translation depends on the entry of the page only. -/
theorem translate_congr {self other : Paging} (hDepth : self.depth = 4) (hDepth' : other.depth = 4)
    (h : ∀ page < 512 ^ 4, entryAt m' other.rootTable page = entryAt m self.rootTable page)
    (addr : Nat) : other.translate m' addr = self.translate m addr := by
  have hEntry : entryAt m' other.rootTable (addr / PAGE_SIZE) =
      entryAt m self.rootTable (addr / PAGE_SIZE) := by
    rw [← entryAt_mod m', ← entryAt_mod m]
    exact h _ (Nat.mod_lt _ (by decide))
  unfold Paging.translate
  rw [translateInTable_eq, translateInTable_eq, hDepth, hDepth']
  unfold entryAt at hEntry
  rw [hEntry]

namespace Pair

/-- The two trees have no frame in common. -/
structure Apart (s : Pair) (own : Nat → Option Node) : Prop where
  tables : Tables s.machine own
  depth_a : s.a.paging.depth = 4
  depth_b : s.b.paging.depth = 4
  root_a : own s.a.paging.rootTable = some ⟨s.a.paging.rootTable, 4, 0⟩
  root_b : own s.b.paging.rootTable = some ⟨s.b.paging.rootTable, 4, 0⟩
  ne : s.a.paging.rootTable ≠ s.b.paging.rootTable
  held_a : Holds s.machine own s.a.held
  held_b : Holds s.machine own s.b.held
  disjoint : ∀ frame ∈ s.b.held, frame ∉ s.a.held

def swap (s : Pair) : Pair := ⟨s.machine, s.b, s.a⟩

variable {profile : BuildProfile} {s s' : Pair} {own : Nat → Option Node}

section

variable (h : Apart s own)

include h

theorem Apart.swap : Apart s.swap own :=
  ⟨h.tables, h.depth_b, h.depth_a, h.root_b, h.root_a, h.ne.symm, h.held_b, h.held_a,
    fun frame hMem hMem' => h.disjoint frame hMem' hMem⟩

/-- A call on one tree keeps the trees apart and the other tree as it is. -/
theorem Apart.onA (hStep : OnA profile s s') :
    s'.a.paging = s.a.paging ∧ s'.b.paging = s.b.paging ∧ (∃ own', Apart s' own') ∧
      ∀ addr, s.b.paging.translate s'.machine addr = s.b.paging.translate s.machine addr := by
  obtain ⟨hCalled, hB⟩ := hStep
  obtain ⟨hPaging, own', hContained, hHeld⟩ := hCalled.effect h.tables h.depth_a h.root_a h.held_a
  have hOthers : ∀ frame ∈ s.b.held, frame ∉ s'.machine.freeSet ∧ own' frame = none ∧
      frame ∉ s'.a.held := fun frame hMem =>
    hHeld.others frame (h.disjoint frame hMem) (h.held_b frame hMem).1 (h.held_b frame hMem).2.1
  refine ⟨hPaging, by rw [hB], ⟨own', hContained.tables, ?_, ?_, ?_, ?_, ?_, hHeld.holds, ?_, ?_⟩,
    translate_congr h.depth_b h.depth_b fun page hPage =>
      hContained.entryAt_other h.tables h.root_b h.ne.symm hPage⟩
  · rw [hPaging, h.depth_a]
  · rw [hB, h.depth_b]
  · rw [hPaging, hContained.root_own]
  · rw [hB]
    exact (hContained.others h.ne.symm).mpr h.root_b
  · rw [hPaging, hB]
    exact h.ne
  · rw [hB]
    exact fun frame hMem =>
      ⟨(hOthers frame hMem).1, (hOthers frame hMem).2.1, (h.held_b frame hMem).2.2⟩
  · rw [hB]
    exact fun frame hMem => (hOthers frame hMem).2.2

theorem Apart.onB (hStep : OnB profile s s') :
    s'.a.paging = s.a.paging ∧ s'.b.paging = s.b.paging ∧ (∃ own', Apart s' own') ∧
      ∀ addr, s.a.paging.translate s'.machine addr = s.a.paging.translate s.machine addr := by
  obtain ⟨hB, hA, ⟨own', hApart⟩, hTranslate⟩ := @Apart.onA profile s.swap s'.swap own h.swap hStep
  exact ⟨hA, hB, ⟨own', hApart.swap⟩, hTranslate⟩

/-- The trees stay apart and keep their roots in any run. -/
theorem Apart.runs (hRun : Runs profile s s') :
    s'.a.paging = s.a.paging ∧ s'.b.paging = s.b.paging ∧ ∃ own', Apart s' own' := by
  induction hRun with
  | refl => exact ⟨rfl, rfl, own, h⟩
  | tail _ hStep ih =>
    obtain ⟨hA, hB, own', hApart⟩ := ih
    rcases hStep with hStep | hStep
    · obtain ⟨hA', hB', hApart', -⟩ := hApart.onA hStep
      exact ⟨hA'.trans hA, hB'.trans hB, hApart'⟩
    · obtain ⟨hA', hB', hApart', -⟩ := hApart.onB hStep
      exact ⟨hA'.trans hA, hB'.trans hB, hApart'⟩

/-- A run on one tree does not change what the other translates to. -/
theorem Apart.runs_onA (hRun : Relation.ReflTransGen (OnA profile) s s') (addr : Nat)
    : s.b.paging.translate s'.machine addr = s.b.paging.translate s.machine addr := by
  have hBoth : (∃ own', Apart s' own') ∧ s'.b.paging = s.b.paging ∧
      s.b.paging.translate s'.machine addr = s.b.paging.translate s.machine addr := by
    induction hRun with
    | refl => exact ⟨⟨own, h⟩, rfl, rfl⟩
    | tail _ hStep ih =>
      obtain ⟨⟨own', hApart⟩, hB, hTranslate⟩ := ih
      obtain ⟨-, hB', hApart', hTranslate'⟩ := hApart.onA hStep
      rw [hB] at hTranslate'
      exact ⟨hApart', hB'.trans hB, (hTranslate' addr).trans hTranslate⟩
  exact hBoth.2.2

theorem Apart.runs_onB (hRun : Relation.ReflTransGen (OnB profile) s s') (addr : Nat)
    : s.a.paging.translate s'.machine addr = s.a.paging.translate s.machine addr := by
  refine @Apart.runs_onA profile s.swap s'.swap own h.swap ?_ addr
  induction hRun with
  | refl => exact .refl
  | tail _ hStep ih => exact .tail ih hStep

/-- No frame is a table of both trees. -/
theorem Apart.tables_disjoint (frame : Nat) (hMem : frame ∈ s.a.paging.tables s.machine)
    : frame ∉ s.b.paging.tables s.machine := by
  intro hMem'
  unfold Paging.tables at hMem hMem'
  rw [h.depth_a, mem_tablesBelow h.tables 3 h.root_a] at hMem
  rw [h.depth_b, mem_tablesBelow h.tables 3 h.root_b] at hMem'
  obtain ⟨node, hOwn, hUnder⟩ := hMem
  obtain ⟨node', hOwn', hUnder'⟩ := hMem'
  obtain rfl : node = node' := by simpa [hOwn] using hOwn'
  exact h.ne (hUnder.1.symm.trans hUnder'.1)

/-- Dropping a tree gives back its tables, each once, and none of the frames
held for pages. -/
theorem Apart.drop_b : ∃ m', s.b.paging.drop s.machine = .ok m' ∧
    (s.b.paging.tables s.machine).Nodup ∧
    (∀ frame ∈ s.b.paging.tables s.machine, frame ∉ s.machine.freeSet) ∧
    (∀ frame, frame ∈ m'.freeSet ↔
      frame ∈ s.machine.freeSet ∨ frame ∈ s.b.paging.tables s.machine) ∧
    ∀ frame ∈ s.a.held ++ s.b.held, frame ∉ m'.freeSet := by
  have hMem : ∀ frame, frame ∈ s.b.paging.tables s.machine ↔
      frame ∈ subtree own s.b.paging.rootTable 4 0 := by
    intro frame
    unfold Paging.tables
    rw [h.depth_b, mem_tablesBelow h.tables 3 h.root_b]
  have hStart : Dropped s.machine own ∅ s.machine :=
    ⟨h.tables.sound, by simp, fun _ _ _ _ _ => rfl, rfl⟩
  obtain ⟨m', hDrop, hDropped⟩ := (dropTable_spec 3 h.tables hStart h.root_b (by simp)).exists_ok
    trivial
  have hFree : ∀ frame, frame ∈ m'.freeSet ↔
      frame ∈ s.machine.freeSet ∨ frame ∈ s.b.paging.tables s.machine := by
    intro frame
    rw [hDropped.mem_freeSet, Set.empty_union, hMem]
  refine ⟨m', ?_, ?_, ?_, hFree, ?_⟩
  · rw [Paging.drop, h.depth_b, hDrop]
  · unfold Paging.tables
    rw [h.depth_b]
    exact tablesBelow_nodup h.tables 3 h.root_b
  · intro frame hTable
    obtain ⟨node, hOwn, -⟩ := (hMem frame).mp hTable
    exact h.tables.not_free hOwn
  · intro frame hHeld
    have hUse : frame ∉ s.machine.freeSet ∧ own frame = none :=
      (List.mem_append.mp hHeld).elim (fun hIn => ⟨(h.held_a frame hIn).1, (h.held_a frame hIn).2.1⟩)
        (fun hIn => ⟨(h.held_b frame hIn).1, (h.held_b frame hIn).2.1⟩)
    rw [hFree]
    rintro (hIn | hTable)
    · exact hUse.1 hIn
    · obtain ⟨node, hOwn, -⟩ := (hMem frame).mp hTable
      simp [hUse.2] at hOwn

end

end Pair

/-- A tree that was built by calls from an empty one is sound. -/
theorem Calls.tables {profile : BuildProfile} {tree tree' : Tree} (h : Tables m own)
    (hDepth : tree.paging.depth = 4)
    (hRoot : own tree.paging.rootTable = some ⟨tree.paging.rootTable, 4, 0⟩)
    (hHeld : Holds m own tree.held) (hCalls : Calls profile (m, tree) (m', tree')) :
    tree'.paging = tree.paging ∧ ∃ own', Tables m' own' ∧
      own' tree.paging.rootTable = some ⟨tree.paging.rootTable, 4, 0⟩ ∧ Holds m' own' tree'.held := by
  have hRun : ∀ s s' : Machine × Tree, Calls profile s s' → s = (m, tree) →
      s'.2.paging = tree.paging ∧ ∃ own', Tables s'.1 own' ∧
        own' tree.paging.rootTable = some ⟨tree.paging.rootTable, 4, 0⟩ ∧
        Holds s'.1 own' s'.2.held := by
    intro s s' hCalls hStart
    induction hCalls with
    | refl =>
      subst hStart
      exact ⟨rfl, own, h, hRoot, hHeld⟩
    | @tail s₁ s₂ _ hCalled ih =>
      obtain ⟨hPaging, own', hTables, hRoot', hHeld'⟩ := ih
      rw [← hPaging] at hRoot'
      obtain ⟨hPaging', own'', hContained, hEffect⟩ :=
        @Called.effect profile s₁.1 s₂.1 own' s₁.2 hTables (by rw [hPaging, hDepth]) hRoot' hHeld'
          s₂.2 hCalled
      refine ⟨hPaging'.trans hPaging, own'', hContained.tables, ?_, hEffect.holds⟩
      rw [← hPaging]
      exact hContained.root_own
  exact hRun _ _ hCalls rfl

/-- A clone translates like its source and shares no table with it, at once
and after any further calls on the two. Calls on one of them do not change
what the other translates to. At any time the clone can be dropped, which
gives back exactly its tables. -/
theorem clone_independent {profile : BuildProfile} {m₀ m₁ m₂ m₃ : Machine} {a b : Paging}
    {tree : Tree} (hSound : m₀.Sound) (hNew : Paging.new m₀ 4 = .ok (a, m₁))
    (hBuild : Calls profile (m₁, ⟨a, []⟩) (m₂, tree))
    (hClone : Paging.fromOther m₂ a = .ok (b, m₃)) :
    (∀ addr, b.translate m₃ addr = a.translate m₃ addr) ∧
      ∀ s, Pair.Runs profile ⟨m₃, tree, ⟨b, []⟩⟩ s →
        (∀ frame ∈ a.tables s.machine, frame ∉ b.tables s.machine) ∧
        (∀ s', Relation.ReflTransGen (Pair.OnA profile) s s' → ∀ addr,
          b.translate s'.machine addr = b.translate s.machine addr) ∧
        (∀ s', Relation.ReflTransGen (Pair.OnB profile) s s' → ∀ addr,
          a.translate s'.machine addr = a.translate s.machine addr) ∧
        ∃ m', b.drop s.machine = .ok m' ∧ (b.tables s.machine).Nodup ∧
          (∀ frame ∈ b.tables s.machine, frame ∉ s.machine.freeSet) ∧
          (∀ frame, frame ∈ m'.freeSet ↔
            frame ∈ s.machine.freeSet ∨ frame ∈ b.tables s.machine) ∧
          ∀ frame ∈ s.a.held ++ s.b.held, frame ∉ m'.freeSet := by
  obtain ⟨hDepth, -, hTables₁⟩ := (new_spec (Tables.ofSound hSound) 4).of_ok hNew
  obtain ⟨hPaging, own₂, hTables₂, hRoot₂, hHeld₂⟩ :=
    hBuild.tables hTables₁ hDepth (by simp) (by simp [Holds])
  simp only at hPaging hRoot₂ hHeld₂
  obtain ⟨hDepth', own₃, hCloned⟩ := (fromOther_spec hTables₂ hDepth hRoot₂).of_ok hClone
  have hRoot₃ := hCloned.keeps hRoot₂
  have hNe : a.rootTable ≠ b.rootTable :=
    fun hEq => hTables₂.not_free hRoot₂ (hEq ▸ hCloned.root_free)
  have hSame : ∀ page < 512 ^ 4, entryAt m₃ b.rootTable page = entryAt m₃ a.rootTable page := by
    intro page hPage
    rw [hCloned.view page hPage]
    exact ((hCloned.toGrows.contained hCloned.root_own).entryAt_other hTables₂ hRoot₂ hNe hPage).symm
  have hApart : Pair.Apart ⟨m₃, tree, ⟨b, []⟩⟩ own₃ := by
    refine ⟨hCloned.tables, by rw [hPaging, hDepth], hDepth', by rwa [hPaging], hCloned.root_own,
      by rwa [hPaging], ?_, by simp [Holds], by simp⟩
    intro frame hMem
    obtain ⟨hFree, hNone, hZero⟩ := hHeld₂ frame hMem
    refine ⟨fun hFree' => hFree (hCloned.shrinks hFree'), ?_, hZero⟩
    cases hOwn : own₃ frame with
    | none => rfl
    | some node => exact absurd (hCloned.attached hOwn hNone).2 hFree
  refine ⟨translate_congr hDepth hDepth' hSame, ?_⟩
  intro s hRun
  obtain ⟨hA, hB, own', hApart'⟩ := hApart.runs hRun
  simp only [hPaging] at hA hB
  refine ⟨?_, ?_, ?_, ?_⟩
  · rw [← hA, ← hB]
    exact hApart'.tables_disjoint
  · rw [← hB]
    exact fun s' hRun' => hApart'.runs_onA hRun'
  · rw [← hA]
    exact fun s' hRun' => hApart'.runs_onB hRun'
  · rw [← hB]
    exact hApart'.drop_b

/-- A machine with 63 free frames. -/
def smallMachine : Machine := ⟨SparseMap.empty, ⟨[⟨1, 63⟩], some 64⟩⟩

theorem smallMachine_sound : smallMachine.Sound where
  wellFormed := ⟨by simp [smallMachine, Frames.PageFrameNode.stop], List.pairwise_singleton _ _⟩
  zero_not_free := by
    simp [smallMachine, Machine.freeSet, Frames.freeFrames, Spans.covered,
      Frames.PageFrameNode.stop]

/-- One user page is mapped, then the tables are cloned. -/
def cloneRun : Except Panic (Paging × Machine × Machine × Paging × Machine) := do
  let (a, m₁) ← Paging.new smallMachine 4
  let m₂ ← a.map .development m₁ ⟨0x10000000, 0x10000001⟩ .user PageTableFlags.USER_ACCESSIBLE
  let (b, m₃) ← Paging.fromOther m₂ a
  return (a, m₁, m₂, b, m₃)

/-- The clone of tables with one user page translates that page. -/
theorem clone_independent_of_user_page : ∃ a m₁ m₂ tree b m₃,
    Paging.new smallMachine 4 = .ok (a, m₁) ∧
      Calls .development (m₁, ⟨a, []⟩) (m₂, tree) ∧ Paging.fromOther m₂ a = .ok (b, m₃) ∧
      b.translate m₃ USER_SPACE_START = some 0x5000 ∧ ∃ m', b.drop m₃ = .ok m' := by
  have hTranslate : (cloneRun.map fun r => r.1.translate r.2.2.2.2 USER_SPACE_START).toOption =
      some (some 0x5000) := by decide +kernel
  obtain ⟨r, hRun, hTranslate⟩ := exists_ok_of_toOption hTranslate
  obtain ⟨⟨a, m₁⟩, hNew, hRest⟩ := bind_ok hRun
  obtain ⟨m₂, hMap, hRest⟩ := bind_ok hRest
  obtain ⟨⟨b, m₃⟩, hClone, hRest⟩ := bind_ok hRest
  obtain rfl : (a, m₁, m₂, b, m₃) = r := by simpa using hRest
  let call := PagingCall.map ⟨0x10000000, 0x10000001⟩ .user PageTableFlags.USER_ACCESSIBLE
  have hCalls : Calls .development (m₁, ⟨a, []⟩) (m₂, ⟨a, call.heldAfter ⟨a, []⟩ m₁ m₂⟩) :=
    .single ⟨call, ⟨by decide, trivial⟩, hMap, rfl⟩
  obtain ⟨hSame, hAfter⟩ := clone_independent smallMachine_sound hNew hCalls hClone
  obtain ⟨m', hDrop, -⟩ := (hAfter _ .refl).2.2.2
  refine ⟨a, m₁, m₂, _, b, m₃, hNew, hCalls, hClone, ?_, m', hDrop⟩
  rw [hSame]
  exact hTranslate

end D3OS.Memory
