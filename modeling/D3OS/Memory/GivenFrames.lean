import D3OS.Memory.SpaceCalls
import D3OS.Memory.Translation

/-! Frames that are put behind an area by the caller. `map_pfr_for_partial_vma`
hands them down to the walk through the page tables, but at the last level the
walk looks at the memory space first: pages of the kernel are mapped to
themselves, whatever frames came along. -/
namespace D3OS.Memory

open Outcome
open PageTableFlags (PRESENT)

namespace Paging

/-- Page `i` of the range translates to the given frame `i`, and everything
else as before. -/
def UsesGiven (self : Paging) (m : Machine) (frames : Frames.PhysFrameRange) (pages : PageRange)
    (m' : Machine) : Prop :=
  (∀ i < pages.stop - pages.start, ∀ offset < PAGE_SIZE,
    self.translate m' (PAGE_SIZE * (pages.start + i) + offset) =
      some (PAGE_SIZE * (frames.start + i) + offset)) ∧
  SameOutside self m pages m'

end Paging

namespace VirtualAddressSpace

variable {m m' : Machine} {own : Nat → Option Node} {self : VirtualAddressSpace}
  {profile : BuildProfile} {vma : VirtualMemoryArea} {frames : Frames.PhysFrameRange}
  {pages : PageRange} {flags : PageTableFlags}

/-- The first of the frames that the pages are mapped to. -/
def targetFrame (vma : VirtualMemoryArea) (frames : Frames.PhysFrameRange) (pages : PageRange) : Nat :=
  match vma.space with
  | .kernel => pages.start
  | .user => frames.start

/-- What a successful call enters into the page tables, in either space. -/
theorem mapPfrForPartialVma_translate (h : Paging.IsTree m own self.pageTables)
    (hStart : Page.Valid pages.start) (hStop : Page.Valid pages.stop)
    (hRun : self.mapPfrForPartialVma profile m vma frames pages flags = .ok (.ok m')) :
    self.pageTables.UsesGiven m ⟨targetFrame vma frames pages, frames.stop⟩ pages m' := by
  obtain ⟨hSupplies, -, hCount, count, hWalk⟩ := mapPfrForPartialVma_ok hRun
  rw [h.depth_eq] at hWalk
  obtain ⟨hForward, hEnd, own', entries, fresh, hMapped, hLength, hFilling⟩ :=
    (mapInTable_root_spec profile vma.space _ h.tables h.root_own hStart hSupplies).of_ok hWalk
  obtain ⟨hEntries, hOutside⟩ := h.mapped hStart hStop hForward hEnd hLength hMapped
  refine ⟨fun i hi offset hOffset => ?_, hOutside⟩
  have hUsed : vma.checkAndEnforceConsistency flags ||| PRESENT ≠ 0 := by
    intro hZero
    exact absurd (BitVec.or_eq_zero_iff.mp hZero).2 (by decide)
  have hFrom : entries = entriesFrom (targetFrame vma frames pages) entries.length
      (vma.checkAndEnforceConsistency flags ||| PRESENT) := by
    unfold targetFrame
    cases hSpace : vma.space with
    | kernel =>
      rw [hSpace] at hFilling
      exact hFilling.1
    | user =>
      rw [hSpace] at hFilling
      simp only [Filling, show frames.start ≠ frames.stop by omega, if_false] at hFilling
      exact hFilling.1
  have hEntry := hEntries i (by omega)
  rw [Paging.getElem_of_entriesFrom hFrom] at hEntry
  exact h.translate_eq_some hEntry (.inl hUsed) hOffset

theorem UsesGiven.start_eq {paging : Paging} {other : Nat} (hSome : pages.start < pages.stop)
    (h : paging.UsesGiven m frames pages m') (h' : paging.UsesGiven m ⟨other, frames.stop⟩ pages m') :
    other = frames.start := by
  have hFirst := h.1 0 (by omega) 0 (by decide)
  rw [h'.1 0 (by omega) 0 (by decide), Option.some.injEq] at hFirst
  simp only [PAGE_SIZE] at hFirst
  omega

/-- A successful call uses the given frames if and only if the area belongs to
user space, there is nothing to map, or the frames are those the kernel maps
the pages to anyway. A call that is refused has only compared its arguments:
it is refused in every state of the memory. -/
theorem mapPfrForPartialVma_given_iff (h : Paging.IsTree m own self.pageTables)
    (profile : BuildProfile) (vma : VirtualMemoryArea) (frames : Frames.PhysFrameRange)
    (hStart : Page.Valid pages.start) (hStop : Page.Valid pages.stop) (flags : PageTableFlags) :
    (∀ m', self.mapPfrForPartialVma profile m vma frames pages flags = .ok (.ok m') →
      (self.pageTables.UsesGiven m frames pages m' ↔
        vma.space = .user ∨ pages.start = pages.stop ∨ frames.start = pages.start)) ∧
    ∀ code, self.mapPfrForPartialVma profile m vma frames pages flags = .ok (.error code) →
      ∀ other, self.mapPfrForPartialVma profile other vma frames pages flags = .ok (.error code) := by
  constructor
  · intro m' hRun
    have hTarget := mapPfrForPartialVma_translate h hStart hStop hRun
    have hForward := (mapPfrForPartialVma_ok hRun).2.1
    constructor
    · intro hGiven
      cases hSpace : vma.space with
      | user => exact Or.inl rfl
      | kernel =>
        rcases hForward.lt_or_eq with hSome | hNone
        · have hEq := UsesGiven.start_eq hSome hGiven hTarget
          simp only [targetFrame, hSpace] at hEq
          exact Or.inr (Or.inr hEq.symm)
        · exact Or.inr (Or.inl hNone)
    · intro hCondition
      refine ⟨fun i hi => ?_, hTarget.2⟩
      have hFrame : targetFrame vma frames pages = frames.start := by
        unfold targetFrame
        rcases hCondition with hUser | hNone | hSame
        · rw [hUser]
        · omega
        · cases vma.space with
          | kernel => exact hSame.symm
          | user => rfl
      have hPage := hTarget.1 i hi
      rwa [hFrame] at hPage
  · intro code hRun other
    unfold mapPfrForPartialVma at hRun ⊢
    obtain ⟨numFrames, hFrames, hRun⟩ := bind_ok hRun
    obtain ⟨numPages, hPages, hRun⟩ := bind_ok hRun
    rw [hFrames, hPages, bind_of_ok, bind_of_ok]
    by_cases hCount : numFrames ≠ numPages
    · rw [if_pos hCount] at hRun ⊢
      exact hRun
    · rw [if_neg hCount] at hRun ⊢
      by_cases hOutside : pages.start < vma.range.start ∨ pages.stop > vma.range.stop
      · rw [if_pos hOutside] at hRun ⊢
        exact hRun
      · rw [if_neg hOutside] at hRun
        obtain ⟨m', -, hRun⟩ := bind_ok hRun
        cases hRun

/-- An area of one page. -/
def pageArea (space : MemorySpace) : VirtualMemoryArea :=
  .newWithTag space ⟨512, 513⟩ .deviceMemory []

/-- New page tables, and frame 5 mapped for the page of the area. -/
def mapFrameFive (space : MemorySpace) : Except Panic (Paging × Machine × Machine) :=
  Paging.andThen (Paging.new smallMachine 4) fun paging m => do
    let mapped ← (onTables paging).mapPfrForPartialVma .development m (pageArea space) ⟨5, 6⟩
      ⟨512, 513⟩ PRESENT
    expectOk mapped

theorem mapFrameFive_ok {space : MemorySpace} {target : Option Nat}
    (h : ((mapFrameFive space).map fun r => r.1.translate r.2.2 (PAGE_SIZE * 512)).toOption =
      some target) :
    ∃ paging m own m', Paging.IsTree m own paging ∧
      (onTables paging).mapPfrForPartialVma .development m (pageArea space) ⟨5, 6⟩ ⟨512, 513⟩
        PRESENT = .ok (.ok m') ∧ paging.translate m' (PAGE_SIZE * 512) = target := by
  obtain ⟨paging, m, m', hNew, hCall, hTranslate⟩ := Paging.andThen_ok h
  obtain ⟨own, hTree⟩ := Paging.new_tree hNew
  obtain ⟨mapped, hRun, hExpect⟩ := bind_ok hCall
  obtain rfl := expectOk_ok hExpect
  exact ⟨paging, m, own, m', hTree, hRun, hTranslate⟩

/-- In user space the page translates to the frame it was given. -/
theorem mapFrameFive_user : ∃ paging m m',
    (onTables paging).mapPfrForPartialVma .development m (pageArea .user) ⟨5, 6⟩ ⟨512, 513⟩
      PRESENT = .ok (.ok m') ∧ paging.UsesGiven m ⟨5, 6⟩ ⟨512, 513⟩ m' := by
  have hRun : ((mapFrameFive .user).map fun r => r.1.translate r.2.2 (PAGE_SIZE * 512)).toOption =
      some (some 0x5000) := by decide +kernel
  obtain ⟨paging, m, own, m', hTree, hRun, -⟩ := mapFrameFive_ok hRun
  refine ⟨paging, m, m', hRun, ?_⟩
  exact ((mapPfrForPartialVma_given_iff hTree .development (pageArea .user) ⟨5, 6⟩
    (by decide) (by decide) PRESENT).1 m' hRun).mpr (Or.inl rfl)

/-- In kernel space the call succeeds as well, but the page translates to
itself. -/
theorem mapFrameFive_kernel : ∃ paging m own m', Paging.IsTree m own paging ∧
    (onTables paging).mapPfrForPartialVma .development m (pageArea .kernel) ⟨5, 6⟩ ⟨512, 513⟩
      PRESENT = .ok (.ok m') ∧
    paging.translate m' (PAGE_SIZE * 512) = some (PAGE_SIZE * 512) ∧
    ¬paging.UsesGiven m ⟨5, 6⟩ ⟨512, 513⟩ m' := by
  have hRun : ((mapFrameFive .kernel).map fun r =>
      r.1.translate r.2.2 (PAGE_SIZE * 512)).toOption = some (some (PAGE_SIZE * 512)) := by
    decide +kernel
  obtain ⟨paging, m, own, m', hTree, hRun, hTranslate⟩ := mapFrameFive_ok hRun
  refine ⟨paging, m, own, m', hTree, hRun, hTranslate, fun hGiven => ?_⟩
  have hFive : paging.translate m' (PAGE_SIZE * 512) = some (PAGE_SIZE * 5) :=
    hGiven.1 0 (by decide) 0 (by decide)
  rw [hTranslate] at hFive
  exact absurd hFive (by decide)

end VirtualAddressSpace

end D3OS.Memory
