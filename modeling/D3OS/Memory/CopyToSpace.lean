import D3OS.Memory.Bytes
import D3OS.Memory.Translation

/-! Copies into an address space that is not loaded. `copy_to_addr_space` looks
up the frame behind each page and writes to it through the identity mapping. It
keeps the address of the last frame and a running offset into the whole copy;
the fill behind the last byte adds the two, and lands where it should only as
long as the copy has a single page. -/
namespace D3OS.Memory

open Outcome

/-- The variables of the loop of `copy_to_addr_space`. -/
structure CopyState where
  machine : Machine
  bytesToCopy : Nat
  offset : Nat
  dest : Nat

/-- One round of the loop. The bytes behind `src_ptr` do not change. -/
def copyPage (profile : BuildProfile) (source : Nat → UInt8) (destSpace : VirtualAddressSpace)
    (destPageStart totalBytesToCopy : Nat) (state : CopyState) : Except Panic CopyState := do
  let addr ← profile.word (Page.startAddress destPageStart + state.offset)
  let destPhysAddr ← destSpace.getPhys state.machine addr
  let dest ← expectSome destPhysAddr
  let bytesToCopy :=
    if totalBytesToCopy - state.offset < PAGE_SIZE then totalBytesToCopy - state.offset
    else PAGE_SIZE
  let bytes := (List.range' state.offset bytesToCopy).map source
  return ⟨state.machine.writeBytes dest bytes, bytesToCopy, state.offset + bytesToCopy, dest⟩

def copyPages (profile : BuildProfile) (source : Nat → UInt8) (destSpace : VirtualAddressSpace)
    (destPageStart totalBytesToCopy : Nat) : Nat → CopyState → Except Panic CopyState
  | 0, state => .ok state
  | pages + 1, state => do
    let state ← copyPage profile source destSpace destPageStart totalBytesToCopy state
    copyPages profile source destSpace destPageStart totalBytesToCopy pages state

/-- The number of pages that the copy touches. -/
def pagesToCopy (totalBytesToCopy : Nat) : Nat :=
  if totalBytesToCopy % PAGE_SIZE = 0 then totalBytesToCopy / PAGE_SIZE
  else totalBytesToCopy / PAGE_SIZE + 1

def copyToAddrSpace (profile : BuildProfile) (m : Machine) (source : Nat → UInt8)
    (destSpace : VirtualAddressSpace) (destPageStart totalBytesToCopy : Nat)
    (fillUpWithZeroes : Bool) : Except Panic Machine := do
  let destPhysAddr ← destSpace.getPhys m (Page.startAddress destPageStart)
  let dest ← expectSome destPhysAddr
  let state ← copyPages profile source destSpace destPageStart totalBytesToCopy
    (pagesToCopy totalBytesToCopy) ⟨m, 0, 0, dest⟩
  let restBytesToCopy := PAGE_SIZE - state.bytesToCopy
  if fillUpWithZeroes ∧ restBytesToCopy > 0 then
    return state.machine.writeBytes (state.dest + state.offset) (List.replicate restBytesToCopy 0)
  else return state.machine

/-! ### What an exact copy is -/

/-- The pages from `first` on are mapped to distinct frames, none of which is a
page table. -/
structure Backed (m : Machine) (own : Nat → Option Node) (paging : Paging) (first count : Nat)
    (frames : Nat → Nat) : Prop where
  valid : ∀ i < count, Page.Valid (first + i)
  translate : ∀ i < count,
    paging.translate m (PAGE_SIZE * (first + i)) = some (PAGE_SIZE * frames i)
  distinct : ∀ i < count, ∀ j < count, frames i = frames j → i = j
  data : ∀ i < count, own (frames i) = none

/-- The physical address of byte `k` behind the first page. -/
def target (frames : Nat → Nat) (k : Nat) : Nat := PAGE_SIZE * frames (k / PAGE_SIZE) + k % PAGE_SIZE

/-- The bytes of the source are in the destination, followed by zeroes up to
the end of the last page, and nothing else has changed. -/
structure CopiedExactly (m : Machine) (frames : Nat → Nat) (source : Nat → UInt8) (total : Nat)
    (m' : Machine) : Prop where
  copied : ∀ k < total, m'.readByte (target frames k) = source k
  filled : ∀ k, total ≤ k → k < PAGE_SIZE * pagesToCopy total → m'.readByte (target frames k) = 0
  others : ∀ addr, (∀ k < PAGE_SIZE * pagesToCopy total, addr ≠ target frames k) →
    m'.readByte addr = m.readByte addr

/-- The bytes that the fill hits when the copy has more than one page. -/
def Misplaced (frames : Nat → Nat) (total addr : Nat) : Prop :=
  PAGE_SIZE * frames (pagesToCopy total - 1) + total ≤ addr ∧
    addr < PAGE_SIZE * frames (pagesToCopy total - 1) + PAGE_SIZE * pagesToCopy total

instance (frames : Nat → Nat) (total addr : Nat) : Decidable (Misplaced frames total addr) :=
  inferInstanceAs (Decidable (_ ∧ _))

/-- The copies that are filled up correctly. There is nothing to fill, or only
one page, or the rest of the last page is zero already and the fill hits only
bytes that are zero in the end anyway. -/
def FillsRight (m : Machine) (frames : Nat → Nat) (source : Nat → UInt8) (total : Nat) : Prop :=
  total % PAGE_SIZE = 0 ∨ total < PAGE_SIZE ∨
    (∀ k, total ≤ k → k < PAGE_SIZE * pagesToCopy total → m.readByte (target frames k) = 0) ∧
    (∀ k < total, Misplaced frames total (target frames k) → source k = 0) ∧
    ∀ addr, Misplaced frames total addr → (∀ k < total, addr ≠ target frames k) →
      m.readByte addr = 0

/-! ### The loop -/

theorem pagesToCopy_bounds {total : Nat} (hTotal : 0 < total) :
    PAGE_SIZE * (pagesToCopy total - 1) < total ∧ total ≤ PAGE_SIZE * pagesToCopy total ∧
      0 < pagesToCopy total := by
  unfold pagesToCopy PAGE_SIZE
  split <;> omega

variable {i : Nat} {m m' : Machine} {own : Nat → Option Node} {paging : Paging}

/-- A page is within the copy if its first byte is. -/
theorem mul_lt_of_lt_pagesToCopy {total : Nat} (hTotal : 0 < total) (hi : i < pagesToCopy total) :
    PAGE_SIZE * i < total := by
  have hBounds := pagesToCopy_bounds hTotal
  unfold PAGE_SIZE at hBounds ⊢
  omega

/-- Writes to frames without a page table leave the tree as it is. -/
theorem Paging.IsTree.of_read_eq (h : paging.IsTree m own) (hFrames : m'.frames = m.frames)
    (hRead : ∀ table node, own table = some node → ∀ index,
      m'.read table index = m.read table index) : paging.IsTree m' own := by
  have hFree : m'.freeSet = m.freeSet := by rw [Machine.freeSet, Machine.freeSet, hFrames]
  have hSound : m'.Sound := by
    refine ⟨by rw [hFrames]; exact h.tables.sound.wellFormed, ?_⟩
    rw [hFree]
    exact h.tables.sound.zero_not_free
  refine ⟨h.tables.congr hSound (fun table node hOwn => ?_)
    (fun table node hOwn _ => hRead table node hOwn), h.depth_eq, h.root_own⟩
  rw [hFree]
  exact h.tables.not_free hOwn

theorem Paging.IsTree.translate_of_read_eq (h : paging.IsTree m own)
    (hFrames : m'.frames = m.frames) (hRead : ∀ table node, own table = some node → ∀ index,
      m'.read table index = m.read table index) (addr : Nat) :
    paging.translate m' addr = paging.translate m addr := by
  have hTables := (h.of_read_eq hFrames hRead).tables
  refine h.translate_congr_page (h.tables.entryAt_congr hTables h.root_own h.root_own
    (Nat.mod_lt _ (by decide)) (fun leaf hLeaf => ⟨hLeaf, hRead _ _ hLeaf _⟩) fun leaf hLeaf => ?_)
  exact Or.inl hLeaf

/-- The bytes of a page lie one after the other in its frame. -/
theorem Paging.IsTree.translate_add {m : Machine} {own : Nat → Option Node} {paging : Paging}
    (h : paging.IsTree m own) {page frame offset : Nat}
    (hPage : paging.translate m (PAGE_SIZE * page) = some (PAGE_SIZE * frame))
    (hOffset : offset < PAGE_SIZE) :
    paging.translate m (PAGE_SIZE * page + offset) = some (PAGE_SIZE * frame + offset) := by
  have hDiv : (PAGE_SIZE * page + offset) / PAGE_SIZE = page := by
    unfold PAGE_SIZE at hOffset ⊢
    omega
  have hMod : (PAGE_SIZE * page + offset) % PAGE_SIZE = offset := by
    unfold PAGE_SIZE at hOffset ⊢
    omega
  rw [h.translate_eq, Nat.mul_div_cancel_left _ (by decide), Nat.mul_mod_right] at hPage
  rw [h.translate_eq, hDiv, hMod]
  obtain ⟨hUsed, hPage⟩ := Option.ite_none_left_eq_some.mp hPage
  rw [if_neg hUsed, ← Option.some.inj hPage, Nat.add_zero]

/-- The pages that `map` gives to a process have such frames behind them. -/
theorem Paging.IsTree.map_backed (h : paging.IsTree m own) {profile : BuildProfile}
    {pages : PageRange} {flags : PageTableFlags} (hStart : Page.Valid pages.start)
    (hStop : Page.Valid pages.stop) (hRun : paging.map profile m pages .user flags = .ok m') :
    ∃ own' frames, paging.IsTree m' own' ∧
      Backed m' own' paging pages.start (pages.stop - pages.start) frames := by
  obtain ⟨count, hWalk⟩ := map_ok h.depth_eq hRun
  obtain ⟨hForward, hEnd, own', entries, fresh, hMapped, hLength, hFilling⟩ :=
    (mapInTable_root_spec profile .user flags h.tables h.root_own hStart (.inl rfl)).of_ok hWalk
  obtain ⟨hEntries, -⟩ := h.mapped hStart hStop hForward hEnd hLength hMapped
  have hTree : paging.IsTree m' own' := ⟨hMapped.tables, h.depth_eq, hMapped.keeps h.root_own⟩
  simp only [Filling, if_true] at hFilling
  have hFresh : fresh.length = pages.stop - pages.start := by
    rw [← hLength, hFilling, List.length_map]
  have hAt : ∀ i (hi : i < fresh.length), fresh.getD i 0 = fresh[i] := fun i hi => by
    rw [List.getD_eq_getElem?_getD, List.getElem?_eq_getElem hi]
    rfl
  refine ⟨own', fun i => fresh.getD i 0, hTree, fun i hi => ?_, fun i hi => ?_,
    fun i hi j hj hEq => ?_, fun i hi => ?_⟩
  · simp only [Page.Valid, Canonical, Page.startAddress, PAGE_SIZE] at hStart hStop ⊢
    omega
  · have hFrame := hMapped.fresh_taken _ (List.getElem_mem (hFresh ▸ hi))
    have hEntry : entryAt m' paging.rootTable (pages.start + i) =
        ⟨fresh.get ⟨i, hFresh ▸ hi⟩, flags⟩ := by grind
    have hUsed : fresh.get ⟨i, hFresh ▸ hi⟩ ≠ 0 := fun hZero =>
      h.tables.sound.zero_not_free (hZero ▸ hFrame.1)
    have hTranslate := h.translate_eq_some hEntry (.inr hUsed) (show 0 < PAGE_SIZE by decide)
    rw [hAt i (hFresh ▸ hi)]
    exact hTranslate
  · rw [hAt i (hFresh ▸ hi), hAt j (hFresh ▸ hj)] at hEq
    exact (List.Nodup.getElem_inj_iff hMapped.fresh_nodup).mp hEq
  · rw [hAt i (hFresh ▸ hi)]
    exact (hMapped.fresh_taken _ (List.getElem_mem (hFresh ▸ hi))).2.2

/-- The state after `i` rounds. -/
structure CopiedPages (m : Machine) (frames : Nat → Nat) (source : Nat → UInt8) (total i : Nat)
    (state : CopyState) : Prop where
  offset_eq : state.offset = min (PAGE_SIZE * i) total
  inside : ∀ k < state.offset, state.machine.readByte (target frames k) = source k
  outside : ∀ addr, (∀ k < state.offset, addr ≠ target frames k) →
    state.machine.readByte addr = m.readByte addr
  frames_eq : state.machine.frames = m.frames
  read_eq : ∀ frame, (∀ j < pagesToCopy total, frame ≠ frames j) → ∀ index,
    state.machine.read frame index = m.read frame index
  last : 0 < i → state.dest = PAGE_SIZE * frames (i - 1) ∧
    state.bytesToCopy = state.offset - PAGE_SIZE * (i - 1)

section Copy

variable {m : Machine} {own : Nat → Option Node} {destSpace : VirtualAddressSpace}
  {frames : Nat → Nat} {source : Nat → UInt8} {profile : BuildProfile} {first total : Nat}

variable {k : Nat}

theorem target_inj (hBacked : Backed m own destSpace.pageTables first (pagesToCopy total) frames)
    {l : Nat} (hk : k < PAGE_SIZE * pagesToCopy total) (hl : l < PAGE_SIZE * pagesToCopy total)
    (h : target frames k = target frames l) : k = l := by
  have hFrames : frames (k / PAGE_SIZE) = frames (l / PAGE_SIZE) ∧ k % PAGE_SIZE = l % PAGE_SIZE := by
    unfold target PAGE_SIZE at h
    unfold PAGE_SIZE
    omega
  have hPage := hBacked.distinct _ (Nat.div_lt_of_lt_mul hk) _ (Nat.div_lt_of_lt_mul hl) hFrames.1
  rw [← Nat.div_add_mod k PAGE_SIZE, ← Nat.div_add_mod l PAGE_SIZE, hPage, hFrames.2]

theorem getPhys_backed (hTree : destSpace.pageTables.IsTree m own)
    (hBacked : Backed m own destSpace.pageTables first (pagesToCopy total) frames)
    {state : CopyState} (h : CopiedPages m frames source total i state) {j : Nat}
    (hj : j < pagesToCopy total) :
    destSpace.getPhys state.machine (PAGE_SIZE * (first + j)) = .ok (some (PAGE_SIZE * frames j)) := by
  have hSame := hTree.translate_of_read_eq h.frames_eq
    (fun table node hOwn => h.read_eq table fun j hj hEq => by
      rw [hEq, hBacked.data j hj] at hOwn
      cases hOwn) (PAGE_SIZE * (first + j))
  have hNew : VirtAddr.new (PAGE_SIZE * (first + j)) = .ok (PAGE_SIZE * (first + j)) :=
    if_pos (hBacked.valid j hj)
  unfold VirtualAddressSpace.getPhys
  rw [hNew, bind_of_ok, hSame, hBacked.translate j hj]
  rfl

/-- The bytes of page `i` are the ones behind the first `PAGE_SIZE * i`. -/
theorem target_add (frames : Nat → Nat) (hk : k < PAGE_SIZE) :
    target frames (PAGE_SIZE * i + k) = PAGE_SIZE * frames i + k := by
  have hDiv : (PAGE_SIZE * i + k) / PAGE_SIZE = i := by
    unfold PAGE_SIZE at hk ⊢
    omega
  have hMod : (PAGE_SIZE * i + k) % PAGE_SIZE = k := by
    unfold PAGE_SIZE at hk ⊢
    omega
  rw [target, hDiv, hMod]

section

variable (hTree : destSpace.pageTables.IsTree m own) (hTotal : 0 < total)
  (hBacked : Backed m own destSpace.pageTables first (pagesToCopy total) frames)

include hTree hTotal hBacked

/-- One round copies one more page. -/
theorem CopiedPages.step {i : Nat} {state : CopyState}
    (h : CopiedPages m frames source total i state) (hi : i < pagesToCopy total) :
    ∃ state', copyPage profile source destSpace first total state = .ok state' ∧
      CopiedPages m frames source total (i + 1) state' := by
  have hFirst := mul_lt_of_lt_pagesToCopy hTotal hi
  have hOffset : state.offset = PAGE_SIZE * i := by
    rw [h.offset_eq]
    omega
  have hAddr : Page.startAddress first + state.offset = PAGE_SIZE * (first + i) := by
    rw [hOffset, Page.startAddress, Nat.mul_add]
  have hWord : profile.word (PAGE_SIZE * (first + i)) = .ok (PAGE_SIZE * (first + i)) := by
    have hValid := hBacked.valid i hi
    unfold Page.Valid Canonical Page.startAddress at hValid
    exact profile.word_of_lt (by omega)
  obtain ⟨count, hCount⟩ : ∃ count, (if total - state.offset < PAGE_SIZE then total - state.offset
      else PAGE_SIZE) = count := ⟨_, rfl⟩
  have hNext : state.offset + count = min (PAGE_SIZE * (i + 1)) total ∧ count ≤ PAGE_SIZE := by
    grind
  have hRun : copyPage profile source destSpace first total state =
      .ok ⟨state.machine.writeBytes (PAGE_SIZE * frames i)
        ((List.range' state.offset count).map source), count, state.offset + count,
        PAGE_SIZE * frames i⟩ := by
    unfold copyPage
    rw [hAddr, hWord, bind_of_ok, getPhys_backed hTree hBacked h hi, bind_of_ok,
      expectSome, bind_of_ok, hCount]
    rfl
  have hLength : ((List.range' state.offset count).map source).length = count := by simp
  refine ⟨_, hRun, hNext.1, fun k hk => ?_, fun addr hAddr => ?_, ?_, fun frame hFrame index => ?_,
    fun _ => ⟨rfl, ?_⟩⟩
  · simp only at hk ⊢
    by_cases hOld : k < state.offset
    · -- The new page does not overwrite an earlier one.
      rw [Machine.readByte_writeBytes_outside, h.inside k hOld]
      by_contra hIn
      rw [not_or, not_lt, not_le, hLength] at hIn
      obtain ⟨distance, hDistance⟩ := Nat.exists_eq_add_of_le hIn.1
      have hSmall : distance < PAGE_SIZE := by omega
      have hBounds := pagesToCopy_bounds hTotal
      have hWithin : PAGE_SIZE * i + distance < PAGE_SIZE * pagesToCopy total := by omega
      rw [← target_add frames hSmall] at hDistance
      have hEq := target_inj hBacked (by omega) hWithin hDistance
      omega
    · obtain ⟨distance, rfl⟩ := Nat.exists_eq_add_of_le (not_lt.mp hOld)
      rw [hOffset, target_add frames (by omega), ← hOffset,
        Machine.readByte_writeBytes_inside (by rw [hLength]; omega)]
      simp
  · simp only at hAddr ⊢
    rw [Machine.readByte_writeBytes_outside, h.outside addr fun k hk => hAddr k (by omega)]
    by_contra hIn
    rw [not_or, not_lt, not_le, hLength] at hIn
    obtain ⟨distance, rfl⟩ := Nat.exists_eq_add_of_le hIn.1
    refine hAddr (state.offset + distance) (by omega) ?_
    rw [hOffset, target_add frames (by omega)]
  · simp only [Machine.frames_writeBytes]
    exact h.frames_eq
  · simp only
    rw [Machine.read_writeBytes_other, h.read_eq frame hFrame index]
    have hNe := hFrame i hi
    rw [hLength]
    unfold PAGE_SIZE at hNext ⊢
    omega
  · simp only [Nat.add_sub_cancel]
    omega

/-- The whole loop. -/
theorem CopiedPages.run {i pages : Nat} {state : CopyState}
    (h : CopiedPages m frames source total i state) (hPages : i + pages = pagesToCopy total) :
    ∃ state', copyPages profile source destSpace first total pages state = .ok state' ∧
      CopiedPages m frames source total (pagesToCopy total) state' := by
  induction pages generalizing i state with
  | zero => exact ⟨state, rfl, by rwa [← hPages]⟩
  | succ pages ih =>
    obtain ⟨middle, hStep, hMiddle⟩ :=
      @CopiedPages.step _ _ _ _ _ profile _ _ hTree hTotal hBacked _ _ h (by omega)
    obtain ⟨state', hRest, hFinal⟩ := ih hMiddle (by omega)
    refine ⟨state', ?_, hFinal⟩
    rw [copyPages, hStep, bind_of_ok, hRest]

/-- What the call does with the fill, in terms of the loop. -/
theorem copyToAddrSpace_ok :
    ∃ state, CopiedPages m frames source total (pagesToCopy total) state ∧ state.offset = total ∧
      copyToAddrSpace profile m source destSpace first total true =
        .ok (state.machine.writeBytes (PAGE_SIZE * frames (pagesToCopy total - 1) + total)
          (List.replicate (PAGE_SIZE * pagesToCopy total - total) 0)) := by
  obtain ⟨hLast, hEnd, hSome⟩ := pagesToCopy_bounds hTotal
  have hStart : CopiedPages m frames source total 0 ⟨m, 0, 0, PAGE_SIZE * frames 0⟩ := by
    refine ⟨by simp, ?_, fun _ _ => rfl, rfl, fun _ _ _ => rfl, ?_⟩ <;> simp
  have hPhys := getPhys_backed hTree hBacked hStart hSome
  obtain ⟨state, hRun, hState⟩ :=
    @CopiedPages.run _ _ _ _ _ profile _ _ hTree hTotal hBacked _ _ _ hStart (Nat.zero_add _)
  have hOffset : state.offset = total := by
    rw [hState.offset_eq]
    omega
  obtain ⟨hDest, hBytes⟩ := hState.last hSome
  have hRest : PAGE_SIZE - state.bytesToCopy = PAGE_SIZE * pagesToCopy total - total := by
    have hSucc : PAGE_SIZE * pagesToCopy total = PAGE_SIZE * (pagesToCopy total - 1) + PAGE_SIZE := by
      rw [← Nat.mul_succ, Nat.succ_eq_add_one, Nat.sub_add_cancel hSome]
    omega
  refine ⟨state, hState, hOffset, ?_⟩
  unfold copyToAddrSpace
  rw [Page.startAddress, show PAGE_SIZE * first = PAGE_SIZE * (first + 0) from rfl, hPhys,
    bind_of_ok, expectSome, bind_of_ok, hRun, bind_of_ok]
  simp only [hRest, hDest, hOffset, true_and]
  by_cases hNone : PAGE_SIZE * pagesToCopy total - total > 0
  · rw [if_pos hNone]
    rfl
  · rw [if_neg hNone, Nat.eq_zero_of_not_pos hNone]
    rfl

end

/-- A byte behind the copy in its last page. -/
theorem target_of_le (hTotal : 0 < total) (hk : total ≤ k)
    (hEnd : k < PAGE_SIZE * pagesToCopy total) :
    target frames k = PAGE_SIZE * frames (pagesToCopy total - 1) + k % PAGE_SIZE := by
  have hBounds := pagesToCopy_bounds hTotal
  have hPage : k / PAGE_SIZE = pagesToCopy total - 1 := by
    unfold PAGE_SIZE at hBounds hEnd ⊢
    omega
  rw [target, hPage]

/-- With a single page the fill continues the copy. -/
theorem misplaced_iff_of_one (frames : Nat → Nat) (hPages : pagesToCopy total = 1) (addr : Nat) :
    Misplaced frames total addr ↔ ∃ k, total ≤ k ∧ k < PAGE_SIZE ∧ addr = target frames k := by
  have hTarget : ∀ k < PAGE_SIZE, target frames k = PAGE_SIZE * frames 0 + k := by
    intro k hk
    rw [target, Nat.div_eq_of_lt hk, Nat.mod_eq_of_lt hk]
  rw [Misplaced, hPages, Nat.sub_self, Nat.mul_one]
  constructor
  · intro hAddr
    obtain ⟨k, rfl⟩ := Nat.exists_eq_add_of_le (show PAGE_SIZE * frames 0 ≤ addr by omega)
    exact ⟨k, by omega, by omega, (hTarget k (by omega)).symm⟩
  · rintro ⟨k, hk, hEnd, rfl⟩
    rw [hTarget k hEnd]
    omega

/-- The fill is exact if it hits the bytes it is meant for, and for the rest
makes no difference. -/
theorem copiedExactly_iff (hTotal : 0 < total)
    (hBacked : Backed m own destSpace.pageTables first (pagesToCopy total) frames)
    {state : CopyState} (h : CopiedPages m frames source total (pagesToCopy total) state)
    (hOffset : state.offset = total) (hByte : ∀ addr, m'.readByte addr =
      if Misplaced frames total addr then 0 else state.machine.readByte addr) :
    CopiedExactly m frames source total m' ↔
      (∀ k, total ≤ k → k < PAGE_SIZE * pagesToCopy total →
        ¬Misplaced frames total (target frames k) → m.readByte (target frames k) = 0) ∧
      (∀ k < total, Misplaced frames total (target frames k) → source k = 0) ∧
      ∀ addr, Misplaced frames total addr →
        (∀ k < PAGE_SIZE * pagesToCopy total, addr ≠ target frames k) → m.readByte addr = 0 := by
  have hBounds := pagesToCopy_bounds hTotal
  have hBehind : ∀ k, total ≤ k → k < PAGE_SIZE * pagesToCopy total →
      state.machine.readByte (target frames k) = m.readByte (target frames k) := by
    intro k hk hEnd
    refine h.outside _ fun l hl hEq => ?_
    have hSame := target_inj hBacked hEnd (by omega) hEq
    omega
  constructor
  · intro hCopied
    refine ⟨fun k hk hEnd hMisplaced => ?_, fun k hk hMisplaced => ?_, fun addr hMisplaced hAddr => ?_⟩
    · rw [← hBehind k hk hEnd, ← hCopied.filled k hk hEnd, hByte, if_neg hMisplaced]
    · rw [← hCopied.copied k hk, hByte, if_pos hMisplaced]
    · rw [← hCopied.others addr hAddr, hByte, if_pos hMisplaced]
  · rintro ⟨hRest, hSource, hOthers⟩
    refine ⟨fun k hk => ?_, fun k hk hEnd => ?_, fun addr hAddr => ?_⟩
    · rw [hByte]
      split
      case isTrue hMisplaced => exact (hSource k hk hMisplaced).symm
      case isFalse => exact h.inside k (by omega)
    · grind
    · rw [hByte]
      split
      case isTrue hMisplaced => exact (hOthers addr hMisplaced hAddr).symm
      case isFalse => exact h.outside addr fun k hk => hAddr k (by omega)

/-- For every length and every destination whose pages are mapped to distinct
frames, the copy with a fill is exact if and only if `FillsRight`. -/
theorem copyToAddrSpace_exact_iff (hTree : destSpace.pageTables.IsTree m own) (hTotal : 0 < total)
    (hBacked : Backed m own destSpace.pageTables first (pagesToCopy total) frames)
    (profile : BuildProfile) (source : Nat → UInt8) :
    (∃ m', copyToAddrSpace profile m source destSpace first total true = .ok m' ∧
      CopiedExactly m frames source total m') ↔ FillsRight m frames source total := by
  obtain ⟨state, hState, hOffset, hRun⟩ :=
    @copyToAddrSpace_ok _ _ _ _ source profile _ _ hTree hTotal hBacked
  have hBounds := pagesToCopy_bounds hTotal
  have hByte := (state.machine.readByte_fill (PAGE_SIZE * frames (pagesToCopy total - 1) + total)
    (PAGE_SIZE * pagesToCopy total - total))
  rw [Nat.add_assoc, Nat.add_sub_of_le hBounds.2.1] at hByte
  have hExact := copiedExactly_iff hTotal hBacked hState hOffset hByte
  have hMisplaced : ∀ addr, Misplaced frames total addr ↔
      PAGE_SIZE * frames (pagesToCopy total - 1) + total ≤ addr ∧
        addr < PAGE_SIZE * frames (pagesToCopy total - 1) + PAGE_SIZE * pagesToCopy total :=
    fun _ => Iff.rfl
  rw [hRun]
  simp only [Except.ok.injEq, exists_eq_left', hExact]
  by_cases hFull : total % PAGE_SIZE = 0
  · have hEnd : PAGE_SIZE * pagesToCopy total = total := by
      rw [pagesToCopy, if_pos hFull]
      exact Nat.mul_div_cancel' (Nat.dvd_of_mod_eq_zero hFull)
    have hNone : ∀ addr, ¬Misplaced frames total addr := by
      intro addr
      rw [hMisplaced]
      omega
    exact iff_of_true ⟨fun k hk hk' => by omega, fun k _ h => absurd h (hNone _),
      fun addr h => absurd h (hNone _)⟩ (Or.inl hFull)
  by_cases hOne : total < PAGE_SIZE
  · have hPages : pagesToCopy total = 1 := by rw [pagesToCopy, if_neg hFull, Nat.div_eq_of_lt hOne]
    have hPlaced := fun addr => misplaced_iff_of_one frames hPages addr
    rw [hPages, Nat.mul_one]
    refine iff_of_true ⟨fun k hk hEnd hNot => ?_, fun k hk hHit => ?_, fun addr hHit hAddr => ?_⟩
      (Or.inr (Or.inl hOne))
    · exact absurd ((hPlaced _).mpr ⟨k, hk, hEnd, rfl⟩) hNot
    · obtain ⟨l, hl, hLt, hEq⟩ := (hPlaced _).mp hHit
      have hSame := target_inj hBacked (by rw [hPages]; omega) (by rw [hPages]; omega) hEq
      omega
    · obtain ⟨k, hk, hLt, rfl⟩ := (hPlaced _).mp hHit
      exact absurd rfl (hAddr k hLt)
  · have hApart : ∀ k, total ≤ k → k < PAGE_SIZE * pagesToCopy total →
        ¬Misplaced frames total (target frames k) := by
      intro k hk hEnd
      have hMod := Nat.mod_lt k (show PAGE_SIZE > 0 by decide)
      rw [hMisplaced, target_of_le hTotal hk hEnd]
      omega
    simp only [FillsRight, hFull, hOne, false_or]
    refine and_congr (forall_congr' fun k => forall_congr' fun hk => forall_congr' fun hEnd => ?_)
      (and_congr_right fun _ => forall_congr' fun addr => forall_congr' fun hHit => ?_)
    · exact ⟨fun h => h (hApart k hk hEnd), fun h _ => h⟩
    · grind

end Copy

/-- New page tables, and two pages for a process. -/
def twoPages : Except Panic (Paging × Machine × Machine) :=
  Paging.andThen (Paging.new smallMachine 4) fun paging m =>
    paging.map .development m ⟨512, 514⟩ .user USER_PAGE_FLAGS

theorem twoPages_backed : ∃ paging m own frames, paging.IsTree m own ∧
    Backed m own paging 512 2 frames := by
  have hEnds : (twoPages.map fun _ => ()).toOption = some () := by decide +kernel
  obtain ⟨paging, m₁, m, hNew, hMap, -⟩ := Paging.andThen_ok hEnds
  obtain ⟨own₁, hTree₁⟩ := Paging.new_tree hNew
  obtain ⟨own, frames, hTree, hBacked⟩ := hTree₁.map_backed (by decide) (by decide) hMap
  exact ⟨paging, m, own, frames, hTree, hBacked⟩

/-- A hundred bytes for the first page. -/
theorem copy_one_page_exact : ∃ m own destSpace frames m',
    Backed m own destSpace.pageTables 512 1 frames ∧
    copyToAddrSpace .development m UInt8.ofNat destSpace 512 100 true = .ok m' ∧
    CopiedExactly m frames UInt8.ofNat 100 m' := by
  obtain ⟨paging, m, own, frames, hTree, hBacked⟩ := twoPages_backed
  have hFirst : Backed m own (VirtualAddressSpace.onTables paging).pageTables 512 1 frames :=
    ⟨fun i hi => hBacked.valid i (by omega), fun i hi => hBacked.translate i (by omega),
      fun i hi j hj => hBacked.distinct i (by omega) j (by omega),
      fun i hi => hBacked.data i (by omega)⟩
  obtain ⟨m', hRun, hExact⟩ := (copyToAddrSpace_exact_iff (show (VirtualAddressSpace.onTables paging).pageTables.IsTree m own
    from hTree) (show 0 < 100 by decide) hFirst .development UInt8.ofNat).mpr (Or.inr (Or.inl (by decide)))
  exact ⟨m, own, VirtualAddressSpace.onTables paging, frames, m', hFirst, hRun, hExact⟩

/-- One page and one byte are copied over old contents of the second frame:
what is left of them stays in the page. -/
theorem copy_leaves_old_bytes : ∃ m own destSpace frames m',
    destSpace.pageTables.IsTree m own ∧ Backed m own destSpace.pageTables 512 2 frames ∧
    copyToAddrSpace .development m (fun _ => 1) destSpace 512 4097 true = .ok m' ∧
    m'.readByte (target frames 4097) = 7 ∧ ¬CopiedExactly m frames (fun _ => 1) 4097 m' := by
  obtain ⟨paging, m₁, own, frames, hTree₁, hBacked₁⟩ := twoPages_backed
  have hFrames : (m₁.writeByte (target frames 4097) 7).frames = m₁.frames := rfl
  have hPage : target frames 4097 = PAGE_SIZE * frames 1 + 1 := rfl
  have hRead : ∀ table node, own table = some node → ∀ index,
      (m₁.writeByte (target frames 4097) 7).read table index = m₁.read table index := by
    intro table node hOwn index
    have hNe : table ≠ target frames 4097 / PAGE_SIZE := by
      rintro rfl
      rw [hPage, Nat.mul_add_div (by decide), Nat.div_eq_of_lt (show 1 < PAGE_SIZE by decide),
        Nat.add_zero, hBacked₁.data 1 (by decide)] at hOwn
      cases hOwn
    rw [Machine.writeByte, Machine.read_write, if_neg fun hSame => hNe hSame.1]
  have hTree := hTree₁.of_read_eq hFrames hRead
  have hBacked : Backed (m₁.writeByte (target frames 4097) 7) own (VirtualAddressSpace.onTables paging).pageTables 512 2
      frames :=
    ⟨hBacked₁.valid, fun i hi => (hTree₁.translate_of_read_eq hFrames hRead _).trans
      (hBacked₁.translate i hi), hBacked₁.distinct, hBacked₁.data⟩
  obtain ⟨state, hState, hOffset, hRun⟩ := @copyToAddrSpace_ok _ _ (VirtualAddressSpace.onTables paging) _ (fun _ => 1)
    .development _ 4097 hTree (by decide) hBacked
  have hByte : (state.machine.writeBytes (PAGE_SIZE * frames (pagesToCopy 4097 - 1) + 4097)
      (List.replicate (PAGE_SIZE * pagesToCopy 4097 - 4097) 0)).readByte (target frames 4097) = 7 := by
    have hBefore : ¬PAGE_SIZE * frames (pagesToCopy 4097 - 1) + 4097 ≤ target frames 4097 := by
      rw [hPage, show pagesToCopy 4097 - 1 = 1 from rfl]
      omega
    rw [Machine.readByte_fill, if_neg fun h => hBefore h.1, hState.outside, Machine.readByte_writeByte,
      if_pos rfl]
    intro k hk hEq
    have hSame := target_inj hBacked (show 4097 < PAGE_SIZE * pagesToCopy 4097 by decide)
      (show k < PAGE_SIZE * pagesToCopy 4097 by
        rw [hOffset] at hk
        exact hk.trans (by decide)) hEq
    omega
  refine ⟨_, own, VirtualAddressSpace.onTables paging, frames, _, hTree, hBacked, hRun, hByte, fun hExact => ?_⟩
  have hZero := hExact.filled 4097 le_rfl (by decide)
  rw [hByte] at hZero
  exact absurd hZero (by decide)

end D3OS.Memory
