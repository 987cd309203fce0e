import D3OS.Kernel.Arithmetic
import D3OS.Library.Outcome

/-! Addresses, pages and constants shared by the memory subsystem. A virtual
address is its 64-bit value; a page is its number, so page `n` starts at
address `4096 * n`. -/
namespace D3OS.Memory

open Outcome

def PAGE_SIZE : Nat := 0x1000

/-- All user space related code and structures lie above this address (1 TiB). -/
def USER_SPACE_START : Nat := 0x10000000000

inductive MemorySpace where
  | kernel
  | user
  deriving DecidableEq, Repr

/-- A 48-bit address is canonical when its upper bits repeat bit 47. -/
def Canonical (addr : Nat) : Prop :=
  addr < 2 ^ 47 ∨ (2 ^ 64 - 2 ^ 47 ≤ addr ∧ addr < 2 ^ 64)

instance (addr : Nat) : Decidable (Canonical addr) :=
  inferInstanceAs (Decidable (_ ∨ (_ ∧ _)))

variable {addr offset count page : Nat} {profile : BuildProfile}

namespace VirtAddr

def new (addr : Nat) : Except Panic Nat :=
  if Canonical addr then .ok addr else .error .nonCanonicalAddress

/-- `VirtAddr + u64`: neither overflow nor a jump over the address gap. -/
def add (addr offset : Nat) : Except Panic Nat :=
  if addr + offset < 2 ^ 64 then new (addr + offset) else .error .addressOverflow

def sub (addr offset : Nat) : Except Panic Nat :=
  if addr < offset then .error .addressUnderflow else new (addr - offset)

theorem add_ok {sum : Nat} (h : add addr offset = .ok sum) : sum = addr + offset := by
  unfold add new at h
  split at h
  · split at h
    · simpa [eq_comm] using h
    · simp at h
  · simp at h

theorem add_of_canonical (h : Canonical (addr + offset)) :
    add addr offset = .ok (addr + offset) := by
  have hLt : addr + offset < 2 ^ 64 := by
    unfold Canonical at h
    omega
  rw [add, if_pos hLt, new, if_pos h]

theorem add_of_not_canonical (h : ¬Canonical (addr + offset)) :
    ∃ panic, add addr offset = .error panic := by
  unfold add
  by_cases hLt : addr + offset < 2 ^ 64
  · exact ⟨_, by rw [if_pos hLt, new, if_neg h]⟩
  · exact ⟨_, if_neg hLt⟩

end VirtAddr

/-- The size of a number of pages wraps around at a whole number of pages. -/
theorem word_mul_pageSize (h : profile.word (count * PAGE_SIZE) = .ok offset) :
    offset = PAGE_SIZE * (count % 2 ^ 52) := by
  unfold BuildProfile.word BuildProfile.unsigned PAGE_SIZE at h
  unfold PAGE_SIZE
  split at h
  · obtain rfl : count * 0x1000 = offset := by simpa using h
    omega
  · grind

theorem word_mul_aligned (h : profile.word (count * PAGE_SIZE) = .ok offset) :
    offset % PAGE_SIZE = 0 := by
  rw [word_mul_pageSize h]
  exact Nat.mul_mod_right _ _

namespace Page

def startAddress (page : Nat) : Nat := PAGE_SIZE * page

def containingAddress (addr : Nat) : Nat := addr / PAGE_SIZE

/-- `Page + u64`. The multiplication by the page size follows the profile. -/
def add (profile : BuildProfile) (page count : Nat) : Except Panic Nat := do
  let offset ← profile.word (count * PAGE_SIZE)
  let addr ← VirtAddr.add (startAddress page) offset
  return containingAddress addr

def sub (profile : BuildProfile) (page count : Nat) : Except Panic Nat := do
  let offset ← profile.word (count * PAGE_SIZE)
  let addr ← VirtAddr.sub (startAddress page) offset
  return containingAddress addr

/-- Adding pages moves the start address by a multiple of the page size, so
no part of the sum is lost when it is turned into a page again. -/
theorem startAddress_of_add {result : Nat} (h : add profile page count = .ok result) :
    ∃ offset, profile.word (count * PAGE_SIZE) = .ok offset ∧
      startAddress result = startAddress page + offset := by
  obtain ⟨offset, hOffset, h⟩ := bind_ok h
  obtain ⟨addr, hAddr, h⟩ := bind_ok h
  have hSum := VirtAddr.add_ok hAddr
  refine ⟨offset, hOffset, ?_⟩
  rw [← pure_ok h, hSum]
  have hAligned := word_mul_aligned hOffset
  simp only [startAddress, containingAddress, PAGE_SIZE] at hAligned ⊢
  omega

theorem startAddress_of_sub {result : Nat} (h : sub profile page count = .ok result) :
    Canonical (startAddress result) ∧
      ∃ offset, profile.word (count * PAGE_SIZE) = .ok offset ∧ offset ≤ startAddress page ∧
        startAddress result = startAddress page - offset := by
  obtain ⟨offset, hOffset, h⟩ := bind_ok h
  obtain ⟨addr, hAddr, h⟩ := bind_ok h
  obtain rfl := pure_ok h
  have hAligned := word_mul_aligned hOffset
  unfold VirtAddr.sub VirtAddr.new at hAddr
  obtain ⟨hLe, hAddr⟩ := ite_error_ok hAddr
  obtain ⟨hCanonical, hAddr⟩ := ite_ok hAddr
  obtain rfl := Except.ok.inj hAddr
  have hBack : startAddress (containingAddress (startAddress page - offset)) =
      startAddress page - offset := by
    simp only [startAddress, containingAddress, PAGE_SIZE] at hAligned hLe ⊢
    omega
  exact ⟨by rwa [hBack], offset, hOffset, by omega, hBack⟩

/-- A page number the type `Page` can hold. -/
def Valid (page : Nat) : Prop := Canonical (startAddress page)

instance (page : Nat) : Decidable (Valid page) := inferInstanceAs (Decidable (Canonical _))

/-- Adding a number of pages that one set of page tables can translate gives
a page on the same side of the address gap, or panics. -/
theorem add_spec (profile : BuildProfile) (hPage : Valid page) (hCount : count ≤ 512 ^ 4) :
    Yields (Valid (page + count)) (add profile page count) fun result =>
      result = page + count ∧ Valid result ∧ result % 512 ^ 4 = page % 512 ^ 4 + count := by
  have hWord : profile.word (count * PAGE_SIZE) = .ok (count * PAGE_SIZE) := by
    exact profile.word_of_lt (by unfold PAGE_SIZE; omega)
  have hSum : startAddress page + count * PAGE_SIZE = startAddress (page + count) := by
    simp only [startAddress, PAGE_SIZE]
    omega
  have hContaining : containingAddress (startAddress (page + count)) = page + count := by
    simp only [startAddress, containingAddress, PAGE_SIZE]
    omega
  unfold add VirtAddr.add VirtAddr.new
  rw [hWord, bind_of_ok, hSum]
  by_cases hValid : Valid (page + count)
  · have hLt : startAddress (page + count) < 2 ^ 64 := by
      unfold Valid Canonical at hValid
      omega
    rw [if_pos hLt, if_pos (by exact hValid), bind_of_ok, hContaining]
    refine Yields.pure ⟨rfl, hValid, ?_⟩
    simp only [Valid, Canonical, startAddress, PAGE_SIZE] at hPage hValid
    omega
  · split
    · rw [if_neg (by exact hValid)]
      exact Yields.error hValid
    · exact Yields.error hValid

theorem startAddress_containing (h : addr % PAGE_SIZE = 0) :
    startAddress (containingAddress addr) = addr := by
  simp only [startAddress, containingAddress, PAGE_SIZE] at h ⊢
  omega

end Page

/-- A page of the lower half. -/
theorem valid_of_lt (h : page < 2 ^ 35) : Page.Valid page := by
  unfold Page.Valid Canonical Page.startAddress PAGE_SIZE
  omega

def USER_SPACE_PAGE : Nat := Page.containingAddress USER_SPACE_START

/-- `PageRange`: the pages from `start` up to but excluding `stop`. -/
structure PageRange where
  start : Nat
  stop : Nat
  deriving DecidableEq, Repr

def PageRange.len (pages : PageRange) : Nat := pages.stop - pages.start

/-- The page tables of an address space: the frame of the root table and the
number of levels. -/
structure Paging where
  rootTable : Nat
  depth : Nat
  deriving DecidableEq, Repr

end D3OS.Memory
