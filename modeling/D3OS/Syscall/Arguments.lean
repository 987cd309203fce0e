import D3OS.Memory.Mapping
import D3OS.Naming.Contents

/-! The system calls that turn the arguments of an application into paths,
flags, addresses and file positions. Most of them unwrap what they decode, so
an application can stop the kernel. `SystemCall.Accepted` says for every call
and every state with which arguments it returns. -/
namespace D3OS.Syscall

open D3OS.Memory D3OS.Naming
open Outcome

/-- Memory of the application from a path's first byte on. -/
structure CString where
  memory : List UInt8
  terminated : 0 ∈ memory

/-- The bytes in front of the null terminator. -/
def CString.bytes (self : CString) : List UInt8 := self.memory.takeWhile (· ≠ 0)

def fromUtf8 (bytes : List UInt8) : Option Text :=
  (ByteArray.utf8Decode? ⟨bytes.toArray⟩).map Array.toList

/-- `ptr_to_string`. The pointer is null where there is no string. -/
def ptrToString (ptr : Option CString) : Except Errno Text :=
  match ptr with
  | none => .error .EBADSTR
  | some string =>
    match fromUtf8 string.bytes with
    | some path => .ok path
    | none => .error .EBADSTR

/-- The memory that `buffer` and `buffer_length` describe. -/
structure Buffer where
  bytes : List UInt8
  length_lt : bytes.length < 2 ^ 64

/-! ### The system calls -/

variable (profile : BuildProfile) (service : NamingService) (path : Option CString)

def sysOpen (flagBits : Nat) :
    Except Panic (Int × NamingService) := do
  let flags ← expectSome (OpenOptions.fromBits flagBits)
  let path ← expectOk (ptrToString path)
  let (result, service) := service.openOrCreate path flags
  return (convertSyscallResultToRetCode result, service)

/-- `sys_mkdir`, `sys_touch` and `sys_cd` differ only in the call they make. -/
def withPath (call : NamingService → Text → SyscallResult × NamingService)
    (service : NamingService) (path : Option CString) : Except Panic (Int × NamingService) := do
  let path ← expectOk (ptrToString path)
  let (result, service) := call service path
  return (convertSyscallResultToRetCode result, service)

def sysMkdir : NamingService → Option CString → Except Panic (Int × NamingService) :=
  withPath NamingService.mkdir

def sysTouch : NamingService → Option CString → Except Panic (Int × NamingService) :=
  withPath NamingService.touch

def sysCd : NamingService → Option CString → Except Panic (Int × NamingService) :=
  withPath NamingService.cd

def sysSeek (fh offset origin : Nat) :
    Except Panic (Int × NamingService) := do
  let (result, service) ← service.seek profile fh offset (.fromPrimitive origin)
  return (convertSyscallResultToRetCode result, service)

/-- The buffer's address is null where there is no buffer. -/
def sysWrite (room : Nat) (service : NamingService) (fh : Nat) (buffer : Option Buffer)
    : Except Panic (Int × NamingService) :=
  match buffer with
  | none => .ok (Errno.EINVAL.code, service)
  | some buffer =>
    if buffer.bytes.length = 0 then .ok (Errno.EINVAL.code, service)
    else do
      let (result, service) ← service.write profile room fh buffer.bytes
      return (convertSyscallResultToRetCode result, service)

/-- The calls of an application. `room` is the space that the kernel heap has
for the file's vector at the time of the call. -/
inductive SystemCall where
  | «open» (path : Option CString) (flagBits : Nat)
  | mkdir (path : Option CString)
  | touch (path : Option CString)
  | cd (path : Option CString)
  | mapMemory (start size : Nat)
  | seek (fh offset origin : Nat)
  | write (room fh : Nat) (buffer : Option Buffer)

/-- The naming service, and the address space of the current process. -/
structure Kernel where
  naming : NamingService
  addressSpace : VirtualAddressSpace

/-- Store what a call of the naming service leaves. -/
def Kernel.withNaming (self : Kernel) (answer : Int × NamingService) : Int × Kernel :=
  (answer.1, { self with naming := answer.2 })

namespace SystemCall

def exec (profile : BuildProfile) (kernel : Kernel) : SystemCall → Except Panic (Int × Kernel)
  | .open path flagBits => kernel.withNaming <$> sysOpen kernel.naming path flagBits
  | .mkdir path => kernel.withNaming <$> sysMkdir kernel.naming path
  | .touch path => kernel.withNaming <$> sysTouch kernel.naming path
  | .cd path => kernel.withNaming <$> sysCd kernel.naming path
  | .mapMemory start size => do
    let (code, addressSpace) ← kernel.addressSpace.sysMapMemory profile start size
    return (code, { kernel with addressSpace := addressSpace })
  | .seek fh offset origin =>
    kernel.withNaming <$> sysSeek profile kernel.naming fh offset origin
  | .write room fh buffer => kernel.withNaming <$> sysWrite profile room kernel.naming fh buffer

/-- A sequence of calls: the codes that they return, and the last state. -/
def execAll (profile : BuildProfile) : Kernel → List SystemCall → Except Panic (List Int × Kernel)
  | kernel, [] => .ok ([], kernel)
  | kernel, call :: rest => do
    let (code, kernel) ← call.exec profile kernel
    let (codes, kernel) ← execAll profile kernel rest
    return (code :: codes, kernel)

end SystemCall

/-! ### The arguments with which a call returns -/

/-- A path that is there and is UTF-8. -/
def PathAccepted : Prop :=
  ∃ string, path = some string ∧ (⟨string.bytes.toArray⟩ : ByteArray).IsValidUTF8

/-- The bytes of whole pages that hold `size` bytes. -/
def roundUp (size : Nat) : Nat := (size + (PAGE_SIZE - 1)) / PAGE_SIZE * PAGE_SIZE

/-- Both ends of the area are canonical addresses. Rounding up the largest
sizes overflows; a production build then asks for no pages at all. -/
def MappingAccepted (start size : Nat) : Prop :=
  Canonical start ∧
    match profile with
    | .development =>
      roundUp size < 2 ^ 64 ∧ Canonical (start / PAGE_SIZE * PAGE_SIZE + roundUp size)
    | .production => Canonical (start / PAGE_SIZE * PAGE_SIZE + roundUp size % 2 ^ 64)

/-- The new position fits into 64 bits; a production build wraps it around. -/
def SeekAccepted (fh offset origin : Nat) : Prop :=
  profile = .development → ∀ opened file, service.openedFile fh = .ok (opened, file) →
    match SeekOrigin.fromPrimitive origin with
    | .start => True
    | .end => (service.root.file file).stat.size + offset < 2 ^ 64
    | .current => opened.pos + offset < 2 ^ 64

/-- The bytes end at a position of 64 bits, and the file holds them already or
the heap has room for a vector that does. -/
def WriteAccepted (room : Nat) (service : NamingService) (fh : Nat) (buffer : Buffer) : Prop :=
  ∀ opened file, service.openedFile fh = .ok (opened, file) →
    let stop := opened.pos + buffer.bytes.length
    stop < 2 ^ 64 ∧
      ((service.root.file file).data.length < stop → stop < 2 ^ 63 ∧ stop ≤ room)

def SystemCall.Accepted (kernel : Kernel) : SystemCall → Prop
  | .open path flagBits => flagBits < 8 ∧ PathAccepted path
  | .mkdir path => PathAccepted path
  | .touch path => PathAccepted path
  | .cd path => PathAccepted path
  | .mapMemory start size => MappingAccepted profile start size
  | .seek fh offset origin => SeekAccepted profile kernel.naming fh offset origin
  | .write room fh buffer => ∀ bytes, buffer = some bytes → bytes.bytes ≠ [] →
      WriteAccepted room kernel.naming fh bytes

/-- Every call of a sequence is accepted in the state it is made in. -/
def AllAccepted (profile : BuildProfile) : Kernel → List SystemCall → Prop
  | _, [] => True
  | kernel, call :: rest =>
    call.Accepted profile kernel ∧
      ∀ code kernel', call.exec profile kernel = .ok (code, kernel') →
        AllAccepted profile kernel' rest

/-! ### Each call returns exactly with these arguments -/

theorem returns_expectSome_iff {α : Type} (value : Option α) :
    Returns (expectSome value) ↔ value.isSome := by
  cases value <;> simp [expectSome]

theorem returns_ptrToString_iff : Returns (expectOk (ptrToString path)) ↔ PathAccepted path := by
  cases path with
  | none => simp [ptrToString, expectOk, PathAccepted]
  | some string =>
    simp only [PathAccepted, Option.some.injEq, exists_eq_left', ptrToString, fromUtf8,
      ← ByteArray.isSome_utf8Decode?_iff]
    cases ByteArray.utf8Decode? ⟨string.bytes.toArray⟩ <;> simp [expectOk]

theorem fromBits_isSome_iff (bits : Nat) : (OpenOptions.fromBits bits).isSome ↔ bits < 8 := by
  have hMask : bits &&& OpenOptions.all.bits = bits % 8 := Nat.and_two_pow_sub_one_eq_mod bits 3
  unfold OpenOptions.fromBits
  rw [hMask]
  split <;> simp <;> omega

theorem returns_withPath_iff (call : NamingService → Text → SyscallResult × NamingService)
    (service : NamingService) (path : Option CString) :
    Returns (withPath call service path) ↔ PathAccepted path := by
  rw [← returns_ptrToString_iff]
  exact returns_bind_of_forall fun _ => returns_pure _

theorem returns_sysOpen_iff (flagBits : Nat) :
    Returns (sysOpen service path flagBits) ↔ flagBits < 8 ∧ PathAccepted path := by
  have hOpen : sysOpen service path flagBits =
      expectSome (OpenOptions.fromBits flagBits) >>= fun flags =>
        withPath (fun service path => service.openOrCreate path flags) service path := rfl
  rw [hOpen, returns_bind_iff, ← fromBits_isSome_iff, ← returns_expectSome_iff]
  simp only [returns_withPath_iff, exists_and_right]
  exact Iff.rfl

theorem returns_word_iff (value : Nat) :
    Returns (profile.word value) ↔ (profile = .development → value < 2 ^ 64) :=
  profile.returns_unsigned_iff 64 value

theorem returns_virtAddrNew_iff (addr : Nat) : Returns (VirtAddr.new addr) ↔ Canonical addr := by
  unfold VirtAddr.new
  split <;> simp [*]

theorem returns_virtAddrAdd_iff (addr offset : Nat) :
    Returns (VirtAddr.add addr offset) ↔ Canonical (addr + offset) := by
  unfold VirtAddr.add
  split
  · exact returns_virtAddrNew_iff _
  · simp only [not_returns_error, false_iff, Canonical]
    omega

theorem returns_allocAt_iff (space : VirtualAddressSpace) (firstPage numPages : Nat)
    (kind : MemorySpace) (typ : VmaType) (tag : List UInt8) :
    Returns (space.allocAt profile firstPage numPages kind typ tag) ↔
      Returns (Page.add profile firstPage numPages) := by
  refine returns_bind_of_forall fun endPage => ?_
  dsimp only
  split
  · exact returns_pure _
  · split <;> exact returns_pure _

theorem returns_pageAdd_iff (page count : Nat) :
    Returns (Page.add profile page count) ↔
      match profile with
      | .development => count * PAGE_SIZE < 2 ^ 64 ∧
          Canonical (Page.startAddress page + count * PAGE_SIZE)
      | .production => Canonical (Page.startAddress page + count * PAGE_SIZE % 2 ^ 64) := by
  have hRest (offset : Nat) : Returns (do
      let addr ← VirtAddr.add (Page.startAddress page) offset
      return Page.containingAddress addr) ↔ Canonical (Page.startAddress page + offset) := by
    rw [← returns_virtAddrAdd_iff]
    exact returns_bind_of_forall fun _ => returns_pure _
  rw [Page.add, returns_bind_iff]
  simp only [hRest]
  cases profile with
  | development =>
    by_cases h : count * PAGE_SIZE < 2 ^ 64
    · rw [BuildProfile.word_of_lt _ h]
      simp only [Except.ok.injEq, exists_eq_left', h, true_and]
    · rw [BuildProfile.word_development_of_not_lt h]
      exact iff_of_false (by rintro ⟨_, hOk, _⟩; cases hOk) fun hBoth => h hBoth.1
  | production =>
    rw [BuildProfile.word_production]
    simp only [Except.ok.injEq, exists_eq_left']

theorem returns_sysMapMemory_iff (space : VirtualAddressSpace) (start size : Nat) :
    Returns (space.sysMapMemory profile start size) ↔ MappingAccepted profile start size := by
  have hStart : Page.startAddress (Page.containingAddress start) = start / PAGE_SIZE * PAGE_SIZE :=
    Nat.mul_comm _ _
  by_cases hCanonical : Canonical start
  · have hNew : VirtAddr.new start = .ok start := if_pos hCanonical
    rw [VirtualAddressSpace.sysMapMemory, hNew, bind_of_ok]
    refine (returns_bind_of_forall ?_).trans ?_
    · rintro ⟨vma, space⟩
      cases vma <;> exact returns_pure _
    refine (returns_allocAt_iff profile space _ _ .user .heap _).trans ?_
    rw [returns_pageAdd_iff, hStart]
    simp only [MappingAccepted, hCanonical, true_and, roundUp]
  · have hNew : VirtAddr.new start = .error .nonCanonicalAddress := if_neg hCanonical
    rw [VirtualAddressSpace.sysMapMemory, hNew, bind_of_error]
    simp [MappingAccepted, hCanonical]

theorem forall_openedFile_iff {service : NamingService} {fh file : Nat} {opened : OpenedObject}
    (h : service.openedFile fh = .ok (opened, file)) (p : OpenedObject → Nat → Prop) :
    (∀ opened file, service.openedFile fh = .ok (opened, file) → p opened file) ↔
      p opened file := by
  refine ⟨fun hAll => hAll opened file h, fun hOne opened' file' h' => ?_⟩
  obtain ⟨rfl, rfl⟩ := Prod.mk.inj (Except.ok.inj (h.symm.trans h'))
  exact hOne

theorem returns_sysSeek_iff (fh offset origin : Nat) :
    Returns (sysSeek profile service fh offset origin) ↔
      SeekAccepted profile service fh offset origin := by
  rw [sysSeek, returns_bind_of_forall fun _ => returns_pure _]
  cases hOpened : service.openedFile fh with
  | error e => simp [NamingService.seek, SeekAccepted, hOpened]
  | ok answer =>
    obtain ⟨opened, file⟩ := answer
    have hWord (value : Nat) (next : Nat → NamingService) :
        Returns (do
          let newPos ← profile.word value
          return ((.ok 0 : SyscallResult), next newPos)) ↔
          (profile = .development → value < 2 ^ 64) := by
      rw [← returns_word_iff]
      exact returns_bind_of_forall fun _ => returns_pure _
    rw [SeekAccepted, forall_openedFile_iff hOpened, NamingService.seek, hOpened]
    cases SeekOrigin.fromPrimitive origin with
    | start => exact ⟨fun _ _ => trivial, fun _ => returns_pure _⟩
    | «end» => exact hWord _ _
    | current => exact hWord _ _

/-- A sum that wraps around ends before it starts. -/
theorem returns_fileWrite_iff (room : Nat) (file : File) (pos : Nat) {buf : List UInt8}
    (hBuf : buf.length < 2 ^ 64) :
    Returns (file.write profile room buf pos) ↔
      pos + buf.length < 2 ^ 64 ∧ (file.data.length < pos + buf.length →
        pos + buf.length < 2 ^ 63 ∧ pos + buf.length ≤ room) := by
  by_cases hRange : pos + buf.length < 2 ^ 64
  · have hSpec := File.write_spec profile room file hRange
    refine ⟨fun ⟨answer, hOk⟩ => ⟨hRange, (hSpec.of_ok hOk).2.2⟩, fun h => ?_⟩
    obtain ⟨answer, hOk, _⟩ := hSpec.exists_ok h.2
    exact ⟨answer, hOk⟩
  · refine iff_of_false ?_ fun h => hRange h.1
    cases profile with
    | development =>
      rw [File.write, BuildProfile.word_development_of_not_lt hRange]
      exact not_returns_error _
    | production =>
      have hWrapped : ¬ pos ≤ (pos + buf.length) % 2 ^ 64 := by omega
      rintro ⟨answer, hOk⟩
      obtain ⟨stop, hStop, hOk⟩ := bind_ok hOk
      obtain rfl := Except.ok.inj ((BuildProfile.word_production _).symm.trans hStop)
      simp only [hWrapped, false_and, if_false] at hOk
      obtain ⟨-, hOk⟩ := ite_ok hOk
      obtain ⟨_, _, hOk⟩ := bind_ok hOk
      cases hOk

theorem returns_sysWrite_iff (room : Nat) (service : NamingService) (fh : Nat)
    (buffer : Option Buffer) :
    Returns (sysWrite profile room service fh buffer) ↔
      ∀ bytes, buffer = some bytes → bytes.bytes ≠ [] → WriteAccepted room service fh bytes := by
  cases buffer with
  | none => simp [sysWrite]
  | some buffer =>
    simp only [Option.some.injEq, forall_eq', sysWrite, List.length_eq_zero_iff]
    split
    case isTrue hEmpty => simp [hEmpty]
    case isFalse hBytes =>
      rw [returns_bind_of_forall fun _ => returns_pure _]
      simp only [ne_eq, hBytes, not_false_eq_true, true_imp_iff]
      cases hOpened : service.openedFile fh with
      | error e => simp [NamingService.write, WriteAccepted, hOpened]
      | ok answer =>
        obtain ⟨opened, file⟩ := answer
        have hWrite := returns_fileWrite_iff profile room (service.root.file file) opened.pos
          buffer.length_lt
        rw [WriteAccepted, forall_openedFile_iff hOpened, ← hWrite, NamingService.write, hOpened]
        refine (returns_bind_iff _ _).trans ⟨fun ⟨answer, hOk, _⟩ => ⟨answer, hOk⟩, ?_⟩
        rintro ⟨⟨count, content⟩, hOk⟩
        have hRange := (hWrite.mp ⟨_, hOk⟩).1
        obtain ⟨rfl, -⟩ := (File.write_spec profile room _ hRange).of_ok hOk
        refine ⟨_, hOk, ?_⟩
        dsimp only
        rw [profile.word_of_lt hRange]
        exact returns_pure _

theorem SystemCall.returns_exec_iff (kernel : Kernel) (call : SystemCall)
    : Returns (call.exec profile kernel) ↔ call.Accepted profile kernel := by
  cases call with
  | «open» path flagBits => exact (returns_map_iff _ _).trans (returns_sysOpen_iff _ _ _)
  | mkdir path | touch path | cd path =>
    exact (returns_map_iff _ _).trans (returns_withPath_iff _ _ _)
  | mapMemory start size =>
    refine (returns_bind_of_forall fun _ => returns_pure _).trans ?_
    exact returns_sysMapMemory_iff _ _ _ _
  | seek fh offset origin =>
    exact (returns_map_iff _ _).trans (returns_sysSeek_iff _ _ _ _ _)
  | write room fh buffer =>
    exact (returns_map_iff _ _).trans (returns_sysWrite_iff _ _ _ _ _)

/-- A sequence of system calls returns its result codes if and only if every
call of it is accepted in the state it is made in. -/
theorem SystemCall.execAll_returns_iff (kernel : Kernel) (calls : List SystemCall) :
    (∃ codes kernel', execAll profile kernel calls = .ok (codes, kernel')) ↔
      AllAccepted profile kernel calls := by
  suffices h : Returns (execAll profile kernel calls) ↔ AllAccepted profile kernel calls by
    simpa [Returns] using h
  induction calls generalizing kernel with
  | nil => simp [execAll, AllAccepted]
  | cons call rest ih =>
    have hRest (code : Int) (kernel : Kernel) : Returns (do
        let (codes, kernel) ← execAll profile kernel rest
        return (code :: codes, kernel)) ↔ AllAccepted profile kernel rest := by
      rw [← ih]
      exact returns_bind_of_forall fun _ => returns_pure _
    rw [execAll, returns_bind_iff, AllAccepted, ← call.returns_exec_iff profile kernel]
    simp only [hRest]
    constructor
    · rintro ⟨⟨code, next⟩, hExec, hAll⟩
      refine ⟨⟨_, hExec⟩, fun code' next' hExec' => ?_⟩
      obtain ⟨rfl, rfl⟩ := Prod.mk.inj (Except.ok.inj (hExec.symm.trans hExec'))
      exact hAll
    · rintro ⟨⟨⟨code, next⟩, hExec⟩, hAll⟩
      exact ⟨(code, next), hExec, hAll code next hExec⟩

/-- A process without areas of memory and without open files. -/
def freshKernel : Kernel :=
  ⟨.init, ⟨SortedMap.empty, ⟨0, 4⟩, USER_SPACE_START, lastUsableVirtualAddress 48⟩⟩

/-- Calls that stop the kernel: flag bits that no flag has, a null pointer for
a path, an address in the gap between the canonical halves, and one byte
written at the largest position that fits into a signed word. -/
theorem SystemCall.panicking_arguments :
    (SystemCall.open (some ⟨[47, 0], by decide⟩) 8).exec .production freshKernel =
        .error .unwrapFailed ∧
      (SystemCall.mkdir none).exec .production freshKernel = .error .unwrapFailed ∧
      (SystemCall.mapMemory (2 ^ 47) 0).exec .production freshKernel =
        .error .nonCanonicalAddress ∧
      execAll .production freshKernel
        [.open (some ⟨[47, 102, 0], by decide⟩) 3, .seek 0 (2 ^ 63 - 1) 1,
          .write (2 ^ 30) 0 (some ⟨[65], by decide⟩)] = .error .capacityOverflow :=
  ⟨rfl, rfl, rfl, rfl⟩

end D3OS.Syscall
