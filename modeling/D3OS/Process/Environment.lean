import D3OS.Memory.CopyToSpace
import Mathlib.Algebra.GroupWithZero.Nat

/-! The arguments of an application. `copy_args` lays them out in the
environment page of the new process, through the physical address of the page:
the number of strings, the array of pointers to them, and the strings, each
with a zero byte behind it. The runtime of the application reads them back
through its own page tables. The kernel checks the size of the arguments alone
against the page; the count, the pointers, the zero bytes and the name of the
program come on top of it. -/
namespace D3OS.Process

open Outcome
open D3OS.Memory
open LittleEndian (toBytes ofBytes)

/-- `USER_SPACE_ENV_START`, which is also `USER_SPACE_ARG_START`. -/
def USER_SPACE_ENV_START : Nat := USER_SPACE_START + 0x40000000

def asBytes (text : String) : List UInt8 := text.toUTF8.data.toList

/-! ### The kernel side -/

/-- The pages for the environment, by the size of the arguments. -/
def envPageCount (args : List String) : Nat :=
  let envSize := (args.map fun arg => (asBytes arg).length).sum
  if envSize > 0 ∧ envSize % PAGE_SIZE = 0 then envSize / PAGE_SIZE else envSize / PAGE_SIZE + 1

/-- The first part of `copy_args`: map the environment and look up its physical
address. -/
def mapEnvironment (profile : BuildProfile) (self : VirtualAddressSpace) (m : Machine)
    (args : List String) : Except Panic (VirtualAddressSpace × Machine × Nat) := do
  let envVirtStart := Page.containingAddress USER_SPACE_ENV_START
  let (vma, self, m) ← self.userAllocMapFull profile m (some envVirtStart) (envPageCount args)
    .environment (tagBytes "env")
  let _ ← expectSome vma
  if envPageCount args > 1 then .error .environmentTooLarge
  else
    let envFrame ← self.getPhys m (Page.startAddress envVirtStart)
    let envFrame ← expectSome envFrame
    return (self, m, envFrame)

/-- The writes for the strings from number `index` on, with the next one at
`offset` behind the start of the strings: the string, its zero byte and the
pointer to it. The program name is the first string. -/
def argWrites (argv argsBegin argsBeginVirt : Nat) :
    List String → Nat → Nat → Except Panic (List (Nat × List UInt8))
  | [], _, _ => .ok []
  | arg :: rest, index, offset => do
    let pointer ← VirtAddr.add argsBeginVirt offset
    let writes ← argWrites argv argsBegin argsBeginVirt rest (index + 1)
      (offset + (asBytes arg).length + 1)
    return (argsBegin + offset, asBytes arg) ::
      (argsBegin + offset + (asBytes arg).length, [0]) ::
      (argv + 8 * index, toBytes 8 pointer) :: writes

/-- All that `copy_args` writes to the environment at the physical address
`envAddr`. -/
def envWrites (envAddr : Nat) (name : String) (args : List String) :
    Except Panic (List (Nat × List UInt8)) := do
  let envAddr ← VirtAddr.new envAddr
  let argv ← VirtAddr.add envAddr 8
  let argsBegin := argv + 8 * (args.length + 1)
  let argvVirt ← VirtAddr.add USER_SPACE_ENV_START 8
  let argsBeginVirt ← VirtAddr.add argvVirt (8 * (args.length + 1))
  let writes ← argWrites argv argsBegin argsBeginVirt (name :: args) 0 0
  return (envAddr, toBytes 8 (args.length + 1)) :: writes

def copyArgs (profile : BuildProfile) (self : VirtualAddressSpace) (m : Machine) (name : String)
    (args : List String) : Except Panic (VirtualAddressSpace × Machine) := do
  let (self, m, envAddr) ← mapEnvironment profile self m args
  let writes ← envWrites envAddr name args
  return (self, m.writeAll writes)

/-! ### The user side -/

/-- A byte of the address space as the application sees it. Behind the pages of
the environment there is nothing to fall back on. -/
def userLoad (self : VirtualAddressSpace) (m : Machine) (addr : Nat) : Except Panic UInt8 :=
  match self.pageTables.translate m addr with
  | some phys => .ok (m.readByte phys)
  | none => .error .pageFault

def loadBytes (load : Nat → Except Panic UInt8) (addr : Nat) : Nat → Except Panic (List UInt8)
  | 0 => .ok []
  | count + 1 => do
    let byte ← load addr
    let rest ← loadBytes load (addr + 1) count
    return byte :: rest

/-- A `usize` or a pointer in memory. -/
def loadWord (load : Nat → Except Panic UInt8) (addr : Nat) : Except Panic Nat := do
  let bytes ← loadBytes load addr 8
  return ofBytes bytes

/-- The loop of `strlen`, up to the end of the address space. -/
def strlenFrom (load : Nat → Except Panic UInt8) (str : Nat) : Nat → Nat → Except Panic Nat
  | 0, _ => .error .pageFault
  | fuel + 1, len => do
    let byte ← load (str + len)
    if byte ≠ 0 then strlenFrom load str fuel (len + 1) else return len

def strlen (load : Nat → Except Panic UInt8) (str : Nat) : Except Panic Nat :=
  strlenFrom load str (2 ^ 64 - str) 0

/-- `CStr::from_bytes_with_nul`: the only zero byte is the last one. -/
def cStrFromBytesWithNul (bytes : List UInt8) : Option (List UInt8) :=
  if bytes.idxOf 0 + 1 = bytes.length then some bytes.dropLast else none

def ARGC_PTR : Nat := USER_SPACE_ENV_START

def ARGV_PTR : Nat := USER_SPACE_ENV_START + 8

/-- `Args::next`, with the index as the state of the iterator. -/
def argsNext (load : Nat → Except Panic UInt8) (index : Nat) : Except Panic (Option String × Nat) := do
  let argc ← loadWord load ARGC_PTR
  if index ≥ argc then return (none, index)
  else
    let arg ← loadWord load (ARGV_PTR + 8 * index)
    let len ← strlen load arg
    let bytes ← loadBytes load arg (len + 1)
    match cStrFromBytesWithNul bytes with
    | none => return (none, index + 1)
    | some text =>
      let text ← expectSome (String.fromUTF8? ⟨text.toArray⟩)
      return (some text, index + 1)

/-- The strings that the iterator yields from an index on, until it ends. -/
inductive Iterates (load : Nat → Except Panic UInt8) : Nat → List String → Prop where
  | done {index next : Nat} (ends : argsNext load index = .ok (none, next)) : Iterates load index []
  | next {index next : Nat} {text : String} {rest : List String}
      (yields : argsNext load index = .ok (some text, next)) (continues : Iterates load next rest) :
      Iterates load index (text :: rest)

/-! ### Delivery -/

def NulFree (text : String) : Prop := 0 ∉ asBytes text

/-- The bytes that the environment takes. -/
def environmentSize (name : String) (args : List String) : Nat :=
  8 + 8 * (args.length + 1) + ((name :: args).map fun text => (asBytes text).length + 1).sum

/-- Everything was written to the environment page, and the application reads
back its name and its arguments. -/
def Delivered (profile : BuildProfile) (self : VirtualAddressSpace) (m : Machine) (name : String)
    (args : List String) (self' : VirtualAddressSpace) (m' : Machine) : Prop :=
  (∃ m₁ envAddr writes, mapEnvironment profile self m args = .ok (self', m₁, envAddr) ∧
    envWrites envAddr name args = .ok writes ∧
    ∀ write ∈ writes, envAddr ≤ write.1 ∧ write.1 + write.2.length ≤ envAddr + PAGE_SIZE) ∧
  Iterates (userLoad self' m') 0 (name :: args)

/-! ### What the writes leave in memory -/

/-- The bytes of these strings, with their zero bytes. -/
def stringsSize (texts : List String) : Nat := (texts.map fun text => (asBytes text).length + 1).sum

@[simp] theorem stringsSize_nil : stringsSize [] = 0 := rfl

@[simp] theorem stringsSize_cons (text : String) (rest : List String) :
    stringsSize (text :: rest) = (asBytes text).length + 1 + stringsSize rest := by
  simp [stringsSize]

/-- The strings and the pointers to them, from number `index` on. -/
def Layout (m : Machine) (argv argsBegin argsBeginVirt : Nat) : List String → Nat → Nat → Prop
  | [], _, _ => True
  | text :: rest, index, offset =>
    m.HasBytes (argsBegin + offset) (asBytes text ++ [0]) ∧
    m.HasBytes (argv + 8 * index) (toBytes 8 (argsBeginVirt + offset)) ∧
    Layout m argv argsBegin argsBeginVirt rest (index + 1) (offset + (asBytes text).length + 1)

section Writes

variable {argv argsBegin argsBeginVirt index offset : Nat} {texts : List String}
  {writes : List (Nat × List UInt8)}

theorem argWrites_cons {text : String}
    (h : argWrites argv argsBegin argsBeginVirt (text :: texts) index offset = .ok writes) :
    ∃ rest, argWrites argv argsBegin argsBeginVirt texts (index + 1)
        (offset + (asBytes text).length + 1) = .ok rest ∧
      writes = (argsBegin + offset, asBytes text) ::
        (argsBegin + offset + (asBytes text).length, [0]) ::
        (argv + 8 * index, toBytes 8 (argsBeginVirt + offset)) :: rest := by
  obtain ⟨pointer, hPointer, h⟩ := bind_ok h
  obtain ⟨rest, hRest, h⟩ := bind_ok h
  obtain rfl := VirtAddr.add_ok hPointer
  exact ⟨rest, hRest, (pure_ok h).symm⟩

/-- Every write goes to the strings or to the pointers. -/
theorem argWrites_within
    (h : argWrites argv argsBegin argsBeginVirt texts index offset = .ok writes) :
    ∀ write ∈ writes,
      argsBegin + offset ≤ write.1 ∧
        write.1 + write.2.length ≤ argsBegin + offset + stringsSize texts ∨
      argv + 8 * index ≤ write.1 ∧ write.1 + write.2.length ≤ argv + 8 * (index + texts.length) := by
  induction texts generalizing index offset writes with
  | nil =>
    obtain rfl := Except.ok.inj h
    simp
  | cons text texts ih =>
    obtain ⟨rest, hRest, rfl⟩ := argWrites_cons h
    simp only [List.forall_mem_cons, List.length_cons, List.length_nil, stringsSize_cons,
      LittleEndian.length_toBytes]
    refine ⟨by omega, by omega, by omega, fun write hMem => ?_⟩
    have hWrite := ih hRest write hMem
    omega

/-- The last write for the strings is the last zero byte. -/
theorem argWrites_last (hSome : texts ≠ [])
    (h : argWrites argv argsBegin argsBeginVirt texts index offset = .ok writes) :
    ∃ write ∈ writes, write.1 + write.2.length = argsBegin + offset + stringsSize texts := by
  induction texts generalizing index offset writes with
  | nil => exact absurd rfl hSome
  | cons text texts ih =>
    obtain ⟨rest, hRest, rfl⟩ := argWrites_cons h
    cases texts with
    | nil =>
      refine ⟨(argsBegin + offset + (asBytes text).length, [0]), by simp, ?_⟩
      simp only [List.length_cons, List.length_nil, stringsSize_cons, stringsSize_nil]
      omega
    | cons next texts =>
      obtain ⟨write, hMem, hEnd⟩ := ih (by simp) hRest
      refine ⟨write, by simp [hMem], ?_⟩
      rw [hEnd, stringsSize_cons text]
      omega

/-- The writes leave the strings and their pointers in memory, as long as the
pointers end in front of the strings. -/
theorem argWrites_layout (m : Machine)
    (hArgv : argv + 8 * (index + texts.length) ≤ argsBegin)
    (h : argWrites argv argsBegin argsBeginVirt texts index offset = .ok writes) :
    Layout (m.writeAll writes) argv argsBegin argsBeginVirt texts index offset := by
  induction texts generalizing index offset writes m with
  | nil => trivial
  | cons text texts ih =>
    obtain ⟨rest, hRest, rfl⟩ := argWrites_cons h
    simp only [List.length_cons] at hArgv
    have hWithin := argWrites_within hRest
    -- The later writes touch neither this string nor this pointer.
    have hKept : ∀ {m : Machine} {addr : Nat} {bytes : List UInt8}, m.HasBytes addr bytes →
        (addr + bytes.length ≤ argsBegin + offset + (asBytes text).length + 1 ∧
          argsBegin ≤ addr ∨ addr + bytes.length ≤ argv + 8 * (index + 1)) →
        (m.writeAll rest).HasBytes addr bytes := by
      intro m addr bytes hBytes hPlace
      refine hBytes.congr fun i hi => Machine.readByte_writeAll_outside fun write hMem => ?_
      have hWrite := hWithin write hMem
      omega
    simp only [Machine.writeAll]
    refine ⟨hKept ?_ ?_, hKept (Machine.hasBytes_writeBytes _ _ _) ?_, ih _ (by omega) hRest⟩
    · refine Machine.HasBytes.writeBytes (Machine.HasBytes.append ?_ ?_) ?_
      · exact (Machine.hasBytes_writeBytes _ _ _).writeBytes (by omega)
      · exact Machine.hasBytes_writeBytes _ _ _
      · simp only [List.length_append, List.length_cons, List.length_nil,
          LittleEndian.length_toBytes]
        omega
    · simp only [List.length_append, List.length_cons, List.length_nil]
      omega
    · simp only [LittleEndian.length_toBytes]
      omega

end Writes

/-! ### Reading them back -/

section Reads

variable {load : Nat → Except Panic UInt8} {addr : Nat} {bytes : List UInt8}

/-- The application reads these bytes at the address. -/
def Reads (load : Nat → Except Panic UInt8) (addr : Nat) (bytes : List UInt8) : Prop :=
  ∀ i (hi : i < bytes.length), load (addr + i) = .ok bytes[i]

theorem Reads.loadBytes_eq (h : Reads load addr bytes) :
    loadBytes load addr bytes.length = .ok bytes := by
  induction bytes generalizing addr with
  | nil => rfl
  | cons byte rest ih =>
    have hFirst : load addr = .ok byte := h 0 (by simp)
    have hRest : Reads load (addr + 1) rest := by
      intro i hi
      have hNext := h (i + 1) (Nat.succ_lt_succ hi)
      rw [show addr + 1 + i = addr + (i + 1) by omega]
      exact hNext
    rw [List.length_cons, loadBytes, hFirst, bind_of_ok, ih hRest]
    rfl

theorem Reads.loadWord_eq {value : Nat} (h : Reads load addr (toBytes 8 value))
    (hValue : value < 2 ^ 64) : loadWord load addr = .ok value := by
  have hBytes := h.loadBytes_eq
  rw [LittleEndian.length_toBytes] at hBytes
  rw [loadWord, hBytes, bind_of_ok, LittleEndian.ofBytes_toBytes,
    Nat.mod_eq_of_lt (by exact hValue)]
  rfl

/-- The loop stops at the zero byte. -/
theorem Reads.strlenFrom_eq (h : Reads load addr (bytes ++ [0])) (hNul : 0 ∉ bytes) {fuel len : Nat}
    (hLen : len ≤ bytes.length) (hFuel : bytes.length < len + fuel) :
    strlenFrom load addr fuel len = .ok bytes.length := by
  induction fuel generalizing len with
  | zero => omega
  | succ fuel ih =>
    have hByte := h len (by rw [List.length_append]; simp; omega)
    rw [strlenFrom, hByte, bind_of_ok]
    by_cases hEnd : len = bytes.length
    · subst hEnd
      simp
    · grind

theorem cStrFromBytesWithNul_append (hNul : 0 ∉ bytes) :
    cStrFromBytesWithNul (bytes ++ [0]) = some bytes := by
  have hIndex : (bytes ++ [0]).idxOf 0 = bytes.length := by
    rw [List.idxOf_append_of_notMem hNul]
    simp
  rw [cStrFromBytesWithNul, hIndex, if_pos (by simp), List.dropLast_concat]

theorem fromUTF8_asBytes (text : String) : String.fromUTF8? ⟨(asBytes text).toArray⟩ = some text :=
  dif_pos text.isValidUTF8

/-- One call of the iterator. -/
theorem argsNext_eq {argc index pointer : Nat} {text : String}
    (hArgc : Reads load ARGC_PTR (toBytes 8 argc)) (hCount : argc < 2 ^ 64) (hIndex : index < argc)
    (hPointer : Reads load (ARGV_PTR + 8 * index) (toBytes 8 pointer))
    (hText : Reads load pointer (asBytes text ++ [0])) (hNul : NulFree text)
    (hEnd : pointer + (asBytes text).length < 2 ^ 64) :
    argsNext load index = .ok (some text, index + 1) := by
  have hLen : strlen load pointer = .ok (asBytes text).length :=
    hText.strlenFrom_eq hNul (Nat.zero_le _) (by omega)
  have hBytes := hText.loadBytes_eq
  rw [List.length_append, List.length_singleton] at hBytes
  unfold argsNext
  rw [hArgc.loadWord_eq hCount, bind_of_ok, if_neg (by omega),
    hPointer.loadWord_eq (by omega), bind_of_ok, hLen, bind_of_ok, hBytes,
    bind_of_ok, cStrFromBytesWithNul_append hNul]
  simp only [fromUTF8_asBytes]
  rfl

theorem argsNext_end {argc : Nat} (hArgc : Reads load ARGC_PTR (toBytes 8 argc))
    (hCount : argc < 2 ^ 64) : argsNext load argc = .ok (none, argc) := by
  unfold argsNext
  rw [hArgc.loadWord_eq hCount, bind_of_ok, if_pos (le_refl _)]
  rfl

end Reads

section Delivery

variable {profile : BuildProfile} {self self' : VirtualAddressSpace} {m m' m₁ : Machine}
  {own : Nat → Option Node} {name : String} {args : List String} {envAddr : Nat}

/-- From the strings in memory to the strings of the iterator. -/
theorem iterates_of_layout {load : Nat → Except Panic UInt8} {argc index offset : Nat}
    {texts : List String}
    (hLoad : ∀ k < PAGE_SIZE, load (USER_SPACE_ENV_START + k) = .ok (m.readByte (envAddr + k)))
    (hArgc : m.HasBytes envAddr (toBytes 8 argc)) (hNul : ∀ text ∈ texts, NulFree text)
    (hIndex : index + texts.length = argc)
    (hSize : 8 + 8 * argc + offset + stringsSize texts ≤ PAGE_SIZE)
    (hLayout : Layout m (envAddr + 8) (envAddr + 8 + 8 * argc)
      (USER_SPACE_ENV_START + 8 + 8 * argc) texts index offset) :
    Iterates load index texts := by
  have hReads : ∀ {k : Nat} {bytes : List UInt8}, m.HasBytes (envAddr + k) bytes →
      k + bytes.length ≤ PAGE_SIZE → Reads load (USER_SPACE_ENV_START + k) bytes := by
    intro k bytes hBytes hEnd i hi
    rw [Nat.add_assoc, hLoad _ (by omega), ← Nat.add_assoc, hBytes i hi]
  have hCount : argc < 2 ^ 64 := by
    unfold PAGE_SIZE at hSize
    omega
  have hArgc : Reads load ARGC_PTR (toBytes 8 argc) :=
    @hReads 0 _ hArgc (by rw [LittleEndian.length_toBytes]; decide)
  induction texts generalizing index offset with
  | nil =>
    obtain rfl : index = argc := hIndex
    exact .done (argsNext_end hArgc hCount)
  | cons text texts ih =>
    obtain ⟨hText, hPointer, hRest⟩ := hLayout
    simp only [List.length_cons, stringsSize_cons] at hIndex hSize
    refine .next (@argsNext_eq _ _ _ (USER_SPACE_ENV_START + 8 + 8 * argc + offset) _ hArgc hCount
      (by omega) ?_ ?_ (hNul text (by simp)) ?_)
      (ih (fun other hMem => hNul other (by simp [hMem])) (by omega) (by omega) hRest)
    · rw [ARGV_PTR, Nat.add_assoc]
      rw [Nat.add_assoc] at hPointer
      exact hReads hPointer (by rw [LittleEndian.length_toBytes]; omega)
    · rw [Nat.add_assoc, Nat.add_assoc]
      rw [Nat.add_assoc, Nat.add_assoc] at hText
      refine hReads hText ?_
      simp only [List.length_append, List.length_singleton]
      omega
    · unfold USER_SPACE_ENV_START USER_SPACE_START
      unfold PAGE_SIZE at hSize
      omega

/-- An area at a fixed page, mapped as a whole. -/
theorem userAllocMapFull_at {startPage numPages : Nat} {typ : VmaType} {tag : List UInt8}
    {vma : VirtualMemoryArea}
    (h : self.userAllocMapFull profile m (some startPage) numPages typ tag =
      .ok (some vma, self', m₁)) :
    ∃ endPage, Page.add profile startPage numPages = .ok endPage ∧
      self'.pageTables = self.pageTables ∧
      self.pageTables.map profile m ⟨startPage, endPage⟩ .user USER_PAGE_FLAGS = .ok m₁ := by
  obtain ⟨⟨found, self₁⟩, hAlloc, hRest⟩ := bind_ok h
  rcases VirtualAddressSpace.allocAt_cases hAlloc with ⟨rfl, -⟩ | ⟨endPage, hEnd, -, -, hLater, rfl⟩
  · simp at hRest
  obtain ⟨m₂, hMap, hEq⟩ := bind_ok hRest
  obtain ⟨-, rfl, rfl⟩ : _ ∧ self₁ = self' ∧ m₂ = m₁ := by simpa using hEq
  have hTables : self₁.pageTables = self.pageTables := by
    rw [hLater]
    rfl
  exact ⟨endPage, hEnd, hTables, hTables ▸ hMap⟩

theorem envPageCount_pos (args : List String) : 0 < envPageCount args := by
  unfold envPageCount PAGE_SIZE
  dsimp only
  split <;> omega

/-- The environment is one page of the new process with a frame of its own. -/
theorem mapEnvironment_ok (hTree : self.pageTables.IsTree m own)
    (h : mapEnvironment profile self m args = .ok (self', m₁, envAddr)) :
    ∃ own' frame, self'.pageTables.IsTree m₁ own' ∧ own' frame = none ∧
      envAddr = PAGE_SIZE * frame ∧
      self'.pageTables.translate m₁ USER_SPACE_ENV_START = some envAddr := by
  obtain ⟨⟨vma, self₁, m₂⟩, hAlloc, hRest⟩ := bind_ok h
  obtain ⟨area, hArea, hLookup⟩ := bind_ok hRest
  obtain rfl := expectSome_ok hArea
  by_cases hPages : envPageCount args > 1
  case pos =>
    rw [if_pos hPages] at hLookup
    cases hLookup
  rw [if_neg hPages] at hLookup
  obtain ⟨found, hPhys, hFrame⟩ := bind_ok hLookup
  obtain ⟨phys, hFound, hEq⟩ := bind_ok hFrame
  obtain ⟨rfl, rfl, rfl⟩ : self₁ = self' ∧ m₂ = m₁ ∧ phys = envAddr := by simpa using hEq
  obtain rfl := expectSome_ok hFound
  obtain ⟨endPage, hEnd, hTables, hMap⟩ := userAllocMapFull_at hAlloc
  have hOne : envPageCount args = 1 := by
    have hPos := envPageCount_pos args
    omega
  obtain rfl : Page.containingAddress USER_SPACE_ENV_START + 1 = endPage := by
    have hValue : Page.add profile (Page.containingAddress USER_SPACE_ENV_START) 1 =
        .ok (Page.containingAddress USER_SPACE_ENV_START + 1) := by
      cases profile <;> decide +kernel
    rw [hOne, hValue] at hEnd
    exact Except.ok.inj hEnd
  obtain ⟨own', frames, hTree', hBacked⟩ := hTree.map_backed
    (show Page.Valid (Page.containingAddress USER_SPACE_ENV_START) by decide)
    (show Page.Valid (Page.containingAddress USER_SPACE_ENV_START + 1) by decide) hMap
  have hValue : VirtAddr.new (Page.startAddress (Page.containingAddress USER_SPACE_ENV_START)) =
      .ok USER_SPACE_ENV_START := rfl
  unfold VirtualAddressSpace.getPhys at hPhys
  rw [hValue, bind_of_ok, pure_ok_iff, hTables] at hPhys
  have hSame := (hBacked.translate 0 (by decide)).symm.trans hPhys
  rw [hTables]
  exact ⟨own', frames 0, hTree', hBacked.data 0 (by decide), (Option.some.inj hSame).symm, hPhys⟩

theorem envWrites_ok {writes : List (Nat × List UInt8)}
    (h : envWrites envAddr name args = .ok writes) :
    ∃ rest, argWrites (envAddr + 8) (envAddr + 8 + 8 * (args.length + 1))
        (USER_SPACE_ENV_START + 8 + 8 * (args.length + 1)) (name :: args) 0 0 = .ok rest ∧
      writes = (envAddr, toBytes 8 (args.length + 1)) :: rest := by
  obtain ⟨addr, hAddr, h⟩ := bind_ok h
  obtain ⟨argv, hArgv, h⟩ := bind_ok h
  obtain ⟨argvVirt, hArgvVirt, h⟩ := bind_ok h
  obtain ⟨argsBeginVirt, hBeginVirt, h⟩ := bind_ok h
  obtain ⟨rest, hRest, hEq⟩ := bind_ok h
  obtain rfl : envAddr = addr := by
    unfold VirtAddr.new at hAddr
    obtain ⟨-, hAddr⟩ := ite_ok hAddr
    exact Except.ok.inj hAddr
  obtain rfl := VirtAddr.add_ok hArgv
  obtain rfl := VirtAddr.add_ok hArgvVirt
  obtain rfl := VirtAddr.add_ok hBeginVirt
  exact ⟨rest, hRest, (pure_ok hEq).symm⟩

/-- The writes stay inside the page if and only if everything fits into it. -/
theorem envWrites_inside_iff {writes : List (Nat × List UInt8)}
    (h : envWrites envAddr name args = .ok writes) :
    (∀ write ∈ writes, envAddr ≤ write.1 ∧ write.1 + write.2.length ≤ envAddr + PAGE_SIZE) ↔
      environmentSize name args ≤ PAGE_SIZE := by
  obtain ⟨rest, hRest, rfl⟩ := envWrites_ok h
  have hSize : environmentSize name args =
      8 + 8 * (args.length + 1) + stringsSize (name :: args) := rfl
  constructor
  · intro hInside
    obtain ⟨write, hMem, hEnd⟩ := argWrites_last (by simp) hRest
    have hWrite := (hInside write (List.mem_cons_of_mem _ hMem)).2
    omega
  · intro hFits write hMem
    rcases List.mem_cons.mp hMem with rfl | hMem
    · simp only [LittleEndian.length_toBytes]
      omega
    · have hWrite := argWrites_within hRest write hMem
      simp only [List.length_cons] at hWrite
      omega

/-- Whenever `copy_args` returns, it has written to the environment page only
and its arguments arrive if and only if the count, the pointers and the strings
with their zero bytes fit into the page together. -/
theorem copyArgs_delivered_iff (hTree : self.pageTables.IsTree m own)
    (hNul : ∀ text ∈ name :: args, NulFree text)
    (hRun : copyArgs profile self m name args = .ok (self', m')) :
    Delivered profile self m name args self' m' ↔ environmentSize name args ≤ PAGE_SIZE := by
  obtain ⟨⟨self₁, m₁, envAddr⟩, hMap, hRest⟩ := bind_ok hRun
  obtain ⟨writes, hWrites, hEq⟩ := bind_ok hRest
  obtain ⟨rfl, rfl⟩ : self₁ = self' ∧ m₁.writeAll writes = m' := by simpa using hEq
  have hInside := envWrites_inside_iff hWrites
  constructor
  · rintro ⟨⟨m₂, envAddr', writes', hMap', hWrites', hAll⟩, -⟩
    obtain ⟨-, -, rfl⟩ : self₁ = self₁ ∧ m₁ = m₂ ∧ envAddr = envAddr' := by
      simpa [hMap] using hMap'
    obtain rfl : writes = writes' := Except.ok.inj (hWrites.symm.trans hWrites')
    exact hInside.mp hAll
  · intro hFits
    have hAll := hInside.mpr hFits
    refine ⟨⟨m₁, envAddr, writes, hMap, hWrites, hAll⟩, ?_⟩
    obtain ⟨own', frame, hTree', hData, rfl, hEnv⟩ := mapEnvironment_ok hTree hMap
    -- The writes stay in the frame of the page, so that the page tables are untouched.
    have hRead : ∀ table node, own' table = some node → ∀ index,
        (m₁.writeAll writes).read table index = m₁.read table index := by
      intro table node hOwn index
      refine Machine.read_writeAll_other fun write hMem => ?_
      have hNe : table ≠ frame := by
        rintro rfl
        rw [hData] at hOwn
        cases hOwn
      have hWrite := hAll write hMem
      unfold PAGE_SIZE at hWrite ⊢
      omega
    have hLoad : ∀ k < PAGE_SIZE, userLoad self₁ (m₁.writeAll writes) (USER_SPACE_ENV_START + k) =
        .ok ((m₁.writeAll writes).readByte (PAGE_SIZE * frame + k)) := by
      intro k hk
      have hPage := @Paging.IsTree.translate_add _ _ _ hTree'
        (Page.containingAddress USER_SPACE_ENV_START) frame k hEnv hk
      unfold userLoad
      rw [hTree'.translate_of_read_eq (Machine.frames_writeAll _ _) hRead,
        show USER_SPACE_ENV_START = PAGE_SIZE * Page.containingAddress USER_SPACE_ENV_START from rfl,
        hPage]
    obtain ⟨rest, hStrings, rfl⟩ := envWrites_ok hWrites
    have hSize : environmentSize name args =
        8 + 8 * (name :: args).length + 0 + stringsSize (name :: args) := rfl
    have hLayout := argWrites_layout
      (m₁.writeBytes (PAGE_SIZE * frame) (toBytes 8 (args.length + 1))) (by simp) hStrings
    refine iterates_of_layout hLoad ?_ hNul (Nat.zero_add _) (hSize ▸ hFits) hLayout
    refine (Machine.hasBytes_writeBytes m₁ (PAGE_SIZE * frame) (toBytes 8 (args.length + 1))).congr
      fun i hi => ?_
    rw [Machine.writeAll, Machine.readByte_writeAll_outside]
    intro write hMem
    have hWrite := argWrites_within hStrings write hMem
    rw [LittleEndian.length_toBytes] at hi
    omega

end Delivery

/-- Arguments for a process without areas, on new page tables. -/
def newProcessArgs (name : String) (args : List String) :
    Except Panic (Paging × Machine × VirtualAddressSpace × Machine) := do
  let (paging, m) ← Paging.new smallMachine 4
  let (self, m') ← copyArgs .development (.onTables paging) m name args
  return (paging, m, self, m')

theorem newProcessArgs_ok {name : String} {args : List String}
    (h : ((newProcessArgs name args).map fun _ => ()).toOption = some ()) :
    ∃ paging m own self' m', Paging.IsTree m own paging ∧
      copyArgs .development (.onTables paging) m name args = .ok (self', m') := by
  obtain ⟨⟨paging, m, self', m'⟩, hRun, -⟩ := exists_ok_of_toOption h
  obtain ⟨⟨paging₁, m₁⟩, hNew, hRest⟩ := bind_ok hRun
  obtain ⟨⟨self₁, m₂⟩, hCopy, hEq⟩ := bind_ok hRest
  obtain ⟨rfl, rfl, rfl, rfl⟩ : paging₁ = paging ∧ m₁ = m ∧ self₁ = self' ∧ m₂ = m' := by
    simpa using hEq
  obtain ⟨own, hTree⟩ := Paging.new_tree hNew
  exact ⟨paging₁, m₁, own, self₁, m₂, hTree, hCopy⟩

/-- A program with two arguments. -/
theorem copyArgs_delivers_two : ∃ paging m self' m',
    copyArgs .development (.onTables paging) m "ls" ["-l", "dir"] = .ok (self', m') ∧
    Delivered .development (.onTables paging) m "ls" ["-l", "dir"] self' m' := by
  obtain ⟨paging, m, own, self', m', hTree, hRun⟩ := newProcessArgs_ok
    (show ((newProcessArgs "ls" ["-l", "dir"]).map fun _ => ()).toOption = some () by decide +kernel)
  refine ⟨paging, m, self', m', hRun, ?_⟩
  exact (copyArgs_delivered_iff (show (VirtualAddressSpace.onTables paging).pageTables.IsTree m own
    from hTree) (by unfold NulFree; decide +kernel) hRun).mpr (by decide +kernel)

/-- Six hundred empty arguments count as one page of environment, but the
pointers to them and their zero bytes run over its end. -/
theorem copyArgs_overruns : ∃ paging m own self' m', Paging.IsTree m own paging ∧
    copyArgs .development (.onTables paging) m "ls" (List.replicate 600 "") = .ok (self', m') ∧
    (∀ text ∈ "ls" :: List.replicate 600 "", NulFree text) ∧
    ¬Delivered .development (.onTables paging) m "ls" (List.replicate 600 "") self' m' := by
  obtain ⟨paging, m, own, self', m', hTree, hRun⟩ := newProcessArgs_ok
    (show ((newProcessArgs "ls" (List.replicate 600 "")).map fun _ => ()).toOption = some () by
      decide +kernel)
  refine ⟨paging, m, own, self', m', hTree, hRun, by unfold NulFree; decide +kernel, ?_⟩
  rintro ⟨⟨m₁, envAddr, writes, -, hWrites, hAll⟩, -⟩
  have hFits := (envWrites_inside_iff hWrites).mp hAll
  exact absurd hFits (by decide +kernel)

end D3OS.Process
