import Mathlib.Algebra.Group.Nat.Defs

/-! The entry of system calls. `syscall_handler` and `syscall_disp` are naked
functions; they are modelled as sequences of the machine instructions that
they consist of, over the registers, flags and memory that these use. -/
namespace D3OS.Syscall

inductive Register where
  | rax | rbx | rcx | rdx | rdi | rsi | rsp | rbp
  | r8 | r9 | r10 | r11 | r12 | r13 | r14 | r15
  deriving DecidableEq, Repr

inductive Label where
  | syscallAbort
  | syscallDisp
  deriving DecidableEq, Repr

inductive Instruction where
  | swapgs
  /-- `mov gs:[offset], source` -/
  | storeGs (offset : BitVec 64) (source : Register)
  /-- `mov target, gs:[offset]` -/
  | loadGs (target : Register) (offset : BitVec 64)
  /-- `mov target, [base]` -/
  | load (target base : Register)
  /-- `push gs:[offset]` -/
  | pushGs (offset : BitVec 64)
  | push (source : Register)
  | pop (target : Register)
  | mov (target source : Register)
  | sti
  | cli
  | cmp (left : Register) (right : BitVec 64)
  | jge (target : Label)
  | call (target : Label)
  /-- `call [SYSCALL_TABLE + 8 * index]` -/
  | callTable (index : Register)
  | ret
  | sysretq
  deriving DecidableEq, Repr

structure Cpu where
  registers : Register → BitVec 64
  gsBase : BitVec 64
  kernelGsBase : BitVec 64
  /-- The quadword at an address. -/
  memory : BitVec 64 → BitVec 64
  signFlag : Bool
  overflowFlag : Bool
  interruptFlag : Bool

namespace Cpu

def set (cpu : Cpu) (register : Register) (value : BitVec 64) : Cpu :=
  { cpu with registers := fun r => if r = register then value else cpu.registers r }

def store (cpu : Cpu) (address value : BitVec 64) : Cpu :=
  { cpu with memory := fun a => if a = address then value else cpu.memory a }

def pushValue (cpu : Cpu) (value : BitVec 64) : Cpu :=
  (cpu.set .rsp (cpu.registers .rsp - 8)).store (cpu.registers .rsp - 8) value

/-- The effect of an instruction that the next one in memory follows. The
flags of `cmp` are those of the subtraction. -/
def step (cpu : Cpu) : Instruction → Cpu
  | .swapgs => { cpu with gsBase := cpu.kernelGsBase, kernelGsBase := cpu.gsBase }
  | .storeGs offset source => cpu.store (cpu.gsBase + offset) (cpu.registers source)
  | .loadGs target offset => cpu.set target (cpu.memory (cpu.gsBase + offset))
  | .load target base => cpu.set target (cpu.memory (cpu.registers base))
  | .pushGs offset => cpu.pushValue (cpu.memory (cpu.gsBase + offset))
  | .push source => cpu.pushValue (cpu.registers source)
  -- `pop rsp` ends with the value from memory in `rsp`.
  | .pop target =>
    (cpu.set .rsp (cpu.registers .rsp + 8)).set target (cpu.memory (cpu.registers .rsp))
  | .mov target source => cpu.set target (cpu.registers source)
  | .sti => { cpu with interruptFlag := true }
  | .cli => { cpu with interruptFlag := false }
  | .cmp left right =>
    { cpu with
      signFlag := (cpu.registers left - right).msb
      overflowFlag := (cpu.registers left).ssubOverflow right }
  | .jge _ | .call _ | .callTable _ | .ret | .sysretq => cpu

end Cpu

/-- How a sequence of instructions is left. -/
inductive Exit where
  | jump (target : Label)
  | call (target : Label)
  /-- A call of the code whose address is stored at `address`. -/
  | callMemory (address : BitVec 64)
  | ret
  | sysretq
  | fallThrough
  deriving DecidableEq, Repr

/-- Runs instructions up to the first one that leaves the sequence. `table`
is the address of `SYSCALL_TABLE`. -/
def exec (table : BitVec 64) (cpu : Cpu) : List Instruction → Exit × Cpu
  | [] => (.fallThrough, cpu)
  | .jge target :: rest =>
    if cpu.signFlag = cpu.overflowFlag then (.jump target, cpu) else exec table cpu rest
  | .call target :: _ => (.call target, cpu)
  | .callTable index :: _ => (.callMemory (table + 8 * cpu.registers index), cpu)
  | .ret :: _ => (.ret, cpu)
  | .sysretq :: _ => (.sysretq, cpu)
  | instruction :: rest => exec table (cpu.step instruction) rest

def CORE_LOCAL_STORAGE_TSS_RSP0_PTR_INDEX : BitVec 64 := 0x00
def CORE_LOCAL_STORAGE_USER_RSP_INDEX : BitVec 64 := 0x08

/-- `SystemCall::LastEntryMarker as usize`. -/
def NUM_SYSCALLS : Nat := 25

/-- Switches to the kernel stack and saves the registers of the caller. -/
def saveContext : List Instruction :=
  [.swapgs,
    .storeGs CORE_LOCAL_STORAGE_USER_RSP_INDEX .rsp,
    .loadGs .rsp CORE_LOCAL_STORAGE_TSS_RSP0_PTR_INDEX,
    .load .rsp .rsp,
    .pushGs CORE_LOCAL_STORAGE_USER_RSP_INDEX,
    .swapgs,
    .push .rbx, .push .rcx, .push .rdx, .push .rdi, .push .rsi, .push .r8, .push .r9, .push .r10,
    .push .r11, .push .r12, .push .r13, .push .r14, .push .r15,
    .mov .rcx .r10,
    .sti]

def restoreContext : List Instruction :=
  [.pop .r15, .pop .r14, .pop .r13, .pop .r12, .pop .r11, .pop .r10, .pop .r9, .pop .r8,
    .pop .rsi, .pop .rdi, .pop .rdx, .pop .rcx, .pop .rbx,
    .cli,
    .pop .rsp]

def syscallHandler : List Instruction :=
  saveContext ++
    [.cmp .rax (BitVec.ofNat 64 NUM_SYSCALLS), .jge .syscallAbort, .call .syscallDisp] ++
    restoreContext ++ [.sysretq]

def syscallDisp : List Instruction := [.callTable .rax, .ret]

/-- Where a system call leads to. -/
inductive Dispatch where
  | aborted
  /-- The code whose address is stored at `address` is called. -/
  | called (address : BitVec 64)
  | other
  deriving DecidableEq, Repr

/-- From the `syscall` instruction to the first function of the kernel. The
return address that `call` pushes is read only after the call. -/
def dispatch (table : BitVec 64) (cpu : Cpu) : Dispatch :=
  match exec table cpu syscallHandler with
  | (.jump .syscallAbort, _) => .aborted
  | (.call .syscallDisp, cpu) =>
    match exec table cpu syscallDisp with
    | (.callMemory address, _) => .called address
    | _ => .other
  | _ => .other

/-- The instruction is followed by the next one, and leaves `rax` alone. -/
def Instruction.keepsRax : Instruction → Bool
  | .loadGs target _ | .load target _ | .pop target | .mov target _ => target ≠ .rax
  | .jge _ | .call _ | .callTable _ | .ret | .sysretq => false
  | _ => true

@[simp] theorem Cpu.set_registers (cpu : Cpu) (register other : Register) (value : BitVec 64) :
    (cpu.set register value).registers other =
      if other = register then value else cpu.registers other := rfl

@[simp] theorem Cpu.pushValue_rax (cpu : Cpu) (value : BitVec 64) :
    (cpu.pushValue value).registers .rax = cpu.registers .rax := rfl

theorem Cpu.step_rax {cpu : Cpu} {instruction : Instruction} (h : instruction.keepsRax = true) :
    (cpu.step instruction).registers .rax = cpu.registers .rax := by
  have hNe : ∀ target : Register, decide (target ≠ .rax) = true → Register.rax ≠ target :=
    fun target hTarget => Ne.symm (of_decide_eq_true hTarget)
  cases instruction with
  | loadGs target offset => simp [Cpu.step, hNe target h]
  | load target base => simp [Cpu.step, hNe target h]
  | pop target => simp [Cpu.step, hNe target h]
  | mov target source => simp [Cpu.step, hNe target h]
  | push source => exact cpu.pushValue_rax _
  | pushGs offset => exact cpu.pushValue_rax _
  | _ => rfl

theorem exec_cons {table : BitVec 64} {cpu : Cpu} {instruction : Instruction}
    (h : instruction.keepsRax = true) (rest : List Instruction) :
    exec table cpu (instruction :: rest) = exec table (cpu.step instruction) rest := by
  cases instruction <;> first | rfl | cases h

/-- A sequence that leaves `rax` alone runs through. -/
theorem exec_append {table : BitVec 64} {first rest : List Instruction}
    (h : ∀ instruction ∈ first, instruction.keepsRax = true) : ∀ cpu : Cpu,
      ∃ cpu', exec table cpu (first ++ rest) = exec table cpu' rest ∧
        cpu'.registers .rax = cpu.registers .rax := by
  induction first with
  | nil => exact fun cpu => ⟨cpu, rfl, rfl⟩
  | cons instruction others ih =>
    intro cpu
    have hKeeps := h instruction List.mem_cons_self
    obtain ⟨cpu', hExec, hRax⟩ :=
      ih (fun i hMem => h i (List.mem_cons_of_mem _ hMem)) (cpu.step instruction)
    refine ⟨cpu', ?_, hRax.trans (Cpu.step_rax hKeeps)⟩
    rw [List.cons_append, exec_cons hKeeps, hExec]

/-- `jge` after `cmp` compares as signed integers. -/
theorem msb_sub_eq_ssubOverflow_iff (x y : BitVec 64) :
    (x - y).msb = x.ssubOverflow y ↔ y.toInt ≤ x.toInt := by
  have hX := x.toInt_lt
  have hX' := x.le_toInt
  have hY := y.toInt_lt
  have hY' := y.le_toInt
  rw [BitVec.msb_eq_toInt, BitVec.ssubOverflow, BitVec.toInt_sub, Int.bmod_def, Bool.eq_iff_iff]
  simp only [decide_eq_true_eq, Bool.or_eq_true]
  omega

theorem dispatch_eq (table : BitVec 64) (cpu : Cpu) :
    dispatch table cpu =
      if (NUM_SYSCALLS : Int) ≤ (cpu.registers .rax).toInt then .aborted
      else .called (table + 8 * cpu.registers .rax) := by
  obtain ⟨saved, hExec, hRax⟩ : ∃ saved, exec table cpu syscallHandler =
      exec table saved (.cmp .rax (BitVec.ofNat 64 NUM_SYSCALLS) :: .jge .syscallAbort ::
        .call .syscallDisp :: (restoreContext ++ [.sysretq])) ∧
      saved.registers .rax = cpu.registers .rax :=
    exec_append (by decide : ∀ instruction ∈ saveContext, instruction.keepsRax = true) cpu
  let compared := saved.step (.cmp .rax (BitVec.ofNat 64 NUM_SYSCALLS))
  have hSigned : compared.signFlag = compared.overflowFlag ↔
      (NUM_SYSCALLS : Int) ≤ (cpu.registers .rax).toInt := by
    rw [← hRax]
    exact msb_sub_eq_ssubOverflow_iff _ _
  rw [dispatch, hExec, exec_cons rfl, exec]
  by_cases hAbort : (NUM_SYSCALLS : Int) ≤ (cpu.registers .rax).toInt
  · rw [if_pos hAbort, if_pos (hSigned.mpr hAbort)]
  · rw [if_neg hAbort, if_neg (mt hSigned.mp hAbort), ← hRax]
    rfl

/-- An entry of the table has this index exactly if the low bits of `rax`
are the index: scaling by eight drops the three high bits. -/
theorem scaled_eq_iff (table rax : BitVec 64) {index : Nat} (hIndex : index < 2 ^ 61) :
    table + 8 * rax = table + 8 * BitVec.ofNat 64 index ↔ rax.toNat % 2 ^ 61 = index := by
  rw [BitVec.add_right_inj, BitVec.toNat_eq, BitVec.toNat_mul, BitVec.toNat_mul,
    BitVec.toNat_ofNat, show (8 : BitVec 64).toNat = 8 from rfl]
  omega

/-- A system call reaches the abort or an entry of the table exactly if `rax`
is not negative, or its low 61 bits are the number of a system call. -/
theorem dispatch_in_table_iff (table : BitVec 64) (cpu : Cpu) :
    (dispatch table cpu = .aborted ∨ ∃ index < NUM_SYSCALLS,
        dispatch table cpu = .called (table + 8 * BitVec.ofNat 64 index)) ↔
      ((cpu.registers .rax).msb = false ∨
        (cpu.registers .rax).toNat % 2 ^ 61 < NUM_SYSCALLS) := by
  have hMsb := BitVec.msb_eq_toInt (x := cpu.registers .rax)
  rw [dispatch_eq]
  by_cases hAbort : (NUM_SYSCALLS : Int) ≤ (cpu.registers .rax).toInt
  · grind
  · have hEntry : ∀ index < NUM_SYSCALLS,
        table + 8 * cpu.registers .rax = table + 8 * BitVec.ofNat 64 index ↔
          (cpu.registers .rax).toNat % 2 ^ 61 = index := fun index hIndex =>
      scaled_eq_iff _ _ (Nat.lt_trans hIndex (by decide))
    rw [if_neg hAbort]
    constructor
    · grind
    · grind

/-- A caller that has set every bit of `rax`. -/
def negativeCall : Cpu where
  registers _ := BitVec.allOnes 64
  gsBase := 0
  kernelGsBase := 0
  memory _ := 0
  signFlag := false
  overflowFlag := false
  interruptFlag := false

/-- The signed comparison lets a negative number pass, and what is stored
before the table is called. -/
theorem dispatch_before_table :
    dispatch 0x200000 negativeCall = .called 0x1ffff8 ∧
      ∀ index < NUM_SYSCALLS, (0x1ffff8 : BitVec 64) ≠ 0x200000 + 8 * BitVec.ofNat 64 index := by
  refine ⟨?_, by decide⟩
  rw [dispatch_eq, if_neg (by decide)]
  rfl

end D3OS.Syscall
