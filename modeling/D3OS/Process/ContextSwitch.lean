import D3OS.Library.StackWords
import D3OS.Syscall.Dispatch

/-! The machine code of a context switch. `thread_switch` and
`thread_kernel_start` are naked functions; they are sequences of instructions
over registers and memory. `prepare_kernel_stack` writes by hand the frame that
they pop. Memory is a function from the address of a quadword to its value;
the quadwords used do not overlap. -/
namespace D3OS.Process

open StackWords
open Syscall (Register CORE_LOCAL_STORAGE_TSS_RSP0_PTR_INDEX)

structure Cpu where
  registers : Register → Nat
  rip : Nat
  flags : Nat
  cr3 : Nat
  gsBase : Nat
  kernelGsBase : Nat
  memory : Nat → Nat

/-- The instructions of the two functions. -/
inductive SwitchInstruction where
  | pushf
  | popf
  | push (source : Register)
  | pop (target : Register)
  /-- `mov [base], source` -/
  | store (base source : Register)
  | mov (target source : Register)
  /-- `mov cr3, source` -/
  | movCr3 (source : Register)
  /-- `mov target, gs:[offset]` -/
  | loadGs (target : Register) (offset : Nat)
  | swapgs
  | callUnlockScheduler
  | ret
  deriving DecidableEq, Repr

namespace Cpu

def rsp (cpu : Cpu) : Nat := cpu.registers .rsp

def set (cpu : Cpu) (register : Register) (value : Nat) : Cpu :=
  { cpu with registers := Function.update cpu.registers register value }

def store (cpu : Cpu) (address value : Nat) : Cpu :=
  { cpu with memory := Function.update cpu.memory address value }

def pushValue (cpu : Cpu) (value : Nat) : Cpu :=
  (cpu.set .rsp (cpu.rsp - 8)).store (cpu.rsp - 8) value

/-- The effect of one instruction. `unlock` is the whole call of
`unlock_scheduler`, from the call instruction to its return. -/
def step (unlock : Cpu → Cpu) (cpu : Cpu) : SwitchInstruction → Cpu
  | .pushf => cpu.pushValue cpu.flags
  | .popf => { cpu.set .rsp (cpu.rsp + 8) with flags := cpu.memory cpu.rsp }
  | .push source => cpu.pushValue (cpu.registers source)
  | .pop target => (cpu.set .rsp (cpu.rsp + 8)).set target (cpu.memory cpu.rsp)
  | .store base source => cpu.store (cpu.registers base) (cpu.registers source)
  | .mov target source => cpu.set target (cpu.registers source)
  | .movCr3 source => { cpu with cr3 := cpu.registers source }
  | .loadGs target offset => cpu.set target (cpu.memory (cpu.gsBase + offset))
  | .swapgs => { cpu with gsBase := cpu.kernelGsBase, kernelGsBase := cpu.gsBase }
  | .callUnlockScheduler => unlock cpu
  | .ret => { cpu.set .rsp (cpu.rsp + 8) with rip := cpu.memory cpu.rsp }

def exec (unlock : Cpu → Cpu) (cpu : Cpu) (code : List SwitchInstruction) : Cpu :=
  code.foldl (step unlock) cpu

end Cpu

/-- The first part of `thread_switch`: save the registers of the current thread. -/
def saveRegisters : List SwitchInstruction :=
  [.pushf, .push .r8, .push .r9, .push .r10, .push .r11, .push .r12, .push .r13, .push .r14,
    .push .r15, .push .rax, .push .rbx, .push .rcx, .push .rdx, .push .rsi, .push .rdi, .push .rbp]

/-- Save the stack pointer, set `rsp0` in the TSS, and change to the address
space and the stack of the next thread. -/
def changeStack : List SwitchInstruction :=
  [.store .rdi .rsp,
    .swapgs,
    .loadGs .rax CORE_LOCAL_STORAGE_TSS_RSP0_PTR_INDEX.toNat,
    .store .rax .rdx,
    .swapgs,
    .movCr3 .rcx,
    .mov .rsp .rsi]

/-- The last part of both functions: load the registers of the next thread. -/
def loadRegisters : List SwitchInstruction :=
  [.pop .rbp, .pop .rdi, .pop .rsi, .pop .rdx, .pop .rcx, .pop .rbx, .pop .rax, .pop .r15,
    .pop .r14, .pop .r13, .pop .r12, .pop .r11, .pop .r10, .pop .r9, .pop .r8, .popf,
    .callUnlockScheduler, .ret]

def threadSwitch : List SwitchInstruction := saveRegisters ++ changeStack ++ loadRegisters

def threadKernelStart : List SwitchInstruction := .mov .rsp .rdi :: loadRegisters

/-- The registers in the order in which they are popped. -/
def restored : List Register :=
  [.rbp, .rdi, .rsi, .rdx, .rcx, .rbx, .rax, .r15, .r14, .r13, .r12, .r11, .r10, .r9, .r8]

/-- What a thread finds again: the state at its call of `thread_switch`, with
`rsp` as before the call instruction. -/
structure SwitchContext where
  registers : Register → Nat
  rsp : Nat
  flags : Nat
  returnAddress : Nat

/-- The words on the stack of a thread that is not running, lowest first. -/
def SwitchContext.frame (context : SwitchContext) : List Nat :=
  restored.map context.registers ++ [context.flags, context.returnAddress]

/-- The state of the current thread on entry to `thread_switch`. -/
def Cpu.context (cpu : Cpu) : SwitchContext :=
  ⟨cpu.registers, cpu.rsp + 8, cpu.flags, cpu.memory cpu.rsp⟩

namespace Cpu

variable {unlock : Cpu → Cpu}

variable (cpu : Cpu)

theorem exec_cons (instruction : SwitchInstruction) (code : List SwitchInstruction) :
    cpu.exec unlock (instruction :: code) = (cpu.step unlock instruction).exec unlock code := rfl

theorem exec_append (first second : List SwitchInstruction) :
    cpu.exec unlock (first ++ second) = (cpu.exec unlock first).exec unlock second :=
  List.foldl_append

/-- Moving the stack pointer leaves the other registers alone. -/
theorem map_update_rsp {registers : List Register} (h : Register.rsp ∉ registers)
    (values : Register → Nat) (rsp : Nat) :
    registers.map (Function.update values .rsp rsp) = registers.map values := by
  apply List.map_congr_left
  intro other hOther
  have hNe : other ≠ .rsp := fun hEq => h (hEq ▸ hOther)
  exact Function.update_of_ne hNe _ _

/-- Pushing registers stores their words and changes `rsp` only. -/
theorem exec_pushes {registers : List Register} (h : Register.rsp ∉ registers) :
    cpu.exec unlock (registers.map .push) =
      { cpu.set .rsp (cpu.rsp - 8 * registers.length) with
        memory := pushWords cpu.memory cpu.rsp (registers.map cpu.registers) } := by
  induction registers generalizing cpu with
  | nil => simp [exec, set, rsp, pushWords]
  | cons register rest ih =>
    obtain ⟨hRegister, hRest⟩ := not_or.mp (mt List.mem_cons.mpr h)
    rw [List.map_cons, exec_cons, ih _ hRest]
    simp only [step, pushValue, set, store, rsp, Function.update_self, Function.update_idem, pushWords,
      List.map_cons, List.length_cons, mk.injEq, true_and]
    rw [map_update_rsp hRest, Nat.sub_sub, Nat.mul_succ, Nat.add_comm]
    exact ⟨rfl, rfl⟩

/-- Popping registers from where their values lie sets them. -/
theorem exec_pops {registers : List Register} {values : Register → Nat}
    (h : Register.rsp ∉ registers) (hWords : WordsAt cpu.memory cpu.rsp (registers.map values)) :
    cpu.exec unlock (registers.map .pop) =
      { cpu with registers := fun register =>
          if register = .rsp then cpu.rsp + 8 * registers.length
          else if register ∈ registers then values register else cpu.registers register } := by
  induction registers generalizing cpu with
  | nil =>
    have hSame : (fun register => if register = Register.rsp then cpu.rsp else
        cpu.registers register) = cpu.registers := by
      funext register
      split
      · rename_i hEq
        rw [hEq, rsp]
      · rfl
    simp [exec, hSame]
  | cons register rest ih =>
    obtain ⟨hRegister, hRest⟩ := not_or.mp (mt List.mem_cons.mpr h)
    obtain ⟨hWord, hWords⟩ := hWords
    have hRsp : (cpu.step unlock (.pop register)).rsp = cpu.rsp + 8 := by
      simp [step, set, rsp, Function.update_of_ne hRegister]
    rw [List.map_cons, exec_cons, ih _ hRest (by rw [hRsp]; exact hWords), hRsp]
    simp only [step, set, mk.injEq, and_true]
    funext other
    by_cases hOther : other = .rsp
    · rw [if_pos hOther, if_pos hOther, List.length_cons]
      omega
    · grind

/-- The end of both functions, on a stack with the frame of a context: the
registers are those of the context when `unlock_scheduler` is called. -/
theorem exec_loadRegisters {context : SwitchContext}
    (hWords : WordsAt cpu.memory cpu.rsp context.frame) :
    cpu.exec unlock loadRegisters =
      (unlock { cpu with
        registers := Function.update context.registers .rsp (cpu.rsp + 128)
        flags := context.flags }).step unlock .ret := by
  obtain ⟨hRegisters, hFlags, -⟩ := (wordsAt_append _ _).mp hWords
  have hCode : loadRegisters = restored.map .pop ++ [.popf, .callUnlockScheduler, .ret] := rfl
  have hAll : ∀ register, register ≠ Register.rsp → register ∈ restored := by
    intro register hNe
    cases register <;> first | exact absurd rfl hNe | decide
  have hFinal : (fun register => if register = Register.rsp then cpu.rsp + 8 * restored.length
        else if register ∈ restored then context.registers register else cpu.registers register) =
      Function.update context.registers .rsp (cpu.rsp + 120) := by
    funext register
    by_cases hEq : register = .rsp
    · rw [if_pos hEq, hEq, Function.update_self]
      rfl
    · rw [if_neg hEq, if_pos (hAll register hEq), Function.update_of_ne hEq]
  rw [hCode, exec_append, exec_pops cpu (by decide) hRegisters, hFinal]
  have hPopf : ({ cpu with
        registers := Function.update context.registers .rsp (cpu.rsp + 120) } : Cpu).step unlock .popf =
      { cpu with
        registers := Function.update context.registers .rsp (cpu.rsp + 128)
        flags := context.flags } := by
    have hTop : cpu.memory (cpu.rsp + 120) = context.flags := hFlags
    simp only [rsp] at hTop
    simp [step, set, rsp, hTop]
  exact congrArg (fun popped => (unlock popped).step unlock .ret) hPopf

/-- The first part of `thread_switch` puts the frame of the caller on its
stack; the word above it is the return address of the call. -/
theorem exec_saveRegisters :
    cpu.exec unlock saveRegisters =
      { cpu.set .rsp (cpu.rsp - 128) with
        memory := pushWords cpu.memory cpu.rsp
          (cpu.flags :: restored.reverse.map cpu.registers) } := by
  have hCode : saveRegisters = .pushf :: restored.reverse.map .push := rfl
  have hRest : Register.rsp ∉ restored.reverse := by decide
  have hLength : 8 * restored.reverse.length = 120 := rfl
  rw [hCode, exec_cons, exec_pushes _ hRest, hLength]
  simp only [step, pushValue, set, store, rsp, Function.update_self, Function.update_idem, pushWords,
    mk.injEq, true_and]
  rw [map_update_rsp hRest, Nat.sub_sub]
  exact ⟨rfl, rfl⟩

/-- Memory when `thread_switch` changes the stack: the frame is pushed, the
stack pointer saved, and the end of the next stack stored in the TSS. -/
def switchMemory : Nat → Nat :=
  let pushed := pushWords cpu.memory cpu.rsp (cpu.flags :: restored.reverse.map cpu.registers)
  let saved := Function.update pushed (cpu.registers .rdi) (cpu.rsp - 128)
  Function.update saved (saved cpu.kernelGsBase) (cpu.registers .rdx)

/-- The state at the call of `unlock_scheduler`, on the stack of the thread
with this context. -/
def resumed (context : SwitchContext) : Cpu :=
  { cpu with
    registers := Function.update context.registers .rsp (cpu.rsp + 128)
    flags := context.flags }

@[simp] theorem resumed_rsp (context : SwitchContext) :
    (cpu.resumed context).rsp = cpu.rsp + 128 := by
  simp [resumed, rsp]

@[simp] theorem step_ret_rsp : (cpu.step unlock .ret).rsp = cpu.rsp + 8 := by
  simp [step, set, rsp]

@[simp] theorem step_ret_rip : (cpu.step unlock .ret).rip = cpu.memory cpu.rsp := rfl

@[simp] theorem set_rsp (value : Nat) : (cpu.set .rsp value).rsp = value := by
  simp [set, rsp]

@[simp] theorem set_self (register : Register) (value : Nat) :
    (cpu.set register value).registers register = value := by
  simp [set]

theorem exec_threadSwitch {context : SwitchContext}
    (hWords : WordsAt cpu.switchMemory (cpu.registers .rsi) context.frame) :
    cpu.exec unlock threadSwitch =
      (unlock (resumed { cpu.set .rsp (cpu.registers .rsi) with
        cr3 := cpu.registers .rcx
        memory := cpu.switchMemory } context)).step unlock .ret := by
  have hChange : (cpu.exec unlock saveRegisters).exec unlock changeStack =
      { (cpu.set .rax (Function.update (pushWords cpu.memory cpu.rsp
          (cpu.flags :: restored.reverse.map cpu.registers)) (cpu.registers .rdi) (cpu.rsp - 128)
          cpu.kernelGsBase)).set .rsp (cpu.registers .rsi) with
        cr3 := cpu.registers .rcx
        memory := cpu.switchMemory } := by
    rw [exec_saveRegisters]
    simp only [exec, set, rsp, List.map_reverse, changeStack, CORE_LOCAL_STORAGE_TSS_RSP0_PTR_INDEX,
      BitVec.ofNat_eq_ofNat, BitVec.toNat_ofNat, Nat.reducePow, Nat.zero_mod, List.foldl_cons, step,
      store, ne_eq, reduceCtorEq, not_false_eq_true, Function.update_of_ne, Function.update_self,
      Nat.add_zero, List.foldl_nil, switchMemory, mk.injEq, and_self, and_true]
    rw [Function.update_comm (by decide : Register.rsp ≠ .rax), Function.update_idem]
  rw [threadSwitch, exec_append, exec_append, hChange, exec_loadRegisters _ hWords]
  rfl

theorem exec_threadKernelStart {context : SwitchContext}
    (hWords : WordsAt cpu.memory (cpu.registers .rdi) context.frame) :
    cpu.exec unlock threadKernelStart =
      (unlock (resumed (cpu.set .rsp (cpu.registers .rdi)) context)).step unlock .ret := by
  rw [threadKernelStart, exec_cons, step, exec_loadRegisters _ hWords]
  rfl

end Cpu

end D3OS.Process
