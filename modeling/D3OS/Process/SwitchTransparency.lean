import D3OS.Process.ContextSwitch

/-! Runs of context switches. Threads with stacks of their own are created,
the first one is started, and then the running thread works and switches to
another one, in any order. Between two switches a thread may do anything that
leaves the stacks and saved stack pointers of the other threads alone. -/
namespace D3OS.Process

open StackWords
open Syscall (Register)

/-- The memory of a kernel stack, in words of eight bytes. -/
structure KernelStack where
  base : Nat
  capacity : Nat
  large : 18 ≤ capacity

variable {address : Nat} {cpu : Cpu} {unlock : Cpu → Cpu}

namespace KernelStack

/-- `kernel_stack_addr`. -/
def stop (stack : KernelStack) : Nat := stack.base + 8 * stack.capacity

def Contains (stack : KernelStack) (address : Nat) : Prop :=
  stack.base ≤ address ∧ address < stack.stop

/-- The quadword at this address is no part of the stack. -/
def Avoids (stack : KernelStack) (address : Nat) : Prop :=
  address + 8 ≤ stack.base ∨ stack.stop ≤ address

instance (stack : KernelStack) (address : Nat) : Decidable (stack.Avoids address) :=
  inferInstanceAs (Decidable (_ ∨ _))

theorem Avoids.not_contains {stack : KernelStack} (h : stack.Avoids address) :
    ¬ stack.Contains address := by
  unfold Avoids at h
  unfold Contains
  omega

end KernelStack

/-- The quadwords at the two addresses do not overlap. -/
def Apart (first second : Nat) : Prop := first + 8 ≤ second ∨ second + 8 ≤ first

instance (first second : Nat) : Decidable (Apart first second) :=
  inferInstanceAs (Decidable (_ ∨ _))

theorem Apart.ne {first second : Nat} (h : Apart first second) : first ≠ second := by
  unfold Apart at h
  omega

/-- Where the threads and the words that a switch uses lie. -/
structure StackLayout (Thread : Type*) where
  stack : Thread → KernelStack
  /-- The address of `old_rsp0`. -/
  slot : Thread → Nat
  pageTables : Thread → Nat
  /-- The address of `kickoff_kernel_thread`. -/
  kickoff : Nat
  /-- The address of the core local storage. -/
  coreLocal : Nat
  /-- The address of `rsp0` in the TSS. -/
  tssRsp0 : Nat
  disjoint : ∀ i j, i ≠ j → (stack i).stop ≤ (stack j).base ∨ (stack j).stop ≤ (stack i).base
  slots : ∀ i j, i ≠ j → Apart (slot i) (slot j)
  avoids_slot : ∀ i j, (stack i).Avoids (slot j)
  avoids_coreLocal : ∀ i, (stack i).Avoids coreLocal
  avoids_tssRsp0 : ∀ i, (stack i).Avoids tssRsp0
  coreLocal_slot : ∀ i, Apart coreLocal (slot i)
  tssRsp0_slot : ∀ i, Apart tssRsp0 (slot i)
  coreLocal_tssRsp0 : Apart coreLocal tssRsp0

/-- Stores at the given addresses, one after the other. -/
def storeAll (memory : Nat → Nat) (stores : List (Nat × Nat)) : Nat → Nat :=
  stores.foldl (fun memory store => Function.update memory store.1 store.2) memory

theorem storeAll_of_ne {memory : Nat → Nat} {stores : List (Nat × Nat)}
    (h : ∀ store ∈ stores, address ≠ store.1) :
    storeAll memory stores address = memory address := by
  induction stores generalizing memory with
  | nil => rfl
  | cons store rest ih =>
    exact (ih fun other hOther => h other (List.mem_cons_of_mem _ hOther)).trans
      (Function.update_of_ne (h store List.mem_cons_self) _ _)

/-- A thread that is running, or `none` while the system boots. `created` are
the threads whose stacks have been prepared. `suspended` records the last call
of `thread_switch` of each thread. -/
structure Machine (Thread : Type*) where
  cpu : Cpu
  running : Option Thread
  created : List Thread
  suspended : Thread → Option SwitchContext

namespace StackLayout

variable {Thread : Type*} (layout : StackLayout Thread)

/-- The words that `prepare_kernel_stack` writes, counted from the end of the stack. -/
def preparedEntries : List (Nat × Nat) :=
  [(1, 0x00DEAD00), -- dummy return address
    (2, layout.kickoff),
    (3, 0x202), -- rflags (interrupts enabled)
    (4, 0), (5, 0), (6, 0), (7, 0), (8, 0), (9, 0), (10, 0), (11, 0), -- r8 to r15
    (12, 0), (13, 0), (14, 0), (15, 0), -- rax, rbx, rcx, rdx
    (16, 0), (17, 0), (18, 0)] -- rsi, rdi, rbp

def prepareKernelStack (memory : Nat → Nat) (thread : Thread) : Nat → Nat :=
  let stack := layout.stack thread
  let zeroed := storeAll memory ((List.range stack.capacity).map fun k => (stack.base + 8 * k, 0))
  let written := storeAll zeroed (layout.preparedEntries.map fun entry =>
    (stack.base + 8 * (stack.capacity - entry.1), entry.2))
  Function.update written (layout.slot thread) (stack.base + 8 * (stack.capacity - 18))

/-- What a thread that has not run yet finds: no call, but the prepared frame. -/
def prepared (thread : Thread) : SwitchContext :=
  ⟨fun _ => 0, (layout.stack thread).stop - 8, 0x202, layout.kickoff⟩

/-- The arguments that `Thread::switch` passes to `thread_switch`. -/
def switchArguments (cpu : Cpu) (current next : Thread) : Cpu :=
  (((cpu.set .rdi (layout.slot current)).set .rsi (cpu.memory (layout.slot next))).set .rdx
    (layout.stack next).stop).set .rcx (layout.pageTables next)

/-- What a function that is called on the stack of a thread must leave alone:
the other stacks, its own stack from the caller on, and the words that
switches use. -/
def Kept (thread : Thread) (rsp address : Nat) : Prop :=
  (∃ other, other ≠ thread ∧ (layout.stack other).Contains address) ∨
  ((layout.stack thread).Contains address ∧ rsp ≤ address) ∨
  (∃ other, address = layout.slot other) ∨ address = layout.coreLocal ∨ address = layout.tssRsp0

end StackLayout

/-- The registers that the calling convention preserves, without `rsp`. -/
def calleeSaved : List Register := [.rbx, .rbp, .r12, .r13, .r14, .r15]

/-- The call of a function that follows the calling convention. -/
structure FollowsConvention {Thread : Type*} (layout : StackLayout Thread) (thread : Thread)
    (before after : Cpu) : Prop where
  rsp : after.rsp = before.rsp
  registers : ∀ register ∈ calleeSaved, after.registers register = before.registers register
  cr3 : after.cr3 = before.cr3
  kernelGsBase : after.kernelGsBase = before.kernelGsBase
  interrupts : after.flags.testBit 9 = before.flags.testBit 9
  memory : ∀ address, layout.Kept thread before.rsp address →
    after.memory address = before.memory address

/-- The frame of a thread that is not running lies on its own stack, and its
`old_rsp0` points to it. -/
structure Saved {Thread : Type*} (layout : StackLayout Thread) (memory : Nat → Nat) (thread : Thread)
    (context : SwitchContext) : Prop where
  low : (layout.stack thread).base + 136 ≤ context.rsp
  high : context.rsp ≤ (layout.stack thread).stop
  slot : memory (layout.slot thread) + 136 = context.rsp
  frame : WordsAt memory (memory (layout.slot thread)) context.frame

theorem SwitchContext.frame_length (context : SwitchContext) : 8 * context.frame.length = 136 := rfl

section

variable {Thread : Type*} {layout : StackLayout Thread} {memory later : Nat → Nat} {thread : Thread}
  {context : SwitchContext}

/-- A frame stays when its stack and the stack pointer that leads to it stay. -/
theorem Saved.congr (h : Saved layout memory thread context)
    (hStack : ∀ address, (layout.stack thread).Contains address → later address = memory address)
    (hSlot : later (layout.slot thread) = memory (layout.slot thread)) :
    Saved layout later thread context := by
  have hLow := h.low
  have hHigh := h.high
  have hPointer := h.slot
  refine ⟨hLow, hHigh, by rw [hSlot, hPointer], hSlot ▸ h.frame.congr fun address hFrom hTo => ?_⟩
  rw [context.frame_length] at hTo
  exact hStack address ⟨by omega, by omega⟩

/-- The return address is the highest word of a frame. -/
theorem Saved.returnAddress (h : Saved layout memory thread context) :
    memory (context.rsp - 8) = context.returnAddress := by
  obtain ⟨-, -, hReturn, -⟩ := (wordsAt_append _ _).mp h.frame
  have hAddress : context.rsp - 8 = memory (layout.slot thread) + 128 := by
    have hPointer := h.slot
    omega
  rw [hAddress]
  exact hReturn

theorem StackLayout.preparedEntries_bounds :
    ∀ entry ∈ layout.preparedEntries, 1 ≤ entry.1 ∧ entry.1 ≤ 18 := by
  simp [preparedEntries]

/-- `prepare_kernel_stack` writes to the stack and the saved stack pointer only. -/
theorem StackLayout.prepareKernelStack_of_outside
    (hStack : ¬ (layout.stack thread).Contains address) (hSlot : address ≠ layout.slot thread) :
    layout.prepareKernelStack memory thread address = memory address := by
  have hLarge := (layout.stack thread).large
  unfold KernelStack.Contains KernelStack.stop at hStack
  unfold StackLayout.prepareKernelStack
  rw [Function.update_of_ne hSlot, storeAll_of_ne, storeAll_of_ne]
  · grind
  · intro store hStore
    obtain ⟨entry, hEntry, rfl⟩ := List.mem_map.mp hStore
    have hBounds := layout.preparedEntries_bounds entry hEntry
    dsimp only
    omega

/-- Written from the end of the stack downwards, the words are pushed. -/
theorem StackLayout.storeAll_preparedEntries (stack : KernelStack) :
    storeAll memory (layout.preparedEntries.map fun entry =>
        (stack.base + 8 * (stack.capacity - entry.1), entry.2)) =
      pushWords memory stack.stop (layout.preparedEntries.map Prod.snd) := by
  have hLarge := stack.large
  have hAddress : ∀ entry ∈ layout.preparedEntries,
      stack.base + 8 * (stack.capacity - entry.1) = stack.stop - 8 * entry.1 := by
    intro entry hEntry
    have hBounds := layout.preparedEntries_bounds entry hEntry
    unfold KernelStack.stop
    omega
  have hStores : (layout.preparedEntries.map fun entry =>
      (stack.base + 8 * (stack.capacity - entry.1), entry.2)) =
      layout.preparedEntries.map fun entry => (stack.stop - 8 * entry.1, entry.2) := by
    apply List.map_congr_left
    intro entry hEntry
    rw [hAddress entry hEntry]
  rw [hStores]
  simp only [preparedEntries, List.map_cons, List.map_nil, storeAll, List.foldl_cons, List.foldl_nil,
    pushWords, Nat.sub_sub, Nat.reduceMul, Nat.reduceAdd]

/-- The three layouts match: what `prepare_kernel_stack` writes is a frame. -/
theorem StackLayout.prepareKernelStack_saved :
    Saved layout (layout.prepareKernelStack memory thread) thread (layout.prepared thread) := by
  have hLarge := (layout.stack thread).large
  have hSlot : layout.prepareKernelStack memory thread (layout.slot thread) =
      (layout.stack thread).base + 8 * ((layout.stack thread).capacity - 18) :=
    Function.update_self ..
  have hStop : (layout.stack thread).stop =
      (layout.stack thread).base + 8 * (layout.stack thread).capacity := rfl
  have hRsp : (layout.prepared thread).rsp = (layout.stack thread).stop - 8 := rfl
  refine ⟨by omega, by omega, by omega, ?_⟩
  have hRoom : 8 * (layout.preparedEntries.map Prod.snd).length ≤ (layout.stack thread).stop := by
    simp only [preparedEntries, List.length_map, List.length_cons, List.length_nil]
    omega
  have hPushed := @wordsAt_pushWords _ (storeAll memory
    ((List.range (layout.stack thread).capacity).map fun k => ((layout.stack thread).base + 8 * k, 0)))
    _ _ hRoom
  have hWords := ((wordsAt_append (layout.prepared thread).frame [0x00DEAD00]).mp hPushed).1
  have hBase : (layout.stack thread).stop - 8 * (layout.preparedEntries.map Prod.snd).length =
      (layout.stack thread).base + 8 * ((layout.stack thread).capacity - 18) := by
    simp only [preparedEntries, List.length_map, List.length_cons, List.length_nil]
    omega
  rw [hBase] at hWords
  rw [hSlot]
  refine hWords.congr fun address hFrom hTo => ?_
  rw [SwitchContext.frame_length] at hTo
  have hNe : address ≠ layout.slot thread := by
    intro hEq
    refine (layout.avoids_slot thread thread).not_contains ?_
    rw [← hEq]
    exact ⟨by omega, by omega⟩
  unfold StackLayout.prepareKernelStack
  rw [Function.update_of_ne hNe, storeAll_preparedEntries]

/-- How a thread goes on when `unlock_scheduler` has returned to it. -/
structure Enters {Thread : Type*} (layout : StackLayout Thread) (thread : Thread) (context : SwitchContext)
    (before after : Cpu) : Prop where
  rip : after.rip = context.returnAddress
  rsp : after.rsp = context.rsp
  registers : ∀ register ∈ calleeSaved, after.registers register = context.registers register
  interrupts : after.flags.testBit 9 = context.flags.testBit 9
  cr3 : after.cr3 = before.cr3
  kernelGsBase : after.kernelGsBase = before.kernelGsBase
  memory : ∀ address, layout.Kept thread (context.rsp - 8) address →
    after.memory address = before.memory address

/-- From the frame of a thread, the end of both functions goes on in its context. -/
theorem Saved.enters (h : Saved layout cpu.memory thread context)
    (hRsp : cpu.rsp = cpu.memory (layout.slot thread))
    (hFollows : ∀ cpu, FollowsConvention layout thread cpu (unlock cpu)) :
    Enters layout thread context cpu ((unlock (cpu.resumed context)).step unlock .ret) := by
  have hCall := hFollows (cpu.resumed context)
  have hLow := h.low
  have hHigh := h.high
  have hPointer := h.slot
  have hTop : (cpu.resumed context).rsp = context.rsp - 8 := by
    have hResumed := cpu.resumed_rsp context
    omega
  have hReturned : (unlock (cpu.resumed context)).rsp = context.rsp - 8 := hCall.rsp.trans hTop
  have hMemory := hCall.memory
  rw [hTop] at hMemory
  refine ⟨?_, ?_, ?_, hCall.interrupts, hCall.cr3, hCall.kernelGsBase, hMemory⟩
  · have hOwn : (layout.stack thread).Contains (context.rsp - 8) := ⟨by omega, by omega⟩
    rw [Cpu.step_ret_rip, hReturned, hMemory _ (Or.inr (Or.inl ⟨hOwn, Nat.le_refl _⟩))]
    exact h.returnAddress
  · rw [Cpu.step_ret_rsp, hReturned]
    omega
  · intro register hMem
    have hNe : register ≠ .rsp := by
      intro hEq
      subst hEq
      exact absurd hMem (by decide)
    calc ((unlock (cpu.resumed context)).step unlock .ret).registers register
        = (unlock (cpu.resumed context)).registers register := Function.update_of_ne hNe _ _
      _ = (cpu.resumed context).registers register := hCall.registers register hMem
      _ = context.registers register := Function.update_of_ne hNe _ _

/-- The stack of one thread is outside of that of another. -/
theorem StackLayout.not_contains_of_ne {other : Thread} (h : other ≠ thread)
    (hContains : (layout.stack other).Contains address) :
    ¬ (layout.stack thread).Contains address := by
  have hDisjoint := layout.disjoint other thread h
  unfold KernelStack.Contains at *
  omega

end

namespace Machine

variable {Thread : Type*}

/-- What the running thread, or the boot code, may do between switches. -/
structure Confined (layout : StackLayout Thread) (machine : Machine Thread) (after : Cpu) : Prop where
  kernelGsBase : after.kernelGsBase = machine.cpu.kernelGsBase
  coreLocal : after.memory layout.coreLocal = machine.cpu.memory layout.coreLocal
  otherSlots : ∀ thread ∈ machine.created, machine.running ≠ some thread →
    after.memory (layout.slot thread) = machine.cpu.memory (layout.slot thread)
  otherStacks : ∀ thread ∈ machine.created, machine.running ≠ some thread →
    ∀ address, (layout.stack thread).Contains address →
      after.memory address = machine.cpu.memory address

/-- The stack of the caller has room for a frame below the return address. -/
def Room (layout : StackLayout Thread) (thread : Thread) (cpu : Cpu) : Prop :=
  (layout.stack thread).base + 128 ≤ cpu.rsp ∧ cpu.rsp + 8 ≤ (layout.stack thread).stop

/-- The boot code has set up the core local storage and no thread yet. -/
def Boots (layout : StackLayout Thread) (machine : Machine Thread) : Prop :=
  machine.running = none ∧ machine.created = [] ∧ (∀ thread, machine.suspended thread = none) ∧
    machine.cpu.kernelGsBase = layout.coreLocal ∧
    machine.cpu.memory layout.coreLocal = layout.tssRsp0

/-- The context in which a thread goes on. -/
def contextOf (layout : StackLayout Thread) (machine : Machine Thread) (thread : Thread) : SwitchContext :=
  (machine.suspended thread).getD (layout.prepared thread)

/-- The invariant of all runs: every thread that is not running has its frame. -/
structure Intact (layout : StackLayout Thread) (machine : Machine Thread) : Prop where
  kernelGsBase : machine.cpu.kernelGsBase = layout.coreLocal
  coreLocal : machine.cpu.memory layout.coreLocal = layout.tssRsp0
  runs : ∀ thread, machine.running = some thread → thread ∈ machine.created
  idle : machine.running = none → ∀ thread, machine.suspended thread = none
  fresh : ∀ thread, thread ∉ machine.created → machine.suspended thread = none
  saved : ∀ thread ∈ machine.created, machine.running ≠ some thread →
    Saved layout machine.cpu.memory thread (machine.contextOf layout thread)

/-- The end of `new_kernel_thread` and `new_user_thread`. -/
def prepare (layout : StackLayout Thread) (machine : Machine Thread) (thread : Thread) : Machine Thread :=
  { machine with
    cpu := { machine.cpu with memory := layout.prepareKernelStack machine.cpu.memory thread }
    created := thread :: machine.created }

/-- `Thread::start_first`, called by the boot code. -/
def started (layout : StackLayout Thread) (machine : Machine Thread) (unlock : Cpu → Cpu)
    (first : Thread) : Machine Thread :=
  { machine with
    cpu := (machine.cpu.set .rdi (machine.cpu.memory (layout.slot first))).exec unlock
      threadKernelStart
    running := some first }

variable {thread current : Thread}

section

variable {layout : StackLayout Thread} {machine : Machine Thread}

theorem Boots.intact (h : machine.Boots layout) : machine.Intact layout := by
  obtain ⟨hRunning, hCreated, hFresh, hBase, hCore⟩ := h
  refine ⟨hBase, hCore, ?_, fun _ => hFresh, fun thread _ => hFresh thread, ?_⟩
  · intro thread hRuns
    rw [hRunning] at hRuns
    cases hRuns
  · intro thread hMem
    rw [hCreated] at hMem
    cases hMem

theorem Intact.work (h : machine.Intact layout) {after : Cpu}
    (hConfined : machine.Confined layout after) : Intact layout { machine with cpu := after } where
  kernelGsBase := hConfined.kernelGsBase.trans h.kernelGsBase
  coreLocal := hConfined.coreLocal.trans h.coreLocal
  runs := h.runs
  idle := h.idle
  fresh := h.fresh
  saved := fun thread hMem hNot => (h.saved thread hMem hNot).congr
    (hConfined.otherStacks thread hMem hNot) (hConfined.otherSlots thread hMem hNot)

theorem Intact.prepare (h : machine.Intact layout) (hNew : thread ∉ machine.created) :
    (machine.prepare layout thread).Intact layout := by
  have hCore : layout.prepareKernelStack machine.cpu.memory thread layout.coreLocal =
      machine.cpu.memory layout.coreLocal :=
    StackLayout.prepareKernelStack_of_outside (layout.avoids_coreLocal thread).not_contains
      (layout.coreLocal_slot thread).ne
  refine ⟨h.kernelGsBase, hCore.trans h.coreLocal,
    fun other hRuns => List.mem_cons_of_mem _ (h.runs other hRuns), h.idle,
    fun other hOther => h.fresh other (fun hMem => hOther (List.mem_cons_of_mem _ hMem)), ?_⟩
  intro other hMem hNot
  rcases List.mem_cons.mp hMem with rfl | hOld
  · have hContext : (machine.prepare layout other).contextOf layout other =
        layout.prepared other := by
      rw [contextOf, Machine.prepare, h.fresh other hNew, Option.getD_none]
    rw [hContext]
    exact StackLayout.prepareKernelStack_saved
  · have hNe : other ≠ thread := fun hEq => hNew (hEq ▸ hOld)
    refine (h.saved other hOld hNot).congr (fun address hContains => ?_) ?_
    · have hOutside := StackLayout.not_contains_of_ne hNe hContains
      refine StackLayout.prepareKernelStack_of_outside hOutside ?_
      intro hEq
      exact (layout.avoids_slot other thread).not_contains (hEq ▸ hContains)
    · exact StackLayout.prepareKernelStack_of_outside (layout.avoids_slot thread other).not_contains
        (layout.slots other thread hNe).ne

/-- The invariant when a thread has been entered, from the state in which its
registers are loaded. -/
theorem Intact.of_enters {after : Cpu} {context : SwitchContext} {created : List Thread}
    {suspended : Thread → Option SwitchContext} (hEnters : Enters layout thread context cpu after)
    (hBase : cpu.kernelGsBase = layout.coreLocal)
    (hCore : cpu.memory layout.coreLocal = layout.tssRsp0) (hCreated : thread ∈ created)
    (hFresh : ∀ other, other ∉ created → suspended other = none)
    (hSaved : ∀ other ∈ created, other ≠ thread →
      Saved layout cpu.memory other ((suspended other).getD (layout.prepared other))) :
    Intact layout ⟨after, some thread, created, suspended⟩ := by
  refine ⟨hEnters.kernelGsBase.trans hBase, ?_, ?_, fun hNone => (nomatch hNone), hFresh, ?_⟩
  · exact (hEnters.memory _ (Or.inr (Or.inr (Or.inr (Or.inl rfl))))).trans hCore
  · rintro _ ⟨⟩
    exact hCreated
  · intro other hMem hNot
    have hNe : other ≠ thread := fun hEq => hNot (hEq ▸ rfl)
    refine (hSaved other hMem hNe).congr (fun address hContains => ?_) ?_
    · exact hEnters.memory address (Or.inl ⟨other, hNe, hContains⟩)
    · exact hEnters.memory _ (Or.inr (Or.inr (Or.inl ⟨other, rfl⟩)))

/-- The first thread is entered in its prepared context. -/
theorem Intact.enters_first (h : machine.Intact layout) {first : Thread}
    (hBoots : machine.running = none) (hMade : first ∈ machine.created)
    (hFollows : ∀ cpu, FollowsConvention layout first cpu (unlock cpu)) :
    Enters layout first (machine.contextOf layout first)
      ((machine.cpu.set .rdi (machine.cpu.memory (layout.slot first))).set .rsp
        (machine.cpu.memory (layout.slot first)))
      (machine.started layout unlock first).cpu := by
  have hSaved := h.saved first hMade (by rw [hBoots]; exact Option.some_ne_none first |>.symm)
  have hFrame : WordsAt machine.cpu.memory
      ((machine.cpu.set .rdi (machine.cpu.memory (layout.slot first))).registers .rdi)
      (machine.contextOf layout first).frame := by
    rw [Cpu.set_self]
    exact hSaved.frame
  rw [started, Cpu.exec_threadKernelStart _ hFrame, Cpu.set_self]
  exact Saved.enters hSaved (Cpu.set_rsp _ _) hFollows

theorem Intact.started (h : machine.Intact layout) {first : Thread}
    (hBoots : machine.running = none) (hMade : first ∈ machine.created)
    (hFollows : ∀ cpu, FollowsConvention layout first cpu (unlock cpu)) :
    (machine.started layout unlock first).Intact layout :=
  .of_enters (h.enters_first hBoots hMade hFollows) h.kernelGsBase h.coreLocal hMade h.fresh
    fun other hMem _ => h.saved other hMem (by rw [hBoots]; exact Option.some_ne_none other |>.symm)

/-- The frame is pushed onto the stack of the caller. -/
theorem Room.push_of_outside (h : Room layout thread cpu) {words : List Nat}
    (hWords : 8 * words.length = 128) (hOutside : ¬ (layout.stack thread).Contains address) :
    pushWords cpu.memory cpu.rsp words address = cpu.memory address := by
  obtain ⟨hLow, hHigh⟩ := h
  unfold KernelStack.Contains at hOutside
  exact pushWords_of_outside (by omega) (by omega)

/-- The frame that `thread_switch` pushes when `current` calls it. -/
def pushedFrame (layout : StackLayout Thread) (cpu : Cpu) (current next : Thread) : Nat → Nat :=
  pushWords cpu.memory cpu.rsp
    (cpu.flags :: restored.reverse.map (layout.switchArguments cpu current next).registers)

/-- Besides the frame, `thread_switch` stores the stack pointer of the caller,
and the end of the next stack in the TSS. -/
theorem Intact.switchMemory_eq (h : machine.Intact layout) (next : Thread)
    (hRoom : Room layout current machine.cpu) :
    (layout.switchArguments machine.cpu current next).switchMemory =
      Function.update
        (Function.update (pushedFrame layout machine.cpu current next) (layout.slot current)
          (machine.cpu.rsp - 128))
        layout.tssRsp0 (layout.stack next).stop := by
  have hPointer : Function.update (pushedFrame layout machine.cpu current next)
      (layout.slot current) (machine.cpu.rsp - 128) layout.coreLocal = layout.tssRsp0 := by
    rw [Function.update_of_ne (layout.coreLocal_slot current).ne, pushedFrame,
      hRoom.push_of_outside rfl (layout.avoids_coreLocal current).not_contains, h.coreLocal]
  have hRdi : (layout.switchArguments machine.cpu current next).registers .rdi =
      layout.slot current := by
    simp [StackLayout.switchArguments, Cpu.set]
  have hRdx : (layout.switchArguments machine.cpu current next).registers .rdx =
      (layout.stack next).stop := by
    simp [StackLayout.switchArguments, Cpu.set]
  have hRsp : (layout.switchArguments machine.cpu current next).rsp = machine.cpu.rsp := by
    simp [StackLayout.switchArguments, Cpu.set, Cpu.rsp]
  have hBase : (layout.switchArguments machine.cpu current next).kernelGsBase = layout.coreLocal :=
    h.kernelGsBase
  have hFrame : pushWords (layout.switchArguments machine.cpu current next).memory machine.cpu.rsp
      ((layout.switchArguments machine.cpu current next).flags :: restored.reverse.map
        (layout.switchArguments machine.cpu current next).registers) =
      pushedFrame layout machine.cpu current next := rfl
  unfold Cpu.switchMemory
  dsimp only
  rw [hRdi, hRdx, hRsp, hBase, hFrame, hPointer]

/-- What is outside of the stack of the caller and not stored on purpose stays. -/
theorem Intact.switchMemory_of_outside (h : machine.Intact layout) (next : Thread)
    (hRoom : Room layout current machine.cpu) (hOutside : ¬ (layout.stack current).Contains address)
    (hSlot : address ≠ layout.slot current) (hTss : address ≠ layout.tssRsp0) :
    (layout.switchArguments machine.cpu current next).switchMemory address =
      machine.cpu.memory address := by
  rw [h.switchMemory_eq next hRoom, Function.update_of_ne hTss, Function.update_of_ne hSlot,
    pushedFrame, hRoom.push_of_outside rfl hOutside]

/-- The frames of the threads other than the caller stay. -/
theorem Intact.saved_other (h : machine.Intact layout) {other : Thread} (next : Thread)
    (hRuns : machine.running = some current) (hRoom : Room layout current machine.cpu)
    (hMem : other ∈ machine.created) (hNe : other ≠ current) :
    Saved layout (layout.switchArguments machine.cpu current next).switchMemory other
      (machine.contextOf layout other) := by
  have hNot : machine.running ≠ some other := by
    rw [hRuns]
    exact fun hEq => hNe (Option.some.inj hEq).symm
  refine (h.saved other hMem hNot).congr (fun address hContains => ?_) ?_
  · refine h.switchMemory_of_outside next hRoom (StackLayout.not_contains_of_ne hNe hContains) ?_ ?_
    · intro hEq
      exact (layout.avoids_slot other current).not_contains (hEq ▸ hContains)
    · intro hEq
      exact (layout.avoids_tssRsp0 other).not_contains (hEq ▸ hContains)
  · exact h.switchMemory_of_outside next hRoom (layout.avoids_slot current other).not_contains
      (layout.slots other current hNe).ne (layout.tssRsp0_slot other).ne.symm

/-- The caller leaves its context behind as a frame. -/
theorem Intact.saved_current (h : machine.Intact layout) (next : Thread)
    (hRoom : Room layout current machine.cpu) :
    Saved layout (layout.switchArguments machine.cpu current next).switchMemory current
      (layout.switchArguments machine.cpu current next).context := by
  have hLow := hRoom.1
  have hHigh := hRoom.2
  have hRsp : (layout.switchArguments machine.cpu current next).context.rsp =
      machine.cpu.rsp + 8 := by
    simp [Cpu.context, StackLayout.switchArguments, Cpu.set, Cpu.rsp]
  have hSlot : (layout.switchArguments machine.cpu current next).switchMemory (layout.slot current) =
      machine.cpu.rsp - 128 := by
    rw [h.switchMemory_eq next hRoom, Function.update_of_ne (layout.tssRsp0_slot current).ne.symm,
      Function.update_self]
  refine ⟨by omega, by omega, by omega, ?_⟩
  -- The sixteen words that are pushed, below the return address that the call has pushed.
  have hReturn : (layout.switchArguments machine.cpu current next).context.returnAddress =
      machine.cpu.memory machine.cpu.rsp := by
    simp [Cpu.context, StackLayout.switchArguments, Cpu.set, Cpu.rsp]
  have hFrame : (layout.switchArguments machine.cpu current next).context.frame =
      (machine.cpu.flags :: restored.reverse.map
        (layout.switchArguments machine.cpu current next).registers).reverse ++
        [machine.cpu.memory machine.cpu.rsp] := by
    rw [← hReturn]
    rfl
  have hFits : 8 * (machine.cpu.flags :: restored.reverse.map
      (layout.switchArguments machine.cpu current next).registers).length ≤ machine.cpu.rsp := by
    change 128 ≤ machine.cpu.rsp
    omega
  have hWords : WordsAt (pushedFrame layout machine.cpu current next) (machine.cpu.rsp - 128)
      (layout.switchArguments machine.cpu current next).context.frame := by
    rw [hFrame, wordsAt_append]
    refine ⟨wordsAt_pushWords hFits, ?_, trivial⟩
    have hTop : machine.cpu.rsp - 128 + 8 * (machine.cpu.flags :: restored.reverse.map
        (layout.switchArguments machine.cpu current next).registers).reverse.length =
        machine.cpu.rsp := Nat.sub_add_cancel (by omega)
    rw [hTop]
    exact pushWords_of_outside hFits (Or.inr (Nat.le_refl _))
  rw [hSlot]
  refine hWords.congr fun address hFrom hTo => ?_
  rw [SwitchContext.frame_length] at hTo
  have hContains : (layout.stack current).Contains address := ⟨by omega, by omega⟩
  rw [h.switchMemory_eq next hRoom, Function.update_of_ne, Function.update_of_ne]
  · intro hEq
    exact (layout.avoids_slot current current).not_contains (hEq ▸ hContains)
  · intro hEq
    exact (layout.avoids_tssRsp0 current).not_contains (hEq ▸ hContains)

end

section

variable [DecidableEq Thread]

/-- `Thread::switch`, called by the running thread. -/
def switched (layout : StackLayout Thread) (machine : Machine Thread) (unlock : Cpu → Cpu)
    (current next : Thread) : Machine Thread :=
  let entry := layout.switchArguments machine.cpu current next
  { machine with
    cpu := entry.exec unlock threadSwitch
    running := some next
    suspended := Function.update machine.suspended current (some entry.context) }

/-- The steps of a run. `Permits` tells which switches are made. -/
inductive Step (layout : StackLayout Thread) (Permits : Thread → Thread → Prop) :
    Machine Thread → Machine Thread → Prop where
  | work {machine : Machine Thread} {after : Cpu} (confined : machine.Confined layout after) :
      Step layout Permits machine { machine with cpu := after }
  | create {machine : Machine Thread} {thread : Thread} (new : thread ∉ machine.created) :
      Step layout Permits machine (machine.prepare layout thread)
  | start {machine : Machine Thread} {unlock : Cpu → Cpu} {first : Thread}
      (boots : machine.running = none) (made : first ∈ machine.created)
      (follows : ∀ cpu, FollowsConvention layout first cpu (unlock cpu)) :
      Step layout Permits machine (machine.started layout unlock first)
  | switch {machine : Machine Thread} {unlock : Cpu → Cpu} {current next : Thread}
      (runs : machine.running = some current) (made : next ∈ machine.created)
      (permits : Permits current next) (room : Room layout current machine.cpu)
      (follows : ∀ cpu, FollowsConvention layout next cpu (unlock cpu)) :
      Step layout Permits machine (machine.switched layout unlock current next)

inductive Reachable (layout : StackLayout Thread) (Permits : Thread → Thread → Prop) :
    Machine Thread → Prop where
  | boot {machine : Machine Thread} (boots : machine.Boots layout) :
      Reachable layout Permits machine
  | step {machine later : Machine Thread} (prior : Reachable layout Permits machine)
      (last : Step layout Permits machine later) : Reachable layout Permits later

variable {layout : StackLayout Thread} {machine : Machine Thread}

/-- The state in which `thread_switch` loads the registers of the next thread. -/
def changed (layout : StackLayout Thread) (cpu : Cpu) (current next : Thread) : Cpu :=
  { (layout.switchArguments cpu current next).set .rsp (cpu.memory (layout.slot next)) with
    cr3 := layout.pageTables next
    memory := (layout.switchArguments cpu current next).switchMemory }

/-- A switch to another thread goes on in the context of that thread. -/
theorem Intact.enters_next (h : machine.Intact layout) {next : Thread}
    (hRuns : machine.running = some current) (hMade : next ∈ machine.created) (hNe : current ≠ next)
    (hRoom : Room layout current machine.cpu)
    (hFollows : ∀ cpu, FollowsConvention layout next cpu (unlock cpu)) :
    Enters layout next (machine.contextOf layout next) (changed layout machine.cpu current next)
      (machine.switched layout unlock current next).cpu := by
  have hSaved := h.saved_other next hRuns hRoom hMade hNe.symm
  have hSlot : (layout.switchArguments machine.cpu current next).switchMemory (layout.slot next) =
      machine.cpu.memory (layout.slot next) :=
    h.switchMemory_of_outside next hRoom (layout.avoids_slot current next).not_contains
      (layout.slots next current hNe.symm).ne (layout.tssRsp0_slot next).ne.symm
  have hRsi : (layout.switchArguments machine.cpu current next).registers .rsi =
      machine.cpu.memory (layout.slot next) := by
    simp [StackLayout.switchArguments, Cpu.set]
  have hRcx : (layout.switchArguments machine.cpu current next).registers .rcx =
      layout.pageTables next := by
    simp [StackLayout.switchArguments, Cpu.set]
  have hFrame : WordsAt (layout.switchArguments machine.cpu current next).switchMemory
      ((layout.switchArguments machine.cpu current next).registers .rsi)
      (machine.contextOf layout next).frame := by
    rw [hRsi, ← hSlot]
    exact hSaved.frame
  have hRsp : (changed layout machine.cpu current next).rsp =
      machine.cpu.memory (layout.slot next) := by
    simp [changed, Cpu.set, Cpu.rsp]
  rw [switched, Cpu.exec_threadSwitch _ hFrame, hRsi, hRcx]
  exact Saved.enters hSaved (hRsp.trans hSlot.symm) hFollows

theorem Intact.switched (h : machine.Intact layout) {next : Thread}
    (hRuns : machine.running = some current) (hMade : next ∈ machine.created) (hNe : current ≠ next)
    (hRoom : Room layout current machine.cpu)
    (hFollows : ∀ cpu, FollowsConvention layout next cpu (unlock cpu)) :
    (machine.switched layout unlock current next).Intact layout := by
  refine .of_enters (h.enters_next hRuns hMade hNe hRoom hFollows) h.kernelGsBase ?_ hMade ?_ ?_
  · exact (h.switchMemory_of_outside next hRoom (layout.avoids_coreLocal current).not_contains
      (layout.coreLocal_slot current).ne layout.coreLocal_tssRsp0.ne).trans h.coreLocal
  · intro other hOther
    have hOtherNe : other ≠ current := fun hEq => hOther (hEq ▸ h.runs current hRuns)
    rw [Function.update_of_ne hOtherNe]
    exact h.fresh other hOther
  · intro other hMem _
    by_cases hEq : other = current
    · subst hEq
      rw [Function.update_self]
      exact h.saved_current next hRoom
    · rw [Function.update_of_ne hEq]
      exact h.saved_other next hRuns hRoom hMem hEq

/-- Every run of switches to other threads keeps the frames. -/
theorem Reachable.intact (h : Reachable layout (· ≠ ·) machine) : machine.Intact layout := by
  induction h with
  | boot boots => exact boots.intact
  | step _ last ih =>
    cases last with
    | work confined => exact ih.work confined
    | create new => exact ih.prepare new
    | start boots made follows => exact ih.started boots made follows
    | switch runs made permits room follows => exact ih.switched runs made permits room follows

/-- A thread that has not run yet begins in `kickoff_kernel_thread`, on its
own stack and with interrupts enabled. -/
structure Begins (layout : StackLayout Thread) (machine : Machine Thread) (thread : Thread) : Prop where
  rip : machine.cpu.rip = layout.kickoff
  rsp : (layout.stack thread).Contains machine.cpu.rsp
  interrupts : machine.cpu.flags.testBit 9 = true

/-- How a thread goes on after a switch to it: after its own call of
`thread_switch` if there was one, and with its own page tables and stack. -/
structure Resumes (layout : StackLayout Thread) (machine : Machine Thread) (thread : Thread) : Prop where
  again : ∀ context, machine.suspended thread = some context →
    machine.cpu.rip = context.returnAddress ∧ machine.cpu.rsp = context.rsp ∧
      ∀ register ∈ calleeSaved, machine.cpu.registers register = context.registers register
  first : machine.suspended thread = none → machine.Begins layout thread
  cr3 : machine.cpu.cr3 = layout.pageTables thread
  rsp0 : machine.cpu.memory layout.tssRsp0 = (layout.stack thread).stop

omit [DecidableEq Thread] in
theorem Begins.of_enters {before : Cpu}
    (h : Enters layout thread (layout.prepared thread) before machine.cpu) :
    machine.Begins layout thread := by
  have hLarge := (layout.stack thread).large
  have hRsp : machine.cpu.rsp = (layout.stack thread).stop - 8 := h.rsp
  have hStop : (layout.stack thread).stop =
      (layout.stack thread).base + 8 * (layout.stack thread).capacity := rfl
  refine ⟨h.rip, ⟨by omega, by omega⟩, ?_⟩
  rw [h.interrupts]
  change Nat.testBit 0x202 9 = true
  decide

/-- SwitchContext switches are transparent. In every run of switches to other
threads, the thread switched to goes on where it has called `thread_switch`,
or begins; the first thread of all begins as well. -/
theorem switches_transparent (hReach : Reachable layout (· ≠ ·) machine) (unlock : Cpu → Cpu) :
    (∀ current next, machine.running = some current → next ∈ machine.created → current ≠ next →
      Room layout current machine.cpu →
      (∀ cpu, FollowsConvention layout next cpu (unlock cpu)) →
      (machine.switched layout unlock current next).Resumes layout next) ∧
    ∀ first, machine.running = none → first ∈ machine.created →
      (∀ cpu, FollowsConvention layout first cpu (unlock cpu)) →
      (machine.started layout unlock first).Begins layout first := by
  have hIntact := hReach.intact
  constructor
  · intro current next hRuns hMade hNe hRoom hFollows
    have hEnters := hIntact.enters_next hRuns hMade hNe hRoom hFollows
    have hSuspended : (machine.switched layout unlock current next).suspended next =
        machine.suspended next := Function.update_of_ne hNe.symm _ _
    refine ⟨?_, ?_, hEnters.cr3, ?_⟩
    · intro context hSome
      have hEq : machine.contextOf layout next = context := by
        rw [contextOf, ← hSuspended, hSome, Option.getD_some]
      rw [hEq] at hEnters
      exact ⟨hEnters.rip, hEnters.rsp, hEnters.registers⟩
    · intro hNone
      have hEq : machine.contextOf layout next = layout.prepared next := by
        rw [contextOf, ← hSuspended, hNone, Option.getD_none]
      rw [hEq] at hEnters
      exact .of_enters hEnters
    · rw [hEnters.memory _ (Or.inr (Or.inr (Or.inr (Or.inr rfl))))]
      change (layout.switchArguments machine.cpu current next).switchMemory layout.tssRsp0 = _
      rw [hIntact.switchMemory_eq next hRoom, Function.update_self]
  · intro first hBoots hMade hFollows
    have hEnters := hIntact.enters_first hBoots hMade hFollows
    have hEq : machine.contextOf layout first = layout.prepared first := by
      rw [contextOf, hIntact.idle hBoots, Option.getD_none]
    rw [hEq] at hEnters
    exact .of_enters hEnters

omit [DecidableEq Thread] in
/-- The running thread may set its registers and write to its own stack. -/
theorem Confined.of_call (hRuns : machine.running = some thread)
    (hContains : (layout.stack thread).Contains address) (registers : Register → Nat)
    (value : Nat) :
    machine.Confined layout { machine.cpu with
      registers
      memory := Function.update machine.cpu.memory address value } := by
  have hOther : ∀ other, machine.running ≠ some other → other ≠ thread :=
    fun other hNot hEq => hNot (hEq ▸ hRuns)
  refine ⟨rfl, ?_, ?_, ?_⟩
  · refine Function.update_of_ne (fun hEq => ?_) _ _
    exact (layout.avoids_coreLocal thread).not_contains (hEq ▸ hContains)
  · intro other _ hNot
    refine Function.update_of_ne (fun hEq => ?_) _ _
    exact (layout.avoids_slot thread other).not_contains (hEq ▸ hContains)
  · intro other _ hNot position hPosition
    refine Function.update_of_ne (fun hEq => ?_) _ _
    exact StackLayout.not_contains_of_ne (hOther other hNot) hPosition (hEq ▸ hContains)

end

/-- Two threads with stacks of 32 words. -/
def twoStacks : StackLayout Bool where
  stack thread := ⟨if thread then 0x2000 else 0x1000, 32, by decide⟩
  slot thread := if thread then 0x108 else 0x100
  pageTables thread := if thread then 0x8000 else 0x7000
  kickoff := 0x5000
  coreLocal := 0x200
  tssRsp0 := 0x304
  disjoint := by decide
  slots := by decide
  avoids_slot := by decide
  avoids_coreLocal := by decide
  avoids_tssRsp0 := by decide
  coreLocal_slot := by decide
  tssRsp0_slot := by decide
  coreLocal_tssRsp0 := by decide

def booting : Machine Bool where
  cpu := ⟨fun _ => 0, 0, 2, 0, 0, 0x200, fun address => if address = 0x200 then 0x304 else 0⟩
  running := none
  created := []
  suspended _ := none

/-- The running thread calls `thread_switch` from these depths of its stack. -/
def calling (machine : Machine Bool) (rsp returnAddress : Nat) : Machine Bool :=
  { machine with cpu := { machine.cpu with
      registers := Function.update machine.cpu.registers .rsp rsp
      memory := Function.update machine.cpu.memory rsp returnAddress } }

/-- Both threads are created and the first one runs. -/
def firstRuns : Machine Bool :=
  ((booting.prepare twoStacks false).prepare twoStacks true).started twoStacks id false

theorem follows_id (thread : Bool) (cpu : Cpu) : FollowsConvention twoStacks thread cpu (id cpu) :=
  ⟨rfl, fun _ _ => rfl, rfl, rfl, rfl, fun _ _ => rfl⟩

theorem firstRuns_reachable (Permits : Bool → Bool → Prop) :
    Reachable twoStacks Permits firstRuns := by
  have hBoots : booting.Boots twoStacks := ⟨rfl, rfl, fun _ => rfl, rfl, rfl⟩
  have hFirst := (Reachable.boot hBoots : Reachable twoStacks Permits booting).step
    (.create (by decide : false ∉ booting.created))
  have hBoth := hFirst.step (.create (by decide : true ∉ (booting.prepare twoStacks false).created))
  exact hBoth.step (.start rfl (by decide) (follows_id false))

theorem calling_reachable {Permits : Bool → Bool → Prop} {machine : Machine Bool} {thread : Bool}
    (h : Reachable twoStacks Permits machine) (hRuns : machine.running = some thread) {rsp : Nat}
    (hRsp : (twoStacks.stack thread).Contains rsp) (returnAddress : Nat) :
    Reachable twoStacks Permits (machine.calling rsp returnAddress) :=
  h.step (.work (.of_call hRuns hRsp _ _))

/-- The first thread switches to the second one, which switches back. -/
def secondCalls : Machine Bool :=
  ((firstRuns.calling 0x10e0 0x6000).switched twoStacks id false true).calling 0x20f0 0x6100

/-- The first thread goes on after its call. -/
theorem switches_transparent_back :
    Reachable twoStacks (· ≠ ·) secondCalls ∧
      (secondCalls.switched twoStacks id true false).Resumes twoStacks false ∧
      (secondCalls.switched twoStacks id true false).cpu.rip = 0x6000 := by
  have hFirst : Reachable twoStacks (· ≠ ·) (firstRuns.calling 0x10e0 0x6000) :=
    calling_reachable (firstRuns_reachable _) rfl ⟨by decide, by decide⟩ 0x6000
  have hSecond := hFirst.step
    (.switch rfl (by decide : true ∈ [true, false]) (by decide) ⟨by decide, by decide⟩ (follows_id true))
  have hReach : Reachable twoStacks (· ≠ ·) secondCalls :=
    calling_reachable hSecond rfl ⟨by decide, by decide⟩ 0x6100
  have hResumes := (switches_transparent hReach id).1 true false rfl (by decide) (by decide)
    ⟨by decide, by decide⟩ (follows_id false)
  exact ⟨hReach, hResumes, (hResumes.again _ rfl).1⟩

/-- A thread that switches to itself goes on from its old frame and begins again. -/
theorem self_switch_begins_again :
    Reachable twoStacks (fun _ _ => True) (firstRuns.calling 0x10e0 0x6000) ∧
      ¬ ((firstRuns.calling 0x10e0 0x6000).switched twoStacks id false false).Resumes
        twoStacks false := by
  refine ⟨calling_reachable (firstRuns_reachable _) rfl ⟨by decide, by decide⟩ 0x6000, ?_⟩
  intro hResumes
  have hRip := (hResumes.again _ rfl).1
  revert hRip
  decide +kernel

end Machine

end D3OS.Process
