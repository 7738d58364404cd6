import Nachos.Library.Coroutines
import Nachos.Verification.Switch.Semantics

/-! # Threads are coroutines

What a thread has when it calls `SWITCH` is what it has when `SWITCH` returns to it, whatever
the other threads did in between. -/

namespace Nachos.Switch

open I386 (Memory Register State load store word range)

/-- The addresses that are fixed before the kernel starts. `mainStack` is the stack of the main
thread. -/
structure Layout where
  symbols : Symbols
  mainThread : Word
  mainStack : Set Word
  space : Disjoint (word symbols.eaxSave) (object mainThread ∪ mainStack)
  apart : Disjoint (object mainThread) mainStack

namespace Layout

variable (layout : Layout)

def stackOf (p : Processor) (thread : Word) : Set Word :=
  match p.stack thread with
  | none => layout.mainStack
  | some stack => range stack (4 * stackSize)

/-- What belongs to a thread. -/
def area (p : Processor) (thread : Word) : Set Word :=
  object thread ∪ layout.stackOf p thread

/-- What the compiled code and the allocator promise: the code of a thread does not write into
what belongs to another one, a new object and a new stack overlap nothing, and a thread that
calls `SWITCH` has room on its stack. -/
def Disciplined (p : Processor) : Processor.Label → Prop
  | .code state _ => ∀ thread ∈ p.threads, thread ≠ p.currentThread →
      ∀ a ∈ layout.area p thread, state.memory a = p.state.memory a
  | .fork thread stack _ _ =>
      Disjoint (object thread) (range stack (4 * stackSize)) ∧
        Disjoint (word layout.symbols.eaxSave) (object thread ∪ range stack (4 * stackSize)) ∧
        ∀ u ∈ p.threads,
          Disjoint (object thread ∪ range stack (4 * stackSize)) (layout.area p u)
  | .run _ _ => range (p.state.registers .esp - 12#32) 12 ⊆ layout.stackOf p p.currentThread
  | .delete _ => True

end Layout

/-- What a thread goes on with: the registers, the next instruction, and the bytes of its
stack that it may rely on. -/
structure Context where
  registers : Register → Word
  pc : Word
  frame : Word → Option Byte

open Classical in
/-- The bytes of a region. -/
noncomputable def bytes (memory : Memory) (region : Set Word) (a : Word) : Option Byte :=
  if a ∈ region then some (memory a) else none

theorem bytes_eq_some {memory : Memory} {region : Set Word} {a : Word} {b : Byte}
    (h : bytes memory region a = some b) : a ∈ region ∧ memory a = b := by
  rw [bytes] at h
  split_ifs at h with ha
  exact ⟨ha, Option.some.inj h⟩

/-! ## The specification -/

/-- `SWITCH` pops its return address; the word of its first argument is not kept. -/
noncomputable def leaving (layout : Layout) (p : Processor) (nextThread returnAddress : Word) :
    Context :=
  let s := Processor.callSwitch p.state p.currentThread nextThread returnAddress
  { registers := Function.update s.registers .esp (s.registers .esp + 4#32)
    pc := returnAddress
    frame := bytes s.memory (layout.stackOf p p.currentThread \ word (s.registers .esp + 4#32)) }

/-- The registers in a new object. -/
def initialRegisters (symbols : Symbols) (memory : Memory) (thread stack func arg : Word) :
    Register → Word
  | .esp => stack + 16364#32
  | .ecx => symbols.interruptEnable
  | .edx => arg
  | .esi => func
  | .edi => symbols.threadFinish
  | .eax => load memory (thread + offset .eax)
  | .ebx => load memory (thread + offset .ebx)
  | .ebp => load memory (thread + offset .ebp)

/-- A new thread starts in `ThreadRoot`. What is in the registers that `StackAllocate` does not
set is what was in the object. -/
noncomputable def born (symbols : Symbols) (memory : Memory) (thread stack func arg : Word) :
    Context where
  registers :=
    Function.update (initialRegisters symbols memory thread stack func arg) .esp
      (stack + 16364#32 + 4#32)
  pc := symbols.threadRoot
  frame := bytes (stackAllocate symbols memory thread stack func arg)
    (range stack (4 * stackSize) \ word (stack + 16364#32 + 4#32))

/-- What a step of the kernel is for the coroutines. -/
noncomputable def spec (layout : Layout) (p : Processor) :
    Processor.Label → Coroutines.Label Word Context
  | .code state pc => .run {
      registers := state.registers
      pc := pc
      frame := bytes state.memory (layout.stackOf p p.currentThread) }
  | .fork thread stack func arg =>
      .create thread (born layout.symbols p.state.memory thread stack func arg)
  | .run nextThread returnAddress =>
      .transfer (leaving layout p nextThread returnAddress) nextThread
  | .delete thread => .destroy thread

/-! ## The relation -/

/-- The frame is part of the region, and in memory. -/
def InMemory (memory : Memory) (region : Set Word) (frame : Word → Option Byte) : Prop :=
  ∀ a b, frame a = some b → a ∈ region ∧ memory a = b

/-- The memory holds the context of a thread that is not running. -/
structure Suspended (layout : Layout) (p : Processor) (thread : Word) (context : Context)
    (registers : Register → Word) : Prop where
  holds : Holds p.state.memory thread registers
  popped : context.registers = Function.update registers .esp (registers .esp + 4#32)
  pc : load p.state.memory (registers .esp) = context.pc
  top : word (registers .esp) ⊆ layout.stackOf p thread
  slot : word (registers .esp + 4#32) ⊆ layout.stackOf p thread
  frame : InMemory p.state.memory (layout.stackOf p thread \ word (registers .esp + 4#32))
    context.frame

/-- Nothing belongs to two threads, or to a thread and to `SWITCH`. -/
structure Apart (layout : Layout) (p : Processor) : Prop where
  current : p.currentThread ∈ p.threads
  space : ∀ t ∈ p.threads, Disjoint (word layout.symbols.eaxSave) (layout.area p t)
  own : ∀ t ∈ p.threads, Disjoint (object t) (layout.stackOf p t)
  others : ∀ t ∈ p.threads, ∀ u ∈ p.threads, t ≠ u →
    Disjoint (layout.area p t) (layout.area p u)

structure Represents (layout : Layout) (p : Processor) (c : Coroutines Word Context) :
    Prop where
  current : c.current = p.currentThread
  registers : c.now.registers = p.state.registers
  pc : c.now.pc = p.pc
  frame : InMemory p.state.memory (layout.stackOf p p.currentThread) c.now.frame
  suspended : ∀ t context, c.suspended t = some context →
    t ∈ p.threads ∧ t ≠ p.currentThread ∧ ∃ registers, Suspended layout p t context registers
  all : ∀ t ∈ p.threads, t ≠ p.currentThread → (c.suspended t).isSome
  apart : Apart layout p

variable {layout : Layout} {p p' : Processor} {c : Coroutines Word Context} {t : Word}

theorem InMemory.congr {memory memory' : Memory} {region : Set Word}
    {frame : Word → Option Byte} (h : InMemory memory region frame)
    (hmemory : ∀ a ∈ region, memory' a = memory a) : InMemory memory' region frame := by
  intro a b hab
  have ⟨ha, hb⟩ := h a b hab
  exact ⟨ha, (hmemory a ha).trans hb⟩

theorem inMemory_bytes (memory : Memory) (region : Set Word) :
    InMemory memory region (bytes memory region) :=
  fun _ _ h => bytes_eq_some h

/-- A suspended thread stays so while nobody writes into what belongs to it. -/
theorem Suspended.congr {context : Context} {registers : Register → Word}
    (h : Suspended layout p t context registers)
    (hstack : layout.stackOf p' t = layout.stackOf p t)
    (hmemory : ∀ a ∈ layout.area p t, p'.state.memory a = p.state.memory a) :
    Suspended layout p' t context registers where
  holds := holds_congr (fun a ha => (hmemory a (.inl ha)).symm) h.holds
  popped := h.popped
  pc := by
    rw [← h.pc]
    exact I386.load_congr fun a ha => hmemory a (.inr (h.top ha))
  top := hstack ▸ h.top
  slot := hstack ▸ h.slot
  frame := by
    rw [hstack]
    exact h.frame.congr fun a ha => hmemory a (.inr ha.1)

theorem area_congr (hstack : layout.stackOf p' t = layout.stackOf p t) :
    layout.area p' t = layout.area p t := by
  rw [Layout.area, Layout.area, hstack]

/-! ## The code of a thread -/

theorem represents_code {state : State} {pc : Word} (h : Represents layout p c)
    (hdisciplined : layout.Disciplined p (.code state pc)) :
    Represents layout { p with state := state, pc := pc } { c with
      now := {
        registers := state.registers
        pc := pc
        frame := bytes state.memory (layout.stackOf p p.currentThread) } } where
  current := h.current
  registers := rfl
  pc := rfl
  frame := inMemory_bytes _ _
  suspended t context ht := by
    obtain ⟨hmem, hne, registers, hsuspended⟩ := h.suspended t context ht
    exact ⟨hmem, hne, registers, hsuspended.congr rfl (hdisciplined t hmem hne)⟩
  all := h.all
  apart := ⟨h.apart.current, h.apart.space, h.apart.own, h.apart.others⟩

theorem represents_delete (h : Represents layout p c) (ht : t ≠ p.currentThread) :
    Represents layout { p with threads := p.threads.filter (· ≠ t) }
      { c with suspended := Function.update c.suspended t none } where
  current := h.current
  registers := h.registers
  pc := h.pc
  frame := h.frame
  suspended u context hu := by
    dsimp only at hu ⊢
    by_cases hut : u = t
    · subst hut
      rw [Function.update_self] at hu
      cases hu
    · rw [Function.update_of_ne hut] at hu
      obtain ⟨hmem, hne, registers, hsuspended⟩ := h.suspended u context hu
      exact ⟨List.mem_filter.mpr ⟨hmem, by simpa using hut⟩, hne, registers,
        hsuspended.congr rfl fun _ _ => rfl⟩
  all u hu hne := by
    obtain ⟨hmem, hut⟩ := List.mem_filter.mp hu
    dsimp only
    rw [Function.update_of_ne (by simpa using hut)]
    exact h.all u hmem hne
  apart := {
    current := List.mem_filter.mpr ⟨h.apart.current, by simpa using ht.symm⟩
    space := fun u hu => h.apart.space u (List.mem_filter.mp hu).1
    own := fun u hu => h.apart.own u (List.mem_filter.mp hu).1
    others := fun u hu v hv => h.apart.others u (List.mem_filter.mp hu).1 v
      (List.mem_filter.mp hv).1 }

/-! ## A new thread -/

section Fork

variable {symbols : Symbols} {memory : Memory} {thread stack func arg : Word}

theorem machineState_eq (thread : Word) :
    machineState thread pcState = thread + pcOffset ∧
      machineState thread startupPCState = thread + offset .ecx ∧
      machineState thread initialPCState = thread + offset .esi ∧
      machineState thread initialArgState = thread + offset .edx ∧
      machineState thread whenDonePCState = thread + offset .edi := by
  refine ⟨?_, ?_, ?_, ?_, ?_⟩ <;> exact BitVec.add_assoc _ _ _

theorem stackAllocate_eq : stackAllocate symbols memory thread stack func arg =
    store (store (store (store (store (store (store (store (store memory
      (thread + offset .esp) (stack + 16368#32)) (thread + offset .esp) (stack + 16364#32))
      (stack + 16364#32) symbols.threadRoot) (stack + 0#32) stackFencepost)
      (thread + pcOffset) symbols.threadRoot) (thread + offset .ecx) symbols.interruptEnable)
      (thread + offset .esi) func) (thread + offset .edx) arg)
      (thread + offset .edi) symbols.threadFinish := by
  have htop : stack + 4#32 * (BitVec.ofNat 32 stackSize - 4#32) = stack + 16368#32 := rfl
  have hnext : stack + 16368#32 - 4#32 = stack + 16364#32 := by
    rw [add_sub_assoc]
    rfl
  obtain ⟨hpc, hecx, hesi, hedx, hedi⟩ := machineState_eq thread
  simp only [stackAllocate, htop, hnext, hpc, hecx, hesi, hedx, hedi, offset, BitVec.add_zero]

theorem stack_word_subset (stack : Word) {k : ℕ} (hk : k + 4 ≤ 4 * stackSize) :
    word (stack + BitVec.ofNat 32 k) ⊆ range stack (4 * stackSize) :=
  I386.word_subset_range hk (by decide)

theorem stackAllocate_of_not_mem {a : Word}
    (h : a ∉ object thread ∪ range stack (4 * stackSize)) :
    stackAllocate symbols memory thread stack func arg a = memory a := by
  have hobject (r : Register) : a ∉ word (thread + offset r) :=
    fun ha => h (.inl (offset_subset _ r ha))
  have hpc : a ∉ word (thread + pcOffset) := fun ha => h (.inl (pcOffset_subset _ ha))
  have hstack {k : ℕ} (hk : k + 4 ≤ 4 * stackSize) : a ∉ word (stack + BitVec.ofNat 32 k) :=
    fun ha => h (.inr (stack_word_subset _ hk ha))
  rw [stackAllocate_eq, I386.store_of_not_mem (hobject .edi), I386.store_of_not_mem (hobject .edx),
    I386.store_of_not_mem (hobject .esi), I386.store_of_not_mem (hobject .ecx),
    I386.store_of_not_mem hpc, I386.store_of_not_mem (hstack (by decide)),
    I386.store_of_not_mem (hstack (by decide)), I386.store_of_not_mem (hobject .esp),
    I386.store_of_not_mem (hobject .esp)]

theorem holds_stackAllocate (happart : Disjoint (object thread) (range stack (4 * stackSize))) :
    Holds (stackAllocate symbols memory thread stack func arg) thread
      (initialRegisters symbols memory thread stack func arg) := by
  have hskip {k : ℕ} (memory : Memory) (value : Word) (r : Register) (hk : k + 4 ≤ 4 * stackSize) :
      load (store memory (stack + BitVec.ofNat 32 k) value) (thread + offset r) =
        load memory (thread + offset r) :=
    I386.load_store_of_disjoint
      ((happart.mono_left (offset_subset _ r)).mono_right (stack_word_subset _ hk))
  have htop (memory : Memory) (value : Word) (r : Register) :=
    hskip memory value r (by decide : 16364 + 4 ≤ 4 * stackSize)
  have hbottom (memory : Memory) (value : Word) (r : Register) :=
    hskip memory value r (by decide : 0 + 4 ≤ 4 * stackSize)
  intro r
  rw [stackAllocate_eq]
  cases r <;>
    simp (disch := decide) only [load_store_register, load_store_pcOffset, I386.load_store, htop,
      hbottom, initialRegisters]

/-- The kernel with a new thread. -/
def forked (p : Processor) (memory : Memory) (thread stack : Word) : Processor :=
  { p with
    state := { p.state with memory := memory }
    threads := thread :: p.threads
    stack := Function.update p.stack thread (some stack) }

theorem stackOf_forked (h : t ≠ thread) :
    layout.stackOf (forked p memory thread stack) t = layout.stackOf p t := by
  rw [Layout.stackOf, Layout.stackOf, forked]
  dsimp only
  rw [Function.update_of_ne h]

theorem stackOf_forked_self (layout : Layout) :
    layout.stackOf (forked p memory thread stack) thread = range stack (4 * stackSize) := by
  rw [Layout.stackOf, forked]
  dsimp only
  rw [Function.update_self]

theorem apart_forked (h : Apart layout p) (hfresh : thread ∉ p.threads)
    (hdisciplined : layout.Disciplined p (.fork thread stack func arg)) :
    Apart layout (forked p memory thread stack) := by
  obtain ⟨hown, hspace, hothers⟩ := hdisciplined
  have hold {u : Word} (hu : u ∈ p.threads) :
      layout.area (forked p memory thread stack) u = layout.area p u :=
    area_congr (stackOf_forked fun h => hfresh (h ▸ hu))
  have hnew : layout.area (forked p memory thread stack) thread =
      object thread ∪ range stack (4 * stackSize) := by
    rw [Layout.area, stackOf_forked_self]
  refine ⟨.tail _ h.current, ?_, ?_, ?_⟩
  · intro u hu
    cases hu with
    | head => exact hnew ▸ hspace
    | tail _ hu => exact hold hu ▸ h.space u hu
  · intro u hu
    cases hu with
    | head => rwa [stackOf_forked_self]
    | tail _ hu =>
        have hne : u ≠ thread := fun he => hfresh (he ▸ hu)
        rw [stackOf_forked hne]
        exact h.own u hu
  · intro u hu v hv hne
    cases hu with
    | head =>
        cases hv with
        | head => exact absurd rfl hne
        | tail _ hv =>
            rw [hnew, hold hv]
            exact hothers v hv
    | tail _ hu =>
        cases hv with
        | head =>
            rw [hnew, hold hu]
            exact (hothers u hu).symm
        | tail _ hv =>
            rw [hold hu, hold hv]
            exact h.others u hu v hv hne

theorem suspended_born (hdisciplined : layout.Disciplined p (.fork thread stack func arg)) :
    Suspended layout
      (forked p (stackAllocate layout.symbols p.state.memory thread stack func arg) thread stack)
      thread (born layout.symbols p.state.memory thread stack func arg)
      (initialRegisters layout.symbols p.state.memory thread stack func arg) where
  holds := holds_stackAllocate hdisciplined.1
  popped := rfl
  pc := by
    have htop {k : ℕ} (memory : Memory) (value : Word) (h : word (thread + BitVec.ofNat 32 k) ⊆
        object thread) : load (store memory (thread + BitVec.ofNat 32 k) value)
          (stack + 16364#32) = load memory (stack + 16364#32) :=
      I386.load_store_of_disjoint ((hdisciplined.1.symm.mono_left
        (stack_word_subset _ (by decide))).mono_right h)
    have hbottom (memory : Memory) (value : Word) :
        load (store memory (stack + 0#32) value) (stack + 16364#32) =
          load memory (stack + 16364#32) :=
      load_store_offset (by decide) (by decide) (by decide)
    have hobject (memory : Memory) (value : Word) (r : Register) :
        load (store memory (thread + offset r) value) (stack + 16364#32) =
          load memory (stack + 16364#32) :=
      I386.load_store_of_disjoint ((hdisciplined.1.symm.mono_left
        (stack_word_subset _ (by decide))).mono_right (offset_subset thread r))
    simp only [forked, initialRegisters, stackAllocate_eq, hobject, htop _ _ (pcOffset_subset _),
      pcOffset, hbottom, I386.load_store, born]
  top := by
    rw [stackOf_forked_self]
    exact stack_word_subset _ (by decide)
  slot := by
    rw [stackOf_forked_self]
    have h := stack_word_subset stack (k := 16368) (by decide)
    have hsum : stack + 16364#32 + 4#32 = stack + 16368#32 := by
      rw [BitVec.add_assoc]
      rfl
    rwa [← hsum] at h
  frame := by
    rw [stackOf_forked_self]
    exact inMemory_bytes _ _

theorem represents_fork (h : Represents layout p c) (hfresh : thread ∉ p.threads)
    (hdisciplined : layout.Disciplined p (.fork thread stack func arg)) :
    Represents layout
      (forked p (stackAllocate layout.symbols p.state.memory thread stack func arg) thread stack)
      { c with
        suspended := Function.update c.suspended thread
          (some (born layout.symbols p.state.memory thread stack func arg)) } := by
  have hkeep {u : Word} (hu : u ∈ p.threads) : ∀ a ∈ layout.area p u,
      stackAllocate layout.symbols p.state.memory thread stack func arg a = p.state.memory a :=
    fun a ha => stackAllocate_of_not_mem
      fun hnew => Set.disjoint_left.mp (hdisciplined.2.2 u hu) hnew ha
  have hne {u : Word} (hu : u ∈ p.threads) : u ≠ thread := fun he => hfresh (he ▸ hu)
  refine {
    current := h.current
    registers := h.registers
    pc := h.pc
    frame := ?_
    suspended := ?_
    all := ?_
    apart := apart_forked h.apart hfresh hdisciplined }
  · have hcurrent := h.apart.current
    have hframe := h.frame.congr fun a ha => hkeep hcurrent a (.inr ha)
    rwa [← stackOf_forked (hne hcurrent)] at hframe
  · intro u context hu
    dsimp only at hu
    by_cases hut : u = thread
    · subst hut
      rw [Function.update_self] at hu
      cases hu
      exact ⟨.head _, (hne h.apart.current).symm, _, suspended_born hdisciplined⟩
    · rw [Function.update_of_ne hut] at hu
      obtain ⟨hmem, hcurrent, registers, hsuspended⟩ := h.suspended u context hu
      exact ⟨.tail _ hmem, hcurrent, registers,
        hsuspended.congr (stackOf_forked hut) (hkeep hmem)⟩
  · intro u hu hcurrent
    dsimp only
    by_cases hut : u = thread
    · rw [hut, Function.update_self]
      rfl
    · rw [Function.update_of_ne hut]
      exact h.all u (List.mem_of_ne_of_mem hut hu) hcurrent

end Fork

end Nachos.Switch
