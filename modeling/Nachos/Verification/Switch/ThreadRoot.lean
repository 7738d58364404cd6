import Nachos.Verification.Switch.Resumption

/-! # How a forked thread starts -/

namespace Nachos.Switch

open I386 (Memory Register State load store word range)

variable {layout : Layout} {callee : Callee} {stack f : Word} {arguments : ℕ}

/-- What the compiler promises of a procedure that `ThreadRoot` calls with the stack empty but
for `ThreadRoot`'s own words: it returns with the registers that belong to its caller, and the
words above its arguments are as before. -/
structure Cdecl (callee : Callee) (stack f : Word) (arguments : ℕ) : Prop where
  kept : ∀ s : State, s.registers .esp = stack + 16356#32 →
    ∀ r ∈ [Register.ebx, .esi, .edi, .ebp], (callee f s).registers r = s.registers r
  popped : ∀ s : State, s.registers .esp = stack + 16356#32 →
    (callee f s).registers .esp = stack + 16360#32
  frame : ∀ s : State, s.registers .esp = stack + 16356#32 →
    ∀ a ∈ range stack (4 * stackSize), 16360 + 4 * arguments ≤ (a - stack).toNat →
      (callee f s).memory a = s.memory a

/-- The calls of `ThreadRoot`: the address of the procedure, its return address and the word
that is its first argument if it has one. -/
def callsOf (calls : List (Word × State)) : List (Word × Word × Word) :=
  calls.map fun call => (call.1, load call.2.memory (call.2.registers .esp),
    load call.2.memory (call.2.registers .esp + 4#32))

theorem callThrough_eq (s : State) (calls : List (Word × State)) (returnAddress : Word)
    (r : Register) : callThrough callee returnAddress r (calls, s) =
      (calls ++ [(s.registers r, s.call returnAddress)],
        callee (s.registers r) (s.call returnAddress)) := rfl

/-- What a call pushes, and what is above it. -/
theorem call_spec {s : State} (hesp : s.registers .esp = stack + 16360#32)
    (returnAddress : Word) :
    (s.call returnAddress).registers .esp = stack + 16356#32 ∧
      load (s.call returnAddress).memory (stack + 16356#32) = returnAddress ∧
      load (s.call returnAddress).memory (stack + 16356#32 + 4#32) =
        load s.memory (stack + 16360#32) := by
  have hpush : stack + 16360#32 - 4#32 = stack + 16356#32 := by
    rw [add_sub_assoc]
    rfl
  have habove : stack + 16356#32 + 4#32 = stack + 16360#32 := by
    rw [BitVec.add_assoc]
    rfl
  rw [State.call, State.push, hesp, hpush, habove]
  dsimp only
  rw [Function.update_self, I386.load_store,
    load_store_offset (i := 16360) (j := 16356) (by decide) (by decide) (by decide)]
  exact ⟨rfl, rfl, rfl⟩

theorem call_registers (s : State) (returnAddress : Word) {r : Register} (hr : r ≠ .esp) :
    (s.call returnAddress).registers r = s.registers r :=
  Function.update_of_ne hr _ _

/-- From its first context on, `ThreadRoot` enables interrupts, calls the procedure with its
argument, and finishes the thread. -/
theorem callsOf_threadRoot {symbols : Symbols} {func arg r₁ r₂ r₃ : Word} {s : State}
    (hesp : s.registers .esp = stack + 16368#32)
    (hecx : s.registers startupPC = symbols.interruptEnable)
    (hedx : s.registers initialArg = arg) (hesi : s.registers initialPC = func)
    (hedi : s.registers whenDonePC = symbols.threadFinish)
    (henable : Cdecl callee stack symbols.interruptEnable 0) (hfunc : Cdecl callee stack func 1) :
    ∃ rest, callsOf (threadRoot callee (r₁, r₂, r₃) s).1 =
      [(symbols.interruptEnable, r₁, arg), (func, r₂, arg), (symbols.threadFinish, r₃, rest)] := by
  have hfirst : stack + 16368#32 - 4#32 = stack + 16364#32 := by
    rw [add_sub_assoc]
    rfl
  have hsecond : stack + 16364#32 - 4#32 = stack + 16360#32 := by
    rw [add_sub_assoc]
    rfl
  -- the prologue pushes `ebp` and the argument
  obtain ⟨s₀, hs₀⟩ : ∃ s₀, s.run [.pushl (.register .ebp),
    .movl (.register .esp) (.register .ebp), .pushl (.register initialArg)] = s₀ := ⟨_, rfl⟩
  have hregisters : s₀.registers .esp = stack + 16360#32 ∧
      s₀.registers .ecx = symbols.interruptEnable ∧ s₀.registers .esi = func ∧
      s₀.registers .edi = symbols.threadFinish := by
    rw [← hs₀]
    simp (disch := decide) only [State.run_cons, State.run_nil, State.exec, State.read, State.write,
      State.push, Function.update_self, Function.update_of_ne, hesp, hfirst, hsecond]
    exact ⟨trivial, hecx, hesi, hedi⟩
  have harg : load s₀.memory (stack + 16360#32) = arg := by
    rw [← hs₀]
    simp (disch := decide) only [State.run_cons, State.run_nil, State.exec, State.read, State.write,
      State.push, Function.update_self, Function.update_of_ne, hesp, hfirst, hsecond,
      I386.load_store, initialArg]
    exact hedx
  obtain ⟨hesp₀, hecx₀, hesi₀, hedi₀⟩ := hregisters
  -- `InterruptEnable` leaves the argument where it is
  obtain ⟨hesp₁, hret₁, harg₁⟩ := call_spec hesp₀ r₁
  have hkept₁ := henable.kept _ hesp₁
  have hpopped₁ := henable.popped _ hesp₁
  have hslot : load (callee symbols.interruptEnable (s₀.call r₁)).memory (stack + 16360#32) =
      arg := by
    have habove : stack + 16356#32 + 4#32 = stack + 16360#32 := by
      rw [BitVec.add_assoc]
      rfl
    rw [← harg, ← harg₁, habove]
    refine I386.load_congr fun a ha => henable.frame _ hesp₁ a ?_ ?_
    · exact stack_word_subset stack (k := 16360) (by decide) ha
    · exact ((I386.mem_word_add (by decide)).mp ha).1
  -- the forked procedure leaves the registers of `ThreadRoot` alone
  generalize hs₁ : callee symbols.interruptEnable (s₀.call r₁) = s₁ at *
  obtain ⟨hesp₂, hret₂, harg₂⟩ := call_spec hpopped₁ r₂
  have hesi₁ : s₁.registers .esi = func := by
    rw [hkept₁ .esi (by simp), call_registers _ _ (by decide), hesi₀]
  have hedi₁ : s₁.registers .edi = symbols.threadFinish := by
    rw [hkept₁ .edi (by simp), call_registers _ _ (by decide), hedi₀]
  have hpopped₂ := hfunc.popped _ hesp₂
  have hedi₂ : (callee func (s₁.call r₂)).registers .edi = symbols.threadFinish := by
    rw [hfunc.kept _ hesp₂ .edi (by simp), call_registers _ _ (by decide), hedi₁]
  generalize hs₂ : callee func (s₁.call r₂) = s₂ at *
  obtain ⟨hesp₃, hret₃, -⟩ := call_spec hpopped₂ r₃
  refine ⟨load (s₂.call r₃).memory ((s₂.call r₃).registers .esp + 4#32), ?_⟩
  rw [threadRoot, hs₀]
  dsimp only
  simp only [callThrough_eq, startupPC, hecx₀, hs₁, initialPC, hesi₁, hs₂, whenDonePC, hedi₂,
    callsOf, List.nil_append, List.cons_append, List.map_cons, List.map_nil, hesp₁, hret₁, harg₁,
    harg, hesp₂, hret₂, harg₂, hslot, hesp₃, hret₃]

/-- A forked thread that gets the processor for the first time enables interrupts, calls
`func(arg)` and finishes, in this order. -/
theorem forked_thread_runs_func (layout : Layout) (state : State) (pc : Word)
    {before between : List Processor.Label} {p₁ p₂ p₃ p₄ : Processor}
    {thread stack func arg returnAddress : Word}
    (hbefore : Runs.exec (Processor.step layout.symbols) (layout.boot state pc) before = some p₁)
    (hfork : p₁.step layout.symbols (.fork thread stack func arg) = some p₂)
    (hbetween : Runs.exec (Processor.step layout.symbols) p₂ between = some p₃)
    (hrun : p₃.step layout.symbols (.run thread returnAddress) = some p₄)
    (hok : p₄.aborted = false) (hspares : ∀ label ∈ between, Spares thread label)
    (hdisciplined : Runs.AllSteps (Processor.step layout.symbols) layout.Disciplined
      (layout.boot state pc)
      (before ++ .fork thread stack func arg :: (between ++ [.run thread returnAddress])))
    (callee : Callee) (henable : Cdecl callee stack layout.symbols.interruptEnable 0)
    (hfunc : Cdecl callee stack func 1) (r₁ r₂ r₃ : Word) :
    p₄.currentThread = thread ∧ p₄.pc = layout.symbols.threadRoot ∧
      ∃ rest, callsOf (threadRoot callee (r₁, r₂, r₃) p₄.state).1 =
        [(layout.symbols.interruptEnable, r₁, arg), (func, r₂, arg),
          (layout.symbols.threadFinish, r₃, rest)] := by
  obtain ⟨c₁, h₁⟩ := represents_reached hdisciplined.left hbefore (aborted_of_step hfork)
  obtain ⟨hlabel, hrest⟩ := hdisciplined.exec hbefore p₂ hfork
  have hok₂ : p₂.aborted = false := aborted_of_exec hbetween (aborted_of_step hrun)
  obtain ⟨c₂, hstep, h₂⟩ := h₁.step hlabel hfork hok₂
  have hwaiting : c₂.current ≠ thread ∧ c₂.suspended thread =
      some (born layout.symbols p₁.state.memory thread stack func arg) := by
    rw [spec, Coroutines.step] at hstep
    split_ifs at hstep with hthread
    cases hstep
    exact ⟨fun he => hthread (.inl he.symm), Function.update_self _ _ _⟩
  obtain ⟨hcurrent, hregisters, hpc, -⟩ := h₂.resumed hwaiting.1 hwaiting.2 hrest hspares hbetween
    hrun hok
  have hother {r : Register} (hr : r ≠ .esp) : p₄.state.registers r =
      initialRegisters layout.symbols p₁.state.memory thread stack func arg r := by
    rw [hregisters]
    exact Function.update_of_ne hr _ _
  have hesp : p₄.state.registers .esp = stack + 16368#32 := by
    have hsum : stack + 16364#32 + 4#32 = stack + 16368#32 := by
      rw [BitVec.add_assoc]
      rfl
    rw [hregisters, ← hsum, born]
    dsimp only
    rw [Function.update_self]
  exact ⟨hcurrent, hpc, callsOf_threadRoot hesp (hother (r := .ecx) (by decide))
    (hother (r := .edx) (by decide)) (hother (r := .esi) (by decide))
    (hother (r := .edi) (by decide)) henable hfunc⟩

/-- Procedures that return at once. -/
theorem cdecl_ret (stack f : Word) (arguments : ℕ) :
    Cdecl (fun _ s => s.ret.2) stack f arguments where
  kept s _ r hr := by
    refine Function.update_of_ne ?_ _ _
    rintro rfl
    simp at hr
  popped s hesp := by
    have hsum : stack + 16356#32 + 4#32 = stack + 16360#32 := by
      rw [BitVec.add_assoc]
      rfl
    rw [← hsum, ← hesp, State.ret, State.pop]
    dsimp only
    rw [Function.update_self]
  frame _ _ _ _ _ := rfl

theorem forked_thread_runs_func_returning :
    ∃ p, Runs.exec (Processor.step sampleLayout.symbols)
      (sampleLayout.boot sampleState 0x500#32) [sampleFork, .run 0x4000#32 0x600#32] = some p ∧
      p.pc = 0x2000#32 ∧
      ∃ rest, callsOf (threadRoot (fun _ s => s.ret.2) (0x2010#32, 0x2020#32, 0x2030#32)
          p.state).1 =
        [(0x2100#32, 0x2010#32, 5#32), (0x2300#32, 0x2020#32, 5#32),
          (0x2200#32, 0x2030#32, rest)] := by
  refine ⟨_, rfl, ?_⟩
  exact (forked_thread_runs_func sampleLayout sampleState 0x500#32
    (show Runs.exec (Processor.step sampleLayout.symbols)
      (sampleLayout.boot sampleState 0x500#32) [] = some _ from rfl)
    (show Processor.step sampleLayout.symbols _ sampleFork = some _ from rfl)
    (show Runs.exec (Processor.step sampleLayout.symbols) _ [] = some _ from rfl)
    (show Processor.step sampleLayout.symbols _ (.run 0x4000#32 0x600#32) = some _ from rfl)
    (by decide) (by simp)
    (.cons rfl sampleFork_disciplined
      (.cons rfl (I386.range_subset (by decide) (by decide)) trivial))
    _ (cdecl_ret _ _ _) (cdecl_ret _ _ _) _ _ _).2

end Nachos.Switch
