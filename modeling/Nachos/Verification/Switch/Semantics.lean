import Nachos.Model.Switch

/-! # What `SWITCH` does -/

namespace Nachos.Switch

open I386 (Memory Register State load store word range)

/-- The members of a `Thread` that `switch.s` reads and writes. -/
def object (thread : Word) : Set Word :=
  range thread (4 + 4 * machineStateSize)

/-- The object holds the registers. -/
def Holds (memory : Memory) (thread : Word) (registers : Register → Word) : Prop :=
  ∀ r, load memory (thread + offset r) = registers r

variable {symbols : Symbols} {memory memory' : Memory} {thread value : Word}
  {registers : Register → Word} {s : State}

theorem offset_subset (thread : Word) (r : Register) :
    word (thread + offset r) ⊆ object thread := by
  cases r <;> exact I386.word_subset_range (by decide) (by decide)

theorem pcOffset_subset (thread : Word) : word (thread + pcOffset) ⊆ object thread :=
  I386.word_subset_range (by decide) (by decide)

theorem holds_congr (h : ∀ p ∈ object thread, memory p = memory' p)
    (hholds : Holds memory thread registers) : Holds memory' thread registers := by
  intro r
  rw [← hholds r]
  exact (I386.load_congr fun p hp => h p (offset_subset thread r hp)).symm

theorem load_store_offset {i j : ℕ} (h : i + 4 ≤ j ∨ j + 4 ≤ i) (hi : i < 2 ^ 32 - 3)
    (hj : j < 2 ^ 32 - 3) :
    load (store memory (thread + BitVec.ofNat 32 j) value) (thread + BitVec.ofNat 32 i) =
      load memory (thread + BitVec.ofNat 32 i) :=
  I386.load_store_of_disjoint (I386.word_disjoint_of_offsets h hi hj)

theorem load_store_register {r r' : Register} (h : r ≠ r') :
    load (store memory (thread + offset r') value) (thread + offset r) =
      load memory (thread + offset r) := by
  cases r <;> cases r' <;>
    first
    | exact absurd rfl h
    | exact load_store_offset (by decide) (by decide) (by decide)

theorem load_store_pcOffset (r : Register) :
    load (store memory (thread + pcOffset) value) (thread + offset r) =
      load memory (thread + offset r) := by
  cases r <;> exact load_store_offset (by decide) (by decide) (by decide)

/-- The memory behind the first half of `SWITCH`. -/
def saved (symbols : Symbols) (s : State) (thread : Word) : Memory :=
  let memory := store s.memory symbols.eaxSave (s.registers .eax)
  let memory := store memory (thread + offset .ebx) (s.registers .ebx)
  let memory := store memory (thread + offset .ecx) (s.registers .ecx)
  let memory := store memory (thread + offset .edx) (s.registers .edx)
  let memory := store memory (thread + offset .esi) (s.registers .esi)
  let memory := store memory (thread + offset .edi) (s.registers .edi)
  let memory := store memory (thread + offset .ebp) (s.registers .ebp)
  let memory := store memory (thread + offset .esp) (s.registers .esp)
  let memory := store memory (thread + offset .eax) (s.registers .eax)
  store memory (thread + pcOffset) (load s.memory (s.registers .esp))

theorem saved_of_not_mem {p : Word} (hsave : p ∉ word symbols.eaxSave) (hp : p ∉ object thread) :
    saved symbols s thread p = s.memory p := by
  have hout (r : Register) : p ∉ word (thread + offset r) := fun h => hp (offset_subset _ r h)
  have hpc : p ∉ word (thread + pcOffset) := fun h => hp (pcOffset_subset _ h)
  dsimp only [saved]
  rw [I386.store_of_not_mem hpc, I386.store_of_not_mem (hout .eax),
    I386.store_of_not_mem (hout .esp), I386.store_of_not_mem (hout .ebp),
    I386.store_of_not_mem (hout .edi), I386.store_of_not_mem (hout .esi),
    I386.store_of_not_mem (hout .edx), I386.store_of_not_mem (hout .ecx),
    I386.store_of_not_mem (hout .ebx), I386.store_of_not_mem hsave]

theorem holds_saved (symbols : Symbols) (s : State) (thread : Word) :
    Holds (saved symbols s thread) thread s.registers := by
  intro r
  cases r <;>
    simp (disch := decide) only [saved, load_store_register, load_store_pcOffset, I386.load_store]

/-- What the caller of `SWITCH` guarantees about the object it passes. -/
structure Passed (symbols : Symbols) (s : State) (thread : Word) : Prop where
  space : Disjoint (word symbols.eaxSave) (object thread)
  stack : Disjoint (range (s.registers .esp) 12) (word symbols.eaxSave ∪ object thread)

theorem stack_subset (a : Word) {k : ℕ} (hk : k + 4 ≤ 12) :
    word (a + BitVec.ofNat 32 k) ⊆ range a 12 :=
  I386.word_subset_range hk (by decide)

theorem load_stack_saved (hpassed : Passed symbols s thread) {a : Word}
    (ha : word a ⊆ range (s.registers .esp) 12) :
    load (saved symbols s thread) a = load s.memory a := by
  refine I386.load_congr fun p hp => ?_
  have hout := Set.disjoint_left.mp hpassed.stack (ha hp)
  exact saved_of_not_mem (fun h => hout (.inl h)) fun h => hout (.inr h)

theorem run_saveCode (hpassed : Passed symbols s thread)
    (harg : load s.memory (s.registers .esp + 4#32) = thread) :
    s.run (saveCode symbols) = {
      registers := Function.update (Function.update s.registers .eax thread) .ebx
        (load s.memory (s.registers .esp))
      memory := saved symbols s thread } := by
  have htop : word (s.registers .esp) ⊆ range (s.registers .esp) 12 := by
    have h := stack_subset (s.registers .esp) (k := 0) (by decide)
    rwa [BitVec.add_zero] at h
  have hslot {a : Word} (ha : word a ⊆ range (s.registers .esp) 12) :
      load (store s.memory symbols.eaxSave (s.registers .eax)) a = load s.memory a :=
    I386.load_store_of_disjoint ((hpassed.stack.mono_left ha).mono_right Set.subset_union_left)
  have hsave (memory : Memory) (r : Register) (value : Word) :
      load (store memory (thread + offset r) value) symbols.eaxSave = load memory symbols.eaxSave :=
    I386.load_store_of_disjoint (hpassed.space.mono_right (offset_subset _ r))
  have hobject (memory : Memory) (r : Register) (value : Word) :
      load (store memory (thread + offset r) value) (s.registers .esp) =
        load memory (s.registers .esp) :=
    I386.load_store_of_disjoint ((hpassed.stack.mono_left htop).mono_right
      ((offset_subset _ r).trans Set.subset_union_right))
  simp (disch := decide) only [saveCode, State.run_cons, State.run_nil, State.exec, State.read,
    State.write, eax, ebx, savedAt, Function.update_self, Function.update_of_ne,
    hslot (stack_subset _ (by decide : 4 + 4 ≤ 12)), hslot htop, harg, hsave, hobject,
    I386.load_store, Function.update_idem, BitVec.add_zero, saved]

/-- The memory behind the second half, when the thread to be resumed has the saved
registers. -/
def resumed (symbols : Symbols) (memory : Memory) (thread : Word) (registers : Register → Word) :
    Memory :=
  store (store memory symbols.eaxSave (registers .eax)) (registers .esp + 4#32)
    (load memory (thread + pcOffset))

theorem run_restoreCode (hspace : Disjoint (word symbols.eaxSave) (object thread))
    (harg : load s.memory (s.registers .esp + 8#32) = thread)
    (hholds : Holds s.memory thread registers)
    (hslot : Disjoint (word symbols.eaxSave) (word (registers .esp + 4#32))) :
    s.run (restoreCode symbols) = {
      registers := registers
      memory := resumed symbols s.memory thread registers } := by
  have hobject (value : Word) (r : Register) :
      load (store s.memory symbols.eaxSave value) (thread + offset r) = registers r := by
    rw [I386.load_store_of_disjoint (hspace.symm.mono_left (offset_subset _ r)), hholds r]
  have hpc (value : Word) : load (store s.memory symbols.eaxSave value) (thread + pcOffset) =
      load s.memory (thread + pcOffset) :=
    I386.load_store_of_disjoint (hspace.symm.mono_left (pcOffset_subset _))
  have hsave (memory : Memory) (value : Word) :
      load (store memory (registers .esp + 4#32) value) symbols.eaxSave =
        load memory symbols.eaxSave :=
    I386.load_store_of_disjoint hslot
  simp (disch := decide) only [restoreCode, State.run_cons, State.run_nil, State.exec, State.read,
    State.write, eax, ebx, savedAt, Function.update_self, Function.update_of_ne, harg, hobject, hpc,
    hsave, hholds .eax, I386.load_store, resumed]
  congr 1
  funext r
  cases r <;> rfl

theorem resumed_of_not_mem {p : Word} (hsave : p ∉ word symbols.eaxSave)
    (hslot : p ∉ word (registers .esp + 4#32)) :
    resumed symbols memory thread registers p = memory p := by
  rw [resumed, I386.store_of_not_mem hslot, I386.store_of_not_mem hsave]

/-- The thread to be resumed: what its object holds, and where its stack may lie. -/
structure Resumable (symbols : Symbols) (s : State) (oldThread nextThread : Word)
    (registers : Register → Word) : Prop where
  apart : Disjoint (object oldThread) (object nextThread)
  space : Disjoint (word symbols.eaxSave) (object nextThread)
  holds : Holds s.memory nextThread registers
  top : Disjoint (word (registers .esp)) (word symbols.eaxSave ∪ object oldThread)
  slot : Disjoint (word (registers .esp + 4#32)) (word symbols.eaxSave ∪ object oldThread)

/-- `SWITCH` goes on where the return address on the stack of the next thread says, with the
registers that were saved in its object. -/
theorem switch_eq {oldThread nextThread : Word} (hpassed : Passed symbols s oldThread)
    (hresumable : Resumable symbols s oldThread nextThread registers)
    (hold : load s.memory (s.registers .esp + 4#32) = oldThread)
    (hnext : load s.memory (s.registers .esp + 8#32) = nextThread) :
    switch symbols s = (load s.memory (registers .esp), {
      registers := Function.update registers .esp (registers .esp + 4#32)
      memory := resumed symbols (saved symbols s oldThread) nextThread registers }) := by
  have hholds : Holds (saved symbols s oldThread) nextThread registers := by
    refine holds_congr (fun p hp => ?_) hresumable.holds
    exact (saved_of_not_mem (Set.disjoint_right.mp hresumable.space hp)
      (Set.disjoint_right.mp hresumable.apart hp)).symm
  have harg : load (saved symbols s oldThread) (s.registers .esp + 8#32) = nextThread :=
    (load_stack_saved hpassed (stack_subset _ (by decide))).trans hnext
  have htop : load (resumed symbols (saved symbols s oldThread) nextThread registers)
      (registers .esp) = load s.memory (registers .esp) := by
    refine I386.load_congr fun p hp => ?_
    have hout := Set.disjoint_left.mp hresumable.top hp
    have hnot : p ∉ word (registers .esp + 4#32) := by
      have h := I386.word_disjoint_of_offsets (a := registers .esp) (i := 0) (j := 4)
        (by decide) (by decide) (by decide)
      rw [BitVec.add_zero] at h
      exact Set.disjoint_left.mp h hp
    rw [resumed_of_not_mem (fun h => hout (.inl h)) hnot]
    exact saved_of_not_mem (fun h => hout (.inl h)) fun h => hout (.inr h)
  have hrestore : (s.run (saveCode symbols)).run (restoreCode symbols) = {
      registers := registers
      memory := resumed symbols (saved symbols s oldThread) nextThread registers } := by
    rw [run_saveCode hpassed hold]
    exact run_restoreCode hresumable.space harg hholds
      (hresumable.slot.mono_right Set.subset_union_left).symm
  simp only [switch, hrestore, State.ret, State.pop, htop]

end Nachos.Switch
