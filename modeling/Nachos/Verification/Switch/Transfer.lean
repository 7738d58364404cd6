import Nachos.Verification.Switch.Coroutines

/-! # A switch is a transfer -/

namespace Nachos.Switch

open I386 (Memory Register State load store word range)

variable {layout : Layout} {p : Processor} {c : Coroutines Word Context} {s : State}
  {t oldThread nextThread returnAddress : Word}

theorem callSwitch_eq : Processor.callSwitch s oldThread nextThread returnAddress = {
    registers := Function.update s.registers .esp (s.registers .esp - 12#32)
    memory := store (store (store s.memory (s.registers .esp - 12#32 + 8#32) nextThread)
      (s.registers .esp - 12#32 + 4#32) oldThread) (s.registers .esp - 12#32) returnAddress } := by
  have hsub (a b : Word) : s.registers .esp - a - b = s.registers .esp - (a + b) := sub_sub _ _ _
  have hadd (a b : Word) : s.registers .esp - a + b = s.registers .esp - (a - b) := by
    rw [sub_add]
  simp only [Processor.callSwitch, State.call, State.push, Function.update_self,
    Function.update_idem, hsub, hadd]
  rfl

/-- Pushing the arguments only writes into the three words below the top of the stack. -/
theorem callSwitch_of_not_mem (s : State) (oldThread nextThread returnAddress : Word) {a : Word}
    (h : a ∉ range (s.registers .esp - 12#32) 12) :
    (Processor.callSwitch s oldThread nextThread returnAddress).memory a = s.memory a := by
  have hword {k : ℕ} (hk : k + 4 ≤ 12) :
      a ∉ word (s.registers .esp - 12#32 + BitVec.ofNat 32 k) :=
    fun ha => h (stack_subset _ hk ha)
  have hbottom := hword (k := 0) (by decide)
  rw [BitVec.add_zero] at hbottom
  rw [callSwitch_eq]
  dsimp only
  rw [I386.store_of_not_mem hbottom, I386.store_of_not_mem (hword (by decide)),
    I386.store_of_not_mem (hword (by decide))]

theorem load_callSwitch (s : State) (oldThread nextThread returnAddress : Word) :
    let memory := (Processor.callSwitch s oldThread nextThread returnAddress).memory
    load memory (s.registers .esp - 12#32) = returnAddress ∧
      load memory (s.registers .esp - 12#32 + 4#32) = oldThread ∧
      load memory (s.registers .esp - 12#32 + 8#32) = nextThread := by
  generalize hbottom : s.registers .esp - 12#32 = bottom
  have hzero {memory : Memory} {value : Word} {k : ℕ} (h : 4 ≤ k) (hk : k < 2 ^ 32 - 3) :
      load (store memory bottom value) (bottom + BitVec.ofNat 32 k) =
        load memory (bottom + BitVec.ofNat 32 k) := by
    have hdisjoint := I386.word_disjoint_of_offsets (a := bottom) (i := k) (j := 0)
      (.inr (by omega)) hk (by decide)
    rw [BitVec.add_zero] at hdisjoint
    exact I386.load_store_of_disjoint hdisjoint
  rw [callSwitch_eq]
  simp only [hbottom]
  refine ⟨I386.load_store _ _ _, ?_, ?_⟩
  · rw [hzero (by decide) (by decide), I386.load_store]
  · rw [hzero (by decide) (by decide), load_store_offset (by decide) (by decide) (by decide),
      I386.load_store]

theorem Apart.stack_disjoint (h : Apart layout p) {u : Word} (hu : u ∈ p.threads)
    (ht : t ∈ p.threads) (hne : u ≠ t) :
    Disjoint (layout.stackOf p u) (word layout.symbols.eaxSave ∪ object t) :=
  Set.disjoint_union_right.mpr
    ⟨((h.space u hu).mono_right Set.subset_union_right).symm,
      ((h.others u hu t ht hne).mono_left Set.subset_union_right).mono_right
        Set.subset_union_left⟩

theorem passed_callSwitch (h : Apart layout p)
    (hdisciplined : layout.Disciplined p (.run nextThread returnAddress)) :
    Passed layout.symbols
      (Processor.callSwitch p.state p.currentThread nextThread returnAddress) p.currentThread := by
  have hspace := h.space _ h.current
  refine ⟨hspace.mono_right Set.subset_union_left, ?_⟩
  rw [callSwitch_eq]
  refine Disjoint.mono_left hdisciplined (Set.disjoint_union_right.mpr ⟨?_, ?_⟩)
  · exact (hspace.mono_right Set.subset_union_right).symm
  · exact (h.own _ h.current).symm

theorem callSwitch_outside (h : Apart layout p) (ht : t ∈ p.threads) (hne : t ≠ p.currentThread)
    (hdisciplined : layout.Disciplined p (.run nextThread returnAddress)) {a : Word}
    (ha : a ∈ layout.area p t) :
    (Processor.callSwitch p.state p.currentThread nextThread returnAddress).memory a =
      p.state.memory a :=
  callSwitch_of_not_mem _ _ _ _ fun hrange =>
    Set.disjoint_left.mp (h.others t ht _ h.current hne) ha (.inr (hdisciplined hrange))

theorem resumable_callSwitch {context : Context} {registers : Register → Word}
    (h : Apart layout p) (hmem : nextThread ∈ p.threads) (hne : nextThread ≠ p.currentThread)
    (hdisciplined : layout.Disciplined p (.run nextThread returnAddress))
    (hsuspended : Suspended layout p nextThread context registers) :
    Resumable layout.symbols
      (Processor.callSwitch p.state p.currentThread nextThread returnAddress) p.currentThread
      nextThread registers where
  apart := ((h.others _ h.current _ hmem hne.symm).mono_left Set.subset_union_left).mono_right
    Set.subset_union_left
  space := (h.space _ hmem).mono_right Set.subset_union_left
  holds := holds_congr (fun _ ha => (callSwitch_outside h hmem hne hdisciplined (.inl ha)).symm)
    hsuspended.holds
  top := (h.stack_disjoint hmem h.current hne).mono_left hsuspended.top
  slot := (h.stack_disjoint hmem h.current hne).mono_left hsuspended.slot

/-- The kernel behind a switch. -/
def switched (layout : Layout) (p : Processor) (nextThread returnAddress : Word)
    (registers : Register → Word) (pc : Word) : Processor :=
  let s := Processor.callSwitch p.state p.currentThread nextThread returnAddress
  { p with
    state := {
      registers := Function.update registers .esp (registers .esp + 4#32)
      memory := resumed layout.symbols (saved layout.symbols s p.currentThread) nextThread
        registers }
    pc := pc
    currentThread := nextThread }

theorem run_eq {context : Context} {registers : Register → Word} (h : Apart layout p)
    (hmem : nextThread ∈ p.threads) (hne : nextThread ≠ p.currentThread)
    (hdisciplined : layout.Disciplined p (.run nextThread returnAddress))
    (hsuspended : Suspended layout p nextThread context registers)
    (hcheck : p.checkOverflow p.currentThread = true) :
    p.run layout.symbols nextThread returnAddress =
      switched layout p nextThread returnAddress registers context.pc := by
  obtain ⟨-, hold, hnext⟩ :=
    load_callSwitch p.state p.currentThread nextThread returnAddress
  have hesp : (Processor.callSwitch p.state p.currentThread nextThread returnAddress).registers
      .esp = p.state.registers .esp - 12#32 := by
    rw [callSwitch_eq]
    rfl
  rw [← hesp] at hold hnext
  have hswitch := switch_eq (passed_callSwitch h hdisciplined)
    (resumable_callSwitch h hmem hne hdisciplined hsuspended) hold hnext
  have hpc : load (Processor.callSwitch p.state p.currentThread nextThread returnAddress).memory
      (registers .esp) = context.pc := by
    rw [← hsuspended.pc]
    exact I386.load_congr fun a ha =>
      callSwitch_outside h hmem hne hdisciplined (.inr (hsuspended.top ha))
  rw [Processor.run, if_pos hcheck, hswitch, hpc]
  rfl

section Switched

variable {context : Context} {registers : Register → Word}

/-- What a switch writes behind the pushed words: the object of the old thread, a variable of
its own, and the dead argument on the stack of the next thread. -/
theorem switched_of_not_mem {a : Word} (hsave : a ∉ word layout.symbols.eaxSave)
    (hobject : a ∉ object p.currentThread) (hslot : a ∉ word (registers .esp + 4#32)) {pc : Word} :
    (switched layout p nextThread returnAddress registers pc).state.memory a =
      (Processor.callSwitch p.state p.currentThread nextThread returnAddress).memory a :=
  (resumed_of_not_mem hsave hslot).trans (saved_of_not_mem hsave hobject)

/-- Nobody but the two threads is written to. -/
theorem switched_outside (h : Apart layout p) (hmem : nextThread ∈ p.threads)
    (ht : t ∈ p.threads) (hne : t ≠ p.currentThread) (hnext : t ≠ nextThread)
    (hdisciplined : layout.Disciplined p (.run nextThread returnAddress))
    (hslot : word (registers .esp + 4#32) ⊆ layout.stackOf p nextThread) {a pc : Word}
    (ha : a ∈ layout.area p t) :
    (switched layout p nextThread returnAddress registers pc).state.memory a =
      p.state.memory a := by
  have hcurrent := Set.disjoint_left.mp (h.others t ht _ h.current hne) ha
  have hother := Set.disjoint_left.mp (h.others t ht _ hmem hnext) ha
  rw [switched_of_not_mem (fun hs => Set.disjoint_left.mp (h.space t ht) hs ha)
    (fun ho => hcurrent (.inl ho)) fun hs => hother (.inr (hslot hs))]
  exact callSwitch_outside h ht hne hdisciplined ha

/-- The stack of the thread that gives up the processor. -/
theorem switched_stack (h : Apart layout p) (hmem : nextThread ∈ p.threads)
    (hne : nextThread ≠ p.currentThread)
    (hslot : word (registers .esp + 4#32) ⊆ layout.stackOf p nextThread)
    (returnAddress pc : Word) {a : Word}
    (ha : a ∈ layout.stackOf p p.currentThread) :
    (switched layout p nextThread returnAddress registers pc).state.memory a =
      (Processor.callSwitch p.state p.currentThread nextThread returnAddress).memory a := by
  have hother := Set.disjoint_left.mp (h.others _ h.current _ hmem hne.symm) (.inr ha)
  exact switched_of_not_mem
    (fun hs => Set.disjoint_left.mp (h.space _ h.current) hs (.inr ha))
    (fun ho => Set.disjoint_left.mp (h.own _ h.current) ho ha) fun hs => hother (.inr (hslot hs))

theorem suspended_leaving (h : Apart layout p) (hmem : nextThread ∈ p.threads)
    (hne : nextThread ≠ p.currentThread)
    (hdisciplined : layout.Disciplined p (.run nextThread returnAddress))
    (hslot : word (registers .esp + 4#32) ⊆ layout.stackOf p nextThread) {pc : Word} :
    Suspended layout (switched layout p nextThread returnAddress registers pc) p.currentThread
      (leaving layout p nextThread returnAddress)
      (Processor.callSwitch p.state p.currentThread nextThread returnAddress).registers := by
  have hesp : (Processor.callSwitch p.state p.currentThread nextThread returnAddress).registers
      .esp = p.state.registers .esp - 12#32 := by
    rw [callSwitch_eq]
    rfl
  have htop : word (p.state.registers .esp - 12#32) ⊆ layout.stackOf p p.currentThread := by
    have h := stack_subset (p.state.registers .esp - 12#32) (k := 0) (by decide)
    rw [BitVec.add_zero] at h
    exact h.trans hdisciplined
  have hkeep {a : Word} (ha : a ∈ layout.stackOf p p.currentThread) :=
    switched_stack h hmem hne hslot returnAddress pc ha
  refine ⟨?_, rfl, ?_, ?_, ?_, ?_⟩
  · refine holds_congr (fun a ha => ?_) (holds_saved layout.symbols
      (Processor.callSwitch p.state p.currentThread nextThread returnAddress) p.currentThread)
    refine (resumed_of_not_mem (fun hs => ?_) fun hs => ?_).symm
    · exact Set.disjoint_left.mp (h.space _ h.current) hs (.inl ha)
    · exact Set.disjoint_left.mp (h.others _ h.current _ hmem hne.symm) (.inl ha)
        (.inr (hslot hs))
  · rw [hesp, I386.load_congr fun a ha => hkeep (htop ha)]
    exact (load_callSwitch _ _ _ _).1
  · rw [hesp]
    exact htop
  · rw [hesp]
    exact (stack_subset _ (by decide)).trans hdisciplined
  · exact (inMemory_bytes _ _).congr fun a ha => hkeep ha.1

theorem represents_run (h : Represents layout p c) (hmem : nextThread ∈ p.threads)
    (hne : nextThread ≠ p.currentThread)
    (hdisciplined : layout.Disciplined p (.run nextThread returnAddress))
    (hsuspended : Suspended layout p nextThread context registers) :
    Represents layout (switched layout p nextThread returnAddress registers context.pc) {
      current := nextThread
      now := context
      suspended := Function.update (Function.update c.suspended c.current
        (some (leaving layout p nextThread returnAddress))) nextThread none } := by
  have happart := h.apart
  refine {
    current := rfl
    registers := hsuspended.popped
    pc := rfl
    frame := ?_
    suspended := ?_
    all := ?_
    apart := ⟨hmem, happart.space, happart.own, happart.others⟩ }
  · intro a b hab
    obtain ⟨ha, hb⟩ := hsuspended.frame a b hab
    have hout := Set.disjoint_left.mp (happart.stack_disjoint hmem happart.current hne) ha.1
    refine ⟨ha.1, ?_⟩
    rw [switched_of_not_mem (fun hs => hout (.inl hs)) (fun ho => hout (.inr ho)) ha.2, ← hb]
    exact callSwitch_outside happart hmem hne hdisciplined (.inr ha.1)
  · intro u context' hu
    dsimp only at hu
    by_cases hun : u = nextThread
    · rw [hun, Function.update_self] at hu
      cases hu
    rw [Function.update_of_ne hun, h.current] at hu
    by_cases huc : u = p.currentThread
    · subst huc
      rw [Function.update_self] at hu
      cases hu
      exact ⟨happart.current, hun, _,
        suspended_leaving happart hmem hne hdisciplined hsuspended.slot⟩
    · rw [Function.update_of_ne huc] at hu
      obtain ⟨hmemu, -, registers', hsuspended'⟩ := h.suspended u context' hu
      exact ⟨hmemu, hun, registers', hsuspended'.congr rfl fun a ha =>
        switched_outside happart hmem hmemu huc hun hdisciplined hsuspended.slot ha⟩
  · intro u hu hne'
    have hun : u ≠ nextThread := hne'
    dsimp only
    rw [Function.update_of_ne hun, h.current]
    by_cases huc : u = p.currentThread
    · rw [huc, Function.update_self]
      rfl
    · rw [Function.update_of_ne huc]
      exact h.all u hu huc

end Switched

end Nachos.Switch
