import Nachos.Verification.Switch.Transfer

/-! # What a thread gets back -/

namespace Nachos.Switch

open I386 (Memory Register State load store word range)

variable {layout : Layout} {p p' : Processor} {c : Coroutines Word Context}
  {label : Processor.Label} {labels : List Processor.Label} {t : Word}

/-! ## Simulation -/

/-- A step of the kernel is a step of the coroutines. -/
theorem Represents.step (h : Represents layout p c) (hdisciplined : layout.Disciplined p label)
    (hstep : p.step layout.symbols label = some p') (hok : p'.aborted = false) :
    ∃ c', c.step (spec layout p label) = some c' ∧ Represents layout p' c' := by
  rw [Processor.step.eq_def] at hstep
  split_ifs at hstep with haborted
  cases label with
  | code state pc =>
      cases hstep
      exact ⟨_, rfl, represents_code h hdisciplined⟩
  | fork thread stack func arg =>
      dsimp only at hstep
      split_ifs at hstep with hthread
      cases hstep
      refine ⟨_, ?_, represents_fork h hthread hdisciplined⟩
      have hcurrent : thread ≠ c.current := by
        rintro rfl
        exact hthread (h.current ▸ h.apart.current)
      have hnone : c.suspended thread = none := by
        rw [Option.eq_none_iff_forall_ne_some]
        intro context hsome
        exact hthread (h.suspended thread context hsome).1
      rw [spec, Coroutines.step, if_neg]
      rintro (hthread | hthread)
      · exact hcurrent hthread
      · rw [hnone] at hthread
        cases hthread
  | run nextThread returnAddress =>
      dsimp only at hstep
      split_ifs at hstep with hnext
      cases hstep
      obtain ⟨context, hcontext⟩ := Option.isSome_iff_exists.mp (h.all _ hnext.1 hnext.2)
      obtain ⟨-, -, registers, hsuspended⟩ := h.suspended _ _ hcontext
      have hcheck : p.checkOverflow p.currentThread = true := by
        by_contra hcheck
        rw [Processor.run, if_neg hcheck] at hok
        cases hok
      rw [run_eq h.apart hnext.1 hnext.2 hdisciplined hsuspended hcheck]
      refine ⟨_, ?_, represents_run h hnext.1 hnext.2 hdisciplined hsuspended⟩
      rw [spec, Coroutines.step, if_neg (h.current ▸ hnext.2), hcontext]
      rfl
  | delete thread =>
      dsimp only at hstep
      split_ifs at hstep with hthread
      cases hstep
      refine ⟨_, ?_, represents_delete h hthread⟩
      rw [spec, Coroutines.step, if_neg (h.current ▸ hthread)]

/-- The label neither gives the processor to the thread nor deletes it. -/
def Spares (t : Word) : Processor.Label → Prop
  | .code _ _ => True
  | .fork _ _ _ _ => True
  | .run nextThread _ => nextThread ≠ t
  | .delete thread => thread ≠ t

theorem spares_spec (h : Spares t label) : (spec layout p label).Spares t := by
  cases label with
  | code state pc => trivial
  | fork thread stack func arg => trivial
  | run nextThread returnAddress => exact h
  | delete thread => exact h

theorem aborted_of_exec (hexec : Runs.exec (Processor.step layout.symbols) p labels = some p')
    (hok : p'.aborted = false) : p.aborted = false := by
  cases labels with
  | nil =>
      cases hexec
      exact hok
  | cons label labels =>
      obtain ⟨p₁, hstep, -⟩ := Option.bind_eq_some_iff.mp hexec
      rw [Processor.step.eq_def] at hstep
      split_ifs at hstep with haborted
      simpa using haborted

/-- A run of the kernel is a run of the coroutines. -/
theorem Represents.exec (h : Represents layout p c)
    (hdisciplined : Runs.AllSteps (Processor.step layout.symbols) layout.Disciplined p labels)
    (hexec : Runs.exec (Processor.step layout.symbols) p labels = some p')
    (hok : p'.aborted = false) :
    ∃ trace c', Runs.exec Coroutines.step c trace = some c' ∧ Represents layout p' c' ∧
      ∀ t, (∀ label ∈ labels, Spares t label) → ∀ label ∈ trace, label.Spares t := by
  induction labels generalizing p c with
  | nil =>
      cases hexec
      exact ⟨[], c, rfl, h, fun _ _ _ hlabel => by cases hlabel⟩
  | cons label labels ih =>
      obtain ⟨p₁, hstep, hrest⟩ := Option.bind_eq_some_iff.mp hexec
      obtain ⟨hlabel, hlabels⟩ := hdisciplined p₁ hstep
      obtain ⟨c₁, hstep', h₁⟩ := h.step hlabel hstep (aborted_of_exec hrest hok)
      obtain ⟨trace, c', hexec', h', hspares⟩ := ih h₁ hlabels hrest
      refine ⟨spec layout p label :: trace, c', ?_, h', ?_⟩
      · rw [Runs.exec_cons hstep', hexec']
      · intro t ht label' hlabel'
        cases hlabel' with
        | head => exact spares_spec (ht label List.mem_cons_self)
        | tail _ hlabel' =>
            exact hspares t (fun l hl => ht l (List.mem_cons_of_mem label hl)) label' hlabel'

/-! ## From the start -/

/-- The kernel when only the main thread exists. -/
def Layout.boot (layout : Layout) (state : State) (pc : Word) : Processor :=
  Processor.boot state pc layout.mainThread

noncomputable def Layout.coroutines (layout : Layout) (state : State) (pc : Word) :
    Coroutines Word Context where
  current := layout.mainThread
  now := ⟨state.registers, pc, bytes state.memory layout.mainStack⟩
  suspended _ := none

theorem represents_boot (layout : Layout) (state : State) (pc : Word) :
    Represents layout (layout.boot state pc) (layout.coroutines state pc) := by
  have hthread {u : Word} (hu : u ∈ (layout.boot state pc).threads) : u = layout.mainThread :=
    List.mem_singleton.mp hu
  refine {
    current := rfl
    registers := rfl
    pc := rfl
    frame := inMemory_bytes _ _
    suspended := ?_
    all := ?_
    apart := ⟨.head _, ?_, ?_, ?_⟩ }
  · intro u context hu
    cases hu
  · intro u hu hne
    exact absurd (hthread hu) hne
  · intro u hu
    exact hthread hu ▸ layout.space
  · intro u hu
    exact hthread hu ▸ layout.apart
  · intro u hu v hv hne
    exact absurd ((hthread hu).trans (hthread hv).symm) hne

theorem represents_reached {state : State} {pc : Word}
    (hdisciplined : Runs.AllSteps (Processor.step layout.symbols) layout.Disciplined
      (layout.boot state pc) labels)
    (hexec : Runs.exec (Processor.step layout.symbols) (layout.boot state pc) labels = some p)
    (hok : p.aborted = false) : ∃ c, Represents layout p c := by
  obtain ⟨-, c, -, h, -⟩ := (represents_boot layout state pc).exec hdisciplined hexec hok
  exact ⟨c, h⟩

theorem aborted_of_step (hstep : p.step layout.symbols label = some p') : p.aborted = false := by
  rw [Processor.step.eq_def] at hstep
  split_ifs at hstep with haborted
  simpa using haborted

/-- Whoever waits with a context gets it back. -/
theorem Represents.resumed {context : Context} {returnAddress : Word}
    {p₁ : Processor} (h : Represents layout p c) (hne : c.current ≠ t)
    (hcontext : c.suspended t = some context)
    (hdisciplined : Runs.AllSteps (Processor.step layout.symbols) layout.Disciplined p
      (labels ++ [.run t returnAddress]))
    (hspares : ∀ label ∈ labels, Spares t label)
    (hexec : Runs.exec (Processor.step layout.symbols) p labels = some p₁)
    (hstep : p₁.step layout.symbols (.run t returnAddress) = some p') (hok : p'.aborted = false) :
    p'.currentThread = t ∧ p'.state.registers = context.registers ∧ p'.pc = context.pc ∧
      InMemory p'.state.memory (layout.stackOf p' t) context.frame := by
  obtain ⟨trace, c₁, hexec₁, h₁, htrace⟩ :=
    h.exec hdisciplined.left hexec (aborted_of_step hstep)
  obtain ⟨hrun, -⟩ := hdisciplined.exec hexec p' hstep
  obtain ⟨c', hstep', h'⟩ := h₁.step hrun hstep hok
  obtain ⟨hcurrent, hnow⟩ := Coroutines.resumed (htrace t hspares) hne hcontext hexec₁ hstep'
  rw [← hnow]
  refine ⟨h'.current.symm.trans hcurrent, h'.registers.symm, h'.pc.symm, ?_⟩
  rw [← hcurrent, h'.current]
  exact h'.frame

/-! ## Results -/

/-- A thread that calls `SWITCH` goes on behind the call with its registers and its stack when
it gets the processor back, whatever the other threads have done. -/
theorem resumes_behind_call (layout : Layout) (state : State) (pc : Word)
    {before between : List Processor.Label} {p₁ p₂ p₃ p₄ : Processor}
    {nextThread returnAddress returnAddress' : Word}
    (hbefore : Runs.exec (Processor.step layout.symbols) (layout.boot state pc) before = some p₁)
    (hleave : p₁.step layout.symbols (.run nextThread returnAddress) = some p₂)
    (hbetween : Runs.exec (Processor.step layout.symbols) p₂ between = some p₃)
    (hreturn : p₃.step layout.symbols (.run p₁.currentThread returnAddress') = some p₄)
    (hok : p₄.aborted = false) (hspares : ∀ label ∈ between, Spares p₁.currentThread label)
    (hdisciplined : Runs.AllSteps (Processor.step layout.symbols) layout.Disciplined
      (layout.boot state pc) (before ++ .run nextThread returnAddress ::
        (between ++ [.run p₁.currentThread returnAddress']))) :
    p₄.currentThread = p₁.currentThread ∧ p₄.pc = returnAddress ∧
      p₄.state.registers =
        Function.update p₁.state.registers .esp (p₁.state.registers .esp - 8#32) ∧
      ∀ a ∈ layout.stackOf p₁ p₁.currentThread, a ∉ range (p₁.state.registers .esp - 12#32) 12 →
        p₄.state.memory a = p₁.state.memory a := by
  obtain ⟨c₁, h₁⟩ := represents_reached hdisciplined.left hbefore (aborted_of_step hleave)
  obtain ⟨hrun, hrest⟩ := hdisciplined.exec hbefore p₂ hleave
  have hok₂ : p₂.aborted = false := aborted_of_exec hbetween (aborted_of_step hreturn)
  obtain ⟨c₂, hstep, h₂⟩ := h₁.step hrun hleave hok₂
  have hne : nextThread ≠ p₁.currentThread := by
    rw [Processor.step.eq_def] at hleave
    split_ifs at hleave
    dsimp only at hleave
    split_ifs at hleave with hnext
    exact hnext.2
  have hwaiting : c₂.current = nextThread ∧ c₂.suspended p₁.currentThread =
      some (leaving layout p₁ nextThread returnAddress) := by
    rw [spec, Coroutines.step] at hstep
    split_ifs at hstep with hcurrent
    obtain ⟨resumed, -, rfl⟩ := Option.map_eq_some_iff.mp hstep
    dsimp only
    rw [Function.update_of_ne hne.symm, ← h₁.current, Function.update_self]
    exact ⟨rfl, rfl⟩
  obtain ⟨hcurrent, hregisters, hpc, hframe⟩ := h₂.resumed (hwaiting.1 ▸ hne) hwaiting.2 hrest
    hspares hbetween hreturn hok
  have hesp : (p₁.state.registers .esp - 12#32) + 4#32 = p₁.state.registers .esp - 8#32 := by
    rw [sub_add]
    rfl
  refine ⟨hcurrent, hpc, ?_, fun a ha hout => ?_⟩
  · rw [hregisters, leaving, callSwitch_eq]
    dsimp only
    rw [Function.update_self, Function.update_idem, hesp]
  · have hin : (leaving layout p₁ nextThread returnAddress).frame a =
        some (p₁.state.memory a) := by
      rw [← callSwitch_of_not_mem _ p₁.currentThread nextThread returnAddress hout, leaving]
      refine if_pos ⟨ha, fun hslot => hout ?_⟩
      rw [callSwitch_eq] at hslot
      dsimp only at hslot
      rw [Function.update_self] at hslot
      exact stack_subset _ (by decide) hslot
    exact (hframe a _ hin).2

/-- A main thread and a forked one, far apart. -/
def sampleLayout : Layout where
  symbols := ⟨0x1000#32, 0x2000#32, 0x2100#32, 0x2200#32⟩
  mainThread := 0x3000#32
  mainStack := range 0x10000#32 0x1000
  space := by
    rw [Set.disjoint_union_right]
    exact ⟨I386.range_disjoint (by decide) (by decide) (by decide),
      I386.range_disjoint (by decide) (by decide) (by decide)⟩
  apart := I386.range_disjoint (by decide) (by decide) (by decide)

def sampleState : State where
  registers r := if r = .esp then 0x10800#32 else 7#32
  memory _ := 0#8

def sampleFork : Processor.Label :=
  .fork 0x4000#32 0x20000#32 0x2300#32 5#32

theorem sampleFork_disciplined :
    sampleLayout.Disciplined (sampleLayout.boot sampleState 0x500#32) sampleFork := by
  refine ⟨I386.range_disjoint (by decide) (by decide) (by decide), ?_, fun u hu => ?_⟩
  · rw [Set.disjoint_union_right]
    exact ⟨I386.range_disjoint (by decide) (by decide) (by decide),
      I386.range_disjoint (by decide) (by decide) (by decide)⟩
  · cases List.mem_singleton.mp hu
    rw [Layout.area, Set.disjoint_union_right, Set.disjoint_union_left, Set.disjoint_union_left]
    exact ⟨⟨I386.range_disjoint (by decide) (by decide) (by decide),
        I386.range_disjoint (by decide) (by decide) (by decide)⟩,
      ⟨I386.range_disjoint (by decide) (by decide) (by decide),
        I386.range_disjoint (by decide) (by decide) (by decide)⟩⟩

/-- The main thread forks a thread, gives it the processor and gets it back. -/
theorem resumes_behind_call_thereAndBack :
    ∃ p, Runs.exec (Processor.step sampleLayout.symbols)
      (sampleLayout.boot sampleState 0x500#32)
      [sampleFork, .run 0x4000#32 0x600#32, .run 0x3000#32 0x700#32] = some p ∧
      p.currentThread = 0x3000#32 ∧ p.pc = 0x600#32 ∧
      p.state.registers .esp = 0x107f8#32 := by
  refine ⟨_, rfl, ?_⟩
  have h := resumes_behind_call sampleLayout sampleState 0x500#32
    (show Runs.exec (Processor.step sampleLayout.symbols)
      (sampleLayout.boot sampleState 0x500#32) [sampleFork] = some _ from rfl)
    (show Processor.step sampleLayout.symbols _ (.run 0x4000#32 0x600#32) = some _ from rfl)
    (show Runs.exec (Processor.step sampleLayout.symbols) _ [] = some _ from rfl)
    (show Processor.step sampleLayout.symbols _ (.run 0x3000#32 0x700#32) = some _ from rfl)
    (by decide) (by simp)
    (.cons rfl sampleFork_disciplined
      (.cons rfl (I386.range_subset (by decide) (by decide))
        (.cons rfl (I386.range_subset (by decide) (by decide)) trivial)))
  exact ⟨h.1, h.2.1, (congrFun h.2.2.1 .esp).trans (by decide)⟩

end Nachos.Switch
