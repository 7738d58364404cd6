import Nachos.Verification.Interpreter.Memory
import Nachos.Verification.Mips.Alu

/-! # One state of the machine and one of the interpreter

A load of the machine arrives one instruction later; the interpreter has it at once. -/

namespace Nachos

namespace Machine

variable {m m' : Machine} {l : Locals}

/-- `registers[d] = value` for a general register. -/
def setGeneral (m : Machine) (d : BitVec 5) (value : Word) : Machine :=
  m.writeRegister ⟨d.toNat, Nat.lt_trans d.isLt (by decide)⟩ value

theorem general_setGeneral (m : Machine) (d n : BitVec 5) (value : Word) :
    (m.setGeneral d value).general n = if n = d then value else m.general n :=
  general_writeRegister m d n value

theorem readRegister_setGeneral (m : Machine) (d : BitVec 5) (value : Word) {num : Reg}
    (hnum : 32 ≤ num.val) : (m.setGeneral d value).readRegister num = m.readRegister num :=
  readRegister_writeRegister_general m d value hnum

/-- What a register is once the load on its way has arrived. -/
def arriving (m : Machine) (n : BitVec 5) : Word :=
  if m.readRegister loadReg = n.setWidth 32 then m.readRegister loadValueReg else m.general n

/-- No load is on its way to the register. -/
def Idle (m : Machine) (n : BitVec 5) : Prop :=
  m.readRegister loadReg = n.setWidth 32 → n = 0#5

instance Idle.decidable (m : Machine) (n : BitVec 5) : Decidable (m.Idle n) :=
  inferInstanceAs (Decidable (_ → _))

theorem delayedLoad_tables {nextReg nextValue : Word}
    (h : m.delayedLoad nextReg nextValue = some m') : m'.entries = m.entries := by
  unfold delayedLoad at h
  split at h
  · cases h
    rfl
  · cases h

/-- The registers that stay, and the program counters, after an instruction. -/
structure Advanced (m : Machine) (l : Locals) (m' : Machine) : Prop where
  general : ∀ n, m'.general n = if n = 0#5 then 0#32 else m.arriving n
  loads : m'.readRegister loadReg = l.nextLoadReg
  value : m'.readRegister loadValueReg = l.nextLoadValue
  hi : m'.readRegister hiReg = m.readRegister hiReg
  lo : m'.readRegister loReg = m.readRegister loReg
  pc : m'.readRegister pcReg = m.readRegister nextPCReg
  nextPC : m'.readRegister nextPCReg = l.pcAfter
  entries : m'.entries = m.entries
  memory : m'.mainMemory = m.mainMemory

theorem advance_advanced (l : Locals) (hload : (m.readRegister loadReg).toNat < 32) :
    ∃ m', m.advance l = .ok m' ∧ Advanced m l m' := by
  obtain ⟨m', hadvance⟩ := advance_exists l (hload.trans (by decide))
  obtain ⟨m₁, hdelayed, hm'⟩ := advance_eq_ok hadvance
  obtain ⟨-, hmemory, hregister⟩ := delayedLoad_spec hdelayed
  have hcontrol (num : Reg) (hnum : 32 ≤ num.val)
      (hother : num ≠ loadValueReg ∧ num ≠ loadReg) :
      m₁.readRegister num = m.readRegister num := by
    rw [hregister, if_neg (by rintro rfl; exact absurd hnum (by decide)), if_neg hother.1,
      if_neg hother.2, if_neg (by omega)]
  refine ⟨m', hadvance, fun n => general_advance hadvance n, ?_, ?_, ?_, ?_, ?_, ?_, ?_, ?_⟩
  · subst hm'
    exact hregister loadReg
  · subst hm'
    exact hregister loadValueReg
  · subst hm'
    exact hcontrol hiReg (by decide) (by decide)
  · subst hm'
    exact hcontrol loReg (by decide) (by decide)
  · subst hm'
    exact hcontrol nextPCReg (by decide) (by decide)
  · subst hm'
    rfl
  · subst hm'
    exact (delayedLoad_tables hdelayed :)
  · subst hm'
    exact hmemory

end Machine

namespace Interpreter

open Machine Tracking

variable {m m' : Machine} {l l' : Locals} {s s' : Interpreter} {raw : Word}

/-! ## The relations -/

/-- Between two instructions. Register 0 of the interpreter is cleared before an instruction,
that of the machine after it. -/
structure Represents (m : Machine) (s : Interpreter) : Prop where
  register : ∀ n, n ≠ 0#5 → s.reg n = m.arriving n
  zero : m.general 0#5 = 0#32
  loads : (m.readRegister loadReg).toNat < 32
  hi : s.hi = m.readRegister hiReg
  lo : s.lo = m.readRegister loReg
  pc : s.pc = m.readRegister pcReg
  npc : s.npc = m.readRegister nextPCReg
  memory : SameMemory m s

/-- Inside an instruction: the program counters of the interpreter have moved. -/
structure Executing (m : Machine) (l : Locals) (s : Interpreter) : Prop where
  register : ∀ n, n ≠ 0#5 → s.reg n =
    if l.nextLoadReg = n.setWidth 32 then l.nextLoadValue else m.arriving n
  loads : (m.readRegister loadReg).toNat < 32
  nextLoads : l.nextLoadReg.toNat < 32
  hi : s.hi = m.readRegister hiReg
  lo : s.lo = m.readRegister loReg
  pc : s.pc = m.readRegister nextPCReg
  npc : s.npc = l.pcAfter
  memory : SameMemory m s

/-- The registers that an instruction can read. -/
def Reads (m : Machine) (s : Interpreter) : Prop :=
  ∀ n, m.Idle n → s.reg n = m.general n

theorem setWidth_eq_zero {n : BitVec 5} : 0#32 = n.setWidth 32 ↔ n = 0#5 := by
  have hlt := n.isLt
  rw [← BitVec.toNat_inj, ← BitVec.toNat_inj, BitVec.toNat_setWidth]
  simp only [BitVec.toNat_ofNat]
  omega

theorem setWidth_inj {n d : BitVec 5} : d.setWidth 32 = n.setWidth 32 ↔ n = d := by
  have hn := n.isLt
  have hd := d.isLt
  rw [← BitVec.toNat_inj, ← BitVec.toNat_inj, BitVec.toNat_setWidth, BitVec.toNat_setWidth]
  omega

/-! ## The ends of an instruction -/

theorem Executing.advance (h : Executing m l s) :
    ∃ m', m.advance l = .ok m' ∧ Represents m' s := by
  obtain ⟨m', hadvance, hm'⟩ := advance_advanced l h.loads
  refine ⟨m', hadvance, ?_, ?_, ?_, ?_, ?_, ?_, ?_, ?_⟩
  · intro n hn
    rw [h.register n hn, arriving.eq_def m', hm'.loads, hm'.value, hm'.general, if_neg hn]
  · rw [hm'.general, if_pos rfl]
  · rw [hm'.loads]
    exact h.nextLoads
  · rw [hm'.hi, h.hi]
  · rw [hm'.lo, h.lo]
  · rw [hm'.pc, h.pc]
  · rw [hm'.nextPC, h.npc]
  · exact h.memory.congr hm'.entries hm'.memory rfl

/-- The interpreter before its switch. -/
def started (s : Interpreter) : Interpreter :=
  { s with pc := s.npc, npc := s.npc + 4#32 }.setReg 0#5 0#32

theorem reg_setReg (s : Interpreter) (d n : BitVec 5) (value : Word) :
    (s.setReg d value).reg n = if n = d then value else s.reg n :=
  Function.update_apply _ _ _ _

theorem Represents.executing (h : Represents m s) (hsame : SameState m m')
    (hmemory : SameMemory m' s) :
    Executing m' m'.startLocals (started s) ∧ Reads m' (started s) := by
  have hread (num : Reg) : m'.readRegister num = m.readRegister num :=
    congrFun hsame.registers num
  have harriving : m'.arriving = m.arriving := by
    funext n
    unfold arriving general
    simp only [hread]
  have hregister : ∀ n, n ≠ 0#5 → (started s).reg n = m'.arriving n := by
    intro n hn
    rw [started, reg_setReg, if_neg hn, harriving]
    exact h.register n hn
  have hnext : m'.startLocals.nextLoadReg.toNat < 32 := by
    simp [startLocals]
  refine ⟨⟨fun n hn => ?_, ?_, hnext, ?_, ?_, ?_, ?_, ?_⟩, fun n hidle => ?_⟩
  · rw [hregister n hn, if_neg]
    exact mt setWidth_eq_zero.mp hn
  · rw [hread]
    exact h.loads
  · rw [hread]
    exact h.hi
  · rw [hread]
    exact h.lo
  · rw [hread]
    exact h.npc
  · rw [startLocals, hread, ← h.npc]
    rfl
  · exact hmemory.congr rfl rfl rfl
  · by_cases hn : n = 0#5
    · subst hn
      rw [started, reg_setReg, if_pos rfl, general, hread]
      exact h.zero.symm
    · rw [hregister n hn, arriving, if_neg (mt hidle hn)]

/-! ## What an instruction does -/

theorem Executing.setGeneral (h : Executing m l s) (hl : l.NoLoad) {d : BitVec 5}
    (hidle : m.Idle d) (value : Word) :
    Executing (m.setGeneral d value) l (s.setReg d value) := by
  have hcontrol (num : Reg) (hnum : 32 ≤ num.val) :
      (m.setGeneral d value).readRegister num = m.readRegister num :=
    readRegister_setGeneral m d value hnum
  refine ⟨fun n hn => ?_, ?_, h.nextLoads, ?_, ?_, ?_, h.npc, ?_⟩
  · have hnext : l.nextLoadReg ≠ n.setWidth 32 := by
      rw [show l.nextLoadReg = 0#32 from hl]
      exact mt setWidth_eq_zero.mp hn
    have hreg := h.register n hn
    rw [if_neg hnext] at hreg ⊢
    rw [reg_setReg, arriving, hcontrol _ (by decide), hcontrol _ (by decide), general_setGeneral]
    by_cases hnd : n = d
    · subst hnd
      rw [if_pos rfl, if_pos rfl, if_neg (mt hidle hn)]
    · rw [if_neg hnd, if_neg hnd, hreg, arriving]
  · rw [hcontrol _ (by decide)]
    exact h.loads
  · rw [hcontrol _ (by decide)]
    exact h.hi
  · rw [hcontrol _ (by decide)]
    exact h.lo
  · rw [hcontrol _ (by decide)]
    exact h.pc
  · exact h.memory.congr (show (m.setGeneral d value).entries = m.entries from rfl) rfl rfl

/-- Neither sees a write to register 0. -/
theorem Executing.setZero (h : Executing m l s) (hl : l.NoLoad) (value : Word) :
    Executing (m.setGeneral 0#5 value) l s := by
  have hwritten := h.setGeneral hl (d := 0#5) (fun _ => rfl) value
  refine ⟨fun n hn => ?_, hwritten.loads, hwritten.nextLoads, hwritten.hi, hwritten.lo,
    hwritten.pc, hwritten.npc, hwritten.memory.congr rfl rfl rfl⟩
  rw [← hwritten.register n hn, reg_setReg, if_neg hn]

theorem Reads.setGeneral (h : Reads m s) (d : BitVec 5) (value : Word) :
    Reads (m.setGeneral d value) (s.setReg d value) := by
  intro n hidle
  have hsame : (m.setGeneral d value).readRegister loadReg = m.readRegister loadReg :=
    readRegister_setGeneral m d value (by decide)
  rw [reg_setReg, general_setGeneral]
  by_cases hnd : n = d
  · rw [if_pos hnd, if_pos hnd]
  · rw [if_neg hnd, if_neg hnd]
    exact h n fun hpending => hidle (hsame.trans hpending)

theorem Executing.setHiLo (h : Executing m l s) {hi lo : Word} (hi' : m'.readRegister hiReg = hi)
    (hlo' : m'.readRegister loReg = lo) (hsame : ∀ num, num ≠ hiReg → num ≠ loReg →
      m'.readRegister num = m.readRegister num) (hentries : m'.entries = m.entries)
    (hmemory : m'.mainMemory = m.mainMemory) :
    Executing m' l { s with hi := hi, lo := lo } := by
  have hload := hsame loadReg (by decide) (by decide)
  refine ⟨fun n hn => ?_, ?_, h.nextLoads, hi'.symm, hlo'.symm, ?_, h.npc,
    h.memory.congr hentries hmemory rfl⟩
  · refine (h.register n hn).trans ?_
    rw [arriving, arriving, hload, hsame loadValueReg (by decide) (by decide), general,
      general, hsame _ (general_ne (by decide)) (general_ne (by decide))]
  · rw [hload]
    exact h.loads
  · exact h.pc.trans (hsame nextPCReg (by decide) (by decide)).symm

theorem Executing.jump (h : Executing m l s) {target target' : Word} (htarget : target = target') :
    Executing m { l with pcAfter := target } { s with npc := target' } :=
  ⟨h.register, h.loads, h.nextLoads, h.hi, h.lo, h.pc, htarget.symm,
    h.memory.congr rfl rfl rfl⟩

/-- The bytes, or the bits of the entries, have changed. -/
theorem Executing.setMemory (h : Executing m l s) (hregisters : m'.registers = m.registers)
    (hs' : s' = { s with mem := s'.mem }) (hmemory : SameMemory m' s') : Executing m' l s' := by
  have hread (num : Reg) : m'.readRegister num = m.readRegister num := congrFun hregisters num
  rw [hs'] at hmemory ⊢
  refine ⟨fun n hn => ?_, ?_, h.nextLoads, ?_, ?_, ?_, h.npc, hmemory⟩
  · refine (h.register n hn).trans ?_
    simp only [arriving, general, hread]
  · rw [hread]
    exact h.loads
  · rw [hread]
    exact h.hi
  · rw [hread]
    exact h.lo
  · rw [hread]
    exact h.pc

theorem Executing.load (h : Executing m l s) (hl : l.NoLoad) (d : BitVec 5) (value : Word) :
    Executing m { l with nextLoadReg := d.setWidth 32, nextLoadValue := value }
      (s.setReg d value) := by
  refine ⟨fun n hn => ?_, h.loads, ?_, h.hi, h.lo, h.pc, h.npc, h.memory.congr rfl rfl rfl⟩
  · rw [reg_setReg]
    by_cases hnd : n = d
    · rw [if_pos hnd, if_pos (setWidth_inj.mpr hnd)]
    · rw [if_neg hnd, if_neg (mt setWidth_inj.mp hnd), h.register n hn, if_neg]
      rw [show l.nextLoadReg = 0#32 from hl]
      exact mt setWidth_eq_zero.mp hn
  · have hlt := d.isLt
    dsimp only
    rw [BitVec.toNat_setWidth]
    omega

end Interpreter

end Nachos
