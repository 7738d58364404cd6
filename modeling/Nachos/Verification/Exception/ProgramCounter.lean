import Nachos.Model.Exception
import Nachos.Verification.Machine.Translation

/-! # System calls and the program counters

Every case of the handler is followed through the three program counters. The cases that
call `IncreasePC` themselves must `return`, those that `break` must leave it to the code
behind the switch; two cases do both and four error paths do neither. -/

namespace Nachos

open Tracking

/-! ## The program counters of the machine -/

/-- `PrevPCReg`, `PCReg` and `NextPCReg`. -/
def Machine.pcs (m : Machine) : Word × Word × Word :=
  (m.readRegister prevPCReg, m.readRegister pcReg, m.readRegister nextPCReg)

def World.pcs (w : World) : Word × Word × Word :=
  w.machine.pcs

def Machine.pcsOf (registers : Registers) : Word × Word × Word :=
  (registers prevPCReg, registers pcReg, registers nextPCReg)

/-- One advance of the program counters. -/
def advance (x : Word × Word × Word) : Word × Word × Word :=
  (x.2.1, x.2.2, x.2.2 + 4#32)

theorem advance_ne (x : Word × Word × Word) : x ≠ advance x := by
  obtain ⟨prev, pc, next⟩ := x
  simp only [advance, ne_eq, Prod.mk.injEq, not_and]
  intro _ _
  bv_omega

theorem advance_advance_ne (x : Word × Word × Word) : advance (advance x) ≠ advance x := by
  obtain ⟨prev, pc, next⟩ := x
  simp only [advance, ne_eq, Prod.mk.injEq, not_and]
  intro _ _
  bv_omega

theorem Machine.pcs_increasePC (m : Machine) : m.increasePC.pcs = Nachos.advance m.pcs := by
  simp [increasePC, pcs, Nachos.advance, readRegister, writeRegister, prevPCReg, pcReg, nextPCReg]

theorem Machine.pcs_writeRegister (m : Machine) {num : Reg} (value : Word)
    (hprev : num ≠ prevPCReg) (hpc : num ≠ pcReg) (hnext : num ≠ nextPCReg) :
    (m.writeRegister num value).pcs = m.pcs := by
  simp [pcs, readRegister, writeRegister, hprev.symm, hpc.symm, hnext.symm]

/-! ## What a context switch leaves alone -/

theorem Machine.foldl_writeRegister (saved : Registers) (l : List Reg) (m : Machine)
    (num : Reg) :
    (l.foldl (fun m i => m.writeRegister i (saved i)) m).registers num =
      if num ∈ l then saved num else m.registers num := by
  induction l generalizing m with
  | nil => simp
  | cons i l ih =>
      rw [List.foldl_cons, ih]
      by_cases hl : num ∈ l
      · simp [hl]
      · by_cases hi : num = i
        · simp [writeRegister, hi]
        · simp [hl, hi, writeRegister]

theorem Machine.registers_restoreUserState (saved : Registers) (m : Machine) :
    (m.restoreUserState saved).registers = saved := by
  funext num
  rw [restoreUserState, foldl_writeRegister]
  simp

/-! ## The parts of the handler that keep the registers -/

def World.registers (w : World) : Registers :=
  w.machine.registers

section Rules

variable {env : Env}

theorem keeps_readRegister (num : Reg) : Keeps World.registers (readRegister num) :=
  keeps_get.bind fun _ => keeps_pure _

theorem keeps_resume : Keeps World.registers (resume env) :=
  keeps_modify fun _ => Machine.registers_restoreUserState _ _

theorem keeps_ask {α : Type} (answer : Except Stop α) : Keeps World.registers (ask env answer) :=
  (keeps_liftM answer).bind fun _ => keeps_resume.bind fun _ => keeps_pure _

/-- No exception raised inside the handler comes back to it. -/
theorem keeps_trap {α : Type} (t : Machine.Trap) (addr : Word) :
    Keeps World.registers (trap t addr : KernelM α) := by
  cases t with
  | assertion => exact tracks_throw _
  | exception which =>
      intro w a w' h
      obtain ⟨_, w₁, _, h⟩ := bind_eq_ok.mp h
      cases h

theorem keeps_readMem (addr : Word) (size : ℕ) : Keeps World.registers (readMem addr size) := by
  intro w a w' h
  obtain ⟨w₀, w₁, hget, h⟩ := bind_eq_ok.mp h
  cases hget
  cases hread : w.machine.readMem addr size with
  | error t =>
      rw [hread] at h
      exact keeps_trap t addr w a w' h
  | ok p =>
      rw [hread] at h
      cases h
      exact (Machine.sameState_readMem hread).registers

theorem keeps_writeMem (addr : Word) (size : ℕ) (value : Word) :
    Keeps World.registers (writeMem addr size value) := by
  intro w a w' h
  obtain ⟨w₀, w₁, hget, h⟩ := bind_eq_ok.mp h
  cases hget
  cases hwrite : w.machine.writeMem addr size value with
  | error t =>
      rw [hwrite] at h
      exact keeps_trap t addr w a w' h
  | ok m =>
      rw [hwrite] at h
      cases h
      exact Machine.registers_writeMem hwrite

theorem keeps_user2SystemLoop (room : ℕ) (virtAddr : Word) :
    Keeps World.registers (user2SystemLoop room virtAddr) := by
  induction room generalizing virtAddr with
  | zero => exact keeps_pure _
  | succ room ih =>
      apply (keeps_readMem virtAddr 1).bind
      intro oneChar
      exact tracks_ite (keeps_pure _) ((ih _).bind fun _ => keeps_pure _)

theorem keeps_user2System (virtAddr : Word) (limit : ℕ) :
    Keeps World.registers (user2System env virtAddr limit) :=
  tracks_ite ((keeps_user2SystemLoop limit virtAddr).bind fun _ => keeps_pure _) (keeps_pure _)

theorem keeps_system2UserLoop (len : ℕ) (virtAddr : Word) (buffer : List Byte) :
    Keeps World.registers (system2UserLoop len virtAddr buffer) := by
  induction len generalizing virtAddr buffer with
  | zero => exact keeps_pure _
  | succ len ih =>
      cases buffer with
      | nil => exact tracks_throw _
      | cons oneChar buffer =>
          apply (keeps_writeMem virtAddr 1 _).bind
          intro _
          exact tracks_ite (keeps_pure _) ((ih _ _).bind fun _ => keeps_pure _)

theorem keeps_system2User (virtAddr : Word) (len : ℤ) (buffer : List Byte) :
    Keeps World.registers (system2User virtAddr len buffer) :=
  tracks_ite (keeps_pure _) ((keeps_system2UserLoop _ _ _).bind fun _ => keeps_pure _)

theorem keeps_consoleRead (numBytes : ℤ) : Keeps World.registers (consoleRead env numBytes) := by
  intro w a w' h
  obtain ⟨w₀, w₁, hget, h⟩ := bind_eq_ok.mp h
  cases hget
  cases hread : w.console.read env.garbage numBytes with
  | none =>
      rw [hread] at h
      cases h
  | some p =>
      rw [hread] at h
      cases h
      exact Machine.registers_restoreUserState _ _

theorem keeps_consoleWrite (bytes : List Byte) :
    Keeps World.registers (consoleWrite env bytes) := by
  refine Keeps.bind (keeps_modify ?_) fun _ => keeps_resume
  intro w
  rfl

theorem keeps_stringLimit (fuel : ℕ) (addr : Word) :
    Keeps World.registers (stringLimit fuel addr) := by
  induction fuel generalizing addr with
  | zero => exact tracks_throw _
  | succ fuel ih =>
      apply (keeps_readMem addr 1).bind
      intro ch
      exact tracks_ite ((ih _).bind fun _ => keeps_pure _) (keeps_pure _)

/-- What keeps the registers keeps the program counters. -/
theorem keepsPcs {α : Type} {m : KernelM α} (h : Keeps World.registers m) : Keeps World.pcs m :=
  h.map Machine.pcsOf

/-- The handler writes r2 and `BadVAddrReg` only. -/
theorem keeps_writeRegister {num : Reg} (value : Word) (hprev : num ≠ prevPCReg)
    (hpc : num ≠ pcReg) (hnext : num ≠ nextPCReg) :
    Keeps World.pcs (writeRegister num value) :=
  keeps_modify fun w => w.machine.pcs_writeRegister value hprev hpc hnext

theorem keeps_writeResult (value : Word) : Keeps World.pcs (writeRegister 2 value) :=
  keeps_writeRegister value (by decide) (by decide) (by decide)

theorem tracks_increasePC : Tracks World.pcs (fun _ => advance) increasePC := by
  intro w a w' h
  cases h
  exact w.machine.pcs_increasePC

end Rules

/-! ## The cases of the switch -/

/-- What a case has to do: advance the counters once when it returns, and leave that to
the code behind the switch when it breaks. -/
def flowAdvance : Flow → (Word × Word × Word) → Word × Word × Word
  | .brk, x => x
  | .ret, x => advance x

section Cases

variable {env : Env}

theorem tracks_increasePC_ret :
    Tracks World.pcs flowAdvance (do increasePC; return .ret) :=
  tracks_increasePC.bind_pure fun _ => rfl

theorem tracks_writeResult_ret (value : Word) :
    Tracks World.pcs flowAdvance (do writeRegister 2 value; increasePC; return .ret) :=
  (keeps_writeResult value).bind fun _ => tracks_increasePC_ret

theorem tracks_tableCall (call : Word → Except Stop Word) :
    Tracks World.pcs flowAdvance (tableCall env call) :=
  (keepsPcs (keeps_readRegister 4)).bind fun _ =>
    (keepsPcs (keeps_ask _)).bind fun _ => tracks_writeResult_ret _

theorem tracks_scExec : Tracks World.pcs flowAdvance (scExec env) := by
  apply (keepsPcs (keeps_readRegister 4)).bind
  intro virtAddr
  apply (keepsPcs (keeps_user2System virtAddr _)).bind
  intro name
  cases name with
  | none => exact tracks_writeResult_ret _
  | some name => exact (keepsPcs (keeps_ask _)).bind fun id => tracks_writeResult_ret id

theorem tracks_scReadInt : Tracks World.pcs flowAdvance (scReadInt env) := by
  apply (keepsPcs (keeps_consoleRead 255)).bind
  intro p
  obtain ⟨count, stored⟩ := p
  dsimp only
  cases parseInt count stored with
  | none => exact tracks_writeResult_ret _
  | some number => exact tracks_writeResult_ret _

theorem tracks_scPrintInt : Tracks World.pcs flowAdvance (scPrintInt env) :=
  (keepsPcs (keeps_readRegister 4)).bind fun _ =>
    (keepsPcs (keeps_consoleWrite _)).bind fun _ => tracks_increasePC_ret

/-- `SC_ReadChar` and `SC_PrintChar` advance the counters and then break. -/
theorem tracks_increasePC_brk :
    Tracks World.pcs (fun _ => advance) (do increasePC; return Flow.brk) :=
  tracks_increasePC.bind_pure fun _ => rfl

theorem tracks_scPrintChar : Tracks World.pcs (fun _ => advance) (scPrintChar env) :=
  (keepsPcs (keeps_readRegister 4)).bind fun _ =>
    (keepsPcs (keeps_consoleWrite _)).bind fun _ => tracks_increasePC_brk

theorem tracks_scReadChar : Tracks World.pcs (fun _ => advance) (scReadChar env) := by
  apply (keepsPcs (keeps_consoleRead 255)).bind
  intro p
  obtain ⟨totalBytes, buffer⟩ := p
  have hend (value : Word) : Tracks World.pcs (fun _ => advance)
      (do writeRegister 2 value; increasePC; return Flow.brk) :=
    (keeps_writeResult value).bind fun _ => tracks_increasePC_brk
  dsimp only
  split
  · exact hend _
  · split
    · exact hend _
    · exact hend _

theorem tracks_scReadString_of_newChar (w : World)
    (h : ¬ (0 ≤ (w.machine.readRegister 5 + 1#32).toInt ∧
      env.newChar (w.machine.readRegister 5 + 1#32).toInt.toNat = false))
    {flow : Flow} {w' : World} (hret : scReadString env w = .ok (flow, w')) :
    w'.pcs = flowAdvance flow w.pcs := by
  obtain ⟨userAddr, w₁, h₁, hret⟩ := bind_eq_ok.mp hret
  cases h₁
  obtain ⟨length, w₁, h₁, hret⟩ := bind_eq_ok.mp hret
  cases h₁
  dsimp only at hret
  split at hret
  · cases hret
  · rename_i hsize
    have hnew : env.newChar (w.machine.readRegister 5 + 1#32).toInt.toNat = true := by
      by_contra hnew
      exact h ⟨not_lt.mp hsize, Bool.not_eq_true _ ▸ hnew⟩
    rw [if_pos hnew] at hret
    have htracks : Tracks World.pcs flowAdvance (do
        let p ← consoleRead env (w.machine.readRegister 5).toInt
        let kernelBuf := p.2 ++ List.replicate
          ((w.machine.readRegister 5 + 1#32).toInt.toNat - p.2.length) 0#8
        let _ ← system2User (w.machine.readRegister 4) (p.1 + 1) kernelBuf
        increasePC
        return Flow.ret) := by
      apply (keepsPcs (keeps_consoleRead _)).bind
      intro p
      obtain ⟨numCharRead, stored⟩ := p
      exact (keepsPcs (keeps_system2User _ _ _)).bind fun _ => tracks_increasePC_ret
    exact htracks w flow w' hret

end Cases

/-! ## When the handler misses an advance -/

/-- The name at r4 gets no kernel buffer, or the file system refuses it. -/
def NameRefused (env : Env) (limit : ℕ) (call : List Byte → Except Stop Bool)
    (w : World) : Prop :=
  ∃ name w₁, user2System env (w.machine.readRegister 4) limit w = .ok (name, w₁) ∧
    ∀ filename, name = some filename → call filename = .ok false

/-- The calls after which the program counters are wrong, by the code in r2. -/
def PCMissed (env : Env) (w : World) : Prop :=
  match Syscall.ofCode (w.machine.readRegister 2) with
  | some .create => NameRefused env 33 env.fileCreate w
  | some .open => NameRefused env 32 env.fileOpen w
  | some .readChar => (w.console.read env.garbage 255).isSome
  | some .printChar => True
  | some .readString =>
      0 ≤ (w.machine.readRegister 5 + 1#32).toInt ∧
        env.newChar (w.machine.readRegister 5 + 1#32).toInt.toNat = false
  | some .printString =>
      ∃ limit w₁, stringLimit (2 ^ 32) (w.machine.readRegister 4) w = .ok (limit, w₁) ∧
        env.newChar (limit + 1) = false
  | _ => False

/-- Whenever the handler returns, the program counters have been advanced exactly once. -/
def PCAdvancedOnReturn (env : Env) (w : World) : Prop :=
  ∀ w', exceptionHandler env .syscallException w = .ok ((), w') →
    w'.machine.readRegister prevPCReg = w.machine.readRegister pcReg ∧
    w'.machine.readRegister pcReg = w.machine.readRegister nextPCReg ∧
    w'.machine.readRegister nextPCReg = w.machine.readRegister nextPCReg + 4#32

/-- The code behind the inner switch. -/
def finish : Flow → (Word × Word × Word) → Word × Word × Word
  | .brk, x => advance x
  | .ret, x => x

theorem finish_flowAdvance (flow : Flow) (x : Word × Word × Word) :
    finish flow (flowAdvance flow x) = advance x := by
  cases flow <;> rfl

/-- The counters are right after every return of one case of the switch. -/
def CaseOk (env : Env) (c : Option Syscall) (w : World) : Prop :=
  ∀ flow w₁, syscallCase env c w = .ok (flow, w₁) → finish flow w₁.pcs = advance w.pcs

theorem pcAdvancedOnReturn_iff_caseOk (env : Env) (w : World) :
    PCAdvancedOnReturn env w ↔
      CaseOk env (Syscall.ofCode (w.machine.readRegister 2)) w := by
  have hpcs (w' : World) : (w'.machine.readRegister prevPCReg = w.machine.readRegister pcReg ∧
      w'.machine.readRegister pcReg = w.machine.readRegister nextPCReg ∧
      w'.machine.readRegister nextPCReg = w.machine.readRegister nextPCReg + 4#32) ↔
      w'.pcs = advance w.pcs := by
    simp [World.pcs, Machine.pcs, advance]
  constructor
  · intro h flow w₁ hcase
    cases flow with
    | brk =>
        have hret : exceptionHandler env .syscallException w =
            .ok ((), { w₁ with machine := w₁.machine.increasePC }) :=
          bind_eq_ok.mpr ⟨_, _, rfl, bind_eq_ok.mpr ⟨_, _, hcase, rfl⟩⟩
        rw [← (hpcs _).mp (h _ hret)]
        exact (w₁.machine.pcs_increasePC).symm
    | ret =>
        have hret : exceptionHandler env .syscallException w = .ok ((), w₁) :=
          bind_eq_ok.mpr ⟨_, _, rfl, bind_eq_ok.mpr ⟨_, _, hcase, rfl⟩⟩
        exact (hpcs _).mp (h _ hret)
  · intro h w' hret
    rw [hpcs]
    obtain ⟨type, w₀, hread, hret⟩ := bind_eq_ok.mp hret
    cases hread
    obtain ⟨flow, w₁, hcase, hret⟩ := bind_eq_ok.mp hret
    have hok := h flow w₁ hcase
    cases flow with
    | brk =>
        cases hret
        rw [← hok]
        exact w₁.machine.pcs_increasePC
    | ret =>
        cases hret
        exact hok

theorem CaseOk.of_tracks {env : Env} {c : Option Syscall} {w : World}
    (h : Tracks World.pcs flowAdvance (syscallCase env c)) : CaseOk env c w := by
  intro flow w₁ hcase
  rw [h w flow w₁ hcase, finish_flowAdvance]

/-- A case that returns with the counters unchanged or breaks with them advanced is
wrong. -/
theorem not_caseOk_of_ret {env : Env} {c : Option Syscall} {w w₁ : World}
    (hcase : syscallCase env c w = .ok (.ret, w₁)) (hpcs : w₁.pcs = w.pcs) :
    ¬ CaseOk env c w := by
  intro h
  exact advance_ne w.pcs (hpcs ▸ h .ret w₁ hcase)

theorem not_caseOk_of_brk {env : Env} {c : Option Syscall} {w w₁ : World}
    (hcase : syscallCase env c w = .ok (.brk, w₁)) (hpcs : w₁.pcs = advance w.pcs) :
    ¬ CaseOk env c w := by
  intro h
  have hok := h .brk w₁ hcase
  rw [hpcs] at hok
  exact advance_advance_ne w.pcs hok

section Exact

variable {env : Env} {w : World}

theorem World.pcs_writeResult (w : World) (value : Word) :
    World.pcs { w with machine := w.machine.writeRegister 2 value } = w.pcs :=
  w.machine.pcs_writeRegister value (by decide) (by decide) (by decide)

/-- A call outside the handler that answers comes back with the counters it was made with. -/
theorem ask_of_ok (env : Env) {α : Type} {answer : Except Stop α} {a : α} (h : answer = .ok a)
    (w : World) :
    ∃ w₁, ask env answer w = .ok (a, w₁) ∧ w₁.pcs = w.pcs := by
  obtain ⟨u, w₁, hresume⟩ : ∃ u w₁, resume env w = .ok (u, w₁) := ⟨_, _, rfl⟩
  refine ⟨w₁, ?_, keepsPcs keeps_resume w u w₁ hresume⟩
  rw [h]
  exact bind_eq_ok.mpr ⟨_, _, rfl, bind_eq_ok.mpr ⟨_, _, hresume, rfl⟩⟩

theorem ok_of_ask {α : Type} {answer : Except Stop α} {a : α} {w₁ : World}
    (h : ask env answer w = .ok (a, w₁)) : answer = .ok a := by
  obtain ⟨b, w₂, hlift, hresume⟩ := bind_eq_ok.mp h
  obtain ⟨u, w₃, _, hend⟩ := bind_eq_ok.mp hresume
  cases hend
  cases answer with
  | error stop => cases hlift
  | ok b =>
      cases hlift
      rfl

/-- A call with a name: `return` after -1 when the name is refused, `break` after 0 else. -/
theorem caseOk_named_iff {c : Option Syscall} {limit : ℕ} {call : List Byte → Except Stop Bool}
    (hcall : syscallCase env c = do
      let virtAddr ← readRegister 4
      let name ← user2System env virtAddr limit
      let accepted ← match name with
        | none => pure false
        | some filename => ask env (call filename)
      if accepted then
        writeRegister 2 0#32
        return .brk
      else
        writeRegister 2 (-1#32)
        return .ret) :
    CaseOk env c w ↔ ¬ NameRefused env limit call w := by
  constructor
  · rintro hok ⟨name, w₁, hname, hrefused⟩
    have hpcs : w₁.pcs = w.pcs := keepsPcs (keeps_user2System _ _) w name w₁ hname
    cases name with
    | none =>
        have hcase : syscallCase env c w =
            .ok (.ret, { w₁ with machine := w₁.machine.writeRegister 2 (-1#32) }) := by
          rw [hcall]
          exact bind_eq_ok.mpr ⟨_, _, rfl, bind_eq_ok.mpr ⟨_, _, hname, rfl⟩⟩
        exact not_caseOk_of_ret hcase ((w₁.pcs_writeResult _).trans hpcs) hok
    | some filename =>
        obtain ⟨w₂, hask, hkept⟩ := ask_of_ok env (hrefused filename rfl) w₁
        have hcase : syscallCase env c w =
            .ok (.ret, { w₂ with machine := w₂.machine.writeRegister 2 (-1#32) }) := by
          rw [hcall]
          exact bind_eq_ok.mpr ⟨_, _, rfl, bind_eq_ok.mpr ⟨_, _, hname,
            bind_eq_ok.mpr ⟨_, _, hask, rfl⟩⟩⟩
        exact not_caseOk_of_ret hcase ((w₂.pcs_writeResult _).trans (hkept.trans hpcs)) hok
  · intro haccepted flow w' hcase
    rw [hcall] at hcase
    obtain ⟨virtAddr, w₀, hread, hcase⟩ := bind_eq_ok.mp hcase
    cases hread
    obtain ⟨name, w₁, hname, hcase⟩ := bind_eq_ok.mp hcase
    have hpcs : w₁.pcs = w.pcs := keepsPcs (keeps_user2System _ _) w name w₁ hname
    cases name with
    | none => exact absurd ⟨none, w₁, hname, nofun⟩ haccepted
    | some filename =>
        obtain ⟨accepted, w₂, hask, hcase⟩ := bind_eq_ok.mp hcase
        have hkept : w₂.pcs = w.pcs := (keepsPcs (keeps_ask _) w₁ accepted w₂ hask).trans hpcs
        cases accepted with
        | false =>
            refine absurd ⟨some filename, w₁, hname, ?_⟩ haccepted
            rintro _ ⟨rfl⟩
            exact ok_of_ask hask
        | true =>
            cases hcase
            exact congrArg advance ((w₂.pcs_writeResult _).trans hkept)

theorem caseOk_create_iff :
    CaseOk env (some .create) w ↔ ¬ NameRefused env 33 env.fileCreate w := by
  apply caseOk_named_iff
  refine bind_congr fun virtAddr => bind_congr fun name => ?_
  cases name with
  | none => rfl
  | some filename => rfl

theorem caseOk_open_iff :
    CaseOk env (some .open) w ↔ ¬ NameRefused env 32 env.fileOpen w :=
  caseOk_named_iff rfl

theorem caseOk_readChar_iff :
    CaseOk env (some .readChar) w ↔ ¬ (w.console.read env.garbage 255).isSome := by
  constructor
  · intro hok hsome
    obtain ⟨⟨count, stored, console⟩, hread⟩ := Option.isSome_iff_exists.mp hsome
    obtain ⟨u, w₁, hresume⟩ :
        ∃ u w₁, resume env { w with console := console } = .ok (u, w₁) := ⟨_, _, rfl⟩
    have hline : consoleRead env 255 w = .ok ((count, stored), w₁) := by
      refine bind_eq_ok.mpr ⟨w, w, rfl, ?_⟩
      rw [hread]
      exact bind_eq_ok.mpr ⟨_, _, rfl, bind_eq_ok.mpr ⟨_, _, rfl,
        bind_eq_ok.mpr ⟨_, _, hresume, rfl⟩⟩⟩
    obtain ⟨w₂, hcase⟩ : ∃ w₂, syscallCase env (some .readChar) w = .ok (.brk, w₂) := by
      have hrest : ∃ w₂, (if 1 < count then do writeRegister 2 0#32; increasePC; return Flow.brk
          else if count = 0 then do writeRegister 2 0#32; increasePC; return Flow.brk
          else do
            writeRegister 2 ((stored.headD 0#8).signExtend 32)
            increasePC
            return Flow.brk : KernelM Flow) w₁ = .ok (.brk, w₂) := by
        split
        · exact ⟨_, rfl⟩
        · split
          · exact ⟨_, rfl⟩
          · exact ⟨_, rfl⟩
      obtain ⟨w₂, hrest⟩ := hrest
      exact ⟨w₂, bind_eq_ok.mpr ⟨_, _, hline, hrest⟩⟩
    exact not_caseOk_of_brk hcase (tracks_scReadChar w .brk w₂ hcase) hok
  · intro hnone flow w₁ hcase
    obtain ⟨line, w₂, hline, _⟩ := bind_eq_ok.mp hcase
    obtain ⟨w₃, w₄, hget, hline⟩ := bind_eq_ok.mp hline
    cases hget
    rw [Option.not_isSome_iff_eq_none.mp hnone] at hline
    cases hline

theorem not_caseOk_printChar : ¬ CaseOk env (some .printChar) w := by
  obtain ⟨w₁, hcase⟩ : ∃ w₁, syscallCase env (some .printChar) w = .ok (.brk, w₁) :=
    ⟨_, rfl⟩
  exact not_caseOk_of_brk hcase (tracks_scPrintChar w .brk w₁ hcase)

theorem caseOk_readString_iff :
    CaseOk env (some .readString) w ↔
      ¬ (0 ≤ (w.machine.readRegister 5 + 1#32).toInt ∧
        env.newChar (w.machine.readRegister 5 + 1#32).toInt.toNat = false) := by
  constructor
  · rintro hok ⟨hsize, hnew⟩
    have hcase : syscallCase env (some .readString) w = .ok (.ret, w) := by
      refine bind_eq_ok.mpr ⟨_, _, rfl, bind_eq_ok.mpr ⟨_, _, rfl, ?_⟩⟩
      dsimp only
      rw [if_neg (not_lt.mpr hsize), if_neg (by rw [hnew]; exact Bool.false_ne_true)]
      exact rfl
    exact not_caseOk_of_ret hcase rfl hok
  · intro h flow w₁ hcase
    rw [tracks_scReadString_of_newChar w h hcase, finish_flowAdvance]

theorem caseOk_printString_iff :
    CaseOk env (some .printString) w ↔
      ¬ ∃ limit w₁, stringLimit (2 ^ 32) (w.machine.readRegister 4) w = .ok (limit, w₁) ∧
        env.newChar (limit + 1) = false := by
  constructor
  · rintro hok ⟨limit, w₁, hlimit, hnew⟩
    have hcase : syscallCase env (some .printString) w = .ok (.ret, w₁) := by
      refine bind_eq_ok.mpr ⟨_, _, rfl, bind_eq_ok.mpr ⟨_, _, hlimit,
        bind_eq_ok.mpr ⟨none, w₁, ?_, rfl⟩⟩⟩
      rw [user2System, if_neg (by simp [hnew])]
      exact rfl
    exact not_caseOk_of_ret hcase (keepsPcs (keeps_stringLimit _ _) w limit w₁ hlimit) hok
  · intro h flow w' hcase
    obtain ⟨userAddr, w₀, hread, hcase⟩ := bind_eq_ok.mp hcase
    cases hread
    obtain ⟨limit, w₁, hlimit, hcase⟩ := bind_eq_ok.mp hcase
    have hpcs : w₁.pcs = w.pcs := keepsPcs (keeps_stringLimit _ _) w limit w₁ hlimit
    obtain ⟨kernelBuf, w₂, hcopy, hcase⟩ := bind_eq_ok.mp hcase
    have hkept : w₂.pcs = w.pcs :=
      (keepsPcs (keeps_user2System _ _) w₁ kernelBuf w₂ hcopy).trans hpcs
    cases kernelBuf with
    | none =>
        refine absurd ⟨limit, w₁, hlimit, ?_⟩ h
        by_contra hnew
        rw [user2System, if_pos (by simpa using hnew)] at hcopy
        obtain ⟨bytes, w₃, _, hend⟩ := bind_eq_ok.mp hcopy
        cases hend
    | some kernelBuf =>
        have htracks : Tracks World.pcs flowAdvance (do
            consoleWrite env kernelBuf
            increasePC
            return Flow.ret) :=
          (keepsPcs (keeps_consoleWrite kernelBuf)).bind fun _ => tracks_increasePC_ret
        rw [htracks w₂ flow w' hcase, hkept, finish_flowAdvance]

/-- The program counters are right after every return of the handler exactly when the call
is none of those that miss or repeat the advance. -/
theorem pcAdvancedOnReturn_iff (env : Env) (w : World) :
    PCAdvancedOnReturn env w ↔ ¬ PCMissed env w := by
  rw [pcAdvancedOnReturn_iff_caseOk, PCMissed]
  cases Syscall.ofCode (w.machine.readRegister 2) with
  | none => exact iff_of_true (.of_tracks (tracks_throw _)) not_false
  | some c =>
      cases c with
      | halt => exact iff_of_true (.of_tracks (tracks_throw _)) not_false
      | exit => exact iff_of_true (.of_tracks (tracks_tableCall _)) not_false
      | exec => exact iff_of_true (.of_tracks tracks_scExec) not_false
      | join => exact iff_of_true (.of_tracks (tracks_tableCall _)) not_false
      | create => exact caseOk_create_iff
      | «open» => exact caseOk_open_iff
      | fork => exact iff_of_true (.of_tracks (tracks_pure _ fun _ => rfl)) not_false
      | yield => exact iff_of_true (.of_tracks (tracks_pure _ fun _ => rfl)) not_false
      | readInt => exact iff_of_true (.of_tracks tracks_scReadInt) not_false
      | printInt => exact iff_of_true (.of_tracks tracks_scPrintInt) not_false
      | readChar => exact caseOk_readChar_iff
      | printChar => exact iff_of_false not_caseOk_printChar (not_not.mpr trivial)
      | readString => exact caseOk_readString_iff
      | printString => exact caseOk_printString_iff

end Exact

/-- A host and a kernel that grant every request. -/
def grantingEnv : Env where
  newChar _ := true
  fileCreate _ := .ok true
  fileOpen _ := .ok true
  execUpdate _ := .ok 1#32
  joinUpdate _ := .ok 0#32
  exitUpdate _ := .ok 0#32
  others r := r
  garbage := 0#8

/-- The first call of `test/ping.c`: `PrintChar('A')`, with its `syscall` at address 400. -/
def pingWorld : World where
  machine :=
    { registers := fun i =>
        if i = 2 then 14#32 else if i = 4 then 65#32 else if i = prevPCReg then 396#32
        else if i = pcReg then 400#32 else if i = nextPCReg then 404#32 else 0#32
      mainMemory := fun _ => 0#8
      tlb := none
      pageTable := some [] }
  console := ⟨[], []⟩

/-- The handler comes back from `PrintChar` at the instruction after the next one. -/
theorem printChar_skips_instruction :
    (∃ w', exceptionHandler grantingEnv .syscallException pingWorld = .ok ((), w') ∧
      w'.machine.readRegister pcReg = 408#32) ∧
    ¬ PCAdvancedOnReturn grantingEnv pingWorld := by
  refine ⟨⟨_, rfl, by decide⟩, fun h => ?_⟩
  have hpc := (h _ rfl).2.1
  revert hpc
  decide

end Nachos
