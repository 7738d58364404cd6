import Nachos.Verification.Exception.ProgramCounter

/-! # What the parts of the handler compute -/

namespace Nachos

open Tracking

/-- The code in r2 selects the case of the system call. -/
def World.Calls (w : World) (c : Syscall) : Prop :=
  Syscall.ofCode (w.machine.readRegister 2) = some c

instance (w : World) (c : Syscall) : Decidable (w.Calls c) :=
  inferInstanceAs (Decidable (_ = _))

theorem Machine.restoreUserState_eq (saved : Registers) (m : Machine) :
    m.restoreUserState saved = { m with registers := saved } := by
  have hfold : ∀ (l : List Reg) (m : Machine),
      l.foldl (fun m i => m.writeRegister i (saved i)) m =
        { m with registers := (l.foldl (fun m i => m.writeRegister i (saved i)) m).registers } := by
    intro l
    induction l with
    | nil => exact fun m => rfl
    | cons i l ih => exact fun m => ih (m.writeRegister i (saved i))
  have hregisters := Machine.registers_restoreUserState saved m
  have hkept : m.restoreUserState saved =
      { m with registers := (m.restoreUserState saved).registers } := hfold (List.finRange 40) m
  rw [hkept, hregisters]

section Parts

variable (env : Env) (w : World)

/-- A thread that comes back from `Sleep` finds its registers. -/
theorem resume_eq : resume env w = .ok ((), w) := by
  unfold resume
  simp only [Machine.restoreUserState_eq]
  rfl

theorem readRegister_eq (num : Reg) :
    readRegister num w = .ok (w.machine.readRegister num, w) := rfl

theorem writeRegister_eq (num : Reg) (value : Word) :
    writeRegister num value w =
      .ok ((), { w with machine := w.machine.writeRegister num value }) := rfl

theorem increasePC_eq : increasePC w = .ok ((), { w with machine := w.machine.increasePC }) := rfl

theorem consoleWrite_eq (bytes : List Byte) :
    consoleWrite env bytes w = .ok ((), { w with console := w.console.write bytes }) := by
  have hresume := resume_eq env { w with console := w.console.write bytes }
  exact hresume

variable {env w}

theorem get_bind {α : Type} (k : World → KernelM α) (w : World) : (get >>= k) w = k w w :=
  rfl

theorem consoleRead_eq {numBytes count : ℤ} {stored : List Byte} {console : SynchConsole}
    (h : w.console.read env.garbage numBytes = some (count, stored, console)) :
    consoleRead env numBytes w = .ok ((count, stored), { w with console := console }) := by
  have hresume := resume_eq env { w with console := console }
  refine bind_eq_ok.mpr ⟨w, w, rfl, ?_⟩
  rw [h]
  refine bind_eq_ok.mpr ⟨w, w, rfl, bind_eq_ok.mpr ⟨(), _, rfl, ?_⟩⟩
  exact bind_eq_ok.mpr ⟨(), _, hresume, rfl⟩

end Parts

section Handler

variable {env : Env} {w w' : World} {c : Syscall}

theorem exceptionHandler_eq (hcall : w.Calls c) :
    exceptionHandler env .syscallException w =
      (syscallCase env (some c) >>= fun flow =>
        match flow with
        | .brk => increasePC
        | .ret => return ()) w := by
  rw [← hcall]
  rfl

/-- A case that returns leaves the handler. -/
theorem exceptionHandler_of_ret (hcall : w.Calls c)
    (hcase : syscallCase env (some c) w = .ok (.ret, w')) :
    exceptionHandler env .syscallException w = .ok ((), w') := by
  rw [exceptionHandler_eq hcall]
  exact bind_eq_ok.mpr ⟨.ret, w', hcase, rfl⟩

theorem exceptionHandler_of_error {e : Stop} (hcall : w.Calls c)
    (hcase : syscallCase env (some c) w = .error e) :
    exceptionHandler env .syscallException w = .error e := by
  rw [exceptionHandler_eq hcall]
  change (syscallCase env (some c) w).bind _ = _
  rw [hcase]
  rfl

end Handler

/-! ## Lines of the console -/

namespace SynchConsole

def EndsLine (c : Byte) : Prop :=
  c = newline ∨ c = controlA

instance : DecidablePred EndsLine := fun _ => inferInstanceAs (Decidable (_ ∨ _))

/-- The characters that the loop of `Read` puts into the buffer. -/
def fetched (line : List Byte) : List Byte :=
  line.filter (· ≠ eof)

theorem readLoop_zero (ch : Byte) (input : List Byte) :
    readLoop 0 ch input = some ⟨[], ch, input⟩ := by
  cases input <;> rfl

theorem readLoop_eof (room : ℕ) (ch : Byte) (input : List Byte) :
    readLoop (room + 1) ch (eof :: input) = readLoop (room + 1) eof input := by
  rw [readLoop, if_neg (Nat.succ_ne_zero room), if_pos rfl]

theorem readLoop_cons {c : Byte} (heof : c ≠ eof) (hline : ¬ EndsLine c) (room : ℕ) (ch : Byte)
    (input : List Byte) :
    readLoop (room + 1) ch (c :: input) =
      (readLoop room c input).map fun line => { line with stored := c :: line.stored } := by
  have hend : ¬ (c = newline || c = controlA) = true := by
    simpa [EndsLine] using hline
  rw [readLoop, if_neg (Nat.succ_ne_zero room), if_neg heof, if_neg hend]
  rfl

theorem readLoop_end {c : Byte} (hend : EndsLine c) (room : ℕ) (ch : Byte) (input : List Byte) :
    readLoop (room + 1) ch (c :: input) = some ⟨[], c, input⟩ := by
  have heof : c ≠ eof := by
    rintro rfl
    revert hend
    decide
  have hend' : (c = newline || c = controlA) = true := by
    simpa [EndsLine] using hend
  rw [readLoop, if_neg (Nat.succ_ne_zero room), if_neg heof, if_pos hend']

variable {line rest : List Byte} {room : ℕ}

/-- The line ends before the buffer is full. -/
theorem readLoop_ended (hline : ∀ c ∈ line, ¬ EndsLine c) (hroom : (fetched line).length < room)
    {last : Byte} (hlast : EndsLine last) (ch : Byte) (rest : List Byte) :
    readLoop room ch (line ++ last :: rest) = some ⟨fetched line, last, rest⟩ := by
  induction line generalizing room ch with
  | nil =>
      obtain ⟨room, rfl⟩ : ∃ n, room = n + 1 := ⟨room - 1, by omega⟩
      exact readLoop_end hlast room ch rest
  | cons c line ih =>
      obtain ⟨room, rfl⟩ : ∃ n, room = n + 1 := ⟨room - 1, by omega⟩
      have hrest : ∀ d ∈ line, ¬ EndsLine d := fun d hd => hline d (List.mem_cons_of_mem c hd)
      by_cases heof : c = eof
      · have hskip : fetched (c :: line) = fetched line := by simp [fetched, heof]
        rw [hskip] at hroom ⊢
        rw [List.cons_append, heof, readLoop_eof, ih hrest hroom]
      · have hkeep : fetched (c :: line) = c :: fetched line := by simp [fetched, heof]
        rw [hkeep] at hroom ⊢
        rw [List.cons_append, readLoop_cons heof (hline c List.mem_cons_self),
          ih hrest (Nat.lt_of_succ_lt_succ hroom)]
        rfl

/-- The buffer is full before the line ends. -/
theorem readLoop_full (hline : ∀ c ∈ line, ¬ EndsLine c) (hroom : room ≤ (fetched line).length)
    (ch : Byte) (rest : List Byte) :
    ∃ last rest', readLoop room ch (line ++ rest) =
        some ⟨(fetched line).take room, last, rest'⟩ ∧
      if room = 0 then last = ch else ¬ EndsLine last := by
  induction line generalizing room ch with
  | nil =>
      obtain rfl := Nat.le_zero.mp hroom
      exact ⟨ch, rest, readLoop_zero ch _, rfl⟩
  | cons c line ih =>
      cases room with
      | zero => exact ⟨ch, _, readLoop_zero ch _, rfl⟩
      | succ room =>
          have hrest : ∀ d ∈ line, ¬ EndsLine d := fun d hd => hline d (List.mem_cons_of_mem c hd)
          have hc : ¬ EndsLine c := hline c List.mem_cons_self
          by_cases heof : c = eof
          · have hskip : fetched (c :: line) = fetched line := by simp [fetched, heof]
            rw [hskip] at hroom ⊢
            rw [List.cons_append, heof, readLoop_eof]
            exact ih hrest hroom eof
          · have hkeep : fetched (c :: line) = c :: fetched line := by simp [fetched, heof]
            rw [hkeep] at hroom ⊢
            obtain ⟨last, rest', hloop, hlast⟩ := ih hrest (Nat.le_of_succ_le_succ hroom) c
            refine ⟨last, rest', ?_, ?_⟩
            · rw [List.cons_append, readLoop_cons heof hc, hloop]
              rfl
            · rw [if_neg (Nat.succ_ne_zero room)]
              split at hlast
              · rwa [hlast]
              · exact hlast

/-- The call waits for more. -/
theorem readLoop_waits (hline : ∀ c ∈ line, ¬ EndsLine c) (hroom : (fetched line).length < room)
    (ch : Byte) : readLoop room ch line = none := by
  induction line generalizing room ch with
  | nil => exact if_neg (Nat.ne_of_gt hroom)
  | cons c line ih =>
      obtain ⟨room, rfl⟩ : ∃ n, room = n + 1 := ⟨room - 1, by omega⟩
      have hrest : ∀ d ∈ line, ¬ EndsLine d := fun d hd => hline d (List.mem_cons_of_mem c hd)
      by_cases heof : c = eof
      · have hskip : fetched (c :: line) = fetched line := by simp [fetched, heof]
        rw [hskip] at hroom
        rw [heof, readLoop_eof, ih hrest hroom]
      · have hkeep : fetched (c :: line) = c :: fetched line := by simp [fetched, heof]
        rw [hkeep] at hroom
        rw [readLoop_cons heof (hline c List.mem_cons_self),
          ih hrest (Nat.lt_of_succ_lt_succ hroom)]
        rfl

/-- The buffer is not overrun. -/
theorem length_readLoop {input : List Byte} {ch : Byte} {l : Line}
    (h : readLoop room ch input = some l) : l.stored.length ≤ room := by
  induction input generalizing room ch l with
  | nil =>
      rw [readLoop] at h
      split at h
      · cases h
        exact Nat.zero_le room
      · cases h
  | cons c input ih =>
      cases room with
      | zero =>
          rw [readLoop_zero] at h
          cases h
          exact le_rfl
      | succ room =>
          by_cases heof : c = eof
          · rw [heof, readLoop_eof] at h
            exact ih h
          · by_cases hend : EndsLine c
            · rw [readLoop_end hend] at h
              cases h
              exact Nat.zero_le _
            · rw [readLoop_cons heof hend] at h
              obtain ⟨l', hl', rfl⟩ := Option.map_eq_some_iff.mp h
              exact Nat.succ_le_succ (ih hl')

/-- A line that fits is read whole. -/
theorem read_line {c : SynchConsole} {numBytes : ℕ}
    (hinput : c.input = line ++ newline :: rest) (hline : ∀ d ∈ line, ¬ EndsLine d)
    (heof : ∀ d ∈ line, d ≠ eof) (hroom : line.length < numBytes) (ch : Byte) :
    c.read ch numBytes = some ((line.length : ℤ), line, { c with input := rest }) := by
  have hfetched : fetched line = line := List.filter_eq_self.mpr (by simpa using heof)
  unfold read
  rw [hinput, Int.toNat_natCast,
    readLoop_ended hline (by rwa [hfetched]) (.inl rfl), hfetched]
  rfl

end SynchConsole

/-- `IncreasePC` changes the program counters only. -/
theorem Machine.readRegister_increasePC (m : Machine) {num : Reg} (hprev : num ≠ prevPCReg)
    (hpc : num ≠ pcReg) (hnext : num ≠ nextPCReg) :
    m.increasePC.readRegister num = m.readRegister num := by
  simp [increasePC, readRegister, writeRegister, hprev, hpc, hnext]

end Nachos
