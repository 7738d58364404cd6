import Nachos.Library.Runs
import Nachos.Verification.Exception.Strings
import Nachos.Verification.Process.PcbObject
import Nachos.Verification.Process.Semantics

/-! # The names of processes

`SC_Exec` copies at most `MaxFileLength + 1` characters and the NUL behind them; `SetFileName`
copies them into `MaxFileLength` bytes. -/

namespace Nachos

open CStrings Runs

/-! ## The names in the table -/

namespace Kernel

variable {k k' : Kernel} {t : Tid} {a : Addr} {th : Thread} {i : Input} {p : PCB}

/-- The name and the parent in the objects. -/
def names (k : Kernel) (a : Addr) : Option (List Byte × ℕ) :=
  (k.heap a).map fun p => (p.fileName, p.parentID)

/-- The objects there were have kept their name and their parent, or were deleted. -/
structure Later (k k' : Kernel) : Prop where
  nextAddr : k.nextAddr ≤ k'.nextAddr
  names : ∀ a < k.nextAddr, k'.names a = k.names a ∨ k'.names a = none

theorem Later.refl (k : Kernel) : k.Later k :=
  ⟨le_rfl, fun _ _ => .inl rfl⟩

theorem Later.trans {k₁ : Kernel} (h : k.Later k₁) (h' : k₁.Later k') : k.Later k' where
  nextAddr := h.nextAddr.trans h'.nextAddr
  names a ha := by
    rcases h'.names a (ha.trans_le h.nextAddr) with heq | hnone
    · rw [heq]
      exact h.names a ha
    · exact .inr hnone

theorem later_of_eq (hnextAddr : k'.nextAddr = k.nextAddr) (hnames : k'.names = k.names) :
    k.Later k' :=
  ⟨hnextAddr.ge, fun a _ => .inl (congrFun hnames a)⟩

@[simp] theorem names_goto (mode : Mode) : (k.goto t mode).names = k.names := rfl

@[simp] theorem names_sleep (mode : Mode) : (k.sleep t mode).names = k.names := rfl

@[simp] theorem names_setSpace (space : Space) : (k.setSpace t space).names = k.names := rfl

@[simp] theorem names_stop (status : Status) : (k.stop status).names = k.names := rfl

@[simp] theorem names_wake (u : Option Tid) : (k.wake u).names = k.names := by
  cases u <;> rfl

theorem status_wake (u : Option Tid) : (k.wake u).status = k.status := by
  cases u <;> rfl

@[simp] theorem nextAddr_wake (u : Option Tid) : (k.wake u).nextAddr = k.nextAddr := by
  cases u <;> rfl

theorem names_putPCB {p' : PCB} (h : k.heap a = some p) (hname : p'.fileName = p.fileName)
    (hparent : p'.parentID = p.parentID) : (k.putPCB a p').names = k.names := by
  funext b
  by_cases hb : b = a
  · subst hb
    simp [names, putPCB, h, hname, hparent]
  · simp [names, putPCB, hb]

/-- Writing an object back, with its name and parent. -/
theorem later_put {p' : PCB} {u : Option Tid} {mode : Mode} (h : k.heap a = some p)
    (hname : p'.fileName = p.fileName) (hparent : p'.parentID = p.parentID) :
    k.Later (((k.putPCB a p').wake u).goto t mode) := by
  refine later_of_eq (nextAddr_wake u) ?_
  rw [names_goto, names_wake, names_putPCB h hname hparent]

theorem later_bmsemV : k.Later k.bmsemV :=
  later_of_eq (nextAddr_wake _) (names_wake _)

theorem later_releaseLock : k.Later (k.releaseLock t) :=
  later_of_eq (nextAddr_wake _) (names_wake _)

/-! ### Every step -/

theorem later_execUpdate (filename : List Byte) : k.Later (k.execUpdate t filename) := by
  unfold execUpdate
  split
  · exact later_of_eq rfl rfl
  · exact later_of_eq rfl rfl

theorem later_execFail : k.Later (k.execFail t) :=
  later_bmsemV.trans (later_of_eq rfl rfl)

theorem later_execSlot (filename : List Byte) (same : Bool) :
    k.Later (k.execSlot t th filename same) := by
  unfold execSlot
  split
  · exact later_execFail
  · dsimp only
    split
    · exact later_execFail
    · split
      · exact later_of_eq rfl rfl
      · split
        · exact later_of_eq rfl rfl
        · refine ⟨Nat.le_succ _, fun a ha => .inl ?_⟩
          simp [names, goto, modifyThread, ha.ne]

theorem later_execOpen (filename : List Byte) (ok : Bool) :
    k.Later (k.execOpen t filename ok) := by
  cases ok with
  | false => exact later_execFail
  | true => exact later_of_eq rfl rfl

theorem later_execFork {id : ℕ} (ok : Bool) : k.Later (k.execFork t id a ok) := by
  unfold execFork
  cases hheap : k.heap a with
  | none => exact later_of_eq rfl rfl
  | some p =>
      cases ok with
      | false => exact later_put hheap rfl rfl
      | true =>
          refine later_of_eq rfl ?_
          exact names_putPCB hheap rfl rfl

theorem later_execUnlock {id : ℕ} : k.Later (k.execUnlock t id a) := by
  unfold execUnlock
  cases hheap : k.heap a with
  | none => exact later_of_eq rfl rfl
  | some p => exact later_put hheap rfl rfl

theorem later_joinSemP {pID : ℕ} {p' : PCB} (h : k.heap a = some p)
    (hname : p'.fileName = p.fileName) (hparent : p'.parentID = p.parentID) :
    k.Later (k.joinSemP t pID a p') := by
  unfold joinSemP
  split
  · exact later_of_eq rfl (names_putPCB h hname hparent)
  · exact later_of_eq rfl (names_putPCB h hname hparent)

theorem later_exitSemP {pID : ℕ} {ec : ℤ} (h : k.heap a = some p) :
    k.Later (k.exitSemP t pID ec a p) := by
  unfold exitSemP
  split
  · exact later_of_eq rfl (names_putPCB h rfl rfl)
  · exact later_of_eq rfl (names_putPCB h rfl rfl)

theorem later_joinUpdate (pID : ℤ) : k.Later (k.joinUpdate t th pID) := by
  unfold joinUpdate
  split
  · exact later_of_eq rfl rfl
  · split
    · exact later_of_eq rfl rfl
    · rename_i a _
      cases hheap : k.heap a with
      | none => exact later_of_eq rfl rfl
      | some p =>
          dsimp only
          split
          · exact later_of_eq rfl rfl
          · exact later_joinSemP hheap rfl rfl

theorem later_joinWait (pID : ℕ) : k.Later (k.joinWait t pID a) := by
  unfold joinWait
  cases hheap : k.heap a with
  | none => exact later_of_eq rfl rfl
  | some p => exact later_joinSemP hheap rfl rfl

theorem later_joinCode (pID : ℕ) : k.Later (k.joinCode t pID) := by
  unfold joinCode
  cases hderef : k.deref pID with
  | none => exact later_of_eq rfl rfl
  | some r =>
      obtain ⟨a, p⟩ := r
      obtain ⟨-, hheap⟩ := deref_eq_some.mp hderef
      dsimp only
      split
      · exact later_of_eq rfl rfl
      · exact later_put hheap rfl rfl

theorem later_remove (pID : ℕ) : k.Later (k.remove pID) := by
  unfold remove
  split
  · split
    · dsimp only
      cases k.pcb pID with
      | none => exact later_of_eq rfl rfl
      | some a =>
          cases hheap : k.heap a with
          | none =>
              simp only [hheap]
              exact later_of_eq rfl rfl
          | some p =>
              simp only [hheap]
              refine ⟨le_rfl, fun b _ => ?_⟩
              by_cases hb : b = a
              · exact .inr (by simp [names, hb])
              · exact .inl (by simp [names, hb])
    · exact .refl k
  · exact .refl k

theorem later_removeSelf (pID : ℕ) : k.Later (k.removeSelf t pID) :=
  (later_remove pID).trans (later_of_eq rfl rfl)

theorem later_exitUpdate (ec : ℤ) : k.Later (k.exitUpdate t th ec) := by
  unfold exitUpdate
  split
  · exact later_of_eq rfl rfl
  · split
    · exact later_of_eq rfl rfl
    · cases hderef : k.deref th.processID with
      | none => exact later_of_eq rfl rfl
      | some r =>
          obtain ⟨a, p⟩ := r
          obtain ⟨-, hheap⟩ := deref_eq_some.mp hderef
          dsimp only
          split
          · exact later_put hheap rfl rfl
          · refine Later.trans ?_ (later_removeSelf _)
            exact later_of_eq rfl (names_putPCB hheap rfl rfl)

theorem later_exitRelease {ec : ℤ} (pID : ℕ) : k.Later (k.exitRelease t pID ec) := by
  unfold exitRelease
  cases hderef : k.deref pID with
  | none => exact later_of_eq rfl rfl
  | some r => exact later_exitSemP (deref_eq_some.mp hderef).2

theorem later_exitWait {ec : ℤ} (pID : ℕ) : k.Later (k.exitWait t pID a ec) := by
  unfold exitWait
  cases hheap : k.heap a with
  | none => exact later_of_eq rfl rfl
  | some p => exact later_exitSemP hheap

theorem later_openExecutable (file : Option NoffHeader) :
    k.Later (k.openExecutable t file) := by
  unfold openExecutable
  cases file with
  | none => exact later_of_eq rfl rfl
  | some noffH =>
      dsimp only
      split
      · exact later_of_eq rfl rfl
      · split
        · exact later_of_eq rfl rfl
        · exact later_of_eq rfl rfl

theorem later_myStartProcess (file : Option NoffHeader) :
    k.Later (k.myStartProcess t th file) := by
  unfold myStartProcess
  split
  · cases k.deref th.processID with
    | none => exact later_of_eq rfl rfl
    | some r => exact later_openExecutable file
  · exact later_of_eq rfl rfl

theorem later_loadPages (noffH : NoffHeader) : k.Later (k.loadPages t noffH) := by
  unfold loadPages
  split
  · exact later_releaseLock.trans (later_of_eq rfl rfl)
  · generalize AddrSpace.allocate noffH.numPages k.gPhysPageBitMap = r
    obtain ⟨frames, b⟩ := r
    have hbitMap : k.Later { k with gPhysPageBitMap := b } := later_of_eq rfl rfl
    exact hbitMap.trans (later_releaseLock.trans (later_of_eq rfl rfl))

theorem later_loadEmpty : k.Later (k.loadEmpty t) := by
  unfold loadEmpty
  exact later_releaseLock.trans (later_of_eq rfl rfl)

theorem later_userStep (h : k.userStep t th i = some k') : k.Later k' := by
  unfold userStep at h
  split at h
  · cases h
    exact later_of_eq rfl rfl
  · cases h
    exact later_of_eq rfl rfl
  · split at h
    · cases h
      exact later_of_eq rfl rfl
    · cases i with
      | instr =>
          cases h
          exact .refl k
      | trap =>
          cases h
          exact later_of_eq rfl rfl
      | exec filename =>
          cases h
          exact later_execUpdate filename
      | join pID =>
          cases h
          exact later_joinUpdate pID
      | exit ec =>
          cases h
          exact later_exitUpdate ec
      | _ => cases h

theorem later_modeStep (h : k.modeStep t th i = some k') : k.Later k' := by
  unfold modeStep at h
  split at h
  case h_1 =>
    cases h
    exact later_openExecutable _
  case h_2 =>
    cases h
    exact later_myStartProcess _
  case h_3 =>
    rw [← Option.some.inj h]
    exact later_loadPages _
  case h_4 =>
    cases h
    exact later_loadEmpty
  case h_5 | h_18 =>
    cases h
    exact later_of_eq rfl rfl
  case h_6 => exact later_userStep h
  case h_7 =>
    cases h
    exact later_execUpdate _
  case h_8 =>
    cases h
    exact later_execOpen _ _
  case h_9 =>
    cases h
    exact later_execSlot _ _
  case h_10 =>
    cases h
    exact later_execFork _
  case h_11 =>
    cases h
    exact later_execUnlock
  case h_12 =>
    cases h
    exact later_bmsemV.trans (later_of_eq rfl rfl)
  case h_13 =>
    cases h
    exact later_joinWait _
  case h_14 =>
    cases h
    exact later_joinCode _
  case h_15 =>
    cases h
    exact later_exitRelease _
  case h_16 =>
    cases h
    exact later_exitWait _
  case h_17 =>
    cases h
    exact later_removeSelf _
  case h_19 => cases h

theorem later_step {label : Tid × Input} (h : k.step label = some k') : k.Later k' := by
  obtain ⟨th, -, -, -, hmode⟩ := step_eq_some h
  exact later_modeStep hmode

theorem later_exec {labels : List (Tid × Input)} (h : exec step k labels = some k') :
    k.Later k' :=
  exec_keep k.Later (fun _ => True) (fun _ _ _ _ hk hstep => hk.trans (later_step hstep)) (.refl k)
    (fun _ _ => trivial) h

/-! ### The name of a new process -/

/-- Behind the checks of `ExecUpdate` the new process has the name: the kernel goes on, and
`GetName` gives the name as long as the slot has the new object. -/
def NamesChild (name : List Byte) : Prop :=
  ∀ (k k' : Kernel) (t : Tid) (th : Thread), k.threads t = some th → th.mode = .execSlot name →
    k.step (t, .sameName false) = some k' → k'.status = .running ∧
      ∀ i a, (k'.threads t).map Thread.mode = some (.execFork i a) →
        ∀ labels k'', exec step k' labels = some k'' → k''.isExist i = true →
          k''.pcb i = some a → k''.heap a ≠ none → k''.getName i = some name

theorem getName_of_names {name : List Byte} {parent i : ℕ} (hexist : k.isExist i = true)
    (hslot : k.pcb i = some a) (hnames : k.names a = some (name, parent)) :
    k.getName i = some name := by
  obtain ⟨p, hheap, heq⟩ := Option.map_eq_some_iff.mp hnames
  have hderef : k.deref i = some (a, p) := deref_eq_some.mpr ⟨hslot, hheap⟩
  rw [getName, if_pos hexist, hderef]
  exact congrArg some (congrArg Prod.fst heq)

/-- What `execSlot` does with a name that fits. -/
theorem execSlot_fits {name : List Byte} (hname : name.length < PCBObject.fileNameSize)
    (hstatus : k.status = .running) (hth : k.threads t = some th) :
    (k.execSlot t th name false).status = .running ∧
      ∀ i a, ((k.execSlot t th name false).threads t).map Thread.mode = some (.execFork i a) →
        a < (k.execSlot t th name false).nextAddr ∧
          ∃ parent, (k.execSlot t th name false).names a = some (name, parent) := by
  have hfail : (k.execFail t).status = .running ∧
      ∀ i a, ((k.execFail t).threads t).map Thread.mode ≠ some (.execFork i a) := by
    refine ⟨(status_wake _).trans hstatus, fun i a hfork => ?_⟩
    rw [execFail, goto, modifyThread] at hfork
    simp [Function.comp_def] at hfork
  have hset (p : PCB) : p.setFileName name = some { p with fileName := name } :=
    PCB.setFileName_of_fits hname
  unfold execSlot
  have hspec := k.bm.find_spec
  generalize k.bm.find = r at hspec ⊢
  cases hspec with
  | full hfull =>
      refine ⟨hfail.1, fun i a hfork => absurd hfork (hfail.2 i a)⟩
  | found j hclear hleast =>
      have hne : (j.val : ℤ) ≠ -1 := by omega
      simp only [Bool.false_eq_true, if_false, hne, BitMap.index?_coe, hset]
      refine ⟨hstatus, fun i a hfork => ?_⟩
      have hmode' : Mode.execFork j k.nextAddr = Mode.execFork i a := by
        simpa [goto, modifyThread, hth] using hfork
      cases hmode'
      refine ⟨Nat.lt_succ_self _, (PCB.create j t th.processID).parentID, ?_⟩
      simp [names, goto, modifyThread]

theorem namesChild_of_fits {name : List Byte} (hname : name.length < PCBObject.fileNameSize) :
    NamesChild name := by
  intro k k' t th hth hmode hstep
  obtain ⟨th', hth', hstatus, -, hstep⟩ := step_eq_some hstep
  rw [hth] at hth'
  cases hth'
  have hk' : k.execSlot t th name false = k' := by
    unfold modeStep at hstep
    rw [hmode] at hstep
    exact Option.some.inj hstep
  obtain ⟨hrunning, hnew⟩ := execSlot_fits hname hstatus hth
  rw [hk'] at hrunning hnew
  refine ⟨hrunning, fun i a hfork labels k'' hrun hexist hslot hheap => ?_⟩
  obtain ⟨haddr, parent, hnames⟩ := hnew i a hfork
  rcases (later_exec hrun).names a haddr with hsame | hnone
  · exact getName_of_names hexist hslot (hsame.trans hnames)
  · exact absurd (Option.map_eq_none_iff.mp hnone) hheap

end Kernel

/-! ## The names that `Exec` copies in -/

/-- `SC_Exec` hands the name to `ExecUpdate`. -/
def PassesName (env : Env) (w : World) (name : List Byte) : Prop :=
  ∃ w', user2System env (w.machine.readRegister 4) (maxFileLength + 1) w = .ok (some name, w')

/-- The rest of `SC_Exec`. -/
theorem scExec_of_passesName {env : Env} {w : World} {name : List Byte}
    (h : PassesName env w name) :
    ∃ w', scExec env w = (do
      let id ← ask env (env.execUpdate name)
      writeRegister 2 id
      increasePC
      return .ret : KernelM Flow) w' := by
  obtain ⟨w', hcopy⟩ := h
  refine ⟨w', ?_⟩
  show (user2System env (w.machine.readRegister 4) (maxFileLength + 1) w).bind _ = _
  rw [hcopy]
  rfl

namespace PCBObject

/-- The name with its NUL fits into the array, the fields behind it keep what the constructor
has put there, and the process has this name. -/
structure NameKept (name : List Byte) : Prop where
  fits : name.length + 1 ≤ fileNameSize
  parentID : ∀ garbage processID, parentID (setFileName (create garbage processID) name) = processID
  joinStatus : ∀ garbage processID,
    joinStatus (setFileName (create garbage processID) name) = -1#32
  fileName : ∀ garbage processID, PointsTo (setFileName (create garbage processID) name) name
  child : Kernel.NamesChild name

theorem nameKept_iff {name : List Byte} (hname : ∀ c ∈ name, c ≠ 0#8) :
    NameKept name ↔ name.length < fileNameSize := by
  constructor
  · exact fun h => h.fits
  · intro h
    refine ⟨h, fun garbage processID => ?_, fun garbage processID => ?_,
      fun garbage processID => pointsTo_strcpy hname, Kernel.namesChild_of_fits h⟩
    · rw [parentID_setFileName h, parentID_create]
    · rw [joinStatus_setFileName h, joinStatus_create]

end PCBObject

open PCBObject Machine

/-- `Exec` keeps the name of the new process inside its object exactly when the user's string
is shorter than the array. -/
theorem exec_keeps_name_iff {env : Env} {w : World} {s : List Byte}
    (hnew : env.newChar (maxFileLength + 2) = true)
    (hs : Terminated next 0#8 w.machine.byte (w.machine.readRegister 4) s) :
    (∀ name, PassesName env w name → NameKept name) ↔ s.length < fileNameSize := by
  obtain ⟨w', hcopy, -⟩ := user2System_eq hs.ne_stop hs.holds (.inr rfl) hnew
  have hpassed : ∀ name, PassesName env w name ↔ name = s.take (maxFileLength + 1) := by
    intro name
    constructor
    · rintro ⟨w₁, hname⟩
      rw [hcopy] at hname
      cases hname
      rfl
    · rintro rfl
      exact ⟨w', hcopy⟩
  have hne : ∀ c ∈ s.take (maxFileLength + 1), c ≠ 0#8 :=
    fun c hc => hs.ne_stop c (List.mem_of_mem_take hc)
  simp only [hpassed, forall_eq, nameKept_iff hne, List.length_take]
  unfold maxFileLength fileNameSize
  omega

/-- A user program that calls `Exec` with a name of `n` characters at address 0. -/
def namingWorld (n : ℕ) : World :=
  twoPageWorld 2#32 0#32 0#32 (fun p => if 1536 ≤ p ∧ p < 1536 + n then 97#8 else 0#8) []

theorem exec_keeps_short_name :
    (∃ name, PassesName grantingEnv (namingWorld 31) name) ∧
      ∀ name, PassesName grantingEnv (namingWorld 31) name → NameKept name := by
  have hs : Terminated next 0#8 (namingWorld 31).machine.byte 0#32 (List.replicate 31 97#8) :=
    ⟨by decide, by decide⟩
  obtain ⟨w', hcopy, -⟩ :=
    @user2System_eq _ _ _ _ grantingEnv hs.ne_stop hs.holds _ (.inr rfl) (Eq.refl true)
  exact ⟨⟨_, w', hcopy⟩, (exec_keeps_name_iff rfl hs).mpr (by decide)⟩

/-- The NUL of a name of 32 characters makes process 3, the parent, process 0. -/
theorem exec_overwrites_parentID :
    ∃ name, PassesName grantingEnv (namingWorld 32) name ∧ ¬ NameKept name ∧
      ∀ garbage, parentID (setFileName (create garbage 3#32) name) = 0#32 := by
  have hs : Terminated next 0#8 (namingWorld 32).machine.byte 0#32 (List.replicate 32 97#8) :=
    ⟨by decide, by decide⟩
  obtain ⟨w', hcopy, -⟩ :=
    @user2System_eq _ _ _ _ grantingEnv hs.ne_stop hs.holds _ (.inr rfl) (Eq.refl true)
  refine ⟨_, ⟨w', hcopy⟩, fun h => absurd h.fits (by decide), fun garbage => ?_⟩
  refine wordAt_eq fun k hk => ?_
  cases k with
  | zero => exact strcpy_length _ (List.replicate 32 97#8)
  | succ k =>
      have hbehind : (List.replicate 32 97#8 : List Byte).length < fileNameSize + (k + 1) := by
        rw [List.length_replicate, fileNameSize]
        omega
      rw [setFileName]
      refine (strcpy_of_gt hbehind).trans ?_
      rw [create, if_neg (by omega), if_pos (by omega), Nat.add_sub_cancel_left]
      have hk : k < 3 := Nat.lt_of_succ_lt_succ hk
      interval_cases k <;> rfl

end Nachos
