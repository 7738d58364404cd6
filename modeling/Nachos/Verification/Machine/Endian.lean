import Nachos.Library.ByteMemory
import Nachos.Model.Endian
import Nachos.Verification.FileSystem.Layout
import Nachos.Verification.Machine.Translation

/-! # User memory is little-endian

On either host `mainMemory` is an array of bytes in which numbers are little-endian, and the
calls are those of a little-endian host. -/

namespace Nachos

open ByteMemory Tracking

/-- What `ReadMem` makes of the number in `size` bytes. -/
def extend (size number : ℕ) : Word :=
  if size = 1 then (BitVec.ofNat 8 number).signExtend 32 else BitVec.ofNat 32 number

inductive MemCall
  | readMem (addr : Word) (size : ℕ)
  | writeMem (addr : Word) (size : ℕ) (value : Word)
deriving DecidableEq, Repr

namespace Host

variable {host : Host} {m m' : Machine} {memory : ℕ → Byte} {addr size : ℕ} {value : Word}
  {events : List (ByteMemory.Event Word)} {calls : List MemCall}

/-- A call, with the physical address that it has used. -/
def call (host : Host) (m : Machine) :
    MemCall → Except Machine.Trap (ByteMemory.Event Word × Machine)
  | .readMem addr size => do
      let (physAddr, _) ← m.translate addr size false
      let (value, m) ← host.readMem m addr size
      return (.loaded physAddr size value, m)
  | .writeMem addr size value => do
      let (physAddr, _) ← m.translate addr size true
      let m ← host.writeMem m addr size value
      return (.stored physAddr size value.toNat, m)

/-- Calls that succeed one after the other. -/
def run (host : Host) (m : Machine) :
    List MemCall → Except Machine.Trap (List (ByteMemory.Event Word) × Machine)
  | [] => .ok ([], m)
  | c :: calls => do
      let (event, m) ← host.call m c
      let (events, m) ← host.run m calls
      return (event :: events, m)

/-! ### Bytes of words -/

theorem byteOf_eq_ofNat (w : Word) (k : ℕ) : byteOf w k = BitVec.ofNat 8 (w.toNat / 256 ^ k) := by
  apply BitVec.eq_of_toNat_eq
  rw [toNat_byteOf, BitVec.toNat_ofNat, pow_mul]
  norm_num

theorem byteOf_shiftRight (w : Word) (k : ℕ) : byteOf (w >>> 8) k = byteOf w (k + 1) := by
  apply BitVec.eq_of_toNat_eq
  rw [toNat_byteOf, toNat_byteOf, BitVec.toNat_ushiftRight, Nat.shiftRight_eq_div_pow,
    Nat.div_div_eq_div_mul, ← pow_add, Nat.mul_add, Nat.add_comm 8]

/-- The masks and shifts of `WordToHost` turn the bytes round. -/
theorem byteOf_wordToHost (hbig : host.hostIsBigEndian = true) (w : Word) {k : ℕ} (hk : k < 4) :
    byteOf (host.wordToHost w) k = byteOf w (3 - k) := by
  rw [wordToHost, if_pos hbig]
  interval_cases k
  all_goals
    ext i hi
    simp only [byteOf, BitVec.getElem_extractLsb', BitVec.getLsbD_or, BitVec.getLsbD_and,
      BitVec.getLsbD_ushiftRight, BitVec.getLsbD_shiftLeft]
    interval_cases i <;> simp

theorem byteOf_mask (value : Word) {k : ℕ} (hk : k < 2) :
    byteOf (((value &&& 0xffff#32).setWidth 16).setWidth 32) k = byteOf value k := by
  interval_cases k
  all_goals
    ext i hi
    simp only [byteOf, BitVec.getElem_extractLsb', BitVec.getLsbD_and, BitVec.getLsbD_setWidth]
    interval_cases i <;> simp

theorem byteOf_shortToHost (hbig : host.hostIsBigEndian = true) (s : BitVec 16) {k : ℕ}
    (hk : k < 2) :
    byteOf ((host.shortToHost s).setWidth 32) k = byteOf (s.setWidth 32) (1 - k) := by
  rw [shortToHost, if_pos hbig]
  interval_cases k
  all_goals
    ext i hi
    simp only [byteOf, BitVec.getElem_extractLsb', BitVec.getLsbD_or, BitVec.getLsbD_and,
      BitVec.getLsbD_ushiftRight, BitVec.getLsbD_shiftLeft, BitVec.getLsbD_setWidth]
    interval_cases i <;> simp

/-! ### Little-endian hosts -/

theorem load_eq_value (memory : ℕ → Byte) (addr size : ℕ) :
    Machine.load memory addr size = ByteMemory.value memory addr size := by
  induction size generalizing addr with
  | zero => rfl
  | succ size ih =>
      rw [Machine.load, ih, ByteMemory.value, ByteMemory.value, Finset.sum_range_succ', pow_zero,
        mul_one, add_zero, Nat.add_comm, Finset.mul_sum]
      congr 1
      refine Finset.sum_congr rfl fun k _ => ?_
      rw [Nat.add_assoc, Nat.add_comm 1 k, pow_succ]
      ring

theorem store_eq_put (memory : ℕ → Byte) (addr : ℕ) (value : Word) (size : ℕ) :
    Machine.store memory addr value size = put memory addr size value.toNat := by
  funext p
  by_cases hout : p < addr ∨ addr + size ≤ p
  · rw [Machine.store_of_outside hout, put_of_outside hout]
  obtain ⟨k, rfl⟩ := Nat.exists_eq_add_of_le (show addr ≤ p by omega)
  have hk : k < size := by omega
  clear hout
  rw [put_add hk, ← byteOf_eq_ofNat]
  induction size generalizing memory addr value k with
  | zero => omega
  | succ size ih =>
      rw [Machine.store]
      cases k with
      | zero =>
          rw [Machine.store_of_outside (.inl (by omega)), add_zero, Function.update_self]
          ext i hi
          simp [byteOf, BitVec.getElem_extractLsb']
      | succ k =>
          rw [show addr + (k + 1) = addr + 1 + k by omega, ih _ _ _ _ (by omega),
            byteOf_shiftRight]

/-! ### Big-endian hosts -/

theorem storeBig_of_outside {p : ℕ} (h : p < addr ∨ addr + size ≤ p) :
    storeBig memory addr value size p = memory p := by
  induction size generalizing memory value with
  | zero => rfl
  | succ size ih => rw [storeBig, ih (by omega), Function.update_of_ne (by omega)]

theorem storeBig_add {k : ℕ} (hk : k < size) :
    storeBig memory addr value size (addr + k) = byteOf value (size - 1 - k) := by
  induction size generalizing memory value with
  | zero => omega
  | succ size ih =>
      rw [storeBig]
      by_cases hlast : k = size
      · rw [storeBig_of_outside (.inr (by omega)), hlast, Function.update_self,
          Nat.add_sub_cancel, Nat.sub_self]
        ext i hi
        simp [byteOf, BitVec.getElem_extractLsb']
      · rw [ih (by omega), byteOf_shiftRight]
        congr 1
        omega

theorem byteOf_loadBig (memory : ℕ → Byte) (addr : ℕ) {k : ℕ} (hk : k < 4) :
    byteOf (BitVec.ofNat 32 (loadBig memory addr 4)) (3 - k) = memory (addr + k) := by
  have hlt₀ := (memory addr).isLt
  have hlt₁ := (memory (addr + 1)).isLt
  have hlt₂ := (memory (addr + 2)).isLt
  have hlt₃ := (memory (addr + 3)).isLt
  apply BitVec.eq_of_toNat_eq
  interval_cases k
  all_goals
    simp only [toNat_byteOf, BitVec.toNat_ofNat, loadBig, add_zero]
    omega

theorem wordToHost_loadBig (hbig : host.hostIsBigEndian = true) (memory : ℕ → Byte) (addr : ℕ) :
    host.wordToHost (BitVec.ofNat 32 (loadBig memory addr 4)) =
      BitVec.ofNat 32 (Machine.load memory addr 4) := by
  refine (wordAt_eq fun k hk => ?_).symm
  rw [byteOf_wordToHost hbig _ hk, byteOf_loadBig memory addr hk]

theorem byteOf_loadBig_short (memory : ℕ → Byte) (addr : ℕ) {k : ℕ} (hk : k < 2) :
    byteOf ((BitVec.ofNat 16 (loadBig memory addr 2)).setWidth 32) (1 - k) =
      memory (addr + k) := by
  have hlt₀ := (memory addr).isLt
  have hlt₁ := (memory (addr + 1)).isLt
  apply BitVec.eq_of_toNat_eq
  interval_cases k
  all_goals
    simp only [toNat_byteOf, BitVec.toNat_setWidth, BitVec.toNat_ofNat, loadBig, add_zero]
    omega

theorem shortToHost_loadBig (hbig : host.hostIsBigEndian = true) (memory : ℕ → Byte)
    (addr : ℕ) :
    (host.shortToHost (BitVec.ofNat 16 (loadBig memory addr 2))).setWidth 32 =
      BitVec.ofNat 32 (Machine.load memory addr 2) := by
  have hbyte : ∀ k < 2, byteOf ((host.shortToHost (BitVec.ofNat 16
      (loadBig memory addr 2))).setWidth 32) k = memory (addr + k) := by
    intro k hk
    rw [byteOf_shortToHost hbig _ hk, byteOf_loadBig_short memory addr hk]
  generalize host.shortToHost (BitVec.ofNat 16 (loadBig memory addr 2)) = data at hbyte ⊢
  have h₀ := congrArg BitVec.toNat (hbyte 0 (by decide))
  have h₁ := congrArg BitVec.toNat (hbyte 1 (by decide))
  have hlt := data.isLt
  apply BitVec.eq_of_toNat_eq
  simp only [toNat_byteOf, BitVec.toNat_setWidth, BitVec.toNat_ofNat, Machine.load,
    add_zero] at h₀ h₁ ⊢
  omega

theorem storeBig_wordToMachine (hbig : host.hostIsBigEndian = true) (memory : ℕ → Byte)
    (addr : ℕ) (value : Word) :
    storeBig memory addr (host.wordToMachine value) 4 = Machine.store memory addr value 4 := by
  rw [store_eq_put]
  funext p
  by_cases hout : p < addr ∨ addr + 4 ≤ p
  · rw [storeBig_of_outside hout, put_of_outside hout]
  obtain ⟨k, rfl⟩ := Nat.exists_eq_add_of_le (show addr ≤ p by omega)
  have hk : k < 4 := by omega
  rw [storeBig_add hk, put_add hk, wordToMachine, byteOf_wordToHost hbig _ (by omega),
    ← byteOf_eq_ofNat]
  congr 1
  omega

theorem storeBig_shortToMachine (hbig : host.hostIsBigEndian = true) (memory : ℕ → Byte)
    (addr : ℕ) (value : Word) :
    storeBig memory addr
        ((host.shortToMachine ((value &&& 0xffff#32).setWidth 16)).setWidth 32) 2 =
      Machine.store memory addr value 2 := by
  rw [store_eq_put]
  funext p
  by_cases hout : p < addr ∨ addr + 2 ≤ p
  · rw [storeBig_of_outside hout, put_of_outside hout]
  obtain ⟨k, rfl⟩ := Nat.exists_eq_add_of_le (show addr ≤ p by omega)
  have hk : k < 2 := by omega
  rw [storeBig_add hk, put_add hk, shortToMachine, byteOf_shortToHost hbig _ (by omega),
    ← byteOf_eq_ofNat, show 1 - (2 - 1 - k) = k by omega, byteOf_mask value hk]

/-! ### Either host -/

/-- `CheckEndian` passes on a big-endian host with `HOST_IS_BIG_ENDIAN` and on a little-endian
host without it. -/
theorem checkEndian_iff : host.checkEndian = true ↔ host.hostIsBigEndian = host.bigEndian := by
  obtain ⟨bigEndian, hostIsBigEndian⟩ := host
  cases bigEndian <;> cases hostIsBigEndian <;> decide

theorem wordToHost_load (hcheck : host.checkEndian = true) (memory : ℕ → Byte) (addr : ℕ) :
    host.wordToHost (BitVec.ofNat 32 (host.load memory addr 4)) =
      BitVec.ofNat 32 (Machine.load memory addr 4) := by
  have hsame := checkEndian_iff.mp hcheck
  rw [load]
  split
  · rename_i hbig
    exact wordToHost_loadBig (hsame.trans hbig) memory addr
  · rename_i hlittle
    rw [wordToHost, hsame, if_neg hlittle]

theorem shortToHost_load (hcheck : host.checkEndian = true) (memory : ℕ → Byte) (addr : ℕ) :
    (host.shortToHost (BitVec.ofNat 16 (host.load memory addr 2))).setWidth 32 =
      BitVec.ofNat 32 (Machine.load memory addr 2) := by
  have hsame := checkEndian_iff.mp hcheck
  rw [load]
  split
  · rename_i hbig
    exact shortToHost_loadBig (hsame.trans hbig) memory addr
  · rename_i hlittle
    rw [shortToHost, hsame, if_neg hlittle]
    have hlt₀ := (memory addr).isLt
    have hlt₁ := (memory (addr + 1)).isLt
    apply BitVec.eq_of_toNat_eq
    simp only [BitVec.toNat_setWidth, BitVec.toNat_ofNat, Machine.load]
    omega

theorem store_wordToMachine (hcheck : host.checkEndian = true) (memory : ℕ → Byte) (addr : ℕ)
    (value : Word) :
    host.store memory addr (host.wordToMachine value) 4 = Machine.store memory addr value 4 := by
  have hsame := checkEndian_iff.mp hcheck
  rw [store]
  split
  · rename_i hbig
    exact storeBig_wordToMachine (hsame.trans hbig) memory addr value
  · rename_i hlittle
    rw [wordToMachine, wordToHost, hsame, if_neg hlittle]

theorem store_shortToMachine (hcheck : host.checkEndian = true) (memory : ℕ → Byte) (addr : ℕ)
    (value : Word) :
    host.store memory addr
        ((host.shortToMachine ((value &&& 0xffff#32).setWidth 16)).setWidth 32) 2 =
      Machine.store memory addr value 2 := by
  have hsame := checkEndian_iff.mp hcheck
  rw [store]
  split
  · rename_i hbig
    exact storeBig_shortToMachine (hsame.trans hbig) memory addr value
  · rename_i hlittle
    rw [shortToMachine, shortToHost, hsame, if_neg hlittle, store_eq_put, store_eq_put]
    funext p
    by_cases hout : p < addr ∨ addr + 2 ≤ p
    · rw [put_of_outside hout, put_of_outside hout]
    obtain ⟨k, rfl⟩ := Nat.exists_eq_add_of_le (show addr ≤ p by omega)
    have hk : k < 2 := by omega
    rw [put_add hk, put_add hk, ← byteOf_eq_ofNat, ← byteOf_eq_ofNat, byteOf_mask value hk]

theorem update_eq_store (memory : ℕ → Byte) (addr : ℕ) (value : Word) :
    Function.update memory addr ((value &&& 0xff#32).setWidth 8) =
      Machine.store memory addr value 1 := by
  have hbyte : (value &&& 0xff#32).setWidth 8 = value.truncate 8 := by
    ext i hi
    simp only [BitVec.getElem_setWidth, BitVec.getLsbD_and]
    interval_cases i <;> simp
  rw [Machine.store, Machine.store, hbyte]

/-! ### The calls -/

/-- A configuration that passes `CheckEndian` reads as a little-endian host does. -/
theorem readMem_eq (hcheck : host.checkEndian = true) (m : Machine) (addr : Word) (size : ℕ) :
    host.readMem m addr size = m.readMem addr size := by
  rw [readMem, Machine.readMem]
  cases m.translate addr size false with
  | error trap => rfl
  | ok found =>
      obtain ⟨physAddr, m'⟩ := found
      rw [ok_bind, ok_bind]
      obtain hlt | ⟨k, rfl⟩ : size < 5 ∨ ∃ k, size = k + 5 :=
        (lt_or_ge size 5).imp_right Nat.exists_eq_add_of_le'
      · interval_cases size
        case «2» =>
          exact congrArg (fun data => Except.ok (data, m'))
            (shortToHost_load hcheck m'.mainMemory physAddr)
        case «4» =>
          exact congrArg (fun word => Except.ok (word, m'))
            (wordToHost_load hcheck m'.mainMemory physAddr)
        all_goals rfl
      · rfl

theorem writeMem_eq (hcheck : host.checkEndian = true) (m : Machine) (addr : Word) (size : ℕ)
    (value : Word) : host.writeMem m addr size value = m.writeMem addr size value := by
  rw [writeMem, Machine.writeMem]
  cases m.translate addr size true with
  | error trap => rfl
  | ok found =>
      obtain ⟨physAddr, m'⟩ := found
      rw [ok_bind, ok_bind]
      simp only [store_shortToMachine hcheck, store_wordToMachine hcheck, update_eq_store]
      split
      · rfl
      · rfl
      · rfl
      · rename_i hone htwo hfour
        rw [if_neg (not_or.mpr ⟨hone, not_or.mpr ⟨htwo, hfour⟩⟩)]

theorem readMem_spec {addr : Word} {physAddr : ℕ} {m₁ : Machine}
    (hphys : m.translate addr size false = .ok (physAddr, m₁))
    (h : m.readMem addr size = .ok (value, m')) :
    value = extend size (ByteMemory.value m.mainMemory physAddr size) ∧
      m'.mainMemory = m.mainMemory := by
  have hmemory := (Machine.sameState_translate hphys).mainMemory
  rw [Machine.readMem, hphys, ok_bind] at h
  dsimp only at h
  rw [hmemory] at h
  split at h
  · cases h
    refine ⟨?_, hmemory⟩
    simp [extend, ByteMemory.value]
  · cases h
    exact ⟨by rw [load_eq_value]; rfl, hmemory⟩
  · cases h
    exact ⟨by rw [load_eq_value]; rfl, hmemory⟩
  · cases h

theorem writeMem_spec {addr : Word} {physAddr : ℕ} {m₁ : Machine}
    (hphys : m.translate addr size true = .ok (physAddr, m₁))
    (h : m.writeMem addr size value = .ok m') :
    m'.mainMemory = put m.mainMemory physAddr size value.toNat := by
  have hmemory := (Machine.sameState_translate hphys).mainMemory
  rw [Machine.writeMem, hphys, ok_bind] at h
  dsimp only at h
  split at h
  · cases h
    rw [← store_eq_put, ← hmemory]
  · cases h

/-- One call is one event of the memory. -/
theorem call_run (hcheck : host.checkEndian = true) {c : MemCall}
    {event : ByteMemory.Event Word} (h : host.call m c = .ok (event, m')) {memory : ℕ → Byte}
    (hrest : Run extend m'.mainMemory events memory) :
    Run extend m.mainMemory (event :: events) memory := by
  cases c with
  | readMem addr size =>
      obtain ⟨⟨physAddr, m₁⟩, hphys, h⟩ := except_bind_eq_ok.mp h
      obtain ⟨⟨value, m₂⟩, hread, h⟩ := except_bind_eq_ok.mp h
      rw [readMem_eq hcheck] at hread
      obtain ⟨rfl, hmemory⟩ := readMem_spec hphys hread
      cases h
      rw [hmemory] at hrest
      exact .loaded physAddr size hrest
  | writeMem addr size value =>
      obtain ⟨⟨physAddr, m₁⟩, hphys, h⟩ := except_bind_eq_ok.mp h
      obtain ⟨m₂, hwrite, h⟩ := except_bind_eq_ok.mp h
      rw [writeMem_eq hcheck] at hwrite
      have hmemory := writeMem_spec hphys hwrite
      cases h
      rw [hmemory] at hrest
      exact .stored physAddr size value.toNat hrest

theorem run_run (hcheck : host.checkEndian = true) (h : host.run m calls = .ok (events, m')) :
    Run extend m.mainMemory events m'.mainMemory := by
  induction calls generalizing m events with
  | nil =>
      cases h
      exact .nil _
  | cons c calls ih =>
      obtain ⟨⟨event, m₁⟩, hcall, h⟩ := except_bind_eq_ok.mp h
      obtain ⟨⟨rest, m₂⟩, hrun, h⟩ := except_bind_eq_ok.mp h
      cases h
      exact call_run hcheck hcall (ih hrun)

/-- On a host that passes `CheckEndian` successful calls run on the bytes of `mainMemory`, and a
read returns what the last write to the same bytes has stored there. -/
theorem run_byteMemory (hcheck : host.checkEndian = true)
    (h : host.run m calls = .ok (events, m')) :
    Run extend m.mainMemory events m'.mainMemory ∧
    ∀ before between after physAddr size number read,
      events = before ++ .stored physAddr size number ::
        (between ++ .loaded physAddr size read :: after) →
      (∀ event ∈ between, event.Apart physAddr size) →
      read = extend size (number % 256 ^ size) := by
  have hrun := run_run hcheck h
  refine ⟨hrun, ?_⟩
  rintro before between after physAddr size number read rfl hapart
  exact hrun.loaded_after_stored hapart

/-- Page 0 in frame 3. -/
def frameThree : Machine where
  registers := fun _ => 0#32
  mainMemory := fun _ => 0#8
  tlb := none
  pageTable := some [⟨0, 3, true, false, false, false⟩]

theorem run_byteMemory_bigEndian : ∃ m',
    run ⟨true, true⟩ frameThree [.writeMem 8#32 4 0x81828384#32, .readMem 10#32 2] =
      .ok ([.stored 1544 4 0x81828384, .loaded 1546 2 0x8182#32], m') ∧
    Run extend frameThree.mainMemory [.stored 1544 4 0x81828384, .loaded 1546 2 0x8182#32]
      m'.mainMemory := by
  obtain ⟨m', hrun⟩ : ∃ m',
      run ⟨true, true⟩ frameThree [.writeMem 8#32 4 0x81828384#32, .readMem 10#32 2] =
        .ok ([.stored 1544 4 0x81828384, .loaded 1546 2 0x8182#32], m') := ⟨_, rfl⟩
  exact ⟨m', hrun, (run_byteMemory (checkEndian_iff.mpr rfl) hrun).1⟩

end Host
end Nachos
