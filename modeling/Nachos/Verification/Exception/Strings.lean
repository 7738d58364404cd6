import Mathlib.Data.List.TakeWhile
import Nachos.Verification.Exception.Semantics
import Nachos.Verification.Machine.Bytes

/-! # Strings between the user and the kernel

`User2System` and `System2User` go byte by byte through the translation. The bytes are
sign-extended to an `int` and truncated again. -/

namespace Nachos

open CStrings Machine Tracking

/-- The kernel has read user memory: use bits may be set, nothing else is different. -/
structure World.SameUser (w w' : World) : Prop extends SameState w.machine w'.machine where
  entries : w'.machine.entries = w.machine.entries
  console : w'.console = w.console

namespace World.SameUser

variable {w w₁ w₂ : World}

theorem refl (w : World) : w.SameUser w :=
  ⟨SameState.refl w.machine, rfl, rfl⟩

theorem trans (h : w.SameUser w₁) (h' : w₁.SameUser w₂) : w.SameUser w₂ :=
  ⟨h.toSameState.trans h'.toSameState, h'.entries.trans h.entries, h'.console.trans h.console⟩

theorem byte (h : w.SameUser w₁) : w₁.machine.byte = w.machine.byte :=
  byte_congr h.mainMemory h.entries

end World.SameUser

theorem truncate_signExtend (c : Byte) : (c.signExtend 32).truncate 8 = c := by
  apply BitVec.eq_of_getLsbD_eq
  intro i hi
  simp [BitVec.getLsbD_signExtend, hi]
  omega

theorem signExtend_eq_zero_iff (c : Byte) : c.signExtend 32 = 0#32 ↔ c = 0#8 := by
  constructor
  · intro h
    have hinverse := congrArg (BitVec.truncate 8) h
    rwa [truncate_signExtend] at hinverse
  · rintro rfl
    rfl

/-! ## Reading -/

section Reading

variable {w : World} {addr : Word} {c : Byte} {s rest : List Byte}

theorem readMem_eq (h : w.machine.byte addr = some c) :
    ∃ w', readMem addr 1 w = .ok (c.signExtend 32, w') ∧ w.SameUser w' := by
  obtain ⟨m', hread, hsame, hentries⟩ := readMem_byte h
  refine ⟨{ w with machine := m' }, ?_, ⟨hsame, hentries, rfl⟩⟩
  refine bind_eq_ok.mpr ⟨w, w, rfl, ?_⟩
  rw [hread]
  rfl

/-- The loop of `User2System` on a string of bytes that are not NUL. -/
theorem user2SystemLoop_eq (hs : ∀ c ∈ s, c ≠ 0#8)
    (hholds : Holds next w.machine.byte addr (s ++ rest)) {room : ℕ}
    (hend : room ≤ s.length ∨ rest.head? = some 0#8) :
    ∃ w', user2SystemLoop room addr w = .ok (s.take room, w') ∧ w.SameUser w' := by
  induction room generalizing s addr w with
  | zero => exact ⟨w, rfl, .refl w⟩
  | succ room ih =>
      cases s with
      | nil =>
          cases rest with
          | nil => rcases hend with hend | hend <;> cases hend
          | cons d rest =>
              have hd : d = 0#8 := by
                rcases hend with hend | hend
                · cases hend
                · exact Option.some.inj hend
              subst hd
              obtain ⟨w', hread, hsame⟩ := readMem_eq hholds.1
              exact ⟨w', bind_eq_ok.mpr ⟨_, w', hread, rfl⟩, hsame⟩
      | cons c s =>
          obtain ⟨w₁, hread, hsame⟩ := readMem_eq hholds.1
          have hrest : Holds next w₁.machine.byte (next addr) (s ++ rest) := by
            rw [hsame.byte]
            exact hholds.2
          obtain ⟨w', hloop, hsame'⟩ := ih (fun d hd => hs d (List.mem_cons_of_mem c hd)) hrest
            (hend.imp Nat.le_of_succ_le_succ id)
          have hne : ¬ c.signExtend 32 = 0#32 :=
            mt (signExtend_eq_zero_iff c).mp (hs c List.mem_cons_self)
          refine ⟨w', bind_eq_ok.mpr ⟨_, w₁, hread, ?_⟩, hsame.trans hsame'⟩
          rw [if_neg hne]
          refine bind_eq_ok.mpr ⟨_, w', hloop, ?_⟩
          rw [truncate_signExtend]
          rfl

variable {env : Env}

theorem user2System_eq (hs : ∀ c ∈ s, c ≠ 0#8)
    (hholds : Holds next w.machine.byte addr (s ++ rest)) {limit : ℕ}
    (hend : limit ≤ s.length ∨ rest.head? = some 0#8) (hnew : env.newChar (limit + 1) = true) :
    ∃ w', user2System env addr limit w = .ok (some (s.take limit), w') ∧ w.SameUser w' := by
  obtain ⟨w', hloop, hsame⟩ := user2SystemLoop_eq hs hholds hend
  refine ⟨w', ?_, hsame⟩
  unfold user2System
  rw [if_pos hnew]
  exact bind_eq_ok.mpr ⟨_, w', hloop, rfl⟩

/-- The loop that looks for the end stops at the first byte that is not positive. -/
theorem stringLimit_eq (hs : ∀ c ∈ s, 0 < (c.signExtend 32).toInt)
    (hc : ¬ 0 < (c.signExtend 32).toInt)
    (hholds : Holds next w.machine.byte addr (s ++ c :: rest)) {fuel : ℕ}
    (hfuel : s.length < fuel) :
    ∃ w', stringLimit fuel addr w = .ok (s.length, w') ∧ w.SameUser w' := by
  induction s generalizing addr w fuel with
  | nil =>
      obtain ⟨fuel, rfl⟩ := Nat.exists_eq_add_of_lt hfuel
      obtain ⟨w', hread, hsame⟩ := readMem_eq hholds.1
      refine ⟨w', ?_, hsame⟩
      rw [List.length_nil, Nat.zero_add, stringLimit]
      refine bind_eq_ok.mpr ⟨_, w', hread, ?_⟩
      rw [if_neg hc]
      rfl
  | cons d s ih =>
      obtain ⟨fuel, rfl⟩ : ∃ n, fuel = n + 1 := ⟨fuel - 1, by omega⟩
      obtain ⟨w₁, hread, hsame⟩ := readMem_eq hholds.1
      have hrest : Holds next w₁.machine.byte (next addr) (s ++ c :: rest) := by
        rw [hsame.byte]
        exact hholds.2
      obtain ⟨w', hloop, hsame'⟩ := ih (fun x hx => hs x (List.mem_cons_of_mem d hx)) hrest
        (Nat.lt_of_succ_lt_succ hfuel)
      refine ⟨w', ?_, hsame.trans hsame'⟩
      rw [stringLimit]
      refine bind_eq_ok.mpr ⟨_, w₁, hread, ?_⟩
      rw [if_pos (hs d List.mem_cons_self)]
      refine bind_eq_ok.mpr ⟨_, w', hloop, ?_⟩
      rw [List.length_cons, Nat.add_comm]
      rfl

end Reading

/-! ## Writing -/

/-- The kernel has written the bytes from `addr` on, and no other byte of the memory. -/
structure World.Wrote (w w' : World) (addr : Word) (bytes : List Byte) : Prop where
  registers : w'.machine.registers = w.machine.registers
  entries : w'.machine.entries = w.machine.entries
  console : w'.console = w.console
  holds : Holds next w'.machine.byte addr bytes
  kept : ∀ p, (∀ v ∈ addresses next bytes.length addr, w.machine.address true v ≠ some p) →
    w'.machine.mainMemory p = w.machine.mainMemory p

section Writing

variable {w : World} {addr : Word} {s rest : List Byte}

theorem writeMem_eq {physAddr : ℕ} (h : w.machine.address true addr = some physAddr) (c : Byte) :
    ∃ w', writeMem addr 1 (c.signExtend 32) w = .ok ((), w') ∧
      w'.machine.registers = w.machine.registers ∧ w'.machine.entries = w.machine.entries ∧
        w'.console = w.console ∧
          w'.machine.mainMemory = Function.update w.machine.mainMemory physAddr c := by
  obtain ⟨m', hwrite, hregisters, hentries, hmemory⟩ := writeMem_byte h (c.signExtend 32)
  rw [truncate_signExtend] at hmemory
  refine ⟨{ w with machine := m' }, ?_, hregisters, hentries, rfl, hmemory⟩
  refine bind_eq_ok.mpr ⟨w, w, rfl, ?_⟩
  rw [hwrite]
  rfl

/-- The loop of `System2User` copies a string with its NUL. -/
theorem system2UserLoop_eq (hs : ∀ c ∈ s, c ≠ 0#8) {len : ℕ} (hlen : s.length < len)
    (hregion : w.machine.Region addr (s.length + 1)) :
    ∃ w', system2UserLoop len addr (s ++ 0#8 :: rest) w = .ok (s.length + 1, w') ∧
      w.Wrote w' addr (s ++ [0#8]) := by
  induction s generalizing addr w len with
  | nil =>
      obtain ⟨len, rfl⟩ : ∃ n, len = n + 1 := ⟨len - 1, by omega⟩
      obtain ⟨p, hp⟩ := Option.isSome_iff_exists.mp (hregion.mapped addr List.mem_cons_self)
      obtain ⟨w', hwrite, hregisters, hentries, hconsole, hmemory⟩ := writeMem_eq hp 0#8
      refine ⟨w', bind_eq_ok.mpr ⟨(), w', hwrite, rfl⟩, hregisters, hentries, hconsole,
        ⟨?_, trivial⟩, fun q hq => ?_⟩
      · rw [Machine.byte, address_congr hentries, address_false_of_true hp, Option.map_some,
          hmemory, Function.update_self]
      · rw [hmemory, Function.update_of_ne]
        rintro rfl
        exact hq addr List.mem_cons_self hp
  | cons c s ih =>
      obtain ⟨len, rfl⟩ : ∃ n, len = n + 1 := ⟨len - 1, by omega⟩
      obtain ⟨p, hp⟩ := Option.isSome_iff_exists.mp (hregion.mapped addr List.mem_cons_self)
      obtain ⟨w₁, hwrite, hregisters, hentries, hconsole, hmemory⟩ := writeMem_eq hp c
      obtain ⟨w', hloop, hwrote⟩ := ih (fun d hd => hs d (List.mem_cons_of_mem c hd))
        (Nat.lt_of_succ_lt_succ hlen) (hregion.tail.congr hentries)
      have haddress := address_congr hentries
      -- the byte written first is not among the others
      have hother : ∀ v ∈ addresses next (s ++ [0#8]).length (next addr),
          w₁.machine.address true v ≠ some p := by
        intro v hv heq
        rw [List.length_append, List.length_singleton] at hv
        rw [haddress, ← hp] at heq
        have hmem := List.mem_map_of_mem (f := w.machine.address true) hv
        rw [heq] at hmem
        exact (List.nodup_cons.mp hregion.distinct).1 hmem
      refine ⟨w', ?_, hwrote.registers.trans hregisters, hwrote.entries.trans hentries,
        hwrote.console.trans hconsole, ⟨?_, hwrote.holds⟩, fun q hq => ?_⟩
      · refine bind_eq_ok.mpr ⟨(), w₁, hwrite, ?_⟩
        rw [if_neg (hs c List.mem_cons_self)]
        refine bind_eq_ok.mpr ⟨_, w', hloop, ?_⟩
        rw [List.length_cons, Nat.add_comm]
        rfl
      · rw [Machine.byte, address_congr (hwrote.entries.trans hentries),
          address_false_of_true hp, Option.map_some, hwrote.kept p hother, hmemory,
          Function.update_self]
      · rw [hwrote.kept q, hmemory, Function.update_of_ne]
        · rintro rfl
          exact hq addr List.mem_cons_self hp
        · intro v hv
          rw [haddress]
          exact hq v (List.mem_cons_of_mem addr hv)

end Writing

/-! ## Out and in again -/

/-- What `System2User` has put into an address space, `User2System` gets back. -/
theorem system2User_user2System {env : Env} {w : World} {table : List TranslationEntry}
    (htable : w.machine.Mapped table) {addr : Word} {s : List Byte} (hs : ∀ c ∈ s, c ≠ 0#8)
    (hend : addr.toNat + s.length < table.length * pageSize) (rest : List Byte) {limit : ℕ}
    (hnew : env.newChar (limit + 1) = true) :
    ∃ w', system2User addr (s.length + 1) (s ++ 0#8 :: rest) w =
        .ok ((s.length + 1 : ℤ), w') ∧
      (∀ v : Word, v.toNat < addr.toNat ∨ addr.toNat + s.length < v.toNat →
        w'.machine.byte v = w.machine.byte v) ∧
      ∃ kernelBuf w'', user2System env addr limit w' = .ok (some kernelBuf, w'') ∧
        kernelBuf = s.take (min s.length limit) ∧ kernelBuf.length < limit + 1 := by
  obtain ⟨w', hloop, hwrote⟩ : ∃ w', system2UserLoop (s.length + 1) addr (s ++ 0#8 :: rest) w =
      .ok (s.length + 1, w') ∧ w.Wrote w' addr (s ++ [0#8]) :=
    system2UserLoop_eq hs (Nat.lt_succ_self s.length) (htable.region (Nat.succ_le_of_lt hend))
  obtain ⟨w'', hcopy, -⟩ := user2System_eq hs hwrote.holds (.inr rfl) hnew
  refine ⟨w', ?_, ?_, s.take limit, w'', hcopy, ?_, ?_⟩
  · have hlen : ¬ (s.length + 1 : ℤ) < 0 := by omega
    unfold system2User
    rw [if_neg hlen]
    exact bind_eq_ok.mpr ⟨_, w', hloop, rfl⟩
  · intro v hv
    have hlength := htable.length_le
    have hwrap : addr.toNat + (s.length + 1) ≤ 2 ^ 32 := by
      unfold numPhysPages pageSize at *
      omega
    unfold Machine.byte
    rw [address_congr hwrote.entries]
    cases hphys : w.machine.address false v with
    | none => rfl
    | some p =>
        rw [Option.map_some, Option.map_some, hwrote.kept p]
        intro u hu heq
        rw [List.length_append, List.length_singleton] at hu
        have hread := address_false_of_true heq
        have hsame : u = v := htable.address_injective (htable.page_lt hread)
          (htable.page_lt hphys) (hread.trans hphys.symm)
        have hbounds := mem_addresses hwrap hu
        rw [hsame] at hbounds
        omega
  · rw [List.take_eq_take_min, Nat.min_comm]
  · exact Nat.lt_succ_of_le (List.length_take_le limit s)

/-- An address space of two pages, the first in frame 3 and the second in frame 1, and a
system call with two arguments. -/
def twoPageWorld (code r4 r5 : Word) (memory : ℕ → Byte) (input : List Byte) : World where
  machine :=
    { registers := fun i =>
        if i = 2 then code else if i = 4 then r4 else if i = 5 then r5 else 0#32
      mainMemory := memory
      tlb := none
      pageTable := some [⟨0, 3, true, false, false, false⟩, ⟨1, 1, true, false, false, false⟩] }
  console := ⟨input, []⟩

/-- A string across the page boundary. -/
theorem system2User_user2System_two_pages :
    ∃ w', system2User 510#32 4 (chars "abc" ++ [0#8])
        (twoPageWorld 0#32 0#32 0#32 (fun _ => 0#8) []) = .ok (4, w') ∧
      (∀ v : Word, v.toNat < 510 ∨ 513 < v.toNat → w'.machine.byte v =
        (twoPageWorld 0#32 0#32 0#32 (fun _ => 0#8) []).machine.byte v) ∧
      ∃ kernelBuf w'', user2System grantingEnv 510#32 2 w' = .ok (some kernelBuf, w'') ∧
        kernelBuf = chars "ab" ∧ kernelBuf.length < 3 :=
  have htable : (twoPageWorld 0#32 0#32 0#32 (fun _ => 0#8) []).machine.Mapped
      [⟨0, 3, true, false, false, false⟩, ⟨1, 1, true, false, false, false⟩] :=
    ⟨rfl, rfl, by decide, by decide⟩
  have hs : ∀ c ∈ chars "abc", c ≠ 0#8 := by decide
  system2User_user2System htable hs (by decide) [] rfl

/-! ## PrintString -/

theorem iterate_next (n : ℕ) (addr : Word) : next^[n] addr = addr + BitVec.ofNat 32 n := by
  induction n generalizing addr with
  | zero => exact (BitVec.add_zero addr).symm
  | succ n ih =>
      rw [Function.iterate_succ_apply, ih, next, BitVec.add_assoc, ← BitVec.ofNat_add,
        Nat.add_comm 1 n]

/-- The addresses repeat after `2 ^ 32` bytes, so a string is shorter. -/
theorem length_lt_of_terminated {view : Word → Option Byte} {addr : Word} {s : List Byte}
    (h : Terminated next 0#8 view addr s) : s.length < 2 ^ 32 := by
  refine h.length_lt (by decide) ?_
  rw [iterate_next, ← BitVec.toNat_inj, BitVec.toNat_add, BitVec.toNat_ofNat, Nat.mod_self,
    Nat.add_zero, Nat.mod_eq_of_lt addr.isLt]

theorem signExtend_pos_iff (c : Byte) :
    0 < (c.signExtend 32).toInt ↔ c ≠ 0#8 ∧ c.toNat < 128 := by
  have hlt := c.isLt
  have hzero : c ≠ 0#8 ↔ c.toNat ≠ 0 := by
    rw [ne_eq, ← BitVec.toNat_inj]
    rfl
  rw [BitVec.toInt_signExtend_of_le (by decide), BitVec.toInt_eq_toNat_cond, hzero]
  split <;> omega

/-- `SC_PrintString` prints up to the first byte that is negative as a `char`. -/
theorem exceptionHandler_printString {env : Env} {w : World} {s : List Byte}
    (hcall : w.Calls .printString) (hnew : ∀ size, env.newChar size = true)
    (hs : Terminated next 0#8 w.machine.byte (w.machine.readRegister 4) s) :
    ∃ w', exceptionHandler env .syscallException w = .ok ((), w') ∧
      w'.console.output = w.console.output ++ s.takeWhile (·.toNat < 128) := by
  let t := s.takeWhile (·.toNat < 128)
  obtain ⟨c, rest, hsplit, hc⟩ : ∃ c rest, s ++ [0#8] = t ++ c :: rest ∧
      ¬ 0 < (c.signExtend 32).toInt := by
    have happend : s = t ++ s.dropWhile (·.toNat < 128) := List.takeWhile_append_dropWhile.symm
    cases hdrop : s.dropWhile (·.toNat < 128) with
    | nil =>
        rw [hdrop, List.append_nil] at happend
        exact ⟨0#8, [], by rw [← happend], by decide⟩
    | cons c rest =>
        rw [hdrop] at happend
        refine ⟨c, rest ++ [0#8], ?_, fun hpos => ?_⟩
        · conv_lhs => rw [happend]
          rw [List.append_assoc]
          rfl
        · have hfirst := List.head?_dropWhile_not (fun c : Byte => decide (c.toNat < 128)) s
          rw [hdrop] at hfirst
          simp only [List.head?_cons, decide_eq_false_iff_not] at hfirst
          exact hfirst ((signExtend_pos_iff c).mp hpos).2
  have hne : ∀ d ∈ t, d ≠ 0#8 := fun d hd => hs.ne_stop d (List.takeWhile_subset _ hd)
  have hpos : ∀ d ∈ t, 0 < (d.signExtend 32).toInt := fun d hd =>
    (signExtend_pos_iff d).mpr ⟨hne d hd, by simpa using List.mem_takeWhile_imp hd⟩
  have hholds := hs.holds
  rw [hsplit] at hholds
  have hshort : t.length < 2 ^ 32 :=
    (List.takeWhile_prefix _).length_le.trans_lt (length_lt_of_terminated hs)
  obtain ⟨w₁, hlimit, hsame⟩ := stringLimit_eq hpos hc hholds hshort
  rw [← hsame.byte] at hholds
  obtain ⟨w₂, hcopy, hsame'⟩ := user2System_eq hne hholds (.inl le_rfl) (hnew _)
  rw [List.take_length] at hcopy
  have hcase : syscallCase env (some .printString) w =
      .ok (.ret, { machine := w₂.machine.increasePC, console := w₂.console.write t }) :=
    bind_eq_ok.mpr ⟨_, w, readRegister_eq w 4, bind_eq_ok.mpr ⟨_, w₁, hlimit,
      bind_eq_ok.mpr ⟨_, w₂, hcopy, bind_eq_ok.mpr ⟨(), _, consoleWrite_eq env w₂ t,
        bind_eq_ok.mpr ⟨(), _, increasePC_eq _, rfl⟩⟩⟩⟩⟩
  refine ⟨_, exceptionHandler_of_ret hcall hcase, ?_⟩
  show w₂.console.output ++ t = _
  rw [hsame'.console, hsame.console]

/-- `SC_PrintString` prints a string exactly when all its bytes are ASCII. -/
theorem printString_whole_iff {env : Env} {w : World} {s : List Byte}
    (hcall : w.Calls .printString) (hnew : ∀ size, env.newChar size = true)
    (hs : Terminated next 0#8 w.machine.byte (w.machine.readRegister 4) s) :
    (∃ w', exceptionHandler env .syscallException w = .ok ((), w') ∧
      w'.console.output = w.console.output ++ s) ↔ ∀ c ∈ s, c.toNat < 128 := by
  obtain ⟨w₁, hhandler, houtput⟩ := exceptionHandler_printString hcall hnew hs
  constructor
  · rintro ⟨w', hhandler', houtput'⟩
    rw [hhandler] at hhandler'
    cases hhandler'
    have hwhole := List.append_cancel_left (houtput.symm.trans houtput')
    simpa using List.takeWhile_eq_self_iff.mp hwhole
  · intro hascii
    refine ⟨w₁, hhandler, ?_⟩
    rw [houtput, List.takeWhile_eq_self_iff.mpr (by simpa using hascii)]

/-- A memory in which the bytes stand at address 510 of the two pages. -/
def acrossPages (b₀ b₁ b₂ b₃ : Byte) (p : ℕ) : Byte :=
  if p = 2046 then b₀ else if p = 2047 then b₁ else if p = 512 then b₂ else
    if p = 513 then b₃ else 0#8

theorem printString_whole_two_pages :
    ∃ w', exceptionHandler grantingEnv .syscallException
        (twoPageWorld 16#32 510#32 0#32 (acrossPages 97#8 98#8 99#8 0#8) []) = .ok ((), w') ∧
      w'.console.output = [] ++ chars "abc" :=
  (printString_whole_iff (by decide) (fun _ => rfl) ⟨by decide, by decide⟩).mpr (by decide)

/-- Of the UTF-8 string `aé` only the `a` is printed. -/
theorem printString_stops_at_accent :
    Terminated next 0#8
        (twoPageWorld 16#32 510#32 0#32 (acrossPages 97#8 195#8 169#8 0#8) []).machine.byte
        510#32 [97#8, 195#8, 169#8] ∧
      ¬ ∃ w', exceptionHandler grantingEnv .syscallException
          (twoPageWorld 16#32 510#32 0#32 (acrossPages 97#8 195#8 169#8 0#8) []) =
            .ok ((), w') ∧
        w'.console.output = [97#8, 195#8, 169#8] := by
  have hs : Terminated next 0#8
      (twoPageWorld 16#32 510#32 0#32 (acrossPages 97#8 195#8 169#8 0#8) []).machine.byte
      510#32 [97#8, 195#8, 169#8] := ⟨by decide, by decide⟩
  refine ⟨hs, ?_⟩
  rintro ⟨w', hhandler, houtput⟩
  have hcall : (twoPageWorld 16#32 510#32 0#32 (acrossPages 97#8 195#8 169#8 0#8) []).Calls
      .printString := by decide
  obtain ⟨w₁, hhandler₁, houtput₁⟩ :=
    @exceptionHandler_printString grantingEnv _ _ hcall (fun _ => rfl) hs
  rw [hhandler] at hhandler₁
  cases hhandler₁
  rw [houtput] at houtput₁
  revert houtput₁
  decide

end Nachos
