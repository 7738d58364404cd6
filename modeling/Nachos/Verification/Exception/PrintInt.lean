import Nachos.Verification.Exception.ReadInt

/-! # Printing integers

`SC_PrintInt` negates a negative number and takes the digits from the right. The smallest
`int` is its own negation, so its digits come out negative. -/

namespace Nachos

open Numerals Tracking

/-! ## Canonical numerals -/

namespace IntLine

/-- The one line for its value that has no `+`, no fraction and no superfluous zero. -/
structure Canonical (l : IntLine) : Prop where
  digits_ne_nil : l.digits ≠ []
  sign_ne_plus : l.sign ≠ .plus
  fraction_eq_none : l.fraction = none
  no_leading_zero : l.digits.head? = some 48#8 → l.digits = [48#8] ∧ l.sign = .none

variable {l : IntLine}

/-- A canonical numeral of an `int` has no more digits than the limits. -/
theorem Canonical.short (h : l.Canonical) (hrange : l.InRange) : l.Short := by
  refine ⟨?_, fun _ => h.fraction_eq_none⟩
  have hle := l.inRange_iff.mp hrange
  have hlimit : l.sign.limit < 10 ^ 10 := by
    cases l.sign <;> decide
  cases hdigits : l.digits with
  | nil => exact absurd hdigits h.digits_ne_nil
  | cons c rest =>
      by_cases hzero : c = 48#8
      · have hone := (h.no_leading_zero (by rw [hdigits, hzero]; rfl)).1
        rw [← hdigits, hone]
        decide
      · have hc : IsDigit c := l.isDigit c (by simp [hdigits])
        have hne : digitOf c ≠ 0 := by
          intro heq
          exact hzero (digitOf_injective hc (by decide) heq)
        have hpow := pow_le_value (b := 10) hne (rest.map digitOf)
        rw [List.length_map] at hpow
        have hlt : 10 ^ rest.length < 10 ^ 10 := by
          rw [hdigits] at hle
          exact hpow.trans_lt (hle.trans_lt hlimit)
        have hlength := (Nat.pow_lt_pow_iff_right (by decide)).mp hlt
        rw [List.length_cons]
        omega

theorem Canonical.length_le (h : l.Canonical) (hrange : l.InRange) : l.chars.length ≤ 254 := by
  have hshort := (h.short hrange).1
  have hsign : l.sign.chars.length ≤ 1 := by
    cases l.sign <;> decide
  rw [length_chars, body, h.fraction_eq_none, fractionChars, List.append_nil]
  omega

end IntLine

/-! ## The digits that are taken -/

def digitChar (d : ℕ) : Byte :=
  BitVec.ofNat 8 (d + 48)

/-- The digits of a number that is not zero. -/
def decimalChars (n : ℕ) : List Byte :=
  (numeral 10 n).map digitChar

theorem toNat_digitChar {d : ℕ} (h : d < 10) : (digitChar d).toNat = d + 48 :=
  Nat.mod_eq_of_lt (by omega)

theorem isDigit_digitChar {d : ℕ} (h : d < 10) : IsDigit (digitChar d) := by
  unfold IsDigit
  rw [toNat_digitChar h]
  omega

theorem digitOf_digitChar {d : ℕ} (h : d < 10) : digitOf (digitChar d) = d := by
  unfold digitOf
  rw [toNat_digitChar h]
  omega

theorem isDigit_of_mem_decimalChars {n : ℕ} : ∀ c ∈ decimalChars n, IsDigit c := by
  intro c hc
  obtain ⟨d, hd, rfl⟩ := List.mem_map.mp hc
  exact isDigit_digitChar (lt_of_mem_numeral (by decide) hd)

theorem natValue_decimalChars (n : ℕ) : natValue (decimalChars n) = n := by
  have hdigits : (decimalChars n).map digitOf = numeral 10 n := by
    rw [decimalChars, List.map_map]
    refine (List.map_congr_left fun d hd => ?_).trans (List.map_id _)
    exact digitOf_digitChar (lt_of_mem_numeral (by decide) hd)
  rw [natValue, hdigits, value_numeral]

section Words

variable {n : ℕ}

/-- Division on the words that are not negative. -/
theorem sdiv_ten (h : n < 2 ^ 31) :
    (BitVec.ofNat 32 n).sdiv 10#32 = BitVec.ofNat 32 (n / 10) := by
  have hmsb : (BitVec.ofNat 32 n).msb = false := by
    rw [BitVec.msb_eq_false_iff_two_mul_lt, BitVec.toNat_ofNat]
    omega
  rw [BitVec.sdiv_eq, hmsb]
  apply BitVec.eq_of_toNat_eq
  show (BitVec.ofNat 32 n / 10#32).toNat = _
  rw [BitVec.toNat_udiv, BitVec.toNat_ofNat, BitVec.toNat_ofNat, BitVec.toNat_ofNat,
    Nat.mod_eq_of_lt (by omega : n < 2 ^ 32), Nat.mod_eq_of_lt (by decide : 10 < 2 ^ 32),
    Nat.mod_eq_of_lt (by omega : n / 10 < 2 ^ 32)]

theorem srem_ten (h : n < 2 ^ 31) :
    (BitVec.ofNat 32 n).srem 10#32 = BitVec.ofNat 32 (n % 10) := by
  have hmsb : (BitVec.ofNat 32 n).msb = false := by
    rw [BitVec.msb_eq_false_iff_two_mul_lt, BitVec.toNat_ofNat]
    omega
  rw [BitVec.srem_eq, hmsb]
  apply BitVec.eq_of_toNat_eq
  show (BitVec.ofNat 32 n % 10#32).toNat = _
  rw [BitVec.toNat_umod, BitVec.toNat_ofNat, BitVec.toNat_ofNat, BitVec.toNat_ofNat,
    Nat.mod_eq_of_lt (by omega : n < 2 ^ 32), Nat.mod_eq_of_lt (by decide : 10 < 2 ^ 32),
    Nat.mod_eq_of_lt (by omega : n % 10 < 2 ^ 32)]

theorem ofNat_eq_zero_iff (h : n < 2 ^ 31) : BitVec.ofNat 32 n = 0#32 ↔ n = 0 := by
  rw [← BitVec.toNat_inj, BitVec.toNat_ofNat, BitVec.toNat_ofNat]
  omega

theorem countDigits_eq {fuel : ℕ} (h : n < 2 ^ 31) (hfuel : n < 10 ^ fuel) :
    countDigits fuel (BitVec.ofNat 32 n) = (numeral 10 n).length := by
  induction fuel generalizing n with
  | zero =>
      obtain rfl : n = 0 := by omega
      rfl
  | succ fuel ih =>
      rw [countDigits]
      by_cases hzero : n = 0
      · rw [if_pos ((ofNat_eq_zero_iff h).mpr hzero), hzero, numeral_zero, List.length_nil]
      · have hquotient : n / 10 < 10 ^ fuel := by
          rw [Nat.pow_succ] at hfuel
          omega
        rw [if_neg (mt (ofNat_eq_zero_iff h).mp hzero), sdiv_ten h, ih (by omega) hquotient,
          numeral_of_ne_zero (by decide) hzero, List.length_append, List.length_singleton,
          Nat.add_comm]

theorem truncate_digit (h : n < 10) :
    (BitVec.ofNat 32 n + 48#32).truncate 8 = digitChar n := by
  apply BitVec.eq_of_toNat_eq
  rw [toNat_digitChar h]
  simp
  omega

/-- The digits taken from the right are those of the numeral. -/
theorem digitChars_eq (h : n < 2 ^ 31) :
    digitChars (numeral 10 n).length (BitVec.ofNat 32 n) = decimalChars n := by
  induction n using Nat.strongRecOn with
  | ind n ih =>
      by_cases hzero : n = 0
      · subst hzero
        simp [digitChars, decimalChars]
      · have hsplit := numeral_of_ne_zero (b := 10) (by decide) hzero
        have hquotient := ih (n / 10) (by omega) (by omega)
        rw [decimalChars, hsplit, List.length_append, List.length_singleton, digitChars,
          sdiv_ten h, srem_ten h, hquotient, truncate_digit (Nat.mod_lt n (by decide)),
          List.map_append]
        rfl

end Words

/-! ## What is printed -/

/-- The canonical numeral of an integer. -/
def numeralLine (n : ℤ) : IntLine where
  sign := if n < 0 then .minus else .none
  digits := if n = 0 then [48#8] else decimalChars n.natAbs
  fraction := none
  isDigit := by
    split
    · decide
    · exact isDigit_of_mem_decimalChars

theorem value_numeralLine (n : ℤ) : (numeralLine n).value = n := by
  by_cases hzero : n = 0
  · subst hzero
    rfl
  · have hvalue : natValue (numeralLine n).digits = n.natAbs := by
      show natValue (if n = 0 then [48#8] else decimalChars n.natAbs) = n.natAbs
      rw [if_neg hzero, natValue_decimalChars]
    have hsign : (numeralLine n).sign = if n < 0 then .minus else .none := rfl
    unfold IntLine.value
    rw [hvalue, hsign]
    by_cases hneg : n < 0
    · rw [if_pos hneg]
      exact neg_eq_iff_eq_neg.mpr (Int.ofNat_natAbs_of_nonpos hneg.le)
    · rw [if_neg hneg]
      exact Int.natAbs_of_nonneg (not_lt.mp hneg)

theorem canonical_numeralLine (n : ℤ) : (numeralLine n).Canonical := by
  have hsign : (numeralLine n).sign ≠ .plus := by
    show (if n < 0 then Sign.minus else .none) ≠ .plus
    split <;> decide
  by_cases hzero : n = 0
  · subst hzero
    exact ⟨by decide, hsign, rfl, fun _ => ⟨rfl, rfl⟩⟩
  · obtain ⟨d, digits, hnumeral, hd⟩ :=
      exists_numeral_eq_cons (b := 10) (Int.natAbs_ne_zero.mpr hzero)
    have hdigits : (numeralLine n).digits = digitChar d :: digits.map digitChar := by
      show (if n = 0 then [48#8] else decimalChars n.natAbs) = _
      rw [if_neg hzero, decimalChars, hnumeral, List.map_cons]
    have hlt : d < 10 := lt_of_mem_numeral (n := n.natAbs) (by decide) (by simp [hnumeral])
    refine ⟨by simp [hdigits], hsign, rfl, fun hhead => ?_⟩
    rw [hdigits, List.head?_cons, Option.some.injEq] at hhead
    have hzero' := digitOf_digitChar hlt
    rw [hhead] at hzero'
    exact absurd hzero'.symm hd

/-- The smallest `int`. -/
def intMin : Word := 2147483648#32

theorem digitChars_countDigits {n : ℕ} (h : n < 2 ^ 31) :
    digitChars (countDigits 11 (BitVec.ofNat 32 n)) (BitVec.ofNat 32 n) = decimalChars n := by
  rw [countDigits_eq h (h.trans (by decide)), digitChars_eq h]

/-- Every number but the smallest is printed as its canonical numeral. -/
theorem printIntChars_eq {number : Word} (h : number ≠ intMin) :
    printIntChars number = (numeralLine number.toInt).chars := by
  have hlt := number.isLt
  have hne : number.toNat ≠ 2147483648 := fun heq => h (BitVec.eq_of_toNat_eq heq)
  have hcond := BitVec.toInt_eq_toNat_cond number
  unfold printIntChars
  by_cases hzero : number = 0#32
  · subst hzero
    rfl
  · have hzeroInt : number.toInt ≠ 0 := fun heq => hzero (BitVec.eq_of_toInt_eq heq)
    have hchars : (numeralLine number.toInt).chars =
        (if number.toInt < 0 then Sign.minus else .none).chars ++
          decimalChars number.toInt.natAbs := by
      show _ ++ (if number.toInt = 0 then [48#8] else _) ++ [] = _
      rw [if_neg hzeroInt, List.append_nil]
      rfl
    have hslt : number.slt 0#32 = decide (number.toInt < 0) := BitVec.slt_eq_decide
    rw [if_neg hzero, hchars, hslt]
    by_cases hneg : number.toInt < 0
    · have hnegation : number * -1#32 = BitVec.ofNat 32 number.toInt.natAbs := by
        rw [BitVec.mul_neg, BitVec.mul_one]
        apply BitVec.eq_of_toNat_eq
        rw [BitVec.toNat_neg, BitVec.toNat_ofNat]
        split at hcond <;> omega
      simp only [hneg, decide_true, if_true]
      rw [hnegation, digitChars_countDigits (by split at hcond <;> omega)]
      rfl
    · have hsame : number = BitVec.ofNat 32 number.toInt.natAbs := by
        apply BitVec.eq_of_toNat_eq
        rw [BitVec.toNat_ofNat]
        split at hcond <;> omega
      simp only [hneg, decide_false, if_false, Bool.false_eq_true]
      conv_lhs => rw [hsame]
      rw [digitChars_countDigits (by split at hcond <;> omega)]
      rfl

/-- The text for the smallest `int` is no numeral. -/
theorem printIntChars_intMin (l : IntLine) : l.chars ≠ printIntChars intMin := by
  intro heq
  have hmem : 40#8 ∈ printIntChars intMin := by decide
  rw [← heq] at hmem
  exact absurd (l.bounds_of_mem _ hmem).1 (by decide)

/-! ## The system call -/

section SystemCall

variable (env : Env) (w : World)

/-- `SC_PrintInt` sends the characters to the console. -/
def World.PrintsInt (chars : List Byte) : Prop :=
  ∃ w', exceptionHandler env .syscallException w = .ok ((), w') ∧
    w'.console.output = w.console.output ++ chars

/-- `SC_PrintInt` sends the canonical numeral of r4, and `SC_ReadInt` reads r4 from it. -/
def World.IntRoundTrip : Prop :=
  ∃ l : IntLine, l.Canonical ∧ l.value = (w.machine.readRegister 4).toInt ∧
    w.PrintsInt env l.chars ∧
    ∀ (env' : Env) (v : World) (rest : List Byte), v.Calls .readInt →
      v.console.input = l.chars ++ SynchConsole.newline :: rest →
        v.ReadsInt env' (w.machine.readRegister 4).toInt

variable {env w}

theorem exceptionHandler_printInt (hcall : w.Calls .printInt) :
    exceptionHandler env .syscallException w = .ok ((),
      { machine := w.machine.increasePC
        console := w.console.write (printIntChars (w.machine.readRegister 4)) }) := by
  apply exceptionHandler_of_ret hcall
  refine bind_eq_ok.mpr ⟨_, w, readRegister_eq w 4, ?_⟩
  exact bind_eq_ok.mpr ⟨(), _, consoleWrite_eq env w _,
    bind_eq_ok.mpr ⟨(), _, increasePC_eq _, rfl⟩⟩

theorem printsInt_iff (hcall : w.Calls .printInt) (chars : List Byte) :
    w.PrintsInt env chars ↔ chars = printIntChars (w.machine.readRegister 4) := by
  constructor
  · rintro ⟨w', hhandler, houtput⟩
    rw [exceptionHandler_printInt hcall] at hhandler
    cases hhandler
    exact (List.append_cancel_left houtput).symm
  · rintro rfl
    exact ⟨_, exceptionHandler_printInt hcall, rfl⟩

end SystemCall

theorem Word.inRange_toInt (number : Word) :
    -2 ^ 31 ≤ number.toInt ∧ number.toInt ≤ 2 ^ 31 - 1 :=
  ⟨BitVec.le_toInt number, Int.le_sub_one_of_lt BitVec.toInt_lt⟩

/-- `PrintInt` and `ReadInt` are inverse at every `int` but the smallest. -/
theorem printInt_readInt_iff {env : Env} {w : World} (hcall : w.Calls .printInt) :
    w.IntRoundTrip env ↔ w.machine.readRegister 4 ≠ intMin := by
  constructor
  · rintro ⟨l, -, -, hprints, -⟩ hmin
    rw [printsInt_iff hcall, hmin] at hprints
    exact printIntChars_intMin l hprints
  · intro hne
    have hcanonical := canonical_numeralLine (w.machine.readRegister 4).toInt
    have hvalue := value_numeralLine (w.machine.readRegister 4).toInt
    have hrange : (numeralLine (w.machine.readRegister 4).toInt).InRange := by
      unfold IntLine.InRange
      rw [hvalue]
      exact Word.inRange_toInt _
    refine ⟨_, hcanonical, hvalue, (printsInt_iff hcall _).mpr (printIntChars_eq hne).symm, ?_⟩
    intro env' v rest hreadInt hinput
    have hreads := @IntLine.readsInt_of_short env' _ _ hreadInt
      (hcanonical.length_le hrange) _ hinput hrange (hcanonical.short hrange)
    rwa [hvalue] at hreads

/-- A call of `PrintInt`. -/
def printIntWorld (number : Word) : World where
  machine :=
    { registers := fun i => if i = 2 then 12#32 else if i = 4 then number else 0#32
      mainMemory := fun _ => 0#8
      tlb := none
      pageTable := some [] }
  console := ⟨[], []⟩

theorem printInt_readInt_minus_one :
    (printIntWorld (-1#32)).IntRoundTrip grantingEnv :=
  (printInt_readInt_iff (by decide)).mpr (by decide)

/-- For the smallest `int` the digits are those of the negative remainders. -/
theorem printInt_smallest :
    (printIntWorld intMin).PrintsInt grantingEnv (chars "-./,),(-*,(") ∧
      ¬ (printIntWorld intMin).IntRoundTrip grantingEnv := by
  constructor
  · exact (printsInt_iff (by decide) _).mpr (by decide)
  · rintro ⟨l, -, -, hprints, -⟩
    rw [printsInt_iff (by decide)] at hprints
    exact printIntChars_intMin l hprints

end Nachos
