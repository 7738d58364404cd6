import Mathlib.Data.List.TakeWhile
import Nachos.Library.Numerals
import Nachos.Verification.Exception.Semantics

/-! # Reading integers

`SC_ReadInt` checks the range of a number on its text: by the number of digits and, for ten
digits, by `strcmp` on the whole buffer, in which the fraction still stands. -/

namespace Nachos

open Numerals Tracking

/-! ## Lines that denote integers -/

def IsDigit (c : Byte) : Prop :=
  48 ≤ c.toNat ∧ c.toNat ≤ 57

instance : DecidablePred IsDigit := fun _ => inferInstanceAs (Decidable (_ ∧ _))

/-- To `decide` the statement itself would go through all bytes. -/
theorem isDigit_of_all {digits : List Byte} (h : (digits.all fun c => IsDigit c) = true) :
    ∀ c ∈ digits, IsDigit c := by
  simpa using h

def digitOf (c : Byte) : ℕ :=
  c.toNat - 48

/-- The number that a string of digits denotes. -/
def natValue (digits : List Byte) : ℕ :=
  value 10 (digits.map digitOf)

inductive Sign
  | none
  | plus
  | minus
deriving DecidableEq, Repr

/-- A sign, digits, and a fraction that is zero, as in `234.00000`. -/
structure IntLine where
  sign : Sign
  digits : List Byte
  /-- the number of zeros behind the point -/
  fraction : Option ℕ
  isDigit : ∀ c ∈ digits, IsDigit c

def Sign.chars : Sign → List Byte
  | .none => []
  | .plus => [43#8]
  | .minus => [45#8]

/-- The largest magnitude of an `int` with the sign. -/
def Sign.limit : Sign → ℕ
  | .minus => 2147483648
  | _ => 2147483647

def fractionChars : Option ℕ → List Byte
  | none => []
  | some zeros => 46#8 :: List.replicate zeros 48#8

namespace IntLine

def chars (l : IntLine) : List Byte :=
  l.sign.chars ++ l.digits ++ fractionChars l.fraction

def value (l : IntLine) : ℤ :=
  match l.sign with
  | .minus => -(natValue l.digits : ℤ)
  | _ => natValue l.digits

/-- The value is an `int`. -/
def InRange (l : IntLine) : Prop :=
  -2 ^ 31 ≤ l.value ∧ l.value ≤ 2 ^ 31 - 1

/-- At most ten digits; and when they are those of the largest magnitude, no fraction. -/
def Short (l : IntLine) : Prop :=
  l.digits.length ≤ 10 ∧ (natValue l.digits = l.sign.limit → l.fraction = none)

theorem inRange_iff (l : IntLine) : l.InRange ↔ natValue l.digits ≤ l.sign.limit := by
  unfold InRange value
  cases hsign : l.sign with
  | none =>
      show _ ↔ _ ≤ 2147483647
      dsimp only
      omega
  | plus =>
      show _ ↔ _ ≤ 2147483647
      dsimp only
      omega
  | minus =>
      show _ ↔ _ ≤ 2147483648
      dsimp only
      omega

end IntLine

/-! ## Digits -/

theorem isDigit_iff (c : Byte) : IsDigit c ↔ ¬ (c.toInt < 48 ∨ 57 < c.toInt) := by
  have hlt := c.isLt
  unfold IsDigit
  rw [BitVec.toInt_eq_toNat_cond]
  split <;> omega

theorem digitOf_lt {c : Byte} (h : IsDigit c) : digitOf c < 10 := by
  unfold IsDigit at h
  unfold digitOf
  omega

theorem digitsOf_lt {digits : List Byte} (h : ∀ c ∈ digits, IsDigit c) :
    ∀ d ∈ digits.map digitOf, d < 10 := by
  intro d hd
  obtain ⟨c, hc, rfl⟩ := List.mem_map.mp hd
  exact digitOf_lt (h c hc)

theorem digitOf_injective {c d : Byte} (hc : IsDigit c) (hd : IsDigit d)
    (h : digitOf c = digitOf d) : c = d := by
  unfold IsDigit at hc hd
  unfold digitOf at h
  exact BitVec.eq_of_toNat_eq (by omega)

theorem natValue_concat (digits : List Byte) (c : Byte) :
    natValue (digits ++ [c]) = 10 * natValue digits + digitOf c := by
  rw [natValue, List.map_append]
  exact value_concat 10 _ _

theorem natValue_lt {digits : List Byte} (h : ∀ c ∈ digits, IsDigit c) :
    natValue digits < 10 ^ digits.length := by
  have hlt := value_lt (b := 10) (by decide) (digitsOf_lt h)
  rwa [List.length_map] at hlt

/-- The accumulation in `int` arithmetic is that of the value modulo `2 ^ 32`. -/
theorem parseDigits_eq {digits : List Byte} (h : ∀ c ∈ digits, IsDigit c) :
    parseDigits digits = BitVec.ofNat 32 (natValue digits) := by
  induction digits using List.reverseRecOn with
  | nil => rfl
  | append_singleton digits c ih =>
      have hdigits : ∀ d ∈ digits, IsDigit d := fun d hd => h d (List.mem_append_left _ hd)
      have hc : IsDigit c := h c (by simp)
      have hdigit : c.signExtend 32 - 48#32 = BitVec.ofNat 32 (digitOf c) := by
        unfold IsDigit at hc
        have hmsb : c.msb = false := by
          rw [BitVec.msb_eq_false_iff_two_mul_lt]
          omega
        rw [BitVec.signExtend_eq_setWidth_of_msb_false hmsb]
        unfold digitOf
        bv_omega
      have hstep : parseDigits (digits ++ [c]) =
          parseDigits digits * 10#32 + (c.signExtend 32 - 48#32) := by
        simp only [parseDigits, List.foldl_append, List.foldl_cons, List.foldl_nil]
      rw [hstep, ih hdigits, hdigit, natValue_concat, BitVec.ofNat_add, BitVec.ofNat_mul,
        BitVec.mul_comm]

/-! ## Comparing digits as text -/

theorem strcmpPos_append_left (s t u : List Byte) :
    strcmpPos (s ++ t) (s ++ u) = strcmpPos t u := by
  induction s with
  | nil => rfl
  | cons a s ih =>
      rw [List.cons_append, List.cons_append, strcmpPos, if_pos rfl, ih]

/-- On digits of one length the order of the texts is that of the numbers; what follows the
first text counts only when the digits are equal. -/
theorem strcmpPos_iff {digits limit : List Byte} (rest : List Byte)
    (hlength : digits.length = limit.length) (h : ∀ c ∈ digits, IsDigit c)
    (h' : ∀ c ∈ limit, IsDigit c) :
    strcmpPos (digits ++ rest) limit = true ↔
      natValue limit < natValue digits ∨ natValue digits = natValue limit ∧ rest ≠ [] := by
  induction digits generalizing limit with
  | nil =>
      obtain rfl := List.length_eq_zero_iff.mp hlength.symm
      cases rest with
      | nil => simp [strcmpPos]
      | cons c rest => simp [strcmpPos]
  | cons a digits ih =>
      cases limit with
      | nil => cases hlength
      | cons b limit =>
          have hlength' := Nat.succ.inj hlength
          have hdigits : ∀ c ∈ digits, IsDigit c := fun c hc => h c (List.mem_cons_of_mem a hc)
          have hlimit : ∀ c ∈ limit, IsDigit c := fun c hc => h' c (List.mem_cons_of_mem b hc)
          have ha := h a List.mem_cons_self
          have hb := h' b List.mem_cons_self
          rw [List.cons_append, strcmpPos]
          by_cases hab : a = b
          · subst hab
            have hcons : ∀ l : List Byte, natValue (a :: l) =
                digitOf a * 10 ^ l.length + natValue l := by
              intro l
              have hvalue := value_cons 10 (digitOf a) (l.map digitOf)
              rwa [List.length_map] at hvalue
            rw [if_pos rfl, ih hlength' hdigits hlimit, hcons, hcons, hlength',
              Nat.add_lt_add_iff_left, Nat.add_left_cancel_iff]
          · rw [if_neg hab, decide_eq_true_eq]
            unfold IsDigit at ha hb
            rcases Nat.lt_or_gt_of_ne (fun heq => hab (BitVec.eq_of_toNat_eq heq)) with hlt | hgt
            · have hvalue : natValue (a :: digits) < natValue (b :: limit) :=
                value_lt_value (by decide) (by unfold digitOf; omega) (by simpa using hlength')
                  (digitsOf_lt hdigits)
              constructor
              · intro hgt
                omega
              · rintro (hgt | ⟨heq, -⟩) <;> omega
            · have hvalue : natValue (b :: limit) < natValue (a :: digits) :=
                value_lt_value (by decide) (by unfold digitOf; omega)
                  (by simpa using hlength'.symm) (digitsOf_lt hlimit)
              exact ⟨fun _ => .inl hvalue, fun _ => hgt⟩

/-! ## The check of the characters -/

theorem not_isDigit_point : ¬ IsDigit 46#8 := by decide

theorem checkDigits_append {digits : List Byte} (h : ∀ c ∈ digits, IsDigit c)
    (fraction : Option ℕ) (i : ℕ) :
    checkDigits i (digits ++ fractionChars fraction) = some (i + digits.length) := by
  induction digits generalizing i with
  | nil =>
      cases fraction with
      | none => rfl
      | some zeros => simp [fractionChars, checkDigits]
  | cons c digits ih =>
      have hc := h c List.mem_cons_self
      have hpoint : c ≠ 46#8 := by
        rintro rfl
        exact not_isDigit_point hc
      rw [List.cons_append, checkDigits, if_neg hpoint, if_neg ((isDigit_iff c).mp hc),
        ih (fun d hd => h d (List.mem_cons_of_mem c hd)), List.length_cons]
      congr 1
      omega

/-- What passes the check is digits and a fraction. -/
theorem exists_of_checkDigits {line : List Byte} {i last : ℕ}
    (h : checkDigits i line = some last) :
    ∃ digits fraction, line = digits ++ fractionChars fraction ∧ ∀ c ∈ digits, IsDigit c := by
  induction line generalizing i with
  | nil => exact ⟨[], none, rfl, by simp⟩
  | cons c line ih =>
      rw [checkDigits] at h
      split at h
      · rename_i hpoint
        split at h
        · rename_i hzeros
          refine ⟨[], some line.length, ?_, by simp⟩
          have hreplicate : line = List.replicate line.length 48#8 :=
            List.eq_replicate_of_mem (by simpa using hzeros)
          rw [hpoint, List.nil_append, fractionChars, ← hreplicate]
        · cases h
      · split at h
        · cases h
        · rename_i hdigit
          obtain ⟨digits, fraction, rfl, hdigits⟩ := ih h
          refine ⟨c :: digits, fraction, rfl, ?_⟩
          intro d hd
          rcases List.mem_cons.mp hd with rfl | hrest
          · exact (isDigit_iff d).mpr hdigit
          · exact hdigits d hrest

namespace IntLine

variable (l : IntLine)

/-- The characters behind the sign. -/
def body : List Byte :=
  l.digits ++ fractionChars l.fraction

theorem chars_eq : l.chars = l.sign.chars ++ l.body :=
  List.append_assoc _ _ _

/-- Without a sign the first character is none. -/
theorem head_body : l.body.headD 0#8 ≠ 45#8 ∧ l.body.headD 0#8 ≠ 43#8 := by
  unfold body
  cases hdigits : l.digits with
  | nil =>
      cases l.fraction with
      | none => exact ⟨by decide, by decide⟩
      | some zeros => exact ⟨by simp [fractionChars], by simp [fractionChars]⟩
  | cons c digits =>
      have hc : IsDigit c := l.isDigit c (by simp [hdigits])
      constructor
      · rintro rfl
        exact absurd hc (by decide)
      · rintro rfl
        exact absurd hc (by decide)

/-- The characters stand between the plus sign and the digit nine. -/
theorem bounds_of_mem : ∀ c ∈ l.chars, 43 ≤ c.toNat ∧ c.toNat ≤ 57 := by
  intro c hc
  rcases List.mem_append.mp hc with hc | hc
  · rcases List.mem_append.mp hc with hc | hc
    · cases hsign : l.sign <;> simp [hsign, Sign.chars] at hc <;> simp [hc]
    · have hdigit : IsDigit c := l.isDigit c hc
      unfold IsDigit at hdigit
      omega
  · cases hfraction : l.fraction with
    | none => simp [hfraction, fractionChars] at hc
    | some zeros =>
        rw [hfraction, fractionChars, List.mem_cons, List.mem_replicate] at hc
        rcases hc with rfl | ⟨-, rfl⟩
        · decide
        · decide

theorem ne_zero_of_mem : ∀ c ∈ l.chars, c ≠ 0#8 := by
  rintro c hc rfl
  exact absurd (l.bounds_of_mem _ hc).1 (by decide)

/-- The buffer holds the line as a C string. -/
theorem takeWhile_chars : l.chars.takeWhile (· ≠ 0#8) = l.chars := by
  rw [List.takeWhile_eq_self_iff]
  intro c hc
  simpa using l.ne_zero_of_mem c hc

theorem length_chars : l.chars.length = l.sign.chars.length + l.body.length := by
  rw [chars_eq, List.length_append]

theorem drop_chars (n : ℕ) :
    (l.chars.take (l.sign.chars.length + n)).drop l.sign.chars.length = l.body.take n := by
  rw [chars_eq, List.take_append, List.drop_append]
  simp

end IntLine

/-! ## The check of the range -/

/-- The text with which `SC_ReadInt` compares ten digits. -/
def Sign.limitChars : Sign → List Byte
  | .none => Nachos.chars "2147483647"
  | .plus => Nachos.chars "+2147483647"
  | .minus => Nachos.chars "-2147483648"

/-- The sign that `SC_ReadInt` finds. -/
def signOf (stored : List Byte) : Sign :=
  if stored.headD 0#8 = 45#8 then .minus else if stored.headD 0#8 = 43#8 then .plus else .none

/-- `SC_ReadInt` behind the check of the characters. -/
theorem parseInt_of_check {stored : List Byte} {last : ℕ}
    (hplain : stored.takeWhile (· ≠ 0#8) = stored)
    (hcheck : checkDigits (signOf stored).chars.length
      (stored.drop (signOf stored).chars.length) = some last) :
    parseInt stored.length stored =
      if (signOf stored).chars.length + 10 < last ∨ last = (signOf stored).chars.length + 10 ∧
        strcmpPos stored (signOf stored).limitChars = true then none
      else some (if signOf stored = .minus
        then parseDigits ((stored.take last).drop (signOf stored).chars.length) * -1#32
        else parseDigits ((stored.take last).drop (signOf stored).chars.length)) := by
  have hcount : ¬ (stored.length : ℤ) < 0 := by omega
  have hten : ((last : ℤ) = 10) = (last = 10) := propext ⟨by omega, by omega⟩
  have heleven : ((last : ℤ) = 11) = (last = 11) := propext ⟨by omega, by omega⟩
  unfold parseInt
  rw [hplain, Int.toNat_natCast, List.take_length]
  dsimp only
  unfold signOf at hcheck ⊢
  by_cases hminus : stored.headD 0#8 = 45#8
  · simp only [hminus, if_true, true_or] at hcheck ⊢
    change checkDigits 1 (stored.drop 1) = some last at hcheck
    simp only [hcheck, if_neg hcount, Int.toNat_natCast, Nat.ofNat_lt_cast, heleven]
    rfl
  · by_cases hplus : stored.headD 0#8 = 43#8
    · have hne : (43#8 : Byte) ≠ 45#8 := by decide
      simp only [hplus, hne, if_true, if_false, or_true] at hcheck ⊢
      change checkDigits 1 (stored.drop 1) = some last at hcheck
      simp only [hcheck, if_neg hcount, Int.toNat_natCast, Nat.ofNat_lt_cast, heleven]
      rfl
    · simp only [hminus, hplus, if_false, or_self] at hcheck ⊢
      change checkDigits 0 (stored.drop 0) = some last at hcheck
      simp only [hcheck, if_neg hcount, Int.toNat_natCast, Nat.ofNat_lt_cast, hten]
      rfl

namespace IntLine

variable (l : IntLine)

theorem signOf_chars : signOf l.chars = l.sign := by
  rw [l.chars_eq]
  cases hsign : l.sign with
  | none =>
      obtain ⟨hminus, hplus⟩ := l.head_body
      exact (if_neg hminus).trans (if_neg hplus)
  | plus => rfl
  | minus => rfl

theorem strcmpPos_limit (hlength : l.digits.length = 10) :
    strcmpPos l.chars l.sign.limitChars = true ↔
      l.sign.limit < natValue l.digits ∨
        natValue l.digits = l.sign.limit ∧ l.fraction ≠ none := by
  have hrest : fractionChars l.fraction ≠ [] ↔ l.fraction ≠ none := by
    cases l.fraction <;> simp [fractionChars]
  have hlimit : ∃ limit : List Byte, l.sign.limitChars = l.sign.chars ++ limit ∧
      limit.length = 10 ∧ (∀ c ∈ limit, IsDigit c) ∧ natValue limit = l.sign.limit := by
    cases l.sign with
    | none =>
        exact ⟨Nachos.chars "2147483647", by decide, rfl, isDigit_of_all (by decide), by decide⟩
    | plus =>
        exact ⟨Nachos.chars "2147483647", by decide, rfl, isDigit_of_all (by decide), by decide⟩
    | minus =>
        exact ⟨Nachos.chars "2147483648", by decide, rfl, isDigit_of_all (by decide), by decide⟩
  obtain ⟨limit, hchars, hten, hdigits, hvalue⟩ := hlimit
  rw [l.chars_eq, hchars, strcmpPos_append_left, body,
    strcmpPos_iff _ (hlength.trans hten.symm) l.isDigit hdigits, hvalue, hrest]

/-- A text of at most ten digits is refused exactly when it is too large, or the largest with
a fraction. -/
theorem limit_iff (hten : l.digits.length ≤ 10) :
    (l.digits.length = 10 ∧ strcmpPos l.chars l.sign.limitChars = true) ↔
      l.sign.limit < natValue l.digits ∨
        natValue l.digits = l.sign.limit ∧ l.fraction ≠ none := by
  constructor
  · rintro ⟨hlength, hcompare⟩
    exact (l.strcmpPos_limit hlength).mp hcompare
  · intro hlarge
    have hlength : l.digits.length = 10 := by
      by_contra hshort
      -- nine digits denote less than any limit
      have hlt := natValue_lt l.isDigit
      have hpow : 10 ^ l.digits.length ≤ 10 ^ 9 := Nat.pow_le_pow_right (by decide) (by omega)
      have hlimit : 2147483647 ≤ l.sign.limit := by
        cases l.sign <;> decide
      omega
    exact ⟨hlength, (l.strcmpPos_limit hlength).mpr hlarge⟩

/-- What `SC_ReadInt` makes of a line of its form. -/
theorem parseInt_chars :
    parseInt l.chars.length l.chars =
      if 10 < l.digits.length ∨ l.digits.length = 10 ∧
        strcmpPos l.chars l.sign.limitChars = true then none
      else some (BitVec.ofInt 32 l.value) := by
  have hbody : l.chars.drop l.sign.chars.length = l.body := by
    rw [l.chars_eq, List.drop_left]
  have hcheck : checkDigits (signOf l.chars).chars.length
      (l.chars.drop (signOf l.chars).chars.length) =
        some (l.sign.chars.length + l.digits.length) := by
    rw [l.signOf_chars, hbody]
    exact checkDigits_append l.isDigit l.fraction _
  have hdigits : (l.chars.take (l.sign.chars.length + l.digits.length)).drop
      l.sign.chars.length = l.digits := by
    rw [l.drop_chars]
    exact List.take_left
  rw [parseInt_of_check l.takeWhile_chars hcheck, l.signOf_chars, hdigits,
    parseDigits_eq l.isDigit]
  have hnumber : (if l.sign = .minus then BitVec.ofNat 32 (natValue l.digits) * -1#32
      else BitVec.ofNat 32 (natValue l.digits)) = BitVec.ofInt 32 l.value := by
    unfold value
    cases l.sign with
    | none => rfl
    | plus => rfl
    | minus =>
        dsimp only
        rw [if_pos rfl, BitVec.mul_neg, BitVec.mul_one, BitVec.ofInt_neg, BitVec.ofInt_natCast]
  simp only [hnumber, Nat.add_lt_add_iff_left, Nat.add_left_cancel_iff]

end IntLine

/-- The lines that pass the check of the characters are those of the form. -/
theorem exists_of_parseInt {stored : List Byte} {number : Word}
    (h : parseInt stored.length stored = some number) : ∃ l : IntLine, l.chars = stored := by
  have hcheck : ∃ last, checkDigits (if stored.headD 0#8 = 45#8 ∨ stored.headD 0#8 = 43#8
      then 1 else 0) (stored.drop (if stored.headD 0#8 = 45#8 ∨ stored.headD 0#8 = 43#8
        then 1 else 0)) = some last := by
    unfold parseInt at h
    rw [Int.toNat_natCast, List.take_length] at h
    dsimp only at h
    split at h
    · cases h
    · rename_i last hlast
      exact ⟨last, hlast⟩
  obtain ⟨last, hcheck⟩ := hcheck
  obtain ⟨digits, fraction, hbody, hdigits⟩ := exists_of_checkDigits hcheck
  have hsplit (sign : Sign) (hsign : stored = sign.chars ++ (digits ++ fractionChars fraction)) :
      ∃ l : IntLine, l.chars = stored :=
    ⟨⟨sign, digits, fraction, hdigits⟩, (IntLine.chars_eq _).trans hsign.symm⟩
  cases stored with
  | nil => exact hsplit .none hbody
  | cons c rest =>
      rw [List.headD_cons] at hbody
      by_cases hminus : c = 45#8
      · rw [if_pos (.inl hminus)] at hbody
        exact hsplit .minus (by rw [hminus, ← hbody]; rfl)
      · by_cases hplus : c = 43#8
        · rw [if_pos (.inr hplus)] at hbody
          exact hsplit .plus (by rw [hplus, ← hbody]; rfl)
        · rw [if_neg (not_or.mpr ⟨hminus, hplus⟩)] at hbody
          exact hsplit .none hbody

/-! ## The system call -/

section SystemCall

variable (env : Env) (w : World)

/-- `SC_ReadInt` takes none of its rejecting branches and puts the number into r2. -/
def World.ReadsInt (n : ℤ) : Prop :=
  ∃ count stored console number w',
    w.console.read env.garbage 255 = some (count, stored, console) ∧
      parseInt count stored = some number ∧
        exceptionHandler env .syscallException w = .ok ((), w') ∧
          (w'.machine.readRegister 2).toInt = n

variable {env w} {count : ℤ} {stored : List Byte} {console : SynchConsole} {number : Word}

/-- An accepted line puts its number into r2. -/
theorem exceptionHandler_readInt (hcall : w.Calls .readInt)
    (hread : w.console.read env.garbage 255 = some (count, stored, console))
    (hnumber : parseInt count stored = some number) :
    ∃ w', exceptionHandler env .syscallException w = .ok ((), w') ∧
      w'.machine.readRegister 2 = number := by
  have hcase : syscallCase env (some .readInt) w =
      .ok (.ret, ⟨(w.machine.writeRegister 2 number).increasePC, console⟩) := by
    refine bind_eq_ok.mpr ⟨(count, stored), _, consoleRead_eq hread, ?_⟩
    dsimp only
    rw [hnumber]
    exact bind_eq_ok.mpr ⟨(), _, writeRegister_eq _ 2 number,
      bind_eq_ok.mpr ⟨(), _, increasePC_eq _, rfl⟩⟩
  refine ⟨_, exceptionHandler_of_ret hcall hcase, ?_⟩
  rw [Machine.readRegister_increasePC _ (by decide) (by decide) (by decide)]
  exact Function.update_self 2 number w.machine.registers

/-- A count that is not negative is the length of the line. -/
theorem SynchConsole.count_eq {c : SynchConsole} {ch : Byte} {numBytes : ℤ}
    (hread : c.read ch numBytes = some (count, stored, console)) (hcount : 0 ≤ count) :
    count = stored.length := by
  obtain ⟨line, -, heq⟩ := Option.map_eq_some_iff.mp hread
  cases heq
  split at hcount
  · exact absurd hcount (by decide)
  · rename_i hlast
    exact if_neg hlast

namespace IntLine

variable (l : IntLine)

/-- The line is refused when it is not short. -/
theorem refused_iff (hrange : l.InRange) :
    (10 < l.digits.length ∨ l.digits.length = 10 ∧
      strcmpPos l.chars l.sign.limitChars = true) ↔ ¬ l.Short := by
  have hle := l.inRange_iff.mp hrange
  unfold Short
  by_cases hten : l.digits.length ≤ 10
  · have hlimit := l.limit_iff hten
    constructor
    · rintro (hlong | hlarge) hshort
      · omega
      · rcases hlimit.mp hlarge with hlt | ⟨heq, hfraction⟩
        · omega
        · exact hfraction (hshort.2 heq)
    · intro hshort
      refine .inr (hlimit.mpr (.inr ?_))
      by_contra hnone
      exact hshort ⟨hten, fun heq => by_contra fun hfraction => hnone ⟨heq, hfraction⟩⟩
  · exact ⟨fun _ hshort => hten hshort.1, fun _ => .inl (by omega)⟩

theorem toInt_value (hrange : l.InRange) : (BitVec.ofInt 32 l.value).toInt = l.value :=
  BitVec.toInt_ofInt_eq_self (by decide) hrange.1 (Int.lt_of_le_sub_one hrange.2)

theorem parseInt_of_short (hrange : l.InRange) (hshort : l.Short) :
    parseInt l.chars.length l.chars = some (BitVec.ofInt 32 l.value) := by
  rw [l.parseInt_chars, if_neg]
  exact fun hrefused => (l.refused_iff hrange).mp hrefused hshort

/-- An accepted line denotes an `int`, and this is the number. -/
theorem inRange_of_parseInt (h : parseInt l.chars.length l.chars = some number) :
    l.InRange ∧ number = BitVec.ofInt 32 l.value := by
  rw [l.parseInt_chars] at h
  split at h
  · cases h
  · rename_i haccepted
    refine ⟨l.inRange_iff.mpr ?_, (Option.some.inj h).symm⟩
    by_contra hlarge
    have hten : l.digits.length ≤ 10 := by
      by_contra hlong
      exact haccepted (.inl (Nat.lt_of_not_le hlong))
    exact haccepted (.inr ((l.limit_iff hten).mpr (.inl (Nat.lt_of_not_le hlarge))))

theorem read_chars (hlength : l.chars.length ≤ 254) {rest : List Byte}
    (hinput : w.console.input = l.chars ++ SynchConsole.newline :: rest) :
    w.console.read env.garbage 255 =
      some ((l.chars.length : ℤ), l.chars, { w.console with input := rest }) :=
  SynchConsole.read_line hinput
    (fun c hc hend => absurd (l.bounds_of_mem c hc).1 (by rcases hend with rfl | rfl <;> decide))
    (fun c hc heof => absurd (l.bounds_of_mem c hc).2 (by rw [heof]; decide))
    (Nat.lt_succ_of_le hlength) env.garbage

/-- A short line is read. -/
theorem readsInt_of_short (hcall : w.Calls .readInt) (hlength : l.chars.length ≤ 254)
    {rest : List Byte} (hinput : w.console.input = l.chars ++ SynchConsole.newline :: rest)
    (hrange : l.InRange) (hshort : l.Short) : w.ReadsInt env l.value := by
  have hread : w.console.read env.garbage 255 = _ := l.read_chars hlength hinput
  have hparse := l.parseInt_of_short hrange hshort
  obtain ⟨w', hhandler, hr2⟩ := exceptionHandler_readInt hcall hread hparse
  exact ⟨_, _, _, _, w', hread, hparse, hhandler, by rw [hr2, l.toInt_value hrange]⟩

theorem short_of_readsInt (hlength : l.chars.length ≤ 254)
    {rest : List Byte} (hinput : w.console.input = l.chars ++ SynchConsole.newline :: rest)
    (hrange : l.InRange) {n : ℤ} (hreads : w.ReadsInt env n) : l.Short := by
  obtain ⟨count, stored, console, number, w', hread, hparse, -, -⟩ := hreads
  rw [l.read_chars hlength hinput] at hread
  cases hread
  by_contra hlong
  rw [l.parseInt_chars, if_pos ((l.refused_iff hrange).mpr hlong)] at hparse
  cases hparse

end IntLine

end SystemCall

/-- A call of `ReadInt` with the given input. -/
def readIntWorld (input : List Byte) : World where
  machine :=
    { registers := fun i => if i = 2 then 11#32 else 0#32
      mainMemory := fun _ => 0#8
      tlb := none
      pageTable := some [] }
  console := ⟨input, []⟩

/-- `SC_ReadInt` never returns a wrong number. -/
theorem readInt_exact {env : Env} {w : World} (hcall : w.Calls .readInt) {count : ℤ}
    {stored : List Byte} {console : SynchConsole}
    (hread : w.console.read env.garbage 255 = some (count, stored, console))
    (hcount : 0 ≤ count) {number : Word} (haccepted : parseInt count stored = some number) :
    ∃ l : IntLine, l.chars = stored ∧ l.InRange ∧
      ∃ w', exceptionHandler env .syscallException w = .ok ((), w') ∧
        (w'.machine.readRegister 2).toInt = l.value := by
  obtain ⟨w', hhandler, hr2⟩ := exceptionHandler_readInt hcall hread haccepted
  rw [SynchConsole.count_eq hread hcount] at haccepted
  obtain ⟨l, rfl⟩ := exists_of_parseInt haccepted
  obtain ⟨hrange, hnumber⟩ := l.inRange_of_parseInt haccepted
  refine ⟨l, rfl, hrange, w', hhandler, ?_⟩
  rw [hr2, hnumber, l.toInt_value hrange]

theorem readInt_exact_smallest :
    ∃ l : IntLine, l.chars = chars "-2147483648" ∧ l.InRange ∧
      ∃ w', exceptionHandler grantingEnv .syscallException
          (readIntWorld (chars "-2147483648\n")) = .ok ((), w') ∧
        (w'.machine.readRegister 2).toInt = l.value :=
  have hread : (readIntWorld (chars "-2147483648\n")).console.read grantingEnv.garbage 255 =
      some (11, chars "-2147483648", ⟨[], []⟩) := by decide +kernel
  have haccepted : parseInt 11 (chars "-2147483648") = some 2147483648#32 := by decide +kernel
  readInt_exact (by decide) hread (by decide) haccepted

/-- `SC_ReadInt` reads an integer line exactly when it is short: leading zeros make it too
long, and the limits are refused with a fraction. -/
theorem readInt_accepts_iff {env : Env} {w : World} (hcall : w.Calls .readInt) (l : IntLine)
    (hlength : l.chars.length ≤ 254) (hrange : l.InRange)
    {rest : List Byte} (hinput : w.console.input = l.chars ++ SynchConsole.newline :: rest) :
    w.ReadsInt env l.value ↔ l.Short :=
  ⟨l.short_of_readsInt hlength hinput hrange,
    l.readsInt_of_short hcall hlength hinput hrange⟩

theorem readInt_accepts_fraction :
    (readIntWorld (chars "+0.00\n")).ReadsInt grantingEnv 0 :=
  have hinput : (readIntWorld (chars "+0.00\n")).console.input =
      chars "+0.00" ++ SynchConsole.newline :: [] := by decide
  (readInt_accepts_iff (by decide) ⟨.plus, chars "0", some 2, isDigit_of_all (by decide)⟩
    (by decide) ⟨by decide, by decide⟩ hinput).mpr ⟨by decide, by decide⟩

/-- `2147483647.0` is refused, and so is `00000000001`. -/
theorem readInt_rejects_valid :
    (∃ l : IntLine, l.chars = chars "2147483647.0" ∧ l.InRange ∧
      ¬ (readIntWorld (l.chars ++ [SynchConsole.newline])).ReadsInt grantingEnv l.value) ∧
    ∃ l : IntLine, l.chars = chars "00000000001" ∧ l.InRange ∧
      ¬ (readIntWorld (l.chars ++ [SynchConsole.newline])).ReadsInt grantingEnv l.value := by
  constructor
  · let l : IntLine := ⟨.none, chars "2147483647", some 1, isDigit_of_all (by decide)⟩
    have hrange : l.InRange := ⟨by decide, by decide⟩
    refine ⟨l, by decide, hrange, fun hreads => ?_⟩
    have hinput : (readIntWorld (l.chars ++ [SynchConsole.newline])).console.input =
        l.chars ++ SynchConsole.newline :: [] := rfl
    have hshort := l.short_of_readsInt (by decide) hinput hrange hreads
    exact Option.some_ne_none 1 (hshort.2 (by decide))
  · let l : IntLine := ⟨.none, chars "00000000001", none, isDigit_of_all (by decide)⟩
    have hrange : l.InRange := ⟨by decide, by decide⟩
    refine ⟨l, by decide, hrange, fun hreads => ?_⟩
    have hinput : (readIntWorld (l.chars ++ [SynchConsole.newline])).console.input =
        l.chars ++ SynchConsole.newline :: [] := rfl
    have hshort := l.short_of_readsInt (by decide) hinput hrange hreads
    exact absurd hshort.1 (by decide)

end Nachos
