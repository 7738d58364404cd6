import Nachos.Verification.Exception.Strings

/-! # Reading strings

The length that the user gives goes unchecked into the allocation and into `Read`. A line
ended by control-A gives the count -1, and then `SC_ReadString` copies nothing. -/

namespace Nachos

open CStrings Machine SynchConsole Tracking

/-! ## What is typed -/

/-- The characters before the first newline or control-A. -/
def typedLine (input : List Byte) : List Byte :=
  input.takeWhile fun c => ¬ EndsLine c

/-- The first characters of the line, as many as the length allows, up to a typed NUL. -/
def typedString (length : ℤ) (input : List Byte) : List Byte :=
  ((typedLine input).take length.toNat).takeWhile (· ≠ 0#8)

/-- The input ends before the buffer is full or the line has ended. -/
def Waits (length : ℤ) (input : List Byte) : Prop :=
  (∀ c ∈ input, ¬ EndsLine c) ∧ (fetched input).length < length.toNat

/-- The last character of the call is control-A; a call that fetches none has the value of
its uninitialised variable. -/
def EndsWithControlA (ch : Byte) (length : ℤ) (input : List Byte) : Prop :=
  length ≤ 0 ∧ ch = controlA ∨
    ∃ line rest, input = line ++ controlA :: rest ∧ (∀ c ∈ line, ¬ EndsLine c) ∧
      (fetched line).length < length.toNat

section Read

variable {c : SynchConsole} {ch : Byte} {length : ℤ}

theorem not_endsLine_of_mem {input : List Byte} : ∀ c ∈ typedLine input, ¬ EndsLine c := by
  intro c hc
  simpa using List.mem_takeWhile_imp hc

/-- The input behind the line is empty or starts with the end of the line. -/
theorem exists_rest (input : List Byte) :
    input = typedLine input ∨ ∃ last rest, EndsLine last ∧
      input = typedLine input ++ last :: rest := by
  have hsplit : typedLine input ++ input.dropWhile (fun c => ¬ EndsLine c) = input :=
    List.takeWhile_append_dropWhile
  cases hdrop : input.dropWhile (fun c => ¬ EndsLine c) with
  | nil =>
      rw [hdrop, List.append_nil] at hsplit
      exact .inl hsplit.symm
  | cons last rest =>
      have hfirst := List.head?_dropWhile_not (fun c : Byte => decide (¬ EndsLine c)) input
      rw [hdrop] at hfirst hsplit
      refine .inr ⟨last, rest, ?_, hsplit.symm⟩
      simpa using hfirst

theorem read_of_waits (h : Waits length c.input) : c.read ch length = none := by
  unfold SynchConsole.read
  rw [readLoop_waits h.1 h.2]
  rfl

theorem read_of_endsWithControlA (h : EndsWithControlA ch length c.input) :
    ∃ stored console, c.read ch length = some (-1, stored, console) := by
  unfold SynchConsole.read
  rcases h with ⟨hlength, hch⟩ | ⟨line, rest, hinput, hline, hroom⟩
  · rw [Int.toNat_of_nonpos hlength, readLoop_zero]
    exact ⟨_, _, by rw [hch]; rfl⟩
  · rw [hinput, readLoop_ended hline hroom (.inr rfl)]
    exact ⟨_, _, rfl⟩

/-- Otherwise the call returns the number of characters in the buffer. -/
theorem read_of_counted (hwaits : ¬ Waits length c.input)
    (hcontrolA : ¬ EndsWithControlA ch length c.input) :
    ∃ console, c.read ch length =
      some ((((fetched (typedLine c.input)).take length.toNat).length : ℤ),
        (fetched (typedLine c.input)).take length.toNat, console) := by
  unfold SynchConsole.read
  by_cases hroom : length.toNat ≤ (fetched (typedLine c.input)).length
  · obtain ⟨rest, hinput⟩ : ∃ rest, c.input = typedLine c.input ++ rest :=
      ⟨_, List.takeWhile_append_dropWhile.symm⟩
    obtain ⟨last, rest', hloop, hlast⟩ := readLoop_full not_endsLine_of_mem hroom ch rest
    rw [← hinput] at hloop
    have hne : last ≠ controlA := by
      intro heq
      split at hlast
      · exact hcontrolA (.inl ⟨by omega, hlast ▸ heq⟩)
      · exact hlast (.inr heq)
    rw [hloop]
    exact ⟨_, by rw [Option.map_some, if_neg hne]⟩
  · have hshort := Nat.lt_of_not_le hroom
    rcases exists_rest c.input with hinput | ⟨last, rest, hlast, hinput⟩
    · exact absurd ⟨hinput ▸ not_endsLine_of_mem, hinput ▸ hshort⟩ hwaits
    · have hloop := readLoop_ended not_endsLine_of_mem hshort hlast ch rest
      rw [← hinput] at hloop
      have hne : last ≠ controlA := by
        rintro rfl
        exact hcontrolA (.inr ⟨_, rest, hinput, not_endsLine_of_mem, hshort⟩)
      rw [hloop, List.take_of_length_le hshort.le]
      exact ⟨_, by rw [Option.map_some, if_neg hne]⟩

end Read

/-! ## The characters that are lost -/

/-- The string that `SC_ReadString` finds in its buffer. -/
def fetchedString (length : ℤ) (input : List Byte) : List Byte :=
  ((fetched (typedLine input)).take length.toNat).takeWhile (· ≠ 0#8)

theorem length_takeWhile_take_succ (p : Byte → Bool) (line : List Byte) (n : ℕ) :
    ((line.take (n + 1)).takeWhile p).length ≤ ((line.take n).takeWhile p).length + 1 := by
  induction line generalizing n with
  | nil => simp
  | cons c line ih =>
      cases n with
      | zero =>
          cases hp : p c <;> simp [hp]
      | succ n =>
          cases hp : p c with
          | false => simp [hp]
          | true => simpa [hp] using ih n

/-- No more characters are fetched than are typed. -/
theorem length_fetchedString_le (line : List Byte) (n : ℕ) :
    (((fetched line).take n).takeWhile (· ≠ 0#8)).length ≤
      ((line.take n).takeWhile (· ≠ 0#8)).length := by
  induction line generalizing n with
  | nil => simp [fetched]
  | cons c line ih =>
      cases n with
      | zero => simp
      | succ n =>
          by_cases heof : c = eof
          · have hskip : fetched (c :: line) = fetched line := by simp [fetched, heof]
            have hne : c ≠ 0#8 := by
              rintro rfl
              revert heof
              decide
            rw [hskip, List.take_succ_cons, List.takeWhile_cons_of_pos (by simpa using hne),
              List.length_cons]
            exact (length_takeWhile_take_succ _ (fetched line) n).trans (Nat.succ_le_succ (ih n))
          · have hkeep : fetched (c :: line) = c :: fetched line := by simp [fetched, heof]
            rw [hkeep, List.take_succ_cons, List.take_succ_cons]
            by_cases hzero : c = 0#8
            · simp [hzero]
            · rw [List.takeWhile_cons_of_pos (by simpa using hzero),
                List.takeWhile_cons_of_pos (by simpa using hzero), List.length_cons,
                List.length_cons]
              exact Nat.succ_le_succ (ih n)

/-- What is fetched is what is typed when no byte `0xff` is among it. -/
theorem takeWhile_fetched_eq {line : List Byte} {n : ℕ}
    (h : ∀ c ∈ (line.take n).takeWhile (· ≠ 0#8), c ≠ eof) :
    ((fetched line).take n).takeWhile (· ≠ 0#8) = (line.take n).takeWhile (· ≠ 0#8) := by
  induction line generalizing n with
  | nil => rfl
  | cons c line ih =>
      cases n with
      | zero => rfl
      | succ n =>
          rw [List.take_succ_cons] at h ⊢
          by_cases hzero : c = 0#8
          · have hkeep : fetched (c :: line) = c :: fetched line := by
              simp [fetched, hzero, eof]
            rw [hkeep, List.take_succ_cons, List.takeWhile_cons_of_neg (by simpa using hzero),
              List.takeWhile_cons_of_neg (by simpa using hzero)]
          · rw [List.takeWhile_cons_of_pos (by simpa using hzero)] at h ⊢
            have heof : c ≠ eof := h c List.mem_cons_self
            have hkeep : fetched (c :: line) = c :: fetched line := by simp [fetched, heof]
            rw [hkeep, List.take_succ_cons, List.takeWhile_cons_of_pos (by simpa using hzero),
              ih fun d hd => h d (List.mem_cons_of_mem c hd)]

/-- A buffer that was cleared is a string and a NUL, and whatever is behind it. -/
theorem exists_buffer_eq (stored : List Byte) {room : ℕ} (hroom : 0 < room) :
    ∃ rest, stored ++ List.replicate room 0#8 = stored.takeWhile (· ≠ 0#8) ++ 0#8 :: rest := by
  have hsplit : stored.takeWhile (· ≠ 0#8) ++ stored.dropWhile (· ≠ 0#8) = stored :=
    List.takeWhile_append_dropWhile
  cases hdrop : stored.dropWhile (· ≠ 0#8) with
  | nil =>
      obtain ⟨k, rfl⟩ : ∃ k, room = k + 1 := ⟨room - 1, by omega⟩
      rw [hdrop, List.append_nil] at hsplit
      exact ⟨List.replicate k 0#8, by rw [hsplit]; rfl⟩
  | cons d rest =>
      have hfirst := List.head?_dropWhile_not (fun c : Byte => decide (c ≠ 0#8)) stored
      rw [hdrop] at hfirst hsplit
      have hd : d = 0#8 := by simpa using hfirst
      refine ⟨rest ++ List.replicate room 0#8, ?_⟩
      conv_lhs => rw [← hsplit]
      rw [hd, List.append_assoc, List.cons_append]

theorem fetchedString_eq_iff (length : ℤ) (input : List Byte) :
    fetchedString length input = typedString length input ↔
      ∀ c ∈ typedString length input, c ≠ eof := by
  constructor
  · intro heq c hc
    rw [← heq] at hc
    have hmem := List.mem_of_mem_take (List.takeWhile_subset _ hc)
    simpa using (List.mem_filter.mp hmem).2
  · exact takeWhile_fetched_eq

/-! ## The system call -/

section SystemCall

variable (env : Env) (w : World)

/-- The length in r5. -/
def World.length : ℤ :=
  (w.machine.readRegister 5).toInt

/-- `SC_ReadString` waits for input, or it has stayed inside the buffer and inside the user's
memory and left the string there. -/
def World.ReadsStringSafely : Prop :=
  exceptionHandler env .syscallException w = .error .blocked ∨
    ∃ w', exceptionHandler env .syscallException w = .ok ((), w') ∧
      (∀ count stored console, w.console.read env.garbage w.length = some (count, stored, console) →
        (stored.length : ℤ) ≤ w.length + 1) ∧
      (∀ p, (∀ v ∈ addresses next (w.length.toNat + 1) (w.machine.readRegister 4),
          w.machine.address true v ≠ some p) →
        w'.machine.mainMemory p = w.machine.mainMemory p) ∧
      Terminated next 0#8 w'.machine.byte (w.machine.readRegister 4)
        (typedString w.length w.console.input)

/-- The buffer can be allocated, and the call waits, or its string comes whole. After a line
ended by control-A the string must have been there before. -/
def World.StringComes : Prop :=
  -1 ≤ w.length ∧ w.length < intMax ∧
    (Waits w.length w.console.input ∨
      EndsWithControlA env.garbage w.length w.console.input ∧
        Terminated next 0#8 w.machine.byte (w.machine.readRegister 4)
          (typedString w.length w.console.input) ∨
      ¬ EndsWithControlA env.garbage w.length w.console.input ∧ 0 ≤ w.length ∧
        ∀ c ∈ typedString w.length w.console.input, c ≠ eof)

variable {env w}

/-- `length + 1` as an `int`. -/
theorem size_eq (hlow : -1 ≤ w.length) (hhigh : w.length < intMax) :
    (w.machine.readRegister 5 + 1#32).toInt = w.length + 1 := by
  unfold World.length intMax at *
  rw [BitVec.toInt_add]
  have hone : (1#32).toInt = 1 := by decide
  rw [hone, Int.bmod_eq_of_le] <;> omega

/-- Without a buffer the call does not come back. -/
theorem exceptionHandler_of_size (hcall : w.Calls .readString)
    (h : ¬ (-1 ≤ w.length ∧ w.length < intMax)) :
    exceptionHandler env .syscallException w = .error .aborted := by
  apply exceptionHandler_of_error hcall
  have hsize : (w.machine.readRegister 5 + 1#32).toInt < 0 := by
    have hone : (1#32).toInt = 1 := by decide
    have hlow : -2 ^ 31 ≤ (w.machine.readRegister 5).toInt := BitVec.le_toInt _
    have hhigh : (w.machine.readRegister 5).toInt < 2 ^ 31 := BitVec.toInt_lt
    unfold World.length intMax at h
    rw [BitVec.toInt_add, hone]
    by_cases hmax : (w.machine.readRegister 5).toInt = 2 ^ 31 - 1
    · rw [hmax]
      decide
    · rw [Int.bmod_eq_of_le] <;> omega
  show (if (w.machine.readRegister 5 + 1#32).toInt < 0 then _ else _ : KernelM Flow) w = _
  rw [if_pos hsize]
  rfl

/-- What `Read` puts into the buffer stays inside it. -/
theorem stored_le (hlow : -1 ≤ w.length) {count : ℤ} {stored : List Byte} {console : SynchConsole}
    (hread : w.console.read env.garbage w.length = some (count, stored, console)) :
    (stored.length : ℤ) ≤ w.length + 1 := by
  obtain ⟨line, hline, heq⟩ := Option.map_eq_some_iff.mp hread
  have hle := length_readLoop hline
  cases heq
  omega

section Sized

variable (hlow : -1 ≤ w.length) (hhigh : w.length < intMax)
  (hnew : ∀ size, env.newChar size = true)

include hlow hhigh hnew

/-- The case with a buffer. -/
theorem scReadString_eq :
    scReadString env w =
      (consoleRead env w.length >>= fun (numCharRead, stored) =>
        system2User (w.machine.readRegister 4) (numCharRead + 1)
          (stored ++ List.replicate ((w.length + 1).toNat - stored.length) 0#8) >>= fun _ =>
        increasePC >>= fun _ =>
        return Flow.ret) w := by
  have hsize := size_eq hlow hhigh
  have hpositive : ¬ w.length + 1 < 0 := by omega
  show (if (w.machine.readRegister 5 + 1#32).toInt < 0 then _
    else if env.newChar (w.machine.readRegister 5 + 1#32).toInt.toNat then _
    else _ : KernelM Flow) w = _
  rw [hsize, if_neg hpositive, if_pos (hnew _)]
  rfl

variable (hcall : w.Calls .readString)

include hcall

theorem exceptionHandler_of_waits (hwaits : Waits w.length w.console.input) :
    exceptionHandler env .syscallException w = .error .blocked := by
  apply exceptionHandler_of_error hcall
  show scReadString env w = _
  rw [scReadString_eq hlow hhigh hnew]
  have hread : consoleRead env w.length w = .error .blocked := by
    rw [consoleRead, get_bind]
    dsimp only
    rw [read_of_waits hwaits]
    rfl
  show (consoleRead env w.length w).bind _ = _
  rw [hread]
  rfl

/-- After control-A nothing is copied. -/
theorem exceptionHandler_of_controlA
    (hcontrolA : EndsWithControlA env.garbage w.length w.console.input) :
    ∃ w', exceptionHandler env .syscallException w = .ok ((), w') ∧
      w'.machine.mainMemory = w.machine.mainMemory ∧ w'.machine.byte = w.machine.byte := by
  obtain ⟨stored, console, hread⟩ := read_of_endsWithControlA hcontrolA
  refine ⟨⟨w.machine.increasePC, console⟩, exceptionHandler_of_ret hcall ?_, rfl,
    byte_congr rfl rfl⟩
  show scReadString env w = _
  rw [scReadString_eq hlow hhigh hnew]
  exact bind_eq_ok.mpr ⟨_, _, consoleRead_eq hread, rfl⟩

/-- A buffer of no bytes has none for the NUL. -/
theorem exceptionHandler_of_no_room (hlength : w.length = -1)
    (hcontrolA : ¬ EndsWithControlA env.garbage w.length w.console.input) :
    exceptionHandler env .syscallException w = .error .undefined := by
  have hwaits : ¬ Waits w.length w.console.input := by
    rintro ⟨-, hroom⟩
    rw [hlength] at hroom
    exact Nat.not_lt_zero _ hroom
  obtain ⟨console, hread⟩ := read_of_counted hwaits hcontrolA
  apply exceptionHandler_of_error hcall
  show scReadString env w = _
  rw [scReadString_eq hlow hhigh hnew]
  rw [hlength] at hread ⊢
  show (consoleRead env (-1) w).bind _ = _
  rw [consoleRead_eq hread]
  rfl

/-- The string is copied with its NUL. -/
theorem exceptionHandler_of_counted (hlength : 0 ≤ w.length)
    (hwaits : ¬ Waits w.length w.console.input)
    (hcontrolA : ¬ EndsWithControlA env.garbage w.length w.console.input)
    (hregion : w.machine.Region (w.machine.readRegister 4)
      ((fetchedString w.length w.console.input).length + 1)) :
    ∃ w', exceptionHandler env .syscallException w = .ok ((), w') ∧
      Terminated next 0#8 w'.machine.byte (w.machine.readRegister 4)
        (fetchedString w.length w.console.input) ∧
      ∀ p, (∀ v ∈ addresses next ((fetchedString w.length w.console.input).length + 1)
          (w.machine.readRegister 4), w.machine.address true v ≠ some p) →
        w'.machine.mainMemory p = w.machine.mainMemory p := by
  obtain ⟨console, hread⟩ := read_of_counted hwaits hcontrolA
  have hne : ∀ c ∈ fetchedString w.length w.console.input, c ≠ 0#8 := fun c hc => by
    simpa using List.mem_takeWhile_imp hc
  have hroom : ((fetched (typedLine w.console.input)).take w.length.toNat).length ≤
      w.length.toNat := List.length_take_le _ _
  have hshort : (fetchedString w.length w.console.input).length ≤
      ((fetched (typedLine w.console.input)).take w.length.toNat).length :=
    (List.takeWhile_prefix _).length_le
  have hspare : 0 < (w.length + 1).toNat -
      ((fetched (typedLine w.console.input)).take w.length.toNat).length := by omega
  obtain ⟨rest, hbuffer⟩ := exists_buffer_eq
    ((fetched (typedLine w.console.input)).take w.length.toNat) hspare
  have hregion' : { w with console := console }.machine.Region (w.machine.readRegister 4)
      ((fetchedString w.length w.console.input).length + 1) := hregion
  obtain ⟨w₁, hloop, hwrote⟩ : ∃ w₁, system2UserLoop _ _
      (fetchedString w.length w.console.input ++ 0#8 :: rest) { w with console := console } =
        .ok (_, w₁) ∧ _ :=
    system2UserLoop_eq hne (Nat.lt_succ_of_le hshort) hregion'
  have hcase : syscallCase env (some .readString) w =
      .ok (.ret, { w₁ with machine := w₁.machine.increasePC }) := by
    show scReadString env w = _
    rw [scReadString_eq hlow hhigh hnew]
    refine bind_eq_ok.mpr ⟨_, _, consoleRead_eq hread, bind_eq_ok.mpr
      ⟨((fetchedString w.length w.console.input).length + 1 : ℕ), w₁, ?_, rfl⟩⟩
    rw [hbuffer]
    have hlen : ¬ (((fetched (typedLine w.console.input)).take w.length.toNat).length + 1 : ℤ) <
        0 := by omega
    unfold system2User
    rw [if_neg hlen]
    exact bind_eq_ok.mpr ⟨_, w₁, hloop, rfl⟩
  refine ⟨_, exceptionHandler_of_ret hcall hcase, ⟨hne, ?_⟩, fun p hp => ?_⟩
  · have hbyte : w₁.machine.increasePC.byte = w₁.machine.byte := byte_congr rfl rfl
    show Holds next w₁.machine.increasePC.byte _ _
    rw [hbyte]
    exact hwrote.holds
  · have hkept := hwrote.kept p
    rw [List.length_append, List.length_singleton] at hkept
    exact hkept hp

/-- With a buffer the call is safe exactly when it waits, finds its string already there, or
gets it whole. -/
theorem readsStringSafely_iff_of_buffer (hregion : w.machine.Region (w.machine.readRegister 4)
      ((typedString w.length w.console.input).length + 1)) :
    w.ReadsStringSafely env ↔
      Waits w.length w.console.input ∨
        EndsWithControlA env.garbage w.length w.console.input ∧
          Terminated next 0#8 w.machine.byte (w.machine.readRegister 4)
            (typedString w.length w.console.input) ∨
        ¬ EndsWithControlA env.garbage w.length w.console.input ∧ 0 ≤ w.length ∧
          ∀ c ∈ typedString w.length w.console.input, c ≠ eof := by
  unfold World.ReadsStringSafely
  by_cases hwaits : Waits w.length w.console.input
  · have hblocked := exceptionHandler_of_waits hlow hhigh hnew hcall hwaits
    exact iff_of_true (.inl hblocked) (.inl hwaits)
  by_cases hcontrolA : EndsWithControlA env.garbage w.length w.console.input
  · obtain ⟨w', hhandler, hmemory, hbyte⟩ :=
      exceptionHandler_of_controlA hlow hhigh hnew hcall hcontrolA
    constructor
    · rintro (hblocked | ⟨w₁, hok, -, -, hstring⟩)
      · rw [hhandler] at hblocked
        cases hblocked
      · rw [hhandler] at hok
        cases hok
        rw [hbyte] at hstring
        exact .inr (.inl ⟨hcontrolA, hstring⟩)
    · rintro (hwaits' | ⟨-, hstring⟩ | ⟨hcontrolA', -⟩)
      · exact absurd hwaits' hwaits
      · exact .inr ⟨w', hhandler, fun _ _ _ => stored_le hlow,
          fun p _ => congrFun hmemory p, by rwa [hbyte]⟩
      · exact absurd hcontrolA hcontrolA'
  by_cases hlength : 0 ≤ w.length
  · have hle : (fetchedString w.length w.console.input).length ≤
        (typedString w.length w.console.input).length := length_fetchedString_le _ _
    obtain ⟨w', hhandler, hstring, hkept⟩ := exceptionHandler_of_counted hlow hhigh hnew hcall
      hlength hwaits hcontrolA (hregion.mono (Nat.succ_le_succ hle))
    constructor
    · rintro (hblocked | ⟨w₁, hok, -, -, hstring'⟩)
      · rw [hhandler] at hblocked
        cases hblocked
      · rw [hhandler] at hok
        cases hok
        exact .inr (.inr ⟨hcontrolA, hlength,
          (fetchedString_eq_iff _ _).mp (hstring.eq hstring')⟩)
    · rintro (hwaits' | ⟨hcontrolA', -⟩ | ⟨-, -, hplain⟩)
      · exact absurd hwaits' hwaits
      · exact absurd hcontrolA' hcontrolA
      · refine .inr ⟨w', hhandler, fun _ _ _ => stored_le hlow, fun p hp => ?_,
          (fetchedString_eq_iff _ _).mpr hplain ▸ hstring⟩
        -- the string and its NUL fit into the length that the user gave
        have hfits : (fetchedString w.length w.console.input).length ≤ w.length.toNat :=
          (List.takeWhile_prefix _).length_le.trans (List.length_take_le _ _)
        exact hkept p fun v hv => hp v ((addresses_of_le (Nat.succ_le_succ hfits) _).subset hv)
  · have hundefined := exceptionHandler_of_no_room hlow hhigh hnew hcall (by omega) hcontrolA
    constructor
    · rintro (hblocked | ⟨w', hok, -⟩)
      · rw [hundefined] at hblocked
        cases hblocked
      · rw [hundefined] at hok
        cases hok
    · rintro (hwaits' | ⟨hcontrolA', -⟩ | ⟨-, hlength', -⟩)
      · exact absurd hwaits' hwaits
      · exact absurd hcontrolA' hcontrolA
      · exact absurd hlength' hlength

end Sized

/-- `SC_ReadString` is safe exactly when the buffer can be allocated and the string comes. -/
theorem readString_safe_iff (hcall : w.Calls .readString)
    (hnew : ∀ size, env.newChar size = true)
    (hregion : w.machine.Region (w.machine.readRegister 4)
      ((typedString w.length w.console.input).length + 1)) :
    w.ReadsStringSafely env ↔ w.StringComes env := by
  by_cases hsize : -1 ≤ w.length ∧ w.length < intMax
  · rw [readsStringSafely_iff_of_buffer hsize.1 hsize.2 hnew hcall hregion]
    exact ⟨fun h => ⟨hsize.1, hsize.2, h⟩, fun h => h.2.2⟩
  · refine iff_of_false ?_ fun h => hsize ⟨h.1, h.2.1⟩
    have habort : exceptionHandler env .syscallException w = .error .aborted :=
      exceptionHandler_of_size hcall hsize
    rintro (hblocked | ⟨w', hok, -⟩)
    · rw [habort] at hblocked
      cases hblocked
    · rw [habort] at hok
      cases hok

end SystemCall

theorem readString_safe_two_pages :
    (twoPageWorld 15#32 510#32 3#32 (fun _ => 0#8) (chars "hello\n")).ReadsStringSafely
      grantingEnv := by
  have hregion : (twoPageWorld 15#32 510#32 3#32 (fun _ => 0#8) (chars "hello\n")).machine.Region
      510#32 4 :=
    Mapped.region ⟨rfl, rfl, by decide, by decide⟩ (by decide)
  refine (readString_safe_iff (by decide) (fun _ => rfl) hregion).mpr
    ⟨by decide, by decide, .inr (.inr ⟨?_, by decide, by decide⟩)⟩
  rintro (⟨hlength, -⟩ | ⟨line, rest, hinput, -⟩)
  · exact absurd hlength (by decide)
  · have hmem : controlA ∈ line ++ controlA :: rest :=
      List.mem_append_right line List.mem_cons_self
    rw [← hinput] at hmem
    exact absurd hmem (by decide)

/-- A line ended by control-A leaves the old string, a length of -1 reads a byte that is not in
the buffer, and from -2 on there is no buffer. -/
theorem readString_unsafe :
    ¬ (twoPageWorld 15#32 510#32 5#32 (acrossPages 120#8 121#8 122#8 0#8)
        [97#8, 98#8, controlA]).ReadsStringSafely grantingEnv ∧
      ¬ (twoPageWorld 15#32 510#32 (-1#32) (fun _ => 0#8) []).ReadsStringSafely grantingEnv ∧
      ¬ (twoPageWorld 15#32 510#32 (-2#32) (fun _ => 0#8) []).ReadsStringSafely grantingEnv := by
  refine ⟨?_, ?_, ?_⟩
  · let w := twoPageWorld 15#32 510#32 5#32 (acrossPages 120#8 121#8 122#8 0#8)
      [97#8, 98#8, controlA]
    have hcontrolA : EndsWithControlA grantingEnv.garbage w.length w.console.input :=
      .inr ⟨[97#8, 98#8], [], rfl, by decide, by decide⟩
    obtain ⟨w', hhandler, -, hbyte⟩ := exceptionHandler_of_controlA (by decide) (by decide)
      (fun _ => rfl) (by decide) hcontrolA
    rintro (hblocked | ⟨w₁, hok, -, -, hstring⟩)
    · rw [hhandler] at hblocked
      cases hblocked
    · rw [hhandler] at hok
      cases hok
      rw [hbyte] at hstring
      have hfirst := hstring.holds.1
      revert hfirst
      decide
  · have hcontrolA : ¬ EndsWithControlA 0#8 (-1) [] := by
      rintro (⟨-, hgarbage⟩ | ⟨line, rest, hinput, -⟩)
      · exact absurd hgarbage (by decide)
      · cases line <;> cases hinput
    have hundefined : exceptionHandler grantingEnv .syscallException
        (twoPageWorld 15#32 510#32 (-1#32) (fun _ => 0#8) []) = .error .undefined :=
      exceptionHandler_of_no_room (by decide) (by decide) (fun _ => rfl) (by decide)
        (by decide) hcontrolA
    rintro (hblocked | ⟨w', hok, -⟩)
    · rw [hundefined] at hblocked
      cases hblocked
    · rw [hundefined] at hok
      cases hok
  · have habort : exceptionHandler grantingEnv .syscallException
        (twoPageWorld 15#32 510#32 (-2#32) (fun _ => 0#8) []) = .error .aborted :=
      exceptionHandler_of_size (by decide) (by decide)
    rintro (hblocked | ⟨w', hok, -⟩)
    · rw [habort] at hblocked
      cases hblocked
    · rw [habort] at hok
      cases hok

end Nachos
