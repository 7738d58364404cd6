import Mathlib.Data.List.TakeWhile
import Nachos.Model.Coff
import Nachos.Verification.FileSystem.Layout

/-! # The image in the object file

The converter has one slot for each kind of segment. A second code section overwrites the
first, and the test for contiguous uninitialised data is the wrong way round. -/

namespace Nachos.Coff

open Slices Converter

/-! ## What the output has to be -/

namespace Scnhdr

/-- A non-empty section of code. -/
def IsCode (s : Scnhdr) : Prop :=
  s.s_size ≠ 0#32 ∧ s.isNamed ".text" = true

def IsInitData (s : Scnhdr) : Prop :=
  s.s_size ≠ 0#32 ∧ (s.isNamed ".data" || s.isNamed ".rdata") = true

def IsUninitData (s : Scnhdr) : Prop :=
  s.s_size ≠ 0#32 ∧ (s.isNamed ".bss" || s.isNamed ".sbss") = true

/-- A section whose bytes go to the output. -/
def IsLoaded (s : Scnhdr) : Prop :=
  s.IsCode ∨ s.IsInitData

instance : DecidablePred IsCode := fun _ => inferInstanceAs (Decidable (_ ∧ _))
instance : DecidablePred IsInitData := fun _ => inferInstanceAs (Decidable (_ ∧ _))
instance : DecidablePred IsUninitData := fun _ => inferInstanceAs (Decidable (_ ∧ _))
instance : DecidablePred IsLoaded := fun _ => inferInstanceAs (Decidable (_ ∨ _))

end Scnhdr

open Scnhdr

/-- `size` bytes at a position, if the file has them. -/
def rawBytes (file : List Byte) (position size : Word) : Option (List Byte) :=
  if 0 ≤ position.toInt ∧ 0 ≤ size.toInt ∧ position.toNat + size.toNat ≤ file.length then
    some (slice file position.toNat size.toNat)
  else none

/-- The addresses of a section or a segment. -/
def addresses (virtualAddr size : Word) : Set ℤ :=
  {a | virtualAddr.toInt ≤ a ∧ a < virtualAddr.toInt + size.toInt}

/-- The segment is that of the section, with the same bytes in the two files. -/
structure Loaded (file noff : List Byte) (segment : Segment) (s : Scnhdr) : Prop where
  virtualAddr : segment.virtualAddr = s.s_paddr
  size : segment.size = s.s_size
  bytes : ∃ bytes, rawBytes noff segment.inFileAddr segment.size = some bytes ∧
    rawBytes file s.s_scnptr s.s_size = some bytes

/-- A section that goes on where the other ends. -/
def Follows (s s' : Scnhdr) : Prop :=
  s'.s_paddr = s.s_paddr + s.s_size

/-- What one segment of each kind can stand for. -/
structure Representable (sections : List Scnhdr) : Prop where
  code : (sections.filter IsCode).length ≤ 1
  initData : (sections.filter IsInitData).length ≤ 1
  uninitData : (sections.filter IsUninitData).IsChain Follows

/-- The NOFF file has the memory image of the COFF file. -/
structure Preserves (file noff : List Byte) : Prop where
  representable : Representable (sections file)
  code : ∀ s ∈ sections file, s.IsCode → Loaded file noff (NoffHeader.read noff).code s
  initData : ∀ s ∈ sections file, s.IsInitData →
    Loaded file noff (NoffHeader.read noff).initData s
  uninitData : addresses (NoffHeader.read noff).uninitData.virtualAddr
      (NoffHeader.read noff).uninitData.size =
    {a | ∃ s ∈ sections file, s.IsUninitData ∧ a ∈ addresses s.s_paddr s.s_size}

/-! ## When it is -/

/-- Where in the output the bytes of the next section come. -/
def start (done : List Scnhdr) : ℤ :=
  sizeofNoffHeader + ((done.filter IsLoaded).map fun s => s.s_size.toInt).sum

/-- The inputs that the converter handles. -/
structure Fits (file : List Byte) : Prop where
  code : ((sections file).filter IsCode).length ≤ 1
  uninitData : ((sections file).filter IsUninitData).length ≤ 1
  readable : ∀ s ∈ sections file, s.IsLoaded → 0 ≤ s.s_scnptr.toInt ∧ 0 ≤ s.s_size.toInt
  offsets : ∀ before s after, sections file = before ++ s :: after → s.IsLoaded →
    start before < 2 ^ 31

/-! ## Sections of one kind -/

section Kinds

variable {p : Scnhdr → Prop} [DecidablePred p] {done before after : List Scnhdr} {s s' : Scnhdr}

/-- What stands before the first section of the kind. -/
def beforeFirst (p : Scnhdr → Prop) [DecidablePred p] (done : List Scnhdr) : List Scnhdr :=
  done.takeWhile fun s => ¬ p s

theorem filter_concat_of_pos (hs : p s) : (done ++ [s]).filter p = done.filter p ++ [s] := by
  rw [List.filter_append, List.filter_cons_of_pos (by simpa using hs), List.filter_nil]

theorem filter_concat_of_neg (hs : ¬ p s) : (done ++ [s]).filter p = done.filter p := by
  rw [List.filter_append, List.filter_cons_of_neg (by simpa using hs), List.filter_nil,
    List.append_nil]

theorem beforeFirst_append (hbefore : before.filter p = []) (hs : p s) :
    beforeFirst p (before ++ s :: after) = before := by
  have hnone : ∀ x ∈ before, ¬ p x := by simpa using hbefore
  rw [beforeFirst, List.takeWhile_append_of_pos (by simpa using hnone),
    List.takeWhile_cons_of_neg (by simpa using hs), List.append_nil]

/-- The only section of the kind splits the list at one place. -/
theorem split_of_filter_eq (h : (before ++ s :: after).filter p = [s']) (hs : p s) :
    s = s' ∧ beforeFirst p (before ++ s :: after) = before := by
  rw [List.filter_append, List.filter_cons_of_pos (by simpa using hs),
    List.append_eq_singleton_iff] at h
  rcases h with ⟨hbefore, hrest⟩ | ⟨-, hrest⟩
  · exact ⟨(List.cons.inj hrest).1, beforeFirst_append hbefore hs⟩
  · cases hrest

theorem filter_eq_of_length_le (h : (done.filter p).length ≤ 1) (hmem : s ∈ done) (hs : p s) :
    done.filter p = [s] := by
  have hfilter : s ∈ done.filter p := List.mem_filter.mpr ⟨hmem, by simpa using hs⟩
  obtain ⟨x, hx⟩ := List.length_eq_one_iff.mp
    (Nat.le_antisymm h (List.length_pos_of_mem hfilter))
  rw [hx, List.mem_singleton] at hfilter
  rw [hx, hfilter]

theorem isChain_of_length_le {R : Scnhdr → Scnhdr → Prop} {l : List Scnhdr}
    (h : l.length ≤ 1) : l.IsChain R :=
  match l, h with
  | [], _ => .nil
  | [x], _ => .singleton x

end Kinds

/-- A section has one name. -/
theorem take_of_isNamed {s : Scnhdr} {name name' : String} (h : s.isNamed name = true)
    (h' : s.isNamed name' = true) (hle : name.length ≤ name'.length) :
    (chars name' ++ [0#8]).take (name.length + 1) = chars name ++ [0#8] := by
  have hname : s.s_name.take (name.length + 1) = chars name ++ [0#8] := by
    simpa [isNamed] using h
  have hname' : s.s_name.take (name'.length + 1) = chars name' ++ [0#8] := by
    simpa [isNamed] using h'
  rw [← hname', List.take_take, Nat.min_eq_left (Nat.succ_le_succ hle), hname]

namespace Scnhdr

variable {s : Scnhdr}

theorem IsCode.not_isInitData (h : s.IsCode) : ¬ s.IsInitData := by
  rintro ⟨-, hname⟩
  rw [Bool.or_eq_true] at hname
  rcases hname with hdata | hdata
  · exact absurd (take_of_isNamed h.2 hdata (by decide)) (by decide)
  · exact absurd (take_of_isNamed h.2 hdata (by decide)) (by decide)

theorem IsUninitData.not_isCode (h : s.IsUninitData) : ¬ s.IsCode := by
  rintro ⟨-, htext⟩
  have hname := h.2
  rw [Bool.or_eq_true] at hname
  rcases hname with hbss | hbss
  · exact absurd (take_of_isNamed hbss htext (by decide)) (by decide)
  · exact absurd (take_of_isNamed hbss htext (by decide)) (by decide)

theorem IsUninitData.not_isInitData (h : s.IsUninitData) : ¬ s.IsInitData := by
  rintro ⟨-, hdata⟩
  have hname := h.2
  rw [Bool.or_eq_true] at hname hdata
  rcases hname with hbss | hbss
  · rcases hdata with hdata | hdata
    · exact absurd (take_of_isNamed hbss hdata (by decide)) (by decide)
    · exact absurd (take_of_isNamed hbss hdata (by decide)) (by decide)
  · rcases hdata with hdata | hdata
    · exact absurd (take_of_isNamed hbss hdata (by decide)) (by decide)
    · exact absurd (take_of_isNamed hbss hdata (by decide)) (by decide)

theorem IsUninitData.not_isLoaded (h : s.IsUninitData) : ¬ s.IsLoaded :=
  not_or.mpr ⟨h.not_isCode, h.not_isInitData⟩

end Scnhdr

/-! ## One pass -/

/-- What a pass with a copy does. -/
structure Copied (file : List Byte) (c c' : Converter) (s : Scnhdr) (noffH : NoffHeader) :
    Prop where
  noffH : c'.noffH = noffH
  inNoffFile : c'.inNoffFile = c.inNoffFile + s.s_size
  fdOut : 0 ≤ s.s_scnptr.toInt → 0 ≤ s.s_size.toInt →
    c'.fdOut = c.fdOut ++ slice file s.s_scnptr.toNat s.s_size.toNat ∧
      s.s_scnptr.toNat + s.s_size.toNat ≤ file.length

theorem toNat_of_nonneg {w : Word} (h : 0 ≤ w.toInt) : w.toInt = w.toNat := by
  have hlt := w.isLt
  rw [BitVec.toInt_eq_toNat_cond] at h ⊢
  split <;> rename_i hsign
  · rfl
  · rw [if_neg hsign] at h
    omega

theorem copied_of_copySection {file : List Byte} {c c' : Converter} {s : Scnhdr}
    {noffH : NoffHeader} (hsize : s.s_size ≠ 0#32)
    (h : { c with noffH := noffH }.copySection file s = some c') : Copied file c c' s noffH := by
  obtain ⟨⟨buffer, fdIn⟩, hread, heq⟩ := Option.bind_eq_some_iff.mp h
  cases heq
  refine ⟨rfl, rfl, fun hptr hpos => ?_⟩
  have hseek : lseek c.fdIn s.s_scnptr.toInt = s.s_scnptr.toNat := by
    rw [lseek, if_neg (Int.not_lt.mpr hptr), toNat_of_nonneg hptr, Int.toNat_natCast]
  have hcount : s.s_size.toInt.toNat = s.s_size.toNat := by
    rw [toNat_of_nonneg hpos, Int.toNat_natCast]
  have hne : s.s_size.toNat ≠ 0 := fun hzero => hsize (BitVec.eq_of_toNat_eq hzero)
  rw [hseek, read, readSys, if_neg (Int.not_lt.mpr hpos), hcount] at hread
  dsimp only at hread
  split at hread
  · cases hread
  · rename_i hlength
    cases hread
    refine ⟨rfl, ?_⟩
    rw [not_not, toNat_of_nonneg hpos, length_slice] at hlength
    omega

/-- The passes by the kind of the section. -/
inductive Pass (file : List Byte) (c c' : Converter) (s : Scnhdr) : Prop
  | empty (hcode : ¬ s.IsLoaded) (huninit : ¬ s.IsUninitData) (heq : c' = c)
  | code (hs : s.IsCode)
      (hcopied : Copied file c c' s
        { c.noffH with code := ⟨s.s_paddr, c.inNoffFile, s.s_size⟩ })
  | initData (hs : s.IsInitData) (hfirst : c.noffH.initData.size = 0#32)
      (hcopied : Copied file c c' s
        { c.noffH with initData := ⟨s.s_paddr, c.inNoffFile, s.s_size⟩ })
  | uninitData (hs : s.IsUninitData) (hfirst : c.noffH.uninitData.size = 0#32)
      (heq : c' = { c with noffH := { c.noffH with uninitData :=
        { c.noffH.uninitData with virtualAddr := s.s_paddr, size := s.s_size } } })
  | more (hs : s.IsUninitData) (hsecond : c.noffH.uninitData.size ≠ 0#32)
      (hgap : s.s_paddr ≠ c.noffH.uninitData.virtualAddr + c.noffH.uninitData.size)
      (heq : c' = { c with noffH := { c.noffH with uninitData :=
        { c.noffH.uninitData with size := c.noffH.uninitData.size + s.s_size } } })

theorem pass_of_convertSection {file : List Byte} {c c' : Converter} {s : Scnhdr}
    (h : c.convertSection file s = some c') : Pass file c c' s := by
  unfold Converter.convertSection at h
  split at h
  · rename_i hempty
    cases h
    exact .empty (not_or.mpr ⟨fun hs => hs.1 hempty, fun hs => hs.1 hempty⟩)
      (fun hs => hs.1 hempty) rfl
  · rename_i hsize
    split at h
    · rename_i hname
      exact .code ⟨hsize, hname⟩ (copied_of_copySection hsize h)
    · split at h
      · rename_i hname
        split at h
        · cases h
        · rename_i hfirst
          exact .initData ⟨hsize, hname⟩ (not_not.mp hfirst) (copied_of_copySection hsize h)
      · split at h
        · rename_i hname
          dsimp only at h
          split at h
          · rename_i hsecond
            split at h
            · cases h
            · rename_i hgap
              cases h
              exact .more ⟨hsize, hname⟩ hsecond hgap rfl
          · rename_i hfirst
            cases h
            exact .uninitData ⟨hsize, hname⟩ (not_not.mp hfirst) rfl
        · cases h

/-! ## The loop -/

/-- The segment is that of the only section of the kind. -/
def Places (p : Scnhdr → Prop) [DecidablePred p] (done : List Scnhdr) (segment : Segment) :
    Prop :=
  ∀ s, done.filter p = [s] →
    segment = ⟨s.s_paddr, BitVec.ofInt 32 (start (beforeFirst p done)), s.s_size⟩

/-- The output has the bytes of the sections one after the other. -/
def Copies (file : List Byte) (done : List Scnhdr) (fdOut : List Byte) : Prop :=
  (∀ s ∈ done, s.IsLoaded → 0 ≤ s.s_scnptr.toInt ∧ 0 ≤ s.s_size.toInt) →
    fdOut = (done.filter IsLoaded).flatMap
        (fun s => slice file s.s_scnptr.toNat s.s_size.toNat) ∧
      ∀ s ∈ done, s.IsLoaded → s.s_scnptr.toNat + s.s_size.toNat ≤ file.length

/-- The segment is that of the only section of uninitialised data, or there is a gap. -/
def Extends (done : List Scnhdr) (segment : Segment) : Prop :=
  done.filter IsUninitData = [] ∧ segment.size = 0#32 ∨
    (∃ s, done.filter IsUninitData = [s] ∧ segment.virtualAddr = s.s_paddr ∧
      segment.size = s.s_size) ∨
    ¬ (done.filter IsUninitData).IsChain Follows

/-- What the loop has done with the sections so far. -/
structure Inv (file : List Byte) (done : List Scnhdr) (c : Converter) : Prop where
  inNoffFile : c.inNoffFile = BitVec.ofInt 32 (start done)
  code : Places IsCode done c.noffH.code
  initData : Places IsInitData done c.noffH.initData
  one_initData : (done.filter IsInitData).length ≤ 1
  no_initData : c.noffH.initData.size = 0#32 → done.filter IsInitData = []
  uninitData : Extends done c.noffH.uninitData
  fdOut : Copies file done c.fdOut

section Step

variable {file : List Byte} {done : List Scnhdr} {c c' : Converter} {s : Scnhdr}
  {p : Scnhdr → Prop} [DecidablePred p] {segment : Segment}

theorem start_concat_of_loaded (h : s.IsLoaded) :
    start (done ++ [s]) = start done + s.s_size.toInt := by
  unfold start
  rw [filter_concat_of_pos h, List.map_append, List.sum_append]
  simp [add_assoc]

theorem start_concat_of_not_loaded (h : ¬ s.IsLoaded) : start (done ++ [s]) = start done := by
  unfold start
  rw [filter_concat_of_neg h]

theorem Places.keep (h : Places p done segment) (hs : ¬ p s) : Places p (done ++ [s]) segment := by
  intro x hx
  rw [filter_concat_of_neg hs] at hx
  rw [h x hx]
  have hmem : x ∈ done.filter p := by simp [hx]
  obtain ⟨hdone, hpx⟩ := List.mem_filter.mp hmem
  obtain ⟨before, after, rfl⟩ := List.append_of_mem hdone
  have hpx' : p x := by simpa using hpx
  have hfirst := (split_of_filter_eq hx hpx').2
  rw [List.append_assoc, List.cons_append, hfirst]
  have hbefore : before.filter p = [] := by
    have hnone : ∀ y ∈ beforeFirst p (before ++ x :: after), ¬ p y := by
      intro y hy
      simpa using List.mem_takeWhile_imp hy
    rw [hfirst] at hnone
    simpa using hnone
  rw [beforeFirst_append hbefore hpx']

theorem places_put (hnone : done.filter p = []) (hs : p s) :
    Places p (done ++ [s]) ⟨s.s_paddr, BitVec.ofInt 32 (start done), s.s_size⟩ := by
  intro x hx
  rw [filter_concat_of_pos hs, hnone, List.nil_append, List.singleton_inj] at hx
  subst hx
  rw [beforeFirst_append hnone hs]

/-- A second section of the kind. -/
theorem places_again (hsome : done.filter p ≠ []) (hs : p s) (segment : Segment) :
    Places p (done ++ [s]) segment := by
  intro x hx
  rw [filter_concat_of_pos hs, List.append_eq_singleton_iff] at hx
  rcases hx with ⟨hnil, -⟩ | ⟨-, hcons⟩
  · exact absurd hnil hsome
  · cases hcons

theorem Copies.keep {fdOut : List Byte} (h : Copies file done fdOut) (hs : ¬ s.IsLoaded) :
    Copies file (done ++ [s]) fdOut := by
  intro hreadable
  obtain ⟨hout, hinside⟩ := h fun x hx => hreadable x (List.mem_append_left _ hx)
  refine ⟨by rw [filter_concat_of_neg hs, hout], fun x hx hloaded => ?_⟩
  rcases List.mem_append.mp hx with hold | hnew
  · exact hinside x hold hloaded
  · rw [List.mem_singleton.mp hnew] at hloaded
    exact absurd hloaded hs

theorem Copies.put (h : Copies file done c.fdOut) (hs : s.IsLoaded)
    {noffH : NoffHeader} (hcopied : Copied file c c' s noffH) :
    Copies file (done ++ [s]) c'.fdOut := by
  intro hreadable
  obtain ⟨hout, hinside⟩ := h fun x hx => hreadable x (List.mem_append_left _ hx)
  obtain ⟨hptr, hpos⟩ := hreadable s (by simp) hs
  obtain ⟨hnew, hfile⟩ := hcopied.fdOut hptr hpos
  refine ⟨?_, fun x hx hloaded => ?_⟩
  · rw [hnew, hout, filter_concat_of_pos hs, List.flatMap_append, List.flatMap_singleton]
  · rcases List.mem_append.mp hx with hold | hlast
    · exact hinside x hold hloaded
    · rw [List.mem_singleton.mp hlast]
      exact hfile

theorem Extends.keep (h : Extends done segment) (hs : ¬ s.IsUninitData) :
    Extends (done ++ [s]) segment := by
  unfold Extends
  rwa [filter_concat_of_neg hs]

theorem not_isChain_concat (h : ¬ (done.filter IsUninitData).IsChain Follows)
    (hs : s.IsUninitData) : ¬ ((done ++ [s]).filter IsUninitData).IsChain Follows := by
  rw [filter_concat_of_pos hs]
  exact mt List.IsChain.left_of_append h

theorem Extends.first (h : Extends done segment) (hs : s.IsUninitData)
    (hfirst : segment.size = 0#32) :
    Extends (done ++ [s]) { segment with virtualAddr := s.s_paddr, size := s.s_size } := by
  rcases h with ⟨hnone, -⟩ | ⟨x, hone, -, hsize⟩ | hgap
  · refine .inr (.inl ⟨s, ?_, rfl, rfl⟩)
    rw [filter_concat_of_pos hs, hnone, List.nil_append]
  · have hx : x ∈ done.filter IsUninitData := by simp [hone]
    have hkind : x.IsUninitData := by simpa using (List.mem_filter.mp hx).2
    exact absurd (hsize.symm.trans hfirst) hkind.1
  · exact .inr (.inr (not_isChain_concat hgap hs))

theorem Extends.more (h : Extends done segment) (hs : s.IsUninitData)
    (hsecond : segment.size ≠ 0#32) (hgap : s.s_paddr ≠ segment.virtualAddr + segment.size)
    (segment' : Segment) : Extends (done ++ [s]) segment' := by
  refine .inr (.inr ?_)
  rcases h with ⟨-, hzero⟩ | ⟨x, hone, haddr, hsize⟩ | hgap'
  · exact absurd hzero hsecond
  · rw [filter_concat_of_pos hs, hone]
    intro hchain
    rw [haddr, hsize] at hgap
    exact hgap ((List.isChain_pair (R := Follows)).mp hchain)
  · exact not_isChain_concat hgap' hs

theorem inNoffFile_copied (h : c.inNoffFile = BitVec.ofInt 32 (start done)) (hs : s.IsLoaded)
    {noffH : NoffHeader} (hcopied : Copied file c c' s noffH) :
    c'.inNoffFile = BitVec.ofInt 32 (start (done ++ [s])) := by
  rw [hcopied.inNoffFile, h, start_concat_of_loaded hs, BitVec.ofInt_add, BitVec.ofInt_toInt]

theorem Inv.inNoffFile_keep (h : Inv file done c) (hs : ¬ s.IsLoaded) :
    c.inNoffFile = BitVec.ofInt 32 (start (done ++ [s])) := by
  rw [start_concat_of_not_loaded hs]
  exact h.inNoffFile

theorem Inv.initData_keep (h : Inv file done c) (hs : ¬ s.IsInitData) :
    ((done ++ [s]).filter IsInitData).length ≤ 1 ∧
      (c.noffH.initData.size = 0#32 → (done ++ [s]).filter IsInitData = []) := by
  rw [filter_concat_of_neg hs]
  exact ⟨h.one_initData, h.no_initData⟩

/-- One pass keeps the invariant. -/
theorem Inv.pass (h : Inv file done c) (hpass : Pass file c c' s) :
    Inv file (done ++ [s]) c' := by
  cases hpass with
  | empty hloaded huninit heq =>
      subst heq
      obtain ⟨hcode, hinit⟩ := not_or.mp hloaded
      obtain ⟨hone, hno⟩ := h.initData_keep hinit
      exact ⟨h.inNoffFile_keep hloaded, h.code.keep hcode, h.initData.keep hinit, hone, hno,
        h.uninitData.keep huninit, h.fdOut.keep hloaded⟩
  | code hs hcopied =>
      have hinit := hs.not_isInitData
      have huninit : ¬ s.IsUninitData := fun hu => hu.not_isCode hs
      obtain ⟨hone, hno⟩ := h.initData_keep hinit
      refine ⟨inNoffFile_copied h.inNoffFile (.inl hs) hcopied, ?_, ?_, hone, ?_, ?_,
        h.fdOut.put (.inl hs) hcopied⟩
      · rw [hcopied.noffH]
        by_cases hnone : done.filter IsCode = []
        · show Places IsCode (done ++ [s]) ⟨s.s_paddr, c.inNoffFile, s.s_size⟩
          rw [h.inNoffFile]
          exact places_put hnone hs
        · exact places_again hnone hs _
      · rw [hcopied.noffH]
        exact h.initData.keep hinit
      · rw [hcopied.noffH]
        exact hno
      · rw [hcopied.noffH]
        exact h.uninitData.keep huninit
  | initData hs hfirst hcopied =>
      have hcode : ¬ s.IsCode := fun hc => hc.not_isInitData hs
      have huninit : ¬ s.IsUninitData := fun hu => hu.not_isInitData hs
      have hnone := h.no_initData hfirst
      refine ⟨inNoffFile_copied h.inNoffFile (.inr hs) hcopied, ?_, ?_, ?_, ?_, ?_,
        h.fdOut.put (.inr hs) hcopied⟩
      · rw [hcopied.noffH]
        exact h.code.keep hcode
      · rw [hcopied.noffH]
        show Places IsInitData (done ++ [s]) ⟨s.s_paddr, c.inNoffFile, s.s_size⟩
        rw [h.inNoffFile]
        exact places_put hnone hs
      · rw [filter_concat_of_pos hs, hnone]
        exact le_rfl
      · rw [hcopied.noffH]
        exact fun hzero => absurd hzero hs.1
      · rw [hcopied.noffH]
        exact h.uninitData.keep huninit
  | uninitData hs hfirst heq =>
      subst heq
      have hinit := hs.not_isInitData
      obtain ⟨hone, hno⟩ := h.initData_keep hinit
      exact ⟨h.inNoffFile_keep hs.not_isLoaded, h.code.keep hs.not_isCode,
        h.initData.keep hinit, hone, hno, h.uninitData.first hs hfirst,
        h.fdOut.keep hs.not_isLoaded⟩
  | more hs hsecond hgap heq =>
      subst heq
      have hinit := hs.not_isInitData
      obtain ⟨hone, hno⟩ := h.initData_keep hinit
      exact ⟨h.inNoffFile_keep hs.not_isLoaded, h.code.keep hs.not_isCode,
        h.initData.keep hinit, hone, hno, h.uninitData.more hs hsecond hgap _,
        h.fdOut.keep hs.not_isLoaded⟩

/-- The whole loop. -/
theorem Inv.foldlM {rest : List Scnhdr} (h : Inv file done c)
    (hfold : rest.foldlM (Converter.convertSection file) c = some c') :
    Inv file (done ++ rest) c' := by
  induction rest generalizing done c with
  | nil =>
      cases hfold
      rwa [List.append_nil]
  | cons s rest ih =>
      rw [List.foldlM_cons] at hfold
      obtain ⟨c₁, hpass, hrest⟩ := Option.bind_eq_some_iff.mp hfold
      have hwhole := ih (h.pass (pass_of_convertSection hpass)) hrest
      rwa [List.append_assoc] at hwhole

end Step

/-! ## The header in the output -/

theorem byteOf_eq (w : Word) (k : ℕ) : (w >>> (8 * k)).truncate 8 = byteOf w k := by
  apply BitVec.eq_of_toNat_eq
  rw [toNat_byteOf]
  simp [Nat.shiftRight_eq_div_pow]

/-- The bytes of a word, the least significant first. -/
def wordBytes (w : Word) : List Byte :=
  [w.truncate 8, (w >>> 8).truncate 8, (w >>> 16).truncate 8, (w >>> 24).truncate 8]

theorem getD_flatMap_wordBytes (words : List Word) (rest : List Byte) {i k : ℕ} (hk : k < 4)
    {w : Word} (hi : words[i]? = some w) :
    (words.flatMap wordBytes ++ rest).getD (4 * i + k) 0#8 = byteOf w k := by
  induction words generalizing i with
  | nil => cases hi
  | cons x words ih =>
      have hlength : (wordBytes x).length = 4 := rfl
      rw [List.flatMap_cons, List.append_assoc, List.getD_eq_getElem?_getD]
      cases i with
      | zero =>
          cases hi
          rw [List.getElem?_append_left (by omega)]
          have hbyte := byteOf_eq w k
          interval_cases k
          · exact hbyte
          · exact hbyte
          · exact hbyte
          · exact hbyte
      | succ i =>
          have hindex : 4 * (i + 1) + k - 4 = 4 * i + k := by omega
          rw [List.getElem?_append_right (by omega), hlength, hindex,
            ← List.getD_eq_getElem?_getD]
          exact ih hi

/-- The header is read as it was written. -/
theorem read_bytes (noffH : NoffHeader) (rest : List Byte) :
    NoffHeader.read (noffH.bytes ++ rest) = noffH := by
  have hword (i : ℕ) (w : Word) (hi : [noffH.noffMagic, noffH.code.virtualAddr,
      noffH.code.inFileAddr, noffH.code.size, noffH.initData.virtualAddr,
      noffH.initData.inFileAddr, noffH.initData.size, noffH.uninitData.virtualAddr,
      noffH.uninitData.inFileAddr, noffH.uninitData.size][i]? = some w) :
      NoffHeader.word (noffH.bytes ++ rest) i = w :=
    wordAt_eq fun k hk => getD_flatMap_wordBytes _ rest hk hi
  unfold NoffHeader.read
  rw [hword 0 _ rfl, hword 1 _ rfl, hword 2 _ rfl, hword 3 _ rfl, hword 4 _ rfl, hword 5 _ rfl,
    hword 6 _ rfl, hword 7 _ rfl, hword 8 _ rfl, hword 9 _ rfl]

theorem length_bytes (noffH : NoffHeader) : noffH.bytes.length = sizeofNoffHeader := rfl

/-! ## The whole conversion -/

section Whole

variable {file noff : List Byte} {garbage : NoffHeader} {c : Converter}

/-- What is accepted has gone through the loop. -/
theorem exists_of_coff2noff (h : coff2noff garbage file = some noff) :
    ∃ c, Inv file (sections file) c ∧ noff = c.noffH.bytes ++ c.fdOut := by
  obtain ⟨⟨_, fdIn⟩, -, h⟩ := Option.bind_eq_some_iff.mp h
  dsimp only at h
  split at h
  · cases h
  · obtain ⟨⟨_, fdIn'⟩, -, h⟩ := Option.bind_eq_some_iff.mp h
    dsimp only at h
    split at h
    · cases h
    · obtain ⟨⟨_, fdIn''⟩, -, h⟩ := Option.bind_eq_some_iff.mp h
      obtain ⟨c, hfold, heq⟩ := Option.bind_eq_some_iff.mp h
      cases heq
      have hstart : Inv file [] ⟨fdIn'', initialHeader garbage,
          BitVec.ofNat 32 sizeofNoffHeader, []⟩ :=
        ⟨rfl, (fun s hs => by cases hs), (fun s hs => by cases hs), Nat.zero_le 1,
          (fun _ => rfl), .inl ⟨rfl, rfl⟩, fun _ => ⟨rfl, by simp⟩⟩
      exact ⟨c, hstart.foldlM hfold, rfl⟩

/-- The bytes of the sections are as many as their sizes say. -/
theorem length_flatMap_slice {l : List Scnhdr}
    (h : ∀ s ∈ l, 0 ≤ s.s_size.toInt ∧ s.s_scnptr.toNat + s.s_size.toNat ≤ file.length) :
    ((l.flatMap fun s => slice file s.s_scnptr.toNat s.s_size.toNat).length : ℤ) =
      (l.map fun s => s.s_size.toInt).sum := by
  induction l with
  | nil => rfl
  | cons s l ih =>
      obtain ⟨hpos, hinside⟩ := h s List.mem_cons_self
      rw [List.flatMap_cons, List.length_append, List.map_cons, List.sum_cons, Nat.cast_add,
        ih fun x hx => h x (List.mem_cons_of_mem _ hx), toNat_of_nonneg hpos, length_slice,
        Nat.min_eq_left (by omega)]

theorem start_nonneg {before : List Scnhdr}
    (h : ∀ s ∈ before, s.IsLoaded → 0 ≤ s.s_size.toInt) : sizeofNoffHeader ≤ start before := by
  have hsum : 0 ≤ ((before.filter IsLoaded).map fun s => s.s_size.toInt).sum := by
    refine List.sum_nonneg fun x hx => ?_
    obtain ⟨s, hs, rfl⟩ := List.mem_map.mp hx
    obtain ⟨hmem, hloaded⟩ := List.mem_filter.mp hs
    exact h s hmem (by simpa using hloaded)
  unfold start
  omega

theorem toInt_ofInt_of_lt {n : ℤ} (hpos : 0 ≤ n) (hlt : n < 2 ^ 31) :
    (BitVec.ofInt 32 n).toInt = n := by
  rw [BitVec.toInt_ofInt]
  exact Int.bmod_eq_of_le (by omega) (by omega)

/-- The bytes of a section are behind those of the sections before it. -/
theorem slice_output {before after : List Scnhdr} {s : Scnhdr} (noffH : NoffHeader)
    {fdOut : List Byte} (hcopies : Copies file (before ++ s :: after) fdOut)
    (hreadable : ∀ x ∈ before ++ s :: after, x.IsLoaded →
      0 ≤ x.s_scnptr.toInt ∧ 0 ≤ x.s_size.toInt) (hs : s.IsLoaded) :
    (start before).toNat + s.s_size.toNat ≤ (noffH.bytes ++ fdOut).length ∧
      slice (noffH.bytes ++ fdOut) (start before).toNat s.s_size.toNat =
        slice file s.s_scnptr.toNat s.s_size.toNat := by
  obtain ⟨hout, hinside⟩ := hcopies hreadable
  have hlast := hinside s (by simp) hs
  -- What stands before is the header and the sections before.
  have hlength : ((before.filter IsLoaded).flatMap fun x =>
      slice file x.s_scnptr.toNat x.s_size.toNat).length = (start before).toNat - 40 ∧
      40 ≤ (start before).toNat := by
    have hsum : (((before.filter IsLoaded).flatMap fun x =>
        slice file x.s_scnptr.toNat x.s_size.toNat).length : ℤ) =
        ((before.filter IsLoaded).map fun x => x.s_size.toInt).sum := by
      refine length_flatMap_slice fun x hx => ?_
      obtain ⟨hmem, hx⟩ := List.mem_filter.mp hx
      have hmem' : x ∈ before ++ s :: after := List.mem_append_left _ hmem
      have hx' : x.IsLoaded := by simpa using hx
      exact ⟨(hreadable x hmem' hx').2, hinside x hmem' hx'⟩
    have hstart : start before = 40 + ((before.filter IsLoaded).map fun x =>
        x.s_size.toInt).sum := rfl
    omega
  have hslice : (slice file s.s_scnptr.toNat s.s_size.toNat).length = s.s_size.toNat := by
    rw [length_slice, Nat.min_eq_left (by omega)]
  rw [List.filter_append, List.filter_cons_of_pos (by simpa using hs), List.flatMap_append,
    List.flatMap_cons] at hout
  have hheader : noffH.bytes.length = 40 := length_bytes noffH
  rw [hout, ← List.append_assoc]
  have hbefore : (noffH.bytes ++ (before.filter IsLoaded).flatMap fun x =>
      slice file x.s_scnptr.toNat x.s_size.toNat).length = (start before).toNat := by
    rw [List.length_append, hheader, hlength.1]
    omega
  constructor
  · rw [List.length_append, hbefore, List.length_append, hslice]
    omega
  · rw [slice, List.drop_left' hbefore]
    exact List.take_left' hslice

/-- A segment that stands for its section. -/
theorem loaded_of_places {p : Scnhdr → Prop} [DecidablePred p] (hp : ∀ s, p s → s.IsLoaded)
    (noffH : NoffHeader) {sections : List Scnhdr} {segment : Segment} {fdOut : List Byte}
    (hplaces : Places p sections segment) (hcopies : Copies file sections fdOut)
    (hone : (sections.filter p).length ≤ 1)
    (hreadable : ∀ x ∈ sections, x.IsLoaded → 0 ≤ x.s_scnptr.toInt ∧ 0 ≤ x.s_size.toInt)
    (hoffsets : ∀ before x after, sections = before ++ x :: after → x.IsLoaded →
      start before < 2 ^ 31)
    {s : Scnhdr} (hmem : s ∈ sections) (hs : p s) :
    Loaded file (noffH.bytes ++ fdOut) segment s := by
  have honly := filter_eq_of_length_le hone hmem hs
  obtain ⟨before, after, rfl⟩ := List.append_of_mem hmem
  have hsegment := hplaces s honly
  rw [(split_of_filter_eq honly hs).2] at hsegment
  have hloaded := hp s hs
  obtain ⟨hptr, hpos⟩ := hreadable s hmem hloaded
  have hstart : 40 ≤ start before :=
    start_nonneg fun x hx hx' => (hreadable x (List.mem_append_left _ hx) hx').2
  have hint := toInt_ofInt_of_lt (by omega) (hoffsets before s after rfl hloaded)
  have hnat : (BitVec.ofInt 32 (start before)).toNat = (start before).toNat := by
    have hcast := toNat_of_nonneg (w := BitVec.ofInt 32 (start before)) (by omega)
    omega
  obtain ⟨hinside, hbytes⟩ := slice_output noffH hcopies hreadable hloaded
  rw [hsegment]
  refine ⟨rfl, rfl, slice file s.s_scnptr.toNat s.s_size.toNat, ?_, ?_⟩
  · rw [rawBytes, if_pos ⟨by rw [hint]; omega, hpos, by rw [hnat]; exact hinside⟩, hnat, hbytes]
  · rw [rawBytes, if_pos ⟨hptr, hpos, (hcopies hreadable).2 s hmem hloaded⟩]

theorem addresses_zero (virtualAddr : Word) : addresses virtualAddr 0#32 = ∅ := by
  refine Set.eq_empty_of_forall_notMem fun a ha => ?_
  have hlt := ha.2
  rw [BitVec.toInt_zero] at hlt
  exact absurd hlt (by have := ha.1; omega)

/-- The segment of uninitialised data when there is at most one section of it. -/
theorem addresses_of_extends {sections : List Scnhdr} {segment : Segment}
    (h : Extends sections segment) (hone : (sections.filter IsUninitData).length ≤ 1) :
    addresses segment.virtualAddr segment.size =
      {a | ∃ s ∈ sections, s.IsUninitData ∧ a ∈ addresses s.s_paddr s.s_size} := by
  rcases h with ⟨hnone, hzero⟩ | ⟨x, honly, haddr, hsize⟩ | hgap
  · rw [hzero, addresses_zero]
    refine (Set.eq_empty_of_forall_notMem ?_).symm
    rintro a ⟨s, hmem, hs, -⟩
    have hfilter : s ∈ sections.filter IsUninitData :=
      List.mem_filter.mpr ⟨hmem, by simpa using hs⟩
    rw [hnone] at hfilter
    cases hfilter
  · rw [haddr, hsize]
    refine Set.ext fun a => ⟨fun ha => ?_, ?_⟩
    · have hfilter : x ∈ sections.filter IsUninitData := by simp [honly]
      obtain ⟨hmem, hx⟩ := List.mem_filter.mp hfilter
      exact ⟨x, hmem, by simpa using hx, ha⟩
    · rintro ⟨s, hmem, hs, ha⟩
      have hfilter : s ∈ sections.filter IsUninitData :=
        List.mem_filter.mpr ⟨hmem, by simpa using hs⟩
      rw [honly, List.mem_singleton] at hfilter
      rwa [hfilter] at ha
  · exact absurd (isChain_of_length_le hone) hgap

theorem nonneg_of_rawBytes {position size : Word} {bytes : List Byte}
    (h : rawBytes file position size = some bytes) : 0 ≤ position.toInt ∧ 0 ≤ size.toInt := by
  unfold rawBytes at h
  split at h
  · rename_i hinside
    exact ⟨hinside.1, hinside.2.1⟩
  · cases h

theorem lt_of_toInt_ofInt_nonneg {n : ℤ} (hpos : 0 ≤ n) (hlt : n < 2 ^ 32)
    (h : 0 ≤ (BitVec.ofInt 32 n).toInt) : n < 2 ^ 31 := by
  rw [BitVec.toInt_ofInt, Int.bmod_def, Int.emod_eq_of_lt hpos (by simpa using hlt)] at h
  split at h <;> omega

theorem length_filter_isLoaded_le (sections : List Scnhdr) :
    (sections.filter IsLoaded).length ≤
      (sections.filter IsCode).length + (sections.filter IsInitData).length := by
  simp only [← List.countP_eq_length_filter]
  induction sections with
  | nil => exact le_rfl
  | cons s rest ih =>
      simp only [List.countP_cons, decide_eq_true_eq]
      by_cases hcode : s.IsCode
      · rw [if_pos hcode, if_pos (.inl hcode)]
        omega
      · by_cases hinit : s.IsInitData
        · rw [if_pos hinit, if_pos (.inr hinit)]
          omega
        · have hloaded : ¬ s.IsLoaded := not_or.mpr ⟨hcode, hinit⟩
          rw [if_neg hloaded, if_neg hcode, if_neg hinit]
          omega

/-- At most one section is loaded before another. -/
theorem start_lt {before after : List Scnhdr} {s : Scnhdr} (hs : s.IsLoaded)
    (hcode : ((before ++ s :: after).filter IsCode).length ≤ 1)
    (hinit : ((before ++ s :: after).filter IsInitData).length ≤ 1) :
    start before < 2 ^ 32 := by
  have hle := length_filter_isLoaded_le (before ++ s :: after)
  rw [List.filter_append, List.filter_cons_of_pos (by simpa using hs), List.length_append,
    List.length_cons] at hle
  have hone : (before.filter IsLoaded).length ≤ 1 := by omega
  unfold start
  generalize before.filter IsLoaded = l at hone
  match l, hone with
  | [], _ => decide
  | [x], _ =>
      have hlt := BitVec.toInt_lt (x := x.s_size)
      simp only [List.map_cons, List.map_nil, List.sum_cons, List.sum_nil, sizeofNoffHeader]
      omega

/-- The bytes of a section that is read back are at a position an `int` can say. -/
theorem start_lt_of_places {p : Scnhdr → Prop} [DecidablePred p] {before after : List Scnhdr}
    {segment : Segment} {s : Scnhdr} (hplaces : Places p (before ++ s :: after) segment)
    (hone : ((before ++ s :: after).filter p).length ≤ 1) (hs : p s)
    (hloaded : Loaded file noff segment s) (hpos : 0 ≤ start before)
    (hlt : start before < 2 ^ 32) : start before < 2 ^ 31 := by
  have honly := filter_eq_of_length_le hone (by simp) hs
  have hsegment := hplaces s honly
  rw [(split_of_filter_eq honly hs).2] at hsegment
  obtain ⟨bytes, hout, -⟩ := hloaded.bytes
  rw [hsegment] at hout
  exact lt_of_toInt_ofInt_nonneg hpos hlt (nonneg_of_rawBytes hout).1

theorem Inv.preserves (h : Inv file (sections file) c) (hfits : Fits file) :
    Preserves file (c.noffH.bytes ++ c.fdOut) := by
  refine ⟨⟨hfits.code, h.one_initData, ?_⟩, ?_, ?_, ?_⟩
  · exact isChain_of_length_le hfits.uninitData
  · rw [read_bytes]
    exact fun s => loaded_of_places (fun _ => .inl) c.noffH h.code h.fdOut hfits.code
      hfits.readable hfits.offsets
  · rw [read_bytes]
    exact fun s => loaded_of_places (fun _ => .inr) c.noffH h.initData h.fdOut h.one_initData
      hfits.readable hfits.offsets
  · rw [read_bytes]
    exact addresses_of_extends h.uninitData hfits.uninitData

theorem Inv.fits (h : Inv file (sections file) c)
    (hpreserves : Preserves file (c.noffH.bytes ++ c.fdOut)) : Fits file := by
  obtain ⟨⟨hone, -, hchain⟩, hcode, hinit, -⟩ := hpreserves
  rw [read_bytes] at hcode hinit
  have hreadable : ∀ s ∈ sections file, s.IsLoaded →
      0 ≤ s.s_scnptr.toInt ∧ 0 ≤ s.s_size.toInt := by
    rintro s hmem (hs | hs)
    · obtain ⟨bytes, -, hin⟩ := (hcode s hmem hs).bytes
      exact nonneg_of_rawBytes hin
    · obtain ⟨bytes, -, hin⟩ := (hinit s hmem hs).bytes
      exact nonneg_of_rawBytes hin
  refine ⟨hone, ?_, hreadable, fun before s after hsplit hs => ?_⟩
  · rcases h.uninitData with ⟨hnone, -⟩ | ⟨x, honly, -, -⟩ | hgap
    · rw [hnone]
      exact Nat.zero_le 1
    · rw [honly]
      exact le_rfl
    · exact absurd hchain hgap
  · have hmem : s ∈ sections file := by simp [hsplit]
    have hpos : 40 ≤ start before := by
      refine start_nonneg fun x hx hx' => (hreadable x ?_ hx').2
      rw [hsplit]
      exact List.mem_append_left _ hx
    have hcodes := h.code
    have hinits := h.initData
    have hone' := h.one_initData
    rw [hsplit] at hone hone' hcodes hinits
    have hlt := start_lt hs hone hone'
    rcases hs with hs | hs
    · exact start_lt_of_places hcodes hone hs (hcode s hmem hs) (by omega) hlt
    · exact start_lt_of_places hinits hone' hs (hinit s hmem hs) (by omega) hlt

/-- What is accepted has the image of the input exactly when the input has one section for each
slot and the positions can be said. -/
theorem preserves_iff (haccept : coff2noff garbage file = some noff) :
    Preserves file noff ↔ Fits file := by
  obtain ⟨c, hinv, rfl⟩ := exists_of_coff2noff haccept
  exact ⟨hinv.fits, hinv.preserves⟩

end Whole

/-! ## Small files -/

def Scnhdr.bytes (s : Scnhdr) : List Byte :=
  s.s_name ++ wordBytes s.s_paddr ++ .replicate 4 0#8 ++ wordBytes s.s_size ++
    wordBytes s.s_scnptr ++ .replicate 16 0#8

/-- A file with these sections and the raw bytes behind the headers. -/
def coffFile (sections : List Scnhdr) (raw : List Byte) : List Byte :=
  [0x62#8, 0x01#8, BitVec.ofNat 8 sections.length, 0#8] ++ .replicate 16 0#8 ++
    [0x07#8, 0x01#8] ++ .replicate 54 0#8 ++ sections.flatMap Scnhdr.bytes ++ raw

def zeroHeader : NoffHeader := ⟨0#32, ⟨0#32, 0#32, 0#32⟩, ⟨0#32, 0#32, 0#32⟩, ⟨0#32, 0#32, 0#32⟩⟩

/-- Four bytes of code, four of data and a page of zeros. -/
def oneEach : List Byte :=
  coffFile [⟨chars ".text" ++ .replicate 3 0#8, 0#32, 4#32, 196#32⟩,
    ⟨chars ".data" ++ .replicate 3 0#8, 4#32, 4#32, 200#32⟩,
    ⟨chars ".bss" ++ .replicate 4 0#8, 8#32, 128#32, 0#32⟩]
    [1#8, 2#8, 3#8, 4#8, 5#8, 6#8, 7#8, 8#8]

def oneEachNoff : List Byte :=
  NoffHeader.bytes ⟨noffMagic, ⟨0#32, 40#32, 4#32⟩, ⟨4#32, 44#32, 4#32⟩, ⟨8#32, 0#32, 128#32⟩⟩ ++
    [1#8, 2#8, 3#8, 4#8, 5#8, 6#8, 7#8, 8#8]

theorem fits_oneEach : Fits oneEach := by
  refine ⟨by decide +kernel, by decide +kernel, by decide +kernel, ?_⟩
  intro before s after hsplit _
  have hstarts : ∀ n < 4, start ((sections oneEach).take n) < 2 ^ 31 := by decide +kernel
  have htake : (sections oneEach).take before.length = before := by
    rw [hsplit, List.take_left]
  have hlength : (sections oneEach).length = 3 := by decide +kernel
  rw [hsplit, List.length_append, List.length_cons] at hlength
  rw [← htake]
  exact hstarts before.length (by omega)

theorem preserves_oneEach : coff2noff zeroHeader oneEach = some oneEachNoff ∧
    Fits oneEach ∧ Preserves oneEach oneEachNoff := by
  have haccept : coff2noff zeroHeader oneEach = some oneEachNoff := by decide +kernel
  exact ⟨haccept, fits_oneEach, (preserves_iff haccept).mpr fits_oneEach⟩

def bss : Scnhdr := ⟨chars ".bss" ++ .replicate 4 0#8, 0x1000#32, 16#32, 0#32⟩
def sbss : Scnhdr := ⟨chars ".sbss" ++ .replicate 3 0#8, 0x2000#32, 16#32, 0#32⟩

/-- A hole between the two sections of uninitialised data. -/
def withGap : List Byte := coffFile [bss, sbss] []

def gapHeader : NoffHeader :=
  { zeroHeader with noffMagic := noffMagic, uninitData := ⟨0x1000#32, 0#32, 32#32⟩ }

/-- Two sections of code. -/
def twoTexts : List Byte :=
  coffFile [⟨chars ".text" ++ .replicate 3 0#8, 0#32, 2#32, 156#32⟩,
    ⟨chars ".text" ++ .replicate 3 0#8, 2#32, 2#32, 158#32⟩] [1#8, 2#8, 3#8, 4#8]

def secondHeader : NoffHeader :=
  { zeroHeader with noffMagic := noffMagic, code := ⟨2#32, 42#32, 2#32⟩ }

/-- The segment takes the bytes behind the first section for those of the second, and the second
code section takes the place of the first. -/
theorem withGap_not_preserved :
    (coff2noff zeroHeader withGap = some (gapHeader.bytes ++ []) ∧
      ¬ Preserves withGap (gapHeader.bytes ++ [])) ∧
    (coff2noff zeroHeader twoTexts = some (secondHeader.bytes ++ [1#8, 2#8, 3#8, 4#8]) ∧
      ¬ Preserves twoTexts (secondHeader.bytes ++ [1#8, 2#8, 3#8, 4#8])) := by
  refine ⟨⟨by decide +kernel, fun h => ?_⟩, by decide +kernel, fun h => ?_⟩
  · -- The address at which the second section starts.
    have hmem : (0x2000 : ℤ) ∈ {a | ∃ s ∈ sections withGap, s.IsUninitData ∧
        a ∈ addresses s.s_paddr s.s_size} :=
      ⟨sbss, by decide +kernel, by decide +kernel, by decide, by decide⟩
    rw [← h.uninitData, read_bytes] at hmem
    exact absurd hmem.2 (by decide)
  · exact absurd h.representable.code (by decide +kernel)

end Nachos.Coff
