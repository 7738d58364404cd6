import Nachos.Model.Coff2flat
import Nachos.Verification.AddrSpace.Image
import Nachos.Verification.Coff.Preservation

/-! # From the object file to the memory of the process

The sections of a linked program lie one behind another from address 0 on, the uninitialised
data last. Their raw bytes, one behind another, are then the memory image. -/

namespace Nachos.Coff

open Slices Scnhdr

/-! ## Linked programs -/

/-- How far the sections reach when each begins where the one before it ends. -/
def extent (sections : List Scnhdr) : ℕ :=
  (sections.map fun s => s.s_size.toNat).sum

/-- The file of a program that `ld` has linked for address 0 and that fits into memory. -/
structure Linked (file : List Byte) : Prop where
  code : ((sections file).filter IsCode).length ≤ 1
  uninitData : ((sections file).filter IsUninitData).length ≤ 1
  position : ∀ s ∈ sections file, s.IsLoaded → 0 ≤ s.s_scnptr.toInt
  behind : ∀ before s after, sections file = before ++ s :: after →
    s.s_paddr.toNat = extent before
  last : ∀ before s after, sections file = before ++ s :: after → s.IsUninitData →
    ∀ x ∈ after, ¬ x.IsLoaded
  fits : extent (sections file) + stackSize.toNat ≤ memorySize

/-- What is read at the addresses of the program and its stack: the raw bytes of the sections,
and zeros everywhere else. -/
structure Shows (file : List Byte) (read : ℕ → Option Byte) : Prop where
  loaded : ∀ s ∈ sections file, s.IsLoaded → ∀ k < s.s_size.toNat,
    read (s.s_paddr.toNat + k) = some (file.getD (s.s_scnptr.toNat + k) 0#8)
  cleared : ∀ a < extent (sections file) + stackSize.toNat,
    (∀ s ∈ sections file, s.IsLoaded →
      ¬ (s.s_paddr.toNat ≤ a ∧ a < s.s_paddr.toNat + s.s_size.toNat)) → read a = some 0#8

/-- The raw bytes of a section that is loaded. -/
def raw (file : List Byte) (s : Scnhdr) : List Byte :=
  if s.IsLoaded then slice file s.s_scnptr.toNat s.s_size.toNat else []

/-- The raw bytes of the sections, one behind another. -/
def payload (file : List Byte) (sections : List Scnhdr) : List Byte :=
  sections.flatMap (raw file)

/-- What holds of the sections of a file that the converter accepts. -/
structure Accepted (file : List Byte) (sections : List Scnhdr) : Prop where
  known : ∀ s ∈ sections, s.s_size = 0#32 ∨ s.IsLoaded ∨ s.IsUninitData
  inside : ∀ s ∈ sections, s.IsLoaded → s.s_scnptr.toNat + s.s_size.toNat ≤ file.length

section Sections

variable {file : List Byte} {l before after : List Scnhdr} {s : Scnhdr} {a : ℕ}

@[simp] theorem extent_append (l l' : List Scnhdr) : extent (l ++ l') = extent l + extent l' := by
  rw [extent, List.map_append, List.sum_append]
  rfl

@[simp] theorem extent_cons (s : Scnhdr) (l : List Scnhdr) :
    extent (s :: l) = s.s_size.toNat + extent l := by
  rw [extent, List.map_cons, List.sum_cons]
  rfl

theorem payload_append (file : List Byte) (l l' : List Scnhdr) :
    payload file (l ++ l') = payload file l ++ payload file l' :=
  List.flatMap_append

theorem payload_cons (file : List Byte) (s : Scnhdr) (l : List Scnhdr) :
    payload file (s :: l) = raw file s ++ payload file l :=
  List.flatMap_cons

theorem payload_eq (file : List Byte) (l : List Scnhdr) :
    payload file l =
      (l.filter IsLoaded).flatMap fun s => slice file s.s_scnptr.toNat s.s_size.toNat := by
  induction l with
  | nil => rfl
  | cons s l ih =>
      rw [payload_cons, ih, raw]
      by_cases hs : s.IsLoaded
      · rw [if_pos hs, List.filter_cons_of_pos (by simpa using hs), List.flatMap_cons]
      · rw [if_neg hs, List.filter_cons_of_neg (by simpa using hs), List.nil_append]

theorem length_raw (haccepted : Accepted file (sections file)) (hs : s ∈ sections file)
    (hloaded : s.IsLoaded) : (raw file s).length = s.s_size.toNat := by
  have hinside := haccepted.inside s hs hloaded
  rw [raw, if_pos hloaded, length_slice]
  omega

/-- As long as there is no uninitialised data, the bytes reach as far as the sections. -/
theorem length_payload (haccepted : Accepted file (sections file)) (hl : ∀ s ∈ l, s ∈ sections file)
    (huninit : ∀ s ∈ l, ¬ s.IsUninitData) : (payload file l).length = extent l := by
  induction l with
  | nil => rfl
  | cons s l ih =>
      have hs := hl s List.mem_cons_self
      rw [payload_cons, List.length_append, extent_cons,
        ih (fun x hx => hl x (List.mem_cons_of_mem s hx))
          fun x hx => huninit x (List.mem_cons_of_mem s hx)]
      by_cases hloaded : s.IsLoaded
      · rw [length_raw haccepted hs hloaded]
      · rcases haccepted.known s hs with hzero | hknown | hknown
        · rw [raw, if_neg hloaded, hzero]
          rfl
        · exact absurd hknown hloaded
        · exact absurd hknown (huninit s List.mem_cons_self)

/-- Nothing that is loaded is behind uninitialised data. -/
theorem Linked.not_isUninitData (h : Linked file) (hsplit : sections file = before ++ s :: after)
    (hs : s.IsLoaded) : ∀ x ∈ before, ¬ x.IsUninitData := by
  intro x hx huninit
  obtain ⟨first, rest, rfl⟩ := List.append_of_mem hx
  refine h.last first x (rest ++ s :: after) ?_ huninit s (by simp) hs
  rw [hsplit, List.append_assoc, List.cons_append]

theorem Linked.length_before (h : Linked file) (haccepted : Accepted file (sections file))
    (hsplit : sections file = before ++ s :: after) (hs : s.IsLoaded) :
    (payload file before).length = s.s_paddr.toNat := by
  rw [h.behind before s after hsplit]
  refine length_payload haccepted (fun x hx => ?_) (h.not_isUninitData hsplit hs)
  rw [hsplit]
  exact List.mem_append_left _ hx

/-- A section ends where the program does, or before. -/
theorem Linked.stop_le (h : Linked file) (hs : s ∈ sections file) :
    s.s_paddr.toNat + s.s_size.toNat ≤ extent (sections file) := by
  obtain ⟨before, after, hsplit⟩ := List.append_of_mem hs
  rw [h.behind before s after hsplit, hsplit, extent_append, extent_cons]
  omega

theorem length_payload_le (haccepted : Accepted file (sections file))
    (hl : ∀ s ∈ l, s ∈ sections file) : (payload file l).length ≤ extent l := by
  induction l with
  | nil => exact le_rfl
  | cons s l ih =>
      rw [payload_cons, List.length_append, extent_cons]
      have hrest := ih fun x hx => hl x (List.mem_cons_of_mem s hx)
      have hfirst : (raw file s).length ≤ s.s_size.toNat := by
        by_cases hs : s.IsLoaded
        · exact (length_raw haccepted (hl s List.mem_cons_self) hs).le
        · rw [raw, if_neg hs]
          exact Nat.zero_le _
      omega

theorem Linked.getD_payload (h : Linked file) (haccepted : Accepted file (sections file))
    (hs : s ∈ sections file) (hloaded : s.IsLoaded) {k : ℕ} (hk : k < s.s_size.toNat) :
    (payload file (sections file)).getD (s.s_paddr.toNat + k) 0#8 =
      file.getD (s.s_scnptr.toNat + k) 0#8 := by
  obtain ⟨before, after, hsplit⟩ := List.append_of_mem hs
  have hbefore := h.length_before haccepted hsplit hloaded
  have hraw := length_raw haccepted hs hloaded
  rw [hsplit, payload_append, payload_cons, List.getD_eq_getElem?_getD, ← hbefore,
    List.getElem?_append_right (Nat.le_add_right _ _), Nat.add_sub_cancel_left,
    List.getElem?_append_left (hraw ▸ hk), raw, if_pos hloaded, getElem?_slice, if_pos hk,
    List.getD_eq_getElem?_getD]

theorem exists_of_lt_payload (ha : a < (payload file l).length) :
    ∃ before s after, l = before ++ s :: after ∧ (payload file before).length ≤ a ∧
      a < (payload file before).length + (raw file s).length := by
  induction l generalizing a with
  | nil => cases ha
  | cons s l ih =>
      rw [payload_cons, List.length_append] at ha
      by_cases hfirst : a < (raw file s).length
      · exact ⟨[], s, l, rfl, Nat.zero_le a, by simpa [payload] using hfirst⟩
      · obtain ⟨before, x, after, rfl, hlow, hhigh⟩ :=
          ih (show a - (raw file s).length < (payload file l).length by omega)
        refine ⟨s :: before, x, after, rfl, ?_, ?_⟩
        · rw [payload_cons, List.length_append]
          omega
        · rw [payload_cons, List.length_append]
          omega

/-- Every byte is that of a section. -/
theorem Linked.exists_section (h : Linked file) (haccepted : Accepted file (sections file))
    (ha : a < (payload file (sections file)).length) :
    ∃ s ∈ sections file, s.IsLoaded ∧ s.s_paddr.toNat ≤ a ∧
      a < s.s_paddr.toNat + s.s_size.toNat := by
  obtain ⟨before, s, after, hsplit, hlow, hhigh⟩ := exists_of_lt_payload ha
  have hs : s ∈ sections file := by simp [hsplit]
  by_cases hloaded : s.IsLoaded
  · rw [h.length_before haccepted hsplit hloaded] at hlow hhigh
    rw [length_raw haccepted hs hloaded] at hhigh
    exact ⟨s, hs, hloaded, hlow, hhigh⟩
  · rw [raw, if_neg hloaded] at hhigh
    exact absurd hhigh (by simpa using hlow)

/-- Who reads the payload, and zeros behind it, reads the image. -/
theorem Linked.shows (h : Linked file) (haccepted : Accepted file (sections file))
    {read : ℕ → Option Byte} (hread : ∀ a < extent (sections file) + stackSize.toNat,
      read a = some ((payload file (sections file)).getD a 0#8)) : Shows file read where
  loaded := by
    intro s hs hloaded k hk
    have hstop := h.stop_le hs
    rw [hread _ (by omega), h.getD_payload haccepted hs hloaded hk]
  cleared := by
    intro a ha hnone
    have hend : (payload file (sections file)).length ≤ a := by
      by_contra hlt
      obtain ⟨s, hs, hloaded, hrange⟩ := h.exists_section haccepted (not_le.mp hlt)
      exact hnone s hs hloaded hrange
    rw [hread a ha, List.getD_eq_getElem?_getD, List.getElem?_eq_none hend]
    rfl

end Sections

/-! ## What the converter accepts -/

/-- What the header says about the sections so far. -/
structure Slots (done : List Scnhdr) (noffH : NoffHeader) : Prop where
  magic : noffH.noffMagic = noffMagic
  code : done.filter IsCode = [] → noffH.code.size = 0#32
  initData : done.filter IsInitData = [] → noffH.initData.size = 0#32
  known : ∀ s ∈ done, s.s_size = 0#32 ∨ s.IsLoaded ∨ s.IsUninitData

section Accepting

variable {file noff : List Byte} {garbage : NoffHeader} {c c' : Converter} {done : List Scnhdr}
  {s : Scnhdr}

theorem known_of_convertSection (h : c.convertSection file s = some c') :
    s.s_size = 0#32 ∨ s.IsLoaded ∨ s.IsUninitData := by
  unfold Converter.convertSection at h
  split at h
  · rename_i hempty
    exact .inl hempty
  · rename_i hsize
    split at h
    · rename_i hname
      exact .inr (.inl (.inl ⟨hsize, hname⟩))
    · split at h
      · rename_i hname
        exact .inr (.inl (.inr ⟨hsize, hname⟩))
      · split at h
        · rename_i hname
          exact .inr (.inr ⟨hsize, hname⟩)
        · cases h

theorem filter_concat_ne_nil {p : Scnhdr → Prop} [DecidablePred p] (hs : p s) :
    (done ++ [s]).filter p ≠ [] := by
  rw [filter_concat_of_pos hs]
  exact List.concat_ne_nil s _

theorem Slots.pass (h : Slots done c.noffH) (hpass : c.convertSection file s = some c') :
    Slots (done ++ [s]) c'.noffH := by
  have hknown : ∀ x ∈ done ++ [s], x.s_size = 0#32 ∨ x.IsLoaded ∨ x.IsUninitData := by
    intro x hx
    rcases List.mem_append.mp hx with hold | hnew
    · exact h.known x hold
    · rw [List.mem_singleton.mp hnew]
      exact known_of_convertSection hpass
  cases pass_of_convertSection hpass with
  | empty hloaded huninit heq =>
      subst heq
      obtain ⟨hcode, hinit⟩ := not_or.mp hloaded
      refine ⟨h.magic, ?_, ?_, hknown⟩
      · rw [filter_concat_of_neg hcode]
        exact h.code
      · rw [filter_concat_of_neg hinit]
        exact h.initData
  | code hs hcopied =>
      refine ⟨?_, fun hnil => absurd hnil (filter_concat_ne_nil hs), ?_, hknown⟩
      · rw [hcopied.noffH]
        exact h.magic
      · rw [hcopied.noffH, filter_concat_of_neg hs.not_isInitData]
        exact h.initData
  | initData hs hfirst hcopied =>
      refine ⟨?_, ?_, fun hnil => absurd hnil (filter_concat_ne_nil hs), hknown⟩
      · rw [hcopied.noffH]
        exact h.magic
      · rw [hcopied.noffH, filter_concat_of_neg fun hcode => hcode.not_isInitData hs]
        exact h.code
  | uninitData hs hfirst heq =>
      subst heq
      refine ⟨h.magic, ?_, ?_, hknown⟩
      · rw [filter_concat_of_neg hs.not_isCode]
        exact h.code
      · rw [filter_concat_of_neg hs.not_isInitData]
        exact h.initData
  | more hs hsecond hgap heq =>
      subst heq
      refine ⟨h.magic, ?_, ?_, hknown⟩
      · rw [filter_concat_of_neg hs.not_isCode]
        exact h.code
      · rw [filter_concat_of_neg hs.not_isInitData]
        exact h.initData

theorem Slots.foldlM {rest : List Scnhdr} (h : Slots done c.noffH)
    (hfold : rest.foldlM (Converter.convertSection file) c = some c') :
    Slots (done ++ rest) c'.noffH := by
  induction rest generalizing done c with
  | nil =>
      cases hfold
      rwa [List.append_nil]
  | cons s rest ih =>
      rw [List.foldlM_cons] at hfold
      obtain ⟨c₁, hpass, hrest⟩ := Option.bind_eq_some_iff.mp hfold
      have hwhole := ih (h.pass hpass) hrest
      rwa [List.append_assoc] at hwhole

/-- The two converters differ in what they do with the sections. -/
theorem converters (h : coff2noff garbage file = some noff) :
    ∃ fdIn c, (sections file).foldlM (Converter.convertSection file)
        ⟨fdIn, initialHeader garbage, BitVec.ofNat 32 sizeofNoffHeader, []⟩ = some c ∧
      noff = c.noffH.bytes ++ c.fdOut ∧
      coff2flat file = ((sections file).foldlM (Flattener.copySection file)
        ⟨fdIn, 0#32, []⟩).map Flattener.finish := by
  obtain ⟨⟨filehdr, fdIn⟩, hfilehdr, h⟩ := Option.bind_eq_some_iff.mp h
  dsimp only at h
  split at h
  · cases h
  · rename_i hmagic
    obtain ⟨⟨aouthdr, fdIn'⟩, haouthdr, h⟩ := Option.bind_eq_some_iff.mp h
    dsimp only at h
    split at h
    · cases h
    · rename_i homagic
      obtain ⟨⟨scnhdrs, fdIn''⟩, hscnhdrs, h⟩ := Option.bind_eq_some_iff.mp h
      obtain ⟨c, hfold, heq⟩ := Option.bind_eq_some_iff.mp h
      cases heq
      refine ⟨fdIn'', c, hfold, rfl, ?_⟩
      unfold coff2flat
      rw [hfilehdr, Option.bind_eq_bind, Option.bind_some]
      dsimp only
      rw [if_neg hmagic, haouthdr, Option.bind_some]
      dsimp only
      rw [if_neg homagic, hscnhdrs, Option.bind_some, Option.map_eq_bind]
      rfl

end Accepting

/-! ## The segments -/

/-- What the header of the output says about the sections of a linked program. -/
structure Converted (file : List Byte) (noffH : NoffHeader) : Prop where
  slots : Slots (sections file) noffH
  code : Places IsCode (sections file) noffH.code
  initData : Places IsInitData (sections file) noffH.initData
  one_initData : ((sections file).filter IsInitData).length ≤ 1
  uninitData : Extends (sections file) noffH.uninitData
  accepted : Accepted file (sections file)

section Segments

variable {file noff : List Byte} {garbage noffH : NoffHeader} {l : List Scnhdr} {s t : Scnhdr}
  {segment : Segment}

theorem toInt_of_lt {w : Word} (h : w.toNat < 2 ^ 31) : w.toInt = w.toNat := by
  rw [BitVec.toInt_eq_toNat_cond, if_pos (by omega)]

theorem Linked.extent_le (h : Linked file) : extent (sections file) ≤ 64512 := by
  have hfits := h.fits
  have hstack : stackSize.toNat = 1024 := rfl
  have hmemory : memorySize = 65536 := rfl
  omega

theorem Linked.size_le (h : Linked file) (hs : s ∈ sections file) : s.s_size.toNat ≤ 64512 :=
  (Nat.le_add_left _ _).trans ((h.stop_le hs).trans h.extent_le)

theorem Linked.readable (h : Linked file) :
    ∀ s ∈ sections file, s.IsLoaded → 0 ≤ s.s_scnptr.toInt ∧ 0 ≤ s.s_size.toInt := by
  intro s hs hloaded
  have hsize := h.size_le hs
  refine ⟨h.position s hs hloaded, ?_⟩
  rw [toInt_of_lt (by omega)]
  exact Int.natCast_nonneg _

theorem Linked.converted (h : Linked file) (haccept : coff2noff garbage file = some noff) :
    Converted file (NoffHeader.read noff) ∧
      noff = (NoffHeader.read noff).bytes ++ payload file (sections file) := by
  obtain ⟨fdIn, c, hfold, hnoff, -⟩ := converters haccept
  have hslots : Slots [] (initialHeader garbage) :=
    ⟨rfl, fun _ => rfl, fun _ => rfl, fun s hs => absurd hs List.not_mem_nil⟩
  have hslots := hslots.foldlM (c := ⟨fdIn, initialHeader garbage,
    BitVec.ofNat 32 sizeofNoffHeader, []⟩) hfold
  obtain ⟨c', hinv, hnoff'⟩ := exists_of_coff2noff haccept
  have hread : NoffHeader.read noff = c.noffH := by rw [hnoff, read_bytes]
  have hread' : NoffHeader.read noff = c'.noffH := by rw [hnoff', read_bytes]
  obtain ⟨hout, hinside⟩ := hinv.fdOut h.readable
  refine ⟨⟨hread ▸ hslots, hread' ▸ hinv.code, hread' ▸ hinv.initData, hinv.one_initData,
    hread' ▸ hinv.uninitData, hslots.known, hinside⟩, ?_⟩
  rw [hread', payload_eq, ← hout]
  exact hnoff'

theorem start_eq (hsizes : ∀ x ∈ l, x.s_size.toNat < 2 ^ 31)
    (hknown : ∀ x ∈ l, x.s_size = 0#32 ∨ x.IsLoaded) : start l = 40 + extent l := by
  have hsum : ((l.filter IsLoaded).map fun s => s.s_size.toInt).sum = extent l := by
    induction l with
    | nil => rfl
    | cons s l ih =>
        have hrest := ih (fun x hx => hsizes x (List.mem_cons_of_mem s hx))
          fun x hx => hknown x (List.mem_cons_of_mem s hx)
        have hsize := toInt_of_lt (hsizes s List.mem_cons_self)
        rw [extent_cons, Nat.cast_add]
        by_cases hs : s.IsLoaded
        · rw [List.filter_cons_of_pos (by simpa using hs), List.map_cons, List.sum_cons, hrest,
            hsize]
        · have hzero := (hknown s List.mem_cons_self).resolve_right hs
          rw [List.filter_cons_of_neg (by simpa using hs), hrest, hzero]
          simp
  rw [start, hsum]
  rfl

/-- The segment for a section that is loaded is as far into the raw bytes as it is into
memory. -/
theorem Linked.segment_eq {p : Scnhdr → Prop} [DecidablePred p] (h : Linked file)
    (haccepted : Accepted file (sections file)) (hplaces : Places p (sections file) segment)
    (hone : ((sections file).filter p).length ≤ 1) (hs : s ∈ sections file) (hps : p s)
    (hloaded : s.IsLoaded) :
    segment = ⟨s.s_paddr, BitVec.ofNat 32 (40 + s.s_paddr.toNat), s.s_size⟩ := by
  have honly := filter_eq_of_length_le hone hs hps
  rw [hplaces s honly]
  obtain ⟨before, after, hsplit⟩ := List.append_of_mem hs
  rw [hsplit] at honly
  have hbefore : ∀ x ∈ before, x ∈ sections file := by
    intro x hx
    rw [hsplit]
    exact List.mem_append_left _ hx
  have huninit := h.not_isUninitData hsplit hloaded
  rw [hsplit, (split_of_filter_eq honly hps).2, start_eq, ← h.behind before s after hsplit]
  · norm_cast
  · intro x hx
    have := h.size_le (hbefore x hx)
    omega
  · intro x hx
    rcases haccepted.known x (hbefore x hx) with hzero | hx' | hx'
    · exact .inl hzero
    · exact .inr hx'
    · exact absurd hx' (huninit x hx)

/-- Two sections do not overlap. -/
theorem Linked.apart (h : Linked file) (hs : s ∈ sections file) (ht : t ∈ sections file)
    (hne : s ≠ t) : s.s_paddr.toNat + s.s_size.toNat ≤ t.s_paddr.toNat ∨
      t.s_paddr.toNat + t.s_size.toNat ≤ s.s_paddr.toNat := by
  -- a section starts behind every section before it
  have hbehind : ∀ first x rest y last, sections file = first ++ x :: (rest ++ y :: last) →
      x.s_paddr.toNat + x.s_size.toNat ≤ y.s_paddr.toNat := by
    intro first x rest y last hsplit
    rw [h.behind first x _ hsplit, h.behind (first ++ x :: rest) y last (by simp [hsplit])]
    simp only [extent_append, extent_cons]
    omega
  obtain ⟨before, after, hsplit⟩ := List.append_of_mem hs
  rw [hsplit, List.mem_append, List.mem_cons] at ht
  rcases ht with hbefore | hsame | hafter
  · obtain ⟨first, rest, rfl⟩ := List.append_of_mem hbefore
    exact .inr (hbehind first t rest s after (by simp [hsplit]))
  · exact absurd hsame.symm hne
  · obtain ⟨first, rest, rfl⟩ := List.append_of_mem hafter
    exact .inl (hbehind before s first t rest hsplit)

/-! ### Sizes -/

theorem extent_kinds (hknown : ∀ x ∈ l, x.s_size = 0#32 ∨ x.IsLoaded ∨ x.IsUninitData) :
    extent l = extent (l.filter IsCode) + extent (l.filter IsInitData) +
      extent (l.filter IsUninitData) := by
  induction l with
  | nil => rfl
  | cons s l ih =>
      rw [extent_cons, ih fun x hx => hknown x (List.mem_cons_of_mem s hx)]
      simp only [List.filter_cons, decide_eq_true_eq]
      rcases hknown s List.mem_cons_self with hzero | (hs | hs) | hs
      · rw [if_neg fun hs : s.IsCode => hs.1 hzero, if_neg fun hs : s.IsInitData => hs.1 hzero,
          if_neg fun hs : s.IsUninitData => hs.1 hzero, hzero]
        simp
      · rw [if_pos hs, if_neg hs.not_isInitData,
          if_neg fun hu : s.IsUninitData => hu.not_isCode hs, extent_cons]
        omega
      · rw [if_neg fun hc : s.IsCode => hc.not_isInitData hs, if_pos hs,
          if_neg fun hu : s.IsUninitData => hu.not_isInitData hs, extent_cons]
        omega
      · rw [if_neg hs.not_isCode, if_neg hs.not_isInitData, if_pos hs, extent_cons]
        omega

/-- A segment is as large as the only section of its kind. -/
theorem size_of_places {p : Scnhdr → Prop} [DecidablePred p] (hplaces : Places p l segment)
    (hone : (l.filter p).length ≤ 1) (hnone : l.filter p = [] → segment.size = 0#32) :
    segment.size.toNat = extent (l.filter p) := by
  cases hfilter : l.filter p with
  | nil =>
      rw [hnone hfilter]
      rfl
  | cons s rest =>
      have hrest : rest = [] := by
        rw [hfilter, List.length_cons] at hone
        exact List.length_eq_zero_iff.mp (by omega)
      subst hrest
      rw [hplaces s hfilter]
      simp [extent]

theorem extends_cases (hextends : Extends l segment)
    (hone : (l.filter IsUninitData).length ≤ 1) :
    segment.size.toNat = extent (l.filter IsUninitData) ∧
      (segment.size ≠ 0#32 → ∃ s ∈ l, s.IsUninitData ∧ segment.virtualAddr = s.s_paddr ∧
        segment.size = s.s_size) := by
  rcases hextends with ⟨hnone, hzero⟩ | ⟨s, honly, haddr, hsize⟩ | hgap
  · rw [hnone, hzero]
    exact ⟨rfl, fun hne => absurd rfl hne⟩
  · have hmem : s ∈ l.filter IsUninitData := by simp [honly]
    obtain ⟨hs, hkind⟩ := List.mem_filter.mp hmem
    refine ⟨by rw [honly, hsize]; simp [extent], fun _ => ⟨s, hs, ?_, haddr, hsize⟩⟩
    simpa using hkind
  · exact absurd (isChain_of_length_le hone) hgap

/-! ### Places -/

/-- The section that a segment stands for. -/
theorem Linked.exists_of_size {p : Scnhdr → Prop} [DecidablePred p] (h : Linked file)
    (haccepted : Accepted file (sections file)) (hp : ∀ x, p x → x.IsLoaded)
    (hplaces : Places p (sections file) segment) (hone : ((sections file).filter p).length ≤ 1)
    (hnone : (sections file).filter p = [] → segment.size = 0#32) (hsize : segment.size ≠ 0#32) :
    ∃ s ∈ sections file, p s ∧
      segment = ⟨s.s_paddr, BitVec.ofNat 32 (40 + s.s_paddr.toNat), s.s_size⟩ := by
  obtain ⟨s, hs⟩ := List.exists_mem_of_ne_nil _ (mt hnone hsize)
  obtain ⟨hmem, hps⟩ := List.mem_filter.mp hs
  have hps : p s := by simpa using hps
  exact ⟨s, hmem, hps, h.segment_eq haccepted hplaces hone hmem hps (hp s hps)⟩

theorem Converted.exists_code (hconverted : Converted file noffH) (h : Linked file)
    (hsize : noffH.code.size ≠ 0#32) : ∃ s ∈ sections file, s.IsCode ∧
      noffH.code = ⟨s.s_paddr, BitVec.ofNat 32 (40 + s.s_paddr.toNat), s.s_size⟩ :=
  h.exists_of_size hconverted.accepted (fun _ => .inl) hconverted.code h.code
    hconverted.slots.code hsize

theorem Converted.exists_initData (hconverted : Converted file noffH) (h : Linked file)
    (hsize : noffH.initData.size ≠ 0#32) : ∃ s ∈ sections file, s.IsInitData ∧
      noffH.initData = ⟨s.s_paddr, BitVec.ofNat 32 (40 + s.s_paddr.toNat), s.s_size⟩ :=
  h.exists_of_size hconverted.accepted (fun _ => .inr) hconverted.initData
    hconverted.one_initData hconverted.slots.initData hsize

theorem ne_zero_of_pos {w : Word} (h : 0 < w.toInt) : w ≠ 0#32 := by
  rintro rfl
  cases h

theorem Linked.inSpace (h : Linked file) {numPages : ℕ}
    (hpages : extent (sections file) ≤ numPages * pageSize)
    (hsegment : segment.size ≠ 0#32 → ∃ s ∈ sections file,
      segment.virtualAddr = s.s_paddr ∧ segment.size = s.s_size) : segment.InSpace numPages := by
  have hle := h.extent_le
  by_cases hsize : segment.size = 0#32
  · refine ⟨by rw [hsize]; decide, fun hpos => ?_, fun hpos => ?_⟩
    · exact absurd hsize (ne_zero_of_pos hpos)
    · exact absurd hsize (ne_zero_of_pos hpos)
  · obtain ⟨s, hs, haddr, hsize'⟩ := hsegment hsize
    have hstop := h.stop_le hs
    rw [← haddr, ← hsize'] at hstop
    refine ⟨?_, fun _ => ?_, fun _ => hstop.trans hpages⟩
    · rw [toInt_of_lt (by omega)]
      exact Int.natCast_nonneg _
    · rw [toInt_of_lt (by omega)]
      exact Int.natCast_nonneg _

theorem Linked.stop_le_payload (h : Linked file) (haccepted : Accepted file (sections file))
    (hs : s ∈ sections file) (hloaded : s.IsLoaded) :
    s.s_paddr.toNat + s.s_size.toNat ≤ (payload file (sections file)).length := by
  obtain ⟨before, after, hsplit⟩ := List.append_of_mem hs
  have hbefore := h.length_before haccepted hsplit hloaded
  have hraw := length_raw haccepted hs hloaded
  rw [hsplit, payload_append, payload_cons, List.length_append, List.length_append, hbefore, hraw]
  omega

theorem toNat_inFileAddr (h : Linked file) (hs : s ∈ sections file) :
    (BitVec.ofNat 32 (40 + s.s_paddr.toNat)).toNat = 40 + s.s_paddr.toNat := by
  have hstop := h.stop_le hs
  have hle := h.extent_le
  rw [BitVec.toNat_ofNat, Nat.mod_eq_of_lt (by omega)]

theorem Linked.inFile (h : Linked file) (haccepted : Accepted file (sections file))
    (hsegment : segment.size ≠ 0#32 → ∃ s ∈ sections file, s.IsLoaded ∧
      segment = ⟨s.s_paddr, BitVec.ofNat 32 (40 + s.s_paddr.toNat), s.s_size⟩) :
    segment.InFile (40 + (payload file (sections file)).length) := by
  have hle := h.extent_le
  constructor
  · intro hpos
    obtain ⟨s, hs, -, rfl⟩ := hsegment (ne_zero_of_pos hpos)
    have hstop := h.stop_le hs
    rw [toInt_of_lt (by rw [toNat_inFileAddr h hs]; omega)]
    exact Int.natCast_nonneg _
  · intro hpos
    obtain ⟨s, hs, hloaded, rfl⟩ := hsegment (ne_zero_of_pos hpos)
    have hstop := h.stop_le_payload haccepted hs hloaded
    dsimp only
    rw [toNat_inFileAddr h hs]
    omega

theorem Converted.size_eq (hconverted : Converted file noffH) (h : Linked file) :
    noffH.code.size.toNat + noffH.initData.size.toNat + noffH.uninitData.size.toNat =
      extent (sections file) := by
  rw [extent_kinds hconverted.slots.known,
    size_of_places hconverted.code h.code hconverted.slots.code,
    size_of_places hconverted.initData hconverted.one_initData hconverted.slots.initData,
    (extends_cases hconverted.uninitData h.uninitData).1]

/-- The program and its stack fit into the pages. -/
theorem Converted.pages (hconverted : Converted file noffH) (h : Linked file) :
    0 < noffH.numPages ∧ extent (sections file) + stackSize.toNat ≤ noffH.numPages * pageSize := by
  have hsize := hconverted.size_eq h
  have hle := h.extent_le
  have hstack : stackSize.toNat = 1024 := rfl
  have htotal : noffH.size.toNat = extent (sections file) + 1024 := by
    have huser : userStackSize.toNat = 1024 := rfl
    rw [NoffHeader.size]
    simp only [BitVec.toNat_add, huser]
    omega
  rw [NoffHeader.numPages, htotal, divRoundUp, hstack]
  unfold pageSize
  split <;> omega

theorem length_noff (noffH : NoffHeader) (out : List Byte) :
    (noffH.bytes ++ out).length = 40 + out.length := by
  rw [List.length_append, length_bytes]
  rfl

theorem Converted.wellFormed (hconverted : Converted file noffH) (h : Linked file) :
    noffH.WellFormed (40 + (payload file (sections file)).length) := by
  have hpages := (hconverted.pages h).2
  have hextent : extent (sections file) ≤ noffH.numPages * pageSize := by omega
  have huninit := (extends_cases hconverted.uninitData h.uninitData).2
  have hcode := hconverted.exists_code h
  have hinit := hconverted.exists_initData h
  refine ⟨Nat.le_add_right _ _, hconverted.slots.magic, h.inSpace hextent fun hsize => ?_,
    h.inSpace hextent fun hsize => ?_, h.inSpace hextent fun hsize => ?_,
    h.inFile hconverted.accepted fun hsize => ?_, h.inFile hconverted.accepted fun hsize => ?_,
    fun hs ht => ?_, fun hs ht => ?_, fun hs ht => ?_⟩
  · obtain ⟨s, hs, -, heq⟩ := hcode hsize
    exact ⟨s, hs, by rw [heq], by rw [heq]⟩
  · obtain ⟨s, hs, -, heq⟩ := hinit hsize
    exact ⟨s, hs, by rw [heq], by rw [heq]⟩
  · obtain ⟨s, hs, -, haddr, hsize'⟩ := huninit hsize
    exact ⟨s, hs, haddr, hsize'⟩
  · obtain ⟨s, hs, hkind, heq⟩ := hcode hsize
    exact ⟨s, hs, .inl hkind, heq⟩
  · obtain ⟨s, hs, hkind, heq⟩ := hinit hsize
    exact ⟨s, hs, .inr hkind, heq⟩
  · obtain ⟨s, hs, hkind, heq⟩ := hcode (ne_zero_of_pos hs)
    obtain ⟨t, ht, hkind', heq'⟩ := hinit (ne_zero_of_pos ht)
    rw [heq, heq']
    refine h.apart hs ht fun hsame => ?_
    exact hkind.not_isInitData (hsame ▸ hkind')
  · obtain ⟨s, hs, hkind, heq⟩ := hcode (ne_zero_of_pos hs)
    obtain ⟨t, ht, hkind', haddr, hsize⟩ := huninit (ne_zero_of_pos ht)
    rw [heq, haddr, hsize]
    refine h.apart hs ht fun hsame => ?_
    exact hkind'.not_isCode (hsame ▸ hkind)
  · obtain ⟨s, hs, hkind, heq⟩ := hinit (ne_zero_of_pos hs)
    obtain ⟨t, ht, hkind', haddr, hsize⟩ := huninit (ne_zero_of_pos ht)
    rw [heq, haddr, hsize]
    refine h.apart hs ht fun hsame => ?_
    exact hkind'.not_isInitData (hsame ▸ hkind)

end Segments

/-! ## Memory -/

section Memory

variable {file noff : List Byte} {garbage noffH : NoffHeader} {b : BitMap numPhysPages}
  {memory memory' : ℕ → Byte} {first length p q a : ℕ} {segment : Segment}

theorem getElem?_range' {start count j frame : ℕ}
    (h : (List.range' start count)[j]? = some frame) : j < count ∧ frame = start + j := by
  obtain ⟨hj, hframe⟩ := List.getElem?_eq_some_iff.mp h
  rw [List.length_range'] at hj
  rw [List.getElem_range'] at hframe
  omega

theorem getD_range' {start count j : ℕ} (hj : j < count) :
    (List.range' start count).getD j 0 = start + j := by
  rw [List.getD_eq_getElem?_getD, List.getElem?_eq_getElem (by simpa using hj),
    List.getElem_range']
  simp

/-- In frames that follow each other, addresses are moved by a constant. -/
theorem physAddr_range' {count : ℕ} (ha : a < count * pageSize) :
    physAddr (List.range' first count) a = first * pageSize + a := by
  rw [physAddr, getD_range' (Nat.div_lt_of_lt_mul (by rwa [Nat.mul_comm])), Nat.add_mul,
    Nat.add_assoc, Nat.div_add_mod']

/-- A segment that is as far into the file as it is into memory is copied as if it were all of
the file. -/
theorem eq_of_copies {count : ℕ} (haligned : segment.inFileAddr.toNat =
      40 + segment.virtualAddr.toNat)
    (hcopies : segment.Copies length (List.range' first count) p q) :
    q + first * pageSize = 40 + p := by
  obtain ⟨-, j, frame, o, hj, -, -, hq, hp⟩ := hcopies
  obtain ⟨-, rfl⟩ := getElem?_range' hj
  rw [hq, hp, haligned, Nat.zero_add, Nat.add_mul]
  omega

theorem copies_of_mem {count k : ℕ} (hsize : 0 < segment.size.toInt)
    (hfile : segment.inFileAddr.toNat + k < length)
    (hpage : segment.virtualAddr.toNat + k < count * pageSize) :
    segment.Copies length (List.range' first count)
      (physAddr (List.range' first count) (segment.virtualAddr.toNat + k))
      (segment.inFileAddr.toNat + k) := by
  have hlow : k / pageSize < count := Nat.div_lt_of_lt_mul (by rw [Nat.mul_comm]; omega)
  have hhigh : (segment.virtualAddr.toNat + k) / pageSize < count :=
    Nat.div_lt_of_lt_mul (by rwa [Nat.mul_comm])
  refine (Segment.copies_own_iff hsize hfile (by simpa using hlow)).mpr ?_
  rw [Segment.InPlace, getD_range' hlow, getD_range' hhigh]
  omega

theorem fits_of_aligned {count n : ℕ} (hsegment : segment.size ≠ 0#32 →
      segment.inFileAddr.toNat = 40 + segment.virtualAddr.toNat ∧ segment.virtualAddr.toNat ≤ 64512)
    (hend : n ≤ count * pageSize) (hframes : first + count ≤ numPhysPages) :
    segment.Fits (40 + n) (List.range' first count) := by
  intro hsize j frame hj
  obtain ⟨haligned, hle⟩ := hsegment (ne_zero_of_pos hsize)
  obtain ⟨hj, rfl⟩ := getElem?_range' hj
  have hmemory : memorySize = numPhysPages * pageSize := rfl
  have htop : (first + count) * pageSize ≤ numPhysPages * pageSize :=
    Nat.mul_le_mul_right _ hframes
  rw [Nat.add_mul] at htop
  constructor
  · have hpages : j * pageSize ≤ 65536 := by
      have : j ≤ 128 := by unfold numPhysPages at hframes; omega
      unfold pageSize
      omega
    omega
  · intro o ho hinside
    rw [haligned] at hinside
    rw [Nat.add_mul]
    omega

theorem aligned_of_eq (h : Linked file) {s : Scnhdr} (hs : s ∈ sections file)
    (hsegment : segment = ⟨s.s_paddr, BitVec.ofNat 32 (40 + s.s_paddr.toNat), s.s_size⟩) :
    segment.inFileAddr.toNat = 40 + segment.virtualAddr.toNat ∧
      segment.virtualAddr.toNat ≤ 64512 := by
  have hstop := h.stop_le hs
  have hle := h.extent_le
  rw [hsegment]
  exact ⟨toNat_inFileAddr h hs, by dsimp only; omega⟩

theorem Converted.aligned_code (hconverted : Converted file noffH) (h : Linked file)
    (hsize : noffH.code.size ≠ 0#32) : noffH.code.inFileAddr.toNat =
      40 + noffH.code.virtualAddr.toNat ∧ noffH.code.virtualAddr.toNat ≤ 64512 := by
  obtain ⟨s, hs, -, heq⟩ := hconverted.exists_code h hsize
  exact aligned_of_eq h hs heq

theorem Converted.aligned_initData (hconverted : Converted file noffH) (h : Linked file)
    (hsize : noffH.initData.size ≠ 0#32) : noffH.initData.inFileAddr.toNat =
      40 + noffH.initData.virtualAddr.toNat ∧ noffH.initData.virtualAddr.toNat ≤ 64512 := by
  obtain ⟨s, hs, -, heq⟩ := hconverted.exists_initData h hsize
  exact aligned_of_eq h hs heq

/-- The segment of a section brings the byte at each of its addresses. -/
theorem Linked.copies_section (h : Linked file) (haccepted : Accepted file (sections file))
    {s : Scnhdr} (hs : s ∈ sections file) (hloaded : s.IsLoaded)
    (hsegment : segment = ⟨s.s_paddr, BitVec.ofNat 32 (40 + s.s_paddr.toNat), s.s_size⟩)
    {count : ℕ} (hend : (payload file (sections file)).length ≤ count * pageSize)
    (hlow : s.s_paddr.toNat ≤ a) (hhigh : a < s.s_paddr.toNat + s.s_size.toNat) :
    segment.Copies (40 + (payload file (sections file)).length) (List.range' first count)
      (first * pageSize + a) (40 + a) := by
  have hstop := h.stop_le_payload haccepted hs hloaded
  have hsize := h.size_le hs
  have hposition : segment.inFileAddr.toNat + (a - s.s_paddr.toNat) = 40 + a := by
    rw [hsegment]
    dsimp only
    rw [toNat_inFileAddr h hs]
    omega
  have haddr : segment.virtualAddr.toNat + (a - s.s_paddr.toNat) = a := by
    rw [hsegment]
    exact Nat.add_sub_cancel' hlow
  have hpos : 0 < segment.size.toInt := by
    rw [hsegment]
    dsimp only
    rw [toInt_of_lt (by omega)]
    omega
  have hfile : segment.inFileAddr.toNat + (a - s.s_paddr.toNat) <
      40 + (payload file (sections file)).length := by omega
  have hpage : segment.virtualAddr.toNat + (a - s.s_paddr.toNat) < count * pageSize := by omega
  have hcopies : segment.Copies _ (List.range' first count) _ _ :=
    copies_of_mem hpos hfile hpage
  rwa [hposition, haddr, physAddr_range' (by omega)] at hcopies

theorem Converted.lands (hconverted : Converted file noffH) (h : Linked file)
    (hend : (payload file (sections file)).length ≤ noffH.numPages * pageSize)
    (ha : a < (payload file (sections file)).length) :
    noffH.Lands (40 + (payload file (sections file)).length)
      (List.range' first noffH.numPages) (first * pageSize + a) (40 + a) := by
  have haccepted := hconverted.accepted
  obtain ⟨s, hs, hloaded, hlow, hhigh⟩ := h.exists_section haccepted ha
  by_cases hinit : noffH.initData.Copies (40 + (payload file (sections file)).length)
      (List.range' first noffH.numPages) (first * pageSize + a) (40 + a)
  · exact .inl hinit
  · rcases hloaded with hkind | hkind
    · refine .inr ⟨fun q hq => hinit ?_, ?_⟩
      · have haligned := (hconverted.aligned_initData h (ne_zero_of_pos hq.1)).1
        have hq' := eq_of_copies haligned hq
        rwa [show q = 40 + a by omega] at hq
      · exact h.copies_section haccepted hs (.inl hkind) (h.segment_eq haccepted hconverted.code
          h.code hs hkind (.inl hkind)) hend hlow hhigh
    · refine absurd ?_ hinit
      exact h.copies_section haccepted hs (.inr hkind) (h.segment_eq haccepted
        hconverted.initData hconverted.one_initData hs hkind (.inr hkind)) hend hlow hhigh

/-- Nothing else comes to the address. -/
theorem Converted.eq_of_lands (hconverted : Converted file noffH) (h : Linked file)
    {count : ℕ} (hlands : noffH.Lands length (List.range' first count) (first * pageSize + a) q) :
    q = 40 + a := by
  rcases hlands with hinit | ⟨-, hcode⟩
  · have := eq_of_copies (hconverted.aligned_initData h (ne_zero_of_pos hinit.1)).1 hinit
    omega
  · have := eq_of_copies (hconverted.aligned_code h (ne_zero_of_pos hcode.1)).1 hcode
    omega

theorem room_of_range' {count : ℕ}
    (hframes : AddrSpace.freeFrames b count = List.range' first count) : count ≤ b.numClear := by
  have hcount := congrArg List.length hframes
  rw [AddrSpace.freeFrames, List.length_map, List.length_take, List.length_range'] at hcount
  rw [BitMap.numClear, List.countP_eq_length_filter]
  exact min_eq_left_iff.mp hcount

/-- The constructor puts the raw bytes, one behind another, at the beginning of the memory of
the process. -/
theorem Converted.load (hconverted : Converted file noffH) (h : Linked file)
    (hnoff : noff = noffH.bytes ++ payload file (sections file))
    (hframes : AddrSpace.freeFrames b noffH.numPages = List.range' first noffH.numPages)
    (hclear : ∀ p, first * pageSize ≤ p → p < (first + noffH.numPages) * pageSize →
      memory p = 0#8) :
    ∃ space b' memory', AddrSpace.load noff b memory = .ok (space, b', memory') ∧
      ∀ a < noffH.numPages * pageSize,
        space.readByte memory' a = some ((payload file (sections file)).getD a 0#8) := by
  obtain ⟨hpos, hpages⟩ := hconverted.pages h
  have hlength : noff.length = 40 + (payload file (sections file)).length := by
    rw [hnoff, length_noff]
  have hloading : Loading noff b noffH (List.range' first noffH.numPages) :=
    ⟨by rw [hnoff, read_bytes], hlength ▸ hconverted.wellFormed h, room_of_range' hframes,
      hframes.symm⟩
  have hlast : first + noffH.numPages ≤ numPhysPages := by
    have hmem : first + (noffH.numPages - 1) ∈ List.range' first noffH.numPages := by
      rw [List.mem_range'_1]
      omega
    have hlt := hloading.frame_lt _ hmem
    omega
  have hend := (length_payload_le hconverted.accepted fun s hs => hs).trans
    ((Nat.le_add_right _ stackSize.toNat).trans hpages)
  obtain ⟨⟨space, b', memory'⟩, hload⟩ := (hloading.load_ok_iff memory).mpr
    ⟨hlength ▸ fits_of_aligned (hconverted.aligned_code h) hend hlast,
      hlength ▸ fits_of_aligned (hconverted.aligned_initData h) hend hlast⟩
  obtain ⟨-, hlands, hkept⟩ := hloading.load_spec hload
  refine ⟨space, b', memory', hload, fun a ha => ?_⟩
  rw [hloading.readByte_eq hload ha, physAddr_range' ha]
  by_cases hinside : a < (payload file (sections file)).length
  · have hheader : noffH.bytes.length = 40 := length_bytes noffH
    rw [hlands _ (40 + a) (hlength ▸ hconverted.lands h hend hinside), hnoff,
      List.getD_eq_getElem?_getD, List.getElem?_append_right (by omega), hheader,
      Nat.add_sub_cancel_left, ← List.getD_eq_getElem?_getD]
  · -- nothing is copied behind the raw bytes
    have hnone : ∀ q, ¬ noffH.Lands noff.length (List.range' first noffH.numPages)
        (first * pageSize + a) q := by
      intro q hq
      have hlt := hq.lt_length
      have heq := hconverted.eq_of_lands h hq
      omega
    have hend' : (first + noffH.numPages) * pageSize =
        first * pageSize + noffH.numPages * pageSize := Nat.add_mul _ _ _
    rw [hkept _ hnone, hclear _ (Nat.le_add_right _ _) (by omega), List.getD_eq_getElem?_getD,
      List.getElem?_eq_none (not_lt.mp hinside)]
    rfl

end Memory

/-! ## The flat file -/

section Flat

variable {file : List Byte} {c : Flattener} {done rest : List Scnhdr} {s : Scnhdr}

/-- The bytes of a section that is not uninitialised data are there. -/
theorem read_section (h : Linked file) (haccepted : Accepted file (sections file))
    (hs : s ∈ sections file) (hname : ¬ (s.isNamed ".bss" || s.isNamed ".sbss") = true)
    (position : ℕ) : ∃ fdIn, read file (lseek position s.s_scnptr.toInt) s.s_size.toInt =
      some (raw file s, fdIn) := by
  have hsize := h.size_le hs
  have hcount : s.s_size.toInt = s.s_size.toNat := toInt_of_lt (by omega)
  rw [read, readSys, hcount, if_neg (by omega), Int.toNat_natCast]
  dsimp only
  rcases haccepted.known s hs with hzero | hloaded | huninit
  · have hraw : raw file s = [] := by
      refine if_neg fun hloaded => ?_
      exact hloaded.elim (fun hs => hs.1 hzero) fun hs => hs.1 hzero
    rw [hraw, hzero]
    exact ⟨_, rfl⟩
  · have hposition := toNat_of_nonneg (h.position s hs hloaded)
    have hlength := length_raw haccepted hs hloaded
    have hseek : lseek position s.s_scnptr.toInt = s.s_scnptr.toNat := by
      rw [lseek, if_neg (by omega), hposition, Int.toNat_natCast]
    rw [raw, if_pos hloaded] at hlength ⊢
    rw [hseek, hlength, if_neg (not_not.mpr rfl)]
    exact ⟨_, rfl⟩
  · exact absurd huninit.2 hname

theorem Flattener.copySection_eq (h : Linked file) (haccepted : Accepted file (sections file))
    (hsplit : sections file = done ++ s :: rest) (htop : c.top.toNat = extent done) :
    ∃ fdIn top, c.copySection file s = some ⟨fdIn, top, c.fdOut ++ raw file s⟩ ∧
      top.toNat = extent (done ++ [s]) := by
  have hs : s ∈ sections file := by simp [hsplit]
  have hle := h.extent_le
  have hstop := h.stop_le hs
  have haddr := h.behind done s rest hsplit
  have hsum : (s.s_paddr + s.s_size).toNat = extent done + s.s_size.toNat := by
    rw [BitVec.toNat_add, haddr]
    omega
  have htop' : (if c.top.toInt < (s.s_paddr + s.s_size).toInt then s.s_paddr + s.s_size
      else c.top).toNat = extent (done ++ [s]) := by
    rw [toInt_of_lt (by omega), toInt_of_lt (by omega), extent_append, extent_cons]
    have hnil : extent [] = 0 := rfl
    split <;> omega
  unfold Flattener.copySection
  dsimp only
  by_cases hname : (s.isNamed ".bss" || s.isNamed ".sbss") = true
  · -- there is nothing to copy
    have hraw : raw file s = [] := by
      refine if_neg fun hloaded => ?_
      have hsize : s.s_size ≠ 0#32 := hloaded.elim (fun hs => hs.1) fun hs => hs.1
      exact IsUninitData.not_isLoaded ⟨hsize, hname⟩ hloaded
    rw [if_pos hname, hraw, List.append_nil]
    exact ⟨_, _, rfl, htop'⟩
  · rw [if_neg hname]
    obtain ⟨fdIn, hread⟩ := read_section h haccepted hs hname c.fdIn
    rw [hread]
    exact ⟨_, _, rfl, htop'⟩

theorem Flattener.foldlM_eq (h : Linked file) (haccepted : Accepted file (sections file))
    (hsplit : sections file = done ++ rest) (htop : c.top.toNat = extent done) :
    ∃ fdIn top, rest.foldlM (Flattener.copySection file) c =
      some ⟨fdIn, top, c.fdOut ++ payload file rest⟩ ∧ top.toNat = extent (sections file) := by
  induction rest generalizing done c with
  | nil =>
      rw [hsplit, List.append_nil, ← htop]
      exact ⟨c.fdIn, c.top, by simp [payload], rfl⟩
  | cons s rest ih =>
      obtain ⟨fdIn, top, hsection, htop'⟩ := copySection_eq h haccepted hsplit htop
      have hsplit' : sections file = (done ++ [s]) ++ rest := by simp [hsplit]
      obtain ⟨fdIn', top', hrest, hend⟩ :=
        ih (c := ⟨fdIn, top, c.fdOut ++ raw file s⟩) hsplit' htop'
      refine ⟨fdIn', top', ?_, hend⟩
      rw [List.foldlM_cons, hsection, payload_cons, ← List.append_assoc]
      exact hrest

/-- The blank word is at the end of the stack. -/
theorem Flattener.finish_eq (hle : c.top.toNat ≤ 64512) (hout : c.fdOut.length ≤ c.top.toNat) :
    c.finish = c.fdOut ++ .replicate (c.top.toNat + stackSize.toNat - c.fdOut.length) 0#8 := by
  have hstack : stackSize.toNat = 1024 := rfl
  have hposition : (c.top + stackSize - 4#32).toNat = c.top.toNat + 1020 := by
    rw [BitVec.toNat_sub, BitVec.toNat_add, hstack]
    have hfour : (4#32 : Word).toNat = 4 := rfl
    omega
  have hseek : lseek c.fdOut.length (c.top + stackSize - 4#32).toInt = c.top.toNat + 1020 := by
    rw [toInt_of_lt (by omega), lseek, if_neg (by omega), hposition, Int.toNat_natCast]
  have hcount : c.top.toNat + 1020 - c.fdOut.length + 4 =
      c.top.toNat + stackSize.toNat - c.fdOut.length := by omega
  rw [finish, hseek, writeAt, List.take_of_length_le (by omega),
    List.drop_of_length_le (by omega), List.append_nil, List.append_assoc, ← List.replicate_add,
    hcount]

end Flat

/-! ## From the sections to memory -/

/-- What `coff2flat` writes for a linked program, and what `AddrSpace(char*)` makes of what
`coff2noff` writes for it, is the image of the program, if the first clear frames follow each
other and have been cleared. -/
theorem linked_image {file noff : List Byte} {garbage : NoffHeader} {b : BitMap numPhysPages}
    {memory : ℕ → Byte} {first : ℕ} (h : Linked file)
    (hnoff : coff2noff garbage file = some noff)
    (hframes : AddrSpace.freeFrames b (NoffHeader.read noff).numPages =
      List.range' first (NoffHeader.read noff).numPages)
    (hclear : ∀ p, first * pageSize ≤ p →
      p < (first + (NoffHeader.read noff).numPages) * pageSize → memory p = 0#8) :
    (∃ flat, coff2flat file = some flat ∧
      flat.length = extent (sections file) + stackSize.toNat ∧ Shows file fun a => flat[a]?) ∧
    ∃ space b' memory', AddrSpace.load noff b memory = .ok (space, b', memory') ∧
      Shows file (space.readByte memory') := by
  obtain ⟨hconverted, hbytes⟩ := h.converted hnoff
  have haccepted := hconverted.accepted
  constructor
  · obtain ⟨fdIn, -, -, -, hflat⟩ := converters hnoff
    obtain ⟨fdIn', top, hfold, htop⟩ := Flattener.foldlM_eq (c := ⟨fdIn, 0#32, []⟩) h haccepted
      (List.nil_append (sections file)).symm rfl
    have hlength := length_payload_le haccepted fun s hs => hs
    have hfinish := Flattener.finish_eq (c := ⟨fdIn', top, payload file (sections file)⟩)
      (htop ▸ h.extent_le) (htop ▸ hlength)
    dsimp only at hfinish
    rw [hfold, List.nil_append, Option.map_some, hfinish, htop] at hflat
    refine ⟨_, hflat, ?_, h.shows haccepted fun a ha => ?_⟩
    · rw [List.length_append, List.length_replicate]
      omega
    · rw [List.getD_eq_getElem?_getD, List.getElem?_append]
      split
      · rename_i hinside
        rw [List.getElem?_eq_getElem hinside]
        rfl
      · rename_i hbehind
        rw [List.getElem?_eq_none (not_lt.mp hbehind), List.getElem?_replicate, if_pos (by omega)]
        rfl
  · obtain ⟨space, b', memory', hload, hread⟩ := hconverted.load h hbytes hframes hclear
    refine ⟨space, b', memory', hload, h.shows haccepted fun a ha => hread a ?_⟩
    exact ha.trans_le (hconverted.pages h).2

theorem splits_three {α : Type*} {x y z a : α} {before after : List α}
    (h : [x, y, z] = before ++ a :: after) :
    before = [] ∧ a = x ∧ after = [y, z] ∨ before = [x] ∧ a = y ∧ after = [z] ∨
      before = [x, y] ∧ a = z ∧ after = [] := by
  rcases before with _ | ⟨first, _ | ⟨second, _ | ⟨third, rest⟩⟩⟩
  · cases h
    exact .inl ⟨rfl, rfl, rfl⟩
  · cases h
    exact .inr (.inl ⟨rfl, rfl, rfl⟩)
  · cases h
    exact .inr (.inr ⟨rfl, rfl, rfl⟩)
  · simp at h

theorem linked_oneEach : Linked oneEach := by
  have hsections : sections oneEach =
      [⟨chars ".text" ++ .replicate 3 0#8, 0#32, 4#32, 196#32⟩,
        ⟨chars ".data" ++ .replicate 3 0#8, 4#32, 4#32, 200#32⟩,
        ⟨chars ".bss" ++ .replicate 4 0#8, 8#32, 128#32, 0#32⟩] := by decide +kernel
  refine ⟨?_, ?_, ?_, ?_, ?_, ?_⟩
  all_goals rw [hsections]
  · decide +kernel
  · decide +kernel
  · decide +kernel
  · intro before s after hsplit
    rcases splits_three hsplit with ⟨rfl, rfl, rfl⟩ | ⟨rfl, rfl, rfl⟩ | ⟨rfl, rfl, rfl⟩
    · rfl
    · rfl
    · rfl
  · intro before s after hsplit
    rcases splits_three hsplit with ⟨rfl, rfl, rfl⟩ | ⟨rfl, rfl, rfl⟩ | ⟨rfl, rfl, rfl⟩
    · decide +kernel
    · decide +kernel
    · decide +kernel
  · decide +kernel

theorem linked_image_oneEach :
    (∃ flat, coff2flat oneEach = some flat ∧
      flat.length = extent (sections oneEach) + stackSize.toNat ∧
      Shows oneEach fun a => flat[a]?) ∧
    ∃ space b' memory', AddrSpace.load oneEachNoff emptyFrames (fun _ => 0#8) =
        .ok (space, b', memory') ∧ Shows oneEach (space.readByte memory') := by
  have hnoff : coff2noff zeroHeader oneEach = some oneEachNoff := by decide +kernel
  have hframes : AddrSpace.freeFrames emptyFrames (NoffHeader.read oneEachNoff).numPages =
      List.range' 0 (NoffHeader.read oneEachNoff).numPages := by decide +kernel
  exact linked_image linked_oneEach hnoff hframes fun _ _ _ => rfl

end Nachos.Coff
