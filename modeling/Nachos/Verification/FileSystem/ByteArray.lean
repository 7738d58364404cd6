import Nachos.Library.Slices
import Nachos.Verification.FileSystem.Transfer

/-! # An open file is a byte array with a cursor

Several open files may share one file of the disk. What the code does with its sectors is
compared with what the calls mean for the bytes of the file. -/

namespace Nachos.OpenFile

open Slices Tracking

/-- Calls on `m` open files. -/
inductive Call (m : ℕ)
  | seek (k : Fin m) (position : ℤ)
  | read (k : Fin m) (into : Bytes) (numBytes : ℤ)
  | write (k : Fin m) (heap source : Bytes) (numBytes : ℤ)
  | readAt (k : Fin m) (into : Bytes) (numBytes position : ℤ)
  | writeAt (k : Fin m) (heap source : Bytes) (numBytes position : ℤ)

/-- What a call returns; after a read also what its buffer holds. -/
inductive Reply
  | done
  | read (result : ℤ) (into : Bytes)
  | wrote (result : ℤ)

variable {n m : ℕ}

/-! ### The code -/

structure Session (m : ℕ) where
  disk : Disk
  files : Fin m → OpenFile

namespace Session

def call (s : Session m) : Call m → Except Stop (Reply × Session m)
  | .seek k position =>
      .ok (.done, { s with files := Function.update s.files k ((s.files k).seek position) })
  | .read k into numBytes => do
      let (result, into, file) ← (s.files k).read s.disk into numBytes
      return (.read result into, { s with files := Function.update s.files k file })
  | .write k heap source numBytes => do
      let (result, disk, file) ← (s.files k).write s.disk heap source numBytes
      return (.wrote result, ⟨disk, Function.update s.files k file⟩)
  | .readAt k into numBytes position => do
      let (result, into) ← (s.files k).readAt s.disk into numBytes position
      return (.read result into, s)
  | .writeAt k heap source numBytes position => do
      let (result, disk) ← (s.files k).writeAt s.disk heap source numBytes position
      return (.wrote result, { s with disk := disk })

def run (s : Session m) : List (Call m) → Except Stop (List Reply × Session m)
  | [] => .ok ([], s)
  | call :: calls => do
      let (reply, s) ← s.call call
      let (replies, s) ← run s calls
      return (reply :: replies, s)

end Session

/-! ### What it means -/

/-- A file of `n` bytes, and the cursors of its open files. -/
structure CursorFile (n m : ℕ) where
  contents : List Byte
  length_eq : contents.length = n
  cursors : Fin m → ℤ

/-- How many bytes a call moves. -/
def count (n : ℕ) (numBytes position : ℤ) : ℤ :=
  max 0 (min numBytes (n - position))

/-- A buffer after the bytes have been copied to its start. -/
def fill (bytes : List Byte) (into : Bytes) : Bytes :=
  fun k => bytes.getD k (into k)

/-- The first bytes of a buffer. -/
def firstBytes (source : Bytes) (length : ℕ) : List Byte :=
  (List.range length).map source

namespace CursorFile

def readAt (a : CursorFile n m) (into : Bytes) (numBytes position : ℤ) : Reply :=
  .read (count n numBytes position)
    (fill (slice a.contents position.toNat (count n numBytes position).toNat) into)

def writeAt (a : CursorFile n m) (source : Bytes) (numBytes position : ℤ) : CursorFile n m where
  contents := overwrite a.contents position.toNat
    (firstBytes source (count n numBytes position).toNat)
  length_eq := (length_overwrite ..).trans a.length_eq
  cursors := a.cursors

def setCursor (a : CursorFile n m) (k : Fin m) (position : ℤ) : CursorFile n m :=
  { a with cursors := Function.update a.cursors k position }

/-- `Read` and `Write` are `ReadAt` and `WriteAt` at the cursor, which advances. -/
def call (a : CursorFile n m) : Call m → Reply × CursorFile n m
  | .seek k position => (.done, a.setCursor k position)
  | .readAt _ into numBytes position => (a.readAt into numBytes position, a)
  | .writeAt _ _ source numBytes position =>
      (.wrote (count n numBytes position), a.writeAt source numBytes position)
  | .read k into numBytes =>
      (a.readAt into numBytes (a.cursors k),
        a.setCursor k (a.cursors k + count n numBytes (a.cursors k)))
  | .write k _ source numBytes =>
      (.wrote (count n numBytes (a.cursors k)),
        (a.writeAt source numBytes (a.cursors k)).setCursor k
          (a.cursors k + count n numBytes (a.cursors k)))

def run (a : CursorFile n m) : List (Call m) → List Reply × CursorFile n m
  | [] => ([], a)
  | call :: calls =>
      ((a.call call).1 :: (run (a.call call).2 calls).1, (run (a.call call).2 calls).2)

/-- A position in range: `0 ≤ position` and `position + numBytes < 2^31`. -/
def InDomain (a : CursorFile n m) : Call m → Prop
  | .seek _ position => 0 ≤ position
  | .readAt _ _ numBytes position | .writeAt _ _ _ numBytes position =>
      0 ≤ position ∧ position + numBytes < 2 ^ 31
  | .read k _ numBytes | .write k _ _ numBytes =>
      0 ≤ a.cursors k ∧ a.cursors k + numBytes < 2 ^ 31

instance (a : CursorFile n m) (call : Call m) : Decidable (a.InDomain call) :=
  match call with
  | .seek _ position => inferInstanceAs (Decidable (0 ≤ position))
  | .readAt _ _ numBytes position | .writeAt _ _ _ numBytes position =>
      inferInstanceAs (Decidable (0 ≤ position ∧ position + numBytes < 2 ^ 31))
  | .read k _ numBytes | .write k _ _ numBytes =>
      inferInstanceAs (Decidable (0 ≤ a.cursors k ∧ a.cursors k + numBytes < 2 ^ 31))

/-- The same for each of the calls, one after the other. -/
def AllInDomain (a : CursorFile n m) : List (Call m) → Prop
  | [] => True
  | call :: calls => a.InDomain call ∧ AllInDomain (a.call call).2 calls

end CursorFile

/-- The file as the open files of a session see it. -/
def Session.view (sectors : ℕ → Fin Disk.numSectors) (n : ℕ) (s : Session m) :
    CursorFile n m where
  contents := (List.range n).map (content s.disk sectors)
  length_eq := by rw [List.length_map, List.length_range]
  cursors k := (s.files k).seekPosition

/-! ### Each call -/

/-- The bytes of the file are in its sectors, and every open file has the header. -/
structure Represents (hdr : FileHeader) (sectors : ℕ → Fin Disk.numSectors) (s : Session m)
    (a : CursorFile n m) : Prop where
  contents : a.contents = (List.range n).map (content s.disk sectors)
  files : ∀ k, s.files k = ⟨hdr, a.cursors k⟩

variable {hdr : FileHeader} {sectors : ℕ → Fin Disk.numSectors} {s : Session m}
  {a : CursorFile n m} {file : OpenFile}

theorem Represents.view_eq (h : Represents hdr sectors s a) : s.view sectors n = a := by
  obtain ⟨contents, length_eq, cursors⟩ := a
  rw [Session.view, CursorFile.mk.injEq]
  refine ⟨h.contents.symm, funext fun k => ?_⟩
  rw [h.files k]

theorem transferred_eq (numBytes position : ℤ) :
    transferred n numBytes position = (count n numBytes position).toNat := by
  rw [transferred, count]
  omega

theorem coe_transferred (numBytes position : ℤ) :
    ((transferred n numBytes position : ℕ) : ℤ) = count n numBytes position := by
  rw [transferred, count]
  omega

theorem inRange_of_lt (file : OpenFile) {numBytes position : ℤ} (hposition : 0 ≤ position)
    (hsum : position + numBytes < 2 ^ 31) : file.InRange numBytes position := by
  refine .inr (.inr ⟨hposition, ?_⟩)
  unfold intMax
  omega

theorem getD_slice {disk : Disk} (h : a.contents = (List.range n).map (content disk sectors))
    {position count k : ℕ} (hk : k < count) (hlt : position + k < n) (default : Byte) :
    (slice a.contents position count).getD k default = content disk sectors (position + k) := by
  rw [List.getD_eq_getElem?_getD, getElem?_slice, if_pos hk, h, List.getElem?_map,
    List.getElem?_range hlt]
  rfl

theorem readAt_refines (h : hdr.Describes n sectors)
    (hcontents : a.contents = (List.range n).map (content s.disk sectors)) (into : Bytes)
    {numBytes position cursor : ℤ} (hposition : 0 ≤ position)
    (hsum : position + numBytes < 2 ^ 31) :
    OpenFile.readAt s.disk ⟨hdr, cursor⟩ into numBytes position =
      .ok (count n numBytes position,
        fill (slice a.contents position.toNat (count n numBytes position).toNat) into) := by
  have hrange := inRange_of_lt ⟨hdr, cursor⟩ hposition hsum
  have hdescribes : (OpenFile.mk hdr cursor).hdr.Describes n sectors := h
  rw [readAt_inRange hdescribes s.disk into hrange, coe_transferred, transferred_eq]
  congr 2
  funext k
  rw [bcopy, fill]
  by_cases hk : k < (count n numBytes position).toNat
  · have hlt := hrange.lt_length h (Nat.le_add_right _ k) (by rw [transferred_eq]; omega)
    rw [if_pos (by omega), getD_slice hcontents hk hlt, Nat.sub_zero]
  · rw [if_neg (by omega), List.getD_eq_getElem?_getD, getElem?_slice, if_neg hk]
    rfl

theorem writeAt_refines (h : hdr.Describes n sectors)
    (hinj : ∀ i j, i * sectorSize < n → j * sectorSize < n → sectors i = sectors j → i = j)
    (hcontents : a.contents = (List.range n).map (content s.disk sectors)) (heap source : Bytes)
    (cursor : ℤ) {numBytes position : ℤ} (hposition : 0 ≤ position)
    (hsum : position + numBytes < 2 ^ 31) :
    ∃ disk', OpenFile.writeAt s.disk ⟨hdr, cursor⟩ heap source numBytes position =
        .ok (count n numBytes position, disk') ∧
      (a.writeAt source numBytes position).contents =
        (List.range n).map (content disk' sectors) ∧
      ∀ sector, (∀ i, i * sectorSize < n → sectors i ≠ sector) →
        disk' sector = s.disk sector := by
  have hrange := inRange_of_lt ⟨hdr, cursor⟩ hposition hsum
  have hdescribes : (OpenFile.mk hdr cursor).hdr.Describes n sectors := h
  obtain ⟨disk', hwrite, hother, hcontent⟩ :=
    writeAt_inRange hdescribes hinj s.disk heap source hrange
  rw [coe_transferred, transferred_eq] at *
  refine ⟨disk', hwrite, List.ext_getElem? fun k => ?_, hother⟩
  by_cases hk : k < n
  · rw [CursorFile.writeAt, getElem?_overwrite _ _ _ (by rwa [a.length_eq]), firstBytes,
      List.length_map, List.length_range, List.getElem?_map, List.getElem?_map,
      List.getElem?_range hk, Option.map_some, hcontent k hk]
    split
    · rw [List.getElem?_range (by omega)]
      rfl
    · rw [hcontents, List.getElem?_map, List.getElem?_range hk]
      rfl
  · rw [List.getElem?_eq_none (by rw [(a.writeAt ..).length_eq]; omega),
      List.getElem?_eq_none (by simpa using hk)]

/-- One call. -/
theorem call_refines (h : hdr.Describes n sectors)
    (hinj : ∀ i j, i * sectorSize < n → j * sectorSize < n → sectors i = sectors j → i = j)
    (hrep : Represents hdr sectors s a) {call : Call m} (hdomain : a.InDomain call) :
    ∃ s', s.call call = .ok ((a.call call).1, s') ∧ Represents hdr sectors s' (a.call call).2 ∧
      ∀ sector, (∀ i, i * sectorSize < n → sectors i ≠ sector) →
        s'.disk sector = s.disk sector := by
  have hset : ∀ k cursor k', Function.update s.files k ⟨hdr, cursor⟩ k' =
      ⟨hdr, Function.update a.cursors k cursor k'⟩ := by
    intro k cursor k'
    by_cases hk : k' = k
    · rw [hk, Function.update_self, Function.update_self]
    · rw [Function.update_of_ne hk, Function.update_of_ne hk, hrep.files]
  cases call with
  | seek k position =>
      refine ⟨_, rfl, ⟨hrep.contents, fun k' => ?_⟩, fun _ _ => rfl⟩
      rw [hrep.files k]
      exact hset k position k'
  | readAt k into numBytes position =>
      refine ⟨s, ?_, hrep, fun _ _ => rfl⟩
      rw [Session.call, hrep.files k, readAt_refines h hrep.contents into hdomain.1 hdomain.2]
      rfl
  | read k into numBytes =>
      refine ⟨⟨s.disk, Function.update s.files k
        ⟨hdr, a.cursors k + count n numBytes (a.cursors k)⟩⟩, ?_, ⟨hrep.contents, hset k _⟩,
        fun _ _ => rfl⟩
      rw [Session.call, hrep.files k, OpenFile.read,
        readAt_refines h hrep.contents into hdomain.1 hdomain.2]
      rfl
  | writeAt k heap source numBytes position =>
      obtain ⟨disk', hwrite, hcontents, hother⟩ :=
        writeAt_refines h hinj hrep.contents heap source (a.cursors k) hdomain.1 hdomain.2
      refine ⟨{ s with disk := disk' }, ?_, ⟨hcontents, hrep.files⟩, hother⟩
      rw [Session.call, hrep.files k, hwrite]
      rfl
  | write k heap source numBytes =>
      obtain ⟨disk', hwrite, hcontents, hother⟩ :=
        writeAt_refines h hinj hrep.contents heap source (a.cursors k) hdomain.1 hdomain.2
      refine ⟨⟨disk', Function.update s.files k
        ⟨hdr, a.cursors k + count n numBytes (a.cursors k)⟩⟩, ?_, ⟨hcontents, hset k _⟩, hother⟩
      rw [Session.call, hrep.files k, OpenFile.write, hwrite]
      rfl

theorem run_refines (h : hdr.Describes n sectors)
    (hinj : ∀ i j, i * sectorSize < n → j * sectorSize < n → sectors i = sectors j → i = j)
    {calls : List (Call m)} (hrep : Represents hdr sectors s a)
    (hdomain : a.AllInDomain calls) :
    ∃ s', s.run calls = .ok ((a.run calls).1, s') ∧ Represents hdr sectors s' (a.run calls).2 ∧
      ∀ sector, (∀ i, i * sectorSize < n → sectors i ≠ sector) →
        s'.disk sector = s.disk sector := by
  induction calls generalizing s a with
  | nil => exact ⟨s, rfl, hrep, fun _ _ => rfl⟩
  | cons call calls ih =>
      obtain ⟨s₁, hcall, hrep₁, hother₁⟩ := call_refines h hinj hrep hdomain.1
      obtain ⟨s₂, hrun, hrep₂, hother₂⟩ := ih hrep₁ hdomain.2
      refine ⟨s₂, ?_, hrep₂, fun sector hsector => ?_⟩
      · rw [Session.run, hcall, ok_bind]
        dsimp only
        rw [hrun]
        rfl
      · rw [hother₂ sector hsector, hother₁ sector hsector]

/-! ### Writing and reading in chunks -/

def writeChunks (k : Fin m) (heap : Bytes) (chunks : List (List Byte)) : List (Call m) :=
  chunks.map fun chunk => .write k heap (fun i => chunk.getD i 0#8) chunk.length

def readChunks (k : Fin m) (into : Bytes) (sizes : List ℕ) : List (Call m) :=
  sizes.map fun size : ℕ => .read k into size

/-- One open file writes the chunks from the start on, and one reads. -/
def copyCalls (w r : Fin m) (heap into : Bytes) (chunks : List (List Byte)) (sizes : List ℕ) :
    List (Call m) :=
  .seek w 0 :: writeChunks w heap chunks ++ .seek r 0 :: readChunks r into sizes

def Reply.bytes : Reply → List Byte
  | .read result into => firstBytes into result.toNat
  | _ => []

/-- All the bytes that the calls have read, in order. -/
def bytesRead (replies : List Reply) : List Byte :=
  replies.flatMap Reply.bytes

namespace CursorFile

theorem run_append (a : CursorFile n m) (calls calls' : List (Call m)) :
    a.run (calls ++ calls') =
      ((a.run calls).1 ++ ((a.run calls).2.run calls').1, ((a.run calls).2.run calls').2) := by
  induction calls generalizing a with
  | nil => rfl
  | cons call calls ih =>
      rw [List.cons_append, run, run, ih]
      rfl

theorem cursors_write (a : CursorFile n m) (k : Fin m) (heap source : Bytes) (numBytes : ℤ) :
    (a.call (.write k heap source numBytes)).2.cursors k =
      a.cursors k + count n numBytes (a.cursors k) :=
  Function.update_self ..

theorem contents_write (a : CursorFile n m) (k : Fin m) (heap source : Bytes) (numBytes : ℤ) :
    (a.call (.write k heap source numBytes)).2.contents = overwrite a.contents (a.cursors k).toNat
      (firstBytes source (count n numBytes (a.cursors k)).toNat) :=
  rfl

theorem cursors_read (a : CursorFile n m) (k : Fin m) (into : Bytes) (numBytes : ℤ) :
    (a.call (.read k into numBytes)).2.cursors k =
      a.cursors k + count n numBytes (a.cursors k) :=
  Function.update_self ..

theorem firstBytes_getD (chunk : List Byte) :
    firstBytes (fun i => chunk.getD i 0#8) chunk.length = chunk := by
  refine List.ext_getElem (by simp [firstBytes]) fun k _ hk => ?_
  simp [firstBytes, hk]

theorem run_writeChunks (a : CursorFile n m) (k : Fin m) (heap : Bytes)
    {chunks : List (List Byte)} {position : ℕ} (hcursor : a.cursors k = position)
    (hfits : position + chunks.flatten.length ≤ n) :
    bytesRead (a.run (writeChunks k heap chunks)).1 = [] ∧
      (a.run (writeChunks k heap chunks)).2.contents =
        overwrite a.contents position chunks.flatten := by
  induction chunks generalizing a position with
  | nil => exact ⟨rfl, (overwrite_nil _ _).symm⟩
  | cons chunk chunks ih =>
      rw [List.flatten_cons, List.length_append] at hfits
      have hcount : count n chunk.length position = chunk.length := by
        rw [count]
        omega
      obtain ⟨a', ha'⟩ : ∃ a', a' = (a.call (.write k heap (fun i => chunk.getD i 0#8)
        chunk.length)).2 := ⟨_, rfl⟩
      have hcursor' : a'.cursors k = (position + chunk.length : ℕ) := by
        rw [ha', cursors_write, hcursor, hcount]
        push_cast
        rfl
      have hcontents : a'.contents = overwrite a.contents position chunk := by
        rw [ha', contents_write, hcursor, hcount, Int.toNat_natCast, Int.toNat_natCast,
          firstBytes_getD]
      obtain ⟨hbytes, hrest⟩ := ih a' hcursor' (by omega)
      rw [writeChunks, List.map_cons, run, ← ha'] at *
      refine ⟨hbytes, ?_⟩
      rw [List.flatten_cons, ← overwrite_append, ← hcontents]
      exact hrest

theorem firstBytes_fill (bytes : List Byte) (into : Bytes) :
    firstBytes (fill bytes into) bytes.length = bytes := by
  refine List.ext_getElem (by simp [firstBytes]) fun k _ hk => ?_
  simp [firstBytes, fill, hk]

theorem run_readChunks (a : CursorFile n m) (k : Fin m) (into : Bytes) (sizes : List ℕ)
    {position : ℕ} (hcursor : a.cursors k = position) :
    bytesRead (a.run (readChunks k into sizes)).1 = slice a.contents position sizes.sum := by
  induction sizes generalizing a position with
  | nil => rw [List.sum_nil, slice, List.take_zero]; rfl
  | cons size sizes ih =>
      have hcount : (count n size position).toNat =
          (slice a.contents position size).length := by
        rw [count, length_slice, a.length_eq]
        omega
      have hslice : slice a.contents position (count n size position).toNat =
          slice a.contents position size := by
        rw [hcount, length_slice, slice, slice, ← List.length_drop, ← List.take_take,
          List.take_length]
      obtain ⟨a', ha'⟩ : ∃ a', a' = (a.call (.read k into size)).2 := ⟨_, rfl⟩
      have hcursor' : a'.cursors k =
          (position + (slice a.contents position size).length : ℕ) := by
        rw [ha', cursors_read, hcursor]
        have hnonneg : 0 ≤ count n size position := le_max_left _ _
        push_cast
        omega
      have hcontents : a'.contents = a.contents := by rw [ha']; rfl
      have hbytes : (a.call (.read k into size)).1.bytes = slice a.contents position size := by
        rw [call, readAt, hcursor, Reply.bytes, Int.toNat_natCast, hslice, hcount, firstBytes_fill]
      rw [readChunks, List.map_cons, run, bytesRead, List.flatMap_cons, hbytes, ← ha',
        List.sum_cons, ← slice_append, ← hcontents]
      congr 1
      exact ih a' (hcontents ▸ hcursor')

/-- What the reads of a copy return. -/
theorem bytesRead_copyCalls (a : CursorFile n m) (w r : Fin m) (heap into : Bytes)
    {chunks : List (List Byte)} (sizes : List ℕ) (hfits : chunks.flatten.length ≤ n) :
    bytesRead (a.run (copyCalls w r heap into chunks sizes)).1 =
      slice (overwrite a.contents 0 chunks.flatten) 0 sizes.sum := by
  have hwrites := run_writeChunks (a.call (.seek w 0)).2 w heap
    (show (a.call (.seek w 0)).2.cursors w = ((0 : ℕ) : ℤ) from Function.update_self ..)
    (show 0 + chunks.flatten.length ≤ n by omega)
  rw [copyCalls, List.cons_append, run, run_append, run]
  generalize ((a.call (.seek w 0)).2.run (writeChunks w heap chunks)) = written at hwrites ⊢
  obtain ⟨replies, a'⟩ := written
  have hreads := run_readChunks (a'.call (.seek r 0)).2 r into sizes
    (show (a'.call (.seek r 0)).2.cursors r = ((0 : ℕ) : ℤ) from Function.update_self ..)
  rw [bytesRead, List.flatMap_cons, List.flatMap_append, List.flatMap_cons]
  rw [bytesRead] at hwrites hreads
  rw [hwrites.1, hreads]
  exact congrArg (slice · 0 sizes.sum) hwrites.2

end CursorFile

theorem openFile_is_byteArray (h : hdr.Describes n sectors)
    (hinj : ∀ i j, i * sectorSize < n → j * sectorSize < n → sectors i = sectors j → i = j)
    (s : Session m) (hfiles : ∀ k, (s.files k).hdr = hdr) :
    (∀ calls, (s.view sectors n).AllInDomain calls →
      ∃ s', s.run calls = .ok (((s.view sectors n).run calls).1, s') ∧
        s'.view sectors n = ((s.view sectors n).run calls).2 ∧
        (∀ k, (s'.files k).hdr = hdr) ∧
        ∀ sector, (∀ i, i * sectorSize < n → sectors i ≠ sector) →
          s'.disk sector = s.disk sector) ∧
    ∀ w r heap into chunks sizes, (s.view sectors n).AllInDomain
        (copyCalls w r heap into chunks sizes) →
      chunks.flatten.length ≤ n → chunks.flatten.length ≤ sizes.sum →
      ∃ replies s', s.run (copyCalls w r heap into chunks sizes) = .ok (replies, s') ∧
        (bytesRead replies).take chunks.flatten.length = chunks.flatten ∧
        (chunks.flatten.length = n → bytesRead replies = chunks.flatten) := by
  have hrep : Represents hdr sectors s (s.view sectors n) := by
    refine ⟨rfl, fun k => ?_⟩
    rw [← hfiles k]
    rfl
  refine ⟨fun calls hdomain => ?_, fun w r heap into chunks sizes hdomain hfits hsizes => ?_⟩
  · obtain ⟨s', hrun, hrep', hother⟩ := run_refines h hinj hrep hdomain
    exact ⟨s', hrun, hrep'.view_eq, fun k => by rw [hrep'.files k], hother⟩
  · obtain ⟨s', hrun, -, -⟩ := run_refines h hinj hrep hdomain
    refine ⟨_, s', hrun, ?_⟩
    rw [CursorFile.bytesRead_copyCalls _ w r heap into sizes hfits]
    have hread := slice_overwrite (s.view sectors n).contents 0
      (show 0 + chunks.flatten.length ≤ _ by rw [(s.view sectors n).length_eq]; omega)
    have htake : (slice (overwrite (s.view sectors n).contents 0 chunks.flatten) 0 sizes.sum).take
        chunks.flatten.length = chunks.flatten := by
      rw [slice, List.take_take, Nat.min_eq_left hsizes]
      exact hread
    refine ⟨htake, fun hall => ?_⟩
    rw [List.take_of_length_le] at htake
    · exact htake
    · rw [length_slice, length_overwrite, (s.view sectors n).length_eq]
      omega

/-- Two open files of one file of 1000 bytes in sectors 5 and 7. -/
def twoFiles : Session 2 where
  disk _ _ := 0#8
  files _ := ⟨⟨1000#32, 2#32, fun i => if i.val = 0 then 5#32 else 7#32⟩, 0⟩

/-- Three bytes, written in two chunks and read in three. -/
theorem openFile_is_byteArray_twoFiles :
    ∃ replies s', twoFiles.run (copyCalls 0 1 (fun _ => 0#8) (fun _ => 0#8) [[1#8], [2#8, 3#8]]
        [2, 0, 700]) = .ok (replies, s') ∧ (bytesRead replies).take 3 = [1#8, 2#8, 3#8] := by
  have hdescribes : FileHeader.Describes
      ⟨1000#32, 2#32, fun i => if i.val = 0 then 5#32 else 7#32⟩ 1000
      fun i => if i = 0 then ⟨5, by decide⟩ else ⟨7, by decide⟩ := by
    refine ⟨rfl, fun i hi => ?_⟩
    have hi : i = 0 ∨ i = 1 := by
      unfold sectorSize at hi
      omega
    rcases hi with rfl | rfl <;> rfl
  have hinj : ∀ i j : ℕ, i * sectorSize < 1000 → j * sectorSize < 1000 →
      (if i = 0 then ⟨5, by decide⟩ else ⟨7, by decide⟩ : Fin Disk.numSectors) =
        (if j = 0 then ⟨5, by decide⟩ else ⟨7, by decide⟩) → i = j := by
    intro i j hi hj
    unfold sectorSize at hi hj
    split_ifs with h₁ h₂ h₂
    · omega
    · intro heq
      cases heq
    · intro heq
      cases heq
    · omega
  obtain ⟨-, hcopy⟩ := openFile_is_byteArray hdescribes hinj twoFiles fun _ => rfl
  obtain ⟨replies, s', hrun, hbytes, -⟩ := hcopy 0 1 (fun _ => 0#8) (fun _ => 0#8)
    [[1#8], [2#8, 3#8]] [2, 0, 700] (by
      refine ⟨?_, ?_, ?_, ?_, ?_, ?_, ?_, trivial⟩ <;> decide) (by decide) (by decide)
  exact ⟨replies, s', hrun, hbytes⟩

end Nachos.OpenFile
