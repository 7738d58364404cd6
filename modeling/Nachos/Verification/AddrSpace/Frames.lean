import Nachos.Library.Runs
import Nachos.Model.AddrSpace
import Nachos.Verification.BitMap.Semantics

/-! # Ownership of physical frames

Threads run the two constructors and the destructor of `AddrSpace` in any order, with a
step boundary inside the critical section too: between the size check and each `Find`.
The lock invariant says which thread is in the critical section; the frame invariant says
that the marked bits are the frames of the live page tables and of the table that this
thread is building. -/

namespace Nachos

open Runs

/-! ## Bits cleared by the destructor -/

namespace AddrSpace

theorem map_physicalPage_table (frames : List ℤ) :
    (table frames).map TranslationEntry.physicalPage = frames := by
  apply List.ext_getElem
  · simp [table]
  · intro i h₁ h₂
    simp [table]

@[simp] theorem length_table (frames : List ℤ) : (table frames).length = frames.length := by
  simp [table]

@[simp] theorem frames_ofFrames (frames : List ℤ) : (ofFrames frames).frames = frames := by
  have hlen : (table frames).take frames.length = table frames :=
    List.take_of_length_le (length_table frames).le
  simp [AddrSpace.frames, ofFrames, hlen, map_physicalPage_table]

/-- The entries of the page table. -/
def entries (s : AddrSpace) : List TranslationEntry :=
  s.pageTable.getD []

/-- Clearing frames that are in range takes exactly these frames out of the map. -/
theorem foldlM_clear (frames : List ℤ) (b : BitMap numPhysPages)
    (hrange : ∀ f ∈ frames, 0 ≤ f ∧ f < numPhysPages) :
    ∃ b', frames.foldlM (fun b frame => (BitMap.index? frame).map b.clear) b = some b' ∧
      ∀ i, b'.test i = (b.test i && decide ((i.val : ℤ) ∉ frames)) := by
  induction frames generalizing b with
  | nil => exact ⟨b, rfl, by simp⟩
  | cons f frames ih =>
      have hf := hrange f (by simp)
      have hindex : BitMap.index? f =
          some (⟨f.toNat, by omega⟩ : Fin numPhysPages) := dif_pos hf
      obtain ⟨b', hfold, htest⟩ := ih (b.clear ⟨f.toNat, by omega⟩)
        (fun g hg => hrange g (by simp [hg]))
      refine ⟨b', ?_, fun i => ?_⟩
      · rw [List.foldlM_cons, hindex]
        exact hfold
      · rw [htest, BitMap.test_clear]
        have heq : (⟨f.toNat, by omega⟩ : Fin numPhysPages) = i ↔ (i.val : ℤ) = f := by
          rw [Fin.ext_iff]
          simp only
          omega
        by_cases hi : (i.val : ℤ) = f
        · simp [heq.mpr hi, hi]
        · simp [mt heq.mp hi, hi]

end AddrSpace

namespace BitMap

variable {n : ℕ}

theorem numClear_mono {b b' : BitMap n} (h : ∀ i, b'.test i = true → b.test i = true) :
    b.numClear ≤ b'.numClear := by
  rw [numClear_eq_card, numClear_eq_card]
  apply Finset.card_le_card
  intro i hi
  rw [mem_clearBits] at hi ⊢
  by_contra hset
  rw [h i (by simpa using hset)] at hi
  cases hi

end BitMap

/-! ## The invariant -/

/-- The phases between the return of `Acquire` and the matching `Release`. -/
def Phase.critical : Phase → Prop
  | .holding _ _ => True
  | .allocating _ _ => True
  | _ => False

/-- The frames found so far by the allocation loop. -/
def Phase.found : Phase → List ℤ
  | .allocating _ found => found
  | _ => []

namespace Loaders

def liveFrames (s : Loaders) : List ℤ :=
  s.live.flatMap AddrSpace.frames

/-- The frames of the page table under construction; only the owner of the lock has one. -/
def pending (s : Loaders) : List ℤ :=
  match s.addrLock.ownerThread with
  | none => []
  | some t => (s.phase t).found

structure LockInv (s : Loaders) : Prop where
  critical_iff : ∀ t, (s.phase t).critical ↔ s.addrLock.ownerThread = some t
  free_iff : s.addrLock.stat = .free ↔ s.addrLock.ownerThread = none
  free_queue : s.addrLock.ownerThread = none → s.addrLock.queue = []
  queue_waiting : ∀ t ∈ s.addrLock.queue, ∃ ctor noffH, s.phase t = .waiting ctor noffH
  queue_nodup : s.addrLock.queue.Nodup

structure FrameInv (s : Loaders) : Prop where
  range : ∀ f ∈ s.liveFrames ++ s.pending, 0 ≤ f ∧ f < numPhysPages
  nodup : (s.liveFrames ++ s.pending).Nodup
  marked : ∀ i : Fin numPhysPages,
    s.gPhysPageBitMap.test i = true ↔ (i.val : ℤ) ∈ s.liveFrames ++ s.pending
  room : ∀ t numPages found, s.phase t = .allocating numPages found →
    found.length ≤ numPages ∧ numPages ≤ found.length + s.gPhysPageBitMap.numClear
  whole : ∀ space ∈ s.live, space.numPages = space.entries.length

/-! ## Lock operations -/

theorem lockInv_create (garbage : Vector (BitVec 32) (divRoundUp numPhysPages bitsInWord)) :
    LockInv (create garbage) where
  critical_iff t := by simp [create, Lock.create, Phase.critical]
  free_iff := by simp [create, Lock.create]
  free_queue _ := rfl
  queue_waiting t ht := by simp [create, Lock.create] at ht
  queue_nodup := List.nodup_nil

theorem frameInv_create (garbage : Vector (BitVec 32) (divRoundUp numPhysPages bitsInWord)) :
    FrameInv (create garbage) where
  range f hf := by simp [create, liveFrames, pending, Lock.create] at hf
  nodup := by simp [create, liveFrames, pending, Lock.create]
  marked i := by simp [create, liveFrames, pending, Lock.create]
  room t numPages found h := by simp [create] at h
  whole space h := by simp [create] at h

/-- Entering a constructor: the lock is taken, or the thread joins the queue. -/
theorem LockInv.construct {s : Loaders} (h : LockInv s) {t : Tid} (hidle : s.phase t = .idle)
    (ctor : Ctor) (noffH : NoffHeader) :
    LockInv (s.construct t ctor noffH) ∧
      (s.construct t ctor noffH).pending = s.pending := by
  have hnot : s.addrLock.ownerThread ≠ some t := by
    rw [ne_eq, ← h.critical_iff, hidle]
    exact not_false
  have hunheld : ¬ s.addrLock.isHeldByCurrentThread t := hnot
  have hqueue : t ∉ s.addrLock.queue := by
    intro hmem
    obtain ⟨_, _, hw⟩ := h.queue_waiting t hmem
    rw [hidle] at hw
    cases hw
  by_cases hfree : s.addrLock.stat = .free
  · have hnone := h.free_iff.mp hfree
    have hacq : s.addrLock.acquire t =
        ({ s.addrLock with stat := .busy, ownerThread := some t }, true) := by
      rw [Lock.acquire, if_neg hunheld, if_pos hfree]
    rw [Loaders.construct, hacq]
    refine ⟨⟨fun u => ?_, ?_, ?_, fun u hu => ?_, h.queue_nodup⟩, ?_⟩
    · by_cases hu : u = t
      · subst hu
        simp [goto, Phase.critical]
      · have := h.critical_iff u
        simp only [hnone, reduceCtorEq, iff_false] at this
        simp [goto, hu, Ne.symm hu, this]
    · simp [goto]
    · simp [goto]
    · simp only [goto, h.free_queue hnone] at hu
      cases hu
    · simp [pending, goto, hnone, Phase.found]
  · have hacq : s.addrLock.acquire t =
        ({ s.addrLock with queue := s.addrLock.queue ++ [t] }, false) := by
      rw [Lock.acquire, if_neg hunheld, if_neg hfree]
    rw [Loaders.construct, hacq]
    refine ⟨⟨fun u => ?_, ?_, ?_, fun u hu => ?_, ?_⟩, ?_⟩
    · by_cases hu : u = t
      · subst hu
        simp [goto, Phase.critical, hnot]
      · simpa [goto, hu] using h.critical_iff u
    · simpa [goto] using h.free_iff
    · intro hnone
      exact absurd (h.free_iff.mpr hnone) hfree
    · by_cases hu' : u = t
      · subst hu'
        exact ⟨ctor, noffH, by simp [goto]⟩
      · have hmem : u ∈ s.addrLock.queue := by
          simpa [goto, hu'] using hu
        simpa [goto, hu'] using h.queue_waiting u hmem
    · simpa [goto, List.nodup_append, hqueue] using
        ⟨h.queue_nodup, fun a ha hat => hqueue (hat ▸ ha)⟩
    · cases howner : s.addrLock.ownerThread with
      | none => simp [pending, goto, howner]
      | some u =>
          have hu : u ≠ t := fun hu => hnot (by rw [howner, hu])
          simp [pending, goto, howner, hu]

@[simp] theorem gPhysPageBitMap_goto (s : Loaders) (t : Tid) (phase : Phase) :
    (s.goto t phase).gPhysPageBitMap = s.gPhysPageBitMap := rfl

@[simp] theorem live_goto (s : Loaders) (t : Tid) (phase : Phase) :
    (s.goto t phase).live = s.live := rfl

@[simp] theorem addrLock_goto (s : Loaders) (t : Tid) (phase : Phase) :
    (s.goto t phase).addrLock = s.addrLock := rfl

/-- A `Release` by a thread that does not own the lock has no effect. -/
theorem release_of_not_owner (s : Loaders) {t : Tid}
    (h : s.addrLock.ownerThread ≠ some t) : s.release t = s := by
  have hunheld : ¬ s.addrLock.isHeldByCurrentThread t := h
  have hrel : s.addrLock.release t = (s.addrLock, none) := by
    rw [Lock.release, if_pos hunheld]
  rw [release, hrel]

/-- What leaving the critical section gives: the invariant of the lock, no page table
under construction, and no other change. -/
structure Left (s s' : Loaders) : Prop where
  lockInv : LockInv s'
  pending : s'.pending = []
  bitmap : s'.gPhysPageBitMap = s.gPhysPageBitMap
  live : s'.live = s.live
  no_loop : ∀ u numPages found, s'.phase u ≠ .allocating numPages found

theorem LockInv.leave {s : Loaders} (h : LockInv s) {t : Tid}
    (howner : s.addrLock.ownerThread = some t) (phase : Phase) (hcrit : ¬ phase.critical) :
    Left s ((s.release t).goto t phase) := by
  have hheld : s.addrLock.isHeldByCurrentThread t := howner
  have honly (u : Tid) (hu : u ≠ t) : ¬ (s.phase u).critical := by
    rw [h.critical_iff, howner]
    simpa using Ne.symm hu
  have htqueue : t ∉ s.addrLock.queue := by
    intro hmem
    obtain ⟨_, _, hw⟩ := h.queue_waiting t hmem
    have := (h.critical_iff t).mpr howner
    rw [hw] at this
    exact this
  have hnoLoop {p : Phase} (hp : ¬ p.critical) (numPages : ℕ) (found : List ℤ) :
      p ≠ .allocating numPages found := by
    rintro rfl
    exact hp trivial
  cases hqueue : s.addrLock.queue with
  | nil =>
      have hrel : s.addrLock.release t =
          ({ s.addrLock with stat := .free, ownerThread := none }, none) := by
        simp [Lock.release, hheld, hqueue]
      rw [release, hrel]
      refine ⟨⟨fun u => ?_, ?_, ?_, fun u hu => ?_, ?_⟩, ?_, rfl, rfl, fun u n found => ?_⟩
      · by_cases hu : u = t
        · subst hu
          simpa [goto] using hcrit
        · simpa [goto, hu] using honly u hu
      · simp [goto]
      · simp [goto, hqueue]
      · simp [goto, hqueue] at hu
      · simp [goto, hqueue]
      · simp [Loaders.pending, goto]
      · by_cases hu : u = t
        · subst hu
          simpa [goto] using hnoLoop hcrit n found
        · simpa [goto, hu] using hnoLoop (honly u hu) n found
  | cons v queue =>
      have hv : v ≠ t := fun hv => htqueue (by simp [hqueue, hv])
      obtain ⟨ctor, noffH, hwait⟩ := h.queue_waiting v (by simp [hqueue])
      have hnodup := h.queue_nodup
      rw [hqueue, List.nodup_cons] at hnodup
      have hrel : s.addrLock.release t =
          ({ s.addrLock with queue := queue, ownerThread := some v }, some v) := by
        simp [Lock.release, hheld, hqueue]
      rw [release, hrel]
      simp only [hwait]
      refine ⟨⟨fun u => ?_, ?_, ?_, fun u hu => ?_, hnodup.2⟩, ?_, rfl, rfl, fun u n found => ?_⟩
      · by_cases hu : u = t
        · subst hu
          simp [goto, hcrit, hv]
        · by_cases huv : u = v
          · subst huv
            simp [goto, hu, Phase.critical]
          · simpa [goto, hu, huv, Ne.symm huv] using honly u hu
      · have hbusy : s.addrLock.stat ≠ .free := by
          intro hfree
          rw [h.free_iff.mp hfree] at howner
          cases howner
        simpa [goto] using hbusy
      · simp [goto]
      · have hu' : u ∈ queue := hu
        have hut : u ≠ t := fun hut => htqueue (by simp [hqueue, ← hut, hu'])
        have huv : u ≠ v := fun huv => hnodup.1 (huv ▸ hu')
        simpa [goto, hut, huv] using h.queue_waiting u (by simp [hqueue, hu'])
      · simp [Loaders.pending, goto, hv, Phase.found]
      · by_cases hu : u = t
        · subst hu
          simpa [goto] using hnoLoop hcrit n found
        · by_cases huv : u = v
          · subst huv
            simp [goto, hu]
          · simpa [goto, hu, huv] using hnoLoop (honly u hu) n found

/-- Moving to a phase with the same place outside or inside the critical section. -/
theorem LockInv.goto {s : Loaders} (h : LockInv s) {t : Tid} {phase : Phase}
    (hsame : phase.critical ↔ (s.phase t).critical) (hq : t ∉ s.addrLock.queue) :
    LockInv (s.goto t phase) where
  critical_iff u := by
    by_cases hu : u = t
    · subst hu
      simpa [Loaders.goto, hsame] using h.critical_iff u
    · simpa [Loaders.goto, hu] using h.critical_iff u
  free_iff := h.free_iff
  free_queue := h.free_queue
  queue_waiting u hu := by
    have hut : u ≠ t := fun hut => hq (hut ▸ hu)
    simpa [Loaders.goto, hut] using h.queue_waiting u hu
  queue_nodup := h.queue_nodup

theorem LockInv.not_queued {s : Loaders} (h : LockInv s) {t : Tid}
    (hp : ∀ ctor noffH, s.phase t ≠ .waiting ctor noffH) : t ∉ s.addrLock.queue := by
  intro hmem
  obtain ⟨ctor, noffH, hw⟩ := h.queue_waiting t hmem
  exact hp ctor noffH hw

/-! ## Steps keep the frame invariant -/

/-- The frame invariant reads the bitmap, the live address spaces, the table under
construction and the threads in the allocation loop. -/
theorem FrameInv.congr {s s' : Loaders} (h : FrameInv s)
    (hbitmap : s'.gPhysPageBitMap = s.gPhysPageBitMap) (hlive : s'.live = s.live)
    (hpending : s'.pending = s.pending)
    (hloop : ∀ t numPages found, s'.phase t = .allocating numPages found →
      s.phase t = .allocating numPages found) : FrameInv s' where
  range := by simpa only [liveFrames, hlive, hpending] using h.range
  nodup := by simpa only [liveFrames, hlive, hpending] using h.nodup
  marked := by simpa only [liveFrames, hlive, hpending, hbitmap] using h.marked
  room t numPages found ht := by
    rw [hbitmap]
    exact h.room t numPages found (hloop t numPages found ht)
  whole := by simpa only [hlive] using h.whole

/-- Adding a finished address space whose frames were pending before. -/
theorem FrameInv.publish {s s' : Loaders} (h : FrameInv s) (space : AddrSpace)
    (hbitmap : s'.gPhysPageBitMap = s.gPhysPageBitMap) (hlive : s'.live = s.live ++ [space])
    (hpending : s.pending = space.frames ++ s'.pending)
    (hwhole : space.numPages = space.entries.length)
    (hloop : ∀ t numPages found, s'.phase t = .allocating numPages found →
      s.phase t = .allocating numPages found) : FrameInv s' := by
  have hframes : s'.liveFrames ++ s'.pending = s.liveFrames ++ s.pending := by
    simp [liveFrames, hlive, hpending]
  refine ⟨?_, ?_, ?_, fun t n found ht => ?_, fun sp hsp => ?_⟩
  · simpa only [hframes] using h.range
  · simpa only [hframes] using h.nodup
  · simpa only [hframes, hbitmap] using h.marked
  · rw [hbitmap]
    exact h.room t n found (hloop t n found ht)
  · rw [hlive] at hsp
    rcases List.mem_append.mp hsp with hold | hnew
    · exact h.whole sp hold
    · rw [List.mem_singleton.mp hnew]
      exact hwhole

theorem pending_of_owner {s : Loaders} {t : Tid} (h : s.addrLock.ownerThread = some t) :
    s.pending = (s.phase t).found := by
  simp [pending, h]

theorem pending_goto_owner {s : Loaders} {t : Tid} {phase : Phase}
    (h : s.addrLock.ownerThread = some t) : (s.goto t phase).pending = phase.found := by
  simp [pending, goto, h]

/-- One `Find` of the loop takes a clear frame and never fails. -/
theorem FrameInv.find {s : Loaders} (hf : FrameInv s) {t : Tid}
    {numPages : ℕ} {found : List ℤ} (hphase : s.phase t = .allocating numPages found)
    (hlt : found.length < numPages) :
    ∃ i : Fin numPhysPages, s.gPhysPageBitMap.find = ((i.val : ℤ), s.gPhysPageBitMap.mark i) ∧
      s.gPhysPageBitMap.test i = false := by
  have hroom := (hf.room t numPages found hphase).2
  have hpos : 0 < s.gPhysPageBitMap.numClear := by omega
  obtain ⟨j, hj⟩ := (BitMap.numClear_pos_iff _).mp hpos
  generalize hres : s.gPhysPageBitMap.find = result
  cases hres ▸ s.gPhysPageBitMap.find_spec with
  | found i hclear hleast => exact ⟨i, rfl, hclear⟩
  | full hfull =>
      rw [hfull j] at hj
      cases hj

theorem keep_allocate {s : Loaders} (hl : LockInv s) (hf : FrameInv s) {t : Tid}
    {numPages : ℕ} {found : List ℤ} (hphase : s.phase t = .allocating numPages found) :
    LockInv (s.allocate t numPages found) ∧ FrameInv (s.allocate t numPages found) := by
  have howner : s.addrLock.ownerThread = some t := by
    rw [← hl.critical_iff, hphase]
    trivial
  have hpend : s.pending = found := by
    rw [pending_of_owner howner, hphase]
    rfl
  have hroom := hf.room t numPages found hphase
  unfold Loaders.allocate
  by_cases hlt : found.length < numPages
  · obtain ⟨i, hfind, hclear⟩ := hf.find hphase hlt
    rw [if_pos hlt, hfind]
    have hnew : (i.val : ℤ) ∉ s.liveFrames ++ found := by
      rw [← hpend, ← hf.marked i, hclear]
      exact Bool.false_ne_true
    have hcount := s.gPhysPageBitMap.numClear_mark i hclear
    have hpend' : (Loaders.goto { s with gPhysPageBitMap := s.gPhysPageBitMap.mark i } t
        (.allocating numPages (found ++ [(i.val : ℤ)]))).pending = found ++ [(i.val : ℤ)] :=
      pending_goto_owner (s := { s with gPhysPageBitMap := s.gPhysPageBitMap.mark i }) howner
    have hlive' : (Loaders.goto { s with gPhysPageBitMap := s.gPhysPageBitMap.mark i } t
        (.allocating numPages (found ++ [(i.val : ℤ)]))).liveFrames = s.liveFrames := rfl
    refine ⟨?_, ⟨?_, ?_, fun j => ?_, fun u n fs hu => ?_, hf.whole⟩⟩
    · refine LockInv.goto (s := { s with gPhysPageBitMap := s.gPhysPageBitMap.mark i })
        ⟨hl.critical_iff, hl.free_iff, hl.free_queue, hl.queue_waiting, hl.queue_nodup⟩ ?_ ?_
      · rw [hphase]
        exact Iff.rfl
      · exact hl.not_queued (by simp [hphase])
    · rw [hpend', hlive', ← List.append_assoc]
      intro f hfmem
      rcases List.mem_append.mp hfmem with hold | hi
      · exact hf.range f (by rw [hpend]; exact hold)
      · rw [List.mem_singleton.mp hi]
        have := i.isLt
        omega
    · rw [hpend', hlive', ← List.append_assoc, List.nodup_append]
      refine ⟨hpend ▸ hf.nodup, by simp, ?_⟩
      intro a ha c hc hac
      rw [List.mem_singleton.mp hc] at hac
      exact hnew (hac ▸ ha)
    · rw [hpend', hlive', ← List.append_assoc, gPhysPageBitMap_goto, BitMap.test_mark]
      have hold := hf.marked j
      rw [hpend] at hold
      by_cases hij : i = j
      · subst hij
        simp
      · have hne : ¬ (j.val : ℤ) = i.val := by
          intro heq
          exact hij (Fin.ext (by omega))
        simp only [hij, decide_false, Bool.false_or, hold]
        simp [hne]
    · by_cases hu' : u = t
      · subst hu'
        simp only [Loaders.goto, Function.update_self, Phase.allocating.injEq] at hu
        obtain ⟨rfl, rfl⟩ := hu
        simp only [gPhysPageBitMap_goto, List.length_append, List.length_singleton]
        omega
      · simp only [Loaders.goto, Function.update_of_ne hu'] at hu
        have hcrit := (hl.critical_iff u).mp (by rw [hu]; trivial)
        rw [howner] at hcrit
        exact absurd (Option.some.inj hcrit).symm hu'
  · rw [if_neg hlt]
    have hleft := hl.leave howner .idle not_false
    refine ⟨⟨hleft.lockInv.critical_iff, hleft.lockInv.free_iff, hleft.lockInv.free_queue,
      hleft.lockInv.queue_waiting, hleft.lockInv.queue_nodup⟩, ?_⟩
    refine hf.publish (.ofFrames found) hleft.bitmap ?_ ?_ ?_ ?_
    · simp only [hleft.live]
    · have hnone : Loaders.pending { (s.release t).goto t .idle with
          live := ((s.release t).goto t .idle).live ++ [.ofFrames found] } = [] := hleft.pending
      rw [hnone, hpend, AddrSpace.frames_ofFrames, List.append_nil]
    · simp [AddrSpace.ofFrames, AddrSpace.entries]
    · intro u n fs hu
      exact absurd hu (hleft.no_loop u n fs)

theorem keep_check {s s' : Loaders} (hl : LockInv s) (hf : FrameInv s) {t : Tid}
    {ctor : Ctor} {noffH : NoffHeader} (hphase : s.phase t = .holding ctor noffH)
    (hcheck : s.check t ctor noffH = some s') : LockInv s' ∧ FrameInv s' := by
  have howner : s.addrLock.ownerThread = some t := by
    rw [← hl.critical_iff, hphase]
    trivial
  have hpend : s.pending = [] := by
    rw [pending_of_owner howner, hphase]
    rfl
  -- both constructors go on to the allocation loop in the same way
  have henter (hroom : ¬ s.gPhysPageBitMap.numClear < noffH.numPages) :
      LockInv (s.goto t (.allocating noffH.numPages [])) ∧
        FrameInv (s.goto t (.allocating noffH.numPages [])) := by
    have hpend' : (s.goto t (.allocating noffH.numPages [])).pending = s.pending := by
      rw [hpend]
      exact pending_goto_owner howner
    refine ⟨hl.goto ?_ ?_, ⟨?_, ?_, ?_, fun u n found hu => ?_, hf.whole⟩⟩
    · rw [hphase]
      exact Iff.rfl
    · exact hl.not_queued (by simp [hphase])
    · rw [hpend']
      exact hf.range
    · rw [hpend']
      exact hf.nodup
    · rw [hpend']
      exact hf.marked
    · by_cases hu' : u = t
      · subst hu'
        simp only [Loaders.goto, Function.update_self, Phase.allocating.injEq] at hu
        obtain ⟨rfl, rfl⟩ := hu
        simp only [gPhysPageBitMap_goto, List.length_nil]
        omega
      · simp only [Loaders.goto, Function.update_of_ne hu'] at hu
        exact hf.room u n found hu
  unfold check at hcheck
  cases ctor with
  | fromFile =>
      simp only at hcheck
      split at hcheck
      · cases hcheck
      · split at hcheck
        · cases hcheck
          have hleft := hl.leave howner .idle not_false
          refine ⟨⟨hleft.lockInv.critical_iff, hleft.lockInv.free_iff, hleft.lockInv.free_queue,
            hleft.lockInv.queue_waiting, hleft.lockInv.queue_nodup⟩, ?_⟩
          refine hf.publish ⟨0, none⟩ hleft.bitmap ?_ ?_ rfl ?_
          · simp only [hleft.live]
          · have hnone : Loaders.pending { (s.release t).goto t .idle with
                live := ((s.release t).goto t .idle).live ++ [⟨0, none⟩] } = [] := hleft.pending
            rw [hnone, hpend]
            rfl
          · intro u n fs hu
            exact absurd hu (hleft.no_loop u n fs)
        · cases hcheck
          exact henter ‹_›
  | fromName =>
      simp only at hcheck
      split at hcheck
      · cases hcheck
        have hleft := hl.leave howner .again not_false
        refine ⟨hleft.lockInv, hf.congr hleft.bitmap hleft.live ?_ ?_⟩
        · rw [hleft.pending, hpend]
        · intro u n fs hu
          exact absurd hu (hleft.no_loop u n fs)
      · cases hcheck
        exact henter ‹_›

/-- The second `Release` of `AddrSpace(char*)` is made by a thread that no longer owns the
lock. -/
theorem keep_releaseAgain {s : Loaders} (hl : LockInv s) (hf : FrameInv s) {t : Tid}
    (hphase : s.phase t = .again) :
    LockInv (s.releaseAgain t) ∧ FrameInv (s.releaseAgain t) := by
  have hnot : s.addrLock.ownerThread ≠ some t := by
    rw [ne_eq, ← hl.critical_iff, hphase]
    exact not_false
  rw [releaseAgain, release_of_not_owner s hnot]
  have hlock : LockInv (s.goto t .idle) :=
    hl.goto (by rw [hphase]; exact Iff.rfl) (hl.not_queued (by simp [hphase]))
  have hpend : (s.goto t .idle).pending = s.pending := by
    cases howner : s.addrLock.ownerThread with
    | none => simp [pending, howner]
    | some u =>
        have hu : u ≠ t := fun hu => hnot (by rw [howner, hu])
        simp [pending, howner, Loaders.goto, hu]
  refine ⟨⟨hlock.critical_iff, hlock.free_iff, hlock.free_queue, hlock.queue_waiting,
    hlock.queue_nodup⟩, ?_⟩
  refine hf.publish (.ofFrames []) rfl rfl ?_ rfl fun u n found hu => ?_
  · rw [AddrSpace.frames_ofFrames, List.nil_append]
    exact hpend.symm
  · by_cases hu' : u = t
    · subst hu'
      simp [Loaders.goto] at hu
    · simpa [Loaders.goto, hu'] using hu

theorem keep_construct {s : Loaders} (hl : LockInv s) (hf : FrameInv s) {t : Tid}
    (hphase : s.phase t = .idle) (ctor : Ctor) (noffH : NoffHeader) :
    LockInv (s.construct t ctor noffH) ∧ FrameInv (s.construct t ctor noffH) := by
  obtain ⟨hlock, hpend⟩ := hl.construct hphase ctor noffH
  refine ⟨hlock, hf.congr ?_ ?_ hpend fun u n found hu => ?_⟩
  · unfold Loaders.construct
    split <;> rfl
  · unfold Loaders.construct
    split <;> rfl
  · by_cases hu' : u = t
    · subst hu'
      unfold Loaders.construct at hu
      split at hu <;> simp [Loaders.goto] at hu
    · unfold Loaders.construct at hu
      split at hu <;> simpa [Loaders.goto, hu'] using hu

/-- The destructor gives back the frames of its own table and no others. -/
theorem keep_destroy {s : Loaders} (hl : LockInv s) (hf : FrameInv s) {i : ℕ}
    {space : AddrSpace} (hspace : s.live[i]? = some space) {b : BitMap numPhysPages}
    (hdestroy : space.destroy s.gPhysPageBitMap = some b) :
    LockInv { s with gPhysPageBitMap := b, live := s.live.eraseIdx i } ∧
      FrameInv { s with gPhysPageBitMap := b, live := s.live.eraseIdx i } := by
  obtain ⟨hi, hget⟩ := List.getElem?_eq_some_iff.mp hspace
  have hperm : (space.frames ++ (s.live.eraseIdx i).flatMap AddrSpace.frames).Perm
      s.liveFrames := by
    have h := (List.getElem_cons_eraseIdx_perm hi).flatMap_right AddrSpace.frames
    rw [hget] at h
    exact h
  have hperm' : (space.frames ++ ((s.live.eraseIdx i).flatMap AddrSpace.frames ++
      s.pending)).Perm (s.liveFrames ++ s.pending) := by
    rw [← List.append_assoc]
    exact hperm.append_right s.pending
  have hnodup := hperm'.nodup_iff.mpr hf.nodup
  rw [List.nodup_append] at hnodup
  have hrange (f : ℤ) (hmem : f ∈ space.frames) : 0 ≤ f ∧ f < numPhysPages :=
    hf.range f (hperm'.mem_iff.mp (List.mem_append_left _ hmem))
  obtain ⟨b', hb', htest⟩ := AddrSpace.foldlM_clear space.frames s.gPhysPageBitMap hrange
  have hb : b' = b := Option.some.inj (hb'.symm.trans hdestroy)
  subst hb
  refine ⟨⟨hl.critical_iff, hl.free_iff, hl.free_queue, hl.queue_waiting, hl.queue_nodup⟩,
    ⟨fun f hmem => ?_, hnodup.2.1, fun j => ?_, fun t n found ht => ?_, fun sp hsp => ?_⟩⟩
  · exact hf.range f (hperm'.mem_iff.mp (List.mem_append_right _ hmem))
  · have hold := hf.marked j
    rw [← hperm'.mem_iff, List.mem_append] at hold
    have hdisj : (j.val : ℤ) ∈ space.frames →
        (j.val : ℤ) ∉ (s.live.eraseIdx i).flatMap AddrSpace.frames ++ s.pending :=
      fun h₁ h₂ => hnodup.2.2 _ h₁ _ h₂ rfl
    change b'.test j = true ↔
      (j.val : ℤ) ∈ (s.live.eraseIdx i).flatMap AddrSpace.frames ++ s.pending
    rw [htest, Bool.and_eq_true, hold, decide_eq_true_eq]
    tauto
  · have hmono : s.gPhysPageBitMap.numClear ≤ b'.numClear := BitMap.numClear_mono (fun j hj => by
      rw [htest, Bool.and_eq_true] at hj
      exact hj.1)
    have := hf.room t n found ht
    change found.length ≤ n ∧ n ≤ found.length + b'.numClear
    omega
  · exact hf.whole sp (List.mem_of_mem_eraseIdx hsp)

theorem keep_step {s s' : Loaders} {label : LoaderLabel} (hstep : s.step label = some s')
    (h : LockInv s ∧ FrameInv s) : LockInv s' ∧ FrameInv s' := by
  obtain ⟨hl, hf⟩ := h
  cases label with
  | construct t ctor noffH =>
      simp only [step] at hstep
      split at hstep
      · rename_i hidle
        split at hstep
        · cases hstep
          exact keep_construct hl hf hidle ctor noffH
        · cases hstep
      · cases hstep
  | «continue» t =>
      simp only [step] at hstep
      split at hstep
      · cases hstep
      · cases hstep
      · rename_i ctor noffH hphase
        exact keep_check hl hf hphase hstep
      · rename_i numPages found hphase
        cases hstep
        exact keep_allocate hl hf hphase
      · rename_i hphase
        cases hstep
        exact keep_releaseAgain hl hf hphase
  | destroy i =>
      simp only [step] at hstep
      split at hstep
      · cases hstep
      · rename_i space hspace
        obtain ⟨b, hdestroy, rfl⟩ := Option.map_eq_some_iff.mp hstep
        exact keep_destroy hl hf hspace hdestroy

/-! ## Frame ownership -/

/-- The physical pages in the entries of all live page tables. -/
def pagesInUse (s : Loaders) : List ℤ :=
  s.live.flatMap fun space => space.entries.map TranslationEntry.physicalPage

/-- The frames belong to the live address spaces, and the allocation loop never runs out. -/
structure FrameOwnership (s : Loaders) : Prop where
  range : ∀ f ∈ s.pagesInUse, 0 ≤ f ∧ f < numPhysPages
  once : s.pagesInUse.Nodup
  marked : s.addrLock.stat = .free → ∀ i : Fin numPhysPages,
    s.gPhysPageBitMap.test i = true ↔ (i.val : ℤ) ∈ s.pagesInUse
  found : ∀ t numPages found, s.phase t = .allocating numPages found →
    found.length < numPages → s.gPhysPageBitMap.find.1 ≠ -1

theorem pagesInUse_eq_liveFrames {s : Loaders} (h : FrameInv s) : s.pagesInUse = s.liveFrames := by
  unfold pagesInUse liveFrames
  apply List.flatMap_congr
  intro space hspace
  have htake : (space.pageTable.getD []).take space.numPages = space.pageTable.getD [] :=
    List.take_of_length_le (h.whole space hspace).ge
  rw [AddrSpace.frames, htake]
  rfl

theorem frameOwnership_of_inv {s : Loaders} (hl : LockInv s) (hf : FrameInv s) :
    FrameOwnership s := by
  have hpages := pagesInUse_eq_liveFrames hf
  refine ⟨fun f hmem => ?_, ?_, fun hfree i => ?_, fun t n found hphase hlt => ?_⟩
  · rw [hpages] at hmem
    exact hf.range f (List.mem_append_left _ hmem)
  · rw [hpages]
    exact (List.nodup_append.mp hf.nodup).1
  · have hpend : s.pending = [] := by
      simp [pending, hl.free_iff.mp hfree]
    rw [hf.marked i, hpend, List.append_nil, hpages]
  · obtain ⟨i, hfind, _⟩ := hf.find hphase hlt
    rw [hfind]
    simp only
    omega

/-- Along every run of constructions and destructions by any threads, the frames in the
live page tables are in range and distinct, they are the marked frames whenever the lock is
free, and `Find` never fails inside the allocation loop. -/
theorem allStates_frameOwnership
    (garbage : Vector (BitVec 32) (divRoundUp numPhysPages bitsInWord))
    (labels : List LoaderLabel) :
    AllStates step FrameOwnership (create garbage) labels := by
  have hinv : AllStates step (fun s => LockInv s ∧ FrameInv s) (create garbage) labels :=
    allStates_of_keep (fun _ _ _ => keep_step) labels
      ⟨lockInv_create garbage, frameInv_create garbage⟩
  exact hinv.mono fun s h => frameOwnership_of_inv h.1 h.2

end Loaders

end Nachos
