import Mathlib.Tactic

/-! # Data refinement

An object is called again and again; a call returns a reply, or it fails. It is compared with
a specification whose calls do not fail and which works on values of its own. -/

namespace DataRefinement

variable {ι ρ σ τ υ ε : Type*}

/-- The calls one after the other, with their replies. -/
def run (call : ι → σ → Except ε (ρ × σ)) : List ι → σ → Except ε (List ρ × σ)
  | [], s => .ok ([], s)
  | i :: calls, s =>
      match call i s with
      | .error e => .error e
      | .ok (reply, s') =>
          match run call calls s' with
          | .error e => .error e
          | .ok (replies, s'') => .ok (reply :: replies, s'')

def specRun (spec : ι → τ → ρ × τ) : List ι → τ → List ρ × τ
  | [], t => ([], t)
  | i :: calls, t =>
      let result := specRun spec calls (spec i t).2
      ((spec i t).1 :: result.1, result.2)

/-- The guard admits every call in the state in which it is made. -/
def Admitted (call : ι → σ → Except ε (ρ × σ)) (guard : ι → σ → Prop) : List ι → σ → Prop
  | [], _ => True
  | i :: calls, s =>
      guard i s ∧ ∀ reply s', call i s = .ok (reply, s') → Admitted call guard calls s'

/-- A call in related states does not fail, replies as the specification does and leaves
related states. -/
def Refines (call : ι → σ → Except ε (ρ × σ)) (spec : ι → τ → ρ × τ) (guard : ι → σ → Prop)
    (R : σ → τ → Prop) : Prop :=
  ∀ i s t, guard i s → R s t → ∃ s', call i s = .ok ((spec i t).1, s') ∧ R s' (spec i t).2

variable {call : ι → σ → Except ε (ρ × σ)} {spec : ι → τ → ρ × τ} {guard : ι → σ → Prop}
  {R : σ → τ → Prop}

/-- A run can be checked against a decidable guard. -/
instance Admitted.decidable [∀ i s, Decidable (guard i s)] :
    ∀ (calls : List ι) (s : σ), Decidable (Admitted call guard calls s)
  | [], _ => .isTrue trivial
  | i :: calls, s =>
      match h : call i s with
      | .error e => decidable_of_iff (guard i s) <| by
          constructor
          · intro hguard
            exact ⟨hguard, fun _ _ hok => by cases h.symm.trans hok⟩
          · exact And.left
      | .ok (reply, s') =>
          have : Decidable (Admitted call guard calls s') := Admitted.decidable calls s'
          decidable_of_iff (guard i s ∧ Admitted call guard calls s') <| by
            constructor
            · rintro ⟨hguard, hrest⟩
              refine ⟨hguard, fun _ _ hok => ?_⟩
              cases h.symm.trans hok
              exact hrest
            · rintro ⟨hguard, hrest⟩
              exact ⟨hguard, hrest reply s' h⟩

/-- Calls that are always admitted. -/
theorem admitted_of_forall (hguard : ∀ i s, guard i s) (calls : List ι) (s : σ) :
    Admitted call guard calls s := by
  induction calls generalizing s with
  | nil => trivial
  | cons i calls ih => exact ⟨hguard i s, fun _ s' _ => ih s'⟩

/-- A refinement lasts as long as the calls are admitted. -/
theorem Refines.run (h : Refines call spec guard R) {calls : List ι} {s : σ} {t : τ}
    (hadmitted : Admitted call guard calls s) (hR : R s t) :
    ∃ s', run call calls s = .ok ((specRun spec calls t).1, s') ∧
      R s' (specRun spec calls t).2 := by
  induction calls generalizing s t with
  | nil => exact ⟨s, rfl, hR⟩
  | cons i calls ih =>
      obtain ⟨s₁, hcall, hR₁⟩ := h i s t hadmitted.1 hR
      obtain ⟨s', hrun, hR'⟩ := ih (hadmitted.2 _ _ hcall) hR₁
      refine ⟨s', ?_, hR'⟩
      rw [DataRefinement.run, hcall]
      dsimp only
      rw [hrun]
      rfl

/-- The second of two refinements starts from the specification of the first. -/
theorem Refines.trans {spec' : ι → υ → ρ × υ} {Q : τ → υ → Prop} {guard' : ι → τ → Prop}
    (h : Refines call spec guard R)
    (h' : Refines (fun i t => (.ok (spec i t) : Except ε (ρ × τ))) spec' guard' Q)
    (hguard : ∀ i s t, R s t → guard i s → guard' i t) :
    Refines call spec' guard fun s u => ∃ t, R s t ∧ Q t u := by
  rintro i s u hi ⟨t, hR, hQ⟩
  obtain ⟨s', hcall, hR'⟩ := h i s t hi hR
  obtain ⟨t', hspec, hQ'⟩ := h' i t u (hguard i s t hR hi) hQ
  have hspec := Except.ok.inj hspec
  rw [hspec] at hcall hR'
  exact ⟨s', hcall, t', hR', hQ'⟩

theorem specRun_map {κ : Type*} (f : κ → ι) (calls : List κ) (t : τ) :
    specRun spec (calls.map f) t = specRun (fun c => spec (f c)) calls t := by
  induction calls generalizing t with
  | nil => rfl
  | cons c calls ih => rw [List.map_cons, specRun, specRun, ih]

/-- A refinement between two specifications. -/
theorem specRun_related (spec : ι → τ → ρ × τ) (spec' : ι → υ → ρ × υ) (Q : τ → υ → Prop)
    (h : ∀ i t u, Q t u → (spec i t).1 = (spec' i u).1 ∧ Q (spec i t).2 (spec' i u).2)
    (calls : List ι) {t : τ} {u : υ} (hQ : Q t u) :
    (specRun spec calls t).1 = (specRun spec' calls u).1 ∧
      Q (specRun spec calls t).2 (specRun spec' calls u).2 := by
  induction calls generalizing t u with
  | nil => exact ⟨rfl, hQ⟩
  | cons i calls ih =>
      obtain ⟨hreply, hQ'⟩ := h i t u hQ
      obtain ⟨hreplies, hlast⟩ := ih hQ'
      exact ⟨congrArg₂ List.cons hreply hreplies, hlast⟩

end DataRefinement
