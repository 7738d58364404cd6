import Mathlib.Tactic

/-! # Following one observation through a program that may fail

`Tracks obs f m` says what a program with state and failure does to one observation of the
state whenever it returns. The rules follow the combinators, so a program is checked by
the rules of its parts and never by unfolding its state. -/

namespace Tracking

universe u

variable {σ ε : Type u} {α β : Type u} {γ : Type*} {obs : σ → γ}

/-- When `m` returns `a`, the observation has changed by `f a`. -/
def Tracks (obs : σ → γ) (f : α → γ → γ) (m : StateT σ (Except ε) α) : Prop :=
  ∀ s a s', m s = .ok (a, s') → obs s' = f a (obs s)

/-- The program leaves the observation alone. -/
def Keeps (obs : σ → γ) (m : StateT σ (Except ε) α) : Prop :=
  Tracks obs (fun _ x => x) m

@[simp] theorem ok_bind (a : α) (f : α → Except ε β) :
    ((.ok a : Except ε α) >>= f) = f a := rfl

@[simp] theorem map_ok (a : α) (f : α → β) :
    (f <$> (.ok a : Except ε α)) = .ok (f a) := rfl

theorem except_bind_eq_ok {x : Except ε α} {f : α → Except ε β} {b : β} :
    (x >>= f) = .ok b ↔ ∃ a, x = .ok a ∧ f a = .ok b := by
  change x.bind f = .ok b ↔ _
  cases x with
  | error e => simp [Except.bind]
  | ok a => simp [Except.bind]

theorem bind_eq_ok {m : StateT σ (Except ε) α} {k : α → StateT σ (Except ε) β}
    {s s' : σ} {b : β} :
    (m >>= k) s = .ok (b, s') ↔ ∃ a s₁, m s = .ok (a, s₁) ∧ k a s₁ = .ok (b, s') := by
  apply except_bind_eq_ok.trans
  simp

theorem tracks_pure {f : α → γ → γ} (a : α) (hf : ∀ x, f a x = x) :
    Tracks obs f (pure a : StateT σ (Except ε) α) := by
  intro s b s' h
  cases h
  exact (hf _).symm

theorem keeps_pure (a : α) : Keeps obs (pure a : StateT σ (Except ε) α) :=
  tracks_pure a fun _ => rfl

/-- A part of what is kept is kept. -/
theorem Keeps.map {δ : Type*} {m : StateT σ (Except ε) α} (h : Keeps obs m) (f : γ → δ) :
    Keeps (fun s => f (obs s)) m :=
  fun s a s' hret => congrArg f (h s a s' hret)

theorem tracks_throw {f : α → γ → γ} (e : ε) :
    Tracks obs f (throw e : StateT σ (Except ε) α) := by
  intro s a s' h
  cases h

/-- A prefix that keeps the observation can be dropped. -/
theorem Keeps.bind {f : β → γ → γ} {m : StateT σ (Except ε) α}
    {k : α → StateT σ (Except ε) β} (hm : Keeps obs m) (hk : ∀ a, Tracks obs f (k a)) :
    Tracks obs f (m >>= k) := by
  intro s b s' h
  obtain ⟨a, s₁, h₁, h₂⟩ := bind_eq_ok.mp h
  rw [hk a s₁ b s' h₂, hm s a s₁ h₁]

/-- A change of the observation followed by a program that keeps it. -/
theorem Tracks.bind_pure {g : γ → γ} {f : β → γ → γ} {m : StateT σ (Except ε) α} {b : β}
    (hm : Tracks obs (fun _ => g) m) (hf : ∀ x, f b x = g x) :
    Tracks obs f (do let _ ← m; pure b) := by
  intro s b' s' h
  obtain ⟨a, s₁, h₁, h₂⟩ := bind_eq_ok.mp h
  cases h₂
  rw [hm s a s' h₁, hf]

theorem tracks_ite {f : α → γ → γ} {c : Prop} [Decidable c]
    {m m' : StateT σ (Except ε) α} (hm : Tracks obs f m) (hm' : Tracks obs f m') :
    Tracks obs f (if c then m else m') := by
  split
  · exact hm
  · exact hm'

theorem keeps_get : Keeps obs (get : StateT σ (Except ε) σ) := by
  intro s a s' h
  cases h
  rfl

theorem keeps_modify {g : σ → σ} (hg : ∀ s, obs (g s) = obs s) :
    Keeps obs (modify g : StateT σ (Except ε) PUnit) := by
  intro s a s' h
  cases h
  exact hg s

theorem keeps_liftM (x : Except ε α) : Keeps obs (liftM x : StateT σ (Except ε) α) := by
  intro s a s' h
  cases x with
  | error e => cases h
  | ok b =>
      cases h
      rfl

end Tracking
