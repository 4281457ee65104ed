import NonsmoothDescent.Proofs.Action

/-!
# Two runs side by side

Two actions run in tandem if from two given states they come out alike: both succeed, with
related values and states, or both stop with the same fault, in related states. A chain of
actions is followed link by link, on both sides at once.
-/

namespace NonsmoothDescent

variable {ε σ β γ δ ζ : Type}

/-- Two results are alike: values that are related along with their states, or the same
fault in related states. -/
inductive Corresponds (post : β → σ → γ → σ → Prop) (halt : σ → σ → Prop) :
    EStateM.Result ε σ β → EStateM.Result ε σ γ → Prop where
  | ok {b : β} {c : γ} {s t : σ} (h : post b s c t) : Corresponds post halt (.ok b s) (.ok c t)
  | error {e : ε} {s t : σ} (h : halt s t) : Corresponds post halt (.error e s) (.error e t)

/-- Weaker relations hold of the same two results. -/
theorem Corresponds.imp {post post' : β → σ → γ → σ → Prop} {halt halt' : σ → σ → Prop}
    {x : EStateM.Result ε σ β} {y : EStateM.Result ε σ γ} (h : Corresponds post halt x y)
    (hpost : ∀ b s c t, post b s c t → post' b s c t) (hhalt : ∀ s t, halt s t → halt' s t) :
    Corresponds post' halt' x y := by
  cases h with
  | ok h => exact .ok (hpost _ _ _ _ h)
  | error h => exact .error (hhalt _ _ h)

/-- A weaker relation of values and states holds of the same two results. -/
theorem Corresponds.mono {post post' : β → σ → γ → σ → Prop} {halt : σ → σ → Prop}
    {x : EStateM.Result ε σ β} {y : EStateM.Result ε σ γ} (h : Corresponds post halt x y)
    (himp : ∀ b s c t, post b s c t → post' b s c t) : Corresponds post' halt x y :=
  h.imp himp fun _ _ hhalt => hhalt

/-- Related states are the final states of the two runs. -/
theorem Corresponds.with_finals {post : β → σ → γ → σ → Prop} {halt : σ → σ → Prop}
    {x : EStateM.Result ε σ β} {y : EStateM.Result ε σ γ} (h : Corresponds post halt x y) :
    Corresponds (fun b s c t => post b s c t ∧ s = finalState x ∧ t = finalState y)
      (fun s t => halt s t ∧ s = finalState x ∧ t = finalState y) x y := by
  cases h with
  | ok h => exact .ok ⟨h, rfl, rfl⟩
  | error h => exact .error ⟨h, rfl, rfl⟩

/-- From the given states, one for each, the actions come out alike. -/
def Tandem (act : EStateM ε σ β) (s : σ) (act' : EStateM ε σ γ) (t : σ)
    (post : β → σ → γ → σ → Prop) (halt : σ → σ → Prop) : Prop :=
  Corresponds post halt (act s) (act' t)

namespace Tandem

variable {act : EStateM ε σ β} {act' : EStateM ε σ γ} {s t s' t' : σ} {b : β} {c : γ} {e : ε}
  {post : β → σ → γ → σ → Prop} {halt : σ → σ → Prop}

/-- Two runs that succeed go in tandem if their values and states are related. -/
theorem of_ok (hr : act s = .ok b s') (hr' : act' t = .ok c t') (h : post b s' c t') :
    Tandem act s act' t post halt := by
  unfold Tandem
  rw [hr, hr']
  exact .ok h

/-- Two runs that stop with one fault go in tandem if their states are related. -/
theorem of_error (hr : act s = .error e s') (hr' : act' t = .error e t') (h : halt s' t') :
    Tandem act s act' t post halt := by
  unfold Tandem
  rw [hr, hr']
  exact .error h

/-- Two values go in tandem if they are related. -/
theorem of_pure (h : post b s c t) :
    Tandem (pure b : EStateM ε σ β) s (pure c) t post halt := .ok h

/-- Two actions that stop with one fault at once go in tandem. -/
theorem of_throw (h : halt s t) :
    Tandem (throw e : EStateM ε σ β) s (throw e : EStateM ε σ γ) t post halt := .error h

/-- Two chains go in tandem if their first actions do and what follows does. -/
theorem bind {f : β → EStateM ε σ δ} {g : γ → EStateM ε σ ζ} {final : δ → σ → ζ → σ → Prop}
    (h : Tandem act s act' t post halt)
    (hf : ∀ b s' c t', post b s' c t' → Tandem (f b) s' (g c) t' final halt) :
    Tandem (act >>= f) s (act' >>= g) t final halt := by
  unfold Tandem at h
  generalize hr : act s = result at h
  generalize hr' : act' t = result' at h
  cases h with
  | ok h =>
    have htail := hf _ _ _ _ h
    unfold Tandem
    rw [bind_of_ok hr, bind_of_ok hr']
    exact htail
  | error h => exact of_error (bind_of_error hr) (bind_of_error hr') h

/-- Reading the states comes before the actions that follow. -/
theorem read {f : β → EStateM ε σ δ} {g : γ → EStateM ε σ ζ} {final : δ → σ → ζ → σ → Prop}
    (hr : act s = .ok b s) (hr' : act' t = .ok c t) (h : Tandem (f b) s (g c) t final halt) :
    Tandem (act >>= f) s (act' >>= g) t final halt := by
  unfold Tandem
  rw [bind_of_ok hr, bind_of_ok hr']
  exact h

/-- What comes out is what the actions run to. -/
theorem with_runs (h : Tandem act s act' t post halt) :
    Tandem act s act' t
      (fun b s' c t' => post b s' c t' ∧ act s = .ok b s' ∧ act' t = .ok c t') halt := by
  unfold Tandem at h ⊢
  generalize act s = result at h ⊢
  generalize act' t = result' at h ⊢
  cases h with
  | ok h => exact .ok ⟨h, rfl, rfl⟩
  | error h => exact .error h

/-- A weaker relation holds of the same two actions. -/
theorem mono {post' : β → σ → γ → σ → Prop} (h : Tandem act s act' t post halt)
    (himp : ∀ b s' c t', post b s' c t' → post' b s' c t') : Tandem act s act' t post' halt :=
  Corresponds.mono h himp

/-- Two conditions that agree lead into corresponding branches. -/
theorem ite {p q : Prop} [Decidable p] [Decidable q] {other : EStateM ε σ β}
    {other' : EStateM ε σ γ} (hiff : p ↔ q) (h : p → Tandem act s act' t post halt)
    (h' : ¬ p → Tandem other s other' t post halt) :
    Tandem (if p then act else other) s (if q then act' else other') t post halt := by
  by_cases hp : p
  · rw [if_pos hp, if_pos (hiff.mp hp)]
    exact h hp
  · rw [if_neg hp, if_neg fun hq => hp (hiff.mpr hq)]
    exact h' hp

end Tandem

end NonsmoothDescent
