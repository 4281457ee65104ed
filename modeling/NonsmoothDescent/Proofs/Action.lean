/-!
# Running actions

Actions carry a state and may stop with a fault. `Leads` says that an action succeeds
from a state, and what then holds of its value and of the state it ends in. A chain of
actions is followed by rewriting with the run of its first one. `Along` says that a
relation holds between the states before and after an action, however that ends; for a
relation that is reflexive and transitive it is enough to look at the single operations.
-/

namespace NonsmoothDescent

variable {ε σ β γ : Type}

/-- The state in which a run ends, with a value or with a fault. -/
def finalState : EStateM.Result ε σ β → σ
  | .ok _ s => s
  | .error _ s => s

/-- A run that gives a value ends in the state it gives with it. -/
@[simp] theorem finalState_ok (b : β) (s : σ) :
    finalState (.ok b s : EStateM.Result ε σ β) = s := rfl

/-- A run that stops with a fault ends in the state it gives with it. -/
@[simp] theorem finalState_error (e : ε) (s : σ) :
    finalState (.error e s : EStateM.Result ε σ β) = s := rfl

/-- From the given state the action succeeds, with a value and a state as described. -/
def Leads (act : EStateM ε σ β) (s : σ) (post : β → σ → Prop) : Prop :=
  ∃ b s', act s = .ok b s' ∧ post b s'

/-- Where the first action succeeds, a chain goes on with its value. -/
theorem bind_of_ok {x : EStateM ε σ β} {f : β → EStateM ε σ γ} {s s' : σ} {b : β}
    (h : x s = .ok b s') : (x >>= f) s = f b s' := by
  change EStateM.bind x f s = _
  rw [EStateM.bind, h]

/-- Where the first action stops, so does the chain. -/
theorem bind_of_error {x : EStateM ε σ β} {f : β → EStateM ε σ γ} {s s' : σ} {e : ε}
    (h : x s = .error e s') : (x >>= f) s = .error e s' := by
  change EStateM.bind x f s = _
  rw [EStateM.bind, h]

namespace Leads

variable {act : EStateM ε σ β} {s s' : σ} {b : β} {post : β → σ → Prop}

/-- What an action leads to holds of the run it has. -/
theorem of_run (h : Leads act s post) (hr : act s = .ok b s') : post b s' := by
  obtain ⟨b₁, s₁, h₁, hpost⟩ := h
  rw [hr] at h₁
  cases h₁
  exact hpost

end Leads

/-- However a run of the action ends, the state it ends in stands in a relation to the one
it began in. -/
def Along (rel : σ → σ → Prop) (act : EStateM ε σ β) : Prop := ∀ s, rel s (finalState (act s))

namespace Along

variable {rel : σ → σ → Prop} {act : EStateM ε σ β} {s s' : σ} {b : β} {e : ε}

/-- A run that succeeds ends in a related state. -/
theorem of_ok (h : Along rel act) (hr : act s = .ok b s') : rel s s' := by
  have hs := h s
  rwa [hr] at hs

/-- So does a run that stops with a fault. -/
theorem of_error (h : Along rel act) (hr : act s = .error e s') : rel s s' := by
  have hs := h s
  rwa [hr] at hs

/-- A relation that asks for less holds along the same actions. -/
theorem mono {rel' : σ → σ → Prop} (h : Along rel act) (hrel : ∀ s s', rel s s' → rel' s s') :
    Along rel' act := fun s => hrel _ _ (h s)

/-- A choice between two actions. -/
theorem ite {p : Prop} [Decidable p] {act' : EStateM ε σ β} (h : Along rel act)
    (h' : Along rel act') : Along rel (if p then act else act') := by
  split
  · exact h
  · exact h'

/-- One action after another. -/
theorem bind [Trans rel rel rel] {f : β → EStateM ε σ γ} (h : Along rel act)
    (hf : ∀ b, Along rel (f b)) : Along rel (act >>= f) := by
  intro s
  cases hr : act s with
  | ok b s' =>
    rw [bind_of_ok hr]
    exact Trans.trans (h.of_ok hr) (hf b s')
  | error e s' =>
    rw [bind_of_error hr]
    exact h.of_error hr

variable [Std.Refl rel]

/-- An action that does not change the state. -/
theorem of_same (h : ∀ s, finalState (act s) = s) : Along rel act := by
  intro s
  rw [h]
  exact Std.Refl.refl s

/-- An action that only gives a value. -/
theorem of_pure (b : β) : Along rel (pure b : EStateM ε σ β) := of_same fun _ => rfl

/-- An action that only stops. -/
theorem of_throw (e : ε) : Along rel (throw e : EStateM ε σ β) := of_same fun _ => rfl

/-- An action that only reads the state. -/
theorem of_get : Along rel (get : EStateM ε σ σ) := of_same fun _ => rfl

end Along

/-- A part is the same in both states. -/
def SamePart {π : Type} (part : σ → π) (s s' : σ) : Prop := part s' = part s

section SamePart

variable {π : Type} {part : σ → π}

instance : Std.Refl (SamePart part) := ⟨fun _ => rfl⟩

instance : Trans (SamePart part) (SamePart part) (SamePart part) := ⟨fun h h' => Eq.trans h' h⟩

end SamePart

end NonsmoothDescent
