/-
  Jos.Lib.TwoRuns — **TWO RUNS SIDE BY SIDE.**

  `Rel Q m n s t` compares the run of `m` from `s` with the run of `n` from
  `t`: when both return, their results and last states are related by `Q`.
  One rule per constructor of programs, and the rule for the counting loop; a
  continuation may use that the first parts returned, and so whatever their own
  specifications say about them.
-/
import Jos.Lib.Exec

namespace Jos.Exec

variable {ε σ α α' β β' : Type}

variable {m : EStateM ε σ α} {n : EStateM ε σ β} {a : α} {Q : α → β → σ → σ → Prop} {b : β}
  {s s' t : σ}

def Rel (Q : α → β → σ → σ → Prop) (m : EStateM ε σ α) (n : EStateM ε σ β) (s t : σ) : Prop :=
  ∀ a s' b t', m s = .ok a s' → n t = .ok b t' → Q a b s' t'

theorem rel_of_ok {s s' t t' : σ} (hm : m s = .ok a s') (hn : n t = .ok b t')
    (h : Q a b s' t') : Rel Q m n s t := by
  intro a₁ s₁ b₁ t₁ h₁ h₂
  rw [hm] at h₁
  rw [hn] at h₂
  cases h₁
  cases h₂
  exact h

theorem rel_pure (h : Q a b s t) : Rel Q (pure a : EStateM ε σ α) (pure b) s t :=
  rel_of_ok rfl rfl h

/-- A run that stops is related to everything. -/
theorem rel_of_error {e : ε} (hm : m s = .error e s') : Rel Q m n s t := by
  intro a s₁ b t₁ h₁ _
  rw [hm] at h₁
  cases h₁

/-- **The sequence rule.** -/
theorem rel_bind {R : α → β → σ → σ → Prop} {Q : α' → β' → σ → σ → Prop} {f : α → EStateM ε σ α'}
    {g : β → EStateM ε σ β'} (h : Rel R m n s t)
    (hk : ∀ a s' b t', m s = .ok a s' → n t = .ok b t' → R a b s' t' →
      Rel Q (f a) (g b) s' t') : Rel Q (m >>= f) (n >>= g) s t := by
  intro a₂ s₂ b₂ t₂ h₁ h₂
  obtain ⟨a, s', hm, hf⟩ := bind_inv h₁
  obtain ⟨b, t', hn, hg⟩ := bind_inv h₂
  exact hk a s' b t' hm hn (h a s' b t' hm hn) a₂ s₂ b₂ t₂ hf hg

theorem rel_mono {Q Q' : α → β → σ → σ → Prop} (h : Rel Q m n s t)
    (hQ : ∀ a b s' t', Q a b s' t' → Q' a b s' t') :
    Rel Q' m n s t :=
  fun a s' b t' hm hn => hQ a b s' t' (h a s' b t' hm hn)

end Jos.Exec
