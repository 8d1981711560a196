/-
  Jos.Lib.Exec — **WEAKEST PRECONDITIONS FOR STATE-PASSING CODE THAT MAY STOP.**

  A program is an `EStateM ε σ α`: it either returns a value or stops with an
  `ε`, and in both cases leaves a state behind.  `wp m Q X s` says that `m`,
  started in `s`, returns into `Q` or stops into `X`.  The file gives

    • the rule of `>>=` (`wp_bind`), and of a read of the state before it,
    • the rule of consequence `wp_mono` and the conjunction rule `wp_and`,
    • `forUp`, the counting loop, with its invariant rule `wp_forUp`,
    • the same facts read as equations (`bind_ok`, `bind_error`), for code
      whose result is known exactly,
    • frames: `Keeps R E m` says that `m` relates its first state to its last
      one by the preorder `R`, however it ends, and stops only within `E`.
-/
import Mathlib.Tactic

namespace Jos.Exec

variable {ε σ α β : Type}

variable {m : EStateM ε σ α} {body : Nat → EStateM ε σ Unit} {a : α} {f : α → EStateM ε σ β}
  {Q Q' : α → σ → Prop} {e : ε} {X X' : ε → σ → Prop} {s s' t : σ} {k : σ → EStateM ε σ β}

/-! ## §1. The judgment. -/

/-- `m`, started in `s`, returns into `Q` or stops into `X`. -/
def wp (m : EStateM ε σ α) (Q : α → σ → Prop) (X : ε → σ → Prop) (s : σ) : Prop :=
  match m s with
  | .ok a s' => Q a s'
  | .error e s' => X e s'

/-- On a fixed state the judgment can be run. -/
instance (m : EStateM ε σ α) (Q : α → σ → Prop) (X : ε → σ → Prop) (s : σ)
    [∀ a s, Decidable (Q a s)] [∀ e s, Decidable (X e s)] : Decidable (wp m Q X s) :=
  match h : m s with
  | .ok a s' => decidable_of_iff (Q a s') (by unfold wp; rw [h])
  | .error e s' => decidable_of_iff (X e s') (by unfold wp; rw [h])

theorem wp_of_ok (h : m s = .ok a s') (hQ : Q a s') : wp m Q X s := by
  unfold wp
  rw [h]
  exact hQ

theorem wp_of_error (h : m s = .error e s') (hX : X e s') : wp m Q X s := by
  unfold wp
  rw [h]
  exact hX

theorem wp_ok (hw : wp m Q X s) (h : m s = .ok a s') : Q a s' := by
  unfold wp at hw
  rw [h] at hw
  exact hw

theorem wp_error (hw : wp m Q X s) (h : m s = .error e s') : X e s' := by
  unfold wp at hw
  rw [h] at hw
  exact hw

/-! ## §2. Sequences. -/

@[simp] theorem wp_bind (m : EStateM ε σ α) (f : α → EStateM ε σ β)
    (Q : β → σ → Prop) (X : ε → σ → Prop) (s : σ) :
    wp (m >>= f) Q X s ↔ wp m (fun a s' => wp (f a) Q X s') X s := by
  show (match EStateM.bind m f s with
    | .ok a s' => Q a s'
    | .error e s' => X e s') ↔ _
  unfold wp EStateM.bind
  cases m s <;> rfl

/-- Code that first reads the state. -/
theorem wp_get_bind {Q : β → σ → Prop}
    (h : wp (k s) Q X s) : wp ((get : EStateM ε σ σ) >>= k) Q X s := h

theorem bind_get : ((get : EStateM ε σ σ) >>= k) s = k s s := rfl

/-! ## §3. Consequence and conjunction. -/

/-- **The rule of consequence.** -/
theorem wp_mono (h : wp m Q X s) (hQ : ∀ a s', Q a s' → Q' a s')
    (hX : ∀ e s', X e s' → X' e s') : wp m Q' X' s := by
  unfold wp at h ⊢
  cases hm : m s with
  | ok a s' =>
    rw [hm] at h
    exact hQ a s' h
  | error e s' =>
    rw [hm] at h
    exact hX e s' h

theorem wp_and (h : wp m Q X s) (h' : wp m Q' X' s) :
    wp m (fun a s' => Q a s' ∧ Q' a s') (fun e s' => X e s' ∧ X' e s') s := by
  unfold wp at h h' ⊢
  cases hm : m s with
  | ok a s' =>
    rw [hm] at h h'
    exact ⟨h, h'⟩
  | error e s' =>
    rw [hm] at h h'
    exact ⟨h, h'⟩

/-- Run `m`, then `f`: the middle condition `R` is any postcondition of `m`. -/
theorem wp_seq {R : α → σ → Prop} {Q : β → σ → Prop} (hm : wp m R X s)
    (hf : ∀ a s', R a s' → wp (f a) Q X s') : wp (m >>= f) Q X s :=
  (wp_bind m f Q X s).mpr (wp_mono hm hf fun _ _ h => h)

theorem wp_trivial (m : EStateM ε σ α) (s : σ) : wp m (fun _ _ => True) (fun _ _ => True) s := by
  unfold wp
  cases m s <;> trivial

/-! ## §4. The counting loop. -/

/-- `for (i = lo; i < lo + n; i++) body i`. -/
def forUp (body : Nat → EStateM ε σ Unit) (lo : Nat) : Nat → EStateM ε σ Unit
  | 0 => pure ()
  | n + 1 => do
      body lo
      forUp body (lo + 1) n

/-- **The invariant rule of `forUp`**: `I i` holds whenever the counter is `i`. -/
theorem wp_forUp {I : Nat → σ → Prop} (n : Nat) :
    ∀ (lo : Nat) (s : σ), I lo s →
      (∀ i t, lo ≤ i → i < lo + n → I i t → wp (body i) (fun _ t' => I (i + 1) t') X t) →
      wp (forUp body lo n) (fun _ t => I (lo + n) t) X s := by
  induction n with
  | zero =>
    intro lo s h0 _
    exact h0
  | succ n ih =>
    intro lo s h0 hstep
    show wp (body lo >>= fun _ => forUp body (lo + 1) n) _ _ _
    refine wp_seq (hstep lo s (Nat.le_refl lo) (by omega) h0) ?_
    intro _ t ht
    have h := ih (lo + 1) t ht
      (fun i u hlo hhi hi => hstep i u (by omega) (by omega) hi)
    rw [show lo + 1 + n = lo + (n + 1) by omega] at h
    exact h

/-! ## §5. Exact results. -/

theorem bind_ok (h : m s = .ok a s') : (m >>= f) s = f a s' := by
  show EStateM.bind m f s = _
  unfold EStateM.bind
  rw [h]

theorem bind_error (h : m s = .error e s') : (m >>= f) s = .error e s' := by
  show EStateM.bind m f s = _
  unfold EStateM.bind
  rw [h]

/-- A sequence that returns: its first part returned. -/
theorem bind_inv {b : β}
    (h : (m >>= f) s = .ok b s') : ∃ a t, m s = .ok a t ∧ f a t = .ok b s' := by
  cases hm : m s with
  | ok a t => exact ⟨a, t, rfl, by rw [bind_ok hm] at h; exact h⟩
  | error e t =>
    rw [bind_error hm] at h
    cases h

/-- Step over a first part whose result is known. -/
theorem wp_bind_ok {Q : β → σ → Prop} (h : m s = .ok a s')
    (hf : wp (f a) Q X s') : wp (m >>= f) Q X s := by
  rw [wp_bind]
  exact wp_of_ok h hf

/-- A run that never stops early has an exact result. -/
theorem exists_ok_of_wp (h : wp m Q (fun _ _ => False) s) : ∃ a s', m s = .ok a s' ∧ Q a s' := by
  unfold wp at h
  cases hm : m s with
  | ok a s' =>
    rw [hm] at h
    exact ⟨a, s', rfl, h⟩
  | error e s' =>
    rw [hm] at h
    exact h.elim

theorem eq_ok_of_wp {m : EStateM ε σ Unit}
    (h : wp m (fun _ s' => s' = t) (fun _ _ => False) s) : m s = .ok () t := by
  obtain ⟨_, s', hm, rfl⟩ := exists_ok_of_wp h
  exact hm

/-! ## §6. Frames. -/

/-- `m` relates the state it starts in to the state it ends in by `R`, and
stops only for reasons in `E`. -/
def Keeps (R : σ → σ → Prop) (E : ε → Prop) (m : EStateM ε σ α) : Prop :=
  ∀ s, wp m (fun _ s' => R s s') (fun e s' => E e ∧ R s s') s

section

variable {R : σ → σ → Prop} {E : ε → Prop}

theorem keeps_modify {f : σ → σ} (h : ∀ s, R s (f s)) :
    Keeps R E (modify f : EStateM ε σ PUnit) := h

/-- Code that reads the whole state first. -/
theorem keeps_get_bind {f : σ → EStateM ε σ α}
    (h : ∀ s, wp (f s) (fun _ s' => R s s') (fun e s' => E e ∧ R s s') s) : Keeps R E (get >>= f) :=
  fun s => wp_get_bind (h s)

theorem keeps_ite {c : Prop} [Decidable c] {m n : EStateM ε σ α} (hm : Keeps R E m)
    (hn : Keeps R E n) : Keeps R E (if c then m else n) := by
  split
  · exact hm
  · exact hn

/-- Run code that keeps `R`, then `f`. -/
theorem Keeps.seq {Q : β → σ → Prop} (hm : Keeps R E m) (hf : ∀ a t, R s t → wp (f a) Q X t)
    (hX : ∀ e t, E e → R s t → X e t) : wp (m >>= f) Q X s :=
  (wp_bind m f Q X s).mpr (wp_mono (hm s) hf fun e t h => hX e t h.1 h.2)

theorem Keeps.mono {R' : σ → σ → Prop} (hm : Keeps R E m)
    (hR : ∀ s t, R s t → R' s t) : Keeps R' E m :=
  fun s => wp_mono (hm s) (fun _ t h => hR s t h) (fun _ t h => ⟨h.1, hR s t h.2⟩)

variable [IsPreorder σ R]

theorem keeps_pure (a : α) : Keeps R E (pure a : EStateM ε σ α) := fun s => refl s

theorem keeps_throw (e : ε) (he : E e) : Keeps R E (throw e : EStateM ε σ α) :=
  fun s => ⟨he, refl s⟩

theorem keeps_get : Keeps R E (get : EStateM ε σ σ) := fun s => refl s

/-- Continue from a state `t` that is already related to `s`. -/
theorem Keeps.after (hm : Keeps R E m) (h : R s t) :
    wp m (fun _ s' => R s s') (fun e s' => E e ∧ R s s') t :=
  wp_mono (hm t) (fun _ _ h' => IsTrans.trans _ _ _ h h')
    (fun _ _ h' => ⟨h'.1, IsTrans.trans _ _ _ h h'.2⟩)

theorem Keeps.bind (hm : Keeps R E m) (hf : ∀ a, Keeps R E (f a)) : Keeps R E (m >>= f) :=
  fun s => wp_seq (hm s) (fun a _ h => (hf a).after h)

theorem keeps_forUp (h : ∀ i, Keeps R E (body i)) (lo n : Nat) : Keeps R E (forUp body lo n) := by
  induction n generalizing lo with
  | zero => exact keeps_pure ()
  | succ n ih => exact (h lo).bind (fun _ => ih (lo + 1))

end

end Jos.Exec
