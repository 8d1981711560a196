/-
  Jos.Lib.Hits — **HOW OFTEN A FINITE PARTIAL FUNCTION TAKES A VALUE.**

  `hits f v` is the number of slots `x` with `f x = some v`.  It is the
  abstract form of a reference count: `f` says what each slot of a finite set
  of slots points to.  One lemma carries all uses: what overwriting one slot
  does to the count (`hits_update`).
-/
import Mathlib.Data.Fintype.BigOperators
import Mathlib.Tactic

namespace Jos

variable {ι κ α : Type*} [Fintype ι] [DecidableEq α]

variable {v : α} {f : ι → Option α}

/-- The number of slots that hold `v`. -/
def hits (f : ι → Option α) (v : α) : Nat :=
  ∑ x, if f x = some v then 1 else 0

theorem hits_pos_of_eq {x : ι} (h : f x = some v) : 0 < hits f v := by
  unfold hits
  refine Finset.sum_pos' (fun _ _ => Nat.zero_le _) ⟨x, Finset.mem_univ x, ?_⟩
  simp [h]

theorem ne_of_hits_eq_zero (h : hits f v = 0) (x : ι) : f x ≠ some v := by
  intro hx
  have := hits_pos_of_eq hx
  omega

theorem hits_eq_zero (h : ∀ x, f x ≠ some v) : hits f v = 0 := by
  unfold hits
  exact Finset.sum_eq_zero fun x _ => by simp [h x]

theorem exists_of_hits_pos (h : 0 < hits f v) : ∃ x, f x = some v := by
  by_contra hne
  have := hits_eq_zero (f := f) (v := v) (fun x hx => hne ⟨x, hx⟩)
  omega

/-- **Overwriting one slot**: the old content loses a hit, the new one gains
one. -/
theorem hits_update [DecidableEq ι] (f : ι → Option α) (a : ι) (w : Option α) (v : α) :
    hits (Function.update f a w) v + (if f a = some v then 1 else 0)
      = hits f v + (if w = some v then 1 else 0) := by
  unfold hits
  have hsplit : ∀ g : ι → Option α,
      (∑ x, if g x = some v then 1 else 0)
        = (if g a = some v then 1 else 0)
          + ∑ x ∈ Finset.univ.erase a, if g x = some v then 1 else 0 :=
    fun g => (Finset.add_sum_erase _ _ (Finset.mem_univ a)).symm
  have hrest : (∑ x ∈ Finset.univ.erase a,
        if Function.update f a w x = some v then 1 else 0)
      = ∑ x ∈ Finset.univ.erase a, if f x = some v then 1 else 0 := by
    refine Finset.sum_congr rfl fun x hx => ?_
    rw [Function.update_of_ne (Finset.ne_of_mem_erase hx)]
  rw [hsplit (Function.update f a w), hsplit f, hrest, Function.update_self]
  omega

/-- Counting over a disjoint union of slots. -/
theorem hits_sum [Fintype κ] (f : ι ⊕ κ → Option α) (v : α) :
    hits f v = hits (fun x => f (Sum.inl x)) v + hits (fun y => f (Sum.inr y)) v := by
  unfold hits
  exact Fintype.sum_sum_type _

end Jos
