/-
  Jos.Lib.Chain — **NULL-TERMINATED LINKED LISTS OVER AN ARRAY OF LINK FIELDS.**

  A list head is an `Option ι` and each cell holds the `Option ι` of its
  successor.  `Chain next head l` says that following `next` from `head`
  visits exactly the cells `l` and then the null pointer; in particular the
  list is finite.  The lemmas are the ones list code needs: what a head says
  about `l`, pushing and popping a cell, and that writes to the links of other
  cells do not matter.
-/
import Mathlib.Data.List.Nodup

namespace Jos

variable {ι : Type*}

/-- Following `next` from `head` visits exactly the cells `l`, in order, and
ends in the null pointer. -/
def Chain (next : ι → Option ι) : Option ι → List ι → Prop
  | head, [] => head = none
  | head, a :: l => head = some a ∧ Chain next (next a) l

namespace Chain

variable {next next' : ι → Option ι} {head : Option ι} {l : List ι}

theorem nil_of_none (h : Chain next none l) : l = [] := by
  cases l with
  | nil => rfl
  | cons a l => exact absurd h.1 (by simp)

theorem cons_of_some {a : ι} (h : Chain next (some a) l) :
    ∃ t, l = a :: t ∧ Chain next (next a) t := by
  cases l with
  | nil => exact absurd h (by simp [Chain])
  | cons b t =>
    obtain ⟨hb, ht⟩ := h
    have hab : a = b := Option.some.inj hb
    subst hab
    exact ⟨t, rfl, ht⟩

/-- The cells of a chain are determined by its head and the links. -/
theorem unique {l' : List ι} (h : Chain next head l) (h' : Chain next head l') : l = l' := by
  induction l generalizing head l' with
  | nil =>
    have hn : head = none := h
    subst hn
    exact (nil_of_none h').symm
  | cons a t ih =>
    obtain ⟨ha, ht⟩ := h
    subst ha
    obtain ⟨t', rfl, ht'⟩ := cons_of_some h'
    rw [ih ht ht']

/-- Only the links of the cells of the chain matter. -/
theorem congr (h : Chain next head l) (hn : ∀ a ∈ l, next' a = next a) : Chain next' head l := by
  induction l generalizing head with
  | nil => exact h
  | cons a t ih =>
    refine ⟨h.1, ?_⟩
    rw [hn a List.mem_cons_self]
    exact ih h.2 (fun b hb => hn b (List.mem_cons_of_mem a hb))

variable [DecidableEq ι]

/-- A write to the link of a cell outside the chain leaves the chain alone. -/
theorem update_of_notMem {a : ι} {v : Option ι} (h : Chain next head l)
    (ha : a ∉ l) : Chain (Function.update next a v) head l := by
  refine h.congr fun b hb => ?_
  have hba : b ≠ a := fun hab => ha (hab ▸ hb)
  exact Function.update_of_ne hba v next

/-- Linking a new cell in front: `a->link = head; head = a`. -/
theorem push {a : ι} (h : Chain next head l) (ha : a ∉ l) :
    Chain (Function.update next a head) (some a) (a :: l) := by
  refine ⟨rfl, ?_⟩
  rw [Function.update_self]
  exact h.update_of_notMem ha

/-- Unlinking the first cell: `head = a->link; a->link = NULL`. -/
theorem pop {a : ι} {v : Option ι} (h : Chain next (some a) (a :: l))
    (hnd : (a :: l).Nodup) : Chain (Function.update next a v) (next a) l :=
  update_of_notMem h.2 (List.nodup_cons.mp hnd).1

end Chain

end Jos
