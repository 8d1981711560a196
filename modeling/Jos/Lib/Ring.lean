/-
  Jos.Lib.Ring — **CIRCULAR BUFFERS.**

  The occupied slots of a ring of `N` slots are `n` consecutive ones from a
  head `h`, read modulo `N`.  `cells N h n` lists them, `contents f N h n` what
  a slot function `f` holds in them.  The lemmas say how the two ends move:

    • at the tail, writing slot `(h + n) % N` appends (`contents_push`),
    • at the head, moving on drops the first element (`contents_pop`),
    • a slot outside is never seen (`contents_update`).
-/
import Mathlib.Tactic

namespace Jos.Ring

variable {α : Type}

/-! ## §1. The occupied slots. -/

/-- The `n` slots from `h` on. -/
def cells (N h n : Nat) : List Nat := (List.range n).map fun i => (h + i) % N

/-- The tail end: one slot more. -/
theorem cells_succ (N h n : Nat) : cells N h (n + 1) = cells N h n ++ [(h + n) % N] := by
  simp [cells, List.range_succ]

/-- The head end: the first slot, and the rest from the next one on. -/
theorem cells_cons (N h n : Nat) : cells N h (n + 1) = h % N :: cells N ((h + 1) % N) n := by
  simp only [cells, List.range_succ_eq_map, List.map_cons, List.map_map, Nat.add_zero]
  congr 1
  apply List.map_congr_left
  intro i _
  show (h + (i + 1)) % N = ((h + 1) % N + i) % N
  rw [Nat.mod_add_mod]
  congr 1
  omega

theorem mem_cells {N h n i : Nat} : i ∈ cells N h n ↔ ∃ j < n, (h + j) % N = i := by
  simp [cells]

/-- Two offsets below `N` that lead to the same slot are equal. -/
theorem offset_inj {N h i j : Nat} (hi : i < N) (hj : j < N)
    (h' : (h + i) % N = (h + j) % N) : i = j := by
  have hm : i ≡ j [MOD N] := Nat.ModEq.add_left_cancel' h h'
  rwa [Nat.ModEq, Nat.mod_eq_of_lt hi, Nat.mod_eq_of_lt hj] at hm

/-- The slot after the last occupied one is free. -/
theorem tail_not_mem {N h n m : Nat} (hm : m ≤ n) (hn : n < N) : (h + n) % N ∉ cells N h m := by
  intro hmem
  obtain ⟨j, hj, he⟩ := mem_cells.mp hmem
  have := offset_inj (by omega) hn he
  omega

/-- Once the head has moved on, the slot it left is free. -/
theorem head_not_mem {N h n : Nat} (hn : n < N) : h % N ∉ cells N ((h + 1) % N) n := by
  intro hmem
  obtain ⟨j, hj, he⟩ := mem_cells.mp hmem
  rw [Nat.mod_add_mod, show h + 1 + j = h + (j + 1) by omega] at he
  have := offset_inj (by omega) (by omega) (he.trans (by rw [Nat.add_zero]) : _ = (h + 0) % N)
  omega

/-- How many slots lie between a head and a tail. -/
def gap (N h t : Nat) : Nat := (t + N - h) % N

/-- The distance to the slot `n` after the head is `n`. -/
theorem gap_add {N h n : Nat} (hh : h < N) (hn : n < N) : gap N h ((h + n) % N) = n := by
  unfold gap
  rw [Nat.add_sub_assoc (by omega), Nat.mod_add_mod,
    show h + n + (N - h) = n + N by omega, Nat.add_mod_right, Nat.mod_eq_of_lt hn]

/-! ## §2. What the slots hold. -/

/-- The contents of the occupied slots, oldest first. -/
def contents (f : Nat → α) (N h n : Nat) : List α := (cells N h n).map f

@[simp] theorem contents_zero (f : Nat → α) (N h : Nat) : contents f N h 0 = [] := rfl

/-- What only changes outside the occupied slots does not change the contents. -/
theorem contents_congr {f g : Nat → α} {N h n : Nat} (hfg : ∀ i ∈ cells N h n, f i = g i) :
    contents f N h n = contents g N h n :=
  List.map_congr_left hfg

/-- **Pushing** at the tail appends. -/
theorem contents_push (f : Nat → α) (N h n : Nat) :
    contents f N h (n + 1) = contents f N h n ++ [f ((h + n) % N)] := by
  simp [contents, cells_succ]

/-- **Popping** at the head takes the first element off. -/
theorem contents_pop (f : Nat → α) {N h : Nat} (hh : h < N) (n : Nat) :
    contents f N h (n + 1) = f h :: contents f N ((h + 1) % N) n := by
  simp [contents, cells_cons, Nat.mod_eq_of_lt hh]

end Jos.Ring
