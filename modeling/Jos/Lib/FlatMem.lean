/-
  Jos.Lib.FlatMem — **A FLAT, BYTE-ADDRESSED MEMORY OF 32-BIT ADDRESSES.**

  Little-endian words at any address, aligned or not, with wrap-around.  The
  lemmas: a word that was stored is loaded again; a store does not change words
  that are at least four bytes away, or bytes outside its own four.
-/
import Mathlib.Data.List.Basic

namespace FlatMem

variable {a b j k w : BitVec 32} {l : List (BitVec 32 × BitVec 32)} {m : Mem}

/-- The contents of an address space. -/
abbrev Mem := BitVec 32 → BitVec 8

/-- The word at `a`. -/
def rd (m : Mem) (a : BitVec 32) : BitVec 32 :=
  m (a + 3#32) ++ (m (a + 2#32) ++ (m (a + 1#32) ++ m a))

/-- Store the word `w` at `a`. -/
def wr (m : Mem) (a w : BitVec 32) : Mem := fun b =>
  if b = a then w.extractLsb' 0 8
  else if b = a + 1#32 then w.extractLsb' 8 8
  else if b = a + 2#32 then w.extractLsb' 16 8
  else if b = a + 3#32 then w.extractLsb' 24 8
  else m b

theorem add_ne_self (hk : k ≠ 0#32) : a + k ≠ a := by
  intro h
  exact hk (by simpa using h)

theorem add_ne_add (h : j ≠ k) : a + j ≠ a + k := by
  intro hc
  exact h (by simpa using hc)

/-- The four bytes of a word, put together. -/
theorem join_bytes (w : BitVec 32) :
    w.extractLsb' 24 8 ++ (w.extractLsb' 16 8 ++ (w.extractLsb' 8 8 ++ w.extractLsb' 0 8)) = w := by
  ext i hi
  have hbit : ∀ j, j = i → w.getLsbD j = w[i] := fun j hj => by
    rw [hj]
    exact BitVec.getLsbD_eq_getElem hi
  simp only [BitVec.getElem_append, BitVec.getElem_extractLsb']
  split
  · split
    · split
      · exact hbit _ (by omega)
      · exact hbit _ (by omega)
    · exact hbit _ (by omega)
  · exact hbit _ (by omega)

theorem rd_wr_self (m : Mem) (a w : BitVec 32) : rd (wr m a w) a = w := by
  unfold rd wr
  rw [if_pos rfl, if_neg (add_ne_self (by decide)), if_pos rfl,
    if_neg (add_ne_self (by decide)), if_neg (add_ne_add (by decide)), if_pos rfl,
    if_neg (add_ne_self (by decide)), if_neg (add_ne_add (by decide)),
    if_neg (add_ne_add (by decide)), if_pos rfl]
  exact join_bytes w

/-- A store changes its own four bytes only. -/
theorem wr_of_far (h : 4 ≤ (b - a).toNat) : wr m a w b = m b := by
  have hne : ∀ k : BitVec 32, k.toNat < 4 → b ≠ a + k := by
    rintro k hk rfl
    rw [show a + k - a = k by bv_omega] at h
    omega
  unfold wr
  rw [if_neg (fun hc => hne 0#32 (by decide) (by rw [hc, BitVec.add_zero])),
    if_neg (hne 1#32 (by decide)), if_neg (hne 2#32 (by decide)), if_neg (hne 3#32 (by decide))]

/-- The words at `a` and `b` do not overlap. -/
def Apart (a b : BitVec 32) : Prop := 4 ≤ (b - a).toNat ∧ 4 ≤ (a - b).toNat

instance (a b : BitVec 32) : Decidable (Apart a b) := inferInstanceAs (Decidable (_ ∧ _))

theorem rd_wr_of_apart (h : Apart a b) : rd (wr m a w) b = rd m b := by
  have hfar : ∀ k : BitVec 32, k.toNat < 4 → wr m a w (b + k) = m (b + k) := by
    intro k hk
    refine wr_of_far ?_
    obtain ⟨hab, hba⟩ := h
    rw [BitVec.toNat_sub] at *
    rw [BitVec.toNat_add]
    omega
  have h0 := hfar 0#32 (by decide)
  rw [BitVec.add_zero] at h0
  unfold rd
  rw [hfar 3#32 (by decide), hfar 2#32 (by decide), hfar 1#32 (by decide), h0]

/-- Distances between words of one frame. -/
theorem apart_add (h : Apart j k) : Apart (a + j) (a + k) := by
  have hsub : ∀ x y : BitVec 32, a + x - (a + y) = x - y := fun x y => by bv_omega
  unfold Apart
  rw [hsub, hsub]
  exact h

/-- Words are equal when their bytes are. -/
theorem rd_congr {m m' : Mem} (h : ∀ k : BitVec 32, k.toNat < 4 →
    m' (a + k) = m (a + k)) : rd m' a = rd m a := by
  have h0 := h 0#32 (by decide)
  rw [BitVec.add_zero] at h0
  unfold rd
  rw [h 3#32 (by decide), h 2#32 (by decide), h 1#32 (by decide), h0]

/-- Several stores, one after the other. -/
def stores (m : Mem) (l : List (BitVec 32 × BitVec 32)) : Mem :=
  l.foldl (fun m p => wr m p.1 p.2) m

theorem stores_of_far (h : ∀ p ∈ l, 4 ≤ (b - p.1).toNat) : stores m l b = m b := by
  induction l generalizing m with
  | nil => rfl
  | cons p l ih =>
    show stores (wr m p.1 p.2) l b = m b
    rw [ih (fun q hq => h q (List.mem_cons_of_mem _ hq)), wr_of_far (h p List.mem_cons_self)]

/-- Stores that do not overlap: each word that was stored is there. -/
theorem rd_stores
    (hl : l.Pairwise fun p q => Apart p.1 q.1) {p : BitVec 32 × BitVec 32} (hp : p ∈ l) :
    rd (stores m l) p.1 = p.2 := by
  induction l generalizing m with
  | nil => cases hp
  | cons q l ih =>
    rw [List.pairwise_cons] at hl
    show rd (stores (wr m q.1 q.2) l) p.1 = p.2
    rcases List.mem_cons.mp hp with rfl | hp
    · have hkeep : rd (stores (wr m p.1 p.2) l) p.1 = rd (wr m p.1 p.2) p.1 := by
        refine rd_congr fun k hk => stores_of_far fun q hq => ?_
        obtain ⟨h1, h2⟩ := hl.1 q hq
        rw [BitVec.toNat_sub] at *
        rw [BitVec.toNat_add]
        omega
      rw [hkeep, rd_wr_self]
    · exact ih hl.2 hp

end FlatMem
