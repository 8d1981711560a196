/-
  Jos.Mem.Accounting — **REFERENCE COUNTS COUNT REFERENCES.**

  A table of references `f : Slot ι → Option Nat` says which slots refer to
  which pages.  `Accounts own spare f s` says that the counts and the free list
  of `s` are right for `f`, except for the pages in `own`, which the kernel
  keeps for itself, and the pages in `spare`, which are in the hands of the
  running function.  The kernel changes its books in four ways, one lemma each:

      take    the first free page becomes a spare page
      add     a slot is filled, and the count goes up
      drop    a slot is emptied, and the count goes down
      giveUp  a spare page goes back to the free list
-/
import Jos.Mem.Alloc

namespace Jos

open Function (update update_of_ne update_self)

variable {ι : Type}

variable {pp q t : Nat} {a : Slot ι}

/-! ## §1. Tables are referred to once. -/

/-- A directory or page table is referred to by its own slot alone. -/
def TableOnly (f : Slot ι → Option Nat) : Prop :=
  ∀ a b p, a.isTable = true → f a = some p → f b = some p → a = b

theorem TableOnly.distinct {f : Slot ι → Option Nat} (h : TableOnly f) : TablesDistinct f :=
  fun a b p ha _ hfa hfb => h a b p ha hfa hfb

section

variable [DecidableEq ι] {f : Slot ι → Option Nat}

theorem TableOnly.update_none (h : TableOnly f) (a : Slot ι) : TableOnly (update f a none) := by
  have hold : ∀ b p, update f a none b = some p → f b = some p := by
    intro b p hb
    by_cases hba : b = a
    · rw [hba, update_self] at hb
      cases hb
    · rwa [update_of_ne hba] at hb
  intro b c p ht hb hc
  exact h b c p ht (hold b p hb) (hold c p hc)

/-- A page that no slot refers to may go into any slot. -/
theorem TableOnly.update_fresh (h : TableOnly f) (a : Slot ι)
    (hfresh : ∀ b, f b ≠ some t) : TableOnly (update f a (some t)) := by
  intro b c p ht hb hc
  by_cases hba : b = a
  · by_cases hca : c = a
    · rw [hba, hca]
    · rw [hba, update_self] at hb
      rw [update_of_ne hca] at hc
      cases hb
      exact absurd hc (hfresh c)
  · rw [update_of_ne hba] at hb
    by_cases hca : c = a
    · rw [hca, update_self] at hc
      cases hc
      exact absurd hb (hfresh b)
    · rw [update_of_ne hca] at hc
      exact h b c p ht hb hc

/-- A page that is no table may be mapped once more. -/
theorem TableOnly.update_page (h : TableOnly f) (ha : a.isTable = false)
    (hpp : ∀ b, b.isTable = true → f b ≠ some pp) :
    TableOnly (update f a (some pp)) := by
  intro b c p ht hb hc
  have hba : b ≠ a := by
    intro hba
    rw [hba, ha] at ht
    cases ht
  rw [update_of_ne hba] at hb
  by_cases hca : c = a
  · rw [hca, update_self] at hc
    cases hc
    exact absurd hb (hpp b ht)
  · rw [update_of_ne hca] at hc
    exact h b c p ht hb hc

end

/-! ## §2. The books. -/

variable [Fintype ι]

/-- The free list and the counts of `s` are right for the references `f`. -/
structure Accounts (own spare : Set Nat) (f : Slot ι → Option Nat)
    (s : Kernel) : Prop where
  free : ∃ l, FreeList s l ∧
    ∀ p, p ∈ l ↔ p < s.npages ∧ p ∉ own ∧ p ∉ spare ∧ hits f p = 0
  count : ∀ p, p < s.npages → p ∉ own → (s.pages p).ppRef = BitVec.ofNat 16 (hits f p)
  ref : ∀ a p, f a = some p → p < s.npages ∧ p ∉ own
  table : TableOnly f
  spare : ∀ p, p ∈ spare → p < s.npages ∧ p ∉ own ∧ hits f p = 0

namespace Accounts

variable {own spare : Set Nat} {f : Slot ι → Option Nat} {s s' : Kernel}

section
variable (h : Accounts own spare f s)
include h

/-- Only the pages and the free list matter. -/
theorem congr (hn : s'.npages = s.npages)
    (hp : s'.pages = s.pages) (hf : s'.pageFreeList = s.pageFreeList) :
    Accounts own spare f s' where
  free := by
    obtain ⟨l, hl, hmem⟩ := h.free
    exact ⟨l, hl.congr hn hp hf, fun p => by rw [hn]; exact hmem p⟩
  count p hlt hown := by
    rw [hp]
    exact h.count p (hn ▸ hlt) hown
  ref a p ha := by
    rw [hn]
    exact h.ref a p ha
  table := h.table
  spare p hsp := by
    rw [hn]
    exact h.spare p hsp

/-- A page that some slot refers to has no link. -/
theorem link (ha : f a = some q) : (s.pages q).ppLink = none := by
  obtain ⟨l, hl, hmem⟩ := h.free
  have hpos := hits_pos_of_eq ha
  refine hl.link q (h.ref a q ha).1 (fun hq => ?_)
  have := ((hmem q).mp hq).2.2.2
  omega

/-- The page at the head of the free list. -/
theorem head (ht : s.pageFreeList = some t) :
    t < s.npages ∧ t ∉ own ∧ t ∉ spare ∧ hits f t = 0 ∧ (s.pages t).ppRef = 0 := by
  obtain ⟨l, hl, hmem⟩ := h.free
  obtain ⟨l', rfl⟩ := hl.head_some ht
  have htl : t ∈ t :: l' := List.mem_cons_self
  obtain ⟨h1, h2, h3, h4⟩ := (hmem t).mp htl
  exact ⟨h1, h2, h3, h4, hl.ref t htl⟩

/-- `take`: the first free page becomes a spare page. -/
theorem take (ht : s.pageFreeList = some t) : Accounts own (insert t spare) f (s.takePage t) := by
  obtain ⟨htlt, htown, -, hthits, htref⟩ := h.head ht
  obtain ⟨l, hl, hmem⟩ := h.free
  obtain ⟨l', rfl⟩ := hl.head_some ht
  have hnd := List.nodup_cons.mp hl.nodup
  refine ⟨⟨l', ?_, fun p => ?_⟩, fun p hlt hown => ?_, h.ref, h.table, ?_⟩
  · exact (hl.pop (s.pages t).ppRef).congr rfl rfl rfl
  · have hp := hmem p
    rw [List.mem_cons] at hp
    constructor
    · intro hpl
      obtain ⟨h1, h2, h3, h4⟩ := hp.mp (Or.inr hpl)
      refine ⟨h1, h2, fun hin => ?_, h4⟩
      rcases Set.mem_insert_iff.mp hin with rfl | hin
      · exact hnd.1 hpl
      · exact h3 hin
    · rintro ⟨h1, h2, h3, h4⟩
      rw [Set.mem_insert_iff, not_or] at h3
      exact (hp.mpr ⟨h1, h2, h3.2, h4⟩).resolve_left h3.1
  · show (update s.pages t _ p).ppRef = _
    by_cases hpt : p = t
    · rw [hpt, update_self]
      exact h.count t htlt htown
    · rw [update_of_ne hpt]
      exact h.count p hlt hown
  · intro p hp
    rcases Set.mem_insert_iff.mp hp with rfl | hp
    · exact ⟨htlt, htown, hthits⟩
    · exact h.spare p hp

/-- `giveUp`: a spare page goes back to the free list. -/
theorem giveUp (ht : t ∈ spare) :
    Accounts own (spare \ {t}) f
      { s.setPage t ⟨s.pageFreeList, 0⟩ with pageFreeList := some t } := by
  obtain ⟨htlt, htown, hthits⟩ := h.spare t ht
  obtain ⟨l, hl, hmem⟩ := h.free
  have htl : t ∉ l := fun htl => ((hmem t).mp htl).2.2.1 ht
  refine ⟨⟨t :: l, hl.push htl htlt, fun p => ?_⟩, fun p hlt hown => ?_, h.ref, h.table, ?_⟩
  · rw [List.mem_cons]
    constructor
    · rintro (rfl | hpl)
      · exact ⟨htlt, htown, fun hin => hin.2 rfl, hthits⟩
      · obtain ⟨h1, h2, h3, h4⟩ := (hmem p).mp hpl
        exact ⟨h1, h2, fun hin => h3 hin.1, h4⟩
    · rintro ⟨h1, h2, h3, h4⟩
      by_cases hpt : p = t
      · exact Or.inl hpt
      · exact Or.inr ((hmem p).mpr ⟨h1, h2, fun hin => h3 ⟨hin, hpt⟩, h4⟩)
  · show (update s.pages t _ p).ppRef = _
    by_cases hpt : p = t
    · rw [hpt, update_self, hthits]
      rfl
    · rw [update_of_ne hpt]
      exact h.count p hlt hown
  · exact fun p hp => h.spare p hp.1

/-- A count that is not at its limit reaches 0 with its last reference. -/
theorem ref_sub_one_eq_zero (ha : f a = some q) (hb : hits f q ≤ 65535) :
    (s.pages q).ppRef - 1 = 0 ↔ hits f q = 1 := by
  have hpos := hits_pos_of_eq ha
  obtain ⟨hlt, hown⟩ := h.ref a q ha
  rw [h.count q hlt hown]
  constructor
  · intro hz
    have hval : (BitVec.ofNat 16 (hits f q) - 1#16).toNat = 0 := congrArg BitVec.toNat hz
    simp only [BitVec.toNat_sub, BitVec.toNat_ofNat] at hval
    omega
  · intro h1
    rw [h1]
    rfl

end

variable [DecidableEq ι]

theorem hits_fill (ha : f a = none) (pp p : Nat) :
    hits (update f a (some pp)) p = hits f p + if pp = p then 1 else 0 := by
  have h := hits_update f a (some pp) p
  rw [ha] at h
  simpa using h

theorem hits_empty (ha : f a = some q) (p : Nat) :
    hits (update f a none) p + (if q = p then 1 else 0) = hits f p := by
  have h := hits_update f a none p
  rw [ha] at h
  simpa using h

/-- `add`: an empty slot is filled with a page that is in use, or was spare. -/
theorem add (h : Accounts own spare f s) (ha : f a = none)
    (hlt : pp < s.npages) (hown : pp ∉ own) (huse : hits f pp ≠ 0 ∨ pp ∈ spare)
    (htab : TableOnly (update f a (some pp))) :
    Accounts own (spare \ {pp}) (update f a (some pp)) (s.incref pp) := by
  obtain ⟨l, hl, hmem⟩ := h.free
  have hppl : pp ∉ l := by
    intro hpl
    obtain ⟨-, -, h3, h4⟩ := (hmem pp).mp hpl
    rcases huse with hu | hu
    · exact hu h4
    · exact h3 hu
  refine ⟨⟨l, (hl.setRef hppl _).congr rfl rfl rfl, fun p => ?_⟩, fun p hplt hpown => ?_,
    fun b p hb => ?_, htab, fun p hp => ?_⟩
  · rw [hits_fill ha, hmem p]
    by_cases hpp : pp = p
    · subst hpp
      constructor
      · rintro ⟨-, -, h3, h4⟩
        rcases huse with hu | hu
        · exact absurd h4 hu
        · exact absurd hu h3
      · rintro ⟨-, -, -, h4⟩
        rw [if_pos rfl] at h4
        omega
    · rw [if_neg hpp, Nat.add_zero]
      have hiff : p ∉ spare \ {pp} ↔ p ∉ spare :=
        not_congr ⟨fun hc => hc.1, fun hc => ⟨hc, fun he => hpp he.symm⟩⟩
      show _ ↔ p < s.npages ∧ _
      rw [hiff]
  · show (update s.pages pp _ p).ppRef = _
    rw [hits_fill ha]
    by_cases hpp : p = pp
    · subst hpp
      rw [update_self, if_pos rfl, BitVec.ofNat_add, ← h.count p hplt hpown]
      rfl
    · rw [update_of_ne hpp, if_neg (fun he => hpp he.symm)]
      exact h.count p hplt hpown
  · by_cases hba : b = a
    · rw [hba, update_self] at hb
      cases hb
      exact ⟨hlt, hown⟩
    · rw [update_of_ne hba] at hb
      exact h.ref b p hb
  · obtain ⟨h1, h2, h3⟩ := h.spare p hp.1
    refine ⟨h1, h2, ?_⟩
    rw [hits_fill ha, if_neg (fun he => hp.2 he.symm), h3]

/-- `drop`: a slot is emptied. -/
theorem drop (h : Accounts own spare f s) (ha : f a = some q) (hb : hits f q ≤ 65535) :
    Accounts own spare (update f a none) (s.decref q) := by
  have hpos := hits_pos_of_eq ha
  obtain ⟨hqlt, hqown⟩ := h.ref a q ha
  obtain ⟨l, hl, hmem⟩ := h.free
  have hql : q ∉ l := by
    intro hql
    have := ((hmem q).mp hql).2.2.2
    omega
  have hqspare : q ∉ spare := by
    intro hs
    have := (h.spare q hs).2.2
    omega
  have hcount : ∀ p, p < s.npages → p ∉ own →
      ((s.decref q).pages p).ppRef = BitVec.ofNat 16 (hits (update f a none) p) := by
    intro p hplt hpown
    have hh := hits_empty ha p
    by_cases hpq : p = q
    · subst hpq
      rw [if_pos rfl] at hh
      have hval : BitVec.ofNat 16 (hits (update f a none) p)
          = (s.pages p).ppRef - 1 := by
        rw [h.count p hplt hpown, ← hh, BitVec.ofNat_add]
        exact (BitVec.add_sub_cancel _ 1#16).symm
      rw [hval]
      unfold Kernel.decref
      split
      next hz =>
        show (update s.pages p _ p).ppRef = _
        rw [update_self, hz]
      next =>
        show (update s.pages p _ p).ppRef = _
        rw [update_self]
    · rw [if_neg (fun he => hpq he.symm), Nat.add_zero] at hh
      rw [hh, ← h.count p hplt hpown]
      unfold Kernel.decref
      split
      · show (update s.pages q _ p).ppRef = _
        rw [update_of_ne hpq]
      · show (update s.pages q _ p).ppRef = _
        rw [update_of_ne hpq]
  have hn : (s.decref q).npages = s.npages := (Kernel.pmapFrame_decref s q).npages
  have hzero : ∀ p, p ≠ q → hits (update f a none) p = hits f p := by
    intro p hpq
    have := hits_empty ha p
    rwa [if_neg (fun he => hpq he.symm), Nat.add_zero] at this
  have hq := hits_empty ha q
  rw [if_pos rfl] at hq
  refine ⟨?_, fun p hplt hpown => hcount p (hn ▸ hplt) hpown, fun b p hbp => ?_,
    h.table.update_none a, fun p hp => ?_⟩
  · -- the page joins the free list exactly when its last reference goes
    by_cases h1 : hits f q = 1
    · have hz := (h.ref_sub_one_eq_zero ha hb).mpr h1
      refine ⟨q :: l, ?_, fun p => ?_⟩
      · unfold Kernel.decref
        rw [if_pos hz]
        exact hl.push hql hqlt
      · rw [List.mem_cons, hn]
        by_cases hpq : p = q
        · subst hpq
          exact ⟨fun _ => ⟨hqlt, hqown, hqspare, by omega⟩, fun _ => Or.inl rfl⟩
        · rw [hzero p hpq, hmem p]
          exact ⟨fun hc => hc.resolve_left hpq, Or.inr⟩
    · have hz : ¬ (s.pages q).ppRef - 1 = 0 :=
        fun hz => h1 ((h.ref_sub_one_eq_zero ha hb).mp hz)
      refine ⟨l, ?_, fun p => ?_⟩
      · unfold Kernel.decref
        rw [if_neg hz]
        exact hl.setRef hql _
      · rw [hn]
        by_cases hpq : p = q
        · subst hpq
          exact ⟨fun hpl => absurd hpl hql, fun hc => absurd hc.2.2.2 (by omega)⟩
        · rw [hzero p hpq, hmem p]
  · rw [hn]
    by_cases hba : b = a
    · rw [hba, update_self] at hbp
      cases hbp
    · rw [update_of_ne hba] at hbp
      exact h.ref b p hbp
  · obtain ⟨h1, h2, h3⟩ := h.spare p hp
    have hpq : p ≠ q := fun he => hqspare (he ▸ hp)
    exact ⟨hn ▸ h1, h2, by rw [hzero p hpq]; exact h3⟩

end Accounts

end Jos
