/-
  Jos.Mem.BootMap — **SETTING UP THE PAGE LIST AND `kern_pgdir`.**

  `page_init` puts every page it does not reserve on the free list;
  `boot_map_region` then takes page tables for `kern_pgdir` from that list.
  These pages belong to the kernel from there on, next to the reserved ones
  (`kernOwn`).  A region is mapped completely, or memory was short: with a
  free page for every unused entry of `kern_pgdir` (`Room`) it never is.
-/
import Jos.Env.Table

namespace Jos

open Exec
open Function (update update_of_ne update_self)

variable {r : MapRegion} {i t : Nat}

/-! ## §1. `page_init`. -/

/-- The pages `page_init` marks as in use. -/
def reserved (b : BootInfo) : Set Nat :=
  {p | p < b.npages ∧ pageReserved b.npagesBasemem b.numAlloc p = true}

/-- What `page_init` has done when its counter is `i`. -/
structure InitUpTo (res : Nat → Bool) (s₀ : Kernel) (i : Nat) (s : Kernel) : Prop where
  frame : s = { s₀ with pages := s.pages, pageFreeList := s.pageFreeList }
  free : ∃ l, FreeList s l ∧ ∀ p, p ∈ l ↔ p < i ∧ res p = false
  ref : ∀ p, (s.pages p).ppRef = if p < i ∧ res p = true then 1 else 0

theorem InitUpTo.step {res : Nat → Bool} {s₀ s : Kernel}
    (h : InitUpTo res s₀ i s) (hi : i < s₀.npages) :
    InitUpTo res s₀ (i + 1)
      (if res i = true then s.setPage i { s.pages i with ppRef := 1 }
        else { s.setPage i { ppRef := 0, ppLink := s.pageFreeList } with
          pageFreeList := some i }) := by
  obtain ⟨l, hl, hmem⟩ := h.free
  have hil : i ∉ l := fun hc => absurd ((hmem i).mp hc).1 (by omega)
  have hn : s.npages = s₀.npages := by rw [h.frame]
  have hlt : ∀ p, p < i + 1 ↔ p < i ∨ p = i := fun p => by omega
  by_cases hr : res i = true
  · rw [if_pos hr]
    refine ⟨?_, ⟨l, hl.setRef hil 1, fun p => ?_⟩, fun p => ?_⟩
    · conv_lhs => rw [h.frame]
      rfl
    · rw [hmem p, hlt]
      constructor
      · rintro ⟨h1, h2⟩
        exact ⟨Or.inl h1, h2⟩
      · rintro ⟨h1 | rfl, h2⟩
        · exact ⟨h1, h2⟩
        · rw [hr] at h2
          cases h2
    · show (update s.pages i _ p).ppRef = _
      by_cases hp : p = i
      · subst hp
        rw [update_self, if_pos ⟨by omega, hr⟩]
      · rw [update_of_ne hp, h.ref p]
        have hiff : p < i + 1 ↔ p < i := by omega
        simp only [hiff]
  · rw [if_neg hr]
    refine ⟨?_, ⟨i :: l, hl.push hil (by omega), fun p => ?_⟩, fun p => ?_⟩
    · conv_lhs => rw [h.frame]
      rfl
    · rw [List.mem_cons, hmem p, hlt]
      constructor
      · rintro (rfl | ⟨h1, h2⟩)
        · exact ⟨Or.inr rfl, by simpa using hr⟩
        · exact ⟨Or.inl h1, h2⟩
      · rintro ⟨h1 | rfl, h2⟩
        · exact Or.inr ⟨h1, h2⟩
        · exact Or.inl rfl
    · show (update s.pages i _ p).ppRef = _
      by_cases hp : p = i
      · subst hp
        rw [update_self, if_neg (fun hc => hr hc.2)]
      · rw [update_of_ne hp, h.ref p]
        have hiff : p < i + 1 ↔ p < i := by omega
        simp only [hiff]

/-- **`page_init`**: the free list holds the pages that are not reserved. -/
theorem pageInit_ok {s : Kernel} (hpages : ∀ p, s.pages p = ⟨none, 0⟩)
    (npagesBasemem numAlloc : Nat) :
    ∃ s', pageInit npagesBasemem numAlloc s = .ok () s' ∧
      InitUpTo (pageReserved npagesBasemem numAlloc) s s.npages s' := by
  have hstart : InitUpTo (pageReserved npagesBasemem numAlloc) s 0
      { s with pageFreeList := none } := by
    refine ⟨rfl, ⟨[], ⟨rfl, List.nodup_nil, by simp, by simp, fun p _ _ => ?_⟩, by simp⟩,
      fun p => ?_⟩
    · rw [hpages]
    · rw [hpages, if_neg (by omega)]
  have hloop : wp (forUp (fun i => (modify fun u : Kernel =>
        if pageReserved npagesBasemem numAlloc i then
          u.setPage i { u.pages i with ppRef := 1 }
        else
          { u.setPage i { ppRef := 0, ppLink := u.pageFreeList } with
            pageFreeList := some i } : KM Unit)) 0 s.npages)
      (fun _ u => InitUpTo (pageReserved npagesBasemem numAlloc) s (0 + s.npages) u)
      (fun _ _ => False) { s with pageFreeList := none } :=
    wp_forUp s.npages 0 _ hstart (fun i u _ hi hu => hu.step (by omega))
  obtain ⟨_, s', hrun, hs'⟩ := exists_ok_of_wp hloop
  rw [Nat.zero_add] at hs'
  refine ⟨s', ?_, hs'⟩
  unfold pageInit
  exact hrun

/-! ## §2. The tables of `kern_pgdir`. -/

/-- The page tables of `kern_pgdir`. -/
def kernTables (s : Kernel) : Set Nat :=
  {t | ∃ i, NPDUSER ≤ i ∧ i < NPTENTRIES ∧ i ≠ pdx UVPT ∧
    target s.mem s.kernPgdir i = some t}

/-- The pages the kernel keeps: reserved by `page_init`, or a page table of
`kern_pgdir`. -/
def kernOwn (b : BootInfo) (s : Kernel) : Set Nat := reserved b ∪ kernTables s

/-- The number of unused entries of `kern_pgdir`. -/
def absentPdes (s : Kernel) : Nat :=
  (Finset.univ.filter fun i : Fin NPTENTRIES => target s.mem s.kernPgdir i = none).card

/-- There is a free page for every page table that may be needed. -/
def Room (s : Kernel) : Prop := ∃ l, FreeList s l ∧ absentPdes s ≤ l.length

/-- What holds of `kern_pgdir` and the page list while `boot_map_region` works. -/
structure BootInv (b : BootInfo) (s : Kernel) : Prop where
  npages : s.npages = b.npages
  kern : s.kernPgdir = b.kernPgdir
  free : ∃ l, FreeList s l ∧ ∀ p, p ∈ l ↔ p < b.npages ∧ p ∉ kernOwn b s
  own_ref : ∀ p ∈ kernOwn b s, (s.pages p).ppRef = 1
  user : ∀ i < NPDUSER, target s.mem s.kernPgdir i = none
  self : target s.mem s.kernPgdir (pdx UVPT) = some s.kernPgdir
  table : ∀ t ∈ kernTables s, t < b.npages ∧ t ∉ reserved b

/-- `s'` has more of the kernel's address space mapped than `s`. -/
structure BootGrows (s s' : Kernel) : Prop where
  frame : Kernel.PmapFrame s s'
  wrap : s'.refWrapped = s.refWrapped
  keep : ∀ i t, target s.mem s.kernPgdir i = some t →
    target s'.mem s'.kernPgdir i = some t
  room : Room s → Room s'

theorem BootGrows.refl (s : Kernel) : BootGrows s s :=
  ⟨.refl s, rfl, fun _ _ h => h, fun h => h⟩

theorem BootGrows.trans {s t u : Kernel} (h : BootGrows s t) (h' : BootGrows t u) : BootGrows s u :=
  ⟨h.frame.trans h'.frame, h'.wrap.trans h.wrap,
    fun i p hp => h'.keep i p (h.keep i p hp), fun hr => h'.room (h.room hr)⟩

/-- `kern_pgdir` itself is reserved. -/
theorem kern_reserved (b : BootInfo) : b.kernPgdir ∈ reserved b := by
  have h1 := b.kern_ge
  have h2 := b.kern_lt
  have h3 := b.base_le
  refine ⟨b.kern_lt_npages, ?_⟩
  unfold pageReserved
  unfold EXTPHYSMEM_PAGE IOPHYSMEM_PAGE at *
  have hge : b.npagesBasemem + (256 - 160) ≤ b.kernPgdir := by omega
  have hlt : b.kernPgdir < b.npagesBasemem + (256 - 160) + b.numAlloc := by omega
  simp [hge, hlt]

section

variable {b : BootInfo} {s : Kernel}

/-- Pages that are not tables of `kern_pgdir`, and `kern_pgdir` itself, are
not where `boot_map_region` stores its entries. -/
theorem BootInv.table_ne_kern (h : BootInv b s) (ht : t ∈ kernTables s) : t ≠ s.kernPgdir := by
  intro he
  rw [h.kern] at he
  exact (h.table t ht).2 (he ▸ kern_reserved b)

/-- A store outside `kern_pgdir` does not matter. -/
theorem BootInv.setWord (h : BootInv b s) (ht : t ≠ s.kernPgdir) (j : Nat) (w : Word) :
    BootInv b (s.setWord t j w) ∧ BootGrows s (s.setWord t j w) := by
  have htarget : ∀ i, target (s.setWord t j w).mem s.kernPgdir i
      = target s.mem s.kernPgdir i := by
    intro i
    unfold target
    rw [Kernel.setWord_mem, putWord_of_ne _ _ (Or.inl (Ne.symm ht))]
  have htables : kernTables (s.setWord t j w) = kernTables s := by
    unfold kernTables
    simp only [show (s.setWord t j w).kernPgdir = s.kernPgdir from rfl, htarget]
  have habsent : absentPdes (s.setWord t j w) = absentPdes s := by
    unfold absentPdes
    simp only [show (s.setWord t j w).kernPgdir = s.kernPgdir from rfl, htarget]
  have hown : kernOwn b (s.setWord t j w) = kernOwn b s := by
    unfold kernOwn
    rw [htables]
  constructor
  · refine ⟨h.npages, h.kern, ?_, ?_, fun i hi => ?_, ?_, ?_⟩
    · obtain ⟨l, hl, hmem⟩ := h.free
      exact ⟨l, hl.congr rfl rfl rfl, by rw [hown]; exact hmem⟩
    · rw [hown]
      exact h.own_ref
    · exact (htarget i).trans (h.user i hi)
    · exact (htarget _).trans h.self
    · rw [htables]
      exact h.table
  · refine ⟨Kernel.pmapFrame_setWord s t j w, rfl, fun i p hp => (htarget i).trans hp, ?_⟩
    rintro ⟨l, hl, hle⟩
    exact ⟨l, hl.congr rfl rfl rfl, by rw [habsent]; exact hle⟩

/-- The head of the free list is neither reserved nor a table. -/
theorem BootInv.head (h : BootInv b s) (ht : s.pageFreeList = some t) :
    t < b.npages ∧ t ∉ kernOwn b s ∧ (s.pages t).ppRef = 0 := by
  obtain ⟨l, hl, hmem⟩ := h.free
  obtain ⟨l', rfl⟩ := hl.head_some ht
  obtain ⟨hlt, hown⟩ := (hmem t).mp List.mem_cons_self
  exact ⟨hlt, hown, hl.ref t List.mem_cons_self⟩

/-- The entries of `kern_pgdir` after a table was put into entry `i`. -/
theorem target_newTable (hk : t ≠ s.kernPgdir) (hlt : t < 2 ^ 20) (i' : Nat) :
    target (s.newTable s.kernPgdir i t).mem s.kernPgdir i'
      = if i' = i then some t else target s.mem s.kernPgdir i' := by
  unfold target
  rw [Kernel.newTable_mem]
  by_cases hi : i' = i
  · rw [if_pos hi, hi, putWord_same, if_pos (tableEntry_present t), tableEntry_page hlt]
  · rw [if_neg hi, putWord_of_ne _ _ (Or.inr hi), update_of_ne (Ne.symm hk)]

theorem kernTables_newTable (hk : t ≠ s.kernPgdir) (hlt : t < 2 ^ 20)
    (habs : target s.mem s.kernPgdir i = none) (h1 : NPDUSER ≤ i) (h2 : i < NPTENTRIES)
    (h3 : i ≠ pdx UVPT) : kernTables (s.newTable s.kernPgdir i t) = insert t (kernTables s) := by
  ext p
  unfold kernTables
  simp only [show (s.newTable s.kernPgdir i t).kernPgdir = s.kernPgdir from rfl,
    target_newTable hk hlt, Set.mem_ofPred_eq, Set.mem_insert_iff]
  constructor
  · rintro ⟨i', hi1, hi2, hi3, hp⟩
    by_cases hi : i' = i
    · rw [if_pos hi] at hp
      exact Or.inl (Option.some.inj hp).symm
    · rw [if_neg hi] at hp
      exact Or.inr ⟨i', hi1, hi2, hi3, hp⟩
  · rintro (rfl | ⟨i', hi1, hi2, hi3, hp⟩)
    · exact ⟨i, h1, h2, h3, by rw [if_pos rfl]⟩
    · have hi : i' ≠ i := by
        intro hi
        rw [hi, habs] at hp
        cases hp
      exact ⟨i', hi1, hi2, hi3, by rw [if_neg hi]; exact hp⟩

theorem absentPdes_newTable (hk : t ≠ s.kernPgdir) (hlt : t < 2 ^ 20)
    (habs : target s.mem s.kernPgdir i = none) (h2 : i < NPTENTRIES) :
    absentPdes (s.newTable s.kernPgdir i t) + 1 = absentPdes s := by
  have hmem : (⟨i, h2⟩ : Fin NPTENTRIES) ∈ Finset.univ.filter
      (fun i' : Fin NPTENTRIES => target s.mem s.kernPgdir i' = none) := by
    simp [habs]
  have herase : (Finset.univ.filter fun i' : Fin NPTENTRIES =>
        target (s.newTable s.kernPgdir i t).mem s.kernPgdir i' = none)
      = (Finset.univ.filter fun i' : Fin NPTENTRIES =>
        target s.mem s.kernPgdir i' = none).erase ⟨i, h2⟩ := by
    ext i'
    simp only [Finset.mem_filter, Finset.mem_univ, true_and, Finset.mem_erase, ne_eq,
      target_newTable hk hlt, Fin.ext_iff]
    by_cases hi : i'.val = i
    · simp [hi]
    · simp [hi]
  unfold absentPdes
  rw [show (s.newTable s.kernPgdir i t).kernPgdir = s.kernPgdir from rfl, herase]
  exact Finset.card_erase_add_one hmem

/-- A free page becomes a table of `kern_pgdir`. -/
theorem BootInv.newTable (h : BootInv b s) (ht : s.pageFreeList = some t)
    (habs : target s.mem s.kernPgdir i = none) (h1 : NPDUSER ≤ i) (h2 : i < NPTENTRIES)
    (h3 : i ≠ pdx UVPT) :
    BootInv b (s.newTable s.kernPgdir i t) ∧ BootGrows s (s.newTable s.kernPgdir i t) := by
  obtain ⟨htlt, htown, htref⟩ := h.head ht
  have hnp := b.npages_le
  have hlt : t < 2 ^ 20 := by omega
  have hk : t ≠ s.kernPgdir := by
    intro he
    rw [h.kern] at he
    exact htown (Or.inl (he ▸ kern_reserved b))
  have hres : t ∉ reserved b := fun hr => htown (Or.inl hr)
  have htables := kernTables_newTable hk hlt habs h1 h2 h3
  have hown : kernOwn b (s.newTable s.kernPgdir i t) = insert t (kernOwn b s) := by
    unfold kernOwn
    rw [htables, Set.union_insert]
  have hpop : ∀ {l}, FreeList s (t :: l) → FreeList (s.newTable s.kernPgdir i t) l :=
    fun hl => (hl.pop 1).congr rfl rfl rfl
  constructor
  · refine ⟨h.npages, h.kern, ?_, fun p hp => ?_, fun j hj => ?_, ?_, fun p hp => ?_⟩
    · obtain ⟨l, hl, hmem⟩ := h.free
      obtain ⟨l', rfl⟩ := hl.head_some ht
      have htl' := (List.nodup_cons.mp hl.nodup).1
      refine ⟨l', hpop hl, fun p => ?_⟩
      have hp := hmem p
      rw [List.mem_cons] at hp
      rw [hown, Set.mem_insert_iff]
      constructor
      · intro hpl
        obtain ⟨hp1, hp2⟩ := hp.mp (Or.inr hpl)
        exact ⟨hp1, fun hc => hc.elim (fun he => htl' (he ▸ hpl)) hp2⟩
      · rintro ⟨hp1, hp2⟩
        rw [not_or] at hp2
        exact (hp.mpr ⟨hp1, hp2.2⟩).resolve_left hp2.1
    · show (update s.pages t ⟨none, 1⟩ p).ppRef = 1
      by_cases hpt : p = t
      · rw [hpt, update_self]
      · rw [update_of_ne hpt]
        rw [hown, Set.mem_insert_iff] at hp
        exact h.own_ref p (hp.resolve_left hpt)
    · show target (s.newTable s.kernPgdir i t).mem s.kernPgdir j = none
      rw [target_newTable hk hlt, if_neg (by omega)]
      exact h.user j hj
    · show target (s.newTable s.kernPgdir i t).mem s.kernPgdir _ = some s.kernPgdir
      rw [target_newTable hk hlt, if_neg (Ne.symm h3)]
      exact h.self
    · rw [htables, Set.mem_insert_iff] at hp
      rcases hp with rfl | hp
      · exact ⟨htlt, hres⟩
      · exact h.table p hp
  · refine ⟨Kernel.pmapFrame_newTable s _ i t, rfl, fun j p hp => ?_, ?_⟩
    · show target (s.newTable s.kernPgdir i t).mem s.kernPgdir j = some p
      have hj : j ≠ i := by
        intro hj
        rw [hj, habs] at hp
        cases hp
      rw [target_newTable hk hlt, if_neg hj]
      exact hp
    · rintro ⟨l, hl, hle⟩
      obtain ⟨l', rfl⟩ := hl.head_some ht
      have hcard := absentPdes_newTable hk hlt habs h2
      rw [List.length_cons] at hle
      exact ⟨l', hpop hl, by omega⟩

/-! ## §3. What `kern_pgdir` maps. -/

/-- The page table entry of `kern_pgdir` for page `v`; 0 where there is no
page table. -/
def kernPte (s : Kernel) (v : Nat) : Word :=
  match target s.mem s.kernPgdir (v / NPTENTRIES) with
  | none => 0#32
  | some t => s.mem t (v % NPTENTRIES)

/-- `kern_pgdir` stands for the map `f` from pages to entries: beside the
window of the self-map every page has its entry of `f`, and no two directory
entries share a page table. -/
structure KernMap (f : Nat → Word) (s : Kernel) : Prop where
  inj : ∀ i j t, i < NPTENTRIES → j < NPTENTRIES → i ≠ pdx UVPT → j ≠ pdx UVPT →
    target s.mem s.kernPgdir i = some t → target s.mem s.kernPgdir j = some t → i = j
  pte : ∀ v, v < 2 ^ 20 → v / NPTENTRIES ≠ pdx UVPT → kernPte s v = f v

/-- A table of `kern_pgdir` belongs to an entry above `UTOP`. -/
theorem BootInv.mem_tables (h : BootInv b s) (hi : i < NPTENTRIES)
    (hw : i ≠ pdx UVPT) (ht : target s.mem s.kernPgdir i = some t) : t ∈ kernTables s := by
  refine ⟨i, Nat.le_of_not_lt fun hlt => ?_, hi, hw, ht⟩
  rw [h.user i hlt] at ht
  cases ht

/-- A store into entry `j` of the table in entry `i` changes that page only. -/
theorem KernMap.setWord {f : Nat → Word} (hm : KernMap f s) (h : BootInv b s) {i j t : Nat}
    (hi : i < NPTENTRIES) (hj : j < NPTENTRIES) (hw : i ≠ pdx UVPT)
    (ht : target s.mem s.kernPgdir i = some t) (w : Word) :
    KernMap (update f (i * NPTENTRIES + j) w) (s.setWord t j w) := by
  have hk := h.table_ne_kern (h.mem_tables hi hw ht)
  have htarget : ∀ i', target (s.setWord t j w).mem s.kernPgdir i'
      = target s.mem s.kernPgdir i' :=
    fun i' => target_putWord_of_ne s.mem w (Or.inl (Ne.symm hk))
  refine ⟨fun i₁ i₂ t' => ?_, fun v hv hvw => ?_⟩
  · rw [show (s.setWord t j w).kernPgdir = s.kernPgdir from rfl, htarget, htarget]
    exact hm.inj i₁ i₂ t'
  · have hvi : v / NPTENTRIES < NPTENTRIES := by unfold NPTENTRIES; omega
    have hpte := hm.pte v hv hvw
    unfold kernPte at hpte ⊢
    rw [show (s.setWord t j w).kernPgdir = s.kernPgdir from rfl, htarget]
    by_cases he : v = i * NPTENTRIES + j
    · have hdiv : v / NPTENTRIES = i := by unfold NPTENTRIES at *; omega
      have hmod : v % NPTENTRIES = j := by unfold NPTENTRIES at *; omega
      rw [hdiv, hmod, ht, he, update_self]
      exact putWord_same s.mem t j w
    · rw [update_of_ne he, ← hpte]
      cases hv' : target s.mem s.kernPgdir (v / NPTENTRIES) with
      | none => rfl
      | some t' =>
        -- another table, or another entry of this one
        refine putWord_of_ne s.mem w ?_
        by_cases hti : t' = t
        · have := hm.inj _ _ t hvi hi hvw hw (hti ▸ hv') ht
          exact Or.inr fun hc => he (by unfold NPTENTRIES at *; omega)
        · exact Or.inl hti

/-- A new page table is cleared: it maps nothing yet. -/
theorem KernMap.newTable {f : Nat → Word} (hm : KernMap f s) (h : BootInv b s)
    (ht : s.pageFreeList = some t) (habs : target s.mem s.kernPgdir i = none) :
    KernMap f (s.newTable s.kernPgdir i t) := by
  obtain ⟨htlt, htown, -⟩ := h.head ht
  have hnp := b.npages_le
  have hk : t ≠ s.kernPgdir := fun he => htown (Or.inl (by rw [he, h.kern]; exact kern_reserved b))
  have htarget := target_newTable (i := i) hk (by omega : t < 2 ^ 20)
  have hfresh : ∀ i' t', i' < NPTENTRIES → i' ≠ pdx UVPT →
      target s.mem s.kernPgdir i' = some t' → t' ≠ t :=
    fun i' t' hi' hw' ht' he => htown (Or.inr (he ▸ h.mem_tables hi' hw' ht'))
  refine ⟨fun i₁ i₂ t' h1 h2 hw1 hw2 => ?_, fun v hv hvw => ?_⟩
  · rw [show (s.newTable s.kernPgdir i t).kernPgdir = s.kernPgdir from rfl, htarget, htarget]
    split <;> split
    · intros; omega
    · exact fun he ht' => absurd (Option.some.inj he).symm (hfresh i₂ t' h2 hw2 ht')
    · exact fun ht' he => absurd (Option.some.inj he).symm (hfresh i₁ t' h1 hw1 ht')
    · exact hm.inj i₁ i₂ t' h1 h2 hw1 hw2
  · have hvi : v / NPTENTRIES < NPTENTRIES := by unfold NPTENTRIES; omega
    rw [← hm.pte v hv hvw]
    unfold kernPte
    rw [show (s.newTable s.kernPgdir i t).kernPgdir = s.kernPgdir from rfl, htarget,
      Kernel.newTable_mem]
    split_ifs with hi
    · rw [hi, habs]
      show putWord _ s.kernPgdir i (Kernel.tableEntry t) t (v % NPTENTRIES) = 0#32
      rw [putWord_of_ne _ _ (Or.inl hk), update_self]
    · cases hv' : target s.mem s.kernPgdir (v / NPTENTRIES) with
      | none => rfl
      | some t' =>
        have htab := h.mem_tables hvi hvw hv'
        show putWord _ s.kernPgdir i (Kernel.tableEntry t) t' (v % NPTENTRIES) = _
        rw [putWord_of_ne _ _ (Or.inl (h.table_ne_kern htab)),
          update_of_ne (hfresh _ t' hvi hvw hv')]

/-- The first `k` pages of a region, put into a map. -/
def MapRegion.putPages (r : MapRegion) (k : Nat) (f : Nat → Word) (v : Nat) : Word :=
  if r.va.toNat / 4096 ≤ v ∧ v < r.va.toNat / 4096 + k then
    (r.pa + BitVec.ofNat 32 (v - r.va.toNat / 4096) * PGSIZE) ||| r.perm ||| PTE_P
  else f v

/-- **What `boot_map_region` is for**: the pages of `[va, va + size)` are
mapped to `[pa, pa + size)`, all others as before. -/
def MapRegion.put (r : MapRegion) : (Nat → Word) → Nat → Word :=
  r.putPages (r.size / PGSIZE).toNat

theorem MapRegion.putPages_zero (r : MapRegion) (f : Nat → Word) : r.putPages 0 f = f := by
  funext v
  exact if_neg (by omega)

theorem MapRegion.putPages_succ (r : MapRegion) (k : Nat) (f : Nat → Word) :
    r.putPages (k + 1) f = update (r.putPages k f) (r.va.toNat / 4096 + k)
      ((r.pa + BitVec.ofNat 32 k * PGSIZE) ||| r.perm ||| PTE_P) := by
  funext v
  unfold putPages
  by_cases hv : v = r.va.toNat / 4096 + k
  · subst hv
    rw [update_self, if_pos ⟨by omega, by omega⟩, Nat.add_sub_cancel_left]
  · rw [update_of_ne hv]
    have : v < r.va.toNat / 4096 + (k + 1) ↔ v < r.va.toNat / 4096 + k := by omega
    simp only [this]

/-! ## §4. `boot_map_region`. -/

/-- One page of `boot_map_region`: its entry is stored, or there was no page
for its table. -/
theorem BootInv.mapPage (h : BootInv b s) {va : Word} (h1 : NPDUSER ≤ pdx va)
    (h3 : pdx va ≠ pdx UVPT) (w : Word) :
    wp (do
        match ← pgdirWalk b.kernPgdir va true with
        | none => undef "boot_map_region: tb_entry is NULL"
        | some (p, j) => modify fun s => s.setWord p j w : KM Unit)
      (fun _ s' => BootInv b s' ∧ BootGrows s s' ∧
        (∃ t, target s'.mem s'.kernPgdir (pdx va) = some t) ∧
        ∀ f, KernMap f s → KernMap (update f (va.toNat / 4096) w) s')
      (fun _ _ => ¬ Room s) s := by
  have h2 : pdx va < NPTENTRIES := pdx_lt va
  have hvpn : va.toNat / 4096 = pdx va * NPTENTRIES + ptx va := by
    rw [pdx_eq, ptx_eq]
    unfold NPTENTRIES
    omega
  rw [hvpn]
  rw [← h.kern]
  cases ht : target s.mem s.kernPgdir (pdx va) with
  | some t =>
    have htab : t ∈ kernTables s := ⟨pdx va, h1, h2, h3, ht⟩
    have htlt := (h.table t htab).1
    have hne := h.table_ne_kern htab
    refine wp_bind_ok (pgdirWalk_present true ht (by rw [h.npages]; exact htlt)) ?_
    obtain ⟨hinv, hgrow⟩ := h.setWord hne (ptx va) w
    exact wp_of_ok rfl ⟨hinv, hgrow, ⟨t, hgrow.keep _ _ ht⟩,
      fun f hm => hm.setWord h h2 (ptx_lt va) h3 ht w⟩
  | none =>
    cases hf : s.pageFreeList with
    | none =>
      refine wp_bind_ok (pgdirWalk_oom ht hf) ?_
      rintro ⟨l, hl, hle⟩
      -- the empty list has no page for the missing table
      rw [hl.head_none hf] at hle
      have hpos : 0 < absentPdes s :=
        Finset.card_pos.mpr ⟨⟨pdx va, h2⟩, by simp [ht]⟩
      rw [List.length_nil] at hle
      omega
    | some t =>
      obtain ⟨htlt, -, htref⟩ := h.head hf
      have hnp := b.npages_le
      refine wp_bind_ok (pgdirWalk_create ht hf htref (by rw [h.npages]; exact htlt)
        (by rw [h.npages]; omega)) ?_
      obtain ⟨hinv, hgrow⟩ := h.newTable hf ht h1 h2 h3
      have hkey : target (s.newTable s.kernPgdir (pdx va) t).mem
          (s.newTable s.kernPgdir (pdx va) t).kernPgdir (pdx va) = some t := by
        unfold target
        rw [show (s.newTable s.kernPgdir (pdx va) t).kernPgdir = s.kernPgdir from rfl,
          Kernel.newTable_mem, putWord_same, if_pos (tableEntry_present t),
          tableEntry_page (by omega)]
      have hne := hinv.table_ne_kern ⟨pdx va, h1, h2, h3, hkey⟩
      obtain ⟨hinv', hgrow'⟩ := hinv.setWord hne (ptx va) w
      exact wp_of_ok rfl ⟨hinv', hgrow.trans hgrow', ⟨t, hgrow'.keep _ _ hkey⟩,
        fun f hm => (hm.newTable h hf ht).setWord hinv h2 (ptx_lt va) h3 hkey w⟩

/-- `[va, va + size)` lies above `UTOP`, beside the window of the self-map. -/
abbrev AboveUtop (va size : Word) : Prop :=
  UTOP.toNat ≤ va.toNat ∧ va.toNat + size.toNat ≤ 2 ^ 32 ∧
    (va.toNat + size.toNat ≤ UVPT.toNat ∨ UVPT.toNat + PTSIZE.toNat ≤ va.toNat)

def MapRegion.Above (r : MapRegion) : Prop := AboveUtop r.va r.size

theorem div_pgsize_toNat (w : Word) : (w / PGSIZE).toNat = w.toNat / 4096 := by
  rfl

/-- The address of page `i` of a region. -/
theorem MapRegion.Above.addr (h : r.Above) (hi : i < (r.size / PGSIZE).toNat) :
    (r.va + BitVec.ofNat 32 i * PGSIZE).toNat = r.va.toNat + i * 4096 := by
  have hs := r.size.isLt
  have hhi := h.2.1
  rw [div_pgsize_toNat] at hi
  rw [BitVec.toNat_add, BitVec.toNat_mul, BitVec.toNat_ofNat,
    show PGSIZE.toNat = 4096 from rfl]
  omega

theorem MapRegion.Above.page (h : r.Above) (hi : i < (r.size / PGSIZE).toNat) :
    NPDUSER ≤ pdx (r.va + BitVec.ofNat 32 i * PGSIZE) ∧
      pdx (r.va + BitVec.ofNat 32 i * PGSIZE) ≠ pdx UVPT := by
  have hva := h.addr hi
  have hsize := div_pgsize_toNat r.size
  obtain ⟨hlo, hhi, hwin⟩ := h
  rw [show UTOP.toNat = 955 * 2 ^ 22 by decide] at hlo
  rw [show UVPT.toNat = 957 * 2 ^ 22 by decide,
    show PTSIZE.toNat = 2 ^ 22 by decide] at hwin
  rw [pdx_eq, hva, show pdx UVPT = 957 by decide]
  unfold NPDUSER
  omega

theorem BootInv.mapRegion (h : BootInv b s) (hr : r.Above) :
    wp (bootMapRegion b.kernPgdir r.va r.size r.pa r.perm)
      (fun _ s' => BootInv b s' ∧ BootGrows s s' ∧ (0 < (r.size / PGSIZE).toNat →
        ∃ t, target s'.mem s'.kernPgdir (pdx r.va) = some t) ∧
        ∀ f, KernMap f s → KernMap (r.put f) s')
      (fun _ _ => ¬ Room s) s := by
  -- the invariant at page `i`; the first page already has a table once `i > 0`
  have hloop := wp_forUp (ε := Stop) (σ := Kernel) (X := fun _ _ => ¬ Room s)
    (I := fun i u => BootInv b u ∧ BootGrows s u ∧
      (0 < i → ∃ t, target u.mem u.kernPgdir (pdx r.va) = some t) ∧
      ∀ f, KernMap f s → KernMap (r.putPages i f) u)
    (r.size / PGSIZE).toNat 0 s ⟨h, .refl s, fun hc => absurd hc (by omega),
      fun f hm => by rwa [r.putPages_zero]⟩
    (fun i u _ hi hu => by
      obtain ⟨hinv, hgrow, hfirst, hmap⟩ := hu
      have hi' : i < (r.size / PGSIZE).toNat := by omega
      obtain ⟨hp1, hp2⟩ := hr.page hi'
      refine wp_mono (hinv.mapPage hp1 hp2
          ((r.pa + BitVec.ofNat 32 i * PGSIZE) ||| r.perm ||| PTE_P)) ?_ ?_
      · rintro _ u' ⟨hinv', hgrow', ⟨t, ht⟩, hmap'⟩
        refine ⟨hinv', hgrow.trans hgrow', fun _ => ?_, fun f hm => ?_⟩
        · by_cases hi0 : i = 0
          · subst hi0
            rw [show r.va + BitVec.ofNat 32 0 * PGSIZE = r.va by simp] at ht
            exact ⟨t, ht⟩
          · obtain ⟨t', ht'⟩ := hfirst (by omega)
            exact ⟨t', hgrow'.keep _ _ ht'⟩
        · have hpage : (r.va.toNat + i * 4096) / 4096 = r.va.toNat / 4096 + i := by omega
          rw [r.putPages_succ, ← hpage, ← hr.addr hi']
          exact hmap' _ (hmap f hm)
      · intro _ _ hroom hc
        exact hroom (hgrow.room hc))
  refine wp_mono hloop ?_ (fun _ _ hx => hx)
  rintro _ u ⟨hinv, hgrow, hfirst, hmap⟩
  rw [Nat.zero_add] at hmap
  exact ⟨hinv, hgrow, fun hpos => hfirst (by omega), hmap⟩

/-- The map that a list of regions makes of `f`. -/
def putRegions (maps : List MapRegion) (f : Nat → Word) : Nat → Word :=
  maps.foldl (fun g r => r.put g) f

theorem BootInv.mapRegions {maps : List MapRegion} :
    ∀ {s : Kernel}, BootInv b s → (∀ r ∈ maps, r.Above) →
      wp (bootMapRegions maps)
        (fun _ s' => BootInv b s' ∧ BootGrows s s' ∧
          (∀ r ∈ maps, 0 < (r.size / PGSIZE).toNat →
            ∃ t, target s'.mem s'.kernPgdir (pdx r.va) = some t) ∧
          ∀ f, KernMap f s → KernMap (putRegions maps f) s')
        (fun _ _ => ¬ Room s) s := by
  induction maps with
  | nil =>
    intro s h _
    exact ⟨h, .refl s, by simp, fun _ hm => hm⟩
  | cons r rs ih =>
    intro s h habove
    refine wp_get_bind ?_
    rw [h.kern]
    refine wp_seq (h.mapRegion (habove r List.mem_cons_self)) ?_
    rintro _ u ⟨hinv, hgrow, hfirst, hmap⟩
    refine wp_mono (ih hinv (fun r' hr' => habove r' (List.mem_cons_of_mem r hr'))) ?_ ?_
    · rintro _ v ⟨hinv', hgrow', hrest, hmap'⟩
      refine ⟨hinv', hgrow.trans hgrow', fun r' hr' hpos => ?_, fun f hm => hmap' _ (hmap f hm)⟩
      rcases List.mem_cons.mp hr' with rfl | hr'
      · obtain ⟨t, ht⟩ := hfirst hpos
        exact ⟨t, hgrow'.keep _ _ ht⟩
      · exact hrest r' hr' hpos
    · intro _ _ hroom hc
      exact hroom (hgrow.room hc)

end

end Jos
