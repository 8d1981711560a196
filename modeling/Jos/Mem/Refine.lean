/-
  Jos.Mem.Refine — **A PAGE DIRECTORY IS A MAP.**

  Read a directory `d` as the partial map `mapping m d` from virtual page
  numbers to a physical page and its permission bits.  On a well-formed memory
  `page_insert`, `page_remove` and `page_lookup` are update, erase and lookup
  of that map, and no other address space moves.

  All three rest on one frame lemma (`mapping_frame`): a change inside one
  private page table and its directory entry is invisible everywhere else.
-/
import Jos.Mem.Alloc

namespace Jos

open Exec

variable {i pp t v : Nat} {perm va : Word}

variable {m : Nat → Nat → Word} {e : Option (Nat × Word)}

/-! ## §1. The map, and well-formed memory. -/

/-- The page and the low permission bits that directory `d` gives to the
virtual page number `v`. -/
def mapping (m : Nat → Nat → Word) (d v : Nat) : Option (Nat × Word) :=
  (target m d (v / NPTENTRIES)).bind fun t =>
    (target m t (v % NPTENTRIES)).map fun p => (p, pteFlags (m t (v % NPTENTRIES)))

/-- Directories and page tables are pairwise distinct and not on the free list
`l`.  Above `UTOP` directories share the kernel's page tables, and the entry at
`UVPT` points back to its own directory. -/
structure WellFormed (s : Kernel) (l : List Nat) (dirs : Set Nat) : Prop where
  npages_le : s.npages ≤ 2 ^ 20
  free : FreeList s l
  dir_notFree : ∀ d ∈ dirs, d ∉ l
  table_notFree : ∀ d ∈ dirs, ∀ i < NPTENTRIES, ∀ t, target s.mem d i = some t → t ∉ l
  table_dir : ∀ d ∈ dirs, ∀ i < NPTENTRIES, ∀ t, target s.mem d i = some t → t ∈ dirs →
    i = pdx UVPT ∧ t = d
  table_inj : ∀ d ∈ dirs, ∀ d' ∈ dirs, ∀ i < NPDUSER, ∀ i' < NPTENTRIES, ∀ t,
    target s.mem d i = some t → target s.mem d' i' = some t → d' = d ∧ i' = i
  table_lt : ∀ d ∈ dirs, ∀ i < NPDUSER, ∀ t, target s.mem d i = some t → t < s.npages
  page_lt : ∀ d ∈ dirs, ∀ i < NPDUSER, ∀ t, target s.mem d i = some t →
    ∀ j < NPTENTRIES, ∀ q, target s.mem t j = some q → q < s.npages

/-- From `s` to `s'` the map of `d` changes at the page of `va` to `e`, and at
no other page below `UTOP`; mappings above, outside the window at `UVPT`, and
the maps of the other directories stay. -/
structure Updates (s s' : Kernel) (dirs : Set Nat) (d : Nat) (va : Word)
    (e : Option (Nat × Word)) : Prop where
  user : ∀ v < pgnum UTOP,
    mapping s'.mem d v = Function.update (mapping s.mem d) (pgnum va) e v
  upper : ∀ v < 2 ^ 20, pgnum UTOP ≤ v → v / NPTENTRIES ≠ pdx UVPT →
    mapping s'.mem d v = mapping s.mem d v
  others : ∀ d' ∈ dirs, d' ≠ d → ∀ v < 2 ^ 20, mapping s'.mem d' v = mapping s.mem d' v

theorem pgnum_div (va : Word) : pgnum va / NPTENTRIES = pdx va := by
  rw [pgnum_eq, pdx_eq]
  unfold NPTENTRIES
  omega

theorem pgnum_mod (va : Word) : pgnum va % NPTENTRIES = ptx va := by
  rw [pgnum_eq, ptx_eq]
  rfl

theorem mapping_of_table {d v t : Nat} (ht : target m d (v / NPTENTRIES) = some t) :
    mapping m d v
      = (target m t (v % NPTENTRIES)).map fun p => (p, pteFlags (m t (v % NPTENTRIES))) := by
  unfold mapping
  rw [ht]
  rfl

theorem mapping_of_no_table {d v : Nat}
    (ht : target m d (v / NPTENTRIES) = none) : mapping m d v = none := by
  unfold mapping
  rw [ht]
  rfl

theorem mapping_of_no_page {d v t : Nat} (ht : target m d (v / NPTENTRIES) = some t)
    (hp : target m t (v % NPTENTRIES) = none) : mapping m d v = none := by
  rw [mapping_of_table ht, hp]
  rfl

/-- An index below `UTOP` is not that of the self-map window. -/
theorem ne_uvpt_of_user (h : i < NPDUSER) : i ≠ pdx UVPT := by
  have huvpt : NPDUSER ≤ pdx UVPT := by decide
  omega

/-! ## §2. What a private page table cannot affect. -/

/-- `t` is no directory, and no entry but `i` of `d` can point to it. -/
structure Private (m : Nat → Nat → Word) (dirs : Set Nat) (d i t : Nat) : Prop where
  notDir : t ∉ dirs
  only : ∀ d' ∈ dirs, ∀ i' < NPTENTRIES, target m d' i' = some t → d' = d ∧ i' = i

section

variable {s : Kernel} {l : List Nat} {dirs : Set Nat} {d : Nat}

theorem WellFormed.private_table (wf : WellFormed s l dirs) (hd : d ∈ dirs)
    (hi : i < NPDUSER) (ht : target s.mem d i = some t) : Private s.mem dirs d i t where
  notDir htd := by
    have hlt : i < NPTENTRIES := Nat.lt_trans hi (by decide)
    exact ne_uvpt_of_user hi (wf.table_dir d hd i hlt t ht htd).1
  only d' hd' i' hi' ht' := wf.table_inj d hd d' hd' i hi i' hi' t ht ht'

theorem WellFormed.private_free (wf : WellFormed s l dirs) (ht : t ∈ l) :
    Private s.mem dirs d i t where
  notDir htd := wf.dir_notFree t htd ht
  only d' hd' i' hi' ht' := absurd ht (wf.table_notFree d' hd' i' hi' t ht')

/-- Changes inside a private page and at the entry it belongs to are invisible
through every other entry. -/
theorem mapping_frame (wf : WellFormed s l dirs) (hd : d ∈ dirs)
    {m' : Nat → Nat → Word} (hpriv : Private s.mem dirs d i t)
    (hagree : ∀ p k, p ≠ t → ¬(p = d ∧ k = i) → m' p k = s.mem p k)
    {d' : Nat} (hd' : d' ∈ dirs) (hv : v < 2 ^ 20)
    (hne : d' ≠ d ∨ (v / NPTENTRIES ≠ i ∧ v / NPTENTRIES ≠ pdx UVPT)) :
    mapping m' d' v = mapping s.mem d' v := by
  have hidx : v / NPTENTRIES < NPTENTRIES := by unfold NPTENTRIES; omega
  have hpde : m' d' (v / NPTENTRIES) = s.mem d' (v / NPTENTRIES) := by
    refine hagree _ _ (fun h => hpriv.notDir (h ▸ hd')) (fun h => ?_)
    rcases hne with hne | hne
    · exact hne h.1
    · exact hne.1 h.2
  have htgt : target m' d' (v / NPTENTRIES) = target s.mem d' (v / NPTENTRIES) := by
    unfold target
    rw [hpde]
  cases hu : target s.mem d' (v / NPTENTRIES) with
  | none => rw [mapping_of_no_table (htgt.trans hu), mapping_of_no_table hu]
  | some u =>
    have hut : u ≠ t := by
      intro h
      obtain ⟨h1, h2⟩ := hpriv.only d' hd' _ hidx (h ▸ hu)
      rcases hne with hne | hne
      · exact hne h1
      · exact hne.1 h2
    -- only the self-map entry of a directory points to a directory
    have hud : u ≠ d := by
      intro h
      obtain ⟨h1, h2⟩ := wf.table_dir d' hd' _ hidx u hu (h ▸ hd)
      rcases hne with hne | hne
      · exact hne (h2.symm.trans h)
      · exact hne.2 h1
    have hpte := hagree u (v % NPTENTRIES) hut (fun h => hud h.1)
    have htgt' : target m' u (v % NPTENTRIES) = target s.mem u (v % NPTENTRIES) := by
      unfold target
      rw [hpte]
    rw [mapping_of_table (htgt.trans hu), mapping_of_table hu, htgt', hpte]

/-! ## §3. The entry of `va` alone. -/

/-- A change of the private page table behind `va` is an update of the map as
soon as it is one at the addresses that share the page table. -/
theorem updates_of_table (wf : WellFormed s l dirs) (hd : d ∈ dirs) (hva : va < UTOP) {s' : Kernel}
    (hpriv : Private s.mem dirs d (pdx va) t)
    (hagree : ∀ p k, p ≠ t → ¬(p = d ∧ k = pdx va) → s'.mem p k = s.mem p k)
    (hat : mapping s'.mem d (pgnum va) = e) (hrest : ∀ v, v / NPTENTRIES = pdx va → v ≠ pgnum va →
      mapping s'.mem d v = mapping s.mem d v) : Updates s s' dirs d va e where
  user v hv := by
    have hlt : v < 2 ^ 20 := Nat.lt_trans hv (by decide)
    by_cases hvv : v = pgnum va
    · rw [hvv, Function.update_self]
      exact hat
    · rw [Function.update_of_ne hvv]
      by_cases hidx : v / NPTENTRIES = pdx va
      · exact hrest v hidx hvv
      · have huser : v / NPTENTRIES < NPDUSER := by
          have : pgnum UTOP = 955 * 1024 := by decide
          unfold NPTENTRIES NPDUSER
          omega
        exact mapping_frame wf hd hpriv hagree hd hlt
          (Or.inr ⟨hidx, ne_uvpt_of_user huser⟩)
  upper v hv hge hwin := by
    have hi : pdx va < NPDUSER := (pdx_lt_user_iff va).mpr hva
    have hidx : v / NPTENTRIES ≠ pdx va := by
      have : pgnum UTOP = 955 * 1024 := by decide
      unfold NPTENTRIES
      unfold NPDUSER at hi
      omega
    exact mapping_frame wf hd hpriv hagree hd hv (Or.inr ⟨hidx, hwin⟩)
  others d' hd' hne v hv := mapping_frame wf hd hpriv hagree hd' hv (Or.inl hne)

/-- Two addresses with the same page table and the same entry are the same page. -/
theorem mod_ne_of_ne (hidx : v / NPTENTRIES = pdx va)
    (hne : v ≠ pgnum va) : v % NPTENTRIES ≠ ptx va := by
  intro hmod
  apply hne
  rw [← Nat.div_add_mod v NPTENTRIES, hidx, hmod, ← pgnum_div, ← pgnum_mod,
    Nat.div_add_mod]

theorem dropOld_mem_of_ne {s : Kernel} {d t : Nat} {p k : Nat}
    (h : ¬(p = t ∧ k = ptx va)) : (s.dropOld d va t).mem p k = s.mem p k := by
  unfold Kernel.dropOld
  split
  · rfl
  · rw [Kernel.setWord_mem, Kernel.flush_mem, Kernel.decref_mem, Kernel.flush_mem]
    exact putWord_of_ne _ _ (by tauto)

/-- The memory `page_insert` leaves: two words change. -/
theorem inserted_mem (s : Kernel) {d t : Nat} (pp : Nat) (va perm : Word) (htd : t ≠ d) :
    (s.inserted d pp va perm t).mem d (pdx va) = s.mem d (pdx va) ||| (perm ||| PTE_P)
    ∧ (s.inserted d pp va perm t).mem t (ptx va) = page2pa pp ||| perm ||| PTE_P
    ∧ ∀ p k, ¬(p = d ∧ k = pdx va) → ¬(p = t ∧ k = ptx va) →
        (s.inserted d pp va perm t).mem p k = s.mem p k := by
  have hne : ¬(d = t ∧ pdx va = ptx va) := fun h => htd h.1.symm
  unfold Kernel.inserted Kernel.enter
  simp only [Kernel.setWord_mem]
  refine ⟨?_, ?_, fun p k hpd hpt => ?_⟩
  · rw [putWord_same, putWord_of_ne _ _ (by tauto), dropOld_mem_of_ne hne, Kernel.incref_mem]
  · rw [putWord_of_ne _ _ (Or.inl htd), putWord_same]
  · rw [putWord_of_ne _ _ (by tauto), putWord_of_ne _ _ (by tauto), dropOld_mem_of_ne hpt,
      Kernel.incref_mem]

/-- `page_insert` updates the map, whether its walk from `s` to `s₁` found the
page table `t` or made it. -/
theorem updates_inserted (wf : WellFormed s l dirs) (hd : d ∈ dirs) (hva : va < UTOP) {s₁ : Kernel}
    (hpp : pp < 2 ^ 20) (hperm : permOk perm = true) (hpriv : Private s.mem dirs d (pdx va) t)
    (ht : target s₁.mem d (pdx va) = some t)
    (hwalk : ∀ p k, p ≠ t → ¬(p = d ∧ k = pdx va) → s₁.mem p k = s.mem p k)
    (hkeep : ∀ v, v / NPTENTRIES = pdx va → mapping s₁.mem d v = mapping s.mem d v) :
    Updates s (s₁.inserted d pp va perm t) dirs d va (some (pp, perm ||| PTE_P)) := by
  have hflags := permOk_flags hperm
  have htd : t ≠ d := fun h => hpriv.notDir (h ▸ hd)
  obtain ⟨hpde, hpte, hrest⟩ := inserted_mem s₁ pp va perm htd
  obtain ⟨hpres, hpage⟩ := target_eq_some ht
  have hflagsP : (perm ||| PTE_P) &&& ~~~0xFFF#32 = 0#32 := by
    rw [BitVec.and_comm, BitVec.and_or_distrib_left, BitVec.and_comm, hflags]
    decide
  have htab : target (s₁.inserted d pp va perm t).mem d (pdx va) = some t := by
    rw [target_of_present (by rw [hpde]; exact present_or hpres), hpde, ptePage_or hflagsP,
      hpage]
  have hent : target (s₁.inserted d pp va perm t).mem t (ptx va) = some pp := by
    rw [target_of_present (by rw [hpte]; exact present_or_P _), hpte, ptePage_mk hpp hflags]
  refine updates_of_table wf hd hva hpriv (fun p k hpt hpd => ?_) ?_ (fun v hidx hne => ?_)
  · rw [hrest p k hpd (fun h => hpt h.1), hwalk p k hpt hpd]
  · rw [mapping_of_table (by rw [pgnum_div]; exact htab), pgnum_mod, hent, hpte,
      pteFlags_mk pp hflags]
    rfl
  · have hmod := mod_ne_of_ne hidx hne
    have hword := hrest t (v % NPTENTRIES) (fun h => htd h.1) (fun h => hmod h.2)
    rw [← hkeep v hidx, mapping_of_table (by rw [hidx]; exact htab),
      mapping_of_table (by rw [hidx]; exact ht)]
    unfold target
    rw [hword]

/-! ## §4. Insert, remove and lookup. -/

/-- A page on the free list has no reference to drop. -/
theorem FreeList.link_of_last (hf : FreeList s l) {q : Nat} (hq : q < s.npages)
    (hz : (s.pages q).ppRef - 1 = 0) : (s.pages q).ppLink = none := by
  refine hf.link q hq (fun hmem => ?_)
  rw [hf.ref q hmem] at hz
  exact absurd hz (by decide)

/-- `page_insert` into a page table that is there. -/
theorem pageInsert_updates_present (wf : WellFormed s l dirs) (hd : d ∈ dirs)
    (hva : va < UTOP) (hpp : pp < s.npages) (hperm : permOk perm = true)
    (hfree : pp ∈ l → ∀ f, mapping s.mem d (pgnum va) ≠ some (pp, f))
    (ht : target s.mem d (pdx va) = some t) :
    ∃ s', pageInsert d pp va perm s = .ok 0#32 s' ∧
      Updates s s' dirs d va (some (pp, perm ||| PTE_P)) := by
  have hi : pdx va < NPDUSER := (pdx_lt_user_iff va).mpr hva
  have htlt := wf.table_lt d hd _ hi t ht
  have hnp := wf.npages_le
  refine ⟨_, pageInsert_of_walk (pgdirWalk_present true ht htlt) ht htlt (fun q hq => ?_),
    updates_inserted wf hd hva (by omega) hperm (wf.private_table hd hi ht) ht
      (fun _ _ _ _ => rfl) (fun _ _ => rfl)⟩
  have hqlt := wf.page_lt d hd _ hi t ht _ (ptx_lt va) q hq
  refine ⟨hqlt, fun hz => ?_⟩
  by_cases hqp : q = pp
  · -- the page is inserted where it already is: it is not free
    subst hqp
    refine wf.free.link q hqlt (fun hmem => ?_)
    refine hfree hmem (pteFlags (s.mem t (ptx va))) ?_
    rw [mapping_of_table (by rw [pgnum_div]; exact ht), pgnum_mod, hq]
    rfl
  · refine wf.free.link_of_last hqlt ?_
    have hsame : (s.incref pp).pages q = s.pages q := Function.update_of_ne hqp _ _
    rw [← hsame]
    exact hz

/-- `page_insert` that makes the page table. -/
theorem pageInsert_updates_create (wf : WellFormed s l dirs) (hd : d ∈ dirs)
    (hva : va < UTOP) (hpp : pp < s.npages)
    (hperm : permOk perm = true) (ht : target s.mem d (pdx va) = none)
    (hhead : s.pageFreeList = some t) :
    ∃ s', pageInsert d pp va perm s = .ok 0#32 s' ∧
      Updates s s' dirs d va (some (pp, perm ||| PTE_P)) := by
  obtain ⟨l', rfl⟩ := wf.free.head_some hhead
  have hnp := wf.npages_le
  have htmem : t ∈ t :: l' := List.mem_cons_self
  have htlt := wf.free.lt t htmem
  have hpriv : Private s.mem dirs d (pdx va) t := wf.private_free htmem
  have htd : t ≠ d := fun h => hpriv.notDir (h ▸ hd)
  have htab : target (s.newTable d (pdx va) t).mem d (pdx va) = some t := by
    rw [Kernel.newTable_mem, target_putWord_same, if_pos (tableEntry_present t),
      tableEntry_page (by omega)]
  have hempty : ∀ k, target (s.newTable d (pdx va) t).mem t k = none := by
    intro k
    refine target_of_not_present ?_
    rw [Kernel.newTable_mem, putWord_of_ne _ _ (Or.inl htd), Function.update_self]
    decide
  refine ⟨_, pageInsert_of_walk
      (pgdirWalk_create ht hhead (wf.free.ref t htmem) htlt hnp) htab htlt (fun q hq => ?_),
    updates_inserted wf hd hva (by omega) hperm hpriv htab (fun p k hpt hpd => ?_)
      (fun v hidx => ?_)⟩
  · rw [hempty] at hq
    cases hq
  · rw [Kernel.newTable_mem, putWord_of_ne _ _ (by tauto), Function.update_of_ne hpt]
  · rw [mapping_of_no_page (by rw [hidx]; exact htab) (hempty _),
      mapping_of_no_table (by rw [hidx]; exact ht)]

theorem updates_refl (h : mapping s.mem d (pgnum va) = e) : Updates s s dirs d va e where
  user v _ := by rw [← h, Function.update_eq_self]
  upper _ _ _ _ := rfl
  others _ _ _ _ _ := rfl

theorem pageRemove_updates (wf : WellFormed s l dirs) (hd : d ∈ dirs) (hva : va < UTOP) :
    ∃ s', pageRemove d va s = .ok () s' ∧ Updates s s' dirs d va none := by
  have hi : pdx va < NPDUSER := (pdx_lt_user_iff va).mpr hva
  have hlt : ∀ t, target s.mem d (pdx va) = some t → t < s.npages :=
    fun t ht => wf.table_lt d hd _ hi t ht
  cases ht : target s.mem d (pdx va) with
  | none =>
    exact ⟨s, pageRemove_none (by rw [ht]; rfl) hlt,
      updates_refl (mapping_of_no_table (by rw [pgnum_div]; exact ht))⟩
  | some t =>
    cases hq : target s.mem t (ptx va) with
    | none =>
      exact ⟨s, pageRemove_none (by rw [ht]; exact hq) hlt,
        updates_refl (mapping_of_no_page (by rw [pgnum_div]; exact ht)
          (by rw [pgnum_mod]; exact hq))⟩
    | some q =>
      have hqlt := wf.page_lt d hd _ hi t ht _ (ptx_lt va) q hq
      have hpriv := wf.private_table hd hi ht
      have htd : t ≠ d := fun h => hpriv.notDir (h ▸ hd)
      have hmem : (((s.decref q).flush d va).setWord t (ptx va) 0#32).mem
          = putWord s.mem t (ptx va) 0#32 := by
        rw [Kernel.setWord_mem, Kernel.flush_mem, Kernel.decref_mem]
      have htab : target (putWord s.mem t (ptx va) 0#32) d (pdx va) = some t := by
        rw [target_putWord_of_ne _ _ (Or.inl htd.symm)]
        exact ht
      refine ⟨_, pageRemove_some ht (hlt t ht) hq hqlt (wf.free.link_of_last hqlt),
        updates_of_table wf hd hva hpriv (fun p k hpt _ => ?_) ?_ (fun v hidx hne => ?_)⟩
      · rw [hmem, putWord_of_ne _ _ (Or.inl hpt)]
      · rw [hmem]
        refine mapping_of_no_page (by rw [pgnum_div]; exact htab) ?_
        rw [pgnum_mod, target_putWord_same]
        rfl
      · have hmod := mod_ne_of_ne hidx hne
        rw [hmem, mapping_of_table (by rw [hidx]; exact htab),
          mapping_of_table (by rw [hidx]; exact ht),
          target_putWord_of_ne _ _ (Or.inr hmod), putWord_of_ne _ _ (Or.inr hmod)]

theorem pageLookup_mapping (wf : WellFormed s l dirs) (hd : d ∈ dirs) (hva : va < UTOP) :
    ∃ r, pageLookup d va s = .ok r s ∧
      r.map (fun x => (x.1, pteFlags (s.mem x.2.1 x.2.2))) = mapping s.mem d (pgnum va) := by
  have hi : pdx va < NPDUSER := (pdx_lt_user_iff va).mpr hva
  have hlt : ∀ t, target s.mem d (pdx va) = some t → t < s.npages :=
    fun t ht => wf.table_lt d hd _ hi t ht
  cases ht : target s.mem d (pdx va) with
  | none =>
    refine ⟨none, pageLookup_none (by rw [ht]; rfl) hlt, ?_⟩
    rw [mapping_of_no_table (by rw [pgnum_div]; exact ht)]
    rfl
  | some t =>
    have hmap := mapping_of_table (m := s.mem) (v := pgnum va) (by rw [pgnum_div]; exact ht)
    rw [pgnum_mod] at hmap
    cases hq : target s.mem t (ptx va) with
    | none =>
      refine ⟨none, pageLookup_none (by rw [ht]; exact hq) hlt, ?_⟩
      rw [hmap, hq]
      rfl
    | some q =>
      have hqlt := wf.page_lt d hd _ hi t ht _ (ptx_lt va) q hq
      refine ⟨_, pageLookup_some ht (hlt t ht) hq hqlt, ?_⟩
      rw [hmap, hq]
      rfl

/-- **Page tables refine a map.**  On every well-formed memory and for every
address below `UTOP`: an insert runs out of memory and changes nothing, or it
updates the map at that page; a remove erases it; a lookup reads it.  An insert
may name the page that is already there, unless that page is on the free list. -/
theorem pageTables_refine_map (wf : WellFormed s l dirs) (hd : d ∈ dirs) {va : Word}
    (hva : va < UTOP) :
    (∀ pp perm, pp < s.npages → permOk perm = true →
      (pp ∈ l → ∀ f, mapping s.mem d (pgnum va) ≠ some (pp, f)) →
      (pageInsert d pp va perm s = .ok (-E_NO_MEM) s ∧ s.pageFreeList = none) ∨
      ∃ s', pageInsert d pp va perm s = .ok 0#32 s' ∧
        Updates s s' dirs d va (some (pp, perm ||| PTE_P)))
    ∧ (∃ s', pageRemove d va s = .ok () s' ∧ Updates s s' dirs d va none)
    ∧ ∃ r, pageLookup d va s = .ok r s ∧
        r.map (fun x => (x.1, pteFlags (s.mem x.2.1 x.2.2))) = mapping s.mem d (pgnum va) := by
  refine ⟨fun pp perm hpp hperm hfree => ?_, pageRemove_updates wf hd hva,
    pageLookup_mapping wf hd hva⟩
  cases ht : target s.mem d (pdx va) with
  | some t => exact Or.inr (pageInsert_updates_present wf hd hva hpp hperm hfree ht)
  | none =>
    cases hhead : s.pageFreeList with
    | none => exact Or.inl ⟨pageInsert_oom pp perm ht hhead, rfl⟩
    | some t => exact Or.inr (pageInsert_updates_create wf hd hva hpp hperm ht hhead)

end

/-- Eight pages, page 3 free, two empty directories in pages 1 and 2. -/
def twoDirectories : Kernel := { Kernel.powerOn with npages := 8, pageFreeList := some 3 }

theorem twoDirectories_wellFormed : WellFormed twoDirectories [3] {1, 2} := by
  have hnone : ∀ p i, target twoDirectories.mem p i = none := fun p i =>
    target_of_not_present not_present_zero
  have hnot : ∀ p i t, target twoDirectories.mem p i ≠ some t := fun p i t h => by
    rw [hnone] at h
    cases h
  exact {
    npages_le := by decide
    free := {
      chain := ⟨rfl, rfl⟩
      nodup := by simp
      lt := by simp [twoDirectories]
      ref := fun _ _ => rfl
      link := fun _ _ _ => rfl }
    dir_notFree := by simp
    table_notFree := fun d _ i _ t h => absurd h (hnot d i t)
    table_dir := fun d _ i _ t h => absurd h (hnot d i t)
    table_inj := fun d _ _ _ i _ _ _ t h => absurd h (hnot d i t)
    table_lt := fun d _ i _ t h => absurd h (hnot d i t)
    page_lt := fun d _ i _ t h => absurd h (hnot d i t) }

/-- Mapping page 5 at `0x1000` of the first directory. -/
theorem pageTables_refine_map_twoDirectories :
    ∃ s', pageInsert 1 5 0x1000#32 7#32 twoDirectories = .ok 0#32 s' ∧
      Updates twoDirectories s' {1, 2} 1 0x1000#32 (some (5, 7#32 ||| PTE_P)) := by
  have h := (pageTables_refine_map twoDirectories_wellFormed (d := 1) (by simp)
    (show (0x1000#32 : Word) < UTOP by decide)).1 5 7#32 (by decide) (by decide) (by simp)
  exact h.resolve_left (fun hc => absurd hc.2 (by simp [twoDirectories]))

end Jos
