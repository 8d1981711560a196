/-
  Jos.Mem.Space — **ADDRESS SPACES OF ENVIRONMENTS.**

  `space s e v` is the page and the permission bits that environment `e` has at
  the virtual page number `v`.  In a state that meets the page invariant the
  directories of all environments are well formed together
  (`PageInv.wellFormed`), so a page table function called for one environment
  changes one entry of one address space (`SpaceUpdate`).
-/
import Jos.Mem.PageInv

namespace Jos

open Exec

variable {e : Fin NENV} {d : Nat} {va : Word}

variable {s'' : Kernel} {entry : Option (Nat × Word)}

/-- The address space of environment `e`. -/
def space (s : Kernel) (e v : Nat) : Option (Nat × Word) :=
  (s.envs e).envPgdir.bind fun d => mapping s.mem d v

/-- From `s` to `s'` the address space of `e` gets `entry` at the page of `va`,
and nothing else changes in any address space below `UTOP`. -/
def SpaceUpdate (s s' : Kernel) (e : Nat) (va : Word) (entry : Option (Nat × Word)) : Prop :=
  ∀ x < NENV, ∀ v < pgnum UTOP,
    space s' x v = if x = e ∧ v = pgnum va then entry else space s x v

/-- Address spaces below `UTOP` are the same. -/
def SameSpaces (s s' : Kernel) : Prop :=
  ∀ x < NENV, ∀ v < pgnum UTOP, space s' x v = space s x v

/-- The directories of the environments. -/
def envDirSet (s : Kernel) : Set Nat := {d | ∃ e, envDirs s e = some d}

section

variable {own spare : Set Nat} {s s' : Kernel}

theorem space_eq {e d : Nat} (h : (s.envs e).envPgdir = some d) (v : Nat) :
    space s e v = mapping s.mem d v := by
  unfold space
  rw [h]
  rfl

theorem SameSpaces.refl (s : Kernel) : SameSpaces s s := fun _ _ _ _ => rfl

theorem SameSpaces.trans (h : SameSpaces s s') (h' : SameSpaces s' s'') :
    SameSpaces s s'' := fun x hx v hv => (h' x hx v hv).trans (h x hx v hv)

/-- Only directories and memory matter. -/
theorem sameSpaces_of_eq (hd : ∀ x, (s'.envs x).envPgdir = (s.envs x).envPgdir)
    (hm : s'.mem = s.mem) : SameSpaces s s' := by
  intro x _ v _
  unfold space
  rw [hd, hm]

theorem SpaceUpdate.after {s₀ : Kernel} {e : Nat}
    (h : SpaceUpdate s s' e va entry) (h₀ : SameSpaces s₀ s) : SpaceUpdate s₀ s' e va entry := by
  intro x hx v hv
  rw [h x hx v hv, h₀ x hx v hv]

theorem SpaceUpdate.before {e : Nat}
    (h : SpaceUpdate s s' e va entry) (h' : SameSpaces s' s'') : SpaceUpdate s s'' e va entry :=
  fun x hx v hv => (h' x hx v hv).trans (h x hx v hv)

theorem pgnum_lt_utop (h : va < UTOP) : pgnum va < pgnum UTOP := by
  have hi : pdx va < NPDUSER := (pdx_lt_user_iff va).mpr h
  have hlt := ptx_lt va
  rw [← Nat.div_add_mod (pgnum va) NPTENTRIES, pgnum_div, pgnum_mod]
  rw [show pgnum UTOP = 955 * 1024 by decide]
  unfold NPDUSER at hi
  unfold NPTENTRIES at *
  omega

/-! ## §1. All directories together are well formed. -/

/-- What entry `i` of a directory can point to: a page table of the
environment, the directory itself, or a page of the kernel. -/
theorem PageInv.dir_entry (h : PageInv own spare s)
    (hd : envDirs s e = some d) {i : Nat} (hi : i < NPTENTRIES) {t : Nat}
    (ht : target s.mem d i = some t) :
    (∃ hu : i < NPDUSER, refs s (ptSlot e ⟨i, hu⟩) = some t) ∨ (i = pdx UVPT ∧ t = d) ∨
      (NPDUSER ≤ i ∧ t ∈ own) := by
  by_cases hu : i < NPDUSER
  · exact Or.inl ⟨hu, (deref_ptSlot hd ⟨i, hu⟩).trans ht⟩
  · by_cases hw : i = pdx UVPT
    · have hself := h.half.dir_self e d hd
      rw [← hw, ht] at hself
      exact Or.inr (Or.inl ⟨hw, Option.some.inj hself⟩)
    · have hup := h.half.dir_upper e d hd i (by omega) hi hw
      have hkern : target s.mem s.kernPgdir i = some t := by
        unfold target at ht ⊢
        rw [← hup]
        exact ht
      exact Or.inr (Or.inr ⟨by omega, (h.half.kern_table i (by omega) hi hw t hkern).1⟩)

theorem PageInv.wellFormed (h : PageInv own spare s) :
    ∃ l, WellFormed s l (envDirSet s) ∧ ∀ p ∈ l, hits (refs s) p = 0 := by
  obtain ⟨l, hl, hmem⟩ := h.books.free
  have hfree : ∀ p ∈ l, p ∉ own ∧ hits (refs s) p = 0 :=
    fun p hp => ⟨((hmem p).mp hp).2.1, ((hmem p).mp hp).2.2.2⟩
  have hused : ∀ (a : Slot (Fin NENV)) p, refs s a = some p → p ∉ l :=
    fun a p ha hp => ne_of_hits_eq_zero (hfree p hp).2 a ha
  refine ⟨l, ⟨h.npages_le, hl, ?_, ?_, ?_, ?_, ?_, ?_⟩, fun p hp => (hfree p hp).2⟩
  · rintro d ⟨e, hd⟩
    exact hused (dirSlot e) d hd
  · rintro d ⟨e, hd⟩ i hi t ht htl
    rcases h.dir_entry hd hi ht with ⟨hu, hslot⟩ | ⟨-, rfl⟩ | ⟨-, hown⟩
    · exact hused _ t hslot htl
    · exact hused (dirSlot e) t hd htl
    · exact (hfree t htl).1 hown
  · rintro d ⟨e, hd⟩ i hi t ht ⟨e', hd'⟩
    rcases h.dir_entry hd hi ht with ⟨hu, hslot⟩ | hself | ⟨-, hown⟩
    · exact absurd (h.books.table _ (dirSlot e') t rfl hslot hd') (by simp)
    · exact hself
    · exact absurd hown (h.dir hd').2
  · rintro d ⟨e, hd⟩ d' ⟨e', hd'⟩ i hi i' hi' t ht ht'
    have hslot : refs s (ptSlot e ⟨i, hi⟩) = some t := (deref_ptSlot hd ⟨i, hi⟩).trans ht
    rcases h.dir_entry hd' hi' ht' with ⟨hu, hslot'⟩ | ⟨-, rfl⟩ | ⟨-, hown⟩
    · have hab := h.books.table _ _ t rfl hslot hslot'
      obtain ⟨rfl, rfl⟩ := hab
      rw [hd] at hd'
      exact ⟨(Option.some.inj hd').symm, rfl⟩
    · exact absurd (h.books.table _ (dirSlot e') t rfl hslot hd') (by simp)
    · exact absurd hown (h.books.ref _ t hslot).2
  · rintro d ⟨e, hd⟩ i hi t ht
    exact (h.books.ref _ t ((deref_ptSlot hd ⟨i, hi⟩).trans ht)).1
  · rintro d ⟨e, hd⟩ i hi t ht j hj q hq
    exact (h.books.ref (pageSlot e ⟨i, hi⟩ ⟨j, hj⟩) q
      ((deref_pageSlot hd (i := ⟨i, hi⟩) ht ⟨j, hj⟩).trans hq)).1

/-- What an environment has at `va` is what the slot of `va` refers to. -/
theorem space_map_fst (hva : va < UTOP) :
    (space s e (pgnum va)).map Prod.fst
      = refs s (vaSlot e hva) := by
  cases hd : (s.envs e).envPgdir with
  | none =>
    have hrefs : refs s (vaSlot e hva) = none := by
      show ((s.envs e).envPgdir).bind _ = none
      rw [hd]
      rfl
    rw [hrefs]
    unfold space
    rw [hd]
    rfl
  | some d =>
    rw [space_eq hd]
    have hdir : envDirs s e = some d := hd
    cases ht : target s.mem d (pdx va) with
    | none =>
      rw [mapping_of_no_table (by rw [pgnum_div]; exact ht)]
      exact (deref_pageSlot_of_none ((deref_ptSlot hdir ⟨pdx va, _⟩).trans ht) _).symm
    | some t =>
      rw [mapping_of_table (by rw [pgnum_div]; exact ht), pgnum_mod, Option.map_map]
      have hslot : refs s (vaSlot e hva) = target s.mem t (ptx va) := deref_pageSlot hdir ht _
      rw [hslot]
      exact Option.map_id'

/-- A mapped page is referred to by a slot for pages. -/
theorem refs_of_space {x v p : Nat} {f : Word} (hx : x < NENV) (hv : v < pgnum UTOP)
    (h : space s x v = some (p, f)) :
    ∃ a : Slot (Fin NENV), a.isTable = false ∧ refs s a = some p := by
  have hidx : v / NPTENTRIES < NPDUSER := by
    rw [show pgnum UTOP = 955 * 1024 by decide] at hv
    unfold NPTENTRIES NPDUSER
    omega
  have hmod : v % NPTENTRIES < NPTENTRIES := Nat.mod_lt _ (by decide)
  obtain ⟨d, hd, hm⟩ := Option.bind_eq_some_iff.mp h
  obtain ⟨t, ht, hm⟩ := Option.bind_eq_some_iff.mp hm
  obtain ⟨q, hq, hpair⟩ := Option.map_eq_some_iff.mp hm
  cases hpair
  refine ⟨pageSlot ⟨x, hx⟩ ⟨_, hidx⟩ ⟨_, hmod⟩, rfl, ?_⟩
  exact (deref_pageSlot (show envDirs s ⟨x, hx⟩ = some d from hd) ht _).trans hq

/-- Address spaces are read from directories and page tables only. -/
theorem sameSpaces_of_tables (hdir : ∀ x, (s'.envs x).envPgdir = (s.envs x).envPgdir)
    (htab : ∀ (a : Slot (Fin NENV)) q, a.isTable = true → refs s a = some q →
      ∀ i, s'.mem q i = s.mem q i) : SameSpaces s s' := by
  intro x hx v hv
  unfold space
  rw [hdir]
  cases hd : (s.envs x).envPgdir with
  | none => rfl
  | some d =>
    show mapping s'.mem d v = mapping s.mem d v
    have hidx : v / NPTENTRIES < NPDUSER := by
      rw [show pgnum UTOP = 955 * 1024 by decide] at hv
      unfold NPTENTRIES NPDUSER
      omega
    have hpde := htab (dirSlot ⟨x, hx⟩) d rfl hd (v / NPTENTRIES)
    have htgt : target s'.mem d (v / NPTENTRIES) = target s.mem d (v / NPTENTRIES) := by
      unfold target
      rw [hpde]
    cases ht : target s.mem d (v / NPTENTRIES) with
    | none => rw [mapping_of_no_table (htgt.trans ht), mapping_of_no_table ht]
    | some t =>
      have hslot : refs s (ptSlot ⟨x, hx⟩ ⟨v / NPTENTRIES, hidx⟩) = some t :=
        (deref_ptSlot (show envDirs s ⟨x, hx⟩ = some d from hd) _).trans ht
      have hpte := htab _ t rfl hslot (v % NPTENTRIES)
      have htgt' : target s'.mem t (v % NPTENTRIES) = target s.mem t (v % NPTENTRIES) := by
        unfold target
        rw [hpte]
      rw [mapping_of_table (htgt.trans ht), mapping_of_table ht, htgt', hpte]

/-! ## §2. One entry at a time. -/

section
variable (h : PageInv own spare s)
include h

/-- A map update of one directory, with the environments as they were, is an
update of one address space. -/
theorem PageInv.spaceUpdate (hd : envDirs s e = some d)
    (henvs : s'.envs = s.envs) (hup : Updates s s' (envDirSet s) d va entry) :
    SpaceUpdate s s' e va entry := by
  intro x hx v hv
  have hlt : v < 2 ^ 20 := Nat.lt_trans hv (by decide)
  by_cases hxe : x = e
  · subst hxe
    rw [space_eq (by rw [henvs]; exact hd), space_eq hd, hup.user v hv]
    by_cases hvv : v = pgnum va
    · rw [hvv, Function.update_self, if_pos ⟨rfl, rfl⟩]
    · rw [Function.update_of_ne hvv, if_neg (fun hc => hvv hc.2)]
  · rw [if_neg (fun hc => hxe hc.1)]
    cases hd' : (s.envs x).envPgdir with
    | none =>
      unfold space
      rw [henvs, hd']
      rfl
    | some d' =>
      have hne : d' ≠ d := by
        rintro rfl
        have hslot := h.books.table (dirSlot ⟨x, hx⟩) (dirSlot e) d' rfl hd' hd
        exact hxe (congrArg Fin.val (Sum.inl.inj hslot))
      rw [space_eq (by rw [henvs]; exact hd'), space_eq hd']
      exact hup.others d' ⟨⟨x, hx⟩, hd'⟩ hne v hlt

/-- `page_insert` for environment `e`: the entry of `va`, or no memory. -/
theorem PageInv.insert_space {d pp : Nat}
    {va perm : Word} (hd : envDirs s e = some d) (hva : va < UTOP) (hpp : pp < s.npages)
    (hperm : permOk perm = true) {r : Word} (hrun : Jos.pageInsert d pp va perm s = .ok r s')
    (henvs : s'.envs = s.envs) (hr : r = 0#32) :
    SpaceUpdate s s' e va (some (pp, perm ||| PTE_P)) := by
  obtain ⟨l, wf, hl⟩ := h.wellFormed
  -- a mapped page is not on the free list
  have hfree : pp ∈ l → ∀ f, mapping s.mem d (pgnum va) ≠ some (pp, f) := by
    intro hpl f hf
    have hslot := space_map_fst (s := s) (e := e) hva
    rw [space_eq hd, hf] at hslot
    exact ne_of_hits_eq_zero (hl pp hpl) _ hslot.symm
  have hmem : d ∈ envDirSet s := ⟨e, hd⟩
  cases ht : target s.mem d (pdx va) with
  | some t =>
    obtain ⟨u, hu, hup⟩ := pageInsert_updates_present wf hmem hva hpp hperm hfree ht
    rw [hu] at hrun
    cases hrun
    exact h.spaceUpdate hd henvs hup
  | none =>
    cases hhead : s.pageFreeList with
    | none =>
      rw [pageInsert_oom pp perm ht hhead, hr] at hrun
      cases hrun
    | some t =>
      obtain ⟨u, hu, hup⟩ := pageInsert_updates_create wf hmem hva hpp hperm ht hhead
      rw [hu] at hrun
      cases hrun
      exact h.spaceUpdate hd henvs hup

/-- `page_remove` for environment `e` clears the entry of `va`. -/
theorem PageInv.remove_space
    (hd : envDirs s e = some d) (hva : va < UTOP) (hrun : Jos.pageRemove d va s = .ok () s')
    (henvs : s'.envs = s.envs) : SpaceUpdate s s' e va none := by
  obtain ⟨l, wf, -⟩ := h.wellFormed
  obtain ⟨u, hu, hup⟩ := pageRemove_updates wf ⟨e, hd⟩ hva
  rw [hu] at hrun
  cases hrun
  exact h.spaceUpdate hd henvs hup

/-- `page_lookup` for environment `e` reads the entry of `va`. -/
theorem PageInv.lookup_space
    (hd : envDirs s e = some d) (hva : va < UTOP) {r : Option (Nat × (Nat × Nat))}
    (hrun : Jos.pageLookup d va s = .ok r s') :
    s' = s ∧ r.map (fun x => (x.1, pteFlags (s.mem x.2.1 x.2.2))) = space s e (pgnum va) := by
  obtain ⟨l, wf, -⟩ := h.wellFormed
  obtain ⟨r', hrun', hr'⟩ := pageLookup_mapping wf ⟨e, hd⟩ hva
  rw [hrun'] at hrun
  cases hrun
  exact ⟨rfl, by rw [hr', space_eq hd]⟩

end

end

end Jos
