/-
  Jos.Mem.EnvSpace — **ADDRESS SPACES COME AND GO.**

  `env_setup_vm` gives an environment a directory with the kernel's half and
  nothing else.  `env_free` empties it again: it unmaps every page of every
  page table, then drops the page tables, then the directory.  Both keep the
  page invariant; the loops of `env_free` carry it together with what has
  been emptied so far.
-/
import Jos.Kern.Env
import Jos.Mem.Space

namespace Jos

open Exec
open Function (update update_of_ne update_self update_idem)

variable {e : Fin NENV} {i : Fin NPDUSER} {s₀ : Kernel} {d p : Nat}

/-! ## §1. A new address space. -/

/-- Environment `e` gets the free page `p` as its directory. -/
def Kernel.newSpace (s : Kernel) (e p : Nat) : Kernel :=
  { s with
    pageFreeList := (s.pages p).ppLink
    pages := update s.pages p ⟨none, 1⟩
    envs := update s.envs e { s.envs e with envPgdir := some p }
    mem := update s.mem p
      (update (s.mem s.kernPgdir) (pdx UVPT) (page2pa p ||| PTE_P ||| PTE_U)) }

section

variable {own spare : Set Nat} {s : Kernel}

theorem envSetupVm_oom (e : Nat) (h : s.pageFreeList = none) :
    envSetupVm e s = .ok (-E_NO_MEM) s := by
  unfold envSetupVm
  rw [bind_ok (pageAlloc_nil ALLOC_ZERO h)]
  rfl

theorem envSetupVm_ok (e : Nat) (h : s.pageFreeList = some p)
    (hr : (s.pages p).ppRef = 0) (hp : p < s.npages) (hn : s.npages ≤ 2 ^ 20)
    (hk : s.kernPgdir ≠ p) : envSetupVm e s = .ok 0#32 (s.newSpace e p) := by
  have hkva : page2kva p (s.takeZeroed p) = .ok p (s.takeZeroed p) := page2kva_ok hp hn
  unfold envSetupVm
  rw [bind_ok (show pageAlloc ALLOC_ZERO s = _ from pageAlloc_zero h hr hp hn)]
  show (page2kva p >>= _) (s.takeZeroed p) = _
  rw [bind_ok hkva]
  unfold modifyEnv
  show EStateM.Result.ok 0#32 _ = _
  congr 1
  unfold Kernel.newSpace Kernel.takeZeroed Kernel.takePage Kernel.setWord Kernel.setPage
    Kernel.setEnv
  simp [update_of_ne hk, hr]

section
variable (h : PageInv own spare s)
include h

/-- The directory `env_setup_vm` makes has no user entry. -/
theorem newSpace_user (e : Nat) (i : Fin NPDUSER) : target (s.newSpace e p).mem p i = none := by
  have hne : i.val ≠ pdx UVPT := ne_uvpt_of_user i.isLt
  have hword : (s.newSpace e p).mem p i = s.mem s.kernPgdir i := by
    show update s.mem p _ p i = _
    rw [update_self, update_of_ne hne]
  unfold target
  rw [hword]
  exact h.half.kern_user i i.isLt

theorem PageInv.newSpace (he : envDirs s e = none) (hp : s.pageFreeList = some p) :
    PageInv own spare (s.newSpace e p) ∧
      refs (s.newSpace e p) = update (refs s) (dirSlot e) (some p) := by
  obtain ⟨hplt, hpown, hpspare, hphits, hpref⟩ := h.books.head hp
  have hnp := h.npages_le
  have hfresh : ∀ a, refs s a ≠ some p := ne_of_hits_eq_zero hphits
  have hdirs : envDirs (s.newSpace e p) = update (envDirs s) e (some p) := by
    funext x
    show (update s.envs e.val _ x.val).envPgdir = _
    by_cases hx : x = e
    · subst hx
      rw [update_self, update_self]
    · rw [update_of_ne hx, update_of_ne (fun hc => hx (Fin.ext hc))]
      rfl
  have hmem : ∀ q, q ≠ p → (s.newSpace e p).mem q = s.mem q :=
    fun q hq => update_of_ne hq _ _
  have hold : deref (envDirs s) (s.newSpace e p).mem = refs s := by
    refine deref_congr (fun a q _ hq i => ?_)
    rw [hmem q (fun hc => hfresh a (hc ▸ hq))]
  have hempty : ∀ i, deref (envDirs s) (s.newSpace e p).mem (ptSlot e i) = none := by
    intro i
    show (envDirs s e).bind _ = _
    rw [he]
    rfl
  have hrefs : refs (s.newSpace e p) = update (refs s) (dirSlot e) (some p) := by
    unfold refs
    rw [hdirs, deref_setDir hempty (fun d hd i => ?_), hold]
    · rfl
    · cases hd
      exact newSpace_user h e i
  have hself : target (s.newSpace e p).mem p (pdx UVPT) = some p := by
    have hword : (s.newSpace e p).mem p (pdx UVPT) = page2pa p ||| PTE_P ||| PTE_U := by
      show update s.mem p _ p (pdx UVPT) = _
      rw [update_self, update_self]
    rw [target_of_present (by rw [hword]; exact present_or (present_or_P _)), hword,
      ptePage_or (by decide), ptePage_or (by decide), ptePage_page2pa (by omega)]
  have hne : ∀ q ∈ own, q ≠ p := fun q hq hc => hpown (hc ▸ hq)
  have hdirp : ∀ x d, envDirs s x = some d → d ≠ p :=
    fun x d hd hc => hfresh (dirSlot x) (hc ▸ hd)
  have hhalf : KernHalf own (envDirs s) s.kernPgdir (s.newSpace e p).mem := h.half.frame
    (fun q hq i => by rw [hmem q (hne q hq)])
    (fun x d hd i _ => by rw [hmem d (hdirp x d hd)])
  refine ⟨⟨hnp, ?_, ?_, h.own_lt, fun q hq => ?_⟩, hrefs⟩
  · -- take the page, then count its one reference
    have hbooks := (h.books.take hp).add (a := dirSlot e) he hplt hpown
      (Or.inr (Set.mem_insert p spare)) (h.books.table.update_fresh (dirSlot e) hfresh)
    rw [Set.insert_sdiff_self_of_notMem hpspare] at hbooks
    rw [hrefs]
    refine hbooks.congr rfl ?_ rfl
    show update s.pages p ⟨none, 1⟩ = update (update s.pages p _) p _
    rw [update_idem, Kernel.takePage]
    simp [Kernel.setPage, hpref]
  · rw [hdirs]
    refine ⟨hhalf.kern_own, hhalf.kern_user, hhalf.kern_self, hhalf.kern_table,
      fun x d hd => ?_, fun x d hd i h1 h2 h3 => ?_⟩
    · by_cases hx : x = e
      · rw [hx, update_self] at hd
        cases hd
        exact hself
      · rw [update_of_ne hx] at hd
        exact hhalf.dir_self x d hd
    · by_cases hx : x = e
      · rw [hx, update_self] at hd
        cases hd
        have hk : s.kernPgdir ≠ p := hne _ h.half.kern_own
        show update s.mem p _ p i = update s.mem p _ s.kernPgdir i
        rw [update_self, update_of_ne hk, update_of_ne h3]
      · rw [update_of_ne hx] at hd
        exact hhalf.dir_upper x d hd i h1 h2 h3
  · rw [show (s.newSpace e p).pages q = s.pages q from update_of_ne (hne q hq) _ _]
    exact h.own_ref q hq

/-- `env_setup_vm` of an environment without a directory. -/
theorem PageInv.envSetupVm (he : envDirs s e = none) :
    (envSetupVm e s = .ok (-E_NO_MEM) s ∧ s.pageFreeList = none) ∨
    ∃ p, envSetupVm e s = .ok 0#32 (s.newSpace e p) ∧ s.pageFreeList = some p ∧
      PageInv own spare (s.newSpace e p) ∧
      refs (s.newSpace e p) = update (refs s) (dirSlot e) (some p) := by
  cases hp : s.pageFreeList with
  | none => exact Or.inl ⟨envSetupVm_oom e hp, rfl⟩
  | some p =>
    obtain ⟨hplt, hpown, -, -, hpref⟩ := h.books.head hp
    obtain ⟨hinv, hrefs⟩ := h.newSpace he hp
    have hk : s.kernPgdir ≠ p := fun hc => hpown (hc ▸ h.half.kern_own)
    exact Or.inr ⟨p, envSetupVm_ok e hp hpref hplt h.npages_le hk, rfl, hinv, hrefs⟩

end

/-! ## §2. Emptying an address space. -/

/-- References have only been dropped between `s` and `s'`. -/
def Drops (s s' : Kernel) : Prop := ∀ a, refs s' a = refs s a ∨ refs s' a = none

theorem Drops.refl (s : Kernel) : Drops s s := fun _ => Or.inl rfl

theorem Drops.trans {s s' s'' : Kernel} (h : Drops s s') (h' : Drops s' s'') : Drops s s'' := by
  intro a
  rcases h' a with h1 | h1
  · rw [h1]
    exact h a
  · exact Or.inr h1

theorem Drops.of_update {s s' : Kernel} {a : Slot (Fin NENV)}
    (h : refs s' = update (refs s) a none) : Drops s s' := by
  intro b
  rw [h]
  by_cases hb : b = a
  · rw [hb, update_self]
    exact Or.inr rfl
  · rw [update_of_ne hb]
    exact Or.inl rfl

theorem Drops.none {s s' : Kernel} (h : Drops s s') {a : Slot (Fin NENV)}
    (ha : refs s a = none) : refs s' a = none := by
  rcases h a with h1 | h1
  · rw [h1, ha]
  · exact h1

theorem Drops.bounded {s s' : Kernel} (h : Drops s s') (hb : Bounded s) : Bounded s' := by
  intro p
  refine Nat.le_trans ?_ (hb p)
  refine Finset.sum_le_sum (fun a _ => ?_)
  rcases h a with h1 | h1
  · rw [h1]
  · rw [h1]
    simp

/-- What a loop of `env_free` keeps: the invariant, the frame, and that
references only go. -/
structure Emptying (own spare : Set Nat) (s₀ s : Kernel) : Prop where
  inv : PageInv own spare s
  frame : Kernel.PmapFrame s₀ s
  drops : Drops s₀ s
  bounded : Bounded s
  wrapped : s.refWrapped = s₀.refWrapped

theorem Emptying.dirs (h : Emptying own spare s₀ s) : envDirs s = envDirs s₀ := by
  unfold envDirs
  rw [h.frame.envs]

/-- The address spaces of the environments other than `e` are the same. -/
def SameOthers (e : Nat) (s s' : Kernel) : Prop :=
  ∀ x < NENV, x ≠ e → ∀ v < pgnum UTOP, space s' x v = space s x v

theorem SameOthers.refl (e : Nat) (s : Kernel) : SameOthers e s s := fun _ _ _ _ _ => rfl

theorem SameOthers.trans {e : Nat} {s s' s'' : Kernel} (h : SameOthers e s s')
    (h' : SameOthers e s' s'') : SameOthers e s s'' :=
  fun x hx hne v hv => (h' x hx hne v hv).trans (h x hx hne v hv)

theorem SpaceUpdate.sameOthers {s s' : Kernel} {e : Nat} {va : Word}
    {entry : Option (Nat × Word)} (h : SpaceUpdate s s' e va entry) : SameOthers e s s' :=
  fun x hx hne v hv => by rw [h x hx v hv, if_neg (fun hc => hne hc.1)]

/-- `for (pteno = 0; pteno <= PTX(~0); pteno++)` unmaps every page of a table. -/
theorem envFreePtes_spec {d pt : Nat} (hd : envDirs s₀ e = some d) (h : Emptying own spare s₀ s)
    (ht : target s.mem d i = some pt) :
    wp (envFreePtes e i pt)
      (fun _ s' => Emptying own spare s₀ s' ∧ Drops s s' ∧ SameOthers e s s' ∧
        target s'.mem d i = some pt ∧ ∀ j : Fin NPTENTRIES, refs s' (pageSlot e i j) = none)
      (fun _ _ => False) s := by
  refine wp_mono (wp_forUp (X := fun _ _ => False)
    (I := fun k u => Emptying own spare s₀ u ∧ Drops s u ∧ SameOthers e s u ∧
      target u.mem d i = some pt ∧
      ∀ j : Fin NPTENTRIES, j.val < k → refs u (pageSlot e i j) = none)
    NPTENTRIES 0 s ⟨h, Drops.refl s, .refl e s, ht, fun j hj => absurd hj (by omega)⟩ ?_)
    (fun _ u hu => ⟨hu.1, hu.2.1, hu.2.2.1, hu.2.2.2.1,
      fun j => hu.2.2.2.2 j (by have := j.isLt; omega)⟩)
    (fun _ _ hx => hx)
  intro k u _ hk ⟨hu, hdrop, hsame, hut, hdone⟩
  have hklt : k < NPTENTRIES := by omega
  have hud : envDirs u e = some d := by rw [hu.dirs]; exact hd
  have hslot : refs u (pageSlot e i ⟨k, hklt⟩) = target u.mem pt k :=
    deref_pageSlot hud hut ⟨k, hklt⟩
  by_cases hp : present (u.mem pt k) = true
  · -- a mapped page: `page_remove(e->env_pgdir, PGADDR(pdeno, pteno, 0))`
    have hi1024 : i.val < 1024 := Nat.lt_trans i.isLt (by decide)
    have hpdx := pdx_pgaddr hi1024 hklt
    have hptx := ptx_pgaddr hi1024 hklt
    have hva : pgaddr i k 0 < UTOP := by
      rw [← pdx_lt_user_iff, hpdx]
      exact i.isLt
    obtain ⟨u', hrun, hfr, hinv, hwr, hrefs⟩ := hu.inv.pageRemove hu.bounded hva hud
    have hsloteq : vaSlot e hva = pageSlot e i ⟨k, hklt⟩ := by
      simp only [vaSlot, hpdx, hptx]
    rw [hsloteq] at hrefs
    have hd' := Drops.of_update hrefs
    have hud' : envDirs u' e = some d := by
      unfold envDirs
      rw [hfr.envs]
      exact hud
    have hderef : derefPgdir e u = .ok d u := by
      have hpg : (u.envs e).envPgdir = some d := hud
      unfold derefPgdir
      rw [bind_get, hpg]
      rfl
    refine wp_of_ok (show _ = EStateM.Result.ok () u' from ?_)
      ⟨⟨hinv, hu.frame.trans hfr, hu.drops.trans hd',
      hd'.bounded hu.bounded, hwr.trans hu.wrapped⟩, hdrop.trans hd',
      hsame.trans (hu.inv.remove_space hud hva hrun hfr.envs).sameOthers, ?_, fun j hj => ?_⟩
    · rw [bind_get, if_pos hp, bind_ok hderef]
      exact hrun
    · have hpt : refs u' (ptSlot e i) = refs u (ptSlot e i) := by
        rw [hrefs, update_of_ne (by simp)]
      have h1 : refs u' (ptSlot e i) = target u'.mem d i := deref_ptSlot hud' i
      have h2 : refs u (ptSlot e i) = target u.mem d i := deref_ptSlot hud i
      rw [← h1, hpt, h2, hut]
    · by_cases hjk : j.val = k
      · have hj' : j = ⟨k, hklt⟩ := Fin.ext hjk
        rw [hrefs, hj', update_self]
      · exact hd'.none (hdone j (by omega))
  · refine wp_of_ok (show _ = EStateM.Result.ok () u from ?_) ⟨hu, hdrop, hsame, hut, fun j hj =>
      ?_⟩
    · rw [bind_get, if_neg hp]
      rfl
    · by_cases hjk : j.val = k
      · have hj' : j = ⟨k, hklt⟩ := Fin.ext hjk
        rw [hj', hslot]
        exact target_of_not_present (by simpa using hp)
      · exact hdone j (by omega)

/-- Clearing the entry of an empty page table and dropping the table. -/
theorem PageInv.clearPde (h : PageInv own spare s) (hb : Bounded s)
    {d t : Nat} (hd : envDirs s e = some d)
    (ht : target s.mem d i = some t) (hempty : ∀ j, refs s (pageSlot e i j) = none) :
    PageInv own spare ((s.setWord d i 0#32).decref t) ∧
      refs ((s.setWord d i 0#32).decref t) = update (refs s) (ptSlot e i) none := by
  obtain ⟨hslot, -, htown, -⟩ := h.table hd ht
  have hfr : Kernel.PmapFrame s ((s.setWord d i 0#32).decref t) :=
    (Kernel.pmapFrame_setWord s d i 0#32).trans (Kernel.pmapFrame_decref _ t)
  have hmem : ((s.setWord d i 0#32).decref t).mem = putWord s.mem d i 0#32 := by
    rw [Kernel.decref_mem, Kernel.setWord_mem]
  have hrefs : refs ((s.setWord d i 0#32).decref t)
      = update (refs s) (ptSlot e i) none := by
    rw [refs_eq_of_frame hfr, hmem]
    exact deref_clearPde h.books.table.distinct hd hempty
  have hned : ∀ p ∈ own, p ≠ d := fun p hp he => (h.dir hd).2 (he ▸ hp)
  have hnet : ∀ p ∈ own, p ≠ t := fun p hp he => htown (he ▸ hp)
  refine ⟨h.step hfr ?_ (fun p hp => ?_) (fun p hp k => ?_) (fun e' d' hd' k hk => ?_), hrefs⟩
  · obtain ⟨hp, hf⟩ := Kernel.decref_congr s (s.setWord d i 0#32) rfl rfl t
    rw [hrefs]
    exact (h.books.drop hslot (hb t)).congr
      (hfr.npages.trans (Kernel.pmapFrame_decref s t).npages.symm) hp hf
  · rw [decref_pages_of_ne (hnet p hp)]
    rfl
  · rw [hmem, putWord_of_ne _ _ (Or.inl (hned p hp))]
  · have := i.isLt
    rw [hmem, putWord_of_ne _ _ (Or.inr (by omega))]

theorem PageInv.clearPde_others (h : PageInv own spare s) {d t : Nat} (hd : envDirs s e = some d)
    (ht : target s.mem d i = some t) :
    SameOthers e s ((s.setWord d i 0#32).decref t) := by
  obtain ⟨l, wf, -⟩ := h.wellFormed
  have hfr : Kernel.PmapFrame s ((s.setWord d i 0#32).decref t) :=
    (Kernel.pmapFrame_setWord s d i 0#32).trans (Kernel.pmapFrame_decref _ t)
  have hmem : ((s.setWord d i 0#32).decref t).mem = putWord s.mem d i 0#32 := by
    rw [Kernel.decref_mem, Kernel.setWord_mem]
  intro x hx hne v hv
  unfold space
  rw [hfr.envs]
  cases hd' : (s.envs x).envPgdir with
  | none => rfl
  | some d' =>
    have hdne : d' ≠ d := by
      rintro rfl
      have hslot := h.books.table (dirSlot ⟨x, hx⟩) (dirSlot e) d' rfl hd' hd
      exact hne (congrArg Fin.val (Sum.inl.inj hslot))
    rw [hmem]
    exact mapping_frame wf ⟨e, hd⟩ (wf.private_table ⟨e, hd⟩ i.isLt ht)
      (fun p k _ hpk => putWord_of_ne _ _ (by tauto)) ⟨⟨x, hx⟩, hd'⟩
      (Nat.lt_trans hv (by decide)) (Or.inl hdne)

/-- One round of the outer loop: entry `i` of the directory is empty after it. -/
theorem envFreePde_spec (i : Fin NPDUSER)
    (hd : envDirs s₀ e = some d) (h : Emptying own spare s₀ s) :
    wp (envFreePde e i)
      (fun _ s' => Emptying own spare s₀ s' ∧ Drops s s' ∧ SameOthers e s s' ∧
        refs s' (ptSlot e i) = none)
      (fun _ _ => False) s := by
  have hsd : envDirs s e = some d := by rw [h.dirs]; exact hd
  have hderef : derefPgdir e s = .ok d s := by
    have hpg : (s.envs e).envPgdir = some d := hsd
    unfold derefPgdir
    rw [bind_get, hpg]
    rfl
  have hslot : refs s (ptSlot e i) = target s.mem d i := deref_ptSlot hsd i
  unfold envFreePde
  cases ht : target s.mem d i with
  | none =>
    refine wp_of_ok (show _ = EStateM.Result.ok () s from ?_)
      ⟨h, Drops.refl s, .refl e s, hslot.trans ht⟩
    rw [bind_ok hderef, bind_get,
      if_neg (by rw [target_eq_none ht]; simp)]
    rfl
  | some t =>
    obtain ⟨hp, hpage⟩ := target_eq_some ht
    obtain ⟨-, htlt, -, -⟩ := h.inv.table hsd ht
    have hpg : pgnum (pteAddr (s.mem d i)) = t := by exact hpage
    have hkaddr : kaddr (pteAddr (s.mem d i)) s = .ok t s := by
      rw [kaddr_ok (by rw [hpg]; exact htlt), hpg]
    obtain ⟨_, u, hrun, hu, hdrop, hsame, hut, hempty⟩ :=
      exists_ok_of_wp (envFreePtes_spec hd h ht)
    have hud : envDirs u e = some d := by rw [hu.dirs]; exact hd
    obtain ⟨huslot, hutlt, -, -⟩ := hu.inv.table hud hut
    obtain ⟨hinv, hrefs⟩ := hu.inv.clearPde hu.bounded hud hut hempty
    have hd' := Drops.of_update hrefs
    have hpa : pa2page (pteAddr (s.mem d i)) (u.setWord d i 0#32)
        = .ok t (u.setWord d i 0#32) := by
      rw [pa2page_ok (by rw [hpg]; exact hutlt), hpg]
    have hdec : pageDecref t (u.setWord d i 0#32)
        = .ok () ((u.setWord d i 0#32).decref t) :=
      pageDecref_ok (fun _ => hu.inv.books.link huslot)
    refine wp_of_ok (show _ = EStateM.Result.ok () ((u.setWord d i 0#32).decref t) from ?_)
      ⟨⟨hinv, hu.frame.trans ((Kernel.pmapFrame_setWord _ _ _ _).trans
          (Kernel.pmapFrame_decref _ _)), hu.drops.trans hd', hd'.bounded hu.bounded,
        (Kernel.decref_refWrapped _ _).trans hu.wrapped⟩, hdrop.trans hd',
        hsame.trans (hu.inv.clearPde_others hud hut), ?_⟩
    · rw [bind_ok hderef, bind_get, if_pos hp,
        bind_ok hkaddr, bind_ok hrun]
      rw [bind_ok (show (modify fun v : Kernel => v.setWord d i 0#32 : KM PUnit) u
        = .ok ⟨⟩ (u.setWord d i 0#32) from rfl), bind_ok hpa]
      exact hdec
    · rw [hrefs, update_self]

/-- The outer loop leaves no page table behind. -/
theorem envFreePdes_spec (hd : envDirs s e = some d) (h : PageInv own spare s) (hb : Bounded s) :
    wp (forUp (envFreePde e) 0 NPDUSER)
      (fun _ s' => Emptying own spare s s' ∧ SameOthers e s s' ∧
        ∀ i, refs s' (ptSlot e i) = none)
      (fun _ _ => False) s := by
  have hstart : Emptying own spare s s := ⟨h, .refl s, Drops.refl s, hb, rfl⟩
  refine wp_mono (wp_forUp (X := fun _ _ => False)
    (I := fun k u => Emptying own spare s u ∧ SameOthers e s u ∧
      ∀ i : Fin NPDUSER, i.val < k → refs u (ptSlot e i) = none)
    NPDUSER 0 s ⟨hstart, .refl e s, fun i hi => absurd hi (by omega)⟩ ?_)
    (fun _ u hu => ⟨hu.1, hu.2.1, fun i => hu.2.2 i (by have := i.isLt; omega)⟩)
    (fun _ _ hx => hx)
  intro k u _ hk ⟨hu, hsame, hdone⟩
  have hklt : k < NPDUSER := by omega
  refine wp_mono (envFreePde_spec ⟨k, hklt⟩ hd hu) (fun _ v hv => ?_) (fun _ _ hx => hx)
  refine ⟨hv.1, hsame.trans hv.2.2.1, fun i hi => ?_⟩
  by_cases hik : i.val = k
  · have hi' : i = ⟨k, hklt⟩ := Fin.ext hik
    rw [hi']
    exact hv.2.2.2
  · exact hv.2.1.none (hdone i (by omega))

/-- `e->env_pgdir = 0`. -/
abbrev Kernel.noDir (s : Kernel) (e : Nat) : Kernel :=
  s.setEnv e { s.envs e with envPgdir := none }

/-- Taking an empty directory away and dropping its page. -/
theorem PageInv.dropDir (h : PageInv own spare s) (hb : Bounded s)
    (hd : envDirs s e = some d) (hempty : ∀ i, refs s (ptSlot e i) = none) :
    PageInv own spare ((s.noDir e).decref d) ∧
      refs ((s.noDir e).decref d)
        = update (refs s) (dirSlot e) none := by
  have hfr := Kernel.pmapFrame_decref (s.noDir e) d
  have hdirs : envDirs ((s.noDir e).decref d)
      = update (envDirs s) e none := by
    funext x
    unfold envDirs
    rw [hfr.envs]
    show (update s.envs e.val _ x.val).envPgdir = _
    by_cases hx : x = e
    · subst hx
      rw [update_self, update_self]
    · rw [update_of_ne hx, update_of_ne (fun hc => hx (Fin.ext hc))]
  have hmem : ((s.noDir e).decref d).mem = s.mem :=
    Kernel.decref_mem _ _
  have hrefs : refs ((s.noDir e).decref d)
      = update (refs s) (dirSlot e) none := by
    unfold refs
    rw [hdirs, hmem]
    exact deref_setDir hempty (fun d' hd' => absurd hd' (by simp))
  have hslot : refs s (dirSlot e) = some d := hd
  obtain ⟨hp, hf⟩ := Kernel.decref_congr s
    (s.noDir e) rfl rfl d
  have hned : ∀ p ∈ own, p ≠ d := fun p hpo he => (h.dir hd).2 (he ▸ hpo)
  refine ⟨⟨by rw [hfr.npages]; exact h.npages_le, ?_, ?_, fun p hpo => ?_, fun p hpo => ?_⟩,
    hrefs⟩
  · rw [hrefs]
    exact (h.books.drop hslot (hb d)).congr
      (hfr.npages.trans (Kernel.pmapFrame_decref s d).npages.symm) hp hf
  · have hold : ∀ x d', update (envDirs s) e none x = some d' →
        envDirs s x = some d' := by
      intro x d' hx
      by_cases hxe : x = e
      · rw [hxe, update_self] at hx
        cases hx
      · rwa [update_of_ne hxe] at hx
    rw [hdirs, hmem, hfr.kernPgdir]
    exact ⟨h.half.kern_own, h.half.kern_user, h.half.kern_self, h.half.kern_table,
      fun x d' hx => h.half.dir_self x d' (hold x d' hx),
      fun x d' hx => h.half.dir_upper x d' (hold x d' hx)⟩
  · rw [hfr.npages]
    exact h.own_lt p hpo
  · rw [hp, decref_pages_of_ne (hned p hpo)]
    exact h.own_ref p hpo

/-- What `env_free(e)` changes besides pages, memory and translations. -/
structure Freed (s s' : Kernel) (e : Nat) : Prop where
  npages : s'.npages = s.npages
  kernPgdir : s'.kernPgdir = s.kernPgdir
  envs : s'.envs = update s.envs e
    { s.envs e with envPgdir := none, envStatus := .free, envLink := s.envFreeList }
  envFreeList : s'.envFreeList = some e
  cpunum : s'.cpunum = s.cpunum
  cpus : ∀ c, s'.cpus c = { s.cpus c with
    tlb := (s'.cpus c).tlb
    cr3 := if c = s.cpunum ∧ s.curenv = some e then s.kernPgdir else (s.cpus c).cr3 }
  ticks : s'.ticks = s.ticks
  e1000 : s'.e1000 = s.e1000
  consIn : s'.consIn = s.consIn
  userMemCheckAddr : s'.userMemCheckAddr = s.userMemCheckAddr
  accesses : s'.accesses = s.accesses
  refWrapped : s'.refWrapped = s.refWrapped
  fsKin : s'.fsKin = s.fsKin

/-- The state in which `env_free(e)` starts its loops. -/
def leaveDir (s : Kernel) (e : Nat) : Kernel :=
  if s.curenv = some e then
    s.setCpu { s.cpus s.cpunum with cr3 := s.kernPgdir, tlb := fun _ => none }
  else s

theorem leaveDir_cpus (s : Kernel) (e c : Nat) :
    (leaveDir s e).cpus c = { s.cpus c with
      tlb := ((leaveDir s e).cpus c).tlb
      cr3 := if c = s.cpunum ∧ s.curenv = some e then s.kernPgdir else (s.cpus c).cr3 } := by
  unfold leaveDir
  by_cases he : s.curenv = some e
  · rw [if_pos he]
    by_cases hc : c = s.cpunum
    · subst hc
      simp [he, Kernel.setCpu]
    · simp [hc, Kernel.setCpu]
  · simp [he]

theorem leaveDir_eq (s : Kernel) (e : Nat) : ∃ cpus, leaveDir s e = { s with cpus := cpus } := by
  unfold leaveDir
  split
  · exact ⟨_, rfl⟩
  · exact ⟨s.cpus, rfl⟩

/-- `env_free(e)` after it has left the directory. -/
def envFreeRest (e : Nat) : KM Unit := do
  forUp (envFreePde e) 0 NPDUSER
  let pa ← paddr ((← get).envs e).envPgdir
  modifyEnv e fun env => { env with envPgdir := none }
  pageDecref (← pa2page (page2pa pa))
  modify fun s =>
    { s.setEnv e { s.envs e with envStatus := .free, envLink := s.envFreeList } with
      envFreeList := some e }

theorem envFree_eq (s : Kernel) (e : Nat) : envFree e s = envFreeRest e (leaveDir s e) := by
  unfold envFree leaveDir
  rw [bind_get]
  by_cases hc : s.curenv = some e
  · rw [if_pos hc, if_pos hc]
    rfl
  · rw [if_neg hc, if_neg hc]
    rfl

/-- The last steps of `env_free`: the directory `d` goes, the slot is free. -/
def Kernel.dropEnv (s : Kernel) (e d : Nat) : Kernel :=
  let v := (s.setEnv e { s.envs e with envPgdir := none }).decref d
  { v.setEnv e { v.envs e with envStatus := .free, envLink := v.envFreeList } with
    envFreeList := some e }

theorem envFreeRest_ok {u : Kernel} {e d : Nat}
    (hrun : forUp (envFreePde e) 0 NPDUSER s = .ok () u) (hd : (u.envs e).envPgdir = some d)
    (hlt : d < u.npages) (hn : u.npages ≤ 2 ^ 20) (hl : (u.pages d).ppLink = none) :
    envFreeRest e s = .ok () (u.dropEnv e d) := by
  have hnum := pgnum_page2pa (p := d) (by omega)
  have hpa : pa2page (page2pa d) (u.noDir e)
      = .ok d (u.noDir e) := by
    rw [pa2page_ok (by rw [hnum]; exact hlt), hnum]
  have hdec : pageDecref d (u.noDir e)
      = .ok () ((u.noDir e).decref d) :=
    pageDecref_ok (fun _ => hl)
  unfold envFreeRest
  rw [bind_ok hrun, bind_get, hd,
    bind_ok (show paddr (some d) u = .ok d u from rfl),
    bind_ok (show modifyEnv e (fun env => { env with envPgdir := none }) u
      = .ok () (u.noDir e) from rfl),
    bind_ok hpa, bind_ok hdec]
  rfl

theorem PageInv.dropEnv (h : PageInv own spare s) (hb : Bounded s)
    (hd : envDirs s e = some d) (hempty : ∀ i, refs s (ptSlot e i) = none) :
    PageInv own spare (s.dropEnv e d) ∧
      refs (s.dropEnv e d) = update (refs s) (dirSlot e) none := by
  obtain ⟨hinv, hrefs⟩ := h.dropDir hb hd hempty
  have hdirs : envDirs (s.dropEnv e d)
      = envDirs ((s.noDir e).decref d) := by
    funext x
    unfold envDirs Kernel.dropEnv
    by_cases hx : x.val = e.val
    · simp only [Kernel.setEnv, hx, update_self]
    · simp only [Kernel.setEnv, update_of_ne hx]
  refine ⟨hinv.congr rfl rfl rfl rfl rfl hdirs, ?_⟩
  rw [← hrefs]
  unfold refs
  rw [hdirs]
  rfl

theorem dropEnv_envs (u : Kernel) (e d : Nat) :
    (u.dropEnv e d).envs = update u.envs e
      { u.envs e with envPgdir := none, envStatus := .free, envLink := u.envFreeList } := by
  have hdec := Kernel.pmapFrame_decref (u.noDir e) d
  have henvs : ((u.noDir e).decref d).envs
      = update u.envs e { u.envs e with envPgdir := none } := hdec.envs
  have hlist : ((u.noDir e).decref d).envFreeList
      = u.envFreeList := hdec.envFreeList
  unfold Kernel.dropEnv Kernel.setEnv
  unfold Kernel.noDir Kernel.setEnv at henvs hlist
  simp only [henvs, hlist, update_idem, update_self]

theorem freed_dropEnv {u : Kernel} {e : Nat} (hfr : Kernel.PmapFrame (leaveDir s e) u)
    (hwr : u.refWrapped = (leaveDir s e).refWrapped) (d : Nat) : Freed s (u.dropEnv e d) e := by
  have hcpus := leaveDir_cpus s e
  obtain ⟨cpus, hl⟩ := leaveDir_eq s e
  rw [hl] at hfr hwr hcpus
  have hdec := Kernel.pmapFrame_decref (u.noDir e) d
  have hwrap := Kernel.decref_refWrapped (u.noDir e) d
  have henvs : u.envs = s.envs := hfr.envs
  have hlist : u.envFreeList = s.envFreeList := hfr.envFreeList
  have hdrop := dropEnv_envs u e d
  rw [henvs, hlist] at hdrop
  -- only the frame of `decref` matters from here on
  unfold Kernel.dropEnv at hdrop ⊢
  generalize (u.noDir e).decref d = v at hdec hwrap hdrop ⊢
  refine ⟨hdec.npages.trans hfr.npages, hdec.kernPgdir.trans hfr.kernPgdir, hdrop, rfl,
    hdec.cpunum.trans hfr.cpunum, fun c => ?_, hdec.ticks.trans hfr.ticks,
    hdec.e1000.trans hfr.e1000, hdec.consIn.trans hfr.consIn,
    hdec.userMemCheckAddr.trans hfr.userMemCheckAddr, hdec.accesses.trans hfr.accesses,
    hwrap.trans hwr, hdec.fsKin.trans hfr.fsKin⟩
  · have h1 : v.cpus c = { u.cpus c with tlb := (v.cpus c).tlb } := hdec.cpus c
    show v.cpus c = _
    have h2 : u.cpus c = { cpus c with tlb := (u.cpus c).tlb } := hfr.cpus c
    have h3 : cpus c = { s.cpus c with
        tlb := (cpus c).tlb
        cr3 := if c = s.cpunum ∧ s.curenv = some e then s.kernPgdir else (s.cpus c).cr3 } :=
      hcpus c
    refine CpuInfo.ext ?_ ?_ ?_ ?_ rfl
    · rw [h1]; rw [h2]; rw [h3]
    · rw [h1]; rw [h2]; rw [h3]
    · rw [h1]; rw [h2]; rw [h3]
    · rw [h1]; rw [h2]; rw [h3]

/-- **`env_free`** returns, keeps the page invariant, and takes back all that
the environment had. -/
theorem PageInv.envFree (h : PageInv own spare s) (hb : Bounded s) (hd : envDirs s e = some d) :
    ∃ s', envFree e s = .ok () s' ∧ PageInv own spare s' ∧ Bounded s' ∧ Drops s s' ∧
      SameOthers e s s' ∧ Freed s s' e := by
  obtain ⟨cpus, hl⟩ := leaveDir_eq s e
  have hlrefs : refs (leaveDir s e) = refs s := by rw [hl]; rfl
  have hldirs : envDirs (leaveDir s e) = envDirs s := by rw [hl]; rfl
  have hlinv : PageInv own spare (leaveDir s e) := by
    rw [hl]
    exact h.congr rfl rfl rfl rfl rfl rfl
  have hlb : Bounded (leaveDir s e) := fun p => by rw [hlrefs]; exact hb p
  have hld : envDirs (leaveDir s e) e = some d := by rw [hldirs]; exact hd
  obtain ⟨_, u, hrun, hu, hsame, hempty⟩ := exists_ok_of_wp (envFreePdes_spec hld hlinv hlb)
  have hud : envDirs u e = some d := by rw [hu.dirs]; exact hld
  have huslot : refs u (dirSlot e) = some d := hud
  obtain ⟨hinv, hrefs⟩ := hu.inv.dropEnv hu.bounded hud hempty
  have hdrops : Drops s (u.dropEnv e d) := by
    have h1 : Drops s (leaveDir s e) := fun a => Or.inl (by rw [hlrefs])
    exact (h1.trans hu.drops).trans (Drops.of_update hrefs)
  have hothers : SameOthers e s (u.dropEnv e d) := by
    have h1 : SameOthers e s u := by
      rw [hl] at hsame
      exact hsame
    refine h1.trans fun x _ hne v _ => ?_
    have hmem : (u.dropEnv e d).mem = u.mem := Kernel.decref_mem _ _
    unfold space
    rw [dropEnv_envs, update_of_ne hne, hmem]
  refine ⟨_, ?_, hinv, hdrops.bounded hb, hdrops, hothers, freed_dropEnv hu.frame hu.wrapped d⟩
  rw [envFree_eq]
  exact envFreeRest_ok hrun hud (hu.inv.dir hud).1 hu.inv.npages_le (hu.inv.books.link huslot)

end

end Jos
