/-
  Jos.Mem.PageInv — **THE PAGE INVARIANT, AND THE FUNCTIONS THAT KEEP IT.**

  `PageInv own spare s`: the books of `s` are right for the references made by
  the directories of the environments (`Accounts`), and the upper half of every
  directory is the kernel's (`KernHalf`).  Each function of `kern/pmap.c` that
  the system calls use returns from every such state, into such a state, and
  changes the references at one slot.
-/
import Jos.Mem.Accounting
import Jos.Mem.Refine

namespace Jos

open Exec
open Function (update update_of_ne update_self update_eq_self update_idem)

variable {e : Fin NENV} {i : Fin NPDUSER} {d pp t : Nat} {va : Word}

/-! ## §1. The invariant. -/

/-- The page directories of the environments. -/
def envDirs (s : Kernel) : Fin NENV → Option Nat := fun e => (s.envs e).envPgdir

/-- What refers to which page: directories, page tables and mapped pages of
the environments. -/
def refs (s : Kernel) : Slot (Fin NENV) → Option Nat := deref (envDirs s) s.mem

/-- The kernel's half of the directories. -/
structure KernHalf (own : Set Nat) (dirs : Fin NENV → Option Nat) (k : Nat)
    (m : Nat → Nat → Word) : Prop where
  kern_own : k ∈ own
  kern_user : ∀ i < NPDUSER, target m k i = none
  kern_self : target m k (pdx UVPT) = some k
  kern_table : ∀ i, NPDUSER ≤ i → i < NPTENTRIES → i ≠ pdx UVPT →
    ∀ t, target m k i = some t → t ∈ own ∧ t ≠ k
  dir_self : ∀ e d, dirs e = some d → target m d (pdx UVPT) = some d
  dir_upper : ∀ e d, dirs e = some d → ∀ i, NPDUSER ≤ i → i < NPTENTRIES → i ≠ pdx UVPT →
    m d i = m k i

/-- Stores to user pages, user page tables and the lower half of a directory
do not touch the kernel's half. -/
theorem KernHalf.frame {own : Set Nat} {dirs : Fin NENV → Option Nat} {k : Nat}
    {m m' : Nat → Nat → Word} (h : KernHalf own dirs k m) (hown : ∀ p ∈ own, ∀ i, m' p i = m p i)
    (hdir : ∀ e d, dirs e = some d → ∀ i, NPDUSER ≤ i → m' d i = m d i) :
    KernHalf own dirs k m' := by
  have huvpt : NPDUSER ≤ pdx UVPT := by decide
  have hk : ∀ i, target m' k i = target m k i := by
    intro i
    unfold target
    rw [hown k h.kern_own i]
  refine ⟨h.kern_own, fun i hi => by rw [hk]; exact h.kern_user i hi,
    by rw [hk]; exact h.kern_self, fun i h1 h2 h3 t ht => ?_, fun e d hd => ?_,
    fun e d hd i h1 h2 h3 => ?_⟩
  · rw [hk] at ht
    exact h.kern_table i h1 h2 h3 t ht
  · unfold target
    rw [hdir e d hd _ huvpt]
    exact h.dir_self e d hd
  · rw [hdir e d hd i h1, hown k h.kern_own i]
    exact h.dir_upper e d hd i h1 h2 h3

/-- **The page invariant.** -/
structure PageInv (own spare : Set Nat) (s : Kernel) : Prop where
  npages_le : s.npages ≤ 2 ^ 20
  books : Accounts own spare (refs s) s
  half : KernHalf own (envDirs s) s.kernPgdir s.mem
  own_lt : ∀ p ∈ own, p < s.npages
  own_ref : ∀ p ∈ own, (s.pages p).ppRef ≠ 0

/-- No page has more references than a count can hold. -/
def Bounded (s : Kernel) : Prop := ∀ p, hits (refs s) p ≤ 65535

section

variable {own spare : Set Nat} {s s' : Kernel}

theorem refs_congr (henv : s'.envs = s.envs) (hmem : s'.mem = s.mem) : refs s' = refs s := by
  unfold refs envDirs
  rw [henv, hmem]

/-- The invariant reads pages, the free list, memory and directories. -/
theorem PageInv.congr (h : PageInv own spare s) (hn : s'.npages = s.npages)
    (hp : s'.pages = s.pages) (hf : s'.pageFreeList = s.pageFreeList)
    (hm : s'.mem = s.mem) (hk : s'.kernPgdir = s.kernPgdir)
    (hd : envDirs s' = envDirs s) : PageInv own spare s' where
  npages_le := by rw [hn]; exact h.npages_le
  books := by
    have hr : refs s' = refs s := by
      unfold refs
      rw [hd, hm]
    rw [hr]
    exact h.books.congr hn hp hf
  half := by rw [hd, hm, hk]; exact h.half
  own_lt p hpo := by rw [hn]; exact h.own_lt p hpo
  own_ref p hpo := by rw [hp]; exact h.own_ref p hpo

/-- A directory of an environment is a page in use that the kernel does not own. -/
theorem PageInv.dir (h : PageInv own spare s)
    (hd : envDirs s e = some d) : d < s.npages ∧ d ∉ own :=
  h.books.ref (dirSlot e) d hd

/-- Assemble the invariant after a step that left the kernel's pages alone. -/
theorem PageInv.step {spare' : Set Nat} (h : PageInv own spare s)
    (hfr : Kernel.PmapFrame s s') (hbooks : Accounts own spare' (refs s') s')
    (hpages : ∀ p ∈ own, s'.pages p = s.pages p) (hown : ∀ p ∈ own, ∀ i, s'.mem p i = s.mem p i)
    (hdir : ∀ e d, envDirs s e = some d → ∀ i, NPDUSER ≤ i → s'.mem d i = s.mem d i) :
    PageInv own spare' s' where
  npages_le := by rw [hfr.npages]; exact h.npages_le
  books := hbooks
  half := by
    have hd : envDirs s' = envDirs s := by
      unfold envDirs
      rw [hfr.envs]
    rw [hd, hfr.kernPgdir]
    exact h.half.frame hown hdir
  own_lt p hp := by rw [hfr.npages]; exact h.own_lt p hp
  own_ref p hp := by rw [hpages p hp]; exact h.own_ref p hp

theorem refs_eq_of_frame (hfr : Kernel.PmapFrame s s') : refs s' = deref (envDirs s) s'.mem := by
  unfold refs envDirs
  rw [hfr.envs]

/-! ## §2. Taking and giving back a page. -/

section
variable (h : PageInv own spare s)
include h

/-- Contents of a page that is no table do not matter. -/
theorem PageInv.write {p : Nat} (hown : p ∉ own)
    (htab : ∀ a, a.isTable = true → refs s a ≠ some p) (w : Nat → Word) :
    PageInv own spare { s with mem := update s.mem p w } ∧
      refs { s with mem := update s.mem p w } = refs s := by
  have hfr : Kernel.PmapFrame s { s with mem := update s.mem p w } :=
    Kernel.pmapFrame_of_pages s _ _ _ _
  have hrefs : refs { s with mem := update s.mem p w } = refs s := by
    refine deref_congr (fun a q ha hq i => ?_)
    have hqp : q ≠ p := fun he => htab a ha (he ▸ hq)
    exact congrFun (update_of_ne hqp _ _) i
  refine ⟨h.step hfr ?_ (fun _ _ => rfl) (fun q hq i => ?_) (fun e d hd i _ => ?_), hrefs⟩
  · rw [hrefs]
    exact h.books.congr rfl rfl rfl
  · have hqp : q ≠ p := fun he => hown (he ▸ hq)
    exact congrFun (update_of_ne hqp _ _) i
  · have hdp : d ≠ p := fun he => htab (dirSlot e) rfl (he ▸ hd)
    exact congrFun (update_of_ne hdp _ _) i

/-- `page_alloc` without `ALLOC_ZERO`. -/
theorem PageInv.takePage (ht : s.pageFreeList = some t) :
    PageInv own (insert t spare) (s.takePage t) ∧ refs (s.takePage t) = refs s := by
  obtain ⟨-, htown, -, -, -⟩ := h.books.head ht
  have hrefs : refs (s.takePage t) = refs s := refs_congr rfl rfl
  refine ⟨h.step (Kernel.pmapFrame_of_pages s _ _ _ _) ?_ (fun p hp => ?_) (fun _ _ _ => rfl)
    (fun _ _ _ _ _ => rfl), hrefs⟩
  · exact h.books.take ht
  · have hpt : p ≠ t := fun he => htown (he ▸ hp)
    exact update_of_ne hpt _ _

/-- `page_alloc` with `ALLOC_ZERO`. -/
theorem PageInv.takeZeroed (ht : s.pageFreeList = some t) :
    PageInv own (insert t spare) (s.takeZeroed t) ∧ refs (s.takeZeroed t) = refs s := by
  obtain ⟨-, htown, -, hthits, -⟩ := h.books.head ht
  obtain ⟨hinv, hrefs⟩ := h.takePage ht
  obtain ⟨hinv', hrefs'⟩ := hinv.write htown
    (fun a _ => by exact ne_of_hits_eq_zero hthits a) (fun _ => 0#32)
  exact ⟨hinv', hrefs'.trans hrefs⟩

/-- `page_free` of a spare page. -/
theorem PageInv.giveUp (ht : t ∈ spare) :
    PageInv own (spare \ {t})
      { s.setPage t ⟨s.pageFreeList, 0⟩ with pageFreeList := some t } := by
  obtain ⟨-, htown, -⟩ := h.books.spare t ht
  have hne : ∀ p ∈ own, p ≠ t := fun p hp he => htown (he ▸ hp)
  refine h.step (Kernel.pmapFrame_of_pages s _ _ _ _) (h.books.giveUp ht) (fun p hp => ?_)
    (fun _ _ _ => rfl) (fun _ _ _ _ _ => rfl)
  exact update_of_ne (hne p hp) _ _

/-! ## §3. A new page table. -/

theorem PageInv.newTable (hd : envDirs s e = some d) (habs : target s.mem d i = none)
    (ht : s.pageFreeList = some t) :
    PageInv own spare (s.newTable d i t) ∧
      refs (s.newTable d i t) = update (refs s) (ptSlot e i) (some t) := by
  obtain ⟨htlt, htown, htspare, hthits, htref⟩ := h.books.head ht
  have hnp := h.npages_le
  have hfresh : ∀ a, refs s a ≠ some t := ne_of_hits_eq_zero hthits
  have hfr : Kernel.PmapFrame s (s.newTable d i t) := Kernel.pmapFrame_newTable s d i t
  have hrefs : refs (s.newTable d i t)
      = update (refs s) (ptSlot e i) (some t) := by
    exact deref_newTable h.books.table.distinct hd habs (fun a _ => hfresh a)
      (tableEntry_present t) (tableEntry_page (by omega))
  have hslot : refs s (ptSlot e i) = none := (deref_ptSlot hd i).trans habs
  have hmem : ∀ p k, p ≠ t → ¬(p = d ∧ k = i.val) →
      (s.newTable d i t).mem p k = s.mem p k := by
    intro p k hpt hpd
    rw [Kernel.newTable_mem, putWord_of_ne _ _ (not_and_or.mp hpd), update_of_ne hpt]
  have hne : ∀ p ∈ own, p ≠ t := fun p hp he => htown (he ▸ hp)
  refine ⟨h.step hfr ?_ (fun p hp => ?_) (fun p hp k => ?_) (fun e' d' hd' k hk => ?_), hrefs⟩
  · -- take the page, then count its one reference
    have hbooks := (h.books.take ht).add hslot htlt htown
      (Or.inr (Set.mem_insert t spare)) (h.books.table.update_fresh (ptSlot e i) hfresh)
    have hsp : insert t spare \ {t} = spare := Set.insert_sdiff_self_of_notMem htspare
    rw [hsp] at hbooks
    rw [hrefs]
    refine hbooks.congr rfl ?_ rfl
    show update s.pages t ⟨none, 1⟩ = update (update s.pages t _) t _
    rw [update_idem, Kernel.takePage]
    simp [Kernel.setPage, htref]
  · exact update_of_ne (hne p hp) _ _
  · exact hmem p k (hne p hp) (fun he => (h.dir hd).2 (he.1 ▸ hp))
  · refine hmem d' k (fun he => hfresh (dirSlot e') (he ▸ hd')) (fun he => ?_)
    have := i.isLt
    omega

/-! ## §4. Unmapping and mapping a page. -/

/-- A page table of an environment: its slot, and what it is not. -/
theorem PageInv.table (hd : envDirs s e = some d) (ht : target s.mem d i = some t) :
    refs s (ptSlot e i) = some t ∧ t < s.npages ∧ t ∉ own ∧
      ∀ e' d', envDirs s e' = some d' → d' ≠ t := by
  have hslot : refs s (ptSlot e i) = some t := (deref_ptSlot hd i).trans ht
  obtain ⟨hlt, hown⟩ := h.books.ref _ _ hslot
  refine ⟨hslot, hlt, hown, fun e' d' hd' he => ?_⟩
  have := h.books.table (ptSlot e i) (dirSlot e') t rfl hslot (he ▸ hd')
  exact absurd this (by simp)

end

theorem decref_pages_of_ne {p q : Nat} (h : p ≠ q) : (s.decref q).pages p = s.pages p := by
  rw [Kernel.decref_pages]
  exact update_of_ne h _ _

/-- The frame, the memory and the references `page_remove` leaves. -/
theorem PageInv.removed_refs (h : PageInv own spare s) (q : Nat) (va : Word)
    (hd : envDirs s e = some d)
    (j : Fin NPTENTRIES) (ht : target s.mem d i = some t) :
    Kernel.PmapFrame s (((s.decref q).flush d va).setWord t j 0#32) ∧
      (((s.decref q).flush d va).setWord t j 0#32).mem = putWord s.mem t j 0#32 ∧
      refs (((s.decref q).flush d va).setWord t j 0#32)
        = update (refs s) (pageSlot e i j) none := by
  have hfr : Kernel.PmapFrame s (((s.decref q).flush d va).setWord t j 0#32) :=
    ((Kernel.pmapFrame_decref s q).trans (Kernel.pmapFrame_flush _ d va)).trans
      (Kernel.pmapFrame_setWord _ _ _ _)
  have hmem : (((s.decref q).flush d va).setWord t j 0#32).mem = putWord s.mem t j 0#32 := by
    rw [Kernel.setWord_mem, Kernel.flush_mem, Kernel.decref_mem]
  refine ⟨hfr, hmem, ?_⟩
  rw [refs_eq_of_frame hfr, hmem]
  exact deref_setPte h.books.table.distinct (h.table hd ht).1 j 0#32

theorem PageInv.removed (h : PageInv own spare s)
    {d t q : Nat} (va : Word) (hd : envDirs s e = some d)
    {j : Fin NPTENTRIES} (ht : target s.mem d i = some t) (hq : target s.mem t j = some q)
    (hb : hits (refs s) q ≤ 65535) :
    PageInv own spare (((s.decref q).flush d va).setWord t j 0#32) ∧
      refs (((s.decref q).flush d va).setWord t j 0#32)
        = update (refs s) (pageSlot e i j) none := by
  obtain ⟨hslot, -, htown, htdir⟩ := h.table hd ht
  have hpage : refs s (pageSlot e i j) = some q := (deref_pageSlot hd ht j).trans hq
  obtain ⟨-, hqown⟩ := h.books.ref _ _ hpage
  obtain ⟨hfr, hmem, hrefs⟩ := h.removed_refs q va hd j ht
  have hne : ∀ p ∈ own, p ≠ t := fun p hp he => htown (he ▸ hp)
  refine ⟨h.step hfr ?_ (fun p hp => ?_) (fun p hp k => ?_) (fun e' d' hd' k _ => ?_), hrefs⟩
  · rw [hrefs]
    exact (h.books.drop hpage hb).congr (Kernel.pmapFrame_flush _ d va).npages
      (Kernel.flush_pages _ _ _) (Kernel.flush_pageFreeList _ _ _)
  · show ((s.decref q).flush d va).pages p = _
    rw [Kernel.flush_pages]
    exact decref_pages_of_ne (fun he => hqown (he ▸ hp))
  · rw [hmem, putWord_of_ne _ _ (Or.inl (hne p hp))]
  · rw [hmem, putWord_of_ne _ _ (Or.inl (htdir e' d' hd'))]

/-- The memory `page_insert` leaves, as two stores. -/
theorem inserted_mem_eq (s : Kernel) (d pp : Nat) (va perm : Word) (t : Nat) :
    (s.inserted d pp va perm t).mem
      = putWord (putWord s.mem t (ptx va) (page2pa pp ||| perm ||| PTE_P)) d (pdx va)
          (putWord s.mem t (ptx va) (page2pa pp ||| perm ||| PTE_P) d (pdx va)
            ||| (perm ||| PTE_P)) := by
  have hdrop : putWord ((s.incref pp).dropOld d va t).mem t (ptx va)
      (page2pa pp ||| perm ||| PTE_P)
        = putWord s.mem t (ptx va) (page2pa pp ||| perm ||| PTE_P) := by
    unfold Kernel.dropOld
    split
    · rfl
    · rw [Kernel.setWord_mem, Kernel.flush_mem, Kernel.decref_mem, Kernel.flush_mem,
        Kernel.incref_mem, putWord_putWord]
  unfold Kernel.inserted Kernel.enter
  simp only [Kernel.setWord_mem, hdrop]

/-- The counts `page_insert` leaves. -/
theorem inserted_pages (s : Kernel) (d pp : Nat) (va perm : Word) (t : Nat) :
    (target s.mem t (ptx va) = none →
      (s.inserted d pp va perm t).pages = (s.incref pp).pages ∧
      (s.inserted d pp va perm t).pageFreeList = (s.incref pp).pageFreeList) ∧
    (∀ q, target s.mem t (ptx va) = some q →
      (s.inserted d pp va perm t).pages = ((s.incref pp).decref q).pages ∧
      (s.inserted d pp va perm t).pageFreeList = ((s.incref pp).decref q).pageFreeList) := by
  have hpages : (s.inserted d pp va perm t).pages = ((s.incref pp).dropOld d va t).pages := rfl
  have hfree : (s.inserted d pp va perm t).pageFreeList
      = ((s.incref pp).dropOld d va t).pageFreeList := rfl
  constructor
  · intro hnone
    rw [hpages, hfree]
    unfold Kernel.dropOld
    rw [Kernel.incref_mem, hnone]
    exact ⟨rfl, rfl⟩
  · intro q hq
    have hcongr := Kernel.decref_congr (s.incref pp) ((s.incref pp).flush d va)
      (Kernel.flush_pages (s.incref pp) d va) (Kernel.flush_pageFreeList (s.incref pp) d va) q
    rw [hpages, hfree]
    unfold Kernel.dropOld
    rw [Kernel.incref_mem, hq]
    show ((((s.incref pp).flush d va).decref q).flush d va).pages = _ ∧
      ((((s.incref pp).flush d va).decref q).flush d va).pageFreeList = _
    rw [Kernel.flush_pages, Kernel.flush_pageFreeList]
    exact hcongr

/-- The books after a page went into the slot `a`, whatever was there. -/
theorem Accounts.replace {f : Slot (Fin NENV) → Option Nat} {a : Slot (Fin NENV)}
    (h : Accounts own spare f s) (hb : ∀ q, f a = some q → hits f q ≤ 65535)
    (ha : a.isTable = false) (hlt : pp < s.npages) (hown : pp ∉ own) (huse : hits f pp ≠ 0 ∨
      pp ∈ spare)
    (htab : ∀ b, b.isTable = true → f b ≠ some pp) (hn : s'.npages = s.npages) (hnone : f a = none →
      s'.pages = (s.incref pp).pages ∧ s'.pageFreeList = (s.incref pp).pageFreeList)
    (hsome : ∀ q, f a = some q → s'.pages = ((s.incref pp).decref q).pages ∧
      s'.pageFreeList = ((s.incref pp).decref q).pageFreeList) :
    Accounts own (spare \ {pp}) (update f a (some pp)) s' := by
  cases hq : f a with
  | none =>
    obtain ⟨hp, hf⟩ := hnone hq
    exact (h.add hq hlt hown huse (h.table.update_page ha htab)).congr hn hp hf
  | some q =>
    obtain ⟨hp, hf⟩ := hsome q hq
    have hpos := hits_pos_of_eq hq
    by_cases hqp : q = pp
    · -- the page was there already
      subst hqp
      have hnot : q ∉ spare := by
        intro hin
        have := (h.spare q hin).2.2
        omega
      have href : (s.pages q).ppRef ≠ 0 := by
        intro hz
        rw [h.count q hlt hown] at hz
        have hz' := congrArg BitVec.toNat hz
        have := hb q hq
        simp at hz'
        omega
      obtain ⟨hp', hf'⟩ := Kernel.decref_incref_self href
      rw [← hq, update_eq_self, Set.sdiff_singleton_eq_self hnot]
      exact h.congr hn (hp.trans hp') (hf.trans hf')
    · -- the old page goes, then the new one comes
      obtain ⟨hp', hf'⟩ := Kernel.decref_incref_comm s hqp
      have hdrop := h.drop hq (hb q hq)
      have hhits : hits (update f a none) pp = hits f pp := by
        have := Accounts.hits_empty hq pp
        rwa [if_neg hqp, Nat.add_zero] at this
      have htab' : ∀ b, b.isTable = true → update f a none b ≠ some pp := by
        intro b hbt hbp
        by_cases hba : b = a
        · rw [hba, update_self] at hbp
          cases hbp
        · rw [update_of_ne hba] at hbp
          exact htab b hbt hbp
      have hdn := (Kernel.pmapFrame_decref s q).npages
      have hadd := hdrop.add (update_self a none f) (hdn ▸ hlt) hown
        (by rw [hhits]; exact huse) (hdrop.table.update_page ha htab')
      rw [update_idem] at hadd
      exact hadd.congr (hn.trans hdn.symm) (hp.trans hp') (hf.trans hf')

theorem PageInv.inserted (h : PageInv own spare s) {va perm : Word} (hva : va < UTOP)
    (hb : ∀ q, refs s (vaSlot e hva)
      = some q → hits (refs s) q ≤ 65535) (hd : envDirs s e = some d)
    (ht : target s.mem d (pdx va) = some t) (hperm : permOk perm = true)
    (hlt : pp < s.npages) (hown : pp ∉ own) (huse : hits (refs s) pp ≠ 0 ∨ pp ∈ spare)
    (htab : ∀ b, b.isTable = true → refs s b ≠ some pp) :
    PageInv own (spare \ {pp}) (s.inserted d pp va perm t) ∧
      refs (s.inserted d pp va perm t) = update (refs s)
        (vaSlot e hva) (some pp) := by
  have hi : pdx va < NPDUSER := (pdx_lt_user_iff va).mpr hva
  have hnp := h.npages_le
  have hflags := permOk_flags hperm
  have hflagsP : (perm ||| PTE_P) &&& ~~~0xFFF#32 = 0#32 := by
    rw [BitVec.and_comm, BitVec.and_or_distrib_left, BitVec.and_comm, hflags]
    decide
  have hdist := h.books.table.distinct
  obtain ⟨hslot, -, htown, htdir⟩ := h.table hd (i := ⟨pdx va, hi⟩) ht
  have hfr := Kernel.pmapFrame_inserted s d pp va perm t
  have hmem := inserted_mem_eq s d pp va perm t
  -- the entry of the page table, then the flags of the directory entry
  have hpte := deref_setPte hdist hslot ⟨ptx va, ptx_lt va⟩ (page2pa pp ||| perm ||| PTE_P)
  rw [if_pos (present_or_P _), ptePage_mk (by omega) hflags] at hpte
  have htab' := h.books.table.update_page
    (a := vaSlot e hva) rfl htab
  have htgt : target (putWord s.mem t (ptx va) (page2pa pp ||| perm ||| PTE_P)) d (pdx va)
      = some t := by
    rw [target_putWord_of_ne _ _ (Or.inl (htdir e d hd))]
    exact ht
  have hrefs : refs (s.inserted d pp va perm t) = update (refs s)
      (vaSlot e hva) (some pp) := by
    rw [refs_eq_of_frame hfr, hmem]
    refine (deref_orPde (x := e) (i := ⟨pdx va, hi⟩) ?_ hd htgt hflagsP).trans hpte
    rw [hpte]
    exact htab'.distinct
  have hnet : ∀ p ∈ own, p ≠ t := fun p hp he => htown (he ▸ hp)
  have hned : ∀ p ∈ own, p ≠ d := fun p hp he => (h.dir hd).2 (he ▸ hp)
  have hold : refs s (vaSlot e hva) = target s.mem t (ptx va) :=
    deref_pageSlot hd ht _
  obtain ⟨hnone, hsome⟩ := inserted_pages s d pp va perm t
  refine ⟨h.step hfr ?_ (fun p hp => ?_) (fun p hp k => ?_) (fun e' d' hd' k hk => ?_), hrefs⟩
  · rw [hrefs]
    exact h.books.replace hb rfl hlt hown huse htab hfr.npages
      (fun hq => hnone (hold.symm.trans hq)) (fun q hq => hsome q (hold.symm.trans hq))
  · have hpp : p ≠ pp := fun he => hown (he ▸ hp)
    have hinc : (s.incref pp).pages p = s.pages p := update_of_ne hpp _ _
    cases hq : target s.mem t (ptx va) with
    | none => rw [(hnone hq).1, hinc]
    | some q =>
      have hqown := (h.books.ref _ q (hold.trans hq)).2
      have hpq : p ≠ q := fun he => hqown (he ▸ hp)
      rw [(hsome q hq).1, decref_pages_of_ne hpq, hinc]
  · rw [hmem, putWord_of_ne _ _ (Or.inl (hned p hp)), putWord_of_ne _ _ (Or.inl (hnet p hp))]
  · rw [hmem, putWord_of_ne _ _ (Or.inr (by omega)),
      putWord_of_ne _ _ (Or.inl (htdir e' d' hd'))]

/-! ## §5. The functions. -/

/-- `page_remove` below `UTOP` returns, and empties the slot of `va`. -/
theorem PageInv.pageRemove (h : PageInv own spare s) (hb : Bounded s) (hva : va < UTOP)
    (hd : envDirs s e = some d) :
    ∃ s', pageRemove d va s = .ok () s' ∧ Kernel.PmapFrame s s' ∧ PageInv own spare s' ∧
      s'.refWrapped = s.refWrapped ∧
      refs s' = update (refs s)
        (vaSlot e hva) none := by
  have hi : pdx va < NPDUSER := (pdx_lt_user_iff va).mpr hva
  have hlt : ∀ t, target s.mem d (pdx va) = some t → t < s.npages :=
    fun t ht => (h.table hd (i := ⟨pdx va, hi⟩) ht).2.1
  have hsame : refs s (vaSlot e hva) = none →
      refs s = update (refs s) (vaSlot e hva) none :=
    fun hnone => by rw [← hnone, update_eq_self]
  cases ht : target s.mem d (pdx va) with
  | none =>
    refine ⟨s, pageRemove_none (by rw [ht]; rfl) hlt, .refl s, h, rfl, hsame ?_⟩
    exact deref_pageSlot_of_none ((deref_ptSlot hd ⟨pdx va, hi⟩).trans ht) _
  | some t =>
    have hold : refs s (vaSlot e hva)
        = target s.mem t (ptx va) := deref_pageSlot hd ht _
    cases hq : target s.mem t (ptx va) with
    | none =>
      exact ⟨s, pageRemove_none (by rw [ht]; exact hq) hlt, .refl s, h, rfl,
        hsame (hold.trans hq)⟩
    | some q =>
      have hpage := hold.trans hq
      obtain ⟨hinv, hrefs⟩ := h.removed va hd (i := ⟨pdx va, hi⟩)
        (j := ⟨ptx va, ptx_lt va⟩) ht hq (hb q)
      exact ⟨_, pageRemove_some ht (hlt t ht) hq (h.books.ref _ q hpage).1
        (fun _ => h.books.link hpage),
        ((Kernel.pmapFrame_decref s q).trans (Kernel.pmapFrame_flush _ d va)).trans
          (Kernel.pmapFrame_setWord _ _ _ _), hinv,
        (Kernel.flush_refWrapped _ _ _).trans (Kernel.decref_refWrapped _ _), hrefs⟩

/-- `page_lookup` below `UTOP` returns what the slot of `va` refers to. -/
theorem PageInv.pageLookup (h : PageInv own spare s) (hva : va < UTOP) (hd : envDirs s e = some d) :
    ∃ r, pageLookup d va s = .ok r s ∧ r.map Prod.fst = refs s
      (vaSlot e hva) := by
  have hi : pdx va < NPDUSER := (pdx_lt_user_iff va).mpr hva
  have hlt : ∀ t, target s.mem d (pdx va) = some t → t < s.npages :=
    fun t ht => (h.table hd (i := ⟨pdx va, hi⟩) ht).2.1
  cases ht : target s.mem d (pdx va) with
  | none =>
    refine ⟨none, pageLookup_none (by rw [ht]; rfl) hlt, ?_⟩
    exact (deref_pageSlot_of_none ((deref_ptSlot hd ⟨pdx va, hi⟩).trans ht) _).symm
  | some t =>
    have hold : refs s (vaSlot e hva)
        = target s.mem t (ptx va) := deref_pageSlot hd ht _
    cases hq : target s.mem t (ptx va) with
    | none => exact ⟨none, pageLookup_none (by rw [ht]; exact hq) hlt, (hold.trans hq).symm⟩
    | some q =>
      exact ⟨_, pageLookup_some ht (hlt t ht) hq (h.books.ref _ q (hold.trans hq)).1,
        (hold.trans hq).symm⟩

/-- `page_insert` below `UTOP`: no memory and no change, or the slot of `va`
is filled, after a free page `t` became its page table if there was none.  The
page that was at `va` must be counted in range. -/
theorem PageInv.pageInsert (h : PageInv own spare s) {va perm : Word} (hva : va < UTOP)
    (hb : ∀ q, refs s (vaSlot e hva)
      = some q → hits (refs s) q ≤ 65535) (hd : envDirs s e = some d)
    (hperm : permOk perm = true) (hlt : pp < s.npages) (hown : pp ∉ own)
    (huse : hits (refs s) pp ≠ 0 ∨ pp ∈ spare) (htab : ∀ b, b.isTable = true → refs s b ≠ some pp) :
    (pageInsert d pp va perm s = .ok (-E_NO_MEM) s ∧ s.pageFreeList = none) ∨
    ∃ s' f, pageInsert d pp va perm s = .ok 0#32 s' ∧ Kernel.PmapFrame s s' ∧
      PageInv own (spare \ {pp}) s' ∧
      s'.refWrapped = (s.refWrapped || (s.pages pp).ppRef == 65535#16) ∧
      (f = refs s ∨ ∃ t, hits (refs s) t = 0 ∧ t ≠ pp ∧
        refs s (ptSlot e ⟨pdx va, (pdx_lt_user_iff va).mpr hva⟩) = none ∧
        f = update (refs s) (ptSlot e ⟨pdx va, (pdx_lt_user_iff va).mpr hva⟩)
          (some t)) ∧
      refs s' = update f
        (vaSlot e hva) (some pp) := by
  have hi : pdx va < NPDUSER := (pdx_lt_user_iff va).mpr hva
  have hwrap : ∀ (u : Kernel) (t : Nat), (u.inserted d pp va perm t).refWrapped
      = (u.refWrapped || (u.pages pp).ppRef == 65535#16) := by
    intro u t
    show ((u.incref pp).dropOld d va t).refWrapped = (u.incref pp).refWrapped
    unfold Kernel.dropOld
    split
    · rfl
    · show ((((u.incref pp).flush d va).decref _).flush d va).refWrapped = _
      rw [Kernel.flush_refWrapped, Kernel.decref_refWrapped, Kernel.flush_refWrapped]
  cases ht : target s.mem d (pdx va) with
  | some t =>
    obtain ⟨hslot, htlt, -, -⟩ := h.table hd (i := ⟨pdx va, hi⟩) ht
    obtain ⟨hinv, hrefs⟩ := h.inserted hva hb hd ht hperm hlt hown huse htab
    refine Or.inr ⟨_, _, pageInsert_of_walk (pgdirWalk_present true ht htlt) ht htlt
      (fun q hq => ?_), Kernel.pmapFrame_inserted s d pp va perm t, hinv, hwrap s t,
      Or.inl rfl, hrefs⟩
    have hpage : refs s (vaSlot e hva) = some q :=
      (deref_pageSlot hd ht _).trans hq
    exact ⟨(h.books.ref _ q hpage).1, fun _ => h.books.link hpage⟩
  | none =>
    cases hhead : s.pageFreeList with
    | none => exact Or.inl ⟨pageInsert_oom pp perm ht hhead, rfl⟩
    | some t =>
      obtain ⟨htlt, htown, htspare, hthits, htref⟩ := h.books.head hhead
      have htpp : t ≠ pp := by
        intro he
        rcases huse with hu | hu
        · exact hu (he ▸ hthits)
        · exact htspare (he ▸ hu)
      obtain ⟨hinv₁, hrefs₁⟩ := h.newTable hd (i := ⟨pdx va, hi⟩) ht hhead
      have hfr₁ := Kernel.pmapFrame_newTable s d (pdx va) t
      have hslot : refs s (ptSlot e ⟨pdx va, hi⟩) = none := (deref_ptSlot hd _).trans ht
      have hd₁ : envDirs (s.newTable d (pdx va) t) e = some d := hd
      have ht₁ : target (s.newTable d (pdx va) t).mem d (pdx va) = some t := by
        have hnew : refs (s.newTable d (pdx va) t) (ptSlot e ⟨pdx va, hi⟩) = some t := by
          rw [hrefs₁, update_self]
        exact (deref_ptSlot hd₁ ⟨pdx va, hi⟩).symm.trans hnew
      have hhits₁ : ∀ p, hits (refs (s.newTable d (pdx va) t)) p
          = hits (refs s) p + if t = p then 1 else 0 := by
        intro p
        rw [hrefs₁]
        exact Accounts.hits_fill hslot t p
      -- no page was at `va` without a page table
      have hb₁ : ∀ q, refs (s.newTable d (pdx va) t)
          (vaSlot e hva) = some q →
          hits (refs (s.newTable d (pdx va) t)) q ≤ 65535 := by
        intro q hq
        rw [hrefs₁, update_of_ne (by simp), refs,
          deref_pageSlot_of_none hslot] at hq
        cases hq
      have huse₁ : hits (refs (s.newTable d (pdx va) t)) pp ≠ 0 ∨ pp ∈ spare := by
        rw [hhits₁, if_neg htpp, Nat.add_zero]
        exact huse
      have htab₁ : ∀ b, b.isTable = true →
          refs (s.newTable d (pdx va) t) b ≠ some pp := by
        intro b hbt hbp
        rw [hrefs₁] at hbp
        by_cases hba : b = ptSlot e ⟨pdx va, hi⟩
        · rw [hba, update_self] at hbp
          exact htpp (Option.some.inj hbp)
        · rw [update_of_ne hba] at hbp
          exact htab b hbt hbp
      obtain ⟨hinv, hrefs⟩ := hinv₁.inserted hva hb₁ hd₁ ht₁ hperm hlt hown huse₁ htab₁
      have hpages : (s.newTable d (pdx va) t).pages pp = s.pages pp :=
        update_of_ne htpp.symm _ _
      refine Or.inr ⟨_, _, pageInsert_of_walk
        (pgdirWalk_create ht hhead htref htlt h.npages_le) ht₁ htlt (fun q hq => ?_),
        hfr₁.trans (Kernel.pmapFrame_inserted _ d pp va perm t), hinv, ?_,
        Or.inr ⟨t, hthits, htpp, hslot, hrefs₁⟩, hrefs⟩
      · have hpage : refs (s.newTable d (pdx va) t)
            (vaSlot e hva) = some q :=
          (deref_pageSlot hd₁ ht₁ _).trans hq
        exact ⟨(hinv₁.books.ref _ q hpage).1, fun _ => hinv₁.books.link hpage⟩
      · rw [hwrap, hpages]
        rfl

end

end Jos
