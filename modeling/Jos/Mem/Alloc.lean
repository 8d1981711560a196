/-
  Jos.Mem.Alloc — **WHAT THE PAGE-TABLE FUNCTIONS DO, EXACTLY.**

  Each function of `kern/pmap.c` is a closed expression of the state it starts
  from, once the branch it takes is known.  §1 names the state changes, §2 the
  well-formed free list, §3 computes each function.  Nothing later unfolds one
  of these functions again.
-/
import Jos.Kern.Pmap
import Jos.Lib.Chain
import Jos.Mem.Slots

namespace Jos

open Exec
open Function (update update_of_ne update_self update_eq_self update_idem update_comm)

variable {d pp q t : Nat} {va : Word}

/-! ## §1. State changes. -/

namespace Kernel

/-- The effect of `page_decref(q)`. -/
def decref (s : Kernel) (q : Nat) : Kernel :=
  if (s.pages q).ppRef - 1 = 0 then
    { s.setPage q ⟨s.pageFreeList, 0⟩ with pageFreeList := some q }
  else
    s.setPage q { s.pages q with ppRef := (s.pages q).ppRef - 1 }

/-- The effect of `pp->pp_ref++` in `page_insert`. -/
def incref (s : Kernel) (pp : Nat) : Kernel :=
  { s.setPage pp { s.pages pp with ppRef := (s.pages pp).ppRef + 1 } with
    refWrapped := s.refWrapped || (s.pages pp).ppRef == 65535#16 }

/-- The effect of `tlb_invalidate(d, va)`. -/
def flush (s : Kernel) (d : Nat) (va : Word) : Kernel :=
  match s.curenv with
  | some e =>
    if (s.envs e).envPgdir = some d then
      s.setCpu { s.cpus s.cpunum with
        tlb := update (s.cpus s.cpunum).tlb (pgnum va) none }
    else s
  | none =>
    s.setCpu { s.cpus s.cpunum with
      tlb := update (s.cpus s.cpunum).tlb (pgnum va) none }

/-- The first free page `p` is taken off the list. -/
def takePage (s : Kernel) (p : Nat) : Kernel :=
  { s.setPage p { s.pages p with ppLink := none } with
    pageFreeList := (s.pages p).ppLink }

/-- The first free page `p` is taken off the list and cleared. -/
def takeZeroed (s : Kernel) (p : Nat) : Kernel :=
  { s.takePage p with mem := update s.mem p (fun _ => 0#32) }

/-- The entry `pgdir_walk` makes for a new page table. -/
def tableEntry (t : Nat) : Word := page2pa t ||| PTE_P ||| PTE_U ||| PTE_W

/-- The free page `t` becomes the page table behind entry `i` of `d`. -/
def newTable (s : Kernel) (d i t : Nat) : Kernel :=
  { s with
    pageFreeList := (s.pages t).ppLink
    pages := update s.pages t ⟨none, 1⟩
    mem := putWord (update s.mem t (fun _ => 0#32)) d i (tableEntry t) }

/-- What `page_insert` does to an old mapping in the entry for `va` of table `t`. -/
def dropOld (s : Kernel) (d : Nat) (va : Word) (t : Nat) : Kernel :=
  match target s.mem t (ptx va) with
  | none => s
  | some q => (((s.flush d va).decref q).flush d va).setWord t (ptx va) 0#32

/-- The two stores that end `page_insert`: the entry in `t`, and the permissions
added to the directory entry. -/
def enter (s : Kernel) (d pp : Nat) (va perm : Word) (t : Nat) : Kernel :=
  let s' := s.setWord t (ptx va) (page2pa pp ||| perm ||| PTE_P)
  s'.setWord d (pdx va) (s'.mem d (pdx va) ||| (perm ||| PTE_P))

/-- The effect of `page_insert` once the page table `t` is there. -/
def inserted (s : Kernel) (d pp : Nat) (va perm : Word) (t : Nat) : Kernel :=
  ((s.incref pp).dropOld d va t).enter d pp va perm t

/-- Everything except pages, their contents and translations is unchanged. -/
structure PmapFrame (s s' : Kernel) : Prop where
  npages : s'.npages = s.npages
  kernPgdir : s'.kernPgdir = s.kernPgdir
  envs : s'.envs = s.envs
  envFreeList : s'.envFreeList = s.envFreeList
  cpunum : s'.cpunum = s.cpunum
  cpus : ∀ c, s'.cpus c = { s.cpus c with tlb := (s'.cpus c).tlb }
  ticks : s'.ticks = s.ticks
  e1000 : s'.e1000 = s.e1000
  consIn : s'.consIn = s.consIn
  userMemCheckAddr : s'.userMemCheckAddr = s.userMemCheckAddr
  accesses : s'.accesses = s.accesses
  fsKin : s'.fsKin = s.fsKin

theorem PmapFrame.refl (s : Kernel) : PmapFrame s s :=
  ⟨rfl, rfl, rfl, rfl, rfl, fun _ => rfl, rfl, rfl, rfl, rfl, rfl, rfl⟩

theorem PmapFrame.trans {s t u : Kernel} (h : PmapFrame s t) (h' : PmapFrame t u) :
    PmapFrame s u where
  npages := h'.npages.trans h.npages
  kernPgdir := h'.kernPgdir.trans h.kernPgdir
  envs := h'.envs.trans h.envs
  envFreeList := h'.envFreeList.trans h.envFreeList
  cpunum := h'.cpunum.trans h.cpunum
  cpus c := by rw [h'.cpus c, h.cpus c]
  ticks := h'.ticks.trans h.ticks
  e1000 := h'.e1000.trans h.e1000
  consIn := h'.consIn.trans h.consIn
  userMemCheckAddr := h'.userMemCheckAddr.trans h.userMemCheckAddr
  accesses := h'.accesses.trans h.accesses
  fsKin := h'.fsKin.trans h.fsKin

theorem PmapFrame.cpuEnv {s t : Kernel} (h : PmapFrame s t) (c : Nat) :
    (t.cpus c).cpuEnv = (s.cpus c).cpuEnv := by
  rw [h.cpus c]

theorem PmapFrame.cpuStatus {s t : Kernel} (h : PmapFrame s t) (c : Nat) :
    (t.cpus c).cpuStatus = (s.cpus c).cpuStatus := by
  rw [h.cpus c]

theorem PmapFrame.curenv {s t : Kernel} (h : PmapFrame s t) : t.curenv = s.curenv := by
  unfold Kernel.curenv
  rw [h.cpunum, h.cpuEnv]

/-- A change of pages, memory and the wrap marker alone. -/
theorem pmapFrame_of_pages (s : Kernel) (pages : Nat → PageInfo) (fl : Option Nat)
    (m : Nat → Nat → Word) (w : Bool) :
    PmapFrame s { s with pages := pages, pageFreeList := fl, mem := m, refWrapped := w } :=
  ⟨rfl, rfl, rfl, rfl, rfl, fun _ => rfl, rfl, rfl, rfl, rfl, rfl, rfl⟩

theorem pmapFrame_setWord (s : Kernel) (p i : Nat) (w : Word) :
    PmapFrame s (s.setWord p i w) := pmapFrame_of_pages s _ _ _ _

theorem pmapFrame_incref (s : Kernel) (pp : Nat) : PmapFrame s (s.incref pp) :=
  pmapFrame_of_pages s _ _ _ _

theorem pmapFrame_newTable (s : Kernel) (d i t : Nat) : PmapFrame s (s.newTable d i t) :=
  pmapFrame_of_pages s _ _ _ _

theorem pmapFrame_decref (s : Kernel) (q : Nat) : PmapFrame s (s.decref q) := by
  unfold decref
  split
  · exact pmapFrame_of_pages s _ _ _ _
  · exact pmapFrame_of_pages s _ _ _ _

theorem flush_eq (s : Kernel) (d : Nat) (va : Word) :
    ∃ tlb, s.flush d va = s.setCpu { s.cpus s.cpunum with tlb := tlb } := by
  have hself : s = s.setCpu { s.cpus s.cpunum with tlb := (s.cpus s.cpunum).tlb } := by
    show s = { s with cpus := update s.cpus s.cpunum (s.cpus s.cpunum) }
    rw [update_eq_self]
  unfold flush
  split
  · split
    · exact ⟨_, rfl⟩
    · exact ⟨_, hself⟩
  · exact ⟨_, rfl⟩

theorem pmapFrame_flush (s : Kernel) (d : Nat) (va : Word) : PmapFrame s (s.flush d va) := by
  obtain ⟨tlb, h⟩ := flush_eq s d va
  rw [h]
  refine ⟨rfl, rfl, rfl, rfl, rfl, fun c => ?_, rfl, rfl, rfl, rfl, rfl, rfl⟩
  show update s.cpus s.cpunum _ c = _
  by_cases hc : c = s.cpunum
  · subst hc
    simp [setCpu]
  · simp [setCpu, update_of_ne hc]

theorem pmapFrame_dropOld (s : Kernel) (d : Nat) (va : Word) (t : Nat) :
    PmapFrame s (s.dropOld d va t) := by
  unfold dropOld
  split
  · exact .refl s
  · exact (((pmapFrame_flush s d va).trans (pmapFrame_decref _ _)).trans
      (pmapFrame_flush _ d va)).trans (pmapFrame_setWord _ _ _ _)

theorem pmapFrame_inserted (s : Kernel) (d pp : Nat) (va perm : Word) (t : Nat) :
    PmapFrame s (s.inserted d pp va perm t) :=
  (((pmapFrame_incref s pp).trans (pmapFrame_dropOld _ d va t)).trans
    (pmapFrame_setWord _ _ _ _)).trans (pmapFrame_setWord _ _ _ _)

@[simp] theorem flush_mem (s : Kernel) (d : Nat) (va : Word) :
    (s.flush d va).mem = s.mem := by
  obtain ⟨tlb, h⟩ := flush_eq s d va
  rw [h]
  rfl

@[simp] theorem flush_pages (s : Kernel) (d : Nat) (va : Word) :
    (s.flush d va).pages = s.pages := by
  obtain ⟨tlb, h⟩ := flush_eq s d va
  rw [h]
  rfl

@[simp] theorem flush_pageFreeList (s : Kernel) (d : Nat) (va : Word) :
    (s.flush d va).pageFreeList = s.pageFreeList := by
  obtain ⟨tlb, h⟩ := flush_eq s d va
  rw [h]
  rfl

@[simp] theorem flush_refWrapped (s : Kernel) (d : Nat) (va : Word) :
    (s.flush d va).refWrapped = s.refWrapped := by
  obtain ⟨tlb, h⟩ := flush_eq s d va
  rw [h]
  rfl

@[simp] theorem decref_refWrapped (s : Kernel) (q : Nat) :
    (s.decref q).refWrapped = s.refWrapped := by
  unfold decref
  split <;> rfl

@[simp] theorem setWord_mem (s : Kernel) (p i : Nat) (w : Word) :
    (s.setWord p i w).mem = putWord s.mem p i w := rfl

@[simp] theorem decref_mem (s : Kernel) (q : Nat) : (s.decref q).mem = s.mem := by
  unfold decref
  split <;> rfl

@[simp] theorem newTable_mem (s : Kernel) (d i t : Nat) :
    (s.newTable d i t).mem
      = putWord (update s.mem t (fun _ => 0#32)) d i (tableEntry t) := rfl

theorem decref_pages (s : Kernel) (q : Nat) :
    (s.decref q).pages = update s.pages q
      (if (s.pages q).ppRef - 1 = 0 then ⟨s.pageFreeList, 0⟩
        else ⟨(s.pages q).ppLink, (s.pages q).ppRef - 1⟩) := by
  unfold decref
  split <;> rfl

theorem decref_pageFreeList (s : Kernel) (q : Nat) :
    (s.decref q).pageFreeList
      = if (s.pages q).ppRef - 1 = 0 then some q else s.pageFreeList := by
  unfold decref
  split <;> rfl

theorem incref_pages (s : Kernel) (pp : Nat) :
    (s.incref pp).pages
      = update s.pages pp ⟨(s.pages pp).ppLink, (s.pages pp).ppRef + 1⟩ := rfl

/-- `page_decref` sees the pages and the free list alone. -/
theorem decref_congr (s s' : Kernel) (hp : s'.pages = s.pages)
    (hf : s'.pageFreeList = s.pageFreeList) (q : Nat) :
    (s'.decref q).pages = (s.decref q).pages ∧
      (s'.decref q).pageFreeList = (s.decref q).pageFreeList := by
  rw [decref_pages, decref_pages, decref_pageFreeList, decref_pageFreeList, hp, hf]
  exact ⟨rfl, rfl⟩

/-- Counting a page up and down again changes nothing, unless the count was 0. -/
theorem decref_incref_self {s : Kernel} (h : (s.pages q).ppRef ≠ 0) :
    ((s.incref q).decref q).pages = s.pages ∧
      ((s.incref q).decref q).pageFreeList = s.pageFreeList := by
  have hr : (s.pages q).ppRef + 1 - 1 = (s.pages q).ppRef :=
    BitVec.add_sub_cancel _ _
  have hq : (s.incref q).pages q = ⟨(s.pages q).ppLink, (s.pages q).ppRef + 1⟩ := by
    rw [incref_pages, update_self]
  rw [decref_pages, decref_pageFreeList, hq]
  simp only [hr, if_neg h]
  refine ⟨?_, rfl⟩
  rw [incref_pages, update_idem]
  exact update_eq_self q s.pages

/-- Counting up one page and down another, in either order. -/
theorem decref_incref_comm (s : Kernel) (h : q ≠ pp) :
    ((s.incref pp).decref q).pages = ((s.decref q).incref pp).pages ∧
      ((s.incref pp).decref q).pageFreeList = ((s.decref q).incref pp).pageFreeList := by
  have hq : (s.incref pp).pages q = s.pages q := update_of_ne h _ _
  have hpp : (s.decref q).pages pp = s.pages pp := by
    rw [decref_pages]
    exact update_of_ne h.symm _ _
  constructor
  · rw [decref_pages, hq, incref_pages, incref_pages, hpp, decref_pages]
    exact update_comm h.symm _ _ _
  · rw [decref_pageFreeList, hq]
    show _ = (s.decref q).pageFreeList
    rw [decref_pageFreeList]
    rfl

@[simp] theorem incref_mem (s : Kernel) (pp : Nat) : (s.incref pp).mem = s.mem := rfl

end Kernel

/-! ## §2. The free list. -/

/-- The free list runs through the pages `l`: it is finite and duplicate-free,
its pages are unreferenced, and no other page has a link. -/
structure FreeList (s : Kernel) (l : List Nat) : Prop where
  chain : Chain (fun p => (s.pages p).ppLink) s.pageFreeList l
  nodup : l.Nodup
  lt : ∀ p ∈ l, p < s.npages
  ref : ∀ p ∈ l, (s.pages p).ppRef = 0
  link : ∀ p, p < s.npages → p ∉ l → (s.pages p).ppLink = none

namespace FreeList

variable {s s' : Kernel} {l : List Nat}

/-- Only the pages and the head matter. -/
theorem congr (h : FreeList s l) (hn : s'.npages = s.npages) (hp : s'.pages = s.pages)
    (hf : s'.pageFreeList = s.pageFreeList) : FreeList s' l where
  chain := by rw [hp, hf]; exact h.chain
  nodup := h.nodup
  lt p hpl := by rw [hn]; exact h.lt p hpl
  ref p hpl := by rw [hp]; exact h.ref p hpl
  link p hlt hpl := by rw [hp]; exact h.link p (hn ▸ hlt) hpl

theorem head_none (h : FreeList s l) (hf : s.pageFreeList = none) : l = [] :=
  Chain.nil_of_none (hf ▸ h.chain)

theorem head_some (h : FreeList s l) (hf : s.pageFreeList = some t) : ∃ l', l = t :: l' := by
  obtain ⟨l', hl, -⟩ := Chain.cons_of_some (hf ▸ h.chain)
  exact ⟨l', hl⟩

theorem links_update (s : Kernel) (q : Nat) (v : PageInfo) :
    (fun p => (update s.pages q v p).ppLink)
      = update (fun p => (s.pages p).ppLink) q v.ppLink := by
  funext p
  by_cases hp : p = q
  · subst hp
    simp
  · simp [update_of_ne hp]

/-- Changing the count of a page that is not on the list. -/
theorem setRef (h : FreeList s l) (hq : q ∉ l) (r : BitVec 16) :
    FreeList (s.setPage q { s.pages q with ppRef := r }) l where
  chain := by
    show Chain (fun p => (update s.pages q _ p).ppLink) s.pageFreeList l
    rw [links_update]
    exact h.chain.update_of_notMem hq
  nodup := h.nodup
  lt := h.lt
  ref p hp := by
    have hpq : p ≠ q := fun h => hq (h ▸ hp)
    show (update s.pages q _ p).ppRef = 0
    rw [update_of_ne hpq]
    exact h.ref p hp
  link p hlt hp := by
    show (update s.pages q _ p).ppLink = none
    by_cases hpq : p = q
    · subst hpq
      rw [update_self]
      exact h.link p hlt hp
    · rw [update_of_ne hpq]
      exact h.link p hlt hp

/-- Putting an unreferenced page in front. -/
theorem push (h : FreeList s l) (hq : q ∉ l) (hlt : q < s.npages) :
    FreeList { s.setPage q ⟨s.pageFreeList, 0⟩ with pageFreeList := some q } (q :: l) where
  chain := by
    show Chain (fun p => (update s.pages q _ p).ppLink) (some q) (q :: l)
    rw [links_update]
    exact h.chain.push hq
  nodup := List.nodup_cons.mpr ⟨hq, h.nodup⟩
  lt p hp := by
    rcases List.mem_cons.mp hp with rfl | hp
    · exact hlt
    · exact h.lt p hp
  ref p hp := by
    show (update s.pages q _ p).ppRef = 0
    by_cases hpq : p = q
    · subst hpq
      rw [update_self]
    · rw [update_of_ne hpq]
      exact h.ref p ((List.mem_cons.mp hp).resolve_left hpq)
  link p hlt hp := by
    simp only [List.mem_cons, not_or] at hp
    show (update s.pages q _ p).ppLink = none
    rw [update_of_ne hp.1]
    exact h.link p hlt hp.2

/-- Taking the first page off, with any new count. -/
theorem pop (h : FreeList s (t :: l)) (r : BitVec 16) :
    FreeList { s.setPage t ⟨none, r⟩ with pageFreeList := (s.pages t).ppLink } l where
  chain := by
    show Chain (fun p => (update s.pages t _ p).ppLink) (s.pages t).ppLink l
    rw [links_update]
    have hc := h.chain
    have hhead : s.pageFreeList = some t := hc.1
    rw [hhead] at hc
    exact hc.pop h.nodup
  nodup := (List.nodup_cons.mp h.nodup).2
  lt p hp := h.lt p (List.mem_cons_of_mem t hp)
  ref p hp := by
    have hpt : p ≠ t := fun hpt => (List.nodup_cons.mp h.nodup).1 (hpt ▸ hp)
    show (update s.pages t _ p).ppRef = 0
    rw [update_of_ne hpt]
    exact h.ref p (List.mem_cons_of_mem t hp)
  link p hlt hp := by
    show (update s.pages t _ p).ppLink = none
    by_cases hpt : p = t
    · subst hpt
      rw [update_self]
    · rw [update_of_ne hpt]
      exact h.link p hlt (by simp [hpt, hp])

end FreeList

/-! ## §3. The functions, computed. -/

section

variable {s : Kernel}

theorem kaddr_ok {pa : Word} (h : pgnum pa < s.npages) : kaddr pa s = .ok (pgnum pa) s := by
  show (if pgnum pa ≥ s.npages then _ else _ : KM Nat) s = _
  rw [if_neg (by omega)]
  rfl

theorem pa2page_ok {pa : Word} (h : pgnum pa < s.npages) : pa2page pa s = .ok (pgnum pa) s := by
  show (if pgnum pa ≥ s.npages then _ else _ : KM Nat) s = _
  rw [if_neg (by omega)]
  rfl

theorem page2kva_ok {p : Nat} (h : p < s.npages) (hn : s.npages ≤ 2 ^ 20) :
    page2kva p s = .ok p s := by
  have hp := pgnum_page2pa (p := p) (by omega)
  unfold page2kva
  rw [kaddr_ok (by rw [hp]; exact h), hp]

theorem pageAlloc_nil (f : Nat) (h : s.pageFreeList = none) : pageAlloc f s = .ok none s := by
  show (match s.pageFreeList with
    | none => (pure none : KM (Option Nat))
    | some p => _) s = _
  rw [h]
  rfl

/-- `page_alloc` with `ALLOC_ZERO`. -/
theorem pageAlloc_zero {p : Nat} (h : s.pageFreeList = some p)
    (hr : (s.pages p).ppRef = 0) (hp : p < s.npages) (hn : s.npages ≤ 2 ^ 20) :
    pageAlloc 1 s = .ok (some p) (s.takeZeroed p) := by
  have hkva : page2kva p (s.takePage p) = .ok p (s.takePage p) := page2kva_ok hp hn
  unfold pageAlloc
  rw [bind_get]
  simp only [h]
  rw [if_neg (not_not_intro hr)]
  show ((set (s.takePage p) : KM PUnit) >>= fun _ => page2kva p >>= fun d =>
    clearPage d >>= fun _ => pure (some p)) s = _
  rw [bind_ok (show (set (s.takePage p) : KM PUnit) s = .ok ⟨⟩ (s.takePage p) from rfl),
    bind_ok hkva]
  rfl

theorem pageFree_ok (hr : (s.pages pp).ppRef = 0) (hl : (s.pages pp).ppLink = none) :
    pageFree pp s = .ok () { s.setPage pp ⟨s.pageFreeList, 0⟩ with pageFreeList := some pp } := by
  unfold pageFree
  rw [bind_get, if_neg (not_not_intro hr),
    if_neg (not_not_intro hl), ← hr]
  rfl

/-- `page_decref` frees a page without link when its count reaches 0. -/
theorem pageDecref_ok (hl : (s.pages q).ppRef - 1 = 0 → (s.pages q).ppLink = none) :
    pageDecref q s = .ok () (s.decref q) := by
  unfold pageDecref
  rw [bind_get]
  have hset : ∀ t : Kernel, (set t : KM PUnit) s = .ok ⟨⟩ t := fun _ => rfl
  rw [bind_ok (hset _)]
  by_cases hz : (s.pages q).ppRef - 1 = 0
  · rw [if_pos hz, pageFree_ok (by rw [hz]; simp [Kernel.setPage])
      (by simp [Kernel.setPage, hl hz])]
    unfold Kernel.decref
    rw [if_pos hz]
    simp [Kernel.setPage]
  · rw [if_neg hz]
    unfold Kernel.decref
    rw [if_neg hz]
    rfl

theorem tlbInvalidate_ok (s : Kernel) (d : Nat) (va : Word) :
    tlbInvalidate d va s = .ok () (s.flush d va) := by
  unfold tlbInvalidate Kernel.flush
  rw [bind_get]
  cases s.curenv with
  | none => rfl
  | some e =>
    by_cases h : (s.envs e).envPgdir = some d
    · simp only [if_pos h]
      rfl
    · simp only [if_neg h]
      rfl

theorem pgdirWalk_present (create : Bool)
    (ht : target s.mem d (pdx va) = some t) (hlt : t < s.npages) :
    pgdirWalk d va create s = .ok (some (t, ptx va)) s := by
  obtain ⟨hp, rfl⟩ := target_eq_some ht
  unfold pgdirWalk
  rw [bind_get, if_pos hp,
    bind_ok (kaddr_ok (by exact hlt))]
  rfl

theorem pgdirWalk_absent (ht : target s.mem d (pdx va) = none) :
    pgdirWalk d va false s = .ok none s := by
  have hp := target_eq_none ht
  unfold pgdirWalk
  rw [bind_get, if_neg (by rw [hp]; simp)]
  rfl

theorem pgdirWalk_oom (ht : target s.mem d (pdx va) = none)
    (hf : s.pageFreeList = none) : pgdirWalk d va true s = .ok none s := by
  have hp := target_eq_none ht
  unfold pgdirWalk
  rw [bind_get, if_neg (by rw [hp]; simp),
    if_pos rfl, bind_ok (pageAlloc_nil 1 hf)]
  rfl

theorem tableEntry_page (h : t < 2 ^ 20) : ptePage (Kernel.tableEntry t) = t := by
  unfold Kernel.tableEntry
  rw [ptePage_or (by decide), ptePage_or (by decide), ptePage_or (by decide),
    ptePage_page2pa h]

theorem tableEntry_present (t : Nat) : present (Kernel.tableEntry t) = true :=
  present_or (present_or (present_or_P _))

/-- A walk that creates: the first free page becomes the page table. -/
theorem pgdirWalk_create (ht : target s.mem d (pdx va) = none) (hf : s.pageFreeList = some t)
    (hr : (s.pages t).ppRef = 0) (hlt : t < s.npages) (hn : s.npages ≤ 2 ^ 20) :
    pgdirWalk d va true s = .ok (some (t, ptx va)) (s.newTable d (pdx va) t) := by
  have hp := target_eq_none ht
  have hpage : ptePage (Kernel.tableEntry t) = t := tableEntry_page (by omega)
  have hkva : page2kva t (s.takeZeroed t) = .ok t (s.takeZeroed t) := page2kva_ok hlt hn
  have hentry : pgnum (pteAddr ((s.newTable d (pdx va) t).mem d (pdx va))) = t := by
    rw [pgnum_pteAddr, Kernel.newTable_mem, putWord_same, hpage]
  have hkad : kaddr (pteAddr ((s.newTable d (pdx va) t).mem d (pdx va)))
      (s.newTable d (pdx va) t) = .ok t (s.newTable d (pdx va) t) := by
    rw [kaddr_ok (by rw [hentry]; exact hlt), hentry]
  unfold pgdirWalk
  rw [bind_get, if_neg (by rw [hp]; simp),
    if_pos rfl, bind_ok (pageAlloc_zero hf hr hlt hn)]
  show (page2kva t >>= _) (s.takeZeroed t) = _
  rw [bind_ok hkva]
  -- clear the page, count it, enter it
  have hstep : ∀ (f : Kernel → Kernel) (k : Unit → KM (Option (Nat × Nat))) (u : Kernel),
      ((modify f : KM PUnit) >>= k) u = k () (f u) := fun f k u => bind_ok rfl
  have hstate : ((({ s.takeZeroed t with
        mem := update (s.takeZeroed t).mem t (fun _ => 0#32) } : Kernel).setPage t
      { (s.takeZeroed t).pages t with ppRef := ((s.takeZeroed t).pages t).ppRef + 1 }).setWord
        d (pdx va) (Kernel.tableEntry t)) = s.newTable d (pdx va) t := by
    unfold Kernel.newTable Kernel.setWord Kernel.takeZeroed Kernel.takePage putWord
    simp [Kernel.setPage, hr]
  unfold clearPage
  rw [hstep, hstep, hstep]
  show ((get : KM Kernel) >>= _) ((({ s.takeZeroed t with
        mem := update (s.takeZeroed t).mem t (fun _ => 0#32) } : Kernel).setPage t
      { (s.takeZeroed t).pages t with ppRef := ((s.takeZeroed t).pages t).ppRef + 1 }).setWord
        d (pdx va) (Kernel.tableEntry t)) = _
  rw [hstate, bind_get,
    bind_ok hkad]
  rfl

theorem pageLookup_none
    (h : (target s.mem d (pdx va)).bind (fun t => target s.mem t (ptx va)) = none)
    (hlt : ∀ t, target s.mem d (pdx va) = some t → t < s.npages) :
    pageLookup d va s = .ok none s := by
  unfold pageLookup
  cases ht : target s.mem d (pdx va) with
  | none =>
    rw [bind_ok (pgdirWalk_absent ht)]
    rfl
  | some t =>
    rw [bind_ok (pgdirWalk_present false ht (hlt t ht))]
    rw [ht] at h
    have hp := target_eq_none (show target s.mem t (ptx va) = none from h)
    show ((get : KM Kernel) >>= _) s = _
    rw [bind_get, if_neg (by rw [hp]; simp)]
    rfl

theorem pageLookup_some (ht : target s.mem d (pdx va) = some t) (hlt : t < s.npages)
    (hq : target s.mem t (ptx va) = some q) (hqlt : q < s.npages) :
    pageLookup d va s = .ok (some (q, (t, ptx va))) s := by
  obtain ⟨hp, rfl⟩ := target_eq_some hq
  unfold pageLookup
  rw [bind_ok (pgdirWalk_present false ht hlt)]
  show ((get : KM Kernel) >>= _) s = _
  rw [bind_get, if_pos hp,
    bind_ok (pa2page_ok (by exact hqlt))]
  rfl

theorem pageRemove_none
    (h : (target s.mem d (pdx va)).bind (fun t => target s.mem t (ptx va)) = none)
    (hlt : ∀ t, target s.mem d (pdx va) = some t → t < s.npages) :
    pageRemove d va s = .ok () s := by
  unfold pageRemove
  rw [bind_ok (pageLookup_none h hlt)]
  rfl

theorem pageRemove_some (ht : target s.mem d (pdx va) = some t) (hlt : t < s.npages)
    (hq : target s.mem t (ptx va) = some q) (hqlt : q < s.npages)
    (hl : (s.pages q).ppRef - 1 = 0 → (s.pages q).ppLink = none) :
    pageRemove d va s
      = .ok () (((s.decref q).flush d va).setWord t (ptx va) 0#32) := by
  unfold pageRemove
  rw [bind_ok (pageLookup_some ht hlt hq hqlt)]
  show (pageDecref q >>= _) s = _
  rw [bind_ok (pageDecref_ok hl), bind_ok (tlbInvalidate_ok _ d va)]
  rfl

theorem incref_ppLink (s : Kernel) (pp q : Nat) :
    ((s.incref pp).pages q).ppLink = (s.pages q).ppLink := by
  show (update s.pages pp _ q).ppLink = _
  by_cases h : q = pp
  · subst h
    rw [update_self]
  · rw [update_of_ne h]

theorem pageInsert_oom (pp : Nat) (perm : Word)
    (ht : target s.mem d (pdx va) = none) (hf : s.pageFreeList = none) :
    pageInsert d pp va perm s = .ok (-E_NO_MEM) s := by
  unfold pageInsert
  rw [bind_ok (pgdirWalk_oom ht hf)]
  rfl

/-- `page_insert`, from the state `s₁` its walk leaves. -/
theorem pageInsert_of_walk {va perm : Word} {s₁ : Kernel}
    (hw : pgdirWalk d va true s = .ok (some (t, ptx va)) s₁)
    (ht : target s₁.mem d (pdx va) = some t) (hlt : t < s₁.npages)
    (hold : ∀ q, target s₁.mem t (ptx va) = some q → q < s₁.npages ∧
      (((s₁.incref pp).pages q).ppRef - 1 = 0 → (s₁.pages q).ppLink = none)) :
    pageInsert d pp va perm s = .ok 0#32 (s₁.inserted d pp va perm t) := by
  have hstep : ∀ (f : Kernel → Kernel) (k : Unit → KM Word) (u : Kernel),
      ((modify f : KM PUnit) >>= k) u = k () (f u) := fun f k u => bind_ok rfl
  unfold pageInsert
  rw [bind_ok hw]
  show ((modify fun s : Kernel => s.incref pp : KM PUnit) >>= _) s₁ = _
  rw [hstep]
  rw [bind_get]
  unfold Kernel.inserted Kernel.dropOld
  rw [Kernel.incref_mem]
  cases hq : target s₁.mem t (ptx va) with
  | none =>
    rw [if_neg (by rw [target_eq_none hq]; simp)]
    rfl
  | some q =>
    obtain ⟨hqlt, hlink⟩ := hold q hq
    have hrem : pageRemove d va ((s₁.incref pp).flush d va) = .ok ()
        ((((s₁.incref pp).flush d va).decref q).flush d va |>.setWord t (ptx va) 0#32) := by
      have hfr := Kernel.pmapFrame_flush (s₁.incref pp) d va
      refine pageRemove_some (by simpa using ht) (hfr.npages ▸ hlt) (by simpa using hq)
        (hfr.npages ▸ hqlt) (fun hz => ?_)
      rw [Kernel.flush_pages] at hz ⊢
      rw [incref_ppLink]
      exact hlink hz
    rw [if_pos (target_eq_some hq).1, bind_ok (tlbInvalidate_ok _ d va), bind_ok hrem]
    rfl

end

end Jos
