/-
  Jos.Mem.Runs — **PAGE ACCOUNTING OVER WHOLE RUNS.**

  A run starts in the booted kernel and takes any sequence of the operations
  that allocate, map, unmap, send and free pages (`MemOp`), each by any live
  environment.  One step keeps `MemInv` (`MemStep.kept`), so every state of a
  run has right counts and a right free list, as long as no page gets more
  references than `pp_ref` can hold.  The counts stay in range by themselves
  when no page that already has 65535 references is mapped once more.
-/
import Jos.Mem.Calls
import Jos.Mem.Boot

namespace Jos

open Exec

/-! ## §1. Operations and steps. -/

/-- The operations on pages. -/
inductive MemOp where
  | envAlloc (parentId : Word)
  | exofork
  | pageAlloc (envid va perm : Word)
  | pageMap (srcenvid srcva dstenvid dstva perm : Word)
  | pageUnmap (envid va : Word)
  | ipcTrySend (envid value srcva perm : Word)
  /-- `sys_ipc_recv` up to its call of the scheduler. -/
  | ipcRecv (dstva : Word)
  | envFree (e : Nat)
  deriving DecidableEq

def MemOp.run : MemOp → KM Unit
  | .envAlloc parentId => do
      let _ ← Jos.envAlloc parentId
      pure ()
  | .exofork => do
      let _ ← sysExofork
      pure ()
  | .pageAlloc envid va perm => do
      let _ ← sysPageAlloc envid va perm
      pure ()
  | .pageMap srcenvid srcva dstenvid dstva perm => do
      let _ ← sysPageMap srcenvid srcva dstenvid dstva perm
      pure ()
  | .pageUnmap envid va => do
      let _ ← sysPageUnmap envid va
      pure ()
  | .ipcTrySend envid value srcva perm => do
      let _ ← sysIpcTrySend envid value srcva perm
      pure ()
  | .ipcRecv dstva => ipcBlock dstva
  | .envFree e => Jos.envFree e

/-- `env_alloc` may run without an environment, `env_free` frees a live one,
and the system calls are made by a live one. -/
def MemOp.allowed (s : Kernel) (caller : Option Nat) : MemOp → Prop
  | .envAlloc _ => True
  | .envFree e => Live s e
  | _ => ∃ c, caller = some c ∧ Live s c

/-- The page the operation is about to map once more. -/
def MemOp.maps (s : Kernel) (caller : Option Nat) : MemOp → Option Nat
  | .pageMap srcenvid srcva _ _ _ => caller.bind fun c => srcPage s c srcenvid srcva
  | .ipcTrySend _ _ srcva _ => caller.bind fun c => mappedAt s c srcva
  | _ => none

/-- One operation, by `caller`, run to completion from a state that `pre` admits. -/
def MemStep (pre : Kernel → Option Nat → MemOp → Prop) (s s' : Kernel) : Prop :=
  ∃ (caller : Option Nat) (op : MemOp), op.allowed s caller ∧ pre s caller op ∧
    op.run (s.setCurenv caller) = .ok () s'

/-- No restriction. -/
abbrev anyOp : Kernel → Option Nat → MemOp → Prop := fun _ _ _ => True

/-- A page that the operation maps once more does not have 65535 references. -/
def inRoom (s : Kernel) (caller : Option Nat) (op : MemOp) : Prop :=
  ∀ pp, op.maps s caller = some pp → (s.pages pp).ppRef ≠ 65535#16

/-! ## §2. What one step keeps. -/

section

variable {own : Set Nat} {s s' : Kernel}

theorem MemInv.setCurenv (h : MemInv own s) (caller : Option Nat) :
    MemInv own (s.setCurenv caller) :=
  ⟨h.page.congr rfl rfl rfl rfl rfl rfl,
    h.table.imp fun _ hl =>
      hl.congr rfl (fun _ => rfl) (fun _ _ => Iff.rfl) (fun _ _ => rfl)⟩

theorem curenv_setCurenv (s : Kernel) (caller : Option Nat) :
    (s.setCurenv caller).curenv = caller := by
  show (Function.update s.cpus s.cpunum _ s.cpunum).cpuEnv = caller
  rw [Function.update_self]

/-- A count that is right and not 65535 has room. -/
theorem MemInv.room (h : MemInv own s) (hb : Bounded s) {pp : Nat}
    (hne : (s.pages pp).ppRef ≠ 65535#16) : hits (refs s) pp < 65535 := by
  by_contra hc
  have hle := hb pp
  have heq : hits (refs s) pp = 65535 := by omega
  obtain ⟨a, ha⟩ := exists_of_hits_pos (show 0 < hits (refs s) pp by omega)
  obtain ⟨hlt, hown⟩ := h.page.books.ref a pp ha
  rw [h.page.books.count pp hlt hown, heq] at hne
  exact hne rfl

theorem Kept.weaken {cond cond' : Prop} (h : Kept own cond s s') (himp : cond' → cond) :
    Kept own cond' s s' :=
  ⟨h.inv, h.caller, fun hc => h.counts (himp hc)⟩

/-- **One operation** keeps the invariant, whatever it returns; it keeps the
counts in range when the page it maps has room; and it stops for no reason
that has to do with the page list. -/
theorem MemOp.run_kept (h : MemInv own s) (hb : Bounded s) {caller : Option Nat} {op : MemOp}
    (hallow : op.allowed s caller) :
    wp op.run (fun _ s' => Kept own (inRoom s caller op) (s.setCurenv caller) s')
      (fun x _ => allocPanic x = false) (s.setCurenv caller) := by
  have h' := h.setCurenv caller
  have hb' : Bounded (s.setCurenv caller) := fun p => hb p
  have hcur := curenv_setCurenv s caller
  cases op with
  | envAlloc parentId =>
    obtain ⟨r, s', hrun, hkept, -⟩ :=
      envAlloc_kept h' (inRoom s caller (.envAlloc parentId)) hb' parentId
    exact wp_bind_ok hrun hkept
  | exofork =>
    obtain ⟨c, rfl, -⟩ := hallow
    exact wp_seq (sysExofork_kept h' hb' hcur) (fun _ _ hk => hk)
  | pageAlloc envid va perm =>
    obtain ⟨c, rfl, hlive⟩ := hallow
    exact wp_seq (sysPageAlloc_spec _ h' hb' hcur hlive envid va perm) (fun _ _ hk => hk.1)
  | pageMap srcenvid srcva dstenvid dstva perm =>
    obtain ⟨c, rfl, hlive⟩ := hallow
    refine wp_seq (sysPageMap_spec h' hb' hcur hlive srcenvid srcva dstenvid dstva perm)
      (fun _ _ hk => hk.1.weaken fun hroom pp hpp => ?_)
    exact h.room hb (hroom pp hpp)
  | pageUnmap envid va =>
    obtain ⟨c, rfl, hlive⟩ := hallow
    exact wp_seq (sysPageUnmap_spec _ h' hb' hcur hlive envid va) (fun _ _ hk => hk.1)
  | ipcTrySend envid value srcva perm =>
    obtain ⟨c, rfl, hlive⟩ := hallow
    refine wp_seq (sysIpcTrySend_spec h' hb' hcur hlive envid value srcva perm)
      (fun _ _ hk => hk.1.weaken fun hroom _ pp hpp => ?_)
    exact h.room hb (hroom pp hpp)
  | ipcRecv dstva =>
    obtain ⟨c, rfl, hlive⟩ := hallow
    exact ipcBlock_kept h' hb' hcur hlive dstva
  | envFree e => exact envFree_kept h' hb' (show Live (s.setCurenv caller) e from hallow)

theorem MemStep.kept {pre : Kernel → Option Nat → MemOp → Prop} (h : MemInv own s)
    (hb : Bounded s) (hstep : MemStep pre s s') :
    MemInv own s' ∧ ((∀ caller op, pre s caller op → inRoom s caller op) →
      Bounded s' ∧ s'.refWrapped = s.refWrapped) := by
  obtain ⟨caller, op, hallow, hpre, hrun⟩ := hstep
  have hkept := wp_ok (MemOp.run_kept h hb hallow) hrun
  exact ⟨hkept.inv, fun hroom => hkept.counts (hroom caller op hpre)⟩

end

/-! ## §3. Runs. -/

/-- Runs in which no page ever has more than 65535 references. -/
abbrev BoundedRun : Kernel → Kernel → Prop :=
  Relation.ReflTransGen fun s s' => MemStep anyOp s s' ∧ Bounded s'

/-- Runs in which no page with 65535 references is mapped once more. -/
abbrev RoomRun : Kernel → Kernel → Prop := Relation.ReflTransGen (MemStep inRoom)

section

variable {b : BootInfo} {maps : List MapRegion} {s₀ s : Kernel}

section
variable (h : BootState b s₀)
include h

theorem BootState.memInv : MemInv (kernOwn b s₀) s₀ := ⟨h.page, h.table⟩

theorem BootState.no_refs (a : Slot (Fin NENV)) : refs s₀ a = none := by
  refine refs_of_no_dirs (fun e => ?_) a
  show (s₀.envs e).envPgdir = none
  rw [h.env e e.isLt]
  rfl

theorem BootState.bounded : Bounded s₀ := by
  intro p
  rw [hits_eq_zero (fun a => by rw [h.no_refs a]; simp)]
  omega

theorem BoundedRun.inv (hrun : BoundedRun s₀ s) : MemInv (kernOwn b s₀) s ∧ Bounded s := by
  induction hrun with
  | refl => exact ⟨h.memInv, h.bounded⟩
  | tail _ hstep ih => exact ⟨(hstep.1.kept ih.1 ih.2).1, hstep.2⟩

theorem RoomRun.inv (hrun : RoomRun s₀ s) :
    MemInv (kernOwn b s₀) s ∧ Bounded s ∧ s.refWrapped = false := by
  induction hrun with
  | refl => exact ⟨h.memInv, h.bounded, h.refWrapped⟩
  | tail _ hstep ih =>
    obtain ⟨hinv, hcounts⟩ := hstep.kept ih.1 ih.2.1
    obtain ⟨hb, hwr⟩ := hcounts (fun _ _ hpre => hpre)
    exact ⟨hinv, hb, hwr.trans ih.2.2⟩

end

/-! ## §4. Page accounting. -/

/-- The present page table entries below `UTOP` that point to `p`. -/
def pteRefs (s : Kernel) (p : Nat) : Nat :=
  hits (fun x : Fin NENV × Fin NPDUSER × Fin NPTENTRIES => refs s (pageSlot x.1 x.2.1 x.2.2)) p

/-- The present directory entries below `UTOP` that use `p` as a page table. -/
def pdeRefs (s : Kernel) (p : Nat) : Nat :=
  hits (fun x : Fin NENV × Fin NPDUSER => refs s (ptSlot x.1 x.2)) p

/-- The environments whose page directory is `p`. -/
def dirRefs (s : Kernel) (p : Nat) : Nat := hits (fun e : Fin NENV => refs s (dirSlot e)) p

theorem hits_refs (s : Kernel) (p : Nat) :
    hits (refs s) p = pteRefs s p + pdeRefs s p + dirRefs s p := by
  rw [hits_sum, hits_sum]
  show dirRefs s p + (pdeRefs s p + pteRefs s p) = _
  omega

/-- The counts are the numbers of references. -/
theorem MemInv.ref_toNat {own : Set Nat} (h : MemInv own s) (hb : Bounded s) {p : Nat}
    (hlt : p < s.npages) (hown : p ∉ own) : (s.pages p).ppRef.toNat = hits (refs s) p := by
  have hle := hb p
  rw [h.page.books.count p hlt hown, toNat_ofNat_lt (by omega)]

/-- The free list holds exactly the pages with count 0. -/
theorem MemInv.freeList {own : Set Nat} (h : MemInv own s) (hb : Bounded s) :
    ∃ l, FreeList s l ∧
      (∀ p, p ∈ l ↔ p < s.npages ∧ p ∉ own ∧ (s.pages p).ppRef = 0) ∧
      ∀ p ∈ l, ∀ e < NENV, ∀ va < UTOP, mappedAt s e va ≠ some p := by
  obtain ⟨l, hl, hmem⟩ := h.page.books.free
  refine ⟨l, hl, fun p => ?_, fun p hp e he va hva hm => ?_⟩
  · rw [hmem p]
    constructor
    · rintro ⟨hlt, hown, -, hz⟩
      exact ⟨hlt, hown, hl.ref p ((hmem p).mpr ⟨hlt, hown, Set.notMem_empty p, hz⟩)⟩
    · rintro ⟨hlt, hown, hz⟩
      have hcount := h.ref_toNat hb hlt hown
      rw [hz] at hcount
      exact ⟨hlt, hown, Set.notMem_empty p, hcount.symm⟩
  · -- a mapped page has a reference, a free page has none
    rw [mappedAt_eq ⟨e, he⟩ hva] at hm
    exact ne_of_hits_eq_zero ((hmem p).mp hp).2.2.2 _ hm

/-- **Page accounting.**  In every state of every run from the booted kernel in
which no page has more than 65535 references: every page that `page_init` did
not reserve and that is no page table of `kern_pgdir` is counted right, the
free list holds exactly those of them with count 0, no free page is mapped, and
the next operation does not reach the assert of `page_alloc` or a panic of
`page_free`. -/
theorem pageAccounting_run (hboot : Booted b maps s₀) (habove : ∀ r ∈ maps, r.Above)
    (hrun : BoundedRun s₀ s) :
    (∀ e < NENV, (s.envs e).envStatus = .free ↔ (s.envs e).envPgdir = none) ∧
    (∀ p < s.npages, p ∉ reserved b → p ∉ kernTables s₀ →
      (s.pages p).ppRef.toNat = pteRefs s p + pdeRefs s p + dirRefs s p) ∧
    (∃ l, Chain (fun p => (s.pages p).ppLink) s.pageFreeList l ∧ l.Nodup ∧
      (∀ p, p ∈ l ↔ p < s.npages ∧ p ∉ reserved b ∧ p ∉ kernTables s₀ ∧
        (s.pages p).ppRef = 0) ∧
      ∀ p ∈ l, ∀ e < NENV, ∀ va < UTOP, mappedAt s e va ≠ some p) ∧
    ∀ (caller : Option Nat) (op : MemOp), op.allowed s caller →
      ∀ x s', op.run (s.setCurenv caller) = .error x s' → allocPanic x = false := by
  obtain ⟨hinv, hb⟩ := BoundedRun.inv (hboot.spec habove).1 hrun
  have hown : ∀ p, p ∉ kernOwn b s₀ ↔ p ∉ reserved b ∧ p ∉ kernTables s₀ :=
    fun p => not_or
  refine ⟨?_, fun p hlt hres htab => ?_, ?_, fun caller op hallow x s' hrun' => ?_⟩
  · obtain ⟨l, hl⟩ := hinv.table
    exact hl.status
  · rw [hinv.ref_toNat hb hlt ((hown p).mpr ⟨hres, htab⟩), hits_refs]
  · obtain ⟨l, hl, hmem, hmapped⟩ := hinv.freeList hb
    refine ⟨l, hl.chain, hl.nodup, fun p => ?_, hmapped⟩
    rw [hmem p, hown p, and_assoc]
  · have hw := MemOp.run_kept hinv hb hallow
    exact wp_error (X := fun x _ => allocPanic x = false) hw hrun'

/-- A machine with 128MB of memory and a kernel of 3MB. -/
def qemuBoot : BootInfo where
  npages := 32768
  npagesBasemem := 160
  numAlloc := 1024
  kernPgdir := 700
  paPages := 0x2c0000#32
  paEnvs := 0x300000#32
  paKstacks := fun i => 0x320000#32 + BitVec.ofNat 32 i * KSTKSIZE
  npages_le := by decide
  base_le := by decide
  kern_ge := by decide
  kern_lt := by decide
  kern_lt_npages := by decide

theorem qemuBoot_booted : ∃ s, Booted qemuBoot qemuBoot.maps s :=
  exists_booted (by unfold BootInfo.Roomy; decide) qemuBoot.maps_above

/-- The hypotheses of `pageAccounting_run` are met: boot, then `env_alloc`. -/
theorem pageAccounting_run_qemuBoot : ∃ s₀ s, Booted qemuBoot qemuBoot.maps s₀ ∧
    BoundedRun s₀ s ∧ ∀ p < s.npages, p ∉ reserved qemuBoot → p ∉ kernTables s₀ →
      (s.pages p).ppRef.toNat = pteRefs s p + pdeRefs s p + dirRefs s p := by
  obtain ⟨s₀, hboot⟩ := qemuBoot_booted
  have hstate := (hboot.spec qemuBoot.maps_above).1
  have hinv := hstate.memInv.setCurenv none
  obtain ⟨r, s, hrun, hkept, -⟩ := envAlloc_kept hinv True (fun p => hstate.bounded p) 0#32
  have hop : (MemOp.envAlloc 0#32).run (s₀.setCurenv none) = .ok () s := bind_ok hrun
  have hstep : BoundedRun s₀ s := Relation.ReflTransGen.single
    ⟨⟨none, .envAlloc 0#32, trivial, trivial, hop⟩, (hkept.counts trivial).1⟩
  exact ⟨s₀, s, hboot, hstep, (pageAccounting_run hboot qemuBoot.maps_above hstep).2.1⟩

/-- Page tables of `kern_pgdir` are counted without a reference below `UTOP`:
`boot_map_region` takes them from the free list after `page_init`. -/
theorem kernTable_counted_unreferenced : ∃ s p, Booted qemuBoot qemuBoot.maps s ∧
    p < s.npages ∧ p ∉ reserved qemuBoot ∧ (s.pages p).ppRef ≠ 0 ∧
      pteRefs s p + pdeRefs s p + dirRefs s p = 0 := by
  obtain ⟨s, hboot⟩ := qemuBoot_booted
  obtain ⟨hstate, htables, -⟩ := hboot.spec qemuBoot.maps_above
  obtain ⟨t, ht⟩ := htables
    { va := KERNBASE, size := 0xFFFFFFFF#32 - KERNBASE, pa := 0#32, perm := PTE_W }
    (by simp [BootInfo.maps]) (by decide)
  obtain ⟨htlt, htres⟩ := hstate.tables t ht
  refine ⟨s, t, hboot, by rw [hstate.npages]; exact htlt, htres,
    hstate.page.own_ref t (Or.inr ht), ?_⟩
  rw [← hits_refs]
  exact hits_eq_zero (fun a => by rw [hstate.no_refs a]; simp)

end

end Jos
