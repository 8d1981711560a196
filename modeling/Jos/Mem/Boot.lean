/-
  Jos.Mem.Boot — **THE STATE AFTER `mem_init` AND `env_init`.**

  `mem_init` maps the kernel's regions; whatever list of regions above `UTOP`
  is mapped, the page invariant then holds with the reserved pages and the
  tables of `kern_pgdir` as the kernel's own pages.  `env_init` links all
  slots.  With 1024 pages above the kernel the boot code does not run out of
  memory (`exists_booted`).  `check_page_free_list(1)` sorts the free list and
  loses no page (`reorderFreeList_chain`).
-/
import Jos.Mem.BootMap

namespace Jos

open Exec
open Function (update update_of_ne update_self)

variable {s₀ u : Kernel} {maps : List MapRegion} {n : Nat}

section

variable {b : BootInfo} {s : Kernel}

/-! ## §1. `mem_init`. -/

/-- The state in which `page_init` starts. -/
def Kernel.bootDir (b : BootInfo) (s : Kernel) : Kernel :=
  { s with
    npages := b.npages
    kernPgdir := b.kernPgdir
    pages := fun _ => ⟨none, 0⟩
    mem := putWord (update s.mem b.kernPgdir (fun _ => 0#32)) b.kernPgdir (pdx UVPT)
      (page2pa b.kernPgdir ||| PTE_U ||| PTE_P) }

theorem target_bootDir (b : BootInfo) (s : Kernel) (i : Nat) :
    target (s.bootDir b).mem b.kernPgdir i
      = if i = pdx UVPT then some b.kernPgdir else none := by
  have hk := b.kern_lt_npages
  have hnp := b.npages_le
  show target (putWord _ _ _ _) b.kernPgdir i = _
  unfold target
  by_cases hi : i = pdx UVPT
  · rw [if_pos hi, hi, putWord_same, if_pos (present_or_P _), ptePage_or (by decide),
      ptePage_or (by decide), ptePage_page2pa (by omega)]
  · rw [if_neg hi, putWord_of_ne _ _ (Or.inr hi), update_self,
      if_neg (by rw [not_present_zero]; simp)]

/-- When `page_init` is done, `boot_map_region` can start. -/
theorem InitUpTo.bootInv
    (h : InitUpTo (pageReserved b.npagesBasemem b.numAlloc) (s.bootDir b) b.npages u) :
    BootInv b u := by
  have hn : u.npages = b.npages := by rw [h.frame]; rfl
  have hk : u.kernPgdir = b.kernPgdir := by rw [h.frame]; rfl
  have hm : u.mem = (s.bootDir b).mem := by rw [h.frame]
  have htarget : ∀ i, target u.mem u.kernPgdir i
      = if i = pdx UVPT then some b.kernPgdir else none := by
    intro i
    rw [hm, hk]
    exact target_bootDir b s i
  have htables : kernTables u = ∅ := by
    refine Set.eq_empty_iff_forall_notMem.mpr ?_
    rintro t ⟨i, -, -, hi, ht⟩
    rw [htarget, if_neg hi] at ht
    cases ht
  have hown : kernOwn b u = reserved b := by
    unfold kernOwn
    rw [htables, Set.union_empty]
  refine ⟨hn, hk, ?_, fun p hp => ?_, fun i hi => ?_, ?_, fun t ht => ?_⟩
  · obtain ⟨l, hl, hmem⟩ := h.free
    refine ⟨l, hl, fun p => ?_⟩
    rw [hmem p, hown]
    unfold reserved
    simp only [Set.mem_ofPred_eq, not_and, Bool.not_eq_true]
    exact ⟨fun hp => ⟨hp.1, fun _ => hp.2⟩, fun hp => ⟨hp.1, hp.2 hp.1⟩⟩
  · rw [hown] at hp
    rw [h.ref p, if_pos ⟨hp.1, hp.2⟩]
  · have : i ≠ pdx UVPT := by
      intro he
      have : NPDUSER ≤ pdx UVPT := by decide
      omega
    rw [htarget, if_neg this]
  · rw [htarget, if_pos rfl, hk]
  · rw [htables] at ht
    exact absurd ht (Set.notMem_empty t)

/-- Nothing is mapped yet. -/
theorem InitUpTo.kernMap
    (h : InitUpTo (pageReserved b.npagesBasemem b.numAlloc) (s.bootDir b) b.npages u) :
    KernMap (fun _ => 0#32) u := by
  have htarget : ∀ i, i ≠ pdx UVPT → target u.mem u.kernPgdir i = none := by
    intro i hi
    rw [h.frame]
    exact (target_bootDir b s i).trans (if_neg hi)
  refine ⟨fun i _ _ _ _ hi _ ht => ?_, fun v _ hv => ?_⟩
  · rw [htarget i hi] at ht
    cases ht
  · unfold kernPte
    rw [htarget _ hv]

/-- There are 1024 pages above what `page_init` reserves. -/
def BootInfo.Roomy (b : BootInfo) : Prop :=
  b.npagesBasemem + (EXTPHYSMEM_PAGE - IOPHYSMEM_PAGE) + b.numAlloc + NPTENTRIES ≤ b.npages

theorem InitUpTo.room (hb : b.Roomy)
    (h : InitUpTo (pageReserved b.npagesBasemem b.numAlloc) s₀ b.npages u) : Room u := by
  obtain ⟨l, hl, hmem⟩ := h.free
  refine ⟨l, hl, ?_⟩
  unfold BootInfo.Roomy EXTPHYSMEM_PAGE IOPHYSMEM_PAGE at hb
  -- the pages from `lo` on are free
  have hsub : List.range' (b.npagesBasemem + (256 - 160) + b.numAlloc) NPTENTRIES ⊆ l := by
    intro p hp
    rw [List.mem_range'_1] at hp
    refine (hmem p).mpr ⟨by omega, ?_⟩
    unfold pageReserved EXTPHYSMEM_PAGE IOPHYSMEM_PAGE MPENTRY_PAGE
    simp only [Bool.or_eq_false_iff, Bool.and_eq_false_iff, decide_eq_false_iff_not,
      beq_eq_false_iff_ne]
    omega
  have hlen := ((List.nodup_range').subperm hsub).length_le
  rw [List.length_range'] at hlen
  have hcard : absentPdes u ≤ NPTENTRIES := by
    have := Finset.card_le_univ
      (Finset.univ.filter fun i : Fin NPTENTRIES => target u.mem u.kernPgdir i = none)
    rwa [Fintype.card_fin] at this
  omega

/-- **`mem_init`** with any regions above `UTOP`. -/
theorem memInit_spec (b : BootInfo) (s : Kernel) (habove : ∀ r ∈ maps, r.Above) :
    wp (memInit b maps)
      (fun _ s' => ∃ u, BootInv b u ∧ Kernel.PmapFrame (s.bootDir b) u ∧
        u.refWrapped = s.refWrapped ∧ (b.Roomy → Room u) ∧
        (∀ r ∈ maps, 0 < (r.size / PGSIZE).toNat →
          ∃ t, target u.mem u.kernPgdir (pdx r.va) = some t) ∧
        KernMap (putRegions maps fun _ => 0#32) u ∧
        s' = u.setCpu { u.cpus u.cpunum with cr3 := b.kernPgdir, tlb := fun _ => none })
      (fun _ _ => ¬ b.Roomy) s := by
  obtain ⟨u, hrun, hu⟩ := pageInit_ok (s := s.bootDir b) (fun _ => rfl)
    b.npagesBasemem b.numAlloc
  have hfr : Kernel.PmapFrame (s.bootDir b) u := by
    rw [hu.frame]
    exact Kernel.pmapFrame_of_pages _ _ _ _ _
  have hwr : u.refWrapped = s.refWrapped := by
    rw [hu.frame]
    rfl
  refine wp_bind_ok rfl ?_
  refine wp_bind_ok rfl ?_
  refine wp_bind_ok rfl ?_
  refine wp_bind_ok (show pageInit b.npagesBasemem b.numAlloc (s.bootDir b) = _ from hrun) ?_
  refine wp_seq (wp_mono (hu.bootInv.mapRegions habove) (fun _ _ h => h)
    (fun _ _ hx hb => hx (hu.room hb))) ?_
  rintro _ v ⟨hinv, hgrow, hmapped, hmap⟩
  exact wp_of_ok rfl ⟨v, hinv, hfr.trans hgrow.frame, hgrow.wrap.trans hwr,
    fun hb => hgrow.room (hu.room hb), hmapped, hmap _ hu.kernMap, rfl⟩

/-! ## §2. `env_init`. -/

/-- `env_init` after `k` rounds: the last `k` slots are on the list. -/
def Kernel.initEnvs (s : Kernel) (k : Nat) : Kernel :=
  { s with
    envs := fun i =>
      if NENV - k ≤ i ∧ i < NENV then
        { s.envs i with
          envStatus := .free, envId := 0#32,
          envLink := if i + 1 < NENV then some (i + 1) else none }
      else s.envs i
    envFreeList := if k = 0 then none else some (NENV - k) }

theorem envInit_round (s : Kernel) {k : Nat} (hk : k < NENV) :
    { (s.initEnvs k).setEnv (NENV - 1 - k) { (s.initEnvs k).envs (NENV - 1 - k) with
        envStatus := .free, envId := 0#32, envLink := (s.initEnvs k).envFreeList } with
      envFreeList := some (NENV - 1 - k) } = s.initEnvs (k + 1) := by
  -- slot `NENV - 1 - k` is set, the others are as before
  have hslot : ¬(NENV - k ≤ NENV - 1 - k ∧ NENV - 1 - k < NENV) := by omega
  have hslot' : NENV - (k + 1) ≤ NENV - 1 - k ∧ NENV - 1 - k < NENV := by omega
  have hpred : NENV - 1 - k = NENV - (k + 1) := by omega
  unfold Kernel.initEnvs Kernel.setEnv
  simp only [Kernel.mk.injEq, true_and, and_true]
  constructor
  · funext i
    by_cases hi : i = NENV - 1 - k
    · rw [hi, update_self, if_pos hslot', if_neg hslot]
      by_cases hk0 : k = 0
      · rw [if_pos hk0, if_neg (by omega)]
      · rw [if_neg hk0, if_pos (by omega), show NENV - 1 - k + 1 = NENV - k by omega]
    · rw [update_of_ne hi]
      have hiff : (NENV - k ≤ i ∧ i < NENV) ↔ (NENV - (k + 1) ≤ i ∧ i < NENV) := by omega
      simp only [hiff]
  · split
    · omega
    · exact congrArg some hpred

theorem envInit_rounds (s : Kernel) (hn : n ≤ NENV) :
    forUp (fun k => (modify fun s : Kernel =>
        let i := NENV - 1 - k
        { s.setEnv i { s.envs i with
            envStatus := .free, envId := 0#32, envLink := s.envFreeList } with
          envFreeList := some i } : KM Unit)) 0 n { s with envFreeList := none }
      = .ok () (s.initEnvs n) := by
  have hstart : { s with envFreeList := none } = s.initEnvs 0 := by
    have henvs : (s.initEnvs 0).envs = s.envs := by
      funext i
      exact if_neg (by omega)
    show _ = { s with envs := (s.initEnvs 0).envs, envFreeList := none }
    rw [henvs]
  refine eq_ok_of_wp (wp_mono (wp_forUp (I := fun k u => u = s.initEnvs k) n 0 _ hstart
    (fun k u _ hk hu => ?_)) (fun _ u hu => ?_) (fun _ _ hx => hx))
  · rw [hu]
    exact envInit_round s (show k < NENV by omega)
  · rw [Nat.zero_add] at hu
    exact hu

/-- **`env_init`**: all slots are free, linked in ascending order. -/
theorem envInit_ok (s : Kernel) : envInit s = .ok () (s.initEnvs NENV) := by
  unfold envInit
  rw [bind_ok (show (modify fun s : Kernel => { s with envFreeList := none } : KM PUnit) s
    = .ok ⟨⟩ { s with envFreeList := none } from rfl)]
  exact envInit_rounds s (Nat.le_refl NENV)

theorem initEnvs_env (s : Kernel) {i : Nat} (hi : i < NENV) :
    (s.initEnvs NENV).envs i = { s.envs i with
      envStatus := .free, envId := 0#32,
      envLink := if i + 1 < NENV then some (i + 1) else none } :=
  if_pos ⟨by omega, hi⟩

theorem initEnvs_envFreeList (s : Kernel) : (s.initEnvs NENV).envFreeList = some 0 := rfl

/-- A list in which every cell links to the next slot. -/
theorem chain_range' {next : Nat → Option Nat}
    (hnext : ∀ i < n, next i = if i + 1 < n then some (i + 1) else none) (k : Nat) (hk : k ≤ n) :
    Chain next (if k = 0 then none else some (n - k)) (List.range' (n - k) k) := by
  induction k with
  | zero => exact rfl
  | succ k ih =>
    refine ⟨rfl, ?_⟩
    rw [hnext _ (by omega), show n - (k + 1) + 1 = n - k by omega]
    have hcond : (n - k < n) ↔ ¬ k = 0 := by omega
    simp only [hcond, ite_not]
    exact ih (by omega)

theorem exists_chain (next : Nat → Option Nat) (hn : n ≠ 0)
    (hnext : ∀ i < n, next i = if i + 1 < n then some (i + 1) else none) :
    ∃ l, Chain next (some 0) l ∧ l.Nodup ∧ ∀ i, i ∈ l ↔ i < n := by
  have h := chain_range' hnext n (Nat.le_refl n)
  rw [if_neg hn, Nat.sub_self] at h
  exact ⟨_, h, List.nodup_range', fun i => by rw [List.mem_range'_1]; omega⟩

/-! ## §3. The booted kernel. -/

/-- The kernel is entered: `.bss` is zero. -/
structure Kernel.AtEntry (s : Kernel) : Prop where
  envs : ∀ i, s.envs i = default
  cpuEnv : ∀ c, (s.cpus c).cpuEnv = none
  cpuStatus : ∀ c, (s.cpus c).cpuStatus = .unused
  cpunum : s.cpunum = 0
  accesses : s.accesses = []
  refWrapped : s.refWrapped = false
  fsKin : ∀ e, s.fsKin e = false

theorem Kernel.powerOn_atEntry : Kernel.powerOn.AtEntry :=
  ⟨fun _ => rfl, fun _ => rfl, fun _ => rfl, rfl, rfl, rfl, fun _ => rfl⟩

/-- `mem_init` and then `env_init`. -/
def boot (b : BootInfo) (maps : List MapRegion) : KM Unit := do
  memInit b maps
  envInit

/-- `s` is what the boot code leaves. -/
def Booted (b : BootInfo) (maps : List MapRegion) (s : Kernel) : Prop :=
  ∃ s₀ : Kernel, s₀.AtEntry ∧ boot b maps s₀ = .ok () s

/-- A slot after `env_init`. -/
def freshSlot (i : Nat) : Env :=
  { (default : Env) with envLink := if i + 1 < NENV then some (i + 1) else none }

/-- What is known of the booted kernel. -/
structure BootState (b : BootInfo) (s : Kernel) : Prop where
  npages : s.npages = b.npages
  page : PageInv (kernOwn b s) ∅ s
  tables : ∀ t ∈ kernTables s, t < b.npages ∧ t ∉ reserved b
  table : ∃ l, EnvTable s l
  envFreeList : s.envFreeList = some 0
  env : ∀ i, i < NENV → s.envs i = freshSlot i
  cpuEnv : ∀ c, (s.cpus c).cpuEnv = none
  cpuStatus : ∀ c, (s.cpus c).cpuStatus = .unused
  cpunum : s.cpunum = 0
  accesses : s.accesses = []
  refWrapped : s.refWrapped = false
  fsKin : ∀ e, s.fsKin e = false

/-- Without environments there are no references. -/
theorem refs_of_no_dirs (h : ∀ e, envDirs s e = none) (a : Slot (Fin NENV)) : refs s a = none := by
  rcases a with e | ⟨e, i⟩ | ⟨e, i, j⟩
  · exact h e
  · show (envDirs s e).bind _ = none
    rw [h]
    rfl
  · show (envDirs s e).bind _ = none
    rw [h]
    rfl

theorem BootInv.pageInv (h : BootInv b s) (hdirs : ∀ e, envDirs s e = none) :
    PageInv (kernOwn b s) ∅ s := by
  have hnp := b.npages_le
  have hnone : ∀ a, refs s a = none := refs_of_no_dirs hdirs
  have hsome : ∀ a p, refs s a ≠ some p := fun a p hap => by
    rw [hnone a] at hap
    cases hap
  have hhits : ∀ p, hits (refs s) p = 0 := fun p => hits_eq_zero (fun a => hsome a p)
  obtain ⟨l, hl, hmem⟩ := h.free
  refine ⟨by rw [h.npages]; omega, ?_, ?_, fun p hp => ?_, fun p hp => ?_⟩
  · refine ⟨⟨l, hl, fun p => ?_⟩, fun p hlt hown => ?_, fun a p hap => absurd hap (hsome a p),
      fun a _ p _ hap _ => absurd hap (hsome a p), fun p hp => absurd hp (Set.notMem_empty p)⟩
    · rw [hmem p, h.npages, hhits p]
      exact ⟨fun hp => ⟨hp.1, hp.2, Set.notMem_empty p, rfl⟩, fun hp => ⟨hp.1, hp.2.1⟩⟩
    · rw [hhits p]
      exact hl.ref p ((hmem p).mpr ⟨h.npages ▸ hlt, hown⟩)
  · refine ⟨?_, h.user, h.self, fun i h1 h2 h3 t ht => ?_, fun e d hd => ?_, fun e d hd => ?_⟩
    · rw [h.kern]
      exact Or.inl (kern_reserved b)
    · have htab : t ∈ kernTables s := ⟨i, h1, h2, h3, ht⟩
      exact ⟨Or.inr htab, h.table_ne_kern htab⟩
    · rw [hdirs e] at hd
      cases hd
    · rw [hdirs e] at hd
      cases hd
  · rw [h.npages]
    rcases hp with hp | hp
    · exact hp.1
    · exact (h.table p hp).1
  · rw [h.own_ref p hp]
    decide

/-- The table after `env_init`, when no slot had a directory. -/
theorem initEnvs_table (hdirs : ∀ i < NENV, (s.envs i).envPgdir = none) :
    ∃ l, EnvTable (s.initEnvs NENV) l := by
  obtain ⟨l, hchain, hnd, hmem⟩ := exists_chain (n := NENV)
    (fun i => ((s.initEnvs NENV).envs i).envLink) (by decide)
    (fun i hi => by rw [initEnvs_env s hi])
  refine ⟨l, ⟨hchain, hnd, fun i hi => (hmem i).mp hi, fun i hi => ?_⟩, fun i hi => ?_⟩
  · rw [initEnvs_env s hi, hmem i]
    exact ⟨fun _ => hdirs i hi, fun _ => hi⟩
  · rw [initEnvs_env s hi]
    exact ⟨fun _ => hdirs i hi, fun _ => rfl⟩

/-- What `mem_init` leaves in `u` is, after `env_init`, the booted state. -/
theorem BootInv.bootState (h : BootInv b u) (h₀ : s₀.AtEntry)
    (hfr : Kernel.PmapFrame (s₀.bootDir b) u) (hwr : u.refWrapped = s₀.refWrapped)
    (hs : s = (u.setCpu { u.cpus u.cpunum with
      cr3 := b.kernPgdir, tlb := fun _ => none }).initEnvs NENV) : BootState b s := by
  have henvs : ∀ i, (u.envs i) = default := by
    intro i
    rw [hfr.envs]
    exact h₀.envs i
  have hinv : BootInv b s := by
    rw [hs]
    exact ⟨h.npages, h.kern, h.free.imp fun l hl => ⟨hl.1.congr rfl rfl rfl, hl.2⟩,
      h.own_ref, h.user, h.self, h.table⟩
  have henv : ∀ i, i < NENV → s.envs i = freshSlot i := by
    intro i hi
    rw [hs, initEnvs_env _ hi]
    show { u.envs i with
      envStatus := .free, envId := 0#32,
      envLink := if i + 1 < NENV then some (i + 1) else none } = _
    rw [henvs i]
    rfl
  have htable : ∃ l, EnvTable s l := by
    rw [hs]
    exact initEnvs_table (fun i _ => by
      show (u.envs i).envPgdir = none
      rw [henvs i]
      rfl)
  refine ⟨hinv.npages, hinv.pageInv (fun e => ?_), hinv.table,
    htable, by rw [hs]; rfl, henv, fun c => ?_,
    fun c => ?_, ?_, ?_, ?_, fun e => ?_⟩
  · show (s.envs e).envPgdir = none
    rw [henv e e.isLt]
    rfl
  · have hnone : ∀ c, (u.cpus c).cpuEnv = none := fun c => (hfr.cpuEnv c).trans (h₀.cpuEnv c)
    rw [hs]
    show (update u.cpus u.cpunum _ c).cpuEnv = none
    by_cases hc : c = u.cpunum
    · rw [hc, update_self]
      exact hnone u.cpunum
    · rw [update_of_ne hc]
      exact hnone c
  · have hunused : ∀ c, (u.cpus c).cpuStatus = .unused :=
      fun c => (hfr.cpuStatus c).trans (h₀.cpuStatus c)
    rw [hs]
    show (update u.cpus u.cpunum _ c).cpuStatus = .unused
    by_cases hc : c = u.cpunum
    · rw [hc, update_self]
      exact hunused u.cpunum
    · rw [update_of_ne hc]
      exact hunused c
  · rw [hs]
    exact hfr.cpunum.trans h₀.cpunum
  · rw [hs]
    exact hfr.accesses.trans h₀.accesses
  · rw [hs]
    exact hwr.trans h₀.refWrapped
  · rw [hs]
    show u.fsKin e = false
    rw [hfr.fsKin]
    exact h₀.fsKin e

theorem boot_eq {s₀ s₁ : Kernel}
    (h : memInit b maps s₀ = .ok () s₁) : boot b maps s₀ = .ok () (s₁.initEnvs NENV) := by
  unfold boot
  rw [bind_ok h, envInit_ok]

theorem memInit_of_boot (h : boot b maps s₀ = .ok () s) :
    ∃ s₁, memInit b maps s₀ = .ok () s₁ ∧ s₁.initEnvs NENV = s := by
  cases hm : memInit b maps s₀ with
  | error e s₁ =>
    unfold boot at h
    rw [bind_error hm] at h
    cases h
  | ok _ s₁ =>
    rw [boot_eq hm] at h
    exact ⟨s₁, rfl, EStateM.Result.ok.inj h |>.2⟩

/-- Below `UTOP`, `kern_pgdir` is empty: with `Room` there is a free page for
every user page table. -/
theorem BootInv.user_room (h : BootInv b s) (hr : Room s) :
    ∃ l, FreeList s l ∧ NPDUSER ≤ l.length := by
  obtain ⟨l, hl, hle⟩ := hr
  refine ⟨l, hl, Nat.le_trans ?_ hle⟩
  have hsub : Finset.univ.image (Fin.castLE (by decide) : Fin NPDUSER → Fin NPTENTRIES)
      ⊆ Finset.univ.filter fun i : Fin NPTENTRIES => target s.mem s.kernPgdir i = none := by
    intro i hi
    obtain ⟨j, -, rfl⟩ := Finset.mem_image.mp hi
    simp only [Finset.mem_filter, Finset.mem_univ, true_and]
    exact h.user j j.isLt
  have hcard := Finset.card_le_card hsub
  rw [Finset.card_image_of_injective _ (Fin.castLE_injective _), Finset.card_univ,
    Fintype.card_fin] at hcard
  exact hcard

/-- **After boot** the invariants hold, every region has its page table, and
memory that sufficed leaves room for user page tables. -/
theorem Booted.spec (h : Booted b maps s) (habove : ∀ r ∈ maps, r.Above) :
    BootState b s ∧
      (∀ r ∈ maps, 0 < (r.size / PGSIZE).toNat → ∃ t, t ∈ kernTables s) ∧
      (b.Roomy → ∃ l, FreeList s l ∧ NPDUSER ≤ l.length) := by
  obtain ⟨s₀, h₀, hrun⟩ := h
  obtain ⟨s₁, hmem, hs⟩ := memInit_of_boot hrun
  obtain ⟨u, hinv, hfr, hwr, hroom, hmapped, -, hs₁⟩ := wp_ok (memInit_spec b s₀ habove) hmem
  rw [hs₁] at hs
  refine ⟨hinv.bootState h₀ hfr hwr hs.symm, fun r hr hpos => ?_, fun hb => ?_⟩
  · obtain ⟨t, ht⟩ := hmapped r hr hpos
    have hpage := (habove r hr).page hpos
    rw [show r.va + BitVec.ofNat 32 0 * PGSIZE = r.va by simp] at hpage
    refine ⟨t, pdx r.va, hpage.1, pdx_lt r.va, hpage.2, ?_⟩
    rw [← hs]
    exact ht
  · obtain ⟨l, hl, hle⟩ := hinv.user_room (hroom hb)
    rw [← hs]
    exact ⟨l, hl.congr rfl rfl rfl, hle⟩

/-- With enough memory the boot code finishes. -/
theorem exists_memInit (hb : b.Roomy)
    (habove : ∀ r ∈ maps, r.Above) (s₀ : Kernel) : ∃ s, memInit b maps s₀ = .ok () s := by
  have hmem := wp_mono (memInit_spec b s₀ habove) (fun _ _ h => h) (fun _ _ hx => hx hb)
  obtain ⟨_, s, hrun, -⟩ := exists_ok_of_wp hmem
  exact ⟨s, hrun⟩

theorem exists_booted (hb : b.Roomy) (habove : ∀ r ∈ maps, r.Above) : ∃ s, Booted b maps s := by
  obtain ⟨s₁, hrun⟩ := exists_memInit hb habove Kernel.powerOn
  exact ⟨_, Kernel.powerOn, Kernel.powerOn_atEntry, boot_eq hrun⟩

end

/-! ## §4. The regions `mem_init` maps. -/

theorem BootInfo.maps_above (b : BootInfo) : ∀ r ∈ b.maps, r.Above := by
  have hnp := b.npages_le
  intro r hr
  unfold BootInfo.maps at hr
  rw [List.mem_append, List.mem_map] at hr
  rcases hr with hr | ⟨i, hi, rfl⟩
  · simp only [List.mem_cons, List.not_mem_nil, or_false] at hr
    rcases hr with rfl | rfl | rfl
    · -- `pages`, at most 512 KB of it
      have hsize : (roundup (BitVec.ofNat 32 (b.npages * sizeofPageInfo))).toNat ≤ 2 ^ 19 := by
        rw [roundup_toNat, BitVec.toNat_ofNat]
        unfold sizeofPageInfo
        omega
      show AboveUtop UPAGES (roundup (BitVec.ofNat 32 (b.npages * sizeofPageInfo)))
      rw [AboveUtop, show UTOP.toNat = 955 * 2 ^ 22 by decide,
        show UPAGES.toNat = 956 * 2 ^ 22 by decide,
        show UVPT.toNat = 957 * 2 ^ 22 by decide]
      omega
    · show AboveUtop UENVS (roundup (BitVec.ofNat 32 (NENV * sizeofEnv)))
      decide
    · show AboveUtop KERNBASE (0xFFFFFFFF#32 - KERNBASE)
      decide
  · have hstacks : ∀ i < NCPU, AboveUtop
        (KSTACKTOP - BitVec.ofNat 32 i * (KSTKSIZE + KSTKGAP) - KSTKSIZE) KSTKSIZE := by decide
    exact hstacks i (List.mem_range.mp hi)

/-! ## §5. `check_page_free_list(1)` sorts the free list. -/

/-- The locals of the loop: `pp b` is `pp1` or `pp2`, and `tp b` points to one of these or to the
`pp_link` of a page. -/
structure Relink where
  s : Kernel
  pp : Bool → Option Nat
  tp : Bool → Bool ⊕ Nat

namespace Relink

/-- `*tp[b] = x`. -/
def store (r : Relink) (b : Bool) (x : Option Nat) : Relink :=
  match r.tp b with
  | .inl c => { r with pp := update r.pp c x }
  | .inr p => { r with s := r.s.setPage p { r.s.pages p with ppLink := x } }

/-- `PDX(page2pa(pp)) >= pdx_limit`, where `pdx_limit` is 1. -/
def pagetype (p : Nat) : Bool := decide (pdx (page2pa p) ≥ 1)

/-- The loop, at most `n` rounds.  `pp->pp_link` is read after the store. -/
def loop : Nat → Option Nat → Relink → Relink
  | n + 1, some p, r =>
    let r := r.store (pagetype p) (some p)
    loop n (r.s.pages p).ppLink { r with tp := update r.tp (pagetype p) (.inr p) }
  | _, _, r => r

/-- `*tp[1] = 0; *tp[0] = pp2`. -/
def join (r : Relink) : Relink :=
  let r := r.store true none
  r.store false (r.pp true)

end Relink

/-- The reordering; `pp1` and `pp2` are not initialised. -/
def reorderFreeList (n : Nat) (pp : Bool → Option Nat) (s : Kernel) : Kernel :=
  let r := (Relink.loop n s.pageFreeList ⟨s, pp, .inl⟩).join
  { r.s with pageFreeList := r.pp false }

namespace Relink

/-- What a pointer holds: a local or the link of a page. -/
def get (r : Relink) : Bool ⊕ Nat → Option Nat := Sum.elim r.pp fun p => (r.s.pages p).ppLink

theorem store_get (r : Relink) (b : Bool) (x : Option Nat) :
    (r.store b x).get = update r.get (r.tp b) x ∧ (r.store b x).tp = r.tp := by
  unfold store
  cases r.tp b with
  | inl c => exact ⟨Sum.update_elim_inl.symm, rfl⟩
  | inr p =>
    refine ⟨?_, rfl⟩
    unfold get
    rw [Sum.update_elim_inr]
    exact congrArg (Sum.elim r.pp) (FreeList.links_update r.s p _)

/-- The two tail pointers are apart, and behind the pages `rest` still to be visited. -/
structure Ready (r : Relink) (head : Option Nat) (rest : List Nat) : Prop where
  chain : Chain (fun p => r.get (.inr p)) head rest
  nodup : rest.Nodup
  ne : r.tp true ≠ r.tp false
  ne_inl : r.tp false ≠ .inl true
  behind : ∀ b, ∀ p ∈ rest, .inr p ≠ r.tp b

theorem Ready.step {r : Relink} {p : Nat} {t : List Nat} (h : r.Ready (some p) (p :: t))
    (b : Bool) :
    let r₁ := r.store b (some p)
    Ready { r₁ with tp := update r₁.tp b (.inr p) } (r₁.s.pages p).ppLink t := by
  obtain ⟨hg, ht⟩ := store_get r b (some p)
  -- the link written lies behind, so those ahead are as before
  have hahead : ∀ q ∈ p :: t, (r.store b (some p)).get (.inr q) = r.get (.inr q) := fun q hq => by
    rw [hg, update_of_ne (h.behind b q hq)]
  have hp := fun c => h.behind c p List.mem_cons_self
  refine ⟨Chain.congr ?_ fun q hq => hahead q (List.mem_cons_of_mem p hq), h.nodup.of_cons, ?_, ?_,
    fun c q hq => ?_⟩
  · show Chain _ ((r.store b (some p)).get (.inr p)) t
    rw [hahead p List.mem_cons_self]
    exact h.chain.2
  · cases b <;> grind [h.ne]
  · cases b <;> grind [h.ne_inl]
  · by_cases hc : c = b
    · subst hc
      have hqp : q ≠ p := fun he => (List.nodup_cons.mp h.nodup).1 (he ▸ hq)
      simpa using hqp
    · simpa [ht, update_of_ne hc] using h.behind c q (List.mem_cons_of_mem p hq)

/-- What the pointers `f` hold in the end, when `rest` was still to be visited and they held `g`:
from `tp[1]` the high pages, from `tp[0]` the low ones and then the list of `pp2`. -/
structure Joined (f g : Bool ⊕ Nat → Option Nat) (tp : Bool → Bool ⊕ Nat) (rest : List Nat) :
    Prop where
  high : Chain (fun p => f (.inr p)) (f (tp true)) (rest.filter pagetype)
  low : ∀ l, Chain (fun p => f (.inr p)) (f (.inl true)) l →
    Chain (fun p => f (.inr p)) (f (tp false)) (rest.filter (!pagetype ·) ++ l)
  kept : ∀ c, (∀ b, c ≠ tp b) → (∀ p ∈ rest, c ≠ .inr p) → f c = g c

theorem join_joined {r : Relink} {head : Option Nat} (h : r.Ready head []) :
    Joined r.join.get r.get r.tp [] := by
  obtain ⟨hg₁, ht₁⟩ := store_get r true none
  have hf : r.join.get
      = update (r.store true none).get (r.tp false) ((r.store true none).get (.inl true)) := by
    rw [← ht₁]
    exact (store_get (r.store true none) false _).1
  refine ⟨?_, fun l hc => ?_, fun c hc _ => ?_⟩
  · rw [hf, update_of_ne h.ne, hg₁, update_self]
    rfl
  · have hjoin : r.join.get (r.tp false) = r.join.get (.inl true) := by
      rw [hf, update_self, update_of_ne h.ne_inl.symm]
    rw [hjoin]
    exact hc
  · rw [hf, update_of_ne (hc false), hg₁, update_of_ne (hc true)]

/-- One round: the page written through `tp[b]` comes first. -/
theorem Joined.cons {r : Relink} {p : Nat} {t : List Nat} {f : Bool ⊕ Nat → Option Nat}
    (h : r.Ready (some p) (p :: t))
    (hj : Joined f (update r.get (r.tp (pagetype p)) (some p))
      (update r.tp (pagetype p) (.inr p)) t) : Joined f r.get r.tp (p :: t) := by
  have hp := fun c => h.behind c p List.mem_cons_self
  -- the pointer written in this round is no tail any more, so it keeps its value
  have hsome : f (r.tp (pagetype p)) = some p := by
    refine (hj.kept _ (fun c => ?_) fun q hq => ?_).trans (update_self ..)
    · cases c <;> cases hb : pagetype p <;> grind [h.ne]
    · exact (h.behind _ q (List.mem_cons_of_mem p hq)).symm
  obtain ⟨hhigh, hlow, hkept⟩ := hj
  refine ⟨?_, fun l hl => ?_, fun c hc hcr => ?_⟩
  -- the page is in front of the list of its type; the other list is as before
  · cases hb : pagetype p <;> simp_all [Chain]
  · cases hb : pagetype p <;> simp_all [Chain]
  · rw [hkept c (by grind) (by grind), update_of_ne (hc _)]

/-- The whole loop: induction on the pages still to be visited. -/
theorem loop_joined (rest : List Nat) : ∀ {n : Nat} {head : Option Nat} {r : Relink},
    rest.length ≤ n → r.Ready head rest → Joined (loop n head r).join.get r.get r.tp rest := by
  induction rest with
  | nil =>
    intro n head r _ h
    obtain rfl : head = none := h.chain
    cases n <;> exact join_joined h
  | cons p t ih =>
    intro n head r hn h
    obtain rfl : head = some p := h.chain.1
    obtain ⟨n, rfl⟩ : ∃ m, n = m + 1 := ⟨n - 1, by grind⟩
    obtain ⟨hg, ht⟩ := store_get r (pagetype p) (some p)
    refine Joined.cons h ?_
    rw [← hg, ← ht]
    exact ih (by grind) (h.step (pagetype p))

end Relink

/-- **`check_page_free_list(1)` loses no page**: those below `pdx_limit` come first, and both kinds
keep their order. -/
theorem reorderFreeList_chain {s : Kernel} {l : List Nat} {n : Nat} (pp : Bool → Option Nat)
    (hch : Chain (fun p => (s.pages p).ppLink) s.pageFreeList l) (hnd : l.Nodup)
    (hn : l.length ≤ n) :
    Chain (fun p => ((reorderFreeList n pp s).pages p).ppLink) (reorderFreeList n pp s).pageFreeList
      (l.filter (!Relink.pagetype ·) ++ l.filter Relink.pagetype) := by
  -- at the start the tails are `pp1` and `pp2` themselves
  have h := Relink.loop_joined l hn (r := ⟨s, pp, .inl⟩)
    ⟨hch, hnd, by simp, by simp, fun _ _ _ => by simp⟩
  exact h.low _ h.high

/-- A high page before a low one. -/
theorem reorderFreeList_two :
    let s := { Kernel.powerOn with
      pages := fun p => ⟨if p = 1024 then some 1 else none, 0⟩, pageFreeList := some 1024 }
    Chain (fun p => ((reorderFreeList 2 (fun _ => none) s).pages p).ppLink)
      (reorderFreeList 2 (fun _ => none) s).pageFreeList [1, 1024] :=
  reorderFreeList_chain (fun _ => none) (l := [1024, 1]) ⟨rfl, rfl, rfl⟩ (by decide) (le_refl 2)

end Jos
