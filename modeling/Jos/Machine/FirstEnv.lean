/-
  Jos.Machine.FirstEnv — **THE FIRST ENVIRONMENT.**

  Boot, `env_create` of a program and the first `sched_yield` succeed when memory
  suffices, and leave the environment running:

    • `exists_created` — `env_create` returns, and `Stack` describes the page
      table entries of the page below `USTACKTOP` that it mapped,
    • `schedYield_first` — the round-robin search finds slot 0,
    • `exists_running` — a state of the machine in which CPU 0 runs slot 0.

  Loads and stores of the kernel in that page do not fault (`Pokes`).
-/
import Jos.Machine.Runs
import Jos.Mem.RefWrap

namespace Jos

open Exec

/-! ## §1. The stack page. -/

/-- The page below `USTACKTOP`. -/
def stackPage : Word := USTACKTOP - PGSIZE

/-- Directory `d` maps the stack page, through page table `t`, to page `pp`. -/
structure Stack (d t pp : Nat) (m : Nat → Nat → Word) : Prop where
  table : target m d (pdx stackPage) = some t
  page : target m t (ptx stackPage) = some pp
  perm : m d (pdx stackPage) &&& m t (ptx stackPage) &&& (PTE_U ||| PTE_W) = PTE_U ||| PTE_W
  notDir : pp ≠ d
  notTable : pp ≠ t

/-- The page tables stay when the page is written. -/
theorem Stack.put {d t pp : Nat} {m : Nat → Nat → Word} (h : Stack d t pp m) (i : Nat) (w : Word) :
    Stack d t pp (putWord m pp i w) := by
  have hd : ∀ j, putWord m pp i w d j = m d j :=
    fun j => putWord_of_ne _ _ (Or.inl h.notDir.symm)
  have ht : ∀ j, putWord m pp i w t j = m t j :=
    fun j => putWord_of_ne _ _ (Or.inl h.notTable.symm)
  have htd : ∀ j, target (putWord m pp i w) d j = target m d j := fun j => by
    unfold target
    rw [hd]
  have htt : ∀ j, target (putWord m pp i w) t j = target m t j := fun j => by
    unfold target
    rw [ht]
  exact ⟨(htd _).trans h.table, (htt _).trans h.page, by rw [hd, ht]; exact h.perm, h.notDir,
    h.notTable⟩

/-- The address `va` is in the stack page. -/
def InStack (va : Word) : Prop := pdx va = pdx stackPage ∧ ptx va = ptx stackPage

instance (va : Word) : Decidable (InStack va) := inferInstanceAs (Decidable (_ ∧ _))

theorem Stack.translate {d t pp : Nat} {m : Nat → Nat → Word} (h : Stack d t pp m) {va : Word}
    (hva : InStack va) : ∃ pde pte, translate m d va = some (pde, pte) ∧ ptePage pte = pp ∧
      pde &&& pte &&& (PTE_U ||| PTE_W) = PTE_U ||| PTE_W := by
  obtain ⟨hp, ht⟩ := target_eq_some h.table
  obtain ⟨hp', hpp⟩ := target_eq_some h.page
  refine ⟨m d (pdx stackPage), m t (ptx stackPage), ?_, hpp, h.perm⟩
  unfold Jos.translate
  rw [hva.1, hva.2]
  simp only [ht, hp, hp', if_true]

/-! ## §2. `region_alloc` of the stack. -/

theorem pageAlloc_plain {s : Kernel} {p : Nat} (h : s.pageFreeList = some p)
    (hr : (s.pages p).ppRef = 0) : pageAlloc 0 s = .ok (some p) (s.takePage p) := by
  unfold pageAlloc
  rw [bind_get]
  simp only [h]
  rw [if_neg (not_not_intro hr)]
  rfl

theorem perm_both (a b m p : Word) : (a ||| (m ||| p)) &&& (b ||| m ||| p) &&& m = m := by
  ext i hi
  simp only [BitVec.getElem_and, BitVec.getElem_or]
  cases m[i] <;> simp

/-- The entries after a page has been inserted through a new page table. -/
theorem stack_inserted (s : Kernel) {d t pp : Nat} (htlt : t < 2 ^ 20) (hpp : pp < 2 ^ 20)
    (htd : t ≠ d) (hpd : pp ≠ d) (hpt : pp ≠ t) :
    Stack d t pp
      ((s.newTable d (pdx stackPage) t).inserted d pp stackPage (PTE_W ||| PTE_U) t).mem := by
  obtain ⟨hpde, hpte, -⟩ := inserted_mem (s.newTable d (pdx stackPage) t) pp stackPage
    (PTE_W ||| PTE_U) htd
  rw [Kernel.newTable_mem, putWord_same] at hpde
  refine ⟨?_, ?_, ?_, hpd, hpt⟩
  · unfold target
    rw [hpde, if_pos (present_or (tableEntry_present t)), ptePage_or (by decide),
      tableEntry_page htlt]
  · unfold target
    rw [hpte, if_pos (present_or_P _), ptePage_mk hpp (by decide)]
  · rw [hpde, hpte, show PTE_U ||| PTE_W = PTE_W ||| PTE_U by decide]
    exact perm_both _ _ _ _

/-- The stack of an environment that has no page table there yet. -/
theorem regionAllocPage_stack {own : Set Nat} {s : Kernel} (h : PageInv own ∅ s) {e : Fin NENV}
    {d : Nat} (hd : (s.envs e).envPgdir = some d)
    (hslot : refs s (ptSlot e ⟨pdx stackPage, by decide⟩) = none) (hfree : FreeAtLeast s 2) :
    ∃ s' t pp, regionAllocPage e stackPage s = .ok () s' ∧ Stack d t pp s'.mem := by
  obtain ⟨pp, hpp⟩ := (hfree.mono (show 1 ≤ 2 by decide)).head
  obtain ⟨hlt, -, -, hhits, href⟩ := h.books.head hpp
  obtain ⟨hinv₀, hrefs₀⟩ := h.takePage hpp
  obtain ⟨t, ht⟩ : ∃ t, (s.takePage pp).pageFreeList = some t := by
    obtain ⟨l, hl, hle⟩ := hfree
    obtain ⟨l', rfl⟩ := hl.head_some hpp
    have hpop : FreeList (s.takePage pp) l' := hl.pop (s.pages pp).ppRef
    exact FreeAtLeast.head (n := 0) ⟨l', hpop, by rw [List.length_cons] at hle; omega⟩
  obtain ⟨htlt, -, htspare, hthits, htref⟩ := hinv₀.books.head ht
  have hd' : envDirs s e = some d := hd
  have habs : target (s.takePage pp).mem d (pdx stackPage) = none :=
    (deref_ptSlot hd' ⟨pdx stackPage, by decide⟩).symm.trans hslot
  have hdir : refs s (dirSlot e) = some d := hd
  -- the directory, the new page table and the page are three pages
  have hpd : pp ≠ d := fun hc => ne_of_hits_eq_zero hhits (dirSlot e) (hc ▸ hdir)
  have htd : t ≠ d := fun hc => by
    exact ne_of_hits_eq_zero hthits (dirSlot e) (hc ▸ hdir)
  have hpt : pp ≠ t := fun hc => htspare (hc ▸ Set.mem_insert pp ∅)
  have hnp : s.npages ≤ 2 ^ 20 := h.npages_le
  have ht₁ : target ((s.takePage pp).newTable d (pdx stackPage) t).mem d (pdx stackPage)
      = some t := by
    unfold target
    rw [Kernel.newTable_mem, putWord_same, if_pos (tableEntry_present t),
      tableEntry_page (lt_of_lt_of_le htlt hnp)]
  have hempty : target ((s.takePage pp).newTable d (pdx stackPage) t).mem t (ptx stackPage)
      = none := by
    unfold target
    rw [Kernel.newTable_mem, putWord_of_ne _ _ (Or.inl htd), Function.update_self,
      not_present_zero]
    rfl
  have hins : pageInsert d pp stackPage (PTE_W ||| PTE_U) (s.takePage pp)
      = .ok 0#32 (((s.takePage pp).newTable d (pdx stackPage) t).inserted d pp stackPage
        (PTE_W ||| PTE_U) t) :=
    pageInsert_of_walk (pgdirWalk_create habs ht htref htlt hnp) ht₁ htlt
      (fun q hq => by rw [hempty] at hq; cases hq)
  refine ⟨_, t, pp, ?_, stack_inserted (s.takePage pp) (lt_of_lt_of_le htlt hnp)
    (lt_of_lt_of_le hlt hnp)
    htd hpd hpt⟩
  unfold regionAllocPage
  rw [bind_ok (pageAlloc_plain hpp href)]
  dsimp only
  rw [bind_ok (show derefPgdir e (s.takePage pp) = .ok d (s.takePage pp) from derefPgdir_ok hd),
    bind_ok hins, if_neg (by decide)]
  rfl

/-! ## §3. `env_create`. -/

theorem regionAlloc_stack (e : Nat) :
    regionAlloc e (USTACKTOP - PGSIZE) PGSIZE = regionAllocPage e stackPage := by
  unfold regionAlloc
  exact bind_pure _

/-- A program without segments. -/
def bareElf : Elf := ⟨ELF_MAGIC, 0x800020#32, []⟩

/-- Before its stack is allocated. -/
def Kernel.entered (s : Kernel) (e d : Nat) : Kernel :=
  (s.setCpu { s.cpus s.cpunum with cr3 := d, tlb := fun _ => none }).setEnv e
    { s.envs e with envTf := { (s.envs e).envTf with tfEip := bareElf.eEntry } }

theorem loadIcode_bare {s : Kernel} {e d : Nat} (hd : (s.envs e).envPgdir = some d) :
    loadIcode e bareElf s = regionAllocPage e stackPage (s.entered e d) := by
  unfold loadIcode
  rw [if_neg (show ¬ bareElf.eMagic ≠ ELF_MAGIC from not_not_intro rfl),
    bind_get, hd,
    bind_ok (show paddr (some d) s = .ok d s from rfl), regionAlloc_stack]
  rfl

/-- Until its stack is mapped, no directory changes. -/
theorem envDirs_entered (s : Kernel) (e : Fin NENV) (d : Nat) (type : EnvType) :
    envDirs ((s.typed e type).entered e d) = envDirs s := by
  funext x
  by_cases hx : x.val = e.val
  · simp [envDirs, Kernel.entered, Kernel.typed, Kernel.setEnv, Kernel.setCpu, hx]
  · simp [envDirs, Kernel.entered, Kernel.typed, Kernel.setEnv, Kernel.setCpu,
      Function.update_of_ne hx]

/-- `env_create`, from the state `u` that `env_alloc` leaves. -/
theorem envCreate_bare {own : Set Nat} {s u : Kernel} {e : Fin NENV} {d : Nat} (type : EnvType)
    (halloc : envAlloc 0#32 s = .ok (.ok e.val) u) (h : PageInv own ∅ u)
    (hd : (u.envs e).envPgdir = some d)
    (hslot : refs u (ptSlot e ⟨pdx stackPage, by decide⟩) = none) (hfree : FreeAtLeast u 2) :
    ∃ s' t pp, envCreate bareElf type s = .ok () s' ∧ (s'.envs e).envPgdir = some d ∧
      Stack d t pp s'.mem := by
  have hdirs := envDirs_entered u e d type
  have hinv : PageInv own ∅ ((u.typed e type).entered e d) :=
    h.congr rfl rfl rfl rfl rfl hdirs
  have hdir : (((u.typed e type).entered e d).envs e).envPgdir = some d :=
    (congrFun hdirs e).trans hd
  have hslot' : refs ((u.typed e type).entered e d) (ptSlot e ⟨pdx stackPage, by decide⟩)
      = none := by
    unfold refs
    rw [hdirs]
    exact hslot
  have hfree' : FreeAtLeast ((u.typed e type).entered e d) 2 := by
    obtain ⟨l, hl, hle⟩ := hfree
    exact ⟨l, hl.congr rfl rfl rfl, hle⟩
  obtain ⟨s', t, pp, hs', hstack⟩ := regionAllocPage_stack hinv hdir hslot' hfree'
  have hkeep := wp_ok (regionAllocPage_keeps e stackPage _) hs'
  refine ⟨s', t, pp, ?_, ?_, hstack⟩
  · rw [envCreate_ok halloc, loadIcode_bare (d := d) ?_, hs']
    simp [Kernel.typed, hd]
  · rw [EnvFrame.envs hkeep]
    exact hdir

/-- **The first environment**: boot, then `env_create`. -/
theorem exists_created (type : EnvType) : ∃ s₀ s d t pp, Booted qemuBoot qemuBoot.maps s₀ ∧
    envCreate bareElf type s₀ = .ok () s ∧ (s.envs 0).envPgdir = some d ∧ Stack d t pp s.mem := by
  obtain ⟨s₀, hboot⟩ := qemuBoot_booted
  obtain ⟨hstate, -, hroom⟩ := hboot.spec qemuBoot.maps_above
  have hfree : FreeAtLeast s₀ NPDUSER := hroom (by unfold BootInfo.Roomy; decide)
  obtain ⟨e, d, he, hrun, hmem, hrefs, hmore⟩ :=
    hstate.memInv.envAlloc_first hstate.no_refs hstate.envFreeList hfree
  have hdir : ((s₀.allocEnv 0#32 e d).envs e).envPgdir = some d := by
    simp [Kernel.allocEnv]
  -- the new directory has nothing below `UTOP`
  have hslot : refs (s₀.allocEnv 0#32 e d) (ptSlot e ⟨pdx stackPage, by decide⟩) = none := by
    rw [hrefs, Function.update_of_ne (by simp)]
    exact hstate.no_refs _
  obtain ⟨s, t, pp, hs, hsdir, hstack⟩ := envCreate_bare type hrun hmem.page hdir hslot
    (hmore.mono (show 2 ≤ NPDUSER - 1 by decide))
  rw [he] at hsdir
  exact ⟨s₀, s, d, t, pp, hboot, hs, hsdir, hstack⟩

/-! ## §4. The first `sched_yield`. -/

/-- The search passes over environments that are not runnable. -/
theorem schedScan_skip {s : Kernel} (m n : Nat) {i : Nat} (hi : i < NENV)
    (h : ∀ k < n, (s.envs ((i + k + 1) % NENV)).envStatus ≠ .runnable) :
    schedScan i (n + m) s = schedScan ((i + n) % NENV) m s := by
  induction n generalizing i with
  | zero => rw [Nat.zero_add, Nat.add_zero, Nat.mod_eq_of_lt hi]
  | succ n ih =>
    have hlt : (i + 1) % NENV < NENV := Nat.mod_lt _ (by decide)
    have hnot : (s.envs ((i + 1) % NENV)).envStatus ≠ .runnable := h 0 (Nat.succ_pos n)
    have hrest : ∀ k < n, (s.envs (((i + 1) % NENV + k + 1) % NENV)).envStatus ≠ .runnable := by
      intro k hk
      rw [Nat.add_assoc, Nat.mod_add_mod, show i + 1 + (k + 1) = i + (k + 1) + 1 by omega]
      exact h (k + 1) (by omega)
    rw [show n + 1 + m = (n + m) + 1 by omega]
    have hstep : schedScan i (n + m + 1) s = schedScan ((i + 1) % NENV) (n + m) s := by
      conv_lhs => unfold schedScan
      rw [bind_get, if_neg hnot]
    rw [hstep, ih hlt hrest, Nat.mod_add_mod, show i + 1 + n = i + (n + 1) by omega]

/-- **Slot 0 runs** if it is the only runnable one. -/
theorem schedYield_first {s : Kernel} {d : Nat} (hcur : s.curenv = none)
    (hst : (s.envs 0).envStatus = .runnable) (hd : (s.envs 0).envPgdir = some d)
    (hrest : ∀ i < NENV, i ≠ 0 → (s.envs i).envStatus ≠ .runnable) :
    schedYield s = .error .user (s.runs 0 d) := by
  have hscan : schedScan 0 NENV s = .error .user (s.runs 0 d) := by
    rw [show NENV = (NENV - 1) + 1 by decide, schedScan_skip 1 (NENV - 1) (by decide) ?_]
    · unfold schedScan
      rw [bind_get,
        show ((0 + (NENV - 1)) % NENV + 1) % NENV = 0 by decide, if_pos hst]
      exact bind_error (envRun_user hd)
    · intro k hk
      have hk' : k + 1 < NENV := by omega
      rw [Nat.zero_add, Nat.mod_eq_of_lt hk']
      exact hrest (k + 1) hk' (Nat.succ_ne_zero k)
  unfold schedYield
  rw [bind_get]
  rw [hcur]
  exact bind_error hscan

/-- CPU 0 runs slot 0, an environment that has just been created. -/
structure FirstRuns (type : EnvType) (d t pp : Nat) (s : Kernel) : Prop where
  cpu : (s.cpus 0).cpuEnv = some 0
  cr3 : (s.cpus 0).cr3 = d
  regs : (s.cpus 0).regs = (s.envs 0).envTf
  cs : (s.envs 0).envTf.tfCs = GD_UT ||| 3
  eflags : (s.envs 0).envTf.tfEflags = if type = .fs then FL_IF ||| FL_IOPL_3 else FL_IF
  status : (s.envs 0).envStatus = .running
  dir : (s.envs 0).envPgdir = some d
  stack : Stack d t pp s.mem

/-- **The first environment runs.** -/
theorem exists_running {pre : Kernel → Option TrapInput → Prop} (hpre : ∀ s, pre s none)
    (type : EnvType) : ∃ s d t pp, Reachable pre s ∧ FirstRuns type d t pp s := by
  obtain ⟨s₀, s, d, t, pp, hboot, hrun, hdir, hstack⟩ := exists_created type
  obtain ⟨hstate, -⟩ := hboot.spec qemuBoot.maps_above
  obtain ⟨e, v, hcr⟩ := envCreate_created hrun
  obtain rfl : e = 0 := Option.some.inj (hcr.head.symm.trans hstate.envFreeList)
  have hinit : Init s := ⟨qemuBoot, [(bareElf, type)], s₀, hboot, bind_ok hrun⟩
  have hv : s.envs 0 = v := by rw [hcr.envs, Function.update_self]
  have hcpu : (s.cpus 0).cpuEnv = none := (hcr.cpuEnv 0).trans (hstate.cpuEnv 0)
  have hyield : schedYield (s.onCpu 0).started = .error .user ((s.onCpu 0).started.runs 0 d) := by
    refine schedYield_first ((started_curenv _).trans hcpu) ?_ hdir (fun i hi h0 => ?_)
    · show (s.envs 0).envStatus = .runnable
      rw [hv]
      exact hcr.status
    · show (s.envs i).envStatus ≠ .runnable
      rw [hcr.envs, Function.update_of_ne h0, hstate.env i hi]
      show EnvStatus.free ≠ .runnable
      decide
  have hstep : Step pre s ((s.onCpu 0).started.runs 0 d) :=
    .start (by decide) ((hcr.cpuStatus 0).trans (hstate.cpuStatus 0)) hcpu (hpre _) hyield
      (Or.inl rfl)
  obtain ⟨n, k, henv⟩ := runs_env (s.onCpu 0).started 0 d 0
  have hcpu' := runs_cpu (s.onCpu 0).started 0 d
  refine ⟨_, d, t, pp, ⟨s, hinit, .single hstep⟩, congrArg CpuInfo.cpuEnv hcpu',
    congrArg CpuInfo.cr3 hcpu', ?_, ?_, ?_, ?_, ?_, hstack⟩
  · exact congrArg CpuInfo.regs hcpu'
  · exact (congrArg (fun v => v.envTf.tfCs) hv).trans hcr.cs
  · exact (congrArg (fun v => v.envTf.tfEflags) hv).trans hcr.eflags
  · rfl
  · exact hdir

/-! ## §5. The kernel reads and writes the stack page. -/

/-- The CPU uses the directory of the stack page, whose byte 52 is zero. -/
structure OnStack (d t pp : Nat) (s : Kernel) : Prop where
  cr3 : (s.cpus s.cpunum).cr3 = d
  stack : Stack d t pp s.mem
  zero : getByte (s.mem pp 13) 0 = 0#8

/-- From `s` to `u` the stack page has been read, and written outside of word 13. -/
structure Pokes (d t pp : Nat) (s u : Kernel) : Prop where
  frame : u = { s with accesses := u.accesses, mem := u.mem }
  on : OnStack d t pp u

/-- A word read with a zero low byte. -/
theorem lowByte_zero (b₁ b₂ b₃ : BitVec 8) :
    (putByte (putByte (putByte (putByte 0#32 0 0#8) 1 b₁) 2 b₂) 3 b₃).setWidth 16 &&& 3#16
      = 0#16 := by
  ext i hi
  have hi' : i = 0 ∨ i = 1 ∨ 2 ≤ i := by omega
  rcases hi' with rfl | rfl | h2
  · simp [putByte]
  · simp [putByte]
  · have h3 : (3#16)[i] = false := by
      interval_cases i <;> simp
    simp [h3]

/-- The addresses of the bytes of a word. -/
def byteAddrs (va : Word) : List Word := [va, va + 1#32, va + 2#32, va + 3#32]

theorem InStack.lt_ulim {va : Word} (h : InStack va) : ¬ va ≥ ULIM := by
  have hlt : va < UTOP := (pdx_lt_user_iff va).mp (by rw [h.1]; decide)
  exact BitVec.not_le.mpr (BitVec.lt_trans hlt (by decide))

namespace Pokes

variable {d t pp : Nat} {s u : Kernel} {va : Word}

theorem start (h : OnStack d t pp s) : Pokes d t pp s s := ⟨rfl, h⟩

section
variable (h : Pokes d t pp s u)
include h

theorem loadByte (hva : InStack va) :
    ∃ u', Jos.loadByte va u = .ok (getByte (u.mem pp (pgoff va / 4)) (pgoff va % 4)) u' ∧
      Pokes d t pp s u' := by
  obtain ⟨pde, pte, htr, hpp, -⟩ := h.on.stack.translate hva
  refine ⟨{ u with accesses := ⟨false, va⟩ :: u.accesses }, ?_, ?_, h.on.cr3, h.on.stack,
    h.on.zero⟩
  · unfold Jos.loadByte
    rw [bind_ok (show (modify _ : KM PUnit) u
      = .ok ⟨⟩ { u with accesses := ⟨false, va⟩ :: u.accesses } from rfl)]
    rw [bind_get]
    rw [h.on.cr3, htr, ← hpp]
    rfl
  · rw [h.frame]

theorem storeByte (hva : InStack va) (h13 : pgoff va / 4 ≠ 13)
    (b : BitVec 8) : ∃ u', Jos.storeByte va b u = .ok () u' ∧ Pokes d t pp s u' := by
  obtain ⟨pde, pte, htr, hpp, hperm⟩ := h.on.stack.translate hva
  have hw : pde &&& pte &&& PTE_W ≠ 0#32 := by
    intro hc
    have hall : pde &&& pte &&& (PTE_U ||| PTE_W) &&& PTE_W = PTE_W := by
      rw [hperm]
      decide
    rw [BitVec.and_assoc, show (PTE_U ||| PTE_W) &&& PTE_W = PTE_W by decide, hc] at hall
    exact absurd hall (by decide)
  refine ⟨({ u with accesses := ⟨true, va⟩ :: u.accesses } : Kernel).setWord pp (pgoff va / 4)
    (putByte (u.mem pp (pgoff va / 4)) (pgoff va % 4) b), ?_, ?_, h.on.cr3,
    h.on.stack.put _ _, ?_⟩
  · unfold Jos.storeByte
    rw [bind_ok (show (modify _ : KM PUnit) u
      = .ok ⟨⟩ { u with accesses := ⟨true, va⟩ :: u.accesses } from rfl)]
    rw [bind_get]
    rw [h.on.cr3, htr]
    dsimp only
    rw [if_neg hw, if_neg hva.lt_ulim, ← hpp]
    rfl
  · rw [h.frame]
    rfl
  · show getByte (putWord u.mem pp _ _ pp 13) 0 = 0#8
    rw [putWord_of_ne _ _ (Or.inr h13.symm)]
    exact h.on.zero

theorem loadWord (va : Word) (hva : (byteAddrs va).Forall InStack) :
    ∃ w u', Jos.loadWord va u = .ok w u' ∧ Pokes d t pp s u' ∧
      (pgoff va = 52 → w.setWidth 16 &&& 3#16 = 0#16) := by
  obtain ⟨h0, h1, h2, h3⟩ := hva
  obtain ⟨u₁, hb0, hu₁⟩ := h.loadByte h0
  obtain ⟨u₂, hb1, hu₂⟩ := hu₁.loadByte h1
  obtain ⟨u₃, hb2, hu₃⟩ := hu₂.loadByte h2
  obtain ⟨u₄, hb3, hu₄⟩ := hu₃.loadByte h3
  have hrun := bind_ok (f := fun b0 => do
    let b1 ← Jos.loadByte (va + 1#32)
    let b2 ← Jos.loadByte (va + 2#32)
    let b3 ← Jos.loadByte (va + 3#32)
    pure (putByte (putByte (putByte (putByte 0#32 0 b0) 1 b1) 2 b2) 3 b3)) hb0
  rw [bind_ok hb1, bind_ok hb2, bind_ok hb3] at hrun
  refine ⟨_, u₄, hrun, hu₄, fun h52 => ?_⟩
  rw [h52, h.on.zero]
  exact lowByte_zero _ _ _

theorem storeWord (va : Word) (hva : (byteAddrs va).Forall InStack)
    (h13 : (byteAddrs va).Forall (pgoff · / 4 ≠ 13)) (w : Word) :
    ∃ u', Jos.storeWord va w u = .ok () u' ∧ Pokes d t pp s u' := by
  obtain ⟨h0, h1, h2, h3⟩ := hva
  obtain ⟨n0, n1, n2, n3⟩ := h13
  obtain ⟨u₁, hb0, hu₁⟩ := h.storeByte h0 n0 (getByte w 0)
  obtain ⟨u₂, hb1, hu₂⟩ := hu₁.storeByte h1 n1 (getByte w 1)
  obtain ⟨u₃, hb2, hu₃⟩ := hu₂.storeByte h2 n2 (getByte w 2)
  obtain ⟨u₄, hb3, hu₄⟩ := hu₃.storeByte h3 n3 (getByte w 3)
  refine ⟨u₄, ?_, hu₄⟩
  unfold Jos.storeWord
  rw [bind_ok hb0, bind_ok hb1, bind_ok hb2]
  exact hb3

theorem loadRegs : ∃ r u', Jos.loadRegs stackPage u = .ok r u' ∧ Pokes d t pp s u' := by
  obtain ⟨edi, u₁, h₁, hu₁, -⟩ := h.loadWord stackPage (by decide +kernel)
  obtain ⟨esi, u₂, h₂, hu₂, -⟩ := hu₁.loadWord (stackPage + 4#32) (by decide +kernel)
  obtain ⟨ebp, u₃, h₃, hu₃, -⟩ := hu₂.loadWord (stackPage + 8#32) (by decide +kernel)
  obtain ⟨oesp, u₄, h₄, hu₄, -⟩ := hu₃.loadWord (stackPage + 12#32) (by decide +kernel)
  obtain ⟨ebx, u₅, h₅, hu₅, -⟩ := hu₄.loadWord (stackPage + 16#32) (by decide +kernel)
  obtain ⟨edx, u₆, h₆, hu₆, -⟩ := hu₅.loadWord (stackPage + 20#32) (by decide +kernel)
  obtain ⟨ecx, u₇, h₇, hu₇, -⟩ := hu₆.loadWord (stackPage + 24#32) (by decide +kernel)
  obtain ⟨eax, u₈, h₈, hu₈, -⟩ := hu₇.loadWord (stackPage + 28#32) (by decide +kernel)
  refine ⟨⟨edi, esi, ebp, oesp, ebx, edx, ecx, eax⟩, u₈, ?_, hu₈⟩
  unfold Jos.loadRegs
  rw [bind_ok h₁, bind_ok h₂, bind_ok h₃, bind_ok h₄, bind_ok h₅, bind_ok h₆, bind_ok h₇,
    bind_ok h₈]
  rfl

/-- A frame read from the stack page has privilege level 0. -/
theorem loadTrapframe : ∃ tf u', Jos.loadTrapframe stackPage u = .ok tf u' ∧
    Pokes d t pp s u' ∧ tf.tfCs &&& 3#16 = 0#16 := by
  obtain ⟨regs, u₀, h₀, hu₀⟩ := h.loadRegs
  obtain ⟨es, u₁, h₁, hu₁, -⟩ := hu₀.loadWord (stackPage + 32#32) (by decide +kernel)
  obtain ⟨ds, u₂, h₂, hu₂, -⟩ := hu₁.loadWord (stackPage + 36#32) (by decide +kernel)
  obtain ⟨trapno, u₃, h₃, hu₃, -⟩ := hu₂.loadWord (stackPage + 40#32) (by decide +kernel)
  obtain ⟨err, u₄, h₄, hu₄, -⟩ := hu₃.loadWord (stackPage + 44#32) (by decide +kernel)
  obtain ⟨eip, u₅, h₅, hu₅, -⟩ := hu₄.loadWord (stackPage + 48#32) (by decide +kernel)
  obtain ⟨cs, u₆, h₆, hu₆, hcs⟩ := hu₅.loadWord (stackPage + 52#32) (by decide +kernel)
  obtain ⟨eflags, u₇, h₇, hu₇, -⟩ := hu₆.loadWord (stackPage + 56#32) (by decide +kernel)
  obtain ⟨esp, u₈, h₈, hu₈, -⟩ := hu₇.loadWord (stackPage + 60#32) (by decide +kernel)
  obtain ⟨ss, u₉, h₉, hu₉, -⟩ := hu₈.loadWord (stackPage + 64#32) (by decide +kernel)
  have hrun : Jos.loadTrapframe stackPage u = .ok ⟨regs, es.setWidth 16, ds.setWidth 16, trapno,
      err, eip, cs.setWidth 16, eflags, esp, ss.setWidth 16⟩ u₉ := by
    unfold Jos.loadTrapframe
    rw [bind_ok h₀, bind_ok h₁, bind_ok h₂, bind_ok h₃, bind_ok h₄, bind_ok h₅, bind_ok h₆,
      bind_ok h₇, bind_ok h₈, bind_ok h₉]
    rfl
  exact ⟨_, u₉, hrun, hu₉, hcs (by decide)⟩

end

/-- **`sys_env_set_trapframe`** of the frame in the stack page. -/
theorem setTrapframe {c : Nat} (h : OnStack d t pp s) (hcur : s.curenv = some c) :
    ∃ tf u, sysEnvSetTrapframe 0#32 stackPage s
        = .ok 0#32 (u.setEnv c { u.envs c with envTf := tf }) ∧
      Pokes d t pp s u ∧ tf.tfCs &&& 3#16 = 0#16 := by
  obtain ⟨w, u₁, h₁, hu₁, -⟩ := (start h).loadWord (stackPage + 56#32) (by decide +kernel)
  obtain ⟨u₂, h₂, hu₂⟩ := hu₁.storeWord (stackPage + 56#32) (by decide +kernel) (by decide +kernel)
    (w ||| FL_IF)
  obtain ⟨tf, u₃, h₃, hu₃, hcs⟩ := hu₂.loadTrapframe
  refine ⟨tf, u₃, ?_, hu₃, hcs⟩
  have hfind : findEnv s c 0#32 true = .ok c := if_pos rfl
  unfold sysEnvSetTrapframe
  rw [bind_ok (envid2env_eq hcur 0#32 true), hfind]
  dsimp only
  rw [bind_ok h₁, bind_ok h₂, bind_ok h₃]
  rfl

end Pokes

end Jos
