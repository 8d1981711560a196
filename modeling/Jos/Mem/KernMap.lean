/-
  Jos.Mem.KernMap — **THE KERNEL'S ADDRESS SPACE AFTER BOOT.**

  §1  The free list `page_init` makes.  The pages in use are counted from
      physical address 0, but `page_init` reserves as many above the IO hole.
  §2  The map `mem_init` leaves in `kern_pgdir`, page by page.  The region at
      `KERNBASE` is one byte short of 256MB, so its last page is missing.
  §3  `mmio_map_region`, over any sequence of calls.
-/
import Jos.Mem.Runs

namespace Jos

open Exec

variable {s : Kernel} {r : MapRegion} {i v : Nat} {base : Word}

variable {cs : List (Word × Word)} {maps : List MapRegion} {a flags pa size : Word}

/-! ## §1. The initial free list. -/

/-- `num_alloc` of `page_init`, from what `boot_alloc(0)` returned. -/
def numAlloc (nextfree : Word) : Nat := ((nextfree - KERNBASE) / PGSIZE).toNat

theorem pageReserved_eq_false {npagesBasemem n i : Nat} :
    pageReserved npagesBasemem n i = false ↔
      i ≠ 0 ∧ i ≠ MPENTRY_PAGE ∧ (i < npagesBasemem ∨ npagesBasemem + 96 + n ≤ i) := by
  unfold pageReserved EXTPHYSMEM_PAGE IOPHYSMEM_PAGE
  simp only [Bool.or_eq_false_iff, Bool.and_eq_false_iff, decide_eq_false_iff_not,
    beq_eq_false_iff_ne]
  omega

/-- **The initial free list**, for `boot_alloc(0)` returning `ROUNDUP(e)`.  A page is
on the list if and only if it is free, exactly if it does not lie between the end of
what `boot_alloc` used and the end of what `page_init` reserves. -/
theorem pageInit_exact (s : Kernel) (npagesBasemem : Nat) (e : Word)
    (hbase : npagesBasemem ≤ IOPHYSMEM_PAGE)
    (hend : KERNBASE.toNat + EXTPHYSMEM_PAGE * 4096 ≤ (roundup e).toNat) :
    ∃ s' l, pageInit npagesBasemem (numAlloc (roundup e)) { s with pages := fun _ => ⟨none, 0⟩ }
        = .ok () s' ∧ FreeList s' l ∧ l.Nodup ∧
      (∀ i ∈ l, i < s.npages) ∧
      (∀ i < s.npages, i ∉ l → (s'.pages i).ppRef = 1) ∧
      ∀ i < s.npages, ((i ∈ l ↔ i ≠ 0 ∧ i ≠ MPENTRY_PAGE ∧
          ((4096 ≤ i * 4096 ∧ i * 4096 < npagesBasemem * 4096) ∨
            (EXTPHYSMEM_PAGE ≤ i ∧ (roundup e).toNat ≤ KERNBASE.toNat + i * 4096))) ↔
        ¬ (numAlloc (roundup e) ≤ i ∧
          i < npagesBasemem + (EXTPHYSMEM_PAGE - IOPHYSMEM_PAGE) + numAlloc (roundup e))) := by
  obtain ⟨s', hrun, hs'⟩ := pageInit_ok (s := { s with pages := fun _ => ⟨none, 0⟩ })
    (fun _ => rfl) npagesBasemem (numAlloc (roundup e))
  obtain ⟨l, hl, hmem⟩ := hs'.free
  have hlt : (roundup e).toNat < 2 ^ 32 := (roundup e).isLt
  have hal : (roundup e).toNat % 4096 = 0 := by
    rw [roundup_toNat]
    omega
  have hn : numAlloc (roundup e) * 4096 + KERNBASE.toNat = (roundup e).toNat := by
    unfold numAlloc
    rw [show EXTPHYSMEM_PAGE = 256 from rfl, show KERNBASE.toNat = 0xF0000000 from rfl] at *
    rw [BitVec.toNat_udiv, BitVec.toNat_sub, show KERNBASE.toNat = 0xF0000000 from rfl,
      show PGSIZE.toNat = 4096 from rfl]
    omega
  refine ⟨s', l, hrun, hl, hl.nodup, fun i hi => ((hmem i).mp hi).1, fun i hi hil => ?_,
    fun i hi => ?_⟩
  · have hres : pageReserved npagesBasemem (numAlloc (roundup e)) i = true := by
      cases h : pageReserved npagesBasemem (numAlloc (roundup e)) i with
      | false => exact absurd ((hmem i).mpr ⟨hi, h⟩) hil
      | true => rfl
    rw [hs'.ref i, if_pos ⟨hi, hres⟩]
  · rw [hmem i, pageReserved_eq_false]
    unfold EXTPHYSMEM_PAGE IOPHYSMEM_PAGE at *
    have hi' : i < ({ s with pages := fun _ => ⟨none, 0⟩ } : Kernel).npages := hi
    constructor
    · -- a page of the range is free and not on the list
      rintro hexact ⟨hlo, hhi⟩
      obtain ⟨-, -, -, hfree⟩ :=
        hexact.mpr ⟨by omega, by unfold MPENTRY_PAGE; omega, Or.inr ⟨by omega, by omega⟩⟩
      omega
    · intro hout
      constructor
      · rintro ⟨-, h0, h7, hfree⟩
        exact ⟨h0, h7, by omega⟩
      · rintro ⟨h0, h7, hfree⟩
        exact ⟨hi', h0, h7, by omega⟩

/-- A machine with 4MB: the pages of the second megabyte are in use, page 600
above them is free and reserved all the same. -/
theorem pageInit_wastes : ∃ s' l,
    pageInit 160 (numAlloc (roundup 0xF0200000#32)) { Kernel.powerOn with npages := 1024 }
        = .ok () s' ∧ FreeList s' l ∧
      (roundup 0xF0200000#32).toNat ≤ KERNBASE.toNat + 600 * 4096 ∧
      600 ∉ l ∧ (s'.pages 600).ppRef = 1 := by
  obtain ⟨s', hrun, hs'⟩ := pageInit_ok (s := { Kernel.powerOn with npages := 1024 })
    (fun _ => rfl) 160 (numAlloc (roundup 0xF0200000#32))
  obtain ⟨l, hl, hmem⟩ := hs'.free
  have hres : pageReserved 160 (numAlloc (roundup 0xF0200000#32)) 600 = true := by decide
  refine ⟨s', l, hrun, hl, by decide, fun hc => ?_, ?_⟩
  · have := ((hmem 600).mp hc).2
    exact absurd this (by decide)
  · rw [hs'.ref 600]
    exact if_pos ⟨show 600 < 1024 by decide, hres⟩

/-- The same machine, page 800: it lies above what is reserved and is free. -/
theorem pageInit_exact_small : ∃ s' l,
    pageInit 160 (numAlloc (roundup 0xF0200000#32)) { Kernel.powerOn with npages := 1024 }
        = .ok () s' ∧ FreeList s' l ∧ 800 ∈ l ∧ (s'.pages 300).ppRef = 1 := by
  obtain ⟨s', l, hrun, hl, -, -, href, hiff⟩ := pageInit_exact
    { Kernel.powerOn with npages := 1024 } 160 0xF0200000#32 (by decide) (by decide)
  have h300 := ((hiff 300 (by decide)).mpr (by decide)).not.mpr (by decide)
  exact ⟨s', l, hrun, hl, ((hiff 800 (by decide)).mpr (by decide)).mpr (by decide),
    href 300 (by decide) h300⟩

/-! ## §2. The map `mem_init` makes. -/

/-- `kern_pgdir` maps page `v` to the physical address `pa` with exactly these
flags in the page table entry. -/
def MapsTo (s : Kernel) (v : Nat) (pa flags : Word) : Prop :=
  pteAddr (kernPte s v) = pa ∧ pteFlags (kernPte s v) = flags

/-- The address and the flags of an entry made of an aligned address. -/
theorem pte_or {a fl : Word} (ha : a.toNat % 4096 = 0) (hfl : fl &&& ~~~0xFFF#32 = 0#32) :
    pteAddr (a ||| fl) = a ∧ pteFlags (a ||| fl) = fl := by
  have hlow : a &&& 0xFFF#32 = 0#32 := by
    apply BitVec.eq_of_toNat_eq
    show a.toNat &&& (2 ^ 12 - 1) = 0
    rw [Nat.and_two_pow_sub_one_eq_mod]
    exact ha
  have hhigh : a &&& ~~~0xFFF#32 = a := and_mask_of_and_not (by rwa [BitVec.not_not])
  have hflags : fl &&& 0xFFF#32 = fl := and_mask_of_and_not hfl
  unfold pteAddr pteFlags
  rw [BitVec.and_comm (a ||| fl) (~~~0xFFF#32), BitVec.and_comm (a ||| fl) (0xFFF#32),
    BitVec.and_or_distrib_left, BitVec.and_or_distrib_left, BitVec.and_comm (~~~0xFFF#32) a,
    BitVec.and_comm (~~~0xFFF#32) fl, BitVec.and_comm (0xFFF#32) a,
    BitVec.and_comm (0xFFF#32) fl, hlow, hhigh, hflags, hfl]
  simp

theorem add_pages_aligned (ha : a.toNat % 4096 = 0) (k : Nat) :
    (a + BitVec.ofNat 32 k * PGSIZE).toNat % 4096 = 0 := by
  rw [BitVec.toNat_add, BitVec.toNat_mul, BitVec.toNat_ofNat, show PGSIZE.toNat = 4096 from rfl]
  omega

namespace MapRegion

/-- Page `v` is one that `boot_map_region` maps. -/
def Has (r : MapRegion) (v : Nat) : Prop :=
  r.va.toNat / 4096 ≤ v ∧ v < r.va.toNat / 4096 + (r.size / PGSIZE).toNat

/-- The entry it gets. -/
def entry (r : MapRegion) (v : Nat) : Word :=
  (r.pa + BitVec.ofNat 32 (v - r.va.toNat / 4096) * PGSIZE) ||| r.perm ||| PTE_P

theorem put_of_has (h : r.Has v) (f : Nat → Word) :
    r.put f v = r.entry v := if_pos h

theorem put_of_not_has (h : ¬ r.Has v) (f : Nat → Word) :
    r.put f v = f v := if_neg h

theorem mapsTo_entry {v k : Nat}
    (hpte : kernPte s (v + k) = r.entry (v + k)) (hva : r.va.toNat / 4096 = v)
    (ha : r.pa.toNat % 4096 = 0) (hfl : r.perm ||| PTE_P = flags)
    (hmask : flags &&& ~~~0xFFF#32 = 0#32) :
    MapsTo s (v + k) (r.pa + BitVec.ofNat 32 k * PGSIZE) flags := by
  unfold MapsTo
  rw [hpte, entry, BitVec.or_assoc, hfl, hva, Nat.add_sub_cancel_left]
  exact pte_or (add_pages_aligned ha k) hmask

end MapRegion

theorem putRegions_of_not_has (h : ∀ r ∈ maps, ¬ r.Has v) : ∀ f, putRegions maps f v = f v := by
  induction maps with
  | nil =>
    intro f
    rfl
  | cons r rs ih =>
    intro f
    show putRegions rs (r.put f) v = f v
    rw [ih (fun r' hr' => h r' (List.mem_cons_of_mem r hr')),
      MapRegion.put_of_not_has (h r List.mem_cons_self)]

/-- A page that one region only has gets its entry from there. -/
theorem putRegions_of_has (hv : r.Has v) (hr : r ∈ maps) (honly : ∀ r' ∈ maps, r'.Has v → r' = r) :
    ∀ f, putRegions maps f v = r.entry v := by
  induction maps with
  | nil => exact absurd hr List.not_mem_nil
  | cons r₁ rs ih =>
    intro f
    show putRegions rs (r₁.put f) v = r.entry v
    have hrest : ∀ r' ∈ rs, r'.Has v → r' = r :=
      fun r' hr' => honly r' (List.mem_cons_of_mem r₁ hr')
    by_cases hmem : r ∈ rs
    · exact ih hmem hrest _
    · -- no later region touches the page
      rw [putRegions_of_not_has (fun r' hr' hv' => hmem (hrest r' hr' hv' ▸ hr'))]
      rcases List.mem_cons.mp hr with rfl | hr'
      · exact MapRegion.put_of_has hv f
      · exact absurd hr' hmem

namespace BootInfo

variable (b : BootInfo)

/-- The regions of `maps`, by name. -/
def pagesRegion : MapRegion :=
  { va := UPAGES, size := roundup (BitVec.ofNat 32 (b.npages * sizeofPageInfo)),
    pa := b.paPages, perm := PTE_U ||| PTE_P }

def envsRegion : MapRegion :=
  { va := UENVS, size := roundup (BitVec.ofNat 32 (NENV * sizeofEnv)), pa := b.paEnvs,
    perm := PTE_U }

def kernRegion : MapRegion :=
  { va := KERNBASE, size := 0xFFFFFFFF#32 - KERNBASE, pa := 0#32, perm := PTE_W }

def stackRegion (i : Nat) : MapRegion :=
  { va := KSTACKTOP - BitVec.ofNat 32 i * (KSTKSIZE + KSTKGAP) - KSTKSIZE,
    size := KSTKSIZE, pa := b.paKstacks i, perm := PTE_W }

theorem maps_eq : b.maps = [b.pagesRegion, b.envsRegion, kernRegion]
    ++ (List.range NCPU).map b.stackRegion := rfl

theorem pagesRegion_has (v : Nat) : b.pagesRegion.Has v ↔
    0xEF000 ≤ v ∧ v < 0xEF000 + (b.npages * sizeofPageInfo + 4095) / 4096 := by
  have hnp := b.npages_le
  unfold MapRegion.Has pagesRegion sizeofPageInfo
  rw [div_pgsize_toNat, roundup_toNat, BitVec.toNat_ofNat,
    show UPAGES.toNat = 0xEF000 * 4096 by decide]
  omega

theorem envsRegion_has (v : Nat) : b.envsRegion.Has v ↔
    0xEEC00 ≤ v ∧ v < 0xEEC00 + (NENV * sizeofEnv + 4095) / 4096 := by
  unfold MapRegion.Has
  rw [show b.envsRegion.va = UENVS from rfl,
    show b.envsRegion.size = roundup (BitVec.ofNat 32 (NENV * sizeofEnv)) from rfl,
    show roundup (BitVec.ofNat 32 (NENV * sizeofEnv)) = 0x20000#32 by decide]
  exact Iff.rfl

theorem kernRegion_has (v : Nat) : kernRegion.Has v ↔ 0xF0000 ≤ v ∧ v < 0xFFFFF := Iff.rfl

theorem stackRegion_va (hi : i < NCPU) :
    (b.stackRegion i).va.toNat / 4096 = 0xF0000 - 16 * i - 8 := by
  have h : ∀ i < NCPU, (KSTACKTOP - BitVec.ofNat 32 i * (KSTKSIZE + KSTKGAP) - KSTKSIZE).toNat
      / 4096 = 0xF0000 - 16 * i - 8 := by decide
  exact h i hi

theorem stackRegion_has (hi : i < NCPU) (v : Nat) : (b.stackRegion i).Has v ↔
    0xF0000 - 16 * i - 8 ≤ v ∧ v < 0xF0000 - 16 * i := by
  unfold MapRegion.Has
  rw [b.stackRegion_va hi, show (b.stackRegion i).size = KSTKSIZE from rfl,
    show (KSTKSIZE / PGSIZE).toNat = 8 by decide]
  unfold NCPU at hi
  omega

/-- The pages each region has. -/
theorem maps_has (hr : r ∈ b.maps) (hv : r.Has v) :
    (r = b.pagesRegion ∧ 0xEF000 ≤ v ∧ v < 0xEF080) ∨
      (r = b.envsRegion ∧ 0xEEC00 ≤ v ∧ v < 0xEEC20) ∨
      (r = kernRegion ∧ 0xF0000 ≤ v ∧ v < 0xFFFFF) ∨
      ∃ i < 8, r = b.stackRegion i ∧ 0xF0000 - 16 * i - 8 ≤ v ∧ v < 0xF0000 - 16 * i := by
  rw [maps_eq, List.mem_append, List.mem_map] at hr
  rcases hr with hr | ⟨i, hi, rfl⟩
  · simp only [List.mem_cons, List.not_mem_nil, or_false] at hr
    rcases hr with rfl | rfl | rfl
    · have hnp := b.npages_le
      have hv' := (b.pagesRegion_has v).mp hv
      unfold sizeofPageInfo at hv'
      exact Or.inl ⟨rfl, by omega⟩
    · exact Or.inr (Or.inl ⟨rfl, (b.envsRegion_has v).mp hv⟩)
    · exact Or.inr (Or.inr (Or.inl ⟨rfl, hv⟩))
  · have hi := List.mem_range.mp hi
    exact Or.inr (Or.inr (Or.inr ⟨i, hi, rfl, (b.stackRegion_has hi v).mp hv⟩))

/-- No page is in two of the regions. -/
theorem maps_unique {r r' : MapRegion} (hr : r ∈ b.maps) (hr' : r' ∈ b.maps)
    (hv : r.Has v) (hv' : r'.Has v) : r' = r := by
  rcases b.maps_has hr hv with ⟨rfl, h⟩ | ⟨rfl, h⟩ | ⟨rfl, h⟩ | ⟨i, hi, rfl, h⟩ <;>
    rcases b.maps_has hr' hv' with ⟨rfl, h'⟩ | ⟨rfl, h'⟩ | ⟨rfl, h'⟩ | ⟨j, hj, rfl, h'⟩ <;>
    first
    | omega
    | (obtain rfl : i = j := by omega)
      rfl
    | rfl

/-- `boot_alloc` and the linker align the arrays to pages. -/
structure Aligned : Prop where
  pages : b.paPages.toNat % 4096 = 0
  envs : b.paEnvs.toNat % 4096 = 0
  kstacks : ∀ i < NCPU, (b.paKstacks i).toNat % 4096 = 0

end BootInfo

/-- **The kernel's address space**, page by page: what `kern_pgdir` maps after
`mem_init`. -/
structure KernSpace (n : Nat) (b : BootInfo) (s : Kernel) : Prop where
  /-- `n` pages from `KERNBASE` on; all of them are 0x10000. -/
  kern : ∀ k < n, MapsTo s (KERNBASE.toNat / 4096 + k) (BitVec.ofNat 32 k * PGSIZE)
    (PTE_W ||| PTE_P)
  pages : ∀ k, k * 4096 < b.npages * sizeofPageInfo →
    MapsTo s (UPAGES.toNat / 4096 + k) (b.paPages + BitVec.ofNat 32 k * PGSIZE) (PTE_U ||| PTE_P)
  envs : ∀ k, k * 4096 < NENV * sizeofEnv →
    MapsTo s (UENVS.toNat / 4096 + k) (b.paEnvs + BitVec.ofNat 32 k * PGSIZE) (PTE_U ||| PTE_P)
  /-- The `KSTKSIZE` bytes below `KSTACKTOP - i * (KSTKSIZE + KSTKGAP)`. -/
  kstacks : ∀ i < NCPU, ∀ k < 8, MapsTo s (KSTACKTOP.toNat / 4096 - 16 * i - 8 + k)
    (b.paKstacks i + BitVec.ofNat 32 k * PGSIZE) (PTE_W ||| PTE_P)
  /-- The `KSTKGAP` bytes below each stack. -/
  gaps : ∀ i < NCPU, ∀ k < 8, kernPte s (KSTACKTOP.toNat / 4096 - 16 * i - 16 + k) = 0#32
  user : ∀ v, v * 4096 < UTOP.toNat → kernPte s v = 0#32

/-- After `mem_init`, `kern_pgdir` stands for the regions put into the empty map. -/
theorem memInit_kernMap {b : BootInfo} {s₀ s : Kernel} (hrun : memInit b b.maps s₀ = .ok () s) :
    BootInv b s ∧ KernMap (putRegions b.maps fun _ => 0#32) s := by
  obtain ⟨u, hinv, -, -, -, -, hmap, rfl⟩ := wp_ok (memInit_spec b s₀ b.maps_above) hrun
  obtain ⟨l, hl, hmem⟩ := hinv.free
  exact ⟨⟨hinv.npages, hinv.kern, ⟨l, hl.congr rfl rfl rfl, hmem⟩, hinv.own_ref, hinv.user,
    hinv.self, hinv.table⟩, hmap.inj, hmap.pte⟩

theorem KernMap.mapsTo {b : BootInfo}
    (h : KernMap (putRegions b.maps fun _ => 0#32) s) (hr : r ∈ b.maps)
    {v k : Nat} (hva : r.va.toNat / 4096 = v) (hk : r.Has (v + k)) (ha : r.pa.toNat % 4096 = 0)
      (hfl : r.perm ||| PTE_P = flags) (hmask : flags &&& ~~~0xFFF#32 = 0#32) :
    MapsTo s (v + k) (r.pa + BitVec.ofNat 32 k * PGSIZE) flags := by
  have hcases := b.maps_has hr hk
  have hpte := h.pte (v + k)
    (by rcases hcases with ⟨-, h⟩ | ⟨-, h⟩ | ⟨-, h⟩ | ⟨i, -, -, h⟩ <;> omega)
    (by
      rw [show pdx UVPT = 957 by decide]
      unfold NPTENTRIES
      rcases hcases with ⟨-, h⟩ | ⟨-, h⟩ | ⟨-, h⟩ | ⟨i, hi, -, h⟩ <;> omega)
  rw [putRegions_of_has hk hr (fun r' hr' hv' => b.maps_unique hr hr' hk hv')] at hpte
  exact MapRegion.mapsTo_entry hpte hva ha hfl hmask

/-- A page of no region is not mapped. -/
theorem KernMap.unmapped {b : BootInfo}
    (h : KernMap (putRegions b.maps fun _ => 0#32) s) (hv : v < 2 ^ 20)
    (hw : v / NPTENTRIES ≠ 957) (hout : ∀ r ∈ b.maps, ¬ r.Has v) : kernPte s v = 0#32 := by
  rw [h.pte v hv (by rwa [show pdx UVPT = 957 by decide]), putRegions_of_not_has hout]

/-- All but the last page. -/
theorem memInit_kernSpace_but_last {b : BootInfo} {s₀ s : Kernel} (hal : b.Aligned)
    (hrun : memInit b b.maps s₀ = .ok () s) : KernSpace 0xFFFF b s := by
  have h := (memInit_kernMap hrun).2
  have hmem : ∀ r ∈ [b.pagesRegion, b.envsRegion, BootInfo.kernRegion], r ∈ b.maps :=
    fun r hr => List.mem_append_left _ hr
  constructor
  case kern =>
    intro k hk
    have hmaps := h.mapsTo (hmem _ (by simp)) (r := BootInfo.kernRegion) (v := 0xF0000) (k := k)
      (by decide) ((BootInfo.kernRegion_has _).mpr (by omega)) (by decide) rfl (by decide)
    rwa [show BootInfo.kernRegion.pa = 0#32 from rfl, BitVec.zero_add] at hmaps
  case pages =>
    intro k hk
    rw [show UPAGES.toNat / 4096 = 0xEF000 by decide]
    exact h.mapsTo (hmem _ (by simp)) (r := b.pagesRegion)
      (show UPAGES.toNat / 4096 = 0xEF000 by decide)
      ((b.pagesRegion_has _).mpr (by omega)) hal.pages
      (show (PTE_U ||| PTE_P) ||| PTE_P = PTE_U ||| PTE_P by decide) (by decide)
  case envs =>
    intro k hk
    rw [show UENVS.toNat / 4096 = 0xEEC00 by decide]
    exact h.mapsTo (hmem _ (by simp)) (r := b.envsRegion)
      (show UENVS.toNat / 4096 = 0xEEC00 by decide)
      ((b.envsRegion_has _).mpr (by omega)) hal.envs rfl (by decide)
  case kstacks =>
    intro i hi k hk
    rw [show KSTACKTOP.toNat / 4096 = 0xF0000 by decide]
    exact h.mapsTo (List.mem_append_right _ (List.mem_map.mpr ⟨i, List.mem_range.mpr hi, rfl⟩))
      (b.stackRegion_va hi) ((b.stackRegion_has hi _).mpr (by unfold NCPU at hi; omega))
      (hal.kstacks i hi) rfl (by decide)
  case gaps =>
    intro i hi k hk
    rw [show KSTACKTOP.toNat / 4096 = 0xF0000 by decide]
    unfold NCPU at hi
    refine h.unmapped (by omega) (by unfold NPTENTRIES; omega) (fun r hr hv => ?_)
    rcases b.maps_has hr hv with ⟨-, h⟩ | ⟨-, h⟩ | ⟨-, h⟩ | ⟨j, hj, -, h⟩ <;> omega
  case user =>
    intro v hv
    rw [show UTOP.toNat = 0xEEC00 * 4096 by decide] at hv
    refine h.unmapped (by omega) (by unfold NPTENTRIES; omega) (fun r hr hv' => ?_)
    rcases b.maps_has hr hv' with ⟨-, h⟩ | ⟨-, h⟩ | ⟨-, h⟩ | ⟨j, hj, -, h⟩ <;> omega

/-- The page at `0xFFFFF000` has no entry: `0xFFFFFFFF - KERNBASE` is 65535 pages and a
part of one. -/
theorem memInit_last_page {b : BootInfo} {s₀ s : Kernel}
    (hrun : memInit b b.maps s₀ = .ok () s) : kernPte s 0xFFFFF = 0#32 := by
  refine (memInit_kernMap hrun).2.unmapped (by omega) (by unfold NPTENTRIES; omega)
    (fun r hr hv => ?_)
  rcases b.maps_has hr hv with ⟨-, h⟩ | ⟨-, h⟩ | ⟨-, h⟩ | ⟨j, hj, -, h⟩ <;> omega

/-- **The address space `mem_init` sets up**, for every size of memory: everything is
as it should be but the last page of `[KERNBASE, 2^32)`, which is never mapped. -/
theorem memInit_kernSpace {b : BootInfo} {s₀ s : Kernel} (hal : b.Aligned)
    (hrun : memInit b b.maps s₀ = .ok () s) :
    KernSpace 0xFFFF b s ∧ ¬ KernSpace 0x10000 b s := by
  refine ⟨memInit_kernSpace_but_last hal hrun, fun hall => ?_⟩
  have hlast := (hall.kern 0xFFFF (by omega)).2
  rw [show KERNBASE.toNat / 4096 + 0xFFFF = 0xFFFFF by decide, memInit_last_page hrun] at hlast
  exact absurd hlast (by decide)

theorem qemuBoot_memInit : ∃ s, memInit qemuBoot qemuBoot.maps Kernel.powerOn = .ok () s :=
  exists_memInit (by unfold BootInfo.Roomy; decide) qemuBoot.maps_above _

theorem memInit_kernSpace_qemuBoot : ∃ s,
    memInit qemuBoot qemuBoot.maps Kernel.powerOn = .ok () s ∧ KernSpace 0xFFFF qemuBoot s ∧
      ¬ KernSpace 0x10000 qemuBoot s := by
  obtain ⟨s, hrun⟩ := qemuBoot_memInit
  exact ⟨s, hrun, memInit_kernSpace ⟨by decide, by decide, by decide⟩ hrun⟩

/-- The page at `0xFFFFF000` is part of `[KERNBASE, 2^32)`. -/
theorem last_page_unmapped : ∃ s,
    memInit qemuBoot qemuBoot.maps Kernel.powerOn = .ok () s ∧
      KERNBASE.toNat ≤ 0xFFFFF * 4096 ∧ present (kernPte s 0xFFFFF) = false := by
  obtain ⟨s, hrun⟩ := qemuBoot_memInit
  refine ⟨s, hrun, by decide, ?_⟩
  rw [memInit_last_page hrun]
  decide

/-! ## §3. `mmio_map_region`. -/

/-- A sequence of calls `mmio_map_region(pa, size)`: what they return, and the
static variable after the last. -/
def mmioMapRegions : List (Word × Word) → Word → KM (List Word × Word)
  | [], base => pure ([], base)
  | (pa, size) :: calls, base => do
      let (ret, base') ← mmioMapRegion pa size base
      let (rets, base'') ← mmioMapRegions calls base'
      pure (ret :: rets, base'')

/-- Rounding up the size and adding it to `base` does not leave 32 bits, at
any of the calls. -/
def MmioNoWrap : List (Word × Word) → Word → Prop
  | [], _ => True
  | (_, size) :: calls, base =>
    base.toNat + (size.toNat + 4095) / 4096 * 4096 < 2 ^ 32 ∧
      MmioNoWrap calls (base + roundup size)

theorem mmioNoWrap_cons {pa size base : Word} :
    MmioNoWrap ((pa, size) :: cs) base ↔
      base.toNat + (size.toNat + 4095) / 4096 * 4096 < 2 ^ 32 ∧
        MmioNoWrap cs (base + roundup size) := Iff.rfl

theorem mmioNoWrap_append {cs cs' : List (Word × Word)} :
    ∀ {base : Word}, MmioNoWrap (cs ++ cs') base ↔ MmioNoWrap cs base ∧
      MmioNoWrap cs' (cs.foldl (fun base c => base + roundup c.2) base) := by
  induction cs with
  | nil => simp [MmioNoWrap]
  | cons c cs ih => simp [MmioNoWrap, ih, and_assoc]

/-- What holds between the calls. -/
structure MmioInv (b : BootInfo) (base : Word) (s : Kernel) : Prop where
  inv : BootInv b s
  map : KernMap (kernPte s) s
  aligned : base.toNat % 4096 = 0
  ge : MMIOBASE.toNat ≤ base.toNat
  lt : base.toNat < MMIOLIM.toNat

/-- What one call does: it reserves the range from `base` on, inside the MMIO
region, maps its pages and nothing else. -/
structure MmioMapped (s : Kernel) (pa size base : Word) (r : Word × Word) (s' : Kernel) :
    Prop where
  ret : r = (base, base + roundup size)
  next : r.2.toNat = base.toNat + (size.toNat + 4095) / 4096 * 4096
  inside : MMIOBASE.toNat ≤ r.1.toNat ∧ r.1.toNat + size.toNat ≤ MMIOLIM.toNat
  aligned : r.1.toNat % 4096 = 0
  maps : pa.toNat % 4096 = 0 → ∀ k, k * 4096 < size.toNat →
    MapsTo s' (r.1.toNat / 4096 + k) (pa + BitVec.ofNat 32 k * PGSIZE)
      (PTE_PCD ||| PTE_PWT ||| PTE_W ||| PTE_P)
  other : ∀ v < 2 ^ 20, v / NPTENTRIES ≠ pdx UVPT →
    ¬ (r.1.toNat / 4096 ≤ v ∧ v * 4096 < r.1.toNat + size.toNat) →
    kernPte s' v = kernPte s v

/-- The message of `mmio_map_region`, or the one page a page table needs is missing. -/
def MmioStops (s : Kernel) (e : Stop) : Prop :=
  e = .panic "mmio_map_region: map overflow" ∨ ¬ Room s

/-- A call from `s` that ends with `x` panicked, or did what it should. -/
def MmioCall (s : Kernel) (pa size base : Word) (x : EStateM.Result Stop Kernel (Word × Word)) :
    Prop :=
  match x with
  | .ok r s' => MmioMapped s pa size base r s'
  | .error e _ => MmioStops s e

/-- **One call.**  The next one finds the invariant again. -/
theorem MmioInv.call {b : BootInfo} (h : MmioInv b base s) (hfit : base.toNat +
    (size.toNat + 4095) / 4096 * 4096 < 2 ^ 32)
    {x : EStateM.Result Stop Kernel (Word × Word)} (hx : mmioMapRegion pa size base s = x) :
    MmioCall s pa size base x ∧ ∀ r s', x = .ok r s' → MmioInv b r.2 s' := by
  have hround : (roundup size).toNat = (size.toNat + 4095) / 4096 * 4096 := by
    rw [roundup_toNat]
    omega
  have hsum : (base + roundup size).toNat = base.toNat + (size.toNat + 4095) / 4096 * 4096 := by
    rw [BitVec.toNat_add, hround]
    omega
  have hge := h.ge
  have hal := h.aligned
  rw [show MMIOBASE.toNat = 0xEF800 * 4096 by decide] at hge
  have hlimit : MMIOLIM ≤ base + roundup size ↔
      0xEFC00 * 4096 ≤ base.toNat + (size.toNat + 4095) / 4096 * 4096 := by
    rw [BitVec.le_def, hsum, show MMIOLIM.toNat = 0xEFC00 * 4096 by decide]
  unfold mmioMapRegion at hx
  cases Decidable.em (MMIOLIM ≤ base + roundup size) with
  | inl hlim =>
    rw [if_pos hlim] at hx
    subst hx
    exact ⟨Or.inl rfl, fun r s' hc => nomatch hc⟩
  | inr hlim =>
    rw [if_neg hlim, bind_get, h.inv.kern] at hx
    rw [hlimit] at hlim
    -- the range is above `UTOP` and the window of the self-map
    let r : MapRegion := ⟨base, roundup size, pa, PTE_PCD ||| PTE_PWT ||| PTE_W⟩
    have habove : r.Above := by
      refine ⟨?_, ?_, Or.inr ?_⟩
      · show UTOP.toNat ≤ base.toNat
        rw [show UTOP.toNat = 0xEEC00 * 4096 by decide]
        omega
      · show base.toNat + (roundup size).toNat ≤ 2 ^ 32
        omega
      · rw [show UVPT.toNat + PTSIZE.toNat = 0xEF800 * 4096 by decide]
        omega
    have hregion := h.inv.mapRegion habove
    cases hrun : bootMapRegion b.kernPgdir base (roundup size) pa
        (PTE_PCD ||| PTE_PWT ||| PTE_W) s with
    | error e u =>
      rw [bind_error hrun] at hx
      subst hx
      exact ⟨Or.inr (wp_error hregion hrun), fun r s' hc => nomatch hc⟩
    | ok _ u =>
    rw [bind_ok hrun] at hx
    subst hx
    obtain ⟨hinv, -, -, hmap⟩ := wp_ok hregion hrun
    have hput := hmap _ h.map
    have hhas : ∀ v, r.Has v ↔
        base.toNat / 4096 ≤ v ∧ v < base.toNat / 4096 + (size.toNat + 4095) / 4096 := by
      intro v
      unfold MapRegion.Has
      rw [div_pgsize_toNat, show r.size = roundup size from rfl, hround,
        Nat.mul_div_cancel _ (by omega)]
    refine ⟨⟨rfl, hsum, ⟨h.ge, ?_⟩, hal, fun hpa k hk => ?_, fun v hv hw hout => ?_⟩, ?_⟩
    · show base.toNat + size.toNat ≤ MMIOLIM.toNat
      rw [show MMIOLIM.toNat = 0xEFC00 * 4096 by decide]
      omega
    · have hk' : r.Has (base.toNat / 4096 + k) := (hhas _).mpr (by omega)
      have hlt : base.toNat / 4096 + k < 2 ^ 20 := by omega
      have hwin : (base.toNat / 4096 + k) / NPTENTRIES ≠ pdx UVPT := by
        rw [show pdx UVPT = 957 by decide]
        unfold NPTENTRIES
        omega
      have hpte := hput.pte _ hlt hwin
      rw [MapRegion.put_of_has hk'] at hpte
      exact MapRegion.mapsTo_entry hpte rfl hpa rfl (by decide)
    · rw [hput.pte v hv hw, MapRegion.put_of_not_has]
      rw [hhas]
      have hout' : ¬ (base.toNat / 4096 ≤ v ∧ v * 4096 < base.toNat + size.toNat) := hout
      omega
    · intro r' s' hc
      obtain ⟨rfl, rfl⟩ := EStateM.Result.ok.inj hc
      refine ⟨hinv, ⟨hput.inj, fun _ _ _ => rfl⟩, ?_, ?_, ?_⟩
      · show (base + roundup size).toNat % 4096 = 0
        omega
      · show MMIOBASE.toNat ≤ (base + roundup size).toNat
        rw [show MMIOBASE.toNat = 0xEF800 * 4096 by decide]
        omega
      · show (base + roundup size).toNat < MMIOLIM.toNat
        rw [show MMIOLIM.toNat = 0xEFC00 * 4096 by decide]
        omega

/-- **Any number of calls**: the invariant holds after them, and every range
returned ends at or below the new `base`. -/
theorem MmioInv.calls {b : BootInfo} :
    ∀ {s s' : Kernel} {base : Word} {r : List Word × Word}, MmioInv b base s →
      MmioNoWrap cs base → mmioMapRegions cs base s = .ok r s' →
      MmioInv b r.2 s' ∧ base.toNat ≤ r.2.toNat ∧
        r.2 = cs.foldl (fun base c => base + roundup c.2) base ∧ r.1.length = cs.length ∧
        ∀ c ∈ cs.zip r.1, c.2.toNat + c.1.2.toNat ≤ r.2.toNat := by
  induction cs with
  | nil =>
    intro s s' base r h _ hrun
    obtain ⟨rfl, rfl⟩ := EStateM.Result.ok.inj hrun
    exact ⟨h, le_rfl, rfl, rfl, by simp⟩
  | cons c cs ih =>
    intro s s' base r h hfit hrun
    obtain ⟨pa, size⟩ := c
    obtain ⟨r₁, u, hcall, hrest⟩ := bind_inv hrun
    obtain ⟨r₂, v, hcalls, hret⟩ := bind_inv hrest
    obtain ⟨rfl, rfl⟩ := EStateM.Result.ok.inj hret
    have hfit' := mmioNoWrap_cons.mp hfit
    have hpost := h.call hfit'.1 hcall
    have hm : MmioMapped s pa size base r₁ u := hpost.1
    have hinv := hpost.2 r₁ u rfl
    have hbase : r₁ = (base, base + roundup size) := hm.ret
    have hnext := hm.next
    subst hbase
    obtain ⟨hinv', hle, hfold, hlen, hbelow⟩ := ih hinv hfit'.2 hcalls
    refine ⟨hinv', ?_, ?_, ?_, ?_⟩
    · show base.toNat ≤ r₂.2.toNat
      omega
    · rw [List.foldl_cons]
      exact hfold
    · rw [List.length_cons, List.length_cons, hlen]
    · intro c hc
      rcases List.mem_cons.mp hc with rfl | hc
      · show base.toNat + size.toNat ≤ r₂.2.toNat
        omega
      · exact hbelow c hc

/-- **MMIO reservations.**  After any sequence of calls that returned, the next
call panics, or it returns an aligned range inside the MMIO region, above all
ranges returned before, mapped to `pa` uncached and for the kernel only. -/
theorem mmioMapRegion_reserves {b : BootInfo} {f : Nat → Word} {s s₁ : Kernel}
    (h : BootInv b s) (hmap : KernMap f s) (calls : List (Word × Word)) (pa size : Word)
    (hfit : MmioNoWrap (calls ++ [(pa, size)]) MMIOBASE) {rets : List Word}
    (hrun : mmioMapRegions calls MMIOBASE s = .ok (rets, base) s₁)
    {x : EStateM.Result Stop Kernel (Word × Word)} (hx : mmioMapRegion pa size base s₁ = x) :
    MmioCall s₁ pa size base x ∧
      ∀ c ∈ calls.zip rets, c.2.toNat + c.1.2.toNat ≤ base.toNat := by
  have hinv : MmioInv b MMIOBASE s :=
    ⟨h, ⟨hmap.inj, fun _ _ _ => rfl⟩, by decide, le_rfl, by decide⟩
  have hparts := mmioNoWrap_append.mp hfit
  have hcalls := hinv.calls hparts.1 hrun
  have hlast := hparts.2
  rw [← hcalls.2.2.1, mmioNoWrap_cons] at hlast
  exact ⟨(hcalls.1.call hlast.1 hx).1, hcalls.2.2.2.2⟩

/-- The first call after boot, for the registers of the local APIC, returns. -/
theorem lapic_reserved : ∃ s s₁, memInit qemuBoot qemuBoot.maps Kernel.powerOn = .ok () s ∧
    mmioMapRegions [(0xFEE00000#32, 4096#32)] MMIOBASE s =
      .ok ([MMIOBASE], MMIOBASE + 4096#32) s₁ := by
  obtain ⟨s, hrun⟩ := qemuBoot_memInit
  obtain ⟨hinv, -⟩ := memInit_kernMap hrun
  have hroom : Room s := by
    obtain ⟨u, -, -, -, hroom, -, -, rfl⟩ := wp_ok (memInit_spec _ _ qemuBoot.maps_above) hrun
    obtain ⟨l, hl, hle⟩ := hroom (by unfold BootInfo.Roomy; decide)
    exact ⟨l, hl.congr rfl rfl rfl, hle⟩
  let r : MapRegion := ⟨MMIOBASE, 4096#32, 0xFEE00000#32, PTE_PCD ||| PTE_PWT ||| PTE_W⟩
  have habove : r.Above := ⟨by decide, by decide, Or.inr (by decide)⟩
  cases hmap : bootMapRegion qemuBoot.kernPgdir r.va r.size r.pa r.perm s with
  | error e u => exact absurd hroom (wp_error (hinv.mapRegion habove) hmap)
  | ok _ s₁ =>
    have hcall : mmioMapRegion 0xFEE00000#32 4096#32 MMIOBASE s =
        .ok (MMIOBASE, MMIOBASE + 4096#32) s₁ := by
      unfold mmioMapRegion
      rw [if_neg (by decide), bind_get, hinv.kern]
      exact bind_ok hmap
    exact ⟨s, s₁, hrun, bind_ok hcall⟩

/-- The second call, for the registers of the E1000. -/
theorem mmioMapRegion_reserves_e1000 : ∃ s s₁ x,
    memInit qemuBoot qemuBoot.maps Kernel.powerOn = .ok () s ∧
      mmioMapRegions [(0xFEE00000#32, 4096#32)] MMIOBASE s =
        .ok ([MMIOBASE], MMIOBASE + 4096#32) s₁ ∧
      mmioMapRegion 0xFEBC0000#32 0x20000#32 (MMIOBASE + 4096#32) s₁ = x ∧
      MmioCall s₁ 0xFEBC0000#32 0x20000#32 (MMIOBASE + 4096#32) x := by
  obtain ⟨s, s₁, hrun, hfirst⟩ := lapic_reserved
  obtain ⟨hinv, hmap⟩ := memInit_kernMap hrun
  obtain ⟨x, hx⟩ : ∃ x, mmioMapRegion 0xFEBC0000#32 0x20000#32 (MMIOBASE + 4096#32) s₁ = x :=
    ⟨_, rfl⟩
  exact ⟨s, s₁, x, hrun, hfirst, hx, (mmioMapRegion_reserves hinv hmap [(0xFEE00000#32, 4096#32)]
    0xFEBC0000#32 0x20000#32 ⟨by decide, by decide, trivial⟩ hfirst hx).1⟩

/-- `size` `0xFFFFFFFF` is rounded up to 0: the call succeeds, and the range it
claims to have reserved does not end below `MMIOLIM`. -/
theorem mmioMapRegion_rounds_to_zero : ∃ s,
    memInit qemuBoot qemuBoot.maps Kernel.powerOn = .ok () s ∧
      mmioMapRegion 0#32 0xFFFFFFFF#32 MMIOBASE s = .ok (MMIOBASE, MMIOBASE) s ∧
      MMIOLIM.toNat < MMIOBASE.toNat + (0xFFFFFFFF#32).toNat := by
  obtain ⟨s, hrun⟩ := qemuBoot_memInit
  refine ⟨s, hrun, ?_, by decide⟩
  unfold mmioMapRegion
  rfl

end Jos
