/-
  Jos.Kern.Pmap — **PHYSICAL PAGES AND PAGE TABLES** (`kern/pmap.c`, `kern/pmap.h`).

  The allocator (`pageAlloc`, `pageFree`, `pageDecref`), the two-level walk
  (`pgdirWalk`), the operations on mappings built from them, and the set-up
  of the kernel's own page directory.  Every function follows its C source
  statement by statement; pointers are indices (see `Jos.Kern.State`).
-/
import Jos.Kern.State

namespace Jos

open Exec

/-! ## §1. Addresses of pages. -/

/-- `KADDR(pa)`: the page at physical address `pa`. -/
def kaddr (pa : Word) : KM Nat := do
  if pgnum pa ≥ (← get).npages then panic "KADDR called with invalid pa %08lx"
  else pure (pgnum pa)

/-- `PADDR(kva)` for the kernel address of a page. -/
def paddr (kva : Option Nat) : KM Nat :=
  match kva with
  | some p => pure p
  | none => panic "PADDR called with invalid kva %08lx"

/-- `pa2page(pa)`. -/
def pa2page (pa : Word) : KM Nat := do
  if pgnum pa ≥ (← get).npages then panic "pa2page called with invalid pa"
  else pure (pgnum pa)

/-- `page2kva(pp)`. -/
def page2kva (pp : Nat) : KM Nat := kaddr (page2pa pp)

/-! ## §2. Hardware: loading `cr3` and flushing translations. -/

/-- `lcr3(pa)` drops all translations of this CPU. -/
def lcr3 (p : Nat) : KM Unit :=
  modifyCpu fun c => { c with cr3 := p, tlb := fun _ => none }

/-- `invlpg(va)` drops the translation of one page. -/
def invlpg (va : Word) : KM Unit :=
  modifyCpu fun c => { c with tlb := Function.update c.tlb (pgnum va) none }

/-! ## §3. The page allocator. -/

def ALLOC_ZERO : Nat := 1

/-- The pages `page_init` marks as in use. -/
def pageReserved (npagesBasemem numAlloc i : Nat) : Bool :=
  let numIoPages := EXTPHYSMEM_PAGE - IOPHYSMEM_PAGE
  i == 0
    || (decide (npagesBasemem ≤ i) && decide (i < npagesBasemem + numIoPages))
    || (decide (npagesBasemem + numIoPages ≤ i)
        && decide (i < npagesBasemem + numIoPages + numAlloc))
    || i == MPENTRY_PAGE

/-- `page_init`; `numAlloc` is `(boot_alloc(0) - KERNBASE) / PGSIZE`. -/
def pageInit (npagesBasemem numAlloc : Nat) : KM Unit := do
  modify fun s => { s with pageFreeList := none }
  forUp
    (fun i => modify fun s =>
      if pageReserved npagesBasemem numAlloc i then
        s.setPage i { s.pages i with ppRef := 1 }
      else
        { s.setPage i { ppRef := 0, ppLink := s.pageFreeList } with
          pageFreeList := some i })
    0 (← get).npages

/-- `memset(page, 0, PGSIZE)`. -/
def clearPage (p : Nat) : KM Unit :=
  modify fun s => { s with mem := Function.update s.mem p (fun _ => 0#32) }

/-- `page_alloc(alloc_flags)`. -/
def pageAlloc (allocFlags : Nat) : KM (Option Nat) := do
  let s ← get
  match s.pageFreeList with
  | none => pure none
  | some tempPage =>
    if (s.pages tempPage).ppRef ≠ 0 then
      panic "assertion failed: temp_page->pp_ref == 0"
    else
      set { s.setPage tempPage { s.pages tempPage with ppLink := none } with
        pageFreeList := (s.pages tempPage).ppLink }
      if allocFlags &&& ALLOC_ZERO ≠ 0 then
        clearPage (← page2kva tempPage)
        pure (some tempPage)
      else
        pure (some tempPage)

/-- `page_free(pp)`. -/
def pageFree (pp : Nat) : KM Unit := do
  let s ← get
  if (s.pages pp).ppRef ≠ 0 then
    panic "Still using page"
  else if (s.pages pp).ppLink ≠ none then
    panic "free page still have a link"
  else
    set { s.setPage pp { s.pages pp with ppLink := s.pageFreeList } with
      pageFreeList := some pp }

/-- `page_decref(pp)`. -/
def pageDecref (pp : Nat) : KM Unit := do
  let s ← get
  let ref := (s.pages pp).ppRef - 1
  set (s.setPage pp { s.pages pp with ppRef := ref })
  if ref = 0 then pageFree pp else pure ()

/-! ## §4. Walking and changing page tables. -/

/-- `pgdir_walk(pgdir, va, create)`. -/
def pgdirWalk (pgdir : Nat) (va : Word) (create : Bool) : KM (Option (Nat × Nat)) := do
  let s ← get
  if present (s.mem pgdir (pdx va)) then
    let pgtb ← kaddr (pteAddr (s.mem pgdir (pdx va)))
    pure (some (pgtb, ptx va))
  else if create then
    match ← pageAlloc 1 with
    | none => pure none
    | some pg =>
      clearPage (← page2kva pg)
      modify fun s => s.setPage pg { s.pages pg with ppRef := (s.pages pg).ppRef + 1 }
      modify fun s => s.setWord pgdir (pdx va) (page2pa pg ||| PTE_P ||| PTE_U ||| PTE_W)
      let pgtb ← kaddr (pteAddr ((← get).mem pgdir (pdx va)))
      pure (some (pgtb, ptx va))
  else
    pure none

/-- `boot_map_region(pgdir, va, size, pa, perm)`; a walk that finds no memory
returns null, and the store through it is not checked. -/
def bootMapRegion (pgdir : Nat) (va size pa perm : Word) : KM Unit :=
  forUp
    (fun i => do
      match ← pgdirWalk pgdir (va + BitVec.ofNat 32 i * PGSIZE) true with
      | none => undef "boot_map_region: tb_entry is NULL"
      | some (p, j) =>
        modify fun s => s.setWord p j ((pa + BitVec.ofNat 32 i * PGSIZE) ||| perm ||| PTE_P))
    0 (size / PGSIZE).toNat

/-- `mmio_map_region(pa, size)`: the address returned, and the new value of
its static variable `base`. -/
def mmioMapRegion (pa size base : Word) : KM (Word × Word) := do
  let roundSize := roundup size
  if MMIOLIM ≤ base + roundSize then
    throw (.panic "mmio_map_region: map overflow")
  else
    bootMapRegion (← get).kernPgdir base roundSize pa (PTE_PCD ||| PTE_PWT ||| PTE_W)
    pure (base, base + roundSize)

/-- `tlb_invalidate(pgdir, va)`. -/
def tlbInvalidate (pgdir : Nat) (va : Word) : KM Unit := do
  let s ← get
  match s.curenv with
  | none => invlpg va
  | some e => if (s.envs e).envPgdir = some pgdir then invlpg va else pure ()

/-- `page_lookup(pgdir, va, &pte)`: the page and the entry, or null; the entry
pointer is only set when a page is found. -/
def pageLookup (pgdir : Nat) (va : Word) : KM (Option (Nat × (Nat × Nat))) := do
  match ← pgdirWalk pgdir va false with
  | none => pure none
  | some (p, j) =>
    let pte := (← get).mem p j
    if present pte then
      let pg ← pa2page (pteAddr pte)
      pure (some (pg, (p, j)))
    else
      pure none

/-- `page_remove(pgdir, va)`. -/
def pageRemove (pgdir : Nat) (va : Word) : KM Unit := do
  match ← pageLookup pgdir va with
  | none => pure ()
  | some (pg, (p, j)) =>
    pageDecref pg
    tlbInvalidate pgdir va
    modify fun s => s.setWord p j 0#32

/-- `pp->pp_ref++`, noting a wrap-around. -/
def incRef (pp : Nat) : KM Unit :=
  modify fun s =>
    { s.setPage pp { s.pages pp with ppRef := (s.pages pp).ppRef + 1 } with
      refWrapped := s.refWrapped || (s.pages pp).ppRef == 65535#16 }

/-- `page_insert(pgdir, pp, va, perm)`. -/
def pageInsert (pgdir pp : Nat) (va perm : Word) : KM Word := do
  match ← pgdirWalk pgdir va true with
  | none => pure (-E_NO_MEM)
  | some (p, j) =>
    incRef pp
    if present ((← get).mem p j) then
      tlbInvalidate pgdir va
      pageRemove pgdir va
    modify fun s => s.setWord p j (page2pa pp ||| perm ||| PTE_P)
    modify fun s => s.setWord pgdir (pdx va) (s.mem pgdir (pdx va) ||| (perm ||| PTE_P))
    pure 0#32

/-! ## §5. The kernel's page directory. -/

/-- One call of `boot_map_region` on `kern_pgdir`. -/
structure MapRegion where
  va : Word
  size : Word
  pa : Word
  perm : Word
  deriving DecidableEq

/-- What the machine and the linker fix before `mem_init` runs. -/
structure BootInfo where
  npages : Nat
  npagesBasemem : Nat
  /-- `(boot_alloc(0) - KERNBASE) / PGSIZE` when `page_init` runs. -/
  numAlloc : Nat
  /-- The page `boot_alloc` gave to `kern_pgdir`. -/
  kernPgdir : Nat
  /-- `PADDR(pages)`, `PADDR(envs)`, `PADDR(percpu_kstacks[i])`. -/
  paPages : Word
  paEnvs : Word
  paKstacks : Nat → Word
  /-- Memory is at most the 256MB that the kernel maps at `KERNBASE`. -/
  npages_le : npages ≤ 65536
  base_le : npagesBasemem ≤ IOPHYSMEM_PAGE
  /-- `kern_pgdir` lies in what `boot_alloc` handed out above 1MB. -/
  kern_ge : EXTPHYSMEM_PAGE ≤ kernPgdir
  kern_lt : kernPgdir < numAlloc
  kern_lt_npages : kernPgdir < npages

/-- `sizeof(struct PageInfo)` and `sizeof(struct Env)`. -/
def sizeofPageInfo : Nat := 8
def sizeofEnv : Nat := 128

/-- The `boot_map_region` calls of `mem_init` and `mem_init_mp`. -/
def BootInfo.maps (b : BootInfo) : List MapRegion :=
  [ { va := UPAGES, size := roundup (BitVec.ofNat 32 (b.npages * sizeofPageInfo)),
      pa := b.paPages, perm := PTE_U ||| PTE_P },
    { va := UENVS, size := roundup (BitVec.ofNat 32 (NENV * sizeofEnv)),
      pa := b.paEnvs, perm := PTE_U },
    { va := KERNBASE, size := 0xFFFFFFFF#32 - KERNBASE, pa := 0#32, perm := PTE_W } ]
  ++ (List.range NCPU).map fun i =>
    { va := KSTACKTOP - BitVec.ofNat 32 i * (KSTKSIZE + KSTKGAP) - KSTKSIZE,
      size := KSTKSIZE, pa := b.paKstacks i, perm := PTE_W }

/-- `boot_map_region` on `kern_pgdir`, for each region in turn. -/
def bootMapRegions : List MapRegion → KM Unit
  | [] => pure ()
  | r :: rs => do
      bootMapRegion (← get).kernPgdir r.va r.size r.pa r.perm
      bootMapRegions rs

/-- `mem_init`: clear `kern_pgdir`, insert it into itself, set up the free
list, then map the kernel's part of the address space. -/
def memInit (b : BootInfo) (maps : List MapRegion) : KM Unit := do
  modify fun s => { s with
    npages := b.npages, kernPgdir := b.kernPgdir, pages := fun _ => ⟨none, 0⟩ }
  clearPage b.kernPgdir
  modify fun s => s.setWord b.kernPgdir (pdx UVPT) (page2pa b.kernPgdir ||| PTE_U ||| PTE_P)
  pageInit b.npagesBasemem b.numAlloc
  bootMapRegions maps
  lcr3 b.kernPgdir

/-! ## §6. Checking user pointers. -/

/-- The loop of `user_mem_check` over `user_mem_check_addr`.  The first
argument bounds the number of rounds. -/
def userMemCheckLoop (env : Nat) (start bound perm : Word) : Nat → KM Word
  | 0 => pure 0#32
  | n + 1 => do
      let addr := (← get).userMemCheckAddr
      if addr < bound then
        let d ← derefPgdir env
        let bad ← match ← pgdirWalk d (rounddown addr) false with
          | none => pure true
          | some (p, j) => do
              let pte := (← get).mem p j
              pure (decide ((pte ||| perm ||| PTE_P) ≠ pte) || decide (addr ≥ ULIM))
        if bad then
          modify fun s => { s with
            userMemCheckAddr := if addr ≠ start then rounddown addr else addr }
          pure (-E_FAULT)
        else
          modify fun s => { s with userMemCheckAddr := addr + PGSIZE }
          userMemCheckLoop env start bound perm n
      else
        pure 0#32

/-- `user_mem_check(env, va, len, perm)`.  An address space has 2^20 pages. -/
@[irreducible] def userMemCheck (env : Nat) (va len perm : Word) : KM Word := do
  modify fun s => { s with userMemCheckAddr := va }
  userMemCheckLoop env va (roundup (va + len)) perm (2 ^ 20)

/-! ## §7. The kernel's accesses to user memory.

The hardware translates through the directory in `cr3`, and checks `PTE_W` at
both levels also for the kernel (`CR0_WP`).  An access it refuses faults in
kernel mode, which `page_fault_handler` answers with a panic. -/

/-- The two entries that translate `va`, if both are present. -/
def translate (m : Nat → Nat → Word) (dir : Nat) (va : Word) : Option (Word × Word) :=
  let pde := m dir (pdx va)
  if present pde then
    let pte := m (ptePage pde) (ptx va)
    if present pte then some (pde, pte) else none
  else none

/-- Byte `k` of a word. -/
def getByte (w : Word) (k : Nat) : BitVec 8 := (w >>> (8 * k)).setWidth 8

/-- Replace byte `k` of a word. -/
def putByte (w : Word) (k : Nat) (b : BitVec 8) : Word :=
  (w &&& ~~~(0xFF#32 <<< (8 * k))) ||| (b.setWidth 32 <<< (8 * k))

/-- Load a byte through `cr3`. -/
def loadByte (va : Word) : KM (BitVec 8) := do
  modify fun s => { s with accesses := ⟨false, va⟩ :: s.accesses }
  let s ← get
  match translate s.mem (s.cpus s.cpunum).cr3 va with
  | none => panic "page_fault_handler:page fault"
  | some (_, pte) => pure (getByte (s.mem (ptePage pte) (pgoff va / 4)) (pgoff va % 4))

/-- Store a byte through `cr3`.  A store at or above `ULIM` overwrites the
kernel, and nothing is said about what happens then. -/
def storeByte (va : Word) (b : BitVec 8) : KM Unit := do
  modify fun s => { s with accesses := ⟨true, va⟩ :: s.accesses }
  let s ← get
  match translate s.mem (s.cpus s.cpunum).cr3 va with
  | none => panic "page_fault_handler:page fault"
  | some (pde, pte) =>
    if pde &&& pte &&& PTE_W = 0#32 then panic "page_fault_handler:page fault"
    else if va ≥ ULIM then undef "kernel memory overwritten"
    else
      let p := ptePage pte
      let i := pgoff va / 4
      modify fun s => s.setWord p i (putByte (s.mem p i) (pgoff va % 4) b)

/-- Load a little-endian word, a byte at a time. -/
def loadWord (va : Word) : KM Word := do
  let b0 ← loadByte va
  let b1 ← loadByte (va + 1#32)
  let b2 ← loadByte (va + 2#32)
  let b3 ← loadByte (va + 3#32)
  pure (putByte (putByte (putByte (putByte 0#32 0 b0) 1 b1) 2 b2) 3 b3)

/-- Store a little-endian word, a byte at a time. -/
def storeWord (va w : Word) : KM Unit := do
  storeByte va (getByte w 0)
  storeByte (va + 1#32) (getByte w 1)
  storeByte (va + 2#32) (getByte w 2)
  storeByte (va + 3#32) (getByte w 3)

/-- `memmove(va, src, n)` for a source inside the kernel. -/
def copyOut (va : Word) (src : Nat → BitVec 8) (n : Nat) : KM Unit :=
  forUp (fun i => storeByte (va + BitVec.ofNat 32 i) (src i)) 0 n

end Jos
