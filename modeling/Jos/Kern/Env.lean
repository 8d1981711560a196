/-
  Jos.Kern.Env — **ENVIRONMENTS** (`kern/env.c`): the table of environments and its free
  list, identifiers, address spaces, loading a program, and teardown.

  Functions of the source that return an error code and store a pointer on
  success return an `Except Word Nat`: the (negative) code, or the slot.
-/
import Jos.Kern.Pmap

namespace Jos

open Exec

/-! ## §1. Identifiers and the free list. -/

/-- `envid2env(envid, &e, checkperm)`.  For id 0 the source stores `curenv`,
which every caller follows at once. -/
def envid2env (envid : Word) (checkperm : Bool) : KM (Except Word Nat) := do
  if envid = 0#32 then
    pure (.ok (← derefCurenv))
  else
    let s ← get
    let e := envx envid
    if (s.envs e).envStatus = .free ∨ (s.envs e).envId ≠ envid then
      pure (.error (-E_BAD_ENV))
    else if checkperm then
      if s.curenv = some e then pure (.ok e)
      else
        let cur ← derefCurenv
        if (s.envs e).envParentId ≠ (s.envs cur).envId then pure (.error (-E_BAD_ENV))
        else pure (.ok e)
    else pure (.ok e)

/-- `env_init`, without loading the segment registers. -/
def envInit : KM Unit := do
  modify fun s => { s with envFreeList := none }
  forUp
    (fun k => modify fun s =>
      let i := NENV - 1 - k
      { s.setEnv i { s.envs i with
          envStatus := .free, envId := 0#32, envLink := s.envFreeList } with
        envFreeList := some i })
    0 NENV

/-! ## §2. Allocation. -/

/-- `env_setup_vm(e)`. -/
def envSetupVm (e : Nat) : KM Word := do
  match ← pageAlloc ALLOC_ZERO with
  | none => pure (-E_NO_MEM)
  | some p =>
    let d ← page2kva p
    modifyEnv e fun env => { env with envPgdir := some d }
    modify fun s => { s with mem := Function.update s.mem d (s.mem s.kernPgdir) }
    modify fun s => s.setPage p { s.pages p with ppRef := (s.pages p).ppRef + 1 }
    modify fun s => s.setWord d (pdx UVPT) (page2pa d ||| PTE_P ||| PTE_U)
    pure 0#32

def ENVGENSHIFT : Nat := 12

/-- The id `env_alloc` gives to slot `i` whose last id was `last`.  The
addition wraps at 2^31, and the comparison is signed. -/
def nextEnvId (last : Word) (i : Nat) : Word :=
  let generation := (last + (1#32 <<< ENVGENSHIFT)) &&& ~~~(BitVec.ofNat 32 (NENV - 1))
  let generation := if generation.sle 0#32 then 1#32 <<< ENVGENSHIFT else generation
  generation ||| BitVec.ofNat 32 i

/-- The trap frame `env_alloc` sets up. -/
def freshTf : Trapframe :=
  { (default : Trapframe) with
    tfDs := GD_UD ||| 3
    tfEs := GD_UD ||| 3
    tfSs := GD_UD ||| 3
    tfEsp := USTACKTOP
    tfCs := GD_UT ||| 3
    tfEflags := FL_IF }

/-- `env_alloc(&e, parent_id)`. -/
def envAlloc (parentId : Word) : KM (Except Word Nat) := do
  match (← get).envFreeList with
  | none => pure (.error (-E_NO_FREE_ENV))
  | some e =>
    let r ← envSetupVm e
    if r.slt 0#32 then
      pure (.error r)
    else
      modifyEnv e fun env => { env with
        envId := nextEnvId env.envId e
        envParentId := parentId
        envType := .user
        envStatus := .runnable
        envRuns := 0#32
        envTf := freshTf
        envPgfaultUpcall := 0#32
        envIpcRecving := false }
      modify fun s => { s with
        envFreeList := (s.envs e).envLink
        fsKin := Function.update s.fsKin e false }
      modifyEnv e fun env => { env with envE1000WaitingRx := false }
      pure (.ok e)

/-! ## §3. Loading a program. -/

/-- One round of the loop of `region_alloc`. -/
def regionAllocPage (e : Nat) (va : Word) : KM Unit := do
  match ← pageAlloc 0 with
  | none => panic "region_alloc:page alloc failed"
  | some pp =>
    let r ← pageInsert (← derefPgdir e) pp va (PTE_W ||| PTE_U)
    if r ≠ 0#32 then panic "region_alloc: page insert failed" else pure ()

/-- `region_alloc(e, va, len)`. -/
@[irreducible] def regionAlloc (e : Nat) (va len : Word) : KM Unit := do
  let max := roundup (va + len)
  let min := rounddown va
  if max > UTOP then
    panic "region_alloc: alloc above UTOP"
  else
    forUp (fun k => regionAllocPage e (min + BitVec.ofNat 32 k * PGSIZE)) 0
      (if min < max then (max - min).toNat / 4096 else 0)

/-- A program header, with the file contents it refers to. -/
structure Proghdr where
  pType : Word
  pVa : Word
  pFilesz : Word
  pMemsz : Word
  data : Nat → BitVec 8

/-- An ELF image. -/
structure Elf where
  eMagic : Word
  eEntry : Word
  phdrs : List Proghdr

def ELF_MAGIC : Word := 0x464C457F#32
def ELF_PROG_LOAD : Word := 1#32

/-- The loop of `load_icode` over the program headers. -/
def loadSegments (e : Nat) : List Proghdr → KM Unit
  | [] => pure ()
  | ph :: phs => do
      if ph.pType ≠ ELF_PROG_LOAD then
        loadSegments e phs
      else if ph.pFilesz > ph.pMemsz then
        panic "load_icode:file size is larger than mem size"
      else
        regionAlloc e ph.pVa ph.pMemsz
        copyOut ph.pVa ph.data ph.pFilesz.toNat
        copyOut (ph.pVa + ph.pFilesz) (fun _ => 0) (ph.pMemsz - ph.pFilesz).toNat
        loadSegments e phs

/-- `load_icode(e, binary)`. -/
def loadIcode (e : Nat) (elf : Elf) : KM Unit := do
  if elf.eMagic ≠ ELF_MAGIC then
    panic "load_icode: illegal elf header"
  else
    lcr3 (← paddr ((← get).envs e).envPgdir)
    loadSegments e elf.phdrs
    modifyEnv e fun env => { env with envTf := { env.envTf with tfEip := elf.eEntry } }
    regionAlloc e (USTACKTOP - PGSIZE) PGSIZE

/-- `env_create(binary, type)`. -/
def envCreate (elf : Elf) (type : EnvType) : KM Unit := do
  match ← envAlloc 0#32 with
  | .error r =>
    if r = -E_NO_FREE_ENV then panic "env_create:failed no free env %e"
    else panic "env_create:failed no free mem %e"
  | .ok e =>
    modifyEnv e fun env => { env with envType := type }
    if type = .fs then
      modifyEnv e fun env => { env with
        envTf := { env.envTf with tfEflags := env.envTf.tfEflags ||| FL_IOPL_3 } }
    modify fun s => { s with fsKin := Function.update s.fsKin e (type == .fs) }
    loadIcode e elf

/-! ## §4. Teardown. -/

/-- Unmap all entries of one page table. -/
def envFreePtes (e pdeno : Nat) (pt : Nat) : KM Unit :=
  forUp
    (fun pteno => do
      if present ((← get).mem pt pteno) then
        pageRemove (← derefPgdir e) (pgaddr pdeno pteno 0)
      else pure ())
    0 NPTENTRIES

/-- One round of the outer loop of `env_free`. -/
def envFreePde (e pdeno : Nat) : KM Unit := do
  let d ← derefPgdir e
  let pde := (← get).mem d pdeno
  if present pde then
    let pt ← kaddr (pteAddr pde)
    envFreePtes e pdeno pt
    modify fun s => s.setWord d pdeno 0#32
    pageDecref (← pa2page (pteAddr pde))
  else pure ()

/-- `env_free(e)`. -/
def envFree (e : Nat) : KM Unit := do
  if (← get).curenv = some e then lcr3 (← get).kernPgdir
  forUp (envFreePde e) 0 NPDUSER
  let pa ← paddr ((← get).envs e).envPgdir
  modifyEnv e fun env => { env with envPgdir := none }
  pageDecref (← pa2page (page2pa pa))
  modify fun s =>
    { s.setEnv e { s.envs e with envStatus := .free, envLink := s.envFreeList } with
      envFreeList := some e }

end Jos
