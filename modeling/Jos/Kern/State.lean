/-
  Jos.Kern.State — **THE KERNEL'S DATA** (`inc/memlayout.h`, `inc/env.h`, `inc/trap.h`,
  `kern/cpu.h`, `kern/e1000.h`) and the monad its code runs in.

  A `struct PageInfo *`, a `struct Env *` and a `struct CpuInfo *` are indices
  into `pages`, `envs` and `cpus`; a null pointer is `none`.  A kernel virtual
  address of a page (`page2kva`, `KADDR`) is the number of the page, and a
  `pte_t *` the pair of the page it lies in and its index there.  Physical
  memory is word-addressed within a page: `mem p i` is the `i`-th word of page
  `p`.

  Kernel code is `KM`: it returns, or it stops.  `panic` and failed asserts
  stop it, reads through a null or unset pointer stop it as `undef`, and the
  functions that do not return to their caller stop it by leaving the kernel:
  `user` (`env_pop_tf`), `halted` (`sched_halt`) and `monitor`.

  Three components are ghost.  They record what the code did and are never
  read by it: `accesses`, the addresses of user memory the kernel touched;
  `refWrapped`, that some `pp_ref++` of `page_insert` wrapped round to 0;
  `fsKin`, the environments created with type `ENV_TYPE_FS` and what they
  forked.
-/
import Jos.Kern.Mmu
import Jos.Lib.Exec

namespace Jos

/-! ## §1. Pages and environments. -/

/-- `struct PageInfo`. -/
structure PageInfo where
  ppLink : Option Nat
  ppRef : BitVec 16
  deriving DecidableEq, Inhabited

/-- `struct PushRegs`. -/
structure PushRegs where
  regEdi : Word
  regEsi : Word
  regEbp : Word
  regOesp : Word
  regEbx : Word
  regEdx : Word
  regEcx : Word
  regEax : Word
  deriving DecidableEq, Inhabited

/-- `struct Trapframe`, without its padding. -/
structure Trapframe where
  tfRegs : PushRegs
  tfEs : BitVec 16
  tfDs : BitVec 16
  tfTrapno : Word
  tfErr : Word
  tfEip : Word
  tfCs : BitVec 16
  tfEflags : Word
  tfEsp : Word
  tfSs : BitVec 16
  deriving DecidableEq, Inhabited

/-- Values of `env_status`. -/
inductive EnvStatus where
  | free
  | dying
  | runnable
  | running
  | notRunnable
  deriving DecidableEq, Inhabited

/-- `enum EnvType`. -/
inductive EnvType where
  | user
  | fs
  | ns
  deriving DecidableEq, Inhabited

/-- `struct Env`. -/
structure Env where
  envTf : Trapframe
  envLink : Option Nat
  envId : Word
  envParentId : Word
  envType : EnvType
  envStatus : EnvStatus
  envRuns : Word
  envCpunum : Nat
  envPgdir : Option Nat
  envPgfaultUpcall : Word
  envIpcRecving : Bool
  envIpcDstva : Word
  envIpcValue : Word
  envIpcFrom : Word
  envIpcPerm : Word
  envE1000WaitingRx : Bool
  deriving DecidableEq, Inhabited

def NENV : Nat := 1024

/-- `ENVX(envid)`: the slot an environment id names. -/
def envx (envid : Word) : Nat := (envid &&& 0x3FF#32).toNat

/-! ## §2. CPUs and the network card. -/

/-- Values of `cpu_status`. -/
inductive CpuStatus where
  | unused
  | started
  | halted
  deriving DecidableEq, Inhabited

/-- `struct CpuInfo`, with the registers of the CPU the kernel loads: `cr3`,
the frame `iret` last loaded, and the translation buffer. -/
@[ext] structure CpuInfo where
  cpuStatus : CpuStatus
  cpuEnv : Option Nat
  cr3 : Nat
  regs : Trapframe
  tlb : Nat → Option Word

def NCPU : Nat := 8

/-- The fields of `struct e1000_tx_desc` the driver uses. -/
structure TxDesc where
  length : BitVec 16
  cmd : BitVec 8
  status : BitVec 8
  deriving DecidableEq, Inhabited

/-- The fields of `struct e1000_rx_desc` the driver uses. -/
structure RxDesc where
  length : BitVec 16
  status : BitVec 8
  deriving DecidableEq, Inhabited

/-- The card's registers, its two rings and their packet buffers. -/
structure E1000 where
  regs : Nat → Word
  txq : Nat → TxDesc
  txPaks : Nat → Nat → BitVec 8
  rxq : Nat → RxDesc
  rxPaks : Nat → Nat → BitVec 8

/-! ## §3. The kernel state. -/

/-- One access of the kernel to a byte of user memory. -/
structure Access where
  write : Bool
  va : Word
  deriving DecidableEq

structure Kernel where
  npages : Nat
  pages : Nat → PageInfo
  pageFreeList : Option Nat
  mem : Nat → Nat → Word
  kernPgdir : Nat
  envs : Nat → Env
  envFreeList : Option Nat
  cpus : Nat → CpuInfo
  /-- `cpunum()`: the CPU that executes kernel code. -/
  cpunum : Nat
  ticks : Word
  e1000 : E1000
  /-- What the console would return next. -/
  consIn : Word
  userMemCheckAddr : Word
  /-- Ghost. -/
  accesses : List Access
  /-- Ghost. -/
  refWrapped : Bool
  /-- Ghost. -/
  fsKin : Nat → Bool

namespace Kernel

/-- `curenv`, that is `thiscpu->cpu_env`. -/
def curenv (s : Kernel) : Option Nat := (s.cpus s.cpunum).cpuEnv

def setPage (s : Kernel) (p : Nat) (pi : PageInfo) : Kernel :=
  { s with pages := Function.update s.pages p pi }

/-- Store a word of physical memory. -/
def setWord (s : Kernel) (p i : Nat) (w : Word) : Kernel :=
  { s with mem := Function.update s.mem p (Function.update (s.mem p) i w) }

def setEnv (s : Kernel) (i : Nat) (e : Env) : Kernel :=
  { s with envs := Function.update s.envs i e }

/-- Change the CPU that executes kernel code. -/
def setCpu (s : Kernel) (c : CpuInfo) : Kernel :=
  { s with cpus := Function.update s.cpus s.cpunum c }

/-- Assign to `curenv`. -/
def setCurenv (s : Kernel) (e : Option Nat) : Kernel :=
  s.setCpu { s.cpus s.cpunum with cpuEnv := e }

/-- The state when the kernel is entered: `.bss` is zero, and the boot CPU is
the only one that runs. -/
def powerOn : Kernel where
  npages := 0
  pages := fun _ => ⟨none, 0⟩
  pageFreeList := none
  mem := fun _ _ => 0#32
  kernPgdir := 0
  envs := fun _ => default
  envFreeList := none
  cpus := fun _ => ⟨.unused, none, 0, default, fun _ => none⟩
  cpunum := 0
  ticks := 0#32
  e1000 := ⟨fun _ => 0#32, fun _ => default, fun _ _ => 0#8, fun _ => default, fun _ _ => 0#8⟩
  consIn := 0#32
  userMemCheckAddr := 0#32
  accesses := []
  refWrapped := false
  fsKin := fun _ => false

end Kernel

/-! ## §4. Stopping. -/

/-- Why kernel code did not return to its caller. -/
inductive Stop where
  /-- `panic(msg)`, a failed `assert`, or a fault in kernel mode. -/
  | panic (msg : String)
  /-- A null or unset pointer was followed. -/
  | undef (what : String)
  /-- `env_pop_tf`: the CPU runs `curenv`. -/
  | user
  /-- `sched_halt`: the CPU waits for an interrupt. -/
  | halted
  /-- The kernel monitor has taken over. -/
  | monitor
  deriving DecidableEq

/-- The kernel did not survive. -/
def Stop.isCrash : Stop → Bool
  | .panic _ => true
  | .undef _ => true
  | _ => false

abbrev KM := EStateM Stop Kernel

/-- `panic(msg)`. -/
def panic {α : Type} (msg : String) : KM α := throw (.panic msg)

/-- Undefined behaviour of the C code. -/
def undef {α : Type} (what : String) : KM α := throw (.undef what)

/-- `curenv->…` where `curenv` may be null. -/
def derefCurenv : KM Nat := do
  match (← get).curenv with
  | some e => pure e
  | none => undef "curenv is NULL"

/-- `e->env_pgdir[…]` where `env_pgdir` may be null. -/
def derefPgdir (e : Nat) : KM Nat := do
  match ((← get).envs e).envPgdir with
  | some d => pure d
  | none => undef "env_pgdir is NULL"

def modifyEnv (i : Nat) (f : Env → Env) : KM Unit :=
  modify fun s => s.setEnv i (f (s.envs i))

def modifyCpu (f : CpuInfo → CpuInfo) : KM Unit :=
  modify fun s => s.setCpu (f (s.cpus s.cpunum))

end Jos
