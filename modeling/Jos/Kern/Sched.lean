/-
  Jos.Kern.Sched — **SCHEDULING** (`kern/sched.c` and the part of `kern/env.c` that leaves the
  kernel): `env_run`, the round-robin search, halting, and destroying an
  environment.  None of `envRun`, `schedHalt`, `schedYield` returns.
-/
import Jos.Kern.Env

namespace Jos

open Exec

/-- `env_pop_tf(&e->env_tf)`: `iret` loads the frame. -/
def envPopTf (tf : Trapframe) : KM Unit := do
  let cur ← derefCurenv
  let c := (← get).cpunum
  modifyEnv cur fun env => { env with envCpunum := c }
  modifyCpu fun cpu => { cpu with regs := tf }
  throw .user

/-- `env_run(e)`. -/
def envRun (e : Nat) : KM Unit := do
  match (← get).curenv with
  | none => pure ()
  | some cur =>
    if ((← get).envs cur).envStatus = .running then
      modifyEnv cur fun env => { env with envStatus := .runnable }
    else pure ()
  modify fun s => s.setCurenv (some e)
  modifyEnv e fun env => { env with envStatus := .running, envRuns := env.envRuns + 1 }
  lcr3 (← paddr ((← get).envs e).envPgdir)
  envPopTf ((← get).envs e).envTf

/-- Does some environment keep the CPUs busy? -/
@[irreducible] def schedBusy (s : Kernel) : Bool :=
  (List.range NENV).any fun i =>
    (s.envs i).envStatus = .runnable || (s.envs i).envStatus = .running
      || (s.envs i).envStatus = .dying

/-- `sched_halt()`. -/
def schedHalt : KM Unit := do
  if schedBusy (← get) then
    modify fun s => s.setCurenv none
    lcr3 (← get).kernPgdir
    modifyCpu fun cpu => { cpu with cpuStatus := .halted }
    throw .halted
  else
    throw .monitor

/-- The search of `sched_yield` for a runnable environment after slot `i`. -/
def schedScan (i : Nat) : Nat → KM Unit
  | 0 => pure ()
  | n + 1 => do
      let i := (i + 1) % NENV
      if ((← get).envs i).envStatus = .runnable then envRun i
      schedScan i n

/-- The loop of `sched_yield` over environments that wait for a packet. -/
def schedWaiting (i : Nat) : Nat → KM Unit
  | 0 => pure ()
  | n + 1 => do
      if ((← get).envs i).envE1000WaitingRx then
        modifyEnv i fun env => { env with envE1000WaitingRx := false }
        envRun i
      schedWaiting (i + 1) n

/-- `sched_yield()`. -/
def schedYield : KM Unit := do
  let s ← get
  let i := match s.curenv with
    | some e => envx (s.envs e).envId
    | none => 0
  schedScan i NENV
  match (← get).curenv with
  | some e => if ((← get).envs e).envStatus = .running then envRun e
  | none => pure ()
  schedWaiting 0 NENV
  schedHalt

/-- `env_destroy(e)`. -/
def envDestroy (e : Nat) : KM Unit := do
  let s ← get
  if (s.envs e).envStatus = .running ∧ s.curenv ≠ some e then
    modifyEnv e fun env => { env with envStatus := .dying }
  else
    envFree e
    if (← get).curenv = some e then
      modify fun s => s.setCurenv none
      schedYield

/-- `user_mem_assert(env, va, len, perm)`. -/
def userMemAssert (env : Nat) (va len perm : Word) : KM Unit := do
  let r ← userMemCheck env va len (perm ||| PTE_U)
  if r.slt 0#32 then envDestroy env else pure ()

end Jos
