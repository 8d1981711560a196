/-
  Jos.Kern.Syscall — **THE SYSTEM CALLS** (`kern/syscall.c`) and their dispatcher.

  Where the source panics and then returns an error, the model panics; the
  unreachable `return` is left out.  `sys_yield` does not return, so neither
  do the calls that end in it.
-/
import Jos.Kern.E1000

namespace Jos

open Exec

/-! ## §1. The console. -/

/-- The loop of `vprintfmt` for `%s` with a precision: a character is read
before the precision is counted down.  The last argument bounds the number
of rounds. -/
def printStr (p : Word) (precision : Int) : Nat → KM Unit
  | 0 => pure ()
  | n + 1 => do
      let ch ← loadByte p
      if ch = 0 then pure ()
      else if precision < 0 then printStr (p + 1#32) precision n
      else if precision - 1 ≥ 0 then printStr (p + 1#32) (precision - 1) n
      else pure ()

/-- `sys_cputs(s, len)`.  The length is passed as an `int`, and a null string
prints as `(null)`; 2^32 rounds visit every address. -/
def sysCputs (p len : Word) : KM Unit := do
  userMemAssert (← derefCurenv) p len 0#32
  if p = 0#32 then pure () else printStr p len.toInt (2 ^ 32)

/-- `sys_cgetc()`. -/
def sysCgetc : KM Word := do
  pure (← get).consIn

/-! ## §2. Environments. -/

/-- `sys_getenvid()`. -/
def sysGetenvid : KM Word := do
  let cur ← derefCurenv
  pure ((← get).envs cur).envId

/-- `sys_env_destroy(envid)`. -/
def sysEnvDestroy (envid : Word) : KM Word := do
  match ← envid2env envid true with
  | .error r => pure r
  | .ok e =>
    envDestroy e
    pure 0#32

/-- `sys_yield()`. -/
def sysYield : KM Unit := schedYield

/-- `sys_exofork()`. -/
def sysExofork : KM Word := do
  match ← envAlloc (← sysGetenvid) with
  | .error r => pure r
  | .ok e =>
    let cur ← derefCurenv
    modifyEnv e fun env => { env with envStatus := .notRunnable }
    modify fun s => s.setEnv e { s.envs e with envTf := (s.envs cur).envTf }
    modifyEnv e fun env => { env with
      envTf := { env.envTf with tfRegs := { env.envTf.tfRegs with regEax := 0#32 } } }
    modify fun s => { s with fsKin := Function.update s.fsKin e (s.fsKin cur) }
    pure ((← get).envs e).envId

/-- The statuses `sys_env_set_status` accepts, by their numbers. -/
def settableStatus (status : Word) : Option EnvStatus :=
  if status = 2#32 then some .runnable
  else if status = 4#32 then some .notRunnable
  else none

/-- `sys_env_set_status(envid, status)`. -/
def sysEnvSetStatus (envid status : Word) : KM Word := do
  match settableStatus status with
  | none => pure (-E_INVAL)
  | some st =>
    match ← envid2env envid true with
    | .error r => pure r
    | .ok e =>
      modifyEnv e fun env => { env with envStatus := st }
      pure 0#32

/-- Read a `struct PushRegs` from memory. -/
def loadRegs (va : Word) : KM PushRegs := do
  let edi ← loadWord va
  let esi ← loadWord (va + 4#32)
  let ebp ← loadWord (va + 8#32)
  let oesp ← loadWord (va + 12#32)
  let ebx ← loadWord (va + 16#32)
  let edx ← loadWord (va + 20#32)
  let ecx ← loadWord (va + 24#32)
  let eax ← loadWord (va + 28#32)
  pure ⟨edi, esi, ebp, oesp, ebx, edx, ecx, eax⟩

/-- Read a `struct Trapframe` (68 bytes) from memory. -/
def loadTrapframe (va : Word) : KM Trapframe := do
  let regs ← loadRegs va
  let es ← loadWord (va + 32#32)
  let ds ← loadWord (va + 36#32)
  let trapno ← loadWord (va + 40#32)
  let err ← loadWord (va + 44#32)
  let eip ← loadWord (va + 48#32)
  let cs ← loadWord (va + 52#32)
  let eflags ← loadWord (va + 56#32)
  let esp ← loadWord (va + 60#32)
  let ss ← loadWord (va + 64#32)
  pure { tfRegs := regs, tfEs := es.setWidth 16, tfDs := ds.setWidth 16,
         tfTrapno := trapno, tfErr := err, tfEip := eip, tfCs := cs.setWidth 16,
         tfEflags := eflags, tfEsp := esp, tfSs := ss.setWidth 16 }

/-- `sys_env_set_trapframe(envid, tf)`. -/
def sysEnvSetTrapframe (envid tf : Word) : KM Word := do
  match ← envid2env envid true with
  | .error r => pure r
  | .ok e =>
    storeWord (tf + 56#32) ((← loadWord (tf + 56#32)) ||| FL_IF)
    let frame ← loadTrapframe tf
    modifyEnv e fun env => { env with envTf := frame }
    pure 0#32

/-- `sys_env_set_pgfault_upcall(envid, func)`. -/
def sysEnvSetPgfaultUpcall (envid func : Word) : KM Word := do
  match ← envid2env envid true with
  | .error _ => pure (-E_BAD_ENV)
  | .ok e =>
    modifyEnv e fun env => { env with envPgfaultUpcall := func }
    pure 0#32

/-! ## §3. Memory. -/

/-- `(uint32_t)va >= UTOP || ROUNDUP(va, PGSIZE) != va`. -/
def badVa (va : Word) : Bool := decide (va ≥ UTOP) || decide (roundup va ≠ va)

/-- `sys_page_alloc(envid, va, perm)`. -/
def sysPageAlloc (envid va perm : Word) : KM Word := do
  if badVa va then pure (-E_INVAL)
  else if !permOk perm then pure (-E_INVAL)
  else
    match ← envid2env envid true with
    | .error _ => pure (-E_BAD_ENV)
    | .ok e =>
      match ← pageAlloc 1 with
      | none => pure (-E_NO_MEM)
      | some pp =>
        let ret2 ← pageInsert (← derefPgdir e) pp va perm
        if ret2.slt 0#32 then
          pageFree pp
          pure (-E_NO_MEM)
        else
          pure 0#32

/-- `sys_page_map(srcenvid, srcva, dstenvid, dstva, perm)`. -/
def sysPageMap (srcenvid srcva dstenvid dstva perm : Word) : KM Word := do
  if badVa srcva || badVa dstva then
    panic "sys_page_map: invalid srcva | dstva"
  else if !permOk perm then
    panic "sys_page_map: invalid permission"
  else
    match ← envid2env srcenvid true with
    | .error _ => pure (-E_BAD_ENV)
    | .ok srcenv =>
      match ← envid2env dstenvid true with
      | .error _ => pure (-E_BAD_ENV)
      | .ok dstenv =>
        match ← pageLookup (← derefPgdir srcenv) srcva with
        | none => panic "sys_page_map: page_lookup failed"
        | some (pp, (p, j)) =>
          if perm &&& PTE_W ≠ 0#32 ∧ (← get).mem p j &&& PTE_W = 0#32 then
            panic "sys_page_map: page_lookup failed"
          else
            let r ← pageInsert (← derefPgdir dstenv) pp dstva perm
            if r.slt 0#32 then panic "sys_page_map: page_insert failed"
            else pure 0#32

/-- `sys_page_unmap(envid, va)`. -/
def sysPageUnmap (envid va : Word) : KM Word := do
  if badVa va then pure (-E_INVAL)
  else
    match ← envid2env envid true with
    | .error _ => pure (-E_BAD_ENV)
    | .ok e =>
      pageRemove (← derefPgdir e) va
      pure 0#32

/-! ## §4. Messages. -/

/-- The end of `sys_ipc_try_send`: the message is delivered to `e`. -/
def ipcDeliver (e : Nat) (value : Word) : KM Unit := do
  let cur ← derefCurenv
  let from_ := ((← get).envs cur).envId
  modifyEnv e fun env => { env with
    envIpcRecving := false
    envIpcFrom := from_
    envIpcValue := value
    envStatus := .runnable
    envTf := { env.envTf with tfRegs := { env.envTf.tfRegs with regEax := 0#32 } } }

/-- `sys_ipc_try_send(envid, value, srcva, perm)`.  When nothing is mapped at
`srcva` the source goes on to test an entry pointer that was never set. -/
def sysIpcTrySend (envid value srcva perm : Word) : KM Word := do
  match ← envid2env envid false with
  | .error _ => panic "sys_ipc_try_send: envid2env failed, %e"
  | .ok e =>
    if ((← get).envs e).envIpcRecving = false then
      pure (-E_IPC_NOT_RECV)
    else
      modifyEnv e fun env => { env with envIpcPerm := 0#32 }
      if srcva < UTOP then
        match ← pageLookup (← derefPgdir (← derefCurenv)) srcva with
        | none => undef "sys_ipc_try_send: pte is not set"
        | some (pp, (p, j)) =>
          if rounddown srcva ≠ srcva ∨ !permOk perm then
            panic "sys_ipc_try_send: srcva failed)"
          else if perm &&& PTE_W ≠ 0#32 ∧ (← get).mem p j &&& PTE_W = 0#32 then
            panic "sys_ipc_try_send: permission failed"
          else
            let dstva := ((← get).envs e).envIpcDstva
            if dstva < UTOP then
              let r ← pageInsert (← derefPgdir e) pp dstva perm
              if r.slt 0#32 then
                panic "sys_ipc_try_send: page_insert failed %e"
              else
                modifyEnv e fun env => { env with envIpcPerm := perm }
                ipcDeliver e value
                pure 0#32
            else
              ipcDeliver e value
              pure 0#32
      else
        ipcDeliver e value
        pure 0#32

/-- What `sys_ipc_recv` records before it gives up the CPU. -/
def ipcBlock (dstva : Word) : KM Unit := do
  modifyEnv (← derefCurenv) fun env => { env with
    envIpcRecving := true, envStatus := .notRunnable, envIpcDstva := dstva }

/-- `sys_ipc_recv(dstva)`. -/
def sysIpcRecv (dstva : Word) : KM Word := do
  if dstva < UTOP ∧ rounddown dstva ≠ dstva then
    pure (-E_INVAL)
  else
    ipcBlock dstva
    sysYield
    pure 0#32

/-! ## §5. Time and network. -/

/-- `sys_time_msec()`. -/
def sysTimeMsec : KM Word := do
  pure ((← get).ticks * 10#32)

/-- The retry loop of `sys_e1000_transmit`. -/
def transmitLoop (pck length : Word) : Nat → KM Word
  | 0 => do
      let _ ← e1000Transmit pck length
      pure (-E_E1000_TXBUF_FULL)
  | numTry + 1 => do
      let r ← e1000Transmit pck length
      if r.slt 0#32 then
        sysYield
        transmitLoop pck length numTry
      else
        pure 0#32

/-- `sys_e1000_transmit(pck, length)`. -/
def sysE1000Transmit (pck length : Word) : KM Word := do
  let r ← userMemCheck (← derefCurenv) pck length PTE_P
  if r.slt 0#32 then pure r
  else transmitLoop pck length 20

/-- `sys_e1000_receive(pck, length)`. -/
def sysE1000Receive (pck length : Word) : KM Word := do
  userMemAssert (← derefCurenv) pck PKT_SIZE PTE_W
  let r ← e1000Receive pck length
  if r = 0#32 then
    pure 0#32
  else
    modifyEnv (← derefCurenv) fun env => { env with
      envStatus := .notRunnable
      envE1000WaitingRx := true
      envTf := { env.envTf with
        tfRegs := { env.envTf.tfRegs with regEax := -E_E1000_RXBUF_EMPTY } } }
    sysYield
    pure 0#32

/-- `sys_e1000_get_mac(mac_addr)`. -/
def sysE1000GetMac (macAddr : Word) : KM Word := do
  userMemAssert (← derefCurenv) macAddr 12#32 PTE_W
  e1000GetMac macAddr
  pure 0#32

/-! ## §6. Dispatch. -/

/-- The system call numbers of `inc/syscall.h`. -/
inductive Sys where
  | cputs | cgetc | getenvid | envDestroy | pageAlloc | pageMap | pageUnmap | exofork
  | envSetStatus | envSetTrapframe | envSetPgfaultUpcall | yield | ipcTrySend | ipcRecv
  | timeMsec | e1000Receive | e1000Transmit | e1000GetMac
  deriving DecidableEq

def Sys.all : List Sys :=
  [.cputs, .cgetc, .getenvid, .envDestroy, .pageAlloc, .pageMap, .pageUnmap, .exofork,
    .envSetStatus, .envSetTrapframe, .envSetPgfaultUpcall, .yield, .ipcTrySend, .ipcRecv,
    .timeMsec, .e1000Receive, .e1000Transmit, .e1000GetMac]

/-- The call a number names. -/
def Sys.ofNum (no : Word) : Option Sys := Sys.all[no.toNat]?

/-- `syscall(syscallno, a1, a2, a3, a4, a5)`. -/
def syscall (no a1 a2 a3 a4 a5 : Word) : KM Word :=
  match Sys.ofNum no with
  | some .cputs => do
      sysCputs a1 a2
      pure 0#32
  | some .cgetc => sysCgetc
  | some .getenvid => sysGetenvid
  | some .envDestroy => sysEnvDestroy a1
  | some .yield => do
      sysYield
      pure 0#32
  | some .exofork => sysExofork
  | some .envSetStatus => sysEnvSetStatus a1 a2
  | some .pageAlloc => sysPageAlloc a1 a2 a3
  | some .pageMap => sysPageMap a1 a2 a3 a4 a5
  | some .pageUnmap => sysPageUnmap a1 a2
  | some .envSetPgfaultUpcall => sysEnvSetPgfaultUpcall a1 a2
  | some .ipcTrySend => sysIpcTrySend a1 a2 a3 a4
  | some .ipcRecv => sysIpcRecv a1
  | some .envSetTrapframe => sysEnvSetTrapframe a1 a2
  | some .timeMsec => sysTimeMsec
  | some .e1000Transmit => sysE1000Transmit a1 a2
  | some .e1000Receive => sysE1000Receive a1 a2
  | some .e1000GetMac => sysE1000GetMac a1
  | none => pure (-E_INVAL)

end Jos
