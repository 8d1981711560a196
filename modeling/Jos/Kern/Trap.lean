/-
  Jos.Kern.Trap — **TRAPS** (`kern/trap.c`): entering the kernel from user mode or from a
  halted CPU, dispatching, and leaving it again.

  All gates are interrupt gates, so interrupts are off in the kernel and the
  assertion on `FL_IF` in `trap` cannot fail; it is left out.  The big kernel
  lock makes each entry atomic: a whole call of `trap` is one step.
-/
import Jos.Kern.Syscall

namespace Jos

open Exec

def T_DEBUG : Word := 1#32
def T_BRKPT : Word := 3#32
def T_PGFLT : Word := 14#32
def T_SYSCALL : Word := 48#32
def IRQ_OFFSET : Word := 32#32
def IRQ_TIMER : Word := 0#32
def IRQ_KBD : Word := 1#32
def IRQ_SERIAL : Word := 4#32
def IRQ_SPURIOUS : Word := 7#32
def IRQ_E1000 : Word := 11#32

/-- What the outside world adds to a trap: the frame on the stack, `cr2`, and,
should the kernel monitor be entered, whether its operator single-steps. -/
structure TrapInput where
  tf : Trapframe
  cr2 : Word
  singlestep : Bool

/-- `sizeof(struct UTrapframe)`. -/
def sizeofUTrapframe : Word := 52#32

/-- The address of the frame `page_fault_handler` pushes. -/
def utfAddr (esp : Word) : Word :=
  if UXSTACKTOP - PGSIZE ≤ esp ∧ esp ≤ UXSTACKTOP - 1#32 then
    esp - sizeofUTrapframe - 4#32
  else
    UXSTACKTOP - sizeofUTrapframe

/-- Store a `struct PushRegs`. -/
def storeRegs (va : Word) (r : PushRegs) : KM Unit := do
  storeWord va r.regEdi
  storeWord (va + 4#32) r.regEsi
  storeWord (va + 8#32) r.regEbp
  storeWord (va + 12#32) r.regOesp
  storeWord (va + 16#32) r.regEbx
  storeWord (va + 20#32) r.regEdx
  storeWord (va + 24#32) r.regEcx
  storeWord (va + 28#32) r.regEax

/-- `page_fault_handler(tf)`. -/
def pageFaultHandler (tf : Trapframe) (faultVa : Word) : KM Unit := do
  if tf.tfCs &&& 1 = 0 then
    panic "page_fault_handler:page fault"
  else
    let cur ← derefCurenv
    let upcall := ((← get).envs cur).envPgfaultUpcall
    if upcall ≠ 0#32 then
      let utf := utfAddr tf.tfEsp
      userMemAssert cur utf sizeofUTrapframe (PTE_U ||| PTE_W)
      storeWord utf faultVa
      storeRegs (utf + 8#32) tf.tfRegs
      storeWord (utf + 40#32) tf.tfEip
      storeWord (utf + 44#32) tf.tfEflags
      storeWord (utf + 48#32) tf.tfEsp
      storeWord (utf + 4#32) tf.tfTrapno
      modifyEnv cur fun env => { env with
        envTf := { env.envTf with tfEip := upcall, tfEsp := utf } }
      envRun cur
    else
      envDestroy cur

/-- `breakpoint_handler(tf)`: the monitor's operator sets or clears `FL_TF` in
the frame and lets the environment continue. -/
def breakpointHandler (user : Bool) (singlestep : Bool) : KM Unit := do
  if user then
    modifyEnv (← derefCurenv) fun env => { env with
      envTf := { env.envTf with
        tfEflags := if singlestep then env.envTf.tfEflags ||| FL_TF
          else env.envTf.tfEflags &&& ~~~FL_TF } }
  else pure ()

/-- `time_tick()`. -/
def timeTick : KM Unit := do
  modify fun s => { s with ticks := s.ticks + 1#32 }
  if (← get).ticks * 10#32 < (← get).ticks then panic "time_tick: time overflowed"
  else pure ()

/-- `system_call_handler(tf)`. -/
def systemCallHandler (tf : Trapframe) : KM Word :=
  syscall tf.tfRegs.regEax tf.tfRegs.regEdx tf.tfRegs.regEcx tf.tfRegs.regEbx
    tf.tfRegs.regEdi tf.tfRegs.regEsi

/-- `trap_dispatch(tf)`; `user` says that `tf` is `&curenv->env_tf`. -/
def trapDispatch (user : Bool) (inp : TrapInput) : KM Unit := do
  let no := inp.tf.tfTrapno
  if no = T_PGFLT then
    pageFaultHandler inp.tf inp.cr2
  else if no = T_BRKPT ∨ no = T_DEBUG then
    breakpointHandler user inp.singlestep
  else if no = T_SYSCALL then
    let cur := (← get).curenv
    let ret ← systemCallHandler inp.tf
    match cur with
    | some e =>
      if user then
        modifyEnv e fun env => { env with
          envTf := { env.envTf with tfRegs := { env.envTf.tfRegs with regEax := ret } } }
      else pure ()
    | none => pure ()
  else if no = IRQ_OFFSET + IRQ_TIMER then
    timeTick
    schedYield
  else if no = IRQ_OFFSET + IRQ_KBD ∨ no = IRQ_OFFSET + IRQ_SERIAL then
    pure ()
  else if no = IRQ_OFFSET + IRQ_E1000 then
    e1000TrapHandler
  else if no = IRQ_OFFSET + IRQ_SPURIOUS then
    pure ()
  else if inp.tf.tfCs = GD_KT then
    panic "unhandled trap in kernel"
  else
    envDestroy (← derefCurenv)

/-- The end of `trap`: back to the current environment, or schedule. -/
def trapReturn : KM Unit := do
  match (← get).curenv with
  | some e => if ((← get).envs e).envStatus = .running then envRun e else schedYield
  | none => schedYield

/-- The entry of `trap` from user mode: free a zombie, else save its frame. -/
def trapEnter (tf : Trapframe) : KM Unit := do
  match (← get).curenv with
  | none => panic "assertion failed: curenv"
  | some e =>
    if ((← get).envs e).envStatus = .dying then
      envFree e
      modify fun s => s.setCurenv none
      schedYield
    else
      modifyEnv e fun env => { env with envTf := tf }

/-- `trap(tf)`. -/
def trap (inp : TrapInput) : KM Unit := do
  modifyCpu fun c => { c with cpuStatus := .started }
  if inp.tf.tfCs &&& 3 = 3 then
    trapEnter inp.tf
    trapDispatch true inp
    trapReturn
  else
    trapDispatch false inp
    trapReturn

end Jos
