/-
  Jos.Machine.Effect — **WHAT A KERNEL ENTRY DOES TO ENVIRONMENTS AND CPUS.**

  `Effect inp c s s'` says once what the code that serves the entry `inp` of
  environment `c` can do to the table of environments before it returns or
  schedules: at most one change that matters to who may run (a status, a
  frame, a slot allocated or freed), each with the condition under which the
  code makes it, and any number of changes that do not (`SoftFrame`).
-/
import Jos.Machine.Leave

namespace Jos

open Exec

variable {t u : Kernel} {e : Nat} {α : Type}

/-! ## §1. Changes that do not matter. -/

/-- Privilege level, interrupt flag and IO privilege level are the same. -/
def SameMode (tf tf' : Trapframe) : Prop :=
  tf'.tfCs = tf.tfCs ∧
    tf'.tfEflags &&& (FL_IF ||| FL_IOPL_3) = tf.tfEflags &&& (FL_IF ||| FL_IOPL_3)

/-- A record in which registers, the upcall and `env_ipc_perm` may differ. -/
def Patched (v v' : Env) : Prop :=
  ∃ tf upcall perm, SameMode v.envTf tf ∧
    v' = { v with envTf := tf, envPgfaultUpcall := upcall, envIpcPerm := perm }

theorem SameMode.refl (tf : Trapframe) : SameMode tf tf := ⟨rfl, rfl⟩

theorem SameMode.trans {a b c : Trapframe} (h : SameMode a b) (h' : SameMode b c) :
    SameMode a c := ⟨h'.1.trans h.1, h'.2.trans h.2⟩

theorem Patched.refl (v : Env) : Patched v v := ⟨_, _, _, SameMode.refl _, rfl⟩

theorem Patched.trans {a b c : Env} (h : Patched a b) (h' : Patched b c) : Patched a c := by
  obtain ⟨tf, upcall, perm, hm, rfl⟩ := h
  obtain ⟨tf', upcall', perm', hm', rfl⟩ := h'
  exact ⟨tf', upcall', perm', hm.trans hm', rfl⟩

/-- The frame changes within its mode. -/
theorem patched_tf (v : Env) {tf : Trapframe} (h : SameMode v.envTf tf) :
    Patched v { v with envTf := tf } := ⟨tf, _, _, h, rfl⟩

/-- As `EnvFrame`, but records may be patched. -/
structure SoftFrame (s s' : Kernel) : Prop where
  npages : s'.npages = s.npages
  kernPgdir : s'.kernPgdir = s.kernPgdir
  env : ∀ i, Patched (s.envs i) (s'.envs i)
  envFreeList : s'.envFreeList = s.envFreeList
  cpunum : s'.cpunum = s.cpunum
  cpus : ∀ c, s'.cpus c = { s.cpus c with tlb := (s'.cpus c).tlb }
  fsKin : s'.fsKin = s.fsKin

theorem EnvFrame.soft {s s' : Kernel} (h : EnvFrame s s') : SoftFrame s s' :=
  ⟨h.npages, h.kernPgdir, fun i => by rw [h.envs]; exact Patched.refl _, h.envFreeList,
    h.cpunum, h.cpus, h.fsKin⟩

theorem SoftFrame.refl (s : Kernel) : SoftFrame s s := (EnvFrame.refl s).soft

theorem SoftFrame.trans {s t u : Kernel} (h : SoftFrame s t) (h' : SoftFrame t u) :
    SoftFrame s u where
  npages := h'.npages.trans h.npages
  kernPgdir := h'.kernPgdir.trans h.kernPgdir
  env i := (h.env i).trans (h'.env i)
  envFreeList := h'.envFreeList.trans h.envFreeList
  cpunum := h'.cpunum.trans h.cpunum
  cpus c := by rw [h'.cpus c, h.cpus c]
  fsKin := h'.fsKin.trans h.fsKin

theorem softFrame_setEnv {s : Kernel} {v : Env} (h : Patched (s.envs e) v) :
    SoftFrame s (s.setEnv e v) := by
  refine ⟨rfl, rfl, fun i => ?_, rfl, rfl, fun _ => rfl, rfl⟩
  by_cases hi : i = e
  · subst hi
    rw [Kernel.setEnv_self]
    exact h
  · rw [Kernel.setEnv_of_ne _ _ hi]
    exact Patched.refl _

/-- A change of a record after a soft one. -/
theorem SoftFrame.setEnv {s t : Kernel} (h : SoftFrame s t) {v w : Env}
    (hv : Patched v w) : SoftFrame (s.setEnv e v) (t.setEnv e w) := by
  refine ⟨h.npages, h.kernPgdir, fun i => ?_, h.envFreeList, h.cpunum, h.cpus, h.fsKin⟩
  by_cases hi : i = e
  · subst hi
    rw [Kernel.setEnv_self, Kernel.setEnv_self]
    exact hv
  · rw [Kernel.setEnv_of_ne _ _ hi, Kernel.setEnv_of_ne _ _ hi]
    exact h.env i

theorem SoftFrame.curenv {s s' : Kernel} (h : SoftFrame s s') : s'.curenv = s.curenv := by
  unfold Kernel.curenv
  rw [h.cpunum, h.cpus]

/-! ## §2. Freeing, seen through frames. -/

/-- The same change to this CPU. -/
theorem EnvFrame.setCpu {s t : Kernel} (h : EnvFrame s t) {a b : CpuInfo}
    (hab : b = { a with tlb := b.tlb }) : EnvFrame (s.setCpu a) (t.setCpu b) := by
  refine ⟨h.npages, h.kernPgdir, h.envs, h.envFreeList, h.cpunum, fun c => ?_, h.fsKin⟩
  by_cases hc : c = s.cpunum
  · rw [Kernel.setCpu_self _ _ (hc.trans h.cpunum.symm), Kernel.setCpu_self _ _ hc]
    exact hab
  · rw [Kernel.setCpu_of_ne _ _ (fun hc' => hc (hc'.trans h.cpunum)), Kernel.setCpu_of_ne _ _ hc]
    exact h.cpus c

theorem EnvFrame.cpu {s t : Kernel} (h : EnvFrame s t) :
    t.cpus t.cpunum = { s.cpus s.cpunum with tlb := (t.cpus t.cpunum).tlb } := by
  rw [h.cpunum]
  exact h.cpus s.cpunum

theorem EnvFrame.setCurenv {s t : Kernel} (h : EnvFrame s t) (e : Option Nat) :
    EnvFrame (s.setCurenv e) (t.setCurenv e) :=
  EnvFrame.setCpu h (by rw [h.cpu])

theorem EnvFrame.leaveDir {s t : Kernel} (h : EnvFrame s t) (e : Nat) :
    EnvFrame (leaveDir s e) (leaveDir t e) := by
  unfold Jos.leaveDir
  rw [h.curenv]
  split
  · exact EnvFrame.setCpu h (by rw [h.cpu, h.kernPgdir])
  · exact h

theorem EnvFrame.freeSlot {s t : Kernel} (h : EnvFrame s t) (e : Nat) :
    EnvFrame (s.freeSlot e) (t.freeSlot e) := by
  have hl := h.leaveDir e
  refine ⟨hl.npages, hl.kernPgdir, ?_, rfl, hl.cpunum, hl.cpus, hl.fsKin⟩
  show Function.update (Jos.leaveDir t e).envs e _ = Function.update (Jos.leaveDir s e).envs e _
  rw [hl.envs, h.envs, h.envFreeList]

theorem leaveDir_curenv (s : Kernel) (e : Nat) : (leaveDir s e).curenv = s.curenv := by
  unfold leaveDir
  split
  · simp
    rfl
  · rfl

theorem freeSlot_curenv (s : Kernel) (e : Nat) : (s.freeSlot e).curenv = s.curenv :=
  leaveDir_curenv s e

theorem freeSlot_env (s : Kernel) (e : Nat) :
    (s.freeSlot e).envs = Function.update s.envs e { s.envs e with
      envPgdir := none, envStatus := .free, envLink := s.envFreeList } := by
  show Function.update (leaveDir s e).envs e _ = _
  rw [leaveDir_envs]

/-- Only this CPU leaves the directory. -/
theorem freeSlot_cpus (s : Kernel) (e c : Nat) :
    (s.freeSlot e).cpus c = { s.cpus c with
      tlb := ((s.freeSlot e).cpus c).tlb
      cr3 := if c = s.cpunum ∧ s.curenv = some e then s.kernPgdir else (s.cpus c).cr3 } :=
  leaveDir_cpus s e c

/-! ## §3. Changes that matter. -/

/-- The system call an entry makes. -/
def TrapInput.call (inp : TrapInput) : Option Sys :=
  if inp.tf.tfTrapno = T_SYSCALL then Sys.ofNum inp.tf.tfRegs.regEax else none

/-- Its first and second argument. -/
def TrapInput.arg1 (inp : TrapInput) : Word := inp.tf.tfRegs.regEdx
def TrapInput.arg2 (inp : TrapInput) : Word := inp.tf.tfRegs.regEcx

/-- How `sys_env_set_trapframe` reads the frame at `tf`. -/
def readFrame (tf : Word) : KM Trapframe := do
  storeWord (tf + 56#32) ((← loadWord (tf + 56#32)) ||| FL_IF)
  loadTrapframe tf

/-- What `sys_exofork` of environment `c` makes of the new environment `e`. -/
def Kernel.child (s : Kernel) (c e : Nat) : Kernel :=
  { s.setEnv e { s.envs e with
      envStatus := .notRunnable
      envTf := { (s.envs c).envTf with
        tfRegs := { (s.envs c).envTf.tfRegs with regEax := 0#32 } } } with
    fsKin := Function.update s.fsKin e (s.fsKin c) }

/-- `sys_exofork` of environment `c` into slot `e`, with directory `d`. -/
def Kernel.forkEnv (s : Kernel) (c e d : Nat) : Kernel :=
  (s.allocEnv (s.envs c).envId e d).child c e

/-- The new environment: not runnable, with the frame of its parent. -/
theorem forkEnv_envs (s : Kernel) (c e d : Nat) :
    ∃ v, (s.forkEnv c e d).envs = Function.update s.envs e v ∧
      v.envStatus = .notRunnable ∧ v.envPgdir = some d ∧ v.envE1000WaitingRx = false ∧
      (c ≠ e → SameMode (s.envs c).envTf v.envTf) := by
  refine ⟨((s.forkEnv c e d).envs e), ?_, ?_, ?_, ?_, fun hce => ?_⟩
  · unfold Kernel.forkEnv Kernel.child Kernel.setEnv Kernel.allocEnv
    simp
  · simp [Kernel.forkEnv, Kernel.child, Kernel.setEnv]
  · simp [Kernel.forkEnv, Kernel.child, Kernel.setEnv, Kernel.allocEnv]
  · simp [Kernel.forkEnv, Kernel.child, Kernel.setEnv, Kernel.allocEnv]
  · have htf : ((s.allocEnv (s.envs c).envId e d).envs c) = s.envs c :=
      Function.update_of_ne hce _ _
    unfold Kernel.forkEnv Kernel.child
    rw [htf]
    simp [Kernel.setEnv, SameMode]

/-- What serving the entry `inp` of environment `c` can do to `s`. -/
inductive Effect (inp : TrapInput) (c : Nat) (s s' : Kernel) : Prop where
  | soft (h : SoftFrame s s')
  | setStatus {e : Nat} {st : EnvStatus} (hcall : inp.call = some .envSetStatus)
      (hst : settableStatus inp.arg2 = some st) (hfind : findEnv s c inp.arg1 true = .ok e)
      (h : SoftFrame (s.setEnv e { s.envs e with envStatus := st }) s')
  | setFrame {e : Nat} {frame : Trapframe} {t : Kernel}
      (hcall : inp.call = some .envSetTrapframe) (hfind : findEnv s c inp.arg1 true = .ok e)
      (hload : readFrame inp.arg2 s = .ok frame t)
      (h : SoftFrame (s.setEnv e { s.envs e with envTf := frame }) s')
  | deliver {e : Nat} (hcall : inp.call = some .ipcTrySend)
      (hfind : findEnv s c inp.arg1 false = .ok e) (hrecv : (s.envs e).envIpcRecving = true)
      (h : SoftFrame (s.setEnv e { s.envs e with
        envIpcRecving := false, envIpcFrom := (s.envs c).envId, envIpcValue := inp.arg2,
        envStatus := .runnable }) s')
  | block (hcall : inp.call = some .ipcRecv)
      (h : SoftFrame (s.setEnv c { s.envs c with
        envIpcRecving := true, envStatus := .notRunnable, envIpcDstva := inp.arg1 }) s')
  | blockRx (hcall : inp.call = some .e1000Receive)
      (h : SoftFrame (s.setEnv c { s.envs c with
        envStatus := .notRunnable, envE1000WaitingRx := true }) s')
  | fork {e d : Nat} (hcall : inp.call = some .exofork) (hhead : s.envFreeList = some e)
      (h : SoftFrame (s.forkEnv c e d) s')
  /-- `env_destroy` of an environment that runs on another CPU. -/
  | dying {e : Nat} (hcall : inp.call = some .envDestroy)
      (hfind : findEnv s c inp.arg1 true = .ok e) (hst : (s.envs e).envStatus = .running)
      (hne : e ≠ c) (h : SoftFrame (s.setEnv e { s.envs e with envStatus := .dying }) s')
  /-- `env_destroy` of another environment that does not run. -/
  | destroyed {e d : Nat} (hcall : inp.call = some .envDestroy)
      (hfind : findEnv s c inp.arg1 true = .ok e) (hst : (s.envs e).envStatus ≠ .running)
      (hne : e ≠ c) (hd : (s.envs e).envPgdir = some d) (h : SoftFrame (s.freeSlot e) s')
  /-- `env_destroy` of `c` itself. -/
  | exit {d : Nat} (hd : (s.envs c).envPgdir = some d)
      (h : SoftFrame ((s.freeSlot c).setCurenv none) s')
  | wake {r : Nat} (htrap : inp.tf.tfTrapno = IRQ_OFFSET + IRQ_E1000) (hr : r < NENV)
      (hw : (s.envs r).envE1000WaitingRx = true)
      (h : SoftFrame (s.setEnv r { s.envs r with
        envStatus := .runnable, envE1000WaitingRx := false }) s')

theorem Effect.then_soft {inp : TrapInput} {c : Nat} {s t u : Kernel} (h : Effect inp c s t)
    (hs : SoftFrame t u) : Effect inp c s u := by
  cases h with
  | soft h => exact .soft (h.trans hs)
  | setStatus hcall hst hfind h => exact .setStatus hcall hst hfind (h.trans hs)
  | setFrame hcall hfind hload h => exact .setFrame hcall hfind hload (h.trans hs)
  | deliver hcall hfind hrecv h => exact .deliver hcall hfind hrecv (h.trans hs)
  | block hcall h => exact .block hcall (h.trans hs)
  | blockRx hcall h => exact .blockRx hcall (h.trans hs)
  | fork hcall hhead h => exact .fork hcall hhead (h.trans hs)
  | dying hcall hfind hst hne h => exact .dying hcall hfind hst hne (h.trans hs)
  | destroyed hcall hfind hst hne hd h => exact .destroyed hcall hfind hst hne hd (h.trans hs)
  | exit hd h => exact .exit hd (h.trans hs)
  | wake htrap hr hw h => exact .wake htrap hr hw (h.trans hs)

/-- The kernel stopped while serving `inp`: a fault, or it was left after an
effect. -/
def Stopped (inp : TrapInput) (c : Nat) (s : Kernel) (x : Stop) (s' : Kernel) : Prop :=
  Fault x ∨ ∃ s₁, Effect inp c s s₁ ∧ Leave s₁ x s'

/-- `m`, run in `t`, has an effect on `s` or stops. -/
abbrev Serves (inp : TrapInput) (c : Nat) (s : Kernel) {α : Type} (m : KM α) (t : Kernel) : Prop :=
  wp m (fun _ s' => Effect inp c s s') (Stopped inp c s) t

/-! ## §4. `env_destroy` and `user_mem_assert`. -/

section

variable {inp : TrapInput} {c : Nat} {s : Kernel}

/-- Scheduling after an effect. -/
theorem Effect.yields (h : Effect inp c s t) :
    wp schedYield (fun _ _ => False) (Stopped inp c s) t :=
  wp_mono (schedYield_leave t) (fun _ _ h => h) (fun _ _ hl => Or.inr ⟨t, h, hl⟩)

/-- An environment destroys itself: `env_free`, then the scheduler. -/
theorem envDestroy_self (hc : s.curenv = some c) (hfr : EnvFrame s t) :
    wp (envDestroy c) (fun _ _ => False) (Stopped inp c s) t := by
  have hct : t.curenv = some c := hfr.curenv.trans hc
  refine wp_get_bind ?_
  rw [if_neg (fun h => h.2 hct)]
  refine wp_seq (wp_mono (envFree_table c t) (fun _ _ h => h) (fun _ _ h => Or.inl h)) ?_
  rintro _ u ⟨⟨d, hd⟩, hu⟩
  refine wp_get_bind ?_
  rw [if_pos (hu.curenv.trans ((freeSlot_curenv t c).trans hct))]
  refine wp_bind_ok rfl (Effect.yields (.exit (d := d) ?_ ?_))
  · rw [← hfr.envs]
    exact hd
  · exact (((hfr.freeSlot c).trans hu).setCurenv none).soft

/-- `env_destroy` of another environment. -/
theorem envDestroy_other (hc : s.curenv = some c) (hne : e ≠ c)
    (hcall : inp.call = some .envDestroy) (hfind : findEnv s c inp.arg1 true = .ok e) :
    Serves inp c s (envDestroy e) s := by
  have hcur : s.curenv ≠ some e := by
    rw [hc]
    exact fun h => hne (Option.some.inj h).symm
  refine wp_get_bind ?_
  by_cases hst : (s.envs e).envStatus = .running
  · rw [if_pos ⟨hst, hcur⟩]
    exact Effect.dying hcall hfind hst hne (SoftFrame.refl _)
  · rw [if_neg (fun h => hst h.1)]
    refine wp_seq (wp_mono (envFree_table e s) (fun _ _ h => h) (fun _ _ h => Or.inl h)) ?_
    rintro _ u ⟨⟨d, hd⟩, hu⟩
    refine wp_get_bind ?_
    rw [if_neg (fun h => hcur ((freeSlot_curenv s e).symm.trans (hu.curenv.symm.trans h)))]
    exact Effect.destroyed hcall hfind hst hne hd hu.soft

/-- `user_mem_assert` returns, or destroys the caller. -/
theorem userMemAssert_effect (hc : s.curenv = some c) (va len perm : Word) :
    wp (userMemAssert c va len perm) (fun _ t => EnvFrame s t) (Stopped inp c s) s := by
  refine (userMemCheck_keeps c va len (perm ||| PTE_U)).seq (fun r t ht => ?_)
    (fun x _ hx _ => Or.inl hx)
  split
  · exact wp_mono (envDestroy_self hc ht) (fun _ _ h => h.elim) (fun _ _ h => h)
  · exact ht

/-! ## §5. The system calls. -/

/-- Continue after code that touches no environment. -/
theorem Exec.Keeps.step {α β : Type} {m : KM α} {f : α → KM β} {Q : β → Kernel → Prop}
    (hm : Keeps EnvFrame Fault m) (ht : EnvFrame s t)
    (hf : ∀ a u, EnvFrame s u → wp (f a) Q (Stopped inp c s) u) :
    wp (m >>= f) Q (Stopped inp c s) t :=
  hm.seq (fun a u hu => hf a u (ht.trans hu)) (fun _ _ hx _ => Or.inl hx)

theorem Exec.Keeps.stopped {m : KM α} (hm : Keeps EnvFrame Fault m)
    (ht : EnvFrame s t) : Serves inp c s m t :=
  wp_mono (hm.after ht) (fun _ _ h => .soft h.soft) (fun _ _ h => Or.inl h.1)

theorem sysCputs_effect (hc : s.curenv = some c) (p len : Word) :
    Serves inp c s (sysCputs p len) s := by
  unfold sysCputs
  generalize 2 ^ 32 = n
  refine wp_bind_ok (derefCurenv_ok hc) ?_
  refine wp_seq (userMemAssert_effect hc p len 0#32) (fun _ t ht => ?_)
  split
  · exact Effect.soft ht.soft
  · exact (printStr_keeps p len.toInt n).stopped ht

theorem sysGetenvid_ok (hc : s.curenv = some c) : sysGetenvid s = .ok (s.envs c).envId s := by
  unfold sysGetenvid
  rw [bind_ok (derefCurenv_ok hc)]
  rfl

theorem sysEnvDestroy_effect (hc : s.curenv = some c) (hcall : inp.call = some .envDestroy) :
    Serves inp c s (sysEnvDestroy inp.arg1) s := by
  refine wp_bind_ok (envid2env_eq hc inp.arg1 true) ?_
  cases hfind : findEnv s c inp.arg1 true with
  | error r => exact Effect.soft (SoftFrame.refl s)
  | ok e =>
    by_cases hec : e = c
    · subst hec
      exact wp_seq (envDestroy_self hc (EnvFrame.refl s)) (fun _ _ h => h.elim)
    · exact wp_seq (envDestroy_other hc hec hcall hfind) (fun _ _ h => h)

theorem EnvFrame.child (h : EnvFrame t u) (c e : Nat) : EnvFrame (t.child c e) (u.child c e) := by
  refine ⟨h.npages, h.kernPgdir, ?_, h.envFreeList, h.cpunum, h.cpus, ?_⟩
  · simp only [Kernel.child, Kernel.setEnv, h.envs]
  · simp only [Kernel.child, h.fsKin]

/-- The child's record is written in three steps. -/
theorem exoforkChild_ok (t : Kernel) (c e : Nat) :
    (do
      modifyEnv e fun env => { env with envStatus := .notRunnable }
      modify fun s => s.setEnv e { s.envs e with envTf := (s.envs c).envTf }
      modifyEnv e fun env => { env with
        envTf := { env.envTf with tfRegs := { env.envTf.tfRegs with regEax := 0#32 } } }
      modify fun s => { s with fsKin := Function.update s.fsKin e (s.fsKin c) }
      pure ((← get).envs e).envId : KM Word) t = .ok (t.envs e).envId (t.child c e) := by
  have htf : ((t.setEnv e { t.envs e with envStatus := .notRunnable }).envs c).envTf
      = (t.envs c).envTf := by
    by_cases hce : c = e
    · subst hce
      simp
    · rw [Kernel.setEnv_of_ne _ _ hce]
  show EStateM.Result.ok _ _ = _
  simp only [Kernel.child, Kernel.setEnv_self, Kernel.setEnv_setEnv, htf]
  simp only [Kernel.setEnv]

theorem sysExofork_effect (hc : s.curenv = some c) (hcall : inp.call = some .exofork) :
    Serves inp c s sysExofork s := by
  refine wp_bind_ok (sysGetenvid_ok hc) ?_
  refine wp_seq (wp_mono (envAlloc_table (s.envs c).envId s) (fun _ _ h => h)
    (fun _ _ h => Or.inl h)) (fun r t ht => ?_)
  cases r with
  | error r => exact Effect.soft (EnvFrame.soft ht)
  | ok e =>
    obtain ⟨hhead, d, hfr⟩ := ht
    refine wp_bind_ok (derefCurenv_ok (hfr.curenv.trans hc)) ?_
    exact wp_of_ok (exoforkChild_ok t c e) (Effect.fork hcall hhead (hfr.child c e).soft)

theorem sysEnvSetStatus_effect (hc : s.curenv = some c) (hcall : inp.call = some .envSetStatus) :
    Serves inp c s (sysEnvSetStatus inp.arg1 inp.arg2) s := by
  unfold sysEnvSetStatus
  cases hst : settableStatus inp.arg2 with
  | none => exact Effect.soft (SoftFrame.refl s)
  | some st =>
    refine wp_bind_ok (envid2env_eq hc inp.arg1 true) ?_
    cases hfind : findEnv s c inp.arg1 true with
    | error r => exact Effect.soft (SoftFrame.refl s)
    | ok e => exact Effect.setStatus hcall hst hfind (SoftFrame.refl _)

theorem readFrame_keeps (tf : Word) : Keeps EnvFrame Fault (readFrame tf) :=
  (loadWord_keeps _).bind fun _ => (storeWord_keeps _ _).bind fun _ => loadTrapframe_keeps tf

theorem sysEnvSetTrapframe_effect (hc : s.curenv = some c)
    (hcall : inp.call = some .envSetTrapframe) :
    Serves inp c s (sysEnvSetTrapframe inp.arg1 inp.arg2) s := by
  refine wp_bind_ok (envid2env_eq hc inp.arg1 true) ?_
  cases hfind : findEnv s c inp.arg1 true with
  | error r => exact Effect.soft (SoftFrame.refl s)
  | ok e =>
    have hsplit : (do
        storeWord (inp.arg2 + 56#32) ((← loadWord (inp.arg2 + 56#32)) ||| FL_IF)
        let frame ← loadTrapframe inp.arg2
        modifyEnv e fun env => { env with envTf := frame }
        pure 0#32 : KM Word)
        = (do
          let frame ← readFrame inp.arg2
          modifyEnv e fun env => { env with envTf := frame }
          pure 0#32) := by
      unfold readFrame
      simp only [bind_assoc]
    have hkeep := readFrame_keeps inp.arg2 s
    show wp (do
        storeWord (inp.arg2 + 56#32) ((← loadWord (inp.arg2 + 56#32)) ||| FL_IF)
        let frame ← loadTrapframe inp.arg2
        modifyEnv e fun env => { env with envTf := frame }
        pure 0#32 : KM Word) _ _ s
    rw [hsplit]
    cases hload : readFrame inp.arg2 s with
    | ok frame t =>
      have ht : EnvFrame s t := wp_ok (Q := fun _ s' => EnvFrame s s') hkeep hload
      refine wp_bind_ok hload (Effect.setFrame hcall hfind hload ?_)
      exact (ht.setEnv e (fun env => { env with envTf := frame })).soft
    | error x t =>
      refine wp_of_error (bind_error hload) (Or.inl ?_)
      exact (wp_error (X := fun e s' => Fault e ∧ EnvFrame s s') hkeep hload).1

theorem sysEnvSetPgfaultUpcall_effect (hc : s.curenv = some c) (envid func : Word) :
    Serves inp c s (sysEnvSetPgfaultUpcall envid func) s := by
  refine wp_bind_ok (envid2env_eq hc envid true) ?_
  cases findEnv s c envid true with
  | error r => exact Effect.soft (SoftFrame.refl s)
  | ok e =>
    exact Effect.soft (softFrame_setEnv ⟨_, func, _, SameMode.refl _, rfl⟩)

/-- Continue after code that touches no environment, from a patched state. -/
theorem Exec.Keeps.softStep {α β : Type} {m : KM α} {f : α → KM β} {Q : β → Kernel → Prop}
    (hm : Keeps EnvFrame Fault m) (ht : SoftFrame s t)
    (hf : ∀ a u, SoftFrame s u → wp (f a) Q (Stopped inp c s) u) :
    wp (m >>= f) Q (Stopped inp c s) t :=
  hm.seq (fun a u hu => hf a u (ht.trans hu.soft)) (fun _ _ hx _ => Or.inl hx)

theorem ipcDeliver_effect (hc : s.curenv = some c)
    (hcall : inp.call = some .ipcTrySend) (hfind : findEnv s c inp.arg1 false = .ok e)
    (hrecv : (s.envs e).envIpcRecving = true) (ht : SoftFrame s t) :
    Serves inp c s (do ipcDeliver e inp.arg2; pure 0#32 : KM Word) t := by
  have hid : (t.envs c).envId = (s.envs c).envId := by
    obtain ⟨tf, upcall, perm, -, heq⟩ := ht.env c
    rw [heq]
  have hrun : ipcDeliver e inp.arg2 t = .ok () (t.setEnv e { t.envs e with
      envIpcRecving := false, envIpcFrom := (t.envs c).envId, envIpcValue := inp.arg2,
      envStatus := .runnable,
      envTf := { (t.envs e).envTf with
        tfRegs := { (t.envs e).envTf.tfRegs with regEax := 0#32 } } }) := by
    unfold ipcDeliver
    rw [bind_ok (derefCurenv_ok (ht.curenv.trans hc))]
    rfl
  refine wp_bind_ok hrun (Effect.deliver hcall hfind hrecv (ht.setEnv ?_))
  obtain ⟨tf, upcall, perm, hmode, heq⟩ := ht.env e
  rw [heq, hid]
  exact ⟨{ tf with tfRegs := { tf.tfRegs with regEax := 0#32 } }, upcall, perm, hmode, rfl⟩

theorem sysIpcTrySend_effect (hc : s.curenv = some c) (hcall : inp.call = some .ipcTrySend)
    (srcva perm : Word) : Serves inp c s (sysIpcTrySend inp.arg1 inp.arg2 srcva perm) s := by
  refine wp_bind_ok (envid2env_eq hc inp.arg1 false) ?_
  cases hfind : findEnv s c inp.arg1 false with
  | error r => exact Or.inl rfl
  | ok e =>
    refine wp_get_bind ?_
    by_cases hrecv : (s.envs e).envIpcRecving = false
    · rw [if_pos hrecv]
      exact Effect.soft (SoftFrame.refl s)
    rw [if_neg hrecv]
    have hdeliver : ∀ t, SoftFrame s t → _ := fun t ht =>
      ipcDeliver_effect hc hcall hfind (by simpa using hrecv) ht
    refine wp_bind_ok rfl ?_
    -- from here on the receiver's record differs in `env_ipc_perm` only
    have hsoft : SoftFrame s (s.setEnv e { s.envs e with envIpcPerm := 0#32 }) :=
      softFrame_setEnv ⟨_, _, 0#32, SameMode.refl _, rfl⟩
    split
    · refine derefCurenv_keeps.softStep hsoft fun cur t ht => ?_
      refine (derefPgdir_keeps cur).softStep ht fun d t ht => ?_
      refine (pageLookup_keeps d srcva).softStep ht fun r t ht => ?_
      cases r with
      | none => exact Or.inl rfl
      | some x =>
        dsimp only
        split
        · exact Or.inl rfl
        · refine wp_get_bind ?_
          split
          · exact Or.inl rfl
          · refine wp_get_bind ?_
            split
            · refine (derefPgdir_keeps e).softStep ht fun d t ht => ?_
              refine (pageInsert_keeps _ _ _ _).softStep ht fun r t ht => ?_
              split
              · exact Or.inl rfl
              · refine wp_bind_ok rfl (hdeliver _ (ht.trans (softFrame_setEnv ?_)))
                exact ⟨_, _, perm, SameMode.refl _, rfl⟩
            · exact hdeliver t ht
    · exact hdeliver _ hsoft

theorem sysIpcRecv_effect (hc : s.curenv = some c) (hcall : inp.call = some .ipcRecv) :
    Serves inp c s (sysIpcRecv inp.arg1) s := by
  unfold sysIpcRecv
  split
  · exact Effect.soft (SoftFrame.refl s)
  · have hrun : ipcBlock inp.arg1 s = .ok () (s.setEnv c { s.envs c with
        envIpcRecving := true, envStatus := .notRunnable, envIpcDstva := inp.arg1 }) := by
      unfold ipcBlock
      rw [bind_ok (derefCurenv_ok hc)]
      rfl
    refine wp_bind_ok hrun ?_
    exact wp_seq (Effect.yields (.block hcall (SoftFrame.refl _))) (fun _ _ h => h.elim)

theorem transmitLoop_effect (pck length : Word) (n : Nat) (ht : EnvFrame s t) :
    Serves inp c s (transmitLoop pck length n) t := by
  cases n with
  | zero =>
    exact (e1000Transmit_keeps pck length).step ht fun _ _ hu => Effect.soft hu.soft
  | succ n =>
    refine (e1000Transmit_keeps pck length).step ht fun r u hu => ?_
    split
    · exact wp_seq (Effect.yields (.soft hu.soft)) (fun _ _ h => h.elim)
    · exact Effect.soft hu.soft

theorem sysE1000Transmit_effect (hc : s.curenv = some c) (pck length : Word) :
    Serves inp c s (sysE1000Transmit pck length) s := by
  refine wp_bind_ok (derefCurenv_ok hc) ?_
  refine (userMemCheck_keeps c pck length PTE_P).step (EnvFrame.refl s) fun r t ht => ?_
  split
  · exact Effect.soft ht.soft
  · exact transmitLoop_effect pck length 20 ht

theorem sysE1000Receive_effect (hc : s.curenv = some c)
    (hcall : inp.call = some .e1000Receive) (pck length : Word) :
    Serves inp c s (sysE1000Receive pck length) s := by
  refine wp_bind_ok (derefCurenv_ok hc) ?_
  refine wp_seq (userMemAssert_effect hc pck PKT_SIZE PTE_W) (fun _ t ht => ?_)
  refine (e1000Receive_keeps pck length).step ht fun r u hu => ?_
  split
  · exact Effect.soft hu.soft
  · refine wp_bind_ok (derefCurenv_ok (hu.curenv.trans hc)) ?_
    refine wp_bind_ok rfl ?_
    refine wp_seq (Effect.yields (.blockRx hcall (hu.soft.setEnv ?_))) (fun _ _ h => h.elim)
    rw [hu.envs]
    exact patched_tf _ (SameMode.refl _)

theorem sysE1000GetMac_effect (hc : s.curenv = some c) (macAddr : Word) :
    Serves inp c s (sysE1000GetMac macAddr) s := by
  refine wp_bind_ok (derefCurenv_ok hc) ?_
  refine wp_seq (userMemAssert_effect hc macAddr 12#32 PTE_W) (fun _ t ht => ?_)
  exact (e1000GetMac_keeps macAddr).step ht fun _ _ hu => Effect.soft hu.soft

end

end Jos
