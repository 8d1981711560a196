/-
  Jos.Machine.Runs — **THE WHOLE MACHINE.**

  A run starts when the boot CPU has created the first environments.  Then any
  CPU may enter the kernel (`trap`), start up (`sched_yield`), or store into
  its environment's memory, and the devices may change, in any order; the big
  kernel lock makes each kernel entry one step.  A run ends when the kernel
  stops or the monitor takes over.

  What an environment executes is not restricted, except that it runs with
  privilege level 3: it may raise any trap with any registers, but the frame
  the hardware pushes has the IO privilege level that `iret` loaded, and, if
  that is not 3, the same interrupt flag.
-/
import Jos.Machine.Entry
import Jos.Mem.Boot

namespace Jos

open Exec
open Function (update update_self update_idem)

variable {s s' : Kernel}

/-! ## §1. Steps. -/

/-- CPU `c` is the one that executes kernel code. -/
def Kernel.onCpu (s : Kernel) (c : Nat) : Kernel := { s with cpunum := c }

/-- The frame `tf` can be pushed by user code that was started with `regs`. -/
def FromUser (regs tf : Trapframe) : Prop :=
  regs.tfCs &&& 3 = 3 ∧ tf.tfCs &&& 3 = 3 ∧
    tf.tfEflags &&& FL_IOPL_MASK = regs.tfEflags &&& FL_IOPL_MASK ∧
    (regs.tfEflags &&& FL_IOPL_MASK ≠ FL_IOPL_3 →
      tf.tfEflags &&& FL_IF = regs.tfEflags &&& FL_IF)

/-- This CPU can trap with `inp`: its environment does, or it is halted and an
interrupt arrives. -/
inductive CanTrap (s : Kernel) (inp : TrapInput) : Prop where
  | user {e : Nat} (hcur : s.curenv = some e)
      (hfrom : FromUser (s.cpus s.cpunum).regs inp.tf)
  | idle (hcur : s.curenv = none) (hhalt : (s.cpus s.cpunum).cpuStatus = .halted)
      (hcs : inp.tf.tfCs = GD_KT)
      (hirq : inp.tf.tfTrapno ∈ [IRQ_OFFSET + IRQ_TIMER, IRQ_OFFSET + IRQ_KBD,
        IRQ_OFFSET + IRQ_SERIAL, IRQ_OFFSET + IRQ_SPURIOUS, IRQ_OFFSET + IRQ_E1000])

theorem CanTrap.entry {inp : TrapInput} (h : CanTrap s inp) : Entry s inp := by
  cases h with
  | user hcur hfrom => exact .user hcur hfrom.2.1
  | idle hcur _ hcs hirq => exact .idle hcur (by rw [hcs]; decide) hirq

/-- One step of the machine; `pre` restricts the kernel entries (`none` is the
start of a CPU). -/
inductive Step (pre : Kernel → Option TrapInput → Prop) (s s' : Kernel) : Prop where
  | trap {c : Nat} {inp : TrapInput} {x : Stop} (hc : c < NCPU)
      (hcan : CanTrap (s.onCpu c) inp) (hpre : pre (s.onCpu c) (some inp))
      (hrun : Jos.trap inp (s.onCpu c) = .error x s') (hx : x = .user ∨ x = .halted)
  | start {c : Nat} {x : Stop} (hc : c < NCPU) (hunused : (s.cpus c).cpuStatus = .unused)
      (hcur : (s.cpus c).cpuEnv = none) (hpre : pre (s.onCpu c) none)
      (hrun : schedYield (s.onCpu c).started = .error x s') (hx : x = .user ∨ x = .halted)
  | store {c e : Nat} {va : Word} {pde pte : Word} {b : BitVec 8}
      (hcur : (s.cpus c).cpuEnv = some e)
      (ht : translate s.mem (s.cpus c).cr3 va = some (pde, pte))
      (hperm : pde &&& pte &&& (PTE_U ||| PTE_W) = PTE_U ||| PTE_W)
      (hs' : s' = s.setWord (ptePage pte) (pgoff va / 4)
        (putByte (s.mem (ptePage pte) (pgoff va / 4)) (pgoff va % 4) b))
  | device {d : E1000} {w : Word} (hs' : s' = { s with e1000 := d, consIn := w })

/-- Every entry is allowed. -/
abbrev anyEntry : Kernel → Option TrapInput → Prop := fun _ _ => True

/-- `ENV_CREATE` for each program of a list. -/
def envCreates : List (Elf × EnvType) → KM Unit
  | [] => pure ()
  | (elf, type) :: ps => do
      envCreate elf type
      envCreates ps

/-- The state when the boot CPU is about to call `sched_yield`. -/
def Init (s : Kernel) : Prop :=
  ∃ (b : BootInfo) (progs : List (Elf × EnvType)) (s₀ : Kernel),
    Booted b b.maps s₀ ∧ envCreates progs s₀ = .ok () s

/-- The states of runs all of whose entries meet `pre`. -/
def Reachable (pre : Kernel → Option TrapInput → Prop) (s : Kernel) : Prop :=
  ∃ s₀, Init s₀ ∧ Relation.ReflTransGen (Step pre) s₀ s

/-- **The invariant rule.** -/
theorem Reachable.inv {pre : Kernel → Option TrapInput → Prop} {I : Kernel → Prop}
    (hinit : ∀ s, Init s → I s) (hstep : ∀ s s', I s → Step pre s s' → I s')
    (h : Reachable pre s) : I s := by
  obtain ⟨s₀, h₀, hrun⟩ := h
  induction hrun with
  | refl => exact hinit s₀ h₀
  | tail _ hst ih => exact hstep _ _ ih hst

/-- What a step can do, in terms of environments and CPUs. -/
inductive Moves (pre : Kernel → Option TrapInput → Prop) (s s' : Kernel) : Prop where
  | trap {c : Nat} {inp : TrapInput} {x : Stop} {s₁ : Kernel} (hcan : CanTrap (s.onCpu c) inp)
      (hpre : pre (s.onCpu c) (some inp)) (hh : Handled inp (s.onCpu c) s₁)
      (hl : Leave s₁ x s') (hx : x = .user ∨ x = .halted)
  | start {c : Nat} {x : Stop} (hcur : (s.onCpu c).curenv = none)
      (hpre : pre (s.onCpu c) none) (hl : Leave (s.onCpu c).started x s')
      (hx : x = .user ∨ x = .halted)
  | other (h : EnvFrame s s')

/-- **One step of the machine.** -/
theorem Step.moves {pre : Kernel → Option TrapInput → Prop}
    (h : Step pre s s') : Moves pre s s' := by
  cases h with
  | trap hc hcan hpre hrun hx =>
    rcases wp_error (trap_handled hcan.entry) hrun with hfault | ⟨s₁, hh, hl⟩
    · rcases hx with rfl | rfl
      · exact absurd hfault (by simp [Fault, Stop.isCrash])
      · exact absurd hfault (by simp [Fault, Stop.isCrash])
    · exact .trap hcan hpre hh hl hx
  | start hc hunused hcur hpre hrun hx =>
    exact .start hcur hpre (wp_error (schedYield_leave _) hrun) hx
  | store hcur ht hperm hs' => exact .other (hs' ▸ envFrame_of_data s _ _ _ _ _ _ _ _)
  | device hs' => exact .other (hs' ▸ ⟨rfl, rfl, rfl, rfl, rfl, fun _ => rfl, rfl⟩)

/-! ## §2. The first environments. -/

/-- Environments are the same, and which one runs on which CPU. -/
structure TableFrame (s s' : Kernel) : Prop where
  envs : s'.envs = s.envs
  envFreeList : s'.envFreeList = s.envFreeList
  cpuEnv : ∀ c, (s'.cpus c).cpuEnv = (s.cpus c).cpuEnv
  cpuStatus : ∀ c, (s'.cpus c).cpuStatus = (s.cpus c).cpuStatus
  fsKin : s'.fsKin = s.fsKin

instance : IsPreorder Kernel TableFrame where
  refl _ := ⟨rfl, rfl, fun _ => rfl, fun _ => rfl, rfl⟩
  trans _ _ _ h h' := ⟨h'.envs.trans h.envs, h'.envFreeList.trans h.envFreeList,
    fun c => (h'.cpuEnv c).trans (h.cpuEnv c), fun c => (h'.cpuStatus c).trans (h.cpuStatus c),
    h'.fsKin.trans h.fsKin⟩

theorem EnvFrame.table (h : EnvFrame s s') : TableFrame s s' :=
  ⟨h.envs, h.envFreeList, fun c => by rw [h.cpus c], fun c => by rw [h.cpus c], h.fsKin⟩

theorem TableFrame.setEnv {s t : Kernel} (h : TableFrame s t) (e : Nat) (f : Env → Env) :
    TableFrame (s.setEnv e (f (s.envs e))) (t.setEnv e (f (t.envs e))) := by
  refine ⟨?_, h.envFreeList, h.cpuEnv, h.cpuStatus, h.fsKin⟩
  show update t.envs e (f (t.envs e)) = update s.envs e (f (s.envs e))
  rw [h.envs]

theorem lcr3_keeps (p : Nat) : Keeps TableFrame Fault (lcr3 p) := by
  have hcpu : ∀ (s : Kernel) (c : Nat), ((s.setCpu { s.cpus s.cpunum with
      cr3 := p, tlb := fun _ => none }).cpus c).cpuEnv = (s.cpus c).cpuEnv ∧
      ((s.setCpu { s.cpus s.cpunum with
        cr3 := p, tlb := fun _ => none }).cpus c).cpuStatus = (s.cpus c).cpuStatus := by
    intro s c
    by_cases hc : c = s.cpunum
    · rw [Kernel.setCpu_self _ _ hc, hc]
      exact ⟨rfl, rfl⟩
    · rw [Kernel.setCpu_of_ne _ _ hc]
      exact ⟨rfl, rfl⟩
  exact keeps_modify fun s => ⟨rfl, rfl, fun c => (hcpu s c).1, fun c => (hcpu s c).2, rfl⟩

theorem regionAllocPage_keeps (e : Nat) (va : Word) :
    Keeps EnvFrame Fault (regionAllocPage e va) := by
  refine (pageAlloc_keeps 0).bind fun r => ?_
  cases r with
  | none => exact keeps_throw _ rfl
  | some pp =>
    exact (derefPgdir_keeps e).bind fun d => (pageInsert_keeps _ _ _ _).bind fun _ =>
      keeps_ite (keeps_throw _ rfl) (keeps_pure ())

theorem regionAlloc_keeps (e : Nat) (va len : Word) :
    Keeps EnvFrame Fault (regionAlloc e va len) := by
  unfold regionAlloc
  dsimp only
  split
  · exact keeps_throw _ rfl
  · exact keeps_forUp (fun _ => regionAllocPage_keeps _ _) 0 _

theorem loadSegments_keeps (e : Nat) (phs : List Proghdr) :
    Keeps EnvFrame Fault (loadSegments e phs) := by
  induction phs with
  | nil => exact keeps_pure ()
  | cons ph phs ih =>
    refine keeps_ite ih (keeps_ite (keeps_throw _ rfl) ?_)
    exact (regionAlloc_keeps _ _ _).bind fun _ => (copyOut_keeps _ _ _).bind fun _ =>
      (copyOut_keeps _ _ _).bind fun _ => ih

theorem loadIcode_table (e : Nat) (elf : Elf) (s : Kernel) :
    wp (loadIcode e elf)
      (fun _ s' => TableFrame (s.setEnv e { s.envs e with
        envTf := { (s.envs e).envTf with tfEip := elf.eEntry } }) s')
      (fun _ _ => True) s := by
  have hframe : ∀ {α : Type} {m : KM α}, Keeps EnvFrame Fault m → Keeps TableFrame Fault m :=
    fun h => h.mono fun _ _ h => h.table
  unfold loadIcode
  split
  · trivial
  · refine wp_get_bind ?_
    cases (s.envs e).envPgdir with
    | none => trivial
    | some d =>
      refine wp_bind_ok (show paddr (some d) s = .ok d s from rfl) ?_
      refine (lcr3_keeps d).seq (fun _ t ht => ?_) (fun _ _ _ _ => trivial)
      refine (hframe (loadSegments_keeps e elf.phdrs)).seq (fun _ u hu => ?_)
        (fun _ _ _ _ => trivial)
      refine wp_bind_ok rfl ?_
      have hset := TableFrame.setEnv (IsTrans.trans _ _ _ ht hu) e
        (fun env => { env with envTf := { env.envTf with tfEip := elf.eEntry } })
      exact wp_mono ((hframe (regionAlloc_keeps _ _ _)).after hset) (fun _ _ h => h)
        (fun _ _ _ => trivial)

/-- Slot `e` has been filled by `env_create`. -/
structure Created (type : EnvType) (s s' : Kernel) (e : Nat) (v : Env) : Prop where
  head : s.envFreeList = some e
  envs : s'.envs = update s.envs e v
  envFreeList : s'.envFreeList = (s.envs e).envLink
  cpuEnv : ∀ c, (s'.cpus c).cpuEnv = (s.cpus c).cpuEnv
  cpuStatus : ∀ c, (s'.cpus c).cpuStatus = (s.cpus c).cpuStatus
  fsKin : s'.fsKin = update s.fsKin e (type == .fs)
  status : v.envStatus = .runnable
  dir : v.envPgdir ≠ none
  waiting : v.envE1000WaitingRx = false
  cs : v.envTf.tfCs = GD_UT ||| 3
  eflags : v.envTf.tfEflags = if type = .fs then FL_IF ||| FL_IOPL_3 else FL_IF

/-- `env_create` sets the type, and with it the IO privilege level. -/
def Kernel.typed (s : Kernel) (e : Nat) (type : EnvType) : Kernel :=
  { s.setEnv e { s.envs e with
      envType := type
      envTf := { (s.envs e).envTf with
        tfEflags := if type = .fs then (s.envs e).envTf.tfEflags ||| FL_IOPL_3
          else (s.envs e).envTf.tfEflags } } with
    fsKin := update s.fsKin e (type == .fs) }

theorem envCreate_ok {elf : Elf} {type : EnvType} {s t : Kernel} {e : Nat}
    (halloc : envAlloc 0#32 s = .ok (.ok e) t) :
    envCreate elf type s = loadIcode e elf (t.typed e type) := by
  unfold envCreate
  rw [bind_ok halloc]
  show ((modifyEnv e _ : KM Unit) >>= _) t = _
  by_cases htype : type = .fs
  · rw [if_pos htype]
    show loadIcode e elf _ = _
    unfold Kernel.typed
    rw [if_pos htype]
    simp only [Kernel.setEnv_self, Kernel.setEnv_setEnv]
    rfl
  · rw [if_neg htype]
    unfold Kernel.typed
    rw [if_neg htype]
    rfl

/-- **`env_create`** fills the first free slot. -/
theorem envCreate_created {elf : Elf} {type : EnvType}
    (hrun : envCreate elf type s = .ok () s') : ∃ e v, Created type s s' e v := by
  obtain ⟨r, t, hr, hrest⟩ := bind_inv hrun
  have ht : Allocated 0#32 s r t := wp_ok (envAlloc_table 0#32 s) hr
  cases r with
  | error r =>
    dsimp only at hrest
    split at hrest
    · cases hrest
    · cases hrest
  | ok e =>
    obtain ⟨hhead, d, hfr⟩ := ht
    rw [envCreate_ok hr] at hrun
    have hload := wp_ok (loadIcode_table e elf (t.typed e type)) hrun
    have htable := hfr.table
    have hself : t.envs e = (s.allocEnv 0#32 e d).envs e := by rw [hfr.envs]
    have hold : (s.allocEnv 0#32 e d).envs e = { s.envs e with
        envPgdir := some d, envId := nextEnvId (s.envs e).envId e, envParentId := 0#32,
        envType := .user, envStatus := .runnable, envRuns := 0#32, envTf := freshTf,
        envPgfaultUpcall := 0#32, envIpcRecving := false,
        envE1000WaitingRx := false } := update_self ..
    refine ⟨e, { t.envs e with
      envType := type
      envTf := { (t.envs e).envTf with
        tfEflags := if type = .fs then (t.envs e).envTf.tfEflags ||| FL_IOPL_3
          else (t.envs e).envTf.tfEflags
        tfEip := elf.eEntry } }, hhead, ?_, ?_, fun c => ?_, fun c => ?_, ?_, ?_, ?_, ?_, ?_, ?_⟩
    · rw [hload.envs]
      simp only [Kernel.typed, Kernel.setEnv, update_self, update_idem,
        hfr.envs]
      simp only [Kernel.allocEnv, update_self, update_idem]
    · exact hload.envFreeList.trans hfr.envFreeList
    · exact (hload.cpuEnv c).trans (htable.cpuEnv c)
    · exact (hload.cpuStatus c).trans (htable.cpuStatus c)
    · rw [hload.fsKin]
      show update t.fsKin e _ = _
      rw [hfr.fsKin]
      exact update_idem ..
    · rw [hself, hold]
    · rw [hself, hold]
      simp
    · rw [hself, hold]
    · rw [hself, hold]
      rfl
    · rw [hself, hold]
      rfl

/-- What the first environments keep: anything that creating one keeps. -/
theorem Init.inv {I : Kernel → Prop} (hboot : ∀ (b : BootInfo) (s : Kernel), BootState b s → I s)
    (hcreate : ∀ type s s' e v, I s → Created type s s' e v → I s') (h : Init s) : I s := by
  obtain ⟨b, progs, s₀, hb, hrun⟩ := h
  have h₀ := hboot b s₀ (hb.spec b.maps_above).1
  clear hb
  induction progs generalizing s₀ with
  | nil =>
    cases hrun
    exact h₀
  | cons p ps ih =>
    obtain ⟨elf, type⟩ := p
    obtain ⟨_, t, hp, hps⟩ := bind_inv hrun
    obtain ⟨e, v, hc⟩ := envCreate_created hp
    exact ih t hps (hcreate type s₀ t e v h₀ hc)

end Jos
