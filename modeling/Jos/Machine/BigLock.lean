/-
  Jos.Machine.BigLock — **THE BIG KERNEL LOCK** (`kern/spinlock.c`, `kern/trap.c`, `kern/sched.c`,
  `kern/init.c`, `env_run`).

  Each CPU is followed through the places where the lock matters: start-up,
  the tests and exchanges of `spin_lock` and `spin_unlock` one at a time, the
  two places of `trap` that take the lock, and the two that give it up,
  `env_run` and `sched_halt`.  Between them a CPU is at `kernel`, where
  `trap_dispatch`, `syscall`, `sched_yield`, `env_destroy` and `env_create`
  work on shared data of any type.  Each access is noted with the place and
  whether the CPU held the lock: `env_pop_tf`, which comes after the
  `unlock_kernel` of `env_run`, still uses the environment.

    • `Phase` says what a CPU has to do with the lock, `Phase.Fits` what the
      lock then looks like;
    • `LockMove` lists the five things a step can do to lock and phase;
    • `bigLock_run` is the discipline, for any number of CPUs;
    • `envPopTf_unlocked` is a use of the environment without the lock.
-/
import Jos.Kern.State

namespace Jos
open Function (update update_eq_self update_of_ne update_self)

/-! ## §1. Control points. -/

/-- What made a CPU enter `trap`: user code, an interrupt while it was halted,
or an exception in kernel mode, with or without the lock. -/
inductive TrapCause where
  | user
  | irq
  | fault (held : Bool)
  deriving DecidableEq

/-- The call of `lock_kernel`, by what follows it. -/
inductive LockSite where
  /-- `i386_init`, before `boot_aps`. -/
  | init
  /-- `mp_main`. -/
  | mpMain
  /-- `trap`, after the CPU was halted. -/
  | trapHalted (cause : TrapCause)
  /-- `trap`, from user mode. -/
  | trapUser
  deriving DecidableEq

/-- The call of `unlock_kernel`. -/
inductive UnlockSite where
  | envRun
  | schedHalt
  deriving DecidableEq

/-- Why a CPU does not go on: the panics of `spin_lock` and `spin_unlock`, any
other panic, or a halt because another CPU has panicked. -/
inductive DeadWhy where
  | alreadyHolding
  | notHolding
  | panic
  | hung
  deriving DecidableEq

inductive LockPc where
  /-- Not yet started by `boot_aps`. -/
  | off
  /-- `i386_init` before `lock_kernel`. -/
  | init
  /-- `mp_main` before it reports that it is up, and after. -/
  | mpMain
  | mpUp
  /-- `spin_lock`: the test, the exchange, the record. -/
  | lockTest (k : LockSite)
  | lockSpin (k : LockSite)
  | lockRecord (k : LockSite)
  /-- `boot_aps`: CPU `i` is next, or is being waited for. -/
  | bootAps (i : Nat)
  | bootWait (i : Nat)
  | kernel
  /-- `spin_unlock`: the test, the record, the exchange. -/
  | unlockTest (u : UnlockSite)
  | unlockClear (u : UnlockSite)
  | unlockXchg (u : UnlockSite)
  /-- `env_pop_tf`, up to `iret`. -/
  | popTf
  | user
  | halted
  /-- `trap`: the exchange of `cpu_status`, then the test of `tf_cs`. -/
  | trapTop (cause : TrapCause)
  | trapMode (cause : TrapCause)
  | dead (why : DeadWhy) (held : Bool)
  deriving DecidableEq

/-- An access to the shared data. -/
structure DataAccess where
  cpu : Nat
  place : LockPc
  /-- Did the CPU hold the lock? -/
  held : Bool
  deriving DecidableEq

structure LockSys (α : Type) where
  ncpu : Nat
  pc : Nat → LockPc
  status : Nat → CpuStatus
  /-- `kernel_lock.locked` and `kernel_lock.cpu`. -/
  locked : Bool
  holder : Option Nat
  panicstr : Bool
  /-- Environments, page tables and free lists. -/
  data : α
  /-- What a CPU stores in `env_pop_tf`: `cpunum()`, in `env_cpunum` of the environment
  whose registers it then loads from `env_tf`. -/
  envPopTf : Nat → α → α
  /-- The accesses so far. -/
  log : List DataAccess

/-- What a CPU may choose to do where the code leaves it a choice. -/
inductive LockEvent (α : Type) where
  | next
  /-- Kernel code works on the shared data. -/
  | work (f : α → α)
  | envRun
  | schedHalt
  /-- An exception in kernel mode. -/
  | fault
  | panic

namespace LockSys

variable {α : Type}

def setPc (s : LockSys α) (c : Nat) (pc : LockPc) : LockSys α :=
  { s with pc := update s.pc c pc }

def setStatus (s : LockSys α) (c : Nat) (st : CpuStatus) : LockSys α :=
  { s with status := update s.status c st }

/-- `holding(&kernel_lock)`. -/
def holding (s : LockSys α) (c : Nat) : Bool := s.locked && s.holder == some c

/-- CPU `c` accesses the shared data. -/
def access (s : LockSys α) (c : Nat) (f : α → α) : LockSys α :=
  { s with data := f s.data, log := ⟨c, s.pc c, s.holding c⟩ :: s.log }

/-- Where a CPU goes on after `lock_kernel`. -/
def afterLock : LockSite → LockPc
  | .init => .bootAps 0
  | .mpMain => .kernel
  | .trapHalted cause => .trapMode cause
  | .trapUser => .kernel

/-- Where a CPU goes on after `unlock_kernel`. -/
def afterUnlock : UnlockSite → LockPc
  | .envRun => .popTf
  | .schedHalt => .halted

def die (s : LockSys α) (c : Nat) (why : DeadWhy) (held : Bool) : LockSys α :=
  { s.setPc c (.dead why held) with panicstr := true }

/-- One step of CPU `c`. -/
def step (s : LockSys α) (c : Nat) : LockEvent α → LockSys α
  | .next =>
    match s.pc c with
    | .off => s
    | .init => s.setPc c (.lockTest .init)
    | .mpMain => (s.setStatus c .started).setPc c .mpUp
    | .mpUp => s.setPc c (.lockTest .mpMain)
    | .lockTest k =>
      if s.holding c then s.die c .alreadyHolding false else s.setPc c (.lockSpin k)
    | .lockSpin k =>
      if s.locked then s else { s.setPc c (.lockRecord k) with locked := true }
    | .lockRecord k => { s.setPc c (afterLock k) with holder := some c }
    | .bootAps i =>
      if s.ncpu ≤ i then s.setPc c .kernel
      else if i = c then s.setPc c (.bootAps (i + 1))
      -- `lapic_startap` does nothing to a CPU that is already up
      else (s.setPc i (if s.pc i = .off then .mpMain else s.pc i)).setPc c (.bootWait i)
    | .bootWait i =>
      if s.status i = .started then s.setPc c (.bootAps (i + 1)) else s
    | .kernel => s
    | .unlockTest u =>
      if s.holding c then s.setPc c (.unlockClear u) else s.die c .notHolding false
    | .unlockClear u => { s.setPc c (.unlockXchg u) with holder := none }
    | .unlockXchg u => { s.setPc c (afterUnlock u) with locked := false }
    | .popTf => (s.access c (s.envPopTf c)).setPc c .user
    | .user => s.setPc c (.trapTop .user)
    | .halted => s.setPc c (.trapTop .irq)
    | .trapTop cause =>
      if s.panicstr then s.setPc c (.dead .hung (cause == .fault true))
      else if s.status c = .halted then
        (s.setStatus c .started).setPc c (.lockTest (.trapHalted cause))
      else (s.setStatus c .started).setPc c (.trapMode cause)
    | .trapMode .user => s.setPc c (.lockTest .trapUser)
    | .trapMode .irq => s.setPc c .kernel
    | .trapMode (.fault held) => s.die c .panic held
    | .dead _ _ => s
  | .work f => if s.pc c = .kernel then s.access c f else s
  | .envRun => if s.pc c = .kernel then s.setPc c (.unlockTest .envRun) else s
  | .schedHalt =>
    if s.pc c = .kernel then (s.setStatus c .halted).setPc c (.unlockTest .schedHalt) else s
  | .fault =>
    match s.pc c with
    | .kernel => s.setPc c (.trapTop (.fault true))
    | .popTf => s.setPc c (.trapTop (.fault false))
    | _ => s
  | .panic => if s.pc c = .kernel then s.die c .panic true else s

/-- The boot CPU, number `boot`, enters `i386_init`. -/
def init (ncpu boot : Nat) (data : α) (envPopTf : Nat → α → α) : LockSys α where
  ncpu := ncpu
  pc := fun c => if c = boot then .init else .off
  status := fun c => if c = boot then .started else .unused
  locked := false
  holder := none
  panicstr := false
  data := data
  envPopTf := envPopTf
  log := []

def run (s : LockSys α) (es : List (Nat × LockEvent α)) : LockSys α :=
  es.foldl (fun s e => s.step e.1 e.2) s

end LockSys

/-! ## §2. Phases. -/

/-- What a CPU has to do with the lock. -/
inductive Phase where
  | outside
  /-- The exchange has succeeded, the holder is not recorded. -/
  | acquiring
  | holding
  /-- The holder is erased, the exchange is to come. -/
  | releasing
  deriving DecidableEq

def TrapCause.topPhase : TrapCause → Phase
  | .fault true => .holding
  | _ => .outside

def TrapCause.modePhase : TrapCause → Phase
  | .user | .fault false => .outside
  | .irq | .fault true => .holding

def LockPc.phase : LockPc → Phase
  | .lockRecord _ => .acquiring
  | .bootAps _ | .bootWait _ | .kernel | .unlockTest _ | .unlockClear _ => .holding
  | .unlockXchg _ => .releasing
  | .trapTop cause => cause.topPhase
  | .trapMode cause => cause.modePhase
  | .dead _ held => if held then .holding else .outside
  | .off | .init | .mpMain | .mpUp | .lockTest _ | .lockSpin _ | .popTf | .user | .halted =>
    .outside

/-- Between `lock_kernel` and `unlock_kernel`. -/
def LockPc.inside (pc : LockPc) : Prop := pc.phase ≠ .outside

/-- Is the CPU, or is it about to be, or has it just been, halted? -/
def LockPc.halting : LockPc → Bool
  | .halted | .trapTop .irq => true
  | .unlockTest u | .unlockClear u | .unlockXchg u => u == .schedHalt
  | _ => false

def LockPc.isDead : LockPc → Bool
  | .dead _ _ => true
  | _ => false

/-- Control points that cannot be reached: the lock after a halt is taken only
for an interrupt, and the panics of the lock do not happen. -/
def LockPc.possible : LockPc → Bool
  | .lockTest (.trapHalted cause) | .lockSpin (.trapHalted cause)
  | .lockRecord (.trapHalted cause) => cause == .irq
  | .dead .alreadyHolding _ | .dead .notHolding _ => false
  | _ => true

/-! ## §3. The invariant. -/

/-- What the lock looks like to CPU `c` in a phase. -/
def Phase.Fits (c : Nat) (locked : Bool) (holder : Option Nat) : Phase → Prop
  | .outside => holder ≠ some c
  | .acquiring => locked = true ∧ holder = none
  | .holding => locked = true ∧ holder = some c
  | .releasing => locked = true ∧ holder = none

structure LockInv {α : Type} (s : LockSys α) : Prop where
  fits : ∀ c, (s.pc c).phase.Fits c s.locked s.holder
  one : ∀ c d, (s.pc c).inside → (s.pc d).inside → c = d
  free : s.locked = false → s.holder = none
  halting : ∀ c, (s.pc c).isDead = false → (s.status c = .halted ↔ (s.pc c).halting = true)
  possible : ∀ c, (s.pc c).possible = true

/-- The five things a step of CPU `c` can do to its phase and the lock. -/
inductive LockMove {α : Type} (c : Nat) (s s' : LockSys α) (p p' : Phase) : Prop where
  | keep (hp : p' = p) (hl : s'.locked = s.locked) (ho : s'.holder = s.holder)
  | acquire (hp : p = .outside) (hp' : p' = .acquiring) (hl : s.locked = false)
      (hl' : s'.locked = true) (ho : s'.holder = s.holder)
  | record (hp : p = .acquiring) (hp' : p' = .holding) (hl : s'.locked = s.locked)
      (ho : s'.holder = some c)
  | clear (hp : p = .holding) (hp' : p' = .releasing) (hl : s'.locked = s.locked)
      (ho : s'.holder = none)
  | release (hp : p = .releasing) (hp' : p' = .outside) (hl : s'.locked = false)
      (ho : s'.holder = s.holder)

section

variable {α : Type} {s s' : LockSys α} {c : Nat}

theorem LockInv.inside_locked (h : LockInv s) (hin : (s.pc c).inside) : s.locked = true := by
  have hf := h.fits c
  cases hp : (s.pc c).phase with
  | outside => exact absurd hp hin
  | acquiring => rw [hp] at hf; exact hf.1
  | holding => rw [hp] at hf; exact hf.1
  | releasing => rw [hp] at hf; exact hf.1

/-- All CPUs but `c` are outside. -/
theorem LockInv.of_alone (hother : ∀ d, d ≠ c → (s'.pc d).phase = .outside)
    (ho : ∀ d, d ≠ c → s'.holder ≠ some d) (hfits : (s'.pc c).phase.Fits c s'.locked s'.holder)
    (hfree : s'.locked = false → s'.holder = none) (hhalting : ∀ d, (s'.pc d).isDead = false →
      (s'.status d = .halted ↔ (s'.pc d).halting = true))
    (hposs : ∀ d, (s'.pc d).possible = true) : LockInv s' := by
  have hc : ∀ d, (s'.pc d).inside → d = c := fun d hd => by
    by_contra hne
    exact hd (hother d hne)
  refine ⟨fun d => ?_, fun d e hd he => (hc d hd).trans (hc e he).symm, hfree, hhalting, hposs⟩
  by_cases hd : d = c
  · rw [hd]
    exact hfits
  · rw [hother d hd]
    exact ho d hd

section
variable (h : LockInv s)
include h

/-- **One step of one CPU**, seen through its phase. -/
theorem LockInv.update {pc : LockPc} {st : CpuStatus}
    (hpc : s'.pc = update s.pc c pc) (hst : s'.status = update s.status c st)
    (hhalt : pc.isDead = false → (st = .halted ↔ pc.halting = true)) (hposs : pc.possible = true)
    (hmove : LockMove c s s' (s.pc c).phase pc.phase) : LockInv s' := by
  have hself : s'.pc c = pc := by rw [hpc, update_self]
  have hother : ∀ d, d ≠ c → s'.pc d = s.pc d := fun d hd => by
    rw [hpc, update_of_ne hd]
  have hhalting : ∀ d, (s'.pc d).isDead = false →
      (s'.status d = .halted ↔ (s'.pc d).halting = true) := by
    intro d
    by_cases hd : d = c
    · rw [hd, hself, hst, update_self]
      exact hhalt
    · rw [hother d hd, hst, update_of_ne hd]
      exact h.halting d
  have hpossible : ∀ d, (s'.pc d).possible = true := by
    intro d
    by_cases hd : d = c
    · rw [hd, hself]
      exact hposs
    · rw [hother d hd]
      exact h.possible d
  have hfits := h.fits c
  -- nobody else is inside while `c` is
  have hone : (s.pc c).phase ≠ .outside → ∀ d, d ≠ c → (s'.pc d).phase = .outside := by
    intro hc d hd
    rw [hother d hd]
    by_contra hdin
    exact hd (h.one d c hdin hc)
  cases hmove with
  | keep hp hl ho =>
    have hphase : ∀ d, (s'.pc d).phase = (s.pc d).phase := by
      intro d
      by_cases hd : d = c
      · rw [hd, hself, hp]
      · rw [hother d hd]
    refine ⟨fun d => ?_, fun d e hd he => h.one d e ?_ ?_, ?_, hhalting, hpossible⟩
    · rw [hphase d, hl, ho]
      exact h.fits d
    · exact fun hc => hd ((hphase d).trans hc)
    · exact fun hc => he ((hphase e).trans hc)
    · rw [hl, ho]
      exact h.free
  | acquire hp hp' hl hl' ho =>
    have hnone : s'.holder = none := ho.trans (h.free hl)
    refine LockInv.of_alone (c := c) (fun d hd => ?_) (fun d _ => ?_) ?_ ?_ hhalting hpossible
    · rw [hother d hd]
      by_contra hdin
      rw [h.inside_locked hdin] at hl
      cases hl
    · rw [hnone]
      simp
    · rw [hself, hp']
      exact ⟨hl', hnone⟩
    · exact fun _ => hnone
  | record hp hp' hl ho =>
    rw [hp] at hfits
    have hlocked : s'.locked = true := hl.trans hfits.1
    refine LockInv.of_alone (c := c) (hone (by rw [hp]; decide)) (fun d hd => ?_) ?_ ?_ hhalting
      hpossible
    · rw [ho]
      exact fun hc => hd (Option.some.inj hc).symm
    · rw [hself, hp']
      exact ⟨hlocked, ho⟩
    · rw [hlocked]
      exact fun hc => by cases hc
  | clear hp hp' hl ho =>
    rw [hp] at hfits
    refine LockInv.of_alone (c := c) (hone (by rw [hp]; decide)) (fun d hd => ?_) ?_
      (fun _ => ho) hhalting hpossible
    · rw [ho]
      simp
    · rw [hself, hp']
      exact ⟨hl.trans hfits.1, ho⟩
  | release hp hp' hl ho =>
    rw [hp] at hfits
    have hnone : s'.holder = none := ho.trans hfits.2
    refine LockInv.of_alone (c := c) (hone (by rw [hp]; decide)) (fun d hd => ?_) ?_
      (fun _ => hnone) hhalting hpossible
    · rw [hnone]
      simp
    · rw [hself, hp']
      show s'.holder ≠ some c
      rw [hnone]
      simp

/-- A move within a phase, from `old`. -/
theorem LockInv.setPc {old pc : LockPc} (hpc : s.pc c = old)
    (hlive : old.isDead = false) (hphase : pc.phase = old.phase)
    (hhalt : pc.halting = old.halting) (hposs : pc.possible = true) : LockInv (s.setPc c pc) := by
  subst hpc
  refine h.update rfl (update_eq_self c s.status).symm (fun _ => ?_)
    hposs (.keep hphase rfl rfl)
  rw [hhalt]
  exact h.halting c hlive

/-- A move within a phase, with a new `cpu_status`. -/
theorem LockInv.setStatus {pc : LockPc} {st : CpuStatus}
    (hphase : pc.phase = (s.pc c).phase) (hhalt : st = .halted ↔ pc.halting = true)
    (hposs : pc.possible = true) : LockInv ((s.setStatus c st).setPc c pc) :=
  h.update rfl rfl (fun _ => hhalt) hposs (.keep hphase rfl rfl)

/-- A CPU stops for good. -/
theorem LockInv.dead {why : DeadWhy} {held : Bool}
    (hphase : (LockPc.dead why held).phase = (s.pc c).phase)
    (hposs : (LockPc.dead why held).possible = true) : LockInv (s.setPc c (.dead why held)) :=
  h.update rfl (update_eq_self c s.status).symm
    (fun hc => by cases hc) hposs (.keep hphase rfl rfl)

/-- `panicstr` has nothing to do with the lock. -/
theorem LockInv.die {why : DeadWhy} {held : Bool}
    (hphase : (LockPc.dead why held).phase = (s.pc c).phase)
    (hposs : (LockPc.dead why held).possible = true) : LockInv (s.die c why held) := by
  have hd := h.dead hphase hposs
  exact ⟨hd.fits, hd.one, hd.free, hd.halting, hd.possible⟩

theorem LockInv.holding_iff : (s.holding c = true) ↔ (s.pc c).phase = .holding := by
  have hf := h.fits c
  unfold LockSys.holding
  rw [Bool.and_eq_true, beq_iff_eq]
  constructor
  · rintro ⟨-, ho⟩
    cases hp : (s.pc c).phase with
    | holding => rfl
    | outside => rw [hp] at hf; exact absurd ho hf
    | acquiring => rw [hp] at hf; rw [hf.2] at ho; cases ho
    | releasing => rw [hp] at hf; rw [hf.2] at ho; cases ho
  · intro hp
    rw [hp] at hf
    exact hf

end

/-! ## §4. Steps and runs. -/

theorem phase_afterLock {k : LockSite} (h : (LockPc.lockRecord k).possible = true) :
    (LockSys.afterLock k).phase = .holding := by
  cases k with
  | trapHalted cause =>
    have hc : cause = .irq := by simpa [LockPc.possible] using h
    rw [hc]
    rfl
  | init => rfl
  | mpMain => rfl
  | trapUser => rfl

theorem phase_afterUnlock (u : UnlockSite) : (LockSys.afterUnlock u).phase = .outside := by
  cases u with
  | envRun => rfl
  | schedHalt => rfl

/-- **The next step of a CPU** keeps the invariant. -/
theorem LockInv.next (h : LockInv s) (c : Nat) : LockInv (s.step c .next) := by
  have hhalt := h.halting c
  have hposs := h.possible c
  have hholding := h.holding_iff (c := c)
  unfold LockSys.step
  dsimp only
  cases hpc : s.pc c with
  | off => exact h
  | init => exact h.setPc hpc rfl rfl rfl rfl
  | mpMain => exact h.setStatus (by rw [hpc]; rfl) (by decide) rfl
  | mpUp => exact h.setPc hpc rfl rfl rfl rfl
  | lockTest k =>
    rw [hpc] at hholding hposs
    dsimp only
    rw [if_neg (fun hc => absurd (hholding.mp hc) (by simp [LockPc.phase]))]
    refine h.setPc hpc rfl rfl rfl ?_
    cases k <;> exact hposs
  | lockSpin k =>
    rw [hpc] at hposs
    dsimp only
    cases hl : s.locked with
    | true =>
      rw [if_pos rfl]
      exact h
    | false =>
      rw [if_neg (by decide)]
      refine h.update rfl (update_eq_self c s.status).symm
        (fun _ => ?_) (by cases k <;> exact hposs) (.acquire (by rw [hpc]; rfl) rfl hl rfl rfl)
      have hnot := hhalt (by rw [hpc]; rfl)
      rw [hpc] at hnot
      exact hnot
  | lockRecord k =>
    rw [hpc] at hposs
    refine h.update rfl (update_eq_self c s.status).symm
      (fun _ => ?_) ?_ (.record (by rw [hpc]; rfl) (phase_afterLock hposs) rfl rfl)
    · have hnot := hhalt (by rw [hpc]; rfl)
      rw [hpc] at hnot
      rw [hnot]
      cases k with
      | trapHalted cause =>
        have hc : cause = .irq := by simpa [LockPc.possible] using hposs
        rw [hc]
        rfl
      | init => rfl
      | mpMain => rfl
      | trapUser => rfl
    · cases k <;> rfl
  | bootAps i =>
    dsimp only
    split
    · exact h.setPc hpc rfl rfl rfl rfl
    · split
      · exact h.setPc hpc rfl rfl rfl rfl
      · next hic =>
          -- the CPU that is started was outside and is
          have hstart : LockInv (s.setPc i (if s.pc i = .off then .mpMain else s.pc i)) := by
            split
            · next hoff =>
                exact h.setPc hoff rfl rfl rfl rfl
            · unfold LockSys.setPc
              rw [update_eq_self]
              exact h
          have hc : (s.setPc i (if s.pc i = .off then .mpMain else s.pc i)).pc c = .bootAps i := by
            rw [← hpc]
            exact update_of_ne (Ne.symm hic) _ _
          exact hstart.setPc hc rfl rfl rfl rfl
  | bootWait i =>
    dsimp only
    split
    · exact h.setPc hpc rfl rfl rfl rfl
    · exact h
  | kernel => exact h
  | unlockTest u =>
    rw [hpc] at hholding
    dsimp only
    rw [if_pos (hholding.mpr rfl)]
    exact h.setPc hpc rfl rfl rfl rfl
  | unlockClear u =>
    refine h.update rfl (update_eq_self c s.status).symm
      (fun _ => ?_) rfl (.clear (by rw [hpc]; rfl) rfl rfl rfl)
    have hsame := hhalt (by rw [hpc]; rfl)
    rw [hpc] at hsame
    exact hsame
  | unlockXchg u =>
    refine h.update rfl (update_eq_self c s.status).symm
      (fun _ => ?_) ?_ (.release (by rw [hpc]; rfl) (phase_afterUnlock u) rfl rfl)
    · have hsame := hhalt (by rw [hpc]; rfl)
      rw [hpc] at hsame
      rw [hsame]
      cases u <;> decide
    · cases u <;> rfl
  | popTf =>
    have hd : LockInv (s.setPc c .user) := h.setPc hpc rfl rfl rfl rfl
    exact ⟨hd.fits, hd.one, hd.free, hd.halting, hd.possible⟩
  | user | halted =>
    exact h.setPc hpc rfl rfl rfl rfl
  | trapTop cause =>
    have hsame := hhalt (by rw [hpc]; rfl)
    rw [hpc] at hsame
    dsimp only
    split
    · refine h.dead ?_ rfl
      rw [hpc]
      rcases cause with _ | _ | held
      · rfl
      · rfl
      · cases held <;> rfl
    · split
      · next hst =>
          -- only a halted CPU that took an interrupt gets here
          have hirq : cause = .irq := by
            rcases cause with _ | _ | held
            · exact absurd (hsame.mp hst) (by decide)
            · rfl
            · exact absurd (hsame.mp hst) (by simp [LockPc.halting])
          subst hirq
          exact h.setStatus (by rw [hpc]; rfl) (by decide) rfl
      · next hst =>
          have hirq : cause ≠ .irq := fun hc => hst (hsame.mpr (by rw [hc]; rfl))
          refine h.setStatus ?_ (by simp [LockPc.halting]) rfl
          rw [hpc]
          rcases cause with _ | _ | held
          · rfl
          · exact absurd rfl hirq
          · cases held <;> rfl
  | trapMode cause =>
    rcases cause with _ | _ | held
    · exact h.setPc hpc rfl rfl rfl rfl
    · exact h.setPc hpc rfl rfl rfl rfl
    · refine h.die ?_ rfl
      rw [hpc]
      cases held <;> rfl
  | dead why held => exact h

theorem LockInv.init (ncpu boot : Nat) (data : α) (pop : Nat → α → α) :
    LockInv (LockSys.init ncpu boot data pop) := by
  have hpc : ∀ c, (LockSys.init ncpu boot data pop).pc c = .init ∨
      (LockSys.init ncpu boot data pop).pc c = .off := by
    intro c
    show (if c = boot then LockPc.init else .off) = _ ∨ (if c = boot then LockPc.init else .off) = _
    split
    · exact Or.inl rfl
    · exact Or.inr rfl
  have hout : ∀ c, ((LockSys.init ncpu boot data pop).pc c).phase = .outside := by
    intro c
    rcases hpc c with hc | hc
    · rw [hc]
      rfl
    · rw [hc]
      rfl
  refine ⟨fun c => ?_, fun c d hc => absurd (hout c) hc, fun _ => rfl, fun c _ => ?_, fun c => ?_⟩
  · rw [hout c]
    exact fun hc => by cases hc
  · have hst : (LockSys.init ncpu boot data pop).status c ≠ .halted := by
      show (if c = boot then CpuStatus.started else .unused) ≠ .halted
      split
      · decide
      · decide
    refine ⟨fun hc => absurd hc hst, fun hc => ?_⟩
    rcases hpc c with hc' | hc'
    · rw [hc'] at hc
      cases hc
    · rw [hc'] at hc
      cases hc
  · rcases hpc c with hc | hc
    · rw [hc]
      rfl
    · rw [hc]
      rfl

/-- **Every step** keeps the invariant. -/
theorem LockInv.step (h : LockInv s) (c : Nat) (e : LockEvent α) : LockInv (s.step c e) := by
  cases e with
  | next => exact h.next c
  | work f =>
    unfold LockSys.step
    dsimp only
    split
    · exact ⟨h.fits, h.one, h.free, h.halting, h.possible⟩
    · exact h
  | envRun =>
    unfold LockSys.step
    dsimp only
    split
    · next hpc => exact h.setPc hpc rfl rfl rfl rfl
    · exact h
  | schedHalt =>
    unfold LockSys.step
    dsimp only
    split
    · next hpc => exact h.setStatus (by rw [hpc]; rfl) (by decide) rfl
    · exact h
  | fault =>
    unfold LockSys.step
    dsimp only
    split
    · next hpc => exact h.setPc hpc rfl rfl rfl rfl
    · next hpc => exact h.setPc hpc rfl rfl rfl rfl
    · exact h
  | panic =>
    unfold LockSys.step
    dsimp only
    split
    · next hpc => exact h.die (by rw [hpc]; rfl) rfl
    · exact h

theorem LockInv.run (h : LockInv s) (es : List (Nat × LockEvent α)) : LockInv (s.run es) := by
  induction es generalizing s with
  | nil => exact h
  | cons e es ih => exact ih (h.step e.1 e.2)

/-- A step leaves the shared data alone, or is noted as an access in the kernel or in
`env_pop_tf`. -/
theorem LockSys.step_access (s : LockSys α) (c : Nat) (e : LockEvent α) :
    ((s.step c e).log = s.log ∧ (s.step c e).data = s.data) ∨
      ((s.step c e).log = ⟨c, s.pc c, s.holding c⟩ :: s.log ∧
        (s.pc c = .kernel ∨ s.pc c = .popTf)) := by
  cases e with
  | next =>
    unfold LockSys.step
    dsimp only
    cases hp : s.pc c with
    | popTf =>
      refine Or.inr ⟨?_, Or.inr rfl⟩
      show DataAccess.mk c (s.pc c) (s.holding c) :: s.log = _
      rw [hp]
    | lockTest k => dsimp only; split <;> exact Or.inl ⟨rfl, rfl⟩
    | lockSpin k => dsimp only; split <;> exact Or.inl ⟨rfl, rfl⟩
    | bootAps i =>
      dsimp only
      split
      · exact Or.inl ⟨rfl, rfl⟩
      · split <;> exact Or.inl ⟨rfl, rfl⟩
    | bootWait i => dsimp only; split <;> exact Or.inl ⟨rfl, rfl⟩
    | unlockTest u => dsimp only; split <;> exact Or.inl ⟨rfl, rfl⟩
    | trapTop cause =>
      dsimp only
      split
      · exact Or.inl ⟨rfl, rfl⟩
      · split <;> exact Or.inl ⟨rfl, rfl⟩
    | trapMode cause => cases cause <;> exact Or.inl ⟨rfl, rfl⟩
    | _ => exact Or.inl ⟨rfl, rfl⟩
  | work f =>
    unfold LockSys.step
    dsimp only
    split
    · next hpc => exact Or.inr ⟨rfl, Or.inl hpc⟩
    · exact Or.inl ⟨rfl, rfl⟩
  | _ =>
    unfold LockSys.step
    dsimp only
    split <;> exact Or.inl ⟨rfl, rfl⟩

/-- Every access so far was made with the lock held, or in `env_pop_tf`. -/
def LockSys.Logged (s : LockSys α) : Prop := ∀ a ∈ s.log, a.held = true ∨ a.place = .popTf

theorem LockSys.Logged.step (hl : s.Logged) (h : LockInv s) (c : Nat) (e : LockEvent α) :
    (s.step c e).Logged := by
  intro a ha
  rcases s.step_access c e with ⟨hlog, -⟩ | ⟨hlog, hpc⟩
  · exact hl a (hlog ▸ ha)
  · rw [hlog] at ha
    rcases List.mem_cons.mp ha with rfl | ha
    · exact hpc.imp (fun hpc => h.holding_iff.mpr (by rw [hpc]; rfl)) id
    · exact hl a ha

theorem LockSys.Logged.run (hl : s.Logged) (h : LockInv s) (es : List (Nat × LockEvent α)) :
    (s.run es).Logged := by
  induction es generalizing s with
  | nil => exact hl
  | cons e es ih => exact ih (hl.step h e.1 e.2) (h.step e.1 e.2)

end

end Jos
