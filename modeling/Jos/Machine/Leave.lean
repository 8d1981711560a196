/-
  Jos.Machine.Leave — **HOW A CPU LEAVES THE KERNEL.**

  `env_run(e)` and `sched_yield()` do not return.  `Leave s x s'` lists all
  that can happen from state `s`: an environment runs (`user`), the CPU halts,
  the monitor takes over, or `env_run` was called on a slot without a page
  directory and `PADDR` stops the kernel.
-/
import Jos.Env.Alloc

namespace Jos

open Exec

variable {s : Kernel} {e : Nat}

/-! ## §1. `env_run`. -/

/-- The environment that gives up the CPU is runnable again. -/
def Kernel.demote (s : Kernel) : Kernel :=
  { s with envs := fun i =>
      if s.curenv = some i ∧ (s.envs i).envStatus = .running then
        { s.envs i with envStatus := .runnable }
      else s.envs i }

@[simp] theorem Kernel.demote_cpunum (s : Kernel) : s.demote.cpunum = s.cpunum := (rfl)

@[simp] theorem Kernel.demote_cpus (s : Kernel) : s.demote.cpus = s.cpus := rfl

/-- This CPU runs `e`, whose directory is `d`. -/
def Kernel.runs (s : Kernel) (e d : Nat) : Kernel :=
  (s.demote.setEnv e { s.envs e with
    envStatus := .running, envRuns := (s.envs e).envRuns + 1, envCpunum := s.cpunum }).setCpu
      { s.cpus s.cpunum with
        cpuEnv := some e, cr3 := d, regs := (s.envs e).envTf, tlb := fun _ => none }

/-- `env_run` after the old environment has been looked after. -/
def envRunRest (e : Nat) : KM Unit := do
  modify fun s => s.setCurenv (some e)
  modifyEnv e fun env => { env with envStatus := .running, envRuns := env.envRuns + 1 }
  lcr3 (← paddr ((← get).envs e).envPgdir)
  envPopTf ((← get).envs e).envTf

theorem envRun_demote (s : Kernel) (e : Nat) : envRun e s = envRunRest e s.demote := by
  unfold envRun
  rw [bind_get]
  cases hcur : s.curenv with
  | none =>
    have hsame : s.demote = s := by
      unfold Kernel.demote
      simp [hcur]
    rw [hsame]
    rfl
  | some c =>
    show ((get : KM Kernel) >>= _) s = _
    rw [bind_get]
    by_cases hst : (s.envs c).envStatus = .running
    · rw [if_pos hst]
      have hdem : s.demote = s.setEnv c { s.envs c with envStatus := .runnable } := by
        unfold Kernel.demote Kernel.setEnv
        congr 1
        funext i
        by_cases hi : i = c
        · subst hi
          simp [hcur, hst]
        · rw [Function.update_of_ne hi, if_neg]
          rintro ⟨hci, -⟩
          rw [hcur] at hci
          exact hi (Option.some.inj hci).symm
      rw [hdem]
      rfl
    · rw [if_neg hst]
      have hdem : s.demote = s := by
        unfold Kernel.demote
        congr 1
        funext i
        rw [if_neg]
        rintro ⟨hci, hsi⟩
        rw [hcur] at hci
        cases hci
        exact hst hsi
      rw [hdem]
      rfl

/-- Only its status changes. -/
theorem demote_env (s : Kernel) (i : Nat) :
    ∃ st, s.demote.envs i = { s.envs i with envStatus := st } := by
  unfold Kernel.demote
  dsimp only
  split
  · exact ⟨_, rfl⟩
  · exact ⟨_, rfl⟩

/-- `env_pop_tf` loads the frame of the environment that is about to run. -/
theorem envPopTf_user (hcur : s.curenv = some e) (tf : Trapframe) :
    envPopTf tf s = .error .user ((s.setEnv e { s.envs e with envCpunum := s.cpunum }).setCpu
      { s.cpus s.cpunum with regs := tf }) := by
  unfold envPopTf
  rw [bind_ok (derefCurenv_ok hcur)]
  rfl

/-- `env_run(e)` up to the load of `cr3`. -/
def Kernel.claims (s : Kernel) (e : Nat) : Kernel :=
  (s.setEnv e { s.envs e with
    envStatus := .running, envRuns := (s.envs e).envRuns + 1 }).setCurenv (some e)

theorem envRunRest_eq (s : Kernel) (e : Nat) :
    envRunRest e s = (do
      lcr3 (← paddr (s.envs e).envPgdir)
      envPopTf ((← get).envs e).envTf : KM Unit) (s.claims e) := by
  have hpg : ((s.claims e).envs e).envPgdir = (s.envs e).envPgdir := by
    simp [Kernel.claims, Kernel.setCurenv]
  unfold envRunRest
  rw [bind_ok (show (modify fun s : Kernel => s.setCurenv (some e) : KM PUnit) s
      = .ok () (s.setCurenv (some e)) from rfl),
    bind_ok (show modifyEnv e _ (s.setCurenv (some e)) = .ok () (s.claims e) from rfl),
    bind_get, hpg]

/-- **`env_run(e)`** runs an environment that has a directory. -/
theorem envRun_user {e d : Nat} (hd : (s.envs e).envPgdir = some d) :
    envRun e s = .error .user (s.runs e d) := by
  obtain ⟨st, hst⟩ := demote_env s e
  have hcur : ((s.demote.claims e).setCpu { (s.demote.claims e).cpus s.cpunum with
      cr3 := d, tlb := fun _ => none }).curenv = some e := by
    simp [Kernel.claims, Kernel.setCurenv]
  rw [envRun_demote, envRunRest_eq, hst, hd,
    bind_ok (show paddr (some d) (s.demote.claims e) = .ok d _ from rfl),
    bind_ok (show lcr3 d (s.demote.claims e) = .ok () ((s.demote.claims e).setCpu
      { (s.demote.claims e).cpus s.cpunum with cr3 := d, tlb := fun _ => none }) from rfl),
    bind_get, envPopTf_user hcur]
  simp [Kernel.claims, Kernel.setCurenv, Kernel.runs, hst]

/-- A slot without a directory stops the kernel. -/
theorem envRun_badPaddr (hd : (s.envs e).envPgdir = none) :
    ∃ s', envRun e s = .error badPaddr s' := by
  obtain ⟨st, hst⟩ := demote_env s e
  refine ⟨s.demote.claims e, ?_⟩
  rw [envRun_demote, envRunRest_eq, hst, hd]
  exact bind_error rfl

/-- The records after `env_run(e)`. -/
theorem runs_env (s : Kernel) (e d i : Nat) :
    ∃ n k, (s.runs e d).envs i = { s.envs i with
      envStatus := if i = e then .running
        else if s.curenv = some i ∧ (s.envs i).envStatus = .running then .runnable
        else (s.envs i).envStatus
      envRuns := n
      envCpunum := k } := by
  unfold Kernel.runs
  rw [Kernel.setCpu_envs]
  by_cases hi : i = e
  · subst hi
    rw [Kernel.setEnv_self, if_pos rfl]
    exact ⟨_, _, rfl⟩
  · rw [Kernel.setEnv_of_ne _ _ hi, if_neg hi]
    unfold Kernel.demote
    dsimp only
    split
    · exact ⟨_, _, rfl⟩
    · exact ⟨_, _, rfl⟩

theorem runs_cpu (s : Kernel) (e d : Nat) :
    (s.runs e d).cpus s.cpunum = { s.cpus s.cpunum with
      cpuEnv := some e, cr3 := d, regs := (s.envs e).envTf, tlb := fun _ => none } :=
  Kernel.setCpu_self _ _ rfl

theorem runs_cpu_of_ne (s : Kernel) (e d : Nat) {c : Nat} (hc : c ≠ s.cpunum) :
    (s.runs e d).cpus c = s.cpus c := Kernel.setCpu_of_ne _ _ hc

/-! ## §2. All ways out. -/

/-- This CPU waits for an interrupt. -/
def Kernel.halts (s : Kernel) : Kernel :=
  s.setCpu { s.cpus s.cpunum with
    cpuStatus := .halted, cpuEnv := none, cr3 := s.kernPgdir, tlb := fun _ => none }

/-- The flag of an environment that waits for a packet is cleared. -/
def Kernel.noWait (s : Kernel) (e : Nat) : Kernel :=
  s.setEnv e { s.envs e with envE1000WaitingRx := false }

/-- How the kernel can be left from `s`. -/
inductive Leave (s : Kernel) : Stop → Kernel → Prop where
  /-- The scheduler found a runnable environment. -/
  | runnable {e d : Nat} (he : e < NENV) (hst : (s.envs e).envStatus = .runnable)
      (hd : (s.envs e).envPgdir = some d) : Leave s .user (s.runs e d)
  /-- The current environment goes on. -/
  | resume {e d : Nat} (hcur : s.curenv = some e) (hd : (s.envs e).envPgdir = some d) :
      Leave s .user (s.runs e d)
  /-- An environment that waits for a packet is tried again. -/
  | retry {e d : Nat} (he : e < NENV) (hw : (s.envs e).envE1000WaitingRx = true)
      (hd : (s.envs e).envPgdir = some d) : Leave s .user ((s.noWait e).runs e d)
  | halt : Leave s .halted s.halts
  | monitor : Leave s .monitor s
  /-- `env_run` on a slot without a directory. -/
  | noDir {e : Nat} {s' : Kernel}
      (h : s.curenv = some e ∨ e < NENV ∧
        ((s.envs e).envStatus = .runnable ∨ (s.envs e).envE1000WaitingRx = true))
      (hd : (s.envs e).envPgdir = none) : Leave s badPaddr s'

theorem envRun_leave (h : s.curenv = some e ∨ e < NENV ∧ (s.envs e).envStatus = .runnable) :
    wp (envRun e) (fun _ _ => False) (Leave s) s := by
  cases hd : (s.envs e).envPgdir with
  | some d =>
    refine wp_of_error (envRun_user hd) ?_
    rcases h with hcur | ⟨he, hst⟩
    · exact .resume hcur hd
    · exact .runnable he hst hd
  | none =>
    obtain ⟨s', hrun⟩ := envRun_badPaddr hd
    exact wp_of_error hrun (.noDir (h.imp id (fun h => ⟨h.1, Or.inl h.2⟩)) hd)

/-- How `sched_yield` can leave the kernel: as `Leave`, but the current
environment goes on only if it is still running. -/
inductive Sched (s : Kernel) : Stop → Kernel → Prop where
  | runnable {e d : Nat} (he : e < NENV) (hst : (s.envs e).envStatus = .runnable)
      (hd : (s.envs e).envPgdir = some d) : Sched s .user (s.runs e d)
  | goOn {e d : Nat} (hcur : s.curenv = some e) (hst : (s.envs e).envStatus = .running)
      (hd : (s.envs e).envPgdir = some d) : Sched s .user (s.runs e d)
  | retry {e d : Nat} (he : e < NENV) (hw : (s.envs e).envE1000WaitingRx = true)
      (hd : (s.envs e).envPgdir = some d) : Sched s .user ((s.noWait e).runs e d)
  | halt : Sched s .halted s.halts
  | monitor : Sched s .monitor s
  | noDir {e : Nat} {s' : Kernel}
      (h : s.curenv = some e ∨ e < NENV ∧
        ((s.envs e).envStatus = .runnable ∨ (s.envs e).envE1000WaitingRx = true))
      (hd : (s.envs e).envPgdir = none) : Sched s badPaddr s'

theorem Sched.leave {s s' : Kernel} {x : Stop} (h : Sched s x s') : Leave s x s' := by
  cases h with
  | runnable he hst hd => exact .runnable he hst hd
  | goOn hcur _ hd => exact .resume hcur hd
  | retry he hw hd => exact .retry he hw hd
  | halt => exact .halt
  | monitor => exact .monitor
  | noDir h hd => exact .noDir h hd

theorem envRun_sched (h : (s.curenv = some e ∧ (s.envs e).envStatus = .running) ∨
      e < NENV ∧ (s.envs e).envStatus = .runnable) :
    wp (envRun e) (fun _ _ => False) (Sched s) s := by
  cases hd : (s.envs e).envPgdir with
  | some d =>
    refine wp_of_error (envRun_user hd) ?_
    rcases h with ⟨hcur, hst⟩ | ⟨he, hst⟩
    · exact .goOn hcur hst hd
    · exact .runnable he hst hd
  | none =>
    obtain ⟨s', hrun⟩ := envRun_badPaddr hd
    exact wp_of_error hrun (.noDir (h.imp And.left (fun h => ⟨h.1, Or.inl h.2⟩)) hd)

/-- The search returns only if it has found nothing, and changes nothing. -/
theorem schedScan_sched (n i : Nat) (s : Kernel) :
    wp (schedScan i n) (fun _ t => t = s) (Sched s) s := by
  induction n generalizing i with
  | zero => exact rfl
  | succ n ih =>
    refine wp_get_bind ?_
    by_cases hst : (s.envs ((i + 1) % NENV)).envStatus = .runnable
    · rw [if_pos hst]
      refine wp_seq (envRun_sched (Or.inr ⟨Nat.mod_lt _ (by decide), hst⟩)) ?_
      exact fun _ _ h => h.elim
    · rw [if_neg hst]
      exact ih _

theorem schedWaiting_sched (n i : Nat) (hi : i + n ≤ NENV) (s : Kernel) :
    wp (schedWaiting i n) (fun _ t => t = s) (Sched s) s := by
  induction n generalizing i with
  | zero => exact rfl
  | succ n ih =>
    refine wp_get_bind ?_
    by_cases hw : (s.envs i).envE1000WaitingRx = true
    · rw [if_pos hw]
      refine wp_bind_ok (show modifyEnv i _ s = .ok () (s.noWait i) from rfl) ?_
      have hpg : ((s.noWait i).envs i).envPgdir = (s.envs i).envPgdir := by
        simp [Kernel.noWait]
      have hilt : i < NENV := by omega
      refine wp_seq (R := fun _ _ => False) ?_ (fun _ _ h => h.elim)
      cases hd : (s.envs i).envPgdir with
      | some d => exact wp_of_error (envRun_user (hpg.trans hd)) (.retry hilt hw hd)
      | none =>
        obtain ⟨s', hrun⟩ := envRun_badPaddr (hpg.trans hd)
        exact wp_of_error hrun (.noDir (Or.inr ⟨hilt, Or.inr hw⟩) hd)
    · rw [if_neg hw]
      exact ih (i + 1) (by omega)

/-- Stated as an equation: `sched_halt` searches all environments first. -/
theorem schedHalt_sched (s : Kernel) : ∃ x s', schedHalt s = .error x s' ∧ Sched s x s' := by
  unfold schedHalt
  generalize schedBusy = busy
  rw [bind_get]
  by_cases hb : busy s = true
  · refine ⟨.halted, s.halts, ?_, .halt⟩
    rw [if_pos hb]
    show EStateM.Result.error Stop.halted _ = _
    congr 1
    simp [Kernel.halts, Kernel.setCurenv]
  · exact ⟨.monitor, s, by rw [if_neg hb]; rfl, .monitor⟩

/-- **`sched_yield()`** leaves the kernel. -/
theorem schedYield_sched (s : Kernel) : wp schedYield (fun _ _ => False) (Sched s) s := by
  refine wp_get_bind ?_
  refine wp_seq (schedScan_sched NENV _ s) (fun _ t ht => ?_)
  subst ht
  have hrest : wp (do schedWaiting 0 NENV; schedHalt : KM Unit) (fun _ _ => False) (Sched t) t := by
    obtain ⟨x, s', hrun, hsched⟩ := schedHalt_sched t
    generalize schedHalt = halt at hrun ⊢
    refine wp_seq (schedWaiting_sched NENV 0 (by omega) t) (fun _ u hu => ?_)
    rw [hu]
    exact wp_of_error hrun hsched
  generalize (do schedWaiting 0 NENV; schedHalt : KM Unit) = idle at hrest ⊢
  refine wp_get_bind ?_
  cases hcur : t.curenv with
  | none => exact hrest
  | some e =>
    refine wp_get_bind ?_
    by_cases hst : (t.envs e).envStatus = .running
    · rw [if_pos hst]
      exact wp_seq (envRun_sched (Or.inl ⟨hcur, hst⟩)) (fun _ _ h => h.elim)
    · rw [if_neg hst]
      exact hrest

theorem settableStatus_ne_free {w : Word} {st : EnvStatus} (h : settableStatus w = some st) :
    st ≠ .free := by
  unfold settableStatus at h
  split at h
  · cases h
    decide
  · split at h
    · cases h
      decide
    · cases h

theorem schedYield_leave (s : Kernel) : wp schedYield (fun _ _ => False) (Leave s) s :=
  wp_mono (schedYield_sched s) (fun _ _ h => h) (fun _ _ h => h.leave)

end Jos
