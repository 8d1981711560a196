/-
  Jos.Machine.Mode — **ENVIRONMENTS RUN UNPRIVILEGED.**

  `UserTf`: a frame of privilege level 3 with interrupts on, and without IO
  privilege unless its environment is of the file server's kin.  `ModeInv` says so
  of every saved frame and of what every CPU has loaded; the slots nothing has used
  yet (`Virgin`) are the exception.  A slot that was freed keeps its old frame, and
  is no exception.

  `sys_env_set_trapframe` takes any frame it is given, so `user_mode` is about runs
  whose entries meet `ModeSafe`; `setTrapframe_raises` is a run that does not.
-/
import Jos.Machine.FirstEnv

namespace Jos

open Exec
open Function (update update_of_ne update_self update_idem)

variable {c d e pp t : Nat} {inp : TrapInput}

/-! ## §1. Frames. -/

def UserTf (tf : Trapframe) (kin : Bool) : Prop :=
  tf.tfCs &&& 3 = 3 ∧ tf.tfEflags &&& FL_IF ≠ 0#32 ∧
    (tf.tfEflags &&& FL_IOPL_MASK ≠ 0#32 → kin = true)

/-- A slot no environment has used. -/
def Virgin (v : Env) : Prop :=
  v.envStatus = .free ∧ v.envPgdir = none ∧ v.envE1000WaitingRx = false

/-- A part of the flags `SameMode` keeps is kept. -/
theorem SameMode.flags {tf tf' : Trapframe} (h : SameMode tf tf') {m : Word}
    (hm : (FL_IF ||| FL_IOPL_3) &&& m = m) : tf'.tfEflags &&& m = tf.tfEflags &&& m := by
  rw [← hm, ← BitVec.and_assoc, h.2, BitVec.and_assoc]

theorem UserTf.sameMode {tf tf' : Trapframe} {kin : Bool} (h : UserTf tf kin)
    (hm : SameMode tf tf') : UserTf tf' kin := by
  obtain ⟨hcs, hif, hiopl⟩ := h
  refine ⟨?_, ?_, ?_⟩
  · rw [hm.1]
    exact hcs
  · rw [hm.flags (by decide)]
    exact hif
  · rw [hm.flags (by decide)]
    exact hiopl

/-- **User code cannot raise its mode**; with IO privilege it can turn interrupts
off, which `hif` excludes. -/
theorem UserTf.fromUser {regs tf : Trapframe} {kin : Bool} (h : UserTf regs kin)
    (hfrom : FromUser regs tf)
    (hif : tf.tfEflags &&& FL_IOPL_MASK = FL_IOPL_3 → tf.tfEflags &&& FL_IF ≠ 0#32) :
    UserTf tf kin := by
  obtain ⟨-, hcs, hiopl, hkeep⟩ := hfrom
  refine ⟨hcs, ?_, ?_⟩
  · by_cases h3 : regs.tfEflags &&& FL_IOPL_MASK = FL_IOPL_3
    · exact hif (hiopl.trans h3)
    · rw [hkeep h3]
      exact h.2.1
  · rw [hiopl]
    exact h.2.2

/-! ## §2. The invariant. -/

structure ModeInv (s : Kernel) : Prop where
  saved : ∀ i < NENV, UserTf (s.envs i).envTf (s.fsKin i) ∨ Virgin (s.envs i)
  loaded : ∀ c e, (s.cpus c).cpuEnv = some e → e < NENV ∧ UserTf (s.cpus c).regs (s.fsKin e)

/-- Before an entry of environment `c`: with IO privilege it has interrupts on; a
frame it passes to `sys_env_set_trapframe` is that of user code, as the call reads
it; and `sys_exofork` does not find a slot that a CPU still runs. -/
def ModeSafe (s : Kernel) (inp : Option TrapInput) : Prop :=
  ∀ c i, s.curenv = some c → inp = some i →
    (i.tf.tfEflags &&& FL_IOPL_MASK = FL_IOPL_3 → i.tf.tfEflags &&& FL_IF ≠ 0#32) ∧
    (i.call = some .envSetTrapframe → ∀ e frame t, findEnv s c i.arg1 true = .ok e →
      readFrame i.arg2 (s.saveTf c i.tf) = .ok frame t → UserTf frame (s.fsKin e)) ∧
    (i.call = some .exofork → ∀ k, s.envFreeList ≠ none → (s.cpus k).cpuEnv ≠ s.envFreeList)

namespace ModeInv

variable {s s' : Kernel}

section
variable (h : ModeInv s)
include h

/-- A slot with a directory, a live one or a waiting one has been used. -/
theorem used {i : Nat} (hi : i < NENV)
    (hu : (s.envs i).envStatus ≠ .free ∨ (s.envs i).envPgdir ≠ none ∨
      (s.envs i).envE1000WaitingRx = true) : UserTf (s.envs i).envTf (s.fsKin i) := by
  rcases h.saved i hi with hu' | ⟨h1, h2, h3⟩
  · exact hu'
  · rcases hu with hu | hu | hu
    · exact absurd h1 hu
    · exact absurd h2 hu
    · rw [h3] at hu
      cases hu

theorem soft (hs : SoftFrame s s') : ModeInv s' := by
  refine ⟨fun i hi => ?_, fun c e hce => ?_⟩
  · obtain ⟨tf, upcall, perm, hm, heq⟩ := hs.env i
    rw [heq, hs.fsKin]
    rcases h.saved i hi with hu | hv
    · exact Or.inl (hu.sameMode hm)
    · exact Or.inr hv
  · rw [hs.cpus c] at hce ⊢
    rw [hs.fsKin]
    exact h.loaded c e hce

/-- A record changes. -/
theorem setEnv {v : Env} (hv : UserTf v.envTf (s.fsKin e)) : ModeInv (s.setEnv e v) := by
  refine ⟨fun i hi => ?_, h.loaded⟩
  by_cases hie : i = e
  · rw [hie, Kernel.setEnv_self]
    exact Or.inl hv
  · rw [Kernel.setEnv_of_ne _ _ hie]
    exact h.saved i hi

theorem setSoft {v : Env} (hs : SoftFrame (s.setEnv e v) s')
    (hv : UserTf v.envTf (s.fsKin e)) : ModeInv s' := (h.setEnv hv).soft hs

/-- This CPU changes. -/
theorem setCpu {a : CpuInfo} (ha : ∀ e, a.cpuEnv = some e → e < NENV ∧ UserTf a.regs (s.fsKin e)) :
    ModeInv (s.setCpu a) := by
  refine ⟨h.saved, fun c e hce => ?_⟩
  by_cases hc : c = s.cpunum
  · rw [Kernel.setCpu_self _ _ hc] at hce ⊢
    exact ha e hce
  · rw [Kernel.setCpu_of_ne _ _ hc] at hce ⊢
    exact h.loaded c e hce

theorem onCpu (c : Nat) : ModeInv (s.onCpu c) := ⟨h.saved, h.loaded⟩

theorem started : ModeInv s.started :=
  h.setCpu fun e he => h.loaded s.cpunum e he

theorem exits : ModeInv (s.setCurenv none) :=
  h.setCpu fun _ he => by cases he

/-- A freed slot keeps its frame. -/
theorem freeSlot (hd : (s.envs e).envPgdir = some d) : ModeInv (s.freeSlot e) := by
  have hkin : (s.freeSlot e).fsKin = s.fsKin := by
    unfold Kernel.freeSlot leaveDir
    split <;> rfl
  refine ⟨fun i hi => ?_, fun c x hcx => ?_⟩
  · rw [freeSlot_env, hkin]
    by_cases hie : i = e
    · subst hie
      rw [update_self]
      exact Or.inl (h.used hi (Or.inr (Or.inl (by rw [hd]; simp))))
    · rw [update_of_ne hie]
      exact h.saved i hi
  · rw [freeSlot_cpus] at hcx ⊢
    rw [hkin]
    exact h.loaded c x hcx

/-- Whom an environment can name has a user frame. -/
theorem found {id : Word} {perm : Bool}
    (hc : UserTf (s.envs c).envTf (s.fsKin c)) (hfind : findEnv s c id perm = .ok e) :
    UserTf (s.envs e).envTf (s.fsKin e) := by
  unfold findEnv at hfind
  split at hfind
  · cases hfind
    exact hc
  · split at hfind
    · cases hfind
    · next hlive =>
        split at hfind
        · cases hfind
        · cases hfind
          exact h.used (envx_lt id) (Or.inl fun hf => hlive (Or.inl hf))

/-- `sys_exofork` into a slot no CPU runs. -/
theorem forked (hc : UserTf (s.envs c).envTf (s.fsKin c))
    (hce : c ≠ e) (hfree : ∀ k, (s.cpus k).cpuEnv ≠ some e) : ModeInv (s.forkEnv c e d) := by
  obtain ⟨v, henvs, -, -, -, hmode⟩ := forkEnv_envs s c e d
  have hkin : (s.forkEnv c e d).fsKin = update s.fsKin e (s.fsKin c) := by
    show update (update s.fsKin e false) e
      (update s.fsKin e false c) = _
    rw [update_idem, update_of_ne hce]
  refine ⟨fun i hi => ?_, fun k x hkx => ?_⟩
  · rw [henvs, hkin]
    by_cases hie : i = e
    · rw [hie, update_self, update_self]
      exact Or.inl (hc.sameMode (hmode hce))
    · rw [update_of_ne hie, update_of_ne hie]
      exact h.saved i hi
  · have hxe : x ≠ e := fun hx => hfree k (hx ▸ hkx)
    rw [hkin, update_of_ne hxe]
    exact h.loaded k x hkx

/-- An environment with a directory starts to run. -/
theorem runs (he : e < NENV) (hd : (s.envs e).envPgdir = some d) : ModeInv (s.runs e d) := by
  have hkin : (s.runs e d).fsKin = s.fsKin := by
    rfl
  have htf := h.used he (Or.inr (Or.inl (by rw [hd]; simp)))
  refine ⟨fun i hi => ?_, fun c x hcx => ?_⟩
  · obtain ⟨n, k, heq⟩ := runs_env s e d i
    rw [heq, hkin]
    by_cases hie : i = e
    · subst hie
      exact Or.inl htf
    · rcases h.saved i hi with hu | hv
      · exact Or.inl hu
      · refine Or.inr ⟨?_, hv.2.1, hv.2.2⟩
        rw [if_neg hie, if_neg (fun hr => by rw [hv.1] at hr; cases hr.2)]
        exact hv.1
  · by_cases hc : c = s.cpunum
    · rw [hc, runs_cpu] at hcx ⊢
      cases hcx
      exact ⟨he, htf⟩
    · rw [runs_cpu_of_ne _ _ _ hc] at hcx ⊢
      exact h.loaded c x hcx

end

end ModeInv

/-! ## §3. One entry. -/

/-- **Serving an entry** of an environment with a user frame. -/
theorem Effect.modeInv {s s' : Kernel} (h : Effect inp c s s')
    (hm : ModeInv s) (hcur : s.curenv = some c) (hc : UserTf (s.envs c).envTf (s.fsKin c))
    (hframe : inp.call = some .envSetTrapframe → ∀ e frame t, findEnv s c inp.arg1 true = .ok e →
      readFrame inp.arg2 s = .ok frame t → UserTf frame (s.fsKin e))
    (hfork : inp.call = some .exofork → ∀ k, s.envFreeList ≠ none →
      (s.cpus k).cpuEnv ≠ s.envFreeList) : ModeInv s' := by
  cases h with
  | soft h => exact hm.soft h
  | setStatus hcall hst hfind h => exact hm.setSoft h (hm.found hc hfind)
  | setFrame hcall hfind hload h =>
    exact hm.setSoft h (hframe hcall _ _ _ hfind hload)
  | deliver hcall hfind hrecv h => exact hm.setSoft h (hm.found hc hfind)
  | block hcall h => exact hm.setSoft h hc
  | blockRx hcall h => exact hm.setSoft h hc
  | @fork e d hcall hhead h =>
    have hfree : ∀ k, (s.cpus k).cpuEnv ≠ some e := by
      intro k
      rw [← hhead]
      exact hfork hcall k (by rw [hhead]; simp)
    have hce : c ≠ e := fun hx => hfree s.cpunum (hx ▸ hcur)
    exact (hm.forked hc hce hfree).soft h
  | dying hcall hfind hst hne h => exact hm.setSoft h (hm.found hc hfind)
  | destroyed hcall hfind hst hne hd h => exact (hm.freeSlot hd).soft h
  | exit hd h => exact (hm.freeSlot hd).exits.soft h
  | wake htrap hr hw h => exact hm.setSoft h (hm.used hr (Or.inr (Or.inr hw)))

/-- **One entry**, up to the point where the kernel is left. -/
theorem Handled.modeInv {s s' : Kernel} (hh : Handled inp s s') (h : ModeInv s)
    (hcan : CanTrap s inp) (hsafe : ModeSafe s (some inp)) : ModeInv s' := by
  cases hh with
  | @served c hcur hst heff =>
    obtain ⟨hif, hframe, hfork⟩ := hsafe c inp hcur rfl
    -- the frame the hardware pushed is that of user code
    have htf : UserTf inp.tf (s.fsKin c) := by
      cases hcan with
      | user _ hfrom => exact (h.loaded _ _ hcur).2.fromUser hfrom hif
      | idle hnone _ _ _ =>
        rw [hnone] at hcur
        cases hcur
    have hsaved : ModeInv (s.saveTf c inp.tf) := h.started.setEnv htf
    have hcpu : ∀ k, ((s.saveTf c inp.tf).cpus k).cpuEnv = (s.cpus k).cpuEnv := by
      intro k
      show (s.started.cpus k).cpuEnv = _
      unfold Kernel.started
      by_cases hk : k = s.cpunum
      · rw [Kernel.setCpu_self _ _ hk, hk]
      · rw [Kernel.setCpu_of_ne _ _ hk]
    refine heff.modeInv hsaved ((started_curenv s).trans hcur) ?_ ?_ ?_
    · rw [saveTf_env, if_pos rfl]
      exact htf
    · intro hcall e frame t hfind
      rw [findEnv_saveTf] at hfind
      exact hframe hcall e frame t hfind
    · intro hcall k hne
      rw [hcpu k]
      exact hfork hcall k hne
  | zombie hcur hst hd hs => exact (h.started.freeSlot hd).exits.soft hs
  | idle hcur hs => exact h.started.soft hs
  | idleWake hcur htrap hr hw hs =>
    exact h.started.setSoft hs (h.used hr (Or.inr (Or.inr hw)))

/-- **The way out** loads a user frame. -/
theorem Leave.modeInv {s s' : Kernel} {x : Stop} (hl : Leave s x s') (h : ModeInv s)
    (hx : x = .user ∨ x = .halted) : ModeInv s' := by
  cases hl with
  | runnable he hst hd => exact h.runs he hd
  | resume hcur hd => exact h.runs (h.loaded _ _ hcur).1 hd
  | @retry e d he hw hd =>
    have hnow : ModeInv (s.noWait e) := h.setEnv (h.used he (Or.inr (Or.inr hw)))
    refine hnow.runs he ?_
    simpa [Kernel.noWait] using hd
  | halt => exact h.setCpu fun _ he => by cases he
  | monitor => exact h
  | noDir hwhy hd => rcases hx with hx | hx <;> cases hx

/-! ## §4. Runs. -/

theorem Step.modeInv {s s' : Kernel} (h : ModeInv s) (hstep : Step ModeSafe s s') : ModeInv s' := by
  cases hstep.moves with
  | trap hcan hpre hh hl hx => exact hl.modeInv (hh.modeInv (h.onCpu _) hcan hpre) hx
  | start hcur hpre hl hx => exact hl.modeInv (h.onCpu _).started hx
  | other hfr => exact h.soft hfr.soft

/-- The first environments. -/
theorem Init.modeInv {s : Kernel} (h : Init s) : ModeInv s := by
  -- no CPU runs an environment yet
  have hboth : ModeInv s ∧ ∀ c, (s.cpus c).cpuEnv = none := by
    refine Init.inv (I := fun s => ModeInv s ∧ ∀ c, (s.cpus c).cpuEnv = none) ?_ ?_ h
    · intro b s hb
      refine ⟨⟨fun i hi => Or.inr ?_, fun c e hce => ?_⟩, hb.cpuEnv⟩
      · rw [hb.env i hi]
        exact ⟨rfl, rfl, rfl⟩
      · rw [hb.cpuEnv c] at hce
        cases hce
    · intro type s s' e v hs hcr
      have hnone : ∀ c, (s'.cpus c).cpuEnv = none := fun c => (hcr.cpuEnv c).trans (hs.2 c)
      refine ⟨⟨fun i hi => ?_, fun c x hcx => ?_⟩, hnone⟩
      · rw [hcr.envs, hcr.fsKin]
        by_cases hie : i = e
        · rw [hie, update_self, update_self]
          left
          unfold UserTf
          rw [hcr.cs, hcr.eflags]
          cases type <;> decide
        · rw [update_of_ne hie, update_of_ne hie]
          exact hs.1.saved i hi
      · rw [hnone c] at hcx
        cases hcx
  exact hboth.1

/-- **USER ENVIRONMENTS RUN UNPRIVILEGED**, in every state of every run of the machine
whose entries all meet `ModeSafe`: so is the saved frame of every environment, and
what every CPU that runs one has loaded. -/
theorem user_mode {s : Kernel} (h : Reachable ModeSafe s) :
    (∀ i < NENV, (s.envs i).envStatus ≠ .free → UserTf (s.envs i).envTf (s.fsKin i)) ∧
    ∀ c e, (s.cpus c).cpuEnv = some e → UserTf (s.cpus c).regs (s.fsKin e) := by
  have hinv : ModeInv s := Reachable.inv (fun _ => Init.modeInv) (fun _ _ => Step.modeInv) h
  exact ⟨fun i hi hst => hinv.used hi (Or.inl hst), fun c e hce => (hinv.loaded c e hce).2⟩

/-- The first environment after boot runs unprivileged. -/
theorem user_mode_first : ∃ s, Reachable ModeSafe s ∧ (s.cpus 0).cpuEnv = some 0 ∧
    UserTf (s.envs 0).envTf (s.fsKin 0) ∧ UserTf (s.cpus 0).regs (s.fsKin 0) := by
  have hpre : ∀ s, ModeSafe s none := fun s c i _ hi => by cases hi
  obtain ⟨s, d, t, pp, hs, hfirst⟩ := exists_running hpre .user
  obtain ⟨hsaved, hloaded⟩ := user_mode hs
  have hlive : (s.envs 0).envStatus ≠ .free := by
    rw [hfirst.status]
    decide
  exact ⟨s, hs, hfirst.cpu, hsaved 0 (by decide) hlive, hloaded 0 0 hfirst.cpu⟩

/-! ## §5. `sys_env_set_trapframe` raises the privilege level. -/

theorem getByte_zeroed (w : Word) : getByte (putByte w 0 0#8) 0 = 0#8 := by
  ext i hi
  simp only [getByte, putByte]
  interval_cases i <;> simp

/-- A call of `sys_env_set_trapframe(0, stackPage)`. -/
def raiseInput : TrapInput where
  tf := { (default : Trapframe) with
    tfRegs := { (default : PushRegs) with regEax := 9#32, regEcx := stackPage }
    tfTrapno := T_SYSCALL
    tfCs := GD_UT ||| 3
    tfEflags := FL_IF }
  cr2 := 0#32
  singlestep := false

theorem trapReturn_running {s : Kernel} (hcur : s.curenv = some e)
    (hst : (s.envs e).envStatus = .running) (hd : (s.envs e).envPgdir = some d) :
    trapReturn s = .error .user (s.runs e d) := by
  unfold trapReturn
  rw [bind_get, hcur]
  dsimp only
  rw [bind_get, if_pos hst]
  exact envRun_user hd

/-- A trap whose handler leaves the environment running goes back to it. -/
theorem trap_returns {s x : Kernel} (hcur : s.curenv = some e)
    (hst : (s.envs e).envStatus = .running) (hcs : inp.tf.tfCs &&& 3 = 3)
    (hdispatch : trapDispatch true inp (s.saveTf e inp.tf) = .ok () x)
    (hxcur : x.curenv = some e) (hxst : (x.envs e).envStatus = .running)
    (hxd : (x.envs e).envPgdir = some d) : trap inp s = .error .user (x.runs e d) := by
  have halive : (s.started.envs e).envStatus ≠ .dying := by
    show (s.envs e).envStatus ≠ .dying
    rw [hst]
    decide
  unfold trap
  rw [bind_ok (show modifyCpu _ s = .ok () s.started from rfl), if_pos hcs,
    bind_ok (trapEnter_saves ((started_curenv s).trans hcur) halive inp.tf)]
  show (trapDispatch true inp >>= fun _ => trapReturn) (s.saveTf e inp.tf) = _
  rw [bind_ok hdispatch]
  exact trapReturn_running hxcur hxst hxd

theorem OnStack.saveTf {s : Kernel} (h : OnStack d t pp s) (e : Nat)
    (tf : Trapframe) : OnStack d t pp (s.saveTf e tf) := by
  refine ⟨?_, h.stack, h.zero⟩
  have hcpu : s.started.cpus s.cpunum = { s.cpus s.cpunum with cpuStatus := .started } :=
    Kernel.setCpu_self _ _ rfl
  exact (congrArg CpuInfo.cr3 hcpu).trans h.cr3

/-- The call sets the frame it was passed, with its return value. -/
theorem trapDispatch_raise {s : Kernel} (hcur : s.curenv = some 0) (hon : OnStack d t pp s) :
    ∃ tf u, trapDispatch true raiseInput s = .ok () (u.setEnv 0 { u.envs 0 with envTf := tf }) ∧
      Pokes d t pp s u ∧ tf.tfCs &&& 3 = 0 := by
  obtain ⟨tf, u, hset, hu, hcs⟩ := Pokes.setTrapframe hon hcur
  refine ⟨{ tf with tfRegs := { tf.tfRegs with regEax := 0#32 } }, u, ?_, hu, hcs⟩
  have hcall : systemCallHandler raiseInput.tf = sysEnvSetTrapframe 0#32 stackPage := rfl
  unfold trapDispatch
  rw [if_neg (by decide), if_neg (by decide), if_pos (by decide),
    bind_get, hcur, hcall, bind_ok hset]
  dsimp only
  show EStateM.Result.ok _ (Kernel.setEnv _ _ _) = _
  rw [Kernel.setEnv_self, Kernel.setEnv_setEnv]

/-- The call returns to the environment, with privilege level 0. -/
theorem trap_raise {s : Kernel} (hcur : s.curenv = some 0)
    (hst : (s.envs 0).envStatus = .running) (hdir : (s.envs 0).envPgdir = some d)
    (hon : OnStack d t pp s) :
    ∃ s', trap raiseInput s = .error .user s' ∧ (s'.cpus s.cpunum).cpuEnv = some 0 ∧
      (s'.envs 0).envStatus = .running ∧ (s'.envs 0).envTf.tfCs &&& 3 = 0 ∧
      (s'.cpus s.cpunum).regs.tfCs &&& 3 = 0 := by
  have hcur' : (s.saveTf 0 raiseInput.tf).curenv = some 0 := (started_curenv s).trans hcur
  obtain ⟨tf, u, hdispatch, hu, hcs⟩ := trapDispatch_raise hcur' (hon.saveTf 0 raiseInput.tf)
  have hucur : u.curenv = some 0 := by
    rw [hu.frame]
    exact hcur'
  have hunum : u.cpunum = s.cpunum := by
    rw [hu.frame]
    rfl
  have henv : (u.setEnv 0 { u.envs 0 with envTf := tf }).envs 0
      = { s.envs 0 with envTf := tf } := by
    rw [Kernel.setEnv_self, hu.frame]
    exact congrArg (fun v : Env => { v with envTf := tf }) (saveTf_env s 0 raiseInput.tf 0)
  have hrun : trap raiseInput s
      = .error .user ((u.setEnv 0 { u.envs 0 with envTf := tf }).runs 0 d) :=
    trap_returns hcur hst (by decide) hdispatch hucur (by rw [henv]; exact hst)
      (by rw [henv]; exact hdir)
  -- what `env_run` saves and loads
  obtain ⟨n, k, hruns⟩ := runs_env (u.setEnv 0 { u.envs 0 with envTf := tf }) 0 d 0
  have hcpu := runs_cpu (u.setEnv 0 { u.envs 0 with envTf := tf }) 0 d
  rw [show (u.setEnv 0 { u.envs 0 with envTf := tf }).cpunum = s.cpunum from hunum] at hcpu
  refine ⟨_, hrun, congrArg CpuInfo.cpuEnv hcpu, ?_, ?_, ?_⟩
  · rfl
  · exact hcs
  · rw [hcpu]
    exact hcs

/-- **`sys_env_set_trapframe` can raise an environment to privilege level 0**: the first
environment writes a zero into the `tf_cs` of a frame on its stack and passes it for
itself, and `env_run` loads that frame. -/
theorem setTrapframe_raises : ∃ s, Reachable anyEntry s ∧ (s.cpus 0).cpuEnv = some 0 ∧
    (s.envs 0).envStatus = .running ∧ (s.envs 0).envTf.tfCs &&& 3 = 0 ∧
    (s.cpus 0).regs.tfCs &&& 3 = 0 := by
  obtain ⟨s, d, t, pp, ⟨s₀, hinit, hrun⟩, hf⟩ :=
    @exists_running anyEntry (fun _ => trivial) .user
  obtain ⟨pde, pte, htr, hpp, hperm⟩ := hf.stack.translate
    (show InStack (stackPage + 52#32) by decide)
  rw [← hf.cr3] at htr
  generalize hs₁ : s.setWord pp 13 (putByte (s.mem pp 13) 0 0#8) = s₁
  have hstore : Step anyEntry s s₁ := by
    refine .store (b := 0#8) hf.cpu htr hperm ?_
    rw [← hs₁, hpp, show pgoff (stackPage + 52#32) / 4 = 13 by decide,
      show pgoff (stackPage + 52#32) % 4 = 0 by decide]
  have hon : OnStack d t pp (s₁.onCpu 0) := by
    rw [← hs₁]
    refine ⟨hf.cr3, hf.stack.put _ _, ?_⟩
    show getByte (putWord s.mem pp 13 _ pp 13) 0 = 0#8
    rw [putWord_same]
    exact getByte_zeroed _
  have hcur : (s₁.onCpu 0).curenv = some 0 := by
    rw [← hs₁]
    exact hf.cpu
  have hst : ((s₁.onCpu 0).envs 0).envStatus = .running := by
    rw [← hs₁]
    exact hf.status
  have hdir : ((s₁.onCpu 0).envs 0).envPgdir = some d := by
    rw [← hs₁]
    exact hf.dir
  have hregs : ((s₁.onCpu 0).cpus 0).regs = (s.envs 0).envTf := by
    rw [← hs₁]
    exact hf.regs
  obtain ⟨s', htrap, hres⟩ := trap_raise hcur hst hdir hon
  have hfrom : FromUser ((s₁.onCpu 0).cpus 0).regs raiseInput.tf := by
    unfold FromUser
    rw [hregs, hf.cs, hf.eflags]
    decide
  have hstep : Step anyEntry s₁ s' :=
    .trap (by decide) (.user hcur hfrom) trivial htrap (Or.inl rfl)
  exact ⟨s', ⟨s₀, hinit, (hrun.tail hstore).tail hstep⟩, hres⟩

end Jos
