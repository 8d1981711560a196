/-
  Jos.Machine.Entry — **ONE KERNEL ENTRY, FROM TRAP TO USER MODE.**

  `trap_handled`: a call of `trap` never returns to its caller.  It faults, or
  it serves the entry (`Handled`: free a zombie, or save the frame and have
  one `Effect`) and then leaves the kernel (`Leave`).
-/
import Jos.Machine.Effect

namespace Jos

open Exec

/-! ## §1. Dispatch. -/

section

variable {inp : TrapInput} {c : Nat} {s : Kernel}

theorem systemCallHandler_effect (hc : s.curenv = some c) (htrap : inp.tf.tfTrapno = T_SYSCALL) :
    Serves inp c s (systemCallHandler inp.tf) s := by
  unfold systemCallHandler syscall
  cases hno : Sys.ofNum inp.tf.tfRegs.regEax with
  | none => exact Effect.soft (SoftFrame.refl s)
  | some sys =>
    have hcall : inp.call = some sys := by
      unfold TrapInput.call
      rw [if_pos htrap, hno]
    cases sys with
    | cputs => exact wp_seq (sysCputs_effect hc _ _) (fun _ _ h => h)
    | cgetc => exact Effect.soft (SoftFrame.refl s)
    | getenvid => exact wp_of_ok (sysGetenvid_ok hc) (Effect.soft (SoftFrame.refl s))
    | envDestroy => exact sysEnvDestroy_effect hc hcall
    | pageAlloc => exact (sysPageAlloc_keeps _ _ _).stopped (EnvFrame.refl s)
    | pageMap => exact (sysPageMap_keeps _ _ _ _ _).stopped (EnvFrame.refl s)
    | pageUnmap => exact (sysPageUnmap_keeps _ _).stopped (EnvFrame.refl s)
    | exofork => exact sysExofork_effect hc hcall
    | envSetStatus => exact sysEnvSetStatus_effect hc hcall
    | envSetTrapframe => exact sysEnvSetTrapframe_effect hc hcall
    | envSetPgfaultUpcall => exact sysEnvSetPgfaultUpcall_effect hc _ _
    | yield =>
      exact wp_seq (Effect.yields (.soft (SoftFrame.refl s))) (fun _ _ h => h.elim)
    | ipcTrySend => exact sysIpcTrySend_effect hc hcall _ _
    | ipcRecv => exact sysIpcRecv_effect hc hcall
    | timeMsec => exact Effect.soft (SoftFrame.refl s)
    | e1000Receive => exact sysE1000Receive_effect hc hcall _ _
    | e1000Transmit => exact sysE1000Transmit_effect hc _ _
    | e1000GetMac => exact sysE1000GetMac_effect hc _

/-- The environment continues in its upcall, or is destroyed. -/
theorem pageFaultHandler_effect (hc : s.curenv = some c) (tf : Trapframe) (faultVa : Word) :
    wp (pageFaultHandler tf faultVa) (fun _ _ => False) (Stopped inp c s) s := by
  unfold pageFaultHandler
  split
  · exact Or.inl rfl
  · refine wp_bind_ok (derefCurenv_ok hc) ?_
    refine wp_get_bind ?_
    dsimp only
    split
    · refine wp_seq (userMemAssert_effect hc _ _ _) (fun _ t ht => ?_)
      refine (storeWord_keeps _ _).step ht fun _ t ht => ?_
      refine (storeRegs_keeps _ _).step ht fun _ t ht => ?_
      refine (storeWord_keeps _ _).step ht fun _ t ht => ?_
      refine (storeWord_keeps _ _).step ht fun _ t ht => ?_
      refine (storeWord_keeps _ _).step ht fun _ t ht => ?_
      refine (storeWord_keeps _ _).step ht fun _ t ht => ?_
      refine wp_bind_ok rfl ?_
      refine wp_mono (envRun_leave (Or.inl (ht.curenv.trans hc))) (fun _ _ h => h)
        (fun _ _ h => Or.inr ⟨_, .soft ?_, h⟩)
      exact ht.soft.trans (softFrame_setEnv (patched_tf _ (SameMode.refl _)))
    · exact envDestroy_self hc (EnvFrame.refl s)

theorem e1000Receiver_waits {r : Nat} (h : e1000Receiver s = some r) :
    r < NENV ∧ (s.envs r).envE1000WaitingRx = true := by
  unfold e1000Receiver at h
  refine ⟨?_, by simpa using List.find?_some h⟩
  have hmem := List.mem_of_find?_eq_some h
  rw [List.mem_reverse] at hmem
  exact List.mem_range.mp hmem

/-- `e1000_trap_handler` wakes at most one environment that waits. -/
theorem e1000TrapHandler_wakes (s : Kernel) :
    wp e1000TrapHandler
      (fun _ s' => EnvFrame s s' ∨ ∃ r < NENV, (s.envs r).envE1000WaitingRx = true ∧
        EnvFrame (s.setEnv r { s.envs r with
          envStatus := .runnable, envE1000WaitingRx := false }) s')
      (fun _ _ => False) s := by
  refine wp_get_bind ?_
  cases hr : e1000Receiver s with
  | none => exact Or.inl (envFrame_of_data s _ _ _ _ _ _ _ _)
  | some r =>
    obtain ⟨hlt, hw⟩ := e1000Receiver_waits hr
    exact Or.inr ⟨r, hlt, hw, envFrame_of_data _ _ _ _ _ _ _ _ _⟩

/-- `trap_dispatch` for an environment. -/
theorem trapDispatch_effect (hc : s.curenv = some c) :
    Serves inp c s (trapDispatch true inp) s := by
  have hsame : Effect inp c s s := .soft (SoftFrame.refl s)
  unfold trapDispatch
  dsimp only
  split
  · exact wp_mono (pageFaultHandler_effect hc _ _) (fun _ _ h => h.elim) (fun _ _ h => h)
  split
  · -- the monitor changes `FL_TF` only
    refine wp_bind_ok (derefCurenv_ok hc) (Effect.soft (softFrame_setEnv (patched_tf _ ?_)))
    refine ⟨rfl, ?_⟩
    cases inp.singlestep with
    | true =>
      show ((s.envs c).envTf.tfEflags ||| FL_TF) &&& _ = _
      rw [BitVec.and_comm, BitVec.and_or_distrib_left,
        show (FL_IF ||| FL_IOPL_3) &&& FL_TF = 0#32 by decide, BitVec.or_zero,
        BitVec.and_comm]
    | false =>
      show ((s.envs c).envTf.tfEflags &&& ~~~FL_TF) &&& _ = _
      rw [BitVec.and_assoc, show ~~~FL_TF &&& (FL_IF ||| FL_IOPL_3) = FL_IF ||| FL_IOPL_3
        from by decide]
  split
  · next htrap =>
      refine wp_get_bind ?_
      refine wp_seq (systemCallHandler_effect hc htrap) (fun ret t ht => ?_)
      rw [hc]
      exact ht.then_soft (softFrame_setEnv (patched_tf _ (SameMode.refl _)))
  split
  · exact timeTick_keeps.step (EnvFrame.refl s) fun _ t ht =>
      wp_mono (Effect.yields (.soft ht.soft)) (fun _ _ h => h.elim) (fun _ _ h => h)
  split
  · exact hsame
  split
  · next htrap =>
      refine wp_mono (e1000TrapHandler_wakes s) (fun _ t ht => ?_) (fun _ _ h => h.elim)
      rcases ht with ht | ⟨r, hlt, hw, ht⟩
      · exact .soft ht.soft
      · exact .wake htrap hlt hw ht.soft
  split
  · exact hsame
  split
  · exact Or.inl rfl
  · refine wp_bind_ok (derefCurenv_ok hc) ?_
    exact wp_mono (envDestroy_self hc (EnvFrame.refl s)) (fun _ _ h => h.elim) (fun _ _ h => h)

theorem trapReturn_leave (t : Kernel) : wp trapReturn (fun _ _ => False) (Leave t) t := by
  refine wp_get_bind ?_
  cases hcur : t.curenv with
  | none => exact schedYield_leave t
  | some e =>
    refine wp_get_bind ?_
    split
    · exact envRun_leave (Or.inl hcur)
    · exact schedYield_leave t

/-! ## §2. `trap`. -/

/-- The CPU has left the halted state. -/
def Kernel.started (s : Kernel) : Kernel :=
  s.setCpu { s.cpus s.cpunum with cpuStatus := .started }

/-- The frame of environment `c` has been saved. -/
def Kernel.saveTf (s : Kernel) (c : Nat) (tf : Trapframe) : Kernel :=
  s.started.setEnv c { s.envs c with envTf := tf }

theorem saveTf_env (s : Kernel) (c : Nat) (tf : Trapframe) (i : Nat) :
    (s.saveTf c tf).envs i = { s.envs i with
      envTf := if i = c then tf else (s.envs i).envTf } := by
  unfold Kernel.saveTf
  by_cases hi : i = c
  · rw [hi, Kernel.setEnv_self, if_pos rfl]
  · rw [Kernel.setEnv_of_ne _ _ hi, if_neg hi]
    rfl

/-- Whom an environment can name does not depend on its frame. -/
theorem findEnv_saveTf (s : Kernel) (c : Nat) (tf : Trapframe) (id : Word) (checkperm : Bool) :
    findEnv (s.saveTf c tf) c id checkperm = findEnv s c id checkperm := by
  unfold findEnv
  rw [saveTf_env, saveTf_env]

/-- What a CPU can enter the kernel with: an environment in user mode, or an
interrupt on a halted CPU. -/
inductive Entry (s : Kernel) (inp : TrapInput) : Prop where
  | user {c : Nat} (hcur : s.curenv = some c) (hcs : inp.tf.tfCs &&& 3 = 3)
  | idle (hcur : s.curenv = none) (hcs : inp.tf.tfCs &&& 3 ≠ 3)
      (hirq : inp.tf.tfTrapno ∈ [IRQ_OFFSET + IRQ_TIMER, IRQ_OFFSET + IRQ_KBD,
        IRQ_OFFSET + IRQ_SERIAL, IRQ_OFFSET + IRQ_SPURIOUS, IRQ_OFFSET + IRQ_E1000])

/-- What the kernel has done when it leaves again. -/
inductive Handled (inp : TrapInput) (s s' : Kernel) : Prop where
  /-- The entry of an environment is served. -/
  | served {c : Nat} (hcur : s.curenv = some c) (hst : (s.envs c).envStatus ≠ .dying)
      (h : Effect inp c (s.saveTf c inp.tf) s')
  /-- A zombie is freed at its next entry. -/
  | zombie {c d : Nat} (hcur : s.curenv = some c) (hst : (s.envs c).envStatus = .dying)
      (hd : (s.envs c).envPgdir = some d)
      (h : SoftFrame ((s.started.freeSlot c).setCurenv none) s')
  | idle (hcur : s.curenv = none) (h : SoftFrame s.started s')
  | idleWake {r : Nat} (hcur : s.curenv = none)
      (htrap : inp.tf.tfTrapno = IRQ_OFFSET + IRQ_E1000) (hr : r < NENV)
      (hw : (s.envs r).envE1000WaitingRx = true)
      (h : SoftFrame (s.started.setEnv r { s.envs r with
        envStatus := .runnable, envE1000WaitingRx := false }) s')

theorem started_curenv (s : Kernel) : s.started.curenv = s.curenv := by
  unfold Kernel.started
  rw [Kernel.setCpu_curenv]
  rfl

theorem trapEnter_saves {c : Nat} (hcur : s.curenv = some c)
    (hst : (s.envs c).envStatus ≠ .dying) (tf : Trapframe) :
    trapEnter tf s = .ok () (s.setEnv c { s.envs c with envTf := tf }) := by
  unfold trapEnter
  rw [bind_get, hcur]
  show ((get : KM Kernel) >>= _) s = _
  rw [bind_get, if_neg hst]
  rfl

theorem trapEnter_zombie {c : Nat} (hcur : s.curenv = some c)
    (hst : (s.envs c).envStatus = .dying) (tf : Trapframe) :
    wp (trapEnter tf) (fun _ _ => False)
      (fun x s' => Fault x ∨ ∃ s₁ d, (s.envs c).envPgdir = some d ∧
        SoftFrame ((s.freeSlot c).setCurenv none) s₁ ∧ Leave s₁ x s') s := by
  refine wp_get_bind ?_
  rw [hcur]
  refine wp_get_bind ?_
  rw [if_pos hst]
  refine wp_seq (wp_mono (envFree_table c s) (fun _ _ h => h) (fun _ _ h => Or.inl h)) ?_
  rintro _ t ⟨⟨d, hd⟩, ht⟩
  refine wp_bind_ok rfl (wp_mono (schedYield_leave _) (fun _ _ h => h) (fun _ _ hl => ?_))
  exact Or.inr ⟨_, d, hd, (ht.setCurenv none).soft, hl⟩

/-- An entry from user mode. -/
theorem trap_user {c : Nat} (hcur : s.curenv = some c) (hcs : inp.tf.tfCs &&& 3 = 3) :
    wp (trap inp) (fun _ _ => False)
      (fun x s' => Fault x ∨ ∃ s₁, Handled inp s s₁ ∧ Leave s₁ x s') s := by
  have hcur' : s.started.curenv = some c := (started_curenv s).trans hcur
  refine wp_bind_ok (show modifyCpu _ s = .ok () s.started from rfl) ?_
  rw [if_pos hcs]
  by_cases hst : (s.envs c).envStatus = .dying
  · refine wp_seq (wp_mono (trapEnter_zombie hcur' hst inp.tf) (fun _ _ h => h) ?_)
      (fun _ _ h => h.elim)
    rintro x s' (hx | ⟨s₁, d, hd, hs, hl⟩)
    · exact Or.inl hx
    · exact Or.inr ⟨s₁, .zombie hcur hst hd hs, hl⟩
  · have hstop : ∀ x s', Stopped inp c (s.saveTf c inp.tf) x s' →
        Fault x ∨ ∃ s₁, Handled inp s s₁ ∧ Leave s₁ x s' := by
      rintro x s' (hx | ⟨s₁, heff, hl⟩)
      · exact Or.inl hx
      · exact Or.inr ⟨s₁, .served hcur hst heff, hl⟩
    refine wp_bind_ok (trapEnter_saves hcur' hst inp.tf) ?_
    refine wp_seq (wp_mono (trapDispatch_effect (c := c) hcur') (fun _ _ h => h) hstop) ?_
    intro _ t ht
    exact wp_mono (trapReturn_leave t) (fun _ _ h => h)
      (fun x s' hl => hstop x s' (Or.inr ⟨t, ht, hl⟩))

/-- An interrupt on a halted CPU. -/
theorem trap_idle (hcur : s.curenv = none) (hcs : inp.tf.tfCs &&& 3 ≠ 3)
    (hirq : inp.tf.tfTrapno ∈ [IRQ_OFFSET + IRQ_TIMER, IRQ_OFFSET + IRQ_KBD,
      IRQ_OFFSET + IRQ_SERIAL, IRQ_OFFSET + IRQ_SPURIOUS, IRQ_OFFSET + IRQ_E1000]) :
    wp (trap inp) (fun _ _ => False)
      (fun x s' => Fault x ∨ ∃ s₁, Handled inp s s₁ ∧ Leave s₁ x s') s := by
  have hleave : ∀ t, Handled inp s t → wp trapReturn (fun _ _ => False)
      (fun x s' => Fault x ∨ ∃ s₁, Handled inp s s₁ ∧ Leave s₁ x s') t := fun t ht =>
    wp_mono (trapReturn_leave t) (fun _ _ h => h) (fun _ _ hl => Or.inr ⟨t, ht, hl⟩)
  have hsame : Handled inp s s.started := .idle hcur (SoftFrame.refl _)
  refine wp_bind_ok (show modifyCpu _ s = .ok () s.started from rfl) ?_
  rw [if_neg hcs]
  simp only [List.mem_cons, List.not_mem_nil, or_false] at hirq
  unfold trapDispatch
  rcases hirq with hno | hno | hno | hno | hno
  · rw [hno]
    refine wp_seq (R := fun _ _ => False) ?_ (fun _ _ h => h.elim)
    refine timeTick_keeps.seq (fun _ t ht => ?_) (fun _ _ hx _ => Or.inl hx)
    exact wp_mono (schedYield_leave t) (fun _ _ h => h)
      (fun _ _ hl => Or.inr ⟨t, .idle hcur ht.soft, hl⟩)
  · rw [hno]
    exact hleave _ hsame
  · rw [hno]
    exact hleave _ hsame
  · rw [hno]
    exact hleave _ hsame
  · have hno' := hno
    rw [hno]
    refine wp_seq (wp_mono (e1000TrapHandler_wakes s.started) (fun _ _ h => h)
      (fun _ _ h => h.elim)) (fun _ t ht => hleave t ?_)
    rcases ht with ht | ⟨r, hlt, hw, ht⟩
    · exact .idle hcur ht.soft
    · exact .idleWake hcur hno' hlt hw ht.soft

/-- **One kernel entry**: a fault, or the entry is served and the kernel left. -/
theorem trap_handled (h : Entry s inp) :
    wp (trap inp) (fun _ _ => False)
      (fun x s' => Fault x ∨ ∃ s₁, Handled inp s s₁ ∧ Leave s₁ x s') s := by
  cases h with
  | user hcur hcs => exact trap_user hcur hcs
  | idle hcur hcs hirq => exact trap_idle hcur hcs hirq

end

end Jos
