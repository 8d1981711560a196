/-
  Jos.Machine.Fair — **ROUND ROBIN** (`sched_yield`).

  A CPU runs the first runnable environment after its own, in the circular order of the
  slots; so one that stays runnable is passed over fewer than `NENV` times.
-/
import Jos.Machine.FirstEnv

namespace Jos

open Exec

variable {j n : Nat} {s t : Kernel}

/-- The slot after which `sched_yield` starts its search. -/
def schedFrom (s : Kernel) : Nat := s.curenv.elim 0 fun e => envx (s.envs e).envId

theorem schedFrom_lt (s : Kernel) : schedFrom s < NENV := by
  unfold schedFrom
  cases s.curenv with
  | none => exact Nat.succ_pos _
  | some e => exact envx_lt _

/-- The search ends at the first runnable slot, since `env_run` does not return. -/
theorem schedYield_at {k : Nat} {x : Stop} (hk : k < NENV)
    (hst : (s.envs ((schedFrom s + k + 1) % NENV)).envStatus = .runnable)
    (hmin : ∀ i < k, (s.envs ((schedFrom s + i + 1) % NENV)).envStatus ≠ .runnable)
    (hrun : envRun ((schedFrom s + k + 1) % NENV) s = .error x t) : schedYield s = .error x t := by
  have hskip := schedScan_skip (NENV - k - 1 + 1) k (schedFrom_lt s) hmin
  rw [show k + (NENV - k - 1 + 1) = NENV by omega] at hskip
  have hscan : schedScan (schedFrom s) NENV s = .error x t := by
    rw [hskip]
    unfold schedScan
    rw [bind_get, Nat.mod_add_mod, if_pos hst]
    exact bind_error hrun
  unfold schedFrom at hscan
  unfold schedYield
  rw [bind_get]
  cases hcur : s.curenv with
  | none | some _ =>
    rw [hcur] at hscan
    exact bind_error hscan

/-- **The first runnable slot** is the one that runs. -/
theorem schedYield_picks {m : Nat} (hm : m < NENV)
    (hst : (s.envs ((schedFrom s + m + 1) % NENV)).envStatus = .runnable)
    (hrun : schedYield s = .error .user t) :
    ∃ k ≤ m, t.curenv = some ((schedFrom s + k + 1) % NENV) := by
  have hex : ∃ k, (s.envs ((schedFrom s + k + 1) % NENV)).envStatus = .runnable := ⟨m, hst⟩
  have hle := Nat.find_min' hex hst
  refine ⟨Nat.find hex, hle, ?_⟩
  have hyield := fun x u => schedYield_at (x := x) (t := u) (Nat.lt_of_le_of_lt hle hm)
    (Nat.find_spec hex) fun _ => Nat.find_min hex
  cases hd : (s.envs ((schedFrom s + Nat.find hex + 1) % NENV)).envPgdir with
  | some d =>
    cases hrun.symm.trans (hyield _ _ (envRun_user hd))
    exact congrArg CpuInfo.cpuEnv (runs_cpu s _ d)
  | none =>
    obtain ⟨u, hu⟩ := envRun_badPaddr hd
    cases hrun.symm.trans (hyield _ _ hu)

/-- `n` turns of one CPU that pass over slot `j`: it is runnable, `sched_yield` runs another
environment, and the CPU still has that one at the next `sched_yield` (without one the
search starts at slot 1 again). -/
inductive PassedOver (j : Nat) : Nat → Kernel → Prop
  | start (s : Kernel) : PassedOver j 0 s
  | turn {n : Nat} {s t u : Kernel} (before : PassedOver j n s)
      (hst : (s.envs j).envStatus = .runnable) (hyield : schedYield s = .error .user t)
      (hother : t.curenv ≠ some j) (hkeep : u.curenv = t.curenv)
      (hid : ∀ e, u.curenv = some e → envx (u.envs e).envId = e) : PassedOver j (n + 1) u

/-- Each turn brings the search closer to `j`. -/
theorem PassedOver.closer (h : PassedOver j n s) (hj : j < NENV) :
    ∃ m, m + n < NENV ∧ (schedFrom s + m + 1) % NENV = j := by
  induction h with
  | start s =>
    have hlt := schedFrom_lt s
    refine ⟨(j + (NENV - 1 - schedFrom s)) % NENV, Nat.mod_lt _ (by decide), ?_⟩
    unfold NENV at *
    omega
  | @turn n s t u _ hst hyield hother hkeep hid ih =>
    obtain ⟨m, hm, rfl⟩ := ih
    obtain ⟨k, hk, hcur⟩ := schedYield_picks (by omega) hst hyield
    have hne : k ≠ m := fun hkm => hother (hkm ▸ hcur)
    rw [hcur] at hkeep
    have hfrom : schedFrom u = (schedFrom s + k + 1) % NENV := by
      unfold schedFrom
      rw [hkeep]
      exact hid _ hkeep
    refine ⟨m - k - 1, by omega, ?_⟩
    rw [hfrom, Nat.add_assoc, Nat.mod_add_mod]
    congr 1
    omega

/-- **Nobody starves**: a runnable environment is passed over fewer than `NENV` times in a row. -/
theorem schedYield_fair (h : PassedOver j n s) (hj : j < NENV) : n < NENV := by
  obtain ⟨m, hm, -⟩ := h.closer hj
  omega

/-- All slots are runnable; slot 1 runs before slot 3. -/
theorem schedYield_fair_three : ∃ s, PassedOver 3 1 s ∧ 1 < NENV := by
  let s := { Kernel.powerOn with envs := fun i => { Kernel.powerOn.envs i with
    envStatus := .runnable, envPgdir := some 0, envId := BitVec.ofNat 32 i } }
  have hy : schedYield s = .error .user (s.runs 1 0) :=
    schedYield_at (k := 0) (by decide) rfl (by simp) (envRun_user rfl)
  have hp : PassedOver 3 1 (s.runs 1 0) :=
    .turn (.start s) rfl hy (by decide) rfl fun e he => by cases he; decide
  exact ⟨_, hp, schedYield_fair hp (by decide)⟩

end Jos
