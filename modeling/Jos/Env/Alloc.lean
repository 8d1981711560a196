/-
  Jos.Env.Alloc — **WHAT `env_alloc` AND `env_free` DO TO THE TABLE**, from any state.

  Pages and page tables may be in any shape here: whenever the functions
  return, the first free slot has been filled (or nothing has happened), and
  the slot to be freed had a page directory and is now the first free one.
-/
import Jos.Env.Frame
import Jos.Env.Table

namespace Jos

open Exec

/-! ## §1. `env_alloc`. -/

/-- The table after `env_alloc` has returned `r`. -/
def Allocated (parentId : Word) (s : Kernel) : Except Word Nat → Kernel → Prop
  | .error _, s' => EnvFrame s s'
  | .ok e, s' => s.envFreeList = some e ∧ ∃ d, EnvFrame (s.allocEnv parentId e d) s'

theorem envSetupVm_table (e : Nat) (s : Kernel) :
    wp (envSetupVm e)
      (fun r s' => (r.slt 0#32 = true ∧ EnvFrame s s') ∨
        (r.slt 0#32 = false ∧ ∃ d, EnvFrame (s.setEnv e { s.envs e with envPgdir := some d }) s'))
      (fun x _ => Fault x) s := by
  refine (pageAlloc_keeps ALLOC_ZERO).seq (fun r t ht => ?_) (fun x _ hx _ => hx)
  cases r with
  | none => exact Or.inl ⟨by decide, ht⟩
  | some p =>
    refine (page2kva_keeps p).seq (fun d u hu => ?_) (fun x _ hx _ => hx)
    have hset := (ht.trans hu).setEnv e (fun env => { env with envPgdir := some d })
    -- the rest only writes the new directory and its count
    refine wp_of_ok rfl (Or.inr ⟨by decide, d, hset.trans ?_⟩)
    exact envFrame_of_data _ _ _ _ _ _ _ _ _

theorem envAlloc_table (parentId : Word) (s : Kernel) :
    wp (envAlloc parentId) (Allocated parentId s) (fun x _ => Fault x) s := by
  refine wp_get_bind ?_
  cases hhead : s.envFreeList with
  | none => exact EnvFrame.refl s
  | some e =>
    refine wp_seq (envSetupVm_table e s) (fun r t ht => ?_)
    rcases ht with ⟨hr, ht⟩ | ⟨hr, d, ht⟩
    · rw [if_pos hr]
      exact ht
    · rw [if_neg (by rw [hr]; decide)]
      refine wp_of_ok rfl ⟨hhead, d, ?_⟩
      refine ⟨ht.npages, ht.kernPgdir, ?_, ?_, ht.cpunum, ht.cpus, ?_⟩
      · simp [Kernel.setEnv, Kernel.allocEnv, ht.envs]
      · simp [Kernel.setEnv, Kernel.allocEnv, ht.envs]
      · simp [Kernel.setEnv, Kernel.allocEnv, ht.fsKin]

/-! ## §2. `env_free`. -/

/-- Slot `e` gives up its directory and becomes the first free one. -/
def Kernel.freeSlot (s : Kernel) (e : Nat) : Kernel :=
  { (leaveDir s e).setEnv e { s.envs e with
      envPgdir := none, envStatus := .free, envLink := s.envFreeList } with
    envFreeList := some e }

theorem envFreePde_keeps (e pdeno : Nat) : Keeps EnvFrame Fault (envFreePde e pdeno) := by
  refine (derefPgdir_keeps e).bind fun d => keeps_get.bind fun s => keeps_ite ?_ (keeps_pure ())
  refine (kaddr_keeps _).bind fun pt => Keeps.bind ?_ fun _ => ?_
  · refine keeps_forUp (fun pteno => keeps_get.bind fun _ => keeps_ite ?_ (keeps_pure ())) 0 _
    exact (derefPgdir_keeps e).bind fun _ => pageRemove_keeps _ _
  · refine (setWord_keeps fun _ => (d, pdeno, 0#32)).bind fun _ => ?_
    exact (pa2page_keeps _).bind fun _ => pageDecref_keeps _

theorem leaveDir_envs (s : Kernel) (e : Nat) : (leaveDir s e).envs = s.envs := by
  unfold leaveDir
  split <;> rfl

theorem leaveDir_envFreeList (s : Kernel) (e : Nat) :
    (leaveDir s e).envFreeList = s.envFreeList := by
  unfold leaveDir
  split <;> rfl

/-- The loop over the directory follows `env_pgdir` in its first round. -/
theorem envFreePdes_table (e : Nat) (s : Kernel) {n : Nat} (hn : 0 < n) :
    wp (forUp (envFreePde e) 0 n)
      (fun _ t => (∃ d, (s.envs e).envPgdir = some d) ∧ EnvFrame s t) (fun x _ => Fault x) s := by
  refine wp_mono (wp_forUp (I := fun i t => (0 < i → ∃ d, (s.envs e).envPgdir = some d) ∧
    EnvFrame s t) n 0 _ ⟨fun h => absurd h (by decide), EnvFrame.refl _⟩ ?_)
    (fun _ t ht => ⟨ht.1 (by omega), ht.2⟩) (fun _ _ hx => hx)
  intro i t _ _ hi
  cases hd : (s.envs e).envPgdir with
  | some d =>
    exact wp_mono ((envFreePde_keeps e i).after hi.2) (fun _ _ h => ⟨fun _ => ⟨d, rfl⟩, h⟩)
      (fun _ _ h => h.1)
  | none =>
    have hderef : derefPgdir e t = undef "env_pgdir is NULL" t := by
      unfold derefPgdir
      rw [bind_get, hi.2.envs, hd]
    exact wp_of_error (bind_error (hderef.trans rfl)) rfl

/-- **`env_free`** returns only for a slot with a directory. -/
theorem envFree_table (e : Nat) (s : Kernel) :
    wp (envFree e)
      (fun _ s' => (∃ d, (s.envs e).envPgdir = some d) ∧ EnvFrame (s.freeSlot e) s')
      (fun x _ => Fault x) s := by
  unfold wp
  rw [envFree_eq]
  refine wp_seq (envFreePdes_table e (leaveDir s e) (by decide)) (fun _ t ht => ?_)
  obtain ⟨⟨d, hd⟩, ht⟩ := ht
  refine wp_get_bind ?_
  rw [ht.envs, hd]
  refine wp_bind_ok (show paddr (some d) t = .ok d t from rfl) ?_
  refine wp_bind_ok rfl ?_
  have hset := ht.setEnv e (fun env => { env with envPgdir := none })
  refine (pa2page_keeps _).seq (fun pp u hu => ?_) (fun x _ hx _ => hx)
  refine (pageDecref_keeps pp).seq (fun _ v hv => ?_) (fun x _ hx _ => hx)
  rw [leaveDir_envs] at hd
  refine wp_of_ok rfl ⟨⟨d, hd⟩, ?_⟩
  have hall := (hset.trans hu).trans hv
  refine ⟨hall.npages, hall.kernPgdir, ?_, rfl, hall.cpunum, hall.cpus, hall.fsKin⟩
  show Function.update v.envs e _ = Function.update (leaveDir s e).envs e _
  rw [hall.envs, hall.envFreeList]
  simp [Kernel.setEnv, leaveDir_envs, leaveDir_envFreeList]

/-! ## §3. The free list. -/

section

variable {s s' : Kernel} {l : List Nat}

theorem EnvList.of_frame (h : EnvList s l) (hfr : EnvFrame s s') : EnvList s' l :=
  h.congr hfr.envFreeList (fun i => by rw [hfr.envs]) (fun i _ => by rw [hfr.envs])

theorem EnvList.allocated (h : EnvList s l) {parentId : Word} {r : Except Word Nat}
    (ha : Allocated parentId s r s') : ∃ l', EnvList s' l' := by
  cases r with
  | error _ => exact ⟨l, h.of_frame ha⟩
  | ok e =>
    obtain ⟨hhead, d, hfr⟩ := ha
    obtain ⟨l', rfl, -⟩ := Chain.cons_of_some (hhead ▸ h.chain)
    have hpop : EnvList (s.allocEnv parentId e d) l' := h.pop rfl rfl (by simp)
    exact ⟨l', hpop.of_frame hfr⟩

theorem EnvList.freeSlot (h : EnvList s l) {e d : Nat} (he : e < NENV)
    (hd : (s.envs e).envPgdir = some d) : EnvList (s.freeSlot e) (e :: l) := by
  refine h.push he (by rw [hd]; simp) (v := { s.envs e with
    envPgdir := none, envStatus := .free, envLink := s.envFreeList }) ?_ rfl rfl rfl
  show Function.update (leaveDir s e).envs e _ = _
  rw [leaveDir_envs]

end

end Jos
