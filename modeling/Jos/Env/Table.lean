/-
  Jos.Env.Table — **THE TABLE OF ENVIRONMENTS.**

  `EnvList s l`: the list headed by `env_free_list` runs through exactly the
  slots `l`, and these are the slots without a page directory.  `EnvTable s l`
  adds that a slot is without one exactly when its status is `ENV_FREE`.
  `env_alloc` takes the first slot and fills it; `env_free` puts a slot back.
-/
import Jos.Mem.EnvSpace

namespace Jos

open Exec
open Function (update update_of_ne update_self)

variable {v : Env} {c e : Nat}

/-! ## §1. The table. -/

/-- The free list holds the slots without a page directory. -/
structure EnvList (s : Kernel) (l : List Nat) : Prop where
  chain : Chain (fun i => (s.envs i).envLink) s.envFreeList l
  nodup : l.Nodup
  lt : ∀ i ∈ l, i < NENV
  dir : ∀ i, i < NENV → (i ∈ l ↔ (s.envs i).envPgdir = none)

/-- An environment has a page directory exactly when its slot is not free. -/
def StatusOk (s : Kernel) : Prop :=
  ∀ i, i < NENV → ((s.envs i).envStatus = .free ↔ (s.envs i).envPgdir = none)

/-- The free slots, and the directories of the others. -/
structure EnvTable (s : Kernel) (l : List Nat) : Prop extends EnvList s l where
  status : StatusOk s

/-- A slot that holds an environment. -/
def Live (s : Kernel) (i : Nat) : Prop := i < NENV ∧ (s.envs i).envStatus ≠ .free

theorem links_update (s : Kernel) (e : Nat) (v : Env) :
    (fun i => (update s.envs e v i).envLink)
      = update (fun i => (s.envs i).envLink) e v.envLink := by
  funext i
  by_cases hi : i = e
  · subst hi
    simp
  · simp [update_of_ne hi]

namespace EnvList

variable {s s' : Kernel} {l : List Nat}

/-- Only links and directories matter. -/
theorem congr (h : EnvList s l) (hf : s'.envFreeList = s.envFreeList)
    (hl : ∀ i, (s'.envs i).envLink = (s.envs i).envLink)
    (hp : ∀ i, i < NENV → (s'.envs i).envPgdir = (s.envs i).envPgdir) : EnvList s' l where
  chain := by
    rw [hf]
    exact h.chain.congr (fun i _ => hl i)
  nodup := h.nodup
  lt := h.lt
  dir i hi := by rw [hp i hi]; exact h.dir i hi

/-- Filling the first free slot. -/
theorem pop (h : EnvList s (e :: l)) (henvs : s'.envs = update s.envs e v)
    (hfree : s'.envFreeList = (s.envs e).envLink) (hpg : v.envPgdir ≠ none) : EnvList s' l where
  chain := by
    rw [henvs, hfree, links_update]
    have hc := h.chain
    rw [show s.envFreeList = some e from hc.1] at hc
    exact hc.pop h.nodup
  nodup := (List.nodup_cons.mp h.nodup).2
  lt i hi := h.lt i (List.mem_cons_of_mem e hi)
  dir i hi := by
    rw [henvs]
    by_cases hie : i = e
    · subst hie
      rw [update_self]
      exact ⟨fun hc => absurd hc (List.nodup_cons.mp h.nodup).1, fun hc => absurd hc hpg⟩
    · rw [update_of_ne hie, ← h.dir i hi, List.mem_cons]
      exact ⟨Or.inr, fun hc => hc.resolve_left hie⟩

/-- A slot that gives up its directory goes in front. -/
theorem push (h : EnvList s l) (he : e < NENV) (hdir : (s.envs e).envPgdir ≠ none)
    (henvs : s'.envs = update s.envs e v) (hfree : s'.envFreeList = some e)
    (hlink : v.envLink = s.envFreeList) (hpg : v.envPgdir = none) : EnvList s' (e :: l) := by
  have hel : e ∉ l := fun hc => hdir ((h.dir e he).mp hc)
  refine ⟨?_, List.nodup_cons.mpr ⟨hel, h.nodup⟩, fun i hi => ?_, fun i hi => ?_⟩
  · rw [henvs, hfree, links_update, hlink]
    exact h.chain.push hel
  · rcases List.mem_cons.mp hi with rfl | hi
    · exact he
    · exact h.lt i hi
  · rw [henvs, List.mem_cons]
    by_cases hie : i = e
    · subst hie
      rw [update_self]
      exact ⟨fun _ => hpg, fun _ => Or.inl rfl⟩
    · rw [update_of_ne hie, ← h.dir i hi]
      exact ⟨fun hc => hc.resolve_left hie, Or.inr⟩

end EnvList

/-- A slot whose new record has a directory exactly when it is not free. -/
theorem StatusOk.update {s s' : Kernel} (h : StatusOk s) (henvs : s'.envs = update s.envs e v)
    (hv : v.envStatus = .free ↔ v.envPgdir = none) : StatusOk s' := by
  intro i hi
  rw [henvs]
  by_cases hie : i = e
  · subst hie
    rw [update_self]
    exact hv
  · rw [update_of_ne hie]
    exact h i hi

namespace EnvTable

variable {s s' : Kernel} {l : List Nat}

/-- Only links, statuses and directories matter. -/
theorem congr (h : EnvTable s l) (hf : s'.envFreeList = s.envFreeList)
    (hl : ∀ i, (s'.envs i).envLink = (s.envs i).envLink) (hs : ∀ i, i < NENV →
      ((s'.envs i).envStatus = .free ↔ (s.envs i).envStatus = .free))
    (hp : ∀ i, i < NENV → (s'.envs i).envPgdir = (s.envs i).envPgdir) : EnvTable s' l where
  toEnvList := h.toEnvList.congr hf hl hp
  status i hi := by rw [hs i hi, hp i hi]; exact h.status i hi

theorem dir_of_live (h : EnvTable s l) {i : Nat} (hi : Live s i) :
    ∃ d, (s.envs i).envPgdir = some d := by
  cases hd : (s.envs i).envPgdir with
  | none => exact absurd ((h.status i hi.1).mpr hd) hi.2
  | some d => exact ⟨d, rfl⟩

/-- Filling the first free slot. -/
theorem pop (h : EnvTable s (e :: l)) (henvs : s'.envs = update s.envs e v)
    (hfree : s'.envFreeList = (s.envs e).envLink) (hst : v.envStatus ≠ .free)
    (hpg : v.envPgdir ≠ none) : EnvTable s' l where
  toEnvList := h.toEnvList.pop henvs hfree hpg
  status := h.status.update henvs ⟨fun hc => absurd hc hst, fun hc => absurd hc hpg⟩

/-- `env_free` puts a live slot in front. -/
theorem freed (h : EnvTable s l) (he : Live s e) (hf : Freed s s' e) :
    EnvTable s' (e :: l) where
  toEnvList := h.toEnvList.push he.1 (fun hc => he.2 ((h.status e he.1).mpr hc)) hf.envs
    hf.envFreeList rfl rfl
  status := h.status.update hf.envs ⟨fun _ => rfl, fun _ => rfl⟩

end EnvTable

/-! ## §2. Allocation. -/

/-- `env_alloc` fills slot `e`, with directory `p`. -/
def Kernel.allocEnv (s : Kernel) (parentId : Word) (e p : Nat) : Kernel :=
  { s.newSpace e p with
    envs := update s.envs e { s.envs e with
      envPgdir := some p
      envId := nextEnvId (s.envs e).envId e
      envParentId := parentId
      envType := .user
      envStatus := .runnable
      envRuns := 0#32
      envTf := freshTf
      envPgfaultUpcall := 0#32
      envIpcRecving := false
      envE1000WaitingRx := false }
    envFreeList := (s.envs e).envLink
    fsKin := update s.fsKin e false }

section

variable {own spare : Set Nat} {s : Kernel} {l : List Nat}

theorem envAlloc_full (parentId : Word) (h : s.envFreeList = none) :
    envAlloc parentId s = .ok (.error (-E_NO_FREE_ENV)) s := by
  unfold envAlloc
  rw [bind_get, h]
  rfl

theorem envAlloc_oom (parentId : Word) (h : s.envFreeList = some e)
    (hvm : envSetupVm e s = .ok (-E_NO_MEM) s) :
    envAlloc parentId s = .ok (.error (-E_NO_MEM)) s := by
  unfold envAlloc
  rw [bind_get, h]
  show (envSetupVm e >>= _) s = _
  rw [bind_ok hvm, if_pos (by decide)]
  rfl

theorem envAlloc_ok (parentId : Word) {e p : Nat} (h : s.envFreeList = some e)
    (hvm : envSetupVm e s = .ok 0#32 (s.newSpace e p)) :
    envAlloc parentId s = .ok (.ok e) (s.allocEnv parentId e p) := by
  unfold envAlloc
  rw [bind_get, h]
  show (envSetupVm e >>= _) s = _
  rw [bind_ok hvm, if_neg (by decide)]
  unfold modifyEnv
  show EStateM.Result.ok (Except.ok e) _ = _
  congr 1
  unfold Kernel.allocEnv Kernel.newSpace Kernel.setEnv
  simp

/-- **`env_alloc`**: no slot, no memory, or the first free slot is filled. -/
theorem PageInv.envAlloc (h : PageInv own spare s) (ht : EnvTable s l) (parentId : Word) :
    (envAlloc parentId s = .ok (.error (-E_NO_FREE_ENV)) s ∧ l = []) ∨
    (envAlloc parentId s = .ok (.error (-E_NO_MEM)) s ∧ s.pageFreeList = none) ∨
    ∃ (e : Fin NENV) (p : Nat) (l' : List Nat), l = e.val :: l' ∧ s.pageFreeList = some p ∧
      envAlloc parentId s = .ok (.ok e.val) (s.allocEnv parentId e p) ∧
      PageInv own spare (s.allocEnv parentId e p) ∧
      EnvTable (s.allocEnv parentId e p) l' ∧
      refs (s.allocEnv parentId e p) = update (refs s) (dirSlot e) (some p) := by
  cases hhead : s.envFreeList with
  | none => exact Or.inl ⟨envAlloc_full parentId hhead, Chain.nil_of_none (hhead ▸ ht.chain)⟩
  | some e =>
    obtain ⟨l', rfl, -⟩ := Chain.cons_of_some (hhead ▸ ht.chain)
    have helt : e < NENV := ht.lt e List.mem_cons_self
    have hedir : envDirs s ⟨e, helt⟩ = none := (ht.dir e helt).mp List.mem_cons_self
    right
    rcases h.envSetupVm hedir with ⟨hvm, hoom⟩ | ⟨p, hvm, hp, hinv, hrefs⟩
    · exact Or.inl ⟨envAlloc_oom parentId hhead hvm, hoom⟩
    · have hdirs : envDirs (s.allocEnv parentId e p) = envDirs (s.newSpace e p) := by
        funext x
        show (update s.envs e _ x.val).envPgdir
          = (update s.envs e _ x.val).envPgdir
        by_cases hx : x.val = e
        · rw [hx, update_self, update_self]
        · rw [update_of_ne hx, update_of_ne hx]
      refine Or.inr ⟨⟨e, helt⟩, p, l', rfl, hp, envAlloc_ok parentId hhead hvm,
        hinv.congr rfl rfl rfl rfl rfl hdirs,
        ht.pop rfl rfl (by simp) (by simp), ?_⟩
      rw [← hrefs]
      unfold refs
      rw [hdirs]
      rfl

end

/-! ## §3. Looking an environment up. -/

/-- What `envid2env` answers when environment `c` is running. -/
def findEnv (s : Kernel) (c : Nat) (envid : Word) (checkperm : Bool) : Except Word Nat :=
  if envid = 0#32 then .ok c
  else if (s.envs (envx envid)).envStatus = .free ∨ (s.envs (envx envid)).envId ≠ envid then
    .error (-E_BAD_ENV)
  else if checkperm = true ∧ envx envid ≠ c ∧
      (s.envs (envx envid)).envParentId ≠ (s.envs c).envId then .error (-E_BAD_ENV)
  else .ok (envx envid)

theorem envx_lt (envid : Word) : envx envid < NENV := by
  unfold envx NENV
  exact Nat.lt_of_le_of_lt Nat.and_le_right (by decide)

theorem derefCurenv_ok {s : Kernel} (hc : s.curenv = some c) : derefCurenv s = .ok c s := by
  unfold derefCurenv
  rw [bind_get, hc]
  rfl

theorem derefPgdir_ok {s : Kernel} {e d : Nat} (hd : (s.envs e).envPgdir = some d) :
    derefPgdir e s = .ok d s := by
  unfold derefPgdir
  rw [bind_get, hd]
  rfl

theorem envid2env_eq {s : Kernel} (hc : s.curenv = some c) (envid : Word) (checkperm : Bool) :
    envid2env envid checkperm s = .ok (findEnv s c envid checkperm) s := by
  unfold envid2env findEnv
  by_cases h0 : envid = 0#32
  · rw [if_pos h0, if_pos h0, bind_ok (derefCurenv_ok hc)]
    rfl
  · rw [if_neg h0, if_neg h0, bind_get]
    by_cases hbad : (s.envs (envx envid)).envStatus = .free
        ∨ (s.envs (envx envid)).envId ≠ envid
    · rw [if_pos hbad, if_pos hbad]
      rfl
    · rw [if_neg hbad, if_neg hbad]
      cases checkperm with
      | false =>
        rfl
      | true =>
        rw [if_pos rfl, hc]
        by_cases hec : envx envid = c
        · rw [if_pos (by rw [hec]), if_neg (by simp [hec])]
          rfl
        · rw [if_neg (fun h => hec (Option.some.inj h).symm), bind_ok (derefCurenv_ok hc)]
          by_cases hpar : (s.envs (envx envid)).envParentId ≠ (s.envs c).envId
          · rw [if_pos hpar, if_pos ⟨rfl, hec, hpar⟩]
            rfl
          · rw [if_neg hpar, if_neg (fun h => hpar h.2.2)]
            rfl

/-- Whom a live environment can name is live. -/
theorem findEnv_live {s : Kernel} {envid : Word} {checkperm : Bool}
    (hc : Live s c) (h : findEnv s c envid checkperm = .ok e) : Live s e := by
  unfold findEnv at h
  split at h
  · cases h
    exact hc
  · split at h
    · cases h
    · next hbad =>
        split at h
        · cases h
        · cases h
          exact ⟨envx_lt envid, fun hf => hbad (Or.inl hf)⟩

end Jos
