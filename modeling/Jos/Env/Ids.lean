/-
  Jos.Env.Ids — **ENVIRONMENT IDS OVER WHOLE RUNS.**

  An id is a generation above bit 12 and a slot below bit 10.  Along any run of
  `env_alloc` and `env_free` the `n`-th allocation of slot `i` gets the id

      envIdAt i n  =  (((n - 1) mod (2^19 - 1)) + 1) << 12 | i,

  because the generation that would be 2^19 is negative as an `int32_t` and is
  reset to 1.  So ids of live environments are positive and distinct, an old
  id of a slot does not come back before 2^19 - 1 allocations of that slot,
  and `envid2env` accepts exactly the current ids of live environments.
-/
import Jos.Env.Alloc
import Jos.Mem.Boot

namespace Jos

open Exec
open Function (update update_of_ne update_self)

variable {e i : Nat} {id : Word}

/-! ## §1. Generations. -/

/-- The generations an id can have are 1, …, `numGens`. -/
def numGens : Nat := 2 ^ 19 - 1

/-- The generation of the `n`-th allocation of a slot. -/
def genAt (n : Nat) : Nat := (n - 1) % numGens + 1

/-- The id of the `n`-th allocation of slot `i`. -/
def envIdAt (i n : Nat) : Word := (BitVec.ofNat 32 (genAt n) <<< ENVGENSHIFT) ||| BitVec.ofNat 32 i

theorem genAt_pos (n : Nat) : 0 < genAt n := Nat.succ_pos _

theorem genAt_le (n : Nat) : genAt n ≤ numGens := Nat.mod_lt (n - 1) (by decide)

/-- The generation counts up, and starts again after `numGens`. -/
theorem genAt_succ {n : Nat} (hn : 0 < n) :
    genAt (n + 1) = if genAt n = numGens then 1 else genAt n + 1 := by
  unfold genAt numGens
  split <;> omega

theorem genAt_ne {m n : Nat} (hm : 0 < m) (hmn : m < n) (hclose : n - m < numGens) :
    genAt m ≠ genAt n := by
  unfold genAt numGens at *
  omega

/-- `x & ~1023` rounds down to a multiple of `NENV`. -/
theorem and_not_slotMask (x : Word) :
    (x &&& ~~~(BitVec.ofNat 32 (NENV - 1))).toNat = x.toNat - x.toNat % 1024 := by
  have hmask : (BitVec.ofNat 32 (NENV - 1)) = 0x3FF#32 := rfl
  rw [hmask]
  have hlow : (x &&& 0x3FF#32).toNat = x.toNat % 1024 := by
    exact Nat.and_two_pow_sub_one_eq_mod x.toNat 10
  have hdisj : (x &&& ~~~0x3FF#32) &&& (x &&& 0x3FF#32) = 0#32 := by
    rw [BitVec.and_comm x (0x3FF#32), ← BitVec.and_assoc, BitVec.and_assoc x,
      BitVec.and_comm (~~~0x3FF#32), BitVec.and_not_self]
    simp
  have hsum : (x &&& ~~~0x3FF#32) + (x &&& 0x3FF#32) = x := by
    rw [BitVec.add_eq_or_of_and_eq_zero _ _ hdisj, ← BitVec.and_or_distrib_left,
      BitVec.or_comm, BitVec.or_not_self, BitVec.and_allOnes]
  have hval := congrArg BitVec.toNat hsum
  rw [BitVec.toNat_add, hlow] at hval
  omega

/-- Generation and slot do not overlap. -/
theorem or_slot_toNat {w : Word} {g i : Nat} (hw : w.toNat = g * 4096) (hi : i < NENV) :
    (w ||| BitVec.ofNat 32 i).toNat = g * 4096 + i := by
  unfold NENV at hi
  have hor := Nat.shiftLeft_add_eq_or_of_lt (show i < 2 ^ 12 by omega) g
  rw [Nat.shiftLeft_eq] at hor
  rw [BitVec.toNat_or, toNat_ofNat_lt (by omega), hw]
  exact hor.symm

theorem envIdAt_toNat (hi : i < NENV) (n : Nat) : (envIdAt i n).toNat = genAt n * 4096 + i := by
  refine or_slot_toNat ?_ hi
  have hle := genAt_le n
  unfold numGens at hle
  rw [BitVec.toNat_shiftLeft, BitVec.toNat_ofNat, Nat.shiftLeft_eq]
  unfold ENVGENSHIFT
  omega

/-- The next id, from the generation `g` of the last one. -/
theorem nextEnvId_toNat {last : Word} {g j i : Nat} (hlast : last.toNat = g * 4096 + j)
    (hj : j < 1024) (hg : g ≤ numGens) (hi : i < NENV) :
    (nextEnvId last i).toNat = (if g = numGens then 1 else g + 1) * 4096 + i := by
  unfold numGens at hg ⊢
  have hsum : (last + (1#32 <<< ENVGENSHIFT)).toNat = (g + 1) * 4096 + j := by
    rw [BitVec.toNat_add, show (1#32 <<< ENVGENSHIFT : Word).toNat = 4096 from rfl, hlast]
    omega
  have hgen : ((last + (1#32 <<< ENVGENSHIFT)) &&& ~~~(BitVec.ofNat 32 (NENV - 1))).toNat
      = (g + 1) * 4096 := by
    rw [and_not_slotMask, hsum]
    omega
  unfold nextEnvId
  generalize (last + (1#32 <<< ENVGENSHIFT)) &&& ~~~(BitVec.ofNat 32 (NENV - 1)) = w at hgen ⊢
  refine or_slot_toNat ?_ hi
  -- only the generation 2^19 has its sign bit set
  have hsign : w.sle 0#32 = decide (g = 2 ^ 19 - 1) := by
    rw [BitVec.sle, BitVec.toInt_eq_toNat_cond, BitVec.toInt_zero, hgen]
    rw [decide_eq_decide]
    split <;> omega
  rw [hsign]
  by_cases hmax : g = 2 ^ 19 - 1
  · rw [if_pos (by simpa using hmax), if_pos hmax]
    rfl
  · rw [if_neg (by simpa using hmax), if_neg hmax, hgen]

theorem nextEnvId_first (hi : i < NENV) : nextEnvId 0#32 i = envIdAt i 1 := by
  apply BitVec.eq_of_toNat_eq
  have hzero : (0#32 : Word).toNat = 0 * 4096 + 0 := by simp
  rw [nextEnvId_toNat hzero (by omega) (Nat.zero_le _) hi, envIdAt_toNat hi]
  simp [genAt, numGens]

theorem nextEnvId_envIdAt {i n : Nat} (hi : i < NENV) (hn : 0 < n) :
    nextEnvId (envIdAt i n) i = envIdAt i (n + 1) := by
  apply BitVec.eq_of_toNat_eq
  rw [nextEnvId_toNat (envIdAt_toNat hi n) hi (genAt_le n) hi, envIdAt_toNat hi, genAt_succ hn]

theorem envx_envIdAt (hi : i < NENV) (n : Nat) : envx (envIdAt i n) = i := by
  unfold envx
  rw [BitVec.toNat_and, envIdAt_toNat hi]
  show (genAt n * 4096 + i) &&& (2 ^ 10 - 1) = i
  rw [Nat.and_two_pow_sub_one_eq_mod]
  unfold NENV at hi
  omega

theorem envIdAt_pos (hi : i < NENV) (n : Nat) : 0 < (envIdAt i n).toInt := by
  have hle := genAt_le n
  have hpos := genAt_pos n
  unfold numGens at hle
  unfold NENV at hi
  rw [BitVec.toInt_eq_toNat_cond, envIdAt_toNat hi]
  split <;> omega

theorem envIdAt_ne {i m n : Nat} (hi : i < NENV) (hm : 0 < m) (hmn : m < n)
    (hclose : n - m < numGens) : envIdAt i m ≠ envIdAt i n := by
  intro h
  have hval := congrArg BitVec.toNat h
  rw [envIdAt_toNat hi, envIdAt_toNat hi] at hval
  exact genAt_ne hm hmn hclose (by omega)

/-! ## §2. Runs. -/

/-- Ids, links, directories and the free list are the same, and the same slots
are free. -/
structure SlotFrame (s s' : Kernel) : Prop where
  envFreeList : s'.envFreeList = s.envFreeList
  envId : ∀ i, (s'.envs i).envId = (s.envs i).envId
  envLink : ∀ i, (s'.envs i).envLink = (s.envs i).envLink
  envPgdir : ∀ i, (s'.envs i).envPgdir = (s.envs i).envPgdir
  free : ∀ i, (s'.envs i).envStatus = .free ↔ (s.envs i).envStatus = .free

/-- Runs of `env_alloc`, which may fail, and `env_free` from `s₀`; anything else
may happen in between that leaves the slots alone.  `n i` counts how often slot
`i` has been allocated. -/
inductive IdRun (s₀ : Kernel) : (Nat → Nat) → Kernel → Prop where
  | start : IdRun s₀ (fun _ => 0) s₀
  | alloc {n : Nat → Nat} {s s' : Kernel} {parentId : Word} {e : Nat} (h : IdRun s₀ n s)
      (hrun : envAlloc parentId s = .ok (.ok e) s') :
      IdRun s₀ (update n e (n e + 1)) s'
  | allocFails {n : Nat → Nat} {s s' : Kernel} {parentId r : Word} (h : IdRun s₀ n s)
      (hrun : envAlloc parentId s = .ok (.error r) s') : IdRun s₀ n s'
  | free {n : Nat → Nat} {s s' : Kernel} {e : Nat} (h : IdRun s₀ n s) (he : e < NENV)
      (hrun : envFree e s = .ok () s') : IdRun s₀ n s'
  | other {n : Nat → Nat} {s s' : Kernel} (h : IdRun s₀ n s) (hsame : SlotFrame s s') :
      IdRun s₀ n s'

/-- The ids the slots have after `n i` allocations of slot `i`. -/
structure IdTable (n : Nat → Nat) (s : Kernel) : Prop where
  list : ∃ l, EnvList s l
  never : ∀ i < NENV, n i = 0 → (s.envs i).envId = 0#32 ∧ (s.envs i).envStatus = .free
  id : ∀ i < NENV, 0 < n i → (s.envs i).envId = envIdAt i (n i)

section

variable {n : Nat → Nat} {u s₀ s s' : Kernel}

theorem EnvFrame.slotFrame (h : EnvFrame s s') : SlotFrame s s' :=
  ⟨h.envFreeList, fun i => by rw [h.envs], fun i => by rw [h.envs], fun i => by rw [h.envs],
    fun i => by rw [h.envs]⟩

theorem IdTable.same (h : IdTable n s) (hsame : SlotFrame s s') : IdTable n s' where
  list := h.list.imp fun _ hl => hl.congr hsame.envFreeList hsame.envLink
    (fun i _ => hsame.envPgdir i)
  never i hi hn := by rw [hsame.envId, hsame.free]; exact h.never i hi hn
  id i hi hn := by rw [hsame.envId]; exact h.id i hi hn

theorem initEnvs_idTable (hdirs : ∀ i < NENV, (u.envs i).envPgdir = none) :
    IdTable (fun _ => 0) (u.initEnvs NENV) where
  list := (initEnvs_table hdirs).imp fun _ hl => hl.toEnvList
  never i hi _ := by rw [initEnvs_env u hi]; exact ⟨rfl, rfl⟩
  id i _ hn := absurd hn (Nat.lt_irrefl 0)

/-- The next allocation of a slot. -/
theorem IdTable.next (h : IdTable n s) (he : e < NENV) :
    nextEnvId (s.envs e).envId e = envIdAt e (n e + 1) := by
  rcases Nat.eq_zero_or_pos (n e) with hz | hpos
  · rw [(h.never e he hz).1, hz, nextEnvId_first he]
  · rw [h.id e he hpos, nextEnvId_envIdAt he hpos]

/-- **`env_alloc` gives the next id of the slot it takes.** -/
theorem IdTable.alloc (h : IdTable n s) {parentId : Word}
    (hrun : envAlloc parentId s = .ok (.ok e) s') :
    e < NENV ∧ (s'.envs e).envId = envIdAt e (n e + 1) ∧
      IdTable (update n e (n e + 1)) s' := by
  have halloc : Allocated parentId s (.ok e) s' := wp_ok (envAlloc_table parentId s) hrun
  obtain ⟨l, hl⟩ := h.list
  obtain ⟨l', hl'⟩ := hl.allocated halloc
  obtain ⟨hhead, d, hfr⟩ := halloc
  have he : e < NENV := by
    obtain ⟨l'', rfl, -⟩ := Chain.cons_of_some (hhead ▸ hl.chain)
    exact hl.lt e List.mem_cons_self
  have hnew : (s'.envs e).envId = envIdAt e (n e + 1) := by
    rw [hfr.envs, ← h.next he]
    simp [Kernel.allocEnv]
  have hold : ∀ i, i ≠ e → s'.envs i = s.envs i := by
    intro i hi
    rw [hfr.envs]
    exact update_of_ne hi _ _
  refine ⟨he, hnew, ⟨l', hl'⟩, fun i hi hz => ?_, fun i hi hpos => ?_⟩
  · by_cases hie : i = e
    · subst hie
      rw [update_self] at hz
      omega
    · rw [update_of_ne hie] at hz
      rw [hold i hie]
      exact h.never i hi hz
  · by_cases hie : i = e
    · subst hie
      rw [update_self]
      exact hnew
    · rw [update_of_ne hie] at hpos ⊢
      rw [hold i hie]
      exact h.id i hi hpos

/-- `env_free` leaves the id in the slot. -/
theorem IdTable.free (h : IdTable n s) (he : e < NENV)
    (hrun : envFree e s = .ok () s') : IdTable n s' := by
  obtain ⟨⟨d, hd⟩, hfr⟩ := wp_ok (envFree_table e s) hrun
  obtain ⟨l, hl⟩ := h.list
  have henvs : s'.envs = update s.envs e { s.envs e with
      envPgdir := none, envStatus := .free, envLink := s.envFreeList } := by
    rw [hfr.envs]
    show update (leaveDir s e).envs e _ = _
    rw [leaveDir_envs]
  have hid : ∀ i, (s'.envs i).envId = (s.envs i).envId ∧
      ((s.envs i).envStatus = .free → (s'.envs i).envStatus = .free) := by
    intro i
    rw [henvs]
    by_cases hie : i = e
    · subst hie
      rw [update_self]
      exact ⟨rfl, fun _ => rfl⟩
    · rw [update_of_ne hie]
      exact ⟨rfl, fun hf => hf⟩
  refine ⟨⟨_, (hl.freeSlot he hd).of_frame hfr⟩, fun i hi hz => ?_, fun i hi hpos => ?_⟩
  · rw [(hid i).1]
    exact ⟨(h.never i hi hz).1, (hid i).2 (h.never i hi hz).2⟩
  · rw [(hid i).1]
    exact h.id i hi hpos

theorem IdRun.table (h₀ : IdTable (fun _ => 0) s₀) (hrun : IdRun s₀ n s) : IdTable n s := by
  induction hrun with
  | start => exact h₀
  | alloc _ hr ih => exact (ih.alloc hr).2.2
  | @allocFails n s s' parentId r _ hr ih =>
    have halloc : Allocated parentId s (.error r) s' := wp_ok (envAlloc_table parentId s) hr
    exact ih.same (EnvFrame.slotFrame halloc)
  | free _ he hr ih => exact ih.free he hr
  | other _ hsame ih => exact ih.same hsame

/-- A live slot has been allocated. -/
theorem IdTable.live (h : IdTable n s) (hi : Live s i) :
    0 < n i ∧ (s.envs i).envId = envIdAt i (n i) := by
  have hpos : 0 < n i := by
    rcases Nat.eq_zero_or_pos (n i) with hz | hpos
    · exact absurd (h.never i hi.1 hz).2 hi.2
    · exact hpos
  exact ⟨hpos, h.id i hi.1 hpos⟩

/-! ## §3. Looking ids up. -/

/-- `envid2env(id, &e, 0)` for an id other than 0. -/
theorem envid2env_unchecked (h0 : id ≠ 0#32) (s : Kernel) :
    envid2env id false s
      = .ok (if (s.envs (envx id)).envStatus = .free ∨ (s.envs (envx id)).envId ≠ id
          then .error (-E_BAD_ENV) else .ok (envx id)) s := by
  unfold envid2env
  rw [if_neg h0, bind_get]
  split
  · rfl
  · rfl

/-- It yields `e` exactly for the current id of `e`. -/
theorem IdTable.lookup_iff (h : IdTable n s) (h0 : id ≠ 0#32) (e : Nat) :
    envid2env id false s = .ok (.ok e) s ↔ Live s e ∧ (s.envs e).envId = id := by
  rw [envid2env_unchecked h0]
  constructor
  · intro heq
    split at heq
    · cases heq
    · next hok =>
        cases heq
        exact ⟨⟨envx_lt id, fun hf => hok (Or.inl hf)⟩, not_not.mp fun hne => hok (Or.inr hne)⟩
  · rintro ⟨hlive, rfl⟩
    have hx : envx (s.envs e).envId = e := by rw [(h.live hlive).2, envx_envIdAt hlive.1]
    rw [hx, if_neg (by simp [hlive.2])]

/-- It fails for every id that no live environment has. -/
theorem IdTable.lookup_bad (h : IdTable n s) (h0 : id ≠ 0#32)
    (hnone : ∀ e, Live s e → (s.envs e).envId ≠ id) :
    envid2env id false s = .ok (.error (-E_BAD_ENV)) s := by
  rw [envid2env_unchecked h0]
  by_cases hbad : (s.envs (envx id)).envStatus = .free ∨ (s.envs (envx id)).envId ≠ id
  · rw [if_pos hbad]
  · have hiff := (h.lookup_iff h0 (envx id)).mp (by rw [envid2env_unchecked h0, if_neg hbad])
    exact absurd hiff.2 (hnone _ hiff.1)

/-! ## §4. Environment ids. -/

/-- **Environment ids.**  After any run of `env_alloc` and `env_free` from
`env_init`: a live environment has the id its last allocation gave, which is
positive and names its slot; the next allocation of a slot gives its next id;
ids of live environments are distinct, and so are ids of one slot less than
2^19 - 1 allocations apart; `envid2env` finds exactly the current ids of live
environments, and answers -E_BAD_ENV for an id of an earlier allocation, or of
an environment that has been freed, and for every negative number. -/
theorem envIds_run (hdirs : ∀ i < NENV, (u.envs i).envPgdir = none)
    (hinit : envInit u = .ok () s₀) (hrun : IdRun s₀ n s) :
    (∀ i, Live s i → (s.envs i).envId = envIdAt i (n i) ∧ 0 < (s.envs i).envId.toInt ∧
      envx (s.envs i).envId = i) ∧
    (∀ parentId e s', envAlloc parentId s = .ok (.ok e) s' →
      (s'.envs e).envId = envIdAt e (n e + 1)) ∧
    (∀ i j, Live s i → Live s j → (s.envs i).envId = (s.envs j).envId → i = j) ∧
    (∀ i < NENV, ∀ m k, 0 < m → m < k → k - m < 2 ^ 19 - 1 → envIdAt i m ≠ envIdAt i k) ∧
    (∀ id, id ≠ 0#32 → ∀ e, envid2env id false s = .ok (.ok e) s ↔
      Live s e ∧ (s.envs e).envId = id) ∧
    (∀ i < NENV, ∀ m, 0 < m → m ≤ n i → n i - m < 2 ^ 19 - 1 → (m = n i → ¬ Live s i) →
      envid2env (envIdAt i m) false s = .ok (.error (-E_BAD_ENV)) s) ∧
    ∀ id : Word, id.toInt < 0 → envid2env id false s = .ok (.error (-E_BAD_ENV)) s := by
  rw [envInit_ok] at hinit
  cases hinit
  have htab := hrun.table (initEnvs_idTable hdirs)
  have hne : ∀ {id : Word}, id.toInt ≠ 0 → id ≠ 0#32 := by
    rintro id hid rfl
    exact hid rfl
  have hlive : ∀ i, Live s i → (s.envs i).envId = envIdAt i (n i) ∧
      0 < (s.envs i).envId.toInt ∧ envx (s.envs i).envId = i := by
    intro i hi
    obtain ⟨hpos, hid⟩ := htab.live hi
    exact ⟨hid, by rw [hid]; exact envIdAt_pos hi.1 _, by rw [hid]; exact envx_envIdAt hi.1 _⟩
  refine ⟨hlive, fun parentId e s' hr => (htab.alloc hr).2.1, fun i j hi hj hij => ?_,
    fun i hi m k hm hmk hk => envIdAt_ne hi hm hmk hk, fun id h0 e => htab.lookup_iff h0 e,
    fun i hi m hm hmn hclose hstale => ?_, fun id hneg => ?_⟩
  · rw [← (hlive i hi).2.2, ← (hlive j hj).2.2, hij]
  · -- only the environment in slot `i` could have this id, and its id is another one
    refine htab.lookup_bad (hne (envIdAt_pos hi m).ne') (fun e he heq => ?_)
    have hslot : e = i := by rw [← (hlive e he).2.2, heq, envx_envIdAt hi]
    subst hslot
    rcases Nat.lt_or_ge m (n e) with hlt | hge
    · rw [(hlive e he).1] at heq
      exact envIdAt_ne hi hm hlt hclose heq.symm
    · exact hstale (by omega) he
  · refine htab.lookup_bad (hne (by omega)) (fun e he heq => ?_)
    have := (hlive e he).2.1
    rw [heq] at this
    omega

/-- A kernel with one free page. -/
def onePage : Kernel := { Kernel.powerOn with npages := 2, pageFreeList := some 1 }

/-- The hypotheses of `envIds_run` are met: `env_init`, then one `env_alloc`. -/
theorem envIds_run_onePage : ∃ s₀ s n, envInit onePage = .ok () s₀ ∧ IdRun s₀ n s ∧ Live s 0 ∧
    (s.envs 0).envId = 0x1000#32 := by
  have hvm : envSetupVm 0 (onePage.initEnvs NENV)
      = .ok 0#32 ((onePage.initEnvs NENV).newSpace 0 1) :=
    envSetupVm_ok 0 rfl rfl (by decide) (by decide) (by decide)
  have hrun : IdRun (onePage.initEnvs NENV) _ _ :=
    IdRun.start.alloc (envAlloc_ok 0#32 (initEnvs_envFreeList onePage) hvm)
  have hlive : Live ((onePage.initEnvs NENV).allocEnv 0#32 0 1) 0 := by
    refine ⟨by decide, ?_⟩
    simp [Kernel.allocEnv]
  refine ⟨_, _, _, envInit_ok onePage, hrun, hlive, ?_⟩
  rw [((envIds_run (fun _ _ => rfl) (envInit_ok onePage) hrun).1 0 hlive).1]
  rfl

end

end Jos
