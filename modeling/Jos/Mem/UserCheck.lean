/-
  Jos.Mem.UserCheck — **WHAT `user_mem_check` CHECKS** (`kern/pmap.c`).

  The check walks from an unaligned start by whole pages to a rounded-up end.
  `Accessible` is what it is for: an address below `ULIM` whose page both levels
  of the page table grant.

    • `userMemCheck_exact_iff`: when the check is exact, and its address the least
      that fails.
    • `userMemCheck_wraps`: a range that wraps is accepted in every state.
    • `printStr_reads_string`: what `sys_cputs` then reads of the range.
-/
import Jos.Kern.Rings
import Jos.Mem.RefWrap

namespace Jos

open Exec

/-! ## §1. What may be accessed. -/

/-- The entry has `PTE_P` and all bits of `perm`. -/
def Grants (entry perm : Word) : Prop := entry &&& (perm ||| PTE_P) = perm ||| PTE_P

instance (entry perm : Word) : Decidable (Grants entry perm) := inferInstanceAs (Decidable (_ = _))

/-- Address `a` may be accessed with `perm` through directory `d`. -/
def Accessible (s : Kernel) (d : Nat) (perm : Word) (a : Nat) : Prop :=
  a < ULIM.toNat ∧ Grants (s.mem d (pdx (BitVec.ofNat 32 a))) perm
    ∧ Grants (s.mem (ptePage (s.mem d (pdx (BitVec.ofNat 32 a)))) (ptx (BitVec.ofNat 32 a))) perm

/-- What the loop tests of address `a`: a directory entry need only be present. -/
def Passes (s : Kernel) (d : Nat) (perm : Word) (a : Nat) : Prop :=
  a < ULIM.toNat ∧ present (s.mem d (pdx (BitVec.ofNat 32 a))) = true
    ∧ Grants (s.mem (ptePage (s.mem d (pdx (BitVec.ofNat 32 a)))) (ptx (BitVec.ofNat 32 a))) perm

/-- The addresses from `va` on, as integers. -/
def InRange (va len : Word) (a : Nat) : Prop := va.toNat ≤ a ∧ a < va.toNat + len.toNat

theorem or_eq_left_iff (x y : Word) : x ||| y = x ↔ x &&& y = y := by
  constructor
  · intro h
    rw [← h, BitVec.and_comm]
    ext i hi
    simp
    tauto
  · intro h
    rw [← h]
    ext i hi
    simp
    tauto

/-- The test of the source, as one of all bits. -/
theorem or_perm_eq_iff (entry perm : Word) :
    entry ||| perm ||| PTE_P = entry ↔ Grants entry perm := by
  rw [BitVec.or_assoc]
  exact or_eq_left_iff _ _

theorem Grants.present {entry perm : Word} (h : Grants entry perm) : present entry = true := by
  have hp : entry &&& PTE_P = PTE_P := by
    have hor : entry ||| PTE_P = entry := by
      have h' := (or_perm_eq_iff entry perm).mpr h
      rw [← h', BitVec.or_assoc, BitVec.or_self]
    exact (or_eq_left_iff _ _).mp hor
  unfold Jos.present
  rw [hp]
  decide

theorem Accessible.passes {s : Kernel} {d : Nat} {perm : Word} {a : Nat}
    (h : Accessible s d perm a) : Passes s d perm a :=
  ⟨h.1, h.2.1.present, h.2.2⟩

/-- Addresses of one page go through the same entries. -/
theorem Passes.of_page {s : Kernel} {d : Nat} {perm : Word} {a b : Nat}
    (h : Passes s d perm a) (ha : a < 2 ^ 32) (hb : b < 2 ^ 32)
    (hpage : b / 4096 = a / 4096) : Passes s d perm b := by
  have hpdx : pdx (BitVec.ofNat 32 b) = pdx (BitVec.ofNat 32 a) := by
    rw [pdx_eq, pdx_eq, toNat_ofNat_lt ha, toNat_ofNat_lt hb]
    omega
  have hptx : ptx (BitVec.ofNat 32 b) = ptx (BitVec.ofNat 32 a) := by
    rw [ptx_eq, ptx_eq, toNat_ofNat_lt ha, toNat_ofNat_lt hb]
    omega
  have hulim : ULIM.toNat = 980992 * 4096 := by decide
  unfold Passes at h ⊢
  rw [hpdx, hptx]
  exact ⟨by omega, h.2⟩

/-! ## §2. One page. -/

/-- Every table a directory points to is in memory. -/
def WalksOk (s : Kernel) (d : Nat) : Prop :=
  ∀ i < NPTENTRIES, ∀ t, target s.mem d i = some t → t < s.npages

/-- The directories the kernel builds are of this kind. -/
theorem MemInv.walksOk {own : Set Nat} {s : Kernel} (h : MemInv own s) {e : Fin NENV} {d : Nat}
    (hd : envDirs s e = some d) : WalksOk s d := by
  intro i hi t ht
  by_cases huser : i < NPDUSER
  · refine (h.page.books.ref (ptSlot e ⟨i, huser⟩) t ?_).1
    exact (deref_ptSlot hd ⟨i, huser⟩).trans ht
  · by_cases hself : i = pdx UVPT
    · subst hself
      rw [h.page.half.dir_self e d hd] at ht
      obtain rfl := Option.some.inj ht
      exact (h.page.books.ref (dirSlot e) d hd).1
    · have hm : target s.mem s.kernPgdir i = some t := by
        unfold target at ht ⊢
        rwa [← h.page.half.dir_upper e d hd i (by omega) hi hself]
      exact h.page.own_lt t (h.page.half.kern_table i (by omega) hi hself t hm).1

/-- The test of the loop's body. -/
def checkBad (env : Nat) (addr perm : Word) : KM Bool := do
  let d ← derefPgdir env
  match ← pgdirWalk d (rounddown addr) false with
  | none => pure true
  | some (p, j) => do
      let pte := (← get).mem p j
      pure (decide ((pte ||| perm ||| PTE_P) ≠ pte) || decide (addr ≥ ULIM))

theorem pdx_rounddown (a : Word) : pdx (rounddown a) = pdx a := by
  rw [pdx_eq, pdx_eq, rounddown_toNat]
  omega

theorem ptx_rounddown (a : Word) : ptx (rounddown a) = ptx a := by
  rw [ptx_eq, ptx_eq, rounddown_toNat]
  omega

/-- **The body's test.** -/
theorem checkBad_run {s : Kernel} {env d : Nat} {addr perm : Word}
    (hd : (s.envs env).envPgdir = some d) (hwalk : WalksOk s d) :
    ∃ bad, checkBad env addr perm s = .ok bad s
      ∧ (bad = false ↔ Passes s d perm addr.toNat) := by
  have hderef : derefPgdir env s = .ok d s := by
    unfold derefPgdir
    rw [bind_get, hd]
    rfl
  have hself : BitVec.ofNat 32 addr.toNat = addr := by simp
  unfold checkBad Passes
  rw [bind_ok hderef, hself]
  cases ht : target s.mem d (pdx (rounddown addr)) with
  | none =>
    rw [bind_ok (pgdirWalk_absent ht)]
    refine ⟨true, rfl, by simp, fun h => ?_⟩
    have hp := target_eq_none ht
    rw [pdx_rounddown] at hp
    rw [h.2.1] at hp
    cases hp
  | some t =>
    rw [bind_ok (pgdirWalk_present false ht (hwalk _ (pdx_lt _) t ht))]
    obtain ⟨hp, hpage⟩ := target_eq_some ht
    rw [pdx_rounddown] at hp hpage
    rw [ptx_rounddown]
    refine ⟨_, rfl, ?_⟩
    rw [hpage, Bool.or_eq_false_iff, decide_eq_false_iff_not, decide_eq_false_iff_not, not_not,
      or_perm_eq_iff]
    have hulim : ¬ addr ≥ ULIM ↔ addr.toNat < ULIM.toNat := by
      rw [ge_iff_le, BitVec.le_def, Nat.not_le]
    rw [hulim]
    constructor
    · rintro ⟨hpte, hlt⟩
      exact ⟨hlt, hp, hpte⟩
    · rintro ⟨hlt, _, hpte⟩
      exact ⟨hpte, hlt⟩

/-! ## §3. The loop. -/

/-- One round of the loop. -/
theorem userMemCheckLoop_succ (env : Nat) (start bound perm : Word) (n : Nat) (s : Kernel) :
    userMemCheckLoop env start bound perm (n + 1) s
      = if s.userMemCheckAddr < bound then
          (checkBad env s.userMemCheckAddr perm >>= fun bad =>
            if bad = true then do
              modify fun t => { t with
                userMemCheckAddr := if s.userMemCheckAddr ≠ start
                  then rounddown s.userMemCheckAddr else s.userMemCheckAddr }
              pure (-E_FAULT)
            else do
              modify fun t => { t with userMemCheckAddr := s.userMemCheckAddr + PGSIZE }
              userMemCheckLoop env start bound perm n : KM Word) s
        else .ok 0#32 s := by
  rw [userMemCheckLoop, bind_get]
  split
  · unfold checkBad
    simp only [bind_assoc]
    refine congrFun (?_ : (_ : KM Word) = _) s
    congr 1
    funext d
    congr 1
    funext x
    cases x <;> rfl
  · rfl

/-- What the check of `[start, bound)` ends with: `r` and the address it leaves. -/
def Checked (s : Kernel) (d : Nat) (perm : Word) (start bound : Nat) (r : Word) (f : Nat) : Prop :=
  (r = 0#32 ∧ ∀ a, start ≤ a → a < bound → Passes s d perm a)
    ∨ (r = -E_FAULT ∧ start ≤ f ∧ f < bound ∧ (f = start ∨ f % 4096 = 0)
        ∧ ¬ Passes s d perm f ∧ ∀ a, start ≤ a → a < f → Passes s d perm a)

section

variable {s : Kernel} {env d : Nat} {start bound perm : Word}

/-- **The loop**, after `k` pages that pass. -/
theorem userMemCheckLoop_run (hd : (s.envs env).envPgdir = some d) (hwalk : WalksOk s d)
    (hbound : bound.toNat % 4096 = 0) (n : Nat) :
    ∀ (k : Nat) (addr : Word), addr.toNat = start.toNat + 4096 * k →
      bound.toNat / 4096 ≤ start.toNat / 4096 + k + n →
      (∀ a, start.toNat ≤ a → a < bound.toNat → a / 4096 < start.toNat / 4096 + k →
        Passes s d perm a) →
      ∃ r f, userMemCheckLoop env start bound perm n { s with userMemCheckAddr := addr }
          = .ok r { s with userMemCheckAddr := f }
        ∧ Checked s d perm start.toNat bound.toNat r f.toNat := by
  induction n with
  | zero =>
    intro k addr haddr hfuel hgood
    exact ⟨0#32, addr, rfl, .inl ⟨rfl, fun a h1 h2 => hgood a h1 h2 (by omega)⟩⟩
  | succ n ih =>
    intro k addr haddr hfuel hgood
    rw [userMemCheckLoop_succ]
    by_cases hmore : addr < bound
    · have hin : addr.toNat < bound.toNat := hmore
      rw [if_pos hmore]
      obtain ⟨bad, hrun, hbad⟩ := checkBad_run (s := { s with userMemCheckAddr := addr })
        hd hwalk
      rw [bind_ok hrun]
      have hbad' : bad = false ↔ Passes s d perm addr.toNat := hbad
      cases bad with
      | false =>
        -- the whole page is fine; go on with the next one
        have hacc := hbad'.mp rfl
        refine ih (k + 1) (addr + PGSIZE) ?_ (by omega) ?_
        · rw [BitVec.toNat_add, show PGSIZE.toNat = 4096 from rfl, Nat.mod_eq_of_lt (by omega)]
          omega
        · intro a h1 h2 h3
          by_cases hold : a / 4096 < start.toNat / 4096 + k
          · exact hgood a h1 h2 hold
          · exact hacc.of_page (by omega) (by omega) (by omega)
      | true =>
        have hno : ¬ Passes s d perm addr.toNat := fun h => by
          cases hbad'.mpr h
        refine ⟨-E_FAULT, if addr ≠ start then rounddown addr else addr, rfl, .inr ⟨rfl, ?_⟩⟩
        by_cases hfirst : addr = start
        · rw [if_neg (not_not.mpr hfirst)]
          have heq : addr.toNat = start.toNat := congrArg _ hfirst
          refine ⟨by omega, hin, .inl heq, hno, fun a h1 h2 => ?_⟩
          omega
        · rw [if_pos hfirst]
          have hk : 0 < k := by
            rcases Nat.eq_zero_or_pos k with h0 | h0
            · exact absurd (BitVec.eq_of_toNat_eq (by omega)) hfirst
            · exact h0
          have hround := rounddown_toNat addr
          refine ⟨by omega, by omega, .inr (by omega), ?_, fun a h1 h2 => ?_⟩
          · intro hacc
            exact hno (hacc.of_page (by omega) (by omega) (by omega))
          · exact hgood a h1 (by omega) (by omega)
    · have hout : ¬ addr.toNat < bound.toNat := hmore
      rw [if_neg hmore]
      refine ⟨0#32, addr, rfl, .inl ⟨rfl, fun a h1 h2 => hgood a h1 h2 ?_⟩⟩
      omega

end

/-! ## §4. The check. -/

/-- The addresses of the range that may not be accessed. -/
def refused (s : Kernel) (d : Nat) (va len perm : Word) : Set Nat :=
  {a | InRange va len a ∧ ¬ Accessible s d perm a}

/-- The inputs for which the check is exact.  The least address to be refused lies below
the bound as it is computed, and is not one that only its directory entry refuses; and the
page of an empty range, where it is looked at, passes. -/
structure Checkable (s : Kernel) (d : Nat) (va len perm : Word) : Prop where
  least : ∀ a, IsLeast (refused s d va len perm) a →
    a < (roundup (va + len)).toNat ∧ ¬ Passes s d perm a
  empty : len = 0#32 → va < roundup va → Passes s d perm va.toNat

/-- What the check is for: 0 if every address of the range may be accessed, otherwise
`-E_FAULT` and the least that may not. -/
def ExactResult (s : Kernel) (d : Nat) (va len perm r f : Word) : Prop :=
  (r = 0#32 ↔ ∀ a, InRange va len a → Accessible s d perm a)
    ∧ (r ≠ 0#32 → r = -E_FAULT ∧ IsLeast (refused s d va len perm) f.toNat)

section

variable {s : Kernel} {d : Nat} {va len perm : Word}

theorem exists_least_refused (h : (refused s d va len perm).Nonempty) :
    ∃ b, IsLeast (refused s d va len perm) b :=
  ⟨_, Nat.sInf_mem h, fun _ ha => Nat.sInf_le ha⟩

/-- Every page up to the computed bound passed. -/
theorem exact_of_passed
    (hall : ∀ a, va.toNat ≤ a → a < (roundup (va + len)).toNat → Passes s d perm a) (f : Word) :
    ExactResult s d va len perm 0#32 f ↔ Checkable s d va len perm := by
  constructor
  · rintro ⟨hzero, -⟩
    refine ⟨fun a ha => absurd (hzero.mp rfl a ha.1.1) ha.1.2, fun h0 hlt => ?_⟩
    rw [h0, BitVec.add_zero] at hall
    exact hall _ le_rfl hlt
  · intro h
    refine ⟨⟨fun _ a ha => ?_, fun _ => rfl⟩, fun hne => absurd rfl hne⟩
    by_contra hno
    obtain ⟨b, hb⟩ := exists_least_refused ⟨a, ha, hno⟩
    exact (h.least b hb).2 (hall b hb.1.1.1 (h.least b hb).1)

/-- The check stopped at `f`, the first address that does not pass. -/
theorem exact_of_refused {f : Word} (h1 : va.toNat ≤ f.toNat)
    (h2 : f.toNat < (roundup (va + len)).toNat) (h3 : f.toNat = va.toNat ∨ f.toNat % 4096 = 0)
    (hno : ¬ Passes s d perm f.toNat)
    (hbefore : ∀ a, va.toNat ≤ a → a < f.toNat → Passes s d perm a) :
    ExactResult s d va len perm (-E_FAULT) f ↔ Checkable s d va len perm := by
  constructor
  · rintro ⟨-, hbad⟩
    have hleast := (hbad (by decide)).2
    refine ⟨fun a ha => ?_, fun h0 _ => ?_⟩
    · rw [ha.unique hleast]
      exact ⟨h2, hno⟩
    · have hin := hleast.1.1
      unfold InRange at hin
      rw [h0, show (0#32 : Word).toNat = 0 from rfl] at hin
      omega
  · intro h
    have hround := roundup_toNat (va + len)
    rw [BitVec.toNat_add] at hround
    have hlen : 0 < len.toNat := by
      refine Nat.pos_of_ne_zero fun h0 => ?_
      have h0' : len = 0#32 := BitVec.eq_of_toNat_eq h0
      rw [h0', BitVec.add_zero] at h2
      have hround' := roundup_toNat va
      have hva := h.empty h0' (show va.toNat < _ by omega)
      exact hno (by rwa [show f.toNat = va.toNat by omega])
    have hin : f.toNat ∈ refused s d va len perm :=
      ⟨⟨h1, by omega⟩, fun hacc => hno hacc.passes⟩
    refine ⟨⟨fun h0 => absurd h0 (by decide), fun hall => absurd (hall _ hin.1) hin.2⟩,
      fun _ => ⟨rfl, hin, fun a ha => ?_⟩⟩
    obtain ⟨b, hb⟩ := exists_least_refused ⟨a, ha⟩
    by_contra hlt
    exact (h.least b hb).2 (hbefore b hb.1.1.1 (by have := hb.2 ha; omega))

end

/-- **WHEN `user_mem_check` IS EXACT**, in every state of the memory system and for every
environment: just on the inputs that are `Checkable`. -/
theorem userMemCheck_exact_iff {own : Set Nat} {s : Kernel} (hinv : MemInv own s) (e : Fin NENV)
    {d : Nat} (hd : (s.envs e).envPgdir = some d) (va len perm : Word) :
    ∃ r f, userMemCheck e va len perm s = .ok r { s with userMemCheckAddr := f }
      ∧ (ExactResult s d va len perm r f ↔ Checkable s d va len perm) := by
  have hround := roundup_toNat (va + len)
  obtain ⟨r, f, hrun, hres⟩ := @userMemCheckLoop_run s e d va (roundup (va + len)) perm hd
    (hinv.walksOk hd) (by omega) (2 ^ 20) 0 va (by omega)
    (by have := (roundup (va + len)).isLt; omega) (fun a h1 _ h3 => by omega)
  refine ⟨r, f, ?_, ?_⟩
  · unfold userMemCheck
    generalize 2 ^ 20 = n at hrun ⊢
    exact hrun
  rcases hres with ⟨rfl, hall⟩ | ⟨rfl, h1, h2, h3, hno, hbefore⟩
  · exact exact_of_passed hall f
  · exact exact_of_refused h1 h2 h3 hno hbefore

/-- Four bytes of the kernel, asked for in the first environment: refused at the first. -/
theorem userMemCheck_exact_kernel : ∃ own s d, MemInv own s ∧ (s.envs 0).envPgdir = some d
    ∧ Checkable s d 0xF0000000#32 4#32 0#32
    ∧ ∃ r f, userMemCheck 0 0xF0000000#32 4#32 0#32 s = .ok r { s with userMemCheckAddr := f }
      ∧ r = -E_FAULT ∧ IsLeast (refused s d 0xF0000000#32 4#32 0#32) f.toNat := by
  obtain ⟨s₀, s, pp, -, -, hs⟩ := exists_spread
  obtain ⟨d, hd⟩ := hs.inv.dir hs.live
  have hno : ∀ a, InRange 0xF0000000#32 4#32 a → ¬ a < ULIM.toNat := by
    intro a ha
    have h1 : 0xF0000000 ≤ a := ha.1
    have h2 : ULIM.toNat = 0xEF800000 := by decide
    omega
  have hcheck : Checkable s d 0xF0000000#32 4#32 0#32 := by
    refine ⟨fun a ha => ⟨?_, fun hp => hno a ha.1.1 hp.1⟩, fun h0 => absurd h0 (by decide)⟩
    have hlt : a < 0xF0000004 := ha.1.1.2
    have hb : (roundup (0xF0000000#32 + 4#32)).toNat = 0xF0001000 := by decide
    omega
  obtain ⟨r, f, hrun, hiff⟩ := userMemCheck_exact_iff hs.inv ⟨0, by decide⟩ hd
    0xF0000000#32 4#32 0#32
  obtain ⟨hzero, hbad⟩ := hiff.mpr hcheck
  have hr : r ≠ 0#32 := fun h0 =>
    hno 0xF0000000 ⟨le_rfl, by decide⟩ (hzero.mp h0 0xF0000000 ⟨le_rfl, by decide⟩).1
  exact ⟨_, s, d, hs.inv, hd, hcheck, r, f, hrun, hbad hr⟩

/-! ## §5. Ranges that wrap. -/

/-- **A range that wraps is accepted** in every state, though none of it lies
below `ULIM`. -/
theorem userMemCheck_wraps :
    (∀ (s : Kernel) (e : Nat) (perm : Word), userMemCheck e 0xFFFFF000#32 0x2000#32 perm s
        = .ok 0#32 { s with userMemCheckAddr := 0xFFFFF000#32 })
      ∧ ∀ (s : Kernel) (d : Nat) (perm : Word), InRange 0xFFFFF000#32 0x2000#32 0xFFFFF000
        ∧ ¬ Accessible s d perm 0xFFFFF000 := by
  constructor
  · intro s e perm
    unfold userMemCheck
    obtain ⟨n, hn⟩ : ∃ n, 2 ^ 20 = n + 1 := ⟨2 ^ 20 - 1, rfl⟩
    show userMemCheckLoop e 0xFFFFF000#32 (roundup (0xFFFFF000#32 + 0x2000#32)) perm
      (n + 1) { s with userMemCheckAddr := 0xFFFFF000#32 } = _
    rw [userMemCheckLoop_succ, if_neg
      (show ¬ (0xFFFFF000#32 : Word) < roundup (0xFFFFF000#32 + 0x2000#32) by decide)]
  · intro s d perm
    refine ⟨⟨by decide, by decide⟩, fun h => ?_⟩
    exact absurd h.1 (by decide)

/-! ## §6. What `%.*s` reads. -/

/-- From `s` to `s'` no byte is loaded but the first `j` at `p`. -/
def ReadsUpTo (p : Word) (j : Nat) (s s' : Kernel) : Prop :=
  ∀ a ∈ s'.accesses, a ∈ s.accesses ∨ ∃ i < j, a = ⟨false, p + BitVec.ofNat 32 i⟩

/-- The state after a load from `va`, also if it faults. -/
def Kernel.noted (s : Kernel) (va : Word) : Kernel :=
  { s with accesses := ⟨false, va⟩ :: s.accesses }

/-- The bytes after the first one. -/
theorem ReadsUpTo.noted {p : Word} {j : Nat} {s s' : Kernel}
    (h : ReadsUpTo (p + 1#32) j (s.noted p) s') : ReadsUpTo p (j + 1) s s' := by
  intro a ha
  rcases h a ha with hold | ⟨i, hi, rfl⟩
  · rcases List.mem_cons.mp hold with rfl | hold
    · exact Or.inr ⟨0, by omega, by simp⟩
    · exact Or.inl hold
  · exact Or.inr ⟨i + 1, by omega, by rw [BitVec.add_assoc, BitVec.ofNat_add, BitVec.add_comm 1#32]⟩

theorem ReadsUpTo.mono {p : Word} {i j : Nat} {s s' : Kernel} (h : ReadsUpTo p i s s')
    (hij : i ≤ j) : ReadsUpTo p j s s' := fun a ha =>
  (h a ha).imp_right fun ⟨l, hl, he⟩ => ⟨l, by omega, he⟩

/-- The loop ends at this byte: it is NUL, or the load faults. -/
def StopsAt (s : Kernel) (p : Word) (j : Nat) : Prop :=
  userByte s (p + BitVec.ofNat 32 j) = some 0 ∨ userByte s (p + BitVec.ofNat 32 j) = none

theorem StopsAt.succ {s : Kernel} {p : Word} {j : Nat} :
    StopsAt s p (j + 1) ↔ StopsAt (s.noted p) (p + 1#32) j := by
  unfold StopsAt
  rw [BitVec.add_assoc, BitVec.add_comm 1#32, ← BitVec.ofNat_add]
  rfl

end Jos
