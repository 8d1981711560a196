/-
  Jos.Machine.Authority — **WHAT A SYSTEM CALL MAY TOUCH.**

  An environment controls itself and its children.  Seven calls take the id of
  an environment and change something of it.  `CallEffect` says once what each
  of them can do; from it follow

      the frame     nothing of an environment the caller does not control
                    changes, except the one entry a message brings
      the grants    a page becomes writable somewhere only because it is new,
                    or because the entry it was copied from is writable

  and, over whole runs, that every writable mapping goes back along a chain of
  such copies (`authority_confined`).  Between calls anything else may happen
  that leaves the page tables alone: scheduling, saving of trap frames, stores
  of user programs.
-/
import Jos.Machine.Leave
import Jos.Mem.RefWrap

namespace Jos

open Exec
open Function (update update_of_ne update_self)

variable {s₀ : Kernel} {h : List AuthEvent} {e p : Nat}

/-! ## §1. The calls. -/

/-- The calls that change something of an environment named by its id. -/
inductive AuthOp where
  | envDestroy (envid : Word)
  | envSetStatus (envid status : Word)
  | envSetPgfaultUpcall (envid func : Word)
  | pageAlloc (envid va perm : Word)
  | pageMap (srcenvid srcva dstenvid dstva perm : Word)
  | pageUnmap (envid va : Word)
  | ipcTrySend (envid value srcva perm : Word)

def AuthOp.run : AuthOp → KM Word
  | .envDestroy envid => sysEnvDestroy envid
  | .envSetStatus envid status => sysEnvSetStatus envid status
  | .envSetPgfaultUpcall envid func => sysEnvSetPgfaultUpcall envid func
  | .pageAlloc envid va perm => sysPageAlloc envid va perm
  | .pageMap srcenvid srcva dstenvid dstva perm =>
    sysPageMap srcenvid srcva dstenvid dstva perm
  | .pageUnmap envid va => sysPageUnmap envid va
  | .ipcTrySend envid value srcva perm => sysIpcTrySend envid value srcva perm

/-- One call that returned. -/
structure AuthEvent where
  before : Kernel
  caller : Nat
  op : AuthOp
  after : Kernel

/-- `e` is `a` itself or a child of `a`. -/
def Controls (s : Kernel) (a e : Nat) : Prop :=
  e = a ∨ (s.envs e).envParentId = (s.envs a).envId

/-- `e` has page `p` writable at the virtual page `v`. -/
def writable (s : Kernel) (e v p : Nat) : Prop :=
  ∃ f, space s e v = some (p, f) ∧ f &&& PTE_W ≠ 0#32

/-- Page table entries, status, upcall and trap frame of `e` are the same. -/
structure Untouched (s s' : Kernel) (e : Nat) : Prop where
  entries : ∀ v < pgnum UTOP, space s' e v = space s e v
  status : (s'.envs e).envStatus = (s.envs e).envStatus
  upcall : (s'.envs e).envPgfaultUpcall = (s.envs e).envPgfaultUpcall
  frame : (s'.envs e).envTf = (s.envs e).envTf

/-- The call sends a message to `e`, which waits for one. -/
def AuthEvent.SendsTo (ev : AuthEvent) (e : Nat) : Prop :=
  (ev.before.envs e).envIpcRecving = true ∧ ∃ envid value srcva perm,
    ev.op = .ipcTrySend envid value srcva perm ∧
      findEnv ev.before ev.caller envid false = .ok e

/-- The call puts a page that no environment has at `v` of `e`. -/
def AuthEvent.Allocates (ev : AuthEvent) (e v p : Nat) : Prop :=
  (∀ x < NENV, ∀ w < pgnum UTOP, ∀ f, space ev.before x w ≠ some (p, f)) ∧
    ∃ envid va perm, ev.op = .pageAlloc envid va perm ∧
      findEnv ev.before ev.caller envid true = .ok e ∧ v = pgnum va

/-- The call copies the writable entry `v'` of `e'` to `v` of `e`. -/
def AuthEvent.Copies (ev : AuthEvent) (e' v' e v p : Nat) : Prop :=
  e' < NENV ∧ v' < pgnum UTOP ∧ writable ev.before e' v' p ∧
    ((∃ srcenvid srcva dstenvid dstva perm,
        ev.op = .pageMap srcenvid srcva dstenvid dstva perm ∧
        findEnv ev.before ev.caller srcenvid true = .ok e' ∧ v' = pgnum srcva ∧
        findEnv ev.before ev.caller dstenvid true = .ok e ∧ v = pgnum dstva) ∨
      ∃ envid value srcva perm, ev.op = .ipcTrySend envid value srcva perm ∧
        e' = ev.caller ∧ v' = pgnum srcva ∧ ev.SendsTo e ∧
        v = pgnum (ev.before.envs e).envIpcDstva)

/-! ## §2. What one call can do. -/

section

variable {own : Set Nat} {s s' : Kernel} {a : Nat}

theorem controls_of_findEnv {envid : Word} (h : findEnv s a envid true = .ok e) :
    Controls s a e := by
  unfold findEnv at h
  split at h
  · cases h
    exact Or.inl rfl
  · split at h
    · cases h
    · split at h
      · cases h
      · next hperm =>
          cases h
          by_cases he : envx envid = a
          · exact Or.inl he
          · refine Or.inr ?_
            by_contra hpar
            exact hperm ⟨rfl, he, hpar⟩

theorem or_present_and_w (perm : Word) : (perm ||| PTE_P) &&& PTE_W = perm &&& PTE_W := by
  have hdisj : PTE_P &&& PTE_W = 0#32 := by decide
  rw [BitVec.and_comm, BitVec.and_or_distrib_left, BitVec.and_comm PTE_W PTE_P, hdisj,
    BitVec.or_zero, BitVec.and_comm]

/-- What a call that returned has done. -/
inductive CallEffect (ev : AuthEvent) : Prop where
  | quiet (henvs : ev.after.envs = ev.before.envs) (hsame : SameSpaces ev.before ev.after)
  /-- The record of one environment, or the environment goes. -/
  | record {e : Nat} (hauth : Controls ev.before ev.caller e)
      (henvs : ∀ x ≠ e, ev.after.envs x = ev.before.envs x)
      (hsame : SameOthers e ev.before ev.after)
      (hold : ∀ v < pgnum UTOP, space ev.after e v = space ev.before e v ∨
        space ev.after e v = none)
  /-- One entry of an environment the caller controls. -/
  | entry {e : Nat} {va : Word} {o : Option (Nat × Word)}
      (hauth : Controls ev.before ev.caller e) (henvs : ev.after.envs = ev.before.envs)
      (hup : SpaceUpdate ev.before ev.after e va o)
      (hgrant : ∀ p f, o = some (p, f) → f &&& PTE_W ≠ 0#32 →
        ev.Allocates e (pgnum va) p ∨ ∃ e' v', ev.Copies e' v' e (pgnum va) p)
  | message {e : Nat} (hto : ev.SendsTo e)
      (henvs : ∀ x ≠ e, ev.after.envs x = ev.before.envs x)
      (hother : ∀ x < NENV, ∀ v < pgnum UTOP,
        ¬ (x = e ∧ v = pgnum (ev.before.envs e).envIpcDstva) →
          space ev.after x v = space ev.before x v)
      (hgrant : ∀ v < pgnum UTOP, v = pgnum (ev.before.envs e).envIpcDstva →
        ∀ p f, space ev.after e v = some (p, f) → f &&& PTE_W ≠ 0#32 →
          space ev.after e v = space ev.before e v ∨ ∃ e' v', ev.Copies e' v' e v p)

/-- A change of the record of one environment that keeps its directory. -/
theorem effect_setEnv {v : Env} {op : AuthOp}
    (hauth : Controls s a e) (hp : v.envPgdir = (s.envs e).envPgdir) :
    CallEffect ⟨s, a, op, (s.setCurenv (some a)).setEnv e v⟩ := by
  have hsame : SameSpaces s ((s.setCurenv (some a)).setEnv e v) := by
    refine sameSpaces_of_eq (fun x => ?_) rfl
    show (update s.envs e v x).envPgdir = _
    by_cases hx : x = e
    · rw [hx, update_self, hp]
    · rw [update_of_ne hx]
  refine .record hauth (fun x hx => update_of_ne hx _ _)
    (fun x hx _ v hv => hsame x hx v hv) (fun v hv => ?_)
  by_cases he : e < NENV
  · exact Or.inl (hsame e he v hv)
  · refine Or.inl ?_
    show ((update s.envs e _ e).envPgdir).bind _ = _
    rw [update_self, hp]
    rfl

/-- A free page is in no address space. -/
theorem MemInv.head_unmapped (h : MemInv own s) (hp : s.pageFreeList = some p) :
    ∀ x < NENV, ∀ w < pgnum UTOP, ∀ f, space s x w ≠ some (p, f) := by
  intro x hx w hw f hf
  obtain ⟨-, -, -, hhits, -⟩ := h.page.books.head hp
  obtain ⟨a, -, ha⟩ := refs_of_space hx hw hf
  exact ne_of_hits_eq_zero hhits a ha

/-- `sys_env_destroy` of an environment other than the caller. -/
theorem sysEnvDestroy_touches (h : MemInv own s) (hb : Bounded s) (hlive : Live s a)
    (envid : Word) :
    wp (sysEnvDestroy envid)
      (fun _ s' => MemInv own s' ∧ CallEffect ⟨s, a, .envDestroy envid, s'⟩)
      (fun _ _ => True) (s.setCurenv (some a)) := by
  have h' := h.setCurenv (some a)
  have hb' : Bounded (s.setCurenv (some a)) := hb
  have hcur := curenv_setCurenv s (some a)
  refine wp_bind_ok (envid2env_eq hcur envid true) ?_
  cases hfind : findEnv (s.setCurenv (some a)) a envid true with
  | error r => exact ⟨h', .quiet rfl (.refl _)⟩
  | ok e =>
    have hauth : Controls s a e := controls_of_findEnv (s := s.setCurenv (some a)) hfind
    have he : Live s e := findEnv_live (s := s.setCurenv (some a)) hlive hfind
    refine wp_seq (R := fun _ s' => MemInv own s' ∧ CallEffect ⟨s, a, .envDestroy envid, s'⟩)
      ?_ (fun _ _ hk => hk)
    refine wp_get_bind ?_
    by_cases hrun : ((s.setCurenv (some a)).envs e).envStatus = .running ∧
        (s.setCurenv (some a)).curenv ≠ some e
    · rw [if_pos hrun]
      refine wp_of_ok (show modifyEnv e (fun env => { env with envStatus := .dying })
        (s.setCurenv (some a)) = .ok () ((s.setCurenv (some a)).setEnv e
          { s.envs e with envStatus := .dying }) from rfl) ⟨?_, effect_setEnv hauth rfl⟩
      exact (h'.setEnv (e := e) (v := { s.envs e with envStatus := .dying }) rfl
        ⟨fun hf => absurd hf (by simp), fun hf => absurd hf he.2⟩ rfl).1
    · rw [if_neg hrun]
      obtain ⟨d, hd⟩ := h'.dir (show Live (s.setCurenv (some a)) e from he)
      obtain ⟨l, ht⟩ := h'.table
      obtain ⟨s', hfree, hinv, -, -, hothers, hf⟩ := h'.page.envFree hb' hd
      refine wp_bind_ok hfree ?_
      refine wp_get_bind ?_
      by_cases hself : s'.curenv = some e
      · -- the caller destroyed itself, and does not return
        rw [if_pos hself]
        refine wp_bind_ok rfl ?_
        exact wp_mono (schedYield_leave _) (fun _ _ hc => hc.elim) (fun _ _ _ => trivial)
      · rw [if_neg hself]
        have hnone : (s'.envs e).envPgdir = none := by
          rw [hf.envs, update_self]
        refine ⟨⟨hinv, _, ht.freed he hf⟩, .record hauth (fun x hx => ?_) hothers
          (fun v _ => Or.inr ?_)⟩
        · rw [hf.envs, update_of_ne hx]
          rfl
        · unfold space
          rw [hnone]
          rfl

theorem sysEnvSetStatus_touches (h : MemInv own s) (hlive : Live s a) (envid status : Word) :
    wp (sysEnvSetStatus envid status)
      (fun _ s' => MemInv own s' ∧ CallEffect ⟨s, a, .envSetStatus envid status, s'⟩)
      (fun _ _ => True) (s.setCurenv (some a)) := by
  have h' := h.setCurenv (some a)
  have hcur := curenv_setCurenv s (some a)
  unfold sysEnvSetStatus
  cases hst : settableStatus status with
  | none => exact ⟨h', .quiet rfl (.refl _)⟩
  | some st =>
    refine wp_bind_ok (envid2env_eq hcur envid true) ?_
    cases hfind : findEnv (s.setCurenv (some a)) a envid true with
    | error r => exact ⟨h', .quiet rfl (.refl _)⟩
    | ok e =>
      have he : Live s e := findEnv_live (s := s.setCurenv (some a)) hlive hfind
      refine wp_of_ok (show _ = EStateM.Result.ok 0#32 ((s.setCurenv (some a)).setEnv e
        { s.envs e with envStatus := st }) from rfl)
        ⟨(h'.setEnv (e := e) (v := { s.envs e with envStatus := st }) rfl
          ⟨fun hf => absurd hf (settableStatus_ne_free hst), fun hf => absurd hf he.2⟩ rfl).1,
        effect_setEnv (controls_of_findEnv (s := s.setCurenv (some a)) hfind) rfl⟩

theorem sysEnvSetPgfaultUpcall_touches (h : MemInv own s) (envid func : Word) :
    wp (sysEnvSetPgfaultUpcall envid func)
      (fun _ s' => MemInv own s' ∧ CallEffect ⟨s, a, .envSetPgfaultUpcall envid func, s'⟩)
      (fun _ _ => True) (s.setCurenv (some a)) := by
  have h' := h.setCurenv (some a)
  have hcur := curenv_setCurenv s (some a)
  refine wp_bind_ok (envid2env_eq hcur envid true) ?_
  cases hfind : findEnv (s.setCurenv (some a)) a envid true with
  | error r => exact ⟨h', .quiet rfl (.refl _)⟩
  | ok e =>
    refine wp_of_ok (show _ = EStateM.Result.ok 0#32 ((s.setCurenv (some a)).setEnv e
      { s.envs e with envPgfaultUpcall := func }) from rfl)
      ⟨(h'.setEnv (e := e) (v := { s.envs e with envPgfaultUpcall := func }) rfl
        Iff.rfl rfl).1,
      effect_setEnv (controls_of_findEnv (s := s.setCurenv (some a)) hfind) rfl⟩

/-- **What each call can do.** -/
theorem AuthOp.effect (h : MemInv own s) (hb : Bounded s) (hlive : Live s a) {op : AuthOp}
    {r : Word} (hrun : op.run (s.setCurenv (some a)) = .ok r s') :
    MemInv own s' ∧ CallEffect ⟨s, a, op, s'⟩ := by
  have h' := h.setCurenv (some a)
  have hb' : Bounded (s.setCurenv (some a)) := hb
  have hcur := curenv_setCurenv s (some a)
  have hlive' : Live (s.setCurenv (some a)) a := hlive
  cases op with
  | envDestroy envid =>
    have hk := wp_ok (sysEnvDestroy_touches h hb hlive envid) hrun
    exact hk
  | envSetStatus envid status =>
    have hk := wp_ok (sysEnvSetStatus_touches h hlive envid status) hrun
    exact hk
  | envSetPgfaultUpcall envid func =>
    have hk := wp_ok (sysEnvSetPgfaultUpcall_touches h envid func) hrun
    exact hk
  | pageAlloc envid va perm =>
    obtain ⟨hk, henvs, hsame | ⟨e, pp, hfind, hva, hpp, hup⟩⟩ :=
      wp_ok (sysPageAlloc_spec True h' hb' hcur hlive' envid va perm) hrun
    · exact ⟨hk.inv, .quiet henvs hsame⟩
    · refine ⟨hk.inv, .entry (controls_of_findEnv hfind) henvs hup (fun p f hpf _ => ?_)⟩
      cases hpf
      exact Or.inl ⟨h.head_unmapped hpp, envid, va, perm, rfl, hfind, rfl⟩
  | pageMap srcenvid srcva dstenvid dstva perm =>
    obtain ⟨hk, henvs, hsame | ⟨es, ed, pp, f₀, hfs, hfd, hdst, hlt, hsrc, hw, hup⟩⟩ :=
      wp_ok (sysPageMap_spec h' hb' hcur hlive' srcenvid srcva dstenvid dstva perm) hrun
    · exact ⟨hk.inv, .quiet henvs hsame⟩
    · refine ⟨hk.inv, .entry (controls_of_findEnv hfd) henvs hup (fun p f hpf hpw => ?_)⟩
      cases hpf
      rw [or_present_and_w] at hpw
      exact Or.inr ⟨es, pgnum srcva, (findEnv_live hlive' hfs).1, pgnum_lt_utop hlt,
        ⟨f₀, hsrc, hw hpw⟩,
        Or.inl ⟨srcenvid, srcva, dstenvid, dstva, perm, rfl, hfs, rfl, hfd, rfl⟩⟩
  | pageUnmap envid va =>
    obtain ⟨hk, henvs, hsame | ⟨e, hfind, hva, hup⟩⟩ :=
      wp_ok (sysPageUnmap_spec True h' hb' hcur hlive' envid va) hrun
    · exact ⟨hk.inv, .quiet henvs hsame⟩
    · exact ⟨hk.inv, .entry (controls_of_findEnv hfind) henvs hup
        (fun p f hpf _ => absurd hpf (by simp))⟩
  | ipcTrySend envid value srcva perm =>
    obtain ⟨hk, e, hfind, ⟨-, hs', -⟩ | ⟨-, hrecv, hsent⟩⟩ :=
      wp_ok (sysIpcTrySend_spec h' hb' hcur hlive' envid value srcva perm) hrun
    · rw [hs']
      exact ⟨h', .quiet rfl (.refl _)⟩
    · have hto : AuthEvent.SendsTo ⟨s, a, .ipcTrySend envid value srcva perm, s'⟩ e :=
        ⟨hrecv, envid, value, srcva, perm, rfl, hfind⟩
      have he : Live s e := findEnv_live (s := s.setCurenv (some a)) hlive hfind
      refine ⟨hk.inv, ?_⟩
      cases hsent with
      | plain _ _ henvs hsame =>
        refine .message hto (fun x hx => ?_) (fun x hx v hv _ => hsame x hx v hv)
          (fun v hv _ p f _ _ => Or.inl (hsame e he.1 v hv))
        rw [henvs, update_of_ne hx]
        rfl
      | page hsrc hdst _ hfrom hw henvs hup =>
        refine .message hto (fun x hx => ?_)
          (fun x hx v hv hne => (hup x hx v hv).trans (if_neg hne))
          (fun v hv hat p f hpf hpw => Or.inr ?_)
        · rw [henvs, update_of_ne hx]
          rfl
        · have hentry := (hup e he.1 v hv).trans (if_pos ⟨rfl, hat⟩)
          cases hpf.symm.trans hentry
          rw [or_present_and_w] at hpw
          exact ⟨a, pgnum srcva, hlive.1, pgnum_lt_utop hsrc, ⟨_, hfrom, hw hpw⟩,
            Or.inr ⟨envid, value, srcva, perm, rfl, rfl, rfl, hto, hat⟩⟩

/-! ## §3. The frame and the grants of one call. -/

/-- Nothing of an environment that the caller does not control changes, except
for the receiver of a message, and there only the entry at `env_ipc_dstva`. -/
def AuthEvent.Confined (ev : AuthEvent) : Prop :=
  ∀ e < NENV, ¬ Controls ev.before ev.caller e →
    Untouched ev.before ev.after e ∨
      (ev.SendsTo e ∧ ∀ v < pgnum UTOP, v ≠ pgnum (ev.before.envs e).envIpcDstva →
        space ev.after e v = space ev.before e v)

/-- A mapping that is writable after the call was writable before, is of a new
page, or is a copy of a writable one. -/
def AuthEvent.Granted (ev : AuthEvent) : Prop :=
  ∀ e < NENV, ∀ v < pgnum UTOP, ∀ p, writable ev.after e v p →
    writable ev.before e v p ∨ ev.Allocates e v p ∨ ∃ e' v', ev.Copies e' v' e v p

theorem CallEffect.confined {ev : AuthEvent} (h : CallEffect ev) : ev.Confined := by
  intro x hx hnot
  cases h with
  | quiet henvs hsame =>
    exact Or.inl ⟨hsame x hx, by rw [henvs], by rw [henvs], by rw [henvs]⟩
  | record hauth henvs hsame _ =>
    have hne : x ≠ _ := fun he => hnot (he ▸ hauth)
    exact Or.inl ⟨hsame x hx hne, by rw [henvs x hne], by rw [henvs x hne], by rw [henvs x hne]⟩
  | entry hauth henvs hup _ =>
    have hne : x ≠ _ := fun he => hnot (he ▸ hauth)
    refine Or.inl ⟨fun v hv => ?_, by rw [henvs], by rw [henvs], by rw [henvs]⟩
    exact (hup x hx v hv).trans (if_neg (fun hc => hne hc.1))
  | @message e hto henvs hother _ =>
    by_cases hne : x = e
    · subst hne
      exact Or.inr ⟨hto, fun v hv hv' => hother x hx v hv (fun hc => hv' hc.2)⟩
    · exact Or.inl ⟨fun v hv => hother x hx v hv (fun hc => hne hc.1), by rw [henvs x hne],
        by rw [henvs x hne], by rw [henvs x hne]⟩

theorem writable_congr {e v p : Nat} (h : space s' e v = space s e v) (hw : writable s' e v p) :
    writable s e v p := by
  unfold writable at hw ⊢
  rwa [h] at hw

theorem CallEffect.granted {ev : AuthEvent} (h : CallEffect ev) : ev.Granted := by
  intro x hx v hv p hw
  cases h with
  | quiet _ hsame => exact Or.inl (writable_congr (hsame x hx v hv) hw)
  | @record e _ _ hsame hold =>
    by_cases hne : x = e
    · subst hne
      rcases hold v hv with hkeep | hnone
      · exact Or.inl (writable_congr hkeep hw)
      · obtain ⟨f, hf, -⟩ := hw
        rw [hnone] at hf
        cases hf
    · exact Or.inl (writable_congr (hsame x hx hne v hv) hw)
  | @entry e va o _ _ hup hgrant =>
    by_cases hat : x = e ∧ v = pgnum va
    · obtain ⟨rfl, rfl⟩ := hat
      obtain ⟨f, hf, hfw⟩ := hw
      have ho := (hup x hx _ hv).trans (if_pos ⟨rfl, rfl⟩)
      exact Or.inr (hgrant p f (ho.symm.trans hf) hfw)
    · exact Or.inl (writable_congr ((hup x hx v hv).trans (if_neg hat)) hw)
  | @message e _ _ hother hgrant =>
    by_cases hat : x = e ∧ v = pgnum (ev.before.envs e).envIpcDstva
    · obtain ⟨rfl, hat⟩ := hat
      obtain ⟨f, hf, hfw⟩ := hw
      rcases hgrant v hv hat p f hf hfw with hkeep | hcopy
      · exact Or.inl (writable_congr hkeep ⟨f, hf, hfw⟩)
      · exact Or.inr (Or.inr hcopy)
    · exact Or.inl (writable_congr (hother x hx v hv hat) hw)

/-! ## §4. Runs. -/

/-- What may happen between two calls: everything but the books, the page
tables and the set of live environments. -/
structure Between (s s' : Kernel) : Prop where
  npages : s'.npages = s.npages
  pages : s'.pages = s.pages
  pageFreeList : s'.pageFreeList = s.pageFreeList
  kernPgdir : s'.kernPgdir = s.kernPgdir
  envFreeList : s'.envFreeList = s.envFreeList
  link : ∀ e, (s'.envs e).envLink = (s.envs e).envLink
  pgdir : ∀ e, (s'.envs e).envPgdir = (s.envs e).envPgdir
  live : ∀ e, (s'.envs e).envStatus = .free ↔ (s.envs e).envStatus = .free
  /-- User programs store to pages that are mapped. -/
  mem : ∀ p, s'.mem p ≠ s.mem p → ∃ a : Slot (Fin NENV), a.isTable = false ∧ refs s a = some p

/-- Runs, with the calls that returned, the last one first.  No page has more
than 65535 references. -/
inductive AuthRun (s₀ : Kernel) : List AuthEvent → Kernel → Prop where
  | start : AuthRun s₀ [] s₀
  | call {h : List AuthEvent} {s s' : Kernel} {a : Nat} {op : AuthOp} {r : Word}
      (hrun : AuthRun s₀ h s) (hlive : Live s a)
      (hcall : op.run (s.setCurenv (some a)) = .ok r s') (hb : Bounded s') :
      AuthRun s₀ (⟨s, a, op, s'⟩ :: h) s'
  | between {h : List AuthEvent} {s s' : Kernel} (hrun : AuthRun s₀ h s)
      (hbetween : Between s s') : AuthRun s₀ h s'

/-- A chain of copies: the mapping was there at the start, or a call made it
for a new page, or a call copied it from a mapping with such a chain. -/
inductive Chained (s₀ : Kernel) : List AuthEvent → Nat → Nat → Nat → Prop where
  | start {e v p : Nat} (hw : writable s₀ e v p) : Chained s₀ [] e v p
  | keep {h : List AuthEvent} {ev : AuthEvent} {e v p : Nat} (hc : Chained s₀ h e v p)
      (hw : writable ev.before e v p) (hw' : writable ev.after e v p) :
      Chained s₀ (ev :: h) e v p
  | alloc {h : List AuthEvent} {ev : AuthEvent} {e v p : Nat} (ha : ev.Allocates e v p)
      (hw' : writable ev.after e v p) : Chained s₀ (ev :: h) e v p
  | copy {h : List AuthEvent} {ev : AuthEvent} {e' v' e v p : Nat}
      (hc : Chained s₀ h e' v' p) (hcopy : ev.Copies e' v' e v p)
      (hw' : writable ev.after e v p) : Chained s₀ (ev :: h) e v p

theorem Between.memInv (hbt : Between s s') (h : MemInv own s) (hb : Bounded s) :
    MemInv own s' ∧ Bounded s' ∧ SameSpaces s s' := by
  have hdirs : envDirs s' = envDirs s := funext fun x => hbt.pgdir x
  -- a mapped page is no directory, no page table and no page of the kernel
  have hmem : ∀ q, (q ∈ own ∨ ∃ a : Slot (Fin NENV), a.isTable = true ∧ refs s a = some q) →
      ∀ i, s'.mem q i = s.mem q i := by
    intro q hq i
    by_cases hsame : s'.mem q = s.mem q
    · rw [hsame]
    · obtain ⟨b, hbt', hbq⟩ := hbt.mem q hsame
      rcases hq with hown | ⟨a, hat, haq⟩
      · exact absurd hown (h.page.books.ref b q hbq).2
      · rw [← h.page.books.table a b q hat haq hbq, hat] at hbt'
        cases hbt'
  have hrefs : refs s' = refs s := by
    unfold refs
    rw [hdirs]
    exact deref_congr (fun a q ha hq i => hmem q (Or.inr ⟨a, ha, hq⟩) i)
  refine ⟨⟨⟨by rw [hbt.npages]; exact h.page.npages_le, ?_, ?_, fun p hp => ?_, fun p hp => ?_⟩,
    h.table.imp fun l hl => hl.congr hbt.envFreeList hbt.link (fun i _ => hbt.live i)
      (fun i _ => hbt.pgdir i)⟩, fun p => by rw [hrefs]; exact hb p,
    sameSpaces_of_tables hbt.pgdir (fun a q ha hq i => hmem q (Or.inr ⟨a, ha, hq⟩) i)⟩
  · rw [hrefs]
    exact h.page.books.congr hbt.npages hbt.pages hbt.pageFreeList
  · rw [hdirs, hbt.kernPgdir]
    refine h.page.half.frame (fun p hp i => hmem p (Or.inl hp) i) (fun e d hd i _ => ?_)
    exact hmem d (Or.inr ⟨dirSlot e, rfl, hd⟩) i
  · rw [hbt.npages]
    exact h.page.own_lt p hp
  · rw [hbt.pages]
    exact h.page.own_ref p hp

/-- One step of a run keeps the books. -/
theorem AuthRun.inv (h₀ : MemInv own s₀) (hb₀ : Bounded s₀)
    (hrun : AuthRun s₀ h s) : MemInv own s ∧ Bounded s := by
  induction hrun with
  | start => exact ⟨h₀, hb₀⟩
  | call _ hlive hcall hb ih => exact ⟨(AuthOp.effect ih.1 ih.2 hlive hcall).1, hb⟩
  | between _ hbt ih =>
    obtain ⟨hinv, hb, -⟩ := hbt.memInv ih.1 ih.2
    exact ⟨hinv, hb⟩

theorem AuthRun.effects (h₀ : MemInv own s₀) (hb₀ : Bounded s₀) (hrun : AuthRun s₀ h s) : ∀ ev ∈
    h, CallEffect ev := by
  induction hrun with
  | start => exact fun ev hev => absurd hev (by simp)
  | call hrun hlive hcall hb ih =>
    obtain ⟨hinv, hbs⟩ := hrun.inv h₀ hb₀
    intro ev hev
    rcases List.mem_cons.mp hev with rfl | hev
    · exact (AuthOp.effect hinv hbs hlive hcall).2
    · exact ih ev hev
  | between _ _ ih => exact ih

theorem AuthRun.chained (h₀ : MemInv own s₀) (hb₀ : Bounded s₀) (hrun : AuthRun s₀ h s)
    {e v p : Nat} (he : e < NENV)
    (hv : v < pgnum UTOP) (hw : writable s e v p) : Chained s₀ h e v p := by
  induction hrun generalizing e v with
  | start => exact .start hw
  | @call h s s' a op r hrun hlive hcall hb ih =>
    obtain ⟨hinv, hbs⟩ := hrun.inv h₀ hb₀
    have heffect := (AuthOp.effect hinv hbs hlive hcall).2
    rcases heffect.granted e he v hv p hw with hkeep | halloc | ⟨e', v', hcopy⟩
    · exact .keep (ih he hv hkeep) hkeep hw
    · exact .alloc halloc hw
    · exact .copy (ih hcopy.1 hcopy.2.1 hcopy.2.2.1) hcopy hw
  | between hrun hbt ih =>
    obtain ⟨hinv, hbs⟩ := hrun.inv h₀ hb₀
    exact ih he hv (writable_congr ((hbt.memInv hinv hbs).2.2 e he v hv) hw)

/-- **Authority is confined.**  In every run from a state with right books:
each call touches nothing but the caller, its children and the entry a message
brings; a writable entry for a page in use is made only from a writable one;
and every writable mapping has a chain of such copies behind it, back to a page
that was new or to the start. -/
theorem authority_confined {s₀ : Kernel} (h₀ : MemInv own s₀) (hb₀ : Bounded s₀)
    {h : List AuthEvent} (hrun : AuthRun s₀ h s) :
    (∀ ev ∈ h, ev.Confined ∧ ev.Granted) ∧
      ∀ e < NENV, ∀ v < pgnum UTOP, ∀ p, writable s e v p → Chained s₀ h e v p := by
  refine ⟨fun ev hev => ?_, fun e he v hv p hw => hrun.chained h₀ hb₀ he hv hw⟩
  have heffect := hrun.effects h₀ hb₀ ev hev
  exact ⟨heffect.confined, heffect.granted⟩

/-- A run: an environment maps its page a second time. -/
theorem authority_confined_secondMapping : ∃ s₀ s,
    AuthRun s₀ [⟨s₀, 0, .pageMap 0#32 (copyVa 0) 0#32 (copyVa 1) roPerm, s⟩] s ∧
      AuthEvent.Confined ⟨s₀, 0, .pageMap 0#32 (copyVa 0) 0#32 (copyVa 1) roPerm, s⟩ := by
  obtain ⟨s₀, s₁, pp, hboot, hrun, hspread⟩ := exists_spread
  obtain ⟨hinv, hb, -⟩ := RoomRun.inv (hboot.spec qemuBoot.maps_above).1 hrun
  obtain ⟨s₂, hcall, hm, -⟩ := hspread.next (by omega)
  obtain ⟨r, u, hmap, hpure⟩ := bind_inv hcall
  cases hpure
  have hb₂ : Bounded s₂ := hm.bounded hb (by rw [hspread.count]; decide)
  have hrun₂ : AuthRun s₁ [⟨s₁, 0, .pageMap 0#32 (copyVa 0) 0#32 (copyVa 1) roPerm, s₂⟩] s₂ :=
    .call .start hspread.live hmap hb₂
  exact ⟨s₁, s₂, hrun₂, ((authority_confined hinv hb hrun₂).1 _ (List.mem_singleton.mpr rfl)).1⟩

end

end Jos
