/-
  Jos.Mem.IpcSend — **WHEN A SEND FAILS, AND WHAT A RECEIVER IS TOLD** (`sys_ipc_try_send` in
  `kern/syscall.c`, `ipc_recv` in `lib/ipc.c`).

  The system call answers one failure as documented, a target that does not
  receive.  For the others it panics, or goes on with a pointer it never set.

    • `ipcTrySend_clean`: without those other failures the call returns; it
      changes nothing if the target does not receive, and delivers otherwise.
    • `ipcTrySend_badEnv_panics`: a target that does not exist stops the kernel.
    • `ipcRecv_truthful`: what `ipc_recv` reports of the page, for a sender's
      permission other than 0.
    • `ipcRecv_untruthful`: for 0 a page is mapped and not reported.
-/
import Jos.Mem.RefWrap

namespace Jos

open Exec

/-! ## §1. Sends that the call handles. -/

section

variable {own : Set Nat} {s : Kernel} {c : Nat}

/-- The call returns. -/
theorem ipcTrySend_returns (h : MemInv own s) (hb : Bounded s) (hc : s.curenv = some c)
    (hlive : Live s c) {envid srcva perm : Word} (value : Word)
    (hclean : CleanSend s c envid srcva perm) :
    ∃ r s', sysIpcTrySend envid value srcva perm s = .ok r s' := by
  have hwp : wp (sysIpcTrySend envid value srcva perm) (fun _ _ => True) (fun _ _ => False) s :=
    wp_mono (sysIpcTrySend_full h hb hc hlive envid value srcva perm) (fun _ _ _ => trivial)
      (fun _ _ hno => hno.2 hclean)
  obtain ⟨r, s', hrun, -⟩ := exists_ok_of_wp hwp
  exact ⟨r, s', hrun⟩

/-- **CLEAN SENDS.**  If the target exists, and either does not receive, or is
sent no page, or is sent one with everything in order, then the call returns: it
returns `-E_IPC_NOT_RECV` and changes nothing just when the target does not
receive, and otherwise 0, having delivered the one message. -/
theorem ipcTrySend_clean (h : MemInv own s) (hb : Bounded s) (hc : s.curenv = some c)
    (hlive : Live s c) {envid srcva perm : Word} (value : Word)
    (hclean : CleanSend s c envid srcva perm) :
    ∃ e r s', findEnv s c envid false = .ok e
      ∧ sysIpcTrySend envid value srcva perm s = .ok r s'
      ∧ (((s.envs e).envIpcRecving = false ∧ r = -E_IPC_NOT_RECV ∧ s' = s)
        ∨ ((s.envs e).envIpcRecving = true ∧ r = 0#32 ∧ IpcSent s s' c e value srcva perm)) := by
  obtain ⟨r, s', hrun⟩ := ipcTrySend_returns h hb hc hlive value hclean
  obtain ⟨-, e, hfind, hres⟩ := wp_ok (sysIpcTrySend_spec h hb hc hlive envid value srcva perm) hrun
  refine ⟨e, r, s', hfind, hrun, hres.imp ?_ ?_⟩
  · rintro ⟨hr, hs, hrecv⟩
    exact ⟨hrecv, hr, hs⟩
  · rintro ⟨hr, hrecv, hsent⟩
    exact ⟨hrecv, hr, hsent⟩

end

/-- The first environment sends itself a number. -/
theorem ipcTrySend_clean_self : ∃ own s, MemInv own s ∧ s.curenv = some 0
    ∧ CleanSend s 0 0#32 UTOP 0#32
    ∧ ∃ e r s', findEnv s 0 0#32 false = .ok e ∧ sysIpcTrySend 0#32 9#32 UTOP 0#32 s = .ok r s'
      ∧ (((s.envs e).envIpcRecving = false ∧ r = -E_IPC_NOT_RECV ∧ s' = s)
        ∨ ((s.envs e).envIpcRecving = true ∧ r = 0#32 ∧ IpcSent s s' 0 e 9#32 UTOP 0#32)) := by
  obtain ⟨s₀, s, pp, hboot, hrun, hs⟩ := exists_spread
  have hb := (RoomRun.inv (hboot.spec qemuBoot.maps_above).1 hrun).2.1
  have hclean : CleanSend s 0 0#32 UTOP 0#32 := ⟨0, rfl, .inr (.inl (by decide))⟩
  exact ⟨_, s, hs.inv, hs.cur, hclean, ipcTrySend_clean hs.inv hb hs.cur hs.live 9#32 hclean⟩

/-- **A target that does not exist stops the kernel**, where `-E_BAD_ENV` is
documented: here for the first environment after boot. -/
theorem ipcTrySend_badEnv_panics : ∃ own s envid, MemInv own s ∧ s.curenv = some 0 ∧ Live s 0
    ∧ findEnv s 0 envid false = .error (-E_BAD_ENV)
    ∧ ∀ value srcva perm, sysIpcTrySend envid value srcva perm s
      = .error (.panic "sys_ipc_try_send: envid2env failed, %e") s := by
  obtain ⟨s₀, s, pp, -, -, hs⟩ := exists_spread
  -- an id of slot 0 other than the one it has
  obtain ⟨envid, hne, hslot, hid⟩ : ∃ envid : Word, envid ≠ 0#32 ∧ envx envid = 0
      ∧ (s.envs 0).envId ≠ envid := by
    by_cases h : (s.envs 0).envId = 0x400#32
    · exact ⟨0x800#32, by decide, by decide, by rw [h]; decide⟩
    · exact ⟨0x400#32, by decide, by decide, h⟩
  have hfind : findEnv s 0 envid false = .error (-E_BAD_ENV) := by
    unfold findEnv
    rw [if_neg hne, hslot, if_pos (.inr hid)]
  refine ⟨_, s, envid, hs.inv, hs.cur, hs.live, hfind, fun value srcva perm => ?_⟩
  unfold sysIpcTrySend
  rw [bind_ok (envid2env_eq hs.cur envid false), hfind]
  rfl

/-! ## §2. What `ipc_recv` reports. -/

/-- The address `ipc_recv(_, pg, _)` passes to the kernel. -/
def ipcRecvVa (pg : Word) : Word := if pg ≠ 0#32 then pg else UTOP

/-- What `ipc_recv` stores and returns, from `thisenv` and the result of the
system call. -/
structure IpcReport where
  from_ : Word
  perm : Word
  value : Word

/-- `ipc_recv` after its system call has returned `r`. -/
def ipcRecvReport (thisenv : Env) (r : Word) : IpcReport :=
  if r.slt 0#32 then { from_ := 0#32, perm := 0#32, value := r }
  else
    { from_ := thisenv.envIpcFrom
      perm := thisenv.envIpcPerm
      value := thisenv.envIpcValue }

/-- The report of a receiver that a message has woken. -/
theorem ipcRecvReport_received (env : Env) (from_ value perm : Word) :
    ipcRecvReport (env.received from_ value perm)
        (env.received from_ value perm).envTf.tfRegs.regEax
      = { from_ := from_, perm := perm, value := value } := rfl

section

variable {own : Set Nat} {s s' : Kernel} {c e : Nat} {envid value srcva perm pg : Word}

/-- **THE REPORT IS TRUE** when the sender's permission is not 0: the reported
permission is not 0 just when a page was sent and asked for; then this page is
at `pg` with exactly the reported bits and `PTE_P`, and nothing else changed;
and otherwise no mapping did. -/
theorem ipcRecv_truthful (h : MemInv own s) (hb : Bounded s) (hc : s.curenv = some c)
    (hlive : Live s c) (hfind : findEnv s c envid false = .ok e)
    (hva : (s.envs e).envIpcDstva = ipcRecvVa pg)
    (hsend : sysIpcTrySend envid value srcva perm s = .ok 0#32 s')
    (hperm : srcva < UTOP → ipcRecvVa pg < UTOP → perm ≠ 0#32) :
    ∃ rep, rep = ipcRecvReport (s'.envs e) (s'.envs e).envTf.tfRegs.regEax
      ∧ (rep.perm ≠ 0#32 ↔ srcva < UTOP ∧ ipcRecvVa pg < UTOP)
      ∧ (rep.perm ≠ 0#32 → ∃ pp f, space s c (pgnum srcva) = some (pp, f)
          ∧ SpaceUpdate s s' e (ipcRecvVa pg) (some (pp, rep.perm ||| PTE_P)))
      ∧ (rep.perm = 0#32 → SameSpaces s s') := by
  obtain ⟨-, e', hfind', hres⟩ :=
    wp_ok (sysIpcTrySend_spec h hb hc hlive envid value srcva perm) hsend
  obtain rfl : e' = e := Except.ok.inj (hfind'.symm.trans hfind)
  have hsent : IpcSent s s' c e' value srcva perm := by
    rcases hres with ⟨hr, -, -⟩ | ⟨-, -, hsent⟩
    · exact absurd hr (by decide)
    · exact hsent
  cases hsent with
  | plain hno hcpus henvs hsame =>
    rw [hva] at hno
    refine ⟨_, rfl, ?_⟩
    rw [henvs, Function.update_self, ipcRecvReport_received]
    exact ⟨⟨fun h0 => absurd rfl h0, fun hyes => absurd hyes hno⟩, fun h0 => absurd rfl h0,
      fun _ => hsame⟩
  | page hsrc hdst hcpus hfrom hw henvs hup =>
    rw [hva] at hdst hup
    have hne := hperm hsrc hdst
    refine ⟨_, rfl, ?_⟩
    rw [henvs, Function.update_self, ipcRecvReport_received]
    exact ⟨⟨fun _ => ⟨hsrc, hdst⟩, fun _ => hne⟩, fun _ => ⟨_, _, hfrom, hup⟩,
      fun h0 => absurd h0 hne⟩

end

/-- A mapped page is in the address space. -/
theorem space_of_mappedAt {s : Kernel} {e : Nat} {va : Word} {pp : Nat}
    (h : mappedAt s e va = some pp) : ∃ f, space s e (pgnum va) = some (pp, f) := by
  obtain ⟨d, hd, h⟩ := Option.bind_eq_some_iff.mp h
  obtain ⟨t, ht, hp⟩ := Option.bind_eq_some_iff.mp h
  refine ⟨pteFlags (s.mem t (ptx va)), ?_⟩
  unfold space mapping
  rw [hd]
  show (target s.mem d (pgnum va / NPTENTRIES)).bind _ = _
  rw [pgnum_div, pgnum_mod, ht]
  show (target s.mem t (ptx va)).map _ = _
  rw [hp]
  rfl

/-- Environment 0 waits for a page at `0x2000`. -/
abbrev Kernel.receives (t : Kernel) : Kernel :=
  t.setEnv 0 { t.envs 0 with envIpcRecving := true, envIpcDstva := 0x2000#32 }

/-- A page sent read-only to `0x2000`, by an environment recorded as receiving. -/
theorem exists_pageSend : ∃ own s s', (MemInv own s ∧ Bounded s ∧ s.curenv = some 0 ∧ Live s 0)
    ∧ ((s.envs 0).envIpcRecving = true ∧ (s.envs 0).envIpcDstva = ipcRecvVa 0x2000#32)
    ∧ sysIpcTrySend 0#32 9#32 (copyVa 0) roPerm s = .ok 0#32 s' := by
  obtain ⟨s₀, t, pp, hboot, hrun, hs⟩ := exists_spread
  have hb := (RoomRun.inv (hboot.spec qemuBoot.maps_above).1 hrun).2.1
  obtain ⟨hinv, hrefs⟩ : MemInv _ t.receives ∧ refs t.receives = refs t :=
    hs.inv.setEnv rfl Iff.rfl rfl
  have hb' : Bounded t.receives := fun p => by rw [hrefs]; exact hb p
  have hmap : mappedAt t.receives 0 (copyVa 0) = some pp := by
    have h0 := hs.copies 0 (Nat.le_refl 0)
    have hva : copyVa 0 < UTOP := copyVa_lt (by omega)
    rw [mappedAt_eq _ hva] at h0
    have h1 := mappedAt_eq (s := t.receives) ⟨0, by decide⟩ hva
    rw [hrefs, h0] at h1
    exact h1
  have hfree : t.receives.pageFreeList ≠ none := by
    obtain ⟨p, hp⟩ := (hs.room.mono (show 1 ≤ 70 - (0 + 1) / 1024 by decide)).head
    show t.pageFreeList ≠ none
    rw [hp]
    simp
  have hlive : Live t.receives 0 := hs.live
  have hcur : t.receives.curenv = some 0 := hs.cur
  have hrecv : (t.receives.envs 0).envIpcRecving = true := rfl
  have hdst : (t.receives.envs 0).envIpcDstva = ipcRecvVa 0x2000#32 := rfl
  generalize t.receives = s at *
  obtain ⟨f, hspace⟩ := space_of_mappedAt hmap
  have hok : PageSendOk s 0 0 (copyVa 0) roPerm :=
    ⟨by decide, by decide, ⟨pp, f, hspace, fun h0 => absurd (by decide) h0⟩, fun _ => .inr hfree⟩
  have hfind₀ : findEnv s 0 0#32 false = .ok 0 := rfl
  obtain ⟨r, s', hsend⟩ := ipcTrySend_returns hinv hb' hcur hlive 9#32
    ⟨0, hfind₀, .inr (.inr hok)⟩
  obtain ⟨-, e, hfind, hres⟩ := wp_ok (sysIpcTrySend_spec hinv hb' hcur hlive _ _ _ _) hsend
  obtain rfl : 0 = e := Except.ok.inj hfind
  have hr : r = 0#32 := by
    rcases hres with ⟨-, -, hno⟩ | ⟨hr, -, -⟩
    · rw [hrecv] at hno
      cases hno
    · exact hr
  subst hr
  exact ⟨_, s, s', ⟨hinv, hb', hcur, hlive⟩, ⟨hrecv, hdst⟩, hsend⟩

theorem ipcRecv_truthful_page : ∃ own s s', MemInv own s ∧ s.curenv = some 0
    ∧ (s.envs 0).envIpcDstva = ipcRecvVa 0x2000#32
    ∧ sysIpcTrySend 0#32 9#32 (copyVa 0) roPerm s = .ok 0#32 s'
    ∧ ∃ rep, rep = ipcRecvReport (s'.envs 0) (s'.envs 0).envTf.tfRegs.regEax
      ∧ (rep.perm ≠ 0#32 ↔ copyVa 0 < UTOP ∧ ipcRecvVa 0x2000#32 < UTOP) := by
  obtain ⟨own, s, s', ⟨hinv, hb, hcur, hlive⟩, ⟨-, hdst⟩, hsend⟩ := exists_pageSend
  obtain ⟨rep, hrep, hiff, -⟩ := ipcRecv_truthful hinv hb hcur hlive rfl hdst hsend
    fun _ _ => by decide
  exact ⟨own, s, s', hinv, hcur, hdst, hsend, rep, hrep, hiff⟩

/-- Two environments: the first has page 5 at `0x1000`, the second waits for a
page at `0x2000`. -/
@[irreducible] def senderAndReceiver : Kernel :=
  { Kernel.powerOn with
    npages := 8
    pages := fun p => ⟨none, if p = 0 ∨ 6 ≤ p then 0 else 1⟩
    mem := fun p i =>
      if p = 1 ∧ i = 0 then page2pa 3 ||| 7#32
      else if p = 3 ∧ i = 1 then page2pa 5 ||| 7#32
      else if p = 2 ∧ i = 0 then page2pa 4 ||| 7#32
      else 0#32
    envs := fun i =>
      if i = 0 then { (default : Env) with
        envId := 0x1000#32, envStatus := .running, envPgdir := some 1 }
      else if i = 1 then { (default : Env) with
        envId := 0x1001#32, envStatus := .notRunnable, envPgdir := some 2
        envIpcRecving := true, envIpcDstva := 0x2000#32 }
      else default
    cpus := fun _ => ⟨.unused, some 0, 1, default, fun _ => none⟩ }

/-- **A page goes unreported.**  A permission of 0 is accepted; page 5 is then
mapped at `0x2000` of the receiver, where nothing was, and `ipc_recv` reports 0. -/
theorem ipcRecv_untruthful : senderAndReceiver.mem 4 2 = 0#32
    ∧ wp (sysIpcTrySend 0x1001#32 9#32 0x1000#32 0#32)
      (fun r s' => r = 0#32 ∧ s'.mem 4 2 = (page2pa 5 ||| PTE_P)
        ∧ (ipcRecvReport (s'.envs 1) (s'.envs 1).envTf.tfRegs.regEax).perm = 0#32)
      (fun _ _ => False) senderAndReceiver := by
  decide +kernel

end Jos
