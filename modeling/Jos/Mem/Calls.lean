/-
  Jos.Mem.Calls — **SYSTEM CALLS KEEP THE BOOKS.**

  `MemInv own s` joins the page invariant with the table of environments.
  Every call that allocates, maps, unmaps or sends pages, started by a live
  environment, keeps it, on success and on every error return; a call that
  panics does so for another reason than a broken page list.
-/
import Jos.Kern.Syscall
import Jos.Env.Table

namespace Jos

open Exec
open Function (update update_of_ne update_self update_idem)

variable {v : Env} {s' : Kernel} {d e pp : Nat} {perm va : Word}

/-! ## §1. The invariant of the memory calls. -/

structure MemInv (own : Set Nat) (s : Kernel) : Prop where
  page : PageInv own ∅ s
  table : ∃ l, EnvTable s l

/-- The `assert` of `page_alloc` and the two panics of `page_free`. -/
def allocPanic : Stop → Bool
  | .panic msg =>
    msg == "assertion failed: temp_page->pp_ref == 0"
      || msg == "Still using page" || msg == "free page still have a link"
  | _ => false

/-- The page environment `e` has at `va`, if any. -/
def mappedAt (s : Kernel) (e : Nat) (va : Word) : Option Nat :=
  (s.envs e).envPgdir.bind fun d =>
    (target s.mem d (pdx va)).bind fun t => target s.mem t (ptx va)

theorem mappedAt_eq {s : Kernel} (e : Fin NENV) (hva : va < UTOP) :
    mappedAt s e va
      = refs s (vaSlot e hva) := rfl

/-- After a call: the invariant, the caller, and, when `cond` holds, counts
within their limit. -/
structure Kept (own : Set Nat) (cond : Prop) (s s' : Kernel) : Prop where
  inv : MemInv own s'
  caller : s'.curenv = s.curenv
  counts : cond → Bounded s' ∧ s'.refWrapped = s.refWrapped

section

variable {own : Set Nat} {s : Kernel} {c : Nat} {cond : Prop}

theorem Kept.refl (h : MemInv own s) (hb : Bounded s) : Kept own cond s s :=
  ⟨h, rfl, fun _ => ⟨hb, rfl⟩⟩

theorem MemInv.dir (h : MemInv own s) (he : Live s e) : ∃ d, envDirs s ⟨e, he.1⟩ = some d := by
  obtain ⟨l, hl⟩ := h.table
  exact hl.dir_of_live he

/-- The table does not depend on pages and memory. -/
theorem EnvTable.of_frame {l : List Nat} (h : EnvTable s l)
    (hfr : Kernel.PmapFrame s s') : EnvTable s' l :=
  h.congr hfr.envFreeList (fun i => by rw [hfr.envs]) (fun i _ => by rw [hfr.envs])
    (fun i _ => by rw [hfr.envs])

theorem MemInv.of_frame (h : MemInv own s) (hfr : Kernel.PmapFrame s s')
    (hp : PageInv own ∅ s') : MemInv own s' := by
  obtain ⟨l, hl⟩ := h.table
  exact ⟨hp, l, hl.of_frame hfr⟩

/-- Changing an environment's own record: neither directory nor link, and the
slot stays as free or live as it was. -/
theorem MemInv.setEnv (h : MemInv own s) (hl : v.envLink = (s.envs e).envLink)
    (hs : v.envStatus = .free ↔ (s.envs e).envStatus = .free)
    (hp : v.envPgdir = (s.envs e).envPgdir) :
    MemInv own (s.setEnv e v) ∧ refs (s.setEnv e v) = refs s := by
  have hdir : ∀ i, ((s.setEnv e v).envs i).envPgdir = (s.envs i).envPgdir := by
    intro i
    show (update s.envs e v i).envPgdir = _
    by_cases hi : i = e
    · rw [hi, update_self, hp]
    · rw [update_of_ne hi]
  have hdirs : envDirs (s.setEnv e v) = envDirs s := funext fun x => hdir x
  obtain ⟨l, ht⟩ := h.table
  refine ⟨⟨h.page.congr rfl rfl rfl rfl rfl hdirs, l, ht.congr rfl (fun i => ?_)
    (fun i _ => ?_) (fun i _ => hdir i)⟩, ?_⟩
  · show (update s.envs e v i).envLink = _
    by_cases hi : i = e
    · rw [hi, update_self, hl]
    · rw [update_of_ne hi]
  · show (update s.envs e v i).envStatus = _ ↔ _
    by_cases hi : i = e
    · rw [hi, update_self]
      exact hs
    · rw [update_of_ne hi]
  · unfold refs
    rw [hdirs]
    rfl

/-! ## §2. Counting an insertion. -/

theorem hits_update_le (f : Slot (Fin NENV) → Option Nat) (a : Slot (Fin NENV))
    (w : Option Nat) (p : Nat) :
    hits (update f a w) p ≤ hits f p + if w = some p then 1 else 0 := by
  have := hits_update f a w p
  omega

/-- Filling a slot, and before that perhaps the slot of its page table, takes
no count over its limit when the page itself has room. -/
theorem hits_insert_le {f g : Slot (Fin NENV) → Option Nat} {a b : Slot (Fin NENV)}
    (hb : ∀ p, hits f p ≤ 65535) (hroom : hits f pp < 65535)
    (hg : g = f ∨ ∃ t, hits f t = 0 ∧ t ≠ pp ∧ f b = none ∧ g = update f b (some t))
    (p : Nat) : hits (update g a (some pp)) p ≤ 65535 := by
  have h1 := hits_update_le g a (some pp) p
  have hp := hb p
  rcases hg with rfl | ⟨t, ht, htpp, -, rfl⟩
  · by_cases hpp : pp = p
    · subst hpp
      rw [if_pos rfl] at h1
      omega
    · rw [if_neg (fun h => hpp (Option.some.inj h))] at h1
      omega
  · have h2 := hits_update_le f b (some t) p
    by_cases hpp : pp = p
    · subst hpp
      rw [if_pos rfl] at h1
      rw [if_neg (fun h => htpp (Option.some.inj h))] at h2
      omega
    · rw [if_neg (fun h => hpp (Option.some.inj h))] at h1
      by_cases htp : t = p
      · subst htp
        rw [if_pos rfl] at h2
        omega
      · rw [if_neg (fun h => htp (Option.some.inj h))] at h2
        omega

/-- A count below its limit is not 65535. -/
theorem PageInv.ref_ne_max {spare : Set Nat} (h : PageInv own spare s)
    (hlt : pp < s.npages) (hown : pp ∉ own) (hroom : hits (refs s) pp < 65535) :
    ((s.pages pp).ppRef == 65535#16) = false := by
  rw [h.books.count pp hlt hown, beq_eq_false_iff_ne]
  intro hc
  have hv := congrArg BitVec.toNat hc
  simp at hv
  omega

/-! ## §3. Mapping a page that is mapped somewhere, or is new. -/

/-- `page_insert` of a page that an environment already has. -/
theorem MemInv.insertMapped (h : MemInv own s) (hb : Bounded s) {a : Slot (Fin NENV)}
    (ha : a.isTable = false) (hpp : refs s a = some pp) {e : Fin NENV}
    (hd : envDirs s e = some d) (hva : va < UTOP) (hperm : permOk perm = true) :
    pageInsert d pp va perm s = .ok (-E_NO_MEM) s ∨
    ∃ s', pageInsert d pp va perm s = .ok 0#32 s' ∧ Kernel.PmapFrame s s' ∧
      Kept own (hits (refs s) pp < 65535) s s' ∧
      SpaceUpdate s s' e va (some (pp, perm ||| PTE_P)) := by
  obtain ⟨hlt, hown⟩ := h.page.books.ref a pp hpp
  have hpos := hits_pos_of_eq hpp
  have htab : ∀ b, b.isTable = true → refs s b ≠ some pp := by
    intro b hbt hbp
    rw [← h.page.books.table b a pp hbt hbp hpp, hbt] at ha
    cases ha
  rcases h.page.pageInsert hva (fun q _ => hb q) hd hperm hlt hown (Or.inl (by omega)) htab with
    ⟨hrun, -⟩ | ⟨s', g, hrun, hfr, hinv, hwr, hg, hrefs⟩
  · exact Or.inl hrun
  · rw [Set.empty_sdiff] at hinv
    refine Or.inr ⟨s', hrun, hfr, ⟨h.of_frame hfr hinv, hfr.curenv,
      fun hroom => ⟨fun p => ?_, ?_⟩⟩, h.page.insert_space hd hva hlt hperm hrun hfr.envs rfl⟩
    · rw [hrefs]
      exact hits_insert_le hb hroom hg p
    · rw [hwr, h.page.ref_ne_max hlt hown hroom, Bool.or_false]

/-- The end of `sys_page_alloc`: a new page goes to `va`, or back. -/
theorem MemInv.insertNew (h : MemInv own s) (cond : Prop) (hb : Bounded s)
    (hpp : s.pageFreeList = some pp) {e : Fin NENV} (hd : envDirs s e = some d) (hva : va < UTOP)
      (hperm : permOk perm = true) :
    (pageInsert d pp va perm (s.takeZeroed pp) = .ok (-E_NO_MEM) (s.takeZeroed pp) ∧
      ∃ s', pageFree pp (s.takeZeroed pp) = .ok () s' ∧ Kept own cond s s' ∧
        s'.envs = s.envs ∧ SameSpaces s s') ∨
    ∃ s', pageInsert d pp va perm (s.takeZeroed pp) = .ok 0#32 s' ∧ Kept own cond s s' ∧
      s'.envs = s.envs ∧ SpaceUpdate s s' e va (some (pp, perm ||| PTE_P)) := by
  obtain ⟨hlt, hown, -, hhits, href⟩ := h.page.books.head hpp
  obtain ⟨hinv, hrefs⟩ := h.page.takeZeroed hpp
  have hfr₀ : Kernel.PmapFrame s (s.takeZeroed pp) := Kernel.pmapFrame_of_pages s _ _ _ _
  have hb₀ : Bounded (s.takeZeroed pp) := fun p => by rw [hrefs]; exact hb p
  have hmem : pp ∈ insert pp (∅ : Set Nat) := Set.mem_insert pp ∅
  have hempty : insert pp (∅ : Set Nat) \ {pp} = ∅ := by simp
  have htab : ∀ b, b.isTable = true → refs (s.takeZeroed pp) b ≠ some pp := by
    intro b _
    rw [hrefs]
    exact ne_of_hits_eq_zero hhits b
  have hspaces : SameSpaces s (s.takeZeroed pp) := by
    refine sameSpaces_of_tables (fun _ => rfl) (fun a q _ hq i => ?_)
    have hne : q ≠ pp := fun he => ne_of_hits_eq_zero hhits a (he ▸ hq)
    exact congrFun (update_of_ne hne _ _) i
  rcases hinv.pageInsert hva (fun q _ => hb₀ q) hd hperm hlt hown (Or.inr hmem) htab with
    ⟨hrun, -⟩ | ⟨s', g, hrun, hfr, hinv', hwr, hg, hrefs'⟩
  · have hpage : (s.takeZeroed pp).pages pp = ⟨none, 0⟩ := by
      show update s.pages pp _ pp = _
      rw [update_self, href]
    have hback := hinv.giveUp hmem
    rw [hempty] at hback
    refine Or.inl ⟨hrun, _, pageFree_ok (by rw [hpage]) (by rw [hpage]),
      ⟨h.of_frame (hfr₀.trans (Kernel.pmapFrame_of_pages _ _ _ _ _)) hback, rfl,
      fun _ => ⟨fun p => ?_, rfl⟩⟩, rfl, hspaces⟩
    have : hits (refs (s.takeZeroed pp)) p ≤ 65535 := hb₀ p
    exact this
  · rw [hempty] at hinv'
    refine Or.inr ⟨s', hrun, ⟨h.of_frame (hfr₀.trans hfr) hinv', (hfr₀.trans hfr).curenv,
      fun _ => ⟨fun p => ?_, ?_⟩⟩, hfr.envs,
      (hinv.insert_space hd hva hlt hperm hrun hfr.envs rfl).after hspaces⟩
    · rw [hrefs']
      exact hits_insert_le hb₀ (by rw [hrefs, hhits]; decide) hg p
    · rw [hwr, hinv.ref_ne_max hlt hown (by rw [hrefs, hhits]; decide), Bool.or_false]
      rfl

/-! ## §4. The calls on memory. -/

theorem badVa_false (h : badVa va = false) : va < UTOP := by
  unfold badVa at h
  simp only [Bool.or_eq_false_iff, decide_eq_false_iff_not] at h
  exact BitVec.not_le.mp h.1

/-- `sys_page_alloc`: nothing, or the first free page goes to `va` of the target. -/
theorem sysPageAlloc_spec (cond : Prop) (h : MemInv own s) (hb : Bounded s) (hc : s.curenv = some c)
    (hlive : Live s c) (envid va perm : Word) :
    wp (sysPageAlloc envid va perm) (fun _ s' => Kept own cond s s' ∧ s'.envs = s.envs ∧
        (SameSpaces s s' ∨ ∃ e pp, findEnv s c envid true = .ok e ∧ va < UTOP ∧
          s.pageFreeList = some pp ∧ SpaceUpdate s s' e va (some (pp, perm ||| PTE_P))))
      (fun x _ => allocPanic x = false) s := by
  unfold sysPageAlloc
  by_cases hbad : badVa va = true
  · rw [if_pos hbad]
    exact ⟨Kept.refl h hb, rfl, Or.inl (.refl s)⟩
  rw [if_neg hbad]
  by_cases hperm : permOk perm = true
  case neg =>
    rw [if_pos (by simpa using hperm)]
    exact ⟨Kept.refl h hb, rfl, Or.inl (.refl s)⟩
  rw [if_neg (by simp [hperm])]
  have hva := badVa_false (by simpa using hbad)
  refine wp_bind_ok (envid2env_eq hc envid true) ?_
  cases hfind : findEnv s c envid true with
  | error r => exact ⟨Kept.refl h hb, rfl, Or.inl (.refl s)⟩
  | ok e =>
    have he := findEnv_live hlive hfind
    obtain ⟨d, hd⟩ := h.dir he
    cases hpp : s.pageFreeList with
    | none =>
      refine wp_bind_ok (pageAlloc_nil 1 hpp) ?_
      exact ⟨Kept.refl h hb, rfl, Or.inl (.refl s)⟩
    | some pp =>
      obtain ⟨hlt, -, -, -, href⟩ := h.page.books.head hpp
      have hderef : derefPgdir e (s.takeZeroed pp) = .ok d (s.takeZeroed pp) :=
        derefPgdir_ok hd
      refine wp_bind_ok (pageAlloc_zero hpp href hlt h.page.npages_le) ?_
      refine wp_bind_ok hderef ?_
      rcases h.insertNew cond hb hpp hd hva hperm with
        ⟨hrun, s', hfree, hkept, henvs, hsame⟩ | ⟨s', hrun, hkept, henvs, hup⟩
      · refine wp_bind_ok hrun ?_
        refine wp_bind_ok hfree ?_
        exact ⟨hkept, henvs, Or.inl hsame⟩
      · refine wp_bind_ok hrun ?_
        exact ⟨hkept, henvs, Or.inr ⟨e, pp, rfl, hva, rfl, hup⟩⟩

/-- `sys_page_unmap`: nothing, or `va` of the target is empty. -/
theorem sysPageUnmap_spec (cond : Prop) (h : MemInv own s) (hb : Bounded s) (hc : s.curenv = some c)
    (hlive : Live s c) (envid va : Word) :
    wp (sysPageUnmap envid va) (fun _ s' => Kept own cond s s' ∧ s'.envs = s.envs ∧
        (SameSpaces s s' ∨
          ∃ e, findEnv s c envid true = .ok e ∧ va < UTOP ∧ SpaceUpdate s s' e va none))
      (fun x _ => allocPanic x = false) s := by
  unfold sysPageUnmap
  by_cases hbad : badVa va = true
  · rw [if_pos hbad]
    exact ⟨Kept.refl h hb, rfl, Or.inl (.refl s)⟩
  rw [if_neg hbad]
  have hva := badVa_false (by simpa using hbad)
  refine wp_bind_ok (envid2env_eq hc envid true) ?_
  cases hfind : findEnv s c envid true with
  | error r => exact ⟨Kept.refl h hb, rfl, Or.inl (.refl s)⟩
  | ok e =>
    obtain ⟨d, hd⟩ := h.dir (findEnv_live hlive hfind)
    obtain ⟨s', hrun, hfr, hinv, hwr, hrefs⟩ := h.page.pageRemove hb hva hd
    refine wp_bind_ok (derefPgdir_ok hd) ?_
    refine wp_bind_ok hrun ?_
    exact ⟨⟨h.of_frame hfr hinv, hfr.curenv,
      fun _ => ⟨(Drops.of_update hrefs).bounded hb, hwr⟩⟩, hfr.envs,
      Or.inr ⟨e, rfl, hva, h.page.remove_space hd hva hrun hfr.envs⟩⟩

/-- The page `sys_page_map` is about to map. -/
def srcPage (s : Kernel) (c : Nat) (srcenvid srcva : Word) : Option Nat :=
  match findEnv s c srcenvid true with
  | .ok e => mappedAt s e srcva
  | .error _ => none

/-- The permission bits of an entry keep its write bit. -/
theorem pteFlags_and_w (w : Word) : pteFlags w &&& PTE_W = w &&& PTE_W := by
  unfold pteFlags
  rw [BitVec.and_assoc]
  congr 1

/-- `sys_page_map`: nothing, or the page at `srcva` of the source goes to
`dstva` of the target, writable only if it was writable there. -/
theorem sysPageMap_spec (h : MemInv own s) (hb : Bounded s) (hc : s.curenv = some c)
    (hlive : Live s c) (srcenvid srcva dstenvid dstva perm : Word) :
    wp (sysPageMap srcenvid srcva dstenvid dstva perm)
      (fun _ s' => Kept own
        (∀ pp, srcPage s c srcenvid srcva = some pp → hits (refs s) pp < 65535) s s' ∧
        s'.envs = s.envs ∧ (SameSpaces s s' ∨ ∃ es ed pp f,
          findEnv s c srcenvid true = .ok es ∧ findEnv s c dstenvid true = .ok ed ∧
          dstva < UTOP ∧ srcva < UTOP ∧ space s es (pgnum srcva) = some (pp, f) ∧
          (perm &&& PTE_W ≠ 0#32 → f &&& PTE_W ≠ 0#32) ∧
          SpaceUpdate s s' ed dstva (some (pp, perm ||| PTE_P))))
      (fun x _ => allocPanic x = false) s := by
  unfold sysPageMap
  by_cases hbad : (badVa srcva || badVa dstva) = true
  · rw [if_pos hbad]
    exact rfl
  rw [if_neg hbad]
  simp only [Bool.or_eq_true, not_or, Bool.not_eq_true] at hbad
  have hsrc := badVa_false hbad.1
  have hdst := badVa_false hbad.2
  by_cases hperm : permOk perm = true
  case neg =>
    rw [if_pos (by simpa using hperm)]
    exact rfl
  rw [if_neg (by simp [hperm])]
  refine wp_bind_ok (envid2env_eq hc srcenvid true) ?_
  cases hfs : findEnv s c srcenvid true with
  | error r => exact ⟨Kept.refl h hb, rfl, Or.inl (.refl s)⟩
  | ok es =>
    refine wp_bind_ok (envid2env_eq hc dstenvid true) ?_
    cases hfd : findEnv s c dstenvid true with
    | error r => exact ⟨Kept.refl h hb, rfl, Or.inl (.refl s)⟩
    | ok ed =>
      have hes := findEnv_live hlive hfs
      obtain ⟨ds, hds⟩ := h.dir hes
      obtain ⟨dd, hdd⟩ := h.dir (findEnv_live hlive hfd)
      obtain ⟨r, hlook, hr⟩ := h.page.pageLookup hsrc hds
      obtain ⟨-, hentry⟩ := h.page.lookup_space hds hsrc hlook
      refine wp_bind_ok (derefPgdir_ok hds) ?_
      refine wp_bind_ok hlook ?_
      cases r with
      | none => exact rfl
      | some x =>
        obtain ⟨pp, pt, j⟩ := x
        have hslot := hr.symm
        have hpage : srcPage s c srcenvid srcva = some pp := by
          unfold srcPage
          rw [hfs]
          exact (mappedAt_eq ⟨es, hes.1⟩ hsrc).trans hslot
        refine wp_get_bind ?_
        by_cases hw : perm &&& PTE_W ≠ 0#32 ∧ s.mem pt j &&& PTE_W = 0#32
        · rw [if_pos hw]
          exact rfl
        · rw [if_neg hw]
          refine wp_bind_ok (derefPgdir_ok hdd) ?_
          rcases h.insertMapped hb rfl hslot hdd hdst hperm with
            hrun | ⟨s', hrun, hfr, hkept, hup⟩
          · refine wp_bind_ok hrun ?_
            exact rfl
          · refine wp_bind_ok hrun ?_
            refine ⟨⟨hkept.inv, hkept.caller, fun hroom => hkept.counts (hroom pp hpage)⟩,
              hfr.envs, Or.inr ⟨es, ed, pp, pteFlags (s.mem pt j), rfl, rfl, hdst, hsrc,
                hentry.symm, fun hpw => ?_, hup⟩⟩
            rw [pteFlags_and_w]
            exact fun hc => hw ⟨hpw, hc⟩

/-! ## §5. Messages and environments. -/

/-- The record of an environment changes, but not what it has. -/
theorem Kept.setEnv (h : Kept own cond s s') (hl : v.envLink = (s'.envs e).envLink)
    (hs : v.envStatus = .free ↔ (s'.envs e).envStatus = .free)
    (hp : v.envPgdir = (s'.envs e).envPgdir) : Kept own cond s (s'.setEnv e v) := by
  obtain ⟨hinv, hrefs⟩ := h.inv.setEnv hl hs hp
  refine ⟨hinv, h.caller, fun hcond => ?_⟩
  obtain ⟨hb, hwr⟩ := h.counts hcond
  exact ⟨fun p => by rw [hrefs]; exact hb p, hwr⟩

/-- The record of the receiver after a message. -/
def Env.received (env : Env) (from_ value perm : Word) : Env :=
  { env with
    envIpcRecving := false
    envIpcFrom := from_
    envIpcValue := value
    envIpcPerm := perm
    envStatus := .runnable
    envTf := { env.envTf with tfRegs := { env.envTf.tfRegs with regEax := 0#32 } } }

/-- A message from `c` to `e`, without a page or with one. -/
inductive IpcSent (s s' : Kernel) (c e : Nat) (value srcva perm : Word) : Prop where
  | plain (hno : ¬ (srcva < UTOP ∧ (s.envs e).envIpcDstva < UTOP))
      (hcpus : s'.cpunum = s.cpunum ∧ ∀ i, (s'.cpus i).cpuEnv = (s.cpus i).cpuEnv)
      (henvs : s'.envs = update s.envs e
        ((s.envs e).received (s.envs c).envId value 0#32))
      (hsame : SameSpaces s s')
  | page (hsrc : srcva < UTOP) (hdst : (s.envs e).envIpcDstva < UTOP) {pp : Nat} {f : Word}
      (hcpus : s'.cpunum = s.cpunum ∧ ∀ i, (s'.cpus i).cpuEnv = (s.cpus i).cpuEnv)
      (hfrom : space s c (pgnum srcva) = some (pp, f))
      (hw : perm &&& PTE_W ≠ 0#32 → f &&& PTE_W ≠ 0#32)
      (henvs : s'.envs = update s.envs e
        ((s.envs e).received (s.envs c).envId value perm))
      (hup : SpaceUpdate s s' e (s.envs e).envIpcDstva (some (pp, perm ||| PTE_P)))

/-- Delivery, from a state whose environments differ from those of `s₀` in the
receiver's `env_ipc_perm` at most. -/
theorem ipcDeliver_ok {s₀ : Kernel} (hc : s.curenv = some c)
    (henvs : s.envs = update s₀.envs e { s₀.envs e with envIpcPerm := perm }) (value : Word) :
    ∃ s', ipcDeliver e value s = .ok () s' ∧
      s'.envs = update s₀.envs e ((s₀.envs e).received (s₀.envs c).envId value perm) ∧
      (∃ v, s' = s.setEnv e v ∧ v.envStatus = .runnable ∧ v.envLink = (s.envs e).envLink ∧
        v.envPgdir = (s.envs e).envPgdir) := by
  have hid : (s.envs c).envId = (s₀.envs c).envId := by
    rw [henvs]
    by_cases hce : c = e
    · rw [hce, update_self]
    · rw [update_of_ne hce]
  refine ⟨s.setEnv e { s.envs e with
      envIpcRecving := false
      envIpcFrom := (s.envs c).envId
      envIpcValue := value
      envStatus := .runnable
      envTf := { (s.envs e).envTf with
        tfRegs := { (s.envs e).envTf.tfRegs with regEax := 0#32 } } }, ?_, ?_,
    _, rfl, rfl, rfl, rfl⟩
  · unfold ipcDeliver
    rw [bind_ok (derefCurenv_ok hc), bind_get]
    rfl
  · show update s.envs e _ = _
    rw [hid, henvs, update_idem, update_self]
    rfl

theorem Kept.deliver (h : Kept own cond s s') (he : Live s' e)
    (hst : v.envStatus = .runnable) (hl : v.envLink = (s'.envs e).envLink)
    (hp : v.envPgdir = (s'.envs e).envPgdir) :
    Kept own cond s (s'.setEnv e v) ∧ SameSpaces s' (s'.setEnv e v) := by
  refine ⟨h.setEnv hl ⟨fun hf => ?_, fun hf => absurd hf he.2⟩ hp, ?_⟩
  · rw [hst] at hf
    cases hf
  · refine sameSpaces_of_eq (fun x => ?_) rfl
    show (update s'.envs e v x).envPgdir = _
    by_cases hx : x = e
    · rw [hx, update_self, hp]
    · rw [update_of_ne hx]

/-- A page can be sent: everything but the receiving is in order. -/
structure PageSendOk (s : Kernel) (c e : Nat) (srcva perm : Word) : Prop where
  aligned : rounddown srcva = srcva
  allowed : permOk perm = true ∧ perm &&& (PTE_U ||| PTE_P) = PTE_U ||| PTE_P
  mapped : ∃ pp f, space s c (pgnum srcva) = some (pp, f)
    ∧ (perm &&& PTE_W ≠ 0#32 → f &&& PTE_W ≠ 0#32)
  room : (s.envs e).envIpcDstva < UTOP →
    (∃ d t, (s.envs e).envPgdir = some d ∧ target s.mem d (pdx (s.envs e).envIpcDstva) = some t)
      ∨ s.pageFreeList ≠ none

/-- The target exists; and it does not receive, or no page is sent, or the page
can be. -/
def CleanSend (s : Kernel) (c : Nat) (envid srcva perm : Word) : Prop :=
  ∃ e, findEnv s c envid false = .ok e
    ∧ ((s.envs e).envIpcRecving = false ∨ ¬ srcva < UTOP ∨ PageSendOk s c e srcva perm)

/-- What has been checked when a message with a `srcva` is delivered. -/
def SendChecked (s : Kernel) (c : Nat) (envid srcva perm : Word) : Prop :=
  srcva < UTOP → ∀ e, findEnv s c envid false = .ok e → (s.envs e).envIpcRecving = true →
    ∃ pp f, space s c (pgnum srcva) = some (pp, f) ∧
      ¬ (rounddown srcva ≠ srcva ∨ (!permOk perm) = true) ∧
      ¬ (perm &&& PTE_W ≠ 0#32 ∧ f &&& PTE_W = 0#32)

/-- A page that is sent has room for one more reference. -/
abbrev SendBound (s : Kernel) (c : Nat) (srcva : Word) : Prop :=
  srcva < UTOP → ∀ pp, mappedAt s c srcva = some pp → hits (refs s) pp < 65535

/-- What a send that returns `r` leaves. -/
def SendPost (own : Set Nat) (s : Kernel) (c : Nat) (envid value srcva perm r : Word)
    (s' : Kernel) : Prop :=
  Kept own (SendBound s c srcva) s s' ∧ ∃ e, findEnv s c envid false = .ok e ∧
    ((r = -E_IPC_NOT_RECV ∧ s' = s ∧ (s.envs e).envIpcRecving = false) ∨
      (r = 0#32 ∧ (s.envs e).envIpcRecving = true ∧ IpcSent s s' c e value srcva perm))

section
variable (h : MemInv own s)
include h

/-- `page_insert` of a mapped page fails only for want of a page table. -/
theorem MemInv.insert_noRoom {a : Slot (Fin NENV)}
    (hpp : refs s a = some pp) {e : Fin NENV} (hd : envDirs s e = some d) (hva : va < UTOP)
      (hperm : permOk perm = true)
    (hrun : pageInsert d pp va perm s = .ok (-E_NO_MEM) s) :
    ¬ ((∃ t, target s.mem d (pdx va) = some t) ∨ s.pageFreeList ≠ none) := by
  have hi : pdx va < NPDUSER := (pdx_lt_user_iff va).mpr hva
  have hfail : ∀ s', pageInsert d pp va perm s ≠ .ok 0#32 s' := by
    intro s' hok
    rw [hok] at hrun
    exact absurd (EStateM.Result.ok.inj hrun).1 (by decide)
  have hnone : target s.mem d (pdx va) = none := by
    cases ht : target s.mem d (pdx va) with
    | none => rfl
    | some t =>
      -- with a table `page_insert` returns 0
      obtain ⟨-, htlt, -, -⟩ := h.page.table hd (i := ⟨pdx va, hi⟩) ht
      refine absurd (pageInsert_of_walk (pgdirWalk_present true ht htlt) ht htlt fun q hq => ?_)
        (hfail _)
      have hpage : refs s (vaSlot e hva) = some q :=
        (deref_pageSlot hd ht _).trans hq
      exact ⟨(h.page.books.ref _ q hpage).1, fun _ => h.page.books.link hpage⟩
  rintro (⟨t, ht⟩ | hf)
  · rw [hnone] at ht
    cases ht
  · obtain ⟨p, hp⟩ := Option.ne_none_iff_exists'.mp hf
    obtain ⟨l, wf, hmem⟩ := h.page.wellFormed
    obtain ⟨s', hok, -⟩ := pageInsert_updates_create wf ⟨e, hd⟩ hva
      (h.page.books.ref a pp hpp).1 hperm hnone hp
    exact hfail s' hok

/-- `sys_ipc_try_send`: nothing, or one message; and it stops only if the send is not
a clean one. -/
theorem sysIpcTrySend_full (hb : Bounded s) (hc : s.curenv = some c)
    (hlive : Live s c) (envid value srcva perm : Word) :
    wp (sysIpcTrySend envid value srcva perm)
      (fun r s' => SendPost own s c envid value srcva perm r s' ∧ SendChecked s c envid srcva perm)
      (fun x _ => allocPanic x = false ∧ ¬ CleanSend s c envid srcva perm) s := by
  refine wp_bind_ok (envid2env_eq hc envid false) ?_
  cases hfind : findEnv s c envid false with
  | error r =>
    refine ⟨rfl, ?_⟩
    rintro ⟨e, he, -⟩
    rw [hfind] at he
    cases he
  | ok e =>
    have he := findEnv_live hlive hfind
    have hself : ∀ {e'}, findEnv s c envid false = .ok e' → e' = e := by
      intro e' he'
      rw [hfind] at he'
      exact (Except.ok.inj he').symm
    refine wp_get_bind ?_
    by_cases hrecv : (s.envs e).envIpcRecving = false
    · rw [if_pos hrecv]
      refine ⟨⟨Kept.refl h hb, e, hfind, Or.inl ⟨rfl, rfl, hrecv⟩⟩, fun _ e' he' hr' => ?_⟩
      rw [hself he', hrecv] at hr'
      cases hr'
    rw [if_neg hrecv]
    have hrecv' : (s.envs e).envIpcRecving = true := by simpa using hrecv
    have hnot : srcva < UTOP → ¬ PageSendOk s c e srcva perm → ¬ CleanSend s c envid srcva perm :=
      by
      rintro hsrc hno ⟨e', he', h0 | h0 | h0⟩
      · rw [hself he'] at h0
        exact hrecv h0
      · exact h0 hsrc
      · rw [hself he'] at h0
        exact hno h0
    -- the receiver's `env_ipc_perm` is cleared first
    obtain ⟨s₁, hs₁⟩ : ∃ s₁, s.setEnv e { s.envs e with envIpcPerm := 0#32 } = s₁ := ⟨_, rfl⟩
    refine wp_bind_ok (show modifyEnv e (fun env => { env with envIpcPerm := 0#32 }) s
      = .ok () s₁ from hs₁ ▸ rfl) ?_
    have hk₁ : Kept own (SendBound s c srcva) s s₁ :=
      hs₁ ▸ (Kept.refl h hb).setEnv rfl Iff.rfl rfl
    obtain ⟨hinv₁, hrefs₁⟩ := h.setEnv (e := e)
      (v := { s.envs e with envIpcPerm := 0#32 }) rfl Iff.rfl rfl
    rw [hs₁] at hinv₁ hrefs₁
    have henvs₁ : s₁.envs = update s.envs e { s.envs e with envIpcPerm := 0#32 } := hs₁ ▸ rfl
    have hmem₁ : s₁.mem = s.mem := hs₁ ▸ rfl
    have hfree₁ : s₁.pageFreeList = s.pageFreeList := hs₁ ▸ rfl
    have hcpus₁ : s₁.cpunum = s.cpunum ∧ s₁.cpus = s.cpus := hs₁ ▸ ⟨rfl, rfl⟩
    have hrec : ∀ i, (s₁.envs i).envStatus = (s.envs i).envStatus ∧
        (s₁.envs i).envPgdir = (s.envs i).envPgdir ∧
        (s₁.envs i).envIpcDstva = (s.envs i).envIpcDstva := by
      intro i
      rw [henvs₁]
      by_cases hi : i = e
      · rw [hi, update_self]
        exact ⟨rfl, rfl, rfl⟩
      · rw [update_of_ne hi]
        exact ⟨rfl, rfl, rfl⟩
    have hsame₁ : SameSpaces s s₁ := sameSpaces_of_eq (fun i => (hrec i).2.1) hmem₁
    have hc₁ : s₁.curenv = some c := hk₁.caller.trans hc
    have he₁ : Live s₁ e := ⟨he.1, by rw [(hrec e).1]; exact he.2⟩
    have hlive₁ : Live s₁ c := ⟨hlive.1, by rw [(hrec c).1]; exact hlive.2⟩
    have hb₁ : Bounded s₁ := fun p => by rw [hrefs₁]; exact hb p
    -- delivery without a page
    have hplain : ¬ (srcva < UTOP ∧ (s.envs e).envIpcDstva < UTOP) →
        SendChecked s c envid srcva perm →
        wp (ipcDeliver e value >>= fun _ => pure 0#32)
          (fun r s' => SendPost own s c envid value srcva perm r s' ∧
            SendChecked s c envid srcva perm)
          (fun x _ => allocPanic x = false ∧ ¬ CleanSend s c envid srcva perm) s₁ := by
      intro hno hchk
      obtain ⟨s', hrun, henvs, v, rfl, hst, hl, hp⟩ := ipcDeliver_ok hc₁ henvs₁ value
      obtain ⟨hk, hsame⟩ := hk₁.deliver he₁ hst hl hp
      refine wp_bind_ok hrun ?_
      exact ⟨⟨hk, e, hfind, Or.inr ⟨rfl, hrecv', .plain hno
        ⟨hcpus₁.1, fun i => congrArg CpuInfo.cpuEnv (congrFun hcpus₁.2 i)⟩ henvs
        (hsame₁.trans hsame)⟩⟩, hchk⟩
    by_cases hsrc : srcva < UTOP
    case neg =>
      rw [if_neg hsrc]
      exact hplain (fun hc => hsrc hc.1) (fun hlt => absurd hlt hsrc)
    rw [if_pos hsrc]
    obtain ⟨d, hd⟩ := hinv₁.dir hlive₁
    obtain ⟨r, hlook, hr⟩ := hinv₁.page.pageLookup hsrc hd
    obtain ⟨-, hentry⟩ := hinv₁.page.lookup_space hd hsrc hlook
    rw [hsame₁ c hlive.1 _ (pgnum_lt_utop hsrc)] at hentry
    refine wp_bind_ok (derefCurenv_ok hc₁) ?_
    refine wp_bind_ok (derefPgdir_ok hd) ?_
    refine wp_bind_ok hlook ?_
    cases r with
    | none =>
      refine ⟨rfl, hnot hsrc fun hok => ?_⟩
      obtain ⟨pp, f, hpage, -⟩ := hok.mapped
      rw [hpage] at hentry
      cases hentry
    | some x =>
      obtain ⟨pp, pt, j⟩ := x
      have hslot := hr.symm
      have hpage : mappedAt s c srcva = some pp := by
        rw [mappedAt_eq ⟨c, hlive.1⟩ hsrc, ← hrefs₁]
        exact hslot
      show wp (if _ then _ else _) _ _ s₁
      by_cases hbad : rounddown srcva ≠ srcva ∨ (!permOk perm) = true
      · rw [if_pos hbad]
        refine ⟨rfl, hnot hsrc fun hok => ?_⟩
        rw [hok.aligned, hok.allowed.1] at hbad
        simp at hbad
      rw [if_neg hbad]
      have hperm : permOk perm = true := by
        simp only [not_or, Bool.not_eq_true, Bool.not_eq_false'] at hbad
        exact hbad.2
      refine wp_get_bind ?_
      by_cases hw : perm &&& PTE_W ≠ 0#32 ∧ s₁.mem pt j &&& PTE_W = 0#32
      · rw [if_pos hw]
        refine ⟨rfl, hnot hsrc fun hok => ?_⟩
        obtain ⟨pp', f, hpage', hwr⟩ := hok.mapped
        rw [hpage'] at hentry
        obtain ⟨-, hflags⟩ := Prod.mk.inj (Option.some.inj hentry)
        have hset := hwr hw.1
        rw [← hflags, pteFlags_and_w] at hset
        exact hset hw.2
      rw [if_neg hw]
      have hchk : SendChecked s c envid srcva perm := by
        refine fun _ _ _ _ => ⟨pp, _, hentry.symm, hbad, ?_⟩
        rw [pteFlags_and_w]
        exact hw
      refine wp_get_bind ?_
      by_cases hdst : (s₁.envs e).envIpcDstva < UTOP
      case neg =>
        rw [if_neg hdst]
        rw [(hrec e).2.2] at hdst
        exact hplain (fun hc => hdst hc.2) hchk
      rw [if_pos hdst]
      obtain ⟨de, hde⟩ := hinv₁.dir he₁
      refine wp_bind_ok (derefPgdir_ok hde) ?_
      rcases hinv₁.insertMapped hb₁ rfl hslot hde hdst hperm with
        hrun | ⟨s₂, hrun, hfr, hkept, hup⟩
      · refine wp_bind_ok hrun ?_
        refine ⟨rfl, hnot hsrc fun hok => ?_⟩
        refine hinv₁.insert_noRoom hslot hde hdst hperm hrun ?_
        rw [(hrec e).2.2] at hdst
        rw [hfree₁, hmem₁, (hrec e).2.2]
        refine (hok.room hdst).imp_left ?_
        rintro ⟨d', t, hd', ht⟩
        have hdd : (s₁.envs e).envPgdir = some de := hde
        rw [(hrec e).2.1, hd'] at hdd
        obtain rfl := Option.some.inj hdd
        exact ⟨t, ht⟩
      · refine wp_bind_ok hrun ?_
        have hk₂ : Kept own (SendBound s c srcva) s s₂ := by
          refine ⟨hkept.inv, hkept.caller.trans hk₁.caller, fun hroom => ?_⟩
          have hroom₁ : hits (refs s₁) pp < 65535 := by rw [hrefs₁]; exact hroom hsrc pp hpage
          obtain ⟨hb₂, hwr₂⟩ := hkept.counts hroom₁
          exact ⟨hb₂, hwr₂.trans (hk₁.counts hroom).2⟩
        have he₂ : Live s₂ e := ⟨he₁.1, by rw [hfr.envs]; exact he₁.2⟩
        have henvs₃ : (s₂.setEnv e { s₂.envs e with envIpcPerm := perm }).envs
            = update s.envs e { s.envs e with envIpcPerm := perm } := by
          show update s₂.envs e _ = _
          rw [hfr.envs, henvs₁, update_idem, update_self]
        refine wp_bind_ok (show modifyEnv e (fun env => { env with envIpcPerm := perm }) s₂
          = .ok () (s₂.setEnv e { s₂.envs e with envIpcPerm := perm }) from rfl) ?_
        have hk₃ : Kept own (SendBound s c srcva) s
            (s₂.setEnv e { s₂.envs e with envIpcPerm := perm }) :=
          hk₂.setEnv rfl Iff.rfl rfl
        have hsame₃ : SameSpaces s₂ (s₂.setEnv e { s₂.envs e with envIpcPerm := perm }) := by
          refine sameSpaces_of_eq (fun i => ?_) rfl
          rw [henvs₃, hfr.envs, (hrec i).2.1]
          by_cases hi : i = e
          · rw [hi, update_self]
          · rw [update_of_ne hi]
        have he₃ : Live (s₂.setEnv e { s₂.envs e with envIpcPerm := perm }) e := by
          refine ⟨he₂.1, ?_⟩
          show (update s₂.envs e _ e).envStatus ≠ _
          rw [update_self]
          exact he₂.2
        have hc₃ : (s₂.setEnv e { s₂.envs e with envIpcPerm := perm }).curenv = some c :=
          hkept.caller.trans hc₁
        obtain ⟨s', hrun', henvs, v, rfl, hst, hl, hp⟩ := ipcDeliver_ok hc₃ henvs₃ value
        obtain ⟨hk, hsame⟩ := hk₃.deliver he₃ hst hl hp
        refine wp_bind_ok hrun' ?_
        rw [(hrec e).2.2] at hdst hup
        have hcpus : ∀ i, (s₂.cpus i).cpuEnv = (s.cpus i).cpuEnv := by
          intro i
          rw [hfr.cpus i, ← hcpus₁.2]
        refine ⟨⟨hk, e, hfind, Or.inr ⟨rfl, hrecv', .page hsrc hdst
          ⟨hfr.cpunum.trans hcpus₁.1, hcpus⟩ hentry.symm (fun hpw => ?_)
          henvs (((hup.after hsame₁).before hsame₃).before hsame)⟩⟩, hchk⟩
        rw [pteFlags_and_w]
        exact fun hc => hw ⟨hpw, hc⟩

theorem sysIpcTrySend_spec (hb : Bounded s) (hc : s.curenv = some c)
    (hlive : Live s c) (envid value srcva perm : Word) :
    wp (sysIpcTrySend envid value srcva perm) (SendPost own s c envid value srcva perm)
      (fun x _ => allocPanic x = false) s :=
  wp_mono (sysIpcTrySend_full h hb hc hlive envid value srcva perm) (fun _ _ hr => hr.1)
    (fun _ _ hx => hx.1)

theorem ipcBlock_kept (hb : Bounded s) (hc : s.curenv = some c) (hlive : Live s c) (dstva : Word) :
    wp (ipcBlock dstva) (fun _ s' => Kept own cond s s')
      (fun x _ => allocPanic x = false) s := by
  refine wp_bind_ok (derefCurenv_ok hc) ?_
  exact wp_of_ok rfl ((Kept.refl h hb).setEnv rfl
    ⟨fun hf => absurd hf (by simp), fun hf => absurd hf hlive.2⟩ rfl)

/-- A new environment: one reference more, to its directory. -/
theorem envAlloc_kept (cond : Prop) (hb : Bounded s) (parentId : Word) :
    ∃ r s', envAlloc parentId s = .ok r s' ∧ Kept own cond s s' ∧
      ∀ e, r = .ok e → Live s' e ∧ s'.cpunum = s.cpunum := by
  obtain ⟨l, ht⟩ := h.table
  rcases h.page.envAlloc ht parentId with
    ⟨hrun, -⟩ | ⟨hrun, -⟩ | ⟨e, p, l', -, hp, hrun, hinv, ht', hrefs⟩
  · exact ⟨_, s, hrun, Kept.refl h hb, fun e he => absurd he (by simp)⟩
  · exact ⟨_, s, hrun, Kept.refl h hb, fun e he => absurd he (by simp)⟩
  · obtain ⟨-, -, -, hhits, -⟩ := h.page.books.head hp
    refine ⟨_, _, hrun, ⟨⟨hinv, l', ht'⟩, rfl, fun _ => ⟨fun q => ?_, rfl⟩⟩, fun e' he' => ?_⟩
    · have hle := hits_update_le (refs s) (dirSlot e) (some p) q
      have hq := hb q
      rw [hrefs]
      by_cases hpq : p = q
      · subst hpq
        rw [if_pos rfl] at hle
        omega
      · rw [if_neg (fun hc => hpq (Option.some.inj hc))] at hle
        omega
    · cases he'
      refine ⟨⟨e.isLt, ?_⟩, rfl⟩
      show (update s.envs e.val _ e.val).envStatus ≠ _
      simp

theorem sysExofork_kept (hb : Bounded s) (hc : s.curenv = some c) :
    wp sysExofork (fun _ s' => Kept own cond s s') (fun x _ => allocPanic x = false) s := by
  have hid : sysGetenvid s = .ok (s.envs c).envId s := by
    unfold sysGetenvid
    rw [bind_ok (derefCurenv_ok hc)]
    rfl
  obtain ⟨r, s', hrun, hkept, hnew⟩ :=
    envAlloc_kept h cond hb (s.envs c).envId
  refine wp_bind_ok hid ?_
  refine wp_bind_ok hrun ?_
  cases r with
  | error r => exact hkept
  | ok e =>
    obtain ⟨he, -⟩ := hnew e rfl
    refine wp_bind_ok (derefCurenv_ok (hkept.caller.trans hc)) ?_
    have hfree : ∀ {u : Kernel} {v : Env}, (u.envs e).envStatus ≠ .free →
        v.envStatus ≠ .free → (v.envStatus = .free ↔ (u.envs e).envStatus = .free) :=
      fun hu hv => ⟨fun hf => absurd hf hv, fun hf => absurd hf hu⟩
    -- three stores into the record of the child
    have hk₁ := hkept.setEnv (e := e) (v := { s'.envs e with envStatus := .notRunnable })
      rfl (hfree he.2 (by simp)) rfl
    refine wp_bind_ok (show modifyEnv e (fun env => { env with envStatus := .notRunnable }) s'
      = .ok () (s'.setEnv e { s'.envs e with envStatus := .notRunnable }) from rfl) ?_
    generalize s'.setEnv e { s'.envs e with envStatus := .notRunnable } = s₁ at *
    have hk₂ := hk₁.setEnv (e := e) (v := { s₁.envs e with envTf := (s₁.envs c).envTf })
      rfl Iff.rfl rfl
    refine wp_bind_ok (show (modify fun s : Kernel =>
        s.setEnv e { s.envs e with envTf := (s.envs c).envTf } : KM PUnit) s₁
      = .ok () (s₁.setEnv e { s₁.envs e with envTf := (s₁.envs c).envTf }) from rfl) ?_
    generalize s₁.setEnv e { s₁.envs e with envTf := (s₁.envs c).envTf } = s₂ at *
    have hk₃ := hk₂.setEnv (e := e) (v := { s₂.envs e with
      envTf := { (s₂.envs e).envTf with
        tfRegs := { (s₂.envs e).envTf.tfRegs with regEax := 0#32 } } }) rfl Iff.rfl rfl
    refine wp_bind_ok (show modifyEnv e _ s₂ = .ok () (s₂.setEnv e { s₂.envs e with
      envTf := { (s₂.envs e).envTf with
        tfRegs := { (s₂.envs e).envTf.tfRegs with regEax := 0#32 } } }) from rfl) ?_
    refine wp_of_ok rfl ?_
    exact ⟨⟨hk₃.inv.page.congr rfl rfl rfl rfl rfl rfl, hk₃.inv.table.imp
        (fun l hl => hl.congr rfl (fun _ => rfl) (fun _ _ => Iff.rfl) (fun _ _ => rfl))⟩,
      hk₃.caller, hk₃.counts⟩

theorem envFree_kept (hb : Bounded s) (he : Live s e) :
    wp (envFree e) (fun _ s' => Kept own cond s s') (fun x _ => allocPanic x = false) s := by
  obtain ⟨d, hd⟩ := h.dir he
  obtain ⟨l, ht⟩ := h.table
  obtain ⟨s', hrun, hinv, hb', -, -, hf⟩ := h.page.envFree hb hd
  refine wp_of_ok hrun ⟨⟨hinv, _, ht.freed he hf⟩, ?_, fun _ => ⟨hb', hf.refWrapped⟩⟩
  unfold Kernel.curenv
  rw [hf.cpunum, hf.cpus]

end

end

end Jos
