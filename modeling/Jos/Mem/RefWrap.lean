/-
  Jos.Mem.RefWrap — **ONE PAGE CAN BE MAPPED MORE OFTEN THAN `pp_ref` CAN COUNT.**

  `pp_ref` has 16 bits, and an address space has room for 977,920 pages.  An
  environment allocates a page and maps it at one address after the other
  (`Spread`).  Up to 65535 references the counts are right; the next
  `page_insert` wraps the count to 0, one more makes it 1, and then a single
  `sys_page_unmap` puts the page on the free list while 65536 entries still
  point to it.  As long as no page with 65535 references is mapped once more,
  none of this happens.
-/
import Jos.Mem.Runs

namespace Jos

open Exec
open Function (update update_eq_self update_of_ne update_self)

variable {c : Fin NENV} {j k pp : Nat}

/-! ## §1. Counting free pages. -/

/-- At least `n` pages are free. -/
def FreeAtLeast (s : Kernel) (n : Nat) : Prop := ∃ l, FreeList s l ∧ n ≤ l.length

section

variable {own : Set Nat} {s s' : Kernel} {n : Nat}

theorem FreeAtLeast.mono (h : FreeAtLeast s n) {m : Nat} (hm : m ≤ n) : FreeAtLeast s m := by
  obtain ⟨l, hl, hle⟩ := h
  exact ⟨l, hl, by omega⟩

theorem FreeAtLeast.head (h : FreeAtLeast s (n + 1)) : ∃ p, s.pageFreeList = some p := by
  obtain ⟨l, hl, hle⟩ := h
  cases hp : s.pageFreeList with
  | none =>
    rw [hl.head_none hp] at hle
    cases hle
  | some p => exact ⟨p, rfl⟩

/-- A step that brings only the pages `ts` into use takes only them off the list. -/
theorem FreeAtLeast.step (h : PageInv own ∅ s) (h' : PageInv own ∅ s')
    (hn : s'.npages = s.npages) (hfree : FreeAtLeast s n) (ts : List Nat)
    (hrest : ∀ p ∉ ts, hits (refs s) p = 0 → hits (refs s') p = 0) :
    FreeAtLeast s' (n - ts.length) := by
  obtain ⟨l, hl, hle⟩ := hfree
  obtain ⟨l₁, hl₁, hmem₁⟩ := h.books.free
  obtain ⟨l', hl', hmem'⟩ := h'.books.free
  have hsame : l = l₁ := hl.chain.unique hl₁.chain
  have hsub : l ⊆ ts ++ l' := by
    intro p hp
    rw [List.mem_append]
    by_cases hts : p ∈ ts
    · exact Or.inl hts
    · rw [hsame] at hp
      obtain ⟨hlt, hown, hspare, hz⟩ := (hmem₁ p).mp hp
      exact Or.inr ((hmem' p).mpr ⟨by rw [hn]; exact hlt, hown, hspare, hrest p hts hz⟩)
  have hlen := (hl.nodup.subperm hsub).length_le
  rw [List.length_append] at hlen
  exact ⟨l', hl', by omega⟩

/-! ## §2. Mapping a page once more, at a free address. -/

/-- `PTE_U | PTE_P`. -/
def roPerm : Word := PTE_U ||| PTE_P

/-- The page `pp` of environment `c` has been mapped at `va` too. -/
structure MappedToo (own : Set Nat) (c : Fin NENV) (va : Word) (pp : Nat)
    (s s' : Kernel) : Prop where
  frame : Kernel.PmapFrame s s'
  inv : MemInv own s'
  wrap : s'.refWrapped = (s.refWrapped || (s.pages pp).ppRef == 65535#16)
  count : hits (refs s') pp = hits (refs s) pp + 1
  here : mappedAt s' c va = some pp
  rest : ∀ va' < UTOP, (pdx va' ≠ pdx va ∨ ptx va' ≠ ptx va) →
    mappedAt s' c va' = mappedAt s c va'
  bounded : Bounded s → hits (refs s) pp < 65535 → Bounded s'
  free : ∀ n, FreeAtLeast s (n + 1) → FreeAtLeast s' n ∧
    ((∃ va', pdx va' = pdx va ∧ mappedAt s c va' ≠ none) → FreeAtLeast s' (n + 1))

/-- An address in a page table that is not there maps nothing. -/
theorem mappedAt_none_of_table {va va' : Word} (hva : va < UTOP)
    (h : refs s (ptSlot c ⟨pdx va, (pdx_lt_user_iff va).mpr hva⟩) = none)
    (hpdx : pdx va' = pdx va) : mappedAt s c va' = none := by
  unfold mappedAt
  have h' : ((s.envs c).envPgdir.bind fun d => target s.mem d (pdx va)) = none := h
  cases hd : (s.envs c).envPgdir with
  | none => rfl
  | some d =>
    rw [hd] at h'
    show (target s.mem d (pdx va')).bind _ = none
    rw [hpdx, show target s.mem d (pdx va) = none from h']
    rfl

theorem pageInsert_mappedToo (h : MemInv own s) {d : Nat}
    (hd : envDirs s c = some d) {va : Word} (hva : va < UTOP)
    (hnone : mappedAt s c va = none) {va₀ : Word} (hva₀ : va₀ < UTOP)
    (hpp : mappedAt s c va₀ = some pp) (hfree : FreeAtLeast s (n + 1)) :
    ∃ s', pageInsert d pp va roPerm s = .ok 0#32 s' ∧ MappedToo own c va pp s s' := by
  rw [mappedAt_eq c hva] at hnone
  rw [mappedAt_eq c hva₀] at hpp
  obtain ⟨hlt, hown⟩ := h.page.books.ref _ pp hpp
  have hpos := hits_pos_of_eq hpp
  have htab : ∀ b, b.isTable = true → refs s b ≠ some pp := by
    intro b hbt hbp
    rw [h.page.books.table b _ pp hbt hbp hpp] at hbt
    exact absurd hbt (by simp [Slot.isTable])
  obtain ⟨p, hp⟩ := hfree.head
  rcases h.page.pageInsert hva (fun q hq => by rw [hnone] at hq; exact absurd hq (by simp)) hd
      (show permOk roPerm = true by decide) hlt hown (Or.inl (by omega)) htab with
    ⟨-, hoom⟩ | ⟨s', f, hrun, hfr, hinv, hwr, hf, hrefs⟩
  · rw [hp] at hoom
    cases hoom
  rw [Set.empty_sdiff] at hinv
  -- a new page table is neither `pp` nor any mapped page
  have hfpp : hits f pp = hits (refs s) pp := by
    rcases hf with rfl | ⟨t, -, htpp, hslot, rfl⟩
    · rfl
    · rw [Accounts.hits_fill hslot, if_neg htpp, Nat.add_zero]
  have hfpage : ∀ i j, f (pageSlot c i j) = refs s (pageSlot c i j) := by
    intro i j
    rcases hf with rfl | ⟨t, -, -, -, rfl⟩
    · rfl
    · exact update_of_ne (by simp) _ _
  have hfnone := (hfpage ⟨pdx va, (pdx_lt_user_iff va).mpr hva⟩ ⟨ptx va, ptx_lt va⟩).trans hnone
  refine ⟨s', hrun, hfr, h.of_frame hfr hinv, hwr, ?_, ?_, fun va' hva' hne => ?_,
    fun hb hroom p => ?_, fun n hn => ?_⟩
  · rw [hrefs, Accounts.hits_fill hfnone, if_pos rfl, hfpp]
  · rw [mappedAt_eq c hva, hrefs, update_self]
  · rw [mappedAt_eq c hva', mappedAt_eq c hva', hrefs, update_of_ne, hfpage]
    intro hc
    simp only [Sum.inr.injEq, Prod.mk.injEq, Fin.ext_iff, true_and] at hc
    exact hne.elim (fun hne => hne hc.1) (fun hne => hne hc.2)
  · rw [hrefs]
    exact hits_insert_le hb hroom hf p
  · -- the only page that comes into use is a new page table
    have hnew : ∀ p, p ≠ pp → hits f p = 0 → hits (refs s') p = 0 := by
      intro p hp hz
      rw [hrefs, Accounts.hits_fill hfnone, hz, if_neg (Ne.symm hp)]
    rcases hf with rfl | ⟨t, -, -, hslot, hft⟩
    · have hsame := hn.step h.page hinv hfr.npages [] (fun p _ hz =>
        hnew p (fun hc => by rw [hc] at hz; omega) hz)
      exact ⟨hsame.mono (by simp), fun _ => hsame⟩
    · have hless := hn.step h.page hinv hfr.npages [t] (fun p hpt hz => by
        refine hnew p (fun hc => by rw [hc] at hz; omega) ?_
        rw [hft, Accounts.hits_fill hslot, hz,
          if_neg (fun hc => hpt (List.mem_singleton.mpr hc.symm))])
      refine ⟨hless, fun hex => ?_⟩
      obtain ⟨va', hpdx, hmap⟩ := hex
      exact absurd (mappedAt_none_of_table hva hslot hpdx) hmap

/-- `sys_page_map` from one address of the caller to another, once
`page_insert` succeeds. -/
theorem sysPageMap_self (h : MemInv own s) (hc : s.curenv = some c.val) {d : Nat}
    (hd : envDirs s c = some d) {src dst : Word} (hsrc : badVa src = false)
    (hdst : badVa dst = false) (hpp : mappedAt s c src = some pp)
    (hins : pageInsert d pp dst roPerm s = .ok 0#32 s') :
    sysPageMap 0#32 src 0#32 dst roPerm s = .ok 0#32 s' := by
  have hfind : findEnv s c 0#32 true = .ok c.val := if_pos rfl
  have henv : envid2env 0#32 true s = .ok (.ok c.val) s := by
    rw [envid2env_eq hc, hfind]
  have hva := badVa_false hsrc
  obtain ⟨r, hlook, hr⟩ := h.page.pageLookup hva hd
  rw [← mappedAt_eq c hva, hpp] at hr
  cases r with
  | none => cases hr
  | some x =>
    obtain ⟨q, pt, j⟩ := x
    cases hr
    unfold sysPageMap
    rw [hsrc, hdst, if_neg (by simp), if_neg (show ¬ (!permOk roPerm) = true by decide),
      bind_ok henv]
    show (envid2env 0#32 true >>= _) s = _
    rw [bind_ok henv]
    show (derefPgdir c >>= _) s = _
    rw [bind_ok (derefPgdir_ok hd), bind_ok hlook]
    show ((get : KM Kernel) >>= _) s = _
    rw [bind_get,
      if_neg (fun hw => hw.1 (by decide)), bind_ok (derefPgdir_ok hd), bind_ok hins,
      if_neg (by decide)]
    rfl

/-! ## §3. The same page at many addresses. -/

/-- The address of the `j`-th copy; page 0 stays free. -/
def copyVa (j : Nat) : Word := BitVec.ofNat 32 ((j + 1) * 4096)

section
variable (hj : j < 65537)
include hj

theorem copyVa_toNat : (copyVa j).toNat = (j + 1) * 4096 := by
  unfold copyVa
  rw [toNat_ofNat_lt (by omega)]

theorem copyVa_lt : copyVa j < UTOP := by
  rw [BitVec.lt_def, copyVa_toNat hj, show UTOP.toNat = 955 * 2 ^ 22 by decide]
  omega

theorem badVa_copyVa : badVa (copyVa j) = false := by
  have hlt := copyVa_lt hj
  have hround : roundup (copyVa j) = copyVa j := by
    rw [roundup_eq_self_iff hlt, copyVa_toNat hj]
    omega
  unfold badVa
  rw [hround]
  simp only [ne_eq, not_true_eq_false, decide_false, Bool.or_false, decide_eq_false_iff_not,
    ge_iff_le, BitVec.not_le]
  exact hlt

theorem pdx_copyVa : pdx (copyVa j) = (j + 1) / 1024 := by
  rw [pdx_eq, copyVa_toNat hj]
  omega

theorem ptx_copyVa : ptx (copyVa j) = (j + 1) % 1024 := by
  rw [ptx_eq, copyVa_toNat hj]
  omega

end

/-- Different copies are in different entries. -/
theorem copyVa_ne {i j : Nat} (hi : i < 65537) (hj : j < 65537) (hij : i ≠ j) :
    pdx (copyVa i) ≠ pdx (copyVa j) ∨ ptx (copyVa i) ≠ ptx (copyVa j) := by
  rw [pdx_copyVa hi, pdx_copyVa hj, ptx_copyVa hi, ptx_copyVa hj]
  omega

/-- Environment `c` has the page `pp` at its first `k + 1` copy addresses and
nowhere else. -/
structure Spread (own : Set Nat) (c : Fin NENV) (pp k : Nat) (s : Kernel) : Prop where
  inv : MemInv own s
  cur : s.curenv = some c.val
  live : Live s c
  copies : ∀ j ≤ k, mappedAt s c (copyVa j) = some pp
  rest : ∀ j, k < j → j < 65537 → mappedAt s c (copyVa j) = none
  count : hits (refs s) pp = k + 1
  room : FreeAtLeast s (70 - (k + 1) / 1024)

theorem setCurenv_self {e : Option Nat} (h : s.curenv = e) : s.setCurenv e = s := by
  show { s with cpus := update s.cpus s.cpunum { s.cpus s.cpunum with cpuEnv := e } } = s
  rw [show { s.cpus s.cpunum with cpuEnv := e } = s.cpus s.cpunum by rw [← h]; rfl,
    update_eq_self]

/-- One more copy. -/
theorem Spread.next (h : Spread own c pp k s) (hk : k + 1 < 65537) :
    ∃ s', (MemOp.pageMap 0#32 (copyVa 0) 0#32 (copyVa (k + 1)) roPerm).run
        (s.setCurenv (some c.val)) = .ok () s' ∧
      MappedToo own c (copyVa (k + 1)) pp s s' ∧ Spread own c pp (k + 1) s' := by
  obtain ⟨d, hd⟩ := h.inv.dir h.live
  have hva := copyVa_lt hk
  have hroom : FreeAtLeast s (70 - (k + 1) / 1024 - 1 + 1) := h.room.mono (by omega)
  obtain ⟨s', hins, hm⟩ := pageInsert_mappedToo h.inv hd hva (h.rest (k + 1) (by omega) hk)
    (copyVa_lt (by omega)) (h.copies 0 (by omega)) hroom
  have hrun := sysPageMap_self h.inv h.cur hd (badVa_copyVa (by omega)) (badVa_copyVa hk)
    (h.copies 0 (by omega)) hins
  have hsame : ∀ j, j ≠ k + 1 → j < 65537 →
      mappedAt s' c (copyVa j) = mappedAt s c (copyVa j) :=
    fun j hj hlt => hm.rest _ (copyVa_lt hlt) (copyVa_ne hlt hk hj)
  refine ⟨s', ?_, hm, hm.inv, hm.frame.curenv.trans h.cur, ?_, fun j hj => ?_,
    fun j hj hlt => ?_, by rw [hm.count, h.count], ?_⟩
  · rw [setCurenv_self h.cur]
    exact bind_ok hrun
  · unfold Live
    rw [hm.frame.envs]
    exact h.live
  · by_cases he : j = k + 1
    · rw [he]
      exact hm.here
    · rw [hsame j he (by omega)]
      exact h.copies j (by omega)
  · rw [hsame j (by omega) hlt]
    exact h.rest j (by omega) hlt
  · -- a page table is used up when the copy is the first one in it
    obtain ⟨hless, hsame'⟩ := hm.free _ hroom
    by_cases hnew : (k + 1 + 1) / 1024 = (k + 1) / 1024
    · refine (hsame' ⟨copyVa k, ?_, ?_⟩).mono (by omega)
      · rw [pdx_copyVa (by omega), pdx_copyVa hk, hnew]
      · rw [h.copies k (Nat.le_refl k)]
        simp
    · exact hless.mono (by omega)

/-! ## §4. The first copy. -/

/-- `sys_page_alloc` of the first page of an address space. -/
theorem sysPageAlloc_first (h : MemInv own s) (hc : s.curenv = some c.val)
    (hlive : Live s c) (hempty : ∀ va < UTOP, mappedAt s c va = none) (hfree : FreeAtLeast s 72) :
    ∃ s' pp, sysPageAlloc 0#32 (copyVa 0) roPerm s = .ok 0#32 s' ∧
      s'.refWrapped = s.refWrapped ∧ Spread own c pp 0 s' := by
  have hva : copyVa 0 < UTOP := copyVa_lt (by omega)
  obtain ⟨d, hd⟩ := h.dir hlive
  obtain ⟨pp, hpp⟩ := hfree.head
  obtain ⟨hlt, hown, -, hhits, href⟩ := h.page.books.head hpp
  obtain ⟨hinv₀, hrefs₀⟩ := h.page.takeZeroed hpp
  have hslot : refs s (pageSlot c ⟨pdx (copyVa 0), (pdx_lt_user_iff _).mpr hva⟩
      ⟨ptx (copyVa 0), ptx_lt _⟩) = none := (mappedAt_eq c hva).symm.trans (hempty _ hva)
  have hmem : pp ∈ insert pp (∅ : Set Nat) := Set.mem_insert pp ∅
  have htab : ∀ b, b.isTable = true → refs (s.takeZeroed pp) b ≠ some pp := by
    intro b _
    rw [hrefs₀]
    exact ne_of_hits_eq_zero hhits b
  -- memory does not run out while the page is inserted
  have hmore : ∃ q, (s.takeZeroed pp).pageFreeList = some q := by
    obtain ⟨l, hl, hle⟩ := hfree
    obtain ⟨l', rfl⟩ := hl.head_some hpp
    have hpop : FreeList (s.takeZeroed pp) l' := (hl.pop (s.pages pp).ppRef).congr rfl rfl rfl
    exact FreeAtLeast.head (n := 70) ⟨l', hpop, by rw [List.length_cons] at hle; omega⟩
  rcases hinv₀.pageInsert hva (fun q hq => by
      rw [hrefs₀, hslot] at hq; exact absurd hq (by simp)) hd
      (show permOk roPerm = true by decide) hlt hown (Or.inr hmem) htab with
    ⟨-, hoom⟩ | ⟨s', f, hins, hfr, hinv, hwr, hf, hrefs⟩
  · obtain ⟨q, hq⟩ := hmore
    rw [hq] at hoom
    cases hoom
  rw [hrefs₀] at hf
  have hfr' : Kernel.PmapFrame s s' :=
    Kernel.PmapFrame.trans (Kernel.pmapFrame_of_pages s _ _ _ _) hfr
  have hempty' : insert pp (∅ : Set Nat) \ {pp} = ∅ := by simp
  rw [hempty'] at hinv
  have hfpage : ∀ i j, f (pageSlot c i j) = refs s (pageSlot c i j) := by
    intro i j
    rcases hf with rfl | ⟨t, -, -, -, rfl⟩
    · rfl
    · exact update_of_ne (by simp) _ _
  have hfpp : hits f pp = 0 := by
    rcases hf with rfl | ⟨t, -, htpp, hnone, rfl⟩
    · exact hhits
    · rw [Accounts.hits_fill hnone, if_neg htpp, hhits]
  have hfnone := (hfpage ⟨pdx (copyVa 0), (pdx_lt_user_iff _).mpr hva⟩
    ⟨ptx (copyVa 0), ptx_lt _⟩).trans hslot
  have hrun : sysPageAlloc 0#32 (copyVa 0) roPerm s = .ok 0#32 s' := by
    unfold sysPageAlloc
    rw [badVa_copyVa (by omega), if_neg (by simp),
      if_neg (show ¬ (!permOk roPerm) = true by decide),
      bind_ok (show envid2env 0#32 true s = .ok (.ok c.val) s by
        rw [envid2env_eq hc]; rfl)]
    show (pageAlloc 1 >>= _) s = _
    rw [bind_ok (pageAlloc_zero hpp href hlt h.page.npages_le)]
    show (derefPgdir c >>= _) (s.takeZeroed pp) = _
    rw [bind_ok (show derefPgdir c (s.takeZeroed pp) = .ok d (s.takeZeroed pp) from
      derefPgdir_ok hd), bind_ok hins, if_neg (by decide)]
    rfl
  refine ⟨s', pp, hrun, ?_, h.of_frame hfr' hinv, hfr'.curenv.trans hc, ?_, fun j hj => ?_,
    fun j hj hjlt => ?_, ?_, ?_⟩
  · rw [hwr, hinv₀.ref_ne_max hlt hown (by rw [hrefs₀, hhits]; decide), Bool.or_false]
    rfl
  · unfold Live
    rw [hfr'.envs]
    exact hlive
  · rw [show j = 0 by omega, mappedAt_eq c hva, hrefs, update_self]
  · have hjva := copyVa_lt hjlt
    rw [mappedAt_eq c hjva, hrefs, update_of_ne, hfpage, ← mappedAt_eq c hjva]
    · exact hempty _ hjva
    · intro hcs
      simp only [Sum.inr.injEq, Prod.mk.injEq, Fin.ext_iff, true_and] at hcs
      rcases copyVa_ne hjlt (by omega : 0 < 65537) (by omega) with hne | hne
      · exact hne hcs.1
      · exact hne hcs.2
  · rw [hrefs, Accounts.hits_fill hfnone, if_pos rfl, hfpp]
  · -- at most the page and its page table are taken
    have hnew : ∀ p, p ≠ pp → hits f p = 0 → hits (refs s') p = 0 := by
      intro p hp hz
      rw [hrefs, Accounts.hits_fill hfnone, hz, if_neg (Ne.symm hp)]
    have hroom : ∃ ts : List Nat, ts.length ≤ 2 ∧
        ∀ p ∉ ts, hits (refs s) p = 0 → hits (refs s') p = 0 := by
      rcases hf with rfl | ⟨t, -, -, hnone, rfl⟩
      · exact ⟨[pp], by simp, fun p hp hz => hnew p (by simpa using hp) hz⟩
      · refine ⟨[pp, t], by simp, fun p hp hz => ?_⟩
        simp only [List.mem_cons, List.not_mem_nil, or_false, not_or] at hp
        exact hnew p hp.1 (by rw [Accounts.hits_fill hnone, hz, if_neg (Ne.symm hp.2)])
    obtain ⟨ts, hts, hrest⟩ := hroom
    exact (hfree.step h.page hinv hfr'.npages ts hrest).mono (by omega)

/-! ## §5. From boot to 65535 references. -/

/-- `env_alloc` takes slot 0 when nothing is mapped yet. -/
theorem MemInv.envAlloc_first (h : MemInv own s) (hnone : ∀ a, refs s a = none)
    (hhead : s.envFreeList = some 0) (hfree : FreeAtLeast s NPDUSER) :
    ∃ (e : Fin NENV) (p : Nat), e.val = 0 ∧
      envAlloc 0#32 s = .ok (.ok e.val) (s.allocEnv 0#32 e p) ∧
      MemInv own (s.allocEnv 0#32 e p) ∧
      refs (s.allocEnv 0#32 e p) = update (refs s) (dirSlot e) (some p) ∧
      FreeAtLeast (s.allocEnv 0#32 e p) (NPDUSER - 1) := by
  obtain ⟨l, hl⟩ := h.table
  rcases h.page.envAlloc hl 0#32 with
    ⟨-, hnil⟩ | ⟨-, hoom⟩ | ⟨e, p, l', hcons, hp, hrun, hinv', ht', hrefs⟩
  · have hc := hl.chain
    rw [hnil, hhead] at hc
    exact absurd hc (by simp [Chain])
  · obtain ⟨q, hq⟩ := (hfree.mono (show 1 ≤ NPDUSER by decide)).head
    rw [hq] at hoom
    cases hoom
  · have he : e.val = 0 := by
      have hc := hl.chain
      rw [hcons, hhead] at hc
      exact (Option.some.inj hc.1).symm
    refine ⟨e, p, he, hrun, ⟨hinv', l', ht'⟩, hrefs,
      hfree.step h.page hinv' rfl [p] (fun q hq hz => ?_)⟩
    rw [hrefs, Accounts.hits_fill (hnone _), hz, if_neg (fun hc => hq (by simp [hc]))]

/-- The first environment after boot, before it has any page. -/
theorem BootState.firstEnv {b : BootInfo} (h : BootState b s) (hfree : FreeAtLeast s NPDUSER) :
    ∃ s', (MemOp.envAlloc 0#32).run (s.setCurenv none) = .ok () s' ∧
      MemInv (kernOwn b s) s' ∧ Live s' 0 ∧ s'.refWrapped = false ∧
      (∀ va < UTOP, mappedAt s' 0 va = none) ∧ FreeAtLeast s' 72 := by
  have hfree' : FreeAtLeast (s.setCurenv none) NPDUSER := by
    obtain ⟨l, hl, hle⟩ := hfree
    exact ⟨l, hl.congr rfl rfl rfl, hle⟩
  have hnone : ∀ a, refs (s.setCurenv none) a = none := h.no_refs
  obtain ⟨e, p, he, hrun, hmem', hrefs, hmore⟩ :=
    (h.memInv.setCurenv none).envAlloc_first hnone h.envFreeList hfree'
  refine ⟨_, bind_ok hrun, hmem', ⟨by decide, ?_⟩, h.refWrapped, fun va hva => ?_,
    hmore.mono (show 72 ≤ NPDUSER - 1 by decide)⟩
  · show (update s.envs e.val _ 0).envStatus ≠ .free
    rw [he, update_self]
    simp
  · rw [show (0 : Nat) = (⟨0, by decide⟩ : Fin NENV).val from rfl, mappedAt_eq _ hva, hrefs,
      update_of_ne (by simp)]
    exact hnone _

/-- The page of a state that `Spread` describes, counted. -/
theorem Spread.ref (h : Spread own c pp k s) :
    pp < s.npages ∧ pp ∉ own ∧ (s.pages pp).ppRef = BitVec.ofNat 16 (k + 1) := by
  have hva : copyVa 0 < UTOP := copyVa_lt (by omega)
  have hslot := h.copies 0 (Nat.zero_le k)
  rw [mappedAt_eq c hva] at hslot
  obtain ⟨hlt, hown⟩ := h.inv.page.books.ref _ pp hslot
  exact ⟨hlt, hown, by rw [h.inv.page.books.count pp hlt hown, h.count]⟩

theorem Spread.step (h : Spread own c pp k s) (hk : k + 1 < 65537)
    (pre : Kernel → Option Nat → MemOp → Prop)
    (hpre : pre s (some c.val) (.pageMap 0#32 (copyVa 0) 0#32 (copyVa (k + 1)) roPerm)) :
    ∃ s', MemStep pre s s' ∧ Spread own c pp (k + 1) s' ∧
      s'.refWrapped = (s.refWrapped || (s.pages pp).ppRef == 65535#16) := by
  obtain ⟨s', hrun, hm, hs'⟩ := h.next hk
  exact ⟨s', ⟨some c.val, .pageMap 0#32 (copyVa 0) 0#32 (copyVa (k + 1)) roPerm,
    ⟨c.val, rfl, h.live⟩, hpre, hrun⟩, hs', hm.wrap⟩

/-- Up to 65535 references, no page with 65535 references is mapped again. -/
theorem spread_run {s₁ : Kernel} (h : Spread own c pp 0 s₁)
    (k : Nat) (hk : k < 65535) : ∃ s, RoomRun s₁ s ∧ Spread own c pp k s := by
  induction k with
  | zero => exact ⟨s₁, .refl, h⟩
  | succ k ih =>
    obtain ⟨s, hrun, hs⟩ := ih (by omega)
    have hroom : inRoom s (some c.val)
        (.pageMap 0#32 (copyVa 0) 0#32 (copyVa (k + 1)) roPerm) := by
      intro q hq
      have hsrc : mappedAt s c (copyVa 0) = some q := hq
      rw [hs.copies 0 (Nat.zero_le k)] at hsrc
      cases hsrc
      rw [hs.ref.2.2]
      intro hc
      have hv := congrArg BitVec.toNat hc
      simp at hv
      omega
    obtain ⟨s', hstep, hs', -⟩ := hs.step (by omega) _ hroom
    exact ⟨s', hrun.tail hstep, hs'⟩

/-- The kernel boots, an environment starts and allocates its first page. -/
theorem exists_spread : ∃ s₀ s₁ pp, Booted qemuBoot qemuBoot.maps s₀ ∧ RoomRun s₀ s₁ ∧
    Spread (kernOwn qemuBoot s₀) ⟨0, by decide⟩ pp 0 s₁ := by
  obtain ⟨s₀, hboot⟩ := qemuBoot_booted
  obtain ⟨hstate, -, hroom⟩ := hboot.spec qemuBoot.maps_above
  have hfree : FreeAtLeast s₀ NPDUSER := hroom (by unfold BootInfo.Roomy; decide)
  obtain ⟨s₁, hrun₁, hinv₁, hlive₁, -, hempty, hfree₁⟩ := hstate.firstEnv hfree
  have hfree₁' : FreeAtLeast (s₁.setCurenv (some 0)) 72 := by
    obtain ⟨l, hl, hle⟩ := hfree₁
    exact ⟨l, hl.congr rfl rfl rfl, hle⟩
  obtain ⟨s₂, pp, hrun₂, -, hs₂⟩ := sysPageAlloc_first (hinv₁.setCurenv (some 0))
    (c := ⟨0, by decide⟩) (curenv_setCurenv s₁ (some 0)) hlive₁ hempty hfree₁'
  have hstep₁ : MemStep inRoom s₀ s₁ :=
    ⟨none, .envAlloc 0#32, trivial, fun _ hpp => absurd hpp (by simp [MemOp.maps]), hrun₁⟩
  have hstep₂ : MemStep inRoom s₁ s₂ :=
    ⟨some 0, .pageAlloc 0#32 (copyVa 0) roPerm, ⟨0, rfl, hlive₁⟩,
      fun _ hpp => absurd hpp (by simp [MemOp.maps]), bind_ok hrun₂⟩
  exact ⟨s₀, s₂, pp, hboot, (Relation.ReflTransGen.single hstep₁).tail hstep₂, hs₂⟩

/-! ## §6. User pages. -/

/-- A mapped page is not the kernel's, and no directory or page table. -/
theorem MemInv.apart (h : MemInv own s) {a : Slot (Fin NENV)} (ha : a.isTable = false)
    (hp : refs s a = some pp) : pp ∉ own ∧ (∀ b, b.isTable = true → refs s b ≠ some pp) ∧
      ∀ w, SameSpaces s { s with mem := update s.mem pp w } := by
  have htab : ∀ b, b.isTable = true → refs s b ≠ some pp := by
    intro b hb hbp
    rw [← h.page.books.table b a pp hb hbp hp, hb] at ha
    cases ha
  refine ⟨(h.page.books.ref a pp hp).2, htab, fun w => sameSpaces_of_tables (fun _ => rfl) ?_⟩
  intro b q hb hq i
  have hne : q ≠ pp := fun hqp => htab b hb (hqp ▸ hq)
  exact congrFun (update_of_ne hne _ _) i

/-- **User stores change no page table**: in every run in which no count wraps, what an
environment has mapped is not the kernel's, and whatever is stored there leaves every
address space as it is. -/
theorem user_stores_confined {b : BootInfo} {maps : List MapRegion} {s₀ : Kernel}
    (hboot : Booted b maps s₀) (habove : ∀ r ∈ maps, r.Above) (hrun : RoomRun s₀ s) {va : Word}
    (hva : va < UTOP) (hp : mappedAt s c va = some pp) :
    pp ∉ kernOwn b s₀ ∧ ∀ w, SameSpaces s { s with mem := update s.mem pp w } := by
  rw [mappedAt_eq c hva] at hp
  obtain ⟨hown, -, hsame⟩ := (RoomRun.inv (hboot.spec habove).1 hrun).1.apart rfl hp
  exact ⟨hown, hsame⟩

/-- The first page of the first environment. -/
theorem user_stores_confined_first : ∃ s₀ s pp, mappedAt s 0 (copyVa 0) = some pp ∧
    pp ∉ kernOwn qemuBoot s₀ := by
  obtain ⟨s₀, s, pp, hboot, hrun, hs⟩ := exists_spread
  have hp := hs.copies 0 le_rfl
  exact ⟨s₀, s, pp, hp, (user_stores_confined hboot qemuBoot.maps_above hrun
    (copyVa_lt (by decide)) hp).1⟩

/-! ## §7. The count wraps. -/

/-- **Reference counts never wrap** while no page with 65535 references is
mapped once more: in every state of such a run no `page_insert` has
incremented a full count, and no page on the free list is mapped. -/
theorem refCounts_never_wrap {b : BootInfo} {maps : List MapRegion} {s₀ s : Kernel}
    (hboot : Booted b maps s₀) (habove : ∀ r ∈ maps, r.Above) (hrun : RoomRun s₀ s) :
    s.refWrapped = false ∧ ∃ l, Chain (fun p => (s.pages p).ppLink) s.pageFreeList l ∧
      ∀ p ∈ l, ∀ e < NENV, ∀ va < UTOP, mappedAt s e va ≠ some p := by
  obtain ⟨hinv, hb, hwr⟩ := RoomRun.inv (hboot.spec habove).1 hrun
  obtain ⟨l, hl, -, hmapped⟩ := hinv.freeList hb
  exact ⟨hwr, l, hl.chain, hmapped⟩

/-- Such a run: one page mapped at 65535 addresses. -/
theorem refCounts_never_wrap_copies : ∃ s₀ s pp, Booted qemuBoot qemuBoot.maps s₀ ∧
    RoomRun s₀ s ∧ (s.pages pp).ppRef = 65535#16 ∧ s.refWrapped = false := by
  obtain ⟨s₀, s₁, pp, hboot, hrun₁, hs₁⟩ := exists_spread
  obtain ⟨s, hrun, hs⟩ := spread_run hs₁ 65534 (by omega)
  have hall := hrun₁.trans hrun
  exact ⟨s₀, s, pp, hboot, hall, hs.ref.2.2,
    (refCounts_never_wrap hboot qemuBoot.maps_above hall).1⟩

/-- `sys_page_unmap` of one copy. -/
theorem Spread.unmap (h : Spread own c pp (k + 1) s) (hk : k + 1 < 65537) :
    ∃ s', (MemOp.pageUnmap 0#32 (copyVa (k + 1))).run (s.setCurenv (some c.val)) = .ok () s' ∧
      s'.refWrapped = s.refWrapped ∧ mappedAt s' c (copyVa 0) = some pp ∧
      ((s.pages pp).ppRef = 1 → s'.pageFreeList = some pp) := by
  have hva := copyVa_lt hk
  have hva₀ : copyVa 0 < UTOP := copyVa_lt (by omega)
  have hi := (pdx_lt_user_iff _).mpr hva
  obtain ⟨d, hd⟩ := h.inv.dir h.live
  have hd' : (s.envs c).envPgdir = some d := hd
  -- the page table that holds the copy
  obtain ⟨t, ht, hq⟩ : ∃ t, target s.mem d (pdx (copyVa (k + 1))) = some t ∧
      target s.mem t (ptx (copyVa (k + 1))) = some pp := by
    have hm := h.copies (k + 1) le_rfl
    unfold mappedAt at hm
    rw [hd'] at hm
    exact Option.bind_eq_some_iff.mp hm
  obtain ⟨-, htlt, -, -⟩ := h.inv.page.table hd (i := ⟨_, hi⟩) ht
  have hslot : refs s (pageSlot c ⟨_, hi⟩ ⟨ptx (copyVa (k + 1)), ptx_lt _⟩) = some pp :=
    (deref_pageSlot hd ht _).trans hq
  have hrem := pageRemove_some ht htlt hq h.ref.1 (fun _ => h.inv.page.books.link hslot)
  obtain ⟨hfr, -, hrefs⟩ := h.inv.page.removed_refs pp (copyVa (k + 1)) hd
    (i := ⟨_, hi⟩) ⟨ptx (copyVa (k + 1)), ptx_lt _⟩ ht
  have hrun : sysPageUnmap 0#32 (copyVa (k + 1)) s = .ok 0#32
      (((s.decref pp).flush d (copyVa (k + 1))).setWord t (ptx (copyVa (k + 1))) 0#32) := by
    unfold sysPageUnmap
    rw [badVa_copyVa hk, if_neg (by simp),
      bind_ok (show envid2env 0#32 true s = .ok (.ok c.val) s by
        rw [envid2env_eq h.cur]; rfl)]
    show (derefPgdir c >>= _) s = _
    rw [bind_ok (derefPgdir_ok hd'), bind_ok hrem]
    rfl
  refine ⟨_, by rw [setCurenv_self h.cur]; exact bind_ok hrun, ?_, ?_, fun hone => ?_⟩
  · exact (Kernel.flush_refWrapped _ _ _).trans (Kernel.decref_refWrapped _ _)
  · rw [mappedAt_eq c hva₀, hrefs, update_of_ne, ← mappedAt_eq c hva₀]
    · exact h.copies 0 (Nat.zero_le _)
    · intro hc
      simp only [Sum.inr.injEq, Prod.mk.injEq, Fin.ext_iff, true_and] at hc
      rcases copyVa_ne (by omega : 0 < 65537) hk (by omega) with hne | hne
      · exact hne hc.1
      · exact hne hc.2
  · show ((s.decref pp).flush d (copyVa (k + 1))).pageFreeList = some pp
    rw [Kernel.flush_pageFreeList, Kernel.decref_pageFreeList, hone]
    rfl

theorem RoomRun.anyRun (h : RoomRun s s') : Relation.ReflTransGen (MemStep anyOp) s s' := by
  induction h with
  | refl => exact .refl
  | tail _ hstep ih =>
    obtain ⟨caller, op, hallow, -, hrun⟩ := hstep
    exact ih.tail ⟨caller, op, hallow, trivial, hrun⟩

/-- One environment maps a page 65537 times and unmaps it once.  The count has
wrapped, and the page is the next one `page_alloc` hands out, while it is still
mapped. -/
theorem refCount_wraps : ∃ s₀ s pp, Booted qemuBoot qemuBoot.maps s₀ ∧
    Relation.ReflTransGen (MemStep anyOp) s₀ s ∧ s.refWrapped = true ∧
    s.pageFreeList = some pp ∧ mappedAt s 0 (copyVa 0) = some pp := by
  obtain ⟨s₀, s₁, pp, hboot, hrun₁, hs₁⟩ := exists_spread
  obtain ⟨s₂, hrun₂, hs₂⟩ := spread_run hs₁ 65534 (by omega)
  -- the 65536th mapping wraps the count, the 65537th makes it 1 again
  obtain ⟨s₃, hstep₃, hs₃, hwr₃⟩ := hs₂.step (by omega) anyOp trivial
  obtain ⟨s₄, hstep₄, hs₄, hwr₄⟩ := hs₃.step (by omega) anyOp trivial
  obtain ⟨s₅, hrun₅, hwr₅, hmap, hhead⟩ := hs₄.unmap (by omega)
  have hstep₅ : MemStep anyOp s₄ s₅ :=
    ⟨some 0, .pageUnmap 0#32 (copyVa (65534 + 1 + 1)), ⟨0, rfl, hs₄.live⟩, trivial, hrun₅⟩
  refine ⟨s₀, s₅, pp, hboot, ?_, ?_, hhead hs₄.ref.2.2, hmap⟩
  · exact (((RoomRun.anyRun (hrun₁.trans hrun₂)).tail hstep₃).tail hstep₄).tail hstep₅
  · rw [hwr₅, hwr₄, hwr₃, hs₂.ref.2.2]
    simp

end

end Jos
