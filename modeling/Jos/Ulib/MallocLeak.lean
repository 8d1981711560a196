/-
  Jos.Ulib.MallocLeak — **PAGES THE HEAP KEEPS** (`lib/malloc.c`).

  A page of the heap stays mapped for a live block or for `mptr`.  `malloc`
  gives the reference of `mptr` up when it finds `mptr` in the middle of a page;
  a new run whose size is a multiple of the page size leaves `mptr` at the start
  of the run's last page instead, and that reference is never given up.

    • `heap_tight`: if no new run has such a size, every count is the number of
      blocks that end there plus one for the page of `mptr`, and with no block
      live at most that page is mapped.
    • `heap_leaks`: two blocks of 4096 bytes, freed, leave two pages.
-/
import Jos.Ulib.Malloc

namespace Jos.Malloc
open Function (update update_of_ne update_self update_idem update_eq_self_iff)

variable {b : Block} {m n p v w : Nat}

/-! ## §1. Nothing is mapped for nothing. -/

/-- The page `mptr` is in the middle of. -/
def mine (h : Heap) : Nat → Bool := fun p =>
  decide (h.mptr % PGSIZE ≠ 0) && decide (p = h.mptr / PGSIZE)

theorem mine_of_aligned {h : Heap} (hal : h.mptr % PGSIZE = 0) : mine h = fun _ => false := by
  funext p
  simp [mine, hal]

theorem mine_of_mid {h : Heap} (hne : h.mptr % PGSIZE ≠ 0) :
    mine h = update (fun _ => false) (h.mptr / PGSIZE) true := by
  funext p
  by_cases hp : p = h.mptr / PGSIZE
  · subst hp
    simp [mine, hne]
  · simp [mine, hp]

/-- Every mapped page of the heap is counted, or in the run of a live block. -/
structure Covered (h : Heap) (live : List Block) : Prop where
  counted : ∀ p w, mbegin / PGSIZE ≤ p → p < mend / PGSIZE → h.page p = some ⟨false, w⟩ → 0 < w
  marked : ∀ p w, mbegin / PGSIZE ≤ p → p < mend / PGSIZE → h.page p = some ⟨true, w⟩ →
    ∃ b ∈ live, b.first ≤ p ∧ p < b.anchor

/-- The heap's invariant with just the page of `mptr` as its own. -/
structure Tight (h : Heap) (live : List Block) : Prop where
  inv : HeapInv h live (mine h)
  covered : Covered h live

section

variable {h h' : Heap} {live : List Block}

theorem Covered.setMptr (hc : Covered h live) (m : Nat) : Covered { h with mptr := m } live :=
  ⟨hc.counted, hc.marked⟩

/-- `mptr` moves from one page boundary to another. -/
theorem Tight.setMptr (ht : Tight h live) (hal : h.mptr % PGSIZE = 0)
    (hm : mbegin ≤ m ∧ m < mend) (halm : m % PGSIZE = 0) : Tight { h with mptr := m } live := by
  refine ⟨?_, ht.covered.setMptr m⟩
  rw [mine_of_aligned (h := { h with mptr := m }) halm, ← mine_of_aligned hal]
  exact ht.inv.setMptr (Or.inr hm) halm

/-- **A block is freed.** -/
theorem Tight.free (ht : Tight h live) (hb : b ∈ live)
    (hcall : Malloc.free b.v h = .ok h') : Tight h' (live.erase b) := by
  obtain ⟨g, w, hfree, hmptr, hw, hpage⟩ := ht.inv.free_pages hb
  obtain rfl : h' = g := Except.ok.inj (hcall.symm.trans hfree)
  have hmine : mine h' = mine h := by
    unfold mine
    rw [hmptr]
  refine ⟨?_, ?_, ?_⟩
  · obtain ⟨g, hfree', hinv⟩ := ht.inv.free hb
    obtain rfl : h' = g := Except.ok.inj (hcall.symm.trans hfree')
    rw [hmine]
    exact hinv
  · intro p x hlo hhi hp
    rw [hpage] at hp
    by_cases hpa : p = b.anchor
    · rw [if_pos hpa] at hp
      have hwpos := ht.covered.counted b.anchor w (hpa ▸ hlo) (hpa ▸ hhi) hw
      by_cases h1 : w = 1
      · rw [if_pos h1] at hp
        cases hp
      · rw [if_neg h1] at hp
        cases hp
        omega
    · rw [if_neg hpa] at hp
      split at hp
      · cases hp
      · exact ht.covered.counted p x hlo hhi hp
  · intro p x hlo hhi hp
    rw [hpage] at hp
    by_cases hpa : p = b.anchor
    · rw [if_pos hpa] at hp
      split at hp <;> cases hp
    · rw [if_neg hpa] at hp
      by_cases hr : b.first ≤ p ∧ p < b.anchor
      · rw [if_pos hr] at hp
        cases hp
      · rw [if_neg hr] at hp
        obtain ⟨c, hc, h1, h2⟩ := ht.covered.marked p x hlo hhi hp
        -- the page is not in the run of `b`
        have hcb : c ≠ b := by
          rintro rfl
          exact hr ⟨h1, h2⟩
        exact ⟨c, (List.mem_erase_of_ne hcb).mpr hc, h1, h2⟩

/-- **`mptr` leaves its page**, for the page boundary `m`. -/
theorem Tight.leave (ht : Tight h live) (hne : h.mptr % PGSIZE ≠ 0)
    (hcall : Malloc.free h.mptr h = .ok h') (hm : mbegin ≤ m ∧ m < mend)
    (halm : m % PGSIZE = 0) : Tight { h' with mptr := m } live := by
  obtain ⟨g, w, hfree, -, hw, hpage⟩ := ht.inv.leave_pages hne
  obtain rfl : h' = g := Except.ok.inj (hcall.symm.trans hfree)
  refine ⟨?_, ?_, ?_⟩
  · obtain ⟨g, hfree', -, -, hinv⟩ := ht.inv.leave hne
    obtain rfl : h' = g := Except.ok.inj (hcall.symm.trans hfree')
    have hnone : update (mine h) (h.mptr / PGSIZE) false = fun _ => false := by
      rw [mine_of_mid hne, update_idem, update_eq_self_iff]
    rw [mine_of_aligned (h := { h' with mptr := m }) halm, ← hnone]
    exact hinv m (Or.inr hm) halm
  · intro p x hlo hhi hp
    have hp' : h'.page p = some ⟨false, x⟩ := hp
    rw [hpage] at hp'
    by_cases hpP : p = h.mptr / PGSIZE
    · rw [if_pos hpP] at hp'
      have hwpos := ht.covered.counted _ w (hpP ▸ hlo) (hpP ▸ hhi) hw
      by_cases h1 : w = 1
      · rw [if_pos h1] at hp'
        cases hp'
      · rw [if_neg h1] at hp'
        cases hp'
        omega
    · rw [if_neg hpP] at hp'
      exact ht.covered.counted p x hlo hhi hp'
  · intro p x hlo hhi hp
    have hp' : h'.page p = some ⟨true, x⟩ := hp
    rw [hpage] at hp'
    by_cases hpP : p = h.mptr / PGSIZE
    · rw [if_pos hpP] at hp'
      split at hp' <;> cases hp'
    · rw [if_neg hpP] at hp'
      exact ht.covered.marked p x hlo hhi hp'

/-- **A new run** that does not end at a page boundary. -/
theorem Tight.newRun (ht : Tight h live) (hal : h.mptr % PGSIZE = 0) {n P k : Nat}
    (hn : n < MAXMALLOC) (hsize : roundup4 n % PGSIZE ≠ 0)
    (hanchor : (⟨P * PGSIZE, n⟩ : Block).anchor = P + k) (hP : mbegin / PGSIZE ≤ P)
    (hspec : ∀ p, P ≤ p → p ≤ P + k → p < mend / PGSIZE ∧ h.page p = none)
    (hfew : live.length + 3 < 2 ^ 32) :
    Tight ⟨Malloc.newRun h P k, P * PGSIZE + roundup4 n⟩ (⟨P * PGSIZE, n⟩ :: live) := by
  have hnew := ht.inv.newRun (n := n) (b := ⟨P * PGSIZE, n⟩) rfl hanchor hspec hP hfew
  rw [size_eq hn] at hnew
  have hfirst : (⟨P * PGSIZE, n⟩ : Block).first = P := Nat.mul_div_cancel _ (by decide)
  have hmid : (P * PGSIZE + roundup4 n) % PGSIZE ≠ 0 := by
    rwa [Nat.add_comm, Nat.add_mul_mod_self_right]
  have hpage : (P * PGSIZE + roundup4 n) / PGSIZE = P + k := by
    rw [← hanchor]
    unfold Block.anchor
    rw [size_eq hn]
    have hfour : roundup4 n % 4 = 0 := Nat.mul_mod_left _ _
    unfold PGSIZE at *
    dsimp only
    omega
  refine ⟨?_, ?_, ?_⟩
  · rw [mine_of_mid (h := ⟨Malloc.newRun h P k, P * PGSIZE + roundup4 n⟩) hmid]
    rw [hpage, ← mine_of_aligned hal]
    exact hnew
  · intro p w hlo hhi hp
    have hp' : Malloc.newRun h P k p = some ⟨false, w⟩ := hp
    unfold Malloc.newRun at hp'
    split at hp'
    · cases hp'
      decide
    · split at hp'
      · cases hp'
      · exact ht.covered.counted p w hlo hhi hp'
  · intro p w hlo hhi hp
    have hp' : Malloc.newRun h P k p = some ⟨true, w⟩ := hp
    unfold Malloc.newRun at hp'
    split at hp'
    · cases hp'
    · split at hp'
      · next hr =>
          exact ⟨_, List.mem_cons_self, by rw [hfirst]; exact hr.1, by rw [hanchor]; exact hr.2⟩
      · obtain ⟨b, hb, hr⟩ := ht.covered.marked p w hlo hhi hp'
        exact ⟨b, List.mem_cons_of_mem _ hb, hr⟩

/-- The last part of `malloc`. -/
theorem Tight.mallocRun (ht : Tight h live) (hal : h.mptr % PGSIZE = 0) (hlo : mbegin ≤ h.mptr)
    (hhi : h.mptr < mend) (mem : Nat → Bool) (hn : n < MAXMALLOC)
    (hsz : roundup4 n < MAXMALLOC) (hsize : roundup4 n % PGSIZE ≠ 0)
    (hfew : live.length + 3 < 2 ^ 32)
    (hcall : Malloc.mallocRun mem (roundup4 n) h = .ok (v, h')) : Tight h' (grown live v n) := by
  rcases mallocRun_cases hal hlo hhi mem hn hsz with
    ⟨m, hrun, hm⟩ | ⟨P, k, hrun, hanchor, hloP, hspec⟩
  · obtain ⟨rfl, rfl⟩ := Prod.mk.inj (Except.ok.inj (hcall.symm.trans hrun))
    exact ht.setMptr hal ⟨hm.1, hm.2.1⟩ hm.2.2
  · obtain ⟨rfl, rfl⟩ := Prod.mk.inj (Except.ok.inj (hcall.symm.trans hrun))
    rw [grown_run hloP]
    exact ht.newRun hal hn hsize hanchor hloP hspec hfew

/-- A chunk in the page of `mptr`. -/
theorem Tight.inPage (ht : Tight h live) (hne : h.mptr % PGSIZE ≠ 0)
    (hanchor : (⟨h.mptr, n⟩ : Block).anchor = h.mptr / PGSIZE)
    (hw : h.page (h.mptr / PGSIZE) = some ⟨false, w⟩) (hfew : live.length + 3 < 2 ^ 32) :
    Tight ⟨update h.page (h.mptr / PGSIZE) (some ⟨false, w + 1⟩),
      h.mptr + (⟨h.mptr, n⟩ : Block).size⟩ (⟨h.mptr, n⟩ :: live) := by
  have hin := ht.inv.inPage hne (n := n) rfl hanchor hw hfew
  -- `mptr` stays in the middle of the page
  have hend := (⟨h.mptr, n⟩ : Block).end_le
  have hpage : (h.mptr + (⟨h.mptr, n⟩ : Block).size) / PGSIZE = h.mptr / PGSIZE ∧
      (h.mptr + (⟨h.mptr, n⟩ : Block).size) % PGSIZE ≠ 0 := by
    unfold PGSIZE at *
    dsimp only at hend
    omega
  refine ⟨?_, ?_, ?_⟩
  · rw [mine_of_mid (h := Heap.mk _ _) hpage.2]
    rw [hpage.1, ← mine_of_mid hne]
    exact hin
  · intro p x hlo hhi hp
    have hp' : update h.page (h.mptr / PGSIZE) (some ⟨false, w + 1⟩) p
      = some ⟨false, x⟩ := hp
    by_cases hpP : p = h.mptr / PGSIZE
    · rw [hpP, update_self] at hp'
      cases hp'
      exact Nat.succ_pos w
    · rw [update_of_ne hpP] at hp'
      exact ht.covered.counted p x hlo hhi hp'
  · intro p x hlo hhi hp
    have hp' : update h.page (h.mptr / PGSIZE) (some ⟨false, w + 1⟩) p
      = some ⟨true, x⟩ := hp
    by_cases hpP : p = h.mptr / PGSIZE
    · rw [hpP, update_self] at hp'
      cases hp'
    · rw [update_of_ne hpP] at hp'
      obtain ⟨b, hb, hr⟩ := ht.covered.marked p x hlo hhi hp'
      exact ⟨b, List.mem_cons_of_mem _ hb, hr⟩

/-- A store into a block, which cannot reach a count. -/
theorem Tight.store (ht : Tight h live) {x : HPage} (hb : b ∈ live)
    (hp : h.page p = some x) (hlo : b.v < (p + 1) * PGSIZE)
    (hhi : (p + 1) * PGSIZE < b.v + b.size + 4) : Tight (h.map p { x with last := w }) live := by
  have hinv := ht.inv.store (w := w) hb hp hlo hhi
  -- the page is not the last one of the block
  have hbefore : b.first ≤ p ∧ p < b.anchor := by
    have hend := b.end_le
    constructor
    · exact Nat.le_of_lt_succ ((Nat.div_lt_iff_lt_mul (by decide)).mpr hlo)
    · exact Nat.lt_of_succ_lt_succ (Nat.lt_of_mul_lt_mul_right (lt_of_lt_of_le hhi hend))
  obtain ⟨y, hy⟩ := (ht.inv.placed b hb).run p hbefore.1 hbefore.2
  obtain rfl := Option.some.inj (hp.symm.trans hy)
  refine ⟨hinv, ?_, ?_⟩
  · intro q z hqlo hqhi hq
    by_cases hqp : q = p
    · rw [hqp, show (h.map p ⟨true, w⟩).page p = some ⟨true, w⟩ from
        update_self _ _ _] at hq
      cases hq
    · rw [show (h.map p ⟨true, w⟩).page q = h.page q from update_of_ne hqp _ _] at hq
      exact ht.covered.counted q z hqlo hqhi hq
  · intro q z hqlo hqhi hq
    by_cases hqp : q = p
    · rw [hqp]
      exact ⟨b, hb, hbefore⟩
    · rw [show (h.map p ⟨true, w⟩).page q = h.page q from update_of_ne hqp _ _] at hq
      exact ht.covered.marked q z hqlo hqhi hq

/-! ## §2. `malloc`. -/

/-- A request that opens a new run is not a multiple of the page size. -/
def NoExactRun (h : Heap) (n : Nat) : Prop :=
  roundup4 n % PGSIZE ≠ 0 ∨ MAXMALLOC ≤ roundup4 n ∨
    h.mptr % PGSIZE ≠ 0 ∧ fits h.mptr (roundup4 n) = true

theorem Tight.start (ht : Tight h live) : Tight h.start live := by
  by_cases h0 : h.mptr = 0
  · rw [show h.start = { h with mptr := mbegin } from if_pos h0]
    exact ht.setMptr (by rw [h0]; rfl) ⟨le_refl _, by decide⟩ (by decide)
  · rwa [start_of_ne h0]

/-- **`malloc` keeps nothing for nothing.** -/
theorem Tight.malloc (ht : Tight h live) (mem : Nat → Bool) (hn : n < MAXMALLOC)
    (hok : LastPageOk h n) (hrun : NoExactRun h n) (hfew : live.length + 3 < 2 ^ 32)
    (hcall : Malloc.malloc mem n h = .ok (v, h')) : Tight h' (grown live v n) := by
  cases ht.inv.malloc_cases mem hn hok with
  | refused hbig hcall' =>
    cases hcall.symm.trans hcall'
    exact ht.start
  | inPage hne hm0 hanchor hw hcall' =>
    cases hcall.symm.trans hcall'
    rw [show grown live h.mptr n = ⟨h.mptr, n⟩ :: live from if_neg hm0]
    exact ht.inPage hne hanchor hw hfew
  | leave hsz hne hfit hfree hm hal hcall' =>
    -- a new run, so the size is not a multiple of the page size
    have hsize : roundup4 n % PGSIZE ≠ 0 := by
      rcases hrun with h1 | h1 | h1
      · exact h1
      · exact absurd h1 (Nat.not_le.mpr hsz)
      · exact absurd h1.2 hfit
    rw [hcall'] at hcall
    exact (ht.leave hne hfree hm hal).mallocRun hal hm.1 hm.2 mem hn hsz hsize hfew hcall
  | aligned hsz hal hal' hcall' =>
    have hsize : roundup4 n % PGSIZE ≠ 0 := by
      rcases hrun with h1 | h1 | h1
      · exact h1
      · exact absurd h1 (Nat.not_le.mpr hsz)
      · exact absurd hal h1.1
    obtain ⟨-, -, -, hlo, hhi⟩ := ht.inv.start
    rw [hcall'] at hcall
    exact ht.start.mallocRun hal' hlo hhi mem hn hsz hsize hfew hcall

end

/-! ## §3. Runs. -/

def TightOk (g : HeapSys) (n : Nat) : Prop := MallocOk g n ∧ NoExactRun g.heap n

theorem HeapStart.tight {g : HeapSys} (h₀ : HeapStart g) : Tight g.heap g.live := by
  have hnone : mine g.heap = fun _ => false := mine_of_aligned (by rw [h₀.mptr]; rfl)
  rw [h₀.live]
  refine ⟨?_, ?_, ?_⟩
  · rw [hnone]
    refine ⟨Or.inl h₀.mptr, (fun b hb => by cases hb), List.Pairwise.nil, ?_,
      (fun p hp => by cases hp), ?_, by decide⟩
    · intro p w h1 h2 hp
      rw [h₀.pages p h1 h2] at hp
      cases hp
    · rw [h₀.mptr]
      exact fun hne => absurd (Nat.zero_mod _) hne
  · intro p w h1 h2 hp
    rw [h₀.pages p h1 h2] at hp
    cases hp
  · intro p w h1 h2 hp
    rw [h₀.pages p h1 h2] at hp
    cases hp

theorem Tight.step {g g' : HeapSys} (ht : Tight g.heap g.live) (hstep : HeapStep TightOk g g') :
    Tight g'.heap g'.live := by
  cases hstep with
  | malloc mem hn hok hcall => exact ht.malloc mem hn hok.1.1 hok.2 hok.1.2 hcall
  | free hb hcall => exact ht.free hb hcall
  | store w hb hp hlo hhi => exact ht.store hb hp hlo hhi

theorem Tight.run {g₀ g : HeapSys} (h₀ : HeapStart g₀)
    (hrun : Relation.ReflTransGen (HeapStep TightOk) g₀ g) : Tight g.heap g.live := by
  induction hrun with
  | refl => exact h₀.tight
  | tail _ hstep ih => exact ih.step hstep

/-- With no block live, only the page of `mptr` can be mapped. -/
theorem Tight.of_nil {h : Heap} (ht : Tight h []) (hlo : mbegin / PGSIZE ≤ p)
    (hhi : p < mend / PGSIZE) (hp : h.page p ≠ none) :
    h.mptr % PGSIZE ≠ 0 ∧ p = h.mptr / PGSIZE := by
  obtain ⟨⟨cont, w⟩, hx⟩ := Option.ne_none_iff_exists'.mp hp
  cases cont with
  | true =>
    obtain ⟨b, hb, -⟩ := ht.covered.marked p w hlo hhi hx
    cases hb
  | false =>
    have hpos := ht.covered.counted p w hlo hhi hx
    have hw := ht.inv.counts p w hlo hhi hx
    by_cases hm : mine h p = true
    · simpa [mine] using hm
    · rw [if_neg hm] at hw
      simp at hw
      omega

/-- **The heap does not leak**, in every state of every run in which each call of
`malloc` meets `TightOk`: the count of a page is the number of live blocks that end
in it, and one for `mptr`; with no block live at most the page of `mptr` is mapped. -/
theorem heap_tight {g₀ g : HeapSys} (h₀ : HeapStart g₀)
    (hrun : Relation.ReflTransGen (HeapStep TightOk) g₀ g) :
    (∀ p w, mbegin / PGSIZE ≤ p → p < mend / PGSIZE → g.heap.page p = some ⟨false, w⟩ →
      w = g.live.countP (fun b => b.anchor = p)
        + (if g.heap.mptr % PGSIZE ≠ 0 ∧ p = g.heap.mptr / PGSIZE then 1 else 0)) ∧
    (g.live = [] → ∀ p, mbegin / PGSIZE ≤ p → p < mend / PGSIZE → g.heap.page p ≠ none →
      g.heap.mptr % PGSIZE ≠ 0 ∧ p = g.heap.mptr / PGSIZE) := by
  have ht := Tight.run h₀ hrun
  refine ⟨fun p w hlo hhi hp => ?_, fun hnil p hlo hhi hp => ?_⟩
  · rw [ht.inv.counts p w hlo hhi hp]
    simp [mine]
  · rw [hnil] at ht
    exact ht.of_nil hlo hhi hp

/-- What a call leaves, `d` if it fails. -/
def outcome {α : Type} (d : α) : Except String α → α
  | .ok a => a
  | .error _ => d

theorem eq_ok_outcome {α : Type} (d : α) {x : Except String α} (hx : x.isOk = true) :
    x = .ok (outcome d x) := by
  cases x with
  | ok a => rfl
  | error e => cases hx

/-- `malloc(n)`, with memory to spare. -/
def HeapSys.mallocd (g : HeapSys) (n : Nat) : HeapSys :=
  let r := outcome (0, g.heap) (Malloc.malloc (fun _ => true) n g.heap)
  ⟨r.2, grown g.live r.1 n⟩

def HeapSys.freed (g : HeapSys) (b : Block) : HeapSys :=
  ⟨outcome g.heap (Malloc.free b.v g.heap), g.live.erase b⟩

section

variable {ok : HeapSys → Nat → Prop} {g : HeapSys}

theorem HeapStep.mallocd (hn : n < MAXMALLOC) (hok : ok g n)
    (hx : (Malloc.malloc (fun _ => true) n g.heap).isOk = true) : HeapStep ok g (g.mallocd n) :=
  .malloc (fun _ => true) hn hok (eq_ok_outcome (0, g.heap) hx)

theorem HeapStep.freed (hb : b ∈ g.live)
    (hx : (Malloc.free b.v g.heap).isOk = true) : HeapStep ok g (g.freed b) :=
  .free hb (eq_ok_outcome g.heap hx)

/-- At a page boundary there is always a next page. -/
theorem mallocOk_of_aligned (hal : g.heap.mptr % PGSIZE = 0)
    (hfew : g.live.length + 3 < 2 ^ 32) : MallocOk g n :=
  ⟨fun hne => absurd hal hne, hfew⟩

end

/-- One `malloc(100)`, freed. -/
def hundred : HeapSys := (noHeap.mallocd 100).freed ⟨0x08000000, 100⟩

theorem hundred_step : HeapStep TightOk noHeap (noHeap.mallocd 100) :=
  .mallocd (by decide) ⟨mallocOk_of_aligned rfl (by decide), Or.inl (by decide)⟩
    (by decide +kernel)

theorem hundred_run : Relation.ReflTransGen (HeapStep TightOk) noHeap hundred := by
  have hfree : HeapStep TightOk (noHeap.mallocd 100) hundred :=
    .freed (by decide +kernel) (by decide +kernel)
  exact (Relation.ReflTransGen.single hundred_step).tail hfree

/-- `mptr` holds the page of the freed chunk, and no other is mapped. -/
theorem heap_tight_hundred : hundred.heap.page 0x8000 = some ⟨false, 1⟩ ∧
    ∀ p, mbegin / PGSIZE ≤ p → p < mend / PGSIZE → hundred.heap.page p ≠ none →
      hundred.heap.mptr % PGSIZE ≠ 0 ∧ p = hundred.heap.mptr / PGSIZE :=
  ⟨by decide +kernel, (heap_tight noHeap_start hundred_run).2 (by decide +kernel)⟩

/-! ## §4. Exact pages. -/

/-- Two blocks of one page each. -/
def exactPair : HeapSys := (noHeap.mallocd 4096).mallocd 4096

/-- Both are freed. -/
def exactFreed : HeapSys :=
  (exactPair.freed ⟨0x08000000, 4096⟩).freed ⟨0x08002000, 4096⟩

/-- **The heap leaks.**  Each block leaves the page of its count word behind:
nothing is live, `mptr` is at neither page in the middle, and both stay mapped,
their counts at one. -/
theorem heap_leaks : HeapStart noHeap ∧
    Relation.ReflTransGen (HeapStep MallocOk) noHeap exactFreed ∧ exactFreed.live = [] ∧
    exactFreed.heap.mptr = 0x08003000 ∧
    exactFreed.heap.page 0x8001 = some ⟨false, 1⟩ ∧
    exactFreed.heap.page 0x8003 = some ⟨false, 1⟩ := by
  have h1 : HeapStep MallocOk noHeap (noHeap.mallocd 4096) :=
    .mallocd (by decide) (mallocOk_of_aligned rfl (by decide)) (by decide +kernel)
  have h2 : HeapStep MallocOk (noHeap.mallocd 4096) exactPair :=
    .mallocd (by decide) (mallocOk_of_aligned (by decide +kernel) (by decide +kernel))
      (by decide +kernel)
  have h3 : HeapStep MallocOk exactPair (exactPair.freed ⟨0x08000000, 4096⟩) :=
    .freed (by decide +kernel) (by decide +kernel)
  have h4 : HeapStep MallocOk (exactPair.freed ⟨0x08000000, 4096⟩) exactFreed :=
    .freed (by decide +kernel) (by decide +kernel)
  have hrun := (((Relation.ReflTransGen.single h1).tail h2).tail h3).tail h4
  exact ⟨noHeap_start, hrun, by decide +kernel, by decide +kernel, by decide +kernel,
    by decide +kernel⟩

end Jos.Malloc
