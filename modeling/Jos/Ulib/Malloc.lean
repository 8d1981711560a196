/-
  Jos.Ulib.Malloc — **THE HEAP** (`lib/malloc.c`).

  `mptr` walks over `[mbegin, mend)`.  A chunk goes into the page `mptr` is in
  the middle of, if it fits there; otherwise `malloc` gives up its reference to
  that page and looks for a run of unmapped pages.  The last word of a page
  counts the blocks in it, and `mptr`; the other pages of a run are marked
  `PTE_CONTINUED` and have no count.

  A block lies in the pages from `first` to `anchor`, and only `anchor` has a
  count.  That is the invariant: the count of a page is the number of live
  blocks anchored there, plus the reference of `mptr`.  It breaks in one place.
  When `mptr` gives up the last page of the heap it becomes `mend`, which the
  search does not notice, and the heap continues at address 0.

  Addresses are numbers below `2 ^ 32`.
-/
import Mathlib.Data.List.Count
import Mathlib.Tactic.IntervalCases
import Jos.Kern.Mmu

namespace Jos.Malloc

open Function (update update_of_ne update_self)

variable {b : Block} {P k m n p v w : Nat}

/-! ## §1. `malloc` and `free`. -/

def PGSIZE : Nat := 4096
def MAXMALLOC : Nat := 1024 * 1024
def mbegin : Nat := 0x08000000
def mend : Nat := 0x10000000
def UTOP : Nat := 0xeec00000

example : PGSIZE = Jos.PGSIZE.toNat ∧ UTOP = Jos.UTOP.toNat := ⟨rfl, rfl⟩

/-- A mapped page: `PTE_CONTINUED`, and its last word. -/
structure HPage where
  cont : Bool
  last : Nat
  deriving DecidableEq

/-- The pages, by page number, and `mptr`. -/
structure Heap where
  page : Nat → Option HPage
  mptr : Nat

def Heap.map (h : Heap) (p : Nat) (x : HPage) : Heap :=
  { h with page := update h.page p (some x) }

def Heap.unmap (h : Heap) (p : Nat) : Heap :=
  { h with page := update h.page p none }

/-- The loop of `isfree`, at most `k` rounds. -/
def isfreeFrom (h : Heap) (endVa : Nat) : Nat → Nat → Bool
  | 0, _ => true
  | k + 1, va =>
    if va < endVa then
      if mend ≤ va ∨ (h.page (va / PGSIZE)).isSome then false
      else isfreeFrom h endVa k ((va + PGSIZE) % 2 ^ 32)
    else true

/-- A chunk is less than 258 pages. -/
def isfree (h : Heap) (v n : Nat) : Bool := isfreeFrom h ((v + n) % 2 ^ 32) 258 v

/-- How the search ends: out of address space, or at an address. -/
inductive Found where
  | nowhere
  | at (mptr : Nat)

/-- The search of `malloc`, from `mptr` on, at most `k` rounds. -/
def search (h : Heap) (n : Nat) : Nat → Nat → Nat → Option Found
  | 0, _, _ => none
  | k + 1, nwrap, mptr =>
    if isfree h mptr (n + 4) then some (.at mptr)
    else if (mptr + PGSIZE) % 2 ^ 32 = mend then
      if nwrap + 1 = 2 then some .nowhere else search h n k (nwrap + 1) mbegin
    else search h n k nwrap ((mptr + PGSIZE) % 2 ^ 32)

/-- The pages from `base` to page `j` after it are unmapped. -/
def unmapDown (base : Nat) : Nat → Heap → Heap
  | 0, h => h.unmap (base / PGSIZE)
  | j + 1, h => unmapDown base j (h.unmap ((base + PGSIZE * (j + 1)) % 2 ^ 32 / PGSIZE))

/-- The loop that allocates the pages, from page `j` on; the number of pages, or
`none` when there is no memory.  `mem j` says whether there is a page for the
`j`-th `sys_page_alloc`. -/
def allocFrom (mem : Nat → Bool) (base n : Nat) : Nat → Nat → Heap → Option Nat × Heap
  | 0, j, h => (some j, h)
  | k + 1, j, h =>
    if PGSIZE * j < n + 4 then
      if mem j ∧ base + PGSIZE * j < UTOP then
        allocFrom mem base n k (j + 1) (h.map ((base + PGSIZE * j) % 2 ^ 32 / PGSIZE)
          ⟨decide (PGSIZE * j + PGSIZE < n + 4), 0⟩)
      else (none, unmapDown base j h)
    else (some j, h)

/-- The loop of `free` over the pages of a run, at most `k` rounds. -/
def freeRun : Nat → Nat → Heap → Except String (Nat × Heap)
  | 0, _, _ => .error "out of rounds"
  | k + 1, c, h =>
    match h.page (c / PGSIZE) with
    | some ⟨true, _⟩ =>
      if mbegin ≤ c + PGSIZE ∧ c + PGSIZE < mend then
        freeRun k (c + PGSIZE) (h.unmap (c / PGSIZE))
      else .error "assertion failed: mbegin <= c && c < mend"
    | _ => .ok (c, h)

def free (v : Nat) (h : Heap) : Except String Heap :=
  if v = 0 then .ok h
  else if ¬ (mbegin ≤ v ∧ v < mend) then .error "assertion failed: mbegin <= v && v < mend"
  else
    match freeRun (2 ^ 20) (v / PGSIZE * PGSIZE) h with
    | .error e => .error e
    | .ok (c, h) =>
      match h.page (c / PGSIZE) with
      | none => .error "page fault"
      | some x =>
        if (x.last + 2 ^ 32 - 1) % 2 ^ 32 = 0 then .ok (h.unmap (c / PGSIZE))
        else .ok (h.map (c / PGSIZE) { x with last := (x.last + 2 ^ 32 - 1) % 2 ^ 32 })

/-- The last part of `malloc`: a new run at `mptr`, which is page-aligned. -/
def mallocRun (mem : Nat → Bool) (n : Nat) (h : Heap) : Except String (Nat × Heap) :=
  match search h n (2 ^ 22) 0 h.mptr with
  | none => .error "out of rounds"
  | some .nowhere => .ok (0, { h with mptr := mbegin })
  | some (.at mptr) =>
    match allocFrom mem mptr n 258 0 { h with mptr := mptr } with
    | (none, h) => .ok (0, h)
    | (some j, h) =>
      match h.page ((mptr + PGSIZE * j - 4) % 2 ^ 32 / PGSIZE) with
      | none => .error "page fault"
      | some x => .ok (mptr, { h.map ((mptr + PGSIZE * j - 4) % 2 ^ 32 / PGSIZE)
          { x with last := 2 } with mptr := (mptr + n) % 2 ^ 32 })

/-- `ROUNDUP(n, 4)`. -/
def roundup4 (n : Nat) : Nat := (n + 3) % 2 ^ 32 / 4 * 4

/-- `mptr = mbegin` at the first call. -/
def Heap.start (h : Heap) : Heap := if h.mptr = 0 then { h with mptr := mbegin } else h

theorem start_of_ne {h : Heap} (h0 : h.mptr ≠ 0) : h.start = h := if_neg h0

/-- A chunk of `n` bytes and the count fit into the page of `mptr`. -/
def fits (mptr n : Nat) : Bool := mptr / PGSIZE == (mptr + n - 1 + 4) % 2 ^ 32 / PGSIZE

def malloc (mem : Nat → Bool) (n : Nat) (h : Heap) : Except String (Nat × Heap) :=
  let h := h.start
  let n := roundup4 n
  if MAXMALLOC ≤ n then .ok (0, h)
  else if h.mptr % PGSIZE ≠ 0 then
    if fits h.mptr n then
      match h.page (h.mptr / PGSIZE) with
      | none => .error "page fault"
      | some x => .ok (h.mptr, { h.map (h.mptr / PGSIZE)
          { x with last := (x.last + 1) % 2 ^ 32 } with mptr := (h.mptr + n) % 2 ^ 32 })
    else
      match free h.mptr h with
      | .error e => .error e
      | .ok h => mallocRun mem n
          { h with mptr := (h.mptr + PGSIZE) % 2 ^ 32 / PGSIZE * PGSIZE }
  else mallocRun mem n h

/-! ## §2. Live blocks. -/

/-- A block that `malloc(n)` returned at `v`. -/
structure Block where
  v : Nat
  n : Nat
  deriving DecidableEq

/-- The size `malloc` reserves. -/
def Block.size (b : Block) : Nat := (b.n + 3) / 4 * 4

/-- The pages of a block, from `first` to `anchor`, which has the count. -/
def Block.first (b : Block) : Nat := b.v / PGSIZE
def Block.anchor (b : Block) : Nat := (b.v + b.size + 3) / PGSIZE

/-- Two blocks have no byte in common, and neither has a page of the other's run
except its last. -/
structure Apart (b c : Block) : Prop where
  bytes : b.v + b.size ≤ c.v ∨ c.v + c.size ≤ b.v ∨ b.size = 0 ∨ c.size = 0
  left : ∀ p, b.first ≤ p → p < b.anchor → ¬ (c.first ≤ p ∧ p ≤ c.anchor)
  right : ∀ p, c.first ≤ p → p < c.anchor → ¬ (b.first ≤ p ∧ p ≤ b.anchor)

/-- A block and its pages. -/
structure Placed (h : Heap) (b : Block) : Prop where
  low : mbegin ≤ b.v
  high : b.anchor < mend / PGSIZE
  run : ∀ p, b.first ≤ p → p < b.anchor → ∃ w, h.page p = some ⟨true, w⟩
  count : ∃ w, h.page b.anchor = some ⟨false, w⟩
  aligned : b.first < b.anchor → b.v % PGSIZE = 0

/-- `own p`: `mptr` has a reference to page `p`.  It keeps the one to the last
page of a run that it leaves at the start of that page. -/
structure HeapInv (h : Heap) (live : List Block) (own : Nat → Bool) : Prop where
  mptr : h.mptr = 0 ∨ mbegin ≤ h.mptr ∧ h.mptr < mend
  placed : ∀ b ∈ live, Placed h b
  apart : live.Pairwise Apart
  counts : ∀ p w, mbegin / PGSIZE ≤ p → p < mend / PGSIZE → h.page p = some ⟨false, w⟩ →
    w = live.countP (fun b => b.anchor = p) + (if own p then 1 else 0)
  owned : ∀ p, own p = true → mbegin / PGSIZE ≤ p ∧ p < mend / PGSIZE ∧
    ∃ w, h.page p = some ⟨false, w⟩
  current : h.mptr % PGSIZE ≠ 0 → own (h.mptr / PGSIZE) = true ∧
    ∀ b ∈ live, b.anchor = h.mptr / PGSIZE → b.v + b.size ≤ h.mptr
  few : live.length + 2 < 2 ^ 32

section

variable {h h' : Heap} {live : List Block} {own : Nat → Bool}

theorem pages_eq : mbegin / PGSIZE = 32768 ∧ mend / PGSIZE = 65536 := by decide

theorem Apart.symm {b c : Block} (h : Apart b c) : Apart c b :=
  ⟨by have := h.bytes; omega, h.right, h.left⟩

theorem Block.first_le_anchor (b : Block) : b.first ≤ b.anchor := by
  unfold Block.first Block.anchor PGSIZE
  omega

theorem Block.end_le (b : Block) : b.v + b.size + 4 ≤ (b.anchor + 1) * PGSIZE := by
  unfold Block.anchor PGSIZE
  omega

theorem Placed.bounds (hb : Placed h b) :
    mbegin / PGSIZE ≤ b.first ∧ b.first ≤ b.anchor ∧ b.anchor < mend / PGSIZE := by
  refine ⟨?_, b.first_le_anchor, hb.high⟩
  have := hb.low
  exact Nat.div_le_div_right this

/-! ## §3. `free`. -/

/-- The pages from `p` to before `q` are unmapped. -/
def unmapRange (h : Heap) (p q : Nat) : Heap :=
  { h with page := fun x => if p ≤ x ∧ x < q then none else h.page x }

theorem unmapRange_unmap (h : Heap) :
    unmapRange (h.unmap p) (p + 1) (p + 1 + m) = unmapRange h p (p + (m + 1)) := by
  unfold unmapRange Heap.unmap
  dsimp only
  congr 1
  funext x
  by_cases hx : x = p
  · subst hx
    rw [update_self, if_neg (by omega), if_pos (by omega)]
  · rw [update_of_ne hx]
    by_cases hr : p + 1 ≤ x ∧ x < p + 1 + m
    · rw [if_pos hr, if_pos (by omega)]
    · rw [if_neg hr, if_neg (by omega)]

/-- The loop of `free` unmaps the marked pages and stops at the first other. -/
theorem freeRun_eq (m : Nat) : ∀ (k p : Nat) (h : Heap), m < k → mbegin / PGSIZE ≤ p →
    p + m < mend / PGSIZE → (∀ q, p ≤ q → q < p + m → ∃ w, h.page q = some ⟨true, w⟩) →
    (∃ w, h.page (p + m) = some ⟨false, w⟩) →
    freeRun k (p * PGSIZE) h = .ok ((p + m) * PGSIZE, unmapRange h p (p + m)) := by
  induction m with
  | zero =>
    intro k p h hk _ _ _ ⟨w, hw⟩
    obtain ⟨k, rfl⟩ := Nat.exists_eq_succ_of_ne_zero (Nat.ne_of_gt hk)
    unfold freeRun
    rw [Nat.mul_div_cancel p (by decide), show h.page p = some ⟨false, w⟩ from hw]
    unfold unmapRange
    rw [Nat.add_zero]
    have hsame : (fun x => if p ≤ x ∧ x < p then none else h.page x) = h.page := by
      funext x
      rw [if_neg (by omega)]
    rw [hsame]
  | succ m ih =>
    intro k p h hk hlo hhi hrun hlast
    obtain ⟨k, rfl⟩ := Nat.exists_eq_succ_of_ne_zero
      (Nat.ne_of_gt (Nat.lt_of_le_of_lt (Nat.zero_le _) hk))
    obtain ⟨w, hw⟩ := hrun p (le_refl p) (by omega)
    have hin : mbegin ≤ p * PGSIZE + PGSIZE ∧ p * PGSIZE + PGSIZE < mend := by
      rw [pages_eq.1] at hlo
      rw [pages_eq.2] at hhi
      unfold mbegin mend PGSIZE
      omega
    unfold freeRun
    rw [Nat.mul_div_cancel p (by decide), hw]
    dsimp only
    rw [if_pos hin, ← Nat.succ_mul]
    have hother : ∀ q, q ≠ p → (h.unmap p).page q = h.page q :=
      fun q hq => update_of_ne hq _ _
    have hrec := ih k (p + 1) (h.unmap p) (by omega) (by omega) (by omega)
      (fun q h1 h2 => by rw [hother q (by omega)]; exact hrun q (by omega) (by omega))
      (by rw [hother _ (by omega)]; exact (by rw [show p + 1 + m = p + (m + 1) by omega]; exact hlast))
    rw [hrec, unmapRange_unmap, show p + 1 + m = p + (m + 1) by omega]

/-- The end of `free`: the count of page `p` goes down. -/
def release (h : Heap) (p w : Nat) : Heap :=
  if w = 1 then h.unmap p else h.map p ⟨false, w - 1⟩

/-- `free` of an address whose run ends at the counted page `p + m`. -/
theorem free_eq (hv : mbegin ≤ v) (hhi : v / PGSIZE + m < mend / PGSIZE)
    (hrun : ∀ q, v / PGSIZE ≤ q → q < v / PGSIZE + m → ∃ w, h.page q = some ⟨true, w⟩)
    (hw : h.page (v / PGSIZE + m) = some ⟨false, w⟩) (hpos : 0 < w) (hlt : w < 2 ^ 32) :
    free v h = .ok (release (unmapRange h (v / PGSIZE) (v / PGSIZE + m)) (v / PGSIZE + m) w) := by
  have hvend : v < mend := by
    rw [pages_eq.2] at hhi
    unfold PGSIZE at hhi
    unfold mend
    omega
  have h0 : v ≠ 0 := by
    unfold mbegin at hv
    omega
  have hm : m < 2 ^ 20 := by
    have hle : m < mend / PGSIZE := lt_of_le_of_lt (Nat.le_add_left m _) hhi
    rw [pages_eq.2] at hle
    omega
  unfold free
  rw [if_neg h0, if_neg (not_not.mpr ⟨hv, hvend⟩),
    freeRun_eq m _ _ h hm (Nat.div_le_div_right hv) hhi hrun ⟨w, hw⟩]
  dsimp only
  rw [Nat.mul_div_cancel _ (by decide)]
  have hpage : (unmapRange h (v / PGSIZE) (v / PGSIZE + m)).page (v / PGSIZE + m)
      = some ⟨false, w⟩ := by
    unfold unmapRange
    dsimp only
    rw [if_neg (by omega)]
    exact hw
  rw [hpage]
  dsimp only
  have hdec : (w + 2 ^ 32 - 1) % 2 ^ 32 = w - 1 := by omega
  rw [hdec]
  unfold release
  by_cases h1 : w = 1
  · rw [if_pos (by omega), if_pos h1]
  · rw [if_neg (by omega), if_neg h1]

/-- The pages after `release`. -/
theorem release_page {p w q : Nat} : (release h p w).page q
    = if q = p then (if w = 1 then none else some ⟨false, w - 1⟩) else h.page q := by
  unfold release Heap.map Heap.unmap
  by_cases hq : q = p
  · subst hq
    rw [if_pos rfl]
    split
    · exact update_self _ _ _
    · exact update_self _ _ _
  · split
    · exact update_of_ne hq _ _
    · exact update_of_ne hq _ _

theorem release_mptr : (release h p w).mptr = h.mptr := by
  unfold release
  split
  · rfl
  · rfl

section
variable (hi : HeapInv h live own)
include hi

theorem HeapInv.count_lt (hlo : mbegin / PGSIZE ≤ p)
    (hhi : p < mend / PGSIZE) (hp : h.page p = some ⟨false, w⟩) : w + 1 < 2 ^ 32 := by
  have hw := hi.counts p w hlo hhi hp
  have hle : live.countP (fun b => b.anchor = p) ≤ live.length := List.countP_le_length
  have hfew := hi.few
  split at hw
  · omega
  · omega

/-- `free` of a live block: it returns, and these are the pages afterwards. -/
theorem HeapInv.free_pages (hb : b ∈ live) :
    ∃ h' w, free b.v h = .ok h' ∧ h'.mptr = h.mptr ∧ h.page b.anchor = some ⟨false, w⟩ ∧
      ∀ q, h'.page q = if q = b.anchor then (if w = 1 then none else some ⟨false, w - 1⟩)
        else if b.first ≤ q ∧ q < b.anchor then none else h.page q := by
  have hpl := hi.placed b hb
  obtain ⟨hlo, hfa, hhi⟩ := hpl.bounds
  obtain ⟨w, hw⟩ := hpl.count
  have hcount := hi.counts b.anchor w (le_trans hlo hfa) hhi hw
  have hposc : 0 < live.countP (fun c => c.anchor = b.anchor) :=
    List.countP_pos_iff.mpr ⟨b, hb, by simp⟩
  have hlt := hi.count_lt (le_trans hlo hfa) hhi hw
  have hm : b.v / PGSIZE + (b.anchor - b.first) = b.anchor := by
    show b.first + (b.anchor - b.first) = b.anchor
    omega
  have hfree := free_eq (h := h) (v := b.v) (m := b.anchor - b.first) (w := w) hpl.low
    (by rw [hm]; exact hhi) (by rw [hm]; exact hpl.run) (by rw [hm]; exact hw) (by omega) (by omega)
  rw [hm] at hfree
  refine ⟨_, w, hfree, release_mptr, hw, fun q => ?_⟩
  rw [release_page]
  rfl

/-- **A live block is freed**: `free` returns, and the invariant holds for the
other blocks. -/
theorem HeapInv.free (hb : b ∈ live) :
    ∃ h', free b.v h = .ok h' ∧ HeapInv h' (live.erase b) own := by
  have hpl := hi.placed b hb
  obtain ⟨hlo, hfa, hhi⟩ := hpl.bounds
  obtain ⟨h', w, hfree, hmptr, hw, hpage⟩ := hi.free_pages hb
  have hcount := hi.counts b.anchor w (le_trans hlo hfa) hhi hw
  have hposc : 0 < live.countP (fun c => c.anchor = b.anchor) :=
    List.countP_pos_iff.mpr ⟨b, hb, by simp⟩
  refine ⟨h', hfree, ?_⟩
  -- a page that is counted and not the block's stays as it is
  have hkeep : ∀ p x, h.page p = some ⟨false, x⟩ → p ≠ b.anchor → h'.page p = some ⟨false, x⟩ := by
    intro p x hp hne
    rw [hpage, if_neg hne]
    rw [if_neg ?_]
    · exact hp
    · rintro ⟨h1, h2⟩
      obtain ⟨y, hy⟩ := hpl.run p h1 h2
      rw [hp] at hy
      cases hy
  have hcnt : ∀ p, (live.erase b).countP (fun c => c.anchor = p)
      = live.countP (fun c => c.anchor = p) - if b.anchor = p then 1 else 0 := by
    intro p
    rw [List.countP_erase]
    simp [hb]
  refine ⟨by rw [hmptr]; exact hi.mptr, ?_, hi.apart.sublist List.erase_sublist, ?_, ?_, ?_, ?_⟩
  · intro c hc
    have hcl : c ∈ live := List.mem_of_mem_erase hc
    have hplc := hi.placed c hcl
    -- `c` is another entry of the list
    have hap : Apart b c := by
      have hperm := (List.perm_cons_erase hb).pairwise_iff (R := Apart) (fun h => h.symm)
      exact (List.pairwise_cons.mp (hperm.mp hi.apart)).1 c hc
    refine ⟨hplc.low, hplc.high, fun p h1 h2 => ?_, ?_, hplc.aligned⟩
    · obtain ⟨x, hx⟩ := hplc.run p h1 h2
      refine ⟨x, ?_⟩
      have hne : p ≠ b.anchor := by
        rintro rfl
        rw [hw] at hx
        cases hx
      rw [hpage, if_neg hne, if_neg (fun hr => hap.left p hr.1 hr.2 ⟨h1, le_of_lt h2⟩)]
      exact hx
    · obtain ⟨x, hx⟩ := hplc.count
      by_cases hca : c.anchor = b.anchor
      · -- two blocks are counted there
        have htwo : 0 < (live.erase b).countP (fun d => d.anchor = b.anchor) :=
          List.countP_pos_iff.mpr ⟨c, hc, by simpa using hca⟩
        rw [hcnt, if_pos rfl] at htwo
        refine ⟨w - 1, ?_⟩
        rw [hca, hpage, if_pos rfl, if_neg (by omega)]
      · exact ⟨x, hkeep _ _ hx hca⟩
  · intro p x hlo' hhi' hp
    rw [hcnt]
    by_cases hpa : p = b.anchor
    · subst hpa
      rw [hpage, if_pos rfl] at hp
      rw [if_pos rfl]
      by_cases h1 : w = 1
      · rw [if_pos h1] at hp
        cases hp
      · rw [if_neg h1] at hp
        cases hp
        omega
    · rw [hpage, if_neg hpa] at hp
      rw [if_neg (fun hc => hpa hc.symm), Nat.sub_zero]
      split at hp
      · cases hp
      · exact hi.counts p x hlo' hhi' hp
  · intro p hp
    obtain ⟨h1, h2, x, hx⟩ := hi.owned p hp
    refine ⟨h1, h2, ?_⟩
    by_cases hpa : p = b.anchor
    · subst hpa
      rw [hp, if_pos rfl] at hcount
      exact ⟨w - 1, by rw [hpage, if_pos rfl, if_neg (by omega)]⟩
    · exact ⟨x, hkeep _ _ hx hpa⟩
  · rw [hmptr]
    intro hne
    obtain ⟨ho, hend⟩ := hi.current hne
    exact ⟨ho, fun c hc => hend c (List.mem_of_mem_erase hc)⟩
  · have hlen : (live.erase b).length ≤ live.length := List.length_erase_le
    have := hi.few
    omega

/-- `mptr` gives up the page it is in: the pages afterwards. -/
theorem HeapInv.leave_pages (hne : h.mptr % PGSIZE ≠ 0) :
    ∃ h' w, Jos.Malloc.free h.mptr h = .ok h' ∧ h'.mptr = h.mptr ∧
      h.page (h.mptr / PGSIZE) = some ⟨false, w⟩ ∧
      ∀ q, h'.page q = if q = h.mptr / PGSIZE then (if w = 1 then none else some ⟨false, w - 1⟩)
        else h.page q := by
  obtain ⟨ho, -⟩ := hi.current hne
  obtain ⟨hlo, hhi, w, hw⟩ := hi.owned _ ho
  have hcount := hi.counts _ w hlo hhi hw
  rw [ho, if_pos rfl] at hcount
  have hlt := hi.count_lt hlo hhi hw
  have hlow : mbegin ≤ h.mptr := by
    rcases hi.mptr with h0 | h1
    · rw [h0] at hne
      exact absurd (Nat.zero_mod _) hne
    · exact h1.1
  have hfree := free_eq (h := h) (v := h.mptr) (m := 0) (w := w) hlow hhi
    (fun q h1 h2 => absurd h2 (by omega)) hw (by omega) (by omega)
  rw [Nat.add_zero] at hfree
  refine ⟨_, w, hfree, release_mptr, hw, fun q => ?_⟩
  rw [release_page]
  unfold unmapRange
  dsimp only
  rw [if_neg (show ¬ (h.mptr / PGSIZE ≤ q ∧ q < h.mptr / PGSIZE) by omega)]

/-- `mptr` gives up the page it is in. -/
theorem HeapInv.leave (hne : h.mptr % PGSIZE ≠ 0) :
    ∃ h', Jos.Malloc.free h.mptr h = .ok h' ∧ h'.mptr = h.mptr ∧
      (∀ q, q ≠ h.mptr / PGSIZE → h'.page q = h.page q) ∧
      ∀ m, (m = 0 ∨ mbegin ≤ m ∧ m < mend) → m % PGSIZE = 0 →
        HeapInv { h' with mptr := m } live (update own (h.mptr / PGSIZE) false) := by
  obtain ⟨ho, -⟩ := hi.current hne
  obtain ⟨hlo, hhi, -⟩ := hi.owned _ ho
  obtain ⟨h', w, hfree, hmp, hw, hpage⟩ := hi.leave_pages hne
  have hcount := hi.counts _ w hlo hhi hw
  rw [ho, if_pos rfl] at hcount
  refine ⟨h', hfree, hmp, ?_⟩
  clear hfree hmp
  generalize h.mptr / PGSIZE = P at *
  refine ⟨fun q hq => by rw [hpage, if_neg hq], fun m hm hal => ?_⟩
  refine ⟨hm, ?_, hi.apart, ?_, ?_, fun h0 => absurd hal h0, hi.few⟩
  · intro b hb
    have hpl := hi.placed b hb
    refine ⟨hpl.low, hpl.high, fun p h1 h2 => ?_, ?_, hpl.aligned⟩
    · obtain ⟨x, hx⟩ := hpl.run p h1 h2
      have hp : p ≠ P := by
        rintro rfl
        rw [hw] at hx
        cases hx
      exact ⟨x, by rw [hpage, if_neg hp]; exact hx⟩
    · obtain ⟨x, hx⟩ := hpl.count
      by_cases hp : b.anchor = P
      · have hpos : 0 < live.countP (fun c => c.anchor = P) :=
          List.countP_pos_iff.mpr ⟨b, hb, by simpa using hp⟩
        exact ⟨w - 1, by rw [hpage, if_pos hp, if_neg (by omega)]⟩
      · exact ⟨x, by rw [hpage, if_neg hp]; exact hx⟩
  · intro p x h1 h2 hp
    have hp' : h'.page p = some ⟨false, x⟩ := hp
    rw [hpage] at hp'
    by_cases hpP : p = P
    · subst hpP
      rw [if_pos rfl] at hp'
      rw [update_self, if_neg (by decide)]
      by_cases hw1 : w = 1
      · rw [if_pos hw1] at hp'
        cases hp'
      · rw [if_neg hw1] at hp'
        cases hp'
        omega
    · rw [if_neg hpP] at hp'
      rw [update_of_ne hpP]
      exact hi.counts p x h1 h2 hp'
  · intro p hp
    by_cases hpP : p = P
    · subst hpP
      rw [update_self] at hp
      cases hp
    · rw [update_of_ne hpP] at hp
      obtain ⟨h1, h2, x, hx⟩ := hi.owned p hp
      exact ⟨h1, h2, x, by rw [hpage, if_neg hpP]; exact hx⟩

end

/-! ## §4. The search. -/

/-- What `isfree` has looked at. -/
theorem isfreeFrom_spec {e : Nat} (he : e < 2 ^ 30) (k : Nat) : ∀ va, va % PGSIZE = 0 →
    e ≤ va + PGSIZE * k → isfreeFrom h e k va = true →
    ∀ p, va / PGSIZE ≤ p → p * PGSIZE < e → p < mend / PGSIZE ∧ h.page p = none := by
  induction k with
  | zero =>
    intro va hal hle _ p hp hpe
    unfold PGSIZE at *
    omega
  | succ k ih =>
    intro va hal hle hfree p hp hpe
    unfold isfreeFrom at hfree
    have hlt : va < e := by
      unfold PGSIZE at *
      omega
    rw [if_pos hlt] at hfree
    split at hfree
    · cases hfree
    · rename_i hno
      rw [not_or] at hno
      by_cases hpv : p = va / PGSIZE
      · subst hpv
        refine ⟨?_, by simpa using hno.2⟩
        have := hno.1
        unfold mend at *
        unfold PGSIZE
        omega
      · have hva : (va + PGSIZE) % 2 ^ 32 = va + PGSIZE := by
          unfold PGSIZE
          omega
        rw [hva] at hfree
        refine ih (va + PGSIZE) ?_ ?_ hfree p ?_ hpe
        · rw [Nat.add_mod_right]
          exact hal
        · rw [Nat.mul_succ] at hle
          omega
        · rw [Nat.add_div_right _ (by decide)]
          omega

theorem isfree_spec (hal : v % PGSIZE = 0) (hv : v < mend) (hn : n < MAXMALLOC)
    (hfree : isfree h v (n + 4) = true) : ∀ p, v / PGSIZE ≤ p → p ≤ (v + n + 3) / PGSIZE →
    p < mend / PGSIZE ∧ h.page p = none := by
  unfold mend at hv
  unfold MAXMALLOC at hn
  unfold isfree at hfree
  intro p h1 h2
  refine isfreeFrom_spec (by omega) 258 v hal ?_ hfree p h1 ?_
  · unfold PGSIZE
    omega
  · unfold PGSIZE at *
    omega

/-- **The search ends**, after two rounds over the heap at most. -/
theorem search_spec (n k : Nat) : ∀ nwrap mptr, mptr % PGSIZE = 0 → mbegin ≤ mptr → mptr < mend →
    nwrap < 2 → 32768 * (1 - nwrap) + (65536 - mptr / PGSIZE) < k →
    search h n k nwrap mptr = some .nowhere ∨
      ∃ p, search h n k nwrap mptr = some (.at p) ∧ p % PGSIZE = 0 ∧ mbegin ≤ p ∧ p < mend ∧
        isfree h p (n + 4) = true := by
  induction k with
  | zero => exact fun _ _ _ _ _ _ hk => absurd hk (by omega)
  | succ k ih =>
    intro nwrap mptr hal hlo hhi hw hk
    unfold search
    by_cases hf : isfree h mptr (n + 4) = true
    · rw [if_pos hf]
      exact Or.inr ⟨mptr, rfl, hal, hlo, hhi, hf⟩
    · rw [if_neg hf]
      have hnext : (mptr + PGSIZE) % 2 ^ 32 = mptr + PGSIZE := by
        unfold mend at hhi
        unfold PGSIZE
        omega
      rw [hnext]
      by_cases hend : mptr + PGSIZE = mend
      · rw [if_pos hend]
        by_cases h2 : nwrap + 1 = 2
        · rw [if_pos h2]
          exact Or.inl rfl
        · rw [if_neg h2]
          refine ih (nwrap + 1) mbegin (by decide) (le_refl _) (by decide) (by omega) ?_
          have hpg : mptr / PGSIZE = 65535 := by
            unfold mend PGSIZE at *
            omega
          have hb : mbegin / PGSIZE = 32768 := pages_eq.1
          omega
      · rw [if_neg hend]
        refine ih nwrap (mptr + PGSIZE) ?_ (by omega) ?_ hw ?_
        · rw [Nat.add_mod_right]
          exact hal
        · unfold mend PGSIZE at *
          omega
        · rw [Nat.add_div_right _ (by decide)]
          have hpg : mptr / PGSIZE < 65536 := by
            unfold mend PGSIZE at *
            omega
          omega

/-! ## §5. A new run. -/

/-- The number of pages of a chunk and its count. -/
def pagesFor (n : Nat) : Nat := (n + 3) / PGSIZE + 1

/-- The first `j` pages of a run of `k` at page `P` have been allocated. -/
def fillRun (h : Heap) (P k j : Nat) : Heap :=
  { h with page := fun p => if P ≤ p ∧ p < P + j then some ⟨decide (p + 1 < P + k), 0⟩ else h.page p }

theorem unmapDown_eq (j : Nat) : ∀ h : Heap, P + j < 65536 →
    unmapDown (P * PGSIZE) j h
      = { h with page := fun p => if P ≤ p ∧ p ≤ P + j then none else h.page p } := by
  induction j with
  | zero =>
    intro h _
    unfold unmapDown Heap.unmap
    rw [Nat.mul_div_cancel _ (by decide)]
    congr 1
    funext p
    by_cases hp : p = P
    · rw [hp, update_self, if_pos (by omega)]
    · rw [update_of_ne hp, if_neg (by omega)]
  | succ j ih =>
    intro h hlt
    have haddr : (P * PGSIZE + PGSIZE * (j + 1)) % 2 ^ 32 / PGSIZE = P + (j + 1) := by
      unfold PGSIZE
      omega
    unfold unmapDown
    rw [haddr, ih _ (by omega)]
    unfold Heap.unmap
    dsimp only
    congr 1
    funext p
    by_cases hp : p = P + (j + 1)
    · rw [hp, update_self, if_neg (by omega), if_pos (by omega)]
    · rw [update_of_ne hp]
      by_cases hr : P ≤ p ∧ p ≤ P + j
      · rw [if_pos hr, if_pos (by omega)]
      · rw [if_neg hr, if_neg (by omega)]

/-- The pages are allocated, or all is as before. -/
theorem allocFrom_spec (mem : Nat → Bool) (hP : P + pagesFor n ≤ 65536)
    (hnone : ∀ p, P ≤ p → p < P + pagesFor n → h.page p = none) (k : Nat) :
    ∀ j, j ≤ pagesFor n → pagesFor n < j + k →
      allocFrom mem (P * PGSIZE) n k j (fillRun h P (pagesFor n) j)
          = (some (pagesFor n), fillRun h P (pagesFor n) (pagesFor n)) ∨
        (∃ i, mem i = false) ∧
          allocFrom mem (P * PGSIZE) n k j (fillRun h P (pagesFor n) j) = (none, h) := by
  induction k with
  | zero =>
    intro j hj hk
    omega
  | succ k ih =>
    intro j hj hk
    unfold allocFrom
    by_cases hlt : PGSIZE * j < n + 4
    · have hjlt : j < pagesFor n := by
        unfold pagesFor PGSIZE at *
        omega
      rw [if_pos hlt]
      by_cases hmem : mem j = true ∧ P * PGSIZE + PGSIZE * j < UTOP
      · rw [if_pos hmem]
        have haddr : (P * PGSIZE + PGSIZE * j) % 2 ^ 32 / PGSIZE = P + j := by
          unfold PGSIZE
          omega
        have hcont : decide (PGSIZE * j + PGSIZE < n + 4) = decide (P + j + 1 < P + pagesFor n) :=
          by
          rw [decide_eq_decide]
          unfold pagesFor PGSIZE
          omega
        have hfill : (fillRun h P (pagesFor n) j).map (P + j)
            ⟨decide (P + j + 1 < P + pagesFor n), 0⟩ = fillRun h P (pagesFor n) (j + 1) := by
          unfold fillRun Heap.map
          dsimp only
          congr 1
          funext p
          by_cases hp : p = P + j
          · rw [hp, update_self, if_pos (by omega)]
          · rw [update_of_ne hp]
            by_cases hr : P ≤ p ∧ p < P + j
            · rw [if_pos hr, if_pos (by omega)]
            · rw [if_neg hr, if_neg (by omega)]
        rw [haddr, hcont, hfill]
        exact ih (j + 1) hjlt (by omega)
      · have hfail : mem j = false := by
          by_contra hyes
          refine hmem ⟨by simpa using hyes, ?_⟩
          unfold UTOP PGSIZE
          omega
        rw [if_neg hmem, unmapDown_eq j _ (by omega)]
        refine Or.inr ⟨⟨j, hfail⟩, ?_⟩
        have hback : (fun p => if P ≤ p ∧ p ≤ P + j then none
            else (fillRun h P (pagesFor n) j).page p) = h.page := by
          funext p
          by_cases hr : P ≤ p ∧ p ≤ P + j
          · rw [if_pos hr]
            exact (hnone p hr.1 (by omega)).symm
          · rw [if_neg hr]
            show (if P ≤ p ∧ p < P + j then _ else h.page p) = h.page p
            rw [if_neg (by omega)]
        rw [hback]
        rfl
    · have hjeq : j = pagesFor n := by
        unfold pagesFor PGSIZE at *
        omega
      rw [if_neg hlt, hjeq]
      exact Or.inl rfl

theorem fillRun_zero (h : Heap) (P k : Nat) : fillRun h P k 0 = h := by
  unfold fillRun
  have hsame : (fun p => if P ≤ p ∧ p < P + 0 then some ⟨decide (p + 1 < P + k), 0⟩ else h.page p)
      = h.page := by
    funext p
    rw [if_neg (by omega)]
  rw [hsame]

/-- Pages that are all mapped and pages that are not. -/
theorem Placed.clear (hb : Placed h b) {P Q : Nat}
    (hnone : ∀ p, P ≤ p → p ≤ Q → h.page p = none) (hPQ : P ≤ Q) : b.anchor < P ∨ Q < b.first := by
  have hmapped : ∀ p, b.first ≤ p → p ≤ b.anchor → h.page p ≠ none := by
    intro p h1 h2 hp
    rcases Nat.lt_or_eq_of_le h2 with hlt | rfl
    · obtain ⟨w, hw⟩ := hb.run p h1 hlt
      rw [hp] at hw
      cases hw
    · obtain ⟨w, hw⟩ := hb.count
      rw [hp] at hw
      cases hw
  by_contra hno
  rw [not_or, Nat.not_lt, Nat.not_lt] at hno
  have hfa := b.first_le_anchor
  rcases Nat.le_total P b.first with hle | hle
  · exact hmapped b.first (le_refl _) hfa (hnone _ hle hno.2)
  · exact hmapped P hle hno.1 (hnone _ (le_refl _) hPQ)

/-- Blocks whose pages do not meet are apart. -/
theorem apart_of_pages {b c : Block} (h : c.anchor < b.first ∨ b.anchor < c.first) : Apart b c := by
  have hb := b.end_le
  have hc := c.end_le
  refine ⟨?_, fun p h1 h2 => by omega, fun p h1 h2 => by omega⟩
  have hbv : b.first * PGSIZE ≤ b.v := Nat.div_mul_le_self _ _
  have hcv : c.first * PGSIZE ≤ c.v := Nat.div_mul_le_self _ _
  unfold PGSIZE at *
  omega

/-- The pages after a new run has been allocated and its count set to 2. -/
def newRun (h : Heap) (P k : Nat) : Nat → Option HPage := fun p =>
  if p = P + k then some ⟨false, 2⟩
  else if P ≤ p ∧ p < P + k then some ⟨true, 0⟩ else h.page p

/-- **A new run** of the pages `P` to `P + k`. -/
theorem HeapInv.newRun (hi : HeapInv h live own) (hb : b = ⟨P * PGSIZE, n⟩) (hk : b.anchor = P + k)
    (hnone : ∀ p, P ≤ p → p ≤ P + k → p < mend / PGSIZE ∧ h.page p = none)
    (hP : mbegin / PGSIZE ≤ P) (hfew : live.length + 3 < 2 ^ 32) :
    HeapInv ⟨Malloc.newRun h P k, b.v + b.size⟩ (b :: live)
      (update own (P + k) true) := by
  have hfirst : b.first = P := by
    subst hb
    exact Nat.mul_div_cancel _ (by decide)
  have hv : b.v = P * PGSIZE := by rw [hb]
  have hhi := (hnone (P + k) (by omega) (le_refl _)).1
  have hclear : ∀ c ∈ live, c.anchor < P ∨ P + k < c.first := fun c hc =>
    (hi.placed c hc).clear (fun p h1 h2 => (hnone p h1 h2).2) (by omega)
  have hkeep : ∀ p, p < P ∨ P + k < p → Malloc.newRun h P k p = h.page p := by
    intro p hp
    unfold Malloc.newRun
    rw [if_neg (by omega), if_neg (by omega)]
  have hlast : Malloc.newRun h P k (P + k) = some ⟨false, 2⟩ := if_pos rfl
  have hend := b.end_le
  -- the chunk ends in the last page of the run
  have hpage : (b.v + b.size) / PGSIZE = P + k := by
    rw [← hk]
    have hsz : b.size % 4 = 0 := by
      unfold Block.size
      omega
    unfold Block.anchor PGSIZE
    rw [hv]
    unfold PGSIZE
    omega
  refine ⟨Or.inr ?_, ?_, ?_, ?_, ?_, ?_, by simpa using hfew⟩
  · show mbegin ≤ b.v + b.size ∧ b.v + b.size < mend
    unfold mbegin mend PGSIZE at *
    omega
  · intro c hc
    rcases List.mem_cons.mp hc with rfl | hc
    · refine ⟨?_, by rw [hk]; exact hhi, fun p h1 h2 => ⟨0, ?_⟩, ⟨2, by rw [hk]; exact hlast⟩,
        fun _ => by rw [hv]; exact Nat.mul_mod_left _ _⟩
      · rw [hv]
        rw [pages_eq.1] at hP
        unfold mbegin PGSIZE
        omega
      · rw [hk] at h2
        rw [hfirst] at h1
        show Malloc.newRun h P k p = _
        unfold Malloc.newRun
        rw [if_neg (by omega), if_pos ⟨h1, h2⟩]
    · have hpl := hi.placed c hc
      have hcl := hclear c hc
      have hfa := c.first_le_anchor
      refine ⟨hpl.low, hpl.high, fun p h1 h2 => ?_, ?_, hpl.aligned⟩
      · obtain ⟨w, hw⟩ := hpl.run p h1 h2
        exact ⟨w, (hkeep p (by omega)).trans hw⟩
      · obtain ⟨w, hw⟩ := hpl.count
        exact ⟨w, (hkeep _ (by omega)).trans hw⟩
  · refine List.pairwise_cons.mpr ⟨fun c hc => apart_of_pages ?_, hi.apart⟩
    rw [hfirst, hk]
    exact hclear c hc
  · intro p w h1 h2 hp
    have hp' : Malloc.newRun h P k p = some ⟨false, w⟩ := hp
    rw [List.countP_cons]
    by_cases hpk : p = P + k
    · subst hpk
      rw [hlast] at hp'
      cases hp'
      -- no other block is anchored at a page that was not mapped
      have hzero : live.countP (fun c => c.anchor = P + k) = 0 := by
        rw [List.countP_eq_zero]
        intro c hc hca
        have hcl := hclear c hc
        have hfa := c.first_le_anchor
        have hca' : c.anchor = P + k := by simpa using hca
        omega
      rw [hzero, update_self, if_pos rfl]
      simp [hk]
    · unfold Malloc.newRun at hp'
      rw [if_neg hpk] at hp'
      split at hp'
      · cases hp'
      · have hcount := hi.counts p w h1 h2 hp'
        rw [update_of_ne hpk, if_neg (by simp [hk, Ne.symm hpk])]
        exact hcount
  · intro p hp
    by_cases hpk : p = P + k
    · subst hpk
      exact ⟨by omega, hhi, 2, hlast⟩
    · rw [update_of_ne hpk] at hp
      obtain ⟨h1, h2, w, hw⟩ := hi.owned p hp
      refine ⟨h1, h2, w, ?_⟩
      show Malloc.newRun h P k p = _
      unfold Malloc.newRun
      rw [if_neg hpk, if_neg ?_]
      · exact hw
      · rintro ⟨h3, h4⟩
        rw [(hnone p h3 (by omega)).2] at hw
        cases hw
  · intro _
    rw [hpage, update_self]
    refine ⟨rfl, fun c hc hca => ?_⟩
    rcases List.mem_cons.mp hc with rfl | hc
    · exact le_refl _
    · have hcl := hclear c hc
      have hfa := c.first_le_anchor
      omega

theorem HeapInv.setMptr (hi : HeapInv h live own) (hm : m = 0 ∨ mbegin ≤ m ∧ m < mend)
    (hal : m % PGSIZE = 0) : HeapInv { h with mptr := m } live own := by
  refine ⟨hm, fun b hb => ?_, hi.apart, hi.counts, hi.owned, fun hne => absurd hal hne, hi.few⟩
  have hpl := hi.placed b hb
  exact ⟨hpl.low, hpl.high, hpl.run, hpl.count, hpl.aligned⟩

/-- What a call of `malloc(n)` that returned `v` leaves. -/
def grown (live : List Block) (v n : Nat) : List Block := if v = 0 then live else ⟨v, n⟩ :: live

theorem size_eq (hn : n < MAXMALLOC) : (⟨v, n⟩ : Block).size = roundup4 n := by
  unfold MAXMALLOC at hn
  unfold Block.size roundup4
  dsimp only
  omega

/-- The rest of `malloc` once the search has found the pages `P` to `P + k`. -/
theorem mallocRun_found (mem : Nat → Bool)
    (hsearch : search h n (2 ^ 22) 0 h.mptr = some (.at (P * PGSIZE)))
    (hk : (n + 3) / PGSIZE = k) (hk257 : k < 257) (hP : P + k < 65536)
    (hnone : ∀ p, P ≤ p → p ≤ P + k → h.page p = none) :
    mallocRun mem n h
        = .ok (P * PGSIZE, ⟨Malloc.newRun h P k, (P * PGSIZE + n) % 2 ^ 32⟩) ∨
      (∃ i, mem i = false) ∧ mallocRun mem n h = .ok (0, { h with mptr := P * PGSIZE }) := by
  have hpf : pagesFor n = k + 1 := by
    unfold pagesFor
    rw [hk]
  have halloc := allocFrom_spec (h := { h with mptr := P * PGSIZE }) mem (P := P)
    (n := n) (by omega) (fun p h1 h2 => hnone p h1 (by omega)) 258 0
    (Nat.zero_le _) (by omega)
  rw [fillRun_zero, hpf] at halloc
  unfold mallocRun
  rw [hsearch]
  dsimp only
  rcases halloc with hok | ⟨hmem, hfail⟩
  · have hindex : (P * PGSIZE + PGSIZE * (k + 1) - 4) % 2 ^ 32 / PGSIZE = P + k := by
      unfold PGSIZE
      omega
    have hpage : (fillRun { h with mptr := P * PGSIZE } P (k + 1) (k + 1)).page (P + k)
        = some ⟨false, 0⟩ := by
      unfold fillRun
      dsimp only
      rw [if_pos (by omega), decide_eq_false (by omega)]
    have hpages : update (fillRun { h with mptr := P * PGSIZE } P (k + 1) (k + 1)).page
        (P + k) (some ⟨false, 2⟩) = Malloc.newRun h P k := by
      funext p
      unfold Malloc.newRun
      by_cases hp : p = P + k
      · rw [hp, update_self, if_pos rfl]
      · rw [update_of_ne hp, if_neg hp]
        unfold fillRun
        dsimp only
        by_cases hr : P ≤ p ∧ p < P + k
        · rw [if_pos hr, if_pos (by omega), decide_eq_true (by omega)]
        · rw [if_neg hr, if_neg (by omega)]
    rw [hok]
    dsimp only
    rw [hindex, hpage]
    dsimp only
    unfold Heap.map
    rw [hpages]
    exact Or.inl rfl
  · rw [hfail]
    exact Or.inr ⟨hmem, rfl⟩

/-- **How the last part of `malloc` ends**: with nothing but a new `mptr`, or
with a new run of the pages `P` to `P + k`. -/
theorem mallocRun_cases (hal : h.mptr % PGSIZE = 0) (hlo : mbegin ≤ h.mptr) (hhi : h.mptr < mend)
    (mem : Nat → Bool) (hn : n < MAXMALLOC) (hsz : roundup4 n < MAXMALLOC) :
    (∃ m, mallocRun mem (roundup4 n) h = .ok (0, { h with mptr := m }) ∧ mbegin ≤ m ∧ m < mend ∧
        m % PGSIZE = 0) ∨
      ∃ P k, mallocRun mem (roundup4 n) h
          = .ok (P * PGSIZE, ⟨Malloc.newRun h P k, P * PGSIZE + roundup4 n⟩) ∧
        (⟨P * PGSIZE, n⟩ : Block).anchor = P + k ∧ mbegin / PGSIZE ≤ P ∧
        ∀ p, P ≤ p → p ≤ P + k → p < mend / PGSIZE ∧ h.page p = none := by
  have hbound : 32768 * (1 - 0) + (65536 - h.mptr / PGSIZE) < 2 ^ 22 :=
    lt_of_le_of_lt (Nat.add_le_add_left (Nat.sub_le _ _) _) (by decide)
  rcases search_spec (h := h) (roundup4 n) (2 ^ 22) 0 h.mptr hal hlo hhi (by omega) hbound with
    hno | ⟨m, hm, halm, hlom, hhim, hfree⟩
  · unfold mallocRun
    rw [hno]
    exact Or.inl ⟨mbegin, rfl, le_refl _, by decide, by decide⟩
  · -- the run has the pages `P` to `P + k`
    obtain ⟨P, rfl⟩ : ∃ P, m = P * PGSIZE := ⟨m / PGSIZE, by unfold PGSIZE at *; omega⟩
    obtain ⟨k, hk⟩ : ∃ k, (roundup4 n + 3) / PGSIZE = k := ⟨_, rfl⟩
    have hanchor : (P * PGSIZE + roundup4 n + 3) / PGSIZE = P + k := by
      rw [← hk]
      unfold PGSIZE
      omega
    have hspec := isfree_spec halm hhim hsz hfree
    rw [hanchor, Nat.mul_div_cancel P (by decide)] at hspec
    have htop := (hspec _ (by omega) (le_refl _)).1
    have hloP : mbegin / PGSIZE ≤ P := by
      rw [← Nat.mul_div_cancel P (show 0 < PGSIZE by decide)]
      exact Nat.div_le_div_right hlom
    have hk257 : k < 257 := by
      unfold MAXMALLOC PGSIZE at *
      omega
    rcases mallocRun_found mem hm hk hk257 htop (fun p h1 h2 => (hspec p h1 h2).2) with
      hok | ⟨-, hfail⟩
    · have hmptr : (P * PGSIZE + roundup4 n) % 2 ^ 32 = P * PGSIZE + roundup4 n := by
        unfold mend MAXMALLOC at *
        omega
      rw [hmptr] at hok
      refine Or.inr ⟨P, k, hok, ?_, hloP, hspec⟩
      unfold Block.anchor
      rw [size_eq hn]
      exact hanchor
    · exact Or.inl ⟨_, hfail, hlom, hhim, halm⟩

/-- A block in the heap is not at address 0. -/
theorem grown_run (hP : mbegin / PGSIZE ≤ P) (live : List Block) (n : Nat) :
    grown live (P * PGSIZE) n = ⟨P * PGSIZE, n⟩ :: live := by
  refine if_neg ?_
  rw [pages_eq.1] at hP
  unfold PGSIZE
  omega

theorem mallocRun_spec (hi : HeapInv h live own) (hal : h.mptr % PGSIZE = 0)
    (hlo : mbegin ≤ h.mptr) (hhi : h.mptr < mend) (mem : Nat → Bool)
    (hn : n < MAXMALLOC) (hsz : roundup4 n < MAXMALLOC) (hfew : live.length + 3 < 2 ^ 32) :
    ∃ v h' own', mallocRun mem (roundup4 n) h = .ok (v, h') ∧ HeapInv h' (grown live v n) own' := by
  rcases mallocRun_cases hal hlo hhi mem hn hsz with
    ⟨m, hcall, hm⟩ | ⟨P, k, hcall, hanchor, hloP, hspec⟩
  · exact ⟨0, _, own, hcall, hi.setMptr (Or.inr ⟨hm.1, hm.2.1⟩) hm.2.2⟩
  · have hnew := hi.newRun (n := n) (b := ⟨P * PGSIZE, n⟩) rfl hanchor hspec hloP hfew
    rw [size_eq hn] at hnew
    refine ⟨_, _, update own (P + k) true, hcall, ?_⟩
    rw [grown_run hloP]
    exact hnew

/-! ## §6. A chunk in the page of `mptr`. -/

/-- **A chunk goes into the page `mptr` is in.** -/
theorem HeapInv.inPage (hi : HeapInv h live own) (hne : h.mptr % PGSIZE ≠ 0)
    (hb : b = ⟨h.mptr, n⟩) (hanchor : b.anchor = h.mptr / PGSIZE)
    (hw : h.page (h.mptr / PGSIZE) = some ⟨false, w⟩) (hfew : live.length + 3 < 2 ^ 32) :
    HeapInv ⟨update h.page (h.mptr / PGSIZE) (some ⟨false, w + 1⟩), b.v + b.size⟩
      (b :: live) own := by
  obtain ⟨ho, hend⟩ := hi.current hne
  obtain ⟨hlo, hhi, -⟩ := hi.owned _ ho
  have hv : b.v = h.mptr := by rw [hb]
  have hfirst : b.first = h.mptr / PGSIZE := by
    unfold Block.first
    rw [hv]
  have hlow : mbegin ≤ h.mptr := by
    rcases hi.mptr with h0 | h1
    · rw [h0] at hne
      exact absurd (Nat.zero_mod _) hne
    · exact h1.1
  have hbend := b.end_le
  have hpage : (b.v + b.size) / PGSIZE = h.mptr / PGSIZE := by
    unfold PGSIZE at *
    omega
  generalize hP : h.mptr / PGSIZE = P at *
  have hcont : ∀ p x, h.page p = some ⟨true, x⟩ → p ≠ P := by
    rintro p x hp rfl
    rw [hw] at hp
    cases hp
  have hother : ∀ p, p ≠ P →
      update h.page P (some ⟨false, w + 1⟩) p = h.page p :=
    fun p hp => update_of_ne hp _ _
  refine ⟨Or.inr ?_, ?_, ?_, ?_, ?_, ?_, by simpa using hfew⟩
  · show mbegin ≤ b.v + b.size ∧ b.v + b.size < mend
    unfold mend PGSIZE at *
    omega
  · intro c hc
    rcases List.mem_cons.mp hc with rfl | hc
    · refine ⟨by rw [hv]; exact hlow, by rw [hanchor]; exact hhi, fun p h1 h2 => ?_, ⟨w + 1, ?_⟩,
        fun hlt => ?_⟩
      · omega
      · rw [hanchor]
        exact update_self _ _ _
      · rw [hfirst, hanchor] at hlt
        exact absurd hlt (lt_irrefl _)
    · have hpl := hi.placed c hc
      refine ⟨hpl.low, hpl.high, fun p h1 h2 => ?_, ?_, hpl.aligned⟩
      · obtain ⟨x, hx⟩ := hpl.run p h1 h2
        exact ⟨x, (hother p (hcont p x hx)).trans hx⟩
      · by_cases hca : c.anchor = P
        · exact ⟨w + 1, by rw [hca]; exact update_self _ _ _⟩
        · obtain ⟨x, hx⟩ := hpl.count
          exact ⟨x, (hother _ hca).trans hx⟩
  · refine List.pairwise_cons.mpr ⟨fun c hc => ?_, hi.apart⟩
    have hpl := hi.placed c hc
    -- a block that has the page as part of its run would have it marked
    have hrun : ¬ (c.first ≤ P ∧ P < c.anchor) := by
      rintro ⟨h1, h2⟩
      obtain ⟨x, hx⟩ := hpl.run P h1 h2
      exact hcont P x hx rfl
    by_cases hca : c.anchor = P
    · refine ⟨Or.inr (Or.inl (by rw [hv]; exact hend c hc hca)), fun p h1 h2 => ?_,
        fun p h1 h2 => ?_⟩
      · omega
      · omega
    · apply apart_of_pages
      omega
  · intro p x h1 h2 hp
    have hp' : update h.page P (some ⟨false, w + 1⟩) p = some ⟨false, x⟩ := hp
    rw [List.countP_cons]
    by_cases hpP : p = P
    · subst hpP
      rw [update_self] at hp'
      cases hp'
      have hcount := hi.counts p w h1 h2 hw
      rw [if_pos (by simp [hanchor])]
      omega
    · rw [hother p hpP] at hp'
      rw [if_neg (by simp [hanchor, Ne.symm hpP])]
      exact hi.counts p x h1 h2 hp'
  · intro p hp
    obtain ⟨h1, h2, x, hx⟩ := hi.owned p hp
    refine ⟨h1, h2, ?_⟩
    by_cases hpP : p = P
    · exact ⟨w + 1, by rw [hpP]; exact update_self _ _ _⟩
    · exact ⟨x, (hother p hpP).trans hx⟩
  · intro _
    rw [hpage]
    refine ⟨ho, fun c hc hca => ?_⟩
    rcases List.mem_cons.mp hc with rfl | hc
    · exact le_refl _
    · have hle := hend c hc hca
      show c.v + c.size ≤ b.v + b.size
      omega

/-- `mptr` is not in the last page of the heap with no room there for `n` bytes. -/
def LastPageOk (h : Heap) (n : Nat) : Prop :=
  h.mptr % PGSIZE ≠ 0 → h.mptr / PGSIZE + 1 = mend / PGSIZE → fits h.mptr (roundup4 n) = true

/-- The first call sets `mptr`. -/
theorem HeapInv.start (hi : HeapInv h live own) : HeapInv h.start live own ∧
    (h.start.mptr % PGSIZE ≠ 0 → h.start = h) ∧ (h.mptr % PGSIZE ≠ 0 → h.start = h) ∧
    mbegin ≤ h.start.mptr ∧ h.start.mptr < mend := by
  by_cases h0 : h.mptr = 0
  · have hstart : h.start = { h with mptr := mbegin } := if_pos h0
    rw [hstart, h0]
    exact ⟨hi.setMptr (Or.inr ⟨le_refl _, by decide⟩) (by decide),
      fun hne => absurd (show mbegin % PGSIZE = 0 by decide) hne,
      fun hne => absurd (Nat.zero_mod _) hne, le_refl _, show mbegin < mend by decide⟩
  · rw [start_of_ne h0]
    exact ⟨hi, fun _ => rfl, fun _ => rfl, hi.mptr.resolve_left h0⟩

/-- What a call of `malloc(n)` comes to. -/
inductive MallocCase (mem : Nat → Bool) (n : Nat) (h : Heap) : Prop where
  | refused (hbig : MAXMALLOC ≤ roundup4 n) (hcall : malloc mem n h = .ok (0, h.start))
  /-- The chunk goes into the page of `mptr`. -/
  | inPage {w : Nat} (hne : h.mptr % PGSIZE ≠ 0) (hm0 : h.mptr ≠ 0)
      (hanchor : (⟨h.mptr, n⟩ : Block).anchor = h.mptr / PGSIZE)
      (hw : h.page (h.mptr / PGSIZE) = some ⟨false, w⟩)
      (hcall : malloc mem n h = .ok (h.mptr, ⟨update h.page (h.mptr / PGSIZE)
        (some ⟨false, w + 1⟩), h.mptr + (⟨h.mptr, n⟩ : Block).size⟩))
  /-- `mptr` leaves its page, for the boundary `m`. -/
  | leave {h' : Heap} {m : Nat} (hsz : roundup4 n < MAXMALLOC) (hne : h.mptr % PGSIZE ≠ 0)
      (hfit : ¬ fits h.mptr (roundup4 n) = true) (hfree : free h.mptr h = .ok h')
      (hm : mbegin ≤ m ∧ m < mend) (hal : m % PGSIZE = 0)
      (hcall : malloc mem n h = mallocRun mem (roundup4 n) { h' with mptr := m })
  | aligned (hsz : roundup4 n < MAXMALLOC) (hal : h.mptr % PGSIZE = 0)
      (hal' : h.start.mptr % PGSIZE = 0)
      (hcall : malloc mem n h = mallocRun mem (roundup4 n) h.start)

theorem anchor_of_fits (hn : n < MAXMALLOC) (hhi : h.mptr < mend)
    (hfit : fits h.mptr (roundup4 n) = true) (hm0 : h.mptr ≠ 0) :
    (⟨h.mptr, n⟩ : Block).anchor = h.mptr / PGSIZE := by
  have hsz := size_eq (v := h.mptr) hn
  have hround : roundup4 n < MAXMALLOC + 4 := by
    unfold roundup4 MAXMALLOC at *
    omega
  unfold fits at hfit
  rw [beq_iff_eq] at hfit
  unfold Block.anchor
  rw [hsz, hfit]
  congr 1
  unfold mend MAXMALLOC at *
  show h.mptr + roundup4 n + 3 = _
  omega

/-- **The branches of `malloc`**, with the heap's invariant. -/
theorem HeapInv.malloc_cases (hi : HeapInv h live own) (mem : Nat → Bool)
    (hn : n < MAXMALLOC) (hok : LastPageOk h n) : MallocCase mem n h := by
  obtain ⟨-, hsame, hsame', hlo, hhi⟩ := hi.start
  by_cases hbig : MAXMALLOC ≤ roundup4 n
  · refine .refused hbig ?_
    unfold Malloc.malloc
    rw [if_pos hbig]
  by_cases hne : h.mptr % PGSIZE ≠ 0
  · have hstart := hsame' hne
    rw [hstart] at hlo hhi
    obtain ⟨ho, -⟩ := hi.current hne
    obtain ⟨hloP, hhiP, w, hw⟩ := hi.owned _ ho
    have hm0 : h.mptr ≠ 0 := by
      unfold mbegin at hlo
      omega
    by_cases hfit : fits h.mptr (roundup4 n) = true
    · have hlt := hi.count_lt hloP hhiP hw
      refine .inPage hne hm0 (anchor_of_fits hn hhi hfit hm0) hw ?_
      have hmptr : (h.mptr + roundup4 n) % 2 ^ 32 = h.mptr + roundup4 n := by
        unfold mend MAXMALLOC at *
        omega
      unfold Malloc.malloc
      rw [hstart]
      rw [if_neg hbig, if_pos hne, if_pos hfit, hw, size_eq hn]
      dsimp only
      rw [hmptr, Nat.mod_eq_of_lt hlt]
      rfl
    · obtain ⟨h', hfree, hmp, -⟩ := hi.leave hne
      -- the next page is still in the heap
      have hpage : h.mptr / PGSIZE + 1 < mend / PGSIZE := by
        have hno : h.mptr / PGSIZE + 1 ≠ mend / PGSIZE := fun hlast => hfit (hok hne hlast)
        omega
      have hnext : (h'.mptr + PGSIZE) % 2 ^ 32 / PGSIZE * PGSIZE = (h.mptr / PGSIZE + 1) *
        PGSIZE := by
        unfold mend PGSIZE at *
        omega
      have hrange : mbegin ≤ (h.mptr / PGSIZE + 1) * PGSIZE ∧
          (h.mptr / PGSIZE + 1) * PGSIZE < mend := by
        unfold mbegin mend PGSIZE at *
        omega
      refine .leave (Nat.not_le.mp hbig) hne hfit hfree hrange (Nat.mul_mod_left _ _) ?_
      unfold Malloc.malloc
      rw [hstart]
      rw [if_neg hbig, if_pos hne, if_neg hfit, hfree]
      dsimp only
      rw [hnext]
  · have hal' : h.start.mptr % PGSIZE = 0 := by
      by_contra hne'
      exact hne (hsame hne' ▸ hne')
    refine .aligned (Nat.not_le.mp hbig) (not_not.mp hne) hal' ?_
    unfold Malloc.malloc
    rw [if_neg hbig, if_neg (not_not.mpr hal')]

/-- **`malloc` returns**, and its block is in place. -/
theorem HeapInv.malloc (hi : HeapInv h live own) (mem : Nat → Bool) (hn : n < MAXMALLOC)
    (hok : LastPageOk h n) (hfew : live.length + 3 < 2 ^ 32) :
    ∃ v h' own', malloc mem n h = .ok (v, h') ∧ HeapInv h' (grown live v n) own' := by
  obtain ⟨hstart, -, -, hlo, hhi⟩ := hi.start
  cases hi.malloc_cases mem hn hok with
  | refused hbig hcall => exact ⟨0, h.start, own, hcall, hstart⟩
  | inPage hne hm0 hanchor hw hcall =>
    refine ⟨h.mptr, _, own, hcall, ?_⟩
    rw [show grown live h.mptr n = ⟨h.mptr, n⟩ :: live from if_neg hm0]
    exact hi.inPage hne rfl hanchor hw hfew
  | leave hsz hne hfit hfree hm hal hcall =>
    obtain ⟨g, hfree', -, -, hleft⟩ := hi.leave hne
    obtain rfl := Except.ok.inj (hfree.symm.trans hfree')
    rw [hcall]
    exact mallocRun_spec (hleft _ (Or.inr hm) hal) hal hm.1 hm.2 mem hn hsz hfew
  | aligned hsz hal hal' hcall =>
    rw [hcall]
    exact mallocRun_spec hstart hal' hlo hhi mem hn hsz hfew

/-! ## §7. Runs. -/

structure HeapSys where
  heap : Heap
  live : List Block

/-- The steps of the program; `ok` is required of a call of `malloc`. -/
inductive HeapStep (ok : HeapSys → Nat → Prop) (g : HeapSys) : HeapSys → Prop where
  | malloc {n v : Nat} {h' : Heap} (mem : Nat → Bool) (hn : n < MAXMALLOC) (hok : ok g n)
      (hcall : Malloc.malloc mem n g.heap = .ok (v, h')) : HeapStep ok g ⟨h', grown g.live v n⟩
  | free {b : Block} {h' : Heap} (hb : b ∈ g.live) (hcall : Malloc.free b.v g.heap = .ok h') :
      HeapStep ok g ⟨h', g.live.erase b⟩
  /-- The program stores into a block, and the last word of page `p` lies in it. -/
  | store {b : Block} {p : Nat} {x : HPage} (w : Nat) (hb : b ∈ g.live)
      (hp : g.heap.page p = some x) (hlo : b.v < (p + 1) * PGSIZE)
      (hhi : (p + 1) * PGSIZE < b.v + b.size + 4) :
      HeapStep ok g ⟨g.heap.map p { x with last := w }, g.live⟩

/-- What the heap promises about its live blocks. -/
structure Safe (g : HeapSys) : Prop where
  inside : ∀ b ∈ g.live, mbegin ≤ b.v ∧ b.v + b.n ≤ mend
  mapped : ∀ b ∈ g.live, ∀ a, b.v ≤ a → a < b.v + b.n → (g.heap.page (a / PGSIZE)).isSome
  disjoint : g.live.Pairwise fun b c =>
    ∀ a, b.v ≤ a → a < b.v + b.n → ¬ (c.v ≤ a ∧ a < c.v + c.n)
  counts : ∀ b ∈ g.live, ∀ p w, mbegin / PGSIZE ≤ p → p < mend / PGSIZE →
    g.heap.page p = some ⟨false, w⟩ →
    ∀ a, b.v ≤ a → a < b.v + b.n → ¬ (p * PGSIZE + 4092 ≤ a ∧ a < (p + 1) * PGSIZE)

theorem Block.n_le_size (b : Block) : b.n ≤ b.size := by
  unfold Block.size
  omega

theorem HeapInv.safe (hi : HeapInv h live own) : Safe ⟨h, live⟩ := by
  -- an address of a block lies in one of its pages, and not in the last word of `anchor`
  have hin : ∀ b ∈ live, ∀ a, b.v ≤ a → a < b.v + b.n →
      b.first ≤ a / PGSIZE ∧ a / PGSIZE ≤ b.anchor ∧ a + 4 < (b.anchor + 1) * PGSIZE := by
    intro b _ a h1 h2
    have hsz := b.n_le_size
    have hend := b.end_le
    refine ⟨Nat.div_le_div_right h1, ?_, by omega⟩
    have hlt : a < (b.anchor + 1) * PGSIZE := by omega
    exact Nat.le_of_lt_succ ((Nat.div_lt_iff_lt_mul (by decide)).mpr hlt)
  refine ⟨fun b hb => ?_, fun b hb a h1 h2 => ?_, ?_, fun b hb p w hlo hhi hp a h1 h2 hno => ?_⟩
  · have hpl := hi.placed b hb
    have hsz := b.n_le_size
    have hend := b.end_le
    have hhigh := hpl.high
    refine ⟨hpl.low, ?_⟩
    unfold mend PGSIZE at *
    omega
  · have hpl := hi.placed b hb
    obtain ⟨hf, ha, -⟩ := hin b hb a h1 h2
    rcases Nat.lt_or_eq_of_le ha with hlt | heq
    · obtain ⟨w, hw⟩ := hpl.run _ hf hlt
      rw [hw]
      rfl
    · obtain ⟨w, hw⟩ := hpl.count
      rw [heq, hw]
      rfl
  · refine hi.apart.imp fun {b c} hap a h1 h2 h3 => ?_
    have hb := b.n_le_size
    have hc := c.n_le_size
    have := hap.bytes
    omega
  · have hpl := hi.placed b hb
    obtain ⟨hf, ha, hend⟩ := hin b hb a h1 h2
    have hpa : a / PGSIZE = p := by
      unfold PGSIZE at *
      omega
    rw [hpa] at hf ha
    rcases Nat.lt_or_eq_of_le ha with hlt | heq
    · obtain ⟨x, hx⟩ := hpl.run p hf hlt
      rw [hp] at hx
      cases hx
    · unfold PGSIZE at *
      omega

/-- A store into a block does not touch a count. -/
theorem HeapInv.store (hi : HeapInv h live own) {x : HPage} (hb : b ∈ live)
    (hp : h.page p = some x) (hlo : b.v < (p + 1) * PGSIZE)
    (hhi : (p + 1) * PGSIZE < b.v + b.size + 4) :
    HeapInv (h.map p { x with last := w }) live own := by
  have hpl := hi.placed b hb
  have hend := b.end_le
  have hrun : ∃ y, h.page p = some ⟨true, y⟩ := by
    refine hpl.run p ?_ ?_
    · exact Nat.le_of_lt_succ ((Nat.div_lt_iff_lt_mul (by decide)).mpr hlo)
    · have hlt : (p + 1) * PGSIZE < (b.anchor + 1) * PGSIZE := lt_of_lt_of_le hhi hend
      exact Nat.lt_of_succ_lt_succ (Nat.lt_of_mul_lt_mul_right hlt)
  obtain ⟨y, hy⟩ := hrun
  obtain rfl := Option.some.inj (hp.symm.trans hy)
  have hself : (h.map p ⟨true, w⟩).page p = some ⟨true, w⟩ := update_self _ _ _
  have hother : ∀ q, q ≠ p → (h.map p ⟨true, w⟩).page q = h.page q :=
    fun q hq => update_of_ne hq _ _
  have hfalse : ∀ q z, (h.map p ⟨true, w⟩).page q = some ⟨false, z⟩ ↔
    h.page q = some ⟨false, z⟩ := by
    intro q z
    by_cases hq : q = p
    · subst hq
      rw [hself, hy]
      simp
    · rw [hother q hq]
  refine ⟨hi.mptr, fun c hc => ?_, hi.apart, fun q z h1 h2 hq => ?_, fun q hq => ?_, hi.current,
    hi.few⟩
  · have hplc := hi.placed c hc
    refine ⟨hplc.low, hplc.high, fun q h1 h2 => ?_, ?_, hplc.aligned⟩
    · by_cases hq : q = p
      · exact ⟨w, by rw [hq]; exact hself⟩
      · rw [hother q hq]
        exact hplc.run q h1 h2
    · obtain ⟨z, hz⟩ := hplc.count
      exact ⟨z, (hfalse _ _).mpr hz⟩
  · exact hi.counts q z h1 h2 ((hfalse _ _).mp hq)
  · obtain ⟨h1, h2, z, hz⟩ := hi.owned q hq
    exact ⟨h1, h2, z, (hfalse _ _).mpr hz⟩

/-- Before a call of `malloc(n)`: `mptr` is not in the last page of the heap
without room for the chunk, and the counts cannot overflow. -/
def MallocOk (g : HeapSys) (n : Nat) : Prop := LastPageOk g.heap n ∧ g.live.length + 3 < 2 ^ 32

/-- Before the first call; nothing is mapped in `[mbegin, mend)`. -/
structure HeapStart (g : HeapSys) : Prop where
  mptr : g.heap.mptr = 0
  pages : ∀ p, mbegin / PGSIZE ≤ p → p < mend / PGSIZE → g.heap.page p = none
  live : g.live = []

/-- **The heap is safe**, in every state of every run whose calls of `malloc` all
meet `MallocOk`; and there `free` of a live block, and `malloc` if it meets the
condition, return, with whatever memory there is. -/
theorem heap_safe {g₀ g : HeapSys} (h₀ : HeapStart g₀)
    (hrun : Relation.ReflTransGen (HeapStep MallocOk) g₀ g) :
    Safe g ∧ (∀ b ∈ g.live, ∃ h', Malloc.free b.v g.heap = .ok h') ∧
      ∀ n mem, n < MAXMALLOC → MallocOk g n → ∃ v h', Malloc.malloc mem n g.heap = .ok (v, h') := by
  have hinv : ∃ own, HeapInv g.heap g.live own := by
    induction hrun with
    | refl =>
      refine ⟨fun _ => false, Or.inl h₀.mptr, ?_, ?_, ?_, (fun p hp => by cases hp), ?_, ?_⟩
      · rw [h₀.live]
        exact fun b hb => by cases hb
      · rw [h₀.live]
        exact List.Pairwise.nil
      · intro p w h1 h2 hp
        rw [h₀.pages p h1 h2] at hp
        cases hp
      · rw [h₀.mptr]
        exact fun hne => absurd (Nat.zero_mod _) hne
      · rw [h₀.live]
        decide
    | tail _ hstep ih =>
      obtain ⟨own, hi⟩ := ih
      cases hstep with
      | malloc mem hn hok hcall =>
        obtain ⟨v', h', own', hcall', hi'⟩ := hi.malloc mem hn hok.1 hok.2
        rw [hcall] at hcall'
        cases hcall'
        exact ⟨own', hi'⟩
      | free hb hcall =>
        obtain ⟨h', hcall', hi'⟩ := hi.free hb
        rw [hcall] at hcall'
        cases hcall'
        exact ⟨own, hi'⟩
      | store w hb hp hlo hhi => exact ⟨own, hi.store hb hp hlo hhi⟩
  obtain ⟨own, hi⟩ := hinv
  refine ⟨hi.safe, fun b hb => ?_, fun n mem hn hok => ?_⟩
  · obtain ⟨h', hcall, -⟩ := hi.free hb
    exact ⟨h', hcall⟩
  · obtain ⟨v, h', -, hcall, -⟩ := hi.malloc mem hn hok.1 hok.2
    exact ⟨v, h', hcall⟩

end

/-- A program before its first `malloc`. -/
def noHeap : HeapSys := ⟨⟨fun _ => none, 0⟩, []⟩

theorem noHeap_start : HeapStart noHeap := ⟨rfl, fun _ _ _ => rfl, rfl⟩

/-- One `malloc(100)`. -/
theorem heap_safe_first : ∃ v h', Malloc.malloc (fun _ => true) 100 noHeap.heap = .ok (v, h') ∧
    Safe ⟨h', grown [] v 100⟩ := by
  have hok : MallocOk noHeap 100 := ⟨fun hne => absurd rfl hne, by decide⟩
  obtain ⟨v, h', hcall⟩ := (heap_safe noHeap_start .refl).2.2 100 (fun _ => true) (by decide) hok
  have hrun : Relation.ReflTransGen (HeapStep MallocOk) noHeap ⟨h', grown [] v 100⟩ :=
    .single (.malloc (fun _ => true) (by decide) hok hcall)
  exact ⟨v, h', hcall, (heap_safe noHeap_start hrun).1⟩

/-! ## §8. The end of the heap. -/

section

variable {h : Heap}

/-- `isfree` of unmapped pages below `mend`. -/
theorem isfreeFrom_true {e : Nat} (he : e ≤ mend) (k : Nat) : ∀ va,
    (∀ p, va / PGSIZE ≤ p → p * PGSIZE < e → h.page p = none) → isfreeFrom h e k va = true := by
  induction k with
  | zero => exact fun _ _ => rfl
  | succ k ih =>
    intro va hnone
    unfold isfreeFrom
    by_cases hlt : va < e
    · have hp : h.page (va / PGSIZE) = none :=
        hnone _ (le_refl _) (lt_of_le_of_lt (Nat.div_mul_le_self _ _) hlt)
      rw [if_pos hlt, if_neg (by rw [hp]; simp; omega)]
      apply ih
      intro p h1 h2
      refine hnone p ?_ h2
      unfold mend PGSIZE at *
      omega
    · rw [if_neg hlt]

/-- Above `mend` nothing is free, and the search goes on to address 0. -/
theorem search_wraps (j : Nat) (hj : j ≤ 983040) :
    search h 4 (k + j) 0 ((2 ^ 32 - j * PGSIZE) % 2 ^ 32) = search h 4 k 0 0 := by
  induction j with
  | zero => rfl
  | succ j ih =>
    have hmod : (2 ^ 32 - (j + 1) * PGSIZE) % 2 ^ 32 = 2 ^ 32 - (j + 1) * PGSIZE := by
      unfold PGSIZE
      omega
    have hnext : (2 ^ 32 - (j + 1) * PGSIZE + PGSIZE) % 2 ^ 32 = (2 ^ 32 - j * PGSIZE) % 2 ^ 32 :=
      by
      unfold PGSIZE
      omega
    have hbusy : isfree h (2 ^ 32 - (j + 1) * PGSIZE) (4 + 4) = false := by
      unfold isfree isfreeFrom
      rw [if_pos (by unfold PGSIZE; omega), if_pos (Or.inl (by unfold mend PGSIZE; omega))]
    have hne : (2 ^ 32 - j * PGSIZE) % 2 ^ 32 ≠ mend := by
      unfold mend PGSIZE
      omega
    have hstep : search h 4 (k + j + 1) 0 (2 ^ 32 - (j + 1) * PGSIZE)
        = search h 4 (k + j) 0 ((2 ^ 32 - j * PGSIZE) % 2 ^ 32) := by
      conv_lhs => unfold search
      rw [hbusy, hnext, if_neg (by decide), if_neg hne]
    rw [hmod, ← Nat.add_assoc, hstep]
    exact ih (by omega)

/-- The first `i` megabytes of the heap are taken, and `mptr` is at the count of
the last page. -/
structure Filled (i : Nat) (g : HeapSys) : Prop where
  inv : ∃ own, HeapInv g.heap g.live own
  mptr : g.heap.mptr = (if i = 0 then 0 else mbegin + i * 1048576 - 4)
  live : g.live.length = i
  rest : ∀ p, 32768 + 256 * i ≤ p → p < 65536 → g.heap.page p = none
  outside : ∀ p, p < 32768 → g.heap.page p = none

/-- The allocation part, from the start of an unmapped megabyte. -/
theorem mallocRun_megabyte {i : Nat} (hi : i < 128) (hm : h.mptr = mbegin + i * 1048576)
    (hnone : ∀ p, 32768 + 256 * i ≤ p → p < 65536 → h.page p = none) :
    ∃ h', mallocRun (fun _ => true) 1048572 h = .ok (mbegin + i * 1048576, h') ∧
      h'.mptr = mbegin + (i + 1) * 1048576 - 4 ∧
      ∀ p, p < 32768 + 256 * i ∨ 32768 + 256 * (i + 1) ≤ p → h'.page p = h.page p := by
  have hP : mbegin + i * 1048576 = (32768 + 256 * i) * PGSIZE := by
    unfold mbegin PGSIZE
    omega
  have hfree : isfree h ((32768 + 256 * i) * PGSIZE) (1048572 + 4) = true := by
    unfold isfree
    apply isfreeFrom_true (by unfold mend PGSIZE; omega)
    intro p h1 h2
    unfold PGSIZE at *
    exact hnone p (by omega) (by omega)
  have hsearch : search h 1048572 (2 ^ 22) 0 h.mptr = some (.at ((32768 + 256 * i) * PGSIZE)) := by
    rw [hm, hP, show 2 ^ 22 = (2 ^ 22 - 1) + 1 from rfl]
    unfold search
    rw [if_pos hfree]
  rcases mallocRun_found (fun _ => true) hsearch (k := 255) (by unfold PGSIZE; omega)
    (by omega) (by omega) (fun p h1 h2 => hnone p h1 (by omega)) with hok | ⟨⟨j, hj⟩, -⟩
  · rw [← hP] at hok
    refine ⟨_, hok, ?_, fun p hp => ?_⟩
    · unfold mbegin
      dsimp only
      omega
    · unfold newRun
      dsimp only
      rw [if_neg (by omega), if_neg (by omega)]
  · cases hj

end

/-- **One more megabyte.** -/
theorem Filled.step {i : Nat} {g : HeapSys} (hf : Filled i g) (hi : i < 128) :
    ∃ g', HeapStep (fun _ _ => True) g g' ∧ Filled (i + 1) g' := by
  obtain ⟨own, hinv⟩ := hf.inv
  have hn : (1048572 : Nat) < MAXMALLOC := by decide
  have hr : roundup4 1048572 = 1048572 := by decide
  have hlen := hf.live
  -- it is enough to follow the call
  have hfinish : ∀ h', Malloc.malloc (fun _ => true) 1048572 g.heap
      = .ok (mbegin + i * 1048576, h') → h'.mptr = mbegin + (i + 1) * 1048576 - 4 →
      (∀ p, p < 32768 ∨ 32768 + 256 * (i + 1) ≤ p → h'.page p = g.heap.page p) →
      ∃ g', HeapStep (fun _ _ => True) g g' ∧ Filled (i + 1) g' := by
    intro h' hcall hm hpages
    have hok : LastPageOk g.heap 1048572 := by
      intro hne hlast
      rw [hf.mptr] at hne hlast
      rw [pages_eq.2] at hlast
      split at hlast
      · exact absurd hlast (by decide)
      · exfalso
        unfold mbegin PGSIZE at hlast
        omega
    obtain ⟨v', h'', own', hcall', hinv'⟩ := hinv.malloc (fun _ => true) hn hok (by omega)
    rw [hcall] at hcall'
    cases hcall'
    have hgrown : grown g.live (mbegin + i * 1048576) 1048572
        = ⟨mbegin + i * 1048576, 1048572⟩ :: g.live := if_neg (by unfold mbegin; omega)
    refine ⟨_, .malloc (fun _ => true) hn trivial hcall, ⟨own', hinv'⟩, ?_, ?_, ?_, ?_⟩
    · rw [if_neg (Nat.succ_ne_zero i)]
      exact hm
    · rw [hgrown, List.length_cons, hlen]
    · intro p h1 h2
      rw [hpages p (Or.inr h1)]
      exact hf.rest p (by omega) h2
    · intro p hp
      rw [hpages p (Or.inl hp)]
      exact hf.outside p hp
  by_cases h0 : i = 0
  · subst h0
    have hm0 : g.heap.mptr = 0 := hf.mptr
    obtain ⟨h', hcall, hm, hpages⟩ := mallocRun_megabyte (h := { g.heap with mptr := mbegin })
      hi rfl hf.rest
    refine hfinish h' ?_ hm (fun p hp => hpages p (by omega))
    unfold Malloc.malloc Heap.start
    rw [if_pos hm0, hr, if_neg (by decide), if_neg (show ¬ mbegin % PGSIZE ≠ 0 by decide)]
    exact hcall
  · have hm0 : g.heap.mptr = mbegin + i * 1048576 - 4 := by rw [hf.mptr, if_neg h0]
    have hne : g.heap.mptr % PGSIZE ≠ 0 := by
      rw [hm0]
      unfold mbegin PGSIZE
      omega
    have hfit : fits g.heap.mptr 1048572 = false := by
      rw [hm0]
      unfold fits mbegin PGSIZE
      rw [beq_eq_false_iff_ne]
      omega
    obtain ⟨h₁, hfree, hmp, hsame, -⟩ := hinv.leave hne
    have hpg : g.heap.mptr / PGSIZE = 32768 + 256 * i - 1 := by
      rw [hm0]
      unfold mbegin PGSIZE
      omega
    have hnext : (h₁.mptr + PGSIZE) % 2 ^ 32 / PGSIZE * PGSIZE = mbegin + i * 1048576 := by
      rw [hmp, hm0]
      unfold mbegin PGSIZE
      omega
    obtain ⟨h', hcall, hm, hpages⟩ := mallocRun_megabyte
      (h := { h₁ with mptr := (h₁.mptr + PGSIZE) % 2 ^ 32 / PGSIZE * PGSIZE }) hi hnext
      (fun p h1 h2 => (hsame p (by omega)).trans (hf.rest p h1 h2))
    refine hfinish h' ?_ hm (fun p hp => ?_)
    · have hnz : g.heap.mptr ≠ 0 := fun hz => hne (by rw [hz]; rfl)
      unfold Malloc.malloc
      rw [start_of_ne hnz]
      rw [hr, if_neg (by decide), if_pos hne, if_neg (by rw [hfit]; decide), hfree]
      exact hcall
    · rw [hpages p (by omega)]
      exact hsame p (by omega)

theorem filled_run (i : Nat) (hi : i ≤ 128) :
    ∃ g, Relation.ReflTransGen (HeapStep (fun _ _ => True)) noHeap g ∧ Filled i g := by
  induction i with
  | zero =>
    refine ⟨noHeap, .refl, ⟨⟨fun _ => false, Or.inl rfl, ?_, ?_, ?_, ?_, ?_, ?_⟩, rfl, rfl,
      fun _ _ _ => rfl, fun _ _ => rfl⟩⟩
    · exact fun b hb => by cases hb
    · exact List.Pairwise.nil
    · exact fun p w _ _ hp => by cases hp
    · exact fun p hp => by cases hp
    · exact fun hne => absurd rfl hne
    · decide
  | succ i ih =>
    obtain ⟨g, hrun, hf⟩ := ih (by omega)
    obtain ⟨g', hstep, hf'⟩ := hf.step (by omega)
    exact ⟨g', hrun.tail hstep, hf'⟩

/-- **The heap runs over its end**: after 128 blocks of `0xFFFFC` bytes and
`malloc(4)`, which returns 0 but leaves `mptr == 4`, a second `malloc(4)` returns
address 4. -/
theorem malloc_leaves_heap : ∃ g, HeapStart noHeap ∧
    Relation.ReflTransGen (HeapStep (fun _ _ => True)) noHeap g ∧ ¬ Safe g := by
  obtain ⟨g, hrun, hf⟩ := filled_run 128 (le_refl _)
  obtain ⟨own, hinv⟩ := hf.inv
  have hm0 : g.heap.mptr = 0x0FFFFFFC := hf.mptr
  have hne : g.heap.mptr % PGSIZE ≠ 0 := by
    rw [hm0]
    decide
  obtain ⟨h₁, hfree, hmp, hsame, -⟩ := hinv.leave hne
  have hzero : h₁.page 0 = none := by
    rw [hsame 0 (by rw [hm0]; decide)]
    exact hf.outside 0 (by omega)
  -- the search starts at `mend` and ends at 0
  have hsearch : search { h₁ with mptr := mend } 4 (2 ^ 22) 0 mend = some (.at (0 * PGSIZE)) := by
    have hwrap := search_wraps (h := { h₁ with mptr := mend }) (k := 3211263 + 1) 983040
      (le_refl _)
    have hsum : 3211263 + 1 + 983040 = 2 ^ 22 := by norm_num
    have hmend : (2 ^ 32 - 983040 * PGSIZE) % 2 ^ 32 = mend := by
      unfold PGSIZE mend
      norm_num
    rw [hsum, hmend] at hwrap
    rw [hwrap, Nat.zero_mul]
    unfold search
    have hfree0 : isfree { h₁ with mptr := mend } 0 (4 + 4) = true := by
      apply isfreeFrom_true (by decide)
      intro p _ hp
      obtain rfl : p = 0 := by
        unfold PGSIZE at hp
        omega
      exact hzero
    rw [if_pos hfree0]
  -- `malloc(4)` takes page 0 and returns its address, which is 0
  have hfirst : Malloc.malloc (fun _ => true) 4 g.heap
      = .ok (0, ⟨newRun { h₁ with mptr := mend } 0 0, 4⟩) := by
    have hnext : (h₁.mptr + PGSIZE) % 2 ^ 32 / PGSIZE * PGSIZE = mend := by
      rw [hmp, hm0]
      rfl
    have hfit : fits g.heap.mptr 4 = false := by
      rw [hm0]
      rfl
    rcases mallocRun_found (fun _ => true) (h := { h₁ with mptr := mend }) (P := 0) (k := 0)
      hsearch (by decide) (by omega) (by omega)
      (fun p _ h2 => by rw [show p = 0 by omega]; exact hzero) with hok | ⟨⟨j, hj⟩, -⟩
    · unfold Malloc.malloc
      rw [start_of_ne (by rw [hm0]; decide)]
      rw [show roundup4 4 = 4 from rfl, if_neg (by decide), if_pos hne,
        if_neg (by rw [hfit]; decide),
        hfree]
      dsimp only
      rw [hnext, hok]
      rfl
    · cases hj
  -- the next one returns 4
  have hsecond : ∃ h', Malloc.malloc (fun _ => true) 4 ⟨newRun { h₁ with mptr := mend } 0 0, 4⟩
      = .ok (4, h') := by
    unfold Malloc.malloc
    rw [start_of_ne (show (4 : Nat) ≠ 0 by decide)]
    dsimp only
    rw [show roundup4 4 = 4 from rfl, if_neg (by decide), if_pos (by decide),
      if_pos (show fits 4 4 = true by rfl),
      show newRun { h₁ with mptr := mend } 0 0 (4 / PGSIZE) = some ⟨false, 2⟩ from rfl]
    exact ⟨_, rfl⟩
  obtain ⟨h', hsecond⟩ := hsecond
  have hlive : ∃ g', Relation.ReflTransGen (HeapStep (fun _ _ => True)) noHeap g' ∧
      ⟨4, 4⟩ ∈ g'.live :=
    ⟨_, (hrun.tail (.malloc (fun _ => true) (by decide) trivial hfirst)).tail
      (.malloc (fun _ => true) (by decide) trivial hsecond), List.mem_cons_self⟩
  obtain ⟨g', hrun', hmem⟩ := hlive
  refine ⟨g', noHeap_start, hrun', fun hsafe => ?_⟩
  exact absurd (hsafe.inside ⟨4, 4⟩ hmem).1 (by decide)

end Jos.Malloc
