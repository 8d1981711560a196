/-
  Jos.Ulib.ForkHeap — **THE HEAP AFTER `fork`** (`lib/fork.c`, `lib/malloc.c`).

  `malloc` marks the pages of a long run with `PTE_CONTINUED`, a software bit of
  the page-table entry.  `duppage` maps a writable page again with `PTE_COW` and
  without that bit, in the child and in the parent, and `pgfault` maps its copy
  without it; `free` then takes the first page of the run for its last.

    • `Cow`, `Cow.run`: a writable page of a heap is in no other environment,
      along every run of stores, page calls and forks.
    • `fork_contents`: both sides of a `fork` read what the parent had.
    • `free_after_fork`: a block in one page is freed as before the `fork`.
    • `free_after_fork_wrong`: a block of two pages is not.
-/
import Jos.Ulib.MallocLeak

namespace Jos.Malloc.ForkHeap
open Function (update update_of_ne update_self)

variable {d f n q : Nat} {t : Pte}

/-! ## §1. Address spaces and frames. -/

/-- The bits `PTE_W`, `PTE_U`, `PTE_CONTINUED`, `PTE_SHARE` and `PTE_COW`. -/
structure Perm where
  w : Bool
  u : Bool
  cont : Bool
  share : Bool
  cow : Bool
  deriving DecidableEq

structure Pte where
  frame : Nat
  perm : Perm
  deriving DecidableEq

/-- The entry of each page of each environment, and the words of each frame. -/
structure Sys where
  pte : Nat → Nat → Option Pte
  mem : Nat → Nat → Nat

def Sys.set (s : Sys) (e p : Nat) (t : Pte) : Sys :=
  { s with pte := fun d q => if d = e ∧ q = p then some t else s.pte d q }

def Sys.unmap (s : Sys) (e p : Nat) : Sys :=
  { s with pte := fun d q => if d = e ∧ q = p then none else s.pte d q }

def Sys.fill (s : Sys) (f : Nat) (x : Nat → Nat) : Sys :=
  { s with mem := update s.mem f x }

/-- What an environment reads at a page. -/
def Sys.contents (s : Sys) (e p : Nat) : Option (Nat → Nat) := (s.pte e p).map fun t =>
    s.mem t.frame

/-- Page number of `PFTEMP`. -/
def PFTEMP : Nat := 0x7ff

/-- `PGNUM(UTOP - PGSIZE)`. -/
def forkLimit : Nat := 0xeebff

/-- `sys_page_map`; `mem`: there is memory for a page table. -/
def pageMap (mem : Bool) (e p e' p' : Nat) (perm : Perm) (s : Sys) : Except String Sys :=
  match s.pte e p with
  | none => .error "sys_page_map: page_lookup failed"
  | some t =>
    if perm.w && !t.perm.w then .error "sys_page_map: page_lookup failed"
    else if mem then .ok (s.set e' p' ⟨t.frame, perm⟩)
    else .error "sys_page_map: page_insert failed"

/-- `PTE_P | PTE_U | PTE_W`. -/
def rw : Perm := ⟨true, true, false, false, false⟩

/-- `PTE_P | PTE_COW`, and `PTE_U` if the page has it. -/
def Perm.dup (q : Perm) : Perm := ⟨false, q.u, false, false, true⟩

def duppage (mem : Bool) (e c pn : Nat) (s : Sys) : Except String Sys :=
  match s.pte e pn with
  | none => .error "sys_page_map: page_lookup failed"
  | some t =>
    if t.perm.share then pageMap mem e pn c pn t.perm s
    else if t.perm.cow || t.perm.w then do
      let s ← pageMap mem e pn c pn t.perm.dup s
      pageMap true e pn e pn t.perm.dup s
    else pageMap mem e pn c pn t.perm s

/-- The loop of `fork` over the pages below `n`. -/
def forkTo (mem : Nat → Bool) (e c : Nat) : Nat → Sys → Except String Sys
  | 0, s => .ok s
  | n + 1, s => do
      let s ← forkTo mem e c n s
      if (s.pte e n).isSome then duppage (mem n) e c n s else .ok s

def fork (mem : Nat → Bool) (e c : Nat) (s : Sys) : Except String Sys := forkTo mem e c forkLimit s

/-- `pgfault` for a write to page `p`; `frame` is what `page_alloc` finds. -/
def pgfault (frame : Option Nat) (e p : Nat) (s : Sys) : Except String Sys :=
  match s.pte e p with
  | none => .error "pgfault: fault was not on a copy-on-write page"
  | some t =>
    if !t.perm.cow then .error "pgfault: fault was not on a copy-on-write page"
    else
      match frame with
      | none => .error "sys_page_alloc"
      | some f =>
        -- the new page stays mapped at `PFTEMP`
        let s := (s.set e PFTEMP ⟨f, rw⟩).fill f (s.mem t.frame)
        pageMap true e PFTEMP e p rw s

/-- A store to word `i` of page `p`. -/
def store (frame : Option Nat) (e p i x : Nat) (s : Sys) : Except String Sys := do
  let writable := match s.pte e p with
    | some t => t.perm.w && t.perm.u
    | none => false
  let s ← if writable then .ok s else pgfault frame e p s
  match s.pte e p with
  | none => .error "page fault"
  | some t => .ok (s.fill t.frame (update (s.mem t.frame) i x))

/-- The loop of `free`. -/
def freeRun (e : Nat) : Nat → Nat → Sys → Except String (Nat × Sys)
  | 0, _, _ => .error "out of rounds"
  | k + 1, p, s =>
    match s.pte e p with
    | none => .ok (p, s)
    | some t =>
      if t.perm.cont then
        if mbegin ≤ (p + 1) * PGSIZE ∧ (p + 1) * PGSIZE < mend then
          freeRun e k (p + 1) (s.unmap e p)
        else .error "assertion failed: mbegin <= c && c < mend"
      else .ok (p, s)

/-- `x - 1` in 32 bits. -/
def dec (x : Nat) : Nat := (x + 2 ^ 32 - 1) % 2 ^ 32

def free (frame : Option Nat) (e v : Nat) (s : Sys) : Except String Sys :=
  if v = 0 then .ok s
  else if ¬ (mbegin ≤ v ∧ v < mend) then .error "assertion failed: mbegin <= v && v < mend"
  else do
    let (p, s) ← freeRun e (2 ^ 20) (v / PGSIZE) s
    match s.contents e p with
    | none => .error "page fault"
    | some x => do
        let s ← store frame e p 1023 (dec (x 1023)) s
        if dec (x 1023) = 0 then .ok (s.unmap e p) else .ok s

/-- The heap of an environment, as `malloc` and `free` see it. -/
def heapOf (s : Sys) (e mptr : Nat) : Heap :=
  ⟨fun p => (s.pte e p).map fun t => ⟨t.perm.cont, s.mem t.frame 1023⟩, mptr⟩

/-! ## §2. Who may write a frame. -/

def HeapPage (p : Nat) : Prop := mbegin / PGSIZE ≤ p ∧ p < mend / PGSIZE

/-- No environment maps the frame; `page_alloc` returns such a one. -/
def Fresh (s : Sys) (f : Nat) : Prop := ∀ e p t, s.pte e p = some t → t.frame ≠ f

/-- A writable page of a heap is its environment's own; `pgfault` leaves its last
copy at `PFTEMP`, which nothing writes. -/
structure Cow (s : Sys) : Prop where
  alone : ∀ {e p t d q t'}, HeapPage p → s.pte e p = some t → t.perm.w = true →
    s.pte d q = some t' → t'.frame = t.frame → d = e ∧ (q = p ∨ q = PFTEMP)
  kinds : ∀ {e p t}, HeapPage p → s.pte e p = some t →
    t.perm.u = true ∧ t.perm.share = false ∧ (t.perm.w = true ∨ t.perm.cow = true)

theorem HeapPage.ne_pftemp {p : Nat} (hp : HeapPage p) : p ≠ PFTEMP := by
  have hlo := hp.1
  rw [pages_eq.1] at hlo
  unfold PFTEMP
  omega

theorem HeapPage.lt_forkLimit {p : Nat} (hp : HeapPage p) : p < forkLimit := by
  have hhi := hp.2
  rw [pages_eq.2] at hhi
  unfold forkLimit
  omega

section

variable {s s' : Sys} {e c p : Nat}

@[simp] theorem set_pte :
    (s.set e p t).pte d q = if d = e ∧ q = p then some t else s.pte d q := rfl

@[simp] theorem unmap_pte :
    (s.unmap e p).pte d q = if d = e ∧ q = p then none else s.pte d q := rfl

@[simp] theorem fill_pte {x : Nat → Nat} : (s.fill f x).pte = s.pte := rfl

@[simp] theorem fill_mem {x : Nat → Nat} :
    (s.fill f x).mem = update s.mem f x := rfl

theorem contents_eq (h : s.pte e p = some t) : s.contents e p = some (s.mem t.frame) := by
  unfold Sys.contents
  rw [h]
  rfl

/-! ## §3. `fork`. -/

/-- The entry after `duppage`, in the parent and in the child. -/
def dupPte (t : Pte) : Pte :=
  if t.perm.share then t else if t.perm.cow || t.perm.w then ⟨t.frame, t.perm.dup⟩ else t

@[simp] theorem dupPte_frame (t : Pte) : (dupPte t).frame = t.frame := by
  unfold dupPte
  split
  · rfl
  · split <;> rfl

theorem set_self (h : s.pte e p = some t) : s.set e p t = s := by
  have hpte : (s.set e p t).pte = s.pte := by
    funext d q
    rw [set_pte]
    split
    · next hd => rw [hd.1, hd.2, h]
    · rfl
  show Sys.mk (s.set e p t).pte s.mem = s
  rw [hpte]

theorem duppage_eq (hec : e ≠ c) (h : s.pte e p = some t) (mem : Bool) :
    duppage mem e c p s = if mem then .ok ((s.set c p (dupPte t)).set e p (dupPte t))
      else .error "sys_page_map: page_insert failed" := by
  -- the parent's entry is not the child's
  have hchild : (s.set c p t).pte e p = some t := by
    rw [set_pte, if_neg (fun hd => hec hd.1), h]
  have hsame : (s.set c p t).set e p t = s.set c p t := set_self hchild
  unfold duppage dupPte
  rw [h]
  dsimp only
  cases mem with
  | false => cases hs : t.perm.share <;> cases hc : t.perm.cow <;> cases hw : t.perm.w <;>
      simp [pageMap, h, hw, Perm.dup, bind, Except.bind]
  | true => cases hs : t.perm.share <;> cases hc : t.perm.cow <;> cases hw : t.perm.w <;>
      simp [pageMap, h, hw, Perm.dup, bind, Except.bind, hec, hsame]

/-- The state after the loop of `fork` has passed the pages below `n`. -/
def forked (e c n : Nat) (s : Sys) : Sys :=
  { s with pte := fun d p =>
      if p < n ∧ (d = e ∨ d = c) then
        match s.pte e p with
        | some t => some (dupPte t)
        | none => s.pte d p
      else s.pte d p }

theorem forked_succ_none (h : s.pte e n = none) : forked e c (n + 1) s = forked e c n s := by
  unfold forked
  congr 1
  funext d p
  by_cases hp : p = n
  · subst hp
    simp [h]
  · have hlt : p < n + 1 ↔ p < n := by omega
    simp only [hlt]

theorem forked_succ_some (h : s.pte e n = some t) :
    forked e c (n + 1) s = ((forked e c n s).set c n (dupPte t)).set e n (dupPte t) := by
  unfold forked Sys.set
  congr 1
  funext d p
  by_cases hp : p = n
  · subst hp
    by_cases hd : d = e
    · simp [h, hd]
    · by_cases hd' : d = c
      · simp [h, hd']
      · simp [hd, hd']
  · have hlt : p < n + 1 ↔ p < n := by omega
    simp only [hlt, hp, and_false, if_false]

theorem forked_parent (n : Nat) : (forked e c n s).pte e n = s.pte e n := by
  show (if n < n ∧ _ then _ else _) = _
  rw [if_neg (fun h => Nat.lt_irrefl n h.1)]

/-- **The loop of `fork`.** -/
theorem forkTo_eq (hec : e ≠ c) (mem : Nat → Bool) (n : Nat) {s₁ : Sys}
    (hcall : forkTo mem e c n s = .ok s₁) : s₁ = forked e c n s := by
  induction n generalizing s₁ with
  | zero =>
    cases hcall
    unfold forked
    simp
  | succ n ih =>
    unfold forkTo at hcall
    cases hprev : forkTo mem e c n s with
    | error m =>
      rw [hprev] at hcall
      cases hcall
    | ok s₂ =>
      rw [hprev, ih hprev] at hcall
      simp only [bind, Except.bind, forked_parent] at hcall
      cases h : s.pte e n with
      | none =>
        rw [h] at hcall
        cases hcall
        rw [forked_succ_none h]
      | some t =>
        rw [h] at hcall
        have hdup := duppage_eq (s := forked e c n s) hec
          ((forked_parent n).trans h) (mem n)
        rw [hdup] at hcall
        cases hm : mem n with
        | false =>
          rw [hm] at hcall
          cases hcall
        | true =>
          rw [hm] at hcall
          cases hcall
          rw [forked_succ_some h]

/-- With memory to spare `fork` returns. -/
theorem forkTo_ok (hec : e ≠ c) (n : Nat) :
    forkTo (fun _ => true) e c n s = .ok (forked e c n s) := by
  induction n with
  | zero =>
    unfold forkTo forked
    simp
  | succ n ih =>
    unfold forkTo
    rw [ih]
    simp only [bind, Except.bind, forked_parent]
    cases h : s.pte e n with
    | none =>
      rw [forked_succ_none h]
      rfl
    | some t =>
      rw [forked_succ_some h]
      exact duppage_eq (s := forked e c n s) hec ((forked_parent n).trans h) true

/-- A heap page of a side of the `fork`. -/
theorem forked_heap (hp : HeapPage p) (hd : d = e ∨ d = c)
    (h : s.pte e p = some t) : (forked e c forkLimit s).pte d p = some (dupPte t) := by
  show (if p < forkLimit ∧ (d = e ∨ d = c) then _ else _) = _
  rw [if_pos ⟨hp.lt_forkLimit, hd⟩, h]

/-- Every entry after the `fork` has the frame of one before it. -/
theorem forked_frame {t' : Pte} (h : (forked e c n s).pte d q = some t') :
    ∃ d' t, s.pte d' q = some t ∧ t.frame = t'.frame ∧ (d' = d ∨ d' = e ∧ d = c) := by
  change (if q < n ∧ (d = e ∨ d = c) then _ else _) = _ at h
  split at h
  · next hd =>
      cases he : s.pte e q with
      | none =>
        rw [he] at h
        exact ⟨d, t', h, rfl, Or.inl rfl⟩
      | some t =>
        rw [he] at h
        cases h
        refine ⟨e, t, he, (dupPte_frame t).symm, ?_⟩
        rcases hd.2 with h1 | h1
        · exact Or.inl h1.symm
        · exact Or.inr ⟨rfl, h1⟩
  · exact ⟨d, t', h, rfl, Or.inl rfl⟩

/-- **After `fork` both sides read what the parent had.** -/
theorem fork_contents (hp : HeapPage p) (hd : d = e ∨ d = c) (hchild : s.pte c p = none) :
    (forked e c forkLimit s).contents d p = s.contents e p := by
  cases h : s.pte e p with
  | some t =>
    rw [contents_eq (forked_heap hp hd h), contents_eq h, dupPte_frame]
    rfl
  | none =>
    have hpte : (forked e c forkLimit s).pte d p = none := by
      show (if p < forkLimit ∧ (d = e ∨ d = c) then _ else _) = _
      rw [if_pos ⟨hp.lt_forkLimit, hd⟩, h]
      rcases hd with rfl | rfl
      · exact h
      · exact hchild
    unfold Sys.contents
    rw [hpte, h]
    rfl

/-- A page of a heap is not writable after `duppage`. -/
theorem Cow.dupPte (hc : Cow s) (hp : HeapPage p) (h : s.pte e p = some t) :
    ForkHeap.dupPte t = ⟨t.frame, t.perm.dup⟩ := by
  obtain ⟨-, hshare, hkind⟩ := hc.kinds hp h
  unfold ForkHeap.dupPte
  rcases hkind with hw | hcow
  · simp [hshare, hw]
  · simp [hshare, hcow]

theorem Cow.fork (hc : Cow s) (hchild : ∀ q, s.pte c q = none) : Cow (forked e c forkLimit s) := by
  -- an entry of a heap page is that of a third environment, or made by `duppage`
  have hentry : ∀ {d p t}, HeapPage p → (forked e c forkLimit s).pte d p = some t →
      s.pte d p = some t ∧ d ≠ e ∧ d ≠ c ∨
        ∃ t₀, s.pte e p = some t₀ ∧ t = ⟨t₀.frame, t₀.perm.dup⟩ := by
    intro d p t hp h
    by_cases hd : d = e ∨ d = c
    · right
      cases he : s.pte e p with
      | some t₀ =>
        rw [forked_heap hp hd he, hc.dupPte hp he] at h
        exact ⟨t₀, rfl, (Option.some.inj h).symm⟩
      | none =>
        change (if p < forkLimit ∧ (d = e ∨ d = c) then _ else _) = _ at h
        rw [if_pos ⟨hp.lt_forkLimit, hd⟩, he] at h
        rcases hd with rfl | rfl
        · exact absurd (he.symm.trans h) (by simp)
        · exact absurd ((hchild p).symm.trans h) (by simp)
    · left
      change (if p < forkLimit ∧ (d = e ∨ d = c) then _ else _) = _ at h
      rw [if_neg (fun hx => hd hx.2)] at h
      exact ⟨h, fun h1 => hd (Or.inl h1), fun h1 => hd (Or.inr h1)⟩
  refine ⟨?_, ?_⟩
  · intro d p t d' q t' hp h hw h' hframe
    rcases hentry hp h with ⟨hs, hne, -⟩ | ⟨t₀, -, rfl⟩
    · obtain ⟨d₀, t₁, hs', hf, hwho⟩ := forked_frame h'
      obtain ⟨hd, hq⟩ := hc.alone hp hs hw hs' (hf.trans hframe)
      rcases hwho with h1 | ⟨h1, -⟩
      · exact ⟨h1 ▸ hd, hq⟩
      · exact absurd (hd.symm.trans h1) hne
    · cases hw
  · intro d p t hp h
    rcases hentry hp h with ⟨hs, -⟩ | ⟨t₀, hs, rfl⟩
    · exact hc.kinds hp hs
    · exact ⟨(hc.kinds hp hs).1, rfl, Or.inr rfl⟩

/-! ## §4. Stores. -/

/-- The effect of a store to word `i` of page `p`. -/
structure Stored (s s' : Sys) (e p i x : Nat) : Prop where
  here : ∃ t t', s.pte e p = some t ∧ s'.pte e p = some t' ∧
    (t'.perm.cont = true → t.perm.cont = true) ∧
    s'.contents e p = some (update (s.mem t.frame) i x)
  elsewhere : ∀ d q, HeapPage q → ¬ (d = e ∧ q = p) →
    s'.pte d q = s.pte d q ∧ s'.contents d q = s.contents d q
  cow : Cow s'

/-- A page that is writable. -/
theorem Cow.write (hc : Cow s) (hp : HeapPage p) (h : s.pte e p = some t)
    (hw : t.perm.w = true) (i x : Nat) :
    Stored s (s.fill t.frame (update (s.mem t.frame) i x)) e p i x := by
  refine ⟨⟨t, t, h, h, id, ?_⟩, fun d q hq hne => ⟨rfl, ?_⟩, ⟨hc.alone, hc.kinds⟩⟩
  · rw [contents_eq (s := s.fill _ _) h, fill_mem, update_self]
  · cases hd : s.pte d q with
    | none =>
      unfold Sys.contents
      rw [fill_pte, hd]
      rfl
    | some t' =>
      -- no other page of a heap has the frame
      have hframe : t'.frame ≠ t.frame := by
        intro hf
        obtain ⟨h1, h2⟩ := hc.alone hp h hw hd hf
        rcases h2 with h2 | h2
        · exact hne ⟨h1, h2⟩
        · exact hq.ne_pftemp h2
      rw [contents_eq (s := s.fill _ _) hd, contents_eq hd, fill_mem,
        update_of_ne hframe]

/-- The state after `pgfault` has copied page `p` to frame `f`. -/
def copied (s : Sys) (e p f : Nat) (x : Nat → Nat) : Sys :=
  ((s.set e PFTEMP ⟨f, rw⟩).fill f x).set e p ⟨f, rw⟩

/-- **The copy by `pgfault`** reads as the page did, and is writable. -/
theorem Cow.copy (hc : Cow s) (hf : Fresh s f) :
    Cow (copied s e p f (s.mem t.frame)) ∧
      ∀ d q, HeapPage q → ¬ (d = e ∧ q = p) →
        (copied s e p f (s.mem t.frame)).pte d q = s.pte d q ∧
          (copied s e p f (s.mem t.frame)).contents d q = s.contents d q := by
  have hpte : ∀ d q, (copied s e p f (s.mem t.frame)).pte d q
      = if d = e ∧ q = p then some ⟨f, rw⟩
        else if d = e ∧ q = PFTEMP then some ⟨f, rw⟩ else s.pte d q := fun d q => rfl
  have hother : ∀ d q, HeapPage q → ¬ (d = e ∧ q = p) →
      (copied s e p f (s.mem t.frame)).pte d q = s.pte d q := by
    intro d q hq hne
    rw [hpte, if_neg hne, if_neg (fun h1 => hq.ne_pftemp h1.2)]
  refine ⟨⟨?_, ?_⟩, fun d q hq hne => ⟨hother d q hq hne, ?_⟩⟩
  · intro d q t₁ d' q' t₂ hq h1 hw h2 hframe
    rw [hpte] at h2
    by_cases hdq : d = e ∧ q = p
    · -- the copy itself: its frame was not mapped
      rw [hpte, if_pos hdq] at h1
      cases h1
      split at h2
      · next h3 => exact ⟨h3.1.trans hdq.1.symm, Or.inl (h3.2.trans hdq.2.symm)⟩
      · split at h2
        · next h3 => exact ⟨h3.1.trans hdq.1.symm, Or.inr h3.2⟩
        · exact absurd hframe (hf d' q' t₂ h2)
    · rw [hother d q hq hdq] at h1
      split at h2
      · cases h2
        exact absurd hframe.symm (hf d q t₁ h1)
      · split at h2
        · cases h2
          exact absurd hframe.symm (hf d q t₁ h1)
        · exact hc.alone hq h1 hw h2 hframe
  · intro d q t₁ hq h1
    by_cases hdq : d = e ∧ q = p
    · rw [hpte, if_pos hdq] at h1
      cases h1
      exact ⟨rfl, rfl, Or.inl rfl⟩
    · rw [hother d q hq hdq] at h1
      exact hc.kinds hq h1
  · unfold Sys.contents
    rw [hother d q hq hne]
    cases hd : s.pte d q with
    | none => rfl
    | some t' =>
      show some (update s.mem f _ t'.frame) = some (s.mem t'.frame)
      rw [update_of_ne (hf d q t' hd)]

theorem pgfault_eq (h : s.pte e p = some t) (hcow : t.perm.cow = true) (f : Nat) :
    pgfault (some f) e p s = .ok (copied s e p f (s.mem t.frame)) := by
  unfold pgfault
  rw [h]
  simp [hcow, pageMap, copied, rw]

/-- **A store to a page of the heap**, which `pgfault` copies first if it has to. -/
theorem Cow.store (hc : Cow s) (hp : HeapPage p) (h : s.pte e p = some t)
    (hf : Fresh s f) (i x : Nat) :
    ∃ s', ForkHeap.store (some f) e p i x s = .ok s' ∧ Stored s s' e p i x := by
  obtain ⟨hu, -, hkind⟩ := hc.kinds hp h
  by_cases hw : t.perm.w = true
  · refine ⟨_, ?_, hc.write hp h hw i x⟩
    unfold ForkHeap.store
    simp [h, hw, hu, bind, Except.bind]
  · have hcow := hkind.resolve_left hw
    obtain ⟨hc', hother⟩ := hc.copy hf
    have hself : (copied s e p f (s.mem t.frame)).pte e p = some ⟨f, rw⟩ := by
      show (if e = e ∧ p = p then _ else _) = _
      rw [if_pos ⟨rfl, rfl⟩]
    have hwrite := hc'.write hp hself rfl i x
    have hmem : (copied s e p f (s.mem t.frame)).mem f = s.mem t.frame :=
      update_self _ _ _
    refine ⟨(copied s e p f (s.mem t.frame)).fill f (update
      ((copied s e p f (s.mem t.frame)).mem f) i x), ?_,
      ⟨t, ⟨f, rw⟩, h, hself, (fun hcont => by cases hcont), ?_⟩, fun d q hq hne => ?_, hwrite.cow⟩
    · have hfault := pgfault_eq h hcow f
      unfold ForkHeap.store
      simp [h, hw, bind, Except.bind, hfault, hself]
    · obtain ⟨t₁, -, h1, -, -, h2⟩ := hwrite.here
      cases hself.symm.trans h1
      rw [h2, hmem]
    · obtain ⟨h1, h2⟩ := hwrite.elsewhere d q hq hne
      obtain ⟨h3, h4⟩ := hother d q hq hne
      exact ⟨h1.trans h3, h2.trans h4⟩

/-- A store that returns found a page. -/
theorem store_mapped {frame : Option Nat} {i x : Nat}
    (hcall : ForkHeap.store frame e p i x s = .ok s') : ∃ t, s.pte e p = some t := by
  cases h : s.pte e p with
  | some t => exact ⟨t, rfl⟩
  | none =>
    unfold ForkHeap.store pgfault at hcall
    simp [h, bind, Except.bind] at hcall

/-! ## §5. Runs. -/

/-- The steps of all environments at the pages of their heaps; a page `keep`
names is not unmapped. -/
inductive Step (keep : Nat → Nat → Prop) (s : Sys) : Sys → Prop where
  | store {f e p : Nat} {s' : Sys} (i x : Nat) (hp : HeapPage p) (hf : Fresh s f)
      (hcall : ForkHeap.store (some f) e p i x s = .ok s') : Step keep s s'
  /-- `sys_page_alloc` by `malloc`. -/
  | alloc {f e p : Nat} (cont : Bool) (hp : HeapPage p) (hf : Fresh s f)
    (hnone : s.pte e p = none) :
      Step keep s ((s.set e p ⟨f, { rw with cont := cont }⟩).fill f fun _ => 0)
  | unmap {e p : Nat} (hp : HeapPage p) (hkeep : ¬ keep e p) : Step keep s (s.unmap e p)
  | fork {mem : Nat → Bool} {e c : Nat} {s' : Sys} (hec : e ≠ c) (hchild : ∀ q, s.pte c q = none)
      (hcall : ForkHeap.fork mem e c s = .ok s') : Step keep s s'

theorem Cow.alloc (hc : Cow s) (cont : Bool) (hf : Fresh s f) :
    Cow ((s.set e p ⟨f, { rw with cont := cont }⟩).fill f fun _ => 0) := by
  refine ⟨?_, ?_⟩
  · intro d q t d' q' t' hq h hw h' hframe
    rw [fill_pte, set_pte] at h h'
    split at h
    · next hd =>
        cases h
        split at h'
        · next hd' => exact ⟨hd'.1.trans hd.1.symm, Or.inl (hd'.2.trans hd.2.symm)⟩
        · exact absurd hframe (hf d' q' t' h')
    · split at h'
      · cases h'
        exact absurd hframe.symm (hf d q t h)
      · exact hc.alone hq h hw h' hframe
  · intro d q t hq h
    rw [fill_pte, set_pte] at h
    split at h
    · cases h
      exact ⟨rfl, rfl, Or.inl rfl⟩
    · exact hc.kinds hq h

theorem Cow.unmap (hc : Cow s) : Cow (s.unmap e p) := by
  -- an entry that is left was there before
  have hleft : ∀ {d q t}, (s.unmap e p).pte d q = some t → s.pte d q = some t := by
    intro d q t h
    rw [unmap_pte] at h
    split at h
    · cases h
    · exact h
  exact ⟨fun hq h hw h' hframe => hc.alone hq (hleft h) hw (hleft h') hframe,
    fun hq h => hc.kinds hq (hleft h)⟩

variable {keep : Nat → Nat → Prop}

theorem Cow.step (hc : Cow s) (hstep : Step keep s s') : Cow s' := by
  cases hstep with
  | store i x hp hf hcall =>
    obtain ⟨t, h⟩ := store_mapped hcall
    obtain ⟨s₁, hcall', hst⟩ := hc.store hp h hf i x
    obtain rfl := Except.ok.inj (hcall.symm.trans hcall')
    exact hst.cow
  | alloc cont hp hf hnone => exact hc.alloc cont hf
  | unmap hp hkeep => exact hc.unmap
  | fork hec hchild hcall =>
    obtain rfl := forkTo_eq hec _ _ hcall
    exact hc.fork hchild

/-- **A writable page of a heap is nobody else's**, along every run. -/
theorem Cow.run (hc : Cow s) (hrun : Relation.ReflTransGen (Step keep) s s') : Cow s' := by
  induction hrun with
  | refl => exact hc
  | tail _ hstep ih => exact ih.step hstep

/-- Page `p` is mapped, without `PTE_CONTINUED`. -/
def Ends (s : Sys) (e p : Nat) : Prop := ∃ t, s.pte e p = some t ∧ t.perm.cont = false

theorem Ends.forked (h : Ends s e p) (hc : Cow s) (hp : HeapPage p)
    (hd : d = e ∨ d = c) : Ends (forked e c forkLimit s) d p := by
  obtain ⟨t, ht, -⟩ := h
  refine ⟨_, forked_heap hp hd ht, ?_⟩
  rw [hc.dupPte hp ht]
  rfl

theorem Ends.step (h : Ends s e p) (hc : Cow s) (hp : HeapPage p) (hkept : keep e p)
    (hstep : Step keep s s') : Ends s' e p := by
  obtain ⟨t, ht, hcont⟩ := h
  cases hstep with
  | @store f e₁ p₁ _ i x hp₁ hf hcall =>
    obtain ⟨t₁, h₁⟩ := store_mapped hcall
    obtain ⟨s₁, hcall', hst⟩ := hc.store hp₁ h₁ hf i x
    obtain rfl := Except.ok.inj (hcall.symm.trans hcall')
    by_cases hsame : e = e₁ ∧ p = p₁
    · obtain ⟨rfl, rfl⟩ := hsame
      obtain ⟨t₂, t₃, h₂, h₃, hle, -⟩ := hst.here
      cases ht.symm.trans h₂
      refine ⟨t₃, h₃, ?_⟩
      -- a copy never has the bit
      by_contra hne
      rw [hle (Bool.eq_true_of_not_eq_false hne)] at hcont
      cases hcont
    · exact ⟨t, (hst.elsewhere e p hp hsame).1.trans ht, hcont⟩
  | @alloc f e₁ p₁ cont hp₁ hf hnone =>
    refine ⟨t, ?_, hcont⟩
    rw [fill_pte, set_pte, if_neg ?_, ht]
    rintro ⟨rfl, rfl⟩
    exact absurd (ht.symm.trans hnone) (by simp)
  | @unmap e₁ p₁ hp₁ hfree =>
    refine ⟨t, ?_, hcont⟩
    rw [unmap_pte, if_neg ?_, ht]
    rintro ⟨rfl, rfl⟩
    exact hfree hkept
  | @fork mem a c _ hec hchild hcall =>
    obtain rfl := forkTo_eq hec _ _ hcall
    by_cases hd : e = a
    · subst hd
      exact Ends.forked ⟨t, ht, hcont⟩ hc hp (Or.inl rfl)
    · have hd' : e ≠ c := by
        rintro rfl
        exact absurd (ht.symm.trans (hchild p)) (by simp)
      refine ⟨t, ?_, hcont⟩
      show (if p < forkLimit ∧ (e = a ∨ e = c) then _ else _) = _
      rw [if_neg (fun hx => hx.2.elim hd hd'), ht]

theorem Ends.run (h : Ends s e p) (hc : Cow s) (hp : HeapPage p) (hkept : keep e p)
    (hrun : Relation.ReflTransGen (Step keep) s s') : Ends s' e p := by
  induction hrun with
  | refl => exact h
  | tail hprev hstep ih => exact ih.step (hc.run hprev) hp hkept hstep

/-! ## §6. `free`. -/

/-- A block with its last word in page `a` is freed: the count goes down by one,
the page goes with the last block, and no other page of any heap changes. -/
structure Freed (s s' : Sys) (e a : Nat) : Prop where
  count : ∃ x, s.contents e a = some x ∧
    s'.contents e a = if dec (x 1023) = 0 then none else some (update x 1023 (dec (x 1023)))
  elsewhere : ∀ d q, HeapPage q → ¬ (d = e ∧ q = a) →
    s'.pte d q = s.pte d q ∧ s'.contents d q = s.contents d q

/-- **`free` of a block whose first page is its last.** -/
theorem Ends.free {v f : Nat} (h : Ends s e (v / PGSIZE)) (hc : Cow s) (hv : mbegin ≤ v ∧ v < mend)
    (hf : Fresh s f) : ∃ s', ForkHeap.free (some f) e v s = .ok s' ∧ Freed s s' e (v / PGSIZE) := by
  obtain ⟨t, ht, hcont⟩ := h
  have hp : HeapPage (v / PGSIZE) := by
    unfold HeapPage
    unfold mbegin mend PGSIZE at *
    omega
  have hv0 : v ≠ 0 := by
    unfold mbegin at hv
    omega
  have hloop : freeRun e (2 ^ 20) (v / PGSIZE) s = .ok (v / PGSIZE, s) := by
    unfold freeRun
    simp [ht, hcont]
  have hread := contents_eq ht
  obtain ⟨s₁, hstore, hst⟩ := hc.store hp ht hf 1023 (dec (s.mem t.frame 1023))
  obtain ⟨t₂, -, h₂, -, -, hhere⟩ := hst.here
  cases ht.symm.trans h₂
  unfold ForkHeap.free
  rw [if_neg hv0, if_neg (not_not.mpr hv), hloop]
  simp only [bind, Except.bind, hread, hstore]
  by_cases hzero : dec (s.mem t.frame 1023) = 0
  · rw [if_pos hzero]
    refine ⟨_, rfl, ⟨_, hread, ?_⟩, fun d q hq hne => ?_⟩
    · rw [if_pos hzero]
      simp [Sys.contents]
    · have hother := hst.elsewhere d q hq hne
      have hpte : (s₁.unmap e (v / PGSIZE)).pte d q = s₁.pte d q := if_neg hne
      refine ⟨hpte.trans hother.1, ?_⟩
      rw [← hother.2]
      unfold Sys.contents
      rw [hpte]
      rfl
  · rw [if_neg hzero]
    refine ⟨_, rfl, ⟨_, hread, ?_⟩, hst.elsewhere⟩
    rw [if_neg hzero]
    exact hhere

/-- The last page of a live block, in the heap of an environment. -/
theorem ends_of_live {m : Nat} {live : List Block} {own : Nat → Bool} {b : Block}
    (hi : HeapInv (heapOf s e m) live own) (hb : b ∈ live) : Ends s e b.anchor := by
  obtain ⟨w, hw⟩ := (hi.placed b hb).count
  obtain ⟨t, ht, hx⟩ := Option.map_eq_some_iff.mp hw
  exact ⟨t, ht, congrArg HPage.cont hx⟩

/-- **`free` after `fork`.**  A live block that lies in one page: both sides of the
`fork` read the heap of the parent, and after any run that leaves the page of the
block mapped `free` does in each of them what it would have done before. -/
theorem free_after_fork {m d f : Nat} {live : List Block} {own : Nat → Bool} {b : Block}
    {mem : Nat → Bool} {s₁ s₂ : Sys} (hc : Cow s) (hi : HeapInv (heapOf s e m) live own)
    (hb : b ∈ live) (hone : b.first = b.anchor) (hec : e ≠ c) (hchild : ∀ q, s.pte c q = none)
    (hfork : ForkHeap.fork mem e c s = .ok s₁) (hd : d = e ∨ d = c)
    (hrun : Relation.ReflTransGen (Step fun a q => a = d ∧ q = b.anchor) s₁ s₂)
    (hf : Fresh s₂ f) :
    (∀ q, HeapPage q → s₁.contents d q = s.contents e q) ∧
    (∃ s₃, ForkHeap.free (some f) d b.v s₂ = .ok s₃ ∧ Freed s₂ s₃ d b.anchor) ∧
    ∀ f₀, Fresh s f₀ → ∃ s', ForkHeap.free (some f₀) e b.v s = .ok s' ∧ Freed s s' e b.anchor := by
  obtain rfl := forkTo_eq hec _ _ hfork
  have hpl := hi.placed b hb
  obtain ⟨hfirst, hle, hhigh⟩ := hpl.bounds
  have hbounds : mbegin ≤ b.v ∧ b.v < mend :=
    ⟨hpl.low, Nat.lt_of_div_lt_div (hle.trans_lt hhigh)⟩
  have hpage : HeapPage b.anchor := ⟨hfirst.trans hle, hhigh⟩
  have hends := ends_of_live hi hb
  have hends₂ := (hends.forked hc hpage hd).run (hc.fork hchild) hpage ⟨rfl, rfl⟩ hrun
  have hcow₂ := (hc.fork hchild).run hrun
  rw [← hone] at hends hends₂ ⊢
  exact ⟨fun q hq => fork_contents hq hd (hchild q), hends₂.free hcow₂ hbounds hf,
    fun f₀ hf₀ => hends.free hc hbounds hf₀⟩

end

/-- One environment with heap `h`, page `p` in frame `p`. -/
def ofHeap (h : Heap) : Sys where
  pte := fun e p => if e = 0 then (h.page p).map fun x => ⟨p, { rw with cont := x.cont }⟩ else none
  mem := fun f i => if i = 1023 then (h.page f).elim 0 HPage.last else 0

theorem ofHeap_pte {h : Heap} {e p : Nat} (ht : (ofHeap h).pte e p = some t) :
    e = 0 ∧ t.frame = p ∧ ∃ x, h.page p = some x ∧ t.perm = { rw with cont := x.cont } := by
  change (if e = 0 then _ else _) = _ at ht
  split at ht
  · next he =>
      obtain ⟨x, hx, rfl⟩ := Option.map_eq_some_iff.mp ht
      exact ⟨he, rfl, x, hx, rfl⟩
  · cases ht

/-- **Every heap is that of an environment.** -/
theorem heapOf_ofHeap (h : Heap) : heapOf (ofHeap h) 0 h.mptr = h := by
  have hpage : (heapOf (ofHeap h) 0 h.mptr).page = h.page := by
    funext p
    cases hx : h.page p with
    | none => simp [heapOf, ofHeap, hx]
    | some x => simp [heapOf, ofHeap, hx]
  show Heap.mk (heapOf (ofHeap h) 0 h.mptr).page h.mptr = h
  rw [hpage]

theorem ofHeap_cow (h : Heap) : Cow (ofHeap h) := by
  refine ⟨?_, ?_⟩
  · intro e p t d q t' _ ht _ ht' hframe
    obtain ⟨rfl, hf, -⟩ := ofHeap_pte ht
    obtain ⟨rfl, hf', -⟩ := ofHeap_pte ht'
    exact ⟨rfl, Or.inl (by rw [← hf', hframe, hf])⟩
  · intro e p t _ ht
    obtain ⟨-, -, x, -, hperm⟩ := ofHeap_pte ht
    rw [hperm]
    exact ⟨rfl, rfl, Or.inl rfl⟩

theorem ofHeap_fresh {h : Heap} (hf : h.page f = none) : Fresh (ofHeap h) f := by
  intro e p t ht hframe
  obtain ⟨-, hp, x, hx, -⟩ := ofHeap_pte ht
  rw [← hp, hframe, hf] at hx
  cases hx

theorem Fresh.forked {s : Sys} {e c n f : Nat} (hf : Fresh s f) : Fresh (forked e c n s) f := by
  intro d q t ht
  obtain ⟨d', t', ht', hframe, -⟩ := forked_frame ht
  rw [← hframe]
  exact hf d' q t' ht'

/-- A heap after one call of `malloc(n)` that keeps the counts exact. -/
theorem inv_of_step (h : HeapStep TightOk noHeap (noHeap.mallocd n)) :
    HeapInv (heapOf (ofHeap (noHeap.mallocd n).heap) 0 (noHeap.mallocd n).heap.mptr)
      (noHeap.mallocd n).live (mine (noHeap.mallocd n).heap) := by
  rw [heapOf_ofHeap]
  exact (Tight.run noHeap_start (.single h)).inv

/-- A block of 100 bytes, freed in the child right after the `fork`. -/
theorem free_after_fork_hundred :
    ∃ s₃, ForkHeap.free (some 0) 1 0x08000000
        (forked 0 1 forkLimit (ofHeap (noHeap.mallocd 100).heap)) = .ok s₃ ∧
      Freed (forked 0 1 forkLimit (ofHeap (noHeap.mallocd 100).heap)) s₃ 1 0x8000 := by
  have hfresh : Fresh (ofHeap (noHeap.mallocd 100).heap) 0 := ofHeap_fresh (by decide +kernel)
  exact (free_after_fork (b := ⟨0x08000000, 100⟩) (ofHeap_cow _) (inv_of_step hundred_step)
    (by decide +kernel) (by decide) (by decide) (fun _ => rfl) (forkTo_ok (by decide) _)
    (Or.inr rfl) .refl hfresh.forked).2.1

/-! ## §7. A block of two pages. -/

/-- An environment that has called `malloc(5000)`. -/
def longBlock : Sys := ofHeap (noHeap.mallocd 5000).heap

theorem longBlock_step : HeapStep TightOk noHeap (noHeap.mallocd 5000) :=
  .mallocd (by decide) ⟨mallocOk_of_aligned rfl (by decide), Or.inl (by decide)⟩
    (by decide +kernel)

/-- The count word of a page. -/
def Sys.count (s : Sys) (e p : Nat) : Option Nat := (s.contents e p).map fun x => x 1023

/-- The count words of the block's two pages after `free` of the block. -/
def countsAfter (e : Nat) (s : Sys) : Option (Option Nat × Option Nat) :=
  match ForkHeap.free (some 0) e 0x08000000 s with
  | .ok s => some (s.count e 0x8000, s.count e 0x8001)
  | .error _ => none

/-- **`free` after `fork` goes wrong.**  Before the `fork`, `free` unmaps the first
page of the block and takes the count of the second from 2 to 1.  After it, in the
parent and in the child, the first page stays, a word of the block in it is
decremented, and the count stays 2. -/
theorem free_after_fork_wrong :
    Cow longBlock ∧ (noHeap.mallocd 5000).live = [⟨0x08000000, 5000⟩] ∧
    (∃ m own, HeapInv (heapOf longBlock 0 m) [⟨0x08000000, 5000⟩] own) ∧
    ForkHeap.fork (fun _ => true) 0 1 longBlock = .ok (forked 0 1 forkLimit longBlock) ∧
    Fresh (forked 0 1 forkLimit longBlock) 0 ∧
    countsAfter 0 longBlock = some (none, some 1) ∧
    countsAfter 0 (forked 0 1 forkLimit longBlock) = some (some (2 ^ 32 - 1), some 2) ∧
    countsAfter 1 (forked 0 1 forkLimit longBlock) = some (some (2 ^ 32 - 1), some 2) := by
  have hlive : (noHeap.mallocd 5000).live = [⟨0x08000000, 5000⟩] := by decide +kernel
  have hinv := inv_of_step longBlock_step
  have hfresh : Fresh longBlock 0 := ofHeap_fresh (by decide +kernel)
  exact ⟨ofHeap_cow _, hlive, ⟨_, _, hinv⟩, forkTo_ok (by decide) _, hfresh.forked,
    by decide +kernel, by decide +kernel, by decide +kernel⟩

end Jos.Malloc.ForkHeap
