/-
  Jos.Mem.Slots — **TWO-LEVEL PAGE TABLES AS A TABLE OF REFERENCES.**

  Fix a family of page directories `dirs : ι → Option Nat` (for the kernel:
  one per environment) over a word-addressed physical memory `m`.  The places
  that can refer to a page are the slots

      dirSlot x        the directory of `x` itself
      ptSlot x i       the entry `i` of that directory, below `UTOP`
      pageSlot x i j   the entry `j` of the page table it names

  and `deref dirs m` says what each slot refers to.  As long as directories
  and page tables are pairwise distinct pages (`TablesDistinct`), each store
  the kernel makes changes `deref` at ONE slot: `deref_setPte`,
  `deref_newTable`, `deref_clearPde`, `deref_setDir` (and none at all:
  `deref_orPde`).  Reference counting rests on these lemmas.
-/
import Jos.Kern.State
import Jos.Lib.Hits

namespace Jos

open Function (update update_of_ne update_self update_eq_self)

variable {i : Fin NPDUSER} {d t : Nat}

variable {ι : Type}

variable {k : Fin NPDUSER} {w : Word} {x y : ι}

/-! ## §1. Entries and slots. -/

/-- The page the entry `i` of page `p` points to, if it is present. -/
def target (m : Nat → Nat → Word) (p i : Nat) : Option Nat :=
  if present (m p i) then some (ptePage (m p i)) else none

theorem target_of_present {m : Nat → Nat → Word} {p i : Nat}
    (h : present (m p i) = true) : target m p i = some (ptePage (m p i)) := if_pos h

theorem target_of_not_present {m : Nat → Nat → Word} {p i : Nat}
    (h : present (m p i) = false) : target m p i = none :=
  if_neg (by rw [h]; exact Bool.false_ne_true)

theorem target_eq_some {m : Nat → Nat → Word} {p i t : Nat}
    (h : target m p i = some t) : present (m p i) = true ∧ ptePage (m p i) = t := by
  unfold target at h
  split at h
  next hp => exact ⟨hp, Option.some.inj h⟩
  next => cases h

theorem target_eq_none {m : Nat → Nat → Word} {p i : Nat}
    (h : target m p i = none) : present (m p i) = false := by
  unfold target at h
  split at h
  next => cases h
  next hp => exact Bool.not_eq_true _ ▸ hp

/-- The places that can refer to a physical page. -/
abbrev Slot (ι : Type) : Type :=
  ι ⊕ ((ι × Fin NPDUSER) ⊕ (ι × Fin NPDUSER × Fin NPTENTRIES))

abbrev dirSlot (x : ι) : Slot ι := .inl x
abbrev ptSlot (x : ι) (i : Fin NPDUSER) : Slot ι := .inr (.inl (x, i))
abbrev pageSlot (x : ι) (i : Fin NPDUSER) (j : Fin NPTENTRIES) : Slot ι :=
  .inr (.inr (x, i, j))

/-- The slot of the page at `va`. -/
abbrev vaSlot (x : ι) {va : Word} (hva : va < UTOP) : Slot ι :=
  pageSlot x ⟨pdx va, (pdx_lt_user_iff va).mpr hva⟩ ⟨ptx va, ptx_lt va⟩

/-- Directories and page tables, as opposed to mapped pages. -/
def Slot.isTable : Slot ι → Bool
  | .inl _ => true
  | .inr (.inl _) => true
  | .inr (.inr _) => false

/-- What each slot refers to. -/
def deref (dirs : ι → Option Nat) (m : Nat → Nat → Word) : Slot ι → Option Nat
  | .inl x => dirs x
  | .inr (.inl (x, i)) => (dirs x).bind fun d => target m d i
  | .inr (.inr (x, i, j)) => (dirs x).bind fun d => (target m d i).bind fun t => target m t j

section

variable {dirs : ι → Option Nat} {m : Nat → Nat → Word}

theorem deref_ptSlot (hx : dirs x = some d) (i : Fin NPDUSER) :
    deref dirs m (ptSlot x i) = target m d i := by
  show (dirs x).bind _ = _
  rw [hx]
  rfl

theorem deref_pageSlot (hx : dirs x = some d) (ht : target m d i = some t) (j : Fin NPTENTRIES) :
    deref dirs m (pageSlot x i j) = target m t j := by
  show (dirs x).bind _ = _
  rw [hx]
  show (target m d i).bind _ = _
  rw [ht]
  rfl

theorem deref_pageSlot_of_none (h : deref dirs m (ptSlot x i) = none) (j : Fin NPTENTRIES) :
    deref dirs m (pageSlot x i j) = none := by
  cases hx : dirs x with
  | none =>
    show (dirs x).bind _ = _
    rw [hx]
    rfl
  | some d =>
    rw [deref_ptSlot hx] at h
    show (dirs x).bind _ = _
    rw [hx]
    show (target m d i).bind _ = _
    rw [h]
    rfl

theorem dir_of_deref_ptSlot (h : deref dirs m (ptSlot x i) = some t) :
    ∃ d, dirs x = some d ∧ target m d i = some t := by
  cases hx : dirs x with
  | none =>
    have : deref dirs m (ptSlot x i) = none := by
      show (dirs x).bind _ = _
      rw [hx]
      rfl
    exact absurd (this ▸ h) (by simp)
  | some d => exact ⟨d, rfl, by rw [← deref_ptSlot hx i]; exact h⟩

end

/-- Directories and page tables are pairwise distinct pages. -/
def TablesDistinct (f : Slot ι → Option Nat) : Prop :=
  ∀ a b p, a.isTable = true → b.isTable = true → f a = some p → f b = some p → a = b

/-! ## §2. What a store changes. -/

section

variable {dirs : ι → Option Nat} {m : Nat → Nat → Word}

/-- `m` with the word `i` of page `p` replaced. -/
def putWord (m : Nat → Nat → Word) (p i : Nat) (w : Word) : Nat → Nat → Word :=
  update m p (update (m p) i w)

theorem putWord_same (m : Nat → Nat → Word) (p i : Nat) (w : Word) : putWord m p i w p i = w := by
  simp [putWord]

theorem putWord_of_ne {p i p' i' : Nat} (m : Nat → Nat → Word) (w : Word)
    (h : p' ≠ p ∨ i' ≠ i) : putWord m p i w p' i' = m p' i' := by
  unfold putWord
  by_cases hp : p' = p
  · subst hp
    rw [update_self, update_of_ne (h.resolve_left (fun h => h rfl))]
  · rw [update_of_ne hp]

theorem putWord_putWord (m : Nat → Nat → Word) (p i : Nat) (v w : Word) :
    putWord (putWord m p i v) p i w = putWord m p i w := by
  simp [putWord]

theorem target_putWord_of_ne {p i p' i' : Nat} (m : Nat → Nat → Word) (w : Word)
    (h : p' ≠ p ∨ i' ≠ i) : target (putWord m p i w) p' i' = target m p' i' := by
  unfold target
  rw [putWord_of_ne m w h]

theorem target_putWord_same (m : Nat → Nat → Word) (p i : Nat) (w : Word) :
    target (putWord m p i w) p i = if present w then some (ptePage w) else none := by
  unfold target
  rw [putWord_same]

/-- Writing entry `i` of the directory of `x` leaves every page table and
every mapped page of the other entries alone. -/
theorem target_setPde_of_ne (hd : TablesDistinct (deref dirs m))
    {i k : Fin NPDUSER} {d d' : Nat} (hx : dirs x = some d) (hy : dirs y = some d')
    (hne : ptSlot y k ≠ ptSlot x i) (w : Word) : target (putWord m d i w) d' k = target m d' k := by
  refine target_putWord_of_ne m w ?_
  by_cases hdd : d' = d
  · subst hdd
    have hsame := hd (dirSlot y) (dirSlot x) d' rfl rfl hy hx
    simp only [dirSlot, Sum.inl.injEq] at hsame
    subst hsame
    refine Or.inr fun hki => hne ?_
    rw [Fin.ext hki]
  · exact Or.inl hdd

/-- A page table is not a directory. -/
theorem table_ne_dir (hd : TablesDistinct (deref dirs m))
    {d d' t : Nat} (hx : dirs x = some d) (hy : dirs y = some d')
    (ht : target m d' k = some t) : t ≠ d := by
  intro htd
  subst htd
  have := hd (ptSlot y k) (dirSlot x) t rfl rfl ((deref_ptSlot hy k).trans ht) hx
  exact absurd this (by simp)

/-- References are read from tables only. -/
theorem deref_congr {m' : Nat → Nat → Word}
    (h : ∀ a p, a.isTable = true → deref dirs m a = some p → ∀ i, m' p i = m p i) :
    deref dirs m' = deref dirs m := by
  have htgt : ∀ a p, a.isTable = true → deref dirs m a = some p → ∀ i,
      target m' p i = target m p i := by
    intro a p ha hp i
    unfold target
    rw [h a p ha hp i]
  have hpt : ∀ y k, deref dirs m' (ptSlot y k) = deref dirs m (ptSlot y k) := by
    intro y k
    cases hy : dirs y with
    | none => show (dirs y).bind _ = (dirs y).bind _; rw [hy]; rfl
    | some d =>
      rw [deref_ptSlot hy, deref_ptSlot hy]
      exact htgt (dirSlot y) d rfl hy k
  funext a
  match a with
  | .inl y => rfl
  | .inr (.inl (y, k)) => exact hpt y k
  | .inr (.inr (y, k, l)) =>
    cases hu : deref dirs m (ptSlot y k) with
    | none =>
      rw [deref_pageSlot_of_none ((hpt y k).trans hu) l, deref_pageSlot_of_none hu l]
    | some u =>
      obtain ⟨d', hy', ht'⟩ := dir_of_deref_ptSlot ((hpt y k).trans hu)
      obtain ⟨d, hy, ht⟩ := dir_of_deref_ptSlot hu
      rw [deref_pageSlot hy' ht' l, deref_pageSlot hy ht l]
      exact htgt (ptSlot y k) u rfl hu l

variable [DecidableEq ι]

/-- Giving `x` an empty directory, or taking an empty one away, changes
exactly the slot of the directory. -/
theorem deref_setDir {o : Option Nat} (hold : ∀ i, deref dirs m (ptSlot x i) = none)
    (hnew : ∀ d, o = some d → ∀ i : Fin NPDUSER, target m d i = none) :
    deref (update dirs x o) m = update (deref dirs m) (dirSlot x) o := by
  have hnone : ∀ i, deref (update dirs x o) m (ptSlot x i) = none := by
    intro i
    show (update dirs x o x).bind _ = _
    rw [update_self]
    cases ho : o with
    | none => rfl
    | some d => exact hnew d ho i
  funext a
  match a with
  | .inl y =>
    by_cases hy : y = x
    · subst hy
      rw [update_self]
      exact update_self _ _ _
    · rw [update_of_ne (by simpa using hy)]
      exact update_of_ne hy _ _
  | .inr (.inl (y, k)) =>
    by_cases hy : y = x
    · subst hy
      exact (hnone k).trans (hold k).symm
    · show (update dirs x o y).bind _ = (dirs y).bind _
      rw [update_of_ne hy]
  | .inr (.inr (y, k, l)) =>
    by_cases hy : y = x
    · subst hy
      exact (deref_pageSlot_of_none (hnone k) l).trans
        (deref_pageSlot_of_none (hold k) l).symm
    · show (update dirs x o y).bind _ = (dirs y).bind _
      rw [update_of_ne hy]

/-- Writing entry `j` of the page table behind `ptSlot x i` changes exactly
the slot `pageSlot x i j`. -/
theorem deref_setPte (hd : TablesDistinct (deref dirs m))
    (ht : deref dirs m (ptSlot x i) = some t) (j : Fin NPTENTRIES) (w : Word) :
    deref dirs (putWord m t j w)
      = update (deref dirs m) (pageSlot x i j)
          (if present w then some (ptePage w) else none) := by
  -- no directory is the page written to
  have hdir : ∀ y d, dirs y = some d → d ≠ t := by
    intro y d hy hdt
    subst hdt
    have := hd (dirSlot y) (ptSlot x i) d rfl rfl hy ht
    exact absurd this (by simp)
  have hpt : ∀ y k, deref dirs (putWord m t j w) (ptSlot y k) = deref dirs m (ptSlot y k) := by
    intro y k
    cases hy : dirs y with
    | none => show (dirs y).bind _ = (dirs y).bind _; rw [hy]; rfl
    | some d =>
      rw [deref_ptSlot hy, deref_ptSlot hy]
      exact target_putWord_of_ne m w (Or.inl (hdir y d hy))
  funext a
  match a with
  | .inl y => rfl
  | .inr (.inl (y, k)) => exact hpt y k
  | .inr (.inr (y, k, l)) =>
    cases hy : deref dirs m (ptSlot y k) with
    | none =>
      have hne : pageSlot y k l ≠ pageSlot x i j := by
        intro h
        simp only [pageSlot, Sum.inr.injEq, Prod.mk.injEq] at h
        rw [h.1, h.2.1, ht] at hy
        cases hy
      rw [update_of_ne hne]
      exact (deref_pageSlot_of_none ((hpt y k).trans hy) l).trans
        (deref_pageSlot_of_none hy l).symm
    | some u =>
      obtain ⟨d, hyd, hu⟩ := dir_of_deref_ptSlot hy
      have hu' : target (putWord m t j w) d k = some u := by
        rw [← deref_ptSlot hyd k, hpt y k, hy]
      show deref dirs (putWord m t j w) (pageSlot y k l)
        = update (deref dirs m) (pageSlot x i j) _ (pageSlot y k l)
      rw [deref_pageSlot hyd hu' l]
      by_cases hs : pageSlot y k l = pageSlot x i j
      · rw [hs, update_self]
        simp only [pageSlot, Sum.inr.injEq, Prod.mk.injEq] at hs
        obtain ⟨hyx, hki, hlj⟩ := hs
        rw [hyx, hki, ht] at hy
        cases hy
        rw [hlj]
        exact target_putWord_same m t j w
      · rw [update_of_ne hs]
        rw [deref_pageSlot hyd hu l]
        refine target_putWord_of_ne m w ?_
        by_cases hut : u = t
        · subst hut
          -- the same page table: the same entry of the same directory
          have hsame := hd (ptSlot y k) (ptSlot x i) u rfl rfl hy ht
          simp only [ptSlot, Sum.inr.injEq, Sum.inl.injEq, Prod.mk.injEq] at hsame
          refine Or.inr fun hlj => hs ?_
          rw [hsame.1, hsame.2, Fin.ext hlj]
        · exact Or.inl hut

/-- Writing an entry of a directory changes exactly that entry's slot, if the
same pages are mapped through it as before. -/
theorem deref_setPde (hd : TablesDistinct (deref dirs m)) (hx : dirs x = some d)
    (hpage : ∀ j, deref dirs (putWord m d i w) (pageSlot x i j) = deref dirs m (pageSlot x i j)) :
    deref dirs (putWord m d i w) = update (deref dirs m) (ptSlot x i)
      (if present w then some (ptePage w) else none) := by
  have hpt : ∀ y k, deref dirs (putWord m d i w) (ptSlot y k)
      = update (deref dirs m) (ptSlot x i)
        (if present w then some (ptePage w) else none) (ptSlot y k) := by
    intro y k
    by_cases hs : ptSlot y k = ptSlot x i
    · rw [hs, update_self, deref_ptSlot hx, target_putWord_same]
    · rw [update_of_ne hs]
      cases hy : dirs y with
      | none => show (dirs y).bind _ = (dirs y).bind _; rw [hy]; rfl
      | some d' =>
        rw [deref_ptSlot hy, deref_ptSlot hy]
        exact target_setPde_of_ne hd hx hy hs w
  funext a
  match a with
  | .inl y => rfl
  | .inr (.inl (y, k)) => exact hpt y k
  | .inr (.inr (y, k, l)) =>
    show deref dirs _ (pageSlot y k l) = deref dirs m (pageSlot y k l)
    have hk := hpt y k
    by_cases hs : ptSlot y k = ptSlot x i
    · obtain ⟨rfl, rfl⟩ := hs
      exact hpage l
    · rw [update_of_ne hs] at hk
      cases hu : deref dirs m (ptSlot y k) with
      | none =>
        rw [deref_pageSlot_of_none (hk.trans hu) l, deref_pageSlot_of_none hu l]
      | some u =>
        obtain ⟨d', hy, ht'⟩ := dir_of_deref_ptSlot (hk.trans hu)
        obtain ⟨d'', hy', ht''⟩ := dir_of_deref_ptSlot hu
        rw [deref_pageSlot hy ht' l, deref_pageSlot hy' ht'' l]
        exact target_putWord_of_ne _ _ (Or.inl (table_ne_dir hd hx hy' ht''))

/-- Entering a cleared page `t`, which no table slot refers to, as page table
behind an absent entry changes exactly that entry's slot. -/
theorem deref_newTable (hd : TablesDistinct (deref dirs m)) (hx : dirs x = some d)
    (habs : target m d i = none)
    (hfresh : ∀ a : Slot ι, a.isTable = true → deref dirs m a ≠ some t) (hw : present w = true)
      (hwt : ptePage w = t) :
    deref dirs (putWord (update m t (fun _ => 0#32)) d i w)
      = update (deref dirs m) (ptSlot x i) (some t) := by
  have hdt : t ≠ d := fun h => hfresh (dirSlot x) rfl (h ▸ hx)
  have hclr : deref dirs (update m t (fun _ => 0#32)) = deref dirs m :=
    deref_congr fun a p ha hp j => by
      rw [update_of_ne (show p ≠ t from fun h => hfresh a ha (h ▸ hp))]
  rw [← hclr] at hd ⊢
  rw [deref_setPde hd hx, if_pos hw, hwt]
  intro j
  -- the new table is empty, and nothing was mapped through the old entry
  rw [hclr, deref_pageSlot_of_none ((deref_ptSlot hx i).trans habs) j]
  rw [deref_pageSlot hx ((target_putWord_same _ _ _ _).trans (if_pos hw)) j, hwt,
    target_putWord_of_ne _ _ (Or.inl hdt)]
  refine target_of_not_present ?_
  rw [update_self]
  decide

/-- Clearing the entry of a page table that maps nothing changes exactly that
entry's slot. -/
theorem deref_clearPde (hd : TablesDistinct (deref dirs m)) (hx : dirs x = some d)
    (hempty : ∀ j, deref dirs m (pageSlot x i j) = none) :
    deref dirs (putWord m d i 0#32)
      = update (deref dirs m) (ptSlot x i) none := by
  refine deref_setPde hd hx fun j => ?_
  rw [hempty j]
  exact deref_pageSlot_of_none ((deref_ptSlot hx i).trans (target_putWord_same _ _ _ _)) j

/-- Or-ing flags into a present directory entry changes no reference. -/
theorem deref_orPde (hd : TablesDistinct (deref dirs m)) (hx : dirs x = some d)
    (ht : target m d i = some t)
    {perm : Word} (hperm : perm &&& ~~~0xFFF#32 = 0#32) :
    deref dirs (putWord m d i (m d i ||| perm)) = deref dirs m := by
  obtain ⟨hp, hpt⟩ := target_eq_some ht
  have hw : (if present (m d i ||| perm) then some (ptePage (m d i ||| perm)) else none) = some
    t := by
    rw [if_pos (present_or hp), ptePage_or hperm, hpt]
  rw [deref_setPde hd hx, hw, ← (deref_ptSlot hx i).trans ht, update_eq_self]
  intro j
  rw [deref_pageSlot hx ((target_putWord_same _ _ _ _).trans hw) j, deref_pageSlot hx ht j]
  exact target_putWord_of_ne _ _ (Or.inl (table_ne_dir hd hx hx ht))

end

end Jos
