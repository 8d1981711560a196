/-
  Jos.Mem.Tlb — **TRANSLATIONS A CPU STILL HOLDS** (`kern/pmap.c`).

  The hardware may load the translation of any address at any moment, as the page
  tables in `cr3` have it.  `page_remove` calls `tlb_invalidate` before it clears
  the entry, and only on the CPU that executes it.  Here the calls are cut where a
  fill makes a difference, and fills of any CPU run between the parts.

    • `tlb_coherent`: if no other CPU has the directory loaded, and the executing
      CPU does not load the address again between `invlpg` and the store, no CPU
      holds an old translation when the call returns.
    • `tlb_stale`: without either, one does, of a page that is free.
-/
import Jos.Mem.PageInv

namespace Jos

open Exec

variable {u : Kernel} {c pp q t : Nat} {x : Word}

/-! ## §1. The hardware. -/

/-- The entry for `va` in the page tables at `d`. -/
def walkEntry (m : Nat → Nat → Word) (d : Nat) (va : Word) : Option Word :=
  match target m d (pdx va) with
  | none => none
  | some t => if present (m t (ptx va)) then some (m t (ptx va)) else none

def Kernel.fill (s : Kernel) (c : Nat) (va : Word) (x : Word) : Kernel :=
  { s with cpus := Function.update s.cpus c { s.cpus c with
      tlb := Function.update (s.cpus c).tlb (pgnum va) (some x) } }

/-- CPU `c` loads the translation of `v`; `ok` says which loads happen. -/
inductive Fill (ok : Nat → Word → Prop) (s : Kernel) : Kernel → Prop where
  | load (c : Nat) (v : Word) {x : Word} (hok : ok c v)
      (hx : walkEntry s.mem (s.cpus c).cr3 v = some x) : Fill ok s (s.fill c v x)

abbrev Fills (ok : Nat → Word → Prop) : Kernel → Kernel → Prop := Relation.ReflTransGen (Fill ok)

def always : Nat → Word → Prop := fun _ _ => True

/-- Everything but the pages' counts and the translation buffers is the same. -/
structure TlbFrame (s s' : Kernel) : Prop where
  mem : s'.mem = s.mem
  envs : s'.envs = s.envs
  cpunum : s'.cpunum = s.cpunum
  cr3 : ∀ c, (s'.cpus c).cr3 = (s.cpus c).cr3
  cpuEnv : ∀ c, (s'.cpus c).cpuEnv = (s.cpus c).cpuEnv

theorem TlbFrame.refl (s : Kernel) : TlbFrame s s := ⟨rfl, rfl, rfl, fun _ => rfl, fun _ => rfl⟩

theorem TlbFrame.trans {s t u : Kernel} (h : TlbFrame s t) (h' : TlbFrame t u) : TlbFrame s u where
  mem := h'.mem.trans h.mem
  envs := h'.envs.trans h.envs
  cpunum := h'.cpunum.trans h.cpunum
  cr3 c := (h'.cr3 c).trans (h.cr3 c)
  cpuEnv c := (h'.cpuEnv c).trans (h.cpuEnv c)

theorem TlbFrame.curenv {s s' : Kernel} (h : TlbFrame s s') : s'.curenv = s.curenv := by
  unfold Kernel.curenv
  rw [h.cpunum, h.cpuEnv]

section

variable {s s' : Kernel} {d : Nat} {va : Word} {ok : Nat → Word → Prop}

/-- A fill changes one translation of one CPU. -/
theorem fill_tlb (s : Kernel) (c : Nat) (v x : Word) (c' p : Nat) :
    ((s.fill c v x).cpus c').tlb p
      = if c' = c ∧ p = pgnum v then some x else (s.cpus c').tlb p := by
  unfold Kernel.fill
  by_cases hc : c' = c
  · subst hc
    by_cases hp : p = pgnum v
    · simp [hp]
    · simp [hp]
  · simp [hc]

theorem Fill.frame (h : Fill ok s s') : TlbFrame s s' := by
  cases h with
  | load c v hok hx =>
    refine ⟨rfl, rfl, rfl, fun c' => ?_, fun c' => ?_⟩
    · by_cases hc : c' = c
      · subst hc
        simp [Kernel.fill]
      · simp [Kernel.fill, hc]
    · by_cases hc : c' = c
      · subst hc
        simp [Kernel.fill]
      · simp [Kernel.fill, hc]

/-- Fills touch nothing but the translation buffers. -/
theorem Fills.frame (h : Fills ok s s') : TlbFrame s s' := by
  induction h with
  | refl => exact .refl s
  | tail _ hstep ih => exact ih.trans hstep.frame

/-- Addresses of one page have one translation. -/
theorem walkEntry_pgnum (m : Nat → Nat → Word) (d : Nat) {v : Word} (h : pgnum v = pgnum va) :
    walkEntry m d v = walkEntry m d va := by
  have hpages : v.toNat / 2 ^ 12 = va.toNat / 2 ^ 12 := by
    rw [← pgnum_eq, ← pgnum_eq, h]
  have hpdx : pdx v = pdx va := by
    rw [pdx_eq, pdx_eq]
    omega
  have hptx : ptx v = ptx va := by
    rw [ptx_eq, ptx_eq, hpages]
  unfold walkEntry
  rw [hpdx, hptx]

/-! ## §2. What every CPU holds. -/

/-- No CPU that has `d` loaded holds anything for the page of `va`. -/
def Clear (s : Kernel) (d : Nat) (va : Word) : Prop :=
  ∀ c, (s.cpus c).cr3 = d → (s.cpus c).tlb (pgnum va) = none

/-- It holds at most what the page tables say now. -/
def UpToDate (s : Kernel) (d : Nat) (va : Word) : Prop :=
  ∀ c x, (s.cpus c).cr3 = d → (s.cpus c).tlb (pgnum va) = some x →
    walkEntry s.mem d va = some x

theorem Clear.upToDate (h : Clear s d va) : UpToDate s d va := by
  intro c x hc hx
  rw [h c hc] at hx
  cases hx

/-- **A fill loads what the page tables say.** -/
theorem UpToDate.fills (h : UpToDate s d va) (hf : Fills ok s s') : UpToDate s' d va := by
  induction hf with
  | refl => exact h
  | tail _ hstep ih =>
    cases hstep with
    | @load c v x hok hx =>
      intro c' y hc' hy
      rw [(Fill.load c v hok hx).frame.cr3] at hc'
      rw [fill_tlb] at hy
      split at hy
      · next hsame =>
          cases hy
          rw [← hc', hsame.1, ← walkEntry_pgnum _ _ hsame.2.symm]
          exact hx
      · exact ih c' y hc' hy

/-- Nothing can be loaded where the page tables have nothing. -/
theorem Clear.fills_of_none (h : Clear s d va) (hnone : walkEntry s.mem d va = none)
    (hf : Fills ok s s') : Clear s' d va := by
  have hcur := h.upToDate.fills hf
  intro c hc
  cases hx : (s'.cpus c).tlb (pgnum va) with
  | none => rfl
  | some x =>
    have htr := hcur c x hc hx
    rw [hf.frame.mem, hnone] at htr
    cases htr

/-- Nor while the loads of that page are held back, on the only CPU that has `d`. -/
theorem Clear.fills_held (h : Clear s d va)
    (hheld : ∀ c v, ok c v → (s.cpus c).cr3 = d → pgnum v ≠ pgnum va)
    (hf : Fills ok s s') : Clear s' d va := by
  induction hf with
  | refl => exact h
  | @tail t u hprev hstep ih =>
    cases hstep with
    | load c v hok hx =>
      intro c' hc'
      rw [(Fill.load c v hok hx).frame.cr3] at hc'
      rw [fill_tlb, if_neg ?_]
      · exact ih c' hc'
      · rintro ⟨rfl, hp⟩
        rw [Fills.frame hprev |>.cr3] at hc'
        exact hheld c' v hok hc' hp.symm

/-! ## §3. The parts of the calls. -/

/-- A walk through a present table changes nothing. -/
theorem pgdirWalk_found {create : Bool} {r : Option (Nat × Nat)}
    (ht : target s.mem d (pdx va) = some t) (h : pgdirWalk d va create s = .ok r s') :
    s' = s ∧ r = some (t, ptx va) := by
  obtain ⟨hp, rfl⟩ := target_eq_some ht
  unfold pgdirWalk at h
  rw [bind_get, if_pos hp] at h
  obtain ⟨k, u, hk, hpure⟩ := bind_inv h
  cases hpure
  obtain ⟨g, u', hg, hk⟩ := bind_inv hk
  cases hg
  split at hk
  · cases hk
  · cases hk
    exact ⟨rfl, rfl⟩

theorem pageLookup_found {r : Option (Nat × (Nat × Nat))} (h : pageLookup d va s = .ok r s') :
    s' = s ∧ (r = none → walkEntry s.mem d va = none) ∧
      ∀ q t j, r = some (q, (t, j)) → target s.mem d (pdx va) = some t ∧ j = ptx va := by
  obtain ⟨a, t₁, hwalk, hrest⟩ := bind_inv h
  -- a walk that does not create changes nothing
  have hw : t₁ = s ∧ (a = none → walkEntry s.mem d va = none) ∧
      ∀ t j, a = some (t, j) → target s.mem d (pdx va) = some t ∧ j = ptx va := by
    cases ht : target s.mem d (pdx va) with
    | none =>
      rw [pgdirWalk_absent ht] at hwalk
      cases hwalk
      refine ⟨rfl, fun _ => ?_, fun t j hx => by cases hx⟩
      unfold walkEntry
      rw [ht]
    | some t =>
      obtain ⟨rfl, rfl⟩ := pgdirWalk_found ht hwalk
      refine ⟨rfl, (fun hx => by cases hx), fun t' j hx => ?_⟩
      cases hx
      exact ⟨rfl, rfl⟩
  obtain ⟨rfl, hnone, hw⟩ := hw
  cases a with
  | none =>
    cases hrest
    exact ⟨rfl, fun _ => hnone rfl, fun q t j hx => by cases hx⟩
  | some a =>
    obtain ⟨t, j⟩ := a
    obtain ⟨ht, hj⟩ := hw t j rfl
    dsimp only at hrest
    rw [bind_get] at hrest
    split at hrest
    · obtain ⟨pg, u, hpa, hpure⟩ := bind_inv hrest
      cases hpure
      obtain ⟨g, u', hg, hpa⟩ := bind_inv hpa
      cases hg
      split at hpa
      · cases hpa
      · cases hpa
        refine ⟨rfl, (fun hx => by cases hx), fun q t' j' hx => ?_⟩
        cases hx
        exact ⟨ht, hj⟩
    · next hp =>
        cases hrest
        refine ⟨rfl, fun _ => ?_, fun q t' j' hx => by cases hx⟩
        unfold walkEntry
        rw [ht]
        dsimp only
        rw [hj] at hp
        rw [if_neg hp]

theorem pageFree_frame (h : pageFree q s = .ok () s') : TlbFrame s s' := by
  unfold pageFree at h
  rw [bind_get] at h
  split at h
  · cases h
  · split at h
    · cases h
    · cases h
      exact ⟨rfl, rfl, rfl, fun _ => rfl, fun _ => rfl⟩

theorem pageDecref_frame (h : pageDecref q s = .ok () s') : TlbFrame s s' := by
  unfold pageDecref at h
  rw [bind_get] at h
  obtain ⟨u, t, hset, hrest⟩ := bind_inv h
  cases hset
  have hstart : TlbFrame s (s.setPage q { s.pages q with ppRef := (s.pages q).ppRef - 1 }) :=
    ⟨rfl, rfl, rfl, fun _ => rfl, fun _ => rfl⟩
  split at hrest
  · exact hstart.trans (pageFree_frame hrest)
  · cases hrest
    exact hstart

/-- The directory is loaded on no CPU but the executing one, and there
`tlb_invalidate` takes it for the current one. -/
structure OnlyHere (s : Kernel) (d : Nat) : Prop where
  others : ∀ c, c ≠ s.cpunum → (s.cpus c).cr3 ≠ d
  here : (s.cpus s.cpunum).cr3 = d →
    s.curenv = none ∨ ∃ e, s.curenv = some e ∧ (s.envs e).envPgdir = some d

theorem OnlyHere.frame (h : OnlyHere s d) (hfr : TlbFrame s s') : OnlyHere s' d := by
  refine ⟨fun c hc => ?_, fun hd => ?_⟩
  · rw [hfr.cr3]
    rw [hfr.cpunum] at hc
    exact h.others c hc
  · rw [hfr.cr3, hfr.cpunum] at hd
    rw [hfr.curenv, hfr.envs]
    exact h.here hd

theorem OnlyHere.cpu (h : OnlyHere s d) (hc : (s.cpus c).cr3 = d) : c = s.cpunum :=
  not_not.mp fun hne => h.others c hne hc

theorem flush_frame (s : Kernel) (d : Nat) (va : Word) : TlbFrame s (s.flush d va) := by
  obtain ⟨tlb, htlb⟩ := Kernel.flush_eq s d va
  rw [htlb]
  refine ⟨rfl, rfl, rfl, fun c => ?_, fun c => ?_⟩
  · by_cases hc : c = s.cpunum
    · subst hc
      simp [Kernel.setCpu]
    · simp [Kernel.setCpu, hc]
  · by_cases hc : c = s.cpunum
    · subst hc
      simp [Kernel.setCpu]
    · simp [Kernel.setCpu, hc]

/-- **`tlb_invalidate`**, with the directory loaded here at most. -/
theorem OnlyHere.flush (h : OnlyHere s d) (va : Word) : Clear (s.flush d va) d va := by
  intro c hc
  rw [(flush_frame s d va).cr3] at hc
  obtain rfl := h.cpu hc
  rcases h.here hc with hnone | ⟨e, he, hdir⟩
  · simp [Kernel.flush, hnone, Kernel.setCpu]
  · simp [Kernel.flush, he, hdir, Kernel.setCpu]

theorem walkEntry_cleared (ht : target s.mem d (pdx va) = some t) :
    walkEntry (s.setWord t (ptx va) 0#32).mem d va = none := by
  unfold walkEntry
  cases ht' : target (s.setWord t (ptx va) 0#32).mem d (pdx va) with
  | none => rfl
  | some t' =>
    -- the directory's entry was not the one cleared, so it names the same table
    obtain ⟨hp, hpage⟩ := target_eq_some ht
    obtain ⟨hp', hpage'⟩ := target_eq_some ht'
    have hword : (s.setWord t (ptx va) 0#32).mem d (pdx va) = s.mem d (pdx va) := by
      by_cases hsame : d = t ∧ pdx va = ptx va
      · obtain ⟨rfl, hx⟩ := hsame
        rw [hx] at hp'
        simp [Kernel.setWord, present] at hp'
      · by_cases hd : d = t
        · subst hd
          have hx : pdx va ≠ ptx va := fun hx => hsame ⟨rfl, hx⟩
          simp [Kernel.setWord, hx]
        · simp [Kernel.setWord, hd]
    rw [hword] at hpage'
    obtain rfl : t = t' := hpage.symm.trans hpage'
    have hzero : (s.setWord t (ptx va) 0#32).mem t (ptx va) = 0#32 := by
      simp [Kernel.setWord]
    dsimp only
    rw [hzero]
    rfl

/-! ## §4. `page_remove` and `page_insert` among fills. -/

/-- **`page_remove(d, va)`** with fills between its parts; `ok` is required of those
between `invlpg` and the store. -/
inductive RemoveRun (ok : Nat → Word → Prop) (d : Nat) (va : Word) (s s' : Kernel) : Prop where
  | absent {s₀ s₁ : Kernel} (before : Fills always s s₀) (lookup : pageLookup d va s₀ = .ok none s₁)
      (after : Fills always s₁ s')
  | mapped {q t j : Nat} {s₀ s₁ s₂ s₃ s₄ s₅ s₆ : Kernel} (before : Fills always s s₀)
      (lookup : pageLookup d va s₀ = .ok (some (q, (t, j))) s₁) (wait₁ : Fills always s₁ s₂)
      (decref : pageDecref q s₂ = .ok () s₃) (wait₂ : Fills always s₃ s₄)
      (invalidate : tlbInvalidate d va s₄ = .ok () s₅) (window : Fills ok s₅ s₆)
      (after : Fills always (s₆.setWord t j 0#32) s')

/-- **`page_insert(d, pp, va, perm)`** over a mapped page, with fills between its parts. -/
inductive InsertRun (ok : Nat → Word → Prop) (d pp : Nat) (va perm : Word) (s s' : Kernel) : Prop
    where
  | mapped {t j : Nat} {s₀ s₁ s₂ s₃ s₄ s₅ s₆ s₇ : Kernel} (before : Fills always s s₀)
      (walk : pgdirWalk d va true s₀ = .ok (some (t, j)) s₁) (wait₁ : Fills always s₁ s₂)
      (count : incRef pp s₂ = .ok () s₃) (wait₂ : Fills always s₃ s₄)
      (hp : present (s₄.mem t j) = true) (invalidate : tlbInvalidate d va s₄ = .ok () s₅)
      (remove : RemoveRun ok d va s₅ s₆)
      (wait₃ : Fills always (s₆.setWord t j (page2pa pp ||| perm ||| PTE_P)) s₇)
      (after : Fills always
        (s₇.setWord d (pdx va) (s₇.mem d (pdx va) ||| (perm ||| PTE_P))) s')

/-- The call without fills is such a run. -/
theorem pageRemove_removeRun (h : pageRemove d va s = .ok () s') : RemoveRun ok d va s s' := by
  obtain ⟨r, u, hlook, hrest⟩ := bind_inv h
  cases r with
  | none =>
    cases hrest
    exact .absent .refl hlook .refl
  | some r =>
    obtain ⟨q, t, j⟩ := r
    obtain ⟨_, u₁, hdec, hrest⟩ := bind_inv hrest
    obtain ⟨_, u₂, hinv, hrest⟩ := bind_inv hrest
    cases hrest
    exact .mapped .refl hlook .refl hdec .refl hinv .refl .refl

/-- What a run of `page_remove` leaves. -/
structure Removed (s s' : Kernel) (d t : Nat) (va : Word) : Prop where
  mem : s'.mem = (s.setWord t (ptx va) 0#32).mem
  none : walkEntry s'.mem d va = none
  clear : Clear s' d va
  only : OnlyHere s' d

/-- No CPU loads the page of `va` with the page tables at `d`. -/
def heldBack (s : Kernel) (d : Nat) (va : Word) : Nat → Word → Prop :=
  fun c v => ¬ ((s.cpus c).cr3 = d ∧ pgnum v = pgnum va)

theorem OnlyHere.setWord (h : OnlyHere s d) (p i : Nat) (w : Word) :
    OnlyHere (s.setWord p i w) d := ⟨h.others, h.here⟩

/-- **`page_remove` among fills** leaves no translation behind. -/
theorem RemoveRun.removed (hrun : RemoveRun (heldBack u d va) d va s s')
    (hu : TlbFrame u s) (h : OnlyHere s d)
    (ht : target s.mem d (pdx va) = some t) (hx : walkEntry s.mem d va ≠ none) :
    Removed s s' d t va := by
  cases hrun with
  | absent before lookup after =>
    obtain ⟨-, hnone, -⟩ := pageLookup_found lookup
    have hmem := (Fills.frame before).mem
    exact absurd (hmem ▸ hnone rfl) hx
  | @mapped q t' j s₀ s₁ s₂ s₃ s₄ s₅ s₆ before lookup wait₁ decref wait₂ invalidate window after =>
    obtain ⟨rfl, -, hfound⟩ := pageLookup_found lookup
    obtain ⟨ht', rfl⟩ := hfound q t' j rfl
    have hbefore := Fills.frame before
    rw [hbefore.mem, ht] at ht'
    cases ht'
    -- up to `invlpg` only counts and translations change
    have hfr₄ : TlbFrame s s₄ := ((hbefore.trans (Fills.frame wait₁)).trans
      (pageDecref_frame decref)).trans (Fills.frame wait₂)
    obtain rfl : s₅ = s₄.flush d va :=
      ((EStateM.Result.ok.inj ((tlbInvalidate_ok s₄ d va).symm.trans invalidate)).2).symm
    have honly := h.frame hfr₄
    have hfr₅ := hfr₄.trans (flush_frame s₄ d va)
    have hclear := honly.flush va
    -- then nothing is loaded until the entry is cleared
    have hheld : ∀ c v, heldBack u d va c v → ((s₄.flush d va).cpus c).cr3 = d →
        pgnum v ≠ pgnum va := by
      intro c v hok hc hp
      rw [(hu.trans hfr₅).cr3] at hc
      exact hok ⟨hc, hp⟩
    have hclear₆ := hclear.fills_held hheld window
    have hfr₆ := hfr₅.trans (Fills.frame window)
    have hmem : (s₆.setWord t (ptx va) 0#32).mem = (s.setWord t (ptx va) 0#32).mem := by
      unfold Kernel.setWord
      rw [hfr₆.mem]
    have hnone : walkEntry (s₆.setWord t (ptx va) 0#32).mem d va = none := by
      rw [hmem]
      exact walkEntry_cleared ht
    have hclear₇ : Clear (s₆.setWord t (ptx va) 0#32) d va := hclear₆
    have hafter := Fills.frame after
    refine ⟨hafter.mem.trans hmem, ?_, hclear₇.fills_of_none hnone after,
      ((h.frame hfr₆).setWord t (ptx va) 0#32).frame hafter⟩
    rw [hafter.mem]
    exact hnone

theorem incRef_frame (h : incRef pp s = .ok () s') : TlbFrame s s' := by
  cases h
  exact ⟨rfl, rfl, rfl, fun _ => rfl, fun _ => rfl⟩

/-- The new entry, once the old one is cleared. -/
theorem walkEntry_set {w : Word} (ht : target s.mem d (pdx va) = some t) (hne : t ≠ d)
    (hw : present w = true) : walkEntry (s.setWord t (ptx va) w).mem d va = some w := by
  have htar : target (s.setWord t (ptx va) w).mem d (pdx va) = some t := by
    rw [← ht]
    unfold target
    simp [Kernel.setWord, hne.symm]
  have hword : (s.setWord t (ptx va) w).mem t (ptx va) = w := by simp [Kernel.setWord]
  unfold walkEntry
  rw [htar]
  dsimp only
  rw [hword, if_pos hw]

/-- More flags in the directory's entry. -/
theorem walkEntry_orPde (ht : target s.mem d (pdx va) = some t) (hne : t ≠ d)
    (hx : x &&& ~~~0xFFF#32 = 0#32) :
    walkEntry (s.setWord d (pdx va) (s.mem d (pdx va) ||| x)).mem d va = walkEntry s.mem d va := by
  obtain ⟨hp, hpage⟩ := target_eq_some ht
  have hword : (s.setWord d (pdx va) (s.mem d (pdx va) ||| x)).mem d (pdx va)
      = s.mem d (pdx va) ||| x := by simp [Kernel.setWord]
  have htar : target (s.setWord d (pdx va) (s.mem d (pdx va) ||| x)).mem d (pdx va) = some t := by
    unfold target
    rw [hword, if_pos (present_or hp), ptePage_or hx, hpage]
  have hother : (s.setWord d (pdx va) (s.mem d (pdx va) ||| x)).mem t = s.mem t := by
    simp [Kernel.setWord, hne]
  unfold walkEntry
  rw [htar, ht]
  dsimp only
  rw [hother]

/-- **`page_insert` among fills** leaves at most the new translation. -/
theorem InsertRun.upToDate {perm : Word}
    (hrun : InsertRun (heldBack s d va) d pp va perm s s') (h : OnlyHere s d)
    (ht : target s.mem d (pdx va) = some t) (hne : t ≠ d) (hperm : permOk perm = true)
    (hx : walkEntry s.mem d va ≠ none) :
    walkEntry s'.mem d va = some (page2pa pp ||| perm ||| PTE_P) ∧ UpToDate s' d va := by
  cases hrun with
  | @mapped t' j s₀ s₁ s₂ s₃ s₄ s₅ s₆ s₇ before walk wait₁ count wait₂ hp invalidate remove wait₃
      after =>
      have hbefore := Fills.frame before
      obtain ⟨rfl, hr⟩ := pgdirWalk_found (by rw [hbefore.mem]; exact ht) walk
      cases hr
      obtain rfl : s₅ = s₄.flush d va :=
        ((EStateM.Result.ok.inj ((tlbInvalidate_ok s₄ d va).symm.trans invalidate)).2).symm
      -- up to the call of `page_remove` the page tables stay
      have hfr₅ : TlbFrame s (s₄.flush d va) := (((hbefore.trans (Fills.frame wait₁)).trans
        (incRef_frame count)).trans (Fills.frame wait₂)).trans (flush_frame s₄ d va)
      have hrem := remove.removed hfr₅ (h.frame hfr₅) (t := t) (by rw [hfr₅.mem]; exact ht)
        (by rw [hfr₅.mem]; exact hx)
      have ht₆ : target s₆.mem d (pdx va) = some t := by
        rw [hrem.mem, ← ht]
        unfold target
        rw [← hfr₅.mem]
        simp [Kernel.setWord, hne.symm]
      -- the new entry, loaded from now on
      have hnew := walkEntry_set ht₆ hne (present_or_P (page2pa pp ||| perm))
      have hup₆ : UpToDate (s₆.setWord t (ptx va) (page2pa pp ||| perm ||| PTE_P)) d va :=
        Clear.upToDate (hrem.clear : Clear (s₆.setWord t (ptx va) _) d va)
      have hup₇ := hup₆.fills wait₃
      have hwait := Fills.frame wait₃
      have ht₇ : target s₇.mem d (pdx va) = some t := by
        rw [hwait.mem, ← ht₆]
        unfold target
        simp [Kernel.setWord, hne.symm]
      have hflags : (perm ||| PTE_P) &&& ~~~0xFFF#32 = 0#32 := by
        rw [BitVec.and_comm, BitVec.and_or_distrib_left, BitVec.and_comm, permOk_flags hperm]
        decide
      have hpde := walkEntry_orPde ht₇ hne hflags
      have hup₈ : UpToDate (s₇.setWord d (pdx va) (s₇.mem d (pdx va) ||| (perm ||| PTE_P))) d
        va := by
        intro c y hc hy
        rw [hpde]
        exact hup₇ c y hc hy
      refine ⟨?_, hup₈.fills after⟩
      rw [(Fills.frame after).mem, hpde, hwait.mem]
      exact hnew

theorem target_of_walkEntry (hx : walkEntry s.mem d va = some x) :
    ∃ t, target s.mem d (pdx va) = some t := by
  unfold walkEntry at hx
  cases ht : target s.mem d (pdx va) with
  | none =>
    rw [ht] at hx
    cases hx
  | some t => exact ⟨t, rfl⟩

/-- **NO OLD TRANSLATION IS LEFT**, from every state and for every interleaving with
the fills of any number of CPUs, if the directory is loaded on the executing CPU at
most, and that CPU does not load the page again between `invlpg` and the store: once
`page_remove` has returned no CPU with this directory holds a translation of `va`,
and once `page_insert` has returned none but the new one. -/
theorem tlb_coherent (honly : OnlyHere s d) {x : Word} (hx : walkEntry s.mem d va = some x) :
    (RemoveRun (heldBack s d va) d va s s' → walkEntry s'.mem d va = none ∧
      ∀ c, (s'.cpus c).cr3 = d → (s'.cpus c).tlb (pgnum va) = none) ∧
    ∀ pp perm, permOk perm = true → (∀ t, target s.mem d (pdx va) = some t → t ≠ d) →
      InsertRun (heldBack s d va) d pp va perm s s' →
      ∀ c y, (s'.cpus c).cr3 = d → (s'.cpus c).tlb (pgnum va) = some y →
        y = page2pa pp ||| perm ||| PTE_P := by
  obtain ⟨t, ht⟩ := target_of_walkEntry hx
  have hsome : walkEntry s.mem d va ≠ none := by
    rw [hx]
    exact Option.some_ne_none x
  constructor
  · intro hrun
    have hrem := hrun.removed (.refl s) honly ht hsome
    exact ⟨hrem.none, hrem.clear⟩
  · intro pp perm hperm hne hrun c y hc hy
    obtain ⟨hnew, hup⟩ := hrun.upToDate honly ht (hne t ht) hperm hsome
    exact Option.some.inj ((hup c y hc hy).symm.trans hnew)

end

/-! ## §5. Two CPUs. -/

/-- Environment 0 on CPU 0, which executes the kernel, with page 5 at `0x1000`;
environment 1 on CPU 1, with page 6 there and its translation loaded. -/
@[irreducible] def twoCpus : Kernel :=
  { Kernel.powerOn with
    npages := 8
    pages := fun p => ⟨none, if p = 0 ∨ p = 7 then 0 else 1⟩
    mem := fun p i =>
      if p = 1 ∧ i = 0 then page2pa 3 ||| 7#32
      else if p = 3 ∧ i = 1 then page2pa 5 ||| 7#32
      else if p = 2 ∧ i = 0 then page2pa 4 ||| 7#32
      else if p = 4 ∧ i = 1 then page2pa 6 ||| 7#32
      else 0#32
    envs := fun i =>
      if i = 0 then { (default : Env) with
        envId := 0x1000#32, envStatus := .running, envPgdir := some 1 }
      else if i = 1 then { (default : Env) with
        envId := 0x1001#32, envStatus := .running, envPgdir := some 2 }
      else default
    cpus := fun c =>
      if c = 0 then ⟨.started, some 0, 1, default, fun _ => none⟩
      else ⟨.started, some 1, 2, default, fun p =>
        if p = 1 then some (page2pa 6 ||| 7#32) else none⟩
    cpunum := 0 }

theorem twoCpus_cr3 (hc : c ≠ 0) : (twoCpus.cpus c).cr3 = 2 := by
  unfold twoCpus
  simp [hc]

theorem twoCpus_onlyHere : OnlyHere twoCpus 1 := by
  have hcpu : twoCpus.cpunum = 0 := by decide +kernel
  refine ⟨fun c hc => ?_, fun _ => Or.inr ⟨0, by decide +kernel, by decide +kernel⟩⟩
  rw [hcpu] at hc
  rw [twoCpus_cr3 hc]
  decide

/-- The two directories, and the page of each at `0x1000`. -/
theorem twoCpus_remove {d t q : Nat} (ht : target twoCpus.mem d (pdx 0x1000#32) = some t)
    (hlt : t < twoCpus.npages) (hq : target twoCpus.mem t (ptx 0x1000#32) = some q)
    (hqlt : q < twoCpus.npages) (hl : (twoCpus.pages q).ppLink = none) :
    pageRemove d 0x1000#32 twoCpus
      = .ok () (((twoCpus.decref q).flush d 0x1000#32).setWord t (ptx 0x1000#32) 0#32) :=
  pageRemove_some ht hlt hq hqlt fun _ => hl

theorem twoCpus_remove_own : pageRemove 1 0x1000#32 twoCpus
    = .ok () (((twoCpus.decref 5).flush 1 0x1000#32).setWord 3 (ptx 0x1000#32) 0#32) :=
  twoCpus_remove (by decide +kernel) (by decide +kernel) (by decide +kernel) (by decide +kernel)
    (by decide +kernel)

theorem twoCpus_remove_other : pageRemove 2 0x1000#32 twoCpus
    = .ok () (((twoCpus.decref 6).flush 2 0x1000#32).setWord 4 (ptx 0x1000#32) 0#32) :=
  twoCpus_remove (by decide +kernel) (by decide +kernel) (by decide +kernel) (by decide +kernel)
    (by decide +kernel)

/-- Environment 0 unmaps its own page, and nothing is loaded meanwhile. -/
theorem tlb_coherent_own : ∃ s', pageRemove 1 0x1000#32 twoCpus = .ok () s' ∧
    ∀ c, (s'.cpus c).cr3 = 1 → (s'.cpus c).tlb 1 = none :=
  ⟨_, twoCpus_remove_own,
    ((tlb_coherent (x := page2pa 5 ||| 7#32) twoCpus_onlyHere (by decide +kernel)).1
      (pageRemove_removeRun twoCpus_remove_own)).2⟩

/-- The state between `invlpg` and the store, the hardware having loaded `0x1000`
on CPU 0 again. -/
def reloaded : Kernel :=
  ((twoCpus.decref 5).flush 1 0x1000#32).fill 0 0x1000#32 (page2pa 5 ||| 7#32)

/-- **OLD TRANSLATIONS STAY.**  The first run is `page_remove` of a page of the
current environment, with one load between `invlpg` and the store; the second is
`page_remove` of a page of the environment on CPU 1, with no load at all.  Both
pages are free afterwards, and a CPU still translates `0x1000` to them. -/
theorem tlb_stale :
    (∃ s', RemoveRun always 1 0x1000#32 twoCpus s' ∧ OnlyHere twoCpus 1 ∧
      s'.pageFreeList = some 5 ∧ (s'.cpus 0).cr3 = 1 ∧
      (s'.cpus 0).tlb 1 = some (page2pa 5 ||| 7#32)) ∧
    ∃ s', RemoveRun (heldBack twoCpus 2 0x1000#32) 2 0x1000#32 twoCpus s' ∧
      s'.pageFreeList = some 6 ∧ (s'.cpus 1).cr3 = 2 ∧
      (s'.cpus 1).tlb 1 = some (page2pa 6 ||| 7#32) := by
  have hlook : pageLookup 1 0x1000#32 twoCpus = .ok (some (5, (3, ptx 0x1000#32))) twoCpus :=
    pageLookup_some (by decide +kernel) (by decide +kernel) (by decide +kernel) (by decide +kernel)
  have hlink : (twoCpus.pages 5).ppLink = none := by decide +kernel
  have hload : Fill always ((twoCpus.decref 5).flush 1 0x1000#32) reloaded :=
    .load 0 0x1000#32 trivial (by decide +kernel)
  have hown : RemoveRun always 1 0x1000#32 twoCpus (reloaded.setWord 3 (ptx 0x1000#32) 0#32) :=
    .mapped .refl hlook .refl (pageDecref_ok fun _ => hlink) .refl (tlbInvalidate_ok _ _ _)
      (.single hload) .refl
  refine ⟨⟨_, hown, twoCpus_onlyHere, ?_, ?_, ?_⟩,
    ⟨_, pageRemove_removeRun twoCpus_remove_other, ?_, ?_, ?_⟩⟩
  all_goals decide +kernel

end Jos
