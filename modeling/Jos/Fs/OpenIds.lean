/-
  Jos.Fs.OpenIds — **FILE IDS RUN OUT** (`openfile_alloc` and `serve_open` in `fs/serv.c`).

  Every allocation of a slot adds `MAXOPEN` to its file id, and the id is returned
  as an `int`, in which negative values are errors.  So long as a slot has been
  allocated fewer than `2^21` times its ids are not negative, and `openfile_alloc`
  fails only for lack of memory or of slots.  The allocation after that one fails
  with the table empty: `serve_open` takes the id for an error.
-/
import Jos.Fs.Serve

namespace Jos

open Exec
open Function (update update_of_ne update_self)

variable {i : Nat} {s : OpenSys} {t : OpenTab}

/-! ## §1. What `openfile_alloc` returns. -/

/-- The return value of `openfile_alloc`: the id of the slot, or the error. -/
def openfileAllocRet (mem : Bool) (t : OpenTab) : Word :=
  match openfileAlloc mem t with
  | (.error r, _) => r
  | (.ok i, t') => (t'.opentab i).oFileid

/-- The page of slot `i` is mapped somewhere else. -/
def OpenTab.Held (t : OpenTab) (i : Nat) : Prop := ∃ p, t.fdPage i = some p ∧ 0 < t.maps p

/-- A client has the page of slot `i` mapped. -/
def OpenSys.Held (s : OpenSys) (i : Nat) : Prop :=
  ∃ p, s.t.fdPage i = some p ∧ 0 < s.clientMaps p

theorem OpenTab.held_of_pageref (h0 : t.pageref i ≠ 0#16) (h1 : t.pageref i ≠ 1#16) : t.Held i := by
  cases hp : t.fdPage i with
  | none =>
    unfold OpenTab.pageref at h0
    rw [hp] at h0
    exact absurd rfl h0
  | some p =>
    refine ⟨p, hp, Nat.pos_of_ne_zero fun hz => ?_⟩
    unfold OpenTab.pageref at h1
    rw [hp] at h1
    exact h1 (congrArg (fun n => BitVec.ofNat 16 (n + 1)) hz)

/-- What `openfile_alloc` does, whatever the table. -/
inductive AllocCase (mem : Bool) (t : OpenTab) : Except Word Nat × OpenTab → Prop where
  | noMem (hmem : mem = false) : AllocCase mem t (.error (-E_NO_MEM), t)
  | full (hall : ∀ i < MAXOPEN, t.Held i) : AllocCase mem t (.error (-E_MAX_OPEN), t)
  | slot {i : Nat} {t' : OpenTab} (hi : i < MAXOPEN)
      (hid : t'.opentab = update t.opentab i
        { t.opentab i with oFileid := (t.opentab i).oFileid + 1024#32 }) :
      AllocCase mem t (.ok i, t')

theorem openfileAllocFrom_case (mem : Bool) (t : OpenTab) (n : Nat) :
    ∀ i, i + n = MAXOPEN → (∀ j < i, t.Held j) → AllocCase mem t (openfileAllocFrom mem t n i) := by
  induction n with
  | zero =>
    intro i hi hheld
    exact .full fun j hj => hheld j (by omega)
  | succ n ih =>
    intro i hi hheld
    have hlt : i < MAXOPEN := by omega
    unfold openfileAllocFrom
    by_cases h0 : t.pageref i = 0#16
    · rw [if_pos h0]
      cases mem with
      | false => exact .noMem rfl
      | true => exact .slot hlt rfl
    · rw [if_neg h0]
      by_cases h1 : t.pageref i = 1#16
      · rw [if_pos h1]
        exact .slot hlt rfl
      · rw [if_neg h1]
        refine ih (i + 1) (by omega) fun j hj => ?_
        rcases Nat.lt_succ_iff_lt_or_eq.mp hj with hj | rfl
        · exact hheld j hj
        · exact OpenTab.held_of_pageref h0 h1

theorem openfileAlloc_case (mem : Bool) (t : OpenTab) : AllocCase mem t (openfileAlloc mem t) :=
  openfileAllocFrom_case mem t MAXOPEN 0 (Nat.zero_add _) fun _ hj => absurd hj (Nat.not_lt_zero _)

/-! ## §2. Ids over a run. -/

/-- The id of a slot tells how often the slot has been allocated. -/
def IdsCount (s : OpenSys) : Prop :=
  ∀ i < MAXOPEN, (s.t.opentab i).oFileid = BitVec.ofNat 32 (i + MAXOPEN * s.allocs i)

theorem IdsCount.taken (h : IdsCount s) (hid : t.opentab = update s.t.opentab i
      { s.t.opentab i with oFileid := (s.t.opentab i).oFileid + 1024#32 })
    {allocs : Nat → Nat} (hal : allocs = update s.allocs i (s.allocs i + 1)) :
    ∀ j < MAXOPEN, (t.opentab j).oFileid = BitVec.ofNat 32 (j + MAXOPEN * allocs j) := by
  intro j hj
  rw [hid, hal]
  by_cases hji : j = i
  · subst hji
    rw [update_self, update_self, h j hj,
      show (1024#32 : Word) = BitVec.ofNat 32 MAXOPEN from rfl, ← BitVec.ofNat_add, Nat.mul_add,
      Nat.mul_one, Nat.add_assoc]
  · rw [update_of_ne hji, update_of_ne hji, h j hj]

theorem fill_oFileid (t : OpenTab) (i : Nat) (f : FileP) (omode : Word) (j : Nat) :
    ((t.fill i f omode).opentab j).oFileid = (t.opentab j).oFileid := by
  show (update t.opentab i _ j).oFileid = _
  by_cases hj : j = i
  · rw [hj, update_self]
  · rw [update_of_ne hj]

/-- **Every step counts.** -/
theorem IdsCount.step {room : OpenTab → Nat → Prop} {req : Prop} {s s' : OpenSys} (h : IdsCount s)
    (hs : OpenStep room req s s') : IdsCount s' := by
  have hslot : ∀ {mem : Bool} {i : Nat} {t : OpenTab}, openfileAlloc mem s.t = (.ok i, t) →
      ∀ j < MAXOPEN, (t.opentab j).oFileid
        = BitVec.ofNat 32 (j + MAXOPEN * update s.allocs i (s.allocs i + 1) j) := by
    intro mem i t hal
    have hc := openfileAlloc_case mem s.t
    rw [hal] at hc
    cases hc with
    | slot hi hid => exact h.taken hid rfl
  cases hs with
  | @full mem r t hal =>
    have hc := openfileAlloc_case mem s.t
    rw [hal] at hc
    cases hc <;> exact h
  | fail hal => exact hslot hal
  | opened f omode hal hid hp hroom =>
    intro j hj
    exact (fill_oFileid _ _ f omode j).trans (hslot hal j hj)
  | ignored f omode hal hid hp =>
    intro j hj
    exact (fill_oFileid _ _ f omode j).trans (hslot hal j hj)
  | _ => exact h

theorem IdsCount.of_run {room : OpenTab → Nat → Prop} {req : Prop}
    (hrun : Relation.ReflTransGen (OpenStep room req) OpenSys.init s) : IdsCount s := by
  induction hrun with
  | refl =>
    intro i _
    show BitVec.ofNat 32 i = BitVec.ofNat 32 (i + MAXOPEN * 0)
    rw [Nat.mul_zero, Nat.add_zero]
  | tail _ hs ih => exact ih.step hs

/-- Without `Fd` pages in requests there is none at `fsreq`. -/
theorem noReq_of_run {room : OpenTab → Nat → Prop}
    (hrun : Relation.ReflTransGen (OpenStep room False) OpenSys.init s) : s.fsreq = none := by
  induction hrun with
  | refl => rfl
  | tail _ hs ih =>
    cases hs with
    | request hreq => exact hreq.elim
    | reply hp => rfl
    | _ => exact ih

theorem toInt_ofNat_nonneg {n : Nat} (h : n < 2 ^ 31) : 0 ≤ (BitVec.ofNat 32 n).toInt := by
  rw [BitVec.toInt_eq_toNat_cond, toNat_ofNat_lt (by omega), if_pos (by omega)]
  omega

/-! ## §3. `serve_open`. -/

theorem serveOpen_slot {mem : Bool} {srv : Srv} {bytes : List Byte}
    (hb : reqBytes 0 (MAXPATHLEN - 1) srv = .ok bytes srv)
    (hal : openfileAlloc mem srv.tab = (.ok i, t)) (hid : 0 ≤ (t.opentab i).oFileid.toInt) :
    serveOpen mem srv = serveOpenFile (bytes.takeWhile (· ≠ 0#8)) i { srv with tab := t } := by
  have hslt : (t.opentab i).oFileid.slt 0#32 = false := by
    rw [BitVec.slt_eq_decide, decide_eq_false_iff_not]
    exact not_lt.mpr hid
  unfold serveOpen serveOpenFile
  rw [bind_ok hb, bind_get, hal]
  refine (bind_ok (show (set { srv with tab := t } : SrvM PUnit) srv = .ok ⟨⟩ _ from rfl)).trans ?_
  rw [hslt]
  rfl

theorem serveOpen_negative {mem : Bool} {srv : Srv} {bytes : List Byte}
    (hb : reqBytes 0 (MAXPATHLEN - 1) srv = .ok bytes srv)
    (hal : openfileAlloc mem srv.tab = (.ok i, t)) (hid : (t.opentab i).oFileid.toInt < 0) :
    serveOpen mem srv = .ok ((t.opentab i).oFileid, none) { srv with tab := t } := by
  have hslt : (t.opentab i).oFileid.slt 0#32 = true := by
    rw [BitVec.slt_eq_decide, decide_eq_true_eq]
    exact hid
  unfold serveOpen
  rw [bind_ok hb, bind_get, hal]
  refine (bind_ok (show (set { srv with tab := t } : SrvM PUnit) srv = .ok ⟨⟩ _ from rfl)).trans ?_
  rw [hslt]
  rfl

/-- **Ids are not negative.**  After any run in which each slot has been allocated
fewer than `2^21 - 1` times and no `Fd` page was sent with a request, `openfile_alloc` fails only when `sys_page_alloc` does,
or when clients hold every slot; otherwise it returns an id that is not negative,
and `serve_open` goes on to open the file. -/
theorem openfileAlloc_ret {room : OpenTab → Nat → Prop} {s : OpenSys}
    (hrun : Relation.ReflTransGen (OpenStep room False) OpenSys.init s)
    (hcount : ∀ i < MAXOPEN, s.allocs i + 1 < 2 ^ 21) (mem : Bool) :
    (mem = false ∧ openfileAlloc mem s.t = (.error (-E_NO_MEM), s.t)) ∨
    ((∀ i < MAXOPEN, s.Held i) ∧ openfileAlloc mem s.t = (.error (-E_MAX_OPEN), s.t)) ∨
    ∃ i t, openfileAlloc mem s.t = (.ok i, t) ∧ 0 ≤ (openfileAllocRet mem s.t).toInt ∧
      ∀ (srv : Srv) (bytes : List Byte), srv.tab = s.t →
        reqBytes 0 (MAXPATHLEN - 1) srv = .ok bytes srv →
        serveOpen mem srv
          = serveOpenFile (bytes.takeWhile (· ≠ 0#8)) i { srv with tab := t } := by
  have hids := IdsCount.of_run hrun
  have hc := openfileAlloc_case mem s.t
  generalize hal : openfileAlloc mem s.t = res at hc
  cases hc with
  | noMem hmem => exact Or.inl ⟨hmem, rfl⟩
  | full hall =>
    refine Or.inr (Or.inl ⟨fun i hi => ?_, rfl⟩)
    obtain ⟨p, hp, hpos⟩ := hall i hi
    exact ⟨p, hp, by rwa [clientMaps_eq (noReq_of_run hrun)]⟩
  | @slot i t hi hid =>
    have hnew := hids.taken hid rfl i hi
    rw [update_self] at hnew
    -- `i + 1024 * (allocs + 1) < 2^31`, as `i < 1024` and `allocs + 1 < 2^21`.
    have hpos : 0 ≤ (t.opentab i).oFileid.toInt := by
      rw [hnew]
      apply toInt_ofNat_nonneg
      have := hcount i hi
      show i + 1024 * (s.allocs i + 1) < 2 ^ 31
      have : i < 1024 := hi
      omega
    refine Or.inr (Or.inr ⟨i, t, rfl, ?_, ?_⟩)
    · unfold openfileAllocRet
      rw [hal]
      exact hpos
    · intro srv bytes htab hb
      exact serveOpen_slot hb (htab ▸ hal) hpos

/-- The second open, while the first is held. -/
theorem openfileAlloc_ret_second : firstOpen.Held 0 ∧
    0 ≤ (openfileAllocRet true firstOpen.t).toInt := by
  have hrun := Relation.ReflTransGen.single
    (firstOpen_step MapRoom False (show 0 + 2 < 2 ^ 16 by decide))
  have hcount : ∀ i < MAXOPEN, firstOpen.allocs i + 1 < 2 ^ 21 := by
    intro i _
    show update (fun _ => 0) 0 1 i + 1 < 2 ^ 21
    by_cases h0 : i = 0
    · rw [h0, update_self]
      decide
    · rw [update_of_ne h0]
      decide
  refine ⟨⟨0, rfl, by decide⟩, ?_⟩
  rcases openfileAlloc_ret hrun hcount true with hm | hf | ⟨_, _, _, hpos, _⟩
  · exact absurd hm.1 (by decide)
  · obtain ⟨p, hp, -⟩ := hf.1 1 (by decide)
    exact absurd (show (none : Option Nat) = some p from hp) nofun
  · exact hpos

/-! ## §4. Opening and closing one file until its id is negative. -/

/-- The first slot has been allocated `k` times, and no client holds anything. -/
structure Cycled (k : Nat) (s : OpenSys) : Prop where
  run : Relation.ReflTransGen (OpenStep MapRoom False) OpenSys.init s
  live : s.live = []
  page : s.t.fdPage 0 = some 0 ∧ s.t.maps 0 = 0
  allocs : s.allocs 0 = k

/-- The table after the next allocation of the first slot. -/
theorem Cycled.alloc {k : Nat} (h : Cycled k s) :
    openfileAlloc true s.t = (.ok 0, s.t.bump 0) ∧
    ((s.t.bump 0).opentab 0).oFileid = BitVec.ofNat 32 (1024 * (k + 1)) := by
  have href : s.t.pageref 0 = 1#16 := by
    unfold OpenTab.pageref OpenTab.ppRef
    rw [h.page.1]
    show BitVec.ofNat 16 (s.t.maps 0 + 1) = 1#16
    rw [h.page.2]
  constructor
  · show openfileAllocFrom true s.t (1023 + 1) 0 = _
    rw [openfileAllocFrom, href, if_neg (by decide), if_pos rfl]
  · have hnew := (IdsCount.of_run h.run).taken (i := 0) (t := s.t.bump 0) rfl rfl 0 (by decide)
    rw [update_self, h.allocs, Nat.zero_add] at hnew
    exact hnew

theorem setMaps_maps (t : OpenTab) (p n : Nat) : (t.setMaps p n).maps p = n := by
  exact update_self p n t.maps

/-- **One more open and close.** -/
theorem Cycled.again {k : Nat} (h : Cycled k s) (hk : k + 1 < 2 ^ 21) :
    ∃ s', Cycled (k + 1) s' := by
  obtain ⟨hal, hid⟩ := h.alloc
  have hpos : 0 ≤ ((s.t.bump 0).opentab 0).oFileid.toInt := by
    rw [hid]
    exact toInt_ofNat_nonneg (by omega)
  have hmaps : (s.t.bump 0).maps 0 = 0 := h.page.2
  have hopen : OpenStep MapRoom False s _ := .opened (p := 0) openA 0#32 hal hpos h.page.1
    (show (s.t.bump 0).maps 0 + 2 < 2 ^ 16 by rw [hmaps]; decide)
  have hone : (((s.t.bump 0).fill 0 openA 0#32).setMaps 0 ((s.t.bump 0).maps 0 + 1)).maps 0 = 1 :=
    by
    rw [setMaps_maps, hmaps]
  have hclient := (clientMaps_eq (noReq_of_run (h.run.tail hopen)) 0).trans hone
  refine ⟨_, (h.run.tail hopen).tail (.unmap (p := 0) (by rw [hclient]; decide)), ?_, ⟨?_, ?_⟩, ?_⟩
  · rw [if_pos hclient, h.live]
    rfl
  · exact h.page.1
  · exact (setMaps_maps _ _ _).trans (by rw [hone])
  · show update s.allocs 0 (s.allocs 0 + 1) 0 = k + 1
    rw [update_self, h.allocs]

theorem cycled_one : ∃ s, Cycled 1 s := by
  have hopen := firstOpen_step MapRoom False (show 0 + 2 < 2 ^ 16 by decide)
  exact ⟨_, (Relation.ReflTransGen.single hopen).tail (.unmap (p := 0) (by decide)), rfl,
    ⟨rfl, rfl⟩, rfl⟩

theorem cycled_all (k : Nat) (hk : k + 1 < 2 ^ 21) : ∃ s, Cycled (k + 1) s := by
  induction k with
  | zero => exact cycled_one
  | succ k ih =>
    obtain ⟨s, hs⟩ := ih (by omega)
    exact hs.again hk

/-- **The ids run out.**  A client opens and closes one file `2^21 - 1` times.
No client holds anything then and there is memory, but `openfile_alloc` returns a
negative id, and `serve_open` fails without having looked at the path. -/
theorem openfileAlloc_runs_out : ∃ s, Relation.ReflTransGen (OpenStep MapRoom False) OpenSys.init
    s ∧
    s.live = [] ∧ (openfileAllocRet true s.t).toInt = -2 ^ 31 ∧
    ∀ (srv : Srv) (bytes : List Byte), srv.tab = s.t →
      reqBytes 0 (MAXPATHLEN - 1) srv = .ok bytes srv →
      ∃ t, serveOpen true srv = .ok (0x80000000#32, none) { srv with tab := t } := by
  obtain ⟨s, hs⟩ := cycled_all (2 ^ 21 - 2) (by decide)
  obtain ⟨hal, hid⟩ := hs.alloc
  have hval : ((s.t.bump 0).opentab 0).oFileid = 0x80000000#32 := hid
  refine ⟨s, hs.run, hs.live, ?_, ?_⟩
  · unfold openfileAllocRet
    rw [hal]
    show ((s.t.bump 0).opentab 0).oFileid.toInt = _
    rw [hval]
    rfl
  · intro srv bytes htab hb
    rw [← htab] at hal hval
    have hneg := serveOpen_negative hb hal (by rw [hval]; decide)
    rw [hval] at hneg
    exact ⟨_, hneg⟩

end Jos
