/-
  Jos.Fs.OpenTab — **THE FILE SERVER'S TABLE OF OPEN FILES** (`fs/serv.c`).

  Each of the `MAXOPEN` slots has a place for an `Fd` page that the server
  shares with its clients.  Whether a slot is taken is not recorded anywhere:
  `openfile_alloc` and `openfile_lookup` look at `pageref` of the page, which
  is 1 when the server alone has it mapped.

  Clients get the page in the reply to an open; those that have it may map it
  again, pass it on and unmap it.  An open is *live* from its reply until no
  client has its page mapped any more.  `pp_ref` has 16 bits, and with that
  many mappings of one page it no longer tells the truth; the invariant is
  about runs in which it does.
-/
import Jos.Fs.Dir

namespace Jos

open Function (update update_of_ne update_self)

variable {i p : Nat} {r : OpenRec} {s : OpenSys} {t t' : OpenTab}

/-! ## §1. The table. -/

def MAXOPEN : Nat := 1024

/-- `struct Fd`, as the file server fills it in. -/
structure FdPage where
  fdDevId : Word
  fdOffset : Word
  fdOmode : Word
  fdFileId : Word
  deriving DecidableEq

/-- `struct OpenFile`; `o_fd` is where slot `i` has its page, and does not
change. -/
structure OpenFile where
  oFileid : Word
  oFile : FileP
  oMode : Word
  deriving DecidableEq

/-- The table, the pages behind it, and how often they are mapped. -/
structure OpenTab where
  opentab : Nat → OpenFile
  /-- The page at `opentab[i].o_fd`, if there is one. -/
  fdPage : Nat → Option Nat
  fd : Nat → FdPage
  /-- The number of mappings of a page apart from the one at `o_fd`: in clients, and at
  `fsreq` if it came with a request. -/
  maps : Nat → Nat
  /-- Pages allocated so far. -/
  next : Nat

/-- `pp_ref` of a page the server has mapped. -/
def OpenTab.ppRef (t : OpenTab) (p : Nat) : BitVec 16 := BitVec.ofNat 16 (t.maps p + 1)

/-- `pageref(opentab[i].o_fd)`. -/
def OpenTab.pageref (t : OpenTab) (i : Nat) : BitVec 16 :=
  match t.fdPage i with
  | none => 0#16
  | some p => t.ppRef p

/-- `serve_init`. -/
def serveInit : OpenTab where
  opentab i := ⟨BitVec.ofNat 32 i, ⟨0, 0⟩, if i = 0 then 1#32 else 0#32⟩
  fdPage _ := none
  fd _ := ⟨0#32, 0#32, 0#32, 0#32⟩
  maps _ := 0
  next := 0

/-- `sys_page_alloc(0, opentab[i].o_fd, …)` succeeds. -/
def OpenTab.newPage (t : OpenTab) (i : Nat) : OpenTab :=
  { t with
    fdPage := update t.fdPage i (some t.next)
    next := t.next + 1 }

/-- The code of `case 1`: a new id, and the page is cleared. -/
def OpenTab.bump (t : OpenTab) (i : Nat) : OpenTab :=
  { t with
    opentab := update t.opentab i
      { t.opentab i with oFileid := (t.opentab i).oFileid + 1024#32 }
    fd := match t.fdPage i with
      | some p => update t.fd p ⟨0#32, 0#32, 0#32, 0#32⟩
      | none => t.fd }

def E_MAX_OPEN : Word := 10#32

/-- The loop of `openfile_alloc`, with `n` slots to go; `mem` says whether
there is memory for a page.  The slot, or the error. -/
def openfileAllocFrom (mem : Bool) (t : OpenTab) : Nat → Nat → Except Word Nat × OpenTab
  | 0, _ => (.error (-E_MAX_OPEN), t)
  | n + 1, i =>
    if t.pageref i = 0#16 then
      if mem then (.ok i, (t.newPage i).bump i) else (.error (-E_NO_MEM), t)
    else if t.pageref i = 1#16 then (.ok i, t.bump i)
    else openfileAllocFrom mem t n (i + 1)

def openfileAlloc (mem : Bool) (t : OpenTab) : Except Word Nat × OpenTab :=
  openfileAllocFrom mem t MAXOPEN 0

/-- `openfile_lookup`: the slot, or the error. -/
def openfileLookup (t : OpenTab) (fileid : Word) : Except Word Nat :=
  let i := fileid.toNat % MAXOPEN
  if t.pageref i ≤ 1#16 ∨ (t.opentab i).oFileid ≠ fileid then .error (-E_INVAL) else .ok i

def O_ACCMODE : Word := 3#32

/-- `devfile.dev_id`. -/
def devfileId : Word := 0x66#32

/-- The end of `serve_open`: the file and the mode are saved, and the `Fd` is
filled in. -/
def OpenTab.fill (t : OpenTab) (i : Nat) (f : FileP) (omode : Word) : OpenTab :=
  { t with
    opentab := update t.opentab i
      { t.opentab i with oFile := f, oMode := omode }
    fd := match t.fdPage i with
      | some p => update t.fd p
          { t.fd p with
            fdFileId := (t.opentab i).oFileid
            fdOmode := omode &&& O_ACCMODE
            fdDevId := devfileId }
      | none => t.fd }

/-! ## §2. Runs. -/

/-- A successful open: its slot, the how-manieth allocation of the slot it is,
the id it returned, the page, and what `serve_open` saved. -/
structure OpenRec where
  slot : Nat
  k : Nat
  id : Word
  page : Nat
  file : FileP
  mode : Word
  deriving DecidableEq

/-- The table with its history: allocations of each slot, all opens, and the
live ones. -/
structure OpenSys where
  t : OpenTab
  allocs : Nat → Nat
  log : List OpenRec
  live : List OpenRec
  /-- The page at `fsreq`, if it is an `Fd` page. -/
  fsreq : Option Nat

def OpenSys.init : OpenSys := ⟨serveInit, fun _ => 0, [], [], none⟩

/-- How often clients have a page mapped. -/
def OpenSys.clientMaps (s : OpenSys) (p : Nat) : Nat :=
  s.t.maps p - if s.fsreq = some p then 1 else 0

def OpenTab.setMaps (t : OpenTab) (p n : Nat) : OpenTab :=
  { t with maps := update t.maps p n }

/-- The record of an open that took slot `i`, in the table after
`openfile_alloc`. -/
def OpenSys.record (s : OpenSys) (t : OpenTab) (i p : Nat) (f : FileP) (omode : Word) : OpenRec :=
  ⟨i, s.allocs i + 1, (t.opentab i).oFileid, p, f, omode⟩

/-- Steps.  `room t p` is required when page `p` gets one more mapping, and `req` for a client to
send an `Fd` page as the page of a request. -/
inductive OpenStep (room : OpenTab → Nat → Prop) (req : Prop) (s : OpenSys) : OpenSys → Prop where
  /-- No slot, or no memory. -/
  | full {mem : Bool} {r : Word} {t : OpenTab} (h : openfileAlloc mem s.t = (.error r, t)) :
      OpenStep room req s { s with t := t }
  /-- `serve_open` fails after `openfile_alloc`. -/
  | fail {mem : Bool} {i : Nat} {t : OpenTab} (h : openfileAlloc mem s.t = (.ok i, t)) :
      OpenStep room req s { s with
        t := t
        allocs := update s.allocs i (s.allocs i + 1) }
  /-- `serve_open` succeeds, and the client takes the page of the reply. -/
  | opened {mem : Bool} {i p : Nat} {t : OpenTab} (f : FileP) (omode : Word)
      (h : openfileAlloc mem s.t = (.ok i, t)) (hid : 0 ≤ (t.opentab i).oFileid.toInt)
      (hp : t.fdPage i = some p) (hroom : room t p) :
      OpenStep room req s
        ⟨(t.fill i f omode).setMaps p (t.maps p + 1),
          update s.allocs i (s.allocs i + 1),
          s.record t i p f omode :: s.log, s.record t i p f omode :: s.live, s.fsreq⟩
  /-- `serve_open` succeeds, and the client has asked for no page. -/
  | ignored {mem : Bool} {i p : Nat} {t : OpenTab} (f : FileP) (omode : Word)
      (h : openfileAlloc mem s.t = (.ok i, t)) (hid : 0 ≤ (t.opentab i).oFileid.toInt)
      (hp : t.fdPage i = some p) :
      OpenStep room req s
        ⟨t.fill i f omode, update s.allocs i (s.allocs i + 1),
          s.record t i p f omode :: s.log, s.live, s.fsreq⟩
  /-- A client that has a page maps it once more, or passes it on. -/
  | share {p : Nat} (hp : 0 < s.clientMaps p) (hroom : room s.t p) :
      OpenStep room req s { s with t := s.t.setMaps p (s.t.maps p + 1) }
  /-- A mapping goes away. -/
  | unmap {p : Nat} (hp : 0 < s.clientMaps p) :
      OpenStep room req s { s with
        t := s.t.setMaps p (s.t.maps p - 1)
        live := if s.clientMaps p = 1 then s.live.filter (fun r => r.page ≠ p) else s.live }
  /-- A client stores to an `Fd` page. -/
  | poke {p : Nat} (x : FdPage) (hp : 0 < s.clientMaps p) :
      OpenStep room req s { s with t := { s.t with fd := update s.t.fd p x } }
  /-- A client sends an `Fd` page with a request, and the server maps it at `fsreq`. -/
  | request {p : Nat} (hreq : req) (hp : 0 < s.clientMaps p) (hidle : s.fsreq = none)
      (hroom : room s.t p) :
      OpenStep room req s { s with t := s.t.setMaps p (s.t.maps p + 1), fsreq := some p }
  /-- The server has answered, and unmaps it. -/
  | reply {p : Nat} (hp : s.fsreq = some p) :
      OpenStep room req s { s with t := s.t.setMaps p (s.t.maps p - 1), fsreq := none }

/-- The count of the page still fits. -/
def MapRoom (t : OpenTab) (p : Nat) : Prop := t.maps p + 2 < 2 ^ 16

/-! ## §3. The invariant. -/

structure TabInv (s : OpenSys) : Prop where
  id : ∀ i < MAXOPEN, (s.t.opentab i).oFileid = BitVec.ofNat 32 (i + MAXOPEN * s.allocs i)
  page_lt : ∀ i p, s.t.fdPage i = some p → p < s.t.next
  page_inj : ∀ i j p, s.t.fdPage i = some p → s.t.fdPage j = some p → i = j
  fresh : ∀ p, s.t.next ≤ p → s.t.maps p = 0
  bounded : ∀ p, s.t.maps p + 1 < 2 ^ 16
  held : ∀ p, 0 < s.t.maps p → ∃ r ∈ s.live, r.page = p
  live : ∀ r ∈ s.live, r.slot < MAXOPEN ∧ s.t.fdPage r.slot = some r.page ∧
    0 < s.t.maps r.page ∧ s.t.opentab r.slot = ⟨r.id, r.file, r.mode⟩ ∧
    r.k = s.allocs r.slot ∧ r ∈ s.log
  log : ∀ r ∈ s.log, r.slot < MAXOPEN ∧ r.id = BitVec.ofNat 32 (r.slot + MAXOPEN * r.k) ∧
    r.k ≤ s.allocs r.slot
  uniq : ∀ r ∈ s.log, ∀ r' ∈ s.log, r.slot = r'.slot → r.k = r'.k → r = r'
  noReq : s.fsreq = none

theorem clientMaps_eq (h : s.fsreq = none) (p : Nat) : s.clientMaps p = s.t.maps p := by
  unfold OpenSys.clientMaps
  rw [h]
  rfl

/-- With at most 65535 mappings, `pageref` is the number of mappings. -/
theorem TabInv.pageref_toNat (h : TabInv s)
    (hp : s.t.fdPage i = some p) : (s.t.pageref i).toNat = s.t.maps p + 1 := by
  have hlt := h.bounded p
  unfold OpenTab.pageref OpenTab.ppRef
  rw [hp, toNat_ofNat_lt hlt]

/-- What `openfile_alloc` does: the slot it takes has no page, or one that no
client has mapped. -/
inductive Taken (t : OpenTab) (i : Nat) : OpenTab → Prop where
  | fresh (hp : t.fdPage i = none) : Taken t i ((t.newPage i).bump i)
  | idle {p : Nat} (hp : t.fdPage i = some p) (h0 : t.maps p = 0) : Taken t i (t.bump i)

theorem openfileAllocFrom_cases (h : TabInv s) (mem : Bool) (n : Nat) :
    ∀ i, i + n = MAXOPEN → ∀ r t, openfileAllocFrom mem s.t n i = (r, t) →
      (∃ e, r = .error e ∧ t = s.t) ∨ ∃ j < MAXOPEN, r = .ok j ∧ Taken s.t j t := by
  induction n with
  | zero =>
    intro i _ r t hrun
    cases hrun
    exact Or.inl ⟨_, rfl, rfl⟩
  | succ n ih =>
    intro i hi r t hrun
    unfold openfileAllocFrom at hrun
    cases hp : s.t.fdPage i with
    | none =>
      rw [if_pos (by unfold OpenTab.pageref; rw [hp])] at hrun
      cases mem with
      | false =>
        cases hrun
        exact Or.inl ⟨_, rfl, rfl⟩
      | true =>
        cases hrun
        exact Or.inr ⟨i, by omega, rfl, .fresh hp⟩
    | some p =>
      have href := h.pageref_toNat hp
      rw [if_neg (by intro h0; rw [h0] at href; simp at href)] at hrun
      by_cases h1 : s.t.pageref i = 1#16
      · rw [if_pos h1] at hrun
        cases hrun
        rw [h1] at href
        exact Or.inr ⟨i, by omega, rfl, .idle hp (by simpa using href.symm)⟩
      · rw [if_neg h1] at hrun
        exact ih (i + 1) (by omega) r t hrun

theorem openfileAlloc_ok (h : TabInv s) {mem : Bool}
    (hrun : openfileAlloc mem s.t = (.ok i, t)) : i < MAXOPEN ∧ Taken s.t i t := by
  rcases openfileAllocFrom_cases h mem MAXOPEN 0 (Nat.zero_add _) _ _ hrun with
    ⟨e, he, -⟩ | ⟨j, hj, he, ht⟩
  · cases he
  · cases he
    exact ⟨hj, ht⟩

theorem openfileAlloc_error (h : TabInv s) {mem : Bool} {r : Word}
    (hrun : openfileAlloc mem s.t = (.error r, t)) : t = s.t := by
  rcases openfileAllocFrom_cases h mem MAXOPEN 0 (Nat.zero_add _) _ _ hrun with
    ⟨e, -, ht⟩ | ⟨j, -, he, -⟩
  · exact ht
  · cases he

/-- The history after slot `i` has been allocated once more. -/
def OpenSys.taken (s : OpenSys) (i : Nat) (t : OpenTab) : OpenSys :=
  { s with t := t, allocs := update s.allocs i (s.allocs i + 1) }

/-- A slot that is taken belongs to no live open. -/
theorem TabInv.not_live (h : TabInv s) (ht : Taken s.t i t) (hr : r ∈ s.live) : r.slot ≠ i := by
  intro he
  obtain ⟨-, hp, hpos, -⟩ := h.live r hr
  rw [he] at hp
  cases ht with
  | fresh hn =>
    rw [hn] at hp
    cases hp
  | idle hs h0 =>
    rw [hs] at hp
    cases hp
    omega

theorem Taken.opentab (h : Taken t i t') :
    t'.opentab = update t.opentab i
      { t.opentab i with oFileid := (t.opentab i).oFileid + 1024#32 } := by
  cases h <;> rfl

theorem Taken.maps (h : Taken t i t') : t'.maps = t.maps := by
  cases h <;> rfl

/-- The page of the taken slot: new, or kept. -/
theorem Taken.fdPage (h : Taken t i t') :
    (t'.fdPage = update t.fdPage i (some t.next) ∧ t'.next = t.next + 1 ∧
      t.fdPage i = none) ∨ (t'.fdPage = t.fdPage ∧ t'.next = t.next ∧
      ∃ p, t.fdPage i = some p ∧ t.maps p = 0) := by
  cases h with
  | fresh hp => exact Or.inl ⟨rfl, rfl, hp⟩
  | idle hp h0 => exact Or.inr ⟨rfl, rfl, _, hp, h0⟩

section
variable (h : TabInv s)
include h

/-- **`openfile_alloc` keeps the invariant.** -/
theorem TabInv.taken (hi : i < MAXOPEN) (ht : Taken s.t i t) : TabInv (s.taken i t) := by
  have htab := ht.opentab
  have hmaps := ht.maps
  -- pages of other slots stay, and the slot's own page is new or was there
  have hpage : ∀ j p, t.fdPage j = some p →
      s.t.fdPage j = some p ∨ (j = i ∧ p = s.t.next ∧ t.next = s.t.next + 1) := by
    intro j p hp
    rcases ht.fdPage with ⟨hf, hn, -⟩ | ⟨hf, -, -⟩
    · rw [hf] at hp
      by_cases hj : j = i
      · rw [hj, update_self] at hp
        exact Or.inr ⟨hj, (Option.some.inj hp).symm, hn⟩
      · rw [update_of_ne hj] at hp
        exact Or.inl hp
    · rw [hf] at hp
      exact Or.inl hp
  have hnext : s.t.next ≤ t.next := by
    rcases ht.fdPage with ⟨-, hn, -⟩ | ⟨-, hn, -⟩ <;> omega
  have hkeep : ∀ j p, j ≠ i → s.t.fdPage j = some p → t.fdPage j = some p := by
    intro j p hj hp
    rcases ht.fdPage with ⟨hf, -, -⟩ | ⟨hf, -, -⟩
    · rw [hf, update_of_ne hj]
      exact hp
    · rw [hf]
      exact hp
  constructor
  · intro j hj
    show (t.opentab j).oFileid = BitVec.ofNat 32 (j + MAXOPEN * update s.allocs i _ j)
    rw [htab]
    by_cases hji : j = i
    · subst hji
      rw [update_self, update_self, h.id j hj]
      rw [show (1024#32 : Word) = BitVec.ofNat 32 MAXOPEN from rfl, ← BitVec.ofNat_add,
        Nat.mul_add, Nat.mul_one, Nat.add_assoc]
    · rw [update_of_ne hji, update_of_ne hji, h.id j hj]
  · intro j p hp
    rcases hpage j p hp with hp | ⟨-, rfl, hn⟩
    · have := h.page_lt j p hp
      show p < t.next
      omega
    · show s.t.next < t.next
      omega
  · intro j j' p hp hp'
    rcases hpage j p hp with hq | ⟨hj, hq, -⟩
    · rcases hpage j' p hp' with hq' | ⟨-, hq', -⟩
      · exact h.page_inj j j' p hq hq'
      · have := h.page_lt j p hq
        omega
    · rcases hpage j' p hp' with hq' | ⟨hj', -, -⟩
      · have := h.page_lt j' p hq'
        omega
      · rw [hj, hj']
  · intro p hp
    show t.maps p = 0
    rw [hmaps]
    exact h.fresh p (Nat.le_trans hnext hp)
  · intro p
    show t.maps p + 1 < 2 ^ 16
    rw [hmaps]
    exact h.bounded p
  · intro p hp
    replace hp : 0 < t.maps p := hp
    rw [hmaps] at hp
    exact h.held p hp
  · intro r hr
    obtain ⟨hs, hp, hpos, htb, hk, hl⟩ := h.live r hr
    have hne := h.not_live ht hr
    refine ⟨hs, hkeep _ _ hne hp, ?_, ?_, ?_, hl⟩
    · show 0 < t.maps r.page
      rw [hmaps]
      exact hpos
    · show t.opentab r.slot = _
      rw [htab, update_of_ne hne]
      exact htb
    · show r.k = update s.allocs i _ r.slot
      rw [update_of_ne hne]
      exact hk
  · intro r hr
    obtain ⟨hs, hid, hk⟩ := h.log r hr
    refine ⟨hs, hid, ?_⟩
    show r.k ≤ update s.allocs i _ r.slot
    by_cases hri : r.slot = i
    · rw [hri, update_self]
      rw [hri] at hk
      omega
    · rw [update_of_ne hri]
      exact hk
  · exact h.uniq
  · exact h.noReq

/-- Saving the file and the mode, and filling in the `Fd`, changes the slot's
entry only. -/
theorem TabInv.fill (f : FileP) (omode : Word)
    (hfree : ∀ r ∈ s.live, r.slot ≠ i) : TabInv { s with t := s.t.fill i f omode } := by
  have htab : ∀ j, j ≠ i → (s.t.fill i f omode).opentab j = s.t.opentab j :=
    fun j hj => update_of_ne hj _ _
  have hid : ∀ j, ((s.t.fill i f omode).opentab j).oFileid = (s.t.opentab j).oFileid := by
    intro j
    by_cases hj : j = i
    · subst hj
      show (update s.t.opentab j _ j).oFileid = _
      rw [update_self]
    · rw [htab j hj]
  refine ⟨fun j hj => (hid j).trans (h.id j hj), h.page_lt, h.page_inj, h.fresh, h.bounded, h.held,
    ?_, h.log, h.uniq, h.noReq⟩
  intro r hr
  obtain ⟨hs, hp, hpos, htb, hrest⟩ := h.live r hr
  exact ⟨hs, hp, hpos, (htab _ (hfree r hr)).trans htb, hrest⟩

/-- The record of a new open. -/
theorem TabInv.record {f : FileP} {omode : Word} (hi : i < MAXOPEN) (ht : Taken s.t i t) :
    TabInv ⟨t.fill i f omode, update s.allocs i (s.allocs i + 1),
      s.record t i p f omode :: s.log, s.live, s.fsreq⟩ := by
  have ht' := (h.taken hi ht).fill f omode fun r hr => h.not_live ht hr
  refine ⟨ht'.id, ht'.page_lt, ht'.page_inj, ht'.fresh, ht'.bounded, ht'.held, ?_, ?_, ?_,
    ht'.noReq⟩
  · intro r hr
    obtain ⟨hs, hp, hpos, htb, hk, hl⟩ := ht'.live r hr
    exact ⟨hs, hp, hpos, htb, hk, List.mem_cons_of_mem _ hl⟩
  · intro r hr
    rcases List.mem_cons.mp hr with rfl | hr
    · refine ⟨hi, ?_, ?_⟩
      · have hid := (h.taken hi ht).id i hi
        replace hid : (t.opentab i).oFileid
            = BitVec.ofNat 32 (i + MAXOPEN * update s.allocs i (s.allocs i + 1) i) := hid
        rw [update_self] at hid
        exact hid
      · show s.allocs i + 1 ≤ update s.allocs i (s.allocs i + 1) i
        rw [update_self]
    · exact ht'.log r hr
  · -- an older record of the slot has a smaller number
    have hold : ∀ r ∈ s.log, r.slot = i → r.k ≠ s.allocs i + 1 := by
      intro r hr hs hk
      have := (h.log r hr).2.2
      rw [hs] at this
      omega
    intro r hr r' hr' hs hk
    rcases List.mem_cons.mp hr with rfl | hr
    · rcases List.mem_cons.mp hr' with rfl | hr'
      · rfl
      · exact absurd hk.symm (hold r' hr' hs.symm)
    · rcases List.mem_cons.mp hr' with rfl | hr'
      · exact absurd hk (hold r hr hs)
      · exact h.uniq r hr r' hr' hs hk

/-- One more mapping of the page of a live open, or of one that becomes live. -/
theorem TabInv.addMap {live' : List OpenRec}
    (hlive : ∀ x, x ∈ live' ↔ x = r ∨ x ∈ s.live) (hroom : MapRoom s.t r.page)
    (hslot : r.slot < MAXOPEN) (hpage : s.t.fdPage r.slot = some r.page)
    (htab : s.t.opentab r.slot = ⟨r.id, r.file, r.mode⟩) (hk : r.k = s.allocs r.slot)
    (hlog : r ∈ s.log) :
    TabInv { s with t := s.t.setMaps r.page (s.t.maps r.page + 1), live := live' } := by
  have hle : ∀ q, s.t.maps q ≤ (s.t.setMaps r.page (s.t.maps r.page + 1)).maps q := by
    intro q
    show _ ≤ update s.t.maps r.page _ q
    by_cases hq : q = r.page
    · rw [hq, update_self]
      omega
    · rw [update_of_ne hq]
  have hself : 0 < (s.t.setMaps r.page (s.t.maps r.page + 1)).maps r.page := by
    show 0 < update s.t.maps r.page _ r.page
    rw [update_self]
    omega
  have hlt := h.page_lt _ _ hpage
  refine ⟨h.id, h.page_lt, h.page_inj, ?_, ?_, ?_, ?_, h.log, h.uniq, h.noReq⟩
  · intro q hq
    replace hq : s.t.next ≤ q := hq
    show update s.t.maps r.page _ q = 0
    rw [update_of_ne (by omega)]
    exact h.fresh q hq
  · intro q
    show update s.t.maps r.page _ q + 1 < 2 ^ 16
    by_cases hq : q = r.page
    · rw [hq, update_self]
      exact hroom
    · rw [update_of_ne hq]
      exact h.bounded q
  · intro q hq
    by_cases hqp : q = r.page
    · exact ⟨r, (hlive r).mpr (Or.inl rfl), hqp.symm⟩
    · replace hq : 0 < update s.t.maps r.page (s.t.maps r.page + 1) q := hq
      rw [update_of_ne hqp] at hq
      obtain ⟨x, hx, hxq⟩ := h.held q hq
      exact ⟨x, (hlive x).mpr (Or.inr hx), hxq⟩
  · intro x hx
    rcases (hlive x).mp hx with rfl | hx
    · exact ⟨hslot, hpage, hself, htab, hk, hlog⟩
    · obtain ⟨hs, hp, hpos, hrest⟩ := h.live x hx
      exact ⟨hs, hp, Nat.lt_of_lt_of_le hpos (hle _), hrest⟩

/-- A mapping goes away; with the last one the opens of the page end. -/
theorem TabInv.dropMap (hp : 0 < s.t.maps p) :
    TabInv { s with
      t := s.t.setMaps p (s.t.maps p - 1)
      live := if s.t.maps p = 1 then s.live.filter (fun r => r.page ≠ p) else s.live } := by
  have hsub : ∀ r, r ∈ (if s.t.maps p = 1 then s.live.filter (fun r => r.page ≠ p) else s.live) →
      r ∈ s.live ∧ (s.t.maps p = 1 → r.page ≠ p) := by
    intro r hr
    split at hr
    · obtain ⟨hr, hne⟩ := List.mem_filter.mp hr
      exact ⟨hr, fun _ => by simpa using hne⟩
    · exact ⟨hr, fun h1 => absurd h1 (by assumption)⟩
  refine ⟨h.id, h.page_lt, h.page_inj, ?_, ?_, ?_, ?_, h.log, h.uniq, h.noReq⟩
  · intro q hq
    have h0 := h.fresh q hq
    show update s.t.maps p _ q = 0
    rw [update_of_ne (by rintro rfl; omega)]
    exact h0
  · intro q
    show update s.t.maps p _ q + 1 < 2 ^ 16
    have := h.bounded q
    by_cases hq : q = p
    · subst hq
      rw [update_self]
      omega
    · rw [update_of_ne hq]
      exact this
  · intro q hq
    replace hq : 0 < update s.t.maps p (s.t.maps p - 1) q := hq
    by_cases hqp : q = p
    · rw [hqp, update_self] at hq
      obtain ⟨r, hr, hrp⟩ := h.held p hp
      refine ⟨r, ?_, by rw [hqp]; exact hrp⟩
      rw [if_neg (by omega)]
      exact hr
    · rw [update_of_ne hqp] at hq
      obtain ⟨r, hr, hrp⟩ := h.held q hq
      refine ⟨r, ?_, hrp⟩
      split
      · exact List.mem_filter.mpr ⟨hr, by rw [hrp]; simpa using hqp⟩
      · exact hr
  · intro r hr
    obtain ⟨hr, hne⟩ := hsub r hr
    obtain ⟨hs, hpg, hpos, hrest⟩ := h.live r hr
    refine ⟨hs, hpg, ?_, hrest⟩
    show 0 < update s.t.maps p _ r.page
    by_cases hrp : r.page = p
    · rw [hrp, update_self]
      by_cases h1 : s.t.maps p = 1
      · exact absurd hrp (hne h1)
      · omega
    · rw [update_of_ne hrp]
      exact hpos

end

/-- **Every step keeps the invariant.** -/
theorem TabInv.step {s s' : OpenSys} (h : TabInv s) (hs : OpenStep MapRoom False s s') :
    TabInv s' := by
  have hmaps := clientMaps_eq h.noReq
  cases hs with
  | full hal =>
    rw [openfileAlloc_error h hal]
    exact h
  | fail hal =>
    obtain ⟨hi, ht⟩ := openfileAlloc_ok h hal
    exact h.taken hi ht
  | ignored f omode hal hid hp =>
    obtain ⟨hi, ht⟩ := openfileAlloc_ok h hal
    exact h.record hi ht
  | @opened mem i p t f omode hal hid hp hroom =>
    obtain ⟨hi, ht⟩ := openfileAlloc_ok h hal
    have hrec : TabInv ⟨t.fill i f omode, update s.allocs i (s.allocs i + 1),
        s.record t i p f omode :: s.log, s.live, s.fsreq⟩ := h.record hi ht
    apply hrec.addMap (r := s.record t i p f omode) (fun x => List.mem_cons) hroom hi hp
    · show update t.opentab i _ i = _
      rw [update_self]
      rfl
    · show s.allocs i + 1 = update s.allocs i (s.allocs i + 1) i
      rw [update_self]
    · exact List.mem_cons_self
  | share hp hroom =>
    rw [hmaps] at hp
    obtain ⟨r, hr, rfl⟩ := h.held _ hp
    obtain ⟨hslot, hpage, -, htab, hk, hlog⟩ := h.live r hr
    have hsame : ∀ x, x ∈ s.live ↔ x = r ∨ x ∈ s.live := by
      intro x
      constructor
      · exact Or.inr
      · rintro (rfl | hx)
        · exact hr
        · exact hx
    exact h.addMap hsame hroom hslot hpage htab hk hlog
  | unmap hp =>
    rw [hmaps] at hp ⊢
    exact h.dropMap hp
  | poke x hp =>
    exact ⟨h.id, h.page_lt, h.page_inj, h.fresh, h.bounded, h.held, h.live, h.log, h.uniq, h.noReq⟩
  | request hreq => exact hreq.elim
  | reply hp =>
    rw [h.noReq] at hp
    cases hp

theorem TabInv.init : TabInv OpenSys.init := by
  refine ⟨fun i hi => ?_, ?_, ?_, fun _ _ => rfl, ?_, ?_, ?_, ?_, ?_, rfl⟩
  · show BitVec.ofNat 32 i = BitVec.ofNat 32 (i + MAXOPEN * 0)
    rw [Nat.mul_zero, Nat.add_zero]
  · intro i p hp
    cases hp
  · intro i j p hp
    cases hp
  · intro p
    show 0 + 1 < 2 ^ 16
    decide
  · intro p hp
    exact absurd hp (Nat.lt_irrefl 0)
  · intro r hr
    cases hr
  · intro r hr
    cases hr
  · intro r hr
    cases hr

theorem TabInv.of_run
    (hrun : Relation.ReflTransGen (OpenStep MapRoom False) OpenSys.init s) : TabInv s := by
  induction hrun with
  | refl => exact TabInv.init
  | tail _ hs ih => exact ih.step hs

/-! ## §4. The table tells open files apart. -/

/-- Ids of different slots, and of different allocations of a slot, differ. -/
theorem TabInv.id_inj (h : TabInv s) (hcount : ∀ i, s.allocs i < 2 ^ 21)
    {r r' : OpenRec} (hr : r ∈ s.log) (hr' : r' ∈ s.log) (hid : r.id = r'.id) : r = r' := by
  obtain ⟨hs, hi, hk⟩ := h.log r hr
  obtain ⟨hs', hi', hk'⟩ := h.log r' hr'
  have hc := hcount r.slot
  have hc' := hcount r'.slot
  have heq := congrArg BitVec.toNat hid
  unfold MAXOPEN at *
  rw [hi, hi', toNat_ofNat_lt (by omega), toNat_ofNat_lt (by omega)] at heq
  exact h.uniq r hr r' hr' (by omega) (by omega)

/-- `openfile_lookup` finds the live opens and no others. -/
theorem TabInv.lookup (h : TabInv s) (fileid : Word) :
    openfileLookup s.t fileid = .error (-E_INVAL) ∨
      ∃ r ∈ s.live, r.id = fileid ∧ openfileLookup s.t fileid = .ok r.slot := by
  unfold openfileLookup
  by_cases hbad : s.t.pageref (fileid.toNat % MAXOPEN) ≤ 1#16 ∨
      (s.t.opentab (fileid.toNat % MAXOPEN)).oFileid ≠ fileid
  · rw [if_pos hbad]
    exact Or.inl rfl
  · rw [if_neg hbad]
    obtain ⟨href, hid⟩ := not_or.mp hbad
    cases hp : s.t.fdPage (fileid.toNat % MAXOPEN) with
    | none =>
      unfold OpenTab.pageref at href
      rw [hp] at href
      exact absurd (show 0#16 ≤ 1#16 by decide) href
    | some p =>
      have hnat := h.pageref_toNat hp
      have hpos : 0 < s.t.maps p := by
        by_contra h0
        apply href
        rw [BitVec.le_def, hnat]
        show s.t.maps p + 1 ≤ 1
        omega
      obtain ⟨r, hr, rfl⟩ := h.held p hpos
      obtain ⟨-, hpage, -, htab, -⟩ := h.live r hr
      have hslot := h.page_inj _ _ _ hpage hp
      refine Or.inr ⟨r, hr, ?_, by rw [hslot]⟩
      rw [hslot] at htab
      rw [htab] at hid
      exact not_not.mp hid

theorem TabInv.lookup_live (h : TabInv s) (hr : r ∈ s.live) :
    openfileLookup s.t r.id = .ok r.slot := by
  obtain ⟨hslot, hpage, hpos, htab, hk, hlog⟩ := h.live r hr
  have hid := (h.log r hlog).2.1
  have hmod : r.id.toNat % MAXOPEN = r.slot := by
    rw [hid, BitVec.toNat_ofNat]
    unfold MAXOPEN at *
    omega
  have hnat := h.pageref_toNat hpage
  unfold openfileLookup
  rw [hmod]
  refine if_neg ?_
  rintro (hle | hne)
  · rw [BitVec.le_def, hnat] at hle
    replace hle : s.t.maps r.page + 1 ≤ 1 := hle
    omega
  · rw [htab] at hne
    exact hne rfl

/-- **The open-file table.**  In every run in which no `Fd` page gets 65536
mappings or is sent as the page of a request, and with fewer than `2^21` allocations of each slot: live opens have
different slots and different pages, an id that was issued is found exactly if
its open is live, no other id is, and the entry found is that of the open, the
newest of its slot. -/
theorem openfile_table {s : OpenSys}
    (hrun : Relation.ReflTransGen (OpenStep MapRoom False) OpenSys.init s)
    (hcount : ∀ i, s.allocs i < 2 ^ 21) :
    (∀ r ∈ s.live, ∀ r' ∈ s.live, r ≠ r' → r.slot ≠ r'.slot ∧ r.page ≠ r'.page) ∧
      (∀ r ∈ s.live, openfileLookup s.t r.id = .ok r.slot ∧
        s.t.opentab r.slot = ⟨r.id, r.file, r.mode⟩ ∧
        ∀ r' ∈ s.log, r'.slot = r.slot → r'.k ≤ r.k) ∧
      (∀ r ∈ s.log, r ∉ s.live → openfileLookup s.t r.id = .error (-E_INVAL)) ∧
      ∀ fileid, (∀ r ∈ s.log, r.id ≠ fileid) →
        openfileLookup s.t fileid = .error (-E_INVAL) := by
  have h := TabInv.of_run hrun
  refine ⟨?_, ?_, ?_, ?_⟩
  · intro r hr r' hr' hne
    obtain ⟨-, hp, -, -, hk, hl⟩ := h.live r hr
    obtain ⟨-, hp', -, -, hk', hl'⟩ := h.live r' hr'
    have hslot : r.slot ≠ r'.slot := by
      intro he
      rw [he, ← hk'] at hk
      exact hne (h.uniq r hl r' hl' he hk)
    refine ⟨hslot, ?_⟩
    intro he
    rw [he] at hp
    exact hslot (h.page_inj _ _ _ hp hp')
  · intro r hr
    obtain ⟨-, -, -, htab, hk, -⟩ := h.live r hr
    refine ⟨h.lookup_live hr, htab, ?_⟩
    intro r' hr' hs
    rw [hk, ← hs]
    exact (h.log r' hr').2.2
  · intro r hr hdead
    rcases h.lookup r.id with herr | ⟨r', hr', hid, -⟩
    · exact herr
    · have := h.id_inj hcount (h.live r' hr').2.2.2.2.2 hr hid
      rw [this] at hr'
      exact absurd hr' hdead
  · intro fileid hno
    rcases h.lookup fileid with herr | ⟨r', hr', hid, -⟩
    · exact herr
    · exact absurd hid (hno r' (h.live r' hr').2.2.2.2.2)

/-! ## §5. The first open, and 65536 mappings of its page. -/

/-- The file and mode of the opens below. -/
def openA : FileP := ⟨3, 0⟩

/-- The first open takes slot 0. -/
def firstOpen : OpenSys where
  t := (((serveInit.newPage 0).bump 0).fill 0 openA 0#32).setMaps 0 1
  allocs := update (fun _ => 0) 0 1
  log := [⟨0, 1, 1024#32, 0, openA, 0#32⟩]
  live := [⟨0, 1, 1024#32, 0, openA, 0#32⟩]
  fsreq := none

theorem firstOpen_step (room : OpenTab → Nat → Prop) (req : Prop)
    (hroom : room ((serveInit.newPage 0).bump 0) 0) : OpenStep room req OpenSys.init firstOpen :=
  .opened (s := OpenSys.init) (p := 0) openA 0#32 (show openfileAlloc true serveInit = _ from rfl)
    (by decide) rfl hroom

theorem openfile_table_first : OpenStep MapRoom False OpenSys.init firstOpen ∧
    openfileLookup firstOpen.t 1024#32 = .ok 0 := by
  have hstep := firstOpen_step MapRoom False (show 0 + 2 < 2 ^ 16 by decide)
  have hcount : ∀ i, firstOpen.allocs i < 2 ^ 21 := by
    intro i
    show update (fun _ => 0) 0 1 i < 2 ^ 21
    by_cases hi : i = 0
    · rw [hi, update_self]
      decide
    · rw [update_of_ne hi]
      decide
  exact ⟨hstep, ((openfile_table (.single hstep) hcount).2.1 _ List.mem_cons_self).1⟩

/-- The state with `n` mappings of the page. -/
def manyMaps (n : Nat) : OpenSys := { firstOpen with t := firstOpen.t.setMaps 0 n }

theorem manyMaps_one : manyMaps 1 = firstOpen := by
  unfold manyMaps firstOpen OpenTab.setMaps
  simp

/-- The client maps the page again and again. -/
theorem share_run (n : Nat) :
    Relation.ReflTransGen (OpenStep (fun _ _ => True) False) firstOpen (manyMaps (n + 1)) := by
  induction n with
  | zero =>
    rw [manyMaps_one]
  | succ n ih =>
    have hs : OpenStep (fun _ _ => True) False (manyMaps (n + 1)) _ :=
      .share (p := 0) (Nat.succ_pos n) trivial
    have he : { manyMaps (n + 1) with
        t := (manyMaps (n + 1)).t.setMaps 0 ((manyMaps (n + 1)).t.maps 0 + 1) }
        = manyMaps (n + 1 + 1) := by
      unfold manyMaps OpenTab.setMaps
      simp
    rw [he] at hs
    exact ih.tail hs

/-- **With 65536 mappings `pp_ref` is 0 again**, and the next open takes over the
slot while the first open is still live. -/
theorem openfile_slot_taken_over : ∃ s, Relation.ReflTransGen (OpenStep (fun _ _ => True) False)
    OpenSys.init s ∧ (∀ i, s.allocs i < 2 ^ 21) ∧
    ∃ r ∈ s.live, ∃ r' ∈ s.live, r ≠ r' ∧ r.slot = r'.slot := by
  have hfirst := firstOpen_step (fun _ _ => True) False trivial
  have hal : openfileAlloc true (manyMaps 65535).t
      = (.ok 0, ((manyMaps 65535).t.newPage 0).bump 0) := rfl
  have hsecond : OpenStep (fun _ _ => True) False (manyMaps 65535) _ :=
    .opened (p := 1) openA 0#32 hal (by decide) rfl trivial
  refine ⟨_, (Relation.ReflTransGen.single hfirst).trans ((share_run 65534).tail hsecond), ?_, ?_⟩
  · intro i
    show update (update (fun _ => 0) 0 1) 0 2 i < 2 ^ 21
    by_cases hi : i = 0
    · rw [hi, update_self]
      decide
    · rw [update_of_ne hi, update_of_ne hi]
      decide
  · refine ⟨_, List.mem_cons_self, ⟨0, 1, 1024#32, 0, openA, 0#32⟩,
      List.mem_cons_of_mem _ List.mem_cons_self, ?_, rfl⟩
    intro he
    exact absurd (congrArg OpenRec.k he) (by decide)

end Jos
