/-
  Jos.Fs.Cache — **THE BLOCK CACHE IS TRANSPARENT** (`fs/bc.c`, `fs_sync`).

  Below the memory of blocks that the file functions work on lie the disk and
  the pages mapped at `DISKMAP`.  A block is read in when its page is first
  touched, and written back by `flush_block` when the page's `PTE_D` is set; the
  bit is cleared by mapping the page onto itself.

  What the cache shows of a block is its page, if there is one, and the disk
  block otherwise.  Reads and writes work on what the cache shows
  (`cache_transparent`); reading in and flushing do not change it.
-/
import Jos.Fs.Files
import Jos.Mem.RefWrap

namespace Jos.Bc

open Exec
open Function (update update_of_ne update_self update_eq_self update_idem)

variable {c : Cache} {p : Page} {addr b va : Word}

/-! ## §1. Disk, pages and accesses. -/

def DISKMAP : Word := 0x10000000#32
def DISKSIZE : Word := 0xC0000000#32
def BLKSECTS : Nat := 8
def PTE_D : Word := 0x040#32

/-- A page at `DISKMAP` and the flags of its entry. -/
structure Page where
  data : Nat → Word
  flags : Word

/-- The pages are indexed by page number; `super` and `bitmap` say whether these
pointers are set. -/
structure Cache where
  disk : Disk
  page : Nat → Option Page
  super : Bool
  bitmap : Bool

abbrev BcM := EStateM String Cache

def vaIsMapped (c : Cache) (va : Word) : Bool := (c.page (pgnum va)).isSome

def Page.dirty (p : Page) : Bool := p.flags &&& PTE_D != 0#32

def vaIsDirty (c : Cache) (va : Word) : Bool :=
  match c.page (pgnum va) with
  | some p => p.dirty
  | none => false

/-- `ide_read(secno, addr, BLKSECTS)`: the stores set `PTE_D`. -/
def ideRead (secno : Nat) (addr : Word) : BcM Unit :=
  modify fun c =>
    match c.page (pgnum addr) with
    | some p => { c with
        page := update c.page (pgnum addr)
          (some ⟨c.disk (secno / BLKSECTS), p.flags ||| PTE_D⟩) }
    | none => c

/-- `ide_write(secno, addr, BLKSECTS)`. -/
def ideWrite (secno : Nat) (addr : Word) : BcM Unit :=
  modify fun c =>
    match c.page (pgnum addr) with
    | some p => { c with disk := update c.disk (secno / BLKSECTS) p.data }
    | none => c

/-- `sys_page_alloc(0, addr, perm)`. -/
def sysPageAlloc (addr perm : Word) : BcM Unit :=
  modify fun c => { c with
    page := update c.page (pgnum addr) (some ⟨fun _ => 0#32, perm ||| PTE_P⟩) }

/-- `sys_page_map(0, addr, 0, addr, perm)`. -/
def sysPageMapSelf (addr perm : Word) : BcM Unit :=
  modify fun c =>
    match c.page (pgnum addr) with
    | some p => { c with
        page := update c.page (pgnum addr) (some ⟨p.data, perm ||| PTE_P⟩) }
    | none => c

/-- The word at `va`; if its page is missing, `fault` is called first. -/
def loadWord (fault : Word → BcM Unit) (va : Word) : BcM Word := do
  let c ← get
  if !vaIsMapped c va then fault va
  match (← get).page (pgnum va) with
  | some p => return p.data (pgoff va / 4)
  | none => throw "page fault"

/-- Store a byte. -/
def storeByte (fault : Word → BcM Unit) (va : Word) (x : Byte) : BcM Unit := do
  let c ← get
  if !vaIsMapped c va then fault va
  match (← get).page (pgnum va) with
  | some p => modify fun c => { c with
      page := update c.page (pgnum va) (some
        ⟨update p.data (pgoff va / 4) (putByte (p.data (pgoff va / 4)) (pgoff va % 4) x),
          p.flags ||| PTE_D⟩) }
  | none => throw "page fault"

/-! ## §2. `bc.c`. -/

/-- `super->s_nblocks`, with `super == DISKMAP + BLKSIZE`. -/
def sNblocks (fault : Word → BcM Unit) : BcM Word := loadWord fault 0x10001004#32

/-- `block_is_free(blockno)`, with `bitmap == DISKMAP + 2 * BLKSIZE`. -/
def blockIsFree (fault : Word → BcM Unit) (blockno : Word) : BcM Bool := do
  if !(← get).super then return false
  else if (← sNblocks fault) ≤ blockno then return false
  else
    let w ← loadWord fault (0x10002000#32 + 4#32 * (blockno / 32#32))
    return w &&& (1#32 <<< (blockno.toNat % 32)) ≠ 0#32

/-- `((uint32_t)addr - DISKMAP) / BLKSIZE`. -/
def blockOf (va : Word) : Word := (va - DISKMAP) / 4096#32

/-- The address lies in the disk map. -/
def inMap (va : Word) : Bool := decide (DISKMAP ≤ va ∧ va < DISKMAP + DISKSIZE)

/-- `bc_pgfault`; the number bounds the faults inside faults. -/
def bcPgfault : Nat → Word → BcM Unit
  | 0, _ => throw "user exception stack overflow"
  | n + 1, va => do
      if !inMap va then throw "page fault in FS"
      if (← get).super then
        if (← sNblocks (bcPgfault n)) ≤ blockOf va then throw "reading non-existent block"
      sysPageAlloc (rounddown va) PTE_SYSCALL
      ideRead ((blockOf va).toNat * BLKSECTS) (rounddown va)
      match (← get).page (pgnum (rounddown va)) with
      | some p => sysPageMapSelf (rounddown va) (p.flags &&& PTE_SYSCALL)
      | none => throw "in bc_pgfault, sys_page_map"
      if (← get).bitmap then
        if ← blockIsFree (bcPgfault n) (blockOf va) then throw "reading free block"

/-- A page fault at `va`. -/
def fault : Word → BcM Unit := bcPgfault 3

def diskaddr (blockno : Word) : BcM Word := do
  if blockno = 0#32 then throw "bad block number in diskaddr"
  if (← get).super then
    if (← sNblocks fault) ≤ blockno then throw "bad block number in diskaddr"
  return DISKMAP + blockno * 4096#32

def flushBlock (va : Word) : BcM Unit := do
  if !inMap va then throw "flush_block of bad va"
  let c ← get
  if !vaIsMapped c (rounddown va) || !vaIsDirty c (rounddown va) then return ()
  else
    ideWrite ((blockOf va).toNat * BLKSECTS) (rounddown va)
    sysPageMapSelf (rounddown va) PTE_SYSCALL

/-- The loop of `fs_sync` from `i` on, at most `n` rounds. -/
def fsSyncFrom : Nat → Word → BcM Unit
  | 0, _ => throw "fs_sync"
  | n + 1, i => do
      if i < (← sNblocks fault) then
        flushBlock (← diskaddr i)
        fsSyncFrom n (i + 1#32)
      else return ()

def fsSync : BcM Unit := do
  if !(← get).super then throw "super is not set"
  fsSyncFrom (2 ^ 32) 1#32

/-! ## §3. What the cache shows. -/

/-- The number of blocks in the disk map. -/
def MAPBLOCKS : Nat := 786432

/-- The page number of block `b`. -/
def blockPage (b : Nat) : Nat := 65536 + b

/-- The page of the block if there is one, the disk block otherwise. -/
def Cache.shows (c : Cache) : Disk := fun b =>
  match c.page (blockPage b) with
  | some p => p.data
  | none => c.disk b

/-- A page that is not dirty is what is on the disk; the super block was read
before `super` was set. -/
structure Coherent (c : Cache) : Prop where
  clean : ∀ b p, c.page (blockPage b) = some p → p.dirty = false → p.data = c.disk b
  super : c.super = true → ∃ p, c.page (blockPage 1) = some p

/-- A disk that `check_super` and `check_bitmap` accept. -/
structure Mounted (d : Disk) : Prop where
  small : nblocks d ≤ MAPBLOCKS
  large : 2 < nblocks d
  reserved : ∀ b, Reserved d b → inUse d b

/-- **Pages are read in, and nothing else happens.** -/
structure Loads (c c' : Cache) : Prop where
  disk : c'.disk = c.disk
  super : c'.super = c.super
  bitmap : c'.bitmap = c.bitmap
  kept : ∀ v p, c.page v = some p → c'.page v = some p
  read : ∀ v, c.page v = none → ∀ p, c'.page v = some p →
    ∃ b, v = blockPage b ∧ p.data = c.disk b ∧ p.dirty = false

theorem Loads.rfl (c : Cache) : Loads c c :=
  ⟨Eq.refl _, Eq.refl _, Eq.refl _, fun _ _ h => h,
    fun v hn p hp => absurd (hn.symm.trans hp) (by simp)⟩

theorem Loads.trans {c₁ c₂ c₃ : Cache} (h : Loads c₁ c₂) (h' : Loads c₂ c₃) : Loads c₁ c₃ := by
  refine ⟨h'.disk.trans h.disk, h'.super.trans h.super, h'.bitmap.trans h.bitmap,
    fun v p hp => h'.kept v p (h.kept v p hp), fun v hn p hp => ?_⟩
  cases hmid : c₂.page v with
  | none =>
    obtain ⟨b, hb, hdata, hclean⟩ := h'.read v hmid p hp
    exact ⟨b, hb, by rw [hdata, h.disk], hclean⟩
  | some q =>
    obtain rfl : q = p := Option.some.inj ((h'.kept v q hmid).symm.trans hp)
    exact h.read v hn q hmid

theorem blockPage_inj {a b : Nat} (h : blockPage a = blockPage b) : a = b := by
  unfold blockPage at h
  omega

/-- Reading in does not change what the cache shows. -/
theorem Loads.shows {c c' : Cache} (h : Loads c c') : c'.shows = c.shows := by
  funext b
  unfold Cache.shows
  cases hp : c.page (blockPage b) with
  | some p => rw [h.kept _ _ hp]
  | none =>
    cases hp' : c'.page (blockPage b) with
    | none => rw [h.disk]
    | some p =>
      obtain ⟨b', hb, hdata, -⟩ := h.read _ hp p hp'
      rw [blockPage_inj hb]
      exact hdata

theorem Loads.coherent {c c' : Cache} (h : Loads c c') (hc : Coherent c) : Coherent c' := by
  refine ⟨fun b p hp hclean => ?_, fun hs => ?_⟩
  · rw [h.disk]
    cases hold : c.page (blockPage b) with
    | some q =>
      obtain rfl : q = p := Option.some.inj ((h.kept _ _ hold).symm.trans hp)
      exact hc.clean b q hold hclean
    | none =>
      obtain ⟨b', hb, hdata, -⟩ := h.read _ hold p hp
      rw [blockPage_inj hb]
      exact hdata
  · rw [h.super] at hs
    obtain ⟨p, hp⟩ := hc.super hs
    exact ⟨p, h.kept _ _ hp⟩

/-! ## §4. Addresses. -/

theorem inMap_iff (va : Word) :
    inMap va = true ↔ 65536 * 4096 ≤ va.toNat ∧ va.toNat < (65536 + MAPBLOCKS) * 4096 := by
  unfold inMap
  rw [decide_eq_true_iff, BitVec.le_def, BitVec.lt_def]
  exact Iff.rfl

theorem blockOf_toNat (h : inMap va = true) : (blockOf va).toNat = va.toNat / 4096 - 65536 := by
  rw [inMap_iff] at h
  unfold blockOf
  rw [BitVec.toNat_udiv, BitVec.toNat_sub_of_le h.1]
  show (va.toNat - 65536 * 4096) / 4096 = _
  omega

/-- The page of an address in the disk map is that of its block. -/
theorem pgnum_eq_blockPage (h : inMap va = true) : pgnum va = blockPage (blockOf va).toNat := by
  rw [blockOf_toNat h, pgnum_eq]
  rw [inMap_iff] at h
  unfold blockPage
  omega

theorem pgnum_rounddown (va : Word) : pgnum (rounddown va) = pgnum va := by
  rw [pgnum_eq, pgnum_eq, rounddown_toNat]
  omega

/-- The address of the bitmap word of a block. -/
def bitmapVa (b : Word) : Word := 0x10002000#32 + 4#32 * (b / 32#32)

theorem bitmapVa_toNat : (bitmapVa b).toNat = 0x10002000 + 4 * (b.toNat / 32) := by
  unfold bitmapVa
  show (0x10002000 + 4 * (b.toNat / 32) % 2 ^ 32) % 2 ^ 32 = _
  omega

section
variable (hb : b.toNat < MAPBLOCKS)
include hb

theorem bitmapVa_inMap : inMap (bitmapVa b) = true := by
  rw [inMap_iff, bitmapVa_toNat]
  unfold MAPBLOCKS at *
  omega

theorem bitmapVa_block :
    (blockOf (bitmapVa b)).toNat = bitmapBlk b.toNat ∧
      pgoff (bitmapVa b) / 4 = bitmapIdx b.toNat := by
  rw [blockOf_toNat (bitmapVa_inMap hb), pgoff_eq, bitmapVa_toNat]
  unfold bitmapBlk bitmapIdx
  omega

end

/-! ## §5. Reading in. -/

/-- `fault` reads in the page of `va`. -/
def ReadsIn (f : Word → BcM Unit) (va : Word) (c : Cache) : Prop :=
  wp (f va) (fun _ c' => Loads c c' ∧ ∃ p, c'.page (pgnum va) = some p) (fun _ _ => False) c

/-- A load returns what the cache shows. -/
theorem loadWord_spec {f : Word → BcM Unit} (hmap : inMap va = true)
    (hf : c.page (pgnum va) = none → ReadsIn f va c) :
    wp (loadWord f va) (fun w c' => Loads c c' ∧ (∃ p, c'.page (pgnum va) = some p) ∧
      w = c.shows (blockOf va).toNat (pgoff va / 4)) (fun _ _ => False) c := by
  -- once the page is there
  have hthere : ∀ c', Loads c c' → (∃ p, c'.page (pgnum va) = some p) →
      wp (do
        match (← get).page (pgnum va) with
        | some p => return p.data (pgoff va / 4)
        | none => throw "page fault" : BcM Word)
        (fun w c' => Loads c c' ∧ (∃ p, c'.page (pgnum va) = some p) ∧
          w = c.shows (blockOf va).toNat (pgoff va / 4)) (fun _ _ => False) c' := by
    intro c' hl ⟨p, hp⟩
    refine wp_get_bind ?_
    rw [hp]
    refine ⟨hl, ⟨p, hp⟩, ?_⟩
    rw [← hl.shows]
    unfold Cache.shows
    rw [← pgnum_eq_blockPage hmap, hp]
  refine wp_get_bind ?_
  unfold vaIsMapped
  cases hp : c.page (pgnum va) with
  | some p => exact hthere c (Loads.rfl c) ⟨p, hp⟩
  | none => exact wp_seq (hf hp) fun _ c' h => hthere c' h.1 h.2

/-- With `super` set, `s_nblocks` is read without a fault. -/
theorem sNblocks_ok {f : Word → BcM Unit} (hc : Coherent c) (hs : c.super = true) :
    sNblocks f c = .ok (c.shows 1 1) c := by
  obtain ⟨p, hp⟩ := hc.super hs
  have hp' : c.page (pgnum 0x10001004#32) = some p := by
    exact hp
  unfold sNblocks loadWord
  rw [bind_get]
  unfold vaIsMapped
  rw [hp', if_neg (by simp)]
  beta_reduce
  rw [bind_get, hp']
  unfold Cache.shows
  rw [hp]
  rfl

/-- The last check of `bc_pgfault`. -/
theorem blockIsFree_spec {f : Word → BcM Unit} (hc : Coherent c)
    (hlt : b.toNat < nblocks c.shows) (hsmall : nblocks c.shows ≤ MAPBLOCKS)
    (hf : c.page (pgnum (bitmapVa b)) = none → ReadsIn f (bitmapVa b) c) :
    wp (blockIsFree f b) (fun r c' => Loads c c' ∧
      (c.super = true → r = decide (¬ inUse c.shows b.toNat)) ∧ (c.super = false → r = false))
      (fun _ _ => False) c := by
  have hb : b.toNat < MAPBLOCKS := lt_of_lt_of_le hlt hsmall
  refine wp_get_bind ?_
  by_cases hs : c.super = true
  · rw [hs, if_neg (by decide)]
    refine wp_bind_ok (sNblocks_ok hc hs) ?_
    have hle : ¬ c.shows 1 1 ≤ b := by
      exact Nat.not_le.mpr hlt
    rw [if_neg hle]
    apply wp_seq (loadWord_spec (bitmapVa_inMap hb) hf)
    intro w c' ⟨hl, _, hw⟩
    refine ⟨hl, fun _ => ?_, fun hno => by cases hno⟩
    rw [(bitmapVa_block hb).1, (bitmapVa_block hb).2] at hw
    rw [decide_eq_decide, testBit_eq _ (Nat.mod_lt _ (by omega)), hw]
    unfold inUse
    simp
  · have hs' : c.super = false := by simpa using hs
    rw [hs', if_pos (by decide)]
    exact ⟨Loads.rfl c, fun h => absurd h (by decide), fun _ => rfl⟩

/-- A page read in by `bc_pgfault`, with `PTE_D` cleared. -/
def readIn (c : Cache) (va : Word) : Cache :=
  { c with
    page := update c.page (pgnum va) (some ⟨c.disk (blockOf va).toNat, PTE_SYSCALL⟩) }

theorem readIn_loads (hmap : inMap va = true)
    (hnone : c.page (pgnum va) = none) : Loads c (readIn c va) := by
  refine ⟨rfl, rfl, rfl, fun v p hp => ?_, fun v hn p hp => ?_⟩
  · have hv : v ≠ pgnum va := by
      rintro rfl
      rw [hnone] at hp
      cases hp
    exact (update_of_ne hv _ _).trans hp
  · by_cases hv : v = pgnum va
    · subst hv
      have hself : (readIn c va).page (pgnum va)
        = some ⟨c.disk (blockOf va).toNat, PTE_SYSCALL⟩ := update_self _ _ _
      obtain rfl := Option.some.inj (hself.symm.trans hp)
      exact ⟨_, pgnum_eq_blockPage hmap, rfl, show (PTE_SYSCALL &&& PTE_D != 0#32) =
        false by decide⟩
    · have hsame : (readIn c va).page v = c.page v := update_of_ne hv _ _
      rw [hsame, hn] at hp
      cases hp

theorem ideRead_ok (h : c.page (pgnum addr) = some p)
    (secno : Nat) : ideRead secno addr c = .ok () { c with
      page := update c.page (pgnum addr)
        (some ⟨c.disk (secno / BLKSECTS), p.flags ||| PTE_D⟩) } := by
  show EStateM.Result.ok () (match c.page (pgnum addr) with
    | some p => _
    | none => _) = _
  rw [h]

theorem ideWrite_ok (h : c.page (pgnum addr) = some p)
    (secno : Nat) : ideWrite secno addr c = .ok () { c with
      disk := update c.disk (secno / BLKSECTS) p.data } := by
  show EStateM.Result.ok () (match c.page (pgnum addr) with
    | some p => _
    | none => _) = _
  rw [h]

theorem sysPageMapSelf_ok
    (h : c.page (pgnum addr) = some p) (perm : Word) : sysPageMapSelf addr perm c = .ok () { c with
      page := update c.page (pgnum addr) (some ⟨p.data, perm ||| PTE_P⟩) } := by
  show EStateM.Result.ok () (match c.page (pgnum addr) with
    | some p => _
    | none => _) = _
  rw [h]

theorem sector_div (b : Nat) : b * BLKSECTS / BLKSECTS = b := Nat.mul_div_cancel _ (by decide)

/-- The calls of `bc_pgfault` in the middle: allocate, read, clear `PTE_D`. -/
theorem readIn_wp {β : Type} {k : Unit → BcM β} {Q : β → Cache → Prop} {X : String → Cache → Prop}
    (hk : wp (k ()) Q X (readIn c va)) :
    wp (do
      sysPageAlloc (rounddown va) PTE_SYSCALL
      ideRead ((blockOf va).toNat * BLKSECTS) (rounddown va)
      match (← get).page (pgnum (rounddown va)) with
      | some p => (sysPageMapSelf (rounddown va) (p.flags &&& PTE_SYSCALL)) >>= k
      | none => (throw "in bc_pgfault, sys_page_map" : BcM Unit) >>= k) Q X c := by
  have hself : ∀ p : Page, update c.page (pgnum (rounddown va)) (some p)
      (pgnum (rounddown va)) = some p := fun p => update_self _ _ _
  refine wp_bind_ok (show sysPageAlloc (rounddown va) PTE_SYSCALL c = .ok () { c with
    page := update c.page (pgnum (rounddown va))
      (some ⟨fun _ => 0#32, PTE_SYSCALL ||| PTE_P⟩) } from rfl) ?_
  refine wp_bind_ok (ideRead_ok (hself _) _) ?_
  refine wp_get_bind ?_
  dsimp only
  rw [sector_div, update_idem, hself]
  refine wp_bind_ok (sysPageMapSelf_ok (hself _) _) ?_
  dsimp only
  rw [update_idem, pgnum_rounddown]
  exact hk

/-- Level `n` of the fault handler can read in block `b`. -/
def Faults (n b : Nat) : Prop :=
  ∀ (c : Cache) (va : Word), Coherent c → Mounted c.shows → inMap va = true →
    (blockOf va).toNat = b → b < nblocks c.shows → inUse c.shows b →
    c.page (pgnum va) = none → ReadsIn (bcPgfault n) va c

/-- **One fault.**  It succeeds if the bitmap word of the block can be read. -/
theorem faults_succ {n b : Nat}
    (hbits : ∀ (c : Cache), Coherent c → Mounted c.shows → b < nblocks c.shows →
      (∃ p, c.page (blockPage b) = some p) →
      ∀ w : Word, w.toNat = b → c.page (pgnum (bitmapVa w)) = none →
        ReadsIn (bcPgfault n) (bitmapVa w) c) : Faults (n + 1) b := by
  intro c va hc hm hmap hb hlt huse hnone
  have hle : ¬ c.shows 1 1 ≤ blockOf va := by
    rw [BitVec.le_def, hb]
    exact Nat.not_le.mpr hlt
  have hl := readIn_loads hmap hnone
  have hself : (readIn c va).page (pgnum va)
    = some ⟨c.disk (blockOf va).toNat, PTE_SYSCALL⟩ := update_self _ _ _
  -- after the page has been read in
  have hrest : wp (do
      if (← get).bitmap then
        if ← blockIsFree (bcPgfault n) (blockOf va) then throw "reading free block" : BcM Unit)
      (fun _ c' => Loads c c' ∧ ∃ p, c'.page (pgnum va) = some p) (fun _ _ => False)
      (readIn c va) := by
    refine wp_get_bind ?_
    split
    · have hm' : Mounted (readIn c va).shows := by
        rw [hl.shows]
        exact hm
      have hlt' : (blockOf va).toNat < nblocks (readIn c va).shows := by
        rw [hl.shows, hb]
        exact hlt
      have hcan : (readIn c va).page (pgnum (bitmapVa (blockOf va))) = none →
          ReadsIn (bcPgfault n) (bitmapVa (blockOf va)) (readIn c va) := by
        refine hbits _ (hl.coherent hc) hm' (by rw [← hb]; exact hlt') ?_ _ hb
        rw [← hb, ← pgnum_eq_blockPage hmap]
        exact ⟨_, hself⟩
      apply wp_seq (blockIsFree_spec (hl.coherent hc) hlt' hm'.small hcan)
      intro r c' ⟨hl', hr, hr'⟩
      have hfalse : r = false := by
        cases hs : (readIn c va).super with
        | false => exact hr' hs
        | true =>
          rw [hr hs, hl.shows, hb]
          simpa using huse
      rw [hfalse]
      exact ⟨hl.trans hl', _, hl'.kept _ _ hself⟩
    · exact ⟨hl, _, hself⟩
  unfold ReadsIn bcPgfault
  rw [hmap]
  refine wp_get_bind ?_
  by_cases hs : c.super = true
  · rw [if_pos hs]
    refine wp_bind_ok (sNblocks_ok hc hs) ?_
    rw [if_neg hle]
    exact readIn_wp hrest
  · rw [if_neg hs]
    exact readIn_wp hrest

theorem faults_two (n : Nat) : Faults (n + 1) 2 := by
  apply faults_succ
  intro c _ _ _ ⟨p, hp⟩ w hw hnone
  -- the bitmap word of block 2 is in block 2, which is there now
  have hlt : w.toNat < MAPBLOCKS := by rw [hw]; decide
  rw [pgnum_eq_blockPage (bitmapVa_inMap hlt), (bitmapVa_block hlt).1, hw,
    show bitmapBlk 2 = 2 from rfl, hp] at hnone
  cases hnone

theorem faults_bitmap (n : Nat) {i : Nat} (hi : i < 24) : Faults (n + 2) (2 + i) := by
  apply faults_succ
  intro c hc hm _ _ w hw hnone
  have hlt : w.toNat < MAPBLOCKS := by
    unfold MAPBLOCKS
    omega
  have hblk : (blockOf (bitmapVa w)).toNat = 2 := by
    rw [(bitmapVa_block hlt).1, hw]
    unfold bitmapBlk
    omega
  have huse : inUse c.shows 2 := by
    apply hm.reserved
    have := hm.large
    unfold Reserved
    omega
  exact faults_two n c _ hc hm (bitmapVa_inMap hlt) hblk hm.large huse hnone

/-- **Any block in use can be read in**, with at most three faults inside one
another: the block, its bitmap block, and the bitmap block of that. -/
theorem faults_all (n b : Nat) : Faults (n + 3) b := by
  apply faults_succ
  intro c hc hm hb _ w hw hnone
  have hlt : w.toNat < MAPBLOCKS := by
    rw [hw]
    exact lt_of_lt_of_le hb hm.small
  have hblk : (blockOf (bitmapVa w)).toNat = 2 + b / 32 / 1024 := by
    rw [(bitmapVa_block hlt).1, hw]
    rfl
  have hlarge := hm.large
  have hi : b / 32 / 1024 < 24 := by
    unfold MAPBLOCKS at hlt
    omega
  have huse : inUse c.shows (2 + b / 32 / 1024) := by
    apply hm.reserved
    unfold Reserved
    omega
  exact faults_bitmap n hi c _ hc hm (bitmapVa_inMap hlt) hblk (by omega) huse hnone

/-- A fault at an address of a block in use. -/
theorem fault_spec (hc : Coherent c) (hm : Mounted c.shows)
    (hmap : inMap va = true) (hlt : (blockOf va).toNat < nblocks c.shows)
    (huse : inUse c.shows (blockOf va).toNat) : c.page (pgnum va) = none → ReadsIn fault va c :=
  faults_all 0 _ c va hc hm hmap rfl hlt huse

/-! ## §6. Writing and flushing. -/

theorem dirty_or (x : Word) (d : Nat → Word) : (⟨d, x ||| PTE_D⟩ : Page).dirty = true := by
  have hbit : (x ||| PTE_D) &&& PTE_D = PTE_D := by
    apply BitVec.eq_of_getLsbD_eq
    intro i _
    rw [BitVec.getLsbD_and, BitVec.getLsbD_or]
    cases PTE_D.getLsbD i
    · simp
    · simp
  unfold Page.dirty
  rw [hbit]
  decide

/-- What the cache shows after byte `k` of a word has been stored. -/
def poke (d : Disk) (b i k : Nat) (x : Byte) : Disk := putWord d b i (putByte (d b i) k x)

/-- What a page that replaces another does to what the cache shows. -/
theorem shows_setPage (b : Nat) (q : Page) :
    ({ c with page := update c.page (blockPage b) (some q) } : Cache).shows
      = update c.shows b q.data := by
  funext b'
  unfold Cache.shows
  by_cases hb : b' = b
  · subst hb
    rw [update_self]
    dsimp only
    rw [update_self]
  · rw [update_of_ne hb]
    dsimp only
    rw [update_of_ne (fun h => hb (blockPage_inj h))]

theorem Coherent.setPage (h : Coherent c) (b : Nat) {q : Page}
    (hq : q.dirty = false → q.data = c.disk b) :
    Coherent { c with page := update c.page (blockPage b) (some q) } := by
  refine ⟨fun b' p hp hclean => ?_, fun hs => ?_⟩
  · have hp' : update c.page (blockPage b) (some q) (blockPage b') = some p := hp
    by_cases hb : b' = b
    · subst hb
      rw [update_self] at hp'
      cases hp'
      exact hq hclean
    · rw [update_of_ne (fun h => hb (blockPage_inj h))] at hp'
      exact h.clean b' p hp' hclean
  · obtain ⟨p, hp⟩ := h.super hs
    show ∃ p, update c.page (blockPage b) (some q) (blockPage 1) = some p
    by_cases hb : blockPage 1 = blockPage b
    · rw [hb, update_self]
      exact ⟨q, rfl⟩
    · rw [update_of_ne hb]
      exact ⟨p, hp⟩

/-- **A store** changes one byte of what the cache shows, and no disk block. -/
theorem storeByte_spec (hc : Coherent c) (hm : Mounted c.shows)
    (hmap : inMap va = true) (hlt : (blockOf va).toNat < nblocks c.shows)
    (huse : inUse c.shows (blockOf va).toNat) (x : Byte) :
    wp (storeByte fault va x) (fun _ c' => Coherent c' ∧ c'.disk = c.disk ∧ c'.super = c.super ∧
      c'.shows = poke c.shows (blockOf va).toNat (pgoff va / 4) (pgoff va % 4) x)
      (fun _ _ => False) c := by
  have hpg := pgnum_eq_blockPage hmap
  have hthere : ∀ c', Loads c c' → (∃ p, c'.page (pgnum va) = some p) →
      wp (do
        match (← get).page (pgnum va) with
        | some p => modify fun c => { c with
            page := update c.page (pgnum va) (some
              ⟨update p.data (pgoff va / 4)
                (putByte (p.data (pgoff va / 4)) (pgoff va % 4) x), p.flags ||| PTE_D⟩) }
        | none => throw "page fault" : BcM Unit)
        (fun _ c' => Coherent c' ∧ c'.disk = c.disk ∧ c'.super = c.super ∧
          c'.shows = poke c.shows (blockOf va).toNat (pgoff va / 4) (pgoff va % 4) x)
        (fun _ _ => False) c' := by
    intro c' hl ⟨p, hp⟩
    have hshow : p.data = c.shows (blockOf va).toNat := by
      rw [← hl.shows]
      unfold Cache.shows
      rw [← hpg, hp]
    refine wp_get_bind ?_
    rw [hp, hpg]
    dsimp only
    rw [hshow]
    refine ⟨(hl.coherent hc).setPage _ fun hno => ?_, hl.disk, hl.super, ?_⟩
    · rw [dirty_or] at hno
      cases hno
    · refine (shows_setPage _ _).trans ?_
      rw [hl.shows]
      rfl
  refine wp_get_bind ?_
  unfold vaIsMapped
  cases hp : c.page (pgnum va) with
  | some p => exact hthere c (Loads.rfl c) ⟨p, hp⟩
  | none =>
    exact wp_seq (fault_spec hc hm hmap hlt huse hp) fun _ c' h => hthere c' h.1 h.2

/-- The page of block `b` is written to the disk. -/
theorem Coherent.writeBack (h : Coherent c) {b : Nat} (hp : c.page (blockPage b) = some p) :
    Coherent { c with disk := update c.disk b p.data } ∧
      ({ c with disk := update c.disk b p.data } : Cache).shows = c.shows := by
  refine ⟨⟨fun b' q hq hclean => ?_, h.super⟩, ?_⟩
  · show q.data = update c.disk b p.data b'
    by_cases hb : b' = b
    · subst hb
      rw [update_self]
      cases hp.symm.trans hq
      rfl
    · rw [update_of_ne hb]
      exact h.clean b' q hq hclean
  · funext b'
    unfold Cache.shows
    dsimp only
    by_cases hb : b' = b
    · rw [hb, hp]
    · rw [update_of_ne hb]

/-- Block `b` is on the disk as the cache shows it, and nothing else has
changed. -/
structure Flushed (b : Nat) (c c' : Cache) : Prop where
  coherent : Coherent c'
  shows : c'.shows = c.shows
  super : c'.super = c.super
  self : c'.disk b = c.shows b
  other : ∀ b', b' ≠ b → c'.disk b' = c.disk b'

/-- **A flush**, with any address inside the block. -/
theorem flushBlock_spec (hc : Coherent c) (hmap : inMap va = true) :
    wp (flushBlock va) (fun _ c' => Flushed (blockOf va).toNat c c') (fun _ _ => False) c := by
  have hpg := pgnum_eq_blockPage hmap
  have hnothing : c.disk (blockOf va).toNat = c.shows (blockOf va).toNat →
      Flushed (blockOf va).toNat c c := fun h => ⟨hc, rfl, rfl, h, fun _ _ => rfl⟩
  unfold flushBlock
  rw [hmap, if_neg (by decide)]
  refine wp_get_bind ?_
  generalize (blockOf va).toNat = b at hpg hnothing ⊢
  cases hp : c.page (pgnum va) with
  | none =>
    rw [if_pos (by unfold vaIsMapped; rw [pgnum_rounddown, hp]; rfl)]
    refine hnothing ?_
    unfold Cache.shows
    rw [← hpg, hp]
  | some p =>
    have hpr : c.page (pgnum (rounddown va)) = some p := by
      rw [pgnum_rounddown]
      exact hp
    rw [hpg] at hp
    have hshow : p.data = c.shows b := by
      unfold Cache.shows
      rw [hp]
    have hmapped : vaIsMapped c (rounddown va) = true := by
      unfold vaIsMapped
      rw [hpr]
      rfl
    have hdirty : vaIsDirty c (rounddown va) = p.dirty := by
      unfold vaIsDirty
      rw [hpr]
    rw [hmapped, hdirty]
    cases hd : p.dirty with
    | false =>
      refine hnothing ?_
      rw [← hshow]
      exact (hc.clean _ p hp hd).symm
    | true =>
      refine wp_bind_ok (ideWrite_ok hpr _) ?_
      rw [sector_div]
      obtain ⟨hco, hsh⟩ := hc.writeBack hp
      have hself : update c.disk b p.data b = p.data := update_self _ _ _
      have hpr' : ({ c with disk := update c.disk b p.data } : Cache).page
        (pgnum (rounddown va)) = some p := hpr
      refine wp_of_ok (sysPageMapSelf_ok hpr' _) ?_
      rw [pgnum_rounddown, hpg]
      refine ⟨hco.setPage b fun _ => hself.symm, ?_, rfl, hself.trans hshow,
        fun b' hb => update_of_ne hb _ _⟩
      rw [shows_setPage, hsh]
      rw [hshow, update_eq_self]

/-- `diskaddr` of a block. -/
theorem diskaddr_ok (hc : Coherent c) (hs : c.super = true)
    (h0 : 0 < b.toNat) (hlt : b.toNat < nblocks c.shows) (hsmall : nblocks c.shows ≤ MAPBLOCKS) :
    diskaddr b c = .ok (DISKMAP + b * 4096#32) c ∧ inMap (DISKMAP + b * 4096#32) = true ∧
      (blockOf (DISKMAP + b * 4096#32)).toNat = b.toNat := by
  have hne : b ≠ 0#32 := by
    rintro rfl
    exact absurd h0 (by decide)
  have hle : ¬ c.shows 1 1 ≤ b := by
    exact Nat.not_le.mpr hlt
  have hto : (DISKMAP + b * 4096#32).toNat = 65536 * 4096 + b.toNat * 4096 := by
    have hb : b.toNat < 786432 := lt_of_lt_of_le hlt hsmall
    show (0x10000000 + b.toNat * 4096 % 2 ^ 32) % 2 ^ 32 = _
    omega
  have hmap : inMap (DISKMAP + b * 4096#32) = true := by
    rw [inMap_iff, hto]
    have hb : b.toNat < MAPBLOCKS := lt_of_lt_of_le hlt hsmall
    omega
  refine ⟨?_, hmap, ?_⟩
  · unfold diskaddr
    rw [if_neg hne]
    beta_reduce
    rw [bind_get, if_pos hs,
      bind_ok (sNblocks_ok hc hs), if_neg hle]
    rfl
  · rw [blockOf_toNat hmap, hto]
    omega

/-- **`fs_sync`** from block `i` on: every block from there is on the disk as the
cache shows it. -/
theorem fsSyncFrom_spec (n : Nat) : ∀ (i : Word) (c : Cache), Coherent c → c.super = true →
    nblocks c.shows ≤ MAPBLOCKS → 0 < i.toNat → i.toNat ≤ nblocks c.shows →
    nblocks c.shows - i.toNat < n →
    wp (fsSyncFrom n i) (fun _ c' => Coherent c' ∧ c'.shows = c.shows ∧ c'.super = c.super ∧
      ∀ b, c'.disk b = if i.toNat ≤ b ∧ b < nblocks c.shows then c.shows b else c.disk b)
      (fun _ _ => False) c := by
  induction n with
  | zero => exact fun i c _ _ _ _ _ hn => absurd hn (Nat.not_lt_zero _)
  | succ n ih =>
    intro i c hc hs hsmall h0 hi hn
    refine wp_bind_ok (sNblocks_ok hc hs) ?_
    by_cases hlt : i.toNat < nblocks c.shows
    · have hlt' : i < c.shows 1 1 := by
        exact hlt
      obtain ⟨haddr, hmap, hblk⟩ := diskaddr_ok hc hs h0 hlt hsmall
      rw [if_pos hlt']
      refine wp_bind_ok haddr ?_
      apply wp_seq (flushBlock_spec hc hmap)
      intro _ c₁ hf
      rw [hblk] at hf
      have hnext : (i + 1#32).toNat = i.toNat + 1 := by
        have hb : i.toNat < 786432 := lt_of_lt_of_le hlt hsmall
        show (i.toNat + 1) % 2 ^ 32 = _
        omega
      have hrec := ih (i + 1#32) c₁ hf.coherent (hf.super.trans hs) (by rw [hf.shows]; exact hsmall)
        (by omega) (by rw [hf.shows]; omega) (by rw [hf.shows]; omega)
      rw [hf.shows, hnext] at hrec
      refine wp_mono hrec (fun _ c' h => ?_) (fun _ _ h => h)
      obtain ⟨hco, hsh, hsu, hdisk⟩ := h
      refine ⟨hco, hsh, hsu.trans hf.super, fun b => ?_⟩
      rw [hdisk b]
      -- block `i` was written now, the later ones by the rest of the loop
      by_cases hbi : b = i.toNat
      · subst hbi
        rw [if_neg (by omega), if_pos ⟨le_refl _, hlt⟩]
        exact hf.self
      · rw [hf.other b hbi]
        by_cases hb : i.toNat ≤ b ∧ b < nblocks c.shows
        · rw [if_pos hb, if_pos (by omega)]
        · rw [if_neg hb, if_neg (by omega)]
    · have hlt' : ¬ i < c.shows 1 1 := by
        exact hlt
      rw [if_neg hlt']
      refine ⟨hc, rfl, rfl, fun b => ?_⟩
      rw [if_neg (by omega)]

theorem fsSync_spec (hc : Coherent c) (hs : c.super = true) (hm : Mounted c.shows) :
    wp fsSync (fun _ c' => Coherent c' ∧ c'.shows = c.shows ∧ c'.super = c.super ∧
      ∀ b, c'.disk b = if 1 ≤ b ∧ b < nblocks c.shows then c.shows b else c.disk b)
      (fun _ _ => False) c := by
  have hlarge := hm.large
  have hsmall : nblocks c.shows ≤ 786432 := hm.small
  refine wp_get_bind ?_
  rw [if_neg (by rw [hs]; decide)]
  exact fsSyncFrom_spec (2 ^ 32) 1#32 c hc hs hm.small (by decide)
    (show 1 ≤ nblocks c.shows by omega) (show nblocks c.shows - 1 < 2 ^ 32 by omega)

/-! ## §7. Any sequence of accesses, flushes and syncs. -/

inductive Op where
  | load (va : Word)
  | store (va : Word) (x : Byte)
  | flush (va : Word)
  | sync

def Op.run : Op → BcM (List Byte)
  | .load va => do return [getByte (← loadWord fault va) (pgoff va % 4)]
  | .store va x => do
      storeByte fault va x
      return []
  | .flush va => do
      flushBlock va
      return []
  | .sync => do
      fsSync
      return []

def runOps : List Op → BcM (List Byte)
  | [] => return []
  | op :: ops => do
      let xs ← op.run
      return xs ++ (← runOps ops)

/-- The address may be accessed: it is that of a block in use. -/
def Accessible (d : Disk) (va : Word) : Prop :=
  inMap va = true ∧ Mounted d ∧ (blockOf va).toNat < nblocks d ∧ inUse d (blockOf va).toNat

/-- What an operation requires of what the cache shows. -/
def Op.Allowed (d : Disk) : Op → Prop
  | .load va => Accessible d va
  | .store va _ => Accessible d va
  | .flush va => inMap va = true
  | .sync => Mounted d

/-- The operation on a plain memory of blocks: what is read, and the memory. -/
def Op.plain (d : Disk) : Op → List Byte × Disk
  | .load va => ([getByte (d (blockOf va).toNat (pgoff va / 4)) (pgoff va % 4)], d)
  | .store va x => ([], poke d (blockOf va).toNat (pgoff va / 4) (pgoff va % 4) x)
  | .flush _ => ([], d)
  | .sync => ([], d)

/-- The disk blocks an operation may write. -/
def Op.Names (d : Disk) (b : Nat) : Op → Prop
  | .load _ => False
  | .store _ _ => False
  | .flush va => b = (blockOf va).toNat
  | .sync => 1 ≤ b ∧ b < nblocks d

/-- Every operation is allowed when its turn comes. -/
def AllAllowed : Disk → List Op → Prop
  | _, [] => True
  | d, op :: ops => op.Allowed d ∧ AllAllowed (op.plain d).2 ops

def plainOps : Disk → List Op → List Byte × Disk
  | d, [] => ([], d)
  | d, op :: ops => ((op.plain d).1 ++ (plainOps (op.plain d).2 ops).1,
      (plainOps (op.plain d).2 ops).2)

/-- Some operation names the block. -/
def SomeNames (b : Nat) : Disk → List Op → Prop
  | _, [] => False
  | d, op :: ops => op.Names d b ∨ SomeNames b (op.plain d).2 ops

/-- One operation. -/
theorem op_spec (hc : Coherent c) {op : Op} (hs : op = .sync → c.super = true)
    (hop : op.Allowed c.shows) :
    wp op.run (fun xs c' => Coherent c' ∧ c'.super = c.super ∧
      (xs, c'.shows) = op.plain c.shows ∧ (∀ b, ¬ op.Names c.shows b → c'.disk b = c.disk b) ∧
      (op = .sync → ∀ b, 1 ≤ b → b < nblocks c.shows → c'.disk b = c'.shows b))
      (fun _ _ => False) c := by
  cases op with
  | load va =>
    obtain ⟨hmap, hm, hlt, huse⟩ := hop
    apply wp_seq (loadWord_spec hmap (fault_spec hc hm hmap hlt huse))
    intro w c' ⟨hl, _, hw⟩
    refine ⟨hl.coherent hc, hl.super, ?_, fun b _ => by rw [hl.disk], fun h => by cases h⟩
    show ([getByte w (pgoff va % 4)], c'.shows) = ([_], c.shows)
    rw [hw, hl.shows]
  | store va x =>
    obtain ⟨hmap, hm, hlt, huse⟩ := hop
    apply wp_seq (storeByte_spec hc hm hmap hlt huse x)
    intro _ c' ⟨hco, hdisk, hsu, hsh⟩
    refine ⟨hco, hsu, ?_, fun b _ => by rw [hdisk], fun h => by cases h⟩
    show ([], c'.shows) = ([], poke c.shows _ _ _ x)
    rw [hsh]
  | flush va =>
    apply wp_seq (flushBlock_spec hc hop)
    intro _ c' hf
    refine ⟨hf.coherent, hf.super, ?_, fun b hb => hf.other b hb, fun h => by cases h⟩
    show ([], c'.shows) = ([], c.shows)
    rw [hf.shows]
  | sync =>
    apply wp_seq (fsSync_spec hc (hs rfl) hop)
    intro _ c' ⟨hco, hsh, hsu, hdisk⟩
    refine ⟨hco, hsu, ?_, fun b hb => ?_, fun _ b h1 h2 => ?_⟩
    · show ([], c'.shows) = ([], c.shows)
      rw [hsh]
    · rw [hdisk b]
      exact if_neg hb
    · rw [hdisk b, hsh]
      exact if_pos ⟨h1, h2⟩

/-- **The block cache is transparent.**  Any sequence of loads, stores, flushes
and syncs that only touches blocks in use runs to its end and reads and leaves
what a plain memory of blocks would.  Pages that are not dirty equal their disk
blocks, only disk blocks that a flush or a sync names are written, and after a
sync the disk blocks are what the cache shows. -/
theorem cache_transparent (ops : List Op) : ∀ c : Cache, Coherent c →
    (Op.sync ∈ ops → c.super = true) → AllAllowed c.shows ops →
    ∃ c', runOps ops c = .ok (plainOps c.shows ops).1 c' ∧ c'.shows = (plainOps c.shows ops).2 ∧
      (∀ b p, c'.page (blockPage b) = some p → p.dirty = false → p.data = c'.disk b) ∧
      (∀ b, ¬ SomeNames b c.shows ops → c'.disk b = c.disk b) ∧
      (ops.getLast? = some .sync → ∀ b, 1 ≤ b → b < nblocks c'.shows → c'.disk b = c'.shows b) := by
  induction ops with
  | nil =>
    intro c hc _ _
    exact ⟨c, rfl, rfl, hc.clean, fun _ _ => rfl, fun h => by cases h⟩
  | cons op ops ih =>
    intro c hc hsync hall
    obtain ⟨xs, c₁, hrun, hco, hsu, hplain, hdisk, hlast⟩ := exists_ok_of_wp
      (op_spec hc (fun h => hsync (by rw [h]; exact List.mem_cons_self)) hall.1)
    have hxs : (op.plain c.shows).1 = xs := by rw [← hplain]
    have hd : (op.plain c.shows).2 = c₁.shows := by rw [← hplain]
    obtain ⟨c', hrest, hsh, hclean, hother, hlast'⟩ := ih c₁ hco
      (fun h => hsu.trans (hsync (List.mem_cons_of_mem _ h))) (by rw [← hd]; exact hall.2)
    refine ⟨c', ?_, ?_, hclean, fun b hb => ?_, fun hl => ?_⟩
    · unfold runOps plainOps
      rw [bind_ok hrun, bind_ok hrest, hxs, hd]
      rfl
    · unfold plainOps
      rw [hd]
      exact hsh
    · have hb' : ¬ op.Names c.shows b ∧ ¬ SomeNames b c₁.shows ops := by
        rw [← hd]
        exact not_or.mp hb
      rw [hother b hb'.2, hdisk b hb'.1]
    · cases ops with
      | nil =>
        -- the last operation is this one
        cases hrest
        have hop : op = .sync := Option.some.inj hl
        have hnb : c₁.shows = c.shows := by
          rw [← hd, hop]
          rfl
        rw [hnb]
        intro b h1 h2
        rw [hlast hop b h1 h2, hnb]
      | cons op' ops' =>
        exact hlast' hl

/-- The super block of `smallDisk` has been read in. -/
def smallCache : Cache where
  disk := smallDisk
  page v := if v = blockPage 1 then some ⟨smallDisk 1, PTE_SYSCALL⟩ else none
  super := true
  bitmap := true

theorem smallCache_coherent : Coherent smallCache := by
  refine ⟨fun b p hp _ => ?_, fun _ => ⟨_, rfl⟩⟩
  unfold smallCache at hp
  dsimp only at hp
  split at hp
  · rename_i hb
    cases hp
    rw [blockPage_inj hb]
    rfl
  · cases hp

theorem smallCache_shows : smallCache.shows = smallDisk := by
  funext b
  unfold Cache.shows smallCache
  dsimp only
  by_cases hb : blockPage b = blockPage 1
  · rw [if_pos hb, blockPage_inj hb]
  · rw [if_neg hb]

theorem smallDisk_mounted : Mounted smallDisk := by
  refine ⟨by decide, by decide, fun b hb => ?_⟩
  have hlt : b < 3 := hb
  interval_cases b
  · rfl
  · rfl
  · rfl

/-- A byte of block 3 is set, which takes two faults, and read; and the disk is synced. -/
theorem cache_transparent_small : ∃ c',
    runOps [.store 0x10003005#32 7#8, .load 0x10003005#32, .sync] smallCache = .ok [7#8] c' ∧
      ∀ b, 1 ≤ b → b < nblocks c'.shows → c'.disk b = c'.shows b := by
  have hmount : Mounted (poke smallDisk 3 1 1 7#8) := by
    refine ⟨by decide, by decide, fun b hb => ?_⟩
    have hlt : b < 3 := hb
    interval_cases b <;> rfl
  have hall : AllAllowed smallCache.shows
      [.store 0x10003005#32 7#8, .load 0x10003005#32, .sync] := by
    rw [smallCache_shows]
    exact ⟨⟨by decide, smallDisk_mounted, by decide, by decide⟩,
      ⟨by decide, hmount, by decide, by decide⟩, hmount, trivial⟩
  obtain ⟨c', hrun, -, -, -, hsync⟩ :=
    cache_transparent _ smallCache smallCache_coherent (fun _ => rfl) hall
  refine ⟨c', ?_, hsync rfl⟩
  rw [hrun, smallCache_shows]
  rfl

/-! ## §8. The kernel's part. -/

section

variable {own : Set Nat} {s : Kernel} {e : Nat}

/-- **Mapping a page onto itself sets its flags and changes nothing else**: what
`sysPageMapSelf` does, done by the kernel. -/
theorem sysPageMap_in_place (h : MemInv own s) (hb : Bounded s) (hc : s.curenv = some e)
    (hlive : Live s e) {va perm : Word} (hva : badVa va = false) (hperm : permOk perm = true)
    {pp : Nat} {f : Word} (hp : space s e (pgnum va) = some (pp, f))
    (hw : perm &&& PTE_W ≠ 0#32 → f &&& PTE_W ≠ 0#32) :
    ∃ s', sysPageMap 0#32 va 0#32 va perm s = .ok 0#32 s' ∧ MemInv own s' ∧
      SpaceUpdate s s' e va (some (pp, perm ||| PTE_P)) := by
  have hlt := badVa_false hva
  obtain ⟨d, hd⟩ := h.dir hlive
  obtain ⟨r, hlook, hr⟩ := h.page.pageLookup hlt hd
  obtain ⟨-, hentry⟩ := h.page.lookup_space hd hlt hlook
  obtain ⟨⟨_, pt, j⟩, rfl, hx⟩ := Option.map_eq_some_iff.mp (hentry.trans hp)
  obtain ⟨rfl, rfl⟩ := Prod.mk.inj hx
  rw [pteFlags_and_w] at hw
  rcases h.insertMapped hb rfl hr.symm hd hlt hperm with hoom | ⟨s', hrun, -, hkept, hup⟩
  · -- the page table is there, so none is allocated
    obtain ⟨l, wf, hl⟩ := h.page.wellFormed
    cases ht : target s.mem d (pdx va) with
    | none =>
      rw [space_eq hd, mapping_of_no_table (by rw [pgnum_div]; exact ht)] at hp
      cases hp
    | some t =>
      obtain ⟨u, hu, -⟩ := pageInsert_updates_present wf ⟨_, hd⟩ hlt
        (h.page.books.ref _ _ hr.symm).1 hperm
        (fun hpl => absurd hr.symm (ne_of_hits_eq_zero (hl _ hpl) _)) ht
      cases hoom.symm.trans hu
  · refine ⟨s', ?_, hkept.inv, hup⟩
    unfold sysPageMap
    rw [if_neg (by rw [hva]; decide), if_neg (by rw [hperm]; decide)]
    refine (bind_ok (envid2env_eq hc _ _)).trans ((bind_ok (envid2env_eq hc _ _)).trans
      ((bind_ok (derefPgdir_ok hd)).trans ((bind_ok hlook).trans (bind_get.trans ?_))))
    rw [if_neg (fun hno => hw hno.1 hno.2)]
    exact (bind_ok (derefPgdir_ok hd)).trans (bind_ok hrun)

/-- The first environment maps its page onto itself, read-only. -/
theorem sysPageMap_in_place_first : ∃ s s',
    sysPageMap 0#32 (copyVa 0) 0#32 (copyVa 0) roPerm s = .ok 0#32 s' := by
  obtain ⟨s₀, s, pp, hboot, hrun, hs⟩ := exists_spread
  have hb := (RoomRun.inv (hboot.spec qemuBoot.maps_above).1 hrun).2.1
  have hva := badVa_copyVa (j := 0) (by decide)
  obtain ⟨⟨_, f⟩, hp, -⟩ := Option.map_eq_some_iff.mp
    ((space_map_fst (badVa_false hva)).trans (hs.copies 0 le_rfl))
  obtain ⟨s', hmap, -⟩ := sysPageMap_in_place hs.inv hb hs.cur hs.live hva
    (show permOk roPerm = true by decide) hp (absurd (by decide))
  exact ⟨s, s', hmap⟩

end

end Jos.Bc
