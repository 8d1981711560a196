/-
  Jos.Fs.Format — **MAKING A DISK IMAGE** (`fs/fsformat.c`).

  `fsformat` runs on the host.  It maps the image, fills in the super block and
  the bitmap, writes the input files one after the other with their indirect
  blocks, and puts the directory, built up in a `malloc`ed buffer, behind them.
  The image starts out as zeros; the buffer holds whatever was in that memory.

  The host's memory is one memory of words here, with the image from block 0 on
  and the buffer from block `entsBlk` on.  `main` refuses more than 1024 blocks,
  so the two do not meet.
-/
import Jos.Fs.Bytes
import Jos.Fs.Dir

namespace Jos.Fmt

open Exec

variable {file : HostFile} {files : List HostFile} {k nblocks start : Nat}

/-! ## §1. The program. -/

def FS_MAGIC : Word := 0x4A0530AE#32
def FTYPE_REG : Word := 0#32
def BLKBITSIZE : Nat := BLKSIZE * 8
def MAX_DIR_ENTS : Nat := 128

/-- An input file: its path, without the terminating NUL, and its contents. -/
structure HostFile where
  path : List Byte
  bytes : List Byte
  noNul : 0#8 ∉ path

/-- Where the directory entries are, in blocks. -/
def entsBlk : Nat := 1024

/-- The memory, `diskpos - diskmap` and the number of entries `root.n`. -/
structure FmtState where
  mem : Disk
  pos : Nat
  n : Nat

abbrev FmtM := EStateM String FmtState

def onMem {α : Type} (m : FsM α) : FmtM α := fun s =>
  match m s.mem with
  | .ok a d => .ok a { s with mem := d }
  | .error e d => .error e { s with mem := d }

def blockof (pos : Nat) : Nat := pos / BLKSIZE

/-- `ROUNDUP(n, BLKSIZE)`, in unsigned arithmetic. -/
def roundUp (n : Word) : Word := n - 1#32 + 4096#32 - (n - 1#32) % 4096#32

/-- `ROUNDUP(n, BLKSIZE)` of an `int`; it makes a block out of nothing at all. -/
def roundUpInt (n : Int) : Int := n - 1 + 4096 - (n - 1).tmod 4096

def alloc (nblocks : Nat) (bytes : Word) : FmtM Nat := do
  let start := (← get).pos
  modify fun s => { s with pos := s.pos + (roundUp bytes).toNat }
  if nblocks ≤ blockof (← get).pos then
    throw "out of disk blocks"
  else
    return start

/-- `memset(b, 0xFF, BLKSIZE)`. -/
def fillBlock (b : Nat) : FsM Unit :=
  modify fun d => Function.update d b fun _ => 0xFFFFFFFF#32

/-- `opendisk` of a disk that has been truncated and mapped: `&super->s_root`
and the block of `bitmap`. -/
def opendisk (nblocks : Nat) : FmtM (FileP × Nat) := do
  let _ ← alloc nblocks 4096#32
  let super ← alloc nblocks 4096#32
  onMem (store (blockof super) 0 FS_MAGIC)
  onMem (store (blockof super) 1 (BitVec.ofNat 32 nblocks))
  let root : FileP := ⟨blockof super, 2⟩
  onMem (store root.blk root.fType FTYPE_DIR)
  onMem (putDiskBytes root.fName [slash, 0#8])
  let nbitblocks := (nblocks + BLKBITSIZE - 1) / BLKBITSIZE
  let bitmap ← alloc nblocks (BitVec.ofNat 32 (nbitblocks * BLKSIZE))
  onMem (forUp (fun i => fillBlock (blockof bitmap + i)) 0 nbitblocks)
  return (root, blockof bitmap)

/-- The word of the bitmap at block `bitmap` that has the bit of block `i`. -/
def clearBit (bitmap i : Nat) : FsM Unit := do
  let w ← load (bitmap + i / 32 / 1024) (i / 32 % 1024)
  store (bitmap + i / 32 / 1024) (i / 32 % 1024) (w &&& ~~~(1#32 <<< (i % 32)))

def finishdisk (bitmap : Nat) : FmtM Unit := do
  onMem (forUp (clearBit bitmap) 0 (blockof (← get).pos))

def finishfile (nblocks : Nat) (f : FileP) (start : Nat) (len : Word) : FmtM Unit := do
  onMem (store f.blk f.fSize len)
  let n := (roundUp len).toNat / BLKSIZE
  onMem (forUp (fun i => store f.blk (f.fDirect i) (BitVec.ofNat 32 (start + i))) 0 (min n NDIRECT))
  if min n NDIRECT = NDIRECT then
    let ind ← alloc nblocks 4096#32
    onMem (store f.blk f.fIndirect (BitVec.ofNat 32 (blockof ind)))
    onMem (forUp (fun i => store (blockof ind) (i - NDIRECT) (BitVec.ofNat 32 (start + i)))
      NDIRECT (n - NDIRECT))

/-- `&ents[k]`. -/
def entry (k : Nat) : FileP := ⟨entsBlk + k / BLKFILES, 64 * (k % BLKFILES)⟩

def diradd (type : Word) (name : List Byte) : FmtM FileP := do
  let out := entry (← get).n
  modify fun s => { s with n := s.n + 1 }
  if MAX_DIR_ENTS < (← get).n then
    throw "too many directory entries"
  else
    onMem (putDiskBytes out.fName (name ++ [0#8]))
    onMem (store out.blk out.fType type)
    return out

/-- `memmove(start, ents, size)` of whole words. -/
def moveEnts (start words : Nat) : FsM Unit :=
  forUp (fun i => do
    let w ← load (entsBlk + i / 1024) (i % 1024)
    store (start + i / 1024) (i % 1024) w) 0 words

/-- `finishdir`; `sizeof(struct File)` is 256. -/
def finishdir (nblocks : Nat) (root : FileP) : FmtM Unit := do
  let size := (← get).n * 256
  let start ← alloc nblocks (BitVec.ofNat 32 size)
  onMem (moveEnts (blockof start) (size / 4))
  finishfile nblocks root (blockof start) (BitVec.ofInt 32 (roundUpInt size))

/-- What is behind the last slash. -/
def baseName (path : List Byte) : List Byte := (path.reverse.takeWhile (· ≠ slash)).reverse

def writefile (nblocks : Nat) (file : HostFile) : FmtM Unit := do
  if MAXFILESIZE ≤ file.bytes.length then
    throw "too large"
  else
    let f ← diradd FTYPE_REG (baseName file.path)
    let start ← alloc nblocks (BitVec.ofNat 32 file.bytes.length)
    onMem (putDiskBytes start file.bytes)
    finishfile nblocks f (blockof start) (BitVec.ofNat 32 file.bytes.length)

def writefiles (nblocks : Nat) : List HostFile → FmtM Unit
  | [] => return ()
  | file :: files => do
      writefile nblocks file
      writefiles nblocks files

/-- `main`. -/
def fsformat (nblocks : Nat) (files : List HostFile) : FmtM Unit := do
  if nblocks < 2 ∨ 1024 < nblocks then
    throw "usage"
  else
    let (root, bitmap) ← opendisk nblocks
    writefiles nblocks files
    finishdir nblocks root
    finishdisk bitmap

/-- The host when it starts: a new image, and a buffer with anything in it. -/
def host (garbage : Disk) : FmtState :=
  ⟨fun b i => if b < entsBlk then 0#32 else garbage b i, 0, 0⟩

/-- The first `nblocks` blocks. -/
def image (nblocks : Nat) (s : FmtState) : Disk := fun b =>
    if b < nblocks then s.mem b else fun _ => 0#32

/-! ## §2. Words and bytes of memory. -/

section

variable {d d' : Disk} {f : FileP} {s s' : FmtState}

/-- The bytes from address `a` on are `xs`. -/
def Holds (d : Disk) (a : Nat) (xs : List Byte) : Prop :=
  ∀ i (h : i < xs.length), byteAt d (a + i) = xs[i]

theorem Holds.congr {a : Nat} {xs : List Byte} (h : Holds d a xs)
    (hsame : ∀ i < xs.length, byteAt d' (a + i) = byteAt d (a + i)) : Holds d' a xs := by
  intro i hi
  rw [hsame i hi]
  exact h i hi

/-- Address `y` lies in word `i` of block `b`. -/
def InWord (b i y : Nat) : Prop := y / BLKSIZE = b ∧ y % BLKSIZE / 4 = i

theorem byteAt_congr {y : Nat} (h : d' (y / BLKSIZE) (y % BLKSIZE / 4) =
    d (y / BLKSIZE) (y % BLKSIZE / 4)) : byteAt d' y = byteAt d y := by
  unfold byteAt
  rw [h]

theorem getByte_putByte (w : Word) (hk : k < 4) (x : Byte) : getByte (putByte w k x) k = x := by
  apply BitVec.eq_of_getLsbD_eq
  intro j hj
  unfold getByte putByte
  have h1 : 8 * k + j < 32 := by omega
  have h2 : ¬ 8 * k + j < 8 * k := by omega
  have h3 : 8 * k + j - 8 * k = j := by omega
  have h4 : (255#32).getLsbD j = true := by
    interval_cases j <;> rfl
  have h5 : j < 32 := by omega
  simp [hj, h1, h3, h4, h5]

theorem getByte_putByte_of_ne (w : Word) {k m : Nat} (hk : k < 4) (hm : m < 4) (hne : m ≠ k)
    (x : Byte) : getByte (putByte w k x) m = getByte w m := by
  apply BitVec.eq_of_getLsbD_eq
  intro j hj
  unfold getByte putByte
  simp only [BitVec.getLsbD_setWidth, BitVec.getLsbD_ushiftRight, BitVec.getLsbD_or,
    BitVec.getLsbD_and, BitVec.getLsbD_not, BitVec.getLsbD_shiftLeft]
  have h1 : 8 * m + j < 32 := by omega
  rcases Nat.lt_or_gt_of_ne hne with hlt | hgt
  · have h2 : 8 * m + j < 8 * k := by omega
    simp [hj, h1, h2]
  · have h2 : ¬ 8 * m + j < 8 * k := by omega
    have h3 : ¬ 8 * m + j - 8 * k < 8 := by omega
    have h4 : (255#32).getLsbD (8 * m + j - 8 * k) = false := by
      have h32 : 8 * m + j - 8 * k < 32 := by omega
      generalize 8 * m + j - 8 * k = i at h3 h32 ⊢
      interval_cases i <;> first | omega | rfl
    have h5 : x.getLsbD (8 * m + j - 8 * k) = false := BitVec.getLsbD_of_ge _ _ (by omega)
    simp [hj, h1, h4, h5]

/-- **`memmove` and `strcpy`** of the bytes `xs` to address `a`. -/
theorem putDiskBytes_holds (xs : List Byte) : ∀ (a : Nat) (d : Disk),
    wp (putDiskBytes a xs) (fun _ d' => Holds d' a xs ∧
        (∀ y, y < a ∨ a + xs.length ≤ y → byteAt d' y = byteAt d y) ∧
        ∀ b i, (∀ k < xs.length, ¬ InWord b i (a + k)) → d' b i = d b i)
      (fun _ _ => False) d := by
  induction xs with
  | nil =>
    intro a d
    refine ⟨fun i hi => absurd hi (Nat.not_lt_zero i), fun _ _ => rfl, fun _ _ _ => rfl⟩
  | cons x xs ih =>
    intro a d
    -- the first byte, and then the others behind it
    have hput : putDiskByte a x d = .ok () (putWord d (a / BLKSIZE) (a % BLKSIZE / 4)
        (putByte (d (a / BLKSIZE) (a % BLKSIZE / 4)) (a % 4) x)) := rfl
    refine wp_bind_ok hput ?_
    generalize hd₁ : putWord d (a / BLKSIZE) (a % BLKSIZE / 4)
        (putByte (d (a / BLKSIZE) (a % BLKSIZE / 4)) (a % 4) x) = d₁
    have hhere : byteAt d₁ a = x := by
      unfold byteAt
      rw [← hd₁, putWord_same, getByte_putByte _ (by omega)]
    have hthere : ∀ y, y ≠ a → byteAt d₁ y = byteAt d y := by
      intro y hy
      unfold byteAt
      by_cases hw : y / BLKSIZE = a / BLKSIZE ∧ y % BLKSIZE / 4 = a % BLKSIZE / 4
      · rw [hw.1, hw.2, ← hd₁, putWord_same]
        refine getByte_putByte_of_ne _ (by omega) (by omega) ?_ x
        unfold BLKSIZE at hw
        omega
      · rw [← hd₁, putWord_of_ne]
        by_contra hc
        push Not at hc
        exact hw hc
    refine wp_mono (ih (a + 1) d₁) ?_ (fun _ _ h => h)
    intro _ d' hpost
    obtain ⟨hholds, hbytes, hwords⟩ := hpost
    refine ⟨?_, ?_, ?_⟩
    · intro i hi
      cases i with
      | zero =>
        show byteAt d' a = x
        rw [hbytes a (Or.inl (Nat.lt_succ_self a)), hhere]
      | succ i =>
        have := hholds i (by simpa using hi)
        rw [show a + (i + 1) = a + 1 + i by omega]
        exact this
    · intro y hy
      rw [List.length_cons] at hy
      rw [hbytes y (by omega), hthere y (by omega)]
    · intro b i hk
      rw [hwords b i fun k hlt => ?_]
      · rw [← hd₁]
        refine putWord_of_ne _ _ ?_
        have h0 := hk 0 (by simp)
        by_contra hc
        push Not at hc
        exact h0 ⟨hc.1.symm, hc.2.symm⟩
      · have := hk (k + 1) (by simpa using hlt)
        rw [show a + 1 + k = a + (k + 1) by omega]
        exact this

/-- Storing a row of words of block `b`, from word `c` on. -/
theorem storeRow_spec (b c lo n : Nat) (col : Nat → Nat) (v : Nat → Word)
    (hcol : ∀ i, lo ≤ i → i < lo + n → col i = c + (i - lo)) (d : Disk) :
    wp (forUp (fun i => store b (col i) (v i)) lo n)
      (fun _ d' => (∀ i, lo ≤ i → i < lo + n → d' b (col i) = v i) ∧
        ∀ b' j, (b' = b → j < c ∨ c + n ≤ j) → d' b' j = d b' j)
      (fun _ _ => False) d := by
  refine wp_mono (wp_forUp (I := fun i t => (∀ k, lo ≤ k → k < i → t b (col k) = v k) ∧
      ∀ b' j, (b' = b → j < c ∨ c + n ≤ j) → t b' j = d b' j) n lo d
    ⟨fun k h1 h2 => absurd h1 (by omega), fun _ _ _ => rfl⟩ ?_) ?_ (fun _ _ h => h)
  · intro i t hlo hi ht
    obtain ⟨hrow, hrest⟩ := ht
    have hi' := hcol i hlo hi
    refine wp_of_ok (store_ok b (col i) (v i) t) ⟨?_, ?_⟩
    · intro k hk1 hk2
      by_cases hki : k = i
      · subst hki
        exact putWord_same ..
      · have hk' := hcol k hk1 (by omega)
        rw [putWord_of_ne _ _ (Or.inr (by omega))]
        exact hrow k hk1 (by omega)
    · intro b' j hb'
      rw [putWord_of_ne]
      · exact hrest b' j hb'
      · by_cases he : b' = b
        · have := hb' he
          exact Or.inr (by omega)
        · exact Or.inl he
  · exact fun _ t ht => ht

theorem wp_onMem {α : Type} {m : FsM α} {Q : α → Disk → Prop}
    (h : wp m Q (fun _ _ => False) s.mem) :
    wp (onMem m) (fun a s' => s'.pos = s.pos ∧ s'.n = s.n ∧ Q a s'.mem) (fun _ _ => False) s := by
  obtain ⟨a, d, hrun, hQ⟩ := exists_ok_of_wp h
  have hmem : onMem m s = .ok a { s with mem := d } := by
    unfold onMem
    rw [hrun]
  exact wp_of_ok hmem ⟨rfl, rfl, hQ⟩

/-! ## §3. Allocating and finishing a file. -/

theorem roundUp_toNat {w : Word} (hw : w.toNat ≤ 2 ^ 31) :
    (roundUp w).toNat = 4096 * ((w.toNat + 4095) / 4096) := by
  unfold roundUp
  simp only [BitVec.toNat_sub, BitVec.toNat_add, BitVec.toNat_umod, BitVec.toNat_ofNat,
    Nat.reducePow, Nat.reduceMod]
  omega

theorem blockof_mul (p : Nat) : blockof (4096 * p) = p := by
  unfold blockof BLKSIZE
  omega

/-- Blocks that `n` bytes take. -/
def nblk (n : Nat) : Nat := (n + 4095) / 4096

theorem nblk_mul (n : Nat) : nblk (4096 * n) = n := by
  unfold nblk
  omega

/-- **`alloc`** returns if the blocks fit. -/
theorem alloc_spec (nblocks p : Nat) (bytes : Word) (hb : bytes.toNat ≤ 2 ^ 31)
    (hp : s.pos = 4096 * p) :
    wp (alloc nblocks bytes)
      (fun a s' => a = 4096 * p ∧ s' = { s with pos := 4096 * (p + nblk bytes.toNat) } ∧
        p + nblk bytes.toNat < nblocks) (fun _ _ => ¬ p + nblk bytes.toNat < nblocks) s := by
  have hpos : s.pos + (roundUp bytes).toNat = 4096 * (p + nblk bytes.toNat) := by
    rw [roundUp_toNat hb, hp]
    unfold nblk
    omega
  have hrun : alloc nblocks bytes s = (if nblocks ≤ blockof (s.pos + (roundUp bytes).toNat) then
    (throw "out of disk blocks" : FmtM Nat) else pure s.pos)
    { s with pos := s.pos + (roundUp bytes).toNat } := rfl
  unfold wp
  rw [hrun, hpos, blockof_mul]
  by_cases hfit : p + nblk bytes.toNat < nblocks
  · rw [if_neg (by omega)]
    exact ⟨hp, rfl, hfit⟩
  · rw [if_pos (by omega)]
    exact hfit

/-- The block behind a file of `n` blocks, if it needs one for the numbers. -/
def extra (n : Nat) : Nat := if NDIRECT ≤ n then 1 else 0

/-- The record at `f` describes `len` bytes from block `start` on. -/
structure Describes (d : Disk) (f : FileP) (start len : Nat) : Prop where
  size : d f.blk f.fSize = BitVec.ofNat 32 len
  direct : ∀ i < nblk len, i < NDIRECT → d f.blk (f.fDirect i) = BitVec.ofNat 32 (start + i)
  indirect : NDIRECT ≤ nblk len → d f.blk f.fIndirect = BitVec.ofNat 32 (start + nblk len)
  entries : ∀ i < nblk len, NDIRECT ≤ i →
    d (start + nblk len) (i - NDIRECT) = BitVec.ofNat 32 (start + i)

/-- **`finishfile`** of a file whose blocks end where `diskpos` is; there may be no
block left for the numbers. -/
theorem finishfile_spec (nblocks start len : Nat) (hlen : len ≤ MAXFILESIZE)
    (hp : s.pos = 4096 * (start + nblk len)) (hlt : start + nblk len < nblocks)
    (hne : f.blk ≠ start + nblk len) :
    wp (finishfile nblocks f start (BitVec.ofNat 32 len))
      (fun _ s' => s'.pos = 4096 * (start + (nblk len + extra (nblk len))) ∧ s'.n = s.n ∧
        start + (nblk len + extra (nblk len)) < nblocks ∧ Describes s'.mem f start len ∧
        ∀ b i, (b = f.blk → i < f.fSize ∨ f.fIndirect < i ∨ i = f.fType) →
          (NDIRECT ≤ nblk len → b ≠ start + nblk len) → s'.mem b i = s.mem b i)
      (fun _ _ => ¬ start + (nblk len + extra (nblk len)) < nblocks) s := by
  have hto := sizeWord_toNat hlen
  have hn : (roundUp (BitVec.ofNat 32 len)).toNat / BLKSIZE = nblk len := by
    unfold MAXFILESIZE NDIRECT NINDIRECT BLKSIZE at hlen
    rw [roundUp_toNat (by omega), hto]
    unfold BLKSIZE nblk
    omega
  refine wp_bind_ok (show onMem (store f.blk f.fSize (BitVec.ofNat 32 len)) s =
    .ok () { s with mem := putWord s.mem f.blk f.fSize (BitVec.ofNat 32 len) } from rfl) ?_
  rw [hn]
  -- the direct blocks
  have hdir := storeRow_spec f.blk (f.idx + 34) 0 (min (nblk len) NDIRECT) (fun i => f.fDirect i)
    (fun i => BitVec.ofNat 32 (start + i)) (fun i _ _ => rfl) (putWord s.mem f.blk f.fSize
      (BitVec.ofNat 32 len))
  refine wp_seq (wp_mono (wp_onMem hdir) (fun _ _ h => h) fun _ _ h => h.elim) ?_
  intro _ s₁ hs₁
  obtain ⟨hpos₁, hn₁, hrow, hrest⟩ := hs₁
  have hsize₁ : s₁.mem f.blk f.fSize = BitVec.ofNat 32 len := by
    rw [hrest f.blk f.fSize fun _ => Or.inl (by unfold FileP.fSize; omega)]
    exact putWord_same ..
  have hframe₁ : ∀ b i, (b = f.blk → i < f.fSize ∨ f.fIndirect < i ∨ i = f.fType) →
      s₁.mem b i = s.mem b i := by
    intro b i hb
    have hsplit : b = f.blk → i < f.idx + 32 ∨ f.idx + 44 < i ∨ i = f.idx + 33 := hb
    rw [hrest b i fun he => ?_]
    · refine putWord_of_ne _ _ ?_
      by_cases he : b = f.blk
      · have := hsplit he
        exact Or.inr (by unfold FileP.fSize; omega)
      · exact Or.inl he
    · have := hsplit he
      have : min (nblk len) NDIRECT ≤ 10 := Nat.min_le_right _ _
      omega
  by_cases hbig : NDIRECT ≤ nblk len
  · -- the indirect block follows
    have hx : extra (nblk len) = 1 := if_pos hbig
    rw [hx, ← Nat.add_assoc, if_pos (Nat.min_eq_right hbig)]
    refine wp_seq (alloc_spec _ _ 4096#32 (by decide) (hpos₁.trans hp)) ?_
    intro a s₁' hs₁'
    obtain ⟨rfl, rfl, hfit⟩ := hs₁'
    rw [blockof_mul]
    refine wp_bind_ok (show onMem (store f.blk f.fIndirect _) _ = .ok () _ from rfl) ?_
    have hent := storeRow_spec (start + nblk len) 0 NDIRECT (nblk len - NDIRECT) (fun i =>
      i - NDIRECT)
      (fun i => BitVec.ofNat 32 (start + i)) (fun i _ _ => (Nat.zero_add _).symm)
      (putWord s₁.mem f.blk f.fIndirect (BitVec.ofNat 32 (start + nblk len)))
    refine wp_mono (wp_onMem (s := { s₁ with
      mem := putWord s₁.mem f.blk f.fIndirect (BitVec.ofNat 32 (start + nblk len)),
      pos := 4096 * (start + nblk len + 1) }) hent) ?_ (fun _ _ h => h.elim)
    intro _ s₂ hs₂
    obtain ⟨hpos₂, hn₂, hrow₂, hrest₂⟩ := hs₂
    -- the record is in another block
    have hrec : ∀ i, i ≠ f.fIndirect → s₂.mem f.blk i = s₁.mem f.blk i := by
      intro i hi
      rw [hrest₂ f.blk i fun he => absurd he hne]
      exact putWord_of_ne _ _ (Or.inr hi)
    refine ⟨hpos₂, hn₂.trans hn₁, hfit, ⟨?_, ?_, ?_, ?_⟩, ?_⟩
    · rw [hrec _ (by unfold FileP.fSize FileP.fIndirect; omega)]
      exact hsize₁
    · intro i hi hd
      rw [hrec _ (by unfold FileP.fDirect FileP.fIndirect; unfold NDIRECT at hd; omega)]
      exact hrow i (Nat.zero_le i) (by omega)
    · intro _
      rw [hrest₂ f.blk f.fIndirect fun he => absurd he hne]
      exact putWord_same ..
    · exact fun i hi hd => hrow₂ i hd (by omega)
    · intro b i hb hnb
      rw [hrest₂ b i fun he => absurd he (hnb hbig), putWord_of_ne]
      · exact hframe₁ b i hb
      · by_cases he : b = f.blk
        · have : i < f.idx + 32 ∨ f.idx + 44 < i ∨ i = f.idx + 33 := hb he
          exact Or.inr (by unfold FileP.fIndirect; omega)
        · exact Or.inl he
  · have hx : extra (nblk len) = 0 := if_neg hbig
    rw [hx, Nat.add_zero]
    rw [if_neg (by omega)]
    refine ⟨hpos₁.trans hp, hn₁, hlt, ⟨hsize₁, ?_, fun h => absurd h hbig, ?_⟩, ?_⟩
    · exact fun i hi hd => hrow i (Nat.zero_le i) (by omega)
    · exact fun i hi hd => absurd hd (by omega)
    · exact fun b i hb _ => hframe₁ b i hb

/-! ## §4. One input file. -/

/-- Blocks of the image that a file takes. -/
def span (file : HostFile) : Nat := nblk file.bytes.length + extra (nblk file.bytes.length)

/-- The record at `f` is that of `file`, with its data from block `start` on. -/
structure EntryAt (d : Disk) (f : FileP) (start : Nat) (file : HostFile) : Prop
    extends Describes d f start file.bytes.length where
  name : Holds d f.fName (baseName file.path ++ [0#8])
  type : d f.blk f.fType = FTYPE_REG
  data : Holds d (4096 * start) file.bytes

/-- The bytes of the record at `f`. -/
theorem record_byte (hidx : f.idx + 64 ≤ 1024) {i : Nat} (hi : i < 256) :
    (f.fName + i) / BLKSIZE = f.blk ∧ (f.fName + i) % BLKSIZE / 4 = f.idx + i / 4 ∧
      (f.fName + i) % 4 = i % 4 := by
  unfold FileP.fName BLKSIZE
  omega

/-- A record describes the same blocks where it is copied to, if those stay. -/
theorem Describes.move {f' : FileP} {start len : Nat} (h : Describes d f start len)
    (hrec : ∀ i < 64, d' f'.blk (f'.idx + i) = d f.blk (f.idx + i))
    (hdata : ∀ b, start ≤ b → b < start + (nblk len + extra (nblk len)) → ∀ i, d' b i = d b i) :
    Describes d' f' start len := by
  refine ⟨?_, ?_, ?_, ?_⟩
  · exact (hrec 32 (by omega)).trans h.size
  · intro i hi hd
    have := hrec (34 + i) (by unfold NDIRECT at hd; omega)
    rw [← Nat.add_assoc, ← Nat.add_assoc] at this
    exact this.trans (h.direct i hi hd)
  · exact fun hbig => (hrec 44 (by omega)).trans (h.indirect hbig)
  · intro i hi hge
    have hx : extra (nblk len) = 1 := if_pos (by omega)
    rw [hdata _ (by omega) (by omega)]
    exact h.entries i hi hge

/-- A record keeps its meaning where it is copied to, if the file's blocks stay. -/
theorem EntryAt.move {f' : FileP} (h : EntryAt d f start file)
    (hname : (baseName file.path).length < MAXNAMELEN)
    (hidx : f.idx + 64 ≤ 1024) (hidx' : f'.idx + 64 ≤ 1024)
    (hrec : ∀ i < 64, d' f'.blk (f'.idx + i) = d f.blk (f.idx + i))
    (hdata : ∀ b, start ≤ b → b < start + span file → ∀ i, d' b i = d b i) :
    EntryAt d' f' start file := by
  have hspan : nblk file.bytes.length ≤ span file := Nat.le_add_right _ _
  refine ⟨h.toDescribes.move hrec hdata, ?_, ?_, ?_⟩
  · intro i hi
    have hlt : i < 256 := by
      rw [List.length_append, List.length_singleton] at hi
      unfold MAXNAMELEN at hname
      omega
    obtain ⟨h1, h2, h3⟩ := record_byte hidx hlt
    obtain ⟨h1', h2', h3'⟩ := record_byte hidx' hlt
    rw [← h.name i hi]
    unfold byteAt
    rw [h1, h2, h3, h1', h2', h3', hrec _ (by omega)]
  · exact (hrec 33 (by omega)).trans h.type
  · refine h.data.congr fun i hi => byteAt_congr ?_
    refine hdata _ ?_ ?_ _
    · unfold BLKSIZE
      omega
    · unfold nblk at hspan
      unfold BLKSIZE
      omega

theorem entry_idx (k : Nat) : (entry k).idx + 64 ≤ 1024 := by
  show 64 * (k % 16) + 64 ≤ 1024
  omega

theorem entry_blk (k : Nat) : entsBlk ≤ (entry k).blk := Nat.le_add_right _ _

/-- `diradd` writes the name, however long it is, and then the type. -/
theorem diradd_spec (type : Word) (name : List Byte) :
    wp (diradd type name) (fun r t => r = entry s.n ∧ t.pos = s.pos ∧ t.n = s.n + 1 ∧
        s.n < MAX_DIR_ENTS ∧ ∃ m, t.mem = putWord m (entry s.n).blk (entry s.n).fType type ∧
          Holds m (entry s.n).fName (name ++ [0#8]) ∧
          ∀ b i, (∀ j < (name ++ [0#8]).length, ¬ InWord b i ((entry s.n).fName + j)) →
            m b i = s.mem b i)
      (fun _ _ => ¬ s.n < MAX_DIR_ENTS) s := by
  refine wp_get_bind ?_
  refine wp_bind_ok (show (modify fun s : FmtState => { s with n := s.n + 1 } : FmtM Unit) s =
    .ok () { s with n := s.n + 1 } from rfl) ?_
  refine wp_get_bind ?_
  by_cases hmax : MAX_DIR_ENTS < s.n + 1
  · rw [if_pos hmax]
    exact Nat.not_lt.mpr (Nat.le_of_lt_succ hmax)
  · rw [if_neg hmax]
    refine wp_seq (wp_mono (wp_onMem (putDiskBytes_holds (name ++ [0#8]) _ _)) (fun _ _ h => h)
      (fun _ _ h => h.elim)) ?_
    intro _ t ht
    obtain ⟨hpos, hn, hholds, -, hrest⟩ := ht
    exact ⟨rfl, hpos, hn, Nat.not_lt.mp hmax, t.mem, rfl, hholds, hrest⟩

/-- **`writefile`** adds entry `k` and the blocks from `start` on, and changes nothing else. -/
theorem writefile_spec (hpos : s.pos = 4096 * start)
    (hn : s.n = k) (hk : k < MAX_DIR_ENTS) (hblocks : nblocks ≤ entsBlk)
    (hfit : start + span file < nblocks) (hlen : file.bytes.length < MAXFILESIZE)
    (hname : (baseName file.path).length < MAXNAMELEN) :
    wp (writefile nblocks file)
      (fun _ s' => s'.pos = 4096 * (start + span file) ∧ s'.n = k + 1 ∧
        EntryAt s'.mem (entry k) start file ∧
        ∀ b i, (b = (entry k).blk → i < (entry k).idx ∨ (entry k).idx + 64 ≤ i) →
          (start ≤ b → start + span file ≤ b) → s'.mem b i = s.mem b i)
      (fun _ _ => False) s := by
  have hidx := entry_idx k
  have hblk := entry_blk k
  have hspan : nblk file.bytes.length ≤ span file := Nat.le_add_right _ _
  unfold writefile
  rw [if_neg (Nat.not_le.mpr hlen)]
  -- the name and the type
  have hadd := diradd_spec (s := s) FTYPE_REG (baseName file.path)
  rw [hn] at hadd
  refine wp_seq (wp_mono hadd (fun _ _ h => h) fun _ _ hno => hno hk) ?_
  intro r s₁ hs₁
  obtain ⟨rfl, hpos₁, hn₁, -, m, hm, hholds, hrest⟩ := hs₁
  rw [List.length_append, List.length_singleton] at hrest
  unfold MAXNAMELEN at hname
  have hname₁ : Holds s₁.mem (entry k).fName (baseName file.path ++ [0#8]) := by
    refine hholds.congr fun i hi => byteAt_congr ?_
    rw [List.length_append, List.length_singleton] at hi
    obtain ⟨-, h2, -⟩ := record_byte hidx (show i < 256 by omega)
    rw [hm]
    refine putWord_of_ne _ _ (Or.inr ?_)
    unfold FileP.fType
    omega
  have htype₁ : s₁.mem (entry k).blk (entry k).fType = FTYPE_REG := by
    rw [hm, putWord_same]
  have hframe₁ : ∀ b i, (b = (entry k).blk → i < (entry k).idx ∨ (entry k).idx + 64 ≤ i) →
      s₁.mem b i = s.mem b i := by
    intro b i hb
    rw [hm, putWord_of_ne, hrest b i]
    · intro j hj hw
      obtain ⟨h1, h2, -⟩ := record_byte hidx (show j < 256 by omega)
      unfold InWord at hw
      rw [h1, h2] at hw
      have := hb hw.1.symm
      omega
    · by_cases he : b = (entry k).blk
      · have := hb he
        unfold FileP.fType
        exact Or.inr (by omega)
      · exact Or.inl he
  have hto := sizeWord_toNat (le_of_lt hlen)
  -- the data
  have halloc := alloc_spec nblocks start (BitVec.ofNat 32 file.bytes.length) (by
      unfold MAXFILESIZE NDIRECT NINDIRECT BLKSIZE at hlen
      omega) (hpos₁.trans hpos)
  rw [hto] at halloc
  refine wp_seq (wp_mono halloc (fun _ _ h => h) fun _ _ hno => hno (by omega)) ?_
  intro a s₁' hs₁'
  obtain ⟨rfl, rfl, hlt⟩ := hs₁'
  rw [blockof_mul]
  refine wp_seq (wp_onMem (putDiskBytes_holds file.bytes _ _)) ?_
  intro _ s₂ hs₂
  obtain ⟨hpos₂, hn₂, hdata₂, -, hrest₂⟩ := hs₂
  have hframe₂ : ∀ b i, (start ≤ b → start + nblk file.bytes.length ≤ b) →
      s₂.mem b i = s₁.mem b i := by
    intro b i hb
    refine hrest₂ b i fun j hj hw => ?_
    unfold InWord BLKSIZE at hw
    unfold nblk at hb
    omega
  -- the record
  refine wp_mono (finishfile_spec _ _ _ (le_of_lt hlen) hpos₂ hlt (by omega)) ?_
    (fun _ _ hno => hno hfit)
  intro _ s₃ hs₃
  obtain ⟨hpos₃, hn₃, -, hdesc, hframe₃⟩ := hs₃
  have hrec : ∀ i, i < (entry k).fSize ∨ (entry k).fIndirect < i ∨ i = (entry k).fType →
      s₃.mem (entry k).blk i = s₁.mem (entry k).blk i := by
    intro i hi
    rw [hframe₃ _ i (fun _ => hi) (fun _ => by omega), hframe₂ _ i fun _ => by omega]
  refine ⟨hpos₃, ?_, ⟨hdesc, ?_, ?_, ?_⟩, ?_⟩
  · rw [hn₃, hn₂]
    exact hn₁
  · refine hname₁.congr fun i hi => byteAt_congr ?_
    rw [List.length_append, List.length_singleton] at hi
    obtain ⟨h1, h2, -⟩ := record_byte hidx (show i < 256 by omega)
    rw [h1, h2]
    refine hrec _ (Or.inl ?_)
    unfold FileP.fSize
    omega
  · rw [hrec _ (Or.inr (Or.inr rfl))]
    exact htype₁
  · refine hdata₂.congr fun i hi => byteAt_congr ?_
    refine hframe₃ _ _ (fun he => ?_) (fun _ he => ?_)
    · unfold nblk at hspan
      unfold BLKSIZE at he
      omega
    · unfold nblk BLKSIZE at he
      omega
  · intro b i hb hnb
    rw [hframe₃ b i, hframe₂ b i, hframe₁ b i hb]
    · intro hle
      have := hnb hle
      omega
    · intro he
      have := hb he
      unfold FileP.fSize FileP.fIndirect
      omega
    · intro hbig he
      have hx : span file = nblk file.bytes.length + 1 := by
        unfold span extra
        rw [if_pos hbig]
      have := hnb (by omega)
      omega

/-! ## §5. All input files. -/

/-- The block where file `k` starts. -/
def startOf (files : List HostFile) (k : Nat) : Nat := 3 + ((files.take k).map span).sum

theorem startOf_succ (files : List HostFile) (hk : k < files.length) :
    startOf files (k + 1) = startOf files k + span files[k] := by
  unfold startOf
  rw [List.take_succ_eq_append_getElem hk, List.map_append, List.sum_append]
  simp only [List.map_cons, List.map_nil, List.sum_cons, List.sum_nil]
  omega

theorem startOf_mono (files : List HostFile) {j k : Nat} (hjk : j ≤ k) (hk : k ≤ files.length) :
    startOf files j ≤ startOf files k := by
  induction k with
  | zero =>
    obtain rfl : j = 0 := by omega
    exact le_rfl
  | succ k ih =>
    by_cases he : j = k + 1
    · rw [he]
    · rw [startOf_succ files (by omega)]
      exact Nat.le_trans (ih (by omega) (by omega)) (Nat.le_add_right _ _)

theorem startOf_append (done rest : List HostFile) (hk : k ≤ done.length) :
    startOf (done ++ rest) k = startOf done k := by
  unfold startOf
  rw [List.take_append_of_le_length hk]

/-- The image when the files in `done` have been written. -/
structure Laid (nblocks : Nat) (done : List HostFile) (s : FmtState) : Prop where
  pos : s.pos = 4096 * startOf done done.length
  n : s.n = done.length
  magic : s.mem 1 0 = FS_MAGIC
  blocks : s.mem 1 1 = BitVec.ofNat 32 nblocks
  rootType : s.mem 1 sRoot.fType = FTYPE_DIR
  bitmap : ∀ i, s.mem 2 i = 0xFFFFFFFF#32
  blank : ∀ b, startOf done done.length ≤ b → b < entsBlk → ∀ i, s.mem b i = 0#32
  files : ∀ k (h : k < done.length), EntryAt s.mem (entry k) (startOf done k) done[k]

theorem three_le_startOf (files : List HostFile) (k : Nat) : 3 ≤ startOf files k :=
  Nat.le_add_right _ _

/-- What `fsformat` can be given. -/
structure Input (nblocks : Nat) (files : List HostFile) : Prop where
  names : ∀ f ∈ files, (baseName f.path).length < MAXNAMELEN
  sizes : ∀ f ∈ files, f.bytes.length < MAXFILESIZE
  some : files ≠ []
  count : files.length ≤ MAX_DIR_ENTS
  blocks : nblocks ≤ 1024
  /-- The files and the directory fit. -/
  room : startOf files files.length + nblk (files.length * 256) < nblocks

/-- The directory takes eight blocks at most, so it has no indirect block. -/
theorem Input.dir_le (hin : Input nblocks files) : nblk (files.length * 256) ≤ 8 := by
  have hcount : files.length ≤ 128 := hin.count
  unfold nblk
  omega

theorem Input.dir_extra (hin : Input nblocks files) : extra (nblk (files.length * 256)) = 0 := by
  have := hin.dir_le
  exact if_neg (by unfold NDIRECT; omega)

theorem Laid.next {done : List HostFile}
    (h : Laid nblocks done s) (hpos : s'.pos = 4096 * (startOf done done.length + span file))
    (hn : s'.n = done.length + 1) (hnames : ∀ f ∈ done, (baseName f.path).length < MAXNAMELEN)
    (hfit : startOf done done.length + span file < entsBlk)
    (hentry : EntryAt s'.mem (entry done.length) (startOf done done.length) file)
    (hframe : ∀ b i, (b = (entry done.length).blk →
        i < (entry done.length).idx ∨ (entry done.length).idx + 64 ≤ i) →
      (startOf done done.length ≤ b → startOf done done.length + span file ≤ b) →
        s'.mem b i = s.mem b i) : Laid nblocks (done ++ [file]) s' := by
  have h3 := three_le_startOf done done.length
  have hblk := entry_blk done.length
  have hlen : (done ++ [file]).length = done.length + 1 := by
    rw [List.length_append, List.length_singleton]
  have hend : startOf (done ++ [file]) (done ++ [file]).length =
      startOf done done.length + span file := by
    rw [hlen, startOf_succ _ (by omega), startOf_append _ _ le_rfl]
    simp
  have hsys : ∀ b i, b < 3 → s'.mem b i = s.mem b i :=
    fun b i hb => hframe b i (fun he => by omega) (fun hle => by omega)
  refine ⟨?_, ?_, ?_, ?_, ?_, ?_, ?_, ?_⟩
  · rw [hend, hpos]
  · rw [hlen, hn]
  · rw [hsys 1 0 (by omega)]
    exact h.magic
  · rw [hsys 1 1 (by omega)]
    exact h.blocks
  · rw [hsys 1 _ (by omega)]
    exact h.rootType
  · intro i
    rw [hsys 2 i (by omega)]
    exact h.bitmap i
  · intro b hb hlt i
    rw [hend] at hb
    rw [hframe b i (fun he => by omega) (fun _ => hb)]
    exact h.blank b (by omega) hlt i
  · intro k hk
    by_cases hlast : k = done.length
    · subst hlast
      rw [startOf_append _ _ le_rfl, List.getElem_append_right le_rfl]
      simpa using hentry
    · have hk' : k < done.length := by omega
      rw [startOf_append _ _ (le_of_lt hk'), List.getElem_append_left hk']
      have hle := startOf_mono done (show k + 1 ≤ done.length by omega) le_rfl
      rw [startOf_succ done hk'] at hle
      refine (h.files k hk').move (hnames _ (List.getElem_mem hk')) (entry_idx k)
        (entry_idx k) ?_ ?_
      · -- another entry of the buffer
        intro i hi
        refine hframe _ _ (fun he => ?_) (fun _ => ?_)
        · have he' : entsBlk + k / 16 = entsBlk + done.length / 16 := he
          show 64 * (k % 16) + i < 64 * (done.length % 16) ∨
            64 * (done.length % 16) + 64 ≤ 64 * (k % 16) + i
          omega
        · have := entry_blk k
          omega
      · intro b hb hlt i
        refine hframe b i (fun he => ?_) (fun hc => ?_)
        · omega
        · omega

theorem writefiles_spec (rest : List HostFile) :
    ∀ (done : List HostFile) (s : FmtState), Laid nblocks done s → Input nblocks (done ++ rest) →
      wp (writefiles nblocks rest) (fun _ s' => Laid nblocks (done ++ rest) s')
        (fun _ _ => False) s := by
  induction rest with
  | nil =>
    intro done s h _
    rw [List.append_nil]
    exact h
  | cons file rest ih =>
    intro done s h hin
    have hlen : (done ++ file :: rest).length = done.length + rest.length + 1 := by
      rw [List.length_append, List.length_cons]
      omega
    -- the file fits, because all of them do
    have hfit : startOf done done.length + span file < nblocks := by
      have hle := startOf_mono (done ++ file :: rest) (show done.length + 1 ≤
        (done ++ file :: rest).length by omega) le_rfl
      rw [startOf_succ _ (by omega), startOf_append _ _ le_rfl,
        List.getElem_append_right le_rfl] at hle
      simp only [Nat.sub_self, List.getElem_cons_zero] at hle
      have := hin.room
      omega
    have hmem : file ∈ done ++ file :: rest := by simp
    have hcount := hin.count
    have hblocks : nblocks ≤ entsBlk := hin.blocks
    refine wp_seq (writefile_spec h.pos h.n (by omega) hblocks hfit (hin.sizes file hmem)
      (hin.names file hmem)) ?_
    intro _ s₁ hs₁
    obtain ⟨hpos, hn, hentry, hframe⟩ := hs₁
    have hnext := h.next hpos hn
      (fun f hf => hin.names f (List.mem_append_left _ hf)) (by omega) hentry hframe
    have hih := ih (done ++ [file]) s₁ hnext (by
      rw [List.append_assoc, List.singleton_append]
      exact hin)
    rw [List.append_assoc, List.singleton_append] at hih
    exact hih

/-- **`opendisk`** leaves the super block and a bitmap of ones, if they fit. -/
theorem opendisk_spec (garbage : Disk) (hmax : nblocks ≤ 1024) :
    wp (opendisk nblocks) (fun r s => r = (sRoot, 2) ∧ 3 < nblocks ∧ Laid nblocks [] s)
      (fun _ _ => ¬ 3 < nblocks) (host garbage) := by
  have halloc : ∀ (p : Nat) (s : FmtState), s.pos = 4096 * p → p ≤ 2 →
      wp (alloc nblocks 4096#32) (fun a s' => a = 4096 * p ∧ s' = { s with pos := 4096 * (p + 1) } ∧
        p + 1 < nblocks) (fun _ _ => ¬ 3 < nblocks) s := by
    intro p s hp hle
    refine wp_mono (alloc_spec _ p 4096#32 (by decide) hp) (fun _ _ h => h) fun _ _ hno => ?_
    have hno' : ¬ p + 1 < nblocks := hno
    omega
  refine wp_seq (halloc 0 (host garbage) rfl (by omega)) ?_
  intro a t ht
  obtain ⟨-, rfl, -⟩ := ht
  refine wp_seq (halloc 1 _ rfl (by omega)) ?_
  intro a t ht
  obtain ⟨rfl, rfl, h2⟩ := ht
  refine wp_bind_ok (show onMem (store 1 0 FS_MAGIC) _ = .ok () _ from rfl) ?_
  refine wp_bind_ok (show onMem (store 1 1 (BitVec.ofNat 32 nblocks)) _ = .ok () _ from rfl) ?_
  refine wp_bind_ok (show onMem (store 1 sRoot.fType FTYPE_DIR) _ = .ok () _ from rfl) ?_
  -- the name of the root
  refine wp_seq (wp_mono (wp_onMem (putDiskBytes_holds [slash, 0#8] (FileP.fName ⟨1, 2⟩) _))
    (fun _ _ h => h) fun _ _ h => h.elim) ?_
  intro _ s₁ hs₁
  obtain ⟨hpos₁, hn₁, -, -, hrest₁⟩ := hs₁
  have hword : ∀ b i, b ≠ 1 ∨ i ≠ 2 → s₁.mem b i = putWord (putWord (putWord (host garbage).mem
      1 0 FS_MAGIC) 1 1 (BitVec.ofNat 32 nblocks)) 1 sRoot.fType FTYPE_DIR b i := by
    intro b i hb
    refine hrest₁ b i fun k hk hw => ?_
    have hk' : k < 2 := hk
    have hw' : (4104 + k) / 4096 = b ∧ (4104 + k) % 4096 / 4 = i := hw
    omega
  have hzero : ∀ b i, 2 ≤ b → b < entsBlk → s₁.mem b i = 0#32 := by
    intro b i hb hlt
    rw [hword b i (Or.inl (by omega)), putWord_of_ne _ _ (Or.inl (by omega)),
      putWord_of_ne _ _ (Or.inl (by omega)), putWord_of_ne _ _ (Or.inl (by omega))]
    exact if_pos hlt
  have hbits : (nblocks + BLKBITSIZE - 1) / BLKBITSIZE = 1 := by
    unfold BLKBITSIZE BLKSIZE
    omega
  rw [hbits]
  refine wp_seq (halloc 2 s₁ hpos₁ (by omega)) ?_
  intro a t ht
  obtain ⟨rfl, rfl, h3⟩ := ht
  refine wp_bind_ok (show onMem (forUp (fun i => fillBlock (2 + i)) 0 1) _ = .ok () _ from rfl) ?_
  refine ⟨rfl, h3, ?_⟩
  have hmem : ∀ b i, b ≠ 2 →
      Function.update s₁.mem 2 (fun _ => 0xFFFFFFFF#32) b i = s₁.mem b i := by
    intro b i hb
    rw [Function.update_of_ne hb]
  refine ⟨rfl, hn₁, ?_, ?_, ?_, ?_, ?_, ?_⟩
  · exact (hmem 1 0 (by decide)).trans (hword 1 0 (Or.inr (by decide)))
  · exact (hmem 1 1 (by decide)).trans (hword 1 1 (Or.inr (by decide)))
  · exact (hmem 1 _ (by decide)).trans ((hword 1 _ (Or.inr (by decide))).trans (putWord_same ..))
  · intro i
    show Function.update s₁.mem 2 (fun _ => 0xFFFFFFFF#32) 2 i = _
    rw [Function.update_self]
  · intro b hb hlt i
    have hb' : 3 ≤ b := hb
    exact (hmem b i (by omega)).trans (hzero b i (by omega) hlt)
  · exact fun k hk => absurd hk (Nat.not_lt_zero k)

/-! ## §6. The directory and the bitmap. -/

/-- Entry `k` of the directory that starts at block `start`. -/
def dirEntry (start k : Nat) : FileP := ⟨start + k / BLKFILES, 64 * (k % BLKFILES)⟩

theorem dirEntry_idx (start k : Nat) : (dirEntry start k).idx + 64 ≤ 1024 := by
  show 64 * (k % 16) + 64 ≤ 1024
  omega

theorem moveEnts_spec (start words : Nat) (hapart : start + words / 1024 + 1 ≤ entsBlk) (d : Disk) :
    wp (moveEnts start words)
      (fun _ d' => (∀ i < words, d' (start + i / 1024) (i % 1024) =
          d (entsBlk + i / 1024) (i % 1024)) ∧
        ∀ b j, (start ≤ b → b < entsBlk → (b - start) * 1024 + j < words → 1024 ≤ j) →
          d' b j = d b j)
      (fun _ _ => False) d := by
  refine wp_mono (wp_forUp (I := fun n t => (∀ i < n, t (start + i / 1024) (i % 1024) =
      d (entsBlk + i / 1024) (i % 1024)) ∧
      ∀ b j, (start ≤ b → b < entsBlk → (b - start) * 1024 + j < words → 1024 ≤ j) →
        t b j = d b j) words 0 d ⟨fun i hi => absurd hi (Nat.not_lt_zero i), fun _ _ _ => rfl⟩ ?_)
    ?_ (fun _ _ h => h)
  · intro n t _ hn ht
    obtain ⟨hdone, hrest⟩ := ht
    refine wp_bind_ok (load_ok _ _ t) ?_
    refine wp_of_ok (store_ok _ _ _ t) ⟨?_, ?_⟩
    · intro i hi
      by_cases he : i = n
      · subst he
        rw [putWord_same]
        -- the buffer has not been written to
        exact hrest _ _ fun _ hlt => absurd hlt (Nat.not_lt.mpr (Nat.le_add_right _ _))
      · rw [putWord_of_ne _ _ (by omega)]
        exact hdone i (by omega)
    · intro b j hb
      rw [putWord_of_ne]
      · exact hrest b j hb
      · by_contra hc
        push Not at hc
        have := hb (by omega) (by omega) (by omega)
        omega
  · intro _ t ht
    rw [Nat.zero_add] at ht
    exact ht

theorem clearBits_spec (n : Nat) (d : Disk) :
    wp (forUp (clearBit 2) 0 n)
      (fun _ d' => (∀ b, b < 1024 * 1024 * 32 → (inUse d' b ↔ b < n ∨ inUse d b)) ∧
        ∀ b i, (b < 2 ∨ 2 + n / 32 / 1024 < b) → d' b i = d b i)
      (fun _ _ => False) d := by
  refine wp_mono (wp_forUp (I := fun m t => m ≤ n ∧
      (∀ b, b < 1024 * 1024 * 32 → (inUse t b ↔ b < m ∨ inUse d b)) ∧
      ∀ b i, (b < 2 ∨ 2 + n / 32 / 1024 < b) → t b i = d b i) n 0 d
    ⟨Nat.zero_le n, fun b _ => by simp, fun _ _ _ => rfl⟩ ?_) ?_ (fun _ _ h => h)
  · intro m t _ hm ht
    obtain ⟨-, hbits, hrest⟩ := ht
    refine wp_of_ok (show clearBit 2 m t = .ok () (markUsed t m) from rfl) ⟨by omega, ?_, ?_⟩
    · intro b hb
      rw [inUse_markUsed, hbits b hb, Nat.lt_succ_iff_lt_or_eq]
      tauto
    · intro b i hb
      rw [← hrest b i hb]
      refine putWord_of_ne _ _ (Or.inl ?_)
      unfold bitmapBlk
      omega
  · intro _ t ht
    rw [Nat.zero_add] at ht
    exact ht.2

/-- **What `fsformat` writes.** -/
structure Formatted (nblocks : Nat) (files : List HostFile) (d : Disk) : Prop where
  magic : d 1 0 = FS_MAGIC
  blocks : d 1 1 = BitVec.ofNat 32 nblocks
  rootType : d 1 sRoot.fType = FTYPE_DIR
  root : Describes d sRoot (startOf files files.length) (4096 * nblk (files.length * 256))
  entries : ∀ k (h : k < files.length),
    EntryAt d (dirEntry (startOf files files.length) k) (startOf files k) files[k]
  blank : ∀ k, files.length ≤ k → k < 16 * nblk (files.length * 256) →
    byteAt d (dirEntry (startOf files files.length) k).fName = 0#8
  inUse : ∀ b < nblocks, (Jos.inUse d b ↔ b < startOf files files.length + nblk
    (files.length * 256))

/-- The image with its directory, and the bitmap still all ones. -/
structure Listed (nblocks : Nat) (files : List HostFile) (s : FmtState) : Prop where
  pos : s.pos = 4096 * (startOf files files.length + nblk (files.length * 256))
  magic : s.mem 1 0 = FS_MAGIC
  blocks : s.mem 1 1 = BitVec.ofNat 32 nblocks
  rootType : s.mem 1 sRoot.fType = FTYPE_DIR
  bitmap : ∀ i, s.mem 2 i = 0xFFFFFFFF#32
  root : Describes s.mem sRoot (startOf files files.length) (4096 * nblk (files.length * 256))
  entries : ∀ k (h : k < files.length),
    EntryAt s.mem (dirEntry (startOf files files.length) k) (startOf files k) files[k]
  blank : ∀ k, files.length ≤ k → k < 16 * nblk (files.length * 256) →
    byteAt s.mem (dirEntry (startOf files files.length) k).fName = 0#8

theorem roundUpInt_pos {n : Nat} (hn : 0 < n) : roundUpInt n = ((4096 * nblk n : Nat) : Int) := by
  unfold roundUpInt nblk
  rw [Int.tmod_eq_emod_of_nonneg (by omega)]
  omega

/-- **`finishdir`** of a directory with entries, if it fits, records the blocks it has
allocated, and copies the entries there. -/
theorem finishdir_spec (root : FileP) (hpos : s.pos = 4096 * start)
    (hsome : 0 < s.n) (hcount : s.n ≤ MAX_DIR_ENTS) (hblocks : nblocks ≤ entsBlk)
    (hroot : root.blk < start) :
    wp (finishdir nblocks root)
      (fun _ s' => s'.pos = 4096 * (start + nblk (s.n * 256)) ∧
        start + nblk (s.n * 256) < nblocks ∧
        Describes s'.mem root start (4096 * nblk (s.n * 256)) ∧
        (∀ i < s.n * 64, s'.mem (start + i / 1024) (i % 1024) =
          s.mem (entsBlk + i / 1024) (i % 1024)) ∧
        ∀ b i, (b = root.blk → i < root.fSize ∨ root.fIndirect < i ∨ i = root.fType) →
          (start ≤ b → b < entsBlk → (b - start) * 1024 + i < s.n * 64 → 1024 ≤ i) →
          s'.mem b i = s.mem b i)
      (fun _ _ => ¬ start + nblk (s.n * 256) < nblocks) s := by
  have hn : s.n ≤ 128 := hcount
  have hdir : nblk (s.n * 256) ≤ 8 := by
    unfold nblk
    omega
  have hsize : (BitVec.ofNat 32 (s.n * 256)).toNat = s.n * 256 := toNat_ofNat_lt (by omega)
  -- signed and unsigned rounding agree, as there are entries
  have hround : BitVec.ofInt 32 (roundUpInt (s.n * 256 : Nat)) =
      BitVec.ofNat 32 (4096 * nblk (s.n * 256)) := by
    rw [roundUpInt_pos (by omega)]
    exact BitVec.ofInt_natCast ..
  have hx : extra (nblk (s.n * 256)) = 0 := if_neg (by unfold NDIRECT; omega)
  refine wp_get_bind ?_
  have halloc := alloc_spec nblocks start (BitVec.ofNat 32 (s.n * 256)) (by omega) hpos
  rw [hsize] at halloc
  refine wp_seq halloc ?_
  intro a s₁ hs₁
  obtain ⟨rfl, rfl, hfit⟩ := hs₁
  rw [blockof_mul, hround]
  refine wp_seq (wp_mono (wp_onMem (moveEnts_spec start (s.n * 256 / 4)
    (by unfold nblk at hfit; omega) _)) (fun _ _ h => h) (fun _ _ h => h.elim)) ?_
  intro _ s₂ hs₂
  obtain ⟨hpos₂, -, hcopy, hrest₂⟩ := hs₂
  have hfile := finishfile_spec (s := s₂) (f := root) nblocks start (4096 * nblk (s.n * 256))
    (by unfold MAXFILESIZE NDIRECT NINDIRECT BLKSIZE; omega) (by rw [nblk_mul]; exact hpos₂)
    (by rw [nblk_mul]; exact hfit) (by omega)
  rw [nblk_mul, hx, Nat.add_zero] at hfile
  refine wp_mono hfile ?_ (fun _ _ hno => hno)
  intro _ s₃ hs₃
  obtain ⟨hpos₃, -, -, hdesc, hframe₃⟩ := hs₃
  have hframe : ∀ b i, (b = root.blk → i < root.fSize ∨ root.fIndirect < i ∨ i = root.fType) →
      s₃.mem b i = s₂.mem b i :=
    fun b i hb => hframe₃ b i hb fun hbig => absurd hbig (by unfold NDIRECT; omega)
  refine ⟨hpos₃, hfit, hdesc, ?_, ?_⟩
  · intro i hi
    rw [hframe _ _ fun he => by omega]
    exact hcopy i (by omega)
  · intro b i hb hout
    rw [hframe b i hb]
    exact hrest₂ b i fun hle hlt hin => hout hle hlt (by omega)

/-- Entry `k` where it has been copied to. -/
theorem dir_word {start n k : Nat} (hcopy : ∀ i < n * 64, d' (start + i / 1024) (i % 1024) =
    d (entsBlk + i / 1024) (i % 1024)) (hk : k < n) :
    ∀ i < 64, d' (dirEntry start k).blk ((dirEntry start k).idx + i) =
      d (entry k).blk ((entry k).idx + i) := by
  intro i hi
  have hword := hcopy (64 * k + i) (by omega)
  rw [show (64 * k + i) / 1024 = k / 16 by omega,
    show (64 * k + i) % 1024 = 64 * (k % 16) + i by omega] at hword
  exact hword

/-- **`finishdir`** copies the entries behind the files. -/
theorem Laid.finishdir_spec (h : Laid nblocks files s) (hin : Input nblocks files) :
    wp (finishdir nblocks sRoot) (fun _ s' => Listed nblocks files s') (fun _ _ => False) s := by
  have hcount : files.length ≤ 128 := hin.count
  have hmax := hin.blocks
  have hroom := hin.room
  have h3 := three_le_startOf files files.length
  have hB := hin.dir_le
  have hpos : 0 < files.length := List.length_pos_iff.mpr hin.some
  have hdir := Fmt.finishdir_spec sRoot h.pos (by rw [h.n]; exact hpos)
    (by rw [h.n]; exact hin.count) hmax (show 1 < _ by omega)
  rw [h.n] at hdir
  refine wp_mono hdir ?_ (fun _ _ hno => hno hroom)
  intro _ s₂ hs₂
  obtain ⟨hpos₂, -, hdesc, hcopy, hframe⟩ := hs₂
  have hlow : ∀ b i, b ≠ 1 → b < startOf files files.length → s₂.mem b i = s.mem b i :=
    fun b i hb hlt => hframe b i (fun he => absurd he hb) fun hle => absurd hle (by omega)
  have hsuper : ∀ i, i < 34 ∨ i = sRoot.fType → s₂.mem 1 i = s.mem 1 i := fun i hi =>
    hframe 1 i (fun _ => hi.elim Or.inl fun he => Or.inr (Or.inr he)) fun hle =>
      absurd hle (by omega)
  refine ⟨hpos₂, ?_, ?_, ?_, ?_, hdesc, ?_, ?_⟩
  · rw [hsuper 0 (Or.inl (by omega))]
    exact h.magic
  · rw [hsuper 1 (Or.inl (by omega))]
    exact h.blocks
  · rw [hsuper _ (Or.inr rfl)]
    exact h.rootType
  · intro i
    rw [hlow 2 i (by omega) (by omega)]
    exact h.bitmap i
  · intro k hk
    have hle := startOf_mono files (show k + 1 ≤ files.length from hk) le_rfl
    rw [startOf_succ files hk] at hle
    have h3k := three_le_startOf files k
    refine (h.files k hk).move (hin.names _ (List.getElem_mem hk)) (entry_idx k)
      (dirEntry_idx _ k) (dir_word hcopy hk) ?_
    intro b hb hlt i
    exact hlow b i (by omega) (by omega)
  · intro k hk hlt
    -- behind the entries the image is still zero
    have hidx := dirEntry_idx (startOf files files.length) k
    obtain ⟨h1, h2, h3'⟩ := record_byte hidx (show 0 < 256 by omega)
    rw [Nat.add_zero] at h1 h2 h3'
    unfold byteAt
    rw [h1, h2, h3']
    show getByte (s₂.mem (startOf files files.length + k / 16) (64 * (k % 16) + 0 / 4)) 0 = 0#8
    have hne : startOf files files.length + k / 16 ≠ 1 := by omega
    rw [hframe _ _ (fun he => absurd he hne) fun _ _ _ => ?_, h.blank _ (by omega) ?_]
    · rfl
    · unfold entsBlk
      omega
    · omega

/-- In a bitmap of ones no block is in use. -/
theorem ones_free {b : Nat} (hb : b < 1024) (hones : ∀ i, d 2 i = 0xFFFFFFFF#32) : ¬ inUse d b := by
  have h2 : bitmapBlk b = 2 := by
    unfold bitmapBlk
    omega
  unfold inUse
  rw [h2, hones]
  have hlt : b % 32 < 32 := Nat.mod_lt _ (by omega)
  generalize b % 32 = j at hlt
  interval_cases j <;> decide

theorem image_inUse {nblocks b : Nat} (h3 : 3 ≤ nblocks) (hb : b < nblocks) :
    inUse (image nblocks s) b ↔ inUse s.mem b := by
  have h2 : bitmapBlk b < nblocks := by
    unfold bitmapBlk
    omega
  unfold inUse image
  rw [if_pos h2]

/-- Clearing the bits of the blocks below `diskpos` finishes the image. -/
theorem Listed.formatted (h : Listed nblocks files s) (hin : Input nblocks files)
    (hbits : ∀ b < 1024 * 1024 * 32, (inUse s'.mem b ↔
      b < startOf files files.length + nblk (files.length * 256) ∨ inUse s.mem b))
    (hrest : ∀ b i, b < nblocks → b ≠ 2 → s'.mem b i = s.mem b i) :
    Formatted nblocks files (image nblocks s') := by
  have hmax := hin.blocks
  have hroom := hin.room
  have h3 := three_le_startOf files files.length
  have hB := hin.dir_le
  -- every block but the bitmap is as it was
  have hsame : ∀ b i, b < nblocks → b ≠ 2 → image nblocks s' b i = s.mem b i := by
    intro b i hb h2
    unfold image
    rw [if_pos hb]
    exact hrest b i hb h2
  have hdir : ∀ k < 16 * nblk (files.length * 256), ∀ i,
      image nblocks s' (startOf files files.length + k / 16) i =
        s.mem (startOf files files.length + k / 16) i :=
    fun k hk i => hsame _ i (by omega) (by omega)
  refine ⟨?_, ?_, ?_, ⟨?_, ?_, ?_, ?_⟩, ?_, ?_, ?_⟩
  · rw [hsame 1 0 (by omega) (by omega)]
    exact h.magic
  · rw [hsame 1 1 (by omega) (by omega)]
    exact h.blocks
  · rw [hsame 1 _ (by omega) (by omega)]
    exact h.rootType
  · rw [hsame sRoot.blk _ (show 1 < nblocks by omega) (by decide)]
    exact h.root.size
  · intro i hi hd
    rw [hsame sRoot.blk _ (show 1 < nblocks by omega) (by decide)]
    exact h.root.direct i hi hd
  · intro hbig
    rw [nblk_mul] at hbig
    unfold NDIRECT at hbig
    omega
  · intro i hi hbig
    rw [nblk_mul] at hi
    unfold NDIRECT at hbig
    omega
  · intro k hk
    have hle := startOf_mono files (show k + 1 ≤ files.length from hk) le_rfl
    rw [startOf_succ files hk] at hle
    have h3k := three_le_startOf files k
    refine (h.entries k hk).move (hin.names _ (List.getElem_mem hk)) (dirEntry_idx _ k)
      (dirEntry_idx _ k) (fun i _ => hdir k ?_ _) ?_
    · unfold nblk
      omega
    · exact fun b hb hlt i => hsame b i (by omega) (by omega)
  · intro k hk hlt
    rw [← h.blank k hk hlt]
    apply byteAt_congr
    obtain ⟨h1, -, -⟩ := record_byte (dirEntry_idx (startOf files files.length) k)
      (show 0 < 256 by omega)
    rw [Nat.add_zero] at h1
    rw [h1]
    exact hdir k hlt _
  · intro b hb
    rw [image_inUse (by omega) hb, hbits b (by omega)]
    exact or_iff_left (ones_free (by omega) h.bitmap)

/-- **`fsformat` returns**, whatever the buffer held, and this is the image. -/
theorem fsformat_spec (garbage : Disk) (hin : Input nblocks files) :
    ∃ s, fsformat nblocks files (host garbage) = .ok () s ∧
      s.pos = 4096 * (startOf files files.length + nblk (files.length * 256)) ∧
      Formatted nblocks files (image nblocks s) := by
  have hmax := hin.blocks
  have hroom := hin.room
  have h3 := three_le_startOf files files.length
  have hrun : wp (fsformat nblocks files) (fun _ s =>
      s.pos = 4096 * (startOf files files.length + nblk (files.length * 256)) ∧
      Formatted nblocks files (image nblocks s)) (fun _ _ => False) (host garbage) := by
    unfold fsformat
    rw [if_neg (by omega)]
    refine wp_seq (wp_mono (opendisk_spec garbage hmax) (fun _ _ h => h) fun _ _ hno =>
      hno (by omega)) ?_
    intro r s₀ hs₀
    obtain ⟨rfl, -, hlaid⟩ := hs₀
    have hfiles := writefiles_spec files [] s₀ hlaid
    rw [List.nil_append] at hfiles
    refine wp_seq (hfiles hin) ?_
    intro _ s₁ h₁
    refine wp_seq (h₁.finishdir_spec hin) ?_
    intro _ s₂ h₂
    refine wp_get_bind ?_
    rw [h₂.pos, blockof_mul]
    refine wp_mono (wp_onMem (clearBits_spec _ _)) ?_ (fun _ _ h => h)
    intro _ s₃ hs₃
    obtain ⟨hpos₃, -, hbits, hrest⟩ := hs₃
    exact ⟨hpos₃.trans h₂.pos, h₂.formatted hin hbits fun b i hb h2 => hrest b i (by omega)⟩
  obtain ⟨_, s, hs, hf⟩ := exists_ok_of_wp hrun
  exact ⟨s, hs, hf⟩

end

end Jos.Fmt
