/-
  Jos.Fs.Disk — **THE FILE SERVER'S BLOCKS AND FILES** (`fs/fs.c`).

  The disk, as the block cache shows it, is a memory of words: block number,
  word index.  Block 1 is the super block, the bitmap starts at block 2, and a
  `struct File` is 64 words of a directory block (or of the super block, for
  the root).  Every function is a program over that memory which stops where
  the source calls `panic`.

  `off_t` and `int` are signed, `uint32_t` and `size_t` are not; where the
  source compares a signed with an unsigned value the comparison is unsigned.
  Flushing a block to the device does not change what the cache shows, and is
  left out.
-/
import Jos.Kern.Pmap
import Jos.Mem.Slots
import Jos.Ulib.Pipe

namespace Jos

open Exec

/-! ## §1. The disk. -/

def BLKSIZE : Nat := 4096
def NDIRECT : Nat := 10
def NINDIRECT : Nat := 1024
def MAXFILESIZE : Nat := (NDIRECT + NINDIRECT) * BLKSIZE

def E_NO_DISK : Word := 9#32
def E_NOT_FOUND : Word := 11#32

def FTYPE_DIR : Word := 1#32

/-- Block number, word of the block. -/
abbrev Disk := Nat → Nat → Word

abbrev FsM := EStateM String Disk

def load (b i : Nat) : FsM Word := do
  return (← get) b i

def store (b i : Nat) (w : Word) : FsM Unit :=
  modify fun d => putWord d b i w

/-- `memset(diskaddr(b), 0, BLKSIZE)`. -/
def clearBlock (b : Nat) : FsM Unit :=
  modify fun d => Function.update d b fun _ => 0

/-- A `struct File *`: the block it lies in and the index of its first word. -/
structure FileP where
  blk : Nat
  idx : Nat
  deriving DecidableEq

def FileP.fSize (f : FileP) : Nat := f.idx + 32
def FileP.fType (f : FileP) : Nat := f.idx + 33
def FileP.fDirect (f : FileP) (i : Nat) : Nat := f.idx + 34 + i
def FileP.fIndirect (f : FileP) : Nat := f.idx + 44

/-- `super->s_nblocks`. -/
def sNblocks : FsM Word := load 1 1

/-- `&super->s_root`. -/
def sRoot : FileP := ⟨1, 2⟩

/-! ## §2. The bitmap. -/

/-- Where `bitmap[b / 32]` lies. -/
def bitmapBlk (b : Nat) : Nat := 2 + b / 32 / 1024
def bitmapIdx (b : Nat) : Nat := b / 32 % 1024

def blockIsFree (blockno : Word) : FsM Bool := do
  let nblocks ← sNblocks
  if nblocks ≤ blockno then
    return false
  else
    let w ← load (bitmapBlk blockno.toNat) (bitmapIdx blockno.toNat)
    return w &&& (1#32 <<< (blockno.toNat % 32)) ≠ 0#32

def freeBlock (blockno : Word) : FsM Unit := do
  if blockno = 0#32 then
    throw "attempt to free zero block"
  else
    let w ← load (bitmapBlk blockno.toNat) (bitmapIdx blockno.toNat)
    store (bitmapBlk blockno.toNat) (bitmapIdx blockno.toNat)
      (w ||| (1#32 <<< (blockno.toNat % 32)))

/-- The block behind the address `diskaddr` returns (`fs/bc.c`). -/
def diskaddr (blockno : Word) : FsM Nat := do
  let nblocks ← sNblocks
  if blockno = 0#32 ∨ nblocks ≤ blockno then
    throw "bad block number in diskaddr"
  else
    return blockno.toNat

/-- The loop of `alloc_block` from `i` on, with `n` blocks to go. -/
def allocBlockFrom : Nat → Nat → FsM Word
  | 0, _ => return -E_NO_DISK
  | n + 1, i => do
      if ← blockIsFree (BitVec.ofNat 32 i) then
        let w ← load (bitmapBlk i) (bitmapIdx i)
        store (bitmapBlk i) (bitmapIdx i) (w &&& ~~~(1#32 <<< (i % 32)))
        let _ ← diskaddr (BitVec.ofNat 32 i)
        return BitVec.ofNat 32 i
      else
        allocBlockFrom n (i + 1)

def allocBlock : FsM Word := do
  let nblocks ← sNblocks
  allocBlockFrom nblocks.toNat 0

/-! ## §3. The blocks of a file. -/

/-- The block-number slot of file block `filebno`: its block and word, or the
error.  The source tests `blockno < 0` on an unsigned number, so a failed
`alloc_block` reaches `diskaddr`. -/
def fileBlockWalk (f : FileP) (filebno : Word) (alloc : Bool) :
    FsM (Except Word (Nat × Nat)) := do
  if filebno.toNat < NDIRECT then
    return .ok (f.blk, f.fDirect filebno.toNat)
  else if filebno.toNat < NDIRECT + NINDIRECT then
    let ind ← load f.blk f.fIndirect
    if ind ≠ 0#32 then
      let b ← diskaddr ind
      return .ok (b, filebno.toNat - NDIRECT)
    else if alloc then
      let blockno ← allocBlock
      let b ← diskaddr blockno
      clearBlock b
      store f.blk f.fIndirect blockno
      let ind ← load f.blk f.fIndirect
      let b ← diskaddr ind
      return .ok (b, filebno.toNat - NDIRECT)
    else
      return .error (-E_NOT_FOUND)
  else
    return .error (-E_INVAL)

/-- The block behind `*blk`, or the error.  Here too `*pdiskbno < 0` never
holds. -/
def fileGetBlock (f : FileP) (filebno : Word) : FsM (Except Word Nat) := do
  match ← fileBlockWalk f filebno true with
  | .error r => return .error r
  | .ok (b, i) =>
    if (← load b i) = 0#32 then
      let blockno ← allocBlock
      store b i blockno
    return .ok (← diskaddr (← load b i))

def fileFreeBlock (f : FileP) (filebno : Word) : FsM Word := do
  match ← fileBlockWalk f filebno false with
  | .error r => return r
  | .ok (b, i) =>
    let ptr ← load b i
    if ptr ≠ 0#32 then
      freeBlock ptr
      store b i 0#32
    return 0#32

/-- `(size + BLKSIZE - 1) / BLKSIZE`, in `int`s. -/
def sizeBlocks (size : Word) : Word := (size + 4095#32).sdiv 4096#32

def fileTruncateBlocks (f : FileP) (newsize : Word) : FsM Unit := do
  let size ← load f.blk f.fSize
  let oldNblocks := sizeBlocks size
  let newNblocks := sizeBlocks newsize
  forUp (fun bno => do let _ ← fileFreeBlock f (BitVec.ofNat 32 bno))
    newNblocks.toNat (oldNblocks.toNat - newNblocks.toNat)
  if newNblocks.toNat ≤ NDIRECT then
    let ind ← load f.blk f.fIndirect
    if ind ≠ 0#32 then
      freeBlock ind
      store f.blk f.fIndirect 0#32

def fileSetSize (f : FileP) (newsize : Word) : FsM Word := do
  let size ← load f.blk f.fSize
  if newsize.slt size then
    fileTruncateBlocks f newsize
  store f.blk f.fSize newsize
  return 0#32

/-! ## §4. The bytes of a file. -/

/-- The byte at the address `DISKMAP + a`. -/
def diskByte (a : Nat) : FsM Byte := do
  let w ← load (a / BLKSIZE) (a % BLKSIZE / 4)
  return getByte w (a % 4)

def putDiskByte (a : Nat) (x : Byte) : FsM Unit := do
  let w ← load (a / BLKSIZE) (a % BLKSIZE / 4)
  store (a / BLKSIZE) (a % BLKSIZE / 4) (putByte w (a % 4) x)

/-- `memmove` out of the disk map. -/
def diskBytes (a : Nat) : Nat → FsM (List Byte)
  | 0 => return []
  | n + 1 => do
      let x ← diskByte a
      return x :: (← diskBytes (a + 1) n)

/-- `memmove` into the disk map. -/
def putDiskBytes (a : Nat) : List Byte → FsM Unit
  | [] => return ()
  | x :: xs => do
      putDiskByte a x
      putDiskBytes (a + 1) xs

/-- `MIN` of two unsigned numbers. -/
def umin (a b : Word) : Word := if a ≤ b then a else b

/-- `MIN(BLKSIZE - pos % BLKSIZE, stop - pos)`: how much of the block that
holds `pos` is moved. -/
def chunk (stop pos : Word) : Word := umin (4096#32 - pos.srem 4096#32) (stop - pos)

/-- `blk + pos % BLKSIZE`; the remainder has the sign of `pos`. -/
def blkAddr (b : Nat) (pos : Word) : Nat := (b * BLKSIZE + (pos.srem 4096#32).toInt).toNat

/-- The loop of `file_read` up to `stop`: the error if there was one, and what
is in the buffer. -/
def fileReadLoop (f : FileP) (stop : Word) : Nat → Word → List Byte →
    FsM (Option Word × List Byte)
  | 0, _, buf => return (none, buf)
  | n + 1, pos, buf => do
      if pos < stop then
        match ← fileGetBlock f (pos.sdiv 4096#32) with
        | .error r => return (some r, buf)
        | .ok b =>
          let xs ← diskBytes (blkAddr b pos) (chunk stop pos).toNat
          fileReadLoop f stop n (pos + chunk stop pos) (buf ++ xs)
      else
        return (none, buf)

/-- The return value and the bytes stored into `buf`.  Every pass moves a byte
or more, so `count` passes are enough. -/
def fileRead (f : FileP) (count offset : Word) : FsM (Word × List Byte) := do
  let size ← load f.blk f.fSize
  if size.sle offset then
    return (0#32, [])
  else
    let count := umin count (size - offset)
    match ← fileReadLoop f (offset + count) count.toNat offset [] with
    | (some r, buf) => return (r, buf)
    | (none, buf) => return (count, buf)

/-- The loop of `file_write`: `buf` is what is left to write. -/
def fileWriteLoop (f : FileP) (stop : Word) : Nat → Word → List Byte → FsM (Option Word)
  | 0, _, _ => return none
  | n + 1, pos, buf => do
      if pos < stop then
        match ← fileGetBlock f (pos.sdiv 4096#32) with
        | .error r => return some r
        | .ok b =>
          putDiskBytes (blkAddr b pos) (buf.take (chunk stop pos).toNat)
          fileWriteLoop f stop n (pos + chunk stop pos) (buf.drop (chunk stop pos).toNat)
      else
        return none

/-- `file_write` of the bytes `buf`; `count` is their number. -/
def fileWrite (f : FileP) (buf : List Byte) (offset : Word) : FsM Word := do
  let count := BitVec.ofNat 32 buf.length
  let size ← load f.blk f.fSize
  if size < offset + count then
    let _ ← fileSetSize f (offset + count)
  match ← fileWriteLoop f (offset + count) count.toNat offset buf with
  | some r => return r
  | none => return count

/-- The end of `file_write`: the loop's error, or the count. -/
def writeEnd {m : Type → Type} [Monad m] (count : Word) : Option Word → m Word
  | some r => pure r
  | none => pure count

end Jos
