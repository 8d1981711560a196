/-
  Jos.Fs.Crash — **WHAT A CRASH LEAVES** (`fs/fs.c` with its flushes).

  The file server works on the blocks in its cache; a block reaches the disk
  when it is flushed, and a crash leaves what is on the disk.  Here the state
  has both, and the functions of `fs/fs.c` are written down with the flushes
  they make.

  `alloc_block` is meant to flush the bitmap block it has changed.  It flushes
  the block it hands out instead, so the bitmap on the disk is that of the last
  `fs_sync`.
-/
import Jos.Fs.DirSize
import Jos.Fs.Cache

namespace Jos.Crash

open Exec
open Function (update update_of_ne update_self)

variable {d t u : Disk} {b : Nat} {stop : Word}

/-! ## §1. The cache and the disk. -/

/-- What the cache shows, and what is on the disk. -/
structure Img where
  mem : Disk
  disk : Disk

abbrev ImgM := EStateM String Img

/-- Code that flushes nothing. -/
def onCache {α : Type} (m : FsM α) : ImgM α := fun s =>
  match m s.mem with
  | .ok a d => .ok a { s with mem := d }
  | .error e d => .error e { s with mem := d }

/-- `flush_block` of an address in block `b`. -/
def flushBlock (b : Nat) : ImgM Unit :=
  modify fun s => { s with disk := update s.disk b (s.mem b) }

/-- The pair that a block cache stands for. -/
def imgOf (c : Bc.Cache) : Img := ⟨c.shows, c.disk⟩

/-- **The real `flush_block`**, with its page table and dirty bits, does this to
the pair. -/
theorem flushBlock_refines {c : Bc.Cache} {va : Word} (hc : Bc.Coherent c)
    (hmap : Bc.inMap va = true) :
    ∃ c', Bc.flushBlock va c = .ok () c' ∧ Bc.Coherent c' ∧
      flushBlock (Bc.blockOf va).toNat (imgOf c) = .ok () (imgOf c') := by
  obtain ⟨_, c', hrun, hf⟩ := exists_ok_of_wp (Bc.flushBlock_spec hc hmap)
  refine ⟨c', hrun, hf.coherent, ?_⟩
  have hdisk : update c.disk (Bc.blockOf va).toNat (c.shows (Bc.blockOf va).toNat) =
      c'.disk := by
    funext b
    by_cases hb : b = (Bc.blockOf va).toNat
    · rw [hb, update_self, hf.self]
    · rw [update_of_ne hb, hf.other b hb]
  unfold imgOf
  rw [hf.shows]
  exact congrArg (fun d => EStateM.Result.ok () (Img.mk c.shows d)) hdisk

/-- A cache in which every word of block 3 has been set to 5. -/
def dirtyCache : Bc.Cache where
  disk := smallDisk
  page v := if v = Bc.blockPage 3 then some ⟨fun _ => 5#32, PTE_SYSCALL ||| Bc.PTE_D⟩ else none
  super := false
  bitmap := false

/-- Block 3 is flushed, and written. -/
theorem flushBlock_refines_dirty : ∃ c', Bc.flushBlock 0x10003000#32 dirtyCache = .ok () c' ∧
    flushBlock 3 (imgOf dirtyCache) = .ok () (imgOf c') ∧ smallDisk 3 0 = 0#32 ∧
    c'.disk 3 0 = 5#32 := by
  have hc : Bc.Coherent dirtyCache := by
    refine ⟨fun b p hp hd => ?_, nofun⟩
    unfold dirtyCache at hp
    dsimp only at hp
    split at hp <;> cases hp
    exact absurd hd (by decide)
  obtain ⟨c', hrun, -, himg⟩ := flushBlock_refines hc (show Bc.inMap 0x10003000#32 = true by decide)
  refine ⟨c', hrun, himg, by decide, ?_⟩
  injection himg with _ himg
  exact (congrArg (fun s : Img => s.disk 3 0) himg).symm

/-! ## §2. Blocks and files. -/

def allocBlockFrom : Nat → Nat → ImgM Word
  | 0, _ => return -E_NO_DISK
  | n + 1, i => do
      if ← onCache (blockIsFree (BitVec.ofNat 32 i)) then
        let w ← onCache (load (bitmapBlk i) (bitmapIdx i))
        onCache (store (bitmapBlk i) (bitmapIdx i) (w &&& ~~~(1#32 <<< (i % 32))))
        -- `flush_block(diskaddr(i))`: the block, not its bitmap block
        flushBlock (← onCache (diskaddr (BitVec.ofNat 32 i)))
        return BitVec.ofNat 32 i
      else
        allocBlockFrom n (i + 1)

def allocBlock : ImgM Word := do
  let nblocks ← onCache sNblocks
  allocBlockFrom nblocks.toNat 0

/-- `file_block_walk` with `alloc`; without it nothing is flushed. -/
def fileBlockWalk (f : FileP) (filebno : Word) : ImgM (Except Word (Nat × Nat)) := do
  if filebno.toNat < NDIRECT then
    return .ok (f.blk, f.fDirect filebno.toNat)
  else if filebno.toNat < NDIRECT + NINDIRECT then
    let ind ← onCache (load f.blk f.fIndirect)
    if ind ≠ 0#32 then
      let b ← onCache (diskaddr ind)
      return .ok (b, filebno.toNat - NDIRECT)
    else
      let blockno ← allocBlock
      let b ← onCache (diskaddr blockno)
      onCache (clearBlock b)
      onCache (store f.blk f.fIndirect blockno)
      let ind ← onCache (load f.blk f.fIndirect)
      let b ← onCache (diskaddr ind)
      return .ok (b, filebno.toNat - NDIRECT)
  else
    return .error (-E_INVAL)

def fileGetBlock (f : FileP) (filebno : Word) : ImgM (Except Word Nat) := do
  match ← fileBlockWalk f filebno with
  | .error r => return .error r
  | .ok (b, i) =>
    if (← onCache (load b i)) = 0#32 then
      let blockno ← allocBlock
      onCache (store b i blockno)
    return .ok (← onCache (diskaddr (← onCache (load b i))))

def fileSetSize (f : FileP) (newsize : Word) : ImgM Word := do
  let r ← onCache (Jos.fileSetSize f newsize)
  flushBlock f.blk
  return r

def fileReadLoop (f : FileP) (stop : Word) : Nat → Word → List Byte →
    ImgM (Option Word × List Byte)
  | 0, _, buf => return (none, buf)
  | n + 1, pos, buf => do
      if pos < stop then
        match ← fileGetBlock f (pos.sdiv 4096#32) with
        | .error r => return (some r, buf)
        | .ok b =>
          let xs ← onCache (diskBytes (blkAddr b pos) (chunk stop pos).toNat)
          fileReadLoop f stop n (pos + chunk stop pos) (buf ++ xs)
      else
        return (none, buf)

def fileRead (f : FileP) (count offset : Word) : ImgM (Word × List Byte) := do
  let size ← onCache (load f.blk f.fSize)
  if size.sle offset then
    return (0#32, [])
  else
    let count := umin count (size - offset)
    match ← fileReadLoop f (offset + count) count.toNat offset [] with
    | (some r, buf) => return (r, buf)
    | (none, buf) => return (count, buf)

def fileWriteLoop (f : FileP) (stop : Word) : Nat → Word → List Byte → ImgM (Option Word)
  | 0, _, _ => return none
  | n + 1, pos, buf => do
      if pos < stop then
        match ← fileGetBlock f (pos.sdiv 4096#32) with
        | .error r => return some r
        | .ok b =>
          onCache (putDiskBytes (blkAddr b pos) (buf.take (chunk stop pos).toNat))
          fileWriteLoop f stop n (pos + chunk stop pos) (buf.drop (chunk stop pos).toNat)
      else
        return none

def fileWrite (f : FileP) (buf : List Byte) (offset : Word) : ImgM Word := do
  let count := BitVec.ofNat 32 buf.length
  let size ← onCache (load f.blk f.fSize)
  if size < offset + count then
    let _ ← fileSetSize f (offset + count)
  match ← fileWriteLoop f (offset + count) count.toNat offset buf with
  | some r => return r
  | none => return count

/-- The body of the loop of `file_flush`. -/
def fileFlushBlock (f : FileP) (i : Nat) : ImgM Unit := do
  match ← onCache (Jos.fileBlockWalk f (BitVec.ofNat 32 i) false) with
  | .error _ => return ()
  | .ok (b, j) =>
    let w ← onCache (load b j)
    if w = 0#32 then
      return ()
    else
      flushBlock (← onCache (diskaddr w))

def fileFlush (f : FileP) : ImgM Unit := do
  let size ← onCache (load f.blk f.fSize)
  forUp (fileFlushBlock f) 0 (sizeBlocks size).toInt.toNat
  flushBlock f.blk
  let ind ← onCache (load f.blk f.fIndirect)
  if ind ≠ 0#32 then
    flushBlock (← onCache (diskaddr ind))

def fsSync : ImgM Unit := do
  let nblocks ← onCache sNblocks
  forUp (fun i => do flushBlock (← onCache (diskaddr (BitVec.ofNat 32 i)))) 1 (nblocks.toNat - 1)

/-! ## §3. Directories. -/

def scanDir (test : FileP → FsM Bool) (dir : FileP) : Nat → Nat →
    ImgM (Except Word (Option FileP))
  | 0, _ => return .ok none
  | n + 1, i => do
      match ← fileGetBlock dir (BitVec.ofNat 32 i) with
      | .error r => return .error r
      | .ok b =>
        match ← onCache (scanBlock test b BLKFILES 0) with
        | some f => return .ok (some f)
        | none => scanDir test dir n (i + 1)

def dirLookup (dir : FileP) (name : List Byte) : ImgM (Except Word FileP) := do
  let nblock ← onCache (dirNblock dir)
  match ← scanDir (fun f => strcmp f.fName name) dir nblock 0 with
  | .error r => return .error r
  | .ok (some f) => return .ok f
  | .ok none => return .error (-E_NOT_FOUND)

def dirAllocFile (dir : FileP) : ImgM (Except Word FileP) := do
  let nblock ← onCache (dirNblock dir)
  match ← scanDir (fun f => do return (← diskByte f.fName) = 0#8) dir nblock 0 with
  | .error r => return .error r
  | .ok (some f) => return .ok f
  | .ok none =>
    let size ← onCache (load dir.blk dir.fSize)
    onCache (store dir.blk dir.fSize (size + 4096#32))
    match ← fileGetBlock dir (BitVec.ofNat 32 nblock) with
    | .error r => return .error r
    | .ok b => return .ok ⟨b, 0⟩

def walkPathFrom (dir : Option FileP) (f : FileP) (path : List Byte) : ImgM PathWalk :=
  match path with
  | [] => return ⟨0#32, dir, some f, []⟩
  | c :: cs => do
      let name := (c :: cs).takeWhile (· ≠ slash)
      if MAXNAMELEN ≤ name.length then
        return ⟨-E_BAD_PATH, none, none, []⟩
      else
        let rest := skipSlash ((c :: cs).dropWhile (· ≠ slash))
        let type ← onCache (load f.blk f.fType)
        if type ≠ FTYPE_DIR then
          return ⟨-E_NOT_FOUND, none, none, []⟩
        else
          match ← dirLookup f name with
          | .error r =>
            if r = -E_NOT_FOUND ∧ rest = [] then
              return ⟨r, some f, none, name⟩
            else
              return ⟨r, none, none, []⟩
          | .ok f' => walkPathFrom (some f) f' rest
termination_by path.length
decreasing_by exact length_rest c cs

def walkPath (path : List Byte) : ImgM PathWalk := walkPathFrom none sRoot (skipSlash path)

def fileCreate (path : List Byte) : ImgM (Word × Option FileP) := do
  let w ← walkPath path
  if w.ret = 0#32 then
    return (-E_FILE_EXISTS, none)
  else
    match w.pdir with
    | none => return (w.ret, none)
    | some dir =>
      if w.ret ≠ -E_NOT_FOUND then
        return (w.ret, none)
      else
        match ← dirAllocFile dir with
        | .error r => return (r, none)
        | .ok f =>
          onCache (putDiskBytes f.fName (w.lastelem ++ [0#8]))
          fileFlush dir
          return (0#32, some f)

/-! ## §4. Without the flushes. -/

section

variable {α β : Type}

/-- Seen from the cache, `m'` is `m`. -/
def Erases (m' : ImgM α) (m : FsM α) : Prop :=
  ∀ s, match m' s with
    | .ok a s' => m s.mem = .ok a s'.mem
    | .error e s' => m s.mem = .error e s'.mem

theorem erases_pure (a : α) : Erases (pure a) (pure a) := fun _ => rfl

theorem erases_onCache (m : FsM α) : Erases (onCache m) m := by
  intro s
  unfold onCache
  cases m s.mem <;> rfl

theorem Erases.bind {m' : ImgM α} {m : FsM α} {k' : α → ImgM β} {k : α → FsM β}
    (hm : Erases m' m) (hk : ∀ a, Erases (k' a) (k a)) : Erases (m' >>= k') (m >>= k) := by
  intro s
  have h1 := hm s
  cases hrun : m' s with
  | ok a t =>
    rw [hrun] at h1
    rw [bind_ok hrun, bind_ok h1]
    exact hk a t
  | error e t =>
    rw [hrun] at h1
    rw [bind_error hrun, bind_error h1]

/-- A flush is not seen. -/
theorem Erases.flush {k' : Unit → ImgM β} {m : FsM β} (hk : Erases (k' ()) m) :
    Erases (flushBlock b >>= k') m := fun _ => hk _

theorem erases_ite {c : Prop} [Decidable c] {m' n' : ImgM α} {m n : FsM α} (hm : Erases m' m)
    (hn : Erases n' n) : Erases (if c then m' else n') (if c then m else n) := by
  split
  · exact hm
  · exact hn

/-- What holds of the cache after `m` holds after `m'`. -/
theorem Erases.wp {m' : ImgM α} {m : FsM α} (he : Erases m' m) {Q : α → Disk → Prop}
    {X : String → Disk → Prop} {s : Img} (h : Exec.wp m Q X s.mem) :
    Exec.wp m' (fun a s' => Q a s'.mem) (fun e s' => X e s'.mem) s := by
  have h1 := he s
  unfold Exec.wp at h ⊢
  cases hrun : m' s with
  | ok a t =>
    rw [hrun] at h1
    rw [h1] at h
    exact h
  | error e t =>
    rw [hrun] at h1
    rw [h1] at h
    exact h

end

theorem erases_allocBlock : Erases allocBlock Jos.allocBlock := by
  have hfrom : ∀ n i, Erases (allocBlockFrom n i) (Jos.allocBlockFrom n i) := by
    intro n
    induction n with
    | zero => exact fun i => erases_pure _
    | succ n ih =>
      intro i
      refine (erases_onCache _).bind fun b => erases_ite ?_ (ih (i + 1))
      refine (erases_onCache _).bind fun w => (erases_onCache _).bind fun _ => ?_
      exact (erases_onCache _).bind fun b => Erases.flush (erases_pure _)
  exact (erases_onCache _).bind fun n => hfrom _ _

theorem erases_fileGetBlock (f : FileP) (filebno : Word) :
    Erases (fileGetBlock f filebno) (Jos.fileGetBlock f filebno) := by
  have hwalk : Erases (fileBlockWalk f filebno) (Jos.fileBlockWalk f filebno true) := by
    refine erases_ite (erases_pure _) (erases_ite ?_ (erases_pure _))
    refine (erases_onCache _).bind fun ind => erases_ite ?_ ?_
    · exact (erases_onCache _).bind fun b => erases_pure _
    · refine erases_allocBlock.bind fun blockno => (erases_onCache _).bind fun b => ?_
      refine (erases_onCache _).bind fun _ => (erases_onCache _).bind fun _ => ?_
      exact (erases_onCache _).bind fun ind => (erases_onCache _).bind fun b => erases_pure _
  refine hwalk.bind fun r => ?_
  cases r with
  | error r => exact erases_pure _
  | ok loc =>
    refine (erases_onCache _).bind fun w => ?_
    have hend : Erases (do return .ok (← onCache (diskaddr (← onCache (load loc.1 loc.2)))))
        (do return .ok (← diskaddr (← load loc.1 loc.2)) : FsM (Except Word Nat)) :=
      (erases_onCache _).bind fun w => (erases_onCache _).bind fun b => erases_pure _
    by_cases hw : w = 0#32
    · rw [if_pos hw, if_pos hw]
      exact erases_allocBlock.bind fun blockno => (erases_onCache _).bind fun _ => hend
    · rw [if_neg hw, if_neg hw]
      exact hend

theorem erases_fileSetSize (f : FileP) (newsize : Word) :
    Erases (fileSetSize f newsize) (Jos.fileSetSize f newsize) := by
  have h : Erases (fileSetSize f newsize) (Jos.fileSetSize f newsize >>= fun r => pure r) :=
    (erases_onCache _).bind fun r => Erases.flush (erases_pure r)
  rw [bind_pure] at h
  exact h

theorem erases_fileRead (f : FileP) (count offset : Word) :
    Erases (fileRead f count offset) (Jos.fileRead f count offset) := by
  have hloop : ∀ stop n pos buf, Erases (fileReadLoop f stop n pos buf)
      (Jos.fileReadLoop f stop n pos buf) := by
    intro stop n
    induction n with
    | zero => exact fun _ _ => erases_pure _
    | succ n ih =>
      intro pos buf
      unfold fileReadLoop Jos.fileReadLoop
      generalize chunk stop pos = c
      generalize pos.sdiv 4096#32 = filebno
      refine erases_ite ((erases_fileGetBlock _ _).bind fun r => ?_) (erases_pure _)
      cases r with
      | error r => exact erases_pure _
      | ok b => exact (erases_onCache _).bind fun xs => ih _ _
  refine (erases_onCache _).bind fun size => erases_ite (erases_pure _) ?_
  refine (hloop _ _ _ _).bind fun r => ?_
  rcases r with ⟨r, buf⟩
  cases r with
  | none => exact erases_pure _
  | some r => exact erases_pure _

theorem erases_fileWrite (f : FileP) (buf : List Byte) (offset : Word) :
    Erases (fileWrite f buf offset) (Jos.fileWrite f buf offset) := by
  have hloop : ∀ stop n pos buf, Erases (fileWriteLoop f stop n pos buf)
      (Jos.fileWriteLoop f stop n pos buf) := by
    intro stop n
    induction n with
    | zero => exact fun _ _ => erases_pure _
    | succ n ih =>
      intro pos buf
      unfold fileWriteLoop Jos.fileWriteLoop
      generalize chunk stop pos = c
      generalize pos.sdiv 4096#32 = filebno
      refine erases_ite ((erases_fileGetBlock _ _).bind fun r => ?_) (erases_pure _)
      cases r with
      | error r => exact erases_pure _
      | ok b => exact (erases_onCache _).bind fun xs => ih _ _
  have hend : Erases (fileWriteLoop f (offset + BitVec.ofNat 32 buf.length)
        (BitVec.ofNat 32 buf.length).toNat offset buf >>= writeEnd (BitVec.ofNat 32 buf.length))
      (Jos.fileWriteLoop f (offset + BitVec.ofNat 32 buf.length)
        (BitVec.ofNat 32 buf.length).toNat offset buf >>=
          writeEnd (BitVec.ofNat 32 buf.length)) := by
    refine (hloop _ _ _ _).bind fun r => ?_
    cases r with
    | none => exact erases_pure _
    | some r => exact erases_pure _
  refine (erases_onCache _).bind fun size => ?_
  by_cases hlt : size < offset + BitVec.ofNat 32 buf.length
  · rw [if_pos hlt, if_pos hlt]
    exact (erases_fileSetSize _ _).bind fun _ => hend
  · rw [if_neg hlt, if_neg hlt]
    exact hend

theorem erases_scanDir (test : FileP → FsM Bool) (dir : FileP) (n : Nat) :
    ∀ i, Erases (scanDir test dir n i) (Jos.scanDir test dir n i) := by
  induction n with
  | zero => exact fun _ => erases_pure _
  | succ n ih =>
    intro i
    refine (erases_fileGetBlock _ _).bind fun r => ?_
    cases r with
    | error r => exact erases_pure _
    | ok b =>
      refine (erases_onCache _).bind fun x => ?_
      cases x with
      | some x => exact erases_pure _
      | none => exact ih (i + 1)

theorem erases_dirLookup (dir : FileP) (name : List Byte) :
    Erases (dirLookup dir name) (Jos.dirLookup dir name) := by
  refine (erases_onCache _).bind fun n => (erases_scanDir _ _ _ _).bind fun r => ?_
  rcases r with e | x
  · exact erases_pure _
  · cases x with
    | none => exact erases_pure _
    | some x => exact erases_pure _

theorem erases_dirAllocFile (dir : FileP) : Erases (dirAllocFile dir) (Jos.dirAllocFile dir) := by
  refine (erases_onCache _).bind fun n => (erases_scanDir _ _ _ _).bind fun r => ?_
  rcases r with e | x
  · exact erases_pure _
  · cases x with
    | some x => exact erases_pure _
    | none =>
      refine (erases_onCache _).bind fun size => (erases_onCache _).bind fun _ => ?_
      refine (erases_fileGetBlock _ _).bind fun r => ?_
      cases r with
      | error r => exact erases_pure _
      | ok b => exact erases_pure _

theorem erases_walkPathFrom (n : Nat) :
    ∀ (path : List Byte) (dir : Option FileP) (x : FileP), path.length ≤ n →
      Erases (walkPathFrom dir x path) (Jos.walkPathFrom dir x path) := by
  induction n with
  | zero =>
    intro path dir x hlen
    obtain rfl := List.length_eq_zero_iff.mp (Nat.le_zero.mp hlen)
    unfold walkPathFrom Jos.walkPathFrom
    exact erases_pure _
  | succ n ih =>
    intro path dir x hlen
    unfold walkPathFrom Jos.walkPathFrom
    cases path with
    | nil => exact erases_pure _
    | cons c cs =>
      have hrest := length_rest c cs
      dsimp only
      generalize (c :: cs).takeWhile (· ≠ slash) = name
      generalize skipSlash ((c :: cs).dropWhile (· ≠ slash)) = rest at hrest ⊢
      refine erases_ite (erases_pure _) ((erases_onCache _).bind fun type => ?_)
      refine erases_ite (erases_pure _) ((erases_dirLookup _ _).bind fun r => ?_)
      cases r with
      | error r => exact erases_ite (erases_pure _) (erases_pure _)
      | ok y =>
        refine ih rest (some x) y ?_
        omega

/-! ## §5. Flushing. -/

/-- Only flushes have happened. -/
structure FlushOnly (s s' : Img) : Prop where
  mem : s'.mem = s.mem
  disk : ∀ p, s'.disk p = s.disk p ∨ s'.disk p = s.mem p

theorem FlushOnly.refl (s : Img) : FlushOnly s s := ⟨rfl, fun _ => Or.inl rfl⟩

theorem FlushOnly.trans {s s₁ s₂ : Img} (h : FlushOnly s s₁) (h' : FlushOnly s₁ s₂) :
    FlushOnly s s₂ := by
  refine ⟨h'.mem.trans h.mem, fun p => ?_⟩
  rcases h'.disk p with hp | hp
  · rw [hp]
    exact h.disk p
  · rw [hp, h.mem]
    exact Or.inr rfl

/-- A block that has been flushed stays so. -/
theorem FlushOnly.written {s s' : Img} (h : FlushOnly s s') {p : Nat} (hp : s.disk p = s.mem p) :
    s'.disk p = s'.mem p := by
  rw [h.mem]
  rcases h.disk p with hq | hq
  · rw [hq, hp]
  · exact hq

theorem flushOnly_flush (s : Img) (b : Nat) :
    FlushOnly s { s with disk := update s.disk b (s.mem b) } := by
  refine ⟨rfl, fun p => ?_⟩
  by_cases hp : p = b
  · subst hp
    exact Or.inr (update_self ..)
  · exact Or.inl (update_of_ne hp ..)

theorem onCache_ok {α : Type} {m : FsM α} {a : α} {s : Img} (h : m s.mem = .ok a d) :
    onCache m s = .ok a { s with mem := d } := by
  unfold onCache
  rw [h]

/-- Code that leaves the cache alone. -/
theorem onCache_same {α : Type} {m : FsM α} {a : α} {s : Img} (h : m s.mem = .ok a s.mem) :
    onCache m s = .ok a s := onCache_ok h

section

variable {files : Set FileP} {f g : FileP} {s s' : Img}

theorem fileFlushBlock_spec (h : FsInv files ∅ s.mem) (hf : f ∈ files) (i : Nat)
    (hi : i < NDIRECT + NINDIRECT) :
    wp (fileFlushBlock f i) (fun _ s' => FlushOnly s s') (fun _ _ => False) s := by
  have hto : (BitVec.ofNat 32 i).toNat = i := by
    rw [BitVec.toNat_ofNat]
    unfold NDIRECT NINDIRECT at hi
    omega
  rcases fileBlockWalk_noAlloc h hf (show (BitVec.ofNat 32 i).toNat < _ by rw [hto]; exact hi) with
    ⟨loc, hrun, hw⟩ | ⟨r, hrun, -⟩
  · rw [hto] at hw
    refine wp_bind_ok (onCache_same hrun) ?_
    refine wp_bind_ok (onCache_same (load_ok loc.1 loc.2 s.mem)) ?_
    by_cases h0 : s.mem loc.1 loc.2 = 0#32
    · rw [if_pos h0]
      exact FlushOnly.refl s
    · rw [if_neg h0]
      have hslot := hw.load
      have hlt : (s.mem loc.1 loc.2).toNat < nblocks s.mem := by
        rw [hslot] at h0 ⊢
        exact h.slot_lt _ (fileSlot_in hf hi) h0
      refine wp_bind_ok (onCache_same (diskaddr_ok h0 hlt)) ?_
      exact flushOnly_flush s _
  · exact wp_bind_ok (onCache_same hrun) (FlushOnly.refl s)

theorem sizeBlocks_toInt {w : Word} (hw : w.toNat ≤ MAXFILESIZE) :
    (sizeBlocks w).toInt.toNat = (w.toNat + 4095) / 4096 := by
  have h1 := sizeBlocks_toNat hw
  rw [BitVec.toInt_eq_toNat_of_lt (by omega), Int.toNat_natCast, h1]

/-- The record and the indirect block of `f` are on the disk as in the cache. -/
def Written (s : Img) (f : FileP) : Prop :=
  s.disk f.blk = s.mem f.blk ∧
    (indirectOf s.mem f ≠ 0#32 → s.disk (indirectOf s.mem f).toNat = s.mem
      (indirectOf s.mem f).toNat)

/-- **`file_flush`** returns, and writes the record and the indirect block. -/
theorem fileFlush_spec (h : FsInv files ∅ s.mem) (hf : f ∈ files) :
    wp (fileFlush f) (fun _ s' => FlushOnly s s' ∧ Written s' f) (fun _ _ => False) s := by
  have hsize := h.size_le f hf
  refine wp_bind_ok (onCache_same (load_ok f.blk f.fSize s.mem)) ?_
  have hloop : wp (forUp (fileFlushBlock f) 0 (sizeBlocks (s.mem f.blk f.fSize)).toInt.toNat)
      (fun _ s' => FlushOnly s s') (fun _ _ => False) s := by
    refine wp_forUp (I := fun _ t => FlushOnly s t) _ 0 s (FlushOnly.refl s) ?_
    intro i t _ hi hst
    have hmax := h.block_lt hf (show i < fileBlocks s.mem f by
      have hb := sizeBlocks_toInt hsize
      unfold fileBlocks fileSize
      omega)
    refine wp_mono (fileFlushBlock_spec (by rw [hst.mem]; exact h) hf i hmax) ?_ (fun _ _ h => h)
    exact fun _ _ ht => hst.trans ht
  refine wp_seq hloop ?_
  intro _ t hst
  have hfl := flushOnly_flush t f.blk
  refine wp_bind_ok (show flushBlock f.blk t = .ok ()
    { t with disk := update t.disk f.blk (t.mem f.blk) } from rfl) ?_
  generalize ht' : ({ t with disk := update t.disk f.blk (t.mem f.blk) } : Img) = t' at hfl
  have hrec : t'.disk f.blk = t'.mem f.blk := by
    rw [← ht']
    exact update_self ..
  have hmem : t'.mem = s.mem := hfl.mem.trans hst.mem
  refine wp_bind_ok (onCache_same (load_ok f.blk f.fIndirect t'.mem)) ?_
  by_cases h0 : t'.mem f.blk f.fIndirect = 0#32
  · rw [if_neg (not_not.mpr h0)]
    exact ⟨hst.trans hfl, hrec, fun hi => absurd h0 hi⟩
  · rw [if_pos h0]
    have hlt : (t'.mem f.blk f.fIndirect).toNat < nblocks t'.mem := by
      rw [hmem] at h0 ⊢
      exact h.slot_lt (.indirect f) hf h0
    refine wp_bind_ok (onCache_same (diskaddr_ok h0 hlt)) ?_
    have hfl' := flushOnly_flush t' (t'.mem f.blk f.fIndirect).toNat
    refine ⟨(hst.trans hfl).trans hfl', hfl'.written hrec, fun _ => ?_⟩
    exact update_self ..

/-- **`fs_sync`** writes every block but block 0. -/
theorem fsSync_spec (h : nblocks s.mem ≤ 0xC0000) :
    wp fsSync (fun _ s' => FlushOnly s s' ∧
        ∀ p, 1 ≤ p → p < nblocks s.mem → s'.disk p = s'.mem p) (fun _ _ => False) s := by
  refine wp_bind_ok (onCache_same (sNblocks_ok s.mem)) ?_
  have hloop : wp (forUp (fun i => do flushBlock (← onCache (diskaddr (BitVec.ofNat 32 i)))) 1
        (nblocks s.mem - 1))
      (fun _ t => FlushOnly s t ∧ ∀ p, 1 ≤ p → p < 1 + (nblocks s.mem - 1) → t.disk p = t.mem p)
      (fun _ _ => False) s := by
    refine wp_forUp (I := fun i t => FlushOnly s t ∧ ∀ p, 1 ≤ p → p < i → t.disk p = t.mem p)
      _ 1 s ⟨FlushOnly.refl s, fun p h1 h2 => absurd h1 (by omega)⟩ ?_
    rintro i t h1 hi ⟨hst, hdone⟩
    have hto : (BitVec.ofNat 32 i).toNat = i := toNat_ofNat_lt (by omega)
    have h0 : BitVec.ofNat 32 i ≠ 0#32 := by
      intro hz
      have := congrArg BitVec.toNat hz
      rw [hto] at this
      exact absurd this (show i ≠ 0 by omega)
    have haddr := diskaddr_ok (d := t.mem) h0 (by rw [hto, hst.mem]; omega)
    rw [hto] at haddr
    refine wp_bind_ok (onCache_same haddr) ?_
    have hfl := flushOnly_flush t i
    refine ⟨hst.trans hfl, fun p hp1 hp => ?_⟩
    by_cases hpi : p = i
    · subst hpi
      exact update_self ..
    · exact hfl.written (hdone p hp1 (by omega))
  refine wp_mono hloop ?_ (fun _ _ h => h)
  rintro _ t ⟨hst, hdone⟩
  exact ⟨hst, fun p hp1 hp => hdone p hp1 (by omega)⟩

/-! ## §6. Calls that need no new block. -/

/-- `file_get_block` of a block that is there flushes nothing. -/
theorem fileGetBlock_there {filebno : Word} (hn : filebno.toNat < NDIRECT + NINDIRECT)
    (h0 : slotVal s.mem (fileSlot f filebno.toNat) ≠ 0#32)
    (hlt : (slotVal s.mem (fileSlot f filebno.toNat)).toNat < nblocks s.mem)
    (hind : NDIRECT ≤ filebno.toNat → (indirectOf s.mem f).toNat < nblocks s.mem) :
    fileGetBlock f filebno s = .ok (.ok (slotVal s.mem (fileSlot f filebno.toNat)).toNat) s := by
  obtain ⟨loc, hwalk, hload⟩ : ∃ loc : Nat × Nat, fileBlockWalk f filebno s = .ok (.ok loc) s ∧
      s.mem loc.1 loc.2 = slotVal s.mem (fileSlot f filebno.toNat) := by
    unfold fileBlockWalk
    by_cases hd : filebno.toNat < NDIRECT
    · rw [if_pos hd]
      exact ⟨_, rfl, (walked_direct s.mem f hd).load⟩
    · rw [if_neg hd, if_pos hn, bind_ok (onCache_same (load_ok f.blk f.fIndirect s.mem))]
      have hge : NDIRECT ≤ filebno.toNat := by omega
      have hi : s.mem f.blk f.fIndirect ≠ 0#32 := by
        intro hz
        apply h0
        unfold fileSlot
        rw [if_neg hd]
        exact if_pos hz
      rw [if_pos hi, bind_ok (onCache_same (diskaddr_ok hi (hind hge)))]
      exact ⟨_, rfl, (walked_entry hge hi).load⟩
  unfold fileGetBlock
  rw [bind_ok hwalk]
  show (onCache (load loc.1 loc.2) >>= fun w => _) s = _
  rw [bind_ok (onCache_same (load_ok _ _ s.mem)), if_neg (by rw [hload]; exact h0)]
  show (onCache (load loc.1 loc.2) >>= fun w => onCache (diskaddr w) >>= fun b =>
    pure (Except.ok b)) s = _
  rw [bind_ok (onCache_same (load_ok _ _ s.mem)), hload,
    bind_ok (onCache_same (diskaddr_ok h0 hlt))]
  rfl

/-- The block of a position whose bytes are there. -/
theorem getBlock_filled (h : FsInv files ∅ s.mem) (hf : f ∈ files) {pos stop : Word}
    (hpos : pos.toNat < 2 ^ 31) (hlt : pos.toNat < stop.toNat)
    (hfill : Filled s.mem f pos.toNat stop.toNat) :
    fileGetBlock f (pos.sdiv 4096#32) s =
      .ok (.ok (slotVal s.mem (fileSlot f (pos.toNat / 4096))).toNat) s := by
  have hdiv := sdiv_toNat hpos
  obtain ⟨hn, h0⟩ := hfill pos.toNat le_rfl hlt
  have hrun := @fileGetBlock_there f s (pos.sdiv 4096#32)
  rw [hdiv] at hrun
  exact hrun hn h0 (h.slot_lt _ (fileSlot_in hf hn) h0) fun hge => h.indirect_lt hf hge h0

theorem filled_mono {a b a' : Nat} (h : Filled d f a b) (ha : a ≤ a') :
    Filled d f a' b := fun k hk hkb => h k (Nat.le_trans ha hk) hkb

theorem fileReadLoop_inPlace (h : FsInv files ∅ s.mem) (hf : f ∈ files)
    (hstop : stop.toNat ≤ fileSize s.mem f) (n : Nat) :
    ∀ (pos : Word) (buf : List Byte), Filled s.mem f pos.toNat stop.toNat →
      wp (fileReadLoop f stop n pos buf) (fun _ s' => s' = s) (fun _ _ => False) s := by
  induction n with
  | zero => exact fun _ _ _ => rfl
  | succ n ih =>
    intro pos buf hfill
    unfold fileReadLoop
    by_cases hlt : pos < stop
    · rw [if_pos hlt]
      have hpos := (block_in_file h hf hstop hlt).1
      have hc := chunk_le stop hpos
      refine wp_bind_ok (getBlock_filled h hf hpos hlt hfill) ?_
      generalize chunk stop pos = c at hc ⊢
      refine wp_bind_ok (onCache_same (diskBytes_eq s.mem c.toNat _)) ?_
      refine ih _ _ (filled_mono hfill ?_)
      rw [BitVec.toNat_add_of_lt (by omega)]
      exact Nat.le_add_right _ _
    · rw [if_neg hlt]
      rfl

theorem filled_congr {d d' : Disk} {a b : Nat}
    (hslot : ∀ sl : BlockSlot, sl.In files → slotVal d' sl = slotVal d sl) (hf : f ∈ files)
    (h : Filled d f a b) : Filled d' f a b := by
  intro k hk hkb
  obtain ⟨hn, h0⟩ := h k hk hkb
  refine ⟨hn, ?_⟩
  rw [hslot _ (fileSlot_in hf hn)]
  exact h0

theorem fileWriteLoop_inPlace (hf : f ∈ files) (n : Nat) :
    ∀ (pos : Word) (buf : List Byte) (s : Img), FsInv files ∅ s.mem →
      fileType s.mem f ≠ FTYPE_DIR → stop.toNat ≤ fileSize s.mem f →
      Filled s.mem f pos.toNat stop.toNat →
      wp (fileWriteLoop f stop n pos buf)
        (fun _ s' => s'.disk = s.disk ∧ SameMeta files s.mem s'.mem) (fun _ _ => False) s := by
  induction n with
  | zero => exact fun _ _ s _ _ _ _ => ⟨rfl, SameMeta.refl files s.mem⟩
  | succ n ih =>
    intro pos buf s h hreg hstop hfill
    unfold fileWriteLoop
    by_cases hlt : pos < stop
    · rw [if_pos hlt]
      have hpos := (block_in_file h hf hstop hlt).1
      have hc := chunk_le stop hpos
      obtain ⟨hn, h0⟩ := hfill pos.toNat le_rfl hlt
      have hget := getBlock_filled h hf hpos hlt hfill
      obtain ⟨b, hb⟩ : ∃ b, (slotVal s.mem (fileSlot f (pos.toNat / 4096))).toNat = b := ⟨_, rfl⟩
      rw [hb] at hget
      refine wp_bind_ok hget ?_
      generalize chunk stop pos = c at hc ⊢
      -- the bytes go into the block that was found
      have hput := putDiskBytes_spec (b := b) (buf.take c.toNat) (blkAddr b pos) s.mem (by
        intro k hk
        rw [List.length_take] at hk
        rw [blkAddr_eq b hpos]
        unfold BLKSIZE
        omega)
      obtain ⟨_, d₁, hrun, hd₁⟩ := exists_ok_of_wp hput
      refine wp_bind_ok (onCache_ok hrun) ?_
      rw [← hb] at hd₁
      have hm := h.sameMeta_data hf hreg hn h0 hd₁
      have hnext : (pos + c).toNat = pos.toNat + c.toNat := by
        rw [BitVec.toNat_add_of_lt (by omega)]
      refine wp_mono (ih (pos + c) _ { s with mem := d₁ } (h.of_sameMeta hm)
        (by rw [hm.fileType_eq hf]; exact hreg)
        (by rw [hm.fileSize_eq hf]; exact hstop) ?_) ?_ (fun _ _ h => h)
      · refine filled_mono (filled_congr hm.slot hf hfill) ?_
        rw [hnext]
        exact Nat.le_add_right _ _
      · rintro _ s' ⟨hdisk, hm'⟩
        exact ⟨hdisk, hm.trans hm'⟩
    · rw [if_neg hlt]
      exact ⟨rfl, SameMeta.refl files s.mem⟩

/-- A call on `g` that allocates nothing. -/
structure Quiet (files : Set FileP) (g : FileP) (s s' : Img) : Prop where
  inv : FsInv files ∅ s'.mem
  resized : Resized files g s.mem s'.mem
  used : ∀ b < nblocks s.mem, inUse s'.mem b → inUse s.mem b
  disk : ∀ p, p ≠ g.blk → s'.disk p = s.disk p
  /-- Its record may have been flushed on the way. -/
  record : s'.disk g.blk = s.disk g.blk ∨
    ∃ d, s'.disk g.blk = d g.blk ∧ Resized files g s.mem d

theorem Quiet.refl (h : FsInv files ∅ s.mem) (g : FileP) : Quiet files g s s :=
  ⟨h, Resized.of_grows (Grows.refl files g s.mem), fun _ _ hb => hb, fun _ _ => rfl, Or.inl rfl⟩

/-- A change of size only frees blocks. -/
theorem used_of_slots {d d' : Disk} (h : FsInv files ∅ d) (h' : FsInv files ∅ d')
    (h1 : d' 1 1 = d 1 1)
    (hslot : ∀ sl : BlockSlot, sl.In files → slotVal d' sl = slotVal d sl ∨ slotVal d' sl = 0#32)
      (hb : b < nblocks d) (hu : inUse d' b) : inUse d b := by
  have hb' : b < nblocks d' := by
    unfold nblocks at hb ⊢
    rw [h1]
    exact hb
  rw [h'.used_iff b hb'] at hu
  rw [h.used_iff b hb]
  rcases hu with hr | hsp | ⟨sl, hsl, h0, he⟩
  · exact Or.inl ((Reserved.of_nblocks h1).mp hr)
  · exact hsp.elim
  · rcases hslot sl hsl with hs | hs
    · rw [hs] at h0 he
      exact Or.inr (Or.inr ⟨sl, hsl, h0, he⟩)
    · exact absurd hs h0

theorem fileSetSize_quiet (h : FsInv files ∅ s.mem) (hg : g ∈ files)
    (hreg : fileType s.mem g ≠ FTYPE_DIR) {newsize : Word} (hnew : newsize.toNat ≤ MAXFILESIZE) :
    wp (fileSetSize g newsize) (fun _ s' => Quiet files g s s') (fun _ _ => False) s := by
  obtain ⟨r, d, hrun, hd, hrs, -, hslot⟩ := exists_ok_of_wp (fileSetSize_spec h hg hreg hnew)
  refine wp_bind_ok (onCache_ok hrun) ?_
  refine wp_bind_ok (show flushBlock g.blk { s with mem := d } = .ok ()
    ⟨d, update s.disk g.blk (d g.blk)⟩ from rfl) ?_
  refine ⟨hd, hrs, fun b hb hu => used_of_slots h hd hrs.nblocks hslot hb hu,
    fun p hp => update_of_ne hp .., Or.inr ⟨d, update_self .., hrs⟩⟩

/-- Data that is written in place after a change of size. -/
theorem Quiet.data {s₁ : Img} (h : Quiet files g s s₁)
    (hdisk : s'.disk = s₁.disk) (hm : SameMeta files s₁.mem s'.mem) : Quiet files g s s' := by
  refine ⟨h.inv.of_sameMeta hm, h.resized.trans (Resized.of_grows (hm.grows g)), ?_, ?_, ?_⟩
  · intro b hb hu
    have hb' : b < nblocks s₁.mem := by
      unfold nblocks at hb ⊢
      rw [h.resized.nblocks]
      exact hb
    refine h.used b hb ?_
    unfold inUse at hu ⊢
    rw [hm.bitmap b hb'] at hu
    exact hu
  · intro p hp
    rw [hdisk]
    exact h.disk p hp
  · rw [hdisk]
    exact h.record

section
variable (h : FsInv files ∅ s.mem)
include h

/-- Making a file longer changes none of its slots. -/
theorem fileSetSize_enlarge (hg : g ∈ files)
    (hreg : fileType s.mem g ≠ FTYPE_DIR) {newsize : Word} (hnew : newsize.toNat ≤ MAXFILESIZE)
    (hle : fileSize s.mem g ≤ newsize.toNat) :
    ∃ s₁, fileSetSize g newsize s = .ok 0#32 s₁ ∧ Quiet files g s s₁ ∧
      (∀ sl : BlockSlot, sl.In files → slotVal s₁.mem sl = slotVal s.mem sl) ∧
      fileSize s₁.mem g = newsize.toNat := by
  have hns : ¬ newsize.slt (s.mem g.blk g.fSize) = true := by
    rw [slt_iff hnew (h.size_le g hg)]
    exact Nat.not_lt.mpr hle
  have hrun : fileSetSize g newsize s = .ok 0#32 ⟨putWord s.mem g.blk g.fSize newsize,
      update s.disk g.blk (putWord s.mem g.blk g.fSize newsize g.blk)⟩ := by
    unfold fileSetSize
    rw [bind_ok (onCache_ok (fileSetSize_larger hns))]
    rfl
  obtain ⟨-, hslot, -⟩ := h.setSize hg hnew fun n hn hge => h.tail g hg n hn (by
    unfold fileBlocks
    omega)
  have hq := wp_ok (fileSetSize_quiet h hg hreg hnew) hrun
  exact ⟨_, hrun, hq, hslot,
    congrArg BitVec.toNat (putWord_same _ _ _ _)⟩

theorem fileWrite_inPlace (hg : g ∈ files)
    (hreg : fileType s.mem g ≠ FTYPE_DIR) {buf : List Byte} {offset : Word}
    (hmax : offset.toNat + buf.length ≤ MAXFILESIZE)
    (hfill : Filled s.mem g offset.toNat (offset.toNat + buf.length)) :
    wp (fileWrite g buf offset) (fun _ s' => Quiet files g s s') (fun _ _ => False) s := by
  have hsum := writeStop_toNat hmax
  have hw : (offset + BitVec.ofNat 32 buf.length).toNat ≤ MAXFILESIZE := by
    rw [hsum]
    exact hmax
  rw [← hsum] at hfill
  -- the loop, once the size is right
  have hloop : ∀ s₁, Quiet files g s s₁ →
      (∀ sl : BlockSlot, sl.In files → slotVal s₁.mem sl = slotVal s.mem sl) →
      (offset + BitVec.ofNat 32 buf.length).toNat ≤ fileSize s₁.mem g →
      wp (fileWriteLoop g (offset + BitVec.ofNat 32 buf.length) (BitVec.ofNat 32 buf.length).toNat
          offset buf >>= fun r => match r with
            | some r => (pure r : ImgM Word)
            | none => pure (BitVec.ofNat 32 buf.length))
        (fun _ s' => Quiet files g s s') (fun _ _ => False) s₁ := by
    intro s₁ hq hslot hsz
    refine wp_seq (fileWriteLoop_inPlace hg _ _ _ s₁ hq.inv
      (by rw [hq.resized.type g hg]; exact hreg) hsz (filled_congr hslot hg hfill)) ?_
    rintro r s' ⟨hdisk, hm⟩
    cases r <;> exact hq.data hdisk hm
  refine wp_bind_ok (onCache_same (load_ok _ _ s.mem)) ?_
  by_cases hlt : s.mem g.blk g.fSize < offset + BitVec.ofNat 32 buf.length
  · rw [if_pos hlt]
    obtain ⟨s₁, hrun, hq, hslot, hsz⟩ := fileSetSize_enlarge h hg hreg hw (le_of_lt hlt)
    exact wp_bind_ok hrun (hloop s₁ hq hslot (le_of_eq hsz.symm))
  · rw [if_neg hlt]
    exact hloop s (Quiet.refl h g) (fun _ _ => rfl) (Nat.not_lt.mp hlt)

theorem fileRead_inPlace (hg : g ∈ files) {count offset : Word}
    (hoff : offset.toNat < 2 ^ 31) (hfill : Filled s.mem g offset.toNat (fileSize s.mem g)) :
    wp (fileRead g count offset) (fun _ s' => s' = s) (fun _ _ => False) s := by
  refine wp_bind_ok (onCache_same (load_ok _ _ s.mem)) ?_
  by_cases hle : (s.mem g.blk g.fSize).sle offset = true
  · rw [if_pos hle]
    rfl
  · rw [if_neg hle]
    have hstop := read_stop count (h.size_le g hg) hoff hle
    refine wp_seq (fileReadLoop_inPlace h hg hstop _ _ _
      fun k hk hkb => hfill k hk (Nat.lt_of_lt_of_le hkb hstop)) ?_
    rintro ⟨r, buf⟩ s' rfl
    cases r <;> rfl

end

/-! ## §7. A file on the disk. -/

/-- `t` and `u` show the same blocks of `f`. -/
def SameFile (f : FileP) (t u : Disk) : Prop :=
  ∀ sl : BlockSlot, sl.In {f} → slotVal t sl = slotVal u sl

/-- The block numbers of `f` are those on the disk. -/
def Stored (s : Img) (f : FileP) : Prop := SameFile f s.disk s.mem

theorem BlockSlot.in_of_single {sl : BlockSlot} (h : sl.In {f}) (hf : f ∈ files) :
    sl.In files ∧ sl.file = f := by
  cases sl with
  | direct x i => exact ⟨⟨h.1 ▸ hf, h.2⟩, h.1⟩
  | indirect x => exact ⟨(show x = f from h) ▸ hf, h⟩
  | entry x j => exact ⟨⟨h.1 ▸ hf, h.2⟩, h.1⟩

theorem sameFile_of (hdir : ∀ i < NDIRECT, t f.blk (f.fDirect i) = u f.blk (f.fDirect i))
    (hind : indirectOf t f = indirectOf u f) (hent : indirectOf u f ≠ 0#32 → ∀ j < NINDIRECT,
      t (indirectOf u f).toNat j = u (indirectOf u f).toNat j) : SameFile f t u := by
  intro sl hsl
  obtain rfl : sl.file = f := hsl.mem
  refine slotVal_congr hsl (fun a ha ha' => ?_) hent
  by_cases h44 : a = 44
  · rw [h44]
    exact hind
  · have hword := hdir (a - 34) (by unfold NDIRECT; omega)
    unfold FileP.fDirect at hword
    rwa [show sl.file.idx + 34 + (a - 34) = sl.file.idx + a by omega] at hword

theorem SameFile.direct (h : SameFile f t u) {i : Nat} (hi : i < NDIRECT) :
    t f.blk (f.fDirect i) = u f.blk (f.fDirect i) := h (.direct f i) ⟨rfl, hi⟩

theorem SameFile.indirect (h : SameFile f t u) : indirectOf t f = indirectOf u f :=
  h (.indirect f) rfl

theorem SameFile.entry (h : SameFile f t u) (h0 : indirectOf u f ≠ 0#32) {j : Nat}
    (hj : j < NINDIRECT) : t (indirectOf u f).toNat j = u (indirectOf u f).toNat j := by
  have he : (if indirectOf t f = 0#32 then 0#32 else t (indirectOf t f).toNat j) =
      if indirectOf u f = 0#32 then 0#32 else u (indirectOf u f).toNat j :=
    h (.entry f j) ⟨rfl, hj⟩
  rw [h.indirect, if_neg h0, if_neg h0] at he
  exact he

theorem Written.stored (h : Written s f) : Stored s f := by
  refine sameFile_of (fun i _ => by rw [h.1]) ?_ (fun h0 j _ => by rw [h.2 h0])
  unfold indirectOf
  rw [h.1]

theorem FlushOnly.stored (h : FlushOnly s s') (hst : Stored s f) : Stored s' f := by
  unfold Stored
  rw [h.mem]
  refine sameFile_of (fun i hi => ?_) ?_ (fun h0 j hj => ?_)
  · rcases h.disk f.blk with hb | hb <;> rw [hb]
    exact hst.direct hi
  · unfold indirectOf
    rcases h.disk f.blk with hb | hb <;> rw [hb]
    exact hst.indirect
  · rcases h.disk (indirectOf s.mem f).toNat with hb | hb <;> rw [hb]
    exact hst.entry h0 hj

/-- Another file's call leaves `f` on the disk as it is. -/
theorem Quiet.stored (h : FsInv files ∅ s.mem) (hf : f ∈ files) (hg : g ∈ files) (hne : g ≠ f)
    (hq : Quiet files g s s') (hst : Stored s f) : Stored s' f := by
  have hother : ∀ d : Disk, Resized files g s.mem d → SameFile f d s.mem := by
    intro d hr sl hsl
    obtain ⟨hin, hfile⟩ := BlockSlot.in_of_single hsl hf
    refine hr.other sl hin ?_
    rw [hfile]
    exact hne.symm
  have hmem := hother s'.mem hq.resized
  have hindm := hmem.indirect
  -- the block with the record of `f` may be the one that was flushed
  have hrec : (∀ i < NDIRECT, s'.disk f.blk (f.fDirect i) = s.mem f.blk (f.fDirect i)) ∧
      indirectOf s'.disk f = indirectOf s.mem f := by
    have hsame : s'.disk f.blk = s.disk f.blk ∨
        ∃ d, s'.disk f.blk = d f.blk ∧ Resized files g s.mem d := by
      by_cases hb : f.blk = g.blk
      · rw [hb]
        exact hq.record
      · exact Or.inl (hq.disk _ hb)
    unfold indirectOf
    rcases hsame with he | ⟨d, he, hr⟩
    · rw [he]
      exact ⟨fun i hi => hst.direct hi, hst.indirect⟩
    · rw [he]
      exact ⟨fun i hi => (hother d hr).direct hi, (hother d hr).indirect⟩
  refine sameFile_of (fun i hi => ?_) ?_ (fun h0 j hj => ?_)
  · rw [hrec.1 i hi, hmem.direct hi]
  · rw [hrec.2, hindm]
  · rw [hindm] at h0 ⊢
    have hnb : (indirectOf s.mem f).toNat ≠ g.blk := (h.blk_ne_indirect hg hf h0).symm
    rw [hq.disk _ hnb, hst.entry h0 hj, hmem.entry h0 hj]

/-! ## §8. Calls, flushes and syncs. -/

def exec : FsCall → ImgM FsResult
  | .create path => do
      let (r, pf) ← fileCreate path
      return ⟨r, [], pf⟩
  | .write g buf offset => do
      let r ← fileWrite g buf offset
      return ⟨r, [], none⟩
  | .setSize g newsize => do
      let r ← fileSetSize g newsize
      return ⟨r, [], none⟩
  | .read g count offset => do
      let (r, bytes) ← fileRead g count offset
      return ⟨r, bytes, none⟩

/-- A call that can be made; a new block for a directory has to be zero. -/
def Valid (s : Img) (c : FsCall) : Prop :=
  c.Valid s.mem ∧ ∀ path, c = .create path → FreeZero s.mem

/-- The file of the call. -/
def target : FsCall → Option FileP
  | .create _ => none
  | .write g _ _ => some g
  | .setSize g _ => some g
  | .read g _ _ => some g

/-- The call needs no new block: all the blocks it reads or writes are there. -/
def InPlace (s : Img) : FsCall → Prop
  | .create _ => False
  | .write g buf offset => Filled s.mem g offset.toNat (offset.toNat + buf.length)
  | .setSize _ _ => True
  | .read g _ offset => Filled s.mem g offset.toNat (fileSize s.mem g)

/-- One event of the server; a crash can come after any of them.  `ok` says which
calls are made without an `fs_sync` after them. -/
inductive Step (ok : Img → FsCall → Prop) (s : Img) : Option FileP → Img → Prop
  | call {c : FsCall} {r : FsResult} {s' : Img} (hv : Valid s c) (hok : ok s c)
      (hrun : exec c s = .ok r s') : Step ok s (target c) s'
  | callSync {c : FsCall} {r : FsResult} {s₁ s' : Img} (hv : Valid s c)
      (hrun : exec c s = .ok r s₁) (hsync : fsSync s₁ = .ok () s') : Step ok s none s'
  | flushBlock (b : Nat) : Step ok s none { s with disk := update s.disk b (s.mem b) }
  | fileFlush {f : FileP} {s' : Img} (hf : f ∈ allFiles s.mem) (hrun : fileFlush f s = .ok () s') :
      Step ok s none s'
  | fsSync {s' : Img} (hrun : fsSync s = .ok () s') : Step ok s none s'

/-- A run from when the disk has been mounted. -/
def Run (ok : Img → FsCall → Prop) : Img → Img → Prop :=
  Relation.ReflTransGen fun s s' => ∃ l, Step ok s l s'

theorem fileCreate_keeps (h : DirOk s.mem) (hz : FreeZero s.mem) (hroom : DirRoom s.mem)
    (path : List Byte) :
    wp (fileCreate path) (fun _ s' => DirOk s'.mem ∧ Later s.mem s'.mem) (fun _ _ => True) s := by
  obtain ⟨w, hwalk, hgood⟩ := walkPath_ok h path
  have herase : Erases (walkPath path) (Jos.walkPath path) :=
    erases_walkPathFrom _ _ _ _ le_rfl
  refine wp_seq (wp_mono (herase.wp (Q := fun a t => a = w ∧ t = s.mem) (X := fun _ _ => False)
    (wp_of_ok hwalk ⟨rfl, rfl⟩)) (fun _ _ h => h) (fun _ _ h => h.elim)) ?_
  rintro w s₁ ⟨rfl, hs₁⟩
  rw [← hs₁] at h hz hroom hgood ⊢
  have hsame := And.intro h (Later.refl s₁.mem)
  by_cases h0 : w.ret = 0#32
  · rw [if_pos h0]
    exact hsame
  rw [if_neg h0]
  cases hp : w.pdir with
  | none => exact hsame
  | some dir =>
    obtain ⟨hdt, hdir⟩ := hgood.ok.2 dir h0 hp
    dsimp only
    by_cases hnf : w.ret ≠ -E_NOT_FOUND
    · rw [if_pos hnf]
      exact hsame
    rw [if_neg hnf]
    refine wp_seq (wp_mono ((erases_dirAllocFile dir).wp
      (dirAllocFile_spec h hz hdt hdir (hroom dir hdt hdir))) (fun _ _ h => h)
      (fun _ _ _ => trivial)) ?_
    rintro r s₂ ⟨ht, htz, hlater, hin⟩
    cases r with
    | error e => exact ⟨ht, hlater⟩
    | ok x =>
      have hx := hin x rfl
      have hname := putName_spec (w.lastelem ++ [0#8]) 0 s₂.mem ⟨ht.inv, htz⟩ hx (by
        have := hgood.ok.1
        rw [List.length_append, List.length_singleton]
        omega)
      rw [Nat.add_zero] at hname
      refine wp_seq (wp_mono ((erases_onCache _).wp hname) (fun _ _ h => h)
        (fun _ _ h => h.elim)) ?_
      rintro _ s₃ ⟨-, hm⟩
      obtain ⟨hu, hlater'⟩ := ht.of_sameMeta hm
      refine wp_seq (wp_mono (fileFlush_spec hu.inv (hlater'.files (hlater.files hdt)))
        (fun _ _ h => h) (fun _ _ h => h.elim)) ?_
      rintro _ s₄ ⟨hfl, -⟩
      show DirOk s₄.mem ∧ Later s₁.mem s₄.mem
      rw [hfl.mem]
      exact ⟨hu, hlater.trans hlater'⟩

/-- **A call keeps the files in the cache good**, whatever it allocates. -/
theorem exec_keeps (h : DirOk s.mem) {c : FsCall} (hv : Valid s c) :
    wp (exec c) (fun _ s' => DirOk s'.mem ∧ Later s.mem s'.mem) (fun _ _ => True) s := by
  have hfinish : ∀ {α : Type} {m : ImgM α} {k : α → ImgM FsResult},
      wp m (fun _ s' => DirOk s'.mem ∧ Later s.mem s'.mem) (fun _ _ => True) s →
      (∀ a t, ∃ r, k a t = .ok r t) →
      wp (m >>= k) (fun _ s' => DirOk s'.mem ∧ Later s.mem s'.mem) (fun _ _ => True) s := by
    intro α m k hm hk
    refine wp_seq hm fun a t ht => ?_
    obtain ⟨r, hr⟩ := hk a t
    exact wp_of_ok hr ht
  obtain ⟨hv, hz⟩ := hv
  cases c with
  | create path =>
    exact hfinish (fileCreate_keeps h (hz path rfl) hv path) fun _ _ => ⟨_, rfl⟩
  | write g buf offset =>
    obtain ⟨hg, hreg, hoff, hmax⟩ := hv
    obtain ⟨hnat, heq⟩ := toNat_of_nonneg hoff
    refine hfinish (wp_mono ((erases_fileWrite g buf offset).wp
      (fileWrite_spec h.inv hg hreg (by omega))) ?_ (fun _ _ _ => trivial)) fun _ _ => ⟨_, rfl⟩
    rintro _ t ⟨hinv, hr⟩
    obtain ⟨hd, hlater, -⟩ := h.of_resized hg hreg hinv hr
    exact ⟨hd, hlater⟩
  | setSize g newsize =>
    obtain ⟨hg, hreg, hlo, hhi⟩ := hv
    obtain ⟨hnat, heq⟩ := toNat_of_nonneg hlo
    refine hfinish (wp_mono ((erases_fileSetSize g newsize).wp
      (fileSetSize_spec h.inv hg hreg (by omega))) ?_ (fun _ _ _ => trivial)) fun _ _ => ⟨_, rfl⟩
    rintro _ t ⟨hinv, hr, -⟩
    obtain ⟨hd, hlater, -⟩ := h.of_resized hg hreg hinv hr
    exact ⟨hd, hlater⟩
  | read g count offset =>
    obtain ⟨hg, hoff⟩ := hv
    refine hfinish (wp_mono ((erases_fileRead g count offset).wp
      (fileRead_spec h.inv hg (toNat_of_nonneg hoff).1)) ?_ (fun _ _ _ => trivial))
      fun _ _ => ⟨_, rfl⟩
    rintro _ t ⟨hinv, hg⟩
    exact h.of_grows hinv hg

/-- **A call in place** changes its own file only. -/
theorem exec_quiet (h : DirOk s.mem) {c : FsCall} (hv : Valid s c) (hin : InPlace s c) :
    wp (exec c) (fun _ s' => ∃ g ∈ allFiles s.mem, target c = some g ∧
      Quiet (allFiles s.mem) g s s') (fun _ _ => False) s := by
  obtain ⟨hv, -⟩ := hv
  cases c with
  | create path => exact hin.elim
  | write g buf offset =>
    obtain ⟨hg, hreg, hoff, hmax⟩ := hv
    obtain ⟨hnat, heq⟩ := toNat_of_nonneg hoff
    refine wp_seq (fileWrite_inPlace h.inv hg hreg (by omega) hin) ?_
    exact fun _ s' hq => ⟨g, hg, rfl, hq⟩
  | setSize g newsize =>
    obtain ⟨hg, hreg, hlo, hhi⟩ := hv
    obtain ⟨hnat, heq⟩ := toNat_of_nonneg hlo
    refine wp_seq (fileSetSize_quiet h.inv hg hreg (by omega)) ?_
    exact fun _ s' hq => ⟨g, hg, rfl, hq⟩
  | read g count offset =>
    obtain ⟨hg, hoff⟩ := hv
    refine wp_seq (fileRead_inPlace h.inv hg (toNat_of_nonneg hoff).1 hin) ?_
    rintro _ s' rfl
    exact ⟨g, hg, rfl, Quiet.refl h.inv g⟩

/-! ## §9. Runs. -/

/-- No block in use is free on the disk. -/
def BitmapSafe (s : Img) : Prop := ∀ b < nblocks s.mem, inUse s.mem b → inUse s.disk b

/-- What holds between two events. -/
structure CrashInv (s : Img) : Prop where
  dirs : DirOk s.mem
  three : 3 ≤ nblocks s.mem
  safe : BitmapSafe s

theorem bitmapBlk_lt (h3 : 3 ≤ nblocks d) (hb : b < nblocks d) :
    1 ≤ bitmapBlk b ∧ bitmapBlk b < nblocks d := by
  unfold bitmapBlk
  omega

theorem FlushOnly.crashInv (h : FlushOnly s s') (hs : CrashInv s) : CrashInv s' := by
  refine ⟨?_, ?_, fun b hb hu => ?_⟩
  · rw [h.mem]
    exact hs.dirs
  · rw [h.mem]
    exact hs.three
  · rw [h.mem] at hb hu
    have hsafe := hs.safe b hb hu
    unfold inUse at hu hsafe ⊢
    rcases h.disk (bitmapBlk b) with he | he
    · rw [he]
      exact hsafe
    · rw [he]
      exact hu

/-- `fs_sync` writes every block that matters. -/
theorem fsSync_crashInv (hd : DirOk s.mem) (h3 : 3 ≤ nblocks s.mem) (hrun : fsSync s = .ok () s') :
    CrashInv s' ∧ ∀ f ∈ allFiles s'.mem, Stored s' f := by
  obtain ⟨hfl, hall⟩ := wp_ok (fsSync_spec hd.inv.nblocks_le) hrun
  rw [← hfl.mem] at hd h3 hall
  refine ⟨⟨hd, h3, fun b hb hu => ?_⟩, fun f hf => Written.stored ⟨?_, fun h0 => ?_⟩⟩
  · obtain ⟨h1, hlt⟩ := bitmapBlk_lt h3 hb
    unfold inUse at hu ⊢
    rw [hall _ h1 hlt]
    exact hu
  · rcases hd.inv.blk_cases hf with rfl | ⟨hres, g, n, _, hg, _, hn, h0, hblk, _⟩
    · exact hall 1 (Nat.le_refl 1) (by omega)
    · refine hall _ ?_ ?_
      · unfold Reserved at hres
        omega
      · rw [hblk]
        exact hd.inv.slot_lt _ (fileSlot_in hg hn) h0
  · refine hall _ ?_ (hd.inv.slot_lt (.indirect f) hf h0)
    have hpos := hd.inv.slot_free (.indirect f) hf h0
    unfold Reserved at hpos
    rw [slotVal_indirect] at hpos
    omega

/-- A call in place keeps the invariant: it only frees blocks, and what it flushes
is no bitmap block. -/
theorem Quiet.crashInv (hs : CrashInv s) (hg : g ∈ allFiles s.mem)
    (hq : Quiet (allFiles s.mem) g s s') (hd : DirOk s'.mem) : CrashInv s' := by
  have hn : nblocks s'.mem = nblocks s.mem := congrArg BitVec.toNat hq.resized.nblocks
  refine ⟨hd, by rw [hn]; exact hs.three, fun b hb hu => ?_⟩
  rw [hn] at hb
  have hsafe := hs.safe b hb (hq.used b hb hu)
  unfold inUse at hsafe ⊢
  rw [hq.disk _ (hs.dirs.inv.blk_ne_bitmap hg hb).symm]
  exact hsafe

/-- **One event** keeps the invariant, and the files on the disk that are not its own. -/
theorem Step.keeps (hs : CrashInv s) {l : Option FileP} (hstep : Step InPlace s l s') :
    CrashInv s' ∧ ∀ f ∈ allFiles s.mem, l ≠ some f → Stored s f → Stored s' f := by
  have hflush : FlushOnly s s' → CrashInv s' ∧ ∀ f ∈ allFiles s.mem, l ≠ some f →
      Stored s f → Stored s' f :=
    fun hfl => ⟨hfl.crashInv hs, fun f _ _ hst => hfl.stored hst⟩
  cases hstep with
  | call hv hok hrun =>
    obtain ⟨hd, -⟩ := wp_ok (exec_keeps hs.dirs hv) hrun
    obtain ⟨g, hg, htarget, hq⟩ := wp_ok (exec_quiet hs.dirs hv hok) hrun
    refine ⟨hq.crashInv hs hg hd, fun f hf hne hst => ?_⟩
    refine Quiet.stored hs.dirs.inv hf hg ?_ hq hst
    rintro rfl
    exact hne htarget
  | callSync hv hrun hsync =>
    obtain ⟨hd, hlater⟩ := wp_ok (exec_keeps hs.dirs hv) hrun
    have hn := congrArg BitVec.toNat hlater.nblocks
    have h3 := hs.three
    unfold nblocks at h3
    rw [← hn] at h3
    obtain ⟨hinv, hall⟩ := fsSync_crashInv hd h3 hsync
    obtain ⟨hfl, -⟩ := wp_ok (fsSync_spec hd.inv.nblocks_le) hsync
    refine ⟨hinv, fun f hf _ _ => hall f ?_⟩
    rw [hfl.mem]
    exact hlater.files hf
  | flushBlock b => exact hflush (flushOnly_flush s b)
  | fileFlush hf hrun => exact hflush (wp_ok (fileFlush_spec hs.dirs.inv hf) hrun).1
  | fsSync hrun => exact hflush (wp_ok (fsSync_spec hs.dirs.inv.nblocks_le) hrun).1

theorem Run.crashInv (hs : CrashInv s) (hrun : Run InPlace s s') : CrashInv s' := by
  induction hrun with
  | refl => exact hs
  | tail _ hlast ih =>
    obtain ⟨l, hstep⟩ := hlast
    exact (hstep.keeps ih).1

/-- **After a crash, a flushed file's blocks are in use** on the disk, in every
run where each call that needs a new block is followed by `fs_sync`.  `file_flush`
returns and stores the file, and it stays stored until a call of its own. -/
theorem flushed_file_in_use {s₀ : Img} (hd : DirOk s₀.mem) (hn : 3 ≤ nblocks s₀.mem)
    (hdisk : s₀.disk = s₀.mem) (hrun : Run InPlace s₀ s) :
    (∀ b < nblocks s.mem, inUse s.mem b → inUse s.disk b) ∧
      ∀ f ∈ allFiles s.mem,
        (∃ s', fileFlush f s = .ok () s' ∧ Stored s' f) ∧
        (∀ l s', Step InPlace s l s' → l ≠ some f → Stored s f → Stored s' f) ∧
        (Stored s f → ∀ sl : BlockSlot, sl.In {f} → slotVal s.disk sl ≠ 0#32 →
          inUse s.disk (slotVal s.disk sl).toNat) := by
  have hs : CrashInv s := Run.crashInv ⟨hd, hn, fun b _ hu => by rw [hdisk]; exact hu⟩ hrun
  refine ⟨hs.safe, fun f hf => ⟨?_, ?_, ?_⟩⟩
  · obtain ⟨_, s', hflush, -, hw⟩ := exists_ok_of_wp (fileFlush_spec hs.dirs.inv hf)
    exact ⟨s', hflush, hw.stored⟩
  · exact fun l s' hstep hne hst => (hstep.keeps hs).2 f hf hne hst
  · intro hst sl hsl h0
    obtain ⟨hin, -⟩ := BlockSlot.in_of_single hsl hf
    rw [hst sl hsl] at h0 ⊢
    have hlt := hs.dirs.inv.slot_lt sl hin h0
    exact hs.safe _ hlt ((hs.dirs.inv.used_iff _ hlt).mpr (Or.inr (Or.inr ⟨sl, hin, h0, rfl⟩)))

/-- The small disk, just mounted.  Irreducible: only the kernel is to run code on it. -/
@[irreducible] def mounted : Img := ⟨smallDisk, smallDisk⟩

theorem mounted_mem : mounted.mem = smallDisk := by
  unfold mounted
  rfl

theorem mounted_disk : mounted.disk = mounted.mem := by
  unfold mounted
  rfl

theorem mounted_dirOk : DirOk mounted.mem := by
  rw [mounted_mem]
  exact smallDisk_dirOk

theorem mounted_three : 3 ≤ nblocks mounted.mem := by
  rw [mounted_mem]
  decide

theorem fileA_mounted : fileA ∈ allFiles mounted.mem := by
  rw [mounted_mem]
  exact smallDisk_isFile rfl rfl (by decide)

theorem write_valid : Valid mounted (.write fileA [1#8] 0#32) := by
  refine ⟨⟨fileA_mounted, ?_, by decide, ?_⟩, fun _ h => by cases h⟩
  · rw [mounted_mem]
    decide
  · decide

theorem write_sync : wp (exec (.write fileA [1#8] 0#32) >>= fun _ => fsSync)
    (fun _ s => slotVal s.disk (fileSlot fileA 0) = 4#32) (fun _ _ => False) mounted := by
  decide +kernel

theorem write_flush : wp (exec (.write fileA [1#8] 0#32) >>= fun _ => fileFlush fileA)
    (fun _ s => slotVal s.disk (fileSlot fileA 0) = 4#32 ∧ inUse s.mem 4 ∧ ¬ inUse s.disk 4)
    (fun _ _ => False) mounted := by
  decide +kernel

/-- The file is written and the disk synced. -/
theorem flushed_file_in_use_small : ∃ s, Run InPlace mounted s ∧
    slotVal s.disk (fileSlot fileA 0) = 4#32 ∧ inUse s.disk 4 := by
  obtain ⟨_, s₂, hboth, hslot⟩ := exists_ok_of_wp write_sync
  obtain ⟨r, s₁, hrun, hsync⟩ := bind_inv hboth
  have hall : Run InPlace mounted s₂ := .single ⟨_, .callSync write_valid hrun hsync⟩
  obtain ⟨hd, hlater⟩ := wp_ok (exec_keeps mounted_dirOk write_valid) hrun
  obtain ⟨hfl, -⟩ := wp_ok (fsSync_spec hd.inv.nblocks_le) hsync
  have hf : fileA ∈ allFiles s₂.mem := by
    rw [hfl.mem]
    exact hlater.files fileA_mounted
  have hst : Stored s₂ fileA := by
    refine (fsSync_crashInv hd ?_ hsync).2 fileA hf
    rw [show nblocks s₁.mem = nblocks mounted.mem from congrArg BitVec.toNat hlater.nblocks]
    exact mounted_three
  obtain ⟨-, hfile⟩ := flushed_file_in_use mounted_dirOk mounted_three mounted_disk hall
  have huse := (hfile fileA hf).2.2 hst (fileSlot fileA 0) ⟨rfl, by decide⟩
    (by rw [hslot]; decide)
  rw [hslot] at huse
  exact ⟨s₂, hall, hslot, huse⟩

/-- **A flushed file with a free block.**  One byte is written to a file, the file
is flushed, and on the disk its only block is free. -/
theorem flushed_block_free : ∃ s₁ s, Run (fun _ _ => True) mounted s₁ ∧
    fileFlush fileA s₁ = .ok () s ∧ slotVal s.disk (fileSlot fileA 0) = 4#32 ∧
    inUse s.mem 4 ∧ ¬ inUse s.disk 4 := by
  obtain ⟨_, s₂, hboth, hval⟩ := exists_ok_of_wp write_flush
  obtain ⟨r, s₁, hrun, hflush⟩ := bind_inv hboth
  exact ⟨s₁, s₂, .single ⟨_, .call write_valid trivial hrun⟩, hflush, hval⟩

end

end Jos.Crash
