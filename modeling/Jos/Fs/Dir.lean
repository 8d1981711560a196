/-
  Jos.Fs.Dir — **DIRECTORIES AND PATHS** (`fs/fs.c`): `dir_lookup`, `dir_alloc_file`,
  `walk_path` and `file_create`.

  A path is the list of its bytes, without the terminating NUL.  Both scans of
  a directory go over the same entries and stop at the first that passes their
  test, so there is one definition for the two loops.  `file_flush` only writes
  back what the cache already shows, and is left out.
-/
import Jos.Fs.Disk

namespace Jos

def BLKFILES : Nat := 16
def MAXNAMELEN : Nat := 128

def E_BAD_PATH : Word := 12#32
def E_FILE_EXISTS : Word := 13#32

/-- The address of `f->f_name`. -/
def FileP.fName (f : FileP) : Nat := f.blk * BLKSIZE + 4 * f.idx

/-- `strcmp(p, name) == 0` for the string at address `a`. -/
def strcmp (a : Nat) : List Byte → FsM Bool
  | [] => do
      let c ← diskByte a
      return c = 0#8
  | x :: xs => do
      let c ← diskByte a
      if c = x then strcmp (a + 1) xs else return false

/-- `f[0]`, …, `f[BLKFILES - 1]` of block `b`, from `f[j]` on. -/
def scanBlock (test : FileP → FsM Bool) (b : Nat) : Nat → Nat → FsM (Option FileP)
  | 0, _ => return none
  | n + 1, j => do
      if ← test ⟨b, 64 * j⟩ then return some ⟨b, 64 * j⟩ else scanBlock test b n (j + 1)

/-- The loop over the blocks of a directory, from block `i` on. -/
def scanDir (test : FileP → FsM Bool) (dir : FileP) : Nat → Nat →
    FsM (Except Word (Option FileP))
  | 0, _ => return .ok none
  | n + 1, i => do
      match ← fileGetBlock dir (BitVec.ofNat 32 i) with
      | .error r => return .error r
      | .ok b =>
        match ← scanBlock test b BLKFILES 0 with
        | some f => return .ok (some f)
        | none => scanDir test dir n (i + 1)

/-- `assert((dir->f_size % BLKSIZE) == 0); nblock = dir->f_size / BLKSIZE`. -/
def dirNblock (dir : FileP) : FsM Nat := do
  let size ← load dir.blk dir.fSize
  if size.srem 4096#32 ≠ 0#32 then
    throw "assertion failed: (dir->f_size % BLKSIZE) == 0"
  else
    return (size.sdiv 4096#32).toNat

def dirLookup (dir : FileP) (name : List Byte) : FsM (Except Word FileP) := do
  let nblock ← dirNblock dir
  match ← scanDir (fun f => strcmp f.fName name) dir nblock 0 with
  | .error r => return .error r
  | .ok (some f) => return .ok f
  | .ok none => return .error (-E_NOT_FOUND)

def dirAllocFile (dir : FileP) : FsM (Except Word FileP) := do
  let nblock ← dirNblock dir
  match ← scanDir (fun f => do return (← diskByte f.fName) = 0#8) dir nblock 0 with
  | .error r => return .error r
  | .ok (some f) => return .ok f
  | .ok none =>
    let size ← load dir.blk dir.fSize
    store dir.blk dir.fSize (size + 4096#32)
    match ← fileGetBlock dir (BitVec.ofNat 32 nblock) with
    | .error r => return .error r
    | .ok b => return .ok ⟨b, 0⟩

def slash : Byte := 0x2F#8

def skipSlash (p : List Byte) : List Byte := p.dropWhile (· = slash)

/-- What `walk_path` returns and leaves in `*pdir`, `*pf` and `lastelem`. -/
structure PathWalk where
  ret : Word
  pdir : Option FileP
  pf : Option FileP
  lastelem : List Byte

theorem length_skipSlash (p : List Byte) : (skipSlash p).length ≤ p.length :=
  List.Sublist.length_le (List.dropWhile_sublist _)

/-- A round of the loop of `walk_path` uses up a byte or more. -/
theorem length_rest (c : Byte) (cs : List Byte) :
    (skipSlash ((c :: cs).dropWhile (· ≠ slash))).length < (c :: cs).length := by
  by_cases hc : c = slash
  · -- nothing is dropped up to the slash, and then the slash is skipped
    have h := length_skipSlash cs
    have hd : (c :: cs).dropWhile (· ≠ slash) = c :: cs := by simp [hc]
    rw [hd]
    unfold skipSlash at h ⊢
    rw [List.dropWhile_cons_of_pos (by simpa using hc), List.length_cons]
    omega
  · have h1 := length_skipSlash (cs.dropWhile (· ≠ slash))
    have h2 : (cs.dropWhile (· ≠ slash)).length ≤ cs.length :=
      List.Sublist.length_le (List.dropWhile_sublist _)
    rw [List.dropWhile_cons_of_pos (by simpa using hc), List.length_cons]
    omega

/-- The loop of `walk_path`, with `dir`, `f` and what is left of the path. -/
def walkPathFrom (dir : Option FileP) (f : FileP) (path : List Byte) : FsM PathWalk :=
  match path with
  | [] => return ⟨0#32, dir, some f, []⟩
  | c :: cs => do
      let name := (c :: cs).takeWhile (· ≠ slash)
      if MAXNAMELEN ≤ name.length then
        return ⟨-E_BAD_PATH, none, none, []⟩
      else
        let rest := skipSlash ((c :: cs).dropWhile (· ≠ slash))
        let type ← load f.blk f.fType
        if type ≠ FTYPE_DIR then
          return ⟨-E_NOT_FOUND, none, none, []⟩
        else
          match ← dirLookup f name with
          | .error r =>
            if r = -E_NOT_FOUND ∧ rest = [] then
              return ⟨r, some f, none, name⟩
            else
              return ⟨r, none, none, []⟩
          | .ok f' => walkPathFrom (some f) f' rest
termination_by path.length
decreasing_by exact length_rest c cs

def walkPath (path : List Byte) : FsM PathWalk := walkPathFrom none sRoot (skipSlash path)

/-- The return value and `*pf`. -/
def fileCreate (path : List Byte) : FsM (Word × Option FileP) := do
  let w ← walkPath path
  if w.ret = 0#32 then
    return (-E_FILE_EXISTS, none)
  else
    match w.pdir with
    | none => return (w.ret, none)
    | some dir =>
      if w.ret ≠ -E_NOT_FOUND then
        return (w.ret, none)
      else
        match ← dirAllocFile dir with
        | .error r => return (r, none)
        | .ok f =>
          putDiskBytes f.fName (w.lastelem ++ [0#8])
          return (0#32, some f)

end Jos
