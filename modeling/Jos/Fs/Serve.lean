/-
  Jos.Fs.Serve — **THE FILE SERVER'S REQUESTS** (`fs/serv.c`).

  A request arrives as a number and a page.  The client sends the page with
  permissions of its choice, the server finds it at `fsreq`, reads the request
  from it and writes the reply over it.  The page lies right below `DISKMAP`,
  so an access past its end is one to block 0 of the disk map.

  A store to the page without `PTE_W`, and any access without `PTE_U`, is a page
  fault outside the disk map, for which `bc_pgfault` panics.
-/
import Jos.Fs.OpenTab
import Jos.Fs.Files

namespace Jos

open Exec

/-! ## §1. The server's state. -/

structure Srv where
  disk : Disk
  tab : OpenTab
  /-- The bytes of the page at `fsreq`. -/
  req : Nat → Byte
  /-- The permissions it is mapped with. -/
  reqPerm : Word

/-- Why the server stops. -/
inductive SrvErr where
  /-- `page fault in FS`, at `fsreq`. -/
  | pageFault
  | panic (msg : String)
  deriving DecidableEq

abbrev SrvM := EStateM SrvErr Srv

/-- A function of `fs/fs.c`. -/
def onDisk {α : Type} (m : FsM α) : SrvM α := fun s =>
  match m s.disk with
  | .ok a d => .ok a { s with disk := d }
  | .error e d => .error (.panic e) { s with disk := d }

/-- Byte `k` from `fsreq` on. -/
def reqByte (k : Nat) : SrvM Byte := do
  let s ← get
  if k < BLKSIZE then
    if s.reqPerm &&& PTE_U = 0#32 then throw .pageFault else return s.req k
  else onDisk (diskByte (k - BLKSIZE))

def putReqByte (k : Nat) (x : Byte) : SrvM Unit := do
  let s ← get
  if k < BLKSIZE then
    if s.reqPerm &&& PTE_U = 0#32 ∨ s.reqPerm &&& PTE_W = 0#32 then throw .pageFault
    else set { s with req := Function.update s.req k x }
  else onDisk (putDiskByte (k - BLKSIZE) x)

def reqBytes (k : Nat) : Nat → SrvM (List Byte)
  | 0 => return []
  | n + 1 => do
      let x ← reqByte k
      return x :: (← reqBytes (k + 1) n)

def putReqBytes (k : Nat) : List Byte → SrvM Unit
  | [] => return ()
  | x :: xs => do
      putReqByte k x
      putReqBytes (k + 1) xs

/-- The little-endian word at `k`. -/
def reqWord (k : Nat) : SrvM Word := do
  let b0 ← reqByte k
  let b1 ← reqByte (k + 1)
  let b2 ← reqByte (k + 2)
  let b3 ← reqByte (k + 3)
  return b3 ++ b2 ++ b1 ++ b0

/-- The bytes of a word, in memory order. -/
def wordBytes (w : Word) : List Byte := [getByte w 0, getByte w 1, getByte w 2, getByte w 3]

/-- `openfile_lookup` for the id at the beginning of the request. -/
def lookupReq : SrvM (Except Word Nat) := do
  let fileid ← reqWord 0
  return openfileLookup (← get).tab fileid

/-- `o->o_fd->fd_offset`. -/
def getOffset (i : Nat) : SrvM Word := do
  let s ← get
  match s.tab.fdPage i with
  | some p => return (s.tab.fd p).fdOffset
  | none => throw .pageFault

/-- `o->o_fd->fd_offset += r`. -/
def addOffset (i : Nat) (r : Word) : SrvM Unit := do
  let s ← get
  match s.tab.fdPage i with
  | some p =>
    set { s with tab := { s.tab with
      fd := Function.update s.tab.fd p
        { s.tab.fd p with fdOffset := (s.tab.fd p).fdOffset + r } } }
  | none => throw .pageFault

/-- `o->o_file`. -/
def openFileOf (i : Nat) : SrvM FileP := do
  return ((← get).tab.opentab i).oFile

/-! ## §2. Reading and writing. -/

/-- The loop of `file_read` with its buffer in the request page. -/
def fileReadReqLoop (f : FileP) (stop : Word) : Nat → Word → Nat → SrvM (Option Word)
  | 0, _, _ => return none
  | n + 1, pos, buf => do
      if pos < stop then
        match ← onDisk (fileGetBlock f (pos.sdiv 4096#32)) with
        | .error r => return some r
        | .ok b =>
          let xs ← onDisk (diskBytes (blkAddr b pos) (chunk stop pos).toNat)
          putReqBytes buf xs
          fileReadReqLoop f stop n (pos + chunk stop pos) (buf + (chunk stop pos).toNat)
      else
        return none

/-- `file_read(f, ret->ret_buf, count, offset)`. -/
def fileReadReq (f : FileP) (count offset : Word) : SrvM Word := do
  let size ← onDisk (load f.blk f.fSize)
  if size.sle offset then
    return 0#32
  else
    let count := umin count (size - offset)
    match ← fileReadReqLoop f (offset + count) count.toNat offset 0 with
    | some r => return r
    | none => return count

/-- `r > 0` for an `int`. -/
def isPos (r : Word) : Bool := (0#32 : Word).slt r

def serveRead : SrvM Word := do
  match ← lookupReq with
  | .error r => return r
  | .ok i =>
    let n ← reqWord 4
    let r ← fileReadReq (← openFileOf i) n (← getOffset i)
    if isPos r then addOffset i r
    return r

/-- The loop of `file_write` with its buffer in the request page. -/
def fileWriteReqLoop (f : FileP) (stop : Word) : Nat → Word → Nat → SrvM (Option Word)
  | 0, _, _ => return none
  | n + 1, pos, buf => do
      if pos < stop then
        match ← onDisk (fileGetBlock f (pos.sdiv 4096#32)) with
        | .error r => return some r
        | .ok b =>
          let xs ← reqBytes buf (chunk stop pos).toNat
          onDisk (putDiskBytes (blkAddr b pos) xs)
          fileWriteReqLoop f stop n (pos + chunk stop pos) (buf + (chunk stop pos).toNat)
      else
        return none

/-- `file_write(f, req->req_buf, count, offset)`. -/
def fileWriteReq (f : FileP) (count offset : Word) : SrvM Word := do
  let size ← onDisk (load f.blk f.fSize)
  if size < offset + count then
    let _ ← onDisk (fileSetSize f (offset + count))
  match ← fileWriteReqLoop f (offset + count) count.toNat offset 8 with
  | some r => return r
  | none => return count

def serveWrite : SrvM Word := do
  match ← lookupReq with
  | .error r => return r
  | .ok i =>
    let n ← reqWord 4
    let r ← fileWriteReq (← openFileOf i) n (← getOffset i)
    if isPos r then addOffset i r
    return r

/-! ## §3. The other requests. -/

def serveSetSize : SrvM Word := do
  match ← lookupReq with
  | .error r => return r
  | .ok i =>
    let size ← reqWord 4
    onDisk (fileSetSize (← openFileOf i) size)

/-- `strcpy(ret->ret_name, p)` from disk address `a`, at most `n` bytes. -/
def strcpyReq (a k : Nat) : Nat → SrvM Unit
  | 0 => throw (.panic "strcpy")
  | n + 1 => do
      let x ← onDisk (diskByte a)
      putReqByte k x
      if x = 0#8 then return () else strcpyReq (a + 1) (k + 1) n

/-- A word of the reply. -/
def putReqWord (k : Nat) (w : Word) : SrvM Unit := putReqBytes k (wordBytes w)

def serveStat : SrvM Word := do
  match ← lookupReq with
  | .error r => return r
  | .ok i =>
    let f ← openFileOf i
    strcpyReq f.fName 0 (2 ^ 32)
    putReqWord 128 (← onDisk (load f.blk f.fSize))
    putReqWord 132 (if (← onDisk (load f.blk f.fType)) = FTYPE_DIR then 1#32 else 0#32)
    return 0#32

/-- What the cache shows does not change. -/
def serveFlush : SrvM Word := do
  match ← lookupReq with
  | .error r => return r
  | .ok _ => return 0#32

def serveSync : SrvM Word := return 0#32

def O_CREAT : Word := 0x100#32
def O_TRUNC : Word := 0x200#32
def O_EXCL : Word := 0x400#32

/-- `file_open`: the return value and `*pf`. -/
def fileOpen (path : List Byte) : FsM (Word × Option FileP) := do
  let w ← walkPath path
  return (w.ret, w.pf)

/-- `file_create` or `file_open`, as the mode says. -/
def openOrCreate (path : List Byte) (omode : Word) : FsM (Word × Option FileP) := do
  if omode &&& O_CREAT ≠ 0#32 then
    let (r, f) ← fileCreate path
    if r.slt 0#32 then
      if omode &&& O_EXCL = 0#32 ∧ r = -E_FILE_EXISTS then fileOpen path else return (r, none)
    else return (r, f)
  else fileOpen path

/-- The part of `serve_open` that works on the disk: the error, or the file. -/
def openPath (path : List Byte) (omode : Word) : FsM (Except Word FileP) := do
  match ← openOrCreate path omode with
  | (_, some f) =>
    if omode &&& O_TRUNC ≠ 0#32 then
      let _ ← fileSetSize f 0#32
    match ← fileOpen path with
    | (_, some f) => return .ok f
    | (r, none) => return .error r
  | (r, none) => return .error r

def MAXPATHLEN : Nat := 1024

/-- `serve_open` after `openfile_alloc`: the file is opened. -/
def serveOpenFile (path : List Byte) (i : Nat) : SrvM (Word × Option Nat) := do
  let omode ← reqWord MAXPATHLEN
  match ← onDisk (openPath path omode) with
  | .error r => return (r, none)
  | .ok f =>
    modify fun s => { s with tab := s.tab.fill i f omode }
    return (0#32, some i)

/-- `serve_open`: the return value, and the slot whose page goes into the
reply.  `mem` says whether there is memory for an `Fd` page. -/
def serveOpen (mem : Bool) : SrvM (Word × Option Nat) := do
  let bytes ← reqBytes 0 (MAXPATHLEN - 1)
  let path := bytes.takeWhile (· ≠ 0#8)
  let s ← get
  match openfileAlloc mem s.tab with
  | (.error r, t) => do
      set { s with tab := t }
      return (r, none)
  | (.ok i, t) => do
      set { s with tab := t }
      if (t.opentab i).oFileid.slt 0#32 then
        return ((t.opentab i).oFileid, none)
      else serveOpenFile path i

/-! ## §4. `serve`. -/

inductive FsReq where
  | open_ | setSize | read | write | stat | flush | remove | sync
  deriving DecidableEq

/-- The request a number stands for. -/
def fsReq (code : Word) : Option FsReq :=
  if code = 1#32 then some .open_ else if code = 2#32 then some .setSize
  else if code = 3#32 then some .read else if code = 4#32 then some .write
  else if code = 5#32 then some .stat else if code = 6#32 then some .flush
  else if code = 7#32 then some .remove else if code = 8#32 then some .sync else none

/-- The handlers. -/
def handle (mem : Bool) : Option FsReq → SrvM (Word × Option Nat)
  | some .open_ => serveOpen mem
  | some .setSize => do return (← serveSetSize, none)
  | some .read => do return (← serveRead, none)
  | some .write => do return (← serveWrite, none)
  | some .stat => do return (← serveStat, none)
  | some .flush => do return (← serveFlush, none)
  | some .sync => do return (← serveSync, none)
  | some .remove | none => return (-E_INVAL, none)

/-- One round of the loop of `serve`, for a request that has arrived: the value
and the page of the reply, if there is one. -/
def serve (mem : Bool) (code : Word) : SrvM (Option (Word × Option Nat)) := do
  if (← get).reqPerm &&& PTE_P = 0#32 then return none
  else return some (← handle mem (fsReq code))

end Jos
