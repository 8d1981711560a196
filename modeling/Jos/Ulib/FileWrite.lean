/-
  Jos.Ulib.FileWrite — **WRITING A FILE FROM A CLIENT** (`write` in `lib/fd.c`, `devfile_write` in
  `lib/file.c`).

  `devfile_write` copies the buffer into `fsipcbuf` behind the two words of the
  request and sends the page.  It takes at most `BLKSIZE` bytes, but `req_buf` has
  eight bytes less.  So the client's memory is modelled from `fsipcbuf` on, with what
  lies behind the page.

  The server's part is `serveWrite_file` and `fileWrite_wrote`; what is new here is
  the page that the client makes.

    • `Client.ask_data`   : the server finds the client's bytes in it, if they fit,
    • `write_intact`      : they arrive,
    • `write_not_intact`  : one byte more.
-/
import Jos.Ulib.Readn
import Jos.Fs.InPage
import Jos.Fs.ByteArray

namespace Jos.FileWrite

open Exec
open Readn (pageWord_stored)

/-! ## §1. The client. -/

/-- The file server, and the client's memory from `fsipcbuf` on: the page, and the
variables behind it. -/
structure Client where
  srv : Srv
  mem : Nat → Byte

abbrev ClientM := EStateM Readn.Stop Client

def FSREQ_WRITE : Word := 4#32

/-- `fsipc(type, NULL)`: the server maps the page, not what lies behind it. -/
def fsipc (type : Word) : ClientM Word := fun c =>
  match serve true type { c.srv with req := c.mem, reqPerm := PTE_P ||| PTE_W ||| PTE_U } with
  | .ok (some (r, _)) s =>
    .ok r { c with srv := s, mem := fun k => if k < BLKSIZE then s.req k else c.mem k }
  | .ok none s => .error .noReply { c with srv := s }
  | .error e s => .error (.server e) { c with srv := s }

/-- `devfile_write(fd, buf, n)`, where `fd` is in the page `p`; `buf` shows the memory
at `buf`, none of which lies in `fsipcbuf`. -/
def devfileWrite (p : Nat) (buf : Nat → Byte) (n : Word) : ClientM Word := do
  let n := if 4096#32 < n then 4096#32 else n
  let id := ((← get).srv.tab.fd p).fdFileId
  modify fun c => { c with mem := stored c.mem 0 (wordBytes id ++ wordBytes n) }
  modify fun c => { c with mem := stored c.mem 8 ((List.range n.toNat).map buf) }
  fsipc FSREQ_WRITE

def O_RDONLY : Word := 0#32

/-- `write(fdnum, buf, n)` for a descriptor of a file. -/
def write (p : Nat) (buf : Nat → Byte) (n : Word) : ClientM Word := do
  if ((← get).srv.tab.fd p).fdOmode &&& O_ACCMODE = O_RDONLY then
    return -E_INVAL
  else
    devfileWrite p buf n

/-! ## §2. The request. -/

variable {f : FileP} {c : Client} {i p : Nat} {n : Word}

theorem stored_outside (m : Nat → Byte) (k : Nat) (xs : List Byte) {j : Nat}
    (h : k + xs.length ≤ j) : stored m k xs j = m j := by
  unfold stored
  rw [if_neg (by omega), List.getElem?_eq_none (by omega)]
  rfl

theorem stored_at (m : Nat → Byte) (k : Nat) {xs : List Byte} {j : Nat} {x : Byte}
    (h : xs[j]? = some x) : stored m k xs (k + j) = x := by
  unfold stored
  rw [if_neg (by omega), Nat.add_sub_cancel_left, h]
  rfl

/-- What was stored can be read back, from any place. -/
theorem map_range'_stored (m : Nat → Byte) (k : Nat) (xs : List Byte) :
    (List.range' k xs.length).map (stored m k xs) = xs := by
  apply List.ext_getElem
  · simp
  · intro j hj hj'
    rw [List.getElem_map, List.getElem_range', Nat.one_mul]
    exact stored_at m k (List.getElem?_eq_getElem hj')

/-- The memory when the request is sent. -/
def Client.filled (c : Client) (p : Nat) (buf : Nat → Byte) (n : Word) : Nat → Byte :=
  stored (stored c.mem 0 (wordBytes (c.srv.tab.fd p).fdFileId ++ wordBytes n)) 8
    ((List.range n.toNat).map buf)

/-- The server as `serve_write` finds it. -/
def Client.ask (c : Client) (p : Nat) (buf : Nat → Byte) (n : Word) : Srv :=
  { c.srv with req := c.filled p buf n, reqPerm := PTE_P ||| PTE_W ||| PTE_U }

theorem Client.filled_words (c : Client) (p : Nat) (buf : Nat → Byte) (n : Word) :
    pageWord (c.filled p buf n) 0 = (c.srv.tab.fd p).fdFileId ∧ pageWord (c.filled p buf n) 4 = n :=
  pageWord_stored c.mem _ _

theorem Client.filled_outside (c : Client) (p : Nat) (buf : Nat → Byte) {n : Word}
    (hn : n.toNat ≤ BLKSIZE - 8) {k : Nat} (hk : BLKSIZE ≤ k) : c.filled p buf n k = c.mem k := by
  unfold BLKSIZE at hn hk
  unfold Client.filled
  rw [stored_outside _ _ _ (by rw [List.length_map, List.length_range]; omega),
    stored_outside _ _ _ (show 0 + 8 ≤ k by omega)]

/-- **The bytes of the request are the client's.** -/
theorem Client.ask_data (c : Client) (p : Nat) (buf : Nat → Byte) (n : Word) :
    (List.range' 8 n.toNat).map (c.ask p buf n).req = (List.range n.toNat).map buf := by
  have := map_range'_stored (stored c.mem 0 (wordBytes (c.srv.tab.fd p).fdFileId ++ wordBytes n)) 8
    ((List.range n.toNat).map buf)
  rw [List.length_map, List.length_range] at this
  exact this

/-- The page came with a request, and `serve` calls `serve_write`. -/
theorem serve_write_eq (s : Srv) (hP : s.reqPerm &&& PTE_P ≠ 0#32) :
    serve true FSREQ_WRITE s =
      (serveWrite >>= fun r => pure (some (r, none)) : SrvM (Option (Word × Option Nat))) s := by
  unfold serve
  rw [bind_get, if_neg hP]
  show ((serveWrite >>= fun r => pure (r, none)) >>= fun a => pure (some a)) s = _
  rw [bind_assoc]
  rfl

/-- The client when the server has replied: it shares the page with the server. -/
def Client.reply (c : Client) (p : Nat) (buf : Nat → Byte) (n : Word) (s : Srv) : Client where
  srv := s
  mem := fun k => if k < BLKSIZE then s.req k else c.filled p buf n k

theorem Client.reply_behind (c : Client) (p : Nat) (buf : Nat → Byte) (n : Word) (s : Srv) {k : Nat}
    (hk : BLKSIZE ≤ k) : (c.reply p buf n s).mem k = c.filled p buf n k :=
  if_neg (Nat.not_lt.mpr hk)

/-- **`write` up to the reply**, of at most `BLKSIZE` bytes. -/
theorem write_eq (buf : Nat → Byte) (hmode : (c.srv.tab.fd p).fdOmode &&& O_ACCMODE ≠ O_RDONLY)
    (hn : n.toNat ≤ BLKSIZE) :
    write p buf n c = match serveWrite (c.ask p buf n) with
      | .ok r s => .ok r (c.reply p buf n s)
      | .error e s => .error (.server e) ⟨s, c.filled p buf n⟩ := by
  have hcap : (if 4096#32 < n then 4096#32 else n) = n := by
    rw [if_neg]
    exact Nat.not_lt.mpr hn
  unfold write
  rw [bind_get, if_neg hmode]
  unfold devfileWrite
  rw [hcap, bind_get,
    bind_ok (show (modify _ : ClientM Unit) c = .ok () _ from rfl),
    bind_ok (show (modify _ : ClientM Unit) _ = .ok () _ from rfl)]
  show fsipc FSREQ_WRITE ⟨c.srv, c.filled p buf n⟩ = _
  show (match serve true FSREQ_WRITE (c.ask p buf n) with
    | .ok (some (r, _)) s => _
    | .ok none s => _
    | .error e s => _) = _
  rw [serve_write_eq _ (show (PTE_P ||| PTE_W ||| PTE_U) &&& PTE_P ≠ 0#32 by decide)]
  cases hrun : serveWrite (c.ask p buf n) with
  | ok r s => rw [bind_ok hrun]; rfl
  | error e s => rw [bind_error hrun]

/-! ## §3. The bytes arrive. -/

/-- The client has the `Fd` page `p` of a file open for writing, and all is well with the
file system. -/
structure Ready (f : FileP) (i p : Nat) (c : Client) : Prop where
  inv : Consistent c.srv.disk
  file : f ∈ allFiles c.srv.disk
  openOn : OpenOn c.srv.tab i p f
  live : openfileLookup c.srv.tab (c.srv.tab.fd p).fdFileId = .ok i
  mode : (c.srv.tab.fd p).fdOmode &&& O_ACCMODE ≠ O_RDONLY

/-- The client after the reply. -/
def Client.after (c : Client) (p : Nat) (buf : Nat → Byte) (n r : Word) (d' : Disk) : Client where
  srv := ⟨d', c.srv.tab.moved p r, c.filled p buf n, PTE_P ||| PTE_W ||| PTE_U⟩
  mem := c.filled p buf n

/-- **`write` of bytes that fit** is `file_write` of the client's bytes. -/
theorem write_file (buf : Nat → Byte) (h : Ready f i p c) (hn : n.toNat ≤ BLKSIZE - 8) :
    wp (fileWrite f ((List.range n.toNat).map buf) (c.srv.tab.fd p).fdOffset)
      (fun r d' => write p buf n c = .ok r (c.after p buf n r d'))
      (fun _ _ => ∀ r c', write p buf n c ≠ .ok r c') c.srv.disk := by
  obtain ⟨hid, hcount⟩ := c.filled_words p buf n
  have hserve := serveWrite_file (s := c.ask p buf n) (f := f) (i := i) (p := p)
    (show (PTE_P ||| PTE_W ||| PTE_U) &&& PTE_U ≠ 0#32 by decide) ⟨h.openOn.page, h.openOn.file⟩
    (by show openfileLookup c.srv.tab (pageWord (c.filled p buf n) 0) = _; rw [hid]; exact h.live)
    (by show (pageWord (c.filled p buf n) 4).toNat ≤ _; rw [hcount]; exact hn)
  rw [show pageWord (c.ask p buf n).req 4 = n from hcount, c.ask_data p buf n] at hserve
  rw [write_eq buf h.mode (Nat.le_trans hn (Nat.sub_le _ _))]
  refine wp_mono hserve ?_ ?_
  · intro r d' hrun
    rw [hrun]
    unfold Client.reply Client.after Client.ask
    simp only [ite_self]
  · intro e d' hrun r c' hok
    rw [hrun] at hok
    cases hok

/-- Where a file has no block `file_write` writes nothing. -/
theorem fileWrite_far {d : Disk} {xs : List Byte} {offset : Word}
    (hblk : xs ≠ [] → NDIRECT + NINDIRECT ≤ (offset.sdiv 4096#32).toNat)
    (hlen : xs.length ≤ BLKSIZE) (hsum : offset.toNat + xs.length < 2 ^ 32 ∨ xs = []) :
    wp (fileWrite f xs offset) (fun r _ => ¬ 0 < r.toInt) (fun _ _ => True) d := by
  unfold BLKSIZE at hlen
  have hto : (BitVec.ofNat 32 xs.length).toNat = xs.length := toNat_ofNat_lt (by omega)
  have hloop : ∀ d₁ : Disk, wp (fileWriteLoop f (offset + BitVec.ofNat 32 xs.length)
        (BitVec.ofNat 32 xs.length).toNat offset xs >>= writeEnd (BitVec.ofNat 32 xs.length))
      (fun r _ => ¬ 0 < r.toInt) (fun _ _ => True) d₁ := by
    intro d₁
    rw [hto]
    cases hxs : xs.length with
    | zero => exact (by decide : ¬ 0 < (BitVec.ofNat 32 0).toInt)
    | succ k =>
      have hne : xs ≠ [] := List.ne_nil_of_length_eq_add_one hxs
      have hstop : (offset + BitVec.ofNat 32 xs.length).toNat = offset.toNat + xs.length := by
        rw [BitVec.toNat_add, hto, Nat.mod_eq_of_lt (hsum.resolve_right hne)]
      unfold fileWriteLoop
      rw [if_pos (by rw [BitVec.lt_def, ← hxs, hstop]; omega)]
      refine wp_bind_ok (bind_ok (fileGetBlock_range (hblk hne))) ?_
      exact (by decide : ¬ 0 < (-E_INVAL).toInt)
  refine wp_bind_ok (load_ok _ _ d) ?_
  split
  · exact wp_seq (wp_trivial _ _) fun _ d₁ _ => hloop d₁
  · exact hloop d

theorem moved_offset {t : OpenTab} {r : Word} (hr : 0 < r.toInt) :
    ((t.moved p r).fd p).fdOffset = (t.fd p).fdOffset + r := by
  have hpos : isPos r = true := by
    unfold isPos
    rw [BitVec.slt_iff_toInt_lt]
    exact hr
  unfold OpenTab.moved OpenTab.advance
  rw [if_pos hpos]
  show (Function.update t.fd p _ p).fdOffset = _
  rw [Function.update_self]

/-- **What a client writes arrives intact**, up to the size of `req_buf` and unless the
offset is less than a block below 0: if `write` returns a positive number, so many bytes of the buffer are in the file at the offset,
the offset is behind them, and the client's memory outside `fsipcbuf` is as before.
With room on the disk and in the file, all of the buffer is written. -/
theorem write_intact (buf : Nat → Byte) (h : Ready f i p c) (hn : n.toNat ≤ BLKSIZE - 8)
    (hoffset : n = 0#32 ∨ 0 ≤ (c.srv.tab.fd p).fdOffset.toInt ∨
      (c.srv.tab.fd p).fdOffset.toInt ≤ -BLKSIZE) :
    (∀ r c', write p buf n c = .ok r c' → 0 < r.toInt →
      r.toNat ≤ n.toNat ∧
      (c.srv.tab.fd p).fdOffset.toNat + r.toNat ≤ fileSize c'.srv.disk f ∧
      Filled c'.srv.disk f (c.srv.tab.fd p).fdOffset.toNat
        ((c.srv.tab.fd p).fdOffset.toNat + r.toNat) ∧
      fileBytes c'.srv.disk f (c.srv.tab.fd p).fdOffset.toNat r.toNat = (List.range r.toNat).map
        buf ∧
      (c'.srv.tab.fd p).fdOffset = (c.srv.tab.fd p).fdOffset + r ∧
      ∀ k, BLKSIZE ≤ k → c'.mem k = c.mem k) ∧
    ((c.srv.tab.fd p).fdOffset.toNat + n.toNat ≤ MAXFILESIZE →
      HasRoom c.srv.disk (slotsFor f ((c.srv.tab.fd p).fdOffset.toNat / BLKSIZE)
        (blocksTo (c.srv.tab.fd p).fdOffset.toNat ((c.srv.tab.fd p).fdOffset.toNat + n.toNat))) →
      ∃ c', write p buf n c = .ok n c') := by
  have hok := h.inv.fileOk h.file
  have hlen : ((List.range n.toNat).map buf).length = n.toNat := by simp
  have hofNat : BitVec.ofNat 32 n.toNat = n := BitVec.ofNat_toNat ..
  have hcall := write_file buf h hn
  generalize hfd : (c.srv.tab.fd p).fdOffset = o at hoffset hcall
  constructor
  · intro r c' hrun hr
    cases hw : fileWrite f ((List.range n.toNat).map buf) o c.srv.disk with
    | error e d' => exact absurd hrun (wp_error hcall hw r c')
    | ok r' d' =>
      rw [wp_ok hcall hw] at hrun
      cases hrun
      by_cases hsum : o.toNat + n.toNat < 2 ^ 31
      · obtain ⟨xs, ys, hxs, hwritten, hres⟩ := wp_ok
          (fileWrite_wrote hok (show o.toNat + ((List.range n.toNat).map buf).length < 2 ^ 31 by
            rw [hlen]; exact hsum)) hw
        rcases hres with ⟨rfl, rfl⟩ | ⟨rfl, -⟩
        · rw [List.append_nil] at hxs
          subst hxs
          have hsize := hwritten.size
          have hfill := hwritten.filled
          rw [hlen] at hsize hfill
          rw [hlen, hofNat] at hr ⊢
          refine ⟨le_rfl, ?_, hfill, ?_, ?_, fun k hk => c.filled_outside p buf hn hk⟩
          · show _ ≤ fileSize d' f
            omega
          · have := fileBytes_eq hwritten.bytes
            rw [hlen] at this
            exact this
          · rw [← hfd]
            exact moved_offset hr
        · exact absurd hr (by decide)
      · -- so far out, on either side, that nothing is written
        have hnil : n = 0#32 → (List.range n.toNat).map buf = [] := fun h0 => by rw [h0]; rfl
        have hle : ((List.range n.toNat).map buf).length ≤ BLKSIZE := by omega
        have hwhere : n = 0#32 ∨ (MAXFILESIZE ≤ o.toNat ∧ o.toNat ≤ 2 ^ 32 - 4096) := by
          refine hoffset.imp_right fun hside => ?_
          rw [BitVec.toInt_eq_toNat_cond] at hside
          unfold MAXFILESIZE NDIRECT NINDIRECT
          unfold BLKSIZE at hn hside ⊢
          split at hside <;> omega
        refine absurd hr (wp_ok (fileWrite_far (fun hne => ?_) hle ?_) hw)
        · obtain ⟨h1, h2⟩ := hwhere.resolve_left fun h0 => hne (hnil h0)
          exact sdiv_far h1 h2
        · refine hwhere.symm.imp (fun ⟨_, h2⟩ => ?_) hnil
          unfold BLKSIZE at hn
          omega
  · intro hmax hroom
    have hsum : o.toNat + n.toNat < 2 ^ 31 := Nat.lt_of_le_of_lt hmax (by decide)
    rw [← hlen] at hsum hmax hroom
    obtain ⟨r, d', hw, xs, ys, -, -, hr⟩ := exists_ok_of_wp
      (wp_mono (fileWrite_wrote hok hsum) (fun _ _ hx => hx) fun _ _ hno => hno.false hroom)
    rcases hr with ⟨rfl, -⟩ | ⟨-, hover⟩
    · rw [hlen, hofNat] at hw
      have hrun := wp_ok hcall hw
      exact ⟨_, hrun⟩
    · omega

/-- A client that has opened a file of the small disk for writing, and nothing else in
its memory. -/
def freshClient : Client where
  srv := ⟨smallDisk, (((serveInit.newPage 0).bump 0).fill 0 openA 1#32).setMaps 0 1, fun _ =>
    0#8, 0#32⟩
  mem := fun _ => 0#8

theorem freshClient_ready : Ready openA 0 0 freshClient :=
  ⟨smallDisk_sound.inv, smallDisk_isFile (k := 0) rfl rfl (by decide), ⟨rfl, rfl⟩, rfl, by decide⟩

theorem write_intact_fresh : ∃ c', write 0 (fun k => BitVec.ofNat 8 k) 4088#32 freshClient = .ok
    4088#32 c' ∧
    fileBytes c'.srv.disk openA 0 4088 = (List.range 4088).map (fun k => BitVec.ofNat 8 k) := by
  have hint := write_intact (fun k => BitVec.ofNat 8 k) (n := 4088#32) freshClient_ready (by decide)
    (.inr (.inl (by decide)))
  obtain ⟨c', hrun⟩ := hint.2 (by decide) (by unfold HasRoom; decide +kernel)
  exact ⟨c', hrun, (hint.1 _ c' hrun (by decide)).2.2.2.1⟩

/-! ## §4. One byte more. -/

/-- The server reads one byte past the page: the first byte of the disk map. -/
theorem reqBytes_over {s : Srv} (hu : s.reqPerm &&& PTE_U ≠ 0#32) (m : Nat) :
    ∀ k, k + m = BLKSIZE →
      reqBytes k (m + 1) s = .ok ((List.range' k m).map s.req ++ [byteAt s.disk 0]) s := by
  induction m with
  | zero =>
    intro k hk
    obtain rfl : k = BLKSIZE := hk
    rfl
  | succ m ih =>
    intro k hk
    unfold reqBytes
    rw [bind_ok (reqByte_ok hu (by omega)), bind_ok (ih (k + 1) (by omega)), List.range'_succ]
    rfl

/-- **A write of 4089 bytes.**  The last one goes behind `fsipcbuf`, into the client's
next variable; and what the server writes in its place is the first byte of the disk. -/
theorem write_not_intact : ∃ c', write 0 (fun _ => 7#8) 4089#32 freshClient = .ok 4089#32 c' ∧
    freshClient.mem 4096 = 0#8 ∧ c'.mem 4096 = 7#8 ∧ fileByte c'.srv.disk openA 4088 = 0#8 := by
  obtain ⟨d₁, d₂, hset, hget, hzero, hslot⟩ : ∃ d₁ d₂,
      fileSetSize openA 4089#32 smallDisk = .ok 0#32 d₁ ∧
      fileGetBlock openA ((0#32 : Word).sdiv 4096#32) d₁ = .ok (.ok 4) d₂ ∧
      byteAt d₂ 0 = 0#8 ∧ d₂ 3 34 = 4#32 :=
    ⟨_, _, rfl, rfl, by decide +kernel, by decide +kernel⟩
  obtain ⟨hid, hcount⟩ := freshClient.filled_words 0 (fun _ => 7#8) 4089#32
  generalize hs : freshClient.ask 0 (fun _ => 7#8) 4089#32 = s
  have hu : s.reqPerm &&& PTE_U ≠ 0#32 := by
    rw [← hs]
    exact (by decide : (PTE_P ||| PTE_W ||| PTE_U) &&& PTE_U ≠ 0#32)
  have hdisk : s.disk = smallDisk := by rw [← hs]; rfl
  have hopen : OpenOn s.tab 0 0 openA := by rw [← hs]; exact ⟨rfl, rfl⟩
  have hlook : openfileLookup s.tab (pageWord s.req 0) = .ok 0 := by
    rw [← hs]
    show openfileLookup freshClient.srv.tab (pageWord (freshClient.filled 0 (fun _ =>
      7#8) 4089#32) 0) = _
    rfl
  -- the bytes, and where they go
  have hbytes := reqBytes_over (s := { s with disk := d₂ }) hu 4088 8 rfl
  rw [show byteAt ({ s with disk := d₂ } : Srv).disk 0 = 0#8 from hzero] at hbytes
  have hlen : ((List.range' 8 4088).map s.req ++ [0#8]).length = 4089 := by simp
  have hlast : ((List.range' 8 4088).map s.req ++ [0#8])[4088]? = some 0#8 := by
    simp
  generalize (List.range' 8 4088).map s.req ++ [0#8] = xs at hbytes hlen hlast
  obtain ⟨_, d₃, hput, hholds, -, hframe⟩ := exists_ok_of_wp
    (Fmt.putDiskBytes_holds xs (blkAddr 4 0#32) d₂)
  have haddr : blkAddr 4 0#32 = 16384 := by decide
  have hc : chunk 4089#32 0#32 = 4089#32 := by decide
  have hloop : fileWriteReqLoop openA 4089#32 (4088 + 1) 0#32 8 { s with disk := d₁ } =
      .ok none { s with disk := d₃ } := by
    unfold fileWriteReqLoop
    rw [if_pos (by decide), bind_ok (onDisk_ok (s := { s with disk := d₁ }) hget)]
    dsimp only
    rw [hc, show (4089#32 : Word).toNat = 4088 + 1 from rfl, bind_ok hbytes,
      bind_ok (onDisk_ok (s := { s with disk := d₂ }) hput)]
    rfl
  have hwrite : fileWriteReq openA 4089#32 0#32 s = .ok 4089#32 { s with disk := d₃ } := by
    unfold fileWriteReq
    rw [bind_ok (onDisk_ok (load_ok _ _ s.disk)), hdisk, BitVec.zero_add, if_pos (by decide),
      bind_ok (onDisk_ok (s := { s with disk := smallDisk }) hset)]
    show (fileWriteReqLoop openA 4089#32 (4088 + 1) 0#32 8 >>= fun o => _) _ = _
    rw [bind_ok hloop]
    rfl
  have hserve : serveWrite s = .ok 4089#32 { s with disk := d₃, tab := s.tab.moved 0 4089#32 } := by
    rw [serveWrite_eq hu hopen hlook]
    rw [show pageWord s.req 4 = 4089#32 by rw [← hs]; exact hcount,
      show (s.tab.fd 0).fdOffset = 0#32 by rw [← hs]; rfl, bind_ok hwrite]
    exact moved_ok (s := { s with disk := d₃ }) hopen.page 4089#32
  have hbehind : freshClient.filled 0 (fun _ => 7#8) 4089#32 4096 = 7#8 := by
    rw [show 4096 = 8 + 4088 from rfl]
    refine stored_at _ 8 ?_
    rw [List.getElem?_map, List.getElem?_range (by decide)]
    rfl
  have hrun := write_eq (c := freshClient) (p := 0) (n := 4089#32) (fun _ => 7#8)
    (by decide) (by decide)
  rw [hs, hserve] at hrun
  refine ⟨_, hrun, rfl, ?_, ?_⟩
  · rw [Client.reply_behind _ _ _ _ _ (by decide)]
    exact hbehind
  · show byteAt d₃ ((d₃ 3 34).toNat * BLKSIZE + 4088) = 0#8
    have hrec : d₃ 3 34 = d₂ 3 34 := by
      refine hframe 3 34 fun k hk hin => ?_
      have := hin.1
      unfold BLKSIZE at this
      omega
    rw [hrec, hslot]
    have hbyte := hholds 4088 (by omega)
    rw [List.getElem?_eq_getElem (by omega)] at hlast
    exact hbyte.trans (Option.some.inj hlast)

end Jos.FileWrite
