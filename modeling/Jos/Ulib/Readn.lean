/-
  Jos.Ulib.Readn — **READING A FILE IN A CLIENT** (`lib/fd.c`, `lib/file.c`).

  `devfile_read` sends the page `fsipcbuf` to the file server and finds the
  reply in it.  The server and one client are modelled together: between the
  request and the reply the client waits.
-/
import Jos.Fs.ReadSeq
import Jos.Fs.Leak

namespace Jos.Readn

open Exec

/-! ## §1. The client. -/

/-- The file server, and of the client its request page and the memory at
`buf`. -/
structure Reader where
  srv : Srv
  fsipcbuf : Nat → Byte
  buf : Nat → Byte

/-- Why `readn` does not return. -/
inductive Stop where
  /-- The file server has stopped. -/
  | server (e : SrvErr)
  /-- There is no reply. -/
  | noReply
  | panic (msg : String)

abbrev ReadM := EStateM Stop Reader

/-- `fsipc(type, NULL)`. -/
def fsipc (type : Word) : ReadM Word := fun c =>
  match serve true type { c.srv with req := c.fsipcbuf, reqPerm := PTE_P ||| PTE_W ||| PTE_U } with
  | .ok (some (r, _)) s => .ok r { c with srv := s, fsipcbuf := s.req }
  | .ok none s => .error .noReply { c with srv := s }
  | .error e s => .error (.server e) { c with srv := s }

/-- `devfile_read(fd, buf + tot, n)`, where `fd` is in the page `p`. -/
def devfileRead (p tot : Nat) (n : Word) : ReadM Word := do
  let id := ((← get).srv.tab.fd p).fdFileId
  modify fun c => { c with fsipcbuf := stored c.fsipcbuf 0 (wordBytes id ++ wordBytes n) }
  let r ← fsipc FSREQ_READ
  if r.slt 0#32 then
    return r
  else if ¬ r ≤ n then
    throw (.panic "assertion failed: r <= n")
  else if ¬ r.sle 4096#32 then
    throw (.panic "assertion failed: r <= PGSIZE")
  else
    modify fun c => { c with buf := stored c.buf tot ((List.range r.toNat).map c.fsipcbuf) }
    return r

def O_WRONLY : Word := 1#32

/-- `read(fdnum, buf + tot, n)` for a descriptor of a file. -/
def read (p tot : Nat) (n : Word) : ReadM Word := do
  if ((← get).srv.tab.fd p).fdOmode &&& O_ACCMODE = O_WRONLY then
    return -E_INVAL
  else
    devfileRead p tot n

/-- The loop of `readn`.  Every pass but the last reads a byte or more. -/
def readnLoop (p : Nat) (n : Word) : Nat → Word → ReadM Word
  | 0, tot => return tot
  | k + 1, tot => do
      if tot < n then
        let m ← read p tot.toNat (n - tot)
        if m.slt 0#32 then
          return m
        else if m = 0#32 then
          return tot
        else
          readnLoop p n k (tot + m)
      else
        return tot

/-- `readn(fdnum, buf, n)`. -/
def readn (p : Nat) (n : Word) : ReadM Word := readnLoop p n (n.toNat + 1) 0#32

/-! ## §2. One read. -/

variable {files : Set FileP} {f : FileP} {c : Reader} {i p : Nat}

/-- The client has the `Fd` page `p` of a file open for reading, and all is well
with the file system. -/
structure Ready (files : Set FileP) (f : FileP) (i p : Nat) (c : Reader) : Prop where
  inv : FsInv files ∅ c.srv.disk
  apart : RecordApart c.srv.disk f
  openOn : OpenOn c.srv.tab i p f
  live : openfileLookup c.srv.tab (c.srv.tab.fd p).fdFileId = .ok i
  offset : (c.srv.tab.fd p).fdOffset.toNat < 2 ^ 31
  mode : (c.srv.tab.fd p).fdOmode &&& O_ACCMODE ≠ O_WRONLY

/-- Where the client stands in the file. -/
def Reader.offset (p : Nat) (c : Reader) : Nat := (c.srv.tab.fd p).fdOffset.toNat

/-- The bytes from there to the end. -/
def Reader.left (f : FileP) (p : Nat) (c : Reader) : Nat := fileSize c.srv.disk f - c.offset p

theorem getByte_append (w : Word) :
    getByte w 3 ++ getByte w 2 ++ getByte w 1 ++ getByte w 0 = w := by
  apply BitVec.eq_of_getLsbD_eq
  intro j hj
  unfold getByte
  simp only [BitVec.getLsbD_append, BitVec.getLsbD_setWidth, BitVec.getLsbD_ushiftRight]
  rcases show j < 8 ∨ (8 ≤ j ∧ j < 16) ∨ (16 ≤ j ∧ j < 24) ∨ (24 ≤ j ∧ j < 32) by omega with
    h | h | h | h
  · simp [h]
  · simp [show ¬ j < 8 by omega, show j - 8 < 8 by omega, show 8 + (j - 8) = j by omega]
  · simp [show ¬ j < 8 by omega, show ¬ j - 8 < 8 by omega, show j - 8 - 8 < 8 by omega,
      show 16 + (j - 8 - 8) = j by omega]
  · simp [show ¬ j < 8 by omega, show ¬ j - 8 < 8 by omega, show ¬ j - 8 - 8 < 8 by omega,
      show j - 8 - 8 - 8 < 8 by omega, show 24 + (j - 8 - 8 - 8) = j by omega]

/-- The request that `devfile_read` fills in. -/
theorem pageWord_stored (m : Nat → Byte) (v w : Word) :
    pageWord (stored m 0 (wordBytes v ++ wordBytes w)) 0 = v ∧
      pageWord (stored m 0 (wordBytes v ++ wordBytes w)) 4 = w :=
  ⟨getByte_append v, getByte_append w⟩

/-- The server as `serve_read` finds it. -/
def Reader.ask (c : Reader) (p : Nat) (n : Word) : Srv :=
  { c.srv with
    req := stored c.fsipcbuf 0 (wordBytes (c.srv.tab.fd p).fdFileId ++ wordBytes n)
    reqPerm := PTE_P ||| PTE_W ||| PTE_U }

/-- The page came with a request, and `serve` calls `serve_read`. -/
theorem serve_read_eq (mem : Bool) (s : Srv) (hP : s.reqPerm &&& PTE_P ≠ 0#32) :
    serve mem FSREQ_READ s =
      (serveRead >>= fun r => pure (some (r, none)) : SrvM (Option (Word × Option Nat))) s := by
  unfold serve
  rw [bind_get, if_neg hP]
  show ((serveRead >>= fun r => pure (r, none)) >>= fun a => pure (some a)) s = _
  rw [bind_assoc]
  rfl

section

variable {Q : Word → Srv → Prop} {X : Srv → Prop} {n : Word}

/-- The request reaches `serve_read`, and the reply the client. -/
theorem wp_fsipc (h : wp serveRead Q (fun _ s' => X s') (c.ask p n)) :
    wp (fsipc FSREQ_READ)
      (fun r c' => ∃ s', c' = { c with srv := s', fsipcbuf := s'.req } ∧ Q r s')
      (fun _ c' => X c'.srv)
      { c with
        fsipcbuf := stored c.fsipcbuf 0 (wordBytes (c.srv.tab.fd p).fdFileId ++ wordBytes n) } := by
  have heq := serve_read_eq true (c.ask p n)
    (show (PTE_P ||| PTE_W ||| PTE_U) &&& PTE_P ≠ 0#32 by decide)
  unfold Reader.ask at heq
  unfold wp fsipc
  rw [heq]
  cases hrun : serveRead (c.ask p n) with
  | ok r s' =>
    have h1 := wp_ok h hrun
    unfold Reader.ask at hrun
    rw [bind_ok hrun]
    exact ⟨s', rfl, h1⟩
  | error e s' =>
    have h1 := wp_error h hrun
    unfold Reader.ask at hrun
    rw [bind_error hrun]
    exact h1

/-- `read` up to the reply. -/
theorem wp_read {tot : Nat} {Q' : Word → Reader → Prop}
    (hmode : (c.srv.tab.fd p).fdOmode &&& O_ACCMODE ≠ O_WRONLY)
    (h : wp serveRead Q (fun _ s' => X s') (c.ask p n)) (hk : ∀ r s', Q r s' → wp (do
        if r.slt 0#32 then
          return r
        else if ¬ r ≤ n then
          throw (.panic "assertion failed: r <= n")
        else if ¬ r.sle 4096#32 then
          throw (.panic "assertion failed: r <= PGSIZE")
        else
          modify fun c => { c with buf := stored c.buf tot ((List.range r.toNat).map c.fsipcbuf) }
          return r : ReadM Word) Q' (fun _ c' => X c'.srv)
        { c with srv := s', fsipcbuf := s'.req }) :
    wp (read p tot n) Q' (fun _ c' => X c'.srv) c := by
  refine wp_get_bind ?_
  rw [if_neg hmode]
  refine wp_get_bind ?_
  refine wp_bind_ok (show (modify _ : ReadM Unit) c = .ok () _ from rfl) ?_
  refine wp_seq (wp_fsipc h) ?_
  rintro r _ ⟨s', rfl, hs⟩
  exact hk r s' hs

end

theorem not_slt_zero {r : Word} (h : r.toNat < 2 ^ 31) : ¬ r.slt 0#32 = true := by
  rw [BitVec.slt_iff_toInt_lt, BitVec.toInt_eq_toNat_of_lt (by omega)]
  show ¬ (r.toNat : Int) < 0
  omega

theorem Reader.ask_writable (c : Reader) (p : Nat) (n : Word) : Writable (c.ask p n) :=
  ⟨show (PTE_P ||| PTE_W ||| PTE_U) &&& PTE_U ≠ 0#32 by decide,
    show (PTE_P ||| PTE_W ||| PTE_U) &&& PTE_W ≠ 0#32 by decide⟩

/-- The server finds the file of the descriptor. -/
theorem Ready.finds (hc : Ready files f i p c) (n : Word) :
    openfileLookup (c.ask p n).tab (pageWord (c.ask p n).req 0) = .ok i := by
  show openfileLookup c.srv.tab (pageWord (stored _ _ _) 0) = _
  rw [(pageWord_stored _ _ _).1]
  exact hc.live

theorem Reader.ask_count (c : Reader) (p : Nat) (n : Word) : pageWord (c.ask p n).req 4 = n :=
  (pageWord_stored _ _ _).2

/-- **`read` of bytes that fit a page.** -/
theorem read_spec (hf : f ∈ files) (hc : Ready files f i p c) (tot : Nat) {n : Word}
    (hfit : min n.toNat (c.left f p) ≤ BLKSIZE) :
    wp (read p tot n)
      (fun r c' => r.toNat = min n.toNat (c.left f p) ∧ Ready files f i p c' ∧
        Held files f c.srv.disk c'.srv.disk ∧ c'.offset p = c.offset p + r.toNat ∧
        Filled c'.srv.disk f (c.offset p) (c.offset p + r.toNat) ∧
        c'.buf = stored c.buf tot (fileBytes c'.srv.disk f (c.offset p) r.toNat))
      (fun _ c' => Full c'.srv.disk ∧ Hole c.srv.disk f) c := by
  have hserved := serveRead_spec (s := c.ask p n) hf hc.inv hc.apart (c.ask_writable p n)
    ⟨hc.openOn.page, hc.openOn.file⟩ (hc.finds n) hc.offset
    (by rw [c.ask_count]; exact hfit)
  rw [c.ask_count] at hserved
  refine wp_read (X := fun s' => Full s'.disk ∧ Hole c.srv.disk f) hc.mode hserved ?_
  intro r s' hs
  have hinv : FsInv files ∅ (c.ask p n).disk := hc.inv
  obtain ⟨hheld, htab, hoff, hoff', hfill, hreq⟩ := hs.next hf hinv hc.offset
  have hr : r.toNat = min n.toNat (c.left f p) := hs.1
  unfold BLKSIZE at hfit
  have hsmall : r.toNat ≤ 4096 := by omega
  rw [if_neg (not_slt_zero (by omega)), if_neg (not_not.mpr (BitVec.le_def.mpr (by omega))),
    if_neg (show ¬ ¬ r.sle 4096#32 = true by
      rw [not_not, sle_iff (by omega) (by decide)]
      exact hsmall)]
  refine wp_bind_ok (show (modify _ : ReadM Unit) _ = .ok () _ from rfl) ?_
  refine ⟨hr, ?_, hheld, hoff, hfill, ?_⟩
  · -- the table has changed in the offset only
    have hmode : (s'.tab.fd p).fdOmode = (c.srv.tab.fd p).fdOmode ∧
        (s'.tab.fd p).fdFileId = (c.srv.tab.fd p).fdFileId := by
      rw [htab]
      show (Function.update c.srv.tab.fd p _ p).fdOmode = _ ∧
        (Function.update c.srv.tab.fd p _ p).fdFileId = _
      rw [Function.update_self]
      exact ⟨rfl, rfl⟩
    refine ⟨hheld.inv, hheld.apart, ?_, ?_, hoff', ?_⟩
    · rw [htab]
      exact ⟨hc.openOn.page, hc.openOn.file⟩
    · rw [hmode.2, ← hc.live, htab]
      exact openfileLookup_congr rfl rfl rfl _
    · rw [hmode.1]
      exact hc.mode
  · have hback := map_range_stored (c.ask p n).req
      (fileBytes s'.disk f (c.offset p) r.toNat)
    rw [fileBytes_length] at hback
    rw [hreq]
    exact congrArg (stored c.buf tot) hback

/-! ## §3. `readn`. -/

theorem readnLoop_spec (hf : f ∈ files) {n : Word} (k : Nat) :
    ∀ (tot : Word) (c : Reader), Ready files f i p c → tot.toNat ≤ n.toNat →
      n.toNat - tot.toNat < k → min (n.toNat - tot.toNat) (c.left f p) ≤ BLKSIZE →
      wp (readnLoop p n k tot)
        (fun r c' => ∃ m, m = min (n.toNat - tot.toNat) (c.left f p) ∧ r.toNat = tot.toNat + m ∧
          Held files f c.srv.disk c'.srv.disk ∧
          c'.buf = stored c.buf tot.toNat (fileBytes c'.srv.disk f (c.offset p) m))
        (fun _ c' => Full c'.srv.disk ∧ Hole c.srv.disk f) c := by
  induction k with
  | zero => exact fun tot c _ _ hk => absurd hk (by omega)
  | succ k ih =>
    intro tot c hc htot hk hfit
    unfold readnLoop
    by_cases hlt : tot < n
    · rw [if_pos hlt]
      rw [BitVec.lt_def] at hlt
      have hsub : (n - tot).toNat = n.toNat - tot.toNat :=
        BitVec.toNat_sub_of_le (BitVec.le_def.mpr htot)
      refine wp_seq (read_spec hf hc tot.toNat (by rw [hsub]; exact hfit)) ?_
      rintro m c₁ ⟨hm, hc₁, hheld, hoff, hfill, hbuf⟩
      rw [hsub] at hm
      unfold BLKSIZE at hfit
      rw [if_neg (not_slt_zero (by omega))]
      by_cases h0 : m = 0#32
      · rw [if_pos h0]
        subst h0
        exact ⟨0, hm, rfl, hheld, hbuf⟩
      · rw [if_neg h0]
        have hpos := toNat_ne_zero h0
        have hadd : (tot + m).toNat = tot.toNat + m.toNat := by
          rw [BitVec.toNat_add_of_lt]
          have := n.isLt
          omega
        have hsize := hheld.grows.fileSize_eq hf
        have hleft : c₁.left f p = c.left f p - m.toNat := by
          unfold Reader.left
          rw [hsize, hoff]
          omega
        refine wp_mono (ih (tot + m) c₁ hc₁ (by omega) (by omega)
          (by unfold BLKSIZE; omega)) ?_ ?_
        · rintro r c₂ ⟨m₂, hm₂, hr, hheld₂, hbuf₂⟩
          refine ⟨m.toNat + m₂, by omega, by omega, hheld.trans hf hheld₂, ?_⟩
          -- what the first pass has read still is what the file shows
          have hlen := fileBytes_length c₁.srv.disk f (c.offset p) m.toNat
          have happ := stored_append (fileBytes c₁.srv.disk f (c.offset p) m.toNat) c.buf tot.toNat
            (fileBytes c₂.srv.disk f (c.offset p + m.toNat) m₂)
          rw [hlen] at happ
          rw [hbuf₂, hbuf, hadd, hoff, happ, ← hheld₂.fileBytes_eq hf hfill, fileBytes_append]
        · exact fun e c₂ he => ⟨he.1, hheld.hole hc.inv hf he.2⟩
    · rw [if_neg hlt]
      rw [BitVec.lt_def] at hlt
      refine ⟨0, by omega, rfl, Held.refl hc.inv hc.apart, ?_⟩
      exact (stored_nil _ _).symm

/-- **More than a page stops the client**, if it does not stop the server. -/
theorem readn_large (hf : f ∈ files) (hc : Ready files f i p c) {n : Word}
    (hlarge : BLKSIZE < min n.toNat (c.left f p)) (r : Word) (c' : Reader) :
    readn p n c ≠ .ok r c' := by
  have hsize := hc.inv.size_le f hf
  have hlt : (c.srv.tab.fd p).fdOffset.toNat < fileSize c.srv.disk f := by
    unfold Reader.left Reader.offset at hlarge
    omega
  have hcount := serveRead_count (s := c.ask p n) (c.ask_writable p n).1
    ⟨hc.openOn.page, hc.openOn.file⟩ (hc.finds n) hsize hlt
  rw [c.ask_count] at hcount
  have hread : wp (read p 0 n) (fun _ _ => False) (fun _ _ => True) c := by
    refine wp_read (X := fun _ => True) hc.mode hcount ?_
    intro r s' hr
    replace hr : r.toNat = min n.toNat (c.left f p) := hr
    have hmax : c.left f p < 2 ^ 31 := by
      unfold MAXFILESIZE NDIRECT NINDIRECT BLKSIZE at hsize
      unfold Reader.left
      omega
    rw [if_neg (not_slt_zero (by omega)), if_neg (not_not.mpr (BitVec.le_def.mpr (by omega))),
      if_pos (show ¬ r.sle 4096#32 = true by
        rw [sle_iff (by omega) (by decide)]
        unfold BLKSIZE at hlarge
        show ¬ r.toNat ≤ 4096
        omega)]
    trivial
  have hn : (0#32 : Word) < n := by
    show 0 < n.toNat
    omega
  intro hrun
  unfold readn readnLoop at hrun
  rw [if_pos hn] at hrun
  obtain ⟨m, c₁, hm, -⟩ := bind_inv hrun
  have hzero : n - 0#32 = n := BitVec.sub_zero n
  rw [hzero] at hm
  exact wp_ok hread hm

/-! ## §4. The theorem. -/

/-- **Reads through a shared descriptor partition the file.**  The replies to
reads of up to a page, whoever sends them, are consecutive pieces of the file
from the position of the descriptor on; the server stops only if it meets a
hole of the file on a full disk.  A client that reads alone with `readn` gets
what it asks for, or what there is, exactly if this fits a page. -/
theorem reads_partition {s : Srv} (hs : Consistent s.disk) (hf : f ∈ allFiles s.disk)
    (ho : OpenOn s.tab i p f) (hoff : 0 ≤ (s.tab.fd p).fdOffset.toInt) :
    (∀ (mem : Bool) (id : Word) (reqs : List ReadReq),
      (∀ q ∈ reqs, q.Asks s.tab id i ∧ q.n ≤ BLKSIZE) →
      wp (serveReads mem reqs)
        (fun as s' => ∃ replies : List Reply, as = replies.map some ∧
          replies.map (·.who) = reqs.map (·.who) ∧
          replies.map (fun a => a.ret.toNat) =
            shares (fileSize s.disk f) (s.tab.fd p).fdOffset.toNat (reqs.map (·.n)) ∧
          (∀ a ∈ replies, a.data.length = a.ret.toNat) ∧
          replies.flatMap (·.data) = fileBytes s'.disk f (s.tab.fd p).fdOffset.toNat
            (min (reqs.map (·.n)).sum (fileSize s.disk f - (s.tab.fd p).fdOffset.toNat)))
        (fun _ s' => Full s'.disk ∧ Hole s.disk f) s) ∧
    ∀ (c : Reader) (n : Word), c.srv = s →
      openfileLookup s.tab (s.tab.fd p).fdFileId = .ok i →
      (s.tab.fd p).fdOmode &&& O_ACCMODE ≠ O_WRONLY →
      (min n.toNat (c.left f p) ≤ BLKSIZE →
        wp (readn p n)
          (fun r c' => r.toNat = min n.toNat (c.left f p) ∧
            c'.buf = stored c.buf 0 (fileBytes c'.srv.disk f (c.offset p) r.toNat))
          (fun _ c' => Full c'.srv.disk ∧ Hole s.disk f) c) ∧
      (BLKSIZE < min n.toNat (c.left f p) → ∀ r c', readn p n c ≠ .ok r c') := by
  have hoff' := (toNat_of_nonneg hoff).1
  have ha := Consistent.recordApart hs hf
  refine ⟨?_, ?_⟩
  · intro mem id reqs hqs
    refine wp_mono (serveReads_spec (i := i) hf reqs s hs ha ho hoff' hqs) ?_ (fun _ _ h => h)
    rintro as s' ⟨replies, rfl, hsl⟩
    refine ⟨replies, rfl, hsl.who, hsl.ret, hsl.length, ?_⟩
    rw [hsl.data, hsl.ret, shares_sum]
  · rintro c n rfl hlive hmode
    have hc : Ready (allFiles c.srv.disk) f i p c := ⟨hs, ha, ho, hlive, hoff', hmode⟩
    refine ⟨fun hfit => ?_, fun hlarge => readn_large hf hc hlarge⟩
    refine wp_mono (readnLoop_spec hf (n.toNat + 1) 0#32 c hc (Nat.zero_le _)
      (Nat.lt_succ_of_le (Nat.sub_le _ _)) hfit) ?_ (fun _ _ h => h)
    rintro r c' ⟨m, hm, hr, -, hbuf⟩
    replace hr : r.toNat = m := hr.trans (Nat.zero_add m)
    refine ⟨hr.trans hm, ?_⟩
    rw [hr]
    exact hbuf

/-! ## §5. An example. -/

/-- A server with one open file of `size` bytes, slot 0 and id 1024. -/
@[irreducible] def server (size : Word) : Srv where
  disk := putWord smallDisk openA.blk openA.fSize size
  tab := firstOpen.t
  req _ := 0#8
  reqPerm := 0#32

/-- A request of `n` bytes by `who`, when two environments have the file. -/
def request (who n : Word) : ReadReq where
  who := who
  page := stored (fun _ => 0#8) 0 (wordBytes 1024#32 ++ wordBytes n)
  perm := PTE_P ||| PTE_W ||| PTE_U
  maps := Function.update (fun _ => 0) 0 2

def reader (size : Word) : Reader := ⟨server size, fun _ => 0#8, fun _ => 0#8⟩

theorem openA_mem : openA ∈ allFiles smallDisk :=
  smallDisk_isFile (k := 0) rfl rfl (by decide)

theorem server_disk (size : Word) :
    (server size).disk = putWord smallDisk openA.blk openA.fSize size := by
  unfold server
  rfl

theorem server_tab (size : Word) : (server size).tab = firstOpen.t := by
  unfold server
  rfl

/-- The file is longer than it was, and has no blocks yet. -/
theorem server_sound {size : Word} (h : size.toNat ≤ MAXFILESIZE) :
    Consistent (server size).disk ∧ openA ∈ allFiles (server size).disk ∧
      fileSize (server size).disk openA = size.toNat := by
  obtain ⟨hs, hall, -, -, hsize, -⟩ := smallDisk_sound.enlarge openA_mem h
    (show fileSize smallDisk openA ≤ size.toNat from Nat.zero_le _)
  rw [server_disk, hall]
  exact ⟨hs.inv, openA_mem, hsize⟩

theorem reader_left {size : Word} (h : size.toNat ≤ MAXFILESIZE) :
    (reader size).left openA 0 = size.toNat := by
  have hoff : (reader size).offset 0 = 0 := by
    show ((server size).tab.fd 0).fdOffset.toNat = 0
    rw [server_tab]
    rfl
  unfold Reader.left
  rw [hoff]
  exact (server_sound h).2.2

theorem request_asks (who n : Word) : (request who n).Asks firstOpen.t 1024#32 0 := by
  refine ⟨(pageWord_stored _ _ _).1, ?_, ?_, ?_, rfl⟩
  · show (PTE_P ||| PTE_W ||| PTE_U) &&& PTE_P ≠ 0#32
    decide
  · show (PTE_P ||| PTE_W ||| PTE_U) &&& PTE_U ≠ 0#32
    decide
  · show (PTE_P ||| PTE_W ||| PTE_U) &&& PTE_W ≠ 0#32
    decide

/-- Two environments read three bytes each of a file of five. -/
theorem reads_partition_five :
    wp (serveReads true [request 1#32 3#32, request 2#32 3#32])
      (fun as s' => ∃ replies : List Reply, as = replies.map some ∧
        replies.map (fun a => a.ret.toNat) = [3, 2] ∧
        replies.flatMap (·.data) = fileBytes s'.disk openA 0 5)
      (fun _ s' => Full s'.disk) (server 5#32) ∧
    wp (readn 0 3#32) (fun r _ => r.toNat = 3) (fun _ c' => Full c'.srv.disk) (reader 5#32) := by
  obtain ⟨hcons, hmem, hsize⟩ := server_sound (show (5#32).toNat ≤ MAXFILESIZE by decide)
  obtain ⟨h1, h2⟩ := reads_partition (s := server 5#32) (i := 0) (p := 0) hcons hmem
    (by rw [server_tab]; exact ⟨rfl, rfl⟩) (by rw [server_tab]; decide)
  have hn : ∀ who, (request who 3#32).n = 3 :=
    fun who => congrArg BitVec.toNat (pageWord_stored _ _ _).2
  have hsum : ([request 1#32 3#32, request 2#32 3#32].map (·.n)) = [3, 3] := by
    show [(request 1#32 3#32).n, (request 2#32 3#32).n] = _
    rw [hn, hn]
  refine ⟨?_, ?_⟩
  · have hasks : ∀ q ∈ [request 1#32 3#32, request 2#32 3#32],
        q.Asks (server 5#32).tab 1024#32 0 ∧ q.n ≤ BLKSIZE := by
      intro q hq
      simp only [List.mem_cons, List.not_mem_nil, or_false] at hq
      rcases hq with rfl | rfl
      · exact ⟨by rw [server_tab]; exact request_asks _ _, by decide⟩
      · exact ⟨by rw [server_tab]; exact request_asks _ _, by decide⟩
    have hreads := h1 true 1024#32 _ hasks
    have hoff : ((server 5#32).tab.fd 0).fdOffset.toNat = 0 := by
      rw [server_tab]
      rfl
    rw [hsum, hsize, hoff] at hreads
    apply wp_mono hreads
    · rintro as s' ⟨replies, rfl, -, hret, -, hdata⟩
      exact ⟨replies, rfl, hret, hdata⟩
    · exact fun _ _ h => h.1
  · have hleft := reader_left (show (5#32).toNat ≤ MAXFILESIZE by decide)
    have h3 := (h2 (reader 5#32) 3#32 rfl (by rw [server_tab]; rfl) (by rw [server_tab]; decide)).1
    rw [hleft] at h3
    exact wp_mono (h3 (by decide)) (fun r _ h => h.1) (fun _ _ h => h.1)

/-- **A `readn` of 4097 bytes** of a file that has them does not return: the
server answers 4097 and `assert(r <= PGSIZE)` fails. -/
theorem readn_stops : (reader 8192#32).left openA 0 = 8192 ∧
    ∀ r c', readn 0 4097#32 (reader 8192#32) ≠ .ok r c' := by
  have hmax : (8192#32).toNat ≤ MAXFILESIZE := by decide
  obtain ⟨hcons, hmem, -⟩ := server_sound hmax
  have hc : Ready (allFiles (server 8192#32).disk) openA 0 0 (reader 8192#32) := by
    have htab : (reader 8192#32).srv.tab = firstOpen.t := server_tab _
    refine ⟨hcons, Consistent.recordApart hcons hmem, ?_, ?_, ?_, ?_⟩
    · rw [htab]
      exact ⟨rfl, rfl⟩
    · rw [htab]
      rfl
    · rw [htab]
      decide
    · rw [htab]
      decide
  refine ⟨reader_left hmax, readn_large hmem hc ?_⟩
  rw [reader_left hmax]
  decide

end Jos.Readn
