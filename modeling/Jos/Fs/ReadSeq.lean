/-
  Jos.Fs.ReadSeq — **READS THROUGH A SHARED DESCRIPTOR** (`serve_read`, `devfile_read`, `readn`).

  The position in an open file is kept in its `Fd` page, which the server
  advances with every read.  So the replies to reads through one descriptor,
  whoever sent them, are consecutive pieces of the file.

  A client may ask for more than a page.  `serve_read` does not bound the
  request: it writes the reply past the page, into the disk map, and the client
  stops at `assert(r <= PGSIZE)`.
-/
import Jos.Fs.Bytes
import Jos.Fs.Serve

namespace Jos

open Exec
open Function (update update_eq_self update_of_ne update_self)

variable {files : Set FileP} {f : FileP}

/-! ## §1. The request page. -/

/-- `xs` stored from `k` on. -/
def stored (m : Nat → Byte) (k : Nat) (xs : List Byte) : Nat → Byte := fun j =>
  if j < k then m j else (xs[j - k]?).getD (m j)

theorem stored_nil (m : Nat → Byte) (k : Nat) : stored m k [] = m := by
  funext j
  unfold stored
  split <;> rfl

theorem stored_cons (m : Nat → Byte) (k : Nat) (x : Byte) (xs : List Byte) :
    stored (update m k x) (k + 1) xs = stored m k (x :: xs) := by
  funext j
  unfold stored
  rcases Nat.lt_trichotomy j k with hlt | rfl | hgt
  · rw [if_pos (by omega), if_pos hlt, update_of_ne (by omega)]
  · rw [if_pos (by omega), if_neg (by omega), update_self, Nat.sub_self]
    rfl
  · rw [if_neg (by omega), if_neg (by omega), update_of_ne (by omega),
      show j - k = j - (k + 1) + 1 by omega, List.getElem?_cons_succ]

theorem stored_append (xs : List Byte) :
    ∀ (m : Nat → Byte) (k : Nat) (ys : List Byte),
      stored (stored m k xs) (k + xs.length) ys = stored m k (xs ++ ys) := by
  induction xs with
  | nil =>
    intro m k ys
    rw [stored_nil]
    rfl
  | cons x xs ih =>
    intro m k ys
    rw [← stored_cons, List.cons_append, ← stored_cons m k x (xs ++ ys), ← ih,
      List.length_cons, show k + (xs.length + 1) = k + 1 + xs.length by omega]

/-- What was stored can be read back. -/
theorem map_range_stored (m : Nat → Byte) (xs : List Byte) :
    (List.range xs.length).map (stored m 0 xs) = xs := by
  apply List.ext_getElem
  · simp
  · intro j hj hj'
    rw [List.getElem_map, List.getElem_range]
    unfold stored
    rw [if_neg (by omega), Nat.sub_zero, List.getElem?_eq_getElem hj']
    rfl

def pageWord (m : Nat → Byte) (k : Nat) : Word := m (k + 3) ++ m (k + 2) ++ m (k + 1) ++ m k

/-- The server can read and write the request page. -/
def Writable (s : Srv) : Prop := s.reqPerm &&& PTE_U ≠ 0#32 ∧ s.reqPerm &&& PTE_W ≠ 0#32

section

variable {s : Srv}

theorem reqByte_ok (hu : s.reqPerm &&& PTE_U ≠ 0#32) {k : Nat} (hk : k < BLKSIZE) :
    reqByte k s = .ok (s.req k) s := by
  unfold reqByte
  rw [bind_get, if_pos hk, if_neg hu]
  rfl

theorem reqWord_ok (hu : s.reqPerm &&& PTE_U ≠ 0#32) {k : Nat} (hk : k + 3 < BLKSIZE) :
    reqWord k s = .ok (pageWord s.req k) s := by
  unfold reqWord
  rw [bind_ok (reqByte_ok hu (by omega)), bind_ok (reqByte_ok hu (by omega)),
    bind_ok (reqByte_ok hu (by omega)), bind_ok (reqByte_ok hu (by omega))]
  rfl

/-- **Bytes that fit the page** are stored there, and nowhere else. -/
theorem putReqBytes_ok (xs : List Byte) :
    ∀ (k : Nat) (s : Srv), Writable s → k + xs.length ≤ BLKSIZE →
      putReqBytes k xs s = .ok () { s with req := stored s.req k xs } := by
  induction xs with
  | nil =>
    intro k s _ _
    rw [stored_nil]
    rfl
  | cons x xs ih =>
    intro k s hw hk
    rw [List.length_cons] at hk
    have hput : putReqByte k x s = .ok () { s with req := update s.req k x } := by
      unfold putReqByte
      rw [bind_get, if_pos (by omega),
        if_neg (not_or.mpr hw)]
      rfl
    show (putReqByte k x >>= fun _ => putReqBytes (k + 1) xs) s = _
    rw [bind_ok hput, ih (k + 1) { s with req := update s.req k x } hw (by omega),
      ← stored_cons]

theorem onDisk_ok {α : Type} {m : FsM α} {a : α} {d' : Disk} (h : m s.disk = .ok a d') :
    onDisk m s = .ok a { s with disk := d' } := by
  unfold onDisk
  rw [h]

theorem onDisk_error {α : Type} {m : FsM α} {e : String} {d' : Disk} (h : m s.disk = .error e d') :
    onDisk m s = .error (.panic e) { s with disk := d' } := by
  unfold onDisk
  rw [h]

/-- A function of `fs/fs.c`, run by a handler. -/
theorem wp_onDisk {α : Type} {m : FsM α} {Q : α → Disk → Prop} {X : Disk → Prop}
    (h : wp m Q (fun _ d' => X d') s.disk) :
    wp (onDisk m) (fun a s' => ∃ d', s' = { s with disk := d' } ∧ Q a d')
      (fun _ s' => X s'.disk) s := by
  unfold wp onDisk at *
  cases hm : m s.disk with
  | ok a d' =>
    rw [hm] at h
    exact ⟨d', rfl, h⟩
  | error e d' =>
    rw [hm] at h
    exact h

end

/-! ## §2. `file_read` into the page. -/

theorem chunk_toNat {stop pos : Word} (hpos : pos.toNat < 2 ^ 31) (hle : pos.toNat ≤ stop.toNat) :
    (chunk stop pos).toNat = min (4096 - pos.toNat % 4096) (stop.toNat - pos.toNat) := by
  have hrem := blockRest_toNat hpos
  have hsub : (stop - pos).toNat = stop.toNat - pos.toNat :=
    BitVec.toNat_sub_of_le (BitVec.le_def.mpr hle)
  unfold chunk umin
  split
  · rename_i h
    rw [BitVec.le_def, hrem, hsub] at h
    omega
  · rename_i h
    rw [BitVec.le_def, hrem, hsub] at h
    omega

/-- The loop has filled the page from `buf` on with the bytes of `f` from `a`
up to `b`. -/
def ReadInto (files : Set FileP) (f : FileP) (a b buf : Nat) (s s' : Srv) : Prop :=
  ∃ d', s' = { s with disk := d', req := stored s.req buf (fileBytes d' f a (b - a)) } ∧
    Held files f s.disk d' ∧ Filled d' f a b

theorem ReadInto.refl {s : Srv} (h : FsInv files ∅ s.disk) (ha : RecordApart s.disk f)
    (a buf : Nat) : ReadInto files f a a buf s s := by
  refine ⟨s.disk, ?_, Held.refl h ha, fun k hk hk' => absurd hk (by omega)⟩
  rw [Nat.sub_self]
  show s = { s with disk := s.disk, req := stored s.req buf [] }
  rw [stored_nil]

/-- Two pieces. -/
theorem ReadInto.trans (hf : f ∈ files) {a b c buf : Nat} {s s₁ s₂ : Srv} (hab : a ≤ b)
    (hbc : b ≤ c) (h : ReadInto files f a b buf s s₁)
    (h' : ReadInto files f b c (buf + (b - a)) s₁ s₂) : ReadInto files f a c buf s s₂ := by
  obtain ⟨d₁, rfl, hh, hfill⟩ := h
  obtain ⟨d₂, rfl, hh', hfill'⟩ := h'
  refine ⟨d₂, ?_, hh.trans hf hh', ?_⟩
  · have hlen := fileBytes_length d₁ f a (b - a)
    have happ := stored_append (fileBytes d₁ f a (b - a)) s.req buf (fileBytes d₂ f b (c - b))
    rw [hlen] at happ
    rw [happ]
    -- the first piece still is what the file shows
    have hsame := hh'.fileBytes_eq hf (n := b - a)
      (show Filled d₁ f a (a + (b - a)) by rw [Nat.add_sub_of_le hab]; exact hfill)
    have hall := fileBytes_append d₂ f a (b - a) (c - b)
    rw [Nat.add_sub_of_le hab, show b - a + (c - b) = c - a by omega] at hall
    rw [← hsame, hall]
  · intro k hk hkc
    by_cases hkb : k < b
    · exact hfill.held hh' hf k hk hkb
    · exact hfill' k (by omega) hkc

/-- **The loop of `file_read`**, for bytes that fit the page. -/
theorem fileReadReqLoop_spec (hf : f ∈ files) {stop : Word} (n : Nat) :
    ∀ (pos : Word) (buf : Nat) (s : Srv), FsInv files ∅ s.disk → RecordApart s.disk f →
      Writable s → pos.toNat ≤ stop.toNat → stop.toNat ≤ fileSize s.disk f →
      stop.toNat - pos.toNat ≤ n → buf + (stop.toNat - pos.toNat) ≤ BLKSIZE →
      wp (fileReadReqLoop f stop n pos buf)
        (fun r s' => r = none ∧ ReadInto files f pos.toNat stop.toNat buf s s')
        (fun _ s' => Full s'.disk ∧ Hole s.disk f) s := by
  induction n with
  | zero =>
    intro pos buf s h ha _ hle _ hn _
    refine ⟨rfl, ?_⟩
    rw [show stop.toNat = pos.toNat by omega]
    exact ReadInto.refl h ha _ _
  | succ n ih =>
    intro pos buf s h ha hw hle hstop hn hbuf
    unfold fileReadReqLoop
    by_cases hlt : pos < stop
    · rw [if_pos hlt]
      obtain ⟨hpos, hblk⟩ := block_in_file h hf hstop hlt
      have hdiv := sdiv_toNat hpos
      have hc := chunk_toNat hpos hle
      have hnext : (pos + chunk stop pos).toNat = pos.toNat + (chunk stop pos).toNat := by
        rw [BitVec.toNat_add_of_lt]
        have := stop.isLt
        omega
      generalize pos.sdiv 4096#32 = filebno at hblk hdiv ⊢
      generalize chunk stop pos = c at hc hnext ⊢
      refine wp_seq (wp_onDisk (fileGetBlock_held h ha hf hblk)) ?_
      rintro r s₁ ⟨d₁, rfl, b, rfl, hheld, hset, hb⟩
      rw [hdiv] at hset hb
      have hmove := diskBytes_file (n := c.toNat) hpos (by omega) hb
      refine wp_bind_ok (onDisk_ok (s := { s with disk := d₁ }) hmove) ?_
      have hlen := fileBytes_length d₁ f pos.toNat c.toNat
      refine wp_bind_ok (putReqBytes_ok (fileBytes d₁ f pos.toNat c.toNat) buf
        { s with disk := d₁ } hw (by omega)) ?_
      -- what this pass has done
      have hpass : ReadInto files f pos.toNat (pos + c).toNat buf s
          { s with disk := d₁, req := stored s.req buf (fileBytes d₁ f pos.toNat c.toNat) } := by
        refine ⟨d₁, ?_, hheld, ?_⟩
        · rw [hnext, Nat.add_sub_cancel_left]
        · intro k hk hk'
          have hkd : k / BLKSIZE = pos.toNat / 4096 := by
            unfold BLKSIZE
            omega
          rw [hkd]
          refine ⟨?_, hset⟩
          have := h.block_lt hf hblk
          omega
      have hsize := hheld.grows.fileSize_eq hf
      refine wp_mono (ih (pos + c) (buf + c.toNat)
        { s with disk := d₁, req := stored s.req buf (fileBytes d₁ f pos.toNat c.toNat) }
        hheld.inv hheld.apart hw (by omega) (by rw [hsize]; exact hstop) (by omega) (by omega))
        ?_ ?_
      · intro r s₂ hr
        refine ⟨hr.1, hpass.trans hf (by omega) (by omega) ?_⟩
        rw [hnext, Nat.add_sub_cancel_left]
        have h2 := hr.2
        rw [hnext] at h2
        exact h2
      · intro e s₂ he
        exact ⟨he.1, hheld.hole h hf he.2⟩
    · rw [if_neg hlt]
      rw [BitVec.lt_def] at hlt
      refine ⟨rfl, ?_⟩
      rw [show stop.toNat = pos.toNat by omega]
      exact ReadInto.refl h ha _ _

theorem umin_toNat (a b : Word) : (umin a b).toNat = min a.toNat b.toNat := by
  unfold umin
  split
  · rename_i h
    rw [BitVec.le_def] at h
    omega
  · rename_i h
    rw [BitVec.le_def] at h
    omega

theorem sle_iff {a b : Word} (ha : a.toNat < 2 ^ 31) (hb : b.toNat < 2 ^ 31) :
    a.sle b = true ↔ a.toNat ≤ b.toNat := by
  rw [BitVec.sle_iff_toInt_le, BitVec.toInt_eq_toNat_of_lt (by omega),
    BitVec.toInt_eq_toNat_of_lt (by omega)]
  omega

/-- **`file_read`** of bytes that fit the page. -/
theorem fileReadReq_spec (hf : f ∈ files) {s : Srv} {count offset : Word} (h : FsInv files ∅ s.disk)
    (ha : RecordApart s.disk f) (hw : Writable s) (hoff : offset.toNat < 2 ^ 31)
    (hfit : min count.toNat (fileSize s.disk f - offset.toNat) ≤ BLKSIZE) :
    wp (fileReadReq f count offset)
      (fun r s' => r.toNat = min count.toNat (fileSize s.disk f - offset.toNat) ∧
        ReadInto files f offset.toNat (offset.toNat + r.toNat) 0 s s')
      (fun _ s' => Full s'.disk ∧ Hole s.disk f) s := by
  have hmax : fileSize s.disk f < 2 ^ 31 := by
    have := h.size_le f hf
    unfold MAXFILESIZE NDIRECT NINDIRECT BLKSIZE at this
    omega
  refine wp_bind_ok (onDisk_ok (load_ok _ _ s.disk)) ?_
  by_cases hle : (s.disk f.blk f.fSize).sle offset = true
  · rw [if_pos hle]
    rw [sle_iff hmax hoff] at hle
    refine ⟨?_, ReadInto.refl h ha _ _⟩
    show 0 = _
    unfold fileSize
    omega
  · rw [if_neg hle]
    have hstop := read_stop count (h.size_le f hf) hoff hle
    rw [sle_iff hmax hoff] at hle
    have hsub : (s.disk f.blk f.fSize - offset).toNat = fileSize s.disk f - offset.toNat :=
      BitVec.toNat_sub_of_le (BitVec.le_def.mpr (by omega))
    have hcount : (umin count (s.disk f.blk f.fSize - offset)).toNat =
        min count.toNat (fileSize s.disk f - offset.toNat) := by
      rw [umin_toNat, hsub]
    have hle' : (umin count (s.disk f.blk f.fSize - offset)).toNat ≤
        fileSize s.disk f - offset.toNat := by
      rw [hcount]
      exact Nat.min_le_right _ _
    generalize umin count (s.disk f.blk f.fSize - offset) = c at hstop hcount hle' ⊢
    have hend : (offset + c).toNat = offset.toNat + c.toNat := by
      rw [BitVec.toNat_add_of_lt]
      omega
    refine wp_seq (fileReadReqLoop_spec hf c.toNat offset 0 s h ha hw (by omega) hstop (by omega)
      (by omega)) ?_
    rintro r s' ⟨rfl, hread⟩
    refine ⟨hcount, ?_⟩
    rw [← hend]
    exact hread

/-! ## §3. A read of any size. -/

/-- Block numbers of a file are never out of range; all that can go wrong is a
panic. -/
theorem fileGetBlock_panics {filebno : Word} (hn : filebno.toNat < NDIRECT + NINDIRECT) (d : Disk) :
    wp (fileGetBlock f filebno) (fun r _ => ∃ b, r = .ok b) (fun _ _ => True) d := by
  have hwalk : wp (fileBlockWalk f filebno true) (fun r _ => ∃ loc, r = .ok loc)
      (fun _ _ => True) d := by
    unfold fileBlockWalk
    by_cases hlt : filebno.toNat < NDIRECT
    · rw [if_pos hlt]
      exact ⟨_, rfl⟩
    · rw [if_neg hlt, if_pos hn]
      refine wp_bind_ok (load_ok _ _ d) ?_
      by_cases hi : d f.blk f.fIndirect ≠ 0#32
      · rw [if_pos hi]
        exact wp_seq (wp_trivial _ _) fun _ _ _ => ⟨_, rfl⟩
      · rw [if_neg hi, if_pos rfl]
        refine wp_seq (wp_trivial _ _) fun _ _ _ => wp_seq (wp_trivial _ _) fun _ _ _ => ?_
        refine wp_seq (wp_trivial _ _) fun _ _ _ => wp_seq (wp_trivial _ _) fun _ _ _ => ?_
        exact wp_seq (wp_trivial _ _) fun _ _ _ => wp_seq (wp_trivial _ _) fun _ _ _ => ⟨_, rfl⟩
  refine wp_seq hwalk ?_
  rintro r d₁ ⟨loc, rfl⟩
  refine wp_seq (wp_trivial _ _) fun w d₂ _ => ?_
  have hend : ∀ d, wp (do return .ok (← diskaddr (← load loc.1 loc.2)) : FsM (Except Word Nat))
      (fun r _ => ∃ b, r = .ok b) (fun _ _ => True) d := fun d =>
    wp_seq (wp_trivial _ _) fun _ _ _ => wp_seq (wp_trivial _ _) fun _ _ _ => ⟨_, rfl⟩
  by_cases hw : w = 0#32
  · rw [if_pos hw]
    refine wp_seq (wp_trivial _ _) fun _ _ _ => wp_seq (wp_trivial _ _) fun _ d₃ _ => hend d₃
  · rw [if_neg hw]
    exact hend d₂

theorem fileReadReqLoop_none {stop : Word} (hstop : stop.toNat ≤ MAXFILESIZE) (n : Nat) :
    ∀ (pos : Word) (buf : Nat) (s : Srv),
      wp (fileReadReqLoop f stop n pos buf) (fun r _ => r = none) (fun _ _ => True) s := by
  induction n with
  | zero => exact fun _ _ _ => rfl
  | succ n ih =>
    intro pos buf s
    unfold fileReadReqLoop
    by_cases hlt : pos < stop
    · rw [if_pos hlt]
      have hblk : (pos.sdiv 4096#32).toNat < NDIRECT + NINDIRECT := by
        rw [BitVec.lt_def] at hlt
        unfold MAXFILESIZE NDIRECT NINDIRECT BLKSIZE at *
        rw [sdiv_toNat (by omega)]
        omega
      generalize pos.sdiv 4096#32 = filebno at hblk ⊢
      generalize chunk stop pos = c
      refine wp_seq (wp_onDisk (fileGetBlock_panics hblk s.disk)) ?_
      rintro r s₁ ⟨d₁, rfl, b, rfl⟩
      refine wp_seq (wp_trivial _ _) fun xs s₂ _ => wp_seq (wp_trivial _ _) fun _ s₃ _ => ?_
      exact ih _ _ s₃
    · rw [if_neg hlt]
      rfl

/-- If a read returns, it returns what it was asked for, or what there is. -/
theorem fileReadReq_count {s : Srv} {count offset : Word}
    (hsize : fileSize s.disk f ≤ MAXFILESIZE) (hlt : offset.toNat < fileSize s.disk f) :
    wp (fileReadReq f count offset)
      (fun r _ => r.toNat = min count.toNat (fileSize s.disk f - offset.toNat))
      (fun _ _ => True) s := by
  have hmax : fileSize s.disk f < 2 ^ 31 := by
    unfold MAXFILESIZE NDIRECT NINDIRECT BLKSIZE at hsize
    omega
  have hle : ¬ (s.disk f.blk f.fSize).sle offset = true := by
    rw [sle_iff hmax (by omega)]
    exact Nat.not_le_of_lt hlt
  refine wp_bind_ok (onDisk_ok (load_ok _ _ s.disk)) ?_
  rw [if_neg hle]
  have hstop := read_stop count hsize (by omega) hle
  refine wp_seq (fileReadReqLoop_none (Nat.le_trans hstop hsize) _ _ _ s) ?_
  rintro r s' rfl
  show (umin count (s.disk f.blk f.fSize - offset)).toNat = _
  rw [umin_toNat, BitVec.toNat_sub_of_le (BitVec.le_def.mpr (Nat.le_of_lt hlt))]
  rfl

/-! ## §4. `serve_read`. -/

/-- The table after a read of `r` bytes through the page `p`. -/
def OpenTab.advance (t : OpenTab) (p : Nat) (r : Word) : OpenTab :=
  { t with fd := update t.fd p { t.fd p with fdOffset := (t.fd p).fdOffset + r } }

theorem OpenTab.advance_zero (t : OpenTab) (p : Nat) : t.advance p 0#32 = t := by
  unfold OpenTab.advance
  have h : { t.fd p with fdOffset := (t.fd p).fdOffset + 0#32 } = t.fd p := by
    rw [BitVec.add_zero]
  rw [h, update_eq_self]

theorem OpenTab.advance_offset (t : OpenTab) (p : Nat) (r : Word) :
    ((t.advance p r).fd p).fdOffset = (t.fd p).fdOffset + r := by
  show (update t.fd p _ p).fdOffset = _
  rw [update_self]

/-- Slot `i` is open on `f`, with the `Fd` page `p`. -/
structure OpenOn (t : OpenTab) (i p : Nat) (f : FileP) : Prop where
  page : t.fdPage i = some p
  file : (t.opentab i).oFile = f

theorem isPos_iff {r : Word} (hr : r.toNat < 2 ^ 31) : isPos r = true ↔ r ≠ 0#32 := by
  unfold isPos
  rw [BitVec.slt_iff_toInt_lt, BitVec.toInt_eq_toNat_of_lt (show 2 * r.toNat < 2 ^ 32 by omega)]
  constructor
  · rintro h rfl
    exact absurd h (by decide)
  · intro h
    have := toNat_ne_zero h
    show (0 : Int) < _
    omega

section
variable {s : Srv} {i p : Nat}

theorem lookupReq_ok (hu : s.reqPerm &&& PTE_U ≠ 0#32) :
    lookupReq s = .ok (openfileLookup s.tab (pageWord s.req 0)) s := by
  unfold lookupReq
  rw [bind_ok (reqWord_ok hu (by decide))]
  rfl

theorem getOffset_ok (hp : s.tab.fdPage i = some p) :
    getOffset i s = .ok (s.tab.fd p).fdOffset s := by
  unfold getOffset
  rw [bind_get, hp]
  rfl

theorem addOffset_ok (hp : s.tab.fdPage i = some p) (r : Word) :
    addOffset i r s = .ok () { s with tab := s.tab.advance p r } := by
  unfold addOffset
  rw [bind_get, hp]
  rfl

end

/-- The `Fd` after a call that returned `r`: `if (r > 0) fd_offset += r`. -/
def OpenTab.moved (t : OpenTab) (p : Nat) (r : Word) : OpenTab :=
  if isPos r then t.advance p r else t

theorem moved_ok {s : Srv} {i p : Nat} (hp : s.tab.fdPage i = some p) (r : Word) :
    (do
      if isPos r then addOffset i r
      return r : SrvM Word) s = .ok r { s with tab := s.tab.moved p r } := by
  unfold OpenTab.moved
  by_cases hpos : isPos r = true
  · rw [if_pos hpos, if_pos hpos, bind_ok (addOffset_ok hp r)]
    rfl
  · rw [if_neg hpos, if_neg hpos]
    rfl

theorem OpenTab.moved_eq (t : OpenTab) (p : Nat) {r : Word} (hr : r.toNat < 2 ^ 31) :
    t.moved p r = t.advance p r := by
  unfold OpenTab.moved
  by_cases h0 : r = 0#32
  · rw [h0, OpenTab.advance_zero, ite_self]
  · rw [if_pos ((isPos_iff hr).mpr h0)]

/-- What one read of `n` bytes at most returns and leaves behind. -/
def ServedRead (files : Set FileP) (f : FileP) (p n : Nat) (s : Srv) (r : Word) (s' : Srv) : Prop :=
  r.toNat = min n (fileSize s.disk f - (s.tab.fd p).fdOffset.toNat) ∧
    ∃ s₁, ReadInto files f (s.tab.fd p).fdOffset.toNat ((s.tab.fd p).fdOffset.toNat + r.toNat) 0
      s s₁ ∧ s' = { s₁ with tab := s.tab.advance p r }

/-- `serve_read`, once the file has been looked up. -/
theorem serveRead_eq {s : Srv} {i p : Nat} (hu : s.reqPerm &&& PTE_U ≠ 0#32)
    (ho : OpenOn s.tab i p f) (hid : openfileLookup s.tab (pageWord s.req 0) = .ok i) :
    serveRead s = (do
      let r ← fileReadReq f (pageWord s.req 4) (s.tab.fd p).fdOffset
      if isPos r then addOffset i r
      return r : SrvM Word) s := by
  unfold serveRead
  rw [bind_ok (lookupReq_ok hu), hid]
  show (reqWord 4 >>= fun n => openFileOf i >>= fun g => getOffset i >>= fun off =>
    fileReadReq g n off >>= fun r => _) s = _
  rw [bind_ok (reqWord_ok hu (by decide)),
    bind_ok (show openFileOf i s = .ok f s by rw [← ho.file]; rfl), bind_ok (getOffset_ok ho.page)]

/-- **`serve_read`**, for bytes that fit the page. -/
theorem serveRead_spec (hf : f ∈ files) {s : Srv} {i p : Nat} (h : FsInv files ∅ s.disk)
    (ha : RecordApart s.disk f) (hw : Writable s) (ho : OpenOn s.tab i p f)
    (hid : openfileLookup s.tab (pageWord s.req 0) = .ok i)
    (hoff : (s.tab.fd p).fdOffset.toNat < 2 ^ 31) (hfit : min (pageWord s.req 4).toNat
      (fileSize s.disk f - (s.tab.fd p).fdOffset.toNat) ≤ BLKSIZE) :
    wp serveRead (ServedRead files f p (pageWord s.req 4).toNat s)
      (fun _ s' => Full s'.disk ∧ Hole s.disk f) s := by
  unfold wp
  rw [serveRead_eq hw.1 ho hid]
  refine wp_seq (fileReadReq_spec hf h ha hw hoff hfit) ?_
  rintro r s₁ ⟨hr, hread⟩
  have htab : s₁.tab = s.tab := by
    obtain ⟨d', rfl, _⟩ := hread
    rfl
  refine wp_of_ok (moved_ok (by rw [htab]; exact ho.page) _) ⟨hr, s₁, hread, ?_⟩
  unfold BLKSIZE at hfit
  rw [htab, OpenTab.moved_eq _ _ (by omega)]

/-- A read of any size that is not at the end. -/
theorem serveRead_count {s : Srv} {i p : Nat} (hu : s.reqPerm &&& PTE_U ≠ 0#32)
    (ho : OpenOn s.tab i p f) (hid : openfileLookup s.tab (pageWord s.req 0) = .ok i)
    (hsize : fileSize s.disk f ≤ MAXFILESIZE)
    (hlt : (s.tab.fd p).fdOffset.toNat < fileSize s.disk f) :
    wp serveRead
      (fun r _ => r.toNat =
        min (pageWord s.req 4).toNat (fileSize s.disk f - (s.tab.fd p).fdOffset.toNat))
      (fun _ _ => True) s := by
  unfold wp
  rw [serveRead_eq hu ho hid]
  refine wp_seq (fileReadReq_count hsize hlt) ?_
  intro r s' hr
  by_cases hpos : isPos r = true
  · rw [if_pos hpos]
    exact wp_seq (wp_trivial _ _) fun _ _ _ => hr
  · rw [if_neg hpos]
    exact hr

/-- Reading leaves the descriptor and the disk as they have to be for the next
read. -/
theorem ServedRead.next (hf : f ∈ files) {s s' : Srv} {p n : Nat} {r : Word}
    (h : FsInv files ∅ s.disk) (hs : ServedRead files f p n s r s')
    (hoff : (s.tab.fd p).fdOffset.toNat < 2 ^ 31) :
    Held files f s.disk s'.disk ∧ s'.tab = s.tab.advance p r ∧
      (s'.tab.fd p).fdOffset.toNat = (s.tab.fd p).fdOffset.toNat + r.toNat ∧
      (s'.tab.fd p).fdOffset.toNat < 2 ^ 31 ∧
      Filled s'.disk f (s.tab.fd p).fdOffset.toNat
        ((s.tab.fd p).fdOffset.toNat + r.toNat) ∧
      s'.req = stored s.req 0 (fileBytes s'.disk f (s.tab.fd p).fdOffset.toNat r.toNat) := by
  obtain ⟨hr, s₁, ⟨d', rfl, hheld, hfill⟩, rfl⟩ := hs
  have hmax := h.size_le f hf
  unfold MAXFILESIZE NDIRECT NINDIRECT BLKSIZE at hmax
  have hsum : ((s.tab.fd p).fdOffset + r).toNat = (s.tab.fd p).fdOffset.toNat + r.toNat := by
    rw [BitVec.toNat_add_of_lt]
    omega
  have hnew := s.tab.advance_offset p r
  refine ⟨hheld, rfl, ?_, ?_, hfill, ?_⟩
  · rw [hnew, hsum]
  · rw [hnew, hsum]
    omega
  · rw [Nat.add_sub_cancel_left]

/-! ## §5. Reads by several environments. -/

def FSREQ_READ : Word := 3#32

/-- A read request as it arrives: who sent it, its page, and how often the `Fd`
pages are mapped at that time. -/
structure ReadReq where
  who : Word
  page : Nat → Byte
  perm : Word
  maps : Nat → Nat

/-- `req->req_n`. -/
def ReadReq.n (q : ReadReq) : Nat := (pageWord q.page 4).toNat

def ReadReq.arrive (q : ReadReq) (s : Srv) : Srv :=
  { s with req := q.page, reqPerm := q.perm, tab := { s.tab with maps := q.maps } }

/-- What the requester finds when it has been answered. -/
structure Reply where
  who : Word
  ret : Word
  data : List Byte

/-- One request and its reply.  The reply stands in the page of the request. -/
def serveReadReq (mem : Bool) (q : ReadReq) : SrvM (Option Reply) := do
  modify q.arrive
  match ← serve mem FSREQ_READ with
  | none => return none
  | some (r, _) => return some ⟨q.who, r, (List.range r.toNat).map (← get).req⟩

def serveReads (mem : Bool) : List ReadReq → SrvM (List (Option Reply))
  | [] => return []
  | q :: qs => do
      let a ← serveReadReq mem q
      return a :: (← serveReads mem qs)

/-- The request is one for the file `id` of slot `i`, sent the way `fsipc`
does. -/
structure ReadReq.Asks (t : OpenTab) (id : Word) (i : Nat) (q : ReadReq) : Prop where
  names : pageWord q.page 0 = id
  present : q.perm &&& PTE_P ≠ 0#32
  user : q.perm &&& PTE_U ≠ 0#32
  write : q.perm &&& PTE_W ≠ 0#32
  /-- The file is open. -/
  live : openfileLookup { t with maps := q.maps } id = .ok i

/-- The lookup does not look at the `Fd` pages. -/
theorem openfileLookup_congr {t t' : OpenTab} (hpage : t'.fdPage = t.fdPage)
    (htab : t'.opentab = t.opentab) (hmaps : t'.maps = t.maps) (id : Word) :
    openfileLookup t' id = openfileLookup t id := by
  unfold openfileLookup OpenTab.pageref OpenTab.ppRef
  rw [hpage, htab, hmaps]

theorem ReadReq.Asks.advance {t : OpenTab} {id : Word} {i : Nat} {q : ReadReq} (h : q.Asks t id i)
    (p : Nat) (r : Word) (m : Nat → Nat) :
    q.Asks (({ t with maps := m } : OpenTab).advance p r) id i := by
  refine ⟨h.names, h.present, h.user, h.write, ?_⟩
  rw [← h.live]
  exact openfileLookup_congr rfl rfl rfl id

/-- Reads of `ns` bytes, one after the other, from `off` on: how many bytes each
of them gets. -/
def shares (size : Nat) : Nat → List Nat → List Nat
  | _, [] => []
  | off, n :: ns => min n (size - off) :: shares size (off + n) ns

/-- At the end of the file nobody gets anything. -/
theorem shares_end (size k : Nat) (ns : List Nat) :
    ∀ off, size ≤ off → shares size (off + k) ns = shares size off ns := by
  induction ns with
  | nil => exact fun _ _ => rfl
  | cons n ns ih =>
    intro off h
    unfold shares
    rw [show size - (off + k) = size - off by omega, show off + k + n = off + n + k by omega,
      ih (off + n) (by omega)]

/-- Advancing by what a read has got is as good as by what it asked for. -/
theorem shares_min (size off n : Nat) (ns : List Nat) :
    shares size (off + min n (size - off)) ns = shares size (off + n) ns := by
  by_cases h : n ≤ size - off
  · rw [Nat.min_eq_left h]
  · rw [← shares_end size (n - (size - off)) ns (off + min n (size - off)) (by omega)]
    congr 1
    omega

theorem shares_sum (size : Nat) (ns : List Nat) :
    ∀ off, (shares size off ns).sum = min ns.sum (size - off) := by
  induction ns with
  | nil => exact fun off => (Nat.zero_min _).symm
  | cons n ns ih =>
    intro off
    unfold shares
    rw [List.sum_cons, List.sum_cons, ih (off + n)]
    omega

section

variable {s : Srv} {id : Word} {i p : Nat} {mem : Bool}

/-- **One request**: the requester gets the next bytes of the file. -/
theorem serveReadReq_spec (hf : f ∈ files) {q : ReadReq} (h : FsInv files ∅ s.disk)
    (ha : RecordApart s.disk f) (ho : OpenOn s.tab i p f)
    (hoff : (s.tab.fd p).fdOffset.toNat < 2 ^ 31) (hq : q.Asks s.tab id i) (hfit : q.n ≤ BLKSIZE) :
    wp (serveReadReq mem q)
      (fun a s' => ∃ r s₁, a = some ⟨q.who, r,
          fileBytes s₁.disk f (s.tab.fd p).fdOffset.toNat r.toNat⟩ ∧
        s' = s₁ ∧ ServedRead files f p q.n (q.arrive s) r s₁)
      (fun _ s' => Full s'.disk ∧ Hole s.disk f) s := by
  refine wp_bind_ok (show (modify q.arrive : SrvM Unit) s = .ok () (q.arrive s) from rfl) ?_
  have hspec := serveRead_spec (s := q.arrive s) (i := i) (p := p) hf h ha
    ⟨hq.user, hq.write⟩ ⟨ho.page, ho.file⟩
    (show openfileLookup { s.tab with maps := q.maps } (pageWord q.page 0) = .ok i by
      rw [hq.names]; exact hq.live) hoff
    (Nat.le_trans (Nat.min_le_left _ _) hfit)
  have hserve : wp (serve mem FSREQ_READ)
      (fun a s' => ∃ r, a = some (r, none) ∧ ServedRead files f p q.n (q.arrive s) r s')
      (fun _ s' => Full s'.disk ∧ Hole s.disk f) (q.arrive s) := by
    refine wp_get_bind ?_
    rw [if_neg (show ¬ (q.arrive s).reqPerm &&& PTE_P = 0#32 from hq.present)]
    have hhandle : wp (handle mem (fsReq FSREQ_READ))
        (fun a s' => ∃ r, a = (r, none) ∧ ServedRead files f p q.n (q.arrive s) r s')
        (fun _ s' => Full s'.disk ∧ Hole s.disk f) (q.arrive s) := by
      exact wp_seq hspec fun r s' hr => ⟨r, rfl, hr⟩
    refine wp_seq hhandle ?_
    rintro a s' ⟨r, rfl, hr⟩
    exact ⟨r, rfl, hr⟩
  refine wp_seq hserve ?_
  rintro a s' ⟨r, rfl, hr⟩
  refine ⟨r, s', ?_, rfl, hr⟩
  have hdisk : FsInv files ∅ (q.arrive s).disk := h
  obtain ⟨-, -, -, -, -, hreq⟩ := hr.next hf hdisk hoff
  -- the reply is what the page holds
  have hback := map_range_stored q.page
    (fileBytes s'.disk f (s.tab.fd p).fdOffset.toNat r.toNat)
  rw [fileBytes_length] at hback
  rw [hreq]
  exact congrArg (fun l => some (Reply.mk q.who r l)) hback

/-- What the requesters have got by the end. -/
structure Slices (files : Set FileP) (f : FileP) (off : Nat) (reqs : List ReadReq) (s : Srv)
    (replies : List Reply) (s' : Srv) : Prop where
  who : replies.map (·.who) = reqs.map (·.who)
  ret : replies.map (fun a => a.ret.toNat) = shares (fileSize s.disk f) off (reqs.map (·.n))
  length : ∀ a ∈ replies, a.data.length = a.ret.toNat
  held : Held files f s.disk s'.disk
  filled : Filled s'.disk f off (off + (replies.map fun a => a.ret.toNat).sum)
  data : replies.flatMap (·.data) =
    fileBytes s'.disk f off (replies.map fun a => a.ret.toNat).sum

theorem serveReads_spec (hf : f ∈ files) (reqs : List ReadReq) :
    ∀ s : Srv, FsInv files ∅ s.disk → RecordApart s.disk f → OpenOn s.tab i p f →
      (s.tab.fd p).fdOffset.toNat < 2 ^ 31 →
      (∀ q ∈ reqs, q.Asks s.tab id i ∧ q.n ≤ BLKSIZE) →
      wp (serveReads mem reqs)
        (fun as s' => ∃ replies, as = replies.map some ∧
          Slices files f (s.tab.fd p).fdOffset.toNat reqs s replies s')
        (fun _ s' => Full s'.disk ∧ Hole s.disk f) s := by
  induction reqs with
  | nil =>
    intro s h ha _ _ _
    refine ⟨[], rfl, rfl, rfl, fun a hn => absurd hn List.not_mem_nil, Held.refl h ha, ?_, rfl⟩
    intro k hk hk'
    exact absurd hk (by simpa using hk')
  | cons q qs ih =>
    intro s h ha ho hoff hqs
    obtain ⟨hq, hfit⟩ := hqs q (List.mem_cons_self ..)
    refine wp_seq (serveReadReq_spec hf h ha ho hoff hq hfit) ?_
    rintro a s₁ ⟨r, _, rfl, rfl, hserved⟩
    have hdisk : FsInv files ∅ (q.arrive s).disk := h
    obtain ⟨hheld, htab, hnext, hnext', hfill, -⟩ := hserved.next hf hdisk hoff
    replace hnext : (s₁.tab.fd p).fdOffset.toNat = (s.tab.fd p).fdOffset.toNat + r.toNat := hnext
    replace hfill : Filled s₁.disk f (s.tab.fd p).fdOffset.toNat
      ((s.tab.fd p).fdOffset.toNat + r.toNat) := hfill
    replace hheld : Held files f s.disk s₁.disk := hheld
    have hr : r.toNat = min q.n (fileSize s.disk f - (s.tab.fd p).fdOffset.toNat) := hserved.1
    have hsize := hheld.grows.fileSize_eq hf
    have hrest := ih s₁ hheld.inv hheld.apart
      (by rw [htab]; exact ⟨ho.page, ho.file⟩) hnext'
      (fun q' hq' => ⟨by
        rw [htab]
        exact (hqs q' (List.mem_cons_of_mem _ hq')).1.advance p r q.maps,
        (hqs q' (List.mem_cons_of_mem _ hq')).2⟩)
    refine wp_seq (wp_mono hrest (fun _ _ h => h) fun e s' he =>
      ⟨he.1, hheld.hole h hf he.2⟩) ?_
    rintro as s₂ ⟨replies, rfl, hsl⟩
    generalize (s.tab.fd p).fdOffset.toNat = off at *
    rw [hnext] at hsl
    refine ⟨_ :: replies, rfl, ?_, ?_, ?_, hheld.trans hf hsl.held, ?_, ?_⟩
    · rw [List.map_cons, List.map_cons, hsl.who]
    · rw [List.map_cons, List.map_cons, hsl.ret, hsize]
      show r.toNat :: _ = min q.n _ :: shares _ (off + q.n) _
      rw [hr, shares_min]
    · intro a ha'
      rcases List.mem_cons.mp ha' with rfl | ha'
      · exact fileBytes_length _ _ _ _
      · exact hsl.length a ha'
    · intro k hk hk'
      by_cases hlt : k < off + r.toNat
      · exact hfill.held hsl.held hf k hk hlt
      · refine hsl.filled k (by omega) ?_
        rw [List.map_cons, List.sum_cons, ← Nat.add_assoc] at hk'
        exact hk'
    · rw [List.flatMap_cons, List.map_cons, List.sum_cons, hsl.data,
        ← fileBytes_append, hsl.held.fileBytes_eq hf hfill]

end

end Jos
