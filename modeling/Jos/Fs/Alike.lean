/-
  Jos.Fs.Alike — **DISKS THAT DIFFER IN THE DATA OF ONE FILE.**

  Two disks are alike for `f` when both are sound and they differ at most in
  the data blocks of `f`.  Reading, writing and resizing keep them alike: what
  is loaded from a data block of `f` is only ever handed to a reader of `f`.
  After a truncation the freed blocks may differ as well (`Settled`); they are
  the same again as soon as all free blocks are zero.
-/
import Jos.Fs.Sync

namespace Jos

open Exec

/-! ## §1. Disks that differ in the data of one file. -/

/-- The data blocks of `f`, if it is a regular file. -/
def dataOf (d : Disk) (f : FileP) : Set Nat := fun p =>
  f ∈ allFiles d ∧ fileType d f ≠ FTYPE_DIR ∧ ∃ n < NDIRECT + NINDIRECT,
    slotVal d (fileSlot f n) ≠ 0#32 ∧ (slotVal d (fileSlot f n)).toNat = p

structure Alike (f : FileP) (d d' : Disk) : Prop where
  left : Sound d
  right : Sound d'
  agree : Agree (dataOf d f) d d'

variable {d d' t t' : Disk} {f g : FileP}

theorem dataOf_dataOnly (d : Disk) (f : FileP) : DataOnly (allFiles d) d (dataOf d f) :=
  fun _ ⟨hf, hreg, h⟩ => ⟨f, hf, hreg, h⟩

/-- A data block of another file is not among them. -/
theorem notMem_dataOf (h : FsInv (allFiles d) ∅ d) (hg : g ∈ allFiles d)
    (hne : g ≠ f ∨ fileType d g = FTYPE_DIR) {n : Nat} (hn : n < NDIRECT + NINDIRECT)
    (h0 : slotVal d (fileSlot g n) ≠ 0#32) : (slotVal d (fileSlot g n)).toNat ∉ dataOf d f := by
  intro ⟨hf, hreg, m, hm, _, he⟩
  have hs := h.slot_inj _ _ (fileSlot_in hg hn) (fileSlot_in hf hm) h0
    (BitVec.eq_of_toNat_eq he.symm)
  obtain ⟨rfl, -⟩ := fileSlot_inj hs
  rcases hne with hne | hdir
  · exact hne rfl
  · exact hreg hdir

/-- Disks that agree outside data blocks show the same file system. -/
theorem DataOnly.sameMeta {files : Set FileP} {X : Set Nat} (h : FsInv files ∅ d)
    (hX : DataOnly files d X) (ha : Agree X d d') : SameMeta files d d' := by
  have hblk : ∀ g ∈ files, d' g.blk = d g.blk :=
    fun g hg => (ha _ (DataOnly.record h hX hg)).symm
  refine ⟨⟨?_, ?_, fun g hg => by rw [hblk g hg], fun g hg => by rw [hblk g hg]⟩, ?_⟩
  · rw [ha 1 (DataOnly.reserved h hX reserved_one)]
  · intro s hs
    refine slotVal_congr hs (fun a _ _ => by rw [hblk _ hs.mem]) fun h0 j _ => ?_
    rw [ha _ (DataOnly.indirect h hX hs.mem)]
  · intro b hb
    rw [ha _ (DataOnly.reserved h hX (reserved_bitmapBlk hb))]

theorem Alike.sameMeta (h : Alike f d d') : SameMeta (allFiles d) d d' :=
  DataOnly.sameMeta h.left.inv (dataOf_dataOnly d f) h.agree

theorem Alike.allFiles_eq (h : Alike f d d') : allFiles d' = allFiles d := h.sameMeta.allFiles_eq

theorem Alike.record (h : Alike f d d') (hg : g ∈ allFiles d) : d' g.blk = d g.blk :=
  (h.agree _ (DataOnly.record h.left.inv (dataOf_dataOnly d f) hg)).symm

/-- The same slots give the same data blocks. -/
theorem SameMeta.dataOf_eq (hm : SameMeta (allFiles d) d t) : dataOf t f = dataOf d f := by
  funext p
  apply propext
  show (f ∈ allFiles t ∧ _) ↔ (f ∈ allFiles d ∧ _)
  rw [hm.allFiles_eq]
  refine and_congr_right fun hf => ?_
  rw [hm.fileType_eq hf]
  refine and_congr_right fun _ => exists_congr fun n => and_congr_right fun hn => ?_
  rw [hm.slot _ (fileSlot_in hf hn)]

/-- A load from a block on which the two disks agree. -/
theorem rel_load {α β : Type} {Q : α → β → Disk → Disk → Prop} {p i : Nat} {k : Word → FsM α}
    {k' : Word → FsM β} (hp : d' p = d p) (hk : Rel Q (k (d p i)) (k' (d p i)) d d') :
    Rel Q (load p i >>= k) (load p i >>= k') d d' := by
  refine rel_bind (rel_of_ok (load_ok p i d) (load_ok p i d')
    (Q := fun a b u u' => a = d p i ∧ b = d p i ∧ u = d ∧ u' = d') ⟨rfl, by rw [hp], rfl, rfl⟩) ?_
  intro a u b u' _ _ hab
  obtain ⟨rfl, rfl, rfl, rfl⟩ := hab
  exact hk

/-! ## §2. Fetching a block. -/

theorem Fetched.dataOf_subset {n b : Nat} (h : Fetched g n b d t) : dataOf d f ⊆ dataOf t f := by
  intro p ⟨hf, hreg, m, hm, h0, he⟩
  have hk := h.got.grows.kept _ (fileSlot_in hf hm) h0
  refine ⟨h.files hf, by rw [h.got.grows.fileType_eq hf]; exact hreg, m, hm, ?_, ?_⟩
  · rw [hk]
    exact h0
  · rw [hk]
    exact he

/-- **Both runs fetch the same block**, and stay alike. -/
theorem fetch_rel (h : Alike f d d') (hg : g ∈ allFiles d) {filebno : Word}
    (hn : filebno.toNat < fileBlocks d g) :
    Rel (fun r r' t t' => ∃ b, r = .ok b ∧ r' = .ok b ∧ Alike f t t' ∧
        Fetched g filebno.toNat b d t)
      (fileGetBlock g filebno) (fileGetBlock g filebno) d d' := by
  intro r t r' t' hrun hrun'
  have hm := h.sameMeta
  -- what each run does on its own
  obtain ⟨b, rfl, hgot⟩ := wp_ok (fileGetBlock_spec h.left.inv hg hn) hrun
  have hf := hgot.fetched h.left hg (h.left.inv.block_lt hg hn)
  have hg' : g ∈ allFiles d' := by
    rw [h.allFiles_eq]
    exact hg
  have hn' : filebno.toNat < fileBlocks d' g := by
    rw [hm.fileBlocks_eq hg]
    exact hn
  obtain ⟨b', rfl, hgot'⟩ := wp_ok (fileGetBlock_spec h.right.inv hg' hn') hrun'
  have hf' := hgot'.fetched h.right hg' (h.right.inv.block_lt hg' hn')
  -- and that the two do the same
  obtain ⟨heq, hagree⟩ := sync_fileGetBlock h.left.inv (dataOf_dataOnly d f) hg hn d' h.agree
    _ _ _ _ hrun hrun'
  cases heq
  exact ⟨b, rfl, rfl, ⟨hf.sound, hf'.sound, hagree.mono hf.dataOf_subset⟩, hf⟩

/-! ## §3. Reading. -/

/-- The bytes moved in one pass lie in one block. -/
theorem chunk_in_block {stop pos : Word} (b : Nat) (hpos : pos.toNat < 2 ^ 31) {k : Nat}
    (hk : k < (chunk stop pos).toNat) : (blkAddr b pos + k) / BLKSIZE = b := by
  have hc := chunk_le stop hpos
  rw [blkAddr_eq b hpos]
  unfold BLKSIZE
  omega

theorem fileReadLoop_rel (stop : Word) (n : Nat) :
    ∀ (pos : Word) (buf buf' : List Byte) (d d' : Disk), Alike f d d' → g ∈ allFiles d →
      stop.toNat ≤ fileSize d g → (g ≠ f → buf = buf') →
      Rel (fun r r' t t' => Alike f t t' ∧ (g ≠ f → r = r'))
        (fileReadLoop g stop n pos buf) (fileReadLoop g stop n pos buf') d d' := by
  induction n with
  | zero =>
    intro pos buf buf' d d' h _ _ hbuf
    refine rel_pure ⟨h, fun hne => ?_⟩
    rw [hbuf hne]
  | succ n ih =>
    intro pos buf buf' d d' h hg hstop hbuf
    unfold fileReadLoop
    by_cases hlt : pos < stop
    · rw [if_pos hlt, if_pos hlt]
      obtain ⟨hpos, hblk⟩ := block_in_file h.left.inv hg hstop hlt
      have hin : ∀ b k, k < (chunk stop pos).toNat → (blkAddr b pos + k) / BLKSIZE = b :=
        fun b k hk => chunk_in_block b hpos hk
      generalize pos.sdiv 4096#32 = filebno at hblk ⊢
      generalize chunk stop pos = c at hin ⊢
      refine rel_bind (fetch_rel h hg hblk) ?_
      intro r t r' t' _ _ hr
      obtain ⟨b, rfl, rfl, hal, hft⟩ := hr
      have hmax := h.left.inv.block_lt hg hblk
      have hgt := hft.files hg
      -- the bytes are the same unless they are the data of `f`
      have hbytes : Rel (fun xs xs' u u' => (g ≠ f → xs = xs') ∧ u = t ∧ u' = t')
          (diskBytes (blkAddr b pos) c.toNat) (diskBytes (blkAddr b pos) c.toNat) t t' := by
        intro xs u xs' u' hx hx'
        obtain ⟨ys, hys⟩ := diskBytes_ok c.toNat (blkAddr b pos) t
        obtain ⟨ys', hys'⟩ := diskBytes_ok c.toNat (blkAddr b pos) t'
        rw [hys] at hx
        rw [hys'] at hx'
        cases hx
        cases hx'
        refine ⟨fun hne => ?_, rfl, rfl⟩
        have hnot := notMem_dataOf hal.left.inv hgt (Or.inl hne) hmax hft.got.set
        rw [hft.got.block] at hnot
        have hsync := sync_diskBytes (d := t) c.toNat (blkAddr b pos) (fun k hk => by
          rw [hin b k hk]
          exact hnot)
        exact (hsync t' hal.agree _ _ _ _ hys hys').1
      refine rel_bind hbytes ?_
      intro xs u xs' u' _ _ hxs
      obtain ⟨hxs, rfl, rfl⟩ := hxs
      apply ih _ _ _ _ _ hal hgt
      · rw [hft.got.grows.fileSize_eq hg]
        exact hstop
      · intro hne
        rw [hbuf hne, hxs hne]
    · rw [if_neg hlt, if_neg hlt]
      refine rel_pure ⟨h, fun hne => ?_⟩
      rw [hbuf hne]

/-- **`file_read`** of a file other than `f` returns the same in both runs. -/
theorem fileRead_rel (h : Alike f d d') (hg : g ∈ allFiles d) (count : Word) {offset : Word}
    (hoff : offset.toNat < 2 ^ 31) :
    Rel (fun r r' t t' => Alike f t t' ∧ (g ≠ f → r = r'))
      (fileRead g count offset) (fileRead g count offset) d d' := by
  refine rel_load (h.record hg) ?_
  by_cases hle : (d g.blk g.fSize).sle offset = true
  · rw [if_pos hle]
    exact rel_pure ⟨h, fun _ => rfl⟩
  · rw [if_neg hle]
    refine rel_bind (fileReadLoop_rel _ _ _ _ _ _ _ h hg
      (read_stop count (h.left.inv.size_le g hg) hoff hle) (fun _ => rfl)) ?_
    intro r t r' t' hrun hrun' hr
    obtain ⟨hal, hr⟩ := hr
    -- neither run has met an error
    have hstop := read_stop count (h.left.inv.size_le g hg) hoff hle
    obtain ⟨hnone, -⟩ := wp_ok (fileReadLoop_spec hg _ _ _ d h.left.inv hstop) hrun
    have hg' : g ∈ allFiles d' := by
      rw [h.allFiles_eq]
      exact hg
    obtain ⟨hnone', -⟩ := wp_ok (fileReadLoop_spec hg' _ _ _ d' h.right.inv (by
      rw [h.sameMeta.fileSize_eq hg]
      exact hstop)) hrun'
    obtain ⟨e, buf⟩ := r
    obtain ⟨e', buf'⟩ := r'
    cases hnone
    cases hnone'
    refine rel_pure ⟨hal, fun hne => ?_⟩
    rw [Prod.mk.inj (hr hne) |>.2]

/-! ## §4. Writing. -/

/-- Both runs store bytes into block `b`, a data block of the regular file `g`:
the same bytes, unless `g` is `f`. -/
theorem putDiskBytes_rel (h : Alike f t t') (hg : g ∈ allFiles t)
    (hreg : fileType t g ≠ FTYPE_DIR) {n b a : Nat} (hn : n < NDIRECT + NINDIRECT)
    (h0 : slotVal t (fileSlot g n) ≠ 0#32) (hb : (slotVal t (fileSlot g n)).toNat = b)
    {xs xs' : List Byte} (hin : ∀ k < xs.length, (a + k) / BLKSIZE = b)
    (hin' : ∀ k < xs'.length, (a + k) / BLKSIZE = b) (hxs : g ≠ f → xs = xs') :
    Rel (fun _ _ u u' => Alike f u u' ∧ SameMeta (allFiles t) t u)
      (putDiskBytes a xs) (putDiskBytes a xs') t t' := by
  intro _ u _ u' hrun hrun'
  have hm := h.sameMeta
  have hu := wp_ok (putDiskBytes_spec xs a t hin) hrun
  have hu' := wp_ok (putDiskBytes_spec xs' a t' hin') hrun'
  have hsl := hm.slot _ (fileSlot_in hg hn)
  obtain ⟨hmu, hsu⟩ := h.left.writeData hg hreg hn h0 (by rw [hb]; exact hu)
  have hg' : g ∈ allFiles t' := by
    rw [h.allFiles_eq]
    exact hg
  obtain ⟨-, hsu'⟩ := h.right.writeData hg' (by rw [hm.fileType_eq hg]; exact hreg) hn
    (by rw [hsl]; exact h0) (by rw [hsl, hb]; exact hu')
  refine ⟨⟨hsu, hsu', ?_⟩, hmu⟩
  rw [hmu.dataOf_eq]
  by_cases hgf : g = f
  · -- the block belongs to `f`, so what is in it does not count
    subst hgf
    have hmem : b ∈ dataOf t g := ⟨hg, hreg, n, hn, h0, hb⟩
    intro p hp
    have hpb : p ≠ b := by
      rintro rfl
      exact hp hmem
    rw [hu p hpb, hu' p hpb, h.agree p hp]
  · obtain rfl := hxs hgf
    have hnot := notMem_dataOf h.left.inv hg (Or.inl hgf) hn h0
    rw [hb] at hnot
    have hsync := sync_putDiskBytes xs a t (X := dataOf t f) (fun k hk => by
      rw [hin k hk]
      exact hnot)
    exact (hsync t' h.agree _ _ _ _ hrun hrun').2

theorem fileWriteLoop_rel (stop : Word) (n : Nat) :
    ∀ (pos : Word) (buf buf' : List Byte) (d d' : Disk), Alike f d d' → g ∈ allFiles d →
      fileType d g ≠ FTYPE_DIR → stop.toNat ≤ fileSize d g → (g ≠ f → buf = buf') →
      Rel (fun _ _ t t' => Alike f t t')
        (fileWriteLoop g stop n pos buf) (fileWriteLoop g stop n pos buf') d d' := by
  induction n with
  | zero =>
    intro pos buf buf' d d' h _ _ _ _
    exact rel_pure h
  | succ n ih =>
    intro pos buf buf' d d' h hg hreg hstop hbuf
    unfold fileWriteLoop
    by_cases hlt : pos < stop
    · rw [if_pos hlt, if_pos hlt]
      obtain ⟨hpos, hblk⟩ := block_in_file h.left.inv hg hstop hlt
      have hin : ∀ b k, k < (chunk stop pos).toNat → (blkAddr b pos + k) / BLKSIZE = b :=
        fun b k hk => chunk_in_block b hpos hk
      generalize pos.sdiv 4096#32 = filebno at hblk ⊢
      generalize chunk stop pos = c at hin ⊢
      refine rel_bind (fetch_rel h hg hblk) ?_
      intro r t r' t' _ _ hr
      obtain ⟨b, rfl, rfl, hal, hft⟩ := hr
      have hmax := h.left.inv.block_lt hg hblk
      have hgt := hft.files hg
      have hregt : fileType t g ≠ FTYPE_DIR := by
        rw [hft.got.grows.fileType_eq hg]
        exact hreg
      have htake : ∀ (xs : List Byte) (k : Nat), k < (xs.take c.toNat).length →
          (blkAddr b pos + k) / BLKSIZE = b := by
        intro xs k hk
        rw [List.length_take] at hk
        exact hin b k (by omega)
      refine rel_bind (putDiskBytes_rel hal hgt hregt hmax hft.got.set hft.got.block
        (htake buf) (htake buf') (fun hne => by rw [hbuf hne])) ?_
      intro _ u _ u' _ _ hu
      obtain ⟨hal', hmu⟩ := hu
      apply ih _ _ _ _ _ hal'
      · rw [hmu.allFiles_eq]
        exact hgt
      · rw [hmu.fileType_eq hgt]
        exact hregt
      · rw [hmu.fileSize_eq hgt, hft.got.grows.fileSize_eq hg]
        exact hstop
      · intro hne
        rw [hbuf hne]
    · rw [if_neg hlt, if_neg hlt]
      exact rel_pure h

/-- A larger size on both disks. -/
theorem Alike.enlarge (h : Alike f d d') (hg : g ∈ allFiles d) {w : Word}
    (hw : w.toNat ≤ MAXFILESIZE) (hle : fileSize d g ≤ w.toNat) :
    Alike f (putWord d g.blk g.fSize w) (putWord d' g.blk g.fSize w) := by
  obtain ⟨hs, hall, hslot, htype, -⟩ := h.left.enlarge hg hw hle
  obtain ⟨hs', -⟩ := h.right.enlarge (w := w) (by rw [h.allFiles_eq]; exact hg) hw
    (by rw [h.sameMeta.fileSize_eq hg]; exact hle)
  refine ⟨hs, hs', ?_⟩
  apply Agree.mono (h.agree.putWord _ _ _)
  intro p ⟨hf, hreg, n, hn, h0, he⟩
  have hsl := hslot _ (fileSlot_in hf hn)
  refine ⟨by rw [hall]; exact hf, by rw [htype f hf]; exact hreg, n, hn, ?_, ?_⟩
  · rw [hsl]
    exact h0
  · rw [hsl]
    exact he

/-- **`file_write`** of as many bytes, the same ones unless the file is `f`. -/
theorem fileWrite_rel (h : Alike f d d') (hg : g ∈ allFiles d) (hreg : fileType d g ≠ FTYPE_DIR)
    {buf buf' : List Byte} {offset : Word} (hmax : offset.toNat + buf.length ≤ MAXFILESIZE)
    (hlen : buf.length = buf'.length) (hbuf : g ≠ f → buf = buf') :
    Rel (fun _ _ t t' => Alike f t t') (fileWrite g buf offset) (fileWrite g buf' offset) d d' := by
  have hsum := writeStop_toNat hmax
  unfold fileWrite
  rw [← hlen]
  refine rel_load (h.record hg) ?_
  -- the loop, once the size is right
  have hloop : ∀ t t', Alike f t t' → g ∈ allFiles t → fileType t g ≠ FTYPE_DIR →
      (offset + BitVec.ofNat 32 buf.length).toNat ≤ fileSize t g →
      Rel (fun _ _ u u' => Alike f u u')
        (fileWriteLoop g (offset + BitVec.ofNat 32 buf.length) (BitVec.ofNat 32 buf.length).toNat
          offset buf >>= writeEnd (BitVec.ofNat 32 buf.length))
        (fileWriteLoop g (offset + BitVec.ofNat 32 buf.length) (BitVec.ofNat 32 buf.length).toNat
          offset buf' >>= writeEnd (BitVec.ofNat 32 buf.length)) t t' := by
    intro t t' hal hgt hregt hsz
    refine rel_bind (fileWriteLoop_rel _ _ _ _ _ _ _ hal hgt hregt hsz hbuf) ?_
    intro r u r' u' _ _ hu
    cases r <;> cases r' <;> exact rel_pure hu
  by_cases hlt : d g.blk g.fSize < offset + BitVec.ofNat 32 buf.length
  · rw [if_pos hlt, if_pos hlt]
    rw [BitVec.lt_def] at hlt
    have hle : fileSize d g ≤ (offset + BitVec.ofNat 32 buf.length).toNat := le_of_lt hlt
    have hns : ∀ u : Disk, u g.blk g.fSize = d g.blk g.fSize →
        ¬ (offset + BitVec.ofNat 32 buf.length).slt (u g.blk g.fSize) = true := by
      intro u hu
      rw [hu, slt_iff (by rw [hsum]; exact hmax) (h.left.inv.size_le g hg)]
      omega
    have hw : (offset + BitVec.ofNat 32 buf.length).toNat ≤ MAXFILESIZE := by
      rw [hsum]
      exact hmax
    obtain ⟨-, hall, -, htype, hsize, -⟩ := h.left.enlarge hg hw hle
    refine rel_bind (rel_of_ok (fileSetSize_larger (hns d rfl))
      (fileSetSize_larger (hns d' (by rw [h.record hg])))
      (Q := fun _ _ u u' => u = putWord d g.blk g.fSize (offset + BitVec.ofNat 32 buf.length) ∧
        u' = putWord d' g.blk g.fSize (offset + BitVec.ofNat 32 buf.length)) ⟨rfl, rfl⟩) ?_
    intro _ u _ u' _ _ hu
    obtain ⟨rfl, rfl⟩ := hu
    apply hloop _ _ (h.enlarge hg hw hle)
    · rw [hall]
      exact hg
    · rw [htype g hg]
      exact hreg
    · exact le_of_eq hsize.symm
  · rw [if_neg hlt, if_neg hlt]
    exact hloop d d' h hg hreg (Nat.not_lt.mp hlt)

/-! ## §5. Setting the size. -/

def freeBlocks (d : Disk) : Set Nat := fun p => p < nblocks d ∧ ¬ inUse d p

/-- Between two calls: freed blocks may differ too. -/
structure Settled (f : FileP) (d d' : Disk) : Prop where
  left : Consistent d
  right : Consistent d'
  agree : Agree (dataOf d f ∪ freeBlocks d) d d'

theorem Alike.settled (h : Alike f d d') : Settled f d d' :=
  ⟨h.left.inv, h.right.inv, h.agree.mono Set.subset_union_left⟩

/-- Free blocks that are zero on both disks do not differ. -/
theorem Settled.alike (h : Settled f d d') (hz : FreeZero d) (hz' : FreeZero d') :
    Alike f d d' := by
  have hused : ∀ p, Reserved d p → p ∉ dataOf d f ∪ freeBlocks d := by
    intro p hr hp
    rcases hp with hp | ⟨hlt, hu⟩
    · exact DataOnly.reserved h.left (dataOf_dataOnly d f) hr hp
    · exact hu ((h.left.used_iff p hlt).mpr (Or.inl hr))
  have hnb : nblocks d' = nblocks d := by
    unfold nblocks
    rw [h.agree 1 (hused 1 reserved_one)]
  refine ⟨⟨h.left, hz⟩, ⟨h.right, hz'⟩, ?_⟩
  intro p hp
  by_cases hfree : p ∈ freeBlocks d
  · obtain ⟨hlt, hu⟩ := hfree
    have hu' : ¬ inUse d' p := by
      unfold inUse at hu ⊢
      rw [← h.agree _ (hused _ (reserved_bitmapBlk hlt))]
      exact hu
    funext i
    rw [hz p hlt hu i, hz' p (by rw [hnb]; exact hlt) hu' i]
  · apply h.agree
    intro hmem
    exact hmem.elim hp hfree

/-- **`file_set_size`**: the blocks it frees are all that may differ in addition. -/
theorem fileSetSize_rel (h : Alike f d d') (hg : g ∈ allFiles d) (hreg : fileType d g ≠ FTYPE_DIR)
    {newsize : Word} (hnew : newsize.toNat ≤ MAXFILESIZE) :
    Rel (fun _ _ t t' => Settled f t t') (fileSetSize g newsize) (fileSetSize g newsize) d d' := by
  intro _ t _ t' hrun hrun'
  have hm := h.sameMeta
  obtain ⟨hinv, hrs, -, hslot⟩ := wp_ok (fileSetSize_spec h.left.inv hg hreg hnew) hrun
  have hg' : g ∈ allFiles d' := by
    rw [h.allFiles_eq]
    exact hg
  obtain ⟨hinv', hrs', -, -⟩ := wp_ok (fileSetSize_spec h.right.inv hg'
    (by rw [hm.fileType_eq hg]; exact hreg) hnew) hrun'
  -- a regular file's blocks are not where other files are found
  have hall : ∀ {u v : Disk}, Resized (allFiles u) g u v → fileType u g ≠ FTYPE_DIR →
      allFiles v = allFiles u := by
    intro u v hr hru
    apply allFiles_congr hr.type
    intro x hx hxd n hn
    apply hr.other _ (fileSlot_in hx hn)
    rw [fileSlot_file]
    rintro rfl
    exact hru hxd
  have ht := hall hrs hreg
  have ht' := hall hrs' (by rw [hm.fileType_eq hg]; exact hreg)
  refine ⟨by unfold Consistent; rw [ht]; exact hinv,
    by unfold Consistent; rw [ht']; exact hinv', ?_⟩
  have hagree := (sync_fileSetSize h.left.inv (dataOf_dataOnly d f) hg hreg newsize d' h.agree
    _ _ _ _ hrun hrun').2
  apply hagree.mono
  intro p hp
  obtain ⟨hf, hregf, n, hn, h0, rfl⟩ := hp
  have hinf := fileSlot_in hf hn
  rcases hslot _ hinf with hsame | hzero
  · refine Or.inl ⟨by rw [ht]; exact hf, by rw [hrs.type f hf]; exact hregf, n, hn, ?_, ?_⟩
    · rw [hsame]
      exact h0
    · rw [hsame]
  · -- the slot was cleared, and no other slot holds the block
    have hnb : nblocks t = nblocks d := by
      unfold nblocks
      rw [hrs.nblocks]
    have hlt := h.left.inv.slot_lt _ hinf h0
    right
    refine ⟨by rw [hnb]; exact hlt, fun hu => ?_⟩
    rw [hinv.used_iff _ (by rw [hnb]; exact hlt), Reserved.of_nblocks hrs.nblocks] at hu
    rcases hu with hr | hs | ⟨s, hs, hne, he⟩
    · exact h.left.inv.slot_free _ hinf h0 hr
    · exact hs.elim
    · rcases hslot s hs with hsame | hz
      · rw [hsame] at hne he
        have heq := h.left.inv.slot_inj s _ hs hinf hne (BitVec.eq_of_toNat_eq he)
        rw [heq, hzero] at hsame
        exact h0 hsame.symm
      · exact hne hz

end Jos
