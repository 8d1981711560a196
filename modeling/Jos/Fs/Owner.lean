/-
  Jos.Fs.Owner — **WHO OWNS A BLOCK.**

  A block number can stand in three kinds of places: an entry of `f_direct`,
  `f_indirect`, or a word of an indirect block.  `FsInv` says that the disk is
  a consistent file system: the blocks in use are the reserved ones, those that
  stand in a slot, each in exactly one, and the spare ones (taken from the
  bitmap and not stored yet); and that no slot past the end of a file is set.

  §3 and §4 say what one store does to it: taking a block from the bitmap makes
  it spare, storing its number in an empty slot uses it up, and the two reverse
  steps; what is stored in a data block of a regular file does not matter.
-/
import Jos.Fs.Disk

namespace Jos

variable {a b c n : Nat}

/-! ## §1. Slots. -/

inductive BlockSlot where
  | direct (f : FileP) (i : Nat)
  | indirect (f : FileP)
  /-- Word `j` of the indirect block. -/
  | entry (f : FileP) (j : Nat)
  deriving DecidableEq

def BlockSlot.In (files : Set FileP) : BlockSlot → Prop
  | .direct f i => f ∈ files ∧ i < NDIRECT
  | .indirect f => f ∈ files
  | .entry f j => f ∈ files ∧ j < NINDIRECT

def BlockSlot.file : BlockSlot → FileP
  | .direct f _ => f
  | .indirect f => f
  | .entry f _ => f

/-- `f->f_indirect`. -/
def indirectOf (d : Disk) (f : FileP) : Word := d f.blk f.fIndirect

/-- The block number in a slot; without an indirect block its slots are empty. -/
def slotVal (d : Disk) : BlockSlot → Word
  | .direct f i => d f.blk (f.fDirect i)
  | .indirect f => indirectOf d f
  | .entry f j => if indirectOf d f = 0#32 then 0#32 else d (indirectOf d f).toNat j

theorem slotVal_indirect (d : Disk) (f : FileP) : slotVal d (.indirect f) = indirectOf d f := rfl

theorem slotVal_entry_congr {d d' : Disk} {f : FileP} {j : Nat}
    (hio : indirectOf d' f = indirectOf d f)
    (hind : indirectOf d f ≠ 0#32 → d' (indirectOf d f).toNat j = d (indirectOf d f).toNat j) :
    slotVal d' (.entry f j) = slotVal d (.entry f j) := by
  show (if indirectOf d' f = 0#32 then _ else _) = if indirectOf d f = 0#32 then _ else _
  rw [hio]
  split
  · rfl
  · rename_i h0
    exact hind h0

/-- A slot is a word of the record, or of the indirect block that the record names. -/
theorem slotVal_congr {files : Set FileP} {d d' : Disk} {s : BlockSlot} (hs : s.In files)
    (hrec : ∀ a, 34 ≤ a → a ≤ 44 →
      d' s.file.blk (s.file.idx + a) = d s.file.blk (s.file.idx + a))
    (hind : indirectOf d s.file ≠ 0#32 → ∀ j < NINDIRECT,
      d' (indirectOf d s.file).toNat j = d (indirectOf d s.file).toNat j) :
    slotVal d' s = slotVal d s := by
  have hio : indirectOf d' s.file = indirectOf d s.file := hrec 44 (by omega) (by omega)
  cases s with
  | direct f i =>
    have hi := hs.2
    unfold NDIRECT at hi
    have hword := hrec (34 + i) (by omega) (by omega)
    rwa [← Nat.add_assoc] at hword
  | indirect f => exact hio
  | entry f j => exact slotVal_entry_congr hio fun h0 => hind h0 j hs.2

/-- The slot of file block `n`. -/
def fileSlot (f : FileP) (n : Nat) : BlockSlot :=
  if n < NDIRECT then .direct f n else .entry f (n - NDIRECT)

def nblocks (d : Disk) : Nat := (d 1 1).toNat

def fileSize (d : Disk) (f : FileP) : Nat := (d f.blk f.fSize).toNat

def fileType (d : Disk) (f : FileP) : Word := d f.blk f.fType

/-- `ceil(f_size / BLKSIZE)`. -/
def fileBlocks (d : Disk) (f : FileP) : Nat := (fileSize d f + 4095) / 4096

/-- Marked in use in the bitmap. -/
def inUse (d : Disk) (b : Nat) : Prop :=
  (d (bitmapBlk b) (bitmapIdx b)).getLsbD (b % 32) = false

/-- Blocks 0 and 1 and the bitmap. -/
def Reserved (d : Disk) (b : Nat) : Prop := b < 2 + (nblocks d + 32767) / 32768

instance (d : Disk) (b : Nat) : Decidable (inUse d b) :=
  inferInstanceAs (Decidable (_ = _))

theorem fileSlot_in {files : Set FileP} {f : FileP} (hf : f ∈ files)
    (hn : n < NDIRECT + NINDIRECT) : (fileSlot f n).In files := by
  unfold fileSlot
  split
  · exact ⟨hf, by assumption⟩
  · exact ⟨hf, by omega⟩

@[simp] theorem fileSlot_file (f : FileP) (n : Nat) : (fileSlot f n).file = f := by
  unfold fileSlot
  split <;> rfl

theorem fileSlot_ne_indirect (f g : FileP) (n : Nat) : fileSlot f n ≠ .indirect g := by
  unfold fileSlot
  split <;> simp

theorem fileSlot_inj {f g : FileP} {n k : Nat} (h : fileSlot f n = fileSlot g k) :
    f = g ∧ n = k := by
  unfold fileSlot at h
  split at h <;> split at h
  · simpa using h
  · cases h
  · cases h
  · simp only [BlockSlot.entry.injEq] at h
    exact ⟨h.1, by omega⟩

theorem BlockSlot.In.mem {files : Set FileP} {s : BlockSlot} (h : s.In files) : s.file ∈ files := by
  cases s with
  | direct f i => exact h.1
  | indirect f => exact h
  | entry f j => exact h.1

/-! ## §2. A consistent file system. -/

/-- `f` is the root, or one of the 16 files of a directory's block. -/
def Placed (files : Set FileP) (d : Disk) (f : FileP) : Prop :=
  f = sRoot ∨ ∃ g n k, g ∈ files ∧ fileType d g = FTYPE_DIR ∧ n < NDIRECT + NINDIRECT ∧
    slotVal d (fileSlot g n) ≠ 0#32 ∧ f.blk = (slotVal d (fileSlot g n)).toNat ∧
    k < 16 ∧ f.idx = 64 * k

/-- `b` stands in a slot. -/
def InSlot (files : Set FileP) (d : Disk) (b : Nat) : Prop :=
  ∃ s : BlockSlot, s.In files ∧ slotVal d s ≠ 0#32 ∧ (slotVal d s).toNat = b

/-- **The disk is a consistent file system** with the files `files`, directories
among them, and the spare blocks `spare`. -/
structure FsInv (files : Set FileP) (spare : Set Nat) (d : Disk) : Prop where
  nblocks_le : nblocks d ≤ 0xC0000
  place : ∀ f ∈ files, Placed files d f
  slot_lt : ∀ s : BlockSlot, s.In files → slotVal d s ≠ 0#32 → (slotVal d s).toNat < nblocks d
  slot_free : ∀ s : BlockSlot, s.In files → slotVal d s ≠ 0#32 → ¬ Reserved d (slotVal d s).toNat
  slot_inj : ∀ s s' : BlockSlot, s.In files → s'.In files → slotVal d s ≠ 0#32 →
    slotVal d s = slotVal d s' → s = s'
  used_iff : ∀ b < nblocks d, inUse d b ↔ Reserved d b ∨ b ∈ spare ∨ InSlot files d b
  spare_ok : ∀ b ∈ spare, b < nblocks d ∧ ¬ Reserved d b ∧
    ∀ s : BlockSlot, s.In files → (slotVal d s).toNat ≠ b
  size_le : ∀ f ∈ files, fileSize d f ≤ MAXFILESIZE
  tail : ∀ f ∈ files, ∀ n < NDIRECT + NINDIRECT, fileBlocks d f ≤ n →
    slotVal d (fileSlot f n) = 0#32

/-- Two disks that show the same slots, sizes and types to `files`. -/
structure SameSlots (files : Set FileP) (d d' : Disk) : Prop where
  nblocks : d' 1 1 = d 1 1
  slot : ∀ s : BlockSlot, s.In files → slotVal d' s = slotVal d s
  size : ∀ f ∈ files, d' f.blk f.fSize = d f.blk f.fSize
  type : ∀ f ∈ files, d' f.blk f.fType = d f.blk f.fType

/-- … and the same bitmap. -/
structure SameMeta (files : Set FileP) (d d' : Disk) : Prop extends SameSlots files d d' where
  bitmap : ∀ b < Jos.nblocks d, d' (bitmapBlk b) (bitmapIdx b) = d (bitmapBlk b) (bitmapIdx b)

section

variable {files : Set FileP} {spare : Set Nat} {d d' : Disk} {f g : FileP}

theorem toNat_ne_zero {w : Word} (h : w ≠ 0#32) : w.toNat ≠ 0 :=
  fun h0 => h (BitVec.eq_of_toNat_eq h0)

theorem Reserved.of_nblocks (h : d' 1 1 = d 1 1) : Reserved d' b ↔ Reserved d b := by
  unfold Reserved nblocks
  rw [h]

theorem reserved_bitmapBlk (h : b < nblocks d) : Reserved d (bitmapBlk b) := by
  unfold Reserved bitmapBlk
  omega

section
variable (h : SameSlots files d d')
include h

theorem SameSlots.nblocks_eq : Jos.nblocks d' = Jos.nblocks d := by
  unfold Jos.nblocks
  rw [h.nblocks]

theorem SameSlots.fileSize_eq (hf : f ∈ files) : fileSize d' f = fileSize d f := by
  unfold fileSize
  rw [h.size f hf]

theorem SameSlots.fileType_eq (hf : f ∈ files) :
    fileType d' f = fileType d f := h.type f hf

theorem SameSlots.fileBlocks_eq (hf : f ∈ files) : fileBlocks d' f = fileBlocks d f := by
  unfold fileBlocks
  rw [h.fileSize_eq hf]

end

theorem SameMeta.refl (files : Set FileP) (d : Disk) : SameMeta files d d :=
  ⟨⟨rfl, fun _ _ => rfl, fun _ _ => rfl, fun _ _ => rfl⟩, fun _ _ => rfl⟩

theorem SameMeta.trans {d₂ : Disk} (h : SameMeta files d d') (h' : SameMeta files d' d₂) :
    SameMeta files d d₂ := by
  refine ⟨⟨h'.nblocks.trans h.nblocks, fun s hs => (h'.slot s hs).trans (h.slot s hs),
    fun f hf => (h'.size f hf).trans (h.size f hf),
    fun f hf => (h'.type f hf).trans (h.type f hf)⟩, fun b hb => ?_⟩
  have hb' : b < Jos.nblocks d' := by
    rw [h.nblocks_eq]
    exact hb
  exact (h'.bitmap b hb').trans (h.bitmap b hb)

theorem SameSlots.inSlot_iff (h : SameSlots files d d') : InSlot files d' b ↔ InSlot files d b := by
  refine exists_congr fun s => and_congr_right fun hs => ?_
  rw [h.slot s hs]

theorem Placed.of_sameSlots (h : SameSlots files d d') (hp : Placed files d f) :
    Placed files d' f := by
  rcases hp with hr | ⟨g, n, k, hg, ht, hn, h0, hb, hk, hi⟩
  · exact Or.inl hr
  · have hs := h.slot _ (fileSlot_in hg hn)
    exact Or.inr ⟨g, n, k, hg, by rw [h.fileType_eq hg]; exact ht, hn, by rw [hs]; exact h0,
      by rw [hs]; exact hb, hk, hi⟩

/-- With the slots kept, what is left to show is the bitmap and the spare
blocks. -/
theorem FsInv.of_sameSlots {spare' : Set Nat} (h : FsInv files spare d) (hm : SameSlots files d d')
    (hused : ∀ b < nblocks d, inUse d' b ↔ Reserved d b ∨ b ∈ spare' ∨ InSlot files d b)
    (hspare : ∀ b ∈ spare', b < nblocks d ∧ ¬ Reserved d b ∧
      ∀ s : BlockSlot, s.In files → (slotVal d s).toNat ≠ b) : FsInv files spare' d' := by
  refine ⟨by rw [hm.nblocks_eq]; exact h.nblocks_le,
    fun f hf => (h.place f hf).of_sameSlots hm, ?_, ?_, ?_, ?_, ?_,
    fun f hf => by rw [hm.fileSize_eq hf]; exact h.size_le f hf, ?_⟩
  · intro s hs h0
    rw [hm.slot s hs] at h0 ⊢
    rw [hm.nblocks_eq]
    exact h.slot_lt s hs h0
  · intro s hs h0
    rw [hm.slot s hs] at h0 ⊢
    rw [Reserved.of_nblocks hm.nblocks]
    exact h.slot_free s hs h0
  · intro s s' hs hs' h0 he
    rw [hm.slot s hs] at h0
    rw [hm.slot s hs, hm.slot s' hs'] at he
    exact h.slot_inj s s' hs hs' h0 he
  · intro b hb
    rw [hm.nblocks_eq] at hb
    rw [hused b hb, Reserved.of_nblocks hm.nblocks, hm.inSlot_iff]
  · intro b hb
    obtain ⟨h1, h2, h3⟩ := hspare b hb
    refine ⟨by rw [hm.nblocks_eq]; exact h1,
      by rw [Reserved.of_nblocks hm.nblocks]; exact h2, ?_⟩
    intro s hs
    rw [hm.slot s hs]
    exact h3 s hs
  · intro f hf n hn hle
    rw [hm.fileBlocks_eq hf] at hle
    rw [hm.slot _ (fileSlot_in hf hn)]
    exact h.tail f hf n hn hle

/-- **Consistency depends only on what `SameMeta` keeps.** -/
theorem FsInv.of_sameMeta (h : FsInv files spare d) (hm : SameMeta files d d') :
    FsInv files spare d' := by
  refine h.of_sameSlots hm.toSameSlots ?_ h.spare_ok
  intro b hb
  rw [← h.used_iff b hb]
  unfold inUse
  rw [hm.bitmap b hb]

/-! ## §3. The parts of the disk do not overlap. -/

/-- The block of a file is the super block or a directory's data block. -/
theorem FsInv.blk_cases (h : FsInv files spare d) (hf : f ∈ files) :
    f = sRoot ∨ (¬ Reserved d f.blk ∧ ∃ g n k, g ∈ files ∧ fileType d g = FTYPE_DIR ∧
      n < NDIRECT + NINDIRECT ∧ slotVal d (fileSlot g n) ≠ 0#32 ∧
      f.blk = (slotVal d (fileSlot g n)).toNat ∧ k < 16 ∧ f.idx = 64 * k) := by
  rcases h.place f hf with hr | ⟨g, n, k, hg, ht, hn, h0, hb, hk, hi⟩
  · exact Or.inl hr
  · refine Or.inr ⟨?_, g, n, k, hg, ht, hn, h0, hb, hk, hi⟩
    rw [hb]
    exact h.slot_free _ (fileSlot_in hg hn) h0

theorem reserved_one : Reserved d 1 := by
  unfold Reserved
  omega

section
variable (h : FsInv files spare d)
include h

/-- Words of two files are different words. -/
theorem FsInv.words_inj (hf : f ∈ files) (hg : g ∈ files) (ha : a < 64) (hb : b < 64)
    (hblk : f.blk = g.blk)
    (hidx : f.idx + a = g.idx + b) : f = g ∧ a = b := by
  have hkey : f.idx = g.idx := by
    rcases h.blk_cases hf with rfl | ⟨hrf, _, _, k, _, _, _, _, _, _, hif⟩ <;>
      rcases h.blk_cases hg with rfl | ⟨hrg, _, _, k', _, _, _, _, _, _, hig⟩
    · rfl
    · rw [← hblk] at hrg
      exact absurd reserved_one hrg
    · rw [hblk] at hrf
      exact absurd reserved_one hrf
    · omega
  refine ⟨?_, by omega⟩
  cases f
  cases g
  simp only at hblk hkey
  rw [hblk, hkey]

/-- No block of file records is an indirect block. -/
theorem FsInv.blk_ne_indirect (hf : f ∈ files) (hg : g ∈ files)
    (h0 : indirectOf d g ≠ 0#32) : f.blk ≠ (indirectOf d g).toNat := by
  intro he
  rcases h.blk_cases hf with rfl | ⟨_, g', n, k, hg', _, hn, h0', hb, _⟩
  · refine h.slot_free (.indirect g) hg h0 ?_
    show Reserved d (indirectOf d g).toNat
    rw [← he]
    exact reserved_one
  · have hs := h.slot_inj (fileSlot g' n) (.indirect g) (fileSlot_in hg' hn) hg h0'
      (BitVec.eq_of_toNat_eq (by rw [← hb, he]; rfl))
    exact fileSlot_ne_indirect _ _ _ hs

/-- No block of file records holds the bitmap. -/
theorem FsInv.blk_ne_bitmap (hf : f ∈ files) (hb : b < nblocks d) : f.blk ≠ bitmapBlk b := by
  intro he
  rcases h.blk_cases hf with rfl | ⟨hr, _⟩
  · unfold bitmapBlk sRoot at he
    simp only at he
    omega
  · rw [he] at hr
    exact hr (reserved_bitmapBlk hb)

theorem FsInv.idx_ne_nblocks (hf : f ∈ files) (hblk : f.blk = 1) : f.idx + a ≠ 1 := by
  rcases h.blk_cases hf with rfl | ⟨hr, _⟩
  · unfold sRoot
    simp only
    omega
  · rw [hblk] at hr
    exact absurd reserved_one hr

end

/-! ## §4. Stores that keep the slots. -/

/-- A block outside the records, the indirect blocks and the reserved blocks
holds nothing consistency depends on. -/
theorem sameMeta_of_block (hr : ¬ Reserved d b) (hblk : ∀ f ∈ files, f.blk ≠ b)
    (hind : ∀ f ∈ files, indirectOf d f ≠ 0#32 → (indirectOf d f).toNat ≠ b)
    (heq : ∀ p, p ≠ b → d' p = d p) : SameMeta files d d' := by
  have h1 : d' 1 = d 1 := heq 1 (fun h1 => hr (by rw [← h1]; exact reserved_one))
  have hf : ∀ f ∈ files, d' f.blk = d f.blk := fun f hf => heq _ (hblk f hf)
  refine ⟨⟨by rw [h1], ?_, fun f hfm => by rw [hf f hfm], fun f hfm => by rw [hf f hfm]⟩, ?_⟩
  · intro s hs
    refine slotVal_congr hs (fun a _ _ => by rw [hf _ hs.mem]) fun h0 j _ => ?_
    rw [heq _ (hind _ hs.mem h0)]
  · intro c hc
    rw [heq _ (fun hcb => hr (by rw [← hcb]; exact reserved_bitmapBlk hc))]

/-- **A spare block may hold anything.** -/
theorem FsInv.sameMeta_spare (h : FsInv files spare d) (hb : b ∈ spare)
    (heq : ∀ p, p ≠ b → d' p = d p) : SameMeta files d d' := by
  obtain ⟨_, hr, hs⟩ := h.spare_ok b hb
  refine sameMeta_of_block hr ?_ (fun f hf _ => hs (.indirect f) hf) heq
  intro f hf he
  rcases h.blk_cases hf with rfl | ⟨_, g, n, k, hg, _, hn, _, hbk, _⟩
  · refine hr ?_
    rw [← he]
    exact reserved_one
  · exact hs _ (fileSlot_in hg hn) (by rw [← hbk, he])

/-- **A data block of a regular file may hold anything.** -/
theorem FsInv.sameMeta_data (h : FsInv files spare d) (hf : f ∈ files)
    (hreg : fileType d f ≠ FTYPE_DIR) (hn : n < NDIRECT + NINDIRECT)
    (h0 : slotVal d (fileSlot f n) ≠ 0#32)
    (heq : ∀ p, p ≠ (slotVal d (fileSlot f n)).toNat → d' p = d p) : SameMeta files d d' := by
  have hin := fileSlot_in hf hn
  refine sameMeta_of_block (h.slot_free _ hin h0) ?_ ?_ heq
  · intro g hg he
    rcases h.blk_cases hg with rfl | ⟨_, g', n', k, hg', ht, hn', h0', hb, _⟩
    · refine h.slot_free _ hin h0 ?_
      rw [← he]
      exact reserved_one
    · have hs := h.slot_inj _ _ (fileSlot_in hg' hn') hin h0'
        (BitVec.eq_of_toNat_eq (by rw [← hb, he]))
      rw [(fileSlot_inj hs).1] at ht
      exact hreg ht
  · intro g hg hi he
    have hs := h.slot_inj (.indirect g) _ hg hin hi (BitVec.eq_of_toNat_eq he)
    exact fileSlot_ne_indirect _ _ _ hs.symm

/-! ## §5. Stores into the bitmap. -/

/-- The bitmap word of block `b`. -/
def bitmapWord (d : Disk) (b : Nat) : Word := d (bitmapBlk b) (bitmapIdx b)

def markUsed (d : Disk) (b : Nat) : Disk :=
  putWord d (bitmapBlk b) (bitmapIdx b) (bitmapWord d b &&& ~~~(1#32 <<< (b % 32)))

def markFree (d : Disk) (b : Nat) : Disk :=
  putWord d (bitmapBlk b) (bitmapIdx b) (bitmapWord d b ||| (1#32 <<< (b % 32)))

theorem testBit_eq (w : Word) {k : Nat} (hk : k < 32) :
    (w &&& (1#32 <<< k) ≠ 0#32) ↔ w.getLsbD k = true := by
  have hbit : ∀ i, (w &&& (1#32 <<< k)).getLsbD i = (decide (i = k) && w.getLsbD i) := by
    intro i
    by_cases hi : i = k
    · subst hi
      simp [hk]
    · rcases Nat.lt_or_gt_of_ne hi with hlt | hgt
      · simp [hlt, hi]
      · have h0 : i - k ≠ 0 := by omega
        simp [hi, h0]
  constructor
  · intro h
    by_contra hf
    refine h (BitVec.eq_of_getLsbD_eq fun i _ => ?_)
    rw [hbit]
    by_cases hi : i = k
    · subst hi
      simp [hf]
    · simp [hi]
  · intro h h0
    have := hbit k
    rw [h0, h] at this
    simp at this

theorem getLsbD_mark (b c : Nat) (hb : b < 32) : (1#32 <<< b).getLsbD c = decide (c = b) := by
  by_cases h : c = b
  · subst h
    simp [hb]
  · rcases Nat.lt_or_gt_of_ne h with hlt | hgt
    · simp [hlt, h]
    · have h0 : c - b ≠ 0 := by omega
      simp [h, h0]

/-- Two blocks share a bitmap word exactly when they share 32 numbers. -/
theorem bitmap_ne (h : c / 32 ≠ b / 32) :
    bitmapBlk c ≠ bitmapBlk b ∨ bitmapIdx c ≠ bitmapIdx b := by
  unfold bitmapBlk bitmapIdx
  omega

theorem bitmap_eq (h : c / 32 = b / 32) :
    bitmapBlk c = bitmapBlk b ∧ bitmapIdx c = bitmapIdx b := by
  unfold bitmapBlk bitmapIdx
  rw [h]
  exact ⟨rfl, rfl⟩

theorem inUse_putBitmap {w : Word} :
    inUse (putWord d (bitmapBlk b) (bitmapIdx b) w) c ↔
      if c / 32 = b / 32 then w.getLsbD (c % 32) = false else inUse d c := by
  unfold inUse
  split
  · rename_i h
    obtain ⟨h1, h2⟩ := bitmap_eq h
    rw [h1, h2, putWord_same]
  · rename_i h
    rw [putWord_of_ne _ _ (bitmap_ne h)]

theorem inUse_of_word (h : c / 32 = b / 32) :
    inUse d c ↔ (bitmapWord d b).getLsbD (c % 32) = false := by
  obtain ⟨h1, h2⟩ := bitmap_eq h
  unfold inUse bitmapWord
  rw [h1, h2]

theorem inUse_markUsed : inUse (markUsed d b) c ↔ c = b ∨ inUse d c := by
  unfold markUsed
  rw [inUse_putBitmap]
  split
  · rename_i h
    rw [inUse_of_word h, BitVec.getLsbD_and, BitVec.getLsbD_not,
      getLsbD_mark _ _ (Nat.mod_lt _ (by omega))]
    have hcb : c % 32 = b % 32 ↔ c = b := by omega
    have h32 : c % 32 < 32 := Nat.mod_lt _ (by omega)
    by_cases he : c = b
    · subst he
      simp
    · simp [hcb, he, h32]
  · rename_i h
    have : c ≠ b := fun he => h (by rw [he])
    simp [this]

theorem inUse_markFree : inUse (markFree d b) c ↔ c ≠ b ∧ inUse d c := by
  unfold markFree
  rw [inUse_putBitmap]
  split
  · rename_i h
    rw [inUse_of_word h, BitVec.getLsbD_or,
      getLsbD_mark _ _ (Nat.mod_lt _ (by omega))]
    have hcb : c % 32 = b % 32 ↔ c = b := by omega
    by_cases he : c = b
    · subst he
      simp
    · simp [hcb, he]
  · rename_i h
    have : c ≠ b := fun he => h (by rw [he])
    simp [this]

section
variable (h : FsInv files spare d)
include h

/-- A store into the bitmap shows the same slots, sizes and types. -/
theorem FsInv.sameSlots_bitmap (hb : b < nblocks d)
    (w : Word) : SameSlots files d (putWord d (bitmapBlk b) (bitmapIdx b) w) := by
  have hblk : ∀ p, p ≠ bitmapBlk b → (putWord d (bitmapBlk b) (bitmapIdx b) w) p = d p := by
    intro p hp
    funext i
    exact putWord_of_ne _ _ (Or.inl hp)
  have hf : ∀ f ∈ files, (putWord d (bitmapBlk b) (bitmapIdx b) w) f.blk = d f.blk :=
    fun f hf => hblk _ (h.blk_ne_bitmap hf hb)
  refine ⟨?_, ?_, fun f hfm => by rw [hf f hfm], fun f hfm => by rw [hf f hfm]⟩
  · rw [hblk 1 (by unfold bitmapBlk; omega)]
  · intro s hs
    refine slotVal_congr hs (fun a _ _ => by rw [hf _ hs.mem]) fun h0 j _ => ?_
    refine congrFun (hblk _ fun he => ?_) j
    refine h.slot_free (.indirect s.file) hs.mem h0 ?_
    rw [slotVal_indirect, he]
    exact reserved_bitmapBlk hb

theorem FsInv.sameSlots_markUsed (hb : b < nblocks d) :
    SameSlots files d (markUsed d b) := h.sameSlots_bitmap hb _

theorem FsInv.sameSlots_markFree (hb : b < nblocks d) :
    SameSlots files d (markFree d b) := h.sameSlots_bitmap hb _

end

/-- **Taking a free block makes it spare.** -/
theorem FsInv.take (h : FsInv files ∅ d) (hb : b < nblocks d) (hfree : ¬ inUse d b) :
    FsInv files {b} (markUsed d b) := by
  have hnot : ¬ (Reserved d b ∨ b ∈ (∅ : Set Nat) ∨ InSlot files d b) := by
    rw [← h.used_iff b hb]
    exact hfree
  refine h.of_sameSlots (h.sameSlots_markUsed hb) ?_ ?_
  · intro c hc
    rw [inUse_markUsed, h.used_iff c hc]
    tauto
  · rintro c rfl
    refine ⟨hb, fun hr => hnot (Or.inl hr), fun s hs he => ?_⟩
    by_cases h0 : slotVal d s = 0#32
    · rw [h0] at he
      refine hnot (Or.inl ?_)
      unfold Reserved
      have : (0#32).toNat = 0 := rfl
      omega
    · exact hnot (Or.inr (Or.inr ⟨s, hs, h0, he⟩))

/-- **A spare block may be given back.** -/
theorem FsInv.giveBack (h : FsInv files {b} d) : FsInv files ∅ (markFree d b) := by
  obtain ⟨hb, hr, hs⟩ := h.spare_ok b rfl
  refine h.of_sameSlots (h.sameSlots_markFree hb) ?_ (fun c hc => hc.elim)
  intro c hc
  rw [inUse_markFree, h.used_iff c hc]
  have hnot : ¬ InSlot files d b := fun ⟨s, hin, _, he⟩ => hs s hin he
  constructor
  · rintro ⟨hcb, h1 | h1 | h1⟩
    · exact Or.inl h1
    · exact absurd h1 hcb
    · exact Or.inr (Or.inr h1)
  · rintro (h1 | h1 | h1)
    · exact ⟨fun he => hr (he ▸ h1), Or.inl h1⟩
    · exact h1.elim
    · exact ⟨fun he => hnot (he ▸ h1), Or.inr (Or.inr h1)⟩

/-! ## §6. Stores into a slot. -/

/-- Where a slot lies. -/
def slotLoc (d : Disk) : BlockSlot → Nat × Nat
  | .direct f i => (f.blk, f.fDirect i)
  | .indirect f => (f.blk, f.fIndirect)
  | .entry f j => ((indirectOf d f).toNat, j)

/-- Slot `s` now holds `w`; all else is as before. -/
structure SlotUpdate (files : Set FileP) (d d' : Disk) (s : BlockSlot) (w : Word) : Prop where
  nblocks : d' 1 1 = d 1 1
  slot : ∀ s' : BlockSlot, s'.In files → slotVal d' s' = if s' = s then w else slotVal d s'
  size : ∀ f ∈ files, d' f.blk f.fSize = d f.blk f.fSize
  type : ∀ f ∈ files, d' f.blk f.fType = d f.blk f.fType
  bitmap : ∀ b < Jos.nblocks d, d' (bitmapBlk b) (bitmapIdx b) = d (bitmapBlk b) (bitmapIdx b)

section
variable (h : FsInv files spare d)
include h

/-- A store into word `a` of a file record leaves the words of the other
records, the other words of this one, the indirect blocks and the bitmap. -/
theorem FsInv.putRecord (hf : f ∈ files) (ha : a < 64) (w : Word) :
    (∀ g ∈ files, ∀ c < 64, (g ≠ f ∨ c ≠ a) →
      putWord d f.blk (f.idx + a) w g.blk (g.idx + c) = d g.blk (g.idx + c)) ∧
    (∀ g ∈ files, indirectOf d g ≠ 0#32 → ∀ j,
      putWord d f.blk (f.idx + a) w (indirectOf d g).toNat j = d (indirectOf d g).toNat j) ∧
    putWord d f.blk (f.idx + a) w 1 1 = d 1 1 ∧
    ∀ b < nblocks d, putWord d f.blk (f.idx + a) w (bitmapBlk b) (bitmapIdx b) =
      d (bitmapBlk b) (bitmapIdx b) := by
  refine ⟨?_, ?_, ?_, ?_⟩
  · intro g hg c hc hne
    refine putWord_of_ne _ _ ?_
    by_contra hcon
    push Not at hcon
    obtain ⟨rfl, rfl⟩ := h.words_inj hg hf hc ha hcon.1 hcon.2
    exact hne.elim (fun h => h rfl) (fun h => h rfl)
  · intro g hg h0 j
    exact putWord_of_ne _ _ (Or.inl (h.blk_ne_indirect hf hg h0).symm)
  · refine putWord_of_ne _ _ ?_
    by_cases hb : f.blk = 1
    · exact Or.inr (h.idx_ne_nblocks hf hb).symm
    · exact Or.inl (fun h1 => hb h1.symm)
  · intro b hb
    exact putWord_of_ne _ _ (Or.inl (h.blk_ne_bitmap hf hb).symm)

theorem FsInv.update_direct (hf : f ∈ files) {i : Nat} (hi : i < NDIRECT) (w : Word) :
    SlotUpdate files d (putWord d f.blk (f.fDirect i) w) (.direct f i) w := by
  have hidx : f.fDirect i = f.idx + (34 + i) := by
    unfold FileP.fDirect
    omega
  unfold NDIRECT at hi
  rw [hidx]
  obtain ⟨hrec, hind, h1, hbm⟩ := h.putRecord hf (show 34 + i < 64 by omega) w
  refine ⟨h1, fun s' hs' => ?_, fun g hg => hrec g hg 32 (by omega) (Or.inr (by omega)),
    fun g hg => hrec g hg 33 (by omega) (Or.inr (by omega)), hbm⟩
  by_cases he : s' = .direct f i
  · subst he
    rw [if_pos rfl]
    show putWord d _ _ w f.blk (f.idx + 34 + i) = w
    rw [Nat.add_assoc, putWord_same]
  · rw [if_neg he]
    have hg := hs'.mem
    cases s' with
    | direct g k =>
      have hk := hs'.2
      unfold NDIRECT at hk
      have hne : g ≠ f ∨ 34 + k ≠ 34 + i := by
        by_contra hc
        push Not at hc
        exact he (by rw [hc.1, Nat.add_left_cancel hc.2])
      show putWord d _ _ w g.blk (g.idx + 34 + k) = d g.blk (g.idx + 34 + k)
      rw [Nat.add_assoc g.idx]
      exact hrec g hg (34 + k) (by omega) hne
    | indirect g => exact hrec g hg 44 (by omega) (Or.inr (by omega))
    | entry g j =>
      exact slotVal_entry_congr (hrec g hg 44 (by omega) (Or.inr (by omega))) fun h0 =>
        hind g hg h0 j

/-- `f_indirect` changes while no word of an indirect block of `f` is set,
before or after. -/
theorem FsInv.update_indirect (hf : f ∈ files) (w : Word)
    (hbefore : ∀ j < NINDIRECT, slotVal d (.entry f j) = 0#32)
    (hafter : w ≠ 0#32 → w.toNat ≠ f.blk ∧ ∀ j < NINDIRECT, d w.toNat j = 0#32) :
    SlotUpdate files d (putWord d f.blk f.fIndirect w) (.indirect f) w := by
  have hidx : f.fIndirect = f.idx + 44 := rfl
  rw [hidx]
  obtain ⟨hrec, hind, h1, hbm⟩ := h.putRecord hf (show 44 < 64 by omega) w
  have hio : ∀ g ∈ files, g ≠ f →
      indirectOf (putWord d f.blk (f.idx + 44) w) g = indirectOf d g :=
    fun g hg hne => hrec g hg 44 (by omega) (Or.inl hne)
  have hif : indirectOf (putWord d f.blk (f.idx + 44) w) f = w := putWord_same _ _ _ _
  refine ⟨h1, ?_, fun g hg => hrec g hg 32 (by omega) (Or.inr (by omega)),
    fun g hg => hrec g hg 33 (by omega) (Or.inr (by omega)), hbm⟩
  intro s' hs'
  cases s' with
  | direct g k =>
    have hk := hs'.2
    unfold NDIRECT at hk
    show putWord d _ _ w g.blk (g.idx + 34 + k) = d g.blk (g.idx + 34 + k)
    rw [show g.idx + 34 + k = g.idx + (34 + k) by omega]
    exact hrec g hs'.1 (34 + k) (by omega) (Or.inr (by omega))
  | indirect g =>
    by_cases he : g = f
    · subst he
      rw [if_pos rfl]
      exact hif
    · rw [if_neg (by simpa using he)]
      exact hio g hs' he
  | entry g j =>
    by_cases he : g = f
    · subst he
      rw [hbefore j hs'.2]
      show (if indirectOf _ g = 0#32 then _ else _) = _
      rw [hif]
      split
      · rfl
      · rename_i h0
        obtain ⟨hne, hz⟩ := hafter h0
        rw [putWord_of_ne _ _ (Or.inl hne)]
        exact hz j hs'.2
    · exact slotVal_entry_congr (hio g hs'.1 he) fun h0 => hind g hs'.1 h0 j

theorem FsInv.update_entry (hf : f ∈ files) {j : Nat} (h0 : indirectOf d f ≠ 0#32) (w : Word) :
    SlotUpdate files d (putWord d (indirectOf d f).toNat j w) (.entry f j) w := by
  have hblk : ∀ g ∈ files, putWord d (indirectOf d f).toNat j w g.blk = d g.blk := by
    intro g hg
    funext i
    exact putWord_of_ne _ _ (Or.inl (h.blk_ne_indirect hg hf h0))
  have hr := h.slot_free (.indirect f) hf h0
  have hio : ∀ g ∈ files, indirectOf (putWord d (indirectOf d f).toNat j w) g = indirectOf d g := by
    intro g hg
    exact congrFun (hblk g hg) _
  refine ⟨?_, ?_, fun g hg => congrFun (hblk g hg) _, fun g hg => congrFun (hblk g hg) _, ?_⟩
  · exact putWord_of_ne _ _ (Or.inl fun h1 => hr (by
      show Reserved d (indirectOf d f).toNat
      rw [← h1]
      exact reserved_one))
  · intro s' hs'
    cases s' with
    | direct g k =>
      exact congrFun (hblk g hs'.1) _
    | indirect g =>
      exact hio g hs'
    | entry g k =>
      show (if indirectOf _ g = 0#32 then _ else _) = _
      rw [hio g hs'.1]
      by_cases he : g = f ∧ k = j
      · obtain ⟨rfl, rfl⟩ := he
        rw [if_neg h0, if_pos rfl, putWord_same]
      · rw [if_neg (show BlockSlot.entry g k ≠ .entry f j from fun hc => he (by simpa using hc))]
        show _ = if indirectOf d g = 0#32 then _ else _
        split
        · rfl
        · rename_i hg0
          refine putWord_of_ne _ _ ?_
          by_contra hc
          push Not at hc
          have hs := h.slot_inj (.indirect g) (.indirect f) hs'.1 hf hg0
            (BitVec.eq_of_toNat_eq hc.1)
          exact he ⟨by simpa using hs, hc.2⟩
  · intro b hb
    exact putWord_of_ne _ _ (Or.inl fun he => hr (by
      show Reserved d (indirectOf d f).toNat
      rw [← he]
      exact reserved_bitmapBlk hb))

end

section

variable {s : BlockSlot} {w : Word}

theorem SlotUpdate.nblocks_eq (hu : SlotUpdate files d d' s w) :
    Jos.nblocks d' = Jos.nblocks d := by
  unfold Jos.nblocks
  rw [hu.nblocks]

theorem SlotUpdate.fileSize_eq (hu : SlotUpdate files d d' s w) (hf : f ∈ files) :
    fileSize d' f = fileSize d f := by
  unfold fileSize
  rw [hu.size f hf]

theorem SlotUpdate.slot_self (hu : SlotUpdate files d d' s w) (hs : s.In files) :
    slotVal d' s = w := by
  rw [hu.slot s hs, if_pos rfl]

theorem SlotUpdate.slot_of_ne (hu : SlotUpdate files d d' s w) {s' : BlockSlot}
    (hs' : s'.In files) (hne : s' ≠ s) : slotVal d' s' = slotVal d s' := by
  rw [hu.slot s' hs', if_neg hne]

theorem SlotUpdate.inUse_iff (hu : SlotUpdate files d d' s w)
    (hb : b < Jos.nblocks d) : inUse d' b ↔ inUse d b := by
  unfold inUse
  rw [hu.bitmap b hb]

/-- The files stay where they are unless the slot held a directory's block. -/
theorem Placed.of_slotUpdate (hu : SlotUpdate files d d' s w)
    (hs : slotVal d s = 0#32 ∨ fileType d s.file ≠ FTYPE_DIR) (hp : Placed files d f) :
    Placed files d' f := by
  rcases hp with hr | ⟨g, n, k, hg, ht, hn, h0, hb, hk, hi⟩
  · exact Or.inl hr
  · have hne : fileSlot g n ≠ s := by
      rintro rfl
      rcases hs with hs | hs
      · exact h0 hs
      · rw [fileSlot_file] at hs
        exact hs ht
    have hsl := hu.slot_of_ne (fileSlot_in hg hn) hne
    exact Or.inr ⟨g, n, k, hg, (hu.type g hg).trans ht, hn, by rw [hsl]; exact h0,
      by rw [hsl]; exact hb, hk, hi⟩

/-- **The spare block is used up by an empty slot**, one inside the file if it
is a data slot. -/
theorem FsInv.use (h : FsInv files {b} d) (hs : s.In files)
    (h0 : slotVal d s = 0#32) (hu : SlotUpdate files d d' s w) (hw : w.toNat = b)
    (hin : ∀ f n, s = fileSlot f n → n < fileBlocks d f) : FsInv files ∅ d' := by
  obtain ⟨hb, hr, hfresh⟩ := h.spare_ok b rfl
  have hw0 : w ≠ 0#32 := by
    rintro rfl
    refine hr ?_
    unfold Reserved
    have : (0#32).toNat = 0 := rfl
    omega
  -- a block stands in a slot afterwards if it did before or is the spare one
  have hslots : ∀ c, InSlot files d' c ↔ c = b ∨ InSlot files d c := by
    intro c
    constructor
    · rintro ⟨s', hs', hne, hc⟩
      by_cases he : s' = s
      · subst he
        rw [hu.slot_self hs'] at hc
        exact Or.inl (by omega)
      · rw [hu.slot_of_ne hs' he] at hne hc
        exact Or.inr ⟨s', hs', hne, hc⟩
    · rintro (rfl | ⟨s', hs', hne, hc⟩)
      · exact ⟨s, hs, by rw [hu.slot_self hs]; exact hw0, by rw [hu.slot_self hs]; exact hw⟩
      · have he : s' ≠ s := by
          rintro rfl
          exact hne h0
        exact ⟨s', hs', by rw [hu.slot_of_ne hs' he]; exact hne,
          by rw [hu.slot_of_ne hs' he]; exact hc⟩
  refine ⟨by rw [hu.nblocks_eq]; exact h.nblocks_le,
    fun f hf => (h.place f hf).of_slotUpdate hu (Or.inl h0), ?_, ?_, ?_, ?_,
    fun c hc => hc.elim, fun f hf => by rw [hu.fileSize_eq hf]; exact h.size_le f hf, ?_⟩
  · intro s' hs' hne
    rw [hu.nblocks_eq]
    by_cases he : s' = s
    · subst he
      rw [hu.slot_self hs', hw]
      exact hb
    · rw [hu.slot_of_ne hs' he] at hne ⊢
      exact h.slot_lt s' hs' hne
  · intro s' hs' hne
    rw [Reserved.of_nblocks hu.nblocks]
    by_cases he : s' = s
    · subst he
      rw [hu.slot_self hs', hw]
      exact hr
    · rw [hu.slot_of_ne hs' he] at hne ⊢
      exact h.slot_free s' hs' hne
  · intro s₁ s₂ h₁ h₂ hne heq
    by_cases he₁ : s₁ = s <;> by_cases he₂ : s₂ = s
    · rw [he₁, he₂]
    · subst he₁
      rw [hu.slot_self h₁, hu.slot_of_ne h₂ he₂] at heq
      exact absurd (by rw [← heq]; exact hw) (hfresh s₂ h₂)
    · subst he₂
      rw [hu.slot_self h₂, hu.slot_of_ne h₁ he₁] at heq
      exact absurd (by rw [heq]; exact hw) (hfresh s₁ h₁)
    · rw [hu.slot_of_ne h₁ he₁] at hne heq
      rw [hu.slot_of_ne h₂ he₂] at heq
      exact h.slot_inj s₁ s₂ h₁ h₂ hne heq
  · intro c hc
    rw [hu.nblocks_eq] at hc
    rw [hu.inUse_iff hc, h.used_iff c hc, Reserved.of_nblocks hu.nblocks, hslots]
    simp only [Set.mem_singleton_iff, Set.mem_empty_iff_false, false_or]
  · intro f hf n hn hle
    unfold fileBlocks at hle
    rw [hu.fileSize_eq hf] at hle
    have hne : fileSlot f n ≠ s := by
      intro he
      have := hin f n he.symm
      unfold fileBlocks at this
      omega
    rw [hu.slot_of_ne (fileSlot_in hf hn) hne]
    exact h.tail f hf n hn hle

/-- **Clearing a slot of a regular file makes its block spare.** -/
theorem FsInv.release (h : FsInv files ∅ d) (hs : s.In files) (h0 : slotVal d s ≠ 0#32)
    (hu : SlotUpdate files d d' s 0#32) (hreg : fileType d s.file ≠ FTYPE_DIR) :
    FsInv files {(slotVal d s).toNat} d' := by
  have hself := hu.slot_self hs
  have hne_of : ∀ s' : BlockSlot, s'.In files → slotVal d' s' ≠ 0#32 → s' ≠ s := by
    rintro s' _ hne rfl
    exact hne hself
  refine ⟨by rw [hu.nblocks_eq]; exact h.nblocks_le,
    fun f hf => (h.place f hf).of_slotUpdate hu (Or.inr hreg), ?_, ?_, ?_, ?_, ?_,
    fun f hf => by rw [hu.fileSize_eq hf]; exact h.size_le f hf, ?_⟩
  · intro s' hs' hne
    rw [hu.nblocks_eq]
    have he := hne_of s' hs' hne
    rw [hu.slot_of_ne hs' he] at hne ⊢
    exact h.slot_lt s' hs' hne
  · intro s' hs' hne
    rw [Reserved.of_nblocks hu.nblocks]
    have he := hne_of s' hs' hne
    rw [hu.slot_of_ne hs' he] at hne ⊢
    exact h.slot_free s' hs' hne
  · intro s₁ s₂ h₁ h₂ hne heq
    have he₁ := hne_of s₁ h₁ hne
    have he₂ := hne_of s₂ h₂ (by rw [← heq]; exact hne)
    rw [hu.slot_of_ne h₁ he₁] at hne heq
    rw [hu.slot_of_ne h₂ he₂] at heq
    exact h.slot_inj s₁ s₂ h₁ h₂ hne heq
  · intro c hc
    rw [hu.nblocks_eq] at hc
    rw [hu.inUse_iff hc, h.used_iff c hc, Reserved.of_nblocks hu.nblocks]
    simp only [Set.mem_singleton_iff, Set.mem_empty_iff_false, false_or]
    refine or_congr_right ⟨?_, ?_⟩
    · rintro ⟨s', hs', hne, rfl⟩
      by_cases he : s' = s
      · exact Or.inl (by rw [he])
      · exact Or.inr ⟨s', hs', by rw [hu.slot_of_ne hs' he]; exact hne,
          by rw [hu.slot_of_ne hs' he]⟩
    · rintro (rfl | ⟨s', hs', hne, rfl⟩)
      · exact ⟨s, hs, h0, rfl⟩
      · have he := hne_of s' hs' hne
        rw [hu.slot_of_ne hs' he] at hne ⊢
        exact ⟨s', hs', hne, rfl⟩
  · rintro c rfl
    refine ⟨by rw [hu.nblocks_eq]; exact h.slot_lt s hs h0,
      by rw [Reserved.of_nblocks hu.nblocks]; exact h.slot_free s hs h0, ?_⟩
    intro s' hs' he
    by_cases hss : s' = s
    · subst hss
      rw [hself] at he
      exact toNat_ne_zero h0 he.symm
    · rw [hu.slot_of_ne hs' hss] at he
      exact hss (h.slot_inj s s' hs hs' h0 (BitVec.eq_of_toNat_eq he.symm)).symm
  · intro f hf n hn hle
    unfold fileBlocks at hle
    rw [hu.fileSize_eq hf] at hle
    by_cases hne : fileSlot f n = s
    · rw [hne, hself]
    · rw [hu.slot_of_ne (fileSlot_in hf hn) hne]
      exact h.tail f hf n hn hle

end

/-! ## §7. The store into `f_size`. -/

/-- **A new size is consistent when no slot past it is set.** -/
theorem FsInv.setSize (h : FsInv files ∅ d) (hf : f ∈ files) {w : Word} (hw : w.toNat ≤ MAXFILESIZE)
    (htail : ∀ n < NDIRECT + NINDIRECT, (w.toNat + 4095) / 4096 ≤ n →
      slotVal d (fileSlot f n) = 0#32) :
    FsInv files ∅ (putWord d f.blk f.fSize w) ∧
      (∀ s : BlockSlot, s.In files → slotVal (putWord d f.blk f.fSize w) s = slotVal d s) ∧
      (∀ g ∈ files, fileType (putWord d f.blk f.fSize w) g = fileType d g) ∧
      ∀ g ∈ files, g ≠ f → fileSize (putWord d f.blk f.fSize w) g = fileSize d g := by
  obtain ⟨hrec, hind, h1, hbm⟩ := h.putRecord hf (show 32 < 64 by omega) w
  have hdef : putWord d f.blk f.fSize w = putWord d f.blk (f.idx + 32) w := rfl
  rw [hdef]
  have htype : ∀ g ∈ files, fileType (putWord d f.blk (f.idx + 32) w) g = fileType d g :=
    fun g hg => hrec g hg 33 (by omega) (Or.inr (by omega))
  have hself : fileSize (putWord d f.blk (f.idx + 32) w) f = w.toNat :=
    congrArg BitVec.toNat (putWord_same _ _ _ _)
  have hother : ∀ g ∈ files, g ≠ f →
      fileSize (putWord d f.blk (f.idx + 32) w) g = fileSize d g :=
    fun g hg hne => congrArg BitVec.toNat (hrec g hg 32 (by omega) (Or.inl hne))
  have hslot : ∀ s : BlockSlot, s.In files →
      slotVal (putWord d f.blk (f.idx + 32) w) s = slotVal d s := by
    intro s hs
    exact slotVal_congr hs (fun c _ _ => hrec _ hs.mem c (by omega) (Or.inr (by omega)))
      fun h0 j _ => hind _ hs.mem h0 j
  refine ⟨?_, hslot, htype, hother⟩
  have hnb : nblocks (putWord d f.blk (f.idx + 32) w) = nblocks d := by
    unfold nblocks
    rw [h1]
  refine ⟨by rw [hnb]; exact h.nblocks_le, ?_, ?_, ?_, ?_, ?_, fun c hc => hc.elim, ?_, ?_⟩
  · intro g hg
    rcases h.place g hg with hr | ⟨g', n, k, hg', ht, hn, h0, hb, hk, hi⟩
    · exact Or.inl hr
    · have hsl := hslot _ (fileSlot_in hg' hn)
      exact Or.inr ⟨g', n, k, hg', (htype g' hg').trans ht, hn, by rw [hsl]; exact h0,
        by rw [hsl]; exact hb, hk, hi⟩
  · intro s hs h0
    rw [hslot s hs] at h0 ⊢
    rw [hnb]
    exact h.slot_lt s hs h0
  · intro s hs h0
    rw [hslot s hs] at h0 ⊢
    rw [Reserved.of_nblocks h1]
    exact h.slot_free s hs h0
  · intro s s' hs hs' h0 he
    rw [hslot s hs] at h0
    rw [hslot s hs, hslot s' hs'] at he
    exact h.slot_inj s s' hs hs' h0 he
  · intro b hb
    rw [hnb] at hb
    have hu : inUse (putWord d f.blk (f.idx + 32) w) b ↔ inUse d b := by
      unfold inUse
      rw [hbm b hb]
    have hex : InSlot files (putWord d f.blk (f.idx + 32) w) b ↔ InSlot files d b :=
      exists_congr fun s => and_congr_right fun hs => by rw [hslot s hs]
    rw [hu, h.used_iff b hb, Reserved.of_nblocks h1, hex]
  · intro g hg
    by_cases he : g = f
    · rw [he, hself]
      exact hw
    · rw [hother g hg he]
      exact h.size_le g hg
  · intro g hg n hn hle
    rw [hslot _ (fileSlot_in hg hn)]
    unfold fileBlocks at hle
    by_cases he : g = f
    · subst he
      rw [hself] at hle
      exact htail n hn hle
    · rw [hother g hg he] at hle
      exact h.tail g hg n hn hle

end

end Jos
