/-
  Jos.Fs.Files — **THE FILE OPERATIONS KEEP THE FILE SYSTEM CONSISTENT.**

  One specification for each function of `fs.c`, from `alloc_block` up to
  `file_write`: started on a consistent file system it returns with one, and
  it stops only when the disk is full.  `Grows` and `Shrinks` say what happened
  to the slots on the way.
-/
import Jos.Fs.Owner

namespace Jos

open Exec
open Function (update update_of_ne update_self update_comm)

variable {s : BlockSlot} {d₁ d₂ d₃ : Disk} {b i p : Nat} {spare : Set Nat} {filebno offset w : Word}

variable {files : Set FileP} {d d' : Disk} {f g : FileP}

/-! ## §1. Blocks. -/

/-- No block is free. -/
def Full (d : Disk) : Prop := ∀ b < nblocks d, inUse d b

theorem load_ok (b i : Nat) (d : Disk) : load b i d = .ok (d b i) d := rfl

theorem store_ok (b i : Nat) (w : Word) (d : Disk) : store b i w d = .ok () (putWord d b i w) := rfl

theorem clearBlock_ok (b : Nat) (d : Disk) :
    clearBlock b d = .ok () (update d b fun _ => 0#32) := rfl

theorem sNblocks_ok (d : Disk) : sNblocks d = .ok (d 1 1) d := rfl

theorem blockIsFree_ok (hi : i < nblocks d) :
    blockIsFree (BitVec.ofNat 32 i) d = .ok (decide (¬ inUse d i)) d := by
  have hlt : i < 2 ^ 32 := lt_trans hi (BitVec.isLt _)
  have hto : (BitVec.ofNat 32 i).toNat = i := toNat_ofNat_lt hlt
  have hle : ¬ d 1 1 ≤ BitVec.ofNat 32 i := by
    rw [BitVec.le_def, hto]
    exact Nat.not_le.mpr hi
  unfold blockIsFree
  rw [bind_ok (sNblocks_ok d), if_neg hle, hto, bind_ok (load_ok _ _ d)]
  show EStateM.Result.ok _ d = _
  congr 1
  rw [decide_eq_decide, testBit_eq _ (Nat.mod_lt _ (by omega))]
  unfold inUse
  simp

theorem diskaddr_ok (h0 : w ≠ 0#32) (hw : w.toNat < nblocks d) : diskaddr w d = .ok w.toNat d := by
  have hle : ¬ (w = 0#32 ∨ d 1 1 ≤ w) := by
    rintro (h | h)
    · exact h0 h
    · rw [BitVec.le_def] at h
      unfold nblocks at hw
      omega
  unfold diskaddr
  rw [bind_ok (sNblocks_ok d), if_neg hle]
  rfl

theorem diskaddr_bad (hw : nblocks d ≤ w.toNat) :
    diskaddr w d = .error "bad block number in diskaddr" d := by
  unfold diskaddr
  rw [bind_ok (sNblocks_ok d), if_pos (Or.inr (show d 1 1 ≤ w from hw))]
  rfl

theorem FsInv.zero_inUse (h : FsInv files spare d) (hnb : 0 < nblocks d) : inUse d 0 := by
  rw [h.used_iff 0 hnb]
  refine Or.inl ?_
  unfold Reserved
  omega

/-- What `alloc_block` does: the first free block is taken, or there is none. -/
def BlockAllocated (d : Disk) (w : Word) (d' : Disk) : Prop :=
  (∃ b < nblocks d, ¬ inUse d b ∧ w = BitVec.ofNat 32 b ∧ d' = markUsed d b) ∨
    (Full d ∧ w = -E_NO_DISK ∧ d' = d)

theorem allocBlockFrom_spec (hz : 0 < nblocks d → inUse d 0) :
    ∀ n i, i + n = nblocks d → (∀ c < i, inUse d c) →
      wp (allocBlockFrom n i) (BlockAllocated d) (fun _ _ => False) d := by
  intro n
  induction n with
  | zero =>
    intro i hi hall
    exact Or.inr ⟨fun b hb => hall b (by omega), rfl, rfl⟩
  | succ n ih =>
    intro i hi hall
    have hlt : i < nblocks d := by omega
    have hto : (BitVec.ofNat 32 i).toNat = i := toNat_ofNat_lt (lt_trans hlt (BitVec.isLt _))
    refine wp_bind_ok (blockIsFree_ok hlt) ?_
    by_cases hu : inUse d i
    · rw [if_neg (by simpa using hu)]
      refine ih (i + 1) (by omega) (fun c hc => ?_)
      rcases Nat.lt_succ_iff_lt_or_eq.mp hc with h | rfl
      · exact hall c h
      · exact hu
    · rw [if_pos (by simpa using hu)]
      refine wp_bind_ok (load_ok _ _ d) (wp_bind_ok (store_ok _ _ _ d) ?_)
      -- block 0 is in use, so the number passes `diskaddr`
      have h0 : BitVec.ofNat 32 i ≠ 0#32 := by
        intro h
        rw [h] at hto
        exact hu (by rw [← hto]; exact hz (by omega))
      refine wp_bind_ok (diskaddr_ok h0 ?_) ?_
      · rw [hto]
        show i < (putWord d _ _ _ 1 1).toNat
        rw [putWord_of_ne _ _ (Or.inl (by unfold bitmapBlk; omega))]
        exact hlt
      · exact Or.inl ⟨i, hlt, hu, rfl, rfl⟩

/-- **`alloc_block` takes a free block whenever there is one.** -/
theorem allocBlock_spec (h : FsInv files spare d) :
    wp allocBlock (BlockAllocated d) (fun _ _ => False) d := by
  refine wp_bind_ok (sNblocks_ok d) ?_
  exact allocBlockFrom_spec h.zero_inUse _ 0 (by unfold nblocks; omega) (fun c hc => by omega)

/-- The error code is no block number. -/
theorem noDisk_bad (h : nblocks d ≤ 0xC0000) : nblocks d ≤ (-E_NO_DISK).toNat := by
  have : (-E_NO_DISK).toNat = 0xFFFFFFF7 := by decide
  omega

theorem freeBlock_ok (h0 : w ≠ 0#32) : freeBlock w d = .ok () (markFree d w.toNat) := by
  unfold freeBlock
  rw [if_neg h0, bind_ok (load_ok _ _ d)]
  rfl

/-! ## §2. What happens to the slots. -/

/-- `d'` has grown from `d` by blocks of `f`. -/
structure Grows (files : Set FileP) (f : FileP) (d d' : Disk) : Prop where
  nblocks : d' 1 1 = d 1 1
  size : ∀ g ∈ files, d' g.blk g.fSize = d g.blk g.fSize
  type : ∀ g ∈ files, d' g.blk g.fType = d g.blk g.fType
  kept : ∀ s : BlockSlot, s.In files → slotVal d s ≠ 0#32 → slotVal d' s = slotVal d s
  other : ∀ s : BlockSlot, s.In files → s.file ≠ f → slotVal d' s = slotVal d s

theorem Grows.refl (files : Set FileP) (f : FileP) (d : Disk) : Grows files f d d :=
  ⟨rfl, fun _ _ => rfl, fun _ _ => rfl, fun _ _ _ => rfl, fun _ _ _ => rfl⟩

theorem Grows.trans (h : Grows files f d₁ d₂) (h' : Grows files f d₂ d₃) : Grows files f d₁ d₃ := by
  refine ⟨h'.nblocks.trans h.nblocks, fun g hg => (h'.size g hg).trans (h.size g hg),
    fun g hg => (h'.type g hg).trans (h.type g hg), ?_,
    fun s hs hne => (h'.other s hs hne).trans (h.other s hs hne)⟩
  intro s hs h0
  have h1 := h.kept s hs h0
  rw [← h1] at h0
  exact (h'.kept s hs h0).trans h1

theorem Grows.fileSize_eq (h : Grows files f d d') (hg : g ∈ files) :
    fileSize d' g = fileSize d g := by
  unfold fileSize
  rw [h.size g hg]

theorem Grows.fileBlocks_eq (h : Grows files f d d') (hg : g ∈ files) :
    fileBlocks d' g = fileBlocks d g := by
  unfold fileBlocks
  rw [h.fileSize_eq hg]

theorem Grows.fileType_eq (h : Grows files f d d') (hg : g ∈ files) :
    fileType d' g = fileType d g := h.type g hg

theorem SameSlots.grows (h : SameSlots files d d') (f : FileP) : Grows files f d d' :=
  ⟨h.nblocks, h.size, h.type, fun s hs _ => h.slot s hs, fun s hs _ => h.slot s hs⟩

theorem SlotUpdate.grows (h : SlotUpdate files d d' s w)
    (h0 : slotVal d s = 0#32) : Grows files s.file d d' := by
  refine ⟨h.nblocks, h.size, h.type, fun s' hs' hne => ?_, fun s' hs' hne => ?_⟩
  · exact h.slot_of_ne hs' (by rintro rfl; exact hne h0)
  · exact h.slot_of_ne hs' (by rintro rfl; exact hne rfl)

/-- Outside the reserved blocks, the record of `f` and its indirect block
nothing is stored. -/
def Elsewhere (f : FileP) (d d' : Disk) : Prop :=
  ∀ p, ¬ Reserved d p → p ≠ f.blk →
    (indirectOf d' f ≠ 0#32 → p ≠ (indirectOf d' f).toNat) → d' p = d p

/-- `d'` has lost blocks of `f`. -/
structure Shrinks (files : Set FileP) (f : FileP) (d d' : Disk) : Prop where
  nblocks : d' 1 1 = d 1 1
  size : ∀ g ∈ files, d' g.blk g.fSize = d g.blk g.fSize
  type : ∀ g ∈ files, d' g.blk g.fType = d g.blk g.fType
  slot : ∀ s : BlockSlot, s.In files → slotVal d' s = slotVal d s ∨ slotVal d' s = 0#32
  other : ∀ s : BlockSlot, s.In files → s.file ≠ f → slotVal d' s = slotVal d s

theorem Shrinks.refl (files : Set FileP) (f : FileP) (d : Disk) : Shrinks files f d d :=
  ⟨rfl, fun _ _ => rfl, fun _ _ => rfl, fun _ _ => Or.inl rfl, fun _ _ _ => rfl⟩

theorem Shrinks.trans (h : Shrinks files f d₁ d₂)
    (h' : Shrinks files f d₂ d₃) : Shrinks files f d₁ d₃ := by
  refine ⟨h'.nblocks.trans h.nblocks, fun g hg => (h'.size g hg).trans (h.size g hg),
    fun g hg => (h'.type g hg).trans (h.type g hg), ?_,
    fun s hs hne => (h'.other s hs hne).trans (h.other s hs hne)⟩
  intro s hs
  rcases h'.slot s hs with h1 | h1
  · rw [h1]
    exact h.slot s hs
  · exact Or.inr h1

section
variable (h : Shrinks files f d d')
include h

theorem Shrinks.fileSize_eq (hg : g ∈ files) : fileSize d' g = fileSize d g := by
  unfold fileSize
  rw [h.size g hg]

theorem Shrinks.fileType_eq (hg : g ∈ files) :
    fileType d' g = fileType d g := h.type g hg

/-- A slot that is empty stays empty. -/
theorem Shrinks.zero (hs : s.In files) (h0 : slotVal d s = 0#32) : slotVal d' s = 0#32 := by
  rcases h.slot s hs with h1 | h1
  · rw [h1, h0]
  · exact h1

end

/-! ## §3. The block walk. -/

/-- The slot of file block `n` lies at `loc`, with its indirect block present. -/
def Walked (d : Disk) (f : FileP) (n : Nat) (loc : Nat × Nat) : Prop :=
  loc = slotLoc d (fileSlot f n) ∧ (NDIRECT ≤ n → indirectOf d f ≠ 0#32)

section

variable {n : Nat} {loc : Nat × Nat}

theorem walked_direct (d : Disk) (f : FileP) (hn : n < NDIRECT) :
    Walked d f n (f.blk, f.fDirect n) := by
  refine ⟨?_, fun h => absurd hn (Nat.not_lt.mpr h)⟩
  unfold fileSlot
  rw [if_pos hn]
  rfl

theorem walked_entry (hn : NDIRECT ≤ n) (h0 : indirectOf d f ≠ 0#32) :
    Walked d f n ((indirectOf d f).toNat, n - NDIRECT) := by
  refine ⟨?_, fun _ => h0⟩
  unfold fileSlot
  rw [if_neg (Nat.not_lt.mpr hn)]
  rfl

theorem Walked.load (h : Walked d f n loc) : d loc.1 loc.2 = slotVal d (fileSlot f n) := by
  obtain ⟨rfl, h0⟩ := h
  unfold fileSlot
  split
  · rfl
  · show d (indirectOf d f).toNat (n - NDIRECT) = if indirectOf d f = 0#32 then _ else _
    rw [if_neg (h0 (by omega))]

/-- A store through the pointer of the walk changes that slot alone. -/
theorem Walked.update (hw : Walked d f n loc) (h : FsInv files spare d)
    (hf : f ∈ files) (w : Word) :
    SlotUpdate files d (putWord d loc.1 loc.2 w) (fileSlot f n) w := by
  obtain ⟨rfl, h0⟩ := hw
  unfold fileSlot
  split
  · exact h.update_direct hf (by assumption) w
  · exact h.update_entry hf (h0 (by omega)) w

theorem Walked.outside (hw : Walked d f n loc) (hblk : p ≠ f.blk)
    (hind : indirectOf d f ≠ 0#32 → p ≠ (indirectOf d f).toNat) : p ≠ loc.1 := by
  obtain ⟨rfl, h0⟩ := hw
  unfold fileSlot
  split
  · exact hblk
  · exact hind (h0 (by omega))

/-- The pointer outlives stores that leave `f_indirect` alone. -/
theorem Walked.of_indirect (hw : Walked d f n loc) (h : indirectOf d' f = indirectOf d f) :
    Walked d' f n loc := by
  obtain ⟨rfl, h0⟩ := hw
  refine ⟨?_, by rw [h]; exact h0⟩
  unfold fileSlot
  split
  · rfl
  · show ((indirectOf d f).toNat, _) = ((indirectOf d' f).toNat, _)
    rw [h]

end

/-- `f_indirect` is set to a fresh block, cleared before. -/
theorem FsInv.addIndirect (h : FsInv files ∅ d) (hf : f ∈ files) (h0 : indirectOf d f = 0#32)
    (hb : b < nblocks d) (hfree : ¬ inUse d b)
    (hd' : d' = putWord (update (markUsed d b) b fun _ => 0#32) f.blk f.fIndirect
      (BitVec.ofNat 32 b)) :
    FsInv files ∅ d' ∧ indirectOf d' f = BitVec.ofNat 32 b ∧ Grows files f d d' ∧
      Elsewhere f d d' ∧
      ∀ s : BlockSlot, s.In files → s ≠ .indirect f → slotVal d' s = slotVal d s := by
  have hto : (BitVec.ofNat 32 b).toNat = b := toNat_ofNat_lt (lt_trans hb (BitVec.isLt _))
  have h1 := h.take hb hfree
  have hm1 := h.sameSlots_markUsed hb
  have hm2 : SameMeta files (markUsed d b) (update (markUsed d b) b fun _ => 0#32) :=
    h1.sameMeta_spare rfl (fun p hp => update_of_ne hp _ _)
  have h2 := h1.of_sameMeta hm2
  have hz : ∀ j < NINDIRECT,
      slotVal (update (markUsed d b) b fun _ => 0#32) (.entry f j) = 0#32 := by
    intro j hj
    rw [hm2.slot (.entry f j) ⟨hf, hj⟩]
    refine (hm1.slot (.entry f j) ⟨hf, hj⟩).trans ?_
    exact if_pos h0
  have hblk : b ≠ f.blk := by
    intro he
    obtain ⟨_, hr, hs⟩ := h1.spare_ok b rfl
    rcases h1.blk_cases hf with rfl | ⟨_, g, n, k, hg, _, hn, _, hbk, _⟩
    · exact hr (by rw [he]; exact reserved_one)
    · exact hs _ (fileSlot_in hg hn) (by rw [← hbk, he])
  have hu := h2.update_indirect hf (BitVec.ofNat 32 b) hz (fun _ => by
    rw [hto]
    exact ⟨hblk, fun j _ => by rw [update_self]⟩)
  have h0' : slotVal (update (markUsed d b) b fun _ => 0#32) (.indirect f) = 0#32 := by
    rw [hm2.slot (.indirect f) hf]
    exact (hm1.slot (.indirect f) hf).trans h0
  subst hd'
  refine ⟨h2.use (s := .indirect f) hf h0' hu hto
      (fun g n he => absurd he.symm (fileSlot_ne_indirect _ _ _)),
    putWord_same _ _ _ _, ((hm1.grows f).trans (hm2.grows f)).trans (hu.grows h0'), ?_, ?_⟩
  · intro p hp hblk hind
    -- the three stores are into the record, the new block and the bitmap
    have hpb : p ≠ b := by
      have hi : indirectOf (putWord (update (markUsed d b) b fun _ => 0#32) f.blk
          f.fIndirect (BitVec.ofNat 32 b)) f = BitVec.ofNat 32 b := putWord_same _ _ _ _
      rw [hi, hto] at hind
      apply hind
      intro h0
      rw [h0] at hto
      exact hfree (by rw [← hto]; exact h.zero_inUse (by omega))
    funext i
    rw [putWord_of_ne _ _ (Or.inl hblk), update_of_ne hpb]
    exact putWord_of_ne _ _ (Or.inl fun he => hp (by rw [he]; exact reserved_bitmapBlk hb))
  · intro s hs hne
    rw [hu.slot_of_ne hs hne, hm2.slot s hs]
    exact hm1.slot s hs

/-- **`file_block_walk` with `alloc`** finds the slot, unless the disk is full. -/
theorem fileBlockWalk_spec (h : FsInv files ∅ d) (hf : f ∈ files)
    (hn : filebno.toNat < NDIRECT + NINDIRECT) :
    wp (fileBlockWalk f filebno true)
      (fun r d' => ∃ loc, r = .ok loc ∧ FsInv files ∅ d' ∧ Walked d' f filebno.toNat loc ∧
        Grows files f d d' ∧ Elsewhere f d d' ∧
        ∀ s : BlockSlot, s.In files → s ≠ .indirect f → slotVal d' s = slotVal d s)
      (fun _ d' => Full d') d := by
  unfold fileBlockWalk
  by_cases h1 : filebno.toNat < NDIRECT
  · rw [if_pos h1]
    exact ⟨_, rfl, h, walked_direct d f h1, Grows.refl files f d, fun _ _ _ _ => rfl,
      fun _ _ _ => rfl⟩
  rw [if_neg h1, if_pos hn]
  refine wp_bind_ok (load_ok _ _ d) ?_
  by_cases h0 : indirectOf d f = 0#32
  · rw [if_neg (by simpa [indirectOf] using h0), if_pos rfl]
    refine wp_seq (wp_mono (allocBlock_spec h) (fun _ _ h => h) (fun _ _ h => h.elim)) ?_
    rintro w d₁ (⟨b, hb, hfree, rfl, rfl⟩ | ⟨hfull, rfl, rfl⟩)
    · have hto : (BitVec.ofNat 32 b).toNat = b := toNat_ofNat_lt (lt_trans hb (BitVec.isLt _))
      have hnb : nblocks (markUsed d b) = nblocks d :=
        (h.sameSlots_markUsed hb).nblocks_eq
      have hb0 : BitVec.ofNat 32 b ≠ 0#32 := by
        intro he
        rw [he] at hto
        exact hfree (by rw [← hto]; exact h.zero_inUse (by omega))
      refine wp_bind_ok (diskaddr_ok hb0 (by rw [hto, hnb]; exact hb)) ?_
      refine wp_bind_ok (clearBlock_ok _ _) ?_
      refine wp_bind_ok (store_ok _ _ _ _) (wp_bind_ok (load_ok _ _ _) ?_)
      rw [hto]
      obtain ⟨h', hi, hg, helse, honly⟩ := h.addIndirect hf h0 hb hfree rfl
      have hi0 := hi
      unfold indirectOf at hi
      rw [hi]
      refine wp_bind_ok (diskaddr_ok hb0 ?_) ?_
      · have hlt := h'.slot_lt (.indirect f) hf
        rw [slotVal_indirect, hi0] at hlt
        exact hlt hb0
      · refine ⟨_, rfl, h', ?_, hg, helse, honly⟩
        have := walked_entry (n := filebno.toNat) (Nat.not_lt.mp h1)
          (show indirectOf _ f ≠ 0#32 by rw [hi0]; exact hb0)
        rw [hi0] at this
        exact this
    · refine (wp_bind _ _ _ _ _).mpr (wp_of_error (diskaddr_bad (noDisk_bad h.nblocks_le)) hfull)
  · rw [if_pos (by simpa [indirectOf] using h0)]
    refine wp_bind_ok (diskaddr_ok h0 (h.slot_lt (.indirect f) hf h0)) ?_
    exact ⟨_, rfl, h, walked_entry (Nat.not_lt.mp h1) h0, Grows.refl files f d,
      fun _ _ _ _ => rfl, fun _ _ _ => rfl⟩

/-- A block of a file has a slot. -/
theorem FsInv.block_lt (h : FsInv files spare d) (hf : f ∈ files) {n : Nat}
    (hn : n < fileBlocks d f) : n < NDIRECT + NINDIRECT := by
  have := h.size_le f hf
  unfold fileBlocks MAXFILESIZE NDIRECT NINDIRECT BLKSIZE at *
  omega

/-- After `file_get_block` of file block `n`: its slot holds `b`, and only this
slot and `f_indirect` may have been set. -/
structure GotBlock (files : Set FileP) (f : FileP) (n b : Nat) (d d' : Disk) : Prop where
  inv : FsInv files ∅ d'
  grows : Grows files f d d'
  elsewhere : Elsewhere f d d'
  only : ∀ s : BlockSlot, s.In files → s ≠ .indirect f → s ≠ fileSlot f n →
    slotVal d' s = slotVal d s
  set : slotVal d' (fileSlot f n) ≠ 0#32
  block : (slotVal d' (fileSlot f n)).toNat = b

/-- **`file_get_block`** of a block inside the file gives the block of its
slot, unless the disk is full. -/
theorem fileGetBlock_spec (h : FsInv files ∅ d) (hf : f ∈ files)
    (hn : filebno.toNat < fileBlocks d f) :
    wp (fileGetBlock f filebno)
      (fun r d' => ∃ b, r = .ok b ∧ GotBlock files f filebno.toNat b d d')
      (fun _ d' => Full d') d := by
  have hmax := h.block_lt hf hn
  refine wp_seq (fileBlockWalk_spec h hf hmax) ?_
  rintro r d₁ ⟨loc, rfl, h₁, hw, hg₁, helse, honly⟩
  refine wp_bind_ok (load_ok _ _ d₁) ?_
  have hin := fileSlot_in hf hmax
  rw [hw.load]
  by_cases h0 : slotVal d₁ (fileSlot f filebno.toNat) = 0#32
  · rw [if_pos h0]
    refine wp_seq (wp_mono (allocBlock_spec h₁) (fun _ _ h => h) (fun _ _ h => h.elim)) ?_
    rintro w d₂ (⟨b, hb, hfree, rfl, rfl⟩ | ⟨hfull, rfl, rfl⟩)
    · have hto : (BitVec.ofNat 32 b).toNat = b := toNat_ofNat_lt (lt_trans hb (BitVec.isLt _))
      have hb0 : BitVec.ofNat 32 b ≠ 0#32 := by
        intro he
        rw [he] at hto
        exact hfree (by rw [← hto]; exact h₁.zero_inUse (by omega))
      have hm := h₁.sameSlots_markUsed hb
      have h₂ := h₁.take hb hfree
      have hw₂ : Walked (markUsed d₁ b) f filebno.toNat loc :=
        hw.of_indirect (hm.slot (.indirect f) hf)
      have hu := hw₂.update h₂ hf (BitVec.ofNat 32 b)
      have h0₂ : slotVal (markUsed d₁ b) (fileSlot f filebno.toNat) = 0#32 :=
        (hm.slot _ hin).trans h0
      have hg₂ := (hg₁.trans (hm.grows f)).trans (fileSlot_file f filebno.toNat ▸ hu.grows h0₂)
      have h₃ : FsInv files ∅ (putWord (markUsed d₁ b) loc.1 loc.2 (BitVec.ofNat 32 b)) := by
        refine h₂.use hin h0₂ hu hto ?_
        intro g m he
        obtain ⟨rfl, rfl⟩ := fileSlot_inj he
        rw [(hg₁.trans (hm.grows f)).fileBlocks_eq hf]
        exact hn
      have hself := hu.slot_self hin
      refine wp_bind_ok (store_ok _ _ _ _) (wp_bind_ok (load_ok _ _ _) ?_)
      rw [putWord_same]
      refine wp_bind_ok (diskaddr_ok hb0 ?_) ?_
      · have := h₃.slot_lt _ hin (by rw [hself]; exact hb0)
        rw [hself] at this
        exact this
      · refine ⟨_, rfl, h₃, hg₂, ?_, ?_, by rw [hself]; exact hb0, by rw [hself]⟩
        · intro p hp hblk hind
          -- the slot lies in the record or in the indirect block
          have hi : indirectOf (putWord (markUsed d₁ b) loc.1 loc.2 (BitVec.ofNat 32 b)) f =
              indirectOf d₁ f := by
            have hne : BlockSlot.indirect f ≠ fileSlot f filebno.toNat :=
              (fileSlot_ne_indirect _ _ _).symm
            exact (hu.slot_of_ne (show (BlockSlot.indirect f).In files from hf) hne).trans
              (hm.slot (.indirect f) hf)
          rw [hi] at hind
          have hloc : p ≠ loc.1 := hw.outside hblk hind
          have hbit : p ≠ bitmapBlk b := by
            intro he
            apply hp
            rw [he, ← Reserved.of_nblocks hg₁.nblocks]
            exact reserved_bitmapBlk hb
          rw [← helse p hp hblk hind]
          funext i
          rw [putWord_of_ne _ _ (Or.inl hloc)]
          exact putWord_of_ne _ _ (Or.inl hbit)
        · intro s hs hne hne'
          rw [hu.slot_of_ne hs hne']
          exact (hm.slot s hs).trans (honly s hs hne)
    · refine wp_bind_ok (store_ok _ _ _ _) (wp_bind_ok (load_ok _ _ _) ?_)
      rw [putWord_same]
      have hu := hw.update h₁ hf (-E_NO_DISK)
      refine (wp_bind _ _ _ _ _).mpr (wp_of_error
        (diskaddr_bad (noDisk_bad (by rw [hu.nblocks_eq]; exact h₁.nblocks_le))) ?_)
      intro b hb
      rw [hu.nblocks_eq] at hb
      rw [hu.inUse_iff hb]
      exact hfull b hb
  · rw [if_neg h0]
    refine wp_bind_ok (load_ok _ _ _) ?_
    rw [hw.load]
    refine wp_bind_ok (diskaddr_ok h0 (h₁.slot_lt _ hin h0)) ?_
    exact ⟨_, rfl, h₁, hg₁, helse, fun s hs hne _ => honly s hs hne, h0, rfl⟩

/-! ## §4. Freeing blocks. -/

theorem putWord_comm {m : Nat → Nat → Word} {p q : Nat} (h : p ≠ q) (i j : Nat) (v w : Word) :
    putWord (putWord m p i v) q j w = putWord (putWord m q j w) p i v := by
  unfold putWord
  rw [update_of_ne h.symm, update_of_ne h, update_comm h]

/-- The bit is set and then the slot is cleared; the slot lies outside the
bitmap. -/
theorem FsInv.freeSlot (h : FsInv files ∅ d) (hs : s.In files)
    (h0 : slotVal d s ≠ 0#32) (hreg : fileType d s.file ≠ FTYPE_DIR)
    (hloc : ∀ b < nblocks d, p ≠ bitmapBlk b) (hu : SlotUpdate files d (putWord d p i 0#32) s 0#32)
    (hd' : d' = putWord (markFree d (slotVal d s).toNat) p i 0#32) :
    FsInv files ∅ d' ∧ Shrinks files s.file d d' ∧ slotVal d' s = 0#32 := by
  have hb := h.slot_lt s hs h0
  have hcomm : d' = markFree (putWord d p i 0#32) (slotVal d s).toNat := by
    rw [hd']
    unfold markFree bitmapWord
    rw [putWord_comm (hloc _ hb).symm, putWord_of_ne _ _ (Or.inl (hloc _ hb).symm)]
  have h1 := h.release hs h0 hu hreg
  have hm := h1.sameSlots_markFree (by rw [hu.nblocks_eq]; exact hb)
  subst hcomm
  refine ⟨h1.giveBack, ⟨hm.nblocks.trans hu.nblocks,
    fun g hg => (hm.size g hg).trans (hu.size g hg),
    fun g hg => (hm.type g hg).trans (hu.type g hg), ?_, ?_⟩, ?_⟩
  · intro s' hs'
    rw [hm.slot s' hs', hu.slot s' hs']
    split
    · exact Or.inr rfl
    · exact Or.inl rfl
  · intro s' hs' hne
    rw [hm.slot s' hs', hu.slot_of_ne hs' (by rintro rfl; exact hne rfl)]
  · rw [hm.slot s hs, hu.slot_self hs]

/-- `file_block_walk` without `alloc`: the slot, or no indirect block. -/
theorem fileBlockWalk_noAlloc (h : FsInv files ∅ d) (hf : f ∈ files)
    (hn : filebno.toNat < NDIRECT + NINDIRECT) :
    (∃ loc, fileBlockWalk f filebno false d = .ok (.ok loc) d ∧ Walked d f filebno.toNat loc) ∨
      (∃ r, fileBlockWalk f filebno false d = .ok (.error r) d ∧
        slotVal d (fileSlot f filebno.toNat) = 0#32) := by
  unfold fileBlockWalk
  by_cases h1 : filebno.toNat < NDIRECT
  · rw [if_pos h1]
    exact Or.inl ⟨_, rfl, walked_direct d f h1⟩
  rw [if_neg h1, if_pos hn, bind_ok (load_ok _ _ d)]
  by_cases h0 : indirectOf d f = 0#32
  · rw [if_neg (by simpa [indirectOf] using h0), if_neg (by simp)]
    refine Or.inr ⟨_, rfl, ?_⟩
    unfold fileSlot
    rw [if_neg h1]
    exact if_pos h0
  · rw [if_pos (by simpa [indirectOf] using h0)]
    refine Or.inl ⟨_, ?_, walked_entry (Nat.not_lt.mp h1) h0⟩
    exact bind_ok (diskaddr_ok h0 (h.slot_lt (.indirect f) hf h0))

theorem Walked.ne_bitmap {n : Nat} {loc : Nat × Nat} (hw : Walked d f n loc)
    (h : FsInv files ∅ d) (hf : f ∈ files) (hb : b < nblocks d) : loc.1 ≠ bitmapBlk b := by
  obtain ⟨rfl, h0⟩ := hw
  unfold fileSlot
  split
  · exact h.blk_ne_bitmap hf hb
  · intro he
    refine h.slot_free (.indirect f) hf (h0 (by omega)) ?_
    show Reserved d (indirectOf d f).toNat
    rw [show (indirectOf d f).toNat = bitmapBlk b from he]
    exact reserved_bitmapBlk hb

/-- **`file_free_block`** empties its slot. -/
theorem fileFreeBlock_spec (h : FsInv files ∅ d) (hf : f ∈ files) (hreg : fileType d f ≠ FTYPE_DIR)
    (hn : filebno.toNat < NDIRECT + NINDIRECT) :
    wp (fileFreeBlock f filebno)
      (fun _ d' => FsInv files ∅ d' ∧ Shrinks files f d d' ∧
        slotVal d' (fileSlot f filebno.toNat) = 0#32) (fun _ _ => False) d := by
  have hin := fileSlot_in hf hn
  rcases fileBlockWalk_noAlloc h hf hn with ⟨loc, hrun, hw⟩ | ⟨r, hrun, h0⟩
  · refine wp_bind_ok hrun (wp_bind_ok (load_ok _ _ d) ?_)
    rw [hw.load]
    by_cases h0 : slotVal d (fileSlot f filebno.toNat) = 0#32
    · rw [if_neg (by simpa using h0)]
      exact ⟨h, Shrinks.refl files f d, h0⟩
    · rw [if_pos h0]
      refine wp_bind_ok (freeBlock_ok h0) (wp_bind_ok (store_ok _ _ _ _) ?_)
      have hfree := h.freeSlot hin h0 (by rw [fileSlot_file]; exact hreg)
        (fun b hb => hw.ne_bitmap h hf hb) (hw.update h hf 0#32) rfl
      rw [fileSlot_file] at hfree
      exact hfree
  · refine wp_bind_ok hrun ?_
    exact ⟨h, Shrinks.refl files f d, h0⟩

/-! ## §5. Arithmetic of offsets. -/

/-- The block of a position behind the largest file, or before the block of position 0. -/
theorem sdiv_far (hfar : MAXFILESIZE ≤ w.toNat) (hw : w.toNat ≤ 2 ^ 32 - 4096) :
    NDIRECT + NINDIRECT ≤ (w.sdiv 4096#32).toNat := by
  unfold MAXFILESIZE NDIRECT NINDIRECT BLKSIZE at *
  cases hmsb : w.msb with
  | false =>
    rw [BitVec.sdiv_eq, hmsb, show (4096#32).msb = false from rfl]
    show _ ≤ (w / 4096#32).toNat
    rw [BitVec.toNat_udiv, show (4096#32).toNat = 4096 from rfl]
    omega
  | true =>
    rw [BitVec.msb_eq_decide, decide_eq_true_eq] at hmsb
    rw [BitVec.sdiv_eq, show w.msb = true by rw [BitVec.msb_eq_decide]; simpa using hmsb,
      show (4096#32).msb = false from rfl]
    show _ ≤ (-((-w) / 4096#32)).toNat
    rw [BitVec.toNat_neg, BitVec.toNat_udiv, BitVec.toNat_neg, show (4096#32).toNat = 4096 from rfl]
    omega

theorem sdiv_toNat (hw : w.toNat < 2 ^ 31) : (w.sdiv 4096#32).toNat = w.toNat / 4096 := by
  have hmsb : w.msb = false := by
    rw [BitVec.msb_eq_decide]
    simpa using hw
  rw [BitVec.sdiv_eq, hmsb, show (4096#32).msb = false from rfl]
  exact BitVec.toNat_udiv

theorem srem_toNat (hw : w.toNat < 2 ^ 31) : (w.srem 4096#32).toNat = w.toNat % 4096 := by
  have hmsb : w.msb = false := by
    rw [BitVec.msb_eq_decide]
    simpa using hw
  rw [BitVec.srem_eq, hmsb, show (4096#32).msb = false from rfl]
  exact BitVec.toNat_umod

theorem sizeBlocks_toNat (hw : w.toNat ≤ MAXFILESIZE) :
    (sizeBlocks w).toNat = (w.toNat + 4095) / 4096 := by
  unfold MAXFILESIZE NDIRECT NINDIRECT BLKSIZE at hw
  have hadd : (w + 4095#32).toNat = w.toNat + 4095 := by
    show (w.toNat + 4095) % 2 ^ 32 = _
    omega
  unfold sizeBlocks
  rw [sdiv_toNat (by omega), hadd]

theorem slt_iff {a b : Word} (ha : a.toNat ≤ MAXFILESIZE) (hb : b.toNat ≤ MAXFILESIZE) :
    a.slt b = true ↔ a.toNat < b.toNat := by
  unfold MAXFILESIZE NDIRECT NINDIRECT BLKSIZE at *
  rw [BitVec.slt_iff_toInt_lt, BitVec.toInt_eq_toNat_of_lt (by omega),
    BitVec.toInt_eq_toNat_of_lt (by omega)]
  omega

/-! ## §6. Sizes. -/

/-- **`file_truncate_blocks`** empties every slot past the new size, and drops
an indirect block that no longer has any. -/
theorem fileTruncateBlocks_spec (h : FsInv files ∅ d) (hf : f ∈ files)
    (hreg : fileType d f ≠ FTYPE_DIR) {newsize : Word} (hnew : newsize.toNat ≤ MAXFILESIZE) :
    wp (fileTruncateBlocks f newsize)
      (fun _ d' => FsInv files ∅ d' ∧ Shrinks files f d d' ∧
        ∀ n < NDIRECT + NINDIRECT, (newsize.toNat + 4095) / 4096 ≤ n →
          slotVal d' (fileSlot f n) = 0#32) (fun _ _ => False) d := by
  have hold := h.size_le f hf
  refine wp_bind_ok (load_ok _ _ d) ?_
  have holdN : (sizeBlocks (d f.blk f.fSize)).toNat = fileBlocks d f := sizeBlocks_toNat hold
  have hnewN := sizeBlocks_toNat hnew
  generalize hlo : (newsize.toNat + 4095) / 4096 = lo at *
  have hhi : fileBlocks d f ≤ NDIRECT + NINDIRECT := by
    unfold fileBlocks MAXFILESIZE NDIRECT NINDIRECT BLKSIZE at *
    omega
  dsimp only
  rw [holdN, hnewN]
  -- the loop has emptied the slots from the new end up to its counter
  refine wp_seq (R := fun _ d' => FsInv files ∅ d' ∧ Shrinks files f d d' ∧
      ∀ n < NDIRECT + NINDIRECT, lo ≤ n → slotVal d' (fileSlot f n) = 0#32) ?_ ?_
  · refine wp_mono (wp_forUp (I := fun i d' => FsInv files ∅ d' ∧ Shrinks files f d d' ∧
        ∀ n < i, lo ≤ n → n < NDIRECT + NINDIRECT → slotVal d' (fileSlot f n) = 0#32)
      (fileBlocks d f - lo) lo d ⟨h, Shrinks.refl files f d, fun n h1 h2 => by omega⟩ ?_)
      ?_ (fun _ _ h => h)
    · rintro i t hlo' hi ⟨ht, hsh, hz⟩
      have hto : (BitVec.ofNat 32 i).toNat = i := toNat_ofNat_lt (by omega)
      refine wp_seq (fileFreeBlock_spec ht hf (by rw [hsh.fileType_eq hf]; exact hreg)
        (show (BitVec.ofNat 32 i).toNat < _ by omega)) ?_
      rintro _ t' ⟨ht', hsh', hz'⟩
      rw [hto] at hz'
      refine ⟨ht', hsh.trans hsh', fun n hn hle hmax => ?_⟩
      rcases Nat.lt_succ_iff_lt_or_eq.mp hn with h | rfl
      · exact hsh'.zero (fileSlot_in hf hmax) (hz n h hle hmax)
      · exact hz'
    · rintro _ t ⟨ht, hsh, hz⟩
      refine ⟨ht, hsh, fun n hn hle => ?_⟩
      by_cases hlt : n < fileBlocks d f
      · exact hz n (by omega) hle hn
      · exact hsh.zero (fileSlot_in hf hn) (h.tail f hf n hn (by omega))
  · rintro _ t ⟨ht, hsh, hz⟩
    by_cases hnd : lo ≤ NDIRECT
    · rw [if_pos hnd]
      refine wp_bind_ok (load_ok _ _ t) ?_
      by_cases h0 : indirectOf t f = 0#32
      · rw [if_neg (by simpa [indirectOf] using h0)]
        exact ⟨ht, hsh, hz⟩
      · rw [if_pos (by simpa [indirectOf] using h0)]
        refine wp_bind_ok (freeBlock_ok h0) (wp_of_ok (store_ok _ _ _ _) ?_)
        have hent : ∀ j < NINDIRECT, slotVal t (.entry f j) = 0#32 := by
          intro j hj
          have := hz (NDIRECT + j) (by omega) (by omega)
          unfold fileSlot at this
          rw [if_neg (by omega), Nat.add_sub_cancel_left] at this
          exact this
        obtain ⟨ht', hsh', _⟩ := ht.freeSlot (s := .indirect f) hf h0
          (by rw [show BlockSlot.file (.indirect f) = f from rfl, hsh.fileType_eq hf]; exact hreg)
          (fun b hb => ht.blk_ne_bitmap hf hb)
          (ht.update_indirect hf 0#32 hent (fun h => absurd rfl h)) rfl
        exact ⟨ht', hsh.trans hsh',
          fun n hn hle => hsh'.zero (fileSlot_in hf hn) (hz n hn hle)⟩
    · rw [if_neg hnd]
      exact ⟨ht, hsh, hz⟩

/-- What a change of size leaves alone. -/
structure Resized (files : Set FileP) (f : FileP) (d d' : Disk) : Prop where
  nblocks : d' 1 1 = d 1 1
  type : ∀ g ∈ files, fileType d' g = fileType d g
  size : ∀ g ∈ files, g ≠ f → fileSize d' g = fileSize d g
  other : ∀ s : BlockSlot, s.In files → s.file ≠ f → slotVal d' s = slotVal d s

theorem fileSetSize_larger {w : Word} (h : ¬ w.slt (d f.blk f.fSize) = true) :
    fileSetSize f w d = .ok 0#32 (putWord d f.blk f.fSize w) := by
  unfold fileSetSize
  rw [bind_ok (load_ok _ _ d), if_neg h]
  rfl

/-- **`file_set_size`** never stops, and sets the size. -/
theorem fileSetSize_spec (h : FsInv files ∅ d) (hf : f ∈ files)
    (hreg : fileType d f ≠ FTYPE_DIR) {newsize : Word} (hnew : newsize.toNat ≤ MAXFILESIZE) :
    wp (fileSetSize f newsize)
      (fun _ d' => FsInv files ∅ d' ∧ Resized files f d d' ∧ fileSize d' f = newsize.toNat ∧
        ∀ s : BlockSlot, s.In files → slotVal d' s = slotVal d s ∨ slotVal d' s = 0#32)
      (fun _ _ => False) d := by
  refine wp_bind_ok (load_ok _ _ d) ?_
  have hsize : ∀ t : Disk, fileSize (putWord t f.blk f.fSize newsize) f = newsize.toNat :=
    fun t => congrArg BitVec.toNat (putWord_same _ _ _ _)
  by_cases hlt : newsize.slt (d f.blk f.fSize) = true
  · rw [if_pos hlt]
    refine wp_seq (fileTruncateBlocks_spec h hf hreg hnew) ?_
    rintro _ t ⟨ht, hsh, hz⟩
    obtain ⟨h', hslot, htype, hsz⟩ := ht.setSize hf hnew hz
    obtain ⟨-, -, h1, -⟩ := ht.putRecord hf (show 32 < 64 by omega) newsize
    refine wp_bind_ok (store_ok _ _ _ t) ⟨h', ⟨h1.trans hsh.nblocks, ?_, ?_, ?_⟩, hsize t, ?_⟩
    · exact fun g hg => (htype g hg).trans (hsh.fileType_eq hg)
    · exact fun g hg hne => (hsz g hg hne).trans (hsh.fileSize_eq hg)
    · exact fun s hs hne => (hslot s hs).trans (hsh.other s hs hne)
    · intro s hs
      rw [hslot s hs]
      exact hsh.slot s hs
  · rw [if_neg hlt]
    have hle : fileSize d f ≤ newsize.toNat := by
      rw [slt_iff hnew (h.size_le f hf)] at hlt
      exact Nat.not_lt.mp hlt
    obtain ⟨h', hslot, htype, hsz⟩ := h.setSize hf hnew (fun n hn hn' => h.tail f hf n hn (by
      unfold fileBlocks
      omega))
    obtain ⟨-, -, h1, -⟩ := h.putRecord hf (show 32 < 64 by omega) newsize
    exact wp_bind_ok (store_ok _ _ _ d)
      ⟨h', ⟨h1, htype, hsz, fun s hs _ => hslot s hs⟩, hsize d, fun s hs => Or.inl (hslot s hs)⟩

/-! ## §7. Reading and writing. -/

theorem diskBytes_ok (n : Nat) : ∀ (a : Nat) (d : Disk), ∃ xs, diskBytes a n d = .ok xs d := by
  induction n with
  | zero => exact fun a d => ⟨[], rfl⟩
  | succ n ih =>
    intro a d
    obtain ⟨xs, hxs⟩ := ih (a + 1) d
    refine ⟨getByte (d (a / BLKSIZE) (a % BLKSIZE / 4)) (a % 4) :: xs, ?_⟩
    show (diskByte a >>= fun x => diskBytes (a + 1) n >>= fun xs => pure (x :: xs)) d = _
    rw [bind_ok (show diskByte a d = .ok _ d from rfl), bind_ok hxs]
    rfl

/-- Bytes that all lie in block `b` change no other block. -/
theorem putDiskBytes_spec (xs : List Byte) :
    ∀ (a : Nat) (d : Disk), (∀ k < xs.length, (a + k) / BLKSIZE = b) →
      wp (putDiskBytes a xs) (fun _ d' => ∀ p, p ≠ b → d' p = d p) (fun _ _ => False) d := by
  induction xs with
  | nil => exact fun a d _ => fun p _ => rfl
  | cons x xs ih =>
    intro a d hb
    refine wp_bind_ok (show putDiskByte a x d = .ok () _ from rfl) ?_
    refine wp_mono (ih (a + 1) _ fun k hk => ?_) ?_ (fun _ _ h => h)
    · have := hb (k + 1) (by simpa using hk)
      rw [show a + 1 + k = a + (k + 1) by omega]
      exact this
    · intro _ d' hd' p hp
      rw [hd' p hp]
      have ha : a / BLKSIZE = b := hb 0 (by simp)
      funext i
      exact putWord_of_ne _ _ (Or.inl (by rw [ha]; exact hp))

/-- What is left of the block from `pos` on. -/
theorem blockRest_toNat {pos : Word} (hpos : pos.toNat < 2 ^ 31) :
    (4096#32 - pos.srem 4096#32).toNat = 4096 - pos.toNat % 4096 := by
  have hs := srem_toNat hpos
  rw [BitVec.toNat_sub_of_le, hs]
  · rfl
  · rw [BitVec.le_def, hs]
    show _ ≤ 4096
    omega

theorem chunk_le (stop : Word) {pos : Word} (hpos : pos.toNat < 2 ^ 31) :
    (chunk stop pos).toNat ≤ 4096 - pos.toNat % 4096 := by
  have hrem := blockRest_toNat hpos
  unfold chunk umin
  split
  · exact le_of_eq hrem
  · rename_i h
    rw [BitVec.le_def, hrem] at h
    omega

theorem blkAddr_eq {pos : Word} (b : Nat) (hpos : pos.toNat < 2 ^ 31) :
    blkAddr b pos = b * BLKSIZE + pos.toNat % 4096 := by
  have hrem := srem_toNat hpos
  unfold blkAddr
  rw [BitVec.toInt_eq_toNat_of_lt (by omega), hrem]
  omega

section

variable {stop pos : Word}

/-- A position before the end is in a block of the file. -/
theorem block_in_file (h : FsInv files ∅ d) (hf : f ∈ files) (hstop : stop.toNat ≤ fileSize d f)
    (hlt : pos < stop) : pos.toNat < 2 ^ 31 ∧ (pos.sdiv 4096#32).toNat < fileBlocks d f := by
  have hmax := h.size_le f hf
  rw [BitVec.lt_def] at hlt
  unfold MAXFILESIZE NDIRECT NINDIRECT BLKSIZE at hmax
  have hpos : pos.toNat < 2 ^ 31 := by omega
  refine ⟨hpos, ?_⟩
  rw [sdiv_toNat hpos]
  unfold fileBlocks
  omega

theorem fileReadLoop_spec (hf : f ∈ files) (n : Nat) :
    ∀ (pos : Word) (buf : List Byte) (d : Disk), FsInv files ∅ d → stop.toNat ≤ fileSize d f →
      wp (fileReadLoop f stop n pos buf)
        (fun r d' => r.1 = none ∧ FsInv files ∅ d' ∧ Grows files f d d')
        (fun _ d' => Full d') d := by
  induction n with
  | zero => exact fun pos buf d h _ => ⟨rfl, h, Grows.refl files f d⟩
  | succ n ih =>
    intro pos buf d h hstop
    unfold fileReadLoop
    by_cases hlt : pos < stop
    · rw [if_pos hlt]
      have hblk := (block_in_file h hf hstop hlt).2
      generalize pos.sdiv 4096#32 = filebno at hblk ⊢
      generalize chunk stop pos = c
      refine wp_seq (fileGetBlock_spec h hf hblk) ?_
      rintro r d₁ ⟨b, rfl, hb⟩
      have h₁ := hb.inv
      have hg := hb.grows
      obtain ⟨xs, hxs⟩ := diskBytes_ok c.toNat (blkAddr b pos) d₁
      refine wp_bind_ok hxs ?_
      refine wp_mono (ih _ _ d₁ h₁ (by rw [hg.fileSize_eq hf]; exact hstop)) ?_ (fun _ _ h => h)
      exact fun r d' ⟨hr, h', hg'⟩ => ⟨hr, h', hg.trans hg'⟩
    · rw [if_neg hlt]
      exact ⟨rfl, h, Grows.refl files f d⟩

theorem fileWriteLoop_spec (hf : f ∈ files) (n : Nat) :
    ∀ (pos : Word) (buf : List Byte) (d : Disk), FsInv files ∅ d →
      fileType d f ≠ FTYPE_DIR → stop.toNat ≤ fileSize d f →
      wp (fileWriteLoop f stop n pos buf)
        (fun r d' => r = none ∧ FsInv files ∅ d' ∧ Grows files f d d')
        (fun _ d' => Full d') d := by
  induction n with
  | zero => exact fun pos buf d h _ _ => ⟨rfl, h, Grows.refl files f d⟩
  | succ n ih =>
    intro pos buf d h hreg hstop
    unfold fileWriteLoop
    by_cases hlt : pos < stop
    · rw [if_pos hlt]
      obtain ⟨hpos, hblk⟩ := block_in_file h hf hstop hlt
      have hc := chunk_le stop hpos
      generalize pos.sdiv 4096#32 = filebno at hblk ⊢
      generalize chunk stop pos = c at hc ⊢
      refine wp_seq (fileGetBlock_spec h hf hblk) ?_
      rintro r d₁ ⟨b, rfl, hgot⟩
      have h₁ := hgot.inv
      have hg := hgot.grows
      have hmax := h.block_lt hf hblk
      -- the bytes go into the block that was found
      refine wp_seq (wp_mono (putDiskBytes_spec (b := b) _ _ d₁ ?_) (fun _ _ h => h)
        (fun _ _ h => h.elim)) ?_
      · intro k hk
        rw [List.length_take] at hk
        rw [blkAddr_eq b hpos]
        unfold BLKSIZE
        omega
      · intro _ d₂ hd₂
        have hm := h₁.sameMeta_data hf (by rw [hg.fileType_eq hf]; exact hreg) hmax hgot.set
          (by rw [hgot.block]; exact hd₂)
        have hg₂ := hg.trans (hm.grows f)
        refine wp_mono (ih _ _ d₂ (h₁.of_sameMeta hm) (by rw [hg₂.fileType_eq hf]; exact hreg)
          (by rw [hg₂.fileSize_eq hf]; exact hstop)) ?_ (fun _ _ h => h)
        exact fun r d' ⟨hr, h', hg'⟩ => ⟨hr, h', hg₂.trans hg'⟩
    · rw [if_neg hlt]
      exact ⟨rfl, h, Grows.refl files f d⟩

end

theorem umin_le_right (a b : Word) : (umin a b).toNat ≤ b.toNat := by
  unfold umin
  split
  · rename_i h
    exact h
  · exact le_refl _

/-- The end of a read that starts inside the file. -/
theorem read_stop (count : Word) {size offset : Word} (hsize : size.toNat ≤ MAXFILESIZE)
    (hoff : offset.toNat < 2 ^ 31) (hlt : ¬ size.sle offset = true) :
    (offset + umin count (size - offset)).toNat ≤ size.toNat := by
  unfold MAXFILESIZE NDIRECT NINDIRECT BLKSIZE at hsize
  have h1 : offset.toNat < size.toNat := by
    rw [BitVec.sle_iff_toInt_le, BitVec.toInt_eq_toNat_of_lt (by omega),
      BitVec.toInt_eq_toNat_of_lt (by omega)] at hlt
    omega
  have h2 : (size - offset).toNat = size.toNat - offset.toNat :=
    BitVec.toNat_sub_of_le (by rw [BitVec.le_def]; omega)
  have h3 := umin_le_right count (size - offset)
  rw [BitVec.toNat_add]
  omega

/-- **`file_read`** from a non-negative offset. -/
theorem fileRead_spec (h : FsInv files ∅ d) (hf : f ∈ files) {count offset : Word}
    (hoff : offset.toNat < 2 ^ 31) :
    wp (fileRead f count offset)
      (fun _ d' => FsInv files ∅ d' ∧ Grows files f d d') (fun _ d' => Full d') d := by
  refine wp_bind_ok (load_ok _ _ d) ?_
  by_cases hle : (d f.blk f.fSize).sle offset = true
  · rw [if_pos hle]
    exact ⟨h, Grows.refl files f d⟩
  · rw [if_neg hle]
    refine wp_seq (fileReadLoop_spec hf _ _ _ d h (read_stop count (h.size_le f hf) hoff hle)) ?_
    rintro ⟨r, buf⟩ d' ⟨rfl, h', hg⟩
    exact ⟨h', hg⟩

theorem Resized.of_grows (h : Grows files f d d') : Resized files f d d' :=
  ⟨h.nblocks, fun _ hg => h.fileType_eq hg, fun _ hg _ => h.fileSize_eq hg, h.other⟩

theorem Resized.trans (h : Resized files f d₁ d₂)
    (h' : Resized files f d₂ d₃) : Resized files f d₁ d₃ :=
  ⟨h'.nblocks.trans h.nblocks, fun g hg => (h'.type g hg).trans (h.type g hg),
    fun g hg hne => (h'.size g hg hne).trans (h.size g hg hne),
    fun s hs hne => (h'.other s hs hne).trans (h.other s hs hne)⟩

theorem sizeWord_toNat {len : Nat} (hlen : len ≤ MAXFILESIZE) :
    (BitVec.ofNat 32 len).toNat = len := by
  unfold MAXFILESIZE NDIRECT NINDIRECT BLKSIZE at hlen
  rw [BitVec.toNat_ofNat]
  omega

/-- Where a write of `len` bytes ends. -/
theorem writeStop_toNat {len : Nat} (hmax : offset.toNat + len ≤ MAXFILESIZE) :
    (offset + BitVec.ofNat 32 len).toNat = offset.toNat + len := by
  rw [BitVec.toNat_add, sizeWord_toNat (by omega)]
  unfold MAXFILESIZE NDIRECT NINDIRECT BLKSIZE at hmax
  omega

/-- **`file_write`** inside the largest file size. -/
theorem fileWrite_spec (h : FsInv files ∅ d) (hf : f ∈ files)
    (hreg : fileType d f ≠ FTYPE_DIR) {buf : List Byte}
    (hmax : offset.toNat + buf.length ≤ MAXFILESIZE) :
    wp (fileWrite f buf offset)
      (fun _ d' => FsInv files ∅ d' ∧ Resized files f d d') (fun _ d' => Full d') d := by
  have hsum := writeStop_toNat hmax
  have hfinish : ∀ r : Option Word, ∀ d₁ d' : Disk, Resized files f d d₁ →
      (r = none ∧ FsInv files ∅ d' ∧ Grows files f d₁ d') →
      wp (writeEnd (BitVec.ofNat 32 buf.length) r : FsM Word)
        (fun _ d' => FsInv files ∅ d' ∧ Resized files f d d') (fun _ d' => Full d') d' := by
    rintro r d₁ d' hrs ⟨rfl, h', hg⟩
    exact ⟨h', hrs.trans (Resized.of_grows hg)⟩
  refine wp_bind_ok (load_ok _ _ d) ?_
  by_cases hlt : d f.blk f.fSize < offset + BitVec.ofNat 32 buf.length
  · rw [if_pos hlt]
    refine wp_seq (wp_mono (fileSetSize_spec h hf hreg (by rw [hsum]; exact hmax))
      (fun _ _ h => h) (fun _ _ h => h.elim)) ?_
    rintro _ d₁ ⟨h₁, hrs, hsz, _⟩
    refine wp_seq (fileWriteLoop_spec hf _ _ _ d₁ h₁ (by rw [hrs.type f hf]; exact hreg)
      (le_of_eq hsz.symm)) ?_
    exact fun r d' hr => hfinish r d₁ d' hrs hr
  · rw [if_neg hlt]
    refine wp_seq (fileWriteLoop_spec hf _ _ _ d h hreg ?_) ?_
    · exact Nat.not_lt.mp hlt
    · exact fun r d' hr => hfinish r d d' (Resized.of_grows (Grows.refl files f d)) hr

/-! ## §8. Runs. -/

inductive FsOp where
  | write (f : FileP) (buf : List Byte) (offset : Word)
  | read (f : FileP) (count offset : Word)
  | getBlock (f : FileP) (filebno : Word)
  | setSize (f : FileP) (newsize : Word)

def FsOp.file : FsOp → FileP
  | .write f _ _ | .read f _ _ | .getBlock f _ | .setSize f _ => f

/-- The operation, without its result. -/
def FsOp.run : FsOp → FsM Unit
  | .write f buf offset => do let _ ← fileWrite f buf offset
  | .read f count offset => do let _ ← fileRead f count offset
  | .getBlock f filebno => do let _ ← fileGetBlock f filebno
  | .setSize f newsize => do let _ ← fileSetSize f newsize

/-- The arguments are in range. -/
def FsOp.InRange (d : Disk) : FsOp → Prop
  | .write _ buf offset => 0 ≤ offset.toInt ∧ offset.toInt + buf.length ≤ MAXFILESIZE
  | .read _ _ _ => True
  | .getBlock f filebno => filebno.toNat * BLKSIZE < fileSize d f
  | .setSize _ newsize => 0 ≤ newsize.toInt ∧ newsize.toInt ≤ MAXFILESIZE

/-- No read starts before the beginning of the file. -/
def FsOp.ReadsForward : FsOp → Prop
  | .read _ _ offset => 0 ≤ offset.toInt
  | _ => True

/-- An operation on a regular file that returns. -/
inductive FsStep (files : Set FileP) (pre : FsOp → Prop) : Disk → Disk → Prop
  | op {d d' : Disk} (o : FsOp) (hf : o.file ∈ files)
      (hreg : fileType d o.file ≠ FTYPE_DIR) (hin : o.InRange d) (hpre : pre o)
      (hrun : o.run d = .ok () d') : FsStep files pre d d'

theorem toNat_of_nonneg (h : 0 ≤ w.toInt) : w.toNat < 2 ^ 31 ∧ w.toInt = w.toNat := by
  have := BitVec.toInt_eq_toNat_cond w
  split at this
  · exact ⟨by omega, this⟩
  · have := w.isLt
    omega

/-- **One operation**: consistent afterwards, and stopped only by a full disk. -/
theorem FsOp.run_spec (h : FsInv files ∅ d) (o : FsOp) (hf : o.file ∈ files)
    (hreg : fileType d o.file ≠ FTYPE_DIR) (hin : o.InRange d) (hpre : o.ReadsForward) :
    wp o.run (fun _ d' => FsInv files ∅ d' ∧ Resized files o.file d d')
      (fun _ d' => Full d') d := by
  cases o with
  | write f buf offset =>
    obtain ⟨hnat, heq⟩ := toNat_of_nonneg hin.1
    refine wp_seq (fileWrite_spec h hf hreg ?_) (fun _ _ h => h)
    have := hin.2
    omega
  | read f count offset =>
    refine wp_seq (fileRead_spec h hf (toNat_of_nonneg hpre).1) ?_
    exact fun _ _ ⟨h', hg⟩ => ⟨h', Resized.of_grows hg⟩
  | getBlock f filebno =>
    have hlt : filebno.toNat * BLKSIZE < fileSize d f := hin
    have hblk : filebno.toNat < fileBlocks d f := by
      unfold fileBlocks
      unfold BLKSIZE at hlt
      omega
    refine wp_seq (fileGetBlock_spec h hf hblk) ?_
    · rintro _ d' ⟨b, rfl, hgot⟩
      exact ⟨hgot.inv, Resized.of_grows hgot.grows⟩
  | setSize f newsize =>
    obtain ⟨hnat, heq⟩ := toNat_of_nonneg hin.1
    refine wp_seq (wp_mono (fileSetSize_spec h hf hreg ?_) (fun _ _ h => h)
      (fun _ _ h => h.elim)) (fun _ _ h => ⟨h.1, h.2.1⟩)
    have := hin.2
    omega

theorem FsStep.keeps (h : FsInv files ∅ d) (hs : FsStep files FsOp.ReadsForward d d') :
    FsInv files ∅ d' := by
  obtain ⟨o, hf, hreg, hin, hpre, hrun⟩ := hs
  have hspec := wp_ok (FsOp.run_spec h o hf hreg hin hpre) hrun
  exact hspec.1

/-- **Block ownership.**  From a consistent file system, after any sequence of
operations on regular files whose reads start at non-negative offsets: the file
system is consistent, and any further such operation returns unless the disk is
full. -/
theorem fs_blocks_owned (h₀ : FsInv files ∅ d)
    (hrun : Relation.ReflTransGen (FsStep files FsOp.ReadsForward) d d') :
    FsInv files ∅ d' ∧
      ∀ o : FsOp, o.file ∈ files → fileType d' o.file ≠ FTYPE_DIR → o.InRange d' →
        o.ReadsForward → (∃ d'', o.run d' = .ok () d'') ∨ ∃ e d'', o.run d' = .error e d'' ∧
          Full d'' := by
  have h : FsInv files ∅ d' := by
    induction hrun with
    | refl => exact h₀
    | tail _ hstep ih => exact hstep.keeps ih
  refine ⟨h, fun o hf hreg hin hpre => ?_⟩
  have hspec := FsOp.run_spec h o hf hreg hin hpre
  cases hr : o.run d' with
  | ok u d'' => exact Or.inl ⟨d'', rfl⟩
  | error e d'' => exact Or.inr ⟨e, d'', rfl, wp_error hspec hr⟩

/-! ## §9. A small disk. -/

/-- Eight blocks: the super block, the bitmap, and block 3, the only block of
the root directory; its 16 files are empty. -/
def smallDisk : Disk := fun b i =>
  match b, i with
  | 1, 1 => 8#32
  | 1, 34 => 4096#32
  | 1, 35 => FTYPE_DIR
  | 1, 36 => 3#32
  | 2, 0 => 0xF0#32
  | _, _ => 0#32

def smallFiles : Set FileP := fun f => f = sRoot ∨ ∃ k < 16, f = ⟨3, 64 * k⟩

theorem smallDisk_three (i : Nat) : smallDisk 3 i = 0#32 := by
  unfold smallDisk
  split <;> first | omega | rfl

theorem smallDisk_root (h : 36 < i) : smallDisk 1 i = 0#32 := by
  unfold smallDisk
  split <;> first | omega | rfl

/-- One slot is set: the root's first block. -/
theorem smallDisk_slot (hs : s.In smallFiles) :
    slotVal smallDisk s = if s = .direct sRoot 0 then 3#32 else 0#32 := by
  have hind : ∀ f ∈ smallFiles, indirectOf smallDisk f = 0#32 := by
    rintro f (rfl | ⟨k, hk, rfl⟩)
    · rfl
    · exact smallDisk_three _
  cases s with
  | direct f i =>
    rcases hs.1 with rfl | ⟨k, hk, rfl⟩
    · cases i with
      | zero => rfl
      | succ i =>
        refine smallDisk_root ?_
        show 36 < 2 + 34 + (i + 1)
        omega
    · exact smallDisk_three (64 * k + 34 + i)
  | indirect f =>
    exact hind f hs
  | entry f j =>
    exact if_pos (hind f hs.1)

theorem smallDisk_inv : FsInv smallFiles ∅ smallDisk := by
  have hroot : sRoot ∈ smallFiles := Or.inl rfl
  have hset : ∀ s : BlockSlot, s.In smallFiles → slotVal smallDisk s ≠ 0#32 →
      s = .direct sRoot 0 ∧ slotVal smallDisk s = 3#32 := by
    intro s hs h0
    rw [smallDisk_slot hs] at h0 ⊢
    by_cases he : s = .direct sRoot 0
    · rw [if_pos he]
      exact ⟨he, rfl⟩
    · rw [if_neg he] at h0
      exact absurd rfl h0
  have hres : ∀ b, Reserved smallDisk b ↔ b < 3 := fun b => Iff.rfl
  have hsize : ∀ f ∈ smallFiles, f ≠ sRoot → fileSize smallDisk f = 0 := by
    rintro f (rfl | ⟨k, hk, rfl⟩) hne
    · exact absurd rfl hne
    · unfold fileSize
      rfl
  refine ⟨by decide, ?_, ?_, ?_, ?_, ?_, fun b hb => hb.elim, ?_, ?_⟩
  · rintro f (rfl | ⟨k, hk, rfl⟩)
    · exact Or.inl rfl
    · exact Or.inr ⟨sRoot, 0, k, hroot, rfl, by decide, by decide, rfl, hk, rfl⟩
  · intro s hs h0
    rw [(hset s hs h0).2]
    decide
  · intro s hs h0
    rw [(hset s hs h0).2, hres]
    decide
  · intro s s' hs hs' h0 he
    rw [(hset s hs h0).1, (hset s' hs' (by rw [← he]; exact h0)).1]
  · intro b hb
    have hin : InSlot smallFiles smallDisk b ↔ b = 3 := by
      constructor
      · rintro ⟨s, hs, h0, rfl⟩
        rw [(hset s hs h0).2]
        rfl
      · rintro rfl
        exact ⟨.direct sRoot 0, ⟨hroot, by decide⟩, by decide, rfl⟩
    rw [hin, hres]
    replace hb : b < 8 := hb
    interval_cases b <;> decide
  · intro f hf
    by_cases he : f = sRoot
    · rw [he]
      decide
    · rw [hsize f hf he]
      exact Nat.zero_le _
  · intro f hf n hn hle
    rw [smallDisk_slot (fileSlot_in hf hn)]
    refine if_neg fun he => ?_
    -- only block 0 of the root is set, and the root has one block
    obtain ⟨rfl, rfl⟩ := fileSlot_inj (n := n) (k := 0) he
    exact absurd hle (by decide)

/-- On the small disk a byte is written, for which the file gets block 4; then the file is
emptied and loses it. -/
theorem fs_blocks_owned_smallDisk : ∃ d' d'', slotVal d' (fileSlot ⟨3, 64⟩ 0) = 4#32 ∧
    slotVal d'' (fileSlot ⟨3, 64⟩ 0) = 0#32 ∧ FsInv smallFiles ∅ d' ∧ FsInv smallFiles ∅ d'' := by
  have hf : (⟨3, 64⟩ : FileP) ∈ smallFiles := Or.inr ⟨1, by decide, rfl⟩
  obtain ⟨d', d'', hwrite, hset, hreg, h4, h0⟩ : ∃ d' d'',
      (FsOp.write ⟨3, 64⟩ [7#8] 0#32).run smallDisk = .ok () d' ∧
      (FsOp.setSize ⟨3, 64⟩ 0#32).run d' = .ok () d'' ∧ fileType d' ⟨3, 64⟩ ≠ FTYPE_DIR ∧
      slotVal d' (fileSlot ⟨3, 64⟩ 0) = 4#32 ∧ slotVal d'' (fileSlot ⟨3, 64⟩ 0) = 0#32 :=
    ⟨_, _, rfl, rfl, by decide, by decide, by decide⟩
  have h1 : FsStep smallFiles FsOp.ReadsForward smallDisk d' :=
    .op (.write ⟨3, 64⟩ [7#8] 0#32) hf (by decide) ⟨by decide, by decide⟩ trivial hwrite
  have h2 : FsStep smallFiles FsOp.ReadsForward d' d'' :=
    .op (.setSize ⟨3, 64⟩ 0#32) hf hreg ⟨by decide, by decide⟩ trivial hset
  exact ⟨d', d'', h4, h0, (fs_blocks_owned smallDisk_inv (.single h1)).1,
    (fs_blocks_owned smallDisk_inv ((Relation.ReflTransGen.single h1).tail h2)).1⟩

/-- **A read before the beginning of an empty file allocates its block 0**:
`offset >= f_size` compares signed numbers, the loop's bound is unsigned, and
`pos / BLKSIZE` rounds towards zero. -/
theorem fileRead_negative_offset : ∃ d', FsStep smallFiles (fun _ => True) smallDisk d' ∧
    fileBlocks d' ⟨3, 64⟩ = 0 ∧ slotVal d' (fileSlot ⟨3, 64⟩ 0) = 4#32 ∧
    ¬ FsInv smallFiles ∅ d' := by
  have hf : (⟨3, 64⟩ : FileP) ∈ smallFiles := Or.inr ⟨1, by decide, rfl⟩
  obtain ⟨d', hrun, h1, h2⟩ : ∃ d', (FsOp.read ⟨3, 64⟩ 5#32 (-10#32)).run smallDisk = .ok () d' ∧
      fileBlocks d' ⟨3, 64⟩ = 0 ∧ slotVal d' (fileSlot ⟨3, 64⟩ 0) = 4#32 :=
    ⟨_, rfl, by decide, by decide⟩
  refine ⟨d', .op (.read ⟨3, 64⟩ 5#32 (-10#32)) hf (by decide) trivial trivial hrun, h1, h2,
    fun h => ?_⟩
  have := h.tail _ hf 0 (by decide) (le_of_eq h1)
  rw [h2] at this
  exact absurd this (by decide)

end Jos
