/-
  Jos.Fs.OneFile — **THE BLOCKS OF ONE FILE.**

  `FsInv` speaks about all files.  What `file_get_block` does to the disk rests on
  much less: the blocks in the slots of this one file are in use, apart from each
  other, from its record and from the bitmap (`FileOk`).  That holds of a directory
  as of a regular file, and whatever `f_size` says.

    • `fileGetBlock_got` : the slot is set, or the disk is full and how it stops,
    • `Touch`            : the words and the bitmap bits that may have changed,
    • `HasRoom`             : enough blocks are free for the slots that are empty.
-/
import Jos.Fs.Bytes

namespace Jos

open Exec

variable {s : BlockSlot} {S : Finset BlockSlot} {b hi lo n : Nat} {filebno : Word}

variable {d d' : Disk} {f : FileP}

variable {d₁ : Disk} {c p : Nat} {loc : Nat × Nat}

/-! ## §1. A file whose blocks are its own. -/

/-- Block `p` is one of the bitmap. -/
def InBitmap (d : Disk) (p : Nat) : Prop := 2 ≤ p ∧ Reserved d p

/-- A slot of `f`. -/
abbrev BlockSlot.Of (f : FileP) (s : BlockSlot) : Prop := s.In {f}

structure FileOk (d : Disk) (f : FileP) : Prop where
  nblocks_le : nblocks d ≤ 0xC0000
  reserved : ∀ b < nblocks d, Reserved d b → inUse d b
  home : ¬ InBitmap d f.blk
  home_used : f.blk < nblocks d → inUse d f.blk
  slot_lt : ∀ s : BlockSlot, s.Of f → slotVal d s ≠ 0#32 → (slotVal d s).toNat < nblocks d
  slot_free : ∀ s : BlockSlot, s.Of f → slotVal d s ≠ 0#32 → ¬ Reserved d (slotVal d s).toNat
  slot_used : ∀ s : BlockSlot, s.Of f → slotVal d s ≠ 0#32 → inUse d (slotVal d s).toNat
  slot_inj : ∀ s s' : BlockSlot, s.Of f → s'.Of f → slotVal d s ≠ 0#32 →
    slotVal d s = slotVal d s' → s = s'
  apart : ∀ s : BlockSlot, s.Of f → slotVal d s ≠ 0#32 → (slotVal d s).toNat ≠ f.blk

theorem BlockSlot.Of.mono {files : Set FileP} (hf : f ∈ files) (h : s.Of f) : s.In files := by
  cases s with
  | direct g i =>
    obtain ⟨rfl, hi⟩ := h
    exact ⟨hf, hi⟩
  | indirect g =>
    obtain rfl : g = f := h
    exact hf
  | entry g j =>
    obtain ⟨rfl, hj⟩ := h
    exact ⟨hf, hj⟩

theorem fileSlot_of (f : FileP) (hn : n < NDIRECT + NINDIRECT) : (fileSlot f n).Of f :=
  fileSlot_in rfl hn

theorem indirect_of (f : FileP) : (BlockSlot.indirect f).Of f := rfl

/-- **Every file of a consistent file system.** -/
theorem Consistent.fileOk (h : Consistent d) (hf : f ∈ allFiles d) : FileOk d f := by
  refine ⟨h.nblocks_le, fun b hb hr => (h.used_iff b hb).mpr (Or.inl hr), ?_,
    fun hlt => h.record_inUse hf hlt, fun s hs => h.slot_lt s (hs.mono hf),
    fun s hs => h.slot_free s (hs.mono hf), ?_,
    fun s s' hs hs' => h.slot_inj s s' (hs.mono hf) (hs'.mono hf), ?_⟩
  · rintro ⟨h2, hr⟩
    rcases h.blk_cases hf with rfl | ⟨hn, -⟩
    · exact absurd h2 (by decide)
    · exact hn hr
  · intro s hs h0
    have hin := hs.mono hf
    exact (h.used_iff _ (h.slot_lt s hin h0)).mpr (Or.inr (Or.inr ⟨s, hin, h0, rfl⟩))
  · intro s hs h0
    cases s with
    | direct g i =>
      obtain ⟨rfl, hi⟩ := hs
      have hslot : fileSlot g i = .direct g i := if_pos hi
      have := h.recordApart hf i (by omega)
      rw [hslot] at this
      exact this h0
    | indirect g =>
      obtain rfl : g = f := hs
      exact (h.blk_ne_indirect hf hf h0).symm
    | entry g j =>
      obtain ⟨rfl, hj⟩ := hs
      have hslot : fileSlot g (NDIRECT + j) = .entry g j := by
        unfold fileSlot
        rw [if_neg (by omega), Nat.add_sub_cancel_left]
      have := h.recordApart hf (NDIRECT + j) (by omega)
      rw [hslot] at this
      exact this h0

theorem inBitmap_bitmapBlk (hb : b < nblocks d) : InBitmap d (bitmapBlk b) :=
  ⟨Nat.le_add_right 2 _, reserved_bitmapBlk hb⟩

theorem InBitmap.of_nblocks (h : d' 1 1 = d 1 1) : InBitmap d' p ↔ InBitmap d p := by
  unfold InBitmap
  rw [Reserved.of_nblocks h]

theorem nblocks_congr (h : d' 1 1 = d 1 1) : nblocks d' = nblocks d := by
  unfold nblocks
  rw [h]

theorem inUse_congr (h : d' (bitmapBlk c) = d (bitmapBlk c)) : inUse d' c ↔ inUse d c := by
  unfold inUse
  rw [h]

section
variable (h : FileOk d f)
include h

/-- A block that is free is neither reserved nor the block of the record nor in a slot. -/
theorem FileOk.free_ne (hb : b < nblocks d) (hfree : ¬ inUse d b) :
    ¬ Reserved d b ∧ b ≠ f.blk ∧
      ∀ s : BlockSlot, s.Of f → slotVal d s ≠ 0#32 → (slotVal d s).toNat ≠ b :=
  ⟨fun hr => hfree (h.reserved b hb hr), fun he => hfree (he ▸ h.home_used (he ▸ hb)),
    fun s hs h0 he => hfree (he ▸ h.slot_used s hs h0)⟩

theorem FileOk.toNat_block (hb : b < nblocks d) : (BitVec.ofNat 32 b).toNat = b := by
  have := h.nblocks_le
  rw [BitVec.toNat_ofNat]
  omega

theorem FileOk.block_ne_zero (hb : b < nblocks d) (hfree : ¬ inUse d b) :
    BitVec.ofNat 32 b ≠ 0#32 := by
  intro he
  have hto := h.toNat_block hb
  rw [he] at hto
  refine (h.free_ne hb hfree).1 ?_
  rw [← hto]
  exact Nat.lt_of_lt_of_le (by decide) (Nat.le_add_right 2 _)

/-- Stores that leave the slots and the bits alone, but that a free block may go
into one slot. -/
theorem FileOk.of_slots (s₀ : BlockSlot) (hnb : d' 1 1 = d 1 1)
    (hmono : ∀ c < nblocks d, inUse d c → inUse d' c)
    (hslot : ∀ s : BlockSlot, s.Of f → slotVal d' s = slotVal d s ∨
      (s = s₀ ∧ ∃ b < nblocks d, ¬ inUse d b ∧ inUse d' b ∧ slotVal d' s = BitVec.ofNat 32 b)) :
    FileOk d' f := by
  have hnb' := nblocks_congr hnb
  refine ⟨by rw [hnb']; exact h.nblocks_le, ?_, by rw [InBitmap.of_nblocks hnb]; exact h.home,
    fun hlt => ?_, ?_, ?_, ?_, ?_, ?_⟩
  · intro c hc hrc
    rw [hnb'] at hc
    exact hmono c hc (h.reserved c hc ((Reserved.of_nblocks hnb).mp hrc))
  · rw [hnb'] at hlt
    exact hmono _ hlt (h.home_used hlt)
  · intro s hs hne
    rw [hnb']
    rcases hslot s hs with he | ⟨-, b, hb, hfree, -, hset⟩
    · rw [he] at hne ⊢
      exact h.slot_lt s hs hne
    · rw [hset, h.toNat_block hb]
      exact hb
  · intro s hs hne
    rw [Reserved.of_nblocks hnb]
    rcases hslot s hs with he | ⟨-, b, hb, hfree, -, hset⟩
    · rw [he] at hne ⊢
      exact h.slot_free s hs hne
    · rw [hset, h.toNat_block hb]
      exact (h.free_ne hb hfree).1
  · intro s hs hne
    rcases hslot s hs with he | ⟨-, b, hb, -, hused, hset⟩
    · rw [he] at hne ⊢
      exact hmono _ (h.slot_lt s hs hne) (h.slot_used s hs hne)
    · rw [hset, h.toNat_block hb]
      exact hused
  · intro s s' hs hs' hne heq
    rcases hslot s hs with he | ⟨rfl, b, hb, hfree, -, hset⟩
    · rw [he] at hne heq
      rcases hslot s' hs' with he' | ⟨-, b, hb, hfree, -, hset⟩
      · rw [he'] at heq
        exact h.slot_inj s s' hs hs' hne heq
      · rw [hset] at heq
        exact absurd (by rw [heq, h.toNat_block hb]) ((h.free_ne hb hfree).2.2 s hs hne)
    · rcases hslot s' hs' with he' | ⟨rfl, -⟩
      · rw [hset] at hne heq
        rw [he'] at heq
        exact absurd (by rw [← heq, h.toNat_block hb])
          ((h.free_ne hb hfree).2.2 s' hs' (heq ▸ hne))
      · rfl
  · intro s hs hne
    rcases hslot s hs with he | ⟨-, b, hb, hfree, -, hset⟩
    · rw [he] at hne ⊢
      exact h.apart s hs hne
    · rw [hset, h.toNat_block hb]
      exact (h.free_ne hb hfree).2.1

theorem FileOk.of_same (hnb : d' 1 1 = d 1 1) (hmono : ∀ c < nblocks d, inUse d c → inUse d' c)
    (hslot : ∀ s : BlockSlot, s.Of f → slotVal d' s = slotVal d s) : FileOk d' f :=
  h.of_slots (.indirect f) hnb hmono fun s hs => Or.inl (hslot s hs)

/-- **A free block goes into a slot.** -/
theorem FileOk.of_new (hb : b < nblocks d) (hfree : ¬ inUse d b)
    (s₀ : BlockSlot) (hnb : d' 1 1 = d 1 1) (hmono : ∀ c < nblocks d, inUse d c → inUse d' c)
    (hused : inUse d' b) (hset : slotVal d' s₀ = BitVec.ofNat 32 b)
    (hother : ∀ s : BlockSlot, s.Of f → s ≠ s₀ → slotVal d' s = slotVal d s) : FileOk d' f := by
  refine h.of_slots s₀ hnb hmono fun s hs => ?_
  by_cases he : s = s₀
  · exact Or.inr ⟨he, b, hb, hfree, hused, he ▸ hset⟩
  · exact Or.inl (hother s hs he)

/-! ## §2. Stores. -/

/-- Marking a block in use does not touch the slots. -/
theorem FileOk.slotVal_markUsed (hb : b < nblocks d)
    (hs : s.Of f) : slotVal (markUsed d b) s = slotVal d s := by
  have hhome : f.blk ≠ bitmapBlk b := fun he => h.home (he ▸ inBitmap_bitmapBlk hb)
  have hrec : ∀ i, markUsed d b f.blk i = d f.blk i := fun i => putWord_of_ne _ _ (Or.inl hhome)
  obtain rfl : s.file = f := hs.mem
  refine slotVal_congr hs (fun a _ _ => hrec _) fun h0 j _ => putWord_of_ne _ _ (Or.inl fun he =>
    ?_)
  refine h.slot_free _ (indirect_of s.file) h0 ?_
  rw [slotVal_indirect, he]
  exact reserved_bitmapBlk hb

/-- A store to the place of file block `n`'s slot. -/
theorem FileOk.slotVal_store (hw : Walked d f n loc)
    (w : Word) : slotVal (putWord d loc.1 loc.2 w) (fileSlot f n) = w ∧
      ∀ s : BlockSlot, s.Of f → s ≠ fileSlot f n → slotVal (putWord d loc.1 loc.2 w) s = slotVal d
        s := by
  obtain ⟨rfl, h0⟩ := hw
  unfold fileSlot
  by_cases hn : n < NDIRECT
  · rw [if_pos hn]
    show putWord d f.blk (f.fDirect n) w f.blk (f.fDirect n) = w ∧ ∀ s : BlockSlot, s.Of f →
      s ≠ .direct f n →
      slotVal (putWord d f.blk (f.fDirect n) w) s = slotVal d s
    have hi : indirectOf (putWord d f.blk (f.fDirect n) w) f = indirectOf d f :=
      putWord_of_ne _ _ (Or.inr
        (by unfold FileP.fIndirect FileP.fDirect; unfold NDIRECT at hn; omega))
    refine ⟨putWord_same .., fun s hs hne => ?_⟩
    cases s with
    | direct g i =>
      obtain ⟨rfl, -⟩ := hs
      refine putWord_of_ne _ _ (Or.inr fun he => hne ?_)
      unfold FileP.fDirect at he
      rw [show i = n by omega]
    | indirect g =>
      obtain rfl : g = f := hs
      exact hi
    | entry g j =>
      obtain ⟨rfl, -⟩ := hs
      exact slotVal_entry_congr hi fun hz =>
        putWord_of_ne _ _ (Or.inl (h.apart _ (indirect_of g) hz))
  · rw [if_neg hn]
    have hz := h0 (Nat.not_lt.mp hn)
    have hblk : (indirectOf d f).toNat ≠ f.blk := h.apart _ (indirect_of f) hz
    show slotVal (putWord d (indirectOf d f).toNat (n - NDIRECT) w) (.entry f (n - NDIRECT)) = w ∧
      ∀ s : BlockSlot, s.Of f → s ≠ .entry f (n - NDIRECT) →
        slotVal (putWord d (indirectOf d f).toNat (n - NDIRECT) w) s = slotVal d s
    have hrec : ∀ i, putWord d (indirectOf d f).toNat (n - NDIRECT) w f.blk i = d f.blk i :=
      fun i => putWord_of_ne _ _ (Or.inl hblk.symm)
    have hi : indirectOf (putWord d (indirectOf d f).toNat (n - NDIRECT) w) f = indirectOf d f :=
      hrec _
    constructor
    · show (if indirectOf _ f = 0#32 then _ else _) = w
      rw [hi, if_neg hz]
      exact putWord_same ..
    · intro s hs hne
      cases s with
      | direct g i =>
        obtain ⟨rfl, -⟩ := hs
        exact hrec _
      | indirect g =>
        obtain rfl : g = f := hs
        exact hrec _
      | entry g j =>
        obtain ⟨rfl, -⟩ := hs
        exact slotVal_entry_congr hi fun _ =>
          putWord_of_ne _ _ (Or.inr fun he => hne (by rw [he]))

/-- Where the slots of `f` are is no place of the bitmap, and not `s_nblocks`. -/
theorem FileOk.walked_ne (hw : Walked d f n loc) :
    ¬ InBitmap d loc.1 ∧ (loc.1 ≠ 1 ∨ loc.2 ≠ 1) := by
  obtain ⟨rfl, h0⟩ := hw
  unfold fileSlot
  by_cases hn : n < NDIRECT
  · rw [if_pos hn]
    refine ⟨h.home, Or.inr ?_⟩
    show f.idx + 34 + n ≠ 1
    omega
  · rw [if_neg hn]
    have hz := h0 (Nat.not_lt.mp hn)
    have hr := h.slot_free _ (indirect_of f) hz
    refine ⟨fun hb => hr hb.2, Or.inl fun he => hr ?_⟩
    show Reserved d (indirectOf d f).toNat
    rw [show (indirectOf d f).toNat = 1 from he]
    exact reserved_one

end

/-! ## §3. What may have changed. -/

/-- Word `i` of block `p` is a field of the record of `f`, its name apart. -/
def InRecord (f : FileP) (p i : Nat) : Prop := p = f.blk ∧ f.fSize ≤ i ∧ i ≤ f.fIndirect

/-- The place of a slot is in the record or in the indirect block. -/
theorem Walked.store_words {n p i : Nat} (hw : Walked d f n loc)
    (hrecord : ¬ InRecord f p i) (hp : indirectOf d f ≠ 0#32 → (indirectOf d f).toNat ≠ p)
    (w : Word) : putWord d loc.1 loc.2 w p i = d p i := by
  rw [putWord_of_ne]
  by_contra hc
  push Not at hc
  obtain ⟨rfl, rfl⟩ := hc
  obtain ⟨rfl, hz⟩ := hw
  unfold fileSlot at hrecord hp
  by_cases hlt : n < NDIRECT
  · rw [if_pos hlt] at hrecord
    refine hrecord ⟨rfl, ?_, ?_⟩
    · show f.idx + 32 ≤ f.idx + 34 + n
      omega
    · show f.idx + 34 + n ≤ f.idx + 44
      unfold NDIRECT at hlt
      omega
  · rw [if_neg hlt] at hp
    exact hp (hz (Nat.not_lt.mp hlt)) rfl

/-- **What an access to `f` may change**: its record, its blocks, and the bits of
the blocks that it has got. -/
structure Touch (f : FileP) (d d' : Disk) : Prop where
  nblocks : d' 1 1 = d 1 1
  kept : ∀ s : BlockSlot, s.Of f → slotVal d s ≠ 0#32 → slotVal d' s = slotVal d s
  words : ∀ p i, ¬ InRecord f p i → ¬ InBitmap d p →
    (∀ s : BlockSlot, s.Of f → slotVal d' s ≠ 0#32 → (slotVal d' s).toNat ≠ p) → d' p i = d p i
  bits : ∀ c, Reserved d (bitmapBlk c) →
    (∀ s : BlockSlot, s.Of f → slotVal d s = 0#32 → slotVal d' s ≠ 0#32 →
      (slotVal d' s).toNat ≠ c) →
    (inUse d' c ↔ inUse d c)

theorem Touch.refl (f : FileP) (d : Disk) : Touch f d d :=
  ⟨rfl, fun _ _ _ => rfl, fun _ _ _ _ _ => rfl, fun _ _ _ => Iff.rfl⟩

theorem Touch.trans {d₁ d₂ d₃ : Disk} (h : Touch f d₁ d₂) (h' : Touch f d₂ d₃) : Touch f d₁ d₃ := by
  refine ⟨h'.nblocks.trans h.nblocks, ?_, ?_, ?_⟩
  · intro s hs h0
    have h1 := h.kept s hs h0
    rw [← h1] at h0
    exact (h'.kept s hs h0).trans h1
  · intro p i hrec hbit hslot
    rw [h'.words p i hrec (by rw [InBitmap.of_nblocks h.nblocks]; exact hbit) hslot]
    refine h.words p i hrec hbit fun s hs h0 => ?_
    have hk := h'.kept s hs h0
    rw [← hk] at h0 ⊢
    exact hslot s hs h0
  · intro c hc hnew
    rw [h'.bits c ((Reserved.of_nblocks h.nblocks).mpr hc) fun s hs h0 h1 => ?_,
      h.bits c hc fun s hs h0 h1 => ?_]
    · have hk := h'.kept s hs h1
      rw [← hk] at h1 ⊢
      exact hnew s hs h0 h1
    · -- a slot that was empty in between was empty at the start
      by_cases hz : slotVal d₁ s = 0#32
      · exact hnew s hs hz h1
      · exact absurd ((h.kept s hs hz).symm.trans h0).symm (Ne.symm hz)

/-- The blocks that `f` has got were free. -/
def Fresh (f : FileP) (d d' : Disk) : Prop :=
  ∀ s : BlockSlot, s.Of f → slotVal d s = 0#32 → slotVal d' s ≠ 0#32 →
    ¬ inUse d (slotVal d' s).toNat

/-- What is free after `f` has got its blocks was free before. -/
theorem Fresh.free_of (h : Fresh f d d') (ht : Touch f d d')
    (hb : Reserved d (bitmapBlk b)) (hfree : ¬ inUse d' b) : ¬ inUse d b := by
  intro hused
  refine hfree ((ht.bits b hb ?_).mpr hused)
  intro s hs h0 hne he
  exact h s hs h0 hne (he ▸ hused)

/-- After `file_get_block` of file block `n`. -/
structure GotSlot (f : FileP) (n b : Nat) (d d' : Disk) : Prop where
  ok : FileOk d' f
  touch : Touch f d d'
  /-- Only block numbers are stored: in the record and in the indirect block. -/
  words : ∀ p i, ¬ InRecord f p i → ¬ InBitmap d p →
    (indirectOf d' f ≠ 0#32 → (indirectOf d' f).toNat ≠ p) → d' p i = d p i
  size : d' f.blk f.fSize = d f.blk f.fSize
  type : d' f.blk f.fType = d f.blk f.fType
  only : ∀ s : BlockSlot, s.Of f → slotVal d s = 0#32 → slotVal d' s ≠ 0#32 →
    s = fileSlot f n ∨ (s = .indirect f ∧ NDIRECT ≤ n)
  fresh : Fresh f d d'
  set : slotVal d' (fileSlot f n) ≠ 0#32
  block : (slotVal d' (fileSlot f n)).toNat = b

/-! ## §4. `file_block_walk`. -/

/-- `f` gets block `b` as its indirect block. -/
def withIndirect (d : Disk) (f : FileP) (b : Nat) : Disk :=
  putWord (Function.update (markUsed d b) b fun _ => 0#32) f.blk f.fIndirect (BitVec.ofNat 32 b)

/-- After `file_block_walk` of file block `n` with `alloc` set. -/
structure WalkedTo (f : FileP) (n : Nat) (loc : Nat × Nat) (d d' : Disk) : Prop where
  ok : FileOk d' f
  walked : Walked d' f n loc
  touch : Touch f d d'
  words : ∀ p i, ¬ InRecord f p i → ¬ InBitmap d p →
    (indirectOf d' f ≠ 0#32 → (indirectOf d' f).toNat ≠ p) → d' p i = d p i
  size : d' f.blk f.fSize = d f.blk f.fSize
  type : d' f.blk f.fType = d f.blk f.fType
  other : ∀ s : BlockSlot, s.Of f → s ≠ .indirect f → slotVal d' s = slotVal d s
  fresh : Fresh f d d'
  same : (NDIRECT ≤ n → indirectOf d f ≠ 0#32) → d' = d

theorem WalkedTo.refl (h : FileOk d f) (hw : Walked d f n loc) : WalkedTo f n loc d d :=
  ⟨h, hw, Touch.refl f d, fun _ _ _ _ _ => rfl, rfl, rfl, fun _ _ _ => rfl,
    fun _ _ h0 hne => absurd h0 hne, fun _ => rfl⟩

/-- The walk sets no slot but `f_indirect`. -/
theorem WalkedTo.only (hw : WalkedTo f n loc d d')
    (hs : s.Of f) (h0 : slotVal d s = 0#32) (hne : slotVal d' s ≠ 0#32) :
    s = .indirect f ∧ NDIRECT ≤ n := by
  by_cases hind : s = .indirect f
  · refine ⟨hind, ?_⟩
    by_contra hlt
    rw [hw.same fun hge => absurd hge hlt] at hne
    exact hne h0
  · rw [hw.other s hs hind] at hne
    exact absurd h0 hne

/-- The bits of the blocks after the indirect block has been added. -/
theorem FileOk.inUse_withIndirect (h : FileOk d f) (hb : b < nblocks d)
    (hfree : ¬ inUse d b) (hc : Reserved d (bitmapBlk c)) :
    inUse (withIndirect d f b) c ↔ c = b ∨ inUse d c := by
  have hmap : InBitmap d (bitmapBlk c) := ⟨Nat.le_add_right 2 _, hc⟩
  have hhome : bitmapBlk c ≠ f.blk := fun he => h.home (he ▸ hmap)
  have hne : bitmapBlk c ≠ b := fun he => (h.free_ne hb hfree).1 (he ▸ hc)
  rw [← inUse_markUsed]
  apply inUse_congr
  funext i
  unfold withIndirect
  rw [putWord_of_ne _ _ (Or.inl hhome), Function.update_of_ne hne]

theorem FileOk.withIndirect_walked (h : FileOk d f) (hb : b < nblocks d)
    (hfree : ¬ inUse d b) (h0 : indirectOf d f = 0#32) (hn : NDIRECT ≤ n) :
    WalkedTo f n (b, n - NDIRECT) d (withIndirect d f b) := by
  obtain ⟨hr, hblk, -⟩ := h.free_ne hb hfree
  have hto := h.toNat_block hb
  have hmap := inBitmap_bitmapBlk hb
  have hind : indirectOf (withIndirect d f b) f = BitVec.ofNat 32 b := putWord_same ..
  have hne0 := h.block_ne_zero hb hfree
  -- words of the record but `f_indirect`
  have hrec : ∀ i, i ≠ f.fIndirect → withIndirect d f b f.blk i = d f.blk i := by
    intro i hi
    unfold withIndirect
    rw [putWord_of_ne _ _ (Or.inr hi), Function.update_of_ne hblk.symm]
    exact putWord_of_ne _ _ (Or.inl fun he => h.home (he ▸ hmap))
  have hword : ∀ p i, ¬ (p = f.blk ∧ i = f.fIndirect) → p ≠ bitmapBlk b → p ≠ b →
      withIndirect d f b p i = d p i := by
    intro p i hrecord hbit hpb
    unfold withIndirect
    rw [putWord_of_ne _ _ (by by_contra hc; push Not at hc; exact hrecord hc),
      Function.update_of_ne hpb]
    exact putWord_of_ne _ _ (Or.inl hbit)
  have hnb : withIndirect d f b 1 1 = d 1 1 := by
    refine hword 1 1 ?_ ?_ ?_
    · rintro ⟨-, he⟩
      unfold FileP.fIndirect at he
      omega
    · unfold bitmapBlk
      omega
    · exact fun he => hr (he ▸ reserved_one)
  have hother : ∀ s : BlockSlot, s.Of f → s ≠ .indirect f →
      slotVal (withIndirect d f b) s = slotVal d s := by
    intro s hs hne
    cases s with
    | direct g i =>
      obtain ⟨rfl, hi⟩ := hs
      refine hrec _ ?_
      unfold FileP.fDirect FileP.fIndirect
      unfold NDIRECT at hi
      omega
    | indirect g =>
      obtain rfl : g = f := hs
      exact absurd rfl hne
    | entry g j =>
      obtain ⟨rfl, -⟩ := hs
      show (if indirectOf _ g = 0#32 then _ else _) = if indirectOf d g = 0#32 then _ else _
      rw [hind, if_neg hne0, if_pos h0, hto]
      unfold withIndirect
      rw [putWord_of_ne _ _ (Or.inl hblk), Function.update_self]
  have hok : FileOk (withIndirect d f b) f := by
    refine h.of_new hb hfree (.indirect f) hnb ?_ ?_ hind hother
    · exact fun c hc hu => (h.inUse_withIndirect hb hfree (reserved_bitmapBlk hc)).mpr (Or.inr hu)
    · exact (h.inUse_withIndirect hb hfree (reserved_bitmapBlk hb)).mpr (Or.inl rfl)
  have hwords : ∀ p i, ¬ InRecord f p i → ¬ InBitmap d p →
      (indirectOf (withIndirect d f b) f ≠ 0#32 → (indirectOf (withIndirect d f b) f).toNat ≠ p) →
      withIndirect d f b p i = d p i := by
    intro p i hrecord hbit hp
    rw [hind, hto] at hp
    refine hword p i ?_ ?_ (hp hne0).symm
    · rintro ⟨hp', hi⟩
      refine hrecord ⟨hp', ?_, hi.le⟩
      rw [hi]
      unfold FileP.fSize FileP.fIndirect
      omega
    · exact fun he => hbit (he ▸ hmap)
  refine ⟨hok, ?_, ⟨hnb, ?_, ?_, ?_⟩, hwords, hrec _ (by unfold FileP.fSize FileP.fIndirect; omega),
    hrec _ (by unfold FileP.fType FileP.fIndirect; omega), hother, ?_, fun hc => absurd h0 (hc hn)⟩
  · have := walked_entry (d := withIndirect d f b) (f := f) hn (by rw [hind]; exact hne0)
    rw [hind, hto] at this
    exact this
  · intro s hs hne
    by_cases he : s = .indirect f
    · rw [he] at hne
      exact absurd h0 hne
    · exact hother s hs he
  · intro p i hrecord hbit hslot
    exact hwords p i hrecord hbit (hslot _ (indirect_of f))
  · intro c hc hnew
    have hcb : c ≠ b := by
      have := hnew _ (indirect_of f) h0 (by rw [slotVal_indirect, hind]; exact hne0)
      rw [slotVal_indirect, hind, hto] at this
      exact this.symm
    rw [h.inUse_withIndirect hb hfree hc]
    exact or_iff_right hcb
  · intro s hs hz hne
    by_cases he : s = .indirect f
    · rw [he, slotVal_indirect, hind, hto]
      exact hfree
    · rw [hother s hs he] at hne
      exact absurd hz hne

theorem FileOk.allocBlock (h : FileOk d f) : wp allocBlock (BlockAllocated d) (fun _ _ =>
    False) d := by
  refine wp_bind_ok (sNblocks_ok d) ?_
  refine allocBlockFrom_spec (fun h0 => h.reserved 0 h0 ?_) _ 0 (by unfold nblocks; omega)
    (fun c hc => by omega)
  exact Nat.lt_of_lt_of_le (by decide) (Nat.le_add_right 2 _)

/-- **`file_block_walk`** with `alloc` set.  It stops if the file needs an indirect
block and no block is free. -/
theorem fileBlockWalk_walked (h : FileOk d f) (hn : filebno.toNat < NDIRECT + NINDIRECT) :
    wp (fileBlockWalk f filebno true)
      (fun r d' => ∃ loc, r = .ok loc ∧ WalkedTo f filebno.toNat loc d d')
      (fun _ d' => d' = d ∧ Full d ∧ NDIRECT ≤ filebno.toNat ∧ indirectOf d f = 0#32) d := by
  unfold fileBlockWalk
  by_cases h1 : filebno.toNat < NDIRECT
  · rw [if_pos h1]
    exact ⟨_, rfl, .refl h (walked_direct d f h1)⟩
  rw [if_neg h1, if_pos hn]
  have hge := Nat.not_lt.mp h1
  refine wp_bind_ok (load_ok _ _ d) ?_
  by_cases h0 : indirectOf d f = 0#32
  · rw [if_neg (by simpa [indirectOf] using h0), if_pos rfl]
    refine wp_seq (wp_mono h.allocBlock (fun _ _ h => h) (fun _ _ h => h.elim)) ?_
    rintro w d₁ (⟨b, hb, hfree, rfl, rfl⟩ | ⟨hfull, rfl, rfl⟩)
    · have hto := h.toNat_block hb
      have hne0 := h.block_ne_zero hb hfree
      have hw := h.withIndirect_walked hb hfree h0 hge
      have hnb : nblocks (markUsed d b) = nblocks d := nblocks_congr
        (putWord_of_ne _ _ (Or.inl (by unfold bitmapBlk; omega)))
      refine wp_bind_ok (diskaddr_ok hne0 (by rw [hto, hnb]; exact hb)) ?_
      refine wp_bind_ok (clearBlock_ok _ _) ?_
      refine wp_bind_ok (store_ok _ _ _ _) (wp_bind_ok (load_ok _ _ _) ?_)
      rw [putWord_same]
      refine wp_bind_ok (diskaddr_ok hne0 ?_) ?_
      · rw [hto]
        show b < nblocks (withIndirect d f b)
        rw [nblocks_congr hw.touch.nblocks]
        exact hb
      · rw [hto]
        exact ⟨_, rfl, hw⟩
    · refine (wp_bind _ _ _ _ _).mpr (wp_of_error (diskaddr_bad (noDisk_bad h.nblocks_le)) ?_)
      exact ⟨rfl, hfull, hge, h0⟩
  · rw [if_pos (by simpa [indirectOf] using h0)]
    refine wp_bind_ok (diskaddr_ok h0 (h.slot_lt _ (indirect_of f) h0)) ?_
    exact ⟨_, rfl, .refl h (walked_entry hge h0)⟩

/-! ## §5. `file_get_block`. -/

/-- How `file_get_block` stops on a full disk: at the indirect block, or at the
block itself, with the error code stored in the slot. -/
inductive Refused (f : FileP) (n : Nat) (d : Disk) : Disk → Prop
  | indirect (hn : NDIRECT ≤ n) (h0 : indirectOf d f = 0#32) (hfull : Full d) : Refused f n d d
  | block {d₁ : Disk} {loc : Nat × Nat} (hw : WalkedTo f n loc d d₁)
      (h0 : slotVal d₁ (fileSlot f n) = 0#32) (hfull : Full d₁) :
      Refused f n d (putWord d₁ loc.1 loc.2 (-E_NO_DISK))

/-- The free block `b` goes into the slot the walk has found. -/
theorem WalkedTo.take (hw : WalkedTo f n loc d d₁)
    (hn : n < NDIRECT + NINDIRECT) (h0 : slotVal d₁ (fileSlot f n) = 0#32) (hb : b < nblocks d₁)
    (hfree : ¬ inUse d₁ b) :
    GotSlot f n b d (putWord (markUsed d₁ b) loc.1 loc.2 (BitVec.ofNat 32 b)) := by
  have h := hw.ok
  have hto := h.toNat_block hb
  have hne0 := h.block_ne_zero hb hfree
  have hmap := inBitmap_bitmapBlk hb
  have hslot : ∀ s : BlockSlot, s.Of f → slotVal (markUsed d₁ b) s = slotVal d₁ s :=
    fun s hs => h.slotVal_markUsed hb hs
  have hnb₁ : markUsed d₁ b 1 1 = d₁ 1 1 := putWord_of_ne _ _ (Or.inl (by unfold bitmapBlk; omega))
  have hm : FileOk (markUsed d₁ b) f :=
    h.of_same hnb₁ (fun c _ hu => inUse_markUsed.mpr (Or.inr hu)) hslot
  have hwm : Walked (markUsed d₁ b) f n loc := hw.walked.of_indirect (hslot _ (indirect_of f))
  obtain ⟨hself, hother⟩ := hm.slotVal_store hwm (BitVec.ofNat 32 b)
  obtain ⟨hlocbit, hlocnb⟩ := h.walked_ne hw.walked
  generalize hd' : putWord (markUsed d₁ b) loc.1 loc.2 (BitVec.ofNat 32 b) = d' at hself hother ⊢
  have hnb : d' 1 1 = d₁ 1 1 := by
    rw [← hd', putWord_of_ne _ _ (by omega)]
    exact hnb₁
  have hsame : ∀ s : BlockSlot, s.Of f → s ≠ fileSlot f n → slotVal d' s = slotVal d₁ s :=
    fun s hs hne => (hother s hs hne).trans (hslot s hs)
  have hi : indirectOf d' f = indirectOf d₁ f := hsame _ (indirect_of f)
    (fileSlot_ne_indirect _ _ _).symm
  have hbits : ∀ c, Reserved d₁ (bitmapBlk c) → (inUse d' c ↔ c = b ∨ inUse d₁ c) := by
    intro c hc
    rw [← inUse_markUsed]
    apply inUse_congr
    funext i
    rw [← hd']
    exact putWord_of_ne _ _ (Or.inl fun he => hlocbit (he ▸ ⟨Nat.le_add_right 2 _, hc⟩))
  have hok : FileOk d' f := by
    refine h.of_new hb hfree _ hnb ?_ ?_ hself hsame
    · exact fun c hc hu => (hbits c (reserved_bitmapBlk hc)).mpr (Or.inr hu)
    · exact (hbits b (reserved_bitmapBlk hb)).mpr (Or.inl rfl)
  have hwords : ∀ p i, ¬ InRecord f p i → ¬ InBitmap d₁ p →
      (indirectOf d₁ f ≠ 0#32 → (indirectOf d₁ f).toNat ≠ p) → d' p i = d₁ p i := by
    intro p i hrecord hbit hp
    have him : indirectOf (markUsed d₁ b) f = indirectOf d₁ f := hslot _ (indirect_of f)
    rw [← hd', hwm.store_words hrecord (by rw [him]; exact hp)]
    exact putWord_of_ne _ _ (Or.inl fun he => hbit (he ▸ hmap))
  have htouch₁ : Touch f d₁ d' := by
    refine ⟨hnb, ?_, ?_, ?_⟩
    · intro s hs hne
      by_cases he : s = fileSlot f n
      · rw [he] at hne
        exact absurd h0 hne
      · exact hsame s hs he
    · intro p i hrecord hbit hslots
      refine hwords p i hrecord hbit fun hne => ?_
      have := hslots _ (indirect_of f)
      rw [slotVal_indirect, hi] at this
      exact this hne
    · intro c hc hnew
      have hcb : c ≠ b := by
        have := hnew _ (fileSlot_of f hn) h0 (by rw [hself]; exact hne0)
        rw [hself, hto] at this
        exact this.symm
      rw [hbits c hc]
      exact or_iff_right hcb
  have hrecword : ∀ i, i = f.fSize ∨ i = f.fType → d' f.blk i = d₁ f.blk i := by
    intro i hi'
    rw [← hd', putWord_of_ne]
    · exact putWord_of_ne _ _ (Or.inl fun he => h.home (he ▸ hmap))
    · obtain ⟨rfl, hz⟩ := hw.walked
      unfold fileSlot
      by_cases hlt : n < NDIRECT
      · rw [if_pos hlt]
        right
        show i ≠ f.idx + 34 + n
        unfold FileP.fSize FileP.fType at hi'
        omega
      · rw [if_neg hlt]
        exact Or.inl (h.apart _ (indirect_of f) (hz (Nat.not_lt.mp hlt))).symm
  refine ⟨hok, hw.touch.trans htouch₁, ?_, (hrecword _ (Or.inl rfl)).trans hw.size,
    (hrecword _ (Or.inr rfl)).trans hw.type, ?_, ?_, by rw [hself]; exact hne0, by rw [hself, hto]⟩
  · intro p i hrecord hbit hp
    rw [hi] at hp
    rw [hwords p i hrecord (by rw [InBitmap.of_nblocks hw.touch.nblocks]; exact hbit) hp]
    exact hw.words p i hrecord hbit hp
  · intro s hs hz hne
    by_cases he : s = fileSlot f n
    · exact Or.inl he
    · rw [hsame s hs he] at hne
      exact Or.inr (hw.only hs hz hne)
  · intro s hs hz hne
    by_cases he : s = fileSlot f n
    · rw [he, hself, hto]
      rw [nblocks_congr hw.touch.nblocks] at hb
      exact hw.fresh.free_of hw.touch (reserved_bitmapBlk hb) hfree
    · rw [hsame s hs he] at hne ⊢
      exact hw.fresh s hs hz hne

/-- **`file_get_block`** of any block in range. -/
theorem fileGetBlock_got (h : FileOk d f) (hn : filebno.toNat < NDIRECT + NINDIRECT) :
    wp (fileGetBlock f filebno)
      (fun r d' => ∃ b, r = .ok b ∧ GotSlot f filebno.toNat b d d')
      (fun _ d' => Refused f filebno.toNat d d') d := by
  refine wp_seq (wp_mono (fileBlockWalk_walked h hn) (fun _ _ h => h) ?_) ?_
  · rintro e d' ⟨rfl, hfull, hge, h0⟩
    exact .indirect hge h0 hfull
  rintro r d₁ ⟨loc, rfl, hw⟩
  have hs := fileSlot_of f hn
  refine wp_bind_ok (load_ok _ _ d₁) ?_
  rw [hw.walked.load]
  by_cases h0 : slotVal d₁ (fileSlot f filebno.toNat) = 0#32
  · rw [if_pos h0]
    refine wp_seq (wp_mono hw.ok.allocBlock (fun _ _ h => h) (fun _ _ h => h.elim)) ?_
    rintro w d₂ (⟨b, hb, hfree, rfl, rfl⟩ | ⟨hfull, rfl, rfl⟩)
    · have hgot := hw.take hn h0 hb hfree
      refine wp_bind_ok (store_ok _ _ _ _) (wp_bind_ok (load_ok _ _ _) ?_)
      rw [putWord_same]
      refine wp_bind_ok (diskaddr_ok (hw.ok.block_ne_zero hb hfree) ?_) ?_
      · have := hgot.ok.slot_lt _ hs hgot.set
        rw [hgot.block] at this
        rw [hw.ok.toNat_block hb]
        exact this
      · exact ⟨_, rfl, by rw [hw.ok.toNat_block hb]; exact hgot⟩
    · refine wp_bind_ok (store_ok _ _ _ _) (wp_bind_ok (load_ok _ _ _) ?_)
      rw [putWord_same]
      have hne := (hw.ok.walked_ne hw.walked).2
      refine (wp_bind _ _ _ _ _).mpr (wp_of_error (diskaddr_bad (noDisk_bad ?_))
        (.block hw h0 hfull))
      rw [nblocks_congr (putWord_of_ne _ _ (by omega))]
      exact hw.ok.nblocks_le
  · rw [if_neg h0]
    refine wp_bind_ok (load_ok _ _ _) ?_
    rw [hw.walked.load]
    refine wp_bind_ok (diskaddr_ok h0 (hw.ok.slot_lt _ hs h0)) ?_
    exact ⟨_, rfl, hw.ok, hw.touch, hw.words, hw.size, hw.type,
      fun s hs' hz hne => Or.inr (hw.only hs' hz hne), hw.fresh, h0, rfl⟩

theorem fileGetBlock_range (hn : NDIRECT + NINDIRECT ≤ filebno.toNat) :
    fileGetBlock f filebno d = .ok (.error (-E_INVAL)) d := by
  have hwalk : fileBlockWalk f filebno true d = .ok (.error (-E_INVAL)) d := by
    unfold fileBlockWalk
    rw [if_neg (by omega), if_neg (by omega)]
    rfl
  unfold fileGetBlock
  rw [bind_ok hwalk]
  rfl

/-- Where it stops, it has touched nothing else either. -/
theorem Refused.touch (h : Refused f n d d') : Touch f d d' := by
  cases h with
  | indirect => exact Touch.refl f d
  | @block d₁ loc hw h0 hfull =>
    obtain ⟨hself, hother⟩ := hw.ok.slotVal_store hw.walked (-E_NO_DISK)
    obtain ⟨hlocbit, hlocnb⟩ := hw.ok.walked_ne hw.walked
    refine hw.touch.trans ⟨putWord_of_ne _ _ (by omega), ?_, ?_, ?_⟩
    · intro s hs hne
      by_cases he : s = fileSlot f n
      · rw [he] at hne
        exact absurd h0 hne
      · exact hother s hs he
    · intro p i hrecord hbit hslot
      have hi := hother _ (indirect_of f) (fileSlot_ne_indirect _ _ _).symm
      have hp := hslot _ (indirect_of f)
      rw [hi] at hp
      exact hw.walked.store_words hrecord hp _
    · intro c hc _
      apply inUse_congr
      funext i
      exact putWord_of_ne _ _ (Or.inl fun he => hlocbit (he ▸ ⟨Nat.le_add_right 2 _, hc⟩))

/-! ## §6. Enough free blocks. -/

def freeSet (d : Disk) : Finset Nat := (Finset.range (nblocks d)).filter fun b => ¬ inUse d b

def emptySlots (d : Disk) (S : Finset BlockSlot) : Finset BlockSlot :=
  S.filter fun s => slotVal d s = 0#32

/-- There is a free block for every empty slot in `S`. -/
def HasRoom (d : Disk) (S : Finset BlockSlot) : Prop := (emptySlots d S).card ≤ (freeSet d).card

theorem Full.freeSet_eq (h : Full d) : freeSet d = ∅ := by
  unfold freeSet
  rw [Finset.filter_eq_empty_iff]
  intro b hb hfree
  exact hfree (h b (Finset.mem_range.mp hb))

theorem HasRoom.not_full (h : HasRoom d S) (hs : s ∈ S) (h0 : slotVal d s = 0#32) : ¬ Full d := by
  intro hfull
  have hpos : 0 < (emptySlots d S).card :=
    Finset.card_pos.mpr ⟨s, Finset.mem_filter.mpr ⟨hs, h0⟩⟩
  unfold HasRoom at h
  rw [hfull.freeSet_eq, Finset.card_empty] at h
  omega

/-- **Filling slots of `S` uses up no more blocks than it fills slots.** -/
theorem HasRoom.touch (h : HasRoom d S) (hS : ∀ s ∈ S, s.Of f)
    (ht : Touch f d d') (hnew : ∀ s : BlockSlot, s.Of f → slotVal d s = 0#32 → slotVal d' s ≠ 0#32 →
      s ∈ S) : HasRoom d' S := by
  have hsub : emptySlots d' S ⊆ emptySlots d S := by
    intro s hs
    obtain ⟨hin, h0⟩ := Finset.mem_filter.mp hs
    refine Finset.mem_filter.mpr ⟨hin, ?_⟩
    by_contra hne
    exact hne ((ht.kept s (hS s hin) hne).symm.trans h0)
  -- a block that is no longer free stands in a slot that was empty
  have hfree : freeSet d ⊆ freeSet d' ∪
      (emptySlots d S \ emptySlots d' S).image fun s => (slotVal d' s).toNat := by
    intro b hb
    obtain ⟨hlt, hb⟩ := Finset.mem_filter.mp hb
    have hlt' : b < nblocks d := Finset.mem_range.mp hlt
    rw [Finset.mem_union]
    by_cases hex : ∃ s : BlockSlot, s.Of f ∧ slotVal d s = 0#32 ∧ slotVal d' s ≠ 0#32 ∧
        (slotVal d' s).toNat = b
    · obtain ⟨s, hs, h0, h1, hval⟩ := hex
      have hin := hnew s hs h0 h1
      refine Or.inr (Finset.mem_image.mpr ⟨s, Finset.mem_sdiff.mpr ⟨?_, ?_⟩, hval⟩)
      · exact Finset.mem_filter.mpr ⟨hin, h0⟩
      · exact fun hc => h1 (Finset.mem_filter.mp hc).2
    · push Not at hex
      refine Or.inl (Finset.mem_filter.mpr ⟨?_, ?_⟩)
      · rw [nblocks_congr ht.nblocks]
        exact hlt
      · rw [ht.bits b (reserved_bitmapBlk hlt') hex]
        exact hb
  have hcard := Finset.card_sdiff_add_card_eq_card hsub
  have hle := (Finset.card_le_card hfree).trans (Finset.card_union_le _ _)
  have himg : ((emptySlots d S \ emptySlots d' S).image fun s => (slotVal d' s).toNat).card ≤
      (emptySlots d S \ emptySlots d' S).card := Finset.card_image_le
  unfold HasRoom at h ⊢
  omega

/-- `S` has the slots of the file blocks from `lo` up to `hi`. -/
structure Covers (S : Finset BlockSlot) (f : FileP) (lo hi : Nat) : Prop where
  own : ∀ s ∈ S, s.Of f
  slot : ∀ m, lo ≤ m → m < hi → m < NDIRECT + NINDIRECT → fileSlot f m ∈ S
  ind : ∀ m, lo ≤ m → m < hi → NDIRECT ≤ m → .indirect f ∈ S

theorem Covers.mono {lo lo' hi hi' : Nat} (h : Covers S f lo hi)
    (hlo : lo ≤ lo') (hhi : hi' ≤ hi) : Covers S f lo' hi' :=
  ⟨h.own, fun m h1 h2 => h.slot m (hlo.trans h1) (h2.trans_le hhi),
    fun m h1 h2 => h.ind m (hlo.trans h1) (h2.trans_le hhi)⟩

/-- The slots of the file blocks from `lo` up to `hi`, `f_indirect` included if one
of them needs it. -/
def slotsFor (f : FileP) (lo hi : Nat) : Finset BlockSlot :=
  (Finset.Ico lo (min hi (NDIRECT + NINDIRECT))).image (fileSlot f) ∪
    if lo < hi ∧ NDIRECT < hi then {.indirect f} else ∅

theorem slotsFor_covers (f : FileP) (lo hi : Nat) : Covers (slotsFor f lo hi) f lo hi := by
  refine ⟨fun s hs => ?_, fun m h1 h2 h3 => ?_, fun m h1 h2 h3 => ?_⟩
  · rcases Finset.mem_union.mp hs with hs | hs
    · obtain ⟨m, hm, rfl⟩ := Finset.mem_image.mp hs
      exact fileSlot_of f (by have := (Finset.mem_Ico.mp hm).2; omega)
    · split at hs
      · rw [Finset.mem_singleton.mp hs]
        exact indirect_of f
      · exact absurd hs (Finset.notMem_empty _)
  · refine Finset.mem_union_left _ (Finset.mem_image.mpr ⟨m, Finset.mem_Ico.mpr ⟨h1, ?_⟩, rfl⟩)
    omega
  · refine Finset.mem_union_right _ ?_
    rw [if_pos (by omega)]
    exact Finset.mem_singleton_self _

theorem GotSlot.room (hgot : GotSlot f n b d d')
    (hS : Covers S f lo hi) (hlo : lo ≤ n) (hhi : n < hi) (hn : n < NDIRECT + NINDIRECT)
    (h : HasRoom d S) : HasRoom d' S := by
  refine h.touch hS.own hgot.touch fun s hs h0 hne => ?_
  rcases hgot.only s hs h0 hne with rfl | ⟨rfl, hge⟩
  · exact hS.slot n hlo hhi hn
  · exact hS.ind n hlo hhi hge

/-- **It stops only if there is no room.** -/
theorem Refused.no_room (h : Refused f n d d')
    (hS : Covers S f lo hi) (hlo : lo ≤ n) (hhi : n < hi) (hn : n < NDIRECT + NINDIRECT) :
    ¬ HasRoom d S := by
  intro hroom
  cases h with
  | indirect hge h0 hfull => exact hroom.not_full (hS.ind n hlo hhi hge) h0 hfull
  | @block d₁ loc hw h0 hfull =>
    have hroom₁ : HasRoom d₁ S := by
      refine hroom.touch hS.own hw.touch fun s hs hz hne => ?_
      obtain ⟨rfl, hge⟩ := hw.only hs hz hne
      exact hS.ind n hlo hhi hge
    exact hroom₁.not_full (hS.slot n hlo hhi hn) h0 hfull

end Jos
