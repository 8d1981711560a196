/-
  Jos.Fs.Bytes — **THE BYTES OF A FILE.**

  Byte `k` of a file lies in the block whose number stands in slot
  `k / BLKSIZE`.  A read may allocate blocks for the holes it meets; what the
  file showed before, it shows after it as well.
-/
import Jos.Fs.Tree

namespace Jos

open Exec

variable {files : Set FileP} {d d' : Disk} {f g : FileP}

variable {a b n : Nat} {filebno : Word}

/-! ## §1. Bytes of the disk and of a file. -/

/-- The byte at `DISKMAP + a`. -/
def byteAt (d : Disk) (a : Nat) : Byte := getByte (d (a / BLKSIZE) (a % BLKSIZE / 4)) (a % 4)

def fileByte (d : Disk) (f : FileP) (k : Nat) : Byte :=
  byteAt d ((slotVal d (fileSlot f (k / BLKSIZE))).toNat * BLKSIZE + k % BLKSIZE)

/-- The `n` bytes from `a` on. -/
def fileBytes (d : Disk) (f : FileP) (a n : Nat) : List Byte := (List.range' a n).map (fileByte d f)

theorem fileBytes_length (d : Disk) (f : FileP) (a n : Nat) : (fileBytes d f a n).length = n := by
  simp [fileBytes]

theorem fileBytes_append (d : Disk) (f : FileP) (a m n : Nat) :
    fileBytes d f a m ++ fileBytes d f (a + m) n = fileBytes d f a (m + n) := by
  unfold fileBytes
  rw [← List.map_append, List.range'_append_1]

theorem diskBytes_eq (d : Disk) (n : Nat) :
    ∀ a, diskBytes a n d = .ok ((List.range' a n).map (byteAt d)) d := by
  induction n with
  | zero => exact fun _ => rfl
  | succ n ih =>
    intro a
    show (diskByte a >>= fun x => diskBytes (a + 1) n >>= fun xs => pure (x :: xs)) d = _
    rw [bind_ok (show diskByte a d = .ok (byteAt d a) d from rfl), bind_ok (ih (a + 1)),
      List.range'_succ]
    rfl

/-- What one pass of `file_read` moves are bytes of the file. -/
theorem diskBytes_file {pos : Word} (hpos : pos.toNat < 2 ^ 31) (hn : n ≤ 4096 - pos.toNat % 4096)
    (hb : (slotVal d (fileSlot f (pos.toNat / 4096))).toNat = b) :
    diskBytes (blkAddr b pos) n d = .ok (fileBytes d f pos.toNat n) d := by
  rw [diskBytes_eq, blkAddr_eq b hpos]
  congr 1
  unfold fileBytes
  rw [List.range'_eq_map_range, List.range'_eq_map_range, List.map_map, List.map_map]
  apply List.map_congr_left
  intro k hk
  rw [List.mem_range] at hk
  -- all of them lie in the block of `pos`
  have hdiv : (pos.toNat + k) / BLKSIZE = pos.toNat / 4096 := by
    unfold BLKSIZE
    omega
  have hmod : (pos.toNat + k) % BLKSIZE = pos.toNat % 4096 + k := by
    unfold BLKSIZE
    omega
  show byteAt d (b * BLKSIZE + pos.toNat % 4096 + k) = byteAt d
    ((slotVal d (fileSlot f ((pos.toNat + k) / BLKSIZE))).toNat * BLKSIZE +
      (pos.toNat + k) % BLKSIZE)
  rw [hdiv, hmod, hb, Nat.add_assoc]

/-! ## §2. A block that is there. -/

theorem fileBlockWalk_there (alloc : Bool) (hn : filebno.toNat < NDIRECT + NINDIRECT)
    (h0 : slotVal d (fileSlot f filebno.toNat) ≠ 0#32)
    (hind : NDIRECT ≤ filebno.toNat → (indirectOf d f).toNat < nblocks d) :
    ∃ loc, fileBlockWalk f filebno alloc d = .ok (.ok loc) d ∧ Walked d f filebno.toNat loc := by
  by_cases hlt : filebno.toNat < NDIRECT
  · refine ⟨_, ?_, walked_direct d f hlt⟩
    unfold fileBlockWalk
    rw [if_pos hlt]
    rfl
  · have hge : NDIRECT ≤ filebno.toNat := by omega
    have hi : indirectOf d f ≠ 0#32 := by
      intro hz
      apply h0
      unfold fileSlot
      rw [if_neg hlt]
      exact if_pos hz
    refine ⟨_, ?_, walked_entry hge hi⟩
    unfold fileBlockWalk
    rw [if_neg hlt, if_pos hn, bind_ok (load_ok _ _ d),
      if_pos (show d f.blk f.fIndirect ≠ 0#32 from hi),
      bind_ok (diskaddr_ok (show d f.blk f.fIndirect ≠ 0#32 from hi) (hind hge))]
    rfl

/-- **`file_get_block` of a block that the file has** changes nothing. -/
theorem fileGetBlock_there (hn : filebno.toNat < NDIRECT + NINDIRECT)
    (h0 : slotVal d (fileSlot f filebno.toNat) ≠ 0#32)
    (hlt : (slotVal d (fileSlot f filebno.toNat)).toNat < nblocks d)
    (hind : NDIRECT ≤ filebno.toNat → (indirectOf d f).toNat < nblocks d) :
    fileGetBlock f filebno d = .ok (.ok (slotVal d (fileSlot f filebno.toNat)).toNat) d := by
  obtain ⟨loc, hwalk, hw⟩ := fileBlockWalk_there true hn h0 hind
  unfold fileGetBlock
  rw [bind_ok hwalk]
  show (load loc.1 loc.2 >>= fun w => _) d = _
  rw [bind_ok (load_ok _ _ d)]
  have hload := hw.load
  rw [if_neg (by rw [hload]; exact h0)]
  show (load loc.1 loc.2 >>= fun w => diskaddr w >>= fun b => pure (Except.ok b)) d = _
  rw [bind_ok (load_ok _ _ d), hload, bind_ok (diskaddr_ok h0 hlt)]
  rfl

theorem FsInv.indirect_lt (h : FsInv files ∅ d) (hf : f ∈ files) (hn : NDIRECT ≤ n)
    (h0 : slotVal d (fileSlot f n) ≠ 0#32) : (indirectOf d f).toNat < nblocks d := by
  refine h.slot_lt (.indirect f) hf fun hz => h0 ?_
  unfold fileSlot
  rw [if_neg (by omega)]
  exact if_pos hz

/-! ## §3. What a read keeps. -/

/-- No block of `f` holds the record of `f`. -/
def RecordApart (d : Disk) (f : FileP) : Prop :=
  ∀ n < NDIRECT + NINDIRECT, slotVal d (fileSlot f n) ≠ 0#32 →
    (slotVal d (fileSlot f n)).toNat ≠ f.blk

/-- Files are reached from the root, so no directory contains itself. -/
theorem Consistent.recordApart (h : Consistent d) (hf : f ∈ allFiles d) : RecordApart d f := by
  have hfile : IsFile d f := hf
  induction hfile with
  | root =>
    intro n hn h0 he
    apply h.slot_free _ (fileSlot_in hf hn) h0
    rw [he]
    exact reserved_one
  | @entry g n k hg hdir hn h0 hk ih =>
    intro m hm hm0 he
    have hs := h.slot_inj _ _ (fileSlot_in hf hm) (fileSlot_in hg hn) hm0
      (BitVec.eq_of_toNat_eq he)
    -- the directory the file stands in would be the file itself
    have hself := (fileSlot_inj hs).1
    exact ih hg n hn h0 (congrArg FileP.blk hself)

/-- `d'` has come from `d` by reading `f`. -/
structure Held (files : Set FileP) (f : FileP) (d d' : Disk) : Prop where
  inv : FsInv files ∅ d'
  apart : RecordApart d' f
  grows : Grows files f d d'
  kept : ∀ n < NDIRECT + NINDIRECT, slotVal d (fileSlot f n) ≠ 0#32 →
    d' (slotVal d (fileSlot f n)).toNat = d (slotVal d (fileSlot f n)).toNat

theorem Held.refl (h : FsInv files ∅ d) (ha : RecordApart d f) : Held files f d d :=
  ⟨h, ha, Grows.refl files f d, fun _ _ _ => rfl⟩

theorem Held.trans {d₁ d₂ d₃ : Disk} (hf : f ∈ files) (h : Held files f d₁ d₂)
    (h' : Held files f d₂ d₃) : Held files f d₁ d₃ := by
  refine ⟨h'.inv, h'.apart, h.grows.trans h'.grows, ?_⟩
  intro n hn h0
  have hs := h.grows.kept _ (fileSlot_in hf hn) h0
  have h2 := h'.kept n hn (by rw [hs]; exact h0)
  rw [hs] at h2
  exact h2.trans (h.kept n hn h0)

theorem GotBlock.held (hgot : GotBlock files f n b d d') (h : FsInv files ∅ d)
    (ha : RecordApart d f) (hf : f ∈ files) (hn : n < NDIRECT + NINDIRECT) : Held files f d d' := by
  refine ⟨hgot.inv, ?_, hgot.grows, ?_⟩
  · intro m hm h0 he
    have hm' := fileSlot_in hf hm
    by_cases hz : slotVal d (fileSlot f m) = 0#32
    · -- the slot is new, and its block was free
      by_cases hmn : m = n
      · subst hmn
        obtain ⟨hlt, hfree⟩ := hgot.was_free h hf hn hz
        rw [← hgot.block, he] at hlt hfree
        exact hfree (h.record_inUse hf hlt)
      · have hsame := hgot.only _ hm' (fileSlot_ne_indirect _ _ _)
          (fun hs => hmn (fileSlot_inj hs).2)
        exact h0 (hsame.trans hz)
    · rw [hgot.grows.kept _ hm' hz] at he
      exact ha m hm hz he
  · intro m hm h0
    have hm' := fileSlot_in hf hm
    have hk := hgot.grows.kept _ hm' h0
    refine hgot.elsewhere _ (h.slot_free _ hm' h0) (ha m hm h0) fun hi he => ?_
    have hs := hgot.inv.slot_inj (fileSlot f m) (.indirect f) hm' hf (by rw [hk]; exact h0)
      (BitVec.eq_of_toNat_eq (by rw [hk, he]; rfl))
    exact fileSlot_ne_indirect _ _ _ hs

/-- A block of `f` inside its size has not been allocated. -/
def Hole (d : Disk) (f : FileP) : Prop := ∃ n < fileBlocks d f, slotVal d (fileSlot f n) = 0#32

theorem Held.hole (h : Held files f d d') (hd : FsInv files ∅ d) (hf : f ∈ files)
    (hh : Hole d' f) : Hole d f := by
  obtain ⟨n, hn, h0⟩ := hh
  rw [h.grows.fileBlocks_eq hf] at hn
  refine ⟨n, hn, ?_⟩
  by_contra hne
  rw [h.grows.kept _ (fileSlot_in hf (hd.block_lt hf hn)) hne] at h0
  exact hne h0

/-- **`file_get_block`** gives the block of the slot; it stops only at a hole
of a file on a full disk. -/
theorem fileGetBlock_held (h : FsInv files ∅ d) (ha : RecordApart d f) (hf : f ∈ files)
    (hn : filebno.toNat < fileBlocks d f) :
    wp (fileGetBlock f filebno)
      (fun r d' => ∃ b, r = .ok b ∧ Held files f d d' ∧
        slotVal d' (fileSlot f filebno.toNat) ≠ 0#32 ∧
        (slotVal d' (fileSlot f filebno.toNat)).toNat = b)
      (fun _ d' => Full d' ∧ Hole d f) d := by
  have hmax := h.block_lt hf hn
  by_cases h0 : slotVal d (fileSlot f filebno.toNat) = 0#32
  · apply wp_mono (fileGetBlock_spec h hf hn)
    · intro r d' hr
      obtain ⟨b, rfl, hgot⟩ := hr
      exact ⟨b, rfl, hgot.held h ha hf hmax, hgot.set, hgot.block⟩
    · exact fun e d' hfull => ⟨hfull, filebno.toNat, hn, h0⟩
  · refine wp_of_ok (fileGetBlock_there hmax h0 (h.slot_lt _ (fileSlot_in hf hmax) h0)
      fun hge => h.indirect_lt hf hge h0) ?_
    exact ⟨_, rfl, Held.refl h ha, h0, rfl⟩

/-- The blocks of the bytes from `a` up to `b` are there. -/
def Filled (d : Disk) (f : FileP) (a b : Nat) : Prop :=
  ∀ k, a ≤ k → k < b → k / BLKSIZE < NDIRECT + NINDIRECT ∧
    slotVal d (fileSlot f (k / BLKSIZE)) ≠ 0#32

theorem Filled.held (h : Held files f d d') (hf : f ∈ files) (hfill : Filled d f a b) :
    Filled d' f a b := by
  intro k hak hkb
  obtain ⟨hn, h0⟩ := hfill k hak hkb
  refine ⟨hn, ?_⟩
  rw [h.grows.kept _ (fileSlot_in hf hn) h0]
  exact h0

/-- Bytes that are there stay. -/
theorem Held.fileBytes_eq (h : Held files f d d') (hf : f ∈ files)
    (hfill : Filled d f a (a + n)) : fileBytes d' f a n = fileBytes d f a n := by
  apply List.map_congr_left
  intro k hk
  rw [List.mem_range'_1] at hk
  obtain ⟨hn, h0⟩ := hfill k hk.1 hk.2
  have hdiv : ∀ b, (b * BLKSIZE + k % BLKSIZE) / BLKSIZE = b := by
    intro b
    unfold BLKSIZE
    omega
  unfold fileByte byteAt
  rw [h.grows.kept _ (fileSlot_in hf hn) h0, hdiv, h.kept _ hn h0]

end Jos
