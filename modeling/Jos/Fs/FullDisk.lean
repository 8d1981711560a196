/-
  Jos.Fs.FullDisk — **A FULL DISK** (`file_block_walk` and `file_get_block` in `fs/fs.c`).

  `alloc_block` returns `-E_NO_DISK` if no block is free, and both callers test the
  number they get with `< 0`; but they hold it as a `uint32_t`, so the test is never
  true.  The code goes on to `diskaddr`, which stops the server.

    • `full_disk_unreported` : no call that needs a block returns,
    • `full_disk_stops`      : what is left in the slot of a file on a small full disk.
-/
import Jos.Fs.ByteArray

namespace Jos

open Exec

variable {d d' : Disk} {f : FileP}

/-! ## §1. Every call that needs a block. -/

/-- `file_get_block` has no block to put into an empty slot, and does not return. -/
theorem fileGetBlock_full (h : FileOk d f) (hfull : Full d) {filebno : Word}
    (hn : filebno.toNat < NDIRECT + NINDIRECT)
    (h0 : slotVal d (fileSlot f filebno.toNat) = 0#32) :
    ∃ e d', fileGetBlock f filebno d = .error e d' := by
  cases hrun : fileGetBlock f filebno d with
  | error e d' => exact ⟨e, d', rfl⟩
  | ok r d' =>
    obtain ⟨b, -, hgot⟩ := wp_ok (fileGetBlock_got h hn) hrun
    have hof := fileSlot_of f hn
    have hlt := hgot.ok.slot_lt _ hof hgot.set
    rw [nblocks_congr hgot.touch.nblocks] at hlt
    exact absurd (hfull _ hlt) (hgot.fresh _ hof h0 hgot.set)

/-- Nor does the loop of `file_write`, whose first pass asks for that block. -/
theorem fileWriteLoop_full (h : FileOk d f) (hfull : Full d) {pos stop : Word} {n : Nat}
    (buf : List Byte) (hlt : pos < stop) (hpos : pos.toNat < MAXFILESIZE)
    (h0 : slotVal d (fileSlot f (pos.toNat / BLKSIZE)) = 0#32) :
    ∃ e d', fileWriteLoop f stop (n + 1) pos buf d = .error e d' := by
  unfold MAXFILESIZE NDIRECT NINDIRECT BLKSIZE at hpos
  have hbno : (pos.sdiv 4096#32).toNat = pos.toNat / BLKSIZE := sdiv_toNat (by omega)
  obtain ⟨e, d', hrun⟩ := @fileGetBlock_full d f h hfull (pos.sdiv 4096#32)
    (by rw [hbno]; unfold NDIRECT NINDIRECT BLKSIZE; omega) (by rw [hbno]; exact h0)
  refine ⟨e, d', ?_⟩
  unfold fileWriteLoop
  rw [if_pos hlt]
  exact bind_error hrun

/-- **The full disk is never reported**: for every file and every slot without a block
(with no indirect block, all the slots in it), `file_get_block` does not return, nor does
`file_block_walk` where the indirect block is missing, nor a `file_write` that begins
there. -/
theorem full_disk_unreported (h : Consistent d) (hf : f ∈ allFiles d) (hfull : Full d)
    {filebno : Word} (hn : filebno.toNat < NDIRECT + NINDIRECT)
    (h0 : slotVal d (fileSlot f filebno.toNat) = 0#32) :
    (∃ e d', fileGetBlock f filebno d = .error e d') ∧
    (NDIRECT ≤ filebno.toNat → indirectOf d f = 0#32 →
      ∃ e d', fileBlockWalk f filebno true d = .error e d') ∧
    ∀ (buf : List Byte) (offset : Word), buf ≠ [] → offset.toNat / BLKSIZE = filebno.toNat →
      offset.toNat + buf.length ≤ MAXFILESIZE →
      ∃ e d', fileWrite f buf offset d = .error e d' := by
  have hok := h.fileOk hf
  refine ⟨fileGetBlock_full hok hfull hn h0, fun hge hi => ?_, fun buf offset hne hblk hmax => ?_⟩
  · cases hrun : fileBlockWalk f filebno true d with
    | error e d' => exact ⟨e, d', rfl⟩
    | ok r d' =>
      obtain ⟨loc, -, hw⟩ := wp_ok (fileBlockWalk_walked hok hn) hrun
      have hset : indirectOf d' f ≠ 0#32 := hw.walked.2 hge
      have hlt := hw.ok.slot_lt (.indirect f) (indirect_of f) hset
      rw [nblocks_congr hw.touch.nblocks] at hlt
      exact absurd (hfull _ hlt) (hw.fresh (.indirect f) (indirect_of f) hi hset)
  · obtain ⟨n, hlen⟩ := Nat.exists_eq_succ_of_ne_zero (mt List.length_eq_zero_iff.mp hne)
    have hsmall : MAXFILESIZE < 2 ^ 31 := by decide
    have hcount : (BitVec.ofNat 32 buf.length).toNat = n + 1 := by
      rw [toNat_ofNat_lt (by omega), hlen]
    have hstop : (offset + BitVec.ofNat 32 buf.length).toNat = offset.toNat + buf.length := by
      rw [BitVec.toNat_add, hcount]
      omega
    have hlt : offset < offset + BitVec.ofNat 32 buf.length := by
      rw [BitVec.lt_def, hstop]
      omega
    rw [← hblk] at h0
    -- the size is set first, if the file has to grow
    unfold fileWrite
    rw [bind_ok (load_ok _ _ d), hcount]
    split
    · have hsize := h.size_le f hf
      have hslt : ¬ (offset + BitVec.ofNat 32 buf.length).slt (d f.blk f.fSize) = true := by
        rw [slt_iff (by omega) hsize]
        exact Nat.not_lt.mpr (Nat.le_of_lt (by assumption))
      obtain ⟨h₁, ht, hslot⟩ := hok.store_size (offset + BitVec.ofNat 32 buf.length)
      have hfull₁ : Full (putWord d f.blk f.fSize (offset + BitVec.ofNat 32 buf.length)) := by
        intro b hb
        rw [nblocks_congr ht.nblocks] at hb
        refine (ht.bits b (reserved_bitmapBlk hb) fun s hs hz hne => ?_).mpr (hfull b hb)
        exact absurd (hslot s hs ▸ hz) hne
      obtain ⟨e, d', hrun⟩ := fileWriteLoop_full h₁ hfull₁ (n := n) buf hlt (by omega)
        (by rw [hslot _ (fileSlot_of f (by rw [hblk]; exact hn))]; exact h0)
      exact ⟨e, d', (bind_ok (fileSetSize_larger hslt)).trans (bind_error hrun)⟩
    · obtain ⟨e, d', hrun⟩ := fileWriteLoop_full hok hfull (n := n) buf hlt (by omega) h0
      exact ⟨e, d', bind_error hrun⟩

/-! ## §2. A full disk. -/

/-- The small disk cut off after its last block in use. -/
def fullDisk : Disk := putWord smallDisk 1 1 4#32

theorem fullDisk_word {b i : Nat} (h : b ≠ 1 ∨ i ≠ 1) : fullDisk b i = smallDisk b i :=
  putWord_of_ne _ _ h

theorem fullDisk_slot {s : BlockSlot} (hs : s.In smallFiles) : slotVal fullDisk s = slotVal
    smallDisk s := by
  refine slotVal_congr hs (fun a _ _ => fullDisk_word (Or.inr (by omega))) fun h0 => absurd ?_ h0
  have hind := smallDisk_slot (s := .indirect s.file) hs.mem
  rwa [if_neg (by simp)] at hind

theorem fullDisk_type (f : FileP) : fileType fullDisk f = fileType smallDisk f :=
  fullDisk_word (Or.inr (by unfold FileP.fType; omega))

theorem fullDisk_size (f : FileP) : fileSize fullDisk f = fileSize smallDisk f :=
  congrArg BitVec.toNat (fullDisk_word (Or.inr (by unfold FileP.fSize; omega)))

theorem fullDisk_allFiles : allFiles fullDisk = smallFiles := by
  rw [← smallDisk_allFiles]
  apply Set.Subset.antisymm
  · intro f hf
    induction hf with
    | root => exact .root
    | @entry g n k hg hdir hn h0 hk ih =>
      rw [fullDisk_type] at hdir
      rw [fullDisk_slot (fileSlot_in (smallDisk_allFiles ▸ ih) hn)] at h0 ⊢
      exact .entry ih hdir hn h0 hk
  · rw [smallDisk_allFiles]
    intro f hf
    rcases hf with rfl | ⟨k, hk, rfl⟩
    · exact .root
    · exact smallDisk_isFile rfl rfl hk

theorem fullDisk_consistent : Consistent fullDisk := by
  have hinv := smallDisk_inv
  unfold Consistent
  rw [fullDisk_allFiles]
  have hval : ∀ s : BlockSlot, s.In smallFiles → slotVal fullDisk s ≠ 0#32 →
    slotVal fullDisk s = 3#32 := by
    intro s hs h0
    rw [fullDisk_slot hs, smallDisk_slot hs] at h0 ⊢
    by_cases he : s = .direct sRoot 0
    · exact if_pos he
    · exact absurd (if_neg he) h0
  refine ⟨by decide, ?_, ?_, ?_, ?_, ?_, fun b hb => hb.elim, ?_, ?_⟩
  · intro f hf
    rcases hinv.place f hf with hroot | ⟨g, n, k, hg, hdir, hn, h0, hb, hk⟩
    · exact Or.inl hroot
    · refine Or.inr ⟨g, n, k, hg, (fullDisk_type g).trans hdir, hn, ?_, ?_, hk⟩
      · rwa [fullDisk_slot (fileSlot_in hg hn)]
      · rwa [fullDisk_slot (fileSlot_in hg hn)]
  · intro s hs h0
    rw [hval s hs h0]
    decide
  · intro s hs h0
    rw [hval s hs h0]
    unfold Reserved
    decide
  · intro s s' hs hs' h0 he
    rw [fullDisk_slot hs] at h0
    rw [fullDisk_slot hs, fullDisk_slot hs'] at he
    exact hinv.slot_inj s s' hs hs' h0 he
  · intro b hb
    replace hb : b < 4 := hb
    have hin : InSlot smallFiles fullDisk b ↔ InSlot smallFiles smallDisk b := by
      constructor
      · rintro ⟨s, hs, h⟩
        exact ⟨s, hs, by rwa [fullDisk_slot hs] at h⟩
      · rintro ⟨s, hs, h⟩
        exact ⟨s, hs, by rwa [fullDisk_slot hs]⟩
    have hres : Reserved fullDisk b ↔ Reserved smallDisk b := Iff.rfl
    have huse : inUse fullDisk b ↔ inUse smallDisk b :=
      inUse_congr (funext fun i => fullDisk_word (Or.inl (by unfold bitmapBlk; omega)))
    rw [huse, hin, hres]
    exact hinv.used_iff b (Nat.lt_trans hb (by decide))
  · intro f hf
    rw [fullDisk_size]
    exact hinv.size_le f hf
  · intro f hf n hn hle
    rw [fullDisk_slot (fileSlot_in hf hn)]
    unfold fileBlocks at hle
    rw [fullDisk_size] at hle
    exact hinv.tail f hf n hn hle

/-- **No call reports the full disk.**  Asked for block 0 of an empty file,
`file_get_block` stores the error code in the slot and stops; so do `file_block_walk`
at the indirect block and `file_write` of one byte. -/
theorem full_disk_stops : Consistent fullDisk ∧ Full fullDisk ∧ fileA ∈ allFiles fullDisk ∧
    slotVal fullDisk (fileSlot fileA 0) = 0#32 ∧
    (∃ d', fileGetBlock fileA 0#32 fullDisk = .error "bad block number in diskaddr" d' ∧
      slotVal d' (fileSlot fileA 0) = -E_NO_DISK) ∧
    (∃ d', fileBlockWalk fileA 10#32 true fullDisk = .error "bad block number in diskaddr" d') ∧
    (∃ d', fileWrite fileA [1#8] 0#32 fullDisk = .error "bad block number in diskaddr" d' ∧
      slotVal d' (fileSlot fileA 0) = -E_NO_DISK) := by
  refine ⟨fullDisk_consistent, by unfold Full; decide, ?_, by decide, ⟨_, rfl, by decide⟩, ⟨_, rfl⟩,
    ⟨_, rfl, by decide +kernel⟩⟩
  rw [fullDisk_allFiles]
  exact Or.inr ⟨1, by decide, rfl⟩

/-- The small full disk again, from the theorem: the tenth slot of the empty file is in an
indirect block it does not have. -/
theorem full_disk_unreported_small : ∃ e d', fileGetBlock fileA 10#32 fullDisk = .error e d' := by
  refine (@full_disk_unreported fullDisk fileA fullDisk_consistent ?_ (by unfold Full; decide)
    10#32 (by decide) (by decide)).1
  rw [fullDisk_allFiles]
  exact Or.inr ⟨1, by decide, rfl⟩

end Jos
