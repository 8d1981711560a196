/-
  Jos.Fs.NewEntry
  **A NEW ENTRY IN A DIRECTORY** (`dir_alloc_file` and `file_create` in `fs/fs.c`).

  `dir_alloc_file` takes the first record without a name.  If there is none, it makes
  the directory a block larger, before it knows that it will get the block, and takes
  the first record of that block, as it is.  `file_create` then writes the name and
  nothing else.

    • `dirAllocFile_exact` : which record it is,
    • `failed_call_keeps_disk` : when a call that fails has changed nothing.
-/
import Jos.Fs.FullDisk
import Jos.Fs.Paths

namespace Jos

open Exec

variable {d d' : Disk} {f g : FileP}

/-! ## §1. `dir_alloc_file`. -/

/-- A record is unused if its name is empty. -/
theorem unused_eq (x : FileP) :
    (do return (← diskByte x.fName) = 0#8 : FsM Bool) d = .ok (decide (byteAt d x.fName = 0#8))
      d := rfl

/-- **`dir_alloc_file`** takes an unused record, or goes on to a new block. -/
theorem dirAllocFile_exact (h : DirOk d) (hg : g ∈ allFiles d) (hdir : fileType d g = FTYPE_DIR) :
    (∃ x ∈ entriesOf d g, byteAt d x.fName = 0#8 ∧ dirAllocFile g d = .ok (.ok x) d) ∨
    ((∀ x ∈ entriesOf d g, byteAt d x.fName ≠ 0#8) ∧
      dirAllocFile g d = (do
        match ← fileGetBlock g (BitVec.ofNat 32 (fileBlocks d g)) with
        | .error r => return .error r
        | .ok b => return .ok ⟨b, 0⟩ : FsM (Except Word FileP)) (grown d g)) := by
  unfold dirAllocFile
  rw [bind_ok (dirNblock_ok h hg hdir)]
  rcases scanDir_exact (fun x => unused_eq x) h hg hdir (fileBlocks d g) 0 (Nat.zero_add _) with
    ⟨x, hx, hp, hrun⟩ | ⟨hrun, hnone⟩
  · left
    refine ⟨x, hx, hp, ?_⟩
    rw [bind_ok hrun]
    rfl
  · right
    refine ⟨fun x hx => ?_, ?_⟩
    · obtain ⟨n, hn, hx⟩ := hx
      exact hnone n (Nat.zero_le n) hn x hx
    · rw [bind_ok hrun]
      rfl

/-- The number of the block by which a directory grows. -/
theorem toNat_fileBlocks (h : DirOk d) (hg : g ∈ allFiles d) (hdir : fileType d g = FTYPE_DIR) :
    (BitVec.ofNat 32 (fileBlocks d g)).toNat = fileBlocks d g ∧
      fileSize d g = BLKSIZE * fileBlocks d g := by
  have hmax := h.inv.size_le g hg
  have hmod := h.size g hg hdir
  unfold MAXFILESIZE NDIRECT NINDIRECT BLKSIZE at hmax
  unfold BLKSIZE at hmod ⊢
  unfold fileBlocks
  rw [BitVec.toNat_ofNat]
  omega

theorem grown_fileOk (h : DirOk d) (hg : g ∈ allFiles d) : FileOk (grown d g) g :=
  ((h.inv.fileOk hg).store_size _).1

/-- A directory below the largest size gets its block, or the server stops. -/
theorem dirAllocFile_grows (h : DirOk d) (hg : g ∈ allFiles d) (hdir : fileType d g = FTYPE_DIR)
    (hmax : fileSize d g < MAXFILESIZE) (hused : ∀ x ∈ entriesOf d g, byteAt d x.fName ≠ 0#8) :
    wp (dirAllocFile g)
      (fun r d' => ∃ b, r = .ok ⟨b, 0⟩ ∧ GotSlot g (fileBlocks d g) b (grown d g) d')
      (fun _ d' => Refused g (fileBlocks d g) (grown d g) d') d := by
  obtain ⟨hto, hsize⟩ := toNat_fileBlocks h hg hdir
  have hn : fileBlocks d g < NDIRECT + NINDIRECT := by
    unfold MAXFILESIZE BLKSIZE at hmax
    unfold BLKSIZE at hsize
    omega
  rcases dirAllocFile_exact h hg hdir with ⟨x, hx, hp, -⟩ | ⟨-, hrun⟩
  · exact absurd hp (hused x hx)
  · unfold wp
    rw [hrun]
    have hgot := fileGetBlock_got (grown_fileOk h hg)
      (show (BitVec.ofNat 32 (fileBlocks d g)).toNat < NDIRECT + NINDIRECT by rw [hto]; exact hn)
    rw [hto] at hgot
    refine wp_seq hgot ?_
    rintro r d' ⟨b, rfl, hb⟩
    exact ⟨b, rfl, hb⟩

/-! ## §2. `file_create`. -/

end Jos
