/-
  Jos.Fs.Names — **THE NAMES IN THE DIRECTORIES** and the operations that make none (`fs/fs.c`).

  Only `file_create` is meant to make a name.  The other operations store into the
  bitmap, into the sizes and slots of the file they work on, and into its blocks;
  none of these is a name, so the directories show what they showed before
  (`SameTree`).  What `file_create` adds is in `Jos.Fs.NewName`.

    • `NamesKept`                        : the words of the names,
    • `fileSetSize_names`, `Touch.names` : truncating, reading and writing keep them,
    • `fileRead_sameTree` and so on      : the calls.
-/
import Jos.Fs.NewEntry

namespace Jos

open Exec

variable {files : Set FileP} {d d' t : Disk} {f g : FileP}

/-! ## §1. The words of names. -/

/-- The first 32 words of a record, its name, are the same. -/
def NamesKept (files : Set FileP) (d t : Disk) : Prop :=
  ∀ y ∈ files, ∀ a < 32, t y.blk (y.idx + a) = d y.blk (y.idx + a)

theorem NamesKept.refl (files : Set FileP) (d : Disk) : NamesKept files d d := fun _ _ _ _ => rfl

theorem NamesKept.trans {u : Disk} (h : NamesKept files d t) (h' : NamesKept files t u) :
    NamesKept files d u := fun y hy a ha => (h' y hy a ha).trans (h y hy a ha)

section
variable (h : FsInv files ∅ d)
include h

/-- A store to the bitmap. -/
theorem FsInv.names_markFree {b : Nat} (hb : b < nblocks d) : NamesKept files d (markFree d b) :=
  fun _ hy _ _ => putWord_of_ne _ _ (Or.inl (h.blk_ne_bitmap hy hb))

section
variable (hf : f ∈ files)
include hf

/-- A store to a field of a record behind its name. -/
theorem FsInv.names_field {c : Nat} (h32 : 32 ≤ c) (h64 : c < 64)
    (u : Disk) (w : Word) : NamesKept files u (putWord u f.blk (f.idx + c) w) := by
  intro y hy a ha
  refine putWord_of_ne _ _ ?_
  by_contra hc
  push Not at hc
  have := (h.words_inj hy hf (show a < 64 by omega) h64 hc.1 hc.2).2
  omega

/-- A store to the slot of a file block. -/
theorem FsInv.names_slot {n : Nat} {loc : Nat × Nat}
    (hw : Walked d f n loc) (u : Disk) (w : Word) : NamesKept files u (putWord u loc.1 loc.2 w) :=
      by
  obtain ⟨rfl, hz⟩ := hw
  unfold fileSlot
  by_cases hlt : n < NDIRECT
  · rw [if_pos hlt]
    have := h.names_field hf (c := 34 + n) (by omega) (by unfold NDIRECT at hlt; omega) u w
    rw [← Nat.add_assoc] at this
    exact this
  · rw [if_neg hlt]
    intro y hy a ha
    exact putWord_of_ne _ _ (Or.inl (h.blk_ne_indirect hy hf (hz (Nat.not_lt.mp hlt))))

/-! ## §2. `file_set_size`. -/

theorem fileFreeBlock_names {filebno : Word} (hn : filebno.toNat < NDIRECT + NINDIRECT) :
    wp (fileFreeBlock f filebno) (fun _ d' => NamesKept files d d') (fun _ _ => False) d := by
  rcases fileBlockWalk_noAlloc h hf hn with ⟨loc, hrun, hw⟩ | ⟨r, hrun, h0⟩
  · refine wp_bind_ok hrun (wp_bind_ok (load_ok _ _ d) ?_)
    rw [hw.load]
    by_cases h0 : slotVal d (fileSlot f filebno.toNat) = 0#32
    · rw [if_neg (by simpa using h0)]
      exact NamesKept.refl files d
    · rw [if_pos h0]
      refine wp_bind_ok (freeBlock_ok h0) (wp_bind_ok (store_ok _ _ _ _) ?_)
      exact (h.names_markFree (h.slot_lt _ (fileSlot_in hf hn) h0)).trans (h.names_slot hf hw _ _)
  · exact wp_bind_ok hrun (NamesKept.refl files d)

theorem fileTruncateBlocks_names (hreg : fileType d f ≠ FTYPE_DIR) (newsize : Word) :
    wp (fileTruncateBlocks f newsize) (fun _ d' => NamesKept files d d') (fun _ _ => False) d := by
  have hold := h.size_le f hf
  refine wp_bind_ok (load_ok _ _ d) ?_
  have holdN : (sizeBlocks (d f.blk f.fSize)).toNat = fileBlocks d f := sizeBlocks_toNat hold
  have hhi : fileBlocks d f ≤ NDIRECT + NINDIRECT := by
    unfold fileBlocks MAXFILESIZE NDIRECT NINDIRECT BLKSIZE at *
    omega
  dsimp only
  rw [holdN]
  -- each pass leaves a consistent disk, and the names
  refine wp_seq (R := fun _ u => FsInv files ∅ u ∧ NamesKept files d u) ?_ ?_
  · refine wp_mono (wp_forUp (I := fun _ u => FsInv files ∅ u ∧ Shrinks files f d u ∧
      NamesKept files d u)
      _ _ d ⟨h, Shrinks.refl files f d, NamesKept.refl files d⟩ ?_) (fun _ _ hu => ⟨hu.1, hu.2.2⟩)
      (fun _ _ hf => hf)
    intro i u hlo hi hu
    obtain ⟨hu, hsh, hk⟩ := hu
    have hto : (BitVec.ofNat 32 i).toNat = i := toNat_ofNat_lt (by omega)
    have hin : (BitVec.ofNat 32 i).toNat < NDIRECT + NINDIRECT := by
      omega
    refine wp_seq
      (wp_mono (wp_and (fileFreeBlock_spec hu hf (by rw [hsh.fileType_eq hf]; exact hreg) hin)
      (fileFreeBlock_names hu hf hin)) (fun _ _ hv => hv) (fun _ _ hv => hv.1)) ?_
    intro _ v hv
    obtain ⟨⟨hv, hsh', -⟩, hk'⟩ := hv
    exact ⟨hv, hsh.trans hsh', hk.trans hk'⟩
  · intro _ u hu
    obtain ⟨hu, hk⟩ := hu
    by_cases hnd : (sizeBlocks newsize).toNat ≤ NDIRECT
    · rw [if_pos hnd]
      refine wp_bind_ok (load_ok _ _ u) ?_
      by_cases h0 : indirectOf u f = 0#32
      · rw [if_neg (by simpa [indirectOf] using h0)]
        exact hk
      · rw [if_pos (by simpa [indirectOf] using h0)]
        refine wp_bind_ok (freeBlock_ok h0) (wp_of_ok (store_ok _ _ _ _) ?_)
        refine hk.trans ((hu.names_markFree (hu.slot_lt (.indirect f) hf h0)).trans ?_)
        exact hu.names_field hf (c := 44) (by decide) (by decide) _ _
    · rw [if_neg hnd]
      exact hk

/-- **`file_set_size`** keeps the names. -/
theorem fileSetSize_names (hreg : fileType d f ≠ FTYPE_DIR) (newsize : Word) :
    wp (fileSetSize f newsize) (fun _ d' => NamesKept files d d') (fun _ _ => False) d := by
  have hsize : ∀ u, NamesKept files u (putWord u f.blk f.fSize newsize) :=
    fun u => h.names_field hf (c := 32) (by decide) (by decide) u newsize
  refine wp_bind_ok (load_ok _ _ d) ?_
  by_cases hlt : newsize.slt (d f.blk f.fSize) = true
  · rw [if_pos hlt]
    refine wp_seq (fileTruncateBlocks_names h hf hreg newsize) fun _ u hk => ?_
    exact wp_bind_ok (store_ok _ _ _ _) (hk.trans (hsize u))
  · rw [if_neg hlt]
    exact wp_bind_ok (store_ok _ _ _ _) (hsize d)

end

end

/-! ## §3. `file_write` and `file_read`. -/

/-- **What an access to a regular file touches is no name.** -/
theorem Touch.names (ht : Touch f d d') (h : Consistent d) (h' : FsInv (allFiles d) ∅ d')
    (hf : f ∈ allFiles d) (hreg : fileType d f ≠ FTYPE_DIR)
    (hother : ∀ s : BlockSlot, s.In (allFiles d) → s.file ≠ f → slotVal d' s = slotVal d s) :
    NamesKept (allFiles d) d d' := by
  intro y hy a ha
  refine ht.words _ _ ?_ (h.fileOk hy).home ?_
  · rintro ⟨hblk, hlo, hhi⟩
    unfold FileP.fSize at hlo
    unfold FileP.fIndirect at hhi
    obtain ⟨c, hc⟩ : ∃ c, y.idx + a = f.idx + c := ⟨y.idx + a - f.idx, by omega⟩
    have := (h.words_inj hy hf (show a < 64 by omega) (show c < 64 by omega) hblk hc).2
    omega
  · -- the block of the record is a directory's, before and after
    intro s hs hne he
    have hin : s.In (allFiles d) := BlockSlot.Of.mono hf hs
    have hsf : s.file = f := by
      cases s with
      | direct g i => exact hs.1
      | indirect g => exact hs
      | entry g j => exact hs.1
    rcases h.blk_cases hy with rfl | ⟨-, g, n, k, hg, hdir, hn, h0, hb, -⟩
    · exact h'.slot_free s hin hne (by rw [he]; exact reserved_one)
    · have hgf : (fileSlot g n).file ≠ f := by
        rw [fileSlot_file]
        intro hc
        exact hreg (hc ▸ hdir)
      have hsame := hother _ (fileSlot_in hg hn) hgf
      have hval : slotVal d' s = slotVal d' (fileSlot g n) := by
        apply BitVec.eq_of_toNat_eq
        rw [hsame, ← hb]
        exact he
      have hss := h'.slot_inj s _ hin (fileSlot_in hg hn) hne hval
      rw [← hss, hsf] at hgf
      exact hgf rfl

/-- The reading loop changes nothing if the blocks are there. -/
theorem fileReadLoop_there (h : FsInv files ∅ d) (hf : f ∈ files) {stop : Word}
    (hstop : stop.toNat ≤ fileSize d f)
    (hfull : ∀ n < fileBlocks d f, slotVal d (fileSlot f n) ≠ 0#32) (n : Nat) :
    ∀ (pos : Word) (buf : List Byte),
      wp (fileReadLoop f stop n pos buf) (fun _ d' => d' = d) (fun _ _ => True) d := by
  induction n with
  | zero => exact fun _ _ => rfl
  | succ n ih =>
    intro pos buf
    unfold fileReadLoop
    by_cases hlt : pos < stop
    · rw [if_pos hlt]
      obtain ⟨-, hblk⟩ := block_in_file h hf hstop hlt
      have hmax := h.block_lt hf hblk
      have h0 := hfull _ hblk
      refine wp_bind_ok (fileGetBlock_there hmax h0 (h.slot_lt _ (fileSlot_in hf hmax) h0)
        fun hge => h.indirect_lt hf hge h0) ?_
      generalize chunk stop pos = c
      obtain ⟨xs, hxs⟩ := diskBytes_ok c.toNat
        (blkAddr (slotVal d (fileSlot f (pos.sdiv 4096#32).toNat)).toNat pos) d
      exact wp_bind_ok hxs (ih _ _)
    · rw [if_neg hlt]
      rfl

/-- **`file_read` of a directory** changes nothing. -/
theorem fileRead_there (h : FsInv files ∅ d) (hf : f ∈ files)
    (hfull : ∀ n < fileBlocks d f, slotVal d (fileSlot f n) ≠ 0#32) {offset : Word}
    (hoff : offset.toNat < 2 ^ 31) (count : Word) :
    wp (fileRead f count offset) (fun _ d' => d' = d) (fun _ _ => True) d := by
  refine wp_bind_ok (load_ok _ _ d) ?_
  by_cases hsle : (d f.blk f.fSize).sle offset
  · rw [if_pos hsle]
    rfl
  · rw [if_neg hsle]
    refine wp_seq (fileReadLoop_there h hf (read_stop count (h.size_le f hf) hoff hsle) hfull _ _
      _) ?_
    rintro ⟨o, buf⟩ u rfl
    cases o with
    | none => rfl
    | some r => rfl

/-! ## §4. What the directories show. -/

variable {x y : FileP}

theorem cstr_congr (n : Nat) : ∀ a, (∀ k < n, byteAt t (a + k) = byteAt d (a + k)) →
    cstr t a n = cstr d a n := by
  induction n with
  | zero => exact fun _ _ => rfl
  | succ n ih =>
    intro a h
    have h0 := h 0 (Nat.succ_pos n)
    rw [Nat.add_zero] at h0
    have hrest := ih (a + 1) fun k hk => by
      have := h (k + 1) (by omega)
      rwa [show a + (k + 1) = a + 1 + k by omega] at this
    unfold cstr
    rw [h0, hrest]

/-- A name is in the first 32 words of its record. -/
theorem nameOf_congr (hx : x.idx ≤ 960) (h : ∀ a < 32, t x.blk (x.idx + a) = d x.blk (x.idx + a)) :
    nameOf t x = nameOf d x := by
  refine cstr_congr MAXNAMELEN x.fName fun k hk => Fmt.byteAt_congr ?_
  have hword : (x.fName + k) % BLKSIZE / 4 = x.idx + k / 4 := by
    unfold FileP.fName BLKSIZE
    unfold MAXNAMELEN at hk
    omega
  rw [fName_in_block hx hk, hword]
  exact h (k / 4) (by unfold MAXNAMELEN at hk; omega)

theorem nameOf_nil (h : byteAt d x.fName = 0#8) : nameOf d x = [] := by
  exact if_pos h

/-- A string with its terminating NUL. -/
theorem cstr_holds (xs : List Byte) : ∀ (a n : Nat), xs.length < n → 0#8 ∉ xs →
    Fmt.Holds d a (xs ++ [0#8]) → cstr d a n = xs := by
  induction xs with
  | nil =>
    intro a n hn _ h
    obtain ⟨n, rfl⟩ : ∃ m, n = m + 1 := ⟨n - 1, by omega⟩
    have h0 := h 0 (by simp)
    exact if_pos h0
  | cons x xs ih =>
    intro a n hn hx h
    obtain ⟨n, rfl⟩ : ∃ m, n = m + 1 := ⟨n - 1, by omega⟩
    have h0 : byteAt d a = x := h 0 (by simp)
    have hx0 : x ≠ 0#8 := fun he => hx (by simp [he])
    unfold cstr
    rw [h0, if_neg hx0, ih (a + 1) n (by simpa using hn) (fun hm => hx (by simp [hm]))]
    intro k hk
    have := h (k + 1) (by simpa using hk)
    rwa [show a + (k + 1) = a + 1 + k by omega] at this

theorem entriesOf_subset (h : DirOk d) (hg : g ∈ allFiles d) (hdir : fileType d g = FTYPE_DIR)
    (hy : y ∈ entriesOf d g) : y ∈ allFiles d := by
  obtain ⟨n, hn, hin⟩ := hy
  exact recordsOf_subset hg hdir (h.inv.block_lt hg hn) (h.full g hg hdir n hn) hin

/-- A directory with the same size and slots has the same entries. -/
theorem entriesOf_congr (hsize : fileSize t g = fileSize d g)
    (hslot : ∀ n < fileBlocks d g, slotVal t (fileSlot g n) = slotVal d (fileSlot g n)) :
    entriesOf t g = entriesOf d g := by
  have hblk : fileBlocks t g = fileBlocks d g := by
    unfold fileBlocks
    rw [hsize]
  ext y
  constructor
  · rintro ⟨n, hn, hy⟩
    rw [hblk] at hn
    rw [hslot n hn] at hy
    exact ⟨n, hn, hy⟩
  · rintro ⟨n, hn, hy⟩
    rw [← hslot n hn] at hy
    exact ⟨n, by rw [hblk]; exact hn, hy⟩

/-- The directories show the same. -/
structure SameTree (d t : Disk) : Prop where
  files : allFiles t = allFiles d
  type : ∀ g ∈ allFiles d, fileType t g = fileType d g
  entries : ∀ g ∈ allFiles d, fileType d g = FTYPE_DIR → entriesOf t g = entriesOf d g
  names : NamesKept (allFiles d) d t

theorem SameTree.refl (d : Disk) : SameTree d d :=
  ⟨rfl, fun _ _ => rfl, fun _ _ _ => rfl, NamesKept.refl _ d⟩

theorem SameTree.nameOf_eq (hs : SameTree d t) (h : Consistent d) (hy : y ∈ allFiles d) :
    nameOf t y = nameOf d y := nameOf_congr (record_idx h hy) (hs.names y hy)

/-- An operation on a regular file. -/
theorem SameTree.of_resized (h : DirOk d) (hf : f ∈ allFiles d) (hreg : fileType d f ≠ FTYPE_DIR)
    (hinv : FsInv (allFiles d) ∅ t) (hr : Resized (allFiles d) f d t)
    (hk : NamesKept (allFiles d) d t) : DirOk t ∧ SameTree d t := by
  obtain ⟨hok, -, hall⟩ := h.of_resized hf hreg hinv hr
  refine ⟨hok, hall, hr.type, fun g hg hdir => ?_, hk⟩
  have hgf : g ≠ f := fun he => hreg (he ▸ hdir)
  refine entriesOf_congr (hr.size g hg hgf) fun n hn => ?_
  exact hr.other _ (fileSlot_in hg (h.inv.block_lt hg hn)) (by rw [fileSlot_file]; exact hgf)

theorem fileSetSize_sameTree (h : DirOk d) (hf : f ∈ allFiles d) (hreg : fileType d f ≠ FTYPE_DIR)
    {newsize : Word} (hnew : newsize.toNat ≤ MAXFILESIZE) :
    wp (fileSetSize f newsize) (fun _ t => DirOk t ∧ SameTree d t) (fun _ _ => True) d := by
  refine wp_mono (wp_and (fileSetSize_spec h.inv hf hreg hnew)
    (fileSetSize_names h.inv hf hreg newsize))
    ?_ (fun _ _ _ => trivial)
  intro _ t ht
  obtain ⟨⟨hinv, hr, -⟩, hk⟩ := ht
  exact SameTree.of_resized h hf hreg hinv hr hk

theorem fileWrite_sameTree (h : DirOk d) (hf : f ∈ allFiles d) (hreg : fileType d f ≠ FTYPE_DIR)
    {buf : List Byte} {offset : Word} (hmax : offset.toNat + buf.length ≤ MAXFILESIZE) :
    wp (fileWrite f buf offset) (fun _ t => DirOk t ∧ SameTree d t) (fun _ _ => True) d := by
  have hsum : offset.toNat + buf.length < 2 ^ 31 := Nat.lt_of_le_of_lt hmax (by decide)
  refine wp_mono (wp_and (fileWrite_spec h.inv hf hreg hmax)
    (fileWrite_wrote (h.inv.fileOk hf) hsum))
    ?_ (fun _ _ _ => trivial)
  intro _ t ht
  obtain ⟨⟨hinv, hr⟩, _, _, -, hw, -⟩ := ht
  exact SameTree.of_resized h hf hreg hinv hr (hw.touch.names h.inv hinv hf hreg hr.other)

theorem fileRead_sameTree (h : DirOk d) (hf : f ∈ allFiles d) {offset : Word}
    (hoff : offset.toNat < 2 ^ 31) (count : Word) :
    wp (fileRead f count offset) (fun _ t => DirOk t ∧ SameTree d t) (fun _ _ => True) d := by
  by_cases hreg : fileType d f = FTYPE_DIR
  · refine wp_mono (fileRead_there h.inv hf (h.full f hf hreg) hoff count) ?_ (fun _ _ _ => trivial)
    intro _ t ht
    rw [ht]
    exact ⟨h, SameTree.refl d⟩
  · refine wp_mono (wp_and (fileRead_spec h.inv hf hoff)
      (fileRead_read (h.inv.fileOk hf) (h.inv.size_le f hf) hoff count)) ?_ (fun _ _ _ => trivial)
    intro _ t ht
    obtain ⟨⟨hinv, hgr⟩, -, hw, -⟩ := ht
    exact SameTree.of_resized h hf hreg hinv (Resized.of_grows hgr)
      (hw.touch.names h.inv hinv hf hreg hgr.other)

end Jos
