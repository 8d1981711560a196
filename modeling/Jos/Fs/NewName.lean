/-
  Jos.Fs.NewName — **ONE NAME MORE**: `file_create` and whole runs of file operations (`fs/fs.c`).

  `file_create` gives a name to the record `dir_alloc_file` has found, and it clears
  nothing.  What else was in the record stays there, and where the directory has grown
  by a block, so do the names the block held.  So one empty file is added if free
  blocks and records without a name hold zeros; after a block has been used and freed
  they do not.

    • `dirAllocFile_took` : the record and what has changed until then,
    • `fileCreate_made`   : one name more,
    • `exec_names`, `run_names` : calls and runs.
-/
import Jos.Fs.Names

namespace Jos

open Exec

variable {files : Set FileP} {d t : Disk} {f g x y : FileP}

variable {op : FsCall} {path : List Byte} {b i : Nat}

/-! ## §1. `file_create`. -/

/-- Records without a name are blank: size, type and slots are zero. -/
def Blank (d : Disk) : Prop :=
  ∀ g ∈ allFiles d, fileType d g = FTYPE_DIR → ∀ y ∈ entriesOf d g, byteAt d y.fName = 0#8 →
    ∀ a, 32 ≤ a → a < 64 → d y.blk (y.idx + a) = 0#32

/-- `dir_alloc_file` has taken the record `x` for the directory `g`; the directory may
have grown by a block of zeros. -/
structure TookEntry (d u : Disk) (g x : FileP) : Prop where
  ok : DirOk u
  free : FreeZero u
  files : allFiles d ⊆ allFiles u
  type : ∀ h ∈ allFiles d, fileType u h = fileType d h
  dirs : ∀ h ∈ allFiles u, fileType u h = FTYPE_DIR → h ∈ allFiles d
  old : ∀ h ∈ allFiles d, fileType d h = FTYPE_DIR → entriesOf d h ⊆ entriesOf u h
  new : ∀ h ∈ allFiles d, fileType d h = FTYPE_DIR → ∀ y ∈ entriesOf u h,
    y ∈ entriesOf d h ∨ ∀ i, u y.blk i = 0#32
  mem : x ∈ entriesOf u g
  words : ∀ y ∈ allFiles d, y ≠ g → ∀ a < 64, u y.blk (y.idx + a) = d y.blk (y.idx + a)
  names : NamesKept (allFiles d) d u
  slots : ∀ s : BlockSlot, s.In (allFiles d) → s.file ≠ g → slotVal u s = slotVal d s
  data : ∀ y ∈ allFiles d, fileType d y ≠ FTYPE_DIR → ∀ n < NDIRECT + NINDIRECT,
    slotVal d (fileSlot y n) ≠ 0#32 →
      u (slotVal d (fileSlot y n)).toNat = d (slotVal d (fileSlot y n)).toNat
  nameless : byteAt u x.fName = 0#8
  blank : ∀ a, 32 ≤ a → a < 64 → u x.blk (x.idx + a) = 0#32

/-- A record in a block of zeros has no name. -/
theorem byteAt_fName_zero (hx : x.idx ≤ 960) (hz : ∀ i, d x.blk i = 0#32) : byteAt d x.fName =
    0#8 := by
  have hblk := fName_in_block hx (show 0 < MAXNAMELEN by decide)
  rw [Nat.add_zero] at hblk
  unfold byteAt
  rw [hblk, hz]
  unfold getByte
  simp

/-- No record is in the data of a regular file. -/
theorem FsInv.blk_ne_data {spare : Set Nat} (h : FsInv files spare d) (hf : f ∈ files)
    (hy : y ∈ files)
    (hreg : fileType d y ≠ FTYPE_DIR) {n : Nat} (hn : n < NDIRECT + NINDIRECT)
    (h0 : slotVal d (fileSlot y n) ≠ 0#32) : f.blk ≠ (slotVal d (fileSlot y n)).toNat := by
  intro he
  rcases h.blk_cases hf with rfl | ⟨-, k, m, -, hk, hdir, hm, -, hb, -⟩
  · refine h.slot_free _ (fileSlot_in hy hn) h0 ?_
    rw [← he]
    exact reserved_one
  · have hs := h.slot_inj _ (fileSlot k m) (fileSlot_in hy hn) (fileSlot_in hk hm) h0
      (BitVec.eq_of_toNat_eq (he.symm.trans hb))
    obtain ⟨rfl, -⟩ := fileSlot_inj hs
    exact hreg hdir

/-- A directory that grows by a block. -/
theorem TookEntry.of_grown {u : Disk} (h : DirOk d) (hz : FreeZero d) (hg : g ∈ allFiles d)
    (hdir : fileType d g = FTYPE_DIR) (hroom : fileSize d g + BLKSIZE ≤ MAXFILESIZE)
    (hu : DirOk u) (huz : FreeZero u)
    (hgot : GotBlock (allFiles (grown d g)) g (fileBlocks d g) b (grown d g) u)
    (hslot : GotSlot g (fileBlocks d g) b (grown d g) u) : TookEntry d u g ⟨b, 0⟩ := by
  obtain ⟨hv, hall, hvslot, hvtype, hnew, hsize⟩ := grown_spec h hz hg hroom
  have hblk : fileBlocks (grown d g) g = fileBlocks d g + 1 := by
    unfold fileBlocks
    omega
  have hgv : g ∈ allFiles (grown d g) := by
    rw [hall]
    exact hg
  have hn : fileBlocks d g < NDIRECT + NINDIRECT := hv.inv.block_lt hgv (by omega)
  have hft := hgot.fetched hv hgv hn
  have hon := hft.onward
  -- the block was free, so it is zero
  have h0 : slotVal (grown d g) (fileSlot g (fileBlocks d g)) = 0#32 := by
    rw [hvslot _ (fileSlot_in hg hn)]
    exact h.inv.tail g hg _ hn le_rfl
  obtain ⟨hb, hfree⟩ := hgot.was_free hv.inv hgv hn h0
  have hzero : ∀ i, u b i = 0#32 := by
    intro i
    rw [hgot.new_eq hv.inv hgv hn h0]
    exact hv.free b hb hfree i
  have hsub : ∀ y, y ∈ allFiles d → y ∈ allFiles (grown d g) := by
    intro y hy
    rw [hall]
    exact hy
  -- words of records there were
  have hword : ∀ y ∈ allFiles d, ∀ a < 64, ¬ InRecord g y.blk (y.idx + a) →
      u y.blk (y.idx + a) = d y.blk (y.idx + a) := by
    intro y hy a ha hrec
    rw [hslot.words _ _ hrec (Consistent.fileOk hv.inv (hsub y hy)).home ?_]
    · refine putWord_of_ne _ _ ?_
      by_contra hc
      push Not at hc
      refine hrec ⟨hc.1, ?_, ?_⟩
      · exact hc.2.ge
      · rw [hc.2]
        unfold FileP.fSize FileP.fIndirect
        omega
    · intro hne
      exact (hgot.inv.blk_ne_indirect (hsub y hy) hgv hne).symm
  have hrecord : ∀ y ∈ allFiles d, ∀ a < 64, InRecord g y.blk (y.idx + a) → y = g ∧ 32 ≤ a := by
    intro y hy a ha hin
    obtain ⟨hyb, hlo, hhi⟩ := hin
    unfold FileP.fSize at hlo
    unfold FileP.fIndirect at hhi
    obtain ⟨c, hc⟩ : ∃ c, y.idx + a = g.idx + c := ⟨y.idx + a - g.idx, by omega⟩
    obtain ⟨hyg, hac⟩ := h.inv.words_inj hy hg ha (show c < 64 by omega) hyb hc
    exact ⟨hyg, by omega⟩
  -- a directory keeps its blocks
  have hkeep : ∀ k ∈ allFiles d, fileType d k = FTYPE_DIR → ∀ n < fileBlocks d k,
      slotVal u (fileSlot k n) = slotVal d (fileSlot k n) := by
    intro k hk hkd n hnk
    have hin := fileSlot_in hk (h.inv.block_lt hk hnk)
    have hsv := hvslot _ hin
    rw [hgot.grows.kept _ (by rw [hall]; exact hin) (by rw [hsv]; exact h.full k hk hkd n hnk), hsv]
  have hfb : ∀ k ∈ allFiles d, fileBlocks u k = fileBlocks (grown d g) k := fun k hk =>
    hgot.grows.fileBlocks_eq (hsub k hk)
  have hfbo : ∀ k ∈ allFiles d, k ≠ g → fileBlocks (grown d g) k = fileBlocks d k := by
    intro k hk hne
    unfold fileBlocks
    rw [hsize k hk hne]
  have hslots : ∀ s : BlockSlot, s.In (allFiles d) → s.file ≠ g → slotVal u s = slotVal d s := by
    intro s hs hne
    rw [hgot.grows.other s (by rw [hall]; exact hs) hne, hvslot s hs]
  refine ⟨hu, huz, fun y hy => hft.files (hsub y hy), ?_, ?_, ?_, ?_, ?_, ?_, ?_, hslots, ?_, ?_,
    fun a _ _ => hzero _⟩
  · intro k hk
    rw [hon.type k (hsub k hk), hvtype k hk]
  · intro k hk hkd
    have := hon.dirs k hk hkd
    rwa [hall] at this
  · rintro k hk hkd y ⟨n, hnk, hy⟩
    refine ⟨n, ?_, by rw [hkeep k hk hkd n hnk]; exact hy⟩
    rw [hfb k hk]
    by_cases hkg : k = g
    · rw [hkg, hblk]
      rw [hkg] at hnk
      omega
    · rw [hfbo k hk hkg]
      exact hnk
  · rintro k hk hkd y ⟨n, hnk, hy⟩
    rw [hfb k hk] at hnk
    by_cases hold : n < fileBlocks d k
    · rw [hkeep k hk hkd n hold] at hy
      exact Or.inl ⟨n, hold, hy⟩
    · -- the block behind the last one
      have hkg : k = g := by
        by_contra hne
        rw [hfbo k hk hne] at hnk
        exact hold hnk
      subst hkg
      have hnn : n = fileBlocks d k := by omega
      rw [hnn, hgot.block] at hy
      obtain ⟨j, -, rfl⟩ := hy
      exact Or.inr hzero
  · refine ⟨fileBlocks d g, ?_, ?_⟩
    · rw [hfb g hg, hblk]
      omega
    · rw [hgot.block]
      exact ⟨0, by omega, rfl⟩
  · intro y hy hne a ha
    exact hword y hy a ha fun hin => hne (hrecord y hy a ha hin).1
  · intro y hy a ha
    refine hword y hy a (by omega) fun hin => ?_
    have := (hrecord y hy a (by omega) hin).2
    omega
  · intro y hy hreg n hn' h0
    have hin := fileSlot_in hy hn'
    have hyg : y ≠ g := fun he => hreg (he ▸ hdir)
    have hgb := h.inv.blk_ne_data hg hy hreg hn' h0
    have hv0 : slotVal (grown d g) (fileSlot y n) ≠ 0#32 := by
      rw [hvslot _ hin]
      exact h0
    have hu0 := hslots _ hin (by rw [fileSlot_file]; exact hyg)
    funext i
    rw [hslot.words _ _ (fun hrec => hgb hrec.1.symm) ?_ ?_]
    · exact putWord_of_ne _ _ (Or.inl hgb.symm)
    · intro hbm
      have := hv.inv.slot_free (fileSlot y n) (by rw [hall]; exact hin) hv0
      rw [hvslot _ hin] at this
      exact this hbm.2
    · intro hne he
      have hs := hgot.inv.slot_inj (.indirect g) (fileSlot y n) hgv (by rw [hall]; exact hin) hne
        (BitVec.eq_of_toNat_eq (by rw [hu0]; exact he))
      exact fileSlot_ne_indirect y g n hs.symm
  · exact byteAt_fName_zero (Nat.zero_le _) hzero

/-- **`dir_alloc_file`** takes a blank record. -/
theorem dirAllocFile_took (h : DirOk d) (hz : FreeZero d) (hblank : Blank d) (hg : g ∈ allFiles d)
    (hdir : fileType d g = FTYPE_DIR) (hroom : fileSize d g + BLKSIZE ≤ MAXFILESIZE) :
    wp (dirAllocFile g) (fun r u => ∃ x, r = .ok x ∧ TookEntry d u g x) (fun _ _ => True) d := by
  rcases dirAllocFile_exact h hg hdir with ⟨x, hx, hp, hrun⟩ | ⟨hused, hrun⟩
  · refine wp_of_ok hrun ⟨x, rfl, h, hz, Set.Subset.refl _, fun _ _ => rfl, fun _ hk _ => hk,
      fun _ _ _ => Set.Subset.refl _, fun _ _ _ y hy => Or.inl hy, hx, fun _ _ _ _ _ => rfl,
      NamesKept.refl _ d, fun _ _ _ => rfl, fun _ _ _ _ _ _ => rfl, hp, hblank g hg hdir x hx hp⟩
  · have hlt : fileSize d g < MAXFILESIZE := by
      unfold BLKSIZE at hroom
      omega
    obtain ⟨hv, hall, -, -, hnew, -⟩ := grown_spec h hz hg hroom
    have hto := (toNat_fileBlocks h hg hdir).1
    have hget := fileGetBlock_spec hv.inv (show g ∈ allFiles (grown d g) by rw [hall]; exact hg)
      (show (BitVec.ofNat 32 (fileBlocks d g)).toNat < fileBlocks (grown d g) g by
        rw [hto]; unfold fileBlocks; omega)
    rw [hto] at hget
    have hgot : wp (dirAllocFile g) (fun r u => ∃ b, r = .ok ⟨b, 0⟩ ∧
        GotBlock (allFiles (grown d g)) g (fileBlocks d g) b (grown d g) u) (fun _ _ => True) d :=
          by
      unfold wp
      rw [hrun]
      refine wp_seq (wp_mono hget (fun _ _ hw => hw) fun _ _ _ => trivial) ?_
      rintro r u ⟨b, rfl, hb⟩
      exact ⟨b, rfl, hb⟩
    refine wp_mono (wp_and (wp_and (dirAllocFile_spec h hz hg hdir hroom)
      (dirAllocFile_grows h hg hdir hlt hused)) hgot) ?_ (fun _ _ _ => trivial)
    rintro r u ⟨⟨⟨hu, huz, -, -⟩, b, rfl, hslot⟩, b', hb', hblock⟩
    obtain rfl : b = b' := by simpa using hb'
    exact ⟨_, rfl, .of_grown h hz hg hdir hroom hu huz hblock hslot⟩

/-! ## §2. One new name. -/

/-- `y` is called `c` in the directory `g`. -/
def Lists (d : Disk) (g : FileP) (c : List Byte) (y : FileP) : Prop :=
  y ∈ entriesOf d g ∧ nameOf d y = c

/-- **One empty file more**: `x` is called `name` in `dir`, and nothing else has changed
in what the directories show. -/
structure Made (d t : Disk) (dir x : FileP) (name : List Byte) : Prop where
  mem : dir ∈ allFiles d
  type : fileType d dir = FTYPE_DIR
  ne_nil : name ≠ []
  len : name.length < MAXNAMELEN
  fresh : ∀ y, ¬ Lists d dir name y
  unused : ∀ c, c ≠ [] → ¬ Lists d dir c x
  dirs : ∀ g, (g ∈ allFiles t ∧ fileType t g = FTYPE_DIR) ↔
    (g ∈ allFiles d ∧ fileType d g = FTYPE_DIR)
  /-- The old names and the new one. -/
  shown : ∀ g ∈ allFiles d, fileType d g = FTYPE_DIR → ∀ c, c ≠ [] → ∀ y,
    Lists t g c y ↔ Lists d g c y ∨ (g = dir ∧ c = name ∧ y = x)
  /-- The records of the old entries. -/
  old : ∀ c, c ≠ [] → ∀ y, Lists d dir c y → ∀ a < 64, t y.blk (y.idx + a) = d y.blk (y.idx + a)
  /-- The contents of the regular files. -/
  slots : ∀ y ∈ allFiles d, fileType d y ≠ FTYPE_DIR → ∀ n < NDIRECT + NINDIRECT,
    slotVal t (fileSlot y n) = slotVal d (fileSlot y n)
  data : ∀ y ∈ allFiles d, fileType d y ≠ FTYPE_DIR → ∀ n < NDIRECT + NINDIRECT,
    slotVal d (fileSlot y n) ≠ 0#32 →
      t (slotVal d (fileSlot y n)).toNat = d (slotVal d (fileSlot y n)).toNat
  /-- The new file is empty. -/
  size : fileSize t x = 0
  regular : fileType t x = Fmt.FTYPE_REG
  indirect : indirectOf t x = 0#32
  empty : ∀ n < NDIRECT + NINDIRECT, slotVal t (fileSlot x n) = 0#32

/-- A record is in one directory only. -/
theorem entriesOf_unique {k : FileP} (h : DirOk d) (hg : g ∈ allFiles d) (hk : k ∈ allFiles d)
    (hdir : fileType d g = FTYPE_DIR) (hyg : y ∈ entriesOf d g) (hyk : y ∈ entriesOf d k) : k =
      g := by
  obtain ⟨n, hn, a, -, rfl⟩ := hyg
  obtain ⟨m, hm, b, -, hb⟩ := hyk
  have hs := h.inv.slot_inj _ (fileSlot k m) (fileSlot_in hg (h.inv.block_lt hg hn))
    (fileSlot_in hk (h.inv.block_lt hk hm)) (h.full g hg hdir n hn)
    (BitVec.eq_of_toNat_eq (congrArg FileP.blk hb))
  exact (fileSlot_inj hs).1.symm

/-- No directory is an entry of itself. -/
theorem entriesOf_irrefl (h : DirOk d) (hg : g ∈ allFiles d) (hdir : fileType d g = FTYPE_DIR) :
    g ∉ entriesOf d g := by
  have hmem := hg
  induction hg with
  | root =>
    rintro ⟨n, hn, k, -, hk⟩
    refine h.inv.slot_free _ (fileSlot_in hmem (h.inv.block_lt hmem hn)) (h.full _ hmem hdir n hn)
      ?_
    have hblk : (slotVal d (fileSlot sRoot n)).toNat = 1 := (congrArg FileP.blk hk).symm
    rw [hblk]
    exact reserved_one
  | entry hf hfd hn h0 hk ih =>
    -- its block belongs to the directory it was found in
    rename_i k n j
    intro hin
    have hlt : n < fileBlocks d k := by
      by_contra hge
      exact h0 (h.inv.tail k hf n hn (Nat.le_of_not_lt hge))
    have hkin : ⟨(slotVal d (fileSlot k n)).toNat, 64 * j⟩ ∈ entriesOf d k := ⟨n, hlt, j, hk, rfl⟩
    have heq := entriesOf_unique h hf hmem hfd hkin hin
    rw [heq] at hkin
    exact ih hfd hf hkin

variable {u : Disk} {c : List Byte}

/-- The name is stored in the first 32 words of its record. -/
theorem putName_words (hx : x.idx ≤ 960) (hlen : c.length < MAXNAMELEN)
    (hout : ∀ b i, (∀ k < (c ++ [0#8]).length, ¬ Fmt.InWord b i (x.fName + k)) → t b i = u b i)
      (hne : ∀ a < 32, b = x.blk → i ≠ x.idx + a) : t b i = u b i := by
  refine hout b i fun k hk hin => ?_
  have hk' : k < MAXNAMELEN := by
    rw [List.length_append, List.length_singleton] at hk
    omega
  obtain ⟨hblk, hidx⟩ := hin
  rw [fName_in_block hx hk'] at hblk
  refine hne (k / 4) (by unfold MAXNAMELEN at hk'; omega) hblk.symm ?_
  unfold FileP.fName BLKSIZE at hidx
  unfold MAXNAMELEN at hk'
  omega

/-- Storing the name in the record taken. -/
theorem Made.of_took (h : DirOk d) (hg : g ∈ allFiles d) (hdir : fileType d g = FTYPE_DIR)
    (ht : TookEntry d u g x) (hnil : c ≠ []) (hlen : c.length < MAXNAMELEN) (h0 : 0#8 ∉ c)
    (hfresh : ∀ y, ¬ Lists d g c y) (hm : SameMeta (allFiles u) u t)
    (hhold : Fmt.Holds t x.fName (c ++ [0#8]))
    (hout : ∀ b i, (∀ k < (c ++ [0#8]).length, ¬ Fmt.InWord b i (x.fName + k)) → t b i = u b i) :
    Made d t g x c := by
  have hgu := ht.files hg
  have hdu : fileType u g = FTYPE_DIR := (ht.type g hg).trans hdir
  have hxu : x ∈ allFiles u := entriesOf_subset ht.ok hgu hdu ht.mem
  have hxi := record_idx ht.ok.inv hxu
  have hent : ∀ k ∈ allFiles u, entriesOf t k = entriesOf u k := fun k hk =>
    entriesOf_congr (hm.fileSize_eq hk) fun n hn =>
      hm.slot _ (fileSlot_in hk (ht.ok.inv.block_lt hk hn))
  -- the words of the other records, and those behind the name
  have hother : ∀ y ∈ allFiles u, y ≠ x → ∀ a < 64, t y.blk (y.idx + a) = u y.blk (y.idx + a) := by
    intro y hy hne a ha
    refine putName_words hxi hlen hout fun b hb hblk hidx => hne ?_
    exact (ht.ok.inv.words_inj hy hxu ha (show b < 64 by omega) hblk hidx).1
  have hbehind : ∀ a, 32 ≤ a → a < 64 → t x.blk (x.idx + a) = 0#32 := by
    intro a ha ha'
    rw [putName_words hxi hlen hout fun b hb _ hidx => by omega]
    exact ht.blank a ha ha'
  -- names
  have hnx : nameOf t x = c := cstr_holds c _ _ hlen h0 hhold
  have hnt : ∀ y ∈ allFiles u, y ≠ x → nameOf t y = nameOf u y := fun y hy hne =>
    nameOf_congr (record_idx ht.ok.inv hy) fun a ha => hother y hy hne a (by omega)
  have hnu : ∀ y ∈ allFiles d, nameOf u y = nameOf d y := fun y hy =>
    nameOf_congr (record_idx h.inv hy) (ht.names y hy)
  have hnew : ∀ k ∈ allFiles d, fileType d k = FTYPE_DIR → ∀ c', c' ≠ [] → ∀ y, Lists d k c' y →
    y ≠ x := by
    rintro k hk hkd c' hc' y ⟨hy, hn⟩ rfl
    rw [← hnu y (entriesOf_subset h hk hkd hy), nameOf_nil ht.nameless] at hn
    exact hc' hn.symm
  refine ⟨hg, hdir, hnil, hlen, hfresh, fun c' hc' hs => hnew g hg hdir c' hc' x hs rfl, ?_, ?_,
    ?_, ?_,
    ?_, ?_, ?_, ?_, ?_⟩
  · intro k
    rw [hm.allFiles_eq]
    constructor
    · rintro ⟨hk, hkd⟩
      rw [hm.fileType_eq hk] at hkd
      have hkm := ht.dirs k hk hkd
      exact ⟨hkm, by rw [← ht.type k hkm]; exact hkd⟩
    · rintro ⟨hk, hkd⟩
      exact ⟨ht.files hk, by rw [hm.fileType_eq (ht.files hk), ht.type k hk]; exact hkd⟩
  · intro k hk hkd c' hc' y
    have hku := ht.files hk
    have hkdu : fileType u k = FTYPE_DIR := (ht.type k hk).trans hkd
    constructor
    · rintro ⟨hy, hn⟩
      rw [hent k hku] at hy
      by_cases hyx : y = x
      · right
        subst hyx
        exact ⟨entriesOf_unique ht.ok hgu hku hdu ht.mem hy, by rw [← hn, hnx], rfl⟩
      · left
        rw [hnt y (entriesOf_subset ht.ok hku hkdu hy) hyx] at hn
        rcases ht.new k hk hkd y hy with hold | hzero
        · exact ⟨hold, by rw [← hnu y (entriesOf_subset h hk hkd hold)]; exact hn⟩
        · -- a record of the new block has no name
          have hidx := record_idx ht.ok.inv (entriesOf_subset ht.ok hku hkdu hy)
          rw [nameOf_nil (byteAt_fName_zero hidx hzero)] at hn
          exact absurd hn.symm hc'
    · rintro (hs | ⟨rfl, rfl, rfl⟩)
      · have hyx := hnew k hk hkd c' hc' y hs
        have hyd := entriesOf_subset h hk hkd hs.1
        refine ⟨by rw [hent k hku]; exact ht.old k hk hkd hs.1, ?_⟩
        rw [hnt y (ht.files hyd) hyx, hnu y hyd]
        exact hs.2
      · exact ⟨by rw [hent k hku]; exact ht.mem, hnx⟩
  · intro c' hc' y hs a ha
    have hyd := entriesOf_subset h hg hdir hs.1
    have hyg : y ≠ g := by
      rintro rfl
      exact entriesOf_irrefl h hg hdir hs.1
    rw [hother y (ht.files hyd) (hnew g hg hdir c' hc' y hs) a ha]
    exact ht.words y hyd hyg a ha
  · intro y hy hreg n hn
    have hyg : y ≠ g := fun he => hreg (he ▸ hdir)
    rw [hm.slot _ (fileSlot_in (ht.files hy) hn)]
    exact ht.slots _ (fileSlot_in hy hn) (by rw [fileSlot_file]; exact hyg)
  · intro y hy hreg n hn hs0
    have hyg : y ≠ g := fun he => hreg (he ▸ hdir)
    have hsl := ht.slots _ (fileSlot_in hy hn) (by rw [fileSlot_file]; exact hyg)
    rw [← ht.data y hy hreg n hn hs0, ← hsl]
    have hxb := ht.ok.inv.blk_ne_data hxu (ht.files hy) (by rw [ht.type y hy]; exact hreg) hn
      (by rw [hsl]; exact hs0)
    funext i
    exact putName_words hxi hlen hout fun a _ hb => absurd hb.symm hxb
  · exact congrArg BitVec.toNat (hbehind 32 (by omega) (by omega))
  · exact hbehind 33 (by omega) (by omega)
  · exact hbehind 44 (by omega) (by omega)
  · intro n hn
    unfold fileSlot
    by_cases hd : n < NDIRECT
    · rw [if_pos hd]
      have hz := hbehind (34 + n) (by omega) (by unfold NDIRECT at hd; omega)
      rwa [← Nat.add_assoc] at hz
    · rw [if_neg hd]
      exact if_pos (hbehind 44 (by omega) (by omega))

theorem mem_of_mem_splitOn : ∀ c ∈ path.splitOn slash, ∀ b ∈ c, b ∈ path := by
  induction path with
  | nil =>
    intro c hc b hb
    simp only [List.splitOn_nil, List.mem_singleton] at hc
    rw [hc] at hb
    exact hb
  | cons a path ih =>
    intro c hc b hb
    unfold List.splitOn at hc ih
    rw [List.splitOnP_cons_eq_if_modifyHead] at hc
    split at hc
    · rcases List.mem_cons.mp hc with rfl | hc
      · cases hb
      · exact List.mem_cons_of_mem _ (ih c hc b hb)
    · -- `a` belongs to the first component of the rest
      cases hs : List.splitOnP (· == slash) path with
      | nil =>
        rw [hs] at hc
        cases hc
      | cons first others =>
        rw [hs] at hc ih
        rcases List.mem_cons.mp hc with rfl | hc
        · rcases List.mem_cons.mp hb with rfl | hb
          · exact List.mem_cons_self
          · exact List.mem_cons_of_mem _ (ih first List.mem_cons_self b hb)
        · exact List.mem_cons_of_mem _ (ih c (List.mem_cons_of_mem _ hc) b hb)

theorem Descends.mem (h : DirOk d) {p q : Option FileP} {cs : List (List Byte)}
    (hdesc : Descends d p f cs q g) (hf : f ∈ allFiles d) : g ∈ allFiles d := by
  induction hdesc with
  | here => exact hf
  | down hdir hx _ ih => exact ih (entriesOf_subset h hf hdir hx.1)

/-- The last component of `path` is the name of the new file, in the directory the
others lead to. -/
def Creates (d : Disk) (path : List Byte) (t : Disk) (x : FileP) : Prop :=
  ∃ before name p dir, components path = before ++ [name] ∧ Descends d none sRoot before p dir ∧
    Made d t dir x name

/-- **`file_create`** makes one empty file or leaves the disk alone. -/
theorem fileCreate_made (h : DirOk d) (hz : FreeZero d) (hblank : Blank d) (hroom : DirRoom d)
    (h0 : 0#8 ∉ path) :
    wp (fileCreate path)
      (fun r t => (r.1.toInt < 0 ∧ t = d) ∨
        (DirOk t ∧ ∃ x, r = (0#32, some x) ∧ Creates d path t x))
      (fun _ _ => True) d := by
  obtain ⟨w, hwalk, hout⟩ := walkPath_outcome h h0
  refine wp_bind_ok hwalk ?_
  cases hout with
  | found _ | badPath _ _ _ _ | notFound _ _ _ _ _ => exact Or.inl ⟨by decide, rfl⟩
  | @missing before c p g hc hdesc hu hlen hdir =>
    have hg : g ∈ allFiles d := hdesc.mem h .root
    have hmem : c ∈ components path := by
      rw [hc]
      simp
    have hc0 : 0#8 ∉ c := fun hm => h0 (mem_of_mem_splitOn c (List.mem_of_mem_filter hmem) _ hm)
    have hfresh : ∀ y, ¬ Lists d g c y := fun y hy => hu hdir y ⟨hy.1, hy.2, hlen⟩
    refine wp_seq (dirAllocFile_took h hz hblank hg hdir (hroom g hg hdir)) ?_
    rintro r u ⟨x, rfl, ht⟩
    have hxu := entriesOf_subset ht.ok (ht.files hg) ((ht.type g hg).trans hdir) ht.mem
    have hname := putName_spec (c ++ [0#8]) 0 u ⟨ht.ok.inv, ht.free⟩ hxu (by
      rw [List.length_append, List.length_singleton]
      omega)
    rw [Nat.add_zero] at hname
    refine wp_seq (wp_mono (wp_and hname (Fmt.putDiskBytes_holds (c ++ [0#8]) x.fName u))
      (fun _ _ hw => hw) (fun _ _ hf => hf.1.elim)) ?_
    rintro _ t ⟨⟨-, hm⟩, hhold, -, hwords⟩
    refine Or.inr ⟨(ht.ok.of_sameMeta hm).1, x, rfl, before, c, p, g, hc, hdesc, ?_⟩
    exact .of_took h hg hdir ht (components_ne_nil c hmem) hlen hc0 hfresh hm hhold hwords

/-! ## §3. Calls and runs. -/

/-- `file_create` is called when the free blocks and the records without a name hold
zeros; the other calls are valid ones. -/
def FsCall.Clean (d : Disk) (c : FsCall) : Prop :=
  c.Valid d ∧ ∀ path, c = .create path → 0#8 ∉ path ∧ FreeZero d ∧ Blank d

/-- Calls that return, one after the other, with their results. -/
inductive CleanRun (d₀ : Disk) : List (FsCall × FsResult) → Disk → Prop
  | start : CleanRun d₀ [] d₀
  | call {log : List (FsCall × FsResult)} {d t : Disk} {c : FsCall} {r : FsResult}
      (before : CleanRun d₀ log d) (hclean : c.Clean d) (hrun : c.exec d = .ok r t) :
      CleanRun d₀ (log ++ [(c, r)]) t

theorem SameTree.lists_iff (hs : SameTree d t) (h : DirOk d) (hg : g ∈ allFiles d)
    (hdir : fileType d g = FTYPE_DIR) : Lists t g c y ↔ Lists d g c y := by
  unfold Lists
  rw [hs.entries g hg hdir]
  refine and_congr_right fun hy => ?_
  rw [hs.nameOf_eq h.inv (entriesOf_subset h hg hdir hy)]

/-- **One call**: the directories show the same, or one name more. -/
theorem exec_names (h : DirOk d) (hop : op.Clean d) :
    wp op.exec (fun r t => DirOk t ∧ (SameTree d t ∨
        ∃ path x, op = .create path ∧ r.ret = 0#32 ∧ r.pf = some x ∧ Creates d path t x))
      (fun _ _ => True) d := by
  obtain ⟨hvalid, hclean⟩ := hop
  have hsame : ∀ {α : Type} {m : FsM α} {k : α → FsResult},
      wp m (fun _ t => DirOk t ∧ SameTree d t) (fun _ _ => True) d →
      wp (do return k (← m)) (fun r t => DirOk t ∧ (SameTree d t ∨
        ∃ path x, op = .create path ∧ r.ret = 0#32 ∧ r.pf = some x ∧ Creates d path t x))
      (fun _ _ => True) d := by
    intro α m k hm
    refine wp_seq hm ?_
    rintro a t ⟨hok, hst⟩
    exact ⟨hok, Or.inl hst⟩
  cases op with
  | create path =>
    obtain ⟨h0, hz, hblank⟩ := hclean path rfl
    refine wp_seq (fileCreate_made h hz hblank hvalid h0) ?_
    rintro r t (⟨-, rfl⟩ | ⟨hok, x, rfl, hmade⟩)
    · exact ⟨h, Or.inl (SameTree.refl t)⟩
    · exact ⟨hok, Or.inr ⟨path, x, rfl, rfl, rfl, hmade⟩⟩
  | write k buf offset =>
    obtain ⟨hk, hreg, hoff, hmax⟩ := hvalid
    obtain ⟨-, hto⟩ := toNat_of_nonneg hoff
    exact hsame (fileWrite_sameTree h hk hreg (by omega))
  | setSize k newsize =>
    obtain ⟨hk, hreg, hnew, hmax⟩ := hvalid
    obtain ⟨-, hto⟩ := toNat_of_nonneg hnew
    exact hsame (fileSetSize_sameTree h hk hreg (by omega))
  | read k count offset =>
    obtain ⟨hk, hoff⟩ := hvalid
    exact hsame (fileRead_sameTree h hk (toNat_of_nonneg hoff).1 count)

theorem SameTree.distinct (hs : SameTree d t) (h : DirOk d) (hn : DistinctNames d) :
    DistinctNames t := by
  intro k hk hkd x hx y hy hne he
  rw [hs.files] at hk
  rw [hs.type k hk] at hkd
  have hxd := (hs.lists_iff h hk hkd).mp ⟨hx, rfl⟩
  have hyd := (hs.lists_iff h hk hkd).mp ⟨hy, he.symm⟩
  exact hn k hk hkd x hxd.1 y hyd.1 (by rw [hxd.2]; exact hne) (hxd.2.trans hyd.2.symm)

theorem Made.distinct {dir : FileP} (hm : Made d t dir x c) (hn : DistinctNames d) :
    DistinctNames t := by
  intro k hk hkd y hy z hz hne he
  obtain ⟨hkm, hkt⟩ := (hm.dirs k).mp ⟨hk, hkd⟩
  have hold := (hm.shown k hkm hkt _ hne y).mp ⟨hy, rfl⟩
  have hold' := (hm.shown k hkm hkt _ hne z).mp ⟨hz, he.symm⟩
  rcases hold with hyd | ⟨rfl, hyc, rfl⟩ <;> rcases hold' with hzd | ⟨hzk, hzc, rfl⟩
  · exact hn k hkm hkt y hyd.1 z hzd.1 (by rw [hyd.2]; exact hne) (hyd.2.trans hzd.2.symm)
  · -- the new name was not there before
    rw [hzk, hzc] at hyd
    exact absurd hyd (hm.fresh y)
  · rw [hyc] at hzd
    exact absurd hzd (hm.fresh z)
  · rfl

/-- A name was there at the start, or `file_create` made it. -/
def Known (d₀ : Disk) (log : List (FsCall × FsResult)) (g : FileP) (c : List Byte)
    (y : FileP) : Prop :=
  (g ∈ allFiles d₀ ∧ fileType d₀ g = FTYPE_DIR ∧ Lists d₀ g c y) ∨
    ∃ path r, (FsCall.create path, r) ∈ log ∧ r.ret = 0#32 ∧ r.pf = some y ∧
      (components path).getLast? = some c

variable {d₀ : Disk} {log : List (FsCall × FsResult)}

theorem Known.later (h : Known d₀ log g c y) (last : FsCall × FsResult) :
    Known d₀ (log ++ [last]) g c y := by
  rcases h with h | ⟨path, r, hin, hrest⟩
  · exact Or.inl h
  · exact Or.inr ⟨path, r, List.mem_append_left _ hin, hrest⟩

/-- What holds after every call of a run. -/
structure NamesInv (d₀ : Disk) (log : List (FsCall × FsResult)) (d : Disk) : Prop where
  ok : DirOk d
  distinct : DistinctNames d
  known : ∀ g ∈ allFiles d, fileType d g = FTYPE_DIR → ∀ c, c ≠ [] → ∀ y, Lists d g c y →
    Known d₀ log g c y

/-- **One call keeps it.** -/
theorem NamesInv.step (h : NamesInv d₀ log d) {r : FsResult} (hop : op.Clean d)
    (hrun : op.exec d = .ok r t) : NamesInv d₀ (log ++ [(op, r)]) t := by
  obtain ⟨hok, hsame | ⟨path, x, rfl, hret, hpf, before, name, p, dir, hcomp, -, hm⟩⟩ :=
    wp_ok (exec_names h.ok hop) hrun
  · refine ⟨hok, hsame.distinct h.ok h.distinct, ?_⟩
    intro k hk hkd c hc y hy
    rw [hsame.files] at hk
    rw [hsame.type k hk] at hkd
    exact (h.known k hk hkd c hc y ((hsame.lists_iff h.ok hk hkd).mp hy)).later _
  · refine ⟨hok, hm.distinct h.distinct, ?_⟩
    intro k hk hkd c hc y hy
    obtain ⟨hkm, hkt⟩ := (hm.dirs k).mp ⟨hk, hkd⟩
    rcases (hm.shown k hkm hkt c hc y).mp hy with hold | ⟨-, rfl, rfl⟩
    · exact (h.known k hkm hkt c hc y hold).later _
    · refine Or.inr ⟨path, r, by simp, hret, hpf, ?_⟩
      rw [hcomp]
      simp

/-- **The names of a run.** -/
theorem run_names (h : DirOk d₀) (hn : DistinctNames d₀) (hrun : CleanRun d₀ log d) :
    NamesInv d₀ log d := by
  induction hrun with
  | start => exact ⟨h, hn, fun k hk hkd c _ y hy => Or.inl ⟨hk, hkd, hy⟩⟩
  | call _ hclean hexec ih => exact ih.step hclean hexec

/-- **`file_create` adds one empty file**: after any run the names in a directory are
distinct, each of them was there at the start or was made by `file_create`, and a call
of `file_create` that returns 0 makes one name, of an empty regular file, and leaves
the other entries as they were. -/
theorem create_adds_one (h : DirOk d₀) (hn : DistinctNames d₀) (hrun : CleanRun d₀ log d) :
    DistinctNames d ∧
    (∀ g ∈ allFiles d, fileType d g = FTYPE_DIR → ∀ c, c ≠ [] → ∀ y, Lists d g c y →
      Known d₀ log g c y) ∧
    ∀ path, (FsCall.create path).Clean d → ∀ r t, fileCreate path d = .ok r t → r.1 = 0#32 →
      ∃ x, r.2 = some x ∧ Creates d path t x := by
  have hinv := run_names h hn hrun
  refine ⟨hinv.distinct, hinv.known, ?_⟩
  rintro path ⟨hroom, hclean⟩ r t hexec hret
  obtain ⟨h0, hz, hblank⟩ := hclean path rfl
  rcases wp_ok (fileCreate_made hinv.ok hz hblank hroom h0) hexec with ⟨hneg, -⟩ | ⟨-, x, rfl,
    hmade⟩
  · rw [hret] at hneg
    exact absurd hneg (by decide)
  · exact ⟨x, rfl, hmade⟩

/-- The root is the only directory, and its entries are in block 3. -/
theorem smallDisk_entries (hg : g ∈ allFiles smallDisk) (hdir : fileType smallDisk g = FTYPE_DIR) :
    g = sRoot ∧ ∀ y ∈ entriesOf smallDisk g, ∃ k < 16, y = ⟨3, 64 * k⟩ := by
  rw [smallDisk_allFiles] at hg
  rcases hg with rfl | ⟨k, hk, rfl⟩
  · refine ⟨rfl, ?_⟩
    rintro y ⟨n, hn, hy⟩
    replace hn : n < 1 := hn
    rw [Nat.lt_one_iff.mp hn] at hy
    exact hy
  · unfold fileType at hdir
    rw [smallDisk_three] at hdir
    exact absurd hdir (by decide)

/-- The calls of `file_create` for a name that is not in the root. -/
theorem fileCreate_of_missing {Q : Disk → Prop}
    (hwalk : walkPath path d = .ok ⟨-E_NOT_FOUND, some sRoot, none, c⟩ d)
    (hrun : ∃ u t, dirAllocFile sRoot d = .ok (.ok x) u ∧
      putDiskBytes x.fName (c ++ [0#8]) u = .ok () t ∧ Q t) :
    ∃ t, fileCreate path d = .ok (0#32, some x) t ∧ Q t := by
  obtain ⟨u, t, halloc, hput, hq⟩ := hrun
  refine ⟨t, ?_, hq⟩
  unfold fileCreate
  rw [bind_ok hwalk]
  dsimp only
  rw [if_neg (by decide), if_neg (by decide), bind_ok halloc]
  dsimp only
  rw [bind_ok hput]
  rfl

/-- The first file of an empty root. -/
theorem create_adds_one_first : ∃ t, fileCreate [slash, 0x71#8] smallDisk = .ok
    (0#32, some ⟨3, 0⟩) t ∧
    Creates smallDisk [slash, 0x71#8] t ⟨3, 0⟩ ∧ DistinctNames t := by
  have hnameless : ∀ k < 16, nameOf smallDisk ⟨3, 64 * k⟩ = [] := fun k hk =>
    nameOf_nil (byteAt_fName_zero (show 64 * k ≤ 960 by omega) smallDisk_three)
  have hn : DistinctNames smallDisk := by
    intro k hk hkd y hy z _ hne _
    obtain ⟨a, ha, rfl⟩ := (smallDisk_entries hk hkd).2 y hy
    exact absurd (hnameless a ha) hne
  have hblank : Blank smallDisk := by
    intro k hk hkd y hy _ a _ _
    obtain ⟨b, hb, rfl⟩ := (smallDisk_entries hk hkd).2 y hy
    exact smallDisk_three _
  have hclean : (FsCall.create [slash, 0x71#8]).Clean smallDisk := by
    refine ⟨smallDisk_dirRoom, ?_⟩
    rintro path ⟨rfl⟩
    exact ⟨by decide, smallDisk_sound.free, hblank⟩
  have hwalk : walkPath [slash, 0x71#8] smallDisk =
      .ok ⟨-E_NOT_FOUND, some sRoot, none, [0x71#8]⟩ smallDisk := by
    unfold walkPath
    unfold walkPathFrom
    rfl
  obtain ⟨t, hrun, -⟩ := fileCreate_of_missing (x := ⟨3, 0⟩) (Q := fun _ => True) hwalk
    ⟨_, _, rfl, rfl, trivial⟩
  obtain ⟨x, hx, hmade⟩ := (create_adds_one smallDisk_dirOk hn .start).2.2 _ hclean _ t hrun rfl
  obtain rfl : ⟨3, 0⟩ = x := Option.some.inj hx
  have hexec : (FsCall.create [slash, 0x71#8]).exec smallDisk = .ok ⟨0#32, [], some ⟨3, 0⟩⟩ t := by
    show (fileCreate [slash, 0x71#8] >>= fun x => pure ⟨x.1, [], x.2⟩ : FsM FsResult) smallDisk = _
    rw [bind_ok hrun]
    rfl
  exact ⟨t, hrun, hmade, (create_adds_one smallDisk_dirOk hn (.call .start hclean hexec)).1⟩

/-! ## §4. A block that was used before. -/

/-- The small disk with 16 files `a` … `p`, all empty: the root is full. -/
def crowdedDisk : Disk := fun b i =>
  if b = 3 ∧ i < 1024 ∧ i % 64 = 0 then BitVec.ofNat 32 (0x61 + i / 64) else smallDisk b i

theorem crowdedDisk_word (h : b ≠ 3 ∨ i % 64 ≠ 0) : crowdedDisk b i = smallDisk b i := by
  unfold crowdedDisk
  rw [if_neg]
  rintro ⟨rfl, -, hi⟩
  exact h.elim (fun hb => hb rfl) (fun hm => hm hi)

theorem crowdedDisk_record (hf : f ∈ smallFiles) {a : Nat} (ha : 0 < a) (ha' : a < 64) :
    crowdedDisk f.blk (f.idx + a) = smallDisk f.blk (f.idx + a) := by
  apply crowdedDisk_word
  rcases hf with rfl | ⟨k, -, rfl⟩
  · exact Or.inl (by decide)
  · right
    show (64 * k + a) % 64 ≠ 0
    omega

theorem crowdedDisk_sameMeta : SameMeta (allFiles smallDisk) smallDisk crowdedDisk := by
  rw [smallDisk_allFiles]
  have hslot : ∀ s : BlockSlot, s.In smallFiles → slotVal crowdedDisk s = slotVal smallDisk s := by
    intro s hs
    refine slotVal_congr hs (fun a _ _ => crowdedDisk_record hs.mem (by omega) (by omega))
      fun h0 => absurd ?_ h0
    have hind := smallDisk_slot (s := .indirect s.file) hs.mem
    rwa [if_neg (by simp)] at hind
  refine ⟨⟨rfl, hslot, fun f hf => crowdedDisk_record hf (by omega) (by omega),
    fun f hf => crowdedDisk_record hf (by omega) (by omega)⟩, ?_⟩
  intro b hb
  refine crowdedDisk_word (Or.inl ?_)
  have : b < 8 := hb
  unfold bitmapBlk
  omega

theorem crowdedDisk_dirOk : DirOk crowdedDisk :=
    (smallDisk_dirOk.of_sameMeta crowdedDisk_sameMeta).1

theorem crowdedDisk_distinct : DistinctNames crowdedDisk := by
  have hname : ∀ k < 16, nameOf crowdedDisk ⟨3, 64 * k⟩ = [BitVec.ofNat 8 (0x61 + k)] := by
    intro k hk
    interval_cases k <;> decide +kernel
  intro g hg hdir x hx y hy _ he
  rw [crowdedDisk_sameMeta.allFiles_eq] at hg
  rw [crowdedDisk_sameMeta.fileType_eq hg] at hdir
  have hent : entriesOf crowdedDisk g = entriesOf smallDisk g :=
    entriesOf_congr (crowdedDisk_sameMeta.fileSize_eq hg) fun n hn =>
      crowdedDisk_sameMeta.slot _ (fileSlot_in hg (smallDisk_dirOk.inv.block_lt hg hn))
  rw [hent] at hx hy
  obtain ⟨a, ha, rfl⟩ := (smallDisk_entries hg hdir).2 x hx
  obtain ⟨b, hb, rfl⟩ := (smallDisk_entries hg hdir).2 y hy
  rw [hname a ha, hname b hb] at he
  have hbyte := congrArg BitVec.toNat (List.cons.inj he).1
  rw [BitVec.toNat_ofNat, BitVec.toNat_ofNat] at hbyte
  have hab : a = b := by omega
  rw [hab]

/-- Two bytes go to a block of file `b` and the file is truncated. -/
def writeThenTruncate : List FsCall :=
  [.write fileA [5#8] 128#32, .write fileA [0x78#8] 256#32, .setSize fileA 0#32]

/-- **The bytes show up in the root**, which grows by this block: the new file `q` is not
empty, and there is a file `x` that nobody made. -/
theorem stale_block_shows_name : DirOk crowdedDisk ∧ DistinctNames crowdedDisk ∧
    ∃ rs d t, FsRun (fun _ => True) crowdedDisk writeThenTruncate rs d ∧
      fileCreate [slash, 0x71#8] d = .ok (0#32, some ⟨4, 0⟩) t ∧
      Lists t sRoot [0x71#8] ⟨4, 0⟩ ∧ fileSize t ⟨4, 0⟩ = 5 ∧
      (∀ y, ¬ Lists d sRoot [0x78#8] y) ∧ Lists t sRoot [0x78#8] ⟨4, 64⟩ := by
  refine ⟨crowdedDisk_dirOk, crowdedDisk_distinct, ?_⟩
  obtain ⟨r₁, r₂, r₃, d₁, d₂, d, h₁, h₂, h₃, hf₁, hf₂, hreg₁, hreg₂, hent, hname, t, hcreate, hq,
    hx⟩ :
      ∃ r₁ r₂ r₃ d₁ d₂ d, (FsCall.write fileA [5#8] 128#32).exec crowdedDisk = .ok r₁ d₁ ∧
        (FsCall.write fileA [0x78#8] 256#32).exec d₁ = .ok r₂ d₂ ∧
        (FsCall.setSize fileA 0#32).exec d₂ = .ok r₃ d ∧
        fileA ∈ allFiles d₁ ∧ fileA ∈ allFiles d₂ ∧
        fileType d₁ fileA ≠ FTYPE_DIR ∧ fileType d₂ fileA ≠ FTYPE_DIR ∧
        (fileBlocks d sRoot = 1 ∧ slotVal d (fileSlot sRoot 0) = 3#32) ∧
        (∀ k < 16, nameOf d ⟨3, 64 * k⟩ ≠ [0x78#8]) ∧
        ∃ t, fileCreate [slash, 0x71#8] d = .ok (0#32, some ⟨4, 0⟩) t ∧
          (fileBlocks t sRoot = 2 ∧ slotVal t (fileSlot sRoot 1) = 4#32) ∧
          nameOf t ⟨4, 0⟩ = [0x71#8] ∧ fileSize t ⟨4, 0⟩ = 5 ∧ nameOf t ⟨4, 64⟩ = [0x78#8] := by
    refine ⟨_, _, _, _, _, _, rfl, rfl, rfl, smallDisk_isFile rfl rfl (by decide),
      smallDisk_isFile rfl rfl (by decide), by decide +kernel, by decide +kernel,
      by decide +kernel, by decide +kernel, ?_⟩
    refine fileCreate_of_missing (c := [0x71#8]) ?_ ?_
    · unfold walkPath
      rw [show skipSlash [slash, 0x71#8] = [0x71#8] from rfl]
      unfold walkPathFrom
      rfl
    · exact ⟨_, _, rfl, rfl,
        by decide +kernel, by decide +kernel, by decide +kernel, by decide +kernel⟩
  have hrun : FsRun (fun _ => True) crowdedDisk writeThenTruncate [r₁, r₂, r₃] d :=
    .cons ⟨smallDisk_isFile rfl rfl (by decide), by decide +kernel, by decide, by decide⟩ trivial h₁
      (.cons ⟨hf₁, hreg₁, by decide, by decide⟩ trivial h₂
        (.cons ⟨hf₂, hreg₂, by decide, by decide⟩ trivial h₃ (.nil d)))
  refine ⟨_, d, t, hrun, hcreate, ⟨⟨1, ?_, 0, by decide, ?_⟩, hx.1⟩, hx.2.1, ?_,
    ⟨⟨1, ?_, 1, by decide, ?_⟩, hx.2.2⟩⟩
  · rw [hq.1]
    decide
  · rw [hq.2]
    rfl
  · rintro y ⟨⟨n, hn, hy⟩, hny⟩
    rw [hent.1] at hn
    rw [Nat.lt_one_iff.mp hn, hent.2] at hy
    obtain ⟨k, hk, rfl⟩ := hy
    exact hname k hk hny
  · rw [hq.1]
    decide
  · rw [hq.2]
    rfl

end Jos
