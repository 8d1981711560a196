/-
  Jos.Fs.Tree — **THE FILES OF A DISK.**

  `IsFile d f` says that the record `f` is reached from the root: it is the
  root, or one of the 16 entries of a block of a directory that is reached.  An
  entry that is not in use is a file too, an empty one without a name; so
  `Consistent d`, the invariant of `Owner` for all these files, is a statement
  about the disk alone.

  A directory that gets a new block gets 16 new files.  They are empty files
  only if the block was zero, which nobody has made it: `Sound` adds that all
  free blocks are zero.
-/
import Jos.Fs.Files

namespace Jos

open Exec

variable {b n : Nat} {files : Set FileP}

/-! ## §1. Reaching a file. -/

inductive IsFile (d : Disk) : FileP → Prop
  | root : IsFile d sRoot
  | entry {g : FileP} {n k : Nat} (hg : IsFile d g) (hdir : fileType d g = FTYPE_DIR)
      (hn : n < NDIRECT + NINDIRECT) (h0 : slotVal d (fileSlot g n) ≠ 0#32) (hk : k < 16) :
      IsFile d ⟨(slotVal d (fileSlot g n)).toNat, 64 * k⟩

def allFiles (d : Disk) : Set FileP := fun f => IsFile d f

/-- The 16 records of a block. -/
def recordsOf (b : Nat) : Set FileP := fun f => ∃ k < 16, f = ⟨b, 64 * k⟩

/-- **A consistent file system.** -/
def Consistent (d : Disk) : Prop := FsInv (allFiles d) ∅ d

def FreeZero (d : Disk) : Prop := ∀ b < nblocks d, ¬ inUse d b → ∀ i, d b i = 0#32

/-- Consistent, and nothing is left in the free blocks. -/
structure Sound (d : Disk) : Prop where
  inv : FsInv (allFiles d) ∅ d
  free : FreeZero d

variable {d d' : Disk} {f g : FileP}

/-- Types and the slots of directories decide which files there are. -/
theorem allFiles_subset (htype : ∀ g ∈ allFiles d, fileType d' g = fileType d g)
    (hslot : ∀ g ∈ allFiles d, fileType d g = FTYPE_DIR → ∀ n < NDIRECT + NINDIRECT,
      slotVal d (fileSlot g n) ≠ 0#32 → slotVal d' (fileSlot g n) = slotVal d (fileSlot g n)) :
    allFiles d ⊆ allFiles d' := by
  intro f hf
  induction hf with
  | root => exact .root
  | @entry g n k hg hdir hn h0 hk ih =>
    have hs := hslot g hg hdir n hn h0
    rw [← hs]
    apply IsFile.entry ih _ hn _ hk
    · rw [htype g hg, hdir]
    · rw [hs]
      exact h0

theorem allFiles_congr (htype : ∀ g ∈ allFiles d, fileType d' g = fileType d g)
    (hslot : ∀ g ∈ allFiles d, fileType d g = FTYPE_DIR → ∀ n < NDIRECT + NINDIRECT,
      slotVal d' (fileSlot g n) = slotVal d (fileSlot g n)) : allFiles d' = allFiles d := by
  apply Set.Subset.antisymm _ (allFiles_subset htype fun g hg hdir n hn _ => hslot g hg hdir n hn)
  intro f hf
  induction hf with
  | root => exact .root
  | @entry g n k hg hdir hn h0 hk ih =>
    rw [htype g ih] at hdir
    have hs := hslot g ih hdir n hn
    rw [hs] at h0 ⊢
    exact .entry ih hdir hn h0 hk

/-! ## §2. A new block of a directory. -/

/-- The records of a zero block are empty files. -/
theorem FsInv.addRecords (h : FsInv files ∅ d) (hg : g ∈ files)
    (hdir : fileType d g = FTYPE_DIR) (hn : n < NDIRECT + NINDIRECT)
    (h0 : slotVal d (fileSlot g n) ≠ 0#32)
    (hzero : ∀ i, d (slotVal d (fileSlot g n)).toNat i = 0#32) :
    FsInv (files ∪ recordsOf (slotVal d (fileSlot g n)).toNat) ∅ d := by
  generalize hb : (slotVal d (fileSlot g n)).toNat = b at *
  -- a slot of a new record is empty
  have hempty : ∀ s : BlockSlot, s.file ∈ recordsOf b → slotVal d s = 0#32 := by
    intro s hs
    obtain ⟨k, hk, hf⟩ := hs
    cases s with
    | direct f i =>
      obtain rfl : f = ⟨b, 64 * k⟩ := hf
      exact hzero _
    | indirect f =>
      obtain rfl : f = ⟨b, 64 * k⟩ := hf
      exact hzero _
    | entry f j =>
      obtain rfl : f = ⟨b, 64 * k⟩ := hf
      exact if_pos (hzero _)
  have hold : ∀ s : BlockSlot, s.In (files ∪ recordsOf b) → slotVal d s ≠ 0#32 → s.In files := by
    intro s hs hne
    rcases hs.mem with hf | hf
    · cases s with
      | direct f i => exact ⟨hf, hs.2⟩
      | indirect f => exact hf
      | entry f j => exact ⟨hf, hs.2⟩
    · exact absurd (hempty s hf) hne
  have hmono : ∀ s : BlockSlot, s.In files → s.In (files ∪ recordsOf b) := by
    intro s hs
    cases s with
    | direct f i => exact ⟨Or.inl hs.1, hs.2⟩
    | indirect f => exact Or.inl hs
    | entry f j => exact ⟨Or.inl hs.1, hs.2⟩
  have hinslot : ∀ c, InSlot (files ∪ recordsOf b) d c ↔ InSlot files d c := by
    intro c
    constructor
    · intro ⟨s, hs, hne, hc⟩
      exact ⟨s, hold s hs hne, hne, hc⟩
    · intro ⟨s, hs, hne, hc⟩
      exact ⟨s, hmono s hs, hne, hc⟩
  refine ⟨h.nblocks_le, ?_, fun s hs hne => h.slot_lt s (hold s hs hne) hne,
    fun s hs hne => h.slot_free s (hold s hs hne) hne, ?_, ?_, fun c hc => hc.elim, ?_, ?_⟩
  · intro f hf
    rcases hf with hf | ⟨k, hk, rfl⟩
    · rcases h.place f hf with hr | ⟨g', n', k', hg', hrest⟩
      · exact Or.inl hr
      · exact Or.inr ⟨g', n', k', Or.inl hg', hrest⟩
    · exact Or.inr ⟨g, n, k, Or.inl hg, hdir, hn, h0, hb.symm, hk, rfl⟩
  · intro s s' hs hs' hne he
    exact h.slot_inj s s' (hold s hs hne) (hold s' hs' (by rw [← he]; exact hne)) hne he
  · intro c hc
    rw [h.used_iff c hc, hinslot]
  · intro f hf
    rcases hf with hf | ⟨k, hk, rfl⟩
    · exact h.size_le f hf
    · unfold fileSize
      rw [hzero]
      exact Nat.zero_le _
  · intro f hf m hm hle
    rcases hf with hf | hf
    · exact h.tail f hf m hm hle
    · exact hempty _ (by rw [fileSlot_file]; exact hf)

/-- Blocks in use stay in use when a file grows. -/
theorem Grows.inUse_mono (hg : Grows files f d d') (h : FsInv files ∅ d)
    (h' : FsInv files ∅ d') (hb : b < Jos.nblocks d) (hu : inUse d b) : inUse d' b := by
  have hnb : Jos.nblocks d' = Jos.nblocks d := by
    unfold Jos.nblocks
    rw [hg.nblocks]
  rw [h'.used_iff b (by rw [hnb]; exact hb), Reserved.of_nblocks hg.nblocks]
  rw [h.used_iff b hb] at hu
  rcases hu with hr | hs | ⟨s, hs, h0, he⟩
  · exact Or.inl hr
  · exact hs.elim
  · refine Or.inr (Or.inr ⟨s, hs, ?_, ?_⟩)
    · rw [hg.kept s hs h0]
      exact h0
    · rw [hg.kept s hs h0]
      exact he

/-- A block that holds records or an indirect block is in use. -/
theorem FsInv.record_inUse (h : FsInv files ∅ d) (hf : f ∈ files)
    (hb : f.blk < nblocks d) : inUse d f.blk := by
  rw [h.used_iff _ hb]
  rcases h.blk_cases hf with rfl | ⟨_, g, n, k, hg, _, hn, h0, hblk, _⟩
  · exact Or.inl reserved_one
  · exact Or.inr (Or.inr ⟨_, fileSlot_in hg hn, h0, hblk.symm⟩)

theorem FsInv.slot_inUse (h : FsInv files ∅ d) {s : BlockSlot}
    (hs : s.In files) (h0 : slotVal d s ≠ 0#32) : inUse d (slotVal d s).toNat := by
  rw [h.used_iff _ (h.slot_lt s hs h0)]
  exact Or.inr (Or.inr ⟨s, hs, h0, rfl⟩)

section
variable (hgot : GotBlock files f n b d d')
include hgot

/-- What is left in a free block is what was there before. -/
theorem GotBlock.free_eq (hf : f ∈ files) {p : Nat} (hp : p < nblocks d')
    (hfree : ¬ inUse d' p) : d' p = d p := by
  have h' := hgot.inv
  apply hgot.elsewhere p
  · intro hr
    apply hfree
    rw [h'.used_iff p hp, Reserved.of_nblocks hgot.grows.nblocks]
    exact Or.inl hr
  · intro he
    subst he
    exact hfree (h'.record_inUse hf hp)
  · intro h0 he
    subst he
    exact hfree (h'.slot_inUse (s := .indirect f) hf h0)

/-- A slot that was empty got a block that was free. -/
theorem GotBlock.was_free (h : FsInv files ∅ d) (hf : f ∈ files) (hn : n < NDIRECT + NINDIRECT)
    (h0 : slotVal d (fileSlot f n) = 0#32) : b < nblocks d ∧ ¬ inUse d b := by
  have h' := hgot.inv
  have hin := fileSlot_in hf hn
  have hlt := h'.slot_lt _ hin hgot.set
  have hr := h'.slot_free _ hin hgot.set
  have hnb : nblocks d' = nblocks d := by
    unfold nblocks
    rw [hgot.grows.nblocks]
  rw [hgot.block, hnb] at hlt
  rw [hgot.block, Reserved.of_nblocks hgot.grows.nblocks] at hr
  refine ⟨hlt, fun hu => ?_⟩
  rw [h.used_iff b hlt] at hu
  rcases hu with hu | hu | ⟨s, hs, hne, he⟩
  · exact hr hu
  · exact hu.elim
  · -- the slot that held `b` before still does, and is the slot of block `n`
    have hk := hgot.grows.kept s hs hne
    have heq := h'.slot_inj s (fileSlot f n) hs hin (by rw [hk]; exact hne)
      (BitVec.eq_of_toNat_eq (by rw [hk, he, hgot.block]))
    rw [heq] at hne
    exact hne h0

/-- … and the block holds what it held before. -/
theorem GotBlock.new_eq (h : FsInv files ∅ d) (hf : f ∈ files) (hn : n < NDIRECT + NINDIRECT)
    (h0 : slotVal d (fileSlot f n) = 0#32) : d' b = d b := by
  have h' := hgot.inv
  have hin := fileSlot_in hf hn
  obtain ⟨hlt, hfree⟩ := hgot.was_free h hf hn h0
  apply hgot.elsewhere b
  · intro hr
    apply hfree
    rw [h.used_iff b hlt]
    exact Or.inl hr
  · intro he
    subst he
    exact hfree (h.record_inUse hf hlt)
  · intro hi he
    have hs := h'.slot_inj (fileSlot f n) (.indirect f) hin hf hgot.set
      (BitVec.eq_of_toNat_eq (by rw [hgot.block, he]; rfl))
    exact fileSlot_ne_indirect _ _ _ hs

end

/-! ## §3. `file_get_block` on a sound disk. -/

/-- After `file_get_block` of any file, seen from the whole disk. -/
structure Fetched (f : FileP) (n b : Nat) (d d' : Disk) : Prop where
  sound : Sound d'
  got : GotBlock (allFiles d) f n b d d'
  files : allFiles d ⊆ allFiles d'
  /-- No directory is new. -/
  dirs : ∀ g ∈ allFiles d', fileType d' g = FTYPE_DIR → g ∈ allFiles d

theorem GotBlock.freeZero (hgot : GotBlock (allFiles d) f n b d d') (h : Sound d)
    (hf : f ∈ allFiles d) : FreeZero d' := by
  intro p hp hfree i
  have hnb : nblocks d' = nblocks d := by
    unfold nblocks
    rw [hgot.grows.nblocks]
  rw [hgot.free_eq hf hp hfree]
  rw [hnb] at hp
  exact h.free p hp (fun hu => hfree (hgot.grows.inUse_mono h.inv hgot.inv hp hu)) i

/-- A directory's new block adds its 16 records; nothing else adds files. -/
theorem GotBlock.allFiles_eq (hgot : GotBlock (allFiles d) f n b d d') (h : Sound d)
    (hf : f ∈ allFiles d) (hn : n < NDIRECT + NINDIRECT) :
    allFiles d' = allFiles d ∨
      (fileType d' f = FTYPE_DIR ∧ (∀ i, d' b i = 0#32) ∧
        allFiles d' = allFiles d ∪ recordsOf b) := by
  have htype : ∀ g ∈ allFiles d, fileType d' g = fileType d g :=
    fun g hg => hgot.grows.fileType_eq hg
  have hne : ∀ g ∈ allFiles d, ∀ m < NDIRECT + NINDIRECT, (g ≠ f ∨ m ≠ n) →
      slotVal d' (fileSlot g m) = slotVal d (fileSlot g m) := by
    intro g hg m hm hgm
    apply hgot.only _ (fileSlot_in hg hm) (fileSlot_ne_indirect _ _ _)
    intro he
    obtain ⟨h1, h2⟩ := fileSlot_inj he
    exact hgm.elim (fun hc => hc h1) (fun hc => hc h2)
  by_cases hdir : fileType d f = FTYPE_DIR
  · by_cases h0 : slotVal d (fileSlot f n) = 0#32
    · right
      obtain ⟨hlt, hfree⟩ := hgot.was_free h.inv hf hn h0
      have hzero : ∀ i, d' b i = 0#32 := by
        intro i
        rw [hgot.new_eq h.inv hf hn h0]
        exact h.free b hlt hfree i
      refine ⟨by rw [htype f hf, hdir], hzero, Set.Subset.antisymm ?_ ?_⟩
      · intro x hx
        induction hx with
        | root => exact Or.inl .root
        | @entry g m k hg hd hm hs hk ih =>
          rcases ih with ih | ⟨j, hj, rfl⟩
          · by_cases hgm : g = f ∧ m = n
            · obtain ⟨rfl, rfl⟩ := hgm
              rw [hgot.block]
              exact Or.inr ⟨k, hk, rfl⟩
            · have he := hne g ih m hm (by
                by_contra hc
                push Not at hc
                exact hgm hc)
              rw [he] at hs ⊢
              exact Or.inl (.entry ih (by rw [← htype g ih]; exact hd) hm hs hk)
          · -- a new record is all zero, so it is no directory
            have hz : fileType d' ⟨b, 64 * j⟩ = 0#32 := hzero _
            rw [hz] at hd
            exact absurd hd (by decide)
      · intro x hx
        have hsub := allFiles_subset htype (fun g hg _ m hm hnz =>
          hgot.grows.kept _ (fileSlot_in hg hm) hnz)
        rcases hx with hx | ⟨k, hk, rfl⟩
        · exact hsub hx
        · have hent := IsFile.entry (hsub hf) (by rw [htype f hf, hdir]) hn hgot.set hk
          rw [hgot.block] at hent
          exact hent
    · left
      apply allFiles_congr htype
      intro g hg _ m hm
      by_cases hgm : g = f ∧ m = n
      · obtain ⟨rfl, rfl⟩ := hgm
        exact hgot.grows.kept _ (fileSlot_in hg hm) h0
      · apply hne g hg m hm
        by_contra hc
        push Not at hc
        exact hgm hc
  · left
    apply allFiles_congr htype
    intro g hg hgd m hm
    apply hne g hg m hm
    left
    rintro rfl
    exact hdir hgd

/-- **`file_get_block` on a sound disk** leaves a sound disk, with the files
there were and perhaps the records of a new directory block. -/
theorem GotBlock.fetched (hgot : GotBlock (allFiles d) f n b d d') (h : Sound d)
    (hf : f ∈ allFiles d) (hn : n < NDIRECT + NINDIRECT) : Fetched f n b d d' := by
  have hfree := hgot.freeZero h hf
  rcases hgot.allFiles_eq h hf hn with heq | ⟨hdir, hzero, heq⟩
  · refine ⟨⟨?_, hfree⟩, hgot, by rw [heq], fun g hg _ => by rw [← heq]; exact hg⟩
    rw [heq]
    exact hgot.inv
  · refine ⟨⟨?_, hfree⟩, hgot, by rw [heq]; exact Set.subset_union_left, ?_⟩
    swap
    · intro g hg hd
      rw [heq] at hg
      rcases hg with hg | ⟨k, hk, rfl⟩
      · exact hg
      · have hz : fileType d' ⟨b, 64 * k⟩ = 0#32 := hzero _
        rw [hz] at hd
        exact absurd hd (by decide)
    rw [heq]
    have := hgot.inv.addRecords hf hdir hn hgot.set (by rw [hgot.block]; exact hzero)
    rw [hgot.block] at this
    exact this

/-! ## §4. Stores that keep the disk sound. -/

/-- A disk with the same slots, sizes, types and bitmap has the same files. -/
theorem SameMeta.allFiles_eq (hm : SameMeta (allFiles d) d d') : allFiles d' = allFiles d :=
  allFiles_congr (fun _ hg => hm.fileType_eq hg)
    (fun _ hg _ _ hn => hm.slot _ (fileSlot_in hg hn))

theorem Sound.of_sameMeta (h : Sound d) (hm : SameMeta (allFiles d) d d')
    (hfree : ∀ p < nblocks d, ¬ inUse d p → d' p = d p) : Sound d' := by
  refine ⟨?_, ?_⟩
  · rw [hm.allFiles_eq]
    exact h.inv.of_sameMeta hm
  · intro p hp hu i
    rw [hm.nblocks_eq] at hp
    have hud : ¬ inUse d p := by
      unfold inUse at hu ⊢
      rw [hm.bitmap p hp] at hu
      exact hu
    rw [hfree p hp hud]
    exact h.free p hp hud i

/-- What is stored in a data block of a regular file does not matter. -/
theorem Sound.writeData (h : Sound d) (hf : f ∈ allFiles d) (hreg : fileType d f ≠ FTYPE_DIR)
    (hn : n < NDIRECT + NINDIRECT) (h0 : slotVal d (fileSlot f n) ≠ 0#32)
    (heq : ∀ p, p ≠ (slotVal d (fileSlot f n)).toNat → d' p = d p) :
    SameMeta (allFiles d) d d' ∧ Sound d' := by
  have hm := h.inv.sameMeta_data hf hreg hn h0 heq
  refine ⟨hm, h.of_sameMeta hm fun p _ hfree => heq p ?_⟩
  rintro rfl
  exact hfree (h.inv.slot_inUse (fileSlot_in hf hn) h0)

/-- Nor does what is stored in the name of a file. -/
theorem Sound.writeName (h : Sound d) (hf : f ∈ allFiles d) {a : Nat} (ha : a < 32) (w : Word) :
    SameMeta (allFiles d) d (putWord d f.blk (f.idx + a) w) ∧
      Sound (putWord d f.blk (f.idx + a) w) := by
  obtain ⟨hrec, hind, h1, hbm⟩ := h.inv.putRecord hf (show a < 64 by omega) w
  have hm : SameMeta (allFiles d) d (putWord d f.blk (f.idx + a) w) := by
    refine ⟨⟨h1, ?_, fun g hg => hrec g hg 32 (by omega) (Or.inr (by omega)),
      fun g hg => hrec g hg 33 (by omega) (Or.inr (by omega))⟩, hbm⟩
    intro s hs
    exact slotVal_congr hs (fun c _ _ => hrec _ hs.mem c (by omega) (Or.inr (by omega)))
      fun h0 j _ => hind _ hs.mem h0 j
  refine ⟨hm, h.of_sameMeta hm fun p hp hfree => ?_⟩
  funext i
  apply putWord_of_ne
  left
  rintro rfl
  exact hfree (h.inv.record_inUse hf hp)

/-- Nor does a larger size. -/
theorem Sound.enlarge (h : Sound d) (hf : f ∈ allFiles d) {w : Word}
    (hw : w.toNat ≤ MAXFILESIZE) (hle : fileSize d f ≤ w.toNat) :
    Sound (putWord d f.blk f.fSize w) ∧ allFiles (putWord d f.blk f.fSize w) = allFiles d ∧
      (∀ s : BlockSlot, s.In (allFiles d) →
        slotVal (putWord d f.blk f.fSize w) s = slotVal d s) ∧
      (∀ g ∈ allFiles d, fileType (putWord d f.blk f.fSize w) g = fileType d g) ∧
      fileSize (putWord d f.blk f.fSize w) f = w.toNat ∧
      ∀ g ∈ allFiles d, g ≠ f → fileSize (putWord d f.blk f.fSize w) g = fileSize d g := by
  obtain ⟨-, -, h1, hbm⟩ := h.inv.putRecord hf (show 32 < 64 by omega) w
  obtain ⟨hinv, hslot, htype, hsize⟩ := h.inv.setSize hf hw (fun n hn hn' =>
    h.inv.tail f hf n hn (by
      unfold fileBlocks
      omega))
  have hall := allFiles_congr htype (fun g hg _ n hn => hslot _ (fileSlot_in hg hn))
  refine ⟨⟨by rw [hall]; exact hinv, ?_⟩, hall, hslot, htype,
    congrArg BitVec.toNat (putWord_same _ _ _ _), hsize⟩
  intro p hp hu i
  have hp' : p < nblocks d := by
    unfold nblocks at hp ⊢
    rw [← h1]
    exact hp
  have hud : ¬ inUse d p := by
    unfold inUse at hu ⊢
    rw [← hbm p hp']
    exact hu
  have hne : p ≠ f.blk := by
    rintro rfl
    exact hud (h.inv.record_inUse hf hp')
  rw [putWord_of_ne _ _ (Or.inl hne)]
  exact h.free p hp' hud i

end Jos
