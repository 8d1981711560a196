/-
  Jos.Fs.DirWalk — **LOOKING UP AND MAKING FILES IN GOOD DIRECTORIES.**

  The size of a good directory is a multiple of the block size, and all of its
  blocks have been allocated.  Looking up a path then changes nothing and cannot
  fail; making a file keeps all directories good, provided that the free blocks
  hold zeros: a block that is added to a directory is not cleared.
-/
import Jos.Fs.Bytes
import Jos.Fs.Create

namespace Jos

open Exec

variable {d d' t : Disk} {f g : FileP}

/-! ## §1. Good directories. -/

structure DirOk (d : Disk) : Prop where
  inv : Consistent d
  size : ∀ g ∈ allFiles d, fileType d g = FTYPE_DIR → fileSize d g % BLKSIZE = 0
  full : ∀ g ∈ allFiles d, fileType d g = FTYPE_DIR → ∀ n < fileBlocks d g,
    slotVal d (fileSlot g n) ≠ 0#32

/-- What the assertion in `dir_lookup` and `dir_alloc_file` says. -/
def dirAssert : String := "assertion failed: (dir->f_size % BLKSIZE) == 0"

section
variable (h : DirOk d)
include h

theorem dirNblock_ok (hg : g ∈ allFiles d) (hdir : fileType d g = FTYPE_DIR) :
    dirNblock g d = .ok (fileBlocks d g) d := by
  have hmax := h.inv.size_le g hg
  have hmod := h.size g hg hdir
  unfold MAXFILESIZE NDIRECT NINDIRECT BLKSIZE at hmax
  have hlt : (d g.blk g.fSize).toNat < 2 ^ 31 := by
    unfold fileSize at hmax
    omega
  have hrem : (d g.blk g.fSize).srem 4096#32 = 0#32 := by
    apply BitVec.eq_of_toNat_eq
    rw [srem_toNat hlt]
    exact hmod
  have hdiv : ((d g.blk g.fSize).sdiv 4096#32).toNat = fileBlocks d g := by
    rw [sdiv_toNat hlt]
    show fileSize d g / 4096 = (fileSize d g + 4095) / 4096
    unfold BLKSIZE at hmod
    omega
  unfold dirNblock
  rw [bind_ok (load_ok _ _ d), if_neg (by simpa using hrem), hdiv]
  rfl

theorem toNat_blockno (hg : g ∈ allFiles d) {i : Nat} (hi : i < fileBlocks d g) :
    (BitVec.ofNat 32 i).toNat = i := by
  have hmax := h.inv.block_lt hg hi
  rw [BitVec.toNat_ofNat]
  unfold NDIRECT NINDIRECT at hmax
  omega

/-- A block of a good directory is there. -/
theorem DirOk.getBlock (hg : g ∈ allFiles d) (hdir : fileType d g = FTYPE_DIR)
    {i : Nat} (hi : i < fileBlocks d g) :
    fileGetBlock g (BitVec.ofNat 32 i) d = .ok (.ok (slotVal d (fileSlot g i)).toNat) d := by
  have hmax := h.inv.block_lt hg hi
  have h0 := h.full g hg hdir i hi
  have hto := toNat_blockno h hg hi
  have hrun := @fileGetBlock_there d g (BitVec.ofNat 32 i)
  rw [hto] at hrun
  exact hrun hmax h0 (h.inv.slot_lt _ (fileSlot_in hg hmax) h0)
    (fun hge => h.inv.indirect_lt hg hge h0)

/-! ## §2. Looking up. -/

theorem scanDir_ok (hg : g ∈ allFiles d) (hdir : fileType d g = FTYPE_DIR)
    {test : FileP → FsM Bool} (htest : LooksAtName test) (n : Nat) :
    ∀ i, i + n ≤ fileBlocks d g → ∃ r, scanDir test g n i d = .ok (.ok r) d ∧
      ∀ x, r = some x → x ∈ allFiles d := by
  induction n with
  | zero => exact fun i _ => ⟨none, rfl, fun x hx => by cases hx⟩
  | succ n ih =>
    intro i hi
    have hlt : i < fileBlocks d g := by omega
    obtain ⟨r, hscan, hin⟩ := scanBlock_ok (d := d) htest (slotVal d (fileSlot g i)).toNat
      BLKFILES 0 (by decide)
    unfold scanDir
    rw [bind_ok (h.getBlock hg hdir hlt)]
    dsimp only
    rw [bind_ok hscan]
    cases r with
    | some x =>
      refine ⟨some x, rfl, fun y hy => ?_⟩
      cases hy
      exact recordsOf_subset hg hdir (h.inv.block_lt hg hlt) (h.full g hg hdir i hlt)
        (hin x rfl)
    | none => exact ih (i + 1) (by omega)

theorem dirLookup_ok (hg : g ∈ allFiles d) (hdir : fileType d g = FTYPE_DIR)
    {name : List Byte} (hname : name.length < MAXNAMELEN) :
    ∃ r, dirLookup g name d = .ok r d ∧ ∀ x, r = .ok x → x ∈ allFiles d := by
  obtain ⟨r, hscan, hin⟩ := scanDir_ok h hg hdir (strcmp_looksAtName hname) (fileBlocks d g) 0
    (by omega)
  unfold dirLookup
  rw [bind_ok (dirNblock_ok h hg hdir), bind_ok hscan]
  cases r with
  | none => exact ⟨_, rfl, fun x hx => by cases hx⟩
  | some x =>
    refine ⟨_, rfl, fun y hy => ?_⟩
    cases hy
    exact hin x rfl

end

/-- What a path names is a file, and it names something exactly if the walk
returns 0. -/
structure PathWalk.Good (w : PathWalk) (d : Disk) : Prop where
  ok : w.Ok d
  found : ∀ x, w.pf = some x → x ∈ allFiles d

/-- **A path walk in good directories** changes nothing and cannot fail. -/
theorem walkPathFrom_ok (h : DirOk d) (n : Nat) :
    ∀ (path : List Byte) (dir : Option FileP) (x : FileP), path.length ≤ n → x ∈ allFiles d →
      ∃ w, walkPathFrom dir x path d = .ok w d ∧ w.Good d := by
  have hnone : ∀ r : Word, (⟨r, none, none, []⟩ : PathWalk).Good d :=
    fun r => ⟨⟨Nat.zero_lt_succ _, fun _ _ hd => by cases hd⟩, fun x hx => by cases hx⟩
  have hself : ∀ (dir : Option FileP) (x : FileP), x ∈ allFiles d →
      (⟨0#32, dir, some x, []⟩ : PathWalk).Good d := by
    intro dir x hx
    refine ⟨⟨Nat.zero_lt_succ _, fun _ hr => absurd rfl hr⟩, fun y hy => ?_⟩
    cases hy
    exact hx
  induction n with
  | zero =>
    intro path dir x hlen hx
    obtain rfl := List.length_eq_zero_iff.mp (Nat.le_zero.mp hlen)
    unfold walkPathFrom
    exact ⟨_, rfl, hself dir x hx⟩
  | succ n ih =>
    intro path dir x hlen hx
    unfold walkPathFrom
    cases path with
    | nil => exact ⟨_, rfl, hself dir x hx⟩
    | cons c cs =>
      have hrest := length_rest c cs
      dsimp only
      by_cases hlong : MAXNAMELEN ≤ ((c :: cs).takeWhile (· ≠ slash)).length
      · rw [if_pos hlong]
        exact ⟨_, rfl, hnone _⟩
      rw [if_neg hlong]
      generalize (c :: cs).takeWhile (· ≠ slash) = name at hlong ⊢
      generalize skipSlash ((c :: cs).dropWhile (· ≠ slash)) = rest at hrest ⊢
      rw [bind_ok (load_ok _ _ d)]
      by_cases hdir : d x.blk x.fType ≠ FTYPE_DIR
      · rw [if_pos hdir]
        exact ⟨_, rfl, hnone _⟩
      rw [if_neg hdir]
      have hdx : fileType d x = FTYPE_DIR := Classical.not_not.mp hdir
      obtain ⟨r, hrun, hin⟩ := dirLookup_ok h hx hdx (show name.length < _ by omega)
      rw [bind_ok hrun]
      rcases r with e | y
      · dsimp only
        by_cases hlast : e = -E_NOT_FOUND ∧ rest = []
        · rw [if_pos hlast]
          refine ⟨_, rfl, ⟨by show name.length < _; omega, fun dir _ hd => ?_⟩,
            fun x hx => by cases hx⟩
          cases hd
          exact ⟨hx, hdx⟩
        · rw [if_neg hlast]
          exact ⟨_, rfl, hnone _⟩
      · refine ih rest (some x) y ?_ (hin y rfl)
        omega

theorem walkPath_ok (h : DirOk d) (path : List Byte) : ∃ w, walkPath path d = .ok w d ∧ w.Good d :=
  walkPathFrom_ok h _ _ none sRoot le_rfl .root

/-! ## §3. What does not raise the assertion. -/

instance truePreorder (σ : Type) : IsPreorder σ (fun _ _ => True) where
  refl _ := trivial
  trans _ _ _ _ _ := trivial

/-- The code does not stop at the assertion. -/
abbrev Calm {α : Type} (m : FsM α) : Prop := Keeps (fun _ _ => True) (· ≠ dirAssert) m

theorem calm_diskaddr (w : Word) : Calm (diskaddr w) := by
  intro d
  refine wp_bind_ok (sNblocks_ok d) ?_
  split
  · exact ⟨by decide, trivial⟩
  · trivial

theorem calm_load (b i : Nat) : Calm (load b i) := fun _ => trivial

theorem calm_store (b i : Nat) (w : Word) : Calm (store b i w) := fun _ => trivial

theorem calm_blockIsFree (w : Word) : Calm (blockIsFree w) := by
  intro d
  refine wp_bind_ok (sNblocks_ok d) ?_
  split
  · trivial
  · exact wp_bind_ok (load_ok _ _ d) trivial

theorem calm_allocBlock : Calm allocBlock := by
  have hfrom : ∀ n i, Calm (allocBlockFrom n i) := by
    intro n
    induction n with
    | zero => exact fun i => keeps_pure _
    | succ n ih =>
      intro i
      refine (calm_blockIsFree _).bind fun b => keeps_ite ?_ (ih (i + 1))
      refine (calm_load _ _).bind fun w => (calm_store _ _ _).bind fun _ => ?_
      exact (calm_diskaddr _).bind fun _ => keeps_pure _
  exact (calm_load 1 1).bind fun n => hfrom _ _

theorem calm_fileGetBlock (f : FileP) (filebno : Word) : Calm (fileGetBlock f filebno) := by
  have hwalk : Calm (fileBlockWalk f filebno true) := by
    refine keeps_ite (keeps_pure _) (keeps_ite ?_ (keeps_pure _))
    refine (calm_load _ _).bind fun ind => keeps_ite ?_ (keeps_ite ?_ (keeps_pure _))
    · exact (calm_diskaddr _).bind fun b => keeps_pure _
    · refine calm_allocBlock.bind fun blockno => (calm_diskaddr _).bind fun b => ?_
      refine Keeps.bind (fun _ => trivial) fun _ => (calm_store _ _ _).bind fun _ => ?_
      exact (calm_load _ _).bind fun ind => (calm_diskaddr _).bind fun b => keeps_pure _
  refine hwalk.bind fun r => ?_
  cases r with
  | error r => exact keeps_pure _
  | ok loc =>
    have hend : Calm (do return .ok (← diskaddr (← load loc.1 loc.2)) : FsM (Except Word Nat)) :=
      (calm_load _ _).bind fun w => (calm_diskaddr w).bind fun b => keeps_pure _
    refine (calm_load _ _).bind fun w => ?_
    by_cases hw : w = 0#32
    · rw [if_pos hw]
      exact calm_allocBlock.bind fun blockno => (calm_store _ _ _).bind fun _ => hend
    · rw [if_neg hw]
      exact hend

theorem calm_diskByte (a : Nat) : Calm (diskByte a) := fun _ => trivial

theorem calm_diskBytes (n : Nat) : ∀ a, Calm (diskBytes a n) := by
  induction n with
  | zero => exact fun _ => keeps_pure _
  | succ n ih =>
    exact fun a => (calm_diskByte a).bind fun x => (ih (a + 1)).bind fun xs => keeps_pure _

theorem calm_putDiskBytes (xs : List Byte) : ∀ a, Calm (putDiskBytes a xs) := by
  induction xs with
  | nil => exact fun _ => keeps_pure _
  | cons x xs ih =>
    intro a
    exact Keeps.bind ((calm_load _ _).bind fun w => calm_store _ _ _) fun _ => ih (a + 1)

theorem calm_freeBlock (w : Word) : Calm (freeBlock w) := by
  refine keeps_ite (keeps_throw _ (by decide)) ?_
  exact (calm_load _ _).bind fun w => calm_store _ _ _

theorem calm_fileFreeBlock (f : FileP) (filebno : Word) : Calm (fileFreeBlock f filebno) := by
  have hwalk : Calm (fileBlockWalk f filebno false) := by
    refine keeps_ite (keeps_pure _) (keeps_ite ?_ (keeps_pure _))
    refine (calm_load _ _).bind fun ind => keeps_ite ?_ (keeps_pure _)
    exact (calm_diskaddr _).bind fun b => keeps_pure _
  refine hwalk.bind fun r => ?_
  cases r with
  | error r => exact keeps_pure _
  | ok loc =>
    refine (calm_load _ _).bind fun ptr => ?_
    by_cases h0 : ptr ≠ 0#32
    · rw [if_pos h0]
      exact (calm_freeBlock _).bind fun _ => (calm_store _ _ _).bind fun _ => keeps_pure _
    · rw [if_neg h0]
      exact keeps_pure _

theorem calm_fileSetSize (f : FileP) (newsize : Word) : Calm (fileSetSize f newsize) := by
  have htrunc : Calm (fileTruncateBlocks f newsize) := by
    refine (calm_load _ _).bind fun size => ?_
    refine (keeps_forUp (fun i => (calm_fileFreeBlock _ _).bind fun _ => keeps_pure _) _ _).bind
      fun _ => keeps_ite ?_ (keeps_pure _)
    refine (calm_load _ _).bind fun ind => keeps_ite ?_ (keeps_pure _)
    exact (calm_freeBlock _).bind fun _ => calm_store _ _ _
  have hend : Calm (do
      store f.blk f.fSize newsize
      return 0#32 : FsM Word) := (calm_store _ _ _).bind fun _ => keeps_pure _
  refine (calm_load _ _).bind fun size => ?_
  by_cases hlt : newsize.slt size = true
  · rw [if_pos hlt]
    exact htrunc.bind fun _ => hend
  · rw [if_neg hlt]
    exact hend

/-! ## §4. Making a file. -/

/-- The files there were are still there, with their types. -/
structure Later (d t : Disk) : Prop where
  nblocks : t 1 1 = d 1 1
  files : allFiles d ⊆ allFiles t
  type : ∀ g ∈ allFiles d, fileType t g = fileType d g

theorem Later.refl (d : Disk) : Later d d := ⟨rfl, Set.Subset.refl _, fun _ _ => rfl⟩

theorem Later.trans {u : Disk} (h : Later d t) (h' : Later t u) : Later d u :=
  ⟨h'.nblocks.trans h.nblocks, h.files.trans h'.files, fun g hg =>
    (h'.type g (h.files hg)).trans (h.type g hg)⟩

/-- Stores that change no size, type or slot keep directories good. -/
theorem DirOk.of_sameMeta (h : DirOk d) (hm : SameMeta (allFiles d) d d') :
    DirOk d' ∧ Later d d' := by
  have hall := hm.allFiles_eq
  refine ⟨⟨?_, ?_, ?_⟩, hm.nblocks, by rw [hall], fun g hg => hm.fileType_eq hg⟩
  · show FsInv _ _ _
    rw [hall]
    exact h.inv.of_sameMeta hm
  · intro g hg hdir
    rw [hall] at hg
    rw [hm.fileSize_eq hg]
    exact h.size g hg (by rw [← hm.fileType_eq hg]; exact hdir)
  · intro g hg hdir n hn
    rw [hall] at hg
    rw [hm.fileBlocks_eq hg] at hn
    rw [hm.slot _ (fileSlot_in hg (h.inv.block_lt hg hn))]
    exact h.full g hg (by rw [← hm.fileType_eq hg]; exact hdir) n hn

/-- The directory `g` is larger by a block: `dir->f_size += BLKSIZE`. -/
def grown (d : Disk) (g : FileP) : Disk := putWord d g.blk g.fSize (d g.blk g.fSize + 4096#32)

section
variable (h : DirOk d)
include h

/-- The disk with the larger directory. -/
theorem grown_spec (hz : FreeZero d) (hg : g ∈ allFiles d)
    (hroom : fileSize d g + BLKSIZE ≤ MAXFILESIZE) :
    Sound (grown d g) ∧ allFiles (grown d g) = allFiles d ∧
      (∀ s : BlockSlot, s.In (allFiles d) → slotVal (grown d g) s = slotVal d s) ∧
      (∀ h ∈ allFiles d, fileType (grown d g) h = fileType d h) ∧
      fileSize (grown d g) g = fileSize d g + 4096 ∧
      ∀ h ∈ allFiles d, h ≠ g → fileSize (grown d g) h = fileSize d h := by
  have hto : (d g.blk g.fSize + 4096#32).toNat = fileSize d g + 4096 := by
    show ((d g.blk g.fSize).toNat + 4096) % 2 ^ 32 = (d g.blk g.fSize).toNat + 4096
    unfold fileSize MAXFILESIZE NDIRECT NINDIRECT BLKSIZE at hroom
    omega
  have hs : Sound d := ⟨h.inv, hz⟩
  obtain ⟨hv, hall, hslot, htype, hnew, hother⟩ := hs.enlarge hg
    (w := d g.blk g.fSize + 4096#32) (by rw [hto]; exact hroom) (by omega)
  rw [hto] at hnew
  exact ⟨hv, hall, hslot, htype, hnew, hother⟩

/-- **`dir_alloc_file`** in a good directory. -/
theorem dirAllocFile_spec (hz : FreeZero d) (hg : g ∈ allFiles d)
    (hdir : fileType d g = FTYPE_DIR) (hroom : fileSize d g + BLKSIZE ≤ MAXFILESIZE) :
    wp (dirAllocFile g)
      (fun r t => DirOk t ∧ FreeZero t ∧ Later d t ∧ ∀ x, r = .ok x → x ∈ allFiles t)
      (fun e _ => e ≠ dirAssert) d := by
  obtain ⟨r, hscan, hin⟩ := scanDir_ok h hg hdir unused_looksAtName (fileBlocks d g) 0 (by omega)
  refine wp_bind_ok (dirNblock_ok h hg hdir) (wp_bind_ok hscan ?_)
  cases r with
  | some x =>
    refine ⟨h, hz, Later.refl d, fun y hy => ?_⟩
    cases hy
    exact hin x rfl
  | none =>
    -- the directory grows by one block
    have hmod := h.size g hg hdir
    obtain ⟨hv, hall, hslot, htype, hnew, hother⟩ := grown_spec h hz hg hroom
    obtain ⟨-, -, h1, -⟩ := h.inv.putRecord hg (show 32 < 64 by omega)
      (d g.blk g.fSize + 4096#32)
    refine wp_bind_ok (load_ok _ _ d) (wp_bind_ok (store_ok _ _ _ d) ?_)
    change wp _ _ _ (grown d g)
    change grown d g 1 1 = _ at h1
    generalize grown d g = v at *
    have hgv : g ∈ allFiles v := by
      rw [hall]
      exact hg
    have hdv : fileType v g = FTYPE_DIR := (htype g hg).trans hdir
    have hblk : fileBlocks d g < fileBlocks v g := by
      unfold fileBlocks
      omega
    have hmax := hv.inv.block_lt hgv hblk
    have hton : (BitVec.ofNat 32 (fileBlocks d g)).toNat = fileBlocks d g := by
      rw [BitVec.toNat_ofNat]
      unfold NDIRECT NINDIRECT at hmax
      omega
    have hget := fileGetBlock_spec hv.inv hgv
      (show (BitVec.ofNat 32 (fileBlocks d g)).toNat < fileBlocks v g by rw [hton]; exact hblk)
    rw [hton] at hget
    refine wp_seq (wp_mono (wp_and hget (calm_fileGetBlock _ _ v)) (fun _ _ h => h.1)
      (fun _ _ h => h.2.1)) ?_
    rintro r w ⟨b, rfl, hgot⟩
    have hft := hgot.fetched hv hgv hmax
    have hon := hft.onward
    have hlater : Later d w := by
      refine ⟨hgot.grows.nblocks.trans h1, by rw [← hall]; exact hft.files, fun x hx => ?_⟩
      rw [hon.type x (by rw [hall]; exact hx), htype x hx]
    refine ⟨⟨hft.sound.inv, ?_, ?_⟩, hft.sound.free, hlater, ?_⟩
    · intro x hx hxd
      have hxv := hon.dirs x hx hxd
      rw [hon.size x hxv]
      rw [hall] at hxv
      by_cases hxg : x = g
      · rw [hxg, hnew]
        unfold BLKSIZE at hmod ⊢
        omega
      · rw [hother x hxv hxg]
        exact h.size x hxv (by rw [← hlater.type x hxv]; exact hxd)
    · intro x hx hxd n hn
      have hxv := hon.dirs x hx hxd
      have hxd' := hxv
      rw [hall] at hxd'
      have hfb : fileBlocks w x = fileBlocks v x := hgot.grows.fileBlocks_eq hxv
      rw [hfb] at hn
      have hmaxx := hv.inv.block_lt hxv hn
      have hdirx : fileType d x = FTYPE_DIR := by
        rw [← hlater.type x hxd']
        exact hxd
      -- a slot that was set is kept, and the slot of the new block is set now
      have hold : n < fileBlocks d x → slotVal w (fileSlot x n) ≠ 0#32 := by
        intro hnd
        have h0 := h.full x hxd' hdirx n hnd
        have hsv := hslot _ (fileSlot_in hxd' hmaxx)
        rw [hgot.grows.kept _ (fileSlot_in hxv hmaxx) (by rw [hsv]; exact h0), hsv]
        exact h0
      by_cases hxg : x = g
      · subst hxg
        by_cases hnd : n < fileBlocks d x
        · exact hold hnd
        · have hnn : n = fileBlocks d x := by
            unfold fileBlocks at hn hnd ⊢
            omega
          rw [hnn]
          exact hgot.set
      · apply hold
        have hsz := hother x hxd' hxg
        unfold fileBlocks at hn ⊢
        rw [← hsz]
        exact hn
    · intro y hy
      cases hy
      have hsub := recordsOf_subset (hft.files hgv) (by rw [hon.type g hgv]; exact hdv)
        hmax hgot.set
      rw [hgot.block] at hsub
      exact hsub ⟨0, by decide, rfl⟩

/-- **`file_create`** keeps directories good. -/
theorem fileCreate_spec (hz : FreeZero d) (hroom : DirRoom d) (path : List Byte) :
    wp (fileCreate path)
      (fun r t => DirOk t ∧ Later d t ∧ ∀ x, r.2 = some x → x ∈ allFiles t)
      (fun e _ => e ≠ dirAssert) d := by
  obtain ⟨w, hwalk, hgood⟩ := walkPath_ok h path
  have hnone : ∀ r : Word, DirOk d ∧ Later d d ∧ ∀ x, (r, (none : Option FileP)).2 = some x →
      x ∈ allFiles d := fun r => ⟨h, Later.refl d, fun x hx => by cases hx⟩
  refine wp_bind_ok hwalk ?_
  by_cases h0 : w.ret = 0#32
  · rw [if_pos h0]
    exact hnone _
  rw [if_neg h0]
  cases hp : w.pdir with
  | none => exact hnone _
  | some dir =>
    obtain ⟨hdt, hdir⟩ := hgood.ok.2 dir h0 hp
    dsimp only
    by_cases hnf : w.ret ≠ -E_NOT_FOUND
    · rw [if_pos hnf]
      exact hnone _
    rw [if_neg hnf]
    refine wp_seq (dirAllocFile_spec h hz hdt hdir (hroom dir hdt hdir)) ?_
    rintro r t ⟨ht, htz, hlater, hin⟩
    rcases r with e | x
    · exact ⟨ht, hlater, fun x hx => by cases hx⟩
    · have hx := hin x rfl
      have hname := putName_spec (w.lastelem ++ [0#8]) 0 t ⟨ht.inv, htz⟩ hx (by
        have := hgood.ok.1
        rw [List.length_append, List.length_singleton]
        omega)
      rw [Nat.add_zero] at hname
      refine wp_seq (wp_mono hname (fun _ _ h => h) (fun _ _ h => h.elim)) ?_
      rintro _ u ⟨-, hm⟩
      obtain ⟨hu, hlater'⟩ := ht.of_sameMeta hm
      refine ⟨hu, hlater.trans hlater', fun y hy => ?_⟩
      cases hy
      exact hlater'.files hx

/-! ## §5. Sizes of regular files. -/

/-- Changing the size of a regular file keeps directories good. -/
theorem DirOk.of_resized (hf : f ∈ allFiles d) (hreg : fileType d f ≠ FTYPE_DIR)
    (hinv : FsInv (allFiles d) ∅ d') (hr : Resized (allFiles d) f d d') :
    DirOk d' ∧ Later d d' ∧ allFiles d' = allFiles d := by
  have hne : ∀ g, fileType d g = FTYPE_DIR → g ≠ f := by
    rintro g hdir rfl
    exact hreg hdir
  have hslot : ∀ g ∈ allFiles d, fileType d g = FTYPE_DIR → ∀ n < NDIRECT + NINDIRECT,
      slotVal d' (fileSlot g n) = slotVal d (fileSlot g n) := by
    intro g hg hdir n hn
    refine hr.other _ (fileSlot_in hg hn) ?_
    rw [fileSlot_file]
    exact hne g hdir
  have hall := allFiles_congr hr.type hslot
  refine ⟨⟨?_, ?_, ?_⟩, ⟨hr.nblocks, by rw [hall], hr.type⟩, hall⟩
  · show FsInv _ _ _
    rw [hall]
    exact hinv
  · intro g hg hdir
    rw [hall] at hg
    rw [hr.type g hg] at hdir
    rw [hr.size g hg (hne g hdir)]
    exact h.size g hg hdir
  · intro g hg hdir n hn
    rw [hall] at hg
    rw [hr.type g hg] at hdir
    have hn' : n < fileBlocks d g := by
      unfold fileBlocks at hn ⊢
      rw [hr.size g hg (hne g hdir)] at hn
      exact hn
    rw [hslot g hg hdir n (h.inv.block_lt hg hn')]
    exact h.full g hg hdir n hn'

/-- New blocks of a file keep directories good: a directory has no holes. -/
theorem DirOk.of_grows (hinv : FsInv (allFiles d) ∅ d')
    (hg : Grows (allFiles d) f d d') : DirOk d' ∧ Later d d' := by
  have hslot : ∀ g ∈ allFiles d, fileType d g = FTYPE_DIR → ∀ n < NDIRECT + NINDIRECT,
      slotVal d' (fileSlot g n) = slotVal d (fileSlot g n) := by
    intro g hgf hdir n hn
    have hin := fileSlot_in hgf hn
    by_cases hlt : n < fileBlocks d g
    · exact hg.kept _ hin (h.full g hgf hdir n hlt)
    · -- past the end there is nothing, before and after
      rw [h.inv.tail g hgf n hn (Nat.not_lt.mp hlt)]
      refine hinv.tail g hgf n hn ?_
      rw [hg.fileBlocks_eq hgf]
      exact Nat.not_lt.mp hlt
  have hall := allFiles_congr (fun g hgf => hg.fileType_eq hgf) hslot
  refine ⟨⟨?_, ?_, ?_⟩, hg.nblocks, by rw [hall], fun g hgf => hg.fileType_eq hgf⟩
  · show FsInv _ _ _
    rw [hall]
    exact hinv
  · intro g hgf hdir
    rw [hall] at hgf
    rw [hg.fileType_eq hgf] at hdir
    rw [hg.fileSize_eq hgf]
    exact h.size g hgf hdir
  · intro g hgf hdir n hn
    rw [hall] at hgf
    rw [hg.fileType_eq hgf] at hdir
    rw [hg.fileBlocks_eq hgf] at hn
    rw [hslot g hgf hdir n (h.inv.block_lt hgf hn)]
    exact h.full g hgf hdir n hn

end

end Jos
