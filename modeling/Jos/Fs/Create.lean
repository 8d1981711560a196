/-
  Jos.Fs.Create — **`file_create` ON TWO DISKS THAT ARE ALIKE.**

  Looking up a path loads file records and the blocks of directories, never the
  data of a regular file; so both runs walk the same way, find or make the same
  entry, and stay alike.
-/
import Jos.Fs.Alike

namespace Jos

open Exec

variable {d d' t t' : Disk} {f g : FileP} {X : Set Nat}

/-! ## §1. Entries. -/

/-- The name of a record lies in the block of the record. -/
theorem fName_in_block {x : FileP} (hx : x.idx ≤ 960) {k : Nat} (hk : k < MAXNAMELEN) :
    (x.fName + k) / BLKSIZE = x.blk := by
  unfold FileP.fName BLKSIZE
  unfold MAXNAMELEN at hk
  omega

/-- A test of an entry that only looks at its name. -/
def LooksAtName (test : FileP → FsM Bool) : Prop :=
  ∀ (x : FileP) (X : Set Nat) (d : Disk), x.idx ≤ 960 → x.blk ∉ X →
    Sync X (test x) d ∧ ∃ r, test x d = .ok r d

theorem strcmp_ok (name : List Byte) : ∀ (a : Nat) (d : Disk), ∃ r, strcmp a name d = .ok r d := by
  induction name with
  | nil =>
    intro a d
    exact ⟨_, rfl⟩
  | cons x xs ih =>
    intro a d
    unfold strcmp
    rw [bind_ok (show diskByte a d = .ok _ d from rfl)]
    split
    · exact ih (a + 1) d
    · exact ⟨_, rfl⟩

theorem strcmp_looksAtName {name : List Byte} (hname : name.length < MAXNAMELEN) :
    LooksAtName fun x => strcmp x.fName name := by
  intro x X d hx hX
  refine ⟨?_, strcmp_ok name _ d⟩
  apply sync_strcmp
  intro k hk
  rw [fName_in_block hx (by omega)]
  exact hX

theorem unused_looksAtName : LooksAtName fun x => do return (← diskByte x.fName) = 0#8 := by
  intro x X d hx hX
  refine ⟨?_, _, rfl⟩
  refine Sync.bind (sync_diskByte ?_) (fun _ _ _ => sync_pure _)
  have := fName_in_block hx (k := 0) (by decide)
  rw [Nat.add_zero] at this
  rw [this]
  exact hX

section

variable {test : FileP → FsM Bool} (htest : LooksAtName test)
include htest

theorem sync_scanBlock {b : Nat} (hb : b ∉ X) (n : Nat) :
    ∀ j, j + n ≤ 16 → Sync X (scanBlock test b n j) d := by
  induction n with
  | zero =>
    intro j _
    exact sync_pure _
  | succ n ih =>
    intro j hj
    obtain ⟨hsync, r, hrun⟩ := htest ⟨b, 64 * j⟩ X d (by show 64 * j ≤ 960; omega) hb
    apply hsync.bind
    intro r' u hrun'
    rw [hrun] at hrun'
    cases hrun'
    apply sync_ite
    · intro _
      exact sync_pure _
    · intro _
      exact ih (j + 1) (by omega)

/-- A scan leaves the disk alone and finds one of the 16 records. -/
theorem scanBlock_ok (b n : Nat) :
    ∀ j, j + n ≤ 16 → ∃ r, scanBlock test b n j d = .ok r d ∧ ∀ x, r = some x →
      x ∈ recordsOf b := by
  induction n with
  | zero =>
    intro j _
    exact ⟨none, rfl, fun x hx => by cases hx⟩
  | succ n ih =>
    intro j hj
    obtain ⟨-, r, hrun⟩ := htest ⟨b, 64 * j⟩ ∅ d (by show 64 * j ≤ 960; omega) (Set.notMem_empty b)
    unfold scanBlock
    rw [bind_ok hrun]
    split
    · refine ⟨_, rfl, fun x hx => ?_⟩
      cases hx
      exact ⟨j, by omega, rfl⟩
    · exact ih (j + 1) (by omega)

end

/-! ## §2. Scanning a directory. -/

/-- `t` has the files of `d` with their sizes and types, and no new directory. -/
structure Onward (d t : Disk) : Prop where
  files : allFiles d ⊆ allFiles t
  size : ∀ g ∈ allFiles d, fileSize t g = fileSize d g
  type : ∀ g ∈ allFiles d, fileType t g = fileType d g
  dirs : ∀ g ∈ allFiles t, fileType t g = FTYPE_DIR → g ∈ allFiles d

theorem Onward.refl (d : Disk) : Onward d d :=
  ⟨Set.Subset.refl _, fun _ _ => rfl, fun _ _ => rfl, fun _ hg _ => hg⟩

theorem Onward.trans {u : Disk} (h : Onward d t) (h' : Onward t u) : Onward d u := by
  refine ⟨h.files.trans h'.files, ?_, ?_, ?_⟩
  · intro g hg
    rw [h'.size g (h.files hg), h.size g hg]
  · intro g hg
    rw [h'.type g (h.files hg), h.type g hg]
  · intro g hg hd
    have ht := h'.dirs g hg hd
    apply h.dirs g ht
    rw [← h'.type g ht]
    exact hd

theorem Fetched.onward {n b : Nat} (h : Fetched g n b d t) : Onward d t :=
  ⟨h.files, fun _ hx => h.got.grows.fileSize_eq hx, fun _ hx => h.got.grows.fileType_eq hx, h.dirs⟩

/-- The records of a block of a directory are files. -/
theorem recordsOf_subset (hg : g ∈ allFiles d) (hdir : fileType d g = FTYPE_DIR) {n : Nat}
    (hn : n < NDIRECT + NINDIRECT) (h0 : slotVal d (fileSlot g n) ≠ 0#32) :
    recordsOf (slotVal d (fileSlot g n)).toNat ⊆ allFiles d := by
  intro x ⟨k, hk, hx⟩
  rw [hx]
  exact .entry hg hdir hn h0 hk

theorem scanDir_rel {test : FileP → FsM Bool} (htest : LooksAtName test) (n : Nat) :
    ∀ (i : Nat) (d d' : Disk), Alike f d d' → g ∈ allFiles d → fileType d g = FTYPE_DIR →
      i + n ≤ fileBlocks d g →
      Rel (fun r r' t t' => r = r' ∧ Alike f t t' ∧ Onward d t ∧
          ∀ x, r = .ok (some x) → x ∈ allFiles t)
        (scanDir test g n i) (scanDir test g n i) d d' := by
  induction n with
  | zero =>
    intro i d d' h _ _ _
    exact rel_pure ⟨rfl, h, Onward.refl d, fun x hx => by cases hx⟩
  | succ n ih =>
    intro i d d' h hg hdir hi
    have hlt : i < fileBlocks d g := by omega
    have hmax := h.left.inv.block_lt hg hlt
    have hto : (BitVec.ofNat 32 i).toNat = i := by
      rw [BitVec.toNat_ofNat]
      unfold NDIRECT NINDIRECT at hmax
      omega
    refine rel_bind (fetch_rel h hg (by rw [hto]; exact hlt)) ?_
    intro r t r' t' _ _ hr
    obtain ⟨b, rfl, rfl, hal, hft⟩ := hr
    rw [hto] at hft
    have hgt := hft.files hg
    have hdt : fileType t g = FTYPE_DIR := by
      rw [hft.onward.type g hg]
      exact hdir
    -- the block of a directory is no data block of a regular file
    have hnot := notMem_dataOf (f := f) hal.left.inv hgt (Or.inr hdt) hmax hft.got.set
    rw [hft.got.block] at hnot
    have hscan : Rel (fun r r' u u' => r = r' ∧ u = t ∧ u' = t' ∧ ∀ x, r = some x → x ∈ allFiles t)
        (scanBlock test b BLKFILES 0) (scanBlock test b BLKFILES 0) t t' := by
      intro r u r' u' hu hu'
      obtain ⟨s, hs, hrec⟩ := scanBlock_ok (d := t) htest b BLKFILES 0 (by decide)
      obtain ⟨s', hs', -⟩ := scanBlock_ok (d := t') htest b BLKFILES 0 (by decide)
      have heq := (sync_scanBlock htest hnot BLKFILES 0 (by decide) t' hal.agree
        _ _ _ _ hu hu').1
      rw [hs] at hu
      rw [hs'] at hu'
      cases hu
      cases hu'
      refine ⟨heq, rfl, rfl, fun x hx => ?_⟩
      have hsub := recordsOf_subset hgt hdt hmax hft.got.set
      rw [hft.got.block] at hsub
      exact hsub (hrec x hx)
    refine rel_bind hscan ?_
    intro r u r' u' _ _ hr
    obtain ⟨rfl, rfl, rfl, hin⟩ := hr
    cases r with
    | some x =>
      refine rel_pure ⟨rfl, hal, hft.onward, fun y hy => ?_⟩
      cases hy
      exact hin x rfl
    | none =>
      refine rel_mono (ih (i + 1) _ _ hal hgt hdt ?_) ?_
      · rw [hft.got.grows.fileBlocks_eq hg]
        omega
      · intro r r' v v' hv
        obtain ⟨heq, hal', hon, hx⟩ := hv
        exact ⟨heq, hal', hft.onward.trans hon, hx⟩

/-- The number of blocks of a directory. -/
theorem dirNblock_spec (h : FsInv (allFiles d) ∅ d) (hg : g ∈ allFiles d) :
    wp (dirNblock g) (fun n u => u = d ∧ n = fileBlocks d g ∧ fileSize d g = 4096 * n)
      (fun _ _ => True) d := by
  have hmax := h.size_le g hg
  unfold MAXFILESIZE NDIRECT NINDIRECT BLKSIZE at hmax
  have hlt : (d g.blk g.fSize).toNat < 2 ^ 31 := by
    unfold fileSize at hmax
    omega
  refine wp_bind_ok (load_ok _ _ d) ?_
  by_cases hrem : (d g.blk g.fSize).srem 4096#32 = 0#32
  · rw [if_neg (by simpa using hrem)]
    have hr := congrArg BitVec.toNat hrem
    rw [srem_toNat hlt] at hr
    replace hr : fileSize d g % 4096 = 0 := hr
    rw [sdiv_toNat hlt]
    show d = d ∧ fileSize d g / 4096 = (fileSize d g + 4095) / 4096 ∧
      fileSize d g = 4096 * (fileSize d g / 4096)
    exact ⟨rfl, by omega, by omega⟩
  · rw [if_pos hrem]
    trivial

theorem dirNblock_rel (h : Alike f d d') (hg : g ∈ allFiles d) :
    Rel (fun n n' u u' => n' = n ∧ u = d ∧ u' = d' ∧ n = fileBlocks d g ∧ fileSize d g = 4096 * n)
      (dirNblock g) (dirNblock g) d d' := by
  intro n u n' u' hrun hrun'
  have hg' : g ∈ allFiles d' := by
    rw [h.allFiles_eq]
    exact hg
  obtain ⟨rfl, hn, hs⟩ := wp_ok (dirNblock_spec h.left.inv hg) hrun
  obtain ⟨rfl, hn', -⟩ := wp_ok (dirNblock_spec h.right.inv hg') hrun'
  rw [h.sameMeta.fileBlocks_eq hg] at hn'
  exact ⟨by omega, rfl, rfl, hn, hs⟩

/-! ## §3. Looking up, making an entry. -/

theorem dirLookup_rel (h : Alike f d d') (hg : g ∈ allFiles d) (hdir : fileType d g = FTYPE_DIR)
    {name : List Byte} (hname : name.length < MAXNAMELEN) :
    Rel (fun r r' t t' => r = r' ∧ Alike f t t' ∧ Onward d t ∧ ∀ x, r = .ok x → x ∈ allFiles t)
      (dirLookup g name) (dirLookup g name) d d' := by
  refine rel_bind (dirNblock_rel h hg) ?_
  intro n u n' u' _ _ hn
  obtain ⟨rfl, rfl, rfl, hn, -⟩ := hn
  refine rel_bind (scanDir_rel (strcmp_looksAtName hname) _ 0 _ _ h hg hdir (by omega)) ?_
  intro r t r' t' _ _ hr
  obtain ⟨rfl, hal, hon, hx⟩ := hr
  rcases r with e | x
  · exact rel_pure ⟨rfl, hal, hon, fun x hx => by cases hx⟩
  · cases x with
    | none => exact rel_pure ⟨rfl, hal, hon, fun x hx => by cases hx⟩
    | some x =>
      refine rel_pure ⟨rfl, hal, hon, fun y hy => ?_⟩
      cases hy
      exact hx x rfl

theorem dirAllocFile_rel (h : Alike f d d') (hg : g ∈ allFiles d) (hdir : fileType d g = FTYPE_DIR)
    (hroom : fileSize d g + BLKSIZE ≤ MAXFILESIZE) :
    Rel (fun r r' t t' => r = r' ∧ Alike f t t' ∧ ∀ x, r = .ok x → x ∈ allFiles t)
      (dirAllocFile g) (dirAllocFile g) d d' := by
  refine rel_bind (dirNblock_rel h hg) ?_
  intro n u n' u' _ _ hn
  obtain ⟨rfl, rfl, rfl, hn, hsize⟩ := hn
  refine rel_bind (scanDir_rel unused_looksAtName _ 0 _ _ h hg hdir (by omega)) ?_
  intro r t r' t' _ _ hr
  obtain ⟨rfl, hal, hon, hx⟩ := hr
  rcases r with e | x
  · exact rel_pure ⟨rfl, hal, fun x hx => by cases hx⟩
  cases x with
  | some x =>
    refine rel_pure ⟨rfl, hal, fun y hy => ?_⟩
    cases hy
    exact hx x rfl
  | none =>
    -- the directory grows by one block
    have hgt := hon.files hg
    refine rel_load (hal.record hgt) ?_
    have hst : fileSize t g = 4096 * n' := by
      rw [hon.size g hg]
      exact hsize
    have hto : (t g.blk g.fSize + 4096#32).toNat = fileSize t g + 4096 := by
      show ((t g.blk g.fSize).toNat + 4096) % 2 ^ 32 = (t g.blk g.fSize).toNat + 4096
      rw [← hon.size g hg] at hroom
      unfold fileSize MAXFILESIZE NDIRECT NINDIRECT BLKSIZE at hroom
      omega
    have hw : (t g.blk g.fSize + 4096#32).toNat ≤ MAXFILESIZE := by
      rw [hto, hon.size g hg]
      exact hroom
    have hle : fileSize t g ≤ (t g.blk g.fSize + 4096#32).toNat := by omega
    obtain ⟨-, hall, -, htype, hnew, -⟩ := hal.left.enlarge hgt hw hle
    have hal₂ := hal.enlarge hgt hw hle
    refine rel_bind (rel_of_ok (store_ok _ _ _ t) (store_ok _ _ _ t')
      (Q := fun _ _ v v' => v = putWord t g.blk g.fSize (t g.blk g.fSize + 4096#32) ∧
        v' = putWord t' g.blk g.fSize (t g.blk g.fSize + 4096#32)) ⟨rfl, rfl⟩) ?_
    intro _ v _ v' _ _ hv
    obtain ⟨rfl, rfl⟩ := hv
    generalize putWord t g.blk g.fSize (t g.blk g.fSize + 4096#32) = v at *
    generalize putWord t' g.blk g.fSize (t g.blk g.fSize + 4096#32) = v' at *
    have hgv : g ∈ allFiles v := by
      rw [hall]
      exact hgt
    have hdv : fileType v g = FTYPE_DIR := by
      rw [htype g hgt, hon.type g hg]
      exact hdir
    have hblk : n' < fileBlocks v g := by
      unfold fileBlocks
      omega
    have hmax := hal₂.left.inv.block_lt hgv hblk
    have hton : (BitVec.ofNat 32 n').toNat = n' := toNat_ofNat_lt (by omega)
    refine rel_bind (fetch_rel hal₂ hgv (by rw [hton]; exact hblk)) ?_
    intro r w r' w' _ _ hr
    obtain ⟨b, rfl, rfl, hal₃, hft⟩ := hr
    rw [hton] at hft
    refine rel_pure ⟨rfl, hal₃, fun y hy => ?_⟩
    cases hy
    have hsub := recordsOf_subset (hft.files hgv) (by rw [hft.onward.type g hgv]; exact hdv)
      hmax hft.got.set
    rw [hft.got.block] at hsub
    exact hsub ⟨0, by decide, rfl⟩

/-! ## §4. Paths. -/

/-- A path walk found a directory for the last element, and a name that fits. -/
def PathWalk.Ok (w : PathWalk) (t : Disk) : Prop :=
  w.lastelem.length < MAXNAMELEN ∧
    ∀ dir, w.ret ≠ 0#32 → w.pdir = some dir → dir ∈ allFiles t ∧ fileType t dir = FTYPE_DIR

theorem walkPathFrom_rel (n : Nat) :
    ∀ (path : List Byte) (dir : Option FileP) (x : FileP) (d d' : Disk), path.length ≤ n →
      Alike f d d' → x ∈ allFiles d →
      Rel (fun w w' t t' => w = w' ∧ Alike f t t' ∧ Onward d t ∧ w.Ok t)
        (walkPathFrom dir x path) (walkPathFrom dir x path) d d' := by
  induction n with
  | zero =>
    intro path dir x d d' hlen h hx
    obtain rfl := List.length_eq_zero_iff.mp (Nat.le_zero.mp hlen)
    unfold walkPathFrom
    exact rel_pure ⟨rfl, h, Onward.refl d, Nat.zero_lt_succ _, fun _ hr => absurd rfl hr⟩
  | succ n ih =>
    intro path dir x d d' hlen h hx
    unfold walkPathFrom
    cases path with
    | nil => exact rel_pure ⟨rfl, h, Onward.refl d, Nat.zero_lt_succ _, fun _ hr => absurd rfl hr⟩
    | cons c cs =>
      have hrest := length_rest c cs
      dsimp only
      by_cases hlong : MAXNAMELEN ≤ ((c :: cs).takeWhile (· ≠ slash)).length
      · rw [if_pos hlong]
        exact rel_pure ⟨rfl, h, Onward.refl d, by decide, fun _ _ hd => by cases hd⟩
      rw [if_neg hlong]
      generalize (c :: cs).takeWhile (· ≠ slash) = name at hlong ⊢
      generalize skipSlash ((c :: cs).dropWhile (· ≠ slash)) = rest at hrest ⊢
      refine rel_load (h.record hx) ?_
      by_cases hdir : d x.blk x.fType ≠ FTYPE_DIR
      · rw [if_pos hdir]
        exact rel_pure ⟨rfl, h, Onward.refl d, by decide, fun _ _ hd => by cases hd⟩
      rw [if_neg hdir]
      have hdx : fileType d x = FTYPE_DIR := Classical.not_not.mp hdir
      refine rel_bind (dirLookup_rel h hx hdx (by omega)) ?_
      intro r t r' t' _ _ hr
      obtain ⟨rfl, hal, hon, hin⟩ := hr
      rcases r with e | y
      · dsimp only
        by_cases hlast : e = -E_NOT_FOUND ∧ rest = []
        · rw [if_pos hlast]
          refine rel_pure ⟨rfl, hal, hon, by show name.length < _; omega, fun dir _ hd => ?_⟩
          cases hd
          exact ⟨hon.files hx, by rw [hon.type x hx]; exact hdx⟩
        · rw [if_neg hlast]
          exact rel_pure ⟨rfl, hal, hon, Nat.zero_lt_succ _, fun _ _ hd => by cases hd⟩
      · refine rel_mono (ih rest (some x) y t t' ?_ hal (hin y rfl)) ?_
        · omega
        · intro w w' v v' hw
          obtain ⟨heq, hal', hon', hok⟩ := hw
          exact ⟨heq, hal', hon.trans hon', hok⟩

/-! ## §5. Making a file. -/

/-- Records start at a multiple of 64 words, or at word 2 of the super block. -/
theorem record_idx (h : FsInv (allFiles d) ∅ d) (hg : g ∈ allFiles d) : g.idx ≤ 960 := by
  rcases h.blk_cases hg with rfl | ⟨_, _, _, k, _, _, _, _, _, hk, hi⟩
  · decide
  · omega

/-- Writing bytes of the name of `g` keeps the disk sound. -/
theorem putName_spec (xs : List Byte) :
    ∀ (j : Nat) (d : Disk), Sound d → g ∈ allFiles d → j + xs.length ≤ MAXNAMELEN →
      wp (putDiskBytes (g.fName + j) xs)
        (fun _ t => Sound t ∧ SameMeta (allFiles d) d t)
        (fun _ _ => False) d := by
  induction xs with
  | nil =>
    intro j d h hg _
    exact ⟨h, SameMeta.refl _ _⟩
  | cons x xs ih =>
    intro j d h hg hj
    rw [List.length_cons] at hj
    have hidx := record_idx h.inv hg
    have hblk : (g.fName + j) / BLKSIZE = g.blk := fName_in_block hidx (by omega)
    have hword : (g.fName + j) % BLKSIZE / 4 = g.idx + j / 4 := by
      unfold FileP.fName BLKSIZE
      unfold MAXNAMELEN at hj
      omega
    unfold putDiskBytes putDiskByte
    rw [bind_assoc, hblk, hword]
    refine wp_bind_ok (load_ok _ _ d) (wp_bind_ok (store_ok _ _ _ d) ?_)
    obtain ⟨hm, hs⟩ := h.writeName hg (show j / 4 < 32 by unfold MAXNAMELEN at hj; omega)
      (putByte (d g.blk (g.idx + j / 4)) ((g.fName + j) % 4) x)
    have hall := hm.allFiles_eq
    rw [Nat.add_assoc]
    refine wp_mono (ih (j + 1) _ hs (by rw [hall]; exact hg) (by omega)) ?_ (fun _ _ h => h)
    intro _ t ht
    obtain ⟨h1, h2⟩ := ht
    rw [hall] at h2
    exact ⟨h1, hm.trans h2⟩

theorem putName_rel (h : Alike f d d') (hg : g ∈ allFiles d) {xs : List Byte}
    (hxs : xs.length ≤ MAXNAMELEN) :
    Rel (fun _ _ t t' => Alike f t t') (putDiskBytes g.fName xs) (putDiskBytes g.fName xs) d d' :=
      by
  intro _ t _ t' hrun hrun'
  have hg' : g ∈ allFiles d' := by
    rw [h.allFiles_eq]
    exact hg
  have hspec := putName_spec xs 0 d h.left hg (by omega)
  have hspec' := putName_spec xs 0 d' h.right hg' (by omega)
  rw [Nat.add_zero] at hspec hspec'
  obtain ⟨hs, hm⟩ := wp_ok hspec hrun
  obtain ⟨hs', -⟩ := wp_ok hspec' hrun'
  refine ⟨hs, hs', ?_⟩
  rw [hm.dataOf_eq]
  have hidx := record_idx h.left.inv hg
  have hnot := DataOnly.record h.left.inv (dataOf_dataOnly d f) hg
  have hsync := sync_putDiskBytes xs g.fName d (X := dataOf d f) (fun k hk => by
    rw [fName_in_block hidx (by omega)]
    exact hnot)
  exact (hsync d' h.agree _ _ _ _ hrun hrun').2

/-- No directory is at the largest size. -/
def DirRoom (d : Disk) : Prop :=
  ∀ g ∈ allFiles d, fileType d g = FTYPE_DIR → fileSize d g + BLKSIZE ≤ MAXFILESIZE

/-- **`file_create`** does the same in both runs. -/
theorem fileCreate_rel (h : Alike f d d') (hroom : DirRoom d) (path : List Byte) :
    Rel (fun r r' t t' => r = r' ∧ Alike f t t') (fileCreate path) (fileCreate path) d d' := by
  refine rel_bind (walkPathFrom_rel _ _ _ _ _ _ le_rfl h .root) ?_
  intro w t w' t' _ _ hw
  obtain ⟨rfl, hal, hon, hlen, hok⟩ := hw
  by_cases h0 : w.ret = 0#32
  · rw [if_pos h0]
    exact rel_pure ⟨rfl, hal⟩
  rw [if_neg h0]
  cases hp : w.pdir with
  | none => exact rel_pure ⟨rfl, hal⟩
  | some dir =>
    obtain ⟨hdt, hdir⟩ := hok dir h0 hp
    dsimp only
    by_cases hnf : w.ret ≠ -E_NOT_FOUND
    · rw [if_pos hnf]
      exact rel_pure ⟨rfl, hal⟩
    rw [if_neg hnf]
    have hdd := hon.dirs dir hdt hdir
    have hsz : fileSize t dir + BLKSIZE ≤ MAXFILESIZE := by
      rw [hon.size dir hdd]
      exact hroom dir hdd (by rw [← hon.type dir hdd]; exact hdir)
    refine rel_bind (dirAllocFile_rel hal hdt hdir hsz) ?_
    intro r u r' u' _ _ hr
    obtain ⟨rfl, hal', hin⟩ := hr
    rcases r with e | x
    · exact rel_pure ⟨rfl, hal'⟩
    · refine rel_bind (putName_rel hal' (hin x rfl) ?_) ?_
      · rw [List.length_append, List.length_singleton]
        omega
      · intro _ v _ v' _ _ hv
        exact rel_pure ⟨rfl, hv⟩

end Jos
