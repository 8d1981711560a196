/-
  Jos.Fs.Mount — **THE FILE SERVER ON A NEW IMAGE** (`fs_init`, `file_open` and `file_read` in
  `fs/fs.c`, against `fs/fsformat.c`).

  `fsformat` leaves the unused slots of an entry as they were in its buffer, so
  a new image is not a disk on which every slot can be trusted.  The server only
  follows the slots of blocks inside a file's size, and those are good.
-/
import Mathlib.Data.List.TakeWhile
import Jos.Fs.Format
import Jos.Fs.ReadSeq

namespace Jos.Fmt

open Exec

variable {xs : List Byte} {b k len start : Nat}

/-! ## §1. Checking the image. -/

def checkSuper : FsM Unit := do
  if (← load 1 0) ≠ FS_MAGIC then
    throw "bad file system magic number"
  else if 0xC0000#32 < (← sNblocks) then
    throw "file system is too large"
  else
    return ()

/-- `assert(!block_is_free(b))`. -/
def assertUsed (b : Nat) : FsM Unit := do
  if ← blockIsFree (BitVec.ofNat 32 b) then
    throw "assertion failed: !block_is_free"
  else
    return ()

/-- `check_bitmap`; the loop runs while `i * BLKBITSIZE < super->s_nblocks`. -/
def checkBitmap : FsM Unit := do
  let nblocks ← sNblocks
  forUp (fun i => assertUsed (2 + i)) 0 ((nblocks.toNat + BLKBITSIZE - 1) / BLKBITSIZE)
  assertUsed 0
  assertUsed 1

section

variable {d : Disk} {f : FileP} {nblocks : Nat} {files : List HostFile}

theorem Formatted.nblocks_eq (h : Formatted nblocks files d) (hin : Input nblocks files) :
    Jos.nblocks d = nblocks := by
  have := hin.blocks
  unfold Jos.nblocks
  rw [h.blocks, BitVec.toNat_ofNat]
  omega

theorem Formatted.checkSuper_ok (h : Formatted nblocks files d) (hin : Input nblocks files) :
    checkSuper d = .ok () d := by
  have hn := h.nblocks_eq hin
  have hmax := hin.blocks
  unfold checkSuper
  rw [bind_ok (load_ok 1 0 d), if_neg (by rw [h.magic]; simp), bind_ok (sNblocks_ok d), if_neg]
  · rfl
  · change ¬ 0xC0000 < Jos.nblocks d
    omega

theorem assertUsed_ok (hb : b < Jos.nblocks d) (hu : inUse d b) : assertUsed b d = .ok () d := by
  unfold assertUsed
  rw [bind_ok (blockIsFree_ok hb), if_neg]
  · rfl
  · simpa using hu

theorem Formatted.checkBitmap_ok (h : Formatted nblocks files d) (hin : Input nblocks files) :
    checkBitmap d = .ok () d := by
  have hn := h.nblocks_eq hin
  have hmax := hin.blocks
  have hroom := hin.room
  have h3 := three_le_startOf files files.length
  have hused : ∀ b < 3, assertUsed b d = .ok () d := by
    intro b hb
    exact assertUsed_ok (by omega) ((h.inUse b (by omega)).mpr (by omega))
  have hone : ((d 1 1).toNat + BLKBITSIZE - 1) / BLKBITSIZE = 1 := by
    change (Jos.nblocks d + BLKBITSIZE - 1) / BLKBITSIZE = 1
    unfold BLKBITSIZE BLKSIZE
    omega
  unfold checkBitmap
  rw [bind_ok (sNblocks_ok d), hone]
  have hloop : forUp (fun i => assertUsed (2 + i)) 0 1 d = .ok () d := by
    show (assertUsed 2 >>= fun _ => pure ()) d = _
    rw [bind_ok (hused 2 (by omega))]
    rfl
  rw [bind_ok hloop, bind_ok (hused 0 (by omega))]
  exact hused 1 (by omega)

/-! ## §2. The blocks of a described file. -/

/-- The slots of blocks inside the size. -/
theorem Describes.slot {start len n : Nat} (h : Describes d f start len) (h0 : 0 < start)
    (hsmall : start + nblk len < 2 ^ 32) (hn : n < nblk len) :
    slotVal d (fileSlot f n) = BitVec.ofNat 32 (start + n) := by
  unfold fileSlot
  by_cases hd : n < NDIRECT
  · rw [if_pos hd]
    exact h.direct n hn hd
  · rw [if_neg hd]
    have hi : indirectOf d f = BitVec.ofNat 32 (start + nblk len) := h.indirect (by omega)
    have hto : (BitVec.ofNat 32 (start + nblk len)).toNat = start + nblk len :=
      toNat_ofNat_lt (by omega)
    show (if indirectOf d f = 0#32 then 0#32 else d (indirectOf d f).toNat (n - NDIRECT)) = _
    rw [if_neg, hi, hto]
    · exact h.entries n hn (by omega)
    · intro hz
      rw [hi] at hz
      rw [hz] at hto
      have : (0 : Nat) = start + nblk len := hto
      omega

/-- What `file_get_block` gives for a block inside the size. -/
theorem Describes.getBlock (filebno : Word) (h : Describes d f start len)
    (h0 : 0 < start) (hlt : start + nblk len + extra (nblk len) ≤ Jos.nblocks d)
    (hlen : len ≤ MAXFILESIZE) (hn : filebno.toNat < nblk len) :
    fileGetBlock f filebno d = .ok (.ok (start + filebno.toNat)) d := by
  have hword : Jos.nblocks d < 2 ^ 32 := BitVec.isLt _
  have hs := h.slot h0 (by omega) hn
  have hto : (BitVec.ofNat 32 (start + filebno.toNat)).toNat = start + filebno.toNat :=
      toNat_ofNat_lt (by omega)
  have hne : BitVec.ofNat 32 (start + filebno.toNat) ≠ 0#32 := by
    intro hz
    rw [hz] at hto
    have : (0 : Nat) = start + filebno.toNat := hto
    omega
  have hmax : filebno.toNat < NDIRECT + NINDIRECT := by
    unfold MAXFILESIZE BLKSIZE at hlen
    unfold nblk at hn
    omega
  have hget := fileGetBlock_there (d := d) (f := f) hmax (by rw [hs]; exact hne)
    (by rw [hs, hto]; omega) (fun hge => by
      have hx : extra (nblk len) = 1 := if_pos (by omega)
      show (d f.blk f.fIndirect).toNat < _
      rw [h.indirect (by omega), BitVec.toNat_ofNat]
      omega)
  rw [hs, hto] at hget
  exact hget

/-- Bytes of the file are bytes of its run of blocks. -/
theorem Describes.fileBytes_eq (h : Describes d f start xs.length)
    (h0 : 0 < start) (hsmall : start + nblk xs.length < 2 ^ 32) (hdata : Holds d (4096 * start) xs)
    (hlen : len = xs.length) : fileBytes d f 0 len = xs := by
  subst hlen
  apply List.ext_getElem (fileBytes_length d f 0 _)
  intro k h1 h2
  have hk : k / 4096 < nblk xs.length := by
    unfold nblk
    omega
  have hs := h.slot h0 hsmall hk
  have hget : (fileBytes d f 0 xs.length)[k] = fileByte d f k := by
    simp [fileBytes, List.getElem_range']
  rw [hget, ← hdata k h2]
  change byteAt d ((slotVal d (fileSlot f (k / 4096))).toNat * 4096 + k % 4096) = _
  rw [hs, BitVec.toNat_ofNat]
  congr 1
  omega

/-- The loop of `file_read` over blocks that are there.  Every pass moves a byte. -/
theorem fileReadLoop_there (stop : Word) (hstop : stop.toNat < 2 ^ 31)
    (hget : ∀ w : Word, w.toNat < nblk stop.toNat → ∃ b,
      fileGetBlock f w d = .ok (.ok b) d ∧ (slotVal d (fileSlot f w.toNat)).toNat = b) (n : Nat) :
    ∀ (pos : Word) (buf : List Byte), pos.toNat ≤ stop.toNat → stop.toNat - pos.toNat ≤ n →
      fileReadLoop f stop n pos buf d =
        .ok (none, buf ++ fileBytes d f pos.toNat (stop.toNat - pos.toNat)) d := by
  induction n with
  | zero =>
    intro pos buf hle hfuel
    have hz : stop.toNat - pos.toNat = 0 := by omega
    rw [hz]
    show EStateM.Result.ok (none, buf) d = .ok (none, buf ++ []) d
    rw [List.append_nil]
  | succ n ih =>
    intro pos buf hle hfuel
    unfold fileReadLoop
    by_cases hlt : pos < stop
    · rw [if_pos hlt]
      rw [BitVec.lt_def] at hlt
      have hpos : pos.toNat < 2 ^ 31 := by omega
      have hdiv := sdiv_toNat hpos
      have hc := chunk_toNat hpos hle
      obtain ⟨b, hb, hslot⟩ := hget (pos.sdiv 4096#32) (by
        unfold nblk
        omega)
      rw [hdiv] at hslot
      rw [bind_ok hb]
      show (diskBytes (blkAddr b pos) (chunk stop pos).toNat >>= fun xs =>
        fileReadLoop f stop n (pos + chunk stop pos) (buf ++ xs)) d = _
      generalize chunk stop pos = c at hc ⊢
      rw [bind_ok (diskBytes_file hpos (by omega) hslot)]
      have hnext : (pos + c).toNat = pos.toNat + c.toNat := by
        rw [BitVec.toNat_add_of_lt (by omega)]
      rw [ih (pos + c) _ (by omega) (by omega), hnext, List.append_assoc, fileBytes_append]
      congr 4
      omega
    · rw [if_neg hlt]
      rw [BitVec.lt_def] at hlt
      have hz : stop.toNat - pos.toNat = 0 := by omega
      rw [hz]
      show EStateM.Result.ok (none, buf) d = .ok (none, buf ++ []) d
      rw [List.append_nil]

/-- **`file_read` of a whole file.** -/
theorem Describes.fileRead_all (h : Describes d f start xs.length)
    (h0 : 0 < start) (hlt : start + nblk xs.length + extra (nblk xs.length) ≤ Jos.nblocks d)
    (hlen : xs.length ≤ MAXFILESIZE) (hdata : Holds d (4096 * start) xs) :
    fileRead f (BitVec.ofNat 32 xs.length) 0#32 d =
      .ok (BitVec.ofNat 32 xs.length, xs) d := by
  have hword : Jos.nblocks d < 2 ^ 32 := BitVec.isLt _
  have hto := sizeWord_toNat hlen
  have h31 : (BitVec.ofNat 32 xs.length).toNat < 2 ^ 31 := by
    unfold MAXFILESIZE NDIRECT NINDIRECT BLKSIZE at hlen
    omega
  unfold fileRead
  rw [bind_ok (load_ok _ _ d), h.size]
  by_cases hz : xs.length = 0
  · -- an empty file: the offset is at its end
    obtain rfl := List.length_eq_zero_iff.mp hz
    rfl
  · rw [if_neg]
    · have hcount : umin (BitVec.ofNat 32 xs.length) (BitVec.ofNat 32 xs.length - 0#32) =
          BitVec.ofNat 32 xs.length := by
        rw [BitVec.sub_zero]
        unfold umin
        rw [if_pos (BitVec.le_refl _)]
      have hloop := fileReadLoop_there (f := f) (d := d) (BitVec.ofNat 32 xs.length) h31 (by
        intro w hw
        rw [hto] at hw
        refine ⟨_, h.getBlock w h0 hlt hlen hw, ?_⟩
        rw [h.slot h0 (by omega) hw, BitVec.toNat_ofNat]
        omega) xs.length 0#32 [] (Nat.zero_le _) (by rw [hto]; exact le_rfl)
      rw [hto] at hloop
      change fileReadLoop f _ _ _ _ d = .ok (none, [] ++ fileBytes d f 0 (xs.length - 0)) d at hloop
      rw [Nat.sub_zero, List.nil_append, h.fileBytes_eq h0 (by omega) hdata rfl] at hloop
      rw [hcount, BitVec.zero_add, hto, bind_ok hloop]
      rfl
    · rw [BitVec.sle_iff_toInt_le, BitVec.toInt_eq_toNat_of_lt (by omega), hto]
      show ¬ (xs.length : Int) ≤ 0
      omega

/-! ## §3. Looking up a name. -/

theorem baseName_noSlash (path : List Byte) : slash ∉ baseName path := by
  intro h
  unfold baseName at h
  rw [List.mem_reverse] at h
  have := List.mem_takeWhile_imp h
  simp at this

theorem baseName_noNul (file : HostFile) : 0#8 ∉ baseName file.path := by
  intro h
  unfold baseName at h
  rw [List.mem_reverse] at h
  exact file.noNul (List.mem_reverse.mp ((List.takeWhile_sublist _).mem h))

theorem Holds.tail {a : Nat} {x : Byte} (h : Holds d a (x :: xs)) : Holds d (a + 1) xs := by
  intro i hi
  have := h (i + 1) (by simpa using hi)
  rw [show a + 1 + i = a + (i + 1) by omega]
  exact this

/-- **`strcmp`** with a string on the disk. -/
theorem strcmp_holds (xs : List Byte) : ∀ (a : Nat) (ys : List Byte), Holds d a (ys ++ [0#8]) →
    0#8 ∉ xs → 0#8 ∉ ys → strcmp a xs d = .ok (decide (ys = xs)) d := by
  induction xs with
  | nil =>
    intro a ys h _ hy
    unfold strcmp
    rw [bind_ok (show diskByte a d = .ok (byteAt d a) d from rfl)]
    have h0 := h 0 (by simp)
    rw [Nat.add_zero] at h0
    cases ys with
    | nil =>
      rw [h0]
      rfl
    | cons y ys =>
      have hne : y ≠ 0#8 := fun he => hy (by simp [he])
      have hb : byteAt d a = y := h0
      rw [hb]
      show EStateM.Result.ok (decide (y = 0#8)) d = _
      simp [hne]
  | cons x xs ih =>
    intro a ys h hx hy
    unfold strcmp
    rw [bind_ok (show diskByte a d = .ok (byteAt d a) d from rfl)]
    have h0 := h 0 (by simp)
    rw [Nat.add_zero] at h0
    cases ys with
    | nil =>
      have hne : (0#8 : Byte) ≠ x := fun he => hx (by simp [he])
      have hb : byteAt d a = 0#8 := h0
      rw [hb, if_neg hne]
      simp
      rfl
    | cons y ys =>
      have hb : byteAt d a = y := h0
      rw [hb]
      by_cases he : y = x
      · rw [if_pos he, ih (a + 1) ys h.tail (fun hm => hx (by simp [hm]))
          (fun hm => hy (by simp [hm]))]
        simp [he]
      · rw [if_neg he]
        simp [he]
        rfl

theorem scanBlock_at {test : FileP → FsM Bool} {b r : Nat} (hhit : test ⟨b, 64 * r⟩ d = .ok true d)
    (n : Nat) : ∀ j, j ≤ r → r < j + n →
      (∀ i, j ≤ i → i < r → test ⟨b, 64 * i⟩ d = .ok false d) →
      scanBlock test b n j d = .ok (some ⟨b, 64 * r⟩) d := by
  induction n with
  | zero => exact fun j h1 h2 => absurd h1 (by omega)
  | succ n ih =>
    intro j hj hr hmiss
    unfold scanBlock
    by_cases he : j = r
    · subst he
      rw [bind_ok hhit]
      rfl
    · rw [bind_ok (hmiss j (Nat.le_refl j) (by omega))]
      exact ih (j + 1) (by omega) (by omega) fun i h1 h2 => hmiss i (by omega) h2

theorem scanBlock_none {test : FileP → FsM Bool} (n : Nat) : ∀ j,
    (∀ i, j ≤ i → i < j + n → test ⟨b, 64 * i⟩ d = .ok false d) →
      scanBlock test b n j d = .ok none d := by
  induction n with
  | zero => exact fun _ _ => rfl
  | succ n ih =>
    intro j hmiss
    unfold scanBlock
    rw [bind_ok (hmiss j (Nat.le_refl j) (by omega))]
    exact ih (j + 1) fun i h1 h2 => hmiss i (by omega) (by omega)

theorem dirEntry_eq (start i : Nat) {r : Nat} (hr : r < 16) :
    dirEntry start (16 * i + r) = ⟨start + i, 64 * r⟩ := by
  unfold dirEntry BLKFILES
  congr 1 <;> omega

/-- **The scan of a directory** stops at the first entry that passes. -/
theorem scanDir_at (test : FileP → FsM Bool) {dir : FileP} {start B k : Nat}
    (hget : ∀ i < B, fileGetBlock dir (BitVec.ofNat 32 i) d = .ok (.ok (start + i)) d)
    (hk : k < 16 * B) (hhit : test (dirEntry start k) d = .ok true d)
    (hmiss : ∀ j < k, test (dirEntry start j) d = .ok false d) (n : Nat) :
    ∀ i, i + n = B → i ≤ k / 16 →
      scanDir test dir n i d = .ok (.ok (some (dirEntry start k))) d := by
  induction n with
  | zero => exact fun i h1 h2 => absurd h1 (by omega)
  | succ n ih =>
    intro i hi hik
    unfold scanDir
    rw [bind_ok (hget i (by omega))]
    show (scanBlock test (start + i) BLKFILES 0 >>= fun r => _) d = _
    by_cases hhere : i = k / 16
    · -- it is in this block
      have hkr := dirEntry_eq start i (show k % 16 < 16 by omega)
      rw [show 16 * i + k % 16 = k by omega] at hkr
      rw [hkr] at hhit ⊢
      rw [bind_ok (scanBlock_at hhit BLKFILES 0 (Nat.zero_le _)
        (by show k % 16 < 0 + 16; omega) fun r _ hr => ?_)]
      · rfl
      · rw [← dirEntry_eq start i (show r < 16 by omega)]
        exact hmiss _ (by omega)
    · rw [bind_ok (scanBlock_none BLKFILES 0 fun r _ hr => ?_)]
      · exact ih (i + 1) (by omega) (by omega)
      · have hr' : r < 0 + 16 := hr
        rw [← dirEntry_eq start i (show r < 16 by omega)]
        exact hmiss _ (by omega)

section
variable (h : Formatted nblocks files d)
include h

/-- The blocks of the root directory. -/
theorem Formatted.root_blocks (hin : Input nblocks files) :
    dirNblock sRoot d = .ok (nblk (files.length * 256)) d ∧
      ∀ i < nblk (files.length * 256), fileGetBlock sRoot (BitVec.ofNat 32 i) d =
        .ok (.ok (startOf files files.length + i)) d := by
  have hn := h.nblocks_eq hin
  have hroom := hin.room
  have h3 := three_le_startOf files files.length
  have hB := hin.dir_le
  have hsize : (d sRoot.blk sRoot.fSize).toNat = 4096 * nblk (files.length * 256) := by
    rw [h.root.size, BitVec.toNat_ofNat]
    omega
  refine ⟨?_, ?_⟩
  · have hrem : (d sRoot.blk sRoot.fSize).srem 4096#32 = 0#32 := by
      apply BitVec.eq_of_toNat_eq
      rw [srem_toNat (by omega), hsize]
      show 4096 * _ % 4096 = 0
      omega
    have hdiv : ((d sRoot.blk sRoot.fSize).sdiv 4096#32).toNat = nblk (files.length * 256) := by
      rw [sdiv_toNat (by omega), hsize]
      omega
    unfold dirNblock
    rw [bind_ok (load_ok _ _ d), if_neg (by simpa using hrem), hdiv]
    rfl
  · intro i hi
    have hto : (BitVec.ofNat 32 i).toNat = i := toNat_ofNat_lt (by omega)
    have hg := h.root.getBlock (BitVec.ofNat 32 i) (by omega) (by
      rw [nblk_mul, hin.dir_extra]
      omega) (by
      unfold MAXFILESIZE NDIRECT NINDIRECT BLKSIZE
      omega) (by rw [hto, nblk_mul]; exact hi)
    rw [hto] at hg
    exact hg
/-- The test of `dir_lookup` at an entry that is in use, and at one that is not. -/
theorem Formatted.strcmp_entry {name : List Byte}
    (h0 : 0#8 ∉ name) {j : Nat} (hj : j < files.length) :
    strcmp (dirEntry (startOf files files.length) j).fName name d =
      .ok (decide (baseName files[j].path = name)) d :=
  strcmp_holds _ _ _ (h.entries j hj).name h0 (baseName_noNul _)

/-- The entry with the name of file `k` is the first that matches. -/
theorem Formatted.lookup (hin : Input nblocks files)
    (hdistinct : (files.map fun f => baseName f.path).Nodup) (hk : k < files.length) :
    dirLookup sRoot (baseName files[k].path) d =
      .ok (.ok (dirEntry (startOf files files.length) k)) d := by
  obtain ⟨hnb, hget⟩ := h.root_blocks hin
  have htest : ∀ j (hj : j < files.length),
      strcmp (dirEntry (startOf files files.length) j).fName (baseName files[k].path) d =
        .ok (decide (baseName files[j].path = baseName files[k].path)) d :=
    fun j hj => h.strcmp_entry (baseName_noNul _) hj
  have hscan := scanDir_at (fun f => strcmp f.fName (baseName files[k].path)) hget
    (show k < 16 * nblk (files.length * 256) by unfold nblk; omega)
    (by rw [htest k hk]; simp) (fun j hj => by
      rw [htest j (by omega)]
      have hne : baseName files[j].path ≠ baseName files[k].path := by
        intro he
        have hinj := List.nodup_iff_injective_get.mp hdistinct
        have heq : (⟨j, by rw [List.length_map]; omega⟩ : Fin (files.map fun f =>
            baseName f.path).length) = ⟨k, by rw [List.length_map]; omega⟩ :=
          hinj (by simpa using he)
        have : j = k := congrArg Fin.val heq
        omega
      simp [hne]) _ 0 (Nat.zero_add _) (Nat.zero_le _)
  unfold dirLookup
  rw [bind_ok hnb, bind_ok hscan]
  rfl

end

/-- What `walk_path` makes of the lookup of the only name of a path. -/
def walked (name : List Byte) : Except Word FileP → PathWalk
  | .error e => if e = -E_NOT_FOUND then ⟨e, some sRoot, none, name⟩ else ⟨e, none, none, []⟩
  | .ok f => ⟨0#32, some sRoot, some f, []⟩

/-- The walk along a path of one name is one lookup in the root. -/
theorem Formatted.walk_one (h : Formatted nblocks files d) {name : List Byte}
    (hne : name ≠ []) (hlen : name.length < MAXNAMELEN) (hslash : slash ∉ name)
    {r : Except Word FileP} (hlook : dirLookup sRoot name d = .ok r d) :
    walkPath (slash :: name) d = .ok (walked name r) d := by
  have hall : ∀ x ∈ name, decide (x ≠ slash) = true := by
    intro x hx
    exact decide_eq_true fun he => hslash (he ▸ hx)
  have htake := List.takeWhile_eq_self_iff.mpr hall
  have hdrop := List.dropWhile_eq_nil_iff.mpr hall
  obtain ⟨c, cs, rfl⟩ := List.exists_cons_of_ne_nil hne
  have hc : c ≠ slash := fun he => hslash (by simp [he])
  have hskip : skipSlash (slash :: c :: cs) = c :: cs := by
    unfold skipSlash
    simp [hc]
  have htype : ¬ d sRoot.blk sRoot.fType ≠ FTYPE_DIR := not_not.mpr h.rootType
  unfold walkPath
  rw [hskip, walkPathFrom]
  rw [htake, hdrop, if_neg (by omega), bind_ok (load_ok _ _ d), if_neg htype, bind_ok hlook]
  cases r with
  | error e =>
    unfold walked
    dsimp only
    by_cases he : e = -E_NOT_FOUND
    · rw [if_pos ⟨he, rfl⟩, if_pos he]
      rfl
    · rw [if_neg fun hc => he hc.1, if_neg he]
      rfl
  | ok f =>
    show walkPathFrom (some sRoot) f (skipSlash []) d = _
    rw [show skipSlash [] = [] from rfl, walkPathFrom]
    rfl

/-- **`file_open` of an input file.** -/
theorem Formatted.open_ok (h : Formatted nblocks files d) (hin : Input nblocks files)
    (hdistinct : (files.map fun f => baseName f.path).Nodup) (hk : k < files.length)
    (hne : baseName files[k].path ≠ []) :
    fileOpen (slash :: baseName files[k].path) d =
      .ok (0#32, some (dirEntry (startOf files files.length) k)) d := by
  have hwalk := h.walk_one hne (hin.names _ (List.getElem_mem hk)) (baseName_noSlash _)
    (h.lookup hin hdistinct hk)
  unfold fileOpen
  rw [bind_ok hwalk]
  rfl

/-! ## §4. The image read back. -/

/-- The blocks that reading `f` from end to end goes to. -/
def reached (d : Disk) (f : FileP) : Set Nat := fun b =>
  ∃ n < fileBlocks d f, (slotVal d (fileSlot f n)).toNat = b ∨
    (NDIRECT ≤ n ∧ (indirectOf d f).toNat = b)

theorem Describes.reached_mem (h : Describes d f start len) (h0 : 0 < start)
    (hsmall : start + nblk len < 2 ^ 32) (hlen : len ≤ MAXFILESIZE) (hb : b ∈ reached d f) :
    start ≤ b ∧ b < start + nblk len + extra (nblk len) := by
  obtain ⟨n, hn, hreach⟩ := hb
  have hn' : n < nblk len := by
    unfold fileBlocks fileSize at hn
    rw [h.size, sizeWord_toNat hlen] at hn
    exact hn
  rcases hreach with hslot | ⟨hbig, hind⟩
  · rw [h.slot h0 hsmall hn', BitVec.toNat_ofNat] at hslot
    omega
  · have hx : extra (nblk len) = 1 := if_pos (by omega)
    change (d f.blk f.fIndirect).toNat = b at hind
    rw [h.indirect (by omega), BitVec.toNat_ofNat] at hind
    omega

/-- **`fsformat` and the server agree.**  Whatever the directory buffer held, the
image passes the checks, every input file can be opened by its base name and reads
back as it was, the blocks on the way are in use and belong to one file only, and
the blocks behind the last one allocated are free. -/
theorem image_reads_back (garbage : Disk) (hmax : nblocks ≤ 1024) (hsome : files ≠ [])
    (hcount : files.length ≤ 128) (hdistinct : (files.map fun f => baseName f.path).Nodup)
    (hnames : ∀ f ∈ files, 1 ≤ (baseName f.path).length ∧ (baseName f.path).length ≤ 127)
    (hsizes : ∀ f ∈ files, f.bytes.length < MAXFILESIZE)
    (hroom : startOf files files.length + nblk (files.length * 256) < nblocks) :
    ∃ s, fsformat nblocks files (host garbage) = .ok () s ∧
      checkSuper (image nblocks s) = .ok () (image nblocks s) ∧
      checkBitmap (image nblocks s) = .ok () (image nblocks s) ∧
      (∃ fp : Nat → FileP,
        (∀ k (hk : k < files.length),
          fileOpen (slash :: baseName files[k].path) (image nblocks s) =
            .ok (0#32, some (fp k)) (image nblocks s) ∧
          fileSize (image nblocks s) (fp k) = files[k].bytes.length ∧
          fileRead (fp k) (BitVec.ofNat 32 files[k].bytes.length) 0#32 (image nblocks s) =
            .ok (BitVec.ofNat 32 files[k].bytes.length, files[k].bytes) (image nblocks s) ∧
          (∀ b ∈ reached (image nblocks s) (fp k), inUse (image nblocks s) b) ∧
          (∀ b ∈ reached (image nblocks s) (fp k), b ∉ reached (image nblocks s) sRoot) ∧
          ∀ j < files.length, j ≠ k → ∀ b ∈ reached (image nblocks s) (fp k),
            b ∉ reached (image nblocks s) (fp j))) ∧
      (∀ b ∈ reached (image nblocks s) sRoot, inUse (image nblocks s) b) ∧
      ∀ b, blockof s.pos ≤ b → b < nblocks → ¬ inUse (image nblocks s) b := by
  have hin : Input nblocks files := by
    refine ⟨fun f hf => ?_, hsizes, hsome, hcount, hmax, hroom⟩
    have := (hnames f hf).2
    unfold MAXNAMELEN
    omega
  obtain ⟨s, hrun, hpos, h⟩ := fsformat_spec garbage hin
  refine ⟨s, hrun, ?_⟩
  generalize image nblocks s = d at h ⊢
  have hn := h.nblocks_eq hin
  have h3 := three_le_startOf files files.length
  have hB := hin.dir_le
  -- the blocks of file `k`, and those of the directory behind all files
  have hmine : ∀ k (hk : k < files.length) b, b ∈ reached d
    (dirEntry (startOf files files.length) k) →
      startOf files k ≤ b ∧ b < startOf files (k + 1) := by
    intro k hk b hb
    have h3k := three_le_startOf files k
    have hle := startOf_mono files (show k + 1 ≤ files.length from hk) le_rfl
    rw [startOf_succ files hk] at hle ⊢
    have hspan : nblk files[k].bytes.length ≤ span files[k] := Nat.le_add_right _ _
    have := (h.entries k hk).toDescribes.reached_mem (by omega) (by omega)
      (le_of_lt (hsizes _ (List.getElem_mem hk))) hb
    unfold span
    omega
  have hroot : ∀ b ∈ reached d sRoot, startOf files files.length ≤ b ∧
      b < startOf files files.length + nblk (files.length * 256) := by
    intro b hb
    have := h.root.reached_mem (by omega) (by rw [nblk_mul]; omega) (by
      unfold MAXFILESIZE NDIRECT NINDIRECT BLKSIZE
      omega) hb
    rw [nblk_mul, hin.dir_extra] at this
    omega
  refine ⟨h.checkSuper_ok hin, h.checkBitmap_ok hin,
    ⟨dirEntry (startOf files files.length), ?_⟩, ?_, ?_⟩
  · intro k hk
    have hlen := hsizes _ (List.getElem_mem hk)
    have h3k := three_le_startOf files k
    have hle := startOf_mono files (show k + 1 ≤ files.length from hk) le_rfl
    have hsucc := startOf_succ files hk
    have hentry := h.entries k hk
    refine ⟨?_, ?_, ?_, ?_, ?_, ?_⟩
    · refine h.open_ok hin hdistinct hk fun hnil => ?_
      have := (hnames _ (List.getElem_mem hk)).1
      rw [hnil] at this
      exact absurd this (by decide)
    · unfold fileSize
      rw [hentry.size, sizeWord_toNat (le_of_lt hlen)]
    · refine hentry.toDescribes.fileRead_all (by omega) ?_ (le_of_lt hlen) hentry.data
      unfold span at hsucc
      omega
    · intro b hb
      have := hmine k hk b hb
      exact (h.inUse b (by omega)).mpr (by omega)
    · intro b hb hb'
      have := hmine k hk b hb
      have := hroot b hb'
      omega
    · intro j hj hne b hb hb'
      have hk' := hmine k hk b hb
      have hj' := hmine j hj b hb'
      -- one of the two files ends before the other starts
      rcases Nat.lt_or_gt_of_ne hne with hlt | hgt
      · have := startOf_mono files (show j + 1 ≤ k from hlt) (le_of_lt hk)
        omega
      · have := startOf_mono files (show k + 1 ≤ j from hgt) (le_of_lt hj)
        omega
  · intro b hb
    have := hroot b hb
    exact (h.inUse b (by omega)).mpr (by omega)
  · intro b hb hlt hu
    rw [hpos, blockof_mul] at hb
    have := (h.inUse b hlt).mp hu
    omega

/-- A file `a` of one byte. -/
def oneFile : List HostFile := [⟨[0x61#8], [7#8], by decide⟩]

/-- The file `a`, and `d/b` of two blocks. -/
def twoFiles : List HostFile :=
  [⟨[0x61#8], [7#8], by decide⟩, ⟨[0x64#8, slash, 0x62#8], List.replicate 5000 9#8, by decide⟩]

theorem image_reads_back_two : ∃ s f,
    fsformat 16 twoFiles (host fun _ _ => 5#32) = .ok () s ∧
      fileOpen [slash, 0x62#8] (image 16 s) = .ok (0#32, some f) (image 16 s) ∧
      fileRead f 5000#32 0#32 (image 16 s) =
        .ok (5000#32, List.replicate 5000 9#8) (image 16 s) := by
  have hlen : twoFiles[1].bytes.length = 5000 := List.length_replicate
  have hsizes : ∀ f ∈ twoFiles, f.bytes.length < MAXFILESIZE := by
    intro f hf
    rcases List.mem_pair.mp hf with rfl | rfl
    · decide
    · exact hlen.trans_lt (by decide)
  have hroom : startOf twoFiles twoFiles.length + nblk (twoFiles.length * 256) < 16 := by
    have hspan : span twoFiles[1] = 2 := by
      rw [span, hlen]
      decide
    rw [show twoFiles.length = 2 from rfl, startOf_succ _ (by decide), hspan]
    decide
  obtain ⟨s, hrun, -, -, ⟨fp, hfp⟩, -, -⟩ := @image_reads_back 16 twoFiles
    (fun _ _ => 5#32) (by decide) (by decide) (by decide) (by decide) (by decide) hsizes hroom
  obtain ⟨hopen, -, hread, -⟩ := hfp 1 (by decide)
  rw [hlen] at hread
  exact ⟨s, fp 1, hrun, hopen, hread⟩

/-- **The last block allocated is in use**: it is the last one of the directory. -/
theorem last_block_in_use : ∃ s, fsformat 8 oneFile (host fun _ _ => 0#32) = .ok () s ∧
    blockof s.pos = 5 ∧ inUse (image 8 s) 4 := by
  have hin : Input 8 oneFile := ⟨by decide, by decide, by decide, by decide, by decide, by decide⟩
  obtain ⟨s, hrun, hpos, h⟩ := fsformat_spec (fun _ _ => 0#32) hin
  have hend : startOf oneFile oneFile.length + nblk (oneFile.length * 256) = 5 := by decide
  rw [hend] at hpos
  refine ⟨s, hrun, ?_, ?_⟩
  · rw [hpos, blockof_mul]
  · refine (h.inUse 4 (by omega)).mpr ?_
    omega

end

end Jos.Fmt
