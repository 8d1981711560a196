/-
  Jos.Fs.Sync — **TWO DISKS THAT DIFFER IN SOME BLOCKS.**

  `Agree X d d'`: outside the blocks `X` the two disks are the same.  A
  function that loads nothing from `X` does the same on both: `Sync X m d` says
  that, from `d` and from any disk that agrees with it, `m` returns the same
  result and leaves disks that agree again.  What matters is which blocks are
  loaded; storing the same word at the same place never hurts.

  The blocks of interest are data blocks of regular files (`DataOnly`).  The
  functions that find, take and free blocks load none of them.
-/
import Jos.Fs.Tree
import Jos.Fs.Dir
import Jos.Lib.TwoRuns

namespace Jos

open Exec

def Agree (X : Set Nat) (d d' : Disk) : Prop := ∀ p, p ∉ X → d p = d' p

def Sync (X : Set Nat) {α : Type} (m : FsM α) (d : Disk) : Prop :=
  ∀ d', Agree X d d' → Rel (fun a b t t' => a = b ∧ Agree X t t') m m d d'

variable {X : Set Nat} {files : Set FileP} {d d' : Disk} {f g : FileP} {α β : Type}

theorem Agree.mono {Y : Set Nat} (h : Agree X d d') (hXY : X ⊆ Y) : Agree Y d d' :=
  fun p hp => h p fun hX => hp (hXY hX)

theorem Agree.putWord (h : Agree X d d') (p i : Nat) (w : Word) :
    Agree X (putWord d p i w) (putWord d' p i w) := by
  intro q hq
  funext j
  by_cases hqp : q = p
  · subst hqp
    unfold Jos.putWord
    rw [Function.update_self, Function.update_self, h q hq]
  · rw [putWord_of_ne _ _ (Or.inl hqp), putWord_of_ne _ _ (Or.inl hqp), h q hq]

/-! ## §1. Rules. -/

theorem sync_pure (a : α) : Sync X (pure a) d := fun _ h => rel_pure ⟨rfl, h⟩

theorem sync_throw (e : String) : Sync X (throw e : FsM α) d :=
  fun _ _ => rel_of_error (show (throw e : FsM α) d = .error e d from rfl)

theorem sync_store (p i : Nat) (w : Word) : Sync X (store p i w) d :=
  fun d' h => rel_of_ok (store_ok p i w d) (store_ok p i w d') ⟨rfl, h.putWord p i w⟩

theorem sync_clearBlock (b : Nat) : Sync X (clearBlock b) d := by
  intro d' h
  refine rel_of_ok (clearBlock_ok b d) (clearBlock_ok b d') ⟨rfl, fun p hp => ?_⟩
  by_cases hpb : p = b
  · rw [hpb, Function.update_self, Function.update_self]
  · rw [Function.update_of_ne hpb, Function.update_of_ne hpb, h p hp]

/-- **The sequence rule**; the continuation knows where the first part led. -/
theorem Sync.bind {m : FsM α} {k : α → FsM β} (hm : Sync X m d)
    (hk : ∀ a t, m d = .ok a t → Sync X (k a) t) : Sync X (m >>= k) d := by
  intro d' h
  refine rel_bind (hm d' h) ?_
  intro a t b t' hrun _ hab
  obtain ⟨rfl, hagree⟩ := hab
  exact hk a t hrun t' hagree

/-- A load from a block outside `X`, and what follows. -/
theorem sync_load {p i : Nat} {k : Word → FsM β} (hp : p ∉ X) (hk : Sync X (k (d p i)) d) :
    Sync X (load p i >>= k) d := by
  have hload : Sync X (load p i) d := fun d' h =>
    rel_of_ok (load_ok p i d) (load_ok p i d') ⟨by rw [h p hp], h⟩
  apply hload.bind
  intro a t hrun
  cases hrun
  exact hk

/-- A store, and what follows. -/
theorem sync_store_bind {p i : Nat} {w : Word} {k : Unit → FsM β}
    (hk : Sync X (k ()) (putWord d p i w)) : Sync X (store p i w >>= k) d := by
  apply (sync_store p i w).bind
  intro a t hrun
  cases hrun
  exact hk

theorem sync_ite {c : Prop} [Decidable c] {m n : FsM α} (hm : c → Sync X m d)
    (hn : ¬ c → Sync X n d) : Sync X (if c then m else n) d := by
  by_cases h : c
  · rw [if_pos h]
    exact hm h
  · rw [if_neg h]
    exact hn h

/-! ## §2. Blocks. -/

theorem sync_diskaddr (h1 : 1 ∉ X) (w : Word) : Sync X (diskaddr w) d := by
  apply sync_load h1
  apply sync_ite
  · intro _
    exact sync_throw _
  · intro _
    exact sync_pure _

section

variable (hres : ∀ p, Reserved d p → p ∉ X)
include hres

theorem sync_blockIsFree (w : Word) : Sync X (blockIsFree w) d := by
  apply sync_load (hres 1 reserved_one)
  apply sync_ite
  · intro _
    exact sync_pure _
  · intro hlt
    rw [BitVec.not_le, BitVec.lt_def] at hlt
    apply sync_load (hres _ (reserved_bitmapBlk hlt))
    exact sync_pure _

theorem sync_allocBlockFrom (n : Nat) : ∀ i, i + n = nblocks d → Sync X (allocBlockFrom n i) d := by
  induction n with
  | zero =>
    intro i _
    exact sync_pure _
  | succ n ih =>
    intro i hi
    have hlt : i < nblocks d := by omega
    apply (sync_blockIsFree hres _).bind
    intro free t hrun
    -- the test leaves the disk alone
    rw [blockIsFree_ok hlt] at hrun
    cases hrun
    apply sync_ite
    · intro _
      apply sync_load (hres _ (reserved_bitmapBlk hlt))
      apply sync_store_bind
      apply (sync_diskaddr (hres 1 reserved_one) _).bind
      intro _ t' _
      exact sync_pure _
    · intro _
      exact ih (i + 1) (by omega)

theorem sync_allocBlock : Sync X allocBlock d := by
  apply sync_load (hres 1 reserved_one)
  exact sync_allocBlockFrom hres _ 0 (by unfold nblocks; omega)

theorem sync_fileBlockWalk (hf : f.blk ∉ X) (filebno : Word) (alloc : Bool) :
    Sync X (fileBlockWalk f filebno alloc) d := by
  have h1 := hres 1 reserved_one
  apply sync_ite
  · intro _
    exact sync_pure _
  intro _
  apply sync_ite
  · intro _
    apply sync_load hf
    apply sync_ite
    · intro _
      apply (sync_diskaddr h1 _).bind
      intro _ t _
      exact sync_pure _
    intro _
    apply sync_ite
    · intro _
      apply (sync_allocBlock hres).bind
      intro w t _
      apply (sync_diskaddr h1 w).bind
      intro b t _
      apply (sync_clearBlock b).bind
      intro _ t _
      apply sync_store_bind
      apply sync_load hf
      apply (sync_diskaddr h1 _).bind
      intro _ t _
      exact sync_pure _
    · intro _
      exact sync_pure _
  · intro _
    exact sync_pure _

end

/-! ## §3. Blocks that hold data only. -/

/-- Every block of `X` is a data block of a regular file. -/
def DataOnly (files : Set FileP) (d : Disk) (X : Set Nat) : Prop :=
  ∀ p ∈ X, ∃ f ∈ files, fileType d f ≠ FTYPE_DIR ∧ ∃ n < NDIRECT + NINDIRECT,
    slotVal d (fileSlot f n) ≠ 0#32 ∧ (slotVal d (fileSlot f n)).toNat = p

section

variable (h : FsInv files ∅ d) (hX : DataOnly files d X)
include h hX

theorem DataOnly.reserved {p : Nat} (hr : Reserved d p) : p ∉ X := by
  intro hp
  obtain ⟨f, hf, _, n, hn, h0, rfl⟩ := hX p hp
  exact h.slot_free _ (fileSlot_in hf hn) h0 hr

theorem DataOnly.record (hg : g ∈ files) : g.blk ∉ X := by
  intro hp
  obtain ⟨f, hf, hreg, n, hn, h0, he⟩ := hX _ hp
  rcases h.blk_cases hg with rfl | ⟨_, g', m, k, hg', hdir, hm, h0', hb, _⟩
  · exact h.slot_free _ (fileSlot_in hf hn) h0 (by rw [he]; exact reserved_one)
  · have hs := h.slot_inj _ _ (fileSlot_in hf hn) (fileSlot_in hg' hm) h0
      (BitVec.eq_of_toNat_eq (by rw [he, hb]))
    rw [(fileSlot_inj hs).1] at hreg
    exact hreg hdir

theorem DataOnly.indirect (hg : g ∈ files) : (indirectOf d g).toNat ∉ X := by
  intro hp
  obtain ⟨f, hf, _, n, hn, h0, he⟩ := hX _ hp
  have hs := h.slot_inj (fileSlot f n) (.indirect g) (fileSlot_in hf hn) hg h0
    (BitVec.eq_of_toNat_eq he)
  exact fileSlot_ne_indirect _ _ _ hs

end

theorem DataOnly.grows (hX : DataOnly files d X) (hg : Grows files f d d') :
    DataOnly files d' X := by
  intro p hp
  obtain ⟨g, hgf, hreg, n, hn, h0, he⟩ := hX p hp
  have hk := hg.kept _ (fileSlot_in hgf hn) h0
  refine ⟨g, hgf, by rw [hg.fileType_eq hgf]; exact hreg, n, hn, ?_, ?_⟩
  · rw [hk]
    exact h0
  · rw [hk]
    exact he

/-- **`file_get_block` loads no data block.** -/
theorem sync_fileGetBlock (h : FsInv files ∅ d) (hX : DataOnly files d X) (hf : f ∈ files)
    {filebno : Word} (hn : filebno.toNat < fileBlocks d f) : Sync X (fileGetBlock f filebno) d := by
  have hres : ∀ p, Reserved d p → p ∉ X := fun p hr => DataOnly.reserved h hX hr
  have hmax : filebno.toNat < NDIRECT + NINDIRECT := h.block_lt hf hn
  apply (sync_fileBlockWalk hres (DataOnly.record h hX hf) filebno true).bind
  intro r t hrun
  obtain ⟨loc, rfl, ht, hw, hg, -⟩ := wp_ok (fileBlockWalk_spec h hf hmax) hrun
  -- the slot lies in the record or in the indirect block
  have hXt := hX.grows hg
  have hloc : loc.1 ∉ X := by
    intro hmem
    exact hw.outside (fun he => DataOnly.record ht hXt hf (by rw [← he]; exact hmem))
      (fun _ he => DataOnly.indirect ht hXt hf (by rw [← he]; exact hmem)) rfl
  have hrest : ∀ u, Sync X (load loc.1 loc.2 >>= fun w => diskaddr w >>= fun b =>
      (pure (.ok b) : FsM (Except Word Nat))) u := by
    intro u
    apply sync_load hloc
    apply (sync_diskaddr (hres 1 reserved_one) _).bind
    intro b v _
    exact sync_pure _
  apply sync_load hloc
  apply sync_ite
  · intro _
    apply (sync_allocBlock fun p hr => DataOnly.reserved ht hXt hr).bind
    intro w u _
    apply sync_store_bind
    exact hrest _
  · intro _
    exact hrest _

/-! ## §4. Freeing blocks and setting sizes. -/

/-- The loop rule: `I` holds of the disk whenever the counter is `i`. -/
theorem sync_forUp {body : Nat → FsM Unit} {I : Nat → Disk → Prop} {k : Unit → FsM β} (n : Nat) :
    ∀ (lo : Nat) (d : Disk), I lo d →
      (∀ i t, lo ≤ i → i < lo + n → I i t → Sync X (body i) t ∧
        wp (body i) (fun _ t' => I (i + 1) t') (fun _ _ => True) t) →
      (∀ t, I (lo + n) t → Sync X (k ()) t) → Sync X (forUp body lo n >>= k) d := by
  induction n with
  | zero =>
    intro lo d h0 _ hk
    exact hk d h0
  | succ n ih =>
    intro lo d h0 hstep hk
    obtain ⟨hsync, hwp⟩ := hstep lo d (Nat.le_refl lo) (by omega) h0
    show Sync X ((body lo >>= fun _ => forUp body (lo + 1) n) >>= k) d
    rw [bind_assoc]
    apply hsync.bind
    intro _ t hrun
    have h1 := wp_ok hwp hrun
    apply ih (lo + 1) t h1
    · intro i u hlo hhi hi
      exact hstep i u (by omega) (by omega) hi
    · intro u hu
      rw [show lo + 1 + n = lo + (n + 1) by omega] at hu
      exact hk u hu

/-- What is loaded to find the slots of `f` lies outside `X`. -/
structure Visible (X : Set Nat) (d : Disk) (f : FileP) : Prop where
  reserved : ∀ p, Reserved d p → p ∉ X
  record : f.blk ∉ X
  indirect : indirectOf d f ≠ 0#32 → (indirectOf d f).toNat ∉ X

theorem DataOnly.visible (h : FsInv files ∅ d) (hX : DataOnly files d X) (hf : f ∈ files) :
    Visible X d f :=
  ⟨fun _ hr => DataOnly.reserved h hX hr, DataOnly.record h hX hf,
    fun _ => DataOnly.indirect h hX hf⟩

/-- Losing blocks hides nothing. -/
theorem Visible.shrinks (hv : Visible X d f) (hf : f ∈ files) (hs : Shrinks files g d d') :
    Visible X d' f := by
  refine ⟨?_, hv.record, ?_⟩
  · intro p hr
    rw [Reserved.of_nblocks hs.nblocks] at hr
    exact hv.reserved p hr
  · intro hi
    rcases hs.slot (.indirect f) hf with h1 | h1
    · rw [slotVal_indirect, slotVal_indirect] at h1
      rw [h1] at hi ⊢
      exact hv.indirect hi
    · exact absurd h1 hi

theorem sync_freeBlock (hres : ∀ p, Reserved d p → p ∉ X) {w : Word} (hw : w.toNat < nblocks d) :
    Sync X (freeBlock w) d := by
  apply sync_ite
  · intro _
    exact sync_throw _
  · intro _
    apply sync_load (hres _ (reserved_bitmapBlk hw))
    exact sync_store _ _ _

theorem sync_fileFreeBlock (h : FsInv files ∅ d) (hf : f ∈ files) (hv : Visible X d f)
    {filebno : Word} (hn : filebno.toNat < NDIRECT + NINDIRECT) :
    Sync X (fileFreeBlock f filebno) d := by
  apply (sync_fileBlockWalk hv.reserved hv.record filebno false).bind
  intro r t hrun
  rcases fileBlockWalk_noAlloc h hf hn with ⟨loc, heq, hw⟩ | ⟨r', heq, h0⟩
  · rw [heq] at hrun
    cases hrun
    have hloc : loc.1 ∉ X := fun hmem =>
      hw.outside (fun he => hv.record (by rw [← he]; exact hmem))
        (fun hi he => hv.indirect hi (by rw [← he]; exact hmem)) rfl
    apply sync_load hloc
    apply sync_ite
    · intro hne
      rw [hw.load] at hne ⊢
      apply (sync_freeBlock hv.reserved (h.slot_lt _ (fileSlot_in hf hn) hne)).bind
      intro _ u _
      apply sync_store_bind
      exact sync_pure _
    · intro _
      exact sync_pure _
  · rw [heq] at hrun
    cases hrun
    exact sync_pure _

theorem sync_fileTruncateBlocks (h : FsInv files ∅ d) (hf : f ∈ files)
    (hreg : fileType d f ≠ FTYPE_DIR) (hv : Visible X d f) (newsize : Word) :
    Sync X (fileTruncateBlocks f newsize) d := by
  have holdN : (sizeBlocks (d f.blk f.fSize)).toNat = fileBlocks d f :=
    sizeBlocks_toNat (h.size_le f hf)
  apply sync_load hv.record
  dsimp only
  rw [holdN]
  -- every round frees one block, so `f` stays visible
  apply sync_forUp (I := fun _ t => FsInv files ∅ t ∧ Shrinks files f d t)
  · exact ⟨h, Shrinks.refl files f d⟩
  · intro i t hlo hhi ht
    obtain ⟨ht, hsh⟩ := ht
    have hi := h.block_lt (n := i) hf (by omega)
    have hto : (BitVec.ofNat 32 i).toNat = i := toNat_ofNat_lt (by omega)
    have hlt : (BitVec.ofNat 32 i).toNat < NDIRECT + NINDIRECT := by
      rw [hto]
      exact hi
    constructor
    · apply (sync_fileFreeBlock ht hf (hv.shrinks hf hsh) hlt).bind
      intro _ u _
      exact sync_pure _
    · apply wp_seq (wp_mono (fileFreeBlock_spec ht hf (by rw [hsh.fileType_eq hf]; exact hreg) hlt)
        (fun _ _ h => h) (fun _ _ h => h.elim))
      intro _ u hu
      exact ⟨hu.1, hsh.trans hu.2.1⟩
  · intro t ht
    obtain ⟨ht, hsh⟩ := ht
    have hvt := hv.shrinks hf hsh
    apply sync_ite
    · intro _
      apply sync_load hvt.record
      apply sync_ite
      · intro hi
        apply (sync_freeBlock hvt.reserved (ht.slot_lt (.indirect f) hf hi)).bind
        intro _ u _
        exact sync_store _ _ _
      · intro _
        exact sync_pure _
    · intro _
      exact sync_pure _

/-- **`file_set_size` loads no data block.** -/
theorem sync_fileSetSize (h : FsInv files ∅ d) (hX : DataOnly files d X) (hf : f ∈ files)
    (hreg : fileType d f ≠ FTYPE_DIR) (newsize : Word) : Sync X (fileSetSize f newsize) d := by
  have hv := hX.visible h hf
  apply sync_load hv.record
  apply sync_ite
  · intro _
    apply (sync_fileTruncateBlocks h hf hreg hv newsize).bind
    intro _ t _
    apply sync_store_bind
    exact sync_pure _
  · intro _
    apply sync_store_bind
    exact sync_pure _

/-! ## §5. Bytes. -/

theorem sync_diskByte {a : Nat} (ha : a / BLKSIZE ∉ X) : Sync X (diskByte a) d := by
  apply sync_load ha
  exact sync_pure _

theorem sync_diskBytes (n : Nat) :
    ∀ a, (∀ k < n, (a + k) / BLKSIZE ∉ X) → Sync X (diskBytes a n) d := by
  induction n with
  | zero =>
    intro a _
    exact sync_pure _
  | succ n ih =>
    intro a ha
    apply (sync_diskByte (ha 0 (by omega))).bind
    intro x t hrun
    cases hrun
    apply (ih (a + 1) ?_).bind
    · intro xs u _
      exact sync_pure _
    · intro k hk
      rw [show a + 1 + k = a + (k + 1) by omega]
      exact ha (k + 1) (by omega)

theorem sync_putDiskBytes (xs : List Byte) :
    ∀ (a : Nat) (d : Disk), (∀ k < xs.length, (a + k) / BLKSIZE ∉ X) →
      Sync X (putDiskBytes a xs) d := by
  induction xs with
  | nil =>
    intro a d _
    exact sync_pure _
  | cons x xs ih =>
    intro a d ha
    unfold putDiskBytes putDiskByte
    rw [bind_assoc]
    apply sync_load (ha 0 (by simp))
    apply sync_store_bind
    apply ih
    intro k hk
    rw [show a + 1 + k = a + (k + 1) by omega]
    exact ha (k + 1) (by simpa using hk)

theorem sync_strcmp (name : List Byte) :
    ∀ a, (∀ k ≤ name.length, (a + k) / BLKSIZE ∉ X) → Sync X (strcmp a name) d := by
  induction name with
  | nil =>
    intro a ha
    apply (sync_diskByte (ha 0 (by simp))).bind
    intro c t _
    exact sync_pure _
  | cons x xs ih =>
    intro a ha
    apply (sync_diskByte (ha 0 (by simp))).bind
    intro c t hrun
    cases hrun
    apply sync_ite
    · intro _
      apply ih (a + 1)
      intro k hk
      rw [show a + 1 + k = a + (k + 1) by omega]
      exact ha (k + 1) (by simpa using hk)
    · intro _
      exact sync_pure _

end Jos
